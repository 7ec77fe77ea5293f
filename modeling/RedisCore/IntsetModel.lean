import RedisCore.CTypes
import RedisCore.Outcome

/-! The intset of `intset.c`: a header and one allocated array of little-endian integers, all of
the width that the header names.  Positions are `int`s, and an access outside the array is a
`Fault`. -/

namespace RedisCore.IntegerSet

def intsetEncInt16 : ℕ := 2
def intsetEncInt32 : ℕ := 4
def intsetEncInt64 : ℕ := 8

structure Intset where
  encoding : ℕ
  length : ℕ
  contents : Bytes
deriving DecidableEq, Repr

def _intsetValueEncoding (v : ℤ) : ℕ :=
  if v < -2^31 ∨ v > 2^31-1 then intsetEncInt64
  else if v < -2^15 ∨ v > 2^15-1 then intsetEncInt32
  else intsetEncInt16

def elementOffset (pos : ℤ) (size : ℕ) : Except Fault ℕ :=
  if pos < 0 then .error .outOfBounds else .ok (pos.toNat*size)

def loadElement (is : Intset) (pos : ℤ) (size : ℕ) : Except Fault ℤ := do
  let p ← elementOffset pos size
  let bs ← loadBytes is.contents p size
  return toSigned (8*size) (leNat bs)

def storeElement (is : Intset) (pos : ℤ) (size : ℕ) (value : ℤ) : Except Fault Intset := do
  let p ← elementOffset pos size
  let contents ← storeBytes is.contents p (leBytes size (toUnsigned (8*size) value))
  return { is with contents }

def _intsetGetEncoded (is : Intset) (pos : ℤ) (enc : ℕ) : Except Fault ℤ :=
  if enc = intsetEncInt64 then loadElement is pos 8
  else if enc = intsetEncInt32 then loadElement is pos 4
  else loadElement is pos 2

def _intsetGet (is : Intset) (pos : ℤ) : Except Fault ℤ := _intsetGetEncoded is pos is.encoding

def _intsetSet (is : Intset) (pos value : ℤ) : Except Fault Intset :=
  if is.encoding = intsetEncInt64 then storeElement is pos 8 value
  else if is.encoding = intsetEncInt32 then storeElement is pos 4 value
  else storeElement is pos 2 value

def intsetNew : Intset := ⟨intsetEncInt16, 0, []⟩

/-- The byte count is a `uint32_t`: it wraps without a check. -/
def intsetResize (is : Intset) (len : ℕ) : Intset :=
  { is with contents := reallocBytes is.contents (len*is.encoding%2^32) }

def searchLoop (is : Intset) (value : ℤ) : ℕ → ℤ → ℤ → ℤ → ℤ → Except Fault (ℤ × ℤ × ℤ)
  | 0, _, _, _, _ => .error .outOfFuel
  | fuel+1, min, max, mid, cur =>
    if max ≥ min then do
      let mid : ℤ := ((toUnsigned 32 min+toUnsigned 32 max)%2^32/2 : ℕ)
      let cur ← _intsetGet is mid
      if value > cur then searchLoop is value fuel (toInt (mid+1)) max mid cur
      else if value < cur then searchLoop is value fuel min (toInt (mid-1)) mid cur
      else .ok (min, mid, cur)
    else .ok (min, mid, cur)

def intsetSearch (is : Intset) (value : ℤ) : Except Fault (Bool × ℕ) :=
  let max := toInt ((is.length : ℤ)-1)
  if is.length = 0 then .ok (false, 0)
  else do
    let last ← _intsetGet is max
    if value > last then .ok (false, is.length)
    else do
      let first ← _intsetGet is 0
      if value < first then .ok (false, 0)
      else do
        -- every round drops at least one position of the window
        let (min, mid, cur) ← searchLoop is value (is.length+1) 0 max (-1) (-1)
        if value = cur then .ok (true, toUnsigned 32 mid) else .ok (false, toUnsigned 32 min)

def upgradeLoop (curenc : ℕ) (prepend : ℤ) : ℕ → Intset → Except Fault Intset
  | 0, is => .ok is
  | length+1, is => do
    let v ← _intsetGetEncoded is length curenc
    let is ← _intsetSet is (length+prepend) v
    upgradeLoop curenc prepend length is

def intsetUpgradeAndAdd (is : Intset) (value : ℤ) : Except Fault Intset := do
  let curenc := is.encoding
  let newenc := _intsetValueEncoding value
  let prepend : ℤ := if value < 0 then 1 else 0
  let is := { is with encoding := newenc }
  let is := intsetResize is ((is.length+1)%2^32)
  -- a length of 2^31 or more would start the `int` below zero
  let is ← (if toInt is.length < 0 then .error .outOfBounds
    else upgradeLoop curenc prepend is.length is)
  let is ← (if prepend = 1 then _intsetSet is 0 value
    else _intsetSet is (toInt is.length) value)
  return { is with length := (is.length+1)%2^32 }

def intsetMoveTail (is : Intset) (source target : ℕ) : Except Fault Intset := do
  let bytes := toUnsigned 32 ((is.length : ℤ)-source)
  let size := if is.encoding = intsetEncInt64 then 8
    else if is.encoding = intsetEncInt32 then 4 else 2
  let contents ← moveBytes is.contents (target*size) (source*size) (bytes*size%2^32)
  return { is with contents }

def intsetAdd (is : Intset) (value : ℤ) : Except Fault (Intset × Bool) := do
  if _intsetValueEncoding value > is.encoding then
    let is ← intsetUpgradeAndAdd is value
    return (is, true)
  else
    let (found, pos) ← intsetSearch is value
    if found then return (is, false)
    else
      let is := intsetResize is ((is.length+1)%2^32)
      let is ← (if pos < is.length then intsetMoveTail is pos ((pos+1)%2^32) else .ok is)
      let is ← _intsetSet is (toInt pos) value
      return ({ is with length := (is.length+1)%2^32 }, true)

def intsetRemove (is : Intset) (value : ℤ) : Except Fault (Intset × Bool) := do
  if _intsetValueEncoding value ≤ is.encoding then
    let (found, pos) ← intsetSearch is value
    if found then
      let len := is.length
      let is ← (if pos < len-1 then intsetMoveTail is ((pos+1)%2^32) pos else .ok is)
      let is := intsetResize is (len-1)
      return ({ is with length := len-1 }, true)
    else return (is, false)
  else return (is, false)

def intsetFind (is : Intset) (value : ℤ) : Except Fault Bool := do
  if _intsetValueEncoding value ≤ is.encoding then
    let (found, _) ← intsetSearch is value
    return found
  else return false

/-- `intsetGet`: `none` is the return value 0. -/
def intsetGet (is : Intset) (pos : ℕ) : Except Fault (Option ℤ) :=
  if pos < is.length then do
    let value ← _intsetGet is (toInt pos)
    return some value
  else .ok none

def intsetLen (is : Intset) : ℕ := is.length

end RedisCore.IntegerSet
