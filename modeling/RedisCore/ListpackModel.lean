import RedisCore.DecimalText

/-! The listpack of `listpack.c`: a block of bytes holding a sequence of strings and integers.
Pointers into the block are offsets. -/

namespace RedisCore.Listpack
open UInt8 (ofNat)

def lpHdrSize : ℕ := 6

def lpHdrNumeleUnknown : ℕ := 65535

def uint32Max : ℕ := 2^32-1

def lpEof : UInt8 := 0xff

def lpEncodingIs7BitUint (b : UInt8) : Bool := b &&& 0x80 = 0
def lpEncodingIs6BitStr (b : UInt8) : Bool := b &&& 0xc0 = 0x80
def lpEncodingIs13BitInt (b : UInt8) : Bool := b &&& 0xe0 = 0xc0
def lpEncodingIs12BitStr (b : UInt8) : Bool := b &&& 0xf0 = 0xe0
def lpEncodingIs16BitInt (b : UInt8) : Bool := b = 0xf1
def lpEncodingIs24BitInt (b : UInt8) : Bool := b = 0xf2
def lpEncodingIs32BitInt (b : UInt8) : Bool := b = 0xf3
def lpEncodingIs64BitInt (b : UInt8) : Bool := b = 0xf4
def lpEncodingIs32BitStr (b : UInt8) : Bool := b = 0xf0

def lpEncoding6BitStrLen (b : UInt8) : ℕ := (b &&& 0x3f).toNat

def lpEncoding12BitStrLen (m : Bytes) (p : ℕ) : Except Fault ℕ := do
  let hi ← loadByte m p
  let lo ← loadByte m (p+1)
  .ok ((hi &&& 0x0f).toNat*256+lo.toNat)

def lpEncoding32BitStrLen (m : Bytes) (p : ℕ) : Except Fault ℕ := do
  let bs ← loadBytes m (p+1) 4
  .ok (leNat bs)

def lpGetTotalBytes (lp : Bytes) : Except Fault ℕ := do
  let bs ← loadBytes lp 0 4
  .ok (leNat bs)

def lpGetNumElements (lp : Bytes) : Except Fault ℕ := do
  let bs ← loadBytes lp 4 2
  .ok (leNat bs)

def lpSetTotalBytes (lp : Bytes) (v : ℕ) : Except Fault Bytes := storeBytes lp 0 (leBytes 4 v)

def lpSetNumElements (lp : Bytes) (v : ℕ) : Except Fault Bytes := storeBytes lp 4 (leBytes 2 v)

def lpNew : Bytes := leBytes 4 (lpHdrSize+1) ++ (leBytes 2 0 ++ [lpEof])

/-- `lpStringToInt64` is the text of `string2ll` with one branch that is never taken: a text of
one byte 0 has been accepted before. -/
def lpStringToInt64 (s : Bytes) : Option ℤ := string2ll s

def lpIntBits (bits : ℕ) (v : ℤ) : ℕ := (if v < 0 then 2^bits+v else v).toNat

/-- The integer part of `lpEncodeGetType`: the bytes of `intenc`, `enclen` being their number. -/
def lpEncodeInt (v : ℤ) : Bytes :=
  if v ≥ 0 ∧ v ≤ 127 then [ofNat v.toNat]
  else if v ≥ -4096 ∧ v ≤ 4095 then
    [ofNat (lpIntBits 13 v/256) ||| 0xc0, ofNat (lpIntBits 13 v)]
  else if v ≥ -32768 ∧ v ≤ 32767 then 0xf1 :: leBytes 2 (lpIntBits 16 v)
  else if v ≥ -8388608 ∧ v ≤ 8388607 then 0xf2 :: leBytes 3 (lpIntBits 24 v)
  else if v ≥ -2147483648 ∧ v ≤ 2147483647 then 0xf3 :: leBytes 4 (lpIntBits 32 v)
  else 0xf4 :: leBytes 8 (toUnsigned 64 v)

/-- `lpEncodeGetType`: the integer encoding if there is one, and `enclen`.  The lengths of
strings are sums of 32-bit numbers. -/
def lpEncodeGetType (ele : Bytes) : Option Bytes × ℕ :=
  match lpStringToInt64 ele with
  | some v => (some (lpEncodeInt v), (lpEncodeInt v).length)
  | none =>
    if ele.length < 64 then (none, 1+ele.length)
    else if ele.length < 4096 then (none, 2+ele.length)
    else (none, (5+ele.length)%2^32)

def backlenByte (n : ℕ) : UInt8 := ofNat (128+n%128)

def lpEncodeBacklen (l : ℕ) : Bytes :=
  if l ≤ 127 then [ofNat l]
  else if l < 16383 then [ofNat (l/2^7), backlenByte l]
  else if l < 2097151 then [ofNat (l/2^14), backlenByte (l/2^7), backlenByte l]
  else if l < 268435455 then
    [ofNat (l/2^21), backlenByte (l/2^14), backlenByte (l/2^7), backlenByte l]
  else [ofNat (l/2^28), backlenByte (l/2^21), backlenByte (l/2^14), backlenByte (l/2^7),
    backlenByte l]

/-- The loop of `lpDecodeBacklen`, which walks to the left.  The groups of seven bits do not
overlap, so `|=` adds. -/
def lpDecodeBacklenLoop (m : Bytes) : ℕ → ℕ → ℕ → ℕ → Except Fault ℕ
  | 0, _, _, _ => .error .outOfFuel
  | fuel+1, p, shift, val => do
    let b ← loadByte m p
    let val := val+b.toNat%128*2^shift
    if b.toNat < 128 then .ok val
    else if shift+7 > 28 then .ok (2^64-1)
    else if p = 0 then .error .outOfBounds
    else lpDecodeBacklenLoop m fuel (p-1) (shift+7) val

def lpDecodeBacklen (m : Bytes) (p : ℕ) : Except Fault ℕ := lpDecodeBacklenLoop m 5 p 0 0

def lpEncodeString (s : Bytes) : Bytes :=
  if s.length < 64 then (ofNat s.length ||| 0x80) :: s
  else if s.length < 4096 then
    (ofNat (s.length/256) ||| 0xe0) :: ofNat s.length :: s
  else 0xf0 :: (leBytes 4 s.length ++ s)

def lpCurrentEncodedSize (m : Bytes) (p : ℕ) : Except Fault ℕ := do
  let b ← loadByte m p
  if lpEncodingIs7BitUint b then .ok 1
  else if lpEncodingIs6BitStr b then .ok (1+lpEncoding6BitStrLen b)
  else if lpEncodingIs13BitInt b then .ok 2
  else if lpEncodingIs16BitInt b then .ok 3
  else if lpEncodingIs24BitInt b then .ok 4
  else if lpEncodingIs32BitInt b then .ok 5
  else if lpEncodingIs64BitInt b then .ok 9
  else if lpEncodingIs12BitStr b then do
    let len ← lpEncoding12BitStrLen m p
    .ok (2+len)
  else if lpEncodingIs32BitStr b then do
    let len ← lpEncoding32BitStrLen m p
    .ok ((5+len)%2^32)
  else if b = lpEof then .ok 1
  else .ok 0

def lpEntryLen (m : Bytes) (p : ℕ) : Except Fault ℕ := do
  let entrylen ← lpCurrentEncodedSize m p
  .ok (entrylen+(lpEncodeBacklen entrylen).length)

def lpSkip (m : Bytes) (p : ℕ) : Except Fault ℕ := do
  let entrylen ← lpEntryLen m p
  .ok (p+entrylen)

def lpNext (lp : Bytes) (p : ℕ) : Except Fault (Option ℕ) := do
  let p ← lpSkip lp p
  let b ← loadByte lp p
  .ok (if b = lpEof then none else some p)

def lpPrev (lp : Bytes) (p : ℕ) : Except Fault (Option ℕ) :=
  if p = lpHdrSize then .ok none
  else do
    let prevlen ← lpDecodeBacklen lp (p-1)
    .ok (some (p-(prevlen+(lpEncodeBacklen prevlen).length)))

def lpFirst (lp : Bytes) : Except Fault (Option ℕ) := do
  let b ← loadByte lp lpHdrSize
  .ok (if b = lpEof then none else some lpHdrSize)

def lpLast (lp : Bytes) : Except Fault (Option ℕ) := do
  let total ← lpGetTotalBytes lp
  lpPrev lp (total-1)

/-- What `lpGet` returns: a string inside the block, or an integer. -/
inductive LpValue
  | str (s : Bytes)
  | int (v : ℤ)
deriving DecidableEq, Repr

def lpSignedValue (uval negstart negmax : ℕ) : LpValue :=
  if uval ≥ negstart then .int (-((negmax-uval : ℕ) : ℤ)-1) else .int uval

def lpGetInt (m : Bytes) (p bytes negstart negmax : ℕ) : Except Fault LpValue := do
  let bs ← loadBytes m (p+1) bytes
  .ok (lpSignedValue (leNat bs) negstart negmax)

def lpGetStr (m : Bytes) (p len : ℕ) : Except Fault LpValue := do
  let s ← loadBytes m p len
  .ok (.str s)

def lpGet (m : Bytes) (p : ℕ) : Except Fault LpValue := do
  let b ← loadByte m p
  if lpEncodingIs7BitUint b then .ok (lpSignedValue (b &&& 0x7f).toNat (2^64-1) 0)
  else if lpEncodingIs6BitStr b then lpGetStr m (p+1) (lpEncoding6BitStrLen b)
  else if lpEncodingIs13BitInt b then do
    let lo ← loadByte m (p+1)
    .ok (lpSignedValue ((b &&& 0x1f).toNat*256+lo.toNat) (2^12) 8191)
  else if lpEncodingIs16BitInt b then lpGetInt m p 2 (2^15) (2^16-1)
  else if lpEncodingIs24BitInt b then lpGetInt m p 3 (2^23) (2^24-1)
  else if lpEncodingIs32BitInt b then lpGetInt m p 4 (2^31) (2^32-1)
  else if lpEncodingIs64BitInt b then lpGetInt m p 8 (2^63) (2^64-1)
  else if lpEncodingIs12BitStr b then do
    let len ← lpEncoding12BitStrLen m p
    lpGetStr m (p+2) len
  else if lpEncodingIs32BitStr b then do
    let len ← lpEncoding32BitStrLen m p
    lpGetStr m (p+5) len
  else .ok (lpSignedValue (12345678900000000+b.toNat) (2^64-1) 0)

inductive Where
  | before
  | after
  | replace
deriving DecidableEq, Repr

/-- The relocation of `lpInsert`: the block is made larger before the move and smaller after it.
`LP_BEFORE` is the case of no replaced bytes. -/
def lpRelocate (lp : Bytes) (old new poff room replaced : ℕ) : Except Fault Bytes := do
  let lp := if new > old then reallocBytes lp new else lp
  let lp ← moveBytes lp (poff+room) (poff+replaced) (old-poff-replaced)
  .ok (if new < old then reallocBytes lp new else lp)

def lpStoreEntry (lp : Bytes) (ele : Option Bytes) (dst : ℕ) : Except Fault Bytes :=
  match ele with
  | none => .ok lp
  | some s => do
    let enc := lpEncodeGetType s
    let lp ← storeBytes lp dst (enc.1.getD (lpEncodeString s))
    storeBytes lp (dst+enc.2) (lpEncodeBacklen enc.2)

def lpUpdateHeader (lp : Bytes) (ele : Option Bytes) (whr : Where) (new : ℕ) :
    Except Fault Bytes := do
  let lp ← (if whr ≠ .replace ∨ ele = none then do
      let num ← lpGetNumElements lp
      if num ≠ lpHdrNumeleUnknown then
        lpSetNumElements lp (if ele.isSome then num+1 else num-1)
      else .ok lp
    else .ok lp)
  lpSetTotalBytes lp new

/-- `enclen`; a deletion stores no bytes. -/
def lpEnclen : Option Bytes → ℕ
  | some s => (lpEncodeGetType s).2
  | none => 0

def lpBacklenSize : Option Bytes → ℕ
  | some s => (lpEncodeBacklen (lpEnclen (some s))).length
  | none => 0

def lpInsertAt (lp : Bytes) (ele : Option Bytes) (poff : ℕ) (whr : Where) :
    Except Fault (Option (Bytes × Option ℕ)) := do
  let enclen := lpEnclen ele
  let backlenSize := lpBacklenSize ele
  let old ← lpGetTotalBytes lp
  let replaced ← (if whr = .replace then lpEntryLen lp poff else .ok 0)
  let new := old+enclen+backlenSize-replaced
  if new > uint32Max then .ok none
  else do
    let lp ← lpRelocate lp old new poff (enclen+backlenSize) replaced
    -- after a deletion `*newp` is the next element, unless that is the end
    let b ← loadByte lp poff
    let newp := if ele = none ∧ b = lpEof then none else some poff
    let lp ← lpStoreEntry lp ele poff
    let lp ← lpUpdateHeader lp ele whr new
    .ok (some (lp, newp))

/-- `lpInsert`: the new block and `*newp`; the outer `none` is the result `NULL`. -/
def lpInsert (lp : Bytes) (ele : Option Bytes) (p : ℕ) (whr : Where) :
    Except Fault (Option (Bytes × Option ℕ)) :=
  -- an element of `NULL` is a deletion, whatever the position asked for
  if ele = none then lpInsertAt lp ele p .replace
  else if whr = .after then do
    let p ← lpSkip lp p
    lpInsertAt lp ele p .before
  else lpInsertAt lp ele p whr

def lpAppend (lp s : Bytes) : Except Fault (Option (Bytes × Option ℕ)) := do
  let total ← lpGetTotalBytes lp
  lpInsert lp (some s) (total-1) .before

def lpDelete (lp : Bytes) (p : ℕ) : Except Fault (Option (Bytes × Option ℕ)) :=
  lpInsert lp none p .replace

end RedisCore.Listpack
