import RedisCore.CTypes

/-! Strings with a header in front of their bytes (`sds.c`, `sds.h`).  A string is the block that was
allocated for it, with all of its bytes, and the place of its first character. -/

namespace RedisCore.DynamicString

inductive SdsType where
  | type5
  | type8
  | type16
  | type32
  | type64
deriving DecidableEq, Repr

def SdsType.code : SdsType → ℕ
  | .type5 => 0
  | .type8 => 1
  | .type16 => 2
  | .type32 => 3
  | .type64 => 4

def SdsType.width : SdsType → ℕ
  | .type5 => 0
  | .type8 => 1
  | .type16 => 2
  | .type32 => 4
  | .type64 => 8

def sdsHdrSize (type : SdsType) : ℕ := 2 * type.width + 1

def SdsType.limit : SdsType → ℕ
  | .type5 => 2^5
  | .type8 => 2^8
  | .type16 => 2^16
  | .type32 => 2^32
  | .type64 => 2^64

structure Sds where
  block : Bytes
  s : ℕ
deriving DecidableEq, Repr

def sdsMaxPrealloc : ℕ := 1024 * 1024

def sizeT (n : ℕ) : ℕ := n % 2^64

def sdsReqType (stringSize : ℕ) : SdsType :=
  if stringSize < 2^5 then .type5
  else if stringSize < 2^8 then .type8
  else if stringSize < 2^16 then .type16
  else if stringSize < 2^32 then .type32
  else .type64

def fresh (noise : ℕ → UInt8) (n : ℕ) : Bytes := (List.range n).map noise

def sRealloc (noise : ℕ → UInt8) (block : Bytes) (n : ℕ) : Bytes :=
  block.take n ++ (fresh noise n).drop block.length

def load (x : Sds) (i n : ℕ) : Except Fault Bytes := loadBytes x.block (x.s + i) n

def store (x : Sds) (i : ℕ) (bs : Bytes) : Except Fault Sds := do
  let block ← storeBytes x.block (x.s + i) bs
  .ok { x with block := block }

def loadBack (x : Sds) (i n : ℕ) : Except Fault Bytes :=
  if i ≤ x.s then loadBytes x.block (x.s - i) n else .error .outOfBounds

def storeBack (x : Sds) (i : ℕ) (bs : Bytes) : Except Fault Sds :=
  if i ≤ x.s then do
    let block ← storeBytes x.block (x.s - i) bs
    .ok { x with block := block }
  else .error .outOfBounds

/-- The type in the flags byte.  The codes from 5 on are no type. -/
def typeOf (flags : UInt8) : Option SdsType :=
  match flags.toNat % 8 with
  | 0 => some .type5
  | 1 => some .type8
  | 2 => some .type16
  | 3 => some .type32
  | 4 => some .type64
  | _ => none

def loadFlags (x : Sds) : Except Fault UInt8 := do
  let b ← loadBack x 1 1
  .ok (b.headD 0)

/-- `sh->len` of a header of this type. -/
def loadLen (x : Sds) (type : SdsType) : Except Fault ℕ := do
  let b ← loadBack x (sdsHdrSize type) type.width
  .ok (leNat b)

def loadAlloc (x : Sds) (type : SdsType) : Except Fault ℕ := do
  let b ← loadBack x (type.width + 1) type.width
  .ok (leNat b)

def sdslen (x : Sds) : Except Fault ℕ := do
  let flags ← loadFlags x
  match typeOf flags with
  | none => .ok 0
  | some type => if type = .type5 then .ok (flags.toNat / 8) else loadLen x type

def sdsavail (x : Sds) : Except Fault ℕ := do
  let flags ← loadFlags x
  match typeOf flags with
  | none => .ok 0
  | some type =>
    if type = .type5 then .ok 0
    else
      let alloc ← loadAlloc x type
      let len ← loadLen x type
      .ok (sizeT (alloc + 2^64 - len))

def sdsalloc (x : Sds) : Except Fault ℕ := do
  let flags ← loadFlags x
  match typeOf flags with
  | none => .ok 0
  | some type => if type = .type5 then .ok (flags.toNat / 8) else loadAlloc x type

def sdssetlen (x : Sds) (newlen : ℕ) : Except Fault Sds := do
  let flags ← loadFlags x
  match typeOf flags with
  | none => .ok x
  | some type =>
    if type = .type5 then storeBack x 1 [UInt8.ofNat (newlen * 8)]
    else storeBack x (sdsHdrSize type) (leBytes type.width newlen)

def sdssetalloc (x : Sds) (newlen : ℕ) : Except Fault Sds := do
  let flags ← loadFlags x
  match typeOf flags with
  | none => .ok x
  | some type =>
    if type = .type5 then .ok x else storeBack x (type.width + 1) (leBytes type.width newlen)

/-- `init` and `initlen`: bytes, `NULL` or `SDS_NOINIT`. -/
inductive SdsInit where
  | data (t : Bytes)
  | null (initlen : ℕ)
  | noinit (initlen : ℕ)
deriving DecidableEq, Repr

def SdsInit.initlen : SdsInit → ℕ
  | .data t => t.length
  | .null n => n
  | .noinit n => n

def initHeader (x : Sds) (type : SdsType) (initlen : ℕ) : Except Fault Sds :=
  if type = .type5 then storeBack x 1 [UInt8.ofNat (type.code + initlen * 8)]
  else do
    let x ← storeBack x (sdsHdrSize type) (leBytes type.width initlen)
    let x ← storeBack x (type.width + 1) (leBytes type.width initlen)
    storeBack x 1 [UInt8.ofNat type.code]

def initBytes (x : Sds) : SdsInit → Except Fault Sds
  | .data t => if t.length ≠ 0 then store x 0 t else .ok x
  | .null _ => .ok x
  | .noinit _ => .ok x

def sdsnewlen (noise : ℕ → UInt8) (init : SdsInit) : Except Fault Sds := do
  let initlen := init.initlen
  let type := if sdsReqType initlen = .type5 ∧ initlen = 0 then .type8 else sdsReqType initlen
  let hdrlen := sdsHdrSize type
  let n := sizeT (hdrlen + initlen + 1)
  let sh := match init with
    | .null _ => List.replicate n 0
    | _ => fresh noise n
  let x ← initHeader { block := sh, s := hdrlen } type initlen
  let x ← initBytes x init
  store x initlen [0]

def roomFor (len addlen : ℕ) : ℕ :=
  if sizeT (len + addlen) < sdsMaxPrealloc then sizeT (sizeT (len + addlen) * 2)
  else sizeT (sizeT (len + addlen) + sdsMaxPrealloc)

def moveTo (noise : ℕ → UInt8) (x : Sds) (oldtype type : SdsType) (len newlen : ℕ) :
    Except Fault Sds := do
  let bs ← load x 0 (len + 1)
  if x.s ≠ sdsHdrSize oldtype then .error .outOfBounds else
  let newsh : Sds :=
    { block := fresh noise (sizeT (sdsHdrSize type + newlen + 1))
      s := sdsHdrSize type }
  let x ← store newsh 0 bs
  let x ← storeBack x 1 [UInt8.ofNat type.code]
  sdssetlen x len

def resize (noise : ℕ → UInt8) (x : Sds) (hdrlen newlen : ℕ) : Except Fault Sds :=
  if x.s = hdrlen then
    .ok { block := sRealloc noise x.block (sizeT (hdrlen + newlen + 1)), s := hdrlen }
  else .error .outOfBounds

def sdsMakeRoomFor (noise : ℕ → UInt8) (x : Sds) (addlen : ℕ) : Except Fault Sds := do
  let avail ← sdsavail x
  let flags ← loadFlags x
  if addlen ≤ avail then .ok x
  else
    let len ← sdslen x
    let newlen := roomFor len addlen
    let type := if sdsReqType newlen = .type5 then .type8 else sdsReqType newlen
    match typeOf flags with
    | none => .error .outOfBounds
    | some oldtype =>
      let x ← if oldtype = type then resize noise x (sdsHdrSize type) newlen
        else moveTo noise x oldtype type len newlen
      sdssetalloc x newlen

def sdsRemoveFreeSpace (noise : ℕ → UInt8) (x : Sds) : Except Fault Sds := do
  let flags ← loadFlags x
  let len ← sdslen x
  let avail ← sdsavail x
  if avail = 0 then .ok x
  else
    let type := sdsReqType len
    match typeOf flags with
    | none => .error .outOfBounds
    | some oldtype =>
      let x ← if oldtype = type ∨ SdsType.type8.code < type.code then
          resize noise x (sdsHdrSize oldtype) len
        else moveTo noise x oldtype type len len
      sdssetalloc x len

/-- The condition that `sdsIncrLen` asserts, for the lengths in the header. -/
def incrAllowed (type : SdsType) (len alloc : ℕ) (incr : ℤ) : Prop :=
  match type with
  | .type5 => 0 < incr ∧ len + incr < 32 ∨ incr < 0 ∧ ((-incr) % 2^32 : ℤ) ≤ len
  | .type8 => 0 ≤ incr ∧ incr ≤ (alloc : ℤ) - len ∨ incr < 0 ∧ ((-incr) % 2^32 : ℤ) ≤ len
  | .type16 => 0 ≤ incr ∧ incr ≤ (alloc : ℤ) - len ∨ incr < 0 ∧ ((-incr) % 2^32 : ℤ) ≤ len
  | .type32 => 0 ≤ incr ∧ (incr % 2^32 : ℤ) ≤ ((alloc : ℤ) - len) % 2^32 ∨
      incr < 0 ∧ ((-incr) % 2^32 : ℤ) ≤ len
  | .type64 => 0 ≤ incr ∧ incr ≤ ((alloc : ℤ) - len) % 2^64 ∨ incr < 0 ∧ -incr ≤ (len : ℤ)

instance (type : SdsType) (len alloc : ℕ) (incr : ℤ) : Decidable (incrAllowed type len alloc incr) := by
  unfold incrAllowed
  cases type <;> infer_instance

def sdsIncrLen (x : Sds) (incr : ℤ) : Except Fault Sds := do
  let flags ← loadFlags x
  match typeOf flags with
  | none => store x 0 [0]
  | some type =>
    let oldlen ← sdslen x
    let alloc ← sdsalloc x
    if incrAllowed type oldlen alloc incr then do
      -- the sum is cut to the width of the field
      let len := ((oldlen + incr) % (if type = .type5 then 2^64 else type.limit : ℕ)).toNat
      let x ← sdssetlen x len
      store x len [0]
    else .error .aborted

def sdsgrowzero (noise : ℕ → UInt8) (x : Sds) (len : ℕ) : Except Fault Sds := do
  let curlen ← sdslen x
  if len ≤ curlen then .ok x
  else
    let x ← sdsMakeRoomFor noise x (len - curlen)
    let x ← store x curlen (List.replicate (len - curlen + 1) 0)
    sdssetlen x len

def sdscatlen (noise : ℕ → UInt8) (x : Sds) (t : Bytes) : Except Fault Sds := do
  let curlen ← sdslen x
  let x ← sdsMakeRoomFor noise x t.length
  let x ← store x curlen t
  let x ← sdssetlen x (sizeT (curlen + t.length))
  store x (sizeT (curlen + t.length)) [0]

def sdscpylen (noise : ℕ → UInt8) (x : Sds) (t : Bytes) : Except Fault Sds := do
  let alloc ← sdsalloc x
  let x ← (if alloc < t.length then do
      let len ← sdslen x
      sdsMakeRoomFor noise x (sizeT (t.length + 2^64 - len))
    else .ok x)
  let x ← store x 0 t
  let x ← store x t.length [0]
  sdssetlen x t.length

def sdsclear (x : Sds) : Except Fault Sds := do
  let x ← sdssetlen x 0
  store x 0 [0]

/-- `strchr(cset, b)` finds something; the terminator of `cset` is found too. -/
def strchr (cset : Bytes) (b : UInt8) : Bool := b == 0 || (cString cset).contains b

def trimLeft (x : Sds) (cset : Bytes) : ℕ → ℕ → Except Fault ℕ
  | 0, sp => .ok sp
  | n+1, sp => do
    let b ← load x sp 1
    if strchr cset (b.headD 0) then trimLeft x cset n (sp + 1) else .ok sp

def trimRight (x : Sds) (cset : Bytes) : ℕ → ℤ → Except Fault ℤ
  | 0, ep => .ok ep
  | n+1, ep => do
    let b ← load x ep.toNat 1
    if strchr cset (b.headD 0) then trimRight x cset n (ep - 1) else .ok ep

def sdstrim (x : Sds) (cset : Bytes) : Except Fault Sds := do
  let len ← sdslen x
  let sp ← trimLeft x cset len 0
  let ep ← trimRight x cset ((len : ℤ) - 1 - sp).toNat ((len : ℤ) - 1)
  let newlen := if (sp : ℤ) > ep then 0 else (ep - sp + 1).toNat
  let x ← (if sp ≠ 0 then do
      let bs ← load x sp newlen
      store x 0 bs
    else .ok x)
  let x ← store x newlen [0]
  sdssetlen x newlen

def rangeIndex (len : ℕ) (i : ℤ) : ℤ :=
  if i < 0 then (if toLong (len + i) < 0 then 0 else toLong (len + i)) else i

def rangeLen (start stop : ℤ) : ℕ := if start > stop then 0 else ((stop - start + 1) % 2^64).toNat

def sdsrange (x : Sds) (start stop : ℤ) : Except Fault Sds := do
  let len ← sdslen x
  if len = 0 then .ok x
  else
    let start := rangeIndex len start
    let stop := rangeIndex len stop
    let newlen := rangeLen start stop
    let (start, newlen) :=
      if newlen ≠ 0 then
        if start ≥ toLong len then (start, 0)
        else if stop ≥ toLong len then (start, rangeLen start (toLong (len - 1)))
        else (start, newlen)
      else (0, newlen)
    let x ← (if start ≠ 0 ∧ newlen ≠ 0 then do
        let bs ← load x start.toNat newlen
        store x 0 bs
      else .ok x)
    let x ← store x newlen [0]
    sdssetlen x newlen

/-- The operations on a string.  Before an increment the caller has written these bytes behind the
string. -/
inductive SdsOp where
  | makeRoomFor (addlen : ℕ)
  | removeFreeSpace
  | incrLen (incr : ℤ) (written : Bytes)
  | growzero (len : ℕ)
  | catlen (t : Bytes)
  | cpylen (t : Bytes)
  | trim (cset : Bytes)
  | range (start stop : ℤ)
  | clear
deriving DecidableEq, Repr

def SdsOp.run (noise : ℕ → UInt8) (x : Sds) : SdsOp → Except Fault Sds
  | .makeRoomFor addlen => sdsMakeRoomFor noise x addlen
  | .removeFreeSpace => sdsRemoveFreeSpace noise x
  | .incrLen incr written => do
    let len ← sdslen x
    let x ← store x len written
    sdsIncrLen x incr
  | .growzero len => sdsgrowzero noise x len
  | .catlen t => sdscatlen noise x t
  | .cpylen t => sdscpylen noise x t
  | .trim cset => sdstrim x cset
  | .range start stop => sdsrange x start stop
  | .clear => sdsclear x

end RedisCore.DynamicString
