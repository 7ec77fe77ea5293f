import RedisCore.DecimalText

/-! The ziplist of redis-6.0.9 (`ziplist.c`): one allocated block holding a header of ten
bytes, the entries and the end marker 255. Pointers into the block are offsets, and the
32-bit and 16-bit header fields are little endian. -/
namespace RedisCore.Ziplist
open UInt8 (ofNat)
set_option linter.style.nameCheck false

def zipEnd : UInt8 := 255
def zipBigPrevlen : ℕ := 254
def zipStrMask : UInt8 := 0xc0
def zipStr06B : UInt8 := 0x00
def zipStr14B : UInt8 := 0x40
def zipStr32B : UInt8 := 0x80
def zipInt16B : UInt8 := 0xc0
def zipInt32B : UInt8 := 0xd0
def zipInt64B : UInt8 := 0xe0
def zipInt24B : UInt8 := 0xf0
def zipInt8B : UInt8 := 0xfe
def zipIntImmMask : UInt8 := 0x0f
def zipIntImmMin : UInt8 := 0xf1
def zipIntImmMax : UInt8 := 0xfd
def ziplistHeaderSize : ℕ := 10
def ziplistEndSize : ℕ := 1
def uint16Max : ℕ := 65535

def u32 (n : ℕ) : ℕ := n % 2^32

def zipIsStr (enc : UInt8) : Bool := enc &&& zipStrMask < zipStrMask

def ziplistBytes (zl : Bytes) : Except Fault ℕ := do
  let bs ← loadBytes zl 0 4
  return leNat bs

def ziplistTailOffset (zl : Bytes) : Except Fault ℕ := do
  let bs ← loadBytes zl 4 4
  return leNat bs

def ziplistLength (zl : Bytes) : Except Fault ℕ := do
  let bs ← loadBytes zl 8 2
  return leNat bs

def setZiplistBytes (zl : Bytes) (v : ℤ) : Except Fault Bytes :=
  storeBytes zl 0 (leBytes 4 (toUnsigned 32 v))

def setZiplistTailOffset (zl : Bytes) (v : ℤ) : Except Fault Bytes :=
  storeBytes zl 4 (leBytes 4 (toUnsigned 32 v))

def setZiplistLength (zl : Bytes) (v : ℤ) : Except Fault Bytes :=
  storeBytes zl 8 (leBytes 2 (toUnsigned 16 v))

/-- `ZIPLIST_TAIL_OFFSET(zl) += d`. -/
def addZiplistTailOffset (zl : Bytes) (d : ℤ) : Except Fault Bytes := do
  let tail ← ziplistTailOffset zl
  setZiplistTailOffset zl (tail+d)

def ziplistIncrLength (zl : Bytes) (incr : ℤ) : Except Fault Bytes := do
  let len ← ziplistLength zl
  if len < uint16Max then setZiplistLength zl (len+incr) else return zl

def zipIntSize (encoding : UInt8) : Except Fault ℕ :=
  if encoding = zipInt8B then .ok 1
  else if encoding = zipInt16B then .ok 2
  else if encoding = zipInt24B then .ok 3
  else if encoding = zipInt32B then .ok 4
  else if encoding = zipInt64B then .ok 8
  else if zipIntImmMin ≤ encoding ∧ encoding ≤ zipIntImmMax then .ok 0
  else .error .aborted

def zipStoreEntryEncoding (encoding : UInt8) (rawlen : ℕ) : Bytes :=
  if zipIsStr encoding then
    if rawlen ≤ 0x3f then [zipStr06B ||| ofNat rawlen]
    else if rawlen ≤ 0x3fff then
      [zipStr14B ||| ofNat (rawlen/256%64), ofNat (rawlen%256)]
    else zipStr32B :: beBytes 4 rawlen
  else [encoding]

def zipDecodeLength (zl : Bytes) (ptr : ℕ) : Except Fault (UInt8 × ℕ × ℕ) := do
  let b ← loadByte zl ptr
  let encoding := if b < zipStrMask then b &&& zipStrMask else b
  if encoding < zipStrMask then
    if encoding = zipStr06B then return (encoding, 1, (b &&& 0x3f).toNat)
    else if encoding = zipStr14B then
      let b1 ← loadByte zl (ptr+1)
      return (encoding, 2, (b &&& 0x3f).toNat*256+b1.toNat)
    else if encoding = zipStr32B then
      let bs ← loadBytes zl (ptr+1) 4
      return (encoding, 5, beNat bs)
    else .error .aborted
  else
    let len ← zipIntSize encoding
    return (encoding, 1, len)

def zipStorePrevEntryLengthLarge (len : ℕ) : Bytes := ofNat zipBigPrevlen :: leBytes 4 len

def zipStorePrevEntryLength (len : ℕ) : Bytes :=
  if len < zipBigPrevlen then [ofNat len] else zipStorePrevEntryLengthLarge len

def zipDecodePrevlensize (zl : Bytes) (ptr : ℕ) : Except Fault ℕ := do
  let b ← loadByte zl ptr
  return if b.toNat < zipBigPrevlen then 1 else 5

def zipDecodePrevlen (zl : Bytes) (ptr : ℕ) : Except Fault (ℕ × ℕ) := do
  let prevlensize ← zipDecodePrevlensize zl ptr
  if prevlensize = 1 then
    let b ← loadByte zl ptr
    return (prevlensize, b.toNat)
  else
    let bs ← loadBytes zl (ptr+1) 4
    return (prevlensize, leNat bs)

def zipPrevLenByteDiff (zl : Bytes) (p len : ℕ) : Except Fault ℤ := do
  let prevlensize ← zipDecodePrevlensize zl p
  return ((zipStorePrevEntryLength len).length : ℤ) - prevlensize

def zipRawEntryLength (zl : Bytes) (p : ℕ) : Except Fault ℕ := do
  let prevlensize ← zipDecodePrevlensize zl p
  let (_, lensize, len) ← zipDecodeLength zl (p+prevlensize)
  return u32 (prevlensize+lensize+len)

structure ZlEntry where
  prevrawlensize : ℕ
  prevrawlen : ℕ
  lensize : ℕ
  len : ℕ
  headersize : ℕ
  encoding : UInt8
  p : ℕ
deriving DecidableEq, Repr

def zipEntry (zl : Bytes) (p : ℕ) : Except Fault ZlEntry := do
  let (prevrawlensize, prevrawlen) ← zipDecodePrevlen zl p
  let (encoding, lensize, len) ← zipDecodeLength zl (p+prevrawlensize)
  return { prevrawlensize, prevrawlen, lensize, len,
           headersize := prevrawlensize+lensize, encoding, p }

def zipTryEncoding (entry : Bytes) : Option (ℤ × UInt8) :=
  if entry.length ≥ 32 ∨ entry.length = 0 then none
  else
    match string2ll entry with
    | none => none
    | some value =>
      if 0 ≤ value ∧ value ≤ 12 then some (value, zipIntImmMin+ofNat value.toNat)
      else if -2^7 ≤ value ∧ value < 2^7 then some (value, zipInt8B)
      else if -2^15 ≤ value ∧ value < 2^15 then some (value, zipInt16B)
      else if -2^23 ≤ value ∧ value < 2^23 then some (value, zipInt24B)
      else if -2^31 ≤ value ∧ value < 2^31 then some (value, zipInt32B)
      else some (value, zipInt64B)

/-- The payload bytes `zipSaveInteger` writes. The 24-bit form keeps the three upper bytes of
the value shifted left by eight bits in an `int32_t`. -/
def zipSaveInteger (value : ℤ) (encoding : UInt8) : Except Fault Bytes :=
  if encoding = zipInt8B then .ok (leBytes 1 (toUnsigned 8 value))
  else if encoding = zipInt16B then .ok (leBytes 2 (toUnsigned 16 value))
  else if encoding = zipInt24B then .ok ((leBytes 4 (toUnsigned 32 (value*256))).drop 1)
  else if encoding = zipInt32B then .ok (leBytes 4 (toUnsigned 32 value))
  else if encoding = zipInt64B then .ok (leBytes 8 (toUnsigned 64 value))
  else if zipIntImmMin ≤ encoding ∧ encoding ≤ zipIntImmMax then .ok []
  else .error .aborted

def zipLoadInteger (zl : Bytes) (p : ℕ) (encoding : UInt8) : Except Fault ℤ :=
  if encoding = zipInt8B then do return toSigned 8 (leNat (← loadBytes zl p 1))
  else if encoding = zipInt16B then do return toSigned 16 (leNat (← loadBytes zl p 2))
  else if encoding = zipInt32B then do return toSigned 32 (leNat (← loadBytes zl p 4))
  else if encoding = zipInt24B then do
    let bs ← loadBytes zl p 3
    return toSigned 32 (leNat (0 :: bs))/256
  else if encoding = zipInt64B then do return toSigned 64 (leNat (← loadBytes zl p 8))
  else if zipIntImmMin ≤ encoding ∧ encoding ≤ zipIntImmMax then
    .ok (((encoding &&& zipIntImmMask).toNat : ℤ)-1)
  else .error .aborted

def ziplistNew : Bytes :=
  leBytes 4 (ziplistHeaderSize+ziplistEndSize) ++
    (leBytes 4 ziplistHeaderSize ++ (leBytes 2 0 ++ [zipEnd]))

/-- The size is an `unsigned int` parameter. A request of 2^32 bytes or more would be cut
down to its low 32 bits and is reported as `sizeWrap`. -/
def ziplistResize (zl : Bytes) (len : ℕ) : Except Fault Bytes :=
  if len < 2^32 then do
    let zl ← setZiplistBytes (reallocBytes zl len) len
    storeBytes zl (len-1) [zipEnd]
  else .error .sizeWrap

/-- The branch of `__ziplistCascadeUpdate` that widens the `prevlen` field of the entry at `np`
by `extra` bytes to hold `rawlen`. -/
def cascadeWiden (zl : Bytes) (np rawlen prevrawlensize curlen : ℕ) : Except Fault Bytes := do
  let rawlensize := (zipStorePrevEntryLength rawlen).length
  let extra := rawlensize-prevrawlensize
  let zl ← ziplistResize zl (curlen+extra)
  let tail ← ziplistTailOffset zl
  let zl ← (if tail ≠ np then addZiplistTailOffset zl extra else .ok zl)
  let zl ← moveBytes zl (np+rawlensize) (np+prevrawlensize) (curlen-np-prevrawlensize-1)
  storeBytes zl np (zipStorePrevEntryLength rawlen)

def cascadeLoop : ℕ → Bytes → ℕ → ℕ → Except Fault Bytes
  | 0, _, _, _ => .error .outOfFuel
  | fuel+1, zl, p, curlen => do
    if (← loadByte zl p) = zipEnd then return zl
    else
      let cur ← zipEntry zl p
      let rawlen := u32 (cur.headersize+cur.len)
      let rawlensize := (zipStorePrevEntryLength rawlen).length
      if (← loadByte zl (p+rawlen)) = zipEnd then return zl
      else
        let next ← zipEntry zl (p+rawlen)
        if next.prevrawlen = rawlen then return zl
        else if next.prevrawlensize < rawlensize then
          let zl ← cascadeWiden zl (p+rawlen) rawlen next.prevrawlensize curlen
          cascadeLoop fuel zl (p+rawlen) (curlen+(rawlensize-next.prevrawlensize))
        else if next.prevrawlensize > rawlensize then
          -- shrinking is avoided: the length is stored in the available bytes
          storeBytes zl (p+rawlen) (zipStorePrevEntryLengthLarge rawlen)
        else
          storeBytes zl (p+rawlen) (zipStorePrevEntryLength rawlen)

def __ziplistCascadeUpdate (zl : Bytes) (p : ℕ) : Except Fault Bytes := do
  let curlen ← ziplistBytes zl
  cascadeLoop zl.length zl p curlen

/-- The update of the tail offset that insertion and deletion share: by `d`, and by `nextdiff`
as well when the entry at `p` is not the last. -/
def shiftTailOffset (zl : Bytes) (p : ℕ) (d nextdiff : ℤ) : Except Fault Bytes := do
  let zl ← addZiplistTailOffset zl d
  let tail ← zipEntry zl p
  let b ← loadByte zl (p+(tail.headersize+tail.len))
  if b ≠ zipEnd then addZiplistTailOffset zl nextdiff else return zl

/-- The `for` loop of `__ziplistDelete`: the end pointer and the number of entries passed. -/
def skipEntries (zl : Bytes) : ℕ → ℕ → Except Fault (ℕ × ℕ)
  | 0, p => .ok (p, 0)
  | num+1, p => do
    if (← loadByte zl p) = zipEnd then return (p, 0)
    else
      let rawlen ← zipRawEntryLength zl p
      let (q, deleted) ← skipEntries zl num (p+rawlen)
      return (q, deleted+1)

/-- The branch of `__ziplistDelete` for an entry at `p` behind the deleted bytes: it takes over
the length of the entry before `first` and moves to the front. Also returns `nextdiff`. -/
def deleteBefore (zl : Bytes) (first : ZlEntry) (p totlen : ℕ) : Except Fault (Bytes × ℤ) := do
  let nextdiff ← zipPrevLenByteDiff zl p first.prevrawlen
  let p := ((p : ℤ)-nextdiff).toNat
  let zl ← storeBytes zl p (zipStorePrevEntryLength first.prevrawlen)
  let zl ← shiftTailOffset zl p (-totlen) nextdiff
  let bytes ← ziplistBytes zl
  let zl ← moveBytes zl first.p p (bytes-p-1)
  return (zl, nextdiff)

def deleteTail (zl : Bytes) (first : ZlEntry) : Except Fault (Bytes × ℤ) := do
  let zl ← setZiplistTailOffset zl ((first.p : ℤ)-first.prevrawlen)
  return (zl, 0)

def __ziplistDelete (zl : Bytes) (p num : ℕ) : Except Fault Bytes := do
  let first ← zipEntry zl p
  let (p, deleted) ← skipEntries zl num p
  let totlen := u32 (p-first.p)
  if totlen > 0 then
    let b ← loadByte zl p
    let (zl, nextdiff) ← (if b ≠ zipEnd then deleteBefore zl first p totlen
      else deleteTail zl first)
    let bytes ← ziplistBytes zl
    let zl ← ziplistResize zl ((bytes : ℤ)-totlen+nextdiff).toNat
    let zl ← ziplistIncrLength zl (-deleted)
    if nextdiff ≠ 0 then __ziplistCascadeUpdate zl first.p else return zl
  else return zl

def insertPrevlen (zl : Bytes) (p : ℕ) : Except Fault ℕ := do
  if (← loadByte zl p) ≠ zipEnd then
    let (_, prevlen) ← zipDecodePrevlen zl p
    return prevlen
  else
    let ptail ← ziplistTailOffset zl
    if (← loadByte zl ptail) ≠ zipEnd then zipRawEntryLength zl ptail else return 0

/-- `ziplistResize` by `reqlen+nextdiff` bytes, then the move of the tail of the list, its
new `prevlen` field and the tail offset. -/
def insertMakeRoom (zl : Bytes) (p curlen reqlen : ℕ) (nextdiff : ℤ) (forcelarge : Bool) :
    Except Fault Bytes := do
  let zl ← ziplistResize zl ((curlen : ℤ)+reqlen+nextdiff).toNat
  if (← loadByte zl p) ≠ zipEnd then
    let zl ← moveBytes zl (p+reqlen) ((p : ℤ)-nextdiff).toNat ((curlen : ℤ)-p-1+nextdiff).toNat
    let zl ← storeBytes zl (p+reqlen) (if forcelarge then
        zipStorePrevEntryLengthLarge (u32 reqlen) else zipStorePrevEntryLength (u32 reqlen))
    shiftTailOffset zl (p+reqlen) reqlen nextdiff
  else setZiplistTailOffset zl p

def insertPayload (s : Bytes) : Except Fault (Bytes × Bytes) :=
  match zipTryEncoding s with
  | some (value, encoding) => do
    let data ← zipSaveInteger value encoding
    return (zipStoreEntryEncoding encoding s.length, data)
  | none => .ok (zipStoreEntryEncoding 0 s.length, s)

/-- `reqlen` without the `prevlen` field. -/
def insertDataLen (s : Bytes) : Except Fault ℕ :=
  match zipTryEncoding s with
  | some (_, encoding) => do
    let len ← zipIntSize encoding
    return len+(zipStoreEntryEncoding encoding s.length).length
  | none => .ok (s.length+(zipStoreEntryEncoding 0 s.length).length)

def __ziplistInsert (zl : Bytes) (p : ℕ) (s : Bytes) : Except Fault Bytes := do
  let curlen ← ziplistBytes zl
  let prevlen ← insertPrevlen zl p
  let datalen ← insertDataLen s
  let reqlen := datalen+(zipStorePrevEntryLength prevlen).length
  let b ← loadByte zl p
  let diff ← (if b ≠ zipEnd then zipPrevLenByteDiff zl p (u32 reqlen) else .ok 0)
  -- A four byte shrink of the next entry must not shrink the whole block.
  let forcelarge : Bool := diff = -4 ∧ reqlen < 4
  let nextdiff := if forcelarge then 0 else diff
  let zl ← insertMakeRoom zl p curlen reqlen nextdiff forcelarge
  let zl ← (if nextdiff ≠ 0 then __ziplistCascadeUpdate zl (p+reqlen) else .ok zl)
  let zl ← storeBytes zl p (zipStorePrevEntryLength prevlen)
  let p := p+(zipStorePrevEntryLength prevlen).length
  let (header, data) ← insertPayload s
  let zl ← storeBytes zl p header
  let zl ← storeBytes zl (p+header.length) data
  ziplistIncrLength zl 1

inductive Where
  | head
  | tail
deriving DecidableEq, Repr

def ziplistEntryHead : ℕ := ziplistHeaderSize

def ziplistEntryEnd (zl : Bytes) : Except Fault ℕ := do
  let bytes ← ziplistBytes zl
  return bytes-1

def ziplistPush (zl s : Bytes) : Where → Except Fault Bytes
  | .head => __ziplistInsert zl ziplistEntryHead s
  | .tail => do __ziplistInsert zl (← ziplistEntryEnd zl) s

def ziplistInsert (zl : Bytes) (p : ℕ) (s : Bytes) : Except Fault Bytes := __ziplistInsert zl p s

def indexForward (zl : Bytes) : ℕ → ℕ → Except Fault (ℕ × ℤ)
  | index, p => do
    if (← loadByte zl p) = zipEnd then return (p, index)
    else
      match index with
      | 0 => return (p, -1)
      | index+1 => indexForward zl index (p+(← zipRawEntryLength zl p))

def indexBackward (zl : Bytes) : ℕ → ℕ → ℕ → Except Fault (ℕ × ℤ)
  | index, p, prevlen =>
    if prevlen = 0 then .ok (p, index)
    else
      match index with
      | 0 => .ok (p, -1)
      | index+1 => do
        let (_, prevlen') ← zipDecodePrevlen zl (p-prevlen)
        indexBackward zl index (p-prevlen) prevlen'

def indexFromTail (zl : Bytes) (index : ℕ) : Except Fault (ℕ × ℤ) := do
  let p ← ziplistTailOffset zl
  if (← loadByte zl p) ≠ zipEnd then
    let (_, prevlen) ← zipDecodePrevlen zl p
    indexBackward zl index p prevlen
  else return (p, (index : ℤ))

def ziplistIndex (zl : Bytes) (index : ℤ) : Except Fault (Option ℕ) := do
  let (p, index) ← (if index < 0 then indexFromTail zl (-index-1).toNat
    else indexForward zl index.toNat ziplistEntryHead)
  if (← loadByte zl p) = zipEnd ∨ index > 0 then return none else return some p

def ziplistNext (zl : Bytes) (p : ℕ) : Except Fault (Option ℕ) := do
  if (← loadByte zl p) = zipEnd then return none
  else
    let p := p+(← zipRawEntryLength zl p)
    if (← loadByte zl p) = zipEnd then return none else return some p

def ziplistPrev (zl : Bytes) (p : ℕ) : Except Fault (Option ℕ) := do
  if (← loadByte zl p) = zipEnd then
    let p ← ziplistTailOffset zl
    if (← loadByte zl p) = zipEnd then return none else return some p
  else if p = ziplistEntryHead then return none
  else
    let (_, prevlen) ← zipDecodePrevlen zl p
    if prevlen > 0 then return some (p-prevlen) else .error .aborted

inductive ZlValue
  | str (s : Bytes)
  | int (v : ℤ)
deriving DecidableEq, Repr

/-- `none` stands for the return value 0. -/
def ziplistGet (zl : Bytes) (p : Option ℕ) : Except Fault (Option ZlValue) :=
  match p with
  | none => .ok none
  | some p => do
    if (← loadByte zl p) = zipEnd then return none
    else
      let entry ← zipEntry zl p
      if zipIsStr entry.encoding then
        return some (.str (← loadBytes zl (p+entry.headersize) entry.len))
      else return some (.int (← zipLoadInteger zl (p+entry.headersize) entry.encoding))

def ziplistCompare (zl : Bytes) (p : ℕ) (sstr : Bytes) : Except Fault Bool := do
  if (← loadByte zl p) = zipEnd then return false
  else
    let entry ← zipEntry zl p
    if zipIsStr entry.encoding then
      if entry.len = sstr.length then return (← loadBytes zl (p+entry.headersize) entry.len) == sstr
      else return false
    else
      match zipTryEncoding sstr with
      | some (sval, _) => return (← zipLoadInteger zl (p+entry.headersize) entry.encoding) == sval
      | none => return false

def ziplistDelete (zl : Bytes) (p : ℕ) : Except Fault (Bytes × ℕ) := do
  let zl ← __ziplistDelete zl p 1
  return (zl, p)

def ziplistDeleteRange (zl : Bytes) (index : ℤ) (num : ℕ) : Except Fault Bytes := do
  match ← ziplistIndex zl index with
  | none => return zl
  | some p => __ziplistDelete zl p num

def lenLoop (zl : Bytes) : ℕ → ℕ → Except Fault ℕ
  | 0, _ => .error .outOfFuel
  | fuel+1, p => do
    if (← loadByte zl p) = zipEnd then return 0
    else
      let rest ← lenLoop zl fuel (p+(← zipRawEntryLength zl p))
      return rest+1

def ziplistLen (zl : Bytes) : Except Fault (ℕ × Bytes) := do
  let len ← ziplistLength zl
  if len < uint16Max then return (len, zl)
  else
    let len ← lenLoop zl zl.length ziplistHeaderSize
    if len < uint16Max then return (len, ← setZiplistLength zl len) else return (len, zl)

def ziplistBlobLen (zl : Bytes) : Except Fault ℕ := ziplistBytes zl

end RedisCore.Ziplist
