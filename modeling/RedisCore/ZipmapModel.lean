import RedisCore.ZiplistRefinement

/-! The zipmaps of old dumps (`zipmap.c`), with their conversion in `rdbLoadObject`. A zipmap is a
block of bytes, and pointers into it are offsets. Lengths are of type `unsigned int`: a size that
does not fit in 32 bits ends in `sizeWrap`. -/

namespace RedisCore.Zipmap
open UInt8 (ofNat)

def zipmapBiglen : ℕ := 254

def zipmapEnd : UInt8 := 255

def zipmapValueMaxFree : ℕ := 4

def zipmapLenBytes (l : ℕ) : ℕ := if l < zipmapBiglen then 1 else 5

def zipmapNew : Bytes := [0, zipmapEnd]

def zipmapDecodeLength (zm : Bytes) (p : ℕ) : Except Fault ℕ := do
  let b ← loadByte zm p
  if b.toNat < zipmapBiglen then .ok b.toNat
  else do
    let bs ← loadBytes zm (p+1) 4
    .ok (leNat bs)

def encodedLength (len : ℕ) : Bytes :=
  if len < zipmapBiglen then [ofNat len] else ofNat zipmapBiglen :: leBytes 4 len

def zipmapEncodeLength (zm : Bytes) (p len : ℕ) : Except Fault Bytes :=
  storeBytes zm p (encodedLength len)

/-- The comparison of an entry with the key that is looked for, which is NULL for
`zipmapBlobLen`. -/
def matchesKey (zm : Bytes) (key : Option Bytes) (found : Option ℕ) (payload l : ℕ) :
    Except Fault Bool :=
  match key with
  | none => .ok false
  | some key =>
    if found = none ∧ l = key.length then do
      let bs ← loadBytes zm payload l
      .ok (bs = key)
    else .ok false

def lookupLoop (zm : Bytes) (key : Option Bytes) (totlen : Bool) :
    ℕ → ℕ → Option ℕ → Except Fault (Option ℕ × ℕ)
  | 0, _, _ => .error .outOfFuel
  | fuel+1, p, k => do
    let b ← loadByte zm p
    if b = zipmapEnd then .ok (k, p+1)
    else do
      let l ← zipmapDecodeLength zm p
      let hit ← matchesKey zm key k (p+zipmapLenBytes l) l
      if hit ∧ totlen = false then .ok (some p, 0)
      else do
        let k := if hit then some p else k
        let p := p+zipmapLenBytes l+l
        let l ← zipmapDecodeLength zm p
        let p := p+zipmapLenBytes l
        let free ← loadByte zm p
        lookupLoop zm key totlen fuel (p+l+1+free.toNat) k

def zipmapLookupRaw (zm : Bytes) (key : Option Bytes) (totlen : Bool) :
    Except Fault (Option ℕ × ℕ) := lookupLoop zm key totlen zm.length 1 none

def zipmapRequiredLength (klen vlen : ℕ) : ℕ :=
  klen+vlen+3+(if zipmapBiglen ≤ klen then 4 else 0)+(if zipmapBiglen ≤ vlen then 4 else 0)

def zipmapRawKeyLength (zm : Bytes) (p : ℕ) : Except Fault ℕ := do
  let l ← zipmapDecodeLength zm p
  .ok (zipmapLenBytes l+l)

def zipmapRawValueLength (zm : Bytes) (p : ℕ) : Except Fault ℕ := do
  let l ← zipmapDecodeLength zm p
  let free ← loadByte zm (p+zipmapLenBytes l)
  .ok (zipmapLenBytes l+free.toNat+1+l)

def zipmapRawEntryLength (zm : Bytes) (p : ℕ) : Except Fault ℕ := do
  let l ← zipmapRawKeyLength zm p
  let v ← zipmapRawValueLength zm (p+l)
  .ok (l+v)

def zipmapResize (zm : Bytes) (len : ℕ) : Except Fault Bytes :=
  if 2^32 ≤ len then .error .sizeWrap
  else storeBytes (reallocBytes zm len) (len-1) [zipmapEnd]

def incrementCount (zm : Bytes) : Except Fault Bytes := do
  let b ← loadByte zm 0
  if b.toNat < zipmapBiglen then storeBytes zm 0 [ofNat (b.toNat+1)] else .ok zm

def decrementCount (zm : Bytes) : Except Fault Bytes := do
  let b ← loadByte zm 0
  if b.toNat < zipmapBiglen then storeBytes zm 0 [ofNat (b.toNat-1)] else .ok zm

def writeEntry (zm : Bytes) (p : ℕ) (key val : Bytes) (vempty : ℕ) : Except Fault Bytes := do
  let zm ← zipmapEncodeLength zm p key.length
  let p := p+(encodedLength key.length).length
  let zm ← storeBytes zm p key
  let p := p+key.length
  let zm ← zipmapEncodeLength zm p val.length
  let p := p+(encodedLength val.length).length
  let zm ← storeBytes zm p [ofNat vempty]
  storeBytes zm (p+1) val

/-- Room for an entry of `reqlen` bytes: the block, the position, the total length and the size of
the room. -/
def makeRoom (zm : Bytes) (found : Option ℕ) (zmlen reqlen : ℕ) :
    Except Fault (Bytes × ℕ × ℕ × ℕ) :=
  match found with
  | none => do
    let zm ← zipmapResize zm (zmlen+reqlen)
    let zm ← incrementCount zm
    .ok (zm, zmlen-1, zmlen+reqlen, reqlen)
  | some p => do
    let freelen ← zipmapRawEntryLength zm p
    if freelen < reqlen then do
      let zm ← zipmapResize zm (zmlen-freelen+reqlen)
      let zm ← moveBytes zm (p+reqlen) (p+freelen) (zmlen-(p+freelen+1))
      .ok (zm, p, zmlen-freelen+reqlen, reqlen)
    else .ok (zm, p, zmlen, freelen)

def trimRoom (zm : Bytes) (p zmlen freelen reqlen : ℕ) : Except Fault (Bytes × ℕ) :=
  if zipmapValueMaxFree ≤ freelen-reqlen then do
    let zm ← moveBytes zm (p+reqlen) (p+freelen) (zmlen-(p+freelen+1))
    let zm ← zipmapResize zm (zmlen-(freelen-reqlen))
    .ok (zm, 0)
  else .ok (zm, freelen-reqlen)

def zipmapSet (zm key val : Bytes) : Except Fault (Bytes × Bool) := do
  let reqlen := zipmapRequiredLength key.length val.length
  let (found, zmlen) ← zipmapLookupRaw zm (some key) true
  let (zm, p, zmlen, freelen) ← makeRoom zm found zmlen reqlen
  let (zm, vempty) ← trimRoom zm p zmlen freelen reqlen
  let zm ← writeEntry zm p key val vempty
  .ok (zm, found.isSome)

def zipmapDel (zm key : Bytes) : Except Fault (Bytes × Bool) := do
  let (found, zmlen) ← zipmapLookupRaw zm (some key) true
  match found with
  | none => .ok (zm, false)
  | some p => do
    let freelen ← zipmapRawEntryLength zm p
    let zm ← moveBytes zm p (p+freelen) (zmlen-(p+freelen+1))
    let zm ← zipmapResize zm (zmlen-freelen)
    let zm ← decrementCount zm
    .ok (zm, true)

def zipmapRewind : ℕ := 1

def zipmapNext (zm : Bytes) (p : ℕ) : Except Fault (Option (ℕ × Bytes × Bytes)) := do
  let b ← loadByte zm p
  if b = zipmapEnd then .ok none
  else do
    let klen ← zipmapDecodeLength zm p
    let key ← loadBytes zm (p+zipmapLenBytes klen) klen
    let rawKey ← zipmapRawKeyLength zm p
    let q := p+rawKey
    let vlen ← zipmapDecodeLength zm q
    let val ← loadBytes zm (q+1+zipmapLenBytes vlen) vlen
    let rawValue ← zipmapRawValueLength zm q
    .ok (some (q+rawValue, key, val))

def zipmapGet (zm key : Bytes) : Except Fault (Option Bytes) := do
  let (found, _) ← zipmapLookupRaw zm (some key) false
  match found with
  | none => .ok none
  | some p => do
    let rawKey ← zipmapRawKeyLength zm p
    let q := p+rawKey
    let vlen ← zipmapDecodeLength zm q
    let val ← loadBytes zm (q+zipmapLenBytes vlen+1) vlen
    .ok (some val)

def zipmapExists (zm key : Bytes) : Except Fault Bool := do
  let (found, _) ← zipmapLookupRaw zm (some key) false
  .ok found.isSome

def bindingsFrom (zm : Bytes) : ℕ → ℕ → Except Fault (List (Bytes × Bytes))
  | 0, _ => .error .outOfFuel
  | fuel+1, p => do
    match ← zipmapNext zm p with
    | none => .ok []
    | some (q, key, val) => do
      let rest ← bindingsFrom zm fuel q
      .ok ((key, val) :: rest)

def zipmapBindings (zm : Bytes) : Except Fault (List (Bytes × Bytes)) :=
  bindingsFrom zm zm.length zipmapRewind

/-- The count byte of a small zipmap is right, and that of a large one is written anew if the
zipmap has become small. -/
def zipmapLen (zm : Bytes) : Except Fault (ℕ × Bytes) := do
  let b ← loadByte zm 0
  if b.toNat < zipmapBiglen then .ok (b.toNat, zm)
  else do
    let bindings ← zipmapBindings zm
    let len := bindings.length
    if len < zipmapBiglen then do
      let zm ← storeBytes zm 0 [ofNat len]
      .ok (len, zm)
    else .ok (len, zm)

def zipmapBlobLen (zm : Bytes) : Except Fault ℕ := do
  let (_, totlen) ← zipmapLookupRaw zm none true
  .ok totlen

end RedisCore.Zipmap
