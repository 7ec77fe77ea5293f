import RedisCore.BitfieldModel

/-! The commands `BITOP`, `BITCOUNT` and `BITPOS` of `bitops.c`.  They read strings in words of 32
and 64 bits, which are little-endian; a string object of any encoding is given by its bytes, and
`addr` is the address of the first one. -/

namespace RedisCore.Bit

def loadUInt32 (m : Bytes) (i : ℕ) : Except Fault UInt32 := do
  let bytes ← loadBytes m i 4
  return UInt32.ofNat (leNat bytes)

def loadUInt64 (m : Bytes) (i : ℕ) : Except Fault UInt64 := do
  let bytes ← loadBytes m i 8
  return UInt64.ofNat (leNat bytes)

def storeUInt64 (m : Bytes) (i : ℕ) (w : UInt64) : Except Fault Bytes :=
  storeBytes m i (leBytes 8 w.toNat)

def bitsinbyte : List ℕ :=
  [0, 1, 1, 2, 1, 2, 2, 3, 1, 2, 2, 3, 2, 3, 3, 4, 1, 2, 2, 3, 2, 3, 3, 4, 2, 3, 3, 4, 3, 4, 4, 5,
   1, 2, 2, 3, 2, 3, 3, 4, 2, 3, 3, 4, 3, 4, 4, 5, 2, 3, 3, 4, 3, 4, 4, 5, 3, 4, 4, 5, 4, 5, 5, 6,
   1, 2, 2, 3, 2, 3, 3, 4, 2, 3, 3, 4, 3, 4, 4, 5, 2, 3, 3, 4, 3, 4, 4, 5, 3, 4, 4, 5, 4, 5, 5, 6,
   2, 3, 3, 4, 3, 4, 4, 5, 3, 4, 4, 5, 4, 5, 5, 6, 3, 4, 4, 5, 4, 5, 5, 6, 4, 5, 5, 6, 5, 6, 6, 7,
   1, 2, 2, 3, 2, 3, 3, 4, 2, 3, 3, 4, 3, 4, 4, 5, 2, 3, 3, 4, 3, 4, 4, 5, 3, 4, 4, 5, 4, 5, 5, 6,
   2, 3, 3, 4, 3, 4, 4, 5, 3, 4, 4, 5, 4, 5, 5, 6, 3, 4, 4, 5, 4, 5, 5, 6, 4, 5, 5, 6, 5, 6, 6, 7,
   2, 3, 3, 4, 3, 4, 4, 5, 3, 4, 4, 5, 4, 5, 5, 6, 3, 4, 4, 5, 4, 5, 5, 6, 4, 5, 5, 6, 5, 6, 6, 7,
   3, 4, 4, 5, 4, 5, 5, 6, 4, 5, 5, 6, 5, 6, 6, 7, 4, 5, 5, 6, 5, 6, 6, 7, 5, 6, 6, 7, 6, 7, 7, 8]

/-- The initial bytes up to an address that is aligned to 32 bits: what is left of `count`, the
position and the bits. -/
def popHead (s : Bytes) (addr : ℕ) : ℕ → ℕ → ℕ → Except Fault (ℕ × ℕ × ℕ)
  | 0, p, bits => return (0, p, bits)
  | count+1, p, bits =>
    if (addr+p) &&& 3 ≠ 0 then do
      let b ← loadByte s p
      popHead s addr count (p+1) (bits+bitsinbyte.getD b.toNat 0)
    else return (count+1, p, bits)

def sumPairs (aux : UInt32) : UInt32 :=
  let aux : UInt32 := aux-((aux >>> 1) &&& 0x55555555)
  (aux &&& (0x33333333 : UInt32))+((aux >>> 2) &&& (0x33333333 : UInt32))

def sumNibbles (aux : UInt32) : UInt32 := (aux+(aux >>> 4)) &&& 0x0F0F0F0F

def popBlock (s : Bytes) (p : ℕ) : Except Fault ℕ := do
  let aux1 ← loadUInt32 s p
  let aux2 ← loadUInt32 s (p+4)
  let aux3 ← loadUInt32 s (p+8)
  let aux4 ← loadUInt32 s (p+12)
  let aux5 ← loadUInt32 s (p+16)
  let aux6 ← loadUInt32 s (p+20)
  let aux7 ← loadUInt32 s (p+24)
  let sum := sumNibbles (sumPairs aux1)+sumNibbles (sumPairs aux2)+sumNibbles (sumPairs aux3)+
    sumNibbles (sumPairs aux4)+sumNibbles (sumPairs aux5)+sumNibbles (sumPairs aux6)+
    sumNibbles (sumPairs aux7)
  return ((sum*0x01010101) >>> 24).toNat

def popBlocks (s : Bytes) : ℕ → ℕ → ℕ → ℕ → Except Fault (ℕ × ℕ × ℕ)
  | 0, _, _, _ => .error .outOfFuel
  | fuel+1, count, p, bits =>
    if count ≥ 28 then do
      let n ← popBlock s p
      popBlocks s fuel (count-28) (p+28) (bits+n)
    else return (count, p, bits)

def popTail (s : Bytes) : ℕ → ℕ → ℕ → Except Fault ℕ
  | 0, _, bits => return bits
  | count+1, p, bits => do
    let b ← loadByte s p
    popTail s count (p+1) (bits+bitsinbyte.getD b.toNat 0)

def redisPopcount (s : Bytes) (addr p count : ℕ) : Except Fault ℕ := do
  let (count, p, bits) ← popHead s addr count p 0
  let (count, p, bits) ← popBlocks s (count+1) count p bits
  popTail s count p bits

/-- The initial bytes up to an address that is aligned to 64 bits: whether a byte was found that is
not skipped, what is left of `count`, the position in the string and that of the bit. -/
def posHead (s : Bytes) (addr : ℕ) (bit : Bool) : ℕ → ℕ → ℕ → Except Fault (Bool × ℕ × ℕ × ℕ)
  | 0, c, pos => return (false, 0, c, pos)
  | count+1, c, pos =>
    if (addr+c) &&& 7 ≠ 0 then do
      let b ← loadByte s c
      if b ≠ (if bit then 0 else 255) then return (true, count+1, c, pos)
      else posHead s addr bit count (c+1) (pos+8)
    else return (false, count+1, c, pos)

def posWords (s : Bytes) (bit : Bool) : ℕ → ℕ → ℕ → ℕ → Except Fault (ℕ × ℕ × ℕ)
  | 0, _, _, _ => .error .outOfFuel
  | fuel+1, count, l, pos =>
    if count ≥ 8 then do
      let w ← loadUInt64 s l
      if w ≠ (if bit then 0 else 0xFFFFFFFFFFFFFFFF) then return (count, l, pos)
      else posWords s bit fuel (count-8) (l+8) (pos+8*8)
    else return (count, l, pos)

def loadBig (s : Bytes) : ℕ → ℕ → ℕ → UInt64 → Except Fault UInt64
  | 0, _, _, word => return word
  | j+1, count, c, word =>
    let word := word <<< 8
    if count ≠ 0 then do
      let b ← loadByte s c
      loadBig s j (count-1) (c+1) (word ||| b.toUInt64)
    else loadBig s j count c word

def scanWord (word : UInt64) (bit : Bool) : ℕ → UInt64 → ℤ → Except Fault ℤ
  | 0, _, _ => .error .outOfFuel
  | fuel+1, one, pos =>
    if one ≠ 0 then
      if decide (one &&& word ≠ 0) = bit then return pos
      else scanWord word bit fuel (one >>> 1) (pos+1)
    -- serverPanic("End of redisBitpos() reached.")
    else .error .aborted

def redisBitpos (s : Bytes) (addr c count : ℕ) (bit : Bool) : Except Fault ℤ := do
  let (found, count, c, pos) ← posHead s addr bit count c 0
  let (count, l, pos) ← (if found then return (count, c, pos)
    else posWords s bit (count+1) count c pos)
  let word ← loadBig s 8 count l 0
  if bit = true ∧ word = 0 then return -1
  else
    let one : UInt64 := ~~~((0xFFFFFFFFFFFFFFFF : UInt64) >>> 1)
    scanWord word bit 65 one pos

def convertRange (strlen start ends : ℤ) : ℤ × ℤ :=
  let start := if start < 0 then strlen+start else start
  let ends := if ends < 0 then strlen+ends else ends
  let start := if start < 0 then 0 else start
  let ends := if ends < 0 then 0 else ends
  let ends := if ends ≥ strlen then strlen-1 else ends
  (start, ends)

def countRange (s : Bytes) (addr : ℕ) (start ends : ℤ) : Except Fault BitReply :=
  if start > ends then return .integer 0
  else do
    let bytes := ends-start+1
    let n ← redisPopcount s addr start.toNat bytes.toNat
    return .integer n

def bitcountCommand (db : Keys) (addr : ℕ) (argv : List Bytes) : Except Fault BitReply :=
  match db (arg argv 1) with
  | none => return .integer 0
  | some .other => return .error wrongtypeerr
  | some (.string s) =>
    if argv.length = 4 then
      match getLongLongFromObject (arg argv 2) with
      | .error e => return .error e
      | .ok start =>
        match getLongLongFromObject (arg argv 3) with
        | .error e => return .error e
        | .ok ends =>
          if start < 0 ∧ ends < 0 ∧ start > ends then return .integer 0
          else
            let (start, ends) := convertRange s.length start ends
            countRange s addr start ends
    else if argv.length = 2 then countRange s addr 0 (s.length-1)
    else return .error "ERR syntax error"

def posRange (s : Bytes) (addr : ℕ) (bit endGiven : Bool) (start ends : ℤ) :
    Except Fault BitReply :=
  if start > ends then return .integer (-1)
  else do
    let bytes := ends-start+1
    let pos ← redisBitpos s addr start.toNat bytes.toNat bit
    if endGiven = true ∧ bit = false ∧ pos = bytes*8 then return .integer (-1)
    else return .integer (if pos ≠ -1 then pos+start*8 else pos)

def bitposCommand (db : Keys) (addr : ℕ) (argv : List Bytes) : Except Fault BitReply :=
  match getLongLongFromObject (arg argv 2) with
  | .error e => return .error e
  | .ok n =>
    if n ≠ 0 ∧ n ≠ 1 then return .error "ERR The bit argument must be 1 or 0."
    else
      let bit := decide (n = 1)
      match db (arg argv 1) with
      | none => return .integer (if bit then -1 else 0)
      | some .other => return .error wrongtypeerr
      | some (.string s) =>
        if argv.length = 4 ∨ argv.length = 5 then
          match getLongLongFromObject (arg argv 3) with
          | .error e => return .error e
          | .ok start =>
            if argv.length = 5 then
              match getLongLongFromObject (arg argv 4) with
              | .error e => return .error e
              | .ok ends =>
                let (start, ends) := convertRange s.length start ends
                posRange s addr bit true start ends
            else
              let (start, ends) := convertRange s.length start (s.length-1)
              posRange s addr bit false start ends
        else if argv.length = 3 then posRange s addr bit false 0 (s.length-1)
        else return .error "ERR syntax error"

inductive Bitop where
  | and
  | or
  | xor
  | not
deriving DecidableEq, Repr

structure Sources where
  src : List Bytes
  maxlen : ℕ
  minlen : ℕ

/-- The loop that looks up the keys, from the key number `j` on; `none` is a value of another
type. -/
def lookupSources (db : Keys) : ℕ → List Bytes → Sources → Option Sources
  | _, [], acc => some acc
  | j, key :: keys, acc =>
    match db key with
    | none => lookupSources db (j+1) keys { acc with src := acc.src ++ [[]], minlen := 0 }
    | some .other => none
    | some (.string s) =>
      let maxlen := if s.length > acc.maxlen then s.length else acc.maxlen
      let minlen := if j = 0 ∨ s.length < acc.minlen then s.length else acc.minlen
      lookupSources db (j+1) keys { src := acc.src ++ [s], maxlen := maxlen, minlen := minlen }

def combineWord (op : Bitop) (x y : UInt64) : UInt64 :=
  match op with
  | .and => x &&& y
  | .or => x ||| y
  | .xor => x ^^^ y
  | .not => x

def combineByte (op : Bitop) (x y : UInt8) : UInt8 :=
  match op with
  | .and => x &&& y
  | .or => x ||| y
  | .xor => x ^^^ y
  | .not => x

def combineAt (op : Bitop) (res : Bytes) (lres : ℕ) (lp : Bytes × ℕ) (k : ℕ) :
    Except Fault Bytes := do
  let x ← loadUInt64 res (lres+8*k)
  let y ← loadUInt64 lp.1 (lp.2+8*k)
  storeUInt64 res (lres+8*k) (combineWord op x y)

def combineSources (op : Bitop) (lres : ℕ) : Bytes → List (Bytes × ℕ) →
    Except Fault (Bytes × List (Bytes × ℕ))
  | res, [] => return (res, [])
  | res, lp :: lps => do
    let res ← combineAt op res lres lp 0
    let res ← combineAt op res lres lp 1
    let res ← combineAt op res lres lp 2
    let res ← combineAt op res lres lp 3
    let (res, lps) ← combineSources op lres res lps
    return (res, (lp.1, lp.2+32) :: lps)

def invertAt (res : Bytes) (lres k : ℕ) : Except Fault Bytes := do
  let x ← loadUInt64 res (lres+8*k)
  storeUInt64 res (lres+8*k) (~~~x)

def invertWords (res : Bytes) (lres : ℕ) : Except Fault Bytes := do
  let res ← invertAt res lres 0
  let res ← invertAt res lres 1
  let res ← invertAt res lres 2
  invertAt res lres 3

def fastLoop (op : Bitop) : ℕ → Bytes → ℕ → List (Bytes × ℕ) → ℕ → ℕ → Except Fault (Bytes × ℕ)
  | 0, _, _, _, _, _ => .error .outOfFuel
  | fuel+1, res, lres, lp, j, minlen =>
    if minlen ≥ 8*4 then do
      let (res, lp) ← (if op = .not then do
          let res ← invertWords res lres
          return (res, lp)
        else combineSources op lres res lp)
      fastLoop op fuel res (lres+8*4) lp (j+8*4) (minlen-8*4)
    else return (res, j)

def sourceByte (src : Bytes) (j : ℕ) : Except Fault UInt8 :=
  if src.length ≤ j then return 0 else loadByte src j

def foldBytes (op : Bitop) (j : ℕ) : UInt8 → List Bytes → Except Fault UInt8
  | output, [] => return output
  | output, src :: srcs => do
    let byte ← sourceByte src j
    foldBytes op j (combineByte op output byte) srcs

def byteLoop (op : Bitop) (first : Bytes) (rest : List Bytes) : ℕ → Bytes → ℕ → Except Fault Bytes
  | 0, res, _ => return res
  | n+1, res, j => do
    let output ← sourceByte first j
    let output := if op = .not then ~~~output else output
    let output ← foldBytes op j output rest
    let res ← storeBytes res j [output]
    byteLoop op first rest n res (j+1)

/-- The result, which starts as `maxlen` zeros.  With `aligned` (`USE_ALIGNED_ACCESS`) there is no
fast path. -/
def computeBitop (aligned : Bool) (op : Bitop) (sources : Sources) : Except Fault Bytes :=
  match sources.src with
  | [] => .error .outOfBounds
  | first :: rest => do
    let res := List.replicate sources.maxlen 0
    let (res, j) ← (if aligned = false ∧ sources.minlen ≥ 8*4 ∧ sources.src.length ≤ 16 then do
        let start ← loadBytes first 0 sources.minlen
        let res ← storeBytes res 0 start
        fastLoop op (sources.minlen+1) res 0 (rest.map (fun src => (src, 0))) 0 sources.minlen
      else return (res, 0))
    byteLoop op first rest (sources.maxlen-j) res j

def bitopName (opname : Bytes) : Option Bitop :=
  let letter := (cString opname).headD 0
  if (letter = 97 ∨ letter = 65) ∧ sameCaseless opname (text "and") = true then some .and
  else if (letter = 111 ∨ letter = 79) ∧ sameCaseless opname (text "or") = true then some .or
  else if (letter = 120 ∨ letter = 88) ∧ sameCaseless opname (text "xor") = true then some .xor
  else if (letter = 110 ∨ letter = 78) ∧ sameCaseless opname (text "not") = true then some .not
  else none

def bitopCommand (aligned : Bool) (db : Keys) (argv : List Bytes) :
    Except Fault (BitReply × Keys) :=
  match bitopName (arg argv 1) with
  | none => return (.error "ERR syntax error", db)
  | some op =>
    if op = .not ∧ argv.length ≠ 4 then
      return (.error "ERR BITOP NOT must be called with a single source key.", db)
    else
      match lookupSources db 0 (argv.drop 3) { src := [], maxlen := 0, minlen := 0 } with
      | none => return (.error wrongtypeerr, db)
      | some sources => do
        if sources.maxlen ≠ 0 then
          let res ← computeBitop aligned op sources
          return (.integer sources.maxlen, Function.update db (arg argv 2) (some (.string res)))
        else return (.integer 0, Function.update db (arg argv 2) none)

end RedisCore.Bit
