import RedisCore.RdbModel

/-! `lzf_compress` and `lzf_decompress`, as they are configured here: the table of positions is not
initialised, and holds offsets. A buffer that is written is the list of the bytes before `op`. -/

namespace RedisCore.Lzf

def maxLit : ℕ := 32

def maxOff : ℕ := 8192

def maxRef : ℕ := 264

def byteAt (data : Bytes) (i : ℕ) : UInt8 := data.getD i 0

def frst (data : Bytes) (i : ℕ) : UInt32 :=
  (byteAt data i).toUInt32 <<< 8 ||| (byteAt data (i+1)).toUInt32

def next (v : UInt32) (data : Bytes) (i : ℕ) : UInt32 := v <<< 8 ||| (byteAt data (i+2)).toUInt32

def idx (h : UInt32) : ℕ := (((h >>> 8) - h*5) &&& 0xffff).toNat

structure Encoder where
  ip : ℕ
  op : Bytes
  lit : ℕ
  hval : UInt32
  htab : ℕ → UInt32

/-- `op[-lit-1] = lit-1`. -/
def stopRun (st : Encoder) : Encoder :=
  { st with op := st.op.set (st.op.length-st.lit-1) (UInt8.ofNat st.lit-1) }

/-- `op -= !lit`. -/
def undoRun (st : Encoder) : Encoder := if st.lit = 0 then { st with op := st.op.dropLast } else st

def startRun (st : Encoder) : Encoder := { st with op := st.op ++ [0], lit := 0 }

section Match

variable (data : Bytes) (ref ip : ℕ)

/-- The comparisons that are written out; the flag tells that one of them has failed. -/
def unrolled : ℕ → ℕ → ℕ × Bool
  | 0, len => (len, false)
  | n+1, len =>
    if byteAt data (ref+(len+1)) ≠ byteAt data (ip+(len+1)) then (len+1, true)
    else unrolled n (len+1)

/-- `do len++; while (len < maxlen && ref[len] == ip[len]);` -/
def extend (maxlen : ℕ) : ℕ → ℕ → ℕ
  | 0, len => len
  | n+1, len =>
    if len+1 < maxlen ∧ byteAt data (ref+(len+1)) = byteAt data (ip+(len+1)) then
      extend maxlen n (len+1)
    else len+1

def matchLength : ℕ :=
  let maxlen := min (data.length-ip-2) maxRef
  if 16 < maxlen then
    let (len, stopped) := unrolled data ref ip 16 2
    if stopped then len else extend data ref ip maxlen maxlen len
  else extend data ref ip maxlen (maxlen+1) 2

end Match

/-- A reference `off+1` bytes back, to `len` bytes. -/
def refBytes (off len : ℕ) : Bytes :=
  if len-2 < 7 then [UInt8.ofNat (off >>> 8 + (len-2) <<< 5), UInt8.ofNat off]
  else [UInt8.ofNat (off >>> 8 + 7 <<< 5), UInt8.ofNat (len-2-7), UInt8.ofNat off]

/-- Where the data matches the position `ref`: `none` where the output is full. -/
def putRef (data : Bytes) (outLen ref : ℕ) (st : Encoder) : Option Encoder :=
  let notLit := if st.lit = 0 then 1 else 0
  if st.op.length+3+1 ≥ outLen ∧ st.op.length-notLit+3+1 ≥ outLen then none
  else
    let len := matchLength data ref st.ip
    let st := undoRun (stopRun st)
    let st := startRun { st with op := st.op ++ refBytes (st.ip-ref-1) len, ip := st.ip+len }
    if data.length ≤ st.ip+2 then some st
    else
      -- the last two positions of the match are entered in the table
      let h1 := next (frst data (st.ip-2)) data (st.ip-2)
      let h2 := next h1 data (st.ip-1)
      some { st with
        hval := h2
        htab := Function.update (Function.update st.htab (idx h1) (UInt32.ofNat (st.ip-2))) (idx h2)
          (UInt32.ofNat (st.ip-1)) }

/-- `lit++; *op++ = *ip++;`, and the end of a run that is full. -/
def putLit (data : Bytes) (st : Encoder) : Encoder :=
  let st := { st with lit := st.lit+1, op := st.op ++ [byteAt data st.ip], ip := st.ip+1 }
  if st.lit = maxLit then startRun (stopRun st) else st

def compressStep (data : Bytes) (outLen : ℕ) (st : Encoder) : Option Encoder :=
  let hval := next st.hval data st.ip
  let ref := (st.htab (idx hval)).toNat
  let st := { st with
    hval := hval
    htab := Function.update st.htab (idx hval) (UInt32.ofNat st.ip) }
  if ref < st.ip ∧ st.ip-ref-1 < maxOff ∧ 0 < ref ∧ byteAt data (ref+2) = byteAt data (st.ip+2) ∧
      byteAt data ref = byteAt data st.ip ∧ byteAt data (ref+1) = byteAt data (st.ip+1) then
    putRef data outLen ref st
  else if st.op.length ≥ outLen then none
  else some (putLit data st)

def compressLoop (data : Bytes) (outLen : ℕ) : ℕ → Encoder → Except Fault (Option Encoder)
  | 0, _ => .error .outOfFuel
  | n+1, st =>
    if st.ip+2 < data.length then
      match compressStep data outLen st with
      | none => .ok none
      | some st => compressLoop data outLen n st
    else .ok (some st)

def tailLoop (data : Bytes) : ℕ → Encoder → Encoder
  | 0, st => st
  | n+1, st => tailLoop data n (putLit data st)

/-- The bytes that are written, `none` for the length 0; `htab` is what the table happens to hold. -/
def lzf_compress (htab : ℕ → UInt32) (data : Bytes) (outLen : ℕ) : Except Fault (Option Bytes) :=
  if data.length = 0 ∨ outLen = 0 then .ok none
  else do
    let st ← compressLoop data outLen data.length ⟨0, [0], 0, frst data 0, htab⟩
    match st with
    | none => .ok none
    | some st =>
      if outLen < st.op.length+3 then .ok none
      else .ok (some (undoRun (stopRun (tailLoop data (data.length-st.ip) st))).op)

/-- Octet by octet, as the areas may overlap. -/
def copyOctets : ℕ → ℕ → Bytes → Except Fault Bytes
  | 0, _, op => .ok op
  | n+1, ref, op => do
    let b ← loadByte op ref
    copyOctets n (ref+1) (op ++ [b])

def copyRef (ref len : ℕ) (op : Bytes) : Except Fault Bytes :=
  if 9 < len ∧ op.length ≥ ref+(len+2) then do
    let bs ← loadBytes op ref (len+2)
    .ok (op ++ bs)
  else copyOctets (len+2) ref op

/-- A longer match has its length in one more byte; `none` where the input ends. -/
def refLength (c : Bytes) (ip len : ℕ) : Except Fault (Option (ℕ × ℕ)) :=
  if len = 7 then do
    let b ← loadByte c ip
    if c.length ≤ ip+1 then .ok none else .ok (some (len+b.toNat, ip+1))
  else .ok (some (len, ip))

def decompressStep (c : Bytes) (outLen ip : ℕ) (op : Bytes) :
    Except Fault (Option (ℕ × Bytes)) := do
  let ctrl ← loadByte c ip
  let ip := ip+1
  if ctrl.toNat < maxLit then
    let n := ctrl.toNat+1
    if outLen < op.length+n ∨ c.length < ip+n then .ok none
    else
      let bs ← loadBytes c ip n
      .ok (some (ip+n, op ++ bs))
  else if c.length ≤ ip then .ok none
  else
    match ← refLength c ip (ctrl.toNat >>> 5) with
    | none => .ok none
    | some (len, ip) =>
      let low ← loadByte c ip
      let back := (ctrl.toNat &&& 31) <<< 8 + 1 + low.toNat
      if outLen < op.length+len+2 ∨ op.length < back then .ok none
      else
        let op ← copyRef (op.length-back) len op
        .ok (some (ip+1, op))

def decompressLoop (c : Bytes) (outLen : ℕ) : ℕ → ℕ → Bytes → Except Fault (Option Bytes)
  | 0, _, _ => .error .outOfFuel
  | n+1, ip, op => do
    match ← decompressStep c outLen ip op with
    | none => .ok none
    | some (ip, op) => if ip < c.length then decompressLoop c outLen n ip op else .ok (some op)

/-- The bytes of the result, `none` for the length 0. -/
def lzf_decompress (c : Bytes) (outLen : ℕ) : Except Fault (Option Bytes) :=
  decompressLoop c outLen c.length 0 []

/-- The compression that the RDB functions call. -/
def lzf (htab : ℕ → UInt32) : Rdb.Lzf where
  compress data n := (lzf_compress htab data n).toOption.join
  decompress c n := (lzf_decompress c n).toOption.join

end RedisCore.Lzf
