import RedisCore.IntegerText
import RedisCore.CTypes

/-! Lengths and strings in the format of a dump (`rdb.c`). -/

namespace RedisCore.Rdb
open UInt8 (ofNat)

/-- `RDB_6BITLEN` to `RDB_ENCVAL` in the two high bits of a byte, or the whole byte. -/
def rdb14bitLen : ℕ := 1
def rdb32bitLen : UInt8 := 0x80
def rdb64bitLen : UInt8 := 0x81
def rdbEncVal : ℕ := 3

def rdbEncInt8 : ℕ := 0
def rdbEncInt16 : ℕ := 1
def rdbEncInt32 : ℕ := 2
def rdbEncLzf : ℕ := 3

/-- Why nothing is written or read: a write or read error, an exit for a corrupt dump, a failed assertion,
an access out of a buffer. -/
inductive RdbFault where
  | writeError
  | readError
  | corrupt
  | assertion
  | buffer (f : Fault)
deriving DecidableEq, Repr

/-- The compression that the string functions call, with `none` for the length 0. -/
structure Lzf where
  compress : Bytes → ℕ → Option Bytes
  decompress : Bytes → ℕ → Option Bytes

/-- `n` as the `unsigned int` of the parameters of the compression. -/
def uintLen (n : ℕ) : ℕ := n % 2^32

def Lzf.RoundTrips (lzf : Lzf) : Prop :=
  ∀ data n c, data.length < 2^32 → n < 2^32 → lzf.compress data n = some c →
    c.length ≤ n ∧ lzf.decompress c data.length = some data

/-- The number of bytes is returned as an `int`, and -1 stands for an error. -/
def rdbWriteRaw (p : Bytes) : Except RdbFault (Bytes × ℤ) :=
  if toInt p.length = -1 then .error .writeError else .ok (p, toInt p.length)

def rdbSaveLen (len : ℕ) : Bytes :=
  if len < 2^6 then [ofNat len]
  else if len < 2^14 then [ofNat (len / 256) ||| ofNat (rdb14bitLen * 64), ofNat len]
  else if len ≤ 2^32 - 1 then rdb32bitLen :: beBytes 4 len
  else rdb64bitLen :: beBytes 8 len

def rioRead (rdb : Bytes) (n : ℕ) : Except RdbFault (Bytes × Bytes) :=
  if n ≤ rdb.length then .ok (rdb.take n, rdb.drop n) else .error .readError

def rdbLoadLenByRef (rdb : Bytes) : Except RdbFault (Bool × ℕ × Bytes) := do
  let (buf, rdb) ← rioRead rdb 1
  let b := (buf.headD 0).toNat
  if b / 64 = rdbEncVal then .ok (true, b % 64, rdb)
  else if b / 64 = 0 then .ok (false, b % 64, rdb)
  else if b / 64 = rdb14bitLen then
    let (low, rdb) ← rioRead rdb 1
    .ok (false, b % 64 * 256 + (low.headD 0).toNat, rdb)
  else if b = rdb32bitLen.toNat then
    let (len, rdb) ← rioRead rdb 4
    .ok (false, beNat len, rdb)
  else if b = rdb64bitLen.toNat then
    let (len, rdb) ← rioRead rdb 8
    .ok (false, beNat len, rdb)
  else .error .corrupt

/-- `none` for the length 0. -/
def rdbEncodeInteger (value : ℤ) : Option Bytes :=
  if -2^7 ≤ value ∧ value ≤ 2^7 - 1 then
    some (ofNat (rdbEncVal * 64 + rdbEncInt8) :: leBytes 1 (toUnsigned 8 value))
  else if -2^15 ≤ value ∧ value ≤ 2^15 - 1 then
    some (ofNat (rdbEncVal * 64 + rdbEncInt16) :: leBytes 2 (toUnsigned 16 value))
  else if -2^31 ≤ value ∧ value ≤ 2^31 - 1 then
    some (ofNat (rdbEncVal * 64 + rdbEncInt32) :: leBytes 4 (toUnsigned 32 value))
  else none

def llText (size : ℕ) (value : ℤ) : Except RdbFault Bytes :=
  match ll2string (List.replicate size 0) value with
  | .ok (buf, len) => .ok (buf.take len)
  | .error f => .error (.buffer f)

def strtolEnd (s : Bytes) : Bytes :=
  let t := s.dropWhile isspace
  let digits := if t.head? = some 45 ∨ t.head? = some 43 then t.tail else t
  if digits.head?.any isDigit then digits.dropWhile isDigit else s

/-- The string stands in a buffer with `after` behind it, which `strtoll` may read. -/
def rdbTryIntegerEncoding (s after : Bytes) : Except RdbFault (Option Bytes) := do
  if (strtolEnd (s ++ after)).headD 0 ≠ 0 then .ok none
  else
    let value := strtol (s ++ after)
    let buf ← llText 32 value
    if buf.length ≠ s.length ∨ buf ≠ s then .ok none else .ok (rdbEncodeInteger value)

def rdbSaveLzfBlob (data : Bytes) (originalLen : ℕ) : Except RdbFault (Bytes × ℤ) := do
  let head := ofNat (rdbEncVal * 64 + rdbEncLzf) :: (rdbSaveLen data.length ++ rdbSaveLen originalLen)
  let (out, n) ← rdbWriteRaw data
  .ok (head ++ out, head.length + n)

/-- What `lzf_compress` is called with: the lengths lose their high bits. -/
def lzfCompress (lzf : Lzf) (s : Bytes) (outlen : ℕ) : Option Bytes :=
  lzf.compress (s.take (uintLen s.length)) (uintLen outlen)

def rdbSaveLzfStringObject (lzf : Lzf) (s : Bytes) : Except RdbFault (Bytes × ℤ) :=
  if s.length ≤ 4 then .ok ([], 0)
  else
    match lzfCompress lzf s (s.length - 4) with
    | none => .ok ([], 0)
    | some out => rdbSaveLzfBlob out s.length

/-- What was written of a compressed string stays in front if its count is not positive. -/
def rdbSaveText (compression : Bool) (lzf : Lzf) (s : Bytes) : Except RdbFault Bytes := do
  let (out, n) ← (if compression ∧ 20 < s.length then rdbSaveLzfStringObject lzf s else .ok ([], 0))
  if n = -1 then .error .writeError
  else if n > 0 then .ok out
  else
    let (verbatim, _) ← rdbWriteRaw s
    .ok (out ++ (rdbSaveLen s.length ++ verbatim))

def rdbSaveRawString (compression : Bool) (lzf : Lzf) (s after : Bytes) : Except RdbFault Bytes := do
  let enc ← (if s.length ≤ 11 then rdbTryIntegerEncoding s after else .ok none)
  match enc with
  | some buf => .ok buf
  | none => rdbSaveText compression lzf s

def rdbSaveLongLongAsStringObject (value : ℤ) : Except RdbFault Bytes :=
  match rdbEncodeInteger value with
  | some buf => .ok buf
  | none => do
    let buf ← llText 32 value
    if buf.length < 32 then .ok (rdbSaveLen buf.length ++ buf) else .error .assertion

structure LoadFlags where
  encode : Bool
  plain : Bool
  sds : Bool
deriving DecidableEq, Repr

inductive LoadedString where
  | plain (s : Bytes)
  | sds (s : Bytes)
  | raw (s : Bytes)
  | embstr (s : Bytes)
  | int (value : ℤ)
deriving DecidableEq, Repr

def LoadedString.text : LoadedString → Bytes
  | .plain s => s
  | .sds s => s
  | .raw s => s
  | .embstr s => s
  | .int value => decimal value

def createStringObject (s : Bytes) : LoadedString := if s.length ≤ 44 then .embstr s else .raw s

def loadInteger (rdb : Bytes) (enctype : ℕ) : Except RdbFault (ℤ × Bytes) :=
  if enctype = rdbEncInt8 then do
    let (enc, rdb) ← rioRead rdb 1
    .ok (toSigned 8 (leNat enc), rdb)
  else if enctype = rdbEncInt16 then do
    let (enc, rdb) ← rioRead rdb 2
    .ok (toSigned 16 (leNat enc), rdb)
  else if enctype = rdbEncInt32 then do
    let (enc, rdb) ← rioRead rdb 4
    .ok (toSigned 32 (leNat enc), rdb)
  else .error .corrupt

def integerObject (val : ℤ) (flags : LoadFlags) : Except RdbFault LoadedString := do
  if flags.plain ∨ flags.sds then
    let buf ← llText 21 val
    .ok (if flags.plain then .plain buf else .sds buf)
  else if flags.encode then .ok (.int val)
  else .ok (.raw (decimal val))

def rdbLoadIntegerObject (rdb : Bytes) (enctype : ℕ) (flags : LoadFlags) :
    Except RdbFault (LoadedString × Bytes) := do
  let (val, rdb) ← loadInteger rdb enctype
  let o ← integerObject val flags
  .ok (o, rdb)

/-- `rdbLoadLen`: the length `RDB_LENERR` cannot be told from an error. -/
def rdbLoadLen (rdb : Bytes) : Except RdbFault (Bool × ℕ × Bytes) := do
  let (isencoded, len, rdb) ← rdbLoadLenByRef rdb
  if isencoded = false ∧ len = 2^64 - 1 then .error .readError else .ok (isencoded, len, rdb)

/-- The block of `len` bytes that held `junk` before the decompressed data came to its start. -/
def decompressInto (junk : ℕ → UInt8) (len : ℕ) (data : Bytes) : Bytes :=
  data ++ ((List.range len).map junk).drop data.length

def rdbLoadLzfStringObject (lzf : Lzf) (junk : ℕ → UInt8) (rdb : Bytes) (flags : LoadFlags) :
    Except RdbFault (LoadedString × Bytes) := do
  let (_, clen, rdb) ← rdbLoadLen rdb
  let (_, len, rdb) ← rdbLoadLen rdb
  let (c, rdb) ← rioRead rdb clen
  match lzf.decompress (c.take (uintLen clen)) (uintLen len) with
  | none => .error .corrupt
  | some data =>
    let val := decompressInto junk len data
    .ok (if flags.plain then .plain val else if flags.sds then .sds val else .raw val, rdb)

def rdbGenericLoadStringObject (lzf : Lzf) (junk : ℕ → UInt8) (rdb : Bytes) (flags : LoadFlags) :
    Except RdbFault (LoadedString × Bytes) := do
  let (isencoded, len, rdb) ← rdbLoadLen rdb
  if isencoded then
    if len = rdbEncInt8 ∨ len = rdbEncInt16 ∨ len = rdbEncInt32 then rdbLoadIntegerObject rdb len flags
    else if len = rdbEncLzf then rdbLoadLzfStringObject lzf junk rdb flags
    else .error .corrupt
  else
    let (buf, rdb) ← rioRead rdb len
    if flags.plain ∨ flags.sds then .ok (if flags.plain then .plain buf else .sds buf, rdb)
    else .ok (if flags.encode then createStringObject buf else .raw buf, rdb)

end RedisCore.Rdb
