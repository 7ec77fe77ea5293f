import RedisCore.BitField
import RedisCore.CTypes

/-! The integer fields of `bitops.c` and the command `BITFIELD`.  An access outside of the string is a
fault (`none`); a string object of any encoding is given by its bytes. -/

namespace RedisCore.Bit

def setUnsignedBitfield : Bytes → ℕ → ℕ → ℕ → Option Bytes
  | p, _, 0, _ => some p
  | p, offset, bits + 1, value => do
    let bitval := if value &&& (1 <<< bits) ≠ 0 then 1 else 0
    let byteval ← p[offset >>> 3]?
    let bit := 7-(offset &&& 7)
    let byteval := byteval.toNat &&& (2^64-1-(1 <<< bit))
    let byteval := byteval ||| (bitval <<< bit)
    setUnsignedBitfield (p.set (offset >>> 3) (UInt8.ofNat (byteval &&& 255))) (offset+1) bits value

def setSignedBitfield (p : Bytes) (offset bits : ℕ) (value : ℤ) : Option Bytes :=
  setUnsignedBitfield p offset bits (toUnsigned 64 value)

def getBits (p : Bytes) : ℕ → ℕ → ℕ → Option ℕ
  | _, 0, value => some value
  | offset, bits + 1, value => do
    let byteval ← p[offset >>> 3]?
    let bit := 7-(offset &&& 7)
    let bitval := (byteval.toNat >>> bit) &&& 1
    getBits p (offset+1) bits ((value <<< 1)%2^64 ||| bitval)

def getUnsignedBitfield (p : Bytes) (offset bits : ℕ) : Option ℕ := getBits p offset bits 0

def getSignedBitfield (p : Bytes) (offset bits : ℕ) : Option ℤ := do
  let value ← getUnsignedBitfield p offset bits
  if bits < 64 ∧ value &&& (1 <<< (bits-1)) ≠ 0 then
    return toLong ((value ||| ((2^64-1) <<< bits)%2^64 : ℕ) : ℤ)
  return toLong value

/-- `BFOVERFLOW_WRAP`, `BFOVERFLOW_SAT` and `BFOVERFLOW_FAIL`. -/
inductive Owtype where
  | wrap
  | sat
  | fail
deriving DecidableEq, Repr

/-- The return value and what is stored in `*limit`, which is nothing for `BFOVERFLOW_FAIL`. -/
abbrev OverflowCheck (α : Type) := ℤ × Option α

def checkUnsignedBitfieldOverflow (value : ℕ) (incr : ℤ) (bits : ℕ) (owtype : Owtype) :
    OverflowCheck ℕ :=
  let max : ℕ := if bits = 64 then 2^64-1 else 2^bits-1
  let maxincr := toLong ((max : ℤ)-value)
  let minincr := toLong (-(value : ℤ))
  let wrapped := toUnsigned 64 (value+incr) &&& (2^64-1-((2^64-1) <<< bits)%2^64)
  if value > max ∨ (incr > 0 ∧ incr > maxincr) then
    match owtype with
    | .wrap => (1, some wrapped)
    | .sat => (1, some max)
    | .fail => (1, none)
  else if incr < 0 ∧ incr < minincr then
    match owtype with
    | .wrap => (1, some wrapped)
    | .sat => (-1, some 0)
    | .fail => (-1, none)
  else (0, none)

/-- The number after `handle_wrap` of `checkSignedBitfieldOverflow`. -/
def wrapSigned (value incr : ℤ) (bits : ℕ) : ℤ :=
  let msb := 1 <<< (bits-1)
  let c := (toUnsigned 64 value+toUnsigned 64 incr)%2^64
  let mask := ((2^64-1) <<< bits)%2^64
  let c :=
    if bits < 64 then
      if c &&& msb ≠ 0 then c ||| mask else c &&& (2^64-1-mask)
    else c
  toLong c

/-- `int64_t` arithmetic wraps around. -/
def checkSignedBitfieldOverflow (value incr : ℤ) (bits : ℕ) (owtype : Owtype) : OverflowCheck ℤ :=
  let max : ℤ := if bits = 64 then 2^63-1 else 2^(bits-1)-1
  let min : ℤ := -max-1
  let maxincr := toLong (max-value)
  let minincr := toLong (min-value)
  if value > max ∨ (bits ≠ 64 ∧ incr > maxincr) ∨ (value ≥ 0 ∧ incr > 0 ∧ incr > maxincr) then
    match owtype with
    | .wrap => (1, some (wrapSigned value incr bits))
    | .sat => (1, some max)
    | .fail => (1, none)
  else if value < min ∨ (bits ≠ 64 ∧ incr < minincr) ∨
      (value < 0 ∧ incr < 0 ∧ incr < minincr) then
    match owtype with
    | .wrap => (1, some (wrapSigned value incr bits))
    | .sat => (-1, some min)
    | .fail => (-1, none)
  else (0, none)

def bitOffsetError : String := "ERR bit offset is not an integer or out of range"

def getBitOffsetFromArgument (o : Bytes) (hash : Bool) (bits : ℤ) : Except String ℕ :=
  let usehash := o[0]? == some 35 && hash && decide (bits > 0)
  match string2ll (if usehash then o.drop 1 else o) with
  | none => .error bitOffsetError
  | some loffset =>
    let loffset := if usehash then toLong (loffset*bits) else loffset
    if loffset < 0 ∨ loffset.toNat >>> 3 ≥ 512*1024*1024 then .error bitOffsetError
    else .ok loffset.toNat

structure FieldType where
  sign : Bool
  bits : ℕ
deriving DecidableEq, Repr

def bitfieldTypeError : String :=
  "ERR Invalid bitfield type. Use something like i16 u8. Note that u64 is not supported but i64 is."

/-- The type ends at a zero byte, as `strlen` has it. -/
def getBitfieldTypeFromArgument (o : Bytes) : Except String FieldType :=
  match o with
  | [] => .error bitfieldTypeError
  | c :: rest =>
    if c ≠ 105 ∧ c ≠ 117 then .error bitfieldTypeError
    else
      let sign := decide (c = 105)
      match string2ll (cString rest) with
      | none => .error bitfieldTypeError
      | some llbits =>
        if llbits < 1 ∨ (sign = true ∧ llbits > 64) ∨ (sign = false ∧ llbits > 63) then
          .error bitfieldTypeError
        else .ok { sign := sign, bits := llbits.toNat }

def getLongLongFromObject (o : Bytes) : Except String ℤ :=
  match string2ll o with
  | none => .error "ERR value is not an integer or out of range"
  | some v => .ok v

inductive Opcode where
  | get
  | set
  | incrby
deriving DecidableEq, Repr

structure BitfieldOp where
  offset : ℕ
  i64 : ℤ
  opcode : Opcode
  owtype : Owtype
  type : FieldType
deriving DecidableEq, Repr

structure Parsed where
  ops : List BitfieldOp
  readonly : Bool
  highestWriteOffset : ℕ
deriving DecidableEq, Repr

def parseOwtype (name : Bytes) : Except String Owtype :=
  if sameCaseless name (text "wrap") then .ok .wrap
  else if sameCaseless name (text "sat") then .ok .sat
  else if sameCaseless name (text "fail") then .ok .fail
  else .error "ERR Invalid OVERFLOW type specified"

def parseOpcode (subcmd : Bytes) (remargs : ℕ) : Option Opcode :=
  if sameCaseless subcmd (text "get") && decide (remargs ≥ 2) then some .get
  else if sameCaseless subcmd (text "set") && decide (remargs ≥ 3) then some .set
  else if sameCaseless subcmd (text "incrby") && decide (remargs ≥ 3) then some .incrby
  else none

/-- The arguments of a subcommand that is not `OVERFLOW`, and the offset of its last bit when it is one
that writes. -/
def parseOp (opcode : Opcode) (owtype : Owtype) (args : List Bytes) :
    Except String (BitfieldOp × Option ℕ) := do
  let type ← getBitfieldTypeFromArgument (arg args 0)
  let bitoffset ← getBitOffsetFromArgument (arg args 1) true type.bits
  match opcode with
  | .get =>
    return ({ offset := bitoffset, i64 := 0, opcode := opcode, owtype := owtype, type := type }, none)
  | _ =>
    let i64 ← getLongLongFromObject (arg args 2)
    return ({ offset := bitoffset, i64 := i64, opcode := opcode, owtype := owtype, type := type },
      some (bitoffset+type.bits-1))

def parseOps (owtype : Owtype) (acc : Parsed) : List Bytes → Except String Parsed
  | [] => .ok acc
  | subcmd :: rest =>
    match parseOpcode subcmd rest.length with
    | some opcode =>
      match parseOp opcode owtype rest with
      | .error e => .error e
      | .ok (op, last) =>
        let acc :=
          match last with
          | none => { acc with ops := acc.ops ++ [op] }
          | some last =>
            { ops := acc.ops ++ [op], readonly := false
              highestWriteOffset := max acc.highestWriteOffset last }
        parseOps owtype acc (rest.drop (if opcode = .get then 2 else 3))
    | none =>
      if sameCaseless subcmd (text "overflow") && decide (rest.length ≥ 1) then
        match parseOwtype (arg rest 0) with
        | .error e => .error e
        | .ok owtype => parseOps owtype acc (rest.drop 1)
      else .error "ERR syntax error"
termination_by l => l.length
decreasing_by all_goals simp only [List.length_drop, List.length_cons]; omega

def computeSigned (op : BitfieldOp) (oldval : ℤ) : ℤ × Bool × ℤ :=
  match op.opcode with
  | .incrby =>
    let newval := toLong (oldval+op.i64)
    let check := checkSignedBitfieldOverflow oldval op.i64 op.type.bits op.owtype
    let newval := if check.1 ≠ 0 then check.2.getD newval else newval
    (newval, decide (check.1 ≠ 0), newval)
  | _ =>
    let newval := op.i64
    let check := checkSignedBitfieldOverflow newval 0 op.type.bits op.owtype
    let newval := if check.1 ≠ 0 then check.2.getD newval else newval
    (newval, decide (check.1 ≠ 0), oldval)

def computeUnsigned (op : BitfieldOp) (oldval : ℕ) : ℕ × Bool × ℕ :=
  match op.opcode with
  | .incrby =>
    let newval := toUnsigned 64 (oldval+op.i64)
    let check := checkUnsignedBitfieldOverflow oldval op.i64 op.type.bits op.owtype
    let newval := if check.1 ≠ 0 then check.2.getD newval else newval
    (newval, decide (check.1 ≠ 0), newval)
  | _ =>
    let newval := toUnsigned 64 op.i64
    let check := checkUnsignedBitfieldOverflow newval 0 op.type.bits op.owtype
    let newval := if check.1 ≠ 0 then check.2.getD newval else newval
    (newval, decide (check.1 ≠ 0), oldval)

def execWrite (p : Bytes) (op : BitfieldOp) : Option (Option ℤ × Bytes) := do
  if op.type.sign then
    let oldval ← getSignedBitfield p op.offset op.type.bits
    let (newval, overflow, retval) := computeSigned op oldval
    if overflow && op.owtype == .fail then
      return (none, p)
    return (some retval, ← setSignedBitfield p op.offset op.type.bits newval)
  else
    let oldval ← getUnsignedBitfield p op.offset op.type.bits
    let (newval, overflow, retval) := computeUnsigned op oldval
    if overflow && op.owtype == .fail then
      return (none, p)
    return (some (toLong retval), ← setUnsignedBitfield p op.offset op.type.bits newval)

/-- The nine bytes that `GET` copies, zero where there is no byte. -/
def copyForGet (src : Bytes) (byte : ℕ) : Bytes :=
  (src.drop byte).take 9 ++ List.replicate (9-((src.drop byte).take 9).length) 0

def execGet (p : Bytes) (op : BitfieldOp) : Option ℤ := do
  let byte := op.offset >>> 3
  let buf := copyForGet p byte
  if op.type.sign then
    getSignedBitfield buf (op.offset-byte*8) op.type.bits
  else
    let val ← getUnsignedBitfield buf (op.offset-byte*8) op.type.bits
    return toLong val

def execOps (p : Bytes) : List BitfieldOp → Option (List (Option ℤ) × Bytes)
  | [] => some ([], p)
  | op :: ops => do
    let (reply, p) ← (if op.opcode = .get then do
        let val ← execGet p op
        return (some val, p)
      else execWrite p op)
    let (replies, p) ← execOps p ops
    return (reply :: replies, p)

inductive BitReply where
  | error (msg : String)
  | integer (v : ℤ)
  | array (vs : List (Option ℤ))
deriving DecidableEq, Repr

def wrongtypeerr : String :=
  "WRONGTYPE Operation against a key holding the wrong kind of value"

inductive Object where
  | string (s : Bytes)
  | other
deriving DecidableEq, Repr

abbrev Keys := Bytes → Option Object

def sdsgrowzero (s : Bytes) (len : ℕ) : Bytes := s ++ List.replicate (len-s.length) 0

/-- `none` is a value of another type. -/
def lookupStringForBitCommand (o : Option Object) (maxbit : ℕ) : Option Bytes :=
  let byte := maxbit >>> 3
  match o with
  | none => some (List.replicate (byte+1) 0)
  | some (.string s) => some (sdsgrowzero s (byte+1))
  | some .other => none

/-- `bitfieldGeneric`; `flag` is `BITFIELD_FLAG_READONLY` and `args` are the arguments behind the
key. -/
def bitfieldGeneric (db : Keys) (flag : Bool) (key : Bytes) (args : List Bytes) :
    Option (BitReply × Keys) :=
  match parseOps .wrap { ops := [], readonly := true, highestWriteOffset := 0 } args with
  | .error e => some (.error e, db)
  | .ok parsed =>
    if parsed.readonly then
      match db key with
      | some .other => some (.error wrongtypeerr, db)
      | none => do
        let (replies, _) ← execOps [] parsed.ops
        return (.array replies, db)
      | some (.string s) => do
        let (replies, _) ← execOps s parsed.ops
        return (.array replies, db)
    else if flag then some (.error "ERR BITFIELD_RO only supports the GET subcommand", db)
    else
      match lookupStringForBitCommand (db key) parsed.highestWriteOffset with
      | none => some (.error wrongtypeerr, db)
      | some p => do
        let (replies, p) ← execOps p parsed.ops
        return (.array replies, Function.update db key (some (.string p)))

end RedisCore.Bit
