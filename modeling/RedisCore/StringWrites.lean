import RedisCore.IntegerText
import Mathlib.Logic.Function.Basic

namespace RedisCore.StringWrites
open Function (update update_of_ne update_self)

inductive Encoding where
  | raw (s : Bytes)
  | embstr (s : Bytes)
  | int (ptr : Int64)

structure Robj where
  encoding : Encoding
  refcount : ℕ

inductive Object where
  | string (o : Robj)
  | other

abbrev Db := Bytes → Option Object

inductive Reply where
  | int (n : ℕ)
  | error (msg : String)
deriving DecidableEq

/-- No object can have `2^63` bytes: `malloc` fails and the server aborts. -/
inductive Fault where
  | outOfMemory

structure Server where
  protoMaxBulkLen : ℤ
  /-- `CLIENT_MASTER` of the client that is served. -/
  master : Bool
  /-- The policy allows to share the objects of small integers. -/
  sharedIntegers : Bool

abbrev Result := Except Fault (Db × Reply)

def notAnInteger : Reply := .error "ERR value is not an integer or out of range"
def offsetOutOfRange : Reply := .error "ERR offset is out of range"
def tooLong : Reply := .error "ERR string exceeds maximum allowed size (proto-max-bulk-len)"
def wrongtypeerr : Reply :=
  .error "WRONGTYPE Operation against a key holding the wrong kind of value"

def contents : Encoding → Bytes
  | .raw s => s
  | .embstr s => s
  | .int v => decimal v.toInt

def sdigits10 (v : ℤ) : ℕ := if v < 0 then digits10 v.natAbs+1 else digits10 v.natAbs

def stringObjectLen : Encoding → ℕ
  | .raw s => s.length
  | .embstr s => s.length
  | .int v => sdigits10 v.toInt

def checkStringLength (server : Server) (size : ℕ) : Bool :=
  !(!server.master && decide (toLong size > server.protoMaxBulkLen))

def allocated (s : Bytes) : Except Fault Bytes :=
  if s.length < 2^63 then .ok s else .error .outOfMemory

def sdsgrowzero (s : Bytes) (len : ℕ) : Except Fault Bytes :=
  if len ≤ s.length then .ok s else allocated (s ++ List.replicate (len-s.length) 0)

def setKey (db : Db) (k : Bytes) (s : Bytes) : Db := update db k (some (.string ⟨.raw s, 1⟩))

def dbUnshareStringValue (db : Db) (k : Bytes) (o : Robj) : Db × Bytes :=
  match o.encoding, o.refcount with
  | .raw s, 1 => (db, s)
  | e, _ => (setKey db k (contents e), contents e)

def writeRange (db : Db) (k s value : Bytes) (offset : ℕ) : Result := do
  let s ← sdsgrowzero s ((offset+value.length)%2^64)
  let s := s.take offset ++ value ++ s.drop (offset+value.length)
  return (setKey db k s, .int s.length)

def setrangeCommand (server : Server) (argv : List Bytes) (db : Db) : Result :=
  match string2ll (arg argv 2) with
  | none => .ok (db, notAnInteger)
  | some offset =>
    let k := arg argv 1
    let value := arg argv 3
    if offset < 0 then .ok (db, offsetOutOfRange)
    else
      let offset := offset.toNat
      let size := (offset+value.length)%2^64
      match db k with
      | none =>
        if value.length = 0 then .ok (db, .int 0)
        else if !checkStringLength server size then .ok (db, tooLong)
        else do
          let s ← allocated (List.replicate size 0)
          writeRange (setKey db k s) k s value offset
      | some .other => .ok (db, wrongtypeerr)
      | some (.string o) =>
        if value.length = 0 then .ok (db, .int (stringObjectLen o.encoding))
        else if !checkStringLength server size then .ok (db, tooLong)
        else
          let (db, s) := dbUnshareStringValue db k o
          writeRange db k s value offset

def integerObject (server : Server) (v : ℤ) : Robj :=
  ⟨.int (Int64.ofInt v), if server.sharedIntegers ∧ 0 ≤ v ∧ v < 10000 then 2^31-1 else 1⟩

def tryObjectEncoding (server : Server) (s : Bytes) : Robj :=
  match if s.length ≤ 20 then string2ll s else none with
  | some v => integerObject server v
  | none => if s.length ≤ 44 then ⟨.embstr s, 1⟩ else ⟨.raw s, 1⟩

def appendCommand (server : Server) (argv : List Bytes) (db : Db) : Result :=
  let k := arg argv 1
  let append := arg argv 2
  match db k with
  | none =>
    let o := tryObjectEncoding server append
    .ok (update db k (some (.string o)), .int (stringObjectLen o.encoding))
  | some .other => .ok (db, wrongtypeerr)
  | some (.string o) =>
    if !checkStringLength server ((stringObjectLen o.encoding+append.length)%2^64) then
      .ok (db, tooLong)
    else do
      let (db, s) := dbUnshareStringValue db k o
      let s ← allocated (s ++ append)
      return (setKey db k s, .int s.length)

/-- The bytes at a key, none when it is missing. -/
def bytesAt (db : Db) (k : Bytes) : Bytes :=
  match db k with
  | some (.string o) => contents o.encoding
  | _ => []

structure Stored (db db' : Db) (k s : Bytes) : Prop where
  here : ∃ o, db' k = some (.string o) ∧ contents o.encoding = s
  elsewhere : ∀ k', k' ≠ k → db' k' = db k'

def overwritten (s value : Bytes) (offset : ℕ) : Bytes :=
  let grown := s ++ List.replicate (offset+value.length-s.length) 0
  grown.take offset ++ value ++ grown.drop (offset+value.length)

variable {server : Server} {db db' : Db} {k s value : Bytes} {offset : ℕ}

theorem stringObjectLen_eq (e : Encoding) : stringObjectLen e = (contents e).length := by
  cases e with
  | int v =>
    change sdigits10 v.toInt = (decimal v.toInt).length
    unfold sdigits10 decimal
    split <;> simp [digits10_eq]
  | _ => rfl

theorem dbUnshareStringValue_spec (db : Db) (k : Bytes) (o : Robj) :
    (dbUnshareStringValue db k o).2 = contents o.encoding ∧
      ∀ k', k' ≠ k → (dbUnshareStringValue db k o).1 k' = db k' := by
  unfold dbUnshareStringValue
  split
  · rename_i h _
    rw [h]
    exact ⟨rfl, fun _ _ => rfl⟩
  · exact ⟨rfl, fun k' hk => update_of_ne hk ..⟩

theorem stored_setKey (h : ∀ k', k' ≠ k → db' k' = db k') (s : Bytes) :
    Stored db (setKey db' k s) k s :=
  ⟨⟨_, update_self .., rfl⟩, fun k' hk => (update_of_ne hk ..).trans (h k' hk)⟩

theorem checkStringLength_of_fits {n : ℕ} (hn : n < 2^63) (hm : server.master = false) :
    checkStringLength server (n%2^64) = decide (n ≤ server.protoMaxBulkLen) := by
  rw [Nat.mod_eq_of_lt (by omega)]
  rw [checkStringLength, hm, toLong_of_fits (n := n) (by omega) (by omega), Bool.not_false,
    Bool.true_and, ← decide_not]
  exact decide_eq_decide.2 (by omega)

theorem sdsgrowzero_eq {n : ℕ} (hn : n < 2^63) (s : Bytes) :
    sdsgrowzero s n = .ok (s ++ List.replicate (n-s.length) 0) := by
  unfold sdsgrowzero
  split
  · rw [Nat.sub_eq_zero_of_le (by assumption), List.replicate_zero, List.append_nil]
  · apply if_pos
    rw [List.length_append, List.length_replicate]
    omega

theorem writeRange_eq (hn : offset+value.length < 2^63) (db : Db) (k s : Bytes) :
    writeRange db k s value offset = .ok (setKey db k (overwritten s value offset),
      .int (overwritten s value offset).length) := by
  rw [writeRange, Nat.mod_eq_of_lt (by omega), sdsgrowzero_eq hn]
  rfl

theorem overwritten_length (s value : Bytes) (offset : ℕ) :
    (overwritten s value offset).length = max s.length (offset+value.length) := by
  simp only [overwritten, List.length_append, List.length_take, List.length_drop, List.length_replicate]
  omega

theorem overwritten_zeros : overwritten (List.replicate (offset+value.length) 0) value offset =
    overwritten [] value offset := by
  simp [overwritten]

/-- Beyond the limit the command fails and changes nothing; else the key gets `s`, and the reply is
its length. -/
def Limited (server : Server) (db : Db) (k : Bytes) (n : ℕ) (s : Bytes) (r : Result) : Prop :=
  if (n : ℤ) ≤ server.protoMaxBulkLen then ∃ db', r = .ok (db', .int s.length) ∧ Stored db db' k s
  else r = .ok (db, tooLong)

theorem string2ll_offset (hoff : offset < 2^63) : string2ll (decimal offset) = some (offset : ℤ) :=
  string2ll_decimal (by omega) (by omega)

theorem setrange_writes (hk : db k ≠ some .other) (hm : server.master = false) (c : Bytes)
    (hv : value ≠ []) (hn : offset+value.length < 2^63) :
    Limited server db k (offset+value.length) (overwritten (bytesAt db k) value offset)
      (setrangeCommand server [c, k, decimal offset, value] db) := by
  have hlen : ¬value.length = 0 := fun h => hv (List.length_eq_zero_iff.1 h)
  have hpos : ¬(offset : ℤ) < 0 := by omega
  unfold setrangeCommand Limited
  simp only [arg, List.getD_cons_zero, List.getD_cons_succ, string2ll_offset (show offset < 2^63 by omega),
    if_neg hpos, Int.toNat_natCast, if_neg hlen, checkStringLength_of_fits hn hm]
  by_cases hle : ((offset+value.length : ℕ) : ℤ) ≤ server.protoMaxBulkLen
  · rw [if_pos hle, decide_eq_true hle, Nat.mod_eq_of_lt (by omega)]
    cases ho : db k with
    | none =>
      have halloc : allocated (List.replicate (offset+value.length) 0) = .ok _ :=
        if_pos (by rw [List.length_replicate]; exact hn)
      have hkeep : ∀ k', k' ≠ k → setKey db k (List.replicate (offset+value.length) 0) k' = db k' :=
        fun k' hk' => update_of_ne hk' ..
      have hold : bytesAt db k = [] := by rw [bytesAt, ho]
      rw [hold, ← overwritten_zeros]
      exact ⟨_, (congrArg (· >>= _) halloc).trans (writeRange_eq hn _ k _), stored_setKey hkeep _⟩
    | some o =>
      cases o with
      | other => exact absurd ho hk
      | string o =>
        have ⟨hs, hkeep⟩ := dbUnshareStringValue_spec db k o
        have hold : bytesAt db k = contents o.encoding := by rw [bytesAt, ho]
        rw [hold, ← hs]
        exact ⟨_, writeRange_eq hn _ k _, stored_setKey hkeep _⟩
  · rw [if_neg hle, decide_eq_false hle]
    cases ho : db k with
    | none => rfl
    | some o =>
      cases o with
      | other => exact absurd ho hk
      | string o => rfl

theorem setrange_empty (hk : db k ≠ some .other) (c : Bytes) (hoff : offset < 2^63) :
    setrangeCommand server [c, k, decimal offset, []] db = .ok (db, .int (bytesAt db k).length) := by
  have hpos : ¬(offset : ℤ) < 0 := by omega
  unfold setrangeCommand
  simp only [arg, List.getD_cons_zero, List.getD_cons_succ, string2ll_offset hoff, if_neg hpos,
    List.length_nil, if_true]
  cases ho : db k with
  | none => rw [bytesAt, ho]; rfl
  | some o =>
    cases o with
    | other => exact absurd ho hk
    | string o => rw [bytesAt, ho, ← stringObjectLen_eq]

theorem append_writes (hm : server.master = false) (c : Bytes) {o : Robj} (ho : db k = some (.string o))
    (hn : (bytesAt db k).length+value.length < 2^63) :
    Limited server db k ((bytesAt db k).length+value.length) (bytesAt db k ++ value)
      (appendCommand server [c, k, value] db) := by
  have ⟨hs, hkeep⟩ := dbUnshareStringValue_spec db k o
  have hold : bytesAt db k = contents o.encoding := by rw [bytesAt, ho]
  rw [hold] at hn ⊢
  unfold appendCommand Limited
  simp only [arg, List.getD_cons_zero, List.getD_cons_succ, ho, stringObjectLen_eq,
    checkStringLength_of_fits hn hm]
  by_cases hle : (((contents o.encoding).length+value.length : ℕ) : ℤ) ≤ server.protoMaxBulkLen
  · have halloc : allocated (contents o.encoding ++ value) = .ok _ :=
      if_pos (by rw [List.length_append]; exact hn)
    rw [if_pos hle, decide_eq_true hle, hs]
    exact ⟨_, congrArg (· >>= _) halloc, stored_setKey hkeep _⟩
  · rw [if_neg hle, decide_eq_false hle]
    rfl

theorem integerObject_contents {v : ℤ} (hlo : -2^63 ≤ v) (hhi : v < 2^63) :
    contents (integerObject server v).encoding = decimal v :=
  congrArg decimal (Int64.toInt_ofInt_of_le hlo hhi)

theorem tryObjectEncoding_contents (s : Bytes) :
    contents (tryObjectEncoding server s).encoding = s := by
  unfold tryObjectEncoding
  split
  · rename_i h
    split at h
    · have ⟨htext, hlo, hhi⟩ := string2ll_some h
      exact (integerObject_contents hlo hhi).trans htext
    · cases h
  · split <;> rfl

theorem append_missing (c : Bytes) (he : db k = none) :
    ∃ db', appendCommand server [c, k, value] db = .ok (db', .int value.length) ∧
      Stored db db' k value := by
  have hlen := stringObjectLen_eq (tryObjectEncoding server value).encoding
  rw [tryObjectEncoding_contents] at hlen
  unfold appendCommand
  simp only [arg, List.getD_cons_zero, List.getD_cons_succ, he, hlen]
  exact ⟨_, rfl, ⟨_, update_self .., tryObjectEncoding_contents value⟩, fun k' hk => update_of_ne hk ..⟩

/-- The limit of both commands, as long as the sum of the lengths is a `long long`. -/
theorem setrange_append_limit (server : Server) (db : Db) (c k value : Bytes) (offset : Int64)
    (hm : server.master = false) (hk : db k ≠ some .other) :
    (offset.toInt < 0 → setrangeCommand server [c, k, decimal offset.toInt, value] db =
      .ok (db, offsetOutOfRange)) ∧
    (0 ≤ offset.toInt → value = [] → setrangeCommand server [c, k, decimal offset.toInt, value] db =
      .ok (db, .int (bytesAt db k).length)) ∧
    (0 ≤ offset.toInt → value ≠ [] → offset.toInt.toNat+value.length < 2^63 →
      Limited server db k (offset.toInt.toNat+value.length)
        (overwritten (bytesAt db k) value offset.toInt.toNat)
        (setrangeCommand server [c, k, decimal offset.toInt, value] db)) ∧
    (db k = none → ∃ db', appendCommand server [c, k, value] db = .ok (db', .int value.length) ∧
      Stored db db' k value) ∧
    (db k ≠ none → (bytesAt db k).length+value.length < 2^63 →
      Limited server db k ((bytesAt db k).length+value.length) (bytesAt db k ++ value)
        (appendCommand server [c, k, value] db)) := by
  have hlo := offset.le_toInt
  have hhi := offset.toInt_lt
  generalize offset.toInt = i at hlo hhi ⊢
  refine ⟨fun hneg => ?_, fun hpos => ?_, fun hpos => ?_, append_missing c, fun hsome => ?_⟩
  · unfold setrangeCommand
    simp only [arg, List.getD_cons_zero, List.getD_cons_succ, string2ll_decimal hlo hhi, if_pos hneg]
  · intro hv
    have h := @setrange_empty server db k i.toNat hk c (by omega)
    rwa [Int.toNat_of_nonneg hpos, ← hv] at h
  · intro hv hn
    have h := setrange_writes hk hm c hv hn
    rwa [Int.toNat_of_nonneg hpos] at h
  · cases ho : db k with
    | none => exact absurd ho hsome
    | some o =>
      cases o with
      | other => exact absurd ho hk
      | string o => exact append_writes hm c ho

/-- One byte fits behind the offset 2^20-1 under the limit of 2^20, two do not. -/
theorem setrange_append_limit_full :
    let server : Server := ⟨2^20, false, true⟩
    let db : Db := update (fun _ => none) [107] (some (.string ⟨.embstr [120], 1⟩))
    let offset : Int64 := 1048575
    (∃ db', setrangeCommand server [[], [107], decimal offset.toInt, [97]] db = .ok (db', .int 1048576) ∧
      Stored db db' [107] (overwritten [120] [97] 1048575)) ∧
    setrangeCommand server [[], [107], decimal offset.toInt, [97, 98]] db = .ok (db, tooLong) := by
  intro server db offset
  have hoff : offset.toInt.toNat = 1048575 := by decide +kernel
  have hpos : 0 ≤ offset.toInt := by decide +kernel
  have hold : bytesAt db [107] = [120] := rfl
  have hlen : (overwritten [120] [97] 1048575).length = 1048576 := by
    rw [overwritten_length]
    decide +kernel
  have hk : db [107] ≠ some .other := by simp [db]
  have hm : server.master = false := rfl
  have hlimit : server.protoMaxBulkLen = 2^20 := rfl
  clear_value server offset
  obtain ⟨-, -, hone, -⟩ := setrange_append_limit server db [] [107] [97] offset hm hk
  obtain ⟨-, -, htwo, -⟩ := setrange_append_limit server db [] [107] [97, 98] offset hm hk
  have hone := hone hpos (by simp) (by rw [hoff]; decide)
  have htwo := htwo hpos (by simp) (by rw [hoff]; decide)
  rw [hoff, hold] at hone htwo
  rw [Limited, hlimit, if_pos (by decide), hlen] at hone
  rw [Limited, hlimit, if_neg (by decide)] at htwo
  exact ⟨hone, htwo⟩

/-- Nothing is stored at the offset 5 of a key that is not there, not even the zeros before it. -/
theorem setrange_never_pads : ¬∀ (server : Server) (db : Db) (c k value : Bytes) (offset : Int64),
    server.master = false → db k ≠ some .other →
    ¬(offset.toInt < 0 ∨ value ≠ [] ∧ server.protoMaxBulkLen < offset.toInt+value.length) →
    ∃ db' n, setrangeCommand server [c, k, decimal offset.toInt, value] db = .ok (db', .int n) ∧
      Stored db db' k (overwritten (bytesAt db k) value offset.toInt.toNat) := by
  intro h
  have hempty : setrangeCommand ⟨2^29, false, true⟩ [[], [107], decimal (5 : ℕ), []] (fun _ => none) =
      .ok (fun _ => none, .int 0) := setrange_empty (by simp) [] (by decide)
  have hfits : ¬((5 : Int64).toInt < 0 ∨ ([] : Bytes) ≠ [] ∧
      (2^29 : ℤ) < (5 : Int64).toInt+(([] : Bytes).length : ℤ)) := by decide
  obtain ⟨db', n, hreply, hstored⟩ :=
    h ⟨2^29, false, true⟩ (fun _ => none) [] [107] [] 5 rfl (by simp) hfits
  obtain ⟨o, ho, -⟩ := hstored.here
  have hsame := hreply.symm.trans hempty
  simp only [Except.ok.injEq, Prod.mk.injEq] at hsame
  rw [hsame.1] at ho
  cases ho

end RedisCore.StringWrites
