import RedisCore.StringWrites

namespace RedisCore.StringWrites
open Function (update update_of_ne update_self)

/-- The numbers of type `long long`. -/
def Fits (v : ℤ) : Prop := -2^63 ≤ v ∧ v < 2^63

instance (v : ℤ) : Decidable (Fits v) := inferInstanceAs (Decidable (_ ∧ _))

inductive IncrReply where
  | number (v : ℤ)
  | error (msg : String)
deriving DecidableEq

def errNotInteger : IncrReply := .error "ERR value is not an integer or out of range"
def errOverflow : IncrReply := .error "ERR increment or decrement would overflow"
def errHashValue : IncrReply := .error "ERR hash value is not an integer"
def errType : IncrReply := .error "WRONGTYPE Operation against a key holding the wrong kind of value"

def getLongLongFromObject : Option Robj → Option ℤ
  | none => some 0
  | some o =>
    match o.encoding with
    | .raw s => string2ll s
    | .embstr s => string2ll s
    | .int v => some v.toInt

def overflows (oldvalue incr : ℤ) : Bool :=
  (decide (incr < 0) && decide (oldvalue < 0) && decide (incr < -2^63-oldvalue)) ||
    (decide (incr > 0) && decide (oldvalue > 0) && decide (incr > 2^63-1-oldvalue))

/-- The object is changed in place when it is a number that nobody shares. -/
def storeNumber (server : Server) (db : Db) (k : Bytes) (o : Option Robj) (value : ℤ) : Db :=
  match o with
  | some ⟨.int _, 1⟩ =>
    if value < 0 ∨ 10000 ≤ value then update db k (some (.string ⟨.int (Int64.ofInt value), 1⟩))
    else update db k (some (.string (integerObject server value)))
  | _ => update db k (some (.string (integerObject server value)))

def incrObject (server : Server) (k : Bytes) (incr : ℤ) (db : Db) (o : Option Robj) : Db × IncrReply :=
  match getLongLongFromObject o with
  | none => (db, errNotInteger)
  | some oldvalue =>
    if overflows oldvalue incr then (db, errOverflow)
    else (storeNumber server db k o (oldvalue+incr), .number (oldvalue+incr))

def incrDecrCommand (server : Server) (k : Bytes) (incr : ℤ) (db : Db) : Db × IncrReply :=
  match db k with
  | none => incrObject server k incr db none
  | some (.string o) => incrObject server k incr db (some o)
  | some .other => (db, errType)

def incrCommand (server : Server) (argv : List Bytes) (db : Db) : Db × IncrReply :=
  incrDecrCommand server (arg argv 1) 1 db

def decrCommand (server : Server) (argv : List Bytes) (db : Db) : Db × IncrReply :=
  incrDecrCommand server (arg argv 1) (-1) db

def incrbyCommand (server : Server) (argv : List Bytes) (db : Db) : Db × IncrReply :=
  match string2ll (arg argv 2) with
  | none => (db, errNotInteger)
  | some incr => incrDecrCommand server (arg argv 1) incr db

/-- The least `long long` is its own negation. -/
def decrbyCommand (server : Server) (argv : List Bytes) (db : Db) : Db × IncrReply :=
  match string2ll (arg argv 2) with
  | none => (db, errNotInteger)
  | some incr => incrDecrCommand server (arg argv 1) (toLong (-incr)) db

inductive HashObject where
  /-- A value of a ziplist is a number or a string whose length has 32 bits. -/
  | ziplist (fields : Bytes → Option (Int64 ⊕ {s : Bytes // s.length < 2^32}))
  | table (fields : Bytes → Option Bytes)

inductive HashKey where
  | hash (h : HashObject)
  | other

abbrev HashDb := Bytes → Option HashKey

def entryText : Int64 ⊕ {s : Bytes // s.length < 2^32} → Bytes
  | .inl v => decimal v.toInt
  | .inr s => s.val

def fieldText : HashObject → Bytes → Option Bytes
  | .ziplist fs, f => (fs f).map entryText
  | .table fs, f => fs f

/-- The number of a field, as HINCRBY reads it: the length of a string is cut to `vlen`. -/
def hashTypeGetValue (h : HashObject) (field : Bytes) : Option (Option ℤ) :=
  match h with
  | .ziplist fs =>
    match fs field with
    | none => none
    | some (.inl v) => some (some v.toInt)
    | some (.inr s) => some (string2ll s.val)
  | .table fs => (fs field).map fun s => string2ll (s.take (s.length%2^32))

/-- `converts` tells that the ziplist has got too many entries. -/
def hashTypeSet (converts : Bool) (h : HashObject) (field : Bytes) (v : ℤ) : HashObject :=
  match h with
  | .ziplist fs =>
    let fs := update fs field (some (.inl (Int64.ofInt v)))
    if converts then .table fun f => (fs f).map entryText else .ziplist fs
  | .table fs => .table (update fs field (some (decimal v)))

def hashTypeLookupWriteOrCreate (db : HashDb) (k : Bytes) : Option HashObject :=
  match db k with
  | none => some (.ziplist fun _ => none)
  | some (.hash h) => some h
  | some .other => none

def hincrHash (converts : Bool) (k f : Bytes) (incr : ℤ) (db : HashDb) (h : HashObject) :
    HashDb × IncrReply :=
  let db := update db k (some (.hash h))
  match (hashTypeGetValue h f).getD (some 0) with
  | none => (db, errHashValue)
  | some oldvalue =>
    if overflows oldvalue incr then (db, errOverflow)
    else
      (update db k (some (.hash (hashTypeSet converts h f (oldvalue+incr)))), .number (oldvalue+incr))

def hincrbyCommand (converts : Bool) (argv : List Bytes) (db : HashDb) : HashDb × IncrReply :=
  match string2ll (arg argv 3) with
  | none => (db, errNotInteger)
  | some incr =>
    match hashTypeLookupWriteOrCreate db (arg argv 1) with
    | none => (db, errType)
    | some h => hincrHash converts (arg argv 1) (arg argv 2) incr db h

def Exact (has : ℤ → Prop) (d : ℤ) (reply : IncrReply) (set : ℤ → Prop) (same : Prop) : Prop :=
  (∃ v, has v ∧ Fits (v+d) ∧ reply = .number (v+d) ∧ set (v+d)) ∨
    ((¬∃ v, has v ∧ Fits (v+d)) ∧ (∃ msg, reply = .error msg) ∧ same)

def StringValue (db : Db) (k : Bytes) (v : ℤ) : Prop :=
  (db k = none ∧ v = 0) ∨
    ∃ o, db k = some (.string o) ∧ contents o.encoding = decimal v ∧ Fits v

def StringExact (db : Db) (k : Bytes) (d : ℤ) (r : Db × IncrReply) : Prop :=
  Exact (StringValue db k) d r.2 (fun w => Stored db r.1 k (decimal w)) (r.1 = db)

def fieldAt (db : HashDb) (k f : Bytes) : Option Bytes :=
  match db k with
  | some (.hash h) => fieldText h f
  | _ => none

def FieldValue (db : HashDb) (k f : Bytes) (v : ℤ) : Prop :=
  db k ≠ some .other ∧
    ((fieldAt db k f = none ∧ v = 0) ∨ fieldAt db k f = some (decimal v) ∧ Fits v)

structure FieldStored (db db' : HashDb) (k f s : Bytes) : Prop where
  here : fieldAt db' k f = some s
  otherFields : ∀ f', f' ≠ f → fieldAt db' k f' = fieldAt db k f'
  elsewhere : ∀ k', k' ≠ k → db' k' = db k'

def HashExact (db : HashDb) (k f : Bytes) (d : ℤ) (r : HashDb × IncrReply) : Prop :=
  Exact (FieldValue db k f) d r.2 (fun w => FieldStored db r.1 k f (decimal w)) (r.1 = db)

variable {server : Server} {db : Db} {k : Bytes} {oldvalue incr v : ℤ}

theorem overflows_iff (h : Fits oldvalue) (hi : Fits incr) :
    overflows oldvalue incr = true ↔ ¬Fits (oldvalue+incr) := by
  unfold Fits at *
  simp only [overflows, Bool.or_eq_true, Bool.and_eq_true, decide_eq_true_eq]
  omega

theorem string2ll_iff {s : Bytes} : string2ll s = some v ↔ s = decimal v ∧ Fits v := by
  constructor
  · intro h
    have ⟨htext, hlo, hhi⟩ := string2ll_some h
    exact ⟨htext.symm, hlo, hhi⟩
  · intro ⟨hs, hlo, hhi⟩
    rw [hs]
    exact string2ll_decimal hlo hhi

theorem exact_of_parse {has : ℤ → Prop} {old : Option ℤ} {reply : IncrReply} {set : ℤ → Prop}
    {same : Prop} (hold : ∀ v, old = some v ↔ has v) (hfits : ∀ v, has v → Fits v) (hi : Fits incr)
    (hnone : old = none → (∃ msg, reply = .error msg) ∧ same)
    (hover : ∀ v, old = some v → overflows v incr = true → (∃ msg, reply = .error msg) ∧ same)
    (hsum : ∀ v, old = some v → overflows v incr = false → Fits (v+incr) →
      reply = .number (v+incr) ∧ set (v+incr)) :
    Exact has incr reply set same := by
  cases hv : old with
  | none =>
    right
    refine ⟨fun ⟨v, hhas, _⟩ => ?_, hnone hv⟩
    rw [(hold v).2 hhas] at hv
    cases hv
  | some v =>
    have hhas := (hold v).1 hv
    cases ho : overflows v incr with
    | true =>
      right
      refine ⟨fun ⟨w, hw, hwfits⟩ => ?_, hover v hv ho⟩
      have hvw : some v = some w := hv.symm.trans ((hold w).2 hw)
      cases hvw
      exact (overflows_iff (hfits v hhas) hi).1 ho hwfits
    | false =>
      have hsumFits : Fits (v+incr) := by
        by_contra hn
        rw [(overflows_iff (hfits v hhas) hi).2 hn] at ho
        cases ho
      exact Or.inl ⟨v, hhas, hsumFits, hsum v hv ho hsumFits⟩

theorem storeNumber_stored (o : Option Robj) (hw : Fits v) :
    Stored db (storeNumber server db k o v) k (decimal v) := by
  have hfresh : Stored db (update db k (some (.string (integerObject server v)))) k (decimal v) :=
    ⟨⟨_, update_self .., integerObject_contents hw.1 hw.2⟩, fun k' hk => update_of_ne hk ..⟩
  unfold storeNumber
  split
  · split
    · have hcontents : contents (integerObject server v).encoding = decimal v :=
        integerObject_contents hw.1 hw.2
      exact ⟨⟨_, update_self .., hcontents⟩, fun k' hk => update_of_ne hk ..⟩
    · exact hfresh
  · exact hfresh

theorem StringValue.fits (h : StringValue db k v) : Fits v := by
  rcases h with ⟨-, hv⟩ | ⟨o, -, -, hfits⟩
  · rw [hv]
    decide
  · exact hfits

theorem incrObject_exact {o : Option Robj} (hi : Fits incr)
    (hold : ∀ v, getLongLongFromObject o = some v ↔ StringValue db k v) :
    StringExact db k incr (incrObject server k incr db o) := by
  unfold incrObject
  apply exact_of_parse hold (fun v h => h.fits) hi
  · intro h
    rw [h]
    exact ⟨⟨_, rfl⟩, rfl⟩
  · intro v h ho
    simp only [h, ho, if_true]
    exact ⟨⟨_, rfl⟩, trivial⟩
  · intro v h ho hsum
    simp only [h, ho]
    exact ⟨rfl, storeNumber_stored o hsum⟩

theorem getLongLongFromObject_iff (o : Robj) :
    getLongLongFromObject (some o) = some v ↔ contents o.encoding = decimal v ∧ Fits v := by
  have ⟨e, c⟩ := o
  rw [← string2ll_iff]
  cases e with
  | int p =>
    change some p.toInt = some v ↔ string2ll (decimal p.toInt) = some v
    rw [string2ll_decimal p.le_toInt p.toInt_lt]
  | _ => rfl

theorem incrDecrCommand_exact (server : Server) (db : Db) (k : Bytes) (hi : Fits incr) :
    StringExact db k incr (incrDecrCommand server k incr db) := by
  unfold incrDecrCommand
  cases ho : db k with
  | none =>
    refine incrObject_exact hi fun v => ?_
    simp [getLongLongFromObject, StringValue, ho, eq_comm]
  | some o =>
    cases o with
    | string o =>
      refine incrObject_exact hi fun v => ?_
      rw [getLongLongFromObject_iff]
      simp [StringValue, ho]
    | other => exact Or.inr ⟨by simp [StringValue, ho], ⟨_, rfl⟩, rfl⟩

theorem decrbyCommand_eq (c : Bytes) (n : Int64) (db : Db) :
    decrbyCommand server [c, k, decimal n.toInt] db =
      incrDecrCommand server k (toLong (-n.toInt)) db := by
  simp [decrbyCommand, arg, string2ll_decimal n.le_toInt n.toInt_lt]

theorem incrbyCommand_eq (c : Bytes) (n : Int64) (db : Db) :
    incrbyCommand server [c, k, decimal n.toInt] db = incrDecrCommand server k n.toInt db := by
  simp [incrbyCommand, arg, string2ll_decimal n.le_toInt n.toInt_lt]

theorem Exact.not_negated {has : ℤ → Prop} {reply : IncrReply} {set set' : ℤ → Prop} {same same' : Prop}
    (huniq : ∀ v w, has v → has w → v = w) (hfits : ∀ v, has v → Fits v) {v : ℤ} (hv : has v)
    (h : Exact has (-2^63) reply set same) : ¬Exact has (2^63) reply set' same' := by
  have hbounds := hfits v hv
  unfold Fits at hbounds
  rcases h with ⟨w, hw, hwfits, hreply, -⟩ | ⟨hno, ⟨msg, hreply⟩, -⟩
  · rw [huniq w v hw hv] at hwfits hreply
    unfold Fits at hwfits
    rintro (⟨u, hu, hufits, -⟩ | ⟨-, ⟨msg, herror⟩, -⟩)
    · rw [huniq u v hu hv] at hufits
      unfold Fits at hufits
      omega
    · rw [hreply] at herror
      cases herror
  · have hneg : v < 0 := by
      by_contra hpos
      exact hno ⟨v, hv, by unfold Fits; omega⟩
    rintro (⟨u, -, -, hnumber, -⟩ | ⟨hno', -⟩)
    · rw [hreply] at hnumber
      cases hnumber
    · exact hno' ⟨v, hv, by unfold Fits; omega⟩

theorem StringValue.unique {w : ℤ} (hv : StringValue db k v) (hw : StringValue db k w) : v = w := by
  rcases hv with ⟨hn, rfl⟩ | ⟨o, ho, htext, hfits⟩
  · rcases hw with ⟨-, rfl⟩ | ⟨o, ho, -⟩
    · rfl
    · rw [hn] at ho
      cases ho
  · rcases hw with ⟨hn, -⟩ | ⟨o', ho', htext', hfits'⟩
    · rw [hn] at ho
      cases ho
    · rw [ho] at ho'
      cases ho'
      have h := string2ll_iff.2 ⟨htext, hfits⟩
      rw [string2ll_iff.2 ⟨htext', hfits'⟩] at h
      exact (Option.some.inj h).symm

theorem decrby_exact_iff (server : Server) (c : Bytes) (n : Int64) (db : Db) (k : Bytes) :
    StringExact db k (-n.toInt) (decrbyCommand server [c, k, decimal n.toInt] db) ↔
      ¬(n.toInt = -2^63 ∧ ∃ v, StringValue db k v) := by
  have hlo := n.le_toInt
  have hhi := n.toInt_lt
  rw [decrbyCommand_eq]
  by_cases hn : n.toInt = -2^63
  · have hwrap : toLong (-n.toInt) = -2^63 := by
      rw [hn]
      decide
    have hexact := incrDecrCommand_exact server db k (show Fits (-2^63) by decide)
    rw [hwrap, hn]
    constructor
    · intro h ⟨_, v, hv⟩
      exact hexact.not_negated (fun v w => StringValue.unique) (fun v h => h.fits) hv h
    · intro h
      have hnone : ∀ d : ℤ, ¬∃ v, StringValue db k v ∧ Fits (v+d) := fun d ⟨v, hv, _⟩ => h ⟨rfl, v, hv⟩
      rcases hexact with ⟨v, hv, -⟩ | ⟨-, herror⟩
      · exact absurd ⟨rfl, v, hv⟩ h
      · exact Or.inr ⟨hnone _, herror⟩
  · rw [toLong_of_fits (by omega) (by omega)]
    exact iff_of_true (incrDecrCommand_exact server db k ⟨by omega, by omega⟩) fun h => hn h.1

variable {hdb : HashDb} {f : Bytes} {h : HashObject} {converts : Bool}

/-- The string of the field is so long that a number is read from a part of it, and the sum fits. -/
def CutField (db : HashDb) (k f : Bytes) (n : ℤ) : Prop :=
  ∃ fs s v, db k = some (.hash (.table fs)) ∧ fs f = some s ∧ 2^32 ≤ s.length ∧
    string2ll (s.take (s.length%2^32)) = some v ∧ Fits (v+n)

theorem fieldText_hashTypeSet (converts : Bool) (hv : Fits v) :
    fieldText (hashTypeSet converts h f v) f = some (decimal v) ∧
      ∀ f', f' ≠ f → fieldText (hashTypeSet converts h f v) f' = fieldText h f' := by
  have htext : entryText (.inl (Int64.ofInt v)) = decimal v :=
    congrArg decimal (Int64.toInt_ofInt_of_le hv.1 hv.2)
  cases h with
  | ziplist fs =>
    cases converts <;>
      exact ⟨by simp [hashTypeSet, fieldText, htext], fun f' hf => by simp [hashTypeSet, fieldText, hf]⟩
  | table fs =>
    exact ⟨by simp [hashTypeSet, fieldText], fun f' hf => by simp [hashTypeSet, fieldText, hf]⟩

theorem FieldValue.fits (hv : FieldValue hdb k f v) : Fits v := by
  rcases hv.2 with ⟨-, hzero⟩ | ⟨-, hfits⟩
  · rw [hzero]
    decide
  · exact hfits

theorem fieldAt_lookup (hl : hashTypeLookupWriteOrCreate hdb k = some h) :
    hdb k ≠ some .other ∧ ∀ f, fieldAt hdb k f = fieldText h f := by
  unfold hashTypeLookupWriteOrCreate at hl
  unfold fieldAt
  split at hl
  · rename_i hk
    cases hl
    simp [hk, fieldText]
  · rename_i hk
    cases hl
    simp [hk]
  · cases hl

theorem hashTypeGetValue_iff (hcut : ∀ fs s, h = .table fs → fs f = some s → s.length < 2^32) :
    (hashTypeGetValue h f).getD (some 0) = some v ↔
      (fieldText h f = none ∧ v = 0) ∨ fieldText h f = some (decimal v) ∧ Fits v := by
  cases h with
  | ziplist fs =>
    unfold hashTypeGetValue fieldText
    cases hf : fs f with
    | none => simp [hf, eq_comm]
    | some e =>
      cases e with
      | inl p =>
        have hp := string2ll_iff (s := decimal p.toInt) (v := v)
        rw [string2ll_decimal p.le_toInt p.toInt_lt] at hp
        simpa [hf, entryText] using hp
      | inr s => simpa [hf, entryText] using string2ll_iff (s := s.val) (v := v)
  | table fs =>
    unfold hashTypeGetValue fieldText
    cases hf : fs f with
    | none => simp [hf, eq_comm]
    | some s =>
      have hlen : s.take (s.length%2^32) = s := by
        rw [Nat.mod_eq_of_lt (hcut fs s rfl hf), List.take_length]
      dsimp only
      rw [hf, Option.map_some, Option.getD_some, hlen]
      simpa using string2ll_iff

theorem update_of_failed (incr : ℤ) (hl : hashTypeLookupWriteOrCreate hdb k = some h)
    (hfail : ∀ v, (hashTypeGetValue h f).getD (some 0) = some v → overflows v incr = true) :
    update hdb k (some (.hash h)) = hdb := by
  unfold hashTypeLookupWriteOrCreate at hl
  split at hl
  · cases hl
    have hover := hfail 0 rfl
    simp [overflows] at hover
  · rename_i hk
    cases hl
    rw [← hk, Function.update_eq_self]
  · cases hl

theorem hincrHash_exact (hl : hashTypeLookupWriteOrCreate hdb k = some h) (hi : Fits incr)
    (hold : ∀ v, (hashTypeGetValue h f).getD (some 0) = some v ↔ FieldValue hdb k f v) :
    HashExact hdb k f incr (hincrHash converts k f incr hdb h) := by
  have hfield := (fieldAt_lookup hl).2
  unfold hincrHash
  refine exact_of_parse hold (fun v hv => hv.fits) hi ?_ ?_ ?_
  · intro hn
    rw [hn]
    exact ⟨⟨_, rfl⟩, update_of_failed incr hl (f := f) fun v hv => by rw [hn] at hv; cases hv⟩
  · intro v hv ho
    simp only [hv, ho, if_true]
    refine ⟨⟨_, rfl⟩, update_of_failed incr hl (f := f) fun w hw => ?_⟩
    rw [hv] at hw
    cases hw
    exact ho
  · intro v hv ho hsum
    have htext := fieldText_hashTypeSet converts (h := h) (f := f) hsum
    have hat : ∀ f', fieldAt (update (update hdb k (some (.hash h))) k
        (some (.hash (hashTypeSet converts h f (v+incr))))) k f' =
          fieldText (hashTypeSet converts h f (v+incr)) f' := fun f' => by simp [fieldAt]
    simp only [hv, ho]
    refine ⟨rfl, (hat f).trans htext.1, fun f' hf => ?_, fun k' hk => ?_⟩
    · exact (hat f').trans ((htext.2 f' hf).trans (hfield f').symm)
    · exact (update_of_ne hk ..).trans (update_of_ne hk ..)

theorem hincrHash_cut {fs : Bytes → Option Bytes} {s : Bytes} (hk : hdb k = some (.hash (.table fs)))
    (hf : fs f = some s) (hlen : 2^32 ≤ s.length) (hi : Fits incr) :
    HashExact hdb k f incr (hincrHash converts k f incr hdb (.table fs)) ↔ ¬CutField hdb k f incr := by
  have hat : fieldAt hdb k f = some s := by simp [fieldAt, hk, fieldText, hf]
  have hno : ¬∃ v, FieldValue hdb k f v ∧ Fits (v+incr) := by
    intro ⟨v, ⟨_, h⟩, _⟩
    rcases h with ⟨hn, -⟩ | ⟨hs, hfits⟩
    · rw [hat] at hn
      cases hn
    · rw [hat] at hs
      cases hs
      have h20 := (decimal_length hfits.1 hfits.2).2
      omega
  have hupdate : update hdb k (some (.hash (.table fs))) = hdb := by rw [← hk, Function.update_eq_self]
  have hget : (hashTypeGetValue (.table fs) f).getD (some 0) = string2ll (s.take (s.length%2^32)) := by
    unfold hashTypeGetValue
    dsimp only
    rw [hf, Option.map_some, Option.getD_some]
  have hcut : CutField hdb k f incr ↔ ∃ v, string2ll (s.take (s.length%2^32)) = some v ∧ Fits (v+incr) := by
    constructor
    · intro ⟨fs', s', v, hk', hf', _, hv, hfits⟩
      rw [hk] at hk'
      cases hk'
      rw [hf] at hf'
      cases hf'
      exact ⟨v, hv, hfits⟩
    · exact fun ⟨v, hv, hfits⟩ => ⟨fs, s, v, hk, hf, hlen, hv, hfits⟩
  unfold hincrHash
  rw [hget, hupdate, hcut]
  cases hv : string2ll (s.take (s.length%2^32)) with
  | none => exact iff_of_true (Or.inr ⟨hno, ⟨_, rfl⟩, rfl⟩) fun ⟨v, hn, _⟩ => by cases hn
  | some v =>
    have hover := overflows_iff (string2ll_iff.1 hv).2 hi
    cases ho : overflows v incr with
    | true =>
      refine iff_of_true (Or.inr ⟨hno, ⟨_, by simp only [ho, if_true]; rfl⟩, by simp [ho]⟩) ?_
      intro ⟨w, hw, hfits⟩
      cases hw
      exact hover.1 ho hfits
    | false =>
      refine iff_of_false ?_ fun h => h ⟨v, rfl, by_contra fun hn => by rw [hover.2 hn] at ho; cases ho⟩
      rintro (⟨w, hw, hfits, -⟩ | ⟨-, ⟨msg, herror⟩, -⟩)
      · exact hno ⟨w, hw, hfits⟩
      · simp [ho] at herror

theorem hincrby_exact_iff (converts : Bool) (c : Bytes) (n : Int64) (hdb : HashDb) (k f : Bytes) :
    HashExact hdb k f n.toInt (hincrbyCommand converts [c, k, f, decimal n.toInt] hdb) ↔
      ¬CutField hdb k f n.toInt := by
  have hi : Fits n.toInt := ⟨n.le_toInt, n.toInt_lt⟩
  unfold hincrbyCommand
  simp only [arg, List.getD_cons_zero, List.getD_cons_succ, string2ll_decimal n.le_toInt n.toInt_lt]
  by_cases hcut : ∃ fs s, hdb k = some (.hash (.table fs)) ∧ fs f = some s ∧ 2^32 ≤ s.length
  · obtain ⟨fs, s, hk, hf, hlen⟩ := hcut
    have hl : hashTypeLookupWriteOrCreate hdb k = some (.table fs) := by
      rw [hashTypeLookupWriteOrCreate, hk]
    rw [hl]
    exact hincrHash_cut hk hf hlen hi
  · have hkept : ¬CutField hdb k f n.toInt := by
      rintro ⟨fs, s, -, hk, hf, hlen, -⟩
      exact hcut ⟨fs, s, hk, hf, hlen⟩
    refine iff_of_true ?_ hkept
    cases hl : hashTypeLookupWriteOrCreate hdb k with
    | none =>
      refine Or.inr ⟨?_, ⟨_, rfl⟩, rfl⟩
      rintro ⟨v, hv, -⟩
      apply hv.1
      unfold hashTypeLookupWriteOrCreate at hl
      split at hl
      · cases hl
      · cases hl
      · assumption
    | some h =>
      obtain ⟨hother, hfield⟩ := fieldAt_lookup hl
      refine hincrHash_exact hl hi fun v => ?_
      rw [FieldValue, hfield f, and_iff_right hother]
      refine hashTypeGetValue_iff fun fs s hh hf => ?_
      by_contra hlen
      refine hcut ⟨fs, s, ?_, hf, by omega⟩
      rw [hh] at hl
      unfold hashTypeLookupWriteOrCreate at hl
      split at hl
      · cases hl
      · rename_i hk
        cases hl
        exact hk
      · cases hl

/-- `DECRBY k -9223372036854775808` on a missing key. -/
example : ¬StringExact (fun _ => none) [107] (2^63) (decrbyCommand ⟨2^29, false, true⟩
    [[], [107], decimal Int64.minValue.toInt] (fun _ => none)) :=
  fun h => (decrby_exact_iff ⟨2^29, false, true⟩ [] Int64.minValue (fun _ => none) [107]).1 h
    ⟨by decide, 0, Or.inl ⟨rfl, rfl⟩⟩

end RedisCore.StringWrites
