import RedisCore.BitfieldMachine

namespace RedisCore.Bit
open List (append_assoc isEmpty_cons mem_cons mem_cons_of_mem mem_cons_self mem_singleton
  nil_append)

def TypeText (o : Bytes) (t : FieldType) : Prop :=
  o = (if t.sign then 105 else 117) :: decimal t.bits

inductive Spells : List Bytes → List Subcommand → Prop
  | nil : Spells [] []
  | get {name ty off args cs t o} : sameCaseless name (text "get") → TypeText ty t →
      DesignatesBit off true t.bits o → Spells args cs →
      Spells (name :: ty :: off :: args) (.get t o :: cs)
  | set {name ty off args cs t o v} : sameCaseless name (text "set") → TypeText ty t →
      DesignatesBit off true t.bits o → Spells args cs →
      Spells (name :: ty :: off :: decimal v :: args) (.set t o v :: cs)
  | incrby {name ty off args cs t o i} : sameCaseless name (text "incrby") → TypeText ty t →
      DesignatesBit off true t.bits o → Spells args cs →
      Spells (name :: ty :: off :: decimal i :: args) (.incrby t o i :: cs)
  | overflow {name ow args cs owtype} : sameCaseless name (text "overflow") →
      parseOwtype ow = .ok owtype → Spells args cs →
      Spells (name :: ow :: args) (.overflow owtype :: cs)

def opsOf (owtype : Owtype) : List Subcommand → List BitfieldOp
  | [] => []
  | .get t o :: cs =>
    { offset := o, i64 := 0, opcode := .get, owtype := owtype, type := t } :: opsOf owtype cs
  | .set t o v :: cs =>
    { offset := o, i64 := v, opcode := .set, owtype := owtype, type := t } :: opsOf owtype cs
  | .incrby t o i :: cs =>
    { offset := o, i64 := i, opcode := .incrby, owtype := owtype, type := t } :: opsOf owtype cs
  | .overflow owtype' :: cs => opsOf owtype' cs

variable {p : Bytes} {t : FieldType} {o : ℕ} {owtype : Owtype} {cs : List Subcommand}
  {name ty off s : Bytes} {args : List Bytes} {db : Keys} {key : Bytes}

theorem parseType_text (h : t.Ok) (hty : TypeText ty t) :
    getBitfieldTypeFromArgument ty = .ok t := by
  have hbits := h.le
  have hpos := h.1
  have hdigits : cString (decimal t.bits) = decimal t.bits := by
    rw [cString, List.takeWhile_eq_self_iff]
    intro c hc
    rw [decimal, if_neg (by omega)] at hc
    have hdigit := Aof.decimalNat_isDigit _ c hc
    rw [decide_eq_true_eq]
    rintro rfl
    exact absurd hdigit (by decide)
  have hvalue : string2ll (cString (decimal t.bits)) = some (t.bits : ℤ) := by
    rw [hdigits, string2ll_decimal (by omega) (by omega)]
  rw [hty, getBitfieldTypeFromArgument]
  cases hs : t.sign with
  | true =>
    dsimp only [if_true]
    rw [if_neg (by decide), hvalue]
    dsimp only
    rw [if_neg (by simp; omega), Int.toNat_natCast]
    congr 1
    rw [FieldType.mk.injEq]
    exact ⟨by rw [hs]; rfl, rfl⟩
  | false =>
    have hnarrow := h.unsigned hs
    dsimp only
    rw [if_neg Bool.false_ne_true, if_neg (by decide), hvalue]
    dsimp only
    rw [if_neg (by simp; omega), Int.toNat_natCast]
    congr 1
    rw [FieldType.mk.injEq]
    exact ⟨by rw [hs]; rfl, rfl⟩

theorem parseOffset_text (h : t.Ok) (hoff : DesignatesBit off true t.bits o) (ho : o < 2^32) :
    getBitOffsetFromArgument off true t.bits = .ok o := by
  have hpos := h.1
  rcases hoff with ⟨N, rfl, rfl⟩ | ⟨-, N, rfl, rfl⟩
  · exact (offset_plain (fun s => decimal_ne_hash _ s) true _).mpr ⟨rfl, ho⟩
  · have hle : N*1 ≤ N*t.bits := Nat.mul_le_mul_left N hpos
    have hmod : (N : ℤ)*t.bits%2^64 = ((N*t.bits : ℕ) : ℤ) := by
      rw [← Nat.cast_mul]
      omega
    apply (offset_hash (by omega) _ _).mpr
    refine ⟨N, rfl, by omega, by omega, ?_, ?_⟩
    · rw [hmod]
      omega
    · rw [hmod, Int.toNat_natCast]

theorem other_name {a b : String} (h : sameCaseless name (text a) = true)
    (hne : (cString (text a)).map tolower ≠ (cString (text b)).map tolower) :
    sameCaseless name (text b) = false := by
  rw [sameCaseless, beq_iff_eq] at h
  rw [sameCaseless, beq_eq_false_iff_ne, h]
  exact hne

theorem parseOpcode_get (h : sameCaseless name (text "get") = true) {n : ℕ} (hn : 2 ≤ n) :
    parseOpcode name n = some .get := by
  rw [parseOpcode, h, decide_eq_true hn]
  rfl

theorem parseOpcode_set (h : sameCaseless name (text "set") = true) {n : ℕ} (hn : 3 ≤ n) :
    parseOpcode name n = some .set := by
  rw [parseOpcode, other_name h (by decide), h, decide_eq_true hn]
  rfl

theorem parseOpcode_incrby (h : sameCaseless name (text "incrby") = true) {n : ℕ} (hn : 3 ≤ n) :
    parseOpcode name n = some .incrby := by
  rw [parseOpcode, other_name h (by decide), other_name h (by decide), h, decide_eq_true hn]
  rfl

theorem parseOpcode_overflow (h : sameCaseless name (text "overflow") = true) (n : ℕ) :
    parseOpcode name n = none := by
  rw [parseOpcode, other_name h (by decide), other_name h (by decide), other_name h (by decide)]
  rfl

def highestEnd (n : ℕ) (ends : List ℕ) : ℕ := ends.foldl max n

theorem parseOp_stores {opcode : Opcode} {ty off : Bytes} {v : ℤ} (owtype : Owtype)
    (args : List Bytes) (hop : opcode ≠ .get) (ht : t.Ok) (hty : TypeText ty t)
    (hoff : DesignatesBit off true t.bits o) (ho : o < 2^32) (hlo : -2^63 ≤ v) (hhi : v < 2^63) :
    parseOp opcode owtype (ty :: off :: decimal v :: args) =
      .ok ({ offset := o, i64 := v, opcode := opcode, owtype := owtype, type := t },
        some (o+t.bits-1)) := by
  have hty0 : arg (ty :: off :: decimal v :: args) 0 = ty := rfl
  have hoff1 : arg (ty :: off :: decimal v :: args) 1 = off := rfl
  have hval2 : arg (ty :: off :: decimal v :: args) 2 = decimal v := rfl
  unfold parseOp getLongLongFromObject
  rw [hty0, hoff1, hval2, parseType_text ht hty]
  dsimp only [bind, Except.bind]
  rw [parseOffset_text ht hoff ho]
  cases opcode with
  | get => exact absurd rfl hop
  | _ =>
    dsimp only
    rw [string2ll_decimal hlo hhi]
    rfl

theorem parseOps_spells (h : Spells args cs) : ∀ (owtype : Owtype) (acc : Parsed),
    (∀ c ∈ cs, c.Accepted) → parseOps owtype acc args =
      .ok { ops := acc.ops ++ opsOf owtype cs
            readonly := acc.readonly && (namedEnds cs).isEmpty
            highestWriteOffset := highestEnd acc.highestWriteOffset (namedEnds cs) } := by
  induction h with
  | nil =>
    intro owtype acc _
    rw [parseOps, opsOf, List.append_nil, namedEnds, List.isEmpty_nil, Bool.and_true]
    rfl
  | @get name ty off args cs t o hname hty hoff hrest ih =>
    intro owtype acc hok
    obtain ⟨ht, ho⟩ := hok _ mem_cons_self
    have hop : parseOp .get owtype (ty :: off :: args) =
        .ok ({ offset := o, i64 := 0, opcode := .get, owtype := owtype, type := t }, none) := by
      have hty0 : arg (ty :: off :: args) 0 = ty := rfl
      have hoff1 : arg (ty :: off :: args) 1 = off := rfl
      unfold parseOp
      rw [hty0, hoff1, parseType_text ht hty]
      dsimp only [bind, Except.bind]
      rw [parseOffset_text ht hoff ho]
      rfl
    rw [parseOps, parseOpcode_get hname (by simp)]
    dsimp only
    rw [hop]
    dsimp only
    rw [if_pos rfl]
    change parseOps owtype _ args = _
    rw [ih owtype _ (fun c hc => hok c (mem_cons_of_mem _ hc))]
    dsimp only
    rw [opsOf, append_assoc]
    rfl
  | @set name ty off args cs t o v hname hty hoff hrest ih =>
    intro owtype acc hok
    obtain ⟨ht, ho, hlo, hhi⟩ := hok _ mem_cons_self
    rw [parseOps, parseOpcode_set hname (by simp)]
    dsimp only
    rw [parseOp_stores owtype args (by decide) ht hty hoff ho hlo hhi]
    dsimp only
    rw [if_neg (by decide)]
    change parseOps owtype _ args = _
    rw [ih owtype _ (fun c hc => hok c (mem_cons_of_mem _ hc))]
    rw [opsOf, namedEnds, append_assoc, isEmpty_cons, Bool.and_false, Bool.false_and]
    rfl
  | @incrby name ty off args cs t o i hname hty hoff hrest ih =>
    intro owtype acc hok
    obtain ⟨ht, ho, hlo, hhi⟩ := hok _ mem_cons_self
    rw [parseOps, parseOpcode_incrby hname (by simp)]
    dsimp only
    rw [parseOp_stores owtype args (by decide) ht hty hoff ho hlo hhi]
    dsimp only
    rw [if_neg (by decide)]
    change parseOps owtype _ args = _
    rw [ih owtype _ (fun c hc => hok c (mem_cons_of_mem _ hc))]
    rw [opsOf, namedEnds, append_assoc, isEmpty_cons, Bool.and_false, Bool.false_and]
    rfl
  | @overflow name ow args cs owtype' hname how hrest ih =>
    intro owtype acc hok
    rw [parseOps, parseOpcode_overflow hname]
    dsimp only
    have hfirst : arg (ow :: args) 0 = ow := rfl
    rw [hname, decide_eq_true (by simp), hfirst, how, if_pos (show (true && true) = true from rfl)]
    exact ih owtype' acc (fun c hc => hok c (mem_cons_of_mem _ hc))

theorem execOps_machine (cs : List Subcommand) : ∀ (owtype : Owtype) (p : Bytes),
    (∀ c ∈ cs, c.Ok) → (∀ e ∈ namedEnds cs, e < 8*p.length) →
    ∃ p', execOps p (opsOf owtype cs) = some ((machine owtype (bitsOf p) cs).1, p') ∧
      p'.length = p.length ∧ bitsOf p' = (machine owtype (bitsOf p) cs).2 := by
  induction cs with
  | nil =>
    intro owtype p _ _
    exact ⟨p, rfl, rfl, rfl⟩
  | cons c cs ih =>
    intro owtype p hok hends
    have hrest : ∀ c ∈ cs, c.Ok := fun c hc => hok c (mem_cons_of_mem _ hc)
    have hfirst := hok c mem_cons_self
    cases c with
    | get t o =>
      obtain ⟨p', hrun, hlen, hbits⟩ := ih owtype p hrest hends
      refine ⟨p', ?_, hlen, hbits⟩
      rw [opsOf, execOps, if_pos rfl, execGet_eq hfirst.1]
      dsimp only [Option.bind_eq_bind, Option.bind_some, pure]
      rw [hrun]
      rfl
    | set t o v =>
      have hlast := hends _ mem_cons_self
      have hpos := hfirst.1.1
      obtain ⟨q, hexec, hlenq, hbitsq⟩ := @execSet_eq p _ o owtype _
        hfirst.1 (by omega) hfirst.2.2
      obtain ⟨p', hrun, hlen, hbits⟩ := ih owtype q hrest
        (fun e he => by rw [hlenq]; exact hends e (mem_cons_of_mem _ he))
      rw [hbitsq] at hrun hbits
      refine ⟨p', ?_, hlen.trans hlenq, hbits⟩
      rw [opsOf, execOps, if_neg (show ¬Opcode.set = Opcode.get by decide), hexec]
      dsimp only [Option.bind_eq_bind, Option.bind_some]
      rw [hrun]
      rfl
    | incrby t o i =>
      have hlast := hends _ mem_cons_self
      have hpos := hfirst.1.1
      obtain ⟨q, hexec, hlenq, hbitsq⟩ := @execIncrby_eq p _ o owtype _
        hfirst.1 (by omega) hfirst.2.2.1 hfirst.2.2.2
      obtain ⟨p', hrun, hlen, hbits⟩ := ih owtype q hrest
        (fun e he => by rw [hlenq]; exact hends e (mem_cons_of_mem _ he))
      rw [hbitsq] at hrun hbits
      rw [opsOf, execOps, if_neg (show ¬Opcode.incrby = Opcode.get by decide), hexec]
      dsimp only [Option.bind_eq_bind, Option.bind_some]
      rw [hrun, machine]
      refine ⟨p', ?_, hlen.trans hlenq, ?_⟩
      · cases t.result owtype (t.read (bitsOf p) o+i) <;> rfl
      · rw [hbits]
        cases t.result owtype (t.read (bitsOf p) o+i) <;> rfl
    | overflow owtype' => exact ih owtype' p hrest hends

theorem bitsOf_grow (s : Bytes) (n : ℕ) : bitsOf (sdsgrowzero s n) = bitsOf s := by
  funext m
  have hbyte : (sdsgrowzero s n).getD (m/8) 0 = s.getD (m/8) 0 := by
    rw [sdsgrowzero, List.getD_eq_getElem?_getD, List.getD_eq_getElem?_getD, List.getElem?_append]
    by_cases hin : m/8 < s.length
    · rw [if_pos hin]
    · rw [if_neg hin, List.getElem?_replicate, List.getElem?_eq_none (not_lt.mp hin)]
      split <;> rfl
  rw [bitsOf, bitsOf, hbyte]

theorem sdsgrowzero_length (s : Bytes) (n : ℕ) : (sdsgrowzero s n).length = max s.length n := by
  rw [sdsgrowzero, List.length_append, List.length_replicate]
  omega

/-- The string at a key, which is empty where there is none; a value of another type has none. -/
def stringAt : Option Object → Option Bytes
  | none => some []
  | some (.string s) => some s
  | some .other => none

theorem lookup_eq {s : Option Object} (h : stringAt s = some p) (maxbit : ℕ) :
    lookupStringForBitCommand s maxbit = some (sdsgrowzero p (maxbit/8+1)) := by
  unfold lookupStringForBitCommand
  dsimp only
  rw [byte_index]
  cases s with
  | none =>
    cases h
    rw [sdsgrowzero, List.length_nil, Nat.sub_zero, nil_append]
  | some v =>
    cases v with
    | string s =>
      cases h
      rfl
    | other => cases h

theorem le_highestEnd (n : ℕ) (ends : List ℕ) : n ≤ highestEnd n ends ∧
    ∀ e ∈ ends, e ≤ highestEnd n ends := by
  induction ends generalizing n with
  | nil => exact ⟨le_rfl, fun e he => absurd he List.not_mem_nil⟩
  | cons x ends ih =>
    obtain ⟨hn, hends⟩ := ih (max n x)
    refine ⟨(le_max_left n x).trans hn, ?_⟩
    intro e he
    rcases mem_cons.mp he with rfl | he
    · exact (le_max_right n e).trans hn
    · exact hends e he

def StoredBits (db db' : Keys) (key : Bytes) (len : ℕ) (f : ℕ → Bool) : Prop :=
  ∃ p', db' = Function.update db key (some (.string p')) ∧ p'.length = len ∧ bitsOf p' = f

def RunsLike (db : Keys) (key : Bytes) (p : Bytes) (args : List Bytes) (cs : List Subcommand)
    (ends : List ℕ) : Prop :=
  ∃ db', bitfieldGeneric db false key args =
      some (.array (machine .wrap (bitsOf p) cs).1, db') ∧
    if ends = [] then db' = db
    else StoredBits db db' key (max p.length (highestEnd 0 ends/8+1)) (machine .wrap (bitsOf p) cs).2

/-- `BITFIELD` runs the machine; the string grows to the last field that `SET` or `INCRBY` names, written
or not. -/
theorem bitfield_runs (hspell : Spells args cs) (hok : ∀ c ∈ cs, c.Ok)
    (hkey : stringAt (db key) = some p) : RunsLike db key p args cs (namedEnds cs) := by
  have hparse := parseOps_spells hspell .wrap
    { ops := [], readonly := true, highestWriteOffset := 0 } (fun c hc => (hok c hc).accepted)
  dsimp only at hparse
  rw [nil_append, Bool.true_and] at hparse
  unfold RunsLike
  unfold bitfieldGeneric
  rw [hparse]
  dsimp only
  cases hends : namedEnds cs with
  | nil =>
    obtain ⟨p', hrun, -, -⟩ := execOps_machine cs .wrap p hok
      (by rw [hends]; exact fun e he => absurd he List.not_mem_nil)
    refine ⟨db, ?_, by rw [if_pos rfl]⟩
    rw [List.isEmpty_nil, if_pos rfl]
    cases hv : db key with
    | none =>
      rw [hv] at hkey
      cases hkey
      dsimp only
      rw [hrun]
      rfl
    | some v =>
      rw [hv] at hkey
      cases v with
      | string s =>
        cases hkey
        dsimp only
        rw [hrun]
        rfl
      | other => cases hkey
  | cons e ends =>
    rw [isEmpty_cons, if_neg Bool.false_ne_true, if_neg Bool.false_ne_true, lookup_eq hkey]
    obtain ⟨p', hrun, hlen, hbits⟩ := execOps_machine cs .wrap
      (sdsgrowzero p (highestEnd 0 (e :: ends)/8+1)) hok (by
        rw [hends, sdsgrowzero_length]
        intro x hx
        have hle := (le_highestEnd 0 (e :: ends)).2 x hx
        omega)
    rw [bitsOf_grow] at hrun hbits
    refine ⟨Function.update db key (some (.string p')), ?_, ?_⟩
    · dsimp only
      rw [hrun]
      rfl
    · rw [if_neg (List.cons_ne_nil e ends)]
      exact ⟨p', rfl, by rw [hlen, sdsgrowzero_length], hbits⟩

theorem bitfield_runs_set : RunsLike (fun _ => none) [107] []
    [text "SET", 117 :: decimal 8, 35 :: decimal 1, decimal 7, text "get", 105 :: decimal 4,
      decimal 12]
    [.set ⟨false, 8⟩ 8 7, .get ⟨true, 4⟩ 12]
    (namedEnds [.set ⟨false, 8⟩ 8 7, .get ⟨true, 4⟩ 12]) :=
  bitfield_runs
    (Spells.set (by decide) rfl (Or.inr ⟨rfl, 1, rfl, rfl⟩)
      (Spells.get (by decide) rfl (Or.inl ⟨12, rfl, rfl⟩) Spells.nil))
    (by
      intro c hc
      rcases mem_cons.mp hc with rfl | hc
      · exact ⟨by unfold FieldType.Ok; decide, by norm_num, by decide⟩
      · rw [mem_singleton.mp hc]
        exact ⟨by unfold FieldType.Ok; decide, by norm_num⟩)
    rfl

/-- A sum that is rejected is not written, but the string grows. -/
theorem bitfield_grows_unwritten : ¬RunsLike (fun _ => none) [107] []
    [text "OVERFLOW", text "FAIL", text "INCRBY", 117 :: decimal 1, decimal 0, decimal 5]
    [.overflow .fail, .incrby ⟨false, 1⟩ 0 5]
    (writtenEnds .wrap (bitsOf []) [.overflow .fail, .incrby ⟨false, 1⟩ 0 5]) := by
  rintro ⟨db', hrun, hdb⟩
  have hnone : writtenEnds .wrap (bitsOf []) [.overflow .fail, .incrby ⟨false, 1⟩ 0 5] = [] := by
    decide
  rw [hnone, if_pos rfl] at hdb
  have hspell : Spells
      [text "OVERFLOW", text "FAIL", text "INCRBY", 117 :: decimal 1, decimal 0, decimal 5]
      [.overflow .fail, .incrby ⟨false, 1⟩ 0 5] :=
    Spells.overflow (by decide) (by decide)
      (Spells.incrby (by decide) rfl (Or.inl ⟨0, rfl, rfl⟩) Spells.nil)
  have hparse := parseOps_spells hspell .wrap
    { ops := [], readonly := true, highestWriteOffset := 0 } (by
      intro c hc
      rcases mem_cons.mp hc with rfl | hc
      · trivial
      · rw [mem_singleton.mp hc]
        exact ⟨by unfold FieldType.Ok; decide, by norm_num, by norm_num, by norm_num⟩)
  unfold bitfieldGeneric at hrun
  rw [hparse] at hrun
  have hstored := congrArg (Option.map (fun r : BitReply × Keys => r.2 [107])) hrun
  rw [hdb] at hstored
  revert hstored
  decide

theorem checkSigned_value {bits : ℕ} {value : ℤ} (hpos : 1 ≤ bits) (hbits : bits ≤ 64)
    (hlo : -2^63 ≤ value) (hhi : value < 2^63) (owtype : Owtype) :
    checkSignedBitfieldOverflow value 0 bits owtype =
      if 2^(bits-1)-1 < value ∨ (bits < 64 ∧ value < 2^(bits-1)-2^63) then
        (1, match owtype with
          | .wrap => some (value.bmod (2^bits))
          | .sat => some (2^(bits-1)-1)
          | .fail => none)
      else if value < -2^(bits-1) then
        match owtype with
          | .wrap => (1, some (value.bmod (2^bits)))
          | .sat => (-1, some (-2^(bits-1)))
          | .fail => (-1, none)
      else (0, none) := by
  obtain ⟨hpow, hone, hhalf⟩ := width_powers hpos hbits
  have hmin : -((2:ℤ)^(bits-1)-1)-1 = -2^(bits-1) := by ring
  unfold checkSignedBitfieldOverflow
  dsimp only
  rw [signed_max bits, hmin, wrapSigned_eq hpos hbits, Int.add_zero]
  have hover : (value > 2^(bits-1)-1 ∨ (bits ≠ 64 ∧ 0 > toLong (2^(bits-1)-1-value)) ∨
      (value ≥ 0 ∧ (0:ℤ) > 0 ∧ 0 > toLong (2^(bits-1)-1-value))) ↔
      (2^(bits-1)-1 < value ∨ (bits < 64 ∧ value < 2^(bits-1)-2^63)) := by
    by_cases hall : bits = 64
    · omega
    · have hnarrow : (2:ℤ)^(bits-1) ≤ 2^62 := pow_le_pow_right₀ (by norm_num) (by omega)
      by_cases hfits : 2^(bits-1)-1-value < 2^63
      · by_cases hbelow : -2^63 ≤ 2^(bits-1)-1-value
        · rw [toLong_of_fits hbelow hfits]
          omega
        · omega
      · have hwrap : toLong (2^(bits-1)-1-value) = 2^(bits-1)-1-value-2^64 := by
          unfold toLong
          rw [← Int.sub_bmod_right]
          apply Int.bmod_eq_of_le_mul_two <;> push_cast <;> omega
        rw [hwrap]
        omega
  simp only [hover]
  by_cases hhigh : 2^(bits-1)-1 < value ∨ (bits < 64 ∧ value < 2^(bits-1)-2^63)
  · rw [if_pos hhigh, if_pos hhigh]
    cases owtype <;> rfl
  · rw [if_neg hhigh, if_neg hhigh]
    have hunder : (value < -2^(bits-1) ∨ (bits ≠ 64 ∧ 0 < toLong (-2^(bits-1)-value)) ∨
        (value < 0 ∧ (0:ℤ) < 0 ∧ 0 < toLong (-2^(bits-1)-value))) ↔ value < -2^(bits-1) := by
      by_cases hall : bits = 64
      · omega
      · have hnarrow : (2:ℤ)^(bits-1) ≤ 2^62 := pow_le_pow_right₀ (by norm_num) (by omega)
        rw [toLong_of_fits (by omega) (by omega)]
        omega
    apply if_congr hunder
    · cases owtype <;> rfl
    · rfl

theorem FieldType.read_write (h : t.Ok) {x : ℤ} (hx : t.Fits x) (f : ℕ → Bool) (o : ℕ) :
    t.read (t.write f o x) o = x := by
  have hnonneg := Int.emod_nonneg x (b := 2^t.bits) (by positivity)
  have hlt := Int.emod_lt_of_pos x (b := 2^t.bits) (by positivity)
  have hmod : ((x%2^t.bits).toNat%2^t.bits : ℕ) = (x%2^t.bits).toNat := by
    apply Nat.mod_eq_of_lt
    zify
    rwa [Int.toNat_of_nonneg hnonneg]
  rw [read, write, readField_writeField, hmod, wrap, Int.toNat_of_nonneg hnonneg]
  cases hs : t.sign with
  | true =>
    have hrange := (fits_signed hs).mp hx
    obtain ⟨hpow, -, -⟩ := width_powers h.1 h.le
    have hdef : x%2^t.bits = x%((2^t.bits : ℕ) : ℤ) := by push_cast; rfl
    rw [if_pos rfl, hdef, Int.emod_bmod]
    apply Int.bmod_eq_of_le_mul_two <;> push_cast <;> omega
  | false =>
    have hrange := (fits_unsigned hs).mp hx
    rw [if_neg Bool.false_ne_true, Int.emod_emod_of_dvd x dvd_rfl]
    exact Int.emod_eq_of_lt hrange.1 (by omega)

def StoresNearest (t : FieldType) (v : ℤ) : Prop :=
  ∀ (db : Keys) (key p : Bytes) (o : ℕ) (args : List Bytes), stringAt (db key) = some p →
    o < 2^32 → Spells args [.overflow .sat, .set t o v] →
    ∃ db' p', bitfieldGeneric db false key args =
        some (.array [some (t.read (bitsOf p) o)], db') ∧
      db' key = some (.string p') ∧ t.read (bitsOf p') o = t.clamp v

/-- The check answers 0 for what fits, gives the nearest number or the residue for what does not, and `SET`
stores the nearest number. -/
def SetOverflowRight (value : ℤ) (bits : ℕ) (owtype : Owtype) : Prop :=
  let r := checkSignedBitfieldOverflow value 0 bits owtype
  (r.1 = 0 ↔ -2^(bits-1) ≤ value ∧ value ≤ 2^(bits-1)-1) ∧
  (r.1 ≠ 0 →
    (owtype = .sat → r.2 = some (if 2^(bits-1)-1 < value then 2^(bits-1)-1 else -2^(bits-1))) ∧
    (owtype = .wrap → r.2 = some (value.bmod (2^bits)))) ∧
  (owtype = .sat → StoresNearest { sign := true, bits := bits } value)

theorem computeSigned_set (h : t.Ok) (hs : t.sign = true) {v : ℤ} (hlo : -2^63 ≤ v)
    (hhi : v < 2^63) (hfar : t.bits < 64 → 2^(t.bits-1)-2^63 ≤ v) (old : ℤ) :
    ∃ overflow, computeSigned { offset := o, i64 := v, opcode := .set, owtype := .sat, type := t } old =
      (t.clamp v, overflow, old) := by
  have hcheck := checkSigned_value h.1 h.le hlo hhi .sat
  have hmin : t.lo = -2^(t.bits-1) := if_pos hs
  have hmax : t.hi = 2^(t.bits-1)-1 := if_pos hs
  rw [computeSigned]
  dsimp only
  rw [hcheck]
  by_cases hover : 2^(t.bits-1)-1 < v
  · rw [if_pos (Or.inl hover), FieldType.clamp_above h (by omega), hmax]
    exact ⟨_, rfl⟩
  · have hhigh : ¬(2^(t.bits-1)-1 < v ∨ (t.bits < 64 ∧ v < 2^(t.bits-1)-2^63)) := by omega
    rw [if_neg hhigh]
    by_cases hunder : v < -2^(t.bits-1)
    · rw [if_pos hunder, FieldType.clamp_below h (by omega), hmin]
      exact ⟨_, rfl⟩
    · have hclamp : t.clamp v = v := by
        rw [FieldType.clamp, min_eq_left (by omega), max_eq_right (by omega)]
      rw [if_neg hunder, hclamp]
      exact ⟨_, rfl⟩

theorem storesNearest_of_near (h : t.Ok) (hs : t.sign = true) {v : ℤ} (hlo : -2^63 ≤ v)
    (hhi : v < 2^63) (hfar : t.bits < 64 → 2^(t.bits-1)-2^63 ≤ v) : StoresNearest t v := by
  intro db key p o args hkey ho hspell
  have hparse := parseOps_spells hspell .wrap
    { ops := [], readonly := true, highestWriteOffset := 0 } (by
      intro c hc
      rcases mem_cons.mp hc with rfl | hc
      · trivial
      · rw [mem_singleton.mp hc]
        exact ⟨h, ho, hlo, hhi⟩)
  have hpos := h.1
  have hin : o+t.bits ≤ 8*(sdsgrowzero p ((o+t.bits-1)/8+1)).length := by
    rw [sdsgrowzero_length]
    omega
  obtain ⟨overflow, hcomp⟩ := computeSigned_set (o := o) h hs hlo hhi hfar (t.read (bitsOf p) o)
  obtain ⟨p', hrun, -, hbits⟩ := execWrite_signed h hs hin
    (by rw [bitsOf_grow]) hcomp
  have hsat : (overflow && Owtype.sat == .fail) = false := by
    rw [Bool.and_eq_false_iff]
    exact Or.inr rfl
  rw [hsat, if_neg Bool.false_ne_true] at hrun
  refine ⟨Function.update db key (some (.string p')), p', ?_, Function.update_self _ _ _, ?_⟩
  · have hone : highestEnd 0 (namedEnds [.overflow .sat, .set t o v]) = o+t.bits-1 :=
      Nat.zero_max _
    unfold bitfieldGeneric
    rw [hparse]
    dsimp only
    rw [hone, if_neg (by simp [namedEnds]), if_neg Bool.false_ne_true, lookup_eq hkey]
    dsimp only
    rw [nil_append, opsOf, opsOf, opsOf, execOps,
      if_neg (show ¬Opcode.set = Opcode.get by decide), hrun]
    rfl
  · have hle := h.lo_le_hi
    have hfits : t.Fits (t.clamp v) := ⟨le_max_left _ _, max_le hle (min_le_right _ _)⟩
    rw [hbits, FieldType.read_write h hfits]

/-- Only values so far below the field that the room above them wraps around are clamped to the wrong
end. -/
theorem checkSigned_set_iff (value : ℤ) (bits : ℕ) (owtype : Owtype) (hlo : -2^63 ≤ value)
    (hhi : value < 2^63) (hpos : 1 ≤ bits) (hbits : bits ≤ 64) :
    SetOverflowRight value bits owtype ↔
      ¬(owtype = .sat ∧ bits < 64 ∧ value < 2^(bits-1)-2^63) := by
  obtain ⟨hpow, hone, hhalf⟩ := width_powers hpos hbits
  have hcheck := checkSigned_value hpos hbits hlo hhi owtype
  unfold SetOverflowRight
  dsimp only
  rw [hcheck]
  constructor
  · rintro ⟨-, hlimit, -⟩ ⟨rfl, hnarrow, hfar⟩
    rw [if_pos (Or.inr ⟨hnarrow, hfar⟩)] at hlimit
    have hsat := (hlimit one_ne_zero).1 rfl
    dsimp only at hsat
    rw [Option.some.injEq, if_neg (by omega)] at hsat
    omega
  · intro hnear
    refine ⟨?_, ?_, ?_⟩
    · by_cases hhigh : 2^(bits-1)-1 < value ∨ (bits < 64 ∧ value < 2^(bits-1)-2^63)
      · have hnarrow : bits < 64 → (2:ℤ)^(bits-1) ≤ 2^62 := fun h =>
          pow_le_pow_right₀ (by norm_num) (by omega)
        rw [if_pos hhigh]
        constructor
        · intro h
          exact absurd h one_ne_zero
        · omega
      · rw [if_neg hhigh]
        by_cases hunder : value < -2^(bits-1)
        · rw [if_pos hunder]
          cases owtype <;> simp <;> omega
        · rw [if_neg hunder]
          simp
          omega
    · intro hne
      constructor
      · rintro rfl
        by_cases hover : 2^(bits-1)-1 < value
        · rw [if_pos (Or.inl hover), if_pos hover]
        · have hhigh : ¬(2^(bits-1)-1 < value ∨ (bits < 64 ∧ value < 2^(bits-1)-2^63)) := by
            rintro (h | h)
            · exact hover h
            · exact hnear ⟨rfl, h⟩
          rw [if_neg hhigh] at hne ⊢
          by_cases hunder : value < -2^(bits-1)
          · rw [if_pos hunder, if_neg hover]
          · rw [if_neg hunder] at hne
            exact absurd rfl hne
      · rintro rfl
        split
        · rfl
        · rename_i hhigh
          rw [if_neg hhigh] at hne
          by_cases hunder : value < -2^(bits-1)
          · rw [if_pos hunder]
          · rw [if_neg hunder] at hne
            exact absurd rfl hne
    · rintro rfl
      apply storesNearest_of_near ⟨hpos, hbits⟩ rfl hlo hhi
      intro hnarrow
      apply not_lt.mp
      intro hfar
      exact hnear ⟨rfl, hnarrow, hfar⟩

theorem checkSigned_set_iff_i8 : SetOverflowRight (-1000) 8 .sat ↔
    ¬(Owtype.sat = .sat ∧ 8 < 64 ∧ (-1000 : ℤ) < 2^(8-1)-2^63) :=
  checkSigned_set_iff (-1000) 8 .sat (by norm_num) (by norm_num) (by decide) (by decide)

/-- The least number of 64 bits is clamped to 127 and not to -128. -/
theorem checkSigned_set_least : ¬SetOverflowRight (-9223372036854775808) 8 .sat := by
  rintro ⟨-, hlimit, -⟩
  revert hlimit
  decide

end RedisCore.Bit
