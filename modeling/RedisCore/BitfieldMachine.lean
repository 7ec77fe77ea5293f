import RedisCore.BitfieldArguments
import RedisCore.BitfieldOverflow

namespace RedisCore.Bit

inductive Subcommand where
  | get (type : FieldType) (offset : ℕ)
  | set (type : FieldType) (offset : ℕ) (value : ℤ)
  | incrby (type : FieldType) (offset : ℕ) (increment : ℤ)
  | overflow (owtype : Owtype)

namespace FieldType

def read (t : FieldType) (f : ℕ → Bool) (offset : ℕ) : ℤ := t.wrap (readField f offset t.bits)

def write (t : FieldType) (f : ℕ → Bool) (offset : ℕ) (x : ℤ) : ℕ → Bool :=
  writeField f offset t.bits (x%2^t.bits).toNat

def result (t : FieldType) (owtype : Owtype) (x : ℤ) : Option ℤ :=
  if t.Fits x then some x
  else
    match owtype with
    | .wrap => some (t.wrap x)
    | .sat => some (t.clamp x)
    | .fail => none

end FieldType

def machine (owtype : Owtype) (f : ℕ → Bool) : List Subcommand → List (Option ℤ) × (ℕ → Bool)
  | [] => ([], f)
  | .get t o :: cs =>
    let r := machine owtype f cs
    (some (t.read f o) :: r.1, r.2)
  | .set t o v :: cs =>
    let r := machine owtype (t.write f o v) cs
    (some (t.read f o) :: r.1, r.2)
  | .incrby t o i :: cs =>
    match t.result owtype (t.read f o+i) with
    | none =>
      let r := machine owtype f cs
      (none :: r.1, r.2)
    | some y =>
      let r := machine owtype (t.write f o y) cs
      (some y :: r.1, r.2)
  | .overflow owtype' :: cs => machine owtype' f cs

def namedEnds : List Subcommand → List ℕ
  | [] => []
  | .set t o _ :: cs => (o+t.bits-1) :: namedEnds cs
  | .incrby t o _ :: cs => (o+t.bits-1) :: namedEnds cs
  | _ :: cs => namedEnds cs

def writtenEnds (owtype : Owtype) (f : ℕ → Bool) : List Subcommand → List ℕ
  | [] => []
  | .get _ _ :: cs => writtenEnds owtype f cs
  | .set t o v :: cs => (o+t.bits-1) :: writtenEnds owtype (t.write f o v) cs
  | .incrby t o i :: cs =>
    match t.result owtype (t.read f o+i) with
    | none => writtenEnds owtype f cs
    | some y => (o+t.bits-1) :: writtenEnds owtype (t.write f o y) cs
  | .overflow owtype' :: cs => writtenEnds owtype' f cs

def Subcommand.Ok : Subcommand → Prop
  | .get t o => t.Ok ∧ o < 2^32
  | .set t o v => t.Ok ∧ o < 2^32 ∧ t.Fits v
  | .incrby t o i => t.Ok ∧ o < 2^32 ∧ -2^63 ≤ i ∧ i < 2^63
  | .overflow _ => True

def Subcommand.Accepted : Subcommand → Prop
  | .get t o => t.Ok ∧ o < 2^32
  | .set t o v => t.Ok ∧ o < 2^32 ∧ -2^63 ≤ v ∧ v < 2^63
  | .incrby t o i => t.Ok ∧ o < 2^32 ∧ -2^63 ≤ i ∧ i < 2^63
  | .overflow _ => True

variable {p : Bytes} {t : FieldType} {offset : ℕ} {owtype : Owtype} {i x : ℤ} {f : ℕ → Bool}

theorem FieldType.Ok.le (h : t.Ok) : t.bits ≤ 64 := by
  have hle := h.2
  split at hle <;> omega

theorem FieldType.read_signed (hs : t.sign = true) :
    t.read f offset = (readField f offset t.bits : ℤ).bmod (2^t.bits) := by
  rw [read, wrap, if_pos hs]

theorem FieldType.read_unsigned (hs : t.sign = false) :
    t.read f offset = readField f offset t.bits := by
  rw [read, wrap, if_neg (by rw [hs]; exact Bool.false_ne_true)]
  apply Int.emod_eq_of_lt (by positivity)
  exact_mod_cast readField_lt f offset t.bits

theorem bmod_range {bits : ℕ} (hpos : 1 ≤ bits) (x : ℤ) :
    -2^(bits-1) ≤ x.bmod (2^bits) ∧ x.bmod (2^bits) ≤ 2^(bits-1)-1 := by
  have hpow : (2:ℕ)^bits = 2*2^(bits-1) := by
    rw [← pow_succ']
    congr 1
    omega
  have hlo := Int.le_bmod (x := x) (m := 2^bits) (by positivity)
  have hhi := Int.bmod_lt (x := x) (m := 2^bits) (by positivity)
  rw [hpow] at hlo hhi ⊢
  push_cast at hlo hhi ⊢
  omega

theorem FieldType.wrap_fits (h : t.Ok) (x : ℤ) : t.Fits (t.wrap x) := by
  cases hs : t.sign with
  | true =>
    rw [Fits, lo, hi, wrap, if_pos hs, if_pos hs, if_pos hs]
    exact bmod_range h.1 _
  | false =>
    have hn : ¬t.sign = true := by
      rw [hs]
      exact Bool.false_ne_true
    have hnonneg := Int.emod_nonneg x (b := 2^t.bits) (by positivity)
    have hlt := Int.emod_lt_of_pos x (b := 2^t.bits) (by positivity)
    rw [Fits, lo, hi, wrap, if_neg hn, if_neg hn, if_neg hn]
    omega

theorem FieldType.read_fits (h : t.Ok) (f : ℕ → Bool) (offset : ℕ) : t.Fits (t.read f offset) :=
  wrap_fits h _

theorem FieldType.Fits.int64 (h : t.Ok) (hx : t.Fits x) : -2^63 ≤ x ∧ x < 2^63 := by
  obtain ⟨-, -, hhalf⟩ := width_powers h.1 h.le
  cases hs : t.sign with
  | true =>
    rw [Fits, lo, hi, if_pos hs, if_pos hs] at hx
    omega
  | false =>
    have hn : ¬t.sign = true := by
      rw [hs]
      exact Bool.false_ne_true
    have hle := h.2
    rw [if_neg hn] at hle
    have hpow : (2:ℤ)^t.bits ≤ 2^63 := pow_le_pow_right₀ (by norm_num) hle
    rw [Fits, lo, hi, if_neg hn, if_neg hn] at hx
    omega

theorem Subcommand.Ok.accepted {c : Subcommand} (h : c.Ok) : c.Accepted := by
  cases c with
  | set t o v => exact ⟨h.1, h.2.1, h.2.2.int64 h.1⟩
  | get t o => exact h
  | incrby t o i => exact h
  | overflow owtype => exact h

theorem execGet_copy (p : Bytes) (byte : ℕ) {m : ℕ} (hm : m < 72) :
    bitsOf (copyForGet p byte) m = bitsOf p (byte*8+m) := by
  have hbyte : (copyForGet p byte).getD (m/8) 0 = p.getD (byte+m/8) 0 := by
    rw [copyForGet, List.getD_eq_getElem?_getD, List.getD_eq_getElem?_getD, List.getElem?_append]
    by_cases hin : m/8 < ((p.drop byte).take 9).length
    · rw [if_pos hin, List.getElem?_take_of_lt (by omega), List.getElem?_drop]
    · have hend : p.length ≤ byte+m/8 := by
        rw [List.length_take, List.length_drop] at hin
        omega
      rw [if_neg hin, List.getElem?_eq_none hend, List.getElem?_replicate]
      split <;> rfl
  have hdiv : (byte*8+m)/8 = byte+m/8 := by omega
  have hmod : (byte*8+m)%8 = m%8 := by omega
  rw [bitsOf, bitsOf, hbyte, hdiv, hmod]

theorem copyForGet_length (p : Bytes) (byte : ℕ) : (copyForGet p byte).length = 9 := by
  rw [copyForGet, List.length_append, List.length_replicate, List.length_take]
  omega

theorem execGet_eq (h : t.Ok) (offset : ℕ) (i : ℤ) (op : Opcode) (p : Bytes) :
    execGet p { offset := offset, i64 := i, opcode := op, owtype := owtype, type := t } =
      some (t.read (bitsOf p) offset) := by
  have hbits := h.le
  have hrest : offset-offset >>> 3*8 = offset%8 := by
    rw [byte_index]
    omega
  have hin : offset%8+t.bits ≤ 8*(copyForGet p (offset >>> 3)).length := by
    rw [copyForGet_length]
    omega
  have hread : readField (bitsOf (copyForGet p (offset >>> 3))) (offset%8) t.bits =
      readField (bitsOf p) offset t.bits := by
    apply Nat.eq_of_testBit_eq
    intro j
    rw [readField_testBit, readField_testBit]
    by_cases hj : j < t.bits
    · rw [execGet_copy p _ (by omega), byte_index]
      congr 2
      omega
    · rw [decide_eq_false hj, Bool.false_and, Bool.false_and]
  rw [execGet]
  dsimp only
  rw [hrest]
  cases hs : t.sign with
  | true =>
    rw [if_pos rfl, getSignedBitfield_eq hin h.1 hbits, hread, FieldType.read_signed hs]
  | false =>
    have hfits := (FieldType.read_fits h (bitsOf p) offset).int64 h
    rw [FieldType.read_unsigned hs] at hfits
    rw [if_neg Bool.false_ne_true, getUnsignedBitfield_eq hin hbits, hread,
      FieldType.read_unsigned hs]
    dsimp only [Option.bind_eq_bind, Option.bind_some]
    rw [toLong_of_fits hfits.1 hfits.2]
    rfl

theorem write_eq (h : t.Ok) (hin : offset+t.bits ≤ 8*p.length) (x : ℤ) :
    ∃ p', setSignedBitfield p offset t.bits x = some p' ∧ p'.length = p.length ∧
      bitsOf p' = t.write (bitsOf p) offset x :=
  setSignedBitfield_eq hin h.le x

theorem execWrite_signed {op : Opcode} {old newval retval : ℤ} {overflow : Bool} (h : t.Ok)
    (hs : t.sign = true) (hin : offset+t.bits ≤ 8*p.length) (hold : t.read (bitsOf p) offset = old)
    (hcomp : computeSigned { offset := offset, i64 := i, opcode := op, owtype := owtype, type := t }
      old = (newval, overflow, retval)) :
    ∃ p', execWrite p { offset := offset, i64 := i, opcode := op, owtype := owtype, type := t } =
        some (if overflow && owtype == .fail then (none, p) else (some retval, p')) ∧
      p'.length = p.length ∧ bitsOf p' = t.write (bitsOf p) offset newval := by
  obtain ⟨p', hset, hlen, heq⟩ := write_eq h hin newval
  refine ⟨p', ?_, hlen, heq⟩
  rw [FieldType.read_signed hs] at hold
  rw [execWrite]
  dsimp only
  rw [if_pos hs, getSignedBitfield_eq hin h.1 h.le, hold]
  dsimp only [Option.bind_eq_bind, Option.bind_some]
  rw [hcomp]
  dsimp only
  rw [hset]
  split <;> rfl

theorem execWrite_unsigned {op : Opcode} {old newval retval : ℕ} {overflow : Bool} (h : t.Ok)
    (hs : t.sign = false) (hin : offset+t.bits ≤ 8*p.length)
    (hold : t.read (bitsOf p) offset = old)
    (hcomp : computeUnsigned { offset := offset, i64 := i, opcode := op, owtype := owtype, type := t }
      old = (newval, overflow, retval)) :
    ∃ p', execWrite p { offset := offset, i64 := i, opcode := op, owtype := owtype, type := t } =
        some (if overflow && owtype == .fail then (none, p) else (some (toLong retval), p')) ∧
      p'.length = p.length ∧ bitsOf p' = t.write (bitsOf p) offset newval := by
  have hn : ¬t.sign = true := by
    rw [hs]
    exact Bool.false_ne_true
  have hread : readField (bitsOf p) offset t.bits = old := by
    rw [FieldType.read_unsigned hs] at hold
    exact_mod_cast hold
  obtain ⟨p', hset, hlen, heq⟩ := setUnsignedBitfield_eq t.bits newval hin
  refine ⟨p', ?_, hlen, ?_⟩
  · rw [execWrite]
    dsimp only
    rw [if_neg hn, getUnsignedBitfield_eq hin h.le, hread]
    dsimp only [Option.bind_eq_bind, Option.bind_some]
    rw [hcomp]
    dsimp only
    rw [hset]
    split <;> rfl
  · rw [heq, FieldType.write]
    apply writeField_congr
    have hcast : ((newval : ℤ)%2^t.bits).toNat = newval%2^t.bits := by
      rw [← Int.toNat_natCast (newval%2^t.bits)]
      push_cast
      rfl
    rw [hcast, Nat.mod_mod]

namespace FieldType

theorem fits_signed (hs : t.sign = true) :
    t.Fits x ↔ -2^(t.bits-1) ≤ x ∧ x ≤ 2^(t.bits-1)-1 := by
  rw [Fits, lo, hi, if_pos hs, if_pos hs]

theorem fits_unsigned (hs : t.sign = false) : t.Fits x ↔ 0 ≤ x ∧ x ≤ 2^t.bits-1 := by
  have hn : ¬t.sign = true := by
    rw [hs]
    exact Bool.false_ne_true
  rw [Fits, lo, hi, if_neg hn, if_neg hn]

theorem Ok.unsigned (h : t.Ok) (hs : t.sign = false) : t.bits ≤ 63 := by
  have hle := h.2
  rwa [hs, if_neg Bool.false_ne_true] at hle

theorem Ok.lo_le_hi (h : t.Ok) : t.lo ≤ t.hi := by
  obtain ⟨hpow, hone, -⟩ := width_powers h.1 h.le
  rw [lo, hi]
  split <;> omega

theorem clamp_above (h : t.Ok) (hx : t.hi < x) : t.clamp x = t.hi := by
  rw [clamp, min_eq_right hx.le, max_eq_right h.lo_le_hi]

theorem clamp_below (h : t.Ok) (hx : x < t.lo) : t.clamp x = t.lo := by
  have hle := h.lo_le_hi
  rw [clamp, min_eq_left (by omega), max_eq_left hx.le]

theorem result_fits (h : t.Ok) {z : ℤ} (hz : t.result owtype x = some z) : t.Fits z := by
  have hle := h.lo_le_hi
  unfold result at hz
  by_cases hx : t.Fits x
  · rw [if_pos hx] at hz
    cases hz
    exact hx
  · rw [if_neg hx] at hz
    cases owtype with
    | wrap =>
      cases hz
      exact wrap_fits h x
    | sat =>
      cases hz
      exact ⟨le_max_left _ _, max_le hle (min_le_right _ _)⟩
    | fail => cases hz

end FieldType

structure Outcome (t : FieldType) (owtype : Owtype) (x y : ℤ) (overflow : Bool) : Prop where
  flag : overflow = true ↔ ¬t.Fits x
  value : ∀ z, t.result owtype x = some z → y = z

theorem Outcome.result {y : ℤ} {overflow : Bool} (h : Outcome t owtype x y overflow) :
    t.result owtype x = if overflow && owtype == .fail then none else some y := by
  have hres : t.result owtype x = none ↔ ¬t.Fits x ∧ owtype = .fail := by
    unfold FieldType.result
    by_cases hfits : t.Fits x
    · simp [hfits]
    · cases owtype <;> simp [hfits]
  cases hr : t.result owtype x with
  | none =>
    obtain ⟨hfits, rfl⟩ := hres.mp hr
    rw [h.flag.mpr hfits]
    rfl
  | some z =>
    have hok : ¬(overflow && owtype == .fail) = true := by
      intro hfail
      rw [Bool.and_eq_true, beq_iff_eq, h.flag] at hfail
      rw [hres.mpr hfail] at hr
      cases hr
    rw [if_neg hok, h.value z hr]

theorem outcome_inside (hx : t.Fits x) : Outcome t owtype x x false := by
  constructor
  · simp [hx]
  · intro z hz
    unfold FieldType.result at hz
    rw [if_pos hx] at hz
    exact Option.some.inj hz

theorem outcome_outside {y : ℤ} (hx : ¬t.Fits x) (hwrap : owtype = .wrap → y = t.wrap x)
    (hsat : owtype = .sat → y = t.clamp x) : Outcome t owtype x y true := by
  constructor
  · simp [hx]
  · intro z hz
    unfold FieldType.result at hz
    rw [if_neg hx] at hz
    cases owtype with
    | wrap => exact (hwrap rfl).trans (Option.some.inj hz)
    | sat => exact (hsat rfl).trans (Option.some.inj hz)
    | fail => cases hz

theorem computeSigned_incrby (h : t.Ok) (hs : t.sign = true) (hx : t.Fits x) (hlo : -2^63 ≤ i)
    (hhi : i < 2^63) : ∃ y overflow, computeSigned
        { offset := offset, i64 := i, opcode := .incrby, owtype := owtype, type := t } x =
          (y, overflow, y) ∧ Outcome t owtype (x+i) y overflow := by
  have hrange := (FieldType.fits_signed hs).mp hx
  have hcheck := checkSigned_incr h.1 h.le hrange.1 hrange.2 hlo hhi owtype
  have hfits := FieldType.fits_signed (x := x+i) hs
  have hmin : t.lo = -2^(t.bits-1) := if_pos hs
  have hmax : t.hi = 2^(t.bits-1)-1 := if_pos hs
  have hwrap : t.wrap (x+i) = (x+i).bmod (2^t.bits) := if_pos hs
  rw [computeSigned]
  dsimp only
  rw [hcheck]
  by_cases hover : 2^(t.bits-1)-1 < x+i
  · rw [if_pos hover]
    have hout : ¬t.Fits (x+i) := fun hin => by have := hfits.mp hin; omega
    refine ⟨_, _, rfl, outcome_outside hout ?_ ?_⟩
    · rintro rfl
      rw [hwrap]
      rfl
    · rintro rfl
      rw [FieldType.clamp_above h (by omega), hmax]
      rfl
  · rw [if_neg hover]
    by_cases hunder : x+i < -2^(t.bits-1)
    · have hout : ¬t.Fits (x+i) := fun hin => by have := hfits.mp hin; omega
      rw [if_pos hunder]
      cases owtype with
      | wrap => exact ⟨_, _, rfl, outcome_outside hout (fun _ => hwrap.symm) nofun⟩
      | sat =>
        have hclamp := (FieldType.clamp_below h (x := x+i) (by omega)).trans hmin
        exact ⟨_, _, rfl, outcome_outside hout nofun (fun _ => hclamp.symm)⟩
      | fail => exact ⟨_, _, rfl, outcome_outside hout nofun nofun⟩
    · have hin := hfits.mpr (by omega)
      have hint := hin.int64 h
      rw [if_neg hunder, toLong_of_fits hint.1 hint.2]
      exact ⟨_, _, rfl, outcome_inside hin⟩

theorem computeUnsigned_incrby {v : ℕ} (h : t.Ok) (hs : t.sign = false) (hv : t.Fits v)
    (hlo : -2^63 ≤ i) (hhi : i < 2^63) : ∃ y overflow, computeUnsigned
        { offset := offset, i64 := i, opcode := .incrby, owtype := owtype, type := t } v =
          (y, overflow, y) ∧ Outcome t owtype (v+i) y overflow := by
  have hrange := (FieldType.fits_unsigned hs).mp hv
  have hlt : v < 2^t.bits := by
    zify
    omega
  have hpow : (2:ℤ)^t.bits ≤ 2^63 := pow_le_pow_right₀ (by norm_num) (h.unsigned hs)
  have hcheck := checkUnsigned_incr (h.unsigned hs) hlt hlo hhi owtype
  have hfits := FieldType.fits_unsigned (x := (v : ℤ)+i) hs
  have hn : ¬t.sign = true := by
    rw [hs]
    exact Bool.false_ne_true
  have hmin : t.lo = 0 := if_neg hn
  have hmax : t.hi = 2^t.bits-1 := if_neg hn
  have hwrap : ((((v : ℤ)+i)%2^t.bits).toNat : ℤ) = t.wrap (v+i) := by
    rw [FieldType.wrap, if_neg hn, Int.toNat_of_nonneg (Int.emod_nonneg _ (by positivity))]
  rw [computeUnsigned]
  dsimp only
  rw [hcheck]
  by_cases hover : 2^t.bits-1 < (v : ℤ)+i
  · rw [if_pos hover]
    have hout : ¬t.Fits ((v : ℤ)+i) := fun hin => by have := hfits.mp hin; omega
    refine ⟨_, _, rfl, outcome_outside hout ?_ ?_⟩
    · rintro rfl
      exact hwrap
    · rintro rfl
      rw [FieldType.clamp_above h (by omega), hmax]
      change ((2^t.bits-1 : ℕ) : ℤ) = _
      have hle := Nat.one_le_two_pow (n := t.bits)
      push_cast [hle]
      ring
  · rw [if_neg hover]
    by_cases hunder : (v : ℤ)+i < 0
    · have hout : ¬t.Fits ((v : ℤ)+i) := fun hin => by have := hfits.mp hin; omega
      rw [if_pos hunder]
      cases owtype with
      | wrap => exact ⟨_, _, rfl, outcome_outside hout (fun _ => hwrap) nofun⟩
      | sat =>
        have hclamp := (FieldType.clamp_below h (x := (v : ℤ)+i) (by omega)).trans hmin
        exact ⟨_, _, rfl, outcome_outside hout nofun (fun _ => hclamp.symm)⟩
      | fail => exact ⟨_, _, rfl, outcome_outside hout nofun nofun⟩
    · have hin := hfits.mpr (by omega)
      have hcast : (((v : ℤ)+i).toNat : ℤ) = v+i := Int.toNat_of_nonneg (by omega)
      have hinside : Outcome t owtype ((v : ℤ)+i) (((v : ℤ)+i).toNat : ℤ) false := by
        rw [hcast]
        exact outcome_inside hin
      rw [if_neg hunder, toUnsigned_of_range (by omega) (by omega)]
      exact ⟨_, _, rfl, hinside⟩

theorem execSet_eq (h : t.Ok) (hin : offset+t.bits ≤ 8*p.length) (hx : t.Fits x) :
    ∃ p', execWrite p { offset := offset, i64 := x, opcode := .set, owtype := owtype, type := t } =
        some (some (t.read (bitsOf p) offset), p') ∧
      p'.length = p.length ∧ bitsOf p' = t.write (bitsOf p) offset x := by
  have hold := FieldType.read_fits h (bitsOf p) offset
  cases hs : t.sign with
  | true =>
    have hrange := (FieldType.fits_signed hs).mp hx
    have hcheck := @checkSigned_incr _ _ 0 h.1 h.le hrange.1 hrange.2 (by norm_num)
      (by norm_num) owtype
    rw [Int.add_zero, if_neg (by omega), if_neg (by omega)] at hcheck
    apply @execWrite_signed _ _ _ _ _ _ _ _ _ false h hs hin rfl
    rw [computeSigned]
    dsimp only
    rw [hcheck]
    rfl
  | false =>
    have hpow : (2:ℤ)^t.bits ≤ 2^63 := pow_le_pow_right₀ (by norm_num) (h.unsigned hs)
    have hrange := (FieldType.fits_unsigned hs).mp hx
    have hlt : x.toNat < 2^t.bits := by
      zify
      omega
    have hcast : (x.toNat : ℤ) = x := Int.toNat_of_nonneg hrange.1
    have hcheck := @checkUnsigned_incr _ _ 0 (h.unsigned hs) hlt (by norm_num) (by norm_num)
      owtype
    rw [Int.add_zero, if_neg (by omega), if_neg (by omega)] at hcheck
    have hread := hold.int64 h
    rw [FieldType.read_unsigned hs] at hread
    have hwrite := @execWrite_unsigned _ _ _ owtype x .set _ x.toNat _ false h hs hin
      (FieldType.read_unsigned hs)
      (by
        rw [computeUnsigned]
        dsimp only
        rw [toUnsigned_of_range hrange.1 (by omega), hcheck]
        rfl)
    rw [hcast, toLong_of_fits hread.1 hread.2] at hwrite
    rw [FieldType.read_unsigned hs]
    exact hwrite

theorem execIncrby_eq (h : t.Ok) (hin : offset+t.bits ≤ 8*p.length) (hlo : -2^63 ≤ i)
    (hhi : i < 2^63) :
    ∃ p', execWrite p { offset := offset, i64 := i, opcode := .incrby, owtype := owtype, type := t } =
        some (t.result owtype (t.read (bitsOf p) offset+i), p') ∧
      p'.length = p.length ∧ bitsOf p' =
        match t.result owtype (t.read (bitsOf p) offset+i) with
        | none => bitsOf p
        | some y => t.write (bitsOf p) offset y := by
  have hold := FieldType.read_fits h (bitsOf p) offset
  generalize hx : t.read (bitsOf p) offset = x at hold
  -- from the number that the computation gives to what the command does
  have hdone : ∀ {y : ℤ} {overflow : Bool} {reply : ℤ} {p' : Bytes},
      execWrite p { offset := offset, i64 := i, opcode := .incrby, owtype := owtype, type := t } =
        some (if overflow && owtype == .fail then (none, p) else (some reply, p')) →
      p'.length = p.length → bitsOf p' = t.write (bitsOf p) offset y →
      Outcome t owtype (x+i) y overflow →
      (∀ z, t.result owtype (x+i) = some z → reply = z) →
      ∃ p', execWrite p
          { offset := offset, i64 := i, opcode := .incrby, owtype := owtype, type := t } =
          some (t.result owtype (x+i), p') ∧
        p'.length = p.length ∧ bitsOf p' =
          match t.result owtype (x+i) with
          | none => bitsOf p
          | some y => t.write (bitsOf p) offset y := by
    intro y overflow reply p' hrun hlen hbits hout hreply
    have hres := hout.result
    cases hfail : (overflow && owtype == .fail) with
    | true =>
      rw [hfail, if_pos rfl] at hrun hres
      rw [hres]
      exact ⟨p, hrun, rfl, rfl⟩
    | false =>
      rw [hfail, if_neg Bool.false_ne_true] at hrun hres
      rw [hreply y hres] at hrun
      rw [hres]
      exact ⟨p', hrun, hlen, hbits⟩
  cases hs : t.sign with
  | true =>
    obtain ⟨y, overflow, hcomp, hout⟩ := computeSigned_incrby h hs hold hlo hhi
    obtain ⟨p', hrun, hlen, hbits⟩ := execWrite_signed h hs hin hx hcomp
    exact hdone hrun hlen hbits hout hout.value
  | false =>
    obtain ⟨v, rfl⟩ := Int.eq_ofNat_of_zero_le ((FieldType.fits_unsigned hs).mp hold).1
    obtain ⟨y, overflow, hcomp, hout⟩ := computeUnsigned_incrby h hs hold hlo hhi
    obtain ⟨p', hrun, hlen, hbits⟩ := execWrite_unsigned h hs hin hx hcomp
    apply hdone hrun hlen hbits hout
    intro z hz
    have hint := (FieldType.result_fits h hz).int64 h
    rw [hout.value z hz, toLong_of_fits hint.1 hint.2]

end RedisCore.Bit
