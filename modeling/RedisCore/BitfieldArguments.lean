import RedisCore.BitfieldModel
import RedisCore.AofFormat

namespace RedisCore.Bit

variable {o : Bytes} {bits : ℕ} {m : ℕ}

def DesignatesBit (o : Bytes) (hash : Bool) (bits m : ℕ) : Prop :=
  (∃ N : ℕ, o = decimal N ∧ m = N) ∨ (hash = true ∧ ∃ N : ℕ, o = 35 :: decimal N ∧ m = N*bits)

def ParsesOffset (o : Bytes) (hash : Bool) (bits : ℕ) : Prop :=
  ∀ m : ℕ, getBitOffsetFromArgument o hash bits = .ok m ↔
    DesignatesBit o hash bits m ∧ m/8 < 512*1024*1024

/-- The product of a hash form is not below `2^32` and is congruent to such a number. -/
def OffsetWraps (o : Bytes) (hash : Bool) (bits : ℕ) : Prop :=
  hash = true ∧ ∃ N : ℤ, o = 35 :: decimal N ∧ -2^63 ≤ N ∧ N < 2^63 ∧
    (N*bits < 0 ∨ 2^32 ≤ N*bits) ∧ N*bits%2^64 < 2^32

theorem decimal_injective {v w : ℤ} (h : decimal v = decimal w) (hlo : -2^63 ≤ v) (hhi : v < 2^63)
    (hlo' : -2^63 ≤ w) (hhi' : w < 2^63) : v = w := by
  have hv := string2ll_decimal hlo hhi
  rw [h, string2ll_decimal hlo' hhi'] at hv
  exact (Option.some.inj hv).symm

theorem decimal_ne_hash (v : ℤ) (s : Bytes) : decimal v ≠ 35 :: s := by
  intro h
  by_cases hneg : v < 0
  · rw [decimal, if_pos hneg, List.cons.injEq] at h
    exact absurd h.1 (by decide)
  · rw [decimal, if_neg hneg] at h
    have hdigit := Aof.decimalNat_isDigit v.natAbs 35 (by rw [h]; exact List.mem_cons_self)
    exact absurd hdigit (by decide)

theorem lt_limit_iff (n : ℤ) : (n < 0 ∨ n.toNat >>> 3 ≥ 512*1024*1024) ↔ ¬(0 ≤ n ∧ n < 2^32) := by
  rw [Nat.shiftRight_eq_div_pow]
  omega

theorem toLong_in_range_iff (n : ℤ) : (0 ≤ toLong n ∧ toLong n < 2^32) ↔ n%2^64 < 2^32 := by
  unfold toLong
  rw [Int.bmod_def]
  omega

theorem offset_plain (hn : ∀ s, o ≠ 35 :: s) (hash : Bool) (m : ℕ) :
    getBitOffsetFromArgument o hash bits = .ok m ↔ o = decimal m ∧ m < 2^32 := by
  have hfirst : (o[0]? == some (35 : UInt8)) = false := by
    cases o with
    | nil => rfl
    | cons c s =>
      rw [beq_eq_false_iff_ne]
      intro heq
      exact hn s (by rw [Option.some.inj heq])
  rw [getBitOffsetFromArgument, hfirst]
  simp only [Bool.false_and, Bool.false_eq_true, if_false]
  cases hs : string2ll o with
  | none =>
    constructor
    · intro h
      cases h
    · intro h
      have hdec := string2ll_decimal (v := m) (by omega) (by omega)
      rw [← h.1, hs] at hdec
      cases hdec
  | some v =>
    obtain ⟨hdec, hlo, hhi⟩ := string2ll_some hs
    dsimp only
    simp only [lt_limit_iff]
    by_cases hin : 0 ≤ v ∧ v < 2^32
    · rw [if_neg (not_not.mpr hin)]
      constructor
      · intro h
        have hm : v.toNat = m := Except.ok.inj h
        refine ⟨?_, by omega⟩
        rw [← hdec]
        congr 1
        omega
      · intro h
        have hv : v = m := decimal_injective (hdec.trans h.1) hlo hhi (by omega) (by omega)
        rw [hv, Int.toNat_natCast]
    · rw [if_pos hin]
      constructor
      · intro h
        cases h
      · intro h
        have hv : v = m := decimal_injective (hdec.trans h.1) hlo hhi (by omega) (by omega)
        exact absurd ⟨by omega, by omega⟩ hin

theorem offset_hash (hbits : 0 < bits) (s : Bytes) (m : ℕ) :
    getBitOffsetFromArgument (35 :: s) true bits = .ok m ↔
      ∃ N : ℤ, s = decimal N ∧ -2^63 ≤ N ∧ N < 2^63 ∧ N*bits%2^64 < 2^32 ∧
        m = (N*bits%2^64).toNat := by
  have huse : ((35 :: s : Bytes)[0]? == some (35 : UInt8) && true && decide ((bits : ℤ) > 0)) =
      true := by
    rw [decide_eq_true (by omega)]
    rfl
  rw [getBitOffsetFromArgument, huse]
  simp only [if_true, List.drop_succ_cons, List.drop_zero]
  cases hs : string2ll s with
  | none =>
    constructor
    · intro h
      cases h
    · rintro ⟨N, hN, hlo, hhi, -⟩
      rw [hN, string2ll_decimal hlo hhi] at hs
      cases hs
  | some v =>
    obtain ⟨hdec, hlo, hhi⟩ := string2ll_some hs
    dsimp only
    simp only [lt_limit_iff, toLong_in_range_iff]
    by_cases hin : v*bits%2^64 < 2^32
    · have hval : (toLong (v*bits)).toNat = (v*bits%2^64).toNat := by
        unfold toLong
        rw [Int.bmod_def]
        omega
      rw [if_neg (not_not.mpr hin)]
      constructor
      · intro h
        exact ⟨v, hdec.symm, hlo, hhi, hin, (Except.ok.inj h).symm.trans hval⟩
      · rintro ⟨N, hN, hlo', hhi', -, hm⟩
        have hv : v = N := decimal_injective (hdec.trans hN) hlo hhi hlo' hhi'
        rw [hval, hv, hm]
    · rw [if_pos hin]
      constructor
      · intro h
        cases h
      · rintro ⟨N, hN, hlo', hhi', hin', -⟩
        have hv : v = N := decimal_injective (hdec.trans hN) hlo hhi hlo' hhi'
        rw [hv] at hin
        exact absurd hin' hin

theorem designates_plain (hn : ∀ s, o ≠ 35 :: s) (hash : Bool) :
    DesignatesBit o hash bits m ↔ o = decimal m := by
  constructor
  · rintro (⟨N, hN, rfl⟩ | ⟨-, N, hN, -⟩)
    · exact hN
    · exact absurd hN (hn _)
  · intro h
    exact Or.inl ⟨m, h, rfl⟩

/-- Only a product that wraps around back into the range is read wrong. -/
theorem getBitOffset_exact_iff (o : Bytes) (hash : Bool) (bits : ℕ) (hlo : 1 ≤ bits)
    (hhi : bits ≤ 64) : ParsesOffset o hash bits ↔ ¬OffsetWraps o hash bits := by
  by_cases hform : ∃ s, o = 35 :: s
  · obtain ⟨s, rfl⟩ := hform
    cases hash with
    | false =>
      have hreject : getBitOffsetFromArgument (35 :: s) false bits = .error bitOffsetError := by
        have hs : string2ll (35 :: s) = none := by
          cases hs : string2ll (35 :: s) with
          | none => rfl
          | some v => exact absurd (string2ll_some hs).1 (decimal_ne_hash v s)
        rw [getBitOffsetFromArgument]
        simp only [Bool.and_false, Bool.false_and, Bool.false_eq_true, if_false]
        rw [hs]
      constructor
      · intro _ hwrap
        exact absurd hwrap.1 Bool.false_ne_true
      · intro _ m
        rw [hreject]
        constructor
        · intro h
          cases h
        · rintro ⟨⟨N, hN, -⟩ | ⟨hfalse, -⟩, -⟩
          · exact absurd hN.symm (decimal_ne_hash N s)
          · exact absurd hfalse Bool.false_ne_true
    | true =>
      constructor
      · rintro hparse ⟨-, N, hN, hNlo, hNhi, hout, hcong⟩
        have hs : s = decimal N := (List.cons.inj hN).2
        have hok := (offset_hash (by omega) s (N*bits%2^64).toNat).mpr
          ⟨N, hs, hNlo, hNhi, hcong, rfl⟩
        obtain ⟨hdes, hlt⟩ := (hparse _).mp hok
        rcases hdes with ⟨M, hM, -⟩ | ⟨-, M, hM, hprod⟩
        · exact absurd hM.symm (decimal_ne_hash M s)
        · -- the number read is below the exact one
          have hbits : (M : ℤ)*1 ≤ M*bits := by
            apply Int.mul_le_mul_of_nonneg_left <;> omega
          have hMcast : (((N*bits%2^64).toNat : ℕ) : ℤ) = M*bits := by
            rw [hprod, Nat.cast_mul]
          have hMN : (M : ℤ) = N := by
            apply decimal_injective _ (by omega) (by omega) hNlo hNhi
            rw [← hs]
            exact ((List.cons.inj hM).2).symm
          rw [hMN] at hMcast
          omega
      · intro hno m
        rw [offset_hash (by omega)]
        constructor
        · rintro ⟨N, rfl, hNlo, hNhi, hcong, rfl⟩
          have hexact : 0 ≤ N*bits ∧ N*bits < 2^32 := by
            by_contra hout
            exact hno ⟨rfl, N, rfl, hNlo, hNhi, by omega, hcong⟩
          have hN : 0 ≤ N := by
            by_contra hneg
            have hprod : N*bits < 0 := Int.mul_neg_of_neg_of_pos (by omega) (by omega)
            omega
          obtain ⟨M, rfl⟩ := Int.eq_ofNat_of_zero_le hN
          have hmod : (M : ℤ)*bits%2^64 = M*bits := Int.emod_eq_of_lt hexact.1 (by omega)
          rw [hmod]
          refine ⟨Or.inr ⟨rfl, M, rfl, ?_⟩, ?_⟩
          · rw [← Nat.cast_mul, Int.toNat_natCast]
          · omega
        · rintro ⟨⟨N, hN, -⟩ | ⟨-, N, hN, rfl⟩, hlt⟩
          · exact absurd hN.symm (decimal_ne_hash N s)
          · have hle : N*1 ≤ N*bits := Nat.mul_le_mul_left N hlo
            have hcast : ((N*bits : ℕ) : ℤ) = (N : ℤ)*bits := Nat.cast_mul N bits
            have hmod : (N : ℤ)*bits%2^64 = ((N*bits : ℕ) : ℤ) := by
              rw [← hcast]
              omega
            refine ⟨N, (List.cons.inj hN).2, by omega, by omega, ?_, ?_⟩
            · rw [hmod]
              omega
            · rw [hmod, Int.toNat_natCast]
  · have hn : ∀ s, o ≠ 35 :: s := fun s hs => hform ⟨s, hs⟩
    constructor
    · rintro - ⟨-, N, hN, -⟩
      exact hn _ hN
    · intro _ m
      rw [offset_plain hn, designates_plain hn]
      constructor
      · intro h
        exact ⟨h.1, by omega⟩
      · intro h
        exact ⟨h.1, by omega⟩

theorem getBitOffset_exact_iff_i64 :
    ParsesOffset (text "#2") true 64 ↔ ¬OffsetWraps (text "#2") true 64 :=
  getBitOffset_exact_iff (text "#2") true 64 (by decide) (by decide)

/-- The field number `2^58` of 64 bits is read as bit 0. -/
theorem offset_wraps_to_zero : ¬ParsesOffset (text "#288230376151711744") true 64 := by
  intro hparse
  have hok : getBitOffsetFromArgument (text "#288230376151711744") true (64 : ℕ) = .ok 0 := by
    decide
  rcases ((hparse 0).mp hok).1 with ⟨N, hN, -⟩ | ⟨-, N, hN, hzero⟩
  · exact decimal_ne_hash N _ hN.symm
  · obtain rfl : N = 0 := by omega
    exact absurd hN (by decide +kernel)

end RedisCore.Bit
