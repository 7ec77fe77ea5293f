import Mathlib

/-! Integer fields of an array of bits, the first bit of a field being its highest one. -/

namespace RedisCore

def readField (f : ℕ → Bool) (offset bits : ℕ) : ℕ :=
  Nat.ofBits (fun j : Fin bits => f (offset+(bits-1-j)))

def writeField (f : ℕ → Bool) (offset bits v : ℕ) : ℕ → Bool :=
  fun m => if offset ≤ m ∧ m < offset+bits then v.testBit (bits-1-(m-offset)) else f m

variable {f g : ℕ → Bool} {offset bits v : ℕ}

theorem readField_testBit (f : ℕ → Bool) (offset bits i : ℕ) :
    (readField f offset bits).testBit i = (decide (i < bits) && f (offset+(bits-1-i))) := by
  rw [readField, Nat.testBit_ofBits]
  by_cases hi : i < bits
  · rw [dif_pos hi, decide_eq_true hi, Bool.true_and]
  · rw [dif_neg hi, decide_eq_false hi, Bool.false_and]

theorem readField_lt (f : ℕ → Bool) (offset bits : ℕ) : readField f offset bits < 2^bits :=
  Nat.ofBits_lt_two_pow _

@[simp] theorem readField_zero (f : ℕ → Bool) (offset : ℕ) : readField f offset 0 = 0 := rfl

theorem readField_succ (f : ℕ → Bool) (offset bits : ℕ) :
    readField f offset (bits+1) = 2^bits*(f offset).toNat+readField f (offset+1) bits := by
  apply Nat.eq_of_testBit_eq
  intro i
  have hlt := readField_lt f (offset+1) bits
  rw [Nat.testBit_two_pow_mul_add _ hlt, readField_testBit, readField_testBit]
  rcases lt_trichotomy i bits with hi | rfl | hi
  · rw [if_pos hi, decide_eq_true hi, decide_eq_true (by omega), Bool.true_and, Bool.true_and]
    congr 1
    omega
  · have hfirst : offset+(i+1-1-i) = offset := by omega
    rw [if_neg (lt_irrefl i), decide_eq_true (by omega), Bool.true_and, Nat.sub_self,
      Nat.testBit_zero, hfirst]
    cases f offset <;> rfl
  · rw [if_neg (by omega), decide_eq_false (by omega), Bool.false_and]
    symm
    apply Nat.testBit_lt_two_pow
    have hbit := Bool.toNat_lt (f offset)
    have hpow : 2 ≤ 2^(i-bits) := by
      calc 2 = 2^1 := rfl
        _ ≤ 2^(i-bits) := Nat.pow_le_pow_right (by omega) (by omega)
    omega

theorem readField_writeField (f : ℕ → Bool) (offset bits v : ℕ) :
    readField (writeField f offset bits v) offset bits = v%2^bits := by
  apply Nat.eq_of_testBit_eq
  intro i
  rw [readField_testBit, Nat.testBit_mod_two_pow]
  by_cases hi : i < bits
  · rw [writeField, if_pos ⟨by omega, by omega⟩]
    congr 2
    omega
  · rw [decide_eq_false hi, Bool.false_and, Bool.false_and]

theorem writeField_succ (f : ℕ → Bool) (offset bits v : ℕ) :
    writeField f offset (bits+1) v =
      writeField (fun m => if m = offset then v.testBit bits else f m) (offset+1) bits v := by
  funext m
  rw [writeField, writeField]
  by_cases hm : m = offset
  · subst hm
    rw [if_pos ⟨le_rfl, by omega⟩, if_neg (by omega), if_pos rfl]
    congr 1
    omega
  · by_cases hin : offset ≤ m ∧ m < offset+(bits+1)
    · rw [if_pos hin, if_pos ⟨by omega, by omega⟩]
      congr 1
      omega
    · rw [if_neg hin, if_neg (by omega), if_neg hm]

@[simp] theorem writeField_zero (f : ℕ → Bool) (offset v : ℕ) : writeField f offset 0 v = f := by
  funext m
  rw [writeField, if_neg (by omega)]

theorem writeField_congr {w : ℕ} (h : v%2^bits = w%2^bits) :
    writeField f offset bits v = writeField f offset bits w := by
  funext m
  rw [writeField, writeField]
  split
  · rename_i hm
    have hv := Nat.testBit_mod_two_pow v bits (bits-1-(m-offset))
    have hw := Nat.testBit_mod_two_pow w bits (bits-1-(m-offset))
    rw [decide_eq_true (by omega), Bool.true_and] at hv hw
    rw [← hv, ← hw, h]
  · rfl

def signExtend (w bits v : ℕ) : ℕ :=
  if v.testBit (bits-1) then v ||| (2^w-2^bits) else v &&& (2^bits-1)

theorem two_pow_sub_testBit {w : ℕ} (h : bits ≤ w) (i : ℕ) :
    (2^w-2^bits).testBit i = (decide (bits ≤ i) && decide (i < w)) := by
  have hpow : 2^w = 2^bits*2^(w-bits) := by
    rw [← pow_add]
    congr 1
    omega
  rw [hpow, ← Nat.mul_sub_one, Nat.testBit_two_pow_mul, Nat.testBit_two_pow_sub_one]
  by_cases hi : bits ≤ i
  · rw [decide_eq_true hi, Bool.true_and, Bool.true_and]
    congr 1
    apply propext
    omega
  · rw [decide_eq_false hi, Bool.false_and, Bool.false_and]

theorem lor_two_pow_sub {w : ℕ} (h : bits ≤ w) (hv : v < 2^w) :
    v ||| (2^w-2^bits) = 2^w-2^bits+v%2^bits := by
  have hpow : 2^w-2^bits = 2^bits*(2^(w-bits)-1) := by
    rw [Nat.mul_sub_one, ← pow_add]
    congr 2
    omega
  have hmod : v%2^bits < 2^bits := Nat.mod_lt _ (by positivity)
  rw [hpow, Nat.two_pow_add_eq_or_of_lt hmod, ← hpow]
  apply Nat.eq_of_testBit_eq
  intro i
  rw [Nat.testBit_or, Nat.testBit_or, two_pow_sub_testBit h, Nat.testBit_mod_two_pow]
  by_cases hi : i < bits
  · rw [decide_eq_false (by omega), decide_eq_true hi, Bool.false_and, Bool.or_false,
      Bool.false_or, Bool.true_and]
  · rw [decide_eq_true (by omega), decide_eq_false hi, Bool.true_and, Bool.false_and,
      Bool.or_false]
    by_cases hw : i < w
    · rw [decide_eq_true hw, Bool.or_true]
    · have hhigh : v.testBit i = false := by
        apply Nat.testBit_lt_two_pow
        calc v < 2^w := hv
          _ ≤ 2^i := Nat.pow_le_pow_right (by omega) (by omega)
      rw [decide_eq_false hw, hhigh, Bool.or_false]

theorem testBit_sign_iff (hb : 0 < bits) (v : ℕ) :
    v.testBit (bits-1) = true ↔ 2^(bits-1) ≤ v%2^bits := by
  have hpow : 2^bits = 2^(bits-1)*2 := by
    rw [← pow_succ]
    congr 1
    omega
  have hsplit : v%2^bits = v%2^(bits-1)+2^(bits-1)*(v/2^(bits-1)%2) := by
    rw [hpow, Nat.mod_mul]
  have hlow : v%2^(bits-1) < 2^(bits-1) := Nat.mod_lt _ (by positivity)
  rw [Nat.testBit_eq_decide_div_mod_eq, decide_eq_true_eq, hsplit]
  rcases Nat.mod_two_eq_zero_or_one (v/2^(bits-1)) with hbit | hbit
  · rw [hbit]
    omega
  · rw [hbit]
    omega

theorem signExtend_bmod {w : ℕ} (hb : 0 < bits) (h : bits ≤ w) (hv : v < 2^w) :
    ((signExtend w bits v : ℕ) : ℤ).bmod (2^w) = (v : ℤ).bmod (2^bits) := by
  have hpow : 2^bits = 2^(bits-1)*2 := by
    rw [← pow_succ]
    congr 1
    omega
  have hwide : 2^w = 2^bits*2^(w-bits) := by
    rw [← pow_add]
    congr 1
    omega
  have hge : 2^bits ≤ 2^w := Nat.pow_le_pow_right (by omega) h
  have hmod : v%2^bits < 2^bits := Nat.mod_lt _ (by positivity)
  have hcong : ((signExtend w bits v : ℕ) : ℤ).bmod (2^w) =
      if v.testBit (bits-1) then ((v%2^bits : ℕ) : ℤ)-(2^bits : ℕ) else (v%2^bits : ℕ) := by
    rw [signExtend]
    by_cases hsign : v.testBit (bits-1) = true
    · rw [if_pos hsign, if_pos hsign, lor_two_pow_sub h hv]
      have hhalf := (testBit_sign_iff hb v).mp hsign
      have heq : ((2^w-2^bits+v%2^bits : ℕ) : ℤ) =
          ((v%2^bits : ℕ) : ℤ)-(2^bits : ℕ)+(2^w : ℕ) := by omega
      rw [heq, Int.add_bmod_right]
      apply Int.bmod_eq_of_le_mul_two <;> omega
    · rw [if_neg hsign, if_neg hsign, Nat.and_two_pow_sub_one_eq_mod]
      have hhalf : ¬2^(bits-1) ≤ v%2^bits := fun hle => hsign ((testBit_sign_iff hb v).mpr hle)
      apply Int.bmod_eq_of_le_mul_two <;> omega
  have hdiv : (v : ℤ).bmod (2^bits) = ((v%2^bits : ℕ) : ℤ).bmod (2^bits) := by
    rw [Int.natCast_mod, Int.emod_bmod]
  rw [hcong, hdiv]
  by_cases hsign : v.testBit (bits-1) = true
  · rw [if_pos hsign]
    have hhalf := (testBit_sign_iff hb v).mp hsign
    rw [← Int.sub_bmod_right]
    symm
    apply Int.bmod_eq_of_le_mul_two <;> omega
  · rw [if_neg hsign]
    have hhalf : ¬2^(bits-1) ≤ v%2^bits := fun hle => hsign ((testBit_sign_iff hb v).mpr hle)
    symm
    apply Int.bmod_eq_of_le_mul_two <;> omega

end RedisCore
