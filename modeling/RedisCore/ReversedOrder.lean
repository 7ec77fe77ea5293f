import Mathlib

/-! Words ordered by their reversed bits. -/

namespace RedisCore.ReversedOrder
open Nat (eq_of_testBit_eq pow_le_pow_right testBit_lt_two_pow testBit_mod_two_pow)

variable {w : ℕ}

def position (x : BitVec w) : ℕ := x.reverse.toNat

def lowMask (w b : ℕ) : BitVec w := BitVec.ofNat w (2^b-1)

theorem position_lt (x : BitVec w) : position x < 2^w := x.reverse.isLt

variable {x : BitVec w} {i b n p q a : ℕ}

theorem position_eq_zero : position x = 0 ↔ x = 0 := by
  have hinj : x.reverse.toNat = (0#w).toNat ↔ x.reverse = 0#w := BitVec.toNat_inj
  rw [BitVec.toNat_zero] at hinj
  exact hinj.trans BitVec.reverse_eq_zero_iff

theorem testBit_position (x : BitVec w) (hi : i < w) :
    (position x).testBit i = x.getLsbD (w-1-i) := by
  rw [position, BitVec.testBit_toNat, BitVec.getLsbD_reverse, BitVec.getMsbD_eq_getLsbD]
  simp [hi]

theorem getLsbD_lowMask (hi : i < w) : (lowMask w b).getLsbD i = decide (i < b) := by
  rw [lowMask, BitVec.getLsbD_ofNat, Nat.testBit_two_pow_sub_one]
  simp [hi]

theorem block_eq_iff (x y : BitVec w) (hb : b ≤ w) :
    position x/2^(w-b) = position y/2^(w-b) ↔ x.toNat%2^b = y.toNat%2^b := by
  constructor
  · intro h
    apply eq_of_testBit_eq
    intro i
    rw [testBit_mod_two_pow, testBit_mod_two_pow]
    by_cases hi : i < b
    · -- bit `i` of the word is bit `w-1-i` of the position, which the quotient keeps
      have hbit := congrArg (fun n => Nat.testBit n (b-1-i)) h
      simp only [Nat.testBit_div_two_pow] at hbit
      have hpos : b-1-i+(w-b) = w-1-i := by omega
      rw [hpos, testBit_position x (by omega), testBit_position y (by omega)] at hbit
      have hback : w-1-(w-1-i) = i := by omega
      rw [hback] at hbit
      rw [BitVec.testBit_toNat, BitVec.testBit_toNat, hbit]
    · simp [hi]
  · intro h
    apply eq_of_testBit_eq
    intro i
    rw [Nat.testBit_div_two_pow, Nat.testBit_div_two_pow]
    by_cases hi : i+(w-b) < w
    · rw [testBit_position x hi, testBit_position y hi]
      have hbit := congrArg (fun n => Nat.testBit n (w-1-(i+(w-b)))) h
      simp only [testBit_mod_two_pow, BitVec.testBit_toNat] at hbit
      have hlt : w-1-(i+(w-b)) < b := by omega
      simpa [hlt] using hbit
    · have hx := testBit_lt_two_pow (lt_of_lt_of_le (position_lt x)
        (pow_le_pow_right (by decide) (not_lt.mp hi)))
      have hy := testBit_lt_two_pow (lt_of_lt_of_le (position_lt y)
        (pow_le_pow_right (by decide) (not_lt.mp hi)))
      rw [hx, hy]

theorem position_or_not_mask (x : BitVec w) (hb : b ≤ w) :
    position (x ||| ~~~lowMask w b) = position x/2^(w-b)*2^(w-b)+(2^(w-b)-1) := by
  have hlt : 2^(w-b)-1 < 2^(w-b) := Nat.sub_lt (Nat.two_pow_pos _) (by decide)
  rw [Nat.mul_comm, Nat.two_pow_add_eq_or_of_lt hlt]
  apply eq_of_testBit_eq
  intro i
  rw [Nat.testBit_or, Nat.testBit_two_pow_mul, Nat.testBit_two_pow_sub_one,
    Nat.testBit_div_two_pow]
  by_cases hi : i < w
  · rw [testBit_position _ hi, BitVec.getLsbD_or, BitVec.getLsbD_not,
      getLsbD_lowMask (by omega)]
    by_cases hlow : i < w-b
    · have hout : ¬(w-1-i < b) := by omega
      have hin : w-1-i < w := by omega
      simp [hlow, hout, hin]
    · have hout : w-1-i < b := by omega
      have hge : w-b ≤ i := by omega
      rw [Nat.sub_add_cancel hge, testBit_position x hi]
      simp [hlow, hout, hge]
  · have hbit (y : BitVec w) : (position y).testBit i = false :=
      testBit_lt_two_pow (lt_of_lt_of_le (position_lt y)
        (pow_le_pow_right (by decide) (not_lt.mp hi)))
    have hge : w-b ≤ i := by omega
    have hlow : ¬(i < w-b) := by omega
    rw [hbit, Nat.sub_add_cancel hge, hbit]
    simp [hlow]

def blockEnd (n p : ℕ) : ℕ := (p/n+1)*n

theorem lt_blockEnd (hn : 0 < n) (p : ℕ) : p < blockEnd n p := by
  rw [blockEnd, ← Nat.div_lt_iff_lt_mul hn]
  exact Nat.lt_succ_self _

theorem blockEnd_le (hq : n ∣ q) (h : p < q) : blockEnd n p ≤ q := by
  obtain ⟨k, rfl⟩ := hq
  have hlt : p/n < k := Nat.div_lt_of_lt_mul h
  rw [blockEnd, Nat.mul_comm]
  exact Nat.mul_le_mul_left n hlt

theorem blockEnd_eq (hn : 0 < n) (h : p ≤ q) (hq : q < blockEnd n p) :
    blockEnd n q = blockEnd n p := by
  have hlow : p/n ≤ q/n := Nat.div_le_div_right h
  have hhigh : q/n < p/n+1 := (Nat.div_lt_iff_lt_mul hn).mpr hq
  have hdiv : q/n = p/n := by omega
  rw [blockEnd, blockEnd, hdiv]

def nextBlock (b : ℕ) (x : BitVec w) : BitVec w := ((x ||| ~~~lowMask w b).reverse+1).reverse

theorem position_nextBlock (x : BitVec w) (hb : b ≤ w) :
    position (nextBlock b x) = blockEnd (2^(w-b)) (position x)%2^w := by
  have hpos : 0 < 2^(w-b) := Nat.two_pow_pos _
  have hend := position_or_not_mask x hb
  rw [position] at hend
  have hone : (1 : BitVec w).toNat = 1%2^w := BitVec.toNat_ofNat 1 w
  rw [position, nextBlock, BitVec.reverse_reverse_eq, BitVec.toNat_add, hend, hone,
    Nat.add_mod_mod, Nat.add_assoc, Nat.sub_add_cancel hpos, blockEnd, Nat.add_one_mul]

theorem and_masks_eq_zero_iff (hab : a ≤ b) (hb : b ≤ w) (hx : position x%2^(w-b) = 0) :
    x &&& (lowMask w a ^^^ lowMask w b) = 0 ↔ position x%2^(w-a) = 0 := by
  constructor
  · intro h
    apply eq_of_testBit_eq
    intro i
    rw [testBit_mod_two_pow, Nat.zero_testBit]
    by_cases hi : i < w-a
    · rw [testBit_position x (by omega)]
      by_cases hlow : i < w-b
      · -- below the finer block size the position has no bits at all
        have hbit := congrArg (fun n => Nat.testBit n i) hx
        simp only [testBit_mod_two_pow, Nat.zero_testBit] at hbit
        rw [testBit_position x (by omega)] at hbit
        simpa [hlow, hi] using hbit
      · have hbit := congrArg (fun y => BitVec.getLsbD y (w-1-i)) h
        simp only [BitVec.getLsbD_and, BitVec.getLsbD_xor] at hbit
        rw [getLsbD_lowMask (by omega), getLsbD_lowMask (by omega)] at hbit
        have h1 : ¬(w-1-i < a) := by omega
        have h2 : w-1-i < b := by omega
        simpa [h1, h2, hi] using hbit
    · simp [hi]
  · intro h
    apply BitVec.eq_of_getLsbD_eq
    intro i hi
    rw [BitVec.getLsbD_and, BitVec.getLsbD_xor, getLsbD_lowMask hi, getLsbD_lowMask hi]
    by_cases hmid : a ≤ i ∧ i < b
    · have hbit := congrArg (fun n => Nat.testBit n (w-1-i)) h
      simp only [testBit_mod_two_pow, Nat.zero_testBit] at hbit
      have hin : w-1-i < w-a := by omega
      rw [testBit_position x (by omega)] at hbit
      have hback : w-1-(w-1-i) = i := by omega
      rw [hback] at hbit
      have hxi : x.getLsbD i = false := by simpa [hin] using hbit
      simp [hxi]
    · by_cases h1 : i < a
      · have h2 : i < b := by omega
        simp [h1, h2]
      · have h2 : ¬(i < b) := by omega
        simp [h1, h2]

theorem toNat_and_lowMask (x : BitVec w) (hb : b ≤ w) : (x &&& lowMask w b).toNat = x.toNat%2^b :=
    by
  have hpow : 2^b ≤ 2^w := pow_le_pow_right (by decide) hb
  have hpos : 0 < 2^b := Nat.two_pow_pos b
  rw [lowMask, BitVec.toNat_and, BitVec.toNat_ofNat, Nat.mod_eq_of_lt (by omega),
    Nat.and_two_pow_sub_one_eq_mod]

theorem and_lowMask_eq_zero_iff (x : BitVec w) (hb : b ≤ w) : x &&& lowMask w b = 0#w ↔ x.toNat%2^b
    = 0 := by
  rw [← toNat_and_lowMask x hb]
  constructor
  · intro h
    rw [h]
    rfl
  · intro h
    exact BitVec.eq_of_toNat_eq (by rw [h]; rfl)

theorem and_xor_masks_eq_zero_iff (x : BitVec w) (hab : a ≤ b) (hb : b ≤ w) :
    x &&& (lowMask w a ^^^ lowMask w b) = 0 ↔ x.toNat%2^b < 2^a := by
  constructor
  · intro h
    apply Nat.lt_pow_two_of_testBit
    intro i hi
    rw [testBit_mod_two_pow, BitVec.testBit_toNat]
    by_cases hib : i < b
    · have hbit := congrArg (fun y => BitVec.getLsbD y i) h
      simp only [BitVec.getLsbD_and, BitVec.getLsbD_xor, getLsbD_lowMask (lt_of_lt_of_le hib hb)] at hbit
      have hia : ¬(i < a) := by omega
      simpa [hib, hia] using hbit
    · simp [hib]
  · intro h
    apply BitVec.eq_of_getLsbD_eq
    intro i hi
    rw [BitVec.getLsbD_and, BitVec.getLsbD_xor, getLsbD_lowMask hi, getLsbD_lowMask hi]
    by_cases hmid : a ≤ i ∧ i < b
    · have hbit : (x.toNat%2^b).testBit i = false :=
        testBit_lt_two_pow (lt_of_lt_of_le h (pow_le_pow_right (by decide) hmid.1))
      rw [testBit_mod_two_pow, BitVec.testBit_toNat] at hbit
      have hxi : x.getLsbD i = false := by simpa [hmid.2] using hbit
      simp [hxi]
    · by_cases h1 : i < a
      · have h2 : i < b := by omega
        simp [h1, h2]
      · have h2 : ¬(i < b) := by omega
        simp [h1, h2]

theorem and_not_and (v m : BitVec w) : (v &&& ~~~m) &&& m = 0#w := by
  ext i hi
  cases hm : m[i] with
  | false => simp [hm]
  | true => simp [hm]

theorem and_not_add_and (v m : BitVec w) : (v &&& ~~~m)+(v &&& m) = v := by
  rw [BitVec.add_eq_or_of_and_eq_zero]
  · ext i hi
    cases hm : m[i] with
    | false => simp [hm]
    | true => simp [hm]
  · rw [BitVec.and_comm v m, ← BitVec.and_assoc, and_not_and, BitVec.zero_and]

theorem and_not_eq_self {m : BitVec w} (h : x &&& m = 0#w) : x &&& ~~~m = x := by
  have hsum := and_not_add_and x m
  rw [h, BitVec.add_zero] at hsum
  exact hsum

theorem lowMask_add_one (w a : ℕ) : lowMask w a+1#w = BitVec.ofNat w (2^a) := by
  rw [lowMask, ← BitVec.ofNat_add, Nat.sub_add_cancel Nat.one_le_two_pow]

theorem count_outside (v : BitVec w) (ha : a ≤ w) :
    (((v ||| lowMask w a)+1#w) &&& ~~~lowMask w a) ||| (v &&& lowMask w a) = v+BitVec.ofNat w (2^a) := by
  have hor : v ||| lowMask w a = (v &&& ~~~lowMask w a)+lowMask w a := by
    rw [BitVec.add_eq_or_of_and_eq_zero _ _ (and_not_and v _)]
    ext i hi
    cases hm : (lowMask w a)[i] with
    | false => simp [hm]
    | true => simp [hm]
  -- the sum has no bits inside the mask
  have hdvd : 2^a ∣ 2^w := pow_dvd_pow 2 ha
  have hclear : ((v &&& ~~~lowMask w a)+BitVec.ofNat w (2^a)) &&& lowMask w a = 0#w := by
    apply (and_lowMask_eq_zero_iff _ ha).mpr
    rw [BitVec.toNat_add, BitVec.toNat_ofNat, Nat.add_mod_mod, Nat.mod_mod_of_dvd _ hdvd,
      Nat.add_mod_right]
    exact (and_lowMask_eq_zero_iff _ ha).mp (and_not_and v _)
  have hdisjoint : ((v &&& ~~~lowMask w a)+BitVec.ofNat w (2^a)) &&& (v &&& lowMask w a) = 0#w := by
    rw [BitVec.and_comm v (lowMask w a), ← BitVec.and_assoc, hclear, BitVec.zero_and]
  calc (((v ||| lowMask w a)+1#w) &&& ~~~lowMask w a) ||| (v &&& lowMask w a)
    _ = ((v &&& ~~~lowMask w a)+BitVec.ofNat w (2^a)) ||| (v &&& lowMask w a) := by
      rw [hor, BitVec.add_assoc, lowMask_add_one, and_not_eq_self hclear]
    _ = ((v &&& ~~~lowMask w a)+BitVec.ofNat w (2^a))+(v &&& lowMask w a) :=
      (BitVec.add_eq_or_of_and_eq_zero _ _ hdisjoint).symm
    _ = ((v &&& ~~~lowMask w a)+(v &&& lowMask w a))+BitVec.ofNat w (2^a) := by
      rw [BitVec.add_assoc, BitVec.add_comm (BitVec.ofNat w (2^a)), BitVec.add_assoc]
    _ = v+BitVec.ofNat w (2^a) := by rw [and_not_add_and]

theorem position_lt_of_bit {y : BitVec w} {k : ℕ} (hk : k < w)
    (hbelow : ∀ i < k, x.getLsbD i = y.getLsbD i) (hx : x.getLsbD k = false) (hy : y.getLsbD k = true) :
    position x < position y := by
  have hback : w-1-(w-1-k) = k := by omega
  apply Nat.lt_of_testBit (w-1-k)
  · rw [testBit_position x (by omega), hback, hx]
  · rw [testBit_position y (by omega), hback, hy]
  · intro j hj
    by_cases hjw : j < w
    · rw [testBit_position x hjw, testBit_position y hjw]
      exact hbelow (w-1-j) (by omega)
    · have hpow : 2^w ≤ 2^j := pow_le_pow_right (by decide) (by omega)
      rw [testBit_lt_two_pow (lt_of_lt_of_le (position_lt x) hpow),
        testBit_lt_two_pow (lt_of_lt_of_le (position_lt y) hpow)]

def OnesFromBelow (v : BitVec w) (a b : ℕ) : Prop :=
  ∃ j, (v ||| lowMask w a) &&& lowMask w b = lowMask w j

theorem mod_le_of_onesFromBelow {v : BitVec w} (hb : b ≤ w)
    (hones : OnesFromBelow v a b) (hlow : x.toNat%2^a = v.toNat%2^a) (hpos : position v ≤ position x) :
    v.toNat%2^b ≤ x.toNat%2^b := by
  obtain ⟨j, hj⟩ := hones
  by_contra hlt
  rw [not_le] at hlt
  have hbitOf (y : BitVec w) (n i : ℕ) (hi : i < n) : (y.toNat%2^n).testBit i = y.getLsbD i := by
    rw [testBit_mod_two_pow, BitVec.testBit_toNat]
    simp [hi]
  -- the bits of `v` between the masks
  have hmid (i : ℕ) (hi : i < b) (hai : a ≤ i) : v.getLsbD i = decide (i < j) := by
    have hbit := congrArg (fun y => BitVec.getLsbD y i) hj
    have hia : ¬(i < a) := by omega
    have hiw : i < w := by omega
    simp only [BitVec.getLsbD_and, BitVec.getLsbD_or, getLsbD_lowMask hiw] at hbit
    simpa [hi, hia] using hbit
  -- the lowest bit in which the words differ
  have hdiff : ∃ k, k < b ∧ x.getLsbD k ≠ v.getLsbD k := by
    by_contra hnone
    push Not at hnone
    apply absurd (eq_of_testBit_eq (x := x.toNat%2^b) (y := v.toNat%2^b) _) hlt.ne
    intro i
    by_cases hi : i < b
    · rw [hbitOf x b i hi, hbitOf v b i hi, hnone i hi]
    · simp [testBit_mod_two_pow, hi]
  obtain ⟨hkb, hkne⟩ := Nat.find_spec hdiff
  have hagree : ∀ i < Nat.find hdiff, x.getLsbD i = v.getLsbD i := by
    intro i hi
    by_contra hne
    exact Nat.find_min hdiff hi ⟨by omega, hne⟩
  have hka : a ≤ Nat.find hdiff := by
    by_contra hlta
    apply hkne
    rw [← hbitOf x a _ (by omega), ← hbitOf v a _ (by omega), hlow]
  rcases Nat.lt_or_ge (Nat.find hdiff) j with hkj | hkj
  · -- `v` has the bit, so it comes later
    have hv : v.getLsbD (Nat.find hdiff) = true := by
      rw [hmid _ hkb hka, decide_eq_true hkj]
    have hx : x.getLsbD (Nat.find hdiff) = false := by
      cases hxk : x.getLsbD (Nat.find hdiff) with
      | false => rfl
      | true => exact absurd (hxk.trans hv.symm) hkne
    have := position_lt_of_bit (by omega) hagree hx hv
    omega
  · -- `v` has no bits from here on, so it is smaller
    have hv : v.toNat%2^b < 2^Nat.find hdiff := by
      apply Nat.lt_pow_two_of_testBit
      intro i hi
      by_cases hib : i < b
      · rw [hbitOf v b i hib, hmid i hib (by omega)]
        exact decide_eq_false (by omega)
      · simp [testBit_mod_two_pow, hib]
    have hvk : v.getLsbD (Nat.find hdiff) = false := by
      rw [hmid _ hkb hka]
      exact decide_eq_false (by omega)
    have hx : x.getLsbD (Nat.find hdiff) = true := by
      cases hxk : x.getLsbD (Nat.find hdiff) with
      | true => rfl
      | false => exact absurd (hxk.trans hvk.symm) hkne
    have hge : 2^Nat.find hdiff ≤ x.toNat%2^b := by
      apply Nat.ge_two_pow_of_testBit
      rw [hbitOf x b _ hkb, hx]
    omega

end RedisCore.ReversedOrder
