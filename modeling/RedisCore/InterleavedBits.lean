import Mathlib

namespace RedisCore.Interleaved
open Nat (mod_lt mod_one)

def Spread (s : ℕ) (f : ℕ → Bool) (w : BitVec 64) : Prop :=
  ∀ j < 64, w.getLsbD j = (decide (j/s%2 = 0) && f (j/(2*s)*s+j%s))

def IsMask (s : ℕ) (m : BitVec 64) : Prop := ∀ j < 64, m.getLsbD j = decide (j/s%2 = 0)

variable {s : ℕ} {f : ℕ → Bool} {w m : BitVec 64}

theorem Spread.halve (hs : s = 1 ∨ s = 2 ∨ s = 4 ∨ s = 8 ∨ s = 16) (hw : Spread (2*s) f w)
    (hm : IsMask s m) : Spread s f ((w ||| w <<< s) &&& m) := by
  intro j hj
  rw [BitVec.getLsbD_and, BitVec.getLsbD_or, BitVec.getLsbD_shiftLeft, hw j hj, hm j hj]
  by_cases hplace : j/s%2 = 0
  · by_cases heven : j/(2*s)%2 = 0
    · -- the lower half of a block stays, and a zero moves onto it
      have hindex : j/(2*(2*s))*(2*s)+j%(2*s) = j/(2*s)*s+j%s := by
        rcases hs with rfl | rfl | rfl | rfl | rfl <;> omega
      have hzero : (decide (j < 64) && !decide (j < s) && w.getLsbD (j-s)) = false := by
        by_cases hlow : j < s
        · simp [hlow]
        · have hodd : ¬(j-s)/(2*s)%2 = 0 := by
            rcases hs with rfl | rfl | rfl | rfl | rfl <;> omega
          rw [hw (j-s) (by omega)]
          simp [hodd]
      simp only [hplace, heven, hindex, hzero, decide_true, Bool.true_and, Bool.or_false,
        Bool.and_true]
    · -- the upper half of a block arrives where zeros were
      have hlow : ¬j < s := by rcases hs with rfl | rfl | rfl | rfl | rfl <;> omega
      have hfrom : (j-s)/(2*s)%2 = 0 := by rcases hs with rfl | rfl | rfl | rfl | rfl <;> omega
      have hindex : (j-s)/(2*(2*s))*(2*s)+(j-s)%(2*s) = j/(2*s)*s+j%s := by
        rcases hs with rfl | rfl | rfl | rfl | rfl <;> omega
      rw [hw (j-s) (by omega)]
      simp only [hplace, heven, hlow, hj, hfrom, hindex, decide_true, decide_false, Bool.not_false,
        Bool.false_and, Bool.true_and, Bool.false_or, Bool.and_true]
  · simp only [hplace, decide_false, Bool.and_false, Bool.false_and]

theorem Spread.join (hs : s = 1 ∨ s = 2 ∨ s = 4 ∨ s = 8 ∨ s = 16) (hw : Spread s f w)
    (hm : IsMask (2*s) m) : Spread (2*s) f ((w ||| w >>> s) &&& m) := by
  intro j hj
  rw [BitVec.getLsbD_and, BitVec.getLsbD_or, BitVec.getLsbD_ushiftRight, hw j hj, hm j hj]
  by_cases hplace : j/(2*s)%2 = 0
  · have hroom : s+j < 64 := by rcases hs with rfl | rfl | rfl | rfl | rfl <;> omega
    rw [hw (s+j) hroom]
    by_cases hlower : j/s%2 = 0
    · have hodd : ¬(s+j)/s%2 = 0 := by rcases hs with rfl | rfl | rfl | rfl | rfl <;> omega
      have hindex : j/(2*s)*s+j%s = j/(2*(2*s))*(2*s)+j%(2*s) := by
        rcases hs with rfl | rfl | rfl | rfl | rfl <;> omega
      simp only [hplace, hlower, hodd, hindex, decide_true, decide_false, Bool.true_and,
        Bool.false_and, Bool.or_false, Bool.and_true]
    · have heven : (s+j)/s%2 = 0 := by rcases hs with rfl | rfl | rfl | rfl | rfl <;> omega
      have hindex : (s+j)/(2*s)*s+(s+j)%s = j/(2*(2*s))*(2*s)+j%(2*s) := by
        rcases hs with rfl | rfl | rfl | rfl | rfl <;> omega
      simp only [hplace, hlower, heven, hindex, decide_true, decide_false, Bool.true_and,
        Bool.false_and, Bool.false_or, Bool.and_true]
  · simp only [hplace, decide_false, Bool.and_false, Bool.false_and]

def spread : ℕ → ℕ → ℕ
  | 0, _ => 0
  | k+1, a => a%2+4*spread k (a/2)

def ones : ℕ → ℕ
  | 0 => 0
  | k+1 => 1+4*ones k

def gather : ℕ → ℕ → ℕ
  | 0, _ => 0
  | k+1, n => n%2+2*gather k (n/4)

theorem testBit_zero_add {b : ℕ} (hb : b < 2) (r i : ℕ) :
    (b+2*r).testBit i = if i = 0 then decide (b = 1) else r.testBit (i-1) := by
  have hsplit := Nat.testBit_two_pow_mul_add r (i := 1) (b := b) (by omega) i
  rw [pow_one, Nat.add_comm] at hsplit
  rw [hsplit]
  by_cases hi : i = 0
  · rw [if_pos (by omega), if_pos hi, hi, Nat.testBit_zero]
    exact decide_eq_decide.2 (by omega)
  · rw [if_neg (by omega), if_neg hi]

theorem testBit_quarter_add {b : ℕ} (hb : b < 2) (r i : ℕ) :
    (b+4*r).testBit i =
      if i = 0 then decide (b = 1) else if i = 1 then false else r.testBit (i-2) := by
  have hnested : b+4*r = b+2*(0+2*r) := by omega
  rw [hnested, testBit_zero_add hb, testBit_zero_add (by norm_num)]
  by_cases h0 : i = 0
  · rw [if_pos h0, if_pos h0]
  · rw [if_neg h0, if_neg h0]
    by_cases h1 : i = 1
    · rw [if_pos (by omega), if_pos h1]
      rfl
    · rw [if_neg (by omega), if_neg h1, Nat.sub_sub]

theorem testBit_half (a i : ℕ) : (a/2).testBit i = a.testBit (i+1) := by
  rw [Nat.testBit_succ]

theorem testBit_spread (k : ℕ) : ∀ a j,
    (spread k a).testBit j = (decide (j%2 = 0 ∧ j/2 < k) && a.testBit (j/2)) := by
  induction k with
  | zero =>
    intro a j
    simp [spread]
  | succ k ih =>
    intro a j
    rw [spread, testBit_quarter_add (mod_lt _ (by norm_num)), ih]
    by_cases h0 : j = 0
    · rw [if_pos h0, h0]
      simp [Nat.testBit_zero]
    · rw [if_neg h0]
      by_cases h1 : j = 1
      · rw [if_pos h1, h1]
        rfl
      · rw [if_neg h1, testBit_half]
        have hindex : (j-2)/2+1 = j/2 := by omega
        have hiff : ((j-2)%2 = 0 ∧ (j-2)/2 < k) ↔ (j%2 = 0 ∧ j/2 < k+1) := by omega
        rw [hindex, decide_eq_decide.2 hiff]

theorem testBit_ones (k : ℕ) : ∀ j, (ones k).testBit j = decide (j%2 = 0 ∧ j/2 < k) := by
  induction k with
  | zero =>
    intro j
    simp [ones]
  | succ k ih =>
    intro j
    rw [ones, testBit_quarter_add (by norm_num), ih]
    by_cases h0 : j = 0
    · rw [if_pos h0, h0]
      simp
    · rw [if_neg h0]
      by_cases h1 : j = 1
      · rw [if_pos h1, h1]
        rfl
      · have hiff : ((j-2)%2 = 0 ∧ (j-2)/2 < k) ↔ (j%2 = 0 ∧ j/2 < k+1) := by omega
        rw [if_neg h1, decide_eq_decide.2 hiff]

theorem testBit_gather (k : ℕ) : ∀ n i,
    (gather k n).testBit i = (decide (i < k) && n.testBit (2*i)) := by
  induction k with
  | zero =>
    intro n i
    simp [gather]
  | succ k ih =>
    intro n i
    rw [gather, testBit_zero_add (mod_lt _ (by norm_num)), ih]
    by_cases h0 : i = 0
    · rw [if_pos h0, h0]
      simp [Nat.testBit_zero]
    · have hquarter : (n/4).testBit (2*(i-1)) = n.testBit (2*i) := by
        have hdouble : n/4 = n/2/2 := by omega
        have hindex : 2*(i-1)+1+1 = 2*i := by omega
        rw [hdouble, testBit_half, testBit_half, hindex]
      have hiff : (i-1 < k) ↔ (i < k+1) := by omega
      rw [if_neg h0, hquarter, decide_eq_decide.2 hiff]

theorem gather_congr {k n n' : ℕ} (h : n ≡ n' [MOD 2^(2*k-1)]) : gather k n = gather k n' := by
  apply Nat.eq_of_testBit_eq
  intro i
  rw [testBit_gather, testBit_gather]
  by_cases hi : i < k
  · have hn := Nat.testBit_mod_two_pow n (2*k-1) (2*i)
    have hn' := Nat.testBit_mod_two_pow n' (2*k-1) (2*i)
    have hlt : decide (2*i < 2*k-1) = true := decide_eq_true (by omega)
    rw [hlt, Bool.true_and] at hn hn'
    rw [← hn, ← hn', h]
  · simp [hi]

theorem double_mod (b n k : ℕ) (hb : b < 2) : b+2*(n%2^k) = (b+2*n)%2^(k+1) := by
  have hdouble : 2*n%2^(k+1) = 2*(n%2^k) := by rw [pow_succ, Nat.mul_comm (2^k), Nat.mul_mod_mul_left]
  have hlt : n%2^k < 2^k := mod_lt _ (by positivity)
  have hpow : 2^(k+1) = 2*2^k := by rw [pow_succ, Nat.mul_comm]
  have hsum : b+2*(n%2^k) < 2^(k+1) := by omega
  rw [Nat.add_mod, hdouble, Nat.mod_eq_of_lt (show b < 2^(k+1) by omega), Nat.mod_eq_of_lt hsum]

theorem split_bit (a k : ℕ) : a%2+2*(a/2%2^k) = a%2^(k+1) := by
  rw [double_mod _ _ _ (mod_lt _ (by norm_num)), Nat.mod_add_div]

theorem gather_even_filled (k : ℕ) : ∀ a, gather k (spread k a+2*ones k) = a%2^k := by
  induction k with
  | zero => intro a; simp [gather, mod_one]
  | succ k ih =>
    intro a
    have hbit := mod_lt a (show 2 > 0 by norm_num)
    have hlow : (a%2+4*spread k (a/2)+2*(1+4*ones k))%2 = a%2 := by omega
    have hhigh : (a%2+4*spread k (a/2)+2*(1+4*ones k))/4 = spread k (a/2)+2*ones k := by omega
    rw [gather, spread, ones, hlow, hhigh, ih, split_bit]

theorem gather_odd_filled (k : ℕ) : ∀ a, gather k ((2*spread k a+ones k)/2) = a%2^k := by
  induction k with
  | zero => intro a; simp [gather, mod_one]
  | succ k ih =>
    intro a
    have hbit := mod_lt a (show 2 > 0 by norm_num)
    have hlow : (2*(a%2+4*spread k (a/2))+(1+4*ones k))/2%2 = a%2 := by omega
    have hhigh : (2*(a%2+4*spread k (a/2))+(1+4*ones k))/2/4 = (2*spread k (a/2)+ones k)/2 := by
      omega
    rw [gather, spread, ones, hlow, hhigh, ih, split_bit]

theorem gather_even_succ (k : ℕ) : ∀ a, gather k (spread k a+2*ones k+1) = (a+1)%2^k := by
  induction k with
  | zero => intro a; simp [gather, mod_one]
  | succ k ih =>
    intro a
    rw [gather, spread, ones]
    rcases Nat.mod_two_eq_zero_or_one a with h0 | h1
    · have hlow : (a%2+4*spread k (a/2)+2*(1+4*ones k)+1)%2 = 1 := by omega
      have hhigh : (a%2+4*spread k (a/2)+2*(1+4*ones k)+1)/4 = spread k (a/2)+2*ones k := by omega
      have ha : 1+2*(a/2) = a+1 := by omega
      rw [hlow, hhigh, gather_even_filled, double_mod _ _ _ (by norm_num), ha]
    · have hlow : (a%2+4*spread k (a/2)+2*(1+4*ones k)+1)%2 = 0 := by omega
      have hhigh : (a%2+4*spread k (a/2)+2*(1+4*ones k)+1)/4 = spread k (a/2)+2*ones k+1 := by
        omega
      have ha : 0+2*(a/2+1) = a+1 := by omega
      rw [hlow, hhigh, ih, double_mod _ _ _ (by norm_num), ha]

theorem gather_odd_succ (k : ℕ) : ∀ a, gather k ((2*spread k a+ones k+1)/2) = (a+1)%2^k := by
  induction k with
  | zero => intro a; simp [gather, mod_one]
  | succ k ih =>
    intro a
    rw [gather, spread, ones]
    rcases Nat.mod_two_eq_zero_or_one a with h0 | h1
    · have hlow : (2*(a%2+4*spread k (a/2))+(1+4*ones k)+1)/2%2 = 1 := by omega
      have hhigh : (2*(a%2+4*spread k (a/2))+(1+4*ones k)+1)/2/4 =
          (2*spread k (a/2)+ones k)/2 := by omega
      have ha : 1+2*(a/2) = a+1 := by omega
      rw [hlow, hhigh, gather_odd_filled, double_mod _ _ _ (by norm_num), ha]
    · have hlow : (2*(a%2+4*spread k (a/2))+(1+4*ones k)+1)/2%2 = 0 := by omega
      have hhigh : (2*(a%2+4*spread k (a/2))+(1+4*ones k)+1)/2/4 =
          (2*spread k (a/2)+ones k+1)/2 := by omega
      have ha : 0+2*(a/2+1) = a+1 := by omega
      rw [hlow, hhigh, ih, double_mod _ _ _ (by norm_num), ha]

theorem gather_pred (k : ℕ) : ∀ a, gather k (4^k+spread k a-1) = (a+(2^k-1))%2^k := by
  induction k with
  | zero => intro a; simp [gather, mod_one]
  | succ k ih =>
    intro a
    have hpos : 0 < 4^k := by positivity
    have hpos2 : 0 < 2^k := by positivity
    have hpow : (2:ℕ)^(k+1) = 2*2^k := by rw [pow_succ, Nat.mul_comm]
    rw [gather, spread, pow_succ]
    rcases Nat.mod_two_eq_zero_or_one a with h0 | h1
    · have hlow : (4^k*4+(a%2+4*spread k (a/2))-1)%2 = 1 := by omega
      have hhigh : (4^k*4+(a%2+4*spread k (a/2))-1)/4 = 4^k+spread k (a/2)-1 := by omega
      have ha : 1+2*(a/2+(2^k-1)) = a+(2^(k+1)-1) := by omega
      rw [hlow, hhigh, ih, double_mod _ _ _ (by norm_num), ha]
    · have hlow : (4^k*4+(a%2+4*spread k (a/2))-1)%2 = 0 := by omega
      have hhigh : (4^k*4+(a%2+4*spread k (a/2))-1)/4 = 4^k+spread k (a/2) := by omega
      have hdrop : gather k (4^k+spread k (a/2)) = gather k (spread k (a/2)) := by
        apply gather_congr
        have hdvd : 2^(2*k-1) ∣ 4^k := by
          rw [show (4:ℕ) = 2^2 by norm_num, ← pow_mul]
          exact pow_dvd_pow 2 (by omega)
        have hzero := (Nat.modEq_zero_iff_dvd.2 hdvd).add_right (spread k (a/2))
        rwa [Nat.zero_add] at hzero
      have hself : gather k (spread k (a/2)) = a/2%2^k := by
        apply Nat.eq_of_testBit_eq
        intro i
        have hindex : 2*i/2 = i := by omega
        have hiff : (2*i%2 = 0 ∧ i < k) ↔ i < k := by omega
        rw [testBit_gather, testBit_spread, Nat.testBit_mod_two_pow, hindex, ← Bool.and_assoc,
          decide_eq_decide.2 hiff, Bool.and_self]
      have ha : a+(2^(k+1)-1) = 0+2*(a/2)+2^(k+1) := by omega
      rw [hlow, hhigh, hdrop, hself, double_mod _ _ _ (by norm_num), ha, Nat.add_mod_right]

end RedisCore.Interleaved
