import RedisCore.ByteBlock

namespace RedisCore

theorem testBit_byte {b : ℕ} (hb : b < 256) (r i : ℕ) :
    (b + 256*r).testBit i = if i < 8 then b.testBit i else r.testBit (i-8) := by
  rw [Nat.add_comm]
  exact Nat.testBit_two_pow_mul_add r (i := 8) hb i

theorem leNat_testBit (bs : Bytes) (i : ℕ) :
    (leNat bs).testBit i = (bs.getD (i/8) 0).toNat.testBit (i%8) := by
  induction bs generalizing i with
  | nil => simp [leNat]
  | cons b bs ih =>
    rw [leNat, testBit_byte b.toNat_lt]
    split_ifs with hi
    · rw [Nat.div_eq_of_lt hi, Nat.mod_eq_of_lt hi, List.getD_cons_zero]
    · rw [ih, show i/8 = (i-8)/8+1 by omega, List.getD_cons_succ, show (i-8)%8 = i%8 by omega]

theorem leNat_injective {a b : Bytes} (hlen : a.length = b.length) (h : leNat a = leNat b) :
    a = b := by
  induction a generalizing b with
  | nil => rw [List.eq_nil_of_length_eq_zero hlen.symm]
  | cons x a ih =>
    cases b with
    | nil => cases hlen
    | cons y b =>
      rw [leNat, leNat] at h
      have hx : x.toNat < 256 := x.toNat_lt
      have hy : y.toNat < 256 := y.toNat_lt
      have hfirst : x = y := UInt8.toNat_inj.mp (by omega)
      have hrest : a = b := ih (Nat.succ_injective hlen) (by omega)
      rw [hfirst, hrest]

theorem shift_and_byte {b m s : ℕ} (hb : b < 256) (hs : s ≤ 8) (hm : m < 2^(8-s)) (r M : ℕ) :
    ((b + 256*r) >>> s) &&& (m + 256*M) = ((b >>> s) &&& m) + 256*((r >>> s) &&& M) := by
  have hpow : 2^(8-s) ≤ 2^8 := Nat.pow_le_pow_right (by norm_num) (by omega)
  have hm8 : m < 256 := lt_of_lt_of_le hm hpow
  have hfst : (b >>> s) &&& m < 256 := lt_of_le_of_lt Nat.and_le_right hm8
  apply Nat.eq_of_testBit_eq
  intro i
  rw [Nat.testBit_and, Nat.testBit_shiftRight, testBit_byte hb, testBit_byte hm8,
    testBit_byte hfst, Nat.testBit_and, Nat.testBit_and, Nat.testBit_shiftRight,
    Nat.testBit_shiftRight]
  by_cases hi : i < 8
  · rw [if_pos hi, if_pos hi]
    by_cases hin : s+i < 8
    · rw [if_pos hin]
    · have hout : m.testBit i = false :=
        Nat.testBit_lt_two_pow (lt_of_lt_of_le hm (Nat.pow_le_pow_right (by norm_num) (by omega)))
      rw [hout, Bool.and_false, Bool.and_false]
  · rw [if_neg hi, if_neg hi, if_neg (by omega), show s+i-8 = s+(i-8) by omega]

def quad (a b c d : ℕ) : ℕ := a+256*(b+256*(c+256*d))

theorem quad_lt {a b c d : ℕ} (ha : a < 256) (hb : b < 256) (hc : c < 256) (hd : d < 256) :
    quad a b c d < 2^32 := by
  unfold quad
  omega

theorem leNat_quad (a b c d : UInt8) : leNat [a, b, c, d] =
    quad a.toNat b.toNat c.toNat d.toNat := by
  simp only [leNat, quad, Nat.mul_zero, Nat.add_zero]

theorem shift_and_quad {s m : ℕ} (hs : s ≤ 8) (hm : m < 2^(8-s)) {a b c : ℕ} (ha : a < 256)
    (hb : b < 256) (hc : c < 256) (d : ℕ) :
    (quad a b c d) >>> s &&& quad m m m m =
      quad (a >>> s &&& m) (b >>> s &&& m) (c >>> s &&& m) (d >>> s &&& m) := by
  unfold quad
  rw [shift_and_byte ha hs hm, shift_and_byte hb hs hm, shift_and_byte hc hs hm]

theorem leBytes_testBit {w n j : ℕ} (hn : n < 256^w) (k : ℕ) (hj : j < 8) :
    ((leBytes w n).getD k 0).toNat.testBit j = n.testBit (8*k+j) := by
  have h := leNat_testBit (leBytes w n) (8*k+j)
  rw [leNat_leBytes_of_lt hn, show (8*k+j)/8 = k by omega, show (8*k+j)%8 = j by omega] at h
  exact h.symm

theorem leBytes_leNat (bs : Bytes) : leBytes bs.length (leNat bs) = bs := by
  apply leNat_injective (leBytes_length _ _)
  exact leNat_leBytes_of_lt (leNat_lt bs)

theorem byte_ext {a b : UInt8} (h : ∀ j < 8, a.toNat.testBit j = b.toNat.testBit j) : a = b := by
  apply UInt8.toNat_inj.mp
  apply Nat.eq_of_testBit_eq
  intro j
  by_cases hj : j < 8
  · exact h j hj
  · have hhigh : ∀ c : UInt8, c.toNat.testBit j = false := by
      intro c
      exact Nat.testBit_lt_two_pow (lt_of_lt_of_le c.toNat_lt
        (Nat.pow_le_pow_right (by norm_num) (not_lt.mp hj)))
    rw [hhigh, hhigh]

theorem storeBytes_getD {m bs : Bytes} {i : ℕ} (hin : i+bs.length ≤ m.length) :
    ∃ m', storeBytes m i bs = .ok m' ∧ m'.length = m.length ∧
      ∀ k, m'.getD k 0 = if i ≤ k ∧ k < i+bs.length then bs.getD (k-i) 0 else m.getD k 0 := by
  refine ⟨_, by rw [storeBytes, if_pos hin], ?_, ?_⟩
  · simp only [List.length_append, List.length_take, List.length_drop]
    omega
  · intro k
    have htake : (m.take i).length = i := by
      rw [List.length_take]
      omega
    simp only [List.getD_eq_getElem?_getD]
    by_cases hlow : k < i
    · rw [if_neg (by omega), List.getElem?_append_left (by omega), List.getElem?_take_of_lt hlow]
    · rw [List.getElem?_append_right (by omega), htake]
      by_cases hmid : k < i+bs.length
      · rw [if_pos (by omega), List.getElem?_append_left (by omega)]
      · rw [if_neg (by omega), List.getElem?_append_right (by omega), List.getElem?_drop,
          show i+bs.length+(k-i-bs.length) = k by omega]

end RedisCore
