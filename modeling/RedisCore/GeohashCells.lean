import RedisCore.GeohashModel

namespace RedisCore.Geohash
open Interleaved

theorem mask16 : IsMask 16 0x0000FFFF0000FFFF := by unfold IsMask; decide

theorem mask8 : IsMask 8 0x00FF00FF00FF00FF := by unfold IsMask; decide

theorem mask4 : IsMask 4 0x0F0F0F0F0F0F0F0F := by unfold IsMask; decide

theorem mask2 : IsMask 2 0x3333333333333333 := by unfold IsMask; decide

theorem mask1 : IsMask 1 0x5555555555555555 := by unfold IsMask; decide

theorem mask32 : IsMask 32 0x00000000FFFFFFFF := by unfold IsMask; decide

theorem getLsbD_spreadWord (x : BitVec 32) (j : ℕ) :
    (spreadWord (x.setWidth 64)).getLsbD j = (decide (j%2 = 0) && x.getLsbD (j/2)) := by
  have hstart : Spread 32 x.getLsbD (x.setWidth 64) := by
    intro j hj
    rw [BitVec.getLsbD_setWidth, decide_eq_true hj, Bool.true_and]
    by_cases hlow : j < 32
    · have hindex : j/(2*32)*32+j%32 = j := by omega
      have hblock : j/32%2 = 0 := by omega
      rw [hindex, decide_eq_true hblock, Bool.true_and]
    · have hblock : ¬j/32%2 = 0 := by omega
      rw [decide_eq_false hblock, Bool.false_and]
      exact BitVec.getLsbD_of_ge x j (by omega)
  have h16 : Spread 16 _ _ := Spread.halve (by omega) hstart mask16
  have h8 : Spread 8 _ _ := Spread.halve (by omega) h16 mask8
  have h4 : Spread 4 _ _ := Spread.halve (by omega) h8 mask4
  have h2 : Spread 2 _ _ := Spread.halve (by omega) h4 mask2
  have h1 : Spread 1 x.getLsbD (spreadWord (x.setWidth 64)) := Spread.halve (by omega) h2 mask1
  by_cases hj : j < 64
  · have hindex : j/(2*1)*1+j%1 = j/2 := by omega
    rw [h1 j hj, hindex, Nat.div_one]
  · rw [BitVec.getLsbD_of_ge _ j (by omega), BitVec.getLsbD_of_ge x (j/2) (by omega), Bool.and_false]

theorem getLsbD_gatherWord (h : BitVec 64) (j : ℕ) :
    (gatherWord h).getLsbD j = (decide (j < 32) && h.getLsbD (2*j)) := by
  have hstart : Spread 1 (fun i => h.getLsbD (2*i)) (gatherRound h 0 0x5555555555555555) := by
    intro j hj
    have hself : gatherRound h 0 0x5555555555555555 = h &&& 0x5555555555555555 := by
      rw [gatherRound, BitVec.ushiftRight_zero, BitVec.or_self]
    rw [hself, BitVec.getLsbD_and, mask1 j hj, Nat.div_one]
    by_cases heven : j%2 = 0
    · have hindex : 2*(j/(2*1)*1+j%1) = j := by omega
      simp only [heven, hindex, decide_true, Bool.and_true, Bool.true_and]
    · simp only [heven, decide_false, Bool.and_false, Bool.false_and]
  have h2 : Spread 2 _ _ := Spread.join (by omega) hstart mask2
  have h4 : Spread 4 _ _ := Spread.join (s := 2) (by omega) h2 mask4
  have h8 : Spread 8 _ _ := Spread.join (s := 4) (by omega) h4 mask8
  have h16 : Spread 16 _ _ := Spread.join (s := 8) (by omega) h8 mask16
  have h32 : Spread 32 (fun i => h.getLsbD (2*i)) (gatherWord h) :=
    Spread.join (s := 16) (by omega) h16 mask32
  by_cases hj : j < 64
  · rw [h32 j hj]
    by_cases hlow : j < 32
    · have hindex : j/(2*32)*32+j%32 = j := by omega
      have hblock : j/32%2 = 0 := by omega
      rw [hindex, decide_eq_true hblock, decide_eq_true hlow]
    · have hblock : ¬j/32%2 = 0 := by omega
      rw [decide_eq_false hblock, decide_eq_false hlow]
      rfl
  · rw [BitVec.getLsbD_of_ge _ j (by omega), decide_eq_false (by omega), Bool.false_and]

theorem getLsbD_interleave64 (x y : BitVec 32) (j : ℕ) : (interleave64 x y).getLsbD j =
    if j%2 = 0 then x.getLsbD (j/2) else y.getLsbD (j/2) := by
  rw [interleave64, BitVec.getLsbD_or, BitVec.getLsbD_shiftLeft, getLsbD_spreadWord,
    getLsbD_spreadWord]
  by_cases heven : j%2 = 0
  · have hodd : (decide (j < 64) && !decide (j < 1) && (decide ((j-1)%2 = 0) &&
        y.getLsbD ((j-1)/2))) = false := by
      by_cases hzero : j = 0
      · simp [hzero]
      · have hback : ¬(j-1)%2 = 0 := by omega
        simp [hback]
    rw [if_pos heven, hodd, decide_eq_true heven, Bool.true_and, Bool.or_false]
  · have hback : (j-1)%2 = 0 := by omega
    have hindex : (j-1)/2 = j/2 := by omega
    have hpos : ¬j < 1 := by omega
    rw [if_neg heven, decide_eq_false heven, decide_eq_true hback, hindex, decide_eq_false hpos]
    by_cases hj : j < 64
    · simp [hj]
    · rw [BitVec.getLsbD_of_ge y (j/2) (by omega)]
      simp

theorem getLsbD_deinterleave64 (h : BitVec 64) (j : ℕ) : (deinterleave64 h).getLsbD j =
    if j < 32 then h.getLsbD (2*j) else decide (j < 64) && h.getLsbD (2*(j-32)+1) := by
  rw [deinterleave64, BitVec.getLsbD_or, BitVec.getLsbD_shiftLeft, getLsbD_gatherWord,
    getLsbD_gatherWord, BitVec.getLsbD_ushiftRight]
  by_cases hlow : j < 32
  · rw [if_pos hlow, decide_eq_true hlow]
    simp
  · have hhalf : decide (j-32 < 32) = decide (j < 64) := decide_eq_decide.2 (by omega)
    have hindex : 1+2*(j-32) = 2*(j-32)+1 := by omega
    rw [if_neg hlow, decide_eq_false hlow, hhalf, hindex]
    by_cases hj : j < 64 <;> simp [hj]

theorem deinterleave64_interleave64 (x y : BitVec 32) :
    deinterleave64 (interleave64 x y) = y ++ x := by
  apply BitVec.eq_of_getLsbD_eq
  intro j hj
  rw [getLsbD_deinterleave64, BitVec.getLsbD_append]
  by_cases hlow : j < 32
  · have heven : 2*j%2 = 0 := by omega
    have hindex : 2*j/2 = j := by omega
    rw [if_pos hlow, if_pos hlow, getLsbD_interleave64, if_pos heven, hindex]
  · have hodd : ¬(2*(j-32)+1)%2 = 0 := by omega
    have hindex : (2*(j-32)+1)/2 = j-32 := by omega
    rw [if_neg hlow, if_neg hlow, getLsbD_interleave64, if_neg hodd, hindex,
      decide_eq_true (by omega), Bool.true_and]

theorem testBit_latIndex (h : GeoHashBits) (i : ℕ) :
    (latIndex h).testBit i = (decide (i < 32) && h.bits.getLsbD (2*i)) := by
  rw [latIndex, BitVec.testBit_toNat, BitVec.getLsbD_setWidth, getLsbD_deinterleave64]
  by_cases hi : i < 32
  · rw [if_pos hi]
  · rw [decide_eq_false hi, Bool.false_and, Bool.false_and]

theorem testBit_longIndex (h : GeoHashBits) (i : ℕ) :
    (longIndex h).testBit i = (decide (i < 32) && h.bits.getLsbD (2*i+1)) := by
  rw [longIndex, BitVec.testBit_toNat, BitVec.getLsbD_setWidth, BitVec.getLsbD_ushiftRight,
    getLsbD_deinterleave64]
  by_cases hi : i < 32
  · have hindex : 32+i-32 = i := by omega
    have hhigh : 32+i < 64 := by omega
    rw [if_neg (by omega), hindex, decide_eq_true hhigh, Bool.true_and]
  · rw [decide_eq_false hi, Bool.false_and, Bool.false_and]

def Bounded (h : GeoHashBits) : Prop := h.bits.toNat < 2^(2*h.step)

theorem Bounded.high {h : GeoHashBits} (hb : Bounded h) {j : ℕ} (hj : 2*h.step ≤ j) :
    h.bits.getLsbD j = false := by
  rw [← BitVec.testBit_toNat]
  exact Nat.testBit_lt_two_pow (lt_of_lt_of_le hb (Nat.pow_le_pow_right (by norm_num) hj))

theorem bounded_of_high {h : GeoHashBits} (hhigh : ∀ j, 2*h.step ≤ j → h.bits.getLsbD j = false) :
    Bounded h := by
  apply Nat.lt_pow_two_of_testBit
  intro j hj
  rw [BitVec.testBit_toNat]
  exact hhigh j hj

theorem latIndex_lt {h : GeoHashBits} (hb : Bounded h) : latIndex h < 2^h.step := by
  apply Nat.lt_pow_two_of_testBit
  intro i hi
  rw [testBit_latIndex, hb.high (by omega), Bool.and_false]

theorem longIndex_lt {h : GeoHashBits} (hb : Bounded h) : longIndex h < 2^h.step := by
  apply Nat.lt_pow_two_of_testBit
  intro i hi
  rw [testBit_longIndex, hb.high (by omega), Bool.and_false]

theorem hash_ext {h h' : GeoHashBits} (hstep : h.step = h'.step) (hlat : latIndex h = latIndex h')
    (hlong : longIndex h = longIndex h') : h = h' := by
  have hbits : h.bits = h'.bits := by
    apply BitVec.eq_of_getLsbD_eq
    intro j hj
    have hi : decide (j/2 < 32) = true := decide_eq_true (by omega)
    rcases Nat.mod_two_eq_zero_or_one j with h0 | h1
    · have hindex : 2*(j/2) = j := by omega
      have hl := testBit_latIndex h (j/2)
      have hr := testBit_latIndex h' (j/2)
      rw [hi, Bool.true_and, hindex] at hl hr
      rw [← hl, ← hr, hlat]
    · have hindex : 2*(j/2)+1 = j := by omega
      have hl := testBit_longIndex h (j/2)
      have hr := testBit_longIndex h' (j/2)
      rw [hi, Bool.true_and, hindex] at hl hr
      rw [← hl, ← hr, hlong]
  cases h
  cases h'
  simp only at hstep hbits
  rw [hstep, hbits]

section Moving

variable {h : GeoHashBits} {k : ℕ}

theorem getLsbD_evens (j : ℕ) : (0x5555555555555555 : BitVec 64).getLsbD j =
    decide (j < 64 ∧ j%2 = 0) := by
  by_cases hj : j < 64
  · rw [mask1 j hj, Nat.div_one]
    exact decide_eq_decide.2 (by omega)
  · rw [BitVec.getLsbD_of_ge _ j (by omega), decide_eq_false (by omega)]

theorem getLsbD_odds (j : ℕ) : (0xaaaaaaaaaaaaaaaa : BitVec 64).getLsbD j =
    decide (j < 64 ∧ j%2 = 1) := by
  have hall : ∀ j < 64, (0xaaaaaaaaaaaaaaaa : BitVec 64).getLsbD j = decide (j%2 = 1) := by decide
  by_cases hj : j < 64
  · rw [hall j hj]
    exact decide_eq_decide.2 (by omega)
  · rw [BitVec.getLsbD_of_ge _ j (by omega), decide_eq_false (by omega)]

theorem getLsbD_evens_shifted (hk : k ≤ 32) (j : ℕ) :
    ((0x5555555555555555 : BitVec 64) >>> (64-k*2)).getLsbD j = decide (j < 2*k ∧ j%2 = 0) := by
  rw [BitVec.getLsbD_ushiftRight, getLsbD_evens]
  exact decide_eq_decide.2 (by omega)

theorem getLsbD_odds_shifted (hk : k ≤ 32) (j : ℕ) :
    ((0xaaaaaaaaaaaaaaaa : BitVec 64) >>> (64-k*2)).getLsbD j = decide (j < 2*k ∧ j%2 = 1) := by
  rw [BitVec.getLsbD_ushiftRight, getLsbD_odds]
  exact decide_eq_decide.2 (by omega)

theorem toNat_evens (hk : k ≤ 32) :
    ((0x5555555555555555 : BitVec 64) >>> (64-k*2)).toNat = ones k := by
  apply Nat.eq_of_testBit_eq
  intro j
  rw [BitVec.testBit_toNat, getLsbD_evens_shifted hk, testBit_ones]
  exact decide_eq_decide.2 (by omega)

theorem testBit_double (n j : ℕ) : (2*n).testBit j = (decide (1 ≤ j) && n.testBit (j-1)) := by
  have hshift := testBit_zero_add (b := 0) (by norm_num) n j
  rw [Nat.zero_add] at hshift
  rw [hshift]
  by_cases hj : j = 0
  · rw [if_pos hj, hj]
    rfl
  · rw [if_neg hj, decide_eq_true (by omega), Bool.true_and]

theorem toNat_odds (hk : k ≤ 32) :
    ((0xaaaaaaaaaaaaaaaa : BitVec 64) >>> (64-k*2)).toNat = 2*ones k := by
  apply Nat.eq_of_testBit_eq
  intro j
  rw [BitVec.testBit_toNat, getLsbD_odds_shifted hk, testBit_double, testBit_ones,
    ← Bool.decide_and]
  exact decide_eq_decide.2 (by omega)

theorem toNat_latPart (hb : Bounded h) :
    (h.bits &&& 0x5555555555555555).toNat = spread h.step (latIndex h) := by
  apply Nat.eq_of_testBit_eq
  intro j
  rw [BitVec.testBit_toNat, BitVec.getLsbD_and, getLsbD_evens, testBit_spread, testBit_latIndex]
  by_cases hj : j < 64 ∧ j%2 = 0
  · have hindex : 2*(j/2) = j := by omega
    have hi : j/2 < 32 := by omega
    rw [decide_eq_true hj, Bool.and_true, hindex, decide_eq_true hi, Bool.true_and]
    by_cases hstep : j/2 < h.step
    · rw [decide_eq_true ⟨hj.2, hstep⟩, Bool.true_and]
    · rw [hb.high (by omega), Bool.and_false]
  · rw [decide_eq_false hj, Bool.and_false]
    by_cases heven : j%2 = 0
    · have hi : ¬j/2 < 32 := by omega
      rw [decide_eq_false hi, Bool.false_and, Bool.and_false]
    · rw [decide_eq_false (fun hc => heven hc.1), Bool.false_and]

theorem toNat_longPart (hb : Bounded h) :
    (h.bits &&& 0xaaaaaaaaaaaaaaaa).toNat = 2*spread h.step (longIndex h) := by
  apply Nat.eq_of_testBit_eq
  intro j
  rw [BitVec.testBit_toNat, BitVec.getLsbD_and, getLsbD_odds, testBit_double, testBit_spread,
    testBit_longIndex]
  by_cases hj : j < 64 ∧ j%2 = 1
  · have hindex : 2*((j-1)/2)+1 = j := by omega
    have hi : (j-1)/2 < 32 := by omega
    have hpos : 1 ≤ j := by omega
    rw [decide_eq_true hj, Bool.and_true, hindex, decide_eq_true hi, decide_eq_true hpos,
      Bool.true_and, Bool.true_and]
    by_cases hstep : (j-1)/2 < h.step
    · rw [decide_eq_true ⟨by omega, hstep⟩, Bool.true_and]
    · rw [hb.high (by omega), Bool.and_false]
  · rw [decide_eq_false hj, Bool.and_false]
    by_cases hodd : 1 ≤ j ∧ (j-1)%2 = 0
    · have hi : ¬(j-1)/2 < 32 := by omega
      rw [decide_eq_false hi, Bool.false_and, Bool.and_false, Bool.and_false]
    · by_cases hpos : 1 ≤ j
      · have hplace : ¬((j-1)%2 = 0 ∧ (j-1)/2 < h.step) := fun hc => hodd ⟨hpos, hc.1⟩
        rw [decide_eq_false hplace, Bool.false_and, Bool.and_false]
      · rw [decide_eq_false hpos, Bool.false_and]

theorem or_sub_succ {x zz : BitVec 64} (hdisj : x &&& zz = 0) : (x ||| zz)-(zz+1) = x-1 := by
  rw [← BitVec.add_eq_or_of_and_eq_zero x zz hdisj]
  ring

theorem parts_disjoint {x zz : BitVec 64} (p : ℕ)
    (hx : ∀ j, j%2 = p → x.getLsbD j = false) (hz : ∀ j, j%2 ≠ p → zz.getLsbD j = false) :
    x &&& zz = 0 := by
  apply BitVec.eq_of_getLsbD_eq
  intro j hj
  rw [BitVec.getLsbD_and]
  by_cases hp : j%2 = p
  · rw [hx j hp, Bool.false_and]
    simp
  · rw [hz j hp, Bool.and_false]
    simp

theorem move_frame_y {Y : BitVec 64} (hb : Bounded h) (hk : h.step ≤ 32) :
    let h' : GeoHashBits := { h with bits := (h.bits &&& 0xaaaaaaaaaaaaaaaa) |||
      (Y &&& ((0x5555555555555555 : BitVec 64) >>> (64-h.step*2))) }
    Bounded h' ∧ longIndex h' = longIndex h ∧ latIndex h' = gather h.step Y.toNat := by
  intro h'
  have hbit (j : ℕ) : h'.bits.getLsbD j = ((h.bits.getLsbD j && decide (j < 64 ∧ j%2 = 1)) ||
      (Y.getLsbD j && decide (j < 2*h.step ∧ j%2 = 0))) := by
    show ((h.bits &&& 0xaaaaaaaaaaaaaaaa) |||
      (Y &&& ((0x5555555555555555 : BitVec 64) >>> (64-h.step*2)))).getLsbD j = _
    rw [BitVec.getLsbD_or, BitVec.getLsbD_and, BitVec.getLsbD_and, getLsbD_odds,
      getLsbD_evens_shifted hk]
  refine ⟨bounded_of_high ?_, ?_, ?_⟩
  · intro j hj
    have hj : 2*h.step ≤ j := hj
    have hout : ¬(j < 2*h.step ∧ j%2 = 0) := by omega
    rw [hbit, hb.high hj, decide_eq_false hout]
    simp
  · apply Nat.eq_of_testBit_eq
    intro i
    have hodd : ¬(2*i+1 < 2*h.step ∧ (2*i+1)%2 = 0) := by omega
    have hiff : (2*i+1 < 64 ∧ (2*i+1)%2 = 1) ↔ i < 32 := by omega
    rw [testBit_longIndex, testBit_longIndex, hbit, decide_eq_false hodd, Bool.and_false,
      Bool.or_false, decide_eq_decide.2 hiff]
    cases decide (i < 32) <;> simp
  · apply Nat.eq_of_testBit_eq
    intro i
    have heven : ¬(2*i < 64 ∧ 2*i%2 = 1) := by omega
    have hiff : (2*i < 2*h.step ∧ 2*i%2 = 0) ↔ i < h.step := by omega
    rw [testBit_latIndex, testBit_gather, hbit, decide_eq_false heven, Bool.and_false,
      Bool.false_or, decide_eq_decide.2 hiff, BitVec.testBit_toNat]
    by_cases hi : i < h.step
    · have h32 : i < 32 := by omega
      rw [decide_eq_true hi, decide_eq_true h32, Bool.and_true]
    · rw [decide_eq_false hi, Bool.and_false, Bool.and_false, Bool.false_and]

theorem move_frame_x {X : BitVec 64} (hb : Bounded h) (hk : h.step ≤ 32) :
    let h' : GeoHashBits := { h with bits :=
      (X &&& ((0xaaaaaaaaaaaaaaaa : BitVec 64) >>> (64-h.step*2))) |||
        (h.bits &&& 0x5555555555555555) }
    Bounded h' ∧ latIndex h' = latIndex h ∧ longIndex h' = gather h.step (X.toNat/2) := by
  intro h'
  have hbit (j : ℕ) : h'.bits.getLsbD j = ((X.getLsbD j && decide (j < 2*h.step ∧ j%2 = 1)) ||
      (h.bits.getLsbD j && decide (j < 64 ∧ j%2 = 0))) := by
    show ((X &&& ((0xaaaaaaaaaaaaaaaa : BitVec 64) >>> (64-h.step*2))) |||
      (h.bits &&& 0x5555555555555555)).getLsbD j = _
    rw [BitVec.getLsbD_or, BitVec.getLsbD_and, BitVec.getLsbD_and, getLsbD_evens,
      getLsbD_odds_shifted hk]
  refine ⟨bounded_of_high ?_, ?_, ?_⟩
  · intro j hj
    have hj : 2*h.step ≤ j := hj
    have hout : ¬(j < 2*h.step ∧ j%2 = 1) := by omega
    rw [hbit, hb.high hj, decide_eq_false hout]
    simp
  · apply Nat.eq_of_testBit_eq
    intro i
    have heven : ¬(2*i < 2*h.step ∧ 2*i%2 = 1) := by omega
    have hiff : (2*i < 64 ∧ 2*i%2 = 0) ↔ i < 32 := by omega
    rw [testBit_latIndex, testBit_latIndex, hbit, decide_eq_false heven, Bool.and_false,
      Bool.false_or, decide_eq_decide.2 hiff]
    cases decide (i < 32) <;> simp
  · apply Nat.eq_of_testBit_eq
    intro i
    have hodd : ¬(2*i+1 < 64 ∧ (2*i+1)%2 = 0) := by omega
    have hiff : (2*i+1 < 2*h.step ∧ (2*i+1)%2 = 1) ↔ i < h.step := by omega
    rw [testBit_longIndex, testBit_gather, hbit, decide_eq_false hodd, Bool.and_false,
      Bool.or_false, decide_eq_decide.2 hiff, testBit_half, BitVec.testBit_toNat]
    by_cases hi : i < h.step
    · have h32 : i < 32 := by omega
      rw [decide_eq_true hi, decide_eq_true h32, Bool.and_true]
    · rw [decide_eq_false hi, Bool.and_false, Bool.and_false, Bool.false_and]

theorem ones_lt (k : ℕ) : 3*ones k < 4^k := by
  induction k with
  | zero => decide
  | succ k ih =>
    rw [ones, pow_succ]
    omega

theorem two_pow_dvd (hk : k ≤ 32) : 2^(2*k-1) ∣ 2^63 := pow_dvd_pow 2 (by omega)

theorem two_pow_dvd_four (k : ℕ) : 2^(2*k-1) ∣ 4^k := by
  rw [show (4:ℕ) = 2^2 by norm_num, ← pow_mul]
  exact pow_dvd_pow 2 (by omega)

theorem gather_mod_two_pow (hk : k ≤ 32) (n : ℕ) : gather k (n%2^63) = gather k n :=
  gather_congr ((Nat.mod_modEq n (2^63)).of_dvd (two_pow_dvd hk))

theorem gather_wrapped_pred (hk : k ≤ 32) (a : ℕ) (m : ℕ) (hm : 0 < m) :
    gather k (2^63*m+spread k a-1) = (a+(2^k-1))%2^k := by
  rw [← gather_pred]
  apply gather_congr
  have hpos : 0 < 4^k := by positivity
  have hl : 2^63*m+spread k a-1+1 ≡ 4^k+spread k a-1+1 [MOD 2^(2*k-1)] := by
    have hsum : 2^63*m+spread k a-1+1 = 2^63*m+spread k a := by omega
    have hsum' : 4^k+spread k a-1+1 = 4^k+spread k a := by omega
    rw [hsum, hsum']
    apply Nat.ModEq.add_right
    have hleft : 2^63*m ≡ 0 [MOD 2^(2*k-1)] :=
      Nat.modEq_zero_iff_dvd.2 (Dvd.dvd.mul_right (two_pow_dvd hk) m)
    exact hleft.trans (Nat.modEq_zero_iff_dvd.2 (two_pow_dvd_four k)).symm
  exact Nat.ModEq.add_right_cancel' 1 hl

def movedIndex (step : ℕ) (i : ℕ) (d : ℤ) : ℤ := ((i : ℤ)+d) % 2^step

theorem movedIndex_zero {i : ℕ} (hi : i < 2^k) : movedIndex k i 0 = i := by
  have hi' : (i : ℤ) < 2^k := by exact_mod_cast hi
  rw [movedIndex, add_zero, Int.emod_eq_of_lt (by omega) hi']

theorem movedIndex_succ (i : ℕ) : (((i+1)%2^k : ℕ) : ℤ) = movedIndex k i 1 := by
  rw [movedIndex]
  push_cast
  rfl

theorem movedIndex_pred (i : ℕ) : (((i+(2^k-1))%2^k : ℕ) : ℤ) = movedIndex k i (-1) := by
  have hpos : 1 ≤ 2^k := Nat.one_le_two_pow
  have hsub : (i : ℤ)+((2^k-1 : ℕ) : ℤ) = (i : ℤ)+(-1)+2^k := by
    rw [Nat.cast_sub hpos]
    push_cast
    ring
  rw [movedIndex, ← Int.add_emod_right (a := (i : ℤ)+(-1)), ← hsub]
  push_cast
  rfl

theorem ones_small (hk : k ≤ 32) : 3*ones k < 2^64 := by
  have hlt := ones_lt k
  have hpow : 4^k ≤ 4^32 := Nat.pow_le_pow_right (by norm_num) hk
  have hword : (4:ℕ)^32 = 2^64 := by norm_num
  omega

theorem toNat_up {x zz : BitVec 64} {z : ℕ} (hz : zz.toNat = z) (hsmall : z+1 < 2^64) :
    (x+(zz+1)).toNat = (x.toNat+z+1)%2^64 := by
  have hone : (1 : BitVec 64).toNat = 1 := rfl
  rw [BitVec.toNat_add, BitVec.toNat_add, hz, hone, Nat.mod_eq_of_lt hsmall, Nat.add_assoc]

theorem toNat_down (x : BitVec 64) : (x-1).toNat = (2^64-1+x.toNat)%2^64 := by
  have hone : (1 : BitVec 64).toNat = 1 := rfl
  rw [BitVec.toNat_sub, hone]

theorem geohashMoveY_spec (hb : Bounded h) (hk : h.step ≤ 32) {d : ℤ}
    (hd : d = -1 ∨ d = 0 ∨ d = 1) :
    (geohashMoveY h d).step = h.step ∧ Bounded (geohashMoveY h d) ∧
      longIndex (geohashMoveY h d) = longIndex h ∧
      (latIndex (geohashMoveY h d) : ℤ) = movedIndex h.step (latIndex h) d := by
  have hsmall := ones_small hk
  have hz := toNat_odds hk
  have hy := toNat_latPart hb
  rcases hd with rfl | rfl | rfl
  · have hdisj : (h.bits &&& 0x5555555555555555) &&&
        ((0xaaaaaaaaaaaaaaaa : BitVec 64) >>> (64-h.step*2)) = 0 := by
      apply parts_disjoint 1
      · intro j hj
        rw [BitVec.getLsbD_and, getLsbD_evens, decide_eq_false (by omega), Bool.and_false]
      · intro j hj
        rw [getLsbD_odds_shifted hk, decide_eq_false (by omega)]
    have hmove : geohashMoveY h (-1) = { h with bits := (h.bits &&& 0xaaaaaaaaaaaaaaaa) |||
        (((h.bits &&& 0x5555555555555555)-1) &&&
          ((0x5555555555555555 : BitVec 64) >>> (64-h.step*2))) } := by
      rw [geohashMoveY, if_neg (by decide)]
      dsimp only
      rw [if_neg (by decide), or_sub_succ hdisj]
    obtain ⟨hbound, hlong, hlat⟩ := move_frame_y (Y := (h.bits &&& 0x5555555555555555)-1) hb hk
    have hword : ((h.bits &&& 0x5555555555555555)-1).toNat%2^63 =
        (2^63*2+spread h.step (latIndex h)-1)%2^63 := by
      rw [toNat_down, hy]
      omega
    rw [hmove]
    refine ⟨rfl, hbound, hlong, ?_⟩
    rw [hlat, ← gather_mod_two_pow hk, hword, gather_mod_two_pow hk,
      gather_wrapped_pred hk _ _ (by norm_num), movedIndex_pred]
  · have hmove : geohashMoveY h 0 = h := by rw [geohashMoveY, if_pos rfl]
    rw [hmove]
    exact ⟨rfl, hb, rfl, (movedIndex_zero (latIndex_lt hb)).symm⟩
  · have hmove : geohashMoveY h 1 = { h with bits := (h.bits &&& 0xaaaaaaaaaaaaaaaa) |||
        (((h.bits &&& 0x5555555555555555)+
          (((0xaaaaaaaaaaaaaaaa : BitVec 64) >>> (64-h.step*2))+1)) &&&
          ((0x5555555555555555 : BitVec 64) >>> (64-h.step*2))) } := by
      rw [geohashMoveY, if_neg (by decide)]
      dsimp only
      rw [if_pos (by decide)]
    obtain ⟨hbound, hlong, hlat⟩ := move_frame_y (Y := (h.bits &&& 0x5555555555555555)+
      (((0xaaaaaaaaaaaaaaaa : BitVec 64) >>> (64-h.step*2))+1)) hb hk
    have hword : ((h.bits &&& 0x5555555555555555)+
        (((0xaaaaaaaaaaaaaaaa : BitVec 64) >>> (64-h.step*2))+1)).toNat%2^63 =
          (spread h.step (latIndex h)+2*ones h.step+1)%2^63 := by
      rw [toNat_up hz (by omega), hy]
      omega
    rw [hmove]
    refine ⟨rfl, hbound, hlong, ?_⟩
    rw [hlat, ← gather_mod_two_pow hk, hword, gather_mod_two_pow hk, gather_even_succ,
      movedIndex_succ]

theorem geohashMoveX_spec (hb : Bounded h) (hk : h.step ≤ 32) {d : ℤ}
    (hd : d = -1 ∨ d = 0 ∨ d = 1) :
    (geohashMoveX h d).step = h.step ∧ Bounded (geohashMoveX h d) ∧
      latIndex (geohashMoveX h d) = latIndex h ∧
      (longIndex (geohashMoveX h d) : ℤ) = movedIndex h.step (longIndex h) d := by
  have hsmall := ones_small hk
  have hz := toNat_evens hk
  have hx := toNat_longPart hb
  rcases hd with rfl | rfl | rfl
  · have hdisj : (h.bits &&& 0xaaaaaaaaaaaaaaaa) &&&
        ((0x5555555555555555 : BitVec 64) >>> (64-h.step*2)) = 0 := by
      apply parts_disjoint 0
      · intro j hj
        rw [BitVec.getLsbD_and, getLsbD_odds, decide_eq_false (by omega), Bool.and_false]
      · intro j hj
        rw [getLsbD_evens_shifted hk, decide_eq_false (by omega)]
    have hmove : geohashMoveX h (-1) = { h with bits :=
        (((h.bits &&& 0xaaaaaaaaaaaaaaaa)-1) &&&
          ((0xaaaaaaaaaaaaaaaa : BitVec 64) >>> (64-h.step*2))) |||
            (h.bits &&& 0x5555555555555555) } := by
      rw [geohashMoveX, if_neg (by decide)]
      dsimp only
      rw [if_neg (by decide), or_sub_succ hdisj]
    obtain ⟨hbound, hlat, hlong⟩ := move_frame_x (X := (h.bits &&& 0xaaaaaaaaaaaaaaaa)-1) hb hk
    have hword : ((h.bits &&& 0xaaaaaaaaaaaaaaaa)-1).toNat/2%2^63 =
        (2^63*1+spread h.step (longIndex h)-1)%2^63 := by
      rw [toNat_down, hx]
      omega
    rw [hmove]
    refine ⟨rfl, hbound, hlat, ?_⟩
    rw [hlong, ← gather_mod_two_pow hk, hword, gather_mod_two_pow hk,
      gather_wrapped_pred hk _ _ (by norm_num), movedIndex_pred]
  · have hmove : geohashMoveX h 0 = h := by rw [geohashMoveX, if_pos rfl]
    rw [hmove]
    exact ⟨rfl, hb, rfl, (movedIndex_zero (longIndex_lt hb)).symm⟩
  · have hmove : geohashMoveX h 1 = { h with bits :=
        (((h.bits &&& 0xaaaaaaaaaaaaaaaa)+
          (((0x5555555555555555 : BitVec 64) >>> (64-h.step*2))+1)) &&&
          ((0xaaaaaaaaaaaaaaaa : BitVec 64) >>> (64-h.step*2))) |||
            (h.bits &&& 0x5555555555555555) } := by
      rw [geohashMoveX, if_neg (by decide)]
      dsimp only
      rw [if_pos (by decide)]
    obtain ⟨hbound, hlat, hlong⟩ := move_frame_x (X := (h.bits &&& 0xaaaaaaaaaaaaaaaa)+
      (((0x5555555555555555 : BitVec 64) >>> (64-h.step*2))+1)) hb hk
    have hword : ((h.bits &&& 0xaaaaaaaaaaaaaaaa)+
        (((0x5555555555555555 : BitVec 64) >>> (64-h.step*2))+1)).toNat/2%2^63 =
          ((2*spread h.step (longIndex h)+ones h.step+1)/2)%2^63 := by
      rw [toNat_up hz (by omega), hx]
      omega
    rw [hmove]
    refine ⟨rfl, hbound, hlat, ?_⟩
    rw [hlong, ← gather_mod_two_pow hk, hword, gather_mod_two_pow hk, gather_odd_succ,
      movedIndex_succ]

structure Moved (h h' : GeoHashBits) (dx dy : ℤ) : Prop where
  step : h'.step = h.step
  bounded : Bounded h'
  long : (longIndex h' : ℤ) = ((longIndex h : ℤ)+dx) % 2^h.step
  lat : (latIndex h' : ℤ) = ((latIndex h : ℤ)+dy) % 2^h.step

theorem moved_moves (hb : Bounded h) (hk : h.step ≤ 32) {dx dy : ℤ}
    (hx : dx = -1 ∨ dx = 0 ∨ dx = 1) (hy : dy = -1 ∨ dy = 0 ∨ dy = 1) :
    Moved h (geohashMoveY (geohashMoveX h dx) dy) dx dy := by
  obtain ⟨hxstep, hxb, hxlat, hxlong⟩ := geohashMoveX_spec hb hk hx
  obtain ⟨hystep, hyb, hylong, hylat⟩ := geohashMoveY_spec hxb (by rw [hxstep]; exact hk) hy
  constructor
  · rw [hystep, hxstep]
  · exact hyb
  · rw [hylong, hxlong]
    rfl
  · rw [hylat, hxlat, hxstep]
    rfl

theorem Moved.back {h' h'' : GeoHashBits} {dx dy : ℤ} (hb : Bounded h) (hmove : Moved h h' dx dy)
    (hback : Moved h' h'' (-dx) (-dy)) : h'' = h := by
  have hcancel (i i' i'' : ℕ) (d : ℤ) (hi : i < 2^h.step) (h1 : (i' : ℤ) = ((i : ℤ)+d) % 2^h.step)
      (h2 : (i'' : ℤ) = ((i' : ℤ)+(-d)) % 2^h.step) : i'' = i := by
    have hi' : (i : ℤ) < 2^h.step := by exact_mod_cast hi
    rw [h1, Int.emod_add_emod] at h2
    have hsum : (i : ℤ)+d+(-d) = i := by ring
    rw [hsum, Int.emod_eq_of_lt (by omega) hi'] at h2
    exact_mod_cast h2
  have hlong := hback.long
  have hlat := hback.lat
  rw [hmove.step] at hlong hlat
  exact hash_ext (hback.step.trans hmove.step)
    (hcancel _ _ _ _ (latIndex_lt hb) hmove.lat hlat)
    (hcancel _ _ _ _ (longIndex_lt hb) hmove.long hlong)

end Moving

inductive Direction
  | north
  | east
  | west
  | south
  | northEast
  | southEast
  | northWest
  | southWest
deriving DecidableEq, Repr

def GeoHashNeighbors.at (n : GeoHashNeighbors) : Direction → GeoHashBits
  | .north => n.north
  | .east => n.east
  | .west => n.west
  | .south => n.south
  | .northEast => n.northEast
  | .southEast => n.southEast
  | .northWest => n.northWest
  | .southWest => n.southWest

def Direction.delta : Direction → ℤ × ℤ
  | .north => (0, 1)
  | .east => (1, 0)
  | .west => (-1, 0)
  | .south => (0, -1)
  | .northEast => (1, 1)
  | .southEast => (1, -1)
  | .northWest => (-1, 1)
  | .southWest => (-1, -1)

def Direction.opposite : Direction → Direction
  | .north => .south
  | .east => .west
  | .west => .east
  | .south => .north
  | .northEast => .southWest
  | .southEast => .northWest
  | .northWest => .southEast
  | .southWest => .northEast

theorem neighbors_at (h : GeoHashBits) (dir : Direction) : (geohashNeighbors h).at dir =
    geohashMoveY (geohashMoveX h dir.delta.1) dir.delta.2 := by
  cases dir <;> rfl

theorem neighbor_moved {h : GeoHashBits} (hb : Bounded h) (hk : h.step ≤ 32) (dir : Direction) :
    Moved h ((geohashNeighbors h).at dir) dir.delta.1 dir.delta.2 := by
  rw [neighbors_at]
  apply moved_moves hb hk
  · cases dir <;> decide
  · cases dir <;> decide

theorem neighbor_back {h : GeoHashBits} (hb : Bounded h) (hk : h.step ≤ 32) (dir : Direction) :
    (geohashNeighbors ((geohashNeighbors h).at dir)).at dir.opposite = h := by
  have hthere := neighbor_moved hb hk dir
  have hback := neighbor_moved hthere.bounded (by rw [hthere.step]; exact hk) dir.opposite
  have hx : dir.opposite.delta.1 = -dir.delta.1 := by cases dir <;> rfl
  have hy : dir.opposite.delta.2 = -dir.delta.2 := by cases dir <;> rfl
  rw [hx, hy] at hback
  exact hthere.back hb hback

end RedisCore.Geohash
