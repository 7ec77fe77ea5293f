import RedisCore.BitfieldOverflow
import RedisCore.BitopsModel
import RedisCore.WordBytes

namespace RedisCore.Bit

variable {s : Bytes} {p : ℕ}

def pairSums (b : ℕ) : ℕ :=
  ((b-(b >>> 1 &&& 0x55)) >>> 0 &&& 0x33)+((b-(b >>> 1 &&& 0x55)) >>> 2 &&& 0x33)

def setBits (b : ℕ) : ℕ := ((List.range 8).map fun j => b/2^j % 2).sum

set_option maxRecDepth 20000 in
theorem bitsinbyte_eq : bitsinbyte = (List.range 256).map setBits := by decide

variable {b a c d m : ℕ} {x y : UInt32}

theorem bitsinbyte_getD (hb : b < 256) : bitsinbyte.getD b 0 = setBits b := by
  rw [bitsinbyte_eq]
  simp [List.getD_eq_getElem?_getD, hb]

set_option maxRecDepth 20000 in
theorem pairSums_table : ∀ b < 256, (b >>> 1 &&& 0x55) ≤ b ∧ pairSums b < 256 ∧
    pairSums b % 16 ≤ 4 ∧ pairSums b / 16 ≤ 4 ∧
    pairSums b % 16 + pairSums b / 16 = bitsinbyte.getD b 0 := by
  have htable : ∀ b < 256, (b >>> 1 &&& 0x55) ≤ b ∧ pairSums b < 256 ∧
      pairSums b % 16 ≤ 4 ∧ pairSums b / 16 ≤ 4 ∧
      pairSums b % 16 + pairSums b / 16 = setBits b := by
    decide
  intro b hb
  rw [bitsinbyte_getD hb]
  exact htable b hb

theorem sumPairs_quad (hx : x.toNat = quad a b c d) (ha : a < 256)
    (hb : b < 256) (hc : c < 256) (hd : d < 256) :
    (sumPairs x).toNat = quad (pairSums a) (pairSums b) (pairSums c) (pairSums d) := by
  have hA := pairSums_table a ha
  have hB := pairSums_table b hb
  have hC := pairSums_table c hc
  have hD := pairSums_table d hd
  have hhalf : (x >>> 1 &&& 0x55555555).toNat = quad (a >>> 1 &&& 0x55) (b >>> 1 &&& 0x55)
      (c >>> 1 &&& 0x55) (d >>> 1 &&& 0x55) := by
    rw [UInt32.toNat_and, UInt32.toNat_shiftRight, hx]
    exact shift_and_quad (show 1 ≤ 8 by norm_num) (show 0x55 < 2^(8-1) by norm_num) ha hb hc d
  have hle : x >>> 1 &&& 0x55555555 ≤ x := by
    rw [UInt32.le_iff_toNat_le, hhalf, hx]
    unfold quad
    omega
  generalize hy : x-(x >>> 1 &&& 0x55555555) = y
  have hyq : y.toNat = quad (a-(a >>> 1 &&& 0x55)) (b-(b >>> 1 &&& 0x55)) (c-(c >>> 1 &&& 0x55))
      (d-(d >>> 1 &&& 0x55)) := by
    rw [← hy, UInt32.toNat_sub_of_le _ _ hle, hhalf, hx]
    unfold quad
    omega
  have hlow : (y &&& 0x33333333).toNat = quad ((a-(a >>> 1 &&& 0x55)) >>> 0 &&& 0x33)
      ((b-(b >>> 1 &&& 0x55)) >>> 0 &&& 0x33) ((c-(c >>> 1 &&& 0x55)) >>> 0 &&& 0x33)
      ((d-(d >>> 1 &&& 0x55)) >>> 0 &&& 0x33) := by
    rw [UInt32.toNat_and, hyq]
    exact shift_and_quad (show 0 ≤ 8 by norm_num) (show 0x33 < 2^(8-0) by norm_num) (by omega)
      (by omega) (by omega) _
  have hhigh : (y >>> 2 &&& 0x33333333).toNat = quad ((a-(a >>> 1 &&& 0x55)) >>> 2 &&& 0x33)
      ((b-(b >>> 1 &&& 0x55)) >>> 2 &&& 0x33) ((c-(c >>> 1 &&& 0x55)) >>> 2 &&& 0x33)
      ((d-(d >>> 1 &&& 0x55)) >>> 2 &&& 0x33) := by
    rw [UInt32.toNat_and, UInt32.toNat_shiftRight, hyq]
    exact shift_and_quad (show 2 ≤ 8 by norm_num) (show 0x33 < 2^(8-2) by norm_num) (by omega)
      (by omega) (by omega) _
  have hsum : sumPairs x = (y &&& (0x33333333 : UInt32))+(y >>> 2 &&& (0x33333333 : UInt32)) := by
    rw [← hy]
    rfl
  have hbound := quad_lt hA.2.1 hB.2.1 hC.2.1 hD.2.1
  have hparts : quad (pairSums a) (pairSums b) (pairSums c) (pairSums d) =
      (y &&& 0x33333333).toNat+(y >>> 2 &&& 0x33333333).toNat := by
    rw [hlow, hhigh]
    unfold quad pairSums
    omega
  rw [hsum, UInt32.toNat_add, ← hparts, Nat.mod_eq_of_lt hbound]

theorem sumNibbles_quad (hy : y.toNat = quad a b c d)
    (ha : a % 16 ≤ 4 ∧ a / 16 ≤ 4) (hb : b % 16 ≤ 4 ∧ b / 16 ≤ 4) (hc : c % 16 ≤ 4 ∧ c / 16 ≤ 4)
    (hd : d % 16 ≤ 4 ∧ d / 16 ≤ 4) :
    (sumNibbles y).toNat = quad (a%16+a/16) (b%16+b/16) (c%16+c/16) (d%16+d/16) := by
  have hsum : (y+(y >>> 4)).toNat = quad (a+a/16+16*(b%16)) (b+b/16+16*(c%16))
      (c+c/16+16*(d%16)) (d+d/16) := by
    rw [UInt32.toNat_add, UInt32.toNat_shiftRight, hy, show (4 : UInt32).toNat % 32 = 4 from rfl,
      Nat.shiftRight_eq_div_pow]
    unfold quad
    omega
  have hmask : ∀ n, n >>> 0 &&& 15 = n % 16 := by
    intro n
    rw [Nat.shiftRight_zero]
    exact Nat.and_two_pow_sub_one_eq_mod n 4
  unfold sumNibbles
  rw [UInt32.toNat_and, hsum]
  have hbytes := shift_and_quad (show 0 ≤ 8 by norm_num) (show 15 < 2^(8-0) by norm_num)
    (show a+a/16+16*(b%16) < 256 by omega) (show b+b/16+16*(c%16) < 256 by omega)
    (show c+c/16+16*(d%16) < 256 by omega) (d+d/16)
  rw [hmask, hmask, hmask, hmask, Nat.shiftRight_zero] at hbytes
  refine Eq.trans hbytes ?_
  congr 1 <;> omega

def byteCount (s : Bytes) (i : ℕ) : ℕ := bitsinbyte.getD (s.getD i 0).toNat 0

theorem byteCount_le (s : Bytes) (i : ℕ) : byteCount s i ≤ 8 := by
  have h := pairSums_table (s.getD i 0).toNat (s.getD i 0).toNat_lt
  unfold byteCount
  omega

theorem take_drop_four (hin : p+4 ≤ s.length) : (s.drop p).take 4 =
    [s.getD p 0, s.getD (p+1) 0, s.getD (p+2) 0, s.getD (p+3) 0] := by
  have hget : ∀ i, i < s.length → s.drop i = s.getD i 0 :: s.drop (i+1) := by
    intro i hi
    rw [List.getD_eq_getElem _ _ hi, List.drop_eq_getElem_cons hi]
  rw [hget p (by omega), hget (p+1) (by omega), hget (p+2) (by omega), hget (p+3) (by omega)]
  rfl

structure Lanes (x : UInt32) (a b c d m : ℕ) : Prop where
  word : x.toNat = quad a b c d
  fst : a ≤ m
  snd : b ≤ m
  trd : c ≤ m
  fth : d ≤ m

theorem loadUInt32_count (hin : p+4 ≤ s.length) : ∃ w, loadUInt32 s p = .ok w ∧
    Lanes (sumNibbles (sumPairs w)) (byteCount s p) (byteCount s (p+1)) (byteCount s (p+2))
      (byteCount s (p+3)) 8 := by
  refine ⟨UInt32.ofNat (leNat ((s.drop p).take 4)), ?_, ?_⟩
  · rw [loadUInt32, loadBytes, if_pos hin]
    rfl
  · have hlt : ∀ i, (s.getD i 0).toNat < 256 := fun i => (s.getD i 0).toNat_lt
    have hw : (UInt32.ofNat (leNat ((s.drop p).take 4))).toNat = quad (s.getD p 0).toNat
        (s.getD (p+1) 0).toNat (s.getD (p+2) 0).toNat (s.getD (p+3) 0).toNat := by
      rw [take_drop_four hin, leNat_quad]
      exact UInt32.toNat_ofNat_of_lt (quad_lt (hlt _) (hlt _) (hlt _) (hlt _))
    have hnibbles : ∀ i, pairSums (s.getD i 0).toNat % 16 ≤ 4 ∧ pairSums (s.getD i 0).toNat / 16 ≤ 4 := by
      intro i
      have h := pairSums_table _ (hlt i)
      exact ⟨h.2.2.1, h.2.2.2.1⟩
    have hcount : ∀ i, pairSums (s.getD i 0).toNat % 16 + pairSums (s.getD i 0).toNat / 16 =
        byteCount s i := fun i => (pairSums_table _ (hlt i)).2.2.2.2
    have hword := sumNibbles_quad (sumPairs_quad hw (hlt _) (hlt _) (hlt _) (hlt _)) (hnibbles _)
      (hnibbles _) (hnibbles _) (hnibbles _)
    simp only [hcount] at hword
    exact ⟨hword, byteCount_le _ _, byteCount_le _ _, byteCount_le _ _, byteCount_le _ _⟩

theorem Lanes.add {a' b' c' d' n : ℕ} (hx : Lanes x a b c d m)
    (hy : Lanes y a' b' c' d' n) (hmn : m+n < 256) :
    Lanes (x+y) (a+a') (b+b') (c+c') (d+d') (m+n) := by
  have h1 := hx.fst
  have h2 := hx.snd
  have h3 := hx.trd
  have h4 := hx.fth
  have h1' := hy.fst
  have h2' := hy.snd
  have h3' := hy.trd
  have h4' := hy.fth
  refine ⟨?_, by omega, by omega, by omega, by omega⟩
  have hlt := quad_lt (show a+a' < 256 by omega) (show b+b' < 256 by omega)
    (show c+c' < 256 by omega) (show d+d' < 256 by omega)
  have hsum : quad (a+a') (b+b') (c+c') (d+d') = quad a b c d+quad a' b' c' d' := by
    unfold quad
    ring
  rw [UInt32.toNat_add, hx.word, hy.word, ← hsum, Nat.mod_eq_of_lt hlt]

theorem Lanes.mul (hx : Lanes x a b c d m) (hm : 4*m < 256) :
    ((x*0x01010101) >>> 24).toNat = a+b+c+d := by
  have h1 := hx.fst
  have h2 := hx.snd
  have h3 := hx.trd
  have h4 := hx.fth
  have hmul : quad a b c d*0x01010101 =
      a+256*(a+b)+65536*(a+b+c)+16777216*(a+b+c+d)+2^32*(b+c+d+256*(c+d)+65536*d) := by
    unfold quad
    ring
  rw [UInt32.toNat_shiftRight, UInt32.toNat_mul, hx.word,
    show (24 : UInt32).toNat % 32 = 24 from rfl,
    show (0x01010101 : UInt32).toNat = 0x01010101 from rfl, hmul, Nat.add_mul_mod_self_left,
    Nat.mod_eq_of_lt (by omega), Nat.shiftRight_eq_div_pow]
  omega

theorem sum_block (f : ℕ → ℕ) (p : ℕ) : ∑ i ∈ Finset.range 28, f (p+i) =
    ∑ i ∈ Finset.range 7, (f (p+4*i)+f (p+4*i+1)+f (p+4*i+2)+f (p+4*i+3)) := by
  simp only [Finset.sum_range_succ, Finset.sum_range_zero, Nat.add_assoc, Nat.reduceAdd,
    Nat.reduceMul]

theorem popBlock_eq (hin : p+28 ≤ s.length) :
    popBlock s p = .ok (∑ i ∈ Finset.range 28, byteCount s (p+i)) := by
  obtain ⟨w1, hw1, h1⟩ := loadUInt32_count (s := s) (p := p) (by omega)
  obtain ⟨w2, hw2, h2⟩ := loadUInt32_count (s := s) (p := p+4) (by omega)
  obtain ⟨w3, hw3, h3⟩ := loadUInt32_count (s := s) (p := p+8) (by omega)
  obtain ⟨w4, hw4, h4⟩ := loadUInt32_count (s := s) (p := p+12) (by omega)
  obtain ⟨w5, hw5, h5⟩ := loadUInt32_count (s := s) (p := p+16) (by omega)
  obtain ⟨w6, hw6, h6⟩ := loadUInt32_count (s := s) (p := p+20) (by omega)
  obtain ⟨w7, hw7, h7⟩ := loadUInt32_count (s := s) (p := p+24) (by omega)
  -- seven counts of at most 8 fit in a byte, and so does the sum of the four bytes
  have hsum := (((((h1.add h2 (by norm_num)).add h3 (by norm_num)).add h4 (by norm_num)).add h5
    (by norm_num)).add h6 (by norm_num)).add h7 (by norm_num)
  have hmul := hsum.mul (by norm_num)
  unfold popBlock
  rw [hw1, ok_bind, hw2, ok_bind, hw3, ok_bind, hw4, ok_bind, hw5,
    ok_bind, hw6, ok_bind, hw7, ok_bind]
  refine congrArg Except.ok ?_
  rw [sum_block]
  refine hmul.trans ?_
  simp only [Finset.sum_range_succ, Finset.sum_range_zero, Nat.reduceMul, Nat.zero_add,
    Nat.add_zero]
  ring

theorem loadByte_getD (hin : p < s.length) : loadByte s p = .ok (s.getD p 0) := by
  rw [loadByte, List.getElem?_eq_getElem hin, List.getD_eq_getElem _ _ hin]

theorem sum_shift (s : Bytes) (p n : ℕ) : ∑ i ∈ Finset.range (n+1), byteCount s (p+i) =
    byteCount s p+∑ i ∈ Finset.range n, byteCount s (p+1+i) := by
  rw [Finset.sum_range_succ', Nat.add_comm, Nat.add_zero]
  congr 1
  apply Finset.sum_congr rfl
  intro i _
  rw [Nat.add_assoc, Nat.add_comm 1 i]

theorem popHead_eq (s : Bytes) (addr count : ℕ) : ∀ {p bits : ℕ}, p+count ≤ s.length →
    ∃ k ≤ count, popHead s addr count p bits =
      .ok (count-k, p+k, bits+∑ i ∈ Finset.range k, byteCount s (p+i)) := by
  induction count with
  | zero =>
    intro p bits _
    exact ⟨0, le_rfl, rfl⟩
  | succ count ih =>
    intro p bits hin
    unfold popHead
    split_ifs
    · obtain ⟨k, hk, hrun⟩ := @ih (p+1) (bits+byteCount s p) (by omega)
      refine ⟨k+1, by omega, ?_⟩
      rw [loadByte_getD (by omega), ok_bind, show bits+bitsinbyte.getD (s.getD p 0).toNat 0 =
        bits+byteCount s p from rfl, hrun, sum_shift, Nat.add_sub_add_right,
        show p+1+k = p+(k+1) by omega, Nat.add_assoc]
    · exact ⟨0, Nat.zero_le _, rfl⟩

theorem popBlocks_eq (s : Bytes) (fuel : ℕ) : ∀ {count p bits : ℕ}, p+count ≤ s.length →
    count < fuel → ∃ k ≤ count, popBlocks s fuel count p bits =
      .ok (count-k, p+k, bits+∑ i ∈ Finset.range k, byteCount s (p+i)) := by
  induction fuel with
  | zero =>
    intro count p bits _ hfuel
    omega
  | succ fuel ih =>
    intro count p bits hin hfuel
    unfold popBlocks
    split_ifs with hblock
    · obtain ⟨k, hk, hrun⟩ := @ih (count-28) (p+28)
        (bits+∑ i ∈ Finset.range 28, byteCount s (p+i)) (by omega) (by omega)
      refine ⟨28+k, by omega, ?_⟩
      rw [popBlock_eq (by omega), ok_bind, hrun, Finset.sum_range_add,
        show count-28-k = count-(28+k) by omega, show p+28+k = p+(28+k) by omega, Nat.add_assoc]
      simp only [Nat.add_assoc]
    · exact ⟨0, Nat.zero_le _, rfl⟩

theorem popTail_eq (s : Bytes) (count : ℕ) : ∀ {p bits : ℕ}, p+count ≤ s.length →
    popTail s count p bits = .ok (bits+∑ i ∈ Finset.range count, byteCount s (p+i)) := by
  induction count with
  | zero =>
    intro p bits _
    rfl
  | succ count ih =>
    intro p bits hin
    rw [popTail, loadByte_getD (by omega), ok_bind, ih (by omega), sum_shift, Nat.add_assoc]
    rfl

theorem redisPopcount_eq (addr : ℕ) {p count : ℕ} (hin : p+count ≤ s.length) :
    redisPopcount s addr p count = .ok (∑ i ∈ Finset.range count, byteCount s (p+i)) := by
  obtain ⟨k, hk, hhead⟩ := @popHead_eq s addr count p 0 hin
  obtain ⟨l, hl, hblocks⟩ := @popBlocks_eq s (count-k+1) (count-k) (p+k)
    (0+∑ i ∈ Finset.range k, byteCount s (p+i)) (by omega) (Nat.lt_succ_self _)
  have hsplit : ∑ i ∈ Finset.range count, byteCount s (p+i) =
      ∑ i ∈ Finset.range (k+l+(count-k-l)), byteCount s (p+i) := by
    rw [show k+l+(count-k-l) = count by omega]
  unfold redisPopcount
  rw [hhead, ok_bind]
  dsimp only
  rw [hblocks, ok_bind]
  dsimp only
  rw [popTail_eq s (count-k-l) (by omega)]
  rw [hsplit, Finset.sum_range_add, Finset.sum_range_add]
  simp only [Nat.add_assoc, Nat.zero_add]

theorem bitsOf_byte (s : Bytes) (k : ℕ) {j : ℕ} (hj : j < 8) :
    bitsOf s (8*k+j) = (s.getD k 0).toNat.testBit (7-j) := by
  rw [bitsOf, show (8*k+j)/8 = k by omega, show (8*k+j)%8 = j by omega]

theorem byteCount_bits (s : Bytes) (k : ℕ) :
    ∑ m ∈ Finset.Ico (8*k) (8*k+8), (if bitsOf s m = true then 1 else 0) = byteCount s k := by
  have htable : ∀ b < 256, ∑ j ∈ Finset.range 8, (if b.testBit (7-j) = true then 1 else 0) =
      bitsinbyte.getD b 0 := by
    intro b hb
    have hbit : ∀ j, (if b.testBit j = true then 1 else 0) = b/2^j % 2 := by
      intro j
      have htest : b.testBit j = true ↔ b/2^j % 2 = 1 := by
        rw [Nat.testBit_eq_decide_div_mod_eq, decide_eq_true_eq]
      rw [if_congr htest rfl rfl]
      split_ifs with h
      · exact h.symm
      · omega
    rw [bitsinbyte_getD hb, setBits, Finset.sum_range_reflect (fun j =>
      if b.testBit j = true then 1 else 0) 8, Finset.sum_range]
    simp only [hbit]
    rfl
  rw [Finset.sum_Ico_eq_sum_range, Nat.add_sub_cancel_left, byteCount,
    ← htable _ (s.getD k 0).toNat_lt]
  apply Finset.sum_congr rfl
  intro j hj
  rw [bitsOf_byte s k (Finset.mem_range.mp hj)]

theorem sum_byteCount (s : Bytes) (p count : ℕ) : ∑ i ∈ Finset.range count, byteCount s (p+i) =
    ((Finset.Ico (8*p) (8*(p+count))).filter (fun m => bitsOf s m = true)).card := by
  rw [Finset.card_filter]
  induction count with
  | zero => rw [Finset.sum_range_zero, Nat.add_zero, Finset.Ico_self, Finset.sum_empty]
  | succ count ih =>
    rw [Finset.sum_range_succ, ih, ← byteCount_bits, show 8*(p+(count+1)) = 8*(p+count)+8 by omega]
    exact Finset.sum_Ico_consecutive _ (by omega) (by omega)

end RedisCore.Bit
