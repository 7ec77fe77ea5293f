import RedisCore.BitCounting

namespace RedisCore.Bit

variable {s : Bytes} {bit : Bool}

def skipByte (bit : Bool) : UInt8 := if bit then 0 else 255

theorem posHead_spec (s : Bytes) (addr : ℕ) (bit : Bool) (count : ℕ) : ∀ {c pos : ℕ},
    c+count ≤ s.length → ∃ k found, k ≤ count ∧
      posHead s addr bit count c pos = .ok (found, count-k, c+k, pos+8*k) ∧
      (∀ i < k, s.getD (c+i) 0 = skipByte bit) ∧
      (found = true → k < count ∧ s.getD (c+k) 0 ≠ skipByte bit) := by
  induction count with
  | zero =>
    intro c pos _
    exact ⟨0, false, le_rfl, rfl, fun i hi => absurd hi (Nat.not_lt_zero i), fun h => by cases h⟩
  | succ count ih =>
    intro c pos hin
    unfold posHead
    by_cases halign : (addr+c) &&& 7 ≠ 0
    · rw [if_pos halign, loadByte_getD (by omega), ok_bind]
      by_cases hskip : s.getD c 0 ≠ (if bit then 0 else 255)
      · rw [if_pos hskip]
        exact ⟨0, true, Nat.zero_le _, rfl, fun i hi => absurd hi (Nat.not_lt_zero i),
          fun _ => ⟨Nat.succ_pos _, hskip⟩⟩
      · obtain ⟨k, found, hk, hrun, hall, hstop⟩ := @ih (c+1) (pos+8) (by omega)
        rw [if_neg hskip, hrun]
        refine ⟨k+1, found, by omega, ?_, ?_, ?_⟩
        · rw [Nat.add_sub_add_right, show c+1+k = c+(k+1) by omega,
            show pos+8+8*k = pos+8*(k+1) by omega]
        · intro i hi
          cases i with
          | zero => exact not_not.mp hskip
          | succ i =>
            rw [show c+(i+1) = c+1+i by omega]
            exact hall i (by omega)
        · intro hf
          obtain ⟨hlt, hne⟩ := hstop hf
          rw [show c+(k+1) = c+1+k by omega]
          exact ⟨by omega, hne⟩
    · rw [if_neg halign]
      exact ⟨0, false, Nat.zero_le _, rfl, fun i hi => absurd hi (Nat.not_lt_zero i),
        fun h => by cases h⟩

theorem loadUInt64_skip {l : ℕ} (hin : l+8 ≤ s.length) (bit : Bool) :
    ∃ w, loadUInt64 s l = .ok w ∧
      (w = (if bit then 0 else 0xFFFFFFFFFFFFFFFF) ↔ ∀ i < 8, s.getD (l+i) 0 = skipByte bit) := by
  generalize hbytes : (s.drop l).take 8 = bytes
  have hlen : bytes.length = 8 := by
    rw [← hbytes, List.length_take, List.length_drop]
    omega
  have hlt : leNat bytes < 2^64 := by
    have h := leNat_lt bytes
    rw [hlen] at h
    exact lt_of_lt_of_eq h (by norm_num)
  have hskip : leNat (List.replicate 8 (skipByte bit)) =
      ((if bit then 0 else 0xFFFFFFFFFFFFFFFF : UInt64)).toNat := by
    cases bit <;> decide
  refine ⟨UInt64.ofNat (leNat bytes), ?_, ?_⟩
  · rw [loadUInt64, loadBytes, if_pos hin, hbytes]
    rfl
  · have hget : ∀ i < 8, bytes[i]? = some (s.getD (l+i) 0) := by
      intro i hi
      rw [← hbytes, List.getElem?_take_of_lt hi, List.getElem?_drop,
        List.getElem?_eq_getElem (by omega), List.getD_eq_getElem _ _ (by omega)]
    rw [← UInt64.toNat_inj, UInt64.toNat_ofNat', Nat.mod_eq_of_lt hlt, ← hskip]
    constructor
    · intro heq i hi
      have hall := leNat_injective (by rw [hlen, List.length_replicate]) heq
      have hi' := hget i hi
      rw [hall, List.getElem?_replicate_of_lt hi] at hi'
      exact (Option.some.inj hi').symm
    · intro hall
      apply congrArg leNat
      apply List.ext_getElem?
      intro i
      by_cases hi : i < 8
      · rw [hget i hi, hall i hi, List.getElem?_replicate_of_lt hi]
      · rw [List.getElem?_eq_none (by omega),
          List.getElem?_eq_none (by rw [List.length_replicate]; omega)]

theorem posWords_spec (s : Bytes) (bit : Bool) (fuel : ℕ) : ∀ {count l pos : ℕ},
    l+count ≤ s.length → count < fuel → ∃ k ≤ count,
      posWords s bit fuel count l pos = .ok (count-k, l+k, pos+8*k) ∧
      (∀ i < k, s.getD (l+i) 0 = skipByte bit) ∧
      (8 ≤ count-k → ∃ i < 8, s.getD (l+k+i) 0 ≠ skipByte bit) := by
  induction fuel with
  | zero =>
    intro count l pos _ hfuel
    omega
  | succ fuel ih =>
    intro count l pos hin hfuel
    unfold posWords
    by_cases hword : count ≥ 8
    · obtain ⟨w, hload, hw⟩ := loadUInt64_skip (s := s) (l := l) (by omega) bit
      rw [if_pos hword, hload, ok_bind]
      by_cases hskip : w = (if bit then 0 else 0xFFFFFFFFFFFFFFFF)
      · obtain ⟨k, hk, hrun, hall, hstop⟩ := @ih (count-8) (l+8) (pos+8*8)
          (by omega) (by omega)
        rw [if_neg (not_not.mpr hskip), hrun]
        refine ⟨8+k, by omega, ?_, ?_, ?_⟩
        · rw [show count-8-k = count-(8+k) by omega, Nat.add_assoc,
            show pos+8*8+8*k = pos+8*(8+k) by omega]
        · intro i hi
          by_cases hfirst : i < 8
          · exact hw.mp hskip i hfirst
          · rw [show l+i = l+8+(i-8) by omega]
            exact hall (i-8) (by omega)
        · intro hrest
          rw [← Nat.add_assoc]
          exact hstop (by omega)
      · rw [if_pos hskip]
        refine ⟨0, Nat.zero_le _, rfl, fun i hi => absurd hi (Nat.not_lt_zero i), ?_⟩
        intro _
        by_contra hnone
        push Not at hnone
        exact hskip (hw.mpr hnone)
    · rw [if_neg hword]
      exact ⟨0, Nat.zero_le _, rfl, fun i hi => absurd hi (Nat.not_lt_zero i),
        fun h => absurd h hword⟩

def padded (s : Bytes) (c count m : ℕ) : Bool := decide (m < 8*count) && bitsOf s (8*c+m)

theorem shift_or_testBit (word : UInt64) (b : UInt8) {i : ℕ} (hi : i < 64) :
    (word <<< 8 ||| b.toUInt64).toNat.testBit i =
      if i < 8 then b.toNat.testBit i else word.toNat.testBit (i-8) := by
  rw [UInt64.toNat_or, UInt64.toNat_shiftLeft, UInt8.toNat_toUInt64,
    show (8 : UInt64).toNat % 64 = 8 from rfl, Nat.testBit_or, Nat.testBit_mod_two_pow,
    Nat.testBit_shiftLeft, decide_eq_true hi, Bool.true_and]
  split_ifs with hlow
  · rw [decide_eq_false (by omega), Bool.false_and, Bool.false_or]
  · have hb : b.toNat.testBit i = false :=
      Nat.testBit_lt_two_pow (lt_of_lt_of_le b.toNat_lt
        (Nat.pow_le_pow_right (n := 2) (by norm_num) (not_lt.mp hlow)))
    rw [hb, decide_eq_true (not_lt.mp hlow), Bool.true_and, Bool.or_false]

theorem loadBig_spec (s : Bytes) (j : ℕ) : ∀ {count c : ℕ} {word : UInt64},
    c+count ≤ s.length → ∃ w, loadBig s j count c word = .ok w ∧ ∀ i < 64, w.toNat.testBit i =
      if i < 8*j then padded s c count (8*j-1-i) else word.toNat.testBit (i-8*j) := by
  induction j with
  | zero =>
    intro count c word _
    exact ⟨word, rfl, fun i _ => rfl⟩
  | succ j ih =>
    intro count c word hin
    unfold loadBig
    dsimp only
    split_ifs with hcount
    · obtain ⟨w, hrun, hbits⟩ := @ih (count-1) (c+1)
        (word <<< 8 ||| (s.getD c 0).toUInt64) (by omega)
      rw [loadByte_getD (by omega), ok_bind]
      refine ⟨w, hrun, ?_⟩
      intro i hi
      rw [hbits i hi]
      by_cases hlow : i < 8*j
      · rw [if_pos hlow, if_pos (by omega)]
        unfold padded
        rw [show 8*(c+1)+(8*j-1-i) = 8*c+(8*(j+1)-1-i) by omega,
          decide_eq_decide.mpr (show 8*j-1-i < 8*(count-1) ↔ 8*(j+1)-1-i < 8*count by omega)]
      · rw [if_neg hlow, shift_or_testBit _ _ (by omega)]
        by_cases hbyte : i-8*j < 8
        · rw [if_pos hbyte, if_pos (by omega), padded, decide_eq_true (by omega), Bool.true_and,
            bitsOf_byte s c (by omega), show 7-(8*(j+1)-1-i) = i-8*j by omega]
        · rw [if_neg hbyte, if_neg (by omega), show i-8*j-8 = i-8*(j+1) by omega]
    · have hzero : count = 0 := by omega
      obtain ⟨w, hrun, hbits⟩ := @ih count c (word <<< 8) hin
      refine ⟨w, hrun, ?_⟩
      intro i hi
      have hnone : ∀ m, padded s c count m = false := by
        intro m
        rw [padded, decide_eq_false (by omega), Bool.false_and]
      rw [hbits i hi, hnone, hnone]
      by_cases hlow : i < 8*j
      · rw [if_pos hlow, if_pos (by omega)]
      · have hor : word <<< 8 = word <<< 8 ||| (0 : UInt8).toUInt64 := (UInt64.or_zero).symm
        rw [if_neg hlow, hor, shift_or_testBit _ _ (by omega)]
        by_cases hbyte : i-8*j < 8
        · rw [if_pos hbyte, if_pos (by omega)]
          exact Nat.zero_testBit _
        · rw [if_neg hbyte, if_neg (by omega), show i-8*j-8 = i-8*(j+1) by omega]

theorem one_and_word (word : UInt64) {m : ℕ} (hm : m < 64) :
    decide (UInt64.ofNat (2^(63-m)) &&& word ≠ 0) = word.toNat.testBit (63-m) := by
  have hlt : 2^(63-m) < 2^64 := Nat.pow_lt_pow_right (by norm_num) (by omega)
  have hand : (UInt64.ofNat (2^(63-m)) &&& word ≠ 0) ↔ word.toNat.testBit (63-m) = true := by
    rw [ne_eq, ← UInt64.toNat_inj, UInt64.toNat_and, UInt64.toNat_ofNat', Nat.mod_eq_of_lt hlt,
      Nat.and_comm, ← Nat.one_shiftLeft]
    exact and_bit_ne_zero _ _
  rw [Bool.eq_iff_iff, decide_eq_true_iff]
  exact hand

theorem one_toNat {m : ℕ} : (UInt64.ofNat (2^(63-m))).toNat = 2^(63-m) := by
  have hlt : 2^(63-m) < 2^64 := Nat.pow_lt_pow_right (by norm_num) (by omega)
  rw [UInt64.toNat_ofNat', Nat.mod_eq_of_lt hlt]

theorem one_ne_zero_word (m : ℕ) : UInt64.ofNat (2^(63-m)) ≠ 0 := by
  intro h
  have hval := congrArg UInt64.toNat h
  rw [one_toNat] at hval
  exact absurd hval (by positivity)

theorem one_shift {m : ℕ} (hm : m < 63) :
    UInt64.ofNat (2^(63-m)) >>> 1 = UInt64.ofNat (2^(63-(m+1))) := by
  rw [← UInt64.toNat_inj, UInt64.toNat_shiftRight, one_toNat, one_toNat,
    show (1 : UInt64).toNat % 64 = 1 from rfl, Nat.shiftRight_eq_div_pow,
    show 63-m = 63-(m+1)+1 by omega, pow_succ]
  omega

theorem scanWord_eq (word : UInt64) (bit : Bool) (d : ℕ) : ∀ {m fuel : ℕ} {pos : ℤ}, m+d < 64 →
    d < fuel → (∀ i < d, word.toNat.testBit (63-(m+i)) ≠ bit) →
    word.toNat.testBit (63-(m+d)) = bit →
    scanWord word bit fuel (UInt64.ofNat (2^(63-m))) pos = .ok (pos+d) := by
  induction d with
  | zero =>
    intro m fuel pos hm hfuel _ hbit
    rw [Nat.add_zero] at hm hbit
    obtain ⟨fuel, rfl⟩ : ∃ k, fuel = k+1 := ⟨fuel-1, by omega⟩
    unfold scanWord
    rw [if_pos (one_ne_zero_word m), one_and_word word hm, if_pos hbit, Nat.cast_zero, add_zero]
    rfl
  | succ d ih =>
    intro m fuel pos hm hfuel hbefore hbit
    obtain ⟨fuel, rfl⟩ : ∃ k, fuel = k+1 := ⟨fuel-1, by omega⟩
    have hfirst := hbefore 0 (Nat.succ_pos d)
    rw [Nat.add_zero] at hfirst
    unfold scanWord
    rw [if_pos (one_ne_zero_word m), one_and_word word (by omega), if_neg hfirst, one_shift (by omega),
      ih (by omega) (by omega) ?_ (by rw [← hbit, Nat.add_assoc, Nat.add_comm 1 d])]
    · rw [Nat.cast_add, Nat.cast_one, add_assoc, add_comm (1 : ℤ)]
    · intro i hi
      rw [Nat.add_assoc, Nat.add_comm 1 i]
      exact hbefore (i+1) (by omega)

def FirstBit (s : Bytes) (c count : ℕ) (bit : Bool) (v : ℤ) : Prop :=
  (v = -1 ∧ ∀ m, padded s c count m ≠ bit) ∨
    ∃ n : ℕ, v = n ∧ padded s c count n = bit ∧ ∀ m < n, padded s c count m ≠ bit

theorem padded_skipped {c count k : ℕ} (hk : k ≤ count)
    (hall : ∀ i < k, s.getD (c+i) 0 = skipByte bit) : ∀ m < 8*k, padded s c count m ≠ bit := by
  intro m hm
  have hbyte := hall (m/8) (by omega)
  have hskip : ∀ j < 8, (skipByte bit).toNat.testBit (7-j) ≠ bit := by
    cases bit <;> decide
  rw [padded, decide_eq_true (by omega), Bool.true_and, show 8*c+m = 8*(c+m/8)+m%8 by omega,
    bitsOf_byte s _ (by omega), hbyte]
  exact hskip (m%8) (by omega)

theorem padded_shift {c count k : ℕ} (hk : k ≤ count) (m : ℕ) :
    padded s (c+k) (count-k) m = padded s c count (8*k+m) := by
  unfold padded
  rw [show 8*(c+k)+m = 8*c+(8*k+m) by omega,
    decide_eq_decide.mpr (show m < 8*(count-k) ↔ 8*k+m < 8*count by omega)]

set_option maxRecDepth 20000 in
theorem exists_bit {b : UInt8} (hb : b ≠ skipByte bit) : ∃ j < 8, b.toNat.testBit (7-j) = bit := by
  by_contra hnone
  push Not at hnone
  apply hb
  have htable : ∀ bit : Bool, ∀ b < 256, (∀ j < 8, b.testBit (7-j) ≠ bit) →
      b = (skipByte bit).toNat := by decide
  exact UInt8.toNat_inj.mp (htable bit _ b.toNat_lt hnone)

theorem redisBitpos_spec (addr : ℕ) (bit : Bool) {c count : ℕ} (hin : c+count ≤ s.length) :
    ∃ v, redisBitpos s addr c count bit = .ok v ∧ FirstBit s c count bit v := by
  obtain ⟨k, found, hk, hhead, hskip, hfound⟩ := @posHead_spec s addr bit count c 0 hin
  -- the bytes that both loops skip, and why they stop
  obtain ⟨n, hn, hwords, hall, hstop⟩ : ∃ n ≤ count, (if found = true then
        (pure (count-k, c+k, 0+8*k) : Except Fault (ℕ × ℕ × ℕ))
      else posWords s bit (count-k+1) (count-k) (c+k) (0+8*k)) = .ok (count-n, c+n, 8*n) ∧
      (∀ i < n, s.getD (c+i) 0 = skipByte bit) ∧
      (8 ≤ count-n ∨ found = true → ∃ i < 8, i < count-n ∧ s.getD (c+n+i) 0 ≠ skipByte bit) := by
    cases found with
    | true =>
      refine ⟨k, hk, ?_, hskip, ?_⟩
      · rw [if_pos rfl, Nat.zero_add]
        rfl
      · intro _
        obtain ⟨hlt, hne⟩ := hfound rfl
        exact ⟨0, by norm_num, by omega, hne⟩
    | false =>
      obtain ⟨l, hl, hrun, hallw, hstopw⟩ := @posWords_spec s bit (count-k+1) (count-k)
        (c+k) (0+8*k) (by omega) (Nat.lt_succ_self _)
      refine ⟨k+l, by omega, ?_, ?_, ?_⟩
      · rw [if_neg Bool.false_ne_true, hrun, Nat.sub_sub, Nat.add_assoc, Nat.zero_add,
          Nat.mul_add]
      · intro i hi
        by_cases hfirst : i < k
        · exact hskip i hfirst
        · rw [show c+i = c+k+(i-k) by omega]
          exact hallw (i-k) (by omega)
      · intro h
        have h8 : 8 ≤ count-k-l := by
          rcases h with h | h
          · omega
          · cases h
        obtain ⟨i, hi, hne⟩ := hstopw h8
        rw [← Nat.add_assoc]
        exact ⟨i, hi, by omega, hne⟩
  obtain ⟨word, hload, hword⟩ := @loadBig_spec s 8 (count-n) (c+n) 0 (by omega)
  have hbit : ∀ m < 64, word.toNat.testBit (63-m) = padded s c count (8*n+m) := by
    intro m hm
    rw [hword _ (by omega), if_pos (by omega), show 8*8-1-(63-m) = m by omega, padded_shift hn]
  have hbefore := padded_skipped hn hall
  unfold redisBitpos
  rw [hhead, ok_bind]
  dsimp only
  rw [hwords, ok_bind]
  dsimp only
  rw [hload, ok_bind]
  by_cases hexists : ∃ d, d < 64 ∧ padded s c count (8*n+d) = bit
  · -- the first of the bits of the last word
    generalize hd : Nat.find hexists = d
    have hfirst := Nat.find_spec hexists
    have hmin : ∀ i < d, padded s c count (8*n+i) ≠ bit := by
      intro i hi hibit
      rw [hd] at hfirst
      exact absurd ⟨by omega, hibit⟩ (Nat.find_min hexists (hd ▸ hi))
    rw [hd] at hfirst
    have hone : ~~~((0xFFFFFFFFFFFFFFFF : UInt64) >>> 1) = UInt64.ofNat (2^(63-0)) := by decide
    have hscan := @scanWord_eq word bit d 0 65 ((8*n : ℕ) : ℤ)
      (by omega) (by omega)
      (fun i hi => by rw [Nat.zero_add, hbit i (by omega)]; exact hmin i hi)
      (by rw [Nat.zero_add, hbit d hfirst.1]; exact hfirst.2)
    rw [if_neg, hone, hscan]
    · refine ⟨_, rfl, Or.inr ⟨8*n+d, by rw [Nat.cast_add], hfirst.2, ?_⟩⟩
      intro m hm
      by_cases hsk : m < 8*n
      · exact hbefore m hsk
      · rw [show m = 8*n+(m-8*n) by omega]
        exact hmin (m-8*n) (by omega)
    · rintro ⟨hb, hzero⟩
      have hset := hbit d hfirst.1
      rw [hfirst.2, hzero, hb] at hset
      exact absurd hset (by rw [show (0 : UInt64).toNat = 0 from rfl, Nat.zero_testBit]; decide)
  · push Not at hexists
    -- no byte of the last word has the bit, so there are fewer than eight bytes left
    have hfew : ¬ 8 ≤ count-n := by
      intro h8
      obtain ⟨i, hi, hlt, hne⟩ := hstop (Or.inl h8)
      obtain ⟨j, hj, hjbit⟩ := exists_bit hne
      apply hexists (8*i+j) (by omega)
      rw [padded, decide_eq_true (by omega), Bool.true_and,
        show 8*c+(8*n+(8*i+j)) = 8*(c+n+i)+j by omega, bitsOf_byte s _ hj]
      exact hjbit
    have hout : ∀ m, 8*count ≤ m → padded s c count m = false := by
      intro m hm
      rw [padded, decide_eq_false (by omega), Bool.false_and]
    -- behind them there are zeros
    have htrue : bit = true := by
      cases bit with
      | true => rfl
      | false => exact absurd (hout (8*n+63) (by omega)) (hexists 63 (by norm_num))
    have hzero : word = 0 := by
      rw [← UInt64.toNat_inj]
      apply Nat.eq_of_testBit_eq
      intro i
      rw [show (0 : UInt64).toNat = 0 from rfl, Nat.zero_testBit]
      by_cases hi : i < 64
      · rw [show i = 63-(63-i) by omega, hbit (63-i) (by omega)]
        have hne := hexists (63-i) (by omega)
        rw [htrue] at hne
        exact Bool.not_eq_true _ ▸ hne
      · exact Nat.testBit_lt_two_pow (lt_of_lt_of_le word.toNat_lt
          (Nat.pow_le_pow_right (by norm_num) (by omega)))
    rw [if_pos ⟨htrue, hzero⟩]
    refine ⟨-1, rfl, Or.inl ⟨rfl, ?_⟩⟩
    intro m
    by_cases hsk : m < 8*n
    · exact hbefore m hsk
    · by_cases hin64 : m < 8*n+64
      · rw [show m = 8*n+(m-8*n) by omega]
        exact hexists (m-8*n) (by omega)
      · rw [hout m (by omega), htrue]
        decide

end RedisCore.Bit
