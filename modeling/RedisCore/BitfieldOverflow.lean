import RedisCore.BitfieldModel

namespace RedisCore.Bit

def bitsOf (p : Bytes) (m : ℕ) : Bool := (p.getD (m/8) 0).toNat.testBit (7-m%8)

variable {p : Bytes} {offset bits value : ℕ}

theorem byte_index (offset : ℕ) : offset >>> 3 = offset/8 := Nat.shiftRight_eq_div_pow offset 3

theorem bit_index (offset : ℕ) : offset &&& 7 = offset%8 := Nat.and_two_pow_sub_one_eq_mod offset 3

theorem and_bit_ne_zero (v i : ℕ) : v &&& (1 <<< i) ≠ 0 ↔ v.testBit i = true := by
  rw [Nat.one_shiftLeft, Nat.and_two_pow]
  have hpow : 2^i ≠ 0 := by positivity
  cases v.testBit i <;> simp

theorem getBits_eq (bits : ℕ) : ∀ {offset value : ℕ}, offset+bits ≤ 8*p.length →
    value < 2^(64-bits) → bits ≤ 64 →
    getBits p offset bits value = some (value*2^bits+readField (bitsOf p) offset bits) := by
  induction bits with
  | zero =>
    intro offset value _ _ _
    rw [getBits, pow_zero, Nat.mul_one, readField_zero, Nat.add_zero]
  | succ bits ih =>
    intro offset value hin hvalue hbits
    have hbyte : p[offset >>> 3]? = some (p.getD (offset/8) 0) := by
      rw [byte_index, List.getD_eq_getElem?_getD, List.getElem?_eq_getElem (by omega)]
      rfl
    have hpow : 2^(64-bits) = 2*2^(64-(bits+1)) := by
      rw [← pow_succ']
      congr 1
      omega
    have hwide : 2*2^(64-(bits+1)) ≤ 2^64 := by
      rw [← hpow]
      exact Nat.pow_le_pow_right (by omega) (by omega)
    have hbit : (p.getD (offset/8) 0).toNat >>> (7-(offset &&& 7)) &&& 1 =
        (bitsOf p offset).toNat := by
      rw [bit_index, Nat.and_one_is_mod, bitsOf, Nat.testBit_eq_decide_div_mod_eq,
        Nat.shiftRight_eq_div_pow]
      rcases Nat.mod_two_eq_zero_or_one
        ((p.getD (offset/8) 0).toNat/2^(7-offset%8)) with hmod | hmod <;> rw [hmod] <;> rfl
    have hlow : (bitsOf p offset).toNat < 2^1 := Bool.toNat_lt _
    have hnext : (value <<< 1)%2^64 ||| (bitsOf p offset).toNat =
        2*value+(bitsOf p offset).toNat := by
      rw [Nat.shiftLeft_eq, Nat.mod_eq_of_lt (by omega), Nat.mul_comm]
      exact (Nat.two_pow_add_eq_or_of_lt hlow value).symm
    rw [getBits, hbyte]
    dsimp only [Option.bind_eq_bind, Option.bind_some]
    rw [hbit, hnext, ih (by omega) (by omega) (by omega), readField_succ]
    congr 1
    ring

theorem getUnsignedBitfield_eq (hin : offset+bits ≤ 8*p.length) (hbits : bits ≤ 64) :
    getUnsignedBitfield p offset bits = some (readField (bitsOf p) offset bits) := by
  rw [getUnsignedBitfield, getBits_eq bits hin (by positivity) hbits, Nat.zero_mul, Nat.zero_add]

theorem mask_eq (hbits : bits ≤ 64) : ((2^64-1) <<< bits)%2^64 = 2^64-2^bits := by
  have hle : 2^bits ≤ 2^64 := Nat.pow_le_pow_right (by omega) hbits
  have hpos : 0 < 2^bits := by positivity
  have hsplit : (2^64-1)*2^bits = 2^64*(2^bits-1)+(2^64-2^bits) := by
    zify [hle, Nat.one_le_two_pow (n := 64), Nat.one_le_two_pow (n := bits)]
    ring
  rw [Nat.shiftLeft_eq, hsplit, Nat.mul_add_mod, Nat.mod_eq_of_lt (by omega)]

theorem getSignedBitfield_eq (hin : offset+bits ≤ 8*p.length) (hpos : 0 < bits) (hbits : bits ≤ 64) :
    getSignedBitfield p offset bits =
      some ((readField (bitsOf p) offset bits : ℤ).bmod (2^bits)) := by
  have hlt := readField_lt (bitsOf p) offset bits
  have hle : 2^bits ≤ 2^64 := Nat.pow_le_pow_right (by omega) hbits
  rw [getSignedBitfield, getUnsignedBitfield_eq hin hbits]
  dsimp only [Option.bind_eq_bind, Option.bind_some]
  simp only [and_bit_ne_zero]
  rw [mask_eq hbits, ← signExtend_bmod hpos hbits (hlt.trans_le hle), signExtend]
  by_cases hneg : (readField (bitsOf p) offset bits).testBit (bits-1) = true
  · rw [if_pos hneg]
    by_cases hfull : bits < 64
    · rw [if_pos ⟨hfull, hneg⟩]
      rfl
    · have hall : bits = 64 := by omega
      rw [if_neg (by omega), hall, Nat.sub_self, Nat.or_zero]
      rfl
  · rw [if_neg (fun h => hneg h.2), if_neg hneg, Nat.and_two_pow_sub_one_eq_mod,
      Nat.mod_eq_of_lt hlt]
    rfl

theorem replaceBit_testBit (byteval bit i : ℕ) (hbit : bit < 8) (b : Bool) (hi : i < 8) :
    ((byteval &&& (2^64-1-(1 <<< bit)) ||| (if b then 1 else 0) <<< bit) &&& 255).testBit i =
      if i = bit then b else byteval.testBit i := by
  have hone : (1 : ℕ) <<< bit < 2^64 := by
    rw [Nat.one_shiftLeft]
    exact Nat.pow_lt_pow_right (by omega) (by omega)
  have hmask : 2^64-1-(1 <<< bit) = 2^64-((1 <<< bit)+1) := by omega
  have hlow : (255 : ℕ) = 2^8-1 := rfl
  rw [Nat.testBit_and, Nat.testBit_or, Nat.testBit_and, hmask, Nat.testBit_two_pow_sub_succ hone,
    hlow, Nat.testBit_two_pow_sub_one, decide_eq_true hi, decide_eq_true (show i < 64 by omega),
    Nat.one_shiftLeft, Nat.testBit_two_pow, Bool.true_and, Bool.and_true]
  by_cases heq : i = bit
  · subst heq
    rw [if_pos rfl]
    cases b
    · simp
    · simp
  · rw [if_neg heq, decide_eq_false (Ne.symm heq), Bool.not_false, Bool.and_true]
    cases b
    · simp
    · rw [if_pos rfl, Nat.one_shiftLeft, Nat.testBit_two_pow, decide_eq_false (Ne.symm heq),
        Bool.or_false]

theorem bitsOf_replaceBit (hin : offset < 8*p.length) (b : Bool) :
    bitsOf (p.set (offset/8) (UInt8.ofNat
      (((p.getD (offset/8) 0).toNat &&& (2^64-1-(1 <<< (7-offset%8))) |||
        (if b then 1 else 0) <<< (7-offset%8)) &&& 255))) =
      fun m => if m = offset then b else bitsOf p m := by
  funext m
  rw [bitsOf, bitsOf, List.getD_eq_getElem?_getD, List.getElem?_set]
  by_cases hbyte : offset/8 = m/8
  · rw [if_pos hbyte, if_pos (by omega), Option.getD_some, UInt8.toNat_ofNat',
      Nat.mod_eq_of_lt (Nat.and_lt_two_pow _ (by norm_num)),
      replaceBit_testBit _ _ _ (by omega) b (by omega)]
    by_cases hm : m = offset
    · rw [if_pos hm, hm, if_pos rfl]
    · rw [if_neg hm, if_neg (by omega), hbyte]
  · have hm : m ≠ offset := by
      rintro rfl
      exact hbyte rfl
    rw [if_neg hbyte, if_neg hm, List.getD_eq_getElem?_getD]

theorem setUnsignedBitfield_eq (bits : ℕ) : ∀ {p : Bytes} {o : ℕ} (value : ℕ),
    o+bits ≤ 8*p.length → ∃ p', setUnsignedBitfield p o bits value = some p' ∧
      p'.length = p.length ∧ bitsOf p' = writeField (bitsOf p) o bits value := by
  induction bits with
  | zero =>
    intro p offset value _
    exact ⟨p, rfl, rfl, (writeField_zero _ _ _).symm⟩
  | succ bits ih =>
    intro p offset value hin
    have hbyte : p[offset >>> 3]? = some (p.getD (offset/8) 0) := by
      rw [byte_index, List.getD_eq_getElem?_getD, List.getElem?_eq_getElem (by omega)]
      rfl
    have hbit : (if value &&& (1 <<< bits) ≠ 0 then (1 : ℕ) else 0) =
        if value.testBit bits then 1 else 0 := by
      simp only [and_bit_ne_zero]
    rw [setUnsignedBitfield, hbyte]
    dsimp only [Option.bind_eq_bind, Option.bind_some]
    rw [hbit, byte_index, bit_index]
    obtain ⟨p', hset, hlen, hbits⟩ := ih (p := p.set (offset/8) (UInt8.ofNat
      (((p.getD (offset/8) 0).toNat &&& (2^64-1-(1 <<< (7-offset%8))) |||
        (if value.testBit bits then 1 else 0) <<< (7-offset%8)) &&& 255))) (o := offset+1)
      value (by rw [List.length_set]; omega)
    refine ⟨p', hset, by rw [hlen, List.length_set], ?_⟩
    rw [hbits, bitsOf_replaceBit (by omega), writeField_succ]

theorem toUnsigned_congr (hbits : bits ≤ 64) (v : ℤ) :
    toUnsigned 64 v%2^bits = (v%2^bits).toNat := by
  have hdvd : (2:ℤ)^bits ∣ 2^64 := pow_dvd_pow 2 hbits
  have hnonneg := Int.emod_nonneg v (b := 2^64) (by positivity)
  unfold toUnsigned
  have hcast : (((v%2^64).toNat%2^bits : ℕ) : ℤ) = v%2^bits := by
    rw [Int.natCast_mod, Int.toNat_of_nonneg hnonneg, Nat.cast_pow, Nat.cast_ofNat,
      Int.emod_emod_of_dvd v hdvd]
  omega

theorem setSignedBitfield_eq (hin : offset+bits ≤ 8*p.length) (hbits : bits ≤ 64) (v : ℤ) :
    ∃ p', setSignedBitfield p offset bits v = some p' ∧ p'.length = p.length ∧
      bitsOf p' = writeField (bitsOf p) offset bits (v%2^bits).toNat := by
  obtain ⟨p', hset, hlen, heq⟩ := setUnsignedBitfield_eq bits (toUnsigned 64 v) hin
  refine ⟨p', hset, hlen, ?_⟩
  rw [heq]
  apply writeField_congr
  rw [toUnsigned_congr hbits]
  symm
  apply Nat.mod_eq_of_lt
  have hlt := Int.emod_lt_of_pos v (b := 2^bits) (by positivity)
  have hnonneg := Int.emod_nonneg v (b := 2^bits) (by positivity)
  zify
  rwa [Int.toNat_of_nonneg hnonneg]

namespace FieldType

def Ok (t : FieldType) : Prop := 1 ≤ t.bits ∧ t.bits ≤ if t.sign then 64 else 63

def lo (t : FieldType) : ℤ := if t.sign then -2^(t.bits-1) else 0

def hi (t : FieldType) : ℤ := if t.sign then 2^(t.bits-1)-1 else 2^t.bits-1

def Fits (t : FieldType) (x : ℤ) : Prop := t.lo ≤ x ∧ x ≤ t.hi

instance (t : FieldType) (x : ℤ) : Decidable (t.Fits x) := inferInstanceAs (Decidable (_ ∧ _))

def wrap (t : FieldType) (x : ℤ) : ℤ := if t.sign then x.bmod (2^t.bits) else x%2^t.bits

def clamp (t : FieldType) (x : ℤ) : ℤ := max t.lo (min x t.hi)

end FieldType

theorem width_powers (hpos : 1 ≤ bits) (hbits : bits ≤ 64) :
    (2:ℤ)^bits = 2*2^(bits-1) ∧ (1:ℤ) ≤ 2^(bits-1) ∧ (2:ℤ)^(bits-1) ≤ 2^63 := by
  refine ⟨?_, one_le_pow₀ (by norm_num), ?_⟩
  · rw [← pow_succ']
    congr 1
    omega
  · exact pow_le_pow_right₀ (by norm_num) (by omega)

theorem wrapSigned_eq (hpos : 1 ≤ bits) (hbits : bits ≤ 64) (value incr : ℤ) :
    wrapSigned value incr bits = (value+incr).bmod (2^bits) := by
  have hnonneg (v : ℤ) : 0 ≤ v%2^64 := Int.emod_nonneg v (by positivity)
  have hsum : (((toUnsigned 64 value+toUnsigned 64 incr)%2^64 : ℕ) : ℤ) = (value+incr)%2^64 := by
    rw [toUnsigned, toUnsigned, Int.natCast_mod, Nat.cast_add, Int.toNat_of_nonneg (hnonneg value),
      Int.toNat_of_nonneg (hnonneg incr), Nat.cast_pow, Nat.cast_ofNat, ← Int.add_emod]
  have hdvd : (2^bits : ℕ) ∣ 2^64 := pow_dvd_pow 2 hbits
  have hres : (((toUnsigned 64 value+toUnsigned 64 incr)%2^64 : ℕ) : ℤ).bmod (2^bits) =
      (value+incr).bmod (2^bits) := by
    rw [hsum, Int.bmod_def, Int.bmod_def, Int.emod_emod_of_dvd]
    exact_mod_cast hdvd
  have hlt : (toUnsigned 64 value+toUnsigned 64 incr)%2^64 < 2^64 := Nat.mod_lt _ (by positivity)
  rw [wrapSigned]
  rw [mask_eq hbits, ← hres]
  by_cases hfull : bits < 64
  · have hlow : 2^64-1-(2^64-2^bits) = 2^bits-1 := by
      have hle : 2^bits ≤ 2^64 := Nat.pow_le_pow_right (by omega) hbits
      have hone := Nat.one_le_two_pow (n := bits)
      omega
    rw [if_pos hfull, hlow, ← signExtend_bmod hpos hbits hlt, signExtend]
    simp only [and_bit_ne_zero]
    rfl
  · have hall : bits = 64 := by omega
    rw [if_neg hfull, hall]
    rfl

theorem signed_max (bits : ℕ) :
    (if bits = 64 then (2:ℤ)^63-1 else 2^(bits-1)-1) = 2^(bits-1)-1 := by
  split
  · rename_i hall
    rw [hall]
  · rfl

theorem checkSigned_incr {value incr : ℤ} (hpos : 1 ≤ bits) (hbits : bits ≤ 64)
    (hlo : -2^(bits-1) ≤ value) (hhi : value ≤ 2^(bits-1)-1) (hilo : -2^63 ≤ incr)
    (hihi : incr < 2^63) (owtype : Owtype) :
    checkSignedBitfieldOverflow value incr bits owtype =
      if 2^(bits-1)-1 < value+incr then
        (1, match owtype with
          | .wrap => some ((value+incr).bmod (2^bits))
          | .sat => some (2^(bits-1)-1)
          | .fail => none)
      else if value+incr < -2^(bits-1) then
        match owtype with
          | .wrap => (1, some ((value+incr).bmod (2^bits)))
          | .sat => (-1, some (-2^(bits-1)))
          | .fail => (-1, none)
      else (0, none) := by
  obtain ⟨hpow, hone, hhalf⟩ := width_powers hpos hbits
  have hmin : -((2:ℤ)^(bits-1)-1)-1 = -2^(bits-1) := by ring
  unfold checkSignedBitfieldOverflow
  dsimp only
  rw [signed_max bits, hmin, wrapSigned_eq hpos hbits]
  -- the room in the field does not wrap around where it is consulted
  have hover : (value > 2^(bits-1)-1 ∨ (bits ≠ 64 ∧ incr > toLong (2^(bits-1)-1-value)) ∨
      (value ≥ 0 ∧ incr > 0 ∧ incr > toLong (2^(bits-1)-1-value))) ↔
      2^(bits-1)-1 < value+incr := by
    by_cases hall : bits = 64
    · subst hall
      by_cases hv : 0 ≤ value
      · rw [toLong_of_fits (by omega) (by omega)]
        omega
      · omega
    · have hnarrow : (2:ℤ)^(bits-1) ≤ 2^62 := pow_le_pow_right₀ (by norm_num) (by omega)
      rw [toLong_of_fits (by omega) (by omega)]
      omega
  have hunder : (value < -2^(bits-1) ∨ (bits ≠ 64 ∧ incr < toLong (-2^(bits-1)-value)) ∨
      (value < 0 ∧ incr < 0 ∧ incr < toLong (-2^(bits-1)-value))) ↔
      value+incr < -2^(bits-1) := by
    by_cases hall : bits = 64
    · subst hall
      by_cases hv : 0 ≤ value
      · omega
      · rw [toLong_of_fits (by omega) (by omega)]
        omega
    · have hnarrow : (2:ℤ)^(bits-1) ≤ 2^62 := pow_le_pow_right₀ (by norm_num) (by omega)
      rw [toLong_of_fits (by omega) (by omega)]
      omega
  simp only [hover, hunder]
  split
  · cases owtype <;> rfl
  · rfl

theorem checkUnsigned_incr {incr : ℤ} (hbits : bits ≤ 63) (hhi : value < 2^bits)
    (hilo : -2^63 ≤ incr) (hihi : incr < 2^63) (owtype : Owtype) :
    checkUnsignedBitfieldOverflow value incr bits owtype =
      if 2^bits-1 < (value : ℤ)+incr then
        (1, match owtype with
          | .wrap => some ((value+incr)%2^bits).toNat
          | .sat => some (2^bits-1)
          | .fail => none)
      else if (value : ℤ)+incr < 0 then
        match owtype with
          | .wrap => (1, some ((value+incr)%2^bits).toNat)
          | .sat => (-1, some 0)
          | .fail => (-1, none)
      else (0, none) := by
  have hle : (2:ℤ)^bits ≤ 2^63 := pow_le_pow_right₀ (by norm_num) hbits
  have hlt : (value : ℤ) < 2^bits := by exact_mod_cast hhi
  have hmax : ((2^bits-1 : ℕ) : ℤ) = 2^bits-1 := by
    have hone := Nat.one_le_two_pow (n := bits)
    push_cast [hone]
    ring
  have hwrap : toUnsigned 64 (value+incr) &&& (2^64-1-((2^64-1) <<< bits)%2^64) =
      ((value+incr)%2^bits).toNat := by
    have hlow : 2^64-1-(2^64-2^bits) = 2^bits-1 := by
      have hwide : 2^bits ≤ 2^64 := Nat.pow_le_pow_right (by omega) (by omega)
      have hone := Nat.one_le_two_pow (n := bits)
      omega
    rw [mask_eq (by omega), hlow, Nat.and_two_pow_sub_one_eq_mod, toUnsigned_congr (by omega)]
  unfold checkUnsignedBitfieldOverflow
  dsimp only
  rw [if_neg (show bits ≠ 64 by omega), hwrap, hmax, toLong_of_fits (by omega) (by omega),
    toLong_of_fits (by omega) (by omega)]
  have hover : (value > 2^bits-1 ∨ (incr > 0 ∧ incr > 2^bits-1-(value : ℤ))) ↔
      2^bits-1 < (value : ℤ)+incr := by omega
  have hunder : (incr < 0 ∧ incr < -(value : ℤ)) ↔ (value : ℤ)+incr < 0 := by omega
  simp only [hover, hunder]
  split
  · cases owtype <;> rfl
  · rfl

end RedisCore.Bit
