import RedisCore.ByteBlock

namespace RedisCore
open UInt8 (le_iff_toNat_le ofNat toNat_ofNat')

def decimalNat (n : ℕ) : Bytes :=
  if n < 10 then [ofNat (48+n)] else decimalNat (n/10) ++ [ofNat (48+n%10)]
termination_by n
decreasing_by omega

def decimal (v : ℤ) : Bytes := if v < 0 then 45 :: decimalNat v.natAbs else decimalNat v.natAbs

def isDigit (c : UInt8) : Bool := 48 ≤ c && c ≤ 57

def digitValue (c : UInt8) : ℕ := c.toNat-48

/-- The digit loop of `string2ll`, with its overflow checks against `ULLONG_MAX`. -/
def string2llDigits (v : ℕ) : Bytes → Option ℕ
  | [] => some v
  | c :: cs =>
    if isDigit c then
      if v > (2^64-1)/10 then none
      else if v*10 > 2^64-1-digitValue c then none
      else string2llDigits (v*10+digitValue c) cs
    else none

def string2llMagnitude : Bytes → Option ℕ
  | [] => none
  | c :: cs => if 49 ≤ c && c ≤ 57 then string2llDigits (digitValue c) cs else none

def string2ll (s : Bytes) : Option ℤ :=
  match s with
  | [] => none
  | c :: cs =>
    if s = [48] then some 0
    else if c = 45 then
      match string2llMagnitude cs with
      | none => none
      | some v => if v > 2^63 then none else some (-(v : ℤ))
    else
      match string2llMagnitude s with
      | none => none
      | some v => if v > 2^63-1 then none else some v

theorem decimal_natCast (n : ℕ) : decimal n = decimalNat n := by
  rw [decimal, if_neg (by omega), Int.natAbs_natCast]

theorem isDigit_iff (c : UInt8) : isDigit c = true ↔ 48 ≤ c.toNat ∧ c.toNat ≤ 57 := by
  simp [isDigit, le_iff_toNat_le]

theorem digit_of_digitValue {c : UInt8} (h : 48 ≤ c.toNat) :
    ofNat (48+digitValue c) = c := by
  rw [digitValue, show 48+(c.toNat-48) = c.toNat by omega, UInt8.ofNat_toNat]

theorem decimalNat_push (v d : ℕ) (hv : 0 < v) (hd : d < 10) :
    decimalNat (v*10+d) = decimalNat v ++ [ofNat (48+d)] := by
  rw [decimalNat, if_neg (by omega), show (v*10+d)/10 = v by omega,
    show (v*10+d)%10 = d by omega]

theorem decimalNat_of_digits {cs : Bytes} {v w : ℕ} (hv : 0 < v)
    (h : string2llDigits v cs = some w) : 0 < w ∧ decimalNat w = decimalNat v ++ cs := by
  induction cs generalizing v with
  | nil =>
    obtain rfl : v = w := by simpa [string2llDigits] using h
    simp [hv]
  | cons c cs ih =>
    rw [string2llDigits] at h
    split_ifs at h with hc h1 h2
    obtain ⟨hl, hu⟩ := (isDigit_iff c).mp hc
    have hd : digitValue c < 10 := by rw [digitValue]; omega
    obtain ⟨hw, he⟩ := ih (by omega) h
    refine ⟨hw, ?_⟩
    rw [he, decimalNat_push v _ hv hd, digit_of_digitValue hl, List.append_assoc]
    rfl

theorem decimalNat_of_magnitude {s : Bytes} {w : ℕ} (h : string2llMagnitude s = some w) :
    0 < w ∧ decimalNat w = s := by
  cases s with
  | nil => cases h
  | cons c cs =>
    rw [string2llMagnitude] at h
    split_ifs at h with hc
    have hr : 49 ≤ c.toNat ∧ c.toNat ≤ 57 := by
      simpa [le_iff_toNat_le] using hc
    have hv : 0 < digitValue c := by rw [digitValue]; omega
    obtain ⟨hw, he⟩ := decimalNat_of_digits hv h
    refine ⟨hw, ?_⟩
    rw [he, decimalNat, if_pos (by rw [digitValue]; omega), digit_of_digitValue (by omega)]
    rfl

theorem string2ll_some {s : Bytes} {v : ℤ} (h : string2ll s = some v) :
    decimal v = s ∧ -2^63 ≤ v ∧ v < 2^63 := by
  cases s with
  | nil => cases h
  | cons c cs =>
    rw [string2ll] at h
    split_ifs at h with h0 hneg
    · obtain rfl : 0 = v := by simpa using h
      refine ⟨?_, by norm_num, by norm_num⟩
      rw [h0, decimal, if_neg (by omega), Int.natAbs_zero, decimalNat, if_pos (by omega)]
      rfl
    · cases hm : string2llMagnitude cs with
      | none => simp [hm] at h
      | some w =>
        simp only [hm] at h
        split_ifs at h with hw
        obtain ⟨hpos, hd⟩ := decimalNat_of_magnitude hm
        obtain rfl : -(w:ℤ) = v := by simpa using h
        refine ⟨?_, by omega, by omega⟩
        rw [decimal, if_pos (by omega), Int.natAbs_neg, Int.natAbs_natCast, hd, hneg]
    · cases hm : string2llMagnitude (c :: cs) with
      | none => simp [hm] at h
      | some w =>
        simp only [hm] at h
        split_ifs at h with hw
        obtain ⟨hpos, hd⟩ := decimalNat_of_magnitude hm
        obtain rfl : (w:ℤ) = v := by simpa using h
        refine ⟨?_, by omega, by omega⟩
        rw [decimal, if_neg (by omega), Int.natAbs_natCast, hd]

theorem string2llDigits_append (v : ℕ) (cs ds : Bytes) :
    string2llDigits v (cs ++ ds) = (string2llDigits v cs).bind (string2llDigits · ds) := by
  induction cs generalizing v with
  | nil => rfl
  | cons c cs ih =>
    rw [List.cons_append, string2llDigits, string2llDigits]
    split_ifs
    · rfl
    · rfl
    · exact ih _
    · rfl

theorem string2llMagnitude_append {cs : Bytes} {v : ℕ} (h : string2llMagnitude cs = some v)
    (ds : Bytes) : string2llMagnitude (cs ++ ds) = string2llDigits v ds := by
  cases cs with
  | nil => cases h
  | cons c cs =>
    rw [string2llMagnitude] at h
    rw [List.cons_append, string2llMagnitude]
    split_ifs at h ⊢
    rw [string2llDigits_append, h, Option.bind_some]

theorem string2llDigits_digit {v d : ℕ} (hd : d < 10) (h : v*10+d < 2^64) :
    string2llDigits v [ofNat (48+d)] = some (v*10+d) := by
  have hc : (ofNat (48+d)).toNat = 48+d := by
    rw [toNat_ofNat']
    omega
  have hval : digitValue (ofNat (48+d)) = d := by
    rw [digitValue, hc]
    omega
  have hdig : isDigit (ofNat (48+d)) = true := by
    rw [isDigit_iff, hc]
    omega
  rw [string2llDigits, if_pos hdig, if_neg (by omega), hval, if_neg (by omega), string2llDigits]

theorem string2llMagnitude_decimalNat {n : ℕ} (hn : 0 < n) (h : n < 2^64) :
    string2llMagnitude (decimalNat n) = some n := by
  induction n using Nat.strong_induction_on with
  | _ n ih =>
    rw [decimalNat]
    by_cases hlt : n < 10
    · have hc : (ofNat (48+n)).toNat = 48+n := by
        rw [toNat_ofNat']
        omega
      have hrange : (49 ≤ ofNat (48+n) && ofNat (48+n) ≤ 57) = true := by
        simp only [Bool.and_eq_true, decide_eq_true_eq, le_iff_toNat_le, hc]
        exact ⟨by show 49 ≤ _; omega, by show _ ≤ 57; omega⟩
      rw [if_pos hlt, string2llMagnitude, if_pos hrange, digitValue, hc, string2llDigits]
      congr 1
      omega
    · have hrec := ih (n/10) (by omega) (by omega) (by omega)
      rw [if_neg hlt, string2llMagnitude_append hrec, string2llDigits_digit (by omega) (by omega)]
      congr 1
      omega

theorem decimalNat_length {n k : ℕ} (h : n < 10^(k+1)) : (decimalNat n).length ≤ k+1 := by
  induction k generalizing n with
  | zero =>
    rw [decimalNat, if_pos (by simpa using h)]
    rfl
  | succ k ih =>
    rw [decimalNat]
    split_ifs
    · simp
    · have hrec := ih (n := n/10) (by rw [pow_succ] at h; omega)
      rw [List.length_append, List.length_singleton]
      omega

theorem decimalNat_ne_nil (n : ℕ) : decimalNat n ≠ [] := by
  rw [decimalNat]
  split_ifs <;> simp

theorem decimal_length {v : ℤ} (hlo : -2^63 ≤ v) (hhi : v < 2^63) :
    1 ≤ (decimal v).length ∧ (decimal v).length ≤ 20 := by
  have hlen := decimalNat_length (n := v.natAbs) (k := 18) (by norm_num; omega)
  have hpos := List.length_pos_iff.mpr (decimalNat_ne_nil v.natAbs)
  unfold decimal
  split_ifs
  · rw [List.length_cons]
    omega
  · omega

theorem decimalNat_head {n : ℕ} : ∃ c cs, decimalNat n = c :: cs ∧ c ≠ 45 := by
  induction n using Nat.strong_induction_on with
  | _ n ih =>
    rw [decimalNat]
    split_ifs with hlt
    · refine ⟨_, [], rfl, ?_⟩
      intro h
      have hc := congrArg UInt8.toNat h
      rw [toNat_ofNat'] at hc
      have h45 : (45 : UInt8).toNat = 45 := rfl
      omega
    · obtain ⟨c, cs, hcs, hne⟩ := ih (n/10) (by omega)
      exact ⟨c, cs ++ _, by rw [hcs]; rfl, hne⟩

theorem string2ll_decimal {v : ℤ} (hlo : -2^63 ≤ v) (hhi : v < 2^63) :
    string2ll (decimal v) = some v := by
  unfold decimal
  by_cases hneg : v < 0
  · have hm := string2llMagnitude_decimalNat (n := v.natAbs) (by omega) (by omega)
    have h48 : 45 :: decimalNat v.natAbs ≠ [48] := by
      intro h
      cases h
    rw [if_pos hneg, string2ll, if_neg h48, if_pos rfl, hm]
    dsimp only
    rw [if_neg (by omega)]
    congr 1
    omega
  · rw [if_neg hneg]
    rcases Nat.eq_zero_or_pos v.natAbs with hzero | hpos
    · have hv : v = 0 := by omega
      rw [hv, Int.natAbs_zero, decimalNat]
      rfl
    · have hm := string2llMagnitude_decimalNat hpos (by omega)
      obtain ⟨c, cs, hcs, hne⟩ := decimalNat_head (n := v.natAbs)
      rw [hcs] at hm ⊢
      have h48 : c :: cs ≠ [48] := by
        intro h
        cases h
        rw [string2llMagnitude, if_neg (by decide)] at hm
        cases hm
      rw [string2ll, if_neg h48, if_neg hne, hm]
      dsimp only
      rw [if_neg (by omega)]
      congr 1
      omega

end RedisCore
