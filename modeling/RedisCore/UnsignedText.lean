import RedisCore.AofFormat

namespace RedisCore

/-- What `strtoull` leaves behind: the number, the text at `endptr`, and whether `errno` is
`ERANGE`. -/
structure Strtoull where
  value : ℕ
  endptr : Bytes
  erange : Bool
deriving DecidableEq, Repr

def splitSign : Bytes → Bool × Bytes
  | [] => (false, [])
  | c :: cs => if c = 45 then (true, cs) else if c = 43 then (false, cs) else (false, c :: cs)

/-- `strtoull` in base 10: spaces, a sign, digits. -/
def strtoull (s : Bytes) : Strtoull :=
  let r := splitSign (s.dropWhile isspace)
  if r.2.takeWhile isDigit = [] then ⟨0, s, false⟩
  else
    let n := digitsValue r.2
    let endptr := r.2.dropWhile isDigit
    if n > 2^64-1 then ⟨2^64-1, endptr, true⟩
    else if r.1 then ⟨(2^64-n)%2^64, endptr, false⟩
    else ⟨n, endptr, false⟩

def string2ull (s : Bytes) : Option ℕ :=
  match string2ll s with
  | some ll => if ll < 0 then none else some ll.toNat
  | none =>
    let r := strtoull s
    if r.erange ∨ ¬(s ≠ [] ∧ r.endptr = []) then none else some r.value

def denotes (s : Bytes) : Option ℤ :=
  let r := splitSign (s.dropWhile isspace)
  if r.2 ≠ [] ∧ r.2.all isDigit then
    some (if r.1 then -(digitsValue r.2 : ℤ) else digitsValue r.2)
  else none

def WrapsAround (s : Bytes) : Prop :=
  string2ll s = none ∧ ∃ v, denotes s = some v ∧ v < 0 ∧ -2^64 < v

theorem takeWhile_ne_nil {s : Bytes} (hs : s ≠ []) (h : s.dropWhile isDigit = []) :
    s.takeWhile isDigit ≠ [] := by
  intro hnil
  apply hs
  rw [← List.takeWhile_append_dropWhile (p := isDigit) (l := s), hnil, h]
  rfl

theorem all_isDigit_iff {s : Bytes} : s.all isDigit = true ↔ s.dropWhile isDigit = [] := by
  rw [List.dropWhile_eq_nil_iff, List.all_eq_true]

theorem string2ull_of_reject {s : Bytes} (h : string2ll s = none) : string2ull s =
    match denotes s with
    | none => none
    | some v => if -2^64 < v ∧ v < 2^64 then some (v % 2^64).toNat else none := by
  have hempty : s = [] → (splitSign (s.dropWhile isspace)).2 = [] := by
    rintro rfl
    rfl
  unfold string2ull strtoull denotes
  rw [h]
  dsimp only
  obtain ⟨⟨negative, digits⟩, hr⟩ : ∃ r, splitSign (s.dropWhile isspace) = r := ⟨_, rfl⟩
  rw [hr] at hempty ⊢
  dsimp only at hempty ⊢
  by_cases hwhole : digits ≠ [] ∧ digits.all isDigit = true
  · obtain ⟨hne, hall⟩ := hwhole
    have hend := all_isDigit_iff.1 hall
    have hs : s ≠ [] := fun hs => hne (hempty hs)
    have hpos : (digits ≠ [] ∧ digits.all isDigit = true) := ⟨hne, hall⟩
    rw [if_neg (takeWhile_ne_nil hne hend), hend]
    simp only [if_pos hpos]
    by_cases hbig : digitsValue digits > 2^64-1
    · rw [if_pos hbig, if_pos (Or.inl rfl), if_neg]
      split_ifs <;> omega
    · rw [if_neg hbig]
      cases negative with
      | true =>
        simp only [if_true, ne_eq, hs, not_false_eq_true, and_self, not_true_eq_false, or_self,
          Bool.false_eq_true, if_false]
        rw [if_pos (by omega)]
        congr 1
        omega
      | false =>
        simp only [ne_eq, hs, not_false_eq_true, and_self, not_true_eq_false, or_self,
          Bool.false_eq_true, if_false]
        rw [if_pos (by omega)]
        congr 1
        omega
  · rw [if_neg hwhole]
    dsimp only
    apply if_pos
    by_cases hnone : digits.takeWhile isDigit = []
    · rw [if_pos hnone]
      exact Or.inr (fun hs => hs.1 hs.2)
    · have hne : digits ≠ [] := fun hd => hnone (by rw [hd]; rfl)
      have hend : digits.dropWhile isDigit ≠ [] :=
        fun hd => hwhole ⟨hne, all_isDigit_iff.2 hd⟩
      rw [if_neg hnone]
      split_ifs
      · exact Or.inl rfl
      · exact Or.inr (fun hs => hend hs.2)
      · exact Or.inr (fun hs => hend hs.2)

theorem dropWhile_isspace_digits {c : UInt8} (hc : isDigit c = true) (cs : Bytes) :
    splitSign ((c :: cs).dropWhile isspace) = (false, c :: cs) := by
  obtain ⟨hlo, hhi⟩ := (isDigit_iff c).mp hc
  have hval : ∀ k : UInt8, c = k → 48 ≤ k.toNat := fun k h => h ▸ hlo
  have hspace : isspace c = false := by
    rw [isspace, Bool.or_eq_false_iff, Bool.and_eq_false_iff]
    constructor
    · simpa using fun h => absurd (hval _ h) (by decide)
    · right
      simp only [UInt8.le_iff_toNat_le, decide_eq_false_iff_not, not_le]
      show 13 < c.toNat
      omega
  have hminus : c ≠ 45 := fun h => absurd (hval _ h) (by decide)
  have hplus : c ≠ 43 := fun h => absurd (hval _ h) (by decide)
  rw [List.dropWhile_cons_of_neg (by simp [hspace]), splitSign, if_neg hminus, if_neg hplus]

theorem digitsValue_decimalNat (n : ℕ) : digitsValue (decimalNat n) = n := by
  unfold digitsValue
  rw [List.takeWhile_eq_self_iff.mpr (Aof.decimalNat_isDigit n), Aof.foldl_decimalNat]

theorem denotes_decimalNat (n : ℕ) : denotes (decimalNat n) = some (n : ℤ) := by
  obtain ⟨c, cs, hcs, -⟩ := @decimalNat_head n
  have hc : isDigit c = true := Aof.decimalNat_isDigit n c (by rw [hcs]; exact List.mem_cons_self)
  have hall : (decimalNat n).all isDigit = true :=
    List.all_eq_true.mpr (Aof.decimalNat_isDigit n)
  have hval := digitsValue_decimalNat n
  unfold denotes
  rw [hcs] at hall hval ⊢
  rw [dropWhile_isspace_digits hc]
  dsimp only
  rw [if_pos ⟨List.cons_ne_nil c cs, hall⟩, hval]
  rfl

theorem denotes_of_string2ll {s : Bytes} {v : ℤ} (h : string2ll s = some v) :
    denotes s = some v := by
  obtain ⟨rfl, -, -⟩ := string2ll_some h
  unfold decimal
  split_ifs with hneg
  · have hall : (decimalNat v.natAbs).all isDigit = true :=
      List.all_eq_true.mpr (Aof.decimalNat_isDigit _)
    have hsplit : splitSign ((45 :: decimalNat v.natAbs).dropWhile isspace) =
        (true, decimalNat v.natAbs) := rfl
    unfold denotes
    rw [hsplit]
    dsimp only
    rw [if_pos ⟨decimalNat_ne_nil _, hall⟩, digitsValue_decimalNat, if_pos rfl]
    congr 1
    omega
  · rw [denotes_decimalNat, Int.natAbs_of_nonneg (by omega)]

/-- What is wanted of `string2ull` on one text: an accepted text denotes the returned number, which is an
`unsigned long long`, and every canonical text of such a number is accepted. -/
def ParsesUnsigned (s : Bytes) : Prop :=
  (∀ n, string2ull s = some n → denotes s = some (n : ℤ) ∧ n < 2^64) ∧
    (∀ n < 2^64, s = decimalNat n → string2ull s = some n)

/-- `string2ull` is right about exactly the texts that do not denote a negative number above
-2^64 in another way than the strict parser takes. -/
theorem string2ull_right_iff (s : Bytes) : ParsesUnsigned s ↔ ¬WrapsAround s := by
  constructor
  · rintro ⟨hsound, -⟩ ⟨hreject, v, hden, hneg, hlow⟩
    have hrun := string2ull_of_reject hreject
    rw [hden] at hrun
    dsimp only at hrun
    rw [if_pos ⟨hlow, by omega⟩] at hrun
    obtain ⟨hv, -⟩ := hsound _ hrun
    rw [hden] at hv
    have heq : v = ((v % 2^64).toNat : ℤ) := Option.some.inj hv
    omega
  · intro hwrap
    constructor
    · intro n hn
      cases hparse : string2ll s with
      | some ll =>
        have hden := denotes_of_string2ll hparse
        obtain ⟨-, -, hhi⟩ := string2ll_some hparse
        unfold string2ull at hn
        rw [hparse] at hn
        dsimp only at hn
        split_ifs at hn with hneg
        obtain rfl : ll.toNat = n := Option.some.inj hn
        refine ⟨?_, by omega⟩
        rw [hden]
        congr 1
        omega
      | none =>
        rw [string2ull_of_reject hparse] at hn
        cases hden : denotes s with
        | none =>
          rw [hden] at hn
          cases hn
        | some v =>
          rw [hden] at hn
          dsimp only at hn
          split_ifs at hn with hrange
          -- a negative number would be wrapped around
          have hpos : 0 ≤ v := by
            by_contra hneg
            exact hwrap ⟨hparse, v, hden, by omega, hrange.1⟩
          obtain rfl : (v % 2^64).toNat = n := Option.some.inj hn
          refine ⟨?_, by omega⟩
          congr 1
          omega
    · rintro n hn rfl
      have hden := denotes_decimalNat n
      cases hparse : string2ll (decimalNat n) with
      | some ll =>
        have hsame := denotes_of_string2ll hparse
        rw [hden] at hsame
        obtain rfl : (n : ℤ) = ll := Option.some.inj hsame
        unfold string2ull
        rw [hparse]
        dsimp only
        rw [if_neg (by omega), Int.toNat_natCast]
      | none =>
        rw [string2ull_of_reject hparse, hden]
        dsimp only
        rw [if_pos (by omega)]
        congr 1
        omega

/-- The text "-18446744073709551615" is accepted, as the number 1. -/
theorem string2ull_negative : ¬ParsesUnsigned (text "-18446744073709551615") := by
  rintro ⟨hsound, -⟩
  have hrun : string2ull (text "-18446744073709551615") = some 1 := by decide
  obtain ⟨hden, -⟩ := hsound 1 hrun
  have hother : denotes (text "-18446744073709551615") = some (-18446744073709551615) := by
    decide
  rw [hother] at hden
  exact absurd (Option.some.inj hden) (by norm_num)

end RedisCore
