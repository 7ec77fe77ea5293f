import Mathlib.Data.List.Basic

/-! Longest common subsequences, and the table of their lengths over the prefixes of two lists. -/

namespace RedisCore.Subsequence

variable {α : Type*}

/-- A common subsequence that no other one exceeds. -/
structure IsLongest (s a b : List α) : Prop where
  left : s.Sublist a
  right : s.Sublist b
  longest : ∀ t : List α, t.Sublist a → t.Sublist b → t.length ≤ s.length

theorem sublist_concat {t u : List α} {x : α} (h : t.Sublist (u ++ [x])) :
    t.Sublist u ∨ ∃ t', t = t' ++ [x] ∧ t'.Sublist u := by
  obtain ⟨t', last, heq, hinit, hlast⟩ := List.sublist_append_iff.mp h
  rcases List.sublist_singleton.mp hlast with hnil | hone
  · left
    rw [heq, hnil, List.append_nil]
    exact hinit
  · right
    rw [hone] at heq
    exact ⟨t', heq, hinit⟩

theorem dropLast_sublist {t u : List α} {x : α} (h : t.Sublist (u ++ [x])) :
    t.dropLast.Sublist u := by
  rcases sublist_concat h with hinit | ⟨t', heq, hinit⟩
  · exact (List.dropLast_sublist t).trans hinit
  · rw [heq, List.dropLast_concat]
    exact hinit

variable [DecidableEq α]

def prefixLength (a b : List α) : ℕ → ℕ → ℕ
  | 0, _ => 0
  | _+1, 0 => 0
  | i+1, j+1 =>
    if a[i]? = b[j]? then prefixLength a b i j+1
    else max (prefixLength a b i (j+1)) (prefixLength a b (i+1) j)
termination_by i j => i+j

variable {a b : List α} {i j : ℕ}

theorem prefixLength_zero_left : prefixLength a b 0 j = 0 := by
  rw [prefixLength]

theorem prefixLength_zero_right : prefixLength a b i 0 = 0 := by
  cases i with
  | zero => rw [prefixLength]
  | succ i => rw [prefixLength]

theorem prefixLength_match (h : a[i]? = b[j]?) :
    prefixLength a b (i+1) (j+1) = prefixLength a b i j+1 := by
  rw [prefixLength, if_pos h]

theorem prefixLength_differ (h : ¬a[i]? = b[j]?) : prefixLength a b (i+1) (j+1) =
    max (prefixLength a b i (j+1)) (prefixLength a b (i+1) j) := by
  rw [prefixLength, if_neg h]

theorem prefixLength_le (a b : List α) (i j : ℕ) : prefixLength a b i j ≤ i := by
  induction i, j using prefixLength.induct a b with
  | case1 j => exact Nat.le_of_eq prefixLength_zero_left
  | case2 i => exact Nat.le_trans (Nat.le_of_eq prefixLength_zero_right) (Nat.zero_le _)
  | case3 i j heq ih =>
    rw [prefixLength_match heq]
    omega
  | case4 i j hne ihi ihj =>
    rw [prefixLength_differ hne]
    omega

theorem length_le_prefixLength {t : List α} (hi : i ≤ a.length) (hj : j ≤ b.length)
    (hleft : t.Sublist (a.take i)) (hright : t.Sublist (b.take j)) :
    t.length ≤ prefixLength a b i j := by
  induction i, j using prefixLength.induct a b generalizing t with
  | case1 j =>
    rw [List.take_zero, List.sublist_nil] at hleft
    rw [hleft]
    exact Nat.zero_le _
  | case2 i =>
    rw [List.take_zero, List.sublist_nil] at hright
    rw [hright]
    exact Nat.zero_le _
  | case3 i j heq ih =>
    rw [List.take_succ_eq_append_getElem (by omega)] at hleft
    rw [List.take_succ_eq_append_getElem (by omega)] at hright
    have hle := ih (by omega) (by omega) (dropLast_sublist hleft) (dropLast_sublist hright)
    rw [List.length_dropLast] at hle
    rw [prefixLength_match heq]
    omega
  | case4 i j hne ihi ihj =>
    rw [prefixLength_differ hne]
    have hleft' := hleft
    rw [List.take_succ_eq_append_getElem (by omega)] at hleft'
    rcases sublist_concat hleft' with hshort | ⟨t', heq, _⟩
    · exact Nat.le_trans (ihi (by omega) hj hshort hright) (Nat.le_max_left _ _)
    · have hright' := hright
      rw [List.take_succ_eq_append_getElem (by omega)] at hright'
      rcases sublist_concat hright' with hshort | ⟨t'', heq', _⟩
      · exact Nat.le_trans (ihj hi (by omega) hleft hshort) (Nat.le_max_right _ _)
      · -- both prefixes cannot end in the last element of `t`
        exfalso
        have hlast := List.append_inj_right' (heq.symm.trans heq') rfl
        apply hne
        rw [List.getElem?_eq_getElem (by omega), List.getElem?_eq_getElem (by omega),
          List.singleton_inj.mp hlast]

theorem isLongest_of_length {s : List α} (hleft : s.Sublist a) (hright : s.Sublist b)
    (hlen : s.length = prefixLength a b a.length b.length) : IsLongest s a b := by
  refine ⟨hleft, hright, ?_⟩
  intro t ht ht'
  rw [hlen]
  apply length_le_prefixLength (Nat.le_refl _) (Nat.le_refl _)
  · rwa [List.take_length]
  · rwa [List.take_length]

end RedisCore.Subsequence
