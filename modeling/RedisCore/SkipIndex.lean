import Mathlib

/-! Towers of a skip list: a list of heights, and for each level the next tower that reaches it. -/

namespace RedisCore.SkipIndex
open Option (getD_none getD_some map_none map_some)

def firstTall (i : ℕ) (hs : List ℕ) : Option ℕ := hs.findIdx? (fun h => i < h)

def next (hs : List ℕ) (i r : ℕ) : Option ℕ := (firstTall i (hs.drop (r+1))).map (·+(r+1))

def gap (hs : List ℕ) (i r : ℕ) : ℕ := (next hs i r).getD (hs.length-1)-r

def Clear (hs : List ℕ) (i r s : ℕ) : Prop := ∀ q, r < q → q ≤ s → ∀ h ∈ hs[q]?, h ≤ i

variable {hs : List ℕ} {q s n : ℕ}

theorem next_eq_some {i r : ℕ} :
    next hs i r = some q ↔ r < q ∧ (∃ h ∈ hs[q]?, i < h) ∧ Clear hs i r (q-1) := by
  unfold next firstTall Clear
  rw [Option.map_eq_some_iff]
  constructor
  · rintro ⟨k, hk, rfl⟩
    obtain ⟨hlt, htall, hlow⟩ := List.findIdx?_eq_some_iff_getElem.mp hk
    simp only [List.getElem_drop, decide_eq_true_eq, not_lt] at htall hlow
    rw [List.length_drop] at hlt
    refine ⟨by omega, ⟨hs[r+1+k], ?_, htall⟩, ?_⟩
    · rw [Nat.add_comm k, List.getElem?_eq_getElem (by omega)]
      rfl
    · intro p hp1 hp2 h hh
      have hp := hlow (p-(r+1)) (by omega)
      have hidx : r+1+(p-(r+1)) = p := by omega
      simp only [hidx] at hp
      rw [List.getElem?_eq_getElem (by omega)] at hh
      cases hh
      exact hp
  · rintro ⟨hlt, ⟨h, hh, htall⟩, hlow⟩
    obtain ⟨hq, rfl⟩ := List.getElem?_eq_some_iff.mp hh
    refine ⟨q-(r+1), ?_, by omega⟩
    rw [List.findIdx?_eq_some_iff_getElem]
    refine ⟨by rw [List.length_drop]; omega, ?_, ?_⟩
    · have hidx : r+1+(q-(r+1)) = q := by omega
      simpa [List.getElem_drop, hidx] using htall
    · intro j hj
      have hle := hlow (r+1+j) (by omega) (by omega) hs[r+1+j]
        (List.getElem?_eq_getElem (by omega))
      simpa [List.getElem_drop] using hle

theorem next_eq_none {i r : ℕ} : next hs i r = none ↔ Clear hs i r hs.length := by
  unfold next firstTall Clear
  rw [Option.map_eq_none_iff, List.findIdx?_eq_none_iff]
  constructor
  · intro hall q hrq hq h hh
    obtain ⟨hlt, rfl⟩ := List.getElem?_eq_some_iff.mp hh
    have hmem : hs[q] ∈ hs.drop (r+1) := by
      rw [List.mem_drop_iff_getElem]
      exact ⟨q-(r+1), by omega, by congr 1; omega⟩
    simpa using hall hs[q] hmem
  · intro hclear h hmem
    obtain ⟨k, hk, rfl⟩ := List.mem_drop_iff_getElem.mp hmem
    have hle := hclear (r+1+k) (by omega) (by omega) _ (List.getElem?_eq_getElem (by omega))
    simpa [Nat.add_comm] using hle

theorem next_lt_length {i r : ℕ} (h : next hs i r = some q) : r < q ∧ q < hs.length := by
  obtain ⟨hlt, ⟨x, hx, -⟩, -⟩ := next_eq_some.1 h
  obtain ⟨hq, -⟩ := List.getElem?_eq_some_iff.mp hx
  exact ⟨hlt, hq⟩

theorem next_of_clear {i r : ℕ} (hrs : r ≤ s) (hc : Clear hs i r s) :
    next hs i r = next hs i s := by
  cases h : next hs i s with
  | some q =>
    obtain ⟨h1, h2, h3⟩ := next_eq_some.1 h
    apply next_eq_some.2
    refine ⟨by omega, h2, ?_⟩
    intro p hp1 hp2
    rcases Nat.lt_or_ge s p with hsp | hps
    · exact h3 p hsp hp2
    · exact hc p hp1 hps
  | none =>
    have h3 := next_eq_none.1 h
    apply next_eq_none.2
    intro p hp1 hp2
    rcases Nat.lt_or_ge s p with hsp | hps
    · exact h3 p hsp hp2
    · exact hc p hp1 hps

theorem gap_ge {i r : ℕ} (hs' : s < hs.length) (hc : Clear hs i r s) : s-r ≤ gap hs i r := by
  unfold gap
  cases h : next hs i r with
  | some q =>
    obtain ⟨h1, ⟨x, hx, htall⟩, -⟩ := next_eq_some.1 h
    have hsq : s < q := by
      by_contra hle
      exact absurd (hc q h1 (by omega) x hx) (by omega)
    simp only [getD_some]
    omega
  | none =>
    simp only [getD_none]
    omega

theorem gap_add_le (hs : List ℕ) (i : ℕ) {r : ℕ} (hr : r < hs.length) :
    r+gap hs i r ≤ hs.length-1 := by
  unfold gap
  cases h : next hs i r with
  | some q =>
    have := next_lt_length h
    simp only [getD_some]
    omega
  | none =>
    simp only [getD_none]
    omega

theorem next_gt_of_clear {i r : ℕ} (hc : Clear hs i r s) (h : next hs i r = some q) : s < q := by
  obtain ⟨h1, ⟨y, hy, htall⟩, -⟩ := next_eq_some.1 h
  by_contra hle
  exact absurd (hc q h1 (by omega) y hy) (by omega)

theorem next_le_of_tall {i r r' h : ℕ} (hlt : r' < r) (hget : hs[r]? = some h)
    (htall : i < h) : ∃ q ≤ r, next hs i r' = some q := by
  cases hn : next hs i r' with
  | some q =>
    refine ⟨q, ?_, rfl⟩
    obtain ⟨-, -, hc⟩ := next_eq_some.1 hn
    by_contra hle
    exact absurd (hc r hlt (by omega) h hget) (by omega)
  | none =>
    have hc := next_eq_none.1 hn
    obtain ⟨hr', -⟩ := List.getElem?_eq_some_iff.mp hget
    exact absurd (hc r hlt (by omega) h hget) (by omega)

def skip (n r : ℕ) : ℕ := if r < n then r else r+1

theorem skip_of_lt {r : ℕ} (h : r < n) : skip n r = r := if_pos h

theorem skip_of_le {r : ℕ} (h : n ≤ r) : skip n r = r+1 := if_neg (by omega)

theorem skip_ne (n r : ℕ) : skip n r ≠ n := by
  unfold skip
  split_ifs <;> omega

theorem skip_inj {r : ℕ} (h : skip n r = skip n s) : r = s := by
  unfold skip at h
  split_ifs at h <;> omega

theorem eq_or_skip (n q : ℕ) : q = n ∨ ∃ r, q = skip n r := by
  rcases Nat.lt_trichotomy q n with hlt | heq | hgt
  · exact Or.inr ⟨q, (skip_of_lt hlt).symm⟩
  · exact Or.inl heq
  · right
    refine ⟨q-1, ?_⟩
    rw [skip_of_le (by omega)]
    omega

section Insert

variable {α : Type} {x : α} {A B : List α}

variable {q r' h' : ℕ}

theorem getElem?_insert_left (hq : q < A.length) : (A ++ x :: B)[q]? = (A ++ B)[q]? := by
  rw [List.getElem?_append_left hq, List.getElem?_append_left hq]

theorem getElem?_insert_right (hq : A.length ≤ q) : (A ++ x :: B)[q+1]? = (A ++ B)[q]? := by
  rw [List.getElem?_append_right (by omega), List.getElem?_append_right hq]
  have hsub : q+1-A.length = (q-A.length)+1 := by omega
  rw [hsub, List.getElem?_cons_succ]

theorem getElem?_insert_new : (A ++ x :: B)[A.length]? = some x := by
  rw [List.getElem?_append_right (le_refl _), Nat.sub_self, List.getElem?_cons_zero]

theorem getElem?_insert_skip (q : ℕ) : (A ++ x :: B)[skip A.length q]? = (A ++ B)[q]? := by
  rcases Nat.lt_or_ge q A.length with hlt | hge
  · rw [skip_of_lt hlt, getElem?_insert_left hlt]
  · rw [skip_of_le hge, getElem?_insert_right hge]

variable {a b : List ℕ} {h i r : ℕ}

theorem next_insert_right (hr : a.length ≤ r+1) :
    next (a ++ h :: b) i (r+1) = (next (a ++ b) i r).map (·+1) := by
  unfold next
  have h1 : (a ++ h :: b).drop (r+1+1) = (a ++ b).drop (r+1) := by
    rw [List.drop_append, List.drop_append, List.drop_eq_nil_of_le (by omega),
      List.drop_eq_nil_of_le hr]
    have hsub : r+1+1-a.length = (r+1-a.length)+1 := by omega
    rw [hsub, List.drop_succ_cons]
  rw [h1, Option.map_map]
  rfl

theorem next_insert_left (hq : q < a.length) (hnext : next (a ++ b) i r = some q) :
    next (a ++ h :: b) i r = some q := by
  obtain ⟨h1, h2, h3⟩ := next_eq_some.1 hnext
  apply next_eq_some.2
  refine ⟨h1, ?_, ?_⟩
  · rw [getElem?_insert_left hq]
    exact h2
  · intro p hp1 hp2
    rw [getElem?_insert_left (by omega)]
    exact h3 p hp1 hp2

theorem next_insert_tall (hr : r < a.length) (hc : Clear (a ++ b) i r (a.length-1)) (hi : i < h) :
    next (a ++ h :: b) i r = some a.length := by
  apply next_eq_some.2
  refine ⟨hr, ⟨h, getElem?_insert_new, hi⟩, ?_⟩
  intro p hp1 hp2
  rw [getElem?_insert_left (by omega)]
  exact hc p hp1 hp2

theorem next_insert_low (hr : r < a.length) (hc : Clear (a ++ b) i r (a.length-1)) (hi : h ≤ i) :
    next (a ++ h :: b) i r = (next (a ++ b) i r).map (·+1) := by
  have hc' : Clear (a ++ h :: b) i r a.length := by
    intro p hp1 hp2
    rcases Nat.lt_or_eq_of_le hp2 with hlt | heq
    · rw [getElem?_insert_left hlt]
      exact hc p hp1 (by omega)
    · intro x hx
      rw [heq, getElem?_insert_new] at hx
      cases hx
      exact hi
  have hpos : a.length-1+1 = a.length := by omega
  have hnew := next_insert_right (a := a) (b := b) (h := h) (i := i) (r := a.length-1) (by omega)
  rw [hpos] at hnew
  rw [next_of_clear (by omega) hc', hnew, ← next_of_clear (by omega) hc]

theorem gap_insert_right (hr : a.length ≤ r+1) :
    gap (a ++ h :: b) i (r+1) = gap (a ++ b) i r := by
  unfold gap
  rw [next_insert_right hr]
  cases next (a ++ b) i r with
  | some q =>
    simp only [map_some, getD_some]
    omega
  | none =>
    simp only [map_none, getD_none, List.length_append, List.length_cons]
    omega

theorem gap_insert_left (hq : q < a.length) (hnext : next (a ++ b) i r = some q) :
    gap (a ++ h :: b) i r = gap (a ++ b) i r := by
  unfold gap
  rw [next_insert_left hq hnext, hnext]
  rfl

theorem gap_insert_tall (hr : r < a.length) (hc : Clear (a ++ b) i r (a.length-1)) (hi : i < h) :
    gap (a ++ h :: b) i r = a.length-1-r+1 := by
  unfold gap
  rw [next_insert_tall hr hc hi, getD_some]
  omega

theorem gap_insert_low (hr : r < a.length) (hc : Clear (a ++ b) i r (a.length-1)) (hi : h ≤ i) :
    gap (a ++ h :: b) i r = gap (a ++ b) i r+1 := by
  unfold gap
  rw [next_insert_low hr hc hi]
  cases hn : next (a ++ b) i r with
  | some q =>
    have := next_lt_length hn
    simp only [map_some, getD_some]
    omega
  | none =>
    simp only [map_none, getD_none, List.length_append, List.length_cons]
    omega

theorem gap_insert_new (hr : r < a.length) (hc : Clear (a ++ b) i r (a.length-1)) :
    gap (a ++ h :: b) i a.length = gap (a ++ b) i r-(a.length-1-r) := by
  have hpos : a.length-1+1 = a.length := by omega
  have hgap := gap_insert_right (a := a) (b := b) (h := h) (i := i) (r := a.length-1) (by omega)
  rw [hpos] at hgap
  rw [hgap]
  unfold gap
  rw [← next_of_clear (by omega) hc]
  omega

theorem next_insert_at (hr : r < a.length) (hc : Clear (a ++ b) i r (a.length-1)) :
    next (a ++ h :: b) i a.length = (next (a ++ b) i r).map (·+1) := by
  have hpos : a.length-1+1 = a.length := by omega
  have hnew := next_insert_right (a := a) (b := b) (h := h) (i := i) (r := a.length-1) (by omega)
  rw [hpos] at hnew
  rw [hnew, ← next_of_clear (by omega) hc]

structure LastTall (a : List ℕ) (i r : ℕ) : Prop where
  lt : r < a.length
  tall : ∃ h ∈ a[r]?, i < h
  front : Clear a i r (a.length-1)

theorem LastTall.clear (hlast : LastTall a i r) (b : List ℕ) :
    Clear (a ++ b) i r (a.length-1) := by
  intro q hq1 hq2 h hh
  rw [List.getElem?_append_left (by have := hlast.lt; omega)] at hh
  exact hlast.front q hq1 hq2 h hh

theorem LastTall.getElem? (hlast : LastTall a i r) (b : List ℕ) :
    ∃ h, (a ++ b)[r]? = some h ∧ i < h := by
  obtain ⟨y, hy, hlt⟩ := hlast.tall
  refine ⟨y, ?_, hlt⟩
  rw [List.getElem?_append_left hlast.lt]
  exact hy

theorem LastTall.next_left (hlast : LastTall a i r) (hr' : r' < a.length)
    (hne : r' ≠ r) (hget : (a ++ b)[r']? = some h') (htall : i < h') :
    ∃ q < a.length, next (a ++ b) i r' = some q := by
  have hlt : r' < r := by
    by_contra hge
    exact absurd (hlast.clear b r' (by omega) (by omega) h' hget) (by omega)
  obtain ⟨y, hy, hty⟩ := hlast.getElem? b
  obtain ⟨q, hq, hn⟩ := next_le_of_tall hlt hy hty
  have := hlast.lt
  exact ⟨q, by omega, hn⟩

theorem next_insert_other (hlast : LastTall a i r) (hne : r' ≠ r)
    (hget : (a ++ b)[r']? = some h') (htall : i < h') :
    next (a ++ h :: b) i (skip a.length r') = (next (a ++ b) i r').map (skip a.length) := by
  rcases Nat.lt_or_ge r' a.length with hlt | hge
  · obtain ⟨q, hq, hn⟩ := hlast.next_left hlt hne hget htall
    rw [skip_of_lt hlt, next_insert_left hq hn, hn, map_some, skip_of_lt hq]
  · rw [skip_of_le hge, next_insert_right (by omega)]
    apply Option.map_congr
    intro q hq
    have := next_lt_length hq
    rw [skip_of_le (by omega)]

theorem gap_insert_other (hlast : LastTall a i r) (hne : r' ≠ r)
    (hget : (a ++ b)[r']? = some h') (htall : i < h') :
    gap (a ++ h :: b) i (skip a.length r') = gap (a ++ b) i r' := by
  rcases Nat.lt_or_ge r' a.length with hlt | hge
  · obtain ⟨q, hq, hn⟩ := hlast.next_left hlt hne hget htall
    rw [skip_of_lt hlt, gap_insert_left hq hn]
  · rw [skip_of_le hge, gap_insert_right (by omega)]

theorem map_succ_eq_skip (hlast : LastTall a i r) :
    (next (a ++ b) i r).map (·+1) = (next (a ++ b) i r).map (skip a.length) := by
  apply Option.map_congr
  intro q hq
  have := next_gt_of_clear (hlast.clear b) hq
  have := hlast.lt
  rw [skip_of_le (by omega)]

theorem next_insert_below (hlast : LastTall a i r) (hi : h ≤ i) :
    next (a ++ h :: b) i r = (next (a ++ b) i r).map (skip a.length) := by
  rw [next_insert_low hlast.lt (hlast.clear b) hi, map_succ_eq_skip hlast]

theorem next_insert_new (hlast : LastTall a i r) :
    next (a ++ h :: b) i a.length = (next (a ++ b) i r).map (skip a.length) := by
  rw [next_insert_at hlast.lt (hlast.clear b), map_succ_eq_skip hlast]

end Insert

variable {n : ℕ} {hs : List ℕ}

theorem next_eq_none_of_le {i : ℕ} (h : ∀ y ∈ hs, y ≤ i) (r : ℕ) : next (n :: hs) i r = none := by
  apply next_eq_none.2
  intro q hq1 _ y hy
  have hq : q = (q-1)+1 := by omega
  rw [hq, List.getElem?_cons_succ] at hy
  exact h y (List.mem_of_getElem? hy)

theorem exists_of_next_ne_none {i : ℕ} {r : ℕ} (h : next (n :: hs) i r ≠ none) :
    ∃ y ∈ hs, i < y := by
  by_contra hall
  apply h
  apply next_eq_none_of_le
  intro y hy
  by_contra hlt
  exact hall ⟨y, hy, by omega⟩

theorem LastTall.cons {n' i r : ℕ} (h : LastTall (n :: hs) i r)
    (hi : i < n → i < n') : LastTall (n' :: hs) i r := by
  obtain ⟨hlt, ⟨y, hy, htall⟩, hfront⟩ := h
  refine ⟨hlt, ?_, ?_⟩
  · cases r with
    | zero =>
      rw [List.getElem?_cons_zero] at hy
      cases hy
      exact ⟨n', rfl, hi htall⟩
    | succ r => exact ⟨y, hy, htall⟩
  · intro q hq1 hq2 x hx
    have hq : q = (q-1)+1 := by omega
    apply hfront q hq1 hq2 x
    rw [hq, List.getElem?_cons_succ] at hx ⊢
    exact hx

theorem lastTall_first {i : ℕ} (h : ∀ y ∈ hs, y ≤ i) (hi : i < n) : LastTall (n :: hs) i 0 := by
  refine ⟨by simp, ⟨n, rfl, hi⟩, ?_⟩
  intro q hq1 _ y hy
  have hq : q = (q-1)+1 := by omega
  rw [hq, List.getElem?_cons_succ] at hy
  exact h y (List.mem_of_getElem? hy)

end RedisCore.SkipIndex
