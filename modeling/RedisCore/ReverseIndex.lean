import Mathlib.Data.List.AList
import Mathlib.Data.List.Nodup

/-! A relation between members and keys, kept as a dictionary from the keys to lists of members. -/

namespace ReverseIndex

variable {κ γ : Type} [DecidableEq κ]

def link (t : AList (fun _ : κ => List γ)) (k : κ) (c : γ) : AList (fun _ : κ => List γ) :=
  t.insert k ((t.lookup k).getD [] ++ [c])

def unlink [DecidableEq γ] (t : AList (fun _ : κ => List γ)) (k : κ) (c : γ) :
    Option (AList (fun _ : κ => List γ)) :=
  match t.lookup k with
  | none => none
  | some l =>
    if c ∈ l then
      if l.erase c = [] then some (t.erase k) else some (t.insert k (l.erase c))
    else none

structure Indexes (t : AList (fun _ : κ => List γ)) (R : γ → κ → Prop) : Prop where
  nonempty : ∀ k, t.lookup k ≠ some []
  nodup : ∀ k l, t.lookup k = some l → l.Nodup
  mem : ∀ k c, c ∈ (t.lookup k).getD [] ↔ R c k

variable {t : AList (fun _ : κ => List γ)} {R R' : γ → κ → Prop} {k : κ} {c : γ}

theorem indexes_empty : Indexes (∅ : AList (fun _ : κ => List γ)) (fun _ _ => False) where
  nonempty := by simp
  nodup := by simp
  mem := by simp

theorem Indexes.congr (h : Indexes t R) (hR : ∀ c k, R c k ↔ R' c k) : Indexes t R' :=
  ⟨h.nonempty, h.nodup, fun k c => (h.mem k c).trans (hR c k)⟩

theorem Indexes.nodup_members (h : Indexes t R) (k : κ) : ((t.lookup k).getD []).Nodup := by
  cases hl : t.lookup k with
  | none => exact List.nodup_nil
  | some l => exact h.nodup k l hl

theorem Indexes.mem_keys (h : Indexes t R) : k ∈ t.keys ↔ ∃ c, R c k := by
  rw [← AList.mem_keys, ← AList.lookup_isSome]
  constructor
  · intro hsome
    obtain ⟨l, hl⟩ := Option.isSome_iff_exists.1 hsome
    have hne : l ≠ [] := fun hnil => h.nonempty k (hnil ▸ hl)
    obtain ⟨c, hc⟩ := List.exists_mem_of_ne_nil l hne
    refine ⟨c, (h.mem k c).1 ?_⟩
    rw [hl]
    exact hc
  · intro ⟨c, hc⟩
    have hmem := (h.mem k c).2 hc
    cases hl : t.lookup k with
    | none =>
      rw [hl] at hmem
      exact absurd hmem List.not_mem_nil
    | some l => rfl

theorem Indexes.change {t' : AList (fun _ : κ => List γ)} {l : Option (List γ)} (h : Indexes t R)
    (hself : t'.lookup k = l) (hother : ∀ k', k' ≠ k → t'.lookup k' = t.lookup k')
    (hne : l ≠ some []) (hnodup : (l.getD []).Nodup) (hmem : ∀ c, c ∈ l.getD [] ↔ R' c k)
    (hR : ∀ c k', k' ≠ k → (R' c k' ↔ R c k')) : Indexes t' R' := by
  refine ⟨fun k' => ?_, fun k' l' hl' => ?_, fun k' c => ?_⟩
  · by_cases hk : k' = k
    · rw [hk, hself]
      exact hne
    · rw [hother k' hk]
      exact h.nonempty k'
  · by_cases hk : k' = k
    · rw [hk, hself] at hl'
      rw [hl'] at hnodup
      exact hnodup
    · rw [hother k' hk] at hl'
      exact h.nodup k' l' hl'
  · by_cases hk : k' = k
    · rw [hk, hself]
      exact hmem c
    · rw [hother k' hk, hR c k' hk]
      exact h.mem k' c

theorem Indexes.link (h : Indexes t R) (hnot : ¬R c k)
    (hR : ∀ c' k', R' c' k' ↔ R c' k' ∨ (c' = c ∧ k' = k)) : Indexes (link t k c) R' := by
  have hnew : c ∉ (t.lookup k).getD [] := fun hmem => hnot ((h.mem k c).1 hmem)
  refine h.change (AList.lookup_insert t) (fun k' hk => AList.lookup_insert_ne hk) ?_ ?_ ?_ ?_
  · simp
  · exact List.nodup_append_comm.1 (List.nodup_cons.2 ⟨hnew, h.nodup_members k⟩)
  · intro c'
    rw [Option.getD_some, List.mem_append, List.mem_singleton, h.mem, hR]
    simp
  · intro c' k' hk
    rw [hR]
    simp [hk]

theorem Indexes.unlink [DecidableEq γ] (h : Indexes t R) (hR : R c k)
    (hR' : ∀ c' k', R' c' k' ↔ R c' k' ∧ ¬(c' = c ∧ k' = k)) :
    ∃ t', unlink t k c = some t' ∧ Indexes t' R' := by
  have hmem := (h.mem k c).2 hR
  have hrest : ∀ c' k', k' ≠ k → (R' c' k' ↔ R c' k') := by
    intro c' k' hk
    rw [hR']
    simp [hk]
  cases hl : t.lookup k with
  | none =>
    rw [hl] at hmem
    exact absurd hmem List.not_mem_nil
  | some l =>
    rw [hl, Option.getD_some] at hmem
    have hnodup := h.nodup k l hl
    have hleft (c' : γ) : c' ∈ l.erase c ↔ R' c' k := by
      rw [hnodup.mem_erase_iff, hR', ← h.mem k c', hl, Option.getD_some]
      simp [and_comm]
    rw [ReverseIndex.unlink, hl]
    dsimp only
    rw [if_pos hmem]
    by_cases hlast : l.erase c = []
    · rw [if_pos hlast]
      have hself : (t.erase k).lookup k = none := AList.lookup_erase k t
      refine ⟨_, rfl, h.change hself (fun k' hk => AList.lookup_erase_ne hk) ?_ List.nodup_nil ?_
        hrest⟩
      · simp
      · -- nobody is left
        intro c'
        rw [← hleft, hlast]
        rfl
    · rw [if_neg hlast]
      refine ⟨_, rfl, h.change (AList.lookup_insert t) (fun k' hk => AList.lookup_insert_ne hk) ?_
        (hnodup.erase c) hleft hrest⟩
      exact fun hnil => hlast (Option.some.inj hnil)

end ReverseIndex
