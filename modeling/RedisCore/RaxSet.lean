import RedisCore.SdsCompare
import Mathlib.Data.List.Sort

namespace RedisCore.RaxSet
open List (countP_cons mem_cons pairwise_cons)

def raxInsert (e : Bytes) : List Bytes → List Bytes
  | [] => [e]
  | x :: xs =>
    match sdscmp e x with
    | .lt => e :: x :: xs
    | .eq => x :: xs
    | .gt => x :: raxInsert e xs

def RAX_NODE_MAX_SIZE : ℕ := 2 ^ 29 - 1

/-- The tree may lose the end of another string when it recompresses a chain of nodes, but not while no
string is longer than `RAX_NODE_MAX_SIZE`. -/
def raxRemove (e : Bytes) (xs : List Bytes) : List Bytes := xs.erase e

def raxSeekGe (e : Bytes) (xs : List Bytes) : Option Bytes :=
  xs.find? (fun x => decide (sdscmp x e ≠ .lt))

def Ascending (xs : List Bytes) : Prop := xs.Pairwise (fun x y => sdscmp x y = .lt)

variable {e x : Bytes} {xs : List Bytes}

theorem mem_raxInsert : x ∈ raxInsert e xs ↔ x = e ∨ x ∈ xs := by
  induction xs with
  | nil => simp [raxInsert]
  | cons y ys ih =>
    unfold raxInsert
    split
    · simp
    · rename_i heq
      rw [sdscmp_eq_iff.1 heq]
      simp
    · simp only [mem_cons, ih]
      tauto

theorem raxInsert_ascending (h : Ascending xs) : Ascending (raxInsert e xs) := by
  induction xs with
  | nil => exact List.pairwise_singleton _ _
  | cons y ys ih =>
    have hy := pairwise_cons.mp h
    unfold raxInsert
    split
    · rename_i hlt
      apply pairwise_cons.mpr
      refine ⟨fun z hz => ?_, h⟩
      rcases mem_cons.mp hz with rfl | hz
      · exact hlt
      · exact sdscmp_trans hlt (hy.1 z hz)
    · exact h
    · rename_i hgt
      apply pairwise_cons.mpr
      refine ⟨fun z hz => ?_, ih hy.2⟩
      rcases mem_raxInsert.1 hz with rfl | hz
      · exact sdscmp_gt_iff.1 hgt
      · exact hy.1 z hz

theorem Ascending.nodup (h : Ascending xs) : xs.Nodup := by
  apply h.imp
  intro a b hab heq
  rw [heq, sdscmp_self] at hab
  cases hab

theorem countP_raxInsert (p : Bytes → Bool) (h : e ∉ xs) :
    (raxInsert e xs).countP p = xs.countP p + (if p e then 1 else 0) := by
  induction xs with
  | nil => simp [raxInsert, countP_cons]
  | cons y ys ih =>
    have hne : e ≠ y := List.ne_of_not_mem_cons h
    unfold raxInsert
    split
    · rw [countP_cons]
    · rename_i heq
      exact absurd (sdscmp_eq_iff.1 heq) hne
    · rw [countP_cons, countP_cons, ih (List.not_mem_of_not_mem_cons h)]
      omega

theorem mem_raxRemove (h : Ascending xs) : x ∈ raxRemove e xs ↔ x ≠ e ∧ x ∈ xs :=
  h.nodup.mem_erase_iff

theorem raxRemove_ascending (h : Ascending xs) : Ascending (raxRemove e xs) :=
  h.sublist List.erase_sublist

theorem countP_raxRemove (p : Bytes → Bool) (h : e ∈ xs) :
    (raxRemove e xs).countP p + (if p e then 1 else 0) = xs.countP p := by
  have hperm := (List.perm_cons_erase h).countP_eq p
  rw [countP_cons] at hperm
  exact hperm.symm

theorem raxSeekGe_some (h : raxSeekGe e xs = some x) : x ∈ xs ∧ sdscmp x e ≠ .lt :=
  ⟨List.mem_of_find?_eq_some h,
    of_decide_eq_true (List.find?_some (p := fun x => decide (sdscmp x e ≠ .lt)) h)⟩

theorem raxSeekGe_least (hs : Ascending xs) (hx : x ∈ xs) (hge : sdscmp x e ≠ .lt) :
    ∃ y, raxSeekGe e xs = some y ∧ (y = x ∨ sdscmp y x = .lt) := by
  induction xs with
  | nil => cases hx
  | cons z zs ih =>
    have hz := pairwise_cons.mp hs
    unfold raxSeekGe
    by_cases hlt : sdscmp z e = .lt
    · rw [List.find?_cons_of_neg (by simpa using hlt)]
      rcases mem_cons.mp hx with rfl | hx
      · exact absurd hlt hge
      · exact ih hz.2 hx
    · rw [List.find?_cons_of_pos (by simpa using hlt)]
      refine ⟨z, rfl, ?_⟩
      rcases mem_cons.mp hx with rfl | hx
      · exact Or.inl rfl
      · exact Or.inr (hz.1 x hx)

end RedisCore.RaxSet
