import Mathlib

/-! Patterns over an alphabet: pieces that take one letter each, and wildcards that take any word.
-/

namespace RedisCore

inductive Piece (τ : Type)
  | anything
  | one (test : τ)
deriving DecidableEq, Repr

section Words

variable {α τ : Type} (accepts : τ → α → Prop)

inductive Matches : List (Piece τ) → List α → Prop
  | nil : Matches [] []
  | anything {ps : List (Piece τ)} (u : List α) {w : List α} (h : Matches ps w) :
      Matches (.anything :: ps) (u ++ w)
  | one {ps : List (Piece τ)} {t : τ} {a : α} {w : List α} (ha : accepts t a) (h : Matches ps w) :
      Matches (.one t :: ps) (a :: w)

variable {accepts} {ps : List (Piece τ)} {t : τ} {w : List α} {a : α}

theorem matches_empty_pattern : Matches accepts [] w ↔ w = [] := by
  constructor
  · intro h
    cases h
    rfl
  · rintro rfl
    exact .nil

theorem matches_one_nil : ¬Matches accepts (.one t :: ps) [] := by
  intro h
  cases h

theorem matches_one_cons : Matches accepts (.one t :: ps) (a :: w) ↔
    accepts t a ∧ Matches accepts ps w := by
  constructor
  · intro h
    cases h with
    | one ha h => exact ⟨ha, h⟩
  · rintro ⟨ha, h⟩
    exact .one ha h

theorem matches_anything : Matches accepts (.anything :: ps) w ↔
    ∃ v, v <:+ w ∧ Matches accepts ps v := by
  constructor
  · intro h
    cases h with
    | anything u h => exact ⟨_, List.suffix_append u _, h⟩
  · rintro ⟨v, ⟨u, rfl⟩, h⟩
    exact .anything u h

theorem matches_anything_twice : Matches accepts (.anything :: .anything :: ps) w ↔
    Matches accepts (.anything :: ps) w := by
  rw [matches_anything]
  constructor
  · rintro ⟨v, hv, h⟩
    obtain ⟨v', hv', h'⟩ := matches_anything.1 h
    exact matches_anything.2 ⟨v', hv'.trans hv, h'⟩
  · intro h
    exact ⟨w, List.suffix_rfl, h⟩

theorem matches_nil : Matches accepts ps [] ↔ ∀ p ∈ ps, p = .anything := by
  induction ps with
  | nil => simp [matches_empty_pattern]
  | cons p ps ih =>
    rw [List.forall_mem_cons, ← ih]
    cases p with
    | anything =>
      rw [matches_anything]
      constructor
      · rintro ⟨v, hv, h⟩
        rw [List.suffix_nil.mp hv] at h
        exact ⟨rfl, h⟩
      · rintro ⟨-, h⟩
        exact ⟨[], List.suffix_rfl, h⟩
    | one t =>
      constructor
      · intro h
        exact absurd h matches_one_nil
      · rintro ⟨h, -⟩
        cases h

theorem matches_anythings (hne : ps ≠ []) (h : ∀ p ∈ ps, p = .anything) : Matches accepts ps w := by
  obtain ⟨p, ps, rfl⟩ := List.exists_cons_of_ne_nil hne
  obtain ⟨rfl, hrest⟩ := List.forall_mem_cons.mp h
  exact matches_anything.2 ⟨[], List.nil_suffix, matches_nil.2 hrest⟩

end Words

end RedisCore
