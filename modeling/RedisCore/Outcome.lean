import RedisCore.ByteBlock

/-! What a fallible computation promises: the values it returns satisfy a postcondition, and it
faults only where a side condition fails. -/

namespace RedisCore

variable {ε α β : Type} {S S' : Prop} {P Q : α → Prop}

/-- Values returned by `x` satisfy `P`, and `x` returns a value whenever `S` holds. -/
def Yields (S : Prop) (x : Except ε α) (P : α → Prop) : Prop :=
  match x with
  | .ok a => P a
  | .error _ => ¬ S

@[simp] theorem yields_ok (a : α) : Yields S (.ok a : Except ε α) P ↔ P a := Iff.rfl

@[simp] theorem yields_error (e : ε) : Yields S (.error e : Except ε α) P ↔ ¬ S := Iff.rfl

variable {x : Except ε α} {f : α → Except ε β} {R : β → Prop}

theorem Yields.bind (hx : Yields S x P) (hf : ∀ a, P a → Yields S (f a) R) : Yields S (x >>= f) R
    := by
  cases x with
  | ok a => exact hf a hx
  | error e => exact hx

theorem Yields.mono (hx : Yields S x P) (h : ∀ a, P a → Q a) : Yields S x Q := by
  cases x with
  | ok a => exact h a hx
  | error e => exact hx

theorem Yields.strengthen (hx : Yields S x P) (h : S' → S) : Yields S' x P := by
  cases x with
  | ok a => exact hx
  | error e => exact fun hs => hx (h hs)

theorem Yields.and (hx : Yields S x P) (hy : Yields S x Q) : Yields S x (fun a => P a ∧ Q a) := by
  cases x with
  | ok a => exact ⟨hx, hy⟩
  | error e => exact hx

theorem Yields.and_returned (hx : Yields S x P) (hy : Yields False x Q) :
    Yields S x (fun a => P a ∧ Q a) := by
  cases x with
  | ok a => exact ⟨hx, hy⟩
  | error e => exact hx

theorem Yields.of_ok {a : α} (hx : Yields S x P) (h : x = .ok a) : P a := by
  rw [h] at hx
  exact hx

theorem Yields.total (hx : Yields S x P) (hs : S) : ∃ a, x = .ok a ∧ P a := by
  cases x with
  | ok a => exact ⟨a, rfl, hx⟩
  | error e => exact absurd hs hx

/-- `x` returns a value that satisfies `P`, unless it fails with `e`. -/
def ReturnsOr (e : ε) (x : Except ε α) (P : α → Prop) : Prop :=
  match x with
  | .ok a => P a
  | .error e' => e' = e

variable {e : ε}

@[simp] theorem returnsOr_ok (a : α) : ReturnsOr e (.ok a) P ↔ P a := Iff.rfl

@[simp] theorem returnsOr_error (e' : ε) :
    ReturnsOr e (.error e' : Except ε α) P ↔ e' = e := Iff.rfl

theorem ReturnsOr.bind (hx : ReturnsOr e x P) (hf : ∀ a, P a → ReturnsOr e (f a) R) : ReturnsOr e
    (x >>= f) R := by
  cases x with
  | ok a => exact hf a hx
  | error e' => exact hx

theorem ReturnsOr.and (h : ReturnsOr e x P) (h' : ReturnsOr e x Q) :
    ReturnsOr e x (fun a => P a ∧ Q a) := by
  cases x with
  | ok a => exact ⟨h, h'⟩
  | error e' => exact h

theorem ReturnsOr.mono (hx : ReturnsOr e x P) (h : ∀ a, P a → Q a) : ReturnsOr e x Q := by
  cases x with
  | ok a => exact h a hx
  | error e' => exact hx

theorem ReturnsOr.foldlM {ι : Type} {f : α → ι → Except ε α}
    (step : ∀ a i, P a → ReturnsOr e (f a i) P) :
    ∀ (l : List ι) (a : α), P a → ReturnsOr e (l.foldlM f a) P := by
  intro l
  induction l with
  | nil => exact fun a ha => ha
  | cons i l ih =>
    intro a ha
    rw [List.foldlM_cons]
    exact (step a i ha).bind ih

theorem returnsOr_iff : ReturnsOr e x P ↔ x = .error e ∨ ∃ a, x = .ok a ∧ P a := by
  cases x with
  | ok a => simp
  | error e' => simp

end RedisCore
