import Mathlib.Computability.StateTransition

/-! Machines that are fed a stream piece by piece. -/

namespace RedisCore.StreamMachine

open StateTransition

variable {σ α : Type} {f : σ → Option σ} {feed : σ → List α → σ} {a b c : σ} {x y : List α}

structure Fed (f : σ → Option σ) (feed : σ → List α → σ) : Prop where
  step : ∀ a b x, f a = some b → f (feed a x) = some (feed b x)
  nil : ∀ a, feed a [] = a
  append : ∀ a x y, feed (feed a x) y = feed a (x ++ y)

theorem Fed.reaches (h : Fed f feed) (hab : Reaches f a b) (x : List α) :
    Reaches f (feed a x) (feed b x) := by
  induction hab with
  | refl => exact Relation.ReflTransGen.refl
  | tail _ hstep ih => exact ih.tail (h.step _ _ x hstep)

theorem Fed.reaches_append (h : Fed f feed) (hab : Reaches f (feed a x) b) (y : List α) :
    Reaches f (feed a (x ++ y)) (feed b y) := by
  rw [← h.append]
  exact h.reaches hab y

theorem stops_unique (hb : Reaches f a b) (hb' : f b = none) (hc : Reaches f a c) (hc' : f c = none) :
    b = c :=
  Part.mem_unique (mem_eval.mpr ⟨hb, hb'⟩) (mem_eval.mpr ⟨hc, hc'⟩)

theorem reaches_stop (hb : Reaches f a b) (hb' : f b = none) (hc : Reaches f a c) : Reaches f c b := by
  rcases reaches_total hb hc with hbc | hcb
  · rw [(eval_maximal (mem_eval.mpr ⟨Relation.ReflTransGen.refl, hb'⟩)).mp hbc]
    exact Relation.ReflTransGen.refl
  · exact hcb

theorem reaches_induction {P : σ → Prop} (ha : P a) (h : ∀ b c, P b → f b = some c → P c)
    (hab : Reaches f a b) : P b := by
  induction hab with
  | refl => exact ha
  | tail _ hstep ih => exact h _ _ ih hstep

theorem reaches_cases {P : σ → Prop} (ha : P a) (h : ∀ b, f a = some b → ∀ c, Reaches f b c → P c) :
    ∀ c, Reaches f a c → P c := by
  intro c hac
  rcases Relation.ReflTransGen.cases_head hac with rfl | ⟨b, hab, hbc⟩
  · exact ha
  · exact h b hab c hbc

end RedisCore.StreamMachine
