import RedisCore.SkiplistModel
import RedisCore.SkipIndex

namespace RedisCore.Skiplist
open Function (update_of_ne update_self)
open RedisCore.SkipIndex

variable {S : Type}

def col (heap : Heap S) (i x : ℕ) : Option ZskiplistLevel := (heap x).bind (·.level[i]?)

def body (heap : Heap S) (x : ℕ) : Option (Option Bytes × S × Option ℕ × ℕ) :=
  (heap x).map (fun n => (n.ele, n.score, n.backward, n.level.length))

theorem levelAt_of_col {heap : Heap S} {x i : ℕ} {l : ZskiplistLevel}
    (h : col heap i x = some l) : levelAt heap x i = .ok l := by
  obtain ⟨n, hn, hl⟩ := Option.bind_eq_some_iff.mp h
  unfold levelAt deref
  rw [hn, ok_bind]
  simp only [hl]

theorem deref_of_body {heap : Heap S} {x : ℕ} {e : Option Bytes} {s : S} {b : Option ℕ} {k : ℕ}
    (h : body heap x = some (e, s, b, k)) : ∃ n, heap x = some n ∧ deref heap x = .ok n ∧
      n.ele = e ∧ n.score = s ∧ n.backward = b ∧ n.level.length = k := by
  obtain ⟨n, hn, hb⟩ := Option.map_eq_some_iff.mp h
  refine ⟨n, hn, ?_, ?_⟩
  · unfold deref
    rw [hn]
  · simpa using hb

theorem col_storeNode (heap : Heap S) (x : ℕ) (n : ZskiplistNode S) (i y : ℕ) :
    col (storeNode heap x n) i y = if y = x then n.level[i]? else col heap i y := by
  unfold col storeNode
  by_cases hy : y = x <;> simp [hy]

theorem body_storeNode (heap : Heap S) (x : ℕ) (n : ZskiplistNode S) (y : ℕ) :
    body (storeNode heap x n) y =
      if y = x then some (n.ele, n.score, n.backward, n.level.length) else body heap y := by
  unfold body storeNode
  by_cases hy : y = x <;> simp [hy]

theorem setLevel_ok {heap : Heap S} {x i : ℕ} {l0 : ZskiplistLevel} (l : ZskiplistLevel)
    (h : col heap i x = some l0) : ∃ heap', setLevel heap x i l = .ok heap' ∧
      body heap' = body heap ∧
      col heap' = Function.update (col heap) i (Function.update (col heap i) x (some l)) := by
  obtain ⟨n, hn, hl⟩ := Option.bind_eq_some_iff.mp h
  obtain ⟨hi, -⟩ := List.getElem?_eq_some_iff.mp hl
  refine ⟨storeNode heap x { n with level := n.level.set i l }, ?_, ?_, ?_⟩
  · unfold setLevel deref
    rw [hn, ok_bind, if_pos hi]
  · funext y
    rw [body_storeNode]
    split_ifs with hy
    · simp [hy, body, hn]
    · rfl
  · funext j y
    rw [col_storeNode]
    by_cases hj : j = i
    · subst hj
      by_cases hy : y = x
      · subst hy
        simp [hi]
      · simp [hy]
    · by_cases hy : y = x
      · subst hy
        simp [hj, Ne.symm hj, col, hn]
      · simp [hj, hy]

theorem setBackward_ok {heap : Heap S} {x : ℕ} {e : Option Bytes} {s : S} {b0 : Option ℕ} {k : ℕ}
    (b : Option ℕ) (h : body heap x = some (e, s, b0, k)) : ∃ heap', setBackward heap x b = .ok heap' ∧
      col heap' = col heap ∧ body heap' = Function.update (body heap) x (some (e, s, b, k)) := by
  obtain ⟨n, hn, hd, rfl, rfl, rfl, rfl⟩ := deref_of_body h
  refine ⟨storeNode heap x { n with backward := b }, ?_, ?_, ?_⟩
  · unfold setBackward
    rw [hd, ok_bind]
  · funext j y
    rw [col_storeNode]
    split_ifs with hy
    · simp [hy, col, hn]
    · rfl
  · funext y
    rw [body_storeNode]
    by_cases hy : y = x <;> simp [hy]

theorem forLevels_ok {f : Heap S → ℕ → ℕ × ℕ → Except Fault (Heap S)}
    {Q : ℕ → (ℕ → Option ZskiplistLevel) → Prop} {l : List (ℕ × ℕ)} {i : ℕ} {m : Heap S}
    (hf : ∀ k u, l[k]? = some u → ∀ heap', body heap' = body m →
      col heap' (i+k) = col m (i+k) → ∃ heap'' c, f heap' (i+k) u = .ok heap'' ∧
        body heap'' = body m ∧ col heap'' = Function.update (col heap') (i+k) c ∧
        Q (i+k) c) :
    ∃ heap', forLevels f i l m = .ok heap' ∧ body heap' = body m ∧
      (∀ j, i ≤ j → j < i+l.length → Q j (col heap' j)) ∧
      (∀ j, j < i ∨ i+l.length ≤ j → col heap' j = col m j) := by
  induction l generalizing i m with
  | nil =>
    refine ⟨m, rfl, rfl, ?_, fun _ _ => rfl⟩
    intro j h1 h2
    simp only [List.length_nil] at h2
    omega
  | cons u l ih =>
    obtain ⟨h1, c1, hh1, hb1, hc1, hq1⟩ := hf 0 u rfl m rfl rfl
    rw [Nat.add_zero] at hh1 hc1 hq1
    have hrest : ∀ k v, l[k]? = some v → ∀ heap', body heap' = body h1 →
        col heap' (i+1+k) = col h1 (i+1+k) → ∃ heap'' c, f heap' (i+1+k) v = .ok heap'' ∧
          body heap'' = body h1 ∧ col heap'' = Function.update (col heap') (i+1+k) c ∧
          Q (i+1+k) c := by
      intro k v hv heap' hb' hc'
      have hk : i+1+k = i+(k+1) := by omega
      rw [hk] at hc' ⊢
      rw [hb1] at hb' ⊢
      apply hf (k+1) v (by simpa using hv) heap' hb'
      rw [hc', hc1, update_of_ne (by omega)]
    obtain ⟨h2, hh2, hb2, hin, hout⟩ := ih hrest
    refine ⟨h2, ?_, by rw [hb2, hb1], ?_, ?_⟩
    · rw [forLevels, hh1, ok_bind, hh2]
    · intro j hj1 hj2
      rw [List.length_cons] at hj2
      by_cases hj : j = i
      · rw [hj, hout i (by omega), hc1, update_self]
        exact hq1
      · exact hin j (by omega) (by omega)
    · intro j hj
      rw [List.length_cons] at hj
      rw [hout j (by omega), hc1, update_of_ne (by omega)]

def LinkedAt (c : ℕ → Option ZskiplistLevel) (ids hs : List ℕ) (i : ℕ) : Prop :=
  ∀ r x h, ids[r]? = some x → hs[r]? = some h → i < h →
    c x = some ⟨(next hs i r).bind (ids[·]?), gap hs i r⟩

section Step

variable {c : ℕ → Option ZskiplistLevel} {A B a b : List ℕ} {x u h i r : ℕ}

theorem bind_skip (hA : A.length = a.length) (o : Option ℕ) :
    (o.map (skip a.length)).bind ((A ++ x :: B)[·]?) = o.bind ((A ++ B)[·]?) := by
  cases o with
  | none => rfl
  | some q =>
    rw [← hA]
    exact getElem?_insert_skip q

theorem position_eq {ids : List ℕ} (hnd : ids.Nodup) {p q y : ℕ} (hp : ids[p]? = some y)
    (hq : ids[q]? = some y) : p = q := by
  obtain ⟨hlt, -⟩ := List.getElem?_eq_some_iff.mp hp
  exact (List.getElem?_inj hlt hnd).mp (hp.trans hq.symm)

theorem other_address (hA : A.length = a.length) (hnd : (A ++ x :: B).Nodup)
    (hu : (A ++ B)[r]? = some u) {r' y : ℕ} (hne : r' ≠ r)
    (hy : (A ++ B)[r']? = some y) : y ≠ x ∧ y ≠ u := by
  have hy' : (A ++ x :: B)[skip a.length r']? = some y := by
    rw [← hA, getElem?_insert_skip]
    exact hy
  have hx' : (A ++ x :: B)[a.length]? = some x := by
    rw [← hA]
    exact getElem?_insert_new
  constructor
  · rintro rfl
    exact skip_ne a.length r' (position_eq hnd hy' hx')
  · rintro rfl
    have hu' : (A ++ x :: B)[skip a.length r]? = some y := by
      rw [← hA, getElem?_insert_skip]
      exact hu
    exact hne (skip_inj (position_eq hnd hy' hu'))

theorem pred_ne_new (hA : A.length = a.length) (hnd : (A ++ x :: B).Nodup)
    (hu : (A ++ B)[r]? = some u) : u ≠ x := by
  rintro rfl
  have hu' : (A ++ u :: B)[skip a.length r]? = some u := by
    rw [← hA, getElem?_insert_skip]
    exact hu
  have hx' : (A ++ u :: B)[a.length]? = some u := by
    rw [← hA]
    exact getElem?_insert_new
  exact skip_ne a.length r (position_eq hnd hu' hx')

theorem LinkedAt.link (hl : LinkedAt c (A ++ B) (a ++ b) i) (hA : A.length = a.length)
    (hnd : (A ++ x :: B).Nodup) (hlast : LastTall a i r) (hu : (A ++ B)[r]? = some u)
    (hi : i < h) :
    LinkedAt (Function.update (Function.update c x
        (some ⟨(next (a ++ b) i r).bind ((A ++ B)[·]?), gap (a ++ b) i r-(a.length-1-r)⟩))
        u (some ⟨some x, a.length-1-r+1⟩)) (A ++ x :: B) (a ++ h :: b) i := by
  intro r'' y h' hy hh' htall
  have hux := pred_ne_new hA hnd hu
  rcases eq_or_skip a.length r'' with rfl | ⟨r', rfl⟩
  · rw [← hA, getElem?_insert_new] at hy
    cases hy
    rw [update_of_ne (Ne.symm hux), update_self,
      next_insert_new hlast, gap_insert_new hlast.lt (hlast.clear b), bind_skip hA]
  · rw [getElem?_insert_skip] at hh'
    rw [← hA, getElem?_insert_skip] at hy
    by_cases hr' : r' = r
    · subst hr'
      cases hu.symm.trans hy
      rw [update_self, skip_of_lt hlast.lt, next_insert_tall hlast.lt (hlast.clear b) hi,
        gap_insert_tall hlast.lt (hlast.clear b) hi, Option.bind_some, ← hA, getElem?_insert_new]
    · obtain ⟨hyx, hyu⟩ := other_address hA hnd hu hr' hy
      rw [update_of_ne hyu, update_of_ne hyx, hl r' y h' hy hh' htall,
        next_insert_other hlast hr' hh' htall, gap_insert_other hlast hr' hh' htall, bind_skip hA]

theorem LinkedAt.bump (hl : LinkedAt c (A ++ B) (a ++ b) i) (hA : A.length = a.length)
    (hnd : (A ++ x :: B).Nodup) (hlast : LastTall a i r) (hu : (A ++ B)[r]? = some u)
    (hi : h ≤ i) :
    LinkedAt (Function.update c u
      (some ⟨(next (a ++ b) i r).bind ((A ++ B)[·]?), gap (a ++ b) i r+1⟩))
      (A ++ x :: B) (a ++ h :: b) i := by
  intro r'' y h' hy hh' htall
  rcases eq_or_skip a.length r'' with rfl | ⟨r', rfl⟩
  · rw [getElem?_insert_new] at hh'
    cases hh'
    omega
  · rw [getElem?_insert_skip] at hh'
    rw [← hA, getElem?_insert_skip] at hy
    by_cases hr' : r' = r
    · subst hr'
      cases hu.symm.trans hy
      rw [update_self, skip_of_lt hlast.lt, next_insert_below hlast hi,
        gap_insert_low hlast.lt (hlast.clear b) hi, bind_skip hA]
    · obtain ⟨-, hyu⟩ := other_address hA hnd hu hr' hy
      rw [update_of_ne hyu, hl r' y h' hy hh' htall,
        next_insert_other hlast hr' hh' htall, gap_insert_other hlast hr' hh' htall, bind_skip hA]

theorem LinkedAt.unlink (hl : LinkedAt c (A ++ x :: B) (a ++ h :: b) i)
    (hA : A.length = a.length) (hnd : (A ++ x :: B).Nodup) (hlast : LastTall a i r)
    (hu : (A ++ B)[r]? = some u) (hi : i < h) :
    LinkedAt (Function.update c u
      (some ⟨(next (a ++ h :: b) i a.length).bind ((A ++ x :: B)[·]?),
        gap (a ++ h :: b) i r+gap (a ++ h :: b) i a.length-1⟩)) (A ++ B) (a ++ b) i := by
  intro r' y h' hy hh' htall
  by_cases hr' : r' = r
  · subst hr'
    cases hu.symm.trans hy
    have hge := gap_ge (by have := hlast.lt; simp; omega) (hlast.clear b)
    rw [update_self, next_insert_new hlast, bind_skip hA,
      gap_insert_tall hlast.lt (hlast.clear b) hi, gap_insert_new hlast.lt (hlast.clear b)]
    congr 2
    omega
  · obtain ⟨-, hyu⟩ := other_address hA hnd hu hr' hy
    have hold := hl (skip a.length r') y h' (by rw [← hA, getElem?_insert_skip]; exact hy)
      (by rw [getElem?_insert_skip]; exact hh') htall
    rw [update_of_ne hyu, hold, next_insert_other hlast hr' hh' htall,
      gap_insert_other hlast hr' hh' htall, bind_skip hA]

theorem LinkedAt.unbump (hl : LinkedAt c (A ++ x :: B) (a ++ h :: b) i)
    (hA : A.length = a.length) (hnd : (A ++ x :: B).Nodup) (hlast : LastTall a i r)
    (hu : (A ++ B)[r]? = some u) (hi : h ≤ i) :
    LinkedAt (Function.update c u
      (some ⟨(next (a ++ h :: b) i r).bind ((A ++ x :: B)[·]?), gap (a ++ h :: b) i r-1⟩))
      (A ++ B) (a ++ b) i := by
  intro r' y h' hy hh' htall
  by_cases hr' : r' = r
  · subst hr'
    cases hu.symm.trans hy
    rw [update_self, next_insert_below hlast hi, bind_skip hA,
      gap_insert_low hlast.lt (hlast.clear b) hi, Nat.add_sub_cancel]
  · obtain ⟨-, hyu⟩ := other_address hA hnd hu hr' hy
    have hold := hl (skip a.length r') y h' (by rw [← hA, getElem?_insert_skip]; exact hy)
      (by rw [getElem?_insert_skip]; exact hh') htall
    rw [update_of_ne hyu, hold, next_insert_other hlast hr' hh' htall,
      gap_insert_other hlast hr' hh' htall, bind_skip hA]

end Step

end RedisCore.Skiplist
