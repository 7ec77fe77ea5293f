import Mathlib

/-! Visiting the members of a collection one by one while its owner edits it: members are told apart
by an equivalence of keys, new members may join before or behind the visitor, and a member may leave
after its visit. -/

namespace RedisCore

inductive WalkEvent (K : Type)
  | returned (key : K)
  | deleted (key : K)
deriving DecidableEq, Repr

namespace ChainWalk

open List

variable {K : Type} (same : K → K → Bool)

/-- The key was visited and has not been deleted since; histories have their last event first. -/
def Outstanding (x : K) : List (WalkEvent K) → Prop
  | [] => False
  | .returned k :: t => same k x ∨ Outstanding x t
  | .deleted k :: t => ¬same k x ∧ Outstanding x t

def WasDeleted (x : K) (t : List (WalkEvent K)) : Prop := ∃ k, .deleted k ∈ t ∧ same k x

def timesReturned (x : K) : List (WalkEvent K) → ℕ
  | [] => 0
  | .returned k :: t => timesReturned x t+(if same k x then 1 else 0)
  | .deleted _ :: t => timesReturned x t

structure IsSame : Prop where
  refl : ∀ a, same a a
  symm : ∀ a b, same a b → same b a
  trans : ∀ a b c, same a b → same b c → same a c

/-- The invariant of a walk: the members behind the visitor and before him, no two with the same
key; who was visited and not deleted is a member behind him; and of the members at the start that
were never deleted those behind him were visited once and the others not yet. -/
structure Walk (initial passed todo : List K) (t : List (WalkEvent K)) : Prop where
  distinct : (passed ++ todo).Pairwise (fun a b => ¬same a b)
  alive : ∀ x, Outstanding same x t → ∃ y ∈ passed ++ todo, same y x
  fresh : ∀ x ∈ todo, ¬Outstanding same x t
  member : ∀ k ∈ initial, ¬WasDeleted same k t → ∃ y ∈ passed ++ todo, same y k
  unvisited : ∀ k ∈ initial, ¬WasDeleted same k t → (∃ x ∈ todo, same x k) →
    timesReturned same k t = 0
  visited : ∀ k ∈ initial, ¬WasDeleted same k t → ¬(∃ x ∈ todo, same x k) →
    timesReturned same k t = 1

variable {same} {initial passed todo passed' todo' : List K} {t : List (WalkEvent K)}

theorem IsSame.outstanding (h : IsSame same) {x y : K} (hxy : same x y)
    (hx : Outstanding same x t) : Outstanding same y t := by
  induction t with
  | nil => exact hx
  | cons e t ih =>
    cases e with
    | returned k =>
      rcases hx with hk | hx
      · exact Or.inl (h.trans k x y hk hxy)
      · exact Or.inr (ih hx)
    | deleted k =>
      refine ⟨?_, ih hx.2⟩
      intro hk
      exact hx.1 (h.trans k y x hk (h.symm x y hxy))

theorem pairwise_perm (h : IsSame same) {l l' : List K} (hp : l ~ l')
    (hl : l.Pairwise (fun a b => ¬same a b)) : l'.Pairwise (fun a b => ¬same a b) := by
  apply (hp.pairwise_iff _).mp hl
  intro a b hab hba
  exact hab (h.symm b a hba)

theorem Walk.perm (h : IsSame same) (w : Walk same initial passed todo t) (hp : passed ~ passed')
    (ht : todo ~ todo') : Walk same initial passed' todo' t := by
  have hall : passed ++ todo ~ passed' ++ todo' := hp.append ht
  have htodo (k : K) : (∃ x ∈ todo', same x k) ↔ ∃ x ∈ todo, same x k := by
    simp only [ht.mem_iff]
  refine ⟨pairwise_perm h hall w.distinct, ?_, ?_, ?_, ?_, ?_⟩
  · intro x hx
    obtain ⟨y, hy, hyx⟩ := w.alive x hx
    exact ⟨y, hall.mem_iff.mp hy, hyx⟩
  · intro x hx
    exact w.fresh x (ht.mem_iff.mpr hx)
  · intro k hk hdel
    obtain ⟨y, hy, hyk⟩ := w.member k hk hdel
    exact ⟨y, hall.mem_iff.mp hy, hyk⟩
  · intro k hk hdel hx
    exact w.unvisited k hk hdel ((htodo k).mp hx)
  · intro k hk hdel hx
    exact w.visited k hk hdel (fun hx' => hx ((htodo k).mpr hx'))

theorem Walk.start (members : List K) (h : members.Pairwise (fun a b => ¬same a b))
    (hs : IsSame same) : Walk same members [] members [] where
  distinct := h
  alive := fun _ hx => hx.elim
  fresh := fun _ _ hx => hx
  member := fun k hk _ => ⟨k, hk, hs.refl k⟩
  unvisited := fun _ _ _ _ => rfl
  visited := fun k hk _ hno => absurd ⟨k, hk, hs.refl k⟩ hno

theorem Walk.visit (h : IsSame same) {x : K} (w : Walk same initial passed (x :: todo) t) :
    Walk same initial (x :: passed) todo (.returned x :: t) := by
  have hall : passed ++ x :: todo ~ x :: passed ++ todo := perm_middle
  have hx := (pairwise_append.mp w.distinct).2.1
  have hothers : ∀ y ∈ todo, ¬same x y := (pairwise_cons.mp hx).1
  have hdel (k : K) (hk : ¬WasDeleted same k (.returned x :: t)) : ¬WasDeleted same k t := by
    rintro ⟨k', hk', hsame⟩
    exact hk ⟨k', mem_cons_of_mem _ hk', hsame⟩
  refine ⟨pairwise_perm h hall w.distinct, ?_, ?_, ?_, ?_, ?_⟩
  · rintro y (hy | hy)
    · exact ⟨x, mem_cons_self, hy⟩
    · obtain ⟨z, hz, hzy⟩ := w.alive y hy
      exact ⟨z, hall.mem_iff.mp hz, hzy⟩
  · rintro y hy (hxy | hout)
    · exact hothers y hy hxy
    · exact w.fresh y (mem_cons_of_mem x hy) hout
  · intro k hk hkdel
    obtain ⟨y, hy, hyk⟩ := w.member k hk (hdel k hkdel)
    exact ⟨y, hall.mem_iff.mp hy, hyk⟩
  · rintro k hk hkdel ⟨y, hy, hyk⟩
    have hno : ¬same x k := fun hxk => hothers y hy (h.trans x k y hxk (h.symm y k hyk))
    rw [timesReturned, if_neg hno, Nat.add_zero]
    exact w.unvisited k hk (hdel k hkdel) ⟨y, mem_cons_of_mem x hy, hyk⟩
  · intro k hk hkdel hno
    rw [timesReturned]
    by_cases hxk : same x k
    · rw [if_pos hxk, w.unvisited k hk (hdel k hkdel) ⟨x, mem_cons_self, hxk⟩]
    · rw [if_neg hxk, Nat.add_zero]
      apply w.visited k hk (hdel k hkdel)
      rintro ⟨y, hy, hyk⟩
      rcases mem_cons.mp hy with rfl | hy
      · exact hxk hyk
      · exact hno ⟨y, hy, hyk⟩

theorem Walk.joinBehind {x : K} (w : Walk same initial passed todo t)
    (hnew : ∀ y ∈ passed ++ todo, ¬same x y) : Walk same initial (x :: passed) todo t := by
  refine ⟨pairwise_cons.mpr ⟨hnew, w.distinct⟩, ?_, w.fresh, ?_, w.unvisited, w.visited⟩
  · intro y hy
    obtain ⟨z, hz, hzy⟩ := w.alive y hy
    exact ⟨z, mem_cons_of_mem x hz, hzy⟩
  · intro k hk hdel
    obtain ⟨y, hy, hyk⟩ := w.member k hk hdel
    exact ⟨y, mem_cons_of_mem x hy, hyk⟩

theorem Walk.joinBefore (h : IsSame same) {x : K} (w : Walk same initial passed todo t)
    (hnew : ∀ y ∈ passed ++ todo, ¬same x y) : Walk same initial passed (x :: todo) t := by
  have hall : x :: (passed ++ todo) ~ passed ++ x :: todo := perm_middle.symm
  -- the members of the start are there already
  have hother (k : K) (hk : k ∈ initial) (hdel : ¬WasDeleted same k t) : ¬same x k := by
    obtain ⟨y, hy, hyk⟩ := w.member k hk hdel
    exact fun hxk => hnew y hy (h.trans x k y hxk (h.symm y k hyk))
  refine ⟨pairwise_perm h hall (pairwise_cons.mpr ⟨hnew, w.distinct⟩), ?_, ?_, ?_, ?_, ?_⟩
  · intro y hy
    obtain ⟨z, hz, hzy⟩ := w.alive y hy
    exact ⟨z, hall.mem_iff.mp (mem_cons_of_mem x hz), hzy⟩
  · intro y hy hout
    rcases mem_cons.mp hy with rfl | hy
    · obtain ⟨z, hz, hzy⟩ := w.alive y hout
      exact hnew z hz (h.symm z y hzy)
    · exact w.fresh y hy hout
  · intro k hk hdel
    obtain ⟨y, hy, hyk⟩ := w.member k hk hdel
    exact ⟨y, hall.mem_iff.mp (mem_cons_of_mem x hy), hyk⟩
  · rintro k hk hdel ⟨y, hy, hyk⟩
    rcases mem_cons.mp hy with rfl | hy
    · exact absurd hyk (hother k hk hdel)
    · exact w.unvisited k hk hdel ⟨y, hy, hyk⟩
  · intro k hk hdel hno
    apply w.visited k hk hdel
    rintro ⟨y, hy, hyk⟩
    exact hno ⟨y, mem_cons_of_mem x hy, hyk⟩

theorem Walk.leave (h : IsSame same) {x c : K} (w : Walk same initial (x :: passed) todo t)
    (hxc : same x c) : Walk same initial passed todo (.deleted c :: t) := by
  obtain ⟨hx, hrest⟩ := pairwise_cons.mp w.distinct
  have hdel (k : K) (hk : ¬WasDeleted same k (.deleted c :: t)) :
      ¬WasDeleted same k t ∧ ¬same c k := by
    refine ⟨?_, fun hck => hk ⟨c, mem_cons_self, hck⟩⟩
    rintro ⟨k', hk', hsame⟩
    exact hk ⟨k', mem_cons_of_mem _ hk', hsame⟩
  refine ⟨hrest, ?_, ?_, ?_, ?_, ?_⟩
  · rintro y ⟨hcy, hy⟩
    obtain ⟨z, hz, hzy⟩ := w.alive y hy
    rcases mem_cons.mp hz with rfl | hz
    · exact absurd (h.trans c z y (h.symm z c hxc) hzy) hcy
    · exact ⟨z, hz, hzy⟩
  · rintro y hy ⟨-, hout⟩
    exact w.fresh y hy hout
  · intro k hk hkdel
    obtain ⟨hkt, hck⟩ := hdel k hkdel
    obtain ⟨y, hy, hyk⟩ := w.member k hk hkt
    rcases mem_cons.mp hy with rfl | hy
    · exact absurd (h.trans c y k (h.symm y c hxc) hyk) hck
    · exact ⟨y, hy, hyk⟩
  · intro k hk hkdel hno
    exact w.unvisited k hk (hdel k hkdel).1 hno
  · intro k hk hkdel hno
    exact w.visited k hk (hdel k hkdel).1 hno

variable (same) in
def NeverTwice (t : List (WalkEvent K)) : Prop :=
  ∀ later k earlier, t = later ++ .returned k :: earlier → ¬Outstanding same k earlier

theorem neverTwice_nil : NeverTwice same [] := by
  intro later k earlier h
  cases later <;> cases h

theorem NeverTwice.deleted (h : NeverTwice same t) (k : K) : NeverTwice same (.deleted k :: t) := by
  intro later k' earlier heq
  cases later with
  | nil => cases heq
  | cons e later => exact h later k' earlier (cons.inj heq).2

theorem NeverTwice.returned (h : NeverTwice same t) {k : K} (hk : ¬Outstanding same k t) :
    NeverTwice same (.returned k :: t) := by
  intro later k' earlier heq
  cases later with
  | nil =>
    cases heq
    exact hk
  | cons e later => exact h later k' earlier (cons.inj heq).2

def behind (chains : List (List K)) (p : ℕ) (pre : List K) : List K :=
  (chains.take p).flatten ++ pre

def ahead (chains : List (List K)) (p : ℕ) (rest : List K) : List K :=
  rest ++ (chains.drop (p+1)).flatten

variable {chains : List (List K)} {p q : ℕ} {pre rest chain : List K} {x : K}

theorem drop_of_slot (h : chains[p]? = some chain) : chains.drop p = chain :: chains.drop (p+1) := by
  obtain ⟨hp, rfl⟩ := List.getElem?_eq_some_iff.mp h
  exact (getElem_cons_drop hp).symm

theorem behind_append_ahead (h : chains[p]? = some (pre ++ rest)) :
    behind chains p pre ++ ahead chains p rest = chains.flatten := by
  have hsplit : chains.take p ++ (pre ++ rest) :: chains.drop (p+1) = chains := by
    rw [← drop_of_slot h, take_append_drop]
  calc behind chains p pre ++ ahead chains p rest
    _ = (chains.take p ++ (pre ++ rest) :: chains.drop (p+1)).flatten := by
      simp only [behind, ahead, flatten_append, flatten_cons, append_assoc]
    _ = chains.flatten := by rw [hsplit]

theorem flatten_perm_slot (h : chains[q]? = some chain) :
    chains.flatten ~ chain ++ (chains.eraseIdx q).flatten := by
  obtain ⟨hq, rfl⟩ := List.getElem?_eq_some_iff.mp h
  exact (getElem_cons_eraseIdx_perm hq).symm.flatten

theorem flatten_set_head (h : chains[q]? = some chain) (x : K) :
    (chains.set q (x :: chain)).flatten ~ x :: chains.flatten := by
  obtain ⟨hq, -⟩ := List.getElem?_eq_some_iff.mp h
  calc (chains.set q (x :: chain)).flatten
    _ ~ x :: chain ++ (chains.eraseIdx q).flatten := (set_perm_cons_eraseIdx hq (x :: chain)).flatten
    _ ~ x :: chains.flatten := (flatten_perm_slot h).symm.cons x

theorem flatten_set_eraseIdx {j : ℕ} (h : chains[q]? = some chain) (hj : chain[j]? = some x) :
    chains.flatten ~ x :: (chains.set q (chain.eraseIdx j)).flatten := by
  obtain ⟨hq, -⟩ := List.getElem?_eq_some_iff.mp h
  obtain ⟨hjlt, rfl⟩ := List.getElem?_eq_some_iff.mp hj
  calc chains.flatten
    _ ~ chain ++ (chains.eraseIdx q).flatten := flatten_perm_slot h
    _ ~ chain[j] :: chain.eraseIdx j ++ (chains.eraseIdx q).flatten :=
      (getElem_cons_eraseIdx_perm hjlt).symm.append_right _
    _ ~ chain[j] :: (chains.set q (chain.eraseIdx j)).flatten :=
      ((set_perm_cons_eraseIdx hq (chain.eraseIdx j)).flatten.symm).cons _

theorem place_setHead (hp : chains[p]? = some (pre ++ rest)) (hq : chains[q]? = some chain) (x : K) :
    ∃ pre' : List K, (chains.set q (x :: chain))[p]? = some (pre' ++ rest) ∧
      ((behind (chains.set q (x :: chain)) p pre' ~ x :: behind chains p pre ∧
          ahead (chains.set q (x :: chain)) p rest = ahead chains p rest) ∨
        (behind (chains.set q (x :: chain)) p pre' = behind chains p pre ∧
          ahead (chains.set q (x :: chain)) p rest ~ x :: ahead chains p rest)) := by
  obtain ⟨hqlt, -⟩ := List.getElem?_eq_some_iff.mp hq
  rcases Nat.lt_trichotomy q p with hlt | rfl | hgt
  · refine ⟨pre, by rwa [getElem?_set_ne (by omega)], Or.inl ⟨?_, ?_⟩⟩
    · have htake : (chains.take p)[q]? = some chain := by rwa [getElem?_take_of_lt hlt]
      rw [behind, behind, take_set]
      exact (flatten_set_head htake x).append_right pre
    · rw [ahead, ahead, drop_set_of_lt (by omega)]
  · rw [hp] at hq
    cases hq
    refine ⟨x :: pre, by rw [getElem?_set_self hqlt, cons_append], Or.inl ⟨?_, ?_⟩⟩
    · rw [behind, behind, take_set_of_le (le_refl q)]
      exact perm_middle
    · rw [ahead, ahead, drop_set_of_lt (by omega)]
  · refine ⟨pre, by rwa [getElem?_set_ne (by omega)], Or.inr ⟨?_, ?_⟩⟩
    · rw [behind, behind, take_set_of_le (by omega)]
    · have hdrop : (chains.drop (p+1))[q-(p+1)]? = some chain := by
        rwa [getElem?_drop, Nat.add_sub_cancel' hgt]
      rw [ahead, ahead, drop_set, if_neg (by omega)]
      calc rest ++ ((chains.drop (p+1)).set (q-(p+1)) (x :: chain)).flatten
        _ ~ rest ++ x :: (chains.drop (p+1)).flatten := (flatten_set_head hdrop x).append_left rest
        _ ~ x :: (rest ++ (chains.drop (p+1)).flatten) := perm_middle

theorem place_eraseIdx {j : ℕ} (hp : chains[p]? = some (pre ++ rest)) (hq : chains[q]? = some chain)
    (hj : chain[j]? = some x) : x ∈ ahead chains p rest ∨
      ∃ pre', (chains.set q (chain.eraseIdx j))[p]? = some (pre' ++ rest) ∧
        behind chains p pre ~ x :: behind (chains.set q (chain.eraseIdx j)) p pre' ∧
        ahead (chains.set q (chain.eraseIdx j)) p rest = ahead chains p rest := by
  obtain ⟨hqlt, -⟩ := List.getElem?_eq_some_iff.mp hq
  rcases Nat.lt_trichotomy q p with hlt | rfl | hgt
  · refine Or.inr ⟨pre, by rwa [getElem?_set_ne (by omega)], ?_, ?_⟩
    · have htake : (chains.take p)[q]? = some chain := by rwa [getElem?_take_of_lt hlt]
      rw [behind, behind, take_set]
      exact (flatten_set_eraseIdx htake hj).append_right pre
    · rw [ahead, ahead, drop_set_of_lt (by omega)]
  · rw [hp] at hq
    cases hq
    rcases Nat.lt_or_ge j pre.length with hjlt | hjge
    · rw [getElem?_append_left hjlt] at hj
      obtain ⟨-, rfl⟩ := List.getElem?_eq_some_iff.mp hj
      refine Or.inr ⟨pre.eraseIdx j, ?_, ?_, ?_⟩
      · rw [getElem?_set_self hqlt, eraseIdx_append_of_lt_length hjlt]
      · rw [behind, behind, take_set_of_le (le_refl q)]
        calc (chains.take q).flatten ++ pre
          _ ~ (chains.take q).flatten ++ pre[j] :: pre.eraseIdx j :=
            (getElem_cons_eraseIdx_perm hjlt).symm.append_left _
          _ ~ pre[j] :: ((chains.take q).flatten ++ pre.eraseIdx j) := perm_middle
      · rw [ahead, ahead, drop_set_of_lt (by omega)]
    · rw [getElem?_append_right hjge] at hj
      exact Or.inl (mem_append_left _ (mem_of_getElem? hj))
  · have hdrop : (chains.drop (p+1))[q-(p+1)]? = some chain := by
      rwa [getElem?_drop, Nat.add_sub_cancel' hgt]
    exact Or.inl (mem_append_right _
      (mem_flatten.mpr ⟨chain, mem_of_getElem? hdrop, mem_of_getElem? hj⟩))

theorem place_append_empty (hp : chains[p]? = some (pre ++ rest)) (n : ℕ) :
    (chains ++ replicate n [])[p]? = some (pre ++ rest) ∧
      behind (chains ++ replicate n []) p pre = behind chains p pre ∧
      ahead (chains ++ replicate n []) p rest = ahead chains p rest := by
  obtain ⟨hlt, -⟩ := List.getElem?_eq_some_iff.mp hp
  refine ⟨by rwa [getElem?_append_left hlt], ?_, ?_⟩
  · rw [behind, behind, take_append_of_le_length (by omega)]
  · rw [ahead, ahead, drop_append_of_le_length (by omega), flatten_append,
      flatten_replicate_nil, append_nil]

end ChainWalk

end RedisCore
