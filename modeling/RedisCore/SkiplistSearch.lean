import RedisCore.SkiplistLinks

namespace RedisCore.Skiplist
open RedisCore.SkipIndex

variable {S : Type} {heap : Heap S} {w : ℕ} {go : ZskiplistNode S → ℕ → Bool} {ids hs : List ℕ}
variable {P : ℕ → Bool}

def Tests (heap : Heap S) (w : ℕ) (go : ZskiplistNode S → ℕ → Bool) (ids : List ℕ)
    (P : ℕ → Bool) : Prop :=
  ∀ q y, 0 < q → ids[q]? = some y → ∃ n, deref heap y = .ok n ∧ go n (q%2^w) = P q

structure WalkEnd (hs : List ℕ) (P : ℕ → Bool) (J : ℕ → Prop) (i r s : ℕ) : Prop where
  le : r ≤ s
  tall : ∃ h ∈ hs[s]?, i < h
  inv : J s
  passed : s = r ∨ P s
  stop : ∀ q, next hs i s = some q → P q = false

variable {J : ℕ → Prop} {i r s q f x n : ℕ}

theorem WalkEnd.lt (h : WalkEnd hs P J i r s) : s < hs.length := by
  obtain ⟨y, hy, -⟩ := h.tall
  obtain ⟨hlt, -⟩ := List.getElem?_eq_some_iff.mp hy
  exact hlt

theorem wrapAdd_gap (h : next hs i r = some q) : wrapAdd w (r%2^w) (gap hs i r) = q%2^w := by
  have hlt := next_lt_length h
  have hq : q = r+(q-r) := by omega
  unfold wrapAdd gap
  rw [h, Option.getD_some, Nat.mod_add_mod, ← hq]

theorem zslWalk_ok (hlen : ids.length = hs.length)
    (hl : LinkedAt (col heap i) ids hs i) (ht : Tests heap w go ids P)
    (hJ : ∀ s q, J s → next hs i s = some q → P q = true → J q) (hfuel : hs.length ≤ r+f) (htall : ∃ h ∈ hs[r]?, i < h) (hr : J r)
    (hx : ids[r]? = some x) :
    ∃ s y, zslWalk heap w go i f x (r%2^w) = .ok (y, s%2^w) ∧ ids[s]? = some y ∧
      WalkEnd hs P J i r s := by
  induction f generalizing r x with
  | zero =>
    obtain ⟨y, hy, -⟩ := htall
    obtain ⟨hlt, -⟩ := List.getElem?_eq_some_iff.mp hy
    omega
  | succ f ih =>
    obtain ⟨h, hh, hi⟩ := htall
    rw [zslWalk, levelAt_of_col (hl r x h hx hh hi), ok_bind]
    cases hn : next hs i r with
    | none =>
      refine ⟨r, x, rfl, hx, le_refl r, ⟨h, hh, hi⟩, hr, Or.inl rfl, ?_⟩
      intro q hq
      rw [hn] at hq
      cases hq
    | some q =>
      have hq := next_lt_length hn
      obtain ⟨y, hy⟩ : ∃ y, ids[q]? = some y := ⟨_, List.getElem?_eq_getElem (by omega)⟩
      obtain ⟨n, hd, hgo⟩ := ht q y (by omega) hy
      simp only [Option.bind_some, hy, hd, ok_bind, wrapAdd_gap hn, hgo]
      by_cases hp : P q = true
      · obtain ⟨-, htall', -⟩ := next_eq_some.1 hn
        obtain ⟨s, z, hrun, hz, hend⟩ :=
          ih (r := q) (x := y) (by omega) htall' (hJ r q hr hn hp) hy
        refine ⟨s, z, ?_, hz, ?_⟩
        · rw [if_pos hp]
          exact hrun
        · refine ⟨by have := hend.le; omega, hend.tall, hend.inv, ?_, hend.stop⟩
          rcases hend.passed with heq | hps
          · right
            rw [heq]
            exact hp
          · exact Or.inr hps
      · refine ⟨r, x, ?_, hx, le_refl r, ⟨h, hh, hi⟩, hr, Or.inl rfl, ?_⟩
        · rw [if_neg hp]
        · intro q' hq'
          rw [hn] at hq'
          cases hq'
          simpa using hp

def place (ids : List ℕ) (w s : ℕ) : ℕ × ℕ := (ids.getD s header, s%2^w)

theorem place_eq {y : ℕ} (h : ids[s]? = some y) : place ids w s = (y, s%2^w) := by
  unfold place
  rw [List.getD_eq_getElem?_getD, h, Option.getD_some]

structure Stops (hs : List ℕ) (P : ℕ → Bool) (J : ℕ → Prop) (n r : ℕ) (ss : List ℕ) : Prop where
  length : ss.length = n
  walk : ∀ i s, ss[i]? = some s → WalkEnd hs P J i r s
  clear : ∀ i s s0, ss[i]? = some s → ss[0]? = some s0 → s ≤ s0 ∧ Clear hs i s s0

theorem clear_step {t : ℕ} (hin : i < n) (hstop : ∀ p, next hs n s = some p → P p = false)
    (hst : s ≤ t) (hc : Clear hs n s t) (hq : next hs i t = some q) (hp : P q = true) :
    Clear hs n s q := by
  obtain ⟨htq, ⟨h, hh, hih⟩, hci⟩ := next_eq_some.1 hq
  have hbelow : Clear hs n s (q-1) := by
    intro p hp1 hp2 h' hh'
    rcases Nat.lt_or_ge t p with hlt | hge
    · exact (hci p hlt hp2 h' hh').trans (by omega)
    · exact hc p hp1 hge h' hh'
  have hlow : h ≤ n := by
    by_contra hgt
    have hnext : next hs n s = some q := next_eq_some.2 ⟨by omega, ⟨h, hh, by omega⟩, hbelow⟩
    rw [hstop q hnext] at hp
    cases hp
  intro p hp1 hp2 h' hh'
  rcases Nat.lt_or_eq_of_le hp2 with hlt | heq
  · exact hbelow p hp1 (by omega) h' hh'
  · rw [heq, hh] at hh'
    cases hh'
    exact hlow

theorem zslDescend_ok (hlen : ids.length = hs.length)
    (hl : ∀ i, LinkedAt (col heap i) ids hs i) (ht : Tests heap w go ids P) (hfuel : hs.length ≤ f) {h : ℕ} (hJ : ∀ i < n, ∀ s q, J s → next hs i s = some q → P q = true → J q) (hr : J r)
    (hx : ids[r]? = some x) (hh : hs[r]? = some h) (hn : n ≤ h) :
    ∃ ss, zslDescend heap w go f n x (r%2^w) = .ok (ss.map (place ids w)) ∧
      Stops hs P J n r ss := by
  induction n generalizing r x h J with
  | zero => exact ⟨[], rfl, rfl, by simp, by simp⟩
  | succ n ih =>
    obtain ⟨s, y, hwalk, hy, hend⟩ := zslWalk_ok (J := J) hlen (hl n) ht (hJ n (by omega))
      (f := f) (by omega) ⟨h, hh, by omega⟩ hr hx
    obtain ⟨h', hh', hn'⟩ := hend.tall
    have hJ' : ∀ i < n, ∀ t q, (J t ∧ s ≤ t ∧ Clear hs n s t) → next hs i t = some q →
        P q = true → (J q ∧ s ≤ q ∧ Clear hs n s q) := by
      rintro i hi t q ⟨hjt, hst, hc⟩ hq hp
      have htq := (next_lt_length hq).1
      exact ⟨hJ i (by omega) t q hjt hq hp, by omega, clear_step hi hend.stop hst hc hq hp⟩
    have hself : Clear hs n s s := fun p hp1 hp2 => by omega
    obtain ⟨ss, hrun, hstops⟩ :=
      ih (J := fun t => J t ∧ s ≤ t ∧ Clear hs n s t) hJ' ⟨hend.inv, le_refl s, hself⟩ hy hh'
        (by omega)
    refine ⟨ss ++ [s], ?_, ?_, ?_, ?_⟩
    · rw [zslDescend, hwalk, ok_bind]
      simp only [hrun, ok_bind, List.map_append, List.map_cons, List.map_nil, place_eq hy]
    · simp [hstops.length]
    · intro i t hit
      rcases Nat.lt_trichotomy i ss.length with hlt | heq | hgt
      · rw [List.getElem?_append_left hlt] at hit
        have hw := hstops.walk i t hit
        refine ⟨hend.le.trans hw.le, hw.tall, hw.inv.1, ?_, hw.stop⟩
        rcases hw.passed with heq | hps
        · rw [heq]
          exact hend.passed
        · exact Or.inr hps
      · rw [heq, List.getElem?_append_right (le_refl _), Nat.sub_self,
          List.getElem?_cons_zero] at hit
        cases hit
        rw [heq, hstops.length]
        exact hend
      · rw [List.getElem?_eq_none (by simp; omega)] at hit
        cases hit
    · intro i t s0 hit h0
      rcases Nat.lt_or_ge i ss.length with hlt | hge
      · rw [List.getElem?_append_left hlt] at hit
        rw [List.getElem?_append_left (by omega)] at h0
        exact hstops.clear i t s0 hit h0
      · have hi : i = ss.length := by
          obtain ⟨hlt, -⟩ := List.getElem?_eq_some_iff.mp hit
          simp at hlt
          omega
        rw [hi, List.getElem?_append_right (le_refl _), Nat.sub_self,
          List.getElem?_cons_zero] at hit
        cases hit
        rw [hi, hstops.length]
        rcases Nat.eq_zero_or_pos ss.length with hzero | hpos
        · rw [List.eq_nil_of_length_eq_zero hzero] at h0
          cases h0
          exact ⟨le_refl _, hself⟩
        · rw [List.getElem?_append_left hpos] at h0
          exact (hstops.walk 0 s0 h0).inv.2

structure Ends (hs : List ℕ) (P : ℕ → Bool) (n : ℕ) (ss : List ℕ) (s0 : ℕ) : Prop where
  length : ss.length = n
  first : ss[0]? = some s0
  lt : s0 < hs.length
  passed : s0 = 0 ∨ P s0
  stop : s0+1 < hs.length → P (s0+1) = false
  last : ∀ i s, ss[i]? = some s → LastTall (hs.take (s0+1)) i s

theorem Stops.ends {ss : List ℕ} (h : Stops hs P (fun _ => True) n 0 ss) (hn : 0 < n)
    (htall : ∀ y ∈ hs, 0 < y) : ∃ s0, Ends hs P n ss s0 := by
  obtain ⟨s0, h0⟩ : ∃ s0, ss[0]? = some s0 :=
    ⟨_, List.getElem?_eq_getElem (by have := h.length; omega)⟩
  have hw := h.walk 0 s0 h0
  refine ⟨s0, h.length, h0, hw.lt, hw.passed, ?_, ?_⟩
  · intro hlt
    apply hw.stop
    refine next_eq_some.2 ⟨by omega, ⟨hs[s0+1], List.getElem?_eq_getElem hlt, ?_⟩, ?_⟩
    · exact htall _ (List.getElem_mem hlt)
    · intro p hp1 hp2
      omega
  · intro i s hs'
    obtain ⟨hle, hc⟩ := h.clear i s s0 hs' h0
    have htake : (hs.take (s0+1)).length = s0+1 := by
      rw [List.length_take]
      have := hw.lt
      omega
    obtain ⟨y, hy, hi⟩ := (h.walk i s hs').tall
    refine ⟨by omega, ⟨y, ?_, hi⟩, ?_⟩
    · rw [List.getElem?_take_of_lt (by omega)]
      exact hy
    · intro q hq1 hq2 x hx
      rw [List.getElem?_take_of_lt (by omega)] at hx
      exact hc q hq1 (by omega) x hx

end RedisCore.Skiplist
