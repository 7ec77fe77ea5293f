import RedisCore.StralgoTable

namespace RedisCore.Stralgo
open List (nil_append replicate take_zero)

open Subsequence

variable {a b s t : Bytes} {w : Walk} {rs : List MatchRange} {p q m : ℕ}

def MatchRange.length (r : MatchRange) : ℕ := r.aend+1-r.astart

def MatchRange.contents (a : Bytes) (r : MatchRange) : Bytes := (a.drop r.astart).take r.length

structure Ranges (a b : Bytes) (p q : ℕ) (s : Bytes) (rs : List MatchRange) : Prop where
  inLeft : ∀ r ∈ rs, p ≤ r.astart ∧ r.astart ≤ r.aend ∧ r.aend < a.length
  inRight : ∀ r ∈ rs, q ≤ r.bstart ∧ r.bstart ≤ r.bend ∧ r.bend < b.length
  sameLength : ∀ r ∈ rs, r.aend-r.astart = r.bend-r.bstart
  sameContents : ∀ r ∈ rs, r.contents a = (b.drop r.bstart).take r.length
  decreasing : rs.Pairwise (fun r r' => r'.aend < r.astart ∧ r'.bend < r.bstart)
  spells : (rs.reverse.map (MatchRange.contents a)).flatten = s

theorem Ranges.mono (h : Ranges a b p q s rs) {p' q' : ℕ} (hp : p' ≤ p) (hq : q' ≤ q) :
    Ranges a b p' q' s rs := by
  refine ⟨?_, ?_, h.sameLength, h.sameContents, h.decreasing, h.spells⟩
  · intro r hr
    have hin := h.inLeft r hr
    omega
  · intro r hr
    have hin := h.inRight r hr
    omega

theorem Ranges.push (h : Ranges a b (p+m) (q+m) s rs) (hm : 0 < m) (ha : p+m ≤ a.length)
    (hb : q+m ≤ b.length) (hsame : (a.drop p).take m = (b.drop q).take m) :
    Ranges a b p q ((a.drop p).take m ++ s) (rs ++ [⟨p, p+m-1, q, q+m-1⟩]) := by
  have hlen : MatchRange.length ⟨p, p+m-1, q, q+m-1⟩ = m := by
    change p+m-1+1-p = m
    omega
  have hmem : ∀ {P : MatchRange → Prop}, (∀ r ∈ rs, P r) → P ⟨p, p+m-1, q, q+m-1⟩ →
      ∀ r ∈ rs ++ [⟨p, p+m-1, q, q+m-1⟩], P r := by
    intro P hold hnew r hr
    rcases List.mem_append.mp hr with hr | hr
    · exact hold r hr
    · rw [List.mem_singleton.mp hr]
      exact hnew
  refine ⟨?_, ?_, ?_, ?_, ?_, ?_⟩
  · apply hmem
    · intro r hr
      have hin := h.inLeft r hr
      omega
    · dsimp only
      omega
  · apply hmem
    · intro r hr
      have hin := h.inRight r hr
      omega
    · dsimp only
      omega
  · apply hmem h.sameLength
    dsimp only
    omega
  · apply hmem h.sameContents
    rw [MatchRange.contents, hlen]
    exact hsame
  · apply List.pairwise_append.mpr
    refine ⟨h.decreasing, List.pairwise_singleton _ _, ?_⟩
    intro r hr r' hr'
    rw [List.mem_singleton.mp hr']
    have hleft := h.inLeft r hr
    have hright := h.inRight r hr
    dsimp only
    omega
  · rw [List.reverse_append, List.reverse_singleton, List.singleton_append, List.map_cons,
      List.flatten_cons, h.spells, MatchRange.contents, hlen]

theorem Ranges.matchLen (h : Ranges a b p q s rs) (ha : a.length < 2^32) {r : MatchRange}
    (hr : r ∈ rs) : r.matchLen = r.length := by
  have hin := h.inLeft r hr
  unfold MatchRange.matchLen MatchRange.length u32
  omega

theorem Ranges.count_le (h : Ranges a b p q s rs) : rs.length ≤ s.length := by
  rw [← h.spells, List.length_flatten, List.map_map]
  calc rs.length
      = (rs.reverse.map (List.length ∘ MatchRange.contents a)).length := by simp
    _ ≤ (rs.reverse.map (List.length ∘ MatchRange.contents a)).sum := by
        apply List.length_le_sum_of_one_le
        intro n hn
        obtain ⟨r, hr, rfl⟩ := List.mem_map.mp hn
        have hin := h.inLeft r (List.mem_reverse.mp hr)
        change 1 ≤ (MatchRange.contents a r).length
        rw [MatchRange.contents, List.length_take, List.length_drop, MatchRange.length]
        omega

def Options.wants (o : Options) (r : MatchRange) : Bool :=
  decide (o.minmatchlen = 0 ∨ o.minmatchlen ≤ r.matchLen)

def Options.sent (o : Options) (rs : List MatchRange) : List MatchRange :=
  if o.getidx = true then rs.filter o.wants else []

def Walk.close (w : Walk) (alen : ℕ) : Walk := { w with range := { w.range with astart := alen } }

theorem emitRange_sent (o : Options) (alen : ℕ) (w : Walk) (rs : List MatchRange) :
    emitRange o alen { w with emitted := o.sent rs } =
      { w.close alen with emitted := o.sent (rs ++ [w.range]) } := by
  unfold emitRange Options.sent
  dsimp only
  rw [List.filter_append, List.filter_singleton]
  by_cases hidx : o.getidx = true
  · rw [if_pos hidx, if_pos hidx]
    by_cases hwant : o.minmatchlen = 0 ∨ o.minmatchlen ≤ w.range.matchLen
    · have hw : o.wants w.range = true := decide_eq_true hwant
      rw [if_pos ⟨hwant, hidx⟩, hw]
      rfl
    · have hw : o.wants w.range = false := decide_eq_false hwant
      rw [if_neg (fun hboth => hwant hboth.1), hw]
      simp only [cond_false, List.append_nil]
      rfl
  · rw [if_neg hidx, if_neg hidx, if_neg (fun hboth => hidx hboth.2)]
    rfl

structure Tracks (a b : Bytes) (w : Walk) (m : ℕ) (t s : Bytes) (rs : List MatchRange) : Prop where
  idx : w.idx = prefixLength a b w.i w.j
  result : w.result = replicate w.idx none ++ t.map some
  length : w.idx+t.length = prefixLength a b a.length b.length
  left : t.Sublist (a.drop w.i)
  right : t.Sublist (b.drop w.j)
  ranges : Ranges a b (w.i+m) (w.j+m) s rs
  contents : t = (a.drop w.i).take m ++ s
  same : (a.drop w.i).take m = (b.drop w.j).take m
  fitsLeft : w.i+m ≤ a.length
  fitsRight : w.j+m ≤ b.length
  range : (m = 0 ∧ w.range.astart = a.length) ∨
    (0 < m ∧ w.range = ⟨w.i, w.i+m-1, w.j, w.j+m-1⟩)
  table : Upto a b a.length b.length ((a.length+1)*(b.length+1)) w.table

def Settled (w : Walk) (m : ℕ) : Prop := 0 < m → 0 < w.i ∧ 0 < w.j

theorem settled_zero : Settled w 0 := fun hm => absurd hm (lt_irrefl 0)

theorem Tracks.closed (h : Tracks a b w 0 t s rs) : s = t := by
  rw [h.contents, take_zero, nil_append]

theorem Tracks.close (h : Tracks a b w m t s rs) (hm : 0 < m) :
    Tracks a b (w.close a.length) 0 t t (rs ++ [w.range]) := by
  rcases h.range with ⟨hzero, _⟩ | ⟨_, hrange⟩
  · omega
  · have hranges := h.ranges.push hm h.fitsLeft h.fitsRight h.same
    rw [← hrange, ← h.contents] at hranges
    have hfitsLeft := h.fitsLeft
    have hfitsRight := h.fitsRight
    refine ⟨h.idx, h.result, h.length, h.left, h.right, hranges, ?_, ?_, ?_, ?_, Or.inl ⟨rfl, rfl⟩,
      h.table⟩
    · rw [take_zero, nil_append]
    · rw [take_zero, take_zero]
    · change w.i+0 ≤ a.length
      omega
    · change w.j+0 ≤ b.length
      omega

theorem Tracks.move (h : Tracks a b w 0 t t rs) {i j : ℕ} {table : Table} (hi : i ≤ w.i)
    (hj : j ≤ w.j) (hsame : prefixLength a b i j = w.idx)
    (htable : Upto a b a.length b.length ((a.length+1)*(b.length+1)) table) :
    Tracks a b { w with i := i, j := j, table := table } 0 t t rs := by
  have hfitsLeft := h.fitsLeft
  have hfitsRight := h.fitsRight
  refine ⟨hsame.symm, h.result, h.length, ?_, ?_, h.ranges.mono (by dsimp only; omega)
    (by dsimp only; omega), ?_, ?_, by dsimp only; omega, by dsimp only; omega, ?_, htable⟩
  · exact h.left.trans (List.drop_sublist_drop_left a hi)
  · exact h.right.trans (List.drop_sublist_drop_left b hj)
  · rw [take_zero, nil_append]
  · rw [take_zero, take_zero]
  · rcases h.range with hopen | ⟨hpos, _⟩
    · exact Or.inl hopen
    · exact absurd hpos (lt_irrefl 0)

theorem set_last {α : Type} (n : ℕ) (c : α) (t : List α) :
    (replicate (n+1) none ++ t.map some).set n (some c) =
      replicate n none ++ (c :: t).map some := by
  rw [List.replicate_succ', List.append_assoc, List.set_append_right _ _ (by simp)]
  simp

theorem Tracks.trackRange (h : Tracks a b w m t s rs) (hi : 0 < w.i) (hj : 0 < w.j) :
    trackRange a.length w =
      (⟨w.i-1, w.i-1+(m+1)-1, w.j-1, w.j-1+(m+1)-1⟩, false) := by
  unfold Stralgo.trackRange
  rcases h.range with ⟨hzero, hstart⟩ | ⟨hpos, hrange⟩
  · rw [if_pos hstart, hzero]
    rfl
  · have hfits := h.fitsLeft
    rw [hrange, if_neg (by dsimp only; omega), if_pos ⟨rfl, rfl⟩]
    dsimp only
    rw [show w.i-1+(m+1)-1 = w.i+m-1 by omega, show w.j-1+(m+1)-1 = w.j+m-1 by omega]

theorem take_drop_pred {l : Bytes} {i : ℕ} {c : UInt8} (hi : 0 < i) (hc : l[i-1]? = some c) :
    l.drop (i-1) = c :: l.drop i := by
  obtain ⟨hlt, hget⟩ := List.getElem?_eq_some_iff.mp hc
  rw [List.drop_eq_getElem_cons hlt, hget, Nat.sub_add_cancel hi]

theorem Tracks.matched (h : Tracks a b w m t s rs) (hi : 0 < w.i) (hj : 0 < w.j)
    (hsame : a[w.i-1]? = b[w.j-1]?) (ha : a.length < 2^32) :
    ∃ w' m' t' s' rs', (∀ o : Options, walkMatch o a a.length { w with emitted := o.sent rs } =
        .ok { w' with emitted := o.sent rs' }) ∧
      Tracks a b w' m' t' s' rs' ∧ Settled w' m' ∧ w'.i+w'.j < w.i+w.j := by
  have hfits := h.fitsLeft
  have hfits' := h.fitsRight
  obtain ⟨c, hc⟩ : ∃ c, a[w.i-1]? = some c := ⟨a[w.i-1], List.getElem?_eq_getElem (by omega)⟩
  have hc' := hsame ▸ hc
  obtain ⟨n, hn⟩ : ∃ n, n = prefixLength a b (w.i-1) (w.j-1) := ⟨_, rfl⟩
  have hidx : w.idx = n+1 := by
    obtain ⟨i, hi'⟩ : ∃ i, w.i = i+1 := ⟨w.i-1, by omega⟩
    obtain ⟨j, hj'⟩ : ∃ j, w.j = j+1 := ⟨w.j-1, by omega⟩
    rw [hi', hj', Nat.add_sub_cancel, Nat.add_sub_cancel] at hsame hn
    rw [h.idx, hi', hj', prefixLength_match hsame, hn]
  have hle := prefixLength_le a b (w.i-1) (w.j-1)
  have hk : u32 (w.idx+2^32-1) = n := by
    unfold u32
    omega
  have hin : n < w.result.length := by
    rw [h.result, List.length_append, List.length_replicate]
    omega
  have hdropA := take_drop_pred hi hc
  have hdropB := take_drop_pred hj hc'
  obtain ⟨w1, hw1⟩ : ∃ w1 : Walk, w1 =
    { w with
      i := w.i-1
      j := w.j-1
      idx := n
      result := w.result.set n a[w.i-1]?
      range := ⟨w.i-1, w.i-1+(m+1)-1, w.j-1, w.j-1+(m+1)-1⟩ } := ⟨_, rfl⟩
  have htracks : Tracks a b w1 (m+1) (c :: t) s rs := by
    subst hw1
    refine ⟨hn, ?_, ?_, ?_, ?_, h.ranges.mono (by dsimp only; omega) (by dsimp only; omega), ?_, ?_,
      by dsimp only; omega, by dsimp only; omega, Or.inr ⟨by omega, rfl⟩, h.table⟩
    · dsimp only
      rw [hc, h.result, hidx]
      exact set_last n c t
    · have hlen := h.length
      dsimp only
      rw [List.length_cons]
      omega
    · dsimp only
      rw [hdropA]
      exact h.left.cons_cons c
    · dsimp only
      rw [hdropB]
      exact h.right.cons_cons c
    · dsimp only
      rw [hdropA, List.take_succ_cons, List.cons_append, ← h.contents]
    · dsimp only
      rw [hdropA, hdropB, List.take_succ_cons, List.take_succ_cons, h.same]
  have hmove : w1.i+w1.j < w.i+w.j := by
    rw [hw1]
    dsimp only
    omega
  have hrun : ∀ o : Options, walkMatch o a a.length { w with emitted := o.sent rs } =
      .ok (if (w1.i == 0 || w1.j == 0) = true then
        emitRange o a.length { w1 with emitted := o.sent rs }
        else { w1 with emitted := o.sent rs }) := by
    intro o
    have htrack : Stralgo.trackRange a.length { w with emitted := o.sent rs } =
        (⟨w.i-1, w.i-1+(m+1)-1, w.j-1, w.j-1+(m+1)-1⟩, false) := h.trackRange hi hj
    unfold walkMatch
    dsimp only
    rw [hk, if_pos hin, htrack, hw1]
    rfl
  by_cases hedge : (w1.i == 0 || w1.j == 0) = true
  · refine ⟨w1.close a.length, _, _, _, _, ?_, htracks.close (Nat.succ_pos m), settled_zero, hmove⟩
    intro o
    rw [hrun, if_pos hedge, emitRange_sent]
  · refine ⟨w1, _, _, _, rs, ?_, htracks, ?_, hmove⟩
    · intro o
      rw [hrun, if_neg hedge]
    · intro _
      rw [Bool.or_eq_true, beq_iff_eq, beq_iff_eq, not_or] at hedge
      omega

theorem Tracks.differed (h : Tracks a b w m t s rs) (hi : 0 < w.i) (hj : 0 < w.j)
    (hdiffer : ¬a[w.i-1]? = b[w.j-1]?) (hsize : (a.length+1)*(b.length+1) < 2^32) :
    ∃ w' m' t' s' rs', (∀ o : Options,
        walkStep o a b a.length b.length { w with emitted := o.sent rs } =
          .ok { w' with emitted := o.sent rs' }) ∧
      Tracks a b w' m' t' s' rs' ∧ Settled w' m' ∧ w'.i+w'.j < w.i+w.j := by
  have hfitsLeft := h.fitsLeft
  have hfitsRight := h.fitsRight
  obtain ⟨t1, hread1, h1⟩ := h.table.read_full hsize (A := w.i-1) (B := w.j) (by omega) (by omega)
  obtain ⟨t2, hread2, h2⟩ := h1.read_full hsize (A := w.i) (B := w.j-1) (by omega) (by omega)
  have hmax : w.idx = max (prefixLength a b (w.i-1) w.j) (prefixLength a b w.i (w.j-1)) := by
    obtain ⟨i, hi'⟩ : ∃ i, w.i = i+1 := ⟨w.i-1, by omega⟩
    obtain ⟨j, hj'⟩ : ∃ j, w.j = j+1 := ⟨w.j-1, by omega⟩
    rw [hi', hj', Nat.add_sub_cancel, Nat.add_sub_cancel] at hdiffer
    rw [h.idx, hi', hj', Nat.add_sub_cancel, Nat.add_sub_cancel, prefixLength_differ hdiffer]
  obtain ⟨i, j, hgo, hi', hj', hless, hsame⟩ : ∃ i j,
      (fun w' : Walk => if prefixLength a b (w.i-1) w.j > prefixLength a b w.i (w.j-1) then
        { w' with i := w.i-1, table := t2 } else { w' with j := w.j-1, table := t2 }) w =
        { w with i := i, j := j, table := t2 } ∧
      i ≤ w.i ∧ j ≤ w.j ∧ i+j < w.i+w.j ∧ prefixLength a b i j = w.idx := by
    by_cases hgt : prefixLength a b (w.i-1) w.j > prefixLength a b w.i (w.j-1)
    · exact ⟨w.i-1, w.j, if_pos hgt, by omega, by omega, by omega, by omega⟩
    · exact ⟨w.i, w.j-1, if_neg hgt, by omega, by omega, by omega, by omega⟩
  have hrun : ∀ o : Options, walkStep o a b a.length b.length { w with emitted := o.sent rs } =
      .ok (if w.range.astart ≠ a.length then
        emitRange o a.length { w with i := i, j := j, table := t2, emitted := o.sent rs }
        else { w with i := i, j := j, table := t2, emitted := o.sent rs }) := by
    intro o
    unfold walkStep
    dsimp only
    rw [if_neg hdiffer, hread1]
    dsimp only [bind, Except.bind]
    rw [hread2]
    dsimp only at hgo ⊢
    have hgo' := congrArg (fun w' : Walk => { w' with emitted := o.sent rs }) hgo
    by_cases hgt : prefixLength a b (w.i-1) w.j > prefixLength a b w.i (w.j-1)
    · rw [if_pos hgt] at hgo' ⊢
      rw [hgo']
    · rw [if_neg hgt] at hgo' ⊢
      rw [hgo']
  rcases h.range with ⟨hzero, hstart⟩ | ⟨hpos, hrange⟩
  · subst hzero
    have hs := h.closed
    rw [hs] at h
    refine ⟨{ w with i := i, j := j, table := t2 }, 0, t, t, rs, ?_, h.move hi' hj' hsame h2,
      settled_zero, hless⟩
    intro o
    rw [hrun, if_neg (not_not_intro hstart)]
  · have hopen : w.range.astart ≠ a.length := by
      rw [hrange]
      dsimp only
      omega
    refine ⟨{ w.close a.length with i := i, j := j, table := t2 }, 0, t, t, rs ++ [w.range], ?_,
      (h.close hpos).move hi' hj' hsame h2, settled_zero, hless⟩
    intro o
    rw [hrun, if_pos hopen]
    exact congrArg Except.ok (emitRange_sent o a.length { w with i := i, j := j, table := t2 } rs)

theorem Tracks.step (h : Tracks a b w m t s rs) (hi : 0 < w.i) (hj : 0 < w.j)
    (hsize : (a.length+1)*(b.length+1) < 2^32) :
    ∃ w' m' t' s' rs', (∀ o : Options,
        walkStep o a b a.length b.length { w with emitted := o.sent rs } =
          .ok { w' with emitted := o.sent rs' }) ∧
      Tracks a b w' m' t' s' rs' ∧ Settled w' m' ∧ w'.i+w'.j < w.i+w.j := by
  by_cases hsame : a[w.i-1]? = b[w.j-1]?
  · have hheight := height_lt hsize
    obtain ⟨w', m', t', s', rs', hrun, h'⟩ := h.matched hi hj hsame (by omega)
    refine ⟨w', m', t', s', rs', ?_, h'⟩
    intro o
    rw [← hrun o]
    exact if_pos hsame
  · exact h.differed hi hj hsame hsize

theorem Tracks.stopped (h : Tracks a b w m t s rs) (hsettled : Settled w m)
    (hedge : ¬(w.i > 0 ∧ w.j > 0)) : Tracks a b w 0 t t rs := by
  have hm : m = 0 := by
    by_contra hne
    exact hedge (hsettled (Nat.pos_of_ne_zero hne))
  subst hm
  have hs := h.closed
  rwa [hs] at h

theorem Tracks.run (fuel : ℕ) : ∀ {w : Walk} {m : ℕ} {t s : Bytes} {rs : List MatchRange},
    Tracks a b w m t s rs → Settled w m → (a.length+1)*(b.length+1) < 2^32 → w.i+w.j ≤ fuel →
    ∃ w' t' rs', (∀ o : Options,
        walkLoop o a b a.length b.length fuel { w with emitted := o.sent rs } =
          .ok { w' with emitted := o.sent rs' }) ∧
      Tracks a b w' 0 t' t' rs' ∧ ¬(w'.i > 0 ∧ w'.j > 0) := by
  induction fuel with
  | zero =>
    intro w m t s rs h hsettled _ hfuel
    have hedge : ¬(w.i > 0 ∧ w.j > 0) := by omega
    exact ⟨w, t, rs, fun o => if_neg hedge, h.stopped hsettled hedge, hedge⟩
  | succ fuel ih =>
    intro w m t s rs h hsettled hsize hfuel
    by_cases hedge : w.i > 0 ∧ w.j > 0
    · obtain ⟨w', m', t', s', rs', hstep, h', hsettled', hless⟩ := h.step hedge.1 hedge.2 hsize
      obtain ⟨w'', t'', rs'', hrun, hfinal⟩ := ih h' hsettled' hsize (by omega)
      refine ⟨w'', t'', rs'', ?_, hfinal⟩
      intro o
      rw [walkLoop, if_pos hedge, hstep o]
      exact hrun o
    · refine ⟨w, t, rs, ?_, h.stopped hsettled hedge, hedge⟩
      intro o
      rw [walkLoop, if_neg hedge]

end RedisCore.Stralgo
