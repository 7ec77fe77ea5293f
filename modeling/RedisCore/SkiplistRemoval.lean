import RedisCore.SkiplistDelete

namespace RedisCore.Skiplist
open RedisCore.SkipIndex

section Frame

variable {S : Type} {z : Zskiplist S} {ts : List (Tower S)}

theorem Layout.congr_heap (hz : Layout z ts) {heap : Heap S}
    (h : ∀ y ∈ addrs ts, heap y = z.heap y) : Layout { z with heap := heap } ts := by
  have hcol : ∀ i, ∀ y ∈ addrs ts, col heap i y = col z.heap i y := by
    intro i y hy
    unfold col
    rw [h y hy]
  have hbody : ∀ y ∈ addrs ts, body heap y = body z.heap y := by
    intro y hy
    unfold body
    rw [h y hy]
  have hhead : header ∈ addrs ts := by simp [addrs]
  refine ⟨?_, ?_, ?_, ?_, hz.level, hz.tail, hz.length, hz.nodup, hz.fresh, hz.room⟩
  · intro i r x k hx hk hi
    show col heap i x = _
    rw [hcol i x (List.mem_of_getElem? hx)]
    exact hz.linked i r x k hx hk hi
  · intro i h1 h2
    show ∃ span, col heap i header = _
    rw [hcol i header hhead]
    exact hz.above i h1 h2
  · show ∃ s, body heap header = _
    rw [hbody header hhead]
    exact hz.head
  · apply hz.backward.frame
    intro t ht
    apply hbody
    rw [addrs]
    exact List.mem_cons_of_mem _ (List.mem_map_of_mem ht)

theorem Layout.zslFreeNode (hz : Layout z ts) {x : ℕ} (hx : x ∉ addrs ts) :
    Layout (zslFreeNode z x) ts := by
  apply hz.congr_heap
  intro y hy
  have hne : y ≠ x := by
    rintro rfl
    exact hx hy
  exact if_neg hne

variable {L R : List (Tower S)} {ss : List ℕ} {w : ℕ} {inRange : ZskiplistNode S → ℕ → Bool}
  {rT : Tower S → ℕ → Bool}

theorem Preds.lower {n n' : ℕ} (h : Preds n L ss) (hle : n' ≤ n) : Preds n' L ss := by
  refine ⟨h.first, ?_⟩
  intro i hi
  obtain ⟨s, hs, hlast⟩ := h.last i (by omega)
  exact ⟨s, hs, hlast.cons (fun _ => hi)⟩

theorem searchEnd_ok (hz : Layout z (L ++ R)) (hss : Preds z.level L ss) :
    searchEnd z (ss.map (place (addrs L) w)) = .ok (R.head?.map Tower.addr) := by
  cases ss with
  | nil => cases hss.first
  | cons s ss =>
    have hs : s = L.length := Option.some.inj hss.first
    have hpos : L.length < (addrs (L ++ R)).length := by
      rw [length_addrs, List.length_append]
      omega
    obtain ⟨span, hfwd⟩ := hz.linked.forward hz.heights_pos (List.getElem?_eq_getElem hpos)
    have hhead : (L ++ R)[L.length]? = R.head? := by
      rw [List.getElem?_append_right (le_refl _), Nat.sub_self, List.head?_eq_getElem?]
    have hplace : (place (addrs L) w s).1 = (addrs (L ++ R))[L.length] := by
      rw [← place_left (R := R) (by omega), hs, place_eq (List.getElem?_eq_getElem hpos)]
    rw [List.map_cons, searchEnd]
    rw [hplace, levelAt_of_col hfwd, ok_bind, hhead]

theorem deleteWhile_ok (hr : Reads inRange rT)
    {f k : ℕ} (hf : R.length ≤ f) (hz : Layout z (L ++ R)) (hss : Preds z.level L ss)
    (hn : z.level ≤ ss.length) :
    ∃ M R' z', R = M ++ R' ∧
      deleteWhile inRange (ss.map (place (addrs L) w)) f z (R.head?.map Tower.addr) k =
        .ok (z', M.map Tower.ele) ∧ Layout z' (L ++ R') ∧ z'.fresh = z.fresh ∧
      (∀ i t, M[i]? = some t → rT t (k+i) = true) ∧
      ∀ t, R'.head? = some t → rT t (k+M.length) = false := by
  induction R generalizing z f k with
  | nil => exact ⟨[], [], z, rfl, by cases f <;> rfl, hz, rfl, by simp, by simp⟩
  | cons t R ih =>
    cases f with
    | zero =>
      rw [List.length_cons] at hf
      omega
    | succ f =>
      have hbt := ((backward_append z.heap none L (t :: R)).mp hz.backward).2.1
      obtain ⟨n, -, hd, he, hs, -⟩ := deref_of_body hbt
      rw [List.head?_cons, Option.map_some, deleteWhile, hd, ok_bind, hr n t k he hs]
      by_cases hin : rT t k = true
      · obtain ⟨z1, hrun1, hz1, hle, hfresh, -⟩ := zslDeleteNode_ok (w := w) hz hss hn
        have hmem : t.addr ∉ addrs (L ++ R) := by
          have hnd := hz.nodup
          rw [addrs_append, List.map_cons] at hnd
          rw [addrs_append]
          exact (List.nodup_cons.mp (List.nodup_middle.mp hnd)).1
        obtain ⟨M, R', z', hsplit, hrun, hz', hfresh', hM, hR'⟩ := ih (f := f) (k := k+1)
          (z := Skiplist.zslFreeNode z1 t.addr) (by simpa using hf) (hz1.zslFreeNode hmem)
          (hss.lower hle) (le_trans hle hn)
        have hpos : (addrs (L ++ t :: R))[L.length+1]? = some t.addr := by
          rw [addrs_succ, List.getElem?_append_right (le_refl _), Nat.sub_self]
          rfl
        obtain ⟨span, hfwd⟩ := hz.linked.forward hz.heights_pos hpos
        have hhead : (L ++ t :: R)[L.length+1]? = R.head? := by
          rw [List.getElem?_append_right (by omega), List.head?_eq_getElem?]
          have hsub : L.length+1-L.length = 1 := by omega
          rw [hsub, List.getElem?_cons_succ]
        rw [hhead] at hfwd
        refine ⟨t :: M, R', z', by rw [hsplit]; rfl, ?_, hz', hfresh'.trans hfresh, ?_, ?_⟩
        · rw [if_pos hin, levelAt_of_col hfwd, ok_bind, hrun1, ok_bind]
          dsimp only
          rw [hrun, ok_bind, he]
          rfl
        · intro i u hu
          cases i with
          | zero =>
            cases hu
            exact hin
          | succ i =>
            have h1 := hM i u hu
            rw [show k+(i+1) = k+1+i by omega]
            exact h1
        · intro u hu
          have h1 := hR' u hu
          rw [List.length_cons, show k+(M.length+1) = k+1+M.length by omega]
          exact h1
      · refine ⟨[], t :: R, z, rfl, by rw [if_neg hin]; rfl, hz, rfl, by simp, ?_⟩
        intro u hu
        cases hu
        simpa using hin

theorem zslDeleteRange_ok (hz : Layout z ts) {skip : ZskiplistNode S → ℕ → Bool}
    {sT : Tower S → ℕ → Bool} (hs : Reads skip sT) (hr : Reads inRange rT) :
    ∃ L M R ss z', Found z ts 64 sT L (M ++ R) ss ∧
      zslDeleteRange z skip inRange = .ok (z', M.map Tower.ele) ∧ Layout z' (L ++ R) ∧
      z'.fresh = z.fresh ∧ (∀ i t, M[i]? = some t → rT t (L.length%2^64+1+i) = true) ∧
      ∀ t, R.head? = some t → rT t (L.length%2^64+1+M.length) = false := by
  obtain ⟨L, R, ss, hrun, hfound⟩ := zslSearch_ok hz 64 hs
  have hzs := hz
  rw [hfound.split] at hzs
  have hlen := hz.length_le_fresh
  rw [hfound.split, List.length_append] at hlen
  have hlevel : z.level ≤ ss.length := hfound.length.ge
  obtain ⟨M, R', z', hR, hrun', hz', hfresh, hM, hR'⟩ := deleteWhile_ok (w := 64) (f := z.fresh)
    (k := L.length%2^64+1) hr (by omega) hzs hfound.preds hlevel
  have hrank : ((ss.map (place (addrs L) 64)).headD (header, 0)).2 = L.length%2^64 := by
    cases hss : ss with
    | nil =>
      have h1 := hfound.preds.first
      rw [hss] at h1
      cases h1
    | cons s ss' =>
      have h1 := hfound.preds.first
      rw [hss] at h1
      cases h1
      rfl
  refine ⟨L, M, R', ss, z', hR ▸ hfound, ?_, hz', hfresh, hM, hR'⟩
  unfold zslDeleteRange
  rw [hrun, ok_bind, searchEnd_ok hzs hfound.preds, ok_bind]
  rw [hrank]
  exact hrun'

end Frame

section Order

variable {S : Type} [LinearOrder S]

def KeyLt (s1 : S) (e1 : Bytes) (s2 : S) (e2 : Bytes) : Prop :=
  s1 < s2 ∨ (s1 = s2 ∧ sdscmp e1 e2 = .lt)

instance (s1 : S) (e1 : Bytes) (s2 : S) (e2 : Bytes) : Decidable (KeyLt s1 e1 s2 e2) :=
  inferInstanceAs (Decidable (_ ∨ _))

theorem KeyLt.trans {s1 s2 s3 : S} {e1 e2 e3 : Bytes} (h1 : KeyLt s1 e1 s2 e2)
    (h2 : KeyLt s2 e2 s3 e3) : KeyLt s1 e1 s3 e3 := by
  rcases h1 with h1 | ⟨rfl, h1⟩
  · rcases h2 with h2 | ⟨rfl, -⟩
    · exact Or.inl (h1.trans h2)
    · exact Or.inl h1
  · rcases h2 with h2 | ⟨rfl, h2⟩
    · exact Or.inl h2
    · exact Or.inr ⟨rfl, sdscmp_trans h1 h2⟩

theorem KeyLt.irrefl (s : S) (e : Bytes) : ¬ KeyLt s e s e := by
  rintro (h | ⟨-, h⟩)
  · exact lt_irrefl s h
  · rw [sdscmp_self] at h
    cases h

theorem keyLt_or_keyLt {s1 s2 : S} {e1 e2 : Bytes} (h : ¬ (s1 = s2 ∧ e1 = e2)) :
    KeyLt s1 e1 s2 e2 ∨ KeyLt s2 e2 s1 e1 := by
  rcases lt_trichotomy s1 s2 with hlt | heq | hgt
  · exact Or.inl (Or.inl hlt)
  · cases hc : sdscmp e1 e2 with
    | lt => exact Or.inl (Or.inr ⟨heq, hc⟩)
    | eq => exact absurd ⟨heq, sdscmp_eq_iff.1 hc⟩ h
    | gt => exact Or.inr (Or.inr ⟨heq.symm, sdscmp_gt_iff.1 hc⟩)
  · exact Or.inr (Or.inl hgt)

def Tower.Before (t u : Tower S) : Prop := KeyLt t.score t.ele u.score u.ele

structure Ordered (ts : List (Tower S)) : Prop where
  sorted : ts.Pairwise Tower.Before
  distinct : (ts.map Tower.ele).Nodup

theorem Ordered.sublist {ts us : List (Tower S)} (h : Ordered ts) (hs : us.Sublist ts) :
    Ordered us :=
  ⟨h.sorted.sublist hs, h.distinct.sublist (hs.map _)⟩

theorem Ordered.removeRun {L M R : List (Tower S)} (h : Ordered (L ++ (M ++ R))) :
    Ordered (L ++ R) := by
  apply h.sublist
  exact (List.sublist_append_right M R).append_left L

theorem nodeBefore_reads (score : S) (ele : Bytes) :
    Reads (fun n _ => nodeBefore score ele n)
      (fun (t : Tower S) _ => decide (KeyLt t.score t.ele score ele)) := by
  intro n t r he hs
  dsimp only
  rw [Bool.eq_iff_iff, decide_eq_true_eq]
  unfold nodeBefore KeyLt
  rw [he, hs]
  simp

theorem split_at_key {z : Zskiplist S} {ts L R : List (Tower S)} {w : ℕ} {ss : List ℕ} {score : S}
    {ele : Bytes} (ho : Ordered ts)
    (hf : Found z ts w (fun t _ => decide (KeyLt t.score t.ele score ele)) L R ss) :
    (∀ t ∈ L, KeyLt t.score t.ele score ele) ∧ ∀ t ∈ R, ¬ KeyLt t.score t.ele score ele := by
  have hs := ho.sorted
  rw [hf.split, List.pairwise_append] at hs
  constructor
  · intro t ht
    obtain ⟨M, y, rfl⟩ : ∃ M y, L = M ++ [y] := by
      rcases List.eq_nil_or_concat L with rfl | ⟨M, y, hL⟩
      · simp at ht
      · exact ⟨M, y, by simpa using hL⟩
    have hy := hf.passed y (by simp)
    rw [decide_eq_true_eq] at hy
    rcases List.mem_append.mp ht with htM | hty
    · have hbefore := (List.pairwise_append.mp hs.1).2.2 t htM y (by simp)
      exact KeyLt.trans hbefore hy
    · rw [List.mem_singleton.mp hty]
      exact hy
  · intro t ht hlt
    cases R with
    | nil => simp at ht
    | cons y R =>
      have hy := hf.stop y rfl
      rw [decide_eq_false_iff_not] at hy
      rcases List.mem_cons.mp ht with rfl | htR
      · exact hy hlt
      · exact hy (KeyLt.trans ((List.pairwise_cons.mp hs.2.1).1 t htR) hlt)

theorem nodeIs_iff {n : ZskiplistNode S} {t : Tower S} (he : n.ele = some t.ele)
    (hs : n.score = t.score) (score : S) (ele : Bytes) :
    nodeIs score ele n = true ↔ t.score = score ∧ t.ele = ele := by
  unfold nodeIs
  rw [he, hs, Option.any_some, Bool.and_eq_true, decide_eq_true_eq, beq_iff_eq, sdscmp_eq_iff,
    eq_comm (a := score)]

theorem head_of_present {L R : List (Tower S)} {t : Tower S} (ho : Ordered (L ++ R))
    (hL : ∀ u ∈ L, KeyLt u.score u.ele t.score t.ele)
    (hR : ∀ u ∈ R, ¬ KeyLt u.score u.ele t.score t.ele) (ht : t ∈ L ++ R) : R.head? = some t := by
  rcases List.mem_append.mp ht with htL | htR
  · exact absurd (hL t htL) (KeyLt.irrefl _ _)
  · cases R with
    | nil => simp at htR
    | cons y R =>
      rcases List.mem_cons.mp htR with rfl | htR'
      · rfl
      · have hs := (List.pairwise_append.mp ho.sorted).2.1
        exact absurd ((List.pairwise_cons.mp hs).1 t htR') (hR y (by simp))

theorem search_key {z : Zskiplist S} {ts : List (Tower S)} (hz : Layout z ts) (ho : Ordered ts)
    (w : ℕ) (score : S) (ele : Bytes) : ∃ L R ss,
      zslSearch z w (fun n _ => nodeBefore score ele n) = .ok (ss.map (place (addrs L) w)) ∧
      ts = L ++ R ∧ Preds z.level L ss ∧ ss.length = z.level ∧
      (∀ t ∈ L, KeyLt t.score t.ele score ele) ∧ ∀ t ∈ R, ¬ KeyLt t.score t.ele score ele := by
  obtain ⟨L, R, ss, hrun, hf⟩ := zslSearch_ok hz w (nodeBefore_reads score ele)
  obtain ⟨hL, hR⟩ := split_at_key ho hf
  exact ⟨L, R, ss, hrun, hf.split, hf.preds, hf.length, hL, hR⟩

theorem zslDelete_ok {z : Zskiplist S} {ts : List (Tower S)} (hz : Layout z ts) (ho : Ordered ts)
    (score : S) (ele : Bytes) (keep : Bool) :
    (∃ L t R z', ts = L ++ t :: R ∧ t.score = score ∧ t.ele = ele ∧
      zslDelete z score ele keep = .ok (z', true) ∧ Layout z' (L ++ R)) ∨
    ((∀ t ∈ ts, ¬ (t.score = score ∧ t.ele = ele)) ∧
      zslDelete z score ele keep = .ok (z, false)) := by
  obtain ⟨L, R, ss, hrun, rfl, hss, hlen, hL, hR⟩ := search_key hz ho 64 score ele
  unfold zslDelete
  rw [hrun, ok_bind, searchEnd_ok hz hss, ok_bind]
  cases R with
  | nil =>
    right
    refine ⟨?_, rfl⟩
    rintro t ht ⟨rfl, rfl⟩
    rw [List.append_nil] at ht
    exact KeyLt.irrefl _ _ (hL t ht)
  | cons t R =>
    have hbt := ((backward_append z.heap none L (t :: R)).mp hz.backward).2.1
    obtain ⟨n, -, hd, he, hs, -⟩ := deref_of_body hbt
    simp only [List.head?_cons, Option.map_some, hd, ok_bind]
    by_cases hkey : t.score = score ∧ t.ele = ele
    · left
      obtain ⟨z1, hrun1, hz1, -, -, -⟩ := zslDeleteNode_ok (w := 64) hz hss hlen.ge
      have hmem : t.addr ∉ addrs (L ++ R) := by
        have hnd := hz.nodup
        rw [addrs_append, List.map_cons] at hnd
        rw [addrs_append]
        exact (List.nodup_cons.mp (List.nodup_middle.mp hnd)).1
      rw [if_pos ((nodeIs_iff he hs score ele).mpr hkey), hrun1, ok_bind]
      refine ⟨L, t, R, _, rfl, hkey.1, hkey.2, rfl, ?_⟩
      cases keep with
      | true => exact hz1
      | false => exact hz1.zslFreeNode hmem
    · right
      have hno : ¬ nodeIs score ele n = true := by
        rw [nodeIs_iff he hs]
        exact hkey
      refine ⟨?_, by rw [if_neg hno]⟩
      rintro u hu ⟨rfl, rfl⟩
      have hhead := head_of_present ho hL hR hu
      cases hhead
      exact hkey ⟨rfl, rfl⟩

end Order

end RedisCore.Skiplist
