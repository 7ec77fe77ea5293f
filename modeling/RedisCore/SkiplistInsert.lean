import RedisCore.SkiplistRemoval

namespace RedisCore.Skiplist
open List (length_append length_map map_cons mem_append mem_cons mem_map mem_of_getElem? replicate)
open Function (update_of_ne update_self)
open RedisCore.SkipIndex

variable {S : Type}

theorem growLevels_ok {m : Heap S} {c n k : ℕ}
    (h : ∀ i, n ≤ i → i < n+k → ∃ span, col m i header = some ⟨none, span⟩) :
    ∃ heap', growLevels m c n k = .ok heap' ∧ body heap' = body m ∧
      (∀ j, n ≤ j → j < n+k →
        col heap' j = Function.update (col m j) header (some ⟨none, c⟩)) ∧
      ∀ j, j < n ∨ n+k ≤ j → col heap' j = col m j := by
  induction k generalizing m n with
  | zero => exact ⟨m, rfl, rfl, fun j h1 h2 => by omega, fun _ _ => rfl⟩
  | succ k ih =>
    obtain ⟨span, hspan⟩ := h n (le_refl n) (by omega)
    obtain ⟨h1, hset, hb1, hc1⟩ := setLevel_ok ⟨none, c⟩ hspan
    have hrest : ∀ i, n+1 ≤ i → i < n+1+k → ∃ span, col h1 i header = some ⟨none, span⟩ := by
      intro i hi1 hi2
      rw [hc1, update_of_ne (by omega)]
      exact h i (by omega) (by omega)
    obtain ⟨h2, hrun, hb2, hin, hout⟩ := ih hrest
    refine ⟨h2, ?_, by rw [hb2, hb1], ?_, ?_⟩
    · rw [growLevels, levelAt_of_col hspan, ok_bind, hset, ok_bind, hrun]
    · intro j hj1 hj2
      rcases Nat.eq_or_lt_of_le hj1 with rfl | hlt
      · rw [hout n (by omega), hc1, update_self]
      · rw [hin j (by omega) (by omega), hc1, update_of_ne (by omega)]
    · intro j hj
      rw [hout j (by omega), hc1, update_of_ne (by omega)]

theorem linkedAt_empty {c : ℕ → Option ZskiplistLevel} {n i : ℕ} {ts : List (Tower S)}
    (hb : ∀ t ∈ ts, t.height ≤ i) (hc : c header = some ⟨none, ts.length⟩) :
    LinkedAt c (addrs ts) (heights n ts) i := by
  have hle : ∀ y ∈ ts.map Tower.height, y ≤ i := by
    intro y hy
    obtain ⟨t, ht, rfl⟩ := mem_map.mp hy
    exact hb t ht
  intro r x h hx hh hi
  cases r with
  | zero =>
    cases hx
    have hn : next (heights n ts) i 0 = none := next_eq_none_of_le hle 0
    rw [hc]
    unfold gap
    rw [hn, Option.bind_none, Option.getD_none, length_heights]
    rfl
  | succ r =>
    have := hle h (mem_of_getElem? hh)
    omega

theorem Linked.grow {heap heap' : Heap S} {n n' : ℕ} {ts : List (Tower S)} (hl : Linked heap n ts)
    (hb : ∀ t ∈ ts, t.height ≤ n)
    (hin : ∀ j, n ≤ j → j < n' →
      col heap' j = Function.update (col heap j) header (some ⟨none, ts.length⟩))
    (hout : ∀ j, j < n ∨ n' ≤ j → col heap' j = col heap j) :
    Linked heap' n' ts := by
  intro i
  rcases Nat.lt_or_ge i n with hlt | hge
  · rw [hout i (Or.inl hlt)]
    intro r x h hx hh hi
    cases r with
    | zero => exact hl i 0 x n hx rfl hlt
    | succ r => exact hl i (r+1) x h hx hh hi
  · rcases Nat.lt_or_ge i n' with hlt' | hge'
    · apply linkedAt_empty (fun t ht => (hb t ht).trans hge)
      rw [hin i hge hlt', update_self]
    · intro r x h hx hh hi
      cases r with
      | zero =>
        cases hh
        omega
      | succ r =>
        obtain ⟨t, ht, rfl⟩ := mem_map.mp (mem_of_getElem? hh)
        have := hb t ht
        omega

theorem Preds.grow {n m : ℕ} {L : List (Tower S)} {ss : List ℕ} (h : Preds n L ss)
    (hlen : ss.length = n) (hn : 0 < n) (hb : ∀ t ∈ L, t.height ≤ n) :
    Preds (max n m) L (ss ++ replicate (m-n) 0) := by
  refine ⟨?_, ?_⟩
  · rw [List.getElem?_append_left (by omega)]
    exact h.first
  · intro i hi
    rcases Nat.lt_or_ge i n with hlt | hge
    · obtain ⟨s, hs, hlast⟩ := h.last i hlt
      refine ⟨s, ?_, hlast.cons (fun _ => hi)⟩
      rw [List.getElem?_append_left (by omega)]
      exact hs
    · refine ⟨0, ?_, lastTall_first ?_ hi⟩
      · rw [List.getElem?_append_right (by omega), List.getElem?_replicate, if_pos (by omega)]
      · intro y hy
        obtain ⟨t, ht, rfl⟩ := mem_map.mp hy
        exact (hb t ht).trans hge

section Link

variable {heap : Heap S} {A B a b : List ℕ} {i r h x u : ℕ}

def linkCol (c : ℕ → Option ZskiplistLevel) (x u d : ℕ) (l : ZskiplistLevel) :
    ℕ → Option ZskiplistLevel :=
  Function.update (Function.update c x (some ⟨l.forward, wrapSub 64 l.span d⟩)) u
    (some ⟨some x, wrapAdd 32 d 1⟩)

theorem linkLevel_ok {l l0 : ZskiplistLevel} (hu : col heap i u = some l)
    (hx : col heap i x = some l0) (hux : u ≠ x) (k m : ℕ) :
    ∃ heap', linkLevel x k heap i (u, m) = .ok heap' ∧ body heap' = body heap ∧
      col heap' = Function.update (col heap) i (linkCol (col heap i) x u (wrapSub 32 k m) l) := by
  obtain ⟨h1, hset1, hb1, hc1⟩ := setLevel_ok ⟨l.forward, wrapSub 64 l.span (wrapSub 32 k m)⟩ hx
  have hu1 : col h1 i u = some l := by
    rw [hc1, update_self, update_of_ne hux]
    exact hu
  obtain ⟨h2, hset2, hb2, hc2⟩ := setLevel_ok ⟨some x, wrapAdd 32 (wrapSub 32 k m) 1⟩ hu1
  refine ⟨h2, ?_, hb2.trans hb1, ?_⟩
  · unfold linkLevel
    rw [levelAt_of_col hu, ok_bind, hset1, ok_bind, hset2]
  · rw [hc2, hc1, update_self, Function.update_idem]
    rfl

theorem rank_sub {p s : ℕ} (hs : s ≤ p) (hd : p-s < 2^32) :
    wrapSub 32 (p%2^32) (s%2^32) = p-s := by
  unfold wrapSub
  omega

theorem linkCol_linked {c : ℕ → Option ZskiplistLevel} (hl : LinkedAt c (A ++ B) (a ++ b) i)
    (hA : A.length = a.length) (hnd : (A ++ x :: B).Nodup) (hlast : LastTall a i r)
    (hu : A[r]? = some u) (hi : i < h) (hroom : a.length+b.length < 2^64)
    (hnear : a.length-r < 2^32) :
    LinkedAt (linkCol c x u (wrapSub 32 ((a.length-1)%2^32) (r%2^32))
      ⟨(next (a ++ b) i r).bind ((A ++ B)[·]?), gap (a ++ b) i r⟩)
      (A ++ x :: B) (a ++ h :: b) i := by
  have hr := hlast.lt
  have hgap := gap_add_le (a ++ b) i (r := r) (by simp; omega)
  rw [length_append] at hgap
  have hge : a.length-1-r ≤ gap (a ++ b) i r :=
    gap_ge (by rw [length_append]; omega) (hlast.clear b)
  have huB : (A ++ B)[r]? = some u := by
    rw [List.getElem?_append_left (by omega)]
    exact hu
  unfold linkCol
  dsimp only
  rw [rank_sub (by omega) (by omega), wrapSub_eq hge (by omega), wrapAdd_eq (by omega)]
  exact hl.link hA hnd hlast huB hi

theorem bumpLevel_ok (hl : LinkedAt (col heap i) (A ++ B) (a ++ b) i)
    (hA : A.length = a.length) (hnd : (A ++ x :: B).Nodup) (hlast : LastTall a i r)
    (hu : A[r]? = some u) (hi : h ≤ i) (hroom : a.length+b.length < 2^64) (k : ℕ) :
    ∃ heap' c, bumpLevel heap i (u, k) = .ok heap' ∧ body heap' = body heap ∧
      col heap' = Function.update (col heap) i c ∧
      LinkedAt c (A ++ x :: B) (a ++ h :: b) i := by
  have hr := hlast.lt
  have huB : (A ++ B)[r]? = some u := by
    rw [List.getElem?_append_left (by omega)]
    exact hu
  obtain ⟨h', hh', hlt⟩ := hlast.getElem? b
  have hcu := hl r u h' huB hh' hlt
  have hgap := gap_add_le (a ++ b) i (r := r) (by simp; omega)
  rw [length_append] at hgap
  obtain ⟨heap', hset, hbody, hcol⟩ := setLevel_ok
    ⟨(next (a ++ b) i r).bind ((A ++ B)[·]?), wrapAdd 64 (gap (a ++ b) i r) 1⟩ hcu
  refine ⟨heap', _, ?_, hbody, hcol, ?_⟩
  · unfold bumpLevel
    rw [levelAt_of_col hcu, ok_bind]
    exact hset
  · rw [wrapAdd_eq (by omega)]
    exact hl.bump hA hnd hlast huB hi

end Link

section LinkNode

variable {n : ℕ} {L R : List (Tower S)} {t : Tower S} {ss : List ℕ}

def newCol (heap : Heap S) (n : ℕ) (L R : List (Tower S)) (x j s : ℕ) : ℕ → Option ZskiplistLevel :=
  linkCol (col heap j) x ((addrs L).getD s header) (wrapSub 32 (L.length%2^32) (s%2^32))
    ⟨(next (heights n (L ++ R)) j s).bind ((addrs (L ++ R))[·]?), gap (heights n (L ++ R)) j s⟩

theorem linkLevels_ok {heap : Heap S} {x k : ℕ} (hl : Linked heap n (L ++ R))
    (hss : Preds n L ss) (hk : k ≤ n) (hlen : n ≤ ss.length) (hx : x ∉ addrs (L ++ R))
    (hcx : ∀ j < k, ∃ l, col heap j x = some l) :
    ∃ heap', forLevels (linkLevel x (L.length%2^32)) 0
        ((ss.map (place (addrs L) 32)).take k) heap = .ok heap' ∧ body heap' = body heap ∧
      (∀ j < k, ∃ s, LastTall (heights n L) j s ∧ col heap' j = newCol heap n L R x j s) ∧
      ∀ j, k ≤ j → col heap' j = col heap j := by
  have htake : ((ss.map (place (addrs L) 32)).take k).length = k := by
    rw [List.length_take, length_map]
    omega
  obtain ⟨heap', hrun, hbody, hin, hout⟩ := forLevels_ok (f := linkLevel x (L.length%2^32)) (i := 0)
    (l := (ss.map (place (addrs L) 32)).take k) (m := heap)
    (Q := fun j c => ∃ s, LastTall (heights n L) j s ∧ c = newCol heap n L R x j s) (by
    intro j u hu heap1 hb1 hc1
    rw [Nat.zero_add] at hc1 ⊢
    obtain ⟨hj, -⟩ := List.getElem?_eq_some_iff.mp hu
    rw [htake] at hj
    obtain ⟨s, hs, hlast⟩ := hss.last j (by omega)
    rw [List.getElem?_take_of_lt hj, List.getElem?_map, hs] at hu
    cases hu
    have hfst := place_fst (w := 32) hlast
    have hu' : (addrs (L ++ R))[s]? = some (place (addrs L) 32 s).1 := by
      rw [addrs_append, List.getElem?_append_left (by have := Preds.le hlast; simp; omega)]
      exact hfst
    obtain ⟨y, hy, hjy⟩ := hlast.getElem? (R.map Tower.height)
    rw [← heights_append] at hy
    have hcu := hl j s _ y hu' hy hjy
    have hne : (place (addrs L) 32 s).1 ≠ x := by
      intro heq
      exact hx (heq ▸ mem_of_getElem? hu')
    obtain ⟨l0, hl0⟩ := hcx j hj
    obtain ⟨heap2, hrun, hb2, hc2⟩ := linkLevel_ok (hc1 ▸ hcu) (hc1 ▸ hl0) hne (L.length%2^32)
      (place (addrs L) 32 s).2
    refine ⟨heap2, _, hrun, hb2.trans hb1, hc2, s, hlast, ?_⟩
    rw [hc1]
    rfl)
  rw [htake, Nat.zero_add] at hin hout
  exact ⟨heap', hrun, hbody, fun j hj => hin j (Nat.zero_le j) hj, fun j hj => hout j (Or.inr hj)⟩

theorem bumpLevels_ok {heap : Heap S} (hl : ∀ i, t.height ≤ i → LinkedAt (col heap i)
      (addrs (L ++ R)) (heights n (L ++ R)) i)
    (hss : Preds n L ss) (hk : t.height ≤ n) (hlen : n = ss.length)
    (hnd : (addrs (L ++ t :: R)).Nodup) (hroom : (L ++ R).length < 2^64-1) :
    ∃ heap', forLevels bumpLevel t.height ((ss.map (place (addrs L) 32)).drop t.height) heap =
        .ok heap' ∧ body heap' = body heap ∧
      (∀ j, t.height ≤ j → j < n →
        LinkedAt (col heap' j) (addrs (L ++ t :: R)) (heights n (L ++ t :: R)) j) ∧
      ∀ j, j < t.height ∨ n ≤ j → col heap' j = col heap j := by
  have hA := length_addrs_eq n L
  rw [addrs_append, map_cons] at hnd
  rw [length_append] at hroom
  obtain ⟨heap', hrun, hbody, hin, hout⟩ := forLevels_ok (f := bumpLevel) (i := t.height)
    (l := (ss.map (place (addrs L) 32)).drop t.height) (m := heap)
    (Q := fun j c => LinkedAt c (addrs (L ++ t :: R)) (heights n (L ++ t :: R)) j) (by
    intro k u hu heap1 hb1 hc1
    rw [List.getElem?_drop, List.getElem?_map] at hu
    obtain ⟨s', hs', rfl⟩ := Option.map_eq_some_iff.mp hu
    obtain ⟨hk', -⟩ := List.getElem?_eq_some_iff.mp hs'
    obtain ⟨s, hs, hlast⟩ := hss.last (t.height+k) (by omega)
    obtain rfl : s = s' := Option.some.inj (hs.symm.trans hs')
    have hlk := hl (t.height+k) (by omega)
    rw [addrs_append, heights_append, ← hc1] at hlk
    obtain ⟨heap2, c, hrun, hb2, hc2, hlinked⟩ := bumpLevel_ok hlk hA hnd hlast
      (place_fst (w := 32) hlast) (h := t.height) (by omega) (by simp; omega)
      (place (addrs L) 32 s).2
    refine ⟨heap2, c, hrun, hb2.trans hb1, hc2, ?_⟩
    rw [addrs_append, heights_append]
    exact hlinked)
  rw [List.length_drop, length_map] at hin hout
  exact ⟨heap', hrun, hbody, fun j h1 h2 => hin j h1 (by omega), fun j hj => hout j (by omega)⟩

structure LinkedNode (z : Zskiplist S) (n : ℕ) (L R : List (Tower S)) (t : Tower S)
    (z' : Zskiplist S) : Prop where
  reached : ∀ j < t.height, ∃ s, LastTall (heights n L) j s ∧
    col z'.heap j = newCol z.heap n L R t.addr j s
  passed : ∀ j, t.height ≤ j → j < n →
    LinkedAt (col z'.heap j) (addrs (L ++ t :: R)) (heights n (L ++ t :: R)) j
  above : ∀ j, n ≤ j → col z'.heap j header = col z.heap j header
  head : body z'.heap header = body z.heap header
  backward : Backward z'.heap none (L ++ t :: R)
  tail : z'.tail = lastAddr none (L ++ t :: R)
  length : z'.length = z.length+1
  level : z'.level = z.level
  fresh : z'.fresh = z.fresh+1

theorem newCol_store (heap : Heap S) (x : ℕ) (nd : ZskiplistNode S) (j s : ℕ) :
    newCol (storeNode heap x nd) n L R x j s = newCol heap n L R x j s := by
  unfold newCol linkCol
  congr 1
  funext y
  by_cases hy : y = x
  · subst hy
    rw [update_self, update_self]
  · rw [update_of_ne hy, update_of_ne hy, col_storeNode, if_neg hy]

theorem lastAddr_eq (hnd : (addrs L).Nodup) :
    lastAddr none L = if (place (addrs L) 32 L.length).1 = header then none
      else some (place (addrs L) 32 L.length).1 := by
  rcases List.eq_nil_or_concat L with rfl | ⟨M, y, rfl⟩
  · rfl
  · have hlen : (M ++ [y]).length = M.length+1 := by simp
    rw [List.concat_eq_append, hlen] at *
    have hget : (addrs (M ++ [y]))[M.length+1]? = some y.addr := by
      rw [addrs_succ, List.getElem?_append_right (le_refl _), Nat.sub_self]
      rfl
    rw [place_eq hget, if_neg (addr_ne_header hnd (by simp)), lastAddr_append]
    rfl

theorem lastTall_zero (hpos : ∀ y ∈ heights n L, 0 < y) {s : ℕ}
    (h : LastTall (heights n L) 0 s) : s = L.length := by
  have hlt := h.lt
  rw [length_heights] at hlt
  by_contra hne
  have hin : L.length < (heights n L).length := by simp
  have hle := h.front L.length (by omega) (by simp) _ (List.getElem?_eq_getElem hin)
  have hgt := hpos _ (List.getElem_mem hin)
  omega

theorem linkNode_ok {z : Zskiplist S} (hl : Linked z.heap z.level (L ++ R))
    (hpos : ∀ y ∈ heights z.level (L ++ R), 0 < y)
    (hback : Backward z.heap none (L ++ R)) (htail : z.tail = lastAddr none (L ++ R))
    (hss : Preds z.level L ss) (hlen : ss.length = z.level) (hnd : (addrs (L ++ R)).Nodup)
    (hfresh : ∀ x ∈ addrs (L ++ R), x < z.fresh) (hroom : (L ++ R).length < 2^64-1)
    (ht : t.addr = z.fresh) (h1 : 1 ≤ t.height) (hk : t.height ≤ z.level) :
    ∃ z', linkNode z t.score t.ele t.height (ss.map (place (addrs L) 32))
        (place (addrs L) 32 L.length) = .ok (z', t.addr) ∧
      LinkedNode z z.level L R t z' := by
  have hx : t.addr ∉ addrs (L ++ R) := by
    intro hmem
    have := hfresh _ hmem
    omega
  have hheader : header ∈ addrs (L ++ R) := by simp [addrs]
  have hndt : (addrs (L ++ t :: R)).Nodup := by
    rw [addrs_append, map_cons, List.nodup_middle, List.nodup_cons, ← addrs_append]
    exact ⟨hx, hnd⟩
  have hndL : (addrs L).Nodup := by
    rw [addrs_append] at hnd
    exact hnd.sublist (List.sublist_append_left _ _)
  let nd := zslCreateNode t.height t.score (some t.ele)
  have hcol : ∀ j, ∀ y ∈ addrs (L ++ R), col (storeNode z.heap t.addr nd) j y = col z.heap j y := by
    intro j y hy
    rw [col_storeNode, if_neg]
    rintro rfl
    exact hx hy
  have hl0 : Linked (storeNode z.heap t.addr nd) z.level (L ++ R) := by
    intro j r y h' hy hh' hj
    rw [hcol j y (mem_of_getElem? hy)]
    exact hl j r y h' hy hh' hj
  have hcx : ∀ j < t.height, ∃ l, col (storeNode z.heap t.addr nd) j t.addr = some l := by
    intro j hj
    rw [col_storeNode, if_pos rfl]
    refine ⟨⟨none, 0⟩, ?_⟩
    show (replicate t.height _)[j]? = _
    rw [List.getElem?_replicate, if_pos hj]
  obtain ⟨heap1, hrun1, hb1, hin1, hout1⟩ := linkLevels_ok hl0 hss hk hlen.ge hx hcx
  have hl1 : ∀ i, t.height ≤ i →
      LinkedAt (col heap1 i) (addrs (L ++ R)) (heights z.level (L ++ R)) i := by
    intro i hi
    rw [hout1 i hi]
    exact hl0 i
  obtain ⟨heap2, hrun2, hb2, hin2, hout2⟩ := bumpLevels_ok hl1 hss hk hlen.symm hndt hroom
  have hbx : body heap2 t.addr = some (some t.ele, t.score, none, t.height) := by
    rw [hb2, hb1, body_storeNode, if_pos rfl]
    simp [nd, zslCreateNode]
  have hbody : ∀ y ∈ addrs (L ++ R), body heap2 y = body z.heap y := by
    intro y hy
    rw [hb2, hb1, body_storeNode, if_neg]
    rintro rfl
    exact hx hy
  obtain ⟨heap3, hrun3, hcol3, hbody3⟩ := setBackward_ok (lastAddr none L) hbx
  have hsame3 : ∀ y ∈ addrs (L ++ R), body heap3 y = body z.heap y := by
    intro y hy
    rw [hbody3, update_of_ne, hbody y hy]
    rintro rfl
    exact hx hy
  have hmemL : ∀ y ∈ L, y.addr ∈ addrs (L ++ R) := by
    intro y hy
    simp only [addrs, mem_cons, mem_map, mem_append]
    exact Or.inr ⟨y, Or.inl hy, rfl⟩
  have hmemR : ∀ y ∈ R, y.addr ∈ addrs (L ++ R) := by
    intro y hy
    simp only [addrs, mem_cons, mem_map, mem_append]
    exact Or.inr ⟨y, Or.inr hy, rfl⟩
  obtain ⟨hbL, hbR⟩ := (backward_append z.heap none L R).mp hback
  have hRnd : (R.map Tower.addr).Nodup := by
    rw [addrs_append] at hnd
    exact hnd.sublist (List.sublist_append_right _ _)
  rw [lastAddr_append] at htail
  obtain ⟨heap4, hrun4, hcol4, hback4, hbody4⟩ := relinkBackward_ok
    (z := { z with heap := heap3, fresh := t.addr+1 }) (some t.addr)
    (hbR.frame (fun y hy => hsame3 y.addr (hmemR y hy))) hRnd htail
  have hnotR : ∀ y, y ∉ addrs (L ++ R) ∨ y ∈ addrs L → y ∉ R.map Tower.addr := by
    rintro y (hy | hy) hyR
    · obtain ⟨u, hu, rfl⟩ := mem_map.mp hyR
      exact hy (hmemR u hu)
    · rw [addrs_append, List.nodup_append] at hnd
      exact hnd.2.2 y hy y hyR rfl
  -- level 0 of the new node points to the first tower behind it
  obtain ⟨s, hs, hc0⟩ := hin1 0 h1
  have hs0 : s = L.length := lastTall_zero (fun y hy => hpos y (by
    rw [heights_append]
    exact List.mem_append_left _ hy)) hs
  have hux : (addrs L).getD s header ≠ t.addr := by
    intro heq
    apply hx
    have hfst := place_fst (w := 32) hs
    have hmem := mem_of_getElem? hfst
    rw [addrs_append, ← heq]
    exact List.mem_append_left _ hmem
  have hfwd : ∃ span, col heap3 0 t.addr = some ⟨R.head?.map Tower.addr, span⟩ := by
    refine ⟨wrapSub 64 (gap (heights z.level (L ++ R)) 0 s)
      (wrapSub 32 (L.length%2^32) (s%2^32)), ?_⟩
    rw [hcol3, hout2 0 (Or.inl h1), hc0, newCol, linkCol,
      update_of_ne (Ne.symm hux), update_self]
    dsimp only
    rw [forward_zero hpos, hs0, List.getElem?_append_right (le_refl _), Nat.sub_self,
      List.head?_eq_getElem?]
  obtain ⟨span, hfwd⟩ := hfwd
  have hcol' : ∀ j, col heap4 j = col heap2 j := by
    intro j
    rw [hcol4]
    exact congrFun hcol3 j
  refine ⟨{ z with heap := heap4, fresh := t.addr+1, tail := lastAddr (some t.addr) R, length := z.length+1 },
    ?_, ?_, ?_, ?_, ?_, ?_, ?_, rfl, rfl, ?_⟩
  · unfold linkNode
    dsimp only
    rw [← ht]
    show (forLevels (linkLevel t.addr (L.length%2^32)) 0 _ (storeNode z.heap t.addr nd) >>= _) = _
    rw [hrun1, ok_bind, hrun2, ok_bind, ← lastAddr_eq hndL, hrun3, ok_bind,
      levelAt_of_col hfwd, ok_bind]
    dsimp only
    rw [hrun4, ok_bind]
  · intro j hj
    obtain ⟨s, hs, hc⟩ := hin1 j hj
    refine ⟨s, hs, ?_⟩
    show col heap4 j = _
    rw [hcol' j, hout2 j (Or.inl hj), hc, newCol_store]
  · intro j hj1 hj2
    show LinkedAt (col heap4 j) _ _ j
    rw [hcol' j]
    exact hin2 j hj1 hj2
  · intro j hj
    show col heap4 j header = _
    rw [hcol' j, hout2 j (Or.inr hj), hout1 j (by omega), hcol j header hheader]
  · show body heap4 header = _
    rw [hbody4 header (hnotR _ (Or.inr (by simp [addrs])))]
    exact hsame3 header hheader
  · rw [backward_append]
    refine ⟨hbL.frame ?_, ?_, hback4⟩
    · intro y hy
      show body heap4 y.addr = _
      rw [hbody4 y.addr (hnotR _ (Or.inr (by
        rw [addrs]
        exact List.mem_cons_of_mem _ (List.mem_map_of_mem hy))))]
      exact hsame3 y.addr (hmemL y hy)
    · show body heap4 t.addr = _
      rw [hbody4 t.addr (hnotR _ (Or.inl hx))]
      show body heap3 t.addr = _
      rw [hbody3, update_self]
  · rw [lastAddr_append]
    rfl
  · show t.addr+1 = _
    rw [ht]

def reach (L : List (Tower S)) (i : ℕ) : ℕ :=
  (L.reverse.takeWhile (fun t => decide (t.height ≤ i))).length+1

def Near (L : List (Tower S)) (h : ℕ) : Prop := ∀ i < h, reach L i < 2^32

theorem le_reach {i s : ℕ} (hlast : LastTall (heights n L) i s) :
    (heights n L).length-s ≤ reach L i := by
  have hle := Preds.le hlast
  have hlow : ∀ t ∈ (L.drop s).reverse, decide (t.height ≤ i) = true := by
    intro t ht
    rw [List.mem_reverse, List.mem_drop_iff_getElem] at ht
    obtain ⟨k, hk, rfl⟩ := ht
    rw [decide_eq_true_eq]
    apply hlast.front (k+s+1) (by omega) (by simp; omega)
    rw [heights, List.getElem?_cons_succ, List.getElem?_map, Nat.add_comm k s,
      List.getElem?_eq_getElem (by omega)]
    rfl
  have hsplit : L.reverse = (L.drop s).reverse ++ (L.take s).reverse := by
    rw [← List.reverse_append, List.take_append_drop]
  unfold reach
  rw [hsplit, List.takeWhile_append_of_pos hlow]
  simp only [length_append, List.length_reverse, List.length_drop, length_heights]
  omega

theorem LevelOk.insert (h : LevelOk n (L ++ R)) (h1 : 1 ≤ t.height)
    (hmax : t.height ≤ zskiplistMaxlevel) : LevelOk (max n t.height) (L ++ t :: R) := by
  have hmem : ∀ y, y ∈ L ++ t :: R ↔ y = t ∨ y ∈ L ++ R := by
    intro y
    simp only [mem_append, mem_cons]
    tauto
  refine ⟨le_max_of_le_left h.pos, max_le h.cap hmax, ?_, ?_⟩
  · intro y hy
    rcases (hmem y).mp hy with rfl | hy'
    · exact ⟨h1, le_max_right _ _⟩
    · have hb := h.bound y hy'
      exact ⟨hb.1, le_max_of_le_left hb.2⟩
  · rcases Nat.lt_or_ge t.height n with hlt | hge
    · rw [max_eq_left hlt.le]
      rcases h.reached with h0 | ⟨y, hy, hyn⟩
      · omega
      · exact Or.inr ⟨y, (hmem y).mpr (Or.inr hy), hyn⟩
    · rw [max_eq_right hge]
      exact Or.inr ⟨t, (hmem t).mpr (Or.inl rfl), rfl⟩

theorem LinkedNode.layout {z y z' : Zskiplist S} (hz : Layout z (L ++ R))
    (hl : Linked y.heap (max z.level t.height) (L ++ R))
    (hcol : ∀ j, max z.level t.height ≤ j → col y.heap j = col z.heap j)
    (hbody : body y.heap = body z.heap) (hlen : y.length = z.length)
    (hlev : y.level = max z.level t.height) (hfresh : y.fresh = z.fresh)
    (h : LinkedNode y (max z.level t.height) L R t z')
    (ht : t.addr = z.fresh) (h1 : 1 ≤ t.height) (hmax : t.height ≤ zskiplistMaxlevel)
    (hroom : (L ++ R).length+1 < 2^64-1) (hnear : Near L t.height) :
    Layout z' (L ++ t :: R) := by
  have hx : t.addr ∉ addrs (L ++ R) := by
    intro hmem
    have := hz.fresh _ hmem
    omega
  have hndt : (addrs (L ++ t :: R)).Nodup := by
    rw [addrs_append, map_cons, List.nodup_middle, List.nodup_cons, ← addrs_append]
    exact ⟨hx, hz.nodup⟩
  have hlevel := hz.level.insert h1 hmax
  have hlevel' : z'.level = max z.level t.height := h.level.trans hlev
  refine ⟨?_, ?_, ?_, h.backward, ?_, h.tail, ?_, hndt, ?_, ?_⟩
  · intro i
    rw [hlevel']
    rcases Nat.lt_or_ge i t.height with hlt | hge
    · obtain ⟨s, hs, hc⟩ := h.reached i hlt
      have hli := hl i
      rw [hc, addrs_append, heights_append]
      unfold newCol
      rw [addrs_append, heights_append] at *
      have hnd' := hndt
      rw [map_cons] at hnd'
      have hlens := length_heights (max z.level t.height) L
      have hfst := place_fst (w := 32) hs
      have hroom' : (heights (max z.level t.height) L).length+(R.map Tower.height).length < 2^64 := by
        simp only [length_append, length_heights, length_map] at hroom ⊢
        omega
      have hres := linkCol_linked (x := t.addr) hli (length_addrs_eq _ L) hnd' hs hfst hlt hroom'
        (lt_of_le_of_lt (le_reach hs) (hnear i hlt))
      rw [hlens, Nat.add_sub_cancel] at hres
      exact hres
    · rcases Nat.lt_or_ge i (max z.level t.height) with hlt' | hge'
      · exact h.passed i hge hlt'
      · intro r x k hx' hk hi
        have hle : k ≤ max z.level t.height := by
          rcases mem_cons.mp (mem_of_getElem? hk) with rfl | hmem
          · exact le_refl _
          · obtain ⟨y, hy, rfl⟩ := mem_map.mp hmem
            exact (hlevel.bound y hy).2
        omega
  · intro i hi1 hi2
    rw [hlevel'] at hi1
    rw [h.above i hi1, hcol i hi1]
    exact hz.above i (le_trans (le_max_left _ _) hi1) hi2
  · rw [h.head, hbody]
    exact hz.head
  · rw [hlevel']
    exact hlevel
  · rw [h.length, hlen, hz.length]
    simp only [length_append, List.length_cons]
    omega
  · intro y hy
    rw [h.fresh, hfresh]
    rw [addrs_append, map_cons, mem_append, mem_cons] at hy
    have hor : y = t.addr ∨ y ∈ addrs (L ++ R) := by
      rw [addrs_append, mem_append]
      tauto
    rcases hor with rfl | hmem
    · omega
    · have := hz.fresh y hmem
      omega
  · simp only [length_append, List.length_cons] at hroom ⊢
    omega

end LinkNode

section Insert

variable [LinearOrder S]

theorem zslInsert_ok {z : Zskiplist S} {ts : List (Tower S)} (hz : Layout z ts) (ho : Ordered ts)
    (score : S) (ele : Bytes) {level : ℕ} (h1 : 1 ≤ level) (hmax : level ≤ zskiplistMaxlevel) :
    ∃ L R z1 z', ts = L ++ R ∧ (∀ t ∈ L, KeyLt t.score t.ele score ele) ∧
      (∀ t ∈ R, ¬ KeyLt t.score t.ele score ele) ∧
      zslInsert z score ele level = .ok (z', z.fresh) ∧ z'.length = z.length+1 ∧
      LinkedNode z1 (max z.level level) L R ⟨ele, score, level, z.fresh⟩ z' ∧
      (ts.length+1 < 2^64-1 → Near L level →
        Layout z' (L ++ ⟨ele, score, level, z.fresh⟩ :: R)) := by
  obtain ⟨L, R, ss, hrun, rfl, hss, hlen, hL, hR⟩ := search_key hz ho 32 score ele
  have hbound : ∀ t ∈ L ++ R, t.height ≤ z.level := fun t ht => (hz.level.bound t ht).2
  obtain ⟨heap1, hgrow, hb1, hin1, hout1⟩ := growLevels_ok (c := z.length)
    (n := z.level) (k := level-z.level) (m := z.heap)
    (fun i hi1 hi2 => hz.above i hi1 (by omega))
  have hmaxeq : z.level+(level-z.level) = max z.level level := by omega
  rw [hmaxeq] at hin1 hout1
  have hl1 : Linked heap1 (max z.level level) (L ++ R) := by
    apply hz.linked.grow hbound
    · intro j hj1 hj2
      rw [← hz.length]
      exact hin1 j hj1 hj2
    · exact hout1
  have hpreds := hss.grow (m := level) hlen hz.level.pos
    (fun t ht => hbound t (List.mem_append_left _ ht))
  have hplace0 : (header, 0) = place (addrs L) 32 0 := rfl
  have hus : ss.map (place (addrs L) 32) ++ replicate (level-z.level) (header, 0) =
      (ss ++ replicate (level-z.level) 0).map (place (addrs L) 32) := by
    rw [List.map_append, List.map_replicate, hplace0]
  have hlens : (ss ++ replicate (level-z.level) 0).length = max z.level level := by
    rw [length_append, List.length_replicate, hlen, hmaxeq]
  obtain ⟨z', hrun', hnode⟩ := linkNode_ok (t := ⟨ele, score, level, z.fresh⟩)
    (z := { z with heap := heap1, level := max z.level level }) hl1 (by
      intro y hy
      rcases mem_cons.mp hy with rfl | hy'
      · exact lt_of_lt_of_le hz.level.pos (le_max_left _ _)
      · exact hz.heights_pos y (List.mem_cons_of_mem _ hy'))
    (hz.backward.frame (fun t _ => by rw [hb1])) hz.tail hpreds hlens hz.nodup hz.fresh hz.room
    rfl h1 (le_max_right _ _)
  refine ⟨L, R, { z with heap := heap1, level := max z.level level }, z', rfl, hL, hR, ?_,
    hnode.length, hnode, ?_⟩
  · unfold zslInsert
    rw [hrun, ok_bind, hgrow, ok_bind]
    dsimp only
    rw [hus]
    have hfirst := hpreds.first
    cases hcs : ss ++ replicate (level-z.level) 0 with
    | nil =>
      rw [hcs] at hfirst
      cases hfirst
    | cons s0 ss' =>
      rw [hcs] at hfirst
      cases hfirst
      rw [map_cons, ← hrun', hcs, map_cons]
  · intro hroom hnear
    exact LinkedNode.layout (y := { z with heap := heap1, level := max z.level level }) hz hl1
      (fun j hj => hout1 j (Or.inr hj)) hb1 rfl rfl rfl hnode rfl h1 hmax hroom hnear

end Insert

end RedisCore.Skiplist
