import RedisCore.SkiplistLayout

namespace RedisCore.Skiplist
open List (getElem_mem length_append length_cons map_cons mem_append mem_cons mem_map nodup_cons)
open RedisCore.SkipIndex

variable {S : Type}

theorem wrapSub_eq {w a b : ℕ} (h : b ≤ a) (ha : a < 2^w) : wrapSub w a b = a-b := by
  unfold wrapSub
  rw [Nat.mod_eq_of_lt (by omega : b < 2^w)]
  have hab : a+(2^w-b) = a-b+2^w := by omega
  rw [hab, Nat.add_mod_right, Nat.mod_eq_of_lt (by omega)]

theorem wrapAdd_eq {w a b : ℕ} (h : a+b < 2^w) : wrapAdd w a b = a+b := Nat.mod_eq_of_lt h

theorem wrapAdd_wrapSub_one {a b : ℕ} (ha : 0 < a) (hb : b < 2^64) (h : a+b-1 < 2^64) :
    wrapAdd 64 a (wrapSub 64 b 1) = a+b-1 := by
  unfold wrapAdd wrapSub
  omega

theorem relinkBackward_ok {z : Zskiplist S} {R : List (Tower S)} {b0 : Option ℕ} (b : Option ℕ)
    (hR : Backward z.heap b0 R) (hnd : (R.map Tower.addr).Nodup)
    (htail : z.tail = lastAddr b0 R) :
    ∃ heap', relinkBackward z (R.head?.map Tower.addr) b =
        .ok { z with heap := heap', tail := lastAddr b R } ∧
      col heap' = col z.heap ∧ Backward heap' b R ∧
      ∀ x, x ∉ R.map Tower.addr → body heap' x = body z.heap x := by
  cases R with
  | nil => exact ⟨z.heap, rfl, rfl, trivial, fun _ _ => rfl⟩
  | cons t R =>
    obtain ⟨heap', hset, hcol, hbody⟩ := setBackward_ok b hR.1
    refine ⟨heap', ?_, hcol, ⟨?_, ?_⟩, ?_⟩
    · unfold relinkBackward
      simp only [List.head?_cons, Option.map_some, hset, ok_bind, htail]
      rw [lastAddr_cons_eq b b0]
    · rw [hbody, Function.update_self]
    · apply hR.2.frame
      intro t' ht'
      have hne : t'.addr ≠ t.addr := by
        intro heq
        rw [map_cons, nodup_cons] at hnd
        exact hnd.1 (heq ▸ List.mem_map_of_mem ht')
      rw [hbody, Function.update_of_ne hne]
    · intro x hx
      have hne : x ≠ t.addr := by
        rintro rfl
        simp at hx
      rw [hbody, Function.update_of_ne hne]

theorem Linked.headerLink {heap : Heap S} {n i : ℕ} {ts : List (Tower S)} (hl : Linked heap n ts)
    (hi : i < n) : col heap i header =
      some ⟨(next (heights n ts) i 0).bind ((addrs ts)[·]?), gap (heights n ts) i 0⟩ :=
  hl i 0 header n rfl rfl hi

theorem Linked.lower {heap : Heap S} {n n' : ℕ} {ts : List (Tower S)} (hl : Linked heap n ts)
    (hle : n' ≤ n) : Linked heap n' ts := by
  intro i r x h hx hh hi
  cases r with
  | zero =>
    simp only [heights, List.getElem?_cons_zero, Option.some.injEq] at hh
    exact hl i 0 x n hx rfl (by omega)
  | succ r => exact hl i (r+1) x h hx hh hi

theorem dropLevels_ok {heap : Heap S} {n : ℕ} {ts : List (Tower S)} (hl : Linked heap n ts)
    (hb : ∀ t ∈ ts, 1 ≤ t.height ∧ t.height ≤ n) (hn : 1 ≤ n) (hmax : n ≤ zskiplistMaxlevel) :
    ∃ n' ≤ n, dropLevels heap n = .ok n' ∧ LevelOk n' ts ∧
      ∀ i, n' ≤ i → i < n → ∃ span, col heap i header = some ⟨none, span⟩ := by
  induction n with
  | zero => omega
  | succ m ih =>
    cases m with
    | zero =>
      refine ⟨1, le_refl 1, rfl, ⟨le_refl 1, hmax, hb, Or.inl rfl⟩, ?_⟩
      intro i h1 h2
      omega
    | succ m =>
      have hhead := hl.headerLink (i := m+1) (by omega)
      rw [dropLevels, levelAt_of_col hhead, ok_bind]
      dsimp only
      cases hn : next (heights (m+1+1) ts) (m+1) 0 with
      | none =>
        rw [Option.bind_none, if_pos rfl]
        rw [hn, Option.bind_none] at hhead
        have hb' : ∀ t ∈ ts, 1 ≤ t.height ∧ t.height ≤ m+1 := by
          intro t ht
          refine ⟨(hb t ht).1, ?_⟩
          have hclear := next_eq_none.1 hn
          obtain ⟨k, hk⟩ := List.mem_iff_getElem?.mp ht
          obtain ⟨hk', -⟩ := List.getElem?_eq_some_iff.mp hk
          apply hclear (k+1) (by omega) (by simp; omega)
          rw [heights, List.getElem?_cons_succ, List.getElem?_map, hk]
          rfl
        obtain ⟨n', hle, hdrop, hok, habove⟩ :=
          ih (hl.lower (by omega)) hb' (by omega) (by omega)
        refine ⟨n', by omega, hdrop, hok, ?_⟩
        intro i h1 h2
        rcases Nat.lt_or_eq_of_le (Nat.lt_succ_iff.mp h2) with hlt | rfl
        · exact habove i h1 hlt
        · exact ⟨_, hhead⟩
      | some q =>
        have hq := next_lt_length hn
        have hsome : (addrs ts)[q]? ≠ none := by
          rw [List.getElem?_eq_getElem (by simpa using hq.2)]
          simp
        rw [Option.bind_some, if_neg hsome]
        have hne : next (heights (m+1+1) ts) (m+1) 0 ≠ none := by
          rw [hn]
          exact Option.some_ne_none q
        obtain ⟨y, hy, hlt⟩ := exists_of_next_ne_none hne
        obtain ⟨t, ht, rfl⟩ := mem_map.mp hy
        refine ⟨m+1+1, le_refl _, rfl, ⟨by omega, hmax, hb, Or.inr ⟨t, ht, ?_⟩⟩, ?_⟩
        · have := (hb t ht).2
          omega
        · intro i h1 h2
          omega

section Unlink

variable {heap : Heap S} {A B a b : List ℕ} {i r h x u : ℕ}

theorem unlink_span (hlast : LastTall a i r) (hi : i < h) (hroom : a.length+b.length < 2^64) :
    wrapAdd 64 (gap (a ++ h :: b) i r) (wrapSub 64 (gap (a ++ h :: b) i a.length) 1) =
      gap (a ++ h :: b) i r+gap (a ++ h :: b) i a.length-1 := by
  have hr := hlast.lt
  have hx := gap_add_le (a ++ h :: b) i (r := a.length) (by simp)
  simp only [length_append, length_cons] at hx
  rw [gap_insert_tall hr (hlast.clear b) hi]
  exact wrapAdd_wrapSub_one (by omega) (by omega) (by omega)

theorem unbump_span (hlast : LastTall a i r) (hi : h ≤ i) (hroom : a.length+b.length < 2^64) :
    wrapSub 64 (gap (a ++ h :: b) i r) 1 = gap (a ++ h :: b) i r-1 := by
  have hr := hlast.lt
  have hle := gap_add_le (a ++ h :: b) i (r := r) (by simp; omega)
  simp only [length_append, length_cons] at hle
  have hlow := gap_insert_low (b := b) hr (hlast.clear b) hi
  exact wrapSub_eq (by omega) (by omega)

theorem unlinkLevel_ok (hl : LinkedAt (col heap i) (A ++ x :: B) (a ++ h :: b) i)
    (hA : A.length = a.length) (hnd : (A ++ x :: B).Nodup) (hlast : LastTall a i r)
    (hu : A[r]? = some u) (hroom : a.length+b.length < 2^64) (k : ℕ) :
    ∃ heap' c, unlinkLevel x heap i (u, k) = .ok heap' ∧ body heap' = body heap ∧
      col heap' = Function.update (col heap) i c ∧ LinkedAt c (A ++ B) (a ++ b) i ∧
      c x = col heap i x := by
  have hr := hlast.lt
  have huB : ∀ C : List ℕ, (A ++ C)[r]? = some u := by
    intro C
    rw [List.getElem?_append_left (by omega)]
    exact hu
  have hux := pred_ne_new hA hnd (huB B)
  obtain ⟨h', hh', hlt⟩ := hlast.getElem? (h :: b)
  have hcu := hl r u h' (huB _) hh' hlt
  unfold unlinkLevel
  rw [levelAt_of_col hcu, ok_bind]
  dsimp only
  by_cases hi : i < h
  · have hcx := hl a.length x h (by rw [← hA]; exact getElem?_insert_new)
      getElem?_insert_new hi
    have hfwd : (next (a ++ h :: b) i r).bind ((A ++ x :: B)[·]?) = some x := by
      rw [next_insert_tall hr (hlast.clear b) hi, Option.bind_some, ← hA]
      exact getElem?_insert_new
    rw [if_pos hfwd, levelAt_of_col hcx, ok_bind]
    obtain ⟨heap', hset, hbody, hcol⟩ := setLevel_ok
      ⟨(next (a ++ h :: b) i a.length).bind ((A ++ x :: B)[·]?),
        wrapAdd 64 (gap (a ++ h :: b) i r) (wrapSub 64 (gap (a ++ h :: b) i a.length) 1)⟩ hcu
    refine ⟨heap', _, hset, hbody, hcol, ?_, Function.update_of_ne (Ne.symm hux) _ _⟩
    rw [unlink_span hlast hi hroom]
    exact hl.unlink hA hnd hlast (huB B) hi
  · have hfwd : (next (a ++ h :: b) i r).bind ((A ++ x :: B)[·]?) ≠ some x := by
      rw [next_insert_below hlast (by omega), bind_skip hA]
      intro heq
      obtain ⟨q, -, hq⟩ := Option.bind_eq_some_iff.mp heq
      have hqr : q ≠ r := by
        rintro rfl
        exact hux (Option.some.inj ((huB B).symm.trans hq))
      exact (other_address hA hnd (huB B) hqr hq).1 rfl
    rw [if_neg hfwd]
    obtain ⟨heap', hset, hbody, hcol⟩ := setLevel_ok
      ⟨(next (a ++ h :: b) i r).bind ((A ++ x :: B)[·]?), wrapSub 64 (gap (a ++ h :: b) i r) 1⟩ hcu
    refine ⟨heap', _, hset, hbody, hcol, ?_, Function.update_of_ne (Ne.symm hux) _ _⟩
    rw [unbump_span hlast (by omega) hroom]
    exact hl.unbump hA hnd hlast (huB B) (by omega)

end Unlink

section DeleteNode

variable {n w : ℕ} {L R : List (Tower S)} {t : Tower S} {ss : List ℕ}

theorem addr_ne_header {ts : List (Tower S)} (hnd : (addrs ts).Nodup) {t : Tower S}
    (ht : t ∈ ts) : t.addr ≠ header := by
  intro heq
  rw [addrs, nodup_cons] at hnd
  exact hnd.1 (heq ▸ List.mem_map_of_mem ht)

theorem place_fst {i s : ℕ} (hs : LastTall (heights n L) i s) :
    (addrs L)[s]? = some (place (addrs L) w s).1 := by
  have hle := Preds.le hs
  unfold place
  rw [List.getD_eq_getElem?_getD, List.getElem?_eq_getElem (by simp; omega), Option.getD_some]

theorem unlinkLevels_ok {heap : Heap S} (hl : Linked heap n (L ++ t :: R))
    (hnd : (addrs (L ++ t :: R)).Nodup) (hroom : (L ++ t :: R).length < 2^64-1)
    (hss : Preds n L ss) (hn : n ≤ ss.length)
    (hb : ∀ y ∈ L ++ t :: R, y.height ≤ n) :
    ∃ heap', forLevels (unlinkLevel t.addr) 0 ((ss.map (place (addrs L) w)).take n) heap =
        .ok heap' ∧ body heap' = body heap ∧ Linked heap' n (L ++ R) ∧
      (∀ i, col heap' i t.addr = col heap i t.addr) ∧ ∀ i, n ≤ i → col heap' i = col heap i := by
  have hA := length_addrs_eq n L
  rw [addrs_append, map_cons] at hnd
  simp only [length_append, length_cons] at hroom
  have hlen : ((ss.map (place (addrs L) w)).take n).length = n := by
    rw [List.length_take, List.length_map]
    omega
  obtain ⟨heap', hrun, hbody, hin, hout⟩ := forLevels_ok (f := unlinkLevel t.addr) (i := 0)
    (l := (ss.map (place (addrs L) w)).take n) (m := heap)
    (Q := fun i c => LinkedAt c (addrs (L ++ R)) (heights n (L ++ R)) i ∧
      c t.addr = col heap i t.addr) (by
    intro k u hu heap1 hb1 hc1
    rw [Nat.zero_add] at hc1 ⊢
    obtain ⟨hk, -⟩ := List.getElem?_eq_some_iff.mp hu
    rw [hlen] at hk
    obtain ⟨s, hs, hlast⟩ := hss.last k hk
    rw [List.getElem?_take_of_lt hk, List.getElem?_map, hs] at hu
    cases hu
    have hlk := hl k
    rw [addrs_append, heights_append, map_cons, map_cons, ← hc1] at hlk
    obtain ⟨heap2, c, hrun, hb2, hc2, hlinked, hsame⟩ := unlinkLevel_ok hlk hA hnd hlast
      (place_fst (w := w) hlast) (by simp; omega) (place (addrs L) w s).2
    refine ⟨heap2, c, hrun, hb2.trans hb1, hc2, ?_, ?_⟩
    · rw [addrs_append, heights_append]
      exact hlinked
    · rw [hsame, hc1])
  rw [hlen, Nat.zero_add] at hin hout
  refine ⟨heap', hrun, hbody, ?_, ?_, fun i hi => hout i (Or.inr hi)⟩
  · intro i
    rcases Nat.lt_or_ge i n with hlt | hge
    · exact (hin i (by omega) hlt).1
    · intro r x h _ hh hi
      have hle : h ≤ n := by
        rcases mem_cons.mp (List.mem_of_getElem? hh) with rfl | hmem
        · exact le_refl h
        · obtain ⟨y, hy, rfl⟩ := mem_map.mp hmem
          apply hb y
          simp only [mem_append, mem_cons] at hy ⊢
          tauto
      omega
  · intro i
    rcases Nat.lt_or_ge i n with hlt | hge
    · exact (hin i (by omega) hlt).2
    · rw [hout i (Or.inr hge)]

theorem addrs_succ (ts : List (Tower S)) (r : ℕ) :
    (addrs ts)[r+1]? = (ts[r]?).map Tower.addr := by
  rw [addrs, List.getElem?_cons_succ, List.getElem?_map]

theorem forward_zero {ts : List (Tower S)} (hpos : ∀ y ∈ heights n ts, 0 < y) (r : ℕ) :
    (next (heights n ts) 0 r).bind ((addrs ts)[·]?) = (ts[r]?).map Tower.addr := by
  rw [← addrs_succ]
  cases hn : next (heights n ts) 0 r with
  | none =>
    have hclear := next_eq_none.1 hn
    rw [Option.bind_none, List.getElem?_eq_none]
    by_contra hlt
    rw [length_addrs_eq n ts] at hlt
    have hle := hclear (r+1) (by omega) (by omega) _ (List.getElem?_eq_getElem (by omega))
    have hgt := hpos _ (getElem_mem (l := heights n ts) (n := r+1) (by omega))
    omega
  | some q =>
    obtain ⟨h1, -, hclear⟩ := next_eq_some.1 hn
    have hq := next_lt_length hn
    have hqr : q = r+1 := by
      by_contra hne
      have hle := hclear (r+1) (by omega) (by omega) _ (List.getElem?_eq_getElem (by omega))
      have hgt := hpos _ (getElem_mem (l := heights n ts) (n := r+1) (by omega))
      omega
    rw [Option.bind_some, hqr]

theorem Linked.forward {heap : Heap S} {ts : List (Tower S)} (hl : Linked heap n ts)
    (hpos : ∀ y ∈ heights n ts, 0 < y) {r x : ℕ} (hx : (addrs ts)[r]? = some x) :
    ∃ span, col heap 0 x = some ⟨(ts[r]?).map Tower.addr, span⟩ := by
  obtain ⟨hr, -⟩ := List.getElem?_eq_some_iff.mp hx
  rw [length_addrs_eq n ts] at hr
  have hc := hl 0 r x _ hx (List.getElem?_eq_getElem hr) (hpos _ (getElem_mem hr))
  refine ⟨gap (heights n ts) 0 r, ?_⟩
  rw [hc, forward_zero hpos]

theorem zslDeleteNode_ok {z : Zskiplist S} (hz : Layout z (L ++ t :: R))
    (hss : Preds z.level L ss) (hn : z.level ≤ ss.length) :
    ∃ z', zslDeleteNode z t.addr (ss.map (place (addrs L) w)) = .ok z' ∧ Layout z' (L ++ R) ∧
      z'.level ≤ z.level ∧ z'.fresh = z.fresh ∧
      body z'.heap t.addr = body z.heap t.addr := by
  have hmem : ∀ y ∈ L ++ R, y ∈ L ++ t :: R := by
    intro y hy
    simp only [mem_append, mem_cons] at hy ⊢
    tauto
  have hbound : ∀ y ∈ L ++ R, 1 ≤ y.height ∧ y.height ≤ z.level :=
    fun y hy => hz.level.bound y (hmem y hy)
  have hndt := hz.nodup
  rw [addrs_append, map_cons] at hndt
  have hndLR : (addrs (L ++ R)).Nodup := by
    rw [addrs_append]
    exact hndt.sublist ((List.sublist_cons_self _ _).append_left _)
  have hxfresh : t.addr ∉ addrs (L ++ R) := by
    rw [addrs_append]
    exact (nodup_cons.mp (List.nodup_middle.mp hndt)).1
  obtain ⟨heap1, hrun1, hbody1, hlinked1, hcolx, hcol1⟩ := unlinkLevels_ok (w := w) hz.linked
    hz.nodup hz.room hss hn (fun y hy => (hz.level.bound y hy).2)
  have hpos : (addrs (L ++ t :: R))[L.length+1]? = some t.addr := by
    rw [addrs_succ, List.getElem?_append_right (le_refl _), Nat.sub_self]
    rfl
  obtain ⟨span, hfwd⟩ := hz.linked.forward hz.heights_pos hpos
  have hRhead : ((L ++ t :: R)[L.length+1]?).map Tower.addr = R.head?.map Tower.addr := by
    rw [List.getElem?_append_right (by omega), List.head?_eq_getElem?]
    congr 1
    have hsub : L.length+1-L.length = 1 := by omega
    rw [hsub, List.getElem?_cons_succ]
  rw [hRhead] at hfwd
  obtain ⟨hbL, hbt, hbR⟩ := (backward_append z.heap none L (t :: R)).mp hz.backward
  obtain ⟨nd, hnd1, hd, he, hs, hback, hlev⟩ := deref_of_body (hbody1 ▸ hbt)
  have htail := hz.tail
  rw [lastAddr_append] at htail
  have hRnd : (R.map Tower.addr).Nodup := hndLR.sublist (by
    rw [addrs_append]
    exact List.sublist_append_right _ _)
  obtain ⟨heap2, hrun2, hcol2, hback2, hbody2⟩ := relinkBackward_ok
    (z := { z with heap := heap1 }) (lastAddr none L)
    (hbR.frame (fun y _ => by rw [hbody1])) hRnd htail
  have hl2 : Linked heap2 z.level (L ++ R) := by
    intro i
    rw [hcol2]
    exact hlinked1 i
  obtain ⟨n', hle, hdrop, hlevel, habove⟩ := dropLevels_ok hl2 hbound hz.level.pos hz.level.cap
  have hbodyx : body heap2 t.addr = body z.heap t.addr := by
    rw [hbody2 t.addr (by
      intro hx
      apply hxfresh
      rw [addrs_append]
      exact List.mem_append_right _ hx), hbody1]
  refine ⟨{ z with heap := heap2, tail := lastAddr (lastAddr none L) R, level := n', length := z.length-1 },
    ?_, ⟨?_, ?_, ?_, ?_, hlevel, ?_, ?_, hndLR, ?_, ?_⟩, hle, rfl, hbodyx⟩
  · unfold zslDeleteNode
    rw [hrun1, ok_bind, levelAt_of_col (hcolx 0 ▸ hfwd), ok_bind, hd, ok_bind]
    dsimp only
    rw [hback, hrun2, ok_bind]
    dsimp only
    rw [hdrop, ok_bind]
  · exact hl2.lower hle
  · intro i h1 h2
    rcases Nat.lt_or_ge i z.level with hlt | hge
    · exact habove i h1 hlt
    · obtain ⟨sp, hsp⟩ := hz.above i hge h2
      refine ⟨sp, ?_⟩
      rw [hcol2]
      show col heap1 i header = _
      rw [hcol1 i hge, hsp]
  · obtain ⟨sc, hsc⟩ := hz.head
    refine ⟨sc, ?_⟩
    rw [hbody2 header (by
      intro hx
      obtain ⟨y, hy, hyh⟩ := mem_map.mp hx
      exact addr_ne_header hz.nodup (hmem y (List.mem_append_right _ hy)) hyh)]
    show body heap1 header = _
    rw [hbody1, hsc]
  · rw [backward_append]
    refine ⟨hbL.frame ?_, hback2⟩
    intro y hy
    rw [hbody2 y.addr (by
      intro hx
      rw [addrs, List.map_append, nodup_cons, List.nodup_append] at hndLR
      exact hndLR.2.2.2 y.addr (List.mem_map_of_mem hy) y.addr hx rfl)]
    show body heap1 y.addr = _
    rw [hbody1]
  · rw [lastAddr_append]
  · show z.length-1 = _
    rw [hz.length]
    simp
  · intro y hy
    apply hz.fresh y
    rw [addrs_append] at hy ⊢
    simp only [mem_append, map_cons, mem_cons] at hy ⊢
    tauto
  · have := hz.room
    simp only [length_append, length_cons] at this ⊢
    omega

end DeleteNode

end RedisCore.Skiplist
