import RedisCore.SkiplistRemoval

namespace RedisCore.Skiplist
open Option (any_some map_some)
open RedisCore.SkipIndex

variable {S : Type}

section Layout

variable {z : Zskiplist S} {ts : List (Tower S)}

theorem Layout.addr_at (hz : Layout z ts) {s y : ℕ} (hy : (addrs ts)[s]? = some y) :
    (s = 0 ∧ ∃ n, deref z.heap y = .ok n ∧ n.ele = none) ∨
    ∃ t, ts[s-1]? = some t ∧ 0 < s ∧ y = t.addr ∧
      ∃ n, deref z.heap y = .ok n ∧ n.ele = some t.ele := by
  cases s with
  | zero =>
    left
    cases hy
    obtain ⟨sc, hb⟩ := hz.head
    obtain ⟨n, -, hd, he, -⟩ := deref_of_body hb
    exact ⟨rfl, n, hd, he⟩
  | succ s =>
    right
    rw [addrs_succ, Option.map_eq_some_iff] at hy
    obtain ⟨t, ht, rfl⟩ := hy
    obtain ⟨b, hb⟩ := hz.backward.body (List.mem_of_getElem? ht)
    obtain ⟨n, -, hd, he, -⟩ := deref_of_body hb
    exact ⟨t, ht, by omega, rfl, n, hd, he⟩

theorem Layout.next_zero (hz : Layout z ts) {s : ℕ} (hs : s < ts.length) :
    next (heights z.level ts) 0 s = some (s+1) := by
  have hlt : s+1 < (heights z.level ts).length := by
    rw [length_heights]
    omega
  refine next_eq_some.2 ⟨by omega, ⟨_, List.getElem?_eq_getElem hlt, ?_⟩, ?_⟩
  · exact hz.heights_pos _ (List.getElem_mem hlt)
  · intro q hq1 hq2
    omega

theorem Layout.position_lt (hz : Layout z ts) {s : ℕ} {P : ℕ → Bool} {J : ℕ → Prop} {i r : ℕ}
    (h : WalkEnd (heights z.level ts) P J i r s) : s ≤ ts.length ∧ s%2^64 = s := by
  have hlt := h.lt
  rw [length_heights] at hlt
  have := hz.room
  exact ⟨by omega, Nat.mod_eq_of_lt (by omega)⟩

theorem getElementByRankLoop_ok (hz : Layout z ts) {rank n r x h : ℕ} (hn : 0 < n)
    (hx : (addrs ts)[r]? = some x) (hh : (heights z.level ts)[r]? = some h) (hle : n ≤ h)
    (hr : r ≤ rank) :
    getElementByRankLoop z.heap rank z.fresh n x (r%2^64) = .ok ((addrs ts)[rank]?) := by
  induction n generalizing r x h with
  | zero => omega
  | succ n ih =>
    have hfresh := hz.length_le_fresh
    have hreads : Reads (S := S) (fun _ q => decide (q ≤ rank)) (fun _ q => decide (q ≤ rank)) :=
      fun _ _ _ _ _ => rfl
    have htests := hz.tests (w := 64) hreads
    obtain ⟨s, y, hwalk, hy, hend⟩ := zslWalk_ok (J := fun s => s ≤ rank) (f := z.fresh)
      (length_addrs_eq z.level ts) (hz.linked n) htests (by
        intro s q _ hq hp
        have hq' := next_lt_length hq
        rw [length_heights] at hq'
        have hroom := hz.room
        have hmod : q%2^64 = q := Nat.mod_eq_of_lt (by omega)
        rw [List.getElem?_eq_getElem (by omega), any_some, hmod, decide_eq_true_eq] at hp
        exact hp) (by rw [length_heights]; omega) ⟨h, hh, by omega⟩ hr hx
    obtain ⟨hslen, hmod⟩ := hz.position_lt hend
    obtain ⟨h', hh', hn'⟩ := hend.tall
    have hsr := hend.inv
    rw [getElementByRankLoop, hwalk, ok_bind, hmod]
    dsimp only
    by_cases hs : s = rank
    · rw [if_pos hs, ← hs, hy]
    · rw [if_neg hs]
      rcases Nat.eq_zero_or_pos n with hzero | hpos
      · -- the walk on level 0 stops short of the rank only at the end
        subst hzero
        rw [getElementByRankLoop, List.getElem?_eq_none]
        rw [length_addrs]
        by_contra hlt
        have hroom := hz.room
        have hstop := hend.stop (s+1) (hz.next_zero (by omega))
        rw [Nat.add_sub_cancel, List.getElem?_eq_getElem (by omega), any_some,
          Nat.mod_eq_of_lt (by omega), decide_eq_false_iff_not] at hstop
        omega
      · have hrec := ih hpos hy hh' (by omega) hsr
        rw [hmod] at hrec
        exact hrec

theorem zslGetElementByRank_ok (hz : Layout z ts) (rank : ℕ) :
    zslGetElementByRank z (rank+1) = .ok ((ts[rank]?).map Tower.addr) := by
  rw [← addrs_succ]
  exact getElementByRankLoop_ok (r := 0) hz hz.level.pos rfl rfl (le_refl _) (by omega)

def followLevel (heap : Heap S) (i : ℕ) : ℕ → ℕ → Except Fault (List ℕ)
  | 0, _ => .error .outOfFuel
  | fuel+1, x => do
    let l ← levelAt heap x i
    match l.forward with
    | none => .ok []
    | some y => do
      let ys ← followLevel heap i fuel y
      .ok (y :: ys)

def onLevel (i : ℕ) (ts : List (Tower S)) : List ℕ :=
  (ts.filter (fun t => decide (i < t.height))).map Tower.addr

theorem onLevel_sublist (i : ℕ) (ts : List (Tower S)) :
    (onLevel (i+1) ts).Sublist (onLevel i ts) := by
  apply List.Sublist.map
  apply List.monotone_filter_right
  intro t ht
  rw [decide_eq_true_eq] at ht ⊢
  omega

theorem onLevel_above (hz : Layout z ts) {i : ℕ} (hi : z.level ≤ i) : onLevel i ts = [] := by
  unfold onLevel
  rw [List.filter_eq_nil_iff.mpr, List.map_nil]
  intro t ht
  have := (hz.level.bound t ht).2
  rw [decide_eq_true_eq]
  omega

theorem followLevel_ok (hz : Layout z ts) {i f r x h : ℕ} (hf : ts.length < r+f)
    (hx : (addrs ts)[r]? = some x) (hh : (heights z.level ts)[r]? = some h) (hi : i < h) :
    followLevel z.heap i f x = .ok (onLevel i (ts.drop r)) := by
  induction f generalizing r x h with
  | zero =>
    obtain ⟨hlt, -⟩ := List.getElem?_eq_some_iff.mp hx
    rw [length_addrs] at hlt
    omega
  | succ f ih =>
    rw [followLevel, levelAt_of_col (hz.linked i r x h hx hh hi), ok_bind]
    dsimp only
    cases hn : next (heights z.level ts) i r with
    | none =>
      have hclear := next_eq_none.1 hn
      have hempty : (ts.drop r).filter (fun t => decide (i < t.height)) = [] := by
        rw [List.filter_eq_nil_iff]
        intro t ht
        obtain ⟨k, hk, rfl⟩ := List.mem_drop_iff_getElem.mp ht
        have hle := hclear (k+r+1) (by omega) (by rw [length_heights]; omega) ts[r+k].height
          (by
            rw [heights, List.getElem?_cons_succ, List.getElem?_map, Nat.add_comm k r,
              List.getElem?_eq_getElem (by omega)]
            rfl)
        simpa using hle
      unfold onLevel
      rw [hempty]
      rfl
    | some q =>
      obtain ⟨hrq, ⟨h', hh', hih⟩, hclear⟩ := next_eq_some.1 hn
      have hq := (next_lt_length hn).2
      rw [length_heights] at hq
      obtain ⟨k, rfl⟩ : ∃ k, q = k+1 := ⟨q-1, by omega⟩
      have hk : k < ts.length := by omega
      have hget : (addrs ts)[k+1]? = some ts[k].addr := by
        rw [addrs_succ, List.getElem?_eq_getElem hk]
        rfl
      have hhk : h' = ts[k].height := by
        rw [heights, List.getElem?_cons_succ, List.getElem?_map, List.getElem?_eq_getElem hk] at hh'
        exact (Option.some.inj hh').symm
      rw [Option.bind_some, hget]
      dsimp only
      rw [ih (by omega) hget hh' hih, ok_bind]
      -- towers between the two positions stay below the level
      have hsplit : ts.drop r = (ts.drop r).take (k-r) ++ ts[k] :: ts.drop (k+1) := by
        have hd : (ts.drop r).drop (k-r) = ts.drop k := by
          rw [List.drop_drop]
          congr 1
          omega
        rw [← List.drop_eq_getElem_cons hk, ← hd, List.take_append_drop]
      have hlow : ((ts.drop r).take (k-r)).filter (fun t => decide (i < t.height)) = [] := by
        rw [List.filter_eq_nil_iff]
        intro t ht
        obtain ⟨m, hm, rfl⟩ := List.mem_iff_getElem.mp ht
        rw [List.length_take, List.length_drop] at hm
        have hle := hclear (r+m+1) (by omega) (by omega) ts[r+m].height (by
          rw [heights, List.getElem?_cons_succ, List.getElem?_map,
            List.getElem?_eq_getElem (by omega)]
          rfl)
        simpa using hle
      have hhere : decide (i < ts[k].height) = true := by
        rw [decide_eq_true_eq]
        omega
      have hcons := List.filter_cons_of_pos (p := fun t : Tower S => decide (i < t.height))
        (l := ts.drop (k+1)) hhere
      unfold onLevel
      rw [hsplit, List.filter_append, hlow, List.nil_append, hcons, List.map_cons]

theorem level_ok (hz : Layout z ts) {i : ℕ} (hi : i < zskiplistMaxlevel) :
    followLevel z.heap i z.fresh header = .ok (onLevel i ts) := by
  have hfresh := hz.length_le_fresh
  rcases Nat.lt_or_ge i z.level with hlt | hge
  · exact followLevel_ok (r := 0) hz (by omega) rfl rfl hlt
  · obtain ⟨span, hspan⟩ := hz.above i hge hi
    obtain ⟨f, hf⟩ : ∃ f, z.fresh = f+1 := ⟨z.fresh-1, by omega⟩
    rw [hf, followLevel, levelAt_of_col hspan, ok_bind, onLevel_above hz hge]

end Layout

section Rank

variable [LinearOrder S] {z : Zskiplist S} {L R : List (Tower S)} {t : Tower S}

theorem nodeUpTo_reads (score : S) (ele : Bytes) :
    Reads (fun n _ => nodeUpTo score ele n) (fun (u : Tower S) _ =>
      decide (KeyLt u.score u.ele score ele ∨ (u.score = score ∧ u.ele = ele))) := by
  intro n u r he hs
  dsimp only
  rw [Bool.eq_iff_iff, decide_eq_true_eq]
  unfold nodeUpTo KeyLt
  rw [he, hs, any_some, ← sdscmp_eq_iff (s := u.ele)]
  cases sdscmp u.ele ele <;> simp

theorem upTo_iff (ho : Ordered (L ++ t :: R)) {k : ℕ} {u : Tower S}
    (hu : (L ++ t :: R)[k]? = some u) :
    (KeyLt u.score u.ele t.score t.ele ∨ (u.score = t.score ∧ u.ele = t.ele)) ↔ k ≤ L.length := by
  have hs := List.pairwise_append.mp ho.sorted
  rcases Nat.lt_trichotomy k L.length with hlt | heq | hgt
  · rw [List.getElem?_append_left hlt] at hu
    have hb : u.Before t := hs.2.2 u (List.mem_of_getElem? hu) t (by simp)
    exact ⟨fun _ => hlt.le, fun _ => Or.inl hb⟩
  · rw [heq, List.getElem?_append_right (le_refl _), Nat.sub_self, List.getElem?_cons_zero] at hu
    cases hu
    exact ⟨fun _ => heq.le, fun _ => Or.inr ⟨rfl, rfl⟩⟩
  · rw [List.getElem?_append_right (by omega)] at hu
    have hsub : k-L.length = (k-L.length-1)+1 := by omega
    rw [hsub, List.getElem?_cons_succ] at hu
    have hb : t.Before u := (List.pairwise_cons.mp hs.2.1).1 u (List.mem_of_getElem? hu)
    constructor
    · rintro (hlt | ⟨h1, h2⟩)
      · exact absurd (hb.trans hlt) (KeyLt.irrefl _ _)
      · unfold Tower.Before at hb
        rw [h1, h2] at hb
        exact absurd hb (KeyLt.irrefl _ _)
    · intro hle
      omega

theorem position_of_ele (ho : Ordered (L ++ t :: R)) {k : ℕ} {u : Tower S}
    (hu : (L ++ t :: R)[k]? = some u) : u.ele = t.ele ↔ k = L.length := by
  have ht : (L ++ t :: R)[L.length]? = some t := by
    rw [List.getElem?_append_right (le_refl _), Nat.sub_self, List.getElem?_cons_zero]
  constructor
  · intro heq
    obtain ⟨hk, -⟩ := List.getElem?_eq_some_iff.mp hu
    apply (List.getElem?_inj (by simpa using hk) ho.distinct).mp
    rw [List.getElem?_map, List.getElem?_map, hu, ht, map_some, map_some, heq]
  · rintro rfl
    rw [hu] at ht
    cases ht
    rfl

theorem getRankLoop_ok (hz : Layout z (L ++ t :: R)) (ho : Ordered (L ++ t :: R)) {n r x h : ℕ}
    (hn : 0 < n) (hx : (addrs (L ++ t :: R))[r]? = some x)
    (hh : (heights z.level (L ++ t :: R))[r]? = some h) (hle : n ≤ h) (hr : r ≤ L.length+1) :
    getRankLoop z.heap t.score t.ele z.fresh n x (r%2^64) = .ok (L.length+1) := by
  induction n generalizing r x h with
  | zero => omega
  | succ n ih =>
    have hfresh := hz.length_le_fresh
    have hP : ∀ q, 0 < q → q-1 < (L ++ t :: R).length →
        ((((L ++ t :: R)[q-1]?).any (fun u => decide (KeyLt u.score u.ele t.score t.ele ∨
          (u.score = t.score ∧ u.ele = t.ele)))) = true ↔ q ≤ L.length+1) := by
      intro q hq hlt
      rw [List.getElem?_eq_getElem hlt, any_some, decide_eq_true_eq,
        upTo_iff ho (List.getElem?_eq_getElem hlt)]
      omega
    obtain ⟨s, y, hwalk, hy, hend⟩ := zslWalk_ok (J := fun s => s ≤ L.length+1) (f := z.fresh)
      (length_addrs_eq z.level (L ++ t :: R)) (hz.linked n)
      (hz.tests (w := 64) (nodeUpTo_reads t.score t.ele)) (by
        intro s q _ hq hp
        have hq' := next_lt_length hq
        rw [length_heights] at hq'
        exact (hP q (by omega) (by omega)).mp hp) (by rw [length_heights]; omega)
      ⟨h, hh, by omega⟩ hr hx
    obtain ⟨hslen, hmod⟩ := hz.position_lt hend
    obtain ⟨h', hh', hn'⟩ := hend.tall
    have hsle := hend.inv
    have hcont : s ≠ L.length+1 →
        getRankLoop z.heap t.score t.ele z.fresh n y s = .ok (L.length+1) := by
      intro hs
      rcases Nat.eq_zero_or_pos n with hzero | hpos
      · -- on level 0 the walk goes on to the element
        subst hzero
        have hlen : s < (L ++ t :: R).length := by
          rw [List.length_append, List.length_cons]
          omega
        have hstop := hend.stop (s+1) (hz.next_zero hlen)
        have hgo := (hP (s+1) (by omega) (by omega)).mpr (by omega)
        rw [hstop] at hgo
        cases hgo
      · have hrec := ih hpos hy hh' (by omega) hsle
        rw [hmod] at hrec
        exact hrec
    rw [getRankLoop, hwalk, ok_bind, hmod]
    dsimp only
    rcases hz.addr_at hy with ⟨hs0, nd, hd, he⟩ | ⟨u, hu, hspos, -, nd, hd, he⟩
    · rw [hd, ok_bind, he]
      exact hcont (by omega)
    · rw [hd, ok_bind, he, any_some]
      by_cases hs : s = L.length+1
      · have heq : u.ele = t.ele := (position_of_ele ho hu).mpr (by omega)
        rw [heq, sdscmp_self, if_pos (by rfl), hs]
      · have hne : u.ele ≠ t.ele := by
          intro heq
          have := (position_of_ele ho hu).mp heq
          omega
        rw [if_neg (by
          rw [beq_iff_eq, sdscmp_eq_iff]
          exact hne)]
        exact hcont hs

theorem zslGetRank_ok (hz : Layout z (L ++ t :: R)) (ho : Ordered (L ++ t :: R)) :
    zslGetRank z t.score t.ele = .ok (L.length+1) :=
  getRankLoop_ok (r := 0) hz ho hz.level.pos rfl rfl (le_refl _) (by omega)

end Rank

end RedisCore.Skiplist
