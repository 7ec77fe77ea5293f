import RedisCore.SkiplistInsert
import RedisCore.SkiplistRank

namespace RedisCore.Skiplist
open List (append_nil length_append map_append map_cons mem_append mem_append_right mem_cons mem_map
  mem_singleton nodup_cons nodup_middle pairwise_append pairwise_cons)
open Option (all_eq_true all_some bind_some getD_some map_some)
open RedisCore.SkipIndex

section Sequence

variable {S : Type} {z : Zskiplist S} {L R : List (Tower S)} {t : Tower S}

theorem Layout.setScore (hz : Layout z (L ++ t :: R)) {n : ZskiplistNode S}
    (hn : z.heap t.addr = some n) (s : S) :
    Layout { z with heap := storeNode z.heap t.addr { n with score := s } }
      (L ++ { t with score := s } :: R) := by
  have haddrs : addrs (L ++ { t with score := s } :: R) = addrs (L ++ t :: R) := by
    simp [addrs]
  have hheights : heights z.level (L ++ { t with score := s } :: R) =
      heights z.level (L ++ t :: R) := by
    simp [heights]
  have hcol : col (storeNode z.heap t.addr { n with score := s }) = col z.heap := by
    funext i y
    rw [col_storeNode]
    split_ifs with hy
    · rw [hy, col, hn]
      rfl
    · rfl
  have hndt := hz.nodup
  rw [addrs_append, map_cons, nodup_middle, nodup_cons, mem_append] at hndt
  have hother : ∀ y, y ≠ t.addr →
      body (storeNode z.heap t.addr { n with score := s }) y = body z.heap y := by
    intro y hy
    rw [body_storeNode, if_neg hy]
  obtain ⟨hbL, hbt, hbR⟩ := (backward_append z.heap none L (t :: R)).mp hz.backward
  have hneL : ∀ u ∈ L, u.addr ≠ t.addr := by
    intro u hu heq
    apply hndt.1
    left
    rw [← heq, addrs]
    exact List.mem_cons_of_mem _ (List.mem_map_of_mem hu)
  have hneR : ∀ u ∈ R, u.addr ≠ t.addr := by
    intro u hu heq
    apply hndt.1
    right
    rw [← heq]
    exact List.mem_map_of_mem hu
  refine ⟨?_, ?_, ?_, ?_, ?_, ?_, ?_, ?_, ?_, ?_⟩
  · intro i
    rw [haddrs, hheights, hcol]
    exact hz.linked i
  · intro i h1 h2
    rw [hcol]
    exact hz.above i h1 h2
  · show ∃ sc, body _ header = _
    rw [hother header (Ne.symm (addr_ne_header hz.nodup (by simp)))]
    exact hz.head
  · rw [backward_append]
    refine ⟨hbL.frame (fun u hu => hother _ (hneL u hu)), ?_,
      hbR.frame (fun u hu => hother _ (hneR u hu))⟩
    rw [body_storeNode, if_pos rfl]
    unfold body at hbt
    rw [hn, map_some, Option.some.injEq, Prod.mk.injEq, Prod.mk.injEq, Prod.mk.injEq] at hbt
    simp only [hbt.1, hbt.2.2.1, hbt.2.2.2]
  · refine ⟨hz.level.pos, hz.level.cap, ?_, ?_⟩
    · intro u hu
      rcases mem_append.mp hu with hu' | hu'
      · exact hz.level.bound u (List.mem_append_left _ hu')
      · rcases mem_cons.mp hu' with rfl | hu''
        · exact hz.level.bound t (by simp)
        · exact hz.level.bound u (by simp [hu''])
    · rcases hz.level.reached with h0 | ⟨u, hu, hun⟩
      · exact Or.inl h0
      · right
        rcases mem_append.mp hu with hu' | hu'
        · exact ⟨u, by simp [hu'], hun⟩
        · rcases mem_cons.mp hu' with rfl | hu''
          · exact ⟨_, mem_append_right _ (List.mem_cons_self ..), hun⟩
          · exact ⟨u, by simp [hu''], hun⟩
  · show z.tail = _
    rw [hz.tail, lastAddr_append, lastAddr_append]
    rfl
  · show z.length = _
    rw [hz.length]
    simp
  · rw [haddrs]
    exact hz.nodup
  · rw [haddrs]
    exact hz.fresh
  · have := hz.room
    simpa using this

def towersFrom (heap : Heap S) : ℕ → Option ℕ → List (Tower S)
  | 0, _ => []
  | _, none => []
  | fuel+1, some x =>
    match heap x with
    | none => []
    | some n => ⟨n.ele.getD [], n.score, n.level.length, x⟩ ::
        towersFrom heap fuel ((n.level[0]?).bind ZskiplistLevel.forward)

def towers (z : Zskiplist S) : List (Tower S) :=
  towersFrom z.heap z.fresh ((col z.heap 0 header).bind ZskiplistLevel.forward)

theorem towersFrom_eq (hz : Layout z (L ++ R)) {f : ℕ}
    (hf : R.length ≤ f) : towersFrom z.heap f (R.head?.map Tower.addr) = R := by
  induction R generalizing L f with
  | nil => cases f <;> rfl
  | cons t R ih =>
    obtain ⟨f, rfl⟩ : ∃ g, f = g+1 := ⟨f-1, by rw [List.length_cons] at hf; omega⟩
    have hbt := ((backward_append z.heap none L (t :: R)).mp hz.backward).2.1
    obtain ⟨n, hn, -, he, hs, -, hl⟩ := deref_of_body hbt
    have hpos : (addrs (L ++ t :: R))[L.length+1]? = some t.addr := by
      rw [addrs_succ, List.getElem?_append_right (le_refl _), Nat.sub_self]
      rfl
    obtain ⟨span, hfwd⟩ := hz.linked.forward hz.heights_pos hpos
    have hhead : (L ++ t :: R)[L.length+1]? = R.head? := by
      rw [List.getElem?_append_right (by omega), List.head?_eq_getElem?]
      have hsub : L.length+1-L.length = 1 := by omega
      rw [hsub, List.getElem?_cons_succ]
    unfold col at hfwd
    rw [hn, bind_some] at hfwd
    have hz' : Layout z ((L ++ [t]) ++ R) := by simpa using hz
    have hrec := ih hz' (f := f) (by simpa using hf)
    rw [List.head?_cons, map_some, towersFrom, hn]
    simp only [hfwd, hhead, bind_some, hrec, he, hs, hl, getD_some]

theorem towers_eq {ts : List (Tower S)} (hz : Layout z ts) : towers z = ts := by
  have hfresh := hz.length_le_fresh
  obtain ⟨span, hfwd⟩ := hz.linked.forward (r := 0) hz.heights_pos rfl
  unfold towers
  rw [hfwd, bind_some, ← List.head?_eq_getElem?]
  exact towersFrom_eq (L := []) hz (by omega)

theorem byScore_reads (f : S → Bool) :
    Reads (fun n _ => f n.score) (fun (t : Tower S) _ => f t.score) := by
  intro n t r _ hs
  dsimp only
  rw [hs]

theorem byLex_reads (f : Bytes → Bool) :
    Reads (S := S) (fun n _ => n.ele.any f) (fun (t : Tower S) _ => f t.ele) := by
  intro n t r he _
  dsimp only
  rw [he, Option.any_some]

theorem byRank_reads (f : ℕ → Bool) :
    Reads (S := S) (fun _ r => f r) (fun (_ : Tower S) r => f r) := by
  intro n t r _ _
  rfl

end Sequence

section Operations

variable {S : Type} [LinearOrder S] {z : Zskiplist S} {L R ts : List (Tower S)} {t : Tower S}

def below (ts : List (Tower S)) (score : S) (ele : Bytes) : List (Tower S) :=
  ts.takeWhile (fun t => decide (KeyLt t.score t.ele score ele))

theorem below_eq {score : S} {ele : Bytes} (hL : ∀ t ∈ L, KeyLt t.score t.ele score ele)
    (hR : ∀ t ∈ R, ¬ KeyLt t.score t.ele score ele) : below (L ++ R) score ele = L := by
  unfold below
  rw [List.takeWhile_append_of_pos (fun t ht => decide_eq_true (hL t ht))]
  cases R with
  | nil => simp
  | cons y R =>
    rw [List.takeWhile_cons_of_neg, append_nil]
    simpa using hR y (by simp)

theorem Ordered.insert (ho : Ordered (L ++ R)) (hL : ∀ u ∈ L, KeyLt u.score u.ele t.score t.ele)
    (hR : ∀ u ∈ R, ¬ KeyLt u.score u.ele t.score t.ele) (hnew : ∀ u ∈ L ++ R, u.ele ≠ t.ele) :
    Ordered (L ++ t :: R) := by
  have hs := pairwise_append.mp ho.sorted
  refine ⟨?_, ?_⟩
  · rw [pairwise_append, pairwise_cons]
    refine ⟨hs.1, ⟨?_, hs.2.1⟩, ?_⟩
    · intro u hu
      have hne := hnew u (mem_append_right _ hu)
      exact (keyLt_or_keyLt (fun h => hne h.2)).resolve_left (hR u hu)
    · intro u hu v hv
      rcases mem_cons.mp hv with rfl | hv'
      · exact hL u hu
      · exact hs.2.2 u hu v hv'
  · rw [map_append, map_cons, nodup_middle, nodup_cons, ← map_append]
    refine ⟨?_, ho.distinct⟩
    intro hmem
    obtain ⟨u, hu, heq⟩ := mem_map.mp hmem
    exact hnew u hu heq

theorem insert_step (hz : Layout z ts) (ho : Ordered ts) (score : S) (ele : Bytes) {level : ℕ}
    (hnew : ∀ u ∈ ts, u.ele ≠ ele) (h1 : 1 ≤ level) (hmax : level ≤ zskiplistMaxlevel)
    (hroom : ts.length+1 < 2^64-1) (hnear : Near (below ts score ele) level) :
    ∃ A B z', ts = A ++ B ∧ zslInsert z score ele level = .ok (z', z.fresh) ∧
      Layout z' (A ++ ⟨ele, score, level, z.fresh⟩ :: B) ∧
      Ordered (A ++ ⟨ele, score, level, z.fresh⟩ :: B) := by
  obtain ⟨A, B, y, z', rfl, hA, hB, hrun, -, -, hlayout⟩ := zslInsert_ok hz ho score ele h1 hmax
  rw [below_eq hA hB] at hnear
  exact ⟨A, B, z', rfl, hrun, hlayout hroom hnear, ho.insert hA hB hnew⟩

def inPlace (L R : List (Tower S)) (newscore : S) : Bool :=
  L.getLast?.all (fun t => decide (t.score < newscore)) &&
    R.head?.all (fun t => decide (newscore < t.score))

theorem staysInPlace_ok (hz : Layout z (L ++ t :: R)) (newscore : S) :
    staysInPlace z t.addr newscore = .ok (inPlace L R newscore) := by
  obtain ⟨hbL, hbt, hbR⟩ := (backward_append z.heap none L (t :: R)).mp hz.backward
  obtain ⟨n, -, hd, -, -, hback, -⟩ := deref_of_body hbt
  have hpos : (addrs (L ++ t :: R))[L.length+1]? = some t.addr := by
    rw [addrs_succ, List.getElem?_append_right (le_refl _), Nat.sub_self]
    rfl
  obtain ⟨span, hfwd⟩ := hz.linked.forward hz.heights_pos hpos
  have hhead : (L ++ t :: R)[L.length+1]? = R.head? := by
    rw [List.getElem?_append_right (by omega), List.head?_eq_getElem?]
    have hsub : L.length+1-L.length = 1 := by omega
    rw [hsub, List.getElem?_cons_succ]
  have hbefore : nullOrScore z.heap n.backward (fun s => decide (s < newscore)) =
      .ok (L.getLast?.all (fun t => decide (t.score < newscore))) := by
    rw [hback]
    rcases List.eq_nil_or_concat L with rfl | ⟨M, y, rfl⟩
    · rfl
    · rw [List.concat_eq_append] at *
      obtain ⟨b, hby⟩ := hbL.body (t := y) (by simp)
      obtain ⟨ny, -, hdy, -, hsy, -⟩ := deref_of_body hby
      rw [lastAddr_append, List.getLast?_append]
      simp only [nullOrScore, lastAddr, hdy, ok_bind, hsy, List.getLast?_singleton,
        Option.some_or, all_some]
  have hafter : nullOrScore z.heap (R.head?.map Tower.addr) (fun s => decide (s > newscore)) =
      .ok (R.head?.all (fun t => decide (newscore < t.score))) := by
    cases R with
    | nil => rfl
    | cons y R =>
      obtain ⟨ny, -, hdy, -, hsy, -⟩ := deref_of_body hbR.1
      simp only [nullOrScore, List.head?_cons, map_some, hdy, ok_bind, hsy,
        all_some]
  unfold staysInPlace
  rw [hd, ok_bind, levelAt_of_col hfwd, ok_bind, hhead]
  dsimp only
  rw [hbefore, ok_bind, hafter, ok_bind]
  rfl

theorem Ordered.setScore (ho : Ordered (L ++ t :: R)) {s : S} (h : inPlace L R s = true) :
    Ordered (L ++ { t with score := s } :: R) := by
  unfold inPlace at h
  rw [Bool.and_eq_true, all_eq_true, all_eq_true] at h
  have hs := pairwise_append.mp ho.sorted
  have hR := pairwise_cons.mp hs.2.1
  have hscore : ∀ u v : Tower S, u.Before v → u.score ≤ v.score := by
    rintro u v (hlt | ⟨heq, -⟩)
    · exact hlt.le
    · exact heq.le
  refine ⟨?_, ?_⟩
  · rw [pairwise_append, pairwise_cons]
    refine ⟨hs.1, ⟨?_, hR.2⟩, ?_⟩
    · intro u hu
      cases R with
      | nil => simp at hu
      | cons y R =>
        have hy : s < y.score := by simpa using h.2 y rfl
        left
        rcases mem_cons.mp hu with rfl | hu'
        · exact hy
        · exact lt_of_lt_of_le hy (hscore y u ((pairwise_cons.mp hR.2).1 u hu'))
    · intro u hu v hv
      rcases mem_cons.mp hv with rfl | hv'
      · left
        rcases List.eq_nil_or_concat L with rfl | ⟨M, y, rfl⟩
        · simp at hu
        · rw [List.concat_eq_append] at *
          have hy : y.score < s := by simpa using h.1 y (by simp)
          rcases mem_append.mp hu with hu' | hu'
          · exact lt_of_le_of_lt
              (hscore u y ((pairwise_append.mp hs.1).2.2 u hu' y (by simp))) hy
          · rw [mem_singleton.mp hu']
            exact hy
      · exact hs.2.2 u hu v (List.mem_cons_of_mem _ hv')
  · have := ho.distinct
    simpa using this

theorem update_step (hz : Layout z (L ++ t :: R)) (ho : Ordered (L ++ t :: R)) (newscore : S)
    {level : ℕ} (h1 : 1 ≤ level) (hmax : level ≤ zskiplistMaxlevel)
    (hnear : inPlace L R newscore = true ∨ Near (below (L ++ R) newscore t.ele) level) :
    ∃ A B u z', A ++ B = L ++ R ∧ u.ele = t.ele ∧ u.score = newscore ∧
      zslUpdateScore z t.score t.ele newscore level = .ok (z', u.addr) ∧
      Layout z' (A ++ u :: B) ∧ Ordered (A ++ u :: B) := by
  obtain ⟨L', R', ss, hrun, hsplit, hss, hlen, hL, hR⟩ := search_key hz ho 64 t.score t.ele
  rw [hsplit] at hz ho
  have hhead := head_of_present ho hL hR (by rw [← hsplit]; simp)
  obtain ⟨R'', rfl⟩ : ∃ R'', R' = t :: R'' := by
    cases R' with
    | nil => cases hhead
    | cons y R' =>
      cases hhead
      exact ⟨R', rfl⟩
  -- the element stands at one position
  have hlenL : L.length = L'.length := by
    apply (position_of_ele ho (u := t) ?_).mp rfl
    rw [← hsplit, List.getElem?_append_right (le_refl _), Nat.sub_self, List.getElem?_cons_zero]
  obtain ⟨rfl, htail⟩ := List.append_inj hsplit hlenL
  obtain ⟨-, rfl⟩ := List.cons.inj htail
  have hbt := ((backward_append z.heap none L (t :: R)).mp hz.backward).2.1
  obtain ⟨n, hn, hd, he, hs, -⟩ := deref_of_body hbt
  have hnd := hz.nodup
  rw [addrs_append, map_cons, nodup_middle, nodup_cons, ← addrs_append] at hnd
  unfold zslUpdateScore
  rw [hrun, ok_bind, searchEnd_ok hz hss, ok_bind]
  simp only [List.head?_cons, map_some, hd, ok_bind,
    (nodeIs_iff he hs t.score t.ele).mpr ⟨rfl, rfl⟩, Bool.not_true, Bool.false_eq_true,
    if_false, staysInPlace_ok hz newscore]
  by_cases hin : inPlace L R newscore = true
  · refine ⟨L, R, { t with score := newscore }, _, rfl, rfl, rfl, by rw [if_pos hin],
      hz.setScore hn newscore, ho.setScore hin⟩
  · rw [if_neg hin]
    obtain ⟨z1, hrun1, hz1, -, hfresh, -⟩ := zslDeleteNode_ok (w := 64) hz hss hlen.ge
    have ho1 : Ordered (L ++ R) := ho.sublist ((List.sublist_cons_self t R).append_left L)
    have hnew : ∀ u ∈ L ++ R, u.ele ≠ t.ele := by
      have hdist := ho.distinct
      rw [map_append, map_cons, nodup_middle, nodup_cons,
        ← map_append] at hdist
      intro u hu heq
      exact hdist.1 (heq ▸ List.mem_map_of_mem hu)
    have hroom := hz.room
    rw [length_append, List.length_cons] at hroom
    obtain ⟨A, B, z2, hAB, hrun2, hz2, ho2⟩ := insert_step hz1 ho1 newscore t.ele hnew h1 hmax
      (by rw [length_append]; omega) (hnear.resolve_left hin)
    refine ⟨A, B, ⟨t.ele, newscore, level, z1.fresh⟩, zslFreeNode z2 t.addr, hAB.symm, rfl, rfl, ?_,
      hz2.zslFreeNode ?_, ho2⟩
    · rw [hrun1, ok_bind, he, getD_some, hrun2, ok_bind]
    · have hne : t.addr ≠ z1.fresh := by
        have := hz.fresh t.addr (by simp [addrs])
        omega
      rw [hAB] at hnd
      rw [addrs_append, map_cons, mem_append, mem_cons]
      rw [addrs_append, mem_append] at hnd
      tauto

end Operations

section Runs

variable {S : Type} [LinearOrder S]

inductive ZslOp (S : Type) where
  | insert (score : S) (ele : Bytes) (level : ℕ)
  | delete (score : S) (ele : Bytes) (keep : Bool)
  | updateScore (curscore : S) (ele : Bytes) (newscore : S) (level : ℕ)
  | deleteRangeByScore (range : Zrangespec S)
  | deleteRangeByLex (range : Zlexrangespec)
  | deleteRangeByRank (start stop : ℕ)

def applyOp (z : Zskiplist S) : ZslOp S → Except Fault (Zskiplist S)
  | .insert score ele level => do
    let r ← zslInsert z score ele level
    .ok r.1
  | .delete score ele keep => do
    let r ← zslDelete z score ele keep
    .ok r.1
  | .updateScore curscore ele newscore level => do
    let r ← zslUpdateScore z curscore ele newscore level
    .ok r.1
  | .deleteRangeByScore range => do
    let r ← zslDeleteRangeByScore z range
    .ok r.1
  | .deleteRangeByLex range => do
    let r ← zslDeleteRangeByLex z range
    .ok r.1
  | .deleteRangeByRank start stop => do
    let r ← zslDeleteRangeByRank z start stop
    .ok r.1

def runOps : Zskiplist S → List (ZslOp S) → Except Fault (Zskiplist S)
  | z, [] => .ok z
  | z, op :: ops => do
    let z ← applyOp z op
    runOps z ops

/-- What the callers promise: an inserted element is new, an updated one is there with its score,
and levels are those that `zslRandomLevel` draws. -/
def Promised (ts : List (Tower S)) : ZslOp S → Prop
  | .insert _ ele level =>
    (∀ u ∈ ts, u.ele ≠ ele) ∧ 1 ≤ level ∧ level ≤ zskiplistMaxlevel ∧ ts.length+1 < 2^64-1
  | .updateScore curscore ele _ level =>
    (∃ t ∈ ts, t.score = curscore ∧ t.ele = ele) ∧ 1 ≤ level ∧ level ≤ zskiplistMaxlevel
  | _ => True

def Fits (ts : List (Tower S)) : ZslOp S → Prop
  | .insert score ele level => Near (below ts score ele) level
  | .updateScore _ ele newscore level => ∀ L t R, ts = L ++ t :: R → t.ele = ele →
      inPlace L R newscore = true ∨ Near (below (L ++ R) newscore ele) level
  | _ => True

def RunMeets (C : List (Tower S) → ZslOp S → Prop) : Zskiplist S → List (ZslOp S) → Prop
  | _, [] => True
  | z, op :: ops => C (towers z) op ∧ ∀ z', applyOp z op = .ok z' → RunMeets C z' ops

theorem range_step {z : Zskiplist S} {ts : List (Tower S)} (hz : Layout z ts) (ho : Ordered ts)
    {skip inRange : ZskiplistNode S → ℕ → Bool} {sT rT : Tower S → ℕ → Bool} (hs : Reads skip sT)
    (hr : Reads inRange rT) : ∃ us z', (do
        let r ← zslDeleteRange z skip inRange
        .ok r.1 : Except Fault (Zskiplist S)) = .ok z' ∧ Layout z' us ∧ Ordered us := by
  obtain ⟨L, M, R, ss, z', hfound, hrun, hz', -⟩ := zslDeleteRange_ok hz hs hr
  rw [hfound.split] at ho
  exact ⟨L ++ R, z', by rw [hrun, ok_bind], hz', ho.removeRun⟩

theorem applyOp_step {z : Zskiplist S} {ts : List (Tower S)} (hz : Layout z ts) (ho : Ordered ts)
    (op : ZslOp S) (hp : Promised ts op) (hfit : Fits ts op) :
    ∃ us z', applyOp z op = .ok z' ∧ Layout z' us ∧ Ordered us := by
  cases op with
  | insert score ele level =>
    obtain ⟨hnew, h1, hmax, hroom⟩ := hp
    obtain ⟨A, B, z', -, hrun, hz', ho'⟩ := insert_step hz ho score ele hnew h1 hmax hroom hfit
    exact ⟨_, z', by rw [applyOp, hrun, ok_bind], hz', ho'⟩
  | delete score ele keep =>
    rcases zslDelete_ok hz ho score ele keep with
      ⟨L, t, R, z', rfl, -, -, hrun, hz'⟩ | ⟨-, hrun⟩
    · exact ⟨L ++ R, z', by rw [applyOp, hrun, ok_bind], hz',
        ho.sublist ((List.sublist_cons_self t R).append_left L)⟩
    · exact ⟨ts, z, by rw [applyOp, hrun, ok_bind], hz, ho⟩
  | updateScore curscore ele newscore level =>
    obtain ⟨⟨t, ht, rfl, rfl⟩, h1, hmax⟩ := hp
    obtain ⟨L, R, rfl⟩ := List.append_of_mem ht
    obtain ⟨A, B, u, z', -, -, -, hrun, hz', ho'⟩ :=
      update_step hz ho newscore h1 hmax (hfit L t R rfl rfl)
    exact ⟨_, z', by rw [applyOp, hrun, ok_bind], hz', ho'⟩
  | deleteRangeByScore range =>
    exact range_step hz ho
      (byScore_reads (fun s => if range.minex then decide (s ≤ range.min) else decide (s < range.min)))
      (byScore_reads (fun s => if range.maxex then decide (s < range.max) else decide (s ≤ range.max)))
  | deleteRangeByLex range =>
    exact range_step hz ho (byLex_reads (fun e => !zslLexValueGteMin e range))
      (byLex_reads (fun e => zslLexValueLteMax e range))
  | deleteRangeByRank start stop =>
    exact range_step hz ho (byRank_reads (fun r => decide (r < start)))
      (byRank_reads (fun r => decide (r ≤ stop)))

structure Sound (z : Zskiplist S) (ts : List (Tower S)) : Prop where
  layout : Layout z ts
  ordered : Ordered ts
  levels : ∀ i < zskiplistMaxlevel, followLevel z.heap i z.fresh header = .ok (onLevel i ts)
  nested : ∀ i, (onLevel (i+1) ts).Sublist (onLevel i ts)
  ground : onLevel 0 ts = ts.map Tower.addr
  empty : ∀ i, z.level ≤ i → onLevel i ts = []
  rank : ∀ k t, ts[k]? = some t → zslGetRank z t.score t.ele = .ok (k+1)
  element : ∀ k, zslGetElementByRank z (k+1) = .ok ((ts[k]?).map Tower.addr)

theorem Layout.sound {z : Zskiplist S} {ts : List (Tower S)} (hz : Layout z ts)
    (ho : Ordered ts) : Sound z ts := by
  refine ⟨hz, ho, fun i hi => level_ok hz hi, fun i => onLevel_sublist i ts, ?_,
    fun i hi => onLevel_above hz hi, ?_, fun k => zslGetElementByRank_ok hz k⟩
  · unfold onLevel
    rw [List.filter_eq_self.mpr]
    intro t ht
    have := (hz.level.bound t ht).1
    rw [decide_eq_true_eq]
    omega
  · intro k t ht
    obtain ⟨hk, rfl⟩ := List.getElem?_eq_some_iff.mp ht
    have hsplit : ts = ts.take k ++ ts[k] :: ts.drop (k+1) := by
      rw [← List.drop_eq_getElem_cons hk, List.take_append_drop]
    have hlen : (ts.take k).length = k := by
      rw [List.length_take]
      omega
    generalize ts[k] = t at *
    rw [hsplit] at hz ho
    have hrank := zslGetRank_ok hz ho
    rw [hlen] at hrank
    exact hrank

theorem runOps_sound {z : Zskiplist S} {ts : List (Tower S)} (hz : Layout z ts)
    (ho : Ordered ts) (ops : List (ZslOp S)) (hp : RunMeets Promised z ops)
    (hfit : RunMeets Fits z ops) : ∃ us z', runOps z ops = .ok z' ∧ Sound z' us := by
  induction ops generalizing z ts with
  | nil => exact ⟨ts, z, rfl, hz.sound ho⟩
  | cons op ops ih =>
    obtain ⟨hp0, hprest⟩ := hp
    obtain ⟨hf0, hfrest⟩ := hfit
    rw [towers_eq hz] at hp0 hf0
    obtain ⟨us, z', hrun, hz', ho'⟩ := applyOp_step hz ho op hp0 hf0
    obtain ⟨vs, z'', hrest, hs⟩ := ih hz' ho' (hprest z' hrun) (hfrest z' hrun)
    exact ⟨vs, z'', by rw [runOps, hrun, ok_bind, hrest], hs⟩

/-- In every run from `zslCreate` whose callers keep their promises and whose insertions find
their predecessors near, every skip list reached is sound. -/
theorem skiplist_run_sound [Zero S] (ops : List (ZslOp S))
    (hp : RunMeets Promised (zslCreate : Zskiplist S) ops)
    (hfit : RunMeets Fits (zslCreate : Zskiplist S) ops) :
    ∃ us z', runOps (zslCreate : Zskiplist S) ops = .ok z' ∧ Sound z' us :=
  runOps_sound layout_zslCreate ⟨List.Pairwise.nil, List.nodup_nil⟩ ops hp hfit

end Runs

section Instances

theorem reach_nil {S : Type} (i : ℕ) : reach ([] : List (Tower S)) i = 1 := rfl

theorem skiplist_run_sound_three :
    RunMeets Fits (zslCreate : Zskiplist ℕ)
      [.insert 5 [97] 2, .delete 6 [97] false, .deleteRangeByRank 2 3] ∧
    ∃ us z', runOps (zslCreate : Zskiplist ℕ)
      [.insert 5 [97] 2, .delete 6 [97] false, .deleteRangeByRank 2 3] = .ok z' ∧ Sound z' us := by
  have hempty : towers (zslCreate : Zskiplist ℕ) = [] := towers_eq layout_zslCreate
  have hp : RunMeets Promised (zslCreate : Zskiplist ℕ)
      [.insert 5 [97] 2, .delete 6 [97] false, .deleteRangeByRank 2 3] := by
    refine ⟨?_, fun _ _ => ⟨trivial, fun _ _ => ⟨trivial, fun _ _ => trivial⟩⟩⟩
    rw [hempty]
    exact ⟨by simp, by decide, by decide, by decide⟩
  have hfit : RunMeets Fits (zslCreate : Zskiplist ℕ)
      [.insert 5 [97] 2, .delete 6 [97] false, .deleteRangeByRank 2 3] := by
    refine ⟨?_, fun _ _ => ⟨trivial, fun _ _ => ⟨trivial, fun _ _ => trivial⟩⟩⟩
    rw [hempty]
    intro i _
    show reach [] i < 2^32
    rw [reach_nil]
    decide
  exact ⟨hfit, skiplist_run_sound _ hp hfit⟩

def ascending (n : ℕ) : List (ZslOp ℕ) :=
  (List.range n).map (fun k => .insert k (leBytes 8 k) 1)

theorem ascending_succ (n : ℕ) :
    ascending (n+1) = ascending n ++ [.insert n (leBytes 8 n) 1] := by
  unfold ascending
  rw [List.range_succ, map_append, List.map_singleton]

theorem runOps_append {S : Type} [LinearOrder S] {z z' : Zskiplist S} {xs : List (ZslOp S)}
    (h : runOps z xs = .ok z') (ys : List (ZslOp S)) : runOps z (xs ++ ys) = runOps z' ys := by
  induction xs generalizing z with
  | nil =>
    cases h
    rfl
  | cons op xs ih =>
    rw [List.cons_append, runOps]
    rw [runOps] at h
    cases hop : applyOp z op with
    | error e =>
      rw [hop] at h
      cases h
    | ok z1 =>
      rw [hop, ok_bind] at h
      rw [ok_bind]
      exact ih h

theorem runMeets_append {S : Type} [LinearOrder S] {C : List (Tower S) → ZslOp S → Prop}
    {z z' : Zskiplist S} {xs ys : List (ZslOp S)} (h : runOps z xs = .ok z')
    (hx : RunMeets C z xs) (hy : RunMeets C z' ys) : RunMeets C z (xs ++ ys) := by
  induction xs generalizing z with
  | nil =>
    cases h
    exact hy
  | cons op xs ih =>
    refine ⟨hx.1, ?_⟩
    intro z1 hz1
    apply ih _ (hx.2 z1 hz1)
    rw [runOps, hz1, ok_bind] at h
    exact h

structure Ascending (n : ℕ) (ts : List (Tower ℕ)) : Prop where
  length : ts.length = n
  low : ∀ t ∈ ts, t.height = 1
  held : ∀ t ∈ ts, ∃ k < n, t.score = k ∧ t.ele = leBytes 8 k

theorem Ascending.promised {n : ℕ} {ts : List (Tower ℕ)} (ha : Ascending n ts) (hn : n ≤ 2^32)
    {level : ℕ} (h1 : 1 ≤ level) (hmax : level ≤ zskiplistMaxlevel) :
    Promised ts (.insert n (leBytes 8 n) level) := by
  refine ⟨?_, h1, hmax, by rw [ha.length]; omega⟩
  intro u hu heq
  obtain ⟨k, hk, -, hele⟩ := ha.held u hu
  rw [hele] at heq
  have hdec := congrArg leNat heq
  rw [leNat_leBytes_of_lt (by omega), leNat_leBytes_of_lt (by omega)] at hdec
  omega

theorem Ascending.below {n : ℕ} {ts : List (Tower ℕ)} (ha : Ascending n ts) :
    ∀ t ∈ ts, KeyLt t.score t.ele n (leBytes 8 n) := by
  intro t ht
  obtain ⟨k, hk, hscore, -⟩ := ha.held t ht
  left
  omega

theorem ascending_run {n : ℕ} (hn : n ≤ 2^32) : ∃ ts z,
    runOps (zslCreate : Zskiplist ℕ) (ascending n) = .ok z ∧
      RunMeets Promised (zslCreate : Zskiplist ℕ) (ascending n) ∧ Layout z ts ∧ Ordered ts ∧
      Ascending n ts := by
  induction n with
  | zero =>
    exact ⟨[], zslCreate, rfl, trivial, layout_zslCreate, ⟨List.Pairwise.nil, List.nodup_nil⟩,
      rfl, by simp, by simp⟩
  | succ n ih =>
    obtain ⟨ts, z, hrun, hprom, hz, ho, ha⟩ := ih (by omega)
    have hp := ha.promised (by omega) (le_refl 1) (by decide)
    obtain ⟨L, R, y, z', hsplit, hL, hR, hins, -, -, hlayout⟩ :=
      zslInsert_ok hz ho n (leBytes 8 n) (le_refl 1) (by decide)
    have hnil : R = [] := by
      rw [List.eq_nil_iff_forall_not_mem]
      intro t ht
      exact hR t ht (ha.below t (by rw [hsplit]; exact mem_append_right _ ht))
    subst hnil
    rw [append_nil] at hsplit
    subst hsplit
    have hnear : Near ts 1 := by
      intro i hi
      obtain rfl : i = 0 := by omega
      have hzero : ts.reverse.takeWhile (fun t => decide (t.height ≤ 0)) = [] := by
        rw [List.takeWhile_eq_nil_iff]
        intro hlen
        have hlow := ha.low _ (List.mem_reverse.mp (List.get_mem ts.reverse ⟨0, hlen⟩))
        rw [decide_eq_true_eq, hlow]
        exact Nat.not_succ_le_zero 0
      unfold reach
      rw [hzero]
      decide
    have hroom : ts.length+1 < 2^64-1 := hp.2.2.2
    have hz' := hlayout hroom hnear
    have ho' := Ordered.insert (R := []) (t := ⟨leBytes 8 n, n, 1, z.fresh⟩)
      (by simpa using ho) hL (by simp) (by simpa using hp.1)
    refine ⟨_, z', ?_, ?_, hz', ho', ?_, ?_, ?_⟩
    · rw [ascending_succ, runOps_append hrun, runOps, applyOp, hins]
      rfl
    · rw [ascending_succ]
      apply runMeets_append hrun hprom
      refine ⟨?_, fun _ _ => trivial⟩
      rw [towers_eq hz]
      exact hp
    · rw [length_append, ha.length]
      rfl
    · intro t ht
      rcases mem_append.mp ht with ht' | ht'
      · exact ha.low t ht'
      · rw [mem_singleton.mp ht']
    · intro t ht
      rcases mem_append.mp ht with ht' | ht'
      · obtain ⟨k, hk, h⟩ := ha.held t ht'
        exact ⟨k, by omega, h⟩
      · rw [mem_singleton.mp ht']
        exact ⟨n, by omega, rfl, rfl⟩

/-- With 2^32 elements in front, `rank[0]` wraps to 0: a node of level 2 that goes to the end gets
rank 1 on that level. -/
theorem zslInsert_rank_wraps : ∃ z x,
    RunMeets Promised (zslCreate : Zskiplist ℕ)
      (ascending (2^32) ++ [.insert (2^32) (leBytes 8 (2^32)) 2]) ∧
    runOps (zslCreate : Zskiplist ℕ)
      (ascending (2^32) ++ [.insert (2^32) (leBytes 8 (2^32)) 2]) = .ok z ∧
    z.length = 2^32+1 ∧ z.tail = some x ∧ col z.heap 1 header = some ⟨some x, 1⟩ ∧
    ∀ ts, ¬ Layout z ts := by
  generalize hN : 2^32 = N
  obtain ⟨ts, z, hrun, hprom, hz, ho, ha⟩ := ascending_run (n := N) hN.ge
  have hp : Promised ts (.insert N (leBytes 8 N) 2) := ha.promised hN.ge (by decide) (by decide)
  obtain ⟨L, R, y, z', hsplit, hL, hR, hins, hlen, hnode, -⟩ :=
    @zslInsert_ok ℕ _ z ts hz ho N (leBytes 8 N) 2 (by decide) (by decide)
  have hnil : R = [] := by
    rw [List.eq_nil_iff_forall_not_mem]
    intro t ht
    exact hR t ht (ha.below t (by rw [hsplit]; exact mem_append_right _ ht))
  subst hnil
  rw [append_nil] at hsplit
  subst hsplit
  have htail : z'.tail = some z.fresh := by
    rw [hnode.tail, lastAddr_append]
    rfl
  have hlink : col z'.heap 1 header = some ⟨some z.fresh, 1⟩ := by
    obtain ⟨s, hs, hc⟩ := hnode.reached 1 Nat.one_lt_two
    have hs0 : s = 0 := by
      obtain ⟨h, hh, hlt⟩ := hs.tall
      by_contra hne
      obtain ⟨k, rfl⟩ : ∃ k, s = k+1 := ⟨s-1, by omega⟩
      rw [heights, List.getElem?_cons_succ] at hh
      obtain ⟨t, ht, rfl⟩ := mem_map.mp (List.mem_of_getElem? hh)
      have := ha.low t ht
      omega
    rw [hc, hs0, newCol, linkCol]
    have hzero : wrapSub 32 (ts.length%2^32) (0%2^32) = 0 := by
      rw [ha.length, ← hN]
      rfl
    rw [hzero]
    exact Function.update_self ..
  refine ⟨z', z.fresh, ?_, ?_, ?_, htail, hlink, ?_⟩
  · apply runMeets_append hrun hprom
    refine ⟨?_, fun _ _ => trivial⟩
    rw [towers_eq hz]
    exact hp
  · rw [runOps_append hrun, runOps, applyOp, hins]
    rfl
  · rw [hlen, hz.length, ha.length]
  · -- a layout would put the new node first, but it points back to another node
    intro us hus
    have hne : ts ≠ [] := by
      rintro rfl
      have := ha.length
      rw [List.length_nil] at this
      omega
    obtain ⟨M, w, hM⟩ := (List.eq_nil_or_concat ts).resolve_left hne
    have hback := ((backward_append z'.heap none ts _).mp hnode.backward).2.1
    rw [hM, List.concat_eq_append, lastAddr_append] at hback
    have hlevel : 1 < z'.level := by
      by_contra hle
      obtain ⟨span, hspan⟩ := hus.above 1 (by omega) (by decide)
      rw [hlink] at hspan
      cases hspan
    have hhead := hus.linked.headerLink hlevel
    rw [hlink, Option.some.injEq, ZskiplistLevel.mk.injEq] at hhead
    obtain ⟨hfwd, hgap⟩ := hhead
    cases hn : next (heights z'.level us) 1 0 with
    | none =>
      rw [hn] at hfwd
      cases hfwd
    | some q =>
      have hq : q = 1 := by
        unfold gap at hgap
        rw [hn, getD_some] at hgap
        omega
      rw [hn, bind_some, hq, addrs_succ] at hfwd
      cases us with
      | nil => cases hfwd
      | cons u us =>
        rw [List.getElem?_cons_zero, map_some, Option.some.injEq] at hfwd
        have hfirst := hus.backward.1
        rw [← hfwd] at hfirst
        rw [hfirst, Option.some.injEq, Prod.mk.injEq, Prod.mk.injEq, Prod.mk.injEq] at hback
        cases hback.2.2.1

end Instances

end RedisCore.Skiplist
