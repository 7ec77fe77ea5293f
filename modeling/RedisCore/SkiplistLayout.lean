import RedisCore.SkiplistSearch

/-! The layout of a skip list over its sorted sequence of towers: every level linked with exact
spans, backward pointers and tail along level 0, length and level, and addresses in use once. -/

namespace RedisCore.Skiplist
open RedisCore.SkipIndex

structure Tower (S : Type) where
  ele : Bytes
  score : S
  height : ℕ
  addr : ℕ
deriving DecidableEq, Repr

variable {S : Type}

def addrs (ts : List (Tower S)) : List ℕ := header :: ts.map Tower.addr

def heights (n : ℕ) (ts : List (Tower S)) : List ℕ := n :: ts.map Tower.height

@[simp] theorem addrs_append (L R : List (Tower S)) :
    addrs (L ++ R) = addrs L ++ R.map Tower.addr := by
  simp [addrs]

@[simp] theorem heights_append (n : ℕ) (L R : List (Tower S)) :
    heights n (L ++ R) = heights n L ++ R.map Tower.height := by
  simp [heights]

@[simp] theorem length_addrs (ts : List (Tower S)) : (addrs ts).length = ts.length+1 := by
  simp [addrs]

@[simp] theorem length_heights (n : ℕ) (ts : List (Tower S)) :
    (heights n ts).length = ts.length+1 := by
  simp [heights]

theorem length_addrs_eq (n : ℕ) (ts : List (Tower S)) :
    (addrs ts).length = (heights n ts).length := by simp

def Linked (heap : Heap S) (n : ℕ) (ts : List (Tower S)) : Prop :=
  ∀ i, LinkedAt (col heap i) (addrs ts) (heights n ts) i

def Backward (heap : Heap S) : Option ℕ → List (Tower S) → Prop
  | _, [] => True
  | b, t :: ts => body heap t.addr = some (some t.ele, t.score, b, t.height) ∧
      Backward heap (some t.addr) ts

def lastAddr : Option ℕ → List (Tower S) → Option ℕ
  | b, [] => b
  | _, t :: ts => lastAddr (some t.addr) ts

theorem lastAddr_append (b : Option ℕ) (L R : List (Tower S)) :
    lastAddr b (L ++ R) = lastAddr (lastAddr b L) R := by
  induction L generalizing b with
  | nil => rfl
  | cons t L ih => exact ih (some t.addr)

theorem lastAddr_cons_eq (b b' : Option ℕ) (t : Tower S) (ts : List (Tower S)) :
    lastAddr b (t :: ts) = lastAddr b' (t :: ts) := rfl

theorem backward_append (heap : Heap S) (b : Option ℕ) (L R : List (Tower S)) :
    Backward heap b (L ++ R) ↔ Backward heap b L ∧ Backward heap (lastAddr b L) R := by
  induction L generalizing b with
  | nil => simp [Backward, lastAddr]
  | cons t L ih => simp [Backward, lastAddr, ih, and_assoc]

variable {heap : Heap S} {b : Option ℕ} {ts L : List (Tower S)} {z : Zskiplist S} {w s : ℕ}
  {go : ZskiplistNode S → ℕ → Bool} {goT : Tower S → ℕ → Bool}

theorem Backward.frame {heap' : Heap S} (h : Backward heap b ts)
    (hsame : ∀ t ∈ ts, body heap' t.addr = body heap t.addr) :
    Backward heap' b ts := by
  induction ts generalizing b with
  | nil => trivial
  | cons t ts ih =>
    refine ⟨?_, ?_⟩
    · rw [hsame t (by simp)]
      exact h.1
    · exact ih h.2 (fun t' ht' => hsame t' (by simp [ht']))

theorem Backward.body {t : Tower S} (h : Backward heap b ts) (ht : t ∈ ts) :
    ∃ b', body heap t.addr = some (some t.ele, t.score, b', t.height) := by
  induction ts generalizing b with
  | nil => simp at ht
  | cons t' ts ih =>
    rcases List.mem_cons.mp ht with rfl | ht'
    · exact ⟨b, h.1⟩
    · exact ih h.2 ht'

structure LevelOk (n : ℕ) (ts : List (Tower S)) : Prop where
  pos : 1 ≤ n
  cap : n ≤ zskiplistMaxlevel
  bound : ∀ t ∈ ts, 1 ≤ t.height ∧ t.height ≤ n
  reached : n = 1 ∨ ∃ t ∈ ts, t.height = n

structure Layout (z : Zskiplist S) (ts : List (Tower S)) : Prop where
  linked : Linked z.heap z.level ts
  above : ∀ i, z.level ≤ i → i < zskiplistMaxlevel →
    ∃ span, col z.heap i header = some ⟨none, span⟩
  head : ∃ s, body z.heap header = some (none, s, none, zskiplistMaxlevel)
  backward : Backward z.heap none ts
  level : LevelOk z.level ts
  tail : z.tail = lastAddr none ts
  length : z.length = ts.length
  nodup : (addrs ts).Nodup
  fresh : ∀ x ∈ addrs ts, x < z.fresh
  room : ts.length < 2^64-1

theorem Layout.length_le_fresh (hz : Layout z ts) : ts.length+1 ≤ z.fresh := by
  have hsub : addrs ts ⊆ List.range z.fresh := by
    intro x hx
    exact List.mem_range.mpr (hz.fresh x hx)
  have hle := (hz.nodup.subperm hsub).length_le
  rw [length_addrs, List.length_range] at hle
  exact hle

theorem Layout.heights_pos (hz : Layout z ts) : ∀ y ∈ heights z.level ts, 0 < y := by
  intro y hy
  rcases List.mem_cons.mp hy with rfl | hy'
  · exact hz.level.pos
  · obtain ⟨t, ht, rfl⟩ := List.mem_map.mp hy'
    exact (hz.level.bound t ht).1

theorem layout_zslCreate [Zero S] : Layout (zslCreate : Zskiplist S) [] := by
  have hmax : 1 ≤ zskiplistMaxlevel := by decide
  have hroom : 0 < 2^64-1 := by decide
  refine ⟨?_, ?_, ⟨0, rfl⟩, trivial, ⟨le_refl 1, hmax, by simp, Or.inl rfl⟩, rfl, rfl,
    by simp [addrs], ?_, hroom⟩
  · intro i r x h hx hh hi
    cases r with
    | zero =>
      simp only [addrs, heights, List.getElem?_cons_zero, Option.some.injEq] at hx hh
      subst hx hh
      have hi0 : i = 0 := by
        have hlt : i < 1 := hi
        omega
      subst hi0
      rfl
    | succ r => simp [addrs] at hx
  · intro i _ hi
    refine ⟨0, ?_⟩
    unfold col zslCreate storeNode zslCreateNode
    simp [hi]
  · intro x hx
    simp only [addrs, List.map_nil, List.mem_singleton] at hx
    subst hx
    show header < header+1
    omega

def Reads (go : ZskiplistNode S → ℕ → Bool) (goT : Tower S → ℕ → Bool) : Prop :=
  ∀ n t r, n.ele = some t.ele → n.score = t.score → go n r = goT t r

structure Preds (n : ℕ) (L : List (Tower S)) (ss : List ℕ) : Prop where
  first : ss[0]? = some L.length
  last : ∀ i < n, ∃ s, ss[i]? = some s ∧ LastTall (heights n L) i s

theorem Layout.tests (hz : Layout z ts) (hgo : Reads go goT) :
    Tests z.heap w go (addrs ts) (fun q => (ts[q-1]?).any (fun t => goT t (q%2^w))) := by
  intro q y hq hy
  have hq1 : q = (q-1)+1 := by omega
  rw [hq1, addrs, List.getElem?_cons_succ, List.getElem?_map, Option.map_eq_some_iff] at hy
  obtain ⟨t, ht, rfl⟩ := hy
  obtain ⟨b, hb⟩ := hz.backward.body (List.mem_of_getElem? ht)
  obtain ⟨n, -, hd, he, hs, -⟩ := deref_of_body hb
  refine ⟨n, hd, ?_⟩
  dsimp only
  rw [ht, Option.any_some, hgo n t _ he hs]

structure Found (z : Zskiplist S) (ts : List (Tower S)) (w : ℕ) (goT : Tower S → ℕ → Bool)
    (L R : List (Tower S)) (ss : List ℕ) : Prop where
  split : ts = L ++ R
  preds : Preds z.level L ss
  length : ss.length = z.level
  passed : ∀ t, L.getLast? = some t → goT t (L.length%2^w) = true
  stop : ∀ t, R.head? = some t → goT t ((L.length+1)%2^w) = false

theorem place_left {R : List (Tower S)} (hs : s ≤ L.length) :
    place (addrs (L ++ R)) w s = place (addrs L) w s := by
  unfold place
  rw [addrs_append, List.getD_append _ _ _ _ (by simp; omega)]

theorem Preds.le {n : ℕ} {i : ℕ} (h : LastTall (heights n L) i s) : s ≤ L.length := by
  have := h.lt
  simp at this
  omega

theorem zslSearch_ok (hz : Layout z ts) (w : ℕ) (hgo : Reads go goT) :
    ∃ L R ss, zslSearch z w go = .ok (ss.map (place (addrs L) w)) ∧ Found z ts w goT L R ss := by
  have hfresh := hz.length_le_fresh
  obtain ⟨ss, hrun, hstops⟩ := zslDescend_ok (n := z.level) (r := 0) (h := z.level)
    (J := fun _ => True) (length_addrs_eq z.level ts) hz.linked (hz.tests (w := w) hgo)
    (f := z.fresh) (by simp; omega) (by simp) trivial (x := header) rfl rfl (le_refl _)
  obtain ⟨s0, hends⟩ := hstops.ends hz.level.pos hz.heights_pos
  have hlt : s0 ≤ ts.length := by
    have := hends.lt
    simp at this
    omega
  have hlen : (ts.take s0).length = s0 := by
    rw [List.length_take]
    omega
  have htake : (heights z.level ts).take (s0+1) = heights z.level (ts.take s0) := by
    simp [heights, List.map_take]
  have hlast : ∀ i s, ss[i]? = some s → LastTall (heights z.level (ts.take s0)) i s := by
    intro i s hs
    rw [← htake]
    exact hends.last i s hs
  refine ⟨ts.take s0, ts.drop s0, ss, ?_, (List.take_append_drop s0 ts).symm, ⟨?_, ?_⟩,
    hends.length, ?_, ?_⟩
  · unfold zslSearch
    rw [Nat.zero_mod] at hrun
    rw [hrun]
    congr 1
    apply List.map_congr_left
    intro s hs
    obtain ⟨i, hi⟩ := List.mem_iff_getElem?.mp hs
    have hle := Preds.le (hlast i s hi)
    have hleft := place_left (R := ts.drop s0) (w := w) hle
    rw [List.take_append_drop] at hleft
    exact hleft
  · rw [hlen]
    exact hends.first
  · intro i hi
    have his : i < ss.length := by
      rw [hends.length]
      exact hi
    exact ⟨ss[i], List.getElem?_eq_getElem his, hlast i _ (List.getElem?_eq_getElem his)⟩
  · intro t ht
    rcases hends.passed with hzero | hp
    · rw [hzero] at ht
      simp at ht
    · rw [List.getLast?_eq_getElem?, hlen] at ht
      have hs0 : 0 < s0 := by
        by_contra h0
        have : s0 = 0 := by omega
        subst this
        simp at ht
      rw [List.getElem?_take_of_lt (by omega)] at ht
      rw [ht, Option.any_some] at hp
      rw [hlen]
      exact hp
  · intro t ht
    rw [List.head?_drop] at ht
    obtain ⟨hlt', -⟩ := List.getElem?_eq_some_iff.mp ht
    have hstop := hends.stop (by simp; omega)
    rw [Nat.add_sub_cancel, ht, Option.any_some] at hstop
    rw [hlen]
    exact hstop

end RedisCore.Skiplist
