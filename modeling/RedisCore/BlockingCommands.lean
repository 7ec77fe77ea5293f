import RedisCore.BlockingSound

namespace RedisCore.Blocking

variable {α : Type} {ok : Prop} {pend : List Key} {quiet hole : Option Key}

theorem listTypePush_ne_nil (head : Bool) (l : List α) (v : α) : listTypePush head l v ≠ [] := by
  cases head with
  | true => exact List.cons_ne_nil v l
  | false => exact List.append_ne_nil_of_right_ne_nil l (List.cons_ne_nil v [])

theorem pushAll_ne_nil (head : Bool) (vs l : List α) (h : vs ≠ [] ∨ l ≠ []) :
    vs.foldl (listTypePush head) l ≠ [] := by
  induction vs generalizing l with
  | nil => exact h.resolve_left (fun hne => hne rfl)
  | cons v vs ih => exact ih _ (Or.inr (listTypePush_ne_nil head l v))

variable {head : Bool} {l : List α} {s : State α} {key : Key} {c : ClientId}

theorem listTypePop_push {rest : List α} {v : α} (h : listTypePop head l = some (v, rest)) :
    listTypePush head rest v = l := by
  unfold listTypePop at h
  cases head with
  | true =>
    cases l with
    | nil => cases h
    | cons a l =>
      cases h
      rfl
  | false =>
    rw [if_neg Bool.false_ne_true, Option.map_eq_some_iff] at h
    obtain ⟨a, hlast, heq⟩ := h
    cases heq
    exact List.dropLast_append_getLast? v hlast

theorem listTypePop_none (h : listTypePop head l = none) : l = [] := by
  cases l with
  | nil => rfl
  | cons a l =>
    unfold listTypePop at h
    cases head with
    | true => cases h
    | false =>
      rw [if_neg Bool.false_ne_true, Option.map_eq_none_iff, List.getLast?_eq_none_iff] at h
      cases h

theorem sound_push (h : Sound ok pend none none s) (key : Key) (vs : List α) (head : Bool) :
    Sound ok pend none none (pushGenericCommand s key vs head) := by
  unfold pushGenericCommand
  split
  · rename_i l hl
    have hne : l ≠ [] := by
      intro hempty
      apply h.kept key (Option.some_ne_none key)
      rw [hl, hempty]
    apply sound_log
    exact sound_setList h hl (Or.inl (pushAll_ne_nil head vs l (Or.inr hne)))
  · exact h
  · by_cases hvs : vs = []
    · rw [if_pos hvs]
      exact h
    · rw [if_neg hvs]
      apply sound_log
      rw [setList_dbAdd]
      apply sound_dbAdd h
      intro heq
      exact pushAll_ne_nil head vs [] (Or.inl hvs) (Value.list.inj heq)

theorem sound_deliver (h : Sound ok pend none none s) (c : ClientId)
    (hl : s.dict.lookup key = some (.list l)) (v : α) (rest : List α) :
    Sound ok pend none none (deliver s c key v rest) := by
  apply sound_deleteIfEmpty
  apply sound_log
  exact sound_setList (sound_open h none (some key)) hl (Or.inr rfl)

theorem sound_blockingPop (h : Sound ok pend none none s) (d : ℕ) (head multi : Bool)
    (all : List Bytes) (hc : multi = false → s.client c = none)
    (names : List Bytes) (htried : ∀ name ∈ all, name ∈ names ∨ ∀ l, s.dict.lookup (d, name) ≠ some (.list l)) :
    Sound ok pend none none (blockingPopGenericCommand s c d head multi all names) := by
  induction names with
  | nil =>
    unfold blockingPopGenericCommand
    cases multi with
    | true => exact h
    | false =>
      apply sound_block h (hc rfl)
      intro name hname
      exact (htried name hname).resolve_left List.not_mem_nil
  | cons name names ih =>
    -- a name that has no list stays tried
    have hnext : (∀ l, s.dict.lookup (d, name) ≠ some (.list l)) →
        Sound ok pend none none (blockingPopGenericCommand s c d head multi all names) := by
      intro hname
      apply ih
      intro x hx
      cases htried x hx with
      | inr hnone => exact Or.inr hnone
      | inl hmem =>
        cases List.mem_cons.mp hmem with
        | inl heq => exact Or.inr (heq ▸ hname)
        | inr hrest => exact Or.inl hrest
    unfold blockingPopGenericCommand
    split
    · rename_i hl
      apply hnext
      intro l hlist
      rw [hl] at hlist
      cases hlist
    · rename_i l hl
      split
      · exact sound_deliver h c hl _ _
      · rename_i hpop
        apply absurd hl
        rw [listTypePop_none hpop]
        exact h.kept (d, name) (Option.some_ne_none _)
    · exact h

theorem sound_handlePush (h : Sound ok pend quiet hole s) (dst : Key) (v : α) :
    Sound ok pend quiet hole (rpoplpushHandlePush s dst v) := by
  unfold rpoplpushHandlePush
  split
  · rename_i l hl
    exact sound_setList h hl (Or.inl (listTypePush_ne_nil true l v))
  · exact h
  · rw [setList_dbAdd]
    apply sound_dbAdd h
    intro heq
    exact List.cons_ne_nil v [] (Value.list.inj heq)

theorem sound_rpoplpush (h : Sound ok pend none none s) {src : Key}
    (hl : s.dict.lookup src = some (.list l)) (dst : Key) :
    Sound ok pend none none (rpoplpushCommand s src dst l) := by
  unfold rpoplpushCommand
  split
  · exact h
  · by_cases hwrong : wrongType s dst = true
    · rw [if_pos hwrong]
      exact h
    · rw [if_neg hwrong]
      apply sound_deleteIfEmpty
      apply sound_handlePush
      exact sound_setList (sound_open h none (some src)) hl (Or.inr rfl)

theorem sound_brpoplpush (h : Sound ok pend none none s) (d : ℕ) (multi : Bool)
    (hc : multi = false → s.client c = none) (src dst : Bytes) :
    Sound ok pend none none (brpoplpushCommand s c d multi src dst) := by
  unfold brpoplpushCommand
  split
  · rename_i hnone
    cases multi with
    | true => exact h
    | false =>
      apply sound_block h (hc rfl)
      intro name hname l hl
      rw [List.mem_singleton.mp hname, hnone] at hl
      cases hl
  · rename_i l hl
    exact sound_rpoplpush h hl (d, dst)
  · exact h

theorem sound_del (h : Sound ok pend none none s) (d : ℕ) (names : List Bytes) :
    Sound ok pend none none (names.foldl (fun s name => dbDelete s (d, name)) s) := by
  induction names generalizing s with
  | nil => exact h
  | cons name names ih => exact ih (sound_dbDelete h (d, name))

theorem sound_rename (h : Sound ok pend none none s) (d : ℕ) (src dst : Bytes) :
    Sound ok pend none none (renameGenericCommand s d src dst) := by
  unfold renameGenericCommand
  split
  · exact h
  · rename_i v hv
    by_cases hsame : src = dst
    · rw [if_pos hsame]
      exact h
    · rw [if_neg hsame]
      apply sound_erase
      apply sound_dbAdd (sound_dbDelete h (d, dst))
      intro hempty
      apply h.kept (d, src) (Option.some_ne_none _)
      rw [hv, hempty]

def Free (s : State α) (key : Key) : Prop :=
  s.dict.lookup key = none ∨ waiting s key = [] ∨ key ∈ s.readyKeys

theorem sound_setKey (h : Sound ok pend none none s) (key : Key) {v : Value α}
    (hv : v ≠ .list []) (hfree : ok → v.isList = true → Free s key) :
    Sound ok pend none none (setKey s key v) := by
  unfold setKey
  cases hlookup : s.dict.lookup key with
  | none => exact sound_dbAdd h key hv
  | some old =>
    apply sound_insert h key s.pushed _ (Or.inl hv)
    intro hok l _ hlist hwaiting
    have hcond := hfree hok (by rw [hlist]; rfl)
    unfold Free at hcond
    rw [hlookup] at hcond
    cases hcond with
    | inl hnone => cases hnone
    | inr hrest =>
      cases hrest with
      | inl hempty => exact absurd hempty hwaiting
      | inr hqueued => exact h.ready.mem_iff.mpr (List.mem_append_right pend hqueued)

theorem sound_sortStore (h : Sound ok pend none none s) (key : Key) (out : List α)
    (hfree : ok → out ≠ [] → Free s key) : Sound ok pend none none (sortStoreCommand s key out) := by
  unfold sortStoreCommand
  by_cases hout : out = []
  · rw [if_pos hout]
    exact sound_dbDelete h key
  · rw [if_neg hout]
    apply sound_log
    apply sound_setKey h key (fun heq => hout (Value.list.inj heq))
    intro hok _
    exact hfree hok hout

theorem sound_zadd (h : Sound ok pend none none s) (key : Key) :
    Sound ok pend none none (zaddCommand s key) := by
  unfold zaddCommand
  cases s.dict.lookup key with
  | none =>
    have hzset : (Value.zset : Value α) ≠ .list [] := by
      intro heq
      cases heq
    exact sound_dbAdd h key hzset
  | some v => exact h

theorem swap_dlookup (i j : ℕ) (key : Key) (entries : List (Sigma (fun _ : Key => Value α))) :
    (entries.map (swapEntry i j)).dlookup key = entries.dlookup (swapKey i j key) := by
  induction entries with
  | nil => rfl
  | cons e entries ih =>
    rw [List.map_cons]
    by_cases hkey : swapKey i j key = e.1
    · have hback : key = (swapEntry i j e).1 := by
        unfold swapEntry
        rw [← hkey, swapKey_swapKey]
      have hleft : (swapEntry i j e :: entries.map (swapEntry i j)).dlookup key = some e.2 := by
        subst hback
        exact List.dlookup_cons_eq _ _ _
      have hright : (e :: entries).dlookup (swapKey i j key) = some e.2 := by
        rw [hkey]
        exact List.dlookup_cons_eq _ _ _
      rw [hleft, hright]
    · have hback : key ≠ (swapEntry i j e).1 := by
        intro heq
        apply hkey
        rw [heq]
        exact swapKey_swapKey i j e.1
      rw [List.dlookup_cons_ne _ _ hback, List.dlookup_cons_ne _ _ hkey, ih]

theorem swap_lookup (i j : ℕ) (dict : AList (fun _ : Key => Value α)) (key : Key) :
    (swapDict i j dict).lookup key = dict.lookup (swapKey i j key) := swap_dlookup i j key dict.entries

theorem heard_scanKey (d : ℕ) (s : State α) (key : Key) : Heard s (scanKey d s key) := by
  unfold scanKey
  by_cases hd : key.1 = d
  · rw [if_pos hd]
    split
    · exact heard_signal s key
    · exact heard_signal s key
    · exact heard_refl s
    · exact heard_refl s
  · rw [if_neg hd]
    exact heard_refl s

theorem heard_scan (d : ℕ) (keys : List Key) (s : State α) : Heard s (keys.foldl (scanKey d) s) := by
  induction keys generalizing s with
  | nil => exact heard_refl s
  | cons key keys ih => exact heard_trans (heard_scanKey d s key) (ih _)

theorem scan_queued (d : ℕ) (keys : List Key) (s : State α) (hkey : key ∈ keys) (hd : key.1 = d)
    (hl : s.dict.lookup key = some (.list l)) (hwaiting : waiting s key ≠ []) :
    key ∈ (keys.foldl (scanKey d) s).readyDict := by
  induction keys generalizing s with
  | nil => cases hkey
  | cons first keys ih =>
    rw [List.foldl_cons]
    have hheard := heard_scanKey d s first
    by_cases hfirst : key = first
    · subst hfirst
      apply (heard_scan d keys _).readyDict
      unfold scanKey
      rw [if_pos hd, hl]
      exact signal_queued s hwaiting
    · apply ih
      · exact (List.mem_cons.mp hkey).resolve_left hfirst
      · rw [hheard.dict]
        exact hl
      · rw [heard_waiting hheard]
        exact hwaiting

theorem sound_scan (d : ℕ) (keys : List Key) (h : Sound ok pend quiet hole s) :
    Sound ok pend quiet hole (keys.foldl (scanKey d) s) := by
  induction keys generalizing s with
  | nil => exact h
  | cons key keys ih =>
    apply ih
    unfold scanKey
    by_cases hd : key.1 = d
    · rw [if_pos hd]
      split
      · exact sound_signal h key
      · exact sound_signal h key
      · exact h
      · exact h
    · rw [if_neg hd]
      exact h

theorem mem_scanOrder (s : State α) (order : List Key) (h : waiting s key ≠ []) :
    key ∈ scanOrder s order := by
  have hkeys : key ∈ s.blockingKeys.keys := by
    by_contra hnot
    apply h
    unfold waiting
    rw [AList.lookup_eq_none.mpr hnot, Option.getD_none]
  unfold scanOrder
  by_cases horder : key ∈ order
  · apply List.mem_append_left
    exact List.mem_dedup.mpr (List.mem_filter.mpr ⟨horder, decide_eq_true hkeys⟩)
  · apply List.mem_append_right
    exact List.mem_filter.mpr ⟨hkeys, decide_eq_true horder⟩

theorem sound_swapdb (h : Sound ok pend none none s) (i j : ℕ) (order : List Key) :
    Sound ok pend none none (dbSwapDatabases s i j order) := by
  unfold dbSwapDatabases
  by_cases hij : i = j
  · rw [if_pos hij]
    exact h
  rw [if_neg hij]
  have hswapped : Sound False pend none none { s with dict := swapDict i j s.dict } := by
    apply sound_dict (sound_silent h) _ s.pushed s.delivered s.dropped False.elim
    intro key _ hl
    rw [swap_lookup] at hl
    exact h.kept _ (Option.some_ne_none _) hl
  generalize hs1 : { s with dict := swapDict i j s.dict } = s1 at hswapped
  have hdict : s1.dict = swapDict i j s.dict := by rw [← hs1]
  have hready : s1.readyDict = s.readyDict := by rw [← hs1]
  have hwaiting1 : ∀ key, waiting s1 key = waiting s key := by
    intro key
    rw [← hs1]
    rfl
  have hfirst : Heard s1 (scanDatabaseForReadyLists i order s1) := heard_scan i _ s1
  have hsecond : Heard (scanDatabaseForReadyLists i order s1)
      (scanDatabaseForReadyLists j order (scanDatabaseForReadyLists i order s1)) := heard_scan j _ _
  have hsound : Sound False pend none none
      (scanDatabaseForReadyLists j order (scanDatabaseForReadyLists i order s1)) :=
    sound_scan j _ (sound_scan i _ hswapped)
  refine { hsound with signalled := ?_ }
  intro hok key l _ hl hwaiting
  have hheard := heard_trans hfirst hsecond
  rw [heard_waiting hheard] at hwaiting
  rw [hheard.dict] at hl
  by_cases hi : key.1 = i
  · apply hsecond.readyDict
    exact scan_queued i _ s1 (mem_scanOrder s1 order hwaiting) hi hl hwaiting
  by_cases hj : key.1 = j
  · rw [← hfirst.dict] at hl
    rw [← heard_waiting hfirst] at hwaiting
    exact scan_queued j _ _ (mem_scanOrder _ order hwaiting) hj hl hwaiting
  · -- a key of another database
    apply hheard.readyDict
    have hsame : swapKey i j key = key := Prod.ext (Equiv.swap_apply_of_ne_of_ne hi hj) rfl
    rw [hdict, swap_lookup, hsame] at hl
    rw [hwaiting1] at hwaiting
    rw [hready]
    exact h.signalled hok key l (Option.some_ne_none _) hl hwaiting

def Announced (s : State α) (cmd : ℕ × Command α) : Prop :=
  match cmd.2 with
  | .push _ _ _ => True
  | .blockingPop _ _ => True
  | .brpoplpush _ _ => True
  | .del _ => True
  | .rename _ _ => True
  | .swapdb _ _ _ => True
  | .set _ => True
  | .zadd _ => True
  | .sortStore dst out => out ≠ [] → Free s (cmd.1, dst)

theorem sound_runCommand (h : Sound ok pend none none s) (c : ClientId) (multi : Bool)
    (hc : multi = false → s.client c = none) (cmd : ℕ × Command α) (hcmd : ok → Announced s cmd) :
    Sound ok pend none none (runCommand c multi s cmd) := by
  obtain ⟨d, command⟩ := cmd
  cases command with
  | push head name vs => exact sound_push h (d, name) vs head
  | blockingPop head names =>
    exact sound_blockingPop h d head multi names hc names (fun _ hname => Or.inl hname)
  | brpoplpush src dst => exact sound_brpoplpush h d multi hc src dst
  | del names => exact sound_del h d names
  | rename src dst => exact sound_rename h d src dst
  | swapdb i j order => exact sound_swapdb h i j order
  | set name =>
    apply sound_setKey h (d, name)
    · intro heq
      cases heq
    · intro _ hlist
      cases hlist
  | zadd name => exact sound_zadd h (d, name)
  | sortStore dst out => exact sound_sortStore h (d, dst) out hcmd

end RedisCore.Blocking
