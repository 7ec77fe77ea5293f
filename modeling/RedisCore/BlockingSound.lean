import RedisCore.BlockingLinks

namespace RedisCore.Blocking

variable {α : Type} {ok : Prop} {pend : List Key} {quiet hole : Option Key}

def Service.Fair (e : Service α) : Prop := (∀ t ∈ e.others, e.since < t) ∧ (e.failed = true → e.after = e.before)

structure Sound (ok : Prop) (pend : List Key) (quiet hole : Option Key) (s : State α) : Prop where
  linked : Linked s.blockingKeys s.client s.clock
  queued : (pend ++ s.readyKeys).Nodup
  ready : s.readyDict.Perm (pend ++ s.readyKeys)
  signalled : ok → ∀ key l, some key ≠ quiet → s.dict.lookup key = some (.list l) → waiting s key ≠ [] →
    key ∈ s.readyDict
  kept : ∀ key, some key ≠ hole → s.dict.lookup key ≠ some (.list [])
  fair : ∀ e ∈ s.services, e.Fair

theorem sound_initState : Sound ok [] none none (initState : State α) := by
  refine ⟨linked_empty, List.nodup_nil, List.Perm.refl _, ?_, ?_, ?_⟩
  · intro _ key l _ hl
    cases hl
  · intro key _ hl
    cases hl
  · intro e he
    cases he

variable {s s' : State α} {key : Key} {v : Value α}

theorem sound_dict (h : Sound ok pend quiet hole s) {quiet' hole' : Option Key}
    (dict : AList (fun _ : Key => Value α)) (pushed : Multiset α) (delivered : List (ClientId × α))
    (dropped : Multiset α)
    (hsignalled : ok → ∀ key l, some key ≠ quiet' → dict.lookup key = some (.list l) → waiting s key ≠ [] →
      key ∈ s.readyDict)
    (hkept : ∀ key, some key ≠ hole' → dict.lookup key ≠ some (.list [])) :
    Sound ok pend quiet' hole'
      { s with dict := dict, pushed := pushed, delivered := delivered, dropped := dropped } where
  linked := h.linked
  queued := h.queued
  ready := h.ready
  signalled := hsignalled
  kept := hkept
  fair := h.fair

theorem sound_log (h : Sound ok pend quiet hole s) (pushed : Multiset α)
    (delivered : List (ClientId × α)) (dropped : Multiset α) :
    Sound ok pend quiet hole { s with pushed := pushed, delivered := delivered, dropped := dropped } :=
  sound_dict h s.dict pushed delivered dropped h.signalled h.kept

theorem sound_silent (h : Sound ok pend quiet hole s) : Sound False pend quiet hole s where
  linked := h.linked
  queued := h.queued
  ready := h.ready
  signalled := False.elim
  kept := h.kept
  fair := h.fair

theorem sound_open (h : Sound ok pend none none s) (quiet hole : Option Key) :
    Sound ok pend quiet hole s where
  linked := h.linked
  queued := h.queued
  ready := h.ready
  signalled := fun hok key l _ => h.signalled hok key l (Option.some_ne_none key)
  kept := fun key _ => h.kept key (Option.some_ne_none key)
  fair := h.fair

theorem sound_close (h : Sound ok pend quiet (some key) s)
    (hkey : s.dict.lookup key ≠ some (.list [])) : Sound ok pend quiet none s := by
  refine { h with kept := ?_ }
  intro k _
  by_cases hk : k = key
  · rw [hk]
    exact hkey
  · exact h.kept k (fun heq => hk (Option.some.inj heq))

theorem sound_heard (h : Sound ok pend (some key) hole s)
    (hkey : ok → ∀ l, s.dict.lookup key = some (.list l) → waiting s key ≠ [] → key ∈ s.readyDict) :
    Sound ok pend none hole s := by
  refine { h with signalled := ?_ }
  intro hok k l _ hl hwaiting
  by_cases hk : k = key
  · rw [hk] at hl hwaiting ⊢
    exact hkey hok l hl hwaiting
  · exact h.signalled hok k l (fun heq => hk (Option.some.inj heq)) hl hwaiting

structure Heard (s s' : State α) : Prop where
  dict : s'.dict = s.dict
  blockingKeys : s'.blockingKeys = s.blockingKeys
  readyDict : s.readyDict ⊆ s'.readyDict

theorem heard_refl (s : State α) : Heard s s := ⟨rfl, rfl, List.Subset.refl _⟩

theorem heard_trans {s'' : State α} (h : Heard s s') (h' : Heard s' s'') : Heard s s'' :=
  ⟨h'.dict.trans h.dict, h'.blockingKeys.trans h.blockingKeys, List.Subset.trans h.readyDict h'.readyDict⟩

theorem heard_waiting (h : Heard s s') (key : Key) : waiting s' key = waiting s key := by
  unfold waiting
  rw [h.blockingKeys]

theorem heard_signal (s : State α) (key : Key) : Heard s (signalKeyAsReady s key) := by
  unfold signalKeyAsReady
  by_cases hnone : s.blockingKeys.lookup key = none
  · rw [if_pos hnone]
    exact heard_refl s
  rw [if_neg hnone]
  by_cases hmem : key ∈ s.readyDict
  · rw [if_pos hmem]
    exact heard_refl s
  · rw [if_neg hmem]
    exact ⟨rfl, rfl, List.subset_append_left _ _⟩

theorem signal_queued (s : State α) (hwaiting : waiting s key ≠ []) :
    key ∈ (signalKeyAsReady s key).readyDict := by
  have hsome : s.blockingKeys.lookup key ≠ none := by
    intro hnone
    apply hwaiting
    unfold waiting
    rw [hnone, Option.getD_none]
  unfold signalKeyAsReady
  rw [if_neg hsome]
  by_cases hmem : key ∈ s.readyDict
  · rw [if_pos hmem]
    exact hmem
  · rw [if_neg hmem]
    exact List.mem_append_right _ (List.mem_singleton.mpr rfl)

theorem sound_signal (h : Sound ok pend quiet hole s) (key : Key) :
    Sound ok pend quiet hole (signalKeyAsReady s key) := by
  have hheard := heard_signal s key
  have hsignalled : ok → ∀ k l, some k ≠ quiet →
      (signalKeyAsReady s key).dict.lookup k = some (.list l) → waiting (signalKeyAsReady s key) k ≠ [] →
        k ∈ (signalKeyAsReady s key).readyDict := by
    intro hok k l hk hl hwaiting
    rw [hheard.dict] at hl
    rw [heard_waiting hheard] at hwaiting
    exact hheard.readyDict (h.signalled hok k l hk hl hwaiting)
  unfold signalKeyAsReady at hsignalled ⊢
  by_cases hnone : s.blockingKeys.lookup key = none
  · rw [if_pos hnone]
    exact h
  rw [if_neg hnone] at hsignalled ⊢
  by_cases hmem : key ∈ s.readyDict
  · rw [if_pos hmem]
    exact h
  rw [if_neg hmem] at hsignalled ⊢
  refine { h with queued := ?_, ready := ?_, signalled := hsignalled }
  · -- a key that was not queued is new in the lists
    have hnew : key ∉ pend ++ s.readyKeys := fun hold => hmem (h.ready.mem_iff.mpr hold)
    have hnodup : (pend ++ s.readyKeys ++ [key]).Nodup :=
      List.nodup_append_comm.mp (List.nodup_cons.mpr ⟨hnew, h.queued⟩)
    rw [List.append_assoc] at hnodup
    exact hnodup
  · have hperm := h.ready.append_right [key]
    rw [List.append_assoc] at hperm
    exact hperm

theorem lookup_insert_eq (dict : AList (fun _ : Key => Value α)) (key k : Key) (v : Value α) :
    (dict.insert key v).lookup k = if k = key then some v else dict.lookup k := by
  by_cases hk : k = key
  · subst hk
    rw [if_pos rfl, AList.lookup_insert]
  · rw [if_neg hk, AList.lookup_insert_ne hk]

theorem lookup_erase_eq (dict : AList (fun _ : Key => Value α)) (key k : Key) :
    (dict.erase key).lookup k = if k = key then none else dict.lookup k := by
  by_cases hk : k = key
  · subst hk
    rw [if_pos rfl, AList.lookup_erase]
  · rw [if_neg hk, AList.lookup_erase_ne hk]

theorem sound_erase (h : Sound ok pend quiet hole s) (key : Key) (dropped : Multiset α) :
    Sound ok pend quiet hole { s with dict := s.dict.erase key, dropped := dropped } := by
  apply sound_dict h
  · intro hok k l hk hl hwaiting
    rw [lookup_erase_eq] at hl
    by_cases hkey : k = key
    · rw [if_pos hkey] at hl
      cases hl
    · rw [if_neg hkey] at hl
      exact h.signalled hok k l hk hl hwaiting
  · intro k hk hl
    rw [lookup_erase_eq] at hl
    by_cases hkey : k = key
    · rw [if_pos hkey] at hl
      cases hl
    · rw [if_neg hkey] at hl
      exact h.kept k hk hl

theorem sound_dbDelete (h : Sound ok pend quiet hole s) (key : Key) :
    Sound ok pend quiet hole (dbDelete s key) := sound_erase h key _

theorem sound_insert (h : Sound ok pend quiet hole s) (key : Key) (pushed : Multiset α)
    (dropped : Multiset α) (hv : v ≠ .list [] ∨ hole = some key)
    (hqueued : ok → ∀ l, some key ≠ quiet → v = .list l → waiting s key ≠ [] → key ∈ s.readyDict) :
    Sound ok pend quiet hole
      { s with dict := s.dict.insert key v, pushed := pushed, dropped := dropped } := by
  apply sound_dict h
  · intro hok k l hk hl hwaiting
    rw [lookup_insert_eq] at hl
    by_cases hkey : k = key
    · rw [if_pos hkey] at hl
      rw [hkey] at hk hwaiting ⊢
      exact hqueued hok l hk (Option.some.inj hl) hwaiting
    · rw [if_neg hkey] at hl
      exact h.signalled hok k l hk hl hwaiting
  · intro k hk hl
    rw [lookup_insert_eq] at hl
    by_cases hkey : k = key
    · rw [if_pos hkey] at hl
      cases hv with
      | inl hne => exact hne (Option.some.inj hl)
      | inr hhole => exact hk (hkey ▸ hhole.symm)
    · rw [if_neg hkey] at hl
      exact h.kept k hk hl

theorem sound_setList (h : Sound ok pend quiet hole s) {l : List α}
    (hl : s.dict.lookup key = some (.list l)) {l' : List α} (hl' : l' ≠ [] ∨ hole = some key) :
    Sound ok pend quiet hole (setList s key l') := by
  apply sound_insert h key s.pushed s.dropped
  · apply hl'.imp_left
    intro hne heq
    exact hne (Value.list.inj heq)
  · intro hok _ hk _ hwaiting
    exact h.signalled hok key l hk hl hwaiting

theorem setList_lookup (s : State α) (key k : Key) (l : List α) :
    (setList s key l).dict.lookup k = if k = key then some (.list l) else s.dict.lookup k :=
  lookup_insert_eq s.dict key k (.list l)

theorem sound_add (h : Sound ok pend quiet hole s) (key : Key) (hv : v ≠ .list []) : Sound ok pend
    quiet hole (signalKeyAsReady { s with dict := s.dict.insert key v } key) := by
  have hheard := heard_signal s key
  -- the signal does not look at the table, and may as well come first
  have hswap : signalKeyAsReady { s with dict := s.dict.insert key v } key =
      { signalKeyAsReady s key with dict := (signalKeyAsReady s key).dict.insert key v } := by
    rw [hheard.dict]
    unfold signalKeyAsReady
    by_cases hnone : s.blockingKeys.lookup key = none
    · rw [if_pos hnone, if_pos hnone]
    rw [if_neg hnone, if_neg hnone]
    by_cases hmem : key ∈ s.readyDict
    · rw [if_pos hmem, if_pos hmem]
    · rw [if_neg hmem, if_neg hmem]
  rw [hswap]
  apply sound_insert (sound_signal h key) key _ _ (Or.inl hv)
  intro _ l _ _ hwaiting
  rw [heard_waiting hheard] at hwaiting
  exact signal_queued s hwaiting

theorem sound_dbAdd (h : Sound ok pend quiet hole s) (key : Key) (hv : v ≠ .list []) : Sound ok
    pend quiet hole (dbAdd s key v) := by
  cases v with
  | list l => exact sound_add h key hv
  | zset => exact sound_add h key hv
  | string =>
    apply sound_insert h key s.pushed s.dropped (Or.inl hv)
    intro _ l _ hstring
    cases hstring

theorem setList_dbAdd (s : State α) (key : Key) (l : List α) :
    setList (dbAdd s key (.list [])) key l = dbAdd s key (.list l) := by
  unfold setList dbAdd signalKeyAsReady
  by_cases hnone : s.blockingKeys.lookup key = none
  · simp only [hnone, if_true, AList.insert_insert]
  by_cases hmem : key ∈ s.readyDict
  · simp only [hnone, if_false, hmem, if_true, AList.insert_insert]
  · simp only [hnone, if_false, hmem, AList.insert_insert]

theorem sound_deleteIfEmpty (h : Sound ok pend quiet (some key) s) :
    Sound ok pend quiet none (deleteIfEmpty s key) := by
  unfold deleteIfEmpty
  split
  · apply sound_close (sound_dbDelete h key)
    intro hl
    rw [show (dbDelete s key).dict = s.dict.erase key from rfl, AList.lookup_erase] at hl
    cases hl
  · rename_i hne
    exact sound_close h hne

theorem sound_block (h : Sound ok pend quiet hole s) {c : ClientId} (hc : s.client c = none)
    (d : ℕ) (names : List Bytes) (target : Option Bytes) (head : Bool)
    (hnames : ∀ name ∈ names, ∀ l, s.dict.lookup (d, name) ≠ some (.list l)) :
    Sound ok pend quiet hole (blockForKeys s c d names target head) := by
  have hlinked := linked_block h.linked hc
    { db := d, keys := names.dedup, target := target, head := head, since := s.clock } (List.nodup_dedup names) rfl
  refine { linked := hlinked, queued := h.queued, ready := h.ready, signalled := ?_, kept := h.kept,
           fair := h.fair }
  intro hok key l hk hl hwaiting
  apply h.signalled hok key l hk hl
  -- the new client waits for no list
  have hold : waiting (blockForKeys s c d names target head) key = waiting s key := by
    have hadd := clientsOf_addAll c d key names.dedup (List.nodup_dedup names) s.blockingKeys
    rw [if_neg] at hadd
    · exact hadd
    · intro hkey
      apply hnames key.2 (List.mem_dedup.mp hkey.2) l
      rw [← hkey.1]
      exact hl
  rw [← hold]
  exact hwaiting

theorem unblock_waiting (h : Sound ok pend quiet hole s) (c : ClientId) (key : Key) :
    waiting (unblockClient s c) key = (waiting s key).erase c := by
  unfold unblockClient
  cases hc : s.client c with
  | none =>
    rw [List.erase_of_not_mem]
    intro hmem
    obtain ⟨b, hb, _⟩ := (h.linked.member c key).mp hmem
    rw [hc] at hb
    cases hb
  | some b => exact removeAll_erase h.linked hc key

theorem unblock_dict (s : State α) (c : ClientId) : (unblockClient s c).dict = s.dict := by
  unfold unblockClient
  cases s.client c with
  | none => rfl
  | some b => rfl

theorem unblock_readyDict (s : State α) (c : ClientId) : (unblockClient s c).readyDict = s.readyDict := by
  unfold unblockClient
  cases s.client c with
  | none => rfl
  | some b => rfl

theorem sound_unblock (h : Sound ok pend quiet hole s) (c : ClientId) :
    Sound ok pend quiet hole (unblockClient s c) := by
  have hsignalled : ok → ∀ key l, some key ≠ quiet → (unblockClient s c).dict.lookup key = some (.list l) →
      waiting (unblockClient s c) key ≠ [] → key ∈ (unblockClient s c).readyDict := by
    intro hok key l hk hl hwaiting
    rw [unblock_dict] at hl
    rw [unblock_readyDict]
    rw [unblock_waiting h] at hwaiting
    apply h.signalled hok key l hk hl
    intro hempty
    rw [hempty] at hwaiting
    exact hwaiting rfl
  unfold unblockClient at hsignalled ⊢
  cases hc : s.client c with
  | none => exact h
  | some b =>
    rw [hc] at hsignalled
    exact { linked := linked_unblock h.linked hc, queued := h.queued, ready := h.ready,
            signalled := hsignalled, kept := h.kept, fair := h.fair }

end RedisCore.Blocking
