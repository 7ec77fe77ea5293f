import RedisCore.BlockingCommands

namespace RedisCore.Blocking

open TableSum

variable {α : Type} {ok : Prop} {pend : List Key} {quiet hole : Option Key}

theorem waitingTotal_eq (s : State α) : waitingTotal s = tableSum List.length s.blockingKeys := rfl

theorem handlePush_blockingKeys (s : State α) (dst : Key) (v : α) :
    (rpoplpushHandlePush s dst v).blockingKeys = s.blockingKeys := by
  unfold rpoplpushHandlePush
  split
  · rfl
  · rfl
  · rw [setList_dbAdd]
    exact (heard_signal { s with dict := s.dict.insert dst (.list [v]) } dst).blockingKeys

def Listed (s : State α) (key : Key) : Prop := ∃ l, s.dict.lookup key = some (.list l)

theorem listed_setList {s : State α} {key : Key} (h : Listed s key) (k : Key) (l : List α) :
    Listed (setList s k l) key := by
  unfold Listed
  rw [setList_lookup]
  by_cases hk : key = k
  · rw [if_pos hk]
    exact ⟨l, rfl⟩
  · rw [if_neg hk]
    exact h

theorem listed_handlePush {s : State α} {key : Key} (h : Listed s key) (dst : Key) (v : α) :
    Listed (rpoplpushHandlePush s dst v) key := by
  unfold rpoplpushHandlePush
  split
  · exact listed_setList h dst _
  · exact h
  · rw [setList_dbAdd]
    unfold Listed
    rw [show (dbAdd s dst (.list [v])).dict = s.dict.insert dst (.list [v]) from
      (heard_signal { s with dict := s.dict.insert dst (.list [v]) } dst).dict, lookup_insert_eq]
    by_cases hk : key = dst
    · rw [if_pos hk]
      exact ⟨[v], rfl⟩
    · rw [if_neg hk]
      exact h

theorem serveClient_blockingKeys (s : State α) (c : ClientId) (b : Blocked) (key : Key) (v : α)
    (rest : List α) : (serveClientBlockedOnList s c b key v rest).blockingKeys = s.blockingKeys := by
  unfold serveClientBlockedOnList
  cases b.target with
  | none => rfl
  | some dst =>
    by_cases hwrong : wrongType s (b.db, dst) = true
    · simp only [hwrong, if_true]
      rfl
    · simp only [hwrong]
      exact handlePush_blockingKeys s (b.db, dst) v

theorem listed_serveClient {s : State α} {key : Key} (h : Listed s key) (c : ClientId) (b : Blocked) (v : α)
    (rest : List α) : Listed (serveClientBlockedOnList s c b key v rest) key := by
  unfold serveClientBlockedOnList
  cases b.target with
  | none => exact h
  | some dst =>
    by_cases hwrong : wrongType s (b.db, dst) = true
    · simp only [hwrong, if_true]
      exact listed_setList h key _
    · simp only [hwrong]
      exact listed_handlePush h (b.db, dst) v

theorem sound_serveClient {s : State α} {key : Key} (h : Sound ok pend quiet (some key) s)
    (hlisted : Listed s key) (c : ClientId) (b : Blocked) (v : α) (rest : List α) :
    Sound ok pend quiet (some key) (serveClientBlockedOnList s c b key v rest) := by
  unfold serveClientBlockedOnList
  cases b.target with
  | none => exact sound_log h _ _ _
  | some dst =>
    by_cases hwrong : wrongType s (b.db, dst) = true
    · simp only [hwrong, if_true]
      obtain ⟨l, hl⟩ := hlisted
      exact sound_setList h hl (Or.inr rfl)
    · simp only [hwrong]
      exact sound_handlePush h (b.db, dst) v

theorem wrongType_setList {s : State α} {key : Key} {l : List α} (hl : s.dict.lookup key = some (.list l))
    (rest : List α) (dst : Key) : wrongType (setList s key rest) dst = wrongType s dst := by
  unfold wrongType
  rw [setList_lookup]
  by_cases hk : dst = key
  · rw [if_pos hk, hk, hl]
    rfl
  · rw [if_neg hk]

def serveOne (s : State α) (c : ClientId) (b : Blocked) (key : Key) (v : α) (rest : List α)
    (others : List ClientId) : State α :=
  record s (serveClientBlockedOnList (unblockClient (setList s key rest) c) c b key v rest) c b key others

theorem listed_rest (s : State α) (c : ClientId) (key : Key) (rest : List α) :
    Listed (unblockClient (setList s key rest) c) key := by
  unfold Listed
  rw [unblock_dict, setList_lookup, if_pos rfl]
  exact ⟨rest, rfl⟩

section

variable {s : State α} {c : ClientId} {b : Blocked} {key : Key} {l rest : List α} {v : α}
  {others : List ClientId} (h : Sound ok pend (some key) (some key) s) (hwaiting : waiting s key = c :: others)
  (hc : s.client c = some b) (hl : s.dict.lookup key = some (.list l))
  (hpop : listTypePop b.head l = some (v, rest))

include h hwaiting hc hl hpop

omit h hwaiting hc in
theorem failed_keeps {dst : Bytes} (htarget : b.target = some dst)
    (hwrong : wrongType (unblockClient (setList s key rest) c) (b.db, dst) = true) :
    (serveClientBlockedOnList (unblockClient (setList s key rest) c) c b key v rest).dict.lookup key =
      s.dict.lookup key := by
  have hstep : serveClientBlockedOnList (unblockClient (setList s key rest) c) c b key v rest =
      setList (unblockClient (setList s key rest) c) key (listTypePush b.head rest v) := by
    unfold serveClientBlockedOnList
    simp only [htarget, hwrong, if_true]
  rw [hstep, setList_lookup, if_pos rfl, listTypePop_push hpop, hl]

theorem service_fair :
    Service.Fair
      { receiver := c
        key := key
        since := b.since
        others := others.filterMap (fun x => (s.client x).map Blocked.since)
        failed := (b.target.map (fun dst => wrongType s (b.db, dst))).getD false
        before := s.dict.lookup key
        after := (serveClientBlockedOnList (unblockClient (setList s key rest) c) c b key v rest).dict.lookup key } := by
  constructor
  · intro t ht
    obtain ⟨x, hx, hsince⟩ := List.mem_filterMap.mp ht
    -- the list of the key is in the order in which its clients blocked
    have hordered := h.linked.ordered key
    rw [show clientsOf s.blockingKeys key = c :: others from hwaiting] at hordered
    have hlt := (List.pairwise_cons.mp hordered).1 x hx
    unfold sinceOf at hlt
    rw [hsince, hc] at hlt
    exact hlt
  · intro hfailed
    cases htarget : b.target with
    | none =>
      rw [htarget] at hfailed
      cases hfailed
    | some dst =>
      rw [htarget] at hfailed
      apply failed_keeps hl hpop htarget
      have hsame : wrongType (unblockClient (setList s key rest) c) (b.db, dst) =
          wrongType (setList s key rest) (b.db, dst) := by
        unfold wrongType
        rw [unblock_dict]
      rw [hsame, wrongType_setList hl]
      exact hfailed

theorem sound_serveOne : Sound ok pend (some key) (some key) (serveOne s c b key v rest others) := by
  have hpopped : Sound ok pend (some key) (some key) (unblockClient (setList s key rest) c) :=
    sound_unblock (sound_setList h hl (Or.inr rfl)) c
  have hserved := sound_serveClient hpopped (listed_rest s c key rest) c b v rest
  have hfair := service_fair h hwaiting hc hl hpop
  refine { hserved with fair := ?_ }
  intro e he
  cases List.mem_append.mp he with
  | inl hold => exact hserved.fair e hold
  | inr hnew =>
    rw [List.mem_singleton.mp hnew]
    exact hfair

omit hc hpop in
theorem serveOne_waiting : waiting (serveOne s c b key v rest others) key = others := by
  have hsame : waiting (serveOne s c b key v rest others) key =
      waiting (unblockClient (setList s key rest) c) key := by
    unfold waiting
    rw [show (serveOne s c b key v rest others).blockingKeys =
      (serveClientBlockedOnList (unblockClient (setList s key rest) c) c b key v rest).blockingKeys from rfl,
      serveClient_blockingKeys]
  rw [hsame, unblock_waiting (sound_setList h hl (Or.inr rfl) : Sound ok pend (some key) (some key) _),
    show waiting (setList s key rest) key = c :: others from hwaiting, List.erase_cons_head]

omit hl hpop in
theorem serveOne_total (v : α) (rest : List α) : waitingTotal (serveOne s c b key v rest others) < waitingTotal s := by
  have hmem : c ∈ clientsOf s.blockingKeys key := by
    rw [show clientsOf s.blockingKeys key = c :: others from hwaiting]
    exact List.mem_cons_self
  obtain ⟨b', hb', hdb, hname⟩ := (h.linked.member c key).mp hmem
  rw [hc] at hb'
  cases hb'
  rw [waitingTotal_eq, waitingTotal_eq, show (serveOne s c b key v rest others).blockingKeys =
    (serveClientBlockedOnList (unblockClient (setList s key rest) c) c b key v rest).blockingKeys from rfl,
    serveClient_blockingKeys]
  have hremoved : (unblockClient (setList s key rest) c).blockingKeys =
      b.keys.foldl (removeWaiting c b.db) s.blockingKeys := by
    unfold unblockClient
    rw [show (setList s key rest).client c = some b from hc]
    rfl
  rw [hremoved]
  apply total_removeAll_lt c b.db b.keys (h.linked.names c b hc) s.blockingKeys hname
  rw [hdb]
  exact hmem

omit h hwaiting hc hl hpop in
theorem serveOne_listed : Listed (serveOne s c b key v rest others) key :=
  listed_serveClient (listed_rest s c key rest) c b v rest

end

def Progress (s s' : State α) : Prop :=
  waitingTotal s' ≤ waitingTotal s ∧ (s'.readyKeys = s.readyKeys ∨ waitingTotal s' < waitingTotal s)

theorem progress_refl (s : State α) : Progress s s := ⟨le_refl _, Or.inl rfl⟩

theorem progress_trans {s s' s'' : State α} (h : Progress s s') (h' : Progress s' s'') : Progress s s'' := by
  refine ⟨le_trans h'.1 h.1, ?_⟩
  cases h.2 with
  | inr hlt => exact Or.inr (lt_of_le_of_lt h'.1 hlt)
  | inl hsame =>
    cases h'.2 with
    | inr hlt => exact Or.inr (lt_of_lt_of_le hlt h.1)
    | inl hsame' => exact Or.inl (hsame'.trans hsame)

theorem serveClients_spec (key : Key) (numclients : ℕ) {s : State α}
    (h : Sound ok pend (some key) (some key) s) (hlisted : Listed s key)
    (hn : (waiting s key).length = numclients) :
    Sound ok pend (some key) (some key) (serveClients key numclients s) ∧
      Listed (serveClients key numclients s) key ∧
      ((serveClients key numclients s).dict.lookup key = some (.list []) ∨
        waiting (serveClients key numclients s) key = []) ∧
      Progress s (serveClients key numclients s) := by
  induction numclients generalizing s with
  | zero =>
    unfold serveClients
    exact ⟨h, hlisted, Or.inr (List.length_eq_zero_iff.mp hn), progress_refl s⟩
  | succ numclients ih =>
    cases hwaiting : waiting s key with
    | nil =>
      rw [hwaiting] at hn
      cases hn
    | cons c others =>
      obtain ⟨l, hl⟩ := hlisted
      -- the client at the head of the list is blocked
      have hmem : c ∈ clientsOf s.blockingKeys key := by
        rw [show clientsOf s.blockingKeys key = c :: others from hwaiting]
        exact List.mem_cons_self
      obtain ⟨b, hc, _⟩ := (h.linked.member c key).mp hmem
      cases hpop : listTypePop b.head l with
      | none =>
        have hstep : serveClients key (numclients + 1) s = s := by
          unfold serveClients
          simp only [hwaiting, hc, hl, hpop]
        rw [hstep]
        refine ⟨h, ⟨l, hl⟩, Or.inl ?_, progress_refl s⟩
        rw [hl, listTypePop_none hpop]
      | some p =>
        obtain ⟨v, rest⟩ := p
        have hstep : serveClients key (numclients + 1) s =
            serveClients key numclients (serveOne s c b key v rest others) := by
          rw [serveClients]
          simp only [hwaiting, hc, hl, hpop]
          rfl
        have hone := sound_serveOne h hwaiting hc hl hpop
        have hlength : (waiting (serveOne s c b key v rest others) key).length = numclients := by
          rw [serveOne_waiting h hwaiting hl]
          rw [hwaiting, List.length_cons] at hn
          omega
        rw [hstep]
        obtain ⟨hsound, hlist, hend, hprogress⟩ :=
          ih hone serveOne_listed hlength
        have hlt := serveOne_total h hwaiting hc v rest
        exact ⟨hsound, hlist, hend, progress_trans ⟨hlt.le, Or.inr hlt⟩ hprogress⟩

theorem serveList_spec {s : State α} {key : Key} (h : Sound ok pend (some key) none s)
    (hlisted : Listed s key) :
    Sound ok pend none none (serveClientsBlockedOnListKey s key) ∧
      Progress s (serveClientsBlockedOnListKey s key) := by
  have hopen : Sound ok pend (some key) (some key) s :=
    { h with kept := fun k _ => h.kept k (Option.some_ne_none k) }
  obtain ⟨hsound, _, hend, hprogress⟩ := serveClients_spec key _ hopen hlisted rfl
  unfold serveClientsBlockedOnListKey
  constructor
  · apply sound_heard (sound_deleteIfEmpty hsound)
    intro _ l hl hwaiting
    exfalso
    -- the key still has a list, so it was not empty
    unfold deleteIfEmpty at hl hwaiting
    split at hl
    · rw [show (dbDelete (serveClients key (waiting s key).length s) key).dict =
        (serveClients key (waiting s key).length s).dict.erase key from rfl, AList.lookup_erase] at hl
      cases hl
    · rename_i hne
      cases hend with
      | inl hempty => exact hne hempty
      | inr hnobody =>
        apply hwaiting
        split
        · exact hnobody
        · exact hnobody
  · unfold deleteIfEmpty
    split
    · exact hprogress
    · exact hprogress

theorem rotate_all (clients : List ClientId) :
    (fun l : List ClientId => l.rotate 1)^[clients.length] clients = clients := by
  have hrotate : ∀ n, ∀ l : List ClientId, (fun l : List ClientId => l.rotate 1)^[n] l = l.rotate n := by
    intro n
    induction n with
    | zero =>
      intro l
      exact (List.rotate_zero l).symm
    | succ n ih =>
      intro l
      rw [Function.iterate_succ_apply, ih, List.rotate_rotate, add_comm]
  rw [hrotate, List.rotate_length]

theorem serveSortedSet_spec {s : State α} (h : Sound ok pend quiet hole s) (key : Key) :
    Sound ok pend quiet hole (serveClientsBlockedOnSortedSetKey s key) ∧
      Progress s (serveClientsBlockedOnSortedSetKey s key) := by
  unfold serveClientsBlockedOnSortedSetKey
  cases hclients : s.blockingKeys.lookup key with
  | none => exact ⟨h, progress_refl s⟩
  | some clients =>
    simp only [rotate_all]
    have hne : clients ≠ [] := by
      intro hempty
      apply h.linked.inhabited key
      rw [hclients, hempty]
    have hsame : ∀ k, clientsOf (s.blockingKeys.insert key clients) k = clientsOf s.blockingKeys k := by
      intro k
      rw [clientsOf_insert]
      by_cases hk : k = key
      · rw [if_pos hk, hk]
        unfold clientsOf
        rw [hclients, Option.getD_some]
      · rw [if_neg hk]
    constructor
    · refine { h with
        linked := linked_same h.linked (inhabited_insert h.linked.inhabited key hne) hsame
        signalled := ?_ }
      intro hok k l hk hl hwaiting
      apply h.signalled hok k l hk hl
      rw [show waiting s k = clientsOf s.blockingKeys k from rfl, ← hsame k]
      exact hwaiting
    · have hsum := tableSum_insert List.length s.blockingKeys key clients
      have hold : valueAt List.length s.blockingKeys key = clients.length := by
        unfold valueAt
        rw [hclients]
        rfl
      rw [hold] at hsum
      have htotal : tableSum List.length (s.blockingKeys.insert key clients) =
        tableSum List.length s.blockingKeys := by omega
      exact ⟨le_of_eq htotal, Or.inl rfl⟩

theorem serveSortedSet_dict (s : State α) (key : Key) :
    (serveClientsBlockedOnSortedSetKey s key).dict = s.dict := by
  unfold serveClientsBlockedOnSortedSetKey
  split
  · rfl
  · rfl

theorem serveKey_spec {s : State α} {key : Key} (h : Sound ok (key :: pend) none none s) :
    Sound ok pend none none (serveKey s key) ∧ Progress s (serveKey s key) := by
  have hnodup := List.nodup_cons.mp h.queued
  have hready : (s.readyDict.erase key).Perm (pend ++ s.readyKeys) := by
    have hperm := h.ready.erase key
    rw [List.cons_append, List.erase_cons_head] at hperm
    exact hperm
  have htaken : Sound ok pend (some key) none { s with readyDict := s.readyDict.erase key } := by
    refine { linked := h.linked, queued := hnodup.2, ready := hready, signalled := ?_, kept := h.kept,
             fair := h.fair }
    intro hok k l hk hl hwaiting
    have hmem := h.signalled hok k l (Option.some_ne_none k) hl hwaiting
    exact (List.mem_erase_of_ne (fun heq => hk (congrArg some heq))).mpr hmem
  -- a key without a list needs no signal
  have hother : ∀ {s' : State α}, Sound ok pend (some key) none s' →
      (∀ l, s'.dict.lookup key ≠ some (.list l)) → Sound ok pend none none s' := by
    intro s' hs' hnot
    apply sound_heard hs'
    intro _ l hl
    exact absurd hl (hnot l)
  have hprogress : ∀ s', Progress { s with readyDict := s.readyDict.erase key } s' → Progress s s' :=
    fun _ hp => hp
  unfold serveKey
  dsimp only
  split
  · rename_i l hl
    obtain ⟨hsound, hp⟩ := serveList_spec htaken ⟨l, hl⟩
    exact ⟨hsound, hprogress _ hp⟩
  · rename_i hzset
    obtain ⟨hsound, hp⟩ := serveSortedSet_spec htaken key
    refine ⟨hother hsound ?_, hprogress _ hp⟩
    intro l hl
    rw [serveSortedSet_dict, hzset] at hl
    cases hl
  · rename_i hstring
    refine ⟨hother htaken ?_, hprogress _ (progress_refl _)⟩
    intro l hl
    rw [hstring] at hl
    cases hl
  · rename_i hnone
    refine ⟨hother htaken ?_, hprogress _ (progress_refl _)⟩
    intro l hl
    rw [hnone] at hl
    cases hl

theorem round_spec (keys : List Key) {s : State α} (h : Sound ok keys none none s) :
    Sound ok [] none none (keys.foldl serveKey s) ∧ Progress s (keys.foldl serveKey s) := by
  induction keys generalizing s with
  | nil => exact ⟨h, progress_refl s⟩
  | cons key keys ih =>
    obtain ⟨hone, hp⟩ := serveKey_spec h
    obtain ⟨hrest, hp'⟩ := ih hone
    exact ⟨hrest, progress_trans hp hp'⟩

theorem handleRounds_spec (fuel : ℕ) {s : State α} (h : Sound ok [] none none s)
    (hfuel : s.readyKeys = [] ∨ waitingTotal s < fuel) :
    Sound ok [] none none (handleRounds fuel s) ∧ (handleRounds fuel s).readyKeys = [] := by
  induction fuel generalizing s with
  | zero =>
    unfold handleRounds
    exact ⟨h, hfuel.resolve_right (Nat.not_lt_zero _)⟩
  | succ fuel ih =>
    unfold handleRounds
    by_cases hempty : s.readyKeys = []
    · rw [if_pos hempty]
      exact ⟨h, hempty⟩
    rw [if_neg hempty]
    have hstart : Sound ok s.readyKeys none none { s with readyKeys := [] } := by
      refine { linked := h.linked, queued := ?_, ready := ?_, signalled := h.signalled, kept := h.kept,
               fair := h.fair }
      · rw [List.append_nil]
        exact h.queued
      · rw [List.append_nil]
        exact h.ready
    obtain ⟨hround, hprogress⟩ := round_spec s.readyKeys hstart
    apply ih hround
    have hlt : waitingTotal s < fuel + 1 := hfuel.resolve_left hempty
    cases hprogress.2 with
    | inl hnone => exact Or.inl hnone
    | inr hserved => exact Or.inr (Nat.lt_of_lt_of_le hserved (Nat.le_of_lt_succ hlt))

theorem handleClients_spec {s : State α} (h : Sound ok [] none none s) :
    Sound ok [] none none (handleClientsBlockedOnKeys s) ∧ (handleClientsBlockedOnKeys s).readyKeys = [] :=
  handleRounds_spec _ h (Or.inr (Nat.lt_succ_self _))

end RedisCore.Blocking
