import RedisCore.PubsubLinks

namespace RedisCore.Pubsub

open ReverseIndex

variable {s s' : Server} {a : Subscriptions} {c : ClientId}

theorem toInt_toInt (x : ℤ) : toInt (toInt x) = toInt x := Int.bmod_bmod

theorem subscribeEach_linked (channels : List Bytes) (h : Linked s a) (hc : c ∈ s.clients) :
    Linked (subscribeEach c channels s) (channels.foldl (fun a channel => a.subscribe c channel) a) ∧
      (subscribeEach c channels s).clients = s.clients := by
  induction channels generalizing s a with
  | nil => exact ⟨h, rfl⟩
  | cons channel channels ih =>
    obtain ⟨h1, hclients⟩ := pubsubSubscribeChannel_linked h hc channel
    obtain ⟨h2, hclients'⟩ := ih h1 (hclients ▸ hc)
    exact ⟨h2, hclients'.trans hclients⟩

theorem psubscribeEach_linked (patterns : List Bytes) (h : Linked s a) (hc : c ∈ s.clients) :
    Linked (psubscribeEach c patterns s) (patterns.foldl (fun a pattern => a.psubscribe c pattern) a) ∧
      (psubscribeEach c patterns s).clients = s.clients := by
  induction patterns generalizing s a with
  | nil => exact ⟨h, rfl⟩
  | cons pattern patterns ih =>
    obtain ⟨h1, hclients⟩ := pubsubSubscribePattern_linked h hc pattern
    obtain ⟨h2, hclients'⟩ := ih h1 (hclients ▸ hc)
    exact ⟨h2, hclients'.trans hclients⟩

theorem setPubsub_linked (h : Linked s a) (hc : c ∈ s.clients) (flag : Bool) :
    Linked (setPubsub s c flag) a := by
  refine h.change hc rfl rfl (fun c' hne => ⟨setClient_other s _ hne, rfl, rfl, rfl⟩) ?_ ?_ ?_
    h.channelIndex h.pairs_nodup h.pairs h.patternIndex
  · rw [setPubsub, setClient_self]
    exact h.channels c
  · rw [setPubsub, setClient_self]
    exact h.patterns c
  · rw [setPubsub, setClient_self]
    exact h.reply c

theorem clearPubsub_linked (h : Linked s a) (hc : c ∈ s.clients) :
    Linked (clearPubsub s c) a := by
  rw [clearPubsub]
  split_ifs
  · exact setPubsub_linked h hc false
  · exact h

theorem unsubscribe_channels (notify : Bool) (a : Subscriptions) (c : ClientId) (channel : Bytes) :
    (a.unsubscribe notify c channel).channels c = (a.channels c).erase channel := by
  cases notify <;> simp [Subscriptions.unsubscribe, Subscriptions.setChannels, Subscriptions.send]

theorem punsubscribe_patterns (notify : Bool) (a : Subscriptions) (c : ClientId) (pattern : Bytes) :
    (a.punsubscribe notify c pattern).patterns c = (a.patterns c).erase pattern := by
  cases notify <;> simp [Subscriptions.punsubscribe, Subscriptions.setPatterns, Subscriptions.send]

theorem unsubscribeChannels_linked (notify : Bool) (channels : List Bytes) (count : ℤ)
    (h : Linked s a) (hc : c ∈ s.clients) :
    ∃ n s', unsubscribeChannels c notify channels count s = .ok (n, s') ∧
      Linked s' (channels.foldl (fun a channel => a.unsubscribe notify c channel) a) ∧
      s'.clients = s.clients ∧
      (channels.Nodup → (∀ channel ∈ channels, channel ∈ a.channels c) → toInt count = count →
        n = toInt (count+channels.length)) := by
  induction channels generalizing s a count with
  | nil =>
    refine ⟨count, s, rfl, h, rfl, fun _ _ hcount => ?_⟩
    rw [List.length_nil, Nat.cast_zero, Int.add_zero, hcount]
  | cons channel channels ih =>
    obtain ⟨s1, heq, h1, hclients⟩ := pubsubUnsubscribeChannel_linked h hc channel notify
    obtain ⟨n, s', heq', h', hclients', hn⟩ :=
      ih (toInt (count+if channel ∈ a.channels c then 1 else 0)) h1 (hclients ▸ hc)
    refine ⟨n, s', ?_, h', hclients'.trans hclients, fun hnodup hall hcount => ?_⟩
    · rw [unsubscribeChannels, heq]
      exact heq'
    · obtain ⟨hnew, hrest⟩ := List.nodup_cons.1 hnodup
      have hleft (x : Bytes) (hx : x ∈ channels) :
          x ∈ (a.unsubscribe notify c channel).channels c := by
        rw [unsubscribe_channels, Finset.mem_erase]
        exact ⟨fun hxc => hnew (hxc ▸ hx), hall x (List.mem_cons_of_mem _ hx)⟩
      rw [hn hrest hleft (toInt_toInt _), toInt_add, if_pos (hall channel List.mem_cons_self),
        List.length_cons]
      refine congrArg toInt ?_
      push_cast
      ring

theorem unsubscribePatterns_linked (notify : Bool) (patterns : List Bytes) (count : ℤ)
    (h : Linked s a) (hc : c ∈ s.clients) :
    ∃ n s', unsubscribePatterns c notify patterns count s = .ok (n, s') ∧
      Linked s' (patterns.foldl (fun a pattern => a.punsubscribe notify c pattern) a) ∧
      s'.clients = s.clients ∧
      (patterns.Nodup → (∀ pattern ∈ patterns, pattern ∈ a.patterns c) → toInt count = count →
        n = toInt (count+patterns.length)) := by
  induction patterns generalizing s a count with
  | nil =>
    refine ⟨count, s, rfl, h, rfl, fun _ _ hcount => ?_⟩
    rw [List.length_nil, Nat.cast_zero, Int.add_zero, hcount]
  | cons pattern patterns ih =>
    obtain ⟨s1, heq, h1, hclients⟩ := pubsubUnsubscribePattern_linked h hc pattern notify
    obtain ⟨n, s', heq', h', hclients', hn⟩ :=
      ih (toInt (count+if pattern ∈ a.patterns c then 1 else 0)) h1 (hclients ▸ hc)
    refine ⟨n, s', ?_, h', hclients'.trans hclients, fun hnodup hall hcount => ?_⟩
    · rw [unsubscribePatterns, heq]
      exact heq'
    · obtain ⟨hnew, hrest⟩ := List.nodup_cons.1 hnodup
      have hleft (x : Bytes) (hx : x ∈ patterns) :
          x ∈ (a.punsubscribe notify c pattern).patterns c := by
        rw [punsubscribe_patterns, Finset.mem_erase]
        exact ⟨fun hxc => hnew (hxc ▸ hx), hall x (List.mem_cons_of_mem _ hx)⟩
      rw [hn hrest hleft (toInt_toInt _), toInt_add, if_pos (hall pattern List.mem_cons_self),
        List.length_cons]
      refine congrArg toInt ?_
      push_cast
      ring

theorem pubsubUnsubscribeAllChannels_linked (notify : Bool) {order : List Bytes} (h : Linked s a)
    (hc : c ∈ s.clients) (horder : order.Perm (s.client c).pubsubChannels) :
    ∃ n s', pubsubUnsubscribeAllChannels s c notify order = .ok (n, s') ∧
      Linked s' (a.unsubscribeAll notify c order) ∧ s'.clients = s.clients := by
  obtain ⟨n, s', heq, h', hclients, hn⟩ := unsubscribeChannels_linked notify order 0 h hc
  have hchannels := h.channels c
  have hcard : order.length = (a.channels c).card := by rw [horder.length_eq, hchannels.length]
  have hcount := hn (horder.nodup_iff.2 hchannels.nodup)
    (fun x hx => (hchannels.mem x).1 (horder.mem_iff.1 hx)) rfl
  rw [Int.zero_add, hcard] at hcount
  rw [pubsubUnsubscribeAllChannels, heq, ok_bind, Subscriptions.unsubscribeAll]
  dsimp only
  rw [hcount]
  refine ⟨_, _, rfl, ?_⟩
  split_ifs
  · exact ⟨h'.notify (hclients ▸ hc) (fun _ n => .unsubscribed none n) fun _ => rfl, hclients⟩
  · exact ⟨h', hclients⟩

theorem pubsubUnsubscribeAllPatterns_linked (notify : Bool) (h : Linked s a)
    (hc : c ∈ s.clients) :
    ∃ n s', pubsubUnsubscribeAllPatterns s c notify = .ok (n, s') ∧
      Linked s' (a.punsubscribeAll notify c (s.client c).pubsubPatterns) ∧
      s'.clients = s.clients := by
  obtain ⟨n, s', heq, h', hclients, hn⟩ :=
    unsubscribePatterns_linked notify (s.client c).pubsubPatterns 0 h hc
  have hpatterns := h.patterns c
  have hcount := hn hpatterns.nodup (fun x hx => (hpatterns.mem x).1 hx) rfl
  rw [Int.zero_add, hpatterns.length] at hcount
  rw [pubsubUnsubscribeAllPatterns, heq, ok_bind, Subscriptions.punsubscribeAll]
  dsimp only
  rw [hcount]
  refine ⟨_, _, rfl, ?_⟩
  split_ifs
  · exact ⟨h'.notify (hclients ▸ hc) (fun _ n => .punsubscribed none n) fun _ => rfl, hclients⟩
  · exact ⟨h', hclients⟩

theorem subscribeCommand_linked (channels : List Bytes) (h : Linked s a) (hc : c ∈ s.clients) :
    Linked (subscribeCommand s c channels)
      (channels.foldl (fun a channel => a.subscribe c channel) a) := by
  obtain ⟨h', hclients⟩ := subscribeEach_linked channels h hc
  exact setPubsub_linked h' (hclients ▸ hc) true

theorem psubscribeCommand_linked (patterns : List Bytes) (h : Linked s a) (hc : c ∈ s.clients) :
    Linked (psubscribeCommand s c patterns)
      (patterns.foldl (fun a pattern => a.psubscribe c pattern) a) := by
  obtain ⟨h', hclients⟩ := psubscribeEach_linked patterns h hc
  exact setPubsub_linked h' (hclients ▸ hc) true

theorem unsubscribeCommand_linked {channels order : List Bytes} (h : Linked s a)
    (hc : c ∈ s.clients) (horder : channels = [] → order.Perm (s.client c).pubsubChannels) :
    ∃ s', unsubscribeCommand s c channels order = .ok s' ∧
      Linked s' (if channels = [] then a.unsubscribeAll true c order
        else channels.foldl (fun a channel => a.unsubscribe true c channel) a) := by
  rw [unsubscribeCommand]
  split_ifs with hnil
  · obtain ⟨n, s', heq, h', hclients⟩ := pubsubUnsubscribeAllChannels_linked true h hc (horder hnil)
    rw [heq]
    exact ⟨_, rfl, clearPubsub_linked h' (hclients ▸ hc)⟩
  · obtain ⟨n, s', heq, h', hclients, -⟩ := unsubscribeChannels_linked true channels 0 h hc
    rw [heq]
    exact ⟨_, rfl, clearPubsub_linked h' (hclients ▸ hc)⟩

theorem punsubscribeCommand_linked {patterns : List Bytes} (h : Linked s a) (hc : c ∈ s.clients) :
    ∃ s', punsubscribeCommand s c patterns = .ok s' ∧
      Linked s' (if patterns = [] then a.punsubscribeAll true c (s.client c).pubsubPatterns
        else patterns.foldl (fun a pattern => a.punsubscribe true c pattern) a) := by
  rw [punsubscribeCommand]
  split_ifs with hnil
  · obtain ⟨n, s', heq, h', hclients⟩ := pubsubUnsubscribeAllPatterns_linked true h hc
    rw [heq]
    exact ⟨_, rfl, clearPubsub_linked h' (hclients ▸ hc)⟩
  · obtain ⟨n, s', heq, h', hclients, -⟩ := unsubscribePatterns_linked true patterns 0 h hc
    rw [heq]
    exact ⟨_, rfl, clearPubsub_linked h' (hclients ▸ hc)⟩

theorem createClient_linked (h : Linked s a) (hc : c ∉ s.clients) :
    Linked (createClient s c) (a.connect c) := by
  have hself : (createClient s c).client c = initClient := Function.update_self ..
  have hother (c' : ClientId) (hne : c' ≠ c) : (createClient s c).client c' = s.client c' :=
    Function.update_of_ne hne ..
  obtain ⟨hchannels, hpatterns⟩ := h.absent c hc
  exact
    { nodup := List.nodup_append_comm.1 (List.nodup_cons.2 ⟨hc, h.nodup⟩)
      clients := congrArg (· ++ [c]) h.clients
      absent := fun c' hc' => h.absent c' fun hin => hc' (List.mem_append_left _ hin)
      channels := by
        intro c'
        by_cases heq : c' = c
        · rw [heq, hself]
          exact ⟨List.nodup_nil, fun x => by simp [initClient, Subscriptions.connect, hchannels]⟩
        · rw [hother c' heq]
          exact h.channels c'
      patterns := by
        intro c'
        by_cases heq : c' = c
        · rw [heq, hself]
          exact ⟨List.nodup_nil, fun x => by simp [initClient, Subscriptions.connect, hpatterns]⟩
        · rw [hother c' heq]
          exact h.patterns c'
      channelIndex := h.channelIndex
      pairs_nodup := h.pairs_nodup
      pairs := h.pairs
      patternIndex := h.patternIndex
      reply := by
        intro c'
        by_cases heq : c' = c
        · rw [heq, hself]
          simp [initClient, Subscriptions.connect]
        · rw [hother c' heq]
          simpa [Subscriptions.connect, heq] using h.reply c' }

theorem unsubscribeChannel_patterns {channel : Bytes} {notify : Bool} {n : ℤ}
    (h : pubsubUnsubscribeChannel s c channel notify = .ok (n, s')) :
    (s'.client c).pubsubPatterns = (s.client c).pubsubPatterns := by
  rw [pubsubUnsubscribeChannel] at h
  split at h
  · dsimp only at h
    split at h
    · cases h
    · rw [← (Prod.mk.inj (Except.ok.inj h)).2]
      cases notify <;> simp [addReplyPubsubUnsubscribed, addReply, setClient]
  · rw [← (Prod.mk.inj (Except.ok.inj h)).2]
    cases notify <;> simp [addReplyPubsubUnsubscribed, addReply, setClient]

theorem unsubscribeChannels_patterns {channels : List Bytes} {count n : ℤ} {notify : Bool}
    (h : unsubscribeChannels c notify channels count s = .ok (n, s')) :
    (s'.client c).pubsubPatterns = (s.client c).pubsubPatterns := by
  induction channels generalizing s count with
  | nil => rw [← (Prod.mk.inj (Except.ok.inj h)).2]
  | cons channel channels ih =>
    rw [unsubscribeChannels] at h
    cases hx : pubsubUnsubscribeChannel s c channel notify with
    | error e =>
      rw [hx] at h
      cases h
    | ok r =>
      rw [hx] at h
      exact (ih h).trans (unsubscribeChannel_patterns hx)

theorem foldl_unsubscribe (order : List Bytes) (a : Subscriptions) (c : ClientId) :
    let a' := order.foldl (fun a channel => a.unsubscribe false c channel) a
    (∀ x, x ∈ a'.channels c ↔ x ∈ a.channels c ∧ x ∉ order) ∧
      a'.patterns = a.patterns ∧ a'.clients = a.clients := by
  induction order generalizing a with
  | nil => simp
  | cons y order ih =>
    obtain ⟨hmem, hpatterns, hclients⟩ := ih (a.unsubscribe false c y)
    refine ⟨fun x => ?_, hpatterns, hclients⟩
    rw [List.foldl_cons, hmem, unsubscribe_channels, Finset.mem_erase, List.mem_cons]
    tauto

theorem foldl_punsubscribe (order : List Bytes) (a : Subscriptions) (c : ClientId) :
    let a' := order.foldl (fun a pattern => a.punsubscribe false c pattern) a
    (∀ x, x ∈ a'.patterns c ↔ x ∈ a.patterns c ∧ x ∉ order) ∧
      a'.channels = a.channels ∧ a'.clients = a.clients := by
  induction order generalizing a with
  | nil => simp
  | cons y order ih =>
    obtain ⟨hmem, hchannels, hclients⟩ := ih (a.punsubscribe false c y)
    refine ⟨fun x => ?_, hchannels, hclients⟩
    rw [List.foldl_cons, hmem, punsubscribe_patterns, Finset.mem_erase, List.mem_cons]
    tauto

theorem Linked.forget (h : Linked s a) (hchannels : a.channels c = ∅) (hpatterns : a.patterns c = ∅) :
    Linked { s with clients := s.clients.erase c } { a with clients := a.clients.erase c } where
  nodup := h.nodup.erase c
  clients := congrArg (·.erase c) h.clients
  absent := by
    intro c' hc'
    rw [h.nodup.mem_erase_iff] at hc'
    by_cases heq : c' = c
    · rw [heq]
      exact ⟨hchannels, hpatterns⟩
    · exact h.absent c' fun hin => hc' ⟨heq, hin⟩
  channels := h.channels
  patterns := h.patterns
  channelIndex := h.channelIndex
  pairs_nodup := h.pairs_nodup
  pairs := h.pairs
  patternIndex := h.patternIndex
  reply := h.reply

theorem freeClient_linked {order : List Bytes} (h : Linked s a) (hc : c ∈ s.clients)
    (horder : order.Perm (s.client c).pubsubChannels) :
    ∃ s', freeClient s c order = .ok s' ∧
      Linked s' (a.disconnect c order (s.client c).pubsubPatterns) := by
  obtain ⟨n1, s1, heq1, h1, hclients1⟩ := pubsubUnsubscribeAllChannels_linked false h hc horder
  obtain ⟨n2, s2, heq2, h2, hclients2⟩ :=
    pubsubUnsubscribeAllPatterns_linked false h1 (hclients1 ▸ hc)
  have hkept : (s1.client c).pubsubPatterns = (s.client c).pubsubPatterns := by
    rw [pubsubUnsubscribeAllChannels] at heq1
    cases hx : unsubscribeChannels c false order 0 s with
    | error e =>
      rw [hx] at heq1
      cases heq1
    | ok r =>
      rw [hx] at heq1
      rw [← (Prod.mk.inj (Except.ok.inj heq1)).2, if_neg fun hn => Bool.noConfusion hn.1]
      exact unsubscribeChannels_patterns hx
  rw [hkept] at h2
  have hall : a.unsubscribeAll false c order =
      order.foldl (fun a channel => a.unsubscribe false c channel) a := by
    simp [Subscriptions.unsubscribeAll]
  have hall' (a : Subscriptions) (order : List Bytes) : a.punsubscribeAll false c order =
      order.foldl (fun a pattern => a.punsubscribe false c pattern) a := by
    simp [Subscriptions.punsubscribeAll]
  obtain ⟨hmem, hpatterns, -⟩ := foldl_unsubscribe order a c
  obtain ⟨hmem', hchannels, -⟩ := foldl_punsubscribe (s.client c).pubsubPatterns
    (a.unsubscribeAll false c order) c
  rw [freeClient, heq1, ok_bind]
  dsimp only
  rw [heq2, ok_bind]
  refine ⟨_, rfl, h2.forget ?_ ?_⟩
  · rw [hall', hchannels, hall]
    refine Finset.eq_empty_of_forall_notMem fun x hx => ?_
    obtain ⟨hin, hout⟩ := (hmem x).1 hx
    exact hout (horder.mem_iff.2 (((h.channels c).mem x).2 hin))
  · rw [hall']
    refine Finset.eq_empty_of_forall_notMem fun x hx => ?_
    obtain ⟨hin, hout⟩ := (hmem' x).1 hx
    rw [hall, hpatterns] at hin
    exact hout (((h.patterns c).mem x).2 hin)

end RedisCore.Pubsub
