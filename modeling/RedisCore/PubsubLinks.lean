import RedisCore.PubsubSpec

namespace RedisCore.Pubsub
open Function (update_eq_self update_of_ne)

open ReverseIndex

structure Lists (l : List Bytes) (names : Finset Bytes) : Prop where
  nodup : l.Nodup
  mem (x : Bytes) : x ∈ l ↔ x ∈ names

variable {l : List Bytes} {names : Finset Bytes} {x : Bytes}

theorem Lists.length (h : Lists l names) : l.length = names.card := by
  have hset : l.toFinset = names := by
    ext x
    rw [List.mem_toFinset]
    exact h.mem x
  rw [← hset, List.toFinset_card_of_nodup h.nodup]

theorem Lists.append (h : Lists l names) (hx : x ∉ l) : Lists (l ++ [x]) (insert x names) := by
  refine ⟨List.nodup_append_comm.1 (List.nodup_cons.2 ⟨hx, h.nodup⟩), fun y => ?_⟩
  rw [List.mem_append, List.mem_singleton, h.mem, Finset.mem_insert, or_comm]

theorem Lists.erase (h : Lists l names) (x : Bytes) : Lists (l.erase x) (names.erase x) := by
  refine ⟨h.nodup.erase x, fun y => ?_⟩
  rw [h.nodup.mem_erase_iff, h.mem, Finset.mem_erase]

def Reply.map {ν ν' : Type} (f : ν → ν') : Reply ν → Reply ν'
  | .subscribed channel n => .subscribed channel (f n)
  | .unsubscribed channel n => .unsubscribed channel (f n)
  | .psubscribed pattern n => .psubscribed pattern (f n)
  | .punsubscribed pattern n => .punsubscribed pattern (f n)
  | .message channel msg => .message channel msg
  | .pmessage pattern channel msg => .pmessage pattern channel msg
  | .receivers n => .receivers (f n)

/-- The reply with its number as an `int`. -/
def Reply.narrow : Reply ℕ → Reply ℤ := Reply.map (fun n => toInt n)

def Reply.exact : Reply ℕ → Reply ℤ := Reply.map (fun n => (n : ℤ))

/-- All collections describe the two relations, and the clients have been sent what they should,
though with the numbers as an `int`. -/
structure Linked (s : Server) (a : Subscriptions) : Prop where
  nodup : s.clients.Nodup
  clients : s.clients = a.clients
  absent : ∀ c, c ∉ s.clients → a.channels c = ∅ ∧ a.patterns c = ∅
  channels : ∀ c, Lists (s.client c).pubsubChannels (a.channels c)
  patterns : ∀ c, Lists (s.client c).pubsubPatterns (a.patterns c)
  channelIndex : Indexes s.pubsubChannels (fun c channel => channel ∈ a.channels c)
  pairs_nodup : s.pubsubPatterns.Nodup
  pairs : ∀ c pattern, (c, pattern) ∈ s.pubsubPatterns ↔ pattern ∈ a.patterns c
  patternIndex : Indexes s.pubsubPatternsDict (fun c pattern => pattern ∈ a.patterns c)
  reply : ∀ c, (s.client c).reply = (a.reply c).map Reply.narrow

theorem linked_init : Linked initServer Subscriptions.init where
  nodup := List.nodup_nil
  clients := rfl
  absent := fun _ _ => ⟨rfl, rfl⟩
  channels := fun _ => ⟨List.nodup_nil, by simp [initServer, initClient, Subscriptions.init]⟩
  patterns := fun _ => ⟨List.nodup_nil, by simp [initServer, initClient, Subscriptions.init]⟩
  channelIndex := indexes_empty.congr fun c k => by simp [Subscriptions.init]
  pairs_nodup := List.nodup_nil
  pairs := fun _ _ => by simp [initServer, Subscriptions.init]
  patternIndex := indexes_empty.congr fun c k => by simp [Subscriptions.init]
  reply := fun _ => rfl

variable {s s' : Server} {a a' : Subscriptions} {c : ClientId} {channel pattern : Bytes}

@[simp] theorem setClient_self (s : Server) (c : ClientId) (cl : Client) :
    (setClient s c cl).client c = cl := by simp [setClient]

theorem setClient_other {c c' : ClientId} (s : Server) (cl : Client) (h : c' ≠ c) :
    (setClient s c cl).client c' = s.client c' := by simp [setClient, h]

theorem Linked.change (h : Linked s a) (hc : c ∈ s.clients) (hclients : s'.clients = s.clients)
    (hclients' : a'.clients = a.clients)
    (hother : ∀ c', c' ≠ c → s'.client c' = s.client c' ∧ a'.channels c' = a.channels c' ∧
      a'.patterns c' = a.patterns c' ∧ a'.reply c' = a.reply c')
    (hchannels : Lists (s'.client c).pubsubChannels (a'.channels c))
    (hpatterns : Lists (s'.client c).pubsubPatterns (a'.patterns c))
    (hreply : (s'.client c).reply = (a'.reply c).map Reply.narrow)
    (hindex : Indexes s'.pubsubChannels (fun c channel => channel ∈ a'.channels c))
    (hnodup : s'.pubsubPatterns.Nodup)
    (hpairs : ∀ c pattern, (c, pattern) ∈ s'.pubsubPatterns ↔ pattern ∈ a'.patterns c)
    (hindex' : Indexes s'.pubsubPatternsDict (fun c pattern => pattern ∈ a'.patterns c)) :
    Linked s' a' where
  nodup := hclients ▸ h.nodup
  clients := by rw [hclients, hclients', h.clients]
  absent := by
    intro c' hc'
    rw [hclients] at hc'
    have hne : c' ≠ c := fun heq => hc' (heq ▸ hc)
    rw [(hother c' hne).2.1, (hother c' hne).2.2.1]
    exact h.absent c' hc'
  channels := by
    intro c'
    by_cases heq : c' = c
    · rw [heq]
      exact hchannels
    · rw [(hother c' heq).1, (hother c' heq).2.1]
      exact h.channels c'
  patterns := by
    intro c'
    by_cases heq : c' = c
    · rw [heq]
      exact hpatterns
    · rw [(hother c' heq).1, (hother c' heq).2.2.1]
      exact h.patterns c'
  channelIndex := hindex
  pairs_nodup := hnodup
  pairs := hpairs
  patternIndex := hindex'
  reply := by
    intro c'
    by_cases heq : c' = c
    · rw [heq]
      exact hreply
    · rw [(hother c' heq).1, (hother c' heq).2.2.2]
      exact h.reply c'

theorem Linked.count (h : Linked s a) (c : ClientId) :
    clientSubscriptionsCount s c = toInt (a.count c) := by
  rw [clientSubscriptionsCount, Subscriptions.count, (h.channels c).length, (h.patterns c).length]

theorem Linked.addReply (h : Linked s a) (hc : c ∈ s.clients) (r : Reply ℕ) :
    Linked (addReply s c r.narrow) (a.send c [r]) := by
  refine h.change hc rfl rfl (fun c' hne => ?_) ?_ ?_ ?_ h.channelIndex h.pairs_nodup h.pairs
    h.patternIndex
  · refine ⟨setClient_other s _ hne, rfl, rfl, ?_⟩
    simp [Subscriptions.send, hne]
  · rw [Pubsub.addReply, setClient_self]
    exact h.channels c
  · rw [Pubsub.addReply, setClient_self]
    exact h.patterns c
  · rw [Pubsub.addReply, setClient_self]
    simp [Subscriptions.send, h.reply c]

theorem Linked.notify (h : Linked s a) (hc : c ∈ s.clients) (r : ∀ ν : Type, ν → Reply ν)
    (hr : ∀ n : ℕ, (r ℕ n).narrow = r ℤ (toInt n)) :
    Linked (Pubsub.addReply s c (r ℤ (clientSubscriptionsCount s c)))
      (a.send c [r ℕ (a.count c)]) := by
  rw [h.count c, ← hr]
  exact h.addReply hc _

theorem update_congr_mem {R : ClientId → Finset Bytes} {names : Finset Bytes} {c' : ClientId}
    {x : Bytes} : x ∈ Function.update R c names c' ↔ if c' = c then x ∈ names else x ∈ R c' := by
  by_cases heq : c' = c
  · rw [heq, if_pos rfl, Function.update_self]
  · rw [if_neg heq, update_of_ne heq]

theorem Linked.addChannel (h : Linked s a) (hc : c ∈ s.clients)
    (hnew : channel ∉ (s.client c).pubsubChannels) :
    Linked
      { setClient s c { s.client c with
          pubsubChannels := (s.client c).pubsubChannels ++ [channel] } with
        pubsubChannels := link s.pubsubChannels channel c }
      (a.setChannels c (insert channel (a.channels c))) := by
  have hnot : channel ∉ a.channels c := fun hmem => hnew (((h.channels c).mem channel).2 hmem)
  refine h.change hc rfl rfl (fun c' hne => ?_) ?_ ?_ ?_ ?_ h.pairs_nodup h.pairs h.patternIndex
  · exact ⟨setClient_other s _ hne, update_of_ne hne _ _, rfl, rfl⟩
  · simpa [Subscriptions.setChannels] using (h.channels c).append hnew
  · simpa [Subscriptions.setChannels] using h.patterns c
  · simpa [Subscriptions.setChannels] using h.reply c
  · refine h.channelIndex.link hnot fun c' k => ?_
    rw [Subscriptions.setChannels, update_congr_mem]
    by_cases heq : c' = c
    · simp [heq, or_comm]
    · simp [heq]

theorem Linked.dropChannel (h : Linked s a) (hc : c ∈ s.clients)
    (hmem : channel ∈ (s.client c).pubsubChannels) :
    ∃ table, unlink s.pubsubChannels channel c = some table ∧
      Linked
        { setClient s c { s.client c with
            pubsubChannels := (s.client c).pubsubChannels.erase channel } with
          pubsubChannels := table }
        (a.setChannels c ((a.channels c).erase channel)) := by
  have hleft (c' : ClientId) (k : Bytes) :
      k ∈ (a.setChannels c ((a.channels c).erase channel)).channels c' ↔
        k ∈ a.channels c' ∧ ¬(c' = c ∧ k = channel) := by
    rw [Subscriptions.setChannels, update_congr_mem]
    by_cases heq : c' = c
    · simp [heq, and_comm]
    · simp [heq]
  obtain ⟨table, heq, hindex⟩ :=
    h.channelIndex.unlink (((h.channels c).mem channel).1 hmem) hleft
  refine ⟨table, heq, h.change hc rfl rfl (fun c' hne => ?_) ?_ ?_ ?_ hindex h.pairs_nodup h.pairs
    h.patternIndex⟩
  · exact ⟨setClient_other s _ hne, update_of_ne hne _ _, rfl, rfl⟩
  · simpa [Subscriptions.setChannels] using (h.channels c).erase channel
  · simpa [Subscriptions.setChannels] using h.patterns c
  · simpa [Subscriptions.setChannels] using h.reply c

theorem pubsubSubscribeChannel_linked (h : Linked s a) (hc : c ∈ s.clients) (channel : Bytes) :
    Linked (pubsubSubscribeChannel s c channel).2 (a.subscribe c channel) ∧
      (pubsubSubscribeChannel s c channel).2.clients = s.clients := by
  rw [pubsubSubscribeChannel, Subscriptions.subscribe]
  split_ifs with hmem
  · have hsame : a.setChannels c (insert channel (a.channels c)) = a := by
      rw [Finset.insert_eq_of_mem (((h.channels c).mem channel).1 hmem), Subscriptions.setChannels,
        update_eq_self]
    rw [hsame]
    exact ⟨h.notify hc (fun _ n => .subscribed channel n) fun _ => rfl, rfl⟩
  · exact ⟨(h.addChannel hc hmem).notify hc (fun _ n => .subscribed channel n) fun _ => rfl, rfl⟩

theorem pubsubUnsubscribeChannel_linked (h : Linked s a) (hc : c ∈ s.clients) (channel : Bytes)
    (notify : Bool) :
    ∃ s', pubsubUnsubscribeChannel s c channel notify =
        .ok (if channel ∈ a.channels c then 1 else 0, s') ∧
      Linked s' (a.unsubscribe notify c channel) ∧ s'.clients = s.clients := by
  -- the notification, if one is sent
  have hnotify {s' : Server} {a' : Subscriptions} (h' : Linked s' a') (hc' : c ∈ s'.clients) :
      Linked (if notify then addReplyPubsubUnsubscribed s' c (some channel) else s')
        (if notify then a'.send c [.unsubscribed (some channel) (a'.count c)] else a') := by
    cases notify with
    | true => exact h'.notify hc' (fun _ n => .unsubscribed (some channel) n) fun _ => rfl
    | false => exact h'
  have hclients (s' : Server) :
      (if notify then addReplyPubsubUnsubscribed s' c (some channel) else s').clients =
        s'.clients := by cases notify <;> rfl
  rw [pubsubUnsubscribeChannel, Subscriptions.unsubscribe]
  by_cases hmem : channel ∈ (s.client c).pubsubChannels
  · obtain ⟨table, heq, hdrop⟩ := h.dropChannel hc hmem
    rw [if_pos hmem, if_pos (((h.channels c).mem channel).1 hmem)]
    dsimp only [setClient] at heq ⊢
    rw [heq]
    exact ⟨_, rfl, hnotify hdrop hc, hclients _⟩
  · have hnot : channel ∉ a.channels c := fun hin => hmem (((h.channels c).mem channel).2 hin)
    have hsame : a.setChannels c ((a.channels c).erase channel) = a := by
      rw [Finset.erase_eq_of_notMem hnot, Subscriptions.setChannels, update_eq_self]
    rw [if_neg hmem, if_neg hnot, hsame]
    exact ⟨_, rfl, hnotify h hc, hclients _⟩

theorem Linked.addPattern (h : Linked s a) (hc : c ∈ s.clients)
    (hnew : pattern ∉ (s.client c).pubsubPatterns) :
    Linked
      { setClient s c { s.client c with
          pubsubPatterns := (s.client c).pubsubPatterns ++ [pattern] } with
        pubsubPatterns := s.pubsubPatterns ++ [(c, pattern)]
        pubsubPatternsDict := link s.pubsubPatternsDict pattern c }
      (a.setPatterns c (insert pattern (a.patterns c))) := by
  have hnot : pattern ∉ a.patterns c := fun hmem => hnew (((h.patterns c).mem pattern).2 hmem)
  have hmore (c' : ClientId) (k : Bytes) :
      k ∈ (a.setPatterns c (insert pattern (a.patterns c))).patterns c' ↔
        k ∈ a.patterns c' ∨ (c' = c ∧ k = pattern) := by
    rw [Subscriptions.setPatterns, update_congr_mem]
    by_cases heq : c' = c
    · simp [heq, or_comm]
    · simp [heq]
  have hpair : (c, pattern) ∉ s.pubsubPatterns := fun hin => hnot ((h.pairs c pattern).1 hin)
  refine h.change hc rfl rfl (fun c' hne => ?_) ?_ ?_ ?_ h.channelIndex ?_ ?_
    (h.patternIndex.link hnot hmore)
  · exact ⟨setClient_other s _ hne, rfl, update_of_ne hne _ _, rfl⟩
  · simpa [Subscriptions.setPatterns] using h.channels c
  · simpa [Subscriptions.setPatterns] using (h.patterns c).append hnew
  · simpa [Subscriptions.setPatterns] using h.reply c
  · exact List.nodup_append_comm.1 (List.nodup_cons.2 ⟨hpair, h.pairs_nodup⟩)
  · intro c' k
    rw [hmore, List.mem_append, List.mem_singleton, h.pairs, Prod.mk.injEq]

theorem Linked.dropPattern (h : Linked s a) (hc : c ∈ s.clients)
    (hmem : pattern ∈ (s.client c).pubsubPatterns) :
    (c, pattern) ∈ s.pubsubPatterns ∧
      ∃ table, unlink s.pubsubPatternsDict pattern c = some table ∧
        Linked
          { setClient s c { s.client c with
              pubsubPatterns := (s.client c).pubsubPatterns.erase pattern } with
            pubsubPatterns := s.pubsubPatterns.erase (c, pattern)
            pubsubPatternsDict := table }
          (a.setPatterns c ((a.patterns c).erase pattern)) := by
  have hin := ((h.patterns c).mem pattern).1 hmem
  have hleft (c' : ClientId) (k : Bytes) :
      k ∈ (a.setPatterns c ((a.patterns c).erase pattern)).patterns c' ↔
        k ∈ a.patterns c' ∧ ¬(c' = c ∧ k = pattern) := by
    rw [Subscriptions.setPatterns, update_congr_mem]
    by_cases heq : c' = c
    · simp [heq, and_comm]
    · simp [heq]
  obtain ⟨table, heq, hindex⟩ := h.patternIndex.unlink hin hleft
  refine ⟨(h.pairs c pattern).2 hin, table, heq,
    h.change hc rfl rfl (fun c' hne => ?_) ?_ ?_ ?_ h.channelIndex ?_ ?_ hindex⟩
  · exact ⟨setClient_other s _ hne, rfl, update_of_ne hne _ _, rfl⟩
  · simpa [Subscriptions.setPatterns] using h.channels c
  · simpa [Subscriptions.setPatterns] using (h.patterns c).erase pattern
  · simpa [Subscriptions.setPatterns] using h.reply c
  · exact h.pairs_nodup.erase _
  · intro c' k
    rw [hleft, h.pairs_nodup.mem_erase_iff, h.pairs, ne_eq, Prod.mk.injEq, and_comm]

theorem pubsubSubscribePattern_linked (h : Linked s a) (hc : c ∈ s.clients) (pattern : Bytes) :
    Linked (pubsubSubscribePattern s c pattern).2 (a.psubscribe c pattern) ∧
      (pubsubSubscribePattern s c pattern).2.clients = s.clients := by
  rw [pubsubSubscribePattern, Subscriptions.psubscribe]
  split_ifs with hmem
  · have hsame : a.setPatterns c (insert pattern (a.patterns c)) = a := by
      rw [Finset.insert_eq_of_mem (((h.patterns c).mem pattern).1 hmem), Subscriptions.setPatterns,
        update_eq_self]
    rw [hsame]
    exact ⟨h.notify hc (fun _ n => .psubscribed pattern n) fun _ => rfl, rfl⟩
  · exact ⟨(h.addPattern hc hmem).notify hc (fun _ n => .psubscribed pattern n) fun _ => rfl, rfl⟩

theorem pubsubUnsubscribePattern_linked (h : Linked s a) (hc : c ∈ s.clients) (pattern : Bytes)
    (notify : Bool) :
    ∃ s', pubsubUnsubscribePattern s c pattern notify =
        .ok (if pattern ∈ a.patterns c then 1 else 0, s') ∧
      Linked s' (a.punsubscribe notify c pattern) ∧ s'.clients = s.clients := by
  have hnotify {s' : Server} {a' : Subscriptions} (h' : Linked s' a') (hc' : c ∈ s'.clients) :
      Linked (if notify then addReplyPubsubPatUnsubscribed s' c (some pattern) else s')
        (if notify then a'.send c [.punsubscribed (some pattern) (a'.count c)] else a') := by
    cases notify with
    | true => exact h'.notify hc' (fun _ n => .punsubscribed (some pattern) n) fun _ => rfl
    | false => exact h'
  have hclients (s' : Server) :
      (if notify then addReplyPubsubPatUnsubscribed s' c (some pattern) else s').clients =
        s'.clients := by cases notify <;> rfl
  rw [pubsubUnsubscribePattern, Subscriptions.punsubscribe]
  by_cases hmem : pattern ∈ (s.client c).pubsubPatterns
  · obtain ⟨hpair, table, heq, hdrop⟩ := h.dropPattern hc hmem
    rw [if_pos hmem, if_pos (((h.patterns c).mem pattern).1 hmem)]
    dsimp only [setClient] at heq ⊢
    rw [if_pos hpair, heq]
    exact ⟨_, rfl, hnotify hdrop hc, hclients _⟩
  · have hnot : pattern ∉ a.patterns c := fun hin => hmem (((h.patterns c).mem pattern).2 hin)
    have hsame : a.setPatterns c ((a.patterns c).erase pattern) = a := by
      rw [Finset.erase_eq_of_notMem hnot, Subscriptions.setPatterns, update_eq_self]
    rw [if_neg hmem, if_neg hnot, hsame]
    exact ⟨_, rfl, hnotify h hc, hclients _⟩

end RedisCore.Pubsub
