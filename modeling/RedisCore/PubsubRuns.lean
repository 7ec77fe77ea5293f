import RedisCore.PubsubCommands

namespace RedisCore.Pubsub
open List (append_nil map_append map_cons mem_filter mem_map sum_cons)

open ReverseIndex

variable {s s' : Server} {a : Subscriptions} {c : ClientId}

structure Sent (s s' : Server) (sent : ClientId → List (Reply ℤ)) : Prop where
  clients : s'.clients = s.clients
  channels : s'.pubsubChannels = s.pubsubChannels
  pairs : s'.pubsubPatterns = s.pubsubPatterns
  patterns : s'.pubsubPatternsDict = s.pubsubPatternsDict
  client : ∀ c, s'.client c = { s.client c with reply := (s.client c).reply ++ sent c }

variable {f g : ClientId → List (Reply ℤ)} {receivers : ℤ} {clients : List ClientId}
  {channel msg : Bytes} {order : List Bytes} {events : List Event}

theorem Sent.trans {s1 s2 s3 : Server} (h1 : Sent s1 s2 f)
    (h2 : Sent s2 s3 g) : Sent s1 s3 (fun c => f c ++ g c) where
  clients := h2.clients.trans h1.clients
  channels := h2.channels.trans h1.channels
  pairs := h2.pairs.trans h1.pairs
  patterns := h2.patterns.trans h1.patterns
  client := by
    intro c
    rw [h2.client, h1.client, List.append_assoc]

theorem Sent.congr (h : Sent s s' f) (hfg : ∀ c, f c = g c) : Sent s s' g :=
  ⟨h.clients, h.channels, h.pairs, h.patterns, fun c => by rw [h.client, hfg]⟩

theorem Sent.refl (s : Server) : Sent s s (fun _ => []) :=
  ⟨rfl, rfl, rfl, rfl, fun c => by rw [append_nil]⟩

theorem addReply_sent (s : Server) (c : ClientId) (r : Reply ℤ) :
    Sent s (addReply s c r) (fun c' => if c' = c then [r] else []) := by
  refine ⟨rfl, rfl, rfl, rfl, fun c' => ?_⟩
  by_cases heq : c' = c
  · rw [heq, addReply, setClient_self, if_pos rfl]
  · rw [addReply, setClient_other s _ heq, if_neg heq, append_nil]

theorem sendToAll_sent (r : Reply ℤ) {cs : List ClientId} (hcs : cs.Nodup)
    (hr : toInt receivers = receivers) (s : Server) :
    Sent s (sendToAll r cs receivers s).2 (fun c => if c ∈ cs then [r] else []) ∧
      (sendToAll r cs receivers s).1 = toInt (receivers+cs.length) := by
  induction cs generalizing receivers s with
  | nil =>
    refine ⟨(Sent.refl s).congr fun c => (if_neg List.not_mem_nil).symm, ?_⟩
    rw [sendToAll, List.length_nil, Nat.cast_zero, Int.add_zero, hr]
  | cons c cs ih =>
    obtain ⟨hnew, hrest⟩ := List.nodup_cons.1 hcs
    obtain ⟨hsent, hcount⟩ := ih hrest (toInt_toInt (receivers+1)) (addReply s c r)
    rw [sendToAll]
    constructor
    · refine ((addReply_sent s c r).trans hsent).congr fun c' => ?_
      by_cases heq : c' = c
      · rw [heq, if_pos rfl, if_neg hnew, if_pos List.mem_cons_self, append_nil]
      · simp [heq]
    · rw [hcount, toInt_add, List.length_cons]
      refine congrArg toInt ?_
      push_cast
      ring

def members (s : Server) (pattern : Bytes) : List ClientId :=
  (s.pubsubPatternsDict.lookup pattern).getD []

theorem sendToMatching_sent (charValue : UInt8 → ℤ) (channel msg : Bytes) (order : List Bytes)
    (hr : toInt receivers = receivers) (s : Server)
    (hnodup : ∀ pattern, (members s pattern).Nodup) :
    Sent s (sendToMatching charValue channel msg order receivers s).2 (fun c =>
        (order.filter fun pattern => c ∈ members s pattern ∧
          patternMatches charValue pattern channel).map
            (fun pattern => .pmessage pattern channel msg)) ∧
      (sendToMatching charValue channel msg order receivers s).1 =
        toInt (receivers+(order.map fun pattern =>
          if patternMatches charValue pattern channel then (members s pattern).length else 0).sum) := by
  induction order generalizing receivers s with
  | nil =>
    refine ⟨Sent.refl s, ?_⟩
    rw [sendToMatching, List.map_nil, List.sum_nil, Nat.cast_zero, Int.add_zero, hr]
  | cons pattern order ih =>
    rw [sendToMatching]
    by_cases hmatch : patternMatches charValue pattern channel = true
    · rw [if_pos hmatch]
      dsimp only
      rw [← members]
      obtain ⟨hsent, hcount⟩ :=
        sendToAll_sent (.pmessage pattern channel msg) (hnodup pattern) hr s
      have hmembers (p : Bytes) :
          members (sendToAll (.pmessage pattern channel msg) (members s pattern) receivers s).2 p =
            members s p := by rw [members, hsent.patterns, members]
      have hnarrow : toInt (sendToAll (.pmessage pattern channel msg) (members s pattern) receivers
          s).1 = (sendToAll (.pmessage pattern channel msg) (members s pattern) receivers s).1 := by
        rw [hcount, toInt_toInt]
      obtain ⟨hsent', hcount'⟩ := ih hnarrow
        (sendToAll (.pmessage pattern channel msg) (members s pattern) receivers s).2
        fun p => by rw [hmembers]; exact hnodup p
      constructor
      · refine (hsent.trans hsent').congr fun c => ?_
        simp only [hmembers]
        by_cases hc : c ∈ members s pattern
        · simp [hc, hmatch]
        · simp [hc]
      · simp only [hmembers] at hcount'
        rw [hcount', hcount, toInt_add, map_cons, sum_cons, if_pos hmatch]
        refine congrArg toInt ?_
        push_cast
        ring
    · rw [if_neg hmatch]
      obtain ⟨hsent, hcount⟩ := ih hr s hnodup
      constructor
      · refine hsent.congr fun c => ?_
        simp [hmatch]
      · rw [hcount, map_cons, sum_cons, if_neg hmatch, Nat.zero_add]

theorem Sent.linked {f : ClientId → List (Reply ℕ)} (h : Linked s a)
    (hsent : Sent s s' (fun c => (f c).map Reply.narrow)) :
    Linked s' { a with reply := fun c => a.reply c ++ f c } where
  nodup := hsent.clients ▸ h.nodup
  clients := hsent.clients.trans h.clients
  absent := hsent.clients ▸ h.absent
  channels := by
    intro c
    rw [hsent.client]
    exact h.channels c
  patterns := by
    intro c
    rw [hsent.client]
    exact h.patterns c
  channelIndex := hsent.channels ▸ h.channelIndex
  pairs_nodup := hsent.pairs ▸ h.pairs_nodup
  pairs := hsent.pairs ▸ h.pairs
  patternIndex := hsent.patterns ▸ h.patternIndex
  reply := by
    intro c
    rw [hsent.client, map_append, h.reply]

theorem length_eq_sum {l : List ClientId} (hl : l.Nodup) (hclients : clients.Nodup)
    (hsub : ∀ c ∈ l, c ∈ clients) :
    l.length = (clients.map fun c => if c ∈ l then 1 else 0).sum := by
  have hperm : (clients.filter (· ∈ l)).Perm l := by
    rw [List.perm_ext_iff_of_nodup (hclients.filter _) hl]
    intro c
    rw [mem_filter, decide_eq_true_eq]
    exact ⟨fun h => h.2, fun h => ⟨hsub c h, h⟩⟩
  rw [← hperm.length_eq, ← List.countP_eq_length_filter]
  clear hperm hsub hclients
  induction clients with
  | nil => rfl
  | cons c cs ih =>
    rw [List.countP_cons, map_cons, sum_cons, ih, Nat.add_comm]
    simp only [decide_eq_true_eq]

theorem pattern_messages_sum (has : ClientId → Bytes → Prop)
    [∀ c p, Decidable (has c p)] (matched : Bytes → Bool) {size : Bytes → ℕ}
    (hsize : ∀ p, size p = (clients.map fun c => if has c p then 1 else 0).sum)
    (order : List Bytes) :
    (order.map fun p => if matched p then size p else 0).sum =
      (clients.map fun c => (order.filter fun p => has c p ∧ matched p).length).sum := by
  induction order with
  | nil => simp
  | cons p order ih =>
    rw [map_cons, sum_cons, ih]
    have hstep (c : ClientId) : ((p :: order).filter fun p => has c p ∧ matched p).length =
        (if has c p ∧ matched p then 1 else 0)+
          (order.filter fun p => has c p ∧ matched p).length := by
      rw [List.filter_cons]
      by_cases hp : has c p ∧ matched p = true
      · simp [hp, Nat.add_comm]
      · simp [hp]
    simp only [hstep]
    rw [List.sum_map_add, hsize]
    cases hm : matched p with
    | true => simp
    | false => simp

theorem pubsubPublishMessage_sent (charValue : UInt8 → ℤ) (channel msg : Bytes)
    (order : List Bytes) (h : Linked s a) :
    Sent s (pubsubPublishMessage charValue s channel msg order).2
        (fun c => (a.deliveries charValue channel msg order c).map Reply.narrow) ∧
      (pubsubPublishMessage charValue s channel msg order).1 =
        toInt (a.receivers charValue channel msg order) := by
  let listeners := (s.pubsubChannels.lookup channel).getD []
  obtain ⟨hsent, hcount⟩ := sendToAll_sent (.message channel msg)
    (h.channelIndex.nodup_members channel) (show toInt 0 = 0 from rfl) s
  let s1 := (sendToAll (.message channel msg) listeners 0 s).2
  let n1 := (sendToAll (.message channel msg) listeners 0 s).1
  have hmembers (p : Bytes) : members s1 p = members s p := by
    rw [members, hsent.patterns, members]
  have hn1 : toInt n1 = n1 := by
    rw [show n1 = _ from hcount, toInt_toInt]
  obtain ⟨hsent', hcount'⟩ := sendToMatching_sent charValue channel msg order hn1 s1
    fun p => by rw [hmembers]; exact h.patternIndex.nodup_members p
  have hlistens (c : ClientId) : c ∈ listeners ↔ channel ∈ a.channels c := h.channelIndex.mem channel c
  have hhas (c : ClientId) (p : Bytes) : c ∈ members s p ↔ p ∈ a.patterns c :=
    h.patternIndex.mem p c
  -- everybody in an index is a client
  have hinside {c : ClientId} (hc : c ∉ s.clients) : channel ∉ a.channels c ∧ ∀ p, p ∉ a.patterns c := by
    rw [(h.absent c hc).1, (h.absent c hc).2]
    simp
  have hlength : listeners.length =
      (s.clients.map fun c => if channel ∈ a.channels c then 1 else 0).sum := by
    rw [length_eq_sum (h.channelIndex.nodup_members channel) h.nodup fun c hc => by
      by_contra hout
      exact (hinside hout).1 ((hlistens c).1 hc)]
    simp only [← hlistens]
    rfl
  have hsize (p : Bytes) : (members s p).length =
      (s.clients.map fun c => if p ∈ a.patterns c then 1 else 0).sum := by
    have hnodup : (members s p).Nodup := h.patternIndex.nodup_members p
    rw [length_eq_sum hnodup h.nodup fun c hc => by
      by_contra hout
      exact (hinside hout).2 p ((hhas c p).1 hc)]
    simp only [← hhas]
  constructor
  · refine (hsent.trans hsent').congr fun c => ?_
    rw [Subscriptions.deliveries, map_append, List.map_map]
    simp only [hmembers, hhas]
    refine congrArg (· ++ _) ?_
    by_cases hc : channel ∈ a.channels c
    · rw [if_pos hc, if_pos ((hlistens c).2 hc)]
      rfl
    · rw [if_neg hc, if_neg fun hin => hc ((hlistens c).1 hin)]
      rfl
  · have hsum := pattern_messages_sum (fun c p => p ∈ a.patterns c)
      (fun p => patternMatches charValue p channel) hsize order
    have hreceivers : a.receivers charValue channel msg order =
        listeners.length+(order.map fun p => if patternMatches charValue p channel then
          (members s p).length else 0).sum := by
      rw [Subscriptions.receivers, hlength, hsum, ← h.clients, ← List.sum_map_add]
      refine congrArg List.sum (List.map_congr_left fun c _ => ?_)
      rw [Subscriptions.deliveries, List.length_append, List.length_map]
      split_ifs <;> rfl
    rw [show (pubsubPublishMessage charValue s channel msg order).1 = _ from hcount']
    simp only [hmembers]
    rw [show n1 = _ from hcount, toInt_add, hreceivers]
    refine congrArg toInt ?_
    push_cast
    ring

theorem publish_linked (charValue : UInt8 → ℤ) {sender : Option ClientId} (h : Linked s a)
    (hsender : ∀ c ∈ sender, c ∈ s.clients) :
    Linked (publish charValue s sender channel msg order)
      (a.publish charValue sender channel msg order) := by
  obtain ⟨hsent, htotal⟩ := pubsubPublishMessage_sent charValue channel msg order h
  have hsentAll := Sent.linked h hsent
  cases sender with
  | none => exact hsentAll
  | some c =>
    have hreply := hsentAll.addReply (hsent.clients ▸ hsender c rfl)
      (.receivers (a.receivers charValue channel msg order))
    rw [Reply.narrow, Reply.map, ← htotal] at hreply
    exact hreply

def patternOrder (s : Server) (c : ClientId) : List Bytes := (s.client c).pubsubPatterns

inductive Runs (charValue : UInt8 → ℤ) : List Event → Server → Subscriptions → Prop where
  | init : Runs charValue [] initServer Subscriptions.init
  | step {events : List Event} {s s' : Server} {a : Subscriptions} {e : Event} :
      Runs charValue events s a → Allowed s e → step charValue s e = .ok s' →
        Runs charValue (events ++ [e]) s' (a.step charValue (patternOrder s) e)

variable {charValue : UInt8 → ℤ}

theorem step_linked (charValue : UInt8 → ℤ) {e : Event} (h : Linked s a) (he : Allowed s e) :
    ∃ s', step charValue s e = .ok s' ∧ Linked s' (a.step charValue (patternOrder s) e) := by
  cases e with
  | connect c => exact ⟨_, rfl, createClient_linked h he⟩
  | subscribe c channels => exact ⟨_, rfl, subscribeCommand_linked channels h he⟩
  | unsubscribe c channels order => exact unsubscribeCommand_linked h he.1 he.2
  | psubscribe c patterns => exact ⟨_, rfl, psubscribeCommand_linked patterns h he⟩
  | punsubscribe c patterns => exact punsubscribeCommand_linked h he
  | disconnect c order => exact freeClient_linked h he.1 he.2
  | publish sender channel msg order => exact ⟨_, rfl, publish_linked charValue h he.1⟩

theorem Runs.linked (hr : Runs charValue events s a) : Linked s a := by
  induction hr with
  | init => exact linked_init
  | step _ he hstep ih =>
    obtain ⟨s', heq, h'⟩ := step_linked _ ih he
    rw [hstep] at heq
    obtain rfl := Except.ok.inj heq
    exact h'

/-- One message for the channel, if the client is subscribed to it, and one for each of its
patterns that matches; nothing else. -/
structure Delivers (charValue : UInt8 → ℤ) (a : Subscriptions) (channel msg : Bytes) (c : ClientId)
    (messages : List (Reply ℕ)) : Prop where
  nodup : messages.Nodup
  mem (r : Reply ℕ) : r ∈ messages ↔ (channel ∈ a.channels c ∧ r = .message channel msg) ∨
    ∃ pattern ∈ a.patterns c, patternMatches charValue pattern channel = true ∧
      r = .pmessage pattern channel msg

theorem deliveries_delivers (h : Linked s a) (horder : order.Perm s.pubsubPatternsDict.keys)
    (c : ClientId) :
    Delivers charValue a channel msg c (a.deliveries charValue channel msg order c) := by
  have hnodup : order.Nodup := horder.nodup_iff.2 s.pubsubPatternsDict.nodupKeys
  have hlisted {pattern : Bytes} (hp : pattern ∈ a.patterns c) : pattern ∈ order :=
    horder.mem_iff.2 (h.patternIndex.mem_keys.2 ⟨c, hp⟩)
  have hinj : Function.Injective (fun pattern => (Reply.pmessage pattern channel msg : Reply ℕ)) := by
    intro p q hpq
    injection hpq
  constructor
  · refine List.Nodup.append ?_ ((hnodup.filter _).map hinj) ?_
    · split_ifs <;> simp
    · intro r hr hr'
      obtain ⟨p, -, rfl⟩ := mem_map.1 hr'
      split_ifs at hr <;> simp at hr
  · intro r
    rw [Subscriptions.deliveries, List.mem_append, mem_map]
    refine or_congr ?_ ?_
    · split_ifs with hc <;> simp [hc]
    · constructor
      · intro ⟨p, hp, hr⟩
        obtain ⟨-, hcond⟩ := mem_filter.1 hp
        obtain ⟨hin, hmatch⟩ := of_decide_eq_true hcond
        exact ⟨p, hin, hmatch, hr.symm⟩
      · intro ⟨p, hin, hmatch, hr⟩
        exact ⟨p, mem_filter.2 ⟨hlisted hin, decide_eq_true ⟨hin, hmatch⟩⟩, hr.symm⟩

theorem toInt_eq_iff (n : ℕ) : toInt n = n ↔ n < 2^31 := by
  constructor
  · intro h
    have hlt := toInt_lt n
    rw [h] at hlt
    exact_mod_cast hlt
  · intro h
    exact toInt_of_fits (by omega) (by exact_mod_cast h)

def Reply.Small : Reply ℕ → Prop
  | .subscribed _ n => n < 2^31
  | .unsubscribed _ n => n < 2^31
  | .psubscribed _ n => n < 2^31
  | .punsubscribed _ n => n < 2^31
  | .message _ _ => True
  | .pmessage _ _ _ => True
  | .receivers n => n < 2^31

theorem narrow_eq_exact_iff (r : Reply ℕ) : r.narrow = r.exact ↔ r.Small := by
  cases r <;> simp [Reply.narrow, Reply.exact, Reply.map, Reply.Small, toInt_eq_iff]

def Exact (s : Server) (a : Subscriptions) : Prop :=
  ∀ c ∈ s.clients, (s.client c).reply = (a.reply c).map Reply.exact

theorem Linked.exact_iff (h : Linked s a) :
    Exact s a ↔ ∀ c ∈ s.clients, ∀ r ∈ a.reply c, r.Small := by
  refine forall₂_congr fun c _ => ?_
  rw [h.reply, List.map_inj_left]
  exact forall₂_congr fun r _ => narrow_eq_exact_iff r

def subscribeMany (n : ℕ) : List Event :=
  .connect 0 :: (List.range n).map (fun i => .subscribe 0 [leBytes 4 i])

theorem subscribeMany_runs (charValue : UInt8 → ℤ) {n : ℕ} (hn : n ≤ 2^31) :
    ∃ s a, Runs charValue (subscribeMany n) s a ∧ a.clients = [0] ∧ a.patterns 0 = ∅ ∧
      (a.channels 0).card = n ∧ (∀ x ∈ a.channels 0, ∃ i < n, x = leBytes 4 i) ∧
      ∀ m, n = m+1 → .subscribed (leBytes 4 m) n ∈ a.reply 0 := by
  induction n with
  | zero =>
    have hinit : Runs charValue [] initServer Subscriptions.init := Runs.init
    have he : Allowed initServer (.connect 0) := List.not_mem_nil
    exact ⟨_, _, hinit.step he rfl, rfl, rfl, rfl, fun x hx => absurd hx (Finset.notMem_empty x),
      fun m hm => absurd hm (Nat.succ_ne_zero m).symm⟩
  | succ n ih =>
    obtain ⟨s, a, hr, hclients, hpatterns, hcard, hnames, -⟩ := ih (by omega)
    have hzero : 0 ∈ s.clients := by
      rw [hr.linked.clients, hclients]
      exact List.mem_singleton_self 0
    have he : Allowed s (.subscribe 0 [leBytes 4 n]) := hzero
    obtain ⟨s', hstep, -⟩ := step_linked charValue hr.linked he
    have hevents : subscribeMany (n+1) = subscribeMany n ++ [.subscribe 0 [leBytes 4 n]] := by
      rw [subscribeMany, List.range_succ, map_append]
      rfl
    have hnew : leBytes 4 n ∉ a.channels 0 := by
      intro hin
      obtain ⟨i, hi, heq⟩ := hnames _ hin
      have hnat := congrArg leNat heq
      rw [leNat_leBytes_of_lt (by omega), leNat_leBytes_of_lt (by omega)] at hnat
      omega
    let a' := a.subscribe 0 (leBytes 4 n)
    have hchannels : a'.channels 0 = insert (leBytes 4 n) (a.channels 0) := by
      simp [a', Subscriptions.subscribe, Subscriptions.send, Subscriptions.setChannels]
    have hcard' : (a'.channels 0).card = n+1 := by
      rw [hchannels, Finset.card_insert_of_notMem hnew, hcard]
    refine ⟨s', a', hevents ▸ hr.step he hstep, hclients, hpatterns, hcard', ?_, ?_⟩
    · intro x hx
      rw [hchannels, Finset.mem_insert] at hx
      rcases hx with rfl | hx
      · exact ⟨n, Nat.lt_succ_self n, rfl⟩
      · obtain ⟨i, hi, heq⟩ := hnames x hx
        exact ⟨i, by omega, heq⟩
    · intro m hm
      obtain rfl : n = m := Nat.succ.inj hm
      have hcount : (a.setChannels 0 (insert (leBytes 4 n) (a.channels 0))).count 0 = n+1 := by
        rw [Subscriptions.count, ← hcard']
        simp [Subscriptions.setChannels, hpatterns, hchannels]
      rw [show a' = a.subscribe 0 (leBytes 4 n) from rfl, Subscriptions.subscribe, hcount]
      simp [Subscriptions.send, Subscriptions.setChannels]

end RedisCore.Pubsub
