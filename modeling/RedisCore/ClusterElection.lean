import RedisCore.ClusterBallots

namespace RedisCore.Cluster
open List (append_assoc map_append mem_append mem_map nil_append nodup_nil not_mem_nil)
open Option (any_some map_eq_some_iff map_none map_some)

variable {cs cs' : ClusterState} {x y : NodeId} {n m : ClusterNode} {M : Finset NodeName}

structure Agrees (M : Finset NodeName) (cs : ClusterState) : Prop where
  masters : ∀ x n, cs.nodes x = some n → cs.table n.name = some x →
    ((n.flags.master = true ∧ n.numslots ≠ 0) ↔ n.name ∈ M)
  known : ∀ name ∈ M, ∃ x, cs.table name = some x
  size : cs.size = clusterSize cs

theorem mem_servers {cs : ClusterState} (hv : View cs) {x : NodeId} :
    x ∈ (nodeIds cs).filter (servesSlots cs) ↔ ∃ n, cs.nodes x = some n ∧
      cs.table n.name = some x ∧ n.flags.master = true ∧ n.numslots ≠ 0 := by
  unfold nodeIds servesSlots
  rw [List.mem_filter, List.mem_filter, List.mem_range]
  simp only [Option.any_eq_true, decide_eq_true_eq, Bool.and_eq_true]
  constructor
  · rintro ⟨⟨-, n, hn, ht⟩, n', hn', hm, hs⟩
    rw [hn, Option.some.injEq] at hn'
    exact ⟨n, hn, ht, hn' ▸ hm, hn' ▸ hs⟩
  · rintro ⟨n, hn, ht, hm, hs⟩
    exact ⟨⟨hv.toTable.bound x n hn, n, hn, ht⟩, n, hn, hm, hs⟩

theorem Agrees.size_eq (h : Agrees M cs) (hv : View cs) : cs.size = M.card := by
  rw [h.size]
  have hnodup : ((nodeIds cs).filter (servesSlots cs)).Nodup := by
    apply List.Nodup.filter
    unfold nodeIds
    exact List.nodup_range.filter _
  unfold clusterSize
  rw [← List.toFinset_card_of_nodup hnodup]
  -- every master of `M` has one address, and every counted address one name
  choose address haddress using h.known
  apply Eq.symm
  apply Finset.card_bij address
  · intro name hname
    have ht := haddress name hname
    obtain ⟨n, hn, hn'⟩ := hv.toTable.listed _ _ ht
    have htn : cs.table n.name = some (address name hname) := by rw [hn', ht]
    rw [List.mem_toFinset, mem_servers hv]
    exact ⟨n, hn, htn, (h.masters _ n hn htn).mpr (by rw [hn']; exact hname)⟩
  · intro a ha b hb hab
    obtain ⟨n, hn, hna⟩ := hv.toTable.listed _ _ (haddress a ha)
    obtain ⟨m, hm, hmb⟩ := hv.toTable.listed _ _ (haddress b hb)
    rw [hab, hm, Option.some.injEq] at hn
    rw [← hna, ← hmb, hn]
  · intro x hx
    rw [List.mem_toFinset, mem_servers hv] at hx
    obtain ⟨n, hn, ht, hm⟩ := hx
    have hmem := (h.masters x n hn ht).mp hm
    have hc := haddress n.name hmem
    rw [ht, Option.some.injEq] at hc
    exact ⟨n.name, hmem, hc.symm⟩

def ClusterNode.seat (n : ClusterNode) : NodeName × Bool × ℕ := (n.name, n.flags.master, n.numslots)

theorem Agrees.alike (h : Agrees M cs)
    (hn : ∀ x, (cs'.nodes x).map ClusterNode.seat = (cs.nodes x).map ClusterNode.seat)
    (ht : cs'.table = cs.table) (hf : cs'.fresh = cs.fresh) (hs : cs'.size = cs.size) :
    Agrees M cs' := by
  have hserves : servesSlots cs' = servesSlots cs := by
    ext1 x
    have hx := hn x
    unfold servesSlots
    cases h' : cs'.nodes x with
    | none =>
      rw [h', map_none, eq_comm, Option.map_eq_none_iff] at hx
      rw [hx]
    | some n' =>
      rw [h', map_some, eq_comm, map_eq_some_iff] at hx
      obtain ⟨n, hnx, hseat⟩ := hx
      unfold ClusterNode.seat at hseat
      rw [Prod.mk.injEq, Prod.mk.injEq] at hseat
      rw [hnx, any_some, any_some, hseat.2.1, hseat.2.2]
  have hids : nodeIds cs' = nodeIds cs := by
    unfold nodeIds
    rw [hf, ht]
    apply List.filter_congr
    intro x _
    have hx := hn x
    cases h' : cs'.nodes x with
    | none =>
      rw [h', map_none, eq_comm, Option.map_eq_none_iff] at hx
      rw [hx]
    | some n' =>
      rw [h', map_some, eq_comm, map_eq_some_iff] at hx
      obtain ⟨n, hnx, hseat⟩ := hx
      unfold ClusterNode.seat at hseat
      rw [Prod.mk.injEq, Prod.mk.injEq] at hseat
      rw [hnx, any_some, any_some, hseat.1]
  refine ⟨?_, ?_, ?_⟩
  · intro x n' hx htab
    have hx' := hn x
    rw [hx, map_some, eq_comm, map_eq_some_iff] at hx'
    obtain ⟨n, hnx, hseat⟩ := hx'
    unfold ClusterNode.seat at hseat
    rw [Prod.mk.injEq, Prod.mk.injEq] at hseat
    rw [ht, ← hseat.1] at htab
    rw [← hseat.1, ← hseat.2.1, ← hseat.2.2]
    exact h.masters x n hnx htab
  · rw [ht]
    exact h.known
  · rw [hs, h.size]
    unfold clusterSize
    rw [hids, hserves]

def ClusterMsg.ballot (msg : ClusterMsg) : NodeName × ℕ := (msg.sender, msg.currentEpoch)

def MsgBody.ack : MsgBody → Bool
  | .authAck => true
  | _ => false

/-- Any number of nodes and the messages under way, each with the node it goes to. -/
structure Electorate (ι : Type) where
  view : ι → ClusterState
  sent : List (NodeName × ClusterMsg)
  acks : List (ι × ClusterMsg)
  wins : List (ι × ℕ)

/-- A node looks after its failover, receives a message of those under way, or does anything else;
and messages get lost. -/
inductive ElectEvent (ι : Type) where
  | failover (i : ι) (env : Env) (cron : Bool)
  | receive (i : ι) (env : Env) (link : Option NodeId) (msg : ℕ)
  | act (i : ι) (env : Env) (ev : ClusterEvent)
  | lose (msg : ℕ)

section Electorate

variable {ι : Type} [DecidableEq ι] {cfg : ι → ClusterConfig} {name : ι → NodeName}
variable {s s' : Electorate ι} {i : ι}

def putView (s : Electorate ι) (i : ι) (cs : ClusterState) : Electorate ι :=
  { s with view := Function.update s.view i { cs with out := [] }, sent := s.sent ++ cs.out }

def stepElectorate (cfg : ι → ClusterConfig) (name : ι → NodeName) (s : Electorate ι) :
    ElectEvent ι → Option (Electorate ι)
  | .failover i env cron =>
    (failoverCall (cfg i) env (s.view i) cron).toOption.map (fun r =>
      { putView s i r.1 with
        wins := if r.2 then s.wins ++ [(i, (s.view i).failoverAuthEpoch)] else s.wins })
  | .receive i env link msg => (s.sent[msg]?).bind (fun p =>
    if p.1 = name i ∧ linkAlive (s.view i) link = true then
      (clusterProcessPacket (cfg i) env (s.view i) link p.2).toOption.map (fun cs =>
        putView { s with
          sent := s.sent.eraseIdx msg
          acks := if p.2.body.ack then s.acks ++ [(i, p.2)] else s.acks } i cs)
    else none)
  | .act _ _ (.packet _ _) => none
  | .act _ _ .slaveFailover => none
  | .act _ _ .cron => none
  | .act i env ev => (stepEvent (cfg i) env (s.view i) ev).toOption.map (putView s i)
  | .lose msg => some { s with sent := s.sent.eraseIdx msg }

def runElectorate (cfg : ι → ClusterConfig) (name : ι → NodeName) (s : Electorate ι) :
    List (ElectEvent ι) → Option (Electorate ι)
  | [] => some s
  | e :: es => (stepElectorate cfg name s e).bind (fun s => runElectorate cfg name s es)

def EachEvent (P : Electorate ι → ElectEvent ι → Prop) (cfg : ι → ClusterConfig)
    (name : ι → NodeName) : Electorate ι → List (ElectEvent ι) → Prop
  | _, [] => True
  | s, e :: es => P s e ∧ ∀ s', stepElectorate cfg name s e = some s' → EachEvent P cfg name s' es

def votesFor (s : Electorate ι) (M : Finset NodeName) (i : ι) (e : ℕ) : Finset NodeName :=
  M.filter (fun name => (i, name, e) ∈ s.acks.map (fun p => (p.1, p.2.ballot)))

def sentBallots (sent : List (NodeName × ClusterMsg)) : List (NodeName × ℕ) :=
  ((sent.map Prod.snd).filter (fun msg => msg.body.ack)).map ClusterMsg.ballot

def ballots (s : Electorate ι) : List (NodeName × ℕ) :=
  sentBallots s.sent ++ s.acks.map (fun p => p.2.ballot)

theorem sentBallots_append (sent sent' : List (NodeName × ClusterMsg)) :
    sentBallots (sent ++ sent') = sentBallots sent ++ sentBallots sent' := by
  unfold sentBallots
  rw [map_append, List.filter_append, map_append]

theorem MsgBody.ack_eq {body : MsgBody} (h : body.ack = true) : body = .authAck := by
  cases body with
  | authAck => rfl
  | _ => cases h

variable {sent msgs : List (NodeName × ClusterMsg)} {msg : ℕ} {p : NodeName × ClusterMsg}
  {request : ClusterMsg} {replica : NodeName} {env : Env} {cron : Bool} {link : Option NodeId}
  {ev : ClusterEvent}

theorem sentBallots_none (h : ∀ p ∈ sent, p.2.body ≠ .authAck) : sentBallots sent = [] := by
  unfold sentBallots
  rw [List.map_eq_nil_iff, List.filter_eq_nil_iff]
  intro msg hmsg hack
  obtain ⟨p, hp, rfl⟩ := mem_map.mp hmsg
  exact h p hp (MsgBody.ack_eq hack)

theorem sentBallots_take (h : sent[msg]? = some p) :
    (sentBallots sent).Perm (sentBallots [p] ++ sentBallots (sent.eraseIdx msg)) := by
  rw [← sentBallots_append]
  obtain ⟨hlt, hp⟩ := List.getElem?_eq_some_iff.mp h
  have hperm : sent.Perm ([p] ++ sent.eraseIdx msg) := by
    rw [← hp]
    exact (List.getElem_cons_eraseIdx_perm hlt).symm
  exact ((hperm.map _).filter _).map _

/-- What holds at any time: no node votes twice in an epoch, or for an epoch that was not asked for,
and none asks for votes in an epoch ahead of its own. -/
structure Ballots (name : ι → NodeName) (s : Electorate ι) : Prop where
  good : ∀ i, Good anything (s.view i)
  named : ∀ i, KnownAs (name i) (s.view i)
  vote : ∀ i, (s.view i).lastVoteEpoch ≤ (s.view i).currentEpoch
  epoch : ∀ i, (s.view i).failoverAuthEpoch ≤ (s.view i).currentEpoch
  silent : ∀ i, (s.view i).out = []
  once : (ballots s).Nodup
  cast : ∀ b ∈ ballots s, ∃ i, b.1 = name i ∧ b.2 ≤ (s.view i).lastVoteEpoch
  flying : ∀ p ∈ s.sent, p.2.body = .authAck → ∀ i, p.1 = name i →
    p.2.currentEpoch ≤ (s.view i).failoverAuthEpoch
  asked : ∀ p ∈ s.sent, p.2.body = .authRequest → ∀ i, p.2.sender = name i →
    p.2.currentEpoch ≤ (s.view i).failoverAuthEpoch

structure Onward (cs cs' : ClusterState) : Prop where
  vote : cs.lastVoteEpoch ≤ cs'.lastVoteEpoch
  epoch : cs.failoverAuthEpoch ≤ cs'.failoverAuthEpoch
  voted : cs.lastVoteEpoch ≤ cs.currentEpoch → cs'.lastVoteEpoch ≤ cs'.currentEpoch
  begun : cs.failoverAuthEpoch ≤ cs.currentEpoch → cs'.failoverAuthEpoch ≤ cs'.currentEpoch

theorem Onward.trans {cs'' : ClusterState} (h : Onward cs cs') (h' : Onward cs' cs'') :
    Onward cs cs'' :=
  ⟨h.vote.trans h'.vote, h.epoch.trans h'.epoch, fun hv => h'.voted (h.voted hv),
    fun he => h'.begun (h.begun he)⟩

theorem Calm.onward (h : Calm cs cs') : Onward cs cs' := by
  refine ⟨h.vote.ge, h.epoch.ge, ?_, ?_⟩
  · intro hv
    rw [h.vote]
    exact hv.trans h.current
  · intro he
    rw [h.epoch]
    exact he.trans h.current

theorem Voted.onward {voter dest : NodeName} (h : Voted voter dest request cs cs')
    (hv : cs.lastVoteEpoch ≤ cs.currentEpoch) :
    Onward cs cs' := by
  refine ⟨?_, h.epoch.ge, ?_, ?_⟩
  · rw [h.vote]
    exact hv
  · intro _
    rw [h.vote, h.current]
  · intro he
    rw [h.epoch, h.current]
    exact he

theorem Scheduled.onward (h : Scheduled cs cs') : Onward cs cs' := by
  refine ⟨h.vote.ge, h.epoch.ge, ?_, ?_⟩
  · intro hv
    rw [h.vote]
    exact hv.trans h.current
  · intro he
    rw [h.epoch]
    exact he.trans h.current

theorem Requested.onward (h : Requested replica cs cs')
    (he : cs.failoverAuthEpoch ≤ cs.currentEpoch) : Onward cs cs' := by
  refine ⟨h.vote.ge, ?_, ?_, ?_⟩
  · rw [h.epoch]
    exact he.trans (Nat.le_succ _)
  · intro hv
    rw [h.vote, h.current]
    exact hv.trans (Nat.le_succ _)
  · intro _
    rw [h.epoch, h.current]

def Fair (name : ι → NodeName) (s : Electorate ι) (i : ι) (cs' : ClusterState)
    (p : NodeName × ClusterMsg) : Prop :=
  (p.2.body = .authAck → ∀ j, p.1 = name j → p.2.currentEpoch ≤ (s.view j).failoverAuthEpoch) ∧
    (p.2.body = .authRequest → p.2.sender = name i ∧ p.2.currentEpoch ≤ cs'.failoverAuthEpoch)

omit [DecidableEq ι] in
theorem fair_of_quiet (s : Electorate ι) (i : ι) (cs' : ClusterState) (h : p.2.body.auth = false) :
    Fair name s i cs' p := by
  refine ⟨?_, ?_⟩
  · intro hb
    rw [hb] at h
    cases h
  · intro hb
    rw [hb] at h
    cases h

theorem Ballots.move (h : Ballots name s) (hinj : Function.Injective name)
    (he : Edits anything (s.view i) cs)
    (ho : Onward (s.view i) cs) (hview : s'.view = Function.update s.view i { cs with out := [] }) (hperm : (ballots s').Perm (ballots s ++ sentBallots msgs))
    (hnodup : (sentBallots msgs).Nodup)
    (hcast : ∀ b ∈ sentBallots msgs, b.1 = name i ∧ b.2 ≤ cs.lastVoteEpoch ∧
      (s.view i).lastVoteEpoch < b.2)
    (hsent : ∀ p ∈ s'.sent, p ∈ s.sent ∨ p ∈ msgs) (hfair : ∀ p ∈ msgs, Fair name s i cs p) :
    Ballots name s' := by
  have hself : s'.view i = { cs with out := [] } := by rw [hview, Function.update_self]
  have hother : ∀ j, j ≠ i → s'.view j = s.view j := by
    intro j hj
    rw [hview, Function.update_of_ne hj]
  have hmono : ∀ j, (s.view j).lastVoteEpoch ≤ (s'.view j).lastVoteEpoch ∧
      (s.view j).failoverAuthEpoch ≤ (s'.view j).failoverAuthEpoch := by
    intro j
    by_cases hj : j = i
    · rw [hj, hself]
      exact ⟨ho.vote, ho.epoch⟩
    · rw [hother j hj]
      exact ⟨le_refl _, le_refl _⟩
  have hall : ∀ (P : ι → ClusterState → Prop), (∀ j, P j (s.view j)) → P i { cs with out := [] } →
      ∀ j, P j (s'.view j) := by
    intro P hold hnew j
    by_cases hj : j = i
    · rw [hj, hself]
      exact hnew
    · rw [hother j hj]
      exact hold j
  have hg := (h.good i).edits he
  have ht := hg.toTable
  refine ⟨?_, ?_, ?_, ?_, ?_, ?_, ?_, ?_, ?_⟩
  · apply hall (fun _ c => Good anything c) h.good
    exact ⟨⟨⟨ht.bit, ht.owner, ht.count, ht.importing, ht.migrating, ht.listed, ht.handshake,
      ht.bound⟩, hg.me⟩, hg.own, Or.inr trivial, Or.inr trivial⟩
  · apply hall (fun j c => KnownAs (name j) c) h.named
    obtain ⟨me, hme, hnm, hh⟩ := (h.named i).edits (h.good i) he
    exact ⟨me, hme, hnm, hh⟩
  · exact hall (fun _ c => c.lastVoteEpoch ≤ c.currentEpoch) h.vote (ho.voted (h.vote i))
  · exact hall (fun _ c => c.failoverAuthEpoch ≤ c.currentEpoch) h.epoch (ho.begun (h.epoch i))
  · exact hall (fun _ c => c.out = []) h.silent rfl
  · -- a new vote is later than all the node cast before
    rw [hperm.nodup_iff, List.nodup_append]
    refine ⟨h.once, hnodup, ?_⟩
    rintro b hb b' hb' rfl
    obtain ⟨hn, -, hlt⟩ := hcast b hb'
    obtain ⟨j, hj, hle⟩ := h.cast b hb
    rw [hn] at hj
    rw [← hinj hj] at hle
    exact absurd hle (not_le.mpr hlt)
  · intro b hb
    rcases mem_append.mp (hperm.mem_iff.mp hb) with hb | hb
    · obtain ⟨j, hj, hle⟩ := h.cast b hb
      exact ⟨j, hj, hle.trans (hmono j).1⟩
    · obtain ⟨hn, hle, -⟩ := hcast b hb
      refine ⟨i, hn, ?_⟩
      rw [hself]
      exact hle
  · intro p hp hb j hj
    rcases hsent p hp with hp | hp
    · exact (h.flying p hp hb j hj).trans (hmono j).2
    · exact ((hfair p hp).1 hb j hj).trans (hmono j).2
  · intro p hp hb j hj
    rcases hsent p hp with hp | hp
    · exact (h.asked p hp hb j hj).trans (hmono j).2
    · obtain ⟨hn, hle⟩ := (hfair p hp).2 hb
      rw [hj] at hn
      rw [hinj hn, hself]
      exact hle

omit [DecidableEq ι] in
theorem ballots_put (hsent : s'.sent = s.sent ++ msgs)
    (hacks : s'.acks = s.acks) : (ballots s').Perm (ballots s ++ sentBallots msgs) := by
  unfold ballots
  rw [hsent, hacks, sentBallots_append, append_assoc, append_assoc]
  exact List.perm_append_comm.append_left _

omit [DecidableEq ι] in
theorem ballots_take (h : s.sent[msg]? = some p) (hsent : s'.sent = s.sent.eraseIdx msg ++ msgs)
    (hacks : s'.acks = if p.2.body.ack then s.acks ++ [(i, p.2)] else s.acks) :
    (ballots s').Perm (ballots s ++ sentBallots msgs) := by
  have hfirst : (sentBallots (s.sent.eraseIdx msg) ++ s'.acks.map (fun p => p.2.ballot)).Perm
      (ballots s) := by
    have hb : (sentBallots [p] ++ sentBallots (s.sent.eraseIdx msg) ++
        s.acks.map (fun p => p.2.ballot)).Perm (ballots s) :=
      (sentBallots_take h).symm.append_right _
    apply List.Perm.trans _ hb
    rw [hacks]
    by_cases hack : p.2.body.ack = true
    · have hp : sentBallots [p] = [p.2.ballot] := by
        unfold sentBallots
        simp [hack]
      rw [if_pos hack, hp, map_append, ← append_assoc, append_assoc [p.2.ballot]]
      exact List.perm_append_comm
    · have hp : sentBallots [p] = [] := by
        unfold sentBallots
        simp [hack]
      rw [if_neg hack, hp, nil_append]
  unfold ballots at *
  rw [hsent, sentBallots_append, append_assoc]
  apply List.Perm.trans (List.perm_append_comm.append_left _)
  rw [← append_assoc]
  exact hfirst.append_right _

theorem Attempt.moves {c : ClusterConfig} {won : Bool}
    (h : Attempt c env replica cs cs' won) (he : cs.failoverAuthEpoch ≤ cs.currentEpoch) :
    Onward cs cs' ∧ ∃ msgs, cs'.out = cs.out ++ msgs ∧ ∀ p ∈ msgs, p.2.body.auth = false ∨
      (p.2.body = .authRequest ∧ p.2.sender = replica ∧ p.2.currentEpoch ≤ cs'.failoverAuthEpoch) := by
  have hquiet : (∃ msgs, cs'.out = cs.out ++ msgs ∧ ∀ p ∈ msgs, p.2.body.auth = false) →
      ∃ msgs, cs'.out = cs.out ++ msgs ∧ ∀ p ∈ msgs, p.2.body.auth = false ∨
        (p.2.body = .authRequest ∧ p.2.sender = replica ∧
          p.2.currentEpoch ≤ cs'.failoverAuthEpoch) := by
    rintro ⟨msgs, ho, hm⟩
    exact ⟨msgs, ho, fun p hp => Or.inl (hm p hp)⟩
  cases h with
  | calm h => exact ⟨h.onward, hquiet h.out⟩
  | scheduled h => exact ⟨h.onward, hquiet h.out⟩
  | won h => exact ⟨h.onward, hquiet h.out⟩
  | requested h =>
    obtain ⟨targets, msg, ho, hbody, hsender, hcur⟩ := h.out
    refine ⟨h.onward he, _, ho, ?_⟩
    intro p hp
    obtain ⟨dest, -, rfl⟩ := mem_map.mp hp
    exact Or.inr ⟨hbody, hsender, by rw [hcur, h.epoch]⟩

theorem Ballots.quiet (h : Ballots name s) (hinj : Function.Injective name)
    (he : Edits anything (s.view i) cs) (hon : Onward (s.view i) cs)
    (hquiet : ∃ msgs, cs.out = (s.view i).out ++ msgs ∧ ∀ p ∈ msgs, p.2.body.auth = false)
    (hview : s'.view = Function.update s.view i { cs with out := [] })
    (hperm : (ballots s').Perm (ballots s ++ sentBallots cs.out))
    (hsent : ∀ p ∈ s'.sent, p ∈ s.sent ∨ p ∈ cs.out) : Ballots name s' := by
  obtain ⟨msgs, ho, hm⟩ := hquiet
  rw [h.silent i, nil_append] at ho
  rw [← ho] at hm
  have hnone : sentBallots cs.out = [] := by
    apply sentBallots_none
    intro p hp hb
    have hq := hm p hp
    rw [hb] at hq
    cases hq
  apply h.move hinj he hon hview hperm
  · rw [hnone]
    exact nodup_nil
  · rw [hnone]
    exact fun b hb => absurd hb not_mem_nil
  · exact hsent
  · exact fun p hp => fair_of_quiet s i cs (hm p hp)

theorem stepElectorate_failover (hs : stepElectorate cfg name s (.failover i env cron) = some s') :
    ∃ r, failoverCall (cfg i) env (s.view i) cron = .ok r ∧ s' = { putView s i r.1 with
      wins := if r.2 then s.wins ++ [(i, (s.view i).failoverAuthEpoch)] else s.wins } := by
  unfold stepElectorate at hs
  dsimp only at hs
  cases hr : failoverCall (cfg i) env (s.view i) cron with
  | error e =>
    rw [hr] at hs
    cases hs
  | ok r =>
    rw [hr] at hs
    cases hs
    exact ⟨r, rfl, rfl⟩

theorem stepElectorate_receive (hs : stepElectorate cfg name s (.receive i env link msg) = some s')
    :
    ∃ p cs, s.sent[msg]? = some p ∧ p.1 = name i ∧ linkAlive (s.view i) link = true ∧
      clusterProcessPacket (cfg i) env (s.view i) link p.2 = .ok cs ∧ s' = putView { s with
        sent := s.sent.eraseIdx msg
        acks := if p.2.body.ack then s.acks ++ [(i, p.2)] else s.acks } i cs := by
  unfold stepElectorate at hs
  obtain ⟨p, hp, hs⟩ := Option.bind_eq_some_iff.mp hs
  by_cases h : p.1 = name i ∧ linkAlive (s.view i) link = true
  swap
  · rw [if_neg h] at hs
    cases hs
  rw [if_pos h] at hs
  cases hr : clusterProcessPacket (cfg i) env (s.view i) link p.2 with
  | error e =>
    rw [hr] at hs
    cases hs
  | ok cs =>
    rw [hr] at hs
    cases hs
    exact ⟨p, cs, hp, h.1, h.2, hr, rfl⟩

theorem stepElectorate_act (hs : stepElectorate cfg name s (.act i env ev) = some s') :
    ∃ cs, stepEvent (cfg i) env (s.view i) ev = .ok cs ∧ s' = putView s i cs ∧
      ev ≠ .slaveFailover ∧ ev ≠ .cron ∧ ∀ link hdr, ev ≠ .packet link hdr := by
  have hmain : (stepEvent (cfg i) env (s.view i) ev).toOption.map (putView s i) = some s' →
      ∃ cs, stepEvent (cfg i) env (s.view i) ev = .ok cs ∧ s' = putView s i cs := by
    intro h
    cases hr : stepEvent (cfg i) env (s.view i) ev with
    | error e =>
      rw [hr] at h
      cases h
    | ok cs =>
      rw [hr] at h
      cases h
      exact ⟨cs, rfl, rfl⟩
  have hother : ev ≠ .slaveFailover → ev ≠ .cron → (∀ link hdr, ev ≠ .packet link hdr) →
      stepElectorate cfg name s (.act i env ev) =
        (stepEvent (cfg i) env (s.view i) ev).toOption.map (putView s i) := by
    intro h1 h2 h3
    cases ev with
    | packet link hdr => exact absurd rfl (h3 link hdr)
    | slaveFailover => exact absurd rfl h1
    | cron => exact absurd rfl h2
    | _ => rfl
  have hne : ev ≠ .slaveFailover ∧ ev ≠ .cron ∧ ∀ link hdr, ev ≠ .packet link hdr := by
    refine ⟨?_, ?_, ?_⟩
    · rintro rfl
      cases hs
    · rintro rfl
      cases hs
    · rintro link hdr rfl
      cases hs
  rw [hother hne.1 hne.2.1 hne.2.2] at hs
  obtain ⟨cs, hcs, hs'⟩ := hmain hs
  exact ⟨cs, hcs, hs', hne⟩

theorem Ballots.failover (h : Ballots name s) (hinj : Function.Injective name)
    (hs : stepElectorate cfg name s (.failover i env cron) = some s') :
    Ballots name s' := by
  obtain ⟨r, hr, rfl⟩ := stepElectorate_failover hs
  obtain ⟨he, hatt⟩ := failoverCall_attempt (h.good i) (h.named i) hr
  generalize hs1 : ({ putView s i r.1 with
    wins := if r.2 then s.wins ++ [(i, (s.view i).failoverAuthEpoch)] else s.wins } : Electorate ι) = s1
  have hview : s1.view = Function.update s.view i { r.1 with out := [] } := by rw [← hs1]; rfl
  have hput : (ballots s1).Perm (ballots s ++ sentBallots r.1.out) := by
    rw [← hs1]
    exact ballots_put rfl rfl
  have hsent : ∀ p ∈ s1.sent, p ∈ s.sent ∨ p ∈ r.1.out := by
    rw [← hs1]
    exact fun p hp => mem_append.mp hp
  rcases hatt with hatt | ⟨hc, -⟩
  · have hsame := failoverView_same env (s.view i) cron
    have hep := h.epoch i
    rw [← hsame.epoch, ← hsame.current] at hep
    obtain ⟨ho, msgs, hout, hm⟩ := hatt.moves hep
    rw [hsame.out, h.silent i, nil_append] at hout
    rw [← hout] at hm
    have hnone : sentBallots r.1.out = [] := by
      apply sentBallots_none
      intro p hp hb
      rcases hm p hp with hq | ⟨hq, -⟩
      · rw [hb] at hq
        cases hq
      · rw [hb] at hq
        cases hq
    have hon : Onward (s.view i) r.1 :=
      ((hsame.edits (k := still)).calm (fun h => h)).onward.trans ho
    apply h.move hinj he hon hview hput
    · rw [hnone]
      exact nodup_nil
    · rw [hnone]
      exact fun b hb => absurd hb not_mem_nil
    · exact hsent
    · intro p hp
      rcases hm p hp with hq | ⟨hb, hn, hle⟩
      · exact fair_of_quiet s i r.1 hq
      · refine ⟨?_, fun _ => ⟨hn, hle⟩⟩
        intro hack
        rw [hack] at hb
        cases hb
  · exact h.quiet hinj he hc.onward hc.out hview hput hsent

theorem Ballots.votes (h : Ballots name s) (hinj : Function.Injective name) {c : ClusterState}
    (he : Edits anything (s.view i) cs) (hc : Calm (s.view i) c)
    (hv : Voted (name i) request.sender request c cs)
    (hview : s'.view = Function.update s.view i { cs with out := [] })
    (hperm : (ballots s').Perm (ballots s ++ sentBallots cs.out))
    (hsent : ∀ p ∈ s'.sent, p ∈ s.sent ∨ p ∈ cs.out)
    (hasked : ∀ j, request.sender = name j →
      request.currentEpoch ≤ (s.view j).failoverAuthEpoch) : Ballots name s' := by
  have hvote : c.lastVoteEpoch ≤ c.currentEpoch := by
    rw [hc.vote]
    exact (h.vote i).trans hc.current
  have hlater : (s.view i).lastVoteEpoch < c.currentEpoch := by
    rw [← hc.vote]
    exact lt_of_le_of_ne hvote hv.first
  have hon := hc.onward.trans (hv.onward hvote)
  obtain ⟨msgs, hout, hm⟩ := hc.out
  rw [h.silent i, nil_append] at hout
  have hnone : sentBallots msgs = [] := by
    apply sentBallots_none
    intro p hp hb
    have hq := hm p hp
    rw [hb] at hq
    cases hq
  rcases hv.out with ho | ⟨ack, ho, hack, hsender, hcur⟩
  · rw [hout] at ho
    apply h.move hinj he hon hview hperm
    · rw [ho, hnone]
      exact nodup_nil
    · rw [ho, hnone]
      exact fun b hb => absurd hb not_mem_nil
    · exact hsent
    · rw [ho]
      exact fun p hp => fair_of_quiet s i cs (hm p hp)
  · rw [hout] at ho
    have hone : sentBallots cs.out = [ack.ballot] := by
      rw [ho, sentBallots_append, hnone, nil_append]
      unfold sentBallots
      simp [hack, MsgBody.ack]
    apply h.move hinj he hon hview hperm
    · rw [hone]
      exact List.nodup_singleton _
    · rw [hone]
      intro b hb
      rw [List.mem_singleton] at hb
      rw [hb, hv.vote]
      exact ⟨hsender, hcur.le, by show _ < ack.currentEpoch; rw [hcur]; exact hlater⟩
    · exact hsent
    · rw [ho]
      intro p hp
      rcases mem_append.mp hp with hp | hp
      · exact fair_of_quiet s i cs (hm p hp)
      · rw [List.mem_singleton] at hp
        rw [hp]
        refine ⟨?_, ?_⟩
        · intro _ j hj
          show ack.currentEpoch ≤ _
          rw [hcur]
          exact hv.asked.trans (hasked j hj)
        · intro hb
          rw [hack] at hb
          cases hb

theorem Ballots.receive (h : Ballots name s) (hinj : Function.Injective name)
    (hs : stepElectorate cfg name s (.receive i env link msg) = some s') : Ballots name s' := by
  obtain ⟨p, cs, hp, hdest, hlink, hr, rfl⟩ := stepElectorate_receive hs
  generalize hs1 : putView { s with
    sent := s.sent.eraseIdx msg
    acks := if p.2.body.ack then s.acks ++ [(i, p.2)] else s.acks } i cs = s1
  have hview : s1.view = Function.update s.view i { cs with out := [] } := by rw [← hs1]; rfl
  have hput : (ballots s1).Perm (ballots s ++ sentBallots cs.out) := by
    rw [← hs1]
    exact ballots_take hp rfl rfl
  have hsent : ∀ q ∈ s1.sent, q ∈ s.sent ∨ q ∈ cs.out := by
    rw [← hs1]
    intro q hq
    rcases mem_append.mp hq with hq | hq
    · exact Or.inl (List.mem_of_mem_eraseIdx hq)
    · exact Or.inr hq
  have hmem : p ∈ s.sent := List.mem_of_getElem? hp
  cases hb : p.2.body.auth with
  | false =>
    -- a packet that has nothing to do with elections
    have hev : stepEvent (cfg i) env (s.view i) (.packet link p.2) = .ok cs := by
      unfold stepEvent
      dsimp only
      rw [if_pos hlink, hr]
    have he := stepEvent_calm (h.good i) hev (by simp) (by simp) (by
      rintro link' hdr ⟨⟩
      exact hb)
    have hc : Calm (s.view i) cs := he.calm (fun h => h)
    exact h.quiet hinj (he.mono still_le) hc.onward hc.out hview hput hsent
  | true =>
    have hauth : p.2.body = .authRequest ∨ p.2.body = .authAck := by
      cases hm : p.2.body with
      | authRequest => exact Or.inl rfl
      | authAck => exact Or.inr rfl
      | _ =>
        rw [hm] at hb
        cases hb
    rcases hauth with hreq | hack
    · obtain ⟨he, hc | ⟨c, hc, hv⟩⟩ := authRequest_answered (h.good i) (h.named i) hreq hr
      · exact h.quiet hinj he hc.onward hc.out hview hput hsent
      · exact h.votes hinj he hc hv hview hput hsent (fun j hj => h.asked p hmem hreq j hj)
    · obtain ⟨he, hc | ⟨c, x, n, hc, heq, -⟩⟩ := authAck_counted (h.good i) hack hr
      · exact h.quiet hinj he hc.onward hc.out hview hput hsent
      · -- only the count of votes changes
        have hon : Onward (s.view i) cs := by
          rw [heq]
          exact ⟨hc.onward.vote, hc.onward.epoch, hc.onward.voted, hc.onward.begun⟩
        have hout : ∃ msgs, cs.out = (s.view i).out ++ msgs ∧ ∀ p ∈ msgs, p.2.body.auth = false := by
          rw [heq]
          exact hc.out
        exact h.quiet hinj he hon hout hview hput hsent

theorem Ballots.act (h : Ballots name s) (hinj : Function.Injective name)
    (hs : stepElectorate cfg name s (.act i env ev) = some s') :
    Ballots name s' := by
  obtain ⟨cs, hev, rfl, hfail, hcron, hpacket⟩ := stepElectorate_act hs
  have he := stepEvent_calm (h.good i) hev hfail hcron
    (fun link hdr heq => absurd heq (hpacket link hdr))
  have hc : Calm (s.view i) cs := he.calm (fun h => h)
  exact h.quiet hinj (he.mono still_le) hc.onward hc.out rfl (ballots_put rfl rfl)
    (fun p hp => mem_append.mp hp)

omit [DecidableEq ι] in
theorem Ballots.lose (h : Ballots name s) (msg : ℕ) :
    Ballots name { s with sent := s.sent.eraseIdx msg } := by
  have hsub : (ballots { s with sent := s.sent.eraseIdx msg }).Sublist (ballots s) := by
    have hs : (sentBallots (s.sent.eraseIdx msg)).Sublist (sentBallots s.sent) :=
      (((List.eraseIdx_sublist s.sent msg).map _).filter _).map _
    exact hs.append_right _
  exact ⟨h.good, h.named, h.vote, h.epoch, h.silent, h.once.sublist hsub,
    fun b hb => h.cast b (hsub.subset hb),
    fun p hp => h.flying p (List.mem_of_mem_eraseIdx hp),
    fun p hp => h.asked p (List.mem_of_mem_eraseIdx hp)⟩

theorem Ballots.step (h : Ballots name s) (hinj : Function.Injective name) {e : ElectEvent ι}
    (hs : stepElectorate cfg name s e = some s') : Ballots name s' := by
  cases e with
  | failover i env cron => exact h.failover hinj hs
  | receive i env link msg => exact h.receive hinj hs
  | act i env ev => exact h.act hinj hs
  | lose msg =>
    rw [stepElectorate, Option.some.injEq] at hs
    rw [← hs]
    exact h.lose msg

end Electorate

end RedisCore.Cluster
