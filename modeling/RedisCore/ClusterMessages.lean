import RedisCore.ClusterOps

namespace RedisCore.Cluster

variable {k : Slack} {cs cs' cs'' : ClusterState} {x y : NodeId} {n m : ClusterNode} {j : Slot}
variable {cfg : ClusterConfig} {env : Env}

theorem clusterBuildMessageHdr_leads (hg : Good k cs) {body : MsgBody} (hb : HonestBody k cs body) :
    Leads k (clusterBuildMessageHdr cfg env cs body) (fun msg => Honest k cs msg ∧ msg.body = body) := by
  obtain ⟨me, hme, hd⟩ := hg.deref_me
  unfold clusterBuildMessageHdr
  rw [hd, ok_bind]
  have hmaster : Leads k (headerMaster cs me) (fun p => ∃ x, cs.nodes x = some p) := by
    unfold headerMaster
    split_ifs
    · cases hs : me.slaveof with
      | none => exact Leads.ok ⟨_, hme⟩
      | some y => exact (deref_leads (hg.attached hme hs)).mono (fun p hp => ⟨y, hp⟩)
    · exact Leads.ok ⟨_, hme⟩
  apply Leads.bind hmaster
  rintro p ⟨y, hy⟩
  have hname : Leads k (slaveofName cs me) (fun _ => True) := by
    unfold slaveofName
    cases hs : me.slaveof with
    | none => exact Leads.ok trivial
    | some y =>
      apply Leads.bind (deref_leads (hg.attached hme hs))
      intro q _
      exact Leads.ok trivial
  apply Leads.bind hname
  intro name _
  exact Leads.ok ⟨⟨⟨me, hme, rfl⟩, rfl, ⟨y, p, hy, rfl⟩, hb⟩, rfl⟩

theorem gossipSection_honest (cs : ClusterState) (picks : List NodeId) :
    HonestGossip cs (gossipSection cs picks) := by
  intro g hg
  obtain ⟨x, -, hx⟩ := List.mem_filterMap.mp hg
  obtain ⟨n, hn, hgn⟩ := Option.bind_eq_some_iff.mp hx
  split_ifs at hgn with h
  cases hgn
  unfold gossips at h
  rw [Bool.and_eq_true, Bool.and_eq_true, Bool.not_eq_true'] at h
  exact ⟨h.1.1, x, n, hn, rfl, rfl⟩

variable {msg : ClusterMsg} {sender : Option NodeId} {gossip : List GossipEntry}

theorem edits_send {dest : NodeName} (h : Honest k cs msg) :
    Edits k cs (clusterSendMessage cs dest msg) := by
  apply Edits.single
  apply Edit.send
  intro p hp
  rw [List.mem_singleton] at hp
  rw [hp]
  exact h

theorem edits_sendAll {targets : List NodeName} (h : Honest k cs msg) :
    Edits k cs { cs with out := cs.out ++ targets.map (fun name => (name, msg)) } := by
  apply Edits.single
  apply Edit.send
  intro p hp
  obtain ⟨name, -, rfl⟩ := List.mem_map.mp hp
  exact h

theorem clusterSendPing_runs (hg : Good k cs) (dest : NodeName) {kind : List GossipEntry → MsgBody}
    (hk : ∀ gossip, HonestGossip cs gossip → HonestBody k cs (kind gossip)) :
    Runs k cs (clusterSendPing cfg env cs dest kind) := by
  unfold clusterSendPing
  apply Leads.bind (clusterBuildMessageHdr_leads hg (hk _ (gossipSection_honest cs env.picks)))
  rintro msg ⟨h, -⟩
  exact Leads.ok (edits_send h)

theorem clusterSendFail_runs (hg : Good k cs) (name : NodeName) :
    Runs k cs (clusterSendFail cfg env cs name) := by
  unfold clusterSendFail
  apply Leads.bind (clusterBuildMessageHdr_leads hg (show HonestBody k cs (.fail name) from trivial))
  rintro msg ⟨h, -⟩
  exact Leads.ok (edits_sendAll h)

theorem clusterSendUpdate_runs (hg : Good k cs) (hx : cs.nodes x = some n) (hy : cs.nodes y = some m) :
    Runs k cs (clusterSendUpdate cfg env cs x y) := by
  unfold clusterSendUpdate
  rw [deref_ok hx, ok_bind]
  split_ifs
  · rw [deref_ok hy, ok_bind]
    have hb : HonestBody k cs (.update m.name m.configEpoch m.slots) := ⟨y, m, hy, rfl⟩
    apply Leads.bind (clusterBuildMessageHdr_leads hg hb)
    rintro msg ⟨h, -⟩
    exact Leads.ok (edits_send h)
  · exact Runs.refl

theorem clusterBroadcastPong_runs (hg : Good k cs) (localSlaves : Bool) :
    Runs k cs (clusterBroadcastPong cfg env cs localSlaves) := by
  obtain ⟨me, hme, hd⟩ := hg.deref_me
  unfold clusterBroadcastPong
  rw [hd, ok_bind]
  have hb : HonestBody k cs (.pong (gossipSection cs env.picks)) := gossipSection_honest cs env.picks
  apply Leads.bind (clusterBuildMessageHdr_leads hg hb)
  rintro msg ⟨h, -⟩
  exact Leads.ok (edits_sendAll h)

theorem markNodeAsFailingIfNeeded_runs (hg : Good k cs) (hx : cs.nodes x = some n) :
    Runs k cs (markNodeAsFailingIfNeeded cfg env cs x) := by
  unfold markNodeAsFailingIfNeeded
  rw [deref_ok hx, ok_bind]
  split_ifs
  · exact Runs.refl
  · have hclean : Runs k.keep cs (updateNode cs x (ClusterNode.cleanupFailureReports cfg env.now)) :=
      updateNode_touch hx ⟨rfl, rfl, rfl, rfl, rfl, rfl, rfl, rfl, rfl, rfl, fun _ h => h⟩
    apply Runs.bind_keep hg hclean
    intro c he hgc
    obtain ⟨p, hp, -⟩ := hg.kept he hx
    obtain ⟨me, hme, hd⟩ := hgc.deref_me
    rw [deref_ok hp, ok_bind, hd, ok_bind]
    generalize (if me.flags.master then 1 else 0) = own
    split_ifs
    · exact Runs.refl
    · apply Runs.bind hgc (updateNode_touch hp ⟨rfl, rfl, rfl, rfl, rfl, rfl, rfl, rfl, rfl, rfl, fun _ h => h⟩)
      intro c' _ hgc'
      exact clusterSendFail_runs hgc' p.name

theorem clearNodeFailureIfNeeded_runs (hx : cs.nodes x = some n)
    (hfail : n.flags.fail = true) : Runs k cs (clearNodeFailureIfNeeded cfg env cs x) := by
  unfold clearNodeFailureIfNeeded
  rw [deref_ok hx, ok_bind, if_neg (by rw [hfail]; decide)]
  split_ifs
  · exact updateNode_touch hx ⟨rfl, rfl, rfl, rfl, rfl, rfl, rfl, rfl, rfl, rfl, fun _ h => h⟩
  · exact Runs.refl

theorem noteHealth_runs (hg : Good k cs) (hs : ∀ s, sender = some s → ∃ n, cs.nodes s = some n)
    (hx : cs.nodes x = some n)
    (flags : NodeFlags) : Runs k cs (noteHealth cfg env sender cs x flags) := by
  unfold noteHealth
  cases sender with
  | none => exact Runs.refl
  | some s =>
    obtain ⟨p, hp⟩ := hs s rfl
    dsimp only
    rw [deref_ok hp, ok_bind]
    split_ifs
    · exact Runs.refl
    · have hadd : SameNode n (n.addFailureReport s env.now) := by
        unfold ClusterNode.addFailureReport
        split_ifs <;> exact ⟨rfl, rfl, rfl, rfl, rfl, rfl, rfl, rfl, rfl, rfl, fun _ h => h⟩
      have ht : Runs k.keep cs (updateNode cs x (fun n => n.addFailureReport s env.now)) :=
        updateNode_touch hx hadd
      apply Runs.bind_keep hg ht
      intro c he hgc
      obtain ⟨q, hq, -⟩ := hg.kept he hx
      exact markNodeAsFailingIfNeeded_runs hgc hq
    · apply updateNode_touch hx
      unfold ClusterNode.delFailureReport
      split_ifs <;> exact ⟨rfl, rfl, rfl, rfl, rfl, rfl, rfl, rfl, rfl, rfl, fun _ h => h⟩

theorem noteAddress_runs (hx : cs.nodes x = some n) (g : GossipEntry) :
    Runs k cs (noteAddress cs x g) := by
  unfold noteAddress
  rw [deref_ok hx, ok_bind]
  split_ifs
  · exact updateNode_touch hx ⟨rfl, rfl, rfl, rfl, rfl, rfl, rfl, rfl, rfl, rfl, fun _ _ => rfl⟩
  · exact Runs.refl

def SaneGossip (k : Slack) (gossip : List GossipEntry) : Prop :=
  ∀ g ∈ gossip, (OneRole g.flags ∨ k.role) ∧ (g.flags.handshake = false ∨ k.epoch) ∧
    (g.flags.myself = true → k.proc g.nodename ∨ k.epoch)

theorem processGossipEntry_runs (hg : Good k cs)
    (hs : ∀ s, sender = some s → ∃ n, cs.nodes s = some n) {g : GossipEntry}
    (hrole : OneRole g.flags ∨ k.role) (hhand : g.flags.handshake = false ∨ k.epoch)
    (hmine : g.flags.myself = true → k.proc g.nodename ∨ k.epoch) :
    Runs k cs (processGossipEntry cfg env sender cs g) := by
  unfold processGossipEntry
  cases hl : clusterLookupNode cs g.nodename with
  | some x =>
    obtain ⟨n, hx, -⟩ := clusterLookupNode_live hg hl
    have hh : Runs k.keep cs (noteHealth cfg env sender cs x g.flags) :=
      noteHealth_runs hg.keep hs hx g.flags
    apply Runs.bind_keep hg hh
    intro c he hgc
    obtain ⟨p, hp, -⟩ := hg.kept he hx
    exact noteAddress_runs hp g
  | none =>
    dsimp only
    have hclean : Edits k cs (clusterBlacklistCleanup env cs) :=
      edit_aside ⟨rfl, rfl, rfl, rfl, rfl, rfl, rfl, rfl⟩ ⟨rfl, rfl, rfl, rfl⟩ rfl
    split_ifs
    · exact Leads.ok hclean
    · apply Leads.ok
      apply hclean.trans
      apply clusterAddNode_edits (newborn_create _ _ _ _) hrole _ hmine
      intro hh _
      apply hhand.resolve_left
      intro h
      have hh' : g.flags.handshake = true := hh
      rw [h] at hh'
      cases hh'
    · exact Runs.refl

theorem processGossip_runs (hg : Good k cs)
    (hlive : ∀ s, sender = some s → ∃ n, cs.nodes s = some n) (hs : SaneGossip k gossip) :
    Runs k cs (gossip.foldlM (processGossipEntry cfg env sender) cs) := by
  let I : List GossipEntry → ClusterState → Prop := fun rest c =>
    (∀ s, sender = some s → ∃ n, c.nodes s = some n) ∧ SaneGossip k rest
  have hloop : Leads k (gossip.foldlM (processGossipEntry cfg env sender) cs)
      (fun c => Edits k cs c ∧ I [] c) := by
    apply Leads.foldlM id I _ gossip cs hg ⟨hlive, hs⟩
    rintro g rest c hgc ⟨hc, hrest⟩
    have hgood : Good k c := hgc
    obtain ⟨h1, h2, h3⟩ := hrest g List.mem_cons_self
    have hrun : Runs k.keep c (processGossipEntry cfg env sender c g) :=
      processGossipEntry_runs hgood.keep hc h1 h2 h3
    apply (Leads.weaken k.keep_le hrun).mono
    intro c' he
    refine ⟨he.mono k.keep_le, ?_, fun g' hg' => hrest g' (List.mem_cons_of_mem g hg')⟩
    intro s hse
    obtain ⟨n, hn⟩ := hc s hse
    obtain ⟨n', hn', -⟩ := hgood.kept he hn
    exact ⟨n', hn'⟩
  exact hloop.mono (fun c h => h.1)

theorem clusterProcessGossipSection_runs (hg : Good k cs) {link : Option NodeId} (hdr : ClusterMsg)
    (hl : ∀ l, link = some l → ∃ n, cs.nodes l = some n)
    (hs : SaneGossip k gossip) : Runs k cs (clusterProcessGossipSection cfg env cs link hdr gossip) := by
  unfold clusterProcessGossipSection
  cases link with
  | some l => exact processGossip_runs hg (fun s h => hl s h) hs
  | none =>
    apply processGossip_runs hg _ hs
    intro s h
    obtain ⟨n, hn, -⟩ := clusterLookupNode_live hg h
    exact ⟨n, hn⟩

theorem clusterSendFailoverAuth_runs (hg : Good k cs) (hel : k.election) (hx : cs.nodes x = some n) :
    Runs k cs (clusterSendFailoverAuth cfg env cs x) := by
  unfold clusterSendFailoverAuth
  rw [deref_ok hx, ok_bind]
  split_ifs
  · apply Leads.bind (clusterBuildMessageHdr_leads hg (show HonestBody k cs .authAck from hel))
    rintro msg ⟨h, -⟩
    exact Leads.ok (edits_send h)
  · exact Runs.refl

theorem downMaster_leads (hg : Good k cs) (hx : cs.nodes x = some n) (force : Bool) :
    Leads k (downMaster cs x force) (fun r => ∀ m, r = some m → ∃ p, cs.nodes m = some p) := by
  unfold downMaster
  rw [deref_ok hx, ok_bind]
  split_ifs
  · exact Leads.ok (fun m h => by cases h)
  · cases hs : n.slaveof with
    | none => exact Leads.ok (fun m h => by cases h)
    | some y =>
      apply Leads.bind (deref_leads (hg.attached hx hs))
      intro p hp
      apply Leads.ok
      intro m hm
      split_ifs at hm
      cases hm
      exact ⟨p, hp⟩

theorem grantVote_runs (hg : Good k cs) (hel : k.election) (hx : cs.nodes x = some n)
    (hy : cs.nodes y = some m) : Runs k cs (grantVote cfg env cs x y) := by
  unfold grantVote
  dsimp only
  have hvote : Edits k cs { cs with lastVoteEpoch := cs.currentEpoch } :=
    Edits.single (Edit.ballot ⟨rfl, rfl, rfl, rfl, rfl, rfl, rfl, rfl⟩ rfl hel (Or.inl rfl))
  have hgv := hg.edits hvote
  have hy' : ({ cs with lastVoteEpoch := cs.currentEpoch } : ClusterState).nodes y = some m := hy
  have hx' : ({ cs with lastVoteEpoch := cs.currentEpoch } : ClusterState).nodes x = some n := hx
  have ht : Runs k.keep { cs with lastVoteEpoch := cs.currentEpoch }
      (updateNode { cs with lastVoteEpoch := cs.currentEpoch } y
        (fun n => { n with votedTime := env.now })) :=
    updateNode_touch hy' ⟨rfl, rfl, rfl, rfl, rfl, rfl, rfl, rfl, rfl, rfl, fun _ h => h⟩
  apply Leads.mono _ (fun _ h => hvote.trans h)
  apply Runs.bind_keep hgv ht
  intro c he hgc
  obtain ⟨p, hp, -⟩ := hgv.kept he hx'
  exact clusterSendFailoverAuth_runs hgc hel hp

theorem clusterSendFailoverAuthIfNeeded_runs (hg : Good k cs) (hel : k.election)
    (hx : cs.nodes x = some n) (request : ClusterMsg) :
    Runs k cs (clusterSendFailoverAuthIfNeeded cfg env cs x request) := by
  obtain ⟨me, hme, hd⟩ := hg.deref_me
  unfold clusterSendFailoverAuthIfNeeded
  rw [hd, ok_bind]
  split
  · exact Runs.refl
  split
  · exact Runs.refl
  split
  · exact Runs.refl
  apply Leads.bind (downMaster_leads hg hx request.forceack)
  intro r hr
  cases r with
  | none => exact Runs.refl
  | some y =>
    obtain ⟨m, hm⟩ := hr y rfl
    dsimp only
    rw [deref_ok hm, ok_bind]
    split_ifs
    · exact Runs.refl
    · exact Runs.refl
    · exact grantVote_runs hg hel hx hm

theorem clusterRequestFailoverAuth_runs (hg : Good k cs) (hel : k.election) :
    Runs k cs (clusterRequestFailoverAuth cfg env cs) := by
  unfold clusterRequestFailoverAuth
  apply Leads.bind (clusterBuildMessageHdr_leads hg (show HonestBody k cs .authRequest from hel))
  rintro msg ⟨h, -⟩
  exact Leads.ok (edits_sendAll ⟨h.sender, h.current, h.config, h.body⟩)

theorem clusterGetSlaveRank_leads (hg : Good k cs)
    (hslave : (∀ me, cs.nodes cs.myself = some me → me.flags.slave = true) ∨ k.role) :
    Leads k (clusterGetSlaveRank env cs) (fun _ => True) := by
  obtain ⟨me, hme, hd⟩ := hg.deref_me
  unfold clusterGetSlaveRank
  rw [hd, ok_bind]
  split_ifs with h
  · refine Leads.error ⟨by decide, by decide, hslave.resolve_left ?_⟩
    intro hs
    rw [hs me hme] at h
    cases h
  · cases hs : me.slaveof with
    | none => exact Leads.ok trivial
    | some y =>
      apply Leads.bind (deref_leads (hg.attached hme hs))
      intro p _
      exact Leads.ok trivial

theorem clusterUpdateState_runs (hg : Good k cs) : Runs k cs (clusterUpdateState cfg env cs) := by
  obtain ⟨me, hme, hd⟩ := hg.deref_me
  unfold clusterUpdateState
  rw [hd, ok_bind]
  have hsame : ∀ c : ClusterState, SameView cs c ∧ SameBallot cs c ∧ c.out = cs.out → Edits k cs c :=
    fun c h => edit_aside h.1 h.2.1 h.2.2
  dsimp only
  split_ifs <;> (apply Leads.ok; apply hsame; refine ⟨⟨?_, ?_, ?_, ?_, ?_, ?_, ?_, ?_⟩, ⟨?_, ?_, ?_, ?_⟩, ?_⟩ <;> rfl)

theorem claimMasterSlots_runs (hg : Good k cs) (hx : (∃ n, cs.nodes x = some n) ∨ k.role)
    (hm : (∀ me, cs.nodes cs.myself = some me → me.flags.master = true) ∨ k.role) :
    Runs k cs (claimMasterSlots x cs) := by
  let I : List Slot → ClusterState → Prop := fun _ c => Rebound cs c
  have hloop : Leads k (claimMasterSlots x cs) (fun c => Edits k cs c ∧ I [] c) := by
    apply Leads.forSlots I _ hg (Rebound.refl cs)
    intro i rest c hgc hr
    have hxc : (∃ n, c.nodes x = some n) ∨ k.role := by
      apply hx.imp_left
      rintro ⟨n, hn⟩
      exact hr.alive x n hn
    apply Leads.bind (deref_leads hxc)
    intro p _
    split_ifs
    · obtain ⟨me, hme⟩ := hgc.me
      have hmaster : me.flags.master = true ∨ k.role := by
        apply hm.imp_left
        intro h
        have hme' := hme
        rw [hr.myself] at hme'
        obtain ⟨q, hq, hs⟩ := hr.old _ me hme'
        rw [hs.master]
        exact h q hq
      obtain ⟨c', hc', he, hr', -⟩ := rebindSlot_eq hgc hme hmaster i
      rw [hc']
      exact Leads.ok ⟨he, hr.trans hr'⟩
    · exact Leads.ok ⟨Edits.refl c, hr⟩
  exact hloop.mono (fun c h => h.1)

theorem resetManualFailover_edits (cs : ClusterState) : Edits k cs (resetManualFailover cs) :=
  edit_aside ⟨rfl, rfl, rfl, rfl, rfl, rfl, rfl, rfl⟩ ⟨rfl, rfl, rfl, rfl⟩ rfl

theorem clusterFailoverReplaceYourMaster_runs (hg : Good k cs) :
    Runs k cs (clusterFailoverReplaceYourMaster cfg env cs) := by
  obtain ⟨me, hme, hd⟩ := hg.deref_me
  unfold clusterFailoverReplaceYourMaster
  rw [hd, ok_bind]
  cases hs : me.slaveof with
  | none => exact Runs.refl
  | some y =>
    dsimp only
    split_ifs
    · exact Runs.refl
    · have hrole : me.flags.handshake = false ∨ k.keep.role :=
        hg.roles.imp_left (fun h => h.joined me hme)
      apply Leads.bind (Leads.weaken k.keep_le (clusterSetNodeAsMaster_leads hg.keep hme hrole))
      rintro c ⟨he, me', hme', hmaster, -⟩
      have hgc := hg.keeps he
      apply Leads.mono _ (fun _ h => (he.mono k.keep_le).trans h)
      apply Runs.bind hgc
      · apply claimMasterSlots_runs hgc
        · apply (hg.attached hme hs).imp_left
          rintro ⟨m, hm⟩
          obtain ⟨m', hm', -⟩ := hg.kept he hm
          exact ⟨m', hm'⟩
        · rw [he.later.myself]
          left
          intro p hp
          rw [hme', Option.some.injEq] at hp
          rw [← hp, hmaster]
      · intro c1 _ hg1
        apply Runs.bind hg1 (clusterUpdateState_runs hg1)
        intro c2 _ hg2
        apply Runs.bind hg2 (clusterBroadcastPong_runs hg2 false)
        intro c3 _ _
        exact Leads.ok (resetManualFailover_edits c3)

theorem mayFailover_leads (hg : Good k cs) (manual : Bool) :
    Leads k (mayFailover cfg cs manual) (fun b => b = true →
      ∀ me, cs.nodes cs.myself = some me → me.flags.slave = true ∨ k.role) := by
  obtain ⟨me, hme, hd⟩ := hg.deref_me
  unfold mayFailover
  rw [hd, ok_bind]
  split_ifs with hm
  · exact Leads.ok (fun h => by cases h)
  · cases hs : me.slaveof with
    | none => exact Leads.ok (fun h => by cases h)
    | some y =>
      apply Leads.bind (deref_leads (hg.attached hme hs))
      intro p _
      apply Leads.ok
      intro _ q hq
      rw [hme, Option.some.injEq] at hq
      rw [← hq]
      exact hg.roles.imp_left (fun h => h.slaveFlag _ me y hme hs)

theorem scheduleElection_runs (hg : Good k cs) (hel : k.election)
    (hslave : (∀ me, cs.nodes cs.myself = some me → me.flags.slave = true) ∨ k.role) :
    Runs k cs (scheduleElection cfg env cs) := by
  unfold scheduleElection
  apply Leads.bind (clusterGetSlaveRank_leads hg hslave)
  intro rank _
  dsimp only
  have hb : ∀ c : ClusterState, SameView cs c → c.out = cs.out →
      c.failoverAuthEpoch = cs.failoverAuthEpoch → Runs k cs (clusterBroadcastPong cfg env c true) := by
    intro c hv ho he
    have hed : Edits k cs c := Edits.single (Edit.ballot hv ho hel (Or.inl he))
    exact (clusterBroadcastPong_runs (hg.edits hed) true).mono (fun _ h => hed.trans h)
  exact hb _ ⟨rfl, rfl, rfl, rfl, rfl, rfl, rfl, rfl⟩ rfl rfl

theorem delayElection_runs (hg : Good k cs)
    (hslave : (∀ me, cs.nodes cs.myself = some me → me.flags.slave = true) ∨ k.role) :
    Runs k cs (delayElection env cs) := by
  unfold delayElection
  split_ifs
  · apply Leads.bind (clusterGetSlaveRank_leads hg hslave)
    intro rank _
    split_ifs
    · exact Leads.ok (edit_aside ⟨rfl, rfl, rfl, rfl, rfl, rfl, rfl, rfl⟩ ⟨rfl, rfl, rfl, rfl⟩ rfl)
    · exact Runs.refl
  · exact Runs.refl

theorem requestVotes_runs (hg : Good k cs) (hel : k.election) :
    Runs k cs (requestVotes cfg env cs) := by
  unfold requestVotes
  dsimp only
  have hup : Edits k cs { cs with currentEpoch := cs.currentEpoch+1 } :=
    Edits.single (Edit.epochUp _ (Nat.le_succ _))
  have he : Edits k cs { cs with
      currentEpoch := cs.currentEpoch+1, failoverAuthEpoch := cs.currentEpoch+1 } :=
    hup.tail (Edit.ballot ⟨rfl, rfl, rfl, rfl, rfl, rfl, rfl, rfl⟩ rfl hel (Or.inr (le_refl _)))
  have hge := hg.edits he
  apply Leads.mono _ (fun _ h => he.trans h)
  apply Runs.bind hge (clusterRequestFailoverAuth_runs hge hel)
  intro c _ _
  exact Runs.single (Edit.ballot ⟨rfl, rfl, rfl, rfl, rfl, rfl, rfl, rfl⟩ rfl hel (Or.inl rfl))

theorem winElection_runs (hg : Good k cs) : Runs k cs (winElection cfg env cs) := by
  obtain ⟨me, hme⟩ := hg.me
  unfold winElection
  rw [updateNode_ok hme, ok_bind]
  have hf : mapNode cs cs.myself (fun n =>
      { n with configEpoch := max n.configEpoch cs.failoverAuthEpoch }) =
      mapNode cs cs.myself (fun n =>
        { n with configEpoch := max me.configEpoch cs.failoverAuthEpoch }) := mapNode_congr hme rfl
  rw [hf]
  have he : Edits k cs (mapNode cs cs.myself (fun n =>
      { n with configEpoch := max me.configEpoch cs.failoverAuthEpoch })) := by
    apply Edits.single
    apply Edit.nodeEpoch
    · left
      intro p hp
      rw [hme, Option.some.injEq] at hp
      rw [← hp]
      exact le_max_left _ _
    · exact hg.epochs.imp_left (fun h => max_le (h.known _ me hme) h.election)
  exact (clusterFailoverReplaceYourMaster_runs (hg.edits he)).mono (fun _ h => he.trans h)

theorem runElection_leads (hg : Good k cs) (hel : k.election)
    (hslave : (∀ me, cs.nodes cs.myself = some me → me.flags.slave = true) ∨ k.role)
    (authAge authTimeout : ℤ) :
    Leads k (runElection cfg env cs authAge authTimeout) (fun r => Edits k cs r.1) := by
  unfold runElection
  apply Leads.bind (delayElection_runs hg hslave)
  intro c he
  have hgc := hg.edits he
  split_ifs
  · exact Leads.ok he
  · exact Leads.ok he
  · apply Leads.bind (requestVotes_runs hgc hel)
    intro c' he'
    exact Leads.ok (he.trans he')
  · apply Leads.bind (winElection_runs hgc)
    intro c' he'
    exact Leads.ok (he.trans he')
  · exact Leads.ok he

theorem clusterHandleSlaveFailover_leads (hg : Good k cs) (hel : k.election) :
    Leads k (clusterHandleSlaveFailover cfg env cs) (fun r => Edits k cs r.1) := by
  unfold clusterHandleSlaveFailover
  dsimp only
  apply Leads.bind (mayFailover_leads hg _)
  intro b hb
  cases b with
  | false => exact Leads.ok (Edits.refl cs)
  | true =>
    have hslave : (∀ me, cs.nodes cs.myself = some me → me.flags.slave = true) ∨ k.role := by
      by_cases hk : k.role
      · exact Or.inr hk
      · exact Or.inl (fun me hme => (hb rfl me hme).resolve_right hk)
    rw [if_neg (by decide)]
    split_ifs
    · exact Leads.ok (Edits.refl cs)
    · apply Leads.bind (scheduleElection_runs hg hel hslave)
      intro c he
      exact Leads.ok he
    · exact runElection_leads hg hel hslave _ _

end RedisCore.Cluster
