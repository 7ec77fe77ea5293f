import RedisCore.ClusterCommands

namespace RedisCore.Cluster

variable {cfg : ClusterConfig} {env : Env} {cs : ClusterState} {x : NodeId}
variable {α : Type} {P : α → Prop}

def ReportsDistinct (n : ClusterNode) : Prop := (n.failReports.map FailReport.node).Nodup

def DistinctReports (cs : ClusterState) : Prop := ∀ x n, cs.nodes x = some n → ReportsDistinct n

def Tidies (r : Except ClusterFault ClusterState) : Prop := Yields False r DistinctReports

def TidiesFirst {β : Type} (r : Except ClusterFault (ClusterState × β)) : Prop :=
  Yields False r (fun a => DistinctReports a.1)

theorem Tidies.error (e : ClusterFault) : Tidies (.error e) := fun h => h

variable {β : Type} {r : ClusterState × Bool} {f : ClusterNode → ClusterNode} {n : ClusterNode}

theorem TidiesFirst.error (e : ClusterFault) :
    TidiesFirst (.error e : Except ClusterFault (ClusterState × β)) := fun h => h

theorem Tidies.bind {r : Except ClusterFault ClusterState}
    {f : ClusterState → Except ClusterFault α} (hr : Tidies r)
    (hf : ∀ c, DistinctReports c → Yields False (f c) P) : Yields False (r >>= f) P :=
  Yields.bind hr hf

theorem TidiesFirst.bind {r : Except ClusterFault (ClusterState × β)}
    {f : ClusterState × β → Except ClusterFault α} (hr : TidiesFirst r)
    (hf : ∀ a, DistinctReports a.1 → Yields False (f a) P) : Yields False (r >>= f) P :=
  Yields.bind hr hf

theorem read_bind {r : Except ClusterFault β} {f : β → Except ClusterFault α}
    (hf : ∀ b, r = .ok b → Yields False (f b) P) : Yields False (r >>= f) P := by
  cases r with
  | ok b => exact hf b rfl
  | error e => exact fun h => h

theorem yields_ite {c : Prop} [Decidable c] {x y : Except ClusterFault α}
    (hx : Yields False x P) (hy : Yields False y P) : Yields False (if c then x else y) P := by
  split_ifs
  · exact hx
  · exact hy

theorem Tidies.foldlM {f : ClusterState → β → Except ClusterFault ClusterState}
    (hf : ∀ c b, DistinctReports c → Tidies (f c b)) :
    ∀ (l : List β) (cs : ClusterState), DistinctReports cs → Tidies (l.foldlM f cs) := by
  intro l
  induction l with
  | nil => exact fun cs h => h
  | cons b l ih =>
    intro cs h
    rw [List.foldlM_cons]
    exact (hf cs b h).bind ih

theorem Tidies.overSlots {f : ClusterState → Slot → Except ClusterFault ClusterState}
    (hf : ∀ c j, DistinctReports c → Tidies (f c j)) (h : DistinctReports cs) :
    Tidies (forSlots f cs) := by
  unfold forSlots
  generalize List.finRange 16384 = l
  exact Tidies.foldlM hf l cs h

attribute [local irreducible] forSlots

theorem DistinctReports.same {cs' : ClusterState} (h : DistinctReports cs)
    (hn : cs'.nodes = cs.nodes) : DistinctReports cs' := by
  unfold DistinctReports
  rw [hn]
  exact h

theorem DistinctReports.setNode (h : DistinctReports cs) (hn : ReportsDistinct n) : DistinctReports
    (setNode cs x n) := by
  intro y m hy
  have hy' : (if y = x then some n else cs.nodes y) = some m := hy
  split_ifs at hy'
  · cases hy'
    exact hn
  · exact h y m hy'

theorem updateNode_distinct (h : DistinctReports cs)
    (hf : ∀ n, ReportsDistinct n → ReportsDistinct (f n)) : Tidies (updateNode cs x f) := by
  unfold updateNode
  apply read_bind
  intro n hn
  have hx : cs.nodes x = some n := by
    unfold deref at hn
    cases hc : cs.nodes x with
    | none =>
      rw [hc] at hn
      cases hn
    | some m =>
      rw [hc] at hn
      cases hn
      rfl
  exact h.setNode (hf n (h x n hx))

theorem updateNode_tidies (h : DistinctReports cs) (hf : ∀ n, (f n).failReports = n.failReports) :
    Tidies (updateNode cs x f) := by
  apply updateNode_distinct h
  intro n hn
  unfold ReportsDistinct
  rw [hf n]
  exact hn

theorem clusterAddNode_distinct (h : DistinctReports cs) (hn : n.failReports = []) :
    DistinctReports (clusterAddNode cs n) := by
  unfold clusterAddNode
  split_ifs
  · exact h
  · apply h.setNode
    unfold ReportsDistinct
    rw [hn]
    exact List.nodup_nil

theorem addFailureReport_distinct (h : ReportsDistinct n) (sender : NodeId)
    (now : ℤ) : ReportsDistinct (n.addFailureReport sender now) := by
  unfold ClusterNode.addFailureReport
  split_ifs with hany
  · -- an old report of the sender gets a new time
    have hsame : (n.failReports.map (fun r => if r.node = sender then ⟨sender, now⟩ else r)).map
        FailReport.node = n.failReports.map FailReport.node := by
      rw [List.map_map]
      apply List.map_congr_left
      intro r _
      by_cases hr : r.node = sender
      · simp [hr]
      · simp [hr]
    unfold ReportsDistinct
    rw [hsame]
    exact h
  · have hnew : sender ∉ n.failReports.map FailReport.node := by
      intro hmem
      apply hany
      obtain ⟨r, hr, hs⟩ := List.mem_map.mp hmem
      exact List.any_eq_true.mpr ⟨r, hr, by rw [hs]; exact beq_self_eq_true sender⟩
    unfold ReportsDistinct
    rw [List.map_append]
    apply List.Nodup.append h (List.nodup_singleton _)
    exact List.disjoint_singleton.mpr hnew

theorem ReportsDistinct.sublist {m : ClusterNode} (h : ReportsDistinct n)
    (hs : m.failReports.Sublist n.failReports) : ReportsDistinct m :=
  List.Nodup.sublist (hs.map FailReport.node) h

theorem cleanupFailureReports_distinct (h : ReportsDistinct n) (now : ℤ) :
    ReportsDistinct (n.cleanupFailureReports cfg now) := h.sublist List.filter_sublist

theorem delFailureReport_distinct (h : ReportsDistinct n) (now : ℤ)
    (sender : NodeId) : ReportsDistinct (n.delFailureReport cfg now sender) := by
  unfold ClusterNode.delFailureReport
  split_ifs
  · apply cleanupFailureReports_distinct
    exact h.sublist List.eraseP_sublist
  · exact h

theorem clusterNodeRemoveSlave_tidies (h : DistinctReports cs) (m s : NodeId) :
    Tidies (clusterNodeRemoveSlave cs m s) := by
  apply updateNode_tidies h
  intro n
  split_ifs <;> rfl

theorem clusterNodeAddSlave_tidies (h : DistinctReports cs) (m s : NodeId) :
    Tidies (clusterNodeAddSlave cs m s) := by
  apply updateNode_tidies h
  intro n
  split_ifs <;> rfl

theorem detachSlave_tidies (h : DistinctReports cs) (x : NodeId) : Tidies (detachSlave cs x) := by
  unfold detachSlave
  apply read_bind
  intro n _
  cases n.slaveof with
  | none => exact h
  | some m => exact clusterNodeRemoveSlave_tidies h m x

theorem clusterNodeSetSlotBit_tidies (h : DistinctReports cs) (x : NodeId) (j : Slot) :
    Tidies (clusterNodeSetSlotBit cs x j) := by
  apply updateNode_tidies h
  intro n
  split_ifs <;> rfl

theorem clusterNodeClearSlotBit_tidies (h : DistinctReports cs) (x : NodeId) (j : Slot) :
    Tidies (clusterNodeClearSlotBit cs x j) := by
  apply updateNode_tidies h
  intro n
  split_ifs <;> rfl

theorem clusterAddSlot_tidies (h : DistinctReports cs) (x : NodeId) (j : Slot) :
    TidiesFirst (clusterAddSlot cs x j) := by
  unfold clusterAddSlot
  cases cs.slots j with
  | some _ => exact h
  | none => exact (clusterNodeSetSlotBit_tidies h x j).bind (fun c hc => hc)

theorem clusterDelSlot_tidies (h : DistinctReports cs) (j : Slot) :
    TidiesFirst (clusterDelSlot cs j) := by
  unfold clusterDelSlot
  cases cs.slots j with
  | none => exact h
  | some x =>
    apply read_bind
    intro n _
    split_ifs
    · exact (clusterNodeClearSlotBit_tidies h x j).bind (fun c hc => hc)
    · exact TidiesFirst.error _

theorem rebindSlot_tidies (h : DistinctReports cs) (x : NodeId) (j : Slot) :
    Tidies (rebindSlot cs x j) := by
  unfold rebindSlot
  apply (clusterDelSlot_tidies h j).bind
  intro r hr
  exact (clusterAddSlot_tidies hr x j).bind (fun c hc => hc)

theorem clusterDelNodeSlots_tidies (h : DistinctReports cs) (x : NodeId) :
    Tidies (clusterDelNodeSlots cs x) := by
  unfold clusterDelNodeSlots
  apply Tidies.overSlots _ h
  intro c j hc
  apply read_bind
  intro n _
  split_ifs
  · exact (clusterDelSlot_tidies hc j).bind (fun r hr => hr)
  · exact hc

theorem freeClusterNode_tidies (h : DistinctReports cs) (x : NodeId) :
    Tidies (freeClusterNode cs x) := by
  unfold freeClusterNode
  apply read_bind
  intro n _
  have hforget : Tidies (forgetMaster cs n.slaves) := by
    apply Tidies.foldlM _ n.slaves cs h
    intro c y hc
    apply updateNode_tidies hc
    exact fun m => rfl
  apply hforget.bind
  intro c hc
  apply read_bind
  intro p _
  have hdetach : Tidies (if p.flags.slave then detachSlave c x else .ok c) := by
    split_ifs
    · exact detachSlave_tidies hc x
    · exact hc
  apply hdetach.bind
  intro c' hc'
  split_ifs
  · intro y m hy
    have hy' : (if y = x then none else c'.nodes y) = some m := hy
    split_ifs at hy'
    exact hc' y m hy'
  · exact Tidies.error _

theorem releaseSlot_tidies (h : DistinctReports cs) (x : NodeId) (j : Slot) :
    Tidies (releaseSlot x cs j) := by
  unfold releaseSlot
  dsimp only
  generalize hc : (if cs.importingSlotsFrom j = some x then
    { cs with importingSlotsFrom := Function.update cs.importingSlotsFrom j none } else cs) = c
  have h1 : DistinctReports c := by
    rw [← hc]
    split_ifs <;> exact h
  generalize hd : (if c.migratingSlotsTo j = some x then
    { c with migratingSlotsTo := Function.update c.migratingSlotsTo j none } else c) = d
  have h2 : DistinctReports d := by
    rw [← hd]
    split_ifs <;> exact h1
  split_ifs
  · exact (clusterDelSlot_tidies h2 j).bind (fun r hr => hr)
  · exact h2

theorem delFailureReports_distinct (h : DistinctReports cs) (x : NodeId) :
    DistinctReports (delFailureReports cfg env cs x) := by
  intro y m hy
  have hy' : (if y ∈ nodeIds cs ∧ y ≠ x then
    (cs.nodes y).map (ClusterNode.delFailureReport cfg env.now x) else cs.nodes y) = some m := hy
  split_ifs at hy'
  · obtain ⟨p, hp, rfl⟩ := Option.map_eq_some_iff.mp hy'
    exact delFailureReport_distinct (h y p hp) env.now x
  · exact h y m hy'

theorem clusterDelNode_tidies (h : DistinctReports cs) (x : NodeId) :
    Tidies (clusterDelNode cfg env cs x) := by
  unfold clusterDelNode
  have hslots : Tidies (forSlots (releaseSlot x) cs) :=
    Tidies.overSlots (fun c j hc => releaseSlot_tidies hc x j) h
  apply hslots.bind
  intro c hc
  exact freeClusterNode_tidies (delFailureReports_distinct hc x) x

theorem clusterRenameNode_tidies (h : DistinctReports cs) (x : NodeId) (name : NodeName) :
    Tidies (clusterRenameNode cs x name) := by
  unfold clusterRenameNode
  apply read_bind
  intro n _
  split_ifs
  · dsimp only
    have h1 : DistinctReports { cs with table := Function.update cs.table n.name none } := h
    have h2 := updateNode_tidies (x := x) (f := fun n => { n with name := name }) h1 (fun m => rfl)
    apply h2.bind
    intro c hc
    have h3 : DistinctReports { c with table := Function.update c.table name (some x) } := hc
    split_ifs
    · exact hc
    · exact h3
  · exact Tidies.error _

theorem clusterBumpConfigEpochWithoutConsensus_tidies (h : DistinctReports cs) :
    TidiesFirst (clusterBumpConfigEpochWithoutConsensus cs) := by
  unfold clusterBumpConfigEpochWithoutConsensus
  apply read_bind
  intro me _
  split_ifs
  · dsimp only
    have h1 : DistinctReports { cs with currentEpoch := cs.currentEpoch+1 } := h
    have h2 := updateNode_tidies (x := cs.myself)
      (f := fun n => { n with configEpoch := cs.currentEpoch+1 }) h1 (fun m => rfl)
    exact h2.bind (fun c hc => hc)
  · exact h

theorem clusterHandleConfigEpochCollision_tidies (h : DistinctReports cs) (s : NodeId) :
    Tidies (clusterHandleConfigEpochCollision cs s) := by
  unfold clusterHandleConfigEpochCollision
  apply read_bind
  intro n _
  apply read_bind
  intro me _
  split_ifs
  · exact h
  · exact h
  · have h1 : DistinctReports { cs with currentEpoch := cs.currentEpoch+1 } := h
    apply updateNode_tidies h1
    exact fun m => rfl

theorem clusterSetNodeAsMaster_tidies (h : DistinctReports cs) (x : NodeId) :
    Tidies (clusterSetNodeAsMaster cs x) := by
  unfold clusterSetNodeAsMaster
  apply read_bind
  intro n _
  split_ifs
  · exact h
  · apply (detachSlave_tidies h x).bind
    intro c hc
    apply updateNode_tidies hc
    exact fun m => rfl

theorem leaveRole_tidies (h : DistinctReports cs) : Tidies (leaveRole cs) := by
  unfold leaveRole
  apply read_bind
  intro me _
  split_ifs
  · have hdemote : Tidies (updateNode cs cs.myself (fun n =>
        { n with flags := { n.flags with master := false, migrateTo := false, slave := true } })) := by
      apply updateNode_tidies h
      exact fun m => rfl
    exact hdemote.bind (fun c hc => hc)
  · exact detachSlave_tidies h _

theorem clusterSetMaster_tidies (h : DistinctReports cs) (m : NodeId) :
    Tidies (clusterSetMaster cs m) := by
  unfold clusterSetMaster
  split_ifs
  · exact Tidies.error _
  · apply read_bind
    intro me _
    split_ifs
    · exact Tidies.error _
    · apply (leaveRole_tidies h).bind
      intro c hc
      have hfollow : Tidies (updateNode c c.myself (fun n => { n with slaveof := some m })) := by
        apply updateNode_tidies hc
        exact fun n => rfl
      apply hfollow.bind
      intro c' hc'
      exact (clusterNodeAddSlave_tidies hc' m _).bind (fun d hd => hd)

theorem claimSlot_tidies (curmaster : Option NodeId) (sender : NodeId) (epoch : ℕ)
    (slots : Slot → Bool) (h : DistinctReports r.1) (j : Slot) :
    TidiesFirst (claimSlot curmaster sender epoch slots r j) := by
  unfold claimSlot
  split_ifs
  · exact h
  · apply read_bind
    intro yields _
    split_ifs
    · exact (rebindSlot_tidies h sender j).bind (fun c hc => hc)
    · exact h

theorem followNewMaster_tidies (curmaster : Option NodeId) (sender : NodeId)
    (h : DistinctReports r.1) :
    Tidies (followNewMaster cfg curmaster sender r) := by
  unfold followNewMaster
  split_ifs
  · exact h
  · cases curmaster with
    | none => exact Tidies.error _
    | some c =>
      apply read_bind
      intro n _
      split_ifs
      · exact clusterSetMaster_tidies h sender
      · exact h
  · exact h

theorem clusterUpdateSlotsConfigWith_tidies (h : DistinctReports cs) (sender : NodeId)
    (epoch : ℕ) (slots : Slot → Bool) :
    Tidies (clusterUpdateSlotsConfigWith cfg cs sender epoch slots) := by
  unfold clusterUpdateSlotsConfigWith
  apply read_bind
  intro me _
  dsimp only
  generalize (if me.flags.master then some cs.myself else me.slaveof) = curmaster
  have hloop : ∀ (l : List Slot) (r : ClusterState × Bool), DistinctReports r.1 →
      TidiesFirst (l.foldlM (claimSlot curmaster sender epoch slots) r) := by
    intro l
    induction l with
    | nil => exact fun r hr => hr
    | cons j l ih =>
      intro r hr
      rw [List.foldlM_cons]
      exact (claimSlot_tidies curmaster sender epoch slots hr j).bind ih
  generalize List.finRange 16384 = l
  split_ifs
  · exact h
  · apply (hloop l (cs, false) h).bind
    intro r hr
    exact followNewMaster_tidies curmaster sender hr

theorem clusterSendPing_tidies (h : DistinctReports cs) (dest : NodeName)
    (kind : List GossipEntry → MsgBody) : Tidies (clusterSendPing cfg env cs dest kind) := by
  unfold clusterSendPing
  exact read_bind (fun hdr _ => h)

theorem clusterSendFail_tidies (h : DistinctReports cs) (name : NodeName) :
    Tidies (clusterSendFail cfg env cs name) := by
  unfold clusterSendFail
  exact read_bind (fun hdr _ => h)

theorem clusterSendUpdate_tidies (h : DistinctReports cs) (x owner : NodeId) :
    Tidies (clusterSendUpdate cfg env cs x owner) := by
  unfold clusterSendUpdate
  apply read_bind
  intro n _
  split_ifs
  · exact read_bind (fun o _ => read_bind (fun hdr _ => h))
  · exact h

theorem clusterBroadcastPong_tidies (h : DistinctReports cs) (localSlaves : Bool) :
    Tidies (clusterBroadcastPong cfg env cs localSlaves) := by
  unfold clusterBroadcastPong
  exact read_bind (fun me _ => read_bind (fun hdr _ => h))

theorem markNodeAsFailingIfNeeded_tidies (h : DistinctReports cs) (x : NodeId) :
    Tidies (markNodeAsFailingIfNeeded cfg env cs x) := by
  unfold markNodeAsFailingIfNeeded
  apply read_bind
  intro n _
  split_ifs
  · exact h
  · apply Tidies.bind (updateNode_distinct h (fun m hm => cleanupFailureReports_distinct hm env.now))
    intro c hc
    apply read_bind
    intro p _
    apply read_bind
    intro me _
    generalize (if me.flags.master then 1 else 0) = own
    split_ifs
    · exact hc
    · have hfail : Tidies (updateNode c x (fun n =>
          { n with flags := { n.flags with pfail := false, fail := true }, failTime := env.now })) := by
        apply updateNode_tidies hc
        exact fun m => rfl
      apply hfail.bind
      exact fun d hd => clusterSendFail_tidies hd p.name

theorem clearNodeFailureIfNeeded_tidies (h : DistinctReports cs) (x : NodeId) :
    Tidies (clearNodeFailureIfNeeded cfg env cs x) := by
  unfold clearNodeFailureIfNeeded
  apply read_bind
  intro n _
  split_ifs
  · exact Tidies.error _
  · apply updateNode_tidies h
    exact fun m => rfl
  · exact h

theorem noteHealth_tidies (h : DistinctReports cs) (sender : Option NodeId) (x : NodeId)
    (flags : NodeFlags) : Tidies (noteHealth cfg env sender cs x flags) := by
  unfold noteHealth
  cases sender with
  | none => exact h
  | some s =>
    apply read_bind
    intro n _
    split_ifs
    · exact h
    · apply Tidies.bind (updateNode_distinct h (fun m hm => addFailureReport_distinct hm s env.now))
      exact fun c hc => markNodeAsFailingIfNeeded_tidies hc x
    · exact updateNode_distinct h (fun m hm => delFailureReport_distinct hm env.now s)

theorem noteAddress_tidies (h : DistinctReports cs) (x : NodeId) (g : GossipEntry) :
    Tidies (noteAddress cs x g) := by
  unfold noteAddress
  apply read_bind
  intro n _
  split_ifs
  · apply updateNode_tidies h
    exact fun m => rfl
  · exact h

theorem processGossipEntry_tidies (h : DistinctReports cs) (sender : Option NodeId)
    (g : GossipEntry) : Tidies (processGossipEntry cfg env sender cs g) := by
  unfold processGossipEntry
  cases clusterLookupNode cs g.nodename with
  | some x =>
    apply (noteHealth_tidies h sender x g.flags).bind
    exact fun c hc => noteAddress_tidies hc x g
  | none =>
    have hclean : DistinctReports (clusterBlacklistCleanup env cs) := h
    dsimp only
    split_ifs
    · exact hclean
    · exact clusterAddNode_distinct hclean rfl
    · exact h

theorem clusterProcessGossipSection_tidies (h : DistinctReports cs) (link : Option NodeId)
    (hdr : ClusterMsg) (gossip : List GossipEntry) :
    Tidies (clusterProcessGossipSection cfg env cs link hdr gossip) := by
  unfold clusterProcessGossipSection
  exact Tidies.foldlM (fun c g hc => processGossipEntry_tidies hc _ g) gossip cs h

theorem clusterSendFailoverAuth_tidies (h : DistinctReports cs) (x : NodeId) :
    Tidies (clusterSendFailoverAuth cfg env cs x) := by
  unfold clusterSendFailoverAuth
  apply read_bind
  intro n _
  split_ifs
  · exact read_bind (fun hdr _ => h)
  · exact h

theorem grantVote_tidies (h : DistinctReports cs) (node m : NodeId) :
    Tidies (grantVote cfg env cs node m) := by
  unfold grantVote
  have h1 : DistinctReports { cs with lastVoteEpoch := cs.currentEpoch } := h
  have hvote : Tidies (updateNode { cs with lastVoteEpoch := cs.currentEpoch } m (fun n =>
      { n with votedTime := env.now })) := by
    apply updateNode_tidies h1
    exact fun n => rfl
  exact hvote.bind (fun c hc => clusterSendFailoverAuth_tidies hc node)

theorem clusterSendFailoverAuthIfNeeded_tidies (h : DistinctReports cs) (node : NodeId)
    (request : ClusterMsg) : Tidies (clusterSendFailoverAuthIfNeeded cfg env cs node request) := by
  unfold clusterSendFailoverAuthIfNeeded
  apply read_bind
  intro me _
  apply yields_ite
  · exact h
  apply yields_ite
  · exact h
  apply yields_ite
  · exact h
  apply read_bind
  intro m _
  cases m with
  | none => exact h
  | some m =>
    apply read_bind
    intro master _
    apply yields_ite
    · exact h
    generalize (List.finRange 16384).any (fun j =>
      request.myslots j && decide (request.configEpoch < slotEpoch cs j)) = stale
    apply yields_ite
    · exact h
    exact grantVote_tidies h node m

theorem clusterUpdateState_tidies (h : DistinctReports cs) :
    Tidies (clusterUpdateState cfg env cs) := by
  unfold clusterUpdateState
  apply read_bind
  intro me _
  -- whatever is noted, the nodes stay as they are
  have hsame : ∀ c : ClusterState, c.nodes = cs.nodes → DistinctReports c := fun c hc => h.same hc
  dsimp only
  split_ifs <;> exact hsame _ rfl

theorem claimMasterSlots_tidies (h : DistinctReports cs) (oldmaster : NodeId) :
    Tidies (claimMasterSlots oldmaster cs) := by
  unfold claimMasterSlots
  apply Tidies.overSlots _ h
  intro c j hc
  apply read_bind
  intro o _
  split_ifs
  · exact rebindSlot_tidies hc _ j
  · exact hc

theorem clusterFailoverReplaceYourMaster_tidies (h : DistinctReports cs) :
    Tidies (clusterFailoverReplaceYourMaster cfg env cs) := by
  unfold clusterFailoverReplaceYourMaster
  apply read_bind
  intro me _
  cases me.slaveof with
  | none => exact h
  | some oldmaster =>
    dsimp only
    split_ifs
    · exact h
    · apply (clusterSetNodeAsMaster_tidies h _).bind
      intro c hc
      apply (claimMasterSlots_tidies hc oldmaster).bind
      intro c hc
      apply (clusterUpdateState_tidies hc).bind
      intro c hc
      apply (clusterBroadcastPong_tidies hc false).bind
      exact fun c hc => hc

theorem scheduleElection_tidies (h : DistinctReports cs) :
    Tidies (scheduleElection cfg env cs) := by
  unfold scheduleElection
  apply read_bind
  intro rank _
  apply clusterBroadcastPong_tidies
  exact h

theorem delayElection_tidies (h : DistinctReports cs) : Tidies (delayElection env cs) := by
  unfold delayElection
  split_ifs
  · apply read_bind
    intro rank _
    split_ifs
    · exact h
    · exact h
  · exact h

theorem requestVotes_tidies (h : DistinctReports cs) : Tidies (requestVotes cfg env cs) := by
  unfold requestVotes clusterRequestFailoverAuth
  dsimp only
  have hsent : Tidies (do
      let hdr ← clusterBuildMessageHdr cfg env
        { cs with currentEpoch := cs.currentEpoch+1, failoverAuthEpoch := cs.currentEpoch+1 }
        .authRequest
      .ok (clusterBroadcastMessage
        { cs with currentEpoch := cs.currentEpoch+1, failoverAuthEpoch := cs.currentEpoch+1 }
        { hdr with forceack := decide (cs.mfEnd ≠ 0) })) := read_bind (fun hdr _ => h)
  exact hsent.bind (fun c hc => hc)

theorem winElection_tidies (h : DistinctReports cs) : Tidies (winElection cfg env cs) := by
  unfold winElection
  have hepoch : Tidies (updateNode cs cs.myself (fun n =>
      { n with configEpoch := max n.configEpoch cs.failoverAuthEpoch })) := by
    apply updateNode_tidies h
    exact fun n => rfl
  exact hepoch.bind (fun c hc => clusterFailoverReplaceYourMaster_tidies hc)

theorem runElection_tidies (h : DistinctReports cs) (authAge authTimeout : ℤ) :
    TidiesFirst (runElection cfg env cs authAge authTimeout) := by
  unfold runElection
  apply (delayElection_tidies h).bind
  intro c hc
  split_ifs
  · exact hc
  · exact hc
  · exact (requestVotes_tidies hc).bind (fun c hc => hc)
  · exact (winElection_tidies hc).bind (fun c hc => hc)
  · exact hc

theorem clusterHandleSlaveFailover_tidies (h : DistinctReports cs) :
    TidiesFirst (clusterHandleSlaveFailover cfg env cs) := by
  unfold clusterHandleSlaveFailover
  apply read_bind
  intro may _
  split_ifs
  · exact h
  · exact h
  · exact (scheduleElection_tidies h).bind (fun c hc => hc)
  · exact runElection_tidies h _ _

theorem nodeUpdateAddressIfNeeded_tidies (h : DistinctReports cs) (x : NodeId)
    (link : Option NodeId) (hdr : ClusterMsg) :
    Tidies (nodeUpdateAddressIfNeeded env cs x link hdr) := by
  unfold nodeUpdateAddressIfNeeded
  apply read_bind
  intro n _
  dsimp only
  apply yields_ite
  · exact h
  apply yields_ite
  · exact h
  apply updateNode_tidies h
  exact fun m => rfl

theorem noteSender_tidies (h : DistinctReports cs) (sender : Option NodeId) (hdr : ClusterMsg) :
    Tidies (noteSender cs sender hdr) := by
  unfold noteSender
  cases sender with
  | none => exact h
  | some s =>
    apply read_bind
    intro n _
    split_ifs
    · exact h
    · have h1 : DistinctReports { cs with currentEpoch := max cs.currentEpoch hdr.currentEpoch } := h
      have hnote : Tidies (updateNode { cs with currentEpoch := max cs.currentEpoch hdr.currentEpoch }
          s (fun n => { n with
            configEpoch := max n.configEpoch hdr.configEpoch, replOffset := hdr.offset })) := by
        apply updateNode_tidies h1
        exact fun n => rfl
      apply hnote.bind
      intro c hc
      apply read_bind
      intro me _
      split_ifs
      · exact hc
      · exact hc

theorem meetSender_tidies (h : DistinctReports cs) (link sender : Option NodeId)
    (hdr : ClusterMsg) : Tidies (meetSender cfg env cs link sender hdr) := by
  unfold meetSender
  split
  · apply clusterProcessGossipSection_tidies
    exact clusterAddNode_distinct h rfl
  · exact h

theorem answerPing_tidies (h : DistinctReports cs) (link : Option NodeId) (hdr : ClusterMsg) :
    Tidies (answerPing cfg env cs link hdr) := by
  unfold answerPing
  split
  · exact clusterSendPing_tidies h _ _
  · exact clusterSendPing_tidies h _ _
  · exact h

theorem handshakeLink_tidies (h : DistinctReports cs) (link sender : Option NodeId)
    (hdr : ClusterMsg) : TidiesFirst (handshakeLink cfg env cs link sender hdr) := by
  unfold handshakeLink
  cases link with
  | none => exact h
  | some l =>
    apply read_bind
    intro n _
    dsimp only
    split_ifs
    · cases sender with
      | some s =>
        apply (nodeUpdateAddressIfNeeded_tidies h s (some l) hdr).bind
        intro c hc
        exact (clusterDelNode_tidies hc l).bind (fun d hd => hd)
      | none =>
        apply (clusterRenameNode_tidies h l hdr.sender).bind
        intro c hc
        have hrole : Tidies (updateNode c l (fun n =>
            { n with flags := { n.flags with
                handshake := false
                master := n.flags.master || hdr.flags.master
                slave := n.flags.slave || hdr.flags.slave } })) := by
          apply updateNode_tidies hc
          exact fun m => rfl
        exact hrole.bind (fun d hd => hd)
    · have haddr : Tidies (updateNode cs l (fun n =>
          { n with addr := ⟨[], 0, 0⟩, link := false, flags := { n.flags with noaddr := true } })) := by
        apply updateNode_tidies h
        exact fun m => rfl
      exact haddr.bind (fun d hd => hd)
    · exact h

theorem noteAnnounced_tidies (h : DistinctReports cs) (link : Option NodeId) (s : NodeId)
    (hdr : ClusterMsg) : Tidies (noteAnnounced env cs link s hdr) := by
  unfold noteAnnounced
  have hflag : Tidies (updateNode cs s (fun n =>
      { n with flags := { n.flags with nofailover := hdr.flags.nofailover } })) := by
    apply updateNode_tidies h
    exact fun m => rfl
  apply hflag.bind
  intro c hc
  apply read_bind
  intro n _
  cases hdr.body with
  | ping gossip =>
    dsimp only
    split_ifs
    · exact hc
    · exact nodeUpdateAddressIfNeeded_tidies hc s link hdr
  | _ => exact hc

theorem notePong_tidies (h : DistinctReports cs) (link : Option NodeId) (hdr : ClusterMsg) :
    Tidies (notePong cfg env cs link hdr) := by
  unfold notePong
  split
  · apply read_bind
    intro n _
    split_ifs
    · apply updateNode_tidies h
      exact fun m => rfl
    · exact clearNodeFailureIfNeeded_tidies h _
    · exact h
  · exact h

theorem demoteSender_tidies (h : DistinctReports cs) (s : NodeId) :
    Tidies (demoteSender cs s) := by
  unfold demoteSender
  apply read_bind
  intro n _
  split_ifs
  · apply (clusterDelNodeSlots_tidies h s).bind
    intro c hc
    apply updateNode_tidies hc
    exact fun m => rfl
  · exact h

theorem attachSender_tidies (h : DistinctReports cs) (s m : NodeId) :
    Tidies (attachSender cs s m) := by
  unfold attachSender
  apply read_bind
  intro n _
  split_ifs
  · exact h
  · apply (detachSlave_tidies h s).bind
    intro c hc
    apply (clusterNodeAddSlave_tidies hc m s).bind
    intro d hd
    apply updateNode_tidies hd
    exact fun n => rfl

theorem switchRole_tidies (h : DistinctReports cs) (s : NodeId) (hdr : ClusterMsg) :
    Tidies (switchRole cs s hdr) := by
  unfold switchRole
  split_ifs
  · exact clusterSetNodeAsMaster_tidies h s
  · cases clusterLookupNode cs hdr.slaveof with
    | none => exact demoteSender_tidies h s
    | some m => exact (demoteSender_tidies h s).bind (fun c hc => attachSender_tidies hc s m)

theorem updateSlots_tidies (h : DistinctReports cs) (s : NodeId) (epoch : ℕ) (hdr : ClusterMsg) :
    Tidies (updateSlots cfg env cs s epoch hdr) := by
  unfold updateSlots
  apply read_bind
  intro dirty _
  split_ifs
  · apply read_bind
    intro n _
    have hclaim : Tidies (if n.flags.master then
        clusterUpdateSlotsConfigWith cfg cs s epoch hdr.myslots else .ok cs) := by
      split_ifs
      · exact clusterUpdateSlotsConfigWith_tidies h s epoch hdr.myslots
      · exact h
    apply hclaim.bind
    intro c hc
    cases staleClaim c s epoch hdr with
    | none => exact hc
    | some owner => exact clusterSendUpdate_tidies hc s owner
  · exact h

theorem resolveCollision_tidies (h : DistinctReports cs) (s : NodeId) (epoch : ℕ) :
    Tidies (resolveCollision cs s epoch) := by
  unfold resolveCollision
  apply read_bind
  intro n _
  apply read_bind
  intro me _
  split_ifs
  · exact clusterHandleConfigEpochCollision_tidies h s
  · exact h

theorem processConfig_tidies (h : DistinctReports cs) (link sender : Option NodeId) (epoch : ℕ)
    (hdr : ClusterMsg) (gossip : List GossipEntry) :
    Tidies (processConfig cfg env cs link sender epoch hdr gossip) := by
  unfold processConfig
  apply (handshakeLink_tidies h link sender hdr).bind
  intro r hr
  split_ifs
  · exact hr
  · cases sender with
    | none => exact notePong_tidies hr link hdr
    | some s =>
      apply (noteAnnounced_tidies hr link s hdr).bind
      intro c hc
      apply (notePong_tidies hc link hdr).bind
      intro c hc
      apply (switchRole_tidies hc s hdr).bind
      intro c hc
      apply (updateSlots_tidies hc s epoch hdr).bind
      intro c hc
      apply (resolveCollision_tidies hc s epoch).bind
      exact fun c hc => clusterProcessGossipSection_tidies hc link hdr gossip

theorem processFail_tidies (h : DistinctReports cs) (sender : Option NodeId) (name : NodeName) :
    Tidies (processFail env cs sender name) := by
  unfold processFail
  split
  · apply read_bind
    intro n _
    split_ifs
    · exact h
    · apply updateNode_tidies h
      exact fun m => rfl
  · exact h

theorem processUpdate_tidies (h : DistinctReports cs) (name : NodeName) (epoch : ℕ)
    (slots : Slot → Bool) : Tidies (processUpdate cfg cs name epoch slots) := by
  unfold processUpdate
  cases clusterLookupNode cs name with
  | none => exact h
  | some x =>
    apply read_bind
    intro n _
    apply yields_ite
    · exact h
    have hrole : Tidies (if n.flags.slave then clusterSetNodeAsMaster cs x else .ok cs) := by
      split_ifs
      · exact clusterSetNodeAsMaster_tidies h x
      · exact h
    apply hrole.bind
    intro c hc
    have hepoch : Tidies (updateNode c x (fun n => { n with configEpoch := epoch })) := by
      apply updateNode_tidies hc
      exact fun m => rfl
    apply hepoch.bind
    exact fun d hd => clusterUpdateSlotsConfigWith_tidies hd x epoch slots

theorem processKnown_tidies (h : DistinctReports cs) (s : NodeId) (epoch : ℕ) (hdr : ClusterMsg) :
    Tidies (processKnown cfg env cs s epoch hdr) := by
  unfold processKnown
  cases hdr.body with
  | authRequest => exact clusterSendFailoverAuthIfNeeded_tidies h s hdr
  | authAck =>
    apply read_bind
    intro n _
    split_ifs
    · exact h
    · exact h
  | mfstart =>
    apply read_bind
    intro n _
    split_ifs
    · exact h
    · exact h
  | update name reportedConfigEpoch slots => exact processUpdate_tidies h name _ slots
  | _ => exact h

theorem processKnown_or_tidies (h : DistinctReports cs) (sender : Option NodeId) (currentEpoch : ℕ)
    (hdr : ClusterMsg) : Tidies (match sender with
      | none => .ok cs
      | some s => processKnown cfg env cs s currentEpoch hdr) := by
  cases sender with
  | none => exact h
  | some s => exact processKnown_tidies h s currentEpoch hdr

theorem processBody_tidies (h : DistinctReports cs) (link sender : Option NodeId)
    (currentEpoch configEpoch : ℕ) (hdr : ClusterMsg) :
    Tidies (processBody cfg env cs link sender currentEpoch configEpoch hdr) := by
  unfold processBody
  split
  · exact processConfig_tidies h link sender configEpoch hdr _
  · exact processConfig_tidies h link sender configEpoch hdr _
  · exact processConfig_tidies h link sender configEpoch hdr _
  · exact processFail_tidies h sender _
  · exact processKnown_or_tidies h sender currentEpoch hdr

theorem clusterProcessPacket_tidies (h : DistinctReports cs) (link : Option NodeId)
    (hdr : ClusterMsg) : Tidies (clusterProcessPacket cfg env cs link hdr) := by
  unfold clusterProcessPacket
  apply read_bind
  intro r _
  apply (noteSender_tidies h r.1 hdr).bind
  intro c hc
  apply (meetSender_tidies hc link r.1 hdr).bind
  intro c hc
  apply (answerPing_tidies hc link hdr).bind
  exact fun c hc => processBody_tidies hc link r.1 _ _ hdr

theorem clusterStartHandshake_distinct (h : DistinctReports cs) (ip : Option Bytes)
    (port cport : ℤ) : DistinctReports (clusterStartHandshake env cs ip port cport).1 := by
  unfold clusterStartHandshake
  cases ip with
  | none => exact h
  | some ip =>
    dsimp only
    split_ifs
    · exact h
    · exact h
    · exact clusterAddNode_distinct h rfl

theorem changeSlot_tidies (h : DistinctReports cs) (del : Bool) (js : List Slot) (j : Slot) :
    Tidies (changeSlot del js cs j) := by
  have h1 : DistinctReports
      { cs with importingSlotsFrom := Function.update cs.importingSlotsFrom j none } := h
  unfold changeSlot
  apply yields_ite
  swap
  · exact h
  dsimp only
  generalize { cs with
    importingSlotsFrom := Function.update cs.importingSlotsFrom j none } = c at h1 ⊢
  have hchange : TidiesFirst (if del then clusterDelSlot c j else clusterAddSlot c cs.myself j) := by
    cases del with
    | true => exact clusterDelSlot_tidies h1 j
    | false => exact clusterAddSlot_tidies h1 _ j
  apply hchange.bind
  intro r hr
  split_ifs
  · exact hr
  · exact Tidies.error _

theorem changeSlots_tidies (h : DistinctReports cs) (del : Bool) (js : List Slot) :
    TidiesFirst (changeSlots cs del js) := by
  unfold changeSlots
  cases checkSlots cs del js [] with
  | some reply => exact h
  | none =>
    have hloop : Tidies (forSlots (changeSlot del js) cs) :=
      Tidies.overSlots (fun c j hc => changeSlot_tidies hc del js j) h
    exact hloop.bind (fun c hc => hc)

theorem setslotNode_tidies (h : DistinctReports cs) (slot : Slot) (x : NodeId) :
    TidiesFirst (setslotNode env cs slot x) := by
  unfold setslotNode
  apply yields_ite
  · exact h
  dsimp only
  generalize hc : (if env.keysInSlot slot = 0 ∧ (cs.migratingSlotsTo slot).isSome = true then
    { cs with migratingSlotsTo := Function.update cs.migratingSlotsTo slot none } else cs) = c
  have h1 : DistinctReports c := by
    rw [← hc]
    split_ifs <;> exact h
  have himport : Tidies (if x = c.myself ∧ (c.importingSlotsFrom slot).isSome = true then do
        let r ← clusterBumpConfigEpochWithoutConsensus c
        .ok { r.1 with importingSlotsFrom := Function.update r.1.importingSlotsFrom slot none }
      else .ok c) := by
    apply yields_ite
    swap
    · exact h1
    exact (clusterBumpConfigEpochWithoutConsensus_tidies h1).bind (fun r hr => hr)
  apply himport.bind
  intro d hd
  exact (rebindSlot_tidies hd x slot).bind (fun e he => he)

theorem setslot_tidies (h : DistinctReports cs) (cmd : ClusterCommand) :
    TidiesFirst (setslot env cs cmd) := by
  unfold setslot
  cases cmd with
  | setslotMigrating slot name =>
    apply yields_ite
    · exact h
    cases clusterLookupNode cs name with
    | none => exact h
    | some x => exact h
  | setslotImporting slot name =>
    apply yields_ite
    · exact h
    cases clusterLookupNode cs name with
    | none => exact h
    | some x => exact h
  | setslotNode slot name =>
    dsimp only
    cases clusterLookupNode cs name with
    | none => exact h
    | some x => exact setslotNode_tidies h slot x
  | _ => exact h

theorem setslotCommand_tidies (h : DistinctReports cs) (cmd : ClusterCommand) :
    TidiesFirst (setslotCommand env cs cmd) := by
  unfold setslotCommand
  apply read_bind
  intro me _
  exact yields_ite h (setslot_tidies h cmd)

theorem forgetCommand_tidies (h : DistinctReports cs) (name : NodeName) :
    TidiesFirst (forgetCommand cfg env cs name) := by
  unfold forgetCommand
  cases clusterLookupNode cs name with
  | none => exact h
  | some x =>
    apply read_bind
    intro me _
    apply yields_ite
    · exact h
    apply yields_ite
    · exact h
    apply read_bind
    intro n _
    have h1 : DistinctReports (clusterBlacklistAddNode env cs n) := h
    exact (clusterDelNode_tidies h1 x).bind (fun c hc => hc)

theorem replicateCommand_tidies (h : DistinctReports cs) (name : NodeName) :
    TidiesFirst (replicateCommand env cs name) := by
  unfold replicateCommand
  cases clusterLookupNode cs name with
  | none => exact h
  | some x =>
    apply yields_ite
    · exact h
    apply read_bind
    intro n _
    apply read_bind
    intro me _
    apply yields_ite
    · exact h
    apply yields_ite
    · exact h
    exact (clusterSetMaster_tidies h x).bind (fun c hc => hc)

theorem clusterSendMFStart_tidies (h : DistinctReports cs) (m : NodeId) :
    Tidies (clusterSendMFStart cfg env cs m) := by
  unfold clusterSendMFStart
  apply read_bind
  intro n _
  apply yields_ite
  swap
  · exact h
  exact read_bind (fun hdr _ => h)

theorem startFailover_tidies (h : DistinctReports cs) (m : NodeId) (mode : FailoverMode) :
    Tidies (startFailover cfg env cs m mode) := by
  have h1 : DistinctReports { resetManualFailover cs with mfEnd := env.now+5000 } := h
  unfold startFailover
  cases mode with
  | takeover =>
    apply (clusterBumpConfigEpochWithoutConsensus_tidies h1).bind
    exact fun r hr => clusterFailoverReplaceYourMaster_tidies hr
  | force => exact h
  | graceful => exact clusterSendMFStart_tidies h1 m

theorem failoverCommand_tidies (h : DistinctReports cs) (mode : FailoverMode) :
    TidiesFirst (failoverCommand cfg env cs mode) := by
  unfold failoverCommand
  apply read_bind
  intro me _
  apply yields_ite
  · exact h
  cases me.slaveof with
  | none => exact h
  | some m =>
    apply read_bind
    intro master _
    apply yields_ite
    · exact h
    exact (startFailover_tidies h m mode).bind (fun c hc => hc)

theorem setConfigEpochCommand_tidies (h : DistinctReports cs) (epoch : ℤ) :
    TidiesFirst (setConfigEpochCommand cs epoch) := by
  unfold setConfigEpochCommand
  apply read_bind
  intro me _
  apply yields_ite
  · exact h
  apply yields_ite
  · exact h
  apply yields_ite
  · exact h
  have hepoch : Tidies (updateNode cs cs.myself (fun n => { n with configEpoch := epoch.toNat })) := by
    apply updateNode_tidies h
    exact fun m => rfl
  exact hepoch.bind (fun c hc => hc)

theorem clusterCommand_tidies (h : DistinctReports cs) (cmd : ClusterCommand) :
    TidiesFirst (clusterCommand cfg env cs cmd) := by
  cases cmd with
  | «meet» ip port cport => exact clusterStartHandshake_distinct h ip port cport
  | flushslots =>
    unfold clusterCommand
    apply yields_ite
    · exact h
    exact (clusterDelNodeSlots_tidies h _).bind (fun c hc => hc)
  | addslots js => exact changeSlots_tidies h false js
  | delslots js => exact changeSlots_tidies h true js
  | bumpepoch =>
    apply (clusterBumpConfigEpochWithoutConsensus_tidies h).bind
    exact fun r hr => read_bind (fun me _ => hr)
  | forget name => exact forgetCommand_tidies h name
  | replicate name => exact replicateCommand_tidies h name
  | failover mode => exact failoverCommand_tidies h mode
  | setConfigEpoch epoch => exact setConfigEpochCommand_tidies h epoch
  | _ => exact setslotCommand_tidies h _

theorem expireHandshakes_tidies (h : DistinctReports cs) :
    Tidies (expireHandshakes cfg env cs) := by
  unfold expireHandshakes
  apply Tidies.foldlM _ _ cs h
  intro c x hc
  unfold expireHandshake
  cases c.nodes x with
  | none => exact hc
  | some n =>
    apply yields_ite
    · exact hc
    exact yields_ite (clusterDelNode_tidies hc x) hc

theorem clusterLinkConnectHandler_tidies (h : DistinctReports cs) (x : NodeId) :
    Tidies (clusterLinkConnectHandler cfg env cs x) := by
  unfold clusterLinkConnectHandler
  cases cs.nodes x with
  | none => exact h
  | some n =>
    apply yields_ite
    · exact h
    have hlink : Tidies (updateNode cs x (fun n => { n with link := true })) := by
      apply updateNode_tidies h
      exact fun m => rfl
    apply hlink.bind
    intro c hc
    apply (clusterSendPing_tidies hc n.name _).bind
    intro d hd
    apply updateNode_tidies hd
    exact fun m => rfl

theorem handleLinkIOError_tidies (h : DistinctReports cs) (x : NodeId) :
    Tidies (handleLinkIOError cs x) := by
  unfold handleLinkIOError
  cases cs.nodes x with
  | none => exact h
  | some n =>
    apply updateNode_tidies h
    exact fun m => rfl

theorem pingNode_tidies (h : DistinctReports cs) (x : NodeId) : Tidies (pingNode cfg env cs x) := by
  unfold pingNode
  cases cs.nodes x with
  | none => exact h
  | some n => exact yields_ite (clusterSendPing_tidies h n.name .ping) h

theorem suspectNode_tidies (h : DistinctReports cs) (x : NodeId) : Tidies (suspectNode cs x) := by
  unfold suspectNode
  cases cs.nodes x with
  | none => exact h
  | some n =>
    apply yields_ite
    · exact h
    apply updateNode_tidies h
    exact fun m => rfl

theorem cronFailover_tidies (h : DistinctReports cs) : TidiesFirst (cronFailover cfg env cs) := by
  unfold cronFailover
  have htimeout : DistinctReports (manualFailoverCheckTimeout env cs) := by
    unfold manualFailoverCheckTimeout
    split_ifs <;> exact h
  generalize manualFailoverCheckTimeout env cs = c at htimeout
  have hmanual : DistinctReports (clusterHandleManualFailover env c) := by
    unfold clusterHandleManualFailover
    split_ifs <;> exact htimeout
  apply read_bind
  intro me _
  apply yields_ite
  swap
  · exact htimeout
  exact yields_ite hmanual (clusterHandleSlaveFailover_tidies hmanual)

theorem clusterHandleSlaveMigration_tidies (h : DistinctReports cs) (target : NodeId) :
    Tidies (clusterHandleSlaveMigration cfg cs target) := by
  unfold clusterHandleSlaveMigration
  apply read_bind
  intro me _
  split
  · apply read_bind
    intro mymaster _
    exact yields_ite (clusterSetMaster_tidies h target) h
  · exact h

theorem clusterUpdateMyselfFlags_tidies (h : DistinctReports cs) :
    Tidies (clusterUpdateMyselfFlags cfg cs) := by
  apply updateNode_tidies h
  exact fun m => rfl

theorem verifyClusterConfigWithData_tidies (h : DistinctReports cs) :
    Tidies (verifyClusterConfigWithData cfg env cs) := by
  unfold verifyClusterConfigWithData
  apply read_bind
  intro me _
  apply yields_ite
  · exact h
  apply Tidies.overSlots _ h
  intro c j hc
  unfold verifySlot
  apply yields_ite
  · exact hc
  cases c.slots j with
  | none => exact (clusterAddSlot_tidies hc _ j).bind (fun r hr => hr)
  | some x => exact hc

theorem stepEvent_tidies (h : DistinctReports cs) (ev : ClusterEvent) :
    Tidies (stepEvent cfg env cs ev) := by
  cases ev with
  | packet link hdr => exact yields_ite (clusterProcessPacket_tidies h link hdr) h
  | command cmd => exact (clusterCommand_tidies h cmd).bind (fun r hr => hr)
  | handshakeTimeouts => exact expireHandshakes_tidies h
  | linkConnected x => exact clusterLinkConnectHandler_tidies h x
  | linkLost x => exact handleLinkIOError_tidies h x
  | sendPing x => exact pingNode_tidies h x
  | suspect x => exact suspectNode_tidies h x
  | slaveFailover => exact (clusterHandleSlaveFailover_tidies h).bind (fun r hr => hr)
  | cron => exact (cronFailover_tidies h).bind (fun r hr => hr)
  | slaveMigration target => exact clusterHandleSlaveMigration_tidies h target
  | updateState => exact clusterUpdateState_tidies h
  | updateMyselfFlags => exact clusterUpdateMyselfFlags_tidies h
  | verifyConfig => exact verifyClusterConfigWithData_tidies h

theorem lookupOrCreate_distinct (env : Env) (h : DistinctReports cs) (name : NodeName) :
    DistinctReports (lookupOrCreate env cs name).1 := by
  unfold lookupOrCreate
  cases clusterLookupNode cs name with
  | some x => exact h
  | none => exact clusterAddNode_distinct h rfl

theorem loadSlot_tidies (h : DistinctReports cs) (line : NodeLine) (x : NodeId) (j : Slot) :
    Tidies (loadSlot env line x cs j) := by
  have hbind : ∀ c, DistinctReports c → Tidies (if line.slots j then do
      let r ← clusterAddSlot c x j
      .ok r.1
    else .ok c) := by
    intro c hc
    apply yields_ite
    · exact (clusterAddSlot_tidies hc x j).bind (fun r hr => hr)
    · exact hc
  unfold loadSlot
  cases line.migrating j with
  | none =>
    cases line.importing j with
    | none => exact hbind cs h
    | some name =>
      apply hbind
      exact lookupOrCreate_distinct env h name
  | some name =>
    dsimp only
    have h1 := lookupOrCreate_distinct env h name
    generalize lookupOrCreate env cs name = r at h1 ⊢
    have h2 : DistinctReports
      { r.1 with migratingSlotsTo := Function.update r.1.migratingSlotsTo j (some r.2) } := h1
    generalize { r.1 with
      migratingSlotsTo := Function.update r.1.migratingSlotsTo j (some r.2) } = c at h2 ⊢
    cases line.importing j with
    | none => exact hbind c h2
    | some name' =>
      apply hbind
      exact lookupOrCreate_distinct env h2 name'

theorem loadMaster_tidies (h : DistinctReports cs) (x : NodeId) (slaveof : Option NodeName) :
    Tidies (loadMaster env cs x slaveof) := by
  unfold loadMaster
  cases slaveof with
  | none => exact h
  | some name =>
    have h1 := lookupOrCreate_distinct env h name
    have hfollow : Tidies (updateNode (lookupOrCreate env cs name).1 x (fun n =>
        { n with slaveof := some (lookupOrCreate env cs name).2 })) := by
      apply updateNode_tidies h1
      exact fun m => rfl
    exact hfollow.bind (fun c hc => clusterNodeAddSlave_tidies hc _ x)

theorem loadLine_tidies {st : LoadState} (h : DistinctReports st.cs) (line : NodeLine) :
    Yields False (loadLine env st line) (fun st' => DistinctReports st'.cs) := by
  unfold loadLine
  dsimp only
  have h1 := lookupOrCreate_distinct env h line.name
  generalize lookupOrCreate env st.cs line.name = r at h1
  apply yields_ite
  · exact fun h => h
  have hread : Tidies (updateNode r.1 r.2 (fun n =>
      { n with
        addr := line.addr
        flags := n.flags.or { line.flags with meet := false, migrateTo := false }
        failTime := if line.flags.fail then env.now else n.failTime })) := by
    apply updateNode_tidies h1
    exact fun m => rfl
  apply hread.bind
  intro c hc
  apply (loadMaster_tidies hc r.2 line.slaveof).bind
  intro c hc
  have hepoch : Tidies (updateNode c r.2 (fun n => { n with configEpoch := line.configEpoch })) := by
    apply updateNode_tidies hc
    exact fun m => rfl
  apply hepoch.bind
  intro c hc
  have hslots : Tidies (forSlots (loadSlot env line r.2) c) :=
    Tidies.overSlots (fun d j hd => loadSlot_tidies hd line r.2 j) hc
  exact hslots.bind (fun d hd => hd)

theorem clusterInit_tidies (conf : Option NodesConf) : Tidies (clusterInit cfg env conf) := by
  have hempty : DistinctReports emptyCluster := by
    intro x n hx
    cases hx
  have hlines : ∀ (lines : List NodeLine) (st : LoadState), DistinctReports st.cs →
      Yields False (lines.foldlM (loadLine env) st) (fun st' => DistinctReports st'.cs) := by
    intro lines
    induction lines with
    | nil => exact fun st h => h
    | cons line lines ih =>
      intro st h
      rw [List.foldlM_cons]
      exact (loadLine_tidies h line).bind ih
  have hload : ∀ conf, Tidies (clusterLoadConfig env conf) := by
    intro conf
    unfold clusterLoadConfig
    apply (hlines conf.lines ⟨emptyCluster, none⟩ hempty).bind
    intro st hst
    cases st.myself with
    | none => exact Tidies.error _
    | some x => exact hst
  unfold clusterInit
  cases conf with
  | none =>
    have hfirst : DistinctReports (clusterAddNode emptyCluster
        (createClusterNode env.randomName { noFlags with myself := true, master := true } env.now)) :=
      clusterAddNode_distinct hempty rfl
    exact clusterUpdateMyselfFlags_tidies hfirst
  | some conf => exact (hload conf).bind (fun c hc => clusterUpdateMyselfFlags_tidies hc)

end RedisCore.Cluster
