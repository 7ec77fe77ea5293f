import RedisCore.FailureReports
import RedisCore.ClusterSafety

namespace RedisCore.Cluster

variable {cfg : ClusterConfig} {env : Env} {cs cs' : ClusterState} {x s : NodeId} {n : ClusterNode}

/-- A run of the cluster code with its steps as small as its decisions: whole events, the entries of
the gossip sections that packets come with, the node that a MEET message adds before its section is
read, and failure reports that are dropped when they are counted. -/
inductive Passes (cfg : ClusterConfig) : ClusterState → Prop
  | start {env : Env} {conf : Option NodesConf} {cs : ClusterState} :
      clusterInit cfg env conf = .ok cs → Passes cfg cs
  | event {env : Env} {cs cs' : ClusterState} {ev : ClusterEvent} :
      Passes cfg cs → stepEvent cfg env cs ev = .ok cs' → Passes cfg cs'
  | entry {env : Env} {cs cs' : ClusterState} {sender : Option NodeId} {g : GossipEntry} :
      Passes cfg cs → processGossipEntry cfg env sender cs g = .ok cs' → Passes cfg cs'
  | met {cs : ClusterState} (env : Env) (addr : NodeAddr) :
      Passes cfg cs → Passes cfg (clusterAddNode cs
        { createClusterNode env.randomName { noFlags with handshake := true } env.now with
          addr := addr })
  | counted {env : Env} {cs cs' : ClusterState} {x : NodeId} : Passes cfg cs →
      updateNode cs x (ClusterNode.cleanupFailureReports cfg env.now) = .ok cs' → Passes cfg cs'

theorem Passes.distinct (h : Passes cfg cs) : DistinctReports cs := by
  induction h with
  | start hinit => exact (clusterInit_tidies _).of_ok hinit
  | event _ hstep ih => exact (stepEvent_tidies ih _).of_ok hstep
  | entry _ hentry ih => exact (processGossipEntry_tidies ih _ _).of_ok hentry
  | met _ _ _ ih => exact clusterAddNode_distinct ih rfl
  | counted _ hcount ih =>
    exact (updateNode_distinct ih (fun m hm => cleanupFailureReports_distinct hm _)).of_ok hcount

theorem passes_runEvents : ∀ (es : List (Env × ClusterEvent)) {cs cs' : ClusterState},
    Passes cfg cs → runEvents cfg cs es = .ok cs' → Passes cfg cs' := by
  intro es
  induction es with
  | nil =>
    intro cs cs' h hrun
    cases hrun
    exact h
  | cons e es ih =>
    intro cs cs' h hrun
    unfold runEvents at hrun
    cases hstep : stepEvent cfg e.1 cs e.2 with
    | error f =>
      rw [hstep] at hrun
      cases hrun
    | ok c =>
      rw [hstep, ok_bind] at hrun
      exact ih (h.event hstep) hrun

theorem passes_runNode (env : Env) (conf : Option NodesConf) (es : List (Env × ClusterEvent))
    (hrun : runNode cfg env conf es = .ok cs) : Passes cfg cs := by
  unfold runNode at hrun
  cases hinit : clusterInit cfg env conf with
  | error f =>
    rw [hinit] at hrun
    cases hrun
  | ok c =>
    rw [hinit, ok_bind] at hrun
    exact passes_runEvents es (Passes.start hinit) hrun

def suspects (cfg : ClusterConfig) (env : Env) (cs : ClusterState) (x y : NodeId) : Bool :=
  decide (y = cs.myself) || (cs.nodes x).any (fun n => n.failReports.any (fun r =>
    decide (r.node = y) && decide (env.now-r.time ≤ cfg.nodeTimeout*2)))

def suspectingMasters (cfg : ClusterConfig) (env : Env) (cs : ClusterState) (x : NodeId) :
    List NodeId :=
  (nodeIds cs).filter (fun y => servesSlots cs y && suspects cfg env cs x y)

def HasVote (cs : ClusterState) (y : NodeId) : Prop := y ∈ nodeIds cs ∧ servesSlots cs y = true

/-- Everybody whose report about `x` counts when `sender` reports it, and the node itself if it is
a master, serves slots; nobody counts twice; and the size is not lower than it should be. -/
structure VotersServe (cfg : ClusterConfig) (env : Env) (cs : ClusterState)
    (sender : Option NodeId) (x : NodeId) : Prop where
  sender : ∀ s n, sender = some s → cs.nodes s = some n → n.flags.master = true →
    HasVote cs s ∧ s ≠ cs.myself
  reports : ∀ n, cs.nodes x = some n → ∀ r ∈ n.failReports,
    env.now-r.time ≤ cfg.nodeTimeout*2 → HasVote cs r.node ∧ r.node ≠ cs.myself
  own : ∀ me, cs.nodes cs.myself = some me → me.flags.master = true → HasVote cs cs.myself
  size : clusterSize cs/2 ≤ cs.size/2

theorem nodeIds_setNode {m : ClusterNode} (hx : cs.nodes x = some n) (hname : m.name = n.name) :
    nodeIds (setNode cs x m) = nodeIds cs := by
  unfold nodeIds
  apply List.filter_congr
  intro y _
  rw [setNode_nodes]
  by_cases hy : y = x
  · rw [if_pos hy, hy, hx]
    simp only [Option.any_some, hname]
    rfl
  · rw [if_neg hy]
    rfl

theorem servesSlots_setNode {m : ClusterNode} (hx : cs.nodes x = some n)
    (hmaster : m.flags.master = n.flags.master) (hslots : m.numslots = n.numslots) (y : NodeId) :
    servesSlots (setNode cs x m) y = servesSlots cs y := by
  unfold servesSlots
  rw [setNode_nodes]
  by_cases hy : y = x
  · rw [if_pos hy, hy, hx]
    simp only [Option.any_some, hmaster, hslots]
  · rw [if_neg hy]

theorem mem_addFailureReport {r : FailReport} {now : ℤ}
    (hr : r ∈ (n.addFailureReport s now).failReports) : r ∈ n.failReports ∨ r.node = s := by
  unfold ClusterNode.addFailureReport at hr
  split_ifs at hr
  · obtain ⟨p, hp, rfl⟩ := List.mem_map.mp hr
    by_cases hs : p.node = s
    · rw [if_pos hs]
      exact Or.inr rfl
    · rw [if_neg hs]
      exact Or.inl hp
  · rcases List.mem_append.mp hr with hr | hr
    · exact Or.inl hr
    · rw [List.mem_singleton] at hr
      rw [hr]
      exact Or.inr rfl

theorem updateNode_set (hx : cs.nodes x = some n) (f : ClusterNode → ClusterNode) :
    updateNode cs x f = .ok (setNode cs x (f n)) := by
  rw [updateNode, deref_ok hx, ok_bind]

theorem setNode_self (cs : ClusterState) (x : NodeId) (n : ClusterNode) :
    (setNode cs x n).nodes x = some n := by
  rw [setNode_nodes, if_pos rfl]

theorem setNode_myself (hx : x ≠ cs.myself) (n : ClusterNode) :
    (setNode cs x n).nodes (setNode cs x n).myself = cs.nodes cs.myself := by
  rw [setNode_nodes]
  exact if_neg (Ne.symm hx)

theorem setNode_setNode (cs : ClusterState) (x : NodeId) (n m : ClusterNode) :
    setNode (setNode cs x n) x m = setNode cs x m := by
  unfold setNode
  congr 1
  funext y
  dsimp only
  by_cases hy : y = x
  · rw [if_pos hy, if_pos hy]
  · rw [if_neg hy, if_neg hy, if_neg hy]

theorem clusterSendFail_out {name : NodeName} (h : clusterSendFail cfg env cs name = .ok cs') :
    ∃ out, cs' = { cs with out := out } := by
  unfold clusterSendFail at h
  cases hb : clusterBuildMessageHdr cfg env cs (.fail name) with
  | error e =>
    rw [hb] at h
    cases h
  | ok hdr =>
    rw [hb] at h
    cases h
    exact ⟨_, rfl⟩

theorem markNodeAsFailingIfNeeded_fail {n' : ClusterNode}
    (hmark : markNodeAsFailingIfNeeded cfg env cs x = .ok cs') (hx : cs.nodes x = some n)
    (hn : n.flags.fail = false) (hx' : cs'.nodes x = some n') (hn' : n'.flags.fail = true)
    (hxme : x ≠ cs.myself) :
    ∃ me m out, cs.nodes cs.myself = some me ∧ n.flags.pfail = true ∧
      m = { n.cleanupFailureReports cfg env.now with
        flags := { n.flags with pfail := false, fail := true }, failTime := env.now } ∧
      cs.size/2+1 ≤ m.failReports.length+(if me.flags.master then 1 else 0) ∧
      cs' = { setNode cs x m with out := out } := by
  unfold markNodeAsFailingIfNeeded at hmark
  rw [deref_ok hx, ok_bind] at hmark
  by_cases hskip : n.flags.pfail = false ∨ n.flags.fail = true
  · rw [if_pos hskip] at hmark
    cases hmark
    rw [hx] at hx'
    cases hx'
    rw [hn] at hn'
    cases hn'
  rw [if_neg hskip, updateNode_set hx, ok_bind] at hmark
  have hown : deref (setNode cs x (n.cleanupFailureReports cfg env.now))
      (setNode cs x (n.cleanupFailureReports cfg env.now)).myself = deref cs cs.myself := by
    unfold deref
    rw [setNode_myself hxme]
  rw [deref_ok (setNode_self cs x _), ok_bind, hown] at hmark
  cases hme : cs.nodes cs.myself with
  | none =>
    rw [deref, hme] at hmark
    cases hmark
  | some me =>
  rw [deref_ok hme, ok_bind] at hmark
  by_cases hquorum : (n.cleanupFailureReports cfg env.now).failReports.length+
      (if me.flags.master then 1 else 0) <
      (setNode cs x (n.cleanupFailureReports cfg env.now)).size/2+1
  · rw [if_pos hquorum] at hmark
    cases hmark
    rw [setNode_self] at hx'
    cases hx'
    rw [show (n.cleanupFailureReports cfg env.now).flags.fail = n.flags.fail from rfl, hn] at hn'
    cases hn'
  · rw [if_neg hquorum, updateNode_set (setNode_self cs x _), ok_bind, setNode_setNode] at hmark
    obtain ⟨out, hout⟩ := clusterSendFail_out hmark
    have hpfail : n.flags.pfail = true := by
      cases hp : n.flags.pfail with
      | true => rfl
      | false => exact absurd (Or.inl hp) hskip
    exact ⟨me, _, out, rfl, hpfail, rfl, Nat.le_of_not_lt hquorum, hout⟩

theorem noteHealth_fail {n' : ClusterNode} {sender : Option NodeId} {flags : NodeFlags}
    (hnote : noteHealth cfg env sender cs x flags = .ok cs') (hx : cs.nodes x = some n)
    (hn : n.flags.fail = false) (hx' : cs'.nodes x = some n') (hn' : n'.flags.fail = true) :
    ∃ s p me m out, sender = some s ∧ cs.nodes s = some p ∧ p.flags.master = true ∧
      cs.nodes cs.myself = some me ∧ n.flags.pfail = true ∧
      m = { (n.addFailureReport s env.now).cleanupFailureReports cfg env.now with
        flags := { n.flags with pfail := false, fail := true }, failTime := env.now } ∧
      cs.size/2+1 ≤ m.failReports.length+(if me.flags.master then 1 else 0) ∧
      cs' = { setNode cs x m with out := out } := by
  have hadd : ∀ s, (n.addFailureReport s env.now).flags = n.flags := by
    intro s
    unfold ClusterNode.addFailureReport
    split_ifs <;> rfl
  have hdel : ∀ s, (n.delFailureReport cfg env.now s).flags = n.flags := by
    intro s
    unfold ClusterNode.delFailureReport
    split_ifs <;> rfl
  unfold noteHealth at hnote
  cases sender with
  | none =>
    cases hnote
    rw [hx] at hx'
    cases hx'
    rw [hn] at hn'
    cases hn'
  | some s =>
    dsimp only at hnote
    cases hs : cs.nodes s with
    | none =>
      rw [deref, hs] at hnote
      cases hnote
    | some p =>
      rw [deref_ok hs, ok_bind] at hnote
      by_cases hmaster : p.flags.master = false ∨ x = cs.myself
      · rw [if_pos hmaster] at hnote
        cases hnote
        rw [hx] at hx'
        cases hx'
        rw [hn] at hn'
        cases hn'
      rw [if_neg hmaster] at hnote
      rw [not_or, Bool.not_eq_false] at hmaster
      by_cases hbad : (flags.fail || flags.pfail) = true
      · rw [if_pos hbad, updateNode_set hx, ok_bind] at hnote
        obtain ⟨me, m, out, hme, hpfail, hm, hquorum, hcs⟩ := markNodeAsFailingIfNeeded_fail hnote
          (setNode_self cs x _) (by rw [hadd s]; exact hn) hx' hn' hmaster.2
        rw [setNode_myself hmaster.2] at hme
        rw [hadd s] at hpfail hm
        rw [setNode_setNode] at hcs
        exact ⟨s, p, me, m, out, rfl, hs, hmaster.1, hme, hpfail, hm, hquorum, hcs⟩
      · rw [if_neg hbad, updateNode_set hx] at hnote
        cases hnote
        rw [setNode_self] at hx'
        cases hx'
        rw [hdel s, hn] at hn'
        cases hn'

/-- The votes that are counted are those of distinct masters that serve slots. -/
theorem fail_needs_majority (hp : Passes cfg cs) {n' : ClusterNode} {sender : Option NodeId}
    {flags : NodeFlags} (hnote : noteHealth cfg env sender cs x flags = .ok cs')
    (hx : cs.nodes x = some n) (hn : n.flags.fail = false) (hx' : cs'.nodes x = some n')
    (hn' : n'.flags.fail = true)
    (hvote : VotersServe cfg env cs sender x) :
    n.flags.pfail = true ∧
      clusterSize cs'/2+1 ≤ (suspectingMasters cfg env cs' x).length := by
  obtain ⟨s, p, me, m, out, rfl, hs, hmaster, hme, hpfail, hm, hquorum, rfl⟩ :=
    noteHealth_fail hnote hx hn hx' hn'
  refine ⟨hpfail, ?_⟩
  -- the table and who serves slots are what they were
  have hname : m.name = n.name := by
    rw [hm]
    unfold ClusterNode.addFailureReport
    split_ifs <;> rfl
  have hslots : m.numslots = n.numslots := by
    rw [hm]
    unfold ClusterNode.addFailureReport
    split_ifs <;> rfl
  have hrole : m.flags.master = n.flags.master := by rw [hm]
  have hids : nodeIds { setNode cs x m with out := out } = nodeIds cs := nodeIds_setNode hx hname
  have hserves : ∀ y, servesSlots { setNode cs x m with out := out } y = servesSlots cs y :=
    servesSlots_setNode hx hrole hslots
  have hsize : clusterSize { setNode cs x m with out := out } = clusterSize cs := by
    unfold clusterSize
    rw [hids]
    congr 1
    exact List.filter_congr (fun y _ => hserves y)
  have hreports : m.failReports =
      ((n.addFailureReport s env.now).cleanupFailureReports cfg env.now).failReports := by rw [hm]
  -- a counted report is that of another master that serves slots
  have hcounted : ∀ r ∈ m.failReports, HasVote cs r.node ∧ r.node ≠ cs.myself ∧
      env.now-r.time ≤ cfg.nodeTimeout*2 := by
    intro r hr
    rw [hreports] at hr
    obtain ⟨hr, htime⟩ := List.mem_filter.mp hr
    have htime : env.now-r.time ≤ cfg.nodeTimeout*2 := of_decide_eq_true htime
    rcases mem_addFailureReport hr with hold | hnew
    · obtain ⟨h1, h2⟩ := hvote.reports n hx r hold htime
      exact ⟨h1, h2, htime⟩
    · obtain ⟨h1, h2⟩ := hvote.sender s p rfl hs hmaster
      rw [hnew]
      exact ⟨h1, h2, htime⟩
  have hdistinct : (m.failReports.map FailReport.node).Nodup := by
    rw [hreports]
    exact cleanupFailureReports_distinct
      (addFailureReport_distinct (hp.distinct x n hx) s env.now) env.now
  have hmem : ∀ y, HasVote cs y → suspects cfg env { setNode cs x m with out := out } x y = true →
      y ∈ suspectingMasters cfg env { setNode cs x m with out := out } x := by
    intro y hy hsus
    unfold suspectingMasters
    rw [List.mem_filter, hids, hserves, hsus, hy.2]
    exact ⟨hy.1, rfl⟩
  have hsuspect : ∀ r ∈ m.failReports,
      r.node ∈ suspectingMasters cfg env { setNode cs x m with out := out } x := by
    intro r hr
    obtain ⟨h1, -, h3⟩ := hcounted r hr
    apply hmem r.node h1
    unfold suspects
    have hnode : ({ setNode cs x m with out := out } : ClusterState).nodes x = some m :=
      setNode_self cs x m
    rw [hnode, Option.any_some, Bool.or_eq_true]
    right
    rw [List.any_eq_true]
    exact ⟨r, hr, by simp [h3]⟩
  rw [hsize]
  have hhalf := hvote.size
  by_cases hown : me.flags.master = true
  · rw [if_pos hown] at hquorum
    have hself : cs.myself ∈ suspectingMasters cfg env { setNode cs x m with out := out } x := by
      apply hmem cs.myself (hvote.own me hme hown)
      unfold suspects
      rw [Bool.or_eq_true]
      exact Or.inl (decide_eq_true rfl)
    have hnodup : (cs.myself :: m.failReports.map FailReport.node).Nodup := by
      rw [List.nodup_cons]
      refine ⟨?_, hdistinct⟩
      intro hin
      obtain ⟨r, hr, hnode⟩ := List.mem_map.mp hin
      exact (hcounted r hr).2.1 hnode
    have hsub : (cs.myself :: m.failReports.map FailReport.node) ⊆
        suspectingMasters cfg env { setNode cs x m with out := out } x := by
      intro y hy
      rcases List.mem_cons.mp hy with rfl | hy
      · exact hself
      · obtain ⟨r, hr, rfl⟩ := List.mem_map.mp hy
        exact hsuspect r hr
    have hle := (hnodup.subperm hsub).length_le
    rw [List.length_cons, List.length_map] at hle
    omega
  · rw [if_neg hown] at hquorum
    have hsub : m.failReports.map FailReport.node ⊆
        suspectingMasters cfg env { setNode cs x m with out := out } x := by
      intro y hy
      obtain ⟨r, hr, rfl⟩ := List.mem_map.mp hy
      exact hsuspect r hr
    have hle := (hdistinct.subperm hsub).length_le
    rw [List.length_map] at hle
    omega

/-- A new node meets the nodes 7 and 6, becomes a replica of node 6 that serves a slot, and gets no
answer of node 7. -/
def beforeVote : List (Env × ClusterEvent) :=
  [(quietEnv 1 100, .command (.meet (some [49]) 6380 16380)),
   (quietEnv 2 101, .linkConnected 1),
   (quietEnv 3 101, .packet (some 1) (pongFrom 7)),
   (quietEnv 4 101, .command (.meet (some [49]) 6381 16381)),
   (quietEnv 5 101, .linkConnected 2),
   (quietEnv 6 101, .packet (some 2) (pongFrom 6)),
   (quietEnv 7 101, .command (.setslotNode 0 6)),
   (quietEnv 7 101, .command (.replicate 6)),
   (quietEnv 8 101, .suspect 1)]

theorem fail_needs_majority_replica : ∃ cs cs',
    runNode defaultConfig (quietEnv 0 5) none beforeVote = .ok cs ∧
    noteHealth defaultConfig (quietEnv 9 101) (some 2) cs 1 { noFlags with pfail := true } = .ok cs' ∧
    clusterSize cs'/2+1 ≤ (suspectingMasters defaultConfig (quietEnv 9 101) cs' 1).length := by
  refine ⟨_, _, rfl, rfl, ?_⟩
  apply (@fail_needs_majority defaultConfig (quietEnv 9 101) _ _ 1 _
    (passes_runNode (quietEnv 0 5) none beforeVote rfl) _ (some 2) { noFlags with pfail := true }
    rfl rfl rfl rfl rfl ⟨?_, ?_, ?_, ?_⟩).2
  · intro s n hs _ _
    cases hs
    exact ⟨⟨by decide, rfl⟩, by decide⟩
  · intro n hn r hr
    cases hn
    cases hr
  · intro me hme hmaster
    cases hme
    cases hmaster
  · decide

theorem clusterProcessPacket_ping {hdr : ClusterMsg} {gossip : List GossipEntry}
    {c1 c2 c3 c4 c5 : ClusterState} {p : ClusterNode} (hbody : hdr.body = .ping gossip)
    (hs : cs.table hdr.sender = some s) (hn : cs.nodes s = some n)
    (h1 : noteSender cs (some s) hdr = .ok c1) (h2 : answerPing cfg env c1 none hdr = .ok c2)
    (h3 : noteAnnounced env c2 none s hdr = .ok c3) (h4 : switchRole c3 s hdr = .ok c4)
    (hp : c4.nodes s = some p) (hmaster : p.flags.master = true) (hslots : p.slots = hdr.myslots)
    (h5 : resolveCollision c4 s (senderConfigEpoch n hdr) = .ok c5) :
    clusterProcessPacket cfg env cs none hdr =
      clusterProcessGossipSection cfg env c5 none hdr gossip := by
  have hclean : updateSlots cfg env c4 s (senderConfigEpoch n hdr) hdr = .ok c4 := by
    have hdirty : dirtySlots c4 s hdr = .ok false := by
      unfold dirtySlots
      rw [deref_ok hp, ok_bind, if_pos hmaster]
      dsimp only
      rw [deref_ok hp, ok_bind, hslots]
      simp
    unfold updateSlots
    rw [hdirty]
    rfl
  have hsender : findSender cs hdr = .ok (some s, senderCurrentEpoch n hdr,
      senderConfigEpoch n hdr) := by
    have hs' : clusterLookupNode cs hdr.sender = some s := hs
    unfold findSender
    rw [hs']
    dsimp only
    rw [deref_ok hn, ok_bind]
  unfold clusterProcessPacket
  rw [hsender, ok_bind, h1, ok_bind]
  have hmeet : meetSender cfg env c1 none (some s) hdr = .ok c1 := by
    unfold meetSender
    rw [hbody]
  rw [hmeet, ok_bind, h2, ok_bind]
  unfold processBody
  rw [hbody]
  dsimp only
  unfold processConfig
  have hlink : handshakeLink cfg env c2 none (some s) hdr = .ok (c2, true) := rfl
  have hpong : notePong cfg env c3 none hdr = .ok c3 := rfl
  rw [hlink, ok_bind]
  dsimp only
  rw [h3, ok_bind, hpong, ok_bind, h4, ok_bind, hclean, ok_bind, h5, ok_bind]
  rfl

/-- The report of a master without slots that a node does not answer. -/
def pingAbout (sender name : NodeName) : ClusterMsg :=
  { pongFrom sender with
    body := .ping [⟨name, ⟨[], 0, 0⟩, { noFlags with master := true, pfail := true }⟩] }

/-- A new node meets the nodes 7 and 6, gives the first slot to node 7 and gets no answer of it. -/
def beforeReport : List (Env × ClusterEvent) :=
  [(quietEnv 1 100, .command (.meet (some [49]) 6380 16380)),
   (quietEnv 2 101, .linkConnected 1),
   (quietEnv 3 101, .packet (some 1) (pongFrom 7)),
   (quietEnv 4 101, .command (.meet (some [49]) 6381 16381)),
   (quietEnv 5 101, .linkConnected 2),
   (quietEnv 6 101, .packet (some 2) (pongFrom 6)),
   (quietEnv 7 101, .command (.setslotNode 0 7)),
   (quietEnv 8 101, .suspect 1)]

/-- Two masters without slots take the only master that serves one for failed. -/
theorem slotless_masters_fail : ∃ cs cs', runNode defaultConfig (quietEnv 0 5) none beforeReport = .ok cs ∧
    stepEvent defaultConfig (quietEnv 9 101) cs (.packet none (pingAbout 6 7)) = .ok cs' ∧
    (cs.nodes 1).map (fun n => n.flags.fail) = some false ∧
    (cs'.nodes 1).map (fun n => n.flags.fail) = some true ∧
    ¬ clusterSize cs'/2+1 ≤ (suspectingMasters defaultConfig (quietEnv 9 101) cs' 1).length := by
  refine ⟨_, _, rfl, (clusterProcessPacket_ping rfl rfl rfl rfl rfl rfl rfl rfl rfl rfl rfl).trans rfl,
    rfl, ?_, ?_⟩
  · rfl
  · decide

end RedisCore.Cluster
