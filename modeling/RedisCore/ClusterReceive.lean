import RedisCore.ClusterMessages

namespace RedisCore.Cluster

variable {k : Slack} {cs cs' cs'' : ClusterState} {x y : NodeId} {n m : ClusterNode} {j : Slot}
variable {cfg : ClusterConfig} {env : Env} {link sender : Option NodeId} {hdr : ClusterMsg}

def MsgBody.gossip : MsgBody → List GossipEntry
  | .ping gossip => gossip
  | .pong gossip => gossip
  | .meet gossip => gossip
  | _ => []

structure Sound (k : Slack) (cs : ClusterState) (hdr : ClusterMsg) : Prop where
  flags : hdr.flags.slave = !hdr.flags.master ∨ k.role
  gossip : SaneGossip k hdr.body.gossip
  sender : (∀ x n, clusterLookupNode cs hdr.sender = some x → cs.nodes x = some n →
    n.flags.handshake = false) ∨ (k.role ∧ k.epoch)
  own : (clusterLookupNode cs hdr.sender = some cs.myself → hdr.slaveof = nullName) ∨ k.role
  update : (∀ name e slots x n, hdr.body = .update name e slots → clusterLookupNode cs name = some x →
    cs.nodes x = some n → n.flags.handshake = false) ∨ k.role
  epoch : (∀ name e slots, hdr.body = .update name e slots → e ≤ hdr.currentEpoch) ∨ k.epoch
  config : hdr.configEpoch ≤ hdr.currentEpoch ∨ k.epoch
  named : k.proc hdr.sender ∨ k.epoch
  election : k.election ∨ (hdr.body ≠ .authRequest ∧ hdr.body ≠ .authAck)

theorem Touched.refl (cs : ClusterState) : Touched cs cs :=
  ⟨⟨rfl, rfl, rfl, rfl⟩, fun _ n h => ⟨n, h, SameNode.refl n⟩, fun _ n h => ⟨n, h, SameNode.refl n⟩, rfl, rfl,
    rfl, rfl, rfl, rfl, rfl, rfl⟩

theorem nodeUpdateAddressIfNeeded_leads (hx : cs.nodes x = some n) :
    Leads k (nodeUpdateAddressIfNeeded env cs x link hdr) (Touched cs) := by
  unfold nodeUpdateAddressIfNeeded
  rw [deref_ok hx, ok_bind]
  dsimp only
  generalize (if hdr.addr.ip = [] then env.peerIp else hdr.addr.ip) = ip
  split_ifs
  · exact Leads.ok (Touched.refl cs)
  · exact Leads.ok (Touched.refl cs)
  · rw [updateNode_ok hx]
    apply Leads.ok
    apply touched_mapNode
    exact fun p _ => ⟨rfl, rfl, rfl, rfl, rfl, rfl, rfl, rfl, rfl, rfl, fun _ _ => rfl⟩

theorem nodeUpdateAddressIfNeeded_runs (hx : cs.nodes x = some n) :
    Runs k cs (nodeUpdateAddressIfNeeded env cs x link hdr) :=
  (nodeUpdateAddressIfNeeded_leads hx).mono (fun _ h => Edits.single (Edit.touch h))

theorem mapNode_comp (cs : ClusterState) (x : NodeId) (f g : ClusterNode → ClusterNode) :
    mapNode (mapNode cs x f) x g = mapNode cs x (fun n => g (f n)) := by
  unfold mapNode
  congr 1
  ext1 y
  dsimp only
  by_cases hy : y = x
  · rw [if_pos hy, if_pos hy, if_pos hy, Option.map_map]
    rfl
  · rw [if_neg hy, if_neg hy, if_neg hy]

structure Noted (sender : Option NodeId) (hdr : ClusterMsg) (cs cs' : ClusterState) : Prop where
  table : cs'.table = cs.table
  myself : cs'.myself = cs.myself
  nodes : Pointwise (fun n n' => n'.flags = n.flags ∧ n'.slaveof = n.slaveof ∧ n'.link = n.link) cs cs'
  current : ∀ s n, sender = some s → cs.nodes s = some n → n.flags.handshake = false →
    hdr.currentEpoch ≤ cs'.currentEpoch

theorem noteSender_leads (hg : Good k cs) (hs : ∀ s, sender = some s → ∃ n, cs.nodes s = some n)
    (hc : hdr.configEpoch ≤ hdr.currentEpoch ∨ k.epoch) :
    Leads k (noteSender cs sender hdr) (fun c => Edits k cs c ∧ Noted sender hdr cs c) := by
  unfold noteSender
  cases sender with
  | none =>
    refine Leads.ok ⟨Edits.refl cs, rfl, rfl, pointwise_of_nodes (fun n => ⟨rfl, rfl, rfl⟩) rfl, ?_⟩
    intro s n h
    cases h
  | some s =>
    obtain ⟨n, hn⟩ := hs s rfl
    dsimp only
    rw [deref_ok hn, ok_bind]
    by_cases hh : n.flags.handshake = true
    · rw [if_pos hh]
      refine Leads.ok ⟨Edits.refl cs, rfl, rfl, pointwise_of_nodes (fun n => ⟨rfl, rfl, rfl⟩) rfl, ?_⟩
      intro s' n' h hn' hfalse
      cases h
      rw [hn, Option.some.injEq] at hn'
      rw [← hn', hh] at hfalse
      cases hfalse
    · rw [if_neg hh]
      -- first the current epoch, then the config epoch, then the offset
      have he1 : Edits k cs { cs with currentEpoch := max cs.currentEpoch hdr.currentEpoch } :=
        Edits.single (Edit.epochUp _ (le_max_left _ _))
      have hg1 := hg.edits he1
      have hn1 : ({ cs with currentEpoch := max cs.currentEpoch hdr.currentEpoch }
        : ClusterState).nodes s = some n := hn
      generalize hc1 : ({ cs with currentEpoch := max cs.currentEpoch hdr.currentEpoch }
        : ClusterState) = c1 at he1 hg1 hn1
      have hcur : c1.currentEpoch = max cs.currentEpoch hdr.currentEpoch := by
        rw [← hc1]
      have he2 : Edits k c1 (mapNode c1 s (fun p =>
          { p with configEpoch := max n.configEpoch hdr.configEpoch })) := by
        apply Edits.single
        apply Edit.nodeEpoch
        · left
          intro p hp
          rw [hn1, Option.some.injEq] at hp
          rw [← hp]
          exact le_max_left _ _
        · by_cases hk : k.epoch
          · exact Or.inr hk
          · have h1 := (hg1.epochs.resolve_right hk).known s n hn1
            have h2 := hc.resolve_right hk
            rw [hcur] at h1 ⊢
            exact Or.inl (max_le h1 (h2.trans (le_max_right _ _)))
      have he3 : Edits k (mapNode c1 s (fun p =>
          { p with configEpoch := max n.configEpoch hdr.configEpoch }))
          (mapNode c1 s (fun n =>
            { n with configEpoch := max n.configEpoch hdr.configEpoch, replOffset := hdr.offset })) := by
        have heq : mapNode c1 s (fun n =>
            { n with configEpoch := max n.configEpoch hdr.configEpoch, replOffset := hdr.offset }) =
            mapNode (mapNode c1 s (fun p =>
              { p with configEpoch := max n.configEpoch hdr.configEpoch })) s (fun n =>
              { n with replOffset := hdr.offset }) := by
          rw [mapNode_comp]
          exact mapNode_congr hn1 rfl
        rw [heq]
        apply Edits.single
        apply Edit.touch
        apply touched_mapNode
        exact fun p _ => ⟨rfl, rfl, rfl, rfl, rfl, rfl, rfl, rfl, rfl, rfl, fun _ h => h⟩
      rw [updateNode_ok hn1, ok_bind]
      have he := (he1.trans he2).trans he3
      generalize hc2 : mapNode c1 s (fun n =>
        { n with configEpoch := max n.configEpoch hdr.configEpoch, replOffset := hdr.offset }) = c2
        at he
      have hnoted : Noted (some s) hdr cs c2 := by
        rw [← hc2, ← hc1]
        refine ⟨rfl, rfl, ?_, ?_⟩
        · have hp : Pointwise (fun n n' => n'.flags = n.flags ∧ n'.slaveof = n.slaveof ∧ n'.link = n.link)
              cs (mapNode cs s (fun n =>
                { n with configEpoch := max n.configEpoch hdr.configEpoch, replOffset := hdr.offset })) :=
            pointwise_mapNode (fun n => ⟨rfl, rfl, rfl⟩) (fun n _ => ⟨rfl, rfl, rfl⟩)
          exact ⟨hp.old, hp.live⟩
        · intro s' n' _ _ _
          exact le_max_right _ _
      obtain ⟨me, hme, hd⟩ := (hg.edits he).deref_me
      rw [hd, ok_bind]
      split_ifs
      · refine Leads.ok ⟨he.tail (Edit.aside ⟨rfl, rfl, rfl, rfl, rfl, rfl, rfl, rfl⟩
          ⟨rfl, rfl, rfl, rfl⟩ rfl), hnoted.table, hnoted.myself, ?_, hnoted.current⟩
        exact ⟨hnoted.nodes.old, hnoted.nodes.live⟩
      · exact Leads.ok ⟨he, hnoted⟩

theorem meetSender_runs (hg : Good k cs) (hl : ∀ l, link = some l → ∃ n, cs.nodes l = some n)
    (hgossip : SaneGossip k hdr.body.gossip) (hrandom : k.proc env.randomName → k.epoch) :
    Runs k cs (meetSender cfg env cs link sender hdr) := by
  unfold meetSender
  split
  · rename_i gossip hbody
    dsimp only
    generalize (if hdr.addr.ip = [] then env.peerIp else hdr.addr.ip) = ip
    have hadd : Edits k.keep cs (clusterAddNode cs
        { createClusterNode env.randomName { noFlags with handshake := true } env.now with
          addr := ⟨ip, hdr.addr.port, hdr.addr.cport⟩ }) := by
      apply clusterAddNode_edits (newborn_create _ _ _ _) (Or.inl (Or.inl ⟨rfl, rfl, rfl⟩))
      · exact fun _ hp => hrandom hp
      · intro hm
        cases hm
    generalize clusterAddNode cs
      { createClusterNode env.randomName { noFlags with handshake := true } env.now with
        addr := ⟨ip, hdr.addr.port, hdr.addr.cport⟩ } = c at hadd
    apply Leads.mono _ (fun _ h => (hadd.mono k.keep_le).trans h)
    apply clusterProcessGossipSection_runs (hg.keeps hadd) hdr
    · intro l h
      obtain ⟨n, hn⟩ := hl l h
      obtain ⟨n', hn', -⟩ := hg.kept hadd hn
      exact ⟨n', hn'⟩
    · rw [hbody] at hgossip
      exact hgossip
  · exact Runs.refl

theorem answerPing_runs (hg : Good k cs) : Runs k cs (answerPing cfg env cs link hdr) := by
  unfold answerPing
  split
  · exact clusterSendPing_runs hg _ (fun _ h => h)
  · exact clusterSendPing_runs hg _ (fun _ h => h)
  · exact Runs.refl

theorem clusterRenameNode_eq (hx : cs.nodes x = some n) (hname : cs.table n.name = some x)
    (newname : NodeName) : clusterRenameNode cs x newname =
      .ok { mapNode cs x (fun n => { n with name := newname }) with
        table := relist cs.table x n.name newname } := by
  unfold clusterRenameNode
  rw [deref_ok hx, ok_bind, clusterLookupNode, hname, if_pos (by rfl)]
  have hx' : ({ cs with table := Function.update cs.table n.name none } : ClusterState).nodes x =
      some n := hx
  dsimp only
  rw [updateNode_ok hx', ok_bind]
  generalize hc : mapNode { cs with table := Function.update cs.table n.name none } x
    (fun n => { n with name := newname }) = c
  have ht : c.table = Function.update cs.table n.name none := by
    rw [← hc]
    rfl
  have hrelist : relist cs.table x n.name newname =
      if (clusterLookupNode c newname).isSome then c.table
      else Function.update c.table newname (some x) := by
    rw [clusterLookupNode, ht]
    rfl
  rw [hrelist]
  by_cases h : (clusterLookupNode c newname).isSome = true
  · rw [if_pos h, if_pos h, ← hc]
    rfl
  · rw [if_neg h, if_neg h, ← hc]
    rfl

theorem handshakeLink_leads (hg : Good k cs) (hrm : k.removal)
    (hl : ∀ l, link = some l → l ≠ cs.myself ∧ ∃ n, cs.nodes l = some n)
    (hs : ∀ s, sender = some s → ∃ n, cs.nodes s = some n)
    (hf : hdr.flags.slave = !hdr.flags.master ∨ k.role) (hnamed : k.proc hdr.sender ∨ k.epoch) :
    Leads k (handshakeLink cfg env cs link sender hdr) (fun r => Edits k cs r.1 ∧
      (r.2 = true → Edits k.keep cs r.1)) := by
  unfold handshakeLink
  cases link with
  | none => exact Leads.ok ⟨Edits.refl cs, fun _ => Edits.refl cs⟩
  | some l =>
    obtain ⟨hne, n, hn⟩ := hl l rfl
    dsimp only
    rw [deref_ok hn, ok_bind]
    by_cases hh : n.flags.handshake = true
    · rw [if_pos hh]
      cases sender with
      | some s =>
        obtain ⟨p, hp⟩ := hs s rfl
        dsimp only
        apply Leads.bind (nodeUpdateAddressIfNeeded_leads hp)
        intro c ht
        have he : Edits k cs c := Edits.single (Edit.touch ht)
        have hgc := hg.edits he
        obtain ⟨q, hq, hsame⟩ := ht.live l n hn
        have hqh : q.flags.handshake = true := hsame.handshake.trans hh
        have hdel : Runs k c (clusterDelNode cfg env c l) := by
          apply clusterDelNode_runs cfg env hgc hq (hgc.toTable.handshake l q hq hqh)
          · rw [ht.myself]
            exact hne
          · exact hrm
          · -- the master of this node has left the handshake
            apply hgc.roles.imp_left
            intro hroles me hme hslave
            have hfalse := hroles.master me l q hme hslave hq
            rw [hqh] at hfalse
            cases hfalse
        apply Leads.bind hdel
        intro c' he'
        exact Leads.ok ⟨he.trans he', fun h => by cases h⟩
      | none =>
        dsimp only
        have hjoin : Edits k.keep cs { mapNode cs l (joinAs hdr.sender hdr.flags)
            with table := relist cs.table l n.name hdr.sender } :=
          Edits.single (Edit.complete l n hn hdr.sender hdr.flags hh hf hnamed)
        rw [clusterRenameNode_eq hn (hg.toTable.handshake l n hn hh), ok_bind]
        generalize relist cs.table l n.name hdr.sender = t at hjoin
        have hn' : ({ mapNode cs l (fun n => { n with name := hdr.sender }) with table := t }
            : ClusterState).nodes l = some { n with name := hdr.sender } := mapNode_self hn _
        rw [updateNode_ok hn', ok_bind]
        have heq : mapNode { mapNode cs l (fun n => { n with name := hdr.sender }) with table := t } l
            (fun n => { n with flags := { n.flags with
              handshake := false
              master := n.flags.master || hdr.flags.master
              slave := n.flags.slave || hdr.flags.slave } }) =
            { mapNode cs l (joinAs hdr.sender hdr.flags) with table := t } := by
          have hcomp := mapNode_comp cs l (fun n => { n with name := hdr.sender })
            (fun n => { n with flags := { n.flags with
              handshake := false
              master := n.flags.master || hdr.flags.master
              slave := n.flags.slave || hdr.flags.slave } })
          exact congrArg (fun c : ClusterState => { c with table := t }) hcomp
        rw [heq]
        exact Leads.ok ⟨hjoin.mono k.keep_le, fun _ => hjoin⟩
    · rw [if_neg hh]
      split_ifs
      · rw [updateNode_ok hn, ok_bind]
        have ht : ∀ k' : Slack, Edits k' cs (mapNode cs l (fun n =>
            { n with addr := ⟨[], 0, 0⟩, link := false, flags := { n.flags with noaddr := true } })) := by
          intro k'
          apply Edits.single
          apply Edit.touch
          apply touched_mapNode
          exact fun p _ => ⟨rfl, rfl, rfl, rfl, rfl, rfl, rfl, rfl, rfl, rfl, fun _ _ => rfl⟩
        exact Leads.ok ⟨ht k, fun _ => ht k.keep⟩
      · exact Leads.ok ⟨Edits.refl cs, fun _ => Edits.refl cs⟩

theorem noteAnnounced_runs (hg : Good k cs) (hx : cs.nodes x = some n) :
    Runs k cs (noteAnnounced env cs link x hdr) := by
  unfold noteAnnounced
  have ht : Runs k.keep cs (updateNode cs x (fun n =>
      { n with flags := { n.flags with nofailover := hdr.flags.nofailover } })) :=
    updateNode_touch hx ⟨rfl, rfl, rfl, rfl, rfl, rfl, rfl, rfl, rfl, rfl, fun _ h => h⟩
  apply Runs.bind_keep hg ht
  intro c he hgc
  obtain ⟨p, hp, -⟩ := hg.kept he hx
  rw [deref_ok hp, ok_bind]
  split
  · split_ifs
    · exact Runs.refl
    · exact nodeUpdateAddressIfNeeded_runs hp
  · exact Runs.refl

theorem notePong_runs (hl : ∀ l, link = some l → ∃ n, cs.nodes l = some n) :
    Runs k cs (notePong cfg env cs link hdr) := by
  unfold notePong
  split
  · rename_i l gossip hbody
    obtain ⟨n, hn⟩ := hl l rfl
    rw [deref_ok hn, ok_bind]
    split_ifs with h1 h2
    · exact updateNode_touch hn ⟨rfl, rfl, rfl, rfl, rfl, rfl, rfl, rfl, rfl, rfl, fun _ h => h⟩
    · exact clearNodeFailureIfNeeded_runs hn h2
    · exact Runs.refl
  · exact Runs.refl

theorem demoteSender_leads (hg : Good k cs) (hx : cs.nodes x = some n)
    (hme : x ≠ cs.myself ∨ k.role) (hh : n.flags.handshake = false ∨ k.role) :
    Leads k (demoteSender cs x) (fun c => Edits k cs c ∧
      ∃ n', c.nodes x = some n' ∧ (n'.flags.slave = true ∨ k.role)) := by
  unfold demoteSender
  rw [deref_ok hx, ok_bind]
  by_cases hm : n.flags.master = true
  · rw [if_pos hm]
    apply Leads.bind (clusterDelNodeSlots_leads hg hx)
    rintro c ⟨he, hr, hs⟩
    have hgc := hg.edits he
    obtain ⟨p, hp, hsame⟩ := hr.live x n hx
    have hslots : p.numslots = 0 := by
      rw [hgc.toTable.count x p hp, Finset.card_eq_zero, Finset.filter_eq_empty_iff]
      intro i _ hi
      have hown := (hgc.toTable.bit x p hp i).mp hi
      rw [hs i] at hown
      split_ifs at hown with h
      exact h hown
    rw [updateNode_ok hp]
    refine Leads.ok ⟨he.tail ?_, _, mapNode_self hp _, Or.inl rfl⟩
    apply Edit.demote x p hp hslots (hsame.master.trans hm)
    rw [hr.myself]
    exact hme
  · rw [if_neg hm]
    refine Leads.ok ⟨Edits.refl cs, n, hx, ?_⟩
    rcases hg.roles with h | h
    · apply hh.imp_left
      intro hh
      exact (h.oneRole x n hx).slave_of hh (Bool.eq_false_iff.mpr hm)
    · exact Or.inr h

theorem attachSender_runs (hg : Good k cs) (hx : cs.nodes x = some n) (hy : cs.nodes y = some m)
    (hme : x ≠ cs.myself ∨ k.role) (hslave : n.flags.slave = true ∨ k.role) :
    Runs k cs (attachSender cs x y) := by
  unfold attachSender
  rw [deref_ok hx, ok_bind]
  split_ifs
  · exact Runs.refl
  · apply Leads.bind (detachSlave_leads hx (fun z hz => hg.attached hx hz))
    rintro c rfl
    obtain ⟨m', hm'⟩ := (alike_unlink cs x).live y m hy
    obtain ⟨n', hn'⟩ := (alike_unlink cs x).live x n hx
    have hadd : clusterNodeAddSlave (unlink cs x) y x = .ok (mapNode (unlink cs x) y (takeSlave x)) :=
      updateNode_ok hm' _
    rw [hadd, ok_bind]
    obtain ⟨n'', hn''⟩ := mapNode_live (x := y) (takeSlave x) hn'
    rw [updateNode_ok hn'']
    apply Runs.single
    apply Edit.attach x y n hx ⟨m, hy⟩
    rcases hme with h1 | h1
    · exact hslave.imp_left (fun h2 => ⟨h1, h2⟩)
    · exact Or.inr h1

theorem switchRole_runs (hg : Good k cs) (hx : cs.nodes x = some n)
    (hown : (x = cs.myself → hdr.slaveof = nullName) ∨ k.role)
    (hh : n.flags.handshake = false ∨ k.role) : Runs k cs (switchRole cs x hdr) := by
  unfold switchRole
  by_cases hnull : hdr.slaveof = nullName
  · rw [if_pos hnull]
    exact clusterSetNodeAsMaster_runs hg hx hh
  · rw [if_neg hnull]
    have hme : x ≠ cs.myself ∨ k.role := hown.imp_left (fun h hx => hnull (h hx))
    cases hl : clusterLookupNode cs hdr.slaveof with
    | none => exact (demoteSender_leads hg hx hme hh).mono (fun _ h => h.1)
    | some y =>
      obtain ⟨m, hy, -⟩ := clusterLookupNode_live hg hl
      dsimp only
      apply Leads.bind (Leads.weaken k.keep_le (demoteSender_leads hg.keep hx hme hh))
      rintro c ⟨he, n', hn', hslave⟩
      obtain ⟨m', hm', -⟩ := hg.kept he hy
      have hrun : Runs k c (attachSender c x y) := by
        apply attachSender_runs (hg.keeps he) hn' hm' _ hslave
        rw [he.later.myself]
        exact hme
      exact hrun.mono (fun _ h => (he.mono k.keep_le).trans h)

theorem dirtySlots_leads (hg : Good k cs) (hx : cs.nodes x = some n) :
    Leads k (dirtySlots cs x hdr) (fun _ => True) := by
  unfold dirtySlots
  rw [deref_ok hx, ok_bind]
  by_cases hm : n.flags.master = true
  · rw [if_pos hm]
    dsimp only
    rw [deref_ok hx, ok_bind]
    exact Leads.ok trivial
  · rw [if_neg hm]
    cases hs : n.slaveof with
    | none => exact Leads.ok trivial
    | some y =>
      apply Leads.bind (deref_leads (hg.attached hx hs))
      intro p _
      exact Leads.ok trivial

theorem staleClaim_live (hg : Good k cs) {epoch : ℕ} (h : staleClaim cs x epoch hdr = some y) :
    ∃ n, cs.nodes y = some n := by
  unfold staleClaim at h
  obtain ⟨j, -, hj⟩ := Option.bind_eq_some_iff.mp h
  exact hg.toTable.owner j y hj

theorem updateSlots_runs (hg : Good k cs) (hx : cs.nodes x = some n) (epoch : ℕ) :
    Runs k cs (updateSlots cfg env cs x epoch hdr) := by
  unfold updateSlots
  apply Leads.bind (dirtySlots_leads hg hx)
  intro b _
  split_ifs
  · rw [deref_ok hx, ok_bind]
    have hclaim : Runs k.keep cs (if n.flags.master then
        clusterUpdateSlotsConfigWith cfg cs x epoch hdr.myslots else .ok cs) := by
      split_ifs with hm
      · exact clusterUpdateSlotsConfigWith_runs cfg epoch hdr.myslots hg.keep hx (Or.inl hm)
      · exact Runs.refl
    apply Runs.bind_keep hg hclaim
    intro c he hgc
    obtain ⟨p, hp, -⟩ := hg.kept he hx
    cases hstale : staleClaim c x epoch hdr with
    | none => exact Runs.refl
    | some y =>
      obtain ⟨q, hq⟩ := staleClaim_live hgc hstale
      exact clusterSendUpdate_runs hgc hp hq
  · exact Runs.refl

theorem resolveCollision_runs (hg : Good k cs) (hx : cs.nodes x = some n) (epoch : ℕ) :
    Runs k cs (resolveCollision cs x epoch) := by
  obtain ⟨me, hme, hd⟩ := hg.deref_me
  unfold resolveCollision
  rw [deref_ok hx, ok_bind, hd, ok_bind]
  split_ifs
  · exact clusterHandleConfigEpochCollision_runs hg hx
  · exact Runs.refl

theorem processConfig_runs (hg : Good k cs) (hrm : k.removal)
    (hl : ∀ l, link = some l → l ≠ cs.myself ∧ ∃ n, cs.nodes l = some n)
    (hs : ∀ s, sender = some s → ∃ n, cs.nodes s = some n ∧ (n.flags.handshake = false ∨ k.role))
    (hf : hdr.flags.slave = !hdr.flags.master ∨ k.role)
    (hown : (sender = some cs.myself → hdr.slaveof = nullName) ∨ k.role)
    (hnamed : k.proc hdr.sender ∨ k.epoch) {gossip : List GossipEntry} (hgossip : SaneGossip k gossip) (epoch : ℕ) :
    Runs k cs (processConfig cfg env cs link sender epoch hdr gossip) := by
  unfold processConfig
  have hlive : ∀ s, sender = some s → ∃ n, cs.nodes s = some n := by
    intro s h
    obtain ⟨n, hn, -⟩ := hs s h
    exact ⟨n, hn⟩
  apply Leads.bind (handshakeLink_leads hg hrm hl hlive hf hnamed)
  rintro r ⟨he, hkeep⟩
  cases hr : r.2 with
  | false =>
    rw [if_pos rfl]
    exact Leads.ok he
  | true =>
    rw [if_neg (by decide)]
    have he1 := hkeep hr
    have hg1 := hg.keeps he1
    have hl1 : ∀ l, link = some l → ∃ n, r.1.nodes l = some n := by
      intro l h
      obtain ⟨-, n, hn⟩ := hl l h
      obtain ⟨n', hn', -⟩ := hg.kept he1 hn
      exact ⟨n', hn'⟩
    apply Leads.mono _ (fun _ h => he.trans h)
    cases sender with
    | none => exact notePong_runs hl1
    | some s =>
      obtain ⟨n, hn, hh⟩ := hs s rfl
      obtain ⟨n1, hn1, hgrow1⟩ := hg.kept he1 hn
      dsimp only
      apply Runs.bind_keep hg1 (noteAnnounced_runs hg1.keep hn1)
      intro c2 he2 hg2
      obtain ⟨n2, hn2, hgrow2⟩ := hg1.kept he2 hn1
      have hl2 : ∀ l, link = some l → ∃ n, c2.nodes l = some n := by
        intro l h
        obtain ⟨p, hp⟩ := hl1 l h
        obtain ⟨p', hp', -⟩ := hg1.kept he2 hp
        exact ⟨p', hp'⟩
      apply Runs.bind_keep hg2 (notePong_runs hl2)
      intro c3 he3 hg3
      obtain ⟨n3, hn3, hgrow3⟩ := hg2.kept he3 hn2
      have hl3 : ∀ l, link = some l → ∃ n, c3.nodes l = some n := by
        intro l h
        obtain ⟨p, hp⟩ := hl2 l h
        obtain ⟨p', hp', -⟩ := hg2.kept he3 hp
        exact ⟨p', hp'⟩
      have hmy : c3.myself = cs.myself :=
        he3.later.myself.trans (he2.later.myself.trans he1.later.myself)
      have hh3 : n3.flags.handshake = false ∨ k.keep.role :=
        hh.imp_left (fun h => (((hgrow1.trans hgrow2).trans hgrow3).joined h).1)
      have hrole : Runs k.keep c3 (switchRole c3 s hdr) := by
        apply switchRole_runs hg3.keep hn3 _ hh3
        apply hown.imp_left
        intro h hsme
        apply h
        rw [hsme, hmy]
      apply Runs.bind_keep hg3 hrole
      intro c4 he4 hg4
      obtain ⟨n4, hn4, -⟩ := hg3.kept he4 hn3
      apply Runs.bind_keep hg4 (updateSlots_runs hg4.keep hn4 epoch)
      intro c5 he5 hg5
      obtain ⟨n5, hn5, -⟩ := hg4.kept he5 hn4
      apply Runs.bind_keep hg5 (resolveCollision_runs hg5.keep hn5 epoch)
      intro c6 he6 hg6
      apply clusterProcessGossipSection_runs hg6 hdr _ hgossip
      intro l h
      obtain ⟨p, hp⟩ := hl3 l h
      obtain ⟨p4, hp4, -⟩ := hg3.kept he4 hp
      obtain ⟨p5, hp5, -⟩ := hg4.kept he5 hp4
      obtain ⟨p6, hp6, -⟩ := hg5.kept he6 hp5
      exact ⟨p6, hp6⟩

theorem processFail_runs (hg : Good k cs) (name : NodeName) :
    Runs k cs (processFail env cs sender name) := by
  unfold processFail
  split
  · rename_i s x hl
    obtain ⟨n, hn, -⟩ := clusterLookupNode_live hg hl
    rw [deref_ok hn, ok_bind]
    split_ifs
    · exact Runs.refl
    · exact updateNode_touch hn ⟨rfl, rfl, rfl, rfl, rfl, rfl, rfl, rfl, rfl, rfl, fun _ h => h⟩
  · exact Runs.refl

theorem processAuthAck_runs (hel : k.election) (hx : cs.nodes x = some n) (epoch : ℕ) :
    Runs k cs (processAuthAck cs x epoch) := by
  unfold processAuthAck
  rw [deref_ok hx, ok_bind]
  split_ifs
  · exact Runs.single (Edit.ballot ⟨rfl, rfl, rfl, rfl, rfl, rfl, rfl, rfl⟩ rfl hel (Or.inl rfl))
  · exact Runs.refl

theorem processMfstart_runs (hx : cs.nodes x = some n) : Runs k cs (processMfstart env cs x) := by
  unfold processMfstart
  rw [deref_ok hx, ok_bind]
  split_ifs
  · exact Leads.ok (edit_aside ⟨rfl, rfl, rfl, rfl, rfl, rfl, rfl, rfl⟩ ⟨rfl, rfl, rfl, rfl⟩ rfl)
  · exact Runs.refl

theorem processUpdate_runs (hg : Good k cs) {name : NodeName} {epoch : ℕ} (slots : Slot → Bool)
    (hrole : (∀ x n, clusterLookupNode cs name = some x → cs.nodes x = some n →
      n.flags.handshake = false) ∨ k.role)
    (hepoch : epoch ≤ cs.currentEpoch ∨ k.epoch) :
    Runs k cs (processUpdate cfg cs name epoch slots) := by
  unfold processUpdate
  cases hl : clusterLookupNode cs name with
  | none => exact Runs.refl
  | some x =>
    obtain ⟨n, hn, -⟩ := clusterLookupNode_live hg hl
    have hh : n.flags.handshake = false ∨ k.role := hrole.imp_left (fun h => h x n hl hn)
    dsimp only
    rw [deref_ok hn, ok_bind]
    by_cases hle : epoch ≤ n.configEpoch
    · rw [if_pos hle]
      exact Runs.refl
    rw [if_neg hle]
    have hmaster : Leads k (if n.flags.slave then clusterSetNodeAsMaster cs x else .ok cs)
        (fun c => Edits k cs c ∧ ∃ n', c.nodes x = some n' ∧ n'.configEpoch = n.configEpoch ∧
          (n'.flags.master = true ∨ k.role)) := by
      split_ifs with hslave
      · apply (clusterSetNodeAsMaster_leads hg hn hh).mono
        rintro c ⟨he, n', hn', h1, h2⟩
        exact ⟨he, n', hn', h2, Or.inl h1⟩
      · refine Leads.ok ⟨Edits.refl cs, n, hn, rfl, ?_⟩
        rcases hg.roles with h | h
        · apply hh.imp_left
          intro hh
          by_contra hm
          exact hslave ((h.oneRole x n hn).slave_of hh (Bool.eq_false_iff.mpr hm))
        · exact Or.inr h
    apply Leads.bind hmaster
    rintro c ⟨he, n', hn', heq, hm⟩
    rw [updateNode_ok hn', ok_bind]
    have he' : Edits k c (mapNode c x (fun n => { n with configEpoch := epoch })) := by
      apply Edits.single
      apply Edit.nodeEpoch
      · left
        intro p hp
        rw [hn', Option.some.injEq] at hp
        rw [← hp, heq]
        exact Nat.le_of_lt (Nat.lt_of_not_le hle)
      · exact hepoch.imp_left (fun h => h.trans he.later.current)
    have hrun := clusterUpdateSlotsConfigWith_runs cfg epoch slots ((hg.edits he).edits he')
      (mapNode_self hn' (fun n => { n with configEpoch := epoch })) hm
    exact hrun.mono (fun _ h => (he.trans he').trans h)

theorem processKnown_runs (hg : Good k cs) (hx : cs.nodes x = some n)
    (hel : k.election ∨ (hdr.body ≠ .authRequest ∧ hdr.body ≠ .authAck))
    (hrole : (∀ name e slots x n, hdr.body = .update name e slots →
      clusterLookupNode cs name = some x → cs.nodes x = some n → n.flags.handshake = false) ∨ k.role)
    (hepoch : (∀ name e slots, hdr.body = .update name e slots → e ≤ cs.currentEpoch) ∨ k.epoch)
    (epoch : ℕ) : Runs k cs (processKnown cfg env cs x epoch hdr) := by
  unfold processKnown
  split
  · rename_i hb
    have hel' := hel.resolve_right (fun h => h.1 hb)
    exact clusterSendFailoverAuthIfNeeded_runs hg hel' hx hdr
  · rename_i hb
    have hel' := hel.resolve_right (fun h => h.2 hb)
    exact processAuthAck_runs hel' hx epoch
  · exact processMfstart_runs hx
  · rename_i name e slots hb
    exact processUpdate_runs hg slots (hrole.imp_left (fun h x n hl hn => h name e slots x n hb hl hn))
      (hepoch.imp_left (fun h => h name e slots hb))
  · exact Runs.refl

theorem findSender_leads (hg : Good k cs) :
    Leads k (findSender cs hdr) (fun r => r.1 = clusterLookupNode cs hdr.sender) := by
  unfold findSender
  cases hl : clusterLookupNode cs hdr.sender with
  | none => exact Leads.ok rfl
  | some s =>
    obtain ⟨n, hn, -⟩ := clusterLookupNode_live hg hl
    dsimp only
    rw [deref_ok hn, ok_bind]
    exact Leads.ok rfl

theorem processBody_runs (hg : Good k cs) (hrm : k.removal)
    (hl : ∀ l, link = some l → l ≠ cs.myself ∧ ∃ n, cs.nodes l = some n)
    (hs : ∀ s, sender = some s → ∃ n, cs.nodes s = some n ∧ (n.flags.handshake = false ∨ k.role))
    (hf : hdr.flags.slave = !hdr.flags.master ∨ k.role)
    (hown : (sender = some cs.myself → hdr.slaveof = nullName) ∨ k.role)
    (hnamed : k.proc hdr.sender ∨ k.epoch) (hgossip : SaneGossip k hdr.body.gossip)
    (hel : k.election ∨ (hdr.body ≠ .authRequest ∧ hdr.body ≠ .authAck))
    (hrole : (∀ name e slots x n, hdr.body = .update name e slots →
      clusterLookupNode cs name = some x → cs.nodes x = some n → n.flags.handshake = false) ∨ k.role)
    (hepoch : (∀ name e slots s, hdr.body = .update name e slots → sender = some s →
      e ≤ cs.currentEpoch) ∨ k.epoch) (e1 e2 : ℕ) :
    Runs k cs (processBody cfg env cs link sender e1 e2 hdr) := by
  have hknown : ∀ s, sender = some s → Runs k cs (processKnown cfg env cs s e1 hdr) := by
    intro s hse
    obtain ⟨n, hn, -⟩ := hs s hse
    exact processKnown_runs hg hn hel hrole
      (hepoch.imp_left (fun h name e slots hb => h name e slots s hb hse)) e1
  unfold processBody
  cases hb : hdr.body with
  | ping gossip =>
    rw [hb] at hgossip
    exact processConfig_runs hg hrm hl hs hf hown hnamed hgossip e2
  | pong gossip =>
    rw [hb] at hgossip
    exact processConfig_runs hg hrm hl hs hf hown hnamed hgossip e2
  | meet gossip =>
    rw [hb] at hgossip
    exact processConfig_runs hg hrm hl hs hf hown hnamed hgossip e2
  | fail name => exact processFail_runs hg name
  | _ =>
    cases sender with
    | none => exact Runs.refl
    | some s => exact hknown s rfl

theorem clusterProcessPacket_runs (hg : Good k cs) (hrm : k.removal)
    (hl : ∀ l, link = some l → l ≠ cs.myself ∧ ∃ n, cs.nodes l = some n)
    (hrandom : k.proc env.randomName → k.epoch) (hsound : Sound k cs hdr) :
    Runs k cs (clusterProcessPacket cfg env cs link hdr) := by
  unfold clusterProcessPacket
  apply Leads.bind (findSender_leads hg)
  rintro ⟨sender, e1, e2⟩ hsender
  dsimp only at hsender ⊢
  have hs : ∀ s, sender = some s → ∃ n, cs.nodes s = some n := by
    intro s h
    rw [h] at hsender
    obtain ⟨n, hn, -⟩ := clusterLookupNode_live hg hsender.symm
    exact ⟨n, hn⟩
  have hjoined : ∀ s n, sender = some s → cs.nodes s = some n →
      n.flags.handshake = false ∨ (k.role ∧ k.epoch) := by
    intro s n h hn
    exact hsound.sender.imp_left (fun hh => hh s n (by rw [← hsender, h]) hn)
  apply Leads.bind (Leads.weaken k.keep_le (noteSender_leads hg.keep hs hsound.config))
  rintro c1 ⟨he1, hnoted⟩
  have hg1 := hg.keeps he1
  have hl1 : ∀ l, link = some l → ∃ n, c1.nodes l = some n := by
    intro l h
    obtain ⟨-, n, hn⟩ := hl l h
    obtain ⟨n', hn', -⟩ := hg.kept he1 hn
    exact ⟨n', hn'⟩
  -- an UPDATE message finds the nodes as they were when it came in
  have hupdate : (∀ name e slots x n, hdr.body = .update name e slots →
      clusterLookupNode c1 name = some x → c1.nodes x = some n → n.flags.handshake = false) ∨
      k.role := by
    apply hsound.update.imp_left
    intro h name e slots x n hb hlookup hn
    obtain ⟨p, hp, hflags, -⟩ := hnoted.nodes.old x n hn
    rw [hflags]
    exact h name e slots x p hb (by rw [clusterLookupNode, ← hnoted.table]; exact hlookup) hp
  have hepoch : (∀ name e slots s, hdr.body = .update name e slots → sender = some s →
      e ≤ c1.currentEpoch) ∨ k.epoch := by
    by_cases hk : k.epoch
    · exact Or.inr hk
    · left
      intro name e slots s hb hse
      obtain ⟨n, hn⟩ := hs s hse
      have hh := (hjoined s n hse hn).resolve_right (fun h => hk h.2)
      exact (hsound.epoch.resolve_right hk name e slots hb).trans (hnoted.current s n hse hn hh)
  apply Leads.mono _ (fun _ h => (he1.mono k.keep_le).trans h)
  have hbody : ∀ c, Edits k.keep c1 c → Good k c →
      ((∃ name e slots, hdr.body = .update name e slots) → c = c1) →
      Runs k c (processBody cfg env c link sender e1 e2 hdr) := by
    intro c he hgc hc
    have hmy : c.myself = cs.myself := he.later.myself.trans hnoted.myself
    apply processBody_runs hgc hrm _ _ hsound.flags _ hsound.named hsound.gossip hsound.election
    · by_cases h : ∃ name e slots, hdr.body = .update name e slots
      · rw [hc h]
        exact hupdate
      · left
        exact fun name e slots x n hb _ _ => absurd ⟨name, e, slots, hb⟩ h
    · apply hepoch.imp_left
      intro h name e slots s hb hse
      exact (h name e slots s hb hse).trans he.later.current
    · intro l h
      obtain ⟨hne, -⟩ := hl l h
      obtain ⟨n, hn⟩ := hl1 l h
      obtain ⟨n', hn', -⟩ := hg1.kept he hn
      exact ⟨by rw [hmy]; exact hne, n', hn'⟩
    · intro s h
      obtain ⟨n, hn⟩ := hs s h
      obtain ⟨n1, hn1, hgrow1⟩ := hg.kept he1 hn
      obtain ⟨n2, hn2, hgrow2⟩ := hg1.kept he hn1
      refine ⟨n2, hn2, ?_⟩
      rcases hjoined s n h hn with hh | hh
      · exact Or.inl ((hgrow1.trans hgrow2).joined hh).1
      · exact Or.inr hh.1
    · rw [hmy, hsender]
      exact hsound.own
  by_cases hupd : ∃ name e slots, hdr.body = .update name e slots
  · obtain ⟨name, e, slots, hb⟩ := hupd
    have hmeet : meetSender cfg env c1 link sender hdr = .ok c1 := by
      unfold meetSender
      rw [hb]
      cases sender <;> rfl
    have hping : answerPing cfg env c1 link hdr = .ok c1 := by
      unfold answerPing
      rw [hb]
    rw [hmeet, ok_bind, hping, ok_bind]
    exact hbody c1 (Edits.refl c1) hg1 (fun _ => rfl)
  · apply Runs.bind_keep hg1 (meetSender_runs hg1.keep hl1 hsound.gossip hrandom)
    intro c2 he2 hg2
    apply Runs.bind_keep hg2 (answerPing_runs hg2.keep)
    intro c3 he3 hg3
    exact hbody c3 (he2.trans he3) hg3 (fun h => absurd h hupd)

end RedisCore.Cluster
