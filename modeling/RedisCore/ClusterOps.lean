import RedisCore.ClusterSteps

namespace RedisCore.Cluster
open Function (update_of_ne update_self)

variable {k : Slack} {cs cs' cs'' : ClusterState} {x y : NodeId} {n m : ClusterNode} {j : Slot}

theorem deref_ok (hx : cs.nodes x = some n) : deref cs x = .ok n := by
  rw [deref, hx]

theorem deref_leads (h : (∃ n, cs.nodes x = some n) ∨ k.role) :
    Leads k (deref cs x) (fun n => cs.nodes x = some n) := by
  unfold deref
  cases hx : cs.nodes x with
  | some n => exact Leads.ok rfl
  | none =>
    refine Leads.error ⟨by decide, by decide, ?_⟩
    apply h.resolve_left
    rintro ⟨n, hn⟩
    rw [hx] at hn
    cases hn

theorem Good.deref_me (hg : Good k cs) : ∃ me, cs.nodes cs.myself = some me ∧
    deref cs cs.myself = .ok me := by
  obtain ⟨me, hme⟩ := hg.me
  exact ⟨me, hme, deref_ok hme⟩

theorem setNode_eq (hx : cs.nodes x = some n) (f : ClusterNode → ClusterNode) :
    setNode cs x (f n) = mapNode cs x f := by
  unfold setNode mapNode
  congr 1
  ext1 y
  by_cases hy : y = x
  · rw [if_pos hy, if_pos hy, hy, hx, Option.map_some]
  · rw [if_neg hy, if_neg hy]

theorem updateNode_ok (hx : cs.nodes x = some n) (f : ClusterNode → ClusterNode) :
    updateNode cs x f = .ok (mapNode cs x f) := by
  rw [updateNode, deref_ok hx, ok_bind, setNode_eq hx]

theorem mapNode_self (hx : cs.nodes x = some n) (f : ClusterNode → ClusterNode) :
    (mapNode cs x f).nodes x = some (f n) := by
  rw [mapNode_nodes, if_pos rfl, hx, Option.map_some]

theorem mapNode_live (f : ClusterNode → ClusterNode) (hy : cs.nodes y = some n) :
    ∃ n', (mapNode cs x f).nodes y = some n' := by
  by_cases hyx : y = x
  · rw [hyx] at hy
    exact ⟨f n, by rw [hyx]; exact mapNode_self hy f⟩
  · exact ⟨n, by rw [mapNode_nodes, if_neg hyx, hy]⟩

theorem SameNode.refl (n : ClusterNode) : SameNode n n :=
  ⟨rfl, rfl, rfl, rfl, rfl, rfl, rfl, rfl, rfl, rfl, fun _ h => h⟩

theorem touched_mapNode {f : ClusterNode → ClusterNode}
    (hf : ∀ n, cs.nodes x = some n → SameNode n (f n)) : Touched cs (mapNode cs x f) := by
  have hp : Pointwise SameNode cs (mapNode cs x f) := pointwise_mapNode SameNode.refl hf
  exact ⟨⟨rfl, rfl, rfl, rfl⟩, hp.old, hp.live, rfl, rfl, rfl, rfl, rfl, rfl, rfl, rfl⟩

theorem updateNode_touch {f : ClusterNode → ClusterNode} (hx : cs.nodes x = some n)
    (hf : SameNode n (f n)) : Runs k cs (updateNode cs x f) := by
  rw [updateNode_ok hx]
  apply Runs.single
  apply Edit.touch
  apply touched_mapNode
  intro p hp
  rw [hx, Option.some.injEq] at hp
  rw [← hp]
  exact hf

theorem edit_aside (hv : SameView cs cs') (hb : SameBallot cs cs') (ho : cs'.out = cs.out) :
    Edits k cs cs' := Edits.single (Edit.aside hv hb ho)

theorem clusterAddNode_edits (hn : Newborn n) (hrole : OneRole n.flags ∨ k.role)
    (hproc : n.flags.handshake = true → k.proc n.name → k.epoch)
    (hmine : n.flags.myself = true → k.proc n.name ∨ k.epoch) :
    Edits k cs (clusterAddNode cs n) := by
  unfold clusterAddNode
  split_ifs with h
  · exact Edits.refl cs
  · apply Edits.single
    apply Edit.join n hn _ hrole hproc hmine
    rw [← Option.not_isSome_iff_eq_none]
    exact h

theorem newborn_create (name : NodeName) (flags : NodeFlags) (now : ℤ) (addr : NodeAddr) :
    Newborn { createClusterNode name flags now with addr := addr } :=
  ⟨rfl, rfl, rfl, rfl, rfl⟩

theorem clusterLookupNode_live (hg : Good k cs) {name : NodeName}
    (h : clusterLookupNode cs name = some x) : ∃ n, cs.nodes x = some n ∧ n.name = name :=
  hg.toTable.listed name x h

theorem Good.attached (hg : Good k cs) (hx : cs.nodes x = some n) (hs : n.slaveof = some y) :
    (∃ m, cs.nodes y = some m) ∨ k.role := by
  apply hg.roles.imp_left
  intro h
  obtain ⟨m, hm, -⟩ := h.attached x n y hx hs
  exact ⟨m, hm⟩

theorem detachSlave_leads (hx : cs.nodes x = some n)
    (hy : ∀ y, n.slaveof = some y → (∃ m, cs.nodes y = some m) ∨ k.role) :
    Leads k (detachSlave cs x) (fun c => c = unlink cs x) := by
  unfold detachSlave
  rw [deref_ok hx, ok_bind]
  cases hs : n.slaveof with
  | none =>
    apply Leads.ok
    unfold unlink
    rw [hx, Option.bind_some, hs]
  | some y =>
    apply Leads.bind (deref_leads (hy y hs))
    intro m hm
    apply Leads.ok
    show setNode cs y (dropSlave x m) = unlink cs x
    rw [setNode_eq hm]
    unfold unlink
    rw [hx, Option.bind_some, hs]

theorem Leads.forSlots {f : ClusterState → Slot → Except ClusterFault ClusterState}
    (I : List Slot → ClusterState → Prop)
    (step : ∀ i rest c, Good k c → I (i :: rest) c →
      Leads k (f c i) (fun c' => Edits k c c' ∧ I rest c'))
    (hg : Good k cs) (hi : I (List.finRange 16384) cs) :
    Leads k (forSlots f cs) (fun c => Edits k cs c ∧ I [] c) := by
  unfold Cluster.forSlots
  exact Leads.foldlM id I step _ cs hg hi

structure SameMember (n n' : ClusterNode) : Prop extends SameRole n n' where
  name : n'.name = n.name
  epoch : n'.configEpoch = n.configEpoch

theorem SameMember.refl (n : ClusterNode) : SameMember n n := ⟨SameRole.refl n, rfl, rfl⟩

theorem SameMember.trans {n n' n'' : ClusterNode} (h : SameMember n n') (h' : SameMember n' n'') :
    SameMember n n'' :=
  ⟨⟨h'.slaves.trans h.slaves, h'.slaveof.trans h.slaveof, h'.master.trans h.master,
    h'.slave.trans h.slave, h'.handshake.trans h.handshake⟩, h'.name.trans h.name,
    h'.epoch.trans h.epoch⟩

structure Rebound (cs cs' : ClusterState) : Prop extends Pointwise SameMember cs cs' where
  table : cs'.table = cs.table
  fresh : cs'.fresh = cs.fresh
  myself : cs'.myself = cs.myself
  current : cs'.currentEpoch = cs.currentEpoch
  importing : cs'.importingSlotsFrom = cs.importingSlotsFrom
  migrating : cs'.migratingSlotsTo = cs.migratingSlotsTo

theorem Rebound.refl (cs : ClusterState) : Rebound cs cs :=
  ⟨pointwise_of_nodes SameMember.refl rfl, rfl, rfl, rfl, rfl, rfl, rfl⟩

theorem Rebound.trans (h : Rebound cs cs') (h' : Rebound cs' cs'') : Rebound cs cs'' :=
  ⟨h.toPointwise.trans (fun _ _ _ => SameMember.trans) h'.toPointwise, h'.table.trans h.table,
    h'.fresh.trans h.fresh, h'.myself.trans h.myself, h'.current.trans h.current,
    h'.importing.trans h.importing, h'.migrating.trans h.migrating⟩

theorem clusterAddSlot_table (ht : Table cs) (hx : cs.nodes x = some n) (hfree : cs.slots j = none) :
    ∃ n', clusterAddSlot cs x j = .ok
        ({ setNode cs x n' with slots := Function.update cs.slots j (some x) }, true) ∧
      SameNode { n with slots := Function.update n.slots j true, numslots := n.numslots+1 } n' ∧
      n'.link = n.link := by
  have hbit : n.slots j = false := by
    by_contra h
    rw [Bool.not_eq_false, ht.bit x n hx j, hfree] at h
    cases h
  obtain ⟨n', hset, hn', hlink⟩ : ∃ n', clusterNodeSetSlotBit cs x j = .ok (setNode cs x n') ∧
      SameNode { n with slots := Function.update n.slots j true, numslots := n.numslots+1 } n' ∧
      n'.link = n.link := by
    unfold clusterNodeSetSlotBit updateNode
    rw [deref_ok hx, ok_bind]
    dsimp only
    rw [if_neg (by rw [hbit]; decide)]
    refine ⟨_, rfl, ⟨rfl, rfl, rfl, rfl, rfl, rfl, ?_, ?_, ?_, ?_, fun _ h => h⟩, rfl⟩ <;>
      (dsimp only; split_ifs <;> rfl)
  refine ⟨n', ?_, hn', hlink⟩
  unfold clusterAddSlot
  rw [hfree]
  dsimp only
  rw [hset]
  rfl

theorem clusterAddSlot_free (hg : Good k cs) (hx : cs.nodes x = some n) (hfree : cs.slots j = none)
    (hk : n.flags.master = true ∨ k.role) : ∃ c, clusterAddSlot cs x j = .ok (c, true) ∧
      Edits k cs c ∧ Rebound cs c ∧ c.slots = Function.update cs.slots j (some x) := by
  obtain ⟨n', hadd, hn', -⟩ := clusterAddSlot_table hg.toTable hx hfree
  refine ⟨_, hadd, Edits.single (Edit.bind x n n' j hx hfree hn' hk), ?_, rfl⟩
  have hm : SameMember n n' :=
    ⟨⟨hn'.slaves, hn'.slaveof, hn'.master, hn'.slave, hn'.handshake⟩, hn'.name, hn'.epoch⟩
  exact ⟨pointwise_setNode SameMember.refl hx hm rfl, rfl, rfl, rfl, rfl, rfl, rfl⟩

theorem clusterAddSlot_busy (hs : cs.slots j = some y) : clusterAddSlot cs x j = .ok (cs, false) := by
  rw [clusterAddSlot, hs]

theorem clusterDelSlot_eq (hg : Good k cs) (j : Slot) : ∃ c,
    clusterDelSlot cs j = .ok (c, (cs.slots j).isSome) ∧ Edits k cs c ∧ Rebound cs c ∧
      c.slots = Function.update cs.slots j none := by
  cases hs : cs.slots j with
  | none =>
    refine ⟨cs, ?_, Edits.refl cs, Rebound.refl cs, ?_⟩
    · rw [clusterDelSlot, hs]
      rfl
    · rw [← hs, Function.update_eq_self]
  | some x =>
    obtain ⟨n, hx⟩ := hg.toTable.owner j x hs
    have hbit : n.slots j = true := (hg.toTable.bit x n hx j).mpr hs
    refine ⟨{ setNode cs x { n with
        slots := Function.update n.slots j false, numslots := n.numslots-1 } with
      slots := Function.update cs.slots j none }, ?_, ?_, ?_, rfl⟩
    · have hclear : clusterNodeClearSlotBit cs x j = .ok (setNode cs x { n with
          slots := Function.update n.slots j false, numslots := n.numslots-1 }) := by
        rw [clusterNodeClearSlotBit, updateNode, deref_ok hx, ok_bind, if_pos hbit]
      unfold clusterDelSlot
      rw [hs]
      dsimp only
      rw [deref_ok hx, ok_bind, if_pos hbit, hclear]
      rfl
    · exact Edits.single (Edit.unbind x n j hx hs)
    · have hm : SameMember n { n with
          slots := Function.update n.slots j false, numslots := n.numslots-1 } :=
        ⟨⟨rfl, rfl, rfl, rfl, rfl⟩, rfl, rfl⟩
      exact ⟨pointwise_setNode SameMember.refl hx hm rfl, rfl, rfl, rfl, rfl, rfl, rfl⟩

theorem rebindSlot_eq (hg : Good k cs) (hx : cs.nodes x = some n)
    (hk : n.flags.master = true ∨ k.role) (j : Slot) : ∃ c, rebindSlot cs x j = .ok c ∧
      Edits k cs c ∧ Rebound cs c ∧ c.slots = Function.update cs.slots j (some x) := by
  obtain ⟨c, hdel, he, hr, hs⟩ := clusterDelSlot_eq hg j
  obtain ⟨p, hp, hsame⟩ := hr.live x n hx
  have hfree : c.slots j = none := by
    rw [hs, update_self]
  obtain ⟨c', hadd, he', hr', hs'⟩ := clusterAddSlot_free (hg.edits he) hp hfree
    (by rw [hsame.master]; exact hk)
  refine ⟨c', ?_, he.trans he', hr.trans hr', ?_⟩
  · rw [rebindSlot, hdel, ok_bind]
    dsimp only
    rw [hadd]
    rfl
  · rw [hs', hs, Function.update_idem]

theorem clusterDelNodeSlots_leads (hg : Good k cs) (hx : cs.nodes x = some n) :
    Leads k (clusterDelNodeSlots cs x) (fun c => Edits k cs c ∧ Rebound cs c ∧
      ∀ i, c.slots i = if cs.slots i = some x then none else cs.slots i) := by
  -- the slots still to come are the only ones the node may have left
  let I : List Slot → ClusterState → Prop := fun rest c => Rebound cs c ∧
    (∀ i, c.slots i = some x → i ∈ rest) ∧
    ∀ i, c.slots i = cs.slots i ∨ (c.slots i = none ∧ cs.slots i = some x)
  have hloop : Leads k (clusterDelNodeSlots cs x) (fun c => Edits k cs c ∧ I [] c) := by
    apply Leads.forSlots I _ hg
    · exact ⟨Rebound.refl cs, fun i _ => List.mem_finRange i, fun i => Or.inl rfl⟩
    · rintro i rest c hgc ⟨hr, hin, hs⟩
      obtain ⟨p, hp, -⟩ := hr.live x n hx
      rw [deref_ok hp, ok_bind]
      by_cases hb : p.slots i = true
      · rw [if_pos hb]
        have hci := (hgc.toTable.bit x p hp i).mp hb
        obtain ⟨c', hdel, he, hr', hs'⟩ := clusterDelSlot_eq hgc i
        rw [hdel, ok_bind]
        refine Leads.ok ⟨he, hr.trans hr', ?_, ?_⟩
        · intro i' hi'
          rw [hs'] at hi'
          by_cases hii : i' = i
          · rw [hii, update_self] at hi'
            cases hi'
          · rw [update_of_ne hii] at hi'
            exact (List.mem_cons.mp (hin i' hi')).resolve_left hii
        · intro i'
          rw [hs']
          by_cases hii : i' = i
          · rw [hii, update_self]
            refine Or.inr ⟨rfl, ?_⟩
            rcases hs i with h | ⟨h, -⟩
            · rw [← h, hci]
            · rw [h] at hci
              cases hci
          · rw [update_of_ne hii]
            exact hs i'
      · rw [if_neg hb]
        refine Leads.ok ⟨Edits.refl _, hr, ?_, hs⟩
        intro i' hi'
        rcases List.mem_cons.mp (hin i' hi') with rfl | h
        · exact absurd ((hgc.toTable.bit x p hp i').mpr hi') hb
        · exact h
  apply hloop.mono
  rintro c ⟨he, hr, hin, hs⟩
  refine ⟨he, hr, ?_⟩
  intro i
  split_ifs with hi
  · rcases hs i with h | ⟨h, -⟩
    · exact absurd (hin i (h.trans hi)) List.not_mem_nil
    · exact h
  · rcases hs i with h | ⟨-, h⟩
    · exact h
    · exact absurd h hi

structure Released (x : NodeId) (i : Slot) (cs cs' : ClusterState) : Prop
    extends Pointwise SameMember cs cs' where
  table : cs'.table = cs.table
  myself : cs'.myself = cs.myself
  slots : cs'.slots i ≠ some x ∧ ∀ i', i' ≠ i → cs'.slots i' = cs.slots i'
  importing : cs'.importingSlotsFrom i ≠ some x ∧
    ∀ i', i' ≠ i → cs'.importingSlotsFrom i' = cs.importingSlotsFrom i'
  migrating : cs'.migratingSlotsTo i ≠ some x ∧
    ∀ i', i' ≠ i → cs'.migratingSlotsTo i' = cs.migratingSlotsTo i'

theorem edits_closeImport (hg : Good k cs) (i : Slot) :
    Edits k cs { cs with importingSlotsFrom := Function.update cs.importingSlotsFrom i none } := by
  apply Edits.single
  apply Edit.slotState cs.migratingSlotsTo _ hg.toTable.migrating
  intro i' y h
  by_cases hi : i' = i
  · rw [hi, update_self] at h
    cases h
  · rw [update_of_ne hi] at h
    exact hg.toTable.importing i' y h

theorem edits_closeMigration (hg : Good k cs) (i : Slot) :
    Edits k cs { cs with migratingSlotsTo := Function.update cs.migratingSlotsTo i none } := by
  apply Edits.single
  apply Edit.slotState _ cs.importingSlotsFrom _ hg.toTable.importing
  intro i' y h
  by_cases hi : i' = i
  · rw [hi, update_self] at h
    cases h
  · rw [update_of_ne hi] at h
    exact hg.toTable.migrating i' y h

theorem update_none_spec {f : Slot → Option NodeId} (i : Slot) (x : NodeId) :
    Function.update f i none i ≠ some x ∧ ∀ i', i' ≠ i → Function.update f i none i' = f i' := by
  refine ⟨?_, fun i' h => update_of_ne h _ _⟩
  rw [update_self]
  exact fun h => by cases h

theorem releaseSlot_leads (hg : Good k cs) (x : NodeId) (i : Slot) :
    Leads k (releaseSlot x cs i) (fun c => Edits k cs c ∧ Released x i cs c) := by
  obtain ⟨c1, h1, he1, hp1, hn1, hi1⟩ : ∃ c, (if cs.importingSlotsFrom i = some x then
      { cs with importingSlotsFrom := Function.update cs.importingSlotsFrom i none } else cs) = c ∧
      Edits k cs c ∧ Pointwise SameMember cs c ∧
      (c.table = cs.table ∧ c.myself = cs.myself ∧ c.slots = cs.slots ∧
        c.migratingSlotsTo = cs.migratingSlotsTo) ∧ c.importingSlotsFrom i ≠ some x ∧
      ∀ i', i' ≠ i → c.importingSlotsFrom i' = cs.importingSlotsFrom i' := by
    refine ⟨_, rfl, ?_⟩
    split_ifs with h
    · exact ⟨edits_closeImport hg i, pointwise_of_nodes SameMember.refl rfl, ⟨rfl, rfl, rfl, rfl⟩,
        update_none_spec i x⟩
    · exact ⟨Edits.refl cs, pointwise_of_nodes SameMember.refl rfl, ⟨rfl, rfl, rfl, rfl⟩, h,
        fun i' _ => rfl⟩
  obtain ⟨c2, h2, he2, hp2, hn2, hi2⟩ : ∃ c, (if c1.migratingSlotsTo i = some x then
      { c1 with migratingSlotsTo := Function.update c1.migratingSlotsTo i none } else c1) = c ∧
      Edits k c1 c ∧ Pointwise SameMember c1 c ∧
      (c.table = c1.table ∧ c.myself = c1.myself ∧ c.slots = c1.slots ∧
        c.importingSlotsFrom = c1.importingSlotsFrom) ∧ c.migratingSlotsTo i ≠ some x ∧
      ∀ i', i' ≠ i → c.migratingSlotsTo i' = c1.migratingSlotsTo i' := by
    refine ⟨_, rfl, ?_⟩
    split_ifs with h
    · exact ⟨edits_closeMigration (hg.edits he1) i, pointwise_of_nodes SameMember.refl rfl,
        ⟨rfl, rfl, rfl, rfl⟩, update_none_spec i x⟩
    · exact ⟨Edits.refl c1, pointwise_of_nodes SameMember.refl rfl, ⟨rfl, rfl, rfl, rfl⟩, h,
        fun i' _ => rfl⟩
  have hp : Pointwise SameMember cs c2 := hp1.trans (fun _ _ _ => SameMember.trans) hp2
  unfold releaseSlot
  rw [h1]
  dsimp only
  rw [h2]
  by_cases hs : c2.slots i = some x
  · rw [if_pos hs]
    obtain ⟨c, hdel, he, hr, hsl⟩ := clusterDelSlot_eq (hg.edits (he1.trans he2)) i
    rw [hdel, ok_bind]
    refine Leads.ok ⟨(he1.trans he2).trans he, ?_⟩
    refine ⟨hp.trans (fun _ _ _ => SameMember.trans) hr.toPointwise, ?_, ?_, ?_, ?_, ?_⟩
    · rw [hr.table, hn2.1, hn1.1]
    · rw [hr.myself, hn2.2.1, hn1.2.1]
    · rw [hsl, hn2.2.2.1, hn1.2.2.1]
      exact update_none_spec i x
    · rw [hr.importing, hn2.2.2.2]
      exact hi1
    · rw [hr.migrating]
      refine ⟨hi2.1, ?_⟩
      intro i' hi'
      rw [hi2.2 i' hi', hn1.2.2.2]
  · rw [if_neg hs]
    refine Leads.ok ⟨he1.trans he2, hp, ?_, ?_, ⟨hs, ?_⟩, ?_, ?_⟩
    · rw [hn2.1, hn1.1]
    · rw [hn2.2.1, hn1.2.1]
    · intro i' _
      rw [hn2.2.2.1, hn1.2.2.1]
    · rw [hn2.2.2.2]
      exact hi1
    · refine ⟨hi2.1, ?_⟩
      intro i' hi'
      rw [hi2.2 i' hi', hn1.2.2.2]

theorem releaseSlots_leads (hg : Good k cs) (x : NodeId) :
    Leads k (forSlots (releaseSlot x) cs) (fun c => Edits k cs c ∧ Pointwise SameMember cs c ∧
      c.table = cs.table ∧ c.myself = cs.myself ∧ ∀ i, c.slots i ≠ some x ∧
        c.importingSlotsFrom i ≠ some x ∧ c.migratingSlotsTo i ≠ some x) := by
  let I : List Slot → ClusterState → Prop := fun rest c => Pointwise SameMember cs c ∧
    c.table = cs.table ∧ c.myself = cs.myself ∧ ∀ i, i ∈ rest ∨ (c.slots i ≠ some x ∧
      c.importingSlotsFrom i ≠ some x ∧ c.migratingSlotsTo i ≠ some x)
  have hloop : Leads k (forSlots (releaseSlot x) cs) (fun c => Edits k cs c ∧ I [] c) := by
    apply Leads.forSlots I _ hg
    · exact ⟨pointwise_of_nodes SameMember.refl rfl, rfl, rfl, fun i => Or.inl (List.mem_finRange i)⟩
    · rintro i rest c hgc ⟨hp, ht, hm, hs⟩
      apply (releaseSlot_leads hgc x i).mono
      rintro c' ⟨he, hr⟩
      refine ⟨he, hp.trans (fun _ _ _ => SameMember.trans) hr.toPointwise, hr.table.trans ht,
        hr.myself.trans hm, ?_⟩
      intro i'
      by_cases hi : i' = i
      · rw [hi]
        exact Or.inr ⟨hr.slots.1, hr.importing.1, hr.migrating.1⟩
      · rw [hr.slots.2 i' hi, hr.importing.2 i' hi, hr.migrating.2 i' hi]
        exact (hs i').imp_left (fun h => (List.mem_cons.mp h).resolve_left hi)
  apply hloop.mono
  rintro c ⟨he, hp, ht, hm, hs⟩
  exact ⟨he, hp, ht, hm, fun i => (hs i).resolve_left List.not_mem_nil⟩

theorem orphan_cons (cs : ClusterState) (y : NodeId) (l : List NodeId) :
    orphan (mapNode cs y (fun n => { n with slaveof := none })) l = orphan cs (y :: l) := by
  unfold orphan mapNode
  congr 1
  ext1 z
  dsimp only
  by_cases hl : z ∈ l
  · rw [if_pos hl, if_pos (List.mem_cons_of_mem y hl)]
    by_cases hz : z = y
    · rw [if_pos hz, Option.map_map]
      rfl
    · rw [if_neg hz]
  · rw [if_neg hl]
    by_cases hz : z = y
    · rw [if_pos hz, if_pos (by rw [hz]; exact List.mem_cons_self)]
    · rw [if_neg hz, if_neg]
      intro h
      exact (List.mem_cons.mp h).elim hz hl

theorem forgetMaster_leads : ∀ (l : List NodeId) (cs : ClusterState),
    (∀ y ∈ l, (∃ n, cs.nodes y = some n) ∨ k.role) →
    Leads k (forgetMaster cs l) (fun c => c = orphan cs l) := by
  intro l
  induction l with
  | nil =>
    intro cs _
    refine Leads.ok ?_
    unfold orphan
    simp
  | cons y l ih =>
    intro cs hl
    rw [forgetMaster, List.foldlM_cons]
    rcases hl y List.mem_cons_self with ⟨n, hn⟩ | hk
    · rw [updateNode_ok hn, ok_bind, ← orphan_cons]
      apply ih
      intro z hz
      apply (hl z (List.mem_cons_of_mem y hz)).imp_left
      rintro ⟨p, hp⟩
      exact mapNode_live _ hp
    · cases hy : cs.nodes y with
      | none =>
        rw [updateNode, deref, hy]
        exact Leads.error ⟨by decide, by decide, hk⟩
      | some n =>
        rw [updateNode_ok hy, ok_bind, ← orphan_cons]
        exact ih _ (fun z _ => Or.inr hk)

theorem delFailureReports_touched (cfg : ClusterConfig) (env : Env) (cs : ClusterState) (x : NodeId) :
    Touched cs (delFailureReports cfg env cs x) := by
  have hsame : ∀ n : ClusterNode, SameNode n (n.delFailureReport cfg env.now x) := by
    intro n
    unfold ClusterNode.delFailureReport
    split_ifs <;> exact ⟨rfl, rfl, rfl, rfl, rfl, rfl, rfl, rfl, rfl, rfl, fun _ h => h⟩
  have hn : ∀ y, (delFailureReports cfg env cs x).nodes y = if y ∈ nodeIds cs ∧ y ≠ x then
      (cs.nodes y).map (ClusterNode.delFailureReport cfg env.now x) else cs.nodes y := fun y => rfl
  refine ⟨⟨rfl, rfl, rfl, rfl⟩, ?_, ?_, rfl, rfl, rfl, rfl, rfl, rfl, rfl, rfl⟩
  · intro y n' hy
    rw [hn] at hy
    split_ifs at hy
    · rw [Option.map_eq_some_iff] at hy
      obtain ⟨n, hy, rfl⟩ := hy
      exact ⟨n, hy, hsame n⟩
    · exact ⟨n', hy, SameNode.refl n'⟩
  · intro y n hy
    rw [hn]
    split_ifs
    · rw [hy]
      exact ⟨_, rfl, hsame n⟩
    · exact ⟨n, hy, SameNode.refl n⟩

theorem freeClusterNode_runs (hg : Good k cs) (hx : cs.nodes x = some n)
    (hname : cs.table n.name = some x) (hme : x ≠ cs.myself) (hrm : k.removal)
    (hs : ∀ i, cs.slots i ≠ some x ∧ cs.importingSlotsFrom i ≠ some x ∧
      cs.migratingSlotsTo i ≠ some x)
    (hrole : (∀ me, cs.nodes cs.myself = some me → me.slaveof ≠ some x) ∨ k.role) :
    Runs k cs (freeClusterNode cs x) := by
  unfold freeClusterNode
  rw [deref_ok hx, ok_bind]
  have hslaves : ∀ y ∈ n.slaves, (∃ p, cs.nodes y = some p) ∨ k.role := by
    intro y hy
    apply hg.roles.imp_left
    intro h
    obtain ⟨p, hp, -⟩ := h.slaves x n y hx hy
    exact ⟨p, hp⟩
  apply Leads.bind (forgetMaster_leads n.slaves cs hslaves)
  rintro c rfl
  have ha := alike_orphan cs n.slaves
  obtain ⟨p, hp⟩ := ha.live x n hx
  obtain ⟨q, hq, -, hflags, hin, hout⟩ := orphan_nodes hp
  rw [hx, Option.some.injEq] at hq
  subst hq
  have hpname : p.name = n.name := by
    obtain ⟨q, hq, hqname, -⟩ := ha.old x p hp
    rw [hx, Option.some.injEq] at hq
    rw [hqname, hq]
  rw [deref_ok hp, ok_bind, hflags, hpname]
  have hdone : ∀ c, c = detached cs x n → Runs k cs
      (if (clusterLookupNode c n.name).isSome then
        .ok { c with
          table := Function.update c.table n.name none
          nodes := fun y => if y = x then none else c.nodes y }
      else .error .dictDeleteAssert) := by
    rintro c rfl
    have ht : clusterLookupNode (detached cs x n) n.name = some x := by
      rw [clusterLookupNode, (alike_detached cs x n).table, hname]
    rw [ht]
    exact Runs.single (Edit.remove x n hx hme hname (fun j => (hs j).1) (fun j => (hs j).2.1)
      (fun j => (hs j).2.2) hrm hrole)
  by_cases hslave : n.flags.slave = true
  · rw [if_pos hslave]
    apply Leads.bind (detachSlave_leads hp _)
    · rintro c rfl
      apply hdone
      rw [detached, if_pos hslave]
    · intro y hy
      have hn : n.slaveof = some y := by
        by_cases hmem : x ∈ n.slaves
        · rw [hin hmem] at hy
          cases hy
        · rw [← hout hmem, hy]
      apply (hg.attached hx hn).imp_left
      rintro ⟨m, hm⟩
      exact ha.live y m hm
  · rw [if_neg hslave, ok_bind]
    apply hdone
    rw [detached, if_neg hslave]

theorem clusterDelNode_runs (cfg : ClusterConfig) (env : Env) (hg : Good k cs)
    (hx : cs.nodes x = some n) (hname : cs.table n.name = some x) (hme : x ≠ cs.myself)
    (hrm : k.removal)
    (hrole : (∀ me, cs.nodes cs.myself = some me → me.slaveof ≠ some x) ∨ k.role) :
    Runs k cs (clusterDelNode cfg env cs x) := by
  unfold clusterDelNode
  apply Leads.bind (releaseSlots_leads hg x)
  rintro c ⟨he, hp, ht, hm, hs⟩
  have hd := delFailureReports_touched cfg env c x
  have he' : Edits k cs (delFailureReports cfg env c x) := he.tail (Edit.touch hd)
  -- the node and this node are still the same ones
  have hsame : ∀ y p, (delFailureReports cfg env c x).nodes y = some p → ∃ q, cs.nodes y = some q ∧
      p.name = q.name ∧ p.slaveof = q.slaveof := by
    intro y p hy
    obtain ⟨p', hp', hs'⟩ := hd.old y p hy
    obtain ⟨q, hq, hs''⟩ := hp.old y p' hp'
    exact ⟨q, hq, hs'.name.trans hs''.name, hs'.slaveof.trans hs''.slaveof⟩
  obtain ⟨n1, hn1, -⟩ := hp.live x n hx
  obtain ⟨n2, hn2, -⟩ := hd.live x n1 hn1
  obtain ⟨q, hq, hqname, -⟩ := hsame x n2 hn2
  rw [hx, Option.some.injEq] at hq
  have hmy : (delFailureReports cfg env c x).myself = cs.myself := hm
  apply (freeClusterNode_runs (hg.edits he') hn2 _ _ hrm _ _).mono (fun _ h => he'.trans h)
  · rw [hqname, ← hq]
    exact (congrFun ht n.name).trans hname
  · rw [hmy]
    exact hme
  · exact hs
  · rw [hmy]
    apply hrole.imp_left
    intro h me hme'
    obtain ⟨p, hp', -, hpslave⟩ := hsame _ me hme'
    rw [hpslave]
    exact h p hp'

theorem newEpoch_edits (hg : Good k cs) :
    Edits k cs (mapNode { cs with currentEpoch := cs.currentEpoch+1 } cs.myself
      (fun n => { n with configEpoch := cs.currentEpoch+1 })) := by
  have hup : Edit k cs { cs with currentEpoch := cs.currentEpoch+1 } :=
    Edit.epochUp _ (Nat.le_succ _)
  apply (Edits.single hup).tail
  apply Edit.nodeEpoch cs.myself (cs.currentEpoch+1)
  · apply hg.epochs.imp_left
    intro h p hp
    exact (h.known _ p hp).trans (Nat.le_succ _)
  · exact Or.inl (le_refl _)

theorem clusterBumpConfigEpochWithoutConsensus_leads (hg : Good k cs) :
    Leads k (clusterBumpConfigEpochWithoutConsensus cs) (fun r => Edits k cs r.1 ∧
      Pointwise (fun n n' => n'.flags = n.flags) cs r.1) := by
  obtain ⟨me, hme, hd⟩ := hg.deref_me
  unfold clusterBumpConfigEpochWithoutConsensus
  rw [hd, ok_bind]
  split_ifs
  · dsimp only
    have hme' : ({ cs with currentEpoch := cs.currentEpoch+1 } : ClusterState).nodes cs.myself =
        some me := hme
    rw [updateNode_ok hme', ok_bind]
    have hp : Pointwise (fun n n' => n'.flags = n.flags) cs (mapNode cs cs.myself
        (fun n => { n with configEpoch := cs.currentEpoch+1 })) := by
      apply pointwise_mapNode
      · exact fun n => rfl
      · exact fun n _ => rfl
    exact Leads.ok ⟨newEpoch_edits hg, hp.old, hp.live⟩
  · exact Leads.ok ⟨Edits.refl cs, pointwise_of_nodes (fun n => rfl) rfl⟩

theorem clusterHandleConfigEpochCollision_runs (hg : Good k cs) (hx : cs.nodes x = some n) :
    Runs k cs (clusterHandleConfigEpochCollision cs x) := by
  obtain ⟨me, hme, hd⟩ := hg.deref_me
  unfold clusterHandleConfigEpochCollision
  rw [deref_ok hx, ok_bind, hd, ok_bind]
  split_ifs
  · exact Runs.refl
  · exact Runs.refl
  · dsimp only
    have hme' : ({ cs with currentEpoch := cs.currentEpoch+1 } : ClusterState).nodes cs.myself =
        some me := hme
    rw [updateNode_ok hme']
    exact Leads.ok (newEpoch_edits hg)

theorem mapNode_congr {f g : ClusterNode → ClusterNode} (hx : cs.nodes x = some n)
    (h : f n = g n) : mapNode cs x f = mapNode cs x g := by
  rw [← setNode_eq hx, ← setNode_eq hx, h]

theorem unlink_epoch (hx : cs.nodes x = some n) (hp : (unlink cs y).nodes x = some m) :
    m.configEpoch = n.configEpoch := by
  unfold unlink at hp
  split at hp
  · rw [hx, Option.some.injEq] at hp
    rw [hp]
  · rw [mapNode_nodes, hx] at hp
    split_ifs at hp
    · cases hp
      unfold dropSlave
      split_ifs <;> rfl
    · cases hp
      rfl

theorem clusterSetNodeAsMaster_leads (hg : Good k cs) (hx : cs.nodes x = some n)
    (hrole : n.flags.handshake = false ∨ k.role) : Leads k (clusterSetNodeAsMaster cs x) (fun c =>
      Edits k cs c ∧ ∃ n', c.nodes x = some n' ∧ n'.flags.master = true ∧
        n'.configEpoch = n.configEpoch) := by
  unfold clusterSetNodeAsMaster
  rw [deref_ok hx, ok_bind]
  split_ifs with hm
  · exact Leads.ok ⟨Edits.refl cs, n, hx, hm, rfl⟩
  · apply Leads.bind (detachSlave_leads hx (fun y hy => hg.attached hx hy))
    rintro c rfl
    obtain ⟨p, hp⟩ := (alike_unlink cs x).live x n hx
    have hmy : (unlink cs x).myself = cs.myself := (unlink_frame cs x).myself
    rw [hmy, updateNode_ok hp]
    have hf : mapNode (unlink cs x) x (fun m =>
        { m with
          flags := { m.flags with
            slave := false
            master := true
            migrateTo := m.flags.migrateTo || (n.slaveof.isSome && decide (x ≠ cs.myself)) }
          slaveof := none }) = mapNode (unlink cs x) x
        (asMaster (p.flags.migrateTo || (n.slaveof.isSome && decide (x ≠ cs.myself)))) :=
      mapNode_congr hp rfl
    rw [hf]
    have hepoch : p.configEpoch = n.configEpoch := unlink_epoch hx hp
    refine Leads.ok ⟨Edits.single (Edit.promote x _ ?_), _, mapNode_self hp _, rfl, hepoch⟩
    apply hrole.imp_left
    intro h p hp
    rw [hx, Option.some.injEq] at hp
    rw [← hp, h]

theorem clusterSetNodeAsMaster_runs (hg : Good k cs) (hx : cs.nodes x = some n)
    (hrole : n.flags.handshake = false ∨ k.role) : Runs k cs (clusterSetNodeAsMaster cs x) :=
  (clusterSetNodeAsMaster_leads hg hx hrole).mono (fun _ h => h.1)

theorem leaveRole_leads (hg : Good k cs) : Leads k (leaveRole cs) (fun c => c = quitRole cs) := by
  obtain ⟨me, hme, hd⟩ := hg.deref_me
  unfold leaveRole quitRole
  rw [hd, ok_bind, hme, Option.any_some]
  split_ifs
  · rw [updateNode_ok hme]
    exact Leads.ok rfl
  · exact detachSlave_leads hme (fun y hy => hg.attached hme hy)

theorem quitRole_live (cs : ClusterState) (hx : cs.nodes x = some n) :
    ∃ n', (quitRole cs).nodes x = some n' := by
  obtain ⟨n', hn', -⟩ := (quitRole_grown (k := ⟨True, True, True, True, fun _ => False⟩) cs).live x n hx
  exact ⟨n', hn'⟩

theorem clusterSetMaster_runs (hg : Good k cs) (hx : cs.nodes x = some n)
    (hne : x ≠ cs.myself ∨ k.role)
    (hslots : (∀ me, cs.nodes cs.myself = some me → me.numslots = 0) ∨ k.role)
    (hrole : n.flags.handshake = false ∨ k.role) : Runs k cs (clusterSetMaster cs x) := by
  obtain ⟨me, hme, hd⟩ := hg.deref_me
  unfold clusterSetMaster
  by_cases hxme : x = cs.myself
  · rw [if_pos hxme]
    exact Leads.error ⟨by decide, by decide, hne.resolve_left (fun h => h hxme)⟩
  rw [if_neg hxme, hd, ok_bind]
  by_cases hnum : me.numslots = 0
  · rw [if_neg (fun h => h hnum)]
    apply Leads.bind (leaveRole_leads hg)
    rintro c rfl
    obtain ⟨p, hp⟩ := quitRole_live cs hme
    rw [(quitRole_frame _).myself, updateNode_ok hp, ok_bind]
    obtain ⟨q, hq⟩ := quitRole_live cs hx
    obtain ⟨q', hq'⟩ := mapNode_live (x := cs.myself) (fun m => { m with slaveof := some x }) hq
    have hmy : (mapNode (quitRole cs) cs.myself (fun m => { m with slaveof := some x })).myself =
        cs.myself := (quitRole_frame cs).myself
    rw [clusterNodeAddSlave, hmy, updateNode_ok hq', ok_bind]
    apply Leads.ok
    have hf : Edit k cs (mapNode (mapNode (quitRole cs) cs.myself (slaveOf x)) x
        (takeSlave cs.myself)) := by
      apply Edit.follow x hxme ⟨n, hx⟩
      · intro p hp
        rw [hme, Option.some.injEq] at hp
        rw [← hp, hnum]
      · apply hrole.imp_left
        intro h p hp
        rw [hx, Option.some.injEq] at hp
        rw [← hp, h]
    exact (Edits.single hf).tail
      (Edit.aside ⟨rfl, rfl, rfl, rfl, rfl, rfl, rfl, rfl⟩ ⟨rfl, rfl, rfl, rfl⟩ rfl)
  · rw [if_pos hnum]
    refine Leads.error ⟨by decide, by decide, ?_⟩
    apply hslots.resolve_left
    intro h
    exact hnum (h me hme)

theorem Good.no_slots (hg : Good k cs) (hx : cs.nodes x = some n) (hm : n.flags.master = false) :
    n.numslots = 0 ∨ k.role := by
  apply hg.roles.imp_left
  intro h
  rw [hg.toTable.count x n hx, Finset.card_eq_zero, Finset.filter_eq_empty_iff]
  intro j _ hj
  have hmaster := h.owner j x n ((hg.toTable.bit x n hx j).mp hj) hx
  rw [hm] at hmaster
  cases hmaster

theorem yieldsSlot_leads (hg : Good k cs) (j : Slot) (epoch : ℕ) :
    Leads k (yieldsSlot cs j epoch) (fun b => b = true ↔
      ∀ y n, cs.slots j = some y → cs.nodes y = some n → n.configEpoch < epoch) := by
  unfold yieldsSlot
  cases hs : cs.slots j with
  | none =>
    apply Leads.ok
    simp
  | some y =>
    obtain ⟨n, hy⟩ := hg.toTable.owner j y hs
    dsimp only
    rw [deref_ok hy, ok_bind]
    apply Leads.ok
    rw [decide_eq_true_iff]
    constructor
    · intro h z p hz hp
      rw [Option.some.injEq] at hz
      rw [← hz, hy, Option.some.injEq] at hp
      rw [← hp]
      exact h
    · exact fun h => h y n rfl hy

theorem claimSlot_leads {curmaster : Option NodeId} {epoch : ℕ} {slots : Slot → Bool}
    {r : ClusterState × Bool} (hg : Good k r.1) (hx : r.1.nodes x = some n)
    (hk : n.flags.master = true ∨ k.role) (j : Slot) :
    Leads k (claimSlot curmaster x epoch slots r j) (fun r' => Edits k r.1 r'.1 ∧
      Rebound r.1 r'.1 ∧ (r'.2 = true → r.2 = true ∨ r.1.slots j = curmaster)) := by
  unfold claimSlot
  by_cases hskip : slots j = false ∨ r.1.slots j = some x ∨ (r.1.importingSlotsFrom j).isSome
  · rw [if_pos hskip]
    exact Leads.ok ⟨Edits.refl _, Rebound.refl _, Or.inl⟩
  · rw [if_neg hskip]
    apply Leads.bind (yieldsSlot_leads hg j epoch)
    intro b _
    cases b with
    | false =>
      rw [if_neg (by decide)]
      exact Leads.ok ⟨Edits.refl _, Rebound.refl _, Or.inl⟩
    | true =>
      rw [if_pos rfl]
      obtain ⟨c, hc, he, hr, -⟩ := rebindSlot_eq hg hx hk j
      rw [hc, ok_bind]
      refine Leads.ok ⟨he, hr, ?_⟩
      intro h
      rw [Bool.or_eq_true, decide_eq_true_iff] at h
      exact h

theorem claimSlots_leads {curmaster : Option NodeId} {epoch : ℕ} {slots : Slot → Bool}
    (hg : Good k cs) (hx : cs.nodes x = some n) (hk : n.flags.master = true ∨ k.role)
    (l : List Slot) : Leads k (l.foldlM (claimSlot curmaster x epoch slots) (cs, false)) (fun r =>
      Edits k cs r.1 ∧ Rebound cs r.1) := by
  have hloop := Leads.foldlM (k := k) (f := claimSlot curmaster x epoch slots) Prod.fst
    (fun _ r => Rebound cs r.1) ?_ l (cs, false) hg (Rebound.refl cs)
  · exact hloop
  · intro j rest r hgr hr
    obtain ⟨p, hp, hs⟩ := hr.live x n hx
    apply (claimSlot_leads hgr hp (by rw [hs.master]; exact hk) j).mono
    rintro r' ⟨he, hr', -⟩
    exact ⟨he, hr.trans hr'⟩

theorem Good.curmaster (hg : Good k cs) (hme : cs.nodes cs.myself = some n) :
    (∃ c p, (if n.flags.master then some cs.myself else n.slaveof) = some c ∧
      cs.nodes c = some p) ∨ k.role := by
  apply hg.roles.imp_left
  intro h
  by_cases hm : n.flags.master = true
  · rw [if_pos hm]
    exact ⟨_, n, rfl, hme⟩
  · rw [if_neg hm]
    have hslave := (h.oneRole _ n hme).slave_of (h.joined n hme) (Bool.eq_false_iff.mpr hm)
    obtain ⟨y, hy⟩ := h.follows n hme hslave
    obtain ⟨m, hm', -⟩ := h.attached _ n y hme hy
    exact ⟨y, m, hy, hm'⟩

theorem followNewMaster_runs (cfg : ClusterConfig) {cur : Option NodeId} {r : ClusterState × Bool}
    (hg : Good k r.1) (hx : r.1.nodes x = some n) (hme : x ≠ r.1.myself)
    (hrole : n.flags.handshake = false ∨ k.role)
    (hcur : (∃ c p, cur = some c ∧ r.1.nodes c = some p ∧
      (p.numslots = 0 → ∀ me, r.1.nodes r.1.myself = some me → me.numslots = 0)) ∨ k.role) :
    Runs k r.1 (followNewMaster cfg cur x r) := by
  unfold followNewMaster
  by_cases hmod : cfg.moduleNoRedirection = true
  · rw [if_pos hmod]
    exact Runs.refl
  rw [if_neg hmod]
  by_cases hnew : r.2 = true
  · rw [if_pos hnew]
    cases cur with
    | none =>
      refine Leads.error ⟨by decide, by decide, hcur.resolve_left ?_⟩
      rintro ⟨c, p, h, -⟩
      cases h
    | some c =>
      dsimp only
      have hlive : (∃ q, r.1.nodes c = some q) ∨ k.role := by
        apply hcur.imp_left
        rintro ⟨c', p, h, hp, -⟩
        cases h
        exact ⟨p, hp⟩
      apply Leads.bind (deref_leads hlive)
      intro q hq
      by_cases hnum : q.numslots = 0
      · rw [if_pos hnum]
        apply clusterSetMaster_runs hg hx (Or.inl hme) _ hrole
        apply hcur.imp_left
        rintro ⟨c', p, h, hp, h0⟩
        cases h
        rw [hq, Option.some.injEq] at hp
        exact h0 (by rw [← hp, hnum])
      · rw [if_neg hnum]
        exact Runs.refl
  · rw [if_neg hnew]
    exact Runs.refl

theorem clusterUpdateSlotsConfigWith_runs (cfg : ClusterConfig) (epoch : ℕ) (slots : Slot → Bool)
    (hg : Good k cs) (hx : cs.nodes x = some n) (hk : n.flags.master = true ∨ k.role) :
    Runs k cs (clusterUpdateSlotsConfigWith cfg cs x epoch slots) := by
  obtain ⟨me, hme, hd⟩ := hg.deref_me
  unfold clusterUpdateSlotsConfigWith
  rw [hd, ok_bind]
  dsimp only
  by_cases hxme : x = cs.myself
  · rw [if_pos hxme]
    exact Runs.refl
  rw [if_neg hxme]
  apply Leads.bind (claimSlots_leads hg hx hk _)
  rintro r ⟨he, hr⟩
  have hgr := hg.edits he
  obtain ⟨p, hp, hs⟩ := hr.live x n hx
  obtain ⟨me', hme', hs'⟩ := hr.live _ me hme
  rw [← hr.myself] at hme'
  apply (followNewMaster_runs cfg hgr hp _ _ _).mono (fun _ h => he.trans h)
  · rw [hr.myself]
    exact hxme
  · rcases hgr.roles with h | h
    · apply hk.imp_left
      intro hmaster
      exact (h.oneRole x p hp).joined (by rw [hs.master, hmaster])
    · exact Or.inr h
  · rcases hg.curmaster hme with ⟨c, q, hc, hq⟩ | hrole
    · obtain ⟨q', hq', -⟩ := hr.live c q hq
      -- either this node is the one that lost its last slot, or it is a slave without slots
      by_cases hm : me.flags.master = true
      · rw [if_pos hm] at hc ⊢
        cases hc
        refine Or.inl ⟨_, q', rfl, hq', ?_⟩
        intro h0 p' hp'
        rw [hr.myself, hq', Option.some.injEq] at hp'
        rw [← hp', h0]
      · have hno := hgr.no_slots hme' (by rw [hs'.master]; exact Bool.eq_false_iff.mpr hm)
        apply hno.imp_left
        intro h0
        refine ⟨c, q', hc, hq', ?_⟩
        intro _ p' hp'
        rw [hme', Option.some.injEq] at hp'
        rw [← hp', h0]
    · exact Or.inr hrole

end RedisCore.Cluster
