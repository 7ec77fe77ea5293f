import RedisCore.ClusterRuns

namespace RedisCore.Cluster

variable {k : Slack} {cs cs' cs'' : ClusterState} {x y : NodeId} {n m : ClusterNode} {j : Slot}
variable {cfg : ClusterConfig} {env : Env} {e : ℕ}

structure Loading (cs : ClusterState) : Prop extends Table cs where
  all : ∀ x n, cs.nodes x = some n → cs.table n.name = some x
  unlinked : ∀ x n, cs.nodes x = some n → n.link = false
  election : cs.failoverAuthEpoch = 0
  silent : cs.out = []

structure SameRecord (n n' : ClusterNode) : Prop where
  name : n'.name = n.name
  epoch : n'.configEpoch = n.configEpoch
  handshake : n'.flags.handshake = n.flags.handshake
  mine : n'.flags.myself = n.flags.myself

theorem SameRecord.refl (n : ClusterNode) : SameRecord n n := ⟨rfl, rfl, rfl, rfl⟩

theorem SameRecord.trans {n n' n'' : ClusterNode} (h : SameRecord n n') (h' : SameRecord n' n'') :
    SameRecord n n'' :=
  ⟨h'.name.trans h.name, h'.epoch.trans h.epoch, h'.handshake.trans h.handshake, h'.mine.trans h.mine⟩

structure Carries (cs cs' : ClusterState) : Prop where
  kept : ∀ x n, cs.nodes x = some n → ∃ n', cs'.nodes x = some n' ∧ SameRecord n n'
  old : ∀ x n', cs'.nodes x = some n' → (∃ n, cs.nodes x = some n ∧ SameRecord n n') ∨
    (n'.flags.handshake = false ∧ n'.flags.myself = false)
  table : ∀ name x, cs.table name = some x → cs'.table name = some x

theorem Carries.of_pointwise (h : Pointwise SameRecord cs cs') (ht : cs'.table = cs.table) :
    Carries cs cs' :=
  ⟨h.live, fun x n' hn' => Or.inl (h.old x n' hn'), fun name x hx => by rw [ht]; exact hx⟩

theorem Carries.refl (cs : ClusterState) : Carries cs cs :=
  Carries.of_pointwise (pointwise_of_nodes SameRecord.refl rfl) rfl

theorem Carries.trans (h : Carries cs cs') (h' : Carries cs' cs'') : Carries cs cs'' := by
  refine ⟨?_, ?_, fun name x hx => h'.table name x (h.table name x hx)⟩
  · intro x n hx
    obtain ⟨n', hn', hs⟩ := h.kept x n hx
    obtain ⟨n'', hn'', hs'⟩ := h'.kept x n' hn'
    exact ⟨n'', hn'', hs.trans hs'⟩
  · intro x n'' hx
    rcases h'.old x n'' hx with ⟨n', hn', hs'⟩ | hnew
    · rcases h.old x n' hn' with ⟨n, hn, hs⟩ | ⟨hh, hm⟩
      · exact Or.inl ⟨n, hn, hs.trans hs'⟩
      · exact Or.inr ⟨hs'.handshake.trans hh, hs'.mine.trans hm⟩
    · exact Or.inr hnew

theorem Loading.join (hl : Loading cs) (hn : Newborn n) (hlink : n.link = false)
    (hname : clusterLookupNode cs n.name = none) :
    Loading { setNode cs cs.fresh n with
      table := Function.update cs.table n.name (some cs.fresh), fresh := cs.fresh+1 } := by
  refine ⟨hl.toTable.join hn hname, ?_, ?_, hl.election, hl.silent⟩
  · intro y p hy
    show Function.update cs.table n.name (some cs.fresh) p.name = some y
    have hy' : (setNode cs cs.fresh n).nodes y = some p := hy
    rw [setNode_nodes] at hy'
    by_cases hyx : y = cs.fresh
    · rw [if_pos hyx, Option.some.injEq] at hy'
      rw [← hy', Function.update_self, hyx]
    · rw [if_neg hyx] at hy'
      have hp := hl.all y p hy'
      rw [Function.update_of_ne, hp]
      intro heq
      rw [heq] at hp
      rw [clusterLookupNode, hp] at hname
      cases hname
  · intro y p hy
    have hy' : (setNode cs cs.fresh n).nodes y = some p := hy
    rw [setNode_nodes] at hy'
    by_cases hyx : y = cs.fresh
    · rw [if_pos hyx, Option.some.injEq] at hy'
      rw [← hy', hlink]
    · rw [if_neg hyx] at hy'
      exact hl.unlinked y p hy'

variable {f : ClusterNode → ClusterNode} {r : Except ClusterFault ClusterState} {st : LoadState}

theorem Loading.map (hl : Loading cs)
    (hf : ∀ n, (f n).name = n.name ∧ (f n).slots = n.slots ∧ (f n).numslots = n.numslots ∧
      (f n).link = n.link) : Loading (mapNode cs x f) := by
  have hold : ∀ y p, (mapNode cs x f).nodes y = some p → ∃ q, cs.nodes y = some q ∧
      p.name = q.name ∧ p.slots = q.slots ∧ p.numslots = q.numslots ∧ p.link = q.link := by
    intro y p hy
    rw [mapNode_nodes] at hy
    by_cases hyx : y = x
    · rw [if_pos hyx, Option.map_eq_some_iff] at hy
      obtain ⟨q, hq, rfl⟩ := hy
      exact ⟨q, hq, hf q⟩
    · rw [if_neg hyx] at hy
      exact ⟨p, hy, rfl, rfl, rfl, rfl⟩
  have hlive : ∀ y, (∃ p, cs.nodes y = some p) → ∃ p, (mapNode cs x f).nodes y = some p := by
    rintro y ⟨p, hp⟩
    exact mapNode_live f hp
  refine ⟨⟨?_, ?_, ?_, ?_, ?_, ?_, ?_, ?_⟩, ?_, ?_, hl.election, hl.silent⟩
  · intro y p hy i
    obtain ⟨q, hq, -, hs, -⟩ := hold y p hy
    rw [hs]
    exact hl.bit y q hq i
  · exact fun i y hi => hlive y (hl.owner i y hi)
  · intro y p hy
    obtain ⟨q, hq, -, hs, hnum, -⟩ := hold y p hy
    rw [hs, hnum]
    exact hl.count y q hq
  · exact fun i y hi => hlive y (hl.importing i y hi)
  · exact fun i y hi => hlive y (hl.migrating i y hi)
  · intro name y hy
    obtain ⟨q, hq, hname⟩ := hl.listed name y hy
    obtain ⟨p, hp⟩ := hlive y ⟨q, hq⟩
    obtain ⟨q', hq', heq, -⟩ := hold y p hp
    rw [hq, Option.some.injEq] at hq'
    exact ⟨p, hp, by rw [heq, ← hq', hname]⟩
  · intro y p hy _
    obtain ⟨q, hq, hname, -⟩ := hold y p hy
    show cs.table p.name = some y
    rw [hname]
    exact hl.all y q hq
  · intro y p hy
    obtain ⟨q, hq, -⟩ := hold y p hy
    exact hl.bound y q hq
  · intro y p hy
    obtain ⟨q, hq, hname, -⟩ := hold y p hy
    show cs.table p.name = some y
    rw [hname]
    exact hl.all y q hq
  · intro y p hy
    obtain ⟨q, hq, -, -, -, hlink⟩ := hold y p hy
    rw [hlink]
    exact hl.unlinked y q hq

variable (env) in
theorem lookupOrCreate_spec (hl : Loading cs) (name : NodeName) :
    Loading (lookupOrCreate env cs name).1 ∧ Carries cs (lookupOrCreate env cs name).1 ∧
      (lookupOrCreate env cs name).1.table name = some (lookupOrCreate env cs name).2 ∧
      ∃ n, (lookupOrCreate env cs name).1.nodes (lookupOrCreate env cs name).2 = some n := by
  unfold lookupOrCreate
  cases h : clusterLookupNode cs name with
  | some x =>
    obtain ⟨n, hn, -⟩ := hl.listed name x h
    exact ⟨hl, Carries.refl cs, h, n, hn⟩
  | none =>
    dsimp only
    have hadd : clusterAddNode cs (createClusterNode name noFlags env.now) =
        { setNode cs cs.fresh (createClusterNode name noFlags env.now) with
          table := Function.update cs.table name (some cs.fresh), fresh := cs.fresh+1 } := by
      unfold clusterAddNode
      rw [if_neg]
      · rfl
      · show ¬ (clusterLookupNode cs name).isSome = true
        rw [h]
        decide
    rw [hadd]
    refine ⟨hl.join ⟨rfl, rfl, rfl, rfl, rfl⟩ rfl h, ?_, Function.update_self _ _ _, ?_⟩
    · refine ⟨?_, ?_, ?_⟩
      · intro y p hy
        refine ⟨p, ?_, SameRecord.refl p⟩
        show (setNode cs cs.fresh _).nodes y = some p
        rw [setNode_nodes, if_neg (ne_of_lt (hl.bound y p hy)), hy]
      · intro y p hy
        have hy' : (setNode cs cs.fresh (createClusterNode name noFlags env.now)).nodes y = some p := hy
        rw [setNode_nodes] at hy'
        split_ifs at hy'
        · rw [Option.some.injEq] at hy'
          rw [← hy']
          exact Or.inr ⟨rfl, rfl⟩
        · exact Or.inl ⟨p, hy', SameRecord.refl p⟩
      · intro name' y hy
        show Function.update cs.table name (some cs.fresh) name' = some y
        rw [Function.update_of_ne, hy]
        rintro rfl
        rw [clusterLookupNode, hy] at h
        cases h
    · refine ⟨createClusterNode name noFlags env.now, ?_⟩
      show (setNode cs cs.fresh _).nodes cs.fresh = _
      rw [setNode_nodes, if_pos rfl]

theorem Loading.slotState (hl : Loading cs) {mig imp : Slot → Option NodeId}
    (hm : ∀ j x, mig j = some x → ∃ n, cs.nodes x = some n)
    (hi : ∀ j x, imp j = some x → ∃ n, cs.nodes x = some n) :
    Loading { cs with migratingSlotsTo := mig, importingSlotsFrom := imp } :=
  ⟨hl.toTable.slotState hm hi, hl.all, hl.unlinked, hl.election, hl.silent⟩

theorem loadAddSlot (hl : Loading cs) (hx : cs.nodes x = some n) (j : Slot) :
    ∃ r, clusterAddSlot cs x j = .ok r ∧ Loading r.1 ∧ Carries cs r.1 := by
  cases hs : cs.slots j with
  | some y => exact ⟨_, clusterAddSlot_busy hs, hl, Carries.refl cs⟩
  | none =>
    obtain ⟨n', hadd, hn', hlink⟩ := clusterAddSlot_table hl.toTable hx hs
    refine ⟨_, hadd, ⟨?_, ?_, ?_, hl.election, hl.silent⟩, ?_⟩
    · exact hl.toTable.bindSlot hx hs hn'.name hn'.handshake hn'.slots hn'.numslots
    · intro y p hy
      have hy' : (setNode cs x n').nodes y = some p := hy
      rw [setNode_nodes] at hy'
      by_cases hyx : y = x
      · rw [if_pos hyx, Option.some.injEq] at hy'
        show cs.table p.name = some y
        rw [← hy', hn'.name, hyx]
        exact hl.all x n hx
      · rw [if_neg hyx] at hy'
        exact hl.all y p hy'
    · intro y p hy
      have hy' : (setNode cs x n').nodes y = some p := hy
      rw [setNode_nodes] at hy'
      by_cases hyx : y = x
      · rw [if_pos hyx, Option.some.injEq] at hy'
        rw [← hy', hlink, hl.unlinked x n hx]
      · rw [if_neg hyx] at hy'
        exact hl.unlinked y p hy'
    · have hrec : SameRecord n n' := ⟨hn'.name, hn'.epoch, hn'.handshake, hn'.mine⟩
      exact Carries.of_pointwise (pointwise_setNode SameRecord.refl hx hrec rfl) rfl

def Loads (cs : ClusterState) (r : Except ClusterFault ClusterState) : Prop :=
  ReturnsOr .badConfig r (fun c => Loading c ∧ Carries cs c)

theorem Loads.ok (hl : Loading cs') (hc : Carries cs cs') : Loads cs (.ok cs') := ⟨hl, hc⟩

theorem Loads.bind {f : ClusterState → Except ClusterFault ClusterState} (h : Loads cs r)
    (hf : ∀ c, Loading c → Carries cs c → Loads c (f c)) : Loads cs (r >>= f) := by
  apply ReturnsOr.bind h
  rintro c ⟨hl, hc⟩
  apply (hf c hl hc).mono
  rintro c' ⟨hl', hc'⟩
  exact ⟨hl', hc.trans hc'⟩

theorem Loads.after (hc : Carries cs cs') (h : Loads cs' r) : Loads cs r := by
  apply h.mono
  rintro c ⟨hl, hc'⟩
  exact ⟨hl, hc.trans hc'⟩

theorem Loads.forSlots {f : ClusterState → Slot → Except ClusterFault ClusterState}
    (hl : Loading cs) (hf : ∀ c j, Loading c → Carries cs c → Loads c (f c j)) :
    Loads cs (forSlots f cs) := by
  have step : ∀ c j, Loading c ∧ Carries cs c →
      ReturnsOr .badConfig (f c j) (fun c => Loading c ∧ Carries cs c) := by
    rintro c j ⟨hlc, hc⟩
    exact (hf c j hlc hc).after hc
  have hloop := ReturnsOr.foldlM step
  unfold Loads Cluster.forSlots
  generalize List.finRange 16384 = l
  exact hloop l cs ⟨hl, Carries.refl cs⟩

theorem Loads.returns {α : Type} {P : α → Prop} {f : ClusterState → Except ClusterFault α}
    (h : Loads cs r)
    (hf : ∀ c, Loading c → Carries cs c → ReturnsOr .badConfig (f c) P) :
    ReturnsOr .badConfig (r >>= f) P := by
  apply ReturnsOr.bind h
  rintro c ⟨hl, hc⟩
  exact hf c hl hc

-- an outcome is not looked into: some are those of loops over all slots
attribute [irreducible] Loads

variable (env) in
theorem loadMigrating (hl : Loading cs) (name : NodeName) (j : Slot) :
    Loading { (lookupOrCreate env cs name).1 with
        migratingSlotsTo := Function.update (lookupOrCreate env cs name).1.migratingSlotsTo j
          (some (lookupOrCreate env cs name).2) } ∧
      Carries cs { (lookupOrCreate env cs name).1 with
        migratingSlotsTo := Function.update (lookupOrCreate env cs name).1.migratingSlotsTo j
          (some (lookupOrCreate env cs name).2) } := by
  obtain ⟨h, hc, -, n, hn⟩ := lookupOrCreate_spec env hl name
  refine ⟨h.slotState (update_live h.migrating ?_ j) h.importing, hc.kept, hc.old, hc.table⟩
  intro y hy
  rw [Option.some.injEq] at hy
  exact ⟨n, hy ▸ hn⟩

variable (env) in
theorem loadImporting (hl : Loading cs) (name : NodeName) (j : Slot) :
    Loading { (lookupOrCreate env cs name).1 with
        importingSlotsFrom := Function.update (lookupOrCreate env cs name).1.importingSlotsFrom j
          (some (lookupOrCreate env cs name).2) } ∧
      Carries cs { (lookupOrCreate env cs name).1 with
        importingSlotsFrom := Function.update (lookupOrCreate env cs name).1.importingSlotsFrom j
          (some (lookupOrCreate env cs name).2) } := by
  obtain ⟨h, hc, -, n, hn⟩ := lookupOrCreate_spec env hl name
  refine ⟨h.slotState h.migrating (update_live h.importing ?_ j), hc.kept, hc.old, hc.table⟩
  intro y hy
  rw [Option.some.injEq] at hy
  exact ⟨n, hy ▸ hn⟩

theorem loadSlot_loads (hl : Loading cs) (hx : cs.nodes x = some n) (line : NodeLine) (j : Slot) :
    Loads cs (loadSlot env line x cs j) := by
  have hbind : ∀ c, Loading c → Carries cs c →
      Loads cs (if line.slots j then do
        let r ← clusterAddSlot c x j
        .ok r.1
      else .ok c) := by
    intro c hlc hc
    split_ifs
    · obtain ⟨n', hn', -⟩ := hc.kept x n hx
      obtain ⟨r, hr, hl', hc'⟩ := loadAddSlot hlc hn' j
      rw [hr]
      exact Loads.ok hl' (hc.trans hc')
    · exact Loads.ok hlc hc
  unfold loadSlot
  cases line.migrating j with
  | none =>
    cases line.importing j with
    | none => exact hbind cs hl (Carries.refl cs)
    | some from' =>
      obtain ⟨h, hc⟩ := loadImporting env hl from' j
      exact hbind _ h hc
  | some target =>
    obtain ⟨h, hc⟩ := loadMigrating env hl target j
    cases line.importing j with
    | none => exact hbind _ h hc
    | some from' =>
      obtain ⟨h', hc'⟩ := loadImporting env h from' j
      exact hbind _ h' (hc.trans hc')

variable (env) in
theorem loadSlots_loads (hl : Loading cs) (hx : cs.nodes x = some n) (line : NodeLine) :
    Loads cs (forSlots (loadSlot env line x) cs) := by
  apply Loads.forSlots hl
  intro c j hlc hc
  obtain ⟨n', hn', -⟩ := hc.kept x n hx
  exact loadSlot_loads hlc hn' line j

theorem updateNode_loads (hl : Loading cs) (hx : cs.nodes x = some n)
    (hf : ∀ n, (f n).name = n.name ∧ (f n).slots = n.slots ∧ (f n).numslots = n.numslots ∧
      (f n).link = n.link) (hr : ∀ n, SameRecord n (f n)) :
    Loads cs (updateNode cs x f) := by
  rw [updateNode_ok hx]
  exact Loads.ok (hl.map hf)
    (Carries.of_pointwise (pointwise_mapNode SameRecord.refl (fun n _ => hr n)) rfl)

theorem loadMaster_loads (hl : Loading cs) (hx : cs.nodes x = some n) (slaveof : Option NodeName) :
    Loads cs (loadMaster env cs x slaveof) := by
  unfold loadMaster
  cases slaveof with
  | none => exact Loads.ok hl (Carries.refl cs)
  | some name =>
    dsimp only
    obtain ⟨h, hc, -, m, hm⟩ := lookupOrCreate_spec env hl name
    generalize lookupOrCreate env cs name = r at h hc hm
    obtain ⟨n1, hn1, -⟩ := hc.kept x n hx
    have hslave : Loads r.1 (updateNode r.1 x (fun n => { n with slaveof := some r.2 })) :=
      updateNode_loads h hn1 (fun n => ⟨rfl, rfl, rfl, rfl⟩) (fun n => ⟨rfl, rfl, rfl, rfl⟩)
    apply Loads.after hc
    apply hslave.bind
    intro c hlc hcc
    obtain ⟨m', hm', -⟩ := hcc.kept r.2 m hm
    apply updateNode_loads hlc hm'
    · intro p
      split_ifs <;> exact ⟨rfl, rfl, rfl, rfl⟩
    · intro p
      split_ifs <;> exact ⟨rfl, rfl, rfl, rfl⟩

structure LineRead (line : NodeLine) (x : NodeId) (st st' : LoadState) : Prop where
  loading : Loading st'.cs
  named : st'.cs.table line.name = some x
  table : ∀ name y, st.cs.table name = some y → st'.cs.table name = some y
  record : ∃ n', st'.cs.nodes x = some n' ∧ n'.configEpoch = line.configEpoch ∧
    (line.flags.myself = true → n'.flags.myself = true)
  kept : ∀ y n, st.cs.nodes y = some n → ∃ n', st'.cs.nodes y = some n' ∧
    (n.flags.myself = true → n'.flags.myself = true) ∧
    (y ≠ x → n'.configEpoch = n.configEpoch)
  old : ∀ y n', st'.cs.nodes y = some n' →
    (n'.flags.handshake = true → (y = x ∧ line.flags.handshake = true) ∨
      ∃ n, st.cs.nodes y = some n ∧ n.flags.handshake = true) ∧
    (n'.flags.myself = true → (y = x ∧ line.flags.myself = true) ∨
      ∃ n, st.cs.nodes y = some n ∧ n.flags.myself = true ∧ n'.name = n.name)
  mine : st'.myself = if line.flags.myself then some x else st.myself

theorem loadLine_read (h : Loading st.cs) (line : NodeLine) :
    ReturnsOr .badConfig (loadLine env st line) (fun st' => ∃ x, LineRead line x st st') := by
  unfold loadLine
  dsimp only
  obtain ⟨hl, hc, hname, n, hn⟩ := lookupOrCreate_spec env h line.name
  generalize lookupOrCreate env st.cs line.name = r at hl hc hname hn
  by_cases htwice : line.flags.myself = true ∧ st.myself.isSome = true
  · rw [if_pos htwice]
    exact (returnsOr_error _).mpr rfl
  rw [if_neg htwice]
  obtain ⟨f, hf, hsame, hmine, hhand⟩ : ∃ f : ClusterNode → ClusterNode,
      (fun n : ClusterNode => { n with
        addr := line.addr
        flags := n.flags.or { line.flags with meet := false, migrateTo := false }
        failTime := if line.flags.fail then env.now else n.failTime }) = f ∧
      (∀ p, (f p).name = p.name ∧ (f p).slots = p.slots ∧ (f p).numslots = p.numslots ∧
        (f p).link = p.link) ∧
      (∀ p, (f p).flags.myself = (p.flags.myself || line.flags.myself)) ∧
      ∀ p, (f p).flags.handshake = (p.flags.handshake || line.flags.handshake) :=
    ⟨_, rfl, fun p => ⟨rfl, rfl, rfl, rfl⟩, fun p => rfl, fun p => rfl⟩
  rw [hf, updateNode_ok hn, ok_bind]
  have hl1 := hl.map (x := r.2) hsame
  have hn1 := mapNode_self hn f
  apply (loadMaster_loads hl1 hn1 line.slaveof).returns
  intro c2 hl2 hc2
  obtain ⟨n2, hn2, hr2⟩ := hc2.kept r.2 _ hn1
  rw [updateNode_ok hn2, ok_bind]
  have hl3 : Loading (mapNode c2 r.2 (fun n => { n with configEpoch := line.configEpoch })) :=
    hl2.map (fun n => ⟨rfl, rfl, rfl, rfl⟩)
  have hn3 := mapNode_self hn2 (fun n => { n with configEpoch := line.configEpoch })
  have hslots := loadSlots_loads env hl3 hn3 line
  generalize forSlots (loadSlot env line r.2) = g at hslots
  apply hslots.returns
  intro c4 hl4 hc4
  obtain ⟨n4, hn4, hr4⟩ := hc4.kept r.2 _ hn3
  apply (returnsOr_ok _).mpr
  have htable : ∀ name y, r.1.table name = some y → c4.table name = some y :=
    fun name y hy => hc4.table name y (hc2.table name y hy)
  refine ⟨r.2, hl4, htable _ _ hname, fun name y hy => htable name y (hc.table name y hy), ?_, ?_, ?_,
    rfl⟩
  · refine ⟨n4, hn4, hr4.epoch, ?_⟩
    intro hm
    rw [hr4.mine]
    show n2.flags.myself = true
    rw [hr2.mine, hmine, hm, Bool.or_true]
  · intro y p hy
    obtain ⟨p0, hp0, hr0⟩ := hc.kept y p hy
    by_cases hyx : y = r.2
    · subst hyx
      refine ⟨n4, hn4, ?_, fun hne => absurd rfl hne⟩
      intro hm
      rw [hn, Option.some.injEq] at hp0
      rw [hr4.mine]
      show n2.flags.myself = true
      rw [hr2.mine, hmine, hp0, hr0.mine, hm, Bool.true_or]
    · have hp1 : (mapNode r.1 r.2 f).nodes y = some p0 := by
        rw [mapNode_nodes, if_neg hyx, hp0]
      obtain ⟨p2, hp2, hs2⟩ := hc2.kept y p0 hp1
      have hp3 : (mapNode c2 r.2 (fun n => { n with configEpoch := line.configEpoch })).nodes y =
          some p2 := by
        rw [mapNode_nodes, if_neg hyx, hp2]
      obtain ⟨p4, hp4, hs4⟩ := hc4.kept y p2 hp3
      have hs := (hr0.trans hs2).trans hs4
      exact ⟨p4, hp4, fun hm => hs.mine.trans hm, fun _ => hs.epoch⟩
  · intro y p hy
    -- a node that was not mentioned before is nobody in particular
    have hfresh : p.flags.handshake = false → p.flags.myself = false →
        (p.flags.handshake = true → (y = r.2 ∧ line.flags.handshake = true) ∨
          ∃ n, st.cs.nodes y = some n ∧ n.flags.handshake = true) ∧
        (p.flags.myself = true → (y = r.2 ∧ line.flags.myself = true) ∨
          ∃ n, st.cs.nodes y = some n ∧ n.flags.myself = true ∧ p.name = n.name) := by
      intro hh hm
      rw [hh, hm]
      exact ⟨fun h => absurd h Bool.false_ne_true, fun h => absurd h Bool.false_ne_true⟩
    rcases hc4.old y p hy with ⟨p3, hp3, hs4⟩ | ⟨hh, hm⟩
    · by_cases hyx : y = r.2
      · rw [hyx, hn3, Option.some.injEq] at hp3
        have hs2 : p.name = n2.name ∧ p.flags.handshake = n2.flags.handshake ∧
            p.flags.myself = n2.flags.myself := by
          rw [hs4.name, hs4.handshake, hs4.mine, ← hp3]
          exact ⟨rfl, rfl, rfl⟩
        obtain ⟨hpn, hph, hpm⟩ := hs2
        rw [hph, hpm, hpn, hr2.handshake, hr2.mine, hr2.name, hhand, hmine, (hsame n).1,
          Bool.or_eq_true, Bool.or_eq_true]
        rcases hc.old r.2 n hn with ⟨n0, hn0, hr0⟩ | ⟨hh, hm⟩
        · rw [hr0.handshake, hr0.mine, hr0.name, hyx]
          refine ⟨?_, ?_⟩
          · rintro (h | h)
            · exact Or.inr ⟨n0, hn0, h⟩
            · exact Or.inl ⟨rfl, h⟩
          · rintro (h | h)
            · exact Or.inr ⟨n0, hn0, h, rfl⟩
            · exact Or.inl ⟨rfl, h⟩
        · rw [hh, hm]
          exact ⟨fun h => Or.inl ⟨hyx, h.resolve_left Bool.false_ne_true⟩,
            fun h => Or.inl ⟨hyx, h.resolve_left Bool.false_ne_true⟩⟩
      · rw [mapNode_nodes, if_neg hyx] at hp3
        rcases hc2.old y p3 hp3 with ⟨p1, hp1, hs2⟩ | ⟨hh, hm⟩
        · rw [mapNode_nodes, if_neg hyx] at hp1
          rcases hc.old y p1 hp1 with ⟨n0, hn0, hr0⟩ | ⟨hh, hm⟩
          · have hs := (hr0.trans hs2).trans hs4
            rw [hs.handshake, hs.mine, hs.name]
            exact ⟨fun h => Or.inr ⟨n0, hn0, h⟩, fun h => Or.inr ⟨n0, hn0, h, rfl⟩⟩
          · have hs := hs2.trans hs4
            exact hfresh (hs.handshake.trans hh) (hs.mine.trans hm)
        · exact hfresh (hs4.handshake.trans hh) (hs4.mine.trans hm)
    · exact hfresh hh hm

structure Loaded (st : LoadState) : Prop where
  loading : Loading st.cs
  mine : ∀ x, st.myself = some x → ∃ n, st.cs.nodes x = some n ∧ n.flags.myself = true

theorem LineRead.loaded {st' : LoadState} {line : NodeLine} (h : LineRead line x st st')
    (hl : Loaded st) : Loaded st' := by
  refine ⟨h.loading, ?_⟩
  intro y hy
  rw [h.mine] at hy
  by_cases hm : line.flags.myself = true
  · -- this line is the one of the node itself
    rw [if_pos hm, Option.some.injEq] at hy
    obtain ⟨n', hn', -, hmine⟩ := h.record
    exact ⟨n', hy ▸ hn', hmine hm⟩
  · rw [if_neg hm] at hy
    obtain ⟨n, hn, hmine⟩ := hl.mine y hy
    obtain ⟨n', hn', hkept, -⟩ := h.kept y n hn
    exact ⟨n', hn', hkept hmine⟩

variable (env) in
theorem loadLine_loaded (h : Loaded st) (line : NodeLine) :
    ReturnsOr .badConfig (loadLine env st line) Loaded := by
  apply (loadLine_read h.loading line).mono
  rintro st' ⟨x, hread⟩
  exact hread.loaded h

theorem le_foldl_max {ι : Type} (f : ι → ℕ) : ∀ (l : List ι) (e : ℕ),
    e ≤ l.foldl (fun m i => max m (f i)) e ∧ ∀ i ∈ l, f i ≤ l.foldl (fun m i => max m (f i)) e := by
  intro l
  induction l with
  | nil =>
    intro e
    exact ⟨le_refl e, fun i hi => absurd hi (List.not_mem_nil)⟩
  | cons i l ih =>
    intro e
    rw [List.foldl_cons]
    obtain ⟨h1, h2⟩ := ih (max e (f i))
    refine ⟨(le_max_left _ _).trans h1, ?_⟩
    intro i' hi'
    rcases List.mem_cons.mp hi' with rfl | hi'
    · exact (le_max_right _ _).trans h1
    · exact h2 i' hi'

theorem mem_nodeIds : x ∈ nodeIds cs ↔ x < cs.fresh ∧ ∃ n, cs.nodes x = some n ∧
    cs.table n.name = some x := by
  rw [nodeIds, List.mem_filter, List.mem_range, Option.any_eq_true]
  simp only [decide_eq_true_eq]

theorem le_clusterGetMaxEpoch (cs : ClusterState) : cs.currentEpoch ≤ clusterGetMaxEpoch cs ∧
    ∀ x n, x ∈ nodeIds cs → cs.nodes x = some n → n.configEpoch ≤ clusterGetMaxEpoch cs := by
  obtain ⟨h1, h2⟩ := le_foldl_max (fun x => (cs.nodes x).elim 0 ClusterNode.configEpoch)
    (nodeIds cs) cs.currentEpoch
  refine ⟨h1, ?_⟩
  intro x n hx hn
  have h := h2 x hx
  rw [hn] at h
  exact h

structure Started (cs : ClusterState) : Prop extends View cs where
  own : ∀ me, cs.nodes cs.myself = some me → me.flags.myself = true ∧ me.link = false
  epochs : Epochs cs
  silent : cs.out = []

theorem Started.good (h : Started cs) (hr : Roles cs ∨ k.role) : Good k cs :=
  ⟨h.toView, h.own, hr, Or.inl h.epochs⟩

theorem Started.of_loading (hl : Loading cs) (hx : cs.nodes x = some n)
    (hm : n.flags.myself = true) (he : ∀ y p, cs.nodes y = some p → p.configEpoch ≤ e) (v : ℕ) :
    Started { cs with myself := x, currentEpoch := e, lastVoteEpoch := v } := by
  have ht := hl.toTable
  refine ⟨⟨⟨ht.bit, ht.owner, ht.count, ht.importing, ht.migrating, ht.listed, ht.handshake,
    ht.bound⟩, n, hx⟩, ?_, ⟨he, ?_⟩, hl.silent⟩
  · intro me hme
    have hme' : cs.nodes x = some me := hme
    rw [hx, Option.some.injEq] at hme'
    rw [← hme']
    exact ⟨hm, hl.unlinked x n hx⟩
  · show cs.failoverAuthEpoch ≤ e
    rw [hl.election]
    exact Nat.zero_le _

theorem emptyCluster_loading : Loading emptyCluster := by
  have hn : ∀ x n, emptyCluster.nodes x = some n → False := by
    intro x n h
    cases h
  have hs : ∀ (j : Slot) (x : NodeId), emptyCluster.slots j = some x → False := by
    intro j x h
    cases h
  refine ⟨⟨?_, ?_, ?_, ?_, ?_, ?_, ?_, ?_⟩, ?_, ?_, rfl, rfl⟩
  · exact fun x n h => (hn x n h).elim
  · exact fun j x h => (hs j x h).elim
  · exact fun x n h => (hn x n h).elim
  · exact fun j x h => (hs j x h).elim
  · exact fun j x h => (hs j x h).elim
  · intro name x h
    cases h
  · exact fun x n h => (hn x n h).elim
  · exact fun x n h => (hn x n h).elim
  · exact fun x n h => (hn x n h).elim
  · exact fun x n h => (hn x n h).elim

theorem emptyCluster_loaded : Loaded ⟨emptyCluster, none⟩ := by
  refine ⟨emptyCluster_loading, ?_⟩
  intro x h
  cases h

theorem clusterLoadConfig_started (conf : NodesConf) :
    ReturnsOr .badConfig (clusterLoadConfig env conf) Started := by
  have hlines := ReturnsOr.foldlM (fun st line h => loadLine_loaded env h line) conf.lines
    ⟨emptyCluster, none⟩ emptyCluster_loaded
  unfold clusterLoadConfig
  apply ReturnsOr.bind hlines
  intro st h
  cases hm : st.myself with
  | none => exact (returnsOr_error _).mpr rfl
  | some x =>
    obtain ⟨n, hn, hmine⟩ := h.mine x hm
    apply (returnsOr_ok _).mpr
    apply Started.of_loading h.loading hn hmine
    intro y p hp
    refine (le_clusterGetMaxEpoch { st.cs with
      myself := x, currentEpoch := conf.currentEpoch, lastVoteEpoch := conf.lastVoteEpoch }).2 y p ?_ hp
    rw [mem_nodeIds]
    exact ⟨h.loading.bound y p hp, p, hp, h.loading.all y p hp⟩

theorem firstNode_started (env : Env) :
    Started (clusterAddNode emptyCluster
      (createClusterNode env.randomName { noFlags with myself := true, master := true } env.now)) ∧
    Roles (clusterAddNode emptyCluster
      (createClusterNode env.randomName { noFlags with myself := true, master := true } env.now)) := by
  generalize hme : createClusterNode env.randomName
    { noFlags with myself := true, master := true } env.now = me
  have hadd : clusterAddNode emptyCluster me = { setNode emptyCluster 0 me with
      table := Function.update emptyCluster.table me.name (some 0), fresh := 1 } := rfl
  have hl : Loading (clusterAddNode emptyCluster me) := by
    rw [hadd]
    apply emptyCluster_loading.join _ _ rfl
    · rw [← hme]
      exact newborn_create _ _ _ _
    · rw [← hme]
      rfl
  have hone : ∀ y p, (clusterAddNode emptyCluster me).nodes y = some p → y = 0 ∧ p = me := by
    intro y p h
    have h' : (if y = 0 then some me else none) = some p := h
    split_ifs at h' with hy
    rw [Option.some.injEq] at h'
    exact ⟨hy, h'.symm⟩
  have hslaves : me.slaves = [] ∧ me.slaveof = none ∧ me.configEpoch = 0 := by
    rw [← hme]
    exact ⟨rfl, rfl, rfl⟩
  have hflags : me.flags = { noFlags with myself := true, master := true } := by
    rw [← hme]
    rfl
  obtain ⟨hsl, hso, hce⟩ := hslaves
  have hfirst : (clusterAddNode emptyCluster me).nodes 0 = some me := rfl
  refine ⟨?_, ?_⟩
  · apply Started.of_loading hl hfirst (by rw [hflags]) _ 0
    intro y p hp
    rw [(hone y p hp).2, hce]
    exact Nat.zero_le _
  · refine ⟨?_, ?_, ?_, ?_, ?_, ?_, ?_, ?_, ?_⟩
    · intro x n y hx hs
      rw [(hone x n hx).2, hso] at hs
      cases hs
    · intro y m x hy hm
      rw [(hone y m hy).2, hsl] at hm
      cases hm
    · intro y m hy
      rw [(hone y m hy).2, hsl]
      exact List.nodup_nil
    · intro x n y hx hs
      rw [(hone x n hx).2, hso] at hs
      cases hs
    · intro x n hx
      rw [(hone x n hx).2, hflags]
      exact Or.inr ⟨rfl, rfl⟩
    · intro j x n _ hx
      rw [(hone x n hx).2, hflags]
    · intro n hn hs
      rw [(hone _ n hn).2, hflags] at hs
      cases hs
    · intro n hn
      rw [(hone _ n hn).2, hflags]
      rfl
    · intro n y m hn hs
      rw [(hone _ n hn).2, hso] at hs
      cases hs

variable (cfg) in
theorem clusterUpdateMyselfFlags_started (h : Started cs) :
    ∃ cs', clusterUpdateMyselfFlags cfg cs = .ok cs' ∧ Started cs' ∧ (Roles cs → Roles cs') := by
  -- nothing is known about roles that were loaded
  let k : Slack := ⟨True, False, False, False, fun _ => False⟩
  let k' : Slack := ⟨False, False, False, False, fun _ => False⟩
  obtain ⟨me, hme⟩ := h.me
  have hok := updateNode_ok hme (fun n =>
    { n with flags := { n.flags with nofailover := cfg.slaveNoFailover } })
  refine ⟨_, hok, ?_, ?_⟩
  · have hg : Good k cs := h.good (Or.inr trivial)
    have he : Runs k cs (clusterUpdateMyselfFlags cfg cs) := clusterUpdateMyselfFlags_runs hg
    unfold clusterUpdateMyselfFlags at he
    have hg' := hg.edits (he.of_ok hok)
    exact ⟨hg'.toView, hg'.own, hg'.epochs.resolve_right (fun h => h), h.silent⟩
  · intro hr
    have hg : Good k' cs := h.good (Or.inl hr)
    have he : Runs k' cs (clusterUpdateMyselfFlags cfg cs) := clusterUpdateMyselfFlags_runs hg
    unfold clusterUpdateMyselfFlags at he
    exact (hg.edits (he.of_ok hok)).roles.resolve_right (fun h => h)

variable (cfg env) in
theorem clusterInit_started (conf : Option NodesConf) :
    ReturnsOr .badConfig (clusterInit cfg env conf) Started := by
  have hflags : ∀ cs, Started cs → ReturnsOr .badConfig (clusterUpdateMyselfFlags cfg cs) Started := by
    intro cs h
    obtain ⟨cs', hok, h', -⟩ := clusterUpdateMyselfFlags_started cfg h
    rw [hok]
    exact h'
  unfold clusterInit
  cases conf with
  | none => exact hflags _ (firstNode_started env).1
  | some conf => exact ReturnsOr.bind (clusterLoadConfig_started conf) hflags

variable (cfg env) in
theorem clusterInit_none : ∃ cs, clusterInit cfg env none = .ok cs ∧ Started cs ∧ Roles cs := by
  obtain ⟨h, hr⟩ := firstNode_started env
  obtain ⟨cs', hok, h', hr'⟩ := clusterUpdateMyselfFlags_started cfg h
  exact ⟨cs', hok, h', hr' hr⟩

def defaultConfig : ClusterConfig :=
  { nodeTimeout := 15000
    slaveNoFailover := false
    slaveValidityFactor := 10
    replPingSlavePeriod := 10
    migrationBarrier := 1
    requireFullCoverage := true
    moduleNoFailover := false
    moduleNoRedirection := false
    announce := ⟨[], 6379, 16379⟩ }

/-- A node without keys, at a time and with the next random node name. -/
def quietEnv (now : ℤ) (name : NodeName) : Env :=
  { now := now
    unixtime := 0
    peerIp := []
    keysInSlot := fun _ => 0
    dbSize := 0
    slaveOffset := 0
    masterOffset := 0
    dataAge := 0
    random := 0
    randomName := name
    picks := [] }

def pongFrom (name : NodeName) : ClusterMsg :=
  { sender := name
    currentEpoch := 0
    configEpoch := 0
    offset := 0
    myslots := fun _ => false
    slaveof := nullName
    addr := ⟨[], 6380, 16380⟩
    flags := { noFlags with master := true }
    paused := false
    forceack := false
    body := .pong [] }

end RedisCore.Cluster
