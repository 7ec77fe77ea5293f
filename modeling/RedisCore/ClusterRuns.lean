import RedisCore.ClusterReceive

namespace RedisCore.Cluster

variable {k : Slack} {cs cs' cs'' : ClusterState} {x y : NodeId} {n m : ClusterNode} {j : Slot}
variable {cfg : ClusterConfig} {env : Env}

theorem clusterStartHandshake_edits (hrandom : k.proc env.randomName → k.epoch) (ip : Option Bytes)
    (port cport : ℤ) : Edits k cs (clusterStartHandshake env cs ip port cport).1 := by
  unfold clusterStartHandshake
  cases ip with
  | none => exact Edits.refl cs
  | some ip =>
    dsimp only
    split_ifs
    · exact Edits.refl cs
    · exact Edits.refl cs
    · apply clusterAddNode_edits (newborn_create _ _ _ _) (Or.inl (Or.inl ⟨rfl, rfl, rfl⟩))
      · exact fun _ hp => hrandom hp
      · intro hm
        cases hm

theorem checkSlots_none {del : Bool} : ∀ {js seen : List Slot}, checkSlots cs del js seen = none →
    ∀ j ∈ js, (cs.slots j).isSome = del := by
  intro js
  induction js with
  | nil =>
    intro seen _ j hj
    cases hj
  | cons i js ih =>
    intro seen h j hj
    unfold checkSlots at h
    split_ifs at h with h1 h2 h3
    rcases List.mem_cons.mp hj with rfl | hj
    · cases del with
      | false =>
        by_contra hne
        rw [Bool.not_eq_false] at hne
        exact h2 ⟨rfl, hne⟩
      | true =>
        rw [Option.isSome_iff_ne_none]
        exact fun hnone => h1 ⟨rfl, hnone⟩
    · exact ih h j hj

theorem changeSlots_leads (hg : Good k cs) (del : Bool) (js : List Slot)
    (hk : del = true ∨ (checkSlots cs del js [] = none → ∀ me, cs.nodes cs.myself = some me →
      me.flags.master = true) ∨ k.role) :
    Leads k (changeSlots cs del js) (fun r => Edits k cs r.1) := by
  unfold changeSlots
  cases hcheck : checkSlots cs del js [] with
  | some reply => exact Leads.ok (Edits.refl cs)
  | none =>
    have hall := checkSlots_none hcheck
    dsimp only
    -- the slots still to come are as they were when they were checked
    let I : List Slot → ClusterState → Prop := fun rest c => rest.Nodup ∧
      (∀ i ∈ rest, c.slots i = cs.slots i) ∧ (del = true ∨ (∃ me, c.nodes c.myself = some me ∧
        me.flags.master = true) ∨ k.role)
    have hloop : Leads k (forSlots (changeSlot del js) cs) (fun c => Edits k cs c ∧ I [] c) := by
      apply Leads.forSlots I _ hg
      · refine ⟨List.nodup_finRange _, fun _ _ => rfl, ?_⟩
        apply hk.imp_right
        intro h
        apply h.imp_left
        intro hmaster
        obtain ⟨me, hme⟩ := hg.me
        exact ⟨me, hme, hmaster hcheck me hme⟩
      · rintro i rest c hgc ⟨hnd, hs, hm⟩
        rw [List.nodup_cons] at hnd
        have hrest : ∀ i' ∈ rest, c.slots i' = cs.slots i' :=
          fun i' hi' => hs i' (List.mem_cons_of_mem i hi')
        unfold changeSlot
        by_cases hi : i ∈ js
        · rw [if_pos hi]
          have he := edits_closeImport hgc i
          have hg1 := hgc.edits he
          dsimp only
          generalize hc1 : ({ c with
            importingSlotsFrom := Function.update c.importingSlotsFrom i none } : ClusterState) = c1
            at he hg1
          have hs1 : c1.slots = c.slots := by
            rw [← hc1]
          have hn1 : c1.nodes = c.nodes ∧ c1.myself = c.myself := by
            rw [← hc1]
            exact ⟨rfl, rfl⟩
          have hsome : (c1.slots i).isSome = del := by
            rw [hs1, hs i List.mem_cons_self]
            exact hall i hi
          have hdone : ∀ c' : ClusterState, Edits k c1 c' → Rebound c1 c' →
              (∀ i', i' ≠ i → c'.slots i' = c1.slots i') → Edits k c c' ∧ I rest c' := by
            intro c' he' hr hsl
            refine ⟨he.trans he', hnd.2, ?_, ?_⟩
            · intro i' hi'
              rw [hsl i' (fun h => hnd.1 (h ▸ hi')), hs1]
              exact hrest i' hi'
            · apply hm.imp_right
              intro h
              apply h.imp_left
              rintro ⟨me, hme, hmaster⟩
              rw [← hn1.1, ← hn1.2] at hme
              obtain ⟨me', hme', hsame⟩ := hr.live _ me hme
              exact ⟨me', by rw [hr.myself]; exact hme', hsame.master.trans hmaster⟩
          cases del with
          | true =>
            obtain ⟨c', hdel, he', hr, hsl⟩ := clusterDelSlot_eq hg1 i
            rw [if_pos rfl, hdel, ok_bind, hsome, if_pos rfl]
            apply Leads.ok
            apply hdone c' he' hr
            intro i' hi'
            rw [hsl, Function.update_of_ne hi']
          | false =>
            have hfree : c1.slots i = none := by
              rw [← Option.not_isSome_iff_eq_none, hsome]
              decide
            obtain ⟨me, hme⟩ := hg1.me
            have hmaster : me.flags.master = true ∨ k.role := by
              apply (hm.resolve_left (by decide)).imp_left
              rintro ⟨me', hme', hmaster⟩
              rw [← hn1.1, ← hn1.2, hme, Option.some.injEq] at hme'
              rw [hme', hmaster]
            obtain ⟨c', hadd, he', hr, hsl⟩ := clusterAddSlot_free hg1 hme hfree hmaster
            have hmy : c.myself = c1.myself := hn1.2.symm
            rw [if_neg (by decide), hmy, hadd, ok_bind, if_pos rfl]
            apply Leads.ok
            apply hdone c' he' hr
            intro i' hi'
            rw [hsl, Function.update_of_ne hi']
        · rw [if_neg hi]
          exact Leads.ok ⟨Edits.refl c, hnd.2, hrest, hm⟩
    apply Leads.bind hloop
    rintro c ⟨he, -⟩
    exact Leads.ok he

theorem setslotNode_leads (hg : Good k cs) (hx : cs.nodes x = some n)
    (slot : Slot) (hk : (¬ (cs.slots slot = some cs.myself ∧ x ≠ cs.myself ∧
      env.keysInSlot slot ≠ 0) → n.flags.master = true) ∨ k.role) :
    Leads k (setslotNode env cs slot x) (fun r => Edits k cs r.1) := by
  unfold setslotNode
  by_cases hkeys : cs.slots slot = some cs.myself ∧ x ≠ cs.myself ∧ env.keysInSlot slot ≠ 0
  · rw [if_pos hkeys]
    exact Leads.ok (Edits.refl cs)
  rw [if_neg hkeys]
  replace hk := hk.imp_left (fun h => h hkeys)
  dsimp only
  obtain ⟨c1, hc1, he1, hn1⟩ : ∃ c, (if env.keysInSlot slot = 0 ∧
      (cs.migratingSlotsTo slot).isSome = true then
      { cs with migratingSlotsTo := Function.update cs.migratingSlotsTo slot none } else cs) = c ∧
      Edits k cs c ∧ c.nodes = cs.nodes := by
    refine ⟨_, rfl, ?_⟩
    split_ifs
    · exact ⟨edits_closeMigration hg slot, rfl⟩
    · exact ⟨Edits.refl cs, rfl⟩
  rw [hc1]
  have hg1 := hg.edits he1
  have hclose : Leads k (if x = c1.myself ∧ (c1.importingSlotsFrom slot).isSome = true then do
      let r ← clusterBumpConfigEpochWithoutConsensus c1
      .ok { r.1 with importingSlotsFrom := Function.update r.1.importingSlotsFrom slot none }
      else .ok c1) (fun c => Edits k c1 c ∧ Pointwise (fun n n' => n'.flags = n.flags) c1 c) := by
    split_ifs
    · apply Leads.bind (clusterBumpConfigEpochWithoutConsensus_leads hg1)
      rintro r ⟨he, hp⟩
      exact Leads.ok ⟨he.trans (edits_closeImport (hg1.edits he) slot), hp.old, hp.live⟩
    · exact Leads.ok ⟨Edits.refl c1, pointwise_of_nodes (fun _ => rfl) rfl⟩
  apply Leads.bind hclose
  rintro c2 ⟨he2, hp⟩
  rw [← hn1] at hx
  obtain ⟨n', hn', hflags⟩ := hp.live x n hx
  obtain ⟨c3, hc3, he3, -, -⟩ := rebindSlot_eq (hg1.edits he2) hn' (by rw [hflags]; exact hk) slot
  rw [hc3, ok_bind]
  exact Leads.ok ((he1.trans he2).trans he3)

theorem update_live {f : Slot → Option NodeId} {m' : Option NodeId}
    (hf : ∀ j y, f j = some y → ∃ n, cs.nodes y = some n)
    (hx : ∀ y, m' = some y → ∃ n, cs.nodes y = some n) (slot : Slot) :
    ∀ j y, Function.update f slot m' j = some y → ∃ n, cs.nodes y = some n := by
  intro j y h
  by_cases hj : j = slot
  · rw [hj, Function.update_self] at h
    exact hx y h
  · rw [Function.update_of_ne hj] at h
    exact hf j y h

theorem setslot_leads (hg : Good k cs) (cmd : ClusterCommand)
    (hk : (∀ slot name x n, cmd = .setslotNode slot name → clusterLookupNode cs name = some x →
      cs.nodes x = some n → ¬ (cs.slots slot = some cs.myself ∧ x ≠ cs.myself ∧
        env.keysInSlot slot ≠ 0) → n.flags.master = true) ∨ k.role) :
    Leads k (setslot env cs cmd) (fun r => Edits k cs r.1) := by
  cases cmd with
  | setslotMigrating slot name =>
    unfold setslot
    dsimp only
    split_ifs
    · exact Leads.ok (Edits.refl cs)
    · cases hl : clusterLookupNode cs name with
      | none => exact Leads.ok (Edits.refl cs)
      | some x =>
        obtain ⟨n, hn, -⟩ := clusterLookupNode_live hg hl
        apply Leads.ok
        apply Edits.single
        apply Edit.slotState _ cs.importingSlotsFrom _ hg.toTable.importing
        apply update_live hg.toTable.migrating
        rintro y h
        cases h
        exact ⟨n, hn⟩
  | setslotImporting slot name =>
    unfold setslot
    dsimp only
    split_ifs
    · exact Leads.ok (Edits.refl cs)
    · cases hl : clusterLookupNode cs name with
      | none => exact Leads.ok (Edits.refl cs)
      | some x =>
        obtain ⟨n, hn, -⟩ := clusterLookupNode_live hg hl
        apply Leads.ok
        apply Edits.single
        apply Edit.slotState cs.migratingSlotsTo _ hg.toTable.migrating
        apply update_live hg.toTable.importing
        rintro y h
        cases h
        exact ⟨n, hn⟩
  | setslotStable slot =>
    have hnone : ∀ y : NodeId, none = some y → ∃ n, cs.nodes y = some n := by
      intro y h
      cases h
    exact Leads.ok (Edits.single (Edit.slotState _ _ (update_live hg.toTable.migrating hnone slot)
      (update_live hg.toTable.importing hnone slot)))
  | setslotNode slot name =>
    unfold setslot
    dsimp only
    cases hl : clusterLookupNode cs name with
    | none => exact Leads.ok (Edits.refl cs)
    | some x =>
      obtain ⟨n, hn, -⟩ := clusterLookupNode_live hg hl
      exact setslotNode_leads hg hn slot (hk.imp_left (fun h => h slot name x n rfl hl hn))
  | _ => exact Leads.ok (Edits.refl cs)

theorem forgetCommand_leads (hg : Good k cs) (hrm : k.removal) (name : NodeName) :
    Leads k (forgetCommand cfg env cs name) (fun r => Edits k cs r.1) := by
  obtain ⟨me, hme, hd⟩ := hg.deref_me
  unfold forgetCommand
  cases hl : clusterLookupNode cs name with
  | none => exact Leads.ok (Edits.refl cs)
  | some x =>
    obtain ⟨n, hn, hname⟩ := clusterLookupNode_live hg hl
    dsimp only
    rw [hd, ok_bind]
    split_ifs with hxme hmaster
    · exact Leads.ok (Edits.refl cs)
    · exact Leads.ok (Edits.refl cs)
    · rw [deref_ok hn, ok_bind]
      have hb : Edits k cs (clusterBlacklistAddNode env cs n) :=
        edit_aside ⟨rfl, rfl, rfl, rfl, rfl, rfl, rfl, rfl⟩ ⟨rfl, rfl, rfl, rfl⟩ rfl
      have hrun : Runs k (clusterBlacklistAddNode env cs n)
          (clusterDelNode cfg env (clusterBlacklistAddNode env cs n) x) := by
        have hn' : (clusterBlacklistAddNode env cs n).nodes x = some n := hn
        apply clusterDelNode_runs cfg env (hg.edits hb) hn' _ hxme hrm
        · -- a slave may not forget its master
          apply hg.roles.imp_left
          intro h me' hme' hslave
          have hme'' : cs.nodes cs.myself = some me' := hme'
          rw [hme, Option.some.injEq] at hme''
          subst hme''
          exact hmaster ⟨h.slaveFlag _ me x hme hslave, hslave⟩
        · rw [hname]
          exact hl
      apply Leads.bind hrun
      intro c he
      exact Leads.ok (hb.trans he)

theorem replicateCommand_leads (hg : Good k cs) (name : NodeName)
    (hk : (∀ x n me, clusterLookupNode cs name = some x → cs.nodes x = some n →
      cs.nodes cs.myself = some me → ¬ (me.flags.master = true ∧ (me.numslots ≠ 0 ∨ env.dbSize ≠ 0)) →
      n.flags.handshake = false) ∨ k.role) :
    Leads k (replicateCommand env cs name) (fun r => Edits k cs r.1) := by
  obtain ⟨me, hme, hd⟩ := hg.deref_me
  unfold replicateCommand
  cases hl : clusterLookupNode cs name with
  | none => exact Leads.ok (Edits.refl cs)
  | some x =>
    obtain ⟨n, hn, -⟩ := clusterLookupNode_live hg hl
    dsimp only
    by_cases hxme : x = cs.myself
    · rw [if_pos hxme]
      exact Leads.ok (Edits.refl cs)
    rw [if_neg hxme, deref_ok hn, ok_bind, hd, ok_bind]
    split_ifs with hslave hfull
    · exact Leads.ok (Edits.refl cs)
    · exact Leads.ok (Edits.refl cs)
    · have hslots : (∀ p, cs.nodes cs.myself = some p → p.numslots = 0) ∨ k.role := by
        by_cases hm : me.flags.master = true
        · left
          intro p hp
          rw [hme, Option.some.injEq] at hp
          by_contra hnum
          exact hfull ⟨hm, Or.inl (by rw [hp]; exact hnum)⟩
        · apply (hg.no_slots hme (Bool.eq_false_iff.mpr hm)).imp_left
          intro h p hp
          rw [hme, Option.some.injEq] at hp
          rw [← hp, h]
      apply Leads.bind (clusterSetMaster_runs hg hn (Or.inl hxme) hslots
        (hk.imp_left (fun h => h x n me hl hn hme hfull)))
      intro c he
      exact Leads.ok he

theorem clusterSendMFStart_runs (hg : Good k cs) (hx : cs.nodes x = some n) :
    Runs k cs (clusterSendMFStart cfg env cs x) := by
  unfold clusterSendMFStart
  rw [deref_ok hx, ok_bind]
  split_ifs
  · apply Leads.bind (clusterBuildMessageHdr_leads hg (show HonestBody k cs .mfstart from trivial))
    rintro msg ⟨h, -⟩
    exact Leads.ok (edits_send h)
  · exact Runs.refl

theorem startFailover_runs (hg : Good k cs) (hx : cs.nodes x = some n) (mode : FailoverMode) :
    Runs k cs (startFailover cfg env cs x mode) := by
  have he : Edits k cs { resetManualFailover cs with mfEnd := env.now+5000 } :=
    edit_aside ⟨rfl, rfl, rfl, rfl, rfl, rfl, rfl, rfl⟩ ⟨rfl, rfl, rfl, rfl⟩ rfl
  have hg1 := hg.edits he
  have hx1 : ({ resetManualFailover cs with mfEnd := env.now+5000 } : ClusterState).nodes x =
      some n := hx
  cases mode with
  | graceful => exact (clusterSendMFStart_runs hg1 hx1).mono (fun _ h => he.trans h)
  | force =>
    exact Leads.ok (he.tail
      (Edit.aside ⟨rfl, rfl, rfl, rfl, rfl, rfl, rfl, rfl⟩ ⟨rfl, rfl, rfl, rfl⟩ rfl))
  | takeover =>
    apply Leads.bind (clusterBumpConfigEpochWithoutConsensus_leads hg1)
    rintro r ⟨he1, -⟩
    exact (clusterFailoverReplaceYourMaster_runs (hg1.edits he1)).mono
      (fun _ h => (he.trans he1).trans h)

theorem failoverCommand_leads (hg : Good k cs) (mode : FailoverMode) :
    Leads k (failoverCommand cfg env cs mode) (fun r => Edits k cs r.1) := by
  obtain ⟨me, hme, hd⟩ := hg.deref_me
  unfold failoverCommand
  rw [hd, ok_bind]
  split_ifs
  · exact Leads.ok (Edits.refl cs)
  · cases hs : me.slaveof with
    | none => exact Leads.ok (Edits.refl cs)
    | some y =>
      dsimp only
      apply Leads.bind (deref_leads (hg.attached hme hs))
      intro m hm
      split_ifs
      · exact Leads.ok (Edits.refl cs)
      · apply Leads.bind (startFailover_runs hg hm mode)
        intro c he
        exact Leads.ok he

theorem setConfigEpochCommand_leads (hg : Good k cs) (epoch : ℤ) :
    Leads k (setConfigEpochCommand cs epoch) (fun r => Edits k cs r.1) := by
  obtain ⟨me, hme, hd⟩ := hg.deref_me
  unfold setConfigEpochCommand
  rw [hd, ok_bind]
  split_ifs with h1 h2 h3
  · exact Leads.ok (Edits.refl cs)
  · exact Leads.ok (Edits.refl cs)
  · exact Leads.ok (Edits.refl cs)
  · rw [updateNode_ok hme, ok_bind]
    apply Leads.ok
    have hup : Edits k cs { cs with currentEpoch := max cs.currentEpoch epoch.toNat } :=
      Edits.single (Edit.epochUp _ (le_max_left _ _))
    apply hup.tail
    apply Edit.nodeEpoch cs.myself epoch.toNat
    · left
      intro p hp
      have hp' : cs.nodes cs.myself = some p := hp
      rw [hme, Option.some.injEq] at hp'
      rw [← hp', not_not.mp h3]
      exact Nat.zero_le _
    · exact Or.inl (le_max_right _ _)

structure Prudent (k : Slack) (env : Env) (cs : ClusterState) (cmd : ClusterCommand) : Prop where
  addslots : (∀ js me, cmd = .addslots js → checkSlots cs false js [] = none →
    cs.nodes cs.myself = some me → me.flags.master = true) ∨ k.role
  setslot : (∀ slot name x n me, cmd = .setslotNode slot name → clusterLookupNode cs name = some x →
    cs.nodes x = some n → cs.nodes cs.myself = some me → me.flags.slave = false →
    ¬ (cs.slots slot = some cs.myself ∧ x ≠ cs.myself ∧ env.keysInSlot slot ≠ 0) →
    n.flags.master = true) ∨ k.role
  replicate : (∀ name x n me, cmd = .replicate name → clusterLookupNode cs name = some x →
    cs.nodes x = some n → cs.nodes cs.myself = some me →
    ¬ (me.flags.master = true ∧ (me.numslots ≠ 0 ∨ env.dbSize ≠ 0)) →
    n.flags.handshake = false) ∨ k.role

theorem clusterCommand_leads (hg : Good k cs) (hrm : k.removal)
    (hrandom : k.proc env.randomName → k.epoch) {cmd : ClusterCommand}
    (hp : Prudent k env cs cmd) :
    Leads k (clusterCommand cfg env cs cmd) (fun r => Edits k cs r.1) := by
  obtain ⟨me, hme, hd⟩ := hg.deref_me
  have hsetslot : Leads k (setslotCommand env cs cmd) (fun r => Edits k cs r.1) := by
    unfold setslotCommand
    rw [hd, ok_bind]
    split_ifs with hslave
    · exact Leads.ok (Edits.refl cs)
    · apply setslot_leads hg cmd
      apply hp.setslot.imp_left
      exact fun h slot name x n hc hl hn => h slot name x n me hc hl hn hme (Bool.eq_false_iff.mpr hslave)
  cases cmd with
  | meet ip port cport => exact Leads.ok (clusterStartHandshake_edits hrandom ip port cport)
  | flushslots =>
    unfold clusterCommand
    split_ifs
    · exact Leads.ok (Edits.refl cs)
    · apply Leads.bind (clusterDelNodeSlots_leads hg hme)
      rintro c ⟨he, -⟩
      exact Leads.ok he
  | addslots js =>
    apply changeSlots_leads hg false js
    exact Or.inr (hp.addslots.imp_left (fun h hcheck me hme => h js me rfl hcheck hme))
  | delslots js => exact changeSlots_leads hg true js (Or.inl rfl)
  | bumpepoch =>
    unfold clusterCommand bumpepochCommand
    apply Leads.bind (clusterBumpConfigEpochWithoutConsensus_leads hg)
    rintro r ⟨he, -⟩
    obtain ⟨me', -, hd'⟩ := (hg.edits he).deref_me
    rw [hd', ok_bind]
    exact Leads.ok he
  | forget name => exact forgetCommand_leads hg hrm name
  | replicate name =>
    exact replicateCommand_leads hg name (hp.replicate.imp_left (fun h x n me => h name x n me rfl))
  | failover mode => exact failoverCommand_leads hg mode
  | setConfigEpoch epoch => exact setConfigEpochCommand_leads hg epoch
  | _ => exact hsetslot

theorem expireHandshake_runs (hg : Good k cs) (hrm : k.removal) (x : NodeId) :
    Runs k cs (expireHandshake cfg env cs x) := by
  unfold expireHandshake
  cases hx : cs.nodes x with
  | none => exact Runs.refl
  | some n =>
    dsimp only
    split_ifs with hmine hold
    · exact Runs.refl
    · apply clusterDelNode_runs cfg env hg hx (hg.toTable.handshake x n hx hold.1) _ hrm
      · apply hg.roles.imp_left
        intro h me hme hslave
        have hfalse := h.master me x n hme hslave hx
        rw [hold.1] at hfalse
        cases hfalse
      · rintro rfl
        rw [(hg.own n hx).1] at hmine
        exact hmine rfl
    · exact Runs.refl

theorem expireHandshakes_runs (hg : Good k cs) (hrm : k.removal) :
    Runs k cs (expireHandshakes cfg env cs) := by
  have hloop : Leads k (expireHandshakes cfg env cs) (fun c => Edits k cs c ∧ True) := by
    apply Leads.foldlM id (fun _ _ => True) _ _ cs hg trivial
    intro x _ c hgc _
    exact (expireHandshake_runs hgc hrm x).mono (fun _ h => ⟨h, trivial⟩)
  exact hloop.mono (fun _ h => h.1)

theorem clusterLinkConnectHandler_runs (hg : Good k cs) (x : NodeId) :
    Runs k cs (clusterLinkConnectHandler cfg env cs x) := by
  unfold clusterLinkConnectHandler
  cases hx : cs.nodes x with
  | none => exact Runs.refl
  | some n =>
    dsimp only
    by_cases hskip : (n.flags.myself || n.flags.noaddr || n.link) = true
    · rw [if_pos hskip]
      exact Runs.refl
    rw [if_neg hskip]
    have hmine : n.flags.myself = false := by
      by_contra h
      rw [Bool.not_eq_false] at h
      rw [h] at hskip
      exact hskip rfl
    have ht : Runs k.keep cs (updateNode cs x (fun n => { n with link := true })) := by
      refine updateNode_touch hx ⟨rfl, rfl, rfl, rfl, rfl, rfl, rfl, rfl, rfl, rfl, ?_⟩
      intro h
      rw [hmine] at h
      cases h
    apply Runs.bind_keep hg ht
    intro c1 he1 hg1
    obtain ⟨n1, hn1, -⟩ := hg.kept he1 hx
    have hping : Runs k.keep c1 (clusterSendPing cfg env c1 n.name
        (if n.flags.meet then .meet else .ping)) := by
      apply clusterSendPing_runs hg1.keep
      intro gossip h
      split_ifs <;> exact h
    apply Runs.bind_keep hg1 hping
    intro c2 he2 hg2
    obtain ⟨n2, hn2, -⟩ := hg1.kept he2 hn1
    exact updateNode_touch hn2 ⟨rfl, rfl, rfl, rfl, rfl, rfl, rfl, rfl, rfl, rfl, fun _ h => h⟩

theorem handleLinkIOError_runs (cs : ClusterState) (x : NodeId) :
    Runs k cs (handleLinkIOError cs x) := by
  unfold handleLinkIOError
  cases hx : cs.nodes x with
  | none => exact Runs.refl
  | some n =>
    exact updateNode_touch hx ⟨rfl, rfl, rfl, rfl, rfl, rfl, rfl, rfl, rfl, rfl, fun _ _ => rfl⟩

theorem pingNode_runs (hg : Good k cs) (x : NodeId) : Runs k cs (pingNode cfg env cs x) := by
  unfold pingNode
  cases hx : cs.nodes x with
  | none => exact Runs.refl
  | some n =>
    dsimp only
    split_ifs
    · exact clusterSendPing_runs hg _ (fun _ h => h)
    · exact Runs.refl

theorem suspectNode_runs (cs : ClusterState) (x : NodeId) : Runs k cs (suspectNode cs x) := by
  unfold suspectNode
  cases hx : cs.nodes x with
  | none => exact Runs.refl
  | some n =>
    dsimp only
    split_ifs
    · exact Runs.refl
    · exact updateNode_touch hx ⟨rfl, rfl, rfl, rfl, rfl, rfl, rfl, rfl, rfl, rfl, fun _ h => h⟩

theorem cronFailover_leads (hg : Good k cs) (hel : k.election) :
    Leads k (cronFailover cfg env cs) (fun r => Edits k cs r.1) := by
  have h1 : Edits k cs (manualFailoverCheckTimeout env cs) := by
    unfold manualFailoverCheckTimeout
    split_ifs
    · exact resetManualFailover_edits cs
    · exact Edits.refl cs
  have h2 : ∀ c : ClusterState, Edits k c (clusterHandleManualFailover env c) := by
    intro c
    unfold clusterHandleManualFailover
    split_ifs
    · exact Edits.refl c
    · exact edit_aside ⟨rfl, rfl, rfl, rfl, rfl, rfl, rfl, rfl⟩ ⟨rfl, rfl, rfl, rfl⟩ rfl
    · exact Edits.refl c
  unfold cronFailover
  dsimp only
  have hg1 := hg.edits h1
  generalize manualFailoverCheckTimeout env cs = c at h1 hg1
  obtain ⟨me, hme, hd⟩ := hg1.deref_me
  rw [hd, ok_bind]
  split_ifs
  · exact Leads.ok (h1.trans (h2 c))
  · apply (clusterHandleSlaveFailover_leads (hg1.edits (h2 c)) hel).mono
    exact fun r he => (h1.trans (h2 c)).trans he
  · exact Leads.ok h1

theorem clusterHandleSlaveMigration_runs (hg : Good k cs) (target : NodeId) :
    Runs k cs (clusterHandleSlaveMigration cfg cs target) := by
  obtain ⟨me, hme, hd⟩ := hg.deref_me
  unfold clusterHandleSlaveMigration
  rw [hd, ok_bind]
  split
  · rename_i y n hs ht
    apply Leads.bind (deref_leads (hg.attached hme hs))
    intro mymaster _
    split_ifs with hcond
    · obtain ⟨hslave, -, -, hnslave, -, -, -, hnum, -⟩ := hcond
      apply clusterSetMaster_runs hg ht
      · left
        rintro rfl
        rw [hme, Option.some.injEq] at ht
        rw [← ht, hslave] at hnslave
        cases hnslave
      · rcases hg.roles with h | h
        · have hm : me.flags.master = false := by
            by_contra hm
            rw [Bool.not_eq_false] at hm
            rw [(h.oneRole _ me hme).not_slave hm] at hslave
            cases hslave
          apply (hg.no_slots hme hm).imp_left
          intro h0 p hp
          rw [hme, Option.some.injEq] at hp
          rw [← hp, h0]
        · exact Or.inr h
      · rcases hg.roles with h | h
        · have hm : n.flags.master = true ∨ k.role := by
            by_cases hm : n.flags.master = true
            · exact Or.inl hm
            · apply (hg.no_slots ht (Bool.eq_false_iff.mpr hm)).imp_left
              intro h0
              rw [h0] at hnum
              exact absurd hnum (lt_irrefl 0)
          exact hm.imp_left (fun hm => (h.oneRole _ n ht).joined hm)
        · exact Or.inr h
    · exact Runs.refl
  · exact Runs.refl

theorem verifyClusterConfigWithData_runs (hg : Good k cs) :
    Runs k cs (verifyClusterConfigWithData cfg env cs) := by
  obtain ⟨me, hme, hd⟩ := hg.deref_me
  unfold verifyClusterConfigWithData
  rw [hd, ok_bind]
  by_cases hskip : (cfg.moduleNoRedirection || me.flags.slave) = true
  · rw [if_pos hskip]
    exact Runs.refl
  rw [if_neg hskip]
  let I : List Slot → ClusterState → Prop := fun _ c =>
    (∃ me, c.nodes c.myself = some me ∧ me.flags.master = true) ∨ k.role
  have hloop : Leads k (forSlots (verifySlot env) cs) (fun c => Edits k cs c ∧ I [] c) := by
    apply Leads.forSlots I _ hg
    · rcases hg.roles with h | h
      · left
        refine ⟨me, hme, ?_⟩
        by_contra hm
        have hslave := (h.oneRole _ me hme).slave_of (h.joined me hme) (Bool.eq_false_iff.mpr hm)
        rw [hslave, Bool.or_true] at hskip
        exact hskip rfl
      · exact Or.inr h
    · intro i rest c hgc hm
      unfold verifySlot
      split_ifs
      · exact Leads.ok ⟨Edits.refl c, hm⟩
      · cases hs : c.slots i with
        | none =>
          obtain ⟨me', hme'⟩ := hgc.me
          have hmaster : me'.flags.master = true ∨ k.role := by
            apply hm.imp_left
            rintro ⟨p, hp, hpm⟩
            rw [hme', Option.some.injEq] at hp
            rw [hp, hpm]
          obtain ⟨c', hadd, he, hr, -⟩ := clusterAddSlot_free hgc hme' hs hmaster
          dsimp only
          rw [hadd, ok_bind]
          refine Leads.ok ⟨he, ?_⟩
          apply hm.imp_left
          rintro ⟨p, hp, hpm⟩
          obtain ⟨p', hp', hsame⟩ := hr.live _ p hp
          exact ⟨p', by rw [hr.myself]; exact hp', hsame.master.trans hpm⟩
        | some y =>
          have hlive : ∀ z, some y = some z → ∃ n, c.nodes z = some n := by
            rintro z h
            cases h
            exact hgc.toTable.owner i y hs
          exact Leads.ok ⟨Edits.single (Edit.slotState c.migratingSlotsTo _ hgc.toTable.migrating
            (update_live hgc.toTable.importing hlive i)), hm⟩
  exact hloop.mono (fun _ h => h.1)

theorem clusterUpdateMyselfFlags_runs (hg : Good k cs) :
    Runs k cs (clusterUpdateMyselfFlags cfg cs) := by
  obtain ⟨me, hme⟩ := hg.me
  exact updateNode_touch hme ⟨rfl, rfl, rfl, rfl, rfl, rfl, rfl, rfl, rfl, rfl, fun _ h => h⟩

structure Allowed (k : Slack) (env : Env) (cs : ClusterState) (ev : ClusterEvent) : Prop where
  random : k.proc env.randomName → k.epoch
  packet : ∀ link hdr, ev = .packet link hdr → Sound k cs hdr
  command : ∀ cmd, ev = .command cmd → Prudent k env cs cmd
  election : k.election ∨ (ev ≠ .slaveFailover ∧ ev ≠ .cron)

theorem stepEvent_runs (hg : Good k cs) (hrm : k.removal) {ev : ClusterEvent}
    (ha : Allowed k env cs ev) : Runs k cs (stepEvent cfg env cs ev) := by
  have hfirst : ∀ {x : Except ClusterFault (ClusterState × Bool)},
      Leads k x (fun r => Edits k cs r.1) → Runs k cs (do let r ← x; .ok r.1) := by
    intro x h
    apply Leads.bind h
    exact fun r he => Leads.ok he
  cases ev with
  | packet link hdr =>
    unfold stepEvent
    dsimp only
    split_ifs with hlink
    · apply clusterProcessPacket_runs hg hrm _ ha.random (ha.packet link hdr rfl)
      intro l h
      rw [h, linkAlive, Option.all_some, Option.any_eq_true] at hlink
      obtain ⟨n, hn, hup⟩ := hlink
      refine ⟨?_, n, hn⟩
      rintro rfl
      rw [(hg.own n hn).2] at hup
      cases hup
    · exact Runs.refl
  | command cmd =>
    apply Leads.bind (clusterCommand_leads hg hrm ha.random (ha.command cmd rfl))
    exact fun r he => Leads.ok he
  | handshakeTimeouts => exact expireHandshakes_runs hg hrm
  | linkConnected x => exact clusterLinkConnectHandler_runs hg x
  | linkLost x => exact handleLinkIOError_runs cs x
  | sendPing x => exact pingNode_runs hg x
  | suspect x => exact suspectNode_runs cs x
  | slaveFailover =>
    exact hfirst (clusterHandleSlaveFailover_leads hg (ha.election.resolve_right (fun h => h.1 rfl)))
  | cron => exact hfirst (cronFailover_leads hg (ha.election.resolve_right (fun h => h.2 rfl)))
  | slaveMigration target => exact clusterHandleSlaveMigration_runs hg target
  | updateState => exact clusterUpdateState_runs hg
  | updateMyselfFlags => exact clusterUpdateMyselfFlags_runs hg
  | verifyConfig => exact verifyClusterConfigWithData_runs hg

def EachStep (P : Env → ClusterState → ClusterEvent → Prop) (cfg : ClusterConfig) :
    ClusterState → List (Env × ClusterEvent) → Prop
  | _, [] => True
  | cs, e :: es => P e.1 cs e.2 ∧
    ∀ cs', stepEvent cfg e.1 cs e.2 = .ok cs' → EachStep P cfg cs' es

theorem eachStep_of_all {P : Env → ClusterState → ClusterEvent → Prop}
    (h : ∀ env cs ev, P env cs ev) :
    ∀ (es : List (Env × ClusterEvent)) (cs : ClusterState), EachStep P cfg cs es := by
  intro es
  induction es with
  | nil => exact fun _ => trivial
  | cons e es ih => exact fun cs => ⟨h e.1 cs e.2, fun cs' _ => ih cs'⟩

theorem EachStep.mono {P Q : Env → ClusterState → ClusterEvent → Prop}
    (h : ∀ env cs ev, P env cs ev → Q env cs ev) :
    ∀ (es : List (Env × ClusterEvent)) (cs : ClusterState), EachStep P cfg cs es →
      EachStep Q cfg cs es := by
  intro es
  induction es with
  | nil => exact fun _ _ => trivial
  | cons e es ih => exact fun cs hp => ⟨h e.1 cs e.2 hp.1, fun cs' hs => ih cs' (hp.2 cs' hs)⟩

theorem runEvents_runs (hrm : k.removal) : ∀ (es : List (Env × ClusterEvent)) (cs : ClusterState),
    Good k cs → EachStep (Allowed k) cfg cs es → Runs k cs (runEvents cfg cs es) := by
  intro es
  induction es with
  | nil => exact fun cs _ _ => Runs.refl
  | cons e es ih =>
    intro cs hg ha
    have hstep : Runs k cs (stepEvent cfg e.1 cs e.2) := stepEvent_runs hg hrm ha.1
    unfold runEvents
    cases hs : stepEvent cfg e.1 cs e.2 with
    | error f =>
      rw [hs] at hstep
      exact Leads.error ((leads_error f).mp hstep)
    | ok cs' =>
      have he : Edits k cs cs' := hstep.of_ok hs
      rw [ok_bind]
      exact (ih cs' (hg.edits he) (ha.2 cs' hs)).mono (fun _ h => he.trans h)

end RedisCore.Cluster
