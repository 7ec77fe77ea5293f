import RedisCore.ClusterStart

namespace RedisCore.Cluster

variable {k : Slack} {cs cs' : ClusterState} {cfg : ClusterConfig} {env : Env}

/-- A node starts, with or without a configuration file, and meets a sequence of events. -/
def runNode (cfg : ClusterConfig) (env : Env) (conf : Option NodesConf)
    (es : List (Env × ClusterEvent)) : Except ClusterFault ClusterState := do
  let cs ← clusterInit cfg env conf
  runEvents cfg cs es

theorem runEvents_good (hg : Good k cs) (hrm : k.removal) (es : List (Env × ClusterEvent))
    (ha : EachStep (Allowed k) cfg cs es) :
    (∃ cs', runEvents cfg cs es = .ok cs' ∧ Good k cs') ∨
      ∃ e, runEvents cfg cs es = .error e ∧ Excused k e := by
  have hrun := runEvents_runs hrm es cs hg ha
  cases he : runEvents cfg cs es with
  | ok cs' => exact Or.inl ⟨cs', rfl, hg.edits (hrun.of_ok he)⟩
  | error e =>
    rw [he] at hrun
    exact Or.inr ⟨e, rfl, (leads_error e).mp hrun⟩

def anything : Slack := ⟨True, True, True, True, fun _ => False⟩

theorem allowed_anything (env : Env) (cs : ClusterState) (ev : ClusterEvent) :
    Allowed anything env cs ev := by
  refine ⟨fun _ => trivial, ?_, ?_, Or.inl trivial⟩
  · intro _ hdr _
    refine ⟨Or.inr trivial, ?_, Or.inr ⟨trivial, trivial⟩, Or.inr trivial, Or.inr trivial,
      Or.inr trivial, Or.inr trivial, Or.inr trivial, Or.inl trivial⟩
    exact fun g _ => ⟨Or.inr trivial, Or.inr trivial, fun _ => Or.inr trivial⟩
  · intro cmd _
    exact ⟨Or.inr trivial, Or.inr trivial, Or.inr trivial⟩

/-- In every run the slot table, the bitmaps and the counters agree, no slot refers to a node that
was deleted, and the assertions about slots hold. -/
theorem slot_table_consistent (cfg : ClusterConfig) (env : Env) (conf : Option NodesConf)
    (es : List (Env × ClusterEvent)) :
    match runNode cfg env conf es with
    | .ok cs => Table cs
    | .error e => e ≠ .delSlotAssert ∧ e ≠ .slotsCommandAssert := by
  have hinit := clusterInit_started cfg env conf
  unfold runNode
  cases hi : clusterInit cfg env conf with
  | error e =>
    rw [hi] at hinit
    rw [(returnsOr_error e).mp hinit]
    exact ⟨by decide, by decide⟩
  | ok cs =>
    rw [hi] at hinit
    have hg : Good anything cs := Started.good ((returnsOr_ok cs).mp hinit) (Or.inr trivial)
    rw [ok_bind]
    rcases runEvents_good hg trivial es (eachStep_of_all allowed_anything es cs) with h | h
    · obtain ⟨cs', hrun, hg'⟩ := h
      rw [hrun]
      exact hg'.toTable
    · obtain ⟨e, hrun, he⟩ := h
      rw [hrun]
      exact ⟨he.1, he.2.1⟩

/-- Slots are owned by masters, a slave owns none, and this node follows some node when it is a
slave. -/
structure RolesConsistent (cs : ClusterState) : Prop where
  owner : ∀ j x n, cs.slots j = some x → cs.nodes x = some n → n.flags.master = true
  slave : ∀ x n, cs.nodes x = some n → n.flags.slave = true → n.numslots = 0 ∧
    ∀ j, n.slots j = false ∧ cs.slots j ≠ some x
  follows : ∀ me, cs.nodes cs.myself = some me → me.flags.slave = true → ∃ y, me.slaveof = some y

/-- A packet as the nodes of the cluster send it: with one role, about nodes that have one, and not
under a name that only stands for a handshake. -/
structure Proper (cs : ClusterState) (hdr : ClusterMsg) : Prop where
  flags : hdr.flags.slave = !hdr.flags.master
  gossip : ∀ g ∈ hdr.body.gossip, OneRole g.flags
  sender : ∀ x n, clusterLookupNode cs hdr.sender = some x → cs.nodes x = some n →
    n.flags.handshake = false
  own : clusterLookupNode cs hdr.sender = some cs.myself → hdr.slaveof = nullName
  update : ∀ name e slots x n, hdr.body = .update name e slots → clusterLookupNode cs name = some x →
    cs.nodes x = some n → n.flags.handshake = false

/-- What the commands do not check: ADDSLOTS is for masters, SETSLOT NODE gives a slot to a master,
and a node in handshake cannot be replicated. -/
structure Orderly (env : Env) (cs : ClusterState) (ev : ClusterEvent) : Prop where
  addslots : ∀ js me, ev = .command (.addslots js) → checkSlots cs false js [] = none →
    cs.nodes cs.myself = some me → me.flags.master = true
  setslot : ∀ slot name x n me, ev = .command (.setslotNode slot name) →
    clusterLookupNode cs name = some x → cs.nodes x = some n → cs.nodes cs.myself = some me →
    me.flags.slave = false →
    ¬ (cs.slots slot = some cs.myself ∧ x ≠ cs.myself ∧ env.keysInSlot slot ≠ 0) →
    n.flags.master = true
  replicate : ∀ name x n me, ev = .command (.replicate name) → clusterLookupNode cs name = some x →
    cs.nodes x = some n → cs.nodes cs.myself = some me →
    ¬ (me.flags.master = true ∧ (me.numslots ≠ 0 ∨ env.dbSize ≠ 0)) → n.flags.handshake = false
  packet : ∀ link hdr, ev = .packet link hdr → Proper cs hdr

def roleGuards : Slack := ⟨False, True, True, True, fun _ => False⟩

theorem Orderly.allowed {ev : ClusterEvent} (h : Orderly env cs ev) : Allowed roleGuards env cs ev := by
  refine ⟨fun _ => trivial, ?_, ?_, Or.inl trivial⟩
  · intro link hdr he
    have hp := h.packet link hdr he
    refine ⟨Or.inl hp.flags, ?_, Or.inl hp.sender, Or.inl hp.own, Or.inl hp.update, Or.inr trivial,
      Or.inr trivial, Or.inr trivial, Or.inl trivial⟩
    exact fun g hg => ⟨Or.inl (hp.gossip g hg), Or.inr trivial, fun _ => Or.inr trivial⟩
  · intro cmd hc
    refine ⟨Or.inl ?_, Or.inl ?_, Or.inl ?_⟩
    · exact fun js me hj => h.addslots js me (hj ▸ hc)
    · exact fun slot name x n me hs => h.setslot slot name x n me (hs ▸ hc)
    · exact fun name x n me hr => h.replicate name x n me (hr ▸ hc)

theorem Good.rolesConsistent (hg : Good k cs) (hk : ¬ k.role) : RolesConsistent cs := by
  have hr := hg.roles.resolve_right hk
  refine ⟨hr.owner, ?_, hr.follows⟩
  intro x n hx hslave
  have hnone : ∀ j, cs.slots j ≠ some x := by
    intro j hj
    have hm := hr.owner j x n hj hx
    rw [(hr.oneRole x n hx).not_slave hm] at hslave
    cases hslave
  have hbits : ∀ j, n.slots j = false := by
    intro j
    by_contra h
    rw [Bool.not_eq_false] at h
    exact hnone j ((hg.toTable.bit x n hx j).mp h)
  refine ⟨?_, fun j => ⟨hbits j, hnone j⟩⟩
  rw [hg.toTable.count x n hx, Finset.card_eq_zero, Finset.filter_eq_empty_iff]
  intro j _ h
  rw [hbits j] at h
  cases h

/-- In a run of orderly events roles stay consistent, and no assertion or pointer fails. -/
theorem roles_consistent_of_orderly (cfg : ClusterConfig) (env : Env)
    (es : List (Env × ClusterEvent))
    (h : ∀ cs, clusterInit cfg env none = .ok cs → EachStep Orderly cfg cs es) :
    ∃ cs, runNode cfg env none es = .ok cs ∧ RolesConsistent cs := by
  obtain ⟨cs, hi, hs, hr⟩ := clusterInit_none cfg env
  have hg : Good roleGuards cs := hs.good (Or.inl hr)
  have hall := EachStep.mono (fun _ _ _ ho => Orderly.allowed ho) es cs (h cs hi)
  unfold runNode
  rw [hi, ok_bind]
  rcases runEvents_good hg trivial es hall with h | h
  · obtain ⟨cs', hrun, hg'⟩ := h
    exact ⟨cs', hrun, hg'.rolesConsistent (fun hk => hk)⟩
  · obtain ⟨e, -, he⟩ := h
    exact he.2.2.elim

theorem roles_consistent_of_addslots : ∃ cs,
    runNode defaultConfig (quietEnv 0 5) none [(quietEnv 1 6, .command (.addslots [0]))] = .ok cs ∧
      RolesConsistent cs := by
  apply roles_consistent_of_orderly
  intro cs hi
  cases hi
  refine ⟨⟨?_, ?_, ?_, ?_⟩, fun _ _ => trivial⟩
  · intro js me _ _ hme
    cases hme
    rfl
  · intro slot name x n me h
    cases h
  · intro name x n me h
    cases h
  · intro link hdr h
    cases h

theorem forSlots_at {f : ClusterState → Slot → Except ClusterFault ClusterState} {j : Slot}
    (h : ∀ c i, i ≠ j → f c i = .ok c) (cs : ClusterState) : forSlots f cs = f cs j := by
  have hout : ∀ (l : List Slot) (c : ClusterState), j ∉ l → l.foldlM f c = .ok c := by
    intro l
    induction l with
    | nil => exact fun c _ => rfl
    | cons i l ih =>
      intro c hj
      rw [List.mem_cons, not_or] at hj
      rw [List.foldlM_cons, h c i (Ne.symm hj.1)]
      exact ih c hj.2
  have hin : ∀ (l : List Slot) (c : ClusterState), l.Nodup → j ∈ l → l.foldlM f c = f c j := by
    intro l
    induction l with
    | nil =>
      intro c _ hj
      cases hj
    | cons i l ih =>
      intro c hnd hj
      rw [List.nodup_cons] at hnd
      rw [List.foldlM_cons]
      by_cases hij : i = j
      · subst hij
        cases hf : f c i with
        | ok c' => exact hout l c' hnd.1
        | error e => rfl
      · rw [h c i hij]
        exact ih c hnd.2 ((List.mem_cons.mp hj).resolve_left (Ne.symm hij))
  exact hin _ cs (List.nodup_finRange _) (List.mem_finRange j)

theorem stepEvent_addslots_single (cfg : ClusterConfig) (env : Env) (cs : ClusterState) (j : Slot) :
    stepEvent cfg env cs (.command (.addslots [j])) =
      if (cs.slots j).isSome then .ok cs else changeSlot false [j] cs j := by
  have h : forSlots (changeSlot false [j]) cs = changeSlot false [j] cs j := by
    apply forSlots_at
    intro c i hij
    rw [changeSlot, if_neg]
    rw [List.mem_singleton]
    exact hij
  have hstep : stepEvent cfg env cs (.command (.addslots [j])) =
      changeSlots cs false [j] >>= fun r => .ok r.1 := rfl
  rw [hstep, changeSlots, h]
  unfold checkSlots
  rw [if_neg (fun h => Bool.false_ne_true h.1)]
  by_cases hs : (cs.slots j).isSome = true
  · rw [if_pos ⟨rfl, hs⟩, if_pos hs]
    rfl
  · rw [if_neg (fun h => hs h.2), if_neg List.not_mem_nil, if_neg hs]
    cases changeSlot false [j] cs j with
    | ok c => rfl
    | error e => rfl

/-- ADDSLOTS gives a slot to a replica, and the next REPLICATE fails an assertion. -/
theorem addslots_on_replica_aborts :
    runNode defaultConfig (quietEnv 0 5) none
      [(quietEnv 1 7, .command (.meet (some [49]) 6380 16380)),
       (quietEnv 2 7, .linkConnected 1),
       (quietEnv 3 7, .packet (some 1) (pongFrom 9)),
       (quietEnv 4 7, .command (.replicate 9)),
       (quietEnv 5 7, .command (.addslots [0])),
       (quietEnv 6 7, .command (.replicate 9))] = .error .setMasterSlotsAssert := by
  unfold runNode
  simp only [runEvents, stepEvent_addslots_single]
  rfl

end RedisCore.Cluster
