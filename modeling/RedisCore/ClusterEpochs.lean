import RedisCore.ClusterRestart

namespace RedisCore.Cluster
open Function (update_of_ne update_self)

variable {k : Slack} {cs cs' cs'' : ClusterState} {x y : NodeId} {n m : ClusterNode} {j : Slot}
variable {P : NodeName → Prop}

structure SaneMsg (P : NodeName → Prop) (msg : ClusterMsg) : Prop where
  sender : P msg.sender
  config : msg.configEpoch ≤ msg.currentEpoch
  update : ∀ name e slots, msg.body = .update name e slots → e ≤ msg.currentEpoch
  gossip : ∀ g ∈ msg.body.gossip, g.flags.handshake = false ∧ (g.flags.myself = true → P g.nodename)

theorem Honest.sane (hg : Good k cs) (hk : ¬ k.epoch) (hn : Named P cs) {msg : ClusterMsg}
    (h : Honest k cs msg) : SaneMsg P msg := by
  have he := hg.epochs.resolve_right hk
  have hbody := h.body
  refine ⟨?_, ?_, ?_, ?_⟩
  · obtain ⟨me, hme, hs⟩ := h.sender
    rw [hs]
    exact hn.mine _ me hme (hg.own me hme).1
  · obtain ⟨x, n, hx, hc⟩ := h.config
    rw [hc, h.current]
    exact he.known x n hx
  · intro name e slots hb
    rw [hb] at hbody
    obtain ⟨x, n, hx, hc⟩ := hbody
    rw [hc, h.current]
    exact he.known x n hx
  · have hgossip : ∀ gossip, HonestGossip cs gossip → ∀ g ∈ gossip,
        g.flags.handshake = false ∧ (g.flags.myself = true → P g.nodename) := by
      intro gossip hh g hmem
      obtain ⟨hhand, x, n, hx, hname, hflags⟩ := hh g hmem
      refine ⟨hhand, ?_⟩
      rw [hflags, hname]
      exact hn.mine x n hx
    cases hb : msg.body with
    | ping gossip =>
      rw [hb] at hbody
      exact hgossip gossip hbody
    | pong gossip =>
      rw [hb] at hbody
      exact hgossip gossip hbody
    | meet gossip =>
      rw [hb] at hbody
      exact hgossip gossip hbody
    | _ => exact fun g hmem => absurd hmem List.not_mem_nil

theorem Named.edit (h : Named k.proc cs) (hv : View cs) (hk : ¬ k.epoch) (e : Edit k cs cs') :
    Named k.proc cs' := by
  have hall : ∀ x n', cs'.nodes x = some n' → (n'.flags.handshake = true → ¬ k.proc n'.name) ∧
      (n'.flags.myself = true → k.proc n'.name) := by
    intro x n' hx
    by_cases hlt : x < cs.fresh
    · -- a node that was there before
      obtain ⟨n, hn, hg⟩ := e.later.1.old x n' hlt hx
      rw [hg.mine]
      rcases hg.label with ⟨hname, hhand⟩ | ⟨hhand, hhand', hp⟩
      · rw [hname, hhand]
        exact ⟨h.temporary x n hn, h.mine x n hn⟩
      · rw [hhand']
        exact ⟨fun hf => absurd hf Bool.false_ne_true, fun _ => hp.resolve_right hk⟩
    · have hbound := (hv.edit e).toTable.bound x n' hx
      rcases e.fresh with heq | ⟨n, hfresh, hn, hproc, hmine⟩
      · exact absurd (heq ▸ hbound) hlt
      · rw [hfresh] at hbound
        have hxf : x = cs.fresh := le_antisymm (Nat.lt_succ_iff.mp hbound) (not_lt.mp hlt)
        rw [hxf, hn, Option.some.injEq] at hx
        rw [← hx]
        exact ⟨fun hh hp => hk (hproc hh hp), fun hm => (hmine hm).resolve_right hk⟩
  exact ⟨fun x n hx => (hall x n hx).1, fun x n hx => (hall x n hx).2⟩

structure Tidy (k : Slack) (cs : ClusterState) : Prop extends Good k cs where
  named : Named k.proc cs
  out : ∀ p ∈ cs.out, SaneMsg k.proc p.2

theorem Tidy.edit (h : Tidy k cs) (hk : ¬ k.epoch) (e : Edit k cs cs') : Tidy k cs' := by
  refine ⟨h.toGood.edit e, h.named.edit h.toView hk e, ?_⟩
  obtain ⟨msgs, ho, hmsgs⟩ := e.out
  intro p hp
  rw [ho] at hp
  rcases List.mem_append.mp hp with hp | hp
  · exact h.out p hp
  · exact (hmsgs p hp).sane h.toGood hk h.named

theorem Tidy.edits (h : Tidy k cs) (hk : ¬ k.epoch) (e : Edits k cs cs') : Tidy k cs' :=
  e.induct (fun _ _ e h => h.edit hk e) h

structure Network (ι : Type) where
  view : ι → ClusterState
  disk : ι → NodesConf
  sent : List (NodeName × ClusterMsg)

/-- What can happen: an event at one node, the delivery or the loss of a message, a node that saves
its file, and one that starts again from it. -/
inductive NetEvent (ι : Type) where
  | act (i : ι) (env : Env) (ev : ClusterEvent)
  | receive (i : ι) (env : Env) (link : Option NodeId) (msg : ℕ)
  | lose (msg : ℕ)
  | save (i : ι)
  | restart (i : ι) (env : Env)

section Network

variable {ι : Type} [DecidableEq ι] {cfg : ι → ClusterConfig} {net net' : Network ι}

def putNode (net : Network ι) (i : ι) (sent : List (NodeName × ClusterMsg)) :
    Except ClusterFault ClusterState → Option (Network ι)
  | .error _ => none
  | .ok cs => some { net with
      view := Function.update net.view i { cs with out := [] }
      sent := sent ++ cs.out }

/-- An event that cannot happen, or at which the node fails, gives nothing. -/
def stepNet (cfg : ι → ClusterConfig) (net : Network ι) : NetEvent ι → Option (Network ι)
  | .act _ _ (.packet _ _) => none
  | .act i env ev => putNode net i net.sent (stepEvent (cfg i) env (net.view i) ev)
  | .receive i env link msg => (net.sent[msg]?).bind (fun p =>
      putNode net i (net.sent.eraseIdx msg)
        (stepEvent (cfg i) env (net.view i) (.packet link p.2)))
  | .lose msg => some { net with sent := net.sent.eraseIdx msg }
  | .save i => some { net with
      disk := Function.update net.disk i (clusterSaveConfig (net.view i)) }
  | .restart i env => putNode net i net.sent (clusterInit (cfg i) env (some (net.disk i)))

def runNet (cfg : ι → ClusterConfig) (net : Network ι) : List (NetEvent ι) → Option (Network ι)
  | [] => some net
  | e :: es => (stepNet cfg net e).bind (fun net => runNet cfg net es)

/-- Every node starts without a file, under a random name, and saves its state. -/
def startNet (cfg : ι → ClusterConfig) (env : ι → Env) : Network ι :=
  let view := fun i => (clusterInit (cfg i) (env i) none).toOption.getD emptyCluster
  { view := view
    disk := fun i => clusterSaveConfig (view i)
    sent := [] }

/-- The random name of an event is not one that a node has. -/
def NewName (P : NodeName → Prop) : NetEvent ι → Prop
  | .act _ env _ => ¬ P env.randomName
  | .receive _ env _ _ => ¬ P env.randomName
  | _ => True

/-- The guards about epochs are in force, those about roles are not. -/
def epochGuards (P : NodeName → Prop) : Slack := ⟨True, False, True, True, P⟩

structure InOrder (P : NodeName → Prop) (net : Network ι) : Prop where
  view : ∀ i, Tidy (epochGuards P) (net.view i)
  lines : ∀ i, ∀ line ∈ (net.disk i).lines, SettledLine P line
  names : ∀ i, ((net.disk i).lines.map NodeLine.name).Nodup
  sent : ∀ p ∈ net.sent, SaneMsg P p.2

variable {P : NodeName → Prop}

theorem Tidy.quiet (h : Tidy k cs) : Tidy k { cs with out := [] } := by
  have ht := h.toTable
  have he : Epochs cs ∨ k.epoch := h.epochs
  have hr : Roles cs ∨ k.role := h.roles
  refine ⟨⟨⟨⟨ht.bit, ht.owner, ht.count, ht.importing, ht.migrating, ht.listed, ht.handshake,
    ht.bound⟩, h.me⟩, h.own, ?_, ?_⟩, ⟨h.named.temporary, h.named.mine⟩, ?_⟩
  · apply hr.imp_left
    exact fun hr => ⟨hr.attached, hr.slaves, hr.distinct, hr.slaveFlag, hr.oneRole, hr.owner,
      hr.follows, hr.joined, hr.master⟩
  · exact he.imp_left (fun he => ⟨he.known, he.election⟩)
  · exact fun p hp => absurd hp List.not_mem_nil

variable {env : Env} {ev : ClusterEvent} {i : ι} {sent : List (NodeName × ClusterMsg)}
  {r : Except ClusterFault ClusterState} {e : NetEvent ι}

theorem allowed_receive (h : Tidy (epochGuards P) cs) {link : Option NodeId}
    {hdr : ClusterMsg} (hnew : ¬ P env.randomName) (hs : SaneMsg P hdr) :
    Allowed (epochGuards P) env cs (.packet link hdr) := by
  refine ⟨fun hp => hnew hp, ?_, ?_, Or.inl trivial⟩
  · rintro link' hdr' heq
    cases heq
    refine ⟨Or.inr trivial, ?_, Or.inl ?_, Or.inr trivial, Or.inr trivial, Or.inl hs.update,
      Or.inl hs.config, Or.inl hs.sender, Or.inl trivial⟩
    · intro g hg
      obtain ⟨hh, hm⟩ := hs.gossip g hg
      exact ⟨Or.inr trivial, Or.inl hh, fun hmine => Or.inl (hm hmine)⟩
    · -- a node in handshake has no name that a message is sent under
      intro x n hx hn
      by_contra hh
      rw [Bool.not_eq_false] at hh
      obtain ⟨n', hn', hname⟩ := h.toTable.listed _ x hx
      rw [hn, Option.some.injEq] at hn'
      apply h.named.temporary x n hn hh
      rw [hn', hname]
      exact hs.sender
  · intro cmd heq
    cases heq

theorem allowed_act (hnew : ¬ P env.randomName)
    (hev : ∀ link hdr, ev ≠ .packet link hdr) : Allowed (epochGuards P) env cs ev :=
  ⟨fun hp => hnew hp, fun link hdr heq => absurd heq (hev link hdr),
    fun _ _ => ⟨Or.inr trivial, Or.inr trivial, Or.inr trivial⟩, Or.inl trivial⟩

theorem InOrder.put (h : InOrder P net) (hsent : ∀ p ∈ sent, p ∈ net.sent)
    (hr : ∀ cs, r = .ok cs → Tidy (epochGuards P) cs) (hput : putNode net i sent r = some net') :
    InOrder P net' := by
  cases r with
  | error e => cases hput
  | ok cs =>
    have ht := hr cs rfl
    rw [putNode, Option.some.injEq] at hput
    rw [← hput]
    refine ⟨?_, h.lines, h.names, ?_⟩
    · intro i'
      show Tidy _ (Function.update net.view i _ i')
      by_cases hi : i' = i
      · rw [hi, update_self]
        exact ht.quiet
      · rw [update_of_ne hi]
        exact h.view i'
    · intro p hp
      rcases List.mem_append.mp hp with hp | hp
      · exact h.sent p (hsent p hp)
      · exact ht.out p hp

omit [DecidableEq ι] in
variable (cfg) in
theorem restart_tidy (h : InOrder P net) (i : ι) (env : Env) :
    ReturnsOr .badConfig (clusterInit (cfg i) env (some (net.disk i))) (Tidy (epochGuards P)) := by
  apply (clusterInit_restored (h.lines i) (h.names i)).mono
  intro cs hr
  have hg : Good (epochGuards P) cs := hr.toStarted.good (Or.inr trivial)
  refine ⟨hg, hr.settled.named, ?_⟩
  rw [hr.silent]
  exact fun p hp => absurd hp List.not_mem_nil

theorem stepEvent_edits (h : Tidy (epochGuards P) cs) {c : ClusterConfig}
    (ha : Allowed (epochGuards P) env cs ev)
    (hs : stepEvent c env cs ev = .ok cs') : Edits (epochGuards P) cs cs' :=
  (stepEvent_runs h.toGood trivial ha).of_ok hs

theorem InOrder.step (h : InOrder P net) (hnew : NewName P e)
    (hs : stepNet cfg net e = some net') : InOrder P net' := by
  have hevent : ∀ {i : ι} {env : Env} {ev : ClusterEvent}, Allowed (epochGuards P) env (net.view i) ev →
      ∀ cs, stepEvent (cfg i) env (net.view i) ev = .ok cs → Tidy (epochGuards P) cs :=
    fun {i env ev} ha cs hok => (h.view i).edits (fun hk => hk) (stepEvent_edits (h.view i) ha hok)
  cases e with
  | act i env ev =>
    have hact : (∀ link hdr, ev ≠ .packet link hdr) → InOrder P net' := by
      intro hev
      have hput : putNode net i net.sent (stepEvent (cfg i) env (net.view i) ev) = some net' := by
        cases ev with
        | packet link hdr => exact absurd rfl (hev link hdr)
        | _ => exact hs
      exact h.put (fun p hp => hp) (hevent (allowed_act hnew hev)) hput
    cases ev with
    | packet link hdr => cases hs
    | _ =>
      apply hact
      intro link hdr heq
      cases heq
  | receive i env link msg =>
    obtain ⟨p, hm, hput⟩ := Option.bind_eq_some_iff.mp hs
    have hp : p ∈ net.sent := List.mem_of_getElem? hm
    exact h.put (fun q hq => List.mem_of_mem_eraseIdx hq)
      (hevent (allowed_receive (h.view i) hnew (h.sent p hp))) hput
  | lose msg =>
    rw [stepNet, Option.some.injEq] at hs
    rw [← hs]
    exact ⟨h.view, h.lines, h.names, fun p hp => h.sent p (List.mem_of_mem_eraseIdx hp)⟩
  | save i =>
    rw [stepNet, Option.some.injEq] at hs
    rw [← hs]
    have hdisk : ∀ i', Function.update net.disk i (clusterSaveConfig (net.view i)) i' =
        net.disk i' ∨ Function.update net.disk i (clusterSaveConfig (net.view i)) i' =
        clusterSaveConfig (net.view i) := by
      intro i'
      by_cases hi : i' = i
      · rw [hi, update_self]
        exact Or.inr rfl
      · rw [update_of_ne hi]
        exact Or.inl rfl
    refine ⟨h.view, ?_, ?_, h.sent⟩
    · intro i'
      show ∀ line ∈ (Function.update net.disk i (clusterSaveConfig (net.view i)) i').lines, _
      rcases hdisk i' with heq | heq
      · rw [heq]
        exact h.lines i'
      · rw [heq]
        exact clusterSaveConfig_settled (h.view i).named
    · intro i'
      show ((Function.update net.disk i (clusterSaveConfig (net.view i)) i').lines.map _).Nodup
      rcases hdisk i' with heq | heq
      · rw [heq]
        exact h.names i'
      · rw [heq]
        exact clusterSaveConfig_nodup _
  | restart i env =>
    have hr := restart_tidy cfg h i env
    apply h.put (fun p hp => hp) _ hs
    intro cs hok
    rw [hok] at hr
    exact hr

theorem InOrder.run : ∀ (es : List (NetEvent ι)) (net : Network ι), InOrder P net →
    (∀ e ∈ es, NewName P e) → runNet cfg net es = some net' → InOrder P net' := by
  intro es
  induction es with
  | nil =>
    intro net h _ hr
    rw [runNet, Option.some.injEq] at hr
    exact hr ▸ h
  | cons e es ih =>
    intro net h hnew hr
    obtain ⟨net1, hs, hr'⟩ := Option.bind_eq_some_iff.mp hr
    exact ih net1 (h.step (hnew e List.mem_cons_self) hs)
      (fun e' he' => hnew e' (List.mem_cons_of_mem e he')) hr'

def Names (env : ι → Env) (name : NodeName) : Prop := ∃ i, name = (env i).randomName

omit [DecidableEq ι] in
theorem startNet_inOrder (cfg : ι → ClusterConfig) (env : ι → Env) :
    InOrder (Names env) (startNet cfg env) := by
  have hview : ∀ i, Tidy (epochGuards (Names env)) ((startNet cfg env).view i) := by
    intro i
    obtain ⟨cs, hi, hs, -⟩ := clusterInit_none (cfg i) (env i)
    have heq : (startNet cfg env).view i = cs := by
      show (clusterInit (cfg i) (env i) none).toOption.getD emptyCluster = cs
      rw [hi]
      rfl
    have hset : Settled (Names env) cs := clusterInit_none_settled ⟨i, rfl⟩ hi
    have hg : Good (epochGuards (Names env)) cs := hs.good (Or.inr trivial)
    rw [heq]
    refine ⟨hg, hset.named, ?_⟩
    rw [hs.silent]
    exact fun p hp => absurd hp List.not_mem_nil
  refine ⟨hview, ?_, ?_, fun p hp => absurd hp List.not_mem_nil⟩
  · exact fun i => clusterSaveConfig_settled (hview i).named
  · exact fun i => clusterSaveConfig_nodup _

/-- No recorded epoch is ahead of the current one, and a new epoch is ahead of all recorded ones. -/
structure EpochOrder (cs : ClusterState) : Prop where
  known : ∀ x n, cs.nodes x = some n → n.configEpoch ≤ cs.currentEpoch
  bump : ∀ cs' me, clusterBumpConfigEpochWithoutConsensus cs = .ok (cs', true) →
    cs'.nodes cs'.myself = some me → ∀ x n, cs.nodes x = some n → n.configEpoch < me.configEpoch
  collision : ∀ s cs' me, clusterHandleConfigEpochCollision cs s = .ok cs' →
    cs'.nodes cs'.myself = some me →
    cs' = cs ∨ ∀ x n, cs.nodes x = some n → n.configEpoch < me.configEpoch

structure NotLess (cs cs' : ClusterState) : Prop where
  current : cs.currentEpoch ≤ cs'.currentEpoch
  recorded : ∀ x n n', cs.nodes x = some n → cs'.nodes x = some n' → n.configEpoch ≤ n'.configEpoch

structure Remembered (cs cs' : ClusterState) : Prop where
  current : cs.currentEpoch ≤ cs'.currentEpoch
  recorded : ∀ x n, cs.nodes x = some n → cs.table n.name = some x → n.flags.handshake = false →
    ∃ x' n', cs'.table n.name = some x' ∧ cs'.nodes x' = some n' ∧ n'.configEpoch =
      (if n.flags.slave then n.slaveof.bind cs.nodes else none).elim n.configEpoch
        ClusterNode.configEpoch

theorem newEpoch_greater (he : ∀ x n, cs.nodes x = some n → n.configEpoch ≤ cs.currentEpoch)
    {me : ClusterNode} (hme : (mapNode { cs with currentEpoch := cs.currentEpoch+1 } cs.myself
      (fun n => { n with configEpoch := cs.currentEpoch+1 })).nodes cs.myself = some me) :
    ∀ x n, cs.nodes x = some n → n.configEpoch < me.configEpoch := by
  rw [mapNode_nodes, if_pos rfl, Option.map_eq_some_iff] at hme
  obtain ⟨p, -, rfl⟩ := hme
  intro x n hx
  exact Nat.lt_succ_of_le (he x n hx)

theorem epochOrder_of_good (hg : Good k cs) (hk : ¬ k.epoch) : EpochOrder cs := by
  have he := (hg.epochs.resolve_right hk).known
  obtain ⟨p, hp, hd⟩ := hg.deref_me
  have hp' : ({ cs with currentEpoch := cs.currentEpoch+1 } : ClusterState).nodes cs.myself =
      some p := hp
  refine ⟨he, ?_, ?_⟩
  · intro cs' me hb hme
    unfold clusterBumpConfigEpochWithoutConsensus at hb
    rw [hd, ok_bind] at hb
    split_ifs at hb
    · dsimp only at hb
      rw [updateNode_ok hp', ok_bind, Except.ok.injEq, Prod.mk.injEq] at hb
      rw [← hb.1] at hme
      exact newEpoch_greater he hme
    · cases hb
  · intro s cs' me hb hme
    unfold clusterHandleConfigEpochCollision at hb
    cases hs : cs.nodes s with
    | none =>
      rw [deref, hs] at hb
      cases hb
    | some q =>
      rw [deref_ok hs, ok_bind, hd, ok_bind] at hb
      split_ifs at hb
      · exact Or.inl (Except.ok.inj hb).symm
      · exact Or.inl (Except.ok.inj hb).symm
      · dsimp only at hb
        rw [updateNode_ok hp', Except.ok.injEq] at hb
        rw [← hb] at hme
        exact Or.inr (newEpoch_greater he hme)

theorem Edits.notLess (e : Edits k cs cs') (hv : View cs) (hk : ¬ k.epoch) : NotLess cs cs' := by
  refine ⟨e.later.current, ?_⟩
  intro x n n' hn hn'
  obtain ⟨p, hp, hg⟩ := e.later.old x n' (hv.toTable.bound x n hn) hn'
  rw [hn, Option.some.injEq] at hp
  rw [hp]
  exact hg.epoch.resolve_right hk

theorem NotLess.refl (cs : ClusterState) : NotLess cs cs := by
  refine ⟨le_refl _, ?_⟩
  intro x n n' hn hn'
  rw [hn, Option.some.injEq] at hn'
  rw [hn']

def EpochStep (net net' : Network ι) : NetEvent ι → Prop
  | .restart i _ => (net.disk i = clusterSaveConfig (net.view i) →
      Remembered (net.view i) (net'.view i)) ∧ ∀ i', i' ≠ i → net'.view i' = net.view i'
  | _ => ∀ i, NotLess (net.view i) (net'.view i)

theorem putNode_view (h : putNode net i sent r = some net') :
    ∃ cs, r = .ok cs ∧ net'.view = Function.update net.view i { cs with out := [] } := by
  cases r with
  | error e => cases h
  | ok cs =>
    rw [putNode, Option.some.injEq] at h
    exact ⟨cs, rfl, by rw [← h]⟩

theorem InOrder.notLess (h : InOrder P net) (ha : Allowed (epochGuards P) env (net.view i) ev)
    (hput : putNode net i sent (stepEvent (cfg i) env (net.view i) ev) = some net') :
    ∀ i', NotLess (net.view i') (net'.view i') := by
  obtain ⟨cs, hok, hview⟩ := putNode_view hput
  have hn := (stepEvent_edits (h.view i) ha hok).notLess (h.view i).toView (fun hk => hk)
  intro i'
  rw [hview]
  by_cases hi : i' = i
  · rw [hi, update_self]
    exact ⟨hn.current, hn.recorded⟩
  · rw [update_of_ne hi]
    exact NotLess.refl _

theorem InOrder.epochStep (h : InOrder P net) (hnew : NewName P e)
    (hs : stepNet cfg net e = some net') : EpochStep net net' e := by
  cases e with
  | act i env ev =>
    have hact : (∀ link hdr, ev ≠ .packet link hdr) → EpochStep net net' (.act i env ev) := by
      intro hev
      have hput : putNode net i net.sent (stepEvent (cfg i) env (net.view i) ev) = some net' := by
        cases ev with
        | packet link hdr => exact absurd rfl (hev link hdr)
        | _ => exact hs
      exact h.notLess (allowed_act hnew hev) hput
    cases ev with
    | packet link hdr => cases hs
    | _ =>
      apply hact
      intro link hdr heq
      cases heq
  | receive i env link msg =>
    obtain ⟨p, hm, hput⟩ := Option.bind_eq_some_iff.mp hs
    exact h.notLess (allowed_receive (h.view i) hnew (h.sent p (List.mem_of_getElem? hm))) hput
  | lose msg =>
    rw [stepNet, Option.some.injEq] at hs
    rw [← hs]
    exact fun i => NotLess.refl _
  | save i =>
    rw [stepNet, Option.some.injEq] at hs
    rw [← hs]
    exact fun i => NotLess.refl _
  | restart i env =>
    obtain ⟨cs, hok, hview⟩ := putNode_view hs
    refine ⟨?_, ?_⟩
    · intro hdisk
      rw [hdisk] at hok
      have hr := restart_recorded (cfg i) env (h.view i).named
      rw [hok] at hr
      obtain ⟨-, hcur, hrec⟩ := (returnsOr_ok _).mp hr
      rw [hview, update_self]
      refine ⟨hcur, ?_⟩
      intro x n hn hx hh
      exact hrec x n hn hx ((h.view i).toTable.bound x n hn) hh
    · intro i' hi
      rw [hview, update_of_ne hi]

/-- In every run of the network no recorded epoch is ahead of the current one, also in the middle of
an event, new epochs are ahead of all recorded ones, and epochs decrease only at a restart: the
epoch that is recorded for a slave becomes that of its master. -/
theorem epochs_consistent (cfg : ι → ClusterConfig) (env : ι → Env) (es : List (NetEvent ι))
    (hnew : ∀ e ∈ es, NewName (Names env) e) (hrun : runNet cfg (startNet cfg env) es = some net) :
    (∀ i cs, Edits (epochGuards (Names env)) (net.view i) cs → EpochOrder cs) ∧
      ∀ e net', NewName (Names env) e → stepNet cfg net e = some net' → EpochStep net net' e := by
  have h := InOrder.run es (startNet cfg env) (startNet_inOrder cfg env) hnew hrun
  refine ⟨?_, fun e net' he hs => h.epochStep he hs⟩
  intro i cs he
  exact epochOrder_of_good ((h.view i).toGood.edits he) (fun hk => hk)

end Network

theorem epochs_consistent_bumpepoch : ∃ net,
    runNet (fun _ : Unit => defaultConfig) (startNet (fun _ => defaultConfig) (fun _ => quietEnv 0 5))
      [.act () (quietEnv 1 7) (.command .bumpepoch)] = some net ∧
    (∀ i cs, Edits (epochGuards (Names (fun _ : Unit => quietEnv 0 5))) (net.view i) cs →
      EpochOrder cs) ∧
    ∀ e net', NewName (Names (fun _ : Unit => quietEnv 0 5)) e →
      stepNet (fun _ => defaultConfig) net e = some net' → EpochStep net net' e := by
  refine ⟨_, rfl, ?_⟩
  apply epochs_consistent (fun _ : Unit => defaultConfig) (fun _ => quietEnv 0 5)
    [.act () (quietEnv 1 7) (.command .bumpepoch)] _ rfl
  intro e he
  rw [List.mem_singleton] at he
  rw [he]
  rintro ⟨i, h⟩
  cases h

theorem forSlots_loadSlot_none {line : NodeLine} (hs : ∀ j, line.slots j = false)
    (hm : ∀ j, line.migrating j = none) (hi : ∀ j, line.importing j = none) (env : Env)
    (cs : ClusterState) (x : NodeId) : forSlots (loadSlot env line x) cs = .ok cs := by
  have hstep : ∀ c j, loadSlot env line x c j = .ok c := by
    intro c j
    unfold loadSlot
    rw [hm j, hi j, hs j]
    rfl
  unfold forSlots
  generalize List.finRange 16384 = l
  induction l with
  | nil => rfl
  | cons j l ih =>
    rw [List.foldlM_cons, hstep]
    exact ih

def plainLine (name : NodeName) (flags : NodeFlags) (addr : NodeAddr) (slaveof : Option NodeName) :
    NodeLine :=
  { name := name
    addr := addr
    flags := flags
    slaveof := slaveof
    configEpoch := 0
    slots := fun _ => false
    migrating := fun _ => none
    importing := fun _ => none }

def slaveConf : NodesConf :=
  { lines := [plainLine 5 { noFlags with myself := true, slave := true } ⟨[], 0, 0⟩ (some 9),
      plainLine 9 { noFlags with master := true } ⟨[49], 6380, 16380⟩ none]
    currentEpoch := 5
    lastVoteEpoch := 0 }

theorem clusterInit_slaveConf : ∃ cs me,
    clusterInit defaultConfig (quietEnv 9 0) (some slaveConf) = .ok cs ∧
      cs.nodes cs.myself = some me ∧ me.name = 5 ∧ me.configEpoch = 0 := by
  have hloop : ∀ name flags addr slaveof env cs x,
      forSlots (loadSlot env (plainLine name flags addr slaveof) x) cs = .ok cs :=
    fun name flags addr slaveof env cs x =>
      forSlots_loadSlot_none (fun _ => rfl) (fun _ => rfl) (fun _ => rfl) env cs x
  unfold clusterInit clusterLoadConfig slaveConf
  simp only [List.foldlM_cons, List.foldlM_nil, loadLine, hloop]
  exact ⟨_, _, rfl, rfl, rfl, rfl⟩

def twoConfigs : Bool → ClusterConfig := fun _ => defaultConfig

def twoNames : Bool → Env := fun i => quietEnv 0 (if i then 9 else 5)

def becomeSlave : List (NetEvent Bool) :=
  [.act false (quietEnv 1 7) (.command (.setConfigEpoch 5)),
   .act false (quietEnv 2 7) (.command (.meet (some [49]) 6380 16380)),
   .act false (quietEnv 3 7) (.linkConnected 1),
   .receive true (quietEnv 4 8) none 0,
   .receive false (quietEnv 5 7) (some 1) 0,
   .act false (quietEnv 6 7) (.command (.replicate 9)),
   .save false]

theorem becomeSlave_run : ∃ net, runNet twoConfigs (startNet twoConfigs twoNames) becomeSlave =
    some net ∧ net.disk false = slaveConf ∧ ∃ n,
      (net.view false).nodes (net.view false).myself = some n ∧ n.name = 5 ∧ n.configEpoch = 5 :=
  ⟨_, rfl, rfl, _, rfl, rfl, rfl⟩

/-- A restart from the file that was just saved lowers the epoch a slave has on record. -/
theorem restart_lowers_epoch : ∃ net net' n n',
    runNet twoConfigs (startNet twoConfigs twoNames) becomeSlave = some net ∧
      stepNet twoConfigs net (.restart false (quietEnv 9 0)) = some net' ∧
      (net.view false).nodes (net.view false).myself = some n ∧
      (net'.view false).nodes (net'.view false).myself = some n' ∧
      n'.name = n.name ∧ n'.configEpoch < n.configEpoch := by
  obtain ⟨net, hrun, hdisk, n, hn, hname, hepoch⟩ := becomeSlave_run
  obtain ⟨cs, me, hinit, hme, hname', hepoch'⟩ := clusterInit_slaveConf
  have hstep : stepNet twoConfigs net (.restart false (quietEnv 9 0)) =
      putNode net false net.sent (clusterInit defaultConfig (quietEnv 9 0) (some (net.disk false))) :=
    rfl
  rw [hdisk, hinit] at hstep
  refine ⟨net, _, n, me, hrun, hstep, hn, ?_, by rw [hname, hname'], by rw [hepoch, hepoch']; decide⟩
  show (Function.update net.view false { cs with out := [] } false).nodes
    (Function.update net.view false { cs with out := [] } false).myself = some me
  rw [update_self]
  exact hme

end RedisCore.Cluster
