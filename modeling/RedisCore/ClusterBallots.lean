import RedisCore.ClusterSafety

namespace RedisCore.Cluster

variable {k : Slack} {cs cs' cs'' : ClusterState} {x y : NodeId} {n m : ClusterNode} {j : Slot}
variable {cfg : ClusterConfig} {env : Env} {name : NodeName} {hdr : ClusterMsg}

def still : Slack := ⟨True, True, True, False, fun _ => False⟩

def MsgBody.auth : MsgBody → Bool
  | .authRequest => true
  | .authAck => true
  | _ => false

structure Calm (cs cs' : ClusterState) : Prop extends SameBallot cs cs' where
  current : cs.currentEpoch ≤ cs'.currentEpoch
  out : ∃ msgs, cs'.out = cs.out ++ msgs ∧ ∀ p ∈ msgs, p.2.body.auth = false

theorem Calm.refl (cs : ClusterState) : Calm cs cs :=
  ⟨⟨rfl, rfl, rfl, rfl⟩, le_refl _, [], (List.append_nil _).symm, fun _ hp => absurd hp List.not_mem_nil⟩

theorem Calm.trans (h : Calm cs cs') (h' : Calm cs' cs'') : Calm cs cs'' := by
  obtain ⟨msgs, ho, hm⟩ := h.out
  obtain ⟨msgs', ho', hm'⟩ := h'.out
  refine ⟨⟨h'.vote.trans h.vote, h'.count.trans h.count, h'.sent.trans h.sent,
    h'.epoch.trans h.epoch⟩, h.current.trans h'.current, msgs ++ msgs', ?_, ?_⟩
  · rw [ho', ho, List.append_assoc]
  · intro p hp
    rcases List.mem_append.mp hp with hp | hp
    · exact hm p hp
    · exact hm' p hp

theorem Edit.ballots (e : Edit k cs cs') (hk : ¬ k.election) : SameBallot cs cs' := by
  cases e with
  | aside hv hb ho => exact hb
  | ballot hv ho hel he => exact absurd hel hk
  | touch ht => exact ht.toSameBallot
  | promote x b =>
    have hf := unlink_frame cs x
    exact ⟨hf.vote, hf.count, hf.sent, hf.epoch⟩
  | attach x m n =>
    have hf := unlink_frame cs x
    exact ⟨hf.vote, hf.count, hf.sent, hf.epoch⟩
  | follow m =>
    have hf := quitRole_frame cs
    exact ⟨hf.vote, hf.count, hf.sent, hf.epoch⟩
  | remove x n =>
    have hf := detached_frame cs x n
    exact ⟨hf.vote, hf.count, hf.sent, hf.epoch⟩
  | _ => exact ⟨rfl, rfl, rfl, rfl⟩

variable {msg request : ClusterMsg} {me : ClusterNode} {link : Option NodeId}

theorem Honest.not_auth (hk : ¬ k.election) (h : Honest k cs msg) : msg.body.auth = false := by
  have hb := h.body
  cases hm : msg.body with
  | authRequest =>
    rw [hm] at hb
    exact absurd hb hk
  | authAck =>
    rw [hm] at hb
    exact absurd hb hk
  | _ => rfl

theorem Edit.calm (e : Edit k cs cs') (hk : ¬ k.election) : Calm cs cs' := by
  obtain ⟨msgs, ho, hm⟩ := e.out
  exact ⟨e.ballots hk, e.later.1.current, msgs, ho, fun p hp => (hm p hp).not_auth hk⟩

theorem Edits.calm (e : Edits k cs cs') (hk : ¬ k.election) : Calm cs cs' := by
  induction e with
  | refl => exact Calm.refl _
  | tail _ e ih => exact ih.trans (e.calm hk)

theorem Good.waive (h : Good k cs) (k' : Slack) (hr : k'.role) (he : k'.epoch) : Good k' cs :=
  ⟨h.toView, h.own, Or.inr hr, Or.inr he⟩

def KnownAs (name : NodeName) (cs : ClusterState) : Prop :=
  ∃ me, cs.nodes cs.myself = some me ∧ me.name = name ∧ me.flags.handshake = false

theorem KnownAs.edits (h : KnownAs name cs) (hg : Good k cs) (e : Edits k cs cs') :
    KnownAs name cs' := by
  obtain ⟨me, hme, hname, hh⟩ := h
  obtain ⟨me', hme'⟩ := (hg.edits e).me
  have hl := e.later
  obtain ⟨p, hp, hgrown⟩ := hl.old _ me' (hl.myself ▸ hg.toTable.bound _ me hme) hme'
  rw [hl.myself, hme, Option.some.injEq] at hp
  obtain ⟨hh', hname'⟩ := hgrown.joined (hp ▸ hh)
  exact ⟨me', hme', hname'.trans (hp ▸ hname), hh'⟩

theorem KnownAs.sender (h : KnownAs name cs) (hm : Honest k cs msg) : msg.sender = name := by
  obtain ⟨me, hme, hname, -⟩ := h
  obtain ⟨me', hme', hs⟩ := hm.sender
  rw [hme, Option.some.injEq] at hme'
  rw [hs, ← hme', hname]

structure Voted (name dest : NodeName) (request : ClusterMsg) (cs cs' : ClusterState) : Prop where
  current : cs'.currentEpoch = cs.currentEpoch
  count : cs'.failoverAuthCount = cs.failoverAuthCount
  sent : cs'.failoverAuthSent = cs.failoverAuthSent
  epoch : cs'.failoverAuthEpoch = cs.failoverAuthEpoch
  vote : cs'.lastVoteEpoch = cs.currentEpoch
  first : cs.lastVoteEpoch ≠ cs.currentEpoch
  asked : cs.currentEpoch ≤ request.currentEpoch
  out : cs'.out = cs.out ∨ ∃ ack, cs'.out = cs.out ++ [(dest, ack)] ∧ ack.body = .authAck ∧
    ack.sender = name ∧ ack.currentEpoch = cs.currentEpoch

theorem grantVote_voted (hg : Good k cs) (hel : k.election) (hx : cs.nodes x = some n)
    (hy : cs.nodes y = some m) (hname : KnownAs name cs) (hfirst : cs.lastVoteEpoch ≠ cs.currentEpoch) (hasked : cs.currentEpoch ≤ request.currentEpoch) :
    Leads k (grantVote cfg env cs x y) (Voted name n.name request cs) := by
  unfold grantVote
  dsimp only
  have hvote : Edits k cs { cs with lastVoteEpoch := cs.currentEpoch } :=
    Edits.single (Edit.ballot ⟨rfl, rfl, rfl, rfl, rfl, rfl, rfl, rfl⟩ rfl hel (Or.inl rfl))
  have hy' : ({ cs with lastVoteEpoch := cs.currentEpoch } : ClusterState).nodes y = some m := hy
  rw [updateNode_ok hy', ok_bind]
  have htouch : Touched { cs with lastVoteEpoch := cs.currentEpoch }
      (mapNode { cs with lastVoteEpoch := cs.currentEpoch } y
        (fun n => { n with votedTime := env.now })) :=
    touched_mapNode (fun p _ => ⟨rfl, rfl, rfl, rfl, rfl, rfl, rfl, rfl, rfl, rfl, fun _ h => h⟩)
  have he := hvote.tail (Edit.touch htouch)
  have hnamec := hname.edits hg he
  have hgc := hg.edits he
  obtain ⟨p, hp, hsame⟩ := htouch.live x n hx
  generalize hc : mapNode { cs with lastVoteEpoch := cs.currentEpoch } y
    (fun n => { n with votedTime := env.now }) = c at hgc hnamec hp
  have hfields : c.currentEpoch = cs.currentEpoch ∧ c.failoverAuthCount = cs.failoverAuthCount ∧
      c.failoverAuthSent = cs.failoverAuthSent ∧ c.failoverAuthEpoch = cs.failoverAuthEpoch ∧
      c.lastVoteEpoch = cs.currentEpoch ∧ c.out = cs.out := by
    rw [← hc]
    exact ⟨rfl, rfl, rfl, rfl, rfl, rfl⟩
  obtain ⟨hcur, hcount, hsent, hepoch, hlast, hout⟩ := hfields
  unfold clusterSendFailoverAuth
  rw [deref_ok hp, ok_bind]
  by_cases hlink : p.link = true
  · rw [if_pos hlink]
    apply Leads.bind (clusterBuildMessageHdr_leads hgc (show HonestBody k c .authAck from hel))
    rintro msg ⟨hmsg, hbody⟩
    refine Leads.ok ⟨hcur, hcount, hsent, hepoch, hlast, hfirst, hasked, Or.inr ⟨msg, ?_, hbody,
      hnamec.sender hmsg, hmsg.current.trans hcur⟩⟩
    show c.out ++ [(p.name, msg)] = _
    rw [hout, hsame.name]
  · rw [if_neg hlink]
    exact Leads.ok ⟨hcur, hcount, hsent, hepoch, hlast, hfirst, hasked, Or.inl hout⟩

theorem clusterSendFailoverAuthIfNeeded_voted (hg : Good k cs) (hel : k.election)
    (hx : cs.nodes x = some n) (hname : KnownAs name cs) (request : ClusterMsg) :
    Leads k (clusterSendFailoverAuthIfNeeded cfg env cs x request)
      (fun c => c = cs ∨ Voted name n.name request cs c) := by
  obtain ⟨me, hme, hd⟩ := hg.deref_me
  unfold clusterSendFailoverAuthIfNeeded
  rw [hd, ok_bind]
  split
  · exact Leads.ok (Or.inl rfl)
  split
  · exact Leads.ok (Or.inl rfl)
  rename_i hasked
  split
  · exact Leads.ok (Or.inl rfl)
  rename_i hfirst
  apply Leads.bind (downMaster_leads hg hx request.forceack)
  intro r hr
  cases r with
  | none => exact Leads.ok (Or.inl rfl)
  | some y =>
    obtain ⟨m, hm⟩ := hr y rfl
    dsimp only
    rw [deref_ok hm, ok_bind]
    split_ifs
    · exact Leads.ok (Or.inl rfl)
    · exact Leads.ok (Or.inl rfl)
    · exact (grantVote_voted hg hel hx hm hname hfirst (not_lt.mp hasked)).mono (fun _ h => Or.inr h)

theorem vote_granted {master : ClusterNode} (hme : cs.nodes cs.myself = some me)
    (hrole : me.flags.slave = false) (hslots : me.numslots ≠ 0)
    (hcur : cs.currentEpoch ≤ request.currentEpoch) (hvote : cs.lastVoteEpoch ≠ cs.currentEpoch)
    (hdown : downMaster cs x request.forceack = .ok (some y)) (hy : cs.nodes y = some master)
    (hold : cfg.nodeTimeout*2 ≤ env.now-master.votedTime)
    (hepochs : ∀ z n, cs.nodes z = some n → n.configEpoch ≤ request.configEpoch) :
    clusterSendFailoverAuthIfNeeded cfg env cs x request = grantVote cfg env cs x y := by
  have hnone : (List.finRange 16384).any (fun j =>
      request.myslots j && decide (request.configEpoch < slotEpoch cs j)) = false := by
    rw [List.any_eq_false]
    intro j _ h
    rw [Bool.and_eq_true, decide_eq_true_eq] at h
    unfold slotEpoch at h
    cases hb : (cs.slots j).bind cs.nodes with
    | none =>
      rw [hb] at h
      exact absurd h.2 (Nat.not_lt_zero _)
    | some n =>
      rw [hb] at h
      obtain ⟨z, -, hz⟩ := Option.bind_eq_some_iff.mp hb
      exact absurd h.2 (not_lt.mpr (hepochs z n hz))
  unfold clusterSendFailoverAuthIfNeeded
  rw [deref_ok hme, ok_bind, if_neg, if_neg (not_lt.mpr hcur), if_neg hvote, hdown, ok_bind]
  · dsimp only
    rw [deref_ok hy, ok_bind, if_neg (not_lt.mpr hold), hnone, if_neg Bool.false_ne_true]
  · rintro (h | h)
    · rw [hrole] at h
      cases h
    · exact hslots h

theorem processAuthAck_counts (hx : cs.nodes x = some n) (epoch : ℕ) :
    processAuthAck cs x epoch = .ok cs ∨ (processAuthAck cs x epoch =
      .ok { cs with failoverAuthCount := cs.failoverAuthCount+1 } ∧ n.flags.master = true ∧
        n.numslots ≠ 0 ∧ cs.failoverAuthEpoch ≤ epoch) := by
  unfold processAuthAck
  rw [deref_ok hx, ok_bind]
  by_cases h : n.flags.master = true ∧ 0 < n.numslots ∧ cs.failoverAuthEpoch ≤ epoch
  · rw [if_pos h]
    exact Or.inr ⟨rfl, h.1, Nat.pos_iff_ne_zero.mp h.2.1, h.2.2⟩
  · rw [if_neg h]
    exact Or.inl rfl

theorem still_le : still.Le anything :=
  ⟨fun h => h, fun h => h, fun h => h, False.elim, fun _ => Iff.rfl⟩

theorem Leads.bind_eq {α β : Type} {P : α → Prop} {R : β → Prop} {a : Except ClusterFault α}
    {f : α → Except ClusterFault β} (ha : Leads k a P)
    (hf : ∀ b, a = .ok b → P b → Leads k (f b) R) : Leads k (a >>= f) R := by
  cases a with
  | ok b => exact hf b rfl (ha.of_ok rfl)
  | error e => exact Leads.error ((leads_error e).mp ha)

def startsElection (cfg : ClusterConfig) (env : Env) (cs : ClusterState) : Bool :=
  let manual := decide (cs.mfEnd ≠ 0) && cs.mfCanStart
  match mayFailover cfg cs manual, delayElection env cs with
  | .ok true, .ok c => (manual || !dataTooOld cfg env) && !cs.failoverAuthSent &&
    decide (c.failoverAuthTime ≤ env.now) &&
    decide (env.now-cs.failoverAuthTime ≤ max (cfg.nodeTimeout*2) 2000)
  | _, _ => false

structure Scheduled (cs cs' : ClusterState) : Prop where
  vote : cs'.lastVoteEpoch = cs.lastVoteEpoch
  count : cs'.failoverAuthCount = 0
  sent : cs'.failoverAuthSent = false
  epoch : cs'.failoverAuthEpoch = cs.failoverAuthEpoch
  current : cs.currentEpoch ≤ cs'.currentEpoch
  out : ∃ msgs, cs'.out = cs.out ++ msgs ∧ ∀ p ∈ msgs, p.2.body.auth = false

structure Requested (name : NodeName) (cs cs' : ClusterState) : Prop where
  vote : cs'.lastVoteEpoch = cs.lastVoteEpoch
  count : cs'.failoverAuthCount = cs.failoverAuthCount
  sent : cs'.failoverAuthSent = true
  epoch : cs'.failoverAuthEpoch = cs.currentEpoch+1
  current : cs'.currentEpoch = cs.currentEpoch+1
  out : ∃ (targets : List NodeName) (msg : ClusterMsg), cs'.out = cs.out ++ targets.map (fun dest => (dest, msg)) ∧
    msg.body = .authRequest ∧ msg.sender = name ∧ msg.currentEpoch = cs.currentEpoch+1

inductive Attempt (cfg : ClusterConfig) (env : Env) (name : NodeName) (cs cs' : ClusterState) :
    Bool → Prop where
  | calm (h : Calm cs cs') : Attempt cfg env name cs cs' false
  | scheduled (h : Scheduled cs cs') : Attempt cfg env name cs cs' false
  | requested (h : Requested name cs cs') (hs : startsElection cfg env cs = true) :
    Attempt cfg env name cs cs' false
  | won (h : Calm cs cs') (hq : cs.size/2+1 ≤ cs.failoverAuthCount)
    (hs : cs.failoverAuthSent = true)
    (hm : ∃ me, cs.nodes cs.myself = some me ∧ me.flags.master = false) :
    Attempt cfg env name cs cs' true

theorem scheduleElection_scheduled (hg : Good anything cs) :
    Leads anything (scheduleElection cfg env cs) (Scheduled cs) := by
  unfold scheduleElection
  apply Leads.bind (clusterGetSlaveRank_leads hg (Or.inr trivial))
  intro rank _
  dsimp only
  have hb : ∀ c : ClusterState, Good still c → c.lastVoteEpoch = cs.lastVoteEpoch →
      c.failoverAuthCount = 0 → c.failoverAuthSent = false →
      c.failoverAuthEpoch = cs.failoverAuthEpoch → c.currentEpoch = cs.currentEpoch →
      c.out = cs.out → Leads anything (clusterBroadcastPong cfg env c true) (Scheduled cs) := by
    intro c hgc hvote hcount hsent hepoch hcur hout
    apply (Leads.weaken still_le (clusterBroadcastPong_runs hgc true)).mono
    intro c' he
    have hcalm := he.calm (fun h => h)
    obtain ⟨msgs, ho, hm⟩ := hcalm.out
    exact ⟨hcalm.vote.trans hvote, hcalm.count.trans hcount, hcalm.sent.trans hsent,
      hcalm.epoch.trans hepoch, hcur ▸ hcalm.current, msgs, hout ▸ ho, hm⟩
  have hgc : ∀ c : ClusterState, SameView cs c → c.out = cs.out →
      c.failoverAuthEpoch = cs.failoverAuthEpoch → Good still c := by
    intro c hv ho he
    exact (hg.edit (Edit.ballot hv ho trivial (Or.inl he))).waive still trivial trivial
  apply hb
  · exact hgc _ ⟨rfl, rfl, rfl, rfl, rfl, rfl, rfl, rfl⟩ rfl rfl
  · rfl
  · rfl
  · rfl
  · rfl
  · rfl
  · rfl

theorem delayElection_eq (hg : Good anything cs) : Leads anything (delayElection env cs)
    (fun c => ∃ t r, c = { cs with failoverAuthTime := t, failoverAuthRank := r }) := by
  unfold delayElection
  split_ifs
  · apply Leads.bind (clusterGetSlaveRank_leads hg (Or.inr trivial))
    intro rank _
    split_ifs
    · exact Leads.ok ⟨_, _, rfl⟩
    · exact Leads.ok ⟨_, _, rfl⟩
  · exact Leads.ok ⟨_, _, rfl⟩

theorem requestVotes_requested (hg : Good anything cs) (hname : KnownAs name cs) :
    Leads anything (requestVotes cfg env cs) (Requested name cs) := by
  unfold requestVotes
  dsimp only
  have hup : Edits anything cs { cs with currentEpoch := cs.currentEpoch+1 } :=
    Edits.single (Edit.epochUp _ (Nat.le_succ _))
  have he : Edits anything cs { cs with
      currentEpoch := cs.currentEpoch+1, failoverAuthEpoch := cs.currentEpoch+1 } :=
    hup.tail (Edit.ballot ⟨rfl, rfl, rfl, rfl, rfl, rfl, rfl, rfl⟩ rfl trivial (Or.inr (le_refl _)))
  have hgc := hg.edits he
  have hnamec := hname.edits hg he
  unfold clusterRequestFailoverAuth
  rw [bind_assoc]
  apply Leads.bind (clusterBuildMessageHdr_leads hgc
    (show HonestBody anything _ .authRequest from trivial))
  rintro msg ⟨hmsg, hbody⟩
  have hsender : msg.sender = name := hnamec.sender hmsg
  exact Leads.ok ⟨rfl, rfl, rfl, rfl, rfl, _, _, rfl, hbody, hsender, hmsg.current⟩

theorem clusterHandleSlaveFailover_attempt (hg : Good anything cs) (hname : KnownAs name cs) :
    Leads anything (clusterHandleSlaveFailover cfg env cs)
      (fun r => Attempt cfg env name cs r.1 r.2) := by
  unfold clusterHandleSlaveFailover
  dsimp only
  generalize hman : (decide (cs.mfEnd ≠ 0) && cs.mfCanStart) = manual
  apply Leads.bind_eq (mayFailover_leads hg manual)
  intro b hmay _
  cases b with
  | false => exact Leads.ok (Attempt.calm (Calm.refl cs))
  | true =>
    rw [if_neg (by decide)]
    by_cases hold : (dataTooOld cfg env && !manual) = true
    · rw [if_pos hold]
      exact Leads.ok (Attempt.calm (Calm.refl cs))
    rw [if_neg hold]
    by_cases hretry : env.now-cs.failoverAuthTime > max (cfg.nodeTimeout*2) 2000*2
    · rw [if_pos hretry]
      apply Leads.bind (scheduleElection_scheduled hg)
      exact fun c hc => Leads.ok (Attempt.scheduled hc)
    rw [if_neg hretry]
    unfold runElection
    apply Leads.bind_eq (delayElection_eq hg)
    rintro c hdelay ⟨t, r, hc⟩
    have he : Edits anything cs c := by
      rw [hc]
      exact edit_aside ⟨rfl, rfl, rfl, rfl, rfl, rfl, rfl, rfl⟩ ⟨rfl, rfl, rfl, rfl⟩ rfl
    have hcalm : Calm cs c := by
      rw [hc]
      exact ⟨⟨rfl, rfl, rfl, rfl⟩, le_refl _, (Calm.refl cs).out⟩
    have hgc := hg.edits he
    by_cases hwait : env.now < c.failoverAuthTime
    · rw [if_pos hwait]
      exact Leads.ok (Attempt.calm hcalm)
    rw [if_neg hwait]
    by_cases hexpired : env.now-cs.failoverAuthTime > max (cfg.nodeTimeout*2) 2000
    · rw [if_pos hexpired]
      exact Leads.ok (Attempt.calm hcalm)
    rw [if_neg hexpired]
    by_cases hsent : c.failoverAuthSent = false
    · -- the request goes out
      rw [if_pos hsent]
      have hstart : startsElection cfg env cs = true := by
        unfold startsElection
        dsimp only
        rw [hman, hmay, hdelay]
        rw [hcalm.sent] at hsent
        simp only [hsent, Bool.and_eq_true, Bool.or_eq_true, Bool.not_eq_true', decide_eq_true_eq,
          not_lt, gt_iff_lt] at hold hwait hexpired ⊢
        refine ⟨⟨⟨?_, trivial⟩, hwait⟩, hexpired⟩
        by_cases hm : manual = true
        · exact Or.inl hm
        · rw [Bool.not_eq_true] at hm
          rw [hm] at hold
          exact Or.inr (by simpa using hold)
      apply Leads.bind (requestVotes_requested hgc (hname.edits hg he))
      intro c' hreq
      obtain ⟨targets, msg, ho, hbody, hsender, hcur⟩ := hreq.out
      rw [hc] at hreq ho hcur
      exact Leads.ok (Attempt.requested ⟨hreq.vote, hreq.count, hreq.sent, hreq.epoch, hreq.current,
        targets, msg, ho, hbody, hsender, hcur⟩ hstart)
    rw [if_neg hsent]
    by_cases hquorum : c.size/2+1 ≤ c.failoverAuthCount
    · rw [if_pos hquorum]
      rw [Bool.not_eq_false, hcalm.sent] at hsent
      have hsize : c.size = cs.size := by rw [hc]
      rw [hsize, hcalm.count] at hquorum
      have hslave : ∃ me, cs.nodes cs.myself = some me ∧ me.flags.master = false := by
        obtain ⟨me, hme, hd⟩ := hg.deref_me
        refine ⟨me, hme, ?_⟩
        by_contra hm
        rw [Bool.not_eq_false] at hm
        unfold mayFailover at hmay
        rw [hd, ok_bind, if_pos hm] at hmay
        cases hmay
      apply Leads.bind (Leads.weaken still_le (winElection_runs (hgc.waive still trivial trivial)))
      intro c' he'
      exact Leads.ok (Attempt.won (hcalm.trans (he'.calm (fun h => h))) hquorum hsent hslave)
    · rw [if_neg hquorum]
      exact Leads.ok (Attempt.calm hcalm)

def failoverCall (cfg : ClusterConfig) (env : Env) (cs : ClusterState) (cron : Bool) :
    Except ClusterFault (ClusterState × Bool) :=
  if cron then cronFailover cfg env cs else clusterHandleSlaveFailover cfg env cs

def failoverView (env : Env) (cs : ClusterState) (cron : Bool) : ClusterState :=
  if cron then clusterHandleManualFailover env (manualFailoverCheckTimeout env cs) else cs

structure SameButManual (cs cs' : ClusterState) : Prop extends SameView cs cs', SameBallot cs cs' where
  size : cs'.size = cs.size
  out : cs'.out = cs.out

theorem SameButManual.refl (cs : ClusterState) : SameButManual cs cs :=
  ⟨⟨rfl, rfl, rfl, rfl, rfl, rfl, rfl, rfl⟩, ⟨rfl, rfl, rfl, rfl⟩, rfl, rfl⟩

theorem manualFailoverCheckTimeout_same (env : Env) (cs : ClusterState) :
    SameButManual cs (manualFailoverCheckTimeout env cs) := by
  unfold manualFailoverCheckTimeout
  split_ifs
  · exact ⟨⟨rfl, rfl, rfl, rfl, rfl, rfl, rfl, rfl⟩, ⟨rfl, rfl, rfl, rfl⟩, rfl, rfl⟩
  · exact SameButManual.refl cs

theorem clusterHandleManualFailover_same (env : Env) (cs : ClusterState) :
    SameButManual cs (clusterHandleManualFailover env cs) := by
  unfold clusterHandleManualFailover
  split_ifs
  · exact SameButManual.refl cs
  · exact ⟨⟨rfl, rfl, rfl, rfl, rfl, rfl, rfl, rfl⟩, ⟨rfl, rfl, rfl, rfl⟩, rfl, rfl⟩
  · exact SameButManual.refl cs

theorem SameButManual.trans (h : SameButManual cs cs') (h' : SameButManual cs' cs'') :
    SameButManual cs cs'' :=
  ⟨⟨h'.nodes.trans h.nodes, h'.table.trans h.table, h'.fresh.trans h.fresh,
    h'.myself.trans h.myself, h'.current.trans h.current, h'.migrating.trans h.migrating,
    h'.importing.trans h.importing, h'.slots.trans h.slots⟩,
    ⟨h'.vote.trans h.vote, h'.count.trans h.count, h'.sent.trans h.sent, h'.epoch.trans h.epoch⟩,
    h'.size.trans h.size, h'.out.trans h.out⟩

theorem SameButManual.edits (h : SameButManual cs cs') : Edits k cs cs' :=
  edit_aside h.toSameView h.toSameBallot h.out

theorem failoverView_same (env : Env) (cs : ClusterState) (cron : Bool) :
    SameButManual cs (failoverView env cs cron) := by
  unfold failoverView
  split_ifs
  · exact (manualFailoverCheckTimeout_same env cs).trans (clusterHandleManualFailover_same env _)
  · exact SameButManual.refl cs

theorem failoverCall_attempt (hg : Good anything cs) (hname : KnownAs name cs) {cron : Bool}
    {r : ClusterState × Bool} (h : failoverCall cfg env cs cron = .ok r) :
    Edits anything cs r.1 ∧ (Attempt cfg env name (failoverView env cs cron) r.1 r.2 ∨
      (Calm cs r.1 ∧ r.2 = false)) := by
  have hsame := failoverView_same env cs cron
  unfold failoverCall at h
  cases cron with
  | false =>
    exact ⟨(clusterHandleSlaveFailover_leads hg trivial).of_ok h,
      Or.inl ((clusterHandleSlaveFailover_attempt hg hname).of_ok h)⟩
  | true =>
    have he := (cronFailover_leads hg trivial).of_ok h
    refine ⟨he, ?_⟩
    have hcalm : ∀ {c : ClusterState}, SameButManual cs c → Calm cs c := fun hs =>
      hs.edits.calm (k := still) (fun h => h)
    have hcheck := manualFailoverCheckTimeout_same env cs
    rw [if_pos rfl] at h
    unfold cronFailover at h
    dsimp only at h
    obtain ⟨me, hme, hd⟩ := (hg.edits hcheck.edits).deref_me
    rw [hd, ok_bind] at h
    split_ifs at h
    · cases h
      exact Or.inr ⟨hcalm hsame, rfl⟩
    · exact Or.inl ((clusterHandleSlaveFailover_attempt (hg.edits hsame.edits)
        (hname.edits hg hsame.edits)).of_ok h)
    · cases h
      exact Or.inr ⟨hcalm hcheck, rfl⟩

theorem noteSender_keeps {sender : Option NodeId} (h : noteSender cs sender hdr = .ok cs') :
    Pointwise (fun n n' => n'.name = n.name ∧ n'.flags = n.flags ∧ n'.numslots = n.numslots) cs cs' ∧
      cs'.table = cs.table := by
  have hrefl : ∀ n : ClusterNode, n.name = n.name ∧ n.flags = n.flags ∧ n.numslots = n.numslots :=
    fun n => ⟨rfl, rfl, rfl⟩
  unfold noteSender at h
  cases sender with
  | none =>
    cases h
    exact ⟨pointwise_of_nodes hrefl rfl, rfl⟩
  | some s =>
    dsimp only at h
    cases hs : cs.nodes s with
    | none =>
      unfold deref at h
      rw [hs] at h
      cases h
    | some n =>
      rw [deref_ok hs, ok_bind] at h
      by_cases hh : n.flags.handshake = true
      · rw [if_pos hh] at h
        cases h
        exact ⟨pointwise_of_nodes hrefl rfl, rfl⟩
      · rw [if_neg hh] at h
        have hs' : ({ cs with currentEpoch := max cs.currentEpoch hdr.currentEpoch }
          : ClusterState).nodes s = some n := hs
        rw [updateNode_ok hs', ok_bind] at h
        have hp : Pointwise (fun n n' => n'.name = n.name ∧ n'.flags = n.flags ∧ n'.numslots = n.numslots)
            cs (mapNode cs s (fun n =>
              { n with configEpoch := max n.configEpoch hdr.configEpoch, replOffset := hdr.offset })) :=
          pointwise_mapNode hrefl (fun n _ => ⟨rfl, rfl, rfl⟩)
        generalize deref _ _ = d at h
        cases d with
        | error e => cases h
        | ok me =>
          rw [ok_bind] at h
          split_ifs at h
          · cases h
            exact ⟨⟨hp.old, hp.live⟩, rfl⟩
          · cases h
            exact ⟨⟨hp.old, hp.live⟩, rfl⟩

theorem noteSender_same {hdr : ClusterMsg} (hx : cs.nodes x = some n)
    (hh : n.flags.handshake = false) (hc : hdr.configEpoch ≤ n.configEpoch)
    (ho : hdr.offset = n.replOffset) (hme : cs.nodes cs.myself = some me) (hmf : cs.mfEnd = 0) :
    noteSender cs (some x) hdr = .ok { cs with currentEpoch := max cs.currentEpoch hdr.currentEpoch } := by
  unfold noteSender
  dsimp only
  rw [deref_ok hx, ok_bind, hh, if_neg Bool.false_ne_true]
  have hx' : ({ cs with currentEpoch := max cs.currentEpoch hdr.currentEpoch }
    : ClusterState).nodes x = some n := hx
  have hsame : mapNode { cs with currentEpoch := max cs.currentEpoch hdr.currentEpoch } x (fun n =>
      { n with configEpoch := max n.configEpoch hdr.configEpoch, replOffset := hdr.offset }) =
      { cs with currentEpoch := max cs.currentEpoch hdr.currentEpoch } := by
    unfold mapNode
    congr 1
    ext1 y
    dsimp only
    by_cases hy : y = x
    · rw [if_pos hy, hy, hx, Option.map_some, max_eq_left hc, ho]
    · rw [if_neg hy]
  have hme' : ({ cs with currentEpoch := max cs.currentEpoch hdr.currentEpoch }
    : ClusterState).nodes cs.myself = some me := hme
  rw [updateNode_ok hx', ok_bind, hsame, deref_ok hme', ok_bind, if_neg]
  exact fun h => h.1 hmf

theorem processBody_auth (hb : hdr.body.auth = true) (c : ClusterState) (sender : Option NodeId)
    (e e' : ℕ) : processBody cfg env c link sender e e' hdr = match sender with
      | none => .ok c
      | some s => processKnown cfg env c s e hdr := by
  unfold processBody
  cases hm : hdr.body with
  | authRequest => rfl
  | authAck => rfl
  | _ =>
    rw [hm] at hb
    <;> cases hb

theorem clusterProcessPacket_auth (hb : hdr.body.auth = true)
    (h : clusterProcessPacket cfg env cs link hdr = .ok cs') : cs' = cs ∨ ∃ s n c,
      clusterLookupNode cs hdr.sender = some s ∧ cs.nodes s = some n ∧
        noteSender cs (some s) hdr = .ok c ∧
        processKnown cfg env c s (senderCurrentEpoch n hdr) hdr = .ok cs' := by
  have hmeet : ∀ (c : ClusterState) (sender : Option NodeId), meetSender cfg env c link sender hdr = .ok c := by
    intro c sender
    unfold meetSender
    split
    · rename_i gossip hbody
      rw [hbody] at hb
      cases hb
    · rfl
  have hping : ∀ c : ClusterState, answerPing cfg env c link hdr = .ok c := by
    intro c
    unfold answerPing
    split
    · rename_i gossip hbody
      rw [hbody] at hb
      cases hb
    · rename_i gossip hbody
      rw [hbody] at hb
      cases hb
    · rfl
  unfold clusterProcessPacket findSender at h
  cases hl : clusterLookupNode cs hdr.sender with
  | none =>
    rw [hl] at h
    dsimp only at h
    rw [ok_bind] at h
    unfold noteSender at h
    rw [ok_bind, hmeet, ok_bind, hping, ok_bind, processBody_auth hb] at h
    cases h
    exact Or.inl rfl
  | some s =>
    rw [hl] at h
    dsimp only at h
    cases hn : cs.nodes s with
    | none =>
      unfold deref at h
      rw [hn] at h
      cases h
    | some n =>
      rw [deref_ok hn, ok_bind, ok_bind] at h
      dsimp only at h
      cases hnote : noteSender cs (some s) hdr with
      | error e =>
        rw [hnote] at h
        cases h
      | ok c =>
        rw [hnote, ok_bind, hmeet, ok_bind, hping, ok_bind, processBody_auth hb] at h
        exact Or.inr ⟨s, n, c, rfl, hn, hnote, h⟩

theorem senderCurrentEpoch_le (n : ClusterNode) (hdr : ClusterMsg) :
    senderCurrentEpoch n hdr ≤ hdr.currentEpoch := by
  unfold senderCurrentEpoch
  split_ifs
  · exact Nat.zero_le _
  · exact le_refl _

theorem noteSender_still (hg : Good anything cs) {s : NodeId} (hs : cs.nodes s = some n)
    (h : noteSender cs (some s) hdr = .ok cs') : Edits still cs cs' := by
  have hlive : ∀ s', some s = some s' → ∃ n, cs.nodes s' = some n := by
    rintro s' ⟨⟩
    exact ⟨n, hs⟩
  have hl : Leads still (noteSender cs (some s) hdr)
      (fun c => Edits still cs c ∧ Noted (some s) hdr cs c) :=
    noteSender_leads (hg.waive still trivial trivial) hlive (Or.inr trivial)
  exact (hl.of_ok h).1

theorem authRequest_answered (hg : Good anything cs) (hname : KnownAs name cs)
    (hb : hdr.body = .authRequest) (h : clusterProcessPacket cfg env cs link hdr = .ok cs') :
    Edits anything cs cs' ∧ (Calm cs cs' ∨ ∃ c, Calm cs c ∧ Voted name hdr.sender hdr c cs') := by
  rcases clusterProcessPacket_auth (by rw [hb]; rfl) h with rfl | ⟨s, n, c, hl, hn, hnote, hknown⟩
  · exact ⟨Edits.refl _, Or.inl (Calm.refl _)⟩
  · have he := noteSender_still hg hn hnote
    have hgc := hg.edits (he.mono still_le)
    have hcalm := he.calm (fun h => h)
    obtain ⟨n', hn', hsame⟩ := (noteSender_keeps hnote).1.live s n hn
    obtain ⟨p, hp, hpname⟩ := clusterLookupNode_live hg hl
    rw [hn, Option.some.injEq] at hp
    unfold processKnown at hknown
    rw [hb] at hknown
    dsimp only at hknown
    have hruns := (clusterSendFailoverAuthIfNeeded_runs hgc trivial hn' hdr).of_ok hknown
    have hvoted := (clusterSendFailoverAuthIfNeeded_voted hgc trivial hn'
      (hname.edits hg (he.mono still_le)) hdr).of_ok hknown
    refine ⟨(he.mono still_le).trans hruns, ?_⟩
    rw [hsame.1, hp, hpname] at hvoted
    rcases hvoted with rfl | hvoted
    · exact Or.inl hcalm
    · exact Or.inr ⟨c, hcalm, hvoted⟩

theorem authAck_counted (hg : Good anything cs) (hb : hdr.body = .authAck)
    (h : clusterProcessPacket cfg env cs link hdr = .ok cs') :
    Edits anything cs cs' ∧ (Calm cs cs' ∨ ∃ c s n, Calm cs c ∧
      cs' = { c with failoverAuthCount := c.failoverAuthCount+1 } ∧
      cs.table hdr.sender = some s ∧ cs.nodes s = some n ∧ n.flags.master = true ∧
      n.numslots ≠ 0 ∧ cs.failoverAuthEpoch ≤ hdr.currentEpoch) := by
  rcases clusterProcessPacket_auth (by rw [hb]; rfl) h with rfl | ⟨s, n, c, hl, hn, hnote, hknown⟩
  · exact ⟨Edits.refl _, Or.inl (Calm.refl _)⟩
  · have he := noteSender_still hg hn hnote
    have hcalm := he.calm (fun h => h)
    have he' := he.mono still_le
    obtain ⟨n', hn', hsame⟩ := (noteSender_keeps hnote).1.live s n hn
    unfold processKnown at hknown
    rw [hb] at hknown
    dsimp only at hknown
    rcases processAuthAck_counts hn' (senderCurrentEpoch n hdr) with hack | ⟨hack, hm, hslots, hle⟩
    · rw [hack] at hknown
      cases hknown
      exact ⟨he', Or.inl hcalm⟩
    · rw [hack] at hknown
      cases hknown
      refine ⟨he'.tail (Edit.ballot ⟨rfl, rfl, rfl, rfl, rfl, rfl, rfl, rfl⟩ rfl trivial (Or.inl rfl)),
        Or.inr ⟨c, s, n, hcalm, rfl, hl, hn, ?_, ?_, ?_⟩⟩
      · rw [← hsame.2.1]
        exact hm
      · rw [← hsame.2.2]
        exact hslots
      · rw [← hcalm.epoch]
        exact hle.trans (senderCurrentEpoch_le n hdr)

theorem stepEvent_calm (hg : Good anything cs) {ev : ClusterEvent} (h : stepEvent cfg env cs ev = .ok cs')
    (hfail : ev ≠ .slaveFailover) (hcron : ev ≠ .cron)
    (hpacket : ∀ link hdr, ev = .packet link hdr → hdr.body.auth = false) : Edits still cs cs' := by
  have ha : Allowed still env cs ev := by
    refine ⟨fun _ => trivial, ?_, ?_, Or.inr ⟨hfail, hcron⟩⟩
    · intro link hdr heq
      have hb := hpacket link hdr heq
      refine ⟨Or.inr trivial, ?_, Or.inr ⟨trivial, trivial⟩, Or.inr trivial, Or.inr trivial,
        Or.inr trivial, Or.inr trivial, Or.inr trivial, Or.inr ⟨?_, ?_⟩⟩
      · exact fun g _ => ⟨Or.inr trivial, Or.inr trivial, fun _ => Or.inr trivial⟩
      · intro hr
        rw [hr] at hb
        cases hb
      · intro hr
        rw [hr] at hb
        cases hb
    · exact fun cmd _ => ⟨Or.inr trivial, Or.inr trivial, Or.inr trivial⟩
  exact (stepEvent_runs (hg.waive still trivial trivial) trivial ha).of_ok h

end RedisCore.Cluster
