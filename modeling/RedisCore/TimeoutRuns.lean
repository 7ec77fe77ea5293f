import RedisCore.TimeoutInvariant

namespace RedisCore.Timeouts
open List (mem_append mem_cons_self mem_of_mem_erase mem_singleton not_mem_nil)

variable {s s' : Server} {c : ClientPtr} {btype : BlockedType}

def Steps (s : Server) (x : Except Fault Server) : Prop :=
  ∃ s', x = .ok s' ∧ Consistent s' ∧ Kept s s'

theorem Steps.ok (hs : Consistent s') (hkept : Kept s s') : Steps s (.ok s') :=
  ⟨s', rfl, hs, hkept⟩

theorem Steps.trans {x : Except Fault Server} (hkept : Kept s s') (h : Steps s' x) : Steps s x := by
  obtain ⟨s2, hx, hs2, hkept2⟩ := h
  exact ⟨s2, hx, hs2, hkept.trans hkept2⟩

theorem unblockClient_steps (hs : Consistent s) (hc : c ∈ s.clients)
    (hblocked : (s.client c).blocked = true) : Steps s (unblockClient s c) := by
  obtain ⟨heq, hcons, hkept⟩ := hs.unblock hc hblocked
  exact ⟨_, heq, hcons, hkept⟩

theorem replied_steps (hs : Consistent s) (hc : c ∈ s.clients)
    (hblocked : (s.client c).blocked = true) (r : Reply) :
    Steps s (unblockClient (addReply s c r) c) := by
  refine Steps.trans (addReply_kept s c r) (unblockClient_steps (hs.addReply c r) hc ?_)
  rw [addReply, setClient_self]
  exact hblocked

def timedOutReply (s : Server) (cl : Client) : Reply :=
  if cl.btype = .wait then .longLong (replicationCountAcksByOffset s cl.reploffset)
  else .nullArray

theorem replyToBlockedClientTimedOut_eq (h : (s.client c).btype ≠ .none) :
    replyToBlockedClientTimedOut s c = .ok (addReply s c (timedOutReply s (s.client c))) := by
  rw [replyToBlockedClientTimedOut, timedOutReply]
  cases hb : (s.client c).btype with
  | none => exact absurd hb h
  | wait => rfl
  | list => rfl
  | zset => rfl
  | stream => rfl

theorem clientUnblock_steps (hs : Consistent s) (hc : c ∈ s.clients) (unblockError : Bool) :
    Steps s (clientUnblock s c unblockError) := by
  rw [clientUnblock]
  split_ifs with hb herr
  · rw [ok_bind]
    exact replied_steps hs hc hb .error
  · rw [replyToBlockedClientTimedOut_eq ((hs.sound c hc).btype.1 hb), ok_bind]
    exact replied_steps hs hc hb _
  · exact Steps.ok hs (Kept.refl s)

theorem disconnectLoop_steps {cs : List ClientPtr} (hs : Consistent s)
    (hcs : ∀ c ∈ cs, c ∈ s.clients) : Steps s (disconnectLoop cs s) := by
  induction cs generalizing s with
  | nil => exact Steps.ok hs (Kept.refl s)
  | cons c cs ih =>
    rw [disconnectLoop]
    have hrest : ∀ c ∈ cs, c ∈ s.clients := fun c hc => hcs c (List.mem_cons_of_mem _ hc)
    split_ifs with hb
    · have hadd := hs.addReply c .error
      have hblocked : ((addReply s c .error).client c).blocked = true := by
        rw [addReply, setClient_self]
        exact hb
      obtain ⟨heq, hcons, hkept⟩ := hadd.unblock (hcs c mem_cons_self) hblocked
      rw [heq, ok_bind]
      exact Steps.trans ((addReply_kept s c .error).trans hkept) (ih hcons hrest)
    · exact ih hs hrest

theorem createClient_steps (hs : Consistent s) (hc : c ∉ s.clients) (hptr : c < 2^64) :
    Consistent (createClient s c) ∧ Kept s (createClient s c) := by
  have hself : (createClient s c).client c = initClient := Function.update_self ..
  have hother (c' : ClientPtr) (hne : c' ≠ c) : (createClient s c).client c' = s.client c' :=
    Function.update_of_ne hne ..
  have hne {c' : ClientPtr} (hc' : c' ∈ s.clients) : c' ≠ c := fun heq => hc (heq ▸ hc')
  have hclients : (createClient s c).clients = s.clients ++ [c] := rfl
  -- the new client has nothing that a list would name it for
  have hlists {l : List ClientPtr} {P : Client → Prop} (hl : Lists l s.clients fun c => P (s.client c))
      (hinit : ¬P initClient) :
      Lists l (s.clients ++ [c]) fun c' => P ((createClient s c).client c') := by
    refine ⟨hl.nodup, fun c' => ?_⟩
    rw [hl.mem, mem_append, mem_singleton]
    by_cases heq : c' = c
    · rw [heq, hself]
      exact ⟨fun h => absurd h.1 hc, fun h => absurd h.2 hinit⟩
    · rw [hother c' heq]
      simp [heq]
  constructor
  · exact
      { nodup := List.nodup_append_comm.1 (List.nodup_cons.2 ⟨hc, hs.nodup⟩)
        pointer := by
          intro c' hc'
          rcases mem_append.1 hc' with hc' | hc'
          · exact hs.pointer c' hc'
          · rw [mem_singleton.1 hc']
            exact hptr
        sound := by
          intro c' hc'
          rcases mem_append.1 hc' with hc' | hc'
          · rw [hother c' (hne hc')]
            exact hs.sound c' hc'
          · rw [mem_singleton.1 hc', hself]
            exact sound_initClient
        keys := by
          have hkeys : Keys s.clientsTimeoutTable s.clients (createClient s c).client :=
            hs.keys.congr fun c' hc' => by
              rw [hother c' (hne hc')]
              exact ⟨rfl, rfl⟩
          refine hkeys.clients_congr fun c' ht => ?_
          have hne' : c' ≠ c := by
            rintro rfl
            rw [hself] at ht
            exact ht.2 rfl
          rw [hclients, mem_append, mem_singleton]
          simp [hne']
        waiting := hlists (P := fun cl => cl.btype = .wait) hs.waiting BlockedType.noConfusion
        unblocked := hlists (P := fun cl => cl.unblocked = true) hs.unblocked Bool.noConfusion }
  · intro c' hc' hb
    by_cases heq : c' = c
    · rw [heq, hself] at hb
      exact Bool.noConfusion hb
    · rw [hother c' heq] at hb ⊢
      rcases mem_append.1 hc' with hc' | hc'
      · exact ⟨hc', hb, rfl⟩
      · exact absurd (mem_singleton.1 hc') heq

theorem unlinkClient_steps (hs : Consistent s) (hc : c ∈ s.clients)
    (hfree : (s.client c).blocked = false) : Steps s (unlinkClient s c) := by
  have hnone : ¬(s.client c).btype ≠ .none := by
    intro hsome
    rw [(hs.sound c hc).btype.2 hsome] at hfree
    exact Bool.noConfusion hfree
  have hnot : ¬Timed (s.client c) := by
    intro ht
    rw [Timed, hfree] at ht
    exact Bool.noConfusion ht.1
  have hkeys : Keys s.clientsTimeoutTable (s.clients.erase c) s.client := by
    refine hs.keys.clients_congr fun c' ht => ?_
    rw [hs.nodup.mem_erase_iff]
    exact ⟨fun hmem => ⟨fun heq => hnot (heq ▸ ht), hmem⟩, fun h => h.2⟩
  have hwaiting := hs.waiting.forget (c := c) hs.nodup (by
    rw [not_not.1 hnone]
    exact BlockedType.noConfusion)
  rw [unlinkClient]
  dsimp only
  split_ifs with hu hmem
  · let s' := setClient
      { s with
        clients := s.clients.erase c
        unblockedClients := s.unblockedClients.erase c } c { s.client c with unblocked := false }
    have hself : s'.client c = { s.client c with unblocked := false } := setClient_self ..
    have hother (c' : ClientPtr) (hne : c' ≠ c) : s'.client c' = s.client c' :=
      setClient_other _ _ hne
    have hne {c' : ClientPtr} (hc' : c' ∈ s.clients.erase c) : c' ≠ c :=
      (hs.nodup.mem_erase_iff.1 hc').1
    have hflag : ¬(s'.client c).unblocked = true := by
      rw [hself]
      exact Bool.noConfusion
    refine ⟨s', rfl,
      { nodup := hs.nodup.erase c
        pointer := fun c' hc' => hs.pointer c' (mem_of_mem_erase hc')
        sound := ?_
        keys := hkeys.congr fun c' hc' => by
          rw [hother c' (hne hc')]
          exact ⟨rfl, rfl⟩
        waiting := hwaiting.congr fun c' hc' => by rw [hother c' (hne hc')]
        unblocked := ?_ }, ?_⟩
    · intro c' hc'
      rw [hother c' (hne hc')]
      exact hs.sound c' (mem_of_mem_erase hc')
    · exact (hs.unblocked.erase hflag fun c' hne => by rw [hother c' hne]).forget hs.nodup hflag
    · intro c' hc' hb
      rw [hother c' (hne hc')] at hb ⊢
      exact ⟨mem_of_mem_erase hc', hb, rfl⟩
  · exact absurd ((hs.unblocked.mem c).2 ⟨hc, hu⟩) hmem
  · refine Steps.ok ⟨hs.nodup.erase c, fun c' hc' => hs.pointer c' (mem_of_mem_erase hc'),
      fun c' hc' => hs.sound c' (mem_of_mem_erase hc'), hkeys, hwaiting,
      hs.unblocked.forget hs.nodup hu⟩ ?_
    intro c' hc' hb
    exact ⟨mem_of_mem_erase hc', hb, rfl⟩

theorem freeClient_steps (hs : Consistent s) (hc : c ∈ s.clients) : Steps s (freeClient s c) := by
  rw [freeClient]
  split_ifs with hb
  · obtain ⟨heq, hcons, hkept⟩ := hs.unblock hc hb
    rw [heq, ok_bind]
    have hfree : ((unblockResult s c).client c).blocked = false := by
      rw [unblockResult_self]
      rfl
    exact Steps.trans hkept (unlinkClient_steps hcons hc hfree)
  · rw [ok_bind]
    exact unlinkClient_steps hs hc (Bool.not_eq_true _ ▸ hb)

theorem processUnblockedClient_steps (hs : Consistent s) :
    Steps s (.ok (processUnblockedClient s)) := by
  rw [processUnblockedClient]
  cases hl : s.unblockedClients with
  | nil => exact Steps.ok hs (Kept.refl s)
  | cons c cs =>
    dsimp only
    let s' := setClient { s with unblockedClients := cs } c { s.client c with unblocked := false }
    have hself : s'.client c = { s.client c with unblocked := false } := setClient_self ..
    have hother (c' : ClientPtr) (hne : c' ≠ c) : s'.client c' = s.client c' :=
      setClient_other _ _ hne
    have hfields (c' : ClientPtr) : (s'.client c').blocked = (s.client c').blocked ∧
        (s'.client c').timeout = (s.client c').timeout ∧
        (s'.client c').btype = (s.client c').btype := by
      by_cases heq : c' = c
      · rw [heq, hself]
        exact ⟨rfl, rfl, rfl⟩
      · rw [hother c' heq]
        exact ⟨rfl, rfl, rfl⟩
    have hflag : ¬(s'.client c).unblocked = true := by
      rw [hself]
      exact Bool.noConfusion
    have hlist : Lists (s.unblockedClients.erase c) s.clients
        (fun c' => (s'.client c').unblocked = true) :=
      hs.unblocked.erase hflag fun c' hne => by rw [hother c' hne]
    rw [hl, List.erase_cons_head] at hlist
    have hc : c ∈ s.clients := ((hs.unblocked.mem c).1 (hl ▸ mem_cons_self)).1
    have hsound := hs.sound c hc
    have hcons : Consistent s' := by
      refine hs.change rfl hother ?_ (hs.keys.congr fun c' _ => ?_)
        (hs.waiting.congr fun c' _ => ?_) hlist
      · rw [hself]
        exact ⟨hsound.flag, hsound.btype, hsound.low, hsound.high⟩
      · exact ⟨(hfields c').1.symm, (hfields c').2.1.symm⟩
      · rw [(hfields c').2.2]
    refine Steps.ok hcons ?_
    intro c' hc' hb
    rw [(hfields c').1] at hb
    exact ⟨hc', hb, (hfields c').2.1⟩

def Fits (timeout : ℤ) : Option ℤ → Prop
  | none => timeout = 0
  | some d => 0 < d ∧ d < 2^64 ∧ timeout = toLong d

def Recorded (s : Server) (deadline : ClientPtr → Option ℤ) : Prop :=
  ∀ c ∈ s.clients, (s.client c).blocked = true → Fits (s.client c).timeout (deadline c)

variable {deadline : ClientPtr → Option ℤ} {tval clock timeout : ℤ} {d : Option ℤ} {now : ℕ}
  {cl : Client} {key : Bytes} {h : History}

theorem Recorded.kept (h : Recorded s deadline) (hkept : Kept s s') : Recorded s' deadline := by
  intro c hc hb
  obtain ⟨hc', hb', ht⟩ := hkept c hc hb
  rw [ht]
  exact h c hc' hb'

theorem getTimeout_fits (h : getTimeout tval clock = some timeout)
    (htval : tval < 2^63) (hclock : ClockValue clock) :
    Fits timeout (exactDeadline tval clock) ∧ -2^63 ≤ timeout ∧ timeout < 2^63 := by
  obtain ⟨hlow, hhigh⟩ := hclock
  rw [getTimeout] at h
  split_ifs at h with h1 h2
  · obtain rfl : toLong (tval+clock) = timeout := Option.some.inj h
    rw [exactDeadline, if_neg (by omega)]
    exact ⟨⟨by omega, by omega, rfl⟩, toLong_range _⟩
  · obtain rfl : tval = timeout := Option.some.inj h
    have hzero : tval = 0 := by omega
    rw [exactDeadline, if_pos hzero, hzero]
    exact ⟨rfl, by norm_num, by norm_num⟩

structure Blocks (s s' : Server) (c : ClientPtr) (timeout : ℤ) : Prop where
  consistent : Consistent s'
  clients : s'.clients = s.clients
  self : (s'.client c).timeout = timeout
  other : ∀ c', c' ≠ c → s'.client c' = s.client c'

theorem Blocks.recorded (h : Blocks s s' c timeout) (hrec : Recorded s deadline)
    (hd : Fits timeout d) :
    Recorded s' (Function.update deadline c d) := by
  intro c' hc' hb
  by_cases heq : c' = c
  · rw [heq, Function.update_self, h.self]
    exact hd
  · rw [h.other c' heq] at hb ⊢
    rw [Function.update_of_ne heq]
    exact hrec c' (h.clients ▸ hc') hb

theorem Recorded.forget (h : Recorded s deadline)
    (hfree : (s.client c).blocked = false) (d : Option ℤ) :
    Recorded s (Function.update deadline c d) := by
  intro c' hc' hb
  by_cases heq : c' = c
  · rw [heq, hfree] at hb
    exact Bool.noConfusion hb
  · rw [Function.update_of_ne heq]
    exact h c' hc' hb

theorem Consistent.setTimeout (hs : Consistent s) (reploffset : ℤ)
    (hc : c ∈ s.clients) (hfree : (s.client c).blocked = false) (hlow : -2^63 ≤ timeout) (hhigh : timeout < 2^63) :
    Consistent (setClient s c { s.client c with
      timeout := timeout
      reploffset := reploffset }) := by
  let s' := setClient s c { s.client c with
    timeout := timeout
    reploffset := reploffset }
  have hself : s'.client c = { s.client c with
      timeout := timeout
      reploffset := reploffset } := setClient_self ..
  have hother (c' : ClientPtr) (hne : c' ≠ c) : s'.client c' = s.client c' := setClient_other _ _ hne
  have hbefore : ¬Timed (s.client c) := by
    intro ht
    rw [Timed, hfree] at ht
    exact Bool.noConfusion ht.1
  have hafter : ¬Timed (s'.client c) := by
    rw [hself, Timed, hfree]
    exact fun ht => Bool.noConfusion ht.1
  have hfields (c' : ClientPtr) : (s'.client c').unblocked = (s.client c').unblocked ∧
      (s'.client c').btype = (s.client c').btype := by
    by_cases heq : c' = c
    · rw [heq, hself]
      exact ⟨rfl, rfl⟩
    · rw [hother c' heq]
      exact ⟨rfl, rfl⟩
  have hsound := hs.sound c hc
  have hout : ¬(s.client c).inToTable = true := fun hflag => hbefore (hsound.flag.1 hflag)
  refine hs.change rfl hother ?_ (hs.keys.keep hbefore hafter hother)
    (hs.waiting.congr fun c' _ => ?_) (hs.unblocked.congr fun c' _ => ?_)
  · refine ⟨?_, ?_, ?_, ?_⟩
    · refine ⟨fun hflag => absurd ?_ hout, fun ht => absurd ht hafter⟩
      rwa [hself] at hflag
    · rw [hself]
      exact hsound.btype
    · rw [hself]
      exact hlow
    · rw [hself]
      exact hhigh
  · exact iff_of_eq (congrArg (· = BlockedType.wait) (hfields c').2.symm)
  · exact iff_of_eq (congrArg (· = true) (hfields c').1.symm)

theorem block_blocks {waiting : List ClientPtr} (hs : Consistent s)
    (reploffset : ℤ) (hc : c ∈ s.clients) (hfree : (s.client c).blocked = false) (hlow : -2^63 ≤ timeout)
    (hhigh : timeout < 2^63) (hbtype : btype ≠ .none)
    (hwait : waiting = if btype = .wait then s.clientsWaitingAcks ++ [c]
      else s.clientsWaitingAcks) :
    Blocks s (blockClient
      { setClient s c { s.client c with
          timeout := timeout
          reploffset := reploffset } with
        clientsWaitingAcks := waiting } c btype) c timeout := by
  have hset := hs.setTimeout reploffset hc hfree hlow hhigh
  have hfree' : ((setClient s c { s.client c with
      timeout := timeout
      reploffset := reploffset }).client c).blocked = false := by
    rw [setClient_self]
    exact hfree
  obtain ⟨heq, hcons⟩ := hset.block hc hfree' hbtype hwait
  rw [heq]
  refine ⟨hcons, rfl, ?_, fun c' hne => ?_⟩
  · simp [blockResult, blockedClient]
  · simp [blockResult, setClient, hne]

theorem blockForKeys_blocks (hs : Consistent s) (hc : c ∈ s.clients)
    (hfree : (s.client c).blocked = false) (hlow : -2^63 ≤ timeout) (hhigh : timeout < 2^63)
    (hbtype : btype = .list ∨ btype = .zset ∨ btype = .stream) :
    Blocks s (blockForKeys s c btype timeout) c timeout := by
  have hsome : btype ≠ .none := by rcases hbtype with rfl | rfl | rfl <;> exact BlockedType.noConfusion
  have hnot : btype ≠ .wait := by rcases hbtype with rfl | rfl | rfl <;> exact BlockedType.noConfusion
  exact block_blocks hs (s.client c).reploffset hc hfree hlow hhigh hsome
    (if_neg hnot).symm

theorem waitCommand_steps (hs : Consistent s)
    (hrec : Recorded s deadline) (hc : c ∈ s.clients) (hfree : (s.client c).blocked = false)
    (htval : tval < 2^63) (hclock : ClockValue clock) (masterhost multi : Bool)
    (woff numreplicas : ℤ) :
    Consistent (waitCommand s c masterhost multi woff numreplicas tval clock) ∧
      Recorded (waitCommand s c masterhost multi woff numreplicas tval clock)
        (Function.update deadline c (exactDeadline tval clock)) := by
  have hreplied (r : Reply) : Consistent (addReply s c r) ∧
      Recorded (addReply s c r) (Function.update deadline c (exactDeadline tval clock)) :=
    ⟨hs.addReply c r, (hrec.forget hfree _).kept (addReply_kept s c r)⟩
  rw [waitCommand]
  split_ifs with hmaster
  · exact hreplied .error
  · cases ht : getTimeout tval clock with
    | none => exact hreplied .error
    | some timeout =>
      dsimp only
      split_ifs with hacks
      · exact hreplied _
      · obtain ⟨hfits, hlow, hhigh⟩ := getTimeout_fits ht htval hclock
        have hblocks := block_blocks hs woff hc hfree hlow hhigh
          (show BlockedType.wait ≠ .none from BlockedType.noConfusion) (if_pos rfl).symm
        exact ⟨hblocks.consistent, hblocks.recorded hrec hfits⟩

def Due (now : ℕ) (cl : Client) : Prop := Timed cl ∧ toUnsigned 64 cl.timeout < now

instance (now : ℕ) (cl : Client) : Decidable (Due now cl) :=
  inferInstanceAs (Decidable ((cl.blocked = true ∧ cl.timeout ≠ 0) ∧
    toUnsigned 64 cl.timeout < now))

def timedOutClient (s : Server) (cl : Client) : Client :=
  unblockedClient { cl with reply := cl.reply ++ [timedOutReply s cl] }

theorem signed_past (hsound : Sound cl) (hnow : now < 2^63)
    (hpast : toUnsigned 64 cl.timeout < now) : cl.timeout < toLong now := by
  have hlow := hsound.low
  have hhigh := hsound.high
  rw [toLong_of_fits (by omega) (by omega)]
  rw [toUnsigned] at hpast
  omega

theorem timeoutRound_eq (hs : Consistent s) (hc : c ∈ s.clients)
    (hdue : Due now (s.client c)) (hnow : now < 2^63) :
    ∃ s', checkBlockedClientTimeout (setClient s c { s.client c with inToTable := false }) c
        (toLong now) = .ok (true, s') ∧
      { s' with
        clientsTimeoutTable :=
          raxRemove s'.clientsTimeoutTable (timeoutKey c (s.client c)) } =
        unblockResult (addReply s c (timedOutReply s (s.client c))) c := by
  obtain ⟨⟨hb, ht⟩, hpast⟩ := hdue
  have hsound := hs.sound c hc
  have hbtype := hsound.btype.1 hb
  have hwait : (s.client c).btype = .wait → c ∈ s.clientsWaitingAcks :=
    fun hw => (hs.waiting.mem c).2 ⟨hc, hw⟩
  have hflag : (s.client c).inToTable = true := hsound.flag.2 ⟨hb, ht⟩
  let s1 := setClient s c { s.client c with inToTable := false }
  have hself : s1.client c = { s.client c with inToTable := false } := setClient_self ..
  have hreply : timedOutReply s1 (s1.client c) = timedOutReply s (s.client c) := by
    rw [hself]
    rfl
  let s2 := addReply s1 c (timedOutReply s (s.client c))
  have hself2 : (s2.client c).btype = (s.client c).btype := by
    simp [s2, s1, addReply]
  have hpast' := signed_past hsound hnow hpast
  refine ⟨unblockResult s2 c, ?_, ?_⟩
  · have hcond : (s1.client c).blocked = true ∧ (s1.client c).timeout ≠ 0 ∧
        (s1.client c).timeout < toLong now := by
      rw [hself]
      exact ⟨hb, ht, hpast'⟩
    rw [checkBlockedClientTimeout, if_pos hcond, replyToBlockedClientTimedOut_eq, ok_bind,
      hreply, unblockClient_eq, ok_bind]
    · rw [hself2]
      exact hbtype
    · rw [hself2]
      exact hwait
    · rw [hself]
      exact hbtype
  · simp [s2, s1, unblockResult, addReply, setClient, hflag, unblockedClient, timeoutKey]

structure Scanned (s s' : Server) (now : ℕ) : Prop where
  consistent : Consistent s'
  clients : s'.clients = s.clients
  due : ∀ c ∈ s.clients, Due now (s.client c) → s'.client c = timedOutClient s (s.client c)
  rest : ∀ c ∈ s.clients, ¬Due now (s.client c) → s'.client c = s.client c

theorem Scanned.of_none (hs : Consistent s)
    (h : ∀ c ∈ s.clients, ¬Due now (s.client c)) : Scanned s s now :=
  ⟨hs, rfl, fun c hc hdue => absurd hdue (h c hc), fun _ _ _ => rfl⟩

theorem raxRemove_length {table : List Bytes} (h : key ∈ table) :
    (raxRemove table key).length < table.length := by
  rw [raxRemove, List.length_filter_lt_length_iff_exists]
  exact ⟨key, h, by simp⟩

theorem raxFirst_least (hs : Consistent s) (h : raxFirst s.clientsTimeoutTable = some key) :
    ∃ c ∈ s.clients, Timed (s.client c) ∧ key = timeoutKey c (s.client c) ∧
      ∀ c' ∈ s.clients, Timed (s.client c') →
        toUnsigned 64 (s.client c).timeout ≤ toUnsigned 64 (s.client c').timeout := by
  obtain ⟨hmem, hleast⟩ := raxFirst_some h
  obtain ⟨c, hc, ht, hkey⟩ := (hs.keys.mem key).1 hmem
  refine ⟨c, hc, ht, hkey, fun c' hc' ht' => ?_⟩
  have hcmp := hleast _ ((hs.keys.mem _).2 ⟨c', hc', ht', rfl⟩)
  rw [hkey, timeoutKey, timeoutKey, encodeTimeoutKey, encodeTimeoutKey] at hcmp
  have hle := beNat_le_of_sdscmp (by rw [beBytes_length, beBytes_length]) hcmp
  rwa [beNat_beBytes_of_lt (toUnsigned_lt 64 _), beNat_beBytes_of_lt (toUnsigned_lt 64 _)] at hle

theorem timeoutLoop_scans {fuel : ℕ} (hs : Consistent s) (hnow : now < 2^63)
    (hfuel : s.clientsTimeoutTable.length < fuel) :
    ∃ s', timeoutLoop now fuel s = .ok s' ∧ Scanned s s' now ∧ Kept s s' := by
  induction fuel generalizing s with
  | zero => exact absurd hfuel (Nat.not_lt_zero _)
  | succ fuel ih =>
    rw [timeoutLoop]
    cases hfirst : raxFirst s.clientsTimeoutTable with
    | none =>
      refine ⟨s, rfl, Scanned.of_none hs fun c hc hdue => ?_, Kept.refl s⟩
      have hmem := (hs.keys.mem _).2 ⟨c, hc, hdue.1, rfl⟩
      rw [raxFirst_none hfirst] at hmem
      exact not_mem_nil hmem
    | some key =>
      obtain ⟨c, hc, ht, hkey, hleast⟩ := raxFirst_least hs hfirst
      dsimp only
      rw [hkey, decode_timeoutKey _ (hs.pointer c hc)]
      dsimp only
      split_ifs with hpast
      · -- the timeouts behind the first one are in the future, too
        refine ⟨s, rfl, Scanned.of_none hs fun c' hc' hdue => ?_, Kept.refl s⟩
        exact absurd (le_trans hpast (hleast c' hc' hdue.1)) (not_le.2 hdue.2)
      · have hdue : Due now (s.client c) := ⟨ht, not_le.1 hpast⟩
        obtain ⟨s1, hcheck, hround⟩ := timeoutRound_eq hs hc hdue hnow
        rw [hcheck, ok_bind]
        dsimp only
        rw [hround]
        let r := timedOutReply s (s.client c)
        have hadd := hs.addReply c r
        have hblocked : ((addReply s c r).client c).blocked = true := by
          rw [addReply, setClient_self]
          exact ht.1
        obtain ⟨-, hcons, hkept⟩ := hadd.unblock hc hblocked
        let s2 := unblockResult (addReply s c r) c
        have hself : s2.client c = timedOutClient s (s.client c) := by
          rw [show s2 = unblockResult (addReply s c r) c from rfl, unblockResult_self, addReply,
            setClient_self]
          rfl
        have hother (c' : ClientPtr) (hne : c' ≠ c) : s2.client c' = s.client c' := by
          rw [show s2 = unblockResult (addReply s c r) c from rfl, unblockResult_other _ hne,
            addReply, setClient_other _ _ hne]
        have hshorter : s2.clientsTimeoutTable.length < fuel := by
          have htable : s2.clientsTimeoutTable = raxRemove s.clientsTimeoutTable key := by
            have hflag : ((addReply s c r).client c).inToTable = true := by
              rw [addReply, setClient_self]
              exact (hs.sound c hc).flag.2 ht
            rw [hkey, show s2 = unblockResult (addReply s c r) c from rfl, unblockResult,
              if_pos hflag, addReply, setClient_self]
            rfl
          have hlt := raxRemove_length (raxFirst_some hfirst).1
          rw [htable]
          omega
        obtain ⟨s', hloop, hscan, hkept'⟩ := ih hcons hshorter
        refine ⟨s', hloop, ⟨hscan.consistent, hscan.clients, ?_, ?_⟩,
          (addReply_kept s c r).trans (hkept.trans hkept')⟩
        · intro c' hc' hdue'
          by_cases heq : c' = c
          · subst heq
            rw [hscan.rest c' hc' fun h => ?_, hself]
            rw [hself] at h
            exact Bool.noConfusion h.1.1
          · rw [hscan.due c' hc' (by rwa [hother c' heq]), hother c' heq]
            rfl
        · intro c' hc' hnot
          have hne : c' ≠ c := fun heq => hnot (heq ▸ hdue)
          rw [hscan.rest c' hc' (by rwa [hother c' hne]), hother c' hne]

theorem handleBlockedClientsTimeout_scans (hs : Consistent s) (hclock : ClockValue clock) :
    ∃ s', handleBlockedClientsTimeout clock s = .ok s' ∧ Scanned s s' clock.toNat ∧ Kept s s' := by
  obtain ⟨hlow, hhigh⟩ := hclock
  have hnow : toUnsigned 64 clock = clock.toNat := toUnsigned_of_range hlow (by omega)
  rw [handleBlockedClientsTimeout, hnow]
  split_ifs with hempty
  · refine ⟨s, rfl, Scanned.of_none hs fun c hc hdue => ?_, Kept.refl s⟩
    have hmem := (hs.keys.mem _).2 ⟨c, hc, hdue.1, rfl⟩
    rw [List.eq_nil_of_length_eq_zero hempty] at hmem
    exact not_mem_nil hmem
  · exact timeoutLoop_scans hs (by omega) (Nat.lt_succ_self _)

theorem step_consistent {e : Event} (hs : Consistent h.server)
    (hrec : Recorded h.server h.deadline) (he : Allowed h.server e) :
    ∃ h', step h e = .ok h' ∧ Consistent h'.server ∧ Recorded h'.server h'.deadline := by
  have hsteps {x : Except Fault Server} (hx : stepServer h.server e = x)
      (hd : stepDeadline h.deadline e = h.deadline) (hok : Steps h.server x) :
      ∃ h', step h e = .ok h' ∧ Consistent h'.server ∧ Recorded h'.server h'.deadline := by
    obtain ⟨s', hs', hcons, hkept⟩ := hok
    refine ⟨⟨s', h.deadline⟩, ?_, hcons, hrec.kept hkept⟩
    rw [step, hx, hs', ok_bind, hd]
  cases e with
  | connect c =>
    obtain ⟨hcons, hkept⟩ := createClient_steps hs he.1 he.2
    exact hsteps rfl rfl (Steps.ok hcons hkept)
  | block c btype tval clock =>
    obtain ⟨hc, hfree, hbtype, htval, hclock⟩ := he
    rw [step, stepServer, stepDeadline]
    cases ht : getTimeout tval clock with
    | none =>
      refine ⟨_, rfl, hs.addReply c .error, ?_⟩
      exact (hrec.forget hfree _).kept (addReply_kept h.server c .error)
    | some timeout =>
      obtain ⟨hfits, hlow, hhigh⟩ := getTimeout_fits ht htval hclock
      have hblocks := blockForKeys_blocks hs hc hfree hlow hhigh hbtype
      exact ⟨_, rfl, hblocks.consistent, hblocks.recorded hrec hfits⟩
  | wait c masterhost multi woff numreplicas tval clock =>
    obtain ⟨hc, hfree, htval, hclock⟩ := he
    exact ⟨_, rfl, waitCommand_steps hs hrec hc hfree htval hclock masterhost multi woff numreplicas⟩
  | served c reply => exact hsteps rfl rfl (replied_steps hs he.1 he.2 reply)
  | clientUnblock c unblockError => exact hsteps rfl rfl (clientUnblock_steps hs he unblockError)
  | roleChange => exact hsteps rfl rfl (disconnectLoop_steps hs fun _ hc => hc)
  | free c => exact hsteps rfl rfl (freeClient_steps hs he)
  | slaves slaves =>
    refine hsteps rfl rfl (Steps.ok ⟨hs.nodup, hs.pointer, hs.sound, hs.keys, hs.waiting,
      hs.unblocked⟩ ?_)
    exact fun c hc hb => ⟨hc, hb, rfl⟩
  | processUnblocked => exact hsteps rfl rfl (processUnblockedClient_steps hs)
  | timeouts clock =>
    obtain ⟨s', hx, hscan, hkept⟩ := handleBlockedClientsTimeout_scans hs he
    exact hsteps hx rfl (Steps.ok hscan.consistent hkept)

theorem Reachable.consistent (hr : Reachable h) :
    Consistent h.server ∧ Recorded h.server h.deadline := by
  induction hr with
  | init => exact ⟨initServer_consistent, fun c hc => absurd hc not_mem_nil⟩
  | step _ he hstep ih =>
    obtain ⟨h', heq, hcons, hrec⟩ := step_consistent ih.1 ih.2 he
    rw [hstep] at heq
    obtain rfl := Except.ok.inj heq
    exact ⟨hcons, hrec⟩

theorem toUnsigned_toLong {d : ℤ} (hlow : 0 ≤ d) (hhigh : d < 2^64) :
    toUnsigned 64 (toLong d) = d.toNat := by
  have hmod : Int.bmod d (2^64) % (2:ℤ)^64 = d := by
    rw [show (2:ℤ)^64 = ((2^64 : ℕ) : ℤ) by norm_num, Int.bmod_emod]
    exact Int.emod_eq_of_lt hlow (by push_cast; exact hhigh)
  rw [toUnsigned, toLong, hmod]

theorem due_iff (hclock : 0 ≤ clock) (hfits : cl.blocked = true → Fits cl.timeout d) :
    Due clock.toNat cl ↔ cl.blocked = true ∧ ∃ deadline, d = some deadline ∧ deadline < clock := by
  rw [Due, Timed]
  constructor
  · rintro ⟨⟨hb, ht⟩, hpast⟩
    have h := hfits hb
    cases d with
    | none => exact absurd h ht
    | some deadline =>
      obtain ⟨hpos, hhigh, heq⟩ := h
      rw [heq, toUnsigned_toLong hpos.le hhigh] at hpast
      exact ⟨hb, deadline, rfl, by omega⟩
  · rintro ⟨hb, deadline, hd, hlt⟩
    have h := hfits hb
    rw [hd] at h
    obtain ⟨hpos, hhigh, heq⟩ := h
    have hkey := toUnsigned_toLong hpos.le hhigh
    rw [← heq] at hkey
    refine ⟨⟨hb, fun hzero => ?_⟩, by omega⟩
    rw [hzero, toUnsigned] at hkey
    omega

/-- `clients_timeout_table` has one key for each client that is blocked with a timeout, and no
other; the flag tells which clients these are. -/
structure TableExact (s : Server) : Prop where
  nodup : s.clientsTimeoutTable.Nodup
  mem : ∀ key, key ∈ s.clientsTimeoutTable ↔ ∃ c ∈ s.clients, (s.client c).blocked = true ∧
    (s.client c).timeout ≠ 0 ∧ key = encodeTimeoutKey (toUnsigned 64 (s.client c).timeout) c
  live : ∀ key ∈ s.clientsTimeoutTable, (decodeTimeoutKey key).2 ∈ s.clients
  flag : ∀ c ∈ s.clients, (s.client c).inToTable = true ↔
    (s.client c).blocked = true ∧ (s.client c).timeout ≠ 0

theorem Consistent.tableExact (hs : Consistent s) : TableExact s where
  nodup := hs.keys.nodup
  mem := by
    intro key
    rw [hs.keys.mem]
    simp only [Timed, timeoutKey, and_assoc]
  live := by
    intro key hkey
    obtain ⟨c, hc, -, rfl⟩ := (hs.keys.mem key).1 hkey
    rw [decode_timeoutKey _ (hs.pointer c hc)]
    exact hc
  flag := fun c hc => (hs.sound c hc).flag

/-- Clients with a deadline before the clock are timed out: they get a reply, their blocking ends
and they are queued for reprocessing. -/
structure TimesOut (h : History) (clock : ℤ) (s' : Server) : Prop where
  clients : s'.clients = h.server.clients
  late : ∀ c ∈ h.server.clients, (h.server.client c).blocked = true →
    (∃ deadline, h.deadline c = some deadline ∧ deadline < clock) →
      s'.client c = timedOutClient h.server (h.server.client c)
  rest : ∀ c ∈ h.server.clients, ¬((h.server.client c).blocked = true ∧
    ∃ deadline, h.deadline c = some deadline ∧ deadline < clock) →
      s'.client c = h.server.client c

def blockedHistory : History :=
  { server := blockForKeys (createClient initServer 5) 5 .list 1100
    deadline := Function.update (fun _ => none) 5 (some 1100) }

theorem blockedHistory_reachable : Reachable blockedHistory := by
  have hconnect : Reachable ⟨createClient initServer 5, fun _ => none⟩ := by
    have he : Allowed initServer (.connect 5) := ⟨not_mem_nil, by norm_num⟩
    exact Reachable.step Reachable.init he rfl
  have he : Allowed (createClient initServer 5) (.block 5 .list 100 1000) :=
    ⟨mem_cons_self, rfl, Or.inl rfl, by norm_num, by norm_num [ClockValue]⟩
  refine Reachable.step hconnect he ?_
  have ht : getTimeout 100 1000 = some 1100 := by decide
  have hd : exactDeadline 100 1000 = some 1100 := by decide
  rw [step, stepServer, stepDeadline, ht, hd]
  rfl

end RedisCore.Timeouts
