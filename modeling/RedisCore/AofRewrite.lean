import RedisCore.AofRewriteLogs
import RedisCore.AofRepair

namespace RedisCore.Aof
open List (append_assoc append_nil nil_append)
open Option (bind_eq_some_iff getD_some map_eq_some_iff map_some)

open Request (encodeCommand)

variable {V : Type} {srv : Server V} {rdbLoadRio : Bytes → Option (Dataset V × Bytes)} {mstime : ℤ}

def fed (srv : Server V) (p : Parent V) : Event → Bytes
  | .item i =>
    match call srv { now := i.now, loading := false } i.db i.proc i.argv p.aof.data with
    | none => []
    | some (data, proc, argv) =>
      ((feedBytes i.fedAt { p.aof with data := data } proc i.db argv).map (fun s => s.aofBuf)).getD []
  | .multi d => ((feedBytes 0 p.aof .multi d [text "MULTI"]).map (fun s => s.aofBuf)).getD []
  | .exec d => ((feedBytes 0 p.aof .exec d [text "EXEC"]).map (fun s => s.aofBuf)).getD []
  | _ => []

def fedAll (srv : Server V) : List Event → Parent V → Bytes
  | [], _ => []
  | e :: es, p =>
    fed srv p e ++
      match step srv p e with
      | none => []
      | some p => fedAll srv es p

def Rebuilds (srv : Server V) (rdbLoadRio : Bytes → Option (Dataset V × Bytes)) (snapshot : Bytes)
    (data : Dataset V) : Prop :=
  (∃ cmds, snapshot = encodeAll cmds ∧ (∀ c ∈ cmds, Plain srv c) ∧
    ∀ mstime, (replayAll srv mstime cmds (0, emptyDataset)).2 = data) ∨
  (snapshot.take 5 = text "REDIS" ∧ ∀ rest, rdbLoadRio (snapshot ++ rest) = some (data, rest))

def EventOk (srv : Server V) (rdbLoadRio : Bytes → Option (Dataset V × Bytes)) (p : Parent V) :
    Event → Prop
  | .item i => ItemOk srv i
  | .multi d => d < srv.dbnum
  | .exec d => d < srv.dbnum
  | .fork snapshot => Rebuilds srv rdbLoadRio snapshot p.aof.data
  | _ => True

def EventPunctual : Event → Prop
  | .item i => Punctual i
  | _ => True

def RunOk (srv : Server V) (rdbLoadRio : Bytes → Option (Dataset V × Bytes)) :
    List Event → Parent V → Prop
  | [], _ => True
  | e :: es, p =>
    EventOk srv rdbLoadRio p e ∧ ∀ p', step srv p e = some p' → RunOk srv rdbLoadRio es p'

variable {P : Prop} {s : AofState V} {d : ℕ} {selected : Option ℕ} {p p' : Parent V}
  {log bytes snapshot : Bytes} {data : Dataset V} {multi opened renamed : Bool} {e : Event}
  {results : List ℤ}

theorem feedBytes_spec {s' : AofState V} {fedAt : ℤ} {proc : Proc} {argv : List Bytes}
    (h : feedBytes fedAt s proc d argv = some s') :
    ∃ cmds, translated fedAt proc argv = some cmds ∧ s'.data = s.data ∧ s'.aofSelectedDb = some d ∧
      s'.aofBuf = encodeAll (selectFor s.aofSelectedDb d ++ cmds) := by
  obtain ⟨cmds, htr, hdata, hselected, hbuf⟩ := feed_spec h
  exact ⟨cmds, htr, hdata, hselected, by simpa using hbuf⟩

/-- One command is fed.  `P` is what the replay of the bytes needs, that the clock has not moved. -/
structure Feeds (srv : Server V) (P : Prop) (p p' : Parent V) (bytes : Bytes) (s : AofState V)
    (multi : Bool) : Prop where
  next : p' = { p.append s with multi := multi }
  buf : s.aofBuf = bytes
  follows : P → ∀ {rdbLoadRio : Bytes → Option (Dataset V × Bytes)} {mstime : ℤ} {log : Bytes},
    Follows srv rdbLoadRio mstime log p.aof.data p.aof.aofSelectedDb p.multi →
    Follows srv rdbLoadRio mstime (log ++ bytes) s.data s.aofSelectedDb multi
  first : p.aof.aofSelectedDb = none → (bytes = [] ∧ s.aofSelectedDb = none) ∨
    ∃ d, encodeCommand (selectArgv d) <+: bytes

theorem append_nothing (p : Parent V) : p.append { p.aof with aofBuf := [] } = p := by
  have happend : aofRewriteBufferAppend [] p.aofRewriteBufBlocks = p.aofRewriteBufBlocks := rfl
  unfold Parent.append
  dsimp only
  rw [happend]
  simp

theorem select_first (hnone : selected = none) (d : ℕ) (cmds : List (List Bytes)) :
    encodeCommand (selectArgv d) <+: encodeAll (selectFor selected d ++ cmds) := by
  rw [hnone, selectFor, if_neg (by simp), encodeAll_append]
  refine ⟨encodeAll cmds, ?_⟩
  simp

theorem feeds_item {i : Item} (h : step srv p (.item i) = some p') (hi : ItemOk srv i)
    (hp : P → Punctual i) : ∃ s, Feeds srv P p p' (fed srv p (.item i)) s p.multi := by
  rw [step] at h
  rw [fed]
  cases hcall : call srv { now := i.now, loading := false } i.db i.proc i.argv p.aof.data with
  | none =>
    rw [hcall] at h
    cases h
    refine ⟨{ p.aof with aofBuf := [] }, ?_, rfl, ?_, fun hnone => Or.inl ⟨rfl, hnone⟩⟩
    · rw [append_nothing]
    · intro _ rdbLoadRio mstime log hlog
      rw [append_nil]
      exact hlog
  | some r =>
    obtain ⟨data, proc, argv⟩ := r
    rw [hcall] at h
    obtain ⟨s, hfeed, hnext⟩ := map_eq_some_iff.mp h
    obtain ⟨cmds, htr, hdata, hselected, hbuf⟩ := feedBytes_spec hfeed
    have hcall' : call srv { now := i.now, loading := false } i.db i.proc i.argv p.aof.data =
        some (s.data, proc, argv) := by
      rw [hcall, hdata]
    have happ := execItem_appends hi hcall' htr hselected
    dsimp only
    rw [hfeed, map_some, getD_some]
    refine ⟨s, hnext.symm, rfl, ?_, fun hnone => Or.inr ⟨i.db, ?_⟩⟩
    · intro hP rdbLoadRio mstime log hlog
      rw [hbuf]
      exact hlog.plain happ.plain (happ.replay (hp hP) mstime)
    · rw [hbuf]
      exact select_first hnone _ _

theorem follows_select (h : Follows srv rdbLoadRio mstime log data selected multi)
    (hd : d < srv.dbnum) :
    Follows srv rdbLoadRio mstime (log ++ encodeAll (selectFor selected d)) data (some d) multi := by
  apply h.plain (selectFor_plain selected hd)
  intro d' hd'
  exact ⟨d, replay_selectFor hd hd' data, fun _ heq => Option.some.inj heq⟩

theorem feeds_multi (h : step srv p (.multi d) = some p') (hd : d < srv.dbnum) :
    ∃ s, Feeds srv P p p' (fed srv p (.multi d)) s true := by
  rw [step] at h
  cases hmulti : p.multi with
  | true =>
    rw [hmulti] at h
    cases h
  | false =>
    rw [hmulti, if_neg Bool.false_ne_true] at h
    obtain ⟨s, hfeed, hnext⟩ := map_eq_some_iff.mp h
    obtain ⟨cmds, htr, hdata, hselected, hbuf⟩ := feedBytes_spec hfeed
    rw [translated_bracket (Or.inl rfl)] at htr
    cases htr
    rw [fed, hfeed, map_some, getD_some]
    refine ⟨s, hnext.symm, rfl, ?_, fun hnone => Or.inr ⟨d, ?_⟩⟩
    · intro _ rdbLoadRio mstime log hlog
      rw [hmulti] at hlog
      rw [hbuf, encodeAll_append, ← append_assoc, hdata, hselected]
      exact (follows_select hlog hd).multi
    · rw [hbuf]
      exact select_first hnone _ _

theorem feeds_exec (h : step srv p (.exec d) = some p') (hd : d < srv.dbnum) :
    ∃ s, Feeds srv P p p' (fed srv p (.exec d)) s false := by
  rw [step] at h
  cases hmulti : p.multi with
  | false =>
    rw [hmulti] at h
    cases h
  | true =>
    rw [hmulti, if_pos rfl] at h
    obtain ⟨s, hfeed, hnext⟩ := map_eq_some_iff.mp h
    obtain ⟨cmds, htr, hdata, hselected, hbuf⟩ := feedBytes_spec hfeed
    rw [translated_bracket (Or.inr rfl)] at htr
    cases htr
    rw [fed, hfeed, map_some, getD_some]
    refine ⟨s, hnext.symm, rfl, ?_, fun hnone => Or.inr ⟨d, ?_⟩⟩
    · intro _ rdbLoadRio mstime log hlog
      rw [hbuf, encodeAll_append, ← append_assoc, hdata, hselected]
      exact (follows_select hlog hd).exec
    · rw [hbuf]
      exact select_first hnone _ _

def oldLog (p : Parent V) : Bytes := p.file ++ p.aof.aofBuf

def newLog (c : Child) (p : Parent V) : Bytes :=
  c.snapshot ++ (c.aofChildDiff ++ (p.pipes.data ++ blocksBytes p.aofRewriteBufBlocks))

structure Handshake (p : Parent V) : Prop where
  idle : p.child = none → p.aofRewriteBufBlocks = []
  waiting : p.aofState = .waitRewrite → p.aof.aofBuf = []
  stopped : ∀ c, p.child = some c →
    p.pipes.ackToChild = true ∨ c.phase = .agreed ∨ c.phase = .done → p.aofStopSendingDiff = true
  finished : ∀ c, p.child = some c → c.phase = .done →
    p.pipes.data = [] ∧ c.tmpfile = c.snapshot ++ c.aofChildDiff

structure Advances (srv : Server V) (P : Prop) (p p' : Parent V) (bytes : Bytes) : Prop where
  state : p'.aofState = p.aofState
  old : p.aofState = .on → oldLog p' = oldLog p ++ bytes
  new : ∀ c, p.child = some c →
    ∃ c', p'.child = some c' ∧ c'.snapshot = c.snapshot ∧ newLog c' p' = newLog c p ++ bytes
  idle : p.child = none → p'.child = none
  follows : P → ∀ {rdbLoadRio : Bytes → Option (Dataset V × Bytes)} {mstime : ℤ} {log : Bytes},
    Follows srv rdbLoadRio mstime log p.aof.data p.aof.aofSelectedDb p.multi →
    Follows srv rdbLoadRio mstime (log ++ bytes) p'.aof.data p'.aof.aofSelectedDb p'.multi
  first : p.aof.aofSelectedDb = none → (bytes = [] ∧ p'.aof.aofSelectedDb = none) ∨
    ∃ d, encodeCommand (selectArgv d) <+: bytes

theorem Feeds.advances (h : Feeds srv P p p' bytes s multi) : Advances srv P p p' bytes := by
  obtain ⟨rfl, rfl, hfollows, hfirst⟩ := h
  refine ⟨rfl, ?_, ?_, fun hnone => hnone, hfollows, hfirst⟩
  · intro hon
    unfold oldLog Parent.append
    dsimp only
    rw [if_pos hon, append_assoc]
  · intro c hc
    refine ⟨c, hc, rfl, ?_⟩
    unfold newLog Parent.append
    dsimp only
    rw [hc, Option.isSome_some, if_pos rfl, aofRewriteBufferAppend_bytes]
    simp only [append_assoc]

theorem Feeds.handshake (h : Feeds srv P p p' bytes s multi) (hp : Handshake p) : Handshake p' := by
  obtain ⟨rfl, -, -, -⟩ := h
  refine ⟨?_, ?_, hp.stopped, hp.finished⟩
  · intro hnone
    unfold Parent.append at hnone ⊢
    dsimp only at hnone ⊢
    rw [hnone, Option.isSome_none, if_neg Bool.false_ne_true]
    exact hp.idle hnone
  · intro hwait
    unfold Parent.append at hwait ⊢
    dsimp only at hwait ⊢
    rw [if_neg (by rw [hwait]; decide)]
    exact hp.waiting hwait

theorem advances_quiet (hdata : p'.aof.data = p.aof.data)
    (hselected : p'.aof.aofSelectedDb = p.aof.aofSelectedDb) (hmulti : p'.multi = p.multi)
    (hstate : p'.aofState = p.aofState) (hold : oldLog p' = oldLog p)
    (hnew : ∀ c, p.child = some c →
      ∃ c', p'.child = some c' ∧ c'.snapshot = c.snapshot ∧ newLog c' p' = newLog c p)
    (hidle : p.child = none → p'.child = none) : Advances srv P p p' [] := by
  refine ⟨hstate, fun _ => by rw [hold, append_nil], ?_, hidle, ?_, ?_⟩
  · intro c hc
    obtain ⟨c', hc', hsnapshot, hlog⟩ := hnew c hc
    exact ⟨c', hc', hsnapshot, by rw [hlog, append_nil]⟩
  · intro _ rdbLoadRio mstime log hlog
    rw [append_nil, hdata, hselected, hmulti]
    exact hlog
  · intro hnone
    exact Or.inl ⟨rfl, by rw [hselected, hnone]⟩

def Event.inner : Event → Bool
  | .fork _ => false
  | .doneHandler _ _ _ => false
  | .killChild => false
  | _ => true

theorem flush_advances (nwritten : ℕ) (truncated : Bool) (p : Parent V) :
    Advances srv P p (flushAppendOnlyFile nwritten truncated p) [] := by
  have hnew : ∀ p' : Parent V, p'.child = p.child → p'.pipes = p.pipes →
      p'.aofRewriteBufBlocks = p.aofRewriteBufBlocks → ∀ c, p.child = some c →
      ∃ c', p'.child = some c' ∧ c'.snapshot = c.snapshot ∧ newLog c' p' = newLog c p := by
    intro p' hchild hpipes hblocks c hc
    refine ⟨c, by rw [hchild, hc], rfl, ?_⟩
    unfold newLog
    rw [hpipes, hblocks]
  unfold flushAppendOnlyFile
  split_ifs
  · exact advances_quiet rfl rfl rfl rfl rfl (hnew p rfl rfl rfl) (fun hnone => hnone)
  · refine advances_quiet rfl rfl rfl rfl ?_ (hnew _ rfl rfl rfl) (fun hnone => hnone)
    unfold oldLog
    simp
  · exact advances_quiet rfl rfl rfl rfl rfl (hnew p rfl rfl rfl) (fun hnone => hnone)
  · refine advances_quiet rfl rfl rfl rfl ?_ (hnew _ rfl rfl rfl) (fun hnone => hnone)
    unfold oldLog
    simp

def Event.ofChild : Event → Bool
  | .childRead _ => true
  | .childAsk => true
  | .childAck => true
  | .childFinish => true
  | .childFail => true
  | _ => false

theorem of_child {o : Option Child} {f : Child → Option (Parent V)} (h : (match o with
    | none => none
    | some c => f c) = some p') : ∃ c, o = some c ∧ f c = some p' := by
  cases o with
  | none => cases h
  | some c => exact ⟨c, rfl, h⟩

theorem step_child (h : step srv p e = some p') (he : e.ofChild = true) :
    ∃ c c' pipes, p.child = some c ∧ p' = { p with child := some c', pipes := pipes } ∧
      c'.snapshot = c.snapshot ∧ c'.aofChildDiff ++ pipes.data = c.aofChildDiff ++ p.pipes.data ∧
      (pipes.ackToChild = true ∨ c'.phase = .agreed ∨ c'.phase = .done →
        p.pipes.ackToChild = true ∨ c.phase = .agreed ∨ c.phase = .done) ∧
      (c'.phase = .done → pipes.data = [] ∧ c'.tmpfile = c'.snapshot ++ c'.aofChildDiff) := by
  cases e with
  | childRead nread =>
    obtain ⟨c, hc, h⟩ := of_child (o := p.child) h
    split_ifs at h with hphase
    cases h
    refine ⟨c, _, _, hc, rfl, rfl, ?_, fun hstop => hstop, fun hdone => ?_⟩
    · rw [append_assoc, List.take_append_drop]
    · rcases hphase with h | h <;> rw [h] at hdone <;> cases hdone
  | childAsk =>
    obtain ⟨c, hc, h⟩ := of_child (o := p.child) h
    split_ifs at h
    cases h
    refine ⟨c, _, _, hc, rfl, rfl, rfl, fun hstop => ?_, fun hdone => by cases hdone⟩
    rcases hstop with hack | h | h
    · exact Or.inl hack
    · cases h
    · cases h
  | childAck =>
    obtain ⟨c, hc, h⟩ := of_child (o := p.child) h
    split_ifs at h with hphase
    cases h
    exact ⟨c, _, _, hc, rfl, rfl, rfl, fun _ => Or.inl hphase.2, fun hdone => by cases hdone⟩
  | childFinish =>
    obtain ⟨c, hc, h⟩ := of_child (o := p.child) h
    split_ifs at h with hphase
    cases h
    exact ⟨c, _, _, hc, rfl, rfl, rfl, fun _ => Or.inr (Or.inl hphase.1), fun _ => ⟨hphase.2, rfl⟩⟩
  | childFail =>
    obtain ⟨c, hc, h⟩ := of_child (o := p.child) h
    split_ifs at h
    cases h
    refine ⟨c, _, _, hc, rfl, rfl, rfl, fun hstop => ?_, fun hdone => by cases hdone⟩
    rcases hstop with hack | h | h
    · exact Or.inl hack
    · cases h
    · cases h
  | item | multi | exec | flush | fork | writeDiff | pipeReadable | doneHandler | killChild => cases he

theorem advances_step (h : step srv p e = some p')
    (hok : EventOk srv rdbLoadRio p e) (hp : P → EventPunctual e) (he : e.inner = true) :
    Advances srv P p p' (fed srv p e) := by
  cases e with
  | item i =>
    obtain ⟨s, hs⟩ := feeds_item h hok hp
    exact hs.advances
  | multi d =>
    obtain ⟨s, hs⟩ := feeds_multi h hok
    exact hs.advances
  | exec d =>
    obtain ⟨s, hs⟩ := feeds_exec h hok
    exact hs.advances
  | flush nwritten truncated =>
    rw [step] at h
    split_ifs at h
    cases h
    exact flush_advances nwritten truncated p
  | writeDiff sizes =>
    rw [step] at h
    split_ifs at h
    cases h
    refine advances_quiet rfl rfl rfl rfl rfl ?_ (fun hnone => hnone)
    intro c hc
    refine ⟨c, hc, rfl, ?_⟩
    unfold newLog
    dsimp only
    rw [append_assoc, aofChildWriteDiffData_bytes]
  | pipeReadable sent =>
    rw [step] at h
    split_ifs at h
    cases h
    exact advances_quiet rfl rfl rfl rfl rfl (fun c hc => ⟨c, hc, rfl, rfl⟩) (fun hnone => hnone)
  | childRead | childAsk | childAck | childFinish | childFail =>
    obtain ⟨c, c', pipes, hc, rfl, hsnapshot, hdata, -⟩ := step_child h rfl
    refine advances_quiet rfl rfl rfl rfl rfl ?_ (fun hnone => absurd hnone (by rw [hc]; simp))
    intro c1 hc1
    rw [hc] at hc1
    cases hc1
    refine ⟨c', rfl, hsnapshot, ?_⟩
    unfold newLog
    rw [hsnapshot, ← append_assoc c'.aofChildDiff, hdata, append_assoc c.aofChildDiff]
  | fork | doneHandler | killChild => cases he

theorem doneHandler_fails (h : step srv p (.doneHandler opened results renamed) = some p')
    (hnot : installs p (.doneHandler opened results renamed) = false) : p' = cleanup p := by
  rw [step] at h
  unfold installs at hnot
  cases hc : p.child with
  | none =>
    rw [hc] at h
    cases h
  | some c =>
    rw [hc] at h hnot
    dsimp only at h hnot
    split_ifs at h
    cases h
    unfold backgroundRewriteDoneHandler
    by_cases hdone : c.phase = .done ∧ opened
    · rw [if_pos hdone]
      cases hwrite : aofRewriteBufferWrite results p.aofRewriteBufBlocks with
      | none => rfl
      | some rest =>
        rw [hwrite] at hnot
        have hrenamed : renamed = false := by
          simpa [hdone.1, hdone.2] using hnot
        rw [hrenamed]
        rfl
    · rw [if_neg hdone]

theorem doneHandler_installs (hp : Handshake p)
    (h : step srv p (.doneHandler opened results renamed) = some p')
    (hinstalls : installs p (.doneHandler opened results renamed) = true) :
    ∃ c, p.child = some c ∧ p' = cleanup { p with
      aof := { p.aof with aofSelectedDb := none, aofBuf := [] }
      aofState := .on
      file := newLog c p } := by
  rw [step] at h
  unfold installs at hinstalls
  cases hc : p.child with
  | none =>
    rw [hc] at h
    cases h
  | some c =>
    rw [hc] at h hinstalls
    dsimp only at h hinstalls
    simp only [Bool.and_eq_true, decide_eq_true_eq] at hinstalls
    obtain ⟨⟨⟨hdone, hopened⟩, hwrite⟩, hrenamed⟩ := hinstalls
    obtain ⟨rest, hrest⟩ := Option.isSome_iff_exists.mp hwrite
    obtain ⟨hdata, htmp⟩ := hp.finished c hc hdone
    split_ifs at h
    cases h
    refine ⟨c, rfl, ?_⟩
    have hfile : c.tmpfile ++ rest = newLog c p := by
      rw [htmp, aofRewriteBufferWrite_bytes _ hrest]
      unfold newLog
      rw [hdata, nil_append, append_assoc]
    unfold backgroundRewriteDoneHandler
    rw [if_pos ⟨hdone, hopened⟩, hrest]
    dsimp only
    rw [if_pos hrenamed, hfile]
    rfl

theorem cleanup_handshake (hwaiting : p.aofState = .waitRewrite → p.aof.aofBuf = []) :
    Handshake (cleanup p) :=
  { idle := fun _ => rfl
    waiting := hwaiting
    stopped := fun _ h => absurd h (by simp [cleanup])
    finished := fun _ h => absurd h (by simp [cleanup]) }

theorem flush_handshake (hp : Handshake p) (nwritten : ℕ) (truncated : Bool) :
    Handshake (flushAppendOnlyFile nwritten truncated p) := by
  unfold flushAppendOnlyFile
  split_ifs with hnil hall htruncated
  · exact hp
  · exact ⟨hp.idle, fun _ => rfl, hp.stopped, hp.finished⟩
  · exact hp
  · refine ⟨hp.idle, fun hwait => ?_, hp.stopped, hp.finished⟩
    exact absurd (hp.waiting hwait) hnil

theorem handshake_step (hp : Handshake p) (h : step srv p e = some p')
    (hok : EventOk srv rdbLoadRio p e) : Handshake p' := by
  cases e with
  | item i =>
    obtain ⟨s, hs⟩ := feeds_item (P := False) h hok False.elim
    exact hs.handshake hp
  | multi d =>
    obtain ⟨s, hs⟩ := feeds_multi (P := False) h hok
    exact hs.handshake hp
  | exec d =>
    obtain ⟨s, hs⟩ := feeds_exec (P := False) h hok
    exact hs.handshake hp
  | flush nwritten truncated =>
    rw [step] at h
    split_ifs at h
    cases h
    exact flush_handshake hp nwritten truncated
  | fork snapshot =>
    rw [step] at h
    split_ifs at h
    cases h
    refine ⟨fun hnone => absurd hnone (by simp [rewriteAppendOnlyFileBackground]), hp.waiting, ?_, ?_⟩
    · intro c hc hphase
      cases hc
      rcases hphase with h | h | h <;> cases h
    · intro c hc hphase
      cases hc
      cases hphase
  | writeDiff sizes =>
    rw [step] at h
    split_ifs at h
    cases h
    refine ⟨?_, hp.waiting, hp.stopped, ?_⟩
    · intro hnone
      have hnil := hp.idle hnone
      dsimp only
      rw [hnil, aofChildWriteDiffData.eq_def]
    · intro c hc hdone
      -- the parent has stopped
      obtain ⟨hdata, htmp⟩ := hp.finished c hc hdone
      have hstop := hp.stopped c hc (Or.inr (Or.inr hdone))
      refine ⟨?_, htmp⟩
      dsimp only
      rw [hdata, hstop, aofChildWriteDiffData_stop, append_nil]
  | pipeReadable sent =>
    rw [step] at h
    split_ifs at h
    cases h
    exact ⟨hp.idle, hp.waiting, fun _ _ _ => rfl, hp.finished⟩
  | doneHandler opened results renamed =>
    cases hinstalls : installs p (.doneHandler opened results renamed) with
    | true =>
      obtain ⟨c, -, rfl⟩ := doneHandler_installs hp h hinstalls
      exact cleanup_handshake (fun _ => rfl)
    | false =>
      rw [doneHandler_fails h hinstalls]
      exact cleanup_handshake hp.waiting
  | killChild =>
    rw [step] at h
    split_ifs at h
    cases h
    exact cleanup_handshake hp.waiting
  | childRead | childAsk | childAck | childFinish | childFail =>
    obtain ⟨c, c', pipes, hc, rfl, -, -, hstop, hdone⟩ := step_child h rfl
    refine ⟨fun hnone => absurd hnone (by simp), hp.waiting, ?_, ?_⟩
    · intro c1 hc1 hphase
      cases hc1
      exact hp.stopped c hc (hstop hphase)
    · intro c1 hc1 hphase
      cases hc1
      exact hdone hphase

theorem head_nil (rdbLoadRio : Bytes → Option (Dataset V × Bytes)) : Head rdbLoadRio [] newLoader :=
  Or.inl ⟨rfl, rfl⟩

theorem Rebuilds.follows (h : Rebuilds srv rdbLoadRio snapshot data) (mstime : ℤ) (multi : Bool) :
    Follows srv rdbLoadRio mstime snapshot data none multi := by
  have hnone : ∀ d, Selects none d := fun _ _ h => by cases h
  rcases h with ⟨cmds, rfl, hplain, hdata⟩ | ⟨hhead, hload⟩
  · obtain ⟨l, hl, hmulti, hcommands, hreplay⟩ :=
      @loadAll_plain V srv mstime cmds newLoader 0 hplain rfl
    refine ⟨[], newLoader, cmds, l, head_nil _, rfl, fun c hc => (hplain c hc).ok, hl, ?_, hnone _,
      fun _ => hcommands, fun _ => hmulti⟩
    have hnil : l.commands = [] := hcommands
    unfold pending
    rw [hnil, List.foldl_nil, hreplay]
    exact hdata mstime
  · refine ⟨snapshot, preambleLoader data, [], preambleLoader data, Or.inr ⟨hhead, data, rfl, hload⟩, ?_, ?_,
      rfl, rfl, hnone _, fun _ => rfl, fun _ => rfl⟩
    · simp
    · simp

/-- Both logs load as the data, if `P` holds. -/
structure Kept (srv : Server V) (rdbLoadRio : Bytes → Option (Dataset V × Bytes)) (P : Prop)
    (p : Parent V) : Prop where
  handshake : Handshake p
  old : P → p.aofState = .on → ∀ mstime,
    Follows srv rdbLoadRio mstime (oldLog p) p.aof.data p.aof.aofSelectedDb p.multi
  new : P → ∀ c, p.child = some c → ∀ mstime,
    Follows srv rdbLoadRio mstime (newLog c p) p.aof.data p.aof.aofSelectedDb p.multi

theorem Follows.deselect (h : Follows srv rdbLoadRio mstime log data selected multi) :
    Follows srv rdbLoadRio mstime log data none multi := by
  obtain ⟨head, l0, cmds, l, hhead, hlog, hok, hload, hdata, -, hrest⟩ := h
  exact ⟨head, l0, cmds, l, hhead, hlog, hok, hload, hdata, fun _ h => absurd h (by simp), hrest⟩

theorem fork_new (hp : Handshake p) (h : step srv p (.fork snapshot) = some p') :
    ∃ c, p'.child = some c ∧ newLog c p' = snapshot ∧ p'.aof.aofSelectedDb = none := by
  rw [step] at h
  split_ifs at h with hchild
  cases h
  have hnone : p.child = none := by simpa using hchild
  refine ⟨_, rfl, ?_, rfl⟩
  unfold newLog rewriteAppendOnlyFileBackground newPipes
  dsimp only
  rw [hp.idle hnone]
  simp

theorem kept_step (hp : Kept srv rdbLoadRio P p) (h : step srv p e = some p')
    (hok : EventOk srv rdbLoadRio p e) (hpunctual : P → EventPunctual e) : Kept srv rdbLoadRio P p' := by
  have hhandshake := handshake_step hp.handshake h hok
  cases hinner : e.inner with
  | true =>
    have hadvances := advances_step h hok hpunctual hinner
    refine ⟨hhandshake, ?_, ?_⟩
    · intro hP hon mstime
      rw [hadvances.state] at hon
      rw [hadvances.old hon]
      exact hadvances.follows hP (hp.old hP hon mstime)
    · intro hP c' hc' mstime
      cases hc : p.child with
      | none =>
        have hnone := hadvances.idle hc
        rw [hnone] at hc'
        cases hc'
      | some c =>
        obtain ⟨c1, hc1, -, hlog⟩ := hadvances.new c hc
        rw [hc'] at hc1
        cases hc1
        rw [hlog]
        exact hadvances.follows hP (hp.new hP c hc mstime)
  | false =>
    cases e with
    | fork snapshot =>
      obtain ⟨c, hc, hlog, -⟩ := fork_new hp.handshake h
      rw [step] at h
      split_ifs at h
      cases h
      refine ⟨hhandshake, fun hP hon mstime => (hp.old hP hon mstime).deselect, ?_⟩
      intro _ c' hc' mstime
      rw [hc] at hc'
      cases hc'
      rw [hlog]
      exact hok.follows mstime p.multi
    | doneHandler opened results renamed =>
      cases hinstalls : installs p (.doneHandler opened results renamed) with
      | true =>
        obtain ⟨c, hc, rfl⟩ := doneHandler_installs hp.handshake h hinstalls
        refine ⟨hhandshake, fun hP _ mstime => ?_, fun _ c' hc' => absurd hc' (by simp [cleanup])⟩
        have hlog := (hp.new hP c hc mstime).deselect
        unfold oldLog cleanup
        rw [append_nil]
        exact hlog
      | false =>
        rw [doneHandler_fails h hinstalls] at hhandshake ⊢
        exact ⟨hhandshake, hp.old, fun _ c' hc' => absurd hc' (by simp [cleanup])⟩
    | killChild =>
      rw [step] at h
      split_ifs at h
      cases h
      exact ⟨hhandshake, hp.old, fun _ c' hc' => absurd hc' (by simp [cleanup])⟩
    | _ => cases hinner

theorem kept_run (es : List Event) : ∀ {p p' : Parent V}, Kept srv rdbLoadRio P p →
    run srv es p = some p' → RunOk srv rdbLoadRio es p → (P → ∀ e ∈ es, EventPunctual e) →
    Kept srv rdbLoadRio P p' := by
  induction es with
  | nil =>
    intro p p' hp h _ _
    cases h
    exact hp
  | cons e es ih =>
    intro p p' hp h hok hpunctual
    rw [run] at h
    obtain ⟨p1, h1, h2⟩ := bind_eq_some_iff.mp h
    have hone := kept_step hp h1 hok.1 fun hP => hpunctual hP e List.mem_cons_self
    exact ih hone h2 (hok.2 p1 h1) fun hP x hx => hpunctual hP x (List.mem_cons_of_mem e hx)

theorem runOk_append (es es' : List Event) : ∀ {p p' : Parent V}, RunOk srv rdbLoadRio (es ++ es') p →
    run srv es p = some p' → RunOk srv rdbLoadRio es p ∧ RunOk srv rdbLoadRio es' p' := by
  induction es with
  | nil =>
    intro p p' hok h
    cases h
    exact ⟨trivial, hok⟩
  | cons e es ih =>
    intro p p' hok h
    rw [run] at h
    obtain ⟨p1, h1, h2⟩ := bind_eq_some_iff.mp h
    obtain ⟨hes, hes'⟩ := ih (hok.2 p1 h1) h2
    refine ⟨⟨hok.1, fun p2 h2 => ?_⟩, hes'⟩
    rw [h1] at h2
    cases h2
    exact hes

theorem fedAll_cons (h : step srv p e = some p') (es : List Event) :
    fedAll srv (e :: es) p = fed srv p e ++ fedAll srv es p' := by
  rw [fedAll, h]

theorem advances_run (es : List Event) : ∀ {p p' : Parent V}, run srv es p = some p' →
    RunOk srv rdbLoadRio es p → (P → ∀ e ∈ es, EventPunctual e) → (∀ e ∈ es, e.inner = true) →
    Advances srv P p p' (fedAll srv es p) := by
  induction es with
  | nil =>
    intro p p' h _ _ _
    cases h
    exact advances_quiet rfl rfl rfl rfl rfl (fun c hc => ⟨c, hc, rfl, rfl⟩) (fun hnone => hnone)
  | cons e es ih =>
    intro p p' h hok hpunctual hinner
    rw [run] at h
    obtain ⟨p1, h1, h2⟩ := bind_eq_some_iff.mp h
    have hone := advances_step h1 hok.1 (fun hP => hpunctual hP e List.mem_cons_self) (hinner e List.mem_cons_self)
    have hrest := ih h2 (hok.2 p1 h1) (fun hP x hx => hpunctual hP x (List.mem_cons_of_mem e hx))
      (fun x hx => hinner x (List.mem_cons_of_mem e hx))
    rw [fedAll_cons h1]
    refine ⟨hrest.state.trans hone.state, ?_, ?_, fun hnone => hrest.idle (hone.idle hnone), ?_, ?_⟩
    · intro hon
      rw [hrest.old (hone.state.trans hon), hone.old hon, append_assoc]
    · intro c hc
      obtain ⟨c1, hc1, hsnapshot1, hlog1⟩ := hone.new c hc
      obtain ⟨c2, hc2, hsnapshot2, hlog2⟩ := hrest.new c1 hc1
      exact ⟨c2, hc2, hsnapshot2.trans hsnapshot1, by rw [hlog2, hlog1, append_assoc]⟩
    · intro hP rdbLoadRio mstime log hlog
      rw [← append_assoc]
      exact hrest.follows hP (hone.follows hP hlog)
    · intro hnone
      rcases hone.first hnone with ⟨hnil, hnone1⟩ | ⟨d, hd⟩
      · rw [hnil, nil_append]
        exact hrest.first hnone1
      · exact Or.inr ⟨d, hd.trans (List.prefix_append ..)⟩

theorem Advances.select_first (h : Advances srv P p p' bytes) (hnone : p.aof.aofSelectedDb = none) :
    bytes = [] ∨ ∃ d, encodeCommand (selectArgv d) <+: bytes := by
  rcases h.first hnone with ⟨hnil, -⟩ | hselect
  · exact Or.inl hnil
  · exact Or.inr hselect

def noInstall (srv : Server V) : List Event → Parent V → Prop
  | [], _ => True
  | e :: es, p => installs p e = false ∧ ∀ p', step srv p e = some p' → noInstall srv es p'

theorem old_step (h : step srv p e = some p')
    (hok : EventOk srv rdbLoadRio p e) (hnot : installs p e = false) :
    p'.aofState = p.aofState ∧ (p.aofState = .on → oldLog p' = oldLog p ++ fed srv p e) := by
  cases hinner : e.inner with
  | true =>
    have hadvances := advances_step (P := False) h hok False.elim hinner
    exact ⟨hadvances.state, hadvances.old⟩
  | false =>
    cases e with
    | fork snapshot =>
      rw [step] at h
      split_ifs at h
      cases h
      exact ⟨rfl, fun _ => (append_nil _).symm⟩
    | doneHandler opened results renamed =>
      rw [doneHandler_fails h hnot]
      exact ⟨rfl, fun _ => (append_nil _).symm⟩
    | killChild =>
      rw [step] at h
      split_ifs at h
      cases h
      exact ⟨rfl, fun _ => (append_nil _).symm⟩
    | _ => cases hinner

theorem old_run (es : List Event) : ∀ {p p' : Parent V}, run srv es p = some p' →
    RunOk srv rdbLoadRio es p → noInstall srv es p → p.aofState = .on →
    oldLog p' = oldLog p ++ fedAll srv es p := by
  induction es with
  | nil =>
    intro p p' h _ _ _
    cases h
    exact (append_nil _).symm
  | cons e es ih =>
    intro p p' h hok hnot hon
    rw [run] at h
    obtain ⟨p1, h1, h2⟩ := bind_eq_some_iff.mp h
    obtain ⟨hstate, hold⟩ := old_step h1 hok.1 hnot.1
    rw [ih h2 (hok.2 p1 h1) (hnot.2 p1 h1) (hstate.trans hon), hold hon, fedAll_cons h1,
      append_assoc]

theorem Follows.loads (h : Follows srv rdbLoadRio mstime log data selected false) :
    loadRewritten srv rdbLoadRio mstime log = .ok (data, log) := by
  obtain ⟨head, l0, cmds, l, hhead, rfl, hok, hload, hdata, -, hqueue, hmulti⟩ := h
  have hm := hmulti rfl
  have hldata : l.data = data := by
    unfold pending at hdata
    rw [hqueue hm] at hdata
    exact hdata
  have htail : Tail [] := Or.inl rfl
  unfold loadRewritten
  rcases hhead with ⟨rfl, rfl⟩ | ⟨hredis, data0, rfl, hrdb⟩
  · have hnot : (encodeAll cmds).take 5 ≠ text "REDIS" := by
      by_cases hnil : encodeAll cmds = []
      · rw [hnil]
        decide
      · have hhead := @file_head cmds [] htail
        rw [append_nil] at hhead
        exact not_preamble (hhead hnil)
    have hspec := loadAppendOnlyFile_spec htail hok hload
    rw [append_nil, hm, if_neg (by simp), if_neg Bool.false_ne_true, hldata] at hspec
    rw [nil_append, if_neg hnot, hspec]
  · have hlen : 5 ≤ head.length := by
      have h5 := congrArg List.length hredis
      rw [List.length_take, text_length] at h5
      have hfive : "REDIS".toList.length = 5 := by decide
      omega
    have htake : (head ++ encodeAll cmds).take 5 = text "REDIS" := by
      rw [List.take_append_of_le_length hlen, hredis]
    have hloop := @loadLoop_spec V srv mstime (head ++ encodeAll cmds).length [] htail cmds
      ((encodeAll cmds).length+1) (preambleLoader data0) l head.length hok
      (Nat.lt_succ_of_le (length_le_encodeAll cmds))
      (by rw [List.length_append, List.length_nil, Nat.add_zero]) hload
    rw [append_nil] at hloop
    rw [if_pos htake, hrdb]
    dsimp only
    rw [hloop]
    simp only [ne_eq, not_true_eq_false, decide_false, Bool.false_eq_true, if_false, hm, hldata]

/-- No rewrite is running, and the file rebuilds the data, as after a restart. -/
structure Ready (srv : Server V) (rdbLoadRio : Bytes → Option (Dataset V × Bytes)) (p : Parent V) : Prop
    where
  child : p.child = none
  blocks : p.aofRewriteBufBlocks = []
  multi : p.multi = false
  selected : p.aof.aofSelectedDb = none
  buf : p.aof.aofBuf = []
  file : p.aofState = .on → Rebuilds srv rdbLoadRio p.file p.aof.data

theorem Ready.kept (h : Ready srv rdbLoadRio p) : Kept srv rdbLoadRio P p := by
  refine ⟨⟨fun _ => h.blocks, fun _ => h.buf, ?_, ?_⟩, ?_, ?_⟩
  · intro c hc
    rw [h.child] at hc
    cases hc
  · intro c hc
    rw [h.child] at hc
    cases hc
  · intro _ hon mstime
    unfold oldLog
    rw [h.buf, append_nil, h.selected]
    exact (h.file hon).follows mstime p.multi
  · intro _ c hc
    rw [h.child] at hc
    cases hc

theorem kept_loads (h : Kept srv rdbLoadRio P p) (hP : P) (hon : p.aofState = .on)
    (hmulti : p.multi = false) (mstime : ℤ) :
    loadRewritten srv rdbLoadRio mstime (oldLog p) = .ok (p.aof.data, oldLog p) := by
  have hlog := h.old hP hon mstime
  rw [hmulti] at hlog
  exact hlog.loads

def sampleParent : Parent Bytes :=
  { aof := start
    multi := false
    aofState := .on
    file := []
    aofRewriteBufBlocks := []
    aofStopSendingDiff := false
    child := none
    pipes := newPipes }

def sampleSet : Item :=
  { db := 0
    proc := .set
    argv := [text "SET", text "k", text "v"]
    now := 0
    fedAt := 0 }

/-- There is no RDB file to be read. -/
def noRdb : Bytes → Option (Dataset Bytes × Bytes) := fun _ => none

def sampleDuring : List Event :=
  [.item sampleSet, .writeDiff [10], .childRead 4, .childAsk, .pipeReadable true, .childAck, .childRead 65536,
    .childFinish]

theorem sampleDuring_ok : RunOk sampleServer noRdb
    ([] ++ .fork [] :: (sampleDuring ++ .doneHandler true [40] true :: [])) sampleParent := by
  have hempty : Rebuilds sampleServer noRdb [] sampleParent.aof.data :=
    Or.inl ⟨[], rfl, by simp, fun _ => rfl⟩
  have hset : ItemOk sampleServer sampleSet :=
    ⟨by decide, ⟨by simp [sampleSet], by simp [sampleSet], by decide⟩, lookup_set _, by decide⟩
  refine ⟨hempty, fun p2 _ => ⟨hset, fun p _ => ?_⟩⟩
  simp [RunOk, EventOk]

def lateSetex : Item :=
  { db := 0
    proc := .setex
    argv := [text "SETEX", text "k", text "10", text "v"]
    now := 5
    fedAt := 6 }

def lateDuring : List Event := .item lateSetex :: sampleDuring.tail

theorem lateSetex_ok : ItemOk sampleServer lateSetex :=
  ⟨by decide, ⟨by simp [lateSetex], by simp [lateSetex], by decide⟩,
    lookup_own ("setex", .setex) (by decide) _, by decide⟩

end RedisCore.Aof
