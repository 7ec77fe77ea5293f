import RedisCore.RequestChunks

namespace RedisCore.Request

open StateTransition StreamMachine

variable {cfg : Config} {master : Bool} {s s0 s' : Server} {p q : Parser} {stream chunk : Bytes}
  {done : List (List Bytes × ℕ)}

def applyCommand (st : Bool × ℕ) (command : List Bytes × ℕ) : Bool × ℕ :=
  (multiAfter st.1 command.1, if multiAfter st.1 command.1 then st.2 else command.2)

/-- The end of the last command that is not inside an open MULTI. -/
def appliedTo (done : List (List Bytes × ℕ)) : Bool × ℕ := done.foldl applyCommand (false, 0)

theorem appliedTo_append (done : List (List Bytes × ℕ)) (command : List Bytes × ℕ) :
    appliedTo (done ++ [command]) = applyCommand (appliedTo done) command := by
  unfold appliedTo
  rw [List.foldl_append]
  rfl

structure Counts (p q : Parser) : Prop where
  total : q.taken + q.input.length = p.taken + p.input.length
  taken : p.taken ≤ q.taken
  executed : ∃ more, q.executed = p.executed ++ more ∧ ∀ d ∈ more, d.2 ≤ q.taken

theorem Counts.of_executed (htotal : q.taken + q.input.length = p.taken + p.input.length)
    (htaken : p.taken ≤ q.taken) (h : q.executed = p.executed) : Counts p q :=
  ⟨htotal, htaken, [], h.trans (List.append_nil _).symm, List.forall_mem_nil _⟩

theorem Counts.init (h : Counts p q) : p.executed <+: q.executed := by
  obtain ⟨more, hmore, -⟩ := h.executed
  rw [hmore]
  exact List.prefix_append _ _

theorem Counts.trans {r : Parser} (hpq : Counts p q) (hqr : Counts q r) : Counts p r := by
  obtain ⟨more, hmore, hends⟩ := hpq.executed
  obtain ⟨more', hmore', hends'⟩ := hqr.executed
  refine ⟨hqr.total.trans hpq.total, hpq.taken.trans hqr.taken, more ++ more', ?_, fun d hd => ?_⟩
  · rw [hmore', hmore, List.append_assoc]
  · rcases List.mem_append.mp hd with hd | hd
    · exact (hends d hd).trans hqr.taken
    · exact hends' d hd

theorem take_total {n : ℕ} (hn : n ≤ p.input.length) :
    (p.take n).taken + (p.take n).input.length = p.taken + p.input.length := by
  rw [take_input_length]
  show p.taken + n + _ = _
  omega

theorem step_counts (h : p.step cfg master = some q) : Counts p q := by
  unfold Parser.step at h
  by_cases hclosed : p.closed = true
  · rw [if_pos hclosed] at h
    cases h
  by_cases hready : p.ready = true
  · rw [if_neg hclosed, if_pos hready] at h
    rw [← Option.some.inj h]
    unfold Parser.finish
    split_ifs
    · exact Counts.of_executed rfl (le_refl _) rfl
    · exact Counts.of_executed rfl (le_refl _) rfl
    · exact Counts.of_executed rfl (le_refl _) rfl
    · refine ⟨rfl, le_refl _, [(p.argv, p.taken)], rfl, fun d hd => ?_⟩
      rw [List.mem_singleton.mp hd]
      exact le_refl _
  rw [if_neg hclosed, if_neg hready] at h
  cases hreq : p.reqtype with
  | none =>
    rw [hreq] at h
    obtain ⟨b, -, rfl⟩ := Option.map_eq_some_iff.mp h
    exact Counts.of_executed rfl (le_refl _) rfl
  | some t =>
    rw [hreq] at h
    cases t with
    | inline =>
      obtain ⟨newline, hn, rfl⟩ := Option.map_eq_some_iff.mp h
      unfold Parser.inlineLine
      split
      · exact Counts.of_executed rfl (le_refl _) rfl
      · split_ifs
        · exact Counts.of_executed rfl (le_refl _) rfl
        · exact Counts.of_executed (take_total (strchr_lt hn)) (Nat.le_add_right _ _) rfl
    | multibulk =>
      dsimp only at h
      by_cases hm : p.multibulklen = 0
      · rw [if_pos hm] at h
        obtain ⟨newline, hn, rfl⟩ := Option.map_eq_some_iff.mp h
        unfold Parser.multibulkLine
        split
        · exact Counts.of_executed rfl (le_refl _) rfl
        · split_ifs
          · exact Counts.of_executed rfl (le_refl _) rfl
          · exact Counts.of_executed (take_total (lineEnd_some.1 hn).2) (Nat.le_add_right _ _) rfl
          · exact Counts.of_executed (take_total (lineEnd_some.1 hn).2) (Nat.le_add_right _ _) rfl
      · rw [if_neg hm] at h
        cases hb : p.bulklen with
        | none =>
          rw [hb] at h
          obtain ⟨newline, hn, rfl⟩ := Option.map_eq_some_iff.mp h
          unfold Parser.bulkLine
          split_ifs
          · exact Counts.of_executed rfl (le_refl _) rfl
          · split
            · exact Counts.of_executed rfl (le_refl _) rfl
            · split_ifs
              · exact Counts.of_executed rfl (le_refl _) rfl
              · exact Counts.of_executed (take_total (lineEnd_some.1 hn).2) (Nat.le_add_right _ _) rfl
        | some len =>
          rw [hb] at h
          dsimp only at h
          split_ifs at h with hlen
          rw [← Option.some.inj h]
          exact Counts.of_executed (take_total hlen.2) (Nat.le_add_right _ _) rfl

theorem reaches_counts (h : Reaches (Parser.step cfg master) p q) : Counts p q := by
  apply reaches_induction _ _ h
  · exact Counts.of_executed rfl (le_refl _) rfl
  · intro a b ha hab
    exact ha.trans (step_counts hab)

theorem Parsed.executed {c : Client} {r : Client × Bool} (h : Matches c p) (hq : Parsed cfg c p r q) :
    q.executed = p.executed := by
  have hinit := (reaches_counts hq.run).init
  have hlen : q.executed.length = p.executed.length := by
    rw [← List.length_map (f := Prod.fst), hq.same.executed, hq.outer.executed, ← h.executed,
      List.length_map]
  exact (hinit.eq_of_length hlen.symm).symm

structure Proxied (stream : Bytes) (s0 s : Server) (p : Parser) : Prop where
  master : s.client.master = true
  read : s.client.readReploff = s0.client.reploff + stream.length
  total : p.taken + p.input.length = stream.length
  multi : s.client.multi = (appliedTo p.executed).1
  reploff : s.client.reploff = s0.client.reploff + (appliedTo p.executed).2
  applied : (appliedTo p.executed).2 ≤ p.taken
  pending : s.client.pendingQuerybuf = stream.drop (appliedTo p.executed).2
  backlog : s.backlog = s0.backlog.map (· ++ stream.take (appliedTo p.executed).2)
  slaves : s.slaves = s0.slaves.map (feedReplica (stream.take (appliedTo p.executed).2))

theorem feedReplica_append (a b : Bytes) (slave : Replica) :
    feedReplica b (feedReplica a slave) = feedReplica (a ++ b) slave := by
  unfold feedReplica
  cases hwait : slave.waitBgsaveStart with
  | true => rw [if_pos rfl, if_pos rfl, if_pos hwait]
  | false =>
    rw [if_neg Bool.false_ne_true, if_neg Bool.false_ne_true, List.append_assoc]
    rfl

theorem Proxied.parse {r : Client × Bool} (h : Matches s.client p) (hp : Proxied stream s0 s p)
    (hq : Parsed cfg s.client p r q) : Proxied stream s0 { s with client := r.1 } q := by
  have hexec := hq.executed h
  have hcounts := reaches_counts hq.run
  refine ⟨hq.outer.master.trans hp.master, hq.outer.readReploff.trans hp.read, hcounts.total.trans hp.total,
    ?_, ?_, ?_, ?_, ?_, ?_⟩
  · rw [hexec]
    exact hq.outer.multi.trans hp.multi
  · rw [hexec]
    exact hq.outer.reploff.trans hp.reploff
  · rw [hexec]
    exact hp.applied.trans hcounts.taken
  · rw [hexec]
    exact hq.outer.pendingQuerybuf.trans hp.pending
  · rw [hexec]
    exact hp.backlog
  · rw [hexec]
    exact hp.slaves

theorem commandProcessed_inMulti (h : s.client.multi = true) :
    commandProcessed s = { s with client := resetClient s.client } := by
  unfold commandProcessed
  have hnot : ¬ (s.client.master = true ∧ s.client.multi = false) := by
    rintro ⟨-, hm⟩
    rw [h] at hm
    cases hm
  dsimp only
  rw [if_neg hnot, if_neg]
  rintro ⟨-, happlied⟩
  exact happlied (sub_self _)

theorem commandProcessed_applies (hmaster : s.client.master = true) (hmulti : s.client.multi = false) {k : ℕ}
    (hk : s.client.readReploff - s.client.querybuf.length + s.client.qbPos = s.client.reploff + k) :
    commandProcessed s =
      { backlog := s.backlog.map (· ++ s.client.pendingQuerybuf.take k)
        slaves := s.slaves.map (feedReplica (s.client.pendingQuerybuf.take k))
        client := { resetClient s.client with
          pendingQuerybuf := s.client.pendingQuerybuf.drop k
          reploff := s.client.reploff + k } } := by
  unfold commandProcessed
  dsimp only
  rw [if_pos (show s.client.master = true ∧ s.client.multi = false from ⟨hmaster, hmulti⟩), hk]
  unfold resetClient
  dsimp only
  have hdiff : s.client.reploff + (k : ℤ) - s.client.reploff = k := by omega
  rw [hdiff]
  cases k with
  | zero =>
    -- nothing is fed
    have hslaves : ∀ slave, feedReplica [] slave = slave := by
      intro slave
      unfold feedReplica
      rw [List.append_nil, ite_self]
    have hbacklog : s.backlog.map (· ++ ([] : Bytes)) = s.backlog := by
      simp
    rw [if_neg (fun hc => hc.2 rfl), List.take_zero, List.drop_zero, hbacklog, List.map_congr_left
      (fun slave _ => hslaves slave), List.map_id']
  | succ k =>
    rw [if_pos ⟨hmaster, by omega⟩, Int.toNat_natCast]
    rfl

theorem Proxied.command (h : Matches s.client p) (hp : Proxied stream s0 s p) (hquit : isQuit p.argv = false)
    (closed : Bool) : Proxied stream s0 (processCommandAndResetClient cfg s)
      { p.reset with
        executed := p.executed ++ [(p.argv, p.taken)]
        closed := closed } := by
  have happend := appliedTo_append p.executed (p.argv, p.taken)
  have htotal := hp.total
  have happlied := hp.applied
  have hreploff := hp.reploff
  have hread := hp.read
  have hmulti : multiAfter s.client.multi s.client.argv = multiAfter (appliedTo p.executed).1 p.argv := by
    rw [hp.multi, h.argv]
  unfold applyCommand at happend
  dsimp only at happend
  rw [← hmulti] at happend
  rw [h.argv] at hquit
  unfold processCommandAndResetClient processCommand
  rw [hquit, if_neg Bool.false_ne_true]
  dsimp only
  rw [if_pos rfl]
  cases hm : multiAfter s.client.multi s.client.argv with
  | true =>
    rw [hm, if_pos rfl] at happend
    rw [commandProcessed_inMulti rfl]
    refine ⟨hp.master, hread, htotal, ?_, ?_, ?_, ?_, ?_, ?_⟩
    · rw [happend]
      rfl
    · rw [happend]
      exact hreploff
    · rw [happend]
      exact happlied
    · rw [happend]
      exact hp.pending
    · rw [happend]
      exact hp.backlog
    · rw [happend]
      exact hp.slaves
  | false =>
    rw [hm, if_neg Bool.false_ne_true] at happend
    -- the position of the parser is what is read less what is in the buffer
    have hunread : p.input.length = s.client.querybuf.length - s.client.qbPos := by
      rw [h.input]
      exact List.length_drop
    have hpos := h.pos
    have hk : s.client.readReploff - s.client.querybuf.length + s.client.qbPos =
        s.client.reploff + (p.taken - (appliedTo p.executed).2 : ℕ) := by omega
    have hsplit : stream.take (appliedTo p.executed).2 ++
        (stream.drop (appliedTo p.executed).2).take (p.taken - (appliedTo p.executed).2) =
          stream.take p.taken := by
      rw [← List.take_add, Nat.add_sub_cancel' happlied]
    rw [commandProcessed_applies (k := p.taken - (appliedTo p.executed).2)]
    rotate_left
    · exact hp.master
    · rfl
    · exact hk
    refine ⟨hp.master, hread, htotal, ?_, ?_, ?_, ?_, ?_, ?_⟩
    · rw [happend]
      rfl
    · rw [happend]
      show s.client.reploff + _ = _
      omega
    · rw [happend]
      exact le_refl _
    · rw [happend]
      show s.client.pendingQuerybuf.drop _ = _
      rw [hp.pending, List.drop_drop, Nat.add_sub_cancel' happlied]
    · rw [happend]
      show s.backlog.map (· ++ s.client.pendingQuerybuf.take _) = _
      rw [hp.backlog, hp.pending, Option.map_map]
      congr 1
      funext x
      show x ++ _ ++ _ = _
      rw [List.append_assoc, hsplit]
    · rw [happend]
      show s.slaves.map (feedReplica (s.client.pendingQuerybuf.take _)) = _
      rw [hp.slaves, hp.pending, List.map_map]
      congr 1
      funext x
      show feedReplica _ (feedReplica _ x) = _
      rw [feedReplica_append, hsplit]

theorem Proxied.ready (h : Matches s.client p) (hp : Proxied stream s0 s p) :
    Proxied stream s0 (requestReady cfg s) (p.finish cfg) := by
  unfold requestReady Parser.finish gopherRequest
  rw [h.reqtype, h.argv]
  split_ifs with _ _ hquit
  · exact ⟨hp.master, hp.read, hp.total, hp.multi, hp.reploff, hp.applied, hp.pending, hp.backlog, hp.slaves⟩
  · exact ⟨hp.master, hp.read, hp.total, hp.multi, hp.reploff, hp.applied, hp.pending, hp.backlog, hp.slaves⟩
  · unfold processCommandAndResetClient processCommand
    rw [if_pos hquit]
    dsimp only
    rw [if_neg Bool.false_ne_true]
    exact ⟨hp.master, hp.read, hp.total, hp.multi, hp.reploff, hp.applied, hp.pending, hp.backlog, hp.slaves⟩
  · rw [← h.argv] at hquit ⊢
    exact hp.command h (Bool.eq_false_of_not_eq_true hquit) _

theorem proxied_kept (cfg : Config) (stream : Bytes) (s0 : Server) : Kept cfg (Proxied stream s0) :=
  ⟨fun _ _ _ _ h hp hq => hp.parse h hq, fun _ _ h hp => hp.ready h⟩

theorem Proxied.append (hp : Proxied stream s0 s p) (chunk : Bytes) :
    Proxied (stream ++ chunk) s0 { s with client := appendQuerybuf s.client chunk } (p.feed chunk) := by
  have hle : (appliedTo p.executed).2 ≤ stream.length := by
    have := hp.total
    have := hp.applied
    omega
  have htake : (stream ++ chunk).take (appliedTo p.executed).2 = stream.take (appliedTo p.executed).2 :=
    List.take_append_of_le_length hle
  have hread := hp.read
  have htotal := hp.total
  unfold appendQuerybuf
  rw [if_pos hp.master]
  refine ⟨hp.master, ?_, ?_, hp.multi, hp.reploff, hp.applied, ?_, ?_, ?_⟩
  · show s.client.readReploff + chunk.length = _
    rw [hread, List.length_append]
    omega
  · show p.taken + (p.input ++ chunk).length = _
    rw [List.length_append, List.length_append]
    omega
  · show s.client.pendingQuerybuf ++ chunk = (stream ++ chunk).drop (appliedTo p.executed).2
    rw [hp.pending, List.drop_append_of_le_length hle]
  · show s.backlog = s0.backlog.map (· ++ (stream ++ chunk).take (appliedTo p.executed).2)
    rw [htake]
    exact hp.backlog
  · show s.slaves = s0.slaves.map (feedReplica ((stream ++ chunk).take (appliedTo p.executed).2))
    rw [htake]
    exact hp.slaves

/-- The moments at which the server is looked at: between reads, and after any number of requests of a
read. -/
inductive Moment (cfg : Config) (s0 : Server) : Bytes → Server → Prop where
  | between {stream : Bytes} {s : Server} (h : Reads cfg s0 stream s) : Moment cfg s0 stream s
  | within {stream : Bytes} {s : Server} (h : Reads cfg s0 stream s) (chunk : Bytes) (hne : chunk ≠ [])
      (hlen : chunk.length ≤ readLen s.client)
      (hroom : (appendQuerybuf s.client chunk).querybuf.length ≤ cfg.clientMaxQuerybufLen) (n : ℕ) :
      Moment cfg s0 (stream ++ chunk)
        (processRequests cfg n { s with client := appendQuerybuf s.client chunk })

structure Streaming (cfg : Config) (p0 : Parser) (stream : Bytes) (s0 s : Server) (p : Parser) : Prop where
  run : Reaches (Parser.step cfg true) (p0.feed stream) p
  same : Matches s.client p
  ready : p.ready = false
  room : s.client.closeAsap = false → p.input.length ≤ cfg.clientMaxQuerybufLen
  proxied : Proxied stream s0 s p

theorem Streaming.requests {p0 : Parser} (h : Streaming cfg p0 stream s0 s p) (chunk : Bytes)
    (hroom : (appendQuerybuf s.client chunk).querybuf.length ≤ cfg.clientMaxQuerybufLen)
    (hshort : ShortLines cfg true (p0.feed (stream ++ chunk))) (n : ℕ) :
    ∃ q, Streaming cfg p0 (stream ++ chunk) s0
        (processRequests cfg n { s with client := appendQuerybuf s.client chunk }) q ∧
      ((appendQuerybuf s.client chunk).closeAsap = false → (appendQuerybuf s.client chunk).unread.length ≤ n →
        q.step cfg true = none) := by
  have hrun := (parser_fed cfg true).reaches_append h.run chunk
  have happend := appendQuerybuf_matches h.same chunk
  have hproxied := h.proxied.append chunk
  have hmaster : (appendQuerybuf s.client chunk).master = true := hproxied.master
  have hlen : (p.feed chunk).input.length ≤ cfg.clientMaxQuerybufLen := by
    rw [happend.input]
    unfold Client.unread
    rw [List.length_drop]
    omega
  cases hclosing : (appendQuerybuf s.client chunk).closeAsap with
  | true =>
    rw [processRequests_closing n hclosing]
    exact ⟨p.feed chunk, ⟨hrun, happend, h.ready, fun _ => hlen, hproxied⟩, fun hopen => by cases hopen⟩
  | false =>
    obtain ⟨q, hq, hproxied', hstop⟩ := requests_parsed (proxied_kept cfg (stream ++ chunk) s0) n
      { s with client := appendQuerybuf s.client chunk } (p.feed chunk) happend h.ready
      (by rw [hmaster]; exact hshort.reaches hrun) hlen
      (fun hc => absurd (hclosing.symm.trans hc) Bool.false_ne_true) hproxied
    have hnext := hq.run
    dsimp only at hnext hstop
    rw [hmaster] at hnext hstop
    have hcounts := reaches_counts hnext
    have htotal := hcounts.total
    have htaken := hcounts.taken
    exact ⟨q, ⟨hrun.trans hnext, hq.same, hq.ready, fun _ => by omega, hproxied'⟩,
      fun _ hn => hstop (by rw [happend.input]; exact hn)⟩

theorem processRequests_opens (fuel : ℕ) (h : (processRequests cfg fuel s).client.closeAsap = false) :
    s.client.closeAsap = false := by
  cases hclosing : s.client.closeAsap with
  | false => rfl
  | true =>
    rw [processRequests_closing fuel hclosing, hclosing] at h
    cases h

theorem Reads.streaming {p0 : Parser} (h0 : Streaming cfg p0 [] s0 s0 p0) (hstop0 : p0.step cfg true = none)
    (h : Reads cfg s0 stream s) : ShortLines cfg true (p0.feed stream) →
    ∃ p, Streaming cfg p0 stream s0 s p ∧ (s.client.closeAsap = false → p.step cfg true = none) := by
  induction h with
  | start => exact fun _ => ⟨p0, h0, fun _ => hstop0⟩
  | read hreads chunk _ _ ih =>
    intro hshort
    have hinit := hshort
    rw [← (parser_fed cfg true).append] at hinit
    obtain ⟨p, hp, -⟩ := ih hinit.of_feed
    unfold readQueryFromClient
    dsimp only
    split_ifs with hfull
    · have hrun := (parser_fed cfg true).reaches_append hp.run chunk
      have happend := appendQuerybuf_matches hp.same chunk
      have hproxied := hp.proxied.append chunk
      refine ⟨p.feed chunk, ⟨hrun, ⟨happend.input, happend.pos, happend.reqtype, happend.multibulklen,
        happend.bulklen, happend.argv, happend.error, happend.closed.asap, happend.executed⟩, hp.ready,
        fun hopen => ?_, ⟨hproxied.master, hproxied.read, hproxied.total, hproxied.multi, hproxied.reploff,
          hproxied.applied, hproxied.pending, hproxied.backlog, hproxied.slaves⟩⟩, fun hopen => ?_⟩
      · cases hopen
      · cases hopen
    · obtain ⟨q, hq, hstop⟩ := hp.requests chunk (not_lt.mp hfull) hshort _
      have hproxied := hq.proxied
      exact ⟨q, ⟨hq.run, trim_matches hq.same, hq.ready, hq.room,
        ⟨hproxied.master, hproxied.read, hproxied.total, hproxied.multi, hproxied.reploff, hproxied.applied,
          hproxied.pending, hproxied.backlog, hproxied.slaves⟩⟩,
        fun hopen => hstop (processRequests_opens _ hopen) (le_refl _)⟩

theorem newServer_streaming (cfg : Config) (backlog : Option Bytes) (slaves : List Replica) (offset : ℤ) :
    Streaming cfg (between [] 0 []) [] (newServer backlog slaves true offset)
      (newServer backlog slaves true offset) (between [] 0 []) := by
  have hslaves : ∀ slave, feedReplica [] slave = slave := by
    intro slave
    unfold feedReplica
    rw [List.append_nil, ite_self]
  have hwait := newServer_waiting cfg backlog slaves true offset
  refine ⟨Relation.ReflTransGen.refl, hwait.same, rfl, fun _ => Nat.zero_le _,
    ⟨rfl, ?_, rfl, rfl, ?_, le_refl _, rfl, ?_, ?_⟩⟩
  · exact (add_zero offset).symm
  · exact (add_zero offset).symm
  · show backlog = backlog.map (· ++ ([] : Bytes))
    simp
  · show slaves = slaves.map (feedReplica [])
    rw [List.map_congr_left (fun slave _ => hslaves slave), List.map_id']

variable {items : List Item} {d : List Bytes × ℕ}

theorem completed_after (items : List Item) : ∀ t, ∀ d ∈ completed t items, t ≤ d.2 := by
  induction items with
  | nil => exact fun t d hd => absurd hd List.not_mem_nil
  | cons item items ih =>
    intro t d hd
    cases item with
    | newline => exact (Nat.le_add_right t 1).trans (ih _ d hd)
    | command argv =>
      rcases List.mem_cons.mp hd with rfl | hd
      · exact Nat.le_add_right _ _
      · exact (Nat.le_add_right t _).trans (ih _ d hd)

/-- The items that end in what was read. -/
theorem completed_read (items : List Item) : ∀ (t : ℕ) (stream rest : Bytes), stream ++ rest = encodeItems items →
    ∃ ended others tail, items = ended ++ others ∧ stream = encodeItems ended ++ tail ∧
      ∀ d ∈ completed t items, d.2 ≤ t + stream.length → d ∈ completed t ended := by
  induction items with
  | nil => exact fun t stream rest _ => ⟨[], [], stream, rfl, rfl, fun d hd _ => hd⟩
  | cons item items ih =>
    intro t stream rest hstream
    by_cases hlen : item.encode.length ≤ stream.length
    · -- the first item was read
      obtain ⟨read, rfl⟩ : ∃ read, stream = item.encode ++ read := by
        have hprefix : item.encode <+: stream ++ rest := by
          rw [hstream]
          exact List.prefix_append _ _
        obtain ⟨read, hread⟩ := List.prefix_of_prefix_length_le hprefix (List.prefix_append stream rest) hlen
        exact ⟨read, hread.symm⟩
      have hrest : read ++ rest = encodeItems items := by
        rw [List.append_assoc] at hstream
        exact List.append_cancel_left hstream
      obtain ⟨ended, others, tail, rfl, rfl, hended⟩ := ih (t + item.encode.length) read rest hrest
      refine ⟨item :: ended, others, tail, rfl, (List.append_assoc _ _ _).symm, fun d hd hle => ?_⟩
      rw [List.length_append, ← Nat.add_assoc] at hle
      cases item with
      | newline => exact hended d hd hle
      | command argv =>
        rcases List.mem_cons.mp hd with rfl | hd
        · exact List.mem_cons_self
        · exact List.mem_cons_of_mem _ (hended d hd hle)
    · refine ⟨[], item :: items, stream, rfl, rfl, fun d hd hle => ?_⟩
      have hlate : t + item.encode.length ≤ d.2 := by
        cases item with
        | newline => exact completed_after items _ d hd
        | command argv =>
          rcases List.mem_cons.mp hd with rfl | hd
          · exact le_refl _
          · exact completed_after items _ d hd
      omega

/-- What was read completely was executed, unless the client was closed or blocked. -/
theorem Streaming.complete (hitems : ∀ item ∈ items, item.WellFormed cfg true) {rest : Bytes}
    (hstream : stream ++ rest = encodeItems items) (h : Streaming cfg (between [] 0 []) stream s0 s p)
    (hstop : p.step cfg true = none) (hopen : ¬s.client.halted) (hd : d ∈ completed 0 items)
    (hread : d.2 ≤ stream.length) : d ∈ p.executed := by
  obtain ⟨ended, others, tail, rfl, rfl, hended⟩ := completed_read items 0 stream rest hstream
  obtain ⟨q, hrun, hqstop, -, -, hall, -⟩ := (items_goes cfg true False ended 0 []
    (fun item hitem => hitems item (List.mem_append_left _ hitem)) False.elim False.elim).stops
  have hreach : Reaches (Parser.step cfg true) (q.feed tail) p :=
    reaches_stop h.run hstop ((parser_fed cfg true).reaches hrun tail)
  rcases hall with ⟨hstuck, hbig⟩ | hall
  · -- the client does not go on, which its flags tell
    have hready : q.closed = false → q.ready = false := by
      intro hclosed
      refine Bool.eq_false_of_not_eq_true fun hready => ?_
      rw [step_ready hclosed hready] at hqstop
      cases hqstop
    have hnext : (q.feed tail).step cfg true = none := by
      by_cases hclosed : q.closed = true
      · exact step_closed hclosed
      · exact Stuck.step (show Stuck cfg (q.feed tail) from hstuck)
          (hready (Bool.eq_false_of_not_eq_true hclosed))
    obtain rfl : q.feed tail = p := stops_unique Relation.ReflTransGen.refl hnext hreach hstop
    by_cases hclosed : q.closed = true
    · exact absurd (h.same.closed.2 hclosed) hopen
    · have hroom := h.room (Bool.eq_false_of_not_eq_true fun hc => hopen (Or.inr (Or.inr hc)))
      rw [feed_input, List.length_append] at hroom
      have := hbig (Bool.eq_false_of_not_eq_true hclosed)
      omega
  · apply (reaches_counts hreach).init.subset
    show d ∈ q.executed
    rw [hall]
    exact hended d hd (by rw [Nat.zero_add]; exact hread)

def transaction : List Item :=
  [.newline, .command [text "MULTI"], .command [text "SET", text "k", text "\r\n"], .command [text "EXEC"],
    .command [ping]]

def transactionStart : Bytes :=
  text "\n*1\r\n$5\r\nMULTI\r\n*3\r\n$3\r\nSET\r\n$1\r\nk\r\n$2\r\n\r"

def transactionRest : Bytes := text "\n\r\n*1\r\n$4\r\nEXEC\r\n*1\r\n$4\r\nPI"

/-- The second replica is not attached yet. -/
def attached : List Replica :=
  [{ waitBgsaveStart := false, output := text "+" }, { waitBgsaveStart := true, output := [] }]

def inTransaction : Server :=
  readQueryFromClient defaultConfig (newServer (some (text "old")) attached true 100) transactionStart

end RedisCore.Request
