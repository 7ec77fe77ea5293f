import RedisCore.RequestParsing

namespace RedisCore.Request

open StateTransition StreamMachine

variable {cfg : Config} {master : Bool} {c c' : Client} {s s' : Server} {p q : Parser} {stream : Bytes}

theorem step_ready (hclosed : p.closed = false) (hready : p.ready = true) :
    p.step cfg master = some (p.finish cfg) := by
  unfold Parser.step
  rw [hclosed, hready]
  rfl

theorem step_nil (hready : p.ready = false) (hinput : p.input = []) : p.step cfg master = none := by
  have hline : lineEnd ([] : Bytes) = none := rfl
  have hchr : strchr 10 [] = none := rfl
  unfold Parser.step
  rw [hready, hinput]
  by_cases hclosed : p.closed = true
  · rw [if_pos hclosed]
  rw [if_neg hclosed, if_neg Bool.false_ne_true]
  cases p.reqtype with
  | none => rfl
  | some t =>
    cases t with
    | inline => rfl
    | multibulk =>
      dsimp only
      rw [hline]
      split_ifs
      · rfl
      · cases p.bulklen with
        | none => rfl
        | some len =>
          dsimp only
          exact if_neg (fun h => absurd h.2 (Nat.not_succ_le_zero _))

theorem HaltedBy.asap {reply blocked asap closed : Bool} (h : HaltedBy reply blocked asap closed) :
    HaltedBy reply blocked true closed := ⟨h.1, fun hc => (h.2 hc).imp_right (Or.imp_right fun _ => rfl)⟩

theorem haltedBy_command (reply blocked asap : Bool) {e : Effect}
    (hopen : ¬(reply = true ∨ blocked = true ∨ asap = true)) :
    HaltedBy (reply || e.closeAfterReply) (blocked || e.blocked) (asap || e.closeAsap) e.stops := by
  obtain ⟨er, ea, eb⟩ := e
  unfold HaltedBy Effect.stops
  revert hopen
  cases reply <;> cases blocked <;> cases asap <;> cases er <;> cases ea <;> cases eb <;> decide

theorem commandProcessed_client (s : Server) : ∃ pending offset,
    (commandProcessed s).client =
      { resetClient s.client with
        pendingQuerybuf := pending
        reploff := offset } := by
  unfold commandProcessed replicationFeedSlavesFromMasterStream
  dsimp only
  split_ifs
  · exact ⟨_, _, rfl⟩
  · exact ⟨_, _, rfl⟩
  · exact ⟨_, _, rfl⟩
  · exact ⟨_, _, rfl⟩

theorem Matches.reset (h : Matches c p) : Matches (resetClient c) p.reset :=
  ⟨h.input, h.pos, rfl, rfl, rfl, rfl, h.error, h.closed, h.executed⟩

def Client.halted (c : Client) : Prop := c.closeAfterReply = true ∨ c.blocked = true ∨ c.closeAsap = true

variable (cfg) in
theorem Matches.ready (h : Matches s.client p) (hopen : ¬s.client.halted) :
    Matches (requestReady cfg s).client (p.finish cfg) ∧
      (requestReady cfg s).client.master = s.client.master ∧
      ((requestReady cfg s).client.closeAsap = true → (p.finish cfg).closed = true) := by
  have hreset := h.reset
  have hasap : s.client.closeAsap = true → False := fun hc => hopen (Or.inr (Or.inr hc))
  unfold requestReady Parser.finish gopherRequest
  rw [h.reqtype, h.argv]
  split_ifs with _ _ hquit
  · exact ⟨⟨hreset.input, hreset.pos, hreset.reqtype, hreset.multibulklen, hreset.bulklen, hreset.argv,
      hreset.error, ⟨fun _ => rfl, fun _ => Or.inl rfl⟩, hreset.executed⟩, rfl, fun _ => rfl⟩
  · exact ⟨hreset, rfl, fun hc => (hasap hc).elim⟩
  · unfold processCommandAndResetClient processCommand
    rw [if_pos hquit]
    dsimp only
    rw [if_neg Bool.false_ne_true]
    exact ⟨⟨h.input, h.pos, rfl, h.multibulklen, h.bulklen, rfl, h.error,
      ⟨fun _ => rfl, fun _ => Or.inl rfl⟩, h.executed⟩, rfl, fun _ => rfl⟩
  · unfold processCommandAndResetClient processCommand
    rw [if_neg hquit]
    dsimp only
    rw [if_pos rfl]
    obtain ⟨pending, offset, heq⟩ := commandProcessed_client { s with client := (processCommand cfg s.client).1 }
    unfold processCommand at heq
    rw [if_neg hquit] at heq
    dsimp only at heq
    rw [heq, ← h.executed]
    have hhalted := haltedBy_command s.client.closeAfterReply s.client.blocked s.client.closeAsap
      (e := cfg.effect (p.executed.map Prod.fst) s.client.argv) hopen
    refine ⟨⟨hreset.input, hreset.pos, hreset.reqtype, hreset.multibulklen, hreset.bulklen, hreset.argv,
      hreset.error, hhalted, ?_⟩, rfl, fun hc => ?_⟩
    · show (p.executed ++ [(s.client.argv, p.taken)]).map Prod.fst = _
      rw [List.map_append]
      rfl
    · have hstops : (s.client.closeAsap || (cfg.effect (p.executed.map Prod.fst) s.client.argv).closeAsap) = true := hc
      rcases Bool.or_eq_true_iff.mp hstops with hc | hc
      · exact (hasap hc).elim
      · show Effect.stops _ = true
        unfold Effect.stops
        rw [hc, Bool.or_true, Bool.true_or]

variable (cfg) in
theorem detect_matches (h : Matches c p) (hclosed : p.closed = false) (hready : p.ready = false)
    (hne : p.input ≠ []) : ∃ q, Reaches (Parser.step cfg c.master) p q ∧ Matches (detectReqtype c) q ∧
      q.closed = false ∧ q.ready = false ∧ q.reqtype ≠ none ∧ SameOuter c (detectReqtype c) := by
  unfold detectReqtype
  by_cases hreq : c.reqtype = none
  · rw [if_pos hreq, ← h.input]
    obtain ⟨b, rest, hinput⟩ := List.exists_cons_of_ne_nil hne
    have hstep : p.step cfg c.master =
        some { p with reqtype := if b = 42 then some .multibulk else some .inline } := by
      unfold Parser.step
      rw [hclosed, hready, h.reqtype, hreq, hinput]
      rfl
    have hhead : p.input.head? = some 42 ↔ b = 42 := by
      rw [hinput, List.head?_cons, Option.some.injEq]
    refine ⟨_, Relation.ReflTransGen.single hstep, ?_, hclosed, hready, ?_, ⟨rfl, rfl, rfl, rfl, rfl, rfl, rfl⟩⟩
    · refine ⟨h.input, h.pos, ?_, h.multibulklen, h.bulklen, h.argv, h.error, h.closed, h.executed⟩
      dsimp only
      by_cases hb : b = 42
      · rw [if_pos hb, if_pos (hhead.mpr hb)]
      · rw [if_neg hb, if_neg (fun h42 => hb (hhead.mp h42))]
    · dsimp only
      split_ifs
      · exact Option.some_ne_none _
      · exact Option.some_ne_none _
  · rw [if_neg hreq]
    exact ⟨p, Relation.ReflTransGen.refl, h, hclosed, hready, h.reqtype ▸ hreq, SameOuter.refl c⟩

variable (cfg) in
theorem request_parsed (h : Matches c p) (hclosed : p.closed = false) (hready : p.ready = false)
    (hreq : p.reqtype ≠ none) (hshort : ShortLines cfg c.master p)
    (hroom : p.input.length ≤ cfg.clientMaxQuerybufLen) : ∃ q, Parsed cfg c p (parseRequest cfg c) q := by
  unfold parseRequest
  rw [← h.reqtype]
  by_cases hinline : p.reqtype = some .inline
  · rw [if_pos hinline]
    exact inline_parsed h hclosed hready hinline hshort.self
  · rw [if_neg hinline]
    have hmulti : p.reqtype = some .multibulk := by
      cases ht : p.reqtype with
      | none => exact absurd ht hreq
      | some t =>
        cases t with
        | inline => exact absurd ht hinline
        | multibulk => rfl
    exact multibulk_parsed h hclosed hready hmulti hshort hroom

variable (cfg) in
theorem turn_parsed (h : Matches s.client p) (hready : p.ready = false)
    (hshort : ShortLines cfg s.client.master p) (hroom : p.input.length ≤ cfg.clientMaxQuerybufLen)
    (hne : s.client.unread ≠ []) (hopen : ¬s.client.halted) :
    ∃ q, Parsed cfg s.client p (parseRequest cfg (detectReqtype s.client)) q := by
  have hclosed : p.closed = false := Bool.eq_false_of_not_eq_true fun hc => hopen (h.closed.2 hc)
  rw [← h.input] at hne
  obtain ⟨p1, hrun1, h1, hclosed1, hready1, hreq1, houter1⟩ := detect_matches cfg h hclosed hready hne
  have hmaster := houter1.master
  obtain ⟨q, hq⟩ := request_parsed cfg h1 hclosed1 hready1 hreq1 (hmaster ▸ hshort.reaches hrun1)
    ((reaches_takes hready hrun1).le.trans hroom)
  refine ⟨q, hrun1.trans ?_, hq.same, hq.ready, ?_, houter1.trans hq.outer⟩
  · rw [← hmaster]
    exact hq.run
  · rw [← hmaster]
    exact hq.stop

structure Follows (cfg : Config) (s : Server) (p : Parser) (s' : Server) (q : Parser) : Prop where
  run : Reaches (Parser.step cfg s.client.master) p q
  same : Matches s'.client q
  ready : q.ready = false
  master : s'.client.master = s.client.master
  closeAsap : s'.client.closeAsap = true → q.closed = true

theorem Follows.refl (h : Matches s.client p) (hready : p.ready = false)
    (hasap : s.client.closeAsap = true → p.closed = true) : Follows cfg s p s p :=
  ⟨Relation.ReflTransGen.refl, h, hready, rfl, hasap⟩

structure Kept (cfg : Config) (I : Server → Parser → Prop) : Prop where
  parse : ∀ s p r q, Matches s.client p → I s p → Parsed cfg s.client p r q → I { s with client := r.1 } q
  ready : ∀ s p, Matches s.client p → I s p → I (requestReady cfg s) (p.finish cfg)

theorem Kept.trivial (cfg : Config) : Kept cfg (fun _ _ => True) :=
  ⟨fun _ _ _ _ _ _ _ => True.intro, fun _ _ _ _ => True.intro⟩

theorem requests_parsed {I : Server → Parser → Prop} (hkept : Kept cfg I) (fuel : ℕ) :
    ∀ (s : Server) (p : Parser), Matches s.client p → p.ready = false →
    ShortLines cfg s.client.master p → p.input.length ≤ cfg.clientMaxQuerybufLen →
    (s.client.closeAsap = true → p.closed = true) → I s p → ∃ q, Follows cfg s p (processRequests cfg fuel s) q ∧
      I (processRequests cfg fuel s) q ∧ (p.input.length ≤ fuel → q.step cfg s.client.master = none) := by
  induction fuel with
  | zero =>
    intro s p h hready _ _ hasap hI
    refine ⟨p, Follows.refl h hready hasap, hI, fun hlen => ?_⟩
    exact step_nil hready (List.length_eq_zero_iff.mp (Nat.le_zero.mp hlen))
  | succ fuel ih =>
    intro s p h hready hshort hroom hasap hI
    unfold processRequests
    by_cases hgo : s.client.unread = [] ∨ s.client.blocked = true ∨ s.client.closeAfterReply = true ∨
        s.client.closeAsap = true
    · rw [if_pos hgo]
      refine ⟨p, Follows.refl h hready hasap, hI, fun _ => ?_⟩
      rcases hgo with hnil | hblocked | hclosed | hasap'
      · exact step_nil hready (h.input.trans hnil)
      · exact step_closed (h.closed.1 (Or.inr hblocked))
      · exact step_closed (h.closed.1 (Or.inl hclosed))
      · exact step_closed (hasap hasap')
    · rw [if_neg hgo]
      rw [not_or] at hgo
      have hopen : ¬s.client.halted := fun hc => hgo.2 (or_left_comm.mp hc)
      have hnoasap : s.client.closeAsap = false := Bool.eq_false_of_not_eq_true fun hc => hopen (Or.inr (Or.inr hc))
      obtain ⟨q, hq⟩ := turn_parsed cfg h hready hshort hroom hgo.1 hopen
      have htakes := reaches_takes hready hq.run
      have hIq := hkept.parse s p _ q h hI hq
      dsimp only
      cases hr : (parseRequest cfg (detectReqtype s.client)).2 with
      | false =>
        rw [if_neg Bool.false_ne_true]
        refine ⟨q, ⟨hq.run, hq.same, hq.ready.trans hr, hq.outer.master, fun hc => ?_⟩, hIq,
          fun _ => hq.stop hr⟩
        rw [hq.outer.closeAsap, hnoasap] at hc
        cases hc
      | true =>
        rw [if_pos rfl]
        have hqready : q.ready = true := hq.ready.trans hr
        have hfinish : q.step cfg s.client.master = some (q.finish cfg) :=
          step_ready (htakes.opened hqready) hqready
        have hqopen : ¬(parseRequest cfg (detectReqtype s.client)).1.halted := by
          have hclosed := htakes.opened hqready
          intro hc
          rcases hc with hc | hc | hc
          · rw [hq.same.closed.1 (Or.inl hc)] at hclosed
            cases hclosed
          · rw [hq.same.closed.1 (Or.inr hc)] at hclosed
            cases hclosed
          · rw [hq.outer.closeAsap, hnoasap] at hc
            cases hc
        obtain ⟨hsame, hmaster, hasap'⟩ := Matches.ready cfg
          (s := { s with client := (parseRequest cfg (detectReqtype s.client)).1 }) hq.same hqopen
        have hmaster' := hmaster.trans hq.outer.master
        obtain ⟨hinput, hnext⟩ := finish_input cfg q
        have hrun := hq.run.tail hfinish
        obtain ⟨q', hq', hI', hstop⟩ := ih _ _ hsame hnext (hmaster' ▸ hshort.reaches hrun)
          (by rw [hinput]; exact htakes.le.trans hroom) hasap' (hkept.ready _ q hq.same hIq)
        refine ⟨q', ⟨hrun.trans ?_, hq'.same, hq'.ready, hq'.master.trans hmaster', hq'.closeAsap⟩, hI', fun hlen => ?_⟩
        · rw [← hmaster']
          exact hq'.run
        · rw [← hmaster']
          apply hstop
          rw [hinput]
          have := htakes.lt hqready
          omega

def Stuck (cfg : Config) (p : Parser) : Prop :=
  p.closed = true ∨ (p.reqtype = some .multibulk ∧ p.multibulklen ≠ 0 ∧
    ∃ len, p.bulklen = some len ∧ cfg.clientMaxQuerybufLen < len + 2)

theorem Stuck.step (h : Stuck cfg p) (hready : p.ready = false) : p.step cfg master = none := by
  rcases h with hclosed | ⟨hreq, hm, len, hb, hbig⟩
  · exact step_closed hclosed
  · by_cases hclosed : p.closed = true
    · exact step_closed hclosed
    · rw [step_bulk _ _ (Bool.eq_false_of_not_eq_true hclosed) hready hreq hm hb]
      exact if_neg (fun hgo => absurd hgo.1 (not_le.mpr hbig))

structure Waiting (cfg : Config) (s : Server) (p : Parser) : Prop where
  same : Matches s.client p
  trimmed : s.client.qbPos = 0
  ready : p.ready = false
  stop : p.step cfg s.client.master = none
  closing : s.client.closeAsap = true → Stuck cfg p

def Roomy (cfg : Config) : Prop := PROTO_INLINE_MAX_SIZE + 1 + PROTO_IOBUF_LEN ≤ cfg.clientMaxQuerybufLen

theorem readLen_le (c : Client) : readLen c ≤ PROTO_IOBUF_LEN := by
  unfold readLen
  split
  · split_ifs
    · exact min_le_left _ _
    · exact le_refl _
  · exact le_refl _

theorem Waiting.stuck (hroomy : Roomy cfg) (h : Waiting cfg s p) (hshort : ShortLine p) {chunk : Bytes}
    (hlen : chunk.length ≤ readLen s.client)
    (hfull : cfg.clientMaxQuerybufLen < s.client.querybuf.length + chunk.length) : Stuck cfg p := by
  have hinput : p.input = s.client.querybuf := by
    rw [h.same.input]
    unfold Client.unread
    rw [h.trimmed, List.drop_zero]
  have hread := hlen.trans (readLen_le s.client)
  unfold Roomy at hroomy
  -- the waiting line is short, so the buffer is too
  have hline : ∀ d, p.delimiter = some d → (strchr d p.input = none ∨ ∃ n, strchr d p.input = some n ∧
      p.input.length ≤ n + 1) → False := by
    intro d hd hwait
    have hle : p.input.length ≤ PROTO_INLINE_MAX_SIZE + 1 := by
      rcases hwait with hn | ⟨n, hn, hle⟩
      · exact (hshort.unended hd hn).trans (Nat.le_succ _)
      · exact hle.trans (Nat.succ_le_succ (hshort.ended hd hn))
    rw [hinput] at hle
    omega
  have hlineEnd : lineEnd p.input = none →
      strchr 13 p.input = none ∨ ∃ n, strchr 13 p.input = some n ∧ p.input.length ≤ n + 1 := by
    intro hn
    cases hchr : strchr 13 p.input with
    | none => exact Or.inl rfl
    | some n =>
      refine Or.inr ⟨n, rfl, ?_⟩
      by_contra hlt
      have hsome := lineEnd_some.2 ⟨hchr, by omega⟩
      rw [hn] at hsome
      cases hsome
  by_cases hclosed : p.closed = true
  · exact Or.inl hclosed
  have hopen := Bool.eq_false_of_not_eq_true hclosed
  have hstop := h.stop
  cases hreq : p.reqtype with
  | none =>
    -- nothing was read of a request
    unfold Parser.step at hstop
    rw [hopen, h.ready, hreq] at hstop
    have hnil : p.input = [] := List.head?_eq_none_iff.mp (Option.map_eq_none_iff.mp hstop)
    rw [← hinput, hnil] at hfull
    simp only [List.length_nil] at hfull
    omega
  | some t =>
    cases t with
    | inline =>
      rw [step_inline _ _ hopen h.ready hreq] at hstop
      exact (hline 10 (delimiter_inline hopen h.ready hreq) (Or.inl (Option.map_eq_none_iff.mp hstop))).elim
    | multibulk =>
      by_cases hm : p.multibulklen = 0
      · rw [step_multibulk _ _ hopen h.ready hreq hm] at hstop
        exact (hline 13 (delimiter_multibulk hopen h.ready hreq (Or.inl hm)) (hlineEnd (Option.map_eq_none_iff.mp hstop))).elim
      · cases hb : p.bulklen with
        | none =>
          rw [step_bulkLine _ _ hopen h.ready hreq hm hb] at hstop
          exact (hline 13 (delimiter_multibulk hopen h.ready hreq (Or.inr hb)) (hlineEnd (Option.map_eq_none_iff.mp hstop))).elim
        | some len =>
          refine Or.inr ⟨hreq, hm, len, hb, ?_⟩
          by_contra hfits
          rw [step_bulk _ _ hopen h.ready hreq hm hb] at hstop
          have hmissing : p.input.length < len + 2 := by
            by_contra hge
            rw [if_pos ⟨not_lt.mp hfits, not_lt.mp hge⟩] at hstop
            cases hstop
          rw [hinput] at hmissing
          -- no more is read than is missing
          have hrest : len ≥ PROTO_MBULK_BIG_ARG → chunk.length ≤ len + 2 - s.client.querybuf.length := by
            intro hbig
            apply hlen.trans
            unfold readLen
            rw [← h.same.reqtype, ← h.same.bulklen, hreq, hb]
            dsimp only
            rw [if_pos ⟨h.same.multibulklen ▸ hm, hbig, hmissing⟩]
            exact min_le_right _ _
          by_cases hbig : len ≥ PROTO_MBULK_BIG_ARG
          · have := hrest hbig
            omega
          · unfold PROTO_INLINE_MAX_SIZE at hroomy
            unfold PROTO_MBULK_BIG_ARG at hbig
            omega

theorem appendQuerybuf_matches (h : Matches c p) (chunk : Bytes) :
    Matches (appendQuerybuf c chunk) (p.feed chunk) := by
  have hunread : (c.querybuf ++ chunk).drop c.qbPos = c.unread ++ chunk :=
    List.drop_append_of_le_length h.pos
  have hpos : c.qbPos ≤ (c.querybuf ++ chunk).length := by
    rw [List.length_append]
    exact h.pos.trans (Nat.le_add_right _ _)
  have hinput : (p.feed chunk).input = (c.querybuf ++ chunk).drop c.qbPos := by
    rw [hunread, feed_input, h.input]
  unfold appendQuerybuf
  split_ifs
  · exact ⟨hinput, hpos, h.reqtype, h.multibulklen, h.bulklen, h.argv, h.error, h.closed, h.executed⟩
  · exact ⟨hinput, hpos, h.reqtype, h.multibulklen, h.bulklen, h.argv, h.error, h.closed, h.executed⟩

theorem appendQuerybuf_same (c : Client) (chunk : Bytes) :
    (appendQuerybuf c chunk).querybuf = c.querybuf ++ chunk ∧ (appendQuerybuf c chunk).qbPos = c.qbPos ∧
      (appendQuerybuf c chunk).master = c.master ∧ (appendQuerybuf c chunk).closeAsap = c.closeAsap := by
  unfold appendQuerybuf
  split_ifs
  · exact ⟨rfl, rfl, rfl, rfl⟩
  · exact ⟨rfl, rfl, rfl, rfl⟩

theorem trim_matches (h : Matches c p) : Matches (trimQuerybuf c) p :=
  ⟨h.input, Nat.zero_le _, h.reqtype, h.multibulklen, h.bulklen, h.argv, h.error, h.closed, h.executed⟩

theorem processRequests_closing (fuel : ℕ) (h : s.client.closeAsap = true) : processRequests cfg fuel s = s := by
  cases fuel with
  | zero => rfl
  | succ fuel =>
    unfold processRequests
    exact if_pos (Or.inr (Or.inr (Or.inr h)))

theorem Waiting.read (hroomy : Roomy cfg) (h : Waiting cfg s p) {chunk : Bytes}
    (hlen : chunk.length ≤ readLen s.client) (hshort : ShortLines cfg s.client.master (p.feed chunk)) :
    ∃ q, Reaches (Parser.step cfg s.client.master) (p.feed chunk) q ∧
      Waiting cfg (readQueryFromClient cfg s chunk) q ∧
      (readQueryFromClient cfg s chunk).client.master = s.client.master := by
  have happend := appendQuerybuf_matches h.same chunk
  obtain ⟨hquerybuf, hpos, hmaster, hasap⟩ := appendQuerybuf_same s.client chunk
  unfold readQueryFromClient
  dsimp only
  by_cases hfull : (appendQuerybuf s.client chunk).querybuf.length > cfg.clientMaxQuerybufLen
  · rw [if_pos hfull]
    rw [hquerybuf, List.length_append] at hfull
    have hfullStuck : Stuck cfg p := h.stuck hroomy hshort.of_feed.self hlen hfull
    have hstuck : Stuck cfg (p.feed chunk) := hfullStuck
    refine ⟨p.feed chunk, Relation.ReflTransGen.refl, ⟨?_, hpos.trans h.trimmed, h.ready,
      hstuck.step h.ready, fun _ => hstuck⟩, hmaster⟩
    exact ⟨happend.input, happend.pos, happend.reqtype, happend.multibulklen, happend.bulklen, happend.argv,
      happend.error, happend.closed.asap, happend.executed⟩
  · rw [if_neg hfull]
    unfold processInputBuffer
    dsimp only
    cases hclosing : s.client.closeAsap with
    | true =>
      have hstuck : Stuck cfg (p.feed chunk) := h.closing hclosing
      rw [processRequests_closing _ (hasap.trans hclosing)]
      exact ⟨p.feed chunk, Relation.ReflTransGen.refl, ⟨trim_matches happend, rfl, h.ready,
        hstuck.step h.ready, fun _ => hstuck⟩, hmaster⟩
    | false =>
      have hroom : (p.feed chunk).input.length ≤ cfg.clientMaxQuerybufLen := by
        rw [happend.input]
        unfold Client.unread
        rw [List.length_drop]
        omega
      obtain ⟨q, hq, -, hstop⟩ := requests_parsed (Kept.trivial cfg)
        (appendQuerybuf s.client chunk).unread.length
        { s with client := appendQuerybuf s.client chunk } (p.feed chunk) happend h.ready
        (by rw [hmaster]; exact hshort) hroom
        (fun hc => absurd (hclosing.symm.trans (hasap.symm.trans hc)) Bool.false_ne_true) True.intro
      have hrun := hq.run
      have hsame := trim_matches hq.same
      have hmaster' := hq.master.trans hmaster
      have hstop' := hstop (by rw [happend.input])
      dsimp only at hrun hstop'
      rw [hmaster] at hrun hstop'
      refine ⟨q, hrun, ⟨hsame, rfl, hq.ready, ?_, fun hc => Or.inl (hq.closeAsap hc)⟩, hmaster'⟩
      · have heq : (trimQuerybuf (processRequests cfg (appendQuerybuf s.client chunk).unread.length
            { s with client := appendQuerybuf s.client chunk }).client).master = s.client.master := hmaster'
        rw [heq]
        exact hstop'

theorem Reads.waiting (hroomy : Roomy cfg) (h0 : Waiting cfg s p) (h : Reads cfg s stream s') :
    ShortLines cfg s.client.master (p.feed stream) →
    ∃ q, Reaches (Parser.step cfg s.client.master) (p.feed stream) q ∧ Waiting cfg s' q ∧
      s'.client.master = s.client.master := by
  have hfed := parser_fed cfg s.client.master
  induction h with
  | start =>
    intro _
    rw [hfed.nil]
    exact ⟨p, Relation.ReflTransGen.refl, h0, rfl⟩
  | read hreads chunk _ hlen ih =>
    intro hshort
    rw [← hfed.append] at hshort
    obtain ⟨q, hrun, hwait, hmaster⟩ := ih hshort.of_feed
    have hrun' := hfed.reaches hrun chunk
    obtain ⟨q', hnext, hwait', hmaster'⟩ := hwait.read hroomy hlen
      (by rw [hmaster]; exact hshort.reaches hrun')
    rw [hmaster] at hnext
    refine ⟨q', ?_, hwait', hmaster'.trans hmaster⟩
    rw [← hfed.append]
    exact hrun'.trans hnext

theorem Reads.same (hroomy : Roomy cfg) {s1 s2 : Server} (h0 : Waiting cfg s p)
    (hshort : ShortLines cfg s.client.master (p.feed stream)) (h1 : Reads cfg s stream s1)
    (h2 : Reads cfg s stream s2) :
    s1.client.executed = s2.client.executed ∧ s1.client.protocolError = s2.client.protocolError := by
  obtain ⟨q1, hrun1, hwait1, hmaster1⟩ := h1.waiting hroomy h0 hshort
  obtain ⟨q2, hrun2, hwait2, hmaster2⟩ := h2.waiting hroomy h0 hshort
  have hstop1 := hwait1.stop
  have hstop2 := hwait2.stop
  rw [hmaster1] at hstop1
  rw [hmaster2] at hstop2
  have heq := stops_unique hrun1 hstop1 hrun2 hstop2
  rw [← hwait1.same.executed, ← hwait2.same.executed, ← hwait1.same.error, ← hwait2.same.error, heq]
  exact ⟨rfl, rfl⟩

end RedisCore.Request
