import RedisCore.RequestSteps

namespace RedisCore.Request
open Option (filter_some map_eq_some_iff map_some)

open StateTransition StreamMachine

variable {cfg : Config} {master : Bool} {c c' : Client} {p q : Parser} {d : UInt8} {n : ℕ}

theorem take_input_length (p : Parser) (n : ℕ) : (p.take n).input.length = p.input.length - n := by
  unfold Parser.take
  exact List.length_drop

theorem finish_input (cfg : Config) (p : Parser) : (p.finish cfg).input = p.input ∧ (p.finish cfg).ready = false := by
  unfold Parser.finish
  split_ifs
  · exact ⟨rfl, rfl⟩
  · exact ⟨rfl, rfl⟩
  · exact ⟨rfl, rfl⟩
  · exact ⟨rfl, rfl⟩

structure Takes (p q : Parser) : Prop where
  le : q.input.length ≤ p.input.length
  lt : q.ready = true → q.input.length < p.input.length
  opened : q.ready = true → q.closed = false

theorem Takes.of_waiting (hle : q.input.length ≤ p.input.length) (hready : q.ready = false) : Takes p q :=
  ⟨hle, fun hr => absurd (hready.symm.trans hr) Bool.false_ne_true,
    fun hr => absurd (hready.symm.trans hr) Bool.false_ne_true⟩

theorem inlineLine_takes (hclosed : p.closed = false) (hready : p.ready = false) (hn : n < p.input.length) :
    Takes p (p.inlineLine master n) := by
  have hfail : ∀ e, Takes p (p.fail e) := fun e => Takes.of_waiting (le_refl _) hready
  have htake := take_input_length p (n + 1)
  unfold Parser.inlineLine
  cases sdssplitargs (withoutCr (p.input.take n)) with
  | none => exact hfail _
  | some argv =>
    dsimp only
    split_ifs
    · exact hfail _
    · exact ⟨by dsimp only; omega, fun _ => by dsimp only; omega, fun _ => hclosed⟩

theorem multibulkLine_takes (hclosed : p.closed = false) (hready : p.ready = false) (hn : n + 2 ≤ p.input.length) :
    Takes p (p.multibulkLine n) := by
  have hfail : ∀ e, Takes p (p.fail e) := fun e => Takes.of_waiting (le_refl _) hready
  have htake := take_input_length p (n + 2)
  unfold Parser.multibulkLine
  cases string2ll ((p.input.take n).drop 1) with
  | none => exact hfail _
  | some ll =>
    dsimp only
    split_ifs
    · exact hfail _
    · exact ⟨by dsimp only; omega, fun _ => by dsimp only; omega, fun _ => hclosed⟩
    · exact ⟨by dsimp only; omega, fun _ => by dsimp only; omega, fun _ => hclosed⟩

theorem bulkLine_takes (hclosed : p.closed = false) (hready : p.ready = false) (hn : n + 2 ≤ p.input.length) :
    Takes p (p.bulkLine cfg master n) := by
  have hfail : ∀ e, Takes p (p.fail e) := fun e => Takes.of_waiting (le_refl _) hready
  have htake := take_input_length p (n + 2)
  unfold Parser.bulkLine
  split_ifs
  · exact hfail _
  · cases string2ll ((p.input.take n).drop 1) with
    | none => exact hfail _
    | some ll =>
      dsimp only
      split_ifs
      · exact hfail _
      · exact ⟨by dsimp only; omega, fun _ => by dsimp only; omega, fun _ => hclosed⟩

theorem bulk_takes (hclosed : p.closed = false) (hn : n + 2 ≤ p.input.length) : Takes p (p.bulk n) := by
  have htake := take_input_length p (n + 2)
  unfold Parser.bulk
  exact ⟨by dsimp only; omega, fun _ => by dsimp only; omega, fun _ => hclosed⟩

theorem step_takes (h : p.step cfg master = some q) : Takes p q := by
  unfold Parser.step at h
  by_cases hclosed : p.closed = true
  · rw [if_pos hclosed] at h
    cases h
  by_cases hready : p.ready = true
  · rw [if_neg hclosed, if_pos hready] at h
    rw [← Option.some.inj h]
    obtain ⟨hinput, hr⟩ := finish_input cfg p
    exact Takes.of_waiting (by rw [hinput]) hr
  rw [if_neg hclosed, if_neg hready] at h
  have hopen := Bool.eq_false_of_not_eq_true hclosed
  have hnot := Bool.eq_false_of_not_eq_true hready
  cases hreq : p.reqtype with
  | none =>
    rw [hreq] at h
    obtain ⟨b, -, rfl⟩ := map_eq_some_iff.mp h
    exact Takes.of_waiting (le_refl _) hnot
  | some t =>
    rw [hreq] at h
    cases t with
    | inline =>
      obtain ⟨newline, hn, rfl⟩ := map_eq_some_iff.mp h
      exact inlineLine_takes hopen hnot (strchr_lt hn)
    | multibulk =>
      dsimp only at h
      by_cases hm : p.multibulklen = 0
      · rw [if_pos hm] at h
        obtain ⟨newline, hn, rfl⟩ := map_eq_some_iff.mp h
        exact multibulkLine_takes hopen hnot (lineEnd_some.1 hn).2
      · rw [if_neg hm] at h
        cases hb : p.bulklen with
        | none =>
          rw [hb] at h
          obtain ⟨newline, hn, rfl⟩ := map_eq_some_iff.mp h
          exact bulkLine_takes hopen hnot (lineEnd_some.1 hn).2
        | some len =>
          rw [hb] at h
          dsimp only at h
          split_ifs at h with hlen
          rw [← Option.some.inj h]
          exact bulk_takes hopen hlen.2

theorem reaches_takes (hready : p.ready = false) (h : Reaches (Parser.step cfg master) p q) : Takes p q := by
  apply reaches_induction _ _ h
  · exact Takes.of_waiting (le_refl _) hready
  · intro a b ha hab
    have hb := step_takes hab
    exact ⟨hb.le.trans ha.le, fun hr => (hb.lt hr).trans_le ha.le, hb.opened⟩

def Parser.delimiter (p : Parser) : Option UInt8 :=
  if p.closed ∨ p.ready then none
  else
    match p.reqtype with
    | none => none
    | some .inline => some 10
    | some .multibulk => if p.multibulklen = 0 ∨ p.bulklen = none then some 13 else none

theorem delimiter_inline (hclosed : p.closed = false) (hready : p.ready = false)
    (hreq : p.reqtype = some .inline) : p.delimiter = some 10 := by
  unfold Parser.delimiter
  rw [hclosed, hready, hreq]
  rfl

theorem delimiter_multibulk (hclosed : p.closed = false) (hready : p.ready = false)
    (hreq : p.reqtype = some .multibulk) (hline : p.multibulklen = 0 ∨ p.bulklen = none) :
    p.delimiter = some 13 := by
  unfold Parser.delimiter
  rw [hclosed, hready, hreq]
  dsimp only
  rw [if_neg (by simp), if_pos hline]

def ShortLine (p : Parser) : Prop :=
  ∀ d, p.delimiter = some d → (p.input.takeWhile (· ≠ d)).length ≤ PROTO_INLINE_MAX_SIZE ∧
    0 ∉ p.input.takeWhile (· ≠ d)

def ShortLines (cfg : Config) (master : Bool) (p : Parser) : Prop :=
  ∀ q, Reaches (Parser.step cfg master) p q → ShortLine q

theorem ShortLines.self (h : ShortLines cfg master p) : ShortLine p := h p Relation.ReflTransGen.refl

theorem ShortLines.reaches (h : ShortLines cfg master p) (hr : Reaches (Parser.step cfg master) p q) :
    ShortLines cfg master q := fun r hq => h r (hr.trans hq)

theorem ShortLine.of_feed {x : Bytes} (h : ShortLine (p.feed x)) : ShortLine p := by
  intro d hd
  obtain ⟨hlen, hz⟩ := h d hd
  have hinit := takeWhile_prefix_append (· ≠ d) p.input x
  exact ⟨hinit.length_le.trans hlen, fun h0 => hz (hinit.subset h0)⟩

theorem ShortLines.of_feed {x : Bytes} (h : ShortLines cfg master (p.feed x)) : ShortLines cfg master p :=
  fun q hq => (h (q.feed x) ((parser_fed cfg master).reaches hq x)).of_feed

theorem ShortLine.unended (h : ShortLine p) (hd : p.delimiter = some d) (hn : strchr d p.input = none) :
    p.input.length ≤ PROTO_INLINE_MAX_SIZE := by
  obtain ⟨hlen, hz⟩ := h d hd
  rw [strchr_eq hz] at hn
  split_ifs at hn with hmem
  have hall : p.input.takeWhile (· ≠ d) = p.input := by
    apply List.takeWhile_eq_self_iff.mpr
    intro b hb
    apply decide_eq_true
    rintro rfl
    exact hmem hb
  rw [hall] at hlen
  exact hlen

theorem ShortLine.ended (h : ShortLine p) (hd : p.delimiter = some d) (hn : strchr d p.input = some n) :
    n ≤ PROTO_INLINE_MAX_SIZE := by
  obtain ⟨hlen, hz⟩ := h d hd
  rw [strchr_eq hz] at hn
  split_ifs at hn with hmem
  rw [← Option.some.inj hn]
  exact hlen

/-- The parser is closed as the flags of the client say; a client that is too big is closed before it
is parsed. -/
def HaltedBy (closeAfterReply blocked closeAsap closed : Bool) : Prop :=
  (closeAfterReply = true ∨ blocked = true → closed = true) ∧
    (closed = true → closeAfterReply = true ∨ blocked = true ∨ closeAsap = true)

structure Matches (c : Client) (p : Parser) : Prop where
  input : p.input = c.unread
  pos : c.qbPos ≤ c.querybuf.length
  reqtype : p.reqtype = c.reqtype
  multibulklen : p.multibulklen = c.multibulklen
  bulklen : p.bulklen = c.bulklen
  argv : p.argv = c.argv
  error : p.error = c.protocolError
  closed : HaltedBy c.closeAfterReply c.blocked c.closeAsap p.closed
  executed : p.executed.map Prod.fst = c.executed

structure SameOuter (c c' : Client) : Prop where
  master : c'.master = c.master
  closeAsap : c'.closeAsap = c.closeAsap
  executed : c'.executed = c.executed
  multi : c'.multi = c.multi
  pendingQuerybuf : c'.pendingQuerybuf = c.pendingQuerybuf
  readReploff : c'.readReploff = c.readReploff
  reploff : c'.reploff = c.reploff

theorem SameOuter.refl (c : Client) : SameOuter c c := ⟨rfl, rfl, rfl, rfl, rfl, rfl, rfl⟩

theorem SameOuter.trans {c1 c2 c3 : Client} (h : SameOuter c1 c2) (h' : SameOuter c2 c3) : SameOuter c1 c3 :=
  ⟨h'.master.trans h.master, h'.closeAsap.trans h.closeAsap, h'.executed.trans h.executed,
    h'.multi.trans h.multi, h'.pendingQuerybuf.trans h.pendingQuerybuf, h'.readReploff.trans h.readReploff,
    h'.reploff.trans h.reploff⟩

theorem Matches.fail (h : Matches c p) (e : ProtocolError) : Matches (setProtocolError c e) (p.fail e) :=
  ⟨h.input, h.pos, h.reqtype, h.multibulklen, h.bulklen, h.argv, rfl, ⟨fun _ => rfl, fun _ => Or.inl rfl⟩,
    h.executed⟩

theorem Matches.take_input (h : Matches c p) (n : ℕ) :
    (p.take n).input = c.querybuf.drop (c.qbPos + n) := by
  show p.input.drop n = _
  rw [h.input]
  exact List.drop_drop

theorem Matches.take_pos (h : Matches c p) (hn : n ≤ p.input.length) : c.qbPos + n ≤ c.querybuf.length := by
  rw [h.input] at hn
  have hlen : c.unread.length = c.querybuf.length - c.qbPos := List.length_drop
  have := h.pos
  omega

structure Parsed (cfg : Config) (c : Client) (p : Parser) (r : Client × Bool) (q : Parser) : Prop where
  run : Reaches (Parser.step cfg c.master) p q
  same : Matches r.1 q
  ready : q.ready = r.2
  stop : r.2 = false → q.step cfg c.master = none
  outer : SameOuter c r.1

theorem step_closed (h : p.closed = true) : p.step cfg master = none := by
  unfold Parser.step
  rw [if_pos h]

variable (cfg master) in
theorem step_inline (hclosed : p.closed = false) (hready : p.ready = false) (hreq : p.reqtype = some .inline) :
    p.step cfg master = (strchr 10 p.input).map (p.inlineLine master) := by
  unfold Parser.step
  rw [hclosed, hready, hreq]
  rfl

variable (cfg master) in
theorem step_multibulk (hclosed : p.closed = false) (hready : p.ready = false)
    (hreq : p.reqtype = some .multibulk) (hm : p.multibulklen = 0) :
    p.step cfg master = (lineEnd p.input).map p.multibulkLine := by
  unfold Parser.step
  rw [hclosed, hready, hreq, hm]
  rfl

variable (cfg master) in
theorem step_bulkLine (hclosed : p.closed = false) (hready : p.ready = false)
    (hreq : p.reqtype = some .multibulk) (hm : p.multibulklen ≠ 0) (hb : p.bulklen = none) :
    p.step cfg master = (lineEnd p.input).map (p.bulkLine cfg master) := by
  unfold Parser.step
  rw [hclosed, hready, hreq, hb]
  dsimp only
  rw [if_neg Bool.false_ne_true, if_neg Bool.false_ne_true, if_neg hm]

variable (cfg master) in
theorem step_bulk (hclosed : p.closed = false) (hready : p.ready = false)
    (hreq : p.reqtype = some .multibulk) (hm : p.multibulklen ≠ 0) (hb : p.bulklen = some n) :
    p.step cfg master =
      if n + 2 ≤ cfg.clientMaxQuerybufLen ∧ n + 2 ≤ p.input.length then some (p.bulk n) else none := by
  unfold Parser.step
  rw [hclosed, hready, hreq, hb]
  dsimp only
  rw [if_neg Bool.false_ne_true, if_neg Bool.false_ne_true, if_neg hm]

theorem Matches.stopped (h : Matches c p) (hready : p.ready = false) (hstep : p.step cfg c.master = none) :
    Parsed cfg c p (c, false) p :=
  ⟨Relation.ReflTransGen.refl, h, hready, fun _ => hstep, SameOuter.refl c⟩

theorem Matches.failed (h : Matches c p) (hready : p.ready = false) {e : ProtocolError}
    (hstep : p.step cfg c.master = some (p.fail e)) :
    Parsed cfg c p (setProtocolError c e, false) (p.fail e) :=
  ⟨Relation.ReflTransGen.single hstep, h.fail e, hready, fun _ => step_closed rfl,
    ⟨rfl, rfl, rfl, rfl, rfl, rfl, rfl⟩⟩

theorem inline_parsed (h : Matches c p) (hclosed : p.closed = false) (hready : p.ready = false)
    (hreq : p.reqtype = some .inline) (hshort : ShortLine p) :
    ∃ q, Parsed cfg c p (processInlineBuffer c) q := by
  have hstep := step_inline cfg c.master hclosed hready hreq
  have hdelim := delimiter_inline hclosed hready hreq
  unfold processInlineBuffer
  rw [← h.input]
  cases hchr : strchr 10 p.input with
  | none =>
    rw [hchr] at hstep
    dsimp only
    rw [if_neg (not_lt.mpr (hshort.unended hdelim hchr))]
    exact ⟨p, h.stopped hready hstep⟩
  | some newline =>
    have hlt := strchr_lt hchr
    rw [hchr, map_some] at hstep
    unfold Parser.inlineLine at hstep
    dsimp only
    cases hargs : sdssplitargs (withoutCr (p.input.take newline)) with
    | none =>
      rw [hargs] at hstep
      exact ⟨_, h.failed hready hstep⟩
    | some argv =>
      rw [hargs] at hstep
      dsimp only at hstep ⊢
      by_cases hmaster : withoutCr (p.input.take newline) ≠ [] ∧ c.master = true
      · rw [if_pos hmaster] at hstep ⊢
        exact ⟨_, h.failed hready hstep⟩
      · rw [if_neg hmaster] at hstep ⊢
        refine ⟨_, Relation.ReflTransGen.single hstep, ?_, rfl, fun hr => absurd hr Bool.true_eq_false.mp,
          ⟨rfl, rfl, rfl, rfl, rfl, rfl, rfl⟩⟩
        exact ⟨h.take_input _, h.take_pos hlt, h.reqtype, h.multibulklen, h.bulklen, rfl, h.error, h.closed,
          h.executed⟩

variable (cfg) in
theorem bulkLen_parsed (h : Matches c p) (hclosed : p.closed = false) (hready : p.ready = false)
    (hreq : p.reqtype = some .multibulk) (hm : p.multibulklen ≠ 0) (hshort : ShortLine p) :
    match readBulkLen cfg c with
    | .error e => p.step cfg c.master = some (p.fail e)
    | .wait => p.step cfg c.master = none
    | .known len c' => ∃ q, Reaches (Parser.step cfg c.master) p q ∧ Matches c' q ∧ SameOuter c c' ∧
        q.bulklen = some len ∧ q.multibulklen = p.multibulklen ∧ q.reqtype = some .multibulk ∧
        q.closed = false ∧ q.ready = false := by
  unfold readBulkLen
  cases hb : c.bulklen with
  | some len =>
    exact ⟨p, Relation.ReflTransGen.refl, h, SameOuter.refl c, h.bulklen.trans hb, rfl, hreq, hclosed, hready⟩
  | none =>
    have hstep := step_bulkLine cfg c.master hclosed hready hreq hm (h.bulklen.trans hb)
    have hdelim := delimiter_multibulk hclosed hready hreq (Or.inr (h.bulklen.trans hb))
    rw [← h.input]
    dsimp only
    cases hchr : strchr 13 p.input with
    | none =>
      unfold lineEnd at hstep
      rw [hchr] at hstep
      dsimp only
      rw [if_neg (not_lt.mpr (hshort.unended hdelim hchr))]
      exact hstep
    | some newline =>
      unfold lineEnd at hstep
      rw [hchr] at hstep
      dsimp only
      by_cases hlen : newline + 2 > p.input.length
      · rw [if_pos hlen]
        rw [filter_some, if_neg (by simpa using hlen)] at hstep
        exact hstep
      · have hle : newline + 2 ≤ p.input.length := not_lt.mp hlen
        rw [filter_some, if_pos (by simpa using hle), map_some] at hstep
        unfold Parser.bulkLine at hstep
        rw [if_neg hlen]
        by_cases hd : p.input.headD 0 ≠ 36
        · rw [if_pos hd] at hstep ⊢
          exact hstep
        · rw [if_neg hd] at hstep ⊢
          cases hll : string2ll ((p.input.take newline).drop 1) with
          | none =>
            rw [hll] at hstep
            exact hstep
          | some ll =>
            rw [hll] at hstep
            dsimp only at hstep ⊢
            by_cases hbad : ll < 0 ∨ (c.master = false ∧ ll > cfg.protoMaxBulkLen)
            · rw [if_pos hbad] at hstep ⊢
              exact hstep
            · rw [if_neg hbad] at hstep ⊢
              have hmoved : Matches { c with qbPos := c.qbPos + (newline + 2), bulklen := some ll.toNat }
                  { p.take (newline + 2) with bulklen := some ll.toNat } :=
                ⟨h.take_input _, h.take_pos hle, h.reqtype, h.multibulklen, rfl, h.argv, h.error, h.closed,
                  h.executed⟩
              split_ifs
              · -- the buffer is trimmed to what is not read
                refine ⟨_, Relation.ReflTransGen.single hstep, ?_, ⟨rfl, rfl, rfl, rfl, rfl, rfl, rfl⟩, rfl, rfl,
                  hreq, hclosed, hready⟩
                exact ⟨hmoved.input, Nat.zero_le _, hmoved.reqtype, hmoved.multibulklen, rfl, hmoved.argv,
                  hmoved.error, hmoved.closed, hmoved.executed⟩
              · exact ⟨_, Relation.ReflTransGen.single hstep, hmoved, ⟨rfl, rfl, rfl, rfl, rfl, rfl, rfl⟩, rfl, rfl,
                  hreq, hclosed, hready⟩

theorem readBulk_matches (h : Matches c p) {len : ℕ} (hlen : len + 2 ≤ p.input.length) :
    Matches (readBulk len c) (p.bulk len) ∧ SameOuter c (readBulk len c) := by
  unfold readBulk
  dsimp only
  by_cases hbig : c.qbPos = 0 ∧ len ≥ PROTO_MBULK_BIG_ARG ∧ c.querybuf.length = len + 2
  · -- the buffer becomes the argument
    rw [if_pos hbig]
    have hunread : c.unread = c.querybuf := by
      unfold Client.unread
      rw [hbig.1, List.drop_zero]
    refine ⟨⟨?_, ?_, h.reqtype, ?_, rfl, ?_, h.error, h.closed, h.executed⟩, ⟨rfl, rfl, rfl, rfl, rfl, rfl, rfl⟩⟩
    · show p.input.drop (len + 2) = ([] : Bytes).drop c.qbPos
      rw [h.input, hunread, List.drop_nil, ← hbig.2.2, List.drop_length]
    · show c.qbPos ≤ 0
      rw [hbig.1]
    · show p.multibulklen - 1 = c.multibulklen - 1
      rw [h.multibulklen]
    · show p.argv ++ [p.input.take len] = c.argv ++ [c.querybuf.take len]
      rw [h.argv, h.input, hunread]
  · rw [if_neg hbig]
    refine ⟨⟨h.take_input _, h.take_pos hlen, h.reqtype, ?_, rfl, ?_, h.error, h.closed, h.executed⟩,
      ⟨rfl, rfl, rfl, rfl, rfl, rfl, rfl⟩⟩
    · show p.multibulklen - 1 = c.multibulklen - 1
      rw [h.multibulklen]
    · show p.argv ++ [p.input.take len] = c.argv ++ [c.unread.take len]
      rw [h.argv, h.input]

variable (cfg) in
theorem arguments_parsed (missing : ℕ) : ∀ (c : Client) (p : Parser), Matches c p → p.closed = false →
    p.ready = decide (missing = 0) → p.reqtype = some .multibulk → p.multibulklen = missing →
    ShortLines cfg c.master p → p.input.length ≤ cfg.clientMaxQuerybufLen →
    ∃ q, Parsed cfg c p (readArguments cfg missing c) q := by
  induction missing with
  | zero =>
    intro c p h _ hready _ _ _ _
    exact ⟨p, Relation.ReflTransGen.refl, h, hready, fun hr => absurd hr Bool.true_eq_false.mp,
      SameOuter.refl c⟩
  | succ missing ih =>
    intro c p h hclosed hready hreq hm hshort hroom
    have hm0 : p.multibulklen ≠ 0 := by
      rw [hm]
      exact Nat.succ_ne_zero _
    have hnot : p.ready = false := by
      rw [hready]
      exact decide_eq_false (Nat.succ_ne_zero _)
    have hlen := bulkLen_parsed cfg h hclosed hnot hreq hm0 hshort.self
    unfold readArguments
    cases hbulk : readBulkLen cfg c with
    | error e =>
      rw [hbulk] at hlen
      exact ⟨_, h.failed hnot hlen⟩
    | wait =>
      rw [hbulk] at hlen
      exact ⟨p, h.stopped hnot hlen⟩
    | known len c1 =>
      rw [hbulk] at hlen
      obtain ⟨p1, hrun1, h1, houter1, hb1, hm1, hreq1, hclosed1, hready1⟩ := hlen
      have hstep1 := step_bulk cfg c.master hclosed1 hready1 hreq1 (hm1 ▸ hm0) hb1
      dsimp only
      rw [← h1.input]
      by_cases hmore : p1.input.length < len + 2
      · rw [if_pos hmore]
        rw [if_neg (fun hgo => absurd hgo.2 (not_le.mpr hmore))] at hstep1
        exact ⟨p1, hrun1, h1, hready1, fun _ => hstep1, houter1⟩
      · have hle : len + 2 ≤ p1.input.length := not_lt.mp hmore
        have hroom1 : p1.input.length ≤ cfg.clientMaxQuerybufLen :=
          (reaches_takes hnot hrun1).le.trans hroom
        rw [if_pos ⟨hle.trans hroom1, hle⟩] at hstep1
        rw [if_neg hmore]
        obtain ⟨h2, houter2⟩ := readBulk_matches h1 hle
        have hrun2 : Reaches (Parser.step cfg c.master) p (p1.bulk len) := hrun1.tail hstep1
        have hmaster : (readBulk len c1).master = c.master := houter2.master.trans houter1.master
        have hm2 : (p1.bulk len).multibulklen = missing := by
          show p1.multibulklen - 1 = missing
          rw [hm1, hm, Nat.add_sub_cancel]
        have hready2 : (p1.bulk len).ready = decide (missing = 0) := by
          show decide (p1.multibulklen = 1) = decide (missing = 0)
          rw [hm1, hm]
          exact decide_eq_decide.mpr (by omega)
        obtain ⟨q, hq⟩ := ih (readBulk len c1) (p1.bulk len) h2 hclosed1 hready2 hreq1 hm2
          (hmaster ▸ hshort.reaches hrun2) ((bulk_takes hclosed1 hle).le.trans hroom1)
        refine ⟨q, hrun2.trans ?_, hq.same, hq.ready, ?_, (houter1.trans houter2).trans hq.outer⟩
        · rw [← hmaster]
          exact hq.run
        · rw [← hmaster]
          exact hq.stop

theorem multibulk_parsed (h : Matches c p) (hclosed : p.closed = false) (hready : p.ready = false)
    (hreq : p.reqtype = some .multibulk) (hshort : ShortLines cfg c.master p)
    (hroom : p.input.length ≤ cfg.clientMaxQuerybufLen) :
    ∃ q, Parsed cfg c p (processMultibulkBuffer cfg c) q := by
  unfold processMultibulkBuffer
  by_cases hm : c.multibulklen = 0
  · rw [if_pos hm]
    have hstep := step_multibulk cfg c.master hclosed hready hreq (h.multibulklen.trans hm)
    have hdelim := delimiter_multibulk hclosed hready hreq (Or.inl (h.multibulklen.trans hm))
    rw [← h.input]
    unfold lineEnd at hstep
    cases hchr : strchr 13 p.input with
    | none =>
      rw [hchr] at hstep
      dsimp only
      rw [if_neg (not_lt.mpr (hshort.self.unended hdelim hchr))]
      exact ⟨p, h.stopped hready hstep⟩
    | some newline =>
      rw [hchr] at hstep
      dsimp only
      by_cases hlen : newline + 2 > p.input.length
      · rw [if_pos hlen]
        rw [filter_some, if_neg (by simpa using hlen)] at hstep
        exact ⟨p, h.stopped hready hstep⟩
      · have hle : newline + 2 ≤ p.input.length := not_lt.mp hlen
        rw [filter_some, if_pos (by simpa using hle), map_some] at hstep
        unfold Parser.multibulkLine at hstep
        rw [if_neg hlen]
        cases hll : string2ll ((p.input.take newline).drop 1) with
        | none =>
          rw [hll] at hstep
          exact ⟨_, h.failed hready hstep⟩
        | some ll =>
          rw [hll] at hstep
          dsimp only at hstep ⊢
          by_cases hbig : ll > 1024 * 1024
          · rw [if_pos hbig] at hstep ⊢
            exact ⟨_, h.failed hready hstep⟩
          · rw [if_neg hbig] at hstep ⊢
            by_cases hneg : ll ≤ 0
            · rw [if_pos hneg] at hstep ⊢
              refine ⟨_, Relation.ReflTransGen.single hstep, ?_, rfl,
                fun hr => absurd hr Bool.true_eq_false.mp, ⟨rfl, rfl, rfl, rfl, rfl, rfl, rfl⟩⟩
              exact ⟨h.take_input _, h.take_pos hle, h.reqtype, h.multibulklen, h.bulklen, h.argv, h.error,
                h.closed, h.executed⟩
            · rw [if_neg hneg] at hstep ⊢
              have hrun : Reaches (Parser.step cfg c.master) p { p.take (newline + 2) with
                  multibulklen := ll.toNat
                  argv := [] } := Relation.ReflTransGen.single hstep
              have hmoved : Matches { c with
                    qbPos := c.qbPos + (newline + 2)
                    multibulklen := ll.toNat
                    argv := [] }
                  { p.take (newline + 2) with
                    multibulklen := ll.toNat
                    argv := [] } :=
                ⟨h.take_input _, h.take_pos hle, h.reqtype, rfl, h.bulklen, rfl, h.error, h.closed,
                  h.executed⟩
              have houter : SameOuter c { c with
                  qbPos := c.qbPos + (newline + 2)
                  multibulklen := ll.toNat
                  argv := [] } := ⟨rfl, rfl, rfl, rfl, rfl, rfl, rfl⟩
              have hpos : ll.toNat ≠ 0 := by omega
              obtain ⟨q, hq⟩ := arguments_parsed cfg ll.toNat _ _ hmoved hclosed
                (hready.trans (decide_eq_false hpos).symm) hreq rfl (hshort.reaches hrun)
                (le_trans (by rw [take_input_length]; exact Nat.sub_le _ _) hroom)
              exact ⟨q, hrun.trans hq.run, hq.same, hq.ready, hq.stop,
                houter.trans hq.outer⟩
  · rw [if_neg hm]
    have hm' : p.multibulklen ≠ 0 := h.multibulklen ▸ hm
    have hready' : p.ready = decide (c.multibulklen = 0) := hready.trans (decide_eq_false hm).symm
    exact arguments_parsed cfg c.multibulklen c p h hclosed hready' hreq h.multibulklen hshort hroom

end RedisCore.Request
