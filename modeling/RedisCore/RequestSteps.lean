import RedisCore.RequestModel
import RedisCore.StreamMachine

namespace RedisCore.Request
open Option (map_eq_some_iff map_some)

open StateTransition StreamMachine

variable {cfg : Config} {master : Bool} {p q : Parser} {d : UInt8} {s x : Bytes} {n : ℕ}

theorem strchr_lt (h : strchr d s = some n) : n < s.length := by
  induction s generalizing n with
  | nil => cases h
  | cons b s ih =>
    unfold strchr at h
    split_ifs at h
    · rw [← Option.some.inj h]
      exact Nat.succ_pos _
    · obtain ⟨m, hm, rfl⟩ := map_eq_some_iff.mp h
      exact Nat.succ_lt_succ (ih hm)

theorem strchr_append (h : strchr d s = some n) (x : Bytes) : strchr d (s ++ x) = some n := by
  induction s generalizing n with
  | nil => cases h
  | cons b s ih =>
    rw [List.cons_append]
    unfold strchr at h ⊢
    split_ifs at h ⊢
    · exact h
    · obtain ⟨m, hm, rfl⟩ := map_eq_some_iff.mp h
      rw [ih hm]
      rfl

theorem strchr_eq (hz : 0 ∉ s.takeWhile (· ≠ d)) :
    strchr d s = if d ∈ s then some (s.takeWhile (· ≠ d)).length else none := by
  induction s with
  | nil => rfl
  | cons b s ih =>
    unfold strchr
    by_cases hb : b = d
    · simp [hb]
    · have hline : (b :: s).takeWhile (· ≠ d) = b :: s.takeWhile (· ≠ d) :=
        List.takeWhile_cons_of_pos (decide_eq_true hb)
      rw [hline] at hz ⊢
      have hb0 : b ≠ 0 := by
        rintro rfl
        exact hz List.mem_cons_self
      have hrest := ih (fun h0 => hz (List.mem_cons_of_mem _ h0))
      rw [if_neg hb, if_neg hb0, hrest]
      have hmem : d ∈ b :: s ↔ d ∈ s := by
        rw [List.mem_cons]
        exact ⟨fun h => h.resolve_left (fun h => hb h.symm), Or.inr⟩
      by_cases hd : d ∈ s
      · rw [if_pos hd, if_pos (hmem.mpr hd)]
        rfl
      · rw [if_neg hd, if_neg (fun h => hd (hmem.mp h))]
        rfl

theorem takeWhile_prefix_append (P : UInt8 → Bool) (s x : Bytes) :
    s.takeWhile P <+: (s ++ x).takeWhile P := by
  induction s with
  | nil => exact List.nil_prefix
  | cons b s ih =>
    rw [List.cons_append]
    by_cases hb : P b = true
    · rw [List.takeWhile_cons_of_pos hb, List.takeWhile_cons_of_pos hb]
      exact List.cons_prefix_cons.mpr ⟨rfl, ih⟩
    · rw [List.takeWhile_cons_of_neg hb]
      exact List.nil_prefix

def Effect.stops (e : Effect) : Bool := e.closeAfterReply || e.closeAsap || e.blocked

structure Parser where
  input : Bytes
  taken : ℕ
  reqtype : Option ReqType
  multibulklen : ℕ
  bulklen : Option ℕ
  argv : List Bytes
  ready : Bool
  error : Option ProtocolError
  closed : Bool
  executed : List (List Bytes × ℕ)

def Parser.feed (p : Parser) (x : Bytes) : Parser := { p with input := p.input ++ x }

def Parser.fail (p : Parser) (e : ProtocolError) : Parser :=
  { p with
    error := some e
    closed := true }

def Parser.take (p : Parser) (n : ℕ) : Parser :=
  { p with
    input := p.input.drop n
    taken := p.taken + n }

def Parser.reset (p : Parser) : Parser :=
  { p with
    reqtype := none
    multibulklen := 0
    bulklen := none
    argv := []
    ready := false }

def Parser.finish (cfg : Config) (p : Parser) : Parser :=
  if cfg.gopherEnabled && decide (p.reqtype = some .inline) &&
      (decide (p.argv = []) || (decide (p.argv.length = 1) && decide ((p.argv.headD []).head? = some 47))) then
    { p.reset with closed := true }
  else if p.argv = [] then p.reset
  else if isQuit p.argv then
    { p with
      ready := false
      closed := true }
  else
    { p.reset with
      executed := p.executed ++ [(p.argv, p.taken)]
      closed := (cfg.effect (p.executed.map Prod.fst) p.argv).stops }

def Parser.inlineLine (master : Bool) (p : Parser) (newline : ℕ) : Parser :=
  match sdssplitargs (withoutCr (p.input.take newline)) with
  | none => p.fail .unbalancedQuotes
  | some argv =>
    if withoutCr (p.input.take newline) ≠ [] ∧ master then p.fail .inlineFromMaster
    else { p.take (newline + 1) with
      argv := argv
      ready := true }

def Parser.multibulkLine (p : Parser) (newline : ℕ) : Parser :=
  match string2ll ((p.input.take newline).drop 1) with
  | none => p.fail .invalidMultibulkLength
  | some ll =>
    if ll > 1024 * 1024 then p.fail .invalidMultibulkLength
    else if ll ≤ 0 then { p.take (newline + 2) with ready := true }
    else { p.take (newline + 2) with
      multibulklen := ll.toNat
      argv := [] }

def Parser.bulkLine (cfg : Config) (master : Bool) (p : Parser) (newline : ℕ) : Parser :=
  if p.input.headD 0 ≠ 36 then p.fail (.expectedDollar (p.input.headD 0))
  else
    match string2ll ((p.input.take newline).drop 1) with
    | none => p.fail .invalidBulkLength
    | some ll =>
      if ll < 0 ∨ (master = false ∧ ll > cfg.protoMaxBulkLen) then p.fail .invalidBulkLength
      else { p.take (newline + 2) with bulklen := some ll.toNat }

def Parser.bulk (p : Parser) (len : ℕ) : Parser :=
  { p.take (len + 2) with
    argv := p.argv ++ [p.input.take len]
    bulklen := none
    multibulklen := p.multibulklen - 1
    ready := decide (p.multibulklen = 1) }

def lineEnd (s : Bytes) : Option ℕ := (strchr 13 s).filter (fun newline => newline + 2 ≤ s.length)

def Parser.step (cfg : Config) (master : Bool) (p : Parser) : Option Parser :=
  if p.closed then none
  else if p.ready then some (p.finish cfg)
  else
    match p.reqtype with
    | none =>
      p.input.head?.map (fun (b : UInt8) => { p with reqtype := if b = 42 then some .multibulk else some .inline })
    | some .inline => (strchr 10 p.input).map (p.inlineLine master)
    | some .multibulk =>
      if p.multibulklen = 0 then (lineEnd p.input).map p.multibulkLine
      else
        match p.bulklen with
        | none => (lineEnd p.input).map (p.bulkLine cfg master)
        | some len =>
          if len + 2 ≤ cfg.clientMaxQuerybufLen ∧ len + 2 ≤ p.input.length then some (p.bulk len) else none

@[simp] theorem feed_input (p : Parser) (x : Bytes) : (p.feed x).input = p.input ++ x := rfl

theorem take_feed (hn : n ≤ p.input.length) (x : Bytes) : (p.feed x).take n = (p.take n).feed x := by
  unfold Parser.take Parser.feed
  dsimp only
  rw [List.drop_append_of_le_length hn]

theorem finish_feed (p : Parser) (x : Bytes) : (p.feed x).finish cfg = (p.finish cfg).feed x := by
  unfold Parser.finish Parser.feed Parser.reset
  split_ifs <;> rfl

theorem inlineLine_feed (hn : n < p.input.length) (x : Bytes) :
    (p.feed x).inlineLine master n = (p.inlineLine master n).feed x := by
  unfold Parser.inlineLine
  rw [feed_input, List.take_append_of_le_length hn.le]
  cases sdssplitargs (withoutCr (p.input.take n)) with
  | none => rfl
  | some argv =>
    dsimp only
    rw [take_feed hn]
    split_ifs <;> rfl

theorem multibulkLine_feed (hn : n + 2 ≤ p.input.length) (x : Bytes) :
    (p.feed x).multibulkLine n = (p.multibulkLine n).feed x := by
  unfold Parser.multibulkLine
  rw [feed_input, List.take_append_of_le_length (by omega)]
  cases string2ll ((p.input.take n).drop 1) with
  | none => rfl
  | some ll =>
    dsimp only
    rw [take_feed hn]
    split_ifs <;> rfl

theorem bulkLine_feed (hn : n + 2 ≤ p.input.length) (x : Bytes) :
    (p.feed x).bulkLine cfg master n = (p.bulkLine cfg master n).feed x := by
  have hhead : (p.input ++ x).headD 0 = p.input.headD 0 := by
    cases hp : p.input with
    | nil =>
      rw [hp] at hn
      cases hn
    | cons b s => rfl
  unfold Parser.bulkLine
  rw [feed_input, hhead, List.take_append_of_le_length (by omega)]
  by_cases hd : p.input.headD 0 ≠ 36
  · rw [if_pos hd, if_pos hd]
    rfl
  · rw [if_neg hd, if_neg hd]
    cases string2ll ((p.input.take n).drop 1) with
    | none => rfl
    | some ll =>
      dsimp only
      rw [take_feed hn]
      split_ifs <;> rfl

theorem bulk_feed (hn : n + 2 ≤ p.input.length) (x : Bytes) : (p.feed x).bulk n = (p.bulk n).feed x := by
  unfold Parser.bulk
  rw [feed_input, List.take_append_of_le_length (by omega), take_feed hn]
  rfl

theorem lineEnd_some : lineEnd s = some n ↔ strchr 13 s = some n ∧ n + 2 ≤ s.length := by
  unfold lineEnd
  rw [Option.filter_eq_some_iff, decide_eq_true_iff]

theorem lineEnd_append (h : lineEnd s = some n) (x : Bytes) : lineEnd (s ++ x) = some n := by
  obtain ⟨hchr, hlen⟩ := lineEnd_some.1 h
  apply lineEnd_some.2
  rw [List.length_append]
  exact ⟨strchr_append hchr x, by omega⟩

theorem step_feed (h : p.step cfg master = some q) (x : Bytes) :
    (p.feed x).step cfg master = some (q.feed x) := by
  unfold Parser.step at h ⊢
  by_cases hclosed : p.closed = true
  · rw [if_pos hclosed] at h
    cases h
  by_cases hready : p.ready = true
  · rw [if_neg hclosed, if_pos hready] at h
    rw [if_neg (show ¬ (p.feed x).closed = true from hclosed), if_pos (show (p.feed x).ready = true from hready),
      finish_feed, Option.some.inj h]
  rw [if_neg hclosed, if_neg hready] at h
  rw [if_neg (show ¬ (p.feed x).closed = true from hclosed),
    if_neg (show ¬ (p.feed x).ready = true from hready)]
  show (match p.reqtype with | none => _ | some .inline => _ | some .multibulk => _) = _
  cases hreq : p.reqtype with
  | none =>
    rw [hreq] at h
    dsimp only at h ⊢
    cases hp : p.input with
    | nil =>
      rw [hp] at h
      cases h
    | cons b s =>
      rw [hp] at h
      rw [feed_input, hp]
      rw [← Option.some.inj h]
      rfl
  | some t =>
    rw [hreq] at h
    cases t with
    | inline =>
      dsimp only at h ⊢
      obtain ⟨newline, hn, rfl⟩ := map_eq_some_iff.mp h
      rw [feed_input, strchr_append hn, map_some, inlineLine_feed (strchr_lt hn)]
    | multibulk =>
      dsimp only at h ⊢
      show (if p.multibulklen = 0 then _ else _) = _
      by_cases hm : p.multibulklen = 0
      · rw [if_pos hm] at h ⊢
        obtain ⟨newline, hn, rfl⟩ := map_eq_some_iff.mp h
        rw [feed_input, lineEnd_append hn, map_some, multibulkLine_feed (lineEnd_some.1 hn).2]
      · rw [if_neg hm] at h ⊢
        show (match p.bulklen with | none => _ | some len => _) = _
        cases hb : p.bulklen with
        | none =>
          rw [hb] at h
          dsimp only at h ⊢
          obtain ⟨newline, hn, rfl⟩ := map_eq_some_iff.mp h
          rw [feed_input, lineEnd_append hn, map_some, bulkLine_feed (lineEnd_some.1 hn).2]
        | some len =>
          rw [hb] at h
          dsimp only at h ⊢
          by_cases hlen : len + 2 ≤ cfg.clientMaxQuerybufLen ∧ len + 2 ≤ p.input.length
          · rw [if_pos hlen] at h
            rw [feed_input, List.length_append, if_pos ⟨hlen.1, by omega⟩, bulk_feed hlen.2,
              Option.some.inj h]
          · rw [if_neg hlen] at h
            cases h

theorem parser_fed (cfg : Config) (master : Bool) : Fed (Parser.step cfg master) Parser.feed := by
  refine ⟨fun p q x h => step_feed h x, fun p => ?_, fun p x y => ?_⟩
  · unfold Parser.feed
    rw [List.append_nil]
  · unfold Parser.feed
    rw [List.append_assoc]

end RedisCore.Request
