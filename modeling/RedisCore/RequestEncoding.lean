import RedisCore.RequestReads

namespace RedisCore.Request
open List (append_assoc length_append length_cons mem_cons mem_cons_of_mem mem_cons_self
  prefix_append)

open StateTransition StreamMachine

variable {cfg : Config} {master : Bool} {p q : Parser} {d : UInt8} {fits : Prop}
  {E done : List (List Bytes × ℕ)}

def encodeLine (lead : UInt8) (n : ℕ) : Bytes := lead :: decimal n ++ [13, 10]

def encodeBulk (arg : Bytes) : Bytes := encodeLine 36 arg.length ++ arg ++ [13, 10]

def encodeCommand (argv : List Bytes) : Bytes := encodeLine 42 argv.length ++ argv.flatMap encodeBulk

inductive Item where
  | command (argv : List Bytes)
  | newline

def Item.encode : Item → Bytes
  | .command argv => encodeCommand argv
  | .newline => [10]

/-- What the parser takes as a command. -/
def Item.WellFormed (cfg : Config) (master : Bool) : Item → Prop
  | .command argv => argv ≠ [] ∧ argv.length ≤ 1024 * 1024 ∧
      ∀ arg ∈ argv, arg.length < 2 ^ 63 ∧ (master = false → arg.length ≤ cfg.protoMaxBulkLen)
  | .newline => True

def Item.Fits (cfg : Config) : Item → Prop
  | .command argv => ∀ arg ∈ argv, arg.length + 2 ≤ cfg.clientMaxQuerybufLen
  | .newline => cfg.gopherEnabled = false

/-- A command that is handled, and after which its client goes on. -/
def Quiet (cfg : Config) (before : List (List Bytes)) (argv : List Bytes) : Prop :=
  isQuit argv = false ∧ (cfg.effect before argv).stops = false

def Calm (cfg : Config) (cmds : List (List Bytes)) : Prop :=
  ∀ before argv, before ++ [argv] <+: cmds → Quiet cfg before argv

/-- The client was closed or blocked, or it is too big. -/
def Halted (cfg : Config) (p : Parser) : Prop :=
  Stuck cfg p ∧ (p.closed = false → cfg.clientMaxQuerybufLen < p.input.length)

def encodeItems (items : List Item) : Bytes := items.flatMap Item.encode

def completed : ℕ → List Item → List (List Bytes × ℕ)
  | _, [] => []
  | t, .newline :: items => completed (t + 1) items
  | t, .command argv :: items =>
    (argv, t + (encodeCommand argv).length) :: completed (t + (encodeCommand argv).length) items

theorem decimalNat_digits (n : ℕ) : ∀ b ∈ decimalNat n, 48 ≤ b.toNat ∧ b.toNat ≤ 57 := by
  induction n using Nat.strong_induction_on with
  | _ n ih =>
    have hdigit : ∀ m < 10, 48 ≤ (UInt8.ofNat (48 + m)).toNat ∧ (UInt8.ofNat (48 + m)).toNat ≤ 57 := by
      intro m hm
      have hval : (UInt8.ofNat (48 + m)).toNat = (48 + m) % 256 := UInt8.toNat_ofNat'
      omega
    intro b hb
    rw [decimalNat] at hb
    split_ifs at hb with hlt
    · rw [List.mem_singleton.mp hb]
      exact hdigit n hlt
    · rcases List.mem_append.mp hb with hb | hb
      · exact ih (n / 10) (by omega) b hb
      · rw [List.mem_singleton.mp hb]
        exact hdigit (n % 10) (Nat.mod_lt n (by omega))

variable {n newline taken : ℕ} {rest : Bytes} {lead : UInt8} {argv : List Bytes}

theorem decimal_mem {b : UInt8} (hb : b ∈ decimal n) : b ≠ 13 ∧ b ≠ 0 := by
  rw [decimal_natCast] at hb
  have hrange := decimalNat_digits n b hb
  constructor
  · rintro rfl
    exact absurd hrange.1 (by decide)
  · rintro rfl
    exact absurd hrange.1 (by decide)

theorem line_takeWhile {w : Bytes} (hw : ∀ b ∈ w, b ≠ d) : (w ++ d :: rest).takeWhile (· ≠ d) = w
    := by
  induction w with
  | nil =>
    rw [List.nil_append, List.takeWhile_cons_of_neg]
    simp
  | cons b w ih =>
    have hcons : (b :: (w ++ d :: rest)).takeWhile (· ≠ d) = b :: (w ++ d :: rest).takeWhile (· ≠ d) :=
      List.takeWhile_cons_of_pos (decide_eq_true (hw b mem_cons_self))
    rw [List.cons_append, hcons, ih (fun x hx => hw x (mem_cons_of_mem _ hx))]

structure NumberLine (lead : UInt8) (n : ℕ) (rest : Bytes) (newline : ℕ) : Prop where
  line : (encodeLine lead n ++ rest).takeWhile (· ≠ 13) = lead :: decimal n
  ended : lineEnd (encodeLine lead n ++ rest) = some newline
  number : ((encodeLine lead n ++ rest).take newline).drop 1 = decimal n
  rest : (encodeLine lead n ++ rest).drop (newline + 2) = rest
  length : newline + 2 = (encodeLine lead n).length
  short : newline ≤ 21

theorem encodeLine_number (hlead : lead ≠ 13 ∧ lead ≠ 0) (hn : n < 2 ^ 63)
    (rest : Bytes) : NumberLine lead n rest (decimal n).length.succ := by
  have hform : encodeLine lead n ++ rest = (lead :: decimal n) ++ 13 :: (10 :: rest) := by
    unfold encodeLine
    simp
  have hbytes : ∀ b ∈ lead :: decimal n, b ≠ 13 ∧ b ≠ 0 := by
    intro b hb
    rcases mem_cons.mp hb with rfl | hb
    · exact hlead
    · exact decimal_mem hb
  have hline : (encodeLine lead n ++ rest).takeWhile (· ≠ 13) = lead :: decimal n := by
    rw [hform]
    exact line_takeWhile (fun b hb => (hbytes b hb).1)
  have hlen : (lead :: decimal n).length = (decimal n).length.succ := length_cons
  refine ⟨hline, ?_, ?_, ?_, ?_, ?_⟩
  · apply lineEnd_some.2
    constructor
    · have hz : 0 ∉ (encodeLine lead n ++ rest).takeWhile (· ≠ 13) := by
        rw [hline]
        exact fun h0 => (hbytes 0 h0).2 rfl
      have hmem : (13 : UInt8) ∈ encodeLine lead n ++ rest := by
        rw [hform]
        exact List.mem_append_right _ mem_cons_self
      rw [strchr_eq hz, if_pos hmem, hline, hlen]
    · rw [hform, length_append, hlen, length_cons, length_cons]
      omega
  · rw [hform, ← hlen, List.take_left]
    rfl
  · have hskip : (lead :: decimal n) ++ 13 :: (10 :: rest) = ((lead :: decimal n) ++ [13, 10]) ++ rest := by
      simp
    have hlen2 : (decimal n).length.succ + 2 = ((lead :: decimal n) ++ [13, 10]).length := by
      simp
    rw [hform, hskip, hlen2, List.drop_left]
  · unfold encodeLine
    simp
  · have := (decimal_length (v := n) (by omega) (by omega)).2
    omega

theorem bulkLine_number (hline : NumberLine 36 n rest newline)
    (hinput : p.input = encodeLine 36 n ++ rest) (hn : n < 2 ^ 63)
    (hmax : master = false → n ≤ cfg.protoMaxBulkLen) :
    p.bulkLine cfg master newline = { p.take (newline + 2) with bulklen := some n } := by
  have hdollar : ¬ (encodeLine 36 n ++ rest).headD 0 ≠ 36 := fun hne => hne rfl
  have hgood : ¬ ((n : ℤ) < 0 ∨ (master = false ∧ (n : ℤ) > cfg.protoMaxBulkLen)) := by
    rintro (hneg | ⟨hm, hbig⟩)
    · omega
    · have := hmax hm
      omega
  unfold Parser.bulkLine
  rw [hinput, if_neg hdollar, hline.number, string2ll_decimal (by omega) (by omega)]
  dsimp only
  rw [if_neg hgood, Int.toNat_natCast]

theorem multibulkLine_number (hline : NumberLine 42 n rest newline)
    (hinput : p.input = encodeLine 42 n ++ rest) (hpos : 0 < n) (hn : n ≤ 1024 * 1024) :
    p.multibulkLine newline = { p.take (newline + 2) with
      multibulklen := n
      argv := [] } := by
  unfold Parser.multibulkLine
  rw [hinput, hline.number, string2ll_decimal (by omega) (by omega)]
  dsimp only
  rw [if_neg (by omega), if_neg (by omega), Int.toNat_natCast]

structure Goes (cfg : Config) (master : Bool) (fits : Prop) (E : List (List Bytes × ℕ)) (p : Parser) :
    Prop where
  short : ShortLines cfg master p
  stops : ∃ q, Reaches (Parser.step cfg master) p q ∧ q.step cfg master = none ∧ q.error = none ∧
    q.executed <+: E ∧ (Halted cfg q ∨ q.executed = E) ∧ (fits → q.executed = E)

theorem Goes.step (h : Goes cfg master fits E q) (hshort : ShortLine p) (hstep : p.step cfg master = some q) :
    Goes cfg master fits E p := by
  obtain ⟨r, hrun, hstop⟩ := h.stops
  refine ⟨reaches_cases hshort (fun b hb => ?_), r, Relation.ReflTransGen.head hstep hrun, hstop⟩
  rw [hstep] at hb
  rw [← Option.some.inj hb]
  exact h.short

theorem Goes.stop (hshort : ShortLine p) (hstop : p.step cfg master = none) (herror : p.error = none)
    (hinit : p.executed <+: E) (hhalted : Halted cfg p ∨ p.executed = E) (hall : fits → p.executed = E) :
    Goes cfg master fits E p := by
  refine ⟨reaches_cases hshort (fun b hb => ?_), p, Relation.ReflTransGen.refl, hstop, herror, hinit,
    hhalted, hall⟩
  rw [hstop] at hb
  cases hb

theorem shortLine_of_none (h : p.delimiter = none) : ShortLine p := by
  intro d hd
  rw [h] at hd
  cases hd

theorem shortLine_of_number (hlead : lead ≠ 13 ∧ lead ≠ 0) (hline : NumberLine lead n rest newline)
    (hinput : p.input = encodeLine lead n ++ rest)
    (hdelim : p.delimiter = some 13) : ShortLine p := by
  intro d hd
  rw [hdelim] at hd
  rw [← Option.some.inj hd, hinput, hline.line]
  constructor
  · have hlen := hline.length
    have hshort := hline.short
    unfold encodeLine at hlen
    simp only [List.cons_append, length_cons, length_append, List.length_nil] at hlen ⊢
    unfold PROTO_INLINE_MAX_SIZE
    omega
  · intro h0
    rcases mem_cons.mp h0 with h0 | h0
    · exact hlead.2 h0.symm
    · exact (decimal_mem h0).2 rfl

theorem Goes.closed (hclosed : p.closed = true) (herror : p.error = none) (hinit : p.executed <+: E)
    (hnever : ¬fits) : Goes cfg master fits E p := by
  refine Goes.stop (shortLine_of_none ?_) (step_closed hclosed) herror hinit
    (Or.inl ⟨Or.inl hclosed, fun hopen => ?_⟩) (fun hf => absurd hf hnever)
  · unfold Parser.delimiter
    exact if_pos (Or.inl hclosed)
  · rw [hclosed] at hopen
    cases hopen

def between (input : Bytes) (taken : ℕ) (done : List (List Bytes × ℕ)) : Parser :=
  { input := input
    taken := taken
    reqtype := none
    multibulklen := 0
    bulklen := none
    argv := []
    ready := false
    error := none
    closed := false
    executed := done }

def withArgs (input : Bytes) (taken missing : ℕ) (argv : List Bytes) (done : List (List Bytes × ℕ)) :
    Parser :=
  { between input taken done with
    reqtype := some .multibulk
    multibulklen := missing
    argv := argv
    ready := decide (missing = 0) }

theorem Calm.quiet {taken : ℕ} (h : Calm cfg (E.map Prod.fst)) (hdone : done ++ [(argv, taken)] <+: E) :
    Quiet cfg (done.map Prod.fst) argv := by
  have hmap := hdone.map Prod.fst
  rw [List.map_append] at hmap
  exact h _ _ hmap

theorem withArgs_goes_done {input : Bytes} (hargv : argv ≠ []) (hdone : done ++ [(argv, taken)] <+: E)
    (hcalm : fits → Calm cfg (E.map Prod.fst))
    (h : Goes cfg master fits E (between input taken (done ++ [(argv, taken)]))) :
    Goes cfg master fits E (withArgs input taken 0 argv done) := by
  refine Goes.step ?_ (shortLine_of_none ?_) (step_ready rfl rfl)
  · unfold Parser.finish
    have hnot : (cfg.gopherEnabled && decide ((withArgs input taken 0 argv done).reqtype = some .inline) &&
        (decide ((withArgs input taken 0 argv done).argv = []) ||
          (decide ((withArgs input taken 0 argv done).argv.length = 1) &&
            decide (((withArgs input taken 0 argv done).argv.headD []).head? = some 47)))) = false := by
      have hreq : decide ((withArgs input taken 0 argv done).reqtype = some .inline) = false := rfl
      rw [hreq, Bool.and_false, Bool.false_and]
    rw [hnot, if_neg Bool.false_ne_true, if_neg (show ¬ (withArgs input taken 0 argv done).argv = [] from hargv)]
    show Goes cfg master fits E (if isQuit argv = true then _ else _)
    by_cases hquit : isQuit argv = true
    · rw [if_pos hquit]
      refine Goes.closed rfl rfl ((prefix_append done _).trans hdone) (fun hf => ?_)
      have hgoes := ((hcalm hf).quiet hdone).1
      rw [hquit] at hgoes
      cases hgoes
    rw [if_neg hquit]
    show Goes cfg master fits E { between input taken (done ++ [(argv, taken)]) with
      closed := (cfg.effect (done.map Prod.fst) argv).stops }
    cases hstops : (cfg.effect (done.map Prod.fst) argv).stops with
    | true =>
      refine Goes.closed rfl rfl hdone (fun hf => ?_)
      have hgoes := ((hcalm hf).quiet hdone).2
      rw [hstops] at hgoes
      cases hgoes
    | false => exact h
  · unfold Parser.delimiter
    exact if_pos (Or.inr rfl)

theorem withArgs_goes (args : List Bytes) : ∀ (taken : ℕ) (argv : List Bytes) (rest : Bytes),
    (∀ arg ∈ args, arg.length < 2 ^ 63 ∧ (master = false → arg.length ≤ cfg.protoMaxBulkLen)) →
    (fits → ∀ arg ∈ args, arg.length + 2 ≤ cfg.clientMaxQuerybufLen) → argv ++ args ≠ [] →
    done ++ [(argv ++ args, taken + (args.flatMap encodeBulk).length)] <+: E →
    (fits → Calm cfg (E.map Prod.fst)) →
    Goes cfg master fits E (between rest (taken + (args.flatMap encodeBulk).length)
      (done ++ [(argv ++ args, taken + (args.flatMap encodeBulk).length)])) →
    Goes cfg master fits E (withArgs (args.flatMap encodeBulk ++ rest) taken args.length argv done) := by
  induction args with
  | nil =>
    intro taken argv rest _ _ hne hdone hcalm h
    rw [List.append_nil] at hne hdone h
    exact withArgs_goes_done hne hdone hcalm h
  | cons arg args ih =>
    intro taken argv rest hvalid hfits hne hdone hcalm h
    obtain ⟨hsize, hmax⟩ := hvalid arg mem_cons_self
    have hlead : (36 : UInt8) ≠ 13 ∧ (36 : UInt8) ≠ 0 := by decide
    have hline := encodeLine_number hlead hsize (arg ++ 13 :: 10 :: (args.flatMap encodeBulk ++ rest))
    have hinput : (arg :: args).flatMap encodeBulk ++ rest =
        encodeLine 36 arg.length ++ (arg ++ 13 :: 10 :: (args.flatMap encodeBulk ++ rest)) := by
      unfold encodeBulk
      simp
    have hbulkLen : (encodeBulk arg).length = (decimal arg.length).length.succ + 2 + (arg.length + 2) := by
      rw [hline.length]
      unfold encodeBulk
      simp
    rw [hinput]
    -- the header of the argument
    let p1 : Parser := { withArgs (arg ++ 13 :: 10 :: (args.flatMap encodeBulk ++ rest))
        (taken + ((decimal arg.length).length.succ + 2)) (arg :: args).length argv done with
      bulklen := some arg.length }
    have hstep1 : (withArgs (encodeLine 36 arg.length ++ (arg ++ 13 :: 10 :: (args.flatMap encodeBulk ++ rest)))
        taken (arg :: args).length argv done).step cfg master = some p1 := by
      rw [step_bulkLine _ _ rfl rfl rfl (Nat.succ_ne_zero _) rfl]
      show (lineEnd (encodeLine 36 arg.length ++ _)).map _ = _
      rw [hline.ended, Option.map_some, bulkLine_number hline rfl hsize hmax]
      unfold Parser.take
      simp only [p1, withArgs, between, hline.rest]
    have hshort0 : ShortLine (withArgs (encodeLine 36 arg.length ++
        (arg ++ 13 :: 10 :: (args.flatMap encodeBulk ++ rest))) taken (arg :: args).length argv done) :=
      shortLine_of_number hlead hline rfl (delimiter_multibulk rfl rfl rfl (Or.inr rfl))
    refine Goes.step ?_ hshort0 hstep1
    have hshort1 : ShortLine p1 := by
      apply shortLine_of_none
      unfold Parser.delimiter
      rfl
    have hlen1 : arg.length + 2 ≤ p1.input.length := by
      show arg.length + 2 ≤ (arg ++ 13 :: 10 :: (args.flatMap encodeBulk ++ rest)).length
      rw [length_append, length_cons, length_cons]
      omega
    have hstep1' := step_bulk cfg master (p := p1) rfl rfl rfl (Nat.succ_ne_zero _) rfl
    by_cases hroom : arg.length + 2 ≤ cfg.clientMaxQuerybufLen
    · rw [if_pos ⟨hroom, hlen1⟩] at hstep1'
      refine Goes.step ?_ hshort1 hstep1'
      have hnext : p1.bulk arg.length = withArgs (args.flatMap encodeBulk ++ rest)
          (taken + (encodeBulk arg).length) args.length (argv ++ [arg]) done := by
        have hdrop : (arg ++ 13 :: 10 :: (args.flatMap encodeBulk ++ rest)).drop (arg.length + 2) =
            args.flatMap encodeBulk ++ rest := by
          rw [← List.drop_drop, List.drop_left]
          rfl
        unfold Parser.bulk Parser.take
        simp only [p1, withArgs, between, hdrop, List.take_left, hbulkLen, length_cons,
          Nat.add_sub_cancel, Nat.add_assoc]
        simp
      rw [hnext]
      have htotal : taken + (encodeBulk arg).length + (args.flatMap encodeBulk).length =
          taken + ((arg :: args).flatMap encodeBulk).length := by
        rw [List.flatMap_cons, length_append, Nat.add_assoc]
      have hsplit : argv ++ [arg] ++ args = argv ++ arg :: args := by
        rw [append_assoc]
        rfl
      apply ih
      · exact fun a ha => hvalid a (mem_cons_of_mem _ ha)
      · exact fun hf a ha => hfits hf a (mem_cons_of_mem _ ha)
      · rw [hsplit]
        exact hne
      · rw [htotal, hsplit]
        exact hdone
      · exact hcalm
      · rw [htotal, hsplit]
        exact h
    · rw [if_neg (fun hgo => hroom hgo.1)] at hstep1'
      have hbig := not_le.mp hroom
      refine Goes.stop hshort1 hstep1' rfl ((prefix_append done _).trans hdone) (Or.inl ⟨?_, fun _ => ?_⟩)
        (fun hf => absurd (hfits hf arg mem_cons_self) hroom)
      · exact Or.inr ⟨rfl, Nat.succ_ne_zero _, arg.length, rfl, hbig⟩
      · exact hbig.trans_le hlen1

theorem command_goes (hvalid : (Item.command argv).WellFormed cfg master)
    (hfits : fits → (Item.command argv).Fits cfg)
    (hdone : done ++ [(argv, taken + (encodeCommand argv).length)] <+: E)
    (hcalm : fits → Calm cfg (E.map Prod.fst))
    (h : Goes cfg master fits E (between rest (taken + (encodeCommand argv).length)
      (done ++ [(argv, taken + (encodeCommand argv).length)]))) :
    Goes cfg master fits E (between (encodeCommand argv ++ rest) taken done) := by
  obtain ⟨hne, hcount, hargs⟩ := hvalid
  have hpos := List.length_pos_iff.mpr hne
  have hlead : (42 : UInt8) ≠ 13 ∧ (42 : UInt8) ≠ 0 := by decide
  have hline := encodeLine_number hlead (n := argv.length) (by omega) (argv.flatMap encodeBulk ++ rest)
  have hinput : encodeCommand argv ++ rest =
      encodeLine 42 argv.length ++ (argv.flatMap encodeBulk ++ rest) := by
    unfold encodeCommand
    rw [append_assoc]
  have htotal : taken + ((decimal argv.length).length.succ + 2) + (argv.flatMap encodeBulk).length =
      taken + (encodeCommand argv).length := by
    rw [hline.length, Nat.add_assoc, ← length_append]
    rfl
  rw [hinput]
  let p1 : Parser := { between (encodeLine 42 argv.length ++ (argv.flatMap encodeBulk ++ rest)) taken done with
    reqtype := some .multibulk }
  have hstep0 : (between (encodeLine 42 argv.length ++ (argv.flatMap encodeBulk ++ rest)) taken done).step
      cfg master = some p1 := rfl
  refine Goes.step ?_ (shortLine_of_none rfl) hstep0
  have hstep1 : p1.step cfg master = some (withArgs (argv.flatMap encodeBulk ++ rest)
      (taken + ((decimal argv.length).length.succ + 2)) argv.length [] done) := by
    rw [step_multibulk _ _ rfl rfl rfl rfl]
    show (lineEnd (encodeLine 42 argv.length ++ _)).map _ = _
    rw [hline.ended, Option.map_some, multibulkLine_number hline rfl hpos hcount]
    unfold Parser.take
    have hready : decide (argv.length = 0) = false := decide_eq_false (by omega)
    simp only [p1, withArgs, between, hline.rest, hready]
  refine Goes.step ?_ (shortLine_of_number hlead hline rfl (delimiter_multibulk rfl rfl rfl (Or.inl rfl))) hstep1
  apply withArgs_goes
  · exact hargs
  · exact hfits
  · exact hne
  · rw [htotal]
    exact hdone
  · exact hcalm
  · rw [htotal]
    exact h

theorem sdssplitargs_nil : sdssplitargs [] = some [] := by
  unfold sdssplitargs
  rw [splitTokens]
  rfl

theorem newline_goes (hfits : fits → Item.newline.Fits cfg) (hdone : done <+: E)
    (h : Goes cfg master fits E (between rest (taken + 1) done)) :
    Goes cfg master fits E (between (10 :: rest) taken done) := by
  let p1 : Parser := { between (10 :: rest) taken done with reqtype := some .inline }
  let p2 : Parser := { between rest (taken + 1) done with
    reqtype := some .inline
    ready := true }
  have hstep0 : (between (10 :: rest) taken done).step cfg master = some p1 := rfl
  have hstep1 : p1.step cfg master = some p2 := by
    rw [step_inline _ _ rfl rfl rfl]
    show (strchr 10 (10 :: rest)).map _ = _
    have hchr : strchr 10 (10 :: rest) = some 0 := rfl
    rw [hchr, Option.map_some]
    show some (p1.inlineLine master 0) = _
    have hargs : sdssplitargs (withoutCr (p1.input.take 0)) = some [] := sdssplitargs_nil
    rw [Parser.inlineLine, hargs]
    rfl
  have hshort1 : ShortLine p1 := by
    intro d hd
    rw [delimiter_inline rfl rfl rfl] at hd
    rw [← Option.some.inj hd]
    have hline : p1.input.takeWhile (· ≠ 10) = [] := rfl
    rw [hline]
    exact ⟨Nat.zero_le _, List.not_mem_nil⟩
  refine Goes.step (Goes.step ?_ hshort1 hstep1) (shortLine_of_none rfl) hstep0
  have hshort2 : ShortLine p2 := by
    apply shortLine_of_none
    unfold Parser.delimiter
    exact if_pos (Or.inr rfl)
  have hstep2 : p2.step cfg master = some (p2.finish cfg) := step_ready rfl rfl
  refine Goes.step ?_ hshort2 hstep2
  unfold Parser.finish
  cases hg : cfg.gopherEnabled with
  | true =>
    -- a request for Gopher closes the connection
    refine Goes.closed rfl rfl hdone (fun hf => ?_)
    have := hfits hf
    unfold Item.Fits at this
    rw [hg] at this
    cases this
  | false => exact h

variable (cfg master fits) in
theorem items_goes (items : List Item) : ∀ (taken : ℕ) (done : List (List Bytes × ℕ)),
    (∀ item ∈ items, item.WellFormed cfg master) → (fits → ∀ item ∈ items, item.Fits cfg) →
    (fits → Calm cfg ((done ++ completed taken items).map Prod.fst)) →
    Goes cfg master fits (done ++ completed taken items) (between (encodeItems items) taken done) := by
  induction items with
  | nil =>
    intro taken done _ _ _
    have hall : done = done ++ completed taken [] := (List.append_nil done).symm
    exact Goes.stop (shortLine_of_none rfl) rfl rfl (prefix_append done _) (Or.inr hall) (fun _ => hall)
  | cons item items ih =>
    intro taken done hvalid hfits hcalm
    have hvalid' := fun i hi => hvalid i (mem_cons_of_mem _ hi)
    have hfits' := fun hf i hi => hfits hf i (mem_cons_of_mem _ hi)
    have hitem := hvalid item mem_cons_self
    have hfit := fun hf => hfits hf item mem_cons_self
    have hinput : encodeItems (item :: items) = item.encode ++ encodeItems items := List.flatMap_cons
    rw [hinput]
    cases item with
    | command argv =>
      have hall : done ++ [(argv, taken + (encodeCommand argv).length)] ++
          completed (taken + (encodeCommand argv).length) items = done ++ completed taken (.command argv :: items) :=
        append_assoc _ _ _
      apply command_goes hitem hfit (hall ▸ prefix_append _ _) hcalm
      rw [← hall] at hcalm ⊢
      exact ih _ _ hvalid' hfits' hcalm
    | newline => exact newline_goes hfit (prefix_append _ _) (ih (taken + 1) done hvalid' hfits' hcalm)

end RedisCore.Request
