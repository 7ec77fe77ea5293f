import RedisCore.InlineArgs

namespace RedisCore.Request
open List (append_assoc append_nil cons_append foldl_cons nil_append)

def hexDigit (n : UInt8) : UInt8 := if n < 10 then 48 + n else 87 + n

def reprByte (isprint : UInt8 → Bool) (b : UInt8) : Bytes :=
  if b = 92 ∨ b = 34 then [92, b]
  else if b = 10 then [92, 110]
  else if b = 13 then [92, 114]
  else if b = 9 then [92, 116]
  else if b = 7 then [92, 97]
  else if b = 8 then [92, 98]
  else if isprint b then [b]
  else [92, 120, hexDigit (b / 16), hexDigit (b % 16)]

def sdscatrepr (isprint : UInt8 → Bool) (s p : Bytes) : Bytes :=
  p.foldl (fun s b => s ++ reprByte isprint b) (s ++ [34]) ++ [34]

theorem sdscatrepr_eq (isprint : UInt8 → Bool) (s p : Bytes) :
    sdscatrepr isprint s p = s ++ (34 :: p.flatMap (reprByte isprint) ++ [34]) := by
  have hfold : ∀ s : Bytes,
      p.foldl (fun s b => s ++ reprByte isprint b) s = s ++ p.flatMap (reprByte isprint) := by
    induction p with
    | nil => simp
    | cons b p ih =>
      intro s
      rw [foldl_cons, ih, List.flatMap_cons, append_assoc]
  unfold sdscatrepr
  rw [hfold]
  simp only [append_assoc, cons_append, nil_append]

/-- The predicate is false on the bytes outside of the printable ones. -/
def PrintsOnly (isprint : UInt8 → Bool) : Prop := ∀ b, isprint b = true → 32 ≤ b ∧ b ≤ 126

set_option maxRecDepth 20000 in
theorem hexDigit_spec (b : UInt8) :
    isHexDigit (hexDigit (b / 16)) = true ∧ isHexDigit (hexDigit (b % 16)) = true ∧
      hexDigitToInt (hexDigit (b / 16)) * 16 + hexDigitToInt (hexDigit (b % 16)) = b := by
  have hall : ∀ n < 256, isHexDigit (hexDigit (UInt8.ofNat n / 16)) = true ∧
      isHexDigit (hexDigit (UInt8.ofNat n % 16)) = true ∧
      hexDigitToInt (hexDigit (UInt8.ofNat n / 16)) * 16 +
        hexDigitToInt (hexDigit (UInt8.ofNat n % 16)) = UInt8.ofNat n := by
    decide
  have h := hall b.toNat (UInt8.toNat_lt b)
  rwa [UInt8.ofNat_toNat] at h

theorem splitToken_escape (current : Bytes) {e : UInt8} (he : e ≠ 120) (rest : Bytes) :
    splitToken .double current (92 :: e :: rest) = splitToken .double (current ++ [unescape e]) rest := by
  cases rest with
  | nil =>
    rw [splitToken.eq_def]
    simp
  | cons h rest =>
    cases rest with
    | nil =>
      rw [splitToken.eq_def]
      simp
    | cons l rest =>
      rw [splitToken.eq_def]
      simp [he]

theorem splitToken_hex (current : Bytes) {h l : UInt8} (hh : isHexDigit h = true)
    (hl : isHexDigit l = true) (rest : Bytes) :
    splitToken .double current (92 :: 120 :: h :: l :: rest) =
      splitToken .double (current ++ [hexDigitToInt h * 16 + hexDigitToInt l]) rest := by
  rw [splitToken.eq_def]
  simp [hh, hl]

variable {b : UInt8} {rest line s blanks : Bytes} {isprint : UInt8 → Bool} {args : List Bytes}
  {state : Lexing}

theorem splitToken_plain (current : Bytes) (hslash : b ≠ 92) (hquote : b ≠ 34) (hrest : rest ≠ []) :
    splitToken .double current (b :: rest) = splitToken .double (current ++ [b]) rest := by
  cases rest with
  | nil => exact absurd rfl hrest
  | cons e rest =>
    rw [splitToken.eq_def]
    simp [hslash, hquote]

theorem splitToken_reprByte (isprint : UInt8 → Bool) (current : Bytes) (b : UInt8)
    (hrest : rest ≠ []) :
    splitToken .double current (reprByte isprint b ++ rest) = splitToken .double (current ++ [b]) rest := by
  unfold reprByte
  split_ifs with hself hn hr ht ha hb hprint
  · rcases hself with h | h
    · rw [h]
      exact splitToken_escape current (by decide) rest
    · rw [h]
      exact splitToken_escape current (by decide) rest
  · rw [hn]
    exact splitToken_escape current (by decide) rest
  · rw [hr]
    exact splitToken_escape current (by decide) rest
  · rw [ht]
    exact splitToken_escape current (by decide) rest
  · rw [ha]
    exact splitToken_escape current (by decide) rest
  · rw [hb]
    exact splitToken_escape current (by decide) rest
  · exact splitToken_plain current (fun h => hself (Or.inl h)) (fun h => hself (Or.inr h)) hrest
  · obtain ⟨hhigh, hlow, hbyte⟩ := hexDigit_spec b
    have hhex := splitToken_hex current hhigh hlow rest
    rw [hbyte] at hhex
    exact hhex

theorem splitToken_quoted (isprint : UInt8 → Bool) (current p : Bytes) (hrest : rest ≠ []) :
    splitToken .double current (p.flatMap (reprByte isprint) ++ rest) =
      splitToken .double (current ++ p) rest := by
  induction p generalizing current with
  | nil => simp
  | cons b p ih =>
    rw [List.flatMap_cons, append_assoc, splitToken_reprByte isprint current b (by simp [hrest]),
      ih, append_assoc, List.singleton_append]

theorem splitToken_sdscatrepr (isprint : UInt8 → Bool) (p rest : Bytes)
    (hrest : ∀ b ∈ rest.head?, isSpace b = true) :
    splitToken .no [] (sdscatrepr isprint [] p ++ rest) = some (p, rest) := by
  have hopen : splitToken .no [] (sdscatrepr isprint [] p ++ rest) =
      splitToken .double [] (p.flatMap (reprByte isprint) ++ 34 :: rest) := by
    rw [sdscatrepr_eq, nil_append, cons_append, cons_append, append_assoc,
      splitToken.eq_def]
    simp
  have hclose : splitToken .double p (34 :: rest) = some (p, rest) := by
    cases rest with
    | nil =>
      rw [splitToken.eq_def]
      simp
    | cons b rest =>
      rw [splitToken.eq_def]
      simp [closeQuotes, hrest b rfl]
  rw [hopen, splitToken_quoted isprint [] p (by simp), nil_append, hclose]

inductive JoinedReprs (isprint : UInt8 → Bool) : List Bytes → Bytes → Prop where
  | none : JoinedReprs isprint [] []
  | one (arg : Bytes) : JoinedReprs isprint [arg] (sdscatrepr isprint [] arg)
  | more (arg blanks line : Bytes) {next : Bytes} {args : List Bytes} (hblanks : blanks ≠ [])
      (hspace : ∀ b ∈ blanks, isSpace b = true) (h : JoinedReprs isprint (next :: args) line) :
      JoinedReprs isprint (arg :: next :: args) (sdscatrepr isprint [] arg ++ blanks ++ line)

theorem splitTokens_token {token : Bytes} {vector : List Bytes}
    (hline : line.dropWhile isSpace = b :: s) (h : splitToken .no [] (b :: s) = some (token, rest))
    :
    splitTokens line vector = splitTokens rest (vector ++ [token]) := by
  rw [splitTokens.eq_def]
  split
  · rename_i hnil
    rw [hline] at hnil
    cases hnil
  · rename_i b' s' hcons
    rw [hline] at hcons
    cases hcons
    split
    · rename_i hnone
      rw [h] at hnone
      cases hnone
    · rename_i token' rest' hsome
      rw [h] at hsome
      cases hsome
      rfl

theorem splitTokens_blanks (hblanks : ∀ b ∈ blanks, isSpace b = true)
    (vector : List Bytes) : splitTokens blanks vector = some vector := by
  have hnil : blanks.dropWhile isSpace = [] := List.dropWhile_eq_nil_iff.mpr hblanks
  rw [splitTokens.eq_def]
  split
  · rfl
  · rename_i b s hbs
    rw [hnil] at hbs
    cases hbs

theorem splitTokens_quoted (isprint : UInt8 → Bool) (hblanks : ∀ b ∈ blanks, isSpace b = true)
    (arg rest : Bytes)
    (hrest : ∀ b ∈ rest.head?, isSpace b = true) (vector : List Bytes) :
    splitTokens (blanks ++ (sdscatrepr isprint [] arg ++ rest)) vector =
      splitTokens rest (vector ++ [arg]) := by
  have hcons : sdscatrepr isprint [] arg ++ rest =
      34 :: (arg.flatMap (reprByte isprint) ++ [34] ++ rest) := by
    rw [sdscatrepr_eq]
    rfl
  have hline : (blanks ++ (sdscatrepr isprint [] arg ++ rest)).dropWhile isSpace =
      34 :: (arg.flatMap (reprByte isprint) ++ [34] ++ rest) := by
    rw [List.dropWhile_append_of_pos hblanks, hcons]
    rfl
  have htoken := splitToken_sdscatrepr isprint arg rest hrest
  rw [hcons] at htoken
  exact splitTokens_token hline htoken

theorem splitTokens_joined (h : JoinedReprs isprint args line) : ∀ (blanks : Bytes)
    (vector : List Bytes),
      (∀ b ∈ blanks, isSpace b = true) →
        splitTokens (blanks ++ line) vector = some (vector ++ args) := by
  induction h with
  | none =>
    intro blanks vector hblanks
    rw [append_nil, append_nil]
    exact splitTokens_blanks hblanks vector
  | one arg =>
    intro blanks vector hblanks
    have hquoted := splitTokens_quoted isprint hblanks arg [] (by simp) vector
    rw [append_nil] at hquoted
    rw [hquoted]
    exact splitTokens_blanks (by simp) (vector ++ [arg])
  | more arg between line hbetween hspace _ ih =>
    intro blanks vector hblanks
    have hhead : ∀ b ∈ (between ++ line).head?, isSpace b = true := by
      cases between with
      | nil => exact absurd rfl hbetween
      | cons b between =>
        intro b' hb'
        simp only [cons_append, List.head?_cons, Option.mem_some_iff] at hb'
        rw [← hb']
        exact hspace b List.mem_cons_self
    rw [append_assoc, splitTokens_quoted isprint hblanks arg _ hhead vector, ih between _ hspace,
      append_assoc, List.singleton_append]

theorem sdssplitargs_joined (h : JoinedReprs isprint args line) : sdssplitargs line = some args :=
  splitTokens_joined h [] [] (by simp)

inductive Lexing where
  | blank
  | word
  | double
  | doubleEscape
  | single
  | singleEscape
  | closed
  | broken
deriving DecidableEq, Repr

def openWord (b : UInt8) : Lexing :=
  if b = 34 then .double else if b = 39 then .single else .word

def lexByte : Lexing → UInt8 → Lexing
  | .blank, b => if isSpace b then .blank else openWord b
  | .word, b => if b = 32 ∨ b = 10 ∨ b = 13 ∨ b = 9 then .blank else openWord b
  | .double, b => if b = 92 then .doubleEscape else if b = 34 then .closed else .double
  | .doubleEscape, _ => .double
  | .single, b => if b = 92 then .singleEscape else if b = 39 then .closed else .single
  -- only a quote is escaped, so that a second backslash may escape the next one
  | .singleEscape, b => if b = 92 then .singleEscape else .single
  | .closed, b => if isSpace b then .blank else .broken
  | .broken, _ => .broken

def lexFrom (state : Lexing) (line : Bytes) : Lexing := line.foldl lexByte state

/-- The tokens that are complete before the line ends or is rejected. -/
def tokensFrom : Lexing → Bytes → ℕ
  | state, [] => if state = .word ∨ state = .closed then 1 else 0
  | state, b :: s =>
    tokensFrom (lexByte state b) s +
      if (state = .word ∨ state = .closed) ∧ lexByte state b = .blank then 1 else 0

def InQuotes (state : Lexing) : Prop :=
  state = .double ∨ state = .doubleEscape ∨ state = .single ∨ state = .singleEscape

def UnterminatedQuote (line : Bytes) : Prop := InQuotes (lexFrom .blank line)

/-- A closing quote with a byte after it that is no blank. -/
def BadClosingQuote (line : Bytes) : Prop :=
  ∃ before b after, line = before ++ b :: after ∧ lexFrom .blank before = .closed ∧ isSpace b = false

theorem lexFrom_broken (line : Bytes) : lexFrom .broken line = .broken := by
  induction line with
  | nil => rfl
  | cons b line ih => exact ih

theorem tokensFrom_broken (line : Bytes) : tokensFrom .broken line = 0 := by
  induction line with
  | nil => rfl
  | cons b line ih => exact ih

theorem lexFrom_append (state : Lexing) (line line' : Bytes) :
    lexFrom state (line ++ line') = lexFrom (lexFrom state line) line' :=
  List.foldl_append

theorem lexByte_broken (h : lexByte state b = .broken) :
    state = .broken ∨ state = .closed ∧ isSpace b = false := by
  cases state with
  | broken => exact Or.inl rfl
  | closed =>
    right
    cases hspace : isSpace b with
    | false => exact ⟨rfl, rfl⟩
    | true => simp [lexByte, hspace] at h
  | doubleEscape => cases h
  | _ =>
    simp only [lexByte, openWord] at h
    split_ifs at h

theorem broken_iff (line : Bytes) : lexFrom .blank line = .broken ↔ BadClosingQuote line := by
  constructor
  · intro h
    induction line using List.reverseRecOn with
    | nil => cases h
    | append_singleton line b ih =>
      rw [lexFrom_append] at h
      rcases lexByte_broken h with hbroken | ⟨hclosed, hspace⟩
      · obtain ⟨before, b', after, hline, hrest⟩ := ih hbroken
        refine ⟨before, b', after ++ [b], ?_, hrest⟩
        rw [hline, append_assoc, cons_append]
      · exact ⟨line, b, [], rfl, hclosed, hspace⟩
  · intro h
    obtain ⟨before, b, after, hline, hclosed, hspace⟩ := h
    have hbyte : lexByte .closed b = .broken := by simp [lexByte, hspace]
    calc lexFrom .blank line = lexFrom (lexFrom .blank before) (b :: after) := by
          rw [hline, lexFrom_append]
      _ = lexFrom (lexByte .closed b) after := by rw [hclosed]; rfl
      _ = .broken := by rw [hbyte, lexFrom_broken]

def Rejected (state : Lexing) : Prop := state = .broken ∨ InQuotes state

def lexQuotes : Quotes → Lexing
  | .no => .word
  | .double => .double
  | .single => .single

def TokenLexed (state : Lexing) (s : Bytes) (r : Option (Bytes × Bytes)) : Prop :=
  match r with
  | none => Rejected (lexFrom state s) ∧ tokensFrom state s = 0
  | some (_, rest) => (Rejected (lexFrom state s) ↔ Rejected (lexFrom .blank rest)) ∧
      tokensFrom state s = tokensFrom .blank rest+1

/-- The bytes before `s'` neither end the token nor lead to another state than the first one. -/
def Continues (state : Lexing) (s : Bytes) (state' : Lexing) (s' : Bytes) : Prop :=
  lexFrom state s = lexFrom state' s' ∧ tokensFrom state s = tokensFrom state' s'

theorem TokenLexed.of_eq {state' : Lexing} {s' : Bytes} {r : Option (Bytes × Bytes)}
    (h : TokenLexed state s r) (heq : Continues state' s' state s) : TokenLexed state' s' r := by
  unfold TokenLexed at h ⊢
  rw [heq.1, heq.2]
  exact h

theorem continues_byte {state' : Lexing} {b : UInt8} (h : lexByte state b = state')
    (hblank : state' ≠ .blank) (s : Bytes) : Continues state (b :: s) state' s := by
  rw [← h] at hblank ⊢
  exact ⟨rfl, by rw [tokensFrom, if_neg fun hend => hblank hend.2]; rfl⟩

theorem Continues.then {state' state'' : Lexing} {s' s'' : Bytes} (h : Continues state s state' s')
    (hnext : Continues state' s' state'' s'') : Continues state s state'' s'' :=
  ⟨h.1.trans hnext.1, h.2.trans hnext.2⟩

theorem closeQuotes_lexed (current s : Bytes) : TokenLexed .closed s (closeQuotes current s) := by
  cases s with
  | nil => simp [TokenLexed, closeQuotes, lexFrom, tokensFrom, Rejected, InQuotes]
  | cons b s =>
    have hcases : closeQuotes current (b :: s) = if isSpace b then some (current, b :: s) else none := rfl
    rw [hcases]
    cases hspace : isSpace b with
    | true =>
      have hclosed : lexByte .closed b = .blank := if_pos hspace
      have hblank : lexByte .blank b = .blank := if_pos hspace
      rw [if_pos rfl]
      simp [TokenLexed, lexFrom, tokensFrom, hclosed, hblank]
    | false =>
      have hbyte : lexByte .closed b = .broken := by
        simp only [lexByte, hspace, Bool.false_eq_true, if_false]
      have hto := continues_byte hbyte (by decide) s
      rw [if_neg Bool.false_ne_true]
      simp only [TokenLexed, hto.1, hto.2, lexFrom_broken, tokensFrom_broken, Rejected, true_or, and_self]

theorem continues_hexDigit (h : isHexDigit b = true) (s : Bytes) :
    Continues .double (b :: s) .double s := by
  have hslash : b ≠ 92 := by
    intro hb
    rw [hb] at h
    exact absurd h (by decide)
  have hquote : b ≠ 34 := by
    intro hb
    rw [hb] at h
    exact absurd h (by decide)
  exact continues_byte (by simp only [lexByte, if_neg hslash, if_neg hquote]) (by decide) s

theorem continues_escape (e : UInt8) (s : Bytes) : Continues .double (92 :: e :: s) .double s :=
  (continues_byte rfl (by decide) (e :: s)).then
    (continues_byte (rfl : lexByte .doubleEscape e = .double) (fun h => nomatch h) s)

theorem splitToken_lexed (q : Quotes) (current s : Bytes) :
    TokenLexed (lexQuotes q) s (splitToken q current s) := by
  fun_induction splitToken q current s with
  | case1 => simp [TokenLexed, lexFrom, tokensFrom, lexQuotes, Rejected, InQuotes]
  | case2 current b rest hblank =>
    have hbyte : lexByte .word b = .blank := by simp only [lexByte, if_pos hblank]
    simp [TokenLexed, lexQuotes, lexFrom, tokensFrom, hbyte]
  | case3 current rest _ ih => exact ih.of_eq (continues_byte rfl (by decide) rest)
  | case4 current rest _ _ ih => exact ih.of_eq (continues_byte rfl (by decide) rest)
  | case5 current b rest hblank hdouble hsingle ih =>
    have hbyte : lexByte .word b = .word := by
      simp only [lexByte, openWord, if_neg hblank, if_neg hdouble, if_neg hsingle]
    exact ih.of_eq (continues_byte hbyte (by decide) rest)
  | case6 => simp [TokenLexed, lexFrom, tokensFrom, lexQuotes, Rejected, InQuotes]
  | case7 => simp [TokenLexed, lexFrom, tokensFrom, lexQuotes, Rejected, InQuotes, lexByte]
  | case8 current b hclose =>
    by_cases hslash : b = 92
    · simp [TokenLexed, lexFrom, tokensFrom, lexQuotes, Rejected, InQuotes, lexByte, hslash]
    · simp [TokenLexed, lexFrom, tokensFrom, lexQuotes, Rejected, InQuotes, lexByte, hslash, hclose]
  | case9 current e h l rest hhex ih =>
    obtain ⟨-, hh, hl⟩ := hhex
    exact ih.of_eq ((continues_escape e _).then
      ((continues_hexDigit hh _).then (continues_hexDigit hl rest)))
  | case10 current e h l rest _ ih => exact ih.of_eq (continues_escape e _)
  | case11 current e rest _ ih => exact ih.of_eq (continues_escape e rest)
  | case12 current e rest =>
    exact (closeQuotes_lexed current (e :: rest)).of_eq (continues_byte rfl (by decide) _)
  | case13 current b e rest hslash hclose ih =>
    have hbyte : lexByte .double b = .double := by simp only [lexByte, if_neg hslash, if_neg hclose]
    exact ih.of_eq (continues_byte hbyte (by decide) _)
  | case14 => simp [TokenLexed, lexFrom, tokensFrom, lexQuotes, Rejected, InQuotes]
  | case15 => simp [TokenLexed, lexFrom, tokensFrom, lexQuotes, Rejected, InQuotes, lexByte]
  | case16 current b hclose =>
    by_cases hslash : b = 92
    · simp [TokenLexed, lexFrom, tokensFrom, lexQuotes, Rejected, InQuotes, lexByte, hslash]
    · simp [TokenLexed, lexFrom, tokensFrom, lexQuotes, Rejected, InQuotes, lexByte, hslash, hclose]
  | case17 current b e rest hescape ih =>
    rw [hescape.1, hescape.2]
    exact ih.of_eq ((continues_byte rfl (by decide) _).then (continues_byte rfl (by decide) rest))
  | case18 current e rest =>
    exact (closeQuotes_lexed current (e :: rest)).of_eq (continues_byte rfl (by decide) _)
  | case19 current b e rest hescape hclose ih =>
    by_cases hslash : b = 92
    · have hquote : e ≠ 39 := fun he => hescape ⟨hslash, he⟩
      have hbyte : lexByte .singleEscape e = lexByte .single e := by
        simp only [lexByte, hquote, if_false]
      have hnext : lexByte .single e ≠ .blank := by
        simp only [lexByte, hquote, if_false]
        split <;> decide
      subst hslash
      refine ih.of_eq ((continues_byte (rfl : lexByte .single 92 = .singleEscape) (by decide) _).then ?_)
      have hescaped : lexByte (lexByte .single 92) e = lexByte .single e := hbyte
      exact ⟨by simp only [lexFrom, foldl_cons, hescaped, lexQuotes],
        by simp [tokensFrom, hescaped, lexQuotes, hnext]⟩
    · have hbyte : lexByte .single b = .single := by simp only [lexByte, hslash, hclose, if_false]
      exact ih.of_eq (continues_byte hbyte (by decide) _)

theorem continues_blanks (line : Bytes) :
    Continues .blank line .blank (line.dropWhile isSpace) := by
  induction line with
  | nil => exact ⟨rfl, rfl⟩
  | cons b line ih =>
    cases hspace : isSpace b with
    | true =>
      have hbyte : lexByte .blank b = .blank := if_pos hspace
      rw [List.dropWhile_cons_of_pos hspace]
      refine Continues.then ⟨?_, ?_⟩ ih
      · simp only [lexFrom, foldl_cons, hbyte]
      · simp [tokensFrom, hbyte]
    | false =>
      rw [List.dropWhile_cons_of_neg (by simp [hspace])]
      exact ⟨rfl, rfl⟩

theorem continues_token (hspace : isSpace b = false) (s : Bytes) :
    Continues .blank (b :: s) .word (b :: s) := by
  have hblank : ¬ (b = 32 ∨ b = 10 ∨ b = 13 ∨ b = 9) := by
    intro h
    rcases h with h | h | h | h <;> (rw [h] at hspace; exact absurd hspace (by decide))
  have hbyte : lexByte .blank b = lexByte .word b := by
    simp only [lexByte, hspace, Bool.false_eq_true, if_false, if_neg hblank]
  have hnext : lexByte .word b ≠ .blank := by
    simp only [lexByte, if_neg hblank, openWord]
    split_ifs <;> decide
  exact ⟨by simp only [lexFrom, foldl_cons, hbyte], by simp [tokensFrom, hbyte, hnext]⟩

theorem dropWhile_head (h : line.dropWhile isSpace = b :: s) : isSpace b = false := by
  have hhead := List.head?_dropWhile_not isSpace line
  rw [h] at hhead
  exact hhead

def tokenCount (line : Bytes) : ℕ := tokensFrom .blank line

theorem token_lexed (hline : line.dropWhile isSpace = b :: s) :
    TokenLexed .blank line (splitToken .no [] (b :: s)) := by
  have hblanks := continues_blanks line
  rw [hline] at hblanks
  exact (splitToken_lexed .no [] (b :: s)).of_eq
    (hblanks.then (continues_token (dropWhile_head hline) s))

theorem splitTokens_lexed (line : Bytes) (vector : List Bytes) :
    match splitTokens line vector with
    | none => Rejected (lexFrom .blank line)
    | some args => ¬Rejected (lexFrom .blank line) ∧ args.length = vector.length+tokenCount line := by
  fun_induction splitTokens line vector with
  | case1 line vector hline =>
    have hblanks := continues_blanks line
    rw [hline] at hblanks
    rw [tokenCount, hblanks.1, hblanks.2]
    simp [lexFrom, tokensFrom, Rejected, InQuotes]
  | case2 line vector b s hline hnone =>
    have hlexed := token_lexed hline
    rw [hnone] at hlexed
    exact hlexed.1
  | case3 line vector b s hline token rest hsome _ ih =>
    have hlexed := token_lexed hline
    rw [hsome] at hlexed
    obtain ⟨hrejected, hcount⟩ := hlexed
    cases hrest : splitTokens rest (vector ++ [token]) with
    | none =>
      rw [hrest] at ih
      exact hrejected.mpr ih
    | some args =>
      rw [hrest] at ih
      refine ⟨mt hrejected.mp ih.1, ?_⟩
      rw [ih.2, tokenCount, tokenCount, hcount, List.length_append, List.length_singleton]
      omega

theorem splitTokens_rejects (line : Bytes) (vector : List Bytes) :
    splitTokens line vector = none ↔ Rejected (lexFrom .blank line) := by
  have h := splitTokens_lexed line vector
  cases hr : splitTokens line vector with
  | none =>
    rw [hr] at h
    exact ⟨fun _ => h, fun _ => rfl⟩
  | some args =>
    rw [hr] at h
    exact ⟨fun hnone => absurd hnone (Option.some_ne_none args), fun hrejected => absurd hrejected h.1⟩

theorem joined_tokens (h : JoinedReprs isprint args line) : tokenCount line = args.length := by
  have hlexed := splitTokens_lexed line []
  rw [show splitTokens line [] = some args from splitTokens_joined h [] [] (by simp)] at hlexed
  have hlength := hlexed.2
  rw [List.length_nil, Nat.zero_add] at hlength
  exact hlength.symm

theorem sdssplitargs_none (line : Bytes) :
    sdssplitargs line = none ↔ UnterminatedQuote line ∨ BadClosingQuote line := by
  calc sdssplitargs line = none ↔ Rejected (lexFrom .blank line) := splitTokens_rejects line []
    _ ↔ BadClosingQuote line ∨ UnterminatedQuote line := or_congr (broken_iff line) Iff.rfl
    _ ↔ UnterminatedQuote line ∨ BadClosingQuote line := or_comm

end RedisCore.Request
