import RedisCore.ByteBlock

namespace RedisCore.Request

def isSpace (b : UInt8) : Bool := b == 32 || (9 ≤ b && b ≤ 13)

def isHexDigit (b : UInt8) : Bool :=
  (48 ≤ b && b ≤ 57) || (97 ≤ b && b ≤ 102) || (65 ≤ b && b ≤ 70)

def hexDigitToInt (b : UInt8) : UInt8 :=
  if 48 ≤ b && b ≤ 57 then b - 48
  else if 97 ≤ b && b ≤ 102 then b - 87
  else if 65 ≤ b && b ≤ 70 then b - 55
  else 0

def unescape (b : UInt8) : UInt8 :=
  if b = 110 then 10
  else if b = 114 then 13
  else if b = 116 then 9
  else if b = 98 then 8
  else if b = 97 then 7
  else b

inductive Quotes where
  | no
  | double
  | single
deriving DecidableEq, Repr

def closeQuotes (current : Bytes) : Bytes → Option (Bytes × Bytes)
  | [] => some (current, [])
  | b :: rest => if isSpace b then some (current, b :: rest) else none

def splitToken : Quotes → Bytes → Bytes → Option (Bytes × Bytes)
  | .no, current, [] => some (current, [])
  | .no, current, b :: rest =>
    if b = 32 ∨ b = 10 ∨ b = 13 ∨ b = 9 then some (current, rest)
    else if b = 34 then splitToken .double current rest
    else if b = 39 then splitToken .single current rest
    else splitToken .no (current ++ [b]) rest
  | .double, _, [] => none
  | .double, current, [b] =>
    if b = 34 then some (current, []) else none
  | .double, current, b :: e :: rest =>
    if b = 92 then
      match rest with
      | h :: l :: rest' =>
        if e = 120 ∧ isHexDigit h ∧ isHexDigit l then
          splitToken .double (current ++ [hexDigitToInt h * 16 + hexDigitToInt l]) rest'
        else splitToken .double (current ++ [unescape e]) (h :: l :: rest')
      | rest => splitToken .double (current ++ [unescape e]) rest
    else if b = 34 then closeQuotes current (e :: rest)
    else splitToken .double (current ++ [b]) (e :: rest)
  | .single, _, [] => none
  | .single, current, [b] =>
    if b = 39 then some (current, []) else none
  | .single, current, b :: e :: rest =>
    if b = 92 ∧ e = 39 then splitToken .single (current ++ [39]) rest
    else if b = 39 then closeQuotes current (e :: rest)
    else splitToken .single (current ++ [b]) (e :: rest)
termination_by _ _ s => s.length

theorem closeQuotes_length {current s token rest : Bytes} (h : closeQuotes current s = some (token, rest)) :
    rest.length ≤ s.length := by
  cases s with
  | nil =>
    simp only [closeQuotes, Option.some.injEq, Prod.mk.injEq] at h
    rw [← h.2]
  | cons b s =>
    simp only [closeQuotes] at h
    split_ifs at h
    rw [← (Prod.mk.inj (Option.some.inj h)).2]

theorem splitToken_length (q : Quotes) (current s : Bytes) : ∀ token rest,
    splitToken q current s = some (token, rest) → rest.length ≤ s.length - 1 := by
  fun_induction splitToken q current s with
  | case1 current =>
    intro token rest h
    rw [← (Prod.mk.inj (Option.some.inj h)).2]
    rfl
  | _ => grind [→ closeQuotes_length]

def splitTokens (line : Bytes) (vector : List Bytes) : Option (List Bytes) :=
  match hline : line.dropWhile isSpace with
  | [] => some vector
  | b :: s =>
    match h : splitToken .no [] (b :: s) with
    | none => none
    | some (token, rest) =>
      have : rest.length < line.length := by
        have hshort := splitToken_length .no [] (b :: s) token rest h
        have hdrop := (List.dropWhile_suffix (l := line) isSpace).length_le
        rw [hline] at hdrop
        simp only [List.length_cons] at hshort hdrop
        omega
      splitTokens rest (vector ++ [token])
termination_by line.length

def sdssplitargs (line : Bytes) : Option (List Bytes) := splitTokens line []

end RedisCore.Request
