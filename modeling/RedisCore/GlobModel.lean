import RedisCore.CTypes

/-! `stringmatchlen` of `util.c` on NUL-terminated buffers: a pointer and the length behind it are
the rest of the pattern, and the byte behind the last one is 0. -/

namespace RedisCore.Glob

/-- `tolower` of an `int`. -/
def tolowerInt (c : ℤ) : ℤ := if 65 ≤ c ∧ c ≤ 90 then c+32 else c

/-- The value of a `char` as an `int`; whether `char` is signed is up to the platform. -/
abbrev CharValue := UInt8 → ℤ

variable (charValue : CharValue) (nocase : Bool)

def sameChar (a b : UInt8) : Bool :=
  if !nocase then a == b else tolowerInt (charValue a) == tolowerInt (charValue b)

def inRange (start last c : UInt8) : Bool :=
  let (lo, hi) := if charValue start > charValue last then (charValue last, charValue start)
    else (charValue start, charValue last)
  if nocase then
    decide (tolowerInt (charValue c) ≥ tolowerInt lo ∧ tolowerInt (charValue c) ≤ tolowerInt hi)
  else decide (charValue c ≥ lo ∧ charValue c ≤ hi)

/-- The `while(1)` loop over a class: whether `c` matched, and the pattern behind the class.  An
unterminated class backs up by one byte, which the step to the next pattern byte undoes. -/
def classLoop (c : UInt8) : Bytes → Bool → Bool × Bytes
  | [], found => (found, [])
  | [p0], found => if p0 = 93 then (found, []) else (found || sameChar charValue nocase p0 c, [])
  | p0 :: p1 :: rest, found =>
    if p0 = 92 then classLoop c rest (found || p1 == c)
    else if p0 = 93 then (found, p1 :: rest)
    else
      match rest with
      | p2 :: rest' =>
        if p1 = 45 then classLoop c rest' (found || inRange charValue nocase p0 p2 c)
        else classLoop c (p1 :: p2 :: rest') (found || sameChar charValue nocase p0 c)
      | [] => classLoop c [p1] (found || sameChar charValue nocase p0 c)

theorem classLoop_length (c : UInt8) : ∀ (p : Bytes) (found : Bool),
    (classLoop charValue nocase c p found).2.length ≤ p.length
  | [], found => le_rfl
  | [p0], found => by
    rw [classLoop]
    split_ifs <;> simp
  | [p0, p1], found => by
    rw [classLoop]
    split_ifs
    · simp [classLoop]
    · simp
    · have := classLoop_length c [p1] (found || sameChar charValue nocase p0 c)
      simp only [List.length_cons] at this ⊢
      omega
  | p0 :: p1 :: p2 :: rest, found => by
    rw [classLoop]
    split_ifs
    · have := classLoop_length c (p2 :: rest) (found || p1 == c)
      simp only [List.length_cons] at this ⊢
      omega
    · simp
    · have := classLoop_length c rest (found || inRange charValue nocase p0 p2 c)
      simp only [List.length_cons]
      omega
    · have := classLoop_length c (p1 :: p2 :: rest) (found || sameChar charValue nocase p0 c)
      simp only [List.length_cons] at this ⊢
      omega

def matchClass (c : UInt8) (p : Bytes) : Bool × Bytes :=
  let negated := p.head? == some 94
  let r := classLoop charValue nocase c (if negated then p.tail else p) false
  (if negated then !r.1 else r.1, r.2)

theorem matchClass_length (c : UInt8) (p : Bytes) :
    (matchClass charValue nocase c p).2.length ≤ p.length := by
  unfold matchClass
  dsimp only
  split_ifs
  · have := classLoop_length charValue nocase c p.tail false
    rw [List.length_tail] at this
    omega
  · exact classLoop_length charValue nocase c p false

def literalByte (p0 : UInt8) (ps : Bytes) : UInt8 × Bytes :=
  match ps with
  | [] => (p0, [])
  | p1 :: rest => if p0 = 92 then (p1, rest) else (p0, p1 :: rest)

theorem literalByte_length (p0 : UInt8) (ps : Bytes) : (literalByte p0 ps).2.length ≤ ps.length := by
  unfold literalByte
  split
  · exact le_rfl
  · split_ifs
    · simp
    · exact le_rfl

def starLoop (tryMatch : Bytes → Bool) : Bytes → Bool
  | [] => false
  | c :: cs => tryMatch (c :: cs) || starLoop tryMatch cs

def isStar (b : UInt8) : Bool := b == 42

def stringmatchlen : Bytes → Bytes → Bool
  | [], s => s.isEmpty
  | _ :: _, [] => false
  | p0 :: ps, c :: cs =>
    if p0 = 42 then
      let rest := ps.dropWhile isStar
      if rest.isEmpty then true else starLoop (fun s => stringmatchlen rest s) (c :: cs)
    else if p0 = 63 then
      if cs.isEmpty then (ps.dropWhile isStar).isEmpty else stringmatchlen ps cs
    else if p0 = 91 then
      let r := matchClass charValue nocase c ps
      if !r.1 then false
      else if cs.isEmpty then (r.2.dropWhile isStar).isEmpty else stringmatchlen r.2 cs
    else
      let r := literalByte p0 ps
      if !sameChar charValue nocase r.1 c then false
      else if cs.isEmpty then (r.2.dropWhile isStar).isEmpty else stringmatchlen r.2 cs
termination_by p => p.length
decreasing_by
  · have := List.length_dropWhile_le isStar ps
    rw [List.length_cons]
    omega
  · rw [List.length_cons]
    omega
  · have := matchClass_length charValue nocase c ps
    rw [List.length_cons]
    omega
  · have := literalByte_length p0 ps
    rw [List.length_cons]
    omega

end RedisCore.Glob
