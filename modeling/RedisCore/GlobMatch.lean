import RedisCore.GlobModel
import RedisCore.Wildcard

namespace RedisCore.Glob

variable (charValue : CharValue)

inductive ClassItem
  | single (b : UInt8)
  | range (start last : UInt8)
deriving DecidableEq, Repr

inductive ByteTest
  | any
  | literal (b : UInt8)
  | oneOf (negated : Bool) (items : List ClassItem)
deriving DecidableEq, Repr

def ClassItem.accepts : ClassItem → UInt8 → Prop
  | .single b, c => b = c
  | .range start last, c => min (charValue start) (charValue last) ≤ charValue c ∧
      charValue c ≤ max (charValue start) (charValue last)

def ByteTest.accepts : ByteTest → UInt8 → Prop
  | .any, _ => True
  | .literal b, c => b = c
  | .oneOf negated items, c => (∃ item ∈ items, item.accepts charValue c) ↔ negated = false

def classItems : Bytes → List ClassItem × Bytes
  | [] => ([], [])
  | [p0] => if p0 = 93 then ([], []) else ([.single p0], [])
  | p0 :: p1 :: rest =>
    if p0 = 92 then (.single p1 :: (classItems rest).1, (classItems rest).2)
    else if p0 = 93 then ([], p1 :: rest)
    else
      match rest with
      | p2 :: rest' =>
        if p1 = 45 then (.range p0 p2 :: (classItems rest').1, (classItems rest').2)
        else (.single p0 :: (classItems (p1 :: p2 :: rest')).1, (classItems (p1 :: p2 :: rest')).2)
      | [] => (.single p0 :: (classItems [p1]).1, (classItems [p1]).2)

def classTest (p : Bytes) : ByteTest × Bytes :=
  let negated := p.head? == some 94
  let r := classItems (if negated then p.tail else p)
  (.oneOf negated r.1, r.2)

theorem inRange_iff (start last c : UInt8) : inRange charValue false start last c = true ↔
    (ClassItem.range start last).accepts charValue c := by
  unfold inRange ClassItem.accepts
  by_cases h : charValue start > charValue last
  · simp [h, min_eq_right h.le, max_eq_left h.le]
  · have hle := not_lt.mp h
    simp [h, min_eq_left hle, max_eq_right hle]

theorem sameChar_iff (a b : UInt8) : sameChar charValue false a b = true ↔ a = b := by
  simp [sameChar]

theorem classLoop_eq (c : UInt8) : ∀ (p : Bytes) (found : Bool),
    ((classLoop charValue false c p found).1 = true ↔
      found = true ∨ ∃ item ∈ (classItems p).1, item.accepts charValue c) ∧
    (classLoop charValue false c p found).2 = (classItems p).2
  | [], found => by simp [classLoop, classItems]
  | [p0], found => by
    rw [classLoop, classItems]
    split_ifs
    · simp
    · simp [sameChar_iff, ClassItem.accepts]
  | [p0, p1], found => by
    rw [classLoop, classItems]
    split_ifs
    · simp [classLoop, classItems, ClassItem.accepts]
    · simp
    · have h := classLoop_eq c [p1] (found || sameChar charValue false p0 c)
      dsimp only
      rw [h.1, h.2, Bool.or_eq_true, sameChar_iff, List.exists_mem_cons_iff, or_assoc]
      exact ⟨Iff.rfl, rfl⟩
  | p0 :: p1 :: p2 :: rest, found => by
    rw [classLoop, classItems]
    split_ifs
    · have h := classLoop_eq c (p2 :: rest) (found || p1 == c)
      dsimp only
      rw [h.1, h.2, Bool.or_eq_true, beq_iff_eq, List.exists_mem_cons_iff, or_assoc]
      exact ⟨Iff.rfl, rfl⟩
    · simp
    · have h := classLoop_eq c rest (found || inRange charValue false p0 p2 c)
      dsimp only
      rw [h.1, h.2, Bool.or_eq_true, inRange_iff, List.exists_mem_cons_iff, or_assoc]
      exact ⟨Iff.rfl, rfl⟩
    · have h := classLoop_eq c (p1 :: p2 :: rest) (found || sameChar charValue false p0 c)
      dsimp only
      rw [h.1, h.2, Bool.or_eq_true, sameChar_iff, List.exists_mem_cons_iff, or_assoc]
      exact ⟨Iff.rfl, rfl⟩

theorem matchClass_eq (c : UInt8) (p : Bytes) :
    ((matchClass charValue false c p).1 = true ↔ (classTest p).1.accepts charValue c) ∧
      (matchClass charValue false c p).2 = (classTest p).2 := by
  unfold matchClass classTest
  dsimp only
  have h := classLoop_eq charValue c (if (p.head? == some 94) = true then p.tail else p) false
  simp only [Bool.false_eq_true, false_or] at h
  refine ⟨?_, h.2⟩
  rw [ByteTest.accepts, ← h.1]
  cases p.head? == some 94
  · simp
  · simp

theorem classTest_length (p : Bytes) : (classTest p).2.length ≤ p.length := by
  rw [← (matchClass_eq (fun _ => 0) 0 p).2]
  exact matchClass_length _ false 0 p

/-- The pieces of a glob pattern: `*`, `?`, classes, and literal bytes with or without a
backslash. -/
def pieces : Bytes → List (Piece ByteTest)
  | [] => []
  | p0 :: ps =>
    if p0 = 42 then .anything :: pieces ps
    else if p0 = 63 then .one .any :: pieces ps
    else if p0 = 91 then .one (classTest ps).1 :: pieces (classTest ps).2
    else .one (.literal (literalByte p0 ps).1) :: pieces (literalByte p0 ps).2
termination_by p => p.length
decreasing_by
  · rw [List.length_cons]
    omega
  · rw [List.length_cons]
    omega
  · have := classTest_length ps
    rw [List.length_cons]
    omega
  · have := literalByte_length p0 ps
    rw [List.length_cons]
    omega

def GlobMatches (p s : Bytes) : Prop := Matches (ByteTest.accepts charValue) (pieces p) s

theorem pieces_star (ps : Bytes) : pieces (42 :: ps) = .anything :: pieces ps := by
  rw [pieces, if_pos rfl]

theorem pieces_not_star {p0 : UInt8} (h : p0 ≠ 42) (ps : Bytes) :
    ∃ t rest, pieces (p0 :: ps) = .one t :: rest := by
  rw [pieces, if_neg h]
  split_ifs
  · exact ⟨_, _, rfl⟩
  · exact ⟨_, _, rfl⟩
  · exact ⟨_, _, rfl⟩

theorem matches_empty_iff (p : Bytes) : GlobMatches charValue p [] ↔ p.dropWhile isStar = [] := by
  unfold GlobMatches
  induction p with
  | nil => simp [pieces, matches_empty_pattern]
  | cons p0 ps ih =>
    by_cases h : p0 = 42
    · subst h
      rw [pieces_star, matches_nil, List.forall_mem_cons, ← matches_nil, ih,
        List.dropWhile_cons_of_pos rfl]
      simp
    · obtain ⟨t, rest, hp⟩ := pieces_not_star h ps
      rw [hp, List.dropWhile_cons_of_neg (by simpa [isStar] using h)]
      simp [matches_one_nil]

theorem matches_stars (ps s : Bytes) : GlobMatches charValue (42 :: ps) s ↔
    GlobMatches charValue (42 :: ps.dropWhile isStar) s := by
  unfold GlobMatches
  induction ps with
  | nil => rfl
  | cons p0 ps ih =>
    by_cases h : p0 = 42
    · subst h
      rw [List.dropWhile_cons_of_pos rfl, ← ih, pieces_star, pieces_star, matches_anything_twice]
    · rw [List.dropWhile_cons_of_neg (by simpa [isStar] using h)]

theorem starLoop_iff (tryMatch : Bytes → Bool) (s : Bytes) :
    starLoop tryMatch s = true ↔ ∃ t, t ≠ [] ∧ t <:+ s ∧ tryMatch t = true := by
  induction s with
  | nil =>
    rw [starLoop]
    constructor
    · intro h
      cases h
    · rintro ⟨t, hne, ht, -⟩
      exact absurd (List.suffix_nil.mp ht) hne
  | cons c cs ih =>
    rw [starLoop, Bool.or_eq_true, ih]
    constructor
    · rintro (h | ⟨t, hne, ht, h⟩)
      · exact ⟨c :: cs, List.cons_ne_nil c cs, List.suffix_rfl, h⟩
      · exact ⟨t, hne, ht.trans (List.suffix_cons c cs), h⟩
    · rintro ⟨t, hne, ht, h⟩
      rcases List.suffix_cons_iff.mp ht with rfl | ht
      · exact Or.inl h
      · exact Or.inr ⟨t, hne, ht, h⟩

theorem continue_iff {ps cs : Bytes}
    (ih : cs ≠ [] → (stringmatchlen charValue false ps cs = true ↔ GlobMatches charValue ps cs)) :
    (if cs.isEmpty then (ps.dropWhile isStar).isEmpty else stringmatchlen charValue false ps cs) =
      true ↔ GlobMatches charValue ps cs := by
  cases cs with
  | nil => rw [if_pos List.isEmpty_nil, List.isEmpty_iff, matches_empty_iff]
  | cons c cs => rw [if_neg (by simp), ih (List.cons_ne_nil c cs)]

theorem stringmatchlen_nonempty (n : ℕ) : ∀ (p s : Bytes), p.length ≤ n → s ≠ [] →
    (stringmatchlen charValue false p s = true ↔ GlobMatches charValue p s) := by
  induction n with
  | zero =>
    intro p s hn hs
    obtain rfl : p = [] := List.length_eq_zero_iff.mp (by omega)
    rw [stringmatchlen, GlobMatches, pieces, matches_empty_pattern, List.isEmpty_iff]
  | succ n ih =>
    intro p s hn hs
    obtain ⟨c, cs, rfl⟩ := List.exists_cons_of_ne_nil hs
    cases p with
    | nil => rw [stringmatchlen, GlobMatches, pieces, matches_empty_pattern, List.isEmpty_iff]
    | cons p0 ps =>
      rw [List.length_cons] at hn
      rw [stringmatchlen]
      by_cases hstar : p0 = 42
      · -- the collapsed stars leave some suffix of the string to the others
        subst hstar
        rw [if_pos rfl, matches_stars]
        dsimp only
        have hlen := List.length_dropWhile_le isStar ps
        by_cases hrest : ps.dropWhile isStar = []
        · rw [hrest, if_pos List.isEmpty_nil, GlobMatches, pieces_star, pieces]
          exact ⟨fun _ => matches_anythings (by simp) (by simp), fun _ => rfl⟩
        · have hempty : ¬GlobMatches charValue (ps.dropWhile isStar) [] := by
            rw [matches_empty_iff, List.dropWhile_idempotent]
            exact hrest
          rw [if_neg (by rw [List.isEmpty_iff]; exact hrest), starLoop_iff, GlobMatches,
            pieces_star, matches_anything]
          constructor
          · rintro ⟨t, hne, ht, h⟩
            exact ⟨t, ht, (ih _ t (by omega) hne).mp h⟩
          · rintro ⟨t, ht, h⟩
            have hne : t ≠ [] := by
              rintro rfl
              exact hempty h
            exact ⟨t, hne, ht, (ih _ t (by omega) hne).mpr h⟩
      · rw [if_neg hstar, GlobMatches, pieces, if_neg hstar]
        by_cases hany : p0 = 63
        · rw [if_pos hany, if_pos hany, matches_one_cons,
            continue_iff charValue (fun hne => ih ps cs (by omega) hne)]
          simp [ByteTest.accepts, GlobMatches]
        · rw [if_neg hany, if_neg hany]
          by_cases hclass : p0 = 91
          · obtain ⟨hmatch, hbehind⟩ := matchClass_eq charValue c ps
            have hlen := classTest_length ps
            rw [if_pos hclass, if_pos hclass, matches_one_cons]
            dsimp only
            rw [← hmatch, hbehind]
            by_cases hm : (matchClass charValue false c ps).1 = true
            · rw [if_neg (by simp [hm]), continue_iff charValue (fun hne => ih _ cs (by omega) hne)]
              simp [hm, GlobMatches]
            · simp [hm]
          · have hlen := literalByte_length p0 ps
            rw [if_neg hclass, if_neg hclass, matches_one_cons]
            dsimp only
            by_cases hm : (literalByte p0 ps).1 = c
            · have hsame := (sameChar_iff charValue (literalByte p0 ps).1 c).mpr hm
              rw [if_neg (by simp [hsame]),
                continue_iff charValue (fun hne => ih _ cs (by omega) hne)]
              simp [hm, ByteTest.accepts, GlobMatches]
            · have hsame : ¬sameChar charValue false (literalByte p0 ps).1 c = true := by
                rw [sameChar_iff]
                exact hm
              simp [hsame, hm, ByteTest.accepts]

/-- `stringmatchlen` agrees with the reference semantics on exactly the inputs that are not the
empty string against a pattern of stars. -/
theorem stringmatchlen_right_iff (p s : Bytes) :
    (stringmatchlen charValue false p s = true ↔ GlobMatches charValue p s) ↔
      ¬(s = [] ∧ p ≠ [] ∧ ∀ b ∈ p, b = 42) := by
  by_cases hs : s = []
  · subst hs
    have hstars : p.dropWhile isStar = [] ↔ ∀ b ∈ p, b = 42 := by
      rw [List.dropWhile_eq_nil_iff]
      simp [isStar]
    rw [matches_empty_iff, hstars]
    cases p with
    | nil => simp [stringmatchlen]
    | cons p0 ps =>
      rw [stringmatchlen]
      simp
  · simp only [hs, false_and, not_false_eq_true, iff_true]
    exact stringmatchlen_nonempty charValue p.length p s le_rfl hs

/-- A single star does not match the empty string. -/
theorem stringmatchlen_star_empty :
    ¬(stringmatchlen (fun b => toSigned 8 b.toNat) false (text "*") [] = true ↔
      GlobMatches (fun b => toSigned 8 b.toNat) (text "*") []) := by
  intro h
  have hmatch : GlobMatches (fun b => toSigned 8 b.toNat) (text "*") [] :=
    (matches_empty_iff _ (text "*")).mpr (by decide)
  have hrun := h.mpr hmatch
  have htext : text "*" = [42] := by decide
  rw [htext, stringmatchlen] at hrun
  cases hrun

end RedisCore.Glob
