import RedisCore.DecimalText

namespace RedisCore

def arg (argv : List Bytes) (i : ℕ) : Bytes := argv.getD i []

def tolower (c : UInt8) : UInt8 := if 65 ≤ c && c ≤ 90 then c+32 else c

def cString (s : Bytes) : Bytes := s.takeWhile (· ≠ 0)

def sameCaseless (s t : Bytes) : Bool := (cString s).map tolower == (cString t).map tolower

def text (s : String) : Bytes := s.toList.map (fun c => UInt8.ofNat c.toNat)

theorem sameCaseless_of {a : Bytes} {s : String} (h : sameCaseless a (text s) = true) (s' : String) :
    sameCaseless a (text s') = sameCaseless (text s) (text s') := by
  unfold sameCaseless at h ⊢
  rw [beq_iff_eq.mp h]

def toLong (n : ℤ) : ℤ := n.bmod (2^64)

def toInt (n : ℤ) : ℤ := n.bmod (2^32)

theorem toLong_of_fits {n : ℤ} (hl : -2^63 ≤ n) (hu : n < 2^63) : toLong n = n := by
  unfold toLong
  apply Int.bmod_eq_of_le_mul_two <;> omega

theorem toInt_of_fits {n : ℤ} (hl : -2^31 ≤ n) (hu : n < 2^31) : toInt n = n := by
  unfold toInt
  apply Int.bmod_eq_of_le_mul_two <;> omega

theorem toLong_range (n : ℤ) : -2^63 ≤ toLong n ∧ toLong n < 2^63 := by
  have hle := Int.le_bmod (x := n) (m := 2^64) (by norm_num)
  have hlt := Int.bmod_lt (x := n) (m := 2^64) (by norm_num)
  unfold toLong
  omega

theorem toInt_add (a b : ℤ) : toInt (toInt a+b) = toInt (a+b) := Int.bmod_add_bmod

theorem toInt_natCast (s : ℕ) : toInt s =
    if s % 2 ^ 32 < 2 ^ 31 then ((s % 2 ^ 32 : ℕ) : ℤ) else ((s % 2 ^ 32 : ℕ) : ℤ) - 2 ^ 32 := by
  unfold toInt Int.bmod
  push_cast
  split_ifs <;> omega

theorem toInt_lt (n : ℤ) : toInt n < 2^31 := by
  have h := Int.bmod_lt (x := n) (m := 2^32) (by norm_num)
  unfold toInt
  omega

def isspace (c : UInt8) : Bool := c == 32 || (9 ≤ c && c ≤ 13)

def digitsValue (s : Bytes) : ℕ := (s.takeWhile isDigit).foldl (fun v c => v*10+digitValue c) 0

def strtol (s : Bytes) : ℤ :=
  match s.dropWhile isspace with
  | [] => 0
  | c :: cs =>
    if c = 45 then max (-2^63) (-(digitsValue cs : ℤ))
    else if c = 43 then min (2^63-1) (digitsValue cs)
    else min (2^63-1) (digitsValue (c :: cs))

end RedisCore
