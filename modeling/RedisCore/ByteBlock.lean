import Mathlib

/-! Allocated blocks of bytes as lists, with the accesses that C programs make to
them. An access outside the block has no meaning in C and is a fault here, so a
computation that ends in `ok` has read and written only inside its block. -/
namespace RedisCore

abbrev Bytes := List UInt8

instance : LawfulBEq Bytes := inferInstance

/-- Reasons for which a C computation has no result. -/
inductive Fault
  | outOfBounds
  | sizeWrap
  | aborted
  | outOfFuel
deriving DecidableEq, Repr

@[simp] theorem ok_bind {ε α β : Type} (a : α) (f : α → Except ε β) :
    (Except.ok a >>= f) = f a := rfl

@[simp] theorem except_pure {ε α : Type} (a : α) : (pure a : Except ε α) = .ok a := rfl

@[simp] theorem except_error_bind {ε α β : Type} (e : ε) (f : α → Except ε β) :
    ((Except.error e : Except ε α) >>= f) = .error e := rfl

theorem except_bind_eq_ok {ε α β : Type} {x : Except ε α} {f : α → Except ε β} {b : β} :
    (x >>= f) = .ok b ↔ ∃ a, x = .ok a ∧ f a = .ok b := by
  cases x with
  | error e => simp
  | ok a => simp

def leBytes : ℕ → ℕ → Bytes
  | 0, _ => []
  | w+1, n => UInt8.ofNat n :: leBytes w (n/256)

def leNat : Bytes → ℕ
  | [] => 0
  | b :: bs => b.toNat + 256*leNat bs

@[simp] theorem leBytes_length (w n : ℕ) : (leBytes w n).length = w := by
  induction w generalizing n with
  | zero => rfl
  | succ w ih => simp only [leBytes, List.length_cons, ih]

theorem leNat_leBytes (w n : ℕ) : leNat (leBytes w n) = n % 256^w := by
  induction w generalizing n with
  | zero => simp only [leBytes, leNat, pow_zero, Nat.mod_one]
  | succ w ih =>
    rw [leBytes, leNat, ih, pow_succ', Nat.mod_mul]
    rfl

theorem leNat_leBytes_of_lt {w n : ℕ} (h : n < 256^w) : leNat (leBytes w n) = n := by
  rw [leNat_leBytes, Nat.mod_eq_of_lt h]

theorem leNat_lt (bs : Bytes) : leNat bs < 256^bs.length := by
  induction bs with
  | nil => simp only [leNat, List.length_nil, pow_zero, zero_lt_one]
  | cons b bs ih =>
    rw [leNat, List.length_cons, pow_succ']
    have hb : b.toNat < 256 := b.toNat_lt
    omega

def beBytes (w n : ℕ) : Bytes := (leBytes w n).reverse

def beNat (bs : Bytes) : ℕ := leNat bs.reverse

@[simp] theorem beBytes_length (w n : ℕ) : (beBytes w n).length = w := by simp [beBytes]

theorem beNat_beBytes_of_lt {w n : ℕ} (h : n < 256^w) : beNat (beBytes w n) = n := by
  rw [beNat, beBytes, List.reverse_reverse, leNat_leBytes_of_lt h]

def toSigned (bits n : ℕ) : ℤ := if n < 2^(bits-1) then n else (n : ℤ) - 2^bits

def toUnsigned (bits : ℕ) (v : ℤ) : ℕ := (v % 2^bits).toNat

theorem toUnsigned_lt (bits : ℕ) (v : ℤ) : toUnsigned bits v < 2^bits := by
  have h1 := Int.emod_nonneg v (b := 2^bits) (by positivity)
  have h2 := Int.emod_lt_of_pos v (b := 2^bits) (by positivity)
  unfold toUnsigned
  zify
  rwa [Int.toNat_of_nonneg h1]

theorem toUnsigned_of_range {bits : ℕ} {v : ℤ} (hl : 0 ≤ v) (hu : v < 2^bits) :
    toUnsigned bits v = v.toNat := by rw [toUnsigned, Int.emod_eq_of_lt hl hu]

theorem toSigned_toUnsigned (bits : ℕ) (hb : 0 < bits) (v : ℤ)
    (hl : -2^(bits-1) ≤ v) (hu : v < 2^(bits-1)) : toSigned bits (toUnsigned bits v) = v := by
  have hp : (2:ℤ)^bits = 2*2^(bits-1) := by
    obtain ⟨k, rfl⟩ : ∃ k, bits = k+1 := ⟨bits-1, by omega⟩
    simp [pow_succ, mul_comm]
  have hn : (0:ℤ) < 2^(bits-1) := by positivity
  unfold toSigned toUnsigned
  rcases le_or_gt 0 v with h | h
  · have hm : v % 2^bits = v := Int.emod_eq_of_lt h (by omega)
    rw [hm, if_pos (by zify; omega)]
    omega
  · have hm : v % 2^bits = v + 2^bits := by
      rw [← Int.add_emod_right]
      exact Int.emod_eq_of_lt (by omega) (by omega)
    rw [hm, if_neg (by zify; omega)]
    omega

def loadByte (m : Bytes) (i : ℕ) : Except Fault UInt8 :=
  match m[i]? with
  | some b => .ok b
  | none => .error .outOfBounds

def loadBytes (m : Bytes) (i n : ℕ) : Except Fault Bytes :=
  if i+n ≤ m.length then .ok ((m.drop i).take n) else .error .outOfBounds

def storeBytes (m : Bytes) (i : ℕ) (bs : Bytes) : Except Fault Bytes :=
  if i+bs.length ≤ m.length then .ok (m.take i ++ (bs ++ m.drop (i+bs.length)))
  else .error .outOfBounds

def moveBytes (m : Bytes) (dst src n : ℕ) : Except Fault Bytes := do
  let bs ← loadBytes m src n
  storeBytes m dst bs

def reallocBytes (m : Bytes) (n : ℕ) : Bytes := m.take n ++ List.replicate (n-m.length) 0

section Segments

variable {m a b c : Bytes} {i n : ℕ}

theorem loadByte_at {x : UInt8} (h : m = a ++ x :: c) (hi : i = a.length) :
    loadByte m i = .ok x := by
  subst h hi
  simp [loadByte]

@[simp] theorem loadByte_cons_zero (x : UInt8) (xs : Bytes) : loadByte (x :: xs) 0 = .ok x := rfl

theorem loadBytes_at (h : m = a ++ (b ++ c)) (hi : i = a.length) (hn : n = b.length) :
    loadBytes m i n = .ok b := by
  subst h hi hn
  simp [loadBytes]

theorem storeBytes_at {x : Bytes} (h : m = a ++ (x ++ c)) (hi : i = a.length)
    (hx : x.length = b.length) : storeBytes m i b = .ok (a ++ (b ++ c)) := by
  subst h hi
  simp [storeBytes, ← hx]

theorem moveBytes_at {a' c' y : Bytes} {src dst : ℕ} (hs : m = a ++ (b ++ c))
    (hsrc : src = a.length) (hn : n = b.length) (hd : m = a' ++ (y ++ c'))
    (hdst : dst = a'.length) (hy : y.length = b.length) :
    moveBytes m dst src n = .ok (a' ++ (b ++ c')) := by
  rw [moveBytes, loadBytes_at hs hsrc hn, ok_bind]
  exact storeBytes_at hd hdst hy

theorem loadByte_append_right (hi : i = a.length+n) : loadByte (a ++ b) i = loadByte b n := by
  have hg : (a ++ b)[i]? = b[n]? := by
    rw [List.getElem?_append_right (by omega), show i-a.length = n by omega]
  rw [loadByte, hg, loadByte]

theorem loadBytes_append_right {k : ℕ} (hi : i = a.length+k) :
    loadBytes (a ++ b) i n = loadBytes b k n := by
  subst hi
  simp [loadBytes, List.drop_append, Nat.add_assoc, show a.length+k-a.length = k by omega,
    List.drop_eq_nil_of_le (show a.length ≤ a.length+k by omega)]

theorem loadByte_append_left {x : UInt8} (h : loadByte a i = .ok x) :
    loadByte (a ++ b) i = .ok x := by
  unfold loadByte at h ⊢
  cases hg : a[i]? with
  | none => simp [hg] at h
  | some y =>
    rw [hg] at h
    have hi : i < a.length := (List.getElem?_eq_some_iff.mp hg).1
    rw [List.getElem?_append_left hi, hg]
    exact h

theorem loadBytes_append_left {x : Bytes} (h : loadBytes a i n = .ok x) :
    loadBytes (a ++ b) i n = .ok x := by
  unfold loadBytes at h ⊢
  split at h
  · rename_i hle
    have hx : (a.drop i).take n = x := by simpa using h
    rw [if_pos (by rw [List.length_append]; omega), List.drop_append_of_le_length (by omega),
      List.take_append_of_le_length (by rw [List.length_drop]; omega), hx]
  · cases h

theorem reallocBytes_grow (h : m.length ≤ n) :
    reallocBytes m n = m ++ List.replicate (n-m.length) 0 := by
  rw [reallocBytes, List.take_of_length_le h]

theorem reallocBytes_shrink (h : n ≤ m.length) : reallocBytes m n = m.take n := by
  rw [reallocBytes, Nat.sub_eq_zero_of_le h, List.replicate_zero, List.append_nil]

end Segments

end RedisCore
