import Mathlib

/-! Linear feedback shift registers of any width: each step moves a bit out at the low end and
feeds it back with a polynomial. -/

namespace RedisCore.ShiftRegister

variable {w : ℕ} (poly : BitVec w)

def shift (c : BitVec w) : BitVec w := if c.getLsbD 0 then c >>> 1 ^^^ poly else c >>> 1

theorem shift_xor (a b : BitVec w) : shift poly (a ^^^ b) = shift poly a ^^^ shift poly b := by
  have hcancel : ∀ x y p : BitVec w, x ^^^ y = x ^^^ p ^^^ (y ^^^ p) := by
    intro x y p
    rw [BitVec.xor_assoc x p, ← BitVec.xor_assoc p, BitVec.xor_comm p y, BitVec.xor_assoc y,
      BitVec.xor_self, BitVec.xor_zero]
  simp only [shift, BitVec.getLsbD_xor, BitVec.ushiftRight_xor_distrib]
  cases a.getLsbD 0 <;> cases b.getLsbD 0
  · simp
  · simp [BitVec.xor_assoc]
  · simp [BitVec.xor_assoc, BitVec.xor_comm poly]
  · simpa using hcancel _ _ poly

theorem shifts_xor (n : ℕ) (a b : BitVec w) :
    (shift poly)^[n] (a ^^^ b) = (shift poly)^[n] a ^^^ (shift poly)^[n] b := by
  induction n generalizing a b with
  | zero => rfl
  | succ n ih => rw [Function.iterate_succ_apply, shift_xor, ih]; rfl

theorem shifts_of_clear {n : ℕ} {c : BitVec w} (h : ∀ i < n, c.getLsbD i = false) :
    (shift poly)^[n] c = c >>> n := by
  induction n generalizing c with
  | zero => simp
  | succ n ih =>
    have hlow : shift poly c = c >>> 1 := by
      rw [shift, h 0 (Nat.succ_pos n)]
      rfl
    rw [Function.iterate_succ_apply, hlow, ih, ← BitVec.shiftRight_add, Nat.add_comm]
    intro i hi
    rw [BitVec.getLsbD_ushiftRight]
    exact h _ (by omega)

theorem shifts_split (n : ℕ) (c : BitVec w) :
    (shift poly)^[n] c =
      (shift poly)^[n] (BitVec.ofNat w (c.toNat % 2^n)) ^^^ c >>> n := by
  have hlow : ∀ i, (BitVec.ofNat w (c.toNat % 2^n)).getLsbD i =
      (decide (i < n) && c.getLsbD i) := by
    intro i
    rw [BitVec.getLsbD_ofNat, Nat.testBit_mod_two_pow, BitVec.testBit_toNat]
    by_cases hi : i < w
    · simp [hi]
    · simp [hi, BitVec.getLsbD_of_ge c i (by omega)]
  have hsplit : c = BitVec.ofNat w (c.toNat % 2^n) ^^^ (c ^^^ BitVec.ofNat w (c.toNat % 2^n)) := by
    rw [BitVec.xor_comm c, ← BitVec.xor_assoc, BitVec.xor_self, BitVec.zero_xor]
  conv_lhs => rw [hsplit]
  rw [shifts_xor, shifts_of_clear poly (c := c ^^^ _)]
  · apply congrArg
    apply BitVec.eq_of_getLsbD_eq
    intro i _
    rw [BitVec.getLsbD_ushiftRight, BitVec.getLsbD_ushiftRight, BitVec.getLsbD_xor, hlow]
    simp
  · intro i hi
    rw [BitVec.getLsbD_xor, hlow]
    simp [hi]

theorem feed_ofDigits {k : ℕ} (hk : k ≠ 0) (ds : List ℕ) (hlt : ∀ d ∈ ds, d < 2^k) (hlen : k*ds.length ≤ w)
    (y : BitVec w) :
    ds.foldl (fun y d => (shift poly)^[k] (y ^^^ BitVec.ofNat w d)) y =
      (shift poly)^[k*ds.length] (y ^^^ BitVec.ofNat w (Nat.ofDigits (2^k) ds)) := by
  induction ds generalizing y with
  | nil => simp
  | cons d ds ih =>
    obtain ⟨hd, hds⟩ := List.forall_mem_cons.mp hlt
    have hlen' : k+k*ds.length ≤ w := by
      rw [List.length_cons, Nat.mul_succ] at hlen
      omega
    let v := Nat.ofDigits (2^k) ds
    have hsum : BitVec.ofNat w (d+2^k*v) = BitVec.ofNat w d ^^^ BitVec.ofNat w (2^k*v) := by
      apply BitVec.eq_of_getLsbD_eq
      intro i _
      rw [BitVec.getLsbD_xor, BitVec.getLsbD_ofNat, BitVec.getLsbD_ofNat, BitVec.getLsbD_ofNat,
        Nat.add_comm, Nat.testBit_two_pow_mul_add v hd, Nat.testBit_two_pow_mul]
      by_cases hi : i < k
      · simp [hi, not_le.mpr hi]
      · have hz : d.testBit i = false :=
          Nat.testBit_lt_two_pow (lt_of_lt_of_le hd (Nat.pow_le_pow_right (by omega) (by omega)))
        simp [hi, hz, not_lt.mp hi]
    have hv : v < 2^(k*ds.length) := by
      rw [pow_mul]
      exact Nat.ofDigits_lt_base_pow_length (Nat.one_lt_two_pow hk) hds
    have hdown : (shift poly)^[k] (BitVec.ofNat w (2^k*v)) = BitVec.ofNat w v := by
      rw [shifts_of_clear]
      · apply BitVec.eq_of_toNat_eq
        have hfit : 2^k*v < 2^w := by
          apply lt_of_lt_of_le _ (Nat.pow_le_pow_right (by omega) hlen')
          rw [pow_add]
          exact Nat.mul_lt_mul_of_pos_left hv (by positivity)
        rw [BitVec.toNat_ushiftRight, BitVec.toNat_ofNat, BitVec.toNat_ofNat, Nat.mod_eq_of_lt hfit,
          Nat.shiftRight_eq_div_pow, Nat.mul_div_cancel_left v (by positivity), Nat.mod_eq_of_lt]
        exact lt_of_le_of_lt (Nat.le_mul_of_pos_left v (by positivity)) hfit
      · intro i hi
        rw [BitVec.getLsbD_ofNat, Nat.testBit_two_pow_mul]
        simp [not_le.mpr hi]
    rw [List.foldl_cons, ih hds (by omega), Nat.ofDigits_cons, hsum, ← BitVec.xor_assoc,
      List.length_cons, Nat.mul_succ, Function.iterate_add_apply,
      shifts_xor poly k (y ^^^ _), hdown]

variable {poly}

theorem shift_injective (hpoly : poly.msb = true) : Function.Injective (shift poly) := by
  have htop : ∀ c : BitVec w, (shift poly c).msb = c.getLsbD 0 := by
    intro c
    unfold shift
    cases hc : c.getLsbD 0
    · simp [BitVec.msb_ushiftRight]
    · simp [BitVec.msb_ushiftRight, hpoly]
  intro a b h
  have hlow : a.getLsbD 0 = b.getLsbD 0 := by rw [← htop, ← htop, h]
  have hrest : a >>> 1 = b >>> 1 := by
    unfold shift at h
    rw [hlow] at h
    cases hb : b.getLsbD 0
    · simpa [hb] using h
    · rw [hb] at h
      exact (BitVec.xor_left_inj _).mp h
  apply BitVec.eq_of_getLsbD_eq
  intro i _
  cases i with
  | zero => exact hlow
  | succ i =>
    have h' := congrArg (fun c => BitVec.getLsbD c i) hrest
    simpa [Nat.add_comm] using h'

end RedisCore.ShiftRegister
