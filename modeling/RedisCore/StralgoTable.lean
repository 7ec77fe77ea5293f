import RedisCore.StralgoModel
import RedisCore.CommonSubsequence

namespace RedisCore.Stralgo

open Subsequence

variable {a b : Bytes} {alen blen k A B : ℕ} {t : Table}

theorem u32_of_lt {n : ℕ} (h : n < 2^32) : u32 n = n := Nat.mod_eq_of_lt h

theorem index_lt (hA : A ≤ alen) (hB : B ≤ blen) : B+A*(blen+1) < (alen+1)*(blen+1) := by
  have hrow : (A+1)*(blen+1) ≤ (alen+1)*(blen+1) := Nat.mul_le_mul_right _ (by omega)
  rw [Nat.add_mul A 1] at hrow
  omega

theorem width_lt (hsize : (alen+1)*(blen+1) < 2^32) : blen+1 < 2^32 :=
  lt_of_le_of_lt (Nat.le_mul_of_pos_left _ (Nat.succ_pos _)) hsize

theorem height_lt (hsize : (alen+1)*(blen+1) < 2^32) : alen+1 < 2^32 :=
  lt_of_le_of_lt (Nat.le_mul_of_pos_right _ (Nat.succ_pos _)) hsize

theorem slot_exact (hsize : (alen+1)*(blen+1) < 2^32) (hA : A ≤ alen) (hB : B ≤ blen) :
    slot blen A B = B+A*(blen+1) := by
  have hin := index_lt hA hB
  unfold slot
  rw [u32_of_lt (width_lt hsize), u32_of_lt (n := A*(blen+1)) (by omega), u32_of_lt (by omega)]

theorem requested_exact (hsize : (alen+1)*(blen+1) < 2^32) :
    requested alen blen = (alen+1)*(blen+1)*4 := by
  unfold requested
  rw [u32_of_lt (height_lt hsize), u32_of_lt (width_lt hsize), u32_of_lt hsize]

theorem index_injective {A' B' : ℕ} (hB : B ≤ blen) (hB' : B' ≤ blen)
    (h : B+A*(blen+1) = B'+A'*(blen+1)) : A = A' ∧ B = B' := by
  have hrow := congrArg (· / (blen+1)) h
  rw [Nat.add_mul_div_right _ _ (Nat.succ_pos _), Nat.add_mul_div_right _ _ (Nat.succ_pos _),
    Nat.div_eq_of_lt (by omega), Nat.div_eq_of_lt (by omega), Nat.zero_add, Nat.zero_add] at hrow
  subst hrow
  exact ⟨rfl, by omega⟩

structure Upto (a b : Bytes) (alen blen k : ℕ) (t : Table) : Prop where
  words : t.words = (alen+1)*(blen+1)
  cells : ∀ A B, B ≤ blen → B+A*(blen+1) < k → t.cell (B+A*(blen+1)) = prefixLength a b A B
  touched : ∀ p ∈ t.touched, p.1 ≤ alen ∧ p.2 ≤ blen

theorem touched_cons (h : ∀ p ∈ t.touched, p.1 ≤ alen ∧ p.2 ≤ blen) (hA : A ≤ alen)
    (hB : B ≤ blen) : ∀ p ∈ (A, B) :: t.touched, p.1 ≤ alen ∧ p.2 ≤ blen := by
  intro p hp
  rcases List.mem_cons.mp hp with heq | hold
  · rw [heq]
    exact ⟨hA, hB⟩
  · exact h p hold

theorem Upto.read (h : Upto a b alen blen k t) (hsize : (alen+1)*(blen+1) < 2^32)
    (hA : A ≤ alen) (hB : B ≤ blen) (hk : B+A*(blen+1) < k) :
    ∃ t', t.read blen A B = .ok (prefixLength a b A B, t') ∧ Upto a b alen blen k t' := by
  have hin : slot blen A B < t.words := by
    rw [slot_exact hsize hA hB, h.words]
    exact index_lt hA hB
  refine ⟨{ t with touched := (A, B) :: t.touched }, ?_, h.words, h.cells,
    touched_cons h.touched hA hB⟩
  rw [Table.read, if_pos hin, slot_exact hsize hA hB, h.cells A B hB hk]

theorem Upto.write {v : ℕ} (h : Upto a b alen blen (B+A*(blen+1)) t)
    (hsize : (alen+1)*(blen+1) < 2^32) (hA : A ≤ alen) (hB : B ≤ blen)
    (hv : v = prefixLength a b A B) :
    ∃ t', t.write blen A B v = .ok t' ∧ Upto a b alen blen (B+1+A*(blen+1)) t' := by
  have hslot := slot_exact hsize hA hB
  have hin : slot blen A B < t.words := by
    rw [hslot, h.words]
    exact index_lt hA hB
  refine ⟨_, if_pos hin, h.words, ?_, touched_cons h.touched hA hB⟩
  intro A' B' hB' hk
  change Function.update t.cell (slot blen A B) v (B'+A'*(blen+1)) = _
  rw [hslot]
  by_cases hsame : B'+A'*(blen+1) = B+A*(blen+1)
  · obtain ⟨hrow, hcol⟩ := index_injective hB' hB hsame
    rw [hsame, Function.update_self, hv, hrow, hcol]
  · rw [Function.update_of_ne hsame]
    exact h.cells A' B' hB' (by omega)

theorem fillCell_spec {i j : ℕ} (h : Upto a b alen blen (j+i*(blen+1)) t)
    (hsize : (alen+1)*(blen+1) < 2^32) (hi : i ≤ alen) (hj : j ≤ blen) :
    ∃ t', fillCell a b blen i j t = .ok t' ∧ Upto a b alen blen (j+1+i*(blen+1)) t' := by
  unfold fillCell
  by_cases hedge : i = 0 ∨ j = 0
  · rw [if_pos hedge]
    apply h.write hsize hi hj
    rcases hedge with rfl | rfl
    · exact prefixLength_zero_left.symm
    · exact prefixLength_zero_right.symm
  · rw [if_neg hedge]
    obtain ⟨i, rfl⟩ : ∃ i', i = i'+1 := ⟨i-1, by omega⟩
    obtain ⟨j, rfl⟩ : ∃ j', j = j'+1 := ⟨j-1, by omega⟩
    simp only [Nat.add_sub_cancel]
    have hrow : (i+1)*(blen+1) = i*(blen+1)+(blen+1) := by ring
    by_cases hsame : a[i]? = b[j]?
    · rw [if_pos hsame]
      obtain ⟨t', hread, h'⟩ := h.read hsize (A := i) (B := j) (by omega) (by omega) (by omega)
      rw [hread]
      apply h'.write hsize hi hj
      have hle := prefixLength_le a b i j
      have hheight := height_lt hsize
      rw [prefixLength_match hsame, u32_of_lt (by omega)]
    · rw [if_neg hsame]
      obtain ⟨t', hread, h'⟩ := h.read hsize (A := i) (B := j+1) (by omega) hj (by omega)
      obtain ⟨t'', hread', h''⟩ := h'.read hsize (A := i+1) (B := j) hi (by omega) (by omega)
      rw [hread]
      dsimp only [bind, Except.bind]
      rw [hread']
      apply h''.write hsize hi hj
      rw [prefixLength_differ hsame]
      split_ifs <;> omega

theorem foldlM_range {ε σ : Type} {f : σ → ℕ → Except ε σ} {P : ℕ → σ → Prop} {n : ℕ} {s : σ}
    (hstep : ∀ i < n, ∀ s, P i s → ∃ s', f s i = .ok s' ∧ P (i+1) s') (h : P 0 s) :
    ∃ s', (List.range n).foldlM f s = .ok s' ∧ P n s' := by
  induction n with
  | zero => exact ⟨s, rfl, h⟩
  | succ n ih =>
    obtain ⟨s', hrun, hs'⟩ := ih (fun i hi => hstep i (by omega))
    obtain ⟨s'', hlast, hs''⟩ := hstep n (by omega) s' hs'
    refine ⟨s'', ?_, hs''⟩
    rw [List.range_succ, List.foldlM_append, hrun]
    dsimp only [bind, Except.bind]
    rw [List.foldlM_cons, hlast]
    rfl

theorem fillTable_spec (h : Upto a b alen blen 0 t) (hsize : (alen+1)*(blen+1) < 2^32) :
    ∃ t', fillTable a b alen blen t = .ok t' ∧
      Upto a b alen blen ((alen+1)*(blen+1)) t' := by
  unfold fillTable
  apply foldlM_range (P := fun i t => Upto a b alen blen (i*(blen+1)) t)
  · intro i hi t ht
    have hrow : (i+1)*(blen+1) = blen+1+i*(blen+1) := by ring
    rw [hrow]
    apply foldlM_range (P := fun j t => Upto a b alen blen (j+i*(blen+1)) t)
    · intro j hj t ht
      exact fillCell_spec ht hsize (by omega) (by omega)
    · rwa [Nat.zero_add]
  · rwa [Nat.zero_mul]

theorem Upto.read_full (h : Upto a b alen blen ((alen+1)*(blen+1)) t)
    (hsize : (alen+1)*(blen+1) < 2^32) (hA : A ≤ alen) (hB : B ≤ blen) :
    ∃ t', t.read blen A B = .ok (prefixLength a b A B, t') ∧
      Upto a b alen blen ((alen+1)*(blen+1)) t' :=
  h.read hsize hA hB (index_lt hA hB)

end RedisCore.Stralgo
