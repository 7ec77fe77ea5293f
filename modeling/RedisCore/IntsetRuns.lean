import RedisCore.IntsetUpdates

namespace RedisCore.IntegerSet
open Finset (length_sort mem_sort)

inductive IntsetOp
  | add (value : ℤ)
  | remove (value : ℤ)
deriving DecidableEq, Repr

def IntsetOp.value : IntsetOp → ℤ
  | .add value => value
  | .remove value => value

def applyOp (is : Intset) : IntsetOp → Except Fault (Intset × Bool)
  | .add value => intsetAdd is value
  | .remove value => intsetRemove is value

def runOps (is : Intset) : List IntsetOp → Except Fault (Intset × List Bool)
  | [] => .ok (is, [])
  | op :: ops => do
    let (is, success) ← applyOp is op
    let (is, rest) ← runOps is ops
    return (is, success :: rest)

def applySet (s : Finset ℤ) : IntsetOp → Finset ℤ × Bool
  | .add value => (insert value s, decide (value ∉ s))
  | .remove value => (s.erase value, decide (value ∈ s))

def runSet (s : Finset ℤ) : List IntsetOp → Finset ℤ × List Bool
  | [] => (s, [])
  | op :: ops =>
    let r := applySet s op
    let rest := runSet r.1 ops
    (rest.1, r.2 :: rest.2)

def setAfter (ops : List IntsetOp) (k : ℕ) : Finset ℤ := (runSet ∅ (ops.take k)).1

variable {is : Intset} {xs : List ℤ} {s : Finset ℤ}

theorem Stores.eq_sort (h : Stores is xs) : xs.toFinset.sort (· ≤ ·) = xs :=
  (List.toFinset_sort (· ≤ ·) (h.sorted.imp ne_of_lt)).mpr (h.sorted.imp le_of_lt)

def Holds (is : Intset) (s : Finset ℤ) : Prop := Stores is (s.sort (· ≤ ·))

theorem holds_of_stores (h : Stores is xs) (hs : ∀ x, x ∈ xs ↔ x ∈ s) : Holds is s := by
  have hset : xs.toFinset = s := by
    ext x
    rw [List.mem_toFinset, hs]
  rw [Holds, ← hset, h.eq_sort]
  exact h

theorem valueEncoding_le (v : ℤ) : _intsetValueEncoding v ≤ 8 := by
  rcases elementSize_valueEncoding v with h | h | h <;> omega

theorem applyOp_spec (h : Holds is s) (op : IntsetOp) (hv : FitsIn 8 op.value)
    (hsize : (applySet s op).1.card*8 < 2^32) :
    ∃ is', applyOp is op = .ok (is', (applySet s op).2) ∧ Holds is' (applySet s op).1 ∧
      is.encoding ≤ is'.encoding := by
  cases op with
  | add value =>
    have hroom : value ∉ s.sort (· ≤ ·) →
        ((s.sort (· ≤ ·)).length+1)*max is.encoding (_intsetValueEncoding value) < 2^32 := by
      intro hno
      rw [mem_sort] at hno
      have hcard : (insert value s).card = s.card+1 := Finset.card_insert_of_notMem hno
      have hmax : max is.encoding (_intsetValueEncoding value) ≤ 8 :=
        max_le (by rcases h.encoding with h | h | h <;> omega) (valueEncoding_le value)
      rw [length_sort]
      calc (s.card+1)*max is.encoding (_intsetValueEncoding value)
          ≤ (s.card+1)*8 := Nat.mul_le_mul_left _ hmax
        _ < 2^32 := by rw [← hcard]; exact hsize
    obtain ⟨is', xs', hrun, hst, henc, hmem⟩ := intsetAdd_spec h hv hroom
    refine ⟨is', ?_, holds_of_stores hst ?_, henc⟩
    · simp only [mem_sort] at hrun
      exact hrun
    · intro x
      rw [hmem, mem_sort]
      exact Finset.mem_insert.symm
  | remove value =>
    obtain ⟨is', xs', hrun, hst, henc, hmem⟩ := intsetRemove_spec h hv
    refine ⟨is', ?_, holds_of_stores hst ?_, henc.ge⟩
    · simp only [mem_sort] at hrun
      exact hrun
    · intro x
      rw [hmem, mem_sort]
      exact Finset.mem_erase.symm

theorem runOps_spec (ops : List IntsetOp) : ∀ {is : Intset} {s : Finset ℤ}, Holds is s →
    (∀ op ∈ ops, FitsIn 8 op.value) → (∀ k, (runSet s (ops.take k)).1.card*8 < 2^32) →
    ∃ is', runOps is ops = .ok (is', (runSet s ops).2) ∧ Holds is' (runSet s ops).1 ∧
      is.encoding ≤ is'.encoding := by
  induction ops with
  | nil =>
    intro is s h _ _
    exact ⟨is, rfl, h, le_rfl⟩
  | cons op ops ih =>
    intro is s h hv hsize
    obtain ⟨is1, hrun, h1, henc⟩ := applyOp_spec h op (hv op List.mem_cons_self) (hsize 1)
    obtain ⟨is2, hrest, h2, henc'⟩ := ih h1 (fun op hop => hv op (List.mem_cons_of_mem _ hop))
      (fun k => hsize (k+1))
    refine ⟨is2, ?_, h2, henc.trans henc'⟩
    rw [runOps, hrun, ok_bind]
    dsimp only
    rw [hrest]
    rfl

theorem runOps_append (ops rest : List IntsetOp) : ∀ (is : Intset),
    runOps is (ops ++ rest) = (do
      let (is, successes) ← runOps is ops
      let (is, more) ← runOps is rest
      return (is, successes ++ more)) := by
  induction ops with
  | nil =>
    intro is
    cases h : runOps is rest with
    | error e => simp [runOps, h]
    | ok r => simp [runOps, h]
  | cons op ops ih =>
    intro is
    cases h : applyOp is op with
    | error e => simp [runOps, h]
    | ok r =>
      cases h' : runOps r.1 ops with
      | error e => simp [runOps, h, h', ih]
      | ok q =>
        cases h'' : runOps q.1 rest with
        | error e => simp [runOps, h, h', h'', ih]
        | ok t => simp [runOps, h, h', h'', ih]

theorem runSet_append (ops rest : List IntsetOp) : ∀ s : Finset ℤ,
    (runSet s (ops ++ rest)).1 = (runSet (runSet s ops).1 rest).1 := by
  induction ops with
  | nil => exact fun s => rfl
  | cons op ops ih => exact fun s => ih _

theorem applySet_card_le (s : Finset ℤ) (op : IntsetOp) : (applySet s op).1.card ≤ s.card+1 := by
  cases op with
  | add value => exact Finset.card_insert_le value s
  | remove value => exact (Finset.card_le_card (Finset.erase_subset value s)).trans (Nat.le_succ _)

theorem runSet_card_le (ops : List IntsetOp) : ∀ s : Finset ℤ,
    (runSet s ops).1.card ≤ s.card+ops.length := by
  induction ops with
  | nil => exact fun s => le_rfl
  | cons op ops ih =>
    intro s
    have hop := applySet_card_le s op
    have hrest := ih (applySet s op).1
    rw [List.length_cons]
    exact hrest.trans (by omega)

/-- After every prefix of a run of additions and removals of 64-bit values, in which the set stays
small enough for its bytes to be counted in 32 bits, the array holds exactly the set in strictly
ascending order at a width that fits all of it and never shrank; the success flags, membership, the
length and the elements by position are those of the set, and the next value that is too wide goes
to its end of the array with every element kept in place. -/
theorem intset_refines_set (ops : List IntsetOp) (hv : ∀ op ∈ ops, FitsIn 8 op.value)
    (hsize : ∀ k, (setAfter ops k).card*8 < 2^32) (k : ℕ) :
    ∃ is, runOps intsetNew (ops.take k) = .ok (is, (runSet ∅ (ops.take k)).2) ∧
      is.contents = encodeInts is.encoding ((setAfter ops k).sort (· ≤ ·)) ∧
      ((setAfter ops k).sort (· ≤ ·)).Pairwise (· < ·) ∧
      (∀ x ∈ setAfter ops k, FitsIn is.encoding x) ∧
      (∀ j ≤ k, ∀ r, runOps intsetNew (ops.take j) = .ok r → r.1.encoding ≤ is.encoding) ∧
      (∀ v, FitsIn 8 v → intsetFind is v = .ok (decide (v ∈ setAfter ops k))) ∧
      intsetLen is = (setAfter ops k).card ∧
      (∀ pos, intsetGet is pos = .ok ((setAfter ops k).sort (· ≤ ·))[pos]?) ∧
      (∀ v, FitsIn 8 v → ¬FitsIn is.encoding v → ((setAfter ops k).card+1)*8 < 2^32 →
        ∃ is', intsetUpgradeAndAdd is v = .ok is' ∧ is'.contents = encodeInts is'.encoding
          (if v < 0 then v :: (setAfter ops k).sort (· ≤ ·)
            else (setAfter ops k).sort (· ≤ ·) ++ [v])) := by
  have hnew : Holds intsetNew ∅ := by
    rw [Holds, Finset.sort_empty]
    exact intsetNew_stores
  have hprefix : ∀ j, ∃ is, runOps intsetNew (ops.take j) = .ok (is, (runSet ∅ (ops.take j)).2) ∧
      Holds is (setAfter ops j) := by
    intro j
    obtain ⟨is, hrun, h, -⟩ := runOps_spec (ops.take j) hnew
      (fun op hop => hv op (List.mem_of_mem_take hop)) (fun i => by
        rw [List.take_take]
        exact hsize _)
    exact ⟨is, hrun, h⟩
  obtain ⟨is, hrun, h⟩ := hprefix k
  refine ⟨is, hrun, h.contents, h.sorted, ?_, ?_, ?_, ?_, intsetGet_spec h, ?_⟩
  · intro x hx
    exact h.fits x ((mem_sort _).mpr hx)
  · -- the run continues from the state after `j` operations
    intro j hjk r hr
    obtain ⟨start, hstart, hj⟩ := hprefix j
    obtain rfl : (start, (runSet ∅ (ops.take j)).2) = r := by
      rw [hstart] at hr
      exact Except.ok.inj hr
    have hsplit : ops.take k = ops.take j ++ (ops.take k).drop j := by
      conv_lhs => rw [← List.take_append_drop j (ops.take k)]
      rw [List.take_take, Nat.min_eq_left hjk]
    obtain ⟨is', hrest, -, henc⟩ := runOps_spec ((ops.take k).drop j) hj
      (fun op hop => hv op (List.mem_of_mem_take (List.mem_of_mem_drop hop))) (fun i => by
        have htake : ops.take j ++ ((ops.take k).drop j).take i = ops.take (min (j+i) k) := by
          have hfirst : (ops.take (min (j+i) k)).take j = ops.take j := by
            rw [List.take_take, Nat.min_eq_left (le_min (Nat.le_add_right j i) hjk)]
          rw [List.take_drop, List.take_take, ← hfirst, List.take_append_drop]
        rw [setAfter, ← runSet_append, htake]
        exact hsize _)
    rw [hsplit, runOps_append, hstart, ok_bind] at hrun
    dsimp only at hrun
    rw [hrest] at hrun
    obtain rfl : is' = is := congrArg Prod.fst (Except.ok.inj hrun)
    exact henc
  · intro v hfit
    rw [intsetFind_spec h hfit]
    simp only [mem_sort]
  · rw [intsetLen, h.length, length_sort]
  · intro v hfit hwide hroom
    obtain ⟨is', hup, -, hst⟩ := intsetUpgradeAndAdd_spec h hfit hwide (by
      rw [length_sort]
      exact lt_of_le_of_lt (Nat.mul_le_mul_left _ (valueEncoding_le v)) hroom)
    exact ⟨is', hup, hst.contents⟩

theorem intset_refines_set_sampled :
    ∃ is, runOps intsetNew ([.add 5, .add (-40000), .add (2^40), .remove 5].take 4) =
        .ok (is, [true, true, true, true]) ∧
      is.contents = encodeInts is.encoding ((setAfter [.add 5, .add (-40000), .add (2^40),
        .remove 5] 4).sort (· ≤ ·)) := by
  have hsmall : ∀ k, (setAfter [.add 5, .add (-40000), .add (2^40), .remove 5] k).card*8 < 2^32 := by
    intro k
    have hcard := runSet_card_le
      (([.add 5, .add (-40000), .add (2^40), .remove 5] : List IntsetOp).take k) ∅
    have hlen := List.length_take_le' k [IntsetOp.add 5, .add (-40000), .add (2^40), .remove 5]
    simp only [Finset.card_empty, List.length_cons, List.length_nil] at hcard hlen
    rw [setAfter]
    omega
  obtain ⟨is, hrun, hcontents, -⟩ := intset_refines_set
    [.add 5, .add (-40000), .add (2^40), .remove 5] (by decide) hsmall 4
  exact ⟨is, hrun, hcontents⟩

end RedisCore.IntegerSet
