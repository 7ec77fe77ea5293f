import RedisCore.IntsetLayout

namespace RedisCore.IntegerSet

variable {is : Intset} {xs : List ℤ} {value : ℤ}

structure Window (xs : List ℤ) (value : ℤ) (lo hi : ℕ) : Prop where
  order : lo ≤ hi
  bound : hi ≤ xs.length
  below : ∀ i (h : i < xs.length), i < lo → xs[i] < value
  above : ∀ i (h : i < xs.length), hi ≤ i → value < xs[i]

theorem midpoint_eq {lo hi : ℕ} (hlt : lo < hi) (hhi : hi < 2^31) :
    (((toUnsigned 32 lo+toUnsigned 32 ((hi : ℤ)-1))%2^32/2 : ℕ) : ℤ) = ((lo+hi-1)/2 : ℕ) := by
  have h1 : toUnsigned 32 (lo : ℤ) = lo := by
    rw [toUnsigned_of_range (by omega) (by norm_num; omega), Int.toNat_natCast]
  have h2 : toUnsigned 32 ((hi : ℤ)-1) = hi-1 := by
    rw [toUnsigned_of_range (by omega) (by norm_num; omega)]
    omega
  rw [h1, h2, Nat.mod_eq_of_lt (by omega), show lo+(hi-1) = lo+hi-1 by omega]

theorem searchLoop_spec (h : Stores is xs) (fuel : ℕ) : ∀ {lo hi : ℕ} {m c : ℤ},
    Window xs value lo hi → hi-lo < fuel → (lo < hi ∨ value ≠ c) →
    ∃ r, searchLoop is value fuel lo ((hi : ℤ)-1) m c = .ok r ∧
      ((value = r.2.2 ∧ ∃ i : ℕ, r.2.1 = i ∧ ∃ hi : i < xs.length, xs[i] = value) ∨
        (value ≠ r.2.2 ∧ ∃ i : ℕ, r.1 = i ∧ Window xs value i i)) := by
  have hlen := h.length_lt
  induction fuel with
  | zero =>
    intro lo hi mid cur _ hfuel
    omega
  | succ fuel ih =>
    intro lo hi mid cur hw hfuel hcur
    have hbound := hw.bound
    by_cases hlt : lo < hi
    · obtain ⟨m, hm⟩ : ∃ m, (lo+hi-1)/2 = m := ⟨_, rfl⟩
      have hmid := midpoint_eq hlt (by omega)
      have hlow : lo ≤ m := by omega
      have hhigh : m < hi := by omega
      have hin : m < xs.length := by omega
      rw [searchLoop, if_pos (by omega)]
      dsimp only
      rw [hmid, hm, h.get hin, ok_bind]
      clear hmid hm
      by_cases hgt : value > xs[m]
      · -- the elements up to `mid` are smaller than the value as well
        rw [if_pos hgt, toInt_of_fits (by omega) (by omega)]
        have hnext : Window xs value (m+1) hi := by
          refine ⟨by omega, hbound, ?_, hw.above⟩
          intro i hi' hile
          rcases Nat.lt_or_ge i m with hil | hil
          · exact (List.pairwise_iff_getElem.mp h.sorted i m hi' (by omega) hil).trans hgt
          · obtain rfl : i = m := by omega
            exact hgt
        have hless : hi-(m+1) < fuel := by omega
        exact ih hnext hless (Or.inr hgt.ne')
      · rw [if_neg hgt]
        by_cases hless : value < xs[m]
        · rw [if_pos hless, toInt_of_fits (by omega) (by omega)]
          have hnext : Window xs value lo m := by
            refine ⟨by omega, by omega, hw.below, ?_⟩
            intro i hi' hile
            rcases Nat.lt_or_ge m i with hil | hil
            · exact hless.trans (List.pairwise_iff_getElem.mp h.sorted m i (by omega) hi' hil)
            · obtain rfl : i = m := by omega
              exact hless
          exact ih hnext (by omega) (Or.inr hless.ne)
        · rw [if_neg hless]
          have heq : value = xs[m] := le_antisymm (not_lt.mp hgt) (not_lt.mp hless)
          exact ⟨_, rfl, Or.inl ⟨heq, m, rfl, by omega, heq.symm⟩⟩
    · have hsame : hi = lo := by have := hw.order; omega
      subst hsame
      rw [searchLoop, if_neg (by omega)]
      exact ⟨_, rfl, Or.inr ⟨hcur.resolve_left hlt, hi, rfl, hw⟩⟩

theorem Window.split {i : ℕ} (hw : Window xs value i i) : ∃ a b, xs = a ++ b ∧ i = a.length ∧
    (∀ x ∈ a, x < value) ∧ (∀ x ∈ b, value < x) := by
  refine ⟨xs.take i, xs.drop i, (List.take_append_drop i xs).symm, ?_, ?_, ?_⟩
  · rw [List.length_take, Nat.min_eq_left hw.bound]
  · intro x hx
    obtain ⟨j, hj, rfl⟩ := List.mem_take_iff_getElem.mp hx
    exact hw.below j (by omega) (by omega)
  · intro x hx
    obtain ⟨j, hj, rfl⟩ := List.mem_drop_iff_getElem.mp hx
    exact hw.above (i+j) (by omega) (by omega)

def SearchPost (xs : List ℤ) (value : ℤ) (r : Bool × ℕ) : Prop :=
  (r.1 = true ∧ ∃ a b, xs = a ++ value :: b ∧ r.2 = a.length) ∨
  (r.1 = false ∧ ∃ a b, xs = a ++ b ∧ r.2 = a.length ∧ (∀ x ∈ a, x < value) ∧ (∀ x ∈ b, value < x))

theorem searchPost_of_window {i : ℕ} (hw : Window xs value i i) :
    SearchPost xs value (false, i) := by
  obtain ⟨a, b, hxs, hi, hbelow, habove⟩ := hw.split
  exact Or.inr ⟨rfl, a, b, hxs, hi, hbelow, habove⟩

theorem toUnsigned_position {i : ℕ} (hi : i < 2^31) : toUnsigned 32 (i : ℤ) = i := by
  rw [toUnsigned_of_range (by omega) (by norm_num; omega), Int.toNat_natCast]

theorem intsetSearch_spec (h : Stores is xs) (value : ℤ) :
    ∃ r, intsetSearch is value = .ok r ∧ SearchPost xs value r := by
  have hlen := h.length_lt
  unfold intsetSearch
  by_cases hzero : xs.length = 0
  · rw [if_pos (h.length.trans hzero)]
    refine ⟨_, rfl, searchPost_of_window ⟨le_rfl, Nat.zero_le _, ?_, ?_⟩⟩
    · intro i hi
      omega
    · intro i hi
      omega
  · have hmax : toInt ((is.length : ℤ)-1) = (xs.length-1 : ℕ) := by
      rw [h.length, toInt_of_fits (by omega) (by omega)]
      omega
    dsimp only
    rw [if_neg (by rw [h.length]; exact hzero), hmax, h.get (i := xs.length-1) (by omega),
      ok_bind]
    by_cases hlast : value > xs[xs.length-1]
    · rw [if_pos hlast, h.length]
      refine ⟨_, rfl, searchPost_of_window ⟨le_rfl, le_rfl, ?_, ?_⟩⟩
      · intro i hi _
        rcases Nat.lt_or_ge i (xs.length-1) with hil | hil
        · exact (List.pairwise_iff_getElem.mp h.sorted i _ hi (by omega) hil).trans hlast
        · obtain rfl : i = xs.length-1 := by omega
          exact hlast
      · intro i hi hge
        omega
    · have hget0 : _intsetGet is 0 = .ok xs[0] := h.get (i := 0) (by omega)
      rw [if_neg hlast, hget0, ok_bind]
      by_cases hfirst : value < xs[0]
      · rw [if_pos hfirst]
        refine ⟨_, rfl, searchPost_of_window ⟨le_rfl, Nat.zero_le _, ?_, ?_⟩⟩
        · intro i hi hlt
          omega
        · intro i hi _
          rcases Nat.eq_zero_or_pos i with rfl | hpos
          · exact hfirst
          · exact hfirst.trans (List.pairwise_iff_getElem.mp h.sorted 0 i (by omega) hi hpos)
      · have hstart : Window xs value 0 xs.length := by
          refine ⟨Nat.zero_le _, le_rfl, ?_, ?_⟩
          · intro i hi hlt
            omega
          · intro i hi hge
            omega
        obtain ⟨⟨min, mid, cur⟩, hrun, hpost⟩ := searchLoop_spec (m := -1) (c := -1) h
          (is.length+1) hstart (by rw [h.length]; omega) (Or.inl (by omega))
        have hrun' : searchLoop is value (is.length+1) 0 (xs.length-1 : ℕ) (-1) (-1) =
            .ok (min, mid, cur) := by
          rw [← hrun, Nat.cast_sub (by omega)]
          rfl
        rw [if_neg hfirst, hrun', ok_bind]
        dsimp only at hpost ⊢
        rcases hpost with ⟨heq, i, rfl, hi, hat⟩ | ⟨hne, i, rfl, hw⟩
        · rw [if_pos heq, toUnsigned_position (by omega)]
          refine ⟨_, rfl, Or.inl ⟨rfl, xs.take i, xs.drop (i+1), ?_, ?_⟩⟩
          · rw [← hat, List.getElem_cons_drop, List.take_append_drop]
          · rw [List.length_take, Nat.min_eq_left hi.le]
        · have hi := hw.bound
          rw [if_neg hne, toUnsigned_position (by omega)]
          exact ⟨_, rfl, searchPost_of_window hw⟩

theorem SearchPost.mem_iff {r : Bool × ℕ} (h : SearchPost xs value r) : r.1 = true ↔ value ∈ xs := by
  rcases h with ⟨hr, a, b, rfl, -⟩ | ⟨hr, a, b, rfl, -, hbelow, habove⟩
  · simp [hr]
  · rw [hr]
    constructor
    · intro hf
      cases hf
    · intro hmem
      rcases List.mem_append.mp hmem with hmem | hmem
      · exact absurd (hbelow value hmem) (lt_irrefl _)
      · exact absurd (habove value hmem) (lt_irrefl _)

theorem intsetFind_spec (h : Stores is xs) (hv : FitsIn 8 value) :
    intsetFind is value = .ok (decide (value ∈ xs)) := by
  unfold intsetFind
  by_cases henc : _intsetValueEncoding value ≤ is.encoding
  · obtain ⟨r, hr, hpost⟩ := intsetSearch_spec h value
    have hfound : r.1 = decide (value ∈ xs) := by
      rw [← Bool.decide_coe r.1]
      exact decide_eq_decide.mpr hpost.mem_iff
    rw [if_pos henc, hr, ok_bind, ← hfound]
    rfl
  · have hno : value ∉ xs := fun hmem =>
      henc ((valueEncoding_le_iff h.encoding hv).mpr (h.fits value hmem))
    rw [if_neg henc, decide_eq_false hno]
    rfl

end RedisCore.IntegerSet
