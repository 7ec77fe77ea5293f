import RedisCore.IntsetModel

namespace RedisCore.IntegerSet

def encodeInts (size : ℕ) (xs : List ℤ) : Bytes :=
  xs.flatMap (fun x => leBytes size (toUnsigned (8*size) x))

def FitsIn (size : ℕ) (x : ℤ) : Prop := -2^(8*size-1) ≤ x ∧ x < 2^(8*size-1)

instance (size : ℕ) (x : ℤ) : Decidable (FitsIn size x) := inferInstanceAs (Decidable (_ ∧ _))

def ElementSize (size : ℕ) : Prop := size = 2 ∨ size = 4 ∨ size = 8

/-- A well-formed intset holds the list of its elements: sorted, without repetition, all of the
width in the header, in an array that 32 bits can count. -/
structure Stores (is : Intset) (xs : List ℤ) : Prop where
  encoding : ElementSize is.encoding
  length : is.length = xs.length
  contents : is.contents = encodeInts is.encoding xs
  fits : ∀ x ∈ xs, FitsIn is.encoding x
  sorted : xs.Pairwise (· < ·)
  size : xs.length*is.encoding < 2^32

@[simp] theorem encodeInts_nil (size : ℕ) : encodeInts size [] = [] := rfl

@[simp] theorem encodeInts_append (size : ℕ) (xs ys : List ℤ) :
    encodeInts size (xs ++ ys) = encodeInts size xs ++ encodeInts size ys := by
  simp [encodeInts]

theorem encodeInts_cons (size : ℕ) (x : ℤ) (xs : List ℤ) :
    encodeInts size (x :: xs) = leBytes size (toUnsigned (8*size) x) ++ encodeInts size xs := by
  simp [encodeInts]

@[simp] theorem encodeInts_length (size : ℕ) (xs : List ℤ) :
    (encodeInts size xs).length = xs.length*size := by
  induction xs with
  | nil => simp
  | cons x xs ih =>
    rw [encodeInts_cons, List.length_append, leBytes_length, ih, List.length_cons, Nat.succ_mul,
      Nat.add_comm]

theorem ElementSize.pos {size : ℕ} (h : ElementSize size) : 2 ≤ size := by
  rcases h with rfl | rfl | rfl <;> norm_num

theorem FitsIn.mono {size wide : ℕ} {x : ℤ} (h : FitsIn size x) (hle : size ≤ wide) :
    FitsIn wide x := by
  have hpow : (2:ℤ)^(8*size-1) ≤ 2^(8*wide-1) := pow_le_pow_right₀ (by norm_num) (by omega)
  exact ⟨by linarith [h.1], by linarith [h.2]⟩

theorem elementSize_valueEncoding (v : ℤ) : ElementSize (_intsetValueEncoding v) := by
  unfold _intsetValueEncoding
  split
  · exact Or.inr (Or.inr rfl)
  · split
    · exact Or.inr (Or.inl rfl)
    · exact Or.inl rfl

theorem valueEncoding_le_iff {size : ℕ} {v : ℤ} (hsize : ElementSize size) (hv : FitsIn 8 v) :
    _intsetValueEncoding v ≤ size ↔ FitsIn size v := by
  obtain ⟨hlo, hhi⟩ := hv
  norm_num at hlo hhi
  unfold _intsetValueEncoding intsetEncInt64 intsetEncInt32 intsetEncInt16 FitsIn
  rcases hsize with rfl | rfl | rfl
  · norm_num
    split_ifs <;> omega
  · norm_num
    split_ifs <;> omega
  · norm_num
    split_ifs <;> omega

theorem outside_of_not_fits {size : ℕ} {v : ℤ} (h : ¬FitsIn size v) :
    (v < 0 ∧ ∀ x, FitsIn size x → v < x) ∨ (¬v < 0 ∧ ∀ x, FitsIn size x → x < v) := by
  have hpos : (0:ℤ) < 2^(8*size-1) := by positivity
  unfold FitsIn at h ⊢
  by_cases hneg : v < 0
  · refine Or.inl ⟨hneg, ?_⟩
    intro x hx
    by_contra hle
    exact h ⟨by linarith [hx.1], by linarith⟩
  · refine Or.inr ⟨hneg, ?_⟩
    intro x hx
    by_contra hle
    exact h ⟨by linarith, by linarith [hx.2]⟩

theorem _intsetGetEncoded_eq {enc : ℕ} (h : ElementSize enc) (is : Intset) (pos : ℤ) :
    _intsetGetEncoded is pos enc = loadElement is pos enc := by
  rcases h with rfl | rfl | rfl <;> rfl

theorem _intsetSet_eq {t : Intset} (h : ElementSize t.encoding) (pos value : ℤ) :
    _intsetSet t pos value = storeElement t pos t.encoding value := by
  unfold _intsetSet
  rcases h with h | h | h <;> rw [h] <;> rfl

theorem elementOffset_nat (pos size : ℕ) : elementOffset pos size = .ok (pos*size) := by
  rw [elementOffset, if_neg (by omega), Int.toNat_natCast]

variable {is : Intset} {xs : List ℤ} {a c : Bytes} {pos size : ℕ}

theorem loadElement_at {x : ℤ} (hm : is.contents = a ++ (leBytes size (toUnsigned (8*size) x) ++ c))
    (ha : a.length = pos*size) (hsize : 0 < size) (hx : FitsIn size x) :
    loadElement is pos size = .ok x := by
  have hlt : toUnsigned (8*size) x < 256^size := by
    rw [show (256:ℕ) = 2^8 by norm_num, ← pow_mul]
    exact toUnsigned_lt (8*size) x
  rw [loadElement, elementOffset_nat, ok_bind, loadBytes_at hm ha.symm (by simp),
    ok_bind, leNat_leBytes_of_lt hlt, toSigned_toUnsigned _ (by omega) x hx.1 hx.2]
  rfl

theorem storeElement_at {t : Intset} {o : Bytes} {p s : ℕ} (x : ℤ)
    (hm : t.contents = a ++ (o ++ c)) (ha : a.length = p*s) (hold : o.length = s) :
    storeElement t p s x =
      .ok { t with contents := a ++ (leBytes s (toUnsigned (8*s) x) ++ c) } := by
  rw [storeElement, elementOffset_nat, ok_bind,
    storeBytes_at hm ha.symm (by rw [leBytes_length, hold])]
  rfl

theorem encodeInts_split {i : ℕ} (hi : i < xs.length) (size : ℕ) : encodeInts size xs =
    encodeInts size (xs.take i) ++
      (leBytes size (toUnsigned (8*size) xs[i]) ++ encodeInts size (xs.drop (i+1))) := by
  rw [← encodeInts_cons, ← encodeInts_append, List.getElem_cons_drop, List.take_append_drop]

theorem Stores.length_lt (h : Stores is xs) : xs.length < 2^31 := by
  have hle : xs.length*2 ≤ xs.length*is.encoding := Nat.mul_le_mul_left _ h.encoding.pos
  have := h.size
  omega

theorem Stores.get (h : Stores is xs) {i : ℕ} (hi : i < xs.length) :
    _intsetGet is i = .ok xs[i] := by
  rw [_intsetGet, _intsetGetEncoded_eq h.encoding]
  have hpos := h.encoding.pos
  apply loadElement_at (h.contents.trans (encodeInts_split hi is.encoding))
  · rw [encodeInts_length, List.length_take, Nat.min_eq_left hi.le]
  · omega
  · exact h.fits _ (List.getElem_mem hi)

theorem intsetNew_stores : Stores intsetNew [] where
  encoding := Or.inl rfl
  length := rfl
  contents := rfl
  fits := by simp
  sorted := List.Pairwise.nil
  size := by norm_num

theorem intsetGet_spec (h : Stores is xs) (pos : ℕ) : intsetGet is pos = .ok xs[pos]? := by
  unfold intsetGet
  have hlt := h.length_lt
  by_cases hpos : pos < xs.length
  · rw [if_pos (by rw [h.length]; exact hpos), toInt_of_fits (by omega) (by omega), h.get hpos,
      List.getElem?_eq_getElem hpos]
    rfl
  · rw [if_neg (by rw [h.length]; exact hpos), List.getElem?_eq_none (by omega)]

end RedisCore.IntegerSet
