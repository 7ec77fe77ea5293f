import RedisCore.ListpackLimit

/-! `lpSeek` walks from the nearer end of a listpack, as far as the count in the header tells which
one it is. Indexes are of type `long`, and the code adds to them only where the sum fits. -/

namespace RedisCore.Listpack

variable {lp : Bytes} {bs : List Body} {i j : ℕ}

def seekLoop (step : ℕ → Except Fault (Option ℕ)) : ℕ → Option ℕ → Except Fault (Option ℕ)
  | 0, ele => .ok ele
  | _+1, none => .ok none
  | steps+1, some p => do
    let ele ← step p
    seekLoop step steps ele

def seekForward (lp : Bytes) (index : ℤ) : Except Fault (Option ℕ) := do
  let ele ← lpFirst lp
  seekLoop (lpNext lp) index.toNat ele

def seekBackward (lp : Bytes) (index : ℤ) : Except Fault (Option ℕ) := do
  let ele ← lpLast lp
  seekLoop (lpPrev lp) (-1-index).toNat ele

def lpSeek (lp : Bytes) (index : ℤ) : Except Fault (Option ℕ) := do
  let numele ← lpGetNumElements lp
  if numele ≠ lpHdrNumeleUnknown then
    let index := if index < 0 then numele+index else index
    if index < 0 then .ok none
    else if index ≥ numele then .ok none
    -- the index of the right half is made negative
    else if index > numele/2 then seekBackward lp (index-numele)
    else seekForward lp index
  else if index < 0 then seekBackward lp index
  else seekForward lp index

def elementPos (bs : List Body) (i : ℕ) : ℕ := bodyPos (bs.take i)

def pointerTo (bs : List Body) (i : ℕ) : Option ℕ :=
  if i < bs.length then some (elementPos bs i) else none

theorem elementPos_succ (hj : j < bs.length) :
    elementPos bs (j+1) = elementPos bs j+bs[j].entry.length := by
  have htake : bs.take (j+1) = bs.take j ++ [bs[j]] := (List.take_append_getElem hj).symm
  rw [elementPos, htake, bodyPos, entries_append, entries_cons, entries_nil, List.append_nil,
    List.length_append, ← Nat.add_assoc]
  rfl

theorem Encodes.split (h : Encodes lp bs) (i : ℕ) : ∃ a, lp = a ++ (entries (bs.drop i) ++ [lpEof]) ∧
    a.length = elementPos bs i := by
  obtain ⟨n, -, rfl⟩ := h.layout
  refine ⟨header (totalLen bs) n ++ entries (bs.take i), ?_, by simp [elementPos, bodyPos]⟩
  rw [List.append_assoc, ← List.append_assoc (entries (bs.take i)), ← entries_append,
    List.take_append_drop]

theorem loadByte_pointer (h : Encodes lp bs) (hi : i ≤ bs.length) :
    ∃ b, loadByte lp (elementPos bs i) = .ok b ∧
      (if b = lpEof then none else some (elementPos bs i)) = pointerTo bs i := by
  obtain ⟨a, hlp, ha⟩ := h.split i
  by_cases hlt : i < bs.length
  · obtain ⟨v, hreads⟩ := bs[i].reads
    obtain ⟨b, rest, hfirst, hne⟩ := hreads.first
    have hm : lp = a ++ b :: (rest ++ (lpEncodeBacklen bs[i].bytes.length ++
        (entries (bs.drop (i+1)) ++ [lpEof]))) := by
      rw [hlp, List.drop_eq_getElem_cons hlt, entries_cons, Body.entry]
      nth_rewrite 1 [hfirst]
      simp
    exact ⟨b, loadByte_at hm ha.symm, by rw [if_neg hne, pointerTo, if_pos hlt]⟩
  · rw [List.drop_of_length_le (by omega), entries_nil, List.nil_append] at hlp
    exact ⟨lpEof, loadByte_at hlp ha.symm, by rw [if_pos rfl, pointerTo, if_neg hlt]⟩

theorem lpFirst_pointer (h : Encodes lp bs) : lpFirst lp = .ok (pointerTo bs 0) := by
  obtain ⟨b, hload, hptr⟩ := loadByte_pointer h (Nat.zero_le _)
  have hhead : elementPos bs 0 = lpHdrSize := rfl
  rw [hhead] at hload hptr
  rw [lpFirst, hload, ok_bind, hptr]

theorem lpNext_pointer (h : Encodes lp bs) (hj : j < bs.length) :
    lpNext lp (elementPos bs j) = .ok (pointerTo bs (j+1)) := by
  obtain ⟨a, hlp, ha⟩ := h.split j
  have hm : lp = a ++ (bs[j].entry ++ (entries (bs.drop (j+1)) ++ [lpEof])) := by
    rw [hlp, List.drop_eq_getElem_cons hj, entries_cons, List.append_assoc]
  obtain ⟨b, hload, hptr⟩ := loadByte_pointer h (Nat.succ_le_of_lt hj)
  rw [lpNext, lpSkip, lpEntryLen_body _ hm ha.symm, ok_bind, ← elementPos_succ hj,
    ok_bind, hload, ok_bind, hptr]

theorem lpPrev_pointer (h : Encodes lp bs) (hj : j < bs.length) :
    lpPrev lp (elementPos bs (j+1)) = .ok (some (elementPos bs j)) := by
  obtain ⟨a, hlp, ha⟩ := h.split j
  let l := bs[j].bytes.length
  have hentry : bs[j].entry.length = l+(lpEncodeBacklen l).length := List.length_append
  have hm : lp = (a ++ bs[j].bytes) ++ (lpEncodeBacklen l ++ (entries (bs.drop (j+1)) ++ [lpEof])) := by
    rw [hlp, List.drop_eq_getElem_cons hj, entries_cons, Body.entry]
    simp only [List.append_assoc]
    rfl
  have hpos := lpEncodeBacklen_length_pos l
  have hnext := elementPos_succ hj
  have hhead : lpHdrSize ≤ elementPos bs j := Nat.le_add_right _ _
  have hshort : l < 2^35 := lt_trans bs[j].short (by norm_num)
  have hdecode : lpDecodeBacklen lp (elementPos bs (j+1)-1) = .ok l := by
    apply lpDecodeBacklen_at hshort hm
    rw [List.length_append, ha]
    change _ = _+l+_
    omega
  rw [lpPrev, if_neg (by omega), hdecode, ok_bind]
  refine congrArg (fun n => Except.ok (some n)) ?_
  omega

theorem lpPrev_first (bs : List Body) : lpPrev lp (elementPos bs 0) = .ok none := if_pos rfl

theorem lpLast_pointer (h : Encodes lp bs) : lpLast lp =
    .ok (if bs = [] then none else some (elementPos bs (bs.length-1))) := by
  have htotal : totalLen bs-1 = elementPos bs bs.length := by
    rw [elementPos, List.take_length, totalLen, bodyPos, Nat.add_sub_cancel]
  rw [lpLast, h.total, ok_bind, htotal]
  by_cases hnil : bs = []
  · rw [if_pos hnil, hnil]
    exact lpPrev_first []
  · have hlen : 0 < bs.length := List.length_pos_iff.2 hnil
    have hprev := lpPrev_pointer h (j := bs.length-1) (by omega)
    rw [Nat.sub_add_cancel hlen] at hprev
    rw [if_neg hnil, hprev]

theorem seekLoop_none (step : ℕ → Except Fault (Option ℕ)) (steps : ℕ) :
    seekLoop step steps none = .ok none := by
  cases steps <;> rfl

theorem seekLoop_forward (h : Encodes lp bs) (steps : ℕ) : ∀ j,
    seekLoop (lpNext lp) steps (pointerTo bs j) = .ok (pointerTo bs (j+steps)) := by
  induction steps with
  | zero => exact fun j => rfl
  | succ steps ih =>
    intro j
    by_cases hj : j < bs.length
    · have hstep := ih (j+1)
      rw [Nat.add_right_comm] at hstep
      rw [pointerTo, if_pos hj, seekLoop, lpNext_pointer h hj, ok_bind, hstep]
      rfl
    · have hend : pointerTo bs (j+(steps+1)) = none := if_neg (by omega)
      rw [pointerTo, if_neg hj, seekLoop_none, hend]

theorem seekLoop_backward (h : Encodes lp bs) (steps : ℕ) : ∀ j, j < bs.length →
    seekLoop (lpPrev lp) steps (some (elementPos bs j)) =
      .ok (if steps ≤ j then some (elementPos bs (j-steps)) else none) := by
  induction steps with
  | zero => exact fun j hj => rfl
  | succ steps ih =>
    intro j hj
    cases j with
    | zero => rw [seekLoop, lpPrev_first, ok_bind, seekLoop_none, if_neg (by omega)]
    | succ j =>
      rw [seekLoop, lpPrev_pointer h (by omega), ok_bind, ih j (by omega),
        Nat.add_sub_add_right]
      simp only [Nat.add_le_add_iff_right]

theorem seekForward_finds (h : Encodes lp bs) (i : ℕ) :
    seekForward lp i = .ok (pointerTo bs i) := by
  rw [seekForward, lpFirst_pointer h, ok_bind, Int.toNat_natCast, seekLoop_forward h,
    Nat.zero_add]

theorem seekBackward_finds (h : Encodes lp bs) (hi : 0 < i) : seekBackward lp (-i) =
    .ok (if i ≤ bs.length then some (elementPos bs (bs.length-i)) else none) := by
  have hsteps : (-1- -(i : ℤ)).toNat = i-1 := by omega
  rw [seekBackward, lpLast_pointer h, ok_bind, hsteps]
  by_cases hnil : bs = []
  · have hlen : bs.length = 0 := List.length_eq_zero_iff.2 hnil
    rw [if_pos hnil, seekLoop_none, if_neg (by omega)]
  · have hlen : 0 < bs.length := List.length_pos_iff.2 hnil
    rw [if_neg hnil, seekLoop_backward h _ _ (by omega)]
    by_cases hle : i ≤ bs.length
    · rw [if_pos (by omega), if_pos hle, show bs.length-1-(i-1) = bs.length-i by omega]
    · rw [if_neg (by omega), if_neg hle]

theorem Encodes.numele (h : Encodes lp bs) : ∃ n, lpGetNumElements lp = .ok n ∧
    ((n = bs.length ∧ n < lpHdrNumeleUnknown) ∨ n = lpHdrNumeleUnknown) := by
  obtain ⟨n, hn, rfl⟩ := h.layout
  refine ⟨n, lpGetNumElements_header ?_ _, hn⟩
  unfold lpHdrNumeleUnknown at hn
  omega

theorem lpSeek_nonneg (h : Encodes lp bs) (i : ℕ) : lpSeek lp i = .ok (pointerTo bs i) := by
  obtain ⟨n, hload, hn⟩ := h.numele
  rw [lpSeek, hload, ok_bind]
  rcases hn with ⟨rfl, hknown⟩ | rfl
  · rw [if_pos (by omega)]
    dsimp only
    rw [if_neg (by omega : ¬(i : ℤ) < 0), if_neg (by omega)]
    by_cases hi : i < bs.length
    · rw [if_neg (by omega)]
      by_cases hhalf : (i : ℤ) > (bs.length : ℤ)/2
      · have hneg : (i : ℤ)-bs.length = -((bs.length-i : ℕ) : ℤ) := by omega
        rw [if_pos hhalf, hneg, seekBackward_finds h (by omega), if_pos (Nat.sub_le _ _),
          Nat.sub_sub_self hi.le, pointerTo, if_pos hi]
      · rw [if_neg hhalf, seekForward_finds h]
    · rw [if_pos (by omega), pointerTo, if_neg hi]
  · rw [if_neg (by simp), if_neg (by omega), seekForward_finds h]

theorem lpSeek_neg (h : Encodes lp bs) (hi : 0 < i) : lpSeek lp (-i) =
    .ok (if i ≤ bs.length then some (elementPos bs (bs.length-i)) else none) := by
  obtain ⟨n, hload, hn⟩ := h.numele
  have hseek := lpSeek_nonneg h (bs.length-i)
  rw [lpSeek, hload, ok_bind] at hseek ⊢
  rcases hn with ⟨rfl, hknown⟩ | rfl
  · rw [if_pos (by omega)] at hseek ⊢
    dsimp only at hseek ⊢
    rw [if_pos (by omega : -(i : ℤ) < 0)]
    by_cases hle : i ≤ bs.length
    · -- the index is that of the element from the head
      have hindex : (bs.length : ℤ)+ -(i : ℤ) = ((bs.length-i : ℕ) : ℤ) := by omega
      rw [if_neg (by omega : ¬((bs.length-i : ℕ) : ℤ) < 0)] at hseek
      rw [hindex, hseek, pointerTo, if_pos (by omega), if_pos hle]
    · rw [if_pos (by omega), if_neg hle]
  · rw [if_neg (by simp), if_pos (by omega), seekBackward_finds h hi]

/-- Every index leads to its element or to NULL, and `lpPrev` goes back where `lpNext` came from. -/
theorem lpSeek_finds (h : Encodes lp bs) :
    (∀ i, i < bs.length → lpSeek lp i = .ok (some (elementPos bs i))) ∧
    (∀ i, 0 < i → i ≤ bs.length → lpSeek lp (-i) = .ok (some (elementPos bs (bs.length-i)))) ∧
    (∀ index : ℤ, index < -bs.length ∨ (bs.length : ℤ) ≤ index → lpSeek lp index = .ok none) ∧
    ∀ i, i+1 < bs.length → lpNext lp (elementPos bs i) = .ok (some (elementPos bs (i+1))) ∧
      lpPrev lp (elementPos bs (i+1)) = .ok (some (elementPos bs i)) := by
  refine ⟨fun i hi => ?_, fun i hpos hi => ?_, fun index hout => ?_, fun i hi => ⟨?_, ?_⟩⟩
  · rw [lpSeek_nonneg h, pointerTo, if_pos hi]
  · rw [lpSeek_neg h hpos, if_pos hi]
  · by_cases hneg : index < 0
    · obtain ⟨i, rfl⟩ : ∃ i : ℕ, index = -i := ⟨index.natAbs, by omega⟩
      rw [lpSeek_neg h (by omega), if_neg (by omega)]
    · obtain ⟨i, rfl⟩ : ∃ i : ℕ, index = i := ⟨index.toNat, by omega⟩
      rw [lpSeek_nonneg h, pointerTo, if_neg (by omega)]
  · rw [lpNext_pointer h (by omega), pointerTo, if_pos hi]
  · exact lpPrev_pointer h (by omega)

/-- A string of 300 bytes, whose backlen takes two bytes, between two numbers. -/
def mixedBodies : List Body :=
  [⟨[7], by decide, _, reads_7BitUint (n := 7) (by norm_num)⟩,
    ⟨_, by rw [List.length_cons, List.length_cons, List.length_replicate]; norm_num, _,
      reads_12BitStr (s := List.replicate 300 97) (by rw [List.length_replicate]; norm_num)⟩,
    ⟨[9], by decide, _, reads_7BitUint (n := 9) (by norm_num)⟩]

def mixedElements : Bytes := header 315 3 ++ (entries mixedBodies ++ [lpEof])

theorem lpSeek_finds_mixed :
    [0, 1, 2, -2].map (lpSeek mixedElements) = [.ok (some 6), .ok (some 8), .ok (some 312), .ok (some 8)] ∧
    lpSeek mixedElements 3 = .ok none ∧
    lpNext mixedElements 8 = .ok (some 312) ∧ lpPrev mixedElements 312 = .ok (some 8) := by
  have htotal : totalLen mixedBodies = 315 := by decide +kernel
  have hpos : [0, 1, 2].map (elementPos mixedBodies) = [6, 8, 312] := by decide +kernel
  have h : Encodes mixedElements mixedBodies :=
    ⟨by rw [htotal]; decide, 3, Or.inl ⟨rfl, by decide⟩, by rw [htotal]; rfl⟩
  obtain ⟨hhead, htail, hout, hsteps⟩ := lpSeek_finds h
  simp only [List.map_cons, List.map_nil, List.cons.injEq, and_true] at hpos ⊢
  obtain ⟨h0, h1, h2⟩ := hpos
  refine ⟨⟨?_, ?_, ?_, ?_⟩, hout 3 (Or.inr le_rfl), ?_, ?_⟩
  · rw [← h0]
    exact hhead 0 (by decide)
  · rw [← h1]
    exact hhead 1 (by decide)
  · rw [← h2]
    exact hhead 2 (by decide)
  · rw [← h1]
    exact htail 2 (by decide) (by decide)
  · rw [← h1, ← h2]
    exact (hsteps 1 (by decide)).1
  · rw [← h1, ← h2]
    exact (hsteps 1 (by decide)).2

end RedisCore.Listpack
