import RedisCore.ListpackRefinement

namespace RedisCore.Listpack
open List (append_assoc length_append)

structure Body where
  bytes : Bytes
  short : bytes.length < 2^32
  reads : ∃ v, Reads bytes v

def Body.entry (b : Body) : Bytes := b.bytes ++ lpEncodeBacklen b.bytes.length

def entries (bs : List Body) : Bytes := bs.flatMap Body.entry

def totalLen (bs : List Body) : ℕ := lpHdrSize+(entries bs).length+1

structure Encodes (lp : Bytes) (bs : List Body) : Prop where
  size : totalLen bs < 2^32
  layout : ∃ n, ((n = bs.length ∧ n < lpHdrNumeleUnknown) ∨ n = lpHdrNumeleUnknown) ∧
    lp = header (totalLen bs) n ++ (entries bs ++ [lpEof])

def bodyPos (xs : List Body) : ℕ := lpHdrSize+(entries xs).length

def writtenLen : Option Bytes → ℕ
  | some s => (payload s).length
  | none => 0

def addedLen : Option Bytes → ℕ
  | some s => (payload s).length+(lpEncodeBacklen (payload s).length).length
  | none => 0

def replacedLen (ele : Option Bytes) (whr : Where) : List Body → ℕ
  | y :: _ => if ele = none ∨ whr = .replace then y.entry.length else 0
  | [] => 0

def exactSize (ele : Option Bytes) (whr : Where) (xs ys : List Body) : ℕ :=
  totalLen (xs ++ ys)+addedLen ele-replacedLen ele whr ys

/-- What the size limit promises, for the exact new size `exact`. -/
structure LimitExact (lp : Bytes) (ele : Option Bytes) (p : ℕ) (whr : Where) (exact : ℕ) :
    Prop where
  refused : lpInsert lp ele p whr = .ok none ↔ uint32Max < exact
  accepted : exact ≤ uint32Max → writtenLen ele = lpEnclen ele ∧
    ∃ lp' newp, lpInsert lp ele p whr = .ok (some (lp', newp)) ∧ lp'.length = exact ∧
      lpGetTotalBytes lp' = .ok exact

@[simp] theorem entries_nil : entries [] = [] := rfl

@[simp] theorem entries_cons (b : Body) (bs : List Body) :
    entries (b :: bs) = b.entry ++ entries bs := rfl

@[simp] theorem entries_append (xs ys : List Body) :
    entries (xs ++ ys) = entries xs ++ entries ys := by
  simp [entries]

theorem integer_short {s : Bytes} {v : ℤ} (h : lpStringToInt64 s = some v) : s.length ≤ 20 := by
  obtain ⟨htext, hl, hu⟩ := string2ll_some h
  have hlen := decimal_length hl hu
  rw [htext] at hlen
  omega

theorem payload_string {s : Bytes} (h : lpStringToInt64 s = none) : payload s = lpEncodeString s := by
  have htype : (lpEncodeGetType s).1 = none := by
    unfold lpEncodeGetType
    rw [h]
    dsimp only
    split_ifs <;> rfl
  rw [payload, htype]
  rfl

theorem payload_short {s : Bytes} (h : s.length+5 < 2^32) : (payload s).length < 2^32 := by
  cases hi : lpStringToInt64 s with
  | some v =>
    have hlen : (lpEncodeInt v).length ≤ 9 := by
      unfold lpEncodeInt
      split_ifs <;> simp
    have hpay : payload s = lpEncodeInt v := by
      unfold payload lpEncodeGetType
      rw [hi]
      rfl
    rw [hpay]
    omega
  | none =>
    rw [payload_string hi, lpEncodeString]
    split_ifs <;> simp only [List.length_cons, length_append, leBytes_length] <;> omega

theorem long_string {s : Bytes} (h : 2^32 ≤ s.length+5) (hs : s.length < 2^32) :
    lpEnclen (some s) = s.length+5-2^32 ∧ lpBacklenSize (some s) = 1 ∧
      (payload s).length = s.length+5 := by
  have hnone : lpStringToInt64 s = none := by
    cases hi : lpStringToInt64 s with
    | none => rfl
    | some v =>
      have := integer_short hi
      omega
  have henc : lpEnclen (some s) = s.length+5-2^32 := by
    rw [lpEnclen, lpEncodeGetType, hnone]
    dsimp only
    rw [if_neg (by omega), if_neg (by omega)]
    dsimp only
    omega
  refine ⟨henc, ?_, ?_⟩
  · rw [lpBacklenSize, henc, lpEncodeBacklen, if_pos (by omega)]
    rfl
  · rw [payload_string hnone, lpEncodeString, if_neg (by omega), if_neg (by omega)]
    simp only [List.length_cons, length_append, leBytes_length]
    omega

theorem lpInsertAt_guard {lp : Bytes} {size replaced poff : ℕ} (ele : Option Bytes) {whr : Where}
    (htotal : lpGetTotalBytes lp = .ok size)
    (hreplaced : (if whr = .replace then lpEntryLen lp poff else .ok 0) = .ok replaced) :
    lpInsertAt lp ele poff whr = .ok none ↔
      uint32Max < size+lpEnclen ele+lpBacklenSize ele-replaced := by
  unfold lpInsertAt
  dsimp only
  rw [htotal, ok_bind, hreplaced, ok_bind]
  by_cases hover : size+lpEnclen ele+lpBacklenSize ele-replaced > uint32Max
  · rw [if_pos hover]
    exact iff_of_true rfl hover
  · rw [if_neg hover]
    refine iff_of_false ?_ hover
    intro hnone
    obtain ⟨lp1, -, hnone⟩ := except_bind_eq_ok.1 hnone
    obtain ⟨b, -, hnone⟩ := except_bind_eq_ok.1 hnone
    obtain ⟨lp2, -, hnone⟩ := except_bind_eq_ok.1 hnone
    obtain ⟨lp3, -, hnone⟩ := except_bind_eq_ok.1 hnone
    cases hnone

theorem lpInsertAt_accepts {n : ℕ} (hn : n < 2^16) (pre r post : Bytes) (ele : Option Bytes)
    (whr : Where) (hele : ∀ s ∈ ele, (payload s).length < 2^32)
    (hold : lpHdrSize+(pre ++ (r ++ post)).length < 2^32)
    (hnew : lpHdrSize+(pre ++ (elements ele.toList ++ post)).length < 2^32) (hpost : post ≠ [])
    (hreplaced : (if whr = .replace then
        lpEntryLen (header (lpHdrSize+(pre ++ (r ++ post)).length) n ++ (pre ++ (r ++ post)))
          (lpHdrSize+pre.length) else .ok 0) = .ok r.length) :
    ∃ newp, lpInsertAt (header (lpHdrSize+(pre ++ (r ++ post)).length) n ++ (pre ++ (r ++ post)))
        ele (lpHdrSize+pre.length) whr =
      .ok (some (header (lpHdrSize+(pre ++ (elements ele.toList ++ post)).length)
        (nextCount n ele whr) ++ (pre ++ (elements ele.toList ++ post)), newp)) := by
  have hroom : lpEnclen ele+lpBacklenSize ele = (elements ele.toList).length := by
    cases ele with
    | none => rfl
    | some s => simp [lpEnclen, lpBacklenSize, enclen_eq (hele s rfl), element]
  have hsize : lpHdrSize+(pre ++ (r ++ post)).length+(elements ele.toList).length-r.length =
      lpHdrSize+(pre ++ (elements ele.toList ++ post)).length := by
    simp only [length_append]
    omega
  have hblock : header (lpHdrSize+(pre ++ (r ++ post)).length) n ++ (pre ++ (r ++ post)) =
      (header (lpHdrSize+(pre ++ (r ++ post)).length) n ++ pre) ++ (r ++ post) := by
    rw [append_assoc]
  have hpos : (header (lpHdrSize+(pre ++ (r ++ post)).length) n ++ pre).length =
      lpHdrSize+pre.length := by
    rw [length_append, header_length]
  have hlen : ((header (lpHdrSize+(pre ++ (r ++ post)).length) n ++ pre) ++ (r ++ post)).length =
      lpHdrSize+(pre ++ (r ++ post)).length := by
    rw [← hblock, length_append, header_length]
  have hnewlen : (header (lpHdrSize+(pre ++ (r ++ post)).length) n ++ pre).length+
      (elements ele.toList).length+post.length =
        lpHdrSize+(pre ++ (elements ele.toList ++ post)).length := by
    rw [hpos]
    simp only [length_append]
    omega
  obtain ⟨x, hx, hmove⟩ := lpRelocate_at
    (header (lpHdrSize+(pre ++ (r ++ post)).length) n ++ pre) r post (elements ele.toList).length
  rw [hlen, hnewlen, hpos] at hmove
  have htotal := lpGetTotalBytes_header (n := n) hold (pre ++ (r ++ post))
  obtain ⟨b, hb⟩ : ∃ b, loadByte ((header (lpHdrSize+(pre ++ (r ++ post)).length) n ++ pre) ++
      (x ++ post)) (lpHdrSize+pre.length) = .ok b := by
    have hpostlen := List.length_pos_of_ne_nil hpost
    have hlt : lpHdrSize+pre.length < ((header (lpHdrSize+(pre ++ (r ++ post)).length) n ++ pre) ++
        (x ++ post)).length := by
      rw [length_append, hpos, length_append]
      omega
    rw [loadByte, List.getElem?_eq_getElem hlt]
    exact ⟨_, rfl⟩
  have hstore := lpStoreEntry_at (header (lpHdrSize+(pre ++ (r ++ post)).length) n ++ pre) post ele
    hele x hx
  rw [hpos] at hstore
  have hhead := @lpUpdateHeader_at (lpHdrSize+(pre ++ (r ++ post)).length) n
    (lpHdrSize+(pre ++ (elements ele.toList ++ post)).length) hn ele whr
    (pre ++ (elements ele.toList ++ post))
  refine ⟨if ele = none ∧ b = lpEof then none else some (lpHdrSize+pre.length), ?_⟩
  unfold lpInsertAt
  dsimp only
  rw [htotal, ok_bind, hreplaced, ok_bind, Nat.add_assoc, hroom, hsize,
    if_neg (by unfold uint32Max; omega), hblock, hmove, ok_bind, hb, ok_bind, hstore,
    ok_bind, append_assoc, hhead, ok_bind]

section Limit

variable {lp : Bytes} {ele : Option Bytes} {p : ℕ} {whr whr' : Where} {xs rs ys : List Body}

theorem lpEntryLen_body {m a c : Bytes} (y : Body) (hm : m = a ++ (y.entry ++ c)) (hp : p = a.length) :
    lpEntryLen m p = .ok y.entry.length := by
  obtain ⟨v, hreads⟩ := y.reads
  have hm' : m = a ++ (y.bytes ++ (lpEncodeBacklen y.bytes.length ++ c)) := by
    rw [hm, Body.entry, append_assoc]
  rw [lpEntryLen, hreads.size m a _ p hm' hp, ok_bind, Body.entry, length_append]

theorem Encodes.total (h : Encodes lp xs) : lpGetTotalBytes lp = .ok (totalLen xs) := by
  obtain ⟨n, -, rfl⟩ := h.layout
  exact lpGetTotalBytes_header h.size _

theorem replaced_read (h : Encodes lp (xs ++ (rs ++ ys)))
    (hr : (whr' = .replace ∧ ∃ y, rs = [y]) ∨ (whr' ≠ .replace ∧ rs = [])) :
    (if whr' = .replace then lpEntryLen lp (bodyPos xs) else .ok 0) = .ok (entries rs).length := by
  rcases hr with ⟨hw, y, rfl⟩ | ⟨hw, rfl⟩
  · obtain ⟨n, -, rfl⟩ := h.layout
    rw [if_pos hw, lpEntryLen_body (a := header (totalLen (xs ++ ([y] ++ ys))) n ++ entries xs)
      (c := entries ys ++ [lpEof]) y (by simp) (by simp [bodyPos])]
    simp
  · rw [if_neg hw]
    rfl

theorem limitExact_of_short (h : Encodes lp (xs ++ (rs ++ ys)))
    (hr : (whr' = .replace ∧ ∃ y, rs = [y]) ∨ (whr' ≠ .replace ∧ rs = []))
    (hins : lpInsert lp ele p whr = lpInsertAt lp ele (bodyPos xs) whr')
    (hele : ∀ s ∈ ele, (payload s).length < 2^32) :
    LimitExact lp ele p whr (totalLen (xs ++ (rs ++ ys))+addedLen ele-(entries rs).length) := by
  have hadded : lpEnclen ele+lpBacklenSize ele = addedLen ele := by
    cases ele with
    | none => rfl
    | some s => simp only [lpEnclen, lpBacklenSize, addedLen, enclen_eq (hele s rfl)]
  have hlen : (elements ele.toList).length = addedLen ele := by
    cases ele with
    | none => rfl
    | some s => simp [addedLen, element]
  have hread := replaced_read h hr
  constructor
  · rw [hins, lpInsertAt_guard ele h.total hread, Nat.add_assoc, hadded]
  · intro hle
    have hwritten : writtenLen ele = lpEnclen ele := by
      cases ele with
      | none => rfl
      | some s => exact (enclen_eq (hele s rfl)).symm
    obtain ⟨n, hcnt, hlp⟩ := h.layout
    have hn : n < 2^16 := by
      unfold lpHdrNumeleUnknown at hcnt
      omega
    have hbody : entries (xs ++ (rs ++ ys)) ++ [lpEof] =
        entries xs ++ (entries rs ++ (entries ys ++ [lpEof])) := by simp
    have htotal : totalLen (xs ++ (rs ++ ys)) =
        lpHdrSize+(entries xs ++ (entries rs ++ (entries ys ++ [lpEof]))).length := by
      rw [← hbody, totalLen, length_append, List.length_singleton, Nat.add_assoc]
    have hexact : totalLen (xs ++ (rs ++ ys))+addedLen ele-(entries rs).length =
        lpHdrSize+(entries xs ++ (elements ele.toList ++ (entries ys ++ [lpEof]))).length := by
      rw [htotal, ← hlen]
      simp only [length_append]
      omega
    rw [hexact] at hle ⊢
    have hlt : lpHdrSize+(entries xs ++ (elements ele.toList ++ (entries ys ++ [lpEof]))).length <
        2^32 := by
      unfold uint32Max at hle
      omega
    have hold := h.size
    rw [hbody, htotal] at hlp
    rw [htotal] at hold
    rw [hlp] at hread
    obtain ⟨newp, hrun⟩ := lpInsertAt_accepts hn (entries xs) (entries rs) (entries ys ++ [lpEof])
      ele whr' hele hold hlt (by simp) hread
    have hpos : lpHdrSize+(entries xs).length = bodyPos xs := rfl
    rw [← hlp, hpos, ← hins] at hrun
    refine ⟨hwritten, _, newp, hrun, ?_, lpGetTotalBytes_header hlt _⟩
    rw [length_append, header_length]

theorem limitExact_of_long {s : Bytes} (h : Encodes lp (xs ++ (rs ++ ys)))
    (hr : (whr' = .replace ∧ ∃ y, rs = [y]) ∨ (whr' ≠ .replace ∧ rs = []))
    (hins : lpInsert lp (some s) p whr = lpInsertAt lp (some s) (bodyPos xs) whr')
    (hlong : 2^32 ≤ s.length+5) (hs : s.length < 2^32) :
    LimitExact lp (some s) p whr
        (totalLen (xs ++ (rs ++ ys))+addedLen (some s)-(entries rs).length) ↔
      2^32 ≤ totalLen (xs ++ (rs ++ ys))+(s.length+5-2^32)+1-(entries rs).length := by
  obtain ⟨henc, hback, hpay⟩ := long_string hlong hs
  have hguard := lpInsertAt_guard (some s) h.total (replaced_read h hr)
  rw [henc, hback] at hguard
  have hfits : (entries rs).length+lpHdrSize+1 ≤ totalLen (xs ++ (rs ++ ys)) := by
    simp only [totalLen, entries_append, length_append]
    omega
  have hover : uint32Max < totalLen (xs ++ (rs ++ ys))+addedLen (some s)-(entries rs).length := by
    unfold uint32Max
    rw [addedLen, hpay]
    omega
  constructor
  · intro hexact
    have hnone := hexact.refused.2 hover
    rw [hins, hguard] at hnone
    unfold uint32Max at hnone
    omega
  · intro hle
    constructor
    · rw [hins, hguard]
      refine iff_of_true ?_ hover
      unfold uint32Max
      omega
    · intro hexact
      omega

theorem limitExact_core (h : Encodes lp (xs ++ (rs ++ ys)))
    (hr : (whr' = .replace ∧ ∃ y, rs = [y]) ∨ (whr' ≠ .replace ∧ rs = []))
    (hins : lpInsert lp ele p whr = lpInsertAt lp ele (bodyPos xs) whr')
    (hs : ∀ s ∈ ele, s.length < 2^32) :
    LimitExact lp ele p whr (totalLen (xs ++ (rs ++ ys))+addedLen ele-(entries rs).length) ↔
      ∀ s ∈ ele, s.length+5 < 2^32 ∨
        2^32 ≤ totalLen (xs ++ (rs ++ ys))+(s.length+5-2^32)+1-(entries rs).length := by
  cases ele with
  | none => exact iff_of_true (limitExact_of_short h hr hins (by simp)) (by simp)
  | some s =>
    simp only [Option.mem_def, Option.some.injEq, forall_eq'] at hs ⊢
    by_cases hshort : s.length+5 < 2^32
    · refine iff_of_true (limitExact_of_short h hr hins ?_) (Or.inl hshort)
      intro t ht
      obtain rfl : s = t := Option.some.inj ht
      exact payload_short hshort
    · rw [limitExact_of_long h hr hins (by omega) hs]
      exact ⟨Or.inr, fun h => h.resolve_left hshort⟩

end Limit

/-- `lpInsert` keeps the limit exactly when the size of the element does not wrap, or the block is
so full that even the wrapped size is refused. -/
theorem lpInsert_limit_iff {lp : Bytes} {xs ys : List Body} {ele : Option Bytes} {whr : Where}
    (h : Encodes lp (xs ++ ys)) (hpos : ys ≠ [] ∨ (ele ≠ none ∧ whr = .before))
    (hs : ∀ s ∈ ele, s.length < 2^32) :
    LimitExact lp ele (bodyPos xs) whr (exactSize ele whr xs ys) ↔
      ∀ s ∈ ele, s.length+5 < 2^32 ∨
        2^32 ≤ totalLen (xs ++ ys)+(s.length+5-2^32)+1-replacedLen ele whr ys := by
  unfold exactSize
  by_cases hrep : ele = none ∨ whr = .replace
  · -- the element at the position is replaced, or deleted
    cases ys with
    | nil =>
      rcases hpos with hne | ⟨hne, hw⟩
      · exact absurd rfl hne
      · rw [hw] at hrep
        rcases hrep with hnone | hc
        · exact absurd hnone hne
        · cases hc
    | cons y ys =>
      have hlen : (entries [y]).length = replacedLen ele whr (y :: ys) := by
        rw [replacedLen, if_pos hrep]
        simp
      have hins : lpInsert lp ele (bodyPos xs) whr = lpInsertAt lp ele (bodyPos xs) .replace := by
        rw [lpInsert]
        rcases hrep with hnone | rfl
        · rw [if_pos hnone]
        · rw [if_neg (by decide : ¬Where.replace = Where.after), ite_self]
      have hcore := limitExact_core (show Encodes lp (xs ++ ([y] ++ ys)) from h) (Or.inl ⟨rfl, y, rfl⟩) hins hs
      rw [hlen] at hcore
      exact hcore
  · have hele : ele ≠ none := fun hnone => hrep (Or.inl hnone)
    have hzero : replacedLen ele whr ys = 0 := by
      cases ys with
      | nil => rfl
      | cons y ys => rw [replacedLen, if_neg hrep]
    rw [hzero]
    by_cases hafter : whr = .after
    · cases ys with
      | nil =>
        rcases hpos with hne | ⟨-, hw⟩
        · exact absurd rfl hne
        · rw [hafter] at hw
          cases hw
      | cons y ys =>
        -- the position moves behind `y`
        have happ : xs ++ y :: ys = (xs ++ [y]) ++ ([] ++ ys) := by simp
        have hskip : lpSkip lp (bodyPos xs) = .ok (bodyPos (xs ++ [y])) := by
          obtain ⟨n, -, rfl⟩ := h.layout
          rw [lpSkip, lpEntryLen_body (a := header (totalLen (xs ++ y :: ys)) n ++ entries xs)
            (c := entries ys ++ [lpEof]) y (by simp) (by simp [bodyPos]), ok_bind]
          simp [bodyPos, Nat.add_assoc]
        have hins : lpInsert lp ele (bodyPos xs) whr =
            lpInsertAt lp ele (bodyPos (xs ++ [y])) .before := by
          rw [lpInsert, if_neg hele, if_pos hafter, hskip, ok_bind]
        rw [happ] at h ⊢
        exact limitExact_core h (Or.inr ⟨by simp, rfl⟩) hins hs
    · have hins : lpInsert lp ele (bodyPos xs) whr = lpInsertAt lp ele (bodyPos xs) whr := by
        rw [lpInsert, if_neg hele, if_neg hafter]
      exact limitExact_core (show Encodes lp (xs ++ ([] ++ ys)) from h)
        (Or.inr ⟨fun hw => hrep (Or.inr hw), rfl⟩) hins hs

theorem lpNew_encodes : Encodes lpNew [] := ⟨by decide, 0, Or.inl ⟨rfl, by decide⟩, rfl⟩

theorem lpInsert_limit_iff_new :
    LimitExact lpNew (some [104]) 6 .before (exactSize (some [104]) .before [] []) := by
  have hshort : ∀ s ∈ some [(104 : UInt8)], s.length < 2^32 := by
    intro s hs
    obtain rfl : [104] = s := Option.some.inj hs
    decide
  have hnew : Encodes lpNew ([] ++ []) := lpNew_encodes
  refine (lpInsert_limit_iff hnew (Or.inr ⟨by simp, rfl⟩) hshort).2 ?_
  intro s hs
  obtain rfl : [104] = s := Option.some.inj hs
  exact Or.inl (by decide)

theorem enclen_wraps {s : Bytes} (hs : s.length = 2^32-5) :
    ¬LimitExact lpNew (some s) 6 .before (exactSize (some s) .before [] []) := by
  have hins : lpInsert lpNew (some s) 6 .before = lpInsertAt lpNew (some s) 6 .before := by
    rw [lpInsert, if_neg (by simp), if_neg (by decide)]
  have hnew : Encodes lpNew ([] ++ ([] ++ [])) := lpNew_encodes
  have hlong := limitExact_of_long hnew
    (Or.inr ⟨by decide, rfl⟩) hins (by omega) (by omega)
  intro hexact
  have hfull := hlong.1 hexact
  rw [hs] at hfull
  exact absurd hfull (by decide)

/-- A string of 2^32-5 bytes in the empty listpack. -/
theorem lpInsert_enclen_wraps :
    ¬LimitExact lpNew (some (List.replicate (2^32-5) 97)) 6 .before
      (exactSize (some (List.replicate (2^32-5) 97)) .before [] []) :=
  enclen_wraps List.length_replicate

end RedisCore.Listpack
