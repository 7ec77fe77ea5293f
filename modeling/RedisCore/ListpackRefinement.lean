import RedisCore.ListpackInsert

namespace RedisCore.Listpack
open List (cons_ne_nil drop_eq_nil_iff getElem_cons_drop length_append length_cons take_append_drop)

def lpElement (lp : Bytes) : ℕ → Except Fault (Option ℕ)
  | 0 => lpFirst lp
  | i+1 => do
    let p ← lpElement lp i
    match p with
    | none => .ok none
    | some p => lpNext lp p

def lpValuesFrom (lp : Bytes) : ℕ → Option ℕ → Except Fault (List Bytes)
  | _, none => .ok []
  | 0, some _ => .error .outOfFuel
  | fuel+1, some p => do
    let v ← lpGet lp p
    let next ← lpNext lp p
    let rest ← lpValuesFrom lp fuel next
    .ok (v.text :: rest)

def lpValues (lp : Bytes) : Except Fault (List Bytes) := do
  let first ← lpFirst lp
  lpValuesFrom lp lp.length first

def lpDistance (lp : Bytes) (target : ℕ) : ℕ → Option ℕ → Except Fault (Option ℕ)
  | _, none => .ok none
  | 0, some _ => .error .outOfFuel
  | fuel+1, some p =>
    if p = target then .ok (some 0)
    else do
      let next ← lpNext lp p
      let d ← lpDistance lp target fuel next
      .ok (d.map (·+1))

def lpIndexOf (lp : Bytes) : Option ℕ → Except Fault (Option ℕ)
  | none => .ok none
  | some p => do
    let first ← lpFirst lp
    lpDistance lp p lp.length first

section Walks

variable {n : ℕ} {xs ys : List Bytes} {s : Bytes}

def cursor (xs ys : List Bytes) : Option ℕ :=
  if ys = [] then none else some (lpHdrSize+(elements xs).length)

variable {ss : List Bytes}

theorem payloads_lt (h : lpSize ss < 2^32) : ∀ s ∈ ss, (payload s).length < 2^32 := by
  intro s hs
  obtain ⟨as, bs, rfl⟩ := List.append_of_mem hs
  exact payload_length_lt h

theorem loadByte_cursor (h : lpSize (xs ++ ys) < 2^32) :
    ∃ b, loadByte (blob n (xs ++ ys)) (lpHdrSize+(elements xs).length) = .ok b ∧
      (b = lpEof ↔ ys = []) := by
  apply loadByte_elements (a := header (lpSize (xs ++ ys)) n ++ elements xs)
  · intro s hs
    exact payloads_lt h s (List.mem_append_right xs hs)
  · exact blob_split n xs ys
  · simp

theorem lpFirst_blob (h : lpSize ss < 2^32) : lpFirst (blob n ss) = .ok (cursor [] ss) := by
  obtain ⟨b, hb, hiff⟩ := @loadByte_cursor n [] ss h
  have hb' : loadByte (blob n ss) lpHdrSize = .ok b := hb
  rw [lpFirst, hb', ok_bind, cursor]
  simp only [hiff, elements_nil, List.length_nil, Nat.add_zero]

theorem lpNext_blob (h : lpSize (xs ++ s :: ys) < 2^32) :
    lpNext (blob n (xs ++ s :: ys)) (lpHdrSize+(elements xs).length) =
      .ok (cursor (xs ++ [s]) ys) := by
  have hassoc : xs ++ s :: ys = (xs ++ [s]) ++ ys := by simp
  have hskip : lpSkip (blob n (xs ++ s :: ys)) (lpHdrSize+(elements xs).length) =
      .ok (lpHdrSize+(elements (xs ++ [s])).length) := by
    rw [lpSkip_element (a := header (lpSize (xs ++ s :: ys)) n ++ elements xs)
      (c := elements ys ++ [lpEof]) (payload_length_lt h) (by simp [blob]) (by simp)]
    simp
  obtain ⟨b, hb, hiff⟩ := @loadByte_cursor n (xs ++ [s]) ys
    (by rw [← hassoc]; exact h)
  rw [← hassoc] at hb
  rw [lpNext, hskip, ok_bind, hb, ok_bind, cursor]
  simp only [hiff]

theorem lpElement_blob (h : lpSize ss < 2^32) (i : ℕ) (hi : i ≤ ss.length) :
    lpElement (blob n ss) i = .ok (cursor (ss.take i) (ss.drop i)) := by
  induction i with
  | zero => exact lpFirst_blob h
  | succ i ih =>
    have hlt : i < ss.length := by omega
    have hsplit : ss = ss.take i ++ ss[i] :: ss.drop (i+1) := by
      rw [getElem_cons_drop, take_append_drop]
    have hcur : cursor (ss.take i) (ss.drop i) =
        some (lpHdrSize+(elements (ss.take i)).length) := by
      rw [cursor, if_neg (by rw [drop_eq_nil_iff]; omega)]
    have hnext := @lpNext_blob n (ss.take i) (ss.drop (i+1)) ss[i]
      (by rw [← hsplit]; exact h)
    rw [← hsplit] at hnext
    rw [lpElement, ih (by omega), ok_bind, hcur]
    dsimp only
    rw [hnext, List.take_append_getElem]

theorem lpValuesFrom_blob (fuel : ℕ) (xs ys : List Bytes) (h : lpSize (xs ++ ys) < 2^32)
    (hfuel : ys.length ≤ fuel) :
    lpValuesFrom (blob n (xs ++ ys)) fuel (cursor xs ys) = .ok ys := by
  induction ys generalizing xs fuel with
  | nil =>
    cases fuel <;> rfl
  | cons s ys ih =>
    cases fuel with
    | zero => cases hfuel
    | succ fuel =>
      have hassoc : xs ++ s :: ys = (xs ++ [s]) ++ ys := by simp
      obtain ⟨v, hget, htext⟩ := lpGet_element (s := s) (m := blob n (xs ++ s :: ys))
        (a := header (lpSize (xs ++ s :: ys)) n ++ elements xs) (c := elements ys ++ [lpEof])
        (p := lpHdrSize+(elements xs).length) (payload_length_lt h) (by simp [blob]) (by simp)
      have hrec := ih fuel (xs ++ [s]) (by rw [← hassoc]; exact h) (by simpa using hfuel)
      rw [← hassoc] at hrec
      rw [cursor, if_neg (by simp), lpValuesFrom, hget, ok_bind, lpNext_blob h,
        ok_bind, hrec, ok_bind, htext]

theorem length_le_elements (ss : List Bytes) : ss.length ≤ (elements ss).length := by
  induction ss with
  | nil => exact Nat.le_refl _
  | cons s ss ih =>
    have hpos := lpEncodeBacklen_length_pos (payload s).length
    simp only [length_cons, elements_cons, element, length_append]
    omega

theorem lpValues_blob (h : lpSize ss < 2^32) : lpValues (blob n ss) = .ok ss := by
  have hfuel : ss.length ≤ (blob n ss).length := by
    rw [blob_length, lpSize]
    have := length_le_elements ss
    omega
  rw [lpValues, lpFirst_blob h, ok_bind]
  exact lpValuesFrom_blob _ [] ss h hfuel

theorem lpDistance_blob (fuel : ℕ) (xs ys zs : List Bytes) (h : lpSize (xs ++ (ys ++ zs)) < 2^32)
    (hz : zs ≠ []) (hfuel : ys.length < fuel) :
    lpDistance (blob n (xs ++ (ys ++ zs))) (lpHdrSize+(elements (xs ++ ys)).length) fuel
      (cursor xs (ys ++ zs)) = .ok (some ys.length) := by
  induction ys generalizing xs fuel with
  | nil =>
    cases fuel with
    | zero => cases hfuel
    | succ fuel =>
      rw [cursor, if_neg (by simpa using hz), lpDistance, if_pos (by simp)]
      rfl
  | cons s ys ih =>
    cases fuel with
    | zero => cases hfuel
    | succ fuel =>
      have hpos := lpEncodeBacklen_length_pos (payload s).length
      have hassoc : xs ++ (s :: ys ++ zs) = (xs ++ [s]) ++ (ys ++ zs) := by simp
      have hnext := @lpNext_blob n xs (ys ++ zs) s h
      have hrec := ih fuel (xs ++ [s]) (by rw [← hassoc]; exact h) (by simpa using hfuel)
      rw [← hassoc] at hrec
      have htarget : elements (xs ++ s :: ys) = elements ((xs ++ [s]) ++ ys) := by simp
      -- the target lies behind the element, which is not empty
      have hne : lpHdrSize+(elements xs).length ≠
          lpHdrSize+(elements (xs ++ s :: ys)).length := by
        simp only [elements_append, elements_cons, element, length_append]
        omega
      rw [cursor, if_neg (by simp), lpDistance, if_neg hne, htarget]
      rw [List.cons_append] at hrec ⊢
      rw [hnext, ok_bind, hrec]
      rfl

theorem lpIndexOf_blob (hz : ys ≠ []) (h : lpSize (xs ++ ys) < 2^32) :
    lpIndexOf (blob n (xs ++ ys)) (some (lpHdrSize+(elements xs).length)) =
      .ok (some xs.length) := by
  have hfuel : xs.length < (blob n (xs ++ ys)).length := by
    rw [blob_length, lpSize, elements_append, length_append]
    have := length_le_elements xs
    omega
  rw [lpIndexOf, lpFirst_blob h, ok_bind]
  exact lpDistance_blob _ [] xs ys h hz hfuel

end Walks

structure WellFormed (lp : Bytes) (ss : List Bytes) : Prop where
  total : lpGetTotalBytes lp = .ok lp.length
  eof : lp.getLast? = some lpEof
  count : (lpGetNumElements lp = .ok ss.length ∧ ss.length < lpHdrNumeleUnknown) ∨
    lpGetNumElements lp = .ok lpHdrNumeleUnknown
  backlen : ∀ i < ss.length, ∃ p len, lpElement lp i = .ok (some p) ∧
    lpCurrentEncodedSize lp p = .ok len ∧
    lpDecodeBacklen lp (p+len+(lpEncodeBacklen len).length-1) = .ok len
  values : lpValues lp = .ok ss

def Holds (lp : Bytes) (ss : List Bytes) : Prop := ∃ n, CountOk n ss ∧ lp = blob n ss

theorem CountOk.lt {n : ℕ} {ss : List Bytes} (h : CountOk n ss) : n < 2^16 := by
  unfold CountOk lpHdrNumeleUnknown at h
  omega

theorem wellFormed_of_holds {lp : Bytes} {ss : List Bytes} (hh : Holds lp ss)
    (h : lpSize ss < 2^32) : WellFormed lp ss := by
  obtain ⟨n, hn, rfl⟩ := hh
  constructor
  · rw [blob_length]
    exact lpGetTotalBytes_header h _
  · simp [blob]
  · have hnum : lpGetNumElements (blob n ss) = .ok n := lpGetNumElements_header hn.lt _
    rw [hnum]
    rcases hn with ⟨h1, h2⟩ | h1
    · exact Or.inl ⟨by rw [h1], h1 ▸ h2⟩
    · exact Or.inr (by rw [h1])
  · intro i hi
    have hsplit : ss = ss.take i ++ ss[i] :: ss.drop (i+1) := by
      rw [getElem_cons_drop, take_append_drop]
    have hlt : (payload ss[i]).length < 2^32 := payloads_lt h _ (List.getElem_mem hi)
    obtain ⟨v, hreads, -⟩ := reads_payload hlt
    have hblob : blob n ss = (header (lpSize ss) n ++ elements (ss.take i)) ++
        (payload ss[i] ++ (lpEncodeBacklen (payload ss[i]).length ++
          (elements (ss.drop (i+1)) ++ [lpEof]))) := by
      have hel : elements ss = elements (ss.take i) ++ (element ss[i] ++
          elements (ss.drop (i+1))) := by
        conv_lhs => rw [hsplit, elements_append, elements_cons]
      simp [blob, hel, element]
    refine ⟨lpHdrSize+(elements (ss.take i)).length, (payload ss[i]).length, ?_, ?_, ?_⟩
    · rw [lpElement_blob h i (by omega), cursor,
        if_neg (by rw [drop_eq_nil_iff]; omega)]
    · exact hreads.size _ _ _ _ hblob (by simp)
    · have hpos := lpEncodeBacklen_length_pos (payload ss[i]).length
      have hblob' : blob n ss = (header (lpSize ss) n ++ elements (ss.take i) ++
          payload ss[i]) ++ (lpEncodeBacklen (payload ss[i]).length ++
            (elements (ss.drop (i+1)) ++ [lpEof])) := by
        rw [hblob]
        simp
      apply lpDecodeBacklen_at _ hblob'
      · simp only [length_append, header_length]
        omega
      · omega
  · exact lpValues_blob h

section Operations

variable {n : ℕ} {xs ys : List Bytes} {s y : Bytes}

theorem nextCount_ok {ele : Option Bytes} {whr : Where} {old new : List Bytes}
    (h : CountOk n old)
    (hlen : (whr ≠ .replace ∧ ele.isSome ∧ new.length = old.length+1) ∨
      (whr = .replace ∧ ele.isSome ∧ new.length = old.length) ∨
      (ele = none ∧ new.length+1 = old.length)) : CountOk (nextCount n ele whr) new := by
  unfold CountOk nextCount lpHdrNumeleUnknown at *
  rcases hlen with ⟨h1, h2, h3⟩ | ⟨h1, h2, h3⟩ | ⟨h1, h3⟩
  · simp only [h1, h2, ne_eq, not_false_eq_true, true_or, true_and, if_true]
    split <;> omega
  · have hne : ele ≠ none := Option.ne_none_iff_isSome.mpr h2
    simp only [h1, hne, ne_eq, not_true_eq_false, or_self, false_and, if_false]
    omega
  · simp only [h1, Option.isSome_none, or_true, true_and, Bool.false_eq_true, if_false]
    split <;> omega

def offset (xs : List Bytes) : ℕ := lpHdrSize+(elements xs).length

theorem lpInsert_before (hn : CountOk n (xs ++ ys)) (hold : lpSize (xs ++ ys) < 2^32)
    (hnew : lpSize (xs ++ s :: ys) < 2^32) :
    ∃ lp, lpInsert (blob n (xs ++ ys)) (some s) (offset xs) .before =
      .ok (some (lp, some (offset xs))) ∧ Holds lp (xs ++ s :: ys) := by
  have hins := lpInsertAt_blob hn.lt xs [] ys (some s) .before (Or.inr ⟨by simp, rfl⟩) hold hnew
  refine ⟨_, ?_, _, @nextCount_ok _ (some s) .before _ _ hn (Or.inl ?_), rfl⟩
  · rw [lpInsert, if_neg (by simp), if_neg (by simp)]
    simpa [offset] using hins
  · refine ⟨by simp, rfl, ?_⟩
    simp only [length_append, length_cons]
    omega

theorem lpInsert_after (hn : CountOk n (xs ++ y :: ys)) (hold : lpSize (xs ++ y :: ys) < 2^32)
    (hnew : lpSize (xs ++ y :: s :: ys) < 2^32) :
    ∃ lp, lpInsert (blob n (xs ++ y :: ys)) (some s) (offset xs) .after =
      .ok (some (lp, some (offset (xs ++ [y])))) ∧ Holds lp (xs ++ y :: s :: ys) := by
  have hskip : lpSkip (blob n (xs ++ y :: ys)) (offset xs) = .ok (offset (xs ++ [y])) := by
    rw [lpSkip_element (a := header (lpSize (xs ++ y :: ys)) n ++ elements xs)
      (c := elements ys ++ [lpEof]) (payload_length_lt hold) (by simp [blob]) (by simp [offset])]
    simp [offset]
  have h1 : xs ++ y :: ys = (xs ++ [y]) ++ ys := by simp
  have h2 : xs ++ y :: s :: ys = (xs ++ [y]) ++ s :: ys := by simp
  rw [h1] at hn hold
  rw [h2] at hnew ⊢
  obtain ⟨lp, hrun, hh⟩ := lpInsert_before hn hold hnew
  refine ⟨lp, ?_, hh⟩
  rw [lpInsert, if_neg (by simp), if_neg (by simp)] at hrun
  rw [lpInsert, if_neg (by simp), if_pos rfl, hskip, ok_bind, h1]
  exact hrun

theorem lpInsert_replace (hn : CountOk n (xs ++ y :: ys)) (hold : lpSize (xs ++ y :: ys) < 2^32)
    (hnew : lpSize (xs ++ s :: ys) < 2^32) :
    ∃ lp, lpInsert (blob n (xs ++ y :: ys)) (some s) (offset xs) .replace =
      .ok (some (lp, some (offset xs))) ∧ Holds lp (xs ++ s :: ys) := by
  have hins := lpInsertAt_blob hn.lt xs [y] ys (some s) .replace (Or.inl ⟨rfl, y, rfl⟩) hold hnew
  refine ⟨_, ?_, _, @nextCount_ok _ (some s) .replace _ _ hn (Or.inr (Or.inl ?_)), rfl⟩
  · rw [lpInsert, if_neg (by simp), if_neg (by simp)]
    simpa [offset] using hins
  · refine ⟨rfl, rfl, ?_⟩
    simp only [length_append, length_cons]

theorem lpSize_le_of_delete : lpSize (xs ++ ys) ≤ lpSize (xs ++ y :: ys) := by
  simp only [lpSize, elements_append, elements_cons, length_append]
  omega

theorem lpDelete_at (hn : CountOk n (xs ++ y :: ys)) (hold : lpSize (xs ++ y :: ys) < 2^32) :
    ∃ lp, lpDelete (blob n (xs ++ y :: ys)) (offset xs) =
      .ok (some (lp, cursor xs ys)) ∧ Holds lp (xs ++ ys) := by
  have hle := @lpSize_le_of_delete xs ys y
  have hins := lpInsertAt_blob hn.lt xs [y] ys none .replace (Or.inl ⟨rfl, y, rfl⟩) hold
    (by simpa using lt_of_le_of_lt hle hold)
  refine ⟨_, ?_, _, @nextCount_ok _ none .replace _ _ hn (Or.inr (Or.inr ?_)), rfl⟩
  · rw [lpDelete, lpInsert, if_pos rfl]
    simpa [offset, cursor] using hins
  · refine ⟨rfl, ?_⟩
    simp only [length_append, length_cons]
    omega

theorem lpAppend_at {ss : List Bytes} (hn : CountOk n ss) (hold : lpSize ss < 2^32)
    (hnew : lpSize (ss ++ [s]) < 2^32) :
    ∃ lp, lpAppend (blob n ss) s = .ok (some (lp, some (offset ss))) ∧
      Holds lp (ss ++ [s]) := by
  have htotal : lpGetTotalBytes (blob n ss) = .ok (lpSize ss) := lpGetTotalBytes_header hold _
  have hpos : lpSize ss-1 = offset ss := by
    rw [lpSize, offset]
    omega
  have hnil : ss ++ [] = ss := List.append_nil ss
  have hins := @lpInsert_before n ss [] s
    (by rw [hnil]; exact hn) (by rw [hnil]; exact hold) hnew
  rw [hnil] at hins
  rw [lpAppend, htotal, ok_bind, hpos]
  exact hins

end Operations

/-- An operation of a run; element pointers are those of the walk from `lpFirst`. -/
inductive LpOp
  | append (s : Bytes)
  | insert (i : ℕ) (s : Bytes) (whr : Where)
  | delete (i : ℕ)
deriving Repr

def applyList (ss : List Bytes) : LpOp → List Bytes × Option ℕ
  | .append s => (ss ++ [s], some ss.length)
  | .insert i s whr =>
    if i < ss.length then
      match whr with
      | .before => (ss.take i ++ s :: ss.drop i, some i)
      | .after => (ss.take (i+1) ++ s :: ss.drop (i+1), some (i+1))
      | .replace => (ss.set i s, some i)
    else (ss, none)
  | .delete i =>
    if i < ss.length then (ss.eraseIdx i, if i+1 < ss.length then some i else none)
    else (ss, none)

def runList (ss : List Bytes) : List LpOp → List Bytes × List (Option ℕ)
  | [] => (ss, [])
  | op :: ops =>
    let r := applyList ss op
    let rest := runList r.1 ops
    (rest.1, r.2 :: rest.2)

def observe (r : Option (Bytes × Option ℕ)) : Except Fault (Option (Bytes × Option ℕ)) :=
  match r with
  | none => .ok none
  | some (lp, newp) => do
    let i ← lpIndexOf lp newp
    .ok (some (lp, i))

def applyOp (lp : Bytes) : LpOp → Except Fault (Option (Bytes × Option ℕ))
  | .append s => do
    let r ← lpAppend lp s
    observe r
  | .insert i s whr => do
    let p ← lpElement lp i
    match p with
    | none => .ok (some (lp, none))
    | some p => do
      let r ← lpInsert lp (some s) p whr
      observe r
  | .delete i => do
    let p ← lpElement lp i
    match p with
    | none => .ok (some (lp, none))
    | some p => do
      let r ← lpDelete lp p
      observe r

def runOps (lp : Bytes) : List LpOp → Except Fault (Option (Bytes × List (Option ℕ)))
  | [] => .ok (some (lp, []))
  | op :: ops => do
    let r ← applyOp lp op
    match r with
    | none => .ok none
    | some (lp, out) => do
      let rest ← runOps lp ops
      .ok (rest.map fun q => (q.1, out :: q.2))

section Runs

variable {ss : List Bytes} {i : ℕ} {lp : Bytes}

theorem lpElement_of_lt {n : ℕ} (hi : i < ss.length)
    (h : lpSize ss < 2^32) : lpElement (blob n ss) i = .ok (some (offset (ss.take i))) := by
  rw [lpElement_blob h i (by omega), cursor, if_neg (by rw [drop_eq_nil_iff]; omega), offset]

theorem lpElement_of_ge {n : ℕ} (hi : ss.length ≤ i)
    (h : lpSize ss < 2^32) : lpElement (blob n ss) i = .ok none := by
  induction i with
  | zero =>
    rw [lpElement_blob h 0 (by omega), cursor, if_pos (by rw [drop_eq_nil_iff]; exact hi)]
  | succ i ih =>
    rcases Nat.lt_or_ge i ss.length with hlt | hge
    · have heq : i+1 = ss.length := by omega
      rw [lpElement_blob h (i+1) (by omega), cursor,
        if_pos (by rw [drop_eq_nil_iff]; exact hi)]
    · rw [lpElement, ih hge, ok_bind]

theorem observe_some {xs ys : List Bytes} (hh : Holds lp ss) (hy : ys ≠ [])
    (hsplit : ss = xs ++ ys) (h : lpSize ss < 2^32) :
    observe (some (lp, some (offset xs))) = .ok (some (lp, some xs.length)) := by
  obtain ⟨n, -, rfl⟩ := hh
  subst hsplit
  rw [observe, offset, lpIndexOf_blob hy h, ok_bind]

theorem applyOp_refines (hh : Holds lp ss)
    (hold : lpSize ss < 2^32) (op : LpOp) (hnew : lpSize (applyList ss op).1 < 2^32) :
    ∃ lp', applyOp lp op = .ok (some (lp', (applyList ss op).2)) ∧
      Holds lp' (applyList ss op).1 := by
  obtain ⟨n, hn, rfl⟩ := hh
  cases op with
  | append s =>
    obtain ⟨lp', hrun, hh'⟩ := lpAppend_at hn hold hnew
    refine ⟨lp', ?_, hh'⟩
    rw [applyOp, hrun, ok_bind, observe_some hh' (cons_ne_nil s []) rfl hnew]
    rfl
  | insert i s whr =>
    by_cases hi : i < ss.length
    · have hsplit : ss = ss.take i ++ ss[i] :: ss.drop (i+1) := by
        rw [getElem_cons_drop, take_append_drop]
      have htake : (ss.take i).length = i := by
        rw [List.length_take]
        omega
      rw [applyOp, lpElement_of_lt hi hold, ok_bind]
      simp only [applyList, if_pos hi] at hnew ⊢
      cases whr with
      | before =>
        have hcut : ss.take i ++ ss.drop i = ss := take_append_drop i ss
        obtain ⟨lp', hrun, hh'⟩ := @lpInsert_before n (ss.take i) (ss.drop i) s
          (by rw [hcut]; exact hn) (by rw [hcut]; exact hold) hnew
        rw [hcut] at hrun
        refine ⟨lp', ?_, hh'⟩
        rw [hrun, ok_bind, observe_some hh' (cons_ne_nil s _) rfl hnew, htake]
      | after =>
        have hcut : ss.take (i+1) ++ s :: ss.drop (i+1) =
            ss.take i ++ ss[i] :: s :: ss.drop (i+1) := by
          rw [← List.take_append_getElem hi, List.append_assoc]
          rfl
        rw [hcut] at hnew ⊢
        obtain ⟨lp', hrun, hh'⟩ := @lpInsert_after n (ss.take i) (ss.drop (i+1)) s
          ss[i] (by rw [← hsplit]; exact hn)
          (by rw [← hsplit]; exact hold) hnew
        rw [← hsplit] at hrun
        refine ⟨lp', ?_, hh'⟩
        have hlen : (ss.take i ++ [ss[i]]).length = i+1 := by
          rw [length_append, htake]
          rfl
        have hassoc := (List.append_assoc (ss.take i) [ss[i]] (s :: ss.drop (i+1))).symm
        rw [hrun, ok_bind, observe_some hh' (cons_ne_nil s (ss.drop (i+1)))
          hassoc hnew, hlen]
      | replace =>
        have hcut : ss.set i s = ss.take i ++ s :: ss.drop (i+1) := by
          rw [List.set_eq_take_append_cons_drop, if_pos hi]
        rw [hcut] at hnew ⊢
        obtain ⟨lp', hrun, hh'⟩ := @lpInsert_replace n (ss.take i) (ss.drop (i+1)) s
          ss[i] (by rw [← hsplit]; exact hn)
          (by rw [← hsplit]; exact hold) hnew
        rw [← hsplit] at hrun
        refine ⟨lp', ?_, hh'⟩
        rw [hrun, ok_bind, observe_some hh' (cons_ne_nil s _) rfl hnew, htake]
    · refine ⟨blob n ss, ?_, ?_⟩
      · rw [applyOp, lpElement_of_ge (by omega) hold]
        simp [applyList, hi]
      · simp only [applyList, if_neg hi]
        exact ⟨n, hn, rfl⟩
  | delete i =>
    by_cases hi : i < ss.length
    · have hsplit : ss = ss.take i ++ ss[i] :: ss.drop (i+1) := by
        rw [getElem_cons_drop, take_append_drop]
      have hcut : ss.eraseIdx i = ss.take i ++ ss.drop (i+1) := List.eraseIdx_eq_take_drop_succ ss i
      have htake : (ss.take i).length = i := by
        rw [List.length_take]
        omega
      rw [applyOp, lpElement_of_lt hi hold, ok_bind]
      simp only [applyList, if_pos hi] at hnew ⊢
      obtain ⟨lp', hrun, hh'⟩ := @lpDelete_at n (ss.take i) (ss.drop (i+1)) ss[i]
        (by rw [← hsplit]; exact hn) (by rw [← hsplit]; exact hold)
      rw [← hsplit] at hrun
      rw [← hcut] at hh'
      refine ⟨lp', ?_, hh'⟩
      rw [hrun, ok_bind, cursor]
      by_cases hlast : i+1 < ss.length
      · have hne : ss.drop (i+1) ≠ [] := by
          intro hnil
          rw [drop_eq_nil_iff] at hnil
          omega
        have hobs := observe_some hh' hne hcut hnew
        rw [offset] at hobs
        rw [if_neg hne, hobs, htake, if_pos hlast]
      · -- the last element has no successor
        have hnil : ss.drop (i+1) = [] := by
          rw [drop_eq_nil_iff]
          omega
        rw [if_pos hnil, if_neg hlast]
        rfl
    · refine ⟨blob n ss, ?_, ?_⟩
      · rw [applyOp, lpElement_of_ge (by omega) hold]
        simp [applyList, hi]
      · simp only [applyList, if_neg hi]
        exact ⟨n, hn, rfl⟩

theorem runOps_refines (ops : List LpOp) (hh : Holds lp ss)
    (hsize : ∀ k, lpSize (runList ss (ops.take k)).1 < 2^32) :
    ∃ lp', runOps lp ops = .ok (some (lp', (runList ss ops).2)) ∧
      Holds lp' (runList ss ops).1 := by
  induction ops generalizing lp ss with
  | nil => exact ⟨lp, rfl, hh⟩
  | cons op ops ih =>
    obtain ⟨lp1, hrun, hh1⟩ := applyOp_refines hh (hsize 0) op (hsize 1)
    obtain ⟨lp2, hrest, hh2⟩ := ih hh1 (fun k => hsize (k+1))
    refine ⟨lp2, ?_, hh2⟩
    simp only [runOps, runList, hrun, ok_bind, hrest, Option.map_some]

theorem lpNew_holds : Holds lpNew [] := ⟨0, Or.inl ⟨rfl, by decide⟩, rfl⟩

/-- In every run from the empty listpack whose exact size stays below 2^32 the block is well
formed, iterates over the abstract list, and every returned position is the inserted or
replaced element, or the right neighbour of the deleted one. -/
theorem listpack_refines_list (ops : List LpOp)
    (hsize : ∀ k, lpSize (runList [] (ops.take k)).1 < 2^32) :
    ∃ lp, runOps lpNew ops = .ok (some (lp, (runList [] ops).2)) ∧
      WellFormed lp (runList [] ops).1 := by
  obtain ⟨lp, hrun, hh⟩ := runOps_refines ops lpNew_holds hsize
  refine ⟨lp, hrun, wellFormed_of_holds hh ?_⟩
  have hall := hsize ops.length
  rwa [List.take_length] at hall

theorem listpack_refines_list_three :
    ∃ lp, runOps lpNew [.append [97, 98], .append [45, 53], .insert 0 [120] .after, .delete 2] =
        .ok (some (lp, [some 0, some 1, some 1, none])) ∧ WellFormed lp [[97, 98], [120]] := by
  apply listpack_refines_list [.append [97, 98], .append [45, 53], .insert 0 [120] .after,
    .delete 2]
  intro k
  match k with
  | 0 => decide
  | 1 => decide
  | 2 => decide
  | 3 => decide
  | k+4 =>
    rw [List.take_of_length_le (by simp)]
    decide

end Runs

end RedisCore.Listpack
