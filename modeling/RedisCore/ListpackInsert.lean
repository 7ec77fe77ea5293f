import RedisCore.ListpackElement

namespace RedisCore.Listpack
open List (append_assoc length_append length_cons length_take take_append_drop)

def lpSize (ss : List Bytes) : ℕ := lpHdrSize+1+(elements ss).length

def header (size n : ℕ) : Bytes := leBytes 4 size ++ leBytes 2 n

def blob (n : ℕ) (ss : List Bytes) : Bytes := header (lpSize ss) n ++ (elements ss ++ [lpEof])

def CountOk (n : ℕ) (ss : List Bytes) : Prop :=
  (n = ss.length ∧ n < lpHdrNumeleUnknown) ∨ n = lpHdrNumeleUnknown

@[simp] theorem header_length (size n : ℕ) : (header size n).length = lpHdrSize := by
  simp [header, lpHdrSize]

@[simp] theorem elements_nil : elements [] = [] := rfl

@[simp] theorem elements_cons (s : Bytes) (ss : List Bytes) :
    elements (s :: ss) = element s ++ elements ss := rfl

@[simp] theorem elements_append (xs ys : List Bytes) :
    elements (xs ++ ys) = elements xs ++ elements ys := by
  simp [elements]

theorem blob_length (n : ℕ) (ss : List Bytes) : (blob n ss).length = lpSize ss := by
  simp only [blob, length_append, header_length, length_cons, List.length_nil, lpSize]
  omega

theorem payload_length_lt {xs ys : List Bytes} {s : Bytes} (h : lpSize (xs ++ s :: ys) < 2^32) :
    (payload s).length < 2^32 := by
  simp only [lpSize, elements_append, elements_cons, element, length_append] at h
  omega

theorem blob_split (n : ℕ) (xs ys : List Bytes) : blob n (xs ++ ys) =
    (header (lpSize (xs ++ ys)) n ++ elements xs) ++ (elements ys ++ [lpEof]) := by
  simp [blob]

section Readers

variable {m a c : Bytes} {s : Bytes} {p : ℕ}

theorem lpEntryLen_element (hs : (payload s).length < 2^32) (hm : m = a ++ (element s ++ c))
    (hp : p = a.length) : lpEntryLen m p = .ok (element s).length := by
  obtain ⟨v, hreads, -⟩ := reads_payload hs
  have hm' : m = a ++ (payload s ++ (lpEncodeBacklen (payload s).length ++ c)) := by
    simp [hm, element]
  rw [lpEntryLen, hreads.size m a _ p hm' hp, ok_bind, element, length_append]

theorem lpSkip_element (hs : (payload s).length < 2^32) (hm : m = a ++ (element s ++ c))
    (hp : p = a.length) : lpSkip m p = .ok (a ++ element s).length := by
  rw [lpSkip, lpEntryLen_element hs hm hp, ok_bind, length_append, hp]

theorem lpGet_element (hs : (payload s).length < 2^32) (hm : m = a ++ (element s ++ c))
    (hp : p = a.length) : ∃ v, lpGet m p = .ok v ∧ v.text = s := by
  obtain ⟨v, hreads, htext⟩ := reads_payload hs
  have hm' : m = a ++ (payload s ++ (lpEncodeBacklen (payload s).length ++ c)) := by
    simp [hm, element]
  exact ⟨v, hreads.get m a _ p hm' hp, htext⟩

theorem loadByte_elements {ss : List Bytes} (hs : ∀ s ∈ ss, (payload s).length < 2^32)
    (hm : m = a ++ (elements ss ++ [lpEof])) (hp : p = a.length) :
    ∃ b, loadByte m p = .ok b ∧ (b = lpEof ↔ ss = []) := by
  cases ss with
  | nil => exact ⟨lpEof, loadByte_at (by simpa using hm) hp, by simp⟩
  | cons s ss =>
    obtain ⟨v, hreads, -⟩ := reads_payload (hs s List.mem_cons_self)
    obtain ⟨b, rest, hfirst, hne⟩ := hreads.first
    have hm' : m = a ++ b :: (rest ++ lpEncodeBacklen (payload s).length ++ elements ss ++
        [lpEof]) := by
      simp [hm, element, hfirst]
    exact ⟨b, loadByte_at hm' hp, by simp [hne]⟩

end Readers

theorem lpRelocate_at (a r c : Bytes) (room : ℕ) : ∃ x : Bytes, x.length = room ∧
    lpRelocate (a ++ (r ++ c)) (a ++ (r ++ c)).length (a.length+room+c.length) a.length room
      r.length = .ok (a ++ (x ++ c)) := by
  have hn : (a ++ (r ++ c)).length-a.length-r.length = c.length := by
    simp only [length_append]
    omega
  unfold lpRelocate
  dsimp only
  rw [hn]
  by_cases hgrow : a.length+room+c.length > (a ++ (r ++ c)).length
  · -- the fresh bytes at the end are overwritten by the moved ones
    obtain ⟨z, hz, hzlen⟩ : ∃ z, reallocBytes (a ++ (r ++ c)) (a.length+room+c.length) =
        a ++ (r ++ c) ++ z ∧ r.length+z.length = room := by
      refine ⟨_, reallocBytes_grow (by omega), ?_⟩
      simp only [length_append, List.length_replicate] at hgrow ⊢
      omega
    have hlen : (r ++ c ++ z).length = room+c.length := by
      simp only [length_append]
      omega
    have hsrc : a ++ (r ++ c) ++ z = (a ++ r) ++ (c ++ z) := by simp
    have hdst : a ++ (r ++ c) ++ z =
        (a ++ (r ++ c ++ z).take room) ++ ((r ++ c ++ z).drop room ++ []) := by
      conv_rhs => rw [List.append_nil, append_assoc, take_append_drop]
      simp
    have htake : ((r ++ c ++ z).take room).length = room := by
      rw [length_take]
      omega
    refine ⟨(r ++ c ++ z).take room, htake, ?_⟩
    rw [if_pos hgrow, hz, moveBytes_at hsrc (by simp) rfl hdst (by rw [length_append, htake]) (by
      rw [List.length_drop]
      omega), ok_bind, if_neg (by omega)]
    simp
  · have hroom : room ≤ r.length := by
      simp only [length_append] at hgrow
      omega
    have hsrc : a ++ (r ++ c) = (a ++ r) ++ (c ++ []) := by simp
    have hdst : a ++ (r ++ c) = (a ++ r.take room) ++
        ((r.drop room ++ c).take c.length ++ (r.drop room ++ c).drop c.length) := by
      rw [take_append_drop, append_assoc a, ← append_assoc (r.take room),
        take_append_drop]
    have htake : (r.take room).length = room := by
      rw [length_take]
      omega
    refine ⟨r.take room, htake, ?_⟩
    rw [if_neg hgrow, moveBytes_at hsrc (by simp) rfl hdst (by simp [htake]) (by
      rw [length_take, length_append]
      omega), ok_bind]
    by_cases hshrink : a.length+room+c.length < (a ++ (r ++ c)).length
    · -- the bytes left behind by the move are cut off
      have hcut : a ++ r.take room ++ (c ++ (r.drop room ++ c).drop c.length) =
          (a ++ (r.take room ++ c)) ++ (r.drop room ++ c).drop c.length := by simp
      have hpre : (a ++ (r.take room ++ c)).length = a.length+room+c.length := by
        simp only [length_append, htake]
        omega
      rw [if_pos hshrink, hcut, reallocBytes_shrink (by
        rw [length_append, hpre]
        omega), List.take_left' hpre]
    · have heq : r.length = room := by
        simp only [length_append] at hshrink
        omega
      have hnil : (r.drop room ++ c).drop c.length = [] := by
        rw [← heq, List.drop_length, List.nil_append, List.drop_length]
      rw [if_neg hshrink, hnil]
      simp

theorem lpStoreEntry_at (a c : Bytes) (ele : Option Bytes)
    (hs : ∀ s ∈ ele, (payload s).length < 2^32) (x : Bytes)
    (hx : x.length = (elements ele.toList).length) :
    lpStoreEntry (a ++ (x ++ c)) ele a.length = .ok (a ++ (elements ele.toList ++ c)) := by
  cases ele with
  | none =>
    have hnil : x = [] := List.length_eq_zero_iff.mp (by simpa using hx)
    subst hnil
    rfl
  | some s =>
    have hlen : x.length = (payload s).length+(lpEncodeBacklen (payload s).length).length := by
      simpa [element] using hx
    -- the gap in two pieces, for the payload and for the backlen
    have hx' : a ++ (x ++ c) = a ++ (x.take (payload s).length ++
        (x.drop (payload s).length ++ c)) := by
      rw [← append_assoc (x.take _), take_append_drop]
    have h1 : (x.take (payload s).length).length = (payload s).length := by
      rw [length_take]
      omega
    have h2 : (x.drop (payload s).length).length =
        (lpEncodeBacklen (payload s).length).length := by
      rw [List.length_drop]
      omega
    have hstore := storeBytes_at hx' rfl h1
    have hsplit : a ++ (payload s ++ (x.drop (payload s).length ++ c)) =
        (a ++ payload s) ++ (x.drop (payload s).length ++ c) := by simp
    have hback := storeBytes_at hsplit rfl h2
    simp only [lpStoreEntry]
    rw [enclen_eq (hs s rfl)]
    rw [payload] at hstore
    rw [hstore, ok_bind]
    rw [length_append] at hback
    rw [payload] at hback ⊢
    rw [hback]
    simp [element, payload]

def nextCount (n : ℕ) (ele : Option Bytes) (whr : Where) : ℕ :=
  if (whr ≠ .replace ∨ ele = none) ∧ n ≠ lpHdrNumeleUnknown then
    if ele.isSome then n+1 else n-1
  else n

theorem lpGetNumElements_header {size n : ℕ} (hn : n < 2^16) (rest : Bytes) :
    lpGetNumElements (header size n ++ rest) = .ok n := by
  have hsplit : header size n ++ rest = leBytes 4 size ++ (leBytes 2 n ++ rest) := by
    simp [header]
  rw [lpGetNumElements, loadBytes_at hsplit (by simp) (by simp), ok_bind,
    leNat_leBytes_of_lt (by omega)]

theorem lpGetTotalBytes_header {size n : ℕ} (hsize : size < 2^32) (rest : Bytes) :
    lpGetTotalBytes (header size n ++ rest) = .ok size := by
  have hsplit : header size n ++ rest = [] ++ (leBytes 4 size ++ (leBytes 2 n ++ rest)) := by
    simp [header]
  rw [lpGetTotalBytes, loadBytes_at (i := 0) hsplit rfl (by simp), ok_bind,
    leNat_leBytes_of_lt (by omega)]

theorem lpUpdateHeader_at {size n new : ℕ} (hn : n < 2^16) (ele : Option Bytes) (whr : Where)
    (rest : Bytes) : lpUpdateHeader (header size n ++ rest) ele whr new =
      .ok (header new (nextCount n ele whr) ++ rest) := by
  have hcount (k : ℕ) : lpSetNumElements (header size n ++ rest) k =
      .ok (header size k ++ rest) := by
    have hsplit : header size n ++ rest = leBytes 4 size ++ (leBytes 2 n ++ rest) := by
      simp [header]
    rw [lpSetNumElements, storeBytes_at hsplit (by simp) (by simp)]
    simp [header]
  have htotal (k : ℕ) : lpSetTotalBytes (header size k ++ rest) new =
      .ok (header new k ++ rest) := by
    have hsplit : header size k ++ rest = [] ++ (leBytes 4 size ++ (leBytes 2 k ++ rest)) := by
      simp [header]
    rw [lpSetTotalBytes, storeBytes_at (i := 0) hsplit rfl (by simp)]
    simp [header]
  unfold lpUpdateHeader nextCount
  by_cases hw : whr ≠ .replace ∨ ele = none
  · rw [if_pos hw, lpGetNumElements_header hn, ok_bind]
    by_cases hu : n ≠ lpHdrNumeleUnknown
    · have hboth : (whr ≠ .replace ∨ ele = none) ∧ n ≠ lpHdrNumeleUnknown := ⟨hw, hu⟩
      rw [if_pos hu, hcount, ok_bind, htotal, if_pos hboth]
    · rw [if_neg hu, ok_bind, htotal, if_neg (fun h => hu h.2)]
  · rw [if_neg hw, ok_bind, htotal, if_neg (fun h => hw h.1)]

theorem lpInsertAt_blob {n : ℕ} (hn : n < 2^16) (xs rs ys : List Bytes) (ele : Option Bytes)
    (whr : Where) (hr : (whr = .replace ∧ ∃ y, rs = [y]) ∨ (whr ≠ .replace ∧ rs = []))
    (hold : lpSize (xs ++ (rs ++ ys)) < 2^32) (hnew : lpSize (xs ++ (ele.toList ++ ys)) < 2^32) :
    lpInsertAt (blob n (xs ++ (rs ++ ys))) ele (lpHdrSize+(elements xs).length) whr =
      .ok (some (blob (nextCount n ele whr) (xs ++ (ele.toList ++ ys)),
        if ele = none ∧ ys = [] then none else some (lpHdrSize+(elements xs).length))) := by
  have hele : ∀ s ∈ ele, (payload s).length < 2^32 := by
    intro s hs
    obtain rfl : ele = some s := hs
    exact payload_length_lt hnew
  have hys : ∀ s ∈ ys, (payload s).length < 2^32 := by
    intro s hs
    obtain ⟨as, bs, rfl⟩ := List.append_of_mem hs
    apply @payload_length_lt (xs ++ (rs ++ as)) bs
    simpa using hold
  have hblob : blob n (xs ++ (rs ++ ys)) =
      (header (lpSize (xs ++ (rs ++ ys))) n ++ elements xs) ++
        (elements rs ++ (elements ys ++ [lpEof])) := by simp [blob]
  have hpos : lpHdrSize+(elements xs).length =
      (header (lpSize (xs ++ (rs ++ ys))) n ++ elements xs).length := by simp
  -- the room for the new element
  have hroom : lpEnclen ele+lpBacklenSize ele = (elements ele.toList).length := by
    cases ele with
    | none => rfl
    | some s => simp [lpEnclen, lpBacklenSize, enclen_eq (hele s rfl), element]
  have hreplaced : (if whr = .replace then
      lpEntryLen (blob n (xs ++ (rs ++ ys))) (lpHdrSize+(elements xs).length)
      else .ok 0) = .ok (elements rs).length := by
    rcases hr with ⟨hw, y, rfl⟩ | ⟨hw, rfl⟩
    · rw [if_pos hw, hpos]
      have hy : (payload y).length < 2^32 := payload_length_lt hold
      rw [lpEntryLen_element (c := elements ys ++ [lpEof]) hy (by rw [hblob]; simp) rfl]
      simp
    · rw [if_neg hw]
      rfl
  have hsize : lpSize (xs ++ (rs ++ ys))+(elements ele.toList).length-(elements rs).length =
      lpSize (xs ++ (ele.toList ++ ys)) := by
    simp only [lpSize, elements_append, length_append]
    omega
  have hlen : lpSize (xs ++ (rs ++ ys)) = (blob n (xs ++ (rs ++ ys))).length :=
    (blob_length n _).symm
  have hnewlen : lpSize (xs ++ (ele.toList ++ ys)) =
      (header (lpSize (xs ++ (rs ++ ys))) n ++ elements xs).length+
        (elements ele.toList).length+(elements ys ++ [lpEof]).length := by
    simp only [lpSize, elements_append, length_append, header_length, length_cons,
      List.length_nil]
    omega
  obtain ⟨x, hx, hmove⟩ := lpRelocate_at (header (lpSize (xs ++ (rs ++ ys))) n ++ elements xs)
    (elements rs) (elements ys ++ [lpEof]) (elements ele.toList).length
  rw [← hblob, ← hlen, ← hnewlen, ← hpos] at hmove
  have htotal : lpGetTotalBytes (blob n (xs ++ (rs ++ ys))) =
      .ok (lpSize (xs ++ (rs ++ ys))) := lpGetTotalBytes_header hold _
  unfold lpInsertAt
  dsimp only
  rw [htotal, ok_bind, hreplaced, ok_bind, Nat.add_assoc, hroom, hsize,
    if_neg (by unfold uint32Max; omega), hmove, ok_bind]
  -- the byte at the gap decides about the returned position of a deletion
  obtain ⟨b, hb, hnewp⟩ : ∃ b, loadByte ((header (lpSize (xs ++ (rs ++ ys))) n ++ elements xs) ++
      (x ++ (elements ys ++ [lpEof]))) (lpHdrSize+(elements xs).length) = .ok b ∧
      (ele = none → (b = lpEof ↔ ys = [])) := by
    cases ele with
    | none =>
      have hnil : x = [] := List.length_eq_zero_iff.mp (by simpa using hx)
      obtain ⟨b, hb, hiff⟩ := loadByte_elements hys
        (m := (header (lpSize (xs ++ (rs ++ ys))) n ++ elements xs) ++
          (x ++ (elements ys ++ [lpEof]))) (by rw [hnil]; rfl) hpos
      exact ⟨b, hb, fun _ => hiff⟩
    | some s =>
      have hlt : lpHdrSize+(elements xs).length <
          ((header (lpSize (xs ++ (rs ++ ys))) n ++ elements xs) ++
            (x ++ (elements ys ++ [lpEof]))).length := by
        simp only [length_append, header_length, length_cons]
        omega
      rw [loadByte, List.getElem?_eq_getElem hlt]
      exact ⟨_, rfl, fun h => (by cases h)⟩
  have hstore := lpStoreEntry_at (header (lpSize (xs ++ (rs ++ ys))) n ++ elements xs)
    (elements ys ++ [lpEof]) ele hele x hx
  rw [← hpos] at hstore
  rw [hb, ok_bind, hstore, ok_bind, append_assoc, lpUpdateHeader_at hn,
    ok_bind]
  have hif : (if ele = none ∧ b = lpEof then none else some (lpHdrSize+(elements xs).length)) =
      if ele = none ∧ ys = [] then none else some (lpHdrSize+(elements xs).length) := by
    by_cases he : ele = none
    · simp only [he, true_and, hnewp he]
    · simp only [he, false_and]
  rw [hif]
  simp [blob]

end RedisCore.Listpack
