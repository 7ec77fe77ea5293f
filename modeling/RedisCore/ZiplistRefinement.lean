import RedisCore.ZiplistDelete

namespace RedisCore.Ziplist
set_option linter.style.nameCheck false

section Navigation

variable {zl : Bytes} {es : List Entry}

theorem entry_at (cnt : ℕ) (hok : EntriesOk 0 es) (hsize : blobLen es < 2^32) {j : ℕ}
    (hj : j < es.length) : ∃ a c, EntryOk (rawAfter 0 (es.take j)) es[j] ∧
      rawAfter 0 (es.take j) < 2^32 ∧ es[j].rawlen < 2^32 ∧
      blob es cnt = a ++ (encodeEntry (rawAfter 0 (es.take j)) es[j] ++ c) ∧
      10+entriesLen (es.take j) = a.length ∧
      c = encodeEntries es[j].rawlen (es.drop (j+1)) ++ [zipEnd] := by
  have hsplit : es = es.take j ++ es[j] :: es.drop (j+1) := by
    rw [List.getElem_cons_drop, List.take_append_drop]
  have hlen : entriesLen es = entriesLen (es.take j)+(es[j].rawlen+entriesLen (es.drop (j+1))) := by
    conv_lhs => rw [hsplit, entriesLen_append, entriesLen_cons]
  refine ⟨header (blobLen es) (tailOffset es) cnt ++ encodeEntries 0 (es.take j), _, ?_, ?_, ?_,
    ?_, ?_, rfl⟩
  · have h := (entriesOk_append 0 (es.take j) (es[j] :: es.drop (j+1))).mp (by
      rw [← hsplit]; exact hok)
    exact h.2.1
  · apply rawAfter_lt
    rw [← hsplit]
    exact hsize
  · simp only [blobLen] at hsize; omega
  · have h := blob_split (es.take j) (es[j] :: es.drop (j+1)) cnt
    rw [← hsplit] at h
    rw [h]
    simp [encodeEntries]
  · simp [ziplistHeaderSize]

theorem indexForward_at (zl : Bytes) (k : ℕ) : ∀ (a : Bytes) (prev : ℕ) (es : List Entry),
    EntriesOk prev es → entriesLen es < 2^32 →
    zl = a ++ (encodeEntries prev es ++ [zipEnd]) →
    indexForward zl k a.length = .ok (a.length+entriesLen (es.take k),
      if k < es.length then -1 else (k : ℤ)-es.length) := by
  induction k with
  | zero =>
    intro a prev es hok hlt hzl
    cases es with
    | nil =>
      rw [indexForward, loadByte_at (x := zipEnd) (a := a) (c := []) hzl rfl]
      rfl
    | cons e es =>
      have hm : zl = a ++ (encodeEntry prev e ++ (encodeEntries e.rawlen es ++ [zipEnd])) := by
        rw [hzl, encodeEntries, List.append_assoc]
      obtain ⟨b, hb, hne, -⟩ := loadByte_entry hok.1.narrow hm rfl
      rw [indexForward, hb, ok_bind, if_neg hne]
      simp
  | succ k ih =>
    intro a prev es hok hlt hzl
    cases es with
    | nil =>
      rw [indexForward, loadByte_at (x := zipEnd) (a := a) (c := []) hzl rfl]
      simp
    | cons e es =>
      rw [entriesLen_cons] at hlt
      have hm : zl = a ++ (encodeEntry prev e ++ (encodeEntries e.rawlen es ++ [zipEnd])) := by
        rw [hzl, encodeEntries, List.append_assoc]
      obtain ⟨b, hb, hne, -⟩ := loadByte_entry hok.1.narrow hm rfl
      have hrec := ih (a ++ encodeEntry prev e) e.rawlen es hok.2 (by omega)
        (by rw [hm, List.append_assoc])
      rw [List.length_append, encodeEntry_length] at hrec
      rw [indexForward, hb, ok_bind, if_neg hne, zipRawEntryLength_entry hok.1 (by omega) hm rfl, ok_bind, hrec]
      simp only [List.take_succ_cons, entriesLen_cons, List.length_cons, Nat.add_assoc,
        Nat.add_lt_add_iff_right]
      push_cast
      simp

theorem indexBackward_at (cnt : ℕ) (hok : EntriesOk 0 es) (hsize : blobLen es < 2^32) (k : ℕ) :
    ∀ j, j < es.length → indexBackward (blob es cnt) k (10+entriesLen (es.take j))
      (rawAfter 0 (es.take j)) = .ok (10+entriesLen (es.take (j-k)),
        if k < j then -1 else (k : ℤ)-j) := by
  have hraw (e : Entry) : e.rawlen ≠ 0 := by
    have := prevSize_pos e.wide
    simp only [Entry.rawlen]; omega
  have hzero (k : ℕ) : indexBackward (blob es cnt) k (10+entriesLen (es.take 0))
      (rawAfter 0 (es.take 0)) = .ok (10+entriesLen (es.take (0-k)), (k : ℤ)) := by
    cases k <;> simp [indexBackward, rawAfter]
  -- the entry before entry `j+1` is entry `j`
  have hback (j : ℕ) (hj : j+1 < es.length) : ∃ e, es.take (j+1) = es.take j ++ [e] ∧
      rawAfter 0 (es.take (j+1)) = e.rawlen ∧
      10+entriesLen (es.take (j+1))-e.rawlen = 10+entriesLen (es.take j) := by
    refine ⟨es[j], by rw [List.take_append_getElem], ?_, ?_⟩
    · rw [← List.take_append_getElem (by omega), rawAfter_append_cons, rawAfter]
    · rw [← List.take_append_getElem (by omega)]
      simp only [entriesLen_append, entriesLen_cons, entriesLen_nil]
      omega
  induction k with
  | zero =>
    intro j hj
    cases j with
    | zero => simpa using hzero 0
    | succ j =>
      obtain ⟨e, -, hr, -⟩ := hback j hj
      rw [indexBackward, if_neg (by rw [hr]; exact hraw e)]
      simp
  | succ k ih =>
    intro j hj
    cases j with
    | zero => simpa using hzero (k+1)
    | succ j =>
      obtain ⟨e, -, hr, hlen⟩ := hback j hj
      obtain ⟨a, c, hokf, hlt, -, hm, ha, -⟩ := entry_at cnt hok hsize (j := j) (by omega)
      have hdec := zipDecodePrevlen_entry hokf.narrow hlt hm ha
      rw [indexBackward, hr, if_neg (hraw e)]
      dsimp only
      rw [hlen, hdec, ok_bind]
      dsimp only
      rw [ih j (by omega)]
      simp only [Nat.add_sub_add_right, Nat.add_lt_add_iff_right]
      push_cast
      simp

def indexPos (n : ℕ) (index : ℤ) : Option ℕ :=
  if 0 ≤ index ∧ index < n then some index.toNat
  else if index < 0 ∧ -n ≤ index then some (n+index).toNat
  else none

theorem loadByte_boundary (cnt : ℕ) (hok : EntriesOk 0 es) (hsize : blobLen es < 2^32) (j : ℕ)
    (hj : j < es.length) :
    ∃ b, loadByte (blob es cnt) (10+entriesLen (es.take j)) = .ok b ∧ b ≠ zipEnd := by
  obtain ⟨a, c, hokf, -, -, hm, ha, -⟩ := entry_at cnt hok hsize hj
  obtain ⟨b, hb, hne, -⟩ := loadByte_entry hokf.narrow hm ha
  exact ⟨b, hb, hne⟩

theorem loadByte_end (es : List Entry) (cnt : ℕ) :
    loadByte (blob es cnt) (10+entriesLen es) = .ok zipEnd :=
  loadByte_at (a := header (blobLen es) (tailOffset es) cnt ++ encodeEntries 0 es) (c := [])
    (by simp [blob]) (by simp [ziplistHeaderSize])

theorem tailOffset_eq_take (es : List Entry) :
    tailOffset es = 10+entriesLen (es.take (es.length-1)) := by
  rw [tailOffset, List.dropLast_eq_take]
  rfl

theorem indexFromTail_blob (cnt : ℕ) (hok : EntriesOk 0 es) (hsize : blobLen es < 2^32)
    (hne : es ≠ []) (k : ℕ) : indexFromTail (blob es cnt) k =
      .ok (10+entriesLen (es.take (es.length-1-k)),
        if k < es.length-1 then -1 else (k : ℤ)-(es.length-1 : ℕ)) := by
  have hpos := List.length_pos_of_ne_nil hne
  have ht : ziplistTailOffset (blob es cnt) = .ok (tailOffset es) :=
    ziplistTailOffset_header (tailOffset_lt hsize)
  obtain ⟨b, hb, hbne⟩ := loadByte_boundary cnt hok hsize (es.length-1) (by omega)
  obtain ⟨a, c, hokf, hlt, -, hm, ha, -⟩ := entry_at cnt hok hsize
    (j := es.length-1) (by omega)
  rw [indexFromTail, ht, ok_bind, tailOffset_eq_take, hb, ok_bind, if_pos hbne,
    zipDecodePrevlen_entry hokf.narrow hlt hm ha, ok_bind]
  exact indexBackward_at cnt hok hsize k (es.length-1) (by omega)

theorem ziplistIndex_blob (cnt : ℕ) (hok : EntriesOk 0 es) (hsize : blobLen es < 2^32)
    (index : ℤ) : ziplistIndex (blob es cnt) index =
      .ok ((indexPos es.length index).map (fun j => 10+entriesLen (es.take j))) := by
  have hlen : entriesLen es < 2^32 := by simp only [blobLen] at hsize; omega
  by_cases hneg : index < 0
  · rw [ziplistIndex, if_pos hneg]
    rcases List.eq_nil_or_concat es with rfl | ⟨fs, d, hfs⟩
    · have h0 : indexFromTail (blob [] cnt) (-index-1).toNat =
          .ok (10, ((-index-1).toNat : ℤ)) := by
        have ht : ziplistTailOffset (blob [] cnt) = .ok (tailOffset []) :=
          ziplistTailOffset_header (tailOffset_lt hsize)
        have hb : loadByte (blob [] cnt) (tailOffset []) = .ok zipEnd := loadByte_end [] cnt
        rw [indexFromTail, ht, ok_bind, hb, ok_bind, if_neg (by simp)]
        rfl
      have hb : loadByte (blob [] cnt) 10 = .ok zipEnd := loadByte_end [] cnt
      have hpos : indexPos ([] : List Entry).length index = none := by
        simp only [indexPos, List.length_nil]
        rw [if_neg (by push_cast; omega), if_neg (by push_cast; omega)]
      rw [h0, ok_bind]
      dsimp only
      rw [hb, ok_bind, if_pos (Or.inl rfl), hpos]
      rfl
    · have hne : es ≠ [] := by rw [hfs]; simp
      have hpos := List.length_pos_of_ne_nil hne
      rw [indexFromTail_blob cnt hok hsize hne, ok_bind]
      dsimp only
      obtain ⟨b, hb, hbne⟩ := loadByte_boundary cnt hok hsize
        (es.length-1-(-index-1).toNat) (by omega)
      rw [hb, ok_bind]
      by_cases hin : -(es.length : ℤ) ≤ index
      · have hj : es.length-1-(-index-1).toNat = (es.length+index).toNat := by omega
        rw [if_neg (by
          rintro (h | h)
          · exact hbne h
          · split_ifs at h <;> omega), indexPos, if_neg (by omega), if_pos ⟨hneg, hin⟩, hj]
        rfl
      · rw [if_pos (Or.inr (by rw [if_neg (by omega)]; omega)), indexPos, if_neg (by omega),
          if_neg (by omega)]
        rfl
  · have hm : blob es cnt = header (blobLen es) (tailOffset es) cnt ++
        (encodeEntries 0 es ++ [zipEnd]) := rfl
    have hfwd := indexForward_at (blob es cnt) index.toNat _ 0 es hok hlen hm
    rw [header_length] at hfwd
    rw [ziplistIndex, if_neg hneg, ziplistEntryHead, hfwd, ok_bind]
    dsimp only [ziplistHeaderSize]
    by_cases hin : index < es.length
    · obtain ⟨b, hb, hbne⟩ := loadByte_boundary cnt hok hsize index.toNat (by omega)
      rw [hb, ok_bind, if_neg (by
        rintro (h | h)
        · exact hbne h
        · rw [if_pos (by omega)] at h; omega), indexPos, if_pos ⟨by omega, hin⟩]
      rfl
    · rw [List.take_of_length_le (by omega), loadByte_end, ok_bind, if_pos (Or.inl rfl),
        indexPos, if_neg (by omega), if_neg (by omega)]
      rfl

theorem lenLoop_at (zl : Bytes) (fuel : ℕ) : ∀ (a : Bytes) (prev : ℕ) (es : List Entry),
    EntriesOk prev es → entriesLen es < 2^32 → es.length < fuel →
    zl = a ++ (encodeEntries prev es ++ [zipEnd]) → lenLoop zl fuel a.length = .ok es.length := by
  induction fuel with
  | zero => intro a prev es _ _ h; omega
  | succ fuel ih =>
    intro a prev es hok hlt hf hzl
    cases es with
    | nil =>
      rw [lenLoop, loadByte_at (x := zipEnd) (a := a) (c := []) hzl rfl]
      rfl
    | cons e es =>
      rw [entriesLen_cons] at hlt
      have hm : zl = a ++ (encodeEntry prev e ++ (encodeEntries e.rawlen es ++ [zipEnd])) := by
        rw [hzl, encodeEntries, List.append_assoc]
      obtain ⟨b, hb, hne, -⟩ := loadByte_entry hok.1.narrow hm rfl
      have hrec := ih (a ++ encodeEntry prev e) e.rawlen es hok.2 (by omega) (by simp at hf; omega)
        (by rw [hm, List.append_assoc])
      rw [List.length_append, encodeEntry_length] at hrec
      rw [lenLoop, hb, ok_bind, if_neg hne, zipRawEntryLength_entry hok.1 (by omega) hm rfl,
        ok_bind, hrec]
      rfl

theorem length_le_entriesLen (es : List Entry) : es.length ≤ entriesLen es := by
  induction es with
  | nil => exact le_rfl
  | cons d es ih =>
    have := prevSize_pos d.wide
    simp only [List.length_cons, entriesLen_cons, Entry.rawlen]
    omega

theorem ziplistLen_parses (h : Parses zl es) :
    ∃ zl', ziplistLen zl = .ok (es.length, zl') ∧ Parses zl' es := by
  obtain ⟨cnt, hcnt, rfl⟩ := h.layout
  have hlen : entriesLen es < 2^32 := by have := h.size; simp only [blobLen] at this; omega
  have hlt : cnt < 2^16 := by
    rcases hcnt with ⟨rfl, h⟩ | rfl <;> simp only [uint16Max] at * <;> omega
  have hget : ziplistLength (blob es cnt) = .ok cnt := ziplistLength_header hlt
  rw [ziplistLen, hget, ok_bind]
  rcases hcnt with ⟨rfl, hc⟩ | rfl
  · rw [if_pos hc]
    exact ⟨_, rfl, h.entries, h.size, _, Or.inl ⟨rfl, hc⟩, rfl⟩
  · have hm : blob es uint16Max = header (blobLen es) (tailOffset es) uint16Max ++
        (encodeEntries 0 es ++ [zipEnd]) := rfl
    have hfuel := length_le_entriesLen es
    have hloop := lenLoop_at (blob es uint16Max) (blob es uint16Max).length _ 0 es h.entries hlen
      (by rw [blob_length, blobLen]; simp only [ziplistEndSize]; omega) hm
    rw [header_length] at hloop
    rw [if_neg (lt_irrefl _), hloop, ok_bind]
    by_cases hn : es.length < uint16Max
    · have hset : setZiplistLength (blob es uint16Max) es.length = .ok (blob es es.length) :=
        setZiplistLength_header _ _ rfl (by simp only [uint16Max] at hn; omega)
      rw [if_pos hn, hset]
      exact ⟨_, rfl, h.entries, h.size, _, Or.inl ⟨rfl, hn⟩, rfl⟩
    · rw [if_neg hn]
      exact ⟨_, rfl, h.entries, h.size, _, Or.inr rfl, rfl⟩

end Navigation

def valuesFrom (zl : Bytes) : ℕ → Option ℕ → Except Fault (List Bytes)
  | _, none => .ok []
  | 0, some _ => .error .outOfFuel
  | fuel+1, some p => do
    let v ← ziplistGet zl (some p)
    let q ← ziplistNext zl p
    let rest ← valuesFrom zl fuel q
    return (match v with
      | some v => v.text :: rest
      | none => rest)

def ziplistValues (zl : Bytes) : Except Fault (List Bytes) := do
  let p ← ziplistIndex zl 0
  valuesFrom zl zl.length p

theorem ziplistNext_blob {es : List Entry} (cnt : ℕ) (hok : EntriesOk 0 es)
    (hsize : blobLen es < 2^32) {j : ℕ} (hj : j < es.length) :
    ziplistNext (blob es cnt) (10+entriesLen (es.take j)) =
      .ok (if j+1 < es.length then some (10+entriesLen (es.take (j+1))) else none) := by
  obtain ⟨a, c, hokf, hlt, hraw, hm, ha, -⟩ := entry_at cnt hok hsize hj
  obtain ⟨b, hb, hne, -⟩ := loadByte_entry hokf.narrow hm ha
  have hnext : 10+entriesLen (es.take j)+es[j].rawlen = 10+entriesLen (es.take (j+1)) := by
    rw [← List.take_append_getElem hj]
    simp only [entriesLen_append, entriesLen_cons, entriesLen_nil]
    omega
  rw [ziplistNext, hb, ok_bind, if_neg hne, zipRawEntryLength_entry hokf hraw hm ha,
    ok_bind, hnext]
  dsimp only
  by_cases hj' : j+1 < es.length
  · obtain ⟨b', hb', hne'⟩ := loadByte_boundary cnt hok hsize (j+1) hj'
    rw [hb', ok_bind, if_neg hne', if_pos hj']
    rfl
  · rw [List.take_of_length_le (by omega), loadByte_end, ok_bind, if_pos rfl, if_neg hj']
    rfl

theorem valuesFrom_blob {es : List Entry} (cnt : ℕ) (hok : EntriesOk 0 es)
    (hsize : blobLen es < 2^32) (fuel : ℕ) : ∀ j, j < es.length → es.length ≤ fuel+j →
    valuesFrom (blob es cnt) fuel (some (10+entriesLen (es.take j))) =
      .ok (texts (es.drop j)) := by
  induction fuel with
  | zero => intro j hj hf; omega
  | succ fuel ih =>
    intro j hj hf
    obtain ⟨a, c, hokf, hlt, -, hm, ha, -⟩ := entry_at cnt hok hsize hj
    obtain ⟨v, hget, hv⟩ := ziplistGet_entry hokf hlt hm ha
    have hdrop : texts (es.drop j) = es[j].text :: texts (es.drop (j+1)) := by
      rw [List.drop_eq_getElem_cons hj]
      rfl
    rw [valuesFrom, hget, ok_bind, ziplistNext_blob cnt hok hsize hj, ok_bind, hdrop]
    by_cases hj' : j+1 < es.length
    · rw [if_pos hj', ih (j+1) hj' (by omega), ok_bind, ← hv]
      rfl
    · rw [if_neg hj', List.drop_of_length_le (by omega), ← hv]
      cases fuel <;> rfl

theorem ziplistValues_parses {zl : Bytes} {es : List Entry} (h : Parses zl es) :
    ziplistValues zl = .ok (texts es) := by
  obtain ⟨cnt, -, rfl⟩ := h.layout
  rw [ziplistValues, ziplistIndex_blob cnt h.entries h.size, ok_bind]
  cases hes : es with
  | nil => simp [indexPos, valuesFrom, texts]
  | cons e fs =>
    have hpos : indexPos (e :: fs).length 0 = some 0 := by simp [indexPos]
    rw [hpos, ← hes]
    have hlen := length_le_entriesLen es
    have hv := valuesFrom_blob cnt h.entries h.size (blob es cnt).length 0 (by rw [hes]; simp)
      (by rw [blob_length, blobLen]; omega)
    rw [List.take_zero, List.drop_zero] at hv
    exact hv

theorem follow_entriesOk {raw x : ℕ} {w : Bool} {es : List Entry} (h : EntriesOk x es)
    (hw : w = false → raw < zipBigPrevlen) : EntriesOk raw (follow w es) := by
  cases es with
  | nil => trivial
  | cons e es => exact ⟨⟨hw, h.1.body⟩, cascade_entriesOk h.2⟩

theorem insertEntries_ok {es1 es2 : List Entry} {body : Bytes} (h : EntriesOk 0 (es1 ++ es2))
    (hbody : BodyOk body) : EntriesOk 0 (insertEntries es1 es2 body) := by
  obtain ⟨h1, h2⟩ := (entriesOk_append 0 es1 es2).mp h
  refine (entriesOk_append 0 es1 _).mpr ⟨h1, ⟨fun hw => by simpa [newEntry] using hw, hbody⟩, ?_⟩
  cases es2 with
  | nil => trivial
  | cons e es =>
    refine follow_entriesOk h2 (fun hw => ?_)
    rw [nextWideOf, nextWide] at hw
    split_ifs at hw
    simpa using hw

theorem deleteEntries_ok {es1 ds es2 : List Entry} (h : EntriesOk 0 (es1 ++ (ds ++ es2))) :
    EntriesOk 0 (deleteEntries es1 es2) := by
  obtain ⟨h1, h2⟩ := (entriesOk_append 0 es1 (ds ++ es2)).mp h
  obtain ⟨-, h3⟩ := (entriesOk_append _ ds es2).mp h2
  exact (entriesOk_append 0 es1 _).mpr ⟨h1, follow_entriesOk h3 (fun hw => by simpa using hw)⟩

theorem __ziplistInsert_huge {es1 es2 : List Entry} {cnt : ℕ} {s : Bytes}
    (hok : EntriesOk 0 (es1 ++ es2)) (hsize : blobLen (es1 ++ es2) < 2^32)
    (hs : 2^32 ≤ s.length) :
    __ziplistInsert (blob (es1 ++ es2) cnt) (10+entriesLen es1) s = .error .sizeWrap := by
  have ht : zipTryEncoding s = none := by rw [zipTryEncoding, if_pos (Or.inl (by omega))]
  obtain ⟨nextdiff, large, hins, hend, hmid⟩ := __ziplistInsert_prefix cnt hok hsize
    (by rw [insertPayload, ht]) (by rw [insertDataLen, ht, Nat.add_comm])
  have hreq : 2^32 ≤ (newEntry es1 (zipStoreEntryEncoding 0 s.length ++ s)).rawlen := by
    simp only [Entry.rawlen, newEntry, List.length_append]; omega
  have hge : -4 ≤ nextdiff := by
    cases es2 with
    | nil => rw [(hend rfl).1]; omega
    | cons e es => exact (hmid e es rfl).1
  have h11 : 11 ≤ blobLen (es1 ++ es2) := by
    simp only [blobLen, ziplistHeaderSize, ziplistEndSize]; omega
  rw [hins, makeRoomAndCascade, insertMakeRoom, ziplistResize, if_neg (by omega)]
  rfl

theorem __ziplistInsert_parses {zl s : Bytes} {es1 es2 : List Entry} (h : Parses zl (es1 ++ es2)) :
    __ziplistInsert zl (10+entriesLen es1) s = .error .sizeWrap ∨
    ∃ zl' es', __ziplistInsert zl (10+entriesLen es1) s = .ok zl' ∧ Parses zl' es' ∧
      texts es' = texts es1 ++ s :: texts es2 ∧ es'.take es1.length = es1 := by
  obtain ⟨cnt, hcnt, rfl⟩ := h.layout
  by_cases hs : s.length < 2^32
  · obtain ⟨head, data, hpay, hlen, hbody, htext⟩ := insertPayload_spec s hs
    obtain ⟨hfit, hover⟩ := __ziplistInsert_blob h.entries h.size hcnt hpay hlen
    by_cases hlt : blobLen (insertEntries es1 es2 (head ++ data)) < 2^32
    · obtain ⟨cnt', hcnt', hins⟩ := hfit hlt
      refine Or.inr ⟨_, _, hins, ⟨insertEntries_ok h.entries hbody, hlt, cnt', hcnt', rfl⟩, ?_,
        List.take_left⟩
      have hf := texts_follow (nextWideOf (newEntry es1 (head ++ data)).rawlen es2) es2
      simp only [texts, insertEntries, List.map_append, List.map_cons] at hf ⊢
      rw [hf, newEntry, htext]
    · exact Or.inl (hover hlt)
  · exact Or.inl (__ziplistInsert_huge h.entries h.size (by omega))

theorem __ziplistDelete_parses {zl : Bytes} {es1 rest : List Entry} {d : Entry} (num : ℕ)
    (h : Parses zl (es1 ++ d :: rest)) :
    __ziplistDelete zl (10+entriesLen es1) num = .error .sizeWrap ∨
    ∃ zl' es', __ziplistDelete zl (10+entriesLen es1) num = .ok zl' ∧ Parses zl' es' ∧
      texts es' = texts es1 ++ (texts (d :: rest)).drop num ∧ es'.take es1.length = es1 := by
  obtain ⟨cnt, hcnt, rfl⟩ := h.layout
  cases num with
  | zero =>
    have hj : es1.length < (es1 ++ d :: rest).length := by simp
    obtain ⟨a, c, hokf, hlt, hraw, hm, ha, -⟩ := entry_at cnt h.entries h.size hj
    rw [List.take_left] at ha
    obtain ⟨first, hfirst, -, -, -, hfp⟩ := zipEntry_entry hokf hlt hm ha
    refine Or.inr ⟨_, _, ?_, h, by simp [texts], List.take_left⟩
    rw [__ziplistDelete, hfirst]
    simp [skipEntries, hfp, u32]
  | succ num =>
    obtain ⟨hfit, hover⟩ := __ziplistDelete_blob num h.entries h.size hcnt
    by_cases hlt : blobLen (deleteEntries es1 (rest.drop num)) < 2^32
    · obtain ⟨cnt', hcnt', hdel⟩ := hfit hlt
      have hok : EntriesOk 0 (es1 ++ ((d :: rest.take num) ++ rest.drop num)) := by
        rw [List.cons_append, List.take_append_drop]
        exact h.entries
      refine Or.inr ⟨_, _, hdel, ⟨deleteEntries_ok hok, hlt, cnt', hcnt', rfl⟩, ?_,
        List.take_left⟩
      rw [texts_deleteEntries]
      simp [texts]
    · exact Or.inl (hover hlt)

/-- The operations of a run. -/
inductive ZlOp
  | push (s : Bytes) (w : Where)
  | insert (i : ℕ) (s : Bytes)
  | delete (i : ℕ)
  | deleteRange (index : ℤ) (num : ℕ)
  | len
deriving DecidableEq, Repr

def entryBoundary (zl : Bytes) (i : ℕ) : Except Fault ℕ := do
  let (p, _) ← skipEntries zl i ziplistEntryHead
  return p

def applyOp (zl : Bytes) : ZlOp → Except Fault (Bytes × List ℕ)
  | .push s w => do return (← ziplistPush zl s w, [])
  | .insert i s => do
    let p ← entryBoundary zl i
    return (← ziplistInsert zl p s, [])
  | .delete i => do
    match ← ziplistIndex zl i with
    | none => return (zl, [])
    | some p =>
      let (zl, _) ← ziplistDelete zl p
      return (zl, [])
  | .deleteRange index num => do return (← ziplistDeleteRange zl index num, [])
  | .len => do
    let (n, zl) ← ziplistLen zl
    return (zl, [n])

def runOps (zl : Bytes) : List ZlOp → Except Fault (Bytes × List ℕ)
  | [] => .ok (zl, [])
  | op :: ops => do
    let (zl, out) ← applyOp zl op
    let (zl, outs) ← runOps zl ops
    return (zl, out ++ outs)

def applyList (l : List Bytes) : ZlOp → List Bytes × List ℕ
  | .push s .head => (s :: l, [])
  | .push s .tail => (l ++ [s], [])
  | .insert i s => (l.take i ++ s :: l.drop i, [])
  | .delete i => (l.eraseIdx i, [])
  | .deleteRange index num =>
    match indexPos l.length index with
    | none => (l, [])
    | some i => (l.take i ++ (l.drop i).drop num, [])
  | .len => (l, [l.length])

def runList (l : List Bytes) : List ZlOp → List Bytes × List ℕ
  | [] => (l, [])
  | op :: ops =>
    let (l, out) := applyList l op
    let (l, outs) := runList l ops
    (l, out ++ outs)

theorem texts_length (es : List Entry) : (texts es).length = es.length := by simp [texts]

theorem texts_take (es : List Entry) (i : ℕ) : texts (es.take i) = (texts es).take i := by
  simp [texts]

theorem texts_drop (es : List Entry) (i : ℕ) : texts (es.drop i) = (texts es).drop i := by
  simp [texts]

theorem insert_step {zl s : Bytes} {es : List Entry} (h : Parses zl es) (i : ℕ) {p : ℕ}
    (hp : p = 10+entriesLen (es.take i)) :
    __ziplistInsert zl p s = .error .sizeWrap ∨
    ∃ zl' es', __ziplistInsert zl p s = .ok zl' ∧ Parses zl' es' ∧
      texts es' = (texts es).take i ++ s :: (texts es).drop i ∧
      es'.take (es.take i).length = es.take i := by
  rw [hp, ← texts_take, ← texts_drop]
  exact __ziplistInsert_parses (by rw [List.take_append_drop]; exact h)

theorem delete_step {zl : Bytes} {es : List Entry} (h : Parses zl es) {i : ℕ} (hi : i < es.length)
    (num : ℕ) :
    __ziplistDelete zl (10+entriesLen (es.take i)) num = .error .sizeWrap ∨
    ∃ zl' es', __ziplistDelete zl (10+entriesLen (es.take i)) num = .ok zl' ∧ Parses zl' es' ∧
      texts es' = (texts es).take i ++ ((texts es).drop i).drop num ∧
      es'.take (es.take i).length = es.take i := by
  obtain ⟨d, rest, hd⟩ := List.exists_cons_of_ne_nil
    (show es.drop i ≠ [] by simp; omega)
  rw [← texts_take, ← texts_drop, hd]
  exact __ziplistDelete_parses num (by rw [← hd, List.take_append_drop]; exact h)

theorem applyOp_refines {zl : Bytes} {es : List Entry} (h : Parses zl es) (op : ZlOp) :
    applyOp zl op = .error .sizeWrap ∨
    ∃ zl' es', applyOp zl op = .ok (zl', (applyList (texts es) op).2) ∧ Parses zl' es' ∧
      texts es' = (applyList (texts es) op).1 := by
  obtain ⟨cnt, hcnt, hzl⟩ := h.layout
  have hlen : entriesLen es < 2^32 := by have := h.size; simp only [blobLen] at this; omega
  have hidx (index : ℤ) : ziplistIndex zl index =
      .ok ((indexPos es.length index).map (fun j => 10+entriesLen (es.take j))) := by
    rw [hzl]
    exact ziplistIndex_blob cnt h.entries h.size index
  have hposlt {index : ℤ} {i : ℕ} (hi : indexPos es.length index = some i) : i < es.length := by
    simp only [indexPos] at hi
    split_ifs at hi <;> simp at hi <;> omega
  cases op with
  | push s w =>
    cases w with
    | head =>
      rcases insert_step (s := s) h 0 (p := ziplistEntryHead) (by simp [ziplistEntryHead,
        ziplistHeaderSize]) with he | ⟨zl', es', hi, hp, ht, -⟩
      · left
        simp only [applyOp, ziplistPush, he]
        rfl
      · right
        refine ⟨zl', es', ?_, hp, by simpa [applyList] using ht⟩
        simp only [applyOp, ziplistPush, hi]
        rfl
    | tail =>
      have hend : ziplistEntryEnd zl = .ok (10+entriesLen es) := by
        have hb : ziplistBytes zl = .ok (blobLen es) := by
          rw [hzl]
          exact ziplistBytes_header h.size
        rw [ziplistEntryEnd, hb]
        rfl
      rcases insert_step (s := s) h es.length (p := 10+entriesLen es) (by simp) with
        he | ⟨zl', es', hi, hp, ht, -⟩
      · left
        simp only [applyOp, ziplistPush, hend, ok_bind, he]
        rfl
      · right
        refine ⟨zl', es', ?_, hp, ?_⟩
        · simp only [applyOp, ziplistPush, hend, ok_bind, hi]
          rfl
        · rw [ht, ← texts_length, List.take_length, List.drop_length]
          rfl
  | insert i s =>
    have hb : entryBoundary zl i = .ok (10+entriesLen (es.take i)) := by
      have hs := skipEntries_at zl i _ 0 es h.entries hlen hzl
      rw [header_length] at hs
      rw [entryBoundary, ziplistEntryHead, hs]
      rfl
    rcases insert_step (s := s) h i rfl with he | ⟨zl', es', hi, hp, ht, -⟩
    · left
      simp only [applyOp, hb, ok_bind, ziplistInsert, he]
      rfl
    · right
      refine ⟨zl', es', ?_, hp, ht⟩
      simp only [applyOp, hb, ok_bind, ziplistInsert, hi]
      rfl
  | delete i =>
    by_cases hi : i < es.length
    · have hpos : indexPos es.length i = some i := by simp [indexPos, hi]
      rcases delete_step h hi 1 with he | ⟨zl', es', hd, hp, ht, -⟩
      · left
        simp only [applyOp, hidx, hpos, Option.map_some, ok_bind, ziplistDelete, he]
        rfl
      · right
        refine ⟨zl', es', ?_, hp, ?_⟩
        · simp only [applyOp, hidx, hpos, Option.map_some, ok_bind, ziplistDelete, hd]
          rfl
        · rw [ht, applyList, List.drop_drop, List.eraseIdx_eq_take_drop_succ]
    · have hpos : indexPos es.length i = none := by
        rw [indexPos, if_neg (by omega), if_neg (by omega)]
      right
      refine ⟨zl, es, ?_, h, ?_⟩
      · simp only [applyOp, hidx, hpos, Option.map_none, ok_bind]
        rfl
      · rw [applyList, List.eraseIdx_of_length_le (by rw [texts_length]; omega)]
  | deleteRange index num =>
    cases hpos : indexPos es.length index with
    | none =>
      right
      refine ⟨zl, es, ?_, h, ?_⟩
      · simp only [applyOp, ziplistDeleteRange, hidx, hpos, Option.map_none, ok_bind,
          applyList, texts_length]
        rfl
      · simp only [applyList, texts_length, hpos]
    | some i =>
      rcases delete_step h (hposlt hpos) num with he | ⟨zl', es', hd, hp, ht, -⟩
      · left
        simp only [applyOp, ziplistDeleteRange, hidx, hpos, Option.map_some, ok_bind, he]
        rfl
      · right
        refine ⟨zl', es', ?_, hp, ?_⟩
        · simp only [applyOp, ziplistDeleteRange, hidx, hpos, Option.map_some, ok_bind, hd,
            applyList, texts_length]
          rfl
        · simp only [applyList, texts_length, hpos, ht]
  | len =>
    obtain ⟨zl', hl, hp⟩ := ziplistLen_parses h
    right
    refine ⟨zl', es, ?_, hp, rfl⟩
    simp only [applyOp, hl, ok_bind, applyList, texts_length]
    rfl

theorem runOps_refines (ops : List ZlOp) : ∀ {zl : Bytes} {es : List Entry}, Parses zl es →
    runOps zl ops = .error .sizeWrap ∨
    ∃ zl' es', runOps zl ops = .ok (zl', (runList (texts es) ops).2) ∧ Parses zl' es' ∧
      texts es' = (runList (texts es) ops).1 := by
  induction ops with
  | nil => exact fun h => Or.inr ⟨_, _, rfl, h, rfl⟩
  | cons op ops ih =>
    intro zl es h
    rcases applyOp_refines h op with he | ⟨zl1, es1, ha, hp1, ht1⟩
    · left
      simp only [runOps, he, except_error_bind]
    · rcases ih hp1 with he | ⟨zl2, es2, hr, hp2, ht2⟩
      · left
        simp only [runOps, ha, ok_bind, he, except_error_bind]
      · right
        refine ⟨zl2, es2, ?_, hp2, ?_⟩
        · simp only [runOps, ha, ok_bind, hr, except_pure, runList, ht1]
        · rw [ht2, ht1]
          rfl

theorem ziplistNew_parses : Parses ziplistNew [] :=
  ⟨trivial, by decide, 0, Or.inl ⟨rfl, by decide⟩, by decide⟩

theorem runOps_take {zl : Bytes} (ops : List ZlOp) (k : ℕ)
    (h : runOps zl ops ≠ .error .sizeWrap) : runOps zl (ops.take k) ≠ .error .sizeWrap := by
  induction ops generalizing zl k with
  | nil => simpa using h
  | cons op ops ih =>
    cases k with
    | zero => simp [runOps]
    | succ k =>
      rw [List.take_succ_cons, runOps]
      rw [runOps] at h
      cases ha : applyOp zl op with
      | error e => rw [ha] at h; exact h
      | ok r =>
        rw [ha, ok_bind] at h
        rw [ok_bind]
        have hrec : runOps r.1 (ops.take k) ≠ .error .sizeWrap := by
          apply ih
          intro he
          apply h
          simp only [he, except_error_bind]
        intro he
        apply hrec
        cases hr : runOps r.1 (ops.take k) with
        | error e => simpa [hr] using he
        | ok q => simp [hr] at he

/-- Every run of ziplist operations from the empty ziplist, with the block staying below 2^32
bytes, behaves as the same run on a list of byte strings: after every prefix of the run the
block is well formed, decodes to the abstract list, and every call of `ziplistLen` returned
the length. -/
theorem ziplist_refines_list (ops : List ZlOp)
    (hsize : runOps ziplistNew ops ≠ .error .sizeWrap) (k : ℕ) :
    ∃ zl es, runOps ziplistNew (ops.take k) = .ok (zl, (runList [] (ops.take k)).2) ∧
      Parses zl es ∧ zl.length = blobLen es ∧
      ziplistValues zl = .ok (runList [] (ops.take k)).1 := by
  rcases runOps_refines (ops.take k) ziplistNew_parses with he | ⟨zl, es, hr, hp, ht⟩
  · exact absurd he (runOps_take ops k hsize)
  · refine ⟨zl, es, hr, hp, ?_, ?_⟩
    · obtain ⟨cnt, -, rfl⟩ := hp.layout
      exact blob_length es cnt
    · rw [ziplistValues_parses hp, ht]
      rfl

theorem ziplist_refines_list_three :
    ∃ zl es, runOps ziplistNew [.push [104, 105] .tail, .insert 0 [49, 50, 56],
        .deleteRange (-1) 1, .len] =
      .ok (zl, [1]) ∧ Parses zl es ∧ zl.length = blobLen es ∧
      ziplistValues zl = .ok [[49, 50, 56]] :=
  ziplist_refines_list [.push [104, 105] .tail, .insert 0 [49, 50, 56], .deleteRange (-1) 1, .len]
    (by decide +kernel) 4

end RedisCore.Ziplist
