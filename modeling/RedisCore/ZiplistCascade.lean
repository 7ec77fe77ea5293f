import RedisCore.ZiplistEntry

namespace RedisCore.Ziplist

def widen (e : Entry) : Entry := { e with wide := true }

def cascade : ℕ → List Entry → List Entry
  | _, [] => []
  | raw, e :: es =>
    if e.wide = false ∧ zipBigPrevlen ≤ raw then widen e :: cascade (widen e).rawlen es
    else e :: es

@[simp] theorem widen_text (e : Entry) : (widen e).text = e.text := rfl

variable {e : Entry} {raw x : ℕ} {es : List Entry}

theorem widen_rawlen (h : e.wide = false) : (widen e).rawlen = e.rawlen+4 := by
  simp only [Entry.rawlen, widen, h, prevSize]
  simp
  omega

theorem cascade_texts (raw : ℕ) (es : List Entry) : texts (cascade raw es) = texts es := by
  induction es generalizing raw with
  | nil => rfl
  | cons e es ih =>
    rw [cascade]
    split_ifs with h
    · simp only [texts, List.map_cons, widen_text]
      exact congrArg _ (ih _)
    · rfl

theorem cascade_length (raw : ℕ) (es : List Entry) : (cascade raw es).length = es.length := by
  simpa [texts] using congrArg List.length (cascade_texts raw es)

theorem entriesLen_le_cascade (raw : ℕ) (es : List Entry) :
    entriesLen es ≤ entriesLen (cascade raw es) := by
  induction es generalizing raw with
  | nil => exact le_rfl
  | cons e es ih =>
    rw [cascade]
    split_ifs with h
    · have h1 := ih (widen e).rawlen
      have h2 := widen_rawlen h.1
      rw [entriesLen_cons, entriesLen_cons]
      omega
    · exact le_rfl

theorem cascade_of_entriesOk (h : EntriesOk x es) (hle : raw ≤ x) : cascade raw es = es := by
  cases es with
  | nil => rfl
  | cons e es =>
    rw [cascade, if_neg]
    rintro ⟨hw, hr⟩
    have := h.1.narrow hw
    omega

theorem cascade_entriesOk (h : EntriesOk x es) : EntriesOk raw (cascade raw es) := by
  induction es generalizing raw x with
  | nil => trivial
  | cons e es ih =>
    rw [cascade]
    split_ifs with hc
    · exact ⟨⟨fun hw => by simp [widen] at hw, h.1.body⟩, ih h.2⟩
    · refine ⟨⟨fun hw => ?_, h.1.body⟩, h.2⟩
      by_contra hr
      exact hc ⟨hw, by omega⟩

theorem zipStorePrevEntryLength_eq (len : ℕ) :
    zipStorePrevEntryLength len = encodePrev (decide (zipBigPrevlen ≤ len)) len := by
  by_cases h : len < zipBigPrevlen
  · simp [zipStorePrevEntryLength, encodePrev, h]
  · simp [zipStorePrevEntryLength, encodePrev, h, Nat.not_lt.mp h]

theorem zipStorePrevEntryLength_length (len : ℕ) :
    (zipStorePrevEntryLength len).length = prevSize (decide (zipBigPrevlen ≤ len)) := by
  rw [zipStorePrevEntryLength_eq, encodePrev_length]

theorem dropLast_cons_ne (e : Entry) (h : es ≠ []) :
    entriesLen (e :: es).dropLast = e.rawlen+entriesLen es.dropLast := by
  cases es with
  | nil => exact absurd rfl h
  | cons d es => simp [List.dropLast]

def seam (total tail cnt : ℕ) (pre : Bytes) (prev : ℕ) (e : Entry) (x : ℕ) (es : List Entry) :
    Bytes :=
  header total tail cnt ++ (pre ++ (encodeEntry prev e ++ (encodeEntries x es ++ [zipEnd])))

theorem shiftTailOffset_seam (total cnt : ℕ) (pre : Bytes) {p tail n prev : ℕ} {d nextdiff : ℤ}
    (hp : p = 10+pre.length) (hok : EntryOk prev e)
    (hprev : prev < 2^32) (hes : EntriesOk x es) (hlt : tail < 2^32) (hn : n < 2^32)
    (hlast : es = [] → (tail : ℤ)+d = n) (hmore : es ≠ [] → (tail : ℤ)+d+nextdiff = n) :
    shiftTailOffset (seam total tail cnt pre prev e x es) p d nextdiff =
      .ok (seam total n cnt pre prev e x es) := by
  obtain ⟨tail1, htail1⟩ : ∃ n : ℕ, (n : ℤ) = ((tail : ℤ)+d) % 2^32 :=
    ⟨(((tail : ℤ)+d) % 2^32).toNat, Int.toNat_of_nonneg (by omega)⟩
  have hadd : addZiplistTailOffset (seam total tail cnt pre prev e x es) d =
      .ok (seam total tail1 cnt pre prev e x es) :=
    addZiplistTailOffset_header _ tail1 hlt htail1.symm
  have hm : seam total tail1 cnt pre prev e x es = (header total tail1 cnt ++ pre) ++
      (encodeEntry prev e ++ (encodeEntries x es ++ [zipEnd])) := by
    simp only [seam, List.append_assoc]
  obtain ⟨z, hz, -, -, hzraw, -⟩ := zipEntry_entry (p := p) hok hprev hm
    (by simp [hp, ziplistHeaderSize])
  rw [shiftTailOffset, hadd, ok_bind, hz, ok_bind, hzraw]
  have hp' : p+e.rawlen = (header total tail1 cnt ++ (pre ++ encodeEntry prev e)).length := by
    simp [hp, ziplistHeaderSize, Nat.add_assoc]
  cases es with
  | nil =>
    have hend : seam total tail1 cnt pre prev e x [] =
        (header total tail1 cnt ++ (pre ++ encodeEntry prev e)) ++ zipEnd :: [] := by
      simp [seam, encodeEntries]
    have h1 := hlast rfl
    rw [loadByte_at hend hp', ok_bind, if_neg (by simp), except_pure,
      show tail1 = n by omega]
  | cons f es =>
    have hnext : seam total tail1 cnt pre prev e x (f :: es) =
        (header total tail1 cnt ++ (pre ++ encodeEntry prev e)) ++
          (encodeEntry x f ++ (encodeEntries f.rawlen es ++ [zipEnd])) := by
      simp [seam, encodeEntries]
    obtain ⟨b, hb, hne, -⟩ := loadByte_entry hes.1.narrow hnext hp'
    have h2 := hmore (by simp)
    rw [hb, ok_bind, if_pos hne]
    exact addZiplistTailOffset_header _ _ (by omega) (by omega)

theorem entriesLen_dropLast_le (es : List Entry) : entriesLen es.dropLast ≤ entriesLen es := by
  rcases List.eq_nil_or_concat es with rfl | ⟨fs, d, rfl⟩
  · exact le_rfl
  · simp

theorem cascadeWiden_seam (total tail cnt : ℕ) (pre : Bytes) (prev x : ℕ) (e n : Entry)
    (es : List Entry) (hbig : zipBigPrevlen ≤ e.rawlen) (hn : n.wide = false)
    (htot : total = 10+pre.length+entriesLen (e :: n :: es)+1)
    (htail : tail = 10+pre.length+entriesLen (e :: n :: es).dropLast) (hlt : total+4 < 2^32) :
    cascadeWiden (seam total tail cnt pre prev e x (n :: es)) (10+pre.length+e.rawlen) e.rawlen
      (prevSize false) total =
    .ok (seam (total+4) (10+pre.length+entriesLen (e :: widen n :: es).dropLast) cnt
      (pre ++ encodeEntry prev e) e.rawlen (widen n) n.rawlen es) := by
  have hnraw : n.rawlen = 1+n.body.length := by simp [Entry.rawlen, hn, prevSize]
  have htaillt : tail < 2^32 := by
    have := entriesLen_dropLast_le (e :: n :: es)
    omega
  simp only [entriesLen_cons] at htot
  -- the block as it is grown
  let body := pre ++ (encodeEntry prev e ++ (encodeEntries x (n :: es)))
  have hseam : seam total tail cnt pre prev e x (n :: es) =
      header total tail cnt ++ (body ++ [zipEnd]) := by simp [seam, body]
  have hbody : body.length = pre.length+(e.rawlen+(n.rawlen+entriesLen es)) := by
    simp [body]
  rw [cascadeWiden, zipStorePrevEntryLength_length, decide_eq_true hbig]
  simp only [prevSize, if_true, if_false, Bool.false_eq_true]
  rw [hseam, ziplistResize_grow (by omega) (by omega), ok_bind,
    show total+(5-1)-(10+body.length+1) = 4 by omega, ziplistTailOffset_header htaillt,
    ok_bind]
  -- the tail offset moves unless the next entry is the last
  let tail' := 10+pre.length+entriesLen (e :: widen n :: es).dropLast
  have hset (rest : Bytes) : (if tail ≠ 10+pre.length+e.rawlen then
      addZiplistTailOffset (header (total+4) tail cnt ++ rest) ((5-1 : ℕ) : ℤ)
      else .ok (header (total+4) tail cnt ++ rest)) = .ok (header (total+4) tail' cnt ++ rest) := by
    rcases List.eq_nil_or_concat es with rfl | ⟨fs, d, hfs⟩
    · have h1 : tail = 10+pre.length+e.rawlen := by simp [htail]
      have h2 : tail' = 10+pre.length+e.rawlen := by simp [tail']
      rw [if_neg (by omega), h1, h2]
    · have hne : es ≠ [] := by rw [hfs]; simp
      have h1 : tail = 10+pre.length+e.rawlen+(n.rawlen+entriesLen es.dropLast) := by
        rw [htail, dropLast_cons_ne e (by simp), dropLast_cons_ne n hne]; omega
      have h2 : tail' = tail+4 := by
        simp only [tail']
        rw [dropLast_cons_ne e (by simp), dropLast_cons_ne _ hne, widen_rawlen hn]; omega
      have h3 := entriesLen_dropLast_le es
      rw [if_pos (by omega)]
      exact addZiplistTailOffset_header _ tail' htaillt (by omega)
  rw [hset, ok_bind]
  let moved := n.body ++ encodeEntries n.rawlen es
  have hmoved : moved.length = n.body.length+entriesLen es := by simp [moved]
  let gap := encodePrev false x ++ (moved ++ endFill 4)
  have hgap : gap.length = 1+moved.length+4 := by simp [gap, prevSize, Nat.add_assoc]
  let front := header (total+4) tail' cnt ++ (pre ++ encodeEntry prev e)
  have hfront : front.length = 10+pre.length+e.rawlen := by
    simp [front, ziplistHeaderSize, Nat.add_assoc]
  have hsrc : header (total+4) tail' cnt ++ (body ++ (endFill 4 ++ [zipEnd])) =
      (front ++ encodePrev false x) ++ (moved ++ (endFill 4 ++ [zipEnd])) := by
    simp [front, body, moved, encodeEntries, encodeEntry, hn]
  have hdst : header (total+4) tail' cnt ++ (body ++ (endFill 4 ++ [zipEnd])) =
      (front ++ gap.take 5) ++ (gap.drop 5 ++ [zipEnd]) := by
    calc
      _ = front ++ (gap ++ [zipEnd]) := by simp only [hsrc, gap, List.append_assoc]
      _ = front ++ ((gap.take 5 ++ gap.drop 5) ++ [zipEnd]) := by rw [List.take_append_drop]
      _ = _ := by simp only [List.append_assoc]
  rw [moveBytes_at hsrc (by simp [hfront, prevSize]) (by rw [hmoved]; omega) hdst
    (by simp [hfront]; omega) (by rw [List.length_drop, hgap]; omega), ok_bind]
  have hstore : (front ++ gap.take 5) ++ (moved ++ [zipEnd]) =
      front ++ (gap.take 5 ++ (moved ++ [zipEnd])) := by simp
  rw [storeBytes_at hstore hfront.symm (by
    rw [List.length_take, zipStorePrevEntryLength_length, decide_eq_true hbig, hgap]
    simp [prevSize])]
  rw [zipStorePrevEntryLength_eq, decide_eq_true hbig]
  simp [seam, front, moved, tail', encodeEntry, widen]

theorem cascadeLoop_seam (es : List Entry) : ∀ (fuel total tail cnt : ℕ) (pre : Bytes)
    (prev x : ℕ) (e : Entry), es.length < fuel → EntryOk prev e → prev < 2^32 →
    EntriesOk x es → x < 2^32 → total < 2^32 →
    total = 10+pre.length+entriesLen (e :: es)+1 →
    tail = 10+pre.length+entriesLen (e :: es).dropLast →
    cascadeLoop fuel (seam total tail cnt pre prev e x es) (10+pre.length) total =
      if 10+pre.length+entriesLen (e :: cascade e.rawlen es)+1 < 2^32 then
        .ok (seam (10+pre.length+entriesLen (e :: cascade e.rawlen es)+1)
          (10+pre.length+entriesLen (e :: cascade e.rawlen es).dropLast) cnt pre prev e
          e.rawlen (cascade e.rawlen es))
      else .error .sizeWrap := by
  induction es with
  | nil =>
    intro fuel total tail cnt pre prev x e hf hok hprev _ hx hlt htot htail
    obtain ⟨fuel, rfl⟩ : ∃ k, fuel = k+1 := ⟨fuel-1, by omega⟩
    have hm : seam total tail cnt pre prev e x [] =
        (header total tail cnt ++ pre) ++ (encodeEntry prev e ++ [zipEnd]) := by
      simp [seam, encodeEntries]
    have hp : 10+pre.length = (header total tail cnt ++ pre).length := by
      simp [ziplistHeaderSize]
    obtain ⟨b, hb, hne, -⟩ := loadByte_entry hok.narrow hm hp
    obtain ⟨z, hz, -, -, hraw, -⟩ := zipEntry_entry hok hprev hm hp
    have hend : loadByte (seam total tail cnt pre prev e x []) (10+pre.length+e.rawlen) =
        .ok zipEnd := by
      refine loadByte_at (a := header total tail cnt ++ (pre ++ encodeEntry prev e)) (c := [])
        (by simp [seam, encodeEntries]) ?_
      simp [ziplistHeaderSize, Nat.add_assoc]
    simp only [entriesLen_cons, entriesLen_nil] at htot
    have hu : u32 e.rawlen = e.rawlen := Nat.mod_eq_of_lt (by omega)
    rw [cascadeLoop, hb, ok_bind, if_neg hne, hz, ok_bind]
    dsimp only
    rw [hraw, hu, hend, ok_bind, if_pos rfl]
    simp only [cascade, entriesLen_cons, entriesLen_nil] at htail ⊢
    rw [if_pos (by omega), ← htot, ← htail]
    rfl
  | cons n es ih =>
    intro fuel total tail cnt pre prev x e hf hok hprev hes hx hlt htot htail
    obtain ⟨fuel, rfl⟩ : ∃ k, fuel = k+1 := ⟨fuel-1, by omega⟩
    have hm : seam total tail cnt pre prev e x (n :: es) =
        (header total tail cnt ++ pre) ++
          (encodeEntry prev e ++ (encodeEntries x (n :: es) ++ [zipEnd])) := by
      simp [seam]
    have hp : 10+pre.length = (header total tail cnt ++ pre).length := by
      simp [ziplistHeaderSize]
    have hm' : seam total tail cnt pre prev e x (n :: es) =
        (header total tail cnt ++ (pre ++ encodeEntry prev e)) ++
          (encodeEntry x n ++ (encodeEntries n.rawlen es ++ [zipEnd])) := by
      simp [seam, encodeEntries]
    have hp' : 10+pre.length+e.rawlen =
        (header total tail cnt ++ (pre ++ encodeEntry prev e)).length := by
      simp [ziplistHeaderSize, Nat.add_assoc]
    obtain ⟨b, hb, hne, -⟩ := loadByte_entry hok.narrow hm hp
    obtain ⟨z, hz, -, -, hraw, -⟩ := zipEntry_entry hok hprev hm hp
    obtain ⟨b', hb', hne', -⟩ := loadByte_entry hes.1.narrow hm' hp'
    obtain ⟨z', hz', hsize', hprev', -, -⟩ := zipEntry_entry hes.1 hx hm' hp'
    have hsum := htot
    simp only [entriesLen_cons] at hsum
    have hu : u32 e.rawlen = e.rawlen := Nat.mod_eq_of_lt (by omega)
    rw [cascadeLoop, hb, ok_bind, if_neg hne, hz, ok_bind]
    dsimp only
    rw [hraw, hu, hb', ok_bind, if_neg hne', hz', ok_bind, hsize', hprev',
      zipStorePrevEntryLength_length]
    -- nothing is widened when the field of the next entry is wide enough already
    have hstop (hnw : ¬(n.wide = false ∧ zipBigPrevlen ≤ e.rawlen)) :
        cascade e.rawlen (n :: es) = n :: es := by rw [cascade, if_neg hnw]
    by_cases hxe : x = e.rawlen
    · rw [if_pos hxe, cascade_of_entriesOk hes (by omega), ← htot, ← htail, if_pos hlt, ← hxe]
      rfl
    rw [if_neg hxe]
    by_cases hw : n.wide = false ∧ zipBigPrevlen ≤ e.rawlen
    · obtain ⟨hn, hbig⟩ := hw
      have hcas : cascade e.rawlen (n :: es) = widen n :: cascade (widen n).rawlen es := by
        rw [cascade, if_pos ⟨hn, hbig⟩]
      rw [hcas, decide_eq_true hbig, hn, if_pos (by decide)]
      have hle := entriesLen_le_cascade (widen n).rawlen es
      by_cases hover : total+4 < 2^32
      · have hstep := cascadeWiden_seam total tail cnt pre prev x e n es hbig hn htot htail hover
        have hrec := ih fuel (total+4) (10+pre.length+entriesLen (e :: widen n :: es).dropLast)
          cnt (pre ++ encodeEntry prev e) e.rawlen n.rawlen (widen n) (by simp at hf; omega)
          ⟨fun h => by simp [widen] at h, hes.1.body⟩ (by omega) hes.2 (by omega) hover
          (by simp only [entriesLen_cons, widen_rawlen hn, List.length_append,
                encodeEntry_length]; omega)
          (by rw [dropLast_cons_ne e (by simp), List.length_append, encodeEntry_length]; omega)
        rw [hstep, ok_bind]
        rw [List.length_append, encodeEntry_length, ← Nat.add_assoc] at hrec
        refine hrec.trans ?_
        have hlen : 10+pre.length+e.rawlen+entriesLen (widen n :: cascade (widen n).rawlen es)+1 =
            10+pre.length+entriesLen (e :: widen n :: cascade (widen n).rawlen es)+1 := by
          simp only [entriesLen_cons]; omega
        have htl : 10+pre.length+e.rawlen+
            entriesLen (widen n :: cascade (widen n).rawlen es).dropLast =
            10+pre.length+entriesLen (e :: widen n :: cascade (widen n).rawlen es).dropLast := by
          rw [dropLast_cons_ne e (by simp)]; omega
        rw [hlen, htl]
        simp [seam, encodeEntries]
      · have hgt : ¬10+pre.length+entriesLen (e :: widen n :: cascade (widen n).rawlen es)+1 <
            2^32 := by
          simp only [entriesLen_cons, widen_rawlen hn] at hle ⊢; omega
        rw [if_neg hgt]
        have hres : ziplistResize (seam total tail cnt pre prev e x (n :: es))
            (total+(prevSize true-prevSize false)) = .error .sizeWrap := by
          rw [ziplistResize, if_neg (by simpa [prevSize] using hover)]
        rw [cascadeWiden, zipStorePrevEntryLength_length, decide_eq_true hbig, hres]
        rfl
    · rw [hstop hw, ← htot, ← htail, if_pos hlt]
      have hwrite : storeBytes (seam total tail cnt pre prev e x (n :: es))
          (10+pre.length+e.rawlen) (encodePrev n.wide e.rawlen) =
          .ok (seam total tail cnt pre prev e e.rawlen (n :: es)) := by
        rw [storeBytes_at (a := header total tail cnt ++ (pre ++ encodeEntry prev e))
          (x := encodePrev n.wide x) (c := n.body ++ (encodeEntries n.rawlen es ++ [zipEnd]))
          (by simp [hm', encodeEntry]) hp' (by simp)]
        simp [seam, encodeEntries, encodeEntry]
      cases hnw : n.wide with
      | true =>
        rw [hnw] at hwrite
        by_cases hbig : zipBigPrevlen ≤ e.rawlen
        · rw [decide_eq_true hbig, if_neg (lt_irrefl _), if_neg (lt_irrefl _),
            zipStorePrevEntryLength_eq, decide_eq_true hbig, hwrite]
        · rw [decide_eq_false hbig, if_neg (by decide), if_pos (by decide)]
          exact hwrite
      | false =>
        have hbig : ¬zipBigPrevlen ≤ e.rawlen := fun h => hw ⟨hnw, h⟩
        rw [hnw] at hwrite
        rw [decide_eq_false hbig, if_neg (lt_irrefl _), if_neg (lt_irrefl _),
          zipStorePrevEntryLength_eq, decide_eq_false hbig, hwrite]

end RedisCore.Ziplist
