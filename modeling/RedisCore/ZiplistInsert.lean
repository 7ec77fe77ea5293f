import RedisCore.ZiplistCascade

namespace RedisCore.Ziplist
open List (append_assoc length_append)
set_option linter.style.nameCheck false

def nextWide (raw : ℕ) (wide : Bool) : Bool :=
  if wide = true ∧ raw < 4 then true else decide (zipBigPrevlen ≤ raw)

def rewidth (wide : Bool) (e : Entry) : Entry := { e with wide := wide }

@[simp] theorem rewidth_text (w : Bool) (e : Entry) : (rewidth w e).text = e.text := rfl

theorem rewidth_rawlen (w : Bool) (e : Entry) : (rewidth w e).rawlen = prevSize w+e.body.length :=
  rfl

def follow (w : Bool) : List Entry → List Entry
  | [] => []
  | e :: es => rewidth w e :: cascade (rewidth w e).rawlen es

def newEntry (es : List Entry) (body : Bytes) : Entry :=
  ⟨decide (zipBigPrevlen ≤ rawAfter 0 es), body⟩

def nextWideOf (raw : ℕ) : List Entry → Bool
  | [] => false
  | e :: _ => nextWide raw e.wide

def insertEntries (es1 es2 : List Entry) (body : Bytes) : List Entry :=
  es1 ++ newEntry es1 body :: follow (nextWideOf (newEntry es1 body).rawlen es2) es2

theorem texts_follow (w : Bool) (es : List Entry) : texts (follow w es) = texts es := by
  cases es with
  | nil => rfl
  | cons e es =>
    have h := cascade_texts (rewidth w e).rawlen es
    simp only [texts, follow, List.map_cons, rewidth_text] at h ⊢
    rw [h]

theorem blob_split (es1 es2 : List Entry) (cnt : ℕ) :
    blob (es1 ++ es2) cnt = header (blobLen (es1 ++ es2)) (tailOffset (es1 ++ es2)) cnt ++
      (encodeEntries 0 es1 ++ (encodeEntries (rawAfter 0 es1) es2 ++ [zipEnd])) := by
  simp [blob, encodeEntries_append]

theorem tailOffset_lt {es : List Entry} (h : blobLen es < 2^32) : tailOffset es < 2^32 := by
  have := entriesLen_dropLast_le es
  simp only [blobLen, tailOffset] at *
  omega

theorem rawAfter_lt {es1 es2 : List Entry} (h : blobLen (es1 ++ es2) < 2^32) :
    rawAfter 0 es1 < 2^32 := by
  have := rawAfter_le es1 0
  simp only [blobLen, entriesLen_append] at h
  omega

theorem insertPrevlen_mid {es1 es : List Entry} {e : Entry} {cnt : ℕ}
    (hok : EntriesOk 0 (es1 ++ e :: es)) (hsize : blobLen (es1 ++ e :: es) < 2^32) :
    insertPrevlen (blob (es1 ++ e :: es) cnt) (10+entriesLen es1) = .ok (rawAfter 0 es1) := by
  have hm : blob (es1 ++ e :: es) cnt =
      (header (blobLen (es1 ++ e :: es)) (tailOffset (es1 ++ e :: es)) cnt ++
        encodeEntries 0 es1) ++
        (encodeEntry (rawAfter 0 es1) e ++ (encodeEntries e.rawlen es ++ [zipEnd])) := by
    simp [blob_split, encodeEntries]
  have hn := ((entriesOk_append 0 es1 (e :: es)).mp hok).2.1.narrow
  have hp : 10+entriesLen es1 = (header (blobLen (es1 ++ e :: es)) (tailOffset (es1 ++ e :: es))
      cnt ++ encodeEntries 0 es1).length := by simp [ziplistHeaderSize]
  obtain ⟨b, hb, hne, -⟩ := loadByte_entry hn hm hp
  rw [insertPrevlen, hb, ok_bind, if_pos hne,
    zipDecodePrevlen_entry hn (rawAfter_lt hsize) hm hp]
  rfl

theorem insertPrevlen_end {es : List Entry} {cnt : ℕ} (hok : EntriesOk 0 es)
    (hsize : blobLen es < 2^32) :
    insertPrevlen (blob es cnt) (10+entriesLen es) = .ok (rawAfter 0 es) := by
  have hend : loadByte (blob es cnt) (10+entriesLen es) = .ok zipEnd :=
    loadByte_at (a := header (blobLen es) (tailOffset es) cnt ++ encodeEntries 0 es) (c := [])
      (by simp [blob]) (by simp [ziplistHeaderSize])
  have ht : ziplistTailOffset (blob es cnt) = .ok (tailOffset es) :=
    ziplistTailOffset_header (tailOffset_lt hsize)
  rw [insertPrevlen, hend, ok_bind, if_neg (by simp), ht, ok_bind]
  rcases List.eq_nil_or_concat es with rfl | ⟨fs, d, rfl⟩
  · rfl
  · rw [List.concat_eq_append] at *
    have hokd := ((entriesOk_append 0 fs [d]).mp hok).2.1
    have hm : blob (fs ++ [d]) cnt =
        (header (blobLen (fs ++ [d])) (tailOffset (fs ++ [d])) cnt ++ encodeEntries 0 fs) ++
          (encodeEntry (rawAfter 0 fs) d ++ [zipEnd]) := by
      simp [blob_split, encodeEntries]
    have hp : tailOffset (fs ++ [d]) = (header (blobLen (fs ++ [d])) (tailOffset (fs ++ [d])) cnt
        ++ encodeEntries 0 fs).length := by simp [tailOffset]
    obtain ⟨b, hb, hne, -⟩ := loadByte_entry hokd.narrow hm hp
    have hraw : d.rawlen < 2^32 := by
      simp only [blobLen, entriesLen_append, entriesLen_cons] at hsize
      omega
    rw [hb, ok_bind, if_pos hne, zipRawEntryLength_entry hokd hraw hm hp,
      rawAfter_append_cons]
    rfl

theorem insertMakeRoom_end (total tail cnt reqlen : ℕ) (body : Bytes)
    (htot : total = 10+body.length+1) (hlt : total+reqlen < 2^32) :
    insertMakeRoom (header total tail cnt ++ (body ++ [zipEnd])) (10+body.length) total reqlen 0
      false = .ok (header (total+reqlen) (10+body.length) cnt ++
        (body ++ (endFill reqlen ++ [zipEnd]))) := by
  have hlen : ((total : ℤ)+reqlen+0).toNat = total+reqlen := by omega
  have hend : loadByte (header (total+reqlen) tail cnt ++ (body ++ (endFill reqlen ++ [zipEnd])))
      (10+body.length) = .ok zipEnd := by
    obtain ⟨rest, hrest⟩ : ∃ rest, endFill reqlen ++ [zipEnd] = zipEnd :: rest := by
      cases reqlen with
      | zero => exact ⟨[], rfl⟩
      | succ k => exact ⟨List.replicate k 0 ++ [zipEnd], rfl⟩
    exact loadByte_at (a := header (total+reqlen) tail cnt ++ body) (c := rest)
      (by rw [hrest, append_assoc]) (by simp [ziplistHeaderSize])
  rw [insertMakeRoom, hlen, ziplistResize_grow (by omega) hlt, ok_bind,
    show total+reqlen-(10+body.length+1) = reqlen by omega, hend, ok_bind,
    if_neg (by simp)]
  exact setZiplistTailOffset_header _ _ rfl (by omega)

theorem insert_move (total tail cnt prev : ℕ) {reqlen curlen : ℕ} {pre fill : Bytes} {e : Entry}
    {es : List Entry} {nextdiff : ℤ} (w : Bool)
    (hdiff : nextdiff = (prevSize w : ℤ)-prevSize e.wide)
    (hcur : curlen = 10+pre.length+entriesLen (e :: es)+1)
    (hfill : (fill.length : ℤ) = reqlen+nextdiff) :
    ∃ junk : Bytes, junk.length = reqlen ∧ (do
      let zl ← moveBytes (header total tail cnt ++
          (pre ++ (encodeEntries prev (e :: es) ++ (fill ++ [zipEnd])))) (10+pre.length+reqlen)
        (((10+pre.length : ℕ) : ℤ)-nextdiff).toNat
        ((curlen : ℤ)-((10+pre.length : ℕ) : ℤ)-1+nextdiff).toNat
      storeBytes zl (10+pre.length+reqlen) (encodePrev w reqlen)) =
      .ok (seam total tail cnt (pre ++ junk) reqlen (rewidth w e) e.rawlen es) := by
  have hraw : e.rawlen = prevSize e.wide+e.body.length := rfl
  have hw1 := prevSize_pos e.wide
  have hw5 := prevSize_le w
  simp only [entriesLen_cons] at hcur
  let front := header total tail cnt ++ (pre ++ encodePrev e.wide prev)
  have hfront : front.length = 10+pre.length+prevSize e.wide := by
    simp [front, ziplistHeaderSize, Nat.add_assoc]
  let keep := e.body ++ encodeEntries e.rawlen es
  have hkeep : keep.length = e.body.length+entriesLen es := by simp [keep]
  -- the source starts as many bytes before the body as the new field is wide
  let k := front.length-prevSize w
  have hsplit : front = front.take k ++ front.drop k := (List.take_append_drop _ _).symm
  have hdrop : (front.drop k).length = prevSize w := by rw [List.length_drop]; omega
  have hsrc : header total tail cnt ++
      (pre ++ (encodeEntries prev (e :: es) ++ (fill ++ [zipEnd]))) =
      front.take k ++ ((front.drop k ++ keep) ++ (fill ++ [zipEnd])) := by
    calc
      _ = front ++ (keep ++ (fill ++ [zipEnd])) := by
        simp [front, keep, encodeEntries, encodeEntry]
      _ = (front.take k ++ front.drop k) ++ (keep ++ (fill ++ [zipEnd])) := by rw [← hsplit]
      _ = _ := by simp only [append_assoc]
  -- the target is everything from `p+reqlen` up to the end marker
  let rest := encodeEntries prev (e :: es) ++ fill
  have hrestlen : rest.length = reqlen+(prevSize w+keep.length) := by
    simp only [rest, length_append, encodeEntries_length, entriesLen_cons, hkeep]
    omega
  have hdst : header total tail cnt ++
      (pre ++ (encodeEntries prev (e :: es) ++ (fill ++ [zipEnd]))) =
      (header total tail cnt ++ (pre ++ rest.take reqlen)) ++ (rest.drop reqlen ++ [zipEnd]) := by
    calc
      _ = header total tail cnt ++ (pre ++ (rest ++ [zipEnd])) := by
        simp only [rest, append_assoc]
      _ = header total tail cnt ++ (pre ++ ((rest.take reqlen ++ rest.drop reqlen) ++
          [zipEnd])) := by rw [List.take_append_drop]
      _ = _ := by simp only [append_assoc]
  have hjunk : (rest.take reqlen).length = reqlen := by
    rw [List.length_take, hrestlen]; omega
  have hmoved : (front.drop k ++ keep).length = prevSize w+keep.length := by
    rw [length_append, hdrop]
  refine ⟨rest.take reqlen, hjunk, ?_⟩
  rw [moveBytes_at hsrc (by rw [List.length_take]; omega) (by rw [hmoved, hkeep]; omega) hdst
    (by simp [hjunk, ziplistHeaderSize, Nat.add_assoc])
    (by rw [List.length_drop, hrestlen, hmoved]; omega), ok_bind]
  have hm2 : (header total tail cnt ++ (pre ++ rest.take reqlen)) ++
      ((front.drop k ++ keep) ++ [zipEnd]) =
      (header total tail cnt ++ (pre ++ rest.take reqlen)) ++
        (front.drop k ++ (keep ++ [zipEnd])) := by simp only [append_assoc]
  rw [storeBytes_at hm2 (by simp [hjunk, ziplistHeaderSize, Nat.add_assoc])
    (by rw [hdrop, encodePrev_length])]
  simp [seam, keep, encodeEntry, rewidth]

theorem insertMakeRoom_mid (cnt : ℕ) {total tail reqlen prev : ℕ} {pre : Bytes} {e : Entry}
    {es : List Entry} (w : Bool) (large : Bool) (nextdiff : ℤ)
    (hok : EntriesOk prev (e :: es)) (hdiff : nextdiff = (prevSize w : ℤ)-prevSize e.wide)
    (hstore : (if large then zipStorePrevEntryLengthLarge (u32 reqlen)
      else zipStorePrevEntryLength (u32 reqlen)) = encodePrev w reqlen)
    (hfit : w = false → reqlen < zipBigPrevlen)
    (hgrow : 0 ≤ reqlen+nextdiff)
    (htot : total = 10+pre.length+entriesLen (e :: es)+1)
    (htail : tail = 10+pre.length+entriesLen (e :: es).dropLast) (htl : tail < 2^32)
    (hlt : (total : ℤ)+reqlen+nextdiff < 2^32) :
    ∃ junk, junk.length = reqlen ∧
      insertMakeRoom (header total tail cnt ++ (pre ++ (encodeEntries prev (e :: es) ++ [zipEnd])))
        (10+pre.length) total reqlen nextdiff large =
      .ok (seam (10+(pre ++ junk).length+entriesLen (rewidth w e :: es)+1)
        (10+(pre ++ junk).length+entriesLen (rewidth w e :: es).dropLast) cnt (pre ++ junk) reqlen
        (rewidth w e) e.rawlen es) := by
  have hraw : e.rawlen = prevSize e.wide+e.body.length := rfl
  have hraw' := rewidth_rawlen w e
  obtain ⟨total', htotal'⟩ : ∃ n : ℕ, (n : ℤ) = total+reqlen+nextdiff :=
    ⟨((total : ℤ)+reqlen+nextdiff).toNat, Int.toNat_of_nonneg (by omega)⟩
  have hsum := htot
  rw [entriesLen_cons] at hsum
  obtain ⟨fill, hfill, hres⟩ : ∃ fill : Bytes, (fill.length : ℤ) = reqlen+nextdiff ∧
      ziplistResize (header total tail cnt ++ (pre ++ (encodeEntries prev (e :: es) ++ [zipEnd])))
        total' = .ok (header total' tail cnt ++
          (pre ++ (encodeEntries prev (e :: es) ++ (fill ++ [zipEnd])))) := by
    have hlen : (pre ++ encodeEntries prev (e :: es)).length = total-11 := by simp; omega
    refine ⟨endFill (total'-total), by rw [endFill_length]; omega, ?_⟩
    rw [← append_assoc pre, ziplistResize_grow (by omega) (by omega), hlen,
      show total'-(10+(total-11)+1) = total'-total by omega, append_assoc pre]
  have hm : header total' tail cnt ++ (pre ++ (encodeEntries prev (e :: es) ++
      (fill ++ [zipEnd]))) = (header total' tail cnt ++ pre) ++
        (encodeEntry prev e ++ (encodeEntries e.rawlen es ++ (fill ++ [zipEnd]))) := by
    simp [encodeEntries]
  obtain ⟨b, hb, hne, -⟩ := loadByte_entry (p := 10+pre.length) hok.1.narrow hm
    (by simp [ziplistHeaderSize])
  obtain ⟨junk, hjunk, hmove⟩ := insert_move total' tail cnt prev w hdiff htot hfill
  have hdl := entriesLen_dropLast_le (rewidth w e :: es)
  have htot' : total' = 10+(pre ++ junk).length+entriesLen (rewidth w e :: es)+1 := by
    rw [length_append, hjunk, entriesLen_cons]; omega
  have hoff : shiftTailOffset (seam total' tail cnt (pre ++ junk) reqlen (rewidth w e) e.rawlen es)
      (10+pre.length+reqlen) reqlen nextdiff = .ok (seam total'
        (10+(pre ++ junk).length+entriesLen (rewidth w e :: es).dropLast) cnt (pre ++ junk) reqlen
        (rewidth w e) e.rawlen es) := by
    refine shiftTailOffset_seam total' cnt (pre ++ junk) (by simp [hjunk, Nat.add_assoc])
      ⟨hfit, hok.1.body⟩ (by omega) hok.2 htl (by omega) (fun h => ?_) (fun h => ?_)
    · subst h
      simp only [List.dropLast_singleton, entriesLen_nil, length_append, hjunk] at htail ⊢
      omega
    · rw [htail, dropLast_cons_ne e h, dropLast_cons_ne _ h, length_append, hjunk]
      omega
  refine ⟨junk, hjunk, ?_⟩
  rw [insertMakeRoom, ← htotal', Int.toNat_natCast, hres, ok_bind, hb, ok_bind,
    if_pos hne, hstore, ← bind_assoc, hmove, ok_bind, hoff, ← htot']

theorem __ziplistCascadeUpdate_seam (cnt : ℕ) (pre : Bytes) {total tail prev x : ℕ} {e : Entry}
    {es : List Entry} (hok : EntryOk prev e) (hprev : prev < 2^32) (hes : EntriesOk x es)
    (hx : x < 2^32) (hlt : total < 2^32) (htot : total = 10+pre.length+entriesLen (e :: es)+1)
    (htail : tail = 10+pre.length+entriesLen (e :: es).dropLast) :
    __ziplistCascadeUpdate (seam total tail cnt pre prev e x es) (10+pre.length) =
      if 10+pre.length+entriesLen (e :: cascade e.rawlen es)+1 < 2^32 then
        .ok (seam (10+pre.length+entriesLen (e :: cascade e.rawlen es)+1)
          (10+pre.length+entriesLen (e :: cascade e.rawlen es).dropLast) cnt pre prev e
          e.rawlen (cascade e.rawlen es))
      else .error .sizeWrap := by
  have hlen : (seam total tail cnt pre prev e x es).length = total := by
    simp [seam, ziplistHeaderSize, htot]; omega
  have hfuel : es.length ≤ entriesLen es := by
    clear * -
    induction es with
    | nil => exact le_rfl
    | cons d es ih =>
      have := prevSize_pos d.wide
      simp only [List.length_cons, entriesLen_cons, Entry.rawlen]
      omega
  have hcur : ziplistBytes (seam total tail cnt pre prev e x es) = .ok total :=
    ziplistBytes_header hlt
  rw [__ziplistCascadeUpdate, hcur, ok_bind, hlen]
  rw [entriesLen_cons] at htot
  exact cascadeLoop_seam es total total tail cnt pre prev x e (by omega) hok hprev hes hx hlt
    (by rw [entriesLen_cons]; omega) htail

theorem storeBytes_three (pre junk : Bytes) {m post x y z : Bytes} {p : ℕ} (hm : m = pre ++ (junk ++ post))
    (hp : p = pre.length) (hj : junk.length = x.length+(y.length+z.length))
    (f : Bytes → Except Fault Bytes) :
    (do
      let m ← storeBytes m p x
      let m ← storeBytes m (p+x.length) y
      let m ← storeBytes m (p+x.length+y.length) z
      f m) = f (pre ++ (x ++ (y ++ (z ++ post)))) := by
  let j1 := junk.take x.length
  let j2 := (junk.drop x.length).take y.length
  let j3 := (junk.drop x.length).drop y.length
  have hjunk : junk = j1 ++ (j2 ++ j3) := by simp [j1, j2, j3]
  rw [storeBytes_at (a := pre) (x := j1) (c := j2 ++ (j3 ++ post))
      (by simp only [hm, hjunk, append_assoc]) hp (by simp [j1]; omega), ok_bind,
    storeBytes_at (a := pre ++ x) (x := j2) (c := j3 ++ post)
      (by simp only [append_assoc]) (by simp [hp]) (by simp [j2]; omega), ok_bind,
    storeBytes_at (a := pre ++ (x ++ y)) (x := j3) (c := post)
      (by simp only [append_assoc]) (by simp [hp, Nat.add_assoc])
      (by simp [j3]; omega), ok_bind]
  simp only [append_assoc]

def prepared (es1 es2 : List Entry) (body junk : Bytes) (cnt : ℕ) : Bytes :=
  header (blobLen (insertEntries es1 es2 body)) (tailOffset (insertEntries es1 es2 body)) cnt ++
    (encodeEntries 0 es1 ++ (junk ++ (encodeEntries (newEntry es1 body).rawlen
      (follow (nextWideOf (newEntry es1 body).rawlen es2) es2) ++ [zipEnd])))

theorem insert_prepare_end {es : List Entry} {body : Bytes} {cnt : ℕ} :
    (blobLen (insertEntries es [] body) < 2^32 → ∃ junk : Bytes,
      junk.length = (newEntry es body).rawlen ∧
      insertMakeRoom (blob es cnt) (10+entriesLen es) (blobLen es) (newEntry es body).rawlen 0
        false = .ok (prepared es [] body junk cnt)) ∧
    (¬blobLen (insertEntries es [] body) < 2^32 →
      insertMakeRoom (blob es cnt) (10+entriesLen es) (blobLen es) (newEntry es body).rawlen 0
        false = .error .sizeWrap) := by
  have hnew : blobLen (insertEntries es [] body) = blobLen es+(newEntry es body).rawlen := by
    simp [insertEntries, follow, blobLen]; omega
  have htail : tailOffset (insertEntries es [] body) = 10+entriesLen es := by
    simp [insertEntries, follow, tailOffset, ziplistHeaderSize]
  constructor
  · intro hlt
    refine ⟨endFill (newEntry es body).rawlen, endFill_length _, ?_⟩
    have h := insertMakeRoom_end (blobLen es) (tailOffset es) cnt (newEntry es body).rawlen
      (encodeEntries 0 es) (by simp [blobLen, ziplistHeaderSize, ziplistEndSize]) (by omega)
    rw [encodeEntries_length] at h
    rw [blob, h, prepared, hnew, htail]
    rfl
  · intro hge
    rw [insertMakeRoom, ziplistResize, if_neg (by omega)]
    rfl

theorem prevSize_nextWide (raw : ℕ) (wide : Bool) :
    (prevSize (nextWide raw wide) : ℤ)-prevSize wide =
      (if (prevSize (decide (zipBigPrevlen ≤ raw)) : ℤ)-prevSize wide = -4 ∧ raw < 4 then 0
        else (prevSize (decide (zipBigPrevlen ≤ raw)) : ℤ)-prevSize wide) := by
  by_cases h4 : raw < 4
  · have hb : ¬zipBigPrevlen ≤ raw := by simp [zipBigPrevlen]; omega
    cases wide <;> simp [nextWide, h4, hb, prevSize]
  · cases wide <;> simp [nextWide, h4]

theorem prevSize_nextWide_grow {raw : ℕ} {wide : Bool} (hraw : 1 ≤ raw) :
    0 ≤ (raw : ℤ)+((prevSize (nextWide raw wide) : ℤ)-prevSize wide) := by
  by_cases h4 : raw < 4
  · have hb : ¬zipBigPrevlen ≤ raw := by simp [zipBigPrevlen]; omega
    cases wide <;> simp [nextWide, h4, hb, prevSize]
  · have h1 := prevSize_pos (nextWide raw wide)
    have h2 := prevSize_le wide
    omega

section InsertMid

variable {es1 es : List Entry} {e : Entry} {body : Bytes} {cnt : ℕ}

def makeRoomAndCascade (zl : Bytes) (p curlen reqlen : ℕ) (nextdiff : ℤ) (large : Bool) :
    Except Fault Bytes := do
  let zl ← insertMakeRoom zl p curlen reqlen nextdiff large
  if nextdiff ≠ 0 then __ziplistCascadeUpdate zl (p+reqlen) else .ok zl

theorem insert_prepare_mid (hok : EntriesOk 0 (es1 ++ e :: es))
    (hsize : blobLen (es1 ++ e :: es) < 2^32) (nextdiff : ℤ) (large : Bool)
    (hreq : (newEntry es1 body).rawlen < 2^32)
    (hdiff : nextdiff = (prevSize (nextWide (newEntry es1 body).rawlen e.wide) : ℤ)-
      prevSize e.wide)
    (hlarge : large = decide (e.wide = true ∧ (newEntry es1 body).rawlen < 4)) :
    (blobLen (insertEntries es1 (e :: es) body) < 2^32 → ∃ junk : Bytes,
      junk.length = (newEntry es1 body).rawlen ∧
      makeRoomAndCascade (blob (es1 ++ e :: es) cnt) (10+entriesLen es1)
        (blobLen (es1 ++ e :: es)) (newEntry es1 body).rawlen nextdiff large =
        .ok (prepared es1 (e :: es) body junk cnt)) ∧
    (¬blobLen (insertEntries es1 (e :: es) body) < 2^32 →
      makeRoomAndCascade (blob (es1 ++ e :: es) cnt) (10+entriesLen es1)
        (blobLen (es1 ++ e :: es)) (newEntry es1 body).rawlen nextdiff large =
        .error .sizeWrap) := by
  obtain ⟨hok1, hok2⟩ := (entriesOk_append 0 es1 (e :: es)).mp hok
  set req := (newEntry es1 body).rawlen with hreqdef
  set w := nextWide req e.wide with hw
  have hpos : 1 ≤ req := by
    have := prevSize_pos (newEntry es1 body).wide
    simp only [hreqdef, Entry.rawlen]; omega
  have hraw : e.rawlen = prevSize e.wide+e.body.length := rfl
  have hraw' := rewidth_rawlen w e
  have hgrow : 0 ≤ (req : ℤ)+nextdiff := by
    rw [hdiff]
    exact prevSize_nextWide_grow hpos
  have htot : blobLen (es1 ++ e :: es) = 10+(encodeEntries 0 es1).length+entriesLen (e :: es)+1 := by
    simp [blobLen, ziplistHeaderSize, ziplistEndSize]; omega
  have htail : tailOffset (es1 ++ e :: es) =
      10+(encodeEntries 0 es1).length+entriesLen (e :: es).dropLast := by
    rw [tailOffset, List.dropLast_append_of_ne_nil (by simp)]
    simp [ziplistHeaderSize]; omega
  have hblob : blob (es1 ++ e :: es) cnt =
      header (blobLen (es1 ++ e :: es)) (tailOffset (es1 ++ e :: es)) cnt ++ (encodeEntries 0 es1 ++
        (encodeEntries (rawAfter 0 es1) (e :: es) ++ [zipEnd])) := blob_split es1 (e :: es) cnt
  have hnew : blobLen (insertEntries es1 (e :: es) body) =
      10+(entriesLen es1+req)+entriesLen (rewidth w e :: cascade (rewidth w e).rawlen es)+1 := by
    simp [insertEntries, follow, nextWideOf, blobLen, ziplistHeaderSize, ziplistEndSize, hreqdef,
      hw]
    omega
  have hnewtail : tailOffset (insertEntries es1 (e :: es) body) = 10+(entriesLen es1+req)+
      entriesLen (rewidth w e :: cascade (rewidth w e).rawlen es).dropLast := by
    rw [insertEntries, tailOffset, List.dropLast_append_of_ne_nil (by simp), entriesLen_append,
      dropLast_cons_ne _ (by simp [follow])]
    simp [follow, nextWideOf, ziplistHeaderSize, hreqdef, hw]
    omega
  have hle := entriesLen_le_cascade (rewidth w e).rawlen es
  have hsum : blobLen (es1 ++ e :: es) = 10+entriesLen es1+(e.rawlen+entriesLen es)+1 := by
    rw [htot, encodeEntries_length, entriesLen_cons]
  rw [entriesLen_cons] at hnew
  rw [makeRoomAndCascade]
  by_cases hlt : (blobLen (es1 ++ e :: es) : ℤ)+req+nextdiff < 2^32
  · have hstore : (if large then zipStorePrevEntryLengthLarge (u32 req)
        else zipStorePrevEntryLength (u32 req)) = encodePrev w req := by
      rw [show u32 req = req from Nat.mod_eq_of_lt hreq, hlarge, hw, nextWide]
      by_cases hc : e.wide = true ∧ req < 4
      · rw [if_pos (decide_eq_true hc), if_pos hc]
        rfl
      · rw [if_neg (by simpa using hc), if_neg hc]
        exact zipStorePrevEntryLength_eq req
    have hfit : w = false → req < zipBigPrevlen := by
      intro h
      rw [hw, nextWide] at h
      split_ifs at h with h1
      simpa using h
    obtain ⟨junk, hjunk, hroom⟩ := insertMakeRoom_mid cnt w large nextdiff hok2 hdiff
      hstore hfit hgrow htot htail (tailOffset_lt hsize) hlt
    have hpre : 10+(encodeEntries 0 es1 ++ junk).length = 10+entriesLen es1+req := by
      simp [hjunk]; omega
    rw [hblob, ← encodeEntries_length 0 es1, hroom, ok_bind, encodeEntries_length]
    by_cases hz : nextdiff = 0
    · -- no width changed: the seam is a correct list already
      have hwe : w = e.wide := by
        rw [hdiff, sub_eq_zero] at hz
        revert hz
        cases w <;> cases e.wide <;> decide
      have hrw : rewidth w e = e := by rw [hwe]; rfl
      have hcas : cascade e.rawlen es = es := cascade_of_entriesOk hok2.2 le_rfl
      rw [hrw, hcas] at hnew hnewtail
      rw [if_neg (by simpa using hz), hrw]
      refine ⟨fun _ => ⟨junk, hjunk, ?_⟩, fun h => absurd ?_ h⟩
      · rw [prepared, hnew, hnewtail, seam, follow, nextWideOf, ← hreqdef, ← hw, hrw, hcas,
          length_append, hjunk, encodeEntries_length, entriesLen_cons]
        simp [encodeEntries]
      · rw [hnew]; omega
    · have hokn : EntryOk req (rewidth w e) := ⟨hfit, hok2.1.body⟩
      have hcasc := __ziplistCascadeUpdate_seam cnt (encodeEntries 0 es1 ++ junk)
        hokn hreq hok2.2 (by omega) (by rw [entriesLen_cons]; omega) rfl rfl
      rw [if_pos hz, ← hpre, hcasc, hpre, entriesLen_cons]
      constructor
      · intro h
        refine ⟨junk, hjunk, ?_⟩
        rw [if_pos (by omega), prepared, hnew, hnewtail, seam, follow, nextWideOf, ← hreqdef, ← hw]
        simp [encodeEntries, Nat.add_assoc]
      · intro h
        rw [if_neg (by omega)]
  · have hres : insertMakeRoom (blob (es1 ++ e :: es) cnt) (10+entriesLen es1)
        (blobLen (es1 ++ e :: es)) req nextdiff large = .error .sizeWrap := by
      rw [insertMakeRoom, ziplistResize, if_neg (by omega)]
      rfl
    rw [hres, except_error_bind]
    exact ⟨fun h => by omega, fun _ => rfl⟩

end InsertMid

theorem insertEntries_length (es1 es2 : List Entry) (body : Bytes) :
    (insertEntries es1 es2 body).length = (es1 ++ es2).length+1 := by
  have h := congrArg List.length (texts_follow (nextWideOf (newEntry es1 body).rawlen es2) es2)
  simp only [texts, List.length_map] at h
  simp [insertEntries, h]
  omega

theorem makeRoomAndCascade_end (zl : Bytes) (p curlen reqlen : ℕ) :
    makeRoomAndCascade zl p curlen reqlen 0 false = insertMakeRoom zl p curlen reqlen 0 false := by
  rw [makeRoomAndCascade]
  cases insertMakeRoom zl p curlen reqlen 0 false <;> rfl

theorem __ziplistInsert_prefix (cnt : ℕ) {es1 es2 : List Entry} {s head data : Bytes}
    (hok : EntriesOk 0 (es1 ++ es2)) (hsize : blobLen (es1 ++ es2) < 2^32)
    (hpay : insertPayload s = .ok (head, data))
    (hlen : insertDataLen s = .ok (head.length+data.length)) :
    ∃ nextdiff large, __ziplistInsert (blob (es1 ++ es2) cnt) (10+entriesLen es1) s = (do
      let zl ← makeRoomAndCascade (blob (es1 ++ es2) cnt) (10+entriesLen es1)
        (blobLen (es1 ++ es2)) (newEntry es1 (head ++ data)).rawlen nextdiff large
      let zl ← storeBytes zl (10+entriesLen es1) (encodePrev (newEntry es1 (head ++ data)).wide
        (rawAfter 0 es1))
      let zl ← storeBytes zl (10+entriesLen es1+(encodePrev (newEntry es1 (head ++ data)).wide
        (rawAfter 0 es1)).length) head
      let zl ← storeBytes zl (10+entriesLen es1+(encodePrev (newEntry es1 (head ++ data)).wide
        (rawAfter 0 es1)).length+head.length) data
      ziplistIncrLength zl 1) ∧
    (es2 = [] → nextdiff = 0 ∧ large = false) ∧
    (∀ e es, es2 = e :: es → -4 ≤ nextdiff ∧ ((newEntry es1 (head ++ data)).rawlen < 2^32 →
      nextdiff = (prevSize (nextWide (newEntry es1 (head ++ data)).rawlen e.wide) : ℤ)-
        prevSize e.wide ∧
      large = decide (e.wide = true ∧ (newEntry es1 (head ++ data)).rawlen < 4))) := by
  have hcur : ziplistBytes (blob (es1 ++ es2) cnt) = .ok (blobLen (es1 ++ es2)) :=
    ziplistBytes_header hsize
  have hprev : insertPrevlen (blob (es1 ++ es2) cnt) (10+entriesLen es1) =
      .ok (rawAfter 0 es1) := by
    cases es2 with
    | nil =>
      rw [List.append_nil] at *
      exact insertPrevlen_end hok hsize
    | cons e es => exact insertPrevlen_mid hok hsize
  have hstore : zipStorePrevEntryLength (rawAfter 0 es1) =
      encodePrev (newEntry es1 (head ++ data)).wide (rawAfter 0 es1) :=
    zipStorePrevEntryLength_eq _
  have hreq : head.length+data.length+(encodePrev (newEntry es1 (head ++ data)).wide
      (rawAfter 0 es1)).length = (newEntry es1 (head ++ data)).rawlen := by
    simp [Entry.rawlen, newEntry]; omega
  have hbody : __ziplistInsert (blob (es1 ++ es2) cnt) (10+entriesLen es1) s = (do
      let b ← loadByte (blob (es1 ++ es2) cnt) (10+entriesLen es1)
      let diff ← (if b ≠ zipEnd then zipPrevLenByteDiff (blob (es1 ++ es2) cnt)
        (10+entriesLen es1) (u32 (newEntry es1 (head ++ data)).rawlen) else .ok 0)
      let large : Bool := diff = -4 ∧ (newEntry es1 (head ++ data)).rawlen < 4
      let nextdiff := if large then 0 else diff
      let zl ← makeRoomAndCascade (blob (es1 ++ es2) cnt) (10+entriesLen es1)
        (blobLen (es1 ++ es2)) (newEntry es1 (head ++ data)).rawlen nextdiff large
      let zl ← storeBytes zl (10+entriesLen es1) (encodePrev (newEntry es1 (head ++ data)).wide
        (rawAfter 0 es1))
      let zl ← storeBytes zl (10+entriesLen es1+(encodePrev (newEntry es1 (head ++ data)).wide
        (rawAfter 0 es1)).length) head
      let zl ← storeBytes zl (10+entriesLen es1+(encodePrev (newEntry es1 (head ++ data)).wide
        (rawAfter 0 es1)).length+head.length) data
      ziplistIncrLength zl 1) := by
    rw [__ziplistInsert, hcur, ok_bind, hprev, ok_bind, hlen, ok_bind]
    simp only [hstore, hreq, hpay, ok_bind, makeRoomAndCascade, bind_assoc]
  cases es2 with
  | nil =>
    have hend : loadByte (blob (es1 ++ []) cnt) (10+entriesLen es1) = .ok zipEnd :=
      loadByte_at (a := header (blobLen (es1 ++ [])) (tailOffset (es1 ++ [])) cnt ++
        encodeEntries 0 es1) (c := []) (by simp [blob]) (by simp [ziplistHeaderSize])
    refine ⟨0, false, ?_, fun _ => ⟨rfl, rfl⟩, fun e es h => by cases h⟩
    rw [hbody, hend, ok_bind, if_neg (by simp), ok_bind]
    rfl
  | cons e es =>
    have hn := ((entriesOk_append 0 es1 (e :: es)).mp hok).2.1.narrow
    have hm : blob (es1 ++ e :: es) cnt =
        (header (blobLen (es1 ++ e :: es)) (tailOffset (es1 ++ e :: es)) cnt ++
          encodeEntries 0 es1) ++
          (encodeEntry (rawAfter 0 es1) e ++ (encodeEntries e.rawlen es ++ [zipEnd])) := by
      simp [blob_split, encodeEntries]
    have hp : 10+entriesLen es1 = (header (blobLen (es1 ++ e :: es)) (tailOffset (es1 ++ e :: es))
        cnt ++ encodeEntries 0 es1).length := by simp [ziplistHeaderSize]
    obtain ⟨b, hb, hne, -⟩ := loadByte_entry hn hm hp
    have hdiff (len : ℕ) : zipPrevLenByteDiff (blob (es1 ++ e :: es) cnt) (10+entriesLen es1) len =
        .ok ((prevSize (decide (zipBigPrevlen ≤ len)) : ℤ)-prevSize e.wide) := by
      rw [zipPrevLenByteDiff, zipDecodePrevlensize_entry hn hm hp, ok_bind,
        zipStorePrevEntryLength_length, except_pure]
    rw [hb, ok_bind, if_pos hne, hdiff, ok_bind] at hbody
    refine ⟨_, _, hbody, fun h => (by cases h), ?_⟩
    intro e' es' h
    obtain ⟨rfl, rfl⟩ := List.cons.inj h
    have h1 := prevSize_pos (decide (zipBigPrevlen ≤ u32 (newEntry es1 (head ++ data)).rawlen))
    have h5 := prevSize_le e.wide
    refine ⟨by split_ifs <;> omega, fun hlt => ?_⟩
    rw [show u32 (newEntry es1 (head ++ data)).rawlen = (newEntry es1 (head ++ data)).rawlen from
      Nat.mod_eq_of_lt hlt, prevSize_nextWide]
    refine ⟨by simp only [decide_eq_true_eq], ?_⟩
    congr 1
    by_cases h4 : (newEntry es1 (head ++ data)).rawlen < 4
    · have hb : ¬zipBigPrevlen ≤ (newEntry es1 (head ++ data)).rawlen := by
        simp [zipBigPrevlen]; omega
      cases e.wide <;> simp [h4, hb, prevSize]
    · simp [h4]

theorem __ziplistInsert_blob {es1 es2 : List Entry} {cnt : ℕ} {s head data : Bytes}
    (hok : EntriesOk 0 (es1 ++ es2)) (hsize : blobLen (es1 ++ es2) < 2^32)
    (hcnt : CountOk (es1 ++ es2).length cnt) (hpay : insertPayload s = .ok (head, data))
    (hlen : insertDataLen s = .ok (head.length+data.length)) :
    (blobLen (insertEntries es1 es2 (head ++ data)) < 2^32 → ∃ cnt',
      CountOk (insertEntries es1 es2 (head ++ data)).length cnt' ∧
      __ziplistInsert (blob (es1 ++ es2) cnt) (10+entriesLen es1) s =
        .ok (blob (insertEntries es1 es2 (head ++ data)) cnt')) ∧
    (¬blobLen (insertEntries es1 es2 (head ++ data)) < 2^32 →
      __ziplistInsert (blob (es1 ++ es2) cnt) (10+entriesLen es1) s = .error .sizeWrap) := by
  obtain ⟨nextdiff, large, hins, hend, hmid⟩ := __ziplistInsert_prefix cnt hok hsize hpay hlen
  have hprep : (blobLen (insertEntries es1 es2 (head ++ data)) < 2^32 → ∃ junk : Bytes,
      junk.length = (newEntry es1 (head ++ data)).rawlen ∧
      makeRoomAndCascade (blob (es1 ++ es2) cnt) (10+entriesLen es1) (blobLen (es1 ++ es2))
        (newEntry es1 (head ++ data)).rawlen nextdiff large =
        .ok (prepared es1 es2 (head ++ data) junk cnt)) ∧
      (¬blobLen (insertEntries es1 es2 (head ++ data)) < 2^32 →
      makeRoomAndCascade (blob (es1 ++ es2) cnt) (10+entriesLen es1) (blobLen (es1 ++ es2))
        (newEntry es1 (head ++ data)).rawlen nextdiff large = .error .sizeWrap) := by
    cases es2 with
    | nil =>
      obtain ⟨rfl, rfl⟩ := hend rfl
      rw [makeRoomAndCascade_end, List.append_nil]
      exact insert_prepare_end
    | cons e es =>
      obtain ⟨hge, hexact⟩ := hmid e es rfl
      by_cases hlt : (newEntry es1 (head ++ data)).rawlen < 2^32
      · obtain ⟨hd, hl⟩ := hexact hlt
        exact insert_prepare_mid hok hsize nextdiff large hlt hd hl
      · -- such an entry alone is too large, whatever its truncated length says
        have hbig : ¬blobLen (insertEntries es1 (e :: es) (head ++ data)) < 2^32 := by
          simp only [insertEntries, blobLen, entriesLen_append, entriesLen_cons]; omega
        refine ⟨fun h => absurd h hbig, fun _ => ?_⟩
        have h11 : 11 ≤ blobLen (es1 ++ e :: es) := by
          simp only [blobLen, ziplistHeaderSize, ziplistEndSize]; omega
        rw [makeRoomAndCascade, insertMakeRoom, ziplistResize, if_neg (by omega)]
        rfl
  constructor
  · intro hlt
    obtain ⟨junk, hjunk, hroom⟩ := hprep.1 hlt
    obtain ⟨cnt', hcnt', hincr⟩ := ziplistIncrLength_header
      (blobLen (insertEntries es1 es2 (head ++ data)))
      (tailOffset (insertEntries es1 es2 (head ++ data)))
      (encodeEntries 0 (insertEntries es1 es2 (head ++ data)) ++ [zipEnd]) 1 hcnt
      (m := (insertEntries es1 es2 (head ++ data)).length)
      (by rw [insertEntries_length]; push_cast; rfl) (by rw [insertEntries_length])
    refine ⟨cnt', hcnt', ?_⟩
    rw [hins, hroom, ok_bind,
      storeBytes_three (header (blobLen (insertEntries es1 es2 (head ++ data)))
        (tailOffset (insertEntries es1 es2 (head ++ data))) cnt ++ encodeEntries 0 es1)
        junk (by rw [prepared, append_assoc]) (by simp [ziplistHeaderSize])
        (by simp [hjunk, Entry.rawlen, newEntry])]
    rw [blob, ← hincr]
    congr 1
    simp [insertEntries, encodeEntries_append, encodeEntries, encodeEntry, newEntry]
  · intro hge
    rw [hins, hprep.2 hge, except_error_bind]

end RedisCore.Ziplist
