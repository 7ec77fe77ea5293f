import RedisCore.ZiplistInsert

namespace RedisCore.Ziplist
open List (append_assoc length_append length_drop)
set_option linter.style.nameCheck false

def deleteEntries (es1 es2 : List Entry) : List Entry :=
  es1 ++ follow (decide (zipBigPrevlen ≤ rawAfter 0 es1)) es2

theorem texts_deleteEntries (es1 es2 : List Entry) :
    texts (deleteEntries es1 es2) = texts es1 ++ texts es2 := by
  have h := texts_follow (decide (zipBigPrevlen ≤ rawAfter 0 es1)) es2
  simp only [texts, deleteEntries, List.map_append] at h ⊢
  rw [h]

theorem tailOffset_add_rawAfter (es : List Entry) :
    tailOffset es+rawAfter 0 es = 10+entriesLen es := by
  rcases List.eq_nil_or_concat es with rfl | ⟨fs, d, rfl⟩
  · rfl
  · rw [List.concat_eq_append, rawAfter_append_cons]
    simp [tailOffset, rawAfter, ziplistHeaderSize]
    omega

theorem skipEntries_at (zl : Bytes) (num : ℕ) : ∀ (a : Bytes) (prev : ℕ) (es : List Entry),
    EntriesOk prev es → entriesLen es < 2^32 →
    zl = a ++ (encodeEntries prev es ++ [zipEnd]) →
    skipEntries zl num a.length =
      .ok (a.length+entriesLen (es.take num), (es.take num).length) := by
  induction num with
  | zero => intros; rfl
  | succ num ih =>
    intro a prev es hok hlt hzl
    cases es with
    | nil =>
      rw [skipEntries, loadByte_at (x := zipEnd) (a := a) (c := []) hzl rfl]
      rfl
    | cons e es =>
      rw [entriesLen_cons] at hlt
      have hm : zl = a ++ (encodeEntry prev e ++ (encodeEntries e.rawlen es ++ [zipEnd])) := by
        rw [hzl, encodeEntries, append_assoc]
      obtain ⟨b, hb, hne, -⟩ := loadByte_entry hok.1.narrow hm rfl
      have hrec := ih (a ++ encodeEntry prev e) e.rawlen es hok.2 (by omega)
        (by rw [hm, append_assoc])
      rw [length_append, encodeEntry_length] at hrec
      rw [skipEntries, hb, ok_bind, if_neg hne,
        zipRawEntryLength_entry hok.1 (by omega) hm rfl, ok_bind, hrec]
      simp [Nat.add_assoc]

section DeleteBefore

variable {es1 ds es : List Entry} {d e : Entry}

theorem delete_room (hok : EntriesOk 0 (es1 ++ (d :: ds ++ e :: es))) :
    prevSize (decide (zipBigPrevlen ≤ rawAfter 0 es1)) ≤
      entriesLen (d :: ds)+prevSize e.wide := by
  have hd := ((entriesOk_append 0 es1 _).mp hok).2.1
  by_cases hbig : zipBigPrevlen ≤ rawAfter 0 es1
  · have hw : d.wide = true := by
      by_contra h
      have := hd.narrow (by simpa using h)
      omega
    simp only [entriesLen_cons, Entry.rawlen, hw, decide_eq_true hbig]
    omega
  · have h1 := prevSize_pos e.wide
    have h2 : prevSize false = 1 := rfl
    rw [decide_eq_false hbig]
    omega

theorem deleteBefore_blob (cnt : ℕ) (hok : EntriesOk 0 (es1 ++ (d :: ds ++ e :: es)))
    (hsize : blobLen (es1 ++ (d :: ds ++ e :: es)) < 2^32) (first : ZlEntry)
    (hprev : first.prevrawlen = rawAfter 0 es1) (hp : first.p = 10+entriesLen es1) :
    ∃ (y : UInt8) (junk : Bytes), (junk.length : ℤ) = entriesLen (d :: ds)-
        ((prevSize (decide (zipBigPrevlen ≤ rawAfter 0 es1)) : ℤ)-prevSize e.wide) ∧
      deleteBefore (blob (es1 ++ (d :: ds ++ e :: es)) cnt) first
        (10+entriesLen es1+entriesLen (d :: ds)) (entriesLen (d :: ds)) =
      .ok (header (blobLen (es1 ++ (d :: ds ++ e :: es))) (10+entriesLen es1+entriesLen
          (rewidth (decide (zipBigPrevlen ≤ rawAfter 0 es1)) e :: es).dropLast) cnt ++
        (encodeEntries 0 es1 ++ (encodeEntry (rawAfter 0 es1)
          (rewidth (decide (zipBigPrevlen ≤ rawAfter 0 es1)) e) ++ (encodeEntries e.rawlen es ++
            (y :: junk)))),
        (prevSize (decide (zipBigPrevlen ≤ rawAfter 0 es1)) : ℤ)-prevSize e.wide) := by
  have hroom := delete_room hok
  obtain ⟨-, hok2⟩ := (entriesOk_append 0 es1 (d :: ds ++ e :: es)).mp hok
  have hoke := ((entriesOk_append (rawAfter 0 es1) (d :: ds) (e :: es)).mp hok2).2
  set prev := rawAfter 0 es1 with hprevdef
  set w := decide (zipBigPrevlen ≤ prev) with hw
  set total := blobLen (es1 ++ (d :: ds ++ e :: es)) with htotal
  set tail := tailOffset (es1 ++ (d :: ds ++ e :: es)) with htaildef
  have hprevlt : prev < 2^32 := rawAfter_lt hsize
  have hraw : e.rawlen = prevSize e.wide+e.body.length := rfl
  have hraw' := rewidth_rawlen w e
  have hw5 := prevSize_le w
  have hsum : total = 10+entriesLen es1+entriesLen (d :: ds)+(e.rawlen+entriesLen es)+1 := by
    simp [htotal, blobLen, ziplistHeaderSize, ziplistEndSize]; omega
  have htail : tail = 10+entriesLen es1+entriesLen (d :: ds)+entriesLen (e :: es).dropLast := by
    rw [htaildef, tailOffset, List.dropLast_append_of_ne_nil (by simp),
      List.dropLast_append_of_ne_nil (by simp)]
    simp only [entriesLen_append, ziplistHeaderSize]
    omega
  have hdle := entriesLen_dropLast_le (e :: es)
  rw [entriesLen_cons] at hdle
  let x := rawAfter prev (d :: ds)
  -- the deleted bytes and the old field, cut where the new field begins
  let old := encodeEntries prev (d :: ds) ++ encodePrev e.wide x
  have hold : old.length = entriesLen (d :: ds)+prevSize e.wide := by simp [old]
  let k := old.length-prevSize w
  have hk : (old.take k).length = k := by rw [List.length_take]; omega
  have hdrop : (old.drop k).length = prevSize w := by rw [length_drop]; omega
  let keep := e.body ++ encodeEntries e.rawlen es
  have hkeep : keep.length = e.body.length+entriesLen es := by simp [keep]
  have hblob : blob (es1 ++ (d :: ds ++ e :: es)) cnt =
      header total tail cnt ++ (encodeEntries 0 es1 ++ (old ++ (keep ++ [zipEnd]))) := by
    rw [blob_split, encodeEntries_append, ← htotal, ← htaildef, ← hprevdef]
    simp [old, keep, encodeEntries, encodeEntry, x]
  have hcut : blob (es1 ++ (d :: ds ++ e :: es)) cnt =
      (header total tail cnt ++ (encodeEntries 0 es1 ++ old.take k)) ++
        (old.drop k ++ (keep ++ [zipEnd])) := by
    calc
      _ = header total tail cnt ++ (encodeEntries 0 es1 ++
          ((old.take k ++ old.drop k) ++ (keep ++ [zipEnd]))) := by
        rw [List.take_append_drop, hblob]
      _ = _ := by simp only [append_assoc]
  have hentry : blob (es1 ++ (d :: ds ++ e :: es)) cnt =
      (header total tail cnt ++ (encodeEntries 0 es1 ++ encodeEntries prev (d :: ds))) ++
        (encodeEntry x e ++ (encodeEntries e.rawlen es ++ [zipEnd])) := by
    rw [hblob]
    simp [old, keep, encodeEntry]
  have hdiff : zipPrevLenByteDiff (blob (es1 ++ (d :: ds ++ e :: es)) cnt)
      (10+entriesLen es1+entriesLen (d :: ds)) prev = .ok ((prevSize w : ℤ)-prevSize e.wide) := by
    rw [zipPrevLenByteDiff, zipDecodePrevlensize_entry hoke.1.narrow hentry
      (by simp [ziplistHeaderSize, Nat.add_assoc]), ok_bind,
      zipStorePrevEntryLength_length, except_pure]
  have hp' : (((10+entriesLen es1+entriesLen (d :: ds) : ℕ) : ℤ)-
      ((prevSize w : ℤ)-prevSize e.wide)).toNat = 10+(encodeEntries 0 es1 ++ old.take k).length := by
    rw [length_append, hk, encodeEntries_length]
    omega
  have hstore : storeBytes (blob (es1 ++ (d :: ds ++ e :: es)) cnt)
      (10+(encodeEntries 0 es1 ++ old.take k).length) (zipStorePrevEntryLength prev) =
      .ok (seam total tail cnt (encodeEntries 0 es1 ++ old.take k) prev (rewidth w e) e.rawlen
        es) := by
    rw [storeBytes_at hcut (by simp [ziplistHeaderSize])
      (by rw [hdrop, zipStorePrevEntryLength_length]), zipStorePrevEntryLength_eq]
    simp [seam, keep, encodeEntry, rewidth, hw]
  let tail' := 10+entriesLen es1+entriesLen (rewidth w e :: es).dropLast
  have hfit : w = false → prev < zipBigPrevlen := by
    intro h
    simpa [hw] using h
  have hoff : shiftTailOffset (seam total tail cnt (encodeEntries 0 es1 ++ old.take k) prev
      (rewidth w e) e.rawlen es) (10+(encodeEntries 0 es1 ++ old.take k).length)
      (-(entriesLen (d :: ds) : ℤ)) ((prevSize w : ℤ)-prevSize e.wide) =
      .ok (seam total tail' cnt (encodeEntries 0 es1 ++ old.take k) prev (rewidth w e) e.rawlen
        es) := by
    have hdl := entriesLen_dropLast_le (rewidth w e :: es)
    rw [entriesLen_cons] at hdl
    refine shiftTailOffset_seam total cnt _ rfl ⟨hfit, hoke.1.body⟩ hprevlt hoke.2 (by omega)
      (by omega) (fun h => ?_) (fun h => ?_)
    · subst h
      simp only [List.dropLast_singleton, entriesLen_nil, tail'] at htail ⊢
      omega
    · simp only [tail']
      rw [htail, dropLast_cons_ne e h, dropLast_cons_ne _ h]
      push_cast
      omega
  -- the move to the front
  let moved := encodeEntry prev (rewidth w e) ++ encodeEntries e.rawlen es
  have hmoved : moved.length = (rewidth w e).rawlen+entriesLen es := by simp [moved]
  have hsrc : seam total tail' cnt (encodeEntries 0 es1 ++ old.take k) prev (rewidth w e) e.rawlen
      es = (header total tail' cnt ++ (encodeEntries 0 es1 ++ old.take k)) ++
        (moved ++ [zipEnd]) := by
    simp [seam, moved]
  let rest := old.take k ++ (moved ++ [zipEnd])
  have hrest : rest.length = k+moved.length+1 := by
    simp only [rest, length_append, hk, List.length_singleton]
    omega
  have hdst : seam total tail' cnt (encodeEntries 0 es1 ++ old.take k) prev (rewidth w e) e.rawlen
      es = (header total tail' cnt ++ encodeEntries 0 es1) ++
        (rest.take moved.length ++ rest.drop moved.length) := by
    rw [List.take_append_drop, hsrc]
    simp [rest]
  have hnonempty : rest.drop moved.length ≠ [] := by
    intro h
    have := congrArg List.length h
    rw [length_drop, List.length_nil] at this
    omega
  obtain ⟨y, junk, hjunk⟩ := List.exists_cons_of_ne_nil hnonempty
  have hlen : junk.length = k := by
    have := congrArg List.length hjunk
    rw [length_drop, List.length_cons] at this
    omega
  refine ⟨y, junk, by omega, ?_⟩
  have hbytes : ziplistBytes (seam total tail' cnt (encodeEntries 0 es1 ++ old.take k) prev
      (rewidth w e) e.rawlen es) = .ok total := ziplistBytes_header hsize
  rw [deleteBefore, hprev, hdiff, ok_bind, hp']
  dsimp only
  rw [hstore, ok_bind, hoff, ok_bind, hbytes, ok_bind, hp,
    moveBytes_at hsrc (by simp [ziplistHeaderSize]) (by
      rw [hmoved, length_append, hk, encodeEntries_length]
      omega) hdst (by simp [ziplistHeaderSize]) (by rw [List.length_take]; omega), hjunk]
  simp [moved, tail']

def deleteFinish (zl : Bytes) (p totlen deleted : ℕ) (nextdiff : ℤ) : Except Fault Bytes := do
  let bytes ← ziplistBytes zl
  let zl ← ziplistResize zl ((bytes : ℤ)-totlen+nextdiff).toNat
  let zl ← ziplistIncrLength zl (-deleted)
  if nextdiff ≠ 0 then __ziplistCascadeUpdate zl p else return zl

theorem deleteFinish_mid {cnt : ℕ} (hok : EntriesOk 0 (es1 ++ (d :: ds ++ e :: es)))
    (hsize : blobLen (es1 ++ (d :: ds ++ e :: es)) < 2^32)
    (hcnt : CountOk (es1 ++ (d :: ds ++ e :: es)).length cnt) (w : Bool)
    (hw : w = decide (zipBigPrevlen ≤ rawAfter 0 es1)) (y : UInt8) (junk : Bytes)
    (hjunk : (junk.length : ℤ) = entriesLen (d :: ds)-((prevSize w : ℤ)-prevSize e.wide)) :
    (blobLen (deleteEntries es1 (e :: es)) < 2^32 → ∃ cnt',
      CountOk (deleteEntries es1 (e :: es)).length cnt' ∧
      deleteFinish (header (blobLen (es1 ++ (d :: ds ++ e :: es))) (10+entriesLen es1+entriesLen
          (rewidth w e :: es).dropLast) cnt ++ (encodeEntries 0 es1 ++
            (encodeEntry (rawAfter 0 es1) (rewidth w e) ++ (encodeEntries e.rawlen es ++
              (y :: junk))))) (10+entriesLen es1) (entriesLen (d :: ds)) (d :: ds).length
          ((prevSize w : ℤ)-prevSize e.wide) =
        .ok (blob (deleteEntries es1 (e :: es)) cnt')) ∧
    (¬blobLen (deleteEntries es1 (e :: es)) < 2^32 →
      deleteFinish (header (blobLen (es1 ++ (d :: ds ++ e :: es))) (10+entriesLen es1+entriesLen
          (rewidth w e :: es).dropLast) cnt ++ (encodeEntries 0 es1 ++
            (encodeEntry (rawAfter 0 es1) (rewidth w e) ++ (encodeEntries e.rawlen es ++
              (y :: junk))))) (10+entriesLen es1) (entriesLen (d :: ds)) (d :: ds).length
          ((prevSize w : ℤ)-prevSize e.wide) = .error .sizeWrap) := by
  obtain ⟨-, hok2⟩ := (entriesOk_append 0 es1 (d :: ds ++ e :: es)).mp hok
  have hoke := ((entriesOk_append (rawAfter 0 es1) (d :: ds) (e :: es)).mp hok2).2
  have hraw : e.rawlen = prevSize e.wide+e.body.length := rfl
  have hraw' := rewidth_rawlen w e
  have hle := entriesLen_le_cascade (rewidth w e).rawlen es
  have hsum : blobLen (es1 ++ (d :: ds ++ e :: es)) =
      10+entriesLen es1+entriesLen (d :: ds)+(e.rawlen+entriesLen es)+1 := by
    simp [blobLen, ziplistHeaderSize, ziplistEndSize]; omega
  have hnew : blobLen (deleteEntries es1 (e :: es)) = 10+entriesLen es1+
      entriesLen (rewidth w e :: cascade (rewidth w e).rawlen es)+1 := by
    simp [deleteEntries, follow, blobLen, ziplistHeaderSize, ziplistEndSize, ← hw]; omega
  have hnewtail : tailOffset (deleteEntries es1 (e :: es)) = 10+entriesLen es1+
      entriesLen (rewidth w e :: cascade (rewidth w e).rawlen es).dropLast := by
    rw [deleteEntries, tailOffset, follow, List.dropLast_append_of_ne_nil (by simp),
      entriesLen_append, ← hw, ziplistHeaderSize, Nat.add_assoc]
  have hcount : (deleteEntries es1 (e :: es)).length = es1.length+(es.length+1) := by
    simp [deleteEntries, follow, cascade_length]
  let total' := 10+entriesLen es1+entriesLen (rewidth w e :: es)+1
  let tail' := 10+entriesLen es1+entriesLen (rewidth w e :: es).dropLast
  let pre := encodeEntries 0 es1
  have hres : ziplistResize (header (blobLen (es1 ++ (d :: ds ++ e :: es))) tail' cnt ++ (pre ++
      (encodeEntry (rawAfter 0 es1) (rewidth w e) ++ (encodeEntries e.rawlen es ++
        (y :: junk))))) (((blobLen (es1 ++ (d :: ds ++ e :: es)) : ℕ) : ℤ)-
          (entriesLen (d :: ds) : ℕ)+((prevSize w : ℤ)-prevSize e.wide)).toNat =
      .ok (seam total' tail' cnt pre (rawAfter 0 es1) (rewidth w e) e.rawlen es) := by
    have hz : pre ++ (encodeEntry (rawAfter 0 es1) (rewidth w e) ++ (encodeEntries e.rawlen es ++
        (y :: junk))) = (pre ++ (encodeEntry (rawAfter 0 es1) (rewidth w e) ++
          encodeEntries e.rawlen es)) ++ y :: junk := by simp
    have hn : (((blobLen (es1 ++ (d :: ds ++ e :: es)) : ℕ) : ℤ)-(entriesLen (d :: ds) : ℕ)+
        ((prevSize w : ℤ)-prevSize e.wide)).toNat = total' := by
      simp only [total', entriesLen_cons] at *; omega
    rw [hz, hn, ziplistResize_shrink (by simp [pre, total']; omega)
      (by simp only [total', entriesLen_cons] at *; omega)]
    simp [seam, pre]
  obtain ⟨cnt', hcnt', hincr⟩ := ziplistIncrLength_header total' tail'
    (pre ++ (encodeEntry (rawAfter 0 es1) (rewidth w e) ++ (encodeEntries e.rawlen es ++ [zipEnd])))
    (-((d :: ds).length : ℤ)) hcnt (m := (deleteEntries es1 (e :: es)).length)
    (by rw [hcount]; simp; omega) (by rw [hcount]; simp; omega)
  have hbytes : ziplistBytes (header (blobLen (es1 ++ (d :: ds ++ e :: es))) tail' cnt ++ (pre ++
      (encodeEntry (rawAfter 0 es1) (rewidth w e) ++ (encodeEntries e.rawlen es ++
        (y :: junk))))) = .ok (blobLen (es1 ++ (d :: ds ++ e :: es))) := ziplistBytes_header hsize
  have hincr' : ziplistIncrLength (seam total' tail' cnt pre (rawAfter 0 es1) (rewidth w e)
      e.rawlen es) (-((d :: ds).length : ℤ)) =
      .ok (seam total' tail' cnt' pre (rawAfter 0 es1) (rewidth w e) e.rawlen es) := hincr
  rw [deleteFinish, hbytes, ok_bind, hres, ok_bind, hincr', ok_bind]
  by_cases hz : (prevSize w : ℤ)-prevSize e.wide = 0
  · have hwe : w = e.wide := by
      rw [sub_eq_zero] at hz
      revert hz
      cases w <;> cases e.wide <;> decide
    have hrw : rewidth w e = e := by rw [hwe]; rfl
    have hcas : cascade e.rawlen es = es := cascade_of_entriesOk hoke.2 le_rfl
    rw [hrw, hcas] at hnew hnewtail
    rw [if_neg (by simpa using hz)]
    refine ⟨fun _ => ⟨cnt', hcnt', ?_⟩, fun h => absurd ?_ h⟩
    · simp only [total', tail', pre]
      rw [hrw, ← hnew, ← hnewtail, blob, deleteEntries, follow, ← hw, hrw, hcas,
        encodeEntries_append]
      simp [seam, encodeEntries]
    · rw [hnew]
      simp only [entriesLen_cons] at *
      omega
  · have hfit : w = false → rawAfter 0 es1 < zipBigPrevlen := by
      intro h
      simpa [hw] using h
    have hplen : 10+pre.length = 10+entriesLen es1 := by simp [pre]
    have hcasc : __ziplistCascadeUpdate (seam total' tail' cnt' pre (rawAfter 0 es1) (rewidth w e)
        e.rawlen es) (10+pre.length) = _ := __ziplistCascadeUpdate_seam cnt' pre ⟨hfit, hoke.1.body⟩ (rawAfter_lt hsize) hoke.2
      (by simp only [entriesLen_cons] at *; omega)
      (by simp only [total', entriesLen_cons] at *; omega) (by simp [total', pre])
      (by simp [tail', pre])
    rw [hplen] at hcasc
    rw [if_pos hz, hcasc]
    constructor
    · intro h
      refine ⟨cnt', hcnt', ?_⟩
      rw [← hnew, ← hnewtail, if_pos h, blob, deleteEntries, follow, ← hw, encodeEntries_append]
      simp [seam, encodeEntries, pre]
    · intro h
      rw [if_neg (by rw [← hnew]; exact h)]

end DeleteBefore

theorem deleteFinish_end {es1 ds : List Entry} {d : Entry} {cnt : ℕ} (tail : ℕ)
    (hsize : blobLen (es1 ++ d :: ds) < 2^32) (hcnt : CountOk (es1 ++ d :: ds).length cnt) :
    ∃ cnt', CountOk es1.length cnt' ∧
      deleteFinish (header (blobLen (es1 ++ d :: ds)) tail cnt ++ (encodeEntries 0 es1 ++
          (encodeEntries (rawAfter 0 es1) (d :: ds) ++ [zipEnd]))) (10+entriesLen es1)
          (entriesLen (d :: ds)) (d :: ds).length 0 =
        .ok (header (blobLen es1) tail cnt' ++ (encodeEntries 0 es1 ++ [zipEnd])) := by
  have hne : encodeEntries (rawAfter 0 es1) (d :: ds) ++ [zipEnd] ≠ [] := by simp
  obtain ⟨y, junk, hjunk⟩ := List.exists_cons_of_ne_nil hne
  have hlen : ((blobLen (es1 ++ d :: ds) : ℤ)-(entriesLen (d :: ds) : ℕ)+0).toNat = blobLen es1 := by
    simp [blobLen]; omega
  obtain ⟨cnt', hcnt', hincr⟩ := ziplistIncrLength_header (blobLen es1) tail
    (encodeEntries 0 es1 ++ [zipEnd]) (-((d :: ds).length : ℤ)) hcnt (m := es1.length)
    (by simp; omega) (by simp; omega)
  refine ⟨cnt', hcnt', ?_⟩
  rw [deleteFinish, ziplistBytes_header hsize, ok_bind, hlen, hjunk,
    ziplistResize_shrink (by simp [blobLen, ziplistHeaderSize, ziplistEndSize])
      (by simp [blobLen] at *; omega), ok_bind, hincr]
  rfl

theorem __ziplistDelete_blob {es1 rest : List Entry} {d : Entry} {cnt : ℕ} (num : ℕ)
    (hok : EntriesOk 0 (es1 ++ d :: rest)) (hsize : blobLen (es1 ++ d :: rest) < 2^32)
    (hcnt : CountOk (es1 ++ d :: rest).length cnt) :
    (blobLen (deleteEntries es1 (rest.drop num)) < 2^32 → ∃ cnt',
      CountOk (deleteEntries es1 (rest.drop num)).length cnt' ∧
      __ziplistDelete (blob (es1 ++ d :: rest) cnt) (10+entriesLen es1) (num+1) =
        .ok (blob (deleteEntries es1 (rest.drop num)) cnt')) ∧
    (¬blobLen (deleteEntries es1 (rest.drop num)) < 2^32 →
      __ziplistDelete (blob (es1 ++ d :: rest) cnt) (10+entriesLen es1) (num+1) =
        .error .sizeWrap) := by
  obtain ⟨hok1, hok2⟩ := (entriesOk_append 0 es1 (d :: rest)).mp hok
  have hm : blob (es1 ++ d :: rest) cnt =
      (header (blobLen (es1 ++ d :: rest)) (tailOffset (es1 ++ d :: rest)) cnt ++
        encodeEntries 0 es1) ++ (encodeEntries (rawAfter 0 es1) (d :: rest) ++ [zipEnd]) := by
    simp [blob_split]
  have hmd : blob (es1 ++ d :: rest) cnt =
      (header (blobLen (es1 ++ d :: rest)) (tailOffset (es1 ++ d :: rest)) cnt ++
        encodeEntries 0 es1) ++ (encodeEntry (rawAfter 0 es1) d ++
          (encodeEntries d.rawlen rest ++ [zipEnd])) := by
    simp [blob_split, encodeEntries]
  have hp : (header (blobLen (es1 ++ d :: rest)) (tailOffset (es1 ++ d :: rest)) cnt ++
      encodeEntries 0 es1).length = 10+entriesLen es1 := by simp [ziplistHeaderSize]
  have hsum : blobLen (es1 ++ d :: rest) = 10+entriesLen es1+entriesLen (d :: rest)+1 := by
    simp [blobLen, ziplistHeaderSize, ziplistEndSize]; omega
  obtain ⟨first, hfirst, -, hprev, -, hfp⟩ := zipEntry_entry hok2.1 (rawAfter_lt hsize) hmd hp.symm
  have hskip := skipEntries_at _ (num+1) _ _ (d :: rest) hok2 (by omega) hm
  rw [hp, List.take_succ_cons] at hskip
  -- the deleted entries and those behind them
  have hsplit : d :: rest = (d :: rest.take num) ++ rest.drop num := by simp
  have hdlen : 0 < entriesLen (d :: rest.take num) := by
    have := prevSize_pos d.wide
    simp only [entriesLen_cons, Entry.rawlen]; omega
  have hdle : entriesLen (d :: rest) =
      entriesLen (d :: rest.take num)+entriesLen (rest.drop num) := by
    conv_lhs => rw [hsplit]
    exact entriesLen_append _ _
  have htot : u32 (10+entriesLen es1+entriesLen (d :: rest.take num)-first.p) =
      entriesLen (d :: rest.take num) := by
    rw [hfp, Nat.add_sub_cancel_left]
    exact Nat.mod_eq_of_lt (by omega)
  have hbody : __ziplistDelete (blob (es1 ++ d :: rest) cnt) (10+entriesLen es1) (num+1) = (do
      let b ← loadByte (blob (es1 ++ d :: rest) cnt)
        (10+entriesLen es1+entriesLen (d :: rest.take num))
      let (zl, nextdiff) ← (if b ≠ zipEnd then deleteBefore (blob (es1 ++ d :: rest) cnt) first
          (10+entriesLen es1+entriesLen (d :: rest.take num)) (entriesLen (d :: rest.take num))
        else deleteTail (blob (es1 ++ d :: rest) cnt) first)
      deleteFinish zl first.p (entriesLen (d :: rest.take num)) (d :: rest.take num).length
        nextdiff) := by
    rw [__ziplistDelete, hfirst, ok_bind, hskip, ok_bind]
    dsimp only
    rw [htot, if_pos hdlen]
    rfl
  cases hrest : rest.drop num with
  | nil =>
    have htake : rest.take num = rest := by
      have := List.take_append_drop num rest
      rw [hrest, List.append_nil] at this
      exact this
    rw [htake] at hbody hdlen
    have hend : loadByte (blob (es1 ++ d :: rest) cnt)
        (10+entriesLen es1+entriesLen (d :: rest)) = .ok zipEnd := by
      refine loadByte_at (c := []) (a := (header (blobLen (es1 ++ d :: rest))
        (tailOffset (es1 ++ d :: rest)) cnt ++ encodeEntries 0 es1) ++
          encodeEntries (rawAfter 0 es1) (d :: rest)) (by rw [hm]; simp only [append_assoc]) ?_
      rw [length_append, hp, encodeEntries_length]
    have htail := tailOffset_add_rawAfter es1
    have hdt : deleteTail (blob (es1 ++ d :: rest) cnt) first =
        .ok (header (blobLen (es1 ++ d :: rest)) (tailOffset es1) cnt ++ (encodeEntries 0 es1 ++
          (encodeEntries (rawAfter 0 es1) (d :: rest) ++ [zipEnd])), 0) := by
      rw [deleteTail, hm, append_assoc, setZiplistTailOffset_header _ (tailOffset es1)
        (by rw [hfp, hprev]; omega) (by omega)]
      rfl
    obtain ⟨cnt', hcnt', hfin⟩ := deleteFinish_end (tailOffset es1) hsize hcnt
    have hdel : deleteEntries es1 [] = es1 := by simp [deleteEntries, follow]
    rw [hdel]
    refine ⟨fun _ => ⟨cnt', hcnt', ?_⟩, fun h => absurd ?_ h⟩
    · rw [hbody, hend, ok_bind, if_neg (by simp), hdt, ok_bind]
      dsimp only
      rw [hfp, hfin]
      rfl
    · simp only [blobLen, ziplistHeaderSize, ziplistEndSize] at *; omega
  | cons e es =>
    rw [hrest] at hsplit
    have hes : es1 ++ d :: rest = es1 ++ (d :: rest.take num ++ e :: es) := by rw [← hsplit]
    have hx := (entriesOk_append (rawAfter 0 es1) (d :: rest.take num) (e :: es)).mp
      (by rw [← hsplit]; exact hok2)
    have hme : blob (es1 ++ d :: rest) cnt =
        ((header (blobLen (es1 ++ d :: rest)) (tailOffset (es1 ++ d :: rest)) cnt ++
          encodeEntries 0 es1) ++ encodeEntries (rawAfter 0 es1) (d :: rest.take num)) ++
          (encodeEntry (rawAfter (rawAfter 0 es1) (d :: rest.take num)) e ++
            (encodeEntries e.rawlen es ++ [zipEnd])) := by
      rw [hm]
      conv_lhs => rw [hsplit, encodeEntries_append]
      simp [encodeEntries, ← hsplit]
    obtain ⟨b, hb, hne, -⟩ := loadByte_entry
      (p := 10+entriesLen es1+entriesLen (d :: rest.take num)) hx.2.1.narrow hme
      (by rw [length_append, hp, encodeEntries_length])
    rw [hb, ok_bind, if_pos hne] at hbody
    rw [hbody]
    rw [hes] at hok hsize hcnt ⊢
    obtain ⟨y, junk, hjunk, hdel⟩ := deleteBefore_blob cnt hok hsize first hprev hfp
    have hfin := deleteFinish_mid hok hsize hcnt _ rfl y junk hjunk
    rw [hdel, ok_bind, hfp]
    exact hfin

end RedisCore.Ziplist
