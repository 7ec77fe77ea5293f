import RedisCore.ZiplistSizes

namespace RedisCore.Ziplist
open List (replicate)

section Seam

variable {zl : Bytes} {es1 es : List Entry} {e : Entry} {x : ℕ}

/-- A ziplist that is well formed but for one field: behind the entry `e` the next one holds `x`
as the length of the entry before it. -/
structure Seamed (zl : Bytes) (es1 : List Entry) (e : Entry) (x : ℕ) (es : List Entry) : Prop where
  front : EntriesOk 0 (es1 ++ [e])
  behind : EntriesOk x es
  stored : x < 2^32
  size : blobLen (es1 ++ e :: es) < 2^32
  layout : ∃ cnt, CountOk (es1 ++ e :: es).length cnt ∧
    zl = header (blobLen (es1 ++ e :: es)) (tailOffset (es1 ++ e :: es)) cnt ++
      (encodeEntries 0 (es1 ++ [e]) ++ (encodeEntries x es ++ [zipEnd]))

def Widens (old new : Entry) : Prop :=
  new.body = old.body ∧ (new.wide = old.wide ∨ old.wide = false ∧ new.wide = true)

def entryBytes (zl : Bytes) (n : ℕ) : Bytes := (zl.drop ziplistHeaderSize).take n

/-- The block returned is a well-formed ziplist of the same payloads. -/
def SeamRepaired (zl : Bytes) (es1 : List Entry) (e : Entry) (es : List Entry) : Prop :=
  ∃ zl' es', __ziplistCascadeUpdate zl (ziplistHeaderSize+entriesLen es1) = .ok zl' ∧
    Parses zl' (es1 ++ e :: es') ∧ texts es' = texts es ∧ List.Forall₂ Widens es es' ∧
    entryBytes zl' (entriesLen (es1 ++ [e])) = entryBytes zl (entriesLen (es1 ++ [e])) ∧
    ziplistTailOffset zl' = .ok (ziplistHeaderSize+entriesLen (es1 ++ e :: es').dropLast)

theorem cascade_widens (raw : ℕ) (es : List Entry) : List.Forall₂ Widens es (cascade raw es) := by
  have hsame (e : Entry) : Widens e e := ⟨rfl, Or.inl rfl⟩
  induction es generalizing raw with
  | nil => exact .nil
  | cons e es ih =>
    rw [cascade]
    split_ifs with h
    · have hw : Widens e (widen e) := ⟨rfl, Or.inr ⟨h.1, rfl⟩⟩
      exact .cons hw (ih _)
    · exact .cons (hsame e) (List.forall₂_same.2 fun e _ => hsame e)

theorem blobLen_cascade (es1 : List Entry) (e : Entry) (es : List Entry) :
    blobLen (es1 ++ e :: cascade e.rawlen es) =
      blobLen (es1 ++ e :: es)+4*seamWidenings e.rawlen es := by
  simp only [blobLen, entriesLen_append, entriesLen_cons, entriesLen_cascade]
  omega

theorem entryBytes_front (total tail cnt : ℕ) (es1 : List Entry) (e : Entry) (rest : Bytes) :
    entryBytes (header total tail cnt ++ (encodeEntries 0 (es1 ++ [e]) ++ rest))
      (entriesLen (es1 ++ [e])) = encodeEntries 0 (es1 ++ [e]) := by
  rw [entryBytes, List.drop_left' (header_length total tail cnt)]
  exact List.take_left' (encodeEntries_length 0 (es1 ++ [e]))

theorem seam_front (total tail cnt : ℕ) (es1 : List Entry) (e : Entry) (x : ℕ) (es : List Entry) :
    header total tail cnt ++ (encodeEntries 0 (es1 ++ [e]) ++ (encodeEntries x es ++ [zipEnd])) =
      seam total tail cnt (encodeEntries 0 es1) (rawAfter 0 es1) e x es := by
  simp only [seam, encodeEntries_append, encodeEntries, List.append_nil, List.append_assoc]

theorem seam_blob (cnt : ℕ) (es1 : List Entry) (e : Entry) (es : List Entry) :
    header (blobLen (es1 ++ e :: es)) (tailOffset (es1 ++ e :: es)) cnt ++
      (encodeEntries 0 (es1 ++ [e]) ++ (encodeEntries e.rawlen es ++ [zipEnd])) =
      blob (es1 ++ e :: es) cnt := by
  simp only [blob, encodeEntries_append, encodeEntries, List.append_nil, List.append_assoc]

theorem cascade_seamed (h : Seamed zl es1 e x es) :
    ∃ cnt, CountOk (es1 ++ e :: es).length cnt ∧
      __ziplistCascadeUpdate zl (ziplistHeaderSize+entriesLen es1) =
        if blobLen (es1 ++ e :: cascade e.rawlen es) < 2^32 then
          .ok (blob (es1 ++ e :: cascade e.rawlen es) cnt)
        else .error .sizeWrap := by
  obtain ⟨cnt, hcnt, hzl⟩ := h.layout
  have hok : EntryOk (rawAfter 0 es1) e := ((entriesOk_append 0 es1 [e]).1 h.front).2.1
  have hprev : rawAfter 0 es1 < 2^32 := rawAfter_lt h.size
  have hpre : (encodeEntries 0 es1).length = entriesLen es1 := encodeEntries_length 0 es1
  have htotal (fs : List Entry) : blobLen (es1 ++ e :: fs) =
      10+(encodeEntries 0 es1).length+entriesLen (e :: fs)+1 := by
    rw [blobLen, entriesLen_append, hpre, ziplistHeaderSize, ziplistEndSize]
    omega
  have htail (fs : List Entry) : tailOffset (es1 ++ e :: fs) =
      10+(encodeEntries 0 es1).length+entriesLen (e :: fs).dropLast := by
    rw [tailOffset, hpre, List.dropLast_append_of_ne_nil (by simp), entriesLen_append,
      ziplistHeaderSize]
    omega
  have hrun := __ziplistCascadeUpdate_seam cnt (encodeEntries 0 es1) hok hprev h.behind h.stored
    h.size (htotal es) (htail es)
  rw [← seam_front, ← seam_front, ← htotal, ← htail, ← hzl, seam_blob, hpre] at hrun
  exact ⟨cnt, hcnt, hrun⟩

/-- A ziplist with one stale field is repaired exactly when the widened fields leave it with fewer
than 2^32 bytes. -/
theorem seam_repaired_iff (h : Seamed zl es1 e x es) :
    SeamRepaired zl es1 e es ↔ blobLen (es1 ++ e :: es)+4*seamWidenings e.rawlen es < 2^32 := by
  obtain ⟨cnt, hcnt, hrun⟩ := cascade_seamed h
  rw [blobLen_cascade] at hrun
  constructor
  · rintro ⟨zl', es', hupdate, -⟩
    by_contra hfit
    rw [if_neg hfit, hupdate] at hrun
    cases hrun
  · intro hfit
    rw [if_pos hfit] at hrun
    have hsize : blobLen (es1 ++ e :: cascade e.rawlen es) < 2^32 := by
      rw [blobLen_cascade]
      exact hfit
    have hlen : (es1 ++ e :: cascade e.rawlen es).length = (es1 ++ e :: es).length := by
      simp only [List.length_append, List.length_cons, cascade_length]
    -- every field behind `e` holds the length of the entry before it
    have hentries : EntriesOk 0 (es1 ++ e :: cascade e.rawlen es) := by
      have hfront := (entriesOk_append 0 es1 [e]).1 h.front
      exact (entriesOk_append 0 es1 _).2 ⟨hfront.1, hfront.2.1, cascade_entriesOk h.behind⟩
    have hparses : Parses (blob (es1 ++ e :: cascade e.rawlen es) cnt)
        (es1 ++ e :: cascade e.rawlen es) := ⟨hentries, hsize, cnt, by rw [hlen]; exact hcnt, rfl⟩
    have hbytes : entryBytes (blob (es1 ++ e :: cascade e.rawlen es) cnt)
        (entriesLen (es1 ++ [e])) = entryBytes zl (entriesLen (es1 ++ [e])) := by
      obtain ⟨cnt', -, hzl⟩ := h.layout
      rw [← seam_blob, entryBytes_front, hzl, entryBytes_front]
    exact ⟨_, _, hrun, hparses, cascade_texts _ es, cascade_widens _ es, hbytes,
      ziplistTailOffset_header (tailOffset_lt hsize)⟩

end Seam

def textEntry (s : Bytes) : Entry := ⟨false, zipStoreEntryEncoding 0 s.length ++ s⟩

theorem textEntry_body {s : Bytes} (hs : s.length < 2^32) : BodyOk (textEntry s).body := by
  obtain ⟨encoding, -, hd⟩ := zipDecodeLength_str s.length hs s
  exact ⟨encoding, _, _, hd, by simp [textEntry]⟩

theorem textEntry_rawlen {n : ℕ} (b : UInt8) : (textEntry (replicate n b)).rawlen =
    1+((zipStoreEntryEncoding 0 n).length+n) := by
  simp [textEntry, Entry.rawlen, prevSize]

def staleBlock (n : ℕ) : Bytes :=
  let es := [textEntry (replicate 300 97), textEntry (replicate n 98)]
  header (blobLen es) (tailOffset es) 2 ++
    (encodeEntries 0 [textEntry (replicate 300 97)] ++
      (encodeEntries 7 [textEntry (replicate n 98)] ++ [zipEnd]))

theorem staleBlock_seamed {n : ℕ} (hn : n < 2^32)
    (hsize : blobLen [textEntry (replicate 300 97), textEntry (replicate n 98)] < 2^32) :
    Seamed (staleBlock n) [] (textEntry (replicate 300 97)) 7
      [textEntry (replicate n 98)] := by
  have hfirst : BodyOk (textEntry (replicate 300 97)).body :=
    textEntry_body (by rw [List.length_replicate]; norm_num)
  have hsecond : BodyOk (textEntry (replicate n 98)).body :=
    textEntry_body (by rw [List.length_replicate]; exact hn)
  exact ⟨⟨⟨fun _ => by decide, hfirst⟩, trivial⟩, ⟨⟨fun _ => by decide, hsecond⟩, trivial⟩,
    by norm_num, hsize, 2, Or.inl ⟨rfl, by norm_num [uint16Max]⟩, rfl⟩

theorem staleBlock_widenings (n : ℕ) :
    (textEntry (replicate 300 97)).rawlen = 303 ∧
      seamWidenings 303 [textEntry (replicate n 98)] = 1 := by
  have hlen : (textEntry (replicate 300 97)).rawlen = 303 := by
    rw [textEntry_rawlen]
    rfl
  exact ⟨hlen, by rw [seamWidenings, if_pos ⟨rfl, by decide⟩]; rfl⟩

theorem seam_repaired_iff_sample : SeamRepaired (staleBlock 2) []
    (textEntry (replicate 300 97)) [textEntry (replicate 2 98)] := by
  have hwid := staleBlock_widenings 2
  have hlen : blobLen [textEntry (replicate 300 97), textEntry (replicate 2 98)] = 318 := by
    rw [blobLen, entriesLen_cons, hwid.1, entriesLen_cons, textEntry_rawlen]
    rfl
  have hseamed := staleBlock_seamed (n := 2) (by norm_num) (by rw [hlen]; norm_num)
  apply (seam_repaired_iff hseamed).2
  rw [List.nil_append, hlen, hwid.1, hwid.2]
  norm_num

/-- One byte below the limit there is no room for the wider field. -/
theorem seam_not_repaired : ∃ zl es1 e x es, Seamed zl es1 e x es ∧ ¬SeamRepaired zl es1 e es := by
  have hwid := staleBlock_widenings (2^32-321)
  have hstr : zipIsStr 0 = true := by decide
  have hraw : (textEntry (replicate (2^32-321) 98)).rawlen = 2^32-315 := by
    rw [textEntry_rawlen, zipStoreEntryEncoding, if_pos hstr, if_neg (by norm_num),
      if_neg (by norm_num), List.length_cons, beBytes_length]
    norm_num
  have hlen : blobLen [textEntry (replicate 300 97),
      textEntry (replicate (2^32-321) 98)] = 2^32-1 := by
    rw [blobLen, entriesLen_cons, hwid.1, entriesLen_cons, hraw, entriesLen_nil]
    norm_num [ziplistHeaderSize, ziplistEndSize]
  have hseamed := staleBlock_seamed (n := 2^32-321) (by norm_num) (by rw [hlen]; norm_num)
  refine ⟨_, _, _, _, _, hseamed, ?_⟩
  rintro ⟨zl', es', hupdate, -⟩
  obtain ⟨cnt, -, hrun⟩ := cascade_seamed hseamed
  rw [blobLen_cascade, List.nil_append, hlen, hwid.1, hwid.2, if_neg (by norm_num), hupdate] at hrun
  cases hrun

end RedisCore.Ziplist
