import RedisCore.ZiplistCursor

namespace RedisCore.Ziplist
set_option linter.style.nameCheck false

def copyBytes (target source : Bytes) (dst src n : ℕ) : Except Fault Bytes := do
  let bs ← loadBytes source src n
  storeBytes target dst bs

def mergeContents (target source : Bytes) (target_bytes source_bytes zlbytes : ℕ) (append : Bool) :
    Except Fault Bytes := do
  let target := reallocBytes target zlbytes
  if append then
    copyBytes target source (target_bytes-ziplistEndSize) ziplistHeaderSize
      (source_bytes-ziplistHeaderSize)
  else
    let target ← moveBytes target (source_bytes-ziplistEndSize) ziplistHeaderSize
      (target_bytes-ziplistHeaderSize)
    copyBytes target source 0 0 (source_bytes-ziplistEndSize)

/-- `ziplistMerge`; `same` says that both parameters point to one ziplist. -/
def ziplistMerge (first second : Option Bytes) (same : Bool) : Except Fault (Option (Bytes × Bool)) :=
  match first, second with
  | some first, some second =>
    if same then .ok none
    else do
      let first_bytes ← ziplistBytes first
      let first_len ← ziplistLength first
      let second_bytes ← ziplistBytes second
      let second_len ← ziplistLength second
      let append : Bool := first_len ≥ second_len
      let zlbytes := first_bytes+second_bytes-ziplistHeaderSize-ziplistEndSize
      let zllength := if first_len+second_len < uint16Max then first_len+second_len else uint16Max
      let first_offset ← ziplistTailOffset first
      let second_offset ← ziplistTailOffset second
      let target ← (if append then
          mergeContents first second first_bytes second_bytes zlbytes true
        else mergeContents second first second_bytes first_bytes zlbytes false)
      let target ← (if zlbytes < 2^32 then setZiplistBytes target zlbytes else .error .sizeWrap)
      let target ← setZiplistLength target zllength
      let target ← setZiplistTailOffset target
        ((first_bytes : ℤ)-ziplistEndSize+(second_offset-ziplistHeaderSize))
      let target ← __ziplistCascadeUpdate target first_offset
      .ok (some (target, append))
  | _, _ => .ok none

section Contents

variable {h1 h2 a b : Bytes}

theorem mergeContents_append (hlen1 : h1.length = 10) (hlen2 : h2.length = 10) :
    mergeContents (h1 ++ (a ++ [zipEnd])) (h2 ++ (b ++ [zipEnd])) (10+a.length+1) (10+b.length+1)
      (10+(a.length+b.length)+1) true = .ok (h1 ++ (a ++ (b ++ [zipEnd]))) := by
  have hsource : loadBytes (h2 ++ (b ++ [zipEnd])) 10 (10+b.length+1-10) =
      .ok (b ++ [zipEnd]) := by
    apply loadBytes_at (a := h2) (c := [])
    · simp
    · exact hlen2.symm
    · simp
      omega
  have hgrown : reallocBytes (h1 ++ (a ++ [zipEnd])) (10+(a.length+b.length)+1) =
      (h1 ++ a) ++ ((zipEnd :: List.replicate b.length 0) ++ []) := by
    rw [reallocBytes_grow (by simp [hlen1]; omega)]
    have hroom : 10+(a.length+b.length)+1-(h1 ++ (a ++ [zipEnd])).length = b.length := by
      simp [hlen1]
      omega
    rw [hroom]
    simp
  rw [mergeContents, if_pos rfl, copyBytes, ziplistHeaderSize, ziplistEndSize, hsource,
    ok_bind, hgrown, storeBytes_at rfl (by simp [hlen1]) (by simp)]
  simp

theorem mergeContents_prepend (hlen1 : h1.length = 10) (hlen2 : h2.length = 10) :
    mergeContents (h2 ++ (b ++ [zipEnd])) (h1 ++ (a ++ [zipEnd])) (10+b.length+1) (10+a.length+1)
      (10+(a.length+b.length)+1) false = .ok (h1 ++ (a ++ (b ++ [zipEnd]))) := by
  have hsource : loadBytes (h1 ++ (a ++ [zipEnd])) 0 (10+a.length+1-1) = .ok (h1 ++ a) := by
    apply loadBytes_at (a := []) (c := [zipEnd])
    · simp
    · rfl
    · simp [hlen1]
  -- the old contents of the target, cut where the moved ones will start
  obtain ⟨old, hold⟩ : ∃ old, old = (b ++ [zipEnd]) ++ List.replicate a.length 0 := ⟨_, rfl⟩
  have hlen : old.length = a.length+(b.length+1) := by
    rw [hold]
    simp
    omega
  have hgrown : reallocBytes (h2 ++ (b ++ [zipEnd])) (10+(a.length+b.length)+1) = h2 ++ old := by
    rw [reallocBytes_grow (by simp [hlen2]; omega)]
    have hroom : 10+(a.length+b.length)+1-(h2 ++ (b ++ [zipEnd])).length = a.length := by
      simp [hlen2]
      omega
    rw [hroom, hold]
    simp
  have hmove : moveBytes (h2 ++ old) (10+a.length+1-1) 10 (10+b.length+1-10) =
      .ok ((h2 ++ old.take a.length) ++ ((b ++ [zipEnd]) ++ [])) := by
    apply moveBytes_at (a := h2) (c := List.replicate a.length 0) (y := old.drop a.length)
    · rw [hold]
    · exact hlen2.symm
    · simp
      omega
    · simp
    · simp [hlen, hlen2]
    · simp [hlen]
  have hstore : storeBytes ((h2 ++ old.take a.length) ++ ((b ++ [zipEnd]) ++ [])) 0 (h1 ++ a) =
      .ok ([] ++ ((h1 ++ a) ++ ((b ++ [zipEnd]) ++ []))) := by
    apply storeBytes_at (x := h2 ++ old.take a.length)
    · simp
    · rfl
    · simp [hlen, hlen1, hlen2]
  rw [mergeContents, if_neg Bool.false_ne_true, ziplistHeaderSize, ziplistEndSize, hgrown, hmove,
    ok_bind, copyBytes, hsource, ok_bind, hstore]
  simp

end Contents

def mergeEntries (es1 es2 : List Entry) : List Entry := es1 ++ cascade (rawAfter 0 es1) es2

theorem texts_mergeEntries (es1 es2 : List Entry) :
    texts (mergeEntries es1 es2) = texts es1 ++ texts es2 := by
  rw [mergeEntries, texts, List.map_append, ← texts, ← texts, cascade_texts]

theorem mergeEntries_ok {es1 es2 : List Entry} (h1 : EntriesOk 0 es1) (h2 : EntriesOk 0 es2) :
    EntriesOk 0 (mergeEntries es1 es2) :=
  (entriesOk_append 0 es1 _).mpr ⟨h1, cascade_entriesOk h2⟩

def mergeCount (cnt1 cnt2 : ℕ) : ℕ := if cnt1+cnt2 < uint16Max then cnt1+cnt2 else uint16Max

theorem countOk_merge {n1 n2 cnt1 cnt2 : ℕ} (h1 : CountOk n1 cnt1) (h2 : CountOk n2 cnt2) :
    CountOk (n1+n2) (mergeCount cnt1 cnt2) := by
  rw [mergeCount]
  rcases h1 with ⟨rfl, h1⟩ | rfl
  · rcases h2 with ⟨rfl, h2⟩ | rfl
    · split
      next hlt => exact Or.inl ⟨rfl, hlt⟩
      · exact Or.inr rfl
    · exact Or.inr (if_neg (by omega))
  · exact Or.inr (if_neg (by omega))

theorem countOk_lt {n cnt : ℕ} (h : CountOk n cnt) : cnt < 2^16 := by
  rcases h with ⟨rfl, h⟩ | rfl
  · simp only [uint16Max] at h
    omega
  · decide

variable {es1 es2 : List Entry} {cnt1 cnt2 : ℕ}

def joined (es1 es2 : List Entry) (cnt : ℕ) : Bytes :=
  header (10+(entriesLen es1+entriesLen es2)+1)
    (10+(entriesLen es1+entriesLen es2.dropLast)) cnt ++
    (encodeEntries 0 es1 ++ (encodeEntries 0 es2 ++ [zipEnd]))

theorem ziplistMerge_copied (hc1 : CountOk es1.length cnt1) (hc2 : CountOk es2.length cnt2)
    (hsize1 : blobLen es1 < 2^32) (hsize2 : blobLen es2 < 2^32) :
    ziplistMerge (some (blob es1 cnt1)) (some (blob es2 cnt2)) false =
      (do
        let target ← (if 10+(entriesLen es1+entriesLen es2)+1 < 2^32 then
            setZiplistBytes (header (blobLen es1) (tailOffset es1) cnt1 ++
              (encodeEntries 0 es1 ++ (encodeEntries 0 es2 ++ [zipEnd])))
              ((10+(entriesLen es1+entriesLen es2)+1 : ℕ) : ℤ)
          else .error .sizeWrap)
        let target ← setZiplistLength target (mergeCount cnt1 cnt2)
        let target ← setZiplistTailOffset target
          ((blobLen es1 : ℤ)-ziplistEndSize+(tailOffset es2-ziplistHeaderSize))
        let target ← __ziplistCascadeUpdate target (tailOffset es1)
        .ok (some (target, decide (cnt1 ≥ cnt2)))) := by
  have hlt1 := countOk_lt hc1
  have hlt2 := countOk_lt hc2
  have hdrop1 := entriesLen_dropLast_le es1
  have hdrop2 := entriesLen_dropLast_le es2
  have hb1 : blobLen es1 = 10+entriesLen es1+1 := rfl
  have hb2 : blobLen es2 = 10+entriesLen es2+1 := rfl
  have ht1 : tailOffset es1 = 10+entriesLen es1.dropLast := rfl
  have ht2 : tailOffset es2 = 10+entriesLen es2.dropLast := rfl
  have hbytes : blobLen es1+blobLen es2-ziplistHeaderSize-ziplistEndSize =
      10+(entriesLen es1+entriesLen es2)+1 := by
    rw [hb1, hb2, ziplistHeaderSize, ziplistEndSize]
    omega
  have hcontents : (if decide (cnt1 ≥ cnt2) then
      mergeContents (blob es1 cnt1) (blob es2 cnt2) (blobLen es1) (blobLen es2)
        (10+(entriesLen es1+entriesLen es2)+1) true
      else mergeContents (blob es2 cnt2) (blob es1 cnt1) (blobLen es2) (blobLen es1)
        (10+(entriesLen es1+entriesLen es2)+1) false) =
      .ok (header (blobLen es1) (tailOffset es1) cnt1 ++
        (encodeEntries 0 es1 ++ (encodeEntries 0 es2 ++ [zipEnd]))) := by
    have hlen1 := header_length (blobLen es1) (tailOffset es1) cnt1
    have hlen2 := header_length (blobLen es2) (tailOffset es2) cnt2
    have happend := mergeContents_append (a := encodeEntries 0 es1) (b := encodeEntries 0 es2)
      hlen1 hlen2
    have hprepend := mergeContents_prepend (a := encodeEntries 0 es1) (b := encodeEntries 0 es2)
      hlen1 hlen2
    rw [encodeEntries_length, encodeEntries_length] at happend hprepend
    split
    · exact happend
    · exact hprepend
  have hread1 := (@ziplistBytes_header (blobLen es1) (tailOffset es1) cnt1
    (encodeEntries 0 es1 ++ [zipEnd])) hsize1
  have hread2 := (@ziplistBytes_header (blobLen es2) (tailOffset es2) cnt2
    (encodeEntries 0 es2 ++ [zipEnd])) hsize2
  have hoffset1 := (@ziplistTailOffset_header (blobLen es1) (tailOffset es1) cnt1
    (encodeEntries 0 es1 ++ [zipEnd])) (by omega)
  have hoffset2 := (@ziplistTailOffset_header (blobLen es2) (tailOffset es2) cnt2
    (encodeEntries 0 es2 ++ [zipEnd])) (by omega)
  have hlength1 := (@ziplistLength_header (blobLen es1) (tailOffset es1) _
    (encodeEntries 0 es1 ++ [zipEnd])) hlt1
  have hlength2 := (@ziplistLength_header (blobLen es2) (tailOffset es2) _
    (encodeEntries 0 es2 ++ [zipEnd])) hlt2
  rw [← blob] at hread1 hread2 hoffset1 hoffset2 hlength1 hlength2
  rw [ziplistMerge, if_neg Bool.false_ne_true]
  dsimp only
  rw [hread1, ok_bind, hlength1, ok_bind, hread2, ok_bind, hlength2,
    ok_bind, hoffset1, ok_bind, hoffset2, ok_bind, hbytes, hcontents,
    ok_bind, ← mergeCount]

theorem ziplistMerge_joined (hc1 : CountOk es1.length cnt1) (hc2 : CountOk es2.length cnt2)
    (hsize : 10+(entriesLen es1+entriesLen es2)+1 < 2^32) :
    ziplistMerge (some (blob es1 cnt1)) (some (blob es2 cnt2)) false =
      (do
        let target ← __ziplistCascadeUpdate (joined es1 es2 (mergeCount cnt1 cnt2)) (tailOffset es1)
        .ok (some (target, decide (cnt1 ≥ cnt2)))) := by
  have hb1 : blobLen es1 = 10+entriesLen es1+1 := rfl
  have hb2 : blobLen es2 = 10+entriesLen es2+1 := rfl
  have hdrop2 := entriesLen_dropLast_le es2
  have ht2 : tailOffset es2 = 10+entriesLen es2.dropLast := rfl
  have hcount : mergeCount cnt1 cnt2 < 2^16 := countOk_lt (countOk_merge hc1 hc2)
  have htail : (blobLen es1 : ℤ)-ziplistEndSize+(tailOffset es2-ziplistHeaderSize) =
      (10+(entriesLen es1+entriesLen es2.dropLast) : ℕ) := by
    rw [hb1, ht2, ziplistHeaderSize, ziplistEndSize]
    push_cast
    omega
  rw [ziplistMerge_copied hc1 hc2 (by omega) (by omega), if_pos hsize,
    setZiplistBytes_header _ hsize, ok_bind,
    setZiplistLength_header _ (mergeCount cnt1 cnt2) rfl hcount, ok_bind,
    setZiplistTailOffset_header _ _ htail (by omega), ok_bind]
  rfl

theorem cascade_joined (h1 : EntriesOk 0 es1) (h2 : EntriesOk 0 es2)
    (hsize : 10+(entriesLen es1+entriesLen es2)+1 < 2^32) (hjoin : es2 = [] → es1 = []) (cnt : ℕ) :
    __ziplistCascadeUpdate (joined es1 es2 cnt) (tailOffset es1) =
      if blobLen (mergeEntries es1 es2) < 2^32 then .ok (blob (mergeEntries es1 es2) cnt)
      else .error .sizeWrap := by
  rcases List.eq_nil_or_concat es1 with rfl | ⟨fs, d, hd⟩
  · -- nothing in front: the cascade stops at the second entry
    have hmerge : mergeEntries [] es2 = es2 := cascade_of_entriesOk h2 le_rfl
    have hblob : joined [] es2 cnt = blob es2 cnt := by
      rw [joined, blob, blobLen, tailOffset]
      simp [encodeEntries, ziplistHeaderSize, ziplistEndSize]
    simp only [entriesLen_nil, Nat.zero_add] at hsize
    have hfit : blobLen es2 < 2^32 := by
      rw [blobLen, ziplistHeaderSize, ziplistEndSize]
      exact hsize
    rw [hmerge, hblob, if_pos hfit]
    cases es2 with
    | nil =>
      have hbytes : ziplistBytes (blob [] cnt) = .ok 11 := ziplistBytes_header (by omega)
      have hend : loadByte (blob [] cnt) 10 = .ok zipEnd :=
        loadByte_at (a := header 11 10 cnt) (c := []) rfl (by simp [ziplistHeaderSize])
      have hfuel : (blob [] cnt).length = 10+1 := blob_length [] cnt
      have htail : tailOffset [] = 10 := rfl
      rw [__ziplistCascadeUpdate, hbytes, ok_bind, hfuel, cascadeLoop, htail, hend,
        ok_bind, if_pos rfl]
      rfl
    | cons e es =>
      have hx : e.rawlen < 2^32 := by
        rw [entriesLen_cons] at hsize
        omega
      have hseam := __ziplistCascadeUpdate_seam cnt [] h2.1 (by omega) h2.2 hx hsize
        (by simp) rfl
      rw [cascade_of_entriesOk h2.2 le_rfl, List.length_nil, if_pos hsize] at hseam
      have hrefl : seam (10+entriesLen (e :: es)+1) (tailOffset (e :: es)) cnt [] 0 e e.rawlen es =
          blob (e :: es) cnt := by
        simp [seam, blob, blobLen, encodeEntries, ziplistHeaderSize, ziplistEndSize]
      rw [← hrefl]
      exact hseam
  · rw [List.concat_eq_append] at hd
    subst hd
    have hne : es2 ≠ [] := by
      intro hnil
      have hempty := hjoin hnil
      simp at hempty
    obtain ⟨-, hokd, -⟩ := (entriesOk_append 0 fs [d]).mp h1
    have hprev := rawAfter_le fs 0
    have hraw : rawAfter 0 (fs ++ [d]) = d.rawlen := rawAfter_append_cons 0 fs [] d
    simp only [entriesLen_append, entriesLen_cons, entriesLen_nil, Nat.add_zero] at hsize
    have hseam := __ziplistCascadeUpdate_seam cnt (encodeEntries 0 fs) hokd (by omega) h2
      (Nat.two_pow_pos 32) hsize (by simp only [encodeEntries_length, entriesLen_cons]; omega)
      (show 10+(entriesLen fs+d.rawlen+entriesLen es2.dropLast) = _ by
        rw [dropLast_cons_ne d hne, encodeEntries_length]
        omega)
    have hjoined : joined (fs ++ [d]) es2 cnt = seam (10+(entriesLen fs+d.rawlen+entriesLen es2)+1)
        (10+(entriesLen fs+d.rawlen+entriesLen es2.dropLast)) cnt (encodeEntries 0 fs)
        (rawAfter 0 fs) d 0 es2 := by
      simp [joined, seam, encodeEntries_append, encodeEntries]
    have htail : tailOffset (fs ++ [d]) = 10+(encodeEntries 0 fs).length := by
      simp [tailOffset, ziplistHeaderSize]
    have hmerged : blobLen (mergeEntries (fs ++ [d]) es2) =
        10+(encodeEntries 0 fs).length+entriesLen (d :: cascade d.rawlen es2)+1 := by
      rw [mergeEntries, hraw, blobLen]
      simp [ziplistHeaderSize, ziplistEndSize, Nat.add_assoc]
    have hcas : cascade d.rawlen es2 ≠ [] := by
      intro hnil
      have hlen := cascade_length d.rawlen es2
      rw [hnil] at hlen
      exact hne (List.length_eq_zero_iff.mp hlen.symm)
    have hresult : seam (10+(encodeEntries 0 fs).length+entriesLen (d :: cascade d.rawlen es2)+1)
        (10+(encodeEntries 0 fs).length+entriesLen (d :: cascade d.rawlen es2).dropLast) cnt
        (encodeEntries 0 fs) (rawAfter 0 fs) d d.rawlen (cascade d.rawlen es2) =
        blob (mergeEntries (fs ++ [d]) es2) cnt := by
      have hoffset : tailOffset (mergeEntries (fs ++ [d]) es2) =
          10+(encodeEntries 0 fs).length+entriesLen (d :: cascade d.rawlen es2).dropLast := by
        rw [mergeEntries, hraw, tailOffset, List.dropLast_append_of_ne_nil hcas,
          dropLast_cons_ne d hcas]
        simp [ziplistHeaderSize, Nat.add_assoc]
      rw [blob, hmerged, hoffset, mergeEntries, hraw]
      simp [seam, encodeEntries_append, encodeEntries]
    rw [hjoined, htail, hseam, hmerged, hresult]

/-- The number of entries whose one byte `prevlen` field cannot hold what comes before them, when
the entry in front of the first one has the raw length `raw`. -/
def seamWidenings : ℕ → List Entry → ℕ
  | _, [] => 0
  | raw, e :: es =>
    if e.wide = false ∧ zipBigPrevlen ≤ raw then seamWidenings (e.rawlen+4) es+1 else 0

theorem entriesLen_cascade (raw : ℕ) (es : List Entry) :
    entriesLen (cascade raw es) = entriesLen es+4*seamWidenings raw es := by
  induction es generalizing raw with
  | nil => rfl
  | cons e es ih =>
    rw [cascade, seamWidenings]
    split
    next h =>
      rw [entriesLen_cons, ih, entriesLen_cons, widen_rawlen h.1]
      omega
    · rfl

theorem blobLen_mergeEntries (es1 es2 : List Entry) : blobLen (mergeEntries es1 es2) =
    blobLen es1+blobLen es2-11+4*seamWidenings (rawAfter 0 es1) es2 := by
  rw [blobLen, mergeEntries, entriesLen_append, entriesLen_cascade, blobLen, blobLen,
    ziplistHeaderSize, ziplistEndSize]
  omega

/-- The two lists become one well-formed list of all their entries in order, with the count of both
or 65535. -/
def MergesTo (zl1 zl2 : Bytes) (es1 es2 : List Entry) : Prop :=
  ∃ zl kept es len1 len2, ziplistMerge (some zl1) (some zl2) false = .ok (some (zl, kept)) ∧
    Parses zl es ∧ texts es = texts es1 ++ texts es2 ∧ ziplistLength zl1 = .ok len1 ∧
    ziplistLength zl2 = .ok len2 ∧ ziplistLength zl = .ok (min (len1+len2) uint16Max)

theorem min_eq_mergeCount (cnt1 cnt2 : ℕ) : min (cnt1+cnt2) uint16Max = mergeCount cnt1 cnt2 := by
  rw [mergeCount]
  split <;> omega

theorem ziplistLength_blob {es : List Entry} {n cnt : ℕ} (h : CountOk n cnt) :
    ziplistLength (blob es cnt) = .ok cnt :=
  ziplistLength_header (countOk_lt h)

theorem joined_empty_not_parses (hne : es1 ≠ []) (hsize : 10+entriesLen es1+1 < 2^32) (cnt : ℕ)
    (es : List Entry) : ¬Parses (joined es1 [] cnt) es := by
  intro hp
  obtain ⟨cnt', -, hlayout⟩ := hp.layout
  have hlen : 10+entriesLen es1+1 = blobLen es := by
    have h := congrArg List.length hlayout
    rw [blob_length] at h
    rw [← h]
    simp [joined, ziplistHeaderSize, encodeEntries, Nat.add_assoc]
  have htail : ziplistTailOffset (joined es1 [] cnt) = .ok (10+entriesLen es1) :=
    ziplistTailOffset_header (show 10+entriesLen es1 < 2^32 by omega)
  have htail' : ziplistTailOffset (blob es cnt') = .ok (tailOffset es) :=
    ziplistTailOffset_header (tailOffset_lt hp.size)
  rw [hlayout, htail'] at htail
  have hoffset : tailOffset es = 10+entriesLen es1 := Except.ok.inj htail
  rw [blobLen, ziplistHeaderSize, ziplistEndSize] at hlen
  rw [tailOffset, ziplistHeaderSize] at hoffset
  -- both lists are as long, so the second one is not empty and its last entry takes some bytes
  rcases List.eq_nil_or_concat es with rfl | ⟨fs, d, rfl⟩
  · obtain ⟨e, rest, rfl⟩ := List.exists_cons_of_ne_nil hne
    have hpos := prevSize_pos e.wide
    rw [entriesLen_cons, Entry.rawlen, entriesLen_nil] at hlen
    omega
  · have hpos := prevSize_pos d.wide
    simp only [List.concat_eq_append, List.dropLast_concat, entriesLen_append, entriesLen_cons,
      entriesLen_nil, Entry.rawlen] at hlen hoffset
    omega

theorem cascade_joined_empty (h1 : EntriesOk 0 es1) (hne : es1 ≠ [])
    (hsize : 10+entriesLen es1+1 < 2^32) (cnt : ℕ) :
    __ziplistCascadeUpdate (joined es1 [] cnt) (tailOffset es1) = .ok (joined es1 [] cnt) := by
  obtain ⟨fs, d, rfl⟩ := (List.eq_nil_or_concat es1).resolve_left hne
  rw [List.concat_eq_append] at h1 hsize ⊢
  obtain ⟨-, hokd, -⟩ := (entriesOk_append 0 fs [d]).mp h1
  have hprev := rawAfter_le fs 0
  simp only [entriesLen_append, entriesLen_cons, entriesLen_nil, Nat.add_zero] at hsize
  obtain ⟨a, ha⟩ : ∃ a, a = header (10+(entriesLen fs+d.rawlen)+1) (10+(entriesLen fs+d.rawlen)) cnt ++
      encodeEntries 0 fs := ⟨_, rfl⟩
  have hjoined : joined (fs ++ [d]) [] cnt =
      a ++ (encodeEntry (rawAfter 0 fs) d ++ [zipEnd]) := by
    rw [ha]
    simp [joined, encodeEntries_append, encodeEntries]
  have hp : tailOffset (fs ++ [d]) = a.length := by
    rw [ha]
    simp [tailOffset, ziplistHeaderSize]
  have hbytes : ziplistBytes (joined (fs ++ [d]) [] cnt) = .ok (10+(entriesLen fs+d.rawlen)+1) := by
    have h := @ziplistBytes_header (10+(entriesLen (fs ++ [d])+entriesLen [])+1)
      (10+(entriesLen (fs ++ [d])+entriesLen ([] : List Entry).dropLast)) cnt
      (encodeEntries 0 (fs ++ [d]) ++ (encodeEntries 0 [] ++ [zipEnd])) (by simpa using hsize)
    rw [← joined] at h
    simpa using h
  have hfuel : (joined (fs ++ [d]) [] cnt).length = (10+(entriesLen fs+d.rawlen))+1 := by
    simp [joined, ziplistHeaderSize, encodeEntries, Nat.add_assoc]
  obtain ⟨b, hb, hbne, -⟩ := loadByte_entry hokd.narrow hjoined hp
  obtain ⟨z, hz, -, -, hraw, -⟩ := zipEntry_entry hokd (by omega) hjoined hp
  have hu : u32 d.rawlen = d.rawlen := Nat.mod_eq_of_lt (by omega)
  have hend : loadByte (joined (fs ++ [d]) [] cnt) (tailOffset (fs ++ [d])+d.rawlen) = .ok zipEnd := by
    apply loadByte_at (a := a ++ encodeEntry (rawAfter 0 fs) d) (c := [])
    · rw [hjoined, List.append_assoc]
    · rw [List.length_append, encodeEntry_length, hp]
  rw [__ziplistCascadeUpdate, hbytes, ok_bind, hfuel, cascadeLoop, hb, ok_bind,
    if_neg hbne, hz, ok_bind]
  dsimp only
  rw [hraw, hu, hend, ok_bind, if_pos rfl]
  rfl

/-- A merge of two well-formed lists of fewer than 2^32 bytes together is right exactly if the
second one is not empty behind entries, and the `prevlen` fields that must grow at the seam still
fit. -/
theorem ziplistMerge_right_iff {zl1 zl2 : Bytes} (h1 : Parses zl1 es1) (h2 : Parses zl2 es2)
    (hsize : blobLen es1+blobLen es2-11 < 2^32) : MergesTo zl1 zl2 es1 es2 ↔
      (es2 = [] → es1 = []) ∧
        blobLen es1+blobLen es2-11+4*seamWidenings (rawAfter 0 es1) es2 < 2^32 := by
  obtain ⟨cnt1, hc1, rfl⟩ := h1.layout
  obtain ⟨cnt2, hc2, rfl⟩ := h2.layout
  have hsum : 10+(entriesLen es1+entriesLen es2)+1 < 2^32 := by
    rw [blobLen, blobLen, ziplistHeaderSize, ziplistEndSize] at hsize
    omega
  have hrun := ziplistMerge_joined hc1 hc2 hsum
  rw [← blobLen_mergeEntries]
  by_cases hjoin : es2 = [] → es1 = []
  · rw [cascade_joined h1.entries h2.entries hsum hjoin] at hrun
    by_cases hfit : blobLen (mergeEntries es1 es2) < 2^32
    · rw [if_pos hfit, ok_bind] at hrun
      refine iff_of_true ?_ ⟨hjoin, hfit⟩
      have hlen : (mergeEntries es1 es2).length = es1.length+es2.length := by
        rw [mergeEntries, List.length_append, cascade_length]
      have hcount : CountOk (mergeEntries es1 es2).length (mergeCount cnt1 cnt2) := by
        rw [hlen]
        exact countOk_merge hc1 hc2
      refine ⟨_, _, mergeEntries es1 es2, cnt1, cnt2, hrun,
        ⟨mergeEntries_ok h1.entries h2.entries, hfit, _, hcount, rfl⟩, texts_mergeEntries es1 es2,
        ziplistLength_blob hc1, ziplistLength_blob hc2, ?_⟩
      rw [ziplistLength_blob hcount, min_eq_mergeCount]
    · rw [if_neg hfit] at hrun
      apply iff_of_false _ (fun h => hfit h.2)
      rintro ⟨zl, kept, es, len1, len2, hmerge, -⟩
      rw [hrun] at hmerge
      cases hmerge
  · apply iff_of_false _ (fun h => hjoin h.1)
    rintro ⟨zl, kept, es, len1, len2, hmerge, hparse, -⟩
    push Not at hjoin
    obtain ⟨rfl, hne⟩ := hjoin
    have hsum' : 10+entriesLen es1+1 < 2^32 := by
      rw [entriesLen_nil, Nat.add_zero] at hsum
      exact hsum
    rw [cascade_joined_empty h1.entries hne hsum', ok_bind] at hrun
    rw [hrun] at hmerge
    cases hmerge
    exact joined_empty_not_parses hne hsum' _ es hparse

theorem ziplistMerge_parses {zl1 zl2 : Bytes} (h1 : Parses zl1 es1) (h2 : Parses zl2 es2)
    (hjoin : es2 = [] → es1 = []) :
    ReturnsOr .sizeWrap (ziplistMerge (some zl1) (some zl2) false) (fun r =>
      ∃ zl kept es, r = some (zl, kept) ∧ Parses zl es ∧ texts es = texts es1 ++ texts es2) := by
  obtain ⟨cnt1, hc1, rfl⟩ := h1.layout
  obtain ⟨cnt2, hc2, rfl⟩ := h2.layout
  by_cases hsum : 10+(entriesLen es1+entriesLen es2)+1 < 2^32
  · rw [ziplistMerge_joined hc1 hc2 hsum, cascade_joined h1.entries h2.entries hsum hjoin]
    by_cases hfit : blobLen (mergeEntries es1 es2) < 2^32
    · have hcount : CountOk (mergeEntries es1 es2).length (mergeCount cnt1 cnt2) := by
        rw [mergeEntries, List.length_append, cascade_length]
        exact countOk_merge hc1 hc2
      rw [if_pos hfit]
      exact ⟨_, _, _, rfl, ⟨mergeEntries_ok h1.entries h2.entries, hfit, _, hcount, rfl⟩,
        texts_mergeEntries es1 es2⟩
    · rw [if_neg hfit]
      exact (rfl : Fault.sizeWrap = Fault.sizeWrap)
  · rw [ziplistMerge_copied hc1 hc2 h1.size h2.size, if_neg hsum]
    exact (rfl : Fault.sizeWrap = Fault.sizeWrap)

def letterList : Bytes := [14, 0, 0, 0, 10, 0, 0, 0, 1, 0, 0, 1, 97, 255]

theorem letterList_parses : Parses letterList [⟨false, [1, 97]⟩] :=
  ⟨⟨⟨fun _ => by decide, 0, 1, 1, by decide, rfl⟩, trivial⟩, by decide, 1,
    Or.inl ⟨rfl, by decide⟩, by decide⟩

theorem ziplistMerge_right_iff_letters :
    MergesTo letterList letterList [⟨false, [1, 97]⟩] [⟨false, [1, 97]⟩] :=
  (ziplistMerge_right_iff letterList_parses letterList_parses (by decide)).mpr
    ⟨fun h => (by cases h), by decide⟩

/-- Behind the list of one entry an empty list puts the tail offset on the end marker, and
`ziplistIndex` does not find the last entry any more. -/
theorem ziplistMerge_empty_second :
    (∃ zl, ziplistMerge (some letterList) (some ziplistNew) false = .ok (some (zl, true)) ∧
      ziplistTailOffset zl = .ok 13 ∧ loadByte zl 13 = .ok zipEnd ∧
      ziplistIndex zl (-1) = .ok none) ∧
    ¬∀ zl1 zl2 es1 es2, Parses zl1 es1 → Parses zl2 es2 → blobLen es1+blobLen es2-11 < 2^32 →
      MergesTo zl1 zl2 es1 es2 := by
  have hrun : ziplistMerge (some letterList) (some ziplistNew) false =
      .ok (some ([14, 0, 0, 0, 13, 0, 0, 0, 1, 0, 0, 1, 97, 255], true)) := by decide
  refine ⟨⟨_, hrun, by decide, by decide, by decide⟩, ?_⟩
  intro hall
  obtain ⟨zl, kept, es, -, -, hmerge, hparse, -⟩ :=
    hall letterList ziplistNew _ [] letterList_parses ziplistNew_parses (by decide)
  rw [hrun] at hmerge
  cases hmerge
  exact (@joined_empty_not_parses [⟨false, [1, 97]⟩]) (by simp) (by decide) 1 es hparse

end RedisCore.Ziplist
