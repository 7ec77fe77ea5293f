import RedisCore.ZiplistMerge

namespace RedisCore.Ziplist
open List (length_replicate replicate)

def dataLen (s : Bytes) : ℕ :=
  match insertDataLen s with
  | .ok len => len
  | .error _ => 0

/-- The bytes of the new entry behind `es`: its `prevlen` field holds the length of the last of
them. -/
def requiredLen (es : List Entry) (s : Bytes) : ℕ :=
  prevSize (decide (zipBigPrevlen ≤ rawAfter 0 es))+dataLen s

def nextGrowth (raw : ℕ) : List Entry → ℤ
  | [] => 0
  | e :: _ => prevSize (nextWide raw e.wide)-prevSize e.wide

def widenedBehind (raw : ℕ) : List Entry → ℕ
  | [] => 0
  | e :: es => seamWidenings (rewidth (nextWide raw e.wide) e).rawlen es

def exactBytes (es1 es2 : List Entry) (s : Bytes) : ℤ :=
  blobLen (es1 ++ es2)+requiredLen es1 s+nextGrowth (requiredLen es1 s) es2+
    4*widenedBehind (requiredLen es1 s) es2

/-- No size wraps: the insertion leaves a well-formed block whose `zlbytes` field is the number of
bytes of header, entries and end marker. -/
def SizesExact (zl : Bytes) (p : ℕ) (s : Bytes) : Prop :=
  ∃ zl' es, __ziplistInsert zl p s = .ok zl' ∧ Parses zl' es ∧
    ziplistBytes zl' = .ok (ziplistHeaderSize+entriesLen es+ziplistEndSize) ∧
    zl'.length = ziplistHeaderSize+entriesLen es+ziplistEndSize

theorem entriesLen_follow (raw : ℕ) (es : List Entry) :
    (entriesLen (follow (nextWideOf raw es) es) : ℤ) =
      entriesLen es+nextGrowth raw es+4*widenedBehind raw es := by
  cases es with
  | nil => rfl
  | cons e es =>
    have hlen : (rewidth (nextWide raw e.wide) e).rawlen =
        prevSize (nextWide raw e.wide)+e.body.length := rewidth_rawlen _ e
    simp only [nextWideOf, follow, nextGrowth, widenedBehind, entriesLen_cons, entriesLen_cascade]
    rw [hlen, Entry.rawlen]
    push_cast
    ring

theorem blobLen_insertEntries (es1 es2 : List Entry) {s head data : Bytes}
    (hlen : insertDataLen s = .ok (head.length+data.length)) :
    (blobLen (insertEntries es1 es2 (head ++ data)) : ℤ) = exactBytes es1 es2 s := by
  have hdata : dataLen s = head.length+data.length := by rw [dataLen, hlen]
  have hraw : (newEntry es1 (head ++ data)).rawlen = requiredLen es1 s := by
    rw [requiredLen, hdata, Entry.rawlen, newEntry, List.length_append]
  have hfollow := entriesLen_follow (requiredLen es1 s) es2
  simp only [insertEntries, exactBytes, blobLen, entriesLen_append, entriesLen_cons, hraw]
  push_cast
  rw [hfollow]
  ring

theorem sizesExact_of_fits {zl s : Bytes} {es1 es2 : List Entry} (h : Parses zl (es1 ++ es2))
    (hs : s.length < 2^32) :
    (exactBytes es1 es2 s < 2^32 → SizesExact zl (10+entriesLen es1) s) ∧
    (¬exactBytes es1 es2 s < 2^32 →
      __ziplistInsert zl (10+entriesLen es1) s = .error .sizeWrap) := by
  obtain ⟨cnt, hcnt, rfl⟩ := h.layout
  obtain ⟨head, data, hpay, hlen, hbody, -⟩ := insertPayload_spec s hs
  obtain ⟨hfit, hover⟩ := __ziplistInsert_blob h.entries h.size hcnt hpay hlen
  have hexact := blobLen_insertEntries es1 es2 hlen
  constructor
  · intro hlt
    have hlt : blobLen (insertEntries es1 es2 (head ++ data)) < 2^32 := by omega
    obtain ⟨cnt', hcnt', hins⟩ := hfit hlt
    exact ⟨_, _, hins, ⟨insertEntries_ok h.entries hbody, hlt, cnt', hcnt', rfl⟩,
      ziplistBytes_header hlt, blob_length _ _⟩
  · intro hge
    exact hover (by omega)

/-- The sizes are right exactly when the new list has fewer than 2^32 bytes. -/
theorem insert_sizes_iff {zl s : Bytes} {es1 es2 : List Entry} (h : Parses zl (es1 ++ es2))
    (hs : s.length < 2^32) :
    SizesExact zl (10+entriesLen es1) s ↔
      blobLen (es1 ++ es2)+requiredLen es1 s+nextGrowth (requiredLen es1 s) es2+
        4*widenedBehind (requiredLen es1 s) es2 < 2^32 := by
  obtain ⟨hfit, hover⟩ := sizesExact_of_fits h hs
  constructor
  · rintro ⟨zl', es, hins, -⟩
    by_contra hge
    rw [hover hge] at hins
    cases hins
  · exact hfit

theorem insert_sizes_iff_sample :
    SizesExact (blob [⟨false, [1, 104]⟩] 1) 10 (replicate 300 104) := by
  have hbody : BodyOk [1, 104] := ⟨zipStr06B, 1, 1, rfl, rfl⟩
  have hp : Parses (blob [⟨false, [1, 104]⟩] 1) ([] ++ [⟨false, [1, 104]⟩]) :=
    ⟨⟨⟨by decide, hbody⟩, trivial⟩, by decide, 1, Or.inl ⟨rfl, by decide⟩, rfl⟩
  have hreq : requiredLen [] (replicate 300 104) = 303 := by
    have hnone : zipTryEncoding (replicate 300 104) = none := by
      rw [zipTryEncoding, length_replicate, if_pos (Or.inl (by norm_num))]
    rw [requiredLen, dataLen, insertDataLen, hnone, length_replicate]
    rfl
  have hlen : (replicate 300 (104 : UInt8)).length < 2^32 := by
    rw [length_replicate]
    norm_num
  exact (insert_sizes_iff hp hlen).2 (by rw [hreq]; decide)

/-- A string of 2^32-1 bytes: the request for 2^32+16 bytes becomes one for 16. -/
theorem insert_size_wraps :
    ¬SizesExact ziplistNew 10 (replicate (2^32-1) 0) := by
  have hlen : (replicate (2^32-1) (0 : UInt8)).length = 2^32-1 := length_replicate
  have hnone : zipTryEncoding (replicate (2^32-1) 0) = none := by
    rw [zipTryEncoding, if_pos (Or.inl (by omega))]
  have hstr : zipIsStr 0 = true := by decide
  have hreq : requiredLen [] (replicate (2^32-1) 0) = 2^32+5 := by
    rw [requiredLen, dataLen, insertDataLen, hnone, hlen, zipStoreEntryEncoding, if_pos hstr,
      if_neg (by norm_num), if_neg (by norm_num)]
    rfl
  have hnew : Parses ziplistNew ([] ++ []) := ziplistNew_parses
  have hover := (sizesExact_of_fits hnew
    (by rw [hlen]; norm_num)).2 (by
      rw [exactBytes, hreq]
      decide)
  rintro ⟨zl', es, hins, -⟩
  have hins' : __ziplistInsert ziplistNew (10+entriesLen []) (replicate (2^32-1) 0) =
      .ok zl' := hins
  rw [hover] at hins'
  cases hins'

end RedisCore.Ziplist
