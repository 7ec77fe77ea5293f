import RedisCore.ZiplistSizes
import RedisCore.ZiplistCursor
import RedisCore.ZipmapUpdates

namespace RedisCore.Ziplist

variable {zl : Bytes} {es : List Entry}

def appendedLen (raw : ℕ) (s : Bytes) : ℕ := prevSize (decide (zipBigPrevlen ≤ raw))+dataLen s

def appendedLens : ℕ → List Bytes → ℕ
  | _, [] => 0
  | raw, s :: ss => appendedLen raw s+appendedLens (appendedLen raw s) ss

def pushAll (zl : Bytes) (ss : List Bytes) : Except Fault Bytes :=
  ss.foldlM (fun zl s => ziplistPush zl s .tail) zl

theorem pushTail_sizes (h : Parses zl es) {s : Bytes} (hs : s.length < 2^32) :
    (blobLen es+appendedLen (rawAfter 0 es) s < 2^32 → ∃ zl' e, ziplistPush zl s .tail = .ok zl' ∧
      Parses zl' (es ++ [e]) ∧ e.text = s ∧ e.rawlen = appendedLen (rawAfter 0 es) s) ∧
    (¬blobLen es+appendedLen (rawAfter 0 es) s < 2^32 →
      ziplistPush zl s .tail = .error .sizeWrap) := by
  rw [ziplistPush, ziplistEntryEnd_parses h, ok_bind, entryPos, List.take_length]
  obtain ⟨cnt, hcnt, rfl⟩ := h.layout
  obtain ⟨head, data, hpay, hlen, hbody, htext⟩ := insertPayload_spec s hs
  have hes := List.append_nil es
  obtain ⟨hfit, hover⟩ := __ziplistInsert_blob (hes.symm ▸ h.entries) (hes.symm ▸ h.size)
    (hes.symm ▸ hcnt) hpay hlen
  have hraw : (newEntry es (head ++ data)).rawlen = appendedLen (rawAfter 0 es) s := by
    rw [appendedLen, dataLen, hlen, Entry.rawlen, newEntry, List.length_append]
  have hnew : insertEntries es [] (head ++ data) = es ++ [newEntry es (head ++ data)] := rfl
  have hsize : blobLen (insertEntries es [] (head ++ data)) =
      blobLen es+appendedLen (rawAfter 0 es) s := by
    rw [hnew]
    simp only [blobLen, entriesLen_append, entriesLen_cons, entriesLen_nil, hraw]
    omega
  rw [hsize, List.append_nil] at hfit hover
  refine ⟨fun hlt => ?_, hover⟩
  obtain ⟨cnt', hcnt', hins⟩ := hfit hlt
  have hok : EntriesOk 0 (insertEntries es [] (head ++ data)) :=
    insertEntries_ok (hes.symm ▸ h.entries) hbody
  have hlt' : blobLen (insertEntries es [] (head ++ data)) < 2^32 := by rw [hsize]; exact hlt
  exact ⟨_, newEntry es (head ++ data), hins, ⟨hok, hlt', cnt', hcnt', rfl⟩, htext _, hraw⟩

theorem pushAll_sizes (ss : List Bytes) : ∀ {zl : Bytes} {es : List Entry}, Parses zl es →
    (∀ s ∈ ss, s.length < 2^32) →
    (blobLen es+appendedLens (rawAfter 0 es) ss < 2^32 → ∃ zl' es', pushAll zl ss = .ok zl' ∧
      Parses zl' es' ∧ texts es' = texts es ++ ss) ∧
    (¬blobLen es+appendedLens (rawAfter 0 es) ss < 2^32 → pushAll zl ss = .error .sizeWrap) := by
  induction ss with
  | nil =>
    intro zl es h hss
    have hsize : blobLen es+appendedLens (rawAfter 0 es) [] < 2^32 := h.size
    exact ⟨fun _ => ⟨zl, es, rfl, h, (List.append_nil _).symm⟩, fun hover => absurd hsize hover⟩
  | cons s ss ih =>
    intro zl es h hss
    obtain ⟨hfit, hover⟩ := pushTail_sizes h (hss s List.mem_cons_self)
    have hstep : pushAll zl (s :: ss) = (ziplistPush zl s .tail).bind (pushAll · ss) :=
      List.foldlM_cons
    rw [appendedLens, hstep]
    by_cases hlt : blobLen es+appendedLen (rawAfter 0 es) s < 2^32
    · obtain ⟨zl', e, hpush, hparses, htext, hraw⟩ := hfit hlt
      have hrest := ih hparses fun s hin => hss s (List.mem_cons_of_mem _ hin)
      have hlast : rawAfter 0 (es ++ [e]) = appendedLen (rawAfter 0 es) s :=
        (rawAfter_append_cons 0 es [] e).trans hraw
      have hlen : blobLen (es ++ [e]) = blobLen es+appendedLen (rawAfter 0 es) s := by
        simp only [blobLen, entriesLen_append, entriesLen_cons, entriesLen_nil, hraw]
        omega
      have htexts : texts (es ++ [e]) ++ ss = texts es ++ s :: ss := by
        rw [texts, List.map_append, List.map_singleton, htext, List.append_assoc]
        rfl
      rw [hlast, hlen, htexts, Nat.add_assoc] at hrest
      rw [hpush]
      exact hrest
    · rw [hover hlt]
      exact ⟨fun hall => absurd hall (by omega), fun _ => rfl⟩

end RedisCore.Ziplist

namespace RedisCore.Zipmap

structure HashLimits where
  hashMaxZiplistEntries : ℕ
  hashMaxZiplistValue : ℕ

inductive HashObject where
  | ziplist (zl : Bytes)
  | ht (dict : List (Bytes × Bytes))

def hashTypeCurrentObjectNewSds (zl : Bytes) (p : ℕ) : Except Fault Bytes := do
  match ← Ziplist.ziplistGet zl (some p) with
  | none => .error .aborted
  | some v => .ok v.text

def hashPairsFrom (zl : Bytes) : ℕ → Option ℕ → Except Fault (List (Bytes × Bytes))
  | _, none => .ok []
  | 0, some _ => .error .outOfFuel
  | fuel+1, some fptr => do
    match ← Ziplist.ziplistNext zl fptr with
    | none => .error .aborted
    | some vptr => do
      let key ← hashTypeCurrentObjectNewSds zl fptr
      let value ← hashTypeCurrentObjectNewSds zl vptr
      let next ← Ziplist.ziplistNext zl vptr
      let rest ← hashPairsFrom zl fuel next
      .ok ((key, value) :: rest)

def hashPairs : HashObject → Except Fault (List (Bytes × Bytes))
  | .ziplist zl => do
    let fptr ← Ziplist.ziplistIndex zl 0
    hashPairsFrom zl zl.length fptr
  | .ht dict => .ok dict

def dictAddNew (dict : List (Bytes × Bytes)) (pair : Bytes × Bytes) :
    Except Fault (List (Bytes × Bytes)) :=
  if pair.1 ∈ dict.map Prod.fst then .error .aborted else .ok (dict ++ [pair])

def hashTypeConvertZiplist (zl : Bytes) : Except Fault HashObject := do
  let pairs ← hashPairs (.ziplist zl)
  let dict ← pairs.foldlM dictAddNew []
  .ok (.ht dict)

def pushZipmap (zm : Bytes) : ℕ → ℕ → Bytes → ℕ → Except Fault (Bytes × ℕ)
  | 0, _, _, _ => .error .outOfFuel
  | fuel+1, zi, zl, maxlen => do
    match ← zipmapNext zm zi with
    | none => .ok (zl, maxlen)
    | some (zi, fstr, vstr) => do
      let maxlen := if maxlen < fstr.length then fstr.length else maxlen
      let maxlen := if maxlen < vstr.length then vstr.length else maxlen
      let zl ← Ziplist.ziplistPush zl fstr .tail
      let zl ← Ziplist.ziplistPush zl vstr .tail
      pushZipmap zm fuel zi zl maxlen

def loadHashZipmap (limits : HashLimits) (zm : Bytes) : Except Fault HashObject := do
  let (zl, maxlen) ← pushZipmap zm zm.length zipmapRewind Ziplist.ziplistNew 0
  let (ziplistLen, zl) ← Ziplist.ziplistLen zl
  if limits.hashMaxZiplistEntries < ziplistLen/2 ∨ limits.hashMaxZiplistValue < maxlen then
    hashTypeConvertZiplist zl
  else .ok (.ziplist zl)

def flatten (bs : List (Bytes × Bytes)) : List Bytes := bs.flatMap fun b => [b.1, b.2]

def ziplistSize (bs : List (Bytes × Bytes)) : ℕ :=
  Ziplist.ziplistHeaderSize+Ziplist.appendedLens 0 (flatten bs)+Ziplist.ziplistEndSize

theorem flatten_cons (b : Bytes × Bytes) (bs : List (Bytes × Bytes)) :
    flatten (b :: bs) = b.1 :: b.2 :: flatten bs := rfl

def longest (maxlen : ℕ) : List (Bytes × Bytes) → ℕ
  | [] => maxlen
  | (fstr, vstr) :: bs =>
    let maxlen := if maxlen < fstr.length then fstr.length else maxlen
    longest (if maxlen < vstr.length then vstr.length else maxlen) bs

theorem pushZipmap_at {m : Bytes} {es : List Entry} (hok : ∀ e ∈ es, EntryOk e) :
    ∀ {a : Bytes} {fuel : ℕ} (zl : Bytes) (maxlen : ℕ),
      m = a ++ (encodeEntries es ++ [zipmapEnd]) → es.length < fuel →
      pushZipmap m fuel a.length zl maxlen = (do
        let zl ← Ziplist.pushAll zl (flatten (bindings es))
        .ok (zl, longest maxlen (bindings es))) := by
  induction es with
  | nil =>
    intro a fuel zl maxlen hm hfuel
    obtain ⟨fuel, rfl⟩ : ∃ f, fuel = f+1 := ⟨fuel-1, by rw [List.length_nil] at hfuel; omega⟩
    rw [pushZipmap, zipmapNext_end hm rfl]
    rfl
  | cons e es ih =>
    intro a fuel zl maxlen hm hfuel
    obtain ⟨fuel, rfl⟩ : ∃ f, fuel = f+1 := ⟨fuel-1, by rw [List.length_cons] at hfuel; omega⟩
    have hm1 : m = a ++ (encodeEntry e ++ (encodeEntries es ++ [zipmapEnd])) := by
      rw [hm, encodeEntries_cons, List.append_assoc]
    have hm2 : m = (a ++ encodeEntry e) ++ (encodeEntries es ++ [zipmapEnd]) := by
      rw [hm1, List.append_assoc]
    have hrest (zl : Bytes) (maxlen : ℕ) := ih (fun e he => hok e (List.mem_cons_of_mem _ he)) zl
      maxlen hm2 (Nat.lt_of_succ_lt_succ hfuel)
    rw [List.length_append] at hrest
    have hpush (zl : Bytes) : Ziplist.pushAll zl (flatten (bindings (e :: es))) = (do
        let zl ← Ziplist.ziplistPush zl e.key .tail
        let zl ← Ziplist.ziplistPush zl e.val .tail
        Ziplist.pushAll zl (flatten (bindings es))) := by
      have hflat : flatten (bindings (e :: es)) = e.key :: e.val :: flatten (bindings es) := rfl
      rw [hflat, Ziplist.pushAll, List.foldlM_cons]
      rfl
    rw [pushZipmap, zipmapNext_entry (hok e List.mem_cons_self) hm1 rfl, ok_bind, hpush]
    dsimp only
    simp only [hrest, bind_assoc]
    rfl

theorem hashPairsFrom_at {zl : Bytes} {zs : List Ziplist.Entry} (h : Ziplist.Parses zl zs)
    (bs : List (Bytes × Bytes)) : ∀ {j fuel : ℕ}, Ziplist.texts (zs.drop j) = flatten bs →
      bs.length ≤ fuel → hashPairsFrom zl fuel (Ziplist.cursorAt zs j) = .ok bs := by
  induction bs with
  | nil =>
    intro j fuel htexts hfuel
    have hend : zs.length ≤ j := by
      have hlen := congrArg List.length htexts
      rw [Ziplist.texts_length, List.length_drop] at hlen
      exact Nat.sub_eq_zero_iff_le.1 hlen
    rw [Ziplist.cursorAt_of_le hend, hashPairsFrom]
  | cons b bs ih =>
    intro j fuel htexts hfuel
    obtain ⟨fuel, rfl⟩ : ∃ f, fuel = f+1 := ⟨fuel-1, by rw [List.length_cons] at hfuel; omega⟩
    have hlen := congrArg List.length htexts
    rw [Ziplist.texts_length, List.length_drop, flatten_cons, List.length_cons,
      List.length_cons] at hlen
    have hj : j < zs.length := by omega
    have hj1 : j+1 < zs.length := by omega
    rw [List.drop_eq_getElem_cons hj, List.drop_eq_getElem_cons hj1] at htexts
    obtain ⟨hkey, hrest⟩ := List.cons_eq_cons.1 htexts
    obtain ⟨hval, hrest⟩ := List.cons_eq_cons.1 hrest
    obtain ⟨k, hgetk, hk⟩ := Ziplist.ziplistGet_at h hj
    obtain ⟨v, hgetv, hv⟩ := Ziplist.ziplistGet_at h hj1
    rw [Ziplist.cursorAt_of_lt hj, hashPairsFrom, Ziplist.ziplistNext_at h hj, ok_bind,
      Ziplist.cursorAt_of_lt hj1]
    dsimp only
    rw [hashTypeCurrentObjectNewSds, hgetk, ok_bind, hashTypeCurrentObjectNewSds, hgetv,
      ok_bind, Ziplist.ziplistNext_at h hj1]
    simp only [ok_bind]
    rw [ih hrest (Nat.le_of_succ_le_succ hfuel), ok_bind, hk, hv, hkey, hval]

theorem hashPairs_ziplist {zl : Bytes} {zs : List Ziplist.Entry} (h : Ziplist.Parses zl zs)
    {bs : List (Bytes × Bytes)} (htexts : Ziplist.texts zs = flatten bs) :
    hashPairs (.ziplist zl) = .ok bs := by
  have hfuel : bs.length ≤ zl.length := by
    obtain ⟨cnt, -, hzl⟩ := h.layout
    have hlen := congrArg List.length htexts
    have hentries := Ziplist.length_le_entriesLen zs
    have hflat : (flatten bs).length = bs.length*2 := by simp [flatten]
    rw [Ziplist.texts_length, hflat] at hlen
    rw [hzl, Ziplist.blob_length, Ziplist.blobLen]
    omega
  rw [hashPairs, Ziplist.ziplistIndex_zero h, ok_bind]
  exact hashPairsFrom_at h bs htexts hfuel

theorem dictAddNew_all (bs : List (Bytes × Bytes)) : ∀ {dict : List (Bytes × Bytes)},
    ((dict ++ bs).map Prod.fst).Nodup → bs.foldlM dictAddNew dict = .ok (dict ++ bs) := by
  induction bs with
  | nil =>
    intro dict _
    rw [List.append_nil]
    rfl
  | cons b bs ih =>
    intro dict hkeys
    have hnew : b.1 ∉ dict.map Prod.fst := by
      intro hin
      rw [List.map_append, List.nodup_append] at hkeys
      exact hkeys.2.2 _ hin _ List.mem_cons_self rfl
    have happend : dict ++ b :: bs = (dict ++ [b]) ++ bs := by simp
    rw [happend] at hkeys ⊢
    rw [List.foldlM_cons, dictAddNew, if_neg hnew]
    exact ih hkeys

theorem loadHashZipmap_holds {zm : Bytes} {es : List Entry} (h : Holds zm es)
    (limits : HashLimits) :
    (ziplistSize (bindings es) < 2^32 →
      ∃ o, loadHashZipmap limits zm = .ok o ∧ hashPairs o = .ok (bindings es)) ∧
    (¬ziplistSize (bindings es) < 2^32 → loadHashZipmap limits zm = .error .sizeWrap) := by
  have hshort : ∀ s ∈ flatten (bindings es), s.length < 2^32 := by
    intro s hs
    obtain ⟨b, hb, hin⟩ := List.mem_flatMap.1 hs
    obtain ⟨e, he, rfl⟩ := List.mem_map.1 hb
    have hok := h.entries e he
    rcases List.mem_cons.1 hin with rfl | hin
    · exact hok.key
    · rw [List.mem_singleton.1 hin]
      exact hok.val
  have hloop : pushZipmap zm zm.length zipmapRewind Ziplist.ziplistNew 0 = (do
      let zl ← Ziplist.pushAll Ziplist.ziplistNew (flatten (bindings es))
      .ok (zl, longest 0 (bindings es))) := by
    obtain ⟨cnt, -, rfl⟩ := h.layout
    have hlen := length_le_encodeEntries es
    exact pushZipmap_at h.entries _ _ (show blob cnt es = [cnt] ++ _ from rfl)
      (by rw [blob_length]; omega)
  obtain ⟨hfit, hover⟩ := Ziplist.pushAll_sizes _ Ziplist.ziplistNew_parses hshort
  have hsize : Ziplist.blobLen []+Ziplist.appendedLens (Ziplist.rawAfter 0 [])
      (flatten (bindings es)) = ziplistSize (bindings es) := by
    rw [ziplistSize, Ziplist.blobLen, Ziplist.rawAfter, Ziplist.entriesLen_nil]
    omega
  rw [hsize] at hfit hover
  rw [loadHashZipmap, hloop]
  constructor
  · intro hlt
    obtain ⟨zl, zs, hpush, hparses, htexts⟩ := hfit hlt
    obtain ⟨zl', hlen, hparses'⟩ := Ziplist.ziplistLen_parses hparses
    have hpairs : hashPairs (.ziplist zl') = .ok (bindings es) := hashPairs_ziplist hparses' htexts
    rw [hpush, ok_bind, ok_bind]
    dsimp only
    rw [hlen, ok_bind]
    dsimp only
    by_cases hlarge : limits.hashMaxZiplistEntries < zs.length/2 ∨
        limits.hashMaxZiplistValue < longest 0 (bindings es)
    · have hkeys : (([] ++ bindings es).map Prod.fst).Nodup := by
        have hnodup := h.keys
        rwa [List.nil_append, bindings, List.map_map]
      rw [if_pos hlarge, hashTypeConvertZiplist, hpairs, ok_bind,
        dictAddNew_all (bindings es) hkeys]
      exact ⟨_, rfl, rfl⟩
    · rw [if_neg hlarge]
      exact ⟨_, rfl, hpairs⟩
  · intro hge
    rw [hover hge]
    rfl

end RedisCore.Zipmap
