import RedisCore.ZiplistRefinement

/-! `__ziplistInsert` of redis-3.0.7.  What that version has in common with redis-6.0.9 is used from there;
here the integer sizes have no assertion, and a next entry that shrinks may shrink the block. -/

namespace RedisCore.ZiplistOld
set_option linter.style.nameCheck false

open Ziplist

def zipIntSize (encoding : UInt8) : ℕ :=
  if encoding = zipInt8B then 1
  else if encoding = zipInt16B then 2
  else if encoding = zipInt24B then 3
  else if encoding = zipInt32B then 4
  else if encoding = zipInt64B then 8
  else 0

def zipDecodeLength (zl : Bytes) (ptr : ℕ) : Except Fault (UInt8 × ℕ × ℕ) := do
  let b ← loadByte zl ptr
  let encoding := if b < zipStrMask then b &&& zipStrMask else b
  if encoding < zipStrMask then
    if encoding = zipStr06B then return (encoding, 1, (b &&& 0x3f).toNat)
    else if encoding = zipStr14B then
      let b1 ← loadByte zl (ptr+1)
      return (encoding, 2, (b &&& 0x3f).toNat*256+b1.toNat)
    else if encoding = zipStr32B then
      let bs ← loadBytes zl (ptr+1) 4
      return (encoding, 5, beNat bs)
    else .error .aborted
  else return (encoding, 1, zipIntSize encoding)

def zipRawEntryLength (zl : Bytes) (p : ℕ) : Except Fault ℕ := do
  let prevlensize ← zipDecodePrevlensize zl p
  let (_, lensize, len) ← zipDecodeLength zl (p+prevlensize)
  return u32 (prevlensize+lensize+len)

def zipEntry (zl : Bytes) (p : ℕ) : Except Fault ZlEntry := do
  let (prevrawlensize, prevrawlen) ← zipDecodePrevlen zl p
  let (encoding, lensize, len) ← zipDecodeLength zl (p+prevrawlensize)
  return { prevrawlensize, prevrawlen, lensize, len,
           headersize := prevrawlensize+lensize, encoding, p }

def cascadeLoop : ℕ → Bytes → ℕ → ℕ → Except Fault Bytes
  | 0, _, _, _ => .error .outOfFuel
  | fuel+1, zl, p, curlen => do
    if (← loadByte zl p) = zipEnd then return zl
    else
      let cur ← zipEntry zl p
      let rawlen := u32 (cur.headersize+cur.len)
      let rawlensize := (zipStorePrevEntryLength rawlen).length
      if (← loadByte zl (p+rawlen)) = zipEnd then return zl
      else
        let next ← zipEntry zl (p+rawlen)
        if next.prevrawlen = rawlen then return zl
        else if next.prevrawlensize < rawlensize then
          let zl ← cascadeWiden zl (p+rawlen) rawlen next.prevrawlensize curlen
          cascadeLoop fuel zl (p+rawlen) (curlen+(rawlensize-next.prevrawlensize))
        else if next.prevrawlensize > rawlensize then
          storeBytes zl (p+rawlen) (zipStorePrevEntryLengthLarge rawlen)
        else
          storeBytes zl (p+rawlen) (zipStorePrevEntryLength rawlen)

def __ziplistCascadeUpdate (zl : Bytes) (p : ℕ) : Except Fault Bytes := do
  let curlen ← ziplistBytes zl
  cascadeLoop zl.length zl p curlen

def shiftTailOffset (zl : Bytes) (p : ℕ) (d nextdiff : ℤ) : Except Fault Bytes := do
  let zl ← addZiplistTailOffset zl d
  let tail ← zipEntry zl p
  let b ← loadByte zl (p+(tail.headersize+tail.len))
  if b ≠ zipEnd then addZiplistTailOffset zl nextdiff else return zl

def insertPrevlen (zl : Bytes) (p : ℕ) : Except Fault ℕ := do
  if (← loadByte zl p) ≠ zipEnd then
    let (_, prevlen) ← zipDecodePrevlen zl p
    return prevlen
  else
    let ptail ← ziplistTailOffset zl
    if (← loadByte zl ptail) ≠ zipEnd then zipRawEntryLength zl ptail else return 0

def insertDataLen (s : Bytes) : ℕ :=
  match zipTryEncoding s with
  | some (_, encoding) => zipIntSize encoding+(zipStoreEntryEncoding encoding s.length).length
  | none => s.length+(zipStoreEntryEncoding 0 s.length).length

def insertMakeRoom (zl : Bytes) (p curlen reqlen : ℕ) (nextdiff : ℤ) : Except Fault Bytes := do
  let zl ← ziplistResize zl ((curlen : ℤ)+reqlen+nextdiff).toNat
  if (← loadByte zl p) ≠ zipEnd then
    let zl ← moveBytes zl (p+reqlen) ((p : ℤ)-nextdiff).toNat ((curlen : ℤ)-p-1+nextdiff).toNat
    let zl ← storeBytes zl (p+reqlen) (zipStorePrevEntryLength (u32 reqlen))
    shiftTailOffset zl (p+reqlen) reqlen nextdiff
  else setZiplistTailOffset zl p

def __ziplistInsert (zl : Bytes) (p : ℕ) (s : Bytes) : Except Fault Bytes := do
  let curlen ← ziplistBytes zl
  let prevlen ← insertPrevlen zl p
  let reqlen := insertDataLen s+(zipStorePrevEntryLength prevlen).length
  let b ← loadByte zl p
  let nextdiff ← (if b ≠ zipEnd then zipPrevLenByteDiff zl p (u32 reqlen) else .ok 0)
  let zl ← insertMakeRoom zl p curlen reqlen nextdiff
  let zl ← (if nextdiff ≠ 0 then __ziplistCascadeUpdate zl (p+reqlen) else .ok zl)
  let zl ← storeBytes zl p (zipStorePrevEntryLength prevlen)
  let p := p+(zipStorePrevEntryLength prevlen).length
  let (header, data) ← insertPayload s
  let zl ← storeBytes zl p header
  let zl ← storeBytes zl (p+header.length) data
  ziplistIncrLength zl 1

def Agrees {β : Type} (old new : Except Fault β) : Prop := new ≠ .error .aborted → old = new

variable {β γ : Type} {zl s : Bytes} {es1 es es2 : List Entry} {e : Entry}

theorem agrees_refl (x : Except Fault β) : Agrees x x := fun _ => rfl

theorem agrees_bind_of {old new : Except Fault β} {f g : β → Except Fault γ}
    (h : Agrees old new) (hfg : ∀ a, new = .ok a → Agrees (f a) (g a)) : Agrees (old >>= f) (new >>= g) := by
  intro hne
  cases hnew : new with
  | error e =>
    have hsame := h (by
      intro habort
      apply hne
      rw [habort]
      rfl)
    rw [hsame, hnew]
    rfl
  | ok a =>
    have hsame := h (by
      rw [hnew]
      intro habort
      cases habort)
    rw [hnew] at hne hsame
    rw [hsame]
    exact hfg a hnew hne

theorem agrees_bind {old new : Except Fault β} {f g : β → Except Fault γ} (h : Agrees old new)
    (hfg : ∀ a, Agrees (f a) (g a)) : Agrees (old >>= f) (new >>= g) :=
  agrees_bind_of h (fun a _ => hfg a)

theorem agrees_ite {c : Prop} [Decidable c] {old new old' new' : Except Fault β}
    (h : Agrees old new) (h' : Agrees old' new') :
    Agrees (if c then old else old') (if c then new else new') := by
  by_cases hc : c
  · rw [if_pos hc, if_pos hc]
    exact h
  · rw [if_neg hc, if_neg hc]
    exact h'

theorem zipIntSize_agrees (encoding : UInt8) :
    Agrees (.ok (zipIntSize encoding)) (Ziplist.zipIntSize encoding) := by
  intro hne
  unfold zipIntSize Ziplist.zipIntSize at *
  split_ifs at hne ⊢ with h1 h2 h3 h4 h5 h6
  · rfl
  · rfl
  · rfl
  · rfl
  · rfl
  · rfl
  · exact absurd rfl hne

theorem zipDecodeLength_agrees (zl : Bytes) (ptr : ℕ) :
    Agrees (zipDecodeLength zl ptr) (Ziplist.zipDecodeLength zl ptr) := by
  apply agrees_bind (agrees_refl _)
  intro b
  apply agrees_ite
  · exact agrees_refl _
  · exact agrees_bind (zipIntSize_agrees _) (fun _ => agrees_refl _)

theorem zipRawEntryLength_agrees (zl : Bytes) (p : ℕ) :
    Agrees (zipRawEntryLength zl p) (Ziplist.zipRawEntryLength zl p) := by
  apply agrees_bind (agrees_refl _)
  intro prevlensize
  exact agrees_bind (zipDecodeLength_agrees _ _) (fun _ => agrees_refl _)

theorem zipEntry_agrees (zl : Bytes) (p : ℕ) : Agrees (zipEntry zl p) (Ziplist.zipEntry zl p) := by
  apply agrees_bind (agrees_refl _)
  intro prev
  exact agrees_bind (zipDecodeLength_agrees _ _) (fun _ => agrees_refl _)

theorem cascadeLoop_agrees (fuel : ℕ) (zl : Bytes) (p curlen : ℕ) :
    Agrees (cascadeLoop fuel zl p curlen) (Ziplist.cascadeLoop fuel zl p curlen) := by
  induction fuel generalizing zl p curlen with
  | zero => exact agrees_refl _
  | succ fuel ih =>
    apply agrees_bind (agrees_refl _)
    intro b
    apply agrees_ite (agrees_refl _)
    apply agrees_bind (zipEntry_agrees zl p)
    intro cur
    apply agrees_bind (agrees_refl _)
    intro b'
    apply agrees_ite (agrees_refl _)
    apply agrees_bind (zipEntry_agrees zl _)
    intro next
    apply agrees_ite (agrees_refl _)
    apply agrees_ite
    · exact agrees_bind (agrees_refl _) (fun zl' => ih zl' _ _)
    · exact agrees_refl _

theorem __ziplistCascadeUpdate_agrees (zl : Bytes) (p : ℕ) :
    Agrees (__ziplistCascadeUpdate zl p) (Ziplist.__ziplistCascadeUpdate zl p) :=
  agrees_bind (agrees_refl _) (fun curlen => cascadeLoop_agrees zl.length zl p curlen)

theorem shiftTailOffset_agrees (zl : Bytes) (p : ℕ) (d nextdiff : ℤ) :
    Agrees (shiftTailOffset zl p d nextdiff) (Ziplist.shiftTailOffset zl p d nextdiff) := by
  apply agrees_bind (agrees_refl _)
  intro zl'
  exact agrees_bind (zipEntry_agrees zl' p) (fun _ => agrees_refl _)

theorem insertPrevlen_agrees (zl : Bytes) (p : ℕ) :
    Agrees (insertPrevlen zl p) (Ziplist.insertPrevlen zl p) := by
  apply agrees_bind (agrees_refl _)
  intro b
  apply agrees_ite (agrees_refl _)
  apply agrees_bind (agrees_refl _)
  intro ptail
  apply agrees_bind (agrees_refl _)
  intro b'
  exact agrees_ite (zipRawEntryLength_agrees zl ptail) (agrees_refl _)

theorem insertDataLen_agrees (s : Bytes) : Agrees (.ok (insertDataLen s)) (Ziplist.insertDataLen s) := by
  unfold insertDataLen Ziplist.insertDataLen
  cases zipTryEncoding s with
  | none => exact agrees_refl _
  | some r =>
    have hsize := agrees_bind (zipIntSize_agrees r.2)
      (fun len => agrees_refl (.ok (len+(zipStoreEntryEncoding r.2 s.length).length)))
    exact hsize

theorem insertMakeRoom_agrees (zl : Bytes) (p curlen reqlen : ℕ) (nextdiff : ℤ) :
    Agrees (insertMakeRoom zl p curlen reqlen nextdiff)
      (Ziplist.insertMakeRoom zl p curlen reqlen nextdiff false) := by
  apply agrees_bind (agrees_refl _)
  intro zl'
  apply agrees_bind (agrees_refl _)
  intro b
  apply agrees_ite
  · apply agrees_bind (agrees_refl _)
    intro zl2
    apply agrees_bind (agrees_refl _)
    intro zl3
    exact shiftTailOffset_agrees zl3 _ _ _
  · exact agrees_refl _

def newReqlen (es1 : List Entry) (s : Bytes) : ℕ :=
  insertDataLen s+(zipStorePrevEntryLength (rawAfter 0 es1)).length

/-- The next entry has room for a long `prevlen`, which it gives up for an entry that is shorter than what
it gives up. -/
def Shrinks (es1 es2 : List Entry) (s : Bytes) : Prop :=
  ∃ e es, es2 = e :: es ∧ e.wide = true ∧ newReqlen es1 s < 4

theorem __ziplistInsert_agrees (zl : Bytes) (p : ℕ) (s : Bytes)
    (hkeep : ∀ prevlen b diff, Ziplist.insertPrevlen zl p = .ok prevlen → loadByte zl p = .ok b →
      (if b ≠ zipEnd then zipPrevLenByteDiff zl p (u32 (insertDataLen s+(zipStorePrevEntryLength prevlen).length))
        else .ok 0) = .ok diff →
      ¬(diff = -4 ∧ insertDataLen s+(zipStorePrevEntryLength prevlen).length < 4)) :
    Agrees (__ziplistInsert zl p s) (Ziplist.__ziplistInsert zl p s) := by
  apply agrees_bind (agrees_refl _)
  intro curlen
  apply agrees_bind_of (insertPrevlen_agrees zl p)
  intro prevlen hprev
  -- the data of the new entry have one length in both versions
  cases hlen : Ziplist.insertDataLen s with
  | error e =>
    intro hne
    have hsame := insertDataLen_agrees s (by
      rw [hlen]
      intro habort
      apply hne
      rw [habort]
      rfl)
    rw [hlen] at hsame
    cases hsame
  | ok datalen =>
  have hdata : insertDataLen s = datalen := by
    have hsame := insertDataLen_agrees s (by
      rw [hlen]
      intro habort
      cases habort)
    rw [hlen] at hsame
    cases hsame
    rfl
  subst hdata
  rw [ok_bind]
  apply agrees_bind_of (agrees_refl _)
  intro b hb
  apply agrees_bind_of (agrees_refl _)
  intro diff hdiff
  have hnot := hkeep prevlen b diff hprev hb hdiff
  simp only [hnot, decide_false, Bool.false_eq_true, if_false]
  apply agrees_bind (insertMakeRoom_agrees zl p _ _ diff)
  intro zl'
  apply agrees_bind
  · exact agrees_ite (__ziplistCascadeUpdate_agrees zl' _) (agrees_refl _)
  · intro zl2
    exact agrees_refl _

theorem zipPrevLenByteDiff_shrinks {cnt : ℕ} {diff : ℤ}
    (hok : EntriesOk 0 (es1 ++ e :: es)) (hzl : zl = blob (es1 ++ e :: es) cnt)
    (hdiff : zipPrevLenByteDiff zl (10+entriesLen es1) (u32 (newReqlen es1 s)) = .ok diff)
    (hshrinks : diff = -4 ∧ newReqlen es1 s < 4) : Shrinks es1 (e :: es) s := by
  have hnarrow := ((entriesOk_append 0 es1 (e :: es)).mp hok).2.1.narrow
  have hm : zl = (header (blobLen (es1 ++ e :: es)) (tailOffset (es1 ++ e :: es)) cnt ++
      encodeEntries 0 es1) ++
      (encodeEntry (rawAfter 0 es1) e ++ (encodeEntries e.rawlen es ++ [zipEnd])) := by
    simp [hzl, blob_split, encodeEntries]
  have hp : 10+entriesLen es1 = (header (blobLen (es1 ++ e :: es)) (tailOffset (es1 ++ e :: es)) cnt ++
      encodeEntries 0 es1).length := by simp [ziplistHeaderSize]
  have hsize := zipDecodePrevlensize_entry hnarrow hm hp
  rw [zipPrevLenByteDiff, hsize, ok_bind, except_pure, zipStorePrevEntryLength_length] at hdiff
  have hval := Except.ok.inj hdiff
  have hpos := prevSize_pos (decide (zipBigPrevlen ≤ u32 (newReqlen es1 s)))
  have hwide : e.wide = true := by
    cases hw : e.wide with
    | false =>
      rw [hw] at hval
      simp only [prevSize, Bool.false_eq_true, if_false] at hval hpos
      omega
    | true => rfl
  exact ⟨e, es, rfl, hwide, hshrinks.2⟩

theorem __ziplistInsert_parses (h : Parses zl (es1 ++ es2)) (hnot : ¬Shrinks es1 es2 s) :
    __ziplistInsert zl (10+entriesLen es1) s = .error .sizeWrap ∨
    ∃ zl' es', __ziplistInsert zl (10+entriesLen es1) s = .ok zl' ∧ Parses zl' es' ∧
      texts es' = texts es1 ++ s :: texts es2 := by
  have hkeep : ∀ prevlen b diff, Ziplist.insertPrevlen zl (10+entriesLen es1) = .ok prevlen →
      loadByte zl (10+entriesLen es1) = .ok b →
      (if b ≠ zipEnd then zipPrevLenByteDiff zl (10+entriesLen es1)
          (u32 (insertDataLen s+(zipStorePrevEntryLength prevlen).length))
        else .ok 0) = .ok diff →
      ¬(diff = -4 ∧ insertDataLen s+(zipStorePrevEntryLength prevlen).length < 4) := by
    intro prevlen b diff hprev hb hdiff hshrinks
    obtain ⟨cnt, -, hzl⟩ := h.layout
    cases es2 with
    | nil =>
      -- at the end marker nothing is compared
      rw [List.append_nil] at hzl
      rw [hzl, loadByte_end] at hb
      cases hb
      rw [if_neg (by simp)] at hdiff
      have hzero : (0 : ℤ) = diff := Except.ok.inj hdiff
      omega
    | cons e es =>
      have hmid := @insertPrevlen_mid _ _ _ cnt h.entries h.size
      rw [← hzl, hprev] at hmid
      have heq : prevlen = rawAfter 0 es1 := Except.ok.inj hmid
      rw [heq] at hdiff hshrinks
      by_cases hend : b ≠ zipEnd
      · rw [if_pos hend] at hdiff
        exact hnot (zipPrevLenByteDiff_shrinks h.entries hzl hdiff hshrinks)
      · rw [if_neg hend] at hdiff
        have hzero : (0 : ℤ) = diff := Except.ok.inj hdiff
        omega
  have hagrees := __ziplistInsert_agrees zl (10+entriesLen es1) s hkeep
  rcases Ziplist.__ziplistInsert_parses (s := s) h with hwrap | ⟨zl', es', hins, hparses, htexts, -⟩
  · left
    rw [hagrees (by rw [hwrap]; intro habort; cases habort), hwrap]
  · right
    refine ⟨zl', es', ?_, hparses, htexts⟩
    rw [hagrees (by rw [hins]; intro habort; cases habort), hins]

theorem ziplistResize_cut {b t l n : ℕ} {content : Bytes} (hn : 11 ≤ n) (hle : n ≤ 11+content.length)
    (hlt : n < 2^32) :
    ziplistResize (header b t l ++ (content ++ [zipEnd])) n =
      .ok (header n t l ++ (content.take (n-11) ++ [zipEnd])) := by
  have hsplit : content ++ [zipEnd] = content.take (n-11) ++ (content.drop (n-11) ++ [zipEnd]) := by
    rw [← List.append_assoc, List.take_append_drop]
  have hne : content.drop (n-11) ++ [zipEnd] ≠ [] := by simp
  obtain ⟨x, rest, hrest⟩ := List.exists_cons_of_ne_nil hne
  rw [hsplit, hrest]
  apply ziplistResize_shrink
  · rw [List.length_take]
    omega
  · exact hlt

theorem __ziplistInsert_short (h : Parses zl (es1 ++ e :: es)) (hwide : e.wide = true)
    (hreq : newReqlen es1 s = 2) :
    __ziplistInsert zl (10+entriesLen es1) s = .error .outOfBounds := by
  obtain ⟨cnt, -, hzl⟩ := h.layout
  have hok := (entriesOk_append 0 es1 (e :: es)).mp h.entries
  have hbody : 1 ≤ e.body.length := by
    obtain ⟨encoding, lensize, len, hdec, hlen⟩ := hok.2.1.body
    cases hnil : e.body with
    | nil =>
      rw [hnil] at hdec
      cases hdec
    | cons x xs => simp
  have hraw : 6 ≤ e.rawlen := by
    simp only [Entry.rawlen, hwide, prevSize, if_true]
    omega
  have htotal : blobLen (es1 ++ e :: es) = 11+(entriesLen es1+(e.rawlen+entriesLen es)) := by
    simp only [blobLen, ziplistHeaderSize, ziplistEndSize, entriesLen_append, entriesLen_cons]
    omega
  have hsize := h.size
  -- what is read before the block changes
  have hcur : ziplistBytes zl = .ok (blobLen (es1 ++ e :: es)) := by
    rw [hzl]
    exact ziplistBytes_header h.size
  have hmid := @insertPrevlen_mid _ _ _ cnt h.entries h.size
  rw [← hzl] at hmid
  have hprev : insertPrevlen zl (10+entriesLen es1) = .ok (rawAfter 0 es1) := by
    rw [insertPrevlen_agrees zl _ (by rw [hmid]; intro habort; cases habort), hmid]
  have hm : zl = (header (blobLen (es1 ++ e :: es)) (tailOffset (es1 ++ e :: es)) cnt ++
      encodeEntries 0 es1) ++
      (encodeEntry (rawAfter 0 es1) e ++ (encodeEntries e.rawlen es ++ [zipEnd])) := by
    simp [hzl, blob_split, encodeEntries]
  have hp : 10+entriesLen es1 = (header (blobLen (es1 ++ e :: es)) (tailOffset (es1 ++ e :: es)) cnt ++
      encodeEntries 0 es1).length := by simp [ziplistHeaderSize]
  obtain ⟨b, hb, hne, -⟩ := loadByte_entry hok.2.1.narrow hm hp
  have hdiff : zipPrevLenByteDiff zl (10+entriesLen es1) (u32 2) = .ok (-4) := by
    rw [zipPrevLenByteDiff, zipDecodePrevlensize_entry hok.2.1.narrow hm hp, ok_bind, hwide]
    rfl
  -- the block after it is cut
  have hcut : ziplistResize zl (((blobLen (es1 ++ e :: es) : ℕ) : ℤ)+(2 : ℕ)+(-4)).toNat =
      .ok (header (blobLen (es1 ++ e :: es)-2) (tailOffset (es1 ++ e :: es)) cnt ++
        ((encodeEntries 0 (es1 ++ e :: es)).take (blobLen (es1 ++ e :: es)-2-11) ++ [zipEnd])) := by
    have hlen : (((blobLen (es1 ++ e :: es) : ℕ) : ℤ)+(2 : ℕ)+(-4)).toNat = blobLen (es1 ++ e :: es)-2 := by
      omega
    rw [hlen, hzl]
    apply ziplistResize_cut
    · omega
    · simp only [encodeEntries_length, entriesLen_append, entriesLen_cons]
      omega
    · omega
  have hload : loadByte (header (blobLen (es1 ++ e :: es)-2) (tailOffset (es1 ++ e :: es)) cnt ++
      ((encodeEntries 0 (es1 ++ e :: es)).take (blobLen (es1 ++ e :: es)-2-11) ++ [zipEnd]))
      (10+entriesLen es1) = .ok b := by
    have hk : entriesLen es1 < blobLen (es1 ++ e :: es)-2-11 := by omega
    have hcontent : (encodeEntries 0 (es1 ++ e :: es) ++ [zipEnd])[entriesLen es1]? = some b := by
      have hsame : loadByte zl (10+entriesLen es1) =
          loadByte (encodeEntries 0 (es1 ++ e :: es) ++ [zipEnd]) (entriesLen es1) := by
        rw [hzl]
        exact loadByte_append_right (by simp [ziplistHeaderSize])
      rw [hsame, loadByte] at hb
      cases hget : (encodeEntries 0 (es1 ++ e :: es) ++ [zipEnd])[entriesLen es1]? with
      | none =>
        rw [hget] at hb
        cases hb
      | some x =>
        rw [hget] at hb
        cases hb
        rfl
    have hin : entriesLen es1 < (encodeEntries 0 (es1 ++ e :: es)).length := by
      simp only [encodeEntries_length, entriesLen_append, entriesLen_cons]
      omega
    rw [List.getElem?_append_left hin] at hcontent
    rw [loadByte_append_right (n := entriesLen es1) (by simp [ziplistHeaderSize]), loadByte,
      List.getElem?_append_left (by rw [List.length_take]; omega), List.getElem?_take_of_lt hk, hcontent]
  have hroom : insertMakeRoom zl (10+entriesLen es1) (blobLen (es1 ++ e :: es)) 2 (-4) =
      .error .outOfBounds := by
    rw [insertMakeRoom, hcut, ok_bind, hload, ok_bind, if_pos hne, moveBytes, loadBytes,
      if_neg]
    · rfl
    · -- the source ends one byte behind the cut
      simp only [List.length_append, header_length, ziplistHeaderSize, List.length_take,
        encodeEntries_length, entriesLen_append, entriesLen_cons, List.length_singleton]
      omega
  have hreqlen : insertDataLen s+(zipStorePrevEntryLength (rawAfter 0 es1)).length = 2 := hreq
  rw [__ziplistInsert, hcur, ok_bind, hprev, ok_bind]
  simp only [hreqlen]
  rw [hb, ok_bind, if_pos hne, hdiff, ok_bind, hroom]
  rfl

def shortBefore : Entry := { wide := false, body := [0x40, 250] ++ List.replicate 250 97 }

def wideAfter : Entry := { wide := true, body := [1, 99] }

theorem shortBefore_length : shortBefore.body.length = 252 := by
  rw [shortBefore, List.length_append, List.length_replicate]
  rfl

theorem shortBefore_rawlen : shortBefore.rawlen = 253 := by
  rw [Entry.rawlen, shortBefore_length]
  rfl

theorem shortBefore_blobLen : blobLen [shortBefore, wideAfter] = 271 := by
  rw [blobLen, entriesLen_cons, shortBefore_rawlen]
  rfl

theorem shortBefore_reqlen : newReqlen [shortBefore] [] = 2 := by
  rw [newReqlen, rawAfter, rawAfter, shortBefore_rawlen]
  rfl

theorem shortBefore_parses : Parses (blob [shortBefore, wideAfter] 2) ([shortBefore] ++ wideAfter :: []) := by
  have hbefore : BodyOk shortBefore.body := ⟨zipStr14B, 2, 250, rfl, shortBefore_length.symm⟩
  have hafter : BodyOk wideAfter.body := ⟨zipStr06B, 1, 1, rfl, rfl⟩
  have hwide : wideAfter.wide = false → shortBefore.rawlen < zipBigPrevlen := by
    intro hw
    cases hw
  have hsize : blobLen ([shortBefore] ++ wideAfter :: []) < 2^32 := by
    rw [List.cons_append, List.nil_append, shortBefore_blobLen]
    decide
  exact ⟨⟨⟨fun _ => by decide, hbefore⟩, ⟨hwide, hafter⟩, trivial⟩, hsize, 2, Or.inl ⟨rfl, by decide⟩, rfl⟩

/-- The empty string before such an entry: bytes behind the block are read. -/
theorem ziplistInsert_empty_outOfBounds :
    Parses (blob [shortBefore, wideAfter] 2) ([shortBefore] ++ wideAfter :: []) ∧
    blobLen [shortBefore, wideAfter]+7 < 2^32 ∧
    ¬∃ zl' es', __ziplistInsert (blob [shortBefore, wideAfter] 2) (10+entriesLen [shortBefore]) [] = .ok zl' ∧
      Parses zl' es' ∧ texts es' = texts [shortBefore] ++ [] :: texts [wideAfter] := by
  refine ⟨shortBefore_parses, by rw [shortBefore_blobLen]; decide, ?_⟩
  rintro ⟨zl', es', hins, -⟩
  have hfault := __ziplistInsert_short (s := []) shortBefore_parses rfl shortBefore_reqlen
  rw [hfault] at hins
  cases hins

/-- Insertion is right unless the next entry gives up more bytes than the new one takes. -/
theorem ziplistInsert_right_unless_shrinks (h : Parses zl (es1 ++ es2)) :
    (¬Shrinks es1 es2 s → __ziplistInsert zl (10+entriesLen es1) s = .error .sizeWrap ∨
      ∃ zl' es', __ziplistInsert zl (10+entriesLen es1) s = .ok zl' ∧ Parses zl' es' ∧
        texts es' = texts es1 ++ s :: texts es2) ∧
    (Shrinks es1 es2 s → newReqlen es1 s = 2 →
      __ziplistInsert zl (10+entriesLen es1) s = .error .outOfBounds) := by
  constructor
  · intro hnot
    exact __ziplistInsert_parses h hnot
  · intro hshrinks hreq
    obtain ⟨e, es, heq, hwide, -⟩ := hshrinks
    subst heq
    exact __ziplistInsert_short h hwide hreq

/-- Three letters before an entry whose `prevlen` is stored in five bytes. -/
theorem ziplistInsert_right_unless_shrinks_wide : ∃ zl' es',
    __ziplistInsert (blob [shortBefore, wideAfter] 2) (10+entriesLen [shortBefore]) [97, 98, 99] = .ok zl' ∧
    Parses zl' es' ∧ texts es' = [List.replicate 250 97, [97, 98, 99], [99]] := by
  have hnot : ¬Shrinks [shortBefore] [wideAfter] [97, 98, 99] := by
    rintro ⟨e, es, -, -, hreq⟩
    have hfive : newReqlen [shortBefore] [97, 98, 99] = 5 := by
      rw [newReqlen, rawAfter, rawAfter, shortBefore_rawlen]
      rfl
    omega
  have hrun : (__ziplistInsert (blob [shortBefore, wideAfter] 2) (10+entriesLen [shortBefore])
      [97, 98, 99]).isOk = true := by decide +kernel
  have htexts : texts [shortBefore] ++ [97, 98, 99] :: texts [wideAfter] =
      [List.replicate 250 97, [97, 98, 99], [99]] := by decide +kernel
  rcases (ziplistInsert_right_unless_shrinks shortBefore_parses).1 hnot with hwrap | hright
  · rw [hwrap] at hrun
    cases hrun
  · rwa [htexts] at hright

end RedisCore.ZiplistOld
