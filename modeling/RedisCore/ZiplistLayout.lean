import RedisCore.ZiplistModel

namespace RedisCore.Ziplist

/-- An entry without the value of its `prevlen` field, which the entry before it determines:
the width of that field, then encoding header and data. -/
structure Entry where
  wide : Bool
  body : Bytes
deriving DecidableEq, Repr

def prevSize (wide : Bool) : ℕ := if wide then 5 else 1

def Entry.rawlen (e : Entry) : ℕ := prevSize e.wide+e.body.length

def BodyOk (body : Bytes) : Prop :=
  ∃ encoding lensize len, zipDecodeLength body 0 = .ok (encoding, lensize, len) ∧
    lensize+len = body.length

structure EntryOk (prev : ℕ) (e : Entry) : Prop where
  narrow : e.wide = false → prev < zipBigPrevlen
  body : BodyOk e.body

def EntriesOk : ℕ → List Entry → Prop
  | _, [] => True
  | prev, e :: es => EntryOk prev e ∧ EntriesOk e.rawlen es

def encodePrev (wide : Bool) (prev : ℕ) : Bytes :=
  if wide then zipStorePrevEntryLengthLarge prev else [UInt8.ofNat prev]

def encodeEntry (prev : ℕ) (e : Entry) : Bytes := encodePrev e.wide prev ++ e.body

def encodeEntries : ℕ → List Entry → Bytes
  | _, [] => []
  | prev, e :: es => encodeEntry prev e ++ encodeEntries e.rawlen es

def rawAfter : ℕ → List Entry → ℕ
  | prev, [] => prev
  | _, e :: es => rawAfter e.rawlen es

def entriesLen (es : List Entry) : ℕ := (es.map Entry.rawlen).sum

def blobLen (es : List Entry) : ℕ := ziplistHeaderSize+entriesLen es+ziplistEndSize

def tailOffset (es : List Entry) : ℕ := ziplistHeaderSize+entriesLen es.dropLast

def header (bytes tail len : ℕ) : Bytes := leBytes 4 bytes ++ (leBytes 4 tail ++ leBytes 2 len)

def CountOk (n cnt : ℕ) : Prop := (cnt = n ∧ n < uint16Max) ∨ cnt = uint16Max

def blob (es : List Entry) (cnt : ℕ) : Bytes :=
  header (blobLen es) (tailOffset es) cnt ++ (encodeEntries 0 es ++ [zipEnd])

structure Parses (zl : Bytes) (es : List Entry) : Prop where
  entries : EntriesOk 0 es
  size : blobLen es < 2^32
  layout : ∃ cnt, CountOk es.length cnt ∧ zl = blob es cnt

@[simp] theorem header_length (b t l : ℕ) : (header b t l).length = ziplistHeaderSize := by
  simp [header, ziplistHeaderSize]

@[simp] theorem encodePrev_length (w : Bool) (prev : ℕ) :
    (encodePrev w prev).length = prevSize w := by
  cases w <;> simp [encodePrev, prevSize, zipStorePrevEntryLengthLarge]

@[simp] theorem encodeEntry_length (prev : ℕ) (e : Entry) :
    (encodeEntry prev e).length = e.rawlen := by
  simp [encodeEntry, Entry.rawlen]

@[simp] theorem entriesLen_nil : entriesLen [] = 0 := rfl

@[simp] theorem entriesLen_cons (e : Entry) (es : List Entry) :
    entriesLen (e :: es) = e.rawlen+entriesLen es := by simp [entriesLen]

@[simp] theorem entriesLen_append (es fs : List Entry) :
    entriesLen (es ++ fs) = entriesLen es+entriesLen fs := by simp [entriesLen]

@[simp] theorem encodeEntries_length (prev : ℕ) (es : List Entry) :
    (encodeEntries prev es).length = entriesLen es := by
  induction es generalizing prev with
  | nil => rfl
  | cons e es ih => simp only [encodeEntries, List.length_append, encodeEntry_length, ih,
      entriesLen_cons]

theorem blob_length (es : List Entry) (cnt : ℕ) : (blob es cnt).length = blobLen es := by
  simp [blob, blobLen, ziplistEndSize, Nat.add_assoc]

theorem prevSize_pos (w : Bool) : 1 ≤ prevSize w := by cases w <;> decide

theorem prevSize_le (w : Bool) : prevSize w ≤ 5 := by cases w <;> decide

theorem encodeEntries_append (prev : ℕ) (es fs : List Entry) :
    encodeEntries prev (es ++ fs) =
      encodeEntries prev es ++ encodeEntries (rawAfter prev es) fs := by
  induction es generalizing prev with
  | nil => rfl
  | cons e es ih => simp only [List.cons_append, encodeEntries, ih, rawAfter, List.append_assoc]

theorem rawAfter_append_cons (prev : ℕ) (es fs : List Entry) (e : Entry) :
    rawAfter prev (es ++ e :: fs) = rawAfter e.rawlen fs := by
  induction es generalizing prev with
  | nil => rfl
  | cons d es ih => exact ih d.rawlen

theorem entriesOk_append (prev : ℕ) (es fs : List Entry) :
    EntriesOk prev (es ++ fs) ↔ EntriesOk prev es ∧ EntriesOk (rawAfter prev es) fs := by
  induction es generalizing prev with
  | nil => simp [EntriesOk, rawAfter]
  | cons e es ih => simp only [List.cons_append, EntriesOk, ih, rawAfter, and_assoc]

theorem rawAfter_le (es : List Entry) (prev : ℕ) : rawAfter prev es ≤ prev+entriesLen es := by
  induction es generalizing prev with
  | nil => simp [rawAfter]
  | cons e es ih =>
    have := ih e.rawlen
    simp only [rawAfter, entriesLen_cons]
    omega

section Header

variable {b t l : ℕ} {body : Bytes}

theorem ziplistBytes_header (hb : b < 2^32) : ziplistBytes (header b t l ++ body) = .ok b := by
  rw [ziplistBytes, loadBytes_at (i := 0) (a := []) (b := leBytes 4 b)
    (c := leBytes 4 t ++ (leBytes 2 l ++ body)) (by simp [header]) rfl (by simp)]
  simp only [ok_bind, except_pure, leNat_leBytes_of_lt (w := 4) (n := b) (by omega)]

theorem ziplistTailOffset_header (ht : t < 2^32) :
    ziplistTailOffset (header b t l ++ body) = .ok t := by
  rw [ziplistTailOffset, loadBytes_at (a := leBytes 4 b) (b := leBytes 4 t)
    (c := leBytes 2 l ++ body) (by simp [header]) (by simp) (by simp)]
  simp only [ok_bind, except_pure, leNat_leBytes_of_lt (w := 4) (n := t) (by omega)]

theorem ziplistLength_header (hl : l < 2^16) : ziplistLength (header b t l ++ body) = .ok l := by
  rw [ziplistLength, loadBytes_at (a := leBytes 4 b ++ leBytes 4 t) (b := leBytes 2 l)
    (c := body) (by simp [header]) (by simp) (by simp)]
  simp only [ok_bind, except_pure, leNat_leBytes_of_lt (w := 2) (n := l) (by omega)]

theorem setZiplistBytes_header (n : ℕ) (hn : n < 2^32) :
    setZiplistBytes (header b t l ++ body) n = .ok (header n t l ++ body) := by
  rw [setZiplistBytes, toUnsigned_of_range (by omega) (by omega), Int.toNat_natCast,
    storeBytes_at (i := 0) (a := []) (x := leBytes 4 b) (b := leBytes 4 n) (c := leBytes 4 t ++ (leBytes 2 l ++ body))
      (by simp [header]) rfl (by simp)]
  simp [header]

theorem setZiplistTailOffset_header (v : ℤ) (n : ℕ) (hv : v = n) (hn : n < 2^32) :
    setZiplistTailOffset (header b t l ++ body) v = .ok (header b n l ++ body) := by
  rw [setZiplistTailOffset, toUnsigned_of_range (by omega) (by omega), hv, Int.toNat_natCast,
    storeBytes_at (a := leBytes 4 b) (b := leBytes 4 n) (x := leBytes 4 t) (c := leBytes 2 l ++ body)
      (by simp [header]) (by simp) (by simp)]
  simp [header]

theorem addZiplistTailOffset_header (d : ℤ) (n : ℕ) (ht : t < 2^32)
    (hd : ((t : ℤ)+d) % 2^32 = n) :
    addZiplistTailOffset (header b t l ++ body) d = .ok (header b n l ++ body) := by
  have hn : toUnsigned 32 n = toUnsigned 32 (t+d) := by rw [toUnsigned, toUnsigned, ← hd]; omega
  rw [addZiplistTailOffset, ziplistTailOffset_header ht, ok_bind]
  have h : setZiplistTailOffset (header b t l ++ body) n = .ok (header b n l ++ body) :=
    setZiplistTailOffset_header n n rfl (by omega)
  rw [setZiplistTailOffset] at h ⊢
  rw [← hn, h]

theorem setZiplistLength_header (v : ℤ) (n : ℕ) (hv : v = n) (hn : n < 2^16) :
    setZiplistLength (header b t l ++ body) v = .ok (header b t n ++ body) := by
  rw [setZiplistLength, toUnsigned_of_range (by omega) (by omega), hv, Int.toNat_natCast,
    storeBytes_at (a := leBytes 4 b ++ leBytes 4 t) (b := leBytes 2 n) (x := leBytes 2 l) (c := body)
      (by simp [header]) (by simp) (by simp)]
  simp [header]

def endFill : ℕ → Bytes
  | 0 => []
  | k+1 => zipEnd :: List.replicate k 0

@[simp] theorem endFill_length (k : ℕ) : (endFill k).length = k := by
  cases k <;> simp [endFill]

theorem ziplistResize_grow {n : ℕ} (hn : 10+body.length+1 ≤ n) (hlt : n < 2^32) :
    ziplistResize (header b t l ++ (body ++ [zipEnd])) n =
      .ok (header n t l ++ (body ++ (endFill (n-(10+body.length+1)) ++ [zipEnd]))) := by
  have hlen : (header b t l ++ (body ++ [zipEnd])).length = 10+body.length+1 := by
    simp [ziplistHeaderSize]; omega
  rw [ziplistResize, if_pos hlt, reallocBytes_grow (by omega), hlen, List.append_assoc,
    setZiplistBytes_header n hlt, ok_bind]
  obtain ⟨k, hk⟩ : ∃ k, n = 10+body.length+1+k := ⟨n-(10+body.length+1), by omega⟩
  cases k with
  | zero =>
    rw [storeBytes_at (a := header n t l ++ body) (b := [zipEnd]) (x := [zipEnd]) (c := []) (by
      simp [hk]) (by simp [ziplistHeaderSize]; omega) rfl]
    simp [hk, endFill]
  | succ k =>
    rw [storeBytes_at (b := [zipEnd]) (a := header n t l ++ (body ++ (zipEnd :: List.replicate k 0)))
      (x := [0]) (c := []) (by
        simp [hk, List.replicate_succ'])
      (by simp [ziplistHeaderSize]; omega) rfl]
    simp [hk, endFill]

theorem ziplistResize_shrink {n : ℕ} {x : UInt8} {rest : Bytes} (hn : n = 10+body.length+1)
    (hlt : n < 2^32) : ziplistResize (header b t l ++ (body ++ x :: rest)) n =
      .ok (header n t l ++ (body ++ [zipEnd])) := by
  have htake : (header b t l ++ (body ++ x :: rest)).take n = header b t l ++ (body ++ [x]) := by
    have he : header b t l ++ (body ++ x :: rest) = (header b t l ++ (body ++ [x])) ++ rest := by
      simp
    rw [he, List.take_left' (by simp [ziplistHeaderSize]; omega)]
  rw [ziplistResize, if_pos hlt, reallocBytes_shrink (by simp [ziplistHeaderSize]; omega), htake,
    setZiplistBytes_header n hlt, ok_bind,
    storeBytes_at (a := header n t l ++ body) (b := [zipEnd]) (x := [x]) (c := []) (by simp)
      (by simp [ziplistHeaderSize]; omega) rfl]
  simp

theorem ziplistIncrLength_header (b t : ℕ) (body : Bytes) (incr : ℤ) {n m cnt : ℕ} (hc : CountOk n cnt)
    (hm : (m : ℤ) = n+incr) (hstep : m ≤ n+1) :
    ∃ cnt', CountOk m cnt' ∧
      ziplistIncrLength (header b t cnt ++ body) incr = .ok (header b t cnt' ++ body) := by
  have hlt : cnt < 2^16 := by rcases hc with ⟨rfl, h⟩ | rfl <;> simp only [uint16Max] at * <;> omega
  rw [ziplistIncrLength, ziplistLength_header hlt, ok_bind]
  rcases hc with ⟨rfl, h⟩ | rfl
  · rw [if_pos h]
    refine ⟨m, ?_, setZiplistLength_header _ m hm.symm (by simp [uint16Max] at h; omega)⟩
    rcases lt_or_ge m uint16Max with hm' | hm'
    · exact Or.inl ⟨rfl, hm'⟩
    · exact Or.inr (by simp [uint16Max] at *; omega)
  · exact ⟨uint16Max, Or.inr rfl, by simp [uint16Max]⟩

end Header

theorem zipDecodeLength_append_right (a c : Bytes) (k : ℕ) :
    zipDecodeLength (a ++ c) (a.length+k) = zipDecodeLength c k := by
  have h0 := loadByte_append_right (a := a) (b := c) (i := a.length+k) rfl
  have h1 := loadByte_append_right (a := a) (b := c) (i := a.length+k+1) (n := k+1) (by omega)
  have h4 := loadBytes_append_right (a := a) (b := c) (i := a.length+k+1) (n := 4) (k := k+1)
    (by omega)
  simp only [zipDecodeLength, h0, h1, h4]

theorem zipDecodeLength_append_left {a c : Bytes} {k : ℕ} {r : UInt8 × ℕ × ℕ}
    (h : zipDecodeLength a k = .ok r) : zipDecodeLength (a ++ c) k = .ok r := by
  obtain ⟨b, hb, h⟩ := except_bind_eq_ok.1 h
  rw [zipDecodeLength, loadByte_append_left hb, ok_bind]
  dsimp only at h ⊢
  split_ifs at h ⊢ with h1 h2 h3 h4
  all_goals first
    | exact h
    | (obtain ⟨x, hx, h⟩ := except_bind_eq_ok.1 h
       first
         | rw [loadByte_append_left hx]; exact h
         | rw [loadBytes_append_left hx]; exact h)

theorem zipDecodeLength_at {m a c body : Bytes} {p : ℕ} {r : UInt8 × ℕ × ℕ}
    (h : zipDecodeLength body 0 = .ok r) (hm : m = a ++ (body ++ c)) (hp : p = a.length) :
    zipDecodeLength m p = .ok r := by
  have hr := zipDecodeLength_append_right a (body ++ c) 0
  rw [hm, hp, ← Nat.add_zero a.length, hr]
  exact zipDecodeLength_append_left h

section AtEntry

variable {m a c : Bytes} {prev p : ℕ} {e : Entry}

theorem loadByte_entry (hn : e.wide = false → prev < zipBigPrevlen)
    (hm : m = a ++ (encodeEntry prev e ++ c)) (hp : p = a.length) :
    ∃ b, loadByte m p = .ok b ∧ b ≠ zipEnd ∧
      (if b.toNat < zipBigPrevlen then 1 else 5) = prevSize e.wide ∧
      (e.wide = false → b.toNat = prev) := by
  rcases e with ⟨w, body⟩
  cases w with
  | false =>
    have hlt : prev < 254 := hn rfl
    have hb : (UInt8.ofNat prev).toNat = prev := by
      rw [UInt8.toNat_ofNat', Nat.mod_eq_of_lt (by omega)]
    refine ⟨UInt8.ofNat prev, ?_, ?_, ?_, fun _ => hb⟩
    · exact loadByte_at (a := a) (c := body ++ c) (by simp [hm, encodeEntry, encodePrev]) hp
    · intro he
      have := congrArg UInt8.toNat he
      rw [hb] at this
      simp [zipEnd] at this
      omega
    · rw [hb]
      simp [prevSize, zipBigPrevlen, hlt]
  | true =>
    refine ⟨254, ?_, by decide, rfl, by simp⟩
    exact loadByte_at (a := a) (c := leBytes 4 prev ++ (body ++ c)) (by
      simp [hm, encodeEntry, encodePrev, zipStorePrevEntryLengthLarge, zipBigPrevlen]) hp

theorem zipDecodePrevlensize_entry (hn : e.wide = false → prev < zipBigPrevlen)
    (hm : m = a ++ (encodeEntry prev e ++ c)) (hp : p = a.length) :
    zipDecodePrevlensize m p = .ok (prevSize e.wide) := by
  obtain ⟨b, hb, -, hs, -⟩ := loadByte_entry hn hm hp
  rw [zipDecodePrevlensize, hb, ok_bind, hs, except_pure]

theorem zipDecodePrevlen_entry (hn : e.wide = false → prev < zipBigPrevlen) (hlt : prev < 2^32)
    (hm : m = a ++ (encodeEntry prev e ++ c)) (hp : p = a.length) :
    zipDecodePrevlen m p = .ok (prevSize e.wide, prev) := by
  obtain ⟨b, hb, -, -, hv⟩ := loadByte_entry hn hm hp
  rw [zipDecodePrevlen, zipDecodePrevlensize_entry hn hm hp, ok_bind]
  rcases e with ⟨w, body⟩
  cases w with
  | false => simp [prevSize, hb, hv rfl]
  | true =>
    rw [loadBytes_at (a := a ++ [254]) (b := leBytes 4 prev) (c := body ++ c) (by
        simp [hm, encodeEntry, encodePrev, zipStorePrevEntryLengthLarge, zipBigPrevlen])
      (by simp [hp]) (by simp)]
    simp [prevSize, leNat_leBytes_of_lt (w := 4) (n := prev) (by omega)]

theorem zipEntry_entry (hok : EntryOk prev e) (hlt : prev < 2^32)
    (hm : m = a ++ (encodeEntry prev e ++ c)) (hp : p = a.length) :
    ∃ z, zipEntry m p = .ok z ∧ z.prevrawlensize = prevSize e.wide ∧ z.prevrawlen = prev ∧
      z.headersize+z.len = e.rawlen ∧ z.p = p := by
  obtain ⟨encoding, lensize, len, hd, hl⟩ := hok.body
  rw [zipEntry, zipDecodePrevlen_entry hok.narrow hlt hm hp, ok_bind]
  dsimp only
  rw [zipDecodeLength_at (a := a ++ encodePrev e.wide prev) (c := c) hd
    (by simp [hm, encodeEntry]) (by simp [hp])]
  refine ⟨_, rfl, rfl, rfl, ?_, rfl⟩
  simp only [Entry.rawlen]
  omega

theorem zipRawEntryLength_entry (hok : EntryOk prev e) (hraw : e.rawlen < 2^32)
    (hm : m = a ++ (encodeEntry prev e ++ c)) (hp : p = a.length) :
    zipRawEntryLength m p = .ok e.rawlen := by
  obtain ⟨encoding, lensize, len, hd, hl⟩ := hok.body
  rw [zipRawEntryLength, zipDecodePrevlensize_entry hok.narrow hm hp, ok_bind,
    zipDecodeLength_at (a := a ++ encodePrev e.wide prev) (c := c) hd
      (by simp [hm, encodeEntry]) (by simp [hp])]
  have hr : prevSize e.wide+lensize+len = e.rawlen := by simp only [Entry.rawlen]; omega
  simp only [ok_bind, except_pure, hr, u32, Nat.mod_eq_of_lt hraw]

end AtEntry

end RedisCore.Ziplist
