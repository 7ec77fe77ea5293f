import RedisCore.ZipmapModel

namespace RedisCore.Zipmap
open List (append_assoc length_append length_cons length_nil mem_cons_self)
open UInt8 (ofNat toNat_ofNat')

structure Entry where
  key : Bytes
  val : Bytes
  free : Bytes

def Entry.binding (e : Entry) : Bytes × Bytes := (e.key, e.val)

def encodeEntry (e : Entry) : Bytes :=
  encodedLength e.key.length ++ (e.key ++ (encodedLength e.val.length ++
    (ofNat e.free.length :: (e.val ++ e.free))))

def encodeEntries (es : List Entry) : Bytes := es.flatMap encodeEntry

def blob (cnt : UInt8) (es : List Entry) : Bytes := cnt :: (encodeEntries es ++ [zipmapEnd])

structure EntryOk (e : Entry) : Prop where
  key : e.key.length < 2^32
  val : e.val.length < 2^32
  free : e.free.length < 4

def CountOk (cnt : UInt8) (n : ℕ) : Prop := (cnt.toNat = n ∧ n < zipmapBiglen) ∨ cnt = 254

@[simp] theorem encodeEntries_nil : encodeEntries [] = [] := rfl

@[simp] theorem encodeEntries_cons (e : Entry) (es : List Entry) :
    encodeEntries (e :: es) = encodeEntry e ++ encodeEntries es := rfl

@[simp] theorem encodeEntries_append (xs ys : List Entry) :
    encodeEntries (xs ++ ys) = encodeEntries xs ++ encodeEntries ys := by simp [encodeEntries]

@[simp] theorem encodedLength_length (l : ℕ) : (encodedLength l).length = zipmapLenBytes l := by
  rw [encodedLength, zipmapLenBytes]
  split_ifs <;> simp

theorem encodeEntry_length (e : Entry) : (encodeEntry e).length =
    zipmapRequiredLength e.key.length e.val.length+e.free.length := by
  simp only [encodeEntry, zipmapRequiredLength, length_append, length_cons,
    encodedLength_length, zipmapLenBytes]
  split_ifs <;> omega

theorem encodeEntry_pos (e : Entry) : 0 < (encodeEntry e).length := by
  rw [encodeEntry_length, zipmapRequiredLength]
  omega

theorem length_le_encodeEntries (es : List Entry) : es.length ≤ (encodeEntries es).length := by
  induction es with
  | nil => exact le_rfl
  | cons e es ih =>
    have hpos := encodeEntry_pos e
    rw [encodeEntries_cons, length_append, length_cons]
    omega

theorem blob_length (cnt : UInt8) (es : List Entry) :
    (blob cnt es).length = (encodeEntries es).length+2 := by simp [blob]

section Readers

variable {m a c : Bytes} {p l : ℕ} {e : Entry}

theorem zipmapDecodeLength_at (hl : l < 2^32) (hm : m = a ++ (encodedLength l ++ c))
    (hp : p = a.length) : zipmapDecodeLength m p = .ok l := by
  rw [encodedLength] at hm
  rw [zipmapDecodeLength]
  split_ifs at hm with hsmall
  · have hbyte : (ofNat l).toNat = l := by
      rw [toNat_ofNat']
      exact Nat.mod_eq_of_lt (lt_trans hsmall (by decide))
    rw [loadByte_at hm hp, ok_bind, hbyte, if_pos hsmall]
  · have hlen : m = (a ++ [ofNat zipmapBiglen]) ++ (leBytes 4 l ++ c) := by
      rw [hm]
      simp
    rw [loadByte_at hm hp, ok_bind, if_neg (by decide),
      loadBytes_at hlen (by simp [hp]) (leBytes_length 4 l).symm, ok_bind,
      leNat_leBytes_of_lt (by omega)]

theorem encodedLength_head (hm : m = a ++ (encodedLength l ++ c)) (hp : p = a.length) :
    ∃ b, loadByte m p = .ok b ∧ b ≠ zipmapEnd := by
  rw [encodedLength] at hm
  split_ifs at hm with hsmall
  · refine ⟨ofNat l, loadByte_at hm hp, fun heq => ?_⟩
    have hnat := congrArg UInt8.toNat heq
    rw [toNat_ofNat', Nat.mod_eq_of_lt (lt_trans hsmall (by decide))] at hnat
    rw [hnat] at hsmall
    exact absurd hsmall (by decide)
  · exact ⟨ofNat zipmapBiglen, loadByte_at hm hp, by decide⟩

def valuePart (e : Entry) : Bytes :=
  encodedLength e.val.length ++ (ofNat e.free.length :: (e.val ++ e.free))

def keyPart (e : Entry) : Bytes := encodedLength e.key.length ++ e.key

theorem encodeEntry_eq (e : Entry) : encodeEntry e = keyPart e ++ valuePart e := by
  simp [encodeEntry, keyPart, valuePart]

theorem keyPart_length (e : Entry) :
    (keyPart e).length = zipmapLenBytes e.key.length+e.key.length := by simp [keyPart]

theorem valuePart_length (e : Entry) : (valuePart e).length =
    zipmapLenBytes e.val.length+e.free.length+1+e.val.length := by
  simp only [valuePart, length_append, length_cons, encodedLength_length]
  omega

theorem freeByte_toNat (he : EntryOk e) : (ofNat e.free.length).toNat = e.free.length := by
  have hfree := he.free
  rw [toNat_ofNat', Nat.mod_eq_of_lt (by omega)]

theorem zipmapDecodeLength_key (he : EntryOk e) (hm : m = a ++ (encodeEntry e ++ c))
    (hp : p = a.length) : zipmapDecodeLength m p = .ok e.key.length := by
  apply zipmapDecodeLength_at he.key (c := e.key ++ (valuePart e ++ c)) _ hp
  rw [hm, encodeEntry_eq, keyPart]
  simp

theorem loadBytes_key (hm : m = a ++ (encodeEntry e ++ c)) (hp : p = a.length) :
    loadBytes m (p+zipmapLenBytes e.key.length) e.key.length = .ok e.key := by
  have hm' : m = (a ++ encodedLength e.key.length) ++ (e.key ++ (valuePart e ++ c)) := by
    rw [hm, encodeEntry_eq, keyPart]
    simp
  exact loadBytes_at hm' (by simp [hp]) rfl

theorem zipmapRawKeyLength_at (he : EntryOk e) (hm : m = a ++ (encodeEntry e ++ c))
    (hp : p = a.length) : zipmapRawKeyLength m p = .ok (keyPart e).length := by
  rw [zipmapRawKeyLength, zipmapDecodeLength_key he hm hp, ok_bind, keyPart_length]

theorem split_value (hm : m = a ++ (encodeEntry e ++ c)) :
    m = (a ++ keyPart e) ++ (encodedLength e.val.length ++
      (ofNat e.free.length :: (e.val ++ (e.free ++ c)))) := by
  rw [hm, encodeEntry_eq, valuePart]
  simp

theorem zipmapDecodeLength_value (he : EntryOk e) (hm : m = a ++ (encodeEntry e ++ c))
    (hp : p = a.length+(keyPart e).length) : zipmapDecodeLength m p = .ok e.val.length :=
  zipmapDecodeLength_at he.val (split_value hm) (by rw [hp, length_append])

theorem loadByte_free (hm : m = a ++ (encodeEntry e ++ c))
    (hp : p = a.length+(keyPart e).length) :
    loadByte m (p+zipmapLenBytes e.val.length) = .ok (ofNat e.free.length) := by
  have hm' : m = ((a ++ keyPart e) ++ encodedLength e.val.length) ++
      ofNat e.free.length :: (e.val ++ (e.free ++ c)) := by
    rw [split_value hm]
    simp
  exact loadByte_at hm' (by simp [hp, Nat.add_assoc])

theorem loadBytes_value (hm : m = a ++ (encodeEntry e ++ c))
    (hp : p = a.length+(keyPart e).length) :
    loadBytes m (p+1+zipmapLenBytes e.val.length) e.val.length = .ok e.val := by
  have hm' : m = (((a ++ keyPart e) ++ encodedLength e.val.length) ++
      [ofNat e.free.length]) ++ (e.val ++ (e.free ++ c)) := by
    rw [split_value hm]
    simp
  refine loadBytes_at hm' ?_ rfl
  simp only [length_append, encodedLength_length, length_cons, length_nil, hp]
  omega

theorem zipmapRawValueLength_at (he : EntryOk e) (hm : m = a ++ (encodeEntry e ++ c))
    (hp : p = a.length+(keyPart e).length) :
    zipmapRawValueLength m p = .ok (valuePart e).length := by
  rw [zipmapRawValueLength, zipmapDecodeLength_value he hm hp, ok_bind,
    loadByte_free hm hp, ok_bind, freeByte_toNat he, valuePart_length]

theorem zipmapRawEntryLength_at (he : EntryOk e) (hm : m = a ++ (encodeEntry e ++ c))
    (hp : p = a.length) : zipmapRawEntryLength m p = .ok (encodeEntry e).length := by
  rw [zipmapRawEntryLength, zipmapRawKeyLength_at he hm hp, ok_bind,
    zipmapRawValueLength_at he hm (by rw [hp]), ok_bind, encodeEntry_eq,
    length_append]

theorem loadByte_entry (hm : m = a ++ (encodeEntry e ++ c)) (hp : p = a.length) :
    ∃ b, loadByte m p = .ok b ∧ b ≠ zipmapEnd := by
  have hm' : m = a ++ (encodedLength e.key.length ++ (e.key ++ (valuePart e ++ c))) := by
    rw [hm, encodeEntry_eq, keyPart]
    simp
  exact encodedLength_head hm' hp

theorem zipmapNext_entry (he : EntryOk e) (hm : m = a ++ (encodeEntry e ++ c))
    (hp : p = a.length) :
    zipmapNext m p = .ok (some (p+(encodeEntry e).length, e.key, e.val)) := by
  obtain ⟨b, hb, hne⟩ := loadByte_entry hm hp
  have hq : p+(keyPart e).length = a.length+(keyPart e).length := by rw [hp]
  rw [zipmapNext, hb, ok_bind, if_neg hne, zipmapDecodeLength_key he hm hp, ok_bind,
    loadBytes_key hm hp, ok_bind, zipmapRawKeyLength_at he hm hp, ok_bind]
  dsimp only
  rw [zipmapDecodeLength_value he hm hq, ok_bind, loadBytes_value hm hq, ok_bind,
    zipmapRawValueLength_at he hm hq, ok_bind, encodeEntry_eq, length_append,
    Nat.add_assoc]

theorem zipmapNext_end (hm : m = a ++ [zipmapEnd]) (hp : p = a.length) :
    zipmapNext m p = .ok none := by
  rw [zipmapNext, loadByte_at hm hp, ok_bind, if_pos rfl]

end Readers

def scan (key : Option Bytes) (totlen : Bool) : List Entry → ℕ → Option ℕ → Option ℕ × ℕ
  | [], p, k => (k, p+1)
  | e :: es, p, k =>
    if key = some e.key ∧ k = none then
      if totlen = false then (some p, 0)
      else scan key totlen es (p+(encodeEntry e).length) (some p)
    else scan key totlen es (p+(encodeEntry e).length) k

theorem matchesKey_entry {m a c : Bytes} {p : ℕ} {e : Entry} (key : Option Bytes) (k : Option ℕ)
    (hm : m = a ++ (encodeEntry e ++ c)) (hp : p = a.length) :
    matchesKey m key k (p+zipmapLenBytes e.key.length) e.key.length =
      .ok (decide (key = some e.key ∧ k = none)) := by
  cases key with
  | none => simp [matchesKey]
  | some key =>
    rw [matchesKey]
    by_cases hcond : k = none ∧ e.key.length = key.length
    · rw [if_pos hcond, loadBytes_key hm hp, ok_bind]
      simp [hcond.1, eq_comm]
    · rw [if_neg hcond]
      refine congrArg Except.ok (decide_eq_false fun h => hcond ⟨h.2, ?_⟩).symm
      rw [Option.some.inj h.1]

theorem lookupLoop_scan {m a : Bytes} {es : List Entry} {fuel : ℕ} (key : Option Bytes)
    (totlen : Bool) (k : Option ℕ) (hok : ∀ e ∈ es, EntryOk e)
    (hm : m = a ++ (encodeEntries es ++ [zipmapEnd])) (hfuel : es.length < fuel) :
    lookupLoop m key totlen fuel a.length k = .ok (scan key totlen es a.length k) := by
  induction es generalizing a fuel k with
  | nil =>
    obtain ⟨fuel, rfl⟩ : ∃ f, fuel = f+1 := ⟨fuel-1, by rw [length_nil] at hfuel; omega⟩
    rw [lookupLoop, loadByte_at hm rfl, ok_bind, if_pos rfl, scan]
  | cons e es ih =>
    obtain ⟨fuel, rfl⟩ : ∃ f, fuel = f+1 := ⟨fuel-1, by rw [length_cons] at hfuel; omega⟩
    have he := hok e mem_cons_self
    have hm1 : m = a ++ (encodeEntry e ++ (encodeEntries es ++ [zipmapEnd])) := by
      rw [hm, encodeEntries_cons, append_assoc]
    have hm2 : m = (a ++ encodeEntry e) ++ (encodeEntries es ++ [zipmapEnd]) := by
      rw [hm1, append_assoc]
    have hrest (k' : Option ℕ) := ih k' (fun e he => hok e (List.mem_cons_of_mem _ he)) hm2
      (Nat.lt_of_succ_lt_succ hfuel)
    rw [length_append] at hrest
    obtain ⟨b, hb, hne⟩ := loadByte_entry hm1 rfl
    have hq : a.length+zipmapLenBytes e.key.length+e.key.length = a.length+(keyPart e).length := by
      rw [keyPart_length, Nat.add_assoc]
    have hnext : a.length+(keyPart e).length+zipmapLenBytes e.val.length+e.val.length+1+
        (ofNat e.free.length).toNat = a.length+(encodeEntry e).length := by
      rw [freeByte_toNat he, encodeEntry_eq, length_append, valuePart_length]
      omega
    rw [lookupLoop, hb, ok_bind, if_neg hne, zipmapDecodeLength_key he hm1 rfl,
      ok_bind, matchesKey_entry key k hm1 rfl, ok_bind, scan]
    dsimp only
    rw [hq, zipmapDecodeLength_value he hm1 rfl, ok_bind, loadByte_free hm1 rfl,
      ok_bind, hnext]
    by_cases hhit : key = some e.key ∧ k = none
    · simp only [hhit, and_self, decide_true, if_true, true_and]
      by_cases htot : totlen = false
      · rw [if_pos htot, if_pos htot]
      · rw [if_neg htot, if_neg htot]
        have h := hrest (some a.length)
        rw [hhit.1] at h
        exact h
    · simp only [hhit, decide_false, Bool.false_eq_true, if_false, false_and]
      exact hrest k

theorem scan_found {es : List Entry} {key : Option Bytes} (p q : ℕ) :
    scan key true es p (some q) = (some q, p+(encodeEntries es).length+1) := by
  induction es generalizing p with
  | nil => rfl
  | cons e es ih =>
    rw [scan, if_neg (by simp), ih]
    simp [Nat.add_assoc]

theorem scan_skip {xs : List Entry} {key : Option Bytes} (totlen : Bool) (ys : List Entry) (p : ℕ)
    (hxs : ∀ e ∈ xs, key ≠ some e.key) : scan key totlen (xs ++ ys) p none =
      scan key totlen ys (p+(encodeEntries xs).length) none := by
  induction xs generalizing p with
  | nil => rfl
  | cons e xs ih =>
    have hne := hxs e mem_cons_self
    rw [List.cons_append, scan, if_neg fun h => hne h.1,
      ih _ fun e he => hxs e (List.mem_cons_of_mem _ he), encodeEntries_cons, length_append,
      Nat.add_assoc]

theorem scan_missing {es : List Entry} {key : Option Bytes} {totlen : Bool} (p : ℕ)
    (hes : ∀ e ∈ es, key ≠ some e.key) :
    scan key totlen es p none = (none, p+(encodeEntries es).length+1) := by
  have h := scan_skip totlen [] p hes
  rwa [List.append_nil] at h

theorem scan_hit {xs ys : List Entry} {e : Entry} (totlen : Bool) (p : ℕ)
    (hxs : ∀ x ∈ xs, x.key ≠ e.key) :
    scan (some e.key) totlen (xs ++ e :: ys) p none = (some (p+(encodeEntries xs).length),
      if totlen then p+(encodeEntries (xs ++ e :: ys)).length+1 else 0) := by
  rw [scan_skip _ _ _ fun x hx heq => hxs x hx (Option.some.inj heq).symm, scan, if_pos ⟨rfl, rfl⟩]
  cases totlen with
  | false => rfl
  | true =>
    rw [if_neg (by decide), scan_found, encodeEntries_append, encodeEntries_cons, length_append,
      length_append, if_pos rfl]
    simp only [Nat.add_assoc]

theorem zipmapLookupRaw_blob {cnt : UInt8} {es : List Entry} (key : Option Bytes) (totlen : Bool)
    (hok : ∀ e ∈ es, EntryOk e) :
    zipmapLookupRaw (blob cnt es) key totlen = .ok (scan key totlen es 1 none) := by
  have hlen := length_le_encodeEntries es
  exact lookupLoop_scan key totlen none hok (show blob cnt es = [cnt] ++ _ from rfl)
    (by rw [blob_length]; omega)

theorem bindingsFrom_at {m a : Bytes} {es : List Entry} {fuel : ℕ} (hok : ∀ e ∈ es, EntryOk e)
    (hm : m = a ++ (encodeEntries es ++ [zipmapEnd])) (hfuel : es.length < fuel) :
    bindingsFrom m fuel a.length = .ok (es.map Entry.binding) := by
  induction es generalizing a fuel with
  | nil =>
    obtain ⟨fuel, rfl⟩ : ∃ f, fuel = f+1 := ⟨fuel-1, by rw [length_nil] at hfuel; omega⟩
    rw [bindingsFrom, zipmapNext_end hm rfl]
    rfl
  | cons e es ih =>
    obtain ⟨fuel, rfl⟩ : ∃ f, fuel = f+1 := ⟨fuel-1, by rw [length_cons] at hfuel; omega⟩
    have hm1 : m = a ++ (encodeEntry e ++ (encodeEntries es ++ [zipmapEnd])) := by
      rw [hm, encodeEntries_cons, append_assoc]
    have hm2 : m = (a ++ encodeEntry e) ++ (encodeEntries es ++ [zipmapEnd]) := by
      rw [hm1, append_assoc]
    have hrest := ih (fun e he => hok e (List.mem_cons_of_mem _ he)) hm2
      (Nat.lt_of_succ_lt_succ hfuel)
    rw [length_append] at hrest
    rw [bindingsFrom, zipmapNext_entry (hok e mem_cons_self) hm1 rfl, ok_bind]
    dsimp only
    rw [hrest]
    rfl

structure Holds (zm : Bytes) (es : List Entry) : Prop where
  entries : ∀ e ∈ es, EntryOk e
  keys : (es.map Entry.key).Nodup
  size : zm.length < 2^32
  layout : ∃ cnt, CountOk cnt es.length ∧ zm = blob cnt es

variable {zm key : Bytes} {es xs ys : List Entry} {e : Entry}

theorem zipmapNew_holds : Holds zipmapNew [] where
  entries := by simp
  keys := List.nodup_nil
  size := by decide
  layout := ⟨0, Or.inl ⟨rfl, by decide⟩, rfl⟩

theorem find_key (es : List Entry) (key : Bytes) : (∀ e ∈ es, e.key ≠ key) ∨
    ∃ xs e ys, es = xs ++ e :: ys ∧ e.key = key := by
  by_cases h : ∃ e ∈ es, e.key = key
  · obtain ⟨e, he, hkey⟩ := h
    obtain ⟨xs, ys, hes⟩ := List.append_of_mem he
    exact Or.inr ⟨xs, e, ys, hes, hkey⟩
  · exact Or.inl fun e he hkey => h ⟨e, he, hkey⟩

theorem Holds.other (h : Holds zm (xs ++ e :: ys)) :
    (∀ x ∈ xs, x.key ≠ e.key) ∧ ∀ y ∈ ys, y.key ≠ e.key := by
  have hkeys := h.keys
  rw [List.map_append, List.map_cons, List.nodup_append] at hkeys
  obtain ⟨-, htail, hdisjoint⟩ := hkeys
  refine ⟨fun x hx => ?_, fun y hy heq => ?_⟩
  · exact hdisjoint _ (List.mem_map_of_mem hx) _ mem_cons_self
  · exact (List.nodup_cons.1 htail).1 (heq ▸ List.mem_map_of_mem hy)

theorem zipmapBlobLen_holds (h : Holds zm es) : zipmapBlobLen zm = .ok zm.length := by
  obtain ⟨cnt, -, rfl⟩ := h.layout
  rw [zipmapBlobLen, zipmapLookupRaw_blob none true h.entries, scan_missing 1 (by simp),
    ok_bind, blob_length]
  dsimp only
  refine congrArg Except.ok ?_
  omega

theorem zipmapBindings_holds (h : Holds zm es) :
    zipmapBindings zm = .ok (es.map Entry.binding) := by
  obtain ⟨cnt, -, rfl⟩ := h.layout
  have hlen := length_le_encodeEntries es
  exact bindingsFrom_at h.entries (show blob cnt es = [cnt] ++ _ from rfl)
    (by rw [blob_length]; omega)

theorem zipmapGet_missing (h : Holds zm es) (hkey : ∀ e ∈ es, e.key ≠ key) :
    zipmapGet zm key = .ok none := by
  obtain ⟨cnt, -, rfl⟩ := h.layout
  rw [zipmapGet, zipmapLookupRaw_blob (some key) false h.entries,
    scan_missing 1 fun e he heq => hkey e he (Option.some.inj heq).symm]
  rfl

theorem zipmapGet_found (h : Holds zm (xs ++ e :: ys)) : zipmapGet zm e.key = .ok (some e.val) := by
  obtain ⟨hother, -⟩ := h.other
  obtain ⟨cnt, -, hzm⟩ := h.layout
  have hm : zm = (cnt :: encodeEntries xs) ++ (encodeEntry e ++ (encodeEntries ys ++ [zipmapEnd])) := by
    rw [hzm, blob]
    simp
  have he := h.entries e (List.mem_append_right _ mem_cons_self)
  have hp : 1+(encodeEntries xs).length = (cnt :: encodeEntries xs).length := by
    rw [length_cons, Nat.add_comm]
  have hval : loadBytes zm ((cnt :: encodeEntries xs).length+(keyPart e).length+
      zipmapLenBytes e.val.length+1) e.val.length = .ok e.val := by
    rw [Nat.add_right_comm]
    exact loadBytes_value hm rfl
  rw [zipmapGet]
  rw [hzm, zipmapLookupRaw_blob (some e.key) false h.entries, scan_hit false 1 hother, ← hzm,
    ok_bind, hp]
  dsimp only
  rw [zipmapRawKeyLength_at he hm rfl, ok_bind, zipmapDecodeLength_value he hm rfl, ok_bind, hval]
  rfl

theorem zipmapExists_missing (h : Holds zm es) (hkey : ∀ e ∈ es, e.key ≠ key) :
    zipmapExists zm key = .ok false := by
  obtain ⟨cnt, -, rfl⟩ := h.layout
  rw [zipmapExists, zipmapLookupRaw_blob (some key) false h.entries,
    scan_missing 1 fun e he heq => hkey e he (Option.some.inj heq).symm]
  rfl

theorem zipmapExists_found (h : Holds zm (xs ++ e :: ys)) : zipmapExists zm e.key = .ok true := by
  obtain ⟨hother, -⟩ := h.other
  obtain ⟨cnt, -, rfl⟩ := h.layout
  rw [zipmapExists, zipmapLookupRaw_blob (some e.key) false h.entries, scan_hit false 1 hother]
  rfl

theorem zipmapLen_holds (h : Holds zm es) :
    ∃ zm', zipmapLen zm = .ok (es.length, zm') ∧ Holds zm' es := by
  obtain ⟨cnt, hcnt, hzm⟩ := h.layout
  have hload : loadByte zm 0 = .ok cnt := by
    rw [hzm]
    rfl
  rw [zipmapLen, hload, ok_bind]
  rcases hcnt with ⟨hexact, hsmall⟩ | rfl
  · rw [hexact, if_pos hsmall]
    exact ⟨zm, rfl, h⟩
  · rw [if_neg (by decide), zipmapBindings_holds h, ok_bind, List.length_map]
    dsimp only
    by_cases hsmall : es.length < zipmapBiglen
    · have hstore : storeBytes zm 0 [ofNat es.length] =
          .ok (blob (ofNat es.length) es) :=
        storeBytes_at (a := []) (x := [254]) (by rw [hzm]; rfl) rfl rfl
      have hbyte : (ofNat es.length).toNat = es.length := by
        rw [toNat_ofNat']
        exact Nat.mod_eq_of_lt (lt_trans hsmall (by decide))
      rw [if_pos hsmall, hstore]
      refine ⟨_, rfl, h.entries, h.keys, ?_, _, Or.inl ⟨hbyte, hsmall⟩, rfl⟩
      have hsize := h.size
      rw [hzm, blob_length] at hsize
      rw [blob_length]
      exact hsize
    · rw [if_neg hsmall]
      exact ⟨zm, rfl, h⟩

end RedisCore.Zipmap
