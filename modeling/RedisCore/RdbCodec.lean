import RedisCore.RdbModel

namespace RedisCore.Rdb
open List (append_assoc cons_append replicate)
open UInt8 (ofNat)

variable {lzf : Lzf} {junk : ℕ → UInt8} {flags : LoadFlags} {rest : Bytes}

variable {n len : ℕ} {v : ℤ} {buf s t : Bytes} {items : List RdbItem} {values : List RdbValue}

theorem rioRead_append {a : Bytes} (h : a.length = n) (rest : Bytes) :
    rioRead (a ++ rest) n = .ok (a, rest) := by
  unfold rioRead
  rw [← h, if_pos (by simp), List.take_left, List.drop_left]

theorem rioRead_cons (b : UInt8) (rest : Bytes) : rioRead (b :: rest) 1 = .ok ([b], rest) :=
  rioRead_append (a := [b]) rfl rest

theorem ofNat_toNat_of_lt (h : n < 256) : (ofNat n).toNat = n := by
  rw [UInt8.toNat_ofNat', Nat.mod_eq_of_lt h]

theorem mark14_toNat (h : n < 64) :
    (ofNat n ||| ofNat (rdb14bitLen * 64)).toNat = 64 + n := by
  have hall : ∀ n < 64, (ofNat n ||| ofNat (rdb14bitLen * 64)).toNat = 64 + n := by
    decide
  exact hall n h

theorem rdbLoadLenByRef_cons (b : UInt8) (rest : Bytes) :
    rdbLoadLenByRef (b :: rest) =
      if b.toNat / 64 = rdbEncVal then .ok (true, b.toNat % 64, rest)
      else if b.toNat / 64 = 0 then .ok (false, b.toNat % 64, rest)
      else if b.toNat / 64 = rdb14bitLen then do
        let (low, rest) ← rioRead rest 1
        .ok (false, b.toNat % 64 * 256 + (low.headD 0).toNat, rest)
      else if b.toNat = rdb32bitLen.toNat then do
        let (len, rest) ← rioRead rest 4
        .ok (false, beNat len, rest)
      else if b.toNat = rdb64bitLen.toNat then do
        let (len, rest) ← rioRead rest 8
        .ok (false, beNat len, rest)
      else .error .corrupt := by
  unfold rdbLoadLenByRef
  rw [rioRead_cons, ok_bind]
  rfl

theorem rdbLoadLenByRef_saved (h : len < 2^64) (rest : Bytes) :
    rdbLoadLenByRef (rdbSaveLen len ++ rest) = .ok (false, len, rest) := by
  unfold rdbSaveLen
  by_cases h6 : len < 2^6
  · have hb : (ofNat len).toNat = len := ofNat_toNat_of_lt (by omega)
    rw [if_pos h6, cons_append, List.nil_append, rdbLoadLenByRef_cons, hb,
      if_neg (by unfold rdbEncVal; omega), if_pos (by omega), Nat.mod_eq_of_lt (show len < 64 by omega)]
  · rw [if_neg h6]
    by_cases h14 : len < 2^14
    · have hb := mark14_toNat (n := len / 256) (by omega)
      have hlow : (ofNat len).toNat = len % 256 := UInt8.toNat_ofNat'
      have hlen : (64 + len / 256) % 64 * 256 + len % 256 = len := by omega
      rw [if_pos h14, cons_append, cons_append, List.nil_append, rdbLoadLenByRef_cons, hb,
        if_neg (by unfold rdbEncVal; omega), if_neg (by omega), if_pos (by unfold rdb14bitLen; omega),
        rioRead_cons, ok_bind]
      dsimp only
      rw [List.headD_cons, hlow, hlen]
    · rw [if_neg h14]
      by_cases h32 : len ≤ 2^32 - 1
      · have hlen : beNat (beBytes 4 len) = len := beNat_beBytes_of_lt (by omega)
        rw [if_pos h32, cons_append, rdbLoadLenByRef_cons, if_neg (by decide), if_neg (by decide),
          if_neg (by decide), if_pos rfl, rioRead_append (beBytes_length 4 len), ok_bind]
        dsimp only
        rw [hlen]
      · have hlen : beNat (beBytes 8 len) = len := beNat_beBytes_of_lt (by omega)
        rw [if_neg h32, cons_append, rdbLoadLenByRef_cons, if_neg (by decide), if_neg (by decide),
          if_neg (by decide), if_neg (by decide), if_pos rfl, rioRead_append (beBytes_length 8 len),
          ok_bind]
        dsimp only
        rw [hlen]

theorem rdbLoadLen_saved (h : len < 2^64 - 1) (rest : Bytes) :
    rdbLoadLen (rdbSaveLen len ++ rest) = .ok (false, len, rest) := by
  unfold rdbLoadLen
  rw [rdbLoadLenByRef_saved (by omega), ok_bind]
  dsimp only
  rw [if_neg (by omega)]

theorem rdbLoadLen_encoded {enctype : ℕ} (h : enctype < 64) (rest : Bytes) :
    rdbLoadLen (ofNat (rdbEncVal * 64 + enctype) :: rest) = .ok (true, enctype, rest) := by
  have hb : (ofNat (rdbEncVal * 64 + enctype)).toNat = 192 + enctype :=
    ofNat_toNat_of_lt (by unfold rdbEncVal; omega)
  have hlow : (192 + enctype) % 64 = enctype := by omega
  unfold rdbLoadLen
  rw [rdbLoadLenByRef_cons, hb, if_pos (by unfold rdbEncVal; omega), hlow, ok_bind]
  dsimp only
  rw [if_neg (by simp)]

theorem strtol_range (s : Bytes) : -2^63 ≤ strtol s ∧ strtol s < 2^63 := by
  unfold strtol
  split
  · norm_num
  · split_ifs <;> omega

theorem llText_ok (hlo : -2^63 ≤ v) (hhi : v < 2^63) {size : ℕ} (hsize : 21 ≤ size) :
    llText size v = .ok (decimal v) := by
  obtain ⟨-, hmax⟩ := decimal_length hlo hhi
  obtain ⟨tail, htext⟩ := ll2string_spec hlo hhi (replicate size 0)
    (by rw [List.length_replicate]; omega)
  unfold llText
  rw [htext]
  dsimp only
  rw [List.take_left]

theorem integerObject_text (hlo : -2^63 ≤ v) (hhi : v < 2^63) (flags : LoadFlags) :
    ∃ l, integerObject v flags = .ok l ∧ l.text = decimal v := by
  unfold integerObject
  rw [llText_ok hlo hhi (by norm_num), ok_bind]
  cases flags.plain with
  | true => exact ⟨.plain (decimal v), rfl, rfl⟩
  | false =>
    cases flags.sds with
    | true => exact ⟨.sds (decimal v), rfl, rfl⟩
    | false =>
      cases flags.encode with
      | true => exact ⟨.int v, rfl, rfl⟩
      | false => exact ⟨.raw (decimal v), rfl, rfl⟩

theorem rdbEncodeInteger_some (h : rdbEncodeInteger v = some buf) (rest : Bytes) :
    (-2^31 ≤ v ∧ v < 2^31) ∧ ∃ enctype bytes, enctype ≤ rdbEncInt32 ∧
      buf = ofNat (rdbEncVal * 64 + enctype) :: bytes ∧
      loadInteger (bytes ++ rest) enctype = .ok (v, rest) := by
  unfold rdbEncodeInteger at h
  split_ifs at h with h8 h16 h32
  · cases h
    have hsigned := toSigned_toUnsigned 8 (by norm_num) v (by norm_num; omega) (by norm_num; omega)
    have hlt := toUnsigned_lt 8 v
    refine ⟨by omega, rdbEncInt8, _, by decide, rfl, ?_⟩
    simp only [loadInteger, if_true, rioRead_append (leBytes_length 1 _) rest, ok_bind,
      leNat_leBytes_of_lt (w := 1) (by omega), hsigned]
  · cases h
    have hsigned := toSigned_toUnsigned 16 (by norm_num) v (by norm_num; omega) (by norm_num; omega)
    have hlt := toUnsigned_lt 16 v
    refine ⟨by omega, rdbEncInt16, _, by decide, rfl, ?_⟩
    have hother : rdbEncInt16 ≠ rdbEncInt8 := by decide
    simp only [loadInteger, if_neg hother, if_true, rioRead_append (leBytes_length 2 _) rest,
      ok_bind, leNat_leBytes_of_lt (w := 2) (by omega), hsigned]
  · cases h
    have hsigned := toSigned_toUnsigned 32 (by norm_num) v (by norm_num; omega) (by norm_num; omega)
    have hlt := toUnsigned_lt 32 v
    refine ⟨by omega, rdbEncInt32, _, by decide, rfl, ?_⟩
    have hother : rdbEncInt32 ≠ rdbEncInt8 ∧ rdbEncInt32 ≠ rdbEncInt16 := by decide
    simp only [loadInteger, if_neg hother.1, if_neg hother.2, if_true,
      rioRead_append (leBytes_length 4 _) rest, ok_bind, leNat_leBytes_of_lt (w := 4) (by omega),
      hsigned]

theorem integer_loads (h : rdbEncodeInteger v = some buf) (lzf : Lzf)
    (junk : ℕ → UInt8) (flags : LoadFlags) (rest : Bytes) :
    ∃ l, rdbGenericLoadStringObject lzf junk (buf ++ rest) flags = .ok (l, rest) ∧
      l.text = decimal v := by
  obtain ⟨hrange, enctype, bytes, htype, hbuf, hload⟩ := rdbEncodeInteger_some h rest
  obtain ⟨l, hl, htext⟩ := integerObject_text (show -2^63 ≤ v by omega) (by omega) flags
  have hsmall : enctype = rdbEncInt8 ∨ enctype = rdbEncInt16 ∨ enctype = rdbEncInt32 := by
    unfold rdbEncInt8 rdbEncInt16 rdbEncInt32 at *
    omega
  refine ⟨l, ?_, htext⟩
  rw [hbuf, cons_append]
  unfold rdbGenericLoadStringObject
  rw [rdbLoadLen_encoded (by unfold rdbEncInt32 at htype; omega), ok_bind]
  dsimp only
  rw [if_pos rfl, if_pos hsmall]
  unfold rdbLoadIntegerObject
  rw [hload, ok_bind]
  dsimp only
  rw [hl, ok_bind]

theorem rdbTryIntegerEncoding_ok (s after : Bytes) :
    ∃ enc, rdbTryIntegerEncoding s after = .ok enc ∧
      ∀ buf, enc = some buf → ∃ v, decimal v = s ∧ rdbEncodeInteger v = some buf := by
  unfold rdbTryIntegerEncoding
  by_cases hend : (strtolEnd (s ++ after)).headD 0 ≠ 0
  · rw [if_pos hend]
    exact ⟨none, rfl, fun _ hbuf => by cases hbuf⟩
  · obtain ⟨hlo, hhi⟩ := strtol_range (s ++ after)
    rw [if_neg hend]
    dsimp only
    rw [llText_ok hlo hhi (by norm_num), ok_bind]
    by_cases hsame : (decimal (strtol (s ++ after))).length ≠ s.length ∨ decimal (strtol (s ++ after)) ≠ s
    · rw [if_pos hsame]
      exact ⟨none, rfl, fun _ hbuf => by cases hbuf⟩
    · rw [if_neg hsame]
      have htext := not_not.mp (fun h => hsame (Or.inr h))
      exact ⟨_, rfl, fun buf hbuf => ⟨_, htext, hbuf⟩⟩

/-- What the compression gives for a string, if it is called. -/
def compressed (compression : Bool) (lzf : Lzf) (s : Bytes) : Option Bytes :=
  if compression ∧ 20 < s.length then lzfCompress lzf s (s.length - 4) else none

/-- The lengths at which the counts of the writes are right, or still look so. -/
def Kept (compression : Bool) (lzf : Lzf) (s : Bytes) : Prop :=
  match compressed compression lzf s with
  | none => s.length % 2^32 ≠ 2^32 - 1
  | some c => s.length < 2^32 ∧ (c.length < 2^31 ∨ 2^32 - 11 < c.length)

def Cut (junk : ℕ → UInt8) (s t : Bytes) : Prop :=
  t = decompressInto junk s.length (s.take (uintLen s.length))

theorem verbatim_loads (hs : s.length < 2^64 - 1) (lzf : Lzf) (junk : ℕ → UInt8)
    (flags : LoadFlags) (rest : Bytes) :
    ∃ l, rdbGenericLoadStringObject lzf junk (rdbSaveLen s.length ++ s ++ rest) flags = .ok (l, rest) ∧
      l.text = s := by
  unfold rdbGenericLoadStringObject
  rw [append_assoc, rdbLoadLen_saved hs, ok_bind]
  dsimp only
  rw [if_neg Bool.false_ne_true, rioRead_append rfl, ok_bind]
  dsimp only
  cases flags.plain with
  | true => exact ⟨.plain s, rfl, rfl⟩
  | false =>
    cases flags.sds with
    | true => exact ⟨.sds s, rfl, rfl⟩
    | false =>
      cases flags.encode with
      | false => exact ⟨.raw s, rfl, rfl⟩
      | true =>
        by_cases hsmall : s.length ≤ 44
        · refine ⟨.embstr s, ?_, rfl⟩
          simp [createStringObject, hsmall]
        · refine ⟨.raw s, ?_, rfl⟩
          simp [createStringObject, hsmall]

theorem take_uintLen (s : Bytes) : (s.take (uintLen s.length)).length = uintLen s.length := by
  rw [List.length_take]
  unfold uintLen
  omega

def blobHead (c : Bytes) (len : ℕ) : Bytes :=
  ofNat (rdbEncVal * 64 + rdbEncLzf) :: (rdbSaveLen c.length ++ rdbSaveLen len)

theorem blob_loads (hlzf : lzf.RoundTrips) {out : Bytes} (hs : s.length < 2^64 - 1)
    (hout : lzfCompress lzf s (s.length - 4) = some out) (junk : ℕ → UInt8) (flags : LoadFlags)
    (rest : Bytes) :
    ∃ l, rdbGenericLoadStringObject lzf junk (blobHead out s.length ++ out ++ rest) flags = .ok (l, rest) ∧
      Cut junk s l.text := by
  have hdata := take_uintLen s
  have hsmall : ∀ n, uintLen n < 2^32 := fun n => Nat.mod_lt _ (by norm_num)
  obtain ⟨hfits, hback⟩ := hlzf _ _ _ (by rw [hdata]; exact hsmall _) (hsmall _) hout
  rw [hdata] at hback
  have hlen := hsmall (s.length - 4)
  have hwhole : out.take (uintLen out.length) = out :=
    List.take_of_length_le (by unfold uintLen; rw [Nat.mod_eq_of_lt (by omega)])
  have hnotint : ¬ (rdbEncLzf = rdbEncInt8 ∨ rdbEncLzf = rdbEncInt16 ∨ rdbEncLzf = rdbEncInt32) := by
    decide
  unfold rdbGenericLoadStringObject blobHead
  rw [cons_append, cons_append, rdbLoadLen_encoded (by decide), ok_bind]
  dsimp only
  rw [if_pos rfl, if_neg hnotint, if_pos rfl]
  unfold rdbLoadLzfStringObject
  rw [append_assoc, append_assoc, rdbLoadLen_saved (by omega), ok_bind]
  dsimp only
  rw [rdbLoadLen_saved hs, ok_bind]
  dsimp only
  rw [rioRead_append rfl, ok_bind]
  dsimp only
  rw [hwhole, hback]
  dsimp only
  cases flags.plain with
  | true => exact ⟨.plain _, rfl, rfl⟩
  | false =>
    cases flags.sds with
    | true => exact ⟨.sds _, rfl, rfl⟩
    | false => exact ⟨.raw _, rfl, rfl⟩

theorem decompressInto_all {junk : ℕ → UInt8} (hs : s.length < 2^32) (h : Cut junk s t) :
    t = s := by
  have hwhole : s.take (uintLen s.length) = s :=
    List.take_of_length_le (by unfold uintLen; rw [Nat.mod_eq_of_lt hs])
  have hnone : ((List.range s.length).map junk).drop s.length = [] :=
    List.drop_of_length_le (by rw [List.length_map, List.length_range])
  unfold Cut decompressInto at h
  rw [h, hwhole, hnone, List.append_nil]

theorem cut_differs (hs : 2^32 ≤ s.length)
    (hjunk : junk (s.length - 1) ≠ s.getD (s.length - 1) 0) (h : Cut junk s t) : t ≠ s := by
  have hdata := take_uintLen s
  have hlast : uintLen s.length ≤ s.length - 1 := by
    have : uintLen s.length < 2^32 := Nat.mod_lt _ (by norm_num)
    omega
  intro hts
  have hbyte : t[s.length - 1]? = some (junk (s.length - 1)) := by
    unfold Cut decompressInto at h
    rw [h, List.getElem?_append_right (by rw [hdata]; exact hlast), List.getElem?_drop, hdata,
      Nat.add_sub_cancel' hlast, List.getElem?_map, List.getElem?_range (by omega), Option.map_some]
  have hsame : s[s.length - 1]? = some (s.getD (s.length - 1) 0) := by
    rw [List.getD_eq_getElem?_getD, List.getElem?_eq_getElem (by omega), Option.getD_some]
  rw [hts, hsame, Option.some.injEq] at hbyte
  exact hjunk hbyte.symm

theorem rdbSaveLen_pos (n : ℕ) : 0 < (rdbSaveLen n).length := by
  unfold rdbSaveLen
  split_ifs <;> exact Nat.succ_pos _

theorem rdbSaveLen_five (hlo : 2^14 ≤ n) (hhi : n ≤ 2^32 - 1) : (rdbSaveLen n).length = 5 := by
  unfold rdbSaveLen
  rw [if_neg (by omega), if_neg (by omega), if_pos hhi, List.length_cons, beBytes_length]

theorem toInt_error (n : ℕ) : toInt n = -1 ↔ n % 2^32 = 2^32 - 1 := by
  rw [toInt_natCast]
  constructor
  · intro h
    split_ifs at h
    omega
  · intro h
    rw [if_neg (by omega)]
    omega

theorem compressed_length (hlzf : lzf.RoundTrips) {compression : Bool} {c : Bytes}
    (hc : compressed compression lzf s = some c) :
    20 < s.length ∧ lzfCompress lzf s (s.length - 4) = some c ∧ c.length ≤ uintLen (s.length - 4) := by
  unfold compressed at hc
  split_ifs at hc with hgo
  have hsmall : ∀ n, uintLen n < 2^32 := fun n => Nat.mod_lt _ (by norm_num)
  exact ⟨hgo.2, hc, (hlzf _ _ _ (by rw [take_uintLen]; exact hsmall _) (hsmall _) hc).1⟩

theorem rdbSaveText_of {compression : Bool} {out : Bytes} {n : ℤ}
    (h : (if compression ∧ 20 < s.length then rdbSaveLzfStringObject lzf s else .ok ([], 0)) = .ok (out, n)) :
    rdbSaveText compression lzf s =
      if n = -1 then .error .writeError
      else if n > 0 then .ok out
      else if toInt s.length = -1 then .error .writeError
      else .ok (out ++ (rdbSaveLen s.length ++ s)) := by
  unfold rdbSaveText rdbWriteRaw
  rw [h, ok_bind]
  by_cases herror : toInt s.length = -1
  · rw [if_pos herror, if_pos herror]
    rfl
  · rw [if_neg herror, if_neg herror]
    rfl

/-- A blob whose count is not positive is followed by the string. -/
theorem rdbSaveText_compressed (hlzf : lzf.RoundTrips) {compression : Bool} {c : Bytes}
    (hc : compressed compression lzf s = some c) :
    (rdbSaveText compression lzf s = .ok (blobHead c s.length ++ c) ∧
      (s.length < 2^32 → c.length < 2^31 ∨ 2^32 - 11 < c.length)) ∨
    (2^31 ≤ c.length ∧ (∀ out, rdbSaveText compression lzf s = .ok out →
      ∃ more, more ≠ [] ∧ out = blobHead c s.length ++ c ++ more) ∧
      (s.length < 2^32 → ¬(c.length < 2^31 ∨ 2^32 - 11 < c.length))) := by
  obtain ⟨hlong, hout, hlen⟩ := compressed_length hlzf hc
  have hcompress : compression = true ∧ 20 < s.length := by
    unfold compressed at hc
    by_contra hno
    rw [if_neg hno] at hc
    cases hc
  have hroom : uintLen (s.length - 4) < 2^32 := Nat.mod_lt _ (by norm_num)
  have hn := toInt_natCast c.length
  have hhead : (blobHead c s.length).length = 1 + (rdbSaveLen c.length).length + (rdbSaveLen s.length).length := by
    unfold blobHead
    rw [List.length_cons, List.length_append]
    omega
  have hc1 := rdbSaveLen_pos c.length
  have hs1 := rdbSaveLen_pos s.length
  -- the count of a blob below 2^32 bytes
  have hcount : s.length < 2^32 →
      (((blobHead c s.length).length : ℤ) + toInt c.length > 0 ↔ c.length < 2^31 ∨ 2^32 - 11 < c.length) := by
    intro hs
    have hfits : c.length ≤ s.length - 4 := by
      unfold uintLen at hlen
      rw [Nat.mod_eq_of_lt (by omega)] at hlen
      exact hlen
    rw [hn]
    by_cases hbig : c.length < 2^31
    · rw [if_pos (by omega)]
      omega
    · have hc5 := rdbSaveLen_five (n := c.length) (by omega) (by omega)
      have hs5 := rdbSaveLen_five (n := s.length) (by omega) (by omega)
      rw [if_neg (by omega), hhead, hc5, hs5]
      omega
  have hblob : (if compression ∧ 20 < s.length then rdbSaveLzfStringObject lzf s else .ok ([], 0)) =
      if toInt c.length = -1 then .error .writeError
      else .ok (blobHead c s.length ++ c, ((blobHead c s.length).length : ℤ) + toInt c.length) := by
    unfold rdbSaveLzfStringObject rdbSaveLzfBlob rdbWriteRaw blobHead
    rw [if_pos hcompress, if_neg (by omega), hout]
    dsimp only
    by_cases herror : toInt c.length = -1
    · rw [if_pos herror, if_pos herror]
      rfl
    · rw [if_neg herror, if_neg herror, ok_bind]
  by_cases hgood : ((blobHead c s.length).length : ℤ) + toInt c.length > 0 ∧ toInt c.length ≠ -1
  · left
    rw [if_neg hgood.2] at hblob
    rw [rdbSaveText_of hblob, if_neg (by omega), if_pos hgood.1]
    exact ⟨rfl, fun hs => (hcount hs).mp hgood.1⟩
  · right
    refine ⟨?_, fun out hok => ?_, fun hs hcounts => ?_⟩
    · by_contra hsmall
      rw [if_pos (by omega)] at hn
      omega
    · by_cases herror : toInt c.length = -1
      · rw [if_pos herror] at hblob
        unfold rdbSaveText at hok
        rw [hblob] at hok
        cases hok
      rw [if_neg herror] at hblob
      have hneg : ¬((blobHead c s.length).length : ℤ) + toInt c.length > 0 := fun hpos => hgood ⟨hpos, herror⟩
      rw [rdbSaveText_of hblob, if_neg hneg] at hok
      split_ifs at hok
      · refine ⟨_, ?_, (Except.ok.inj hok).symm⟩
        exact List.append_ne_nil_of_left_ne_nil (List.ne_nil_of_length_pos hs1) _
    · refine hgood ⟨(hcount hs).mpr hcounts, fun herror => ?_⟩
      have hmod := (toInt_error c.length).mp herror
      unfold uintLen at hlen
      omega

theorem rdbSaveText_restored (hlzf : lzf.RoundTrips) (compression : Bool) (hs : s.length < 2^64 - 1)
    (flags : LoadFlags) :
    (∃ out, rdbSaveText compression lzf s = .ok out ∧ ∀ junk rest, ∃ l,
      rdbGenericLoadStringObject lzf junk (out ++ rest) flags = .ok (l, rest) ∧ l.text = s) ↔
    Kept compression lzf s := by
  unfold Kept
  cases hc : compressed compression lzf s with
  | none =>
    dsimp only
    have hsaved : rdbSaveText compression lzf s =
        if toInt s.length = -1 then .error .writeError else .ok (rdbSaveLen s.length ++ s) := by
      have hfirst : (if compression ∧ 20 < s.length then rdbSaveLzfStringObject lzf s else .ok ([], 0)) =
          .ok ([], 0) := by
        unfold compressed at hc
        unfold rdbSaveLzfStringObject
        split_ifs at hc ⊢
        · rfl
        · rw [hc]
        · rfl
      rw [rdbSaveText_of hfirst, if_neg (by decide), if_neg (by decide), List.nil_append]
    rw [hsaved, Ne, ← toInt_error]
    constructor
    · rintro ⟨out, hok, -⟩ herror
      rw [if_pos herror] at hok
      cases hok
    · intro herror
      rw [if_neg herror]
      exact ⟨_, rfl, fun junk rest => verbatim_loads hs lzf junk flags rest⟩
  | some c =>
    dsimp only
    obtain ⟨-, hout, -⟩ := compressed_length hlzf hc
    rcases rdbSaveText_compressed hlzf hc with ⟨hok, hcounts⟩ | ⟨-, hbad, hcounts⟩
    · rw [hok]
      constructor
      · rintro ⟨out, hout', hload⟩
        obtain rfl := Except.ok.inj hout'
        have hshort : s.length < 2^32 := by
          by_contra hlong
          obtain ⟨l, hl, htext⟩ := hload (fun i => s.getD i 0 + 1) []
          obtain ⟨l', hl', hcut⟩ := blob_loads hlzf hs hout (fun i => s.getD i 0 + 1) flags []
          rw [hl] at hl'
          obtain rfl : l = l' := congrArg Prod.fst (Except.ok.inj hl')
          have hjunk : s.getD (s.length - 1) 0 + 1 ≠ s.getD (s.length - 1) 0 :=
            fun h => absurd (left_eq_add.mp h.symm) (by decide)
          exact cut_differs (not_lt.mp hlong) hjunk hcut htext
        exact ⟨hshort, hcounts hshort⟩
      · rintro ⟨hshort, -⟩
        refine ⟨_, rfl, fun junk rest => ?_⟩
        obtain ⟨l, hl, hcut⟩ := blob_loads hlzf hs hout junk flags rest
        exact ⟨l, hl, decompressInto_all hshort hcut⟩
    · constructor
      · rintro ⟨out, hok, hload⟩
        obtain ⟨more, hmore, rfl⟩ := hbad out hok
        -- the string behind the blob is left
        obtain ⟨l, hl, -⟩ := hload (fun _ => 0) []
        obtain ⟨l', hl', -⟩ := blob_loads hlzf hs hout (fun _ => 0) flags more
        rw [List.append_nil, hl'] at hl
        exact absurd (congrArg Prod.snd (Except.ok.inj hl)) hmore
      · rintro ⟨hshort, hok⟩
        exact absurd hok (hcounts hshort)

theorem rdbSaveRawString_restored (hlzf : lzf.RoundTrips) (compression : Bool) (hs : s.length < 2^64 - 1)
    (after : Bytes) (flags : LoadFlags) :
    (∃ out, rdbSaveRawString compression lzf s after = .ok out ∧ ∀ junk rest, ∃ l,
      rdbGenericLoadStringObject lzf junk (out ++ rest) flags = .ok (l, rest) ∧ l.text = s) ↔
    Kept compression lzf s := by
  have henc : ∃ enc, (if s.length ≤ 11 then rdbTryIntegerEncoding s after else .ok none) = .ok enc ∧
      ∀ buf, enc = some buf → s.length ≤ 11 ∧ ∃ v, decimal v = s ∧ rdbEncodeInteger v = some buf := by
    by_cases hshort : s.length ≤ 11
    · obtain ⟨enc, hok, henc⟩ := rdbTryIntegerEncoding_ok s after
      rw [if_pos hshort]
      exact ⟨enc, hok, fun buf hbuf => ⟨hshort, henc buf hbuf⟩⟩
    · rw [if_neg hshort]
      exact ⟨none, rfl, fun _ hbuf => by cases hbuf⟩
  obtain ⟨enc, hok, henc⟩ := henc
  unfold rdbSaveRawString
  rw [hok, ok_bind]
  cases enc with
  | some buf =>
    obtain ⟨hshort, v, htext, hv⟩ := henc buf rfl
    have hkept : Kept compression lzf s := by
      unfold Kept compressed
      rw [if_neg (fun h => by omega)]
      show s.length % 2^32 ≠ 2^32 - 1
      omega
    refine iff_of_true ⟨buf, rfl, fun junk rest => ?_⟩ hkept
    obtain ⟨l, hl, hltext⟩ := integer_loads hv lzf junk flags rest
    exact ⟨l, hl, hltext.trans htext⟩
  | none => exact rdbSaveText_restored hlzf compression hs flags

theorem rdbSaveLongLong_loads (hlo : -2^63 ≤ v) (hhi : v < 2^63) (lzf : Lzf) :
    ∃ out, rdbSaveLongLongAsStringObject v = .ok out ∧ ∀ junk flags rest, ∃ l,
      rdbGenericLoadStringObject lzf junk (out ++ rest) flags = .ok (l, rest) ∧ l.text = decimal v := by
  unfold rdbSaveLongLongAsStringObject
  cases henc : rdbEncodeInteger v with
  | some buf =>
    refine ⟨buf, rfl, ?_⟩
    intro junk flags rest
    exact integer_loads henc lzf junk flags rest
  | none =>
    obtain ⟨-, hmax⟩ := decimal_length hlo hhi
    dsimp only
    rw [llText_ok hlo hhi (by norm_num), ok_bind, if_pos (by omega)]
    refine ⟨_, rfl, ?_⟩
    intro junk flags rest
    exact verbatim_loads (by omega) lzf junk flags rest

structure StringBuffer where
  content : Bytes
  after : Bytes
  fits : content.length < 2^64 - 1

inductive RdbItem where
  | len (n : UInt64)
  | string (s : StringBuffer) (flags : LoadFlags)
  | number (v : Int64) (flags : LoadFlags)

inductive RdbValue where
  | len (isencoded : Bool) (n : ℕ)
  | string (o : LoadedString)
deriving DecidableEq, Repr

inductive RdbLoader where
  | len
  | string (flags : LoadFlags)
deriving DecidableEq, Repr

def RdbItem.save (compression : Bool) (lzf : Lzf) : RdbItem → Except RdbFault Bytes
  | .len n => .ok (rdbSaveLen n.toNat)
  | .string s _ => rdbSaveRawString compression lzf s.content s.after
  | .number v _ => rdbSaveLongLongAsStringObject v.toInt

def RdbItem.loader : RdbItem → RdbLoader
  | .len _ => .len
  | .string _ flags => .string flags
  | .number _ flags => .string flags

def RdbLoader.load (lzf : Lzf) (junk : ℕ → UInt8) : RdbLoader → Bytes → Except RdbFault (RdbValue × Bytes)
  | .len, rdb => do
    let (isencoded, n, rdb) ← rdbLoadLenByRef rdb
    .ok (.len isencoded n, rdb)
  | .string flags, rdb => do
    let (o, rdb) ← rdbGenericLoadStringObject lzf junk rdb flags
    .ok (.string o, rdb)

def saveAll (compression : Bool) (lzf : Lzf) : List RdbItem → Except RdbFault Bytes
  | [] => .ok []
  | item :: items => do
    let out ← item.save compression lzf
    let outs ← saveAll compression lzf items
    .ok (out ++ outs)

def loadAll (lzf : Lzf) (junk : ℕ → UInt8) :
    List RdbLoader → Bytes → Except RdbFault (List RdbValue × Bytes)
  | [], rdb => .ok ([], rdb)
  | loader :: loaders, rdb => do
    let (value, rdb) ← loader.load lzf junk rdb
    let (values, rdb) ← loadAll lzf junk loaders rdb
    .ok (value :: values, rdb)

def RdbItem.Reads : RdbItem → RdbValue → Prop
  | .len n, value => value = .len false n.toNat
  | .string s _, value => ∃ o, value = .string o ∧ o.text = s.content
  | .number v _, value => ∃ o, value = .string o ∧ o.text = decimal v.toInt

def RdbItem.Kept (compression : Bool) (lzf : Lzf) : RdbItem → Prop
  | .string s _ => Rdb.Kept compression lzf s.content
  | _ => True

/-- The item is read back from what is saved of it, and nothing more is read. -/
def RdbItem.Restored (compression : Bool) (lzf : Lzf) (item : RdbItem) : Prop :=
  ∃ out, item.save compression lzf = .ok out ∧ ∀ junk rest, ∃ value,
    item.loader.load lzf junk (out ++ rest) = .ok (value, rest) ∧ item.Reads value

theorem RdbItem.restored_iff (hlzf : lzf.RoundTrips) (compression : Bool) (item : RdbItem) :
    item.Restored compression lzf ↔ item.Kept compression lzf := by
  cases item with
  | len n =>
    refine iff_of_true ⟨_, rfl, fun junk rest => ⟨.len false n.toNat, ?_, rfl⟩⟩ trivial
    simp only [RdbItem.loader, RdbLoader.load]
    rw [rdbLoadLenByRef_saved n.toNat_lt, ok_bind]
  | string s flags =>
    have hiff := rdbSaveRawString_restored hlzf compression s.fits s.after flags
    refine Iff.trans ?_ hiff
    have hload : ∀ junk rdb, (RdbItem.string s flags).loader.load lzf junk rdb =
        (rdbGenericLoadStringObject lzf junk rdb flags >>= fun r => .ok (.string r.1, r.2)) := fun _ _ => rfl
    constructor
    · rintro ⟨out, hsave, hloads⟩
      refine ⟨out, hsave, fun junk rest => ?_⟩
      obtain ⟨value, hvalue, o, rfl, htext⟩ := hloads junk rest
      rw [hload] at hvalue
      cases hl : rdbGenericLoadStringObject lzf junk (out ++ rest) flags with
      | error f =>
        rw [hl] at hvalue
        cases hvalue
      | ok r =>
        rw [hl, ok_bind] at hvalue
        obtain ⟨hfst, hsnd⟩ := Prod.mk.inj (Except.ok.inj hvalue)
        exact ⟨r.1, by rw [← hsnd], by rw [RdbValue.string.inj hfst]; exact htext⟩
    · rintro ⟨out, hsave, hloads⟩
      refine ⟨out, hsave, fun junk rest => ?_⟩
      obtain ⟨l, hl, htext⟩ := hloads junk rest
      refine ⟨.string l, ?_, l, rfl, htext⟩
      rw [hload, hl, ok_bind]
  | number v flags =>
    obtain ⟨out, hsave, hload⟩ := rdbSaveLongLong_loads v.le_toInt v.toInt_lt lzf
    refine iff_of_true ⟨out, hsave, fun junk rest => ?_⟩ trivial
    obtain ⟨l, hl, htext⟩ := hload junk flags rest
    refine ⟨.string l, ?_, l, rfl, htext⟩
    simp only [RdbItem.loader, RdbLoader.load]
    rw [hl, ok_bind]

theorem saveAll_restored {compression : Bool} (h : ∀ item ∈ items, item.Restored compression lzf) :
    ∃ out, saveAll compression lzf items = .ok out ∧ ∀ junk rest, ∃ values,
      loadAll lzf junk (items.map RdbItem.loader) (out ++ rest) = .ok (values, rest) ∧
        List.Forall₂ RdbItem.Reads items values := by
  induction items with
  | nil => exact ⟨[], rfl, fun junk rest => ⟨[], rfl, List.Forall₂.nil⟩⟩
  | cons item items ih =>
    obtain ⟨hitem, hitems⟩ := List.forall_mem_cons.mp h
    obtain ⟨out, hsave, hload⟩ := hitem
    obtain ⟨outs, hsaves, hloads⟩ := ih hitems
    refine ⟨out ++ outs, ?_, fun junk rest => ?_⟩
    · rw [saveAll, hsave, ok_bind, hsaves, ok_bind]
    · obtain ⟨value, hvalue, hreads⟩ := hload junk (outs ++ rest)
      obtain ⟨values, hvalues, hall⟩ := hloads junk rest
      refine ⟨value :: values, ?_, List.Forall₂.cons hreads hall⟩
      rw [List.map_cons, loadAll, append_assoc, hvalue, ok_bind]
      dsimp only
      rw [hvalues, ok_bind]

/-- Whatever was in the memory of the loaded strings, each item is read back to its end, and so is the
concatenation of the items: exactly when the length of each string, or of what it is compressed to, is one
that is counted right. -/
theorem loadAll_saveAll (hlzf : lzf.RoundTrips) (compression : Bool) (items : List RdbItem) :
    ((∀ item ∈ items, item.Restored compression lzf) ∧
      ∃ out, saveAll compression lzf items = .ok out ∧ ∀ junk rest, ∃ values,
        loadAll lzf junk (items.map RdbItem.loader) (out ++ rest) = .ok (values, rest) ∧
          List.Forall₂ RdbItem.Reads items values) ↔
      ∀ item ∈ items, item.Kept compression lzf := by
  constructor
  · rintro ⟨hrestored, -⟩ item hitem
    exact (item.restored_iff hlzf compression).mp (hrestored item hitem)
  · intro hkept
    have hrestored : ∀ item ∈ items, item.Restored compression lzf :=
      fun item hitem => (item.restored_iff hlzf compression).mpr (hkept item hitem)
    exact ⟨hrestored, saveAll_restored hrestored⟩

def lzfRun : Lzf :=
  { compress := fun data n =>
      if data = replicate 21 97 ∧ n = 17 then some [1, 97, 97, 224, 10, 0] else none
    decompress := fun c n =>
      if c = [1, 97, 97, 224, 10, 0] ∧ 21 ≤ n then some (replicate 21 97) else none }

theorem lzfRun_roundTrips : lzfRun.RoundTrips := by
  intro data n c _ _ h
  simp only [lzfRun] at h ⊢
  split_ifs at h with hdata
  cases h
  rw [hdata.1, hdata.2]
  decide

def modeNone : LoadFlags := ⟨false, false, false⟩

/-- A length, `12` in front of a `3`, a string that is compressed, and a negative integer. -/
def fourItems : List RdbItem :=
  [.len 300, .string ⟨[49, 50], [51, 0], by simp⟩ ⟨true, false, false⟩,
    .string ⟨replicate 21 97, [0], by simp⟩ ⟨false, false, true⟩, .number (-70000) modeNone]

theorem loadAll_saveAll_four : (∀ item ∈ fourItems, item.Restored true lzfRun) ∧
    ∃ out, saveAll true lzfRun fourItems = .ok out ∧ ∀ junk rest, ∃ values,
      loadAll lzfRun junk (fourItems.map RdbItem.loader) (out ++ rest) = .ok (values, rest) ∧
        List.Forall₂ RdbItem.Reads fourItems values := by
  have hkept : ∀ item ∈ fourItems, item.Kept true lzfRun := by
    have hplain : Kept true lzfRun [49, 50] := by
      show [49, 50].length % 2^32 ≠ 2^32 - 1
      decide
    have hcompressed : compressed true lzfRun (replicate 21 97) = some [1, 97, 97, 224, 10, 0] := by decide
    have hlzf : Kept true lzfRun (replicate 21 97) := by
      unfold Kept
      rw [hcompressed]
      decide
    unfold fourItems
    simp only [List.forall_mem_cons]
    exact ⟨trivial, hplain, hlzf, trivial, List.forall_mem_nil _⟩
  have hiff := loadAll_saveAll lzfRun_roundTrips true fourItems
  exact hiff.mpr hkept

def longString : Bytes := replicate (2^32 + 21) 97

/-- A string of 2^32 + 21 letters is compressed as one of 21, and the others are not read back. -/
theorem long_string_cut :
    lzfRun.RoundTrips ∧ ∃ out, rdbSaveRawString true lzfRun longString [0] = .ok out ∧
      ∃ l, rdbGenericLoadStringObject lzfRun (fun _ => 0) out modeNone = .ok (l, []) ∧
        l.text ≠ longString := by
  have hlen : longString.length = 2^32 + 21 := List.length_replicate
  have htake : longString.take 21 = replicate 21 97 := by
    unfold longString
    rw [List.take_replicate, Nat.min_eq_left (by norm_num)]
  have hlast : longString.getD (longString.length - 1) 0 = 97 := by
    unfold longString
    rw [List.length_replicate, List.getD_eq_getElem?_getD, List.getElem?_replicate_of_lt (by norm_num)]
    rfl
  have hout : lzfCompress lzfRun longString (longString.length - 4) = some [1, 97, 97, 224, 10, 0] := by
    have hin : uintLen (2^32 + 21) = 21 := by decide
    have hroom : uintLen (2^32 + 21 - 4) = 17 := by decide
    rw [lzfCompress, hlen, hin, hroom, htake]
    decide
  generalize longString = s at hlen hlast hout ⊢
  have hc : compressed true lzfRun s = some [1, 97, 97, 224, 10, 0] := by
    unfold compressed
    rw [if_pos ⟨rfl, by omega⟩, hout]
  have hshort : ([1, 97, 97, 224, 10, 0] : Bytes).length < 2^31 := by norm_num
  rcases rdbSaveText_compressed lzfRun_roundTrips hc with ⟨hok, -⟩ | ⟨hbig, -⟩
  · obtain ⟨l, hl, hcut⟩ := blob_loads lzfRun_roundTrips (by omega) hout (fun _ => 0) modeNone []
    rw [List.append_nil] at hl
    have hjunk : (0 : UInt8) ≠ s.getD (s.length - 1) 0 := by
      rw [hlast]
      decide
    have hsave : rdbSaveRawString true lzfRun s [0] = rdbSaveText true lzfRun s := by
      unfold rdbSaveRawString
      rw [if_neg (by omega), ok_bind]
    rw [hsave]
    exact ⟨lzfRun_roundTrips, _, hok, l, hl, cut_differs (by omega) hjunk hcut⟩
  · exact absurd hbig (not_le.mpr hshort)

end RedisCore.Rdb
