import RedisCore.ZiplistLayout

namespace RedisCore.Ziplist
open UInt8 (ofNat)

def ZlValue.text : ZlValue → Bytes
  | .str s => s
  | .int v => decimal v

def bodyValue (body : Bytes) : Except Fault ZlValue := do
  let (encoding, lensize, len) ← zipDecodeLength body 0
  if zipIsStr encoding then return .str (← loadBytes body lensize len)
  else return .int (← zipLoadInteger body lensize encoding)

def Entry.text (e : Entry) : Bytes :=
  match bodyValue e.body with
  | .ok v => v.text
  | .error _ => []

def texts (es : List Entry) : List Bytes := es.map Entry.text

theorem zipLoadInteger_append_right (a c : Bytes) (k : ℕ) (encoding : UInt8) :
    zipLoadInteger (a ++ c) (a.length+k) encoding = zipLoadInteger c k encoding := by
  have h (n : ℕ) := loadBytes_append_right (a := a) (b := c) (i := a.length+k) (n := n) rfl
  simp only [zipLoadInteger, h]

variable {a c m : Bytes} {encoding x : UInt8} {v : ℤ} {p len : ℕ}

theorem zipLoadInteger_append_left {k : ℕ} (h : zipLoadInteger a k encoding = .ok v) :
    zipLoadInteger (a ++ c) k encoding = .ok v := by
  rw [zipLoadInteger] at h ⊢
  split_ifs at h ⊢ with h1 h2 h3 h4 h5 h6
  all_goals first
    | exact h
    | (obtain ⟨x, hx, h⟩ := except_bind_eq_ok.1 h
       rw [loadBytes_append_left hx]
       exact h)

set_option maxRecDepth 20000 in
theorem zipIsStr_of_ge (h : ¬x < zipStrMask) : zipIsStr x = false := by
  have hall : ∀ n < 256, ¬ofNat n < zipStrMask → zipIsStr (ofNat n) = false := by
    decide
  have := hall x.toNat x.toNat_lt
  rw [UInt8.ofNat_toNat] at this
  exact this h

theorem zipIsStr_of_masked (h : x &&& zipStrMask < zipStrMask) :
    zipIsStr (x &&& zipStrMask) = true := by
  simpa only [zipIsStr, UInt8.and_assoc, UInt8.and_self, decide_eq_true_eq] using h

set_option maxRecDepth 20000 in
theorem zipDecodeLength_encoding {lensize : ℕ}
    (h : zipDecodeLength m p = .ok (encoding, lensize, len)) :
    zipIsStr encoding = true ∨ (zipIsStr encoding = false ∧ zipIntSize encoding = .ok len) := by
  obtain ⟨b, -, h⟩ := except_bind_eq_ok.1 h
  have inj {x y : UInt8 × ℕ × ℕ} (h : (Except.ok x : Except Fault _) = .ok y) : x = y :=
    Except.ok.inj h
  by_cases hb : b < zipStrMask
  · left
    simp only [hb, if_true] at h
    split_ifs at h with h1 h2 h3 h4
    · rw [← (Prod.mk.inj (inj h)).1]
      exact zipIsStr_of_masked h1
    · obtain ⟨x, -, h⟩ := except_bind_eq_ok.1 h
      rw [← (Prod.mk.inj (inj h)).1]
      exact zipIsStr_of_masked h1
    · obtain ⟨x, -, h⟩ := except_bind_eq_ok.1 h
      rw [← (Prod.mk.inj (inj h)).1]
      exact zipIsStr_of_masked h1
    · -- the two upper bits of a byte below 0xc0 are not both set
      have hall : ∀ n < 256, ofNat n < zipStrMask →
          ofNat n &&& zipStrMask < zipStrMask := by decide
      have := hall b.toNat b.toNat_lt
      rw [UInt8.ofNat_toNat] at this
      exact absurd (this hb) h1
  · right
    simp only [hb, if_false] at h
    obtain ⟨x, hx, h⟩ := except_bind_eq_ok.1 h
    obtain ⟨he, hr⟩ := Prod.mk.inj (inj h)
    obtain ⟨-, hl⟩ := Prod.mk.inj hr
    rw [← he, ← hl]
    exact ⟨zipIsStr_of_ge hb, hx⟩

theorem zipLoadInteger_total (hs : zipIntSize encoding = .ok len) (hl : p+len ≤ m.length) :
    ∃ v, zipLoadInteger m p encoding = .ok v := by
  have hload (n : ℕ) (h : p+n ≤ m.length) : loadBytes m p n = .ok ((m.drop p).take n) := by
    rw [loadBytes, if_pos h]
  rw [zipIntSize] at hs
  rw [zipLoadInteger]
  split_ifs at hs ⊢
  all_goals first
    | exact ⟨_, rfl⟩
    | (injection hs with hs
       subst hs
       rw [hload _ hl]
       exact ⟨_, rfl⟩)
    | contradiction
    | (exfalso; simp_all [zipInt8B, zipInt16B, zipInt24B, zipInt32B])

theorem bodyValue_total {body : Bytes} (h : BodyOk body) : ∃ v, bodyValue body = .ok v := by
  obtain ⟨encoding, lensize, len, hd, hl⟩ := h
  rw [bodyValue, hd, ok_bind]
  dsimp only
  rcases zipDecodeLength_encoding hd with hs | ⟨hs, hn⟩
  · rw [if_pos hs, loadBytes, if_pos (by omega)]
    exact ⟨_, rfl⟩
  · obtain ⟨v, hv⟩ := zipLoadInteger_total (m := body) (p := lensize) hn (by omega)
    rw [if_neg (by simp [hs]), hv]
    exact ⟨_, rfl⟩

theorem ziplistGet_entry {prev : ℕ} {e : Entry} (hok : EntryOk prev e)
    (hlt : prev < 2^32) (hm : m = a ++ (encodeEntry prev e ++ c)) (hp : p = a.length) :
    ∃ v, ziplistGet m (some p) = .ok (some v) ∧ v.text = e.text := by
  obtain ⟨b, hb, hne, -⟩ := loadByte_entry hok.narrow hm hp
  obtain ⟨v, hv⟩ := bodyValue_total hok.body
  refine ⟨v, ?_, by rw [Entry.text, hv]⟩
  obtain ⟨⟨encoding, lensize, len⟩, hd, hv⟩ := except_bind_eq_ok.1 hv
  have hm' : m = (a ++ encodePrev e.wide prev) ++ (e.body ++ c) := by simp [hm, encodeEntry]
  have hd' := zipDecodeLength_at (p := p+prevSize e.wide) hd hm' (by simp [hp])
  have hoff : p+(prevSize e.wide+lensize) = (a ++ encodePrev e.wide prev).length+lensize := by
    simp [hp, Nat.add_assoc]
  rw [ziplistGet, hb, ok_bind, if_neg hne, zipEntry,
    zipDecodePrevlen_entry hok.narrow hlt hm hp, ok_bind]
  dsimp only
  rw [hd', ok_bind]
  dsimp only at hv ⊢
  rw [except_pure, ok_bind]
  dsimp only
  split_ifs at hv ⊢ with hs
  · obtain ⟨x, hx, hv⟩ := except_bind_eq_ok.1 hv
    rw [hm', loadBytes_append_right hoff, loadBytes_append_left hx]
    simpa using hv
  · obtain ⟨x, hx, hv⟩ := except_bind_eq_ok.1 hv
    rw [hm', hoff, zipLoadInteger_append_right, zipLoadInteger_append_left hx]
    simpa using hv

theorem zipDecodeLength_str (n : ℕ) (hn : n < 2^32) (c : Bytes) :
    ∃ encoding, zipIsStr encoding = true ∧
      zipDecodeLength (zipStoreEntryEncoding 0 n ++ c) 0 =
        .ok (encoding, (zipStoreEntryEncoding 0 n).length, n) := by
  have h0 : zipIsStr 0 = true := by decide
  rw [zipStoreEntryEncoding, if_pos h0]
  split_ifs with h6 h14
  · have hbits : ∀ k < 64, (zipStr06B ||| ofNat k < zipStrMask ∧
        (zipStr06B ||| ofNat k) &&& zipStrMask = zipStr06B ∧
        ((zipStr06B ||| ofNat k) &&& 0x3f).toNat = k) := by decide
    obtain ⟨h1, h2, h3⟩ := hbits n (by omega)
    refine ⟨zipStr06B, by decide, ?_⟩
    rw [zipDecodeLength, List.cons_append, loadByte_cons_zero, ok_bind]
    simp only [h1, h2, h3, if_true]
    rfl
  · have hbits : ∀ k < 64, (zipStr14B ||| ofNat k < zipStrMask ∧
        (zipStr14B ||| ofNat k) &&& zipStrMask = zipStr14B ∧
        ((zipStr14B ||| ofNat k) &&& 0x3f).toNat = k) := by decide
    obtain ⟨h1, h2, h3⟩ := hbits (n/256%64) (by omega)
    refine ⟨zipStr14B, by decide, ?_⟩
    rw [zipDecodeLength, List.cons_append, loadByte_cons_zero, ok_bind]
    simp only [h1, h2, h3, if_true]
    have hload (x : UInt8) :
        loadByte (x :: ([ofNat (n%256)] ++ c)) (0+1) = .ok (ofNat (n%256)) := rfl
    have hlow : (ofNat (n%256)).toNat = n%256 := by
      rw [UInt8.toNat_ofNat', Nat.mod_eq_of_lt (by omega)]
    simp only [hload, ok_bind, hlow, show n/256%64*256+n%256 = n by omega]
    rfl
  · refine ⟨zipStr32B, by decide, ?_⟩
    rw [zipDecodeLength, List.cons_append, loadByte_cons_zero, ok_bind]
    have h1 : zipStr32B < zipStrMask := by decide
    have h2 : zipStr32B &&& zipStrMask = zipStr32B := by decide
    simp only [h1, h2, if_true]
    have hload : loadBytes (zipStr32B :: (beBytes 4 n ++ c)) (0+1) 4 = .ok (beBytes 4 n) :=
      loadBytes_at (a := [zipStr32B]) rfl rfl (by simp)
    simp only [hload, ok_bind, beNat_beBytes_of_lt (w := 4) (n := n) (by omega)]
    simp
    rfl

theorem leBytes_drop_one (n : ℕ) : (leBytes 4 n).drop 1 = leBytes 3 (n/256) := rfl

theorem int24_round_trip (hl : -2^23 ≤ v) (hu : v < 2^23) :
    toSigned 32 (leNat (0 :: (leBytes 4 (toUnsigned 32 (v*256))).drop 1))/256 = v := by
  have hlt := toUnsigned_lt 32 (v*256)
  have hdiv : 256*(toUnsigned 32 (v*256)/256) = toUnsigned 32 (v*256) := by
    have : toUnsigned 32 (v*256) % 256 = 0 := by rw [toUnsigned]; omega
    omega
  have hnat : leNat (0 :: (leBytes 4 (toUnsigned 32 (v*256))).drop 1) =
      toUnsigned 32 (v*256) := by
    rw [leBytes_drop_one, leNat, leNat_leBytes_of_lt (w := 3) (by omega), hdiv]
    simp
  rw [hnat, toSigned_toUnsigned 32 (by norm_num) _ (by norm_num; omega) (by norm_num; omega)]
  omega

theorem loadBytes_cons {n : ℕ} (x : UInt8) (data : Bytes) (hn : n = data.length) :
    loadBytes (x :: data) 1 n = .ok data :=
  loadBytes_at (a := [x]) (c := []) (by simp) rfl hn

theorem loadSigned_leBytes (w : ℕ) {v : ℤ} (x : UInt8) (hw : 0 < 8*w) (hl : -2^(8*w-1) ≤ v)
    (hu : v < 2^(8*w-1)) : (do
      let bs ← loadBytes (x :: leBytes w (toUnsigned (8*w) v)) 1 w
      return toSigned (8*w) (leNat bs) : Except Fault ℤ) = .ok v := by
  have hlt := toUnsigned_lt (8*w) v
  rw [loadBytes_cons x _ (by simp), ok_bind, leNat_leBytes_of_lt (by rwa [show 256 = 2^8 from rfl, ← pow_mul]),
    toSigned_toUnsigned _ hw _ hl hu]
  rfl

theorem zipSaveInteger_spec {s : Bytes} (h : zipTryEncoding s = some (v, encoding)) :
    ¬encoding < zipStrMask ∧ decimal v = s ∧ ∃ data, zipSaveInteger v encoding = .ok data ∧
      zipIntSize encoding = .ok data.length ∧
      zipLoadInteger (encoding :: data) 1 encoding = .ok v := by
  rw [zipTryEncoding] at h
  split_ifs at h with hlen
  cases hv : string2ll s with
  | none => simp [hv] at h
  | some w =>
    obtain ⟨htext, hlo, hhi⟩ := string2ll_some hv
    simp only [hv] at h
    split_ifs at h with h1 h2 h3 h4 h5
    · obtain ⟨rfl, rfl⟩ : w = v ∧ zipIntImmMin+ofNat w.toNat = encoding := by
        simpa using h
      have himm : ∀ k < 13, (¬zipIntImmMin+ofNat k < zipStrMask ∧
          zipSaveInteger k (zipIntImmMin+ofNat k) = .ok [] ∧
          zipIntSize (zipIntImmMin+ofNat k) = .ok 0 ∧
          zipLoadInteger [zipIntImmMin+ofNat k] 1 (zipIntImmMin+ofNat k) =
            .ok (k : ℤ)) := by decide
      obtain ⟨ha, hb, hc, hd⟩ := himm w.toNat (by omega)
      rw [Int.toNat_of_nonneg h1.1] at hb hd
      exact ⟨ha, htext, [], hb, hc, hd⟩
    · obtain ⟨rfl, rfl⟩ : w = v ∧ zipInt8B = encoding := by simpa using h
      refine ⟨by decide, htext, _, rfl, rfl, ?_⟩
      rw [zipLoadInteger, if_pos rfl]
      exact loadSigned_leBytes 1 _ (by norm_num) (by norm_num; omega) (by norm_num; omega)
    · obtain ⟨rfl, rfl⟩ : w = v ∧ zipInt16B = encoding := by simpa using h
      refine ⟨by decide, htext, _, rfl, rfl, ?_⟩
      rw [zipLoadInteger, if_neg (by decide), if_pos rfl]
      exact loadSigned_leBytes 2 _ (by norm_num) (by norm_num; omega) (by norm_num; omega)
    · obtain ⟨rfl, rfl⟩ : w = v ∧ zipInt24B = encoding := by simpa using h
      refine ⟨by decide, htext, _, rfl, rfl, ?_⟩
      rw [zipLoadInteger, if_neg (by decide), if_neg (by decide), if_neg (by decide), if_pos rfl,
        loadBytes_cons (n := 3) _ _ rfl, ok_bind, int24_round_trip h4.1 h4.2]
      rfl
    · obtain ⟨rfl, rfl⟩ : w = v ∧ zipInt32B = encoding := by simpa using h
      refine ⟨by decide, htext, _, rfl, rfl, ?_⟩
      rw [zipLoadInteger, if_neg (by decide), if_neg (by decide), if_pos rfl]
      exact loadSigned_leBytes 4 _ (by norm_num) (by norm_num; omega) (by norm_num; omega)
    · obtain ⟨rfl, rfl⟩ : w = v ∧ zipInt64B = encoding := by simpa using h
      refine ⟨by decide, htext, _, rfl, rfl, ?_⟩
      rw [zipLoadInteger, if_neg (by decide), if_neg (by decide), if_neg (by decide),
        if_neg (by decide), if_pos rfl]
      exact loadSigned_leBytes 8 _ (by norm_num) (by norm_num; omega) (by norm_num; omega)

theorem insertPayload_spec (s : Bytes) (hs : s.length < 2^32) :
    ∃ head data, insertPayload s = .ok (head, data) ∧
      insertDataLen s = .ok (head.length+data.length) ∧ BodyOk (head ++ data) ∧
      (∀ wide, Entry.text ⟨wide, head ++ data⟩ = s) := by
  cases ht : zipTryEncoding s with
  | none =>
    obtain ⟨encoding, hstr, hd⟩ := zipDecodeLength_str s.length hs s
    refine ⟨zipStoreEntryEncoding 0 s.length, s, ?_, ?_, ?_, ?_⟩
    · rw [insertPayload, ht]
    · rw [insertDataLen, ht]
      simp only [Nat.add_comm]
    · exact ⟨encoding, _, _, hd, by simp⟩
    · intro wide
      have hv : bodyValue (zipStoreEntryEncoding 0 s.length ++ s) = .ok (.str s) := by
        rw [bodyValue, hd, ok_bind]
        dsimp only
        rw [if_pos hstr, loadBytes_at (b := s) (a := zipStoreEntryEncoding 0 s.length) (c := [])
          (by simp) rfl rfl]
        rfl
      simp only [Entry.text, hv, ZlValue.text]
  | some r =>
    obtain ⟨v, encoding⟩ := r
    obtain ⟨hmask, htext, data, hsave, hsize, hload⟩ := zipSaveInteger_spec ht
    have hnot := zipIsStr_of_ge hmask
    have hhead : zipStoreEntryEncoding encoding s.length = [encoding] := by
      rw [zipStoreEntryEncoding, if_neg (by simp [hnot])]
    have hd : zipDecodeLength (encoding :: data) 0 = .ok (encoding, 1, data.length) := by
      rw [zipDecodeLength, loadByte_cons_zero, ok_bind]
      dsimp only
      rw [if_neg hmask, if_neg hmask, hsize]
      rfl
    refine ⟨[encoding], data, ?_, ?_, ⟨encoding, 1, data.length, hd, ?_⟩, ?_⟩
    · rw [insertPayload, ht]
      simp only [hsave, hhead, ok_bind, except_pure]
    · rw [insertDataLen, ht]
      simp only [hsize, hhead, ok_bind, except_pure, Nat.add_comm]
    · simp [Nat.add_comm]
    · intro wide
      have hv : bodyValue (encoding :: data) = .ok (.int v) := by
        rw [bodyValue, hd, ok_bind]
        dsimp only
        rw [if_neg (by simp [hnot]), hload]
        rfl
      simp only [Entry.text, List.singleton_append, hv, ZlValue.text, htext]

end RedisCore.Ziplist
