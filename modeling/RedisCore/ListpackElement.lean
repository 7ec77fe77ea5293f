import RedisCore.ListpackModel

namespace RedisCore.Listpack
open List (length_append length_cons length_nil)
open UInt8 (ofNat toNat_ofNat')

def LpValue.text : LpValue → Bytes
  | .str s => s
  | .int v => decimal v

def payload (s : Bytes) : Bytes := (lpEncodeGetType s).1.getD (lpEncodeString s)

def element (s : Bytes) : Bytes := payload s ++ lpEncodeBacklen (payload s).length

def elements (ss : List Bytes) : Bytes := ss.flatMap element

variable {bits n u p shift val fuel : ℕ} {v : ℤ} {s m : Bytes}

theorem lpIntBits_lt (hb : 0 < bits) (hl : -2^(bits-1) ≤ v)
    (hu : v < 2^(bits-1)) : lpIntBits bits v < 2^bits := by
  have hp : (2:ℤ)^bits = 2*2^(bits-1) := by
    rw [← pow_succ', Nat.sub_add_cancel hb]
  have hpos : (0:ℤ) < 2^(bits-1) := by positivity
  unfold lpIntBits
  zify
  split <;> omega

theorem lpSignedValue_intBits (hb : 0 < bits) (hl : -2^(bits-1) ≤ v) (hu : v < 2^(bits-1)) :
    lpSignedValue (lpIntBits bits v) (2^(bits-1)) (2^bits-1) = .int v := by
  have hp : (2:ℤ)^bits = 2*2^(bits-1) := by
    rw [← pow_succ', Nat.sub_add_cancel hb]
  have hpn : (2:ℕ)^bits = 2*2^(bits-1) := by
    rw [← pow_succ', Nat.sub_add_cancel hb]
  have hcast : ((2^(bits-1) : ℕ) : ℤ) = 2^(bits-1) := by push_cast; rfl
  have hpos : (0:ℤ) < 2^(bits-1) := by positivity
  unfold lpSignedValue lpIntBits
  by_cases hv : v < 0
  · -- negative numbers lie in the upper half
    rw [if_pos hv, if_pos (by omega)]
    congr 1
    omega
  · rw [if_neg hv, if_neg (by omega)]
    congr 1
    omega

theorem lpIntBits_eq_toUnsigned (hl : -2^63 ≤ v) (hu : v < 2^63) :
    lpIntBits 64 v = toUnsigned 64 v := by
  unfold lpIntBits toUnsigned
  split <;> omega

theorem class_7BitUint : ∀ n < 128, lpEncodingIs7BitUint (ofNat n) = true ∧
    (ofNat n &&& 0x7f).toNat = n ∧ ofNat n ≠ lpEof := by decide

theorem class_6BitStr : ∀ n < 64, lpEncodingIs7BitUint (ofNat n ||| 0x80) = false ∧
    lpEncodingIs6BitStr (ofNat n ||| 0x80) = true ∧
    lpEncoding6BitStrLen (ofNat n ||| 0x80) = n ∧
    ofNat n ||| 0x80 ≠ lpEof := by decide

theorem class_13BitInt : ∀ n < 32, lpEncodingIs7BitUint (ofNat n ||| 0xc0) = false ∧
    lpEncodingIs6BitStr (ofNat n ||| 0xc0) = false ∧
    lpEncodingIs13BitInt (ofNat n ||| 0xc0) = true ∧
    ((ofNat n ||| 0xc0) &&& 0x1f).toNat = n ∧
    ofNat n ||| 0xc0 ≠ lpEof := by decide

theorem class_12BitStr : ∀ n < 16, lpEncodingIs7BitUint (ofNat n ||| 0xe0) = false ∧
    lpEncodingIs6BitStr (ofNat n ||| 0xe0) = false ∧
    lpEncodingIs13BitInt (ofNat n ||| 0xe0) = false ∧
    lpEncodingIs16BitInt (ofNat n ||| 0xe0) = false ∧
    lpEncodingIs24BitInt (ofNat n ||| 0xe0) = false ∧
    lpEncodingIs32BitInt (ofNat n ||| 0xe0) = false ∧
    lpEncodingIs64BitInt (ofNat n ||| 0xe0) = false ∧
    lpEncodingIs12BitStr (ofNat n ||| 0xe0) = true ∧
    ((ofNat n ||| 0xe0) &&& 0x0f).toNat = n ∧
    ofNat n ||| 0xe0 ≠ lpEof := by decide

structure Reads (x : Bytes) (v : LpValue) : Prop where
  size : ∀ (m a c : Bytes) (p : ℕ), m = a ++ (x ++ c) → p = a.length →
    lpCurrentEncodedSize m p = .ok x.length
  get : ∀ (m a c : Bytes) (p : ℕ), m = a ++ (x ++ c) → p = a.length → lpGet m p = .ok v
  first : ∃ b rest, x = b :: rest ∧ b ≠ lpEof

theorem reads_7BitUint (hn : n < 128) : Reads [ofNat n] (.int n) := by
  obtain ⟨h1, h2, h3⟩ := class_7BitUint n hn
  constructor
  · intro m a c p hm hp
    rw [lpCurrentEncodedSize, loadByte_at (by simpa using hm) hp, ok_bind, if_pos h1]
    rfl
  · intro m a c p hm hp
    rw [lpGet, loadByte_at (by simpa using hm) hp, ok_bind, if_pos h1, h2,
      lpSignedValue, if_neg (by omega)]
  · exact ⟨_, _, rfl, h3⟩

theorem reads_6BitStr (hs : s.length < 64) :
    Reads ((ofNat s.length ||| 0x80) :: s) (.str s) := by
  obtain ⟨h1, h2, h3, h4⟩ := class_6BitStr s.length hs
  constructor
  · intro m a c p hm hp
    rw [lpCurrentEncodedSize, loadByte_at (by simpa using hm) hp, ok_bind,
      if_neg (by simp [h1]), if_pos h2, h3, length_cons, Nat.add_comm]
  · intro m a c p hm hp
    have hstr : m = (a ++ [ofNat s.length ||| 0x80]) ++ (s ++ c) := by simp [hm]
    rw [lpGet, loadByte_at (by simpa using hm) hp, ok_bind, if_neg (by simp [h1]),
      if_pos h2, h3, lpGetStr, loadBytes_at hstr (by simp [hp]) rfl]
    rfl
  · exact ⟨_, _, rfl, h4⟩

theorem reads_13BitInt (hu : u < 2^13) (hv : lpSignedValue u (2^12) 8191 = .int v) :
    Reads [ofNat (u/256) ||| 0xc0, ofNat u] (.int v) := by
  obtain ⟨h1, h2, h3, h4, h5⟩ := class_13BitInt (u/256) (by omega)
  constructor
  · intro m a c p hm hp
    rw [lpCurrentEncodedSize, loadByte_at (by simpa using hm) hp, ok_bind,
      if_neg (by simp [h1]), if_neg (by simp [h2]), if_pos h3]
    rfl
  · intro m a c p hm hp
    have hlo : m = (a ++ [ofNat (u/256) ||| 0xc0]) ++ ofNat u :: c := by simp [hm]
    have hsum : u/256*256+(ofNat u).toNat = u := by
      rw [toNat_ofNat']
      omega
    rw [lpGet, loadByte_at (by simpa using hm) hp, ok_bind, if_neg (by simp [h1]),
      if_neg (by simp [h2]), if_pos h3, loadByte_at hlo (by simp [hp]), ok_bind, h4,
      hsum, hv]
  · exact ⟨_, _, rfl, h5⟩

theorem reads_wideInt (b : UInt8) (w negstart negmax : ℕ)
    (hb : (b, w, negstart, negmax) ∈ [((0xf1 : UInt8), 2, 2^15, 2^16-1), (0xf2, 3, 2^23, 2^24-1),
      (0xf3, 4, 2^31, 2^32-1), (0xf4, 8, 2^63, 2^64-1)])
    (hu : u < 256^w) (hv : lpSignedValue u negstart negmax = .int v) :
    Reads (b :: leBytes w u) (.int v) := by
  have hload (m a c : Bytes) (p : ℕ) (hm : m = a ++ (b :: leBytes w u ++ c)) (hp : p = a.length) :
      lpGetInt m p w negstart negmax = .ok (.int v) := by
    have hbytes : m = (a ++ [b]) ++ (leBytes w u ++ c) := by simp [hm]
    rw [lpGetInt, loadBytes_at hbytes (by simp [hp]) (by simp), ok_bind,
      leNat_leBytes_of_lt hu, hv]
  simp only [List.mem_cons, Prod.mk.injEq, List.not_mem_nil, or_false] at hb
  -- the four type bytes differ only in the test that accepts them
  rcases hb with ⟨rfl, rfl, rfl, rfl⟩ | ⟨rfl, rfl, rfl, rfl⟩ | ⟨rfl, rfl, rfl, rfl⟩ |
    ⟨rfl, rfl, rfl, rfl⟩
  all_goals
    constructor
    · intro m a c p hm hp
      rw [lpCurrentEncodedSize, loadByte_at (by simpa using hm) hp, ok_bind]
      rfl
    · intro m a c p hm hp
      have hget := hload m a c p hm hp
      rw [lpGet, loadByte_at (by simpa using hm) hp, ok_bind]
      exact hget
    · exact ⟨_, _, rfl, by decide⟩

theorem reads_12BitStr (hs : s.length < 4096) :
    Reads ((ofNat (s.length/256) ||| 0xe0) :: ofNat s.length :: s) (.str s) := by
  obtain ⟨h1, h2, h3, h4, h5, h6, h7, h8, h9, h10⟩ := class_12BitStr (s.length/256) (by omega)
  have hlen (m a c : Bytes) (p : ℕ)
      (hm : m = a ++ ((ofNat (s.length/256) ||| 0xe0) :: ofNat s.length :: s ++ c))
      (hp : p = a.length) : lpEncoding12BitStrLen m p = .ok s.length := by
    have hlo : m = (a ++ [ofNat (s.length/256) ||| 0xe0]) ++
        ofNat s.length :: (s ++ c) := by simp [hm]
    have hsum : s.length/256*256+(ofNat s.length).toNat = s.length := by
      rw [toNat_ofNat']
      omega
    rw [lpEncoding12BitStrLen, loadByte_at (by simpa using hm) hp, ok_bind,
      loadByte_at hlo (by simp [hp]), ok_bind, h9, hsum]
  constructor
  · intro m a c p hm hp
    rw [lpCurrentEncodedSize, loadByte_at (by simpa using hm) hp, ok_bind]
    simp only [h1, h2, h3, h4, h5, h6, h7, h8, Bool.false_eq_true, if_false, if_true]
    rw [hlen m a c p hm hp, ok_bind, length_cons, length_cons]
    congr 1
    omega
  · intro m a c p hm hp
    have hstr : m = (a ++ [ofNat (s.length/256) ||| 0xe0, ofNat s.length]) ++
        (s ++ c) := by simp [hm]
    rw [lpGet, loadByte_at (by simpa using hm) hp, ok_bind]
    simp only [h1, h2, h3, h4, h5, h6, h7, h8, Bool.false_eq_true, if_false, if_true]
    rw [hlen m a c p hm hp, ok_bind, lpGetStr, loadBytes_at hstr (by simp [hp]) rfl]
    rfl
  · exact ⟨_, _, rfl, h10⟩

theorem reads_32BitStr (hs : 5+s.length < 2^32) :
    Reads (0xf0 :: (leBytes 4 s.length ++ s)) (.str s) := by
  have hlen (m a c : Bytes) (p : ℕ) (hm : m = a ++ (0xf0 :: (leBytes 4 s.length ++ s) ++ c))
      (hp : p = a.length) : lpEncoding32BitStrLen m p = .ok s.length := by
    have hbytes : m = (a ++ [0xf0]) ++ (leBytes 4 s.length ++ (s ++ c)) := by simp [hm]
    rw [lpEncoding32BitStrLen, loadBytes_at hbytes (by simp [hp]) (by simp), ok_bind,
      leNat_leBytes_of_lt (by omega)]
  constructor
  · intro m a c p hm hp
    rw [lpCurrentEncodedSize, loadByte_at (by simpa using hm) hp, ok_bind]
    show (do let len ← lpEncoding32BitStrLen m p; Except.ok ((5+len)%2^32)) = _
    rw [hlen m a c p hm hp, ok_bind, Nat.mod_eq_of_lt hs]
    simp only [length_cons, length_append, leBytes_length]
    congr 1
    omega
  · intro m a c p hm hp
    have hstr : m = (a ++ (0xf0 :: leBytes 4 s.length)) ++ (s ++ c) := by simp [hm]
    rw [lpGet, loadByte_at (by simpa using hm) hp, ok_bind]
    show (do let len ← lpEncoding32BitStrLen m p; lpGetStr m (p+5) len) = _
    rw [hlen m a c p hm hp, ok_bind, lpGetStr, loadBytes_at hstr (by simp [hp]) rfl]
    rfl
  · exact ⟨_, _, rfl, by decide⟩

theorem reads_encodeInt (hl : -2^63 ≤ v) (hu : v < 2^63) : Reads (lpEncodeInt v) (.int v) := by
  unfold lpEncodeInt
  split_ifs with h7 h13 h16 h24 h32
  · have h := reads_7BitUint (n := v.toNat) (by omega)
    rwa [Int.toNat_of_nonneg h7.1] at h
  · apply reads_13BitInt
    · exact lpIntBits_lt (by decide) (by norm_num; omega) (by norm_num; omega)
    · exact lpSignedValue_intBits (by decide) (by norm_num; omega) (by norm_num; omega)
  · apply reads_wideInt 0xf1 2 (2^15) (2^16-1)
    · decide
    · exact lpIntBits_lt (by decide) (by norm_num; omega) (by norm_num; omega)
    · exact lpSignedValue_intBits (by decide) (by norm_num; omega) (by norm_num; omega)
  · apply reads_wideInt 0xf2 3 (2^23) (2^24-1)
    · decide
    · exact lpIntBits_lt (by decide) (by norm_num; omega) (by norm_num; omega)
    · exact lpSignedValue_intBits (by decide) (by norm_num; omega) (by norm_num; omega)
  · apply reads_wideInt 0xf3 4 (2^31) (2^32-1)
    · decide
    · exact lpIntBits_lt (by decide) (by norm_num; omega) (by norm_num; omega)
    · exact lpSignedValue_intBits (by decide) (by norm_num; omega) (by norm_num; omega)
  · rw [← lpIntBits_eq_toUnsigned hl hu]
    apply reads_wideInt 0xf4 8 (2^63) (2^64-1)
    · decide
    · exact lpIntBits_lt (by decide) (by norm_num; omega) (by norm_num; omega)
    · exact lpSignedValue_intBits (by decide) (by norm_num; omega) (by norm_num; omega)

theorem reads_payload (hs : (payload s).length < 2^32) : ∃ v, Reads (payload s) v ∧ v.text = s := by
  unfold payload lpEncodeGetType lpStringToInt64 at *
  cases hi : string2ll s with
  | some v =>
    obtain ⟨htext, hl, hu⟩ := string2ll_some hi
    exact ⟨.int v, reads_encodeInt hl hu, htext⟩
  | none =>
    refine ⟨.str s, ?_, rfl⟩
    simp only [hi] at hs
    unfold lpEncodeString at *
    split_ifs at hs ⊢ with h6 h12
    · exact reads_6BitStr h6
    · exact reads_12BitStr h12
    · apply reads_32BitStr
      simp only [Option.getD_none, length_cons, length_append, leBytes_length] at hs
      omega

theorem enclen_eq (hs : (payload s).length < 2^32) :
    (lpEncodeGetType s).2 = (payload s).length := by
  unfold payload lpEncodeGetType at *
  cases hi : lpStringToInt64 s with
  | some v => rfl
  | none =>
    simp only [hi] at hs
    unfold lpEncodeString at *
    split_ifs at hs ⊢ with h6 h12
    · simp [Nat.add_comm]
    · simp only [Option.getD_none, length_cons]
      omega
    · simp only [Option.getD_none, length_cons, length_append, leBytes_length] at hs ⊢
      omega

theorem decodeBacklenLoop_more (hb : loadByte m p = .ok (backlenByte n)) (hp : 0 < p)
    (hs : shift+7 ≤ 28) :
    lpDecodeBacklenLoop m (fuel+1) p shift val =
      lpDecodeBacklenLoop m fuel (p-1) (shift+7) (val+n%128*2^shift) := by
  have hnat : (backlenByte n).toNat = 128+n%128 := by
    rw [backlenByte, toNat_ofNat']
    omega
  rw [lpDecodeBacklenLoop, hb, ok_bind]
  dsimp only
  rw [hnat, if_neg (by omega), if_neg (by omega), if_neg (by omega), Nat.add_mod_left,
    Nat.mod_mod]

theorem decodeBacklenLoop_last (hb : loadByte m p = .ok (ofNat n)) (hn : n < 128) :
    lpDecodeBacklenLoop m (fuel+1) p shift val = .ok (val+n*2^shift) := by
  have hnat : (ofNat n).toNat = n := by
    rw [toNat_ofNat']
    omega
  rw [lpDecodeBacklenLoop, hb, ok_bind]
  dsimp only
  rw [hnat, if_pos hn, Nat.mod_eq_of_lt hn]

theorem lpDecodeBacklen_at {a c : Bytes} {l : ℕ} (hl : l < 2^35)
    (hm : m = a ++ (lpEncodeBacklen l ++ c)) (hp : p+1 = a.length+(lpEncodeBacklen l).length) :
    lpDecodeBacklen m p = .ok l := by
  have hload (x : Bytes) (b : UInt8) (y : Bytes) (hx : lpEncodeBacklen l = x ++ b :: y) (q : ℕ)
      (hq : q = a.length+x.length) : loadByte m q = .ok b := by
    have hsplit : m = (a ++ x) ++ b :: (y ++ c) := by simp [hm, hx]
    exact loadByte_at hsplit (by simp [hq])
  unfold lpEncodeBacklen at hp hload
  unfold lpDecodeBacklen
  split_ifs at hp hload with h1 h2 h3 h4
  · simp only [length_cons, length_nil] at hp
    rw [decodeBacklenLoop_last (hload [] _ _ rfl p (by simp; omega)) (by omega)]
    simp
  · simp only [length_cons, length_nil] at hp
    rw [decodeBacklenLoop_more (hload [_] _ _ rfl p (by simp; omega)) (by omega) (by omega),
      decodeBacklenLoop_last (hload [] _ _ rfl (p-1) (by simp; omega)) (by omega)]
    congr 1
    omega
  · simp only [length_cons, length_nil] at hp
    rw [decodeBacklenLoop_more (hload [_, _] _ _ rfl p (by simp; omega)) (by omega) (by omega),
      decodeBacklenLoop_more (hload [_] _ _ rfl (p-1) (by simp; omega)) (by omega) (by omega),
      decodeBacklenLoop_last (hload [] _ _ rfl (p-1-1) (by simp; omega)) (by omega)]
    congr 1
    omega
  · simp only [length_cons, length_nil] at hp
    rw [decodeBacklenLoop_more (hload [_, _, _] _ _ rfl p (by simp; omega)) (by omega) (by omega),
      decodeBacklenLoop_more (hload [_, _] _ _ rfl (p-1) (by simp; omega)) (by omega) (by omega),
      decodeBacklenLoop_more (hload [_] _ _ rfl (p-1-1) (by simp; omega)) (by omega) (by omega),
      decodeBacklenLoop_last (hload [] _ _ rfl (p-1-1-1) (by simp; omega)) (by omega)]
    congr 1
    omega
  · simp only [length_cons, length_nil] at hp
    rw [decodeBacklenLoop_more (hload [_, _, _, _] _ _ rfl p (by simp; omega)) (by omega)
        (by omega),
      decodeBacklenLoop_more (hload [_, _, _] _ _ rfl (p-1) (by simp; omega)) (by omega)
        (by omega),
      decodeBacklenLoop_more (hload [_, _] _ _ rfl (p-1-1) (by simp; omega)) (by omega) (by omega),
      decodeBacklenLoop_more (hload [_] _ _ rfl (p-1-1-1) (by simp; omega)) (by omega) (by omega),
      decodeBacklenLoop_last (hload [] _ _ rfl (p-1-1-1-1) (by simp; omega)) (by omega)]
    congr 1
    omega

theorem lpEncodeBacklen_length_pos (l : ℕ) : 0 < (lpEncodeBacklen l).length := by
  unfold lpEncodeBacklen
  split_ifs <;> simp

end RedisCore.Listpack
