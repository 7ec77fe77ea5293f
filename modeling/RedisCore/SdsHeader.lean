import RedisCore.SdsModel
import RedisCore.WordBytes

namespace RedisCore.DynamicString
open List (append_assoc length_append length_drop length_nil nil_append)

variable {x x' : Sds} {type : SdsType} {len alloc : ℕ} {body : Bytes}

theorem limit_eq (h : type ≠ .type5) : type.limit = 256 ^ type.width := by
  cases type with
  | type5 => exact absurd rfl h
  | _ => norm_num [SdsType.limit, SdsType.width]

variable {n i newlen : ℕ} {a b c h0 : Bytes}

theorem sdsReqType_limit (h : n < 2^64) : n < (sdsReqType n).limit := by
  unfold sdsReqType
  split_ifs with h5 h8 h16 h32
  · exact h5
  · exact h8
  · exact h16
  · exact h32
  · exact h

theorem code_lt (type : SdsType) : type.code < 5 := by
  cases type <;> decide

theorem typeOf_code (type : SdsType) (n : ℕ) : typeOf (UInt8.ofNat (type.code + n * 8)) = some type := by
  have hcode := code_lt type
  have hmod : (UInt8.ofNat (type.code + n * 8)).toNat % 8 = type.code := by
    rw [UInt8.toNat_ofNat']
    omega
  unfold typeOf
  rw [hmod]
  cases type <;> rfl

def SdsType.header (type : SdsType) (len alloc : ℕ) : Bytes :=
  if type = .type5 then [UInt8.ofNat (len * 8)]
  else leBytes type.width len ++ leBytes type.width alloc ++ [UInt8.ofNat type.code]

structure Laid (x : Sds) (type : SdsType) (len alloc : ℕ) (body : Bytes) : Prop where
  block : x.block = type.header len alloc ++ body
  start : x.s = sdsHdrSize type
  lenFits : len < type.limit
  allocFits : alloc < type.limit
  five : type = .type5 → alloc = len

theorem header_five (len alloc : ℕ) : SdsType.type5.header len alloc = [UInt8.ofNat (len * 8)] := rfl

theorem header_wide (h : type ≠ .type5) (len alloc : ℕ) : type.header len alloc =
    leBytes type.width len ++ leBytes type.width alloc ++ [UInt8.ofNat type.code] := if_neg h

theorem header_length (type : SdsType) (len alloc : ℕ) :
    (type.header len alloc).length = sdsHdrSize type := by
  by_cases h : type = .type5
  · rw [h]
    rfl
  · rw [header_wide h]
    simp only [length_append, leBytes_length, List.length_singleton, sdsHdrSize]
    omega

theorem loadBack_at (hblock : x.block = a ++ (b ++ c))
    (hs : x.s = a.length + i) (hn : n = b.length) : loadBack x i n = .ok b := by
  unfold loadBack
  rw [if_pos (by omega)]
  exact loadBytes_at hblock (by omega) hn

theorem storeBack_at (b' : Bytes) (hblock : x.block = a ++ (b ++ c))
    (hs : x.s = a.length + i) (hlen : b.length = b'.length) :
    storeBack x i b' = .ok { x with block := a ++ (b' ++ c) } := by
  unfold storeBack
  rw [if_pos (by omega), storeBytes_at hblock (by omega) hlen, ok_bind]

theorem Laid.loadFlags (h : Laid x type len alloc body) :
    ∃ b, loadFlags x = .ok b ∧ typeOf b = some type ∧ (type = .type5 → b.toNat / 8 = len) := by
  by_cases hfive : type = .type5
  · have hlen : len < 32 := by
      have := h.lenFits
      rw [hfive] at this
      exact this
    have hblock : x.block = [] ++ ([UInt8.ofNat (len * 8)] ++ body) := by
      rw [h.block, hfive, header_five, nil_append]
    have hs : x.s = ([] : Bytes).length + 1 := by rw [h.start, hfive]; rfl
    refine ⟨UInt8.ofNat (len * 8), ?_, ?_, ?_⟩
    · unfold DynamicString.loadFlags
      rw [loadBack_at hblock hs (n := 1) rfl, ok_bind, List.headD_cons]
    · have hcode := typeOf_code .type5 len
      rw [hfive]
      rwa [show SdsType.type5.code = 0 from rfl, Nat.zero_add] at hcode
    · intro _
      rw [UInt8.toNat_ofNat']
      omega
  · have hblock : x.block = (leBytes type.width len ++ leBytes type.width alloc) ++
        ([UInt8.ofNat type.code] ++ body) := by
      rw [h.block, header_wide hfive]
      simp only [append_assoc]
    have hs : x.s = (leBytes type.width len ++ leBytes type.width alloc).length + 1 := by
      rw [h.start, length_append, leBytes_length, leBytes_length, sdsHdrSize]
      omega
    refine ⟨UInt8.ofNat type.code, ?_, ?_, fun hf => absurd hf hfive⟩
    · unfold DynamicString.loadFlags
      rw [loadBack_at hblock hs (n := 1) rfl, ok_bind, List.headD_cons]
    · have hcode := typeOf_code type 0
      rwa [Nat.zero_mul, Nat.add_zero] at hcode

theorem Laid.loadLen (h : Laid x type len alloc body) (hfive : type ≠ .type5) :
    loadLen x type = .ok len := by
  have hblock : x.block = [] ++ (leBytes type.width len ++
      (leBytes type.width alloc ++ [UInt8.ofNat type.code] ++ body)) := by
    rw [h.block, header_wide hfive]
    simp only [append_assoc, nil_append]
  have hs : x.s = ([] : Bytes).length + sdsHdrSize type := by rw [h.start, length_nil, Nat.zero_add]
  unfold DynamicString.loadLen
  rw [loadBack_at hblock hs (leBytes_length _ _).symm, ok_bind,
    leNat_leBytes_of_lt (by rw [← limit_eq hfive]; exact h.lenFits)]

theorem Laid.loadAlloc (h : Laid x type len alloc body) (hfive : type ≠ .type5) :
    loadAlloc x type = .ok alloc := by
  have hblock : x.block = leBytes type.width len ++ (leBytes type.width alloc ++
      ([UInt8.ofNat type.code] ++ body)) := by
    rw [h.block, header_wide hfive]
    simp only [append_assoc]
  have hs : x.s = (leBytes type.width len).length + (type.width + 1) := by
    rw [h.start, leBytes_length, sdsHdrSize]
    omega
  unfold DynamicString.loadAlloc
  rw [loadBack_at hblock hs (leBytes_length _ _).symm, ok_bind,
    leNat_leBytes_of_lt (by rw [← limit_eq hfive]; exact h.allocFits)]

theorem Laid.sdslen (h : Laid x type len alloc body) : sdslen x = .ok len := by
  obtain ⟨b, hb, htype, hlen⟩ := h.loadFlags
  unfold DynamicString.sdslen
  rw [hb, ok_bind, htype]
  dsimp only
  by_cases hfive : type = .type5
  · rw [if_pos hfive, hlen hfive]
  · rw [if_neg hfive, h.loadLen hfive]

theorem Laid.sdsalloc (h : Laid x type len alloc body) : sdsalloc x = .ok alloc := by
  obtain ⟨b, hb, htype, hlen⟩ := h.loadFlags
  unfold DynamicString.sdsalloc
  rw [hb, ok_bind, htype]
  dsimp only
  by_cases hfive : type = .type5
  · rw [if_pos hfive, hlen hfive, h.five hfive]
  · rw [if_neg hfive, h.loadAlloc hfive]

theorem limit_le (type : SdsType) : type.limit ≤ 2^64 := by
  cases type <;> norm_num [SdsType.limit]

theorem Laid.sdsavail (h : Laid x type len alloc body) (hle : len ≤ alloc) :
    sdsavail x = .ok (alloc - len) := by
  obtain ⟨b, hb, htype, -⟩ := h.loadFlags
  have hlimit := limit_le type
  have halloc := h.allocFits
  have hsize : sizeT (alloc + 2^64 - len) = alloc - len := by
    unfold sizeT
    omega
  unfold DynamicString.sdsavail
  rw [hb, ok_bind, htype]
  dsimp only
  by_cases hfive : type = .type5
  · rw [if_pos hfive, h.five hfive, Nat.sub_self]
  · rw [if_neg hfive, h.loadAlloc hfive, ok_bind, h.loadLen hfive, ok_bind, hsize]

theorem Laid.sdssetlen (h : Laid x type len alloc body) (hnew : newlen < type.limit) :
    ∃ x', sdssetlen x newlen = .ok x' ∧
      Laid x' type newlen (if type = .type5 then newlen else alloc) body := by
  obtain ⟨b, hb, htype, -⟩ := h.loadFlags
  unfold DynamicString.sdssetlen
  rw [hb, ok_bind, htype]
  dsimp only
  by_cases hfive : type = .type5
  · have hblock : x.block = [] ++ ([UInt8.ofNat (len * 8)] ++ body) := by
      rw [h.block, hfive, header_five, nil_append]
    have hs : x.s = ([] : Bytes).length + 1 := by rw [h.start, hfive]; rfl
    rw [if_pos hfive, if_pos hfive, storeBack_at [UInt8.ofNat (newlen * 8)] hblock hs rfl]
    refine ⟨_, rfl, ?_, h.start, hnew, hnew, fun _ => rfl⟩
    rw [hfive, header_five, nil_append]
  · have hblock : x.block = [] ++ (leBytes type.width len ++
        (leBytes type.width alloc ++ [UInt8.ofNat type.code] ++ body)) := by
      rw [h.block, header_wide hfive]
      simp only [append_assoc, nil_append]
    have hs : x.s = ([] : Bytes).length + sdsHdrSize type := by
      rw [h.start, length_nil, Nat.zero_add]
    rw [if_neg hfive, if_neg hfive,
      storeBack_at _ hblock hs (by rw [leBytes_length, leBytes_length])]
    refine ⟨_, rfl, ?_, h.start, hnew, h.allocFits, fun hf => absurd hf hfive⟩
    rw [header_wide hfive]
    simp only [append_assoc, nil_append]

theorem Laid.sdssetalloc (h : Laid x type len alloc body) (hnew : newlen < type.limit) :
    ∃ x', sdssetalloc x newlen = .ok x' ∧
      Laid x' type len (if type = .type5 then len else newlen) body := by
  obtain ⟨b, hb, htype, -⟩ := h.loadFlags
  unfold DynamicString.sdssetalloc
  rw [hb, ok_bind, htype]
  dsimp only
  by_cases hfive : type = .type5
  · rw [if_pos hfive, if_pos hfive]
    have halloc := h.five hfive
    rw [halloc] at h
    exact ⟨x, rfl, h⟩
  · have hblock : x.block = leBytes type.width len ++ (leBytes type.width alloc ++
        ([UInt8.ofNat type.code] ++ body)) := by
      rw [h.block, header_wide hfive]
      simp only [append_assoc]
    have hs : x.s = (leBytes type.width len).length + (type.width + 1) := by
      rw [h.start, leBytes_length, sdsHdrSize]
      omega
    rw [if_neg hfive, if_neg hfive,
      storeBack_at _ hblock hs (by rw [leBytes_length, leBytes_length])]
    refine ⟨_, rfl, ?_, h.start, h.lenFits, hnew, fun hf => absurd hf hfive⟩
    rw [header_wide hfive]
    simp only [append_assoc]

theorem header_split (hlen : h0.length = sdsHdrSize type) :
    ∃ a b c, h0 = a ++ (b ++ c) ∧ a.length = type.width ∧ b.length = type.width ∧ c.length = 1 := by
  unfold sdsHdrSize at hlen
  refine ⟨h0.take type.width, (h0.drop type.width).take type.width, (h0.drop type.width).drop type.width,
    ?_, ?_, ?_, ?_⟩
  · rw [List.take_append_drop, List.take_append_drop]
  · rw [List.length_take]
    omega
  · rw [List.length_take, length_drop]
    omega
  · rw [length_drop, length_drop]
    omega

theorem laid_of_flags (hblock : x.block = h0 ++ body) (hlen : h0.length = sdsHdrSize type)
    (hs : x.s = sdsHdrSize type) :
    ∃ x', storeBack x 1 [UInt8.ofNat type.code] = .ok x' ∧
      ∃ len alloc, Laid x' type len alloc body := by
  by_cases hfive : type = .type5
  · rw [hfive] at hlen hs ⊢
    have hone : x.block = [] ++ (h0 ++ body) := hblock
    rw [storeBack_at _ hone (by rw [hs]; rfl) (by rw [hlen]; rfl)]
    exact ⟨_, rfl, 0, 0, rfl, hs, by decide, by decide, fun _ => rfl⟩
  · obtain ⟨a, b, c, hsplit, ha, hb, hc⟩ := header_split hlen
    have hwhole : x.block = (a ++ b) ++ (c ++ body) := by
      rw [hblock, hsplit]
      simp only [append_assoc]
    have hstart : x.s = (a ++ b).length + 1 := by
      rw [hs, length_append, ha, hb, sdsHdrSize]
      omega
    have hbelow : ∀ bs : Bytes, bs.length = type.width → leNat bs < type.limit := by
      intro bs hbs
      rw [limit_eq hfive, ← hbs]
      exact leNat_lt bs
    have hlenField := leBytes_leNat a
    have hallocField := leBytes_leNat b
    rw [ha] at hlenField
    rw [hb] at hallocField
    rw [storeBack_at _ hwhole hstart (by rw [hc]; rfl)]
    refine ⟨_, rfl, leNat a, leNat b, ?_, hs, hbelow a ha, hbelow b hb, fun hf => absurd hf hfive⟩
    rw [header_wide hfive, hlenField, hallocField]
    simp only [append_assoc]

theorem initHeader_laid (hblock : x.block = h0 ++ body)
    (hlen : h0.length = sdsHdrSize type) (hs : x.s = sdsHdrSize type) (hn : n < type.limit) :
    ∃ x', initHeader x type n = .ok x' ∧ Laid x' type n n body := by
  unfold initHeader
  by_cases hfive : type = .type5
  · rw [hfive] at hlen hs hn ⊢
    have hone : x.block = [] ++ (h0 ++ body) := hblock
    rw [if_pos rfl, storeBack_at _ hone (by rw [hs]; rfl) (by rw [hlen]; rfl)]
    refine ⟨_, rfl, ?_, hs, hn, hn, fun _ => rfl⟩
    rw [header_five, show SdsType.type5.code = 0 from rfl, Nat.zero_add, nil_append]
  · obtain ⟨a, b, c, hsplit, ha, hb, hc⟩ := header_split hlen
    have hfirst : x.block = [] ++ (a ++ (b ++ c ++ body)) := by
      rw [hblock, hsplit]
      simp only [append_assoc, nil_append]
    have hstart1 : x.s = ([] : Bytes).length + sdsHdrSize type := by
      rw [hs, length_nil, Nat.zero_add]
    rw [if_neg hfive, storeBack_at (leBytes type.width n) hfirst hstart1 (by rw [ha, leBytes_length]),
      ok_bind]
    have hstart2 : x.s = (leBytes type.width n).length + (type.width + 1) := by
      rw [hs, leBytes_length, sdsHdrSize]
      omega
    have hsecond : [] ++ (leBytes type.width n ++ (b ++ c ++ body)) =
        leBytes type.width n ++ (b ++ (c ++ body)) := by
      simp only [append_assoc, nil_append]
    rw [storeBack_at (x := ⟨_, x.s⟩) (leBytes type.width n) hsecond hstart2
      (by rw [hb, leBytes_length]), ok_bind]
    have hstart3 : x.s = (leBytes type.width n ++ leBytes type.width n).length + 1 := by
      rw [hs, length_append, leBytes_length, sdsHdrSize]
      omega
    have hthird : leBytes type.width n ++ (leBytes type.width n ++ (c ++ body)) =
        (leBytes type.width n ++ leBytes type.width n) ++ (c ++ body) := by
      simp only [append_assoc]
    rw [storeBack_at (x := ⟨_, x.s⟩) [UInt8.ofNat type.code] hthird hstart3 (by rw [hc]; rfl)]
    refine ⟨_, rfl, ?_, hs, hn, hn, fun hf => absurd hf hfive⟩
    rw [header_wide hfive]
    simp only [append_assoc]

theorem Laid.load (h : Laid x type len alloc body) (hbody : body = a ++ (b ++ c))
    (hi : i = a.length) (hn : n = b.length) : load x i n = .ok b := by
  have hblock : x.block = (type.header len alloc ++ a) ++ (b ++ c) := by
    rw [h.block, hbody]
    simp only [append_assoc]
  unfold DynamicString.load
  exact loadBytes_at hblock (by rw [length_append, header_length, h.start, hi]) hn

theorem Laid.store (h : Laid x type len alloc body) {t : Bytes} (hbody : body = a ++ (b ++ c))
    (hi : i = a.length) (ht : b.length = t.length) :
    ∃ x', store x i t = .ok x' ∧ Laid x' type len alloc (a ++ (t ++ c)) := by
  have hblock : x.block = (type.header len alloc ++ a) ++ (b ++ c) := by
    rw [h.block, hbody]
    simp only [append_assoc]
  unfold DynamicString.store
  rw [storeBytes_at hblock (by rw [length_append, header_length, h.start, hi]) ht, ok_bind]
  refine ⟨_, rfl, ?_, h.start, h.lenFits, h.allocFits, h.five⟩
  simp only [append_assoc]

end RedisCore.DynamicString
