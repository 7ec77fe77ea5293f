import RedisCore.SdsHeader

namespace RedisCore.DynamicString
open List (append_assoc length_append length_cons length_drop length_eq_zero_iff length_take
  replicate take_append_drop)

variable {noise : ℕ → UInt8} {x x' : Sds} {type : SdsType} {len alloc : ℕ} {body slack content : Bytes}

/-- The content, its terminator and the bytes behind it, which the shortest header does not know
about, are the body of a block. -/
structure Holds (x : Sds) (type : SdsType) (alloc : ℕ) (slack content : Bytes) : Prop where
  laid : Laid x type content.length alloc (content ++ 0 :: slack)
  room : type ≠ .type5 → content.length + slack.length = alloc

theorem Holds.le (h : Holds x type alloc slack content) : content.length ≤ alloc := by
  by_cases hfive : type = .type5
  · exact (h.laid.five hfive).ge
  · have := h.room hfive
    omega

theorem Holds.size (h : Holds x type alloc slack content) :
    sdsHdrSize type + alloc + 1 ≤ x.block.length ∧
      (type ≠ .type5 → x.block.length = sdsHdrSize type + alloc + 1) := by
  have hlen : x.block.length = sdsHdrSize type + (content.length + (slack.length + 1)) := by
    rw [h.laid.block, length_append, header_length, length_append, length_cons]
  constructor
  · by_cases hfive : type = .type5
    · have := h.laid.five hfive
      omega
    · have := h.room hfive
      omega
  · intro hfive
    have := h.room hfive
    omega

theorem fresh_length (noise : ℕ → UInt8) (n : ℕ) : (fresh noise n).length = n := by
  rw [fresh, List.length_map, List.length_range]

theorem sizeT_small {n : ℕ} (h : n < 2^64) : sizeT n = n := Nat.mod_eq_of_lt h

theorem sdsHdrSize_le (type : SdsType) : sdsHdrSize type ≤ 17 := by
  cases type <;> decide

theorem Laid.close (h : Laid x type len alloc body) {b : UInt8} {n : ℕ}
    (hbody : body = content ++ b :: slack) (hn : n = content.length) (hfits : n < type.limit)
    (hroom : type ≠ .type5 → body.length = alloc + 1) :
    ∃ x', (do let x ← DynamicString.sdssetlen x n; DynamicString.store x n [0]) = .ok x' ∧
      Holds x' type (if type = .type5 then n else alloc) slack content := by
  obtain ⟨x1, hset, hlaid⟩ := h.sdssetlen hfits
  obtain ⟨x2, hstore, hlaid⟩ := hlaid.store (b := [b]) (t := [0]) hbody hn rfl
  refine ⟨x2, ?_, ?_, ?_⟩
  · rw [hset, ok_bind, hstore]
  · rw [← hn]
    exact hlaid
  · intro hfive
    have hlen := hroom hfive
    rw [hbody, length_append, length_cons] at hlen
    rw [if_neg hfive]
    omega

theorem Laid.close' (h : Laid x type len alloc body) {b : UInt8} {n : ℕ}
    (hbody : body = content ++ b :: slack) (hn : n = content.length) (hfits : n < type.limit)
    (hroom : type ≠ .type5 → body.length = alloc + 1) :
    ∃ x', (do let x ← DynamicString.store x n [0]; DynamicString.sdssetlen x n) = .ok x' ∧
      Holds x' type (if type = .type5 then n else alloc) slack content := by
  obtain ⟨x1, hstore, hlaid⟩ := h.store (b := [b]) (t := [0]) hbody hn rfl
  obtain ⟨x2, hset, hlaid⟩ := hlaid.sdssetlen hfits
  refine ⟨x2, ?_, ?_, ?_⟩
  · rw [hstore, ok_bind, hset]
  · rw [← hn]
    exact hlaid
  · intro hfive
    have hlen := hroom hfive
    rw [hbody, length_append, length_cons] at hlen
    rw [if_neg hfive]
    omega

def SdsInit.Gives : SdsInit → Bytes → Prop
  | .data t, content => content = t
  | .null n, content => content = replicate n 0
  | .noinit n, content => content.length = n

theorem SdsInit.Gives.length {init : SdsInit} (h : init.Gives content) :
    content.length = init.initlen := by
  cases init with
  | data t => rw [show content = t from h, SdsInit.initlen]
  | null n => rw [show content = replicate n 0 from h, List.length_replicate, SdsInit.initlen]
  | noinit n => exact h

theorem exists_split {l : Bytes} {n : ℕ} (h : n < l.length) :
    ∃ a b c, l = a ++ b :: c ∧ a.length = n ∧ n + c.length + 1 = l.length := by
  refine ⟨l.take n, l[n], l.drop (n+1), ?_, ?_, ?_⟩
  · rw [List.getElem_cons_drop, take_append_drop]
  · rw [length_take]
    omega
  · rw [length_drop]
    omega

theorem Laid.terminated {n : ℕ} {b : UInt8} (h : Laid x type n n (content ++ [b]))
    (hn : content.length = n) :
    ∃ x', DynamicString.store x n [0] = .ok x' ∧ Holds x' type n [] content := by
  have hbody : content ++ [b] = content ++ ([b] ++ []) := by rw [List.append_nil]
  obtain ⟨x', hstore, hlaid⟩ := h.store (t := [0]) hbody hn.symm rfl
  refine ⟨x', hstore, ?_, fun _ => hn⟩
  rw [hn]
  exact hlaid

theorem initHeader_block {block : Bytes} {n : ℕ} (hlen : block.length = sdsHdrSize type + n + 1)
    (hn : n < type.limit) :
    ∃ x' b, initHeader ⟨block, sdsHdrSize type⟩ type n = .ok x' ∧
      Laid x' type n n ((block.drop (sdsHdrSize type)).take n ++ [b]) := by
  have hdrop : (block.drop (sdsHdrSize type)).length = n + 1 := by
    rw [length_drop]
    omega
  obtain ⟨a, b, c, hsplit, ha, hc⟩ := exists_split (show n < (block.drop (sdsHdrSize type)).length by omega)
  have hnil : c = [] := length_eq_zero_iff.mp (by omega)
  have htake : (block.drop (sdsHdrSize type)).take n = a := by
    rw [hsplit, ← ha, List.take_left]
  have hblock : block = block.take (sdsHdrSize type) ++ (a ++ [b]) := by
    rw [← hnil, ← hsplit, take_append_drop]
  have hstart : (block.take (sdsHdrSize type)).length = sdsHdrSize type := by
    rw [length_take]
    omega
  obtain ⟨x', hinit, hlaid⟩ :=
    initHeader_laid (x := ⟨block, sdsHdrSize type⟩) hblock hstart rfl hn
  rw [htake]
  exact ⟨x', b, hinit, hlaid⟩

theorem Laid.initBytes {n : ℕ} {old t : Bytes} {b : UInt8} (h : Laid x type n n (old ++ [b]))
    (hlen : old.length = t.length) :
    ∃ x', DynamicString.initBytes x (.data t) = .ok x' ∧ Laid x' type n n (t ++ [b]) := by
  rw [DynamicString.initBytes]
  by_cases hempty : t.length ≠ 0
  · rw [if_pos hempty]
    exact h.store (a := []) (b := old) (c := [b]) (t := t) rfl rfl hlen
  · have hnil : t = [] := length_eq_zero_iff.mp (not_not.mp hempty)
    have hold : old = [] := length_eq_zero_iff.mp (by rw [hlen, hnil]; rfl)
    rw [if_neg hempty, hnil]
    rw [hold] at h
    exact ⟨x, rfl, h⟩

theorem sdsnewlen_holds (noise : ℕ → UInt8) {init : SdsInit} (hn : init.initlen < 2^62) :
    ∃ x type alloc slack content, sdsnewlen noise init = .ok x ∧ Holds x type alloc slack content ∧
      init.Gives content := by
  generalize htype : (if sdsReqType init.initlen = .type5 ∧ init.initlen = 0 then SdsType.type8
    else sdsReqType init.initlen) = type
  have hlimit : init.initlen < type.limit := by
    rw [← htype]
    split_ifs with hempty
    · rw [hempty.2]
      decide
    · exact sdsReqType_limit (by omega)
  have hhdr := sdsHdrSize_le type
  have hsize : sizeT (sdsHdrSize type + init.initlen + 1) = sdsHdrSize type + init.initlen + 1 :=
    sizeT_small (by omega)
  have hfresh := initHeader_block (fresh_length noise (sdsHdrSize type + init.initlen + 1)) hlimit
  unfold sdsnewlen
  dsimp only
  rw [htype, hsize]
  cases init with
  | data t =>
    obtain ⟨x1, b, hinit, hlaid⟩ := hfresh
    dsimp only [SdsInit.initlen] at hinit hlaid ⊢
    have hold : (((fresh noise (sdsHdrSize type + t.length + 1)).drop (sdsHdrSize type)).take
        t.length).length = t.length := by
      rw [length_take, length_drop, fresh_length]
      omega
    obtain ⟨x2, hbytes, hlaid⟩ := hlaid.initBytes hold
    obtain ⟨x3, hend, hholds⟩ := hlaid.terminated rfl
    refine ⟨x3, type, t.length, [], t, ?_, hholds, rfl⟩
    rw [hinit, ok_bind, hbytes, ok_bind, hend]
  | null n =>
    obtain ⟨x1, b, hinit, hlaid⟩ :=
      @initHeader_block type (replicate (sdsHdrSize type + n + 1) 0) n List.length_replicate hlimit
    dsimp only [SdsInit.initlen] at hinit hlaid ⊢
    have hzero : ((replicate (sdsHdrSize type + n + 1) (0 : UInt8)).drop (sdsHdrSize type)).take n =
        replicate n 0 := by
      rw [List.drop_replicate, List.take_replicate]
      congr 1
      omega
    rw [hzero] at hlaid
    obtain ⟨x3, hend, hholds⟩ := hlaid.terminated List.length_replicate
    refine ⟨x3, type, n, [], replicate n 0, ?_, hholds, rfl⟩
    rw [hinit, ok_bind, initBytes, ok_bind, hend]
  | noinit n =>
    obtain ⟨x1, b, hinit, hlaid⟩ := hfresh
    dsimp only [SdsInit.initlen] at hinit hlaid ⊢
    have hlen : (((fresh noise (sdsHdrSize type + n + 1)).drop (sdsHdrSize type)).take n).length = n := by
      rw [length_take, length_drop, fresh_length]
      omega
    obtain ⟨x3, hend, hholds⟩ := hlaid.terminated hlen
    refine ⟨x3, type, n, [], _, ?_, hholds, hlen⟩
    rw [hinit, ok_bind, initBytes, ok_bind, hend]

theorem roomFor_spec {len addlen : ℕ} (h : len + addlen < 2^62) :
    len + addlen ≤ roomFor len addlen ∧ roomFor len addlen < 2^63 := by
  have hsum : sizeT (len + addlen) = len + addlen := sizeT_small (by omega)
  unfold roomFor
  rw [hsum]
  unfold sdsMaxPrealloc
  split_ifs with hsmall
  · rw [sizeT_small (by omega)]
    omega
  · rw [sizeT_small (by omega)]
    omega

theorem moveTo_laid (noise : ℕ → UInt8) {oldtype : SdsType} (h : Holds x oldtype alloc slack content)
    {newlen : ℕ} (hle : content.length ≤ newlen) (hnew : newlen < type.limit) (hsmall : newlen < 2^63) :
    ∃ x', moveTo noise x oldtype type content.length newlen = .ok x' ∧ ∃ alloc' slack',
      Laid x' type content.length alloc' (content ++ 0 :: slack') ∧
        content.length + slack'.length = newlen := by
  have hhdr := sdsHdrSize_le type
  have hbody : content ++ 0 :: slack = [] ++ ((content ++ [0]) ++ slack) := by
    rw [List.nil_append, append_assoc, List.singleton_append]
  have hload := h.laid.load hbody (i := 0) rfl
    (show content.length + 1 = (content ++ [0]).length by rw [length_append]; rfl)
  have hsize : sizeT (sdsHdrSize type + newlen + 1) = sdsHdrSize type + newlen + 1 := sizeT_small (by omega)
  generalize hblock : fresh noise (sdsHdrSize type + newlen + 1) = block
  have hblen : block.length = sdsHdrSize type + newlen + 1 := by
    rw [← hblock]
    exact fresh_length _ _
  have hsplit : block = block.take (sdsHdrSize type) ++
      ((block.drop (sdsHdrSize type)).take (content.length + 1) ++
        (block.drop (sdsHdrSize type)).drop (content.length + 1)) := by
    rw [take_append_drop, take_append_drop]
  have hstart : (block.take (sdsHdrSize type)).length = sdsHdrSize type := by
    rw [length_take]
    omega
  have hmid : ((block.drop (sdsHdrSize type)).take (content.length + 1)).length =
      (content ++ [0]).length := by
    rw [length_take, length_drop, length_append, List.length_singleton]
    omega
  have hstore : storeBytes block (sdsHdrSize type + 0) (content ++ [0]) = .ok
      (block.take (sdsHdrSize type) ++ ((content ++ [0]) ++
        (block.drop (sdsHdrSize type)).drop (content.length + 1))) :=
    storeBytes_at hsplit (by rw [hstart, Nat.add_zero]) hmid
  obtain ⟨x2, hflags, len2, alloc2, hlaid2⟩ := laid_of_flags
    (x := ⟨block.take (sdsHdrSize type) ++ ((content ++ [0]) ++
      (block.drop (sdsHdrSize type)).drop (content.length + 1)), sdsHdrSize type⟩) rfl hstart rfl
  obtain ⟨x3, hset, hlaid3⟩ := hlaid2.sdssetlen (show content.length < type.limit by omega)
  refine ⟨x3, ?_, if type = .type5 then content.length else alloc2,
    (block.drop (sdsHdrSize type)).drop (content.length + 1), ?_, ?_⟩
  · unfold moveTo
    rw [hload, ok_bind, if_neg (not_not.mpr h.laid.start), hsize, hblock]
    dsimp only
    unfold store
    dsimp only
    rw [hstore, ok_bind, ok_bind, hflags, ok_bind, hset]
  · rw [append_assoc, List.singleton_append] at hlaid3
    exact hlaid3
  · rw [length_drop, length_drop]
    omega

theorem resize_grows (noise : ℕ → UInt8) (h : Laid x type len alloc body) {newlen : ℕ}
    (hle : body.length ≤ newlen + 1) (hsmall : newlen < 2^63) :
    ∃ x' tail, resize noise x (sdsHdrSize type) newlen = .ok x' ∧
      Laid x' type len alloc (body ++ tail) ∧ (body ++ tail).length = newlen + 1 := by
  have hhdr := sdsHdrSize_le type
  have hsize : sizeT (sdsHdrSize type + newlen + 1) = sdsHdrSize type + newlen + 1 := sizeT_small (by omega)
  have hblen : x.block.length = sdsHdrSize type + body.length := by
    rw [h.block, length_append, header_length]
  have hkept : x.block.take (sdsHdrSize type + newlen + 1) = x.block := List.take_of_length_le (by omega)
  unfold resize sRealloc
  rw [if_pos h.start, hsize, hkept]
  refine ⟨_, (fresh noise (sdsHdrSize type + newlen + 1)).drop x.block.length, rfl,
    ⟨?_, rfl, h.lenFits, h.allocFits, h.five⟩, ?_⟩
  · conv_lhs => rw [h.block]
    rw [append_assoc, h.block]
  · rw [length_append, length_drop, fresh_length]
    omega

theorem resize_shrinks (noise : ℕ → UInt8) (h : Laid x type len alloc body) {newlen : ℕ}
    (hle : newlen + 1 ≤ body.length) (hsmall : newlen < 2^63) :
    ∃ x', resize noise x (sdsHdrSize type) newlen = .ok x' ∧
      Laid x' type len alloc (body.take (newlen + 1)) := by
  have hhdr := sdsHdrSize_le type
  have hsize : sizeT (sdsHdrSize type + newlen + 1) = sdsHdrSize type + newlen + 1 := sizeT_small (by omega)
  have hblen : x.block.length = sdsHdrSize type + body.length := by
    rw [h.block, length_append, header_length]
  have hnone : (fresh noise (sdsHdrSize type + newlen + 1)).drop x.block.length = [] :=
    List.drop_of_length_le (by rw [fresh_length]; omega)
  unfold resize sRealloc
  rw [if_pos h.start, hsize, hnone, List.append_nil]
  refine ⟨_, rfl, ?_, rfl, h.lenFits, h.allocFits, h.five⟩
  rw [h.block, Nat.add_assoc, ← header_length type len alloc, List.take_length_add_append]

theorem sdsMakeRoomFor_holds (noise : ℕ → UInt8) (h : Holds x type alloc slack content) {addlen : ℕ}
    (hsum : content.length + addlen < 2^62) :
    ∃ x' type' alloc' slack', sdsMakeRoomFor noise x addlen = .ok x' ∧
      Holds x' type' alloc' slack' content ∧ content.length + addlen ≤ alloc' := by
  obtain ⟨b, hflags, htype, -⟩ := h.laid.loadFlags
  have hle := h.le
  unfold sdsMakeRoomFor
  rw [h.laid.sdsavail hle, ok_bind, hflags, ok_bind]
  by_cases hroom : addlen ≤ alloc - content.length
  · rw [if_pos hroom]
    exact ⟨x, type, alloc, slack, rfl, h, by omega⟩
  · rw [if_neg hroom, h.laid.sdslen, ok_bind]
    dsimp only
    obtain ⟨hlow, hhigh⟩ := roomFor_spec hsum
    generalize roomFor content.length addlen = newlen at hlow hhigh ⊢
    generalize hnew : (if sdsReqType newlen = .type5 then SdsType.type8 else sdsReqType newlen) = type'
    have hfive : type' ≠ .type5 := by
      rw [← hnew]
      split_ifs with hfive
      · decide
      · exact hfive
    have hlimit : newlen < type'.limit := by
      have hreq : newlen < (sdsReqType newlen).limit := sdsReqType_limit (by omega)
      rw [← hnew]
      split_ifs with hfive
      · rw [hfive] at hreq
        exact hreq.trans (by decide)
      · exact hreq
    rw [htype]
    dsimp only
    by_cases hsame : type = type'
    · have hrest := h.room (by rw [hsame]; exact hfive)
      have hbody : (content ++ 0 :: slack).length ≤ newlen + 1 := by
        rw [length_append, length_cons]
        omega
      obtain ⟨x1, tail, hresize, hlaid, hlen⟩ := resize_grows noise h.laid hbody hhigh
      rw [hsame] at hresize hlaid
      obtain ⟨x2, hset, hlaid⟩ := hlaid.sdssetalloc hlimit
      rw [if_neg hfive, append_assoc, List.cons_append] at hlaid
      rw [length_append, length_append, length_cons] at hlen
      refine ⟨x2, type', newlen, slack ++ tail, ?_, ⟨hlaid, fun _ => ?_⟩, hlow⟩
      · rw [if_pos hsame, hresize, ok_bind, hset]
      · rw [length_append]
        omega
    · obtain ⟨x1, hmove, alloc1, slack1, hlaid, hlen⟩ := moveTo_laid noise h (by omega) hlimit hhigh
      obtain ⟨x2, hset, hlaid⟩ := hlaid.sdssetalloc hlimit
      rw [if_neg hfive] at hlaid
      refine ⟨x2, type', newlen, slack1, ?_, ⟨hlaid, fun _ => hlen⟩, hlow⟩
      rw [if_neg hsame, hmove, ok_bind, hset]

theorem sdsRemoveFreeSpace_holds (noise : ℕ → UInt8) (h : Holds x type alloc slack content)
    (hsmall : content.length < 2^62) :
    ∃ x' type' alloc' slack', sdsRemoveFreeSpace noise x = .ok x' ∧
      Holds x' type' alloc' slack' content := by
  obtain ⟨b, hflags, htype, -⟩ := h.laid.loadFlags
  have hle := h.le
  unfold sdsRemoveFreeSpace
  rw [hflags, ok_bind, h.laid.sdslen, ok_bind, h.laid.sdsavail hle, ok_bind]
  by_cases hroom : alloc - content.length = 0
  · rw [if_pos hroom]
    exact ⟨x, type, alloc, slack, rfl, h⟩
  · have hfive : type ≠ .type5 := by
      intro hfive
      have := h.laid.five hfive
      omega
    rw [if_neg hroom, htype]
    dsimp only
    by_cases hkeep : type = sdsReqType content.length ∨
        SdsType.type8.code < (sdsReqType content.length).code
    · have hbody : content.length + 1 ≤ (content ++ 0 :: slack).length := by
        rw [length_append, length_cons]
        omega
      obtain ⟨x1, hresize, hlaid⟩ := resize_shrinks noise h.laid hbody (by omega)
      have htake : (content ++ 0 :: slack).take (content.length + 1) = content ++ [0] := by
        rw [List.take_length_add_append]
        rfl
      rw [htake] at hlaid
      obtain ⟨x2, hset, hlaid⟩ := hlaid.sdssetalloc h.laid.lenFits
      rw [if_neg hfive] at hlaid
      refine ⟨x2, type, content.length, [], ?_, hlaid, fun _ => rfl⟩
      rw [if_pos hkeep, hresize, ok_bind, hset]
    · obtain ⟨x1, hmove, alloc1, slack1, hlaid, hlen⟩ := moveTo_laid noise h le_rfl
        (sdsReqType_limit (show content.length < 2^64 by omega)) (by omega)
      have hnil : slack1 = [] := length_eq_zero_iff.mp (by omega)
      obtain ⟨x2, hset, hlaid⟩ := hlaid.sdssetalloc
        (sdsReqType_limit (show content.length < 2^64 by omega))
      rw [hnil, ite_self] at hlaid
      refine ⟨x2, _, content.length, [], ?_, hlaid, fun _ => rfl⟩
      rw [if_neg hkeep, hmove, ok_bind, hset]

end RedisCore.DynamicString
