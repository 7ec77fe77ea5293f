import RedisCore.Outcome
import RedisCore.ZiplistRefinement

namespace RedisCore.Ziplist

variable {zl : Bytes} {es : List Entry}

def entryPos (es : List Entry) (j : ℕ) : ℕ := 10+entriesLen (es.take j)

/-- The pointer a walk holds at entry `j`, `NULL` behind the last one. -/
def cursorAt (es : List Entry) (j : ℕ) : Option ℕ :=
  if j < es.length then some (entryPos es j) else none

variable {j w p k : ℕ} {m bs : Bytes} {v : ℤ} {encoding : UInt8}

theorem cursorAt_of_lt (h : j < es.length) : cursorAt es j = some (entryPos es j) :=
  if_pos h

theorem cursorAt_of_le (h : es.length ≤ j) : cursorAt es j = none :=
  if_neg (by omega)

theorem ziplistIndex_zero (h : Parses zl es) : ziplistIndex zl 0 = .ok (cursorAt es 0) := by
  obtain ⟨cnt, -, rfl⟩ := h.layout
  rw [ziplistIndex_blob cnt h.entries h.size]
  congr 1
  unfold cursorAt indexPos entryPos
  by_cases hlen : 0 < es.length
  · rw [if_pos (by omega), if_pos hlen]
    rfl
  · rw [if_neg (by omega), if_neg (by omega), if_neg hlen]
    rfl

theorem ziplistNext_at (h : Parses zl es) (hj : j < es.length) :
    ziplistNext zl (entryPos es j) = .ok (cursorAt es (j+1)) := by
  obtain ⟨cnt, -, rfl⟩ := h.layout
  exact ziplistNext_blob cnt h.entries h.size hj

theorem ziplistGet_at (h : Parses zl es) (hj : j < es.length) :
    ∃ v, ziplistGet zl (some (entryPos es j)) = .ok (some v) ∧ v.text = es[j].text := by
  obtain ⟨cnt, -, rfl⟩ := h.layout
  obtain ⟨a, c, hok, hlt, -, hm, ha, -⟩ := entry_at cnt h.entries h.size hj
  exact ziplistGet_entry hok hlt hm ha

theorem toSigned_range {n : ℕ} (hw : 0 < w) (h : n < 2^w) :
    -2^(w-1) ≤ toSigned w n ∧ toSigned w n < 2^(w-1) := by
  have hpow : (2:ℕ)^w = 2*2^(w-1) := by
    obtain ⟨k, rfl⟩ : ∃ k, w = k+1 := ⟨w-1, by omega⟩
    rw [pow_succ, Nat.add_sub_cancel, Nat.mul_comm]
  have hz : ((2:ℤ)^w) = 2*2^(w-1) := by exact_mod_cast hpow
  have hn : (n:ℤ) < 2^w := by exact_mod_cast h
  have hcast : (((2:ℕ)^(w-1) : ℕ) : ℤ) = (2:ℤ)^(w-1) := by push_cast; rfl
  unfold toSigned
  split_ifs with hlow
  · exact ⟨by omega, by omega⟩
  · exact ⟨by omega, by omega⟩

theorem loadBytes_length (h : loadBytes m p k = .ok bs) : bs.length = k := by
  unfold loadBytes at h
  split_ifs at h with hle
  injection h with h
  rw [← h, List.length_take, List.length_drop]
  omega

theorem leNat_loadBytes (h : loadBytes m p k = .ok bs) : leNat bs < 2^(8*k) := by
  have hlt := leNat_lt bs
  rwa [loadBytes_length h, show 256 = 2^8 by norm_num, ← pow_mul] at hlt

theorem loadSigned_range (hw : w = 8*k) (hk : 0 < k) (hk8 : k ≤ 8)
    (h : (do return toSigned w (leNat (← loadBytes m p k)) : Except Fault ℤ) = .ok v) :
    -2^63 ≤ v ∧ v < 2^63 := by
  obtain ⟨bs, hb, hv⟩ := except_bind_eq_ok.1 h
  obtain rfl : toSigned w (leNat bs) = v := by injection hv
  have hrange := toSigned_range (w := w) (by omega) (hw ▸ leNat_loadBytes hb)
  have hle : (2:ℤ)^(w-1) ≤ 2^63 := pow_le_pow_right₀ (by norm_num) (by omega)
  omega

theorem zipLoadInteger_range (h : zipLoadInteger m p encoding = .ok v) : -2^63 ≤ v ∧ v < 2^63 := by
  unfold zipLoadInteger at h
  split_ifs at h with h1 h2 h3 h4 h5 h6
  · exact loadSigned_range (k := 1) rfl (by norm_num) (by norm_num) h
  · exact loadSigned_range (k := 2) rfl (by norm_num) (by norm_num) h
  · exact loadSigned_range (k := 4) rfl (by norm_num) (by norm_num) h
  · -- the 24-bit form is a signed 32-bit number divided by 256
    obtain ⟨bs, hb, hv⟩ := except_bind_eq_ok.1 h
    obtain rfl : toSigned 32 (leNat (0 :: bs))/256 = v := by injection hv
    have hlt : leNat (0 :: bs) < 2^32 := by
      have := leNat_loadBytes hb
      simp only [leNat, UInt8.toNat_zero]
      omega
    have := toSigned_range (w := 32) (by norm_num) hlt
    norm_num at this ⊢
    omega
  · exact loadSigned_range (k := 8) rfl (by norm_num) (by norm_num) h
  · have hv : ((encoding &&& zipIntImmMask).toNat : ℤ)-1 = v := by injection h
    have hbyte := UInt8.toNat_lt (encoding &&& zipIntImmMask)
    generalize (encoding &&& zipIntImmMask).toNat = n at hv hbyte
    omega

theorem zipTryEncoding_decimal (hlo : -2^63 ≤ v) (hhi : v < 2^63) :
    ∃ encoding, zipTryEncoding (decimal v) = some (v, encoding) := by
  have hlen := decimal_length hlo hhi
  rw [zipTryEncoding, if_neg (by omega), string2ll_decimal hlo hhi]
  dsimp only
  split_ifs <;> exact ⟨_, rfl⟩

theorem zipTryEncoding_text {s : Bytes} (h : zipTryEncoding s = some (v, encoding)) : decimal v = s
    := by
  unfold zipTryEncoding at h
  split_ifs at h with hlen
  cases hv : string2ll s with
  | none => simp [hv] at h
  | some w =>
    have hw : w = v := by
      simp only [hv] at h
      split_ifs at h <;> simp_all
    rw [← hw]
    exact (string2ll_some hv).1

theorem ziplistCompare_at (h : Parses zl es) (hj : j < es.length) (s : Bytes) :
    ziplistCompare zl (entryPos es j) s = .ok (decide (es[j].text = s)) := by
  obtain ⟨cnt, -, rfl⟩ := h.layout
  obtain ⟨a, c, hok, hlt, -, hm, ha, -⟩ := entry_at cnt h.entries h.size hj
  obtain ⟨b, hb, hne, -⟩ := loadByte_entry hok.narrow hm ha
  obtain ⟨v, hv⟩ := bodyValue_total hok.body
  have htext : es[j].text = v.text := by rw [Entry.text, hv]
  obtain ⟨⟨encoding, lensize, len⟩, hd, hv⟩ := except_bind_eq_ok.1 hv
  have hm' : blob es cnt = (a ++ encodePrev es[j].wide (rawAfter 0 (es.take j))) ++
      (es[j].body ++ c) := by rw [hm, encodeEntry, List.append_assoc, List.append_assoc]
  have hd' := zipDecodeLength_at (p := entryPos es j+prevSize es[j].wide) hd hm'
    (by simp [entryPos, ha])
  have hoff : entryPos es j+(prevSize es[j].wide+lensize) =
      (a ++ encodePrev es[j].wide (rawAfter 0 (es.take j))).length+lensize := by
    simp [entryPos, ha, Nat.add_assoc]
  have hpos : loadByte (blob es cnt) (entryPos es j) = .ok b := hb
  have hprev : zipDecodePrevlen (blob es cnt) (entryPos es j) = _ :=
    zipDecodePrevlen_entry hok.narrow hlt hm ha
  rw [htext, ziplistCompare, hpos, ok_bind, if_neg hne, zipEntry, hprev, ok_bind]
  dsimp only
  rw [hd', ok_bind]
  dsimp only at hv ⊢
  rw [except_pure, ok_bind]
  dsimp only
  split_ifs at hv ⊢ with hs hl
  · obtain ⟨x, hx, hv⟩ := except_bind_eq_ok.1 hv
    obtain rfl : v = .str x := by injection hv with hv; exact hv.symm
    rw [hoff, hm', loadBytes_append_right rfl, loadBytes_append_left hx, ok_bind]
    exact congrArg Except.ok (Bool.beq_eq_decide_eq x s)
  · -- a text of another length
    obtain ⟨x, hx, hv⟩ := except_bind_eq_ok.1 hv
    obtain rfl : v = .str x := by injection hv with hv; exact hv.symm
    have hxlen : x.length = len := loadBytes_length hx
    have hne : x ≠ s := fun h => hl (by rw [← hxlen, h])
    rw [ZlValue.text, decide_eq_false hne]
    rfl
  · obtain ⟨x, hx, hv⟩ := except_bind_eq_ok.1 hv
    obtain rfl : v = .int x := by injection hv with hv; exact hv.symm
    obtain ⟨hlo, hhi⟩ := zipLoadInteger_range hx
    have hx' : zipLoadInteger (blob es cnt) (entryPos es j+(prevSize es[j].wide+lensize)) encoding =
        .ok x := by
      rw [hm', hoff, zipLoadInteger_append_right, zipLoadInteger_append_left hx]
    cases ht : zipTryEncoding s with
    | none =>
      have hne : decimal x ≠ s := by
        intro heq
        obtain ⟨enc, henc⟩ := zipTryEncoding_decimal hlo hhi
        rw [← heq, henc] at ht
        cases ht
      rw [ZlValue.text, decide_eq_false hne]
      rfl
    | some r =>
      obtain ⟨sval, enc⟩ := r
      have hs' := zipTryEncoding_text ht
      dsimp only
      rw [hx', ok_bind]
      have hiff : decimal x = s ↔ x = sval := by
        constructor
        · intro heq
          obtain ⟨enc', henc⟩ := zipTryEncoding_decimal hlo hhi
          rw [heq, ht] at henc
          exact (congrArg Prod.fst (Option.some.inj henc)).symm
        · rintro rfl
          exact hs'
      rw [ZlValue.text, Bool.beq_eq_decide_eq, decide_eq_decide.mpr hiff]
      rfl

theorem ziplistInsert_at (h : Parses zl es) (hj : j ≤ es.length) (s : Bytes) :
    ReturnsOr .sizeWrap (ziplistInsert zl (entryPos es j) s) (fun zl' => ∃ es', Parses zl' es' ∧
      texts es' = (texts es).take j ++ s :: (texts es).drop j ∧ es'.take j = es.take j) := by
  have hlen : (es.take j).length = j := by rw [List.length_take]; omega
  rw [returnsOr_iff]
  rcases insert_step (s := s) h j rfl with he | ⟨zl', es', hi, hp, ht, hpre⟩
  · exact Or.inl he
  · rw [hlen] at hpre
    exact Or.inr ⟨zl', hi, es', hp, ht, hpre⟩

theorem ziplistEntryEnd_parses (h : Parses zl es) :
    ziplistEntryEnd zl = .ok (entryPos es es.length) := by
  obtain ⟨cnt, -, rfl⟩ := h.layout
  have hb : ziplistBytes (blob es cnt) = .ok (blobLen es) := ziplistBytes_header h.size
  rw [ziplistEntryEnd, hb, entryPos, List.take_length]
  rfl

theorem ziplistPush_tail (h : Parses zl es) (s : Bytes) :
    ReturnsOr .sizeWrap (ziplistPush zl s .tail) (fun zl' => ∃ es', Parses zl' es' ∧
      texts es' = texts es ++ [s]) := by
  rw [ziplistPush, ziplistEntryEnd_parses h, ok_bind]
  apply (ziplistInsert_at h le_rfl s).mono
  rintro zl' ⟨es', hp, ht, -⟩
  rw [← texts_length, List.take_length, List.drop_length] at ht
  exact ⟨es', hp, ht⟩

theorem ziplistPush_head (h : Parses zl es) (s : Bytes) :
    ReturnsOr .sizeWrap (ziplistPush zl s .head) (fun zl' => ∃ es', Parses zl' es' ∧
      texts es' = s :: texts es) := by
  apply (ziplistInsert_at h (Nat.zero_le _) s).mono
  rintro zl' ⟨es', hp, ht, -⟩
  exact ⟨es', hp, ht⟩

end RedisCore.Ziplist
