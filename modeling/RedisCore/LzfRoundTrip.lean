import RedisCore.LzfModel
import RedisCore.Outcome

/-! What `lzf_compress` writes is decompressed to the data, and no input leads `lzf_decompress` out of
its buffers. -/

namespace RedisCore.Lzf

variable {data c op : Bytes} {ip outLen ref len n : ℕ}

def Repeats (data : Bytes) (ref ip len : ℕ) : Prop := ∀ i < len, byteAt data (ref+i) = byteAt data (ip+i)

theorem Repeats.succ (h : Repeats data ref ip len)
    (hb : byteAt data (ref+len) = byteAt data (ip+len)) : Repeats data ref ip (len+1) := by
  intro i hi
  rcases Nat.lt_succ_iff_lt_or_eq.mp hi with hlt | rfl
  · exact h i hlt
  · exact hb

theorem unrolled_spec (h : Repeats data ref ip (len+1)) :
    (unrolled data ref ip n len).1 ≤ len+n ∧
      ((unrolled data ref ip n len).2 = true → len < (unrolled data ref ip n len).1 ∧
        Repeats data ref ip (unrolled data ref ip n len).1) ∧
      (¬(unrolled data ref ip n len).2 = true → (unrolled data ref ip n len).1 = len+n ∧
        Repeats data ref ip (len+n+1)) := by
  induction n generalizing len with
  | zero => exact ⟨le_rfl, nofun, fun _ => ⟨rfl, h⟩⟩
  | succ n ih =>
    rw [unrolled]
    split_ifs with hne
    · exact ⟨by dsimp only; omega, fun _ => ⟨Nat.lt_succ_self len, h⟩, fun hs => absurd rfl hs⟩
    · obtain ⟨h1, h2, h3⟩ := ih (h.succ (not_not.mp hne))
      rw [show len+(n+1) = len+1+n by omega]
      exact ⟨h1, fun hs => ⟨by have := (h2 hs).1; omega, (h2 hs).2⟩, h3⟩

theorem extend_spec (maxlen : ℕ) (h : Repeats data ref ip (len+1)) (hn : maxlen ≤ len+n) (hpos : 0 < n) :
    len < extend data ref ip maxlen n len ∧ extend data ref ip maxlen n len ≤ max maxlen (len+1) ∧
      Repeats data ref ip (extend data ref ip maxlen n len) := by
  induction n generalizing len with
  | zero => omega
  | succ n ih =>
    rw [extend]
    split_ifs with hc
    · obtain ⟨h1, h2, h3⟩ := ih (h.succ hc.2) (by omega) (by omega)
      exact ⟨by omega, by omega, h3⟩
    · exact ⟨by omega, by omega, h⟩

theorem matchLength_spec (h : Repeats data ref ip 3) (hin : ip+2 < data.length) :
    3 ≤ matchLength data ref ip ∧ matchLength data ref ip ≤ maxRef ∧
      ip+matchLength data ref ip ≤ data.length ∧ Repeats data ref ip (matchLength data ref ip) := by
  unfold matchLength maxRef
  dsimp only
  obtain ⟨hle, hstopped, hall⟩ := unrolled_spec (n := 16) h
  split_ifs with hlong hstop
  · obtain ⟨hlt, hrep⟩ := hstopped hstop
    exact ⟨hlt, by omega, by omega, hrep⟩
  · obtain ⟨heq, hrep⟩ := hall hstop
    rw [heq]
    obtain ⟨h1, h2, h3⟩ := extend_spec (min (data.length-ip-2) 264)
      (n := min (data.length-ip-2) 264) hrep (by omega) (by omega)
    exact ⟨by omega, by omega, by omega, h3⟩
  · obtain ⟨h1, h2, h3⟩ := extend_spec (min (data.length-ip-2) 264)
      (n := min (data.length-ip-2) 264+1) h (by omega) (by omega)
    exact ⟨h1, by omega, by omega, h3⟩

theorem take_succ_byteAt (hn : n < data.length) :
    data.take (n+1) = data.take n ++ [byteAt data n] := by
  rw [List.take_add_one, List.getElem?_eq_getElem hn, byteAt, List.getD_eq_getElem _ _ hn]
  rfl

theorem loadByte_take (h : ref < ip) (hip : ip ≤ data.length) :
    loadByte (data.take ip) ref = .ok (byteAt data ref) := by
  rw [loadByte, List.getElem?_take_of_lt h, List.getElem?_eq_getElem (h.trans_le hip), byteAt,
    List.getD_eq_getElem _ _ (h.trans_le hip)]

theorem copyOctets_repeats (hrep : Repeats data ref ip n) (href : ref < ip) (hin : ip+n ≤ data.length) :
    copyOctets n ref (data.take ip) = .ok (data.take (ip+n)) := by
  induction n generalizing ref ip with
  | zero => rfl
  | succ n ih =>
    have hfirst : byteAt data ref = byteAt data ip := hrep 0 (Nat.succ_pos n)
    have hrest : Repeats data (ref+1) (ip+1) n := by
      intro i hi
      have h := hrep (i+1) (by omega)
      rwa [show ref+1+i = ref+(i+1) by omega, show ip+1+i = ip+(i+1) by omega]
    rw [copyOctets, loadByte_take href (by omega), ok_bind, hfirst, ← take_succ_byteAt (by omega),
      ih hrest (by omega) (by omega), show ip+1+n = ip+(n+1) by omega]

theorem copyOctets_disjoint (h : ref+n ≤ op.length) :
    copyOctets n ref op = .ok (op ++ (op.drop ref).take n) := by
  induction n generalizing ref op with
  | zero => simp [copyOctets]
  | succ n ih =>
    have hlt : ref < op.length := by omega
    rw [copyOctets, loadByte, List.getElem?_eq_getElem hlt, ok_bind,
      ih (by rw [List.length_append]; exact le_trans (by omega) (Nat.le_add_right _ _)),
      List.drop_append_of_le_length (by omega),
      List.take_append_of_le_length (by rw [List.length_drop]; omega),
      List.drop_eq_getElem_cons hlt, List.take_succ_cons, List.append_assoc]
    rfl

theorem copyRef_eq : copyRef ref len op = copyOctets (len+2) ref op := by
  unfold copyRef
  split_ifs with h
  · rw [copyOctets_disjoint h.2, loadBytes, if_pos h.2]
    rfl
  · rfl

def Leads (c : Bytes) (outLen : ℕ) (s t : ℕ × Bytes) : Prop :=
  s.1 < c.length ∧ decompressStep c outLen s.1 s.2 = .ok (some t)

def Decoded (data written : Bytes) (j : ℕ) : Prop :=
  ∀ rest, Relation.ReflTransGen (Leads (written ++ rest) data.length) (0, [])
    (written.length, data.take j)

variable {written : Bytes} {j off : ℕ}

theorem Decoded.append (h : Decoded data written j) {token : Bytes} (hne : token ≠ [])
    (hstep : ∀ rest, decompressStep (written ++ (token ++ rest)) data.length written.length
      (data.take j) = .ok (some (written.length+token.length, data.take (j+n)))) :
    Decoded data (written ++ token) (j+n) := by
  intro rest
  have hpos := List.length_pos_iff.mpr hne
  rw [List.append_assoc, List.length_append]
  refine (h (token ++ rest)).tail ⟨?_, hstep rest⟩
  simp only [List.length_append]
  omega

theorem Decoded.literals (h : Decoded data written j) (hpos : 0 < n) (hmax : n ≤ maxLit)
    (hin : j+n ≤ data.length) :
    Decoded data (written ++ (UInt8.ofNat n-1) :: (data.drop j).take n) (j+n) := by
  have hlen : ((data.drop j).take n).length = n := by
    rw [List.length_take, List.length_drop]
    omega
  have hctrl : (UInt8.ofNat n-1).toNat = n-1 := by
    obtain ⟨m, rfl⟩ : ∃ m, n = m+1 := ⟨n-1, by omega⟩
    rw [UInt8.ofNat_add]
    simp
    unfold maxLit at hmax
    omega
  apply h.append (by simp)
  intro rest
  unfold decompressStep
  rw [loadByte_at (c := (data.drop j).take n ++ rest) (x := UInt8.ofNat n-1) (by simp) rfl, ok_bind,
    hctrl]
  dsimp only
  rw [if_pos (by omega), if_neg, loadBytes_at (a := written ++ [UInt8.ofNat n-1]) (b := (data.drop j).take n)
    (c := rest) (by simp) (by simp) (by omega), ok_bind, List.length_cons, hlen, List.take_add]
  · rw [show written.length+1+(n-1+1) = written.length+(n+1) by omega]
  · simp only [List.length_append, List.length_cons, List.length_take, List.length_drop]
    omega

theorem ctrl_parts {l : ℕ} (hoff : off < maxOff) (hl : l ≤ 7) :
    let ctrl := (UInt8.ofNat (off >>> 8 + l <<< 5)).toNat
    ctrl >>> 5 = l ∧ (ctrl &&& 31) <<< 8 + 1 + (UInt8.ofNat off).toNat = off+1 ∧
      (0 < l → ¬ctrl < maxLit) := by
  have hand : ∀ x, x &&& 31 = x % 2^5 := fun x => Nat.and_two_pow_sub_one_eq_mod x 5
  unfold maxOff at hoff
  unfold maxLit
  simp only [UInt8.toNat_ofNat', hand, Nat.shiftRight_eq_div_pow, Nat.shiftLeft_eq]
  omega

theorem Decoded.reference (h : Decoded data written j) (hoff : off < maxOff) (hback : off+1 ≤ j)
    (hmin : 3 ≤ len) (hmax : len ≤ maxRef) (hin : j+len ≤ data.length)
    (hrep : Repeats data (j-off-1) j len) :
    Decoded data (written ++ refBytes off len) (j+len) := by
  have htake : (data.take j).length = j := by
    rw [List.length_take]
    omega
  have hcopy : ∀ l, l+2 = len → copyRef (j-(off+1)) l (data.take j) = .ok (data.take (j+len)) := by
    rintro l rfl
    rw [copyRef_eq, ← Nat.sub_sub]
    exact copyOctets_repeats hrep (by omega) hin
  have hroom : ∀ (bs rest : Bytes) (k : ℕ), k < bs.length →
      ¬(written ++ (bs ++ rest)).length ≤ written.length+k := by
    intro bs rest k hk
    simp only [List.length_append]
    omega
  unfold maxRef at hmax
  unfold refBytes
  split_ifs with hshort
  · obtain ⟨hlen, hlow, hctrl⟩ := ctrl_parts hoff hshort.le
    generalize UInt8.ofNat (off >>> 8 + (len-2) <<< 5) = x at hlen hlow hctrl ⊢
    apply h.append (by simp)
    intro rest
    unfold decompressStep
    rw [loadByte_at (a := written) (c := UInt8.ofNat off :: rest) (x := x) (by simp) rfl, ok_bind]
    dsimp only
    rw [if_neg (hctrl (by omega)), if_neg (hroom _ _ 1 (by simp)), hlen, refLength, if_neg hshort.ne,
      ok_bind]
    dsimp only
    rw [loadByte_at (a := written ++ [x]) (x := UInt8.ofNat off) (c := rest) (by simp) (by simp),
      ok_bind, hlow, htake, if_neg (by omega), hcopy _ (by omega), ok_bind]
    rfl
  · obtain ⟨hlen, hlow, hctrl⟩ := ctrl_parts hoff (le_refl 7)
    generalize UInt8.ofNat (off >>> 8 + 7 <<< 5) = x at hlen hlow hctrl ⊢
    have hext : (UInt8.ofNat (len-2-7)).toNat = len-2-7 := by
      rw [UInt8.toNat_ofNat']
      omega
    apply h.append (by simp)
    intro rest
    unfold decompressStep
    rw [loadByte_at (a := written) (c := UInt8.ofNat (len-2-7) :: UInt8.ofNat off :: rest) (x := x)
      (by simp) rfl, ok_bind]
    dsimp only
    rw [if_neg (hctrl (by omega)), if_neg (hroom _ _ 1 (by simp)), hlen, refLength, if_pos rfl,
      loadByte_at (a := written ++ [x]) (x := UInt8.ofNat (len-2-7)) (c := UInt8.ofNat off :: rest)
      (by simp) (by simp), ok_bind, if_neg (hroom _ _ 2 (by simp)), ok_bind]
    dsimp only
    rw [loadByte_at (a := written ++ [x, UInt8.ofNat (len-2-7)]) (x := UInt8.ofNat off) (c := rest)
      (by simp) (by simp), ok_bind, hlow, htake, hext, if_neg (by omega), hcopy _ (by omega), ok_bind]
    rfl

structure Encodes (data : Bytes) (st : Encoder) : Prop where
  decoded : ∃ (written : Bytes) (x : UInt8), Decoded data written (st.ip-st.lit) ∧
    st.op = written ++ x :: (data.drop (st.ip-st.lit)).take st.lit
  lit_lt : st.lit < maxLit
  lit_le : st.lit ≤ st.ip
  ip_le : st.ip ≤ data.length

variable {st st' : Encoder} {htab : ℕ → UInt32}

theorem stopRun_op (st : Encoder) {x : UInt8}
    (hop : st.op = written ++ x :: (data.drop (st.ip-st.lit)).take st.lit) (hle : st.lit ≤ st.ip)
    (hip : st.ip ≤ data.length) :
    (stopRun st).op =
      written ++ (UInt8.ofNat st.lit-1) :: (data.drop (st.ip-st.lit)).take st.lit := by
  have hat : st.op.length-st.lit-1 = written.length := by
    rw [hop]
    simp only [List.length_append, List.length_cons, List.length_take, List.length_drop]
    omega
  rw [stopRun, hat, hop, List.set_append_right _ _ le_rfl, Nat.sub_self, List.set_cons_zero]

theorem Encodes.congr (h : Encodes data st) (hip : st'.ip = st.ip) (hop : st'.op = st.op)
    (hlit : st'.lit = st.lit) : Encodes data st' := by
  obtain ⟨hdec, hlt, hle, hend⟩ := h
  rw [← hip, ← hop, ← hlit] at hdec
  exact ⟨hdec, hlit ▸ hlt, by omega, hip ▸ hend⟩

theorem Encodes.closed (h : Encodes data st) : Decoded data (undoRun (stopRun st)).op st.ip := by
  obtain ⟨written, x, hdec, hop⟩ := h.decoded
  have hstop := stopRun_op st hop h.lit_le h.ip_le
  have hlt := h.lit_lt
  have hle := h.lit_le
  unfold undoRun
  split_ifs with hz
  · have hlit : st.lit = 0 := hz
    rw [hlit, List.take_zero] at hstop
    rw [hlit, Nat.sub_zero] at hdec
    dsimp only
    rw [hstop, List.dropLast_concat]
    exact hdec
  · have hlit : st.lit ≠ 0 := hz
    have hnew := hdec.literals (n := st.lit) (by omega) hlt.le (by have := h.ip_le; omega)
    rw [hstop]
    rwa [Nat.sub_add_cancel hle] at hnew

theorem Encodes.putLit (h : Encodes data st) (hin : st.ip < data.length) :
    Encodes data (putLit data st) := by
  obtain ⟨written, x, hdec, hop⟩ := h.decoded
  have hle := h.lit_le
  have hstart : st.ip+1-(st.lit+1) = st.ip-st.lit := by omega
  have hop' : st.op ++ [byteAt data st.ip] =
      written ++ x :: (data.drop (st.ip+1-(st.lit+1))).take (st.lit+1) := by
    have hnext : (data.drop (st.ip-st.lit)).take (st.lit+1) =
        (data.drop (st.ip-st.lit)).take st.lit ++ [byteAt data st.ip] := by
      rw [take_succ_byteAt (by rw [List.length_drop]; omega), byteAt, List.getD_eq_getElem?_getD,
        List.getElem?_drop, Nat.sub_add_cancel hle, byteAt, List.getD_eq_getElem?_getD]
    rw [hstart, hnext, hop, List.append_assoc, List.cons_append]
  unfold Lzf.putLit
  dsimp only
  split_ifs with hfull
  · have hstop := stopRun_op { st with
      lit := st.lit+1, op := st.op ++ [byteAt data st.ip], ip := st.ip+1 } hop' (by simpa) hin
    have hnew := hdec.literals (n := st.lit+1) (Nat.succ_pos _) hfull.le (by omega)
    rw [show st.ip-st.lit+(st.lit+1) = st.ip+1 by omega] at hnew
    rw [hstart] at hstop
    exact ⟨⟨_, 0, hnew, by simp only [startRun, hstop]; simp⟩,
      show 0 < maxLit by decide, Nat.zero_le _, hin⟩
  · exact ⟨⟨written, x, hstart ▸ hdec, hop'⟩, by have := h.lit_lt; simp only; omega, by simpa, hin⟩

theorem Encodes.putRef (h : Encodes data st) {outLen : ℕ} (hin : st.ip+2 < data.length)
    (hlt : ref < st.ip) (hoff : st.ip-ref-1 < maxOff) (hrep : Repeats data ref st.ip 3)
    (hput : putRef data outLen ref st = some st') : Encodes data st' ∧ st.ip < st'.ip := by
  obtain ⟨hmin, hmax, hend, hmatch⟩ := matchLength_spec hrep hin
  have hnew : Decoded data ((undoRun (stopRun st)).op ++ refBytes (st.ip-ref-1) (matchLength data ref st.ip))
      (st.ip+matchLength data ref st.ip) := by
    apply h.closed.reference hoff (by omega) hmin hmax hend
    rwa [show st.ip-(st.ip-ref-1)-1 = ref by omega]
  have hip : (undoRun (stopRun st)).ip = st.ip := by
    unfold undoRun
    split_ifs <;> rfl
  have hstarted : Encodes data (startRun { undoRun (stopRun st) with
      op := (undoRun (stopRun st)).op ++ refBytes (st.ip-ref-1) (matchLength data ref st.ip)
      ip := st.ip+matchLength data ref st.ip }) :=
    ⟨⟨_, 0, hnew, by simp [startRun]⟩, show 0 < maxLit by decide, Nat.zero_le _, hend⟩
  unfold Lzf.putRef at hput
  dsimp only at hput
  rw [hip] at hput
  have hmoved : st.ip < st.ip+matchLength data ref st.ip := by omega
  split_ifs at hput
  all_goals cases hput
  all_goals exact ⟨hstarted.congr rfl rfl rfl, hmoved⟩

theorem Encodes.step (h : Encodes data st) {outLen : ℕ} (hin : st.ip+2 < data.length)
    (hstep : compressStep data outLen st = some st') : Encodes data st' ∧ st.ip < st'.ip := by
  have hlooked : Encodes data { st with
      hval := next st.hval data st.ip
      htab := Function.update st.htab (idx (next st.hval data st.ip)) (UInt32.ofNat st.ip) } :=
    h.congr rfl rfl rfl
  unfold compressStep at hstep
  dsimp only at hstep
  split_ifs at hstep with hmatch
  · obtain ⟨hlt, hoff, -, h2, h0, h1⟩ := hmatch
    refine hlooked.putRef hin hlt hoff ?_ hstep
    intro i hi
    interval_cases i
    · exact h0
    · exact h1
    · exact h2
  · cases hstep
    refine ⟨hlooked.putLit (lt_of_le_of_lt (Nat.le_add_right _ 2) hin), ?_⟩
    unfold Lzf.putLit
    dsimp only
    split_ifs
    · exact Nat.lt_succ_self _
    · exact Nat.lt_succ_self _

theorem compressLoop_spec (outLen : ℕ) (h : Encodes data st) (hfuel : data.length ≤ st.ip+n+1)
    (hn : 0 < n) : ∃ r, compressLoop data outLen n st = .ok r ∧
      ∀ st', r = some st' → Encodes data st' ∧ data.length ≤ st'.ip+2 := by
  induction n generalizing st with
  | zero => omega
  | succ n ih =>
    rw [compressLoop]
    split_ifs with hin
    · cases hstep : compressStep data outLen st with
      | none => exact ⟨none, rfl, nofun⟩
      | some st1 =>
        obtain ⟨h1, hmoved⟩ := h.step hin hstep
        exact ih h1 (by omega) (by omega)
    · refine ⟨some st, rfl, ?_⟩
      rintro _ ⟨⟩
      exact ⟨h, not_lt.mp hin⟩

theorem putLit_ip : (putLit data st).ip = st.ip+1 := by
  unfold putLit
  dsimp only
  split_ifs <;> rfl

theorem putLit_size : (putLit data st).op.length =
      st.op.length+1 + if st.lit+1 = maxLit then 1 else 0 := by
  unfold putLit
  dsimp only
  split_ifs <;> simp [startRun, stopRun]

theorem putLit_lit : (putLit data st).lit = if st.lit+1 = maxLit then 0 else st.lit+1 := by
  unfold putLit
  dsimp only
  split_ifs <;> rfl

theorem tailLoop_spec (h : Encodes data st) (hn : st.ip+n = data.length) (hsmall : n ≤ 2) :
    Encodes data (tailLoop data n st) ∧ (tailLoop data n st).ip = data.length ∧
      (tailLoop data n st).op.length ≤ st.op.length+3 := by
  have hlt := h.lit_lt
  have h0 := h.ip_le
  interval_cases n
  · exact ⟨h, hn, Nat.le_add_right _ _⟩
  · refine ⟨h.putLit (by omega), putLit_ip.trans hn, ?_⟩
    rw [tailLoop, tailLoop, putLit_size]
    split_ifs <;> omega
  · refine ⟨(h.putLit (by omega)).putLit (by rw [putLit_ip]; omega), ?_, ?_⟩
    · rw [tailLoop, tailLoop, tailLoop, putLit_ip, putLit_ip]
      exact hn
    · rw [tailLoop, tailLoop, tailLoop, putLit_size, putLit_size, putLit_lit]
      unfold maxLit
      split_ifs <;> omega

theorem lzf_compress_spec (htab : ℕ → UInt32) (data : Bytes) (outLen : ℕ) :
    ∃ r, lzf_compress htab data outLen = .ok r ∧
      ∀ c, r = some c → c.length ≤ outLen ∧ data ≠ [] ∧ Decoded data c data.length := by
  unfold lzf_compress
  split_ifs with hempty
  · exact ⟨none, rfl, nofun⟩
  · rw [not_or] at hempty
    have hstart : Encodes data ⟨0, [0], 0, frst data 0, htab⟩ :=
      ⟨⟨[], 0, fun rest => .refl, rfl⟩, show 0 < maxLit by decide, le_rfl, Nat.zero_le _⟩
    obtain ⟨r, hr, hspec⟩ := compressLoop_spec outLen (n := data.length) hstart
      (by simp only; omega) (by omega)
    rw [hr, ok_bind]
    cases r with
    | none => exact ⟨none, rfl, nofun⟩
    | some st =>
      obtain ⟨henc, hend⟩ := hspec st rfl
      have hle := henc.ip_le
      dsimp only
      split_ifs with hfull
      · exact ⟨none, rfl, nofun⟩
      · obtain ⟨htail, hip, hsize⟩ := tailLoop_spec (n := data.length-st.ip) henc (by omega) (by omega)
        refine ⟨_, rfl, ?_⟩
        rintro c ⟨⟩
        have hdec := htail.closed
        rw [hip] at hdec
        refine ⟨?_, List.ne_nil_of_length_pos (by omega), hdec⟩
        apply le_trans _ (le_trans hsize (by omega))
        unfold undoRun
        split_ifs <;> simp [stopRun]

theorem loadByte_ok (h : ip < c.length) : ∃ b, loadByte c ip = .ok b :=
  ⟨c.get ⟨ip, h⟩, by rw [loadByte, List.getElem?_eq_getElem h]; rfl⟩

theorem copyOctets_total (h : ref < op.length) :
    ∃ op', copyOctets n ref op = .ok op' ∧ op'.length = op.length+n := by
  induction n generalizing ref op with
  | zero => exact ⟨op, rfl, rfl⟩
  | succ n ih =>
    obtain ⟨b, hb⟩ := loadByte_ok h
    rw [copyOctets, hb, ok_bind]
    obtain ⟨op', hop, hlen⟩ := ih (show ref+1 < (op ++ [b]).length by simpa using h)
    refine ⟨op', hop, ?_⟩
    rw [hlen, List.length_append, List.length_singleton]
    omega

theorem decompressStep_total (outLen : ℕ) (op : Bytes) (hip : ip < c.length) :
    ∃ r, decompressStep c outLen ip op = .ok r ∧
      ∀ s, r = some s → ip < s.1 ∧ s.2.length ≤ outLen := by
  obtain ⟨ctrl, hctrl⟩ := loadByte_ok hip
  unfold decompressStep
  rw [hctrl, ok_bind]
  dsimp only
  split_ifs with hlit hfull hend
  · exact ⟨none, rfl, by rintro _ ⟨⟩⟩
  · rw [not_or, not_lt, not_lt] at hfull
    rw [loadBytes, if_pos hfull.2, ok_bind]
    refine ⟨_, rfl, ?_⟩
    rintro _ ⟨⟩
    refine ⟨by dsimp only; omega, ?_⟩
    simp only [List.length_append, List.length_take, List.length_drop]
    omega
  · exact ⟨none, rfl, by rintro _ ⟨⟩⟩
  · have hlong : ∃ r, refLength c (ip+1) (ctrl.toNat >>> 5) = .ok r ∧
        ∀ s, r = some s → ip < s.2 ∧ s.2 < c.length := by
      obtain ⟨b, hb⟩ := loadByte_ok (not_le.mp hend)
      unfold refLength
      rw [hb, ok_bind]
      split_ifs with hseven hlast
      · exact ⟨none, rfl, by rintro _ ⟨⟩⟩
      · refine ⟨_, rfl, ?_⟩
        rintro _ ⟨⟩
        exact ⟨by dsimp only; omega, not_le.mp hlast⟩
      · refine ⟨_, rfl, ?_⟩
        rintro _ ⟨⟩
        exact ⟨by dsimp only; omega, not_le.mp hend⟩
    obtain ⟨r, hr, hspec⟩ := hlong
    rw [hr, ok_bind]
    cases r with
    | none => exact ⟨none, rfl, by rintro _ ⟨⟩⟩
    | some s =>
      obtain ⟨hlt, hin⟩ := hspec s rfl
      obtain ⟨low, hlow⟩ := loadByte_ok hin
      dsimp only
      rw [hlow, ok_bind]
      split_ifs with hbad
      · exact ⟨none, rfl, by rintro _ ⟨⟩⟩
      · rw [not_or, not_lt, not_lt] at hbad
        obtain ⟨op', hop, hlen⟩ := copyOctets_total (n := s.1+2)
          (show op.length-((ctrl.toNat &&& 31) <<< 8+1+low.toNat) < op.length by omega)
        rw [copyRef_eq, hop, ok_bind]
        refine ⟨_, rfl, ?_⟩
        rintro _ ⟨⟩
        exact ⟨by dsimp only; omega, by dsimp only; omega⟩

theorem decompressLoop_spec (outLen : ℕ) (op : Bytes) (hip : ip < c.length) (hn : c.length ≤ ip+n) :
    ∃ r, decompressLoop c outLen n ip op = .ok r ∧ (∀ d, r = some d → d.length ≤ outLen) ∧
      ∀ d, Relation.ReflTransGen (Leads c outLen) (ip, op) (c.length, d) → r = some d := by
  induction n generalizing ip op with
  | zero => omega
  | succ n ih =>
    obtain ⟨r, hr, hspec⟩ := decompressStep_total outLen op hip
    have hnext : ∀ d, Relation.ReflTransGen (Leads c outLen) (ip, op) (c.length, d) →
        ∃ s, r = some s ∧ Relation.ReflTransGen (Leads c outLen) s (c.length, d) := by
      intro d hd
      rcases hd.cases_head with heq | ⟨s, ⟨-, hs⟩, hrest⟩
      · exact absurd (congrArg Prod.fst heq) hip.ne
      · exact ⟨s, Except.ok.inj (hr.symm.trans hs), hrest⟩
    rw [decompressLoop, hr, ok_bind]
    cases r with
    | none => exact ⟨none, rfl, nofun, fun d hd => by obtain ⟨s, hs, -⟩ := hnext d hd; cases hs⟩
    | some s =>
      obtain ⟨hlt, hle⟩ := hspec s rfl
      dsimp only
      split_ifs with hmore
      · obtain ⟨r, hr, hfit, hlead⟩ := ih s.2 hmore (by omega)
        refine ⟨r, hr, hfit, fun d hd => ?_⟩
        obtain ⟨s', hs, hrest⟩ := hnext d hd
        cases hs
        exact hlead d hrest
      · refine ⟨some s.2, rfl, ?_, fun d hd => ?_⟩
        · rintro _ ⟨⟩
          exact hle
        · obtain ⟨s', hs, hrest⟩ := hnext d hd
          cases hs
          rcases hrest.cases_head with heq | ⟨s', ⟨hlt', -⟩, -⟩
          · exact congrArg (fun t => some t.2) heq
          · exact absurd hlt' hmore

/-- No input leads `lzf_decompress` out of the input, or beyond the room for the output. -/
theorem lzf_decompress_safe (outLen : ℕ) (hc : c ≠ []) :
    ∃ r, lzf_decompress c outLen = .ok r ∧ ∀ d, r = some d → d.length ≤ outLen := by
  obtain ⟨r, hr, hfit, -⟩ := decompressLoop_spec outLen [] (n := c.length)
    (List.length_pos_iff.mpr hc) (by omega)
  exact ⟨r, hr, hfit⟩

/-- The two bytes of a reference that goes back before the start of the output. -/
theorem lzf_decompress_safe_reference :
    ∃ r, lzf_decompress [32, 0] 100 = .ok r ∧ ∀ d, r = some d → d.length ≤ 100 :=
  lzf_decompress_safe 100 (by decide)

theorem compressed_loads (h : lzf_compress htab data outLen = .ok (some c)) :
    c.length ≤ outLen ∧ lzf_decompress c data.length = .ok (some data) := by
  obtain ⟨r, hr, hspec⟩ := lzf_compress_spec htab data outLen
  obtain ⟨hle, hne, hdec⟩ := hspec c (Except.ok.inj (hr.symm.trans h))
  have hlead := hdec []
  rw [List.append_nil, List.take_length] at hlead
  have hpos : 0 < c.length := by
    rcases hlead.cases_head with heq | ⟨s, ⟨hlt, -⟩, -⟩
    · exact absurd (congrArg Prod.snd heq).symm hne
    · exact hlt
  obtain ⟨r', hr', -, hall⟩ := decompressLoop_spec data.length [] (n := c.length) hpos (by omega)
  exact ⟨hle, hr'.trans (congrArg Except.ok (hall data hlead))⟩

/-- Whatever the table of positions holds at the start, the compression ends, and compressed data is
read back: it keeps the promise that loading and saving strings relies on. -/
theorem lzf_roundTrips (htab : ℕ → UInt32) :
    (∀ data outLen, ∃ r, lzf_compress htab data outLen = .ok r) ∧ (lzf htab).RoundTrips := by
  constructor
  · intro data outLen
    obtain ⟨r, hr, -⟩ := lzf_compress_spec htab data outLen
    exact ⟨r, hr⟩
  · intro data n c _ _ h
    have hc : lzf_compress htab data n = .ok (some c) := by
      obtain ⟨r, hr, -⟩ := lzf_compress_spec htab data n
      simp only [lzf, hr] at h
      rw [hr]
      exact congrArg Except.ok h
    obtain ⟨hle, hdec⟩ := compressed_loads hc
    refine ⟨hle, ?_⟩
    simp only [lzf, hdec]
    rfl

end RedisCore.Lzf
