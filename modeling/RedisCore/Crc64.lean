import RedisCore.ShiftRegister
import RedisCore.WordBytes

/-! The checksum of RDB files and of DUMP payloads: bit by bit, and with the tables for eight bytes
at a time on a little-endian machine. -/

namespace RedisCore.Crc64

open ShiftRegister

def poly : BitVec 64 := 0xad93d23594c935a9

def reflectLoop : ℕ → BitVec 64 → BitVec 64 → BitVec 64
  | 0, _, ret => ret
  | n+1, data, ret => reflectLoop n (data >>> 1) (ret <<< 1 ||| (data >>> 1 &&& 1#64))

def crc_reflect (data : BitVec 64) (dataLen : ℕ) : BitVec 64 :=
  reflectLoop (dataLen-1) data (data &&& 1#64)

def crcBit (c : UInt8) (crc : BitVec 64) (i : ℕ) : BitVec 64 :=
  let bit := xor crc.msb (c.toNat.testBit i)
  if bit then crc <<< 1 ^^^ poly else crc <<< 1

def _crc64 (crc : BitVec 64) (data : Bytes) : BitVec 64 :=
  crc_reflect (data.foldl (fun crc c => (List.range 8).foldl (crcBit c) crc) crc) 64

def crc64_table : ℕ → ℕ → BitVec 64
  | 0, n => _crc64 0#64 [UInt8.ofNat n]
  | k+1, n => crc64_table 0 (crc64_table k n &&& 255).toNat ^^^ crc64_table k n >>> 8

def oneByte (crc : BitVec 64) (b : UInt8) : BitVec 64 :=
  crc64_table 0 ((crc ^^^ BitVec.ofNat 64 b.toNat) &&& 255).toNat ^^^ crc >>> 8

def eightBytes (crc : BitVec 64) (word : Bytes) : BitVec 64 :=
  let crc := crc ^^^ BitVec.ofNat 64 (leNat word)
  crc64_table 7 (crc &&& 255).toNat ^^^ crc64_table 6 (crc >>> 8 &&& 255).toNat ^^^
    crc64_table 5 (crc >>> 16 &&& 255).toNat ^^^ crc64_table 4 (crc >>> 24 &&& 255).toNat ^^^
    crc64_table 3 (crc >>> 32 &&& 255).toNat ^^^ crc64_table 2 (crc >>> 40 &&& 255).toNat ^^^
    crc64_table 1 (crc >>> 48 &&& 255).toNat ^^^ crc64_table 0 (crc >>> 56).toNat

def alignLoop : ℕ → BitVec 64 → Bytes → BitVec 64 × Bytes
  | _, crc, [] => (crc, [])
  | next, crc, b :: buf =>
    if next &&& 7 ≠ 0 then alignLoop (next+1) (oneByte crc b) buf else (crc, b :: buf)

def fastLoop : BitVec 64 → Bytes → BitVec 64 × Bytes
  | crc, b0 :: b1 :: b2 :: b3 :: b4 :: b5 :: b6 :: b7 :: buf =>
    fastLoop (eightBytes crc [b0, b1, b2, b3, b4, b5, b6, b7]) buf
  | crc, buf => (crc, buf)

def crcspeed64little (next : ℕ) (crc : BitVec 64) (buf : Bytes) : BitVec 64 :=
  let aligned := alignLoop next crc buf
  let fast := fastLoop aligned.1 aligned.2
  fast.2.foldl oneByte fast.1

def crc64 (next : ℕ) (crc : BitVec 64) (s : Bytes) : BitVec 64 := crcspeed64little next crc s

theorem reverse_xor {w : ℕ} (a b : BitVec w) : (a ^^^ b).reverse = a.reverse ^^^ b.reverse := by
  apply BitVec.eq_of_getLsbD_eq
  intro i hi
  simp [BitVec.getLsbD_reverse, BitVec.getMsbD_xor]

theorem reverse_shiftLeft {w : ℕ} (a : BitVec w) : (a <<< 1).reverse = a.reverse >>> 1 := by
  apply BitVec.eq_of_getLsbD_eq
  intro i hi
  simp [BitVec.getLsbD_reverse, BitVec.getMsbD_shiftLeft, Nat.add_comm]

theorem getLsbD_reflectLoop (n : ℕ) (data ret : BitVec 64) {i : ℕ} (hi : i < 64) :
    (reflectLoop n data ret).getLsbD i =
      if i < n then data.getLsbD (n-i) else ret.getLsbD (i-n) := by
  induction n generalizing data ret with
  | zero => rfl
  | succ n ih =>
    rw [reflectLoop, ih]
    by_cases hn : i < n
    · rw [if_pos hn, if_pos (by omega), BitVec.getLsbD_ushiftRight, show 1+(n-i) = n+1-i by omega]
    · rw [if_neg hn, BitVec.getLsbD_or, BitVec.getLsbD_shiftLeft, BitVec.getLsbD_and,
        BitVec.getLsbD_one, BitVec.getLsbD_ushiftRight]
      rcases Nat.eq_or_lt_of_le (not_lt.mp hn) with rfl | hlt
      · simp
      · simp [show ¬i < n+1 by omega, show i-n ≠ 0 by omega, show i-n-1 = i-(n+1) by omega,
          show i-n < 64 by omega]

theorem crc_reflect_eq (x : BitVec 64) : crc_reflect x 64 = x.reverse := by
  apply BitVec.eq_of_getLsbD_eq
  intro i hi
  rw [crc_reflect, getLsbD_reflectLoop _ _ _ hi, BitVec.getLsbD_reverse, BitVec.getMsbD_eq_getLsbD]
  split_ifs with hlt
  · simp [hi]
  · simp [show i = 63 by omega]

abbrev shiftDown : BitVec 64 → BitVec 64 := shift poly.reverse

theorem reverse_crcBit (c : UInt8) (crc : BitVec 64) (i : ℕ) :
    (crcBit c crc i).reverse =
      shiftDown (crc.reverse ^^^ BitVec.ofNat 64 (c.toNat.testBit i).toNat) := by
  have hlow : crc.reverse.getLsbD 0 = crc.msb := by
    rw [BitVec.getLsbD_reverse, BitVec.msb_eq_getMsbD_zero]
  unfold crcBit shiftDown shift
  rw [BitVec.getLsbD_xor, hlow, BitVec.ushiftRight_xor_distrib]
  cases c.toNat.testBit i <;> cases crc.msb <;> simp [reverse_xor, reverse_shiftLeft]

theorem reverse_crcByte (c : UInt8) (crc : BitVec 64) :
    ((List.range 8).foldl (crcBit c) crc).reverse =
      shiftDown^[8] (crc.reverse ^^^ BitVec.ofNat 64 c.toNat) := by
  have hbits : ∀ n, Nat.ofDigits (2^1) ((List.range n).map (fun i => (c.toNat.testBit i).toNat)) =
      c.toNat % 2^n := by
    intro n
    induction n with
    | zero => simp [Nat.mod_one]
    | succ n ih =>
      rw [List.range_succ, List.map_append, Nat.ofDigits_append, ih, Nat.mod_pow_succ, ← Nat.toNat_testBit]
      simp
  have hfold : ∀ (l : List ℕ) (crc : BitVec 64), (l.foldl (crcBit c) crc).reverse =
      (l.map (fun i => (c.toNat.testBit i).toNat)).foldl
        (fun y d => shiftDown^[1] (y ^^^ BitVec.ofNat 64 d)) crc.reverse := by
    intro l
    induction l with
    | nil => exact fun crc => rfl
    | cons i l ih =>
      intro crc
      rw [List.foldl_cons, ih, reverse_crcBit]
      rfl
  rw [hfold, feed_ofDigits _ one_ne_zero, hbits, Nat.mod_eq_of_lt c.toNat_lt]
  · rfl
  · intro d hd
    obtain ⟨i, -, rfl⟩ := List.mem_map.mp hd
    exact Bool.toNat_lt _
  · rw [List.length_map, List.length_range]
    norm_num

def crcBytes (crc : BitVec 64) (s : Bytes) : BitVec 64 :=
  s.foldl (fun crc b => shiftDown^[8] (crc ^^^ BitVec.ofNat 64 b.toNat)) crc

theorem _crc64_eq (crc : BitVec 64) (data : Bytes) :
    _crc64 crc data = crcBytes crc.reverse data := by
  rw [_crc64, crc_reflect_eq, crcBytes]
  induction data generalizing crc with
  | nil => rfl
  | cons c data ih => rw [List.foldl_cons, List.foldl_cons, ih, reverse_crcByte]

theorem and_255 (x : BitVec 64) : (x &&& 255).toNat = x.toNat % 2^8 := by
  rw [BitVec.toNat_and]
  exact Nat.and_two_pow_sub_one_eq_mod _ 8

theorem crc64_table_eq (k : ℕ) {n : ℕ} (hn : n < 2^8) :
    crc64_table k n = shiftDown^[8*(k+1)] (BitVec.ofNat 64 n) := by
  have hfirst : ∀ n < 2^8, crc64_table 0 n = shiftDown^[8] (BitVec.ofNat 64 n) := by
    intro n hn
    rw [crc64_table, _crc64_eq, crcBytes, List.foldl_cons, List.foldl_nil, UInt8.toNat_ofNat_of_lt' hn,
      BitVec.reverse_eq_zero_iff.mpr rfl, BitVec.zero_xor]
  induction k with
  | zero => exact hfirst n hn
  | succ k ih =>
    rw [crc64_table, and_255, hfirst _ (Nat.mod_lt _ (by positivity)), ← shifts_split, ih,
      ← Function.iterate_add_apply, show 8+8*(k+1) = 8*(k+1+1) by ring]

theorem table_split (k : ℕ) (x : BitVec 64) :
    shiftDown^[8*(k+1)] x =
      crc64_table k (x &&& 255).toNat ^^^ shiftDown^[8*k] (x >>> 8) := by
  rw [and_255, crc64_table_eq k (Nat.mod_lt _ (by positivity)), Nat.mul_succ, Function.iterate_add_apply,
    shifts_split _ 8 x, shifts_xor, Function.iterate_add_apply]

theorem oneByte_eq (crc : BitVec 64) (b : UInt8) :
    oneByte crc b = shiftDown^[8] (crc ^^^ BitVec.ofNat 64 b.toNat) := by
  have hb : BitVec.ofNat 64 b.toNat >>> 8 = 0#64 := by
    apply BitVec.eq_of_toNat_eq
    have hlt : b.toNat < 256 := b.toNat_lt
    rw [BitVec.toNat_ushiftRight, BitVec.toNat_ofNat, Nat.shiftRight_eq_div_pow]
    simp
    omega
  rw [oneByte, table_split 0, BitVec.ushiftRight_xor_distrib, hb, BitVec.xor_zero]
  rfl

theorem leNat_ofDigits (s : Bytes) : leNat s = Nat.ofDigits (2^8) (s.map UInt8.toNat) := by
  induction s with
  | nil => rfl
  | cons b s ih =>
    rw [leNat, ih, List.map_cons, Nat.ofDigits_cons]
    rfl

theorem crcBytes_word {s : Bytes} (hlen : s.length ≤ 8) (crc : BitVec 64) :
    crcBytes crc s = shiftDown^[8*s.length] (crc ^^^ BitVec.ofNat 64 (leNat s)) := by
  have hfold := feed_ofDigits poly.reverse (k := 8) (by norm_num) (s.map UInt8.toNat) ?_ ?_ crc
  · rw [List.foldl_map, ← leNat_ofDigits, List.length_map] at hfold
    exact hfold
  · intro d hd
    obtain ⟨b, -, rfl⟩ := List.mem_map.mp hd
    exact b.toNat_lt
  · rw [List.length_map]
    omega

theorem eightBytes_eq (crc : BitVec 64) {word : Bytes} (hlen : word.length = 8) :
    eightBytes crc word = crcBytes crc word := by
  have hround : ∀ (k n : ℕ) (x : BitVec 64), shiftDown^[8*(k+1)] (x >>> n) =
      crc64_table k (x >>> n &&& 255).toNat ^^^ shiftDown^[8*k] (x >>> (n+8)) := by
    intro k n x
    rw [table_split, ← BitVec.shiftRight_add]
  have hlast : ∀ x : BitVec 64, (x >>> 56 &&& 255).toNat = (x >>> 56).toNat := by
    intro x
    rw [and_255, Nat.mod_eq_of_lt]
    rw [BitVec.toNat_ushiftRight, Nat.shiftRight_eq_div_pow, Nat.div_lt_iff_lt_mul (by positivity)]
    exact x.isLt
  have hzero : ∀ x : BitVec 64, x >>> (56+8) = 0#64 := by
    intro x
    apply BitVec.eq_of_toNat_eq
    rw [BitVec.toNat_ushiftRight, Nat.shiftRight_eq_div_pow, Nat.div_eq_of_lt x.isLt]
    rfl
  rw [crcBytes_word hlen.le, hlen, eightBytes, table_split 7, hround 6, hround 5, hround 4, hround 3,
    hround 2, hround 1, hround 0, hlast, hzero]
  simp only [BitVec.xor_assoc]
  exact congrArg _ (by simp)

theorem crcBytes_append (crc : BitVec 64) (s t : Bytes) :
    crcBytes crc (s ++ t) = crcBytes (crcBytes crc s) t := List.foldl_append

theorem alignLoop_eq (next : ℕ) (crc : BitVec 64) (buf : Bytes) :
    crcBytes (alignLoop next crc buf).1 (alignLoop next crc buf).2 = crcBytes crc buf := by
  fun_induction alignLoop next crc buf with
  | case1 => rfl
  | case2 next crc b buf h ih =>
    rw [ih, oneByte_eq]
    rfl
  | case3 => rfl

theorem fastLoop_eq (crc : BitVec 64) (buf : Bytes) :
    crcBytes (fastLoop crc buf).1 (fastLoop crc buf).2 = crcBytes crc buf := by
  fun_induction fastLoop crc buf with
  | case1 crc b0 b1 b2 b3 b4 b5 b6 b7 buf ih =>
    rw [ih, eightBytes_eq crc rfl, ← crcBytes_append]
    rfl
  | case2 => rfl

theorem crc64_eq (next : ℕ) (crc : BitVec 64) (s : Bytes) : crc64 next crc s = crcBytes crc s := by
  have htail : ∀ (buf : Bytes) (crc : BitVec 64), buf.foldl oneByte crc = crcBytes crc buf := by
    intro buf
    induction buf with
    | nil => exact fun crc => rfl
    | cons b buf ih =>
      intro crc
      rw [List.foldl_cons, ih, oneByte_eq]
      rfl
  rw [crc64, crcspeed64little, htail, fastLoop_eq, alignLoop_eq]

/-- At any address, and in any pieces, the tables give the checksum that is defined bit by bit. -/
theorem crc64_agrees (next next' next'' : ℕ) (crc : BitVec 64) (s t : Bytes) :
    crc64 next 0 s = _crc64 0 s ∧
      crc64 next' (crc64 next crc s) t = crc64 next'' crc (s ++ t) := by
  have hzero : BitVec.reverse (0 : BitVec 64) = 0 := BitVec.reverse_eq_zero_iff.mpr rfl
  constructor
  · rw [crc64_eq, _crc64_eq, hzero]
  · rw [crc64_eq, crc64_eq, crc64_eq, crcBytes_append]

theorem shifts_injective (n : ℕ) : Function.Injective shiftDown^[n] := by
  apply Function.Injective.iterate
  apply shift_injective
  rw [BitVec.msb_reverse]
  rfl

theorem crcBytes_left_injective (s : Bytes) : Function.Injective (fun crc => crcBytes crc s) := by
  induction s with
  | nil => exact fun a b h => h
  | cons b s ih =>
    intro x y h
    exact (BitVec.xor_left_inj _).mp (shifts_injective 8 (ih h))

theorem crcBytes_burst (crc : BitVec 64) {a u v b : Bytes} (hlen : u.length = v.length)
    (hburst : u.length ≤ 8) (h : crcBytes crc (a ++ u ++ b) = crcBytes crc (a ++ v ++ b)) :
    u = v := by
  rw [crcBytes_append, crcBytes_append _ a, crcBytes_append, crcBytes_append _ a] at h
  have hmid : crcBytes (crcBytes crc a) u = crcBytes (crcBytes crc a) v := crcBytes_left_injective b h
  rw [crcBytes_word hburst, crcBytes_word (hlen.ge.trans hburst), hlen] at hmid
  have hword := congrArg BitVec.toNat ((BitVec.xor_right_inj _).mp (shifts_injective _ hmid))
  have hsmall : ∀ s : Bytes, s.length ≤ 8 → leNat s < 2^64 := by
    intro s hs
    apply lt_of_lt_of_le (leNat_lt s)
    calc 256^s.length ≤ 256^8 := Nat.pow_le_pow_right (by norm_num) hs
      _ = 2^64 := by norm_num
  rw [BitVec.toNat_ofNat, BitVec.toNat_ofNat, Nat.mod_eq_of_lt (hsmall u hburst),
    Nat.mod_eq_of_lt (hsmall v (hlen.ge.trans hburst))] at hword
  exact leNat_injective hlen hword

def rdbVersion : ℕ := 9

/-- The footer that is written behind the bytes of an object; `next` is their address. -/
def createDumpPayload (next : ℕ) (object : Bytes) : Bytes :=
  let payload := object ++ [UInt8.ofNat (rdbVersion &&& 255), UInt8.ofNat (rdbVersion >>> 8 &&& 255)]
  payload ++ leBytes 8 (crc64 next 0 payload).toNat

def verifyDumpPayload (next : ℕ) (p : Bytes) : Bool :=
  if p.length < 10 then false
  else
    let footer := p.drop (p.length-10)
    let rdbver := (footer.getD 1 0).toNat <<< 8 ||| (footer.getD 0 0).toNat
    if rdbver > rdbVersion then false
    else leBytes 8 (crc64 next 0 (p.take (p.length-8))).toNat == (footer.drop 2).take 8

theorem crcBytes_checksum (s : Bytes) : crcBytes 0 (s ++ leBytes 8 (crcBytes 0 s).toNat) = 0 := by
  have hlen := leBytes_length 8 (crcBytes 0 s).toNat
  have hlt : (crcBytes 0 s).toNat < 256^8 := (crcBytes 0 s).isLt
  rw [crcBytes_append, crcBytes_word hlen.le, hlen, leNat_leBytes_of_lt hlt, BitVec.ofNat_toNat,
    BitVec.setWidth_eq, BitVec.xor_self, shifts_of_clear]
  · rfl
  · exact fun i _ => BitVec.getLsbD_zero

theorem crcBytes_of_verify {next : ℕ} {p : Bytes} (h : verifyDumpPayload next p = true) :
    crcBytes 0 p = 0 := by
  unfold verifyDumpPayload at h
  dsimp only at h
  split_ifs at h with hshort
  have hfooter : (((p.drop (p.length-10)).drop 2).take 8) = p.drop (p.length-8) := by
    rw [List.drop_drop, show p.length-10+2 = p.length-8 by omega]
    apply List.take_of_length_le
    rw [List.length_drop]
    omega
  have hcrc := eq_of_beq h
  rw [hfooter, crc64_eq] at hcrc
  calc crcBytes 0 p = crcBytes 0 (p.take (p.length-8) ++ p.drop (p.length-8)) := by
        rw [List.take_append_drop]
    _ = 0 := by
        rw [← hcrc]
        exact crcBytes_checksum _

/-- RESTORE takes every payload that DUMP has made, and no payload that differs from it in up to
eight bytes next to each other. -/
theorem dump_payload_checked (next next' : ℕ) (object : Bytes) :
    verifyDumpPayload next' (createDumpPayload next object) = true ∧
      ∀ a u v b : Bytes, createDumpPayload next object = a ++ u ++ b → u.length = v.length →
        u.length ≤ 8 → u ≠ v → verifyDumpPayload next' (a ++ v ++ b) = false := by
  have hzero : crcBytes 0 (createDumpPayload next object) = 0 := by
    rw [createDumpPayload, crc64_eq]
    exact crcBytes_checksum _
  constructor
  · have hlen : (createDumpPayload next object).length = object.length+10 := by
      simp [createDumpPayload]
    have hfooter : (createDumpPayload next object).drop object.length = [9, 0] ++
        leBytes 8 (crcBytes 0 (object ++ [9, 0])).toNat := by
      rw [createDumpPayload, crc64_eq, List.append_assoc, List.drop_left]
      rfl
    have hbody : (createDumpPayload next object).take (object.length+2) = object ++ [9, 0] := by
      rw [createDumpPayload, List.take_left' (by simp)]
      rfl
    unfold verifyDumpPayload
    rw [hlen, if_neg (by omega), show object.length+10-10 = object.length by omega,
      show object.length+10-8 = object.length+2 by omega, hfooter, hbody,
      if_neg (by simp [rdbVersion]), crc64_eq]
    apply beq_of_eq
    exact (List.take_of_length_le (leBytes_length _ _).le).symm
  · intro a u v b hcreate hlen hburst hne
    by_contra hverify
    apply hne
    apply crcBytes_burst 0 (a := a) (b := b) hlen hburst
    rw [← hcreate, hzero, crcBytes_of_verify (eq_true_of_ne_false hverify)]

end RedisCore.Crc64
