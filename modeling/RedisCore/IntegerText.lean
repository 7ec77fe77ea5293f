import RedisCore.CTypes
import RedisCore.ListpackModel

namespace RedisCore
open UInt8 (ofNat)

def digits10 (v : ℕ) : ℕ :=
  if v < 10 then 1
  else if v < 100 then 2
  else if v < 1000 then 3
  else if v < 1000000000000 then
    if v < 100000000 then
      if v < 1000000 then
        if v < 10000 then 4 else 5+(if v ≥ 100000 then 1 else 0)
      else 7+(if v ≥ 10000000 then 1 else 0)
    else if v < 10000000000 then 9+(if v ≥ 1000000000 then 1 else 0)
    else 11+(if v ≥ 100000000000 then 1 else 0)
  else 12+digits10 (v/1000000000000)
termination_by v
decreasing_by omega

def digitPairs : Bytes :=
  text ("0001020304050607080910111213141516171819" ++
    "2021222324252627282930313233343536373839" ++
    "4041424344454647484950515253545556575859" ++
    "6061626364656667686970717273747576777879" ++
    "8081828384858687888990919293949596979899")

def storePair (dst : Bytes) (next i : ℕ) : Except Fault Bytes := do
  let low ← loadByte digitPairs (i+1)
  let dst ← storeBytes dst next [low]
  let high ← loadByte digitPairs i
  storeBytes dst ((next+2^32-1)%2^32) [high]

def storeDigits : ℕ → Bytes → ℕ → ℕ → Except Fault Bytes
  | 0, _, _, _ => .error .outOfFuel
  | fuel+1, dst, value, next =>
    if value ≥ 100 then do
      let dst ← storePair dst next (value%100*2)
      storeDigits fuel dst (value/100) ((next+2^32-2)%2^32)
    else if value < 10 then storeBytes dst next [ofNat (48+value)]
    else storePair dst next (value*2)

/-- `ll2string` into a buffer of `dst.length` bytes: the buffer and the length, 0 without any
change if the buffer is too small. -/
def ll2string (dst : Bytes) (svalue : ℤ) : Except Fault (Bytes × ℕ) := do
  let value := svalue.natAbs
  let negative := if svalue < 0 then 1 else 0
  let length := digits10 value+negative
  if length ≥ dst.length then return (dst, 0)
  else
    let dst ← storeBytes dst length [0]
    -- every round of the loop takes two of at most 20 digits
    let dst ← storeDigits 11 dst value (length-1)
    let dst ← (if svalue < 0 then storeBytes dst 0 [45] else .ok dst)
    return (dst, length)

variable {n i v : ℕ} {m a c : Bytes}

theorem decimalNat_length_eq {k : ℕ} (hlo : 10^k ≤ n) (hhi : n < 10^(k+1)) :
    (decimalNat n).length = k+1 := by
  induction k generalizing n with
  | zero =>
    rw [decimalNat, if_pos (by simpa using hhi)]
    rfl
  | succ k ih =>
    rw [pow_succ] at hlo hhi
    have hpos : 0 < 10^k := by positivity
    rw [decimalNat, if_neg (by omega), List.length_append, ih (by omega) (by omega)]
    rfl

theorem decimalNat_length_small (h : n < 10) : (decimalNat n).length = 1 := by
  rw [decimalNat, if_pos h]
  rfl

theorem decimalNat_length_div (h : 1000000000000 ≤ n) :
    (decimalNat n).length = 12+(decimalNat (n/1000000000000)).length := by
  have hpos : n/1000000000000 ≠ 0 := by omega
  have hlo := Nat.pow_log_le_self 10 hpos
  have hhi := Nat.lt_pow_succ_log_self (b := 10) (by norm_num) (n/1000000000000)
  rw [decimalNat_length_eq hlo hhi,
    decimalNat_length_eq (k := Nat.log 10 (n/1000000000000)+12)]
  · omega
  · rw [pow_add]
    norm_num
    omega
  · rw [Nat.succ_eq_add_one, pow_succ] at hhi
    rw [pow_succ, pow_add]
    norm_num
    omega

theorem digits10_eq (v : ℕ) : digits10 v = (decimalNat v).length := by
  induction v using Nat.strong_induction_on with
  | _ v ih =>
    have hcount : ∀ {k : ℕ}, 10^k ≤ v → v < 10^(k+1) → k+1 = (decimalNat v).length :=
      fun hlo hhi => (decimalNat_length_eq hlo hhi).symm
    rw [digits10]
    split_ifs with h1 h2 h3 h12 h8 h6 h4 h5 h7 h10 h9 h11
    · exact (decimalNat_length_small h1).symm
    · exact hcount (by omega) (by omega)
    · exact hcount (by omega) (by omega)
    · exact hcount (by omega) (by omega)
    · exact hcount (by omega) (by omega)
    · exact hcount (by omega) (by omega)
    · exact hcount (by omega) (by omega)
    · exact hcount (by omega) (by omega)
    · exact hcount (by omega) (by omega)
    · exact hcount (by omega) (by omega)
    · exact hcount (by omega) (by omega)
    · exact hcount (by omega) (by omega)
    · rw [ih _ (by omega)]
      exact (decimalNat_length_div (by omega)).symm

theorem pairs_load (hi : i < n) (f g : ℕ → UInt8) :
    loadByte ((List.range n).flatMap fun k => [f k, g k]) (i*2) = .ok (f i) ∧
      loadByte ((List.range n).flatMap fun k => [f k, g k]) (i*2+1) = .ok (g i) := by
  have hlen : ∀ n, ((List.range n).flatMap fun k => [f k, g k]).length = n*2 := by
    intro n
    simp [List.length_flatMap]
  have hget : ((List.range n).flatMap fun k => [f k, g k])[i*2]? = some (f i) ∧
      ((List.range n).flatMap fun k => [f k, g k])[i*2+1]? = some (g i) := by
    induction n with
    | zero => omega
    | succ n ih =>
      rw [List.range_succ, List.flatMap_append]
      by_cases hin : i < n
      · obtain ⟨hf, hg⟩ := ih hin
        have hl := hlen n
        rw [List.getElem?_append_left (by omega), List.getElem?_append_left (by omega)]
        exact ⟨hf, hg⟩
      · have hlast : i = n := by omega
        subst hlast
        rw [List.getElem?_append_right (by rw [hlen]), List.getElem?_append_right (by
          rw [hlen]
          omega), hlen]
        simp
  unfold loadByte
  rw [hget.1, hget.2]
  exact ⟨rfl, rfl⟩

theorem digitPairs_eq : digitPairs = (List.range 100).flatMap fun i =>
    [ofNat (48+i/10), ofNat (48+i%10)] := by decide +kernel

theorem digitPairs_load (hi : i < 100) : loadByte digitPairs (i*2) = .ok (ofNat (48+i/10)) ∧
      loadByte digitPairs (i*2+1) = .ok (ofNat (48+i%10)) := by
  rw [digitPairs_eq]
  exact pairs_load hi (fun i => ofNat (48+i/10)) (fun i => ofNat (48+i%10))

theorem storeByte_at {o : UInt8} (b : UInt8) (h : m = a ++ (o :: c))
    (hi : i = a.length) : storeBytes m i [b] = .ok (a ++ (b :: c)) :=
  storeBytes_at (x := [o]) (b := [b]) h hi rfl

theorem storePair_at {x y : UInt8} (hi : i < 100)
    (hm : m = a ++ (x :: y :: c)) (hnext : n = a.length+1) (hlt : n < 2^32) :
    storePair m n (i*2) =
      .ok (a ++ (ofNat (48+i/10) :: ofNat (48+i%10) :: c)) := by
  obtain ⟨hhigh, hlow⟩ := digitPairs_load hi
  have hprev : (n+2^32-1)%2^32 = a.length := by omega
  have hstore : storeBytes m n [ofNat (48+i%10)] =
      .ok (a ++ (x :: ofNat (48+i%10) :: c)) := by
    rw [storeByte_at (a := a ++ [x]) (c := c) (o := y) (ofNat (48+i%10)) (by simp [hm])
      (by simp [hnext])]
    simp
  rw [storePair, hlow, ok_bind, hstore, ok_bind, hhigh, ok_bind, hprev]
  exact storeByte_at _ rfl rfl

theorem decimalNat_pair (h : 100 ≤ v) : decimalNat v =
    decimalNat (v/100) ++ [ofNat (48+v%100/10), ofNat (48+v%100%10)] := by
  rw [decimalNat, if_neg (by omega), decimalNat, if_neg (by omega)]
  rw [List.append_assoc, show v/10/10 = v/100 by omega, show v/10%10 = v%100/10 by omega,
    show v%10 = v%100%10 by omega]
  rfl

theorem decimalNat_two (h : 10 ≤ v) (hlt : v < 100) :
    decimalNat v = [ofNat (48+v/10), ofNat (48+v%10)] := by
  rw [decimalNat, if_neg (by omega), decimalNat, if_pos (by omega)]
  rfl

theorem exists_last_two {α : Type} {l : List α} (h : 2 ≤ l.length) :
    ∃ front x y, l = front ++ [x, y] := by
  rcases List.eq_nil_or_concat l with rfl | ⟨l', y, rfl⟩
  · simp at h
  · rcases List.eq_nil_or_concat l' with rfl | ⟨front, x, rfl⟩
    · simp at h
    · exact ⟨front, x, y, by simp⟩

theorem storeDigits_small {fuel next : ℕ} {hole : Bytes} (hv : v < 100)
    (hm : m = a ++ (hole ++ c)) (hlen : hole.length = (decimalNat v).length)
    (hnext : next+1 = a.length+hole.length) (hlt : next < 2^32) :
    storeDigits (fuel+1) m v next = .ok (a ++ (decimalNat v ++ c)) := by
  rw [storeDigits, if_neg (by omega)]
  by_cases hone : v < 10
  · rw [decimalNat_length_small hone] at hlen
    obtain ⟨x, rfl⟩ := List.length_eq_one_iff.mp hlen
    rw [if_pos hone, decimalNat, if_pos hone]
    exact storeByte_at _ hm (by rw [hlen] at hnext; omega)
  · rw [decimalNat_two (by omega) hv] at hlen ⊢
    obtain ⟨x, y, rfl⟩ := List.length_eq_two.mp hlen
    rw [if_neg hone]
    exact storePair_at hv hm (by rw [hlen] at hnext; simp at hnext; omega) hlt

theorem storeDigits_at (fuel : ℕ) : ∀ {v next : ℕ} {m a g c : Bytes}, v < 100^(fuel+1) →
    m = a ++ (g ++ c) → g.length = (decimalNat v).length → next+1 = a.length+g.length →
    next < 2^32 → storeDigits (fuel+1) m v next = .ok (a ++ (decimalNat v ++ c)) := by
  induction fuel with
  | zero =>
    intro v next m a hole c hv hm hlen hnext hlt
    exact storeDigits_small (by simpa using hv) hm hlen hnext hlt
  | succ fuel ih =>
    intro v next m a hole c hv hm hlen hnext hlt
    by_cases hbig : 100 ≤ v
    · have hsplit := decimalNat_pair hbig
      have hrest := List.length_pos_iff.mpr (decimalNat_ne_nil (v/100))
      rw [hsplit, List.length_append] at hlen
      obtain ⟨front, x, y, rfl⟩ := exists_last_two (l := hole)
        (by rw [hlen, List.length_cons, List.length_singleton]; omega)
      simp only [List.length_append, List.length_cons, List.length_nil] at hlen hnext
      have hpair := storePair_at (m := m) (a := a ++ front) (c := c) (x := x) (y := y)
        (i := v%100) (n := next) (by omega) (by rw [hm]; simp)
        (by rw [List.length_append]; omega) hlt
      rw [storeDigits, if_pos hbig, hpair, ok_bind, show (next+2^32-2)%2^32 = next-2 by omega,
        ih (a := a) (g := front)
          (c := ofNat (48+v%100/10) :: ofNat (48+v%100%10) :: c)
          (by rw [pow_succ] at hv; omega) (by simp) (by omega) (by omega) (by omega), hsplit]
      simp
    · exact storeDigits_small (by omega) hm hlen hnext hlt

theorem ll2string_buffer {v : ℤ} (hlo : -2^63 ≤ v) (hhi : v < 2^63) (dst : Bytes)
    (hroom : (decimal v).length < dst.length) :
    ll2string dst v =
      .ok (decimal v ++ 0 :: dst.drop ((decimal v).length+1), (decimal v).length) := by
  obtain ⟨hpos, hmax⟩ := decimal_length hlo hhi
  have hlength : digits10 v.natAbs+(if v < 0 then 1 else 0) = (decimal v).length := by
    rw [digits10_eq, decimal]
    split_ifs
    · rw [List.length_cons]
    · rfl
  have hfuel : v.natAbs < 100^(10+1) := by
    have : v.natAbs ≤ 2^63 := by omega
    exact lt_of_le_of_lt this (by norm_num)
  -- the buffer: the bytes of the text, the one of the terminator, and the others
  obtain ⟨x, rest, hrest⟩ := List.exists_cons_of_ne_nil
    (show dst.drop (decimal v).length ≠ [] by simp; omega)
  have hdst : dst = dst.take (decimal v).length ++ (x :: rest) := by
    rw [← hrest, List.take_append_drop]
  have htake : (dst.take (decimal v).length).length = (decimal v).length := by
    rw [List.length_take, Nat.min_eq_left hroom.le]
  have hbehind : dst.drop ((decimal v).length+1) = rest := by
    rw [← List.tail_drop, hrest, List.tail_cons]
  rw [hbehind]
  unfold ll2string
  dsimp only
  rw [hlength, if_neg (by omega), storeByte_at 0 hdst htake.symm, ok_bind]
  generalize dst.take (decimal v).length = room at htake
  by_cases hneg : v < 0
  · have htext : decimal v = 45 :: decimalNat v.natAbs := by rw [decimal, if_pos hneg]
    rw [htext, List.length_cons] at htake hmax ⊢
    obtain ⟨sign, hole, rfl⟩ := List.exists_cons_of_ne_nil
      (show room ≠ [] by intro h; rw [h] at htake; simp at htake)
    have hhole : hole.length = (decimalNat v.natAbs).length := by simpa using htake
    rw [storeDigits_at 10 (a := [sign]) (g := hole) (c := 0 :: rest) hfuel (by simp) hhole
      (by simp; omega) (by omega), ok_bind, if_pos hneg]
    have hsign : storeBytes ([sign] ++ (decimalNat v.natAbs ++ 0 :: rest)) 0 [45] =
        .ok (45 :: (decimalNat v.natAbs ++ 0 :: rest)) :=
      storeByte_at (a := []) (o := sign) 45 rfl rfl
    rw [hsign]
    rfl
  · have htext : decimal v = decimalNat v.natAbs := by rw [decimal, if_neg hneg]
    rw [htext] at htake hmax hpos ⊢
    rw [storeDigits_at 10 (a := []) (g := room) (c := 0 :: rest) hfuel (by simp) htake
      (by simp; omega) (by omega), ok_bind, if_neg hneg]
    rfl

theorem ll2string_spec {v : ℤ} (hlo : -2^63 ≤ v) (hhi : v < 2^63) (dst : Bytes)
    (hroom : (decimal v).length < dst.length) :
    ∃ rest : Bytes, ll2string dst v = .ok (decimal v ++ 0 :: rest, (decimal v).length) :=
  ⟨_, ll2string_buffer hlo hhi dst hroom⟩

/-- Printing and parsing are inverse to each other: every 64-bit integer is printed into every
buffer of at least 21 bytes as its decimal text, of the length that `digits10` predicts, and parsed
back, and the texts that the parsers accept are exactly the printed ones. -/
theorem ll2string_string2ll :
    (∀ v : ℤ, -2^63 ≤ v → v < 2^63 → ∀ dst : Bytes, 21 ≤ dst.length →
      ∃ rest, ll2string dst v = .ok (decimal v ++ 0 :: rest, (decimal v).length) ∧
        (decimal v).length = digits10 v.natAbs+(if v < 0 then 1 else 0) ∧
        string2ll (decimal v) = some v) ∧
    (∀ parse ∈ [string2ll, Listpack.lpStringToInt64], ∀ (s : Bytes) (v : ℤ),
      parse s = some v ↔ -2^63 ≤ v ∧ v < 2^63 ∧ ∀ dst : Bytes, 21 ≤ dst.length →
        ∃ out, ll2string dst v = .ok (out, s.length) ∧ out.take s.length = s) := by
  constructor
  · intro v hlo hhi dst hdst
    obtain ⟨hpos, hmax⟩ := decimal_length hlo hhi
    obtain ⟨rest, hrun⟩ := ll2string_spec hlo hhi dst (by omega)
    refine ⟨rest, hrun, ?_, string2ll_decimal hlo hhi⟩
    rw [digits10_eq, decimal]
    split_ifs
    · rw [List.length_cons]
    · rfl
  · intro parse hmem s v
    have hsame : parse s = string2ll s := by
      rcases List.mem_pair.mp hmem with rfl | rfl
      · rfl
      · rfl
    rw [hsame]
    constructor
    · intro hparse
      obtain ⟨htext, hlo, hhi⟩ := string2ll_some hparse
      refine ⟨hlo, hhi, ?_⟩
      intro dst hdst
      obtain ⟨hpos, hmax⟩ := decimal_length hlo hhi
      obtain ⟨rest, hrun⟩ := ll2string_spec hlo hhi dst (by omega)
      rw [htext] at hrun
      exact ⟨_, hrun, List.take_left⟩
    · rintro ⟨hlo, hhi, hprint⟩
      obtain ⟨hpos, hmax⟩ := decimal_length hlo hhi
      obtain ⟨out, hrun, htake⟩ := hprint (List.replicate 21 0) (by simp)
      obtain ⟨rest, hrun'⟩ := ll2string_spec hlo hhi (List.replicate 21 0) (by simp; omega)
      rw [hrun'] at hrun
      obtain ⟨rfl, hlen⟩ := Prod.mk.inj (Except.ok.inj hrun)
      rw [← hlen, List.take_left] at htake
      rw [← htake]
      exact string2ll_decimal hlo hhi

end RedisCore
