import RedisCore.UnsignedText

namespace RedisCore.Memory

inductive Errno
  | zero
  | einval
  | erange
deriving DecidableEq, Repr

structure Strtoll where
  value : ℤ
  endptr : Bytes
  errno : Errno
deriving DecidableEq, Repr

def signed (negative : Bool) (n : ℕ) : ℤ := if negative then -n else n

/-- `strtoll` in base 10, as the C standard has it: out of range it saturates with `ERANGE`, and
without a digit it converts nothing and leaves `errno` alone. -/
def strtoll (s : Bytes) : Strtoll :=
  let r := splitSign (s.dropWhile isspace)
  if r.2.takeWhile isDigit = [] then ⟨0, s, .zero⟩
  else
    let x := signed r.1 (digitsValue r.2)
    let endptr := r.2.dropWhile isDigit
    if x < -2^63 then ⟨-2^63, endptr, .erange⟩
    else if 2^63 ≤ x then ⟨2^63-1, endptr, .erange⟩
    else ⟨x, endptr, .zero⟩

def memtollUnit (u : Bytes) : Option ℕ :=
  if sameCaseless u [] ∨ sameCaseless u (text "b") then some 1
  else if sameCaseless u (text "k") then some 1000
  else if sameCaseless u (text "kb") then some 1024
  else if sameCaseless u (text "m") then some (1000*1000)
  else if sameCaseless u (text "mb") then some (1024*1024)
  else if sameCaseless u (text "g") then some (1000*1000*1000)
  else if sameCaseless u (text "gb") then some (1024*1024*1024)
  else none

def signPart (p : Bytes) : Bytes := if p.head? = some 45 then [45] else []

def digitPart (p : Bytes) : Bytes := (p.drop (signPart p).length).takeWhile isDigit

def unitPart (p : Bytes) : Bytes := (p.drop (signPart p).length).dropWhile isDigit

/-- `memtoll`: the result where `*err` is 0. -/
def memtoll (p : Bytes) : Option ℤ :=
  match memtollUnit (unitPart p) with
  | none => none
  | some mul =>
    let digits := ((signPart p).length+(digitPart p).length) % 2^32
    if digits ≥ 128 then none
    else
      let r := strtoll (p.take digits)
      if (r.value = 0 ∧ r.errno = .einval) ∨ r.endptr ≠ [] then none
      else some (toLong (r.value*mul))

def rewriteConfigFormatMemory (bytes : ℤ) : Bytes :=
  let gb := 1024*1024*1024
  let mb := 1024*1024
  let kb := 1024
  if bytes ≠ 0 ∧ bytes.tmod gb = 0 then decimal (bytes.tdiv gb) ++ text "gb"
  else if bytes ≠ 0 ∧ bytes.tmod mb = 0 then decimal (bytes.tdiv mb) ++ text "mb"
  else if bytes ≠ 0 ∧ bytes.tmod kb = 0 then decimal (bytes.tdiv kb) ++ text "kb"
  else decimal bytes

inductive NumericType
  | int
  | uint
  | long
  | ulong
  | longLong
  | ulongLong
  | sizeT
  | ssizeT
  | offT
  | timeT
deriving DecidableEq, Repr

def NumericType.checkedUnsigned : NumericType → Bool
  | .ulongLong | .uint | .sizeT => true
  | _ => false

def NumericType.store : NumericType → ℤ → ℤ
  | .int, v => toInt v
  | .uint, v => toUnsigned 32 v
  | .ulong, v | .ulongLong, v | .sizeT, v => toUnsigned 64 v
  | .long, v | .longLong, v | .ssizeT, v | .offT, v | .timeT, v => toLong v

/-- The bounds are stored as `long long` numbers. -/
structure NumericConfig where
  numericType : NumericType
  isMemory : Bool
  lowerBound : ℤ
  upperBound : ℤ
  isValidFn : ℤ → Except Bytes Unit
  updateFn : ℤ → ℤ → Except Bytes Unit
  wide : isMemory = true → numericType ≠ .int ∧ numericType ≠ .uint

def numericBoundaryCheck (data : NumericConfig) (ll : ℤ) : Except Bytes Unit :=
  if data.numericType.checkedUnsigned then
    let ull := toUnsigned 64 ll
    let upperBound := toUnsigned 64 data.upperBound
    let lowerBound := toUnsigned 64 data.lowerBound
    if ull > upperBound ∨ ull < lowerBound then
      .error (text "argument must be between " ++ decimalNat lowerBound ++ text " and " ++
        decimalNat upperBound ++ text " inclusive")
    else .ok ()
  else if ll > data.upperBound ∨ ll < data.lowerBound then
    .error (text "argument must be between " ++ decimal data.lowerBound ++ text " and " ++
      decimal data.upperBound ++ text " inclusive")
  else .ok ()

def numericParse (data : NumericConfig) (value : Bytes) : Except Bytes ℤ :=
  if data.isMemory then
    match memtoll value with
    | none => .error (text "argument must be a memory value")
    | some ll => if ll < 0 then .error (text "argument must be a memory value") else .ok ll
  else
    match string2ll value with
    | none => .error (text "argument couldn't be parsed into an integer")
    | some ll => .ok ll

def numericConfigSet (data : NumericConfig) (value : Bytes) (update : Bool) (prev : ℤ) :
    Except Bytes ℤ := do
  let ll ← numericParse data value
  numericBoundaryCheck data ll
  data.isValidFn ll
  (if update then data.updateFn ll prev else .ok ())
  return data.numericType.store ll

def units : List (Bytes × ℕ) :=
  [([], 1), (text "b", 1), (text "k", 1000), (text "kb", 1024), (text "m", 1000000),
    (text "mb", 1048576), (text "g", 1000000000), (text "gb", 1073741824)]

def Denotes (p : Bytes) (v : ℤ) : Prop :=
  ∃ (sign digits unit name : Bytes) (mul : ℕ), p = sign ++ (digits ++ unit) ∧
    (sign = [] ∨ sign = [45]) ∧ digits ≠ [] ∧ (∀ c ∈ digits, isDigit c = true) ∧
    (name, mul) ∈ units ∧ sameCaseless unit name = true ∧
    v = signed (sign = [45]) (digitsValue digits)*mul

def MemoryExact (p : Bytes) : Prop :=
  ∀ v, memtoll p = some v → Denotes p v ∧ -2^63 ≤ v ∧ v < 2^63

def numberValue (p : Bytes) : ℤ := signed (signPart p = [45]) (digitsValue (digitPart p))

/-- The unit is unknown, the number too long for the buffer or a bare '-', or else there is a digit
and the product fits. -/
def MemoryRight (p : Bytes) : Prop :=
  ∀ mul, memtollUnit (unitPart p) = some mul →
    ((signPart p).length+(digitPart p).length) % 2^32 < 128 →
    p.take (((signPart p).length+(digitPart p).length) % 2^32) ≠ [45] →
    digitPart p ≠ [] ∧ -2^63 ≤ numberValue p*mul ∧ numberValue p*mul < 2^63 ∧
      ((signPart p).length+(digitPart p).length < 2^32 ∨ numberValue p = 0)

theorem memtollUnit_iff {u : Bytes} {mul : ℕ} :
    memtollUnit u = some mul ↔ ∃ name, (name, mul) ∈ units ∧ sameCaseless u name = true := by
  unfold memtollUnit units sameCaseless
  generalize (cString u).map tolower = key
  constructor
  · intro h
    split_ifs at h with h1 h2 h3 h4 h5 h6 h7
    · rcases h1 with h1 | h1
      · exact ⟨[], by simp_all, h1⟩
      · exact ⟨text "b", by simp_all, h1⟩
    · exact ⟨text "k", by simp_all, h2⟩
    · exact ⟨text "kb", by simp_all, h3⟩
    · exact ⟨text "m", by simp_all, h4⟩
    · exact ⟨text "mb", by simp_all, h5⟩
    · exact ⟨text "g", by simp_all, h6⟩
    · exact ⟨text "gb", by simp_all, h7⟩
  · rintro ⟨name, hmem, hname⟩
    have hkey : key = (cString name).map tolower := beq_iff_eq.1 hname
    rw [hkey]
    simp only [List.mem_cons, Prod.mk.injEq, List.not_mem_nil, or_false] at hmem
    rcases hmem with ⟨rfl, rfl⟩ | ⟨rfl, rfl⟩ | ⟨rfl, rfl⟩ | ⟨rfl, rfl⟩ | ⟨rfl, rfl⟩ | ⟨rfl, rfl⟩ |
      ⟨rfl, rfl⟩ | ⟨rfl, rfl⟩ <;> rfl

theorem unit_pos {u : Bytes} {mul : ℕ} (h : memtollUnit u = some mul) : 0 < mul := by
  unfold memtollUnit at h
  split_ifs at h <;> simp_all <;> omega

set_option maxRecDepth 20000 in
theorem unit_head {u : Bytes} {mul : ℕ} (h : memtollUnit u = some mul) :
    ∀ c, u.head? = some c → isDigit c = false := by
  intro c hc
  obtain ⟨cs, rfl⟩ : ∃ cs, u = c :: cs := by
    cases u with
    | nil => cases hc
    | cons d cs => exact ⟨cs, by rw [Option.some.inj hc]⟩
  by_contra hdigit
  have hdigit : isDigit c = true := by simpa using hdigit
  obtain ⟨hlo, hhi⟩ := (isDigit_iff c).1 hdigit
  have hzero : c ≠ 0 := by
    rintro rfl
    exact absurd hlo (by decide)
  have hlower : tolower c = c := by
    unfold tolower
    rw [if_neg]
    simp only [Bool.and_eq_true, decide_eq_true_eq, UInt8.le_iff_toNat_le]
    rintro ⟨h65, -⟩
    have h65 : 65 ≤ c.toNat := h65
    omega
  obtain ⟨name, hmem, hname⟩ := memtollUnit_iff.1 h
  have hkey : ((cString name).map tolower).head? = some c := by
    rw [← beq_iff_eq.1 hname, cString, List.takeWhile_cons_of_pos (by simpa using hzero),
      List.map_cons, hlower]
    rfl
  have hall : ∀ e ∈ units, ∀ d ∈ ((cString e.1).map tolower).head?, 57 < d.toNat := by decide
  have := hall _ hmem c hkey
  omega

theorem parts_append (p : Bytes) : signPart p ++ (digitPart p ++ unitPart p) = p := by
  have htail : digitPart p ++ unitPart p = p.drop (signPart p).length :=
    List.takeWhile_append_dropWhile
  rw [htail]
  cases p with
  | nil => rfl
  | cons c cs =>
    unfold signPart
    by_cases hc : c = 45
    · rw [if_pos (by rw [hc]; rfl), hc]
      rfl
    · rw [if_neg (by simpa using hc)]
      rfl

theorem signPart_cases (p : Bytes) : signPart p = [] ∨ signPart p = [45] := by
  unfold signPart
  split_ifs
  · exact Or.inr rfl
  · exact Or.inl rfl

theorem digitPart_isDigit (p : Bytes) : ∀ c ∈ digitPart p, isDigit c = true :=
  fun _ hc => List.mem_takeWhile_imp hc

theorem parts_of {sign digits unit : Bytes} (hsign : sign = [] ∨ sign = [45]) (hne : digits ≠ [])
    (hdigits : ∀ c ∈ digits, isDigit c = true)
    (hunit : ∀ c, unit.head? = some c → isDigit c = false) :
    signPart (sign ++ (digits ++ unit)) = sign ∧ digitPart (sign ++ (digits ++ unit)) = digits ∧
      unitPart (sign ++ (digits ++ unit)) = unit := by
  have hs : signPart (sign ++ (digits ++ unit)) = sign := by
    rcases hsign with rfl | rfl
    · obtain ⟨c, cs, rfl⟩ := List.exists_cons_of_ne_nil hne
      have hc := (isDigit_iff c).1 (hdigits c List.mem_cons_self)
      apply if_neg
      simp only [List.nil_append, List.cons_append, List.head?_cons, Option.some.injEq]
      rintro rfl
      exact absurd hc.1 (by decide)
    · rfl
  have htake : (digits ++ unit).takeWhile isDigit = digits := Aof.takeWhile_digits hdigits hunit
  have hdrop : (digits ++ unit).dropWhile isDigit = unit := by
    have hboth := List.takeWhile_append_dropWhile (p := isDigit) (l := digits ++ unit)
    rw [htake] at hboth
    exact List.append_cancel_left hboth
  refine ⟨hs, ?_, ?_⟩
  · rw [digitPart, hs, List.drop_left, htake]
  · rw [unitPart, hs, List.drop_left, hdrop]

theorem denotes_iff {p : Bytes} {v : ℤ} : Denotes p v ↔
    digitPart p ≠ [] ∧ ∃ mul, memtollUnit (unitPart p) = some mul ∧ v = numberValue p*mul := by
  constructor
  · rintro ⟨sign, digits, unit, name, mul, rfl, hsign, hne, hdigits, hmem, hname, rfl⟩
    have hunit := memtollUnit_iff.2 ⟨name, hmem, hname⟩
    obtain ⟨hs, hd, hu⟩ := parts_of hsign hne hdigits (unit_head hunit)
    refine ⟨by rwa [hd], mul, by rwa [hu], ?_⟩
    rw [numberValue, hs, hd]
  · rintro ⟨hne, mul, hunit, rfl⟩
    obtain ⟨name, hmem, hname⟩ := memtollUnit_iff.1 hunit
    exact ⟨signPart p, digitPart p, unitPart p, name, mul, (parts_append p).symm, signPart_cases p,
      hne, digitPart_isDigit p, hmem, hname, rfl⟩

theorem strtoll_number {sign digits : Bytes} (hsign : sign = [] ∨ sign = [45]) (hne : digits ≠ [])
    (hdigits : ∀ c ∈ digits, isDigit c = true) :
    strtoll (sign ++ digits) =
      (if signed (sign = [45]) (digitsValue digits) < -2^63 then ⟨-2^63, [], .erange⟩
      else if 2^63 ≤ signed (sign = [45]) (digitsValue digits) then ⟨2^63-1, [], .erange⟩
      else ⟨signed (sign = [45]) (digitsValue digits), [], .zero⟩) := by
  have hsplit : splitSign ((sign ++ digits).dropWhile isspace) = (decide (sign = [45]), digits) := by
    rcases hsign with rfl | rfl
    · obtain ⟨c, cs, rfl⟩ := List.exists_cons_of_ne_nil hne
      exact dropWhile_isspace_digits (hdigits c List.mem_cons_self) cs
    · rfl
  have htake : digits.takeWhile isDigit = digits := List.takeWhile_eq_self_iff.2 hdigits
  have hdrop : digits.dropWhile isDigit = [] := List.dropWhile_eq_nil_iff.2 hdigits
  unfold strtoll
  rw [hsplit]
  dsimp only
  rw [htake, if_neg hne, hdrop]

theorem strtoll_nil : strtoll [] = ⟨0, [], .zero⟩ := rfl

theorem strtoll_minus : strtoll [45] = ⟨0, [45], .zero⟩ := rfl

theorem digitsValue_append {a b : Bytes} (ha : ∀ c ∈ a, isDigit c = true)
    (hb : ∀ c ∈ b, isDigit c = true) :
    digitsValue (a ++ b) = digitsValue a*10^b.length+digitsValue b := by
  have hfold : ∀ (l : Bytes) (v : ℕ), l.foldl (fun v c => v*10+digitValue c) v =
      v*10^l.length+l.foldl (fun v c => v*10+digitValue c) 0 := by
    intro l
    induction l with
    | nil => intro v; simp
    | cons c l ih =>
      intro v
      rw [List.foldl_cons, List.foldl_cons, ih, ih (0*10+digitValue c), List.length_cons, pow_succ]
      ring
  have hab : ∀ c ∈ a ++ b, isDigit c = true := by
    intro c hc
    rcases List.mem_append.1 hc with hc | hc
    · exact ha c hc
    · exact hb c hc
  unfold digitsValue
  rw [List.takeWhile_eq_self_iff.2 hab, List.takeWhile_eq_self_iff.2 ha,
    List.takeWhile_eq_self_iff.2 hb, List.foldl_append, hfold b]

def numberLen (p : Bytes) : ℕ := ((signPart p).length+(digitPart p).length) % 2^32

theorem buffer_form (p : Bytes) : ∃ sign digits rest, p.take (numberLen p) = sign ++ digits ∧
    digitPart p = digits ++ rest ∧ (sign = [] ∨ sign = [45]) ∧
    (digits ≠ [] → sign = signPart p) ∧
    ((signPart p).length+(digitPart p).length < 2^32 → sign = signPart p ∧ rest = []) ∧
    (2^32 ≤ (signPart p).length+(digitPart p).length → numberLen p < 128 → 20 ≤ rest.length) := by
  have hle : numberLen p ≤ (signPart p).length+(digitPart p).length := Nat.mod_le _ _
  have hsign : (signPart p).length ≤ 1 := by
    rcases signPart_cases p with h | h <;> rw [h] <;> decide
  have htake : p.take (numberLen p) = (signPart p).take (numberLen p) ++
      (digitPart p).take (numberLen p-(signPart p).length) := by
    have hzero : numberLen p-(signPart p).length-(digitPart p).length = 0 := by omega
    calc p.take (numberLen p)
        = (signPart p ++ (digitPart p ++ unitPart p)).take (numberLen p) := by rw [parts_append]
      _ = _ := by
        rw [List.take_append, List.take_append, hzero, List.take_zero, List.append_nil]
  refine ⟨_, _, (digitPart p).drop (numberLen p-(signPart p).length), htake,
    (List.take_append_drop _ _).symm, ?_, ?_, ?_, ?_⟩
  · rcases signPart_cases p with h | h
    · rw [h]
      exact Or.inl List.take_nil
    · rw [h]
      cases numberLen p with
      | zero => exact Or.inl rfl
      | succ k => exact Or.inr (by rw [List.take_succ_cons, List.take_nil])
  · intro hne
    have hpos : (signPart p).length < numberLen p := by
      by_contra hshort
      exact hne (by rw [Nat.sub_eq_zero_of_le (by omega), List.take_zero])
    exact List.take_of_length_le (by omega)
  · intro hlt
    have hlen : numberLen p = (signPart p).length+(digitPart p).length := Nat.mod_eq_of_lt hlt
    exact ⟨List.take_of_length_le (by omega), List.drop_eq_nil_of_le (by omega)⟩
  · intro hge hshort
    rw [List.length_drop]
    omega

theorem strtoll_buffer {sign digits : Bytes} (hsign : sign = [] ∨ sign = [45])
    (hdigits : ∀ c ∈ digits, isDigit c = true) :
    (strtoll (sign ++ digits)).errno ≠ .einval ∧
      ((strtoll (sign ++ digits)).endptr = [] ↔ sign ++ digits ≠ [45]) := by
  by_cases hne : digits = []
  · rw [hne, List.append_nil]
    rcases hsign with rfl | rfl
    · rw [strtoll_nil]
      exact ⟨by decide, by decide⟩
    · rw [strtoll_minus]
      exact ⟨by decide, by decide⟩
  · have hnot : sign ++ digits ≠ [45] := by
      obtain ⟨c, cs, rfl⟩ := List.exists_cons_of_ne_nil hne
      have hc := (isDigit_iff c).1 (hdigits c List.mem_cons_self)
      rcases hsign with rfl | rfl
      · intro heq
        have h45 : c = 45 := (List.cons.inj heq).1
        rw [h45] at hc
        exact absurd hc.1 (by decide)
      · intro heq
        cases (List.cons.inj heq).2
    rw [strtoll_number hsign hne hdigits]
    split_ifs
    · exact ⟨by decide, iff_of_true rfl hnot⟩
    · exact ⟨by decide, iff_of_true rfl hnot⟩
    · exact ⟨Errno.noConfusion, iff_of_true rfl hnot⟩

theorem memtoll_iff {p : Bytes} {v : ℤ} : memtoll p = some v ↔ ∃ mul,
    memtollUnit (unitPart p) = some mul ∧ numberLen p < 128 ∧ p.take (numberLen p) ≠ [45] ∧
      v = toLong ((strtoll (p.take (numberLen p))).value*mul) := by
  obtain ⟨sign, digits, rest, hbuf, hd, hsign, -, -, -⟩ := buffer_form p
  have hdigits : ∀ c ∈ digits, isDigit c = true := by
    intro c hc
    exact digitPart_isDigit p c (by rw [hd]; exact List.mem_append_left rest hc)
  obtain ⟨herrno, hend⟩ := strtoll_buffer hsign hdigits
  rw [← hbuf] at herrno hend
  have hlen : ((signPart p).length+(digitPart p).length) % 2^32 = numberLen p := rfl
  unfold memtoll
  cases hu : memtollUnit (unitPart p) with
  | none =>
    constructor
    · intro h
      cases h
    · rintro ⟨mul, hmul, -⟩
      cases hmul
  | some mul =>
    dsimp only
    rw [hlen]
    by_cases hlong : numberLen p ≥ 128
    · rw [if_pos hlong]
      constructor
      · intro h
        cases h
      · rintro ⟨mul', -, hshort, -⟩
        omega
    · rw [if_neg hlong]
      by_cases hminus : p.take (numberLen p) = [45]
      · rw [if_pos (Or.inr (fun hnil => hend.1 hnil hminus))]
        constructor
        · intro h
          cases h
        · rintro ⟨mul', -, -, hne, -⟩
          exact absurd hminus hne
      · rw [if_neg (by
          rintro (⟨-, he⟩ | he)
          · exact herrno he
          · exact he (hend.2 hminus))]
        constructor
        · intro h
          exact ⟨mul, rfl, by omega, hminus, (Option.some.inj h).symm⟩
        · rintro ⟨mul', hmul, -, -, rfl⟩
          rw [Option.some.inj hmul]

theorem signed_zero (negative : Bool) : signed negative 0 = 0 := by cases negative <;> rfl

theorem signed_eq_zero {negative : Bool} {n : ℕ} (h : signed negative n = 0) : n = 0 := by
  cases negative <;> simp only [signed] at h <;> omega

theorem natAbs_signed (negative : Bool) (n : ℕ) : (signed negative n).natAbs = n := by
  cases negative <;> simp [signed]

theorem factor_fits {x : ℤ} {mul : ℕ} (hmul : 0 < mul) (hl : -2^63 ≤ x*mul) (hu : x*mul < 2^63) :
    -2^63 ≤ x ∧ x < 2^63 := by
  have hone : (1 : ℤ) ≤ mul := by exact_mod_cast hmul
  constructor
  · by_contra hlt
    have hneg : x*mul ≤ x*1 := mul_le_mul_of_nonpos_left hone (by omega)
    omega
  · by_contra hge
    have hpos : x*1 ≤ x*mul := mul_le_mul_of_nonneg_left hone (by omega)
    omega

theorem lost_digits {digits rest : Bytes} {negative : Bool} {mul : ℕ} (hmul : 0 < mul)
    (hd : ∀ c ∈ digits ++ rest, isDigit c = true) (hrest : 20 ≤ rest.length)
    (hl : -2^63 ≤ signed negative (digitsValue (digits ++ rest))*mul)
    (hu : signed negative (digitsValue (digits ++ rest))*mul < 2^63) : digitsValue digits = 0 := by
  obtain ⟨hlo, hhi⟩ := factor_fits hmul hl hu
  have hval := digitsValue_append (fun c hc => hd c (List.mem_append_left rest hc))
    (fun c hc => hd c (List.mem_append_right digits hc))
  have habs := natAbs_signed negative (digitsValue (digits ++ rest))
  by_contra hne
  have hpow : 10^20 ≤ 10^rest.length := Nat.pow_le_pow_right (by norm_num) hrest
  have hmore : 1*10^rest.length ≤ digitsValue digits*10^rest.length :=
    Nat.mul_le_mul_right _ (by omega)
  have hbig : (2:ℕ)^63 < 10^20 := by norm_num
  omega

theorem strtoll_zero {sign digits : Bytes} (hsign : sign = [] ∨ sign = [45])
    (hdigits : ∀ c ∈ digits, isDigit c = true) (hzero : digitsValue digits = 0) :
    (strtoll (sign ++ digits)).value = 0 := by
  by_cases hne : digits = []
  · rw [hne, List.append_nil]
    rcases hsign with rfl | rfl <;> rfl
  · rw [strtoll_number hsign hne hdigits, hzero, signed_zero, if_neg (by norm_num),
      if_neg (by norm_num)]

theorem memoryExact_iff (p : Bytes) : MemoryExact p ↔ MemoryRight p := by
  obtain ⟨sign, digits, rest, hbuf, hd, hsign, hsame, hshort, hlong⟩ := buffer_form p
  have hall : ∀ c ∈ digits ++ rest, isDigit c = true := by
    rw [← hd]
    exact digitPart_isDigit p
  have hdigits : ∀ c ∈ digits, isDigit c = true :=
    fun c hc => hall c (List.mem_append_left rest hc)
  have hnum : numberValue p = signed (signPart p = [45]) (digitsValue (digits ++ rest)) := by
    rw [numberValue, hd]
  constructor
  · intro hexact mul hu hlen hne
    obtain ⟨hden, hl, hh⟩ := hexact _ (memtoll_iff.2 ⟨mul, hu, hlen, hne, rfl⟩)
    obtain ⟨hdne, mul', hu', hv⟩ := denotes_iff.1 hden
    obtain rfl : mul = mul' := Option.some.inj (hu.symm.trans hu')
    rw [hv] at hl hh
    refine ⟨hdne, hl, hh, ?_⟩
    by_cases hcut : (signPart p).length+(digitPart p).length < 2^32
    · exact Or.inl hcut
    · have hzero : digitsValue digits = 0 := by
        rw [hnum] at hl hh
        exact lost_digits (unit_pos hu) hall (hlong (by omega) hlen) hl hh
      have hnumber : numberValue p*mul = 0 := by
        rw [← hv, hbuf, strtoll_zero hsign hdigits hzero, zero_mul]
        rfl
      have hpos := unit_pos hu
      rcases mul_eq_zero.1 hnumber with h0 | h0
      · exact Or.inr h0
      · have h0 : mul = 0 := by exact_mod_cast h0
        omega
  · intro hright v hv
    obtain ⟨mul, hu, hlen, hne, hv⟩ := memtoll_iff.1 hv
    obtain ⟨hdne, hl, hh, hcase⟩ := hright mul hu hlen hne
    have hvalue : v = numberValue p*mul := by
      rw [hv, hbuf]
      rcases hcase with hcut | hzero
      · -- the whole number is in the buffer, and it is not out of range
        obtain ⟨hs, hr⟩ := hshort hcut
        obtain ⟨hlo, hhi⟩ := factor_fits (unit_pos hu) hl hh
        have hdne' : digits ≠ [] := by
          intro hnil
          exact hdne (by rw [hd, hnil, hr]; rfl)
        rw [hnum, hr, List.append_nil, ← hs] at hlo hhi hl hh
        rw [strtoll_number hsign hdne' hdigits, if_neg (by omega), if_neg (by omega), hnum, hr,
          List.append_nil, ← hs]
        exact toLong_of_fits hl hh
      · have hzero' : digitsValue digits = 0 := by
          have hwhole := signed_eq_zero (hnum.symm.trans hzero)
          rw [digitsValue_append hdigits
            (fun c hc => hall c (List.mem_append_right digits hc))] at hwhole
          have hfirst := Nat.eq_zero_of_add_eq_zero_right hwhole
          rcases Nat.mul_eq_zero.1 hfirst with h0 | h0
          · exact h0
          · exact absurd h0 (pow_ne_zero _ (by norm_num))
        rw [strtoll_zero hsign hdigits hzero', hzero, zero_mul]
        rfl
    rw [hvalue]
    exact ⟨denotes_iff.2 ⟨hdne, mul, hu, rfl⟩, hl, hh⟩

theorem memtoll_decimalNat {n mul : ℕ} {u : Bytes} (hu : memtollUnit u = some mul)
    (hfit : n*mul < 2^63) : memtoll (decimalNat n ++ u) = some ((n*mul : ℕ) : ℤ) := by
  have hdigits : ∀ c ∈ decimalNat n, isDigit c = true := Aof.decimalNat_isDigit n
  obtain ⟨hs, hd, hunit⟩ := parts_of (Or.inl rfl) (decimalNat_ne_nil n) hdigits (unit_head hu)
  rw [List.nil_append] at hs hd hunit
  have hpos := unit_pos hu
  have hn : n < 2^63 := lt_of_le_of_lt (Nat.le_mul_of_pos_right n hpos) hfit
  have hlen : (decimalNat n).length ≤ 19 := decimalNat_length (k := 18) (lt_trans hn (by norm_num))
  have hnum : numberLen (decimalNat n ++ u) = (decimalNat n).length := by
    rw [numberLen, hs, hd, List.length_nil, Nat.zero_add, Nat.mod_eq_of_lt (by omega)]
  have hvalue : (strtoll (decimalNat n)).value = n := by
    have hnumber := strtoll_number (Or.inl rfl) (decimalNat_ne_nil n) hdigits
    have hsigned : signed (([] : Bytes) = [45]) (digitsValue (decimalNat n)) = n := by
      rw [digitsValue_decimalNat]
      rfl
    rw [hsigned, if_neg (by omega), if_neg (by omega), List.nil_append] at hnumber
    rw [hnumber]
  rw [memtoll_iff]
  refine ⟨mul, by rw [hunit, hu], by omega, ?_, ?_⟩
  · rw [hnum, List.take_left]
    obtain ⟨c, cs, hcs, hc⟩ := @decimalNat_head n
    rw [hcs]
    exact fun heq => hc (List.cons.inj heq).1
  · rw [hnum, List.take_left, hvalue, toLong_of_fits]
    · push_cast
      rfl
    · have hnonneg : (0 : ℤ) ≤ (n : ℤ)*mul := by positivity
      omega
    · exact_mod_cast hfit

theorem memtoll_format {b : ℤ} (hl : 0 ≤ b) (hu : b < 2^63) :
    memtoll (rewriteConfigFormatMemory b) = some b := by
  obtain ⟨n, rfl⟩ := Int.eq_ofNat_of_zero_le hl
  have hscaled (mul : ℕ) (u : Bytes) (hunit : memtollUnit u = some mul)
      (hmod : (n : ℤ).tmod mul = 0) : memtoll (decimal ((n : ℤ).tdiv mul) ++ u) = some (n : ℤ) := by
    have hdiv : n/mul*mul = n := by
      have hcast : ((n % mul : ℕ) : ℤ) = 0 := hmod
      have hzero : n % mul = 0 := by exact_mod_cast hcast
      exact Nat.div_mul_cancel (Nat.dvd_of_mod_eq_zero hzero)
    have hquot : (n : ℤ).tdiv mul = ((n/mul : ℕ) : ℤ) := rfl
    rw [hquot, decimal_natCast, memtoll_decimalNat hunit (by omega), hdiv]
  unfold rewriteConfigFormatMemory
  dsimp only
  split_ifs with hg hm hk
  · exact hscaled 1073741824 _ rfl hg.2
  · exact hscaled 1048576 _ rfl hm.2
  · exact hscaled 1024 _ rfl hk.2
  · have hone := @memtoll_decimalNat n 1 [] rfl (by omega)
    rw [List.append_nil, Nat.mul_one] at hone
    rw [decimal_natCast, hone]

theorem numericConfigSet_stores {data : NumericConfig} {value : Bytes} {update : Bool} {prev v : ℤ}
    (hmem : data.isMemory = true) (h : numericConfigSet data value update prev = .ok v)
    (hfit : ∀ n, memtoll value = some n → n < 2^63) :
    ∃ n, memtoll value = some n ∧ 0 ≤ n ∧ v = n := by
  obtain ⟨ll, hparse, h⟩ := except_bind_eq_ok.1 h
  obtain ⟨-, -, h⟩ := except_bind_eq_ok.1 h
  obtain ⟨-, -, h⟩ := except_bind_eq_ok.1 h
  obtain ⟨-, -, h⟩ := except_bind_eq_ok.1 h
  have hv : data.numericType.store ll = v := by injection h
  unfold numericParse at hparse
  rw [if_pos hmem] at hparse
  cases hm : memtoll value with
  | none =>
    rw [hm] at hparse
    cases hparse
  | some n =>
    rw [hm] at hparse
    dsimp only at hparse
    split_ifs at hparse with hneg
    have hn : n = ll := by injection hparse
    have hlt := hfit n hm
    subst hn
    refine ⟨n, rfl, by omega, ?_⟩
    obtain ⟨hint, huint⟩ := data.wide hmem
    rw [← hv]
    cases htype : data.numericType with
    | int => exact absurd htype hint
    | uint => exact absurd htype huint
    | ulong | ulongLong | sizeT =>
      rw [NumericType.store, toUnsigned_of_range (by omega) (by omega)]
      omega
    | long | longLong | ssizeT | offT | timeT => exact toLong_of_fits (by omega) hlt

/-- `memtoll` is exact on the texts that are refused, and on those whose number has a digit and
whose product fits. -/
theorem memory_values_iff (p : Bytes) :
    (MemoryExact p ↔ MemoryRight p) ∧
    (∀ b : ℤ, 0 ≤ b → b < 2^63 → memtoll (rewriteConfigFormatMemory b) = some b) ∧
    (∀ (data : NumericConfig) (update : Bool) (prev v : ℤ),
      data.isMemory = true → MemoryRight p →
      numericConfigSet data p update prev = .ok v → Denotes p v) := by
  refine ⟨memoryExact_iff p, fun b hl hu => memtoll_format hl hu, ?_⟩
  intro data update prev v hmem hright hset
  have hexact := (memoryExact_iff p).2 hright
  obtain ⟨n, hn, -, rfl⟩ := numericConfigSet_stores hmem hset (fun m hm => (hexact m hm).2.2)
  exact (hexact v hn).1

theorem memory_values_iff_sample :
    memtoll (text "-2Kb") = some (-2048) ∧ MemoryExact (text "-2Kb") := by
  have hright : MemoryRight (text "-2Kb") := by
    intro mul hmul _ _
    have hunit : memtollUnit (unitPart (text "-2Kb")) = some 1024 := by decide
    obtain rfl : mul = 1024 := Option.some.inj (hmul.symm.trans hunit)
    exact ⟨by decide, by decide, by decide, Or.inl (by decide)⟩
  exact ⟨by decide, (memory_values_iff _).1.2 hright⟩

/-- 2^34 gigabytes are 2^64 bytes: the product wraps to 0. -/
theorem memtoll_wraps : ¬MemoryExact (text "17179869184gb") := by
  intro hexact
  have hzero : memtoll (text "17179869184gb") = some 0 := by decide
  obtain ⟨hdne, mul, hmul, hv⟩ := denotes_iff.1 (hexact 0 hzero).1
  have hunit : memtollUnit (unitPart (text "17179869184gb")) = some 1073741824 := by decide
  have hnum : numberValue (text "17179869184gb") = 17179869184 := by decide
  obtain rfl : mul = 1073741824 := Option.some.inj (hmul.symm.trans hunit)
  rw [hnum] at hv
  exact absurd hv (by norm_num)

example : memtoll (text "kb") = some 0 ∧ memtoll (text "9223372036854775808") = some (2^63-1) := by
  decide

end RedisCore.Memory
