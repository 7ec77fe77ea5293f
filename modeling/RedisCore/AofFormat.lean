import RedisCore.CTypes
import RedisCore.RequestEncoding

namespace RedisCore.Aof
open List (append_assoc cons_append foldl_cons length_append length_cons mem_append mem_cons
  mem_cons_self mem_singleton prefix_append tail_cons)

open Request (encodeLine encodeBulk encodeCommand)

def fgets (size : ℕ) (file : Bytes) : Option (Bytes × Bytes) :=
  if file = [] then none
  else
    let n := min (file.findIdx (· = 10)+1) (size-1)
    some (file.take n, file.drop n)

def fread (n : ℕ) (file : Bytes) : Option (Bytes × Bytes) :=
  if file.length < n then none else some (file.take n, file.drop n)

inductive ReadEnd where
  | shortRead
  | readError
  | formatError
deriving DecidableEq, Repr

def readArgs : ℕ → Bytes → Except ReadEnd (List Bytes × Bytes)
  | 0, file => .ok ([], file)
  | n+1, file =>
    match fgets 128 file with
    | none => .error .shortRead
    | some (line, file) =>
      if line.head? ≠ some 36 then .error .formatError
      else
        let len := (strtol line.tail % 2^64).toNat
        match (if len = 0 then some ([], file) else fread len file) with
        | none => .error .shortRead
        | some (arg, file) =>
          match fread 2 file with
          | none => .error .shortRead
          | some (_, file) =>
            match readArgs n file with
            | .error e => .error e
            | .ok (args, file) => .ok (arg :: args, file)

def readCommand (file : Bytes) : Except ReadEnd (Option (List Bytes × Bytes)) :=
  match fgets 128 file with
  | none => .ok none
  | some (line, file) =>
    if line.head? ≠ some 42 then .error .formatError
    else if line.tail = [] ∨ line.tail.head? = some 0 then
      if file = [] ∧ 10 ∉ line ∧ line.length < 127 then .error .shortRead else .error .readError
    else
      let argc := toInt (strtol line.tail)
      if argc < 1 then .error .formatError
      else
        match readArgs argc.toNat file with
        | .error e => .error e
        | .ok r => .ok (some r)

structure ArgvOk (argv : List Bytes) : Prop where
  pos : argv ≠ []
  argc : argv.length < 2^31
  lens : ∀ a ∈ argv, a.length < 2^63

theorem findIdx_newline {w : Bytes} (hw : ∀ b ∈ w, b ≠ 10) (rest : Bytes) :
    (w ++ 10 :: rest).findIdx (· = 10) = w.length := by
  induction w with
  | nil => rfl
  | cons b w ih =>
    have hb : b ≠ 10 := hw b mem_cons_self
    have hrec := ih (fun x hx => hw x (List.mem_cons_of_mem _ hx))
    rw [cons_append, List.findIdx_cons, hrec]
    simp [hb]

theorem fgets_line {w rest : Bytes} (hw : ∀ b ∈ w, b ≠ 10) (hlen : w.length < 127) :
    fgets 128 (w ++ 10 :: rest) = some (w ++ [10], rest) := by
  have hmin : min (w.length+1) (128-1) = (w ++ [10]).length := by
    rw [length_append, List.length_singleton]
    omega
  have hform : w ++ 10 :: rest = (w ++ [10]) ++ rest := by simp
  unfold fgets
  rw [if_neg (by simp), findIdx_newline hw]
  dsimp only
  rw [hmin, hform, List.take_left, List.drop_left]

theorem fgets_cut_line {w : Bytes} (hne : w ≠ []) (hw : ∀ b ∈ w, b ≠ 10) (hlen : w.length < 127) :
    fgets 128 w = some (w, []) := by
  have hidx : w.findIdx (· = 10) = w.length := by
    apply List.findIdx_eq_length.mpr
    intro b hb
    exact decide_eq_false (hw b hb)
  unfold fgets
  rw [if_neg hne, hidx]
  dsimp only
  rw [List.take_of_length_le (by omega), List.drop_of_length_le (by omega)]

theorem foldl_digits (s t : Bytes) (v : ℕ) :
    (s ++ t).foldl (fun v c => v*10+digitValue c) v =
      t.foldl (fun v c => v*10+digitValue c) (s.foldl (fun v c => v*10+digitValue c) v) :=
  List.foldl_append

theorem foldl_decimalNat (n : ℕ) : (decimalNat n).foldl (fun v c => v*10+digitValue c) 0 = n := by
  have hdigit : ∀ d < 10, digitValue (UInt8.ofNat (48+d)) = d := by
    intro d hd
    rw [digitValue, UInt8.toNat_ofNat']
    omega
  induction n using Nat.strong_induction_on with
  | _ n ih =>
    rw [decimalNat]
    by_cases hlt : n < 10
    · rw [if_pos hlt]
      simp only [foldl_cons, List.foldl_nil]
      rw [hdigit n hlt]
      omega
    · rw [if_neg hlt, foldl_digits, ih (n/10) (by omega)]
      simp only [foldl_cons, List.foldl_nil]
      rw [hdigit (n%10) (by omega)]
      omega

theorem decimalNat_isDigit (n : ℕ) : ∀ c ∈ decimalNat n, isDigit c = true := by
  intro c hc
  rw [isDigit_iff]
  exact Request.decimalNat_digits n c hc

theorem takeWhile_digits {s t : Bytes} (hs : ∀ c ∈ s, isDigit c = true)
    (ht : ∀ c, t.head? = some c → isDigit c = false) : (s ++ t).takeWhile isDigit = s := by
  have htail : t.takeWhile isDigit = [] := by
    cases t with
    | nil => rfl
    | cons c t => exact List.takeWhile_cons_of_neg (by simp [ht c rfl])
  rw [List.takeWhile_append_of_pos hs, htail, List.append_nil]

theorem strtol_digits {c : UInt8} (hc : isDigit c = true) (cs : Bytes) :
    strtol (c :: cs) = min (2^63-1) (digitsValue (c :: cs) : ℤ) := by
  obtain ⟨hlo, hhi⟩ := (isDigit_iff c).mp hc
  have hval : ∀ k : UInt8, c = k → 48 ≤ k.toNat := fun k h => h ▸ hlo
  have hspace : isspace c = false := by
    rw [isspace, Bool.or_eq_false_iff, Bool.and_eq_false_iff]
    constructor
    · simpa using fun h => absurd (hval _ h) (by decide)
    · right
      simp only [UInt8.le_iff_toNat_le, decide_eq_false_iff_not, not_le]
      show 13 < c.toNat
      omega
  have hminus : c ≠ 45 := fun h => absurd (hval _ h) (by decide)
  have hplus : c ≠ 43 := fun h => absurd (hval _ h) (by decide)
  unfold strtol
  rw [List.dropWhile_cons_of_neg (by simp [hspace])]
  dsimp only
  rw [if_neg hminus, if_neg hplus]

theorem strtol_decimalNat {n : ℕ} (hn : n < 2^63) {t : Bytes}
    (ht : ∀ c, t.head? = some c → isDigit c = false) : strtol (decimalNat n ++ t) = n := by
  obtain ⟨c, cs, hcs, -⟩ := @decimalNat_head n
  have hc : isDigit c = true := decimalNat_isDigit n c (by rw [hcs]; exact mem_cons_self)
  have hval : digitsValue (decimalNat n ++ t) = n := by
    unfold digitsValue
    rw [takeWhile_digits (decimalNat_isDigit n) ht, foldl_decimalNat]
  rw [hcs] at hval ⊢
  rw [cons_append, strtol_digits hc, ← cons_append, hval]
  omega

theorem strtol_of_string2ll {s : Bytes} {v : ℤ} (h : string2ll s = some v) : strtol s = v := by
  obtain ⟨hs, hlo, hhi⟩ := string2ll_some h
  rw [← hs]
  unfold decimal
  have hnil : ∀ c, ([] : Bytes).head? = some c → isDigit c = false := fun c hc => by cases hc
  by_cases hneg : v < 0
  · have hval : digitsValue (decimalNat v.natAbs) = v.natAbs := by
      unfold digitsValue
      rw [List.takeWhile_eq_self_iff.mpr (decimalNat_isDigit _), foldl_decimalNat]
    have hspace : isspace 45 = false := rfl
    rw [if_pos hneg]
    unfold strtol
    rw [List.dropWhile_cons_of_neg (by simp [hspace])]
    dsimp only
    rw [if_pos rfl, hval]
    omega
  · rw [if_neg hneg]
    have hnat := @strtol_decimalNat v.natAbs (by omega) [] hnil
    rw [List.append_nil] at hnat
    rw [hnat]
    omega

theorem cr_not_digit : ∀ c, ([13] ++ [10] : Bytes).head? = some c → isDigit c = false := by
  intro c hc
  cases hc
  rfl

theorem line_length {n : ℕ} (hn : n < 2^63) : (decimalNat n).length ≤ 19 :=
  decimalNat_length (k := 18) (by norm_num; omega)

theorem fgets_encodeLine {lead : UInt8} (hlead : lead ≠ 10) {n : ℕ} (hn : n < 2^63) (rest : Bytes) :
    fgets 128 (encodeLine lead n ++ rest) = some (lead :: (decimalNat n ++ ([13] ++ [10])), rest) := by
  have hform : encodeLine lead n ++ rest = (lead :: decimalNat n ++ [13]) ++ 10 :: rest := by
    rw [encodeLine, decimal_natCast]
    simp
  have hbytes : ∀ b ∈ lead :: decimalNat n ++ [13], b ≠ 10 := by
    intro b hb
    simp only [mem_append, mem_cons, List.not_mem_nil, or_false] at hb
    rcases hb with (rfl | hb) | rfl
    · exact hlead
    · intro h10
      have hrange := Request.decimalNat_digits n b hb
      rw [h10] at hrange
      exact absurd hrange.1 (by decide)
    · decide
  have hlen := line_length hn
  rw [hform, fgets_line hbytes (by simp; omega)]
  simp

theorem fread_append {a rest : Bytes} : fread a.length (a ++ rest) = some (a, rest) := by
  unfold fread
  rw [if_neg (by simp), List.take_left, List.drop_left]

theorem strtol_line {n : ℕ} (hn : n < 2^63) : strtol (decimalNat n ++ ([13] ++ [10])) = n :=
  strtol_decimalNat hn cr_not_digit

theorem readArgs_bulk {a : Bytes} (ha : a.length < 2^63) (n : ℕ) (rest : Bytes) :
    readArgs (n+1) (encodeBulk a ++ rest) = match readArgs n rest with
      | .error e => .error e
      | .ok (args, file) => .ok (a :: args, file) := by
  have hlen : (strtol (decimalNat a.length ++ ([13] ++ [10])) % 2^64).toNat = a.length := by
    rw [strtol_line ha]
    omega
  have hread : (if a.length = 0 then some (([] : Bytes), a ++ ([13, 10] ++ rest))
      else fread a.length (a ++ ([13, 10] ++ rest))) = some (a, [13, 10] ++ rest) := by
    by_cases hnil : a.length = 0
    · rw [if_pos hnil, List.eq_nil_of_length_eq_zero hnil]
      rfl
    · rw [if_neg hnil, fread_append]
  have hcrlf : fread 2 ([13, 10] ++ rest) = some ([13, 10], rest) := @fread_append [13, 10] rest
  rw [encodeBulk, append_assoc, append_assoc, readArgs,
    fgets_encodeLine (by decide) ha]
  dsimp only
  rw [if_neg (by simp), tail_cons, hlen, hread]
  dsimp only
  rw [hcrlf]

theorem readArgs_bulks (args : List Bytes) (rest : Bytes) (h : ∀ a ∈ args, a.length < 2^63) :
    readArgs args.length (args.flatMap encodeBulk ++ rest) = .ok (args, rest) := by
  induction args with
  | nil => rfl
  | cons a args ih =>
    rw [List.flatMap_cons, append_assoc, length_cons,
      readArgs_bulk (h a mem_cons_self), ih (fun x hx => h x (List.mem_cons_of_mem _ hx))]

theorem readCommand_line {argc : ℕ} (hpos : 0 < argc) (hlt : argc < 2^31) (rest : Bytes) :
    readCommand (encodeLine 42 argc ++ rest) = match readArgs argc rest with
      | .error e => .error e
      | .ok r => .ok (some r) := by
  have hnum : toInt (strtol (decimalNat argc ++ ([13] ++ [10]))) = argc := by
    rw [strtol_line (by omega), toInt_of_fits (by omega) (by omega)]
  have htail : ¬(decimalNat argc ++ ([13] ++ [10]) = [] ∨
      (decimalNat argc ++ ([13] ++ [10])).head? = some 0) := by
    obtain ⟨c, cs, hcs, -⟩ := @decimalNat_head argc
    have hc := Request.decimalNat_digits argc c (by rw [hcs]; exact mem_cons_self)
    rw [hcs]
    rintro (h | h)
    · cases h
    · cases h
      exact absurd hc.1 (by decide)
  unfold readCommand
  rw [fgets_encodeLine (by decide) (by omega)]
  dsimp only
  rw [if_neg (by simp), tail_cons, if_neg htail, hnum, if_neg (by omega), Int.toNat_natCast]

theorem readCommand_encoded {argv : List Bytes} (h : ArgvOk argv) (rest : Bytes) :
    readCommand (encodeCommand argv ++ rest) = .ok (some (argv, rest)) := by
  rw [encodeCommand, append_assoc,
    readCommand_line (List.length_pos_iff.mpr h.pos) h.argc, readArgs_bulks argv rest h.lens]

theorem readArgs_nil {n : ℕ} (hn : 0 < n) : readArgs n [] = .error .shortRead := by
  cases n with
  | zero => omega
  | succ n => rfl

theorem fread_short {n : ℕ} {file : Bytes} (h : file.length < n) : fread n file = none := if_pos h

theorem prefix_append_cases {α : Type} {x y p : List α} (h : p <+: x ++ y) :
    (p <+: x ∧ p.length < x.length) ∨ ∃ q, p = x ++ q ∧ q <+: y := by
  by_cases hlt : p.length < x.length
  · exact Or.inl ⟨List.prefix_of_prefix_length_le h (prefix_append x y) (by omega), hlt⟩
  · have hx : x <+: p := List.prefix_of_prefix_length_le (prefix_append x y) h (by omega)
    obtain ⟨q, rfl⟩ := hx
    exact Or.inr ⟨q, rfl, (List.prefix_append_right_inj x).mp h⟩

theorem line_cut {lead : UInt8} {n : ℕ} {p : Bytes} (hp : p <+: encodeLine lead n)
    (hne : p ≠ []) (hlt : p.length < (encodeLine lead n).length) :
    ∃ w, p = lead :: w ∧ w <+: decimalNat n ++ [13] := by
  have hform : encodeLine lead n = (lead :: (decimalNat n ++ [13])) ++ [10] := by
    rw [encodeLine, decimal_natCast]
    simp
  have hshort : p <+: lead :: (decimalNat n ++ [13]) := by
    apply List.prefix_of_prefix_length_le hp
    · rw [hform]
      exact prefix_append _ _
    · rw [hform, length_append, List.length_singleton] at hlt
      omega
  cases p with
  | nil => exact absurd rfl hne
  | cons c w =>
    obtain ⟨rfl, hw⟩ := List.cons_prefix_cons.mp hshort
    exact ⟨w, rfl, hw⟩

theorem fgets_cut {lead : UInt8} (hlead : lead ≠ 10) {n : ℕ} (hn : n < 2^63) {w : Bytes}
    (hw : w <+: decimalNat n ++ [13]) : fgets 128 (lead :: w) = some (lead :: w, []) ∧
      10 ∉ lead :: w ∧ (lead :: w).length < 127 := by
  have hlen := line_length hn
  have hwlen := hw.length_le
  rw [length_append, List.length_singleton] at hwlen
  have hbytes : ∀ b ∈ lead :: w, b ≠ 10 := by
    intro b hb
    rcases mem_cons.mp hb with rfl | hb
    · exact hlead
    · rcases mem_append.mp (hw.subset hb) with hb | hb
      · intro h10
        have hrange := Request.decimalNat_digits n b hb
        rw [h10] at hrange
        exact absurd hrange.1 (by decide)
      · rw [mem_singleton.mp hb]
        decide
  have hshort : (lead :: w).length < 127 := by
    rw [length_cons]
    omega
  exact ⟨fgets_cut_line (List.cons_ne_nil lead w) hbytes hshort, fun h => hbytes 10 h rfl, hshort⟩

theorem bulk_cut {a : Bytes} (ha : a.length < 2^63) (n : ℕ) {p : Bytes} (hp : p <+: encodeBulk a)
    (hlt : p.length < (encodeBulk a).length) : readArgs (n+1) p = .error .shortRead := by
  by_cases hne : p = []
  · rw [hne]
    exact readArgs_nil (Nat.succ_pos n)
  rw [encodeBulk, append_assoc] at hp hlt
  rcases prefix_append_cases hp with ⟨hline, hlen⟩ | ⟨q, rfl, hq⟩
  · obtain ⟨w, rfl, hw⟩ := line_cut hline hne hlen
    obtain ⟨hread, -, -⟩ := @fgets_cut 36 (by decide) _ ha _ hw
    rw [readArgs, hread]
    dsimp only
    rw [if_neg (by simp), tail_cons]
    by_cases hzero : (strtol w % 2^64).toNat = 0
    · rw [if_pos hzero]
      rfl
    · rw [if_neg hzero, fread_short (by simpa using Nat.pos_of_ne_zero hzero)]
  · have hqlen : q.length < a.length+2 := by
      simp only [length_append, length_cons, List.length_nil] at hlt
      omega
    have hnum : (strtol (decimalNat a.length ++ ([13] ++ [10])) % 2^64).toNat = a.length := by
      rw [strtol_line ha]
      omega
    rw [readArgs, fgets_encodeLine (by decide) ha]
    dsimp only
    rw [if_neg (by simp), tail_cons, hnum]
    rcases prefix_append_cases hq with ⟨-, hshort⟩ | ⟨r, rfl, -⟩
    · rw [if_neg (by omega), fread_short hshort]
    · have hr : r.length < 2 := by
        rw [length_append] at hqlen
        omega
      have hread : (if a.length = 0 then some (([] : Bytes), a ++ r) else fread a.length (a ++ r)) =
          some (a, r) := by
        by_cases hnil : a.length = 0
        · rw [if_pos hnil, List.eq_nil_of_length_eq_zero hnil]
          rfl
        · rw [if_neg hnil, fread_append]
      rw [hread]
      dsimp only
      rw [fread_short hr]

theorem readArgs_cut (args : List Bytes) (h : ∀ a ∈ args, a.length < 2^63) : ∀ p : Bytes,
    p <+: args.flatMap encodeBulk → p.length < (args.flatMap encodeBulk).length →
    readArgs args.length p = .error .shortRead := by
  induction args with
  | nil =>
    intro p _ hlt
    simp at hlt
  | cons a args ih =>
    intro p hp hlt
    have ha := h a mem_cons_self
    rw [List.flatMap_cons] at hp hlt
    rcases prefix_append_cases hp with ⟨hbulk, hlen⟩ | ⟨q, rfl, hq⟩
    · exact bulk_cut ha args.length hbulk hlen
    · simp only [length_append] at hlt
      rw [length_cons, readArgs_bulk ha,
        ih (fun x hx => h x (List.mem_cons_of_mem _ hx)) q hq (by omega)]

theorem foldl_digits_le (s : Bytes) (v : ℕ) : v ≤ s.foldl (fun v c => v*10+digitValue c) v := by
  induction s generalizing v with
  | nil => exact le_refl v
  | cons c s ih =>
    calc
      v ≤ v*10+digitValue c := by omega
      _ ≤ (c :: s).foldl (fun v c => v*10+digitValue c) v := ih _

theorem decimalNat_first {n : ℕ} (hn : 0 < n) : ∃ c cs, decimalNat n = c :: cs ∧ 0 < digitValue c := by
  induction n using Nat.strong_induction_on with
  | _ n ih =>
    rw [decimalNat]
    by_cases hlt : n < 10
    · rw [if_pos hlt]
      refine ⟨_, [], rfl, ?_⟩
      rw [digitValue, UInt8.toNat_ofNat']
      omega
    · obtain ⟨c, cs, hcs, hpos⟩ := ih (n/10) (by omega) (by omega)
      rw [if_neg hlt, hcs]
      exact ⟨c, cs ++ _, rfl, hpos⟩

theorem strtol_cut {n : ℕ} (hpos : 0 < n) (hn : n < 2^63) {w : Bytes} (hw : w <+: decimalNat n ++ [13])
    (hne : w ≠ []) : 1 ≤ strtol w ∧ strtol w ≤ n := by
  obtain ⟨c, cs, hcs, hc⟩ := decimalNat_first hpos
  have hdig := decimalNat_isDigit n
  rcases prefix_append_cases hw with ⟨hcut, -⟩ | ⟨q, rfl, hq⟩
  · obtain ⟨rest, hrest⟩ := hcut
    cases w with
    | nil => exact absurd rfl hne
    | cons c' w =>
      have hcc : c' = c := by
        rw [hcs, cons_append] at hrest
        exact (List.cons.inj hrest).1
      have hall : ∀ x ∈ c' :: w, isDigit x = true := by
        intro x hx
        exact hdig x (hrest ▸ List.mem_append_left _ hx)
      have hval : digitsValue (c' :: w) = (c' :: w).foldl (fun v c => v*10+digitValue c) 0 := by
        unfold digitsValue
        rw [List.takeWhile_eq_self_iff.mpr hall]
      have hle : digitsValue (c' :: w) ≤ n := by
        have htotal := foldl_decimalNat n
        rw [← hrest, foldl_digits] at htotal
        rw [hval, ← htotal]
        exact (foldl_digits_le rest _).trans (le_of_eq rfl)
      have hone : 1 ≤ digitsValue (c' :: w) := by
        rw [hval, foldl_cons, hcc]
        exact le_trans (by omega) (foldl_digits_le w _)
      rw [strtol_digits (hall c' mem_cons_self)]
      omega
  · have hq' : ∀ x, q.head? = some x → isDigit x = false := by
      intro x hx
      have hmem : x ∈ q := List.mem_of_mem_head? hx
      rw [mem_singleton.mp (hq.subset hmem)]
      rfl
    rw [strtol_decimalNat hn hq']
    omega

theorem readCommand_cut {argv : List Bytes} (h : ArgvOk argv) {p : Bytes} (hp : p <+: encodeCommand argv)
    (hne : p ≠ []) (hlt : p.length < (encodeCommand argv).length) :
    readCommand p = .error .shortRead := by
  have hpos := List.length_pos_iff.mpr h.pos
  have hargc := h.argc
  rw [encodeCommand] at hp hlt
  rcases prefix_append_cases hp with ⟨hline, hlen⟩ | ⟨q, rfl, hq⟩
  · obtain ⟨w, rfl, hw⟩ := line_cut hline hne hlen
    obtain ⟨hread, hnewline, hshort⟩ := @fgets_cut 42 (by decide) _ (by omega) _ hw
    unfold readCommand
    rw [hread]
    dsimp only
    rw [if_neg (by simp), tail_cons]
    by_cases hnil : w = []
    · rw [if_pos (Or.inl hnil), if_pos ⟨rfl, hnewline, hshort⟩]
    · obtain ⟨hone, hle⟩ := strtol_cut hpos (by omega) hw hnil
      have hzero : ¬(w = [] ∨ w.head? = some 0) := by
        rintro (h0 | h0)
        · exact hnil h0
        · have hmem : (0 : UInt8) ∈ decimalNat argv.length ++ [13] := hw.subset (List.mem_of_mem_head? h0)
          rcases mem_append.mp hmem with hm | hm
          · exact absurd (Request.decimalNat_digits _ _ hm).1 (by decide)
          · exact absurd (mem_singleton.mp hm) (by decide)
      rw [if_neg hzero, toInt_of_fits (by omega) (by omega), if_neg (by omega),
        readArgs_nil (by omega)]
  · rw [length_append, length_append] at hlt
    rw [readCommand_line hpos hargc, readArgs_cut argv h.lens q hq (by omega)]

end RedisCore.Aof
