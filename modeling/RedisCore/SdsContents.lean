import RedisCore.SdsOperations
import Mathlib.Data.List.DropRight

namespace RedisCore.DynamicString
open List (append_assoc cons_append length_append length_cons length_eq_zero_iff length_singleton
  replicate)

variable {noise : ℕ → UInt8} {x x' : Sds} {type : SdsType} {len alloc : ℕ} {body slack content : Bytes}

theorem Holds.bodyLength (h : Holds x type alloc slack content) :
    alloc + 1 ≤ (content ++ 0 :: slack).length ∧
      (type ≠ .type5 → (content ++ 0 :: slack).length = alloc + 1) := by
  rw [length_append, length_cons]
  constructor
  · by_cases hfive : type = .type5
    · have := h.laid.five hfive
      omega
    · have := h.room hfive
      omega
  · intro hfive
    have := h.room hfive
    omega

theorem Holds.append (h : Holds x type alloc slack content) {t : Bytes}
    (hroom : content.length + t.length ≤ alloc) :
    ∃ x' b rest, store x content.length t = .ok x' ∧
      Laid x' type content.length alloc ((content ++ t) ++ b :: rest) ∧
      (type ≠ .type5 → ((content ++ t) ++ b :: rest).length = alloc + 1) := by
  obtain ⟨hlen, hexact⟩ := h.bodyLength
  rw [length_append] at hlen hexact
  obtain ⟨a, b, rest, hsplit, ha, hrest⟩ := exists_split (show t.length < (0 :: slack).length by omega)
  have hbody : content ++ 0 :: slack = content ++ (a ++ b :: rest) := by rw [hsplit]
  obtain ⟨x', hstore, hlaid⟩ := h.laid.store hbody rfl ha
  refine ⟨x', b, rest, hstore, ?_, ?_⟩
  · rw [append_assoc]
    exact hlaid
  · intro hfive
    have := hexact hfive
    rw [length_append, length_append, length_cons]
    omega

theorem sdscatlen_holds (noise : ℕ → UInt8) (h : Holds x type alloc slack content) {t : Bytes}
    (hsum : content.length + t.length < 2^62) :
    ∃ x' type' alloc' slack', sdscatlen noise x t = .ok x' ∧
      Holds x' type' alloc' slack' (content ++ t) := by
  obtain ⟨x1, type1, alloc1, slack1, hroom, h1, hle⟩ := sdsMakeRoomFor_holds noise h hsum
  obtain ⟨x2, b, rest, hstore, hlaid, hlen⟩ := h1.append hle
  have hsize : sizeT (content.length + t.length) = content.length + t.length := sizeT_small (by omega)
  obtain ⟨x3, hclose, h3⟩ := hlaid.close rfl (@length_append _ content t).symm
    (lt_of_le_of_lt hle h1.laid.allocFits) hlen
  refine ⟨x3, type1, _, rest, ?_, h3⟩
  unfold sdscatlen
  rw [h.laid.sdslen, ok_bind, hroom, ok_bind, hstore, ok_bind, hsize, hclose]

theorem sdsgrowzero_holds (noise : ℕ → UInt8) (h : Holds x type alloc slack content) {n : ℕ}
    (hsum : n < 2^62) :
    ∃ x' type' alloc' slack', sdsgrowzero noise x n = .ok x' ∧
      Holds x' type' alloc' slack' (content ++ replicate (n - content.length) 0) := by
  unfold sdsgrowzero
  rw [h.laid.sdslen, ok_bind]
  by_cases hle : n ≤ content.length
  · rw [if_pos hle, Nat.sub_eq_zero_of_le hle, List.replicate_zero, List.append_nil]
    exact ⟨x, type, alloc, slack, rfl, h⟩
  · rw [if_neg hle]
    obtain ⟨x1, type1, alloc1, slack1, hroom, h1, hle1⟩ :=
      sdsMakeRoomFor_holds noise h (show content.length + (n - content.length) < 2^62 by omega)
    obtain ⟨hlen, hexact⟩ := h1.bodyLength
    rw [length_append] at hlen hexact
    obtain ⟨a, b, rest, hsplit, ha, hrest⟩ :=
      exists_split (show n - content.length < (0 :: slack1).length by omega)
    have hbody : content ++ 0 :: slack1 = content ++ ((a ++ [b]) ++ rest) := by
      rw [hsplit, append_assoc, List.singleton_append]
    obtain ⟨x2, hstore, hlaid⟩ := h1.laid.store (t := replicate (n - content.length + 1) 0) hbody
      rfl (by rw [length_append, ha, List.length_replicate, length_singleton])
    have hzeros : content ++ (replicate (n - content.length + 1) 0 ++ rest) =
        (content ++ replicate (n - content.length) 0) ++ 0 :: rest := by
      rw [List.replicate_succ', append_assoc, append_assoc, List.singleton_append]
    have hn : (content ++ replicate (n - content.length) (0 : UInt8)).length = n := by
      rw [length_append, List.length_replicate]
      omega
    have hfits : n < type1.limit := lt_of_le_of_lt (by omega) h1.laid.allocFits
    obtain ⟨x3, hset, hlaid⟩ := hlaid.sdssetlen hfits
    rw [hzeros] at hlaid
    refine ⟨x3, type1, if type1 = .type5 then n else alloc1, rest, ?_, ?_, ?_⟩
    · rw [hroom, ok_bind, hstore, ok_bind, hset]
    · rw [hn]
      exact hlaid
    · intro hfive
      have := hexact hfive
      rw [if_neg hfive, hn]
      omega

theorem sdscpylen_holds (noise : ℕ → UInt8) (h : Holds x type alloc slack content) {t : Bytes}
    (hsum : content.length + t.length < 2^62) :
    ∃ x' type' alloc' slack', sdscpylen noise x t = .ok x' ∧ Holds x' type' alloc' slack' t := by
  have hle := h.le
  have hroom : ∃ x1 type1 alloc1 slack1,
      (if alloc < t.length then do
          let len ← sdslen x
          sdsMakeRoomFor noise x (sizeT (t.length + 2^64 - len))
        else .ok x) = .ok x1 ∧ Holds x1 type1 alloc1 slack1 content ∧ t.length ≤ alloc1 := by
    by_cases hshort : alloc < t.length
    · have hsize : sizeT (t.length + 2^64 - content.length) = t.length - content.length := by
        unfold sizeT
        omega
      obtain ⟨x1, type1, alloc1, slack1, hmake, h1, hle1⟩ :=
        sdsMakeRoomFor_holds noise h
          (show content.length + (t.length - content.length) < 2^62 by omega)
      refine ⟨x1, type1, alloc1, slack1, ?_, h1, by omega⟩
      rw [if_pos hshort, h.laid.sdslen, ok_bind, hsize, hmake]
    · exact ⟨x, type, alloc, slack, if_neg hshort, h, by omega⟩
  obtain ⟨x1, type1, alloc1, slack1, hmake, h1, hle1⟩ := hroom
  obtain ⟨hlen, hexact⟩ := h1.bodyLength
  obtain ⟨a, b, rest, hsplit, ha, hrest⟩ :=
    exists_split (show t.length < (content ++ 0 :: slack1).length by omega)
  have hbody : content ++ 0 :: slack1 = [] ++ (a ++ b :: rest) := hsplit
  obtain ⟨x2, hstore, hlaid⟩ := h1.laid.store (i := 0) hbody rfl ha
  obtain ⟨x3, hclose, h3⟩ := hlaid.close' (show [] ++ (t ++ b :: rest) = t ++ b :: rest from rfl) rfl
    (lt_of_le_of_lt hle1 h1.laid.allocFits) (by
      intro hfive
      have := hexact hfive
      rw [List.nil_append, length_append, length_cons]
      omega)
  refine ⟨x3, type1, _, rest, ?_, h3⟩
  unfold sdscpylen
  rw [h.laid.sdsalloc, ok_bind, hmake, ok_bind, hstore, ok_bind, hclose]

theorem sdsclear_holds (h : Holds x type alloc slack content) :
    ∃ x' alloc' slack', sdsclear x = .ok x' ∧ Holds x' type alloc' slack' [] := by
  have hpos : 0 < type.limit := by cases type <;> decide
  have hlen : 0 < (content ++ 0 :: slack).length := by
    rw [length_append, length_cons]
    omega
  obtain ⟨a, b, rest, hsplit, ha, -⟩ := exists_split hlen
  have hnil : a = [] := length_eq_zero_iff.mp ha
  have hbody : content ++ 0 :: slack = [] ++ b :: rest := by rw [hsplit, hnil]
  obtain ⟨x', hclose, h'⟩ := h.laid.close hbody rfl hpos h.bodyLength.2
  exact ⟨x', _, rest, hclose, h'⟩

theorem Holds.moved (h : Holds x type alloc slack content) {a m z : Bytes}
    (hsplit : content = a ++ (m ++ z)) {c : Prop} [Decidable c]
    (hc : ¬ c → a.length = 0 ∨ m.length = 0) :
    ∃ x' b rest, (if c then do
        let bs ← load x a.length m.length
        store x 0 bs
      else .ok x) = .ok x' ∧ Laid x' type content.length alloc (m ++ b :: rest) ∧
      (type ≠ .type5 → (m ++ b :: rest).length = alloc + 1) := by
  obtain ⟨-, hexact⟩ := h.bodyLength
  by_cases hmove : c
  · have hload := h.laid.load (a := a) (b := m) (c := z ++ 0 :: slack)
      (by rw [hsplit]; simp only [append_assoc]) rfl rfl
    have hlt : m.length < (content ++ 0 :: slack).length := by
      rw [hsplit, length_append, length_append, length_append, length_cons]
      omega
    obtain ⟨a', b, rest, hbody, ha', hrest⟩ := exists_split hlt
    obtain ⟨x', hstore, hlaid⟩ := h.laid.store (a := []) (b := a') (c := b :: rest) (t := m) (i := 0)
      hbody rfl ha'
    refine ⟨x', b, rest, ?_, hlaid, ?_⟩
    · rw [if_pos hmove, hload, ok_bind, hstore]
    · intro hfive
      rw [← hexact hfive, length_append, length_cons, ← hrest]
      omega
  · have hrest : ∃ b rest, content ++ 0 :: slack = m ++ b :: rest := by
      rcases hc hmove with h0 | h0
      · have hnil : a = [] := length_eq_zero_iff.mp h0
        rw [hsplit, hnil, List.nil_append, append_assoc]
        cases z with
        | nil => exact ⟨0, slack, rfl⟩
        | cons b z => exact ⟨b, z ++ 0 :: slack, rfl⟩
      · have hnil : m = [] := length_eq_zero_iff.mp h0
        rw [hnil]
        cases content with
        | nil => exact ⟨0, slack, rfl⟩
        | cons b content => exact ⟨b, content ++ 0 :: slack, rfl⟩
    obtain ⟨b, rest, hbody⟩ := hrest
    refine ⟨x, b, rest, if_neg hmove, ?_, ?_⟩
    · rw [← hbody]
      exact h.laid
    · intro hfive
      rw [← hbody]
      exact hexact hfive

theorem Holds.cut (h : Holds x type alloc slack content) {a m z : Bytes}
    (hsplit : content = a ++ (m ++ z)) {c : Prop} [Decidable c]
    (hc : ¬ c → a.length = 0 ∨ m.length = 0) :
    ∃ x' alloc' slack', (do
        let x ← (if c then do
            let bs ← load x a.length m.length
            store x 0 bs
          else .ok x)
        let x ← store x m.length [0]
        sdssetlen x m.length) = .ok x' ∧ Holds x' type alloc' slack' m := by
  obtain ⟨x1, b, rest, hmove, hlaid, hlen⟩ := h.moved hsplit hc
  have hfits : m.length < type.limit := by
    have hlimit := h.laid.lenFits
    rw [hsplit, length_append, length_append] at hlimit
    omega
  obtain ⟨x2, hclose, h2⟩ := hlaid.close' rfl rfl hfits hlen
  refine ⟨x2, _, rest, ?_, h2⟩
  rw [hmove, ok_bind, hclose]

/-- The part of a string that an inclusive range of indexes gives; the negative ones count from the
end, and all of them are clamped. -/
def fromEnd (len : ℕ) (i : ℤ) : ℕ := (if i < 0 then len + i else i).toNat

def slice (start stop : ℤ) (content : Bytes) : Bytes :=
  (content.drop (fromEnd content.length start)).take
    (fromEnd content.length stop + 1 - fromEnd content.length start)

theorem rangeIndex_eq {n : ℕ} (hn : n < 2^62) {i : ℤ} (hlo : -2^63 ≤ i) :
    rangeIndex n i = fromEnd n i := by
  unfold rangeIndex fromEnd
  by_cases hneg : i < 0
  · have hfits : toLong (n + i) = n + i := toLong_of_fits (by omega) (by omega)
    rw [if_pos hneg, if_pos hneg, hfits]
    split_ifs with h0
    · rw [Int.toNat_of_nonpos h0.le]
      rfl
    · rw [Int.toNat_of_nonneg (not_lt.mp h0)]
  · rw [if_neg hneg, if_neg hneg, Int.toNat_of_nonneg (not_lt.mp hneg)]

theorem rangeLen_eq {a b : ℕ} (ha : a < 2^63) (hb : b < 2^63) : rangeLen a b = b + 1 - a := by
  unfold rangeLen
  split_ifs with hgt
  · omega
  · have hmod : ((b : ℤ) - a + 1) % 2^64 = (b : ℤ) - a + 1 := Int.emod_eq_of_lt (by omega) (by omega)
    rw [hmod]
    omega

theorem sdsrange_part {n a b : ℕ} (hn : n < 2^62) (ha : a < 2^63) (hb : b < 2^63) :
    ∃ k : ℕ, (if rangeLen a b ≠ 0 then
          if (a : ℤ) ≥ toLong n then ((a : ℤ), 0)
          else if (b : ℤ) ≥ toLong n then ((a : ℤ), rangeLen a (toLong (n - 1)))
          else ((a : ℤ), rangeLen a b)
        else (0, rangeLen a b)) = ((k : ℤ), min (b + 1 - a) (n - a)) ∧
      (min (b + 1 - a) (n - a) ≠ 0 → k = a) := by
  have hlong : toLong (n : ℤ) = n := toLong_of_fits (by omega) (by omega)
  rw [rangeLen_eq ha hb, hlong]
  by_cases hempty : b + 1 - a ≠ 0
  · rw [if_pos hempty]
    by_cases hpast : (a : ℤ) ≥ n
    · have hzero : min (b + 1 - a) (n - a) = 0 := by omega
      rw [if_pos hpast, hzero]
      exact ⟨a, rfl, fun _ => rfl⟩
    · rw [if_neg hpast]
      by_cases hlast : (b : ℤ) ≥ n
      · have hpred : toLong ((n : ℤ) - 1) = ((n - 1 : ℕ) : ℤ) := by
          rw [toLong_of_fits (by omega) (by omega)]
          omega
        have hmin : min (b + 1 - a) (n - a) = n - 1 + 1 - a := by omega
        rw [if_pos hlast, hpred, rangeLen_eq ha (by omega), hmin]
        exact ⟨a, rfl, fun _ => rfl⟩
      · have hmin : min (b + 1 - a) (n - a) = b + 1 - a := by omega
        rw [if_neg hlast, hmin]
        exact ⟨a, rfl, fun _ => rfl⟩
  · have hzero : min (b + 1 - a) (n - a) = b + 1 - a := by omega
    rw [if_neg hempty, hzero]
    exact ⟨0, rfl, fun h => absurd (not_not.mp hempty) h⟩

theorem sdsrange_holds (h : Holds x type alloc slack content) (hsmall : content.length < 2^62)
    {start stop : ℤ} (hstart : -2^63 ≤ start ∧ start < 2^63) (hstop : -2^63 ≤ stop ∧ stop < 2^63) :
    ∃ x' alloc' slack', sdsrange x start stop = .ok x' ∧
      Holds x' type alloc' slack' (slice start stop content) := by
  unfold sdsrange
  rw [h.laid.sdslen, ok_bind]
  by_cases hempty : content.length = 0
  · have hnil : content = [] := length_eq_zero_iff.mp hempty
    rw [if_pos hempty]
    refine ⟨x, alloc, slack, rfl, ?_⟩
    rw [hnil] at h ⊢
    unfold slice
    rw [List.drop_nil, List.take_nil]
    exact h
  · rw [if_neg hempty, rangeIndex_eq hsmall hstart.1, rangeIndex_eq hsmall hstop.1]
    dsimp only
    have hle : ∀ i : ℤ, i < 2^63 → fromEnd content.length i < 2^63 := by
      intro i hi
      unfold fromEnd
      split_ifs <;> omega
    have ha := hle start hstart.2
    have hb := hle stop hstop.2
    unfold slice
    generalize fromEnd content.length start = a at ha ⊢
    generalize fromEnd content.length stop = b at hb ⊢
    obtain ⟨k, hpart, hk⟩ := sdsrange_part hsmall ha hb
    have hkept : ((content.drop a).take (b + 1 - a)).length = min (b + 1 - a) (content.length - a) := by
      rw [List.length_take, List.length_drop]
    rw [hpart]
    dsimp only
    rw [← hkept] at hk ⊢
    by_cases hzero : ((content.drop a).take (b + 1 - a)).length = 0
    · have hnil := length_eq_zero_iff.mp hzero
      obtain ⟨x', alloc', slack', hcut, h'⟩ := h.cut (a := []) (m := []) (z := content) rfl (c := False)
        (fun _ => Or.inl rfl)
      rw [if_neg not_false] at hcut
      rw [hnil]
      refine ⟨x', alloc', slack', ?_, h'⟩
      rw [if_neg (fun hc => hc.2 rfl)]
      exact hcut
    · have hka := hk hzero
      have hstart : (content.take a).length = k := by
        rw [List.length_take, hka]
        omega
      have hsplit : content = content.take a ++ ((content.drop a).take (b + 1 - a) ++
          (content.drop a).drop (b + 1 - a)) := by
        rw [List.take_append_drop, List.take_append_drop]
      obtain ⟨x', alloc', slack', hcut, h'⟩ := h.cut hsplit
        (c := (k : ℤ) ≠ 0 ∧ ((content.drop a).take (b + 1 - a)).length ≠ 0) (by
          intro hc
          rw [hstart]
          by_contra hboth
          rw [not_or] at hboth
          exact hc ⟨by exact_mod_cast hboth.1, hboth.2⟩)
      rw [hstart] at hcut
      exact ⟨x', alloc', slack', hcut, h'⟩

theorem trimLeft_spec (h : Laid x type len alloc body) (cset : Bytes) {b : Bytes} :
    ∀ {a rest : Bytes}, body = a ++ (b ++ rest) →
      trimLeft x cset b.length a.length = .ok (a.length + (b.takeWhile (strchr cset)).length) := by
  induction b with
  | nil =>
    intro a rest _
    rfl
  | cons c b ih =>
    intro a rest hbody
    have hload := h.load (b := [c]) (c := b ++ rest) (i := a.length) (n := 1) hbody rfl rfl
    rw [length_cons, trimLeft, hload, ok_bind, List.headD_cons]
    cases hc : strchr cset c with
    | false => simp [hc]
    | true =>
      have hnext : body = (a ++ [c]) ++ (b ++ rest) := by
        rw [hbody, append_assoc]
        rfl
      have hrun := ih hnext
      rw [length_append, length_singleton] at hrun
      rw [if_pos rfl, hrun, List.takeWhile_cons_of_pos hc, length_cons]
      congr 1
      omega

theorem trimRight_spec (h : Laid x type len alloc body) (cset : Bytes) {a b rest : Bytes} {c : UInt8}
    (hbody : body = a ++ ((c :: b) ++ rest)) :
    trimRight x cset b.length ((a.length : ℤ) + b.length) =
      .ok (a.length + (b.rdropWhile (strchr cset)).length) := by
  induction b using List.reverseRecOn generalizing rest with
  | nil => rfl
  | append_singleton b d ih =>
    have hload := h.load (a := a ++ c :: b) (b := [d]) (c := rest) (i := a.length + (b.length + 1)) (n := 1)
      (by rw [hbody]; simp) (by simp) rfl
    have hplace : ((a.length : ℤ) + (b ++ [d]).length).toNat = a.length + (b.length + 1) := by
      rw [length_append, length_singleton]
      omega
    rw [length_append, length_singleton] at hplace ⊢
    rw [trimRight, hplace, hload, ok_bind, List.headD_cons]
    cases hd : strchr cset d with
    | false =>
      rw [if_neg Bool.false_ne_true, List.rdropWhile_concat_neg _ _ _ (by rw [hd]; simp),
        length_append, length_singleton]
    | true =>
      have hnext : body = a ++ ((c :: b) ++ (d :: rest)) := by rw [hbody]; simp
      rw [if_pos rfl, List.rdropWhile_concat_pos _ _ _ hd, ← ih hnext]
      congr 1
      push_cast
      ring

def trimmed (cset content : Bytes) : Bytes :=
  (content.dropWhile (strchr cset)).rdropWhile (strchr cset)

theorem rdropWhile_cons {p : UInt8 → Bool} {c : UInt8} (hc : p c = false) (b : Bytes) :
    (c :: b).rdropWhile p = c :: b.rdropWhile p := by
  induction b using List.reverseRecOn with
  | nil => exact List.rdropWhile_concat_neg p [] c (by simp [hc])
  | append_singleton b d ih =>
    cases hd : p d with
    | true =>
      rw [← cons_append, List.rdropWhile_concat_pos _ _ _ hd, List.rdropWhile_concat_pos _ _ _ hd, ih]
    | false =>
      rw [← cons_append, List.rdropWhile_concat_neg _ _ _ (by simp [hd]),
        List.rdropWhile_concat_neg _ _ _ (by simp [hd]), cons_append]

theorem sdstrim_holds (h : Holds x type alloc slack content) (cset : Bytes) :
    ∃ x' alloc' slack', sdstrim x cset = .ok x' ∧ Holds x' type alloc' slack' (trimmed cset content) := by
  have hleft := trimLeft_spec h.laid cset
    (show content ++ 0 :: slack = [] ++ (content ++ 0 :: slack) from rfl)
  rw [List.length_nil, Nat.zero_add] at hleft
  have htake := List.takeWhile_append_dropWhile (p := strchr cset) (l := content)
  unfold sdstrim trimmed
  rw [h.laid.sdslen, ok_bind, hleft, ok_bind]
  generalize content.takeWhile (strchr cset) = a at htake ⊢
  cases hdrop : content.dropWhile (strchr cset) with
  | nil =>
    rw [hdrop, List.append_nil] at htake
    have hnone : ((content.length : ℤ) - 1 - a.length).toNat = 0 := by
      rw [htake]
      omega
    have hpast : (a.length : ℤ) > content.length - 1 := by
      rw [htake]
      omega
    obtain ⟨x', alloc', slack', hcut, h'⟩ := h.cut (a := a) (m := []) (z := [])
      (by rw [htake]; simp) (c := a.length ≠ 0) (fun hc => Or.inl (not_not.mp hc))
    refine ⟨x', alloc', slack', ?_, h'⟩
    rw [hnone, trimRight, ok_bind]
    dsimp only
    rw [if_pos hpast]
    exact hcut
  | cons c b =>
    have hc : strchr cset c = false := by
      have hhead := List.head?_dropWhile_not (strchr cset) content
      rw [hdrop] at hhead
      exact hhead
    rw [hdrop] at htake
    have hlen : (content.length : ℤ) = a.length + b.length + 1 := by
      rw [← htake, length_append, length_cons]
      push_cast
      ring
    have hbody : content ++ 0 :: slack = a ++ ((c :: b) ++ 0 :: slack) := by
      rw [← htake, append_assoc]
    have hright := trimRight_spec h.laid cset hbody
    have hnum : ((content.length : ℤ) - 1 - a.length).toNat = b.length := by omega
    have hend : (content.length : ℤ) - 1 = a.length + b.length := by omega
    rw [hnum, hend, hright, ok_bind, rdropWhile_cons hc]
    dsimp only
    obtain ⟨z, hz⟩ := List.rdropWhile_prefix (strchr cset) b
    generalize b.rdropWhile (strchr cset) = m at hz ⊢
    have hwithin : ¬ (a.length : ℤ) > a.length + m.length := by omega
    have hnew : ((a.length : ℤ) + m.length - a.length + 1).toNat = (c :: m).length := by
      rw [length_cons]
      omega
    obtain ⟨x', alloc', slack', hcut, h'⟩ := h.cut (a := a) (m := c :: m) (z := z)
      (by rw [← htake, ← hz, cons_append]) (c := a.length ≠ 0) (fun hc => Or.inl (not_not.mp hc))
    refine ⟨x', alloc', slack', ?_, h'⟩
    rw [if_neg hwithin, hnew]
    exact hcut

end RedisCore.DynamicString
