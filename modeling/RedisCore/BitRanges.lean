import RedisCore.BitSearch

namespace RedisCore.Bit
open Finset (card_empty filter_false_of_mem mem_filter mem_range)

variable {s : Bytes} {bit : Bool} {addr : ℕ} {start ends : ℤ}

/-- A negative index counts from the end of the string, and not beyond its start. -/
def clampIndex (len : ℕ) (i : ℤ) : ℤ := if i < 0 then max 0 (len+i) else i

def designated (len : ℕ) (start ends : ℤ) : Finset ℕ :=
  (Finset.range len).filter (fun i => clampIndex len start ≤ i ∧ i ≤ clampIndex len ends ∧
    ¬ (start < 0 ∧ ends < 0 ∧ start > ends))

theorem convertRange_eq (len : ℕ) (start ends : ℤ) : convertRange len start ends =
    (clampIndex len start, min (clampIndex len ends) (len-1)) := by
  unfold convertRange clampIndex
  dsimp only
  congr 1
  · split_ifs <;> omega
  · split_ifs <;> omega

theorem clampIndex_nonneg (len : ℕ) (i : ℤ) : 0 ≤ clampIndex len i := by
  unfold clampIndex
  split_ifs <;> omega

def oneBits (s : Bytes) (bytes : Finset ℕ) : Finset ℕ :=
  (Finset.range (8*s.length)).filter (fun m => m/8 ∈ bytes ∧ bitsOf s m = true)

/-- `v` is the position of the first bit in some bytes that equals `bit`, and -1 if there is none. -/
def FirstIn (s : Bytes) (bytes : Set ℕ) (bit : Bool) (v : ℤ) : Prop :=
  (v = -1 ∧ ∀ m, m/8 ∈ bytes → bitsOf s m ≠ bit) ∨
    ∃ n : ℕ, v = n ∧ n/8 ∈ bytes ∧ bitsOf s n = bit ∧ ∀ m < n, m/8 ∈ bytes → bitsOf s m ≠ bit

theorem FirstIn.congr {A B : Set ℕ} {v : ℤ} (hAB : ∀ i, i ∈ A ↔ i ∈ B) (h : FirstIn s A bit v) :
    FirstIn s B bit v := by
  rw [← Set.ext hAB]
  exact h

theorem countRange_eq {lo hi : ℤ} (hlo : 0 ≤ lo) (hhi : hi ≤ s.length-1) (addr : ℕ) :
    countRange s addr lo hi = .ok (.integer (oneBits s
      ((Finset.range s.length).filter (fun i => lo ≤ i ∧ (i : ℤ) ≤ hi))).card) := by
  unfold countRange
  split_ifs with hempty
  · have hnone : oneBits s ((Finset.range s.length).filter (fun i => lo ≤ i ∧ (i : ℤ) ≤ hi)) = ∅ := by
      apply filter_false_of_mem
      rintro m _ ⟨hm, _⟩
      have h := (mem_filter.mp hm).2
      omega
    rw [hnone, card_empty]
    rfl
  · dsimp only
    rw [redisPopcount_eq addr (by omega), ok_bind, sum_byteCount]
    have hsame : (Finset.Ico (8*lo.toNat) (8*(lo.toNat+(hi-lo+1).toNat))).filter
        (fun m => bitsOf s m = true) = oneBits s
          ((Finset.range s.length).filter (fun i => lo ≤ i ∧ (i : ℤ) ≤ hi)) := by
      ext m
      simp only [oneBits, mem_filter, Finset.mem_Ico, mem_range]
      constructor
      · rintro ⟨hm, hbit⟩
        exact ⟨by omega, ⟨by omega, by omega, by omega⟩, hbit⟩
      · rintro ⟨_, ⟨_, _, _⟩, hbit⟩
        exact ⟨by omega, hbit⟩
    rw [hsame]
    rfl

theorem padded_inside {c count m : ℕ} (hm : m < 8*count) :
    padded s c count m = bitsOf s (8*c+m) := by
  rw [padded, decide_eq_true hm, Bool.true_and]

theorem padded_outside {c count m : ℕ} (hm : 8*count ≤ m) : padded s c count m = false := by
  rw [padded, decide_eq_false (by omega), Bool.false_and]

theorem bitsOf_outside {m : ℕ} (hm : 8*s.length ≤ m) : bitsOf s m = false := by
  rw [bitsOf, List.getD_eq_default _ _ (by omega)]
  exact Nat.zero_testBit _

theorem posRange_end {lo hi : ℤ} (hlo : 0 ≤ lo) (hhi : hi ≤ s.length-1) (addr : ℕ) (bit : Bool) :
    ∃ v, posRange s addr bit true lo hi = .ok (.integer v) ∧
      FirstIn s {i : ℕ | lo ≤ i ∧ (i : ℤ) ≤ hi} bit v := by
  unfold posRange
  by_cases hempty : lo > hi
  · rw [if_pos hempty]
    refine ⟨-1, rfl, Or.inl ⟨rfl, ?_⟩⟩
    rintro m ⟨_, _⟩
    omega
  · obtain ⟨c, rfl⟩ : ∃ c : ℕ, lo = c := ⟨lo.toNat, by omega⟩
    obtain ⟨count, hcount⟩ : ∃ count : ℕ, hi-c+1 = count := ⟨(hi-c+1).toNat, by omega⟩
    obtain ⟨v, hrun, hfirst⟩ := @redisBitpos_spec s addr bit c count
      (by omega)
    rw [if_neg hempty]
    dsimp only
    rw [hcount, Int.toNat_natCast, Int.toNat_natCast, hrun, ok_bind]
    -- the bits of the range are those of the window
    have hbits : ∀ m, m/8 ∈ {i : ℕ | (c : ℤ) ≤ i ∧ (i : ℤ) ≤ hi} ↔ 8*c ≤ m ∧ m-8*c < 8*count := by
      intro m
      rw [Set.mem_ofPred_eq]
      omega
    have hnone : (∀ m < 8*count, padded s c count m ≠ bit) →
        ∀ m, m/8 ∈ {i : ℕ | (c : ℤ) ≤ i ∧ (i : ℤ) ≤ hi} → bitsOf s m ≠ bit := by
      intro hall m hm
      obtain ⟨hge, hlt⟩ := (hbits m).mp hm
      have h := hall (m-8*c) hlt
      rwa [padded_inside hlt, show 8*c+(m-8*c) = m by omega] at h
    rcases hfirst with ⟨hv, hall⟩ | ⟨n, hv, hn, hbefore⟩
    · rw [hv, if_neg (by omega), if_neg (by omega)]
      exact ⟨-1, rfl, Or.inl ⟨rfl, hnone (fun m _ => hall m)⟩⟩
    · by_cases hin : n < 8*count
      · rw [hv, if_neg (by omega), if_pos (by omega)]
        refine ⟨n+c*8, rfl, Or.inr ⟨8*c+n, by push_cast; ring, (hbits _).mpr (by omega), ?_, ?_⟩⟩
        · rw [← padded_inside hin]
          exact hn
        · intro m hm hmem
          obtain ⟨hge, hlt⟩ := (hbits m).mp hmem
          have h := hbefore (m-8*c) (by omega)
          rwa [padded_inside hlt, show 8*c+(m-8*c) = m by omega] at h
      · -- the first zero of the padding, which is just behind the range
        have hfalse : bit = false := by rw [← hn, padded_outside (by omega)]
        have hend : n = 8*count := by
          by_contra hne
          exact hbefore (8*count) (by omega) (by rw [padded_outside le_rfl, hfalse])
        rw [hv, if_pos ⟨rfl, hfalse, by omega⟩]
        exact ⟨-1, rfl, Or.inl ⟨rfl, hnone (fun m hm => hbefore m (by omega))⟩⟩

theorem posRange_open {lo : ℤ} (hlo : 0 ≤ lo) (addr : ℕ) (bit : Bool) :
    ∃ v, posRange s addr bit false lo (s.length-1) = .ok (.integer v) ∧
      if lo < s.length then FirstIn s {i : ℕ | lo ≤ i} bit v else v = -1 := by
  unfold posRange
  by_cases hempty : lo > s.length-1
  · rw [if_pos hempty]
    refine ⟨-1, rfl, ?_⟩
    rw [if_neg (by omega)]
  · obtain ⟨c, rfl⟩ : ∃ c : ℕ, lo = c := ⟨lo.toNat, by omega⟩
    obtain ⟨count, hcount⟩ : ∃ count : ℕ, (s.length-1 : ℤ)-c+1 = count :=
      ⟨s.length-c, by omega⟩
    obtain ⟨v, hrun, hfirst⟩ := @redisBitpos_spec s addr bit c count
      (by omega)
    have hpadded : ∀ m, padded s c count m = bitsOf s (8*c+m) := by
      intro m
      by_cases hm : m < 8*count
      · exact padded_inside hm
      · rw [padded_outside (by omega), bitsOf_outside (by omega)]
    rw [if_neg hempty]
    dsimp only
    rw [hcount, Int.toNat_natCast, Int.toNat_natCast, hrun, ok_bind, if_neg (by simp)]
    refine ⟨_, rfl, ?_⟩
    rw [if_pos (show (c : ℤ) < s.length by omega)]
    have hmem : ∀ m, m/8 ∈ {i : ℕ | (c : ℤ) ≤ i} ↔ 8*c ≤ m := by
      intro m
      rw [Set.mem_ofPred_eq]
      omega
    rcases hfirst with ⟨hv, hall⟩ | ⟨n, hv, hn, hbefore⟩
    · rw [hv, if_neg (by omega)]
      refine Or.inl ⟨rfl, ?_⟩
      intro m hm
      have h := hall (m-8*c)
      have hge := (hmem m).mp hm
      rwa [hpadded, show 8*c+(m-8*c) = m by omega] at h
    · rw [hv, if_pos (by omega)]
      refine Or.inr ⟨8*c+n, by push_cast; ring, (hmem _).mpr (by omega), by rw [← hpadded]; exact hn, ?_⟩
      intro m hm hin
      have hge := (hmem m).mp hin
      have h := hbefore (m-8*c) (by omega)
      rwa [hpadded, show 8*c+(m-8*c) = m by omega] at h

/-- Both indexes count from the end, the first one is behind the second, and neither is inside of
the string. -/
def BothClamped (len : ℕ) (start ends : ℤ) : Prop :=
  start < 0 ∧ ends < start ∧ 0 < len ∧ len+start ≤ 0

theorem designated_converted (len : ℕ) (hclamp : ¬ BothClamped len start ends) (i : ℕ) :
    i ∈ designated len start ends ↔ clampIndex len start ≤ i ∧
      (i : ℤ) ≤ min (clampIndex len ends) (len-1) := by
  unfold BothClamped at hclamp
  unfold designated
  rw [mem_filter, mem_range]
  unfold clampIndex
  split_ifs <;> omega

theorem convertRange_le (len : ℕ) (start ends : ℤ) :
    0 ≤ (convertRange len start ends).1 ∧ (convertRange len start ends).2 ≤ len-1 := by
  rw [convertRange_eq]
  exact ⟨clampIndex_nonneg _ _, min_le_right _ _⟩

variable {db : Keys} {name key startText endText : Bytes}

theorem getLongLongFromObject_eq {o : Bytes} {v : ℤ} (hv : string2ll o = some v) :
    getLongLongFromObject o = .ok v := by rw [getLongLongFromObject, hv]

theorem bitcountCommand_range (hkey : db key = some (.string s))
    (hstart : string2ll startText = some start) (hend : string2ll endText = some ends) (addr : ℕ) :
    bitcountCommand db addr [name, key, startText, endText] =
      .ok (.integer (oneBits s (designated s.length start ends)).card) := by
  have hrange := convertRange_le s.length start ends
  unfold bitcountCommand
  rw [show arg [name, key, startText, endText] 1 = key from rfl, hkey]
  dsimp only
  rw [if_pos (show [name, key, startText, endText].length = 4 from rfl),
    show arg [name, key, startText, endText] 2 = startText from rfl,
    show arg [name, key, startText, endText] 3 = endText from rfl,
    getLongLongFromObject_eq hstart, getLongLongFromObject_eq hend]
  dsimp only
  split_ifs with horder
  · have hnone : designated s.length start ends = ∅ := by
      apply filter_false_of_mem
      rintro i _ ⟨_, _, hne⟩
      exact hne horder
    rw [hnone, oneBits, filter_false_of_mem, card_empty]
    · rfl
    · rintro m _ ⟨hm, _⟩
      exact absurd hm (Finset.notMem_empty _)
  · have hsame : (Finset.range s.length).filter (fun i : ℕ =>
        (convertRange s.length start ends).1 ≤ i ∧
          (i : ℤ) ≤ (convertRange s.length start ends).2) = designated s.length start ends := by
      rw [convertRange_eq]
      ext i
      unfold designated
      rw [mem_filter, mem_filter, mem_range]
      omega
    rw [countRange_eq hrange.1 hrange.2 addr, hsame]

theorem bitcountCommand_whole (hkey : db key = some (.string s)) (addr : ℕ) :
    bitcountCommand db addr [name, key] =
      .ok (.integer (oneBits s (Finset.range s.length)).card) := by
  unfold bitcountCommand
  rw [show arg [name, key] 1 = key from rfl, hkey]
  dsimp only
  have hall : (Finset.range s.length).filter (fun i : ℕ => 0 ≤ (i : ℤ) ∧ (i : ℤ) ≤ s.length-1) =
      Finset.range s.length := by
    apply Finset.filter_true_of_mem
    intro i hi
    have h := mem_range.mp hi
    omega
  have hlen : [name, key].length = 2 := rfl
  rw [if_neg (by rw [hlen]; norm_num), if_pos hlen, countRange_eq le_rfl le_rfl addr, hall]

theorem bitposCommand_bit {argv : List Bytes} (hbit : string2ll (arg argv 2) =
    some (if bit then 1 else 0)) (hkey : db (arg argv 1) = some (.string s)) (addr : ℕ) :
    bitposCommand db addr argv =
      if argv.length = 4 ∨ argv.length = 5 then
        match getLongLongFromObject (arg argv 3) with
        | .error e => .ok (.error e)
        | .ok start =>
          if argv.length = 5 then
            match getLongLongFromObject (arg argv 4) with
            | .error e => .ok (.error e)
            | .ok ends => posRange s addr bit true (convertRange s.length start ends).1
              (convertRange s.length start ends).2
          else posRange s addr bit false (convertRange s.length start (s.length-1)).1
            (convertRange s.length start (s.length-1)).2
      else if argv.length = 3 then posRange s addr bit false 0 (s.length-1)
      else .ok (.error "ERR syntax error") := by
  unfold bitposCommand
  rw [getLongLongFromObject_eq hbit]
  dsimp only
  rw [hkey, if_neg (by cases bit <;> simp)]
  dsimp only
  rw [show decide ((if bit = true then (1 : ℤ) else 0) = 1) = bit by cases bit <;> rfl]
  rfl

theorem convertRange_open (len : ℕ) (start : ℤ) :
    (convertRange len start (len-1)).2 = (len : ℤ)-1 := by
  rw [convertRange_eq]
  dsimp only
  unfold clampIndex
  split_ifs <;> omega

theorem bitposCommand_total (db : Keys) (addr : ℕ) (argv : List Bytes) :
    ∃ r, bitposCommand db addr argv = .ok r := by
  have hclosed : ∀ (s : Bytes) (bit : Bool) (start ends : ℤ),
      ∃ r, posRange s addr bit true (convertRange s.length start ends).1
        (convertRange s.length start ends).2 = .ok r := by
    intro s bit start ends
    have hrange := convertRange_le s.length start ends
    obtain ⟨v, hv, _⟩ := posRange_end hrange.1 hrange.2 addr bit
    exact ⟨_, hv⟩
  have hopen : ∀ (s : Bytes) (bit : Bool) (lo : ℤ), 0 ≤ lo →
      ∃ r, posRange s addr bit false lo (s.length-1) = .ok r := by
    intro s bit lo hlo
    obtain ⟨v, hv, _⟩ := posRange_open hlo addr bit
    exact ⟨_, hv⟩
  cases hparse : getLongLongFromObject (arg argv 2) with
  | error e =>
    rw [bitposCommand, hparse]
    exact ⟨_, rfl⟩
  | ok n =>
    by_cases hn : n ≠ 0 ∧ n ≠ 1
    · rw [bitposCommand, hparse]
      dsimp only
      rw [if_pos hn]
      exact ⟨_, rfl⟩
    · cases hkey : db (arg argv 1) with
      | none =>
        rw [bitposCommand, hparse]
        dsimp only
        rw [if_neg hn, hkey]
        exact ⟨_, rfl⟩
      | some o =>
        cases o with
        | other =>
          rw [bitposCommand, hparse]
          dsimp only
          rw [if_neg hn, hkey]
          exact ⟨_, rfl⟩
        | string s =>
          have hbit : string2ll (arg argv 2) =
              some (if decide (n = 1) = true then 1 else 0) := by
            unfold getLongLongFromObject at hparse
            split at hparse
            · cases hparse
            · rename_i v hv
              rw [hv, Except.ok.inj hparse]
              by_cases h1 : n = 1
              · rw [h1]
                rfl
              · have h0 : n = 0 := by omega
                rw [h0]
                rfl
          rw [bitposCommand_bit hbit hkey]
          split_ifs with hrange hend hwhole
          · cases getLongLongFromObject (arg argv 3) with
            | error e => exact ⟨_, rfl⟩
            | ok start =>
              cases getLongLongFromObject (arg argv 4) with
              | error e => exact ⟨_, rfl⟩
              | ok ends => exact hclosed s _ start ends
          · cases getLongLongFromObject (arg argv 3) with
            | error e => exact ⟨_, rfl⟩
            | ok start =>
              dsimp only
              rw [convertRange_open]
              exact hopen s _ _ (convertRange_le s.length start _).1
          · exact hopen s _ 0 le_rfl
          · exact ⟨_, rfl⟩

theorem firstIn_none {bytes : Finset ℕ} {v : ℤ} (hin : ∀ i ∈ bytes, i < s.length)
    (hfirst : FirstIn s bytes true v) : v = -1 ↔ (oneBits s bytes).card = 0 := by
  rw [Finset.card_eq_zero, oneBits, Finset.filter_eq_empty_iff]
  rcases hfirst with ⟨hv, hall⟩ | ⟨n, hv, hmem, hbit, -⟩
  · refine ⟨fun _ m _ h => hall m h.1 h.2, fun _ => hv⟩
  · constructor
    · intro h
      omega
    · intro hnone
      have hlt := hin _ hmem
      exact absurd ⟨hmem, hbit⟩ (hnone (mem_range.mpr (show n < 8*s.length by omega)))

theorem bitcount_bitpos (db : Keys) (addr : ℕ) (name key : Bytes) (s : Bytes)
    (hkey : db key = some (.string s)) (startText endText : Bytes) (start ends : ℤ)
    (hstart : string2ll startText = some start) (hend : string2ll endText = some ends) :
    bitcountCommand db addr [name, key] =
        .ok (.integer (oneBits s (Finset.range s.length)).card) ∧
      bitcountCommand db addr [name, key, startText, endText] =
        .ok (.integer (oneBits s (designated s.length start ends)).card) ∧
      (∀ (bit : Bool) (bitText : Bytes), string2ll bitText = some (if bit then 1 else 0) →
        (∃ v, bitposCommand db addr [name, key, bitText] = .ok (.integer v) ∧
          if s ≠ [] then FirstIn s Set.univ bit v else v = -1) ∧
        (∃ v, bitposCommand db addr [name, key, bitText, startText] = .ok (.integer v) ∧
          if clampIndex s.length start < s.length then
            FirstIn s {i : ℕ | clampIndex s.length start ≤ i} bit v else v = -1) ∧
        (¬ BothClamped s.length start ends →
          ∃ v, bitposCommand db addr [name, key, bitText, startText, endText] =
            .ok (.integer v) ∧ FirstIn s (designated s.length start ends) bit v)) ∧
      (∀ bitText : Bytes, string2ll bitText = some 1 → ¬ BothClamped s.length start ends →
        (bitposCommand db addr [name, key, bitText, startText, endText] = .ok (.integer (-1)) ↔
          bitcountCommand db addr [name, key, startText, endText] = .ok (.integer 0))) ∧
      ∀ argv : List Bytes, ∃ r, bitposCommand db addr argv = .ok r := by
  have hclosed : ∀ (bit : Bool) (bitText : Bytes),
      string2ll bitText = some (if bit then 1 else 0) → ¬ BothClamped s.length start ends →
      ∃ v, bitposCommand db addr [name, key, bitText, startText, endText] =
        .ok (.integer v) ∧ FirstIn s (designated s.length start ends) bit v := by
    intro bit bitText hbit hclamp
    have hrange := convertRange_le s.length start ends
    obtain ⟨v, hv, hfirst⟩ := posRange_end hrange.1 hrange.2 addr bit
    refine ⟨v, ?_, hfirst.congr ?_⟩
    · have hlen : [name, key, bitText, startText, endText].length = 5 := rfl
      rw [@bitposCommand_bit s bit db [name, key, bitText, startText, endText] hbit hkey addr,
        if_pos (Or.inr hlen), show arg [name, key, bitText, startText, endText] 3 = startText from rfl,
        show arg [name, key, bitText, startText, endText] 4 = endText from rfl,
        getLongLongFromObject_eq hstart, getLongLongFromObject_eq hend]
      dsimp only
      rw [if_pos hlen]
      exact hv
    · intro i
      rw [Set.mem_ofPred_eq, Finset.mem_coe, designated_converted _ hclamp, convertRange_eq]
  refine ⟨bitcountCommand_whole hkey addr, bitcountCommand_range hkey hstart hend addr, ?_, ?_,
    bitposCommand_total db addr⟩
  · intro bit bitText hbit
    refine ⟨?_, ?_, hclosed bit bitText hbit⟩
    · obtain ⟨v, hv, hfirst⟩ := posRange_open (s := s) (le_refl 0) addr bit
      refine ⟨v, ?_, ?_⟩
      · have hlen : [name, key, bitText].length = 3 := rfl
        rw [@bitposCommand_bit s bit db [name, key, bitText] hbit hkey addr,
          if_neg (by rw [hlen]; norm_num), if_pos hlen]
        exact hv
      · by_cases hs : s = []
        · rw [if_neg (not_not.mpr hs)]
          rwa [hs, List.length_nil, if_neg (by norm_num)] at hfirst
        · have hpos := List.length_pos_iff.mpr hs
          rw [if_pos hs]
          rw [if_pos (by omega)] at hfirst
          apply hfirst.congr
          intro i
          rw [Set.mem_ofPred_eq]
          exact ⟨fun _ => Set.mem_univ i, fun _ => Int.natCast_nonneg i⟩
    · obtain ⟨v, hv, hfirst⟩ := posRange_open (s := s) (clampIndex_nonneg s.length start) addr bit
      refine ⟨v, ?_, hfirst⟩
      have hlen : [name, key, bitText, startText].length = 4 := rfl
      rw [@bitposCommand_bit s bit db [name, key, bitText, startText] hbit hkey addr,
        if_pos (Or.inl hlen), show arg [name, key, bitText, startText] 3 = startText from rfl,
        getLongLongFromObject_eq hstart]
      dsimp only
      rw [if_neg (by rw [hlen]; norm_num), convertRange_open, convertRange_eq]
      exact hv
  · intro bitText hbit hclamp
    obtain ⟨v, hv, hfirst⟩ := hclosed true bitText hbit hclamp
    rw [hv, bitcountCommand_range hkey hstart hend addr]
    simp only [Except.ok.injEq, BitReply.integer.injEq, Nat.cast_eq_zero]
    exact firstIn_none (fun i hi => mem_range.mp (mem_filter.mp hi).1) hfirst

theorem bitcount_bitpos_two_bytes :
    bitcountCommand (fun _ => some (.string [255, 15])) 3 [[], [], text "-1", text "7"] =
        .ok (.integer (oneBits [255, 15] (designated 2 (-1) 7)).card) ∧
      (bitposCommand (fun _ => some (.string [255, 15])) 3 [[], [], text "1", text "-1", text "7"] =
          .ok (.integer (-1)) ↔
        bitcountCommand (fun _ => some (.string [255, 15])) 3 [[], [], text "-1", text "7"] =
          .ok (.integer 0)) := by
  have h := bitcount_bitpos (fun _ => some (.string [255, 15])) 3 [] [] [255, 15] rfl (text "-1")
    (text "7") (-1) 7 (by decide) (by decide)
  exact ⟨h.2.1, h.2.2.2.1 (text "1") (by decide) (by unfold BothClamped; norm_num)⟩

/-- An empty string is not followed by zeros, and for the last bytes before the start of a string
in the wrong order `BITPOS` finds a bit where `BITCOUNT` counts none. -/
theorem bitpos_empty_and_clamped :
    (bitposCommand (fun _ => some (.string [])) 0 [[], [], text "0"] = .ok (.integer (-1)) ∧
      bitsOf [] 0 = false) ∧
    bitcountCommand (fun _ => some (.string [255])) 0 [[], [], text "-1", text "-5"] =
      .ok (.integer 0) ∧
    bitposCommand (fun _ => some (.string [255])) 0 [[], [], text "1", text "-1", text "-5"] =
      .ok (.integer 0) := by
  decide

end RedisCore.Bit
