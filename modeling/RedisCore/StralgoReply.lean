import RedisCore.StralgoWalk

namespace RedisCore.Stralgo

open Subsequence

variable {a b s : Bytes} {o : Options} {rs : List MatchRange}

def longRanges (o : Options) (rs : List MatchRange) : List MatchRange :=
  rs.filter (fun r => decide (o.minmatchlen ≤ r.length))

def lcsAnswer (o : Options) (s : Bytes) (rs : List MatchRange) : List ReplyItem :=
  if o.getidx then
    [.mapLen 2, bulkText (text "matches"), .arrayLen (longRanges o rs).length] ++
      (longRanges o rs).flatMap (rangeReply o) ++ [bulkText (text "len"), .integer s.length]
  else if o.getlen then [.integer s.length]
  else [bulkText s]

theorem sent_longRanges {p q : ℕ} (h : Ranges a b p q s rs) (ha : a.length < 2^32)
    (hidx : o.getidx = true) : o.sent rs = longRanges o rs := by
  unfold Options.sent
  rw [if_pos hidx]
  apply List.filter_congr
  intro r hr
  unfold Options.wants
  rw [h.matchLen ha hr]
  apply decide_eq_decide.mpr
  omega

def cornerWalk (a b : Bytes) (t : Table) : Walk :=
  { i := a.length
    j := b.length
    idx := prefixLength a b a.length b.length
    result := List.replicate (prefixLength a b a.length b.length) none
    range := ⟨a.length, 0, 0, 0⟩
    emitted := []
    table := t }

theorem walk_spec {t : Table} (hsize : (a.length+1)*(b.length+1) < 2^32)
    (ht : Upto a b a.length b.length ((a.length+1)*(b.length+1)) t) :
    ∃ (w : Walk) (s : Bytes) (rs : List MatchRange), (∀ o : Options,
        walkLoop o a b a.length b.length (a.length+b.length) (cornerWalk a b t) =
          .ok { w with emitted := o.sent rs }) ∧
      IsLongest s a b ∧ Ranges a b 0 0 s rs ∧ w.result = s.map some ∧
      s.length = prefixLength a b a.length b.length ∧
      Upto a b a.length b.length ((a.length+1)*(b.length+1)) w.table := by
  have hstart : Tracks a b (cornerWalk a b t) 0 [] [] [] := by
    refine ⟨rfl, (List.append_nil _).symm, rfl, List.nil_sublist _, List.nil_sublist _, ?_, rfl, rfl,
      le_refl _, le_refl _, Or.inl ⟨rfl, rfl⟩, ht⟩
    exact ⟨by simp, by simp, by simp, by simp, List.Pairwise.nil, rfl⟩
  obtain ⟨w, s, rs, hrun, h, hedge⟩ := hstart.run (a.length+b.length) settled_zero hsize (le_refl _)
  have hidx : w.idx = 0 := by
    rw [h.idx]
    rcases Nat.eq_zero_or_pos w.i with hi | hi
    · rw [hi]
      exact prefixLength_zero_left
    · rw [show w.j = 0 by omega]
      exact prefixLength_zero_right
  have hlen : s.length = prefixLength a b a.length b.length := by
    rw [← h.length, hidx, Nat.zero_add]
  refine ⟨w, s, rs, ?_, ?_, h.ranges.mono (Nat.zero_le _) (Nat.zero_le _), ?_, hlen, h.table⟩
  · intro o
    have hnil : o.sent [] = [] := by
      unfold Options.sent
      split_ifs <;> rfl
    have ho := hrun o
    rw [hnil] at ho
    exact ho
  · exact isLongest_of_length (h.left.trans (List.drop_sublist _ _))
      (h.right.trans (List.drop_sublist _ _)) hlen
  · rw [h.result, hidx]
    rfl

theorem lcsReply_spec (a b : Bytes) (hsize : (a.length+1)*(b.length+1) < 2^32) (junk : ℕ → ℕ) :
    ∃ s rs, IsLongest s a b ∧ Ranges a b 0 0 s rs ∧ ∀ o : Options, ∃ touched,
      lcsReply junk o a b = .ok (lcsAnswer o s rs, touched) ∧
      ∀ p ∈ touched, p.1 ≤ a.length ∧ p.2 ≤ b.length := by
  have hwidth := width_lt hsize
  have hheight := height_lt hsize
  have halen : u32 a.length = a.length := u32_of_lt (by omega)
  have hblen : u32 b.length = b.length := u32_of_lt (by omega)
  have hfresh : Upto a b a.length b.length 0
      { words := requested a.length b.length/4, cell := junk, touched := [] } := by
    refine ⟨?_, fun A B _ hk => absurd hk (Nat.not_lt_zero _), by simp⟩
    dsimp only
    rw [requested_exact hsize]
    omega
  obtain ⟨t, hfill, ht⟩ := fillTable_spec hfresh hsize
  obtain ⟨t1, hread, ht1⟩ := ht.read_full hsize (le_refl _) (le_refl _)
  obtain ⟨w, s, rs, hrun, hlongest, hranges, hresult, hlen, hw⟩ := walk_spec hsize ht1
  have hcount : ∀ o : Options, (o.sent rs).length < 2^32 := by
    intro o
    have hle : (o.sent rs).length ≤ rs.length := by
      unfold Options.sent
      split_ifs
      · exact List.length_filter_le _ _
      · exact Nat.zero_le _
    have hshort := hlongest.left.length_le
    have hranges := hranges.count_le
    omega
  refine ⟨s, rs, hlongest, hranges, ?_⟩
  intro o
  unfold lcsReply lcsAnswer
  dsimp only
  rw [halen, hblen, hfill]
  dsimp only [bind, Except.bind]
  rw [hread]
  dsimp only
  by_cases hidx : o.getidx = true
  · obtain ⟨t2, hread2, ht2⟩ := hw.read_full hsize (le_refl _) (le_refl _)
    have hwalk := hrun o
    unfold cornerWalk at hwalk
    refine ⟨t2.touched, ?_, ht2.touched⟩
    rw [hidx, Bool.true_or, if_pos rfl, if_pos rfl, hwalk]
    dsimp only
    rw [if_pos rfl, hread2]
    dsimp only
    rw [u32_of_lt (hcount o), sent_longRanges hranges (by omega) hidx, hlen, if_pos rfl]
  · have hnoidx : o.getidx = false := Bool.eq_false_iff.mpr hidx
    by_cases hgetlen : o.getlen = true
    · obtain ⟨t2, hread2, ht2⟩ := ht1.read_full hsize (le_refl _) (le_refl _)
      refine ⟨t2.touched, ?_, ht2.touched⟩
      rw [hnoidx, hgetlen, Bool.false_or, Bool.not_true, if_neg Bool.false_ne_true,
        if_neg Bool.false_ne_true]
      dsimp only
      rw [if_neg Bool.false_ne_true, if_pos rfl, hread2, if_neg Bool.false_ne_true, if_pos rfl, hlen]
    · have hnolen : o.getlen = false := Bool.eq_false_iff.mpr hgetlen
      have hwalk := hrun o
      unfold cornerWalk at hwalk
      refine ⟨w.table.touched, ?_, hw.touched⟩
      rw [hnoidx, hnolen, Bool.false_or, Bool.not_false, if_pos rfl, if_pos rfl, hwalk]
      dsimp only
      rw [if_neg Bool.false_ne_true, if_neg Bool.false_ne_true, if_neg Bool.false_ne_true,
        if_neg Bool.false_ne_true, hresult]
      rfl

/-- What the words after `LCS` may ask for. -/
inductive Argument where
  | idx
  | len
  | withmatchlen
  | minmatchlen (n : ℤ)
  | strings (a b : Bytes)
deriving DecidableEq

/-- Words in any case, in any order; the two strings are given or are the values of two keys. -/
inductive Reads (lookup : Bytes → Stored) : List Bytes → List Argument → Prop where
  | nil : Reads lookup [] []
  | idx {w : Bytes} {argv : List Bytes} {args : List Argument} (hw : sameCaseless w (text "IDX") = true)
      (rest : Reads lookup argv args) : Reads lookup (w :: argv) (.idx :: args)
  | len {w : Bytes} {argv : List Bytes} {args : List Argument} (hw : sameCaseless w (text "LEN") = true)
      (rest : Reads lookup argv args) : Reads lookup (w :: argv) (.len :: args)
  | withmatchlen {w : Bytes} {argv : List Bytes} {args : List Argument}
      (hw : sameCaseless w (text "WITHMATCHLEN") = true) (rest : Reads lookup argv args) :
      Reads lookup (w :: argv) (.withmatchlen :: args)
  | minmatchlen {w x : Bytes} {n : ℤ} {argv : List Bytes} {args : List Argument}
      (hw : sameCaseless w (text "MINMATCHLEN") = true) (hx : string2ll x = some n)
      (rest : Reads lookup argv args) : Reads lookup (w :: x :: argv) (.minmatchlen n :: args)
  | strings {w a b : Bytes} {argv : List Bytes} {args : List Argument}
      (hw : sameCaseless w (text "STRINGS") = true) (rest : Reads lookup argv args) :
      Reads lookup (w :: a :: b :: argv) (.strings a b :: args)
  | keys {w x y a b : Bytes} {argv : List Bytes} {args : List Argument}
      (hw : sameCaseless w (text "KEYS") = true) (hx : (lookup x).contents = some a)
      (hy : (lookup y).contents = some b) (rest : Reads lookup argv args) :
      Reads lookup (w :: x :: y :: argv) (.strings a b :: args)

def sources : List Argument → List (Bytes × Bytes) :=
  List.filterMap fun arg => match arg with
    | .strings a b => some (a, b)
    | _ => none

/-- The last minimum, and at least 0. -/
def minimum (args : List Argument) (m : ℤ) : ℤ :=
  args.foldl (fun m arg => match arg with
    | .minmatchlen n => max n 0
    | _ => m) m

/-- The options that the arguments add to the ones before them. -/
def withArguments (o : Options) (args : List Argument) : Options :=
  { getlen := o.getlen || decide (.len ∈ args)
    getidx := o.getidx || decide (.idx ∈ args)
    withmatchlen := o.withmatchlen || decide (.withmatchlen ∈ args)
    minmatchlen := minimum args o.minmatchlen
    strings := o.strings.or (sources args).head? }

variable {lookup : Bytes → Stored} {argv : List Bytes} {args : List Argument}

theorem parseOptions_reads (h : Reads lookup argv args) : ∀ o : Options,
    o.strings.toList.length+(sources args).length ≤ 1 →
    parseOptions lookup argv o = .ok (withArguments o args) := by
  induction h with
  | nil =>
    intro o _
    simp [parseOptions, withArguments, minimum, sources]
  | idx hw _ ih =>
    intro o hone
    rw [parseOptions.eq_def]
    dsimp only
    rw [if_pos hw, ih _ (by exact hone)]
    simp [withArguments, minimum, sources]
  | len hw _ ih =>
    intro o hone
    have hidx : sameCaseless (text "LEN") (text "IDX") = false := by decide
    rw [parseOptions.eq_def]
    dsimp only
    rw [sameCaseless_of hw, hidx, if_neg Bool.false_ne_true, if_pos hw, ih _ (by exact hone)]
    simp [withArguments, minimum, sources]
  | withmatchlen hw _ ih =>
    intro o hone
    have hidx : sameCaseless (text "WITHMATCHLEN") (text "IDX") = false := by decide
    have hlen : sameCaseless (text "WITHMATCHLEN") (text "LEN") = false := by decide
    rw [parseOptions.eq_def]
    dsimp only
    rw [sameCaseless_of hw "IDX", hidx, sameCaseless_of hw "LEN", hlen,
      if_neg Bool.false_ne_true, if_neg Bool.false_ne_true, if_pos hw, ih _ (by exact hone)]
    simp [withArguments, minimum, sources]
  | @minmatchlen w x n argv args hw hx _ ih =>
    intro o hone
    have hflags : ∀ s ∈ ["IDX", "LEN", "WITHMATCHLEN"], sameCaseless w (text s) = false := by
      intro s hs
      rw [sameCaseless_of hw]
      revert s
      decide
    simp only [List.forall_mem_cons, List.not_mem_nil, false_imp_iff, implies_true, and_true] at hflags
    rw [parseOptions.eq_def]
    dsimp only
    rw [hflags.1, hflags.2.1, hflags.2.2]
    simp only [Bool.false_eq_true, if_false, if_pos hw, hx]
    rw [ih _ (by exact hone)]
    simp [withArguments, minimum, sources]
  | @strings w a b argv args hw _ ih =>
    intro o hone
    have hflags : ∀ s ∈ ["IDX", "LEN", "WITHMATCHLEN", "MINMATCHLEN"], sameCaseless w (text s) = false := by
      intro s hs
      rw [sameCaseless_of hw]
      revert s
      decide
    simp only [List.forall_mem_cons, List.not_mem_nil, false_imp_iff, implies_true, and_true] at hflags
    have hcount : (sources (.strings a b :: args)).length = (sources args).length+1 := rfl
    have hnone : o.strings = none := by
      rw [← Option.toList_eq_nil_iff, ← List.length_eq_zero_iff]
      omega
    rw [parseOptions.eq_def]
    dsimp only
    rw [hflags.1, hflags.2.1, hflags.2.2.1]
    simp only [Bool.false_eq_true, if_false, hflags.2.2.2, if_pos hw, hnone, Option.isSome_none]
    rw [ih _ (by simp only [Option.toList_some, List.length_singleton]; omega)]
    simp [withArguments, minimum, sources, hnone]
  | @keys w x y a b argv args hw hx hy _ ih =>
    intro o hone
    have hflags : ∀ s ∈ ["IDX", "LEN", "WITHMATCHLEN", "MINMATCHLEN", "STRINGS"],
        sameCaseless w (text s) = false := by
      intro s hs
      rw [sameCaseless_of hw]
      revert s
      decide
    simp only [List.forall_mem_cons, List.not_mem_nil, false_imp_iff, implies_true, and_true] at hflags
    have hcount : (sources (.strings a b :: args)).length = (sources args).length+1 := rfl
    have hnone : o.strings = none := by
      rw [← Option.toList_eq_nil_iff, ← List.length_eq_zero_iff]
      omega
    rw [parseOptions.eq_def]
    dsimp only
    rw [hflags.1, hflags.2.1, hflags.2.2.1]
    simp only [Bool.false_eq_true, if_false, hflags.2.2.2.1, hflags.2.2.2.2, if_pos hw, hnone,
      Option.isSome_none, hx, hy]
    rw [ih _ (by simp only [Option.toList_some, List.length_singleton]; omega)]
    simp [withArguments, minimum, sources, hnone]

/-- Every reply to words that name the two strings once and do not ask for both `LEN` and `IDX` comes
from one longest common subsequence, cut into ranges. -/
theorem stralgoLCS_longest (a b : Bytes) (hsize : (a.length+1)*(b.length+1) < 2^32)
    (junk : ℕ → ℕ) : ∃ s rs, IsLongest s a b ∧ Ranges a b 0 0 s rs ∧
      ∀ (lookup : Bytes → Stored) (argv : List Bytes) (args : List Argument),
        Reads lookup argv args → sources args = [(a, b)] → ¬(.len ∈ args ∧ .idx ∈ args) →
        stralgoLCS junk lookup argv = .ok (lcsAnswer (withArguments noOptions args) s rs) := by
  obtain ⟨s, rs, hlongest, hranges, hreply⟩ := lcsReply_spec a b hsize junk
  refine ⟨s, rs, hlongest, hranges, ?_⟩
  intro lookup argv args hreads hsources hclear
  obtain ⟨touched, hrun, _⟩ := hreply (withArguments noOptions args)
  have hparse := parseOptions_reads hreads noOptions (by rw [hsources]; rfl)
  have hstrings : (withArguments noOptions args).strings = some (a, b) := by
    unfold withArguments
    rw [hsources]
    rfl
  have hboth : ¬((withArguments noOptions args).getlen && (withArguments noOptions args).getidx) = true := by
    simpa [withArguments, noOptions] using hclear
  unfold stralgoLCS
  rw [hparse]
  dsimp only
  rw [hstrings]
  dsimp only
  rw [if_neg hboth, hrun]
  rfl

/-- Only the match of at least 4 bytes is emitted, with its length; the subsequence is longer. -/
theorem stralgoLCS_longest_sample :
    let args : List Argument :=
      [.idx, .strings (text "ohmytext") (text "mynewtext"), .minmatchlen 4, .withmatchlen]
    ∃ s rs, IsLongest s (text "ohmytext") (text "mynewtext") ∧
      Ranges (text "ohmytext") (text "mynewtext") 0 0 s rs ∧
      lcsAnswer (withArguments noOptions args) s rs =
        [.mapLen 2, bulkText (text "matches"), .arrayLen 1, .arrayLen 3, .arrayLen 2, .integer 4, .integer 7,
          .arrayLen 2, .integer 5, .integer 8, .integer 4, bulkText (text "len"), .integer 6] := by
  intro args
  obtain ⟨s, rs, hlongest, hranges, hreply⟩ :=
    stralgoLCS_longest (text "ohmytext") (text "mynewtext") (by decide) (fun _ => 0)
  have hreads : Reads (fun _ => .missing) [text "idx", text "STRINGS", text "ohmytext", text "mynewtext",
      text "MinMatchLen", text "4", text "withmatchlen"] args :=
    .idx (by decide) (.strings (by decide) (.minmatchlen (by decide) (by decide)
      (.withmatchlen (by decide) .nil)))
  have hrun := hreply _ _ _ hreads rfl (by decide)
  refine ⟨s, rs, hlongest, hranges, ?_⟩
  exact (Except.ok.inj (hrun.symm.trans (by decide +kernel)))

def TableExact (a b : Bytes) : Prop :=
  requested a.length b.length = (a.length+1)*(b.length+1)*4 ∧
  ∀ (junk : ℕ → ℕ) (o : Options), ∃ reply touched, lcsReply junk o a b = .ok (reply, touched) ∧
    ∀ p ∈ touched, slot b.length p.1 p.2 = p.2+p.1*(b.length+1) ∧
      p.2+p.1*(b.length+1) < (a.length+1)*(b.length+1)

/-- Strings of up to 512 MB have a good table exactly if its words are counted in 32 bits. -/
theorem tableExact_iff {a b : Bytes} (ha : a.length ≤ 2^29) (hb : b.length ≤ 2^29) :
    TableExact a b ↔ (a.length+1)*(b.length+1) < 2^32 := by
  constructor
  · intro h
    have hbytes := h.1
    unfold requested u32 at hbytes
    rw [Nat.mod_eq_of_lt (a := a.length+1) (by omega),
      Nat.mod_eq_of_lt (a := b.length+1) (by omega)] at hbytes
    have hwords := Nat.mul_right_cancel (by norm_num) hbytes
    rw [← hwords]
    exact Nat.mod_lt _ (by norm_num)
  · intro hsize
    refine ⟨requested_exact hsize, ?_⟩
    intro junk o
    obtain ⟨s, rs, _, _, hreply⟩ := lcsReply_spec a b hsize junk
    obtain ⟨touched, hrun, hin⟩ := hreply o
    refine ⟨_, touched, hrun, ?_⟩
    intro p hp
    obtain ⟨hA, hB⟩ := hin p hp
    exact ⟨slot_exact hsize hA hB, index_lt hA hB⟩

theorem tableExact_sample : TableExact (text "ohmytext") (text "mynewtext") ↔
    ((text "ohmytext").length+1)*((text "mynewtext").length+1) < 2^32 :=
  tableExact_iff (by decide) (by decide)

def longText : Bytes := List.replicate 65535 97

/-- For two strings of 65535 bytes no memory at all is requested. -/
theorem long_table_empty : requested longText.length longText.length = 0 ∧
    ¬TableExact longText longText := by
  have hlen : longText.length = 65535 := List.length_replicate
  have hnone : requested longText.length longText.length = 0 := by
    rw [hlen]
    decide
  refine ⟨hnone, ?_⟩
  intro h
  have hbytes := h.1
  rw [hnone, hlen] at hbytes
  omega

end RedisCore.Stralgo
