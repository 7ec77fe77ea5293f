import RedisCore.CTypes
import RedisCore.ZiplistCursor

namespace RedisCore.Ziplist

variable {zl : Bytes} {es : List Entry}

def endPos (es : List Entry) : ℕ := entryPos es es.length

variable {j fuel n skip : ℕ} {s : Bytes}

theorem entryPos_succ (hj : j < es.length) : entryPos es (j+1) = entryPos es j+es[j].rawlen := by
  have htake : es.take (j+1) = es.take j ++ [es[j]] := (List.take_append_getElem hj).symm
  unfold entryPos
  rw [htake]
  simp only [entriesLen_append, entriesLen_cons, entriesLen_nil]
  omega

theorem entryPos_zero (es : List Entry) : entryPos es 0 = ziplistEntryHead := rfl

theorem rawlen_pos (e : Entry) : 0 < e.rawlen := by
  have hsize := prevSize_pos e.wide
  unfold Entry.rawlen
  omega

theorem rawAfter_take_succ (hj : j < es.length) : rawAfter 0 (es.take (j+1)) = es[j].rawlen := by
  have htake : es.take (j+1) = es.take j ++ [es[j]] := (List.take_append_getElem hj).symm
  rw [htake, rawAfter_append_cons]
  rfl

theorem entryPos_ne_head (hj : j < es.length) : entryPos es (j+1) ≠ ziplistEntryHead := by
  have hpos := rawlen_pos es[j]
  have hhead : ziplistEntryHead ≤ entryPos es j := Nat.le_add_right _ _
  rw [entryPos_succ hj]
  omega

theorem loadByte_at_end (h : Parses zl es) : loadByte zl (endPos es) = .ok zipEnd := by
  obtain ⟨cnt, -, rfl⟩ := h.layout
  have hend := loadByte_end es cnt
  unfold endPos entryPos
  rw [List.take_length]
  exact hend

theorem loadByte_at_entry (h : Parses zl es) (hj : j < es.length) :
    ∃ b, loadByte zl (entryPos es j) = .ok b ∧ b ≠ zipEnd := by
  obtain ⟨cnt, -, rfl⟩ := h.layout
  exact loadByte_boundary cnt h.entries h.size j hj

theorem ziplistIndex_parses (h : Parses zl es) (index : ℤ) :
    ziplistIndex zl index = .ok ((indexPos es.length index).map (entryPos es)) := by
  obtain ⟨cnt, -, rfl⟩ := h.layout
  exact ziplistIndex_blob cnt h.entries h.size index

theorem ziplistPrev_head (h : Parses zl es) (hne : 0 < es.length) :
    ziplistPrev zl (entryPos es 0) = .ok none := by
  obtain ⟨b, hb, hbne⟩ := loadByte_at_entry h hne
  rw [ziplistPrev, hb, ok_bind, if_neg hbne, if_pos (entryPos_zero es)]
  rfl

theorem ziplistPrev_succ (h : Parses zl es) (hj : j+1 < es.length) :
    ziplistPrev zl (entryPos es (j+1)) = .ok (some (entryPos es j)) := by
  obtain ⟨b, hb, hbne⟩ := loadByte_at_entry h hj
  have hj' : j < es.length := by omega
  have hprev : zipDecodePrevlen zl (entryPos es (j+1)) =
      .ok (prevSize es[j+1].wide, es[j].rawlen) := by
    obtain ⟨cnt, -, rfl⟩ := h.layout
    obtain ⟨a, c, hok, hlt, -, hm, ha, -⟩ := entry_at cnt h.entries h.size hj
    rw [rawAfter_take_succ hj'] at hok hlt hm
    exact zipDecodePrevlen_entry hok.narrow hlt hm ha
  have hback : entryPos es (j+1)-es[j].rawlen = entryPos es j := by
    rw [entryPos_succ hj']
    omega
  rw [ziplistPrev, hb, ok_bind, if_neg hbne, if_neg (entryPos_ne_head hj'), hprev,
    ok_bind]
  dsimp only
  rw [if_pos (rawlen_pos es[j]), hback]
  rfl

theorem ziplistPrev_end (h : Parses zl es) :
    ziplistPrev zl (endPos es) = .ok (cursorAt es (es.length-1)) := by
  have htail : ziplistTailOffset zl = .ok (entryPos es (es.length-1)) := by
    obtain ⟨cnt, -, rfl⟩ := h.layout
    have ht : ziplistTailOffset (blob es cnt) = .ok (tailOffset es) :=
      ziplistTailOffset_header (tailOffset_lt h.size)
    rw [ht, tailOffset_eq_take]
    rfl
  rw [ziplistPrev, loadByte_at_end h, ok_bind, if_pos rfl, htail, ok_bind]
  by_cases hne : 0 < es.length
  · obtain ⟨b, hb, hbne⟩ := loadByte_at_entry h (j := es.length-1) (by omega)
    rw [hb, ok_bind, if_neg hbne, cursorAt_of_lt (by omega)]
    rfl
  · -- the tail pointer of an empty list designates the end marker
    have hlen : es.length-1 = es.length := by omega
    have hend : loadByte zl (entryPos es (es.length-1)) = .ok zipEnd := by
      rw [hlen]
      exact loadByte_at_end h
    rw [hend, ok_bind, if_pos rfl, cursorAt_of_le (by omega)]
    rfl

/-- The pointers a loop over `ziplistNext` visits from `p` on. -/
def forwardWalk (zl : Bytes) : ℕ → Option ℕ → Except Fault (List ℕ)
  | _, none => .ok []
  | 0, some _ => .error .outOfFuel
  | fuel+1, some p => do
    let rest ← forwardWalk zl fuel (← ziplistNext zl p)
    return p :: rest

def backwardWalk (zl : Bytes) : ℕ → ℕ → Except Fault (List ℕ)
  | 0, _ => .error .outOfFuel
  | fuel+1, p => do
    match ← ziplistPrev zl p with
    | none => return []
    | some q =>
      let rest ← backwardWalk zl fuel q
      return q :: rest

/-- The pointers to the entries, from the first to the last. -/
def entryPositions (es : List Entry) : List ℕ := (List.range es.length).map (entryPos es)

theorem forwardWalk_from (h : Parses zl es) (k : ℕ) : ∀ (j fuel : ℕ), j+k = es.length → k ≤ fuel →
    forwardWalk zl fuel (cursorAt es j) = .ok ((List.range' j k).map (entryPos es)) := by
  induction k with
  | zero =>
    intro j fuel hj hfuel
    have hnone : cursorAt es j = none := cursorAt_of_le (by omega)
    rw [hnone, forwardWalk]
    rfl
  | succ k ih =>
    intro j fuel hj hfuel
    obtain ⟨fuel, rfl⟩ : ∃ f, fuel = f+1 := ⟨fuel-1, by omega⟩
    have hlt : j < es.length := by omega
    have hrest := ih (j+1) fuel (by omega) (by omega)
    rw [cursorAt_of_lt hlt, forwardWalk, ziplistNext_at h hlt, ok_bind, hrest,
      ok_bind, List.range'_succ]
    rfl

theorem backwardWalk_from (h : Parses zl es) (j : ℕ) : ∀ fuel, j < es.length → j < fuel →
    backwardWalk zl fuel (entryPos es j) =
      .ok ((List.range j).reverse.map (entryPos es)) := by
  induction j with
  | zero =>
    intro fuel hj hfuel
    obtain ⟨fuel, rfl⟩ : ∃ f, fuel = f+1 := ⟨fuel-1, by omega⟩
    rw [backwardWalk, ziplistPrev_head h hj]
    rfl
  | succ j ih =>
    intro fuel hj hfuel
    obtain ⟨fuel, rfl⟩ : ∃ f, fuel = f+1 := ⟨fuel-1, by omega⟩
    have hrest := ih fuel (by omega) (by omega)
    rw [backwardWalk, ziplistPrev_succ h hj, ok_bind]
    dsimp only
    rw [hrest, ok_bind, List.range_succ, List.reverse_concat, List.map_cons]
    rfl

theorem forwardWalk_all (h : Parses zl es) (hfuel : es.length ≤ fuel) :
    forwardWalk zl fuel (cursorAt es 0) = .ok (entryPositions es) := by
  rw [forwardWalk_from h es.length 0 fuel (by omega) hfuel, entryPositions, List.range_eq_range']

theorem backwardWalk_all (h : Parses zl es) (hfuel : es.length < fuel) :
    backwardWalk zl fuel (endPos es) = .ok (entryPositions es).reverse := by
  obtain ⟨fuel, rfl⟩ : ∃ f, fuel = f+1 := ⟨fuel-1, by omega⟩
  rw [backwardWalk, ziplistPrev_end h, ok_bind, entryPositions]
  by_cases hne : 0 < es.length
  · obtain ⟨n, hn⟩ : ∃ n, es.length = n+1 := ⟨es.length-1, by omega⟩
    have hrest := backwardWalk_from h n fuel (by omega) (by omega)
    rw [cursorAt_of_lt (by omega), hn, Nat.add_sub_cancel]
    dsimp only
    rw [hrest, ok_bind, ← List.map_reverse, List.range_succ, List.reverse_concat,
      List.map_cons]
    rfl
  · have hzero : es.length = 0 := by omega
    rw [cursorAt_of_le (by omega), hzero]
    rfl

/-- `ziplistIndex` counts from either end, the two walks are inverse to each other and visit
every entry once, and the assertion in `ziplistPrev` never fails. -/
theorem ziplist_navigation {zl : Bytes} {es : List Entry} (h : Parses zl es) :
    (∀ index : ℤ, ziplistIndex zl index = .ok (
      if 0 ≤ index ∧ index < es.length then some (entryPos es index.toNat)
      else if -es.length ≤ index ∧ index < 0 then some (entryPos es (es.length+index).toNat)
      else none)) ∧
    (∀ j, j+1 < es.length → ziplistNext zl (entryPos es j) = .ok (some (entryPos es (j+1))) ∧
      ziplistPrev zl (entryPos es (j+1)) = .ok (some (entryPos es j))) ∧
    (0 < es.length → ziplistNext zl (entryPos es (es.length-1)) = .ok none ∧
      ziplistPrev zl (endPos es) = .ok (some (entryPos es (es.length-1))) ∧
      ziplistPrev zl (entryPos es 0) = .ok none) ∧
    (∀ fuel, es.length < fuel →
      forwardWalk zl fuel (cursorAt es 0) = .ok (entryPositions es) ∧
      backwardWalk zl fuel (endPos es) = .ok (entryPositions es).reverse) := by
  refine ⟨?_, ?_, ?_, ?_⟩
  · intro index
    rw [ziplistIndex_parses h, indexPos]
    by_cases hfront : 0 ≤ index ∧ index < es.length
    · rw [if_pos hfront, if_pos hfront]
      rfl
    · rw [if_neg hfront, if_neg hfront]
      by_cases hback : -es.length ≤ index ∧ index < 0
      · rw [if_pos hback, if_pos hback.symm]
        rfl
      · rw [if_neg hback, if_neg (fun hc => hback hc.symm)]
        rfl
  · intro j hj
    have hnext := ziplistNext_at h (j := j) (by omega)
    rw [cursorAt_of_lt hj] at hnext
    exact ⟨hnext, ziplistPrev_succ h hj⟩
  · intro hne
    have hnext := ziplistNext_at h (j := es.length-1) (by omega)
    have hprev := ziplistPrev_end h
    rw [cursorAt_of_le (by omega)] at hnext
    rw [cursorAt_of_lt (by omega)] at hprev
    exact ⟨hnext, hprev, ziplistPrev_head h hne⟩
  · intro fuel hfuel
    exact ⟨forwardWalk_all h (by omega), backwardWalk_all h hfuel⟩

def twoEntries : List Entry := [⟨false, [2, 104, 105]⟩, ⟨false, [0xf3]⟩]

theorem twoEntries_parses : Parses (blob twoEntries uint16Max) twoEntries := by
  have hstr : BodyOk [2, 104, 105] := ⟨zipStr06B, 1, 2, rfl, rfl⟩
  have hint : BodyOk [0xf3] := ⟨0xf3, 1, 0, rfl, rfl⟩
  exact ⟨⟨⟨by decide, hstr⟩, ⟨by decide, hint⟩, trivial⟩, by decide, _, Or.inr rfl, rfl⟩

theorem ziplist_navigation_two :
    ziplistIndex (blob twoEntries uint16Max) 1 = .ok (some 14) ∧
    ziplistIndex (blob twoEntries uint16Max) (-1) = .ok (some 14) ∧
    backwardWalk (blob twoEntries uint16Max) 3 16 = .ok [14, 10] := by
  obtain ⟨hindex, -, -, hwalk⟩ := ziplist_navigation twoEntries_parses
  exact ⟨hindex 1, hindex (-1), (hwalk 3 (by decide)).2⟩

def ucharMax : UInt8 := 255

def findCompare (zl vstr : Bytes) (q len : ℕ) (encoding vencoding : UInt8) (vll : ℤ) :
    Except Fault (Bool × UInt8 × ℤ) := do
  if zipIsStr encoding then
    if len = vstr.length then return ((← loadBytes zl q len) == vstr, vencoding, vll)
    else return (false, vencoding, vll)
  else
    let (vencoding, vll) :=
      if vencoding = 0 then
        match zipTryEncoding vstr with
        | some (value, encoding) => (encoding, value)
        | none => (ucharMax, vll)
      else (vencoding, vll)
    if vencoding = 0 then .error .aborted
    else if vencoding ≠ ucharMax then
      return ((← zipLoadInteger zl q encoding) == vll, vencoding, vll)
    else return (false, vencoding, vll)

def findLoop (zl vstr : Bytes) (skip : UInt32) :
    ℕ → ℕ → ℤ → UInt8 → ℤ → Except Fault (Option ℕ)
  | 0, _, _, _, _ => .error .outOfFuel
  | fuel+1, p, skipcnt, vencoding, vll => do
    if (← loadByte zl p) = zipEnd then return none
    else
      let prevlensize ← zipDecodePrevlensize zl p
      let (encoding, lensize, len) ← zipDecodeLength zl (p+prevlensize)
      let q := p+prevlensize+lensize
      if skipcnt = 0 then
        let (found, vencoding, vll) ← findCompare zl vstr q len encoding vencoding vll
        if found then return some p
        else findLoop zl vstr skip fuel (q+len) (toInt skip.toNat) vencoding vll
      else findLoop zl vstr skip fuel (q+len) (toInt (skipcnt-1)) vencoding vll

def ziplistFind (zl : Bytes) (p : ℕ) (vstr : Bytes) (skip : UInt32) : Except Fault (Option ℕ) :=
  findLoop zl vstr skip (zl.length+1) p 0 0 0

def candidates (n j skip : ℕ) : List ℕ :=
  (List.range' j (n-j)).filter (fun k => (k-j) % (skip+1) = 0)

/-- The plain search: `ziplistCompare` at one pointer after the other. -/
def findByCompare (zl vstr : Bytes) : List ℕ → Except Fault (Option ℕ)
  | [] => .ok none
  | p :: ps => do
    if ← ziplistCompare zl p vstr then return some p else findByCompare zl vstr ps

theorem findByCompare_parses (h : Parses zl es) (s : Bytes) : ∀ l : List ℕ,
    (∀ k ∈ l, k < es.length) → findByCompare zl s (l.map (entryPos es)) =
      .ok ((l.find? (fun k => (texts es)[k]? = some s)).map (entryPos es)) := by
  intro l hl
  induction l with
  | nil => rfl
  | cons k l ih =>
    have hk : k < es.length := hl k (List.mem_cons_self ..)
    have hrest := ih (fun x hx => hl x (List.mem_cons_of_mem k hx))
    have htext : (texts es)[k]? = some es[k].text := by
      rw [List.getElem?_eq_getElem (by rwa [texts_length])]
      simp only [texts, List.getElem_map]
    rw [List.map_cons, findByCompare, ziplistCompare_at h hk, ok_bind, List.find?_cons,
      htext]
    by_cases heq : es[k].text = s
    · rw [heq]
      simp only [decide_true, if_true, Option.map_some, except_pure]
    · have hne : ¬some es[k].text = some s := fun hc => heq (Option.some.inj hc)
      simp only [heq, hne, decide_false, Bool.false_eq_true, if_false, hrest]

def Remembers (s : Bytes) (vencoding : UInt8) (vll : ℤ) : Prop :=
  vencoding = 0 ∨ zipTryEncoding s = some (vll, vencoding) ∨
    (vencoding = ucharMax ∧ zipTryEncoding s = none)

theorem zipTryEncoding_ne_sentinel {v : ℤ} {encoding : UInt8}
    (h : zipTryEncoding s = some (v, encoding)) : encoding ≠ 0 ∧ encoding ≠ ucharMax := by
  have himm : ∀ k < 13, zipIntImmMin+UInt8.ofNat k ≠ 0 ∧ zipIntImmMin+UInt8.ofNat k ≠ ucharMax := by
    decide
  unfold zipTryEncoding at h
  split_ifs at h with hlen
  cases hv : string2ll s with
  | none => simp [hv] at h
  | some w =>
    simp only [hv] at h
    split_ifs at h with h1 h2 h3 h4 h5
    · have henc : zipIntImmMin+UInt8.ofNat w.toNat = encoding := by
        simpa using congrArg (Option.map Prod.snd) h
      rw [← henc]
      exact himm w.toNat (by omega)
    all_goals
      have henc := congrArg (Option.map Prod.snd) h
      simp only [Option.map_some, Option.some.injEq] at henc
      rw [← henc]
      decide

theorem findCompare_agrees {p : ℕ} {z : ZlEntry} {b : UInt8} {found : Bool}
    {vencoding : UInt8} {vll : ℤ} (hb : loadByte zl p = .ok b) (hne : b ≠ zipEnd)
    (hz : zipEntry zl p = .ok z) (hcmp : ziplistCompare zl p s = .ok found)
    (hmem : Remembers s vencoding vll) :
    ∃ vencoding' vll', findCompare zl s (p+z.headersize) z.len z.encoding vencoding vll =
      .ok (found, vencoding', vll') ∧ Remembers s vencoding' vll' := by
  rw [ziplistCompare, hb, ok_bind, if_neg hne, hz, ok_bind] at hcmp
  unfold findCompare
  by_cases hstr : zipIsStr z.encoding = true
  · rw [if_pos hstr] at hcmp ⊢
    by_cases hlen : z.len = s.length
    · rw [if_pos hlen] at hcmp ⊢
      obtain ⟨x, hx, hf⟩ := except_bind_eq_ok.1 hcmp
      have hf : (x == s) = found := by injection hf
      rw [hx, ok_bind, hf]
      exact ⟨vencoding, vll, rfl, hmem⟩
    · rw [if_neg hlen] at hcmp ⊢
      have hf : false = found := by injection hcmp
      rw [← hf]
      exact ⟨vencoding, vll, rfl, hmem⟩
  · rw [if_neg hstr] at hcmp ⊢
    cases ht : zipTryEncoding s with
    | none =>
      rw [ht] at hcmp
      have hf : false = found := by injection hcmp
      have hsent : (if vencoding = 0 then (ucharMax, vll) else (vencoding, vll)) =
          (ucharMax, vll) := by
        rcases hmem with h0 | hsome | ⟨hmax, -⟩
        · rw [if_pos h0]
        · rw [ht] at hsome
          cases hsome
        · rw [hmax, if_neg (by decide)]
      dsimp only
      rw [hsent]
      dsimp only
      rw [if_neg (by decide), if_neg (by decide), ← hf]
      exact ⟨ucharMax, vll, rfl, Or.inr (Or.inr ⟨rfl, ht⟩)⟩
    | some r =>
      obtain ⟨sval, sencoding⟩ := r
      rw [ht] at hcmp
      obtain ⟨v, hv, hf⟩ := except_bind_eq_ok.1 hcmp
      have hf : (v == sval) = found := by injection hf
      obtain ⟨hzero, hmax⟩ := zipTryEncoding_ne_sentinel ht
      have hparsed : (if vencoding = 0 then (sencoding, sval) else (vencoding, vll)) =
          (sencoding, sval) := by
        rcases hmem with h0 | hsome | ⟨-, hnone⟩
        · rw [if_pos h0]
        · rw [ht] at hsome
          obtain ⟨rfl, rfl⟩ := Prod.mk.inj (Option.some.inj hsome)
          rw [if_neg hzero]
        · rw [ht] at hnone
          cases hnone
      dsimp only
      rw [hparsed]
      dsimp only
      rw [if_neg hzero, if_pos hmax, hv, ok_bind, hf]
      exact ⟨sencoding, sval, rfl, Or.inr (Or.inl ht)⟩

theorem candidates_of_le (h : n ≤ j) : candidates n j skip = [] := by
  have hlen : n-j = 0 := by omega
  rw [candidates, hlen]
  rfl

theorem candidates_of_lt (skip : ℕ) (h : j < n) :
    candidates n j skip = j :: candidates n (j+skip+1) skip := by
  have hsplit : List.range' j (n-j) =
      j :: (List.range' (j+1) (min skip (n-j-1)) ++ List.range' (j+skip+1) (n-(j+skip+1))) := by
    have hlen : n-j = n-j-1+1 := by omega
    rw [hlen, List.range'_succ]
    refine congrArg (List.cons j) ?_
    by_cases hs : skip ≤ n-j-1
    · have hsum : n-j-1+1-1 = skip+(n-(j+skip+1)) := by omega
      rw [Nat.add_sub_cancel] at hsum
      have hstart : j+1+skip = j+skip+1 := by omega
      rw [hsum, Nat.add_sub_cancel, min_eq_left (by omega), ← List.range'_append_1, hstart]
    · have hrest : n-(j+skip+1) = 0 := by omega
      rw [hrest, Nat.add_sub_cancel, min_eq_right (by omega), List.range'_zero, List.append_nil]
  have hskipped : (List.range' (j+1) (min skip (n-j-1))).filter
      (fun k => (k-j) % (skip+1) = 0) = [] := by
    apply List.filter_eq_nil_iff.2
    intro k hk
    obtain ⟨hlo, hhi⟩ := List.mem_range'_1.1 hk
    have hmod : (k-j) % (skip+1) = k-j := Nat.mod_eq_of_lt (by omega)
    rw [hmod, decide_eq_true_eq]
    omega
  have hlater : (List.range' (j+skip+1) (n-(j+skip+1))).filter
      (fun k => (k-j) % (skip+1) = 0) = candidates n (j+skip+1) skip := by
    apply List.filter_congr
    intro k hk
    obtain ⟨hlo, -⟩ := List.mem_range'_1.1 hk
    have hk' : k-j = k-(j+skip+1)+(skip+1) := by omega
    rw [hk', Nat.add_mod_right]
  rw [candidates, hsplit, List.filter_cons_of_pos (by simp), List.filter_append, hskipped, hlater,
    List.nil_append]

theorem candidates_lt : ∀ k ∈ candidates n j skip, k < n := by
  intro k hk
  obtain ⟨hk, -⟩ := List.mem_filter.1 hk
  obtain ⟨hlo, hhi⟩ := List.mem_range'_1.1 hk
  omega

theorem toInt_eq_zero {c : ℕ} (h : c < 2^32) : toInt c = 0 ↔ c = 0 := by
  unfold toInt
  constructor
  · intro hz
    have hdvd := Int.dvd_of_bmod_eq_zero hz
    omega
  · intro hz
    rw [hz]
    rfl

theorem toInt_decrement (c : ℕ) : toInt (toInt (c+1 : ℕ)-1) = toInt c := by
  have hc : ((c+1 : ℕ) : ℤ)-1 = c := by omega
  unfold toInt
  rw [Int.bmod_sub_bmod, hc]

theorem findLoop_from (h : Parses zl es) (s : Bytes) (skip : UInt32) (k : ℕ) :
    ∀ (j c fuel : ℕ) (vencoding : UInt8) (vll : ℤ), j+k = es.length → c ≤ skip.toNat → k < fuel →
    Remembers s vencoding vll →
    findLoop zl s skip fuel (entryPos es j) (toInt c) vencoding vll =
      .ok (((candidates es.length (j+c) skip.toNat).find?
        (fun i => (texts es)[i]? = some s)).map (entryPos es)) := by
  have hskip := skip.toNat_lt
  induction k with
  | zero =>
    intro j c fuel vencoding vll hj hc hfuel hmem
    obtain ⟨fuel, rfl⟩ : ∃ f, fuel = f+1 := ⟨fuel-1, by omega⟩
    have hend : loadByte zl (entryPos es j) = .ok zipEnd := by
      obtain rfl : j = es.length := by omega
      exact loadByte_at_end h
    rw [findLoop, hend, ok_bind, if_pos rfl, candidates_of_le (by omega)]
    rfl
  | succ k ih =>
    intro j c fuel vencoding vll hj hc hfuel hmem
    obtain ⟨fuel, rfl⟩ : ∃ f, fuel = f+1 := ⟨fuel-1, by omega⟩
    have hlt : j < es.length := by omega
    obtain ⟨b, hb, hbne⟩ := loadByte_at_entry h hlt
    obtain ⟨z, hz, hsize, hlen⟩ : ∃ z, zipEntry zl (entryPos es j) = .ok z ∧
        zipDecodePrevlensize zl (entryPos es j) = .ok z.prevrawlensize ∧
        z.headersize+z.len = es[j].rawlen := by
      obtain ⟨cnt, -, rfl⟩ := h.layout
      obtain ⟨a, c, hok, hprev, -, hm, ha, -⟩ := entry_at cnt h.entries h.size hlt
      obtain ⟨z, hz, hps, -, hl, -⟩ := zipEntry_entry hok hprev hm ha
      refine ⟨z, hz, ?_, hl⟩
      rw [hps]
      exact zipDecodePrevlensize_entry hok.narrow hm ha
    have hcmp := ziplistCompare_at h hlt s
    -- the fields the loop decodes are those of `zipEntry`
    obtain ⟨hdec, hhead⟩ : zipDecodeLength zl (entryPos es j+z.prevrawlensize) =
        .ok (z.encoding, z.lensize, z.len) ∧ z.headersize = z.prevrawlensize+z.lensize := by
      obtain ⟨⟨prevrawlensize, prevrawlen⟩, -, hz⟩ := except_bind_eq_ok.1 hz
      obtain ⟨⟨encoding, lensize, len⟩, hd, hz⟩ := except_bind_eq_ok.1 hz
      injection hz with hz
      rw [← hz]
      exact ⟨hd, rfl⟩
    have hq : entryPos es j+z.prevrawlensize+z.lensize = entryPos es j+z.headersize := by omega
    have hnext : entryPos es j+z.headersize+z.len = entryPos es (j+1) := by
      rw [entryPos_succ hlt]
      omega
    rw [findLoop, hb, ok_bind, if_neg hbne, hsize, ok_bind, hdec, ok_bind]
    dsimp only
    rw [hq, hnext]
    cases c with
    | zero =>
      obtain ⟨vencoding', vll', hfind, hmem'⟩ := findCompare_agrees hb hbne hz hcmp hmem
      have htext : (texts es)[j]? = some es[j].text := by
        rw [List.getElem?_eq_getElem (by rwa [texts_length])]
        simp only [texts, List.getElem_map]
      have hrest := ih (j+1) skip.toNat fuel vencoding' vll' (by omega) le_rfl (by omega) hmem'
      have hstart : j+0 = j := rfl
      rw [if_pos (by rfl), hfind, ok_bind, hstart, candidates_of_lt _ hlt,
        List.find?_cons, htext]
      dsimp only
      by_cases heq : es[j].text = s
      · simp only [heq, decide_true, if_true, Option.map_some, except_pure]
      · have hne : ¬some es[j].text = some s := fun hc => heq (Option.some.inj hc)
        have hshift : j+1+skip.toNat = j+skip.toNat+1 := by omega
        rw [hshift] at hrest
        simp only [heq, hne, decide_false, Bool.false_eq_true, if_false, hrest]
    | succ c =>
      have hcnt : toInt (c+1 : ℕ) ≠ 0 := by
        intro hz
        have := (toInt_eq_zero (by omega)).1 hz
        omega
      have hrest := ih (j+1) c fuel vencoding vll (by omega) (by omega) (by omega) hmem
      have hshift : j+(c+1) = j+1+c := by omega
      rw [if_neg hcnt, toInt_decrement, hrest, hshift]

theorem ziplistFind_parses (h : Parses zl es) (hj : j ≤ es.length) (s : Bytes) (skip : UInt32) :
    ziplistFind zl (entryPos es j) s skip =
      .ok (((candidates es.length j skip.toNat).find?
        (fun i => (texts es)[i]? = some s)).map (entryPos es)) := by
  have hfuel : es.length ≤ zl.length := by
    obtain ⟨cnt, -, rfl⟩ := h.layout
    have hle := length_le_entriesLen es
    rw [blob_length, blobLen]
    omega
  exact findLoop_from h s skip (es.length-j) j 0 _ 0 0 (by omega) (Nat.zero_le _) (by omega)
    (Or.inl rfl)

theorem ziplistFind_first {ops : List ZlOp} {zl : Bytes} {outs : List ℕ}
    (hrun : runOps ziplistNew ops = .ok (zl, outs)) :
    ∃ es, Parses zl es ∧ texts es = (runList [] ops).1 ∧
      ∀ (j : ℕ) (s : Bytes) (skip : UInt32), j ≤ es.length →
        ziplistFind zl (entryPos es j) s skip =
          .ok (((candidates es.length j skip.toNat).find?
            (fun i => (texts es)[i]? = some s)).map (entryPos es)) ∧
        findByCompare zl s ((candidates es.length j skip.toNat).map (entryPos es)) =
          ziplistFind zl (entryPos es j) s skip := by
  rcases runOps_refines ops ziplistNew_parses with he | ⟨zl', es, hr, hp, ht⟩
  · rw [hrun] at he
    cases he
  · rw [hrun] at hr
    obtain rfl : zl = zl' := congrArg Prod.fst (Except.ok.inj hr)
    refine ⟨es, hp, ht, ?_⟩
    intro j s skip hj
    have hfind := ziplistFind_parses hp hj s skip
    exact ⟨hfind, (findByCompare_parses hp s _ candidates_lt).trans hfind.symm⟩

theorem ziplistFind_first_two :
    runOps ziplistNew [.push [55] .tail, .push [104] .tail] =
      .ok (blob [⟨false, [0xf8]⟩, ⟨false, [1, 104]⟩] 2, []) ∧
    ∃ es, Parses (blob [⟨false, [0xf8]⟩, ⟨false, [1, 104]⟩] 2) es ∧ texts es = [[55], [104]] ∧
      ziplistFind (blob [⟨false, [0xf8]⟩, ⟨false, [1, 104]⟩] 2) (entryPos es 0) [104] 0 =
        .ok (some (entryPos es 1)) ∧
      ziplistFind (blob [⟨false, [0xf8]⟩, ⟨false, [1, 104]⟩] 2) (entryPos es 0) [104] 4294967295 =
        .ok none := by
  have hrun : runOps ziplistNew [.push [55] .tail, .push [104] .tail] =
      .ok (blob [⟨false, [0xf8]⟩, ⟨false, [1, 104]⟩] 2, []) := by decide
  obtain ⟨es, hp, ht, hfind⟩ := ziplistFind_first hrun
  have hlen : es.length = 2 := by
    rw [← texts_length, ht]
    rfl
  have hsmall := (hfind 0 [104] 0 (Nat.zero_le _)).1
  have hlarge := (hfind 0 [104] 4294967295 (Nat.zero_le _)).1
  rw [ht, hlen] at hsmall hlarge
  exact ⟨hrun, es, hp, ht, hsmall, hlarge⟩

end RedisCore.Ziplist
