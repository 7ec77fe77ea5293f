import RedisCore.CollectionModel

/-! LPOS (`t_list.c`): one loop from either end of a list, with a rank, a count and a limit on the
number of comparisons.  `rank` and what is computed from it are the wrapping `long`s of the source;
the counters of elements never are larger than the list. -/

namespace RedisCore.Collection
open List (drop_nil drop_zero getElem_range length_range map_cons map_nil take_nil)

structure LposOptions where
  rank : ℤ
  /-- -1: option not given. -/
  count : ℤ
  maxlen : ℤ
deriving DecidableEq, Repr

def lposDefaults : LposOptions :=
  { rank := 1
    count := -1
    maxlen := 0 }

def lposOptions : List Bytes → LposOptions → Except Reply LposOptions
  | [], o => .ok o
  | [_], _ => .error syntaxerr
  | opt :: v :: rest, o =>
    if sameCaseless opt (text "RANK") then
      match getLongFromObjectOrReply v with
      | .error e => .error e
      | .ok rank =>
        if rank = 0 then
          .error (addReplyError ("RANK can't be zero: use 1 to start from " ++
            "the first match, 2 from the second, ..."))
        else lposOptions rest { o with rank := rank }
    else if sameCaseless opt (text "COUNT") then
      match getLongFromObjectOrReply v with
      | .error e => .error e
      | .ok count =>
        if count < 0 then .error (addReplyError "COUNT can't be negative")
        else lposOptions rest { o with count := count }
    else if sameCaseless opt (text "MAXLEN") then
      match getLongFromObjectOrReply v with
      | .error e => .error e
      | .ok maxlen =>
        if maxlen < 0 then .error (addReplyError "MAXLEN can't be negative")
        else lposOptions rest { o with maxlen := maxlen }
    else .error syntaxerr

def lposLoop (o : LposOptions) (rank : ℤ) (fromHead : Bool) (llen : ℤ) (ele : Bytes) :
    List Bytes → ℤ → ℤ → List ℤ → ℤ × List ℤ
  | [], _, _, sent => (-1, sent)
  | entry :: entries, index, found, sent =>
    if ¬ (o.maxlen = 0 ∨ index < o.maxlen) then (-1, sent)
    else if entry = ele then
      let found := found + 1
      let matchindex := if fromHead then index else llen - index - 1
      if rank ≤ found then
        if o.count ≠ -1 then
          if o.count ≠ 0 ∧ o.count ≤ toLong (toLong (found - rank) + 1) then
            (matchindex, sent ++ [matchindex])
          else lposLoop o rank fromHead llen ele entries (index + 1) found (sent ++ [matchindex])
        else (matchindex, sent)
      else lposLoop o rank fromHead llen ele entries (index + 1) found sent
    else lposLoop o rank fromHead llen ele entries (index + 1) found sent

inductive LposReply where
  | null
  | index (i : ℤ)
  | array (arraylen : ℤ) (indexes : List ℤ)
  | other (r : Reply)
deriving DecidableEq, Repr

def lposSend (count : ℤ) (result : ℤ × List ℤ) : LposReply :=
  if count ≠ -1 then .array result.2.length result.2
  else if result.1 ≠ -1 then .index result.1
  else .null

def lposCommand (argv : List Bytes) (o : Option Value) : LposReply :=
  let ele := arg argv 2
  match lposOptions (argv.drop 3) lposDefaults with
  | .error e => .other e
  | .ok opts =>
    let fromHead := !decide (opts.rank < 0)
    let rank := if opts.rank < 0 then toLong (-opts.rank) else opts.rank
    match o with
    | none => if opts.count ≠ -1 then .array 0 [] else .null
    | some (.list es) =>
      let entries := if fromHead then es else es.reverse
      lposSend opts.count (lposLoop opts rank fromHead es.length ele entries 0 0 [])
    | some _ => .other wrongtypeerr

def lposScan (o : LposOptions) (len : ℕ) : List ℕ :=
  let all := if 0 < o.rank then List.range len else (List.range len).reverse
  if o.maxlen = 0 then all else all.take o.maxlen.toNat

def lposFound (o : LposOptions) (es : List Bytes) (ele : Bytes) : List ℕ :=
  ((lposScan o es.length).filter (fun i => es[i]? = some ele)).drop (o.rank.natAbs - 1)

def lposAnswer (o : LposOptions) (es : List Bytes) (ele : Bytes) : LposReply :=
  let found := lposFound o es ele
  if o.count = -1 then
    match found with
    | [] => .null
    | i :: _ => .index i
  else
    let shown := if o.count = 0 then found else found.take o.count.toNat
    .array shown.length (shown.map (fun i : ℕ => (i : ℤ)))

variable {o : LposOptions} {fromHead : Bool} {llen index : ℤ} {ele : Bytes} {es : List Bytes}

theorem lposLoop_maxlen (hmax : 0 < o.maxlen) (rank : ℤ) (entries : List Bytes) :
    ∀ (index found : ℤ) (sent : List ℤ),
      lposLoop o rank fromHead llen ele entries index found sent =
        lposLoop { o with maxlen := 0 } rank fromHead llen ele
          (entries.take (o.maxlen - index).toNat) index found sent := by
  induction entries with
  | nil =>
    intro index found sent
    rw [take_nil, lposLoop, lposLoop]
  | cons entry entries ih =>
    intro index found sent
    by_cases hin : index < o.maxlen
    · have hsucc : (o.maxlen - index).toNat = (o.maxlen - (index + 1)).toNat + 1 := by omega
      rw [hsucc, List.take_succ_cons, lposLoop, lposLoop]
      simp only [hin, or_true, true_or, not_true, if_false, ih]
    · have hnone : (o.maxlen - index).toNat = 0 := by omega
      rw [hnone, List.take_zero, lposLoop, lposLoop, if_pos (by omega)]

structure Remaining (fromHead : Bool) (es : List Bytes) (index : ℤ) (entries : List Bytes)
    (ps : List ℕ) : Prop where
  entries : entries = ps.map (fun i => es.getD i [])
  inside : ∀ i ∈ ps, i < es.length
  position : ∀ (k : ℕ) (hk : k < ps.length),
    (ps[k] : ℤ) = if fromHead then index + k else es.length - (index + k) - 1

theorem Remaining.cases {entries : List Bytes} {p : ℕ} {ps : List ℕ}
    (h : Remaining fromHead es index entries (p :: ps)) (ele : Bytes) :
    ∃ rest, entries = es.getD p [] :: rest ∧ Remaining fromHead es (index + 1) rest ps ∧
      (if fromHead then index else (es.length : ℤ) - index - 1) = p ∧
      (es.getD p [] = ele ↔ es[p]? = some ele) := by
  refine ⟨_, h.entries, ⟨rfl, fun i hi => h.inside i (List.mem_cons_of_mem p hi), ?_⟩, ?_, ?_⟩
  · intro k hk
    have hnext := h.position (k + 1) (Nat.succ_lt_succ hk)
    rw [List.getElem_cons_succ] at hnext
    rw [hnext]
    split_ifs <;> push_cast <;> ring
  · have hfirst := h.position 0 (Nat.zero_lt_succ _)
    rw [List.getElem_cons_zero] at hfirst
    rw [hfirst, Nat.cast_zero, add_zero]
  · have hp : p < es.length := h.inside p List.mem_cons_self
    rw [List.getD_eq_getElem _ _ hp, List.getElem?_eq_getElem hp, Option.some_inj]

theorem lposLoop_cons (hmax : o.maxlen = 0) (rank : ℤ) (entry : Bytes) (entries : List Bytes)
    (index found : ℤ) (sent : List ℤ) :
    lposLoop o rank fromHead llen ele (entry :: entries) index found sent =
      if entry = ele then
        if rank ≤ found + 1 then
          if o.count ≠ -1 then
            if o.count ≠ 0 ∧ o.count ≤ toLong (toLong (found + 1 - rank) + 1) then
              (if fromHead then index else llen - index - 1,
                sent ++ [if fromHead then index else llen - index - 1])
            else lposLoop o rank fromHead llen ele entries (index + 1) (found + 1)
              (sent ++ [if fromHead then index else llen - index - 1])
          else (if fromHead then index else llen - index - 1, sent)
        else lposLoop o rank fromHead llen ele entries (index + 1) (found + 1) sent
      else lposLoop o rank fromHead llen ele entries (index + 1) found sent := by
  rw [lposLoop, if_neg (not_not.mpr (Or.inl hmax))]

theorem lposLoop_first (hmax : o.maxlen = 0) (hcount : o.count = -1) {r : ℕ} (ps : List ℕ) :
    ∀ {index : ℤ} {entries : List Bytes} {n : ℕ} {sent : List ℤ},
      Remaining fromHead es index entries ps → n < r →
      (lposLoop o r fromHead es.length ele entries index n sent).1 =
        match (ps.filter (fun i => es[i]? = some ele)).drop (r - 1 - n) with
        | [] => -1
        | i :: _ => i := by
  induction ps with
  | nil =>
    intro index entries n sent h _
    rw [h.entries, map_nil, lposLoop, List.filter_nil, drop_nil]
  | cons p ps ih =>
    intro index entries n sent h hn
    obtain ⟨rest, hentries, hrest, hindex, hele⟩ := h.cases ele
    rw [hentries, lposLoop_cons hmax, hindex, List.filter_cons]
    simp only [hele, hcount, ne_eq, not_true, if_false, decide_eq_true_eq]
    by_cases hmatch : es[p]? = some ele
    · rw [if_pos hmatch, if_pos hmatch]
      by_cases hlast : r ≤ n + 1
      · have hzero : r - 1 - n = 0 := by omega
        rw [if_pos (by exact_mod_cast hlast), hzero, drop_zero]
      · have hsucc : r - 1 - n = r - 1 - (n + 1) + 1 := by omega
        rw [if_neg (by exact_mod_cast hlast), hsucc, List.drop_succ_cons]
        exact ih hrest (Nat.lt_of_not_le hlast)
    · rw [if_neg hmatch, if_neg hmatch]
      exact ih hrest hn

def shownFrom (count : ℤ) (r n : ℕ) (hits : List ℕ) : List ℕ :=
  if count = 0 then hits.drop (r - 1 - n)
  else (hits.drop (r - 1 - n)).take (count.toNat - (n - (r - 1)))

theorem lposLoop_sent (hmax : o.maxlen = 0) (hcount : 0 ≤ o.count) {r : ℕ} (hr : 0 < r)
    (ps : List ℕ) : ∀ {index : ℤ} {entries : List Bytes} {n : ℕ} {sent : List ℤ},
      Remaining fromHead es index entries ps → n + ps.length < 2 ^ 63 →
      (o.count = 0 ∨ (n : ℤ) < r - 1 + o.count) →
      (lposLoop o r fromHead es.length ele entries index n sent).2 = sent ++
        (shownFrom o.count r n (ps.filter (fun i => es[i]? = some ele))).map (fun i : ℕ => (i : ℤ)) := by
  unfold shownFrom
  induction ps with
  | nil =>
    intro index entries n sent h _ _
    rw [h.entries, map_nil, lposLoop, List.filter_nil, drop_nil, take_nil, ite_self,
      map_nil, List.append_nil]
  | cons p ps ih =>
    intro index entries n sent h hlen hn
    rw [List.length_cons] at hlen
    obtain ⟨rest, hentries, hrest, hindex, hele⟩ := h.cases ele
    rw [hentries, lposLoop_cons hmax, hindex, List.filter_cons]
    simp only [hele, decide_eq_true_eq]
    by_cases hmatch : es[p]? = some ele
    · rw [if_pos hmatch, if_pos hmatch]
      by_cases hlast : r ≤ n + 1
      · have hzero : r - 1 - n = 0 := by omega
        have hzero' : r - 1 - (n + 1) = 0 := by omega
        have hlong : toLong (toLong ((n : ℤ) + 1 - r) + 1) = n + 1 - r + 1 := by
          rw [toLong_of_fits (n := (n : ℤ) + 1 - r) (by omega) (by omega),
            toLong_of_fits (by omega) (by omega)]
        rw [if_pos (by exact_mod_cast hlast), if_pos (by omega), hlong, hzero, drop_zero]
        by_cases hall : o.count = 0
        · have hstep := @ih (index + 1) rest (n + 1) (sent ++ [(p : ℤ)]) hrest (by omega) (Or.inl hall)
          rw [Nat.cast_add, Nat.cast_one] at hstep
          rw [if_neg (fun hstop => hstop.1 hall), hstep, if_pos hall, if_pos hall, hzero',
            drop_zero, map_cons, List.append_assoc, List.singleton_append]
        · by_cases hstop : o.count ≤ (n : ℤ) + 1 - r + 1
          · have hone : o.count.toNat - (n - (r - 1)) = 1 := by omega
            rw [if_pos ⟨hall, hstop⟩, if_neg hall, hone, List.take_succ_cons, List.take_zero,
              List.map_singleton]
          · have hsucc : o.count.toNat - (n - (r - 1)) = o.count.toNat - (n + 1 - (r - 1)) + 1 := by
              omega
            have hstep := @ih (index + 1) rest (n + 1) (sent ++ [(p : ℤ)]) hrest (by omega)
              (Or.inr (by push_cast; omega))
            rw [Nat.cast_add, Nat.cast_one] at hstep
            rw [if_neg (fun h => hstop h.2), hstep, if_neg hall, if_neg hall, hzero', hsucc,
              drop_zero, List.take_succ_cons, map_cons, List.append_assoc,
              List.singleton_append]
      · have hsucc : r - 1 - n = r - 1 - (n + 1) + 1 := by omega
        have hskip : n - (r - 1) = n + 1 - (r - 1) := by omega
        have hstep := @ih (index + 1) rest (n + 1) sent hrest (by omega) (by push_cast; omega)
        rw [Nat.cast_add, Nat.cast_one] at hstep
        rw [if_neg (by exact_mod_cast hlast), hstep, hsucc, List.drop_succ_cons, hskip]
    · rw [if_neg hmatch, if_neg hmatch]
      exact ih hrest (by omega) hn

theorem Remaining.take {entries : List Bytes} {ps : List ℕ}
    (h : Remaining fromHead es index entries ps) (m : ℕ) :
    Remaining fromHead es index (entries.take m) (ps.take m) := by
  refine ⟨?_, fun i hi => h.inside i (List.mem_of_mem_take hi), ?_⟩
  · rw [h.entries, List.map_take]
  · intro k hk
    rw [List.getElem_take]
    exact h.position k _

theorem range_map_getD (es : List Bytes) : (List.range es.length).map (fun i => es.getD i []) = es := by
  apply List.ext_getElem
  · rw [List.length_map, length_range]
  · intro i _ hi
    rw [List.getElem_map, getElem_range, List.getD_eq_getElem _ _ hi]

theorem remaining_all (fromHead : Bool) (es : List Bytes) :
    Remaining fromHead es 0 (if fromHead then es else es.reverse)
      (if fromHead then List.range es.length else (List.range es.length).reverse) := by
  cases fromHead with
  | true =>
    refine ⟨(range_map_getD es).symm, fun i hi => List.mem_range.mp hi, ?_⟩
    intro k hk
    simp only [if_true, getElem_range, zero_add]
  | false =>
    refine ⟨?_, fun i hi => List.mem_range.mp (List.mem_reverse.mp hi), ?_⟩
    · simp only [Bool.false_eq_true, if_false]
      rw [List.map_reverse, range_map_getD]
    · intro k hk
      simp only [Bool.false_eq_true, if_false] at hk ⊢
      rw [List.length_reverse, length_range] at hk
      rw [List.getElem_reverse, getElem_range, length_range]
      omega

theorem lposScan_le (o : LposOptions) (len : ℕ) : (lposScan o len).length ≤ len := by
  have hall : (if 0 < o.rank then List.range len else (List.range len).reverse).length = len := by
    rw [apply_ite List.length, List.length_reverse, length_range, ite_self]
  unfold lposScan
  by_cases hmax : o.maxlen = 0
  · rw [if_pos hmax]
    exact hall.le
  · rw [if_neg hmax]
    exact (List.length_take_le' _ _).trans hall.le

theorem lposLoop_scan (hrank : o.rank ≠ 0) (hmax : 0 ≤ o.maxlen) (r : ℤ) (ele : Bytes) (es : List Bytes) :
    ∃ entries, Remaining (!decide (o.rank < 0)) es 0 entries (lposScan o es.length) ∧
      lposLoop o r (!decide (o.rank < 0)) es.length ele
          (if (!decide (o.rank < 0)) = true then es else es.reverse) 0 0 [] =
        lposLoop { o with maxlen := 0 } r (!decide (o.rank < 0)) es.length ele entries 0 0 [] := by
  have hall := remaining_all (!decide (o.rank < 0)) es
  have hside : (!decide (o.rank < 0)) = true ↔ 0 < o.rank := by
    rw [Bool.not_eq_true', decide_eq_false_iff_not]
    omega
  unfold lposScan
  dsimp only
  by_cases hzero : o.maxlen = 0
  · have hsame : o = { o with maxlen := 0 } := by
      rw [← hzero]
    refine ⟨_, ?_, congrArg (fun o' => lposLoop o' r _ _ ele _ 0 0 []) hsame⟩
    rw [if_pos hzero]
    simp only [hside] at hall ⊢
    exact hall
  · refine ⟨_, ?_, lposLoop_maxlen (by omega) r _ 0 0 []⟩
    rw [if_neg hzero, sub_zero]
    simp only [hside] at hall ⊢
    exact hall.take _

structure LposOptions.Valid (o : LposOptions) : Prop where
  rank : o.rank ≠ 0
  least : -2 ^ 63 ≤ o.rank
  greatest : o.rank < 2 ^ 63
  count : -1 ≤ o.count
  maxlen : 0 ≤ o.maxlen

theorem lposDefaults_valid : lposDefaults.Valid := by
  unfold lposDefaults
  constructor <;> norm_num

theorem getLong_bounds {s : Bytes} {v : ℤ} (h : getLongFromObjectOrReply s = .ok v) :
    -2 ^ 63 ≤ v ∧ v < 2 ^ 63 := by
  unfold getLongFromObjectOrReply at h
  split at h
  · cases h
  · case h_2 n hn =>
    rw [← Except.ok.inj h]
    exact (string2ll_some hn).2

theorem lposOptions_valid (args : List Bytes) : ∀ {o o' : LposOptions}, o.Valid →
    lposOptions args o = .ok o' → o'.Valid := by
  intro o
  fun_induction lposOptions args o with
  | case1 o =>
    intro o' h heq
    rw [← Except.ok.inj heq]
    exact h
  | case5 opt v rest o hname rank hrank hzero ih =>
    intro o' h heq
    have hbounds := getLong_bounds hrank
    exact ih { h with rank := hzero, least := hbounds.1, greatest := hbounds.2 } heq
  | case8 opt v rest o _ hname count hcount hneg ih =>
    intro o' h heq
    exact ih { h with count := by simp only; omega } heq
  | case11 opt v rest o _ _ hname maxlen hmaxlen hneg ih =>
    intro o' h heq
    exact ih { h with maxlen := not_lt.mp hneg } heq
  | _ =>
    intro o' _ heq
    cases heq

theorem lposLoop_answer (h : o.Valid) (hlen : es.length < 2 ^ 63) (ele : Bytes) :
    lposSend o.count (lposLoop o o.rank.natAbs (!decide (o.rank < 0)) es.length ele
      (if (!decide (o.rank < 0)) = true then es else es.reverse) 0 0 []) = lposAnswer o es ele := by
  obtain ⟨entries, hremaining, hloop⟩ := lposLoop_scan h.rank h.maxlen o.rank.natAbs ele es
  have hrank : 0 < o.rank.natAbs := Int.natAbs_pos.mpr h.rank
  have hscan := lposScan_le o es.length
  rw [hloop]
  unfold lposSend lposAnswer lposFound
  by_cases hcount : o.count = -1
  · have hfirst := @lposLoop_first { o with maxlen := 0 } _ ele es rfl hcount _ (lposScan o es.length)
      _ _ 0 [] hremaining hrank
    rw [Nat.cast_zero] at hfirst
    rw [if_neg (not_not.mpr hcount), if_pos hcount, hfirst, Nat.sub_zero]
    cases ((lposScan o es.length).filter (fun i => es[i]? = some ele)).drop (o.rank.natAbs - 1) with
    | nil => rfl
    | cons i rest => rw [if_pos (by simp only; omega)]
  · have hsent := @lposLoop_sent { o with maxlen := 0 } _ ele es rfl (by have := h.count; simp only; omega)
      _ hrank (lposScan o es.length) _ _ 0 [] hremaining (by omega)
      (by simp only; have := h.count; omega)
    rw [Nat.cast_zero] at hsent
    rw [if_pos hcount, if_neg hcount, hsent, List.nil_append]
    unfold shownFrom
    rw [Nat.sub_zero, Nat.zero_sub, Nat.sub_zero, List.length_map]

theorem lposLoop_least {o' : LposOptions} (hmaxlen : o'.maxlen = o.maxlen)
    (hmin : o'.count = min o.count 0) (entries : List Bytes) :
    ∀ (index : ℤ) (n : ℕ) (sent : List ℤ), n + entries.length < 2 ^ 63 → -1 ≤ o.count →
      lposLoop o (-2 ^ 63) fromHead llen ele entries index n sent =
        lposLoop o' 1 fromHead llen ele entries index n sent := by
  induction entries with
  | nil =>
    intro index n sent _ _
    rw [lposLoop, lposLoop]
  | cons entry entries ih =>
    intro index n sent hlen hcount
    rw [List.length_cons] at hlen
    have hwrap : toLong ((n : ℤ) + 1 - -2 ^ 63) = n + 1 - 2 ^ 63 := by
      have hsub : (n : ℤ) + 1 - -2 ^ 63 = (n + 1 - 2 ^ 63) + ((2 ^ 64 : ℕ) : ℤ) := by
        push_cast
        ring
      unfold toLong
      rw [hsub, Int.add_bmod_right]
      exact toLong_of_fits (by omega) (by omega)
    have hlong : toLong (toLong ((n : ℤ) + 1 - -2 ^ 63) + 1) = n + 1 - 2 ^ 63 + 1 := by
      rw [hwrap, toLong_of_fits (by omega) (by omega)]
    have hnext := fun sent => ih (index + 1) (n + 1) sent (by omega) hcount
    have hskip := ih (index + 1) n sent (by omega) hcount
    have hcast : ((n + 1 : ℕ) : ℤ) = (n : ℤ) + 1 := by
      push_cast
      rfl
    rw [hcast] at hnext
    rw [lposLoop, lposLoop]
    simp only [hlong, hnext, hskip, hmaxlen]
    have hreach : (-2 ^ 63 : ℤ) ≤ n + 1 ∧ (1 : ℤ) ≤ n + 1 := by omega
    rw [if_pos hreach.1, if_pos hreach.2]
    by_cases hgiven : o.count = -1
    · have hgiven' : o'.count = -1 := by omega
      rw [if_neg (not_not.mpr hgiven), if_neg (not_not.mpr hgiven')]
    · have hzero : o'.count = 0 := by omega
      have hstop : ¬ (o.count ≠ 0 ∧ o.count ≤ (n : ℤ) + 1 - 2 ^ 63 + 1) := by omega
      have hstop' : ¬ (o'.count ≠ 0 ∧ o'.count ≤ toLong (toLong ((n : ℤ) + 1 - 1) + 1)) :=
        fun h => h.1 hzero
      have hgiven' : o'.count ≠ -1 := by omega
      rw [if_pos hgiven, if_neg hstop, if_pos hgiven', if_neg hstop']

theorem lposLoop_answer_least (h : o.Valid) (hrank : o.rank = -2 ^ 63) (hlen : es.length < 2 ^ 63)
    (ele : Bytes) : lposSend o.count (lposLoop o (toLong (-o.rank)) (!decide (o.rank < 0)) es.length ele
      (if (!decide (o.rank < 0)) = true then es else es.reverse) 0 0 []) =
        lposAnswer { o with rank := -1, count := min o.count 0 } es ele := by
  have hlong : toLong (-o.rank) = -2 ^ 63 := by
    rw [hrank]
    rfl
  have hside : (!decide (o.rank < 0)) = false := by
    rw [hrank]
    rfl
  have hcount := h.count
  have hsend : ∀ result, lposSend o.count result = lposSend (min o.count 0) result := by
    intro result
    unfold lposSend
    have hiff : o.count ≠ -1 ↔ min o.count 0 ≠ -1 := by omega
    simp only [hiff]
  have hvalid : LposOptions.Valid { o with rank := -1, count := min o.count 0 } := by
    constructor
    · norm_num
    · norm_num
    · norm_num
    · simp only
      omega
    · exact h.maxlen
  have hanswer := lposLoop_answer hvalid hlen ele
  have hleast := @lposLoop_least o false es.length ele { o with rank := -1, count := min o.count 0 }
    rfl rfl es.reverse 0 0 [] (by rw [List.length_reverse]; omega) hcount
  rw [Nat.cast_zero] at hleast
  rw [← hanswer, hlong, hside, hsend]
  simp only [Bool.false_eq_true, if_false]
  rw [hleast]
  rfl

theorem lposFound_least (hrank : o.rank = -2 ^ 63) (hlen : es.length < 2 ^ 63) (ele : Bytes) :
    lposFound o es ele = [] := by
  have hfilter := List.length_filter_le (fun i => decide (es[i]? = some ele)) (lposScan o es.length)
  have hscan := lposScan_le o es.length
  unfold lposFound
  apply List.drop_eq_nil_of_le
  rw [hrank]
  omega

end RedisCore.Collection
