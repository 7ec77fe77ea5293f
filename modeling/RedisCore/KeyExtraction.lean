import RedisCore.CollectionRuns

namespace RedisCore.KeyExtraction
open List (drop_one filter_cons length_cons length_drop mem_cons mem_cons_self mem_filter)

open Collection

def skiplist : List (String × ℕ) := [("limit", 2), ("get", 1), ("by", 1)]

inductive Scanned where
  | skip (n : ℕ)
  | store
  | other
deriving DecidableEq, Repr

def scanArg (a : Bytes) (more : Bool) : List (String × ℕ) → Scanned
  | [] => .other
  | (name, skip) :: rest =>
    if sameCaseless a (text name) then .skip skip
    else if sameCaseless a (text "store") && more then .store
    else scanArg a more rest

def sortScan (args : List Bytes) (i : ℕ) (key : Option ℕ) : Option ℕ :=
  match args with
  | [] => key
  | a :: rest =>
    match scanArg a (!rest.isEmpty) skiplist with
    | .skip n => sortScan (rest.drop n) (i + n + 1) key
    | .store => sortScan rest (i + 1) (some (i + 1))
    | .other => sortScan rest (i + 1) key
termination_by args.length
decreasing_by all_goals simp only [length_cons, length_drop]; omega

def sortGetKeys (argv : List Bytes) : List ℕ := 1 :: (sortScan (argv.drop 2) 2 none).toList

/-- The loop of `sortCommand` on arguments without a syntax error: where the last STORE has its
destination. -/
def sortStore (args : List Bytes) (j : ℕ) (storekey : Option ℕ) : Option ℕ :=
  match args with
  | [] => storekey
  | a :: rest =>
    if sameCaseless a (text "asc") || sameCaseless a (text "desc") || sameCaseless a (text "alpha") then
      sortStore rest (j + 1) storekey
    else if sameCaseless a (text "limit") then sortStore (rest.drop 2) (j + 3) storekey
    else if sameCaseless a (text "store") then sortStore (rest.drop 1) (j + 2) (some (j + 1))
    else sortStore (rest.drop 1) (j + 2) storekey
termination_by args.length
decreasing_by all_goals simp only [length_cons, length_drop]; omega

def sortKeys (argv : List Bytes) : List ℕ := 1 :: (sortStore (argv.drop 2) 2 none).toList

structure XreadOptions where
  timeout : ℤ
  count : ℤ
  noack : Bool
  group : Option (Bytes × Bytes)
deriving DecidableEq, Repr

def xreadDefaults : XreadOptions :=
  { timeout := -1
    count := 0
    noack := false
    group := none }

def getTimeoutFromObjectOrReply (mstime : ℤ) (object : Bytes) : Except Reply ℤ :=
  match string2ll object with
  | none => .error (addReplyError "timeout is not an integer or out of range")
  | some tval =>
    if tval < 0 then .error (addReplyError "timeout is negative")
    else .ok (if tval > 0 then toLong (tval + mstime) else tval)

structure XreadCall where
  name : Bytes
  lua : Bool
  mstime : ℤ

def XreadCall.group (c : XreadCall) : Bool := c.name.length == 10

def onlyReadgroup (option : String) : Reply :=
  addReplyError ("The " ++ option ++ " option is only supported by XREADGROUP. You called XREAD instead.")

/-- The loop over the options, at the argument `i`: the options, where the streams start and how
many there are. -/
def xreadParse (c : XreadCall) (args : List Bytes) (i : ℕ) (o : XreadOptions) :
    Except Reply (XreadOptions × ℕ × ℕ) :=
  match args with
  | [] => .error syntaxerr
  | a :: rest =>
    let moreargs := rest.length
    if sameCaseless a (text "BLOCK") ∧ moreargs ≠ 0 then
      if c.lua then
        .error (addReplyError (String.ofList (c.name.map (fun b => Char.ofNat b.toNat)) ++
          " command is not allowed with BLOCK option from scripts"))
      else
        match getTimeoutFromObjectOrReply c.mstime (arg rest 0) with
        | .error e => .error e
        | .ok timeout => xreadParse c (rest.drop 1) (i + 2) { o with timeout := timeout }
    else if sameCaseless a (text "COUNT") ∧ moreargs ≠ 0 then
      match getLongFromObjectOrReply (arg rest 0) with
      | .error e => .error e
      | .ok count =>
        xreadParse c (rest.drop 1) (i + 2) { o with count := if count < 0 then 0 else count }
    else if sameCaseless a (text "STREAMS") ∧ moreargs ≠ 0 then
      if moreargs % 2 ≠ 0 then
        .error (addReplyError ("Unbalanced XREAD list of streams: " ++
          "for each stream key an ID or '$' must be specified."))
      else .ok (o, i + 1, moreargs / 2)
    else if sameCaseless a (text "GROUP") ∧ 2 ≤ moreargs then
      if c.group then
        xreadParse c (rest.drop 2) (i + 3) { o with group := some (arg rest 0, arg rest 1) }
      else .error (onlyReadgroup "GROUP")
    else if sameCaseless a (text "NOACK") then
      if c.group then xreadParse c rest (i + 1) { o with noack := true }
      else .error (onlyReadgroup "NOACK")
    else .error syntaxerr
termination_by args.length
decreasing_by all_goals simp only [length_cons, length_drop]; omega

def xreadOptions (c : XreadCall) (argv : List Bytes) : Except Reply (XreadOptions × ℕ × ℕ) :=
  match xreadParse c (argv.drop 1) 1 xreadDefaults with
  | .error e => .error e
  | .ok (o, streamsArg, streamsCount) =>
    if c.group && o.group.isNone then
      .error (addReplyError "Missing GROUP option for XREADGROUP")
    else .ok (o, streamsArg, streamsCount)

def xreadKeys (streamsArg streamsCount : ℕ) : List ℕ := List.range' streamsArg streamsCount

def xreadStreamsPos (args : List Bytes) (i : ℕ) : Option ℕ :=
  match args with
  | [] => none
  | a :: rest =>
    if sameCaseless a (text "block") then xreadStreamsPos (rest.drop 1) (i + 2)
    else if sameCaseless a (text "count") then xreadStreamsPos (rest.drop 1) (i + 2)
    else if sameCaseless a (text "group") then xreadStreamsPos (rest.drop 2) (i + 3)
    else if sameCaseless a (text "noack") then xreadStreamsPos rest (i + 1)
    else if sameCaseless a (text "streams") then some i
    else none
termination_by args.length
decreasing_by all_goals simp only [length_cons, length_drop]; omega

def xreadGetKeys (argv : List Bytes) : List ℕ :=
  match xreadStreamsPos (argv.drop 1) 1 with
  | none => []
  | some streamsPos =>
    let num := argv.length - streamsPos - 1
    if num = 0 ∨ num % 2 ≠ 0 then [] else List.range' (streamsPos + 1) (num / 2)

section

variable {a : Bytes} (rest : List Bytes) (i : ℕ)

theorem streamsPos_block (h : sameCaseless a (text "BLOCK") = true) :
    xreadStreamsPos (a :: rest) i = xreadStreamsPos (rest.drop 1) (i + 2) := by
  have hblock : sameCaseless (text "BLOCK") (text "block") = true := by decide
  rw [xreadStreamsPos, sameCaseless_of h "block", if_pos hblock]

theorem streamsPos_count (h : sameCaseless a (text "COUNT") = true) :
    xreadStreamsPos (a :: rest) i = xreadStreamsPos (rest.drop 1) (i + 2) := by
  have hblock : sameCaseless (text "COUNT") (text "block") = false := by decide
  have hcount : sameCaseless (text "COUNT") (text "count") = true := by decide
  rw [xreadStreamsPos, sameCaseless_of h "block", sameCaseless_of h "count", hblock, if_pos hcount,
    if_neg Bool.false_ne_true]

theorem streamsPos_group (h : sameCaseless a (text "GROUP") = true) :
    xreadStreamsPos (a :: rest) i = xreadStreamsPos (rest.drop 2) (i + 3) := by
  have hblock : sameCaseless (text "GROUP") (text "block") = false := by decide
  have hcount : sameCaseless (text "GROUP") (text "count") = false := by decide
  have hgroup : sameCaseless (text "GROUP") (text "group") = true := by decide
  rw [xreadStreamsPos, sameCaseless_of h "block", sameCaseless_of h "count", sameCaseless_of h "group",
    hblock, hcount, if_pos hgroup, if_neg Bool.false_ne_true, if_neg Bool.false_ne_true]

theorem streamsPos_noack (h : sameCaseless a (text "NOACK") = true) :
    xreadStreamsPos (a :: rest) i = xreadStreamsPos rest (i + 1) := by
  have hblock : sameCaseless (text "NOACK") (text "block") = false := by decide
  have hcount : sameCaseless (text "NOACK") (text "count") = false := by decide
  have hgroup : sameCaseless (text "NOACK") (text "group") = false := by decide
  have hnoack : sameCaseless (text "NOACK") (text "noack") = true := by decide
  rw [xreadStreamsPos, sameCaseless_of h "block", sameCaseless_of h "count", sameCaseless_of h "group",
    sameCaseless_of h "noack", hblock, hcount, hgroup, if_pos hnoack]
  simp only [Bool.false_eq_true, if_false]

theorem streamsPos_streams (h : sameCaseless a (text "STREAMS") = true) :
    xreadStreamsPos (a :: rest) i = some i := by
  have hblock : sameCaseless (text "STREAMS") (text "block") = false := by decide
  have hcount : sameCaseless (text "STREAMS") (text "count") = false := by decide
  have hgroup : sameCaseless (text "STREAMS") (text "group") = false := by decide
  have hnoack : sameCaseless (text "STREAMS") (text "noack") = false := by decide
  have hstreams : sameCaseless (text "STREAMS") (text "streams") = true := by decide
  rw [xreadStreamsPos, sameCaseless_of h "block", sameCaseless_of h "count", sameCaseless_of h "group",
    sameCaseless_of h "noack", sameCaseless_of h "streams", hblock, hcount, hgroup, hnoack,
    if_pos hstreams]
  simp only [Bool.false_eq_true, if_false]

end

theorem xreadParse_pos (c : XreadCall) (args : List Bytes) : ∀ {i : ℕ} {o o' : XreadOptions} {m n : ℕ},
    xreadParse c args i o = .ok (o', m, n) → ∃ p, xreadStreamsPos args i = some p ∧ m = p + 1 ∧
      i ≤ p ∧ i + args.length = p + 1 + 2 * n ∧ n ≠ 0 := by
  intro i o
  fun_induction xreadParse c args i o with
  | case4 i o a rest moreargs hname hlua timeout htimeout =>
    rename_i ih
    intro o' m n h
    obtain ⟨p, hpos, hm, hle, hlen, hn⟩ := ih h
    rw [streamsPos_block rest i hname.1]
    refine ⟨p, hpos, hm, by omega, ?_, hn⟩
    rw [length_drop] at hlen
    rw [length_cons]
    have hmore := hname.2
    omega
  | case6 i o a rest moreargs _ hname count hcount =>
    rename_i ih
    intro o' m n h
    obtain ⟨p, hpos, hm, hle, hlen, hn⟩ := ih h
    rw [streamsPos_count rest i hname.1]
    refine ⟨p, hpos, hm, by omega, ?_, hn⟩
    rw [length_drop] at hlen
    rw [length_cons]
    have hmore := hname.2
    omega
  | case8 i o a rest moreargs _ _ hname =>
    rename_i heven
    intro o' m n h
    obtain ⟨-, hm, hn⟩ := by simpa only [Except.ok.injEq, Prod.mk.injEq] using h
    have hmore := hname.2
    refine ⟨i, streamsPos_streams rest i hname.1, hm.symm, le_rfl, ?_, ?_⟩
    · rw [length_cons]
      omega
    · omega
  | case9 i o a rest moreargs _ _ _ hname hgroup =>
    rename_i ih
    intro o' m n h
    obtain ⟨p, hpos, hm, hle, hlen, hn⟩ := ih h
    rw [streamsPos_group rest i hname.1]
    refine ⟨p, hpos, hm, by omega, ?_, hn⟩
    rw [length_drop] at hlen
    rw [length_cons]
    have hmore := hname.2
    omega
  | case11 i o a rest moreargs _ _ _ _ hname hgroup =>
    rename_i ih
    intro o' m n h
    obtain ⟨p, hpos, hm, hle, hlen, hn⟩ := ih h
    rw [streamsPos_noack rest i hname]
    refine ⟨p, hpos, hm, by omega, ?_, hn⟩
    rw [length_cons]
    omega
  | _ =>
    intro o' m n h
    cases h

theorem xreadGetKeys_eq {c : XreadCall} {argv : List Bytes} {o : XreadOptions} {m n : ℕ}
    (hargv : argv ≠ []) (h : xreadOptions c argv = .ok (o, m, n)) : xreadGetKeys argv = xreadKeys m n := by
  unfold xreadOptions at h
  cases hparse : xreadParse c (argv.drop 1) 1 xreadDefaults with
  | error e =>
    rw [hparse] at h
    cases h
  | ok result =>
    obtain ⟨o', m', n'⟩ := result
    rw [hparse] at h
    dsimp only at h
    have hsame : m' = m ∧ n' = n := by
      split_ifs at h
      exact ⟨congrArg (fun r => r.2.1) (Except.ok.inj h), congrArg (fun r => r.2.2) (Except.ok.inj h)⟩
    rw [hsame.1, hsame.2] at hparse
    obtain ⟨p, hpos, hm, hle, hlen, hn⟩ := xreadParse_pos c _ hparse
    have hargc : 0 < argv.length := List.length_pos_of_ne_nil hargv
    rw [length_drop] at hlen
    have hnum : argv.length - p - 1 = 2 * n := by omega
    unfold xreadGetKeys xreadKeys
    rw [hpos]
    dsimp only
    rw [hnum, if_neg (by omega), Nat.mul_div_cancel_left n (by norm_num), hm]

def sortWalk (args : List Bytes) (i : ℕ) : List ℕ :=
  match args with
  | [] => []
  | a :: rest =>
    match scanArg a (!rest.isEmpty) skiplist with
    | .skip n => i :: sortWalk (rest.drop n) (i + n + 1)
    | _ => i :: sortWalk rest (i + 1)
termination_by args.length
decreasing_by all_goals simp only [length_cons, length_drop]; omega

def isStore (argv : List Bytes) (p : ℕ) : Bool :=
  sameCaseless (arg argv p) (text "store") && decide (p + 1 < argv.length)

inductive SortArgs : List Bytes → List Bytes → Prop where
  | nil : SortArgs [] []
  | flag {a : Bytes} {rest ds : List Bytes} (h : (sameCaseless a (text "asc") ||
      sameCaseless a (text "desc") || sameCaseless a (text "alpha")) = true) (hrest : SortArgs rest ds) :
      SortArgs (a :: rest) ds
  | limit {a start count : Bytes} {rest ds : List Bytes} (h : sameCaseless a (text "limit") = true)
      (hrest : SortArgs rest ds) : SortArgs (a :: start :: count :: rest) ds
  | store {a dst : Bytes} {rest ds : List Bytes} (h : sameCaseless a (text "store") = true)
      (hrest : SortArgs rest ds) : SortArgs (a :: dst :: rest) (dst :: ds)
  | pattern {a v : Bytes} {rest ds : List Bytes} (s : String) (hs : s = "by" ∨ s = "get")
      (h : sameCaseless a (text s) = true) (hrest : SortArgs rest ds) : SortArgs (a :: v :: rest) ds

def namesOption (dst : Bytes) : Bool :=
  sameCaseless dst (text "limit") || sameCaseless dst (text "get") || sameCaseless dst (text "by") ||
    sameCaseless dst (text "store")

/-- The scan comes by the last STORE option as an option, and by no argument of that name behind. -/
def InStep (argv : List Bytes) : Prop :=
  ∀ key, sortStore (argv.drop 2) 2 none = some key → key - 1 ∈ sortWalk (argv.drop 2) 2 ∧
    ∀ q ∈ sortWalk (argv.drop 2) 2, key ≤ q → isStore argv q = false

section

variable {a : Bytes}

theorem scanArg_eq (a : Bytes) (more : Bool) : scanArg a more skiplist =
    if sameCaseless a (text "limit") then .skip 2
    else if sameCaseless a (text "store") && more then .store
    else if sameCaseless a (text "get") then .skip 1
    else if sameCaseless a (text "by") then .skip 1
    else .other := by
  unfold skiplist scanArg scanArg scanArg scanArg
  split_ifs <;> rfl

theorem scanArg_store {more : Bool} :
    scanArg a more skiplist = .store ↔ (sameCaseless a (text "store") && more) = true := by
  rw [scanArg_eq]
  constructor
  · intro h
    split_ifs at h with hlimit hstore
    exact hstore
  · intro h
    have hstore := (Bool.and_eq_true_iff.mp h).1
    have hlimit : sameCaseless (text "store") (text "limit") = false := by decide
    rw [sameCaseless_of hstore "limit", hlimit, if_neg Bool.false_ne_true, if_pos h]

theorem scanArg_other (h : namesOption a = false) (more : Bool) : scanArg a more skiplist = .other := by
  unfold namesOption at h
  simp only [Bool.or_eq_false_iff] at h
  obtain ⟨⟨⟨hlimit, hget⟩, hby⟩, hstore⟩ := h
  rw [scanArg_eq, hlimit, hget, hby, hstore, Bool.false_and]
  rfl

theorem namesOption_flag (h : (sameCaseless a (text "asc") || sameCaseless a (text "desc") ||
    sameCaseless a (text "alpha")) = true) : namesOption a = false := by
  unfold namesOption
  rcases Bool.or_eq_true_iff.mp h with h | h
  · rcases Bool.or_eq_true_iff.mp h with h | h
    · rw [sameCaseless_of h, sameCaseless_of h, sameCaseless_of h, sameCaseless_of h]
      decide
    · rw [sameCaseless_of h, sameCaseless_of h, sameCaseless_of h, sameCaseless_of h]
      decide
  · rw [sameCaseless_of h, sameCaseless_of h, sameCaseless_of h, sameCaseless_of h]
    decide

end

theorem drop_cons {argv : List Bytes} {i : ℕ} {a : Bytes} {rest : List Bytes}
    (h : a :: rest = argv.drop i) :
    arg argv i = a ∧ rest = argv.drop (i + 1) ∧ ((!rest.isEmpty) = true ↔ i + 1 < argv.length) := by
  have hrest : rest = argv.drop (i + 1) := by
    rw [← List.drop_drop, ← h, drop_one, List.tail_cons]
  refine ⟨?_, hrest, ?_⟩
  · have hget := congrArg (fun l => l.getD 0 []) h
    simp only [List.getD_eq_getElem?_getD, List.getElem?_drop, Nat.add_zero] at hget
    unfold arg
    rw [List.getD_eq_getElem?_getD]
    exact hget.symm
  · rw [hrest, Bool.not_eq_true', List.isEmpty_eq_false_iff, ne_eq, List.drop_eq_nil_iff, not_le]

theorem isStore_iff {argv : List Bytes} {i : ℕ} {a : Bytes} {rest : List Bytes}
    (h : a :: rest = argv.drop i) :
    isStore argv i = true ↔ scanArg a (!rest.isEmpty) skiplist = .store := by
  obtain ⟨ha, -, hmore⟩ := drop_cons h
  unfold isStore
  rw [scanArg_store, ha, Bool.and_eq_true_iff, Bool.and_eq_true_iff, hmore, decide_eq_true_eq]

theorem sortScan_eq (argv : List Bytes) (args : List Bytes) (i : ℕ) (key : Option ℕ) :
    args = argv.drop i → sortScan args i key =
      (((sortWalk args i).filter (isStore argv)).getLast?.map (· + 1)).or key := by
  fun_induction sortScan args i key with
  | case1 i key =>
    intro _
    rw [sortWalk]
    rfl
  | case2 i key a rest n hscan ih =>
    intro h
    obtain ⟨-, hrest, -⟩ := drop_cons h
    have hnot : isStore argv i = false := by
      rw [Bool.eq_false_iff, ne_eq, isStore_iff h, hscan]
      exact fun hne => by cases hne
    have hdrop : rest.drop n = argv.drop (i + n + 1) := by
      rw [hrest, List.drop_drop]
      congr 1
      omega
    rw [ih hdrop, sortWalk, hscan]
    simp only [filter_cons, hnot, Bool.false_eq_true, if_false]
  | case3 i key a rest hscan ih =>
    intro h
    obtain ⟨-, hrest, -⟩ := drop_cons h
    have hstore := (isStore_iff h).mpr hscan
    rw [ih hrest, sortWalk, hscan]
    simp only [filter_cons, hstore, if_true, List.getLast?_cons]
    cases ((sortWalk rest (i + 1)).filter (isStore argv)).getLast? with
    | none => rfl
    | some p => rfl
  | case4 i key a rest hscan ih =>
    intro h
    obtain ⟨-, hrest, -⟩ := drop_cons h
    have hnot : isStore argv i = false := by
      rw [Bool.eq_false_iff, ne_eq, isStore_iff h, hscan]
      exact fun hne => by cases hne
    rw [ih hrest, sortWalk, hscan]
    simp only [filter_cons, hnot, Bool.false_eq_true, if_false]

theorem sortWalk_sorted (args : List Bytes) (i : ℕ) :
    (sortWalk args i).Pairwise (· < ·) ∧ ∀ p ∈ sortWalk args i, i ≤ p := by
  fun_induction sortWalk args i with
  | case1 i => exact ⟨List.Pairwise.nil, fun p hp => absurd hp List.not_mem_nil⟩
  | case2 i a rest n hscan ih =>
    refine ⟨List.pairwise_cons.mpr ⟨fun p hp => ?_, ih.1⟩, fun p hp => ?_⟩
    · have hle := ih.2 p hp
      omega
    · rcases mem_cons.mp hp with hp | hp
      · exact hp.ge
      · have hle := ih.2 p hp
        omega
  | case3 i a rest hscan ih =>
    refine ⟨List.pairwise_cons.mpr ⟨fun p hp => ?_, ih.1⟩, fun p hp => ?_⟩
    · have hle := ih.2 p hp
      omega
    · rcases mem_cons.mp hp with hp | hp
      · exact hp.ge
      · have hle := ih.2 p hp
        omega

theorem getLast?_filter_iff {l : List ℕ} (hl : l.Pairwise (· < ·)) {P : ℕ → Bool} {p : ℕ} :
    (l.filter P).getLast? = some p ↔ p ∈ l ∧ P p = true ∧ ∀ q ∈ l, p < q → P q = false := by
  have hsorted := hl.filter P
  have hlast : ∀ {m}, (l.filter P).getLast? = some m → (m ∈ l ∧ P m = true) ∧ ∀ q ∈ l.filter P, q ≤ m := by
    intro m hm
    obtain ⟨l', hl'⟩ := List.getLast?_eq_some_iff.mp hm
    rw [hl'] at hsorted
    refine ⟨mem_filter.mp (by rw [hl']; exact List.mem_append_right _ mem_cons_self), ?_⟩
    intro q hq
    rw [hl'] at hq
    rcases List.mem_append.mp hq with hq | hq
    · exact ((List.pairwise_append.mp hsorted).2.2 q hq m mem_cons_self).le
    · exact (List.mem_singleton.mp hq).le
  constructor
  · intro h
    obtain ⟨⟨hmem, hp⟩, hmax⟩ := hlast h
    refine ⟨hmem, hp, ?_⟩
    intro q hq hlt
    by_contra hP
    have hle := hmax q (mem_filter.mpr ⟨hq, Bool.not_eq_false _ ▸ hP⟩)
    omega
  · intro ⟨hmem, hp, hmax⟩
    have hfilter : p ∈ l.filter P := mem_filter.mpr ⟨hmem, hp⟩
    obtain ⟨m, hm⟩ := Option.isSome_iff_exists.mp
      (List.getLast?_isSome.mpr (List.ne_nil_of_mem hfilter))
    obtain ⟨⟨hmem', hm'⟩, hle⟩ := hlast hm
    rw [hm]
    by_contra hne
    have hlt : p < m := lt_of_le_of_ne (hle p hfilter) (fun h => hne (by rw [h]))
    rw [hmax m hmem' hlt] at hm'
    cases hm'

section

variable {a : Bytes} {rest : List Bytes} {j : ℕ} {key : Option ℕ}

theorem sortStore_flag (h : (sameCaseless a (text "asc") || sameCaseless a (text "desc") ||
    sameCaseless a (text "alpha")) = true) : sortStore (a :: rest) j key = sortStore rest (j + 1) key := by
  rw [sortStore, if_pos h]

theorem not_flag {s : String} (h : sameCaseless a (text s) = true)
    (hs : s = "limit" ∨ s = "store" ∨ s = "by" ∨ s = "get") :
    (sameCaseless a (text "asc") || sameCaseless a (text "desc") ||
      sameCaseless a (text "alpha")) = false := by
  rw [sameCaseless_of h, sameCaseless_of h, sameCaseless_of h]
  rcases hs with rfl | rfl | rfl | rfl <;> decide

theorem sortStore_limit (h : sameCaseless a (text "limit") = true) :
    sortStore (a :: rest) j key = sortStore (rest.drop 2) (j + 3) key := by
  rw [sortStore, not_flag h (Or.inl rfl), if_neg Bool.false_ne_true, if_pos h]

theorem sortStore_store (h : sameCaseless a (text "store") = true) :
    sortStore (a :: rest) j key = sortStore (rest.drop 1) (j + 2) (some (j + 1)) := by
  have hlimit : sameCaseless (text "store") (text "limit") = false := by decide
  rw [sortStore, not_flag h (Or.inr (Or.inl rfl)), if_neg Bool.false_ne_true, sameCaseless_of h "limit",
    hlimit, if_neg Bool.false_ne_true, if_pos h]

theorem sortStore_pattern {s : String} (h : sameCaseless a (text s) = true) (hs : s = "by" ∨ s = "get") :
    sortStore (a :: rest) j key = sortStore (rest.drop 1) (j + 2) key := by
  rw [sortStore, not_flag h (Or.inr (Or.inr hs)), if_neg Bool.false_ne_true, sameCaseless_of h "limit",
    sameCaseless_of h "store"]
  rcases hs with rfl | rfl
  · rw [if_neg (by decide), if_neg (by decide)]
  · rw [if_neg (by decide), if_neg (by decide)]

end

theorem parse_sortArgs (cfg : ServerConfig) (args : List Bytes) (o : SortOptions) :
    ∀ {o' : SortOptions}, parseSortOptions cfg args o = .ok o' →
      ∃ ds, SortArgs args ds ∧ o'.storekey = ds.getLast?.or o.storekey := by
  fun_induction parseSortOptions cfg args o with
  | case1 o =>
    intro o' h
    rw [← Except.ok.inj h]
    exact ⟨[], .nil, rfl⟩
  | case2 a rest o hname ih =>
    intro o' h
    obtain ⟨ds, hargs, hkey⟩ := ih h
    exact ⟨ds, .flag (by rw [hname]; rfl) hargs, hkey⟩
  | case3 a rest o _ hname ih =>
    intro o' h
    obtain ⟨ds, hargs, hkey⟩ := ih h
    exact ⟨ds, .flag (by rw [hname, Bool.or_true]; rfl) hargs, hkey⟩
  | case4 a rest o _ _ hname ih =>
    intro o' h
    obtain ⟨ds, hargs, hkey⟩ := ih h
    exact ⟨ds, .flag (by rw [hname, Bool.or_true]) hargs, hkey⟩
  | case9 a o _ _ _ b hname c rest start count _ _ ih =>
    intro o' h
    obtain ⟨ds, hargs, hkey⟩ := ih h
    exact ⟨ds, .limit hname hargs, hkey⟩
  | case10 a o _ _ _ dst rest _ hname ih =>
    intro o' h
    obtain ⟨ds, hargs, hkey⟩ := ih h
    refine ⟨dst :: ds, .store hname hargs, ?_⟩
    rw [hkey, List.getLast?_cons]
    cases ds.getLast? <;> rfl
  | case11 a o _ _ _ v rest _ _ hname _ ih =>
    intro o' h
    obtain ⟨ds, hargs, hkey⟩ := ih h
    exact ⟨ds, .pattern "by" (Or.inl rfl) hname hargs, hkey⟩
  | case13 a o _ _ _ v rest _ _ hname _ _ ih =>
    intro o' h
    obtain ⟨ds, hargs, hkey⟩ := ih h
    exact ⟨ds, .pattern "by" (Or.inl rfl) hname hargs, hkey⟩
  | case15 a o _ _ _ v rest _ _ _ hname _ ih =>
    intro o' h
    obtain ⟨ds, hargs, hkey⟩ := ih h
    exact ⟨ds, .pattern "get" (Or.inr rfl) hname hargs, hkey⟩
  | _ =>
    intro o' h
    cases h

theorem sortScan_inStep {args ds : List Bytes} (h : SortArgs args ds)
    (hplain : ∀ dst ∈ ds, namesOption dst = false) :
    ∀ (i : ℕ) (key : Option ℕ), sortScan args i key = sortStore args i key := by
  induction h with
  | nil =>
    intro i key
    rw [sortScan, sortStore]
  | flag h _ ih =>
    intro i key
    rw [sortScan, scanArg_other (namesOption_flag h), sortStore_flag h]
    exact ih hplain (i + 1) key
  | limit h _ ih =>
    intro i key
    rw [sortScan, scanArg_eq, if_pos h, sortStore_limit h]
    exact ih hplain (i + 3) key
  | store h _ ih =>
    intro i key
    have hdst := hplain _ mem_cons_self
    have hstore : scanArg _ (!false) skiplist = .store := scanArg_store.2 (by rw [h]; rfl)
    rw [sortScan, sortStore_store h, List.isEmpty_cons, hstore]
    dsimp only
    rw [sortScan, scanArg_other hdst]
    exact ih (fun dst hmem => hplain dst (List.mem_cons_of_mem _ hmem)) (i + 2) (some (i + 1))
  | @pattern a _ _ _ s hs h _ ih =>
    intro i key
    have hskip : ∀ more, scanArg a more skiplist = .skip 1 := by
      intro more
      rw [scanArg_eq, sameCaseless_of h "limit", sameCaseless_of h "store", sameCaseless_of h "get",
        sameCaseless_of h "by"]
      rcases hs with rfl | rfl <;> rfl
    rw [sortScan, hskip, sortStore_pattern h hs]
    exact ih hplain (i + 2) key

theorem sortStore_spec {argv args ds : List Bytes} (h : SortArgs args ds) :
    ∀ {i : ℕ} {key : Option ℕ}, args = argv.drop i →
      (sortStore args i key).map (arg argv) = ds.getLast?.or (key.map (arg argv)) ∧
      (sortStore args i key = key ∨
        ∃ p, sortStore args i key = some (p + 1) ∧ isStore argv p = true) ∧
      (sortStore args i none = none → ds = []) := by
  induction h with
  | nil =>
    intro i key _
    rw [sortStore, sortStore]
    exact ⟨rfl, Or.inl rfl, fun _ => rfl⟩
  | flag h _ ih =>
    intro i key hargs
    obtain ⟨-, hrest, -⟩ := drop_cons hargs
    rw [sortStore_flag h, sortStore_flag h]
    exact ih hrest
  | limit h _ ih =>
    intro i key hargs
    obtain ⟨-, hstart, -⟩ := drop_cons hargs
    obtain ⟨-, hcount, -⟩ := drop_cons hstart
    obtain ⟨-, hrest, -⟩ := drop_cons hcount
    rw [sortStore_limit h, sortStore_limit h]
    exact ih hrest
  | store h _ ih =>
    intro i key hargs
    obtain ⟨ha, hdst, hmore⟩ := drop_cons hargs
    obtain ⟨hval, hrest, -⟩ := drop_cons hdst
    obtain ⟨hmap, hlast, -⟩ := @ih (i + 2) (some (i + 1)) hrest
    rw [sortStore_store h, sortStore_store h, drop_one, List.tail_cons]
    have hstore : isStore argv i = true := by
      rw [isStore_iff hargs, scanArg_store, h]
      rfl
    refine ⟨?_, ?_, ?_⟩
    · rw [hmap, List.getLast?_cons, Option.map_some, hval]
      cases List.getLast? _ <;> rfl
    · right
      rcases hlast with hlast | ⟨p, hp, hstore'⟩
      · exact ⟨i, hlast, hstore⟩
      · exact ⟨p, hp, hstore'⟩
    · intro hnone
      rcases hlast with hlast | ⟨p, hp, -⟩
      · rw [hlast] at hnone
        cases hnone
      · rw [hp] at hnone
        cases hnone
  | pattern s hs h _ ih =>
    intro i key hargs
    obtain ⟨-, hv, -⟩ := drop_cons hargs
    obtain ⟨-, hrest, -⟩ := drop_cons hv
    rw [sortStore_pattern h hs, sortStore_pattern h hs]
    exact ih hrest

theorem inStep_iff {argv ds : List Bytes} (h : SortArgs (argv.drop 2) ds) :
    sortGetKeys argv = sortKeys argv ↔ InStep argv := by
  obtain ⟨-, hlast, hnone⟩ := @sortStore_spec argv _ _ h 2 none rfl
  have hscan := sortScan_eq argv (argv.drop 2) 2 none rfl
  rw [Option.or_none] at hscan
  have hsorted := (sortWalk_sorted (argv.drop 2) 2).1
  have hkeys : sortGetKeys argv = sortKeys argv ↔
      sortScan (argv.drop 2) 2 none = sortStore (argv.drop 2) 2 none := by
    unfold sortGetKeys sortKeys
    rw [List.cons_inj_right]
    cases sortScan (argv.drop 2) 2 none <;> cases sortStore (argv.drop 2) 2 none <;>
      simp only [Option.toList_none, Option.toList_some, List.cons.injEq, and_true, Option.some_inj,
        reduceCtorEq]
  rw [hkeys]
  unfold InStep
  rcases hlast with hlast | ⟨p, hp, hstore⟩
  · -- no STORE at all: the scan never loses its step
    have hplain := sortScan_inStep h (by rw [hnone hlast]; exact fun _ hd => absurd hd List.not_mem_nil) 2 none
    rw [hplain, hlast]
    constructor
    · intro _ key hkey
      cases hkey
    · intro _
      rfl
  · rw [hp, hscan]
    have hiff := @getLast?_filter_iff _ hsorted (isStore argv) p
    constructor
    · intro heq key hkey
      have hsome : ((sortWalk (argv.drop 2) 2).filter (isStore argv)).getLast? = some p := by
        cases hl : ((sortWalk (argv.drop 2) 2).filter (isStore argv)).getLast? with
        | none =>
          rw [hl] at heq
          cases heq
        | some m =>
          rw [hl, Option.map_some, Option.some_inj] at heq
          rw [Nat.succ_injective heq]
      obtain ⟨hmem, -, hmax⟩ := hiff.mp hsome
      rw [← Option.some.inj hkey, Nat.add_sub_cancel]
      exact ⟨hmem, fun q hq hle => hmax q hq hle⟩
    · intro hstep
      obtain ⟨hmem, hmax⟩ := hstep (p + 1) rfl
      rw [Nat.add_sub_cancel] at hmem
      rw [hiff.mpr ⟨hmem, hstore, fun q hq hlt => hmax q hq hlt⟩, Option.map_some]

/-- The keys that `ACLCheckCommandPerm` compares with the patterns of a user: the position of the
first one that is denied. -/
def aclDeniedKey (stringmatch : Bytes → Bytes → Bool) (patterns argv : List Bytes) (keys : List ℕ) :
    Option ℕ :=
  keys.find? (fun idx => !patterns.any (fun pattern => stringmatch pattern (arg argv idx)))

theorem acl_checks_sort {stringmatch : Bytes → Bytes → Bool} {patterns argv ds : List Bytes}
    (hargs : SortArgs (argv.drop 2) ds) (hstep : InStep argv)
    (hacl : aclDeniedKey stringmatch patterns argv (sortGetKeys argv) = none) :
    ∀ idx ∈ sortKeys argv, ∃ pattern ∈ patterns, stringmatch pattern (arg argv idx) = true := by
  intro idx hidx
  rw [← (inStep_iff hargs).mpr hstep] at hidx
  have hallowed := List.find?_eq_none.mp hacl idx hidx
  rw [Bool.not_eq_true', Bool.not_eq_false, List.any_eq_true] at hallowed
  exact hallowed

/-- The scan of the arguments finds the keys that the commands use: for SORT if and only if it is in
step with the parser, as it is when no destination has the name of an option, and always for XREAD. -/
theorem getKeys_agree (cfg : ServerConfig) (c : XreadCall) :
    (∀ (argv : List Bytes) (o : SortOptions),
      parseSortOptions cfg (argv.drop 2) sortDefaults = .ok o →
      ∃ ds, SortArgs (argv.drop 2) ds ∧ o.storekey = ds.getLast? ∧
        o.storekey = (sortStore (argv.drop 2) 2 none).map (arg argv) ∧
        (sortGetKeys argv = sortKeys argv ↔ InStep argv) ∧
        ((∀ dst ∈ ds, namesOption dst = false) → InStep argv)) ∧
    ∀ (argv : List Bytes) (o : XreadOptions) (streamsArg streamsCount : ℕ), argv ≠ [] →
      xreadOptions c argv = .ok (o, streamsArg, streamsCount) →
      xreadGetKeys argv = xreadKeys streamsArg streamsCount := by
  constructor
  · intro argv o hparse
    obtain ⟨ds, hargs, hkey⟩ := parse_sortArgs cfg (argv.drop 2) sortDefaults hparse
    have hstorekey : o.storekey = ds.getLast? := hkey.trans Option.or_none
    have hiff := inStep_iff hargs
    refine ⟨ds, hargs, hstorekey, ?_, hiff, ?_⟩
    · rw [(@sortStore_spec argv _ _ hargs 2 none rfl).1, Option.map_none, Option.or_none]
      exact hstorekey
    · intro hplain
      apply hiff.mp
      unfold sortGetKeys sortKeys
      rw [sortScan_inStep hargs hplain 2 none]
  · intro argv o streamsArg streamsCount hargv hparse
    exact xreadGetKeys_eq hargv hparse

theorem getKeys_agree_plain :
    sortGetKeys [text "SORT", text "src", text "ALPHA", text "STORE", text "dst"] =
        sortKeys [text "SORT", text "src", text "ALPHA", text "STORE", text "dst"] ∧
      xreadGetKeys [text "XREAD", text "BLOCK", text "10", text "STREAMS", text "s", text "t", text "0",
        text "0"] = xreadKeys 4 2 := by
  obtain ⟨hsort, hxread⟩ := getKeys_agree plainConfig
    { name := text "XREAD", lua := false, mstime := 5 }
  have hparse : parseSortOptions plainConfig [text "ALPHA", text "STORE", text "dst"] sortDefaults =
      .ok { sortDefaults with alpha := true, storekey := some (text "dst") } := by decide
  obtain ⟨ds, -, -, -, hiff, -⟩ :=
    hsort [text "SORT", text "src", text "ALPHA", text "STORE", text "dst"] _ hparse
  constructor
  · apply hiff.mpr
    intro key hkey
    have hfive : sortStore [text "ALPHA", text "STORE", text "dst"] 2 none = some 4 := by decide +kernel
    rw [← Option.some.inj (hfive.symm.trans hkey)]
    decide +kernel
  · exact hxread _ { timeout := 15, count := 0, noack := false, group := none } 4 2
      (List.cons_ne_nil _ _) (by decide +kernel)

/-- A destination named `get` makes the scan skip the next STORE. -/
theorem sortGetKeys_misses_destination :
    parseSortOptions plainConfig [text "STORE", text "get", text "STORE", text "dst"] sortDefaults =
        .ok { sortDefaults with storekey := some (text "dst") } ∧
      sortKeys [text "SORT", text "src", text "STORE", text "get", text "STORE", text "dst"] = [1, 5] ∧
      sortGetKeys [text "SORT", text "src", text "STORE", text "get", text "STORE", text "dst"] =
        [1, 3] := by
  refine ⟨?_, ?_, ?_⟩ <;> decide +kernel

end RedisCore.KeyExtraction
