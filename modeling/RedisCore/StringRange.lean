import RedisCore.CollectionModel

namespace RedisCore.Collection
open List (length_map)

inductive StringObject where
  | raw (s : {s : Bytes // s.length < 2^63})
  | int (v : Int64)

inductive RangeObject where
  | string (o : StringObject)
  | list (es : {es : List Bytes // es.length < 2^63})
  | other

def contents : StringObject → Bytes
  | .raw s => s.val
  | .int v => decimal v.toInt

def getrange (str : Bytes) (start stop : ℤ) : Bytes :=
  let strlen : ℤ := str.length
  if start < 0 ∧ stop < 0 ∧ stop < start then []
  else
    let start := if start < 0 then toLong (strlen+start) else start
    let stop := if stop < 0 then toLong (strlen+stop) else stop
    let start := if start < 0 then 0 else start
    let stop := if stop < 0 then 0 else stop
    -- The comparison is unsigned, and on the empty string the last index is -1.
    let stop := if strlen ≤ stop then toLong (strlen-1) else stop
    if stop < start ∨ strlen = 0 then []
    else (str.drop start.toNat).take (toLong (toLong (stop-start)+1)).toNat

def getrangeCommand (o : Option RangeObject) (argv : List Bytes) : Reply :=
  match getLongFromObjectOrReply (arg argv 2), getLongFromObjectOrReply (arg argv 3) with
  | .error e, _ => e
  | .ok _, .error e => e
  | .ok start, .ok stop =>
    match o with
    | none => .bulk []
    | some (.string o) => .bulk (getrange (contents o) start stop)
    | some _ => wrongtypeerr

def lrange (es : List Bytes) (start stop : ℤ) : List Bytes :=
  let llen : ℤ := es.length
  let start := if start < 0 then toLong (llen+start) else start
  let stop := if stop < 0 then toLong (llen+stop) else stop
  let start := if start < 0 then 0 else start
  if stop < start ∨ llen ≤ start then []
  else
    let stop := if llen ≤ stop then toLong (llen-1) else stop
    (es.drop start.toNat).take (toLong (toLong (stop-start)+1)).toNat

def lrangeCommand (o : Option RangeObject) (argv : List Bytes) : Reply :=
  match getLongFromObjectOrReply (arg argv 2), getLongFromObjectOrReply (arg argv 3) with
  | .error e, _ => e
  | .ok _, .error e => e
  | .ok start, .ok stop =>
    match o with
    | none => .array []
    | some (.list es) => .array ((lrange es.val start stop).map some)
    | some _ => wrongtypeerr

def fromEnd (n : ℕ) (i : ℤ) : ℤ := if i < 0 then n+i else i

def designated {α : Type} (xs : List α) (start stop : ℤ) : List α :=
  (xs.zipIdx.filter fun p => fromEnd xs.length start ≤ p.2 ∧ (p.2 : ℤ) ≤ fromEnd xs.length stop).map
    Prod.fst

theorem filter_zipIdx {α : Type} (s e : ℤ) : ∀ (xs : List α) (k : ℕ),
    ((xs.zipIdx k).filter fun p => s ≤ p.2 ∧ (p.2 : ℤ) ≤ e).map Prod.fst =
      (xs.take (e+1-k).toNat).drop (s-k).toNat := by
  intro xs
  induction xs with
  | nil => simp
  | cons x xs ih =>
    intro k
    have ht : (e+1-k).toNat = 0 ∨ (e+1-k).toNat = (e+1-(k+1 : ℕ)).toNat+1 := by omega
    have hd : (s-k).toNat = 0 ∧ (s-(k+1 : ℕ)).toNat = 0 ∨
        (s-k).toNat = (s-(k+1 : ℕ)).toNat+1 := by omega
    rw [List.zipIdx_cons, List.filter_cons]
    by_cases hx : s ≤ (k : ℤ) ∧ (k : ℤ) ≤ e
    · have h1 : (e+1-k).toNat = (e+1-(k+1 : ℕ)).toNat+1 := by omega
      have h2 : (s-k).toNat = 0 ∧ (s-(k+1 : ℕ)).toNat = 0 := by omega
      rw [if_pos (by simpa using hx), List.map_cons, ih, h1, h2.1, h2.2]
      simp
    · rw [if_neg (by simpa using hx), ih]
      rcases ht with h1 | h1
      · rw [h1, show (e+1-(k+1 : ℕ)).toNat = 0 by omega]
        simp
      · rcases hd with h2 | h2
        · omega
        · rw [h1, h2, List.take_succ_cons, List.drop_succ_cons]

theorem designated_eq {α : Type} (xs : List α) (start stop : ℤ) : designated xs start stop =
    (xs.drop (fromEnd xs.length start).toNat).take
      ((fromEnd xs.length stop+1).toNat-(fromEnd xs.length start).toNat) := by
  have h := filter_zipIdx (fromEnd xs.length start) (fromEnd xs.length stop) xs 0
  rw [designated, h, List.drop_take]
  simp

theorem take_count {α : Type} {xs : List α} {s e c : ℤ} (hn : xs.length < 2^63) (hs : 0 ≤ s)
    (hc : c = if (xs.length : ℤ) ≤ e then toLong (xs.length-1) else e) (hsc : s ≤ c) :
    (xs.drop s.toNat).take (toLong (toLong (c-s)+1)).toNat =
      (xs.drop s.toNat).take ((e+1).toNat-s.toNat) := by
  have hlen : (xs.drop s.toNat).length = xs.length-s.toNat := List.length_drop
  rw [toLong_of_fits (n := xs.length-1) (by omega) (by omega)] at hc
  have hcount : toLong (toLong (c-s)+1) = c-s+1 := by
    split at hc
    · rw [toLong_of_fits (n := c-s) (by omega) (by omega)]
      exact toLong_of_fits (by omega) (by omega)
    · rw [toLong_of_fits (n := c-s) (by omega) (by omega)]
      exact toLong_of_fits (by omega) (by omega)
  rw [hcount]
  split at hc
  · -- Both counts reach the end of the list.
    rw [List.take_of_length_le (by omega), List.take_of_length_le (by omega)]
  · exact congrArg (fun n => (xs.drop s.toNat).take n) (by omega)

section
variable {start stop : ℤ} (hs : -2^63 ≤ start ∧ start < 2^63) (he : -2^63 ≤ stop ∧ stop < 2^63)

theorem fromEnd_of_toLong {n : ℕ} (hn : n < 2^63) (hs : -2^63 ≤ start ∧ start < 2^63) :
    (if start < 0 then toLong (n+start) else start) = fromEnd n start := by
  unfold fromEnd
  split
  · exact toLong_of_fits (by omega) (by omega)
  · rfl

include hs he

theorem lrange_designated {es : List Bytes} (hn : es.length < 2^63) :
    lrange es start stop = designated es start stop := by
  rw [designated_eq, lrange]
  dsimp only
  rw [fromEnd_of_toLong hn hs, fromEnd_of_toLong hn he]
  generalize fromEnd es.length start = s
  generalize fromEnd es.length stop = e
  have hz : (if s < 0 then 0 else s).toNat = s.toNat := by split <;> omega
  by_cases hempty : e < (if s < 0 then 0 else s) ∨ (es.length : ℤ) ≤ (if s < 0 then 0 else s)
  · rw [if_pos hempty]
    rcases hempty with h | h
    · rw [show (e+1).toNat-s.toNat = 0 by split at h <;> omega, List.take_zero]
    · rw [List.drop_eq_nil_of_le (by omega), List.take_nil]
  · rw [if_neg hempty, ← hz]
    refine take_count hn (by split <;> omega) rfl ?_
    rw [toLong_of_fits (n := es.length-1) (by omega) (by omega)]
    omega

theorem getrange_designated_iff {str : Bytes} (hn : str.length < 2^63) :
    getrange str start stop = designated str start stop ↔
      ¬(str ≠ [] ∧ str.length+stop < 0 ∧ (start = 0 ∨ start ≤ stop)) := by
  have hz : str ≠ [] ↔ 0 < str.length := List.length_pos_iff.symm
  rw [designated_eq, getrange, hz]
  dsimp only
  by_cases hguard : start < 0 ∧ stop < 0 ∧ stop < start
  · have hs' : fromEnd str.length start = str.length+start := if_pos hguard.1
    have he' : fromEnd str.length stop = str.length+stop := if_pos hguard.2.1
    rw [if_pos hguard, hs', he', show (str.length+stop+1).toNat-(str.length+start).toNat = 0 by omega,
      List.take_zero]
    exact iff_of_true rfl (by omega)
  rw [if_neg hguard, fromEnd_of_toLong hn hs, fromEnd_of_toLong hn he]
  have hs' : fromEnd str.length start = if start < 0 then str.length+start else start := rfl
  have he' : fromEnd str.length stop = if stop < 0 then str.length+stop else stop := rfl
  generalize fromEnd str.length start = s at hs' ⊢
  generalize fromEnd str.length stop = e at he' ⊢
  by_cases hneg : e < 0
  · -- The end is moved onto the first byte.
    rw [if_pos hneg, show (e+1).toNat-s.toNat = 0 by omega, List.take_zero]
    by_cases hempty : str.length = 0 ∨ 0 < s
    · rw [if_pos (by split <;> split <;> omega)]
      exact iff_of_true rfl (by split at hs' <;> omega)
    · have hzero : (if s < 0 then 0 else s) = 0 := by split <;> omega
      rw [hzero, if_neg (show ¬((str.length : ℤ) ≤ 0) by omega), if_neg (by omega)]
      refine iff_of_false ?_ (by split at hs' <;> split at he' <;> omega)
      apply List.ne_nil_of_length_pos
      simp only [List.length_take, List.length_drop]
      have h1 : toLong (toLong (0-0)+1) = 1 := by decide
      rw [h1]
      omega
  · rw [if_neg hneg]
    refine iff_of_true ?_ (by split at he' <;> omega)
    have hz : (if s < 0 then 0 else s).toNat = s.toNat := by split <;> omega
    by_cases hempty : (if (str.length : ℤ) ≤ e then toLong (str.length-1) else e) <
        (if s < 0 then 0 else s) ∨ (str.length : ℤ) = 0
    · rw [if_pos hempty]
      rw [toLong_of_fits (n := str.length-1) (by omega) (by omega)] at hempty
      by_cases hbehind : str.length ≤ s.toNat
      · rw [List.drop_eq_nil_of_le hbehind, List.take_nil]
      · rw [show (e+1).toNat-s.toNat = 0 by split at hempty <;> omega, List.take_zero]
    · rw [if_neg hempty, ← hz]
      exact take_count hn (by split <;> omega) rfl (by omega)

end

theorem contents_length (o : StringObject) : (contents o).length < 2^63 := by
  cases o with
  | raw s => exact s.property
  | int v =>
    have h := decimal_length v.le_toInt v.toInt_lt
    change (decimal v.toInt).length < 2^63
    omega

def byteList (o : StringObject) : {es : List Bytes // es.length < 2^63} :=
  ⟨(contents o).map fun b => [b], by rw [length_map]; exact contents_length o⟩

def GetrangeExact (o : StringObject) (k : Bytes) (start stop : Int64) : Prop :=
  ∃ bs, getrangeCommand (some (.string o))
      [text "getrange", k, decimal start.toInt, decimal stop.toInt] = .bulk bs ∧
    bs = designated (contents o) start.toInt stop.toInt ∧
    lrangeCommand (some (.list (byteList o)))
      [text "lrange", k, decimal start.toInt, decimal stop.toInt] = .array (bs.map fun b => some [b])

theorem getrangeCommand_string (o : StringObject) (c k : Bytes) (start stop : Int64) :
    getrangeCommand (some (.string o)) [c, k, decimal start.toInt, decimal stop.toInt] =
      .bulk (getrange (contents o) start.toInt stop.toInt) := by
  simp [getrangeCommand, getLongFromObjectOrReply, arg,
    string2ll_decimal start.le_toInt start.toInt_lt, string2ll_decimal stop.le_toInt stop.toInt_lt]

theorem lrangeCommand_bytes (o : StringObject) (c k : Bytes) (start stop : Int64) :
    lrangeCommand (some (.list (byteList o))) [c, k, decimal start.toInt, decimal stop.toInt] =
      .array ((designated (contents o) start.toInt stop.toInt).map fun b => some [b]) := by
  have h := lrange_designated ⟨start.le_toInt, start.toInt_lt⟩ ⟨stop.le_toInt, stop.toInt_lt⟩
    (byteList o).property
  change lrange ((contents o).map fun b => [b]) _ _ = designated ((contents o).map fun b => [b]) _ _ at h
  rw [designated_eq, length_map] at h
  simp [lrangeCommand, getLongFromObjectOrReply, arg, h, designated_eq, byteList, Function.comp_def,
    string2ll_decimal start.le_toInt start.toInt_lt, string2ll_decimal stop.le_toInt stop.toInt_lt]

/-- GETRANGE is exact, and agrees with LRANGE, but for the ranges that end before a string that is
not empty and start at 0 or, counted from the end, not after their own end. -/
theorem getrange_exact_iff (o : StringObject) (k : Bytes) (start stop : Int64) :
    GetrangeExact o k start stop ↔ ¬(contents o ≠ [] ∧ (contents o).length+stop.toInt < 0 ∧
      (start.toInt = 0 ∨ start.toInt ≤ stop.toInt)) := by
  rw [← getrange_designated_iff ⟨start.le_toInt, start.toInt_lt⟩ ⟨stop.le_toInt, stop.toInt_lt⟩
    (contents_length o)]
  constructor
  · intro ⟨bs, hreply, hbs, _⟩
    rw [getrangeCommand_string, Reply.bulk.injEq] at hreply
    rw [hreply, hbs]
  · intro h
    exact ⟨_, getrangeCommand_string o _ k start stop, h, by rw [lrangeCommand_bytes, h]⟩

/-- `GETRANGE k 0 -100` of `a` replies with `a`. -/
theorem getrange_before_string : ¬∀ o k start stop, GetrangeExact o k start stop := by
  intro hall
  have ⟨bs, hreply, hbs, _⟩ := hall (.raw ⟨[97], by decide⟩) [107] 0 (-100)
  rw [getrangeCommand_string, Reply.bulk.injEq] at hreply
  rw [← hreply] at hbs
  exact absurd hbs (by decide)

end RedisCore.Collection
