import RedisCore.CTypes
import Mathlib.Logic.Function.Basic

/-! `STRALGO LCS` of `t_string.c`: the table, the walk back through it and the reply. -/

namespace RedisCore.Stralgo

inductive StralgoFault
  | outOfBounds
  | outOfFuel
  deriving DecidableEq

def u32 (n : ℕ) : ℕ := n % 2^32

structure Table where
  words : ℕ
  cell : ℕ → ℕ
  touched : List (ℕ × ℕ)

def requested (alen blen : ℕ) : ℕ := u32 (u32 (alen+1)*u32 (blen+1))*4

def slot (blen A B : ℕ) : ℕ := u32 (B+u32 (A*u32 (blen+1)))

def Table.read (t : Table) (blen A B : ℕ) : Except StralgoFault (ℕ × Table) :=
  if slot blen A B < t.words then
    .ok (t.cell (slot blen A B), { t with touched := (A, B) :: t.touched })
  else .error .outOfBounds

def Table.write (t : Table) (blen A B v : ℕ) : Except StralgoFault Table :=
  if slot blen A B < t.words then
    .ok { t with
      cell := Function.update t.cell (slot blen A B) v
      touched := (A, B) :: t.touched }
  else .error .outOfBounds

def fillCell (a b : Bytes) (blen i j : ℕ) (t : Table) : Except StralgoFault Table :=
  if i = 0 ∨ j = 0 then t.write blen i j 0
  else if a[i-1]? = b[j-1]? then do
    let (v, t) ← t.read blen (i-1) (j-1)
    t.write blen i j (u32 (v+1))
  else do
    let (lcs1, t) ← t.read blen (i-1) j
    let (lcs2, t) ← t.read blen i (j-1)
    t.write blen i j (if lcs1 > lcs2 then lcs1 else lcs2)

/-- The two loops.  They end since the lengths are below `2^32-1`. -/
def fillTable (a b : Bytes) (alen blen : ℕ) (t : Table) : Except StralgoFault Table :=
  (List.range (alen+1)).foldlM (fun t i =>
    (List.range (blen+1)).foldlM (fun t j => fillCell a b blen i j t) t) t

structure MatchRange where
  astart : ℕ
  aend : ℕ
  bstart : ℕ
  bend : ℕ
  deriving DecidableEq

def MatchRange.matchLen (r : MatchRange) : ℕ := u32 (r.aend+2^32-r.astart+1)

structure Walk where
  i : ℕ
  j : ℕ
  idx : ℕ
  /-- The bytes of `result`, none while they were not written. -/
  result : List (Option UInt8)
  range : MatchRange
  emitted : List MatchRange
  table : Table

structure Options where
  getlen : Bool
  getidx : Bool
  withmatchlen : Bool
  minmatchlen : ℤ
  strings : Option (Bytes × Bytes)

def emitRange (o : Options) (alen : ℕ) (w : Walk) : Walk :=
  { w with
    emitted :=
      if (o.minmatchlen = 0 ∨ o.minmatchlen ≤ w.range.matchLen) ∧ o.getidx = true then
        w.emitted ++ [w.range]
      else w.emitted
    range := { w.range with astart := alen } }

def trackRange (alen : ℕ) (w : Walk) : MatchRange × Bool :=
  if w.range.astart = alen then (⟨w.i-1, w.i-1, w.j-1, w.j-1⟩, false)
  else if w.range.astart = w.i ∧ w.range.bstart = w.j then
    ({ w.range with astart := w.range.astart-1, bstart := w.range.bstart-1 }, false)
  else (w.range, true)

def walkMatch (o : Options) (a : Bytes) (alen : ℕ) (w : Walk) : Except StralgoFault Walk :=
  let k := u32 (w.idx+2^32-1)
  if k < w.result.length then
    let (range, emit) := trackRange alen w
    let w' := { w with
      i := w.i-1
      j := w.j-1
      idx := k
      result := w.result.set k a[w.i-1]?
      range := range }
    .ok (if emit || range.astart == 0 || range.bstart == 0 then emitRange o alen w' else w')
  else .error .outOfBounds

def walkStep (o : Options) (a b : Bytes) (alen blen : ℕ) (w : Walk) :
    Except StralgoFault Walk :=
  if a[w.i-1]? = b[w.j-1]? then walkMatch o a alen w
  else do
    let (lcs1, t) ← w.table.read blen (w.i-1) w.j
    let (lcs2, t) ← t.read blen w.i (w.j-1)
    let w' := if lcs1 > lcs2 then { w with i := w.i-1, table := t }
      else { w with j := w.j-1, table := t }
    .ok (if w.range.astart ≠ alen then emitRange o alen w' else w')

def walkLoop (o : Options) (a b : Bytes) (alen blen : ℕ) : ℕ → Walk → Except StralgoFault Walk
  | 0, w => if w.i > 0 ∧ w.j > 0 then .error .outOfFuel else .ok w
  | fuel+1, w =>
    if w.i > 0 ∧ w.j > 0 then do
      let w ← walkStep o a b alen blen w
      walkLoop o a b alen blen fuel w
    else .ok w

inductive ReplyItem
  | mapLen (n : ℕ)
  | arrayLen (n : ℕ)
  | integer (n : ℕ)
  | bulk (s : List (Option UInt8))
  | error (message : Bytes)
  deriving DecidableEq

def bulkText (s : Bytes) : ReplyItem := .bulk (s.map some)

def rangeReply (o : Options) (r : MatchRange) : List ReplyItem :=
  [.arrayLen (if o.withmatchlen then 3 else 2), .arrayLen 2, .integer r.astart, .integer r.aend,
    .arrayLen 2, .integer r.bstart, .integer r.bend] ++
  if o.withmatchlen then [.integer r.matchLen] else []

/-- The reply to parsed options, and the accesses to the table.  The memory of the table holds
`junk` at first. -/
def lcsReply (junk : ℕ → ℕ) (o : Options) (a b : Bytes) :
    Except StralgoFault (List ReplyItem × List (ℕ × ℕ)) := do
  let alen := u32 a.length
  let blen := u32 b.length
  let t ← fillTable a b alen blen
    { words := requested alen blen/4, cell := junk, touched := [] }
  let (idx, t) ← t.read blen alen blen
  let computelcs := o.getidx || !o.getlen
  let w : Walk :=
    { i := alen
      j := blen
      idx := idx
      result := if computelcs then List.replicate idx none else []
      range := ⟨alen, 0, 0, 0⟩
      emitted := []
      table := t }
  let w ← (if computelcs then walkLoop o a b alen blen (alen+blen) w else .ok w)
  if o.getidx then do
    let (len, t) ← w.table.read blen alen blen
    .ok ([.mapLen 2, bulkText (text "matches"), .arrayLen (u32 w.emitted.length)] ++
      w.emitted.flatMap (rangeReply o) ++ [bulkText (text "len"), .integer len], t.touched)
  else if o.getlen then do
    let (len, t) ← w.table.read blen alen blen
    .ok ([.integer len], t.touched)
  else .ok ([.bulk w.result], w.table.touched)

inductive Stored
  | missing
  | string (s : Bytes)
  | other

def Stored.contents : Stored → Option Bytes
  | .missing => some []
  | .string s => some s
  | .other => none

def parseOptions (lookup : Bytes → Stored) : List Bytes → Options → Except Bytes Options
  | [], o => .ok o
  | opt :: rest, o =>
    if sameCaseless opt (text "IDX") then parseOptions lookup rest { o with getidx := true }
    else if sameCaseless opt (text "LEN") then parseOptions lookup rest { o with getlen := true }
    else if sameCaseless opt (text "WITHMATCHLEN") then
      parseOptions lookup rest { o with withmatchlen := true }
    else
      match rest with
      | [] => .error (text "syntax error")
      | x :: rest' =>
        if sameCaseless opt (text "MINMATCHLEN") then
          match string2ll x with
          | none => .error (text "value is not an integer or out of range")
          | some n => parseOptions lookup rest' { o with minmatchlen := max n 0 }
        else
          match rest' with
          | [] => .error (text "syntax error")
          | y :: rest'' =>
            if sameCaseless opt (text "STRINGS") then
              if o.strings.isSome then .error (text "Either use STRINGS or KEYS")
              else parseOptions lookup rest'' { o with strings := some (x, y) }
            else if sameCaseless opt (text "KEYS") then
              if o.strings.isSome then .error (text "Either use STRINGS or KEYS")
              else
                match (lookup x).contents, (lookup y).contents with
                | some a, some b => parseOptions lookup rest'' { o with strings := some (a, b) }
                | _, _ => .error (text "The specified keys must contain string values")
            else .error (text "syntax error")

def noOptions : Options :=
  { getlen := false
    getidx := false
    withmatchlen := false
    minmatchlen := 0
    strings := none }

def stralgoLCS (junk : ℕ → ℕ) (lookup : Bytes → Stored) (argv : List Bytes) :
    Except StralgoFault (List ReplyItem) :=
  match parseOptions lookup argv noOptions with
  | .error message => .ok [.error message]
  | .ok o =>
    match o.strings with
    | none => .ok [.error
        (text "Please specify two strings: STRINGS or KEYS options are mandatory")]
    | some (a, b) =>
      if o.getlen && o.getidx then .ok [.error
        (text "If you want both the length and indexes, please just use IDX.")]
      else do
        let (reply, _) ← lcsReply junk o a b
        .ok reply

end RedisCore.Stralgo
