import RedisCore.SdsCompare

/-! The skip list of `t_zset.c`.  Nodes live at addresses; the header is allocated first and is
never freed.  `unsigned int` and `unsigned long` arithmetic on ranks and spans wraps. -/

namespace RedisCore.Skiplist

structure ZskiplistLevel where
  forward : Option ℕ
  span : ℕ
deriving DecidableEq, Repr

/-- `zskiplistNode`; only the header has no element. -/
structure ZskiplistNode (S : Type) where
  ele : Option Bytes
  score : S
  backward : Option ℕ
  level : List ZskiplistLevel
deriving DecidableEq, Repr

abbrev Heap (S : Type) := ℕ → Option (ZskiplistNode S)

structure Zskiplist (S : Type) where
  heap : Heap S
  fresh : ℕ
  tail : Option ℕ
  length : ℕ
  level : ℕ

def header : ℕ := 0

def zskiplistMaxlevel : ℕ := 32

def wrapAdd (w a b : ℕ) : ℕ := (a+b)%2^w

def wrapSub (w a b : ℕ) : ℕ := (a+(2^w-b%2^w))%2^w

section Memory

variable {S : Type}

def deref (heap : Heap S) (x : ℕ) : Except Fault (ZskiplistNode S) :=
  match heap x with
  | some n => .ok n
  | none => .error .outOfBounds

def levelAt (heap : Heap S) (x i : ℕ) : Except Fault ZskiplistLevel := do
  let n ← deref heap x
  match n.level[i]? with
  | some l => .ok l
  | none => .error .outOfBounds

def storeNode (heap : Heap S) (x : ℕ) (n : ZskiplistNode S) : Heap S :=
  fun y => if y = x then some n else heap y

def setLevel (heap : Heap S) (x i : ℕ) (l : ZskiplistLevel) : Except Fault (Heap S) := do
  let n ← deref heap x
  if i < n.level.length then .ok (storeNode heap x { n with level := n.level.set i l })
  else .error .outOfBounds

def setBackward (heap : Heap S) (x : ℕ) (b : Option ℕ) : Except Fault (Heap S) := do
  let n ← deref heap x
  .ok (storeNode heap x { n with backward := b })

def zslFreeNode (zsl : Zskiplist S) (x : ℕ) : Zskiplist S :=
  { zsl with heap := fun y => if y = x then none else zsl.heap y }

/-- The levels of a new node hold no meaningful links yet. -/
def zslCreateNode (level : ℕ) (score : S) (ele : Option Bytes) : ZskiplistNode S :=
  { ele := ele
    score := score
    backward := none
    level := List.replicate level ⟨none, 0⟩ }

def zslCreate [Zero S] : Zskiplist S :=
  { heap := storeNode (fun _ => none) header (zslCreateNode zskiplistMaxlevel 0 none)
    fresh := header+1
    tail := none
    length := 0
    level := 1 }

end Memory

section Walks

variable {S : Type}

/-- The inner loop of every search: on level `i`, go forward while `go` accepts the next node and
the rank it would be reached at.  A walk over more nodes than were ever allocated never ends. -/
def zslWalk (heap : Heap S) (w : ℕ) (go : ZskiplistNode S → ℕ → Bool) (i : ℕ) :
    ℕ → ℕ → ℕ → Except Fault (ℕ × ℕ)
  | 0, _, _ => .error .outOfFuel
  | fuel+1, x, rank => do
    let l ← levelAt heap x i
    match l.forward with
    | none => .ok (x, rank)
    | some y => do
      let n ← deref heap y
      if go n (wrapAdd w rank l.span) then zslWalk heap w go i fuel y (wrapAdd w rank l.span)
      else .ok (x, rank)

/-- The outer loop, from level `n-1` down to 0: `update[]` and `rank[]`, listed from level 0. -/
def zslDescend (heap : Heap S) (w : ℕ) (go : ZskiplistNode S → ℕ → Bool) (fuel : ℕ) :
    ℕ → ℕ → ℕ → Except Fault (List (ℕ × ℕ))
  | 0, _, _ => .ok []
  | i+1, x, rank => do
    let p ← zslWalk heap w go i fuel x rank
    let below ← zslDescend heap w go fuel i p.1 p.2
    .ok (below ++ [p])

def forLevels (f : Heap S → ℕ → ℕ × ℕ → Except Fault (Heap S)) :
    ℕ → List (ℕ × ℕ) → Heap S → Except Fault (Heap S)
  | _, [], heap => .ok heap
  | i, u :: us, heap => do
    let heap ← f heap i u
    forLevels f (i+1) us heap

end Walks

section Updates

variable {S : Type} [LinearOrder S]

def nodeBefore (score : S) (ele : Bytes) (n : ZskiplistNode S) : Bool :=
  decide (n.score < score) ||
    (decide (n.score = score) && n.ele.any (fun e => sdscmp e ele == .lt))

def nodeIs (score : S) (ele : Bytes) (n : ZskiplistNode S) : Bool :=
  decide (score = n.score) && n.ele.any (fun e => sdscmp e ele == .eq)

def zslSearch (zsl : Zskiplist S) (w : ℕ) (go : ZskiplistNode S → ℕ → Bool) :
    Except Fault (List (ℕ × ℕ)) :=
  zslDescend zsl.heap w go zsl.fresh zsl.level header 0

def growLevels (heap : Heap S) (length : ℕ) : ℕ → ℕ → Except Fault (Heap S)
  | _, 0 => .ok heap
  | i, n+1 => do
    let l ← levelAt heap header i
    let heap ← setLevel heap header i ⟨l.forward, length⟩
    growLevels heap length (i+1) n

/-- Links the new node `x` behind `update[i]`.  The ranks are `unsigned int`. -/
def linkLevel (x rank0 : ℕ) (heap : Heap S) (i : ℕ) (u : ℕ × ℕ) : Except Fault (Heap S) := do
  let l ← levelAt heap u.1 i
  let heap ← setLevel heap x i ⟨l.forward, wrapSub 64 l.span (wrapSub 32 rank0 u.2)⟩
  setLevel heap u.1 i ⟨some x, wrapAdd 32 (wrapSub 32 rank0 u.2) 1⟩

def bumpLevel (heap : Heap S) (i : ℕ) (u : ℕ × ℕ) : Except Fault (Heap S) := do
  let l ← levelAt heap u.1 i
  setLevel heap u.1 i ⟨l.forward, wrapAdd 64 l.span 1⟩

/-- `if (x->level[0].forward) x->level[0].forward->backward = b; else zsl->tail = b;`. -/
def relinkBackward (zsl : Zskiplist S) (forward b : Option ℕ) : Except Fault (Zskiplist S) :=
  match forward with
  | some y => do
    let heap ← setBackward zsl.heap y b
    .ok { zsl with heap := heap }
  | none => .ok { zsl with tail := b }

def linkNode (zsl : Zskiplist S) (score : S) (ele : Bytes) (level : ℕ) (update : List (ℕ × ℕ))
    (u0 : ℕ × ℕ) : Except Fault (Zskiplist S × ℕ) := do
  let x := zsl.fresh
  let heap := storeNode zsl.heap x (zslCreateNode level score (some ele))
  let heap ← forLevels (linkLevel x u0.2) 0 (update.take level) heap
  let heap ← forLevels bumpLevel level (update.drop level) heap
  let heap ← setBackward heap x (if u0.1 = header then none else some u0.1)
  let l ← levelAt heap x 0
  let zsl ← relinkBackward { zsl with heap := heap, fresh := x+1 } l.forward (some x)
  .ok ({ zsl with length := zsl.length+1 }, x)

def zslInsert (zsl : Zskiplist S) (score : S) (ele : Bytes) (level : ℕ) :
    Except Fault (Zskiplist S × ℕ) := do
  let update ← zslSearch zsl 32 (fun n _ => nodeBefore score ele n)
  let heap ← growLevels zsl.heap zsl.length zsl.level (level-zsl.level)
  let update := update ++ List.replicate (level-zsl.level) (header, 0)
  match update with
  | [] => .error .outOfBounds
  | u0 :: _ =>
    linkNode { zsl with heap := heap, level := max zsl.level level } score ele level update u0

def unlinkLevel (x : ℕ) (heap : Heap S) (i : ℕ) (u : ℕ × ℕ) : Except Fault (Heap S) := do
  let l ← levelAt heap u.1 i
  if l.forward = some x then do
    let lx ← levelAt heap x i
    setLevel heap u.1 i ⟨lx.forward, wrapAdd 64 l.span (wrapSub 64 lx.span 1)⟩
  else setLevel heap u.1 i ⟨l.forward, wrapSub 64 l.span 1⟩

def dropLevels (heap : Heap S) : ℕ → Except Fault ℕ
  | n+2 => do
    let l ← levelAt heap header (n+1)
    if l.forward = none then dropLevels heap (n+1) else .ok (n+2)
  | n => .ok n

def zslDeleteNode (zsl : Zskiplist S) (x : ℕ) (update : List (ℕ × ℕ)) :
    Except Fault (Zskiplist S) := do
  let heap ← forLevels (unlinkLevel x) 0 (update.take zsl.level) zsl.heap
  let l ← levelAt heap x 0
  let n ← deref heap x
  let zsl ← relinkBackward { zsl with heap := heap } l.forward n.backward
  let level ← dropLevels zsl.heap zsl.level
  .ok { zsl with level := level, length := zsl.length-1 }

def searchEnd (zsl : Zskiplist S) (update : List (ℕ × ℕ)) : Except Fault (Option ℕ) :=
  match update with
  | [] => .error .outOfBounds
  | u0 :: _ => do
    let l ← levelAt zsl.heap u0.1 0
    .ok l.forward

/-- `zslDelete`; with `keep` the caller passes a non-`NULL` `node` and the node is not freed. -/
def zslDelete (zsl : Zskiplist S) (score : S) (ele : Bytes) (keep : Bool) :
    Except Fault (Zskiplist S × Bool) := do
  let update ← zslSearch zsl 64 (fun n _ => nodeBefore score ele n)
  let x ← searchEnd zsl update
  match x with
  | none => .ok (zsl, false)
  | some x => do
    let n ← deref zsl.heap x
    if nodeIs score ele n then do
      let zsl ← zslDeleteNode zsl x update
      .ok (if keep then zsl else zslFreeNode zsl x, true)
    else .ok (zsl, false)

def nullOrScore (heap : Heap S) (p : Option ℕ) (test : S → Bool) : Except Fault Bool :=
  match p with
  | none => .ok true
  | some x => do
    let n ← deref heap x
    .ok (test n.score)

def staysInPlace (zsl : Zskiplist S) (x : ℕ) (newscore : S) : Except Fault Bool := do
  let n ← deref zsl.heap x
  let l ← levelAt zsl.heap x 0
  let before ← nullOrScore zsl.heap n.backward (fun s => decide (s < newscore))
  let after ← nullOrScore zsl.heap l.forward (fun s => decide (s > newscore))
  .ok (before && after)

def zslUpdateScore (zsl : Zskiplist S) (curscore : S) (ele : Bytes) (newscore : S) (level : ℕ) :
    Except Fault (Zskiplist S × ℕ) := do
  let update ← zslSearch zsl 64 (fun n _ => nodeBefore curscore ele n)
  let x ← searchEnd zsl update
  match x with
  | none => .error .aborted
  | some x => do
    let n ← deref zsl.heap x
    if !nodeIs curscore ele n then .error .aborted
    else do
      let stays ← staysInPlace zsl x newscore
      if stays then .ok ({ zsl with heap := storeNode zsl.heap x { n with score := newscore } }, x)
      else do
        let zsl ← zslDeleteNode zsl x update
        let r ← zslInsert zsl newscore (n.ele.getD []) level
        .ok (zslFreeNode r.1 x, r.2)

end Updates

section Ranges

variable {S : Type} [LinearOrder S]

structure Zrangespec (S : Type) where
  min : S
  max : S
  minex : Bool
  maxex : Bool
deriving DecidableEq, Repr

/-- An end of a lexicographical range; the two shared strings are told apart by address. -/
inductive LexItem where
  | minstring
  | maxstring
  | str (s : Bytes)
deriving DecidableEq, Repr

structure Zlexrangespec where
  min : LexItem
  max : LexItem
  minex : Bool
  maxex : Bool
deriving DecidableEq, Repr

def sdscmplex : LexItem → LexItem → Ordering
  | .minstring, .minstring => .eq
  | .maxstring, .maxstring => .eq
  | .minstring, _ => .lt
  | _, .maxstring => .lt
  | .maxstring, _ => .gt
  | _, .minstring => .gt
  | .str a, .str b => sdscmp a b

def zslLexValueGteMin (value : Bytes) (spec : Zlexrangespec) : Bool :=
  if spec.minex then sdscmplex (.str value) spec.min == .gt
  else sdscmplex (.str value) spec.min != .lt

def zslLexValueLteMax (value : Bytes) (spec : Zlexrangespec) : Bool :=
  if spec.maxex then sdscmplex (.str value) spec.max == .lt
  else sdscmplex (.str value) spec.max != .gt

/-- The deletion loop the three range functions share.  The removed elements are returned in
order, where the source passes each one to `dictDelete` and counts it. -/
def deleteWhile (inRange : ZskiplistNode S → ℕ → Bool) (update : List (ℕ × ℕ)) :
    ℕ → Zskiplist S → Option ℕ → ℕ → Except Fault (Zskiplist S × List Bytes)
  | _, zsl, none, _ => .ok (zsl, [])
  | 0, _, some _, _ => .error .outOfFuel
  | fuel+1, zsl, some x, traversed => do
    let n ← deref zsl.heap x
    if inRange n traversed then do
      let next ← levelAt zsl.heap x 0
      let zsl ← zslDeleteNode zsl x update
      let r ← deleteWhile inRange update fuel (zslFreeNode zsl x) next.forward (traversed+1)
      .ok (r.1, n.ele.toList ++ r.2)
    else .ok (zsl, [])

def zslDeleteRange (zsl : Zskiplist S) (skip inRange : ZskiplistNode S → ℕ → Bool) :
    Except Fault (Zskiplist S × List Bytes) := do
  let update ← zslSearch zsl 64 skip
  let x ← searchEnd zsl update
  deleteWhile inRange update zsl.fresh zsl x ((update.headD (header, 0)).2+1)

def zslDeleteRangeByScore (zsl : Zskiplist S) (range : Zrangespec S) :
    Except Fault (Zskiplist S × List Bytes) :=
  zslDeleteRange zsl
    (fun n _ => if range.minex then decide (n.score ≤ range.min) else decide (n.score < range.min))
    (fun n _ => if range.maxex then decide (n.score < range.max) else decide (n.score ≤ range.max))

def zslDeleteRangeByLex (zsl : Zskiplist S) (range : Zlexrangespec) :
    Except Fault (Zskiplist S × List Bytes) :=
  zslDeleteRange zsl
    (fun n _ => n.ele.any (fun e => !zslLexValueGteMin e range))
    (fun n _ => n.ele.any (fun e => zslLexValueLteMax e range))

/-- `start` and `stop` are 1-based and inclusive. -/
def zslDeleteRangeByRank (zsl : Zskiplist S) (start stop : ℕ) :
    Except Fault (Zskiplist S × List Bytes) :=
  zslDeleteRange zsl (fun _ rank => decide (rank < start)) (fun _ rank => decide (rank ≤ stop))

end Ranges

section Ranks

variable {S : Type} [LinearOrder S]

def nodeUpTo (score : S) (ele : Bytes) (n : ZskiplistNode S) : Bool :=
  decide (n.score < score) ||
    (decide (n.score = score) && n.ele.any (fun e => sdscmp e ele != .gt))

def getRankLoop (heap : Heap S) (score : S) (ele : Bytes) (fuel : ℕ) : ℕ → ℕ → ℕ → Except Fault ℕ
  | 0, _, _ => .ok 0
  | i+1, x, rank => do
    let p ← zslWalk heap 64 (fun n _ => nodeUpTo score ele n) i fuel x rank
    let n ← deref heap p.1
    if n.ele.any (fun e => sdscmp e ele == .eq) then .ok p.2
    else getRankLoop heap score ele fuel i p.1 p.2

/-- `zslGetRank`: 0 when the element is not there. -/
def zslGetRank (zsl : Zskiplist S) (score : S) (ele : Bytes) : Except Fault ℕ :=
  getRankLoop zsl.heap score ele zsl.fresh zsl.level header 0

def getElementByRankLoop (heap : Heap S) (rank fuel : ℕ) : ℕ → ℕ → ℕ → Except Fault (Option ℕ)
  | 0, _, _ => .ok none
  | i+1, x, traversed => do
    let p ← zslWalk heap 64 (fun _ r => decide (r ≤ rank)) i fuel x traversed
    if p.2 = rank then .ok (some p.1)
    else getElementByRankLoop heap rank fuel i p.1 p.2

def zslGetElementByRank (zsl : Zskiplist S) (rank : ℕ) : Except Fault (Option ℕ) :=
  getElementByRankLoop zsl.heap rank zsl.fresh zsl.level header 0

end Ranks

end RedisCore.Skiplist
