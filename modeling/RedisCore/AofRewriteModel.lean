import RedisCore.AofModel

/-! The rewrite of the append only file in the background (`aof.c`): the parent, the child that it has
forked, and the three pipes between them. -/

namespace RedisCore.Aof

variable {V : Type}

def aofRwBufBlockSize : ℕ := 1024*1024*10

structure Aofrwblock where
  buf : Bytes
  free : ℕ
deriving DecidableEq, Repr

def newBlock : Aofrwblock :=
  { buf := []
    free := aofRwBufBlockSize }

def fillLast (s : Bytes) : List Aofrwblock → List Aofrwblock × Bytes
  | [] => ([], s)
  | [b] => ([{ buf := b.buf ++ s.take b.free, free := b.free-s.length }], s.drop b.free)
  | b :: blocks => (b :: (fillLast s blocks).1, (fillLast s blocks).2)

def appendLoop : ℕ → Bytes → List Aofrwblock → List Aofrwblock
  | 0, _, blocks => blocks
  | fuel+1, s, blocks =>
    if s = [] then blocks
    else
      let r := fillLast s blocks
      if r.2 = [] then r.1 else appendLoop fuel r.2 (r.1 ++ [newBlock])

def aofRewriteBufferAppend (s : Bytes) (blocks : List Aofrwblock) : List Aofrwblock :=
  appendLoop (s.length+2) s blocks

/-- `aofChildWriteDiffData` with what each `write` returns, at most the length of the block: the blocks
that are left, and what has gone to the pipe. -/
def aofChildWriteDiffData (stop : Bool) : List ℤ → List Aofrwblock → List Aofrwblock × Bytes
  | _, [] => ([], [])
  | sizes, b :: blocks =>
    if stop then (b :: blocks, [])
    else if b.buf = [] then aofChildWriteDiffData stop sizes blocks
    else
      match sizes with
      | [] => (b :: blocks, [])
      | nwritten :: sizes =>
        if nwritten ≤ 0 then (b :: blocks, [])
        else
          let n := min nwritten.toNat b.buf.length
          let b' : Aofrwblock := { buf := b.buf.drop n, free := b.free+n }
          let rest := if b'.buf = [] then blocks else b' :: blocks
          let r := aofChildWriteDiffData stop sizes rest
          (r.1, b.buf.take n ++ r.2)
  termination_by sizes blocks => sizes.length+blocks.length
  decreasing_by
    · simp
    · split_ifs
      · simp
        omega
      · simp

/-- `aofRewriteBufferWrite` with what each `write` returns; `none` for a short write or an error. -/
def aofRewriteBufferWrite : List ℤ → List Aofrwblock → Option Bytes
  | _, [] => some []
  | results, b :: blocks =>
    if b.buf = [] then aofRewriteBufferWrite results blocks
    else
      match results with
      | [] => none
      | nwritten :: results =>
        if nwritten = b.buf.length then (aofRewriteBufferWrite results blocks).map (fun w => b.buf ++ w)
        else none

inductive AofSwitch where
  | on
  | waitRewrite
deriving DecidableEq, Repr

inductive ChildPhase where
  | working
  | asked
  | agreed
  | done
  | failed
deriving DecidableEq, Repr

structure Child where
  snapshot : Bytes
  aofChildDiff : Bytes
  phase : ChildPhase
  tmpfile : Bytes
deriving DecidableEq, Repr

structure Pipes where
  data : Bytes
  ackToParent : Bool
  ackToChild : Bool
deriving DecidableEq, Repr

def newPipes : Pipes :=
  { data := []
    ackToParent := false
    ackToChild := false }

/-- `multi` says that the server is within an EXEC.  In `aof` stand the data, the database that was
selected last, and `aof_buf`. -/
structure Parent (V : Type) where
  aof : AofState V
  multi : Bool
  aofState : AofSwitch
  file : Bytes
  aofRewriteBufBlocks : List Aofrwblock
  aofStopSendingDiff : Bool
  child : Option Child
  pipes : Pipes

def feedBytes (mstime : ℤ) (s : AofState V) (proc : Proc) (d : ℕ) (argv : List Bytes) :
    Option (AofState V) :=
  feedAppendOnlyFile mstime { s with aofBuf := [] } proc d argv

def Parent.append (p : Parent V) (s : AofState V) : Parent V :=
  { p with
    aof := { s with aofBuf := if p.aofState = .on then p.aof.aofBuf ++ s.aofBuf else p.aof.aofBuf }
    aofRewriteBufBlocks :=
      if p.child.isSome then aofRewriteBufferAppend s.aofBuf p.aofRewriteBufBlocks
      else p.aofRewriteBufBlocks }

/-- What can happen.  `flush` comes with what `aofWrite` returns and whether `ftruncate` has worked, and
the others with the results of their system calls. -/
inductive Event where
  | item (i : Item)
  | multi (d : ℕ)
  | exec (d : ℕ)
  | flush (nwritten : ℕ) (truncated : Bool)
  | fork (snapshot : Bytes)
  | writeDiff (sizes : List ℤ)
  | pipeReadable (sent : Bool)
  | doneHandler (opened : Bool) (results : List ℤ) (renamed : Bool)
  | killChild
  | childRead (nread : ℕ)
  | childAsk
  | childAck
  | childFinish
  | childFail
deriving DecidableEq, Repr

def flushAppendOnlyFile (nwritten : ℕ) (truncated : Bool) (p : Parent V) : Parent V :=
  if p.aof.aofBuf = [] then p
  else if p.aof.aofBuf.length ≤ nwritten then
    { p with
      aof := { p.aof with aofBuf := [] }
      file := p.file ++ p.aof.aofBuf }
  else if truncated then p
  else
    { p with
      aof := { p.aof with aofBuf := p.aof.aofBuf.drop nwritten }
      file := p.file ++ p.aof.aofBuf.take nwritten }

/-- `rewriteAppendOnlyFileBackground` when there is no child yet. -/
def rewriteAppendOnlyFileBackground (snapshot : Bytes) (p : Parent V) : Parent V :=
  { p with
    aof := { p.aof with aofSelectedDb := none }
    aofStopSendingDiff := false
    child := some
      { snapshot := snapshot
        aofChildDiff := []
        phase := .working
        tmpfile := [] }
    pipes := newPipes }

def cleanup (p : Parent V) : Parent V :=
  { p with
    aofRewriteBufBlocks := []
    child := none
    pipes := newPipes }

def backgroundRewriteDoneHandler (opened : Bool) (results : List ℤ) (renamed : Bool) (c : Child)
    (p : Parent V) : Parent V :=
  if c.phase = .done ∧ opened then
    match aofRewriteBufferWrite results p.aofRewriteBufBlocks with
    | none => cleanup p
    | some rest =>
      if renamed then
        cleanup { p with
          aof := { p.aof with aofSelectedDb := none, aofBuf := [] }
          aofState := .on
          file := c.tmpfile ++ rest }
      else cleanup p
  else cleanup p

/-- `none` when the event cannot happen.  The handlers of the parent run between its commands; BGREWRITEAOF
may stand within a transaction. -/
def step (srv : Server V) (p : Parent V) : Event → Option (Parent V)
  | .item i =>
    match call srv { now := i.now, loading := false } i.db i.proc i.argv p.aof.data with
    | none => some p
    | some (data, proc, argv) =>
      (feedBytes i.fedAt { p.aof with data := data } proc i.db argv).map p.append
  | .multi d =>
    if p.multi then none
    else (feedBytes 0 p.aof .multi d [text "MULTI"]).map (fun s => { p.append s with multi := true })
  | .exec d =>
    if p.multi then
      (feedBytes 0 p.aof .exec d [text "EXEC"]).map (fun s => { p.append s with multi := false })
    else none
  | .flush nwritten truncated => if p.multi then none else some (flushAppendOnlyFile nwritten truncated p)
  | .fork snapshot => if p.child.isSome then none else some (rewriteAppendOnlyFileBackground snapshot p)
  | .writeDiff sizes =>
    if p.multi ∨ p.child.isNone then none
    else
      let r := aofChildWriteDiffData p.aofStopSendingDiff sizes p.aofRewriteBufBlocks
      some { p with
        aofRewriteBufBlocks := r.1
        pipes := { p.pipes with data := p.pipes.data ++ r.2 } }
  | .pipeReadable sent =>
    if p.multi ∨ p.pipes.ackToParent = false then none
    else
      some { p with
        aofStopSendingDiff := true
        pipes := { p.pipes with ackToParent := false, ackToChild := sent } }
  | .doneHandler opened results renamed =>
    match p.child with
    | none => none
    | some c =>
      if p.multi ∨ (c.phase ≠ .done ∧ c.phase ≠ .failed) then none
      else some (backgroundRewriteDoneHandler opened results renamed c p)
  | .killChild => if p.multi ∨ p.child.isNone then none else some (cleanup p)
  | .childRead nread =>
    match p.child with
    | none => none
    | some c =>
      if c.phase = .working ∨ c.phase = .agreed then
        some { p with
          child := some { c with aofChildDiff := c.aofChildDiff ++ p.pipes.data.take nread }
          pipes := { p.pipes with data := p.pipes.data.drop nread } }
      else none
  | .childAsk =>
    match p.child with
    | none => none
    | some c =>
      if c.phase = .working then
        some { p with
          child := some { c with phase := .asked }
          pipes := { p.pipes with ackToParent := true } }
      else none
  | .childAck =>
    match p.child with
    | none => none
    | some c =>
      if c.phase = .asked ∧ p.pipes.ackToChild then
        some { p with
          child := some { c with phase := .agreed }
          pipes := { p.pipes with ackToChild := false } }
      else none
  | .childFinish =>
    match p.child with
    | none => none
    | some c =>
      -- the last `aofReadDiffFromParent` reads until the pipe is empty
      if c.phase = .agreed ∧ p.pipes.data = [] then
        some { p with child := some { c with phase := .done, tmpfile := c.snapshot ++ c.aofChildDiff } }
      else none
  | .childFail =>
    match p.child with
    | none => none
    | some c =>
      if c.phase = .failed then none else some { p with child := some { c with phase := .failed } }

def installs (p : Parent V) : Event → Bool
  | .doneHandler opened results renamed =>
    match p.child with
    | none => false
    | some c =>
      decide (c.phase = .done) && opened && (aofRewriteBufferWrite results p.aofRewriteBufBlocks).isSome &&
        renamed
  | _ => false

def run (srv : Server V) : List Event → Parent V → Option (Parent V)
  | [], p => some p
  | e :: es, p => (step srv p e).bind (run srv es)

def preambleLoader (data : Dataset V) : Loader V :=
  { db := 0
    multi := false
    commands := []
    data := data
    validUpTo := 0
    validBeforeMulti := 0 }

def loadRewritten (srv : Server V) (rdbLoadRio : Bytes → Option (Dataset V × Bytes)) (mstime : ℤ)
    (file : Bytes) : Except LoadExit (Dataset V × Bytes) :=
  if file.take 5 = text "REDIS" then
    match rdbLoadRio file with
    | none => .error .readError
    | some (data, rest) =>
      match loadLoop srv mstime file.length (rest.length+1) rest (preambleLoader data) with
      | .error e => .error e
      | .ok (l, shortRead) =>
        if shortRead then .ok (l.data, file.take l.validUpTo)
        else if l.multi then .ok (l.data, file.take l.validBeforeMulti)
        else .ok (l.data, file)
  else loadAppendOnlyFile srv mstime file

end RedisCore.Aof
