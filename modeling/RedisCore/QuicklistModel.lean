import RedisCore.ZiplistMerge

/-! The quicklist of `quicklist.c`: a list of nodes, each with a ziplist.  A pointer to a node is its
position in the list, and the image of a compressed node is given by the ziplist it decompresses
to, which nobody may read before it is decompressed. -/

set_option linter.style.nameCheck false

namespace RedisCore.Ql

open Ziplist

structure QuicklistNode where
  zl : Bytes
  sz : ℕ
  count : ℕ
  compressed : Bool
  recompress : Bool
deriving DecidableEq, Repr

/-- `quicklist` without its bookmarks; the first node is the head and the last one the tail. -/
structure Quicklist where
  nodes : List QuicklistNode
  count : ℕ
  len : ℕ
  fill : ℤ
  compress : ℕ
deriving DecidableEq, Repr

/-- `quicklistEntry`: a node without a pointer is `none`, and so is `zi`. -/
structure QuicklistEntry where
  node : Option ℕ
  zi : Option ℕ
  value : Option ZlValue
  offset : ℤ
deriving DecidableEq, Repr

def optimizationLevel : List ℕ := [4096, 8192, 16384, 32768, 65536]

def sizeSafetyLimit : ℕ := 8192

def minCompressBytes : ℕ := 48

def quicklistCreateNode (zl : Bytes) : QuicklistNode :=
  { zl := zl, sz := 0, count := 0, compressed := false, recompress := false }

def quicklistCreate : Quicklist := { nodes := [], count := 0, len := 0, fill := -2, compress := 0 }

def compressMax : ℤ := 2^16-1

def fillMax : ℤ := 2^15-1

def quicklistSetCompressDepth (q : Quicklist) (compress : ℤ) : Quicklist :=
  { q with compress :=
      (if compress > compressMax then compressMax else if compress < 0 then 0 else compress).toNat }

def quicklistSetFill (q : Quicklist) (fill : ℤ) : Quicklist :=
  { q with fill := if fill > fillMax then fillMax else if fill < -5 then -5 else fill }

def quicklistNew (fill compress : ℤ) : Quicklist :=
  quicklistSetCompressDepth (quicklistSetFill quicklistCreate fill) compress

def quicklistDecompressNode (n : QuicklistNode) : QuicklistNode := { n with compressed := false }

def quicklistDecompressNodeForUse (n : QuicklistNode) : QuicklistNode :=
  if n.compressed then { n with compressed := false, recompress := true } else n

/-- The ziplist of a node that must not be compressed. -/
def rawZl (n : QuicklistNode) : Except Fault Bytes :=
  if n.compressed then .error .aborted else .ok n.zl

def nodeAt (q : Quicklist) (i : ℕ) : Except Fault QuicklistNode :=
  match q.nodes[i]? with
  | some n => .ok n
  | none => .error .outOfBounds

def setNode (q : Quicklist) (i : ℕ) (n : QuicklistNode) : Quicklist :=
  { q with nodes := q.nodes.set i n }

def modifyNode (q : Quicklist) (i : ℕ) (f : QuicklistNode → QuicklistNode) : Quicklist :=
  { q with nodes := q.nodes.modify i f }

section Compression

-- `lzf_compress` makes the ziplist smaller by more than `MIN_COMPRESS_IMPROVE` bytes
variable (shrinks : Bytes → Bool)

def __quicklistCompressNode (n : QuicklistNode) : QuicklistNode :=
  if n.sz < minCompressBytes then n
  else if !shrinks n.zl then n
  else { n with compressed := true, recompress := false }

def quicklistCompressNode (n : QuicklistNode) : QuicklistNode :=
  if n.compressed then n else __quicklistCompressNode shrinks n

def nextNode (q : Quicklist) (i : ℕ) : Option ℕ := if i+1 < q.nodes.length then some (i+1) else none

def prevNode (i : ℕ) : Option ℕ := if i = 0 then none else some (i-1)

def modifyPtr (q : Quicklist) (p : Option ℕ) (f : QuicklistNode → QuicklistNode) : Quicklist :=
  match p with
  | some i => modifyNode q i f
  | none => q

/-- The loop of `__quicklistCompress`; the last component is `none` where it returns. -/
def compressLoop (node : Option ℕ) : ℕ → Option ℕ → Option ℕ → Bool → Quicklist →
    Except Fault (Quicklist × Option (Option ℕ × Option ℕ × Bool))
  | 0, forward, reverse, in_depth, q => .ok (q, some (forward, reverse, in_depth))
  | rounds+1, forward, reverse, in_depth, q =>
    let q := modifyPtr (modifyPtr q forward quicklistDecompressNode) reverse
      quicklistDecompressNode
    let in_depth := in_depth || forward == node || reverse == node
    if forward = reverse then .ok (q, none)
    else
      match forward, reverse with
      | some f, some r => compressLoop node rounds (nextNode q f) (prevNode r) in_depth q
      | _, _ => .error .outOfBounds

def __quicklistCompress (q : Quicklist) (node : Option ℕ) : Except Fault Quicklist :=
  if q.compress = 0 ∨ q.len < q.compress*2 then .ok q
  else do
    let head := if q.nodes.isEmpty then none else some 0
    let tail := if q.nodes.isEmpty then none else some (q.nodes.length-1)
    let r ← compressLoop node q.compress head tail false q
    match r.2 with
    | none => .ok r.1
    | some (forward, reverse, in_depth) =>
      let q := if in_depth then r.1 else modifyPtr r.1 node (quicklistCompressNode shrinks)
      -- `depth` is one more than the number of rounds
      if q.compress+1 > 2 then
        .ok (modifyPtr (modifyPtr q forward (quicklistCompressNode shrinks)) reverse
          (quicklistCompressNode shrinks))
      else .ok q

def quicklistCompress (q : Quicklist) (i : ℕ) : Except Fault Quicklist := do
  let n ← nodeAt q i
  if n.recompress then .ok (modifyNode q i (quicklistCompressNode shrinks))
  else __quicklistCompress shrinks q (some i)

def quicklistRecompressOnly (q : Quicklist) (i : ℕ) : Quicklist :=
  modifyNode q i fun n => if n.recompress then quicklistCompressNode shrinks n else n

end Compression

section Nodes

variable (shrinks : Bytes → Bool)

/-- `__quicklistInsertNode`.  Without an old node the new one becomes head and tail of an empty list;
nothing leads to it in another one. -/
def __quicklistInsertNode (q : Quicklist) (old_node : Option ℕ) (new_node : QuicklistNode)
    (after : Bool) : Except Fault Quicklist := do
  match old_node with
  | none =>
    if q.len = 0 then .ok { q with nodes := [new_node], len := q.len+1 }
    else if q.nodes.isEmpty then .error .aborted
    else .ok { q with len := q.len+1 }
  | some i =>
    let _ ← nodeAt q i
    let pos := if after then i+1 else i
    let q := { q with nodes := q.nodes.take pos ++ new_node :: q.nodes.drop pos }
    let q ← quicklistCompress shrinks q (if after then i else i+1)
    .ok { q with len := q.len+1 }

def _quicklistNodeSizeMeetsOptimizationRequirement (sz : ℕ) (fill : ℤ) : Bool :=
  if fill ≥ 0 then false
  else
    match optimizationLevel[(-fill-1).toNat]? with
    | some level => sz ≤ level
    | none => false

def _quicklistNodeAllowInsert (node : Option QuicklistNode) (fill : ℤ) (sz : ℕ) : Bool :=
  match node with
  | none => false
  | some node =>
    let previous := if sz < 254 then 1 else 5
    let forward := if sz < 64 then 1 else if sz < 16384 then 2 else 5
    let new_sz := u32 (node.sz+sz+(previous+forward))
    if _quicklistNodeSizeMeetsOptimizationRequirement new_sz fill then true
    else if !(new_sz ≤ sizeSafetyLimit) then false
    else (node.count : ℤ) < fill

def _quicklistNodeAllowMerge (a b : Option QuicklistNode) (fill : ℤ) : Bool :=
  match a, b with
  | some a, some b =>
    let merge_sz := toUnsigned 32 ((a.sz : ℤ)+b.sz-11)
    if _quicklistNodeSizeMeetsOptimizationRequirement merge_sz fill then true
    else if !(merge_sz ≤ sizeSafetyLimit) then false
    else ((a.count+b.count : ℕ) : ℤ) ≤ fill
  | _, _ => false

def updateZl (n : QuicklistNode) (zl : Bytes) : Except Fault QuicklistNode := do
  let sz ← ziplistBlobLen zl
  .ok { n with zl := zl, sz := sz }

def addCount (n : QuicklistNode) (d : ℤ) : QuicklistNode :=
  { n with count := toUnsigned 16 (n.count+d) }

def addTotal (q : Quicklist) (d : ℤ) : Quicklist :=
  { q with count := toUnsigned 64 (q.count+d) }

def __quicklistDelNode (q : Quicklist) (i : ℕ) : Except Fault Quicklist := do
  let node ← nodeAt q i
  let q ← __quicklistCompress shrinks { q with nodes := q.nodes.eraseIdx i } none
  let q := addTotal q (-node.count)
  .ok { q with len := q.len-1 }

def singletonNode (value : Bytes) (w : Where) : Except Fault QuicklistNode := do
  let zl ← ziplistPush ziplistNew value w
  .ok (quicklistCreateNode zl)

def quicklistPushHead (q : Quicklist) (value : Bytes) : Except Fault Quicklist := do
  let q ← (if _quicklistNodeAllowInsert q.nodes.head? q.fill value.length then do
      let n ← nodeAt q 0
      let zl ← ziplistPush (← rawZl n) value .head
      .ok (setNode q 0 (← updateZl n zl))
    else do
      let n ← singletonNode value .head
      let n ← updateZl n n.zl
      __quicklistInsertNode shrinks q (if q.nodes.isEmpty then none else some 0) n false)
  .ok (modifyNode (addTotal q 1) 0 (addCount · 1))

def quicklistPushTail (q : Quicklist) (value : Bytes) : Except Fault Quicklist := do
  let q ← (if _quicklistNodeAllowInsert q.nodes.getLast? q.fill value.length then do
      let n ← nodeAt q (q.nodes.length-1)
      let zl ← ziplistPush (← rawZl n) value .tail
      .ok (setNode q (q.nodes.length-1) (← updateZl n zl))
    else do
      let n ← singletonNode value .tail
      let n ← updateZl n n.zl
      __quicklistInsertNode shrinks q
        (if q.nodes.isEmpty then none else some (q.nodes.length-1)) n true)
  .ok (modifyNode (addTotal q 1) (q.nodes.length-1) (addCount · 1))

def quicklistAppendZiplist (q : Quicklist) (zl : Bytes) : Except Fault Quicklist := do
  let len ← ziplistLen zl
  let n ← updateZl (addCount (quicklistCreateNode len.2) len.1) len.2
  let q ← __quicklistInsertNode shrinks q
    (if q.nodes.isEmpty then none else some (q.nodes.length-1)) n true
  .ok (addTotal q n.count)

/-- `quicklistDelIndex`, for a pointer into the ziplist of the node; the result says whether the
node is gone. -/
def quicklistDelIndex (q : Quicklist) (i p : ℕ) : Except Fault (Quicklist × Bool) := do
  let node ← nodeAt q i
  let zl ← ziplistDelete (← rawZl node) p
  let node := addCount { node with zl := zl.1 } (-1)
  if node.count = 0 then
    let q ← __quicklistDelNode shrinks (setNode q i node) i
    .ok (addTotal q (-1), true)
  else
    let node ← updateZl node node.zl
    .ok (addTotal (setNode q i node) (-1), false)

end Nodes

def findNode (index : ℕ) : List QuicklistNode → ℕ → ℕ → Option (ℕ × ℕ)
  | [], _, _ => none
  | n :: rest, i, accum =>
    if accum+n.count > index then some (i, accum) else findNode index rest (i+1) (accum+n.count)

def noEntry : QuicklistEntry := { node := none, zi := none, value := none, offset := 123456789 }

/-- `quicklistIndex`: the entry, or none if the index is out of range.  The node that was found is
decompressed. -/
def quicklistIndex (q : Quicklist) (idx : ℤ) : Except Fault (Quicklist × Option QuicklistEntry) :=
  let forward : Bool := 0 ≤ idx
  let index := if forward then idx.toNat else (-idx-1).toNat
  if index ≥ q.count then .ok (q, none)
  else
    match findNode index (if forward then q.nodes else q.nodes.reverse) 0 0 with
    | none => .ok (q, none)
    | some (k, accum) => do
      let i := if forward then k else q.nodes.length-1-k
      let offset : ℤ := if forward then (index : ℤ)-accum else (accum : ℤ)-index-1
      let q := modifyNode q i quicklistDecompressNodeForUse
      let n ← nodeAt q i
      let zi ← ziplistIndex (← rawZl n) offset
      let value ← ziplistGet n.zl zi
      .ok (q, some { node := some i, zi := zi, value := value, offset := offset })

section Editing

variable (shrinks : Bytes → Bool)

def quicklistDelEntry (q : Quicklist) (entry : QuicklistEntry) : Except Fault Quicklist :=
  match entry.node, entry.zi with
  | some i, some p => do
    let r ← quicklistDelIndex shrinks q i p
    .ok r.1
  | _, _ => .error .outOfBounds

def quicklistReplaceAtIndex (q : Quicklist) (index : ℤ) (data : Bytes) :
    Except Fault (Quicklist × Bool) := do
  let r ← quicklistIndex q index
  match r.2 with
  | none => .ok (r.1, false)
  | some entry =>
    match entry.node, entry.zi with
    | some i, some zi => do
      let n ← nodeAt r.1 i
      let deleted ← ziplistDelete (← rawZl n) zi
      let zl ← ziplistInsert deleted.1 deleted.2 data
      let q := setNode r.1 i (← updateZl n zl)
      let q ← quicklistCompress shrinks q i
      .ok (q, true)
    | _, _ => .error .outOfBounds

def _quicklistZiplistMerge (q : Quicklist) (i : ℕ) : Except Fault Quicklist := do
  let a ← nodeAt q i
  let b ← nodeAt q (i+1)
  let a := quicklistDecompressNode a
  let b := quicklistDecompressNode b
  match ← ziplistMerge (some a.zl) (some b.zl) false with
  | none => .error .aborted
  | some (zl, kept_a) =>
    let keep := if kept_a then a else b
    let nokeep := if kept_a then b else a
    let len ← ziplistLen zl
    let keep ← updateZl { keep with count := len.1%2^16 } len.2
    let nokeep := { nokeep with count := 0 }
    let q := if kept_a then setNode (setNode q i keep) (i+1) nokeep
      else setNode (setNode q i nokeep) (i+1) keep
    let q ← __quicklistDelNode shrinks q (if kept_a then i+1 else i)
    quicklistCompress shrinks q i

def _quicklistMergeNodes (q : Quicklist) (center : ℕ) : Except Fault Quicklist := do
  let fill := q.fill
  let prev := if center ≥ 1 then q.nodes[center-1]? else none
  let prev_prev := if center ≥ 2 then q.nodes[center-2]? else none
  let next := q.nodes[center+1]?
  let next_next := q.nodes[center+2]?
  let merge_prev := _quicklistNodeAllowMerge prev prev_prev fill
  let merge_next := _quicklistNodeAllowMerge next next_next fill
  let q ← (if merge_prev then _quicklistZiplistMerge shrinks q (center-2) else .ok q)
  let center := if merge_prev then center-1 else center
  let q ← (if merge_next then _quicklistZiplistMerge shrinks q (center+1) else .ok q)
  let merge_center := _quicklistNodeAllowMerge q.nodes[center]?
    (if center ≥ 1 then q.nodes[center-1]? else none) fill
  let q ← (if merge_center then _quicklistZiplistMerge shrinks q (center-1) else .ok q)
  let target := if merge_center then center-1 else center
  if _quicklistNodeAllowMerge q.nodes[target]? q.nodes[target+1]? fill then
    _quicklistZiplistMerge shrinks q target
  else .ok q

def _quicklistSplitNode (node : QuicklistNode) (offset : ℤ) (after : Bool) :
    Except Fault (QuicklistNode × QuicklistNode) := do
  let copy ← loadBytes (← rawZl node) 0 node.sz
  let orig_start := if after then offset+1 else 0
  let orig_extent := if after then -1 else offset
  let new_start := if after then 0 else offset
  let new_extent := if after then offset+1 else -1
  let zl ← ziplistDeleteRange node.zl orig_start (toUnsigned 32 orig_extent)
  let len ← ziplistLen zl
  let node ← updateZl { node with count := len.1%2^16 } len.2
  let new_zl ← ziplistDeleteRange copy new_start (toUnsigned 32 new_extent)
  let new_len ← ziplistLen new_zl
  let new_node ← updateZl { quicklistCreateNode new_zl with count := new_len.1%2^16 } new_len.2
  .ok (node, new_node)

def insertInto (q : Quicklist) (i : ℕ) (edit : Bytes → Except Fault Bytes) : Except Fault Quicklist := do
  let n ← nodeAt q i
  let n := quicklistDecompressNodeForUse n
  let zl ← edit (← rawZl n)
  let n ← updateZl (addCount n 1) zl
  .ok (quicklistRecompressOnly shrinks (setNode q i n) i)

def _quicklistInsert (q : Quicklist) (entry : QuicklistEntry) (value : Bytes) (after : Bool) :
    Except Fault Quicklist :=
  match entry.node with
  | none => do
    let n ← singletonNode value .head
    let q ← __quicklistInsertNode shrinks q none (addCount n 1) after
    .ok (addTotal q 1)
  | some i => do
    let node ← nodeAt q i
    let prev := if i ≥ 1 then q.nodes[i-1]? else none
    let next := q.nodes[i+1]?
    let full := !_quicklistNodeAllowInsert (some node) q.fill value.length
    let at_tail := after && entry.offset == node.count
    let full_next := at_tail && !_quicklistNodeAllowInsert next q.fill value.length
    let at_head := !after && entry.offset == 0
    let full_prev := at_head && !_quicklistNodeAllowInsert prev q.fill value.length
    let q ← (if !full && after then
        insertInto shrinks q i fun zl => do
          match entry.zi with
          | none => .error .outOfBounds
          | some zi =>
            match ← ziplistNext zl zi with
            | none => ziplistPush zl value .tail
            | some p => ziplistInsert zl p value
      else if !full && !after then
        insertInto shrinks q i fun zl =>
          match entry.zi with
          | none => .error .outOfBounds
          | some zi => ziplistInsert zl zi value
      else if full && at_tail && next.isSome && !full_next && after then
        insertInto shrinks q (i+1) (ziplistPush · value .head)
      else if full && at_head && prev.isSome && !full_prev && !after then
        insertInto shrinks q (i-1) (ziplistPush · value .tail)
      else if full && ((at_tail && next.isSome && full_next && after) ||
          (at_head && prev.isSome && full_prev && !after)) then do
        let n ← singletonNode value .head
        let n ← updateZl (addCount n 1) n.zl
        __quicklistInsertNode shrinks q (some i) n after
      else do
        let node := quicklistDecompressNodeForUse node
        let r ← _quicklistSplitNode node entry.offset after
        let zl ← ziplistPush r.2.zl value (if after then .head else .tail)
        let n ← updateZl (addCount r.2 1) zl
        let q ← __quicklistInsertNode shrinks (setNode q i r.1) (some i) n after
        _quicklistMergeNodes shrinks q (if after then i else i+1))
    .ok (addTotal q 1)

def quicklistInsertBefore (q : Quicklist) (entry : QuicklistEntry) (value : Bytes) :
    Except Fault Quicklist := _quicklistInsert shrinks q entry value false

def quicklistInsertAfter (q : Quicklist) (entry : QuicklistEntry) (value : Bytes) :
    Except Fault Quicklist := _quicklistInsert shrinks q entry value true

def delAmount (offset : ℤ) (extent count : ℕ) : ℤ × Bool :=
  if offset = 0 ∧ extent ≥ count then (count, true)
  else if offset ≥ 0 ∧ extent ≥ count then ((count : ℤ)-offset, false)
  else if offset < 0 then (if -offset > extent then (extent : ℤ) else -offset, false)
  else (extent, false)

def delRangeLoop : ℕ → ℕ → ℤ → ℕ → Quicklist → Except Fault Quicklist
  | 0, _, _, _, _ => .error .outOfFuel
  | fuel+1, i, offset, extent, q =>
    if extent = 0 then .ok q
    else do
      let node ← nodeAt q i
      let (del, delete_entire_node) := delAmount offset extent node.count
      if delete_entire_node then
        let q ← __quicklistDelNode shrinks q i
        delRangeLoop fuel i 0 (extent-del.toNat) q
      else
        let node := quicklistDecompressNodeForUse node
        let zl ← ziplistDeleteRange (← rawZl node) offset (toUnsigned 32 del)
        let node ← updateZl node zl
        let node := addCount node (-del)
        let q := addTotal (setNode q i node) (-del)
        if node.count = 0 then
          let q ← __quicklistDelNode shrinks q i
          delRangeLoop fuel i 0 (extent-del.toNat) q
        else
          delRangeLoop fuel (i+1) 0 (extent-del.toNat) (quicklistRecompressOnly shrinks q i)

def quicklistDelRange (q : Quicklist) (start count : ℤ) : Except Fault (Quicklist × Bool) :=
  if count ≤ 0 then .ok (q, false)
  else
    let extent := count.toNat
    let extent :=
      if start ≥ 0 ∧ extent > toUnsigned 64 (q.count-start) then toUnsigned 64 (q.count-start)
      else if start < 0 ∧ extent > (-start).toNat then (-start).toNat
      else extent
    do
      let r ← quicklistIndex q start
      match r.2 with
      | none => .ok (r.1, false)
      | some entry =>
        match entry.node with
        | none => .error .aborted
        | some i =>
          let q ← delRangeLoop shrinks (r.1.nodes.length+1) i entry.offset extent r.1
          .ok (q, true)

def quicklistRotate (q : Quicklist) : Except Fault Quicklist :=
  if q.count ≤ 1 then .ok q
  else do
    let tail ← nodeAt q (q.nodes.length-1)
    let p ← ziplistIndex (← rawZl tail) (-1)
    match ← ziplistGet tail.zl p with
    | none => .error .aborted
    | some value =>
      let q ← quicklistPushHead shrinks q value.text
      let tail ← nodeAt q (q.nodes.length-1)
      let p ← (if q.len = 1 then do ziplistIndex (← rawZl tail) (-1) else .ok p)
      match p with
      | none => .error .outOfBounds
      | some p => do
        let r ← quicklistDelIndex shrinks q (q.nodes.length-1) p
        .ok r.1

def quicklistPopCustom (q : Quicklist) (w : Where) : Except Fault (Quicklist × Option ZlValue) :=
  if q.count = 0 then .ok (q, none)
  else if q.nodes.isEmpty then .ok (q, none)
  else do
    let i := match w with
      | .head => 0
      | .tail => q.nodes.length-1
    let node ← nodeAt q i
    let p ← ziplistIndex (← rawZl node) (match w with | .head => 0 | .tail => -1)
    match p, ← ziplistGet node.zl p with
    | some p, some value => do
      let r ← quicklistDelIndex shrinks q i p
      .ok (r.1, some value)
    | _, _ => .ok (q, none)

def quicklistPush (q : Quicklist) (value : Bytes) : Where → Except Fault Quicklist
  | .head => quicklistPushHead shrinks q value
  | .tail => quicklistPushTail shrinks q value

end Editing

end RedisCore.Ql
