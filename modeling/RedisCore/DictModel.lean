import RedisCore.Outcome

/-! The chained hash table of `dict.c` with its incremental rehashing.  Addresses of buckets and
entries are positions; an access outside the allocated bucket array is a `Fault`. -/

namespace RedisCore.HashDict

/-- The callbacks of `dictType` that decide behaviour.  A missing callback is `none`; the
destructors only release memory and are left out. -/
structure DictType (K V : Type) where
  hashFunction : K → BitVec 64
  keyDup : Option (K → K) := none
  valDup : Option (V → V) := none
  keyCompare : Option (K → K → Bool) := none

/-- `dictEntry`; the value is `none` between the allocation and the first `dictSetVal`. -/
structure DictEntry (K V : Type) where
  key : K
  v : Option V
deriving DecidableEq, Repr

/-- `dictht`.  A `NULL` table is `none`; a chain lists its entries from the bucket head. -/
structure DictHt (K V : Type) where
  table : Option (List (List (DictEntry K V)))
  size : ℕ
  sizemask : BitVec 64
  used : ℕ
deriving DecidableEq, Repr

/-- `dict`; `rehashidx` is `none` where the source has -1. -/
structure Dict (K V : Type) where
  ht0 : DictHt K V
  ht1 : DictHt K V
  rehashidx : Option ℕ
  iterators : ℕ
deriving DecidableEq, Repr

inductive Status where
  | ok
  | err
deriving DecidableEq, Repr

structure EntryRef where
  second : Bool
  idx : ℕ
  pos : ℕ
deriving DecidableEq, Repr

def dictHtInitialSize : ℕ := 4

def dictForceResizeRatio : ℕ := 5

def longMax : ℕ := 2^63-1

def sizeofPointer : ℕ := 8

section Tables

variable {K V : Type}

def dictIsRehashing (d : Dict K V) : Bool := d.rehashidx.isSome

def dictSize (d : Dict K V) : ℕ := d.ht0.used+d.ht1.used

def _dictReset : DictHt K V := ⟨none, 0, 0, 0⟩

def dictCreate : Dict K V := ⟨_dictReset, _dictReset, none, 0⟩

def tableLoad (ht : DictHt K V) (idx : ℕ) : Except Fault (List (DictEntry K V)) :=
  match ht.table with
  | none => .error .outOfBounds
  | some t =>
    match t[idx]? with
    | none => .error .outOfBounds
    | some chain => .ok chain

def tableStore (ht : DictHt K V) (idx : ℕ) (chain : List (DictEntry K V)) :
    Except Fault (DictHt K V) :=
  match ht.table with
  | none => .error .outOfBounds
  | some t =>
    if idx < t.length then .ok { ht with table := some (t.set idx chain) }
    else .error .outOfBounds

def bucketIdx (ht : DictHt K V) (h : BitVec 64) : ℕ := (h &&& ht.sizemask).toNat

def nextPowerLoop (size : ℕ) : ℕ → ℕ → ℕ
  | 0, i => i
  | fuel+1, i => if size ≤ i then i else nextPowerLoop size fuel (i*2)

def _dictNextPower (size : ℕ) : ℕ :=
  if longMax ≤ size then longMax+1 else nextPowerLoop size 62 dictHtInitialSize

/-- `zcalloc(realsize*sizeof(dictEntry*))`: the byte count is computed in 64 bits, so this many
buckets are really there. -/
def allocatedBuckets (realsize : ℕ) : ℕ := realsize*sizeofPointer%2^64/sizeofPointer

def newTable (realsize : ℕ) : DictHt K V :=
  { table := some (List.replicate (allocatedBuckets realsize) [])
    size := realsize
    sizemask := BitVec.ofNat 64 (realsize-1)
    used := 0 }

def dictExpand (d : Dict K V) (size : ℕ) : Dict K V × Status :=
  if dictIsRehashing d ∨ d.ht0.used > size then (d, .err)
  else
    let realsize := _dictNextPower size
    if realsize = d.ht0.size then (d, .err)
    else if d.ht0.table.isNone then ({ d with ht0 := newTable realsize }, .ok)
    else ({ d with ht1 := newTable realsize, rehashidx := some 0 }, .ok)

def dictResize (canResize : Bool) (d : Dict K V) : Dict K V × Status :=
  if !canResize ∨ dictIsRehashing d then (d, .err)
  else
    let minimal := d.ht0.used
    dictExpand d (if minimal < dictHtInitialSize then dictHtInitialSize else minimal)

def _dictExpandIfNeeded (canResize : Bool) (d : Dict K V) : Dict K V × Status :=
  if dictIsRehashing d then (d, .ok)
  else if d.ht0.size = 0 then dictExpand d dictHtInitialSize
  else if d.ht0.used ≥ d.ht0.size ∧
      (canResize ∨ d.ht0.used/d.ht0.size > dictForceResizeRatio) then
    dictExpand d (d.ht0.used*2%2^64)
  else (d, .ok)

end Tables

section Rehashing

variable {K V : Type} (ty : DictType K V)

def rehashSkip (ht0 : DictHt K V) : ℕ → ℕ → BitVec 32 → Except Fault (ℕ × BitVec 32 × Bool)
  | 0, _, _ => .error .outOfFuel
  | fuel+1, rehashidx, emptyVisits => do
    let chain ← tableLoad ht0 rehashidx
    if chain.isEmpty then
      -- `--empty_visits == 0` is tested after the cursor has moved
      if emptyVisits-1 = 0 then .ok (rehashidx+1, emptyVisits-1, true)
      else rehashSkip ht0 fuel (rehashidx+1) (emptyVisits-1)
    else .ok (rehashidx, emptyVisits, false)

def moveChain : List (DictEntry K V) → DictHt K V → DictHt K V →
    Except Fault (DictHt K V × DictHt K V)
  | [], ht0, ht1 => .ok (ht0, ht1)
  | de :: nextde, ht0, ht1 => do
    let h := bucketIdx ht1 (ty.hashFunction de.key)
    let chain ← tableLoad ht1 h
    let ht1 ← tableStore ht1 h (de :: chain)
    moveChain nextde { ht0 with used := ht0.used-1 } { ht1 with used := ht1.used+1 }

/-- The outer loop of `dictRehash`.  The counters are `int`s compared with zero only; the result
is `true` when the inner loop returned. -/
def rehashLoop : ℕ → BitVec 32 → BitVec 32 → DictHt K V → DictHt K V → ℕ →
    Except Fault (DictHt K V × DictHt K V × ℕ × Bool)
  | 0, _, _, _, _, _ => .error .outOfFuel
  | fuel+1, n, emptyVisits, ht0, ht1, rehashidx =>
    if n = 0 ∨ ht0.used = 0 then .ok (ht0, ht1, rehashidx, false)
    else if ht0.size ≤ rehashidx then .error .aborted
    else do
      let skipped ← rehashSkip ht0 (ht0.size+1) rehashidx emptyVisits
      let idx := skipped.1
      if skipped.2.2 then .ok (ht0, ht1, idx, true)
      else do
        let chain ← tableLoad ht0 idx
        let moved ← moveChain ty chain ht0 ht1
        let ht0 ← tableStore moved.1 idx []
        rehashLoop fuel (n-1) skipped.2.1 ht0 moved.2 (idx+1)

def dictRehash (d : Dict K V) (n : BitVec 32) : Except Fault (Dict K V × Bool) :=
  match d.rehashidx with
  | none => .ok (d, false)
  | some rehashidx => do
    let r ← rehashLoop ty (d.ht0.size+1) n (n*10) d.ht0 d.ht1 rehashidx
    if r.2.2.2 then .ok ({ d with ht0 := r.1, ht1 := r.2.1, rehashidx := some r.2.2.1 }, true)
    else if r.1.used = 0 then
      .ok ({ d with ht0 := r.2.1, ht1 := _dictReset, rehashidx := none }, false)
    else .ok ({ d with ht0 := r.1, ht1 := r.2.1, rehashidx := some r.2.2.1 }, true)

def _dictRehashStep (d : Dict K V) : Except Fault (Dict K V) :=
  if d.iterators = 0 then do
    let r ← dictRehash ty d 1
    .ok r.1
  else .ok d

def rehashIfNeeded (d : Dict K V) : Except Fault (Dict K V) :=
  if dictIsRehashing d then _dictRehashStep ty d else .ok d

end Rehashing

section Operations

variable {K V : Type} [DecidableEq K] (ty : DictType K V)

def dictCompareKeys (key1 key2 : K) : Bool :=
  match ty.keyCompare with
  | some f => f key1 key2
  | none => key1 == key2

def keyMatches (key : K) (he : DictEntry K V) : Bool :=
  key == he.key || dictCompareKeys ty key he.key

def searchTable (ht : DictHt K V) (key : K) : Except Fault (ℕ × Option ℕ) := do
  let idx := bucketIdx ht (ty.hashFunction key)
  let chain ← tableLoad ht idx
  .ok (idx, chain.findIdx? (keyMatches ty key))

/-- The loop over the tables shared by lookups, adds and deletes: the bucket looked at last and
the entry found. -/
def searchTables (d : Dict K V) (key : K) : Except Fault (ℕ × Option EntryRef) := do
  let s0 ← searchTable ty d.ht0 key
  match s0.2 with
  | some pos => .ok (s0.1, some ⟨false, s0.1, pos⟩)
  | none =>
    -- `if (!dictIsRehashing(d)) break`
    if !dictIsRehashing d then .ok (s0.1, none)
    else do
      let s1 ← searchTable ty d.ht1 key
      .ok (s1.1, s1.2.map fun pos => ⟨true, s1.1, pos⟩)

/-- `_dictKeyIndex`: the bucket for a new entry, or `none` with the existing entry. -/
def _dictKeyIndex (canResize : Bool) (d : Dict K V) (key : K) :
    Except Fault (Dict K V × Option ℕ × Option EntryRef) :=
  let r := _dictExpandIfNeeded canResize d
  if r.2 = .err then .ok (r.1, none, none)
  else do
    let s ← searchTables ty r.1 key
    match s.2 with
    | some existing => .ok (r.1, none, some existing)
    | none => .ok (r.1, some s.1, none)

def setHt (d : Dict K V) (second : Bool) (ht : DictHt K V) : Dict K V :=
  if second then { d with ht1 := ht } else { d with ht0 := ht }

def getHt (d : Dict K V) (second : Bool) : DictHt K V :=
  if second then d.ht1 else d.ht0

def applyDup {α : Type} (dup : Option (α → α)) (a : α) : α :=
  match dup with
  | some f => f a
  | none => a

/-- `dictAddRaw`: the new entry, or `none` and the entry `*existing` is set to. -/
def dictAddRaw (canResize : Bool) (d : Dict K V) (key : K) :
    Except Fault (Dict K V × Option EntryRef × Option EntryRef) := do
  let d ← rehashIfNeeded ty d
  let r ← _dictKeyIndex ty canResize d key
  let d := r.1
  match r.2.1 with
  | none => .ok (d, none, r.2.2)
  | some index => do
    let second := dictIsRehashing d
    let ht := getHt d second
    let chain ← tableLoad ht index
    let ht ← tableStore ht index (⟨applyDup ty.keyDup key, none⟩ :: chain)
    .ok (setHt d second { ht with used := ht.used+1 }, some ⟨second, index, 0⟩, none)

def loadEntry (d : Dict K V) (ref : EntryRef) : Except Fault (DictEntry K V) := do
  let chain ← tableLoad (getHt d ref.second) ref.idx
  match chain[ref.pos]? with
  | some he => .ok he
  | none => .error .outOfBounds

def dictSetVal (d : Dict K V) (ref : EntryRef) (val : V) : Except Fault (Dict K V) := do
  let ht := getHt d ref.second
  let chain ← tableLoad ht ref.idx
  match chain[ref.pos]? with
  | some he => do
    let ht ← tableStore ht ref.idx (chain.set ref.pos { he with v := some (applyDup ty.valDup val) })
    .ok (setHt d ref.second ht)
  | none => .error .outOfBounds

def dictAdd (canResize : Bool) (d : Dict K V) (key : K) (val : V) :
    Except Fault (Dict K V × Status) := do
  let r ← dictAddRaw ty canResize d key
  match r.2.1 with
  | none => .ok (r.1, .err)
  | some entry => do
    let d ← dictSetVal ty r.1 entry val
    .ok (d, .ok)

def dictReplace (canResize : Bool) (d : Dict K V) (key : K) (val : V) :
    Except Fault (Dict K V × Bool) := do
  let r ← dictAddRaw ty canResize d key
  match r.2.1, r.2.2 with
  | some entry, _ => do
    let d ← dictSetVal ty r.1 entry val
    .ok (d, true)
  | none, some existing => do
    let d ← dictSetVal ty r.1 existing val
    .ok (d, false)
  -- `auxentry = *existing` with a `NULL` pointer
  | none, none => .error .outOfBounds

def dictAddOrFind (canResize : Bool) (d : Dict K V) (key : K) :
    Except Fault (Dict K V × Option EntryRef) := do
  let r ← dictAddRaw ty canResize d key
  match r.2.1 with
  | some entry => .ok (r.1, some entry)
  | none => .ok (r.1, r.2.2)

def unlinkEntry (d : Dict K V) (ref : EntryRef) : Except Fault (Dict K V × DictEntry K V) := do
  let ht := getHt d ref.second
  let chain ← tableLoad ht ref.idx
  match chain[ref.pos]? with
  | none => .error .outOfBounds
  | some he => do
    let ht ← tableStore ht ref.idx (chain.eraseIdx ref.pos)
    .ok (setHt d ref.second { ht with used := ht.used-1 }, he)

/-- `dictGenericDelete`; freeing the entry does not change the tables, so `nofree` is left out. -/
def dictGenericDelete (d : Dict K V) (key : K) : Except Fault (Dict K V × Option (DictEntry K V)) :=
  if d.ht0.used = 0 ∧ d.ht1.used = 0 then .ok (d, none)
  else do
    let d ← rehashIfNeeded ty d
    let s ← searchTables ty d key
    match s.2 with
    | some ref => do
      let r ← unlinkEntry d ref
      .ok (r.1, some r.2)
    | none => .ok (d, none)

def dictDelete (d : Dict K V) (key : K) : Except Fault (Dict K V × Status) := do
  let r ← dictGenericDelete ty d key
  .ok (r.1, if r.2.isSome then .ok else .err)

def dictUnlink (d : Dict K V) (key : K) : Except Fault (Dict K V × Option (DictEntry K V)) :=
  dictGenericDelete ty d key

def dictFind (d : Dict K V) (key : K) : Except Fault (Dict K V × Option EntryRef) :=
  if dictSize d = 0 then .ok (d, none)
  else do
    let d ← rehashIfNeeded ty d
    let s ← searchTables ty d key
    .ok (d, s.2)

def clearLoop (ht : DictHt K V) : ℕ → ℕ → ℕ → Except Fault (List (DictEntry K V))
  | 0, _, _ => .ok []
  | fuel+1, i, used =>
    if used = 0 then .ok []
    else do
      let chain ← tableLoad ht i
      let freed ← clearLoop ht fuel (i+1) (used-chain.length)
      .ok (chain ++ freed)

def _dictClear (ht : DictHt K V) : Except Fault (DictHt K V × List (DictEntry K V)) := do
  let freed ← clearLoop ht ht.size 0 ht.used
  .ok (_dictReset, freed)

def dictEmpty (d : Dict K V) : Except Fault (Dict K V) := do
  let r0 ← _dictClear d.ht0
  let r1 ← _dictClear d.ht1
  .ok { ht0 := r0.1, ht1 := r1.1, rehashidx := none, iterators := 0 }

end Operations

section Scan

variable {K V : Type}

def revLoop : ℕ → ℕ → BitVec 64 → BitVec 64 → BitVec 64
  | 0, _, _, v => v
  | fuel+1, s, mask, v =>
    let s := s/2
    if s = 0 then v
    else
      let mask := mask ^^^ (mask <<< s)
      revLoop fuel s mask (((v >>> s) &&& mask) ||| ((v <<< s) &&& ~~~mask))

def rev (v : BitVec 64) : BitVec 64 := revLoop 7 64 (BitVec.allOnes 64) v

def scanNext (m v : BitVec 64) : BitVec 64 := rev (rev (v ||| ~~~m)+1)

def scanExpansions (t1 : DictHt K V) (m0 m1 : BitVec 64) :
    ℕ → BitVec 64 → Except Fault (BitVec 64 × List (DictEntry K V))
  | 0, _ => .error .outOfFuel
  | fuel+1, v => do
    let chain ← tableLoad t1 (bucketIdx t1 v)
    let v := scanNext m1 v
    if v &&& (m0 ^^^ m1) = 0 then .ok (v, chain)
    else do
      let r ← scanExpansions t1 m0 m1 fuel v
      .ok (r.1, chain ++ r.2)

def dictScan (d : Dict K V) (v : BitVec 64) : Except Fault (BitVec 64 × List (DictEntry K V)) :=
  if dictSize d = 0 then .ok (0, [])
  else if !dictIsRehashing d then do
    let chain ← tableLoad d.ht0 (bucketIdx d.ht0 v)
    .ok (scanNext d.ht0.sizemask v, chain)
  else do
    let t0 := if d.ht0.size > d.ht1.size then d.ht1 else d.ht0
    let t1 := if d.ht0.size > d.ht1.size then d.ht0 else d.ht1
    let chain ← tableLoad t0 (bucketIdx t0 v)
    let r ← scanExpansions t1 t0.sizemask t1.sizemask t1.size v
    .ok (r.1, chain ++ r.2)

end Scan

end RedisCore.HashDict
