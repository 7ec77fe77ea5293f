import RedisCore.CTypes
import RedisCore.Outcome
import RedisCore.SdsCompare
import Mathlib.Logic.Function.Basic

/-! The commands on lists, sets and hashes, and SORT (`t_list.c`, `t_set.c`, `t_hash.c`, `sort.c`),
on the values of one database, from the argument vector to the reply. -/

namespace RedisCore.Collection

inductive Value where
  | string (s : Bytes)
  | list (es : List Bytes)
  | set (ms : List Bytes)
  | hash (fs : List (Bytes × Bytes))
deriving DecidableEq, Repr

structure RedisDb where
  dict : Bytes → Option Value
  expires : Bytes → Option ℤ

inductive Reply where
  | ok
  | null
  | emptySet
  | int (n : ℤ)
  | bulk (s : Bytes)
  | array (es : List (Option Bytes))
  /-- The header announces another number of members than follow it. -/
  | wrongHeader (length : ℤ) (ms : List Bytes)
  | error (msg : String)
deriving DecidableEq, Repr

/-- The assertions that may fail, and `zmalloc` of a negative size. -/
inductive Fault where
  | dbAdd
  | dbOverwrite
  | randomElement
  | sortVector
  | sortElement
  | outOfMemory
deriving DecidableEq, Repr

/-- The functions of the C library on floating point numbers and on strings of the locale. -/
structure Libc where
  LongDouble : Type
  string2ld : Bytes → Option LongDouble
  ldZero : LongDouble
  ldAdd : LongDouble → LongDouble → LongDouble
  ldIsNanOrInf : LongDouble → Bool
  ld2string : LongDouble → Bytes
  Double : Type
  dZero : Double
  /-- The number and whether the whole text was converted, within the range and not to a NaN. -/
  strtod : Bytes → Double × Bool
  dLt : Double → Double → Bool
  strcoll : Bytes → Bytes → Ordering

structure ServerConfig where
  clusterEnabled : Bool
  libc : Libc

/-- What a command takes from outside: the clock, the role, the random numbers, and the texts that
`strtod` is asked for while `errno` still is `ERANGE`. -/
structure Env where
  now : ℤ
  slave : Bool
  random : ℕ → ℕ
  errnoRange : Bytes → Bool

abbrev Result := Except Fault (RedisDb × Reply)

def wrongtypeerr : Reply := .error "WRONGTYPE Operation against a key holding the wrong kind of value"
def nokeyerr : Reply := .error "ERR no such key"
def syntaxerr : Reply := .error "ERR syntax error"
def outofrangeerr : Reply := .error "ERR index out of range"

def addReplyError (msg : String) : Reply := .error ("ERR " ++ msg)

def emptyDb : RedisDb :=
  { dict := fun _ => none
    expires := fun _ => none }

def setValue (db : RedisDb) (k : Bytes) (v : Value) : RedisDb :=
  { db with dict := Function.update db.dict k (some v) }

def dbAdd (db : RedisDb) (k : Bytes) (v : Value) : Except Fault RedisDb :=
  match db.dict k with
  | some _ => .error .dbAdd
  | none => .ok (setValue db k v)

def dbOverwrite (db : RedisDb) (k : Bytes) (v : Value) : Except Fault RedisDb :=
  match db.dict k with
  | some _ => .ok (setValue db k v)
  | none => .error .dbOverwrite

def dbDelete (db : RedisDb) (k : Bytes) : RedisDb :=
  { dict := Function.update db.dict k none
    expires := Function.update db.expires k none }

def removeExpire (db : RedisDb) (k : Bytes) : RedisDb :=
  { db with expires := Function.update db.expires k none }

def keyIsExpired (env : Env) (db : RedisDb) (k : Bytes) : Bool :=
  match db.expires k with
  | none => false
  | some when => !decide (when < 0) && decide (when < env.now)

def expireIfNeeded (env : Env) (db : RedisDb) (k : Bytes) : RedisDb :=
  if keyIsExpired env db k && !env.slave then dbDelete db k else db

def lookupKeyWrite (env : Env) (db : RedisDb) (k : Bytes) : RedisDb × Option Value :=
  let db := expireIfNeeded env db k
  (db, db.dict k)

/-- Only commands with the flag `readonly` do not see an expired key of a slave, and none of the
commands below has it. -/
def lookupKeyRead (env : Env) (db : RedisDb) (k : Bytes) : RedisDb × Option Value :=
  let db := expireIfNeeded env db k
  (db, db.dict k)

def setKey (env : Env) (db : RedisDb) (k : Bytes) (v : Value) : Except Fault RedisDb := do
  let (db, o) := lookupKeyWrite env db k
  let db ← (if o.isNone then dbAdd db k v else dbOverwrite db k v)
  return removeExpire db k

def getLongFromObjectOrReply (o : Bytes) : Except Reply ℤ :=
  match string2ll o with
  | none => .error (addReplyError "value is not an integer or out of range")
  | some v => .ok v

inductive Side where
  | head
  | tail
deriving DecidableEq, Repr

def listTypePush (es : List Bytes) (v : Bytes) (side : Side) : List Bytes :=
  match side with
  | .head => v :: es
  | .tail => es ++ [v]

def listTypePop (es : List Bytes) (side : Side) : Option (Bytes × List Bytes) :=
  match side with
  | .head => es.head?.map (fun v => (v, es.tail))
  | .tail => es.getLast?.map (fun v => (v, es.dropLast))

def pushAll (es vs : List Bytes) (side : Side) : List Bytes :=
  vs.foldl (fun es v => listTypePush es v side) es

def pushGenericCommand (side : Side) (env : Env) (argv : List Bytes) (db : RedisDb) : Result :=
  let k := arg argv 1
  let vs := argv.drop 2
  let (db, o) := lookupKeyWrite env db k
  match o with
  | none =>
    if vs = [] then .ok (db, .int 0)
    else do
      let db ← dbAdd db k (.list [])
      let es := pushAll [] vs side
      return (setValue db k (.list es), .int es.length)
  | some (.list es) =>
    let es := pushAll es vs side
    .ok (setValue db k (.list es), .int es.length)
  | some _ => .ok (db, wrongtypeerr)

def pushxGenericCommand (side : Side) (env : Env) (argv : List Bytes) (db : RedisDb) : Result :=
  let k := arg argv 1
  let (db, o) := lookupKeyWrite env db k
  match o with
  | none => .ok (db, .int 0)
  | some (.list es) =>
    let es := pushAll es (argv.drop 2) side
    .ok (setValue db k (.list es), .int es.length)
  | some _ => .ok (db, wrongtypeerr)

def listTypeInsert (pivot v : Bytes) (side : Side) : List Bytes → Option (List Bytes)
  | [] => none
  | e :: es =>
    if e = pivot then
      match side with
      | .head => some (v :: e :: es)
      | .tail => some (e :: v :: es)
    else (listTypeInsert pivot v side es).map (e :: ·)

def linsertCommand (env : Env) (argv : List Bytes) (db : RedisDb) : Result :=
  if sameCaseless (arg argv 2) (text "after") then linsertAt .tail
  else if sameCaseless (arg argv 2) (text "before") then linsertAt .head
  else .ok (db, syntaxerr)
where
  linsertAt (side : Side) : Result :=
    let k := arg argv 1
    let (db, o) := lookupKeyWrite env db k
    match o with
    | none => .ok (db, .int 0)
    | some (.list es) =>
      match listTypeInsert (arg argv 3) (arg argv 4) side es with
      | none => .ok (db, .int (-1))
      | some es => .ok (setValue db k (.list es), .int es.length)
    | some _ => .ok (db, wrongtypeerr)

def quicklistIndex (es : List Bytes) (index : ℤ) : Option ℕ :=
  let i := if index < 0 then es.length + index else index
  if 0 ≤ i ∧ i < es.length then some i.toNat else none

def lsetCommand (env : Env) (argv : List Bytes) (db : RedisDb) : Result :=
  let k := arg argv 1
  let (db, o) := lookupKeyWrite env db k
  match o with
  | none => .ok (db, nokeyerr)
  | some (.list es) =>
    match getLongFromObjectOrReply (arg argv 2) with
    | .error e => .ok (db, e)
    | .ok index =>
      match quicklistIndex es index with
      | none => .ok (db, outofrangeerr)
      | some i => .ok (setValue db k (.list (es.set i (arg argv 3))), .ok)
  | some _ => .ok (db, wrongtypeerr)

def popGenericCommand (side : Side) (env : Env) (argv : List Bytes) (db : RedisDb) : Result :=
  let k := arg argv 1
  let (db, o) := lookupKeyWrite env db k
  match o with
  | none => .ok (db, .null)
  | some (.list es) =>
    match listTypePop es side with
    | none => .ok (db, .null)
    | some (v, es) =>
      if es = [] then .ok (dbDelete db k, .bulk v) else .ok (setValue db k (.list es), .bulk v)
  | some _ => .ok (db, wrongtypeerr)

def quicklistDelRange (es : List Bytes) (start count : ℤ) : List Bytes :=
  if count ≤ 0 then es
  else
    match quicklistIndex es start with
    | none => es
    | some i => es.take i ++ es.drop (i+count.toNat)

def ltrimCommand (env : Env) (argv : List Bytes) (db : RedisDb) : Result :=
  match getLongFromObjectOrReply (arg argv 2), getLongFromObjectOrReply (arg argv 3) with
  | .error e, _ => .ok (db, e)
  | .ok _, .error e => .ok (db, e)
  | .ok start, .ok stop =>
    let k := arg argv 1
    let (db, o) := lookupKeyWrite env db k
    match o with
    | none => .ok (db, .ok)
    | some (.list es) =>
      let llen : ℤ := es.length
      let start := if start < 0 then llen+start else start
      let stop := if stop < 0 then llen+stop else stop
      let start := if start < 0 then 0 else start
      let (ltrim, rtrim) :=
        if start > stop ∨ start ≥ llen then (llen, 0)
        else
          let stop := if stop ≥ llen then llen-1 else stop
          (start, llen-stop-1)
      let es := quicklistDelRange es 0 ltrim
      let es := quicklistDelRange es (-rtrim) rtrim
      if es = [] then .ok (dbDelete db k, .ok) else .ok (setValue db k (.list es), .ok)
    | some _ => .ok (db, wrongtypeerr)

def lremLoop (obj : Bytes) (toremove : ℤ) : List Bytes → ℤ → List Bytes × ℤ
  | [], removed => ([], removed)
  | e :: es, removed =>
    if e = obj then
      if toremove ≠ 0 ∧ removed+1 = toremove then (es, removed+1)
      else lremLoop obj toremove es (removed+1)
    else
      let r := lremLoop obj toremove es removed
      (e :: r.1, r.2)

def lremCommand (env : Env) (argv : List Bytes) (db : RedisDb) : Result :=
  match getLongFromObjectOrReply (arg argv 2) with
  | .error e => .ok (db, e)
  | .ok toremove =>
    let k := arg argv 1
    let (db, o) := lookupKeyWrite env db k
    match o with
    | none => .ok (db, .int 0)
    | some (.list es) =>
      let (es, removed) :=
        if toremove < 0 then
          let r := lremLoop (arg argv 3) (-toremove) es.reverse 0
          (r.1.reverse, r.2)
        else lremLoop (arg argv 3) toremove es 0
      if es = [] then .ok (dbDelete db k, .int removed)
      else .ok (setValue db k (.list es), .int removed)
    | some _ => .ok (db, wrongtypeerr)

def listAt (db : RedisDb) (k : Bytes) : List Bytes :=
  match db.dict k with
  | some (.list es) => es
  | _ => []

def rpoplpushHandlePush (db : RedisDb) (dstkey : Bytes) (dstobj : Option Value) (v : Bytes) :
    Except Fault RedisDb := do
  let db ← (if dstobj.isNone then dbAdd db dstkey (.list []) else .ok db)
  return setValue db dstkey (.list (listTypePush (listAt db dstkey) v .head))

def rpoplpushCommand (env : Env) (argv : List Bytes) (db : RedisDb) : Result :=
  let src := arg argv 1
  let (db, sobj) := lookupKeyWrite env db src
  match sobj with
  | none => .ok (db, .null)
  | some (.list es) =>
    match listTypePop es .tail with
    | none => .ok (db, .null)
    | some (v, es) =>
      let (db, dobj) := lookupKeyWrite env db (arg argv 2)
      match dobj with
      | none => moved db src es none v
      | some (.list _) => moved db src es dobj v
      | some _ => .ok (db, wrongtypeerr)
  | some _ => .ok (db, wrongtypeerr)
where
  /-- The source has lost its last element `v`; it may be the destination too. -/
  moved (db : RedisDb) (src : Bytes) (es : List Bytes) (dobj : Option Value) (v : Bytes) : Result := do
    let db := setValue db src (.list es)
    let db ← rpoplpushHandlePush db (arg argv 2) dobj v
    if listAt db src = [] then return (dbDelete db src, .bulk v) else return (db, .bulk v)

def setTypeAdd (ms : List Bytes) (m : Bytes) : List Bytes × Bool :=
  if m ∈ ms then (ms, false) else (ms ++ [m], true)

def setTypeRemove (ms : List Bytes) (m : Bytes) : List Bytes × Bool :=
  if m ∈ ms then (ms.erase m, true) else (ms, false)

def setTypeRandomElement (random : ℕ) (ms : List Bytes) : Except Fault Bytes :=
  match ms[random % ms.length]? with
  | none => .error .randomElement
  | some m => .ok m

def addAll (ms vs : List Bytes) : List Bytes × ℕ :=
  vs.foldl (fun r v =>
    let a := setTypeAdd r.1 v
    (a.1, if a.2 then r.2+1 else r.2)) (ms, 0)

def saddCommand (env : Env) (argv : List Bytes) (db : RedisDb) : Result :=
  let k := arg argv 1
  let (db, o) := lookupKeyWrite env db k
  match o with
  | none => do
    let db ← dbAdd db k (.set [])
    let (ms, added) := addAll [] (argv.drop 2)
    return (setValue db k (.set ms), .int added)
  | some (.set ms) =>
    let (ms, added) := addAll ms (argv.drop 2)
    .ok (setValue db k (.set ms), .int added)
  | some _ => .ok (db, wrongtypeerr)

/-- The loop of `sremCommand` and `hdelCommand`, which stops when nothing is left: what is left, the
number of removed elements and whether the key goes. -/
def removeLoop {α : Type} (remove : List α → Bytes → List α × Bool) :
    List Bytes → List α → ℕ → List α × ℕ × Bool
  | [], ms, deleted => (ms, deleted, false)
  | v :: vs, ms, deleted =>
    let (ms, removed) := remove ms v
    if removed then
      if ms.length = 0 then (ms, deleted+1, true) else removeLoop remove vs ms (deleted+1)
    else removeLoop remove vs ms deleted

def sremCommand (env : Env) (argv : List Bytes) (db : RedisDb) : Result :=
  let k := arg argv 1
  let (db, o) := lookupKeyWrite env db k
  match o with
  | none => .ok (db, .int 0)
  | some (.set ms) =>
    let (ms, deleted, keyremoved) := removeLoop setTypeRemove (argv.drop 2) ms 0
    if keyremoved then .ok (dbDelete db k, .int deleted)
    else .ok (setValue db k (.set ms), .int deleted)
  | some _ => .ok (db, wrongtypeerr)

def smoveCommand (env : Env) (argv : List Bytes) (db : RedisDb) : Result :=
  let src := arg argv 1
  let dst := arg argv 2
  let ele := arg argv 3
  let (db, srcset) := lookupKeyWrite env db src
  let (db, dstset) := lookupKeyWrite env db dst
  match srcset with
  | none => .ok (db, .int 0)
  | some (.set ms) =>
    match dstset with
    | none => moved db src dst ele ms none
    | some (.set ds) => moved db src dst ele ms (some ds)
    | some _ => .ok (db, wrongtypeerr)
  | some _ => .ok (db, wrongtypeerr)
where
  moved (db : RedisDb) (src dst ele : Bytes) (ms : List Bytes) (dstset : Option (List Bytes)) : Result :=
    if src = dst then .ok (db, .int (if ele ∈ ms then 1 else 0))
    else
      let (ms, removed) := setTypeRemove ms ele
      if removed = false then .ok (db, .int 0)
      else do
        let db := if ms.length = 0 then dbDelete db src else setValue db src (.set ms)
        let db ← (if dstset.isNone then dbAdd db dst (.set []) else .ok db)
        return (setValue db dst (.set (setTypeAdd (dstset.getD []) ele).1), .int 1)

def spopSome (random : ℕ → ℕ) : ℕ → List Bytes → Except Fault (List Bytes × List Bytes)
  | 0, ms => .ok (ms, [])
  | count+1, ms => do
    let m ← setTypeRandomElement (random count) ms
    let (rest, popped) ← spopSome random count (setTypeRemove ms m).1
    return (rest, m :: popped)

def spopKeep (random : ℕ → ℕ) : ℕ → List Bytes → List Bytes → Except Fault (List Bytes × List Bytes)
  | 0, ms, newset => .ok (newset, ms)
  | remaining+1, ms, newset => do
    let m ← setTypeRandomElement (random remaining) ms
    spopKeep random remaining (setTypeRemove ms m).1 (setTypeAdd newset m).1

/-- The members of a set after a header with its `int cardinality`. -/
def addReplySet (ms : List Bytes) : Reply :=
  if toInt ms.length = ms.length then .array (ms.map some) else .wrongHeader (toInt ms.length) ms

def spopWithCountCommand (env : Env) (argv : List Bytes) (db : RedisDb) : Result :=
  match getLongFromObjectOrReply (arg argv 2) with
  | .error e => .ok (db, e)
  | .ok l =>
    if l < 0 then .ok (db, outofrangeerr)
    else
      let count := l.toNat
      let k := arg argv 1
      let (db, o) := lookupKeyWrite env db k
      match o with
      | none => .ok (db, .emptySet)
      | some (.set ms) =>
        if count = 0 then .ok (db, .emptySet)
        else if count ≥ ms.length then .ok (dbDelete db k, addReplySet ms)
        else if (ms.length-count)*5 > count then do
          let (rest, popped) ← spopSome env.random count ms
          return (setValue db k (.set rest), .array (popped.map some))
        else do
          let (newset, rest) ← spopKeep env.random (ms.length-count) ms []
          let db ← dbOverwrite db k (.set newset)
          return (db, .array (rest.map some))
      | some _ => .ok (db, wrongtypeerr)

def spopCommand (env : Env) (argv : List Bytes) (db : RedisDb) : Result :=
  if argv.length = 3 then spopWithCountCommand env argv db
  else if argv.length > 3 then .ok (db, syntaxerr)
  else
    let k := arg argv 1
    let (db, o) := lookupKeyWrite env db k
    match o with
    | none => .ok (db, .null)
    | some (.set ms) => do
      let m ← setTypeRandomElement (env.random 0) ms
      let ms := (setTypeRemove ms m).1
      if ms.length = 0 then return (dbDelete db k, .bulk m) else return (setValue db k (.set ms), .bulk m)
    | some _ => .ok (db, wrongtypeerr)

/-- What the loop over the keys of SINTERSTORE finds: the sets, a key that is not there, or a key of
another type. -/
inductive SourceSets where
  | sets (s : List (List Bytes))
  | missing
  | wrongtype

def sinterSets (env : Env) : List Bytes → RedisDb → RedisDb × SourceSets
  | [], db => (db, .sets [])
  | k :: ks, db =>
    let (db, o) := lookupKeyWrite env db k
    match o with
    | none => (db, .missing)
    | some (.set ms) =>
      match sinterSets env ks db with
      | (db, .sets s) => (db, .sets (ms :: s))
      | r => r
    | some _ => (db, .wrongtype)

def storeSet (db : RedisDb) (dstkey : Bytes) (dstset : List Bytes) : Result := do
  let db := dbDelete db dstkey
  if dstset.length > 0 then
    let db ← dbAdd db dstkey (.set dstset)
    return (db, .int dstset.length)
  else return (db, .int 0)

def intersection : List (List Bytes) → List Bytes
  | [] => []
  | first :: others => first.filter (fun m => others.all (fun s => decide (m ∈ s)))

def sinterstoreCommand (env : Env) (argv : List Bytes) (db : RedisDb) : Result :=
  let dstkey := arg argv 1
  match sinterSets env (argv.drop 2) db with
  | (db, .missing) => .ok (dbDelete db dstkey, .int 0)
  | (db, .wrongtype) => .ok (db, wrongtypeerr)
  | (db, .sets sets) =>
    let sets := sets.mergeSort (fun s1 s2 => s1.length ≤ s2.length)
    let dstset := (intersection sets).foldl (fun d m => (setTypeAdd d m).1) []
    storeSet db dstkey dstset

/-- A key that is not there counts as an empty set. -/
def sunionDiffSets (env : Env) : List Bytes → RedisDb → RedisDb × Option (List (Option (List Bytes)))
  | [], db => (db, some [])
  | k :: ks, db =>
    let (db, o) := lookupKeyWrite env db k
    match o with
    | none => ((sunionDiffSets env ks db).1, (sunionDiffSets env ks db).2.map (none :: ·))
    | some (.set ms) =>
      ((sunionDiffSets env ks db).1, (sunionDiffSets env ks db).2.map (some ms :: ·))
    | some _ => (db, none)

inductive SetOp where
  | union
  | diff
deriving DecidableEq, Repr

def unionSets (sets : List (Option (List Bytes))) : List Bytes :=
  sets.foldl (fun d s => (s.getD []).foldl (fun d m => (setTypeAdd d m).1) d) []

def diffOne (first : List Bytes) (others : List (Option (List Bytes))) : List Bytes :=
  (first.filter (fun m => others.all (fun s => decide (m ∉ s.getD [])))).foldl
    (fun d m => (setTypeAdd d m).1) []

/-- DIFF algorithm 2: the elements of the other sets are removed from the first one, until the
`int cardinality`, which counts what is left, is 0. -/
def diffTwo (first : List Bytes) (others : List (Option (List Bytes))) : List Bytes :=
  others.foldl
    (fun d s => if toInt d.length = 0 then d else (s.getD []).foldl (fun d m => (setTypeRemove d m).1) d)
    (first.foldl (fun d m => (setTypeAdd d m).1) [])

def diffSets : List (Option (List Bytes)) → List Bytes
  | [] => []
  | none :: _ => []
  | some first :: others =>
    let present := (some first :: others).filterMap id
    let algoOneWork := present.length*first.length/2
    let algoTwoWork := (present.map List.length).sum
    if algoOneWork ≤ algoTwoWork then
      diffOne first (others.mergeSort (fun s1 s2 => (s2.getD []).length ≤ (s1.getD []).length))
    else diffTwo first others

def sunionDiffGenericCommand (op : SetOp) (env : Env) (argv : List Bytes) (db : RedisDb) : Result :=
  match sunionDiffSets env (argv.drop 2) db with
  | (db, none) => .ok (db, wrongtypeerr)
  | (db, some sets) =>
    let dstset := match op with
      | .union => unionSets sets
      | .diff => diffSets sets
    storeSet db (arg argv 1) dstset

def hashTypeGetValue (fs : List (Bytes × Bytes)) (field : Bytes) : Option Bytes := fs.lookup field

def hashTypeExists (fs : List (Bytes × Bytes)) (field : Bytes) : Bool :=
  (hashTypeGetValue fs field).isSome

def hashTypeSet (fs : List (Bytes × Bytes)) (field v : Bytes) : List (Bytes × Bytes) × Bool :=
  if hashTypeExists fs field then
    (fs.map (fun f => if f.1 = field then (field, v) else f), true)
  else (fs ++ [(field, v)], false)

def hashTypeDelete (fs : List (Bytes × Bytes)) (field : Bytes) : List (Bytes × Bytes) × Bool :=
  if hashTypeExists fs field then (fs.filter (fun f => f.1 ≠ field), true) else (fs, false)

/-- A key that is not there becomes an empty hash.  Without a hash the error has been replied. -/
def hashTypeLookupWriteOrCreate (env : Env) (db : RedisDb) (k : Bytes) :
    Except Fault (RedisDb × Option (List (Bytes × Bytes))) := do
  let (db, o) := lookupKeyWrite env db k
  match o with
  | none =>
    let db ← dbAdd db k (.hash [])
    return (db, some [])
  | some (.hash fs) => return (db, some fs)
  | some _ => return (db, none)

def hsetnxCommand (env : Env) (argv : List Bytes) (db : RedisDb) : Result := do
  let k := arg argv 1
  let (db, o) ← hashTypeLookupWriteOrCreate env db k
  match o with
  | none => return (db, wrongtypeerr)
  | some fs =>
    if hashTypeExists fs (arg argv 2) then return (db, .int 0)
    else return (setValue db k (.hash (hashTypeSet fs (arg argv 2) (arg argv 3)).1), .int 1)

def hsetLoop : List Bytes → List (Bytes × Bytes) → ℕ → List (Bytes × Bytes) × ℕ
  | field :: v :: rest, fs, created =>
    let r := hashTypeSet fs field v
    hsetLoop rest r.1 (if r.2 then created else created+1)
  | _, fs, created => (fs, created)

def hsetCommand (name : String) (env : Env) (argv : List Bytes) (db : RedisDb) : Result :=
  if argv.length % 2 = 1 then
    .ok (db, addReplyError ("wrong number of arguments for '" ++ name ++ "' command"))
  else do
    let k := arg argv 1
    let (db, o) ← hashTypeLookupWriteOrCreate env db k
    match o with
    | none => return (db, wrongtypeerr)
    | some fs =>
      let (fs, created) := hsetLoop (argv.drop 2) fs 0
      let c := (arg argv 0).getD 1 0
      return (setValue db k (.hash fs), if c = 115 ∨ c = 83 then .int created else .ok)

def hdelCommand (env : Env) (argv : List Bytes) (db : RedisDb) : Result :=
  let k := arg argv 1
  let (db, o) := lookupKeyWrite env db k
  match o with
  | none => .ok (db, .int 0)
  | some (.hash fs) =>
    let (fs, deleted, keyremoved) := removeLoop hashTypeDelete (argv.drop 2) fs 0
    if keyremoved then .ok (dbDelete db k, .int deleted)
    else .ok (setValue db k (.hash fs), .int deleted)
  | some _ => .ok (db, wrongtypeerr)

def wouldOverflow (oldvalue incr : ℤ) : Bool :=
  (decide (incr < 0) && decide (oldvalue < 0) && decide (incr < -2^63-oldvalue)) ||
    (decide (incr > 0) && decide (oldvalue > 0) && decide (incr > 2^63-1-oldvalue))

def hincrbyCommand (env : Env) (argv : List Bytes) (db : RedisDb) : Result :=
  match getLongFromObjectOrReply (arg argv 3) with
  | .error e => .ok (db, e)
  | .ok incr => do
    let k := arg argv 1
    let field := arg argv 2
    let (db, o) ← hashTypeLookupWriteOrCreate env db k
    match o with
    | none => return (db, wrongtypeerr)
    | some fs =>
      let oldvalue := match hashTypeGetValue fs field with
        | none => some 0
        | some v => string2ll v
      match oldvalue with
      | none => return (db, addReplyError "hash value is not an integer")
      | some oldvalue =>
        if wouldOverflow oldvalue incr then
          return (db, addReplyError "increment or decrement would overflow")
        else
          let v := oldvalue+incr
          return (setValue db k (.hash (hashTypeSet fs field (decimal v)).1), .int v)

def hincrbyfloatCommand (l : Libc) (env : Env) (argv : List Bytes) (db : RedisDb) : Result :=
  match l.string2ld (arg argv 3) with
  | none => .ok (db, addReplyError "value is not a valid float")
  | some incr => do
    let k := arg argv 1
    let field := arg argv 2
    let (db, o) ← hashTypeLookupWriteOrCreate env db k
    match o with
    | none => return (db, wrongtypeerr)
    | some fs =>
      let oldvalue := match hashTypeGetValue fs field with
        | none => some l.ldZero
        | some v => l.string2ld v
      match oldvalue with
      | none => return (db, addReplyError "hash value is not a float")
      | some oldvalue =>
        let v := l.ldAdd oldvalue incr
        if l.ldIsNanOrInf v then
          -- the hash stays, also when it has just been created
          return (db, addReplyError "increment would produce NaN or Infinity")
        else
          let new := l.ld2string v
          return (setValue db k (.hash (hashTypeSet fs field new).1), .bulk new)

end RedisCore.Collection
