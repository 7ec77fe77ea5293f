import RedisCore.CollectionModel

/-! SORT (`sort.c`), the table of the commands (`server.c`), and runs of commands. -/

namespace RedisCore.Collection

def strstrArrow : Bytes → Option ℕ
  | [] => none
  | c :: cs => if c = 45 ∧ cs.head? = some 62 then some 0 else (strstrArrow cs).map (· + 1)

/-- The key of a pattern and its field: what stands before `*`, behind it, and behind `->` when that is
not the end. -/
def splitPattern (spat : Bytes) : Option (Bytes × Bytes × Option Bytes) :=
  let p := (cString spat).findIdx (· = 42)
  if p ≥ (cString spat).length then none
  else
    let front := spat.take p
    let back := spat.drop (p+1)
    match strstrArrow (cString back) with
    | none => some (front, back, none)
    | some f =>
      if f+2 < (cString back).length then some (front, back.take f, some (back.drop (f+2)))
      else some (front, back, none)

def lookupKeyByPattern (env : Env) (db : RedisDb) (pattern subst : Bytes) : RedisDb × Option Bytes :=
  if cString pattern = [35] then (db, some subst)
  else
    match splitPattern pattern with
    | none => (db, none)
    | some (front, back, field) =>
      let (db, o) := lookupKeyRead env db (front ++ subst ++ back)
      match o, field with
      | some (.hash fs), some field => (db, hashTypeGetValue fs field)
      | some (.string s), none => (db, some s)
      | _, _ => (db, none)

structure SortOptions where
  desc : Bool
  alpha : Bool
  limitStart : ℤ
  limitCount : ℤ
  storekey : Option Bytes
  sortby : Option Bytes
  dontsort : Bool
  gets : List Bytes
deriving DecidableEq, Repr

def sortDefaults : SortOptions :=
  { desc := false
    alpha := false
    limitStart := 0
    limitCount := -1
    storekey := none
    sortby := none
    dontsort := false
    gets := [] }

def parseSortOptions (cfg : ServerConfig) : List Bytes → SortOptions → Except Reply SortOptions
  | [], o => .ok o
  | a :: rest, o =>
    if sameCaseless a (text "asc") then parseSortOptions cfg rest { o with desc := false }
    else if sameCaseless a (text "desc") then parseSortOptions cfg rest { o with desc := true }
    else if sameCaseless a (text "alpha") then parseSortOptions cfg rest { o with alpha := true }
    else
      match rest with
      | [] => .error syntaxerr
      | b :: rest =>
        if sameCaseless a (text "limit") then
          match rest with
          | [] => .error syntaxerr
          | c :: rest =>
            match getLongFromObjectOrReply b, getLongFromObjectOrReply c with
            | .error e, _ => .error e
            | .ok _, .error e => .error e
            | .ok start, .ok count =>
              parseSortOptions cfg rest { o with limitStart := start, limitCount := count }
        else if sameCaseless a (text "store") then
          parseSortOptions cfg rest { o with storekey := some b }
        else if sameCaseless a (text "by") then
          if 42 ∉ cString b then
            parseSortOptions cfg rest { o with sortby := some b, dontsort := true }
          else if cfg.clusterEnabled then
            .error (addReplyError "BY option of SORT denied in Cluster mode.")
          else parseSortOptions cfg rest { o with sortby := some b }
        else if sameCaseless a (text "get") then
          if cfg.clusterEnabled then
            .error (addReplyError "GET option of SORT denied in Cluster mode.")
          else parseSortOptions cfg rest { o with gets := o.gets ++ [b] }
        else .error syntaxerr

/-- The elements to sort and whether they are those of a set.  A key that is not there counts as an
empty list. -/
def sortElements : Option Value → Option (Bool × List Bytes)
  | none => some (false, [])
  | some (.list es) => some (false, es)
  | some (.set ms) => some (true, ms)
  | some _ => none

/-- A set is sorted before it is stored also when `BY` says not to. -/
def forceAlpha (o : SortOptions) (isSet : Bool) : SortOptions :=
  if o.dontsort && isSet && o.storekey.isSome then
    { o with dontsort := false, alpha := true, sortby := none }
  else o

def sortLimits (o : SortOptions) (vectorlen : ℤ) : ℤ × ℤ :=
  let start := if o.limitStart < 0 then 0 else o.limitStart
  let stop := if o.limitCount < 0 then vectorlen-1 else toLong (start+o.limitCount-1)
  let (start, stop) := if start ≥ vectorlen then (vectorlen-1, vectorlen-2) else (start, stop)
  (start, if stop ≥ vectorlen then vectorlen-1 else stop)

/-- A list whose order stays is loaded only where the limits say, and then the limits are those of
the vector. -/
structure Loaded where
  objs : List Bytes
  start : ℤ
  stop : ℤ
deriving DecidableEq, Repr

def sortLoad (o : SortOptions) (isSet : Bool) (es : List Bytes) : Except Fault Loaded :=
  let vectorlen := toInt es.length
  let (start, stop) := sortLimits o vectorlen
  let direct := !isSet && o.dontsort
  let vectorlen :=
    if direct && (start ≠ 0 || stop ≠ vectorlen-1) then toInt (toLong (stop-start+1)) else vectorlen
  if vectorlen < 0 then .error .outOfMemory
  else
    let loaded : Loaded :=
      if direct then
        if stop ≥ start then
          { objs := ((if o.desc then es.reverse else es).drop start.toNat).take vectorlen.toNat
            start := 0
            stop := stop-start }
        else { objs := [], start := start, stop := stop }
      else { objs := es, start := start, stop := stop }
    if loaded.objs.length ≠ vectorlen then .error .sortVector else .ok loaded

structure SortObject (l : Libc) where
  obj : Bytes
  score : l.Double
  cmpobj : Option Bytes

/-- The value to sort an element by; `none` when the pattern has none. -/
def sortByValue (env : Env) (o : SortOptions) (db : RedisDb) (obj : Bytes) : RedisDb × Option Bytes :=
  match o.sortby with
  | none => (db, some obj)
  | some pattern => lookupKeyByPattern env db pattern obj

/-- The scores of the vector, and whether one could not be converted. -/
def sortScores (l : Libc) (env : Env) (o : SortOptions) :
    List Bytes → RedisDb → RedisDb × List (SortObject l) × Bool
  | [], db => (db, [], false)
  | obj :: objs, db =>
    let (db, byval) := sortByValue env o db obj
    let (db, rest, conversionError) := sortScores l env o objs db
    match byval with
    | none => (db, { obj := obj, score := l.dZero, cmpobj := none } :: rest, conversionError)
    | some byval =>
      if o.alpha then
        (db, { obj := obj, score := l.dZero, cmpobj := o.sortby.map (fun _ => byval) } :: rest,
          conversionError)
      else
        let (score, converted) := l.strtod byval
        (db, { obj := obj, score := score, cmpobj := none } :: rest,
          conversionError || !converted || env.errnoRange byval)

def sortCompare (l : Libc) (o : SortOptions) (so1 so2 : SortObject l) : Ordering :=
  let collate := if o.storekey.isSome then sdscmp else l.strcoll
  let cmp :=
    if o.alpha = false then
      if l.dLt so2.score so1.score then .gt
      else if l.dLt so1.score so2.score then .lt
      else sdscmp so1.obj so2.obj
    else if o.sortby.isSome then
      match so1.cmpobj, so2.cmpobj with
      | none, none => .eq
      | none, some _ => .lt
      | some _, none => .gt
      | some c1, some c2 => collate c1 c2
    else collate so1.obj so2.obj
  if o.desc then cmp.swap else cmp

def sortVector (l : Libc) (env : Env) (o : SortOptions) (objs : List Bytes) (db : RedisDb) :
    RedisDb × List Bytes × Bool :=
  if o.dontsort then (db, objs, false)
  else
    let (db, vector, conversionError) := sortScores l env o objs db
    let sorted := vector.mergeSort (fun so1 so2 => sortCompare l o so1 so2 ≠ .gt)
    (db, sorted.map SortObject.obj, conversionError)

/-- The elements from `start` to `stop`, none when `stop` is before `start`. -/
def sortRange (objs : List Bytes) (start stop : ℤ) : Except Fault (List Bytes) :=
  if stop < start then .ok []
  else if start < 0 ∨ stop ≥ objs.length then .error .sortElement
  else .ok ((objs.drop start.toNat).take (stop-start+1).toNat)

def sortGets (env : Env) (obj : Bytes) : List Bytes → RedisDb → RedisDb × List (Option Bytes)
  | [], db => (db, [])
  | pattern :: gets, db =>
    let (db, v) := lookupKeyByPattern env db pattern obj
    let (db, vs) := sortGets env obj gets db
    (db, v :: vs)

def sortOutput (env : Env) (gets : List Bytes) : List Bytes → RedisDb → RedisDb × List (Option Bytes)
  | [], db => (db, [])
  | obj :: objs, db =>
    let (db, vs) := if gets = [] then (db, [some obj]) else sortGets env obj gets db
    let (db, rest) := sortOutput env gets objs db
    (db, vs ++ rest)

/-- The `unsigned int` of the reply, which also says whether there is something to store. -/
def sortOutputLen (o : SortOptions) (start stop : ℤ) : ℤ :=
  (if o.gets = [] then stop-start+1 else o.gets.length*(stop-start+1)) % 2^32

def sortStore (env : Env) (db : RedisDb) (storekey : Bytes) (outputlen : ℤ)
    (output : List (Option Bytes)) : Result := do
  if outputlen ≠ 0 then
    let db ← setKey env db storekey (.list (output.map (fun v => v.getD [])))
    return (db, .int outputlen)
  else return (dbDelete db storekey, .int outputlen)

def sortCommand (cfg : ServerConfig) (env : Env) (argv : List Bytes) (db : RedisDb) : Result :=
  match parseSortOptions cfg (argv.drop 2) sortDefaults with
  | .error e => .ok (db, e)
  | .ok o =>
    let (db, sortval) :=
      if o.storekey.isSome then lookupKeyRead env db (arg argv 1)
      else lookupKeyWrite env db (arg argv 1)
    match sortElements sortval with
    | none => .ok (db, wrongtypeerr)
    | some (isSet, es) => do
      let o := forceAlpha o isSet
      let loaded ← sortLoad o isSet es
      let (db, objs, conversionError) := sortVector cfg.libc env o loaded.objs db
      if conversionError then
        return (db, addReplyError "One or more scores can't be converted into double")
      else
        let objs ← sortRange objs loaded.start loaded.stop
        let (db, output) := sortOutput env o.gets objs db
        match o.storekey with
        | none => return (db, .array output)
        | some storekey => sortStore env db storekey (sortOutputLen o loaded.start loaded.stop) output

structure RedisCommand where
  name : String
  proc : ServerConfig → Env → List Bytes → RedisDb → Result
  arity : ℤ

def redisCommandTable : List RedisCommand := [
  ⟨"rpush", fun _ => pushGenericCommand .tail, -3⟩,
  ⟨"lpush", fun _ => pushGenericCommand .head, -3⟩,
  ⟨"rpushx", fun _ => pushxGenericCommand .tail, -3⟩,
  ⟨"lpushx", fun _ => pushxGenericCommand .head, -3⟩,
  ⟨"linsert", fun _ => linsertCommand, 5⟩,
  ⟨"rpop", fun _ => popGenericCommand .tail, 2⟩,
  ⟨"lpop", fun _ => popGenericCommand .head, 2⟩,
  ⟨"lset", fun _ => lsetCommand, 4⟩,
  ⟨"ltrim", fun _ => ltrimCommand, 4⟩,
  ⟨"lrem", fun _ => lremCommand, 4⟩,
  ⟨"rpoplpush", fun _ => rpoplpushCommand, 3⟩,
  ⟨"sadd", fun _ => saddCommand, -3⟩,
  ⟨"srem", fun _ => sremCommand, -3⟩,
  ⟨"smove", fun _ => smoveCommand, 4⟩,
  ⟨"spop", fun _ => spopCommand, -2⟩,
  ⟨"sinterstore", fun _ => sinterstoreCommand, -3⟩,
  ⟨"sunionstore", fun _ => sunionDiffGenericCommand .union, -3⟩,
  ⟨"sdiffstore", fun _ => sunionDiffGenericCommand .diff, -3⟩,
  ⟨"hset", fun _ => hsetCommand "hset", -4⟩,
  ⟨"hsetnx", fun _ => hsetnxCommand, 4⟩,
  ⟨"hmset", fun _ => hsetCommand "hmset", -4⟩,
  ⟨"hincrby", fun _ => hincrbyCommand, 4⟩,
  ⟨"hincrbyfloat", fun cfg => hincrbyfloatCommand cfg.libc, 4⟩,
  ⟨"hdel", fun _ => hdelCommand, -3⟩,
  ⟨"sort", sortCommand, -2⟩]

def lookupCommand (name : Bytes) : Option RedisCommand :=
  redisCommandTable.find? (fun c => sameCaseless (text c.name) name)

def processCommand (cfg : ServerConfig) (env : Env) (cmd : RedisCommand) (argv : List Bytes)
    (db : RedisDb) : Result :=
  if (cmd.arity > 0 ∧ cmd.arity ≠ argv.length) ∨ (argv.length : ℤ) < -cmd.arity then
    .ok (db, addReplyError ("wrong number of arguments for '" ++ cmd.name ++ "' command"))
  else cmd.proc cfg env argv db

def setCommand (env : Env) (k v : Bytes) (db : RedisDb) : Result := do
  let db ← setKey env db k (.string v)
  return (db, .ok)

def expireCommand (env : Env) (k : Bytes) (when : ℤ) (db : RedisDb) : Result :=
  let (db, o) := lookupKeyWrite env db k
  match o with
  | none => .ok (db, .int 0)
  | some _ =>
    if when ≤ env.now ∧ env.slave = false then .ok (dbDelete db k, .int 1)
    else .ok ({ db with expires := Function.update db.expires k (some when) }, .int 1)

inductive Event where
  | command (cmd : RedisCommand) (argv : List Bytes)
  | set (k v : Bytes)
  | expire (k : Bytes) (when : ℤ)

def step (cfg : ServerConfig) (env : Env) (e : Event) (db : RedisDb) : Result :=
  match e with
  | .command cmd argv => processCommand cfg env cmd argv db
  | .set k v => setCommand env k v db
  | .expire k when => expireCommand env k when db

end RedisCore.Collection
