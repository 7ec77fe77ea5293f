import RedisCore.CTypes
import RedisCore.RaxSet
import Mathlib.Logic.Function.Basic

/-! The key space (`db.c`, `expire.c`): the dictionaries of a database, the expire times, the index
from slots to keys, and the watched keys of the clients (`multi.c`). -/

namespace RedisCore.Keyspace

open RaxSet

abbrev Slot := Fin 16384

instance slotsNeZero : NeZero 16384 := ⟨by decide⟩

abbrev ClientId := ℕ

structure RedisDb (V : Type) where
  dict : Bytes → Option V
  expires : Bytes → Option ℤ

structure SetFlags where
  nx : Bool
  xx : Bool
  keepttl : Bool
deriving DecidableEq, Repr

/-- The commands on keys.  A command of the kind `update` creates the key, changes its value in place
or removes it when nothing is left, as INCR, LPUSH and LPOP do. -/
inductive Command (V : Type) where
  | get (k : Bytes)
  | set (k : Bytes) (v : V) (flags : SetFlags) (expire : Option ℤ)
  | update (k : Bytes) (f : Option V → Option V)
  | del (ks : List Bytes)
  | expireAt (k : Bytes) (when : ℤ)
  | persist (k : Bytes)
  | rename (k k' : Bytes) (nx : Bool)
  | move (k : Bytes) (dbid : ℕ)
  | select (id : ℕ)
  | flushdb
  | flushall
  | swapdb (id1 id2 : ℕ)
  | unwatch

/-- `watchedKey`.  The last three fields are history: what the dictionary had under the key at the
WATCH, whether that had expired, and the number of changes to the key space before. -/
structure WatchedKey (V : Type) where
  key : Bytes
  db : ℕ
  value : Option V
  expired : Bool
  since : ℕ

structure Client (V : Type) where
  db : ℕ
  multi : Bool
  dirtyCas : Bool
  dirtyExec : Bool
  commands : List (Command V)
  watchedKeys : List (WatchedKey V)

/-- The databases, their `watched_keys`, the clients and the slots of the cluster.  `changes` is
history: for each change of the key space the keys that it writes or deletes. -/
structure Server (V : Type) where
  dbs : ℕ → RedisDb V
  watchedKeys : ℕ → Bytes → Option (List ClientId)
  clients : ClientId → Client V
  slotsToKeys : List Bytes
  slotsKeysCount : Slot → ℤ
  changes : List (ℕ → Bytes → Bool)

structure ServerConfig where
  dbnum : ℕ
  dbnum_pos : 0 < dbnum
  clusterEnabled : Bool
  keyHashSlot : Bytes → Slot

structure Env where
  now : ℤ
  slave : Bool
  loading : Bool
deriving DecidableEq, Repr

/-- The assertions that may fail. -/
inductive KeyspaceFault where
  | dbAdd
  | dbOverwrite
  | setExpire
  | removeExpire
  | getExpire
  | expireDeleted
  | unwatchAllKeys
  | noMoreKeys
deriving DecidableEq, Repr

inductive Reply (V : Type) where
  | ok
  | error
  | null
  | int (n : ℕ)
  | value (v : V)
  | queued
  | execAbort
  | nullArray
  | array (rs : List (Reply V))

variable {V : Type}

def emptyDb : RedisDb V :=
  { dict := fun _ => none
    expires := fun _ => none }

def freshClient : Client V :=
  { db := 0
    multi := false
    dirtyCas := false
    dirtyExec := false
    commands := []
    watchedKeys := [] }

def emptyServer : Server V :=
  { dbs := fun _ => emptyDb
    watchedKeys := fun _ _ => none
    clients := fun _ => freshClient
    slotsToKeys := []
    slotsKeysCount := fun _ => 0
    changes := [] }

def setClient (s : Server V) (c : ClientId) (client : Client V) : Server V :=
  { s with clients := Function.update s.clients c client }

def slotBytes (hashslot : Slot) : Bytes :=
  [UInt8.ofNat (hashslot.val / 256), UInt8.ofNat hashslot.val]

def slotKey (cfg : ServerConfig) (k : Bytes) : Bytes := slotBytes (cfg.keyHashSlot k) ++ k

def slotToKeyUpdateKey (cfg : ServerConfig) (s : Server V) (k : Bytes) (add : Bool) : Server V :=
  let hashslot := cfg.keyHashSlot k
  { s with
    slotsKeysCount := Function.update s.slotsKeysCount hashslot
      (s.slotsKeysCount hashslot + (if add then 1 else -1))
    slotsToKeys := if add then raxInsert (slotKey cfg k) s.slotsToKeys
      else raxRemove (slotKey cfg k) s.slotsToKeys }

def slotToKeyFlush (s : Server V) : Server V :=
  { s with
    slotsKeysCount := fun _ => 0
    slotsToKeys := [] }

def oneKey (d : ℕ) (k : Bytes) (d' : ℕ) (k' : Bytes) : Bool := decide (d' = d) && decide (k' = k)

def setDict (s : Server V) (d : ℕ) (k : Bytes) (v : Option V) : Server V :=
  { s with
    dbs := Function.update s.dbs d
      { s.dbs d with dict := Function.update (s.dbs d).dict k v }
    changes := s.changes ++ [oneKey d k] }

def setExpires (s : Server V) (d : ℕ) (k : Bytes) (t : Option ℤ) : Server V :=
  { s with
    dbs := Function.update s.dbs d
      { s.dbs d with expires := Function.update (s.dbs d).expires k t }
    changes := s.changes ++ [oneKey d k] }

def touchWatchedKey (s : Server V) (d : ℕ) (k : Bytes) : Server V :=
  match s.watchedKeys d k with
  | none => s
  | some clients => { s with
      clients := fun c =>
        if c ∈ clients then { s.clients c with dirtyCas := true } else s.clients c }

def inDb (dbid : Option ℕ) (d : ℕ) : Bool := decide (dbid = none ∨ dbid = some d)

def touchWatchedKeysOnFlush (s : Server V) (dbid : Option ℕ) : Server V :=
  { s with
    clients := fun c =>
      if (s.clients c).watchedKeys.any
          (fun wk => inDb dbid wk.db && ((s.dbs wk.db).dict wk.key).isSome) then
        { s.clients c with dirtyCas := true }
      else s.clients c }

def dbAdd (cfg : ServerConfig) (s : Server V) (d : ℕ) (k : Bytes) (v : V) :
    Except KeyspaceFault (Server V) :=
  match (s.dbs d).dict k with
  | some _ => .error .dbAdd
  | none =>
    let s := setDict s d k (some v)
    .ok (if cfg.clusterEnabled then slotToKeyUpdateKey cfg s k true else s)

def dbOverwrite (s : Server V) (d : ℕ) (k : Bytes) (v : V) : Except KeyspaceFault (Server V) :=
  match (s.dbs d).dict k with
  | none => .error .dbOverwrite
  | some _ => .ok (setDict s d k (some v))

def dbDelete (cfg : ServerConfig) (s : Server V) (d : ℕ) (k : Bytes) : Server V × Bool :=
  let s := if ((s.dbs d).expires k).isSome then setExpires s d k none else s
  match (s.dbs d).dict k with
  | none => (s, false)
  | some _ =>
    let s := setDict s d k none
    (if cfg.clusterEnabled then slotToKeyUpdateKey cfg s k false else s, true)

def removeExpire (s : Server V) (d : ℕ) (k : Bytes) : Except KeyspaceFault (Server V × Bool) :=
  match (s.dbs d).dict k with
  | none => .error .removeExpire
  | some _ =>
    if ((s.dbs d).expires k).isSome then .ok (setExpires s d k none, true) else .ok (s, false)

def setExpire (s : Server V) (d : ℕ) (k : Bytes) (when : ℤ) : Except KeyspaceFault (Server V) :=
  match (s.dbs d).dict k with
  | none => .error .setExpire
  | some _ => .ok (setExpires s d k (some when))

/-- -1 stands for no expire time. -/
def getExpire (s : Server V) (d : ℕ) (k : Bytes) : Except KeyspaceFault ℤ :=
  match (s.dbs d).expires k with
  | none => .ok (-1)
  | some t =>
    match (s.dbs d).dict k with
    | none => .error .getExpire
    | some _ => .ok t

def expireTimePassed (env : Env) (when : ℤ) : Bool :=
  !decide (when < 0) && !env.loading && decide (when < env.now)

def keyIsExpired (env : Env) (s : Server V) (d : ℕ) (k : Bytes) : Except KeyspaceFault Bool := do
  let when ← getExpire s d k
  .ok (expireTimePassed env when)

def expireIfNeeded (cfg : ServerConfig) (env : Env) (s : Server V) (d : ℕ) (k : Bytes) :
    Except KeyspaceFault (Server V × Bool) := do
  let expired ← keyIsExpired env s d k
  if expired = false then .ok (s, false)
  else if env.slave then .ok (s, true)
  else
    let (s, deleted) := dbDelete cfg s d k
    .ok (if deleted then touchWatchedKey s d k else s, deleted)

/-- The entry of `expires` that the cycle looks at may be any. -/
def activeExpireCycleTryExpire (cfg : ServerConfig) (env : Env) (s : Server V) (d : ℕ) (k : Bytes) :
    Server V :=
  match (s.dbs d).expires k with
  | none => s
  | some t =>
    if t < env.now then touchWatchedKey (dbDelete cfg s d k).1 d k else s

/-- A slave answers a read of an expired key as if the key were not there. -/
def lookupKeyRead (cfg : ServerConfig) (env : Env) (s : Server V) (d : ℕ) (k : Bytes) :
    Except KeyspaceFault (Server V × Option V) := do
  let (s, expired) ← expireIfNeeded cfg env s d k
  .ok (s, if expired then none else (s.dbs d).dict k)

def lookupKeyWrite (cfg : ServerConfig) (env : Env) (s : Server V) (d : ℕ) (k : Bytes) :
    Except KeyspaceFault (Server V × Option V) := do
  let (s, _) ← expireIfNeeded cfg env s d k
  .ok (s, (s.dbs d).dict k)

def genericSetKey (cfg : ServerConfig) (env : Env) (s : Server V) (d : ℕ) (k : Bytes) (v : V)
    (keepttl signal : Bool) : Except KeyspaceFault (Server V) := do
  let (s, o) ← lookupKeyWrite cfg env s d k
  let s ← (if o.isNone then dbAdd cfg s d k v else dbOverwrite s d k v)
  let s ← (if keepttl then .ok s else Except.map Prod.fst (removeExpire s d k))
  .ok (if signal then touchWatchedKey s d k else s)

def getCommand (cfg : ServerConfig) (env : Env) (s : Server V) (d : ℕ) (k : Bytes) :
    Except KeyspaceFault (Server V × Reply V) := do
  let (s, o) ← lookupKeyRead cfg env s d k
  .ok (s, o.elim .null .value)

def setRefused (cfg : ServerConfig) (env : Env) (s : Server V) (d : ℕ) (k : Bytes) (flags : SetFlags) :
    Except KeyspaceFault (Server V × Bool) := do
  let (s, nx) ← lookupIf flags.nx Option.isSome s
  if nx then .ok (s, true) else lookupIf flags.xx Option.isNone s
where
  /-- The flag is given, and the lookup finds what it forbids. -/
  lookupIf (flag : Bool) (found : Option V → Bool) (s : Server V) :
      Except KeyspaceFault (Server V × Bool) := do
    if flag then
      let (s, o) ← lookupKeyWrite cfg env s d k
      .ok (s, found o)
    else .ok (s, false)

def setGenericCommand (cfg : ServerConfig) (env : Env) (s : Server V) (d : ℕ) (k : Bytes) (v : V)
    (flags : SetFlags) (expire : Option ℤ) : Except KeyspaceFault (Server V × Reply V) := do
  if expire.any (fun t => decide (t ≤ 0)) then .ok (s, .error)
  else
    let (s, refused) ← setRefused cfg env s d k flags
    if refused then .ok (s, .null)
    else
      let s ← genericSetKey cfg env s d k v flags.keepttl true
      match expire with
      | none => .ok (s, .ok)
      | some t => do
        let s ← setExpire s d k (env.now + t)
        .ok (s, .ok)

def updateCommand (cfg : ServerConfig) (env : Env) (s : Server V) (d : ℕ) (k : Bytes)
    (f : Option V → Option V) : Except KeyspaceFault (Server V × Reply V) := do
  let (s, o) ← lookupKeyWrite cfg env s d k
  match o, f o with
  | none, none => .ok (s, .null)
  | none, some v => do
    let s ← dbAdd cfg s d k v
    .ok (touchWatchedKey s d k, .ok)
  | some _, some v => do
    let s ← dbOverwrite s d k v
    .ok (touchWatchedKey s d k, .ok)
  | some _, none =>
    let (s, _) := dbDelete cfg s d k
    .ok (touchWatchedKey s d k, .ok)

def delGenericCommand (cfg : ServerConfig) (env : Env) (d : ℕ) :
    List Bytes → Server V → ℕ → Except KeyspaceFault (Server V × Reply V)
  | [], s, numdel => .ok (s, .int numdel)
  | k :: ks, s, numdel => do
    let (s, _) ← expireIfNeeded cfg env s d k
    let (s, deleted) := dbDelete cfg s d k
    if deleted then delGenericCommand cfg env d ks (touchWatchedKey s d k) (numdel+1)
    else delGenericCommand cfg env d ks s numdel

def checkAlreadyExpired (env : Env) (when : ℤ) : Bool :=
  decide (when ≤ env.now) && !env.loading && !env.slave

def expireGenericCommand (cfg : ServerConfig) (env : Env) (s : Server V) (d : ℕ) (k : Bytes) (when : ℤ) :
    Except KeyspaceFault (Server V × Reply V) := do
  let (s, o) ← lookupKeyWrite cfg env s d k
  match o with
  | none => .ok (s, .int 0)
  | some _ =>
    if checkAlreadyExpired env when then
      let (s, deleted) := dbDelete cfg s d k
      if deleted then .ok (touchWatchedKey s d k, .int 1) else .error .expireDeleted
    else do
      let s ← setExpire s d k when
      .ok (touchWatchedKey s d k, .int 1)

def persistCommand (cfg : ServerConfig) (env : Env) (s : Server V) (d : ℕ) (k : Bytes) :
    Except KeyspaceFault (Server V × Reply V) := do
  let (s, o) ← lookupKeyWrite cfg env s d k
  match o with
  | none => .ok (s, .int 0)
  | some _ => do
    let (s, removed) ← removeExpire s d k
    .ok (if removed then (touchWatchedKey s d k, .int 1) else (s, .int 0))

def renameGenericCommand (cfg : ServerConfig) (env : Env) (s : Server V) (d : ℕ) (k k' : Bytes)
    (nx : Bool) : Except KeyspaceFault (Server V × Reply V) := do
  let (s, o) ← lookupKeyWrite cfg env s d k
  match o with
  | none => .ok (s, .error)
  | some v =>
    if k = k' then .ok (s, if nx then .int 0 else .ok)
    else do
      let expire ← getExpire s d k
      let (s, o') ← lookupKeyWrite cfg env s d k'
      if o'.isSome && nx then .ok (s, .int 0)
      else do
        let s := if o'.isSome then (dbDelete cfg s d k').1 else s
        let s ← dbAdd cfg s d k' v
        let s ← (if expire ≠ -1 then setExpire s d k' expire else .ok s)
        let s := (dbDelete cfg s d k).1
        .ok (touchWatchedKey (touchWatchedKey s d k) d k', if nx then .int 1 else .ok)

def moveCommand (cfg : ServerConfig) (env : Env) (s : Server V) (src dst : ℕ) (k : Bytes) :
    Except KeyspaceFault (Server V × Reply V) := do
  if cfg.clusterEnabled ∨ cfg.dbnum ≤ dst ∨ src = dst then .ok (s, .error)
  else
    let (s, o) ← lookupKeyWrite cfg env s src k
    match o with
    | none => .ok (s, .int 0)
    | some v => do
      let expire ← getExpire s src k
      let (s, o') ← lookupKeyWrite cfg env s dst k
      if o'.isSome then .ok (s, .int 0)
      else do
        let s ← dbAdd cfg s dst k v
        let s ← (if expire ≠ -1 then setExpire s dst k expire else .ok s)
        let s := (dbDelete cfg s src k).1
        .ok (touchWatchedKey (touchWatchedKey s src k) dst k, .int 1)

def flushedKeys (cfg : ServerConfig) (s : Server V) (dbid : Option ℕ) (d : ℕ) (k : Bytes) : Bool :=
  inDb dbid d && decide (d < cfg.dbnum) && ((s.dbs d).dict k).isSome

def emptyDbGeneric (cfg : ServerConfig) (s : Server V) (dbid : Option ℕ) : Server V :=
  if dbid.any (fun d => decide (cfg.dbnum ≤ d)) then s
  else
    let s' := touchWatchedKeysOnFlush s dbid
    let s' := { s' with
      dbs := fun d => if inDb dbid d ∧ d < cfg.dbnum then emptyDb else s'.dbs d
      changes := s'.changes ++ [flushedKeys cfg s dbid] }
    if cfg.clusterEnabled then slotToKeyFlush s' else s'

def dbSwapDatabases (cfg : ServerConfig) (s : Server V) (id1 id2 : ℕ) : Option (Server V) :=
  if cfg.dbnum ≤ id1 ∨ cfg.dbnum ≤ id2 then none
  else if id1 = id2 then some s
  else some { s with dbs := Function.update (Function.update s.dbs id1 (s.dbs id2)) id2 (s.dbs id1) }

def swapdbCommand (cfg : ServerConfig) (s : Server V) (id1 id2 : ℕ) : Server V × Reply V :=
  if cfg.clusterEnabled then (s, .error)
  else
    match dbSwapDatabases cfg s id1 id2 with
    | none => (s, .error)
    | some s => (s, .ok)

def selectCommand (cfg : ServerConfig) (s : Server V) (c : ClientId) (id : ℕ) : Server V × Reply V :=
  if cfg.clusterEnabled ∧ id ≠ 0 then (s, .error)
  else if cfg.dbnum ≤ id then (s, .error)
  else (setClient s c { s.clients c with db := id }, .ok)

def readsExpired (env : Env) (db : RedisDb V) (k : Bytes) : Bool :=
  (db.expires k).any (expireTimePassed env)

def watchForKey (env : Env) (s : Server V) (c : ClientId) (k : Bytes) : Server V :=
  let client := s.clients c
  if client.watchedKeys.any (fun wk => decide (wk.db = client.db) && decide (wk.key = k)) then s
  else
    let clients := (s.watchedKeys client.db k).getD []
    let wk : WatchedKey V :=
      { key := k
        db := client.db
        value := (s.dbs client.db).dict k
        expired := readsExpired env (s.dbs client.db) k
        since := s.changes.length }
    { s with
      watchedKeys := Function.update s.watchedKeys client.db
        (Function.update (s.watchedKeys client.db) k (some (clients ++ [c])))
      clients := Function.update s.clients c { client with watchedKeys := client.watchedKeys ++ [wk] } }

def unwatchKey (c : ClientId) (s : Server V) (wk : WatchedKey V) : Except KeyspaceFault (Server V) :=
  match s.watchedKeys wk.db wk.key with
  | none => .error .unwatchAllKeys
  | some clients =>
    if c ∈ clients then
      let rest := clients.erase c
      .ok { s with
        watchedKeys := Function.update s.watchedKeys wk.db
          (Function.update (s.watchedKeys wk.db) wk.key (if rest = [] then none else some rest))
        clients := Function.update s.clients c
          { s.clients c with watchedKeys := (s.clients c).watchedKeys.tail } }
    else .error .unwatchAllKeys

def unwatchAllKeys (s : Server V) (c : ClientId) : Except KeyspaceFault (Server V) :=
  (s.clients c).watchedKeys.foldlM (unwatchKey c) s

def discardTransaction (s : Server V) (c : ClientId) : Except KeyspaceFault (Server V) :=
  unwatchAllKeys (setClient s c { s.clients c with
    commands := []
    multi := false
    dirtyCas := false
    dirtyExec := false }) c

def unwatchCommand (s : Server V) (c : ClientId) : Except KeyspaceFault (Server V × Reply V) := do
  let s ← unwatchAllKeys s c
  .ok (setClient s c { s.clients c with dirtyCas := false }, .ok)

def call (cfg : ServerConfig) (env : Env) (s : Server V) (c : ClientId) (cmd : Command V) :
    Except KeyspaceFault (Server V × Reply V) :=
  let d := (s.clients c).db
  match cmd with
  | .get k => getCommand cfg env s d k
  | .set k v flags expire => setGenericCommand cfg env s d k v flags expire
  | .update k f => updateCommand cfg env s d k f
  | .del ks => delGenericCommand cfg env d ks s 0
  | .expireAt k when => expireGenericCommand cfg env s d k when
  | .persist k => persistCommand cfg env s d k
  | .rename k k' nx => renameGenericCommand cfg env s d k k' nx
  | .move k dbid => moveCommand cfg env s d dbid k
  | .select id => .ok (selectCommand cfg s c id)
  | .flushdb => .ok (emptyDbGeneric cfg s (some d), .ok)
  | .flushall => .ok (emptyDbGeneric cfg s none, .ok)
  | .swapdb id1 id2 => .ok (swapdbCommand cfg s id1 id2)
  | .unwatch => unwatchCommand s c

def execQueue (cfg : ServerConfig) (env : Env) (c : ClientId) :
    List (Command V) → Server V → Except KeyspaceFault (Server V × List (Reply V))
  | [], s => .ok (s, [])
  | cmd :: commands, s => do
    let (s, r) ← call cfg env s c cmd
    let (s, rs) ← execQueue cfg env c commands s
    .ok (s, r :: rs)

def execCommand (cfg : ServerConfig) (env : Env) (s : Server V) (c : ClientId) :
    Except KeyspaceFault (Server V × Reply V) := do
  if (s.clients c).multi = false then .ok (s, .error)
  else if (s.clients c).dirtyCas ∨ (s.clients c).dirtyExec then
    let s' ← discardTransaction s c
    .ok (s', if (s.clients c).dirtyExec then .execAbort else .nullArray)
  else
    let s' ← unwatchAllKeys s c
    let (s', rs) ← execQueue cfg env c (s.clients c).commands s'
    let s' ← discardTransaction s' c
    .ok (s', .array rs)

inductive Request (V : Type) where
  | watch (ks : List Bytes)
  | multi
  | discard
  | exec
  | refused
  | call (cmd : Command V)

def processCommand (cfg : ServerConfig) (env : Env) (s : Server V) (c : ClientId) :
    Request V → Except KeyspaceFault (Server V × Reply V)
  | .watch ks =>
    if (s.clients c).multi then .ok (s, .error)
    else .ok (ks.foldl (fun s k => watchForKey env s c k) s, .ok)
  | .multi =>
    if (s.clients c).multi then .ok (s, .error)
    else .ok (setClient s c { s.clients c with multi := true }, .ok)
  | .discard =>
    if (s.clients c).multi = false then .ok (s, .error)
    else do
      let s ← discardTransaction s c
      .ok (s, .ok)
  | .exec => execCommand cfg env s c
  | .refused =>
    if (s.clients c).multi then
      .ok (setClient s c { s.clients c with dirtyExec := true }, .error)
    else .ok (s, .error)
  | .call cmd =>
    if (s.clients c).multi = false then call cfg env s c cmd
    else if (s.clients c).dirtyExec then .ok (s, .queued)
    else
      .ok (setClient s c { s.clients c with commands := (s.clients c).commands ++ [cmd] }, .queued)

def delKeysLoop (cfg : ServerConfig) (hashslot : Slot) :
    ℕ → Server V → ℤ → Except KeyspaceFault (Option (Server V × ℤ))
  | 0, _, _ => .ok none
  | fuel+1, s, j =>
    if s.slotsKeysCount hashslot = 0 then .ok (some (s, j))
    else
      match raxSeekGe (slotBytes hashslot) s.slotsToKeys with
      | none => .error .noMoreKeys
      | some e => delKeysLoop cfg hashslot fuel (dbDelete cfg s 0 (e.drop 2)).1 (toInt (j+1))

/-- The keys are counted in an `int`, which is returned as an `unsigned int`. -/
def delKeysInSlot (cfg : ServerConfig) (hashslot : Slot) (fuel : ℕ) (s : Server V) :
    Except KeyspaceFault (Option (Server V × ℕ)) :=
  Except.map (Option.map (fun r => (r.1, (r.2 % 2^32).toNat))) (delKeysLoop cfg hashslot fuel s 0)

inductive Event (V : Type) where
  | request (c : ClientId) (req : Request V)
  | disconnect (c : ClientId)
  | activeExpire (d : ℕ) (k : Bytes)
  | delKeysInSlot (hashslot : Slot)

/-- The loop of `delKeysInSlot` gets fuel for one round more than there are keys; only the cluster
calls it. -/
def stepEvent (cfg : ServerConfig) (env : Env) (s : Server V) :
    Event V → Except KeyspaceFault (Server V)
  | .request c req => Except.map Prod.fst (processCommand cfg env s c req)
  | .disconnect c => do
    let s ← unwatchAllKeys s c
    .ok (setClient s c freshClient)
  | .activeExpire d k => .ok (activeExpireCycleTryExpire cfg env s d k)
  | .delKeysInSlot hashslot =>
    if cfg.clusterEnabled then
      do
        let r ← delKeysInSlot cfg hashslot ((s.slotsKeysCount hashslot).toNat + 1) s
        .ok (r.elim s Prod.fst)
    else .ok s

def runEvents (cfg : ServerConfig) (events : List (Env × Event V)) (s : Server V) :
    Except KeyspaceFault (Server V) :=
  events.foldlM (fun s e => stepEvent cfg e.1 s e.2) s

end RedisCore.Keyspace
