import RedisCore.ByteBlock

/-! Blocking list operations (`blocked.c`, with the commands of `t_list.c` and `db.c` that reach them).
The elements of the lists are of any type: no command looks into them. -/

namespace RedisCore.Blocking

abbrev ClientId := ℕ

abbrev Key := ℕ × Bytes

inductive Value (α : Type) where
  | list (l : List α)
  | zset
  | string

/-- `bpop` of a client that is blocked by a list command.  `head`: the command is BLPOP.  `since` is not in
the source: it tells which client has blocked first. -/
structure Blocked where
  db : ℕ
  keys : List Bytes
  target : Option Bytes
  head : Bool
  since : ℕ

/-- One client served, for the record: since when it and the others were blocked on the key, if a BRPOPLPUSH
has failed, and the key before and after. -/
structure Service (α : Type) where
  receiver : ClientId
  key : Key
  since : ℕ
  others : List ℕ
  failed : Bool
  before : Option (Value α)
  after : Option (Value α)

/-- The databases are one table whose keys begin with the index of the database.  `readyKeys` is
`server.ready_keys`, and `readyDict` the `ready_keys` of the databases.

The last fields record what has happened: the elements that were pushed, those that were delivered to a
client, those that went with their key, and the clients that were served. -/
structure State (α : Type) where
  dict : AList (fun _ : Key => Value α)
  blockingKeys : AList (fun _ : Key => List ClientId)
  readyDict : List Key
  readyKeys : List Key
  client : ClientId → Option Blocked
  clock : ℕ
  pushed : Multiset α
  delivered : List (ClientId × α)
  dropped : Multiset α
  services : List (Service α)

variable {α : Type}

def initState : State α :=
  { dict := ∅
    blockingKeys := ∅
    readyDict := []
    readyKeys := []
    client := fun _ => none
    clock := 0
    pushed := 0
    delivered := []
    dropped := 0
    services := [] }

def Value.elements : Value α → List α
  | .list l => l
  | .zset => []
  | .string => []

def Value.isList : Value α → Bool
  | .list _ => true
  | .zset => false
  | .string => false

def elementsAt (s : State α) (key : Key) : List α := ((s.dict.lookup key).map Value.elements).getD []

def waiting (s : State α) (key : Key) : List ClientId := (s.blockingKeys.lookup key).getD []

def signalKeyAsReady (s : State α) (key : Key) : State α :=
  if s.blockingKeys.lookup key = none then s
  else if key ∈ s.readyDict then s
  else
    { s with
      readyKeys := s.readyKeys ++ [key]
      readyDict := s.readyDict ++ [key] }

def dbAdd (s : State α) (key : Key) (v : Value α) : State α :=
  let s := { s with dict := s.dict.insert key v }
  match v with
  | .string => s
  | .list _ => signalKeyAsReady s key
  | .zset => signalKeyAsReady s key

/-- The key is not signalled. -/
def dbOverwrite (s : State α) (key : Key) (v : Value α) : State α :=
  { s with
    dict := s.dict.insert key v
    dropped := s.dropped + elementsAt s key }

def setKey (s : State α) (key : Key) (v : Value α) : State α :=
  if s.dict.lookup key |>.isNone then dbAdd s key v else dbOverwrite s key v

def dbDelete (s : State α) (key : Key) : State α :=
  { s with
    dict := s.dict.erase key
    dropped := s.dropped + elementsAt s key }

def setList (s : State α) (key : Key) (l : List α) : State α :=
  { s with dict := s.dict.insert key (.list l) }

def listTypePush (head : Bool) (l : List α) (v : α) : List α := if head then v :: l else l ++ [v]

def listTypePop (head : Bool) (l : List α) : Option (α × List α) :=
  if head then l.head?.map (fun v => (v, l.tail)) else l.getLast?.map (fun v => (v, l.dropLast))

/-- A list without elements is not kept. -/
def deleteIfEmpty (s : State α) (key : Key) : State α :=
  match s.dict.lookup key with
  | some (.list []) => dbDelete s key
  | _ => s

def addWaiting (c : ClientId) (d : ℕ) (table : AList (fun _ : Key => List ClientId)) (name : Bytes) :
    AList (fun _ : Key => List ClientId) :=
  table.insert (d, name) ((table.lookup (d, name)).getD [] ++ [c])

def blockForKeys (s : State α) (c : ClientId) (d : ℕ) (keys : List Bytes) (target : Option Bytes)
    (head : Bool) : State α :=
  { s with
    blockingKeys := keys.dedup.foldl (addWaiting c d) s.blockingKeys
    client := Function.update s.client c (some
      { db := d
        keys := keys.dedup
        target := target
        head := head
        since := s.clock })
    clock := s.clock + 1 }

def removeWaiting (c : ClientId) (d : ℕ) (table : AList (fun _ : Key => List ClientId)) (name : Bytes) :
    AList (fun _ : Key => List ClientId) :=
  let clients := ((table.lookup (d, name)).getD []).erase c
  if clients = [] then table.erase (d, name) else table.insert (d, name) clients

def unblockClient (s : State α) (c : ClientId) : State α :=
  match s.client c with
  | none => s
  | some b =>
    { s with
      blockingKeys := b.keys.foldl (removeWaiting c b.db) s.blockingKeys
      client := Function.update s.client c none }

inductive Command (α : Type) where
  | push (head : Bool) (name : Bytes) (vs : List α)
  | blockingPop (head : Bool) (names : List Bytes)
  | brpoplpush (src dst : Bytes)
  | del (names : List Bytes)
  | rename (src dst : Bytes)
  | swapdb (i j : ℕ) (order : List Key)
  | set (name : Bytes)
  | zadd (name : Bytes)
  | sortStore (dst : Bytes) (out : List α)

def pushGenericCommand (s : State α) (key : Key) (vs : List α) (head : Bool) : State α :=
  match s.dict.lookup key with
  | some (.list l) =>
    { setList s key (vs.foldl (listTypePush head) l) with pushed := s.pushed + vs }
  | some _ => s
  | none =>
    if vs = [] then s
    else
      let s := dbAdd s key (.list [])
      { setList s key (vs.foldl (listTypePush head) []) with pushed := s.pushed + vs }

def deliver (s : State α) (c : ClientId) (key : Key) (v : α) (rest : List α) : State α :=
  deleteIfEmpty { setList s key rest with delivered := s.delivered ++ [(c, v)] } key

/-- The keys are tried in their order; inside MULTI the client does not block. -/
def blockingPopGenericCommand (s : State α) (c : ClientId) (d : ℕ) (head multi : Bool) (all : List Bytes) :
    List Bytes → State α
  | [] => if multi then s else blockForKeys s c d all none head
  | name :: names =>
    match s.dict.lookup (d, name) with
    | none => blockingPopGenericCommand s c d head multi all names
    | some (.list l) =>
      match listTypePop head l with
      | some (v, rest) => deliver s c (d, name) v rest
      | none => blockingPopGenericCommand s c d head multi all names
    | some _ => s

def rpoplpushHandlePush (s : State α) (dst : Key) (v : α) : State α :=
  match s.dict.lookup dst with
  | some (.list l) => setList s dst (listTypePush true l v)
  | some _ => s
  | none => setList (dbAdd s dst (.list [])) dst [v]

def wrongType (s : State α) (key : Key) : Bool :=
  match s.dict.lookup key with
  | some v => !v.isList
  | none => false

def rpoplpushCommand (s : State α) (src dst : Key) (l : List α) : State α :=
  match listTypePop false l with
  | none => s
  | some (v, rest) =>
    if wrongType s dst then s
    else deleteIfEmpty (rpoplpushHandlePush (setList s src rest) dst v) src

def brpoplpushCommand (s : State α) (c : ClientId) (d : ℕ) (multi : Bool) (src dst : Bytes) : State α :=
  match s.dict.lookup (d, src) with
  | none => if multi then s else blockForKeys s c d [src] (some dst) false
  | some (.list l) => rpoplpushCommand s (d, src) (d, dst) l
  | some _ => s

def renameGenericCommand (s : State α) (d : ℕ) (src dst : Bytes) : State α :=
  match s.dict.lookup (d, src) with
  | none => s
  | some v =>
    if src = dst then s
    else
      let s := dbDelete s (d, dst)
      let s := dbAdd s (d, dst) v
      { s with dict := s.dict.erase (d, src) }

def swapKey (i j : ℕ) (key : Key) : Key := (Equiv.swap i j key.1, key.2)

theorem swapKey_swapKey (i j : ℕ) (key : Key) : swapKey i j (swapKey i j key) = key := by
  unfold swapKey
  rw [Equiv.swap_apply_self]

def swapEntry (i j : ℕ) (e : Sigma (fun _ : Key => Value α)) : Sigma (fun _ : Key => Value α) :=
  ⟨swapKey i j e.1, e.2⟩

theorem swapEntries_nodup (i j : ℕ) {entries : List (Sigma (fun _ : Key => Value α))}
    (h : entries.NodupKeys) : (entries.map (swapEntry i j)).NodupKeys := by
  have hkeys : (entries.map (swapEntry i j)).keys = entries.keys.map (swapKey i j) := by
    unfold List.keys
    rw [List.map_map, List.map_map]
    rfl
  unfold List.NodupKeys
  rw [hkeys]
  apply List.Nodup.map _ h
  intro a b hab
  rw [← swapKey_swapKey i j a, hab, swapKey_swapKey]

def swapDict (i j : ℕ) (dict : AList (fun _ : Key => Value α)) : AList (fun _ : Key => Value α) :=
  ⟨dict.entries.map (swapEntry i j), swapEntries_nodup i j dict.nodupKeys⟩

/-- The keys on which clients are blocked, in an order of which `order` gives the first ones: the order of a
dictionary is any. -/
def scanOrder (s : State α) (order : List Key) : List Key :=
  (order.filter (fun key => decide (key ∈ s.blockingKeys.keys))).dedup ++
    s.blockingKeys.keys.filter (fun key => decide (key ∉ order))

def scanKey (d : ℕ) (s : State α) (key : Key) : State α :=
  if key.1 = d then
    match s.dict.lookup key with
    | some (.list _) => signalKeyAsReady s key
    | some .zset => signalKeyAsReady s key
    | some .string => s
    | none => s
  else s

def scanDatabaseForReadyLists (d : ℕ) (order : List Key) (s : State α) : State α :=
  (scanOrder s order).foldl (scanKey d) s

def dbSwapDatabases (s : State α) (i j : ℕ) (order : List Key) : State α :=
  if i = j then s
  else
    scanDatabaseForReadyLists j order
      (scanDatabaseForReadyLists i order { s with dict := swapDict i j s.dict })

def sortStoreCommand (s : State α) (key : Key) (out : List α) : State α :=
  if out = [] then dbDelete s key
  else { setKey s key (.list out) with pushed := s.pushed + out }

def zaddCommand (s : State α) (key : Key) : State α :=
  if s.dict.lookup key |>.isNone then dbAdd s key .zset else s

def runCommand (c : ClientId) (multi : Bool) (s : State α) (cmd : ℕ × Command α) : State α :=
  match cmd.2 with
  | .push head name vs => pushGenericCommand s (cmd.1, name) vs head
  | .blockingPop head names => blockingPopGenericCommand s c cmd.1 head multi names names
  | .brpoplpush src dst => brpoplpushCommand s c cmd.1 multi src dst
  | .del names => names.foldl (fun s name => dbDelete s (cmd.1, name)) s
  | .rename src dst => renameGenericCommand s cmd.1 src dst
  | .swapdb i j order => dbSwapDatabases s i j order
  | .set name => setKey s (cmd.1, name) .string
  | .zadd name => zaddCommand s (cmd.1, name)
  | .sortStore dst out => sortStoreCommand s (cmd.1, dst) out

/-- The list that a failed BRPOPLPUSH leaves is as before the pop. -/
def serveClientBlockedOnList (s : State α) (c : ClientId) (b : Blocked) (key : Key) (v : α) (rest : List α) :
    State α :=
  match b.target with
  | none => { s with delivered := s.delivered ++ [(c, v)] }
  | some dst =>
    if wrongType s (b.db, dst) then setList s key (listTypePush b.head rest v)
    else rpoplpushHandlePush s (b.db, dst) v

def record (s s' : State α) (c : ClientId) (b : Blocked) (key : Key) (others : List ClientId) : State α :=
  { s' with
    services := s'.services ++ [
      { receiver := c
        key := key
        since := b.since
        others := others.filterMap (fun x => (s.client x).map Blocked.since)
        failed := (b.target.map (fun dst => wrongType s (b.db, dst))).getD false
        before := s.dict.lookup key
        after := s'.dict.lookup key }] }

def serveClients (key : Key) : ℕ → State α → State α
  | 0, s => s
  | numclients + 1, s =>
    match waiting s key with
    | [] => s
    | c :: others =>
      match s.client c, s.dict.lookup key with
      | some b, some (.list l) =>
        match listTypePop b.head l with
        | none => s
        | some (v, rest) =>
          serveClients key numclients
            (record s (serveClientBlockedOnList (unblockClient (setList s key rest) c) c b key v rest) c b key
              others)
      | _, _ => s

def serveClientsBlockedOnListKey (s : State α) (key : Key) : State α :=
  deleteIfEmpty (serveClients key (waiting s key).length s) key

def serveClientsBlockedOnSortedSetKey (s : State α) (key : Key) : State α :=
  match s.blockingKeys.lookup key with
  | none => s
  | some clients =>
    { s with blockingKeys := s.blockingKeys.insert key ((fun l => l.rotate 1)^[clients.length] clients) }

def serveKey (s : State α) (key : Key) : State α :=
  let s := { s with readyDict := s.readyDict.erase key }
  match s.dict.lookup key with
  | some (.list _) => serveClientsBlockedOnListKey s key
  | some .zset => serveClientsBlockedOnSortedSetKey s key
  | some .string => s
  | none => s

def handleRounds : ℕ → State α → State α
  | 0, s => s
  | fuel + 1, s =>
    if s.readyKeys = [] then s
    else handleRounds fuel (s.readyKeys.foldl serveKey { s with readyKeys := [] })

def waitingTotal (s : State α) : ℕ := (s.blockingKeys.entries.map (fun e => e.2.length)).sum

def handleClientsBlockedOnKeys (s : State α) : State α := handleRounds (waitingTotal s + 1) s

/-- A client sends a command, or EXEC with the commands of its transaction; a blocked client can only time
out. -/
inductive Event (α : Type) where
  | command (c : ClientId) (cmd : ℕ × Command α)
  | exec (c : ClientId) (cmds : List (ℕ × Command α))
  | timeout (c : ClientId)

def stepEvent (s : State α) : Event α → State α
  | .command c cmd => if s.client c |>.isNone then handleClientsBlockedOnKeys (runCommand c false s cmd) else s
  | .exec c cmds =>
    if s.client c |>.isNone then handleClientsBlockedOnKeys (cmds.foldl (runCommand c true) s) else s
  | .timeout c => unblockClient s c

def run (s : State α) (es : List (Event α)) : State α := es.foldl stepEvent s

end RedisCore.Blocking
