import RedisCore.RaxSet
import Mathlib.Logic.Function.Basic

/-! Client side caching (`tracking.c`): the table of the keys that clients have read, and the keys
to broadcast for each prefix. -/

namespace RedisCore.Tracking

abbrev ClientId := ℕ

/-- `bcastState`: the keys modified in the cycle, each with the client that is recorded for it, and
the clients of the prefix. -/
structure BcastState where
  keys : List (Bytes × Option ClientId)
  clients : List ClientId

structure TrackingClient where
  tracking : Bool
  bcast : Bool
  noloop : Bool
  prefixes : List Bytes

/-- `clients` are the connected clients.  The prefix table is the list of its keys, and `bcasts` has
their values.  The tracking table is created when tracking is first enabled.  Both tables are raxes, and
`raxRemove` takes one entry from them while no key is longer than `RAX_NODE_MAX_SIZE`. -/
structure TrackingState where
  clients : List ClientId
  client : ClientId → TrackingClient
  trackingTable : Option (Bytes → Option (List ClientId))
  prefixTable : List Bytes
  bcasts : Bytes → BcastState
  trackingClients : ℕ

inductive Invalidation where
  | keys (ks : List Bytes)
  | all
deriving DecidableEq, Repr

abbrev Messages := List (ClientId × Invalidation)

def Invalidation.covers (k : Bytes) : Invalidation → Bool
  | .keys ks => decide (k ∈ ks)
  | .all => true

def freshBcast : BcastState :=
  { keys := []
    clients := [] }

def untracked : TrackingClient :=
  { tracking := false
    bcast := false
    noloop := false
    prefixes := [] }

def initState (clients : List ClientId) : TrackingState :=
  { clients := clients
    client := fun _ => untracked
    trackingTable := none
    prefixTable := []
    bcasts := fun _ => freshBcast
    trackingClients := 0 }

def leavePrefix (c : ClientId) (s : TrackingState) (p : Bytes) : TrackingState :=
  let clients := (s.bcasts p).clients.erase c
  if clients = [] then
    { s with
      prefixTable := s.prefixTable.erase p
      bcasts := Function.update s.bcasts p freshBcast }
  else { s with bcasts := Function.update s.bcasts p { s.bcasts p with clients := clients } }

def disableTracking (s : TrackingState) (c : ClientId) : TrackingState :=
  let client := s.client c
  let s := if client.bcast then client.prefixes.foldl (leavePrefix c) s else s
  if client.tracking then
    { s with
      trackingClients := s.trackingClients - 1
      client := Function.update s.client c untracked }
  else s

def enableBcastTrackingForPrefix (c : ClientId) (s : TrackingState) (p : Bytes) : TrackingState :=
  let s := if p ∈ s.prefixTable then s else
    { s with
      prefixTable := s.prefixTable ++ [p]
      bcasts := Function.update s.bcasts p freshBcast }
  let bs := s.bcasts p
  if c ∈ bs.clients then s
  else
    { s with
      bcasts := Function.update s.bcasts p { bs with clients := bs.clients ++ [c] }
      client := Function.update s.client c
        { s.client c with prefixes := (s.client c).prefixes ++ [p] } }

def enableTracking (s : TrackingState) (c : ClientId) (bcast noloop : Bool) (prefixes : List Bytes) :
    TrackingState :=
  let client := s.client c
  let s := { s with
    trackingClients := if client.tracking then s.trackingClients else s.trackingClients + 1
    client := Function.update s.client c
      { client with tracking := true, bcast := bcast, noloop := noloop }
    trackingTable := some (s.trackingTable.getD (fun _ => none)) }
  if bcast then
    (if prefixes = [] then [[]] else prefixes).foldl (enableBcastTrackingForPrefix c) s
  else s

/-- PREFIX needs BCAST, and the mode is not switched while tracking is on. -/
def trackingOnRefused (s : TrackingState) (c : ClientId) (bcast : Bool) (prefixes : List Bytes) : Bool :=
  (!bcast && !decide (prefixes = [])) || ((s.client c).tracking && decide ((s.client c).bcast ≠ bcast))

def rememberKey (c : ClientId) (table : Bytes → Option (List ClientId)) (k : Bytes) :
    Bytes → Option (List ClientId) :=
  let ids := (table k).getD []
  Function.update table k (some (if c ∈ ids then ids else ids ++ [c]))

def trackingRememberKeys (s : TrackingState) (c : ClientId) (ks : List Bytes) : TrackingState :=
  match s.trackingTable with
  | none => s
  | some table => { s with trackingTable := some (ks.foldl (rememberKey c) table) }

def tryInsertKey (k : Bytes) (c : Option ClientId) (keys : List (Bytes × Option ClientId)) :
    List (Bytes × Option ClientId) :=
  if keys.any (fun e => decide (e.1 = k)) then keys else keys ++ [(k, c)]

def trackingRememberKeyToBroadcast (s : TrackingState) (c : Option ClientId) (k : Bytes) :
    TrackingState :=
  { s with
    bcasts := fun p =>
      if p ∈ s.prefixTable ∧ p.isPrefixOf k then
        { s.bcasts p with keys := tryInsertKey k c (s.bcasts p).keys }
      else s.bcasts p }

/-- A client in the table for the key is told, unless it does not track in this mode any more or has
modified the key itself in NOLOOP mode. -/
def invalidationFor (s : TrackingState) (c : Option ClientId) (k : Bytes) (id : ClientId) :
    Option (ClientId × Invalidation) :=
  let target := s.client id
  if id ∉ s.clients ∨ target.tracking = false ∨ target.bcast then none
  else if target.noloop ∧ c = some id then none
  else some (id, .keys [k])

def trackingInvalidateKeyRaw (s : TrackingState) (c : Option ClientId) (k : Bytes) (bcast : Bool) :
    TrackingState × Messages :=
  match s.trackingTable with
  | none => (s, [])
  | some table =>
    let s := if bcast ∧ s.prefixTable ≠ [] then trackingRememberKeyToBroadcast s c k else s
    match table k with
    | none => (s, [])
    | some ids =>
      ({ s with trackingTable := some (Function.update table k none) },
        ids.filterMap (invalidationFor s c k))

def trackingInvalidateKeysOnFlush (s : TrackingState) (allDbs : Bool) : TrackingState × Messages :=
  let out := if s.trackingClients = 0 then [] else
    (s.clients.filter (fun c => (s.client c).tracking)).map (fun c => (c, Invalidation.all))
  ({ s with trackingTable := if allDbs then s.trackingTable.map (fun _ _ => none) else s.trackingTable },
    out)

/-- The keys that are recorded for other clients, or all if no client is given. -/
def trackingBuildBroadcastReply (c : Option ClientId) (keys : List (Bytes × Option ClientId)) :
    Option (List Bytes) :=
  match c with
  | none => some (keys.map Prod.fst)
  | some c =>
    let others := keys.filter (fun e => decide (e.2 ≠ some c))
    if others = [] then none else some (others.map Prod.fst)

def broadcastTo (s : TrackingState) (p : Bytes) (c : ClientId) : Option (ClientId × Invalidation) :=
  (trackingBuildBroadcastReply (if (s.client c).noloop then some c else none) (s.bcasts p).keys).map
    (fun ks => (c, .keys ks))

def broadcastPrefix (s : TrackingState) (p : Bytes) : Messages :=
  if (s.bcasts p).keys = [] then [] else (s.bcasts p).clients.filterMap (broadcastTo s p)

def trackingBroadcastInvalidationMessages (s : TrackingState) : TrackingState × Messages :=
  if s.trackingTable.isNone ∨ s.trackingClients = 0 then (s, [])
  else
    ({ s with bcasts := fun p => if p ∈ s.prefixTable then { s.bcasts p with keys := [] } else s.bcasts p },
      s.prefixTable.flatMap (broadcastPrefix s))

/-- `flush` of one database or of all; `evict` of the key that the random walk of
`trackingLimitUsedSlots` finds. -/
inductive Event where
  | trackingOn (c : ClientId) (bcast noloop : Bool) (prefixes : List Bytes)
  | trackingOff (c : ClientId)
  | read (c : ClientId) (ks : List Bytes)
  | modify (c : Option ClientId) (k : Bytes)
  | flush (allDbs : Bool)
  | evict (k : Bytes)
  | broadcast

def fromClient (s : TrackingState) (c : ClientId) (s' : TrackingState) : TrackingState × Messages :=
  (if c ∈ s.clients then s' else s, [])

def stepEvent (s : TrackingState) : Event → TrackingState × Messages
  | .trackingOn c bcast noloop prefixes =>
    fromClient s c (if trackingOnRefused s c bcast prefixes then s
      else enableTracking s c bcast noloop prefixes)
  | .trackingOff c => fromClient s c (disableTracking s c)
  | .read c ks =>
    fromClient s c (if (s.client c).tracking ∧ (s.client c).bcast = false then
      trackingRememberKeys s c ks else s)
  | .modify c k => trackingInvalidateKeyRaw s c k true
  | .flush allDbs => trackingInvalidateKeysOnFlush s allDbs
  | .evict k => trackingInvalidateKeyRaw s none k false
  | .broadcast => trackingBroadcastInvalidationMessages s

end RedisCore.Tracking
