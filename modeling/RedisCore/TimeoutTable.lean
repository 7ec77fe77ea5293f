import RedisCore.SdsCompare
import RedisCore.CTypes

/-! The timeouts of blocked clients (`timeout.c`, with `blockClient` and `unblockClient` of
`blocked.c` and `waitCommand` of `replication.c`). The radix tree `clients_timeout_table` is a set
of keys, which its iterator visits in the order of the bytes. -/

namespace RedisCore.Timeouts

abbrev ClientPtr := ℕ

def encodeTimeoutKey (timeout : ℕ) (c : ClientPtr) : Bytes := beBytes 8 timeout ++ leBytes 8 c

def decodeTimeoutKey (buf : Bytes) : ℕ × ClientPtr :=
  (beNat (buf.take 8), leNat ((buf.drop 8).take 8))

def raxFirst : List Bytes → Option Bytes
  | [] => none
  | key :: keys =>
    match raxFirst keys with
    | none => some key
    | some first => if sdscmp first key = .lt then some first else some key

def raxTryInsert (table : List Bytes) (key : Bytes) : Bool × List Bytes :=
  if key ∈ table then (false, table) else (true, key :: table)

def raxRemove (table : List Bytes) (key : Bytes) : List Bytes := table.filter (· ≠ key)

inductive BlockedType where
  | none
  | list
  | wait
  | zset
  | stream
deriving DecidableEq

inductive Reply where
  | nullArray
  | longLong (n : ℤ)
  | error
  | value (v : Bytes)
deriving DecidableEq

/-- What these functions use of a client: the flags CLIENT_BLOCKED, CLIENT_UNBLOCKED and
CLIENT_IN_TO_TABLE, `btype`, `bpop.timeout`, `bpop.reploffset` and the output. -/
structure Client where
  blocked : Bool
  unblocked : Bool
  inToTable : Bool
  btype : BlockedType
  timeout : ℤ
  reploffset : ℤ
  reply : List Reply
deriving DecidableEq

structure Slave where
  online : Bool
  replAckOff : ℤ
deriving DecidableEq

/-- `client` is the memory: it has contents at any address, also where no client is. -/
structure Server where
  client : ClientPtr → Client
  clients : List ClientPtr
  slaves : List Slave
  clientsTimeoutTable : List Bytes
  clientsWaitingAcks : List ClientPtr
  unblockedClients : List ClientPtr
  blockedClients : ℤ
  blockedClientsByType : BlockedType → ℤ

def setClient (s : Server) (c : ClientPtr) (cl : Client) : Server :=
  { s with client := Function.update s.client c cl }

def addReply (s : Server) (c : ClientPtr) (r : Reply) : Server :=
  setClient s c { s.client c with reply := (s.client c).reply ++ [r] }

def addClientToTimeoutTable (s : Server) (c : ClientPtr) : Server :=
  if (s.client c).timeout = 0 then s
  else
    let timeout := toUnsigned 64 (s.client c).timeout
    match raxTryInsert s.clientsTimeoutTable (encodeTimeoutKey timeout c) with
    | (true, table) =>
      setClient { s with clientsTimeoutTable := table } c { s.client c with inToTable := true }
    | (false, table) => { s with clientsTimeoutTable := table }

def removeClientFromTimeoutTable (s : Server) (c : ClientPtr) : Server :=
  if (s.client c).inToTable = false then s
  else
    let s := setClient s c { s.client c with inToTable := false }
    let timeout := toUnsigned 64 (s.client c).timeout
    { s with
      clientsTimeoutTable := raxRemove s.clientsTimeoutTable (encodeTimeoutKey timeout c) }

/-- `getTimeoutFromObjectOrReply` once the object has been read as `tval` milliseconds. -/
def getTimeout (tval clock : ℤ) : Option ℤ :=
  if tval < 0 then none
  else if tval > 0 then some (toLong (tval+clock))
  else some tval

def blockClient (s : Server) (c : ClientPtr) (btype : BlockedType) : Server :=
  let s := setClient s c { s.client c with
    blocked := true
    btype := btype }
  addClientToTimeoutTable
    { s with
      blockedClients := s.blockedClients+1
      blockedClientsByType :=
        Function.update s.blockedClientsByType btype (s.blockedClientsByType btype+1) } c

def blockForKeys (s : Server) (c : ClientPtr) (btype : BlockedType) (timeout : ℤ) : Server :=
  blockClient (setClient s c { s.client c with timeout := timeout }) c btype

def replicationCountAcksByOffset (s : Server) (offset : ℤ) : ℕ :=
  (s.slaves.filter (fun slave => slave.online ∧ offset ≤ slave.replAckOff)).length

def waitCommand (s : Server) (c : ClientPtr) (masterhost multi : Bool)
    (woff numreplicas tval clock : ℤ) : Server :=
  if masterhost then addReply s c .error
  else
    match getTimeout tval clock with
    | none => addReply s c .error
    | some timeout =>
      let ackreplicas := replicationCountAcksByOffset s woff
      if numreplicas ≤ ackreplicas ∨ multi then addReply s c (.longLong ackreplicas)
      else
        let s := setClient s c { s.client c with
          timeout := timeout
          reploffset := woff }
        blockClient { s with clientsWaitingAcks := s.clientsWaitingAcks ++ [c] } c .wait

def queueClientForReprocessing (s : Server) (c : ClientPtr) : Server :=
  if (s.client c).unblocked then s
  else
    let s := setClient s c { s.client c with unblocked := true }
    { s with unblockedClients := s.unblockedClients ++ [c] }

def unblockClientWaitingReplicas (s : Server) (c : ClientPtr) : Except Fault Server :=
  if c ∈ s.clientsWaitingAcks then
    .ok { s with clientsWaitingAcks := s.clientsWaitingAcks.erase c }
  else .error .aborted

def unblockByType (s : Server) (c : ClientPtr) : Except Fault Server :=
  match (s.client c).btype with
  | .none => .error .aborted
  | .wait => unblockClientWaitingReplicas s c
  | .list => .ok s
  | .zset => .ok s
  | .stream => .ok s

def unblockClient (s : Server) (c : ClientPtr) : Except Fault Server := do
  let s ← unblockByType s c
  let btype := (s.client c).btype
  let s := { s with
    blockedClients := s.blockedClients-1
    blockedClientsByType :=
      Function.update s.blockedClientsByType btype (s.blockedClientsByType btype-1) }
  let s := setClient s c { s.client c with
    blocked := false
    btype := .none }
  .ok (queueClientForReprocessing (removeClientFromTimeoutTable s c) c)

def replyToBlockedClientTimedOut (s : Server) (c : ClientPtr) : Except Fault Server :=
  match (s.client c).btype with
  | .none => .error .aborted
  | .wait =>
    .ok (addReply s c (.longLong (replicationCountAcksByOffset s (s.client c).reploffset)))
  | .list => .ok (addReply s c .nullArray)
  | .zset => .ok (addReply s c .nullArray)
  | .stream => .ok (addReply s c .nullArray)

def checkBlockedClientTimeout (s : Server) (c : ClientPtr) (now : ℤ) :
    Except Fault (Bool × Server) :=
  if (s.client c).blocked ∧ (s.client c).timeout ≠ 0 ∧ (s.client c).timeout < now then do
    let s ← replyToBlockedClientTimedOut s c
    let s ← unblockClient s c
    .ok (true, s)
  else .ok (false, s)

/-- The loop of `handleBlockedClientsTimeout`: its iterator is set to the first key again and
again. -/
def timeoutLoop (now : ℕ) : ℕ → Server → Except Fault Server
  | 0, _ => .error .outOfFuel
  | fuel+1, s =>
    match raxFirst s.clientsTimeoutTable with
    | none => .ok s
    | some key =>
      let (timeout, c) := decodeTimeoutKey key
      if now ≤ timeout then .ok s
      else do
        let s := setClient s c { s.client c with inToTable := false }
        let (_, s) ← checkBlockedClientTimeout s c (toLong now)
        timeoutLoop now fuel
          { s with clientsTimeoutTable := raxRemove s.clientsTimeoutTable key }

def handleBlockedClientsTimeout (clock : ℤ) (s : Server) : Except Fault Server :=
  if s.clientsTimeoutTable.length = 0 then .ok s
  else timeoutLoop (toUnsigned 64 clock) (s.clientsTimeoutTable.length+1) s

def initClient : Client :=
  { blocked := false
    unblocked := false
    inToTable := false
    btype := .none
    timeout := 0
    reploffset := 0
    reply := [] }

def createClient (s : Server) (c : ClientPtr) : Server :=
  { setClient s c initClient with clients := s.clients ++ [c] }

def unlinkClient (s : Server) (c : ClientPtr) : Except Fault Server :=
  let s := { s with clients := s.clients.erase c }
  if (s.client c).unblocked then
    if c ∈ s.unblockedClients then
      .ok (setClient { s with unblockedClients := s.unblockedClients.erase c } c
        { s.client c with unblocked := false })
    else .error .aborted
  else .ok s

def freeClient (s : Server) (c : ClientPtr) : Except Fault Server := do
  let s ← (if (s.client c).blocked then unblockClient s c else .ok s)
  unlinkClient s c

def clientUnblock (s : Server) (target : ClientPtr) (unblockError : Bool) :
    Except Fault Server :=
  if (s.client target).blocked then do
    let s ← (if unblockError then .ok (addReply s target .error)
      else replyToBlockedClientTimedOut s target)
    unblockClient s target
  else .ok s

def disconnectLoop : List ClientPtr → Server → Except Fault Server
  | [], s => .ok s
  | c :: cs, s =>
    if (s.client c).blocked then do
      let s ← unblockClient (addReply s c .error) c
      disconnectLoop cs s
    else disconnectLoop cs s

def disconnectAllBlockedClients (s : Server) : Except Fault Server := disconnectLoop s.clients s

def processUnblockedClient (s : Server) : Server :=
  match s.unblockedClients with
  | [] => s
  | c :: cs =>
    setClient { s with unblockedClients := cs } c { s.client c with unblocked := false }

/-- What can happen. -/
inductive Event where
  | connect (c : ClientPtr)
  | block (c : ClientPtr) (btype : BlockedType) (tval clock : ℤ)
  | wait (c : ClientPtr) (masterhost multi : Bool) (woff numreplicas tval clock : ℤ)
  | served (c : ClientPtr) (reply : Reply)
  | clientUnblock (c : ClientPtr) (unblockError : Bool)
  | roleChange
  | free (c : ClientPtr)
  | slaves (slaves : List Slave)
  | processUnblocked
  | timeouts (clock : ℤ)

/-- A server with the exact deadlines of its blocked clients. -/
structure History where
  server : Server
  deadline : ClientPtr → Option ℤ

def exactDeadline (tval clock : ℤ) : Option ℤ := if tval = 0 then none else some (tval+clock)

def stepServer (s : Server) : Event → Except Fault Server
  | .connect c => .ok (createClient s c)
  | .block c btype tval clock =>
    match getTimeout tval clock with
    | none => .ok (addReply s c .error)
    | some timeout => .ok (blockForKeys s c btype timeout)
  | .wait c masterhost multi woff numreplicas tval clock =>
    .ok (waitCommand s c masterhost multi woff numreplicas tval clock)
  | .served c reply => unblockClient (addReply s c reply) c
  | .clientUnblock c unblockError => clientUnblock s c unblockError
  | .roleChange => disconnectAllBlockedClients s
  | .free c => freeClient s c
  | .slaves slaves => .ok { s with slaves := slaves }
  | .processUnblocked => .ok (processUnblockedClient s)
  | .timeouts clock => handleBlockedClientsTimeout clock s

def stepDeadline (deadline : ClientPtr → Option ℤ) : Event → ClientPtr → Option ℤ
  | .block c _ tval clock => Function.update deadline c (exactDeadline tval clock)
  | .wait c _ _ _ _ tval clock => Function.update deadline c (exactDeadline tval clock)
  | _ => deadline

def step (h : History) (e : Event) : Except Fault History := do
  let s ← stepServer h.server e
  .ok ⟨s, stepDeadline h.deadline e⟩

def ClockValue (clock : ℤ) : Prop := 0 ≤ clock ∧ clock < 2^63

instance (clock : ℤ) : Decidable (ClockValue clock) :=
  inferInstanceAs (Decidable (0 ≤ clock ∧ clock < 2^63))

/-- The events that are possible: a client is created where none is, a command is run for a client
that is not blocked, and only a blocked client is served. -/
def Allowed (s : Server) : Event → Prop
  | .connect c => c ∉ s.clients ∧ c < 2^64
  | .block c btype tval clock => c ∈ s.clients ∧ (s.client c).blocked = false ∧
      (btype = .list ∨ btype = .zset ∨ btype = .stream) ∧ tval < 2^63 ∧ ClockValue clock
  | .wait c _ _ _ _ tval clock => c ∈ s.clients ∧ (s.client c).blocked = false ∧ tval < 2^63 ∧
      ClockValue clock
  | .served c _ => c ∈ s.clients ∧ (s.client c).blocked = true
  | .clientUnblock c _ => c ∈ s.clients
  | .roleChange => True
  | .free c => c ∈ s.clients
  | .slaves _ => True
  | .processUnblocked => True
  | .timeouts clock => ClockValue clock

def initServer : Server :=
  { client := fun _ => initClient
    clients := []
    slaves := []
    clientsTimeoutTable := []
    clientsWaitingAcks := []
    unblockedClients := []
    blockedClients := 0
    blockedClientsByType := fun _ => 0 }

inductive Reachable : History → Prop where
  | init : Reachable ⟨initServer, fun _ => none⟩
  | step {h h' : History} {e : Event} : Reachable h → Allowed h.server e → step h e = .ok h' →
      Reachable h'

end RedisCore.Timeouts
