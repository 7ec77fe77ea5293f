import RedisCore.GlobModel
import RedisCore.ReverseIndex

/-! Channels and patterns of subscribers (`pubsub.c`). The order in which an iterator visits a
dictionary is an argument of the functions that have one. -/

namespace RedisCore.Pubsub

open ReverseIndex

abbrev ClientId := ℕ

inductive Reply (ν : Type) where
  | subscribed (channel : Bytes) (n : ν)
  | unsubscribed (channel : Option Bytes) (n : ν)
  | psubscribed (pattern : Bytes) (n : ν)
  | punsubscribed (pattern : Option Bytes) (n : ν)
  | message (channel msg : Bytes)
  | pmessage (pattern channel msg : Bytes)
  | receivers (n : ν)
deriving DecidableEq

structure Client where
  pubsubChannels : List Bytes
  pubsubPatterns : List Bytes
  pubsub : Bool
  reply : List (Reply ℤ)
deriving DecidableEq

/-- `client` is the memory: it has contents at any address, also where no client is. -/
structure Server where
  client : ClientId → Client
  clients : List ClientId
  pubsubChannels : AList (fun _ : Bytes => List ClientId)
  pubsubPatterns : List (ClientId × Bytes)
  pubsubPatternsDict : AList (fun _ : Bytes => List ClientId)

def setClient (s : Server) (c : ClientId) (cl : Client) : Server :=
  { s with client := Function.update s.client c cl }

def addReply (s : Server) (c : ClientId) (r : Reply ℤ) : Server :=
  setClient s c { s.client c with reply := (s.client c).reply ++ [r] }

/-- The sum of the sizes is returned as an `int`. -/
def clientSubscriptionsCount (s : Server) (c : ClientId) : ℤ :=
  toInt ((s.client c).pubsubChannels.length+(s.client c).pubsubPatterns.length : ℕ)

def addReplyPubsubSubscribed (s : Server) (c : ClientId) (channel : Bytes) : Server :=
  addReply s c (.subscribed channel (clientSubscriptionsCount s c))

def addReplyPubsubUnsubscribed (s : Server) (c : ClientId) (channel : Option Bytes) : Server :=
  addReply s c (.unsubscribed channel (clientSubscriptionsCount s c))

def addReplyPubsubPatSubscribed (s : Server) (c : ClientId) (pattern : Bytes) : Server :=
  addReply s c (.psubscribed pattern (clientSubscriptionsCount s c))

def addReplyPubsubPatUnsubscribed (s : Server) (c : ClientId) (pattern : Option Bytes) : Server :=
  addReply s c (.punsubscribed pattern (clientSubscriptionsCount s c))

def pubsubSubscribeChannel (s : Server) (c : ClientId) (channel : Bytes) : ℤ × Server :=
  if channel ∈ (s.client c).pubsubChannels then (0, addReplyPubsubSubscribed s c channel)
  else
    let s := setClient s c { s.client c with
      pubsubChannels := (s.client c).pubsubChannels ++ [channel] }
    let s := { s with pubsubChannels := link s.pubsubChannels channel c }
    (1, addReplyPubsubSubscribed s c channel)

/-- A missing channel or client is the failure of an assertion. -/
def pubsubUnsubscribeChannel (s : Server) (c : ClientId) (channel : Bytes) (notify : Bool) :
    Except Fault (ℤ × Server) :=
  if channel ∈ (s.client c).pubsubChannels then
    let s := setClient s c { s.client c with
      pubsubChannels := (s.client c).pubsubChannels.erase channel }
    match unlink s.pubsubChannels channel c with
    | none => .error .aborted
    | some table =>
      let s := { s with pubsubChannels := table }
      .ok (1, if notify then addReplyPubsubUnsubscribed s c (some channel) else s)
  else .ok (0, if notify then addReplyPubsubUnsubscribed s c (some channel) else s)

def pubsubSubscribePattern (s : Server) (c : ClientId) (pattern : Bytes) : ℤ × Server :=
  if pattern ∈ (s.client c).pubsubPatterns then (0, addReplyPubsubPatSubscribed s c pattern)
  else
    let s := setClient s c { s.client c with
      pubsubPatterns := (s.client c).pubsubPatterns ++ [pattern] }
    let s := { s with
      pubsubPatterns := s.pubsubPatterns ++ [(c, pattern)]
      pubsubPatternsDict := link s.pubsubPatternsDict pattern c }
    (1, addReplyPubsubPatSubscribed s c pattern)

/-- The node of `server.pubsub_patterns` is deleted without a test that it has been found. -/
def pubsubUnsubscribePattern (s : Server) (c : ClientId) (pattern : Bytes) (notify : Bool) :
    Except Fault (ℤ × Server) :=
  if pattern ∈ (s.client c).pubsubPatterns then
    let s := setClient s c { s.client c with
      pubsubPatterns := (s.client c).pubsubPatterns.erase pattern }
    if (c, pattern) ∈ s.pubsubPatterns then
      let s := { s with pubsubPatterns := s.pubsubPatterns.erase (c, pattern) }
      match unlink s.pubsubPatternsDict pattern c with
      | none => .error .aborted
      | some table =>
        let s := { s with pubsubPatternsDict := table }
        .ok (1, if notify then addReplyPubsubPatUnsubscribed s c (some pattern) else s)
    else .error .outOfBounds
  else .ok (0, if notify then addReplyPubsubPatUnsubscribed s c (some pattern) else s)

def unsubscribeChannels (c : ClientId) (notify : Bool) :
    List Bytes → ℤ → Server → Except Fault (ℤ × Server)
  | [], count, s => .ok (count, s)
  | channel :: channels, count, s => do
    let (retval, s) ← pubsubUnsubscribeChannel s c channel notify
    unsubscribeChannels c notify channels (toInt (count+retval)) s

def pubsubUnsubscribeAllChannels (s : Server) (c : ClientId) (notify : Bool) (order : List Bytes) :
    Except Fault (ℤ × Server) := do
  let (count, s) ← unsubscribeChannels c notify order 0 s
  .ok (count, if notify ∧ count = 0 then addReplyPubsubUnsubscribed s c none else s)

def unsubscribePatterns (c : ClientId) (notify : Bool) :
    List Bytes → ℤ → Server → Except Fault (ℤ × Server)
  | [], count, s => .ok (count, s)
  | pattern :: patterns, count, s => do
    let (retval, s) ← pubsubUnsubscribePattern s c pattern notify
    unsubscribePatterns c notify patterns (toInt (count+retval)) s

def pubsubUnsubscribeAllPatterns (s : Server) (c : ClientId) (notify : Bool) :
    Except Fault (ℤ × Server) := do
  let (count, s) ← unsubscribePatterns c notify (s.client c).pubsubPatterns 0 s
  .ok (count, if notify ∧ count = 0 then addReplyPubsubPatUnsubscribed s c none else s)

def sendToAll (r : Reply ℤ) : List ClientId → ℤ → Server → ℤ × Server
  | [], receivers, s => (receivers, s)
  | c :: cs, receivers, s => sendToAll r cs (toInt (receivers+1)) (addReply s c r)

def patternMatches (charValue : UInt8 → ℤ) (pattern channel : Bytes) : Bool :=
  Glob.stringmatchlen charValue false pattern channel

def sendToMatching (charValue : UInt8 → ℤ) (channel msg : Bytes) :
    List Bytes → ℤ → Server → ℤ × Server
  | [], receivers, s => (receivers, s)
  | pattern :: order, receivers, s =>
    if patternMatches charValue pattern channel then
      let clients := (s.pubsubPatternsDict.lookup pattern).getD []
      let (receivers, s) := sendToAll (.pmessage pattern channel msg) clients receivers s
      sendToMatching charValue channel msg order receivers s
    else sendToMatching charValue channel msg order receivers s

def pubsubPublishMessage (charValue : UInt8 → ℤ) (s : Server) (channel msg : Bytes)
    (order : List Bytes) : ℤ × Server :=
  let clients := (s.pubsubChannels.lookup channel).getD []
  let (receivers, s) := sendToAll (.message channel msg) clients 0 s
  sendToMatching charValue channel msg order receivers s

def setPubsub (s : Server) (c : ClientId) (flag : Bool) : Server :=
  setClient s c { s.client c with pubsub := flag }

def subscribeEach (c : ClientId) : List Bytes → Server → Server
  | [], s => s
  | channel :: channels, s => subscribeEach c channels (pubsubSubscribeChannel s c channel).2

def subscribeCommand (s : Server) (c : ClientId) (channels : List Bytes) : Server :=
  setPubsub (subscribeEach c channels s) c true

def psubscribeEach (c : ClientId) : List Bytes → Server → Server
  | [], s => s
  | pattern :: patterns, s => psubscribeEach c patterns (pubsubSubscribePattern s c pattern).2

def psubscribeCommand (s : Server) (c : ClientId) (patterns : List Bytes) : Server :=
  setPubsub (psubscribeEach c patterns s) c true

def clearPubsub (s : Server) (c : ClientId) : Server :=
  if clientSubscriptionsCount s c = 0 then setPubsub s c false else s

def unsubscribeCommand (s : Server) (c : ClientId) (channels order : List Bytes) :
    Except Fault Server := do
  let (_, s) ← (if channels = [] then pubsubUnsubscribeAllChannels s c true order
    else unsubscribeChannels c true channels 0 s)
  .ok (clearPubsub s c)

def punsubscribeCommand (s : Server) (c : ClientId) (patterns : List Bytes) :
    Except Fault Server := do
  let (_, s) ← (if patterns = [] then pubsubUnsubscribeAllPatterns s c true
    else unsubscribePatterns c true patterns 0 s)
  .ok (clearPubsub s c)

/-- A message that the server itself publishes has no sender. -/
def publish (charValue : UInt8 → ℤ) (s : Server) (sender : Option ClientId) (channel msg : Bytes)
    (order : List Bytes) : Server :=
  let (receivers, s) := pubsubPublishMessage charValue s channel msg order
  match sender with
  | none => s
  | some c => addReply s c (.receivers receivers)

def initClient : Client :=
  { pubsubChannels := []
    pubsubPatterns := []
    pubsub := false
    reply := [] }

def createClient (s : Server) (c : ClientId) : Server :=
  { setClient s c initClient with clients := s.clients ++ [c] }

def freeClient (s : Server) (c : ClientId) (order : List Bytes) : Except Fault Server := do
  let (_, s) ← pubsubUnsubscribeAllChannels s c false order
  let (_, s) ← pubsubUnsubscribeAllPatterns s c false
  .ok { s with clients := s.clients.erase c }

inductive Event where
  | connect (c : ClientId)
  | subscribe (c : ClientId) (channels : List Bytes)
  | unsubscribe (c : ClientId) (channels order : List Bytes)
  | psubscribe (c : ClientId) (patterns : List Bytes)
  | punsubscribe (c : ClientId) (patterns : List Bytes)
  | disconnect (c : ClientId) (order : List Bytes)
  | publish (sender : Option ClientId) (channel msg : Bytes) (order : List Bytes)

def step (charValue : UInt8 → ℤ) (s : Server) : Event → Except Fault Server
  | .connect c => .ok (createClient s c)
  | .subscribe c channels => .ok (subscribeCommand s c channels)
  | .unsubscribe c channels order => unsubscribeCommand s c channels order
  | .psubscribe c patterns => .ok (psubscribeCommand s c patterns)
  | .punsubscribe c patterns => punsubscribeCommand s c patterns
  | .disconnect c order => freeClient s c order
  | .publish sender channel msg order => .ok (publish charValue s sender channel msg order)

/-- The events that are possible: those of connected clients, and iterators that visit the keys of
their dictionary, each once. -/
def Allowed (s : Server) : Event → Prop
  | .connect c => c ∉ s.clients
  | .subscribe c _ => c ∈ s.clients
  | .unsubscribe c channels order => c ∈ s.clients ∧
      (channels = [] → order.Perm (s.client c).pubsubChannels)
  | .psubscribe c _ => c ∈ s.clients
  | .punsubscribe c _ => c ∈ s.clients
  | .disconnect c order => c ∈ s.clients ∧ order.Perm (s.client c).pubsubChannels
  | .publish sender _ _ order => (∀ c ∈ sender, c ∈ s.clients) ∧
      order.Perm s.pubsubPatternsDict.keys

def initServer : Server :=
  { client := fun _ => initClient
    clients := []
    pubsubChannels := ∅
    pubsubPatterns := []
    pubsubPatternsDict := ∅ }

end RedisCore.Pubsub
