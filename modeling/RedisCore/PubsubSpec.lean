import RedisCore.PubsubModel
import Mathlib.Data.Finset.Card

namespace RedisCore.Pubsub

structure Subscriptions where
  clients : List ClientId
  channels : ClientId → Finset Bytes
  patterns : ClientId → Finset Bytes
  reply : ClientId → List (Reply ℕ)

namespace Subscriptions

def count (a : Subscriptions) (c : ClientId) : ℕ := (a.channels c).card+(a.patterns c).card

def send (a : Subscriptions) (c : ClientId) (r : List (Reply ℕ)) : Subscriptions :=
  { a with reply := Function.update a.reply c (a.reply c ++ r) }

def setChannels (a : Subscriptions) (c : ClientId) (names : Finset Bytes) : Subscriptions :=
  { a with channels := Function.update a.channels c names }

def setPatterns (a : Subscriptions) (c : ClientId) (names : Finset Bytes) : Subscriptions :=
  { a with patterns := Function.update a.patterns c names }

def subscribe (a : Subscriptions) (c : ClientId) (channel : Bytes) : Subscriptions :=
  let a := a.setChannels c (insert channel (a.channels c))
  a.send c [.subscribed channel (a.count c)]

def psubscribe (a : Subscriptions) (c : ClientId) (pattern : Bytes) : Subscriptions :=
  let a := a.setPatterns c (insert pattern (a.patterns c))
  a.send c [.psubscribed pattern (a.count c)]

def unsubscribe (notify : Bool) (a : Subscriptions) (c : ClientId) (channel : Bytes) :
    Subscriptions :=
  let a := a.setChannels c ((a.channels c).erase channel)
  if notify then a.send c [.unsubscribed (some channel) (a.count c)] else a

def punsubscribe (notify : Bool) (a : Subscriptions) (c : ClientId) (pattern : Bytes) :
    Subscriptions :=
  let a := a.setPatterns c ((a.patterns c).erase pattern)
  if notify then a.send c [.punsubscribed (some pattern) (a.count c)] else a

def unsubscribeAll (notify : Bool) (a : Subscriptions) (c : ClientId) (order : List Bytes) :
    Subscriptions :=
  let none := toInt (a.channels c).card = 0
  let a := order.foldl (fun a channel => a.unsubscribe notify c channel) a
  if notify ∧ none then a.send c [.unsubscribed Option.none (a.count c)] else a

def punsubscribeAll (notify : Bool) (a : Subscriptions) (c : ClientId) (order : List Bytes) :
    Subscriptions :=
  let none := toInt (a.patterns c).card = 0
  let a := order.foldl (fun a pattern => a.punsubscribe notify c pattern) a
  if notify ∧ none then a.send c [.punsubscribed Option.none (a.count c)] else a

/-- The messages that a client gets: one if it is subscribed to the channel, and one for each of its
patterns that matches. -/
def deliveries (charValue : UInt8 → ℤ) (a : Subscriptions) (channel msg : Bytes)
    (order : List Bytes) (c : ClientId) : List (Reply ℕ) :=
  (if channel ∈ a.channels c then [.message channel msg] else []) ++
    (order.filter fun pattern => pattern ∈ a.patterns c ∧
      patternMatches charValue pattern channel).map (fun pattern => .pmessage pattern channel msg)

def receivers (charValue : UInt8 → ℤ) (a : Subscriptions) (channel msg : Bytes)
    (order : List Bytes) : ℕ :=
  (a.clients.map fun c => (a.deliveries charValue channel msg order c).length).sum

def publish (charValue : UInt8 → ℤ) (a : Subscriptions) (sender : Option ClientId)
    (channel msg : Bytes) (order : List Bytes) : Subscriptions :=
  let sent := { a with reply := fun c => a.reply c ++ a.deliveries charValue channel msg order c }
  match sender with
  | none => sent
  | some c => sent.send c [.receivers (a.receivers charValue channel msg order)]

def connect (a : Subscriptions) (c : ClientId) : Subscriptions :=
  { a with
    clients := a.clients ++ [c]
    reply := Function.update a.reply c [] }

def disconnect (a : Subscriptions) (c : ClientId) (order patternOrder : List Bytes) :
    Subscriptions :=
  let a := (a.unsubscribeAll false c order).punsubscribeAll false c patternOrder
  { a with clients := a.clients.erase c }

def step (charValue : UInt8 → ℤ) (patternOrder : ClientId → List Bytes) (a : Subscriptions) :
    Event → Subscriptions
  | .connect c => a.connect c
  | .subscribe c channels => channels.foldl (fun a channel => a.subscribe c channel) a
  | .unsubscribe c channels order =>
    if channels = [] then a.unsubscribeAll true c order
    else channels.foldl (fun a channel => a.unsubscribe true c channel) a
  | .psubscribe c patterns => patterns.foldl (fun a pattern => a.psubscribe c pattern) a
  | .punsubscribe c patterns =>
    if patterns = [] then a.punsubscribeAll true c (patternOrder c)
    else patterns.foldl (fun a pattern => a.punsubscribe true c pattern) a
  | .disconnect c order => a.disconnect c order (patternOrder c)
  | .publish sender channel msg order => a.publish charValue sender channel msg order

def init : Subscriptions :=
  { clients := []
    channels := fun _ => ∅
    patterns := fun _ => ∅
    reply := fun _ => [] }

end Subscriptions
end RedisCore.Pubsub
