import RedisCore.ClusterCommands

/-! What the functions of the cluster code do to the view of a node, as a sequence of elementary
edits.  Every later invariant is checked on the edits, once for each kind of them.

Guards that some packets or commands do not meet are relaxed by a `Slack`, so that one account of
the functions serves the invariants that hold always and those that hold under conditions. -/

namespace RedisCore.Cluster

/-- The slot table, the bitmaps and the counters tell the same, and neither a slot nor a name refers
to a node that was freed. -/
structure Table (cs : ClusterState) : Prop where
  bit : ∀ x n, cs.nodes x = some n → ∀ j, n.slots j = true ↔ cs.slots j = some x
  owner : ∀ j x, cs.slots j = some x → ∃ n, cs.nodes x = some n
  count : ∀ x n, cs.nodes x = some n →
    n.numslots = (Finset.univ.filter (fun j => n.slots j = true)).card
  importing : ∀ j x, cs.importingSlotsFrom j = some x → ∃ n, cs.nodes x = some n
  migrating : ∀ j x, cs.migratingSlotsTo j = some x → ∃ n, cs.nodes x = some n
  listed : ∀ name x, cs.table name = some x → ∃ n, cs.nodes x = some n ∧ n.name = name
  handshake : ∀ x n, cs.nodes x = some n → n.flags.handshake = true → cs.table n.name = some x
  bound : ∀ x n, cs.nodes x = some n → x < cs.fresh

structure View (cs : ClusterState) : Prop extends Table cs where
  me : ∃ n, cs.nodes cs.myself = some n

def OneRole (f : NodeFlags) : Prop :=
  (f.handshake = true ∧ f.master = false ∧ f.slave = false) ∨
    (f.handshake = false ∧ f.slave = !f.master)

/-- Masters and slaves know each other, only masters own slots, and this node follows a master of
the cluster when it is a slave. -/
structure Roles (cs : ClusterState) : Prop where
  attached : ∀ x n y, cs.nodes x = some n → n.slaveof = some y →
    ∃ m, cs.nodes y = some m ∧ x ∈ m.slaves
  slaves : ∀ y m x, cs.nodes y = some m → x ∈ m.slaves →
    ∃ n, cs.nodes x = some n ∧ n.slaveof = some y
  distinct : ∀ y m, cs.nodes y = some m → m.slaves.Nodup
  slaveFlag : ∀ x n y, cs.nodes x = some n → n.slaveof = some y → n.flags.slave = true
  oneRole : ∀ x n, cs.nodes x = some n → OneRole n.flags
  owner : ∀ j x n, cs.slots j = some x → cs.nodes x = some n → n.flags.master = true
  follows : ∀ n, cs.nodes cs.myself = some n → n.flags.slave = true → ∃ y, n.slaveof = some y
  joined : ∀ n, cs.nodes cs.myself = some n → n.flags.handshake = false
  master : ∀ n y m, cs.nodes cs.myself = some n → n.slaveof = some y → cs.nodes y = some m →
    m.flags.handshake = false

/-- Which guards are waived, and which names belong to nodes of the cluster. -/
structure Slack where
  role : Prop
  epoch : Prop
  removal : Prop
  election : Prop
  proc : NodeName → Prop

structure Epochs (cs : ClusterState) : Prop where
  known : ∀ x n, cs.nodes x = some n → n.configEpoch ≤ cs.currentEpoch
  election : cs.failoverAuthEpoch ≤ cs.currentEpoch

def HonestGossip (cs : ClusterState) (gossip : List GossipEntry) : Prop :=
  ∀ g ∈ gossip, g.flags.handshake = false ∧
    ∃ x n, cs.nodes x = some n ∧ g.nodename = n.name ∧ g.flags = n.flags

def HonestBody (k : Slack) (cs : ClusterState) : MsgBody → Prop
  | .ping gossip => HonestGossip cs gossip
  | .pong gossip => HonestGossip cs gossip
  | .meet gossip => HonestGossip cs gossip
  | .authRequest => k.election
  | .authAck => k.election
  | .update _ epoch _ => ∃ x n, cs.nodes x = some n ∧ epoch = n.configEpoch
  | _ => True

structure Honest (k : Slack) (cs : ClusterState) (m : ClusterMsg) : Prop where
  sender : ∃ me, cs.nodes cs.myself = some me ∧ m.sender = me.name
  current : m.currentEpoch = cs.currentEpoch
  config : ∃ x n, cs.nodes x = some n ∧ m.configEpoch = n.configEpoch
  body : HonestBody k cs m.body

structure SameBallot (cs cs' : ClusterState) : Prop where
  vote : cs'.lastVoteEpoch = cs.lastVoteEpoch
  count : cs'.failoverAuthCount = cs.failoverAuthCount
  sent : cs'.failoverAuthSent = cs.failoverAuthSent
  epoch : cs'.failoverAuthEpoch = cs.failoverAuthEpoch

structure SameView (cs cs' : ClusterState) : Prop where
  nodes : cs'.nodes = cs.nodes
  table : cs'.table = cs.table
  fresh : cs'.fresh = cs.fresh
  myself : cs'.myself = cs.myself
  current : cs'.currentEpoch = cs.currentEpoch
  migrating : cs'.migratingSlotsTo = cs.migratingSlotsTo
  importing : cs'.importingSlotsFrom = cs.importingSlotsFrom
  slots : cs'.slots = cs.slots

structure SameNode (n n' : ClusterNode) : Prop where
  name : n'.name = n.name
  epoch : n'.configEpoch = n.configEpoch
  slots : n'.slots = n.slots
  numslots : n'.numslots = n.numslots
  slaves : n'.slaves = n.slaves
  slaveof : n'.slaveof = n.slaveof
  master : n'.flags.master = n.flags.master
  slave : n'.flags.slave = n.flags.slave
  handshake : n'.flags.handshake = n.flags.handshake
  mine : n'.flags.myself = n.flags.myself
  unlinked : n.flags.myself = true → n.link = false → n'.link = false

structure Touched (cs cs' : ClusterState) : Prop extends SameBallot cs cs' where
  old : ∀ y n', cs'.nodes y = some n' → ∃ n, cs.nodes y = some n ∧ SameNode n n'
  live : ∀ y n, cs.nodes y = some n → ∃ n', cs'.nodes y = some n' ∧ SameNode n n'
  table : cs'.table = cs.table
  fresh : cs'.fresh = cs.fresh
  myself : cs'.myself = cs.myself
  current : cs'.currentEpoch = cs.currentEpoch
  migrating : cs'.migratingSlotsTo = cs.migratingSlotsTo
  importing : cs'.importingSlotsFrom = cs.importingSlotsFrom
  slots : cs'.slots = cs.slots
  out : cs'.out = cs.out

structure Newborn (n : ClusterNode) : Prop where
  epoch : n.configEpoch = 0
  slots : n.slots = fun _ => false
  numslots : n.numslots = 0
  slaves : n.slaves = []
  slaveof : n.slaveof = none

def mapNode (cs : ClusterState) (x : NodeId) (f : ClusterNode → ClusterNode) : ClusterState :=
  { cs with nodes := fun y => if y = x then (cs.nodes y).map f else cs.nodes y }

@[simp] theorem setNode_nodes (cs : ClusterState) (x y : NodeId) (n : ClusterNode) :
    (setNode cs x n).nodes y = if y = x then some n else cs.nodes y := rfl

@[simp] theorem mapNode_nodes (cs : ClusterState) (x y : NodeId) (f : ClusterNode → ClusterNode) :
    (mapNode cs x f).nodes y = if y = x then (cs.nodes y).map f else cs.nodes y := rfl

def dropSlave (x : NodeId) (m : ClusterNode) : ClusterNode :=
  if x ∈ m.slaves then
    { m with
      slaves := m.slaves.erase x
      flags := if (m.slaves.erase x).isEmpty then { m.flags with migrateTo := false } else m.flags }
  else m

def takeSlave (x : NodeId) (m : ClusterNode) : ClusterNode :=
  if x ∈ m.slaves then m
  else { m with slaves := m.slaves ++ [x], flags := { m.flags with migrateTo := true } }

def unlink (cs : ClusterState) (x : NodeId) : ClusterState :=
  match (cs.nodes x).bind ClusterNode.slaveof with
  | none => cs
  | some m => mapNode cs m (dropSlave x)

def asMaster (migrateTo : Bool) (n : ClusterNode) : ClusterNode :=
  { n with
    flags := { n.flags with slave := false, master := true, migrateTo := migrateTo }
    slaveof := none }

def asSlave (n : ClusterNode) : ClusterNode :=
  { n with flags := { n.flags with master := false, migrateTo := false, slave := true } }

def joinAs (name : NodeName) (f : NodeFlags) (n : ClusterNode) : ClusterNode :=
  { n with
    name := name
    flags := { n.flags with
      handshake := false
      master := n.flags.master || f.master
      slave := n.flags.slave || f.slave } }

def slaveOf (m : NodeId) (n : ClusterNode) : ClusterNode := { n with slaveof := some m }

def quitRole (cs : ClusterState) : ClusterState :=
  if (cs.nodes cs.myself).any (fun n => n.flags.master) then
    clusterCloseAllSlots (mapNode cs cs.myself asSlave)
  else unlink cs cs.myself

def orphan (cs : ClusterState) (slaves : List NodeId) : ClusterState :=
  { cs with nodes := fun y =>
    if y ∈ slaves then (cs.nodes y).map (fun n => { n with slaveof := none }) else cs.nodes y }

def dropNode (cs : ClusterState) (x : NodeId) (name : NodeName) : ClusterState :=
  { cs with
    table := Function.update cs.table name none
    nodes := fun y => if y = x then none else cs.nodes y }

def relist (table : NodeName → Option NodeId) (x : NodeId) (oldname newname : NodeName) :
    NodeName → Option NodeId :=
  if (Function.update table oldname none newname).isSome then Function.update table oldname none
  else Function.update (Function.update table oldname none) newname (some x)

def detached (cs : ClusterState) (x : NodeId) (n : ClusterNode) : ClusterState :=
  if n.flags.slave then unlink (orphan cs n.slaves) x else orphan cs n.slaves

inductive Edit (k : Slack) : ClusterState → ClusterState → Prop where
  | aside {cs cs'} (hv : SameView cs cs') (hb : SameBallot cs cs') (ho : cs'.out = cs.out) :
    Edit k cs cs'
  | send {cs} (msgs : List (NodeName × ClusterMsg)) (h : ∀ p ∈ msgs, Honest k cs p.2) :
    Edit k cs { cs with out := cs.out ++ msgs }
  | ballot {cs cs'} (hv : SameView cs cs') (ho : cs'.out = cs.out) (hk : k.election)
      (he : cs'.failoverAuthEpoch = cs.failoverAuthEpoch ∨
        cs'.failoverAuthEpoch ≤ cs.currentEpoch) : Edit k cs cs'
  | touch {cs cs'} (h : Touched cs cs') : Edit k cs cs'
  | join {cs} (n : ClusterNode) (h : Newborn n) (hname : clusterLookupNode cs n.name = none)
      (hrole : OneRole n.flags ∨ k.role)
      (hproc : n.flags.handshake = true → k.proc n.name → k.epoch)
      (hmine : n.flags.myself = true → k.proc n.name ∨ k.epoch) :
      Edit k cs { setNode cs cs.fresh n with
        table := Function.update cs.table n.name (some cs.fresh), fresh := cs.fresh+1 }
  | epochUp {cs} (e : ℕ) (h : cs.currentEpoch ≤ e) : Edit k cs { cs with currentEpoch := e }
  | nodeEpoch {cs} (x : NodeId) (e : ℕ) (h : (∀ n, cs.nodes x = some n → n.configEpoch ≤ e) ∨ k.epoch)
      (hk : e ≤ cs.currentEpoch ∨ k.epoch) :
      Edit k cs (mapNode cs x (fun n => { n with configEpoch := e }))
  | bind {cs} (x : NodeId) (n n' : ClusterNode) (j : Slot) (hx : cs.nodes x = some n)
      (hfree : cs.slots j = none) (hn : SameNode { n with
        slots := Function.update n.slots j true, numslots := n.numslots+1 } n')
      (hk : n.flags.master = true ∨ k.role) :
      Edit k cs { setNode cs x n' with slots := Function.update cs.slots j (some x) }
  | unbind {cs} (x : NodeId) (n : ClusterNode) (j : Slot) (hx : cs.nodes x = some n)
      (hs : cs.slots j = some x) :
      Edit k cs
        { setNode cs x { n with
            slots := Function.update n.slots j false, numslots := n.numslots-1 } with
          slots := Function.update cs.slots j none }
  | slotState {cs} (mig imp : Slot → Option NodeId)
      (hm : ∀ j x, mig j = some x → ∃ n, cs.nodes x = some n)
      (hi : ∀ j x, imp j = some x → ∃ n, cs.nodes x = some n) :
      Edit k cs { cs with migratingSlotsTo := mig, importingSlotsFrom := imp }
  | promote {cs} (x : NodeId) (b : Bool)
      (hk : (∀ n, cs.nodes x = some n → n.flags.handshake = false) ∨ k.role) :
      Edit k cs (mapNode (unlink cs x) x (asMaster b))
  | demote {cs} (x : NodeId) (n : ClusterNode) (hx : cs.nodes x = some n) (hslots : n.numslots = 0)
      (hmaster : n.flags.master = true) (hk : x ≠ cs.myself ∨ k.role) :
      Edit k cs (mapNode cs x asSlave)
  | attach {cs} (x m : NodeId) (n : ClusterNode) (hx : cs.nodes x = some n)
      (hm : ∃ n, cs.nodes m = some n)
      (hk : (x ≠ cs.myself ∧ n.flags.slave = true) ∨ k.role) :
      Edit k cs (mapNode (mapNode (unlink cs x) m (takeSlave x)) x (slaveOf m))
  | follow {cs} (m : NodeId) (hne : m ≠ cs.myself) (hm : ∃ n, cs.nodes m = some n)
      (hslots : ∀ n, cs.nodes cs.myself = some n → n.numslots = 0)
      (hk : (∀ n, cs.nodes m = some n → n.flags.handshake = false) ∨ k.role) :
      Edit k cs (mapNode (mapNode (quitRole cs) cs.myself (slaveOf m)) m (takeSlave cs.myself))
  | remove {cs} (x : NodeId) (n : ClusterNode) (hx : cs.nodes x = some n) (hme : x ≠ cs.myself)
      (hname : cs.table n.name = some x)
      (hs : ∀ j, cs.slots j ≠ some x) (hi : ∀ j, cs.importingSlotsFrom j ≠ some x)
      (hm : ∀ j, cs.migratingSlotsTo j ≠ some x) (hrm : k.removal)
      (hk : (∀ n, cs.nodes cs.myself = some n → n.slaveof ≠ some x) ∨ k.role) :
      Edit k cs (dropNode (detached cs x n) x n.name)
  | complete {cs} (x : NodeId) (n : ClusterNode) (hx : cs.nodes x = some n) (name : NodeName)
      (f : NodeFlags) (hhand : n.flags.handshake = true) (hf : f.slave = !f.master ∨ k.role)
      (hnamed : k.proc name ∨ k.epoch) :
      Edit k cs { mapNode cs x (joinAs name f) with table := relist cs.table x n.name name }

inductive Edits (k : Slack) : ClusterState → ClusterState → Prop where
  | refl (cs) : Edits k cs cs
  | tail {cs cs' cs''} (h : Edits k cs cs') (e : Edit k cs' cs'') : Edits k cs cs''

theorem Edits.single {k : Slack} {cs cs' : ClusterState} (e : Edit k cs cs') : Edits k cs cs' :=
  Edits.tail (Edits.refl cs) e

theorem Edits.trans {k : Slack} {cs cs' cs'' : ClusterState} (h : Edits k cs cs')
    (h' : Edits k cs' cs'') : Edits k cs cs'' := by
  induction h' with
  | refl => exact h
  | tail _ e ih => exact Edits.tail ih e

theorem Edits.induct {k : Slack} {P : ClusterState → Prop}
    (step : ∀ cs cs', Edit k cs cs' → P cs → P cs') {cs cs' : ClusterState} (h : Edits k cs cs')
    (hp : P cs) : P cs' := by
  induction h with
  | refl => exact hp
  | tail _ e ih => exact step _ _ e ih

end RedisCore.Cluster
