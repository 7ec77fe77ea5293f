import Mathlib.Data.Fintype.Card
import RedisCore.Outcome

/-! The local view a node of redis-6.0.9 has of its cluster (`cluster.c`): the table of nodes, the
slot table and the slot bitmaps, and the functions that edit them.

Nodes live at addresses; freeing a node takes it out of the table.  Bookkeeping that only drives
timers and logs (ping times, link creation times, the `todo_before_sleep` flags, statistics) is
left to the events, which may come at any time. -/

namespace RedisCore.Cluster

abbrev Slot := Fin 16384

instance slotsNeZero : NeZero 16384 := ⟨by decide⟩

abbrev NodeName := ℕ

def nullName : NodeName := 0

abbrev NodeId := ℕ

/-- Why a run stops: a failed assertion, or a pointer that must not be followed. -/
inductive ClusterFault where
  | delSlotAssert
  | slotsCommandAssert
  | setMasterMyselfAssert
  | setMasterSlotsAssert
  | slaveRankAssert
  | nodeFailedAssert
  | dictDeleteAssert
  | nullPointer
  | freedNode
  | badConfig
deriving DecidableEq, Repr

/-- The `CLUSTER_NODE_*` bits of `node->flags`. -/
structure NodeFlags where
  master : Bool
  slave : Bool
  pfail : Bool
  fail : Bool
  myself : Bool
  handshake : Bool
  noaddr : Bool
  meet : Bool
  migrateTo : Bool
  nofailover : Bool
deriving DecidableEq, Repr

def noFlags : NodeFlags := ⟨false, false, false, false, false, false, false, false, false, false⟩

structure NodeAddr where
  ip : Bytes
  port : ℕ
  cport : ℕ
deriving DecidableEq, Repr

def lowerAscii (b : UInt8) : UInt8 := if 65 ≤ b ∧ b ≤ 90 then b+32 else b

def NodeAddr.same (a b : NodeAddr) : Bool :=
  a.ip.map lowerAscii == b.ip.map lowerAscii && a.port == b.port && a.cport == b.cport

structure FailReport where
  node : NodeId
  time : ℤ
deriving DecidableEq, Repr

structure ClusterNode where
  name : NodeName
  ctime : ℤ
  flags : NodeFlags
  configEpoch : ℕ
  slots : Slot → Bool
  numslots : ℕ
  slaves : List NodeId
  slaveof : Option NodeId
  failTime : ℤ
  votedTime : ℤ
  replOffset : ℤ
  addr : NodeAddr
  link : Bool
  failReports : List FailReport

inductive ClusterHealth where
  | ok
  | fail
deriving DecidableEq, Repr

structure GossipEntry where
  nodename : NodeName
  addr : NodeAddr
  flags : NodeFlags
deriving DecidableEq, Repr

/-- The type of a message and the data that goes with it.  PUBLISH and MODULE messages carry
nothing that the cluster state depends on. -/
inductive MsgBody where
  | ping (gossip : List GossipEntry)
  | pong (gossip : List GossipEntry)
  | meet (gossip : List GossipEntry)
  | fail (nodename : NodeName)
  | authRequest
  | authAck
  | mfstart
  | update (nodename : NodeName) (configEpoch : ℕ) (slots : Slot → Bool)
  | other

/-- `clusterMsg`; `slaveof` is `nullName` for a master. -/
structure ClusterMsg where
  sender : NodeName
  currentEpoch : ℕ
  configEpoch : ℕ
  offset : ℤ
  myslots : Slot → Bool
  slaveof : NodeName
  addr : NodeAddr
  flags : NodeFlags
  paused : Bool
  forceack : Bool
  body : MsgBody

/-- `clusterState` with the nodes its pointers refer to.  `table` is the dict `nodes` of names and
addresses, `fresh` the next address a node is allocated at, and `out` are the messages handed to the
links, each with the node it goes to. -/
structure ClusterState where
  nodes : NodeId → Option ClusterNode
  table : NodeName → Option NodeId
  fresh : NodeId
  myself : NodeId
  currentEpoch : ℕ
  lastVoteEpoch : ℕ
  state : ClusterHealth
  size : ℕ
  blackList : NodeName → Option ℤ
  migratingSlotsTo : Slot → Option NodeId
  importingSlotsFrom : Slot → Option NodeId
  slots : Slot → Option NodeId
  failoverAuthTime : ℤ
  failoverAuthCount : ℕ
  failoverAuthSent : Bool
  failoverAuthRank : ℕ
  failoverAuthEpoch : ℕ
  mfEnd : ℤ
  mfSlave : Option NodeId
  mfMasterOffset : ℤ
  mfCanStart : Bool
  amongMinorityTime : ℤ
  firstCallTime : ℤ
  out : List (NodeName × ClusterMsg)

structure ClusterConfig where
  nodeTimeout : ℤ
  slaveNoFailover : Bool
  slaveValidityFactor : ℤ
  replPingSlavePeriod : ℤ
  migrationBarrier : ℕ
  requireFullCoverage : Bool
  moduleNoFailover : Bool
  moduleNoRedirection : Bool
  announce : NodeAddr

/-- What one event finds around the cluster state: the clocks, the peer of the connection, the data
set, the replication offsets, the random numbers it draws, and the nodes a PING or PONG of it
gossips about. -/
structure Env where
  now : ℤ
  unixtime : ℤ
  peerIp : Bytes
  keysInSlot : Slot → ℕ
  dbSize : ℕ
  slaveOffset : ℤ
  masterOffset : ℤ
  dataAge : ℤ
  random : ℕ
  randomName : NodeName
  picks : List NodeId

def deref (cs : ClusterState) (x : NodeId) : Except ClusterFault ClusterNode :=
  match cs.nodes x with
  | some n => .ok n
  | none => .error .freedNode

def setNode (cs : ClusterState) (x : NodeId) (n : ClusterNode) : ClusterState :=
  { cs with nodes := fun y => if y = x then some n else cs.nodes y }

def updateNode (cs : ClusterState) (x : NodeId) (f : ClusterNode → ClusterNode) :
    Except ClusterFault ClusterState := do
  let n ← deref cs x
  .ok (setNode cs x (f n))

def nodeIds (cs : ClusterState) : List NodeId :=
  (List.range cs.fresh).filter (fun x =>
    (cs.nodes x).any (fun n => decide (cs.table n.name = some x)))

def forSlots (f : ClusterState → Slot → Except ClusterFault ClusterState) (cs : ClusterState) :
    Except ClusterFault ClusterState :=
  (List.finRange 16384).foldlM f cs

def createClusterNode (name : NodeName) (flags : NodeFlags) (now : ℤ) : ClusterNode :=
  { name := name
    ctime := now
    flags := flags
    configEpoch := 0
    slots := fun _ => false
    numslots := 0
    slaves := []
    slaveof := none
    failTime := 0
    votedTime := 0
    replOffset := 0
    addr := ⟨[], 0, 0⟩
    link := false
    failReports := [] }

def clusterLookupNode (cs : ClusterState) (name : NodeName) : Option NodeId := cs.table name

/-- `clusterAddNode` of a node that was just created.  When its name is already in the table the
new node is not added, and nobody sees it again. -/
def clusterAddNode (cs : ClusterState) (n : ClusterNode) : ClusterState :=
  if (clusterLookupNode cs n.name).isSome then cs
  else { setNode cs cs.fresh n with
    table := Function.update cs.table n.name (some cs.fresh)
    fresh := cs.fresh+1 }

def ClusterNode.addFailureReport (n : ClusterNode) (sender : NodeId) (now : ℤ) : ClusterNode :=
  if n.failReports.any (fun r => r.node == sender) then
    { n with
      failReports := n.failReports.map (fun r => if r.node = sender then ⟨sender, now⟩ else r) }
  else { n with failReports := n.failReports ++ [⟨sender, now⟩] }

def ClusterNode.cleanupFailureReports (cfg : ClusterConfig) (now : ℤ) (n : ClusterNode) :
    ClusterNode :=
  { n with failReports := n.failReports.filter (fun r => decide (now-r.time ≤ cfg.nodeTimeout*2)) }

def ClusterNode.delFailureReport (cfg : ClusterConfig) (now : ℤ) (sender : NodeId)
    (n : ClusterNode) : ClusterNode :=
  if n.failReports.any (fun r => r.node == sender) then
    ({ n with failReports := n.failReports.eraseP (fun r => r.node == sender) }
      : ClusterNode).cleanupFailureReports cfg now
  else n

def clusterNodeRemoveSlave (cs : ClusterState) (master slave : NodeId) :
    Except ClusterFault ClusterState :=
  updateNode cs master (fun m =>
    if slave ∈ m.slaves then
      { m with
        slaves := m.slaves.erase slave
        flags := if (m.slaves.erase slave).isEmpty then { m.flags with migrateTo := false }
          else m.flags }
    else m)

def clusterNodeAddSlave (cs : ClusterState) (master slave : NodeId) :
    Except ClusterFault ClusterState :=
  updateNode cs master (fun m =>
    if slave ∈ m.slaves then m
    else { m with slaves := m.slaves ++ [slave], flags := { m.flags with migrateTo := true } })

def detachSlave (cs : ClusterState) (x : NodeId) : Except ClusterFault ClusterState := do
  let n ← deref cs x
  match n.slaveof with
  | none => .ok cs
  | some m => clusterNodeRemoveSlave cs m x

def clusterMastersHaveSlaves (cs : ClusterState) : Bool :=
  (nodeIds cs).any (fun x => (cs.nodes x).any (fun n => !n.flags.slave && !n.slaves.isEmpty))

def clusterNodeSetSlotBit (cs : ClusterState) (x : NodeId) (j : Slot) :
    Except ClusterFault ClusterState :=
  updateNode cs x (fun n =>
    if n.slots j then n
    else { n with
      slots := Function.update n.slots j true
      numslots := n.numslots+1
      flags := if n.numslots+1 = 1 ∧ clusterMastersHaveSlaves cs = true then
        { n.flags with migrateTo := true } else n.flags })

def clusterNodeClearSlotBit (cs : ClusterState) (x : NodeId) (j : Slot) :
    Except ClusterFault ClusterState :=
  updateNode cs x (fun n =>
    if n.slots j then
      { n with slots := Function.update n.slots j false, numslots := n.numslots-1 }
    else n)

/-- The new state, and whether the result is `C_OK`. -/
def clusterAddSlot (cs : ClusterState) (x : NodeId) (j : Slot) :
    Except ClusterFault (ClusterState × Bool) :=
  match cs.slots j with
  | some _ => .ok (cs, false)
  | none => do
    let cs ← clusterNodeSetSlotBit cs x j
    .ok ({ cs with slots := Function.update cs.slots j (some x) }, true)

def clusterDelSlot (cs : ClusterState) (j : Slot) : Except ClusterFault (ClusterState × Bool) :=
  match cs.slots j with
  | none => .ok (cs, false)
  | some x => do
    let n ← deref cs x
    if n.slots j then do
      let cs ← clusterNodeClearSlotBit cs x j
      .ok ({ cs with slots := Function.update cs.slots j none }, true)
    else .error .delSlotAssert

def rebindSlot (cs : ClusterState) (x : NodeId) (j : Slot) : Except ClusterFault ClusterState := do
  let r ← clusterDelSlot cs j
  let r ← clusterAddSlot r.1 x j
  .ok r.1

def clusterDelNodeSlots (cs : ClusterState) (x : NodeId) : Except ClusterFault ClusterState :=
  forSlots (fun cs j => do
    let n ← deref cs x
    if n.slots j then do
      let r ← clusterDelSlot cs j
      .ok r.1
    else .ok cs) cs

def clusterCloseAllSlots (cs : ClusterState) : ClusterState :=
  { cs with migratingSlotsTo := fun _ => none, importingSlotsFrom := fun _ => none }

def forgetMaster (cs : ClusterState) (slaves : List NodeId) : Except ClusterFault ClusterState :=
  slaves.foldlM (fun cs y => updateNode cs y (fun n => { n with slaveof := none })) cs

def freeClusterNode (cs : ClusterState) (x : NodeId) : Except ClusterFault ClusterState := do
  let n ← deref cs x
  let cs ← forgetMaster cs n.slaves
  let n ← deref cs x
  let cs ← (if n.flags.slave then detachSlave cs x else .ok cs)
  if (clusterLookupNode cs n.name).isSome then
    .ok { cs with
      table := Function.update cs.table n.name none
      nodes := fun y => if y = x then none else cs.nodes y }
  else .error .dictDeleteAssert

def releaseSlot (x : NodeId) (cs : ClusterState) (j : Slot) : Except ClusterFault ClusterState := do
  let cs := if cs.importingSlotsFrom j = some x then
    { cs with importingSlotsFrom := Function.update cs.importingSlotsFrom j none } else cs
  let cs := if cs.migratingSlotsTo j = some x then
    { cs with migratingSlotsTo := Function.update cs.migratingSlotsTo j none } else cs
  if cs.slots j = some x then do
    let r ← clusterDelSlot cs j
    .ok r.1
  else .ok cs

def delFailureReports (cfg : ClusterConfig) (env : Env) (cs : ClusterState) (x : NodeId) :
    ClusterState :=
  { cs with
    nodes := fun y =>
      if y ∈ nodeIds cs ∧ y ≠ x then (cs.nodes y).map (ClusterNode.delFailureReport cfg env.now x)
      else cs.nodes y }

def clusterDelNode (cfg : ClusterConfig) (env : Env) (cs : ClusterState) (delnode : NodeId) :
    Except ClusterFault ClusterState := do
  let cs ← forSlots (releaseSlot delnode) cs
  freeClusterNode (delFailureReports cfg env cs delnode) delnode

/-- A node that is renamed to a name in use is left out of the table, but not freed. -/
def clusterRenameNode (cs : ClusterState) (x : NodeId) (newname : NodeName) :
    Except ClusterFault ClusterState := do
  let n ← deref cs x
  if (clusterLookupNode cs n.name).isSome then do
    let cs := { cs with table := Function.update cs.table n.name none }
    let cs ← updateNode cs x (fun n => { n with name := newname })
    .ok (if (clusterLookupNode cs newname).isSome then cs
      else { cs with table := Function.update cs.table newname (some x) })
  else .error .dictDeleteAssert

/-- `uint64_t` epochs count up by one and are never set above 2^63, so they do not wrap. -/
def clusterGetMaxEpoch (cs : ClusterState) : ℕ :=
  (nodeIds cs).foldl (fun m x => max m ((cs.nodes x).elim 0 ClusterNode.configEpoch))
    cs.currentEpoch

def clusterBumpConfigEpochWithoutConsensus (cs : ClusterState) :
    Except ClusterFault (ClusterState × Bool) := do
  let me ← deref cs cs.myself
  if me.configEpoch = 0 ∨ me.configEpoch ≠ clusterGetMaxEpoch cs then do
    let cs := { cs with currentEpoch := cs.currentEpoch+1 }
    let cs ← updateNode cs cs.myself (fun n => { n with configEpoch := cs.currentEpoch })
    .ok (cs, true)
  else .ok (cs, false)

def clusterHandleConfigEpochCollision (cs : ClusterState) (sender : NodeId) :
    Except ClusterFault ClusterState := do
  let s ← deref cs sender
  let me ← deref cs cs.myself
  if s.configEpoch ≠ me.configEpoch ∨ s.flags.master = false ∨ me.flags.master = false then .ok cs
  else if s.name ≤ me.name then .ok cs
  else
    let cs := { cs with currentEpoch := cs.currentEpoch+1 }
    updateNode cs cs.myself (fun n => { n with configEpoch := cs.currentEpoch })

def clusterBlacklistCleanup (env : Env) (cs : ClusterState) : ClusterState :=
  { cs with blackList := fun name => (cs.blackList name).filter (fun e => decide (env.unixtime ≤ e)) }

def clusterBlacklistAddNode (env : Env) (cs : ClusterState) (n : ClusterNode) : ClusterState :=
  let cs := clusterBlacklistCleanup env cs
  { cs with blackList := Function.update cs.blackList n.name (some (env.unixtime+60)) }

def clusterSetNodeAsMaster (cs : ClusterState) (x : NodeId) : Except ClusterFault ClusterState := do
  let n ← deref cs x
  if n.flags.master then .ok cs
  else do
    let cs ← detachSlave cs x
    updateNode cs x (fun m =>
      { m with
        flags := { m.flags with
          slave := false
          master := true
          migrateTo := m.flags.migrateTo || (n.slaveof.isSome && decide (x ≠ cs.myself)) }
        slaveof := none })

def resetManualFailover (cs : ClusterState) : ClusterState :=
  { cs with mfEnd := 0, mfCanStart := false, mfSlave := none, mfMasterOffset := 0 }

def leaveRole (cs : ClusterState) : Except ClusterFault ClusterState := do
  let me ← deref cs cs.myself
  if me.flags.master then do
    let cs ← updateNode cs cs.myself (fun n =>
      { n with flags := { n.flags with master := false, migrateTo := false, slave := true } })
    .ok (clusterCloseAllSlots cs)
  else detachSlave cs cs.myself

def clusterSetMaster (cs : ClusterState) (n : NodeId) : Except ClusterFault ClusterState := do
  if n = cs.myself then .error .setMasterMyselfAssert
  else do
    let me ← deref cs cs.myself
    if me.numslots ≠ 0 then .error .setMasterSlotsAssert
    else do
      let cs ← leaveRole cs
      let cs ← updateNode cs cs.myself (fun m => { m with slaveof := some n })
      let cs ← clusterNodeAddSlave cs n cs.myself
      .ok (resetManualFailover cs)

def yieldsSlot (cs : ClusterState) (j : Slot) (epoch : ℕ) : Except ClusterFault Bool :=
  match cs.slots j with
  | none => .ok true
  | some x => do
    let n ← deref cs x
    .ok (decide (n.configEpoch < epoch))

def claimSlot (curmaster : Option NodeId) (sender : NodeId) (epoch : ℕ) (slots : Slot → Bool)
    (r : ClusterState × Bool) (j : Slot) : Except ClusterFault (ClusterState × Bool) :=
  if slots j = false ∨ r.1.slots j = some sender ∨ (r.1.importingSlotsFrom j).isSome then .ok r
  else do
    if ← yieldsSlot r.1 j epoch then do
      let cs ← rebindSlot r.1 sender j
      .ok (cs, r.2 || decide (r.1.slots j = curmaster))
    else .ok r

/-- The end of `clusterUpdateSlotsConfigWith`, which follows a master that took our last slot.
The keys of slots that were lost without that are deleted from the data set. -/
def followNewMaster (cfg : ClusterConfig) (curmaster : Option NodeId) (sender : NodeId)
    (r : ClusterState × Bool) : Except ClusterFault ClusterState :=
  if cfg.moduleNoRedirection then .ok r.1
  else if r.2 then
    match curmaster with
    | none => .error .nullPointer
    | some c => do
      let n ← deref r.1 c
      if n.numslots = 0 then clusterSetMaster r.1 sender else .ok r.1
  else .ok r.1

def clusterUpdateSlotsConfigWith (cfg : ClusterConfig) (cs : ClusterState) (sender : NodeId)
    (senderConfigEpoch : ℕ) (slots : Slot → Bool) : Except ClusterFault ClusterState := do
  let me ← deref cs cs.myself
  let curmaster := if me.flags.master then some cs.myself else me.slaveof
  if sender = cs.myself then .ok cs
  else do
    let r ← (List.finRange 16384).foldlM
      (claimSlot curmaster sender senderConfigEpoch slots) (cs, false)
    followNewMaster cfg curmaster sender r

end RedisCore.Cluster
