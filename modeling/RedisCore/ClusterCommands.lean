import RedisCore.ClusterPackets

namespace RedisCore.Cluster

inductive FailoverMode where
  | graceful
  | force
  | takeover
deriving DecidableEq, Repr

inductive ClusterCommand where
  | meet (ip : Option Bytes) (port cport : ℤ)
  | flushslots
  | addslots (slots : List Slot)
  | delslots (slots : List Slot)
  | setslotMigrating (slot : Slot) (name : NodeName)
  | setslotImporting (slot : Slot) (name : NodeName)
  | setslotStable (slot : Slot)
  | setslotNode (slot : Slot) (name : NodeName)
  | bumpepoch
  | forget (name : NodeName)
  | replicate (name : NodeName)
  | failover (mode : FailoverMode)
  | setConfigEpoch (epoch : ℤ)

inductive ClusterReply where
  | ok
  | bumped (epoch : ℕ)
  | still (epoch : ℕ)
  | invalidNodeAddress
  | dbMustBeEmpty
  | slotAlreadyUnassigned (slot : Slot)
  | slotAlreadyBusy (slot : Slot)
  | slotSpecifiedMultipleTimes (slot : Slot)
  | setslotOnlyWithMasters
  | notTheOwner (slot : Slot)
  | alreadyTheOwner (slot : Slot)
  | unknownNode (name : NodeName)
  | stillHoldsKeys (slot : Slot)
  | cannotForgetMyself
  | cannotForgetMyMaster
  | cannotReplicateMyself
  | onlyReplicateMaster
  | masterNotEmpty
  | failoverNeedsReplica
  | masterUnknown
  | masterIsDown
  | invalidConfigEpoch (epoch : ℤ)
  | knowsOtherNodes
  | configEpochAlreadySet
deriving DecidableEq, Repr

def clusterHandshakeInProgress (cs : ClusterState) (addr : NodeAddr) : Bool :=
  (nodeIds cs).any (fun x => (cs.nodes x).any (fun n => n.flags.handshake && n.addr.same addr))

def clusterStartHandshake (env : Env) (cs : ClusterState) (ip : Option Bytes) (port cport : ℤ) :
    ClusterState × ClusterReply :=
  match ip with
  | none => (cs, .invalidNodeAddress)
  | some ip =>
    if port ≤ 0 ∨ 65535 < port ∨ cport ≤ 0 ∨ 65535 < cport then (cs, .invalidNodeAddress)
    else
      let addr : NodeAddr := ⟨ip, port.toNat, cport.toNat⟩
      if clusterHandshakeInProgress cs addr then (cs, .ok)
      else (clusterAddNode cs
        { createClusterNode env.randomName { noFlags with handshake := true, meet := true } env.now with
          addr := addr }, .ok)

def checkSlots (cs : ClusterState) (del : Bool) : List Slot → List Slot → Option ClusterReply
  | [], _ => none
  | j :: js, seen =>
    if del = true ∧ cs.slots j = none then some (.slotAlreadyUnassigned j)
    else if del = false ∧ (cs.slots j).isSome = true then some (.slotAlreadyBusy j)
    else if j ∈ seen then some (.slotSpecifiedMultipleTimes j)
    else checkSlots cs del js (j :: seen)

def changeSlot (del : Bool) (js : List Slot) (cs : ClusterState) (j : Slot) :
    Except ClusterFault ClusterState :=
  if j ∈ js then do
    let cs := { cs with importingSlotsFrom := Function.update cs.importingSlotsFrom j none }
    let r ← (if del then clusterDelSlot cs j else clusterAddSlot cs cs.myself j)
    if r.2 then .ok r.1 else .error .slotsCommandAssert
  else .ok cs

def changeSlots (cs : ClusterState) (del : Bool) (js : List Slot) :
    Except ClusterFault (ClusterState × ClusterReply) :=
  match checkSlots cs del js [] with
  | some reply => .ok (cs, reply)
  | none => do
    let cs ← forSlots (changeSlot del js) cs
    .ok (cs, .ok)

/-- SETSLOT NODE with the node looked up: a slot of ours that still has keys is kept, and closing
an import makes a new epoch. -/
def setslotNode (env : Env) (cs : ClusterState) (slot : Slot) (x : NodeId) :
    Except ClusterFault (ClusterState × ClusterReply) :=
  if cs.slots slot = some cs.myself ∧ x ≠ cs.myself ∧ env.keysInSlot slot ≠ 0 then
    .ok (cs, .stillHoldsKeys slot)
  else do
    let cs := if env.keysInSlot slot = 0 ∧ (cs.migratingSlotsTo slot).isSome = true then
      { cs with migratingSlotsTo := Function.update cs.migratingSlotsTo slot none } else cs
    let cs ← (if x = cs.myself ∧ (cs.importingSlotsFrom slot).isSome = true then do
        let r ← clusterBumpConfigEpochWithoutConsensus cs
        .ok { r.1 with importingSlotsFrom := Function.update r.1.importingSlotsFrom slot none }
      else .ok cs)
    let cs ← rebindSlot cs x slot
    .ok (cs, .ok)

def setslot (env : Env) (cs : ClusterState) :
    ClusterCommand → Except ClusterFault (ClusterState × ClusterReply)
  | .setslotMigrating slot name =>
    if cs.slots slot ≠ some cs.myself then .ok (cs, .notTheOwner slot)
    else
      match clusterLookupNode cs name with
      | none => .ok (cs, .unknownNode name)
      | some x =>
        .ok ({ cs with migratingSlotsTo := Function.update cs.migratingSlotsTo slot (some x) }, .ok)
  | .setslotImporting slot name =>
    if cs.slots slot = some cs.myself then .ok (cs, .alreadyTheOwner slot)
    else
      match clusterLookupNode cs name with
      | none => .ok (cs, .unknownNode name)
      | some x =>
        .ok ({ cs with importingSlotsFrom := Function.update cs.importingSlotsFrom slot (some x) }, .ok)
  | .setslotStable slot =>
    .ok ({ cs with
      importingSlotsFrom := Function.update cs.importingSlotsFrom slot none
      migratingSlotsTo := Function.update cs.migratingSlotsTo slot none }, .ok)
  | .setslotNode slot name =>
    match clusterLookupNode cs name with
    | none => .ok (cs, .unknownNode name)
    | some x => setslotNode env cs slot x
  | _ => .ok (cs, .ok)

def setslotCommand (env : Env) (cs : ClusterState) (cmd : ClusterCommand) :
    Except ClusterFault (ClusterState × ClusterReply) := do
  let me ← deref cs cs.myself
  if me.flags.slave then .ok (cs, .setslotOnlyWithMasters) else setslot env cs cmd

def forgetCommand (cfg : ClusterConfig) (env : Env) (cs : ClusterState) (name : NodeName) :
    Except ClusterFault (ClusterState × ClusterReply) :=
  match clusterLookupNode cs name with
  | none => .ok (cs, .unknownNode name)
  | some x => do
    let me ← deref cs cs.myself
    if x = cs.myself then .ok (cs, .cannotForgetMyself)
    else if me.flags.slave = true ∧ me.slaveof = some x then .ok (cs, .cannotForgetMyMaster)
    else do
      let n ← deref cs x
      let cs ← clusterDelNode cfg env (clusterBlacklistAddNode env cs n) x
      .ok (cs, .ok)

def replicateCommand (env : Env) (cs : ClusterState) (name : NodeName) :
    Except ClusterFault (ClusterState × ClusterReply) :=
  match clusterLookupNode cs name with
  | none => .ok (cs, .unknownNode name)
  | some x => do
    if x = cs.myself then .ok (cs, .cannotReplicateMyself)
    else do
      let n ← deref cs x
      let me ← deref cs cs.myself
      if n.flags.slave then .ok (cs, .onlyReplicateMaster)
      else if me.flags.master = true ∧ (me.numslots ≠ 0 ∨ env.dbSize ≠ 0) then
        .ok (cs, .masterNotEmpty)
      else do
        let cs ← clusterSetMaster cs x
        .ok (cs, .ok)

def clusterSendMFStart (cfg : ClusterConfig) (env : Env) (cs : ClusterState) (m : NodeId) :
    Except ClusterFault ClusterState := do
  let n ← deref cs m
  if n.link then do
    let hdr ← clusterBuildMessageHdr cfg env cs .mfstart
    .ok (clusterSendMessage cs n.name hdr)
  else .ok cs

def startFailover (cfg : ClusterConfig) (env : Env) (cs : ClusterState) (m : NodeId)
    (mode : FailoverMode) : Except ClusterFault ClusterState :=
  let cs := { resetManualFailover cs with mfEnd := env.now+5000 }
  match mode with
  | .takeover => do
    let r ← clusterBumpConfigEpochWithoutConsensus cs
    clusterFailoverReplaceYourMaster cfg env r.1
  | .force => .ok { cs with mfCanStart := true }
  | .graceful => clusterSendMFStart cfg env cs m

def failoverCommand (cfg : ClusterConfig) (env : Env) (cs : ClusterState) (mode : FailoverMode) :
    Except ClusterFault (ClusterState × ClusterReply) := do
  let me ← deref cs cs.myself
  if me.flags.master then .ok (cs, .failoverNeedsReplica)
  else
    match me.slaveof with
    | none => .ok (cs, .masterUnknown)
    | some m => do
      let master ← deref cs m
      if mode = .graceful ∧ (master.flags.fail || !master.link) = true then .ok (cs, .masterIsDown)
      else do
        let cs ← startFailover cfg env cs m mode
        .ok (cs, .ok)

def setConfigEpochCommand (cs : ClusterState) (epoch : ℤ) :
    Except ClusterFault (ClusterState × ClusterReply) := do
  let me ← deref cs cs.myself
  if epoch < 0 then .ok (cs, .invalidConfigEpoch epoch)
  else if 1 < (nodeIds cs).length then .ok (cs, .knowsOtherNodes)
  else if me.configEpoch ≠ 0 then .ok (cs, .configEpochAlreadySet)
  else do
    let cs ← updateNode cs cs.myself (fun n => { n with configEpoch := epoch.toNat })
    .ok ({ cs with currentEpoch := max cs.currentEpoch epoch.toNat }, .ok)

def bumpepochCommand (cs : ClusterState) : Except ClusterFault (ClusterState × ClusterReply) := do
  let r ← clusterBumpConfigEpochWithoutConsensus cs
  let me ← deref r.1 r.1.myself
  .ok (r.1, if r.2 then .bumped me.configEpoch else .still me.configEpoch)

def clusterCommand (cfg : ClusterConfig) (env : Env) (cs : ClusterState) :
    ClusterCommand → Except ClusterFault (ClusterState × ClusterReply)
  | .meet ip port cport => .ok (clusterStartHandshake env cs ip port cport)
  | .flushslots =>
    if env.dbSize ≠ 0 then .ok (cs, .dbMustBeEmpty)
    else do
      let cs ← clusterDelNodeSlots cs cs.myself
      .ok (cs, .ok)
  | .addslots js => changeSlots cs false js
  | .delslots js => changeSlots cs true js
  | .bumpepoch => bumpepochCommand cs
  | .forget name => forgetCommand cfg env cs name
  | .replicate name => replicateCommand env cs name
  | .failover mode => failoverCommand cfg env cs mode
  | .setConfigEpoch epoch => setConfigEpochCommand cs epoch
  | cmd => setslotCommand env cs cmd

def expireHandshake (cfg : ClusterConfig) (env : Env) (cs : ClusterState) (x : NodeId) :
    Except ClusterFault ClusterState :=
  match cs.nodes x with
  | none => .ok cs
  | some n =>
    if n.flags.myself || n.flags.noaddr then .ok cs
    else if n.flags.handshake = true ∧ max cfg.nodeTimeout 1000 < env.now-n.ctime then
      clusterDelNode cfg env cs x
    else .ok cs

def expireHandshakes (cfg : ClusterConfig) (env : Env) (cs : ClusterState) :
    Except ClusterFault ClusterState :=
  (nodeIds cs).foldlM (expireHandshake cfg env) cs

def clusterLinkConnectHandler (cfg : ClusterConfig) (env : Env) (cs : ClusterState) (x : NodeId) :
    Except ClusterFault ClusterState :=
  match cs.nodes x with
  | none => .ok cs
  | some n =>
    if n.flags.myself || n.flags.noaddr || n.link then .ok cs
    else do
      let cs ← updateNode cs x (fun n => { n with link := true })
      let cs ← clusterSendPing cfg env cs n.name (if n.flags.meet then .meet else .ping)
      updateNode cs x (fun n => { n with flags := { n.flags with meet := false } })

def handleLinkIOError (cs : ClusterState) (x : NodeId) : Except ClusterFault ClusterState :=
  match cs.nodes x with
  | none => .ok cs
  | some _ => updateNode cs x (fun n => { n with link := false })

def pingNode (cfg : ClusterConfig) (env : Env) (cs : ClusterState) (x : NodeId) :
    Except ClusterFault ClusterState :=
  match cs.nodes x with
  | none => .ok cs
  | some n =>
    if n.link && !n.flags.myself && !n.flags.handshake then clusterSendPing cfg env cs n.name .ping
    else .ok cs

def suspectNode (cs : ClusterState) (x : NodeId) : Except ClusterFault ClusterState :=
  match cs.nodes x with
  | none => .ok cs
  | some n =>
    if n.flags.myself || n.flags.noaddr || n.flags.handshake || n.flags.pfail || n.flags.fail then
      .ok cs
    else updateNode cs x (fun n => { n with flags := { n.flags with pfail := true } })

def manualFailoverCheckTimeout (env : Env) (cs : ClusterState) : ClusterState :=
  if cs.mfEnd ≠ 0 ∧ cs.mfEnd < env.now then resetManualFailover cs else cs

def clusterHandleManualFailover (env : Env) (cs : ClusterState) : ClusterState :=
  if cs.mfEnd = 0 ∨ cs.mfCanStart = true ∨ cs.mfMasterOffset = 0 then cs
  else if cs.mfMasterOffset = env.slaveOffset then { cs with mfCanStart := true }
  else cs

def cronFailover (cfg : ClusterConfig) (env : Env) (cs : ClusterState) :
    Except ClusterFault (ClusterState × Bool) := do
  let cs := manualFailoverCheckTimeout env cs
  let me ← deref cs cs.myself
  if me.flags.slave then
    if cfg.moduleNoFailover then .ok (clusterHandleManualFailover env cs, false)
    else clusterHandleSlaveFailover cfg env (clusterHandleManualFailover env cs)
  else .ok (cs, false)

def workingSlaves (cs : ClusterState) (n : ClusterNode) (timedOut : Bool) : ℕ :=
  (n.slaves.filter (fun y => (cs.nodes y).any (fun s =>
    !s.flags.fail && !(timedOut && s.flags.pfail)))).length

/-- `clusterHandleSlaveMigration` to the orphaned master `target`. -/
def clusterHandleSlaveMigration (cfg : ClusterConfig) (cs : ClusterState) (target : NodeId) :
    Except ClusterFault ClusterState := do
  let me ← deref cs cs.myself
  match me.slaveof, cs.nodes target with
  | some m, some n => do
    let mymaster ← deref cs m
    if me.flags.slave = true ∧ cs.state = .ok ∧
        cfg.migrationBarrier < workingSlaves cs mymaster true ∧ n.flags.slave = false ∧
        n.flags.fail = false ∧ n.flags.migrateTo = true ∧
        (n.flags.master = true → workingSlaves cs n false = 0) ∧ 0 < n.numslots ∧
        cfg.moduleNoFailover = false then
      clusterSetMaster cs target
    else .ok cs
  | _, _ => .ok cs

def clusterUpdateMyselfFlags (cfg : ClusterConfig) (cs : ClusterState) :
    Except ClusterFault ClusterState :=
  updateNode cs cs.myself (fun n =>
    { n with flags := { n.flags with nofailover := cfg.slaveNoFailover } })

def verifySlot (env : Env) (cs : ClusterState) (j : Slot) : Except ClusterFault ClusterState :=
  if env.keysInSlot j = 0 ∨ cs.slots j = some cs.myself ∨ (cs.importingSlotsFrom j).isSome = true then
    .ok cs
  else
    match cs.slots j with
    | none => do
      let r ← clusterAddSlot cs cs.myself j
      .ok r.1
    | some x =>
      .ok { cs with importingSlotsFrom := Function.update cs.importingSlotsFrom j (some x) }

def verifyClusterConfigWithData (cfg : ClusterConfig) (env : Env) (cs : ClusterState) :
    Except ClusterFault ClusterState := do
  let me ← deref cs cs.myself
  if cfg.moduleNoRedirection || me.flags.slave then .ok cs else forSlots (verifySlot env) cs

structure NodeLine where
  name : NodeName
  addr : NodeAddr
  flags : NodeFlags
  slaveof : Option NodeName
  configEpoch : ℕ
  slots : Slot → Bool
  migrating : Slot → Option NodeName
  importing : Slot → Option NodeName

structure NodesConf where
  lines : List NodeLine
  currentEpoch : ℕ
  lastVoteEpoch : ℕ

def nameOf (cs : ClusterState) (x : NodeId) : Option NodeName := (cs.nodes x).map ClusterNode.name

/-- A slave is written with the config epoch of its master, and only the node itself with the slots
it is migrating or importing. -/
def clusterGenNodeDescription (cs : ClusterState) (n : ClusterNode) : NodeLine :=
  let master := if n.flags.slave then n.slaveof.bind cs.nodes else none
  { name := n.name
    addr := n.addr
    flags := { n.flags with meet := false, migrateTo := false }
    slaveof := n.slaveof.bind (nameOf cs)
    configEpoch := master.elim n.configEpoch ClusterNode.configEpoch
    slots := n.slots
    migrating := fun j => if n.flags.myself then (cs.migratingSlotsTo j).bind (nameOf cs) else none
    importing := fun j => if n.flags.myself ∧ cs.migratingSlotsTo j = none then
      (cs.importingSlotsFrom j).bind (nameOf cs) else none }

def clusterSaveConfig (cs : ClusterState) : NodesConf :=
  { lines := (nodeIds cs).filterMap (fun x => (cs.nodes x).bind (fun n =>
      if n.flags.handshake then none else some (clusterGenNodeDescription cs n)))
    currentEpoch := cs.currentEpoch
    lastVoteEpoch := cs.lastVoteEpoch }

structure LoadState where
  cs : ClusterState
  myself : Option NodeId

def lookupOrCreate (env : Env) (cs : ClusterState) (name : NodeName) : ClusterState × NodeId :=
  match clusterLookupNode cs name with
  | some x => (cs, x)
  | none => (clusterAddNode cs (createClusterNode name noFlags env.now), cs.fresh)

def NodeFlags.or (a b : NodeFlags) : NodeFlags :=
  { master := a.master || b.master
    slave := a.slave || b.slave
    pfail := a.pfail || b.pfail
    fail := a.fail || b.fail
    myself := a.myself || b.myself
    handshake := a.handshake || b.handshake
    noaddr := a.noaddr || b.noaddr
    meet := a.meet || b.meet
    migrateTo := a.migrateTo || b.migrateTo
    nofailover := a.nofailover || b.nofailover }

def loadSlot (env : Env) (line : NodeLine) (x : NodeId) (cs : ClusterState) (j : Slot) :
    Except ClusterFault ClusterState := do
  let cs := match line.migrating j with
    | none => cs
    | some name =>
      let r := lookupOrCreate env cs name
      { r.1 with migratingSlotsTo := Function.update r.1.migratingSlotsTo j (some r.2) }
  let cs := match line.importing j with
    | none => cs
    | some name =>
      let r := lookupOrCreate env cs name
      { r.1 with importingSlotsFrom := Function.update r.1.importingSlotsFrom j (some r.2) }
  if line.slots j then do
    let r ← clusterAddSlot cs x j
    .ok r.1
  else .ok cs

def loadMaster (env : Env) (cs : ClusterState) (x : NodeId) (slaveof : Option NodeName) :
    Except ClusterFault ClusterState :=
  match slaveof with
  | none => .ok cs
  | some name => do
    let r := lookupOrCreate env cs name
    let cs ← updateNode r.1 x (fun n => { n with slaveof := some r.2 })
    clusterNodeAddSlave cs r.2 x

def loadLine (env : Env) (st : LoadState) (line : NodeLine) : Except ClusterFault LoadState := do
  let r := lookupOrCreate env st.cs line.name
  if line.flags.myself = true ∧ st.myself.isSome = true then .error .badConfig
  else do
    let cs ← updateNode r.1 r.2 (fun n =>
      { n with
        addr := line.addr
        flags := n.flags.or { line.flags with meet := false, migrateTo := false }
        failTime := if line.flags.fail then env.now else n.failTime })
    let cs ← loadMaster env cs r.2 line.slaveof
    let cs ← updateNode cs r.2 (fun n => { n with configEpoch := line.configEpoch })
    let cs ← forSlots (loadSlot env line r.2) cs
    .ok ⟨cs, if line.flags.myself then some r.2 else st.myself⟩

def emptyCluster : ClusterState :=
  { nodes := fun _ => none
    table := fun _ => none
    fresh := 0
    myself := 0
    currentEpoch := 0
    lastVoteEpoch := 0
    state := .fail
    size := 1
    blackList := fun _ => none
    migratingSlotsTo := fun _ => none
    importingSlotsFrom := fun _ => none
    slots := fun _ => none
    failoverAuthTime := 0
    failoverAuthCount := 0
    failoverAuthSent := false
    failoverAuthRank := 0
    failoverAuthEpoch := 0
    mfEnd := 0
    mfSlave := none
    mfMasterOffset := 0
    mfCanStart := false
    amongMinorityTime := 0
    firstCallTime := 0
    out := [] }

def clusterLoadConfig (env : Env) (conf : NodesConf) : Except ClusterFault ClusterState := do
  let st ← conf.lines.foldlM (loadLine env) ⟨emptyCluster, none⟩
  match st.myself with
  | none => .error .badConfig
  | some x =>
    let cs :=
      { st.cs with
        myself := x
        currentEpoch := conf.currentEpoch
        lastVoteEpoch := conf.lastVoteEpoch }
    .ok { cs with currentEpoch := clusterGetMaxEpoch cs }

/-- Without a file the node starts as a master that knows only itself. -/
def clusterInit (cfg : ClusterConfig) (env : Env) (conf : Option NodesConf) :
    Except ClusterFault ClusterState := do
  let cs ← (match conf with
    | none => .ok (clusterAddNode emptyCluster
        (createClusterNode env.randomName { noFlags with myself := true, master := true } env.now))
    | some conf => clusterLoadConfig env conf)
  clusterUpdateMyselfFlags cfg cs

inductive ClusterEvent where
  | packet (link : Option NodeId) (hdr : ClusterMsg)
  | command (cmd : ClusterCommand)
  | handshakeTimeouts
  | linkConnected (x : NodeId)
  | linkLost (x : NodeId)
  | sendPing (x : NodeId)
  | suspect (x : NodeId)
  | slaveFailover
  | cron
  | slaveMigration (target : NodeId)
  | updateState
  | updateMyselfFlags
  | verifyConfig

def linkAlive (cs : ClusterState) (link : Option NodeId) : Bool :=
  link.all (fun l => (cs.nodes l).any ClusterNode.link)

def stepEvent (cfg : ClusterConfig) (env : Env) (cs : ClusterState) :
    ClusterEvent → Except ClusterFault ClusterState
  | .packet link hdr =>
    if linkAlive cs link then clusterProcessPacket cfg env cs link hdr else .ok cs
  | .command cmd => do
    let r ← clusterCommand cfg env cs cmd
    .ok r.1
  | .handshakeTimeouts => expireHandshakes cfg env cs
  | .linkConnected x => clusterLinkConnectHandler cfg env cs x
  | .linkLost x => handleLinkIOError cs x
  | .sendPing x => pingNode cfg env cs x
  | .suspect x => suspectNode cs x
  | .slaveFailover => do
    let r ← clusterHandleSlaveFailover cfg env cs
    .ok r.1
  | .cron => do
    let r ← cronFailover cfg env cs
    .ok r.1
  | .slaveMigration target => clusterHandleSlaveMigration cfg cs target
  | .updateState => clusterUpdateState cfg env cs
  | .updateMyselfFlags => clusterUpdateMyselfFlags cfg cs
  | .verifyConfig => verifyClusterConfigWithData cfg env cs

def runEvents (cfg : ClusterConfig) (cs : ClusterState) :
    List (Env × ClusterEvent) → Except ClusterFault ClusterState
  | [] => .ok cs
  | e :: es => do
    let cs ← stepEvent cfg e.1 cs e.2
    runEvents cfg cs es

end RedisCore.Cluster
