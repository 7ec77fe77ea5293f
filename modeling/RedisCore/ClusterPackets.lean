import RedisCore.ClusterModel

namespace RedisCore.Cluster

def clusterSendMessage (cs : ClusterState) (dest : NodeName) (msg : ClusterMsg) : ClusterState :=
  { cs with out := cs.out ++ [(dest, msg)] }

def headerMaster (cs : ClusterState) (me : ClusterNode) : Except ClusterFault ClusterNode :=
  if me.flags.slave then
    match me.slaveof with
    | none => .ok me
    | some m => deref cs m
  else .ok me

def slaveofName (cs : ClusterState) (me : ClusterNode) : Except ClusterFault NodeName :=
  match me.slaveof with
  | none => .ok nullName
  | some m => do
    let n ← deref cs m
    .ok n.name

def clusterBuildMessageHdr (cfg : ClusterConfig) (env : Env) (cs : ClusterState) (body : MsgBody) :
    Except ClusterFault ClusterMsg := do
  let me ← deref cs cs.myself
  let master ← headerMaster cs me
  let slaveof ← slaveofName cs me
  .ok
    { sender := me.name
      currentEpoch := cs.currentEpoch
      configEpoch := master.configEpoch
      offset := if me.flags.slave then env.slaveOffset else env.masterOffset
      myslots := master.slots
      slaveof := slaveof
      addr := cfg.announce
      flags := me.flags
      paused := me.flags.master && decide (cs.mfEnd ≠ 0)
      forceack := false
      body := body }

/-- The nodes `clusterSendPing` may gossip about: not itself, none in handshake or without address,
and no disconnected node without slots unless it is in PFAIL state. -/
def gossips (cs : ClusterState) (x : NodeId) (n : ClusterNode) : Bool :=
  !n.flags.handshake && !n.flags.noaddr &&
    (n.flags.pfail || (decide (x ≠ cs.myself) && (n.link || decide (n.numslots ≠ 0))))

def gossipSection (cs : ClusterState) (picks : List NodeId) : List GossipEntry :=
  picks.filterMap (fun x => (cs.nodes x).bind (fun n =>
    if gossips cs x n then some ⟨n.name, n.addr, n.flags⟩ else none))

def clusterSendPing (cfg : ClusterConfig) (env : Env) (cs : ClusterState) (dest : NodeName)
    (kind : List GossipEntry → MsgBody) : Except ClusterFault ClusterState := do
  let hdr ← clusterBuildMessageHdr cfg env cs (kind (gossipSection cs env.picks))
  .ok (clusterSendMessage cs dest hdr)

def broadcastTargets (cs : ClusterState) : List NodeName :=
  (nodeIds cs).filterMap (fun x => (cs.nodes x).bind (fun n =>
    if n.link && !n.flags.myself && !n.flags.handshake then some n.name else none))

def clusterBroadcastMessage (cs : ClusterState) (msg : ClusterMsg) : ClusterState :=
  { cs with out := cs.out ++ (broadcastTargets cs).map (fun name => (name, msg)) }

def clusterSendFail (cfg : ClusterConfig) (env : Env) (cs : ClusterState) (name : NodeName) :
    Except ClusterFault ClusterState := do
  let hdr ← clusterBuildMessageHdr cfg env cs (.fail name)
  .ok (clusterBroadcastMessage cs hdr)

def clusterSendUpdate (cfg : ClusterConfig) (env : Env) (cs : ClusterState) (x owner : NodeId) :
    Except ClusterFault ClusterState := do
  let n ← deref cs x
  if n.link then do
    let o ← deref cs owner
    let hdr ← clusterBuildMessageHdr cfg env cs (.update o.name o.configEpoch o.slots)
    .ok (clusterSendMessage cs n.name hdr)
  else .ok cs

def clusterBroadcastPong (cfg : ClusterConfig) (env : Env) (cs : ClusterState) (localSlaves : Bool) :
    Except ClusterFault ClusterState := do
  let me ← deref cs cs.myself
  let hdr ← clusterBuildMessageHdr cfg env cs (.pong (gossipSection cs env.picks))
  let targets := (nodeIds cs).filterMap (fun x => (cs.nodes x).bind (fun n =>
    if n.link && decide (x ≠ cs.myself) && !n.flags.handshake &&
      (!localSlaves || (n.flags.slave && n.slaveof.isSome &&
        (decide (n.slaveof = some cs.myself) || decide (n.slaveof = me.slaveof))))
    then some n.name else none))
  .ok { cs with out := cs.out ++ targets.map (fun name => (name, hdr)) }

def markNodeAsFailingIfNeeded (cfg : ClusterConfig) (env : Env) (cs : ClusterState) (x : NodeId) :
    Except ClusterFault ClusterState := do
  let n ← deref cs x
  if n.flags.pfail = false ∨ n.flags.fail = true then .ok cs
  else do
    let cs ← updateNode cs x (ClusterNode.cleanupFailureReports cfg env.now)
    let n ← deref cs x
    let me ← deref cs cs.myself
    if n.failReports.length+(if me.flags.master then 1 else 0) < cs.size/2+1 then .ok cs
    else do
      let cs ← updateNode cs x (fun n =>
        { n with flags := { n.flags with pfail := false, fail := true }, failTime := env.now })
      clusterSendFail cfg env cs n.name

def clearNodeFailureIfNeeded (cfg : ClusterConfig) (env : Env) (cs : ClusterState) (x : NodeId) :
    Except ClusterFault ClusterState := do
  let n ← deref cs x
  if n.flags.fail = false then .error .nodeFailedAssert
  else if (n.flags.slave = true ∨ n.numslots = 0) ∨
      (n.flags.master = true ∧ 0 < n.numslots ∧ env.now-n.failTime > cfg.nodeTimeout*2) then
    updateNode cs x (fun n => { n with flags := { n.flags with fail := false } })
  else .ok cs

def noteHealth (cfg : ClusterConfig) (env : Env) (sender : Option NodeId) (cs : ClusterState)
    (x : NodeId) (flags : NodeFlags) : Except ClusterFault ClusterState :=
  match sender with
  | none => .ok cs
  | some s => do
    let n ← deref cs s
    if n.flags.master = false ∨ x = cs.myself then .ok cs
    else if flags.fail || flags.pfail then do
      let cs ← updateNode cs x (fun n => n.addFailureReport s env.now)
      markNodeAsFailingIfNeeded cfg env cs x
    else updateNode cs x (ClusterNode.delFailureReport cfg env.now s)

def noteAddress (cs : ClusterState) (x : NodeId) (g : GossipEntry) :
    Except ClusterFault ClusterState := do
  let n ← deref cs x
  if (n.flags.fail || n.flags.pfail) && !g.flags.noaddr && !(g.flags.fail || g.flags.pfail) &&
      !n.addr.same g.addr then
    updateNode cs x (fun n =>
      { n with addr := g.addr, link := false, flags := { n.flags with noaddr := false } })
  else .ok cs

def processGossipEntry (cfg : ClusterConfig) (env : Env) (sender : Option NodeId)
    (cs : ClusterState) (g : GossipEntry) : Except ClusterFault ClusterState :=
  match clusterLookupNode cs g.nodename with
  | some x => do
    let cs ← noteHealth cfg env sender cs x g.flags
    noteAddress cs x g
  | none =>
    if sender.isSome && !g.flags.noaddr then
      let cs := clusterBlacklistCleanup env cs
      if (cs.blackList g.nodename).isSome then .ok cs
      else .ok (clusterAddNode cs
        { createClusterNode g.nodename g.flags env.now with addr := g.addr })
    else .ok cs

def clusterProcessGossipSection (cfg : ClusterConfig) (env : Env) (cs : ClusterState)
    (link : Option NodeId) (hdr : ClusterMsg) (gossip : List GossipEntry) :
    Except ClusterFault ClusterState :=
  let sender := match link with
    | some l => some l
    | none => clusterLookupNode cs hdr.sender
  gossip.foldlM (processGossipEntry cfg env sender) cs

def slotEpoch (cs : ClusterState) (j : Slot) : ℕ :=
  ((cs.slots j).bind cs.nodes).elim 0 ClusterNode.configEpoch

def clusterSendFailoverAuth (cfg : ClusterConfig) (env : Env) (cs : ClusterState) (x : NodeId) :
    Except ClusterFault ClusterState := do
  let n ← deref cs x
  if n.link then do
    let hdr ← clusterBuildMessageHdr cfg env cs .authAck
    .ok (clusterSendMessage cs n.name hdr)
  else .ok cs

def downMaster (cs : ClusterState) (x : NodeId) (force : Bool) :
    Except ClusterFault (Option NodeId) := do
  let n ← deref cs x
  if n.flags.master then .ok none
  else
    match n.slaveof with
    | none => .ok none
    | some m => do
      let master ← deref cs m
      .ok (if master.flags.fail || force then some m else none)

def grantVote (cfg : ClusterConfig) (env : Env) (cs : ClusterState) (node m : NodeId) :
    Except ClusterFault ClusterState := do
  let cs := { cs with lastVoteEpoch := cs.currentEpoch }
  let cs ← updateNode cs m (fun n => { n with votedTime := env.now })
  clusterSendFailoverAuth cfg env cs node

def clusterSendFailoverAuthIfNeeded (cfg : ClusterConfig) (env : Env) (cs : ClusterState)
    (node : NodeId) (request : ClusterMsg) : Except ClusterFault ClusterState := do
  let me ← deref cs cs.myself
  if me.flags.slave = true ∨ me.numslots = 0 then .ok cs
  else if request.currentEpoch < cs.currentEpoch then .ok cs
  else if cs.lastVoteEpoch = cs.currentEpoch then .ok cs
  else do
    match ← downMaster cs node request.forceack with
    | none => .ok cs
    | some m => do
      let master ← deref cs m
      if env.now-master.votedTime < cfg.nodeTimeout*2 then .ok cs
      else if (List.finRange 16384).any (fun j =>
          request.myslots j && decide (request.configEpoch < slotEpoch cs j)) then .ok cs
      else grantVote cfg env cs node m

def clusterRequestFailoverAuth (cfg : ClusterConfig) (env : Env) (cs : ClusterState) :
    Except ClusterFault ClusterState := do
  let hdr ← clusterBuildMessageHdr cfg env cs .authRequest
  .ok (clusterBroadcastMessage cs { hdr with forceack := decide (cs.mfEnd ≠ 0) })

def clusterGetSlaveRank (env : Env) (cs : ClusterState) : Except ClusterFault ℕ := do
  let me ← deref cs cs.myself
  if me.flags.slave = false then .error .slaveRankAssert
  else
    match me.slaveof with
    | none => .ok 0
    | some m => do
      let master ← deref cs m
      .ok (master.slaves.filter (fun y => decide (y ≠ cs.myself) &&
        (cs.nodes y).any (fun n => !n.flags.nofailover && decide (n.replOffset > env.slaveOffset)))).length

def servesSlots (cs : ClusterState) (x : NodeId) : Bool :=
  (cs.nodes x).any (fun n => n.flags.master && decide (n.numslots ≠ 0))

def clusterSize (cs : ClusterState) : ℕ := ((nodeIds cs).filter (servesSlots cs)).length

def reachableMasters (cs : ClusterState) : ℕ :=
  ((nodeIds cs).filter (fun x => servesSlots cs x &&
    (cs.nodes x).any (fun n => !n.flags.fail && !n.flags.pfail))).length

def uncovered (cs : ClusterState) : Bool :=
  (List.finRange 16384).any (fun j => !((cs.slots j).bind cs.nodes).any (fun n => !n.flags.fail))

def clusterUpdateState (cfg : ClusterConfig) (env : Env) (cs : ClusterState) :
    Except ClusterFault ClusterState := do
  let me ← deref cs cs.myself
  let cs := if cs.firstCallTime = 0 then { cs with firstCallTime := env.now } else cs
  if me.flags.master = true ∧ cs.state = .fail ∧ env.now-cs.firstCallTime < 2000 then .ok cs
  else
    let minority := reachableMasters cs < clusterSize cs/2+1
    let health : ClusterHealth :=
      if (cfg.requireFullCoverage = true ∧ uncovered cs = true) ∨ minority then .fail else .ok
    let cs := { cs with size := clusterSize cs }
    let cs := if minority then { cs with amongMinorityTime := env.now } else cs
    let delay := max 500 (min 5000 cfg.nodeTimeout)
    if health = cs.state then .ok cs
    else if health = .ok ∧ me.flags.master = true ∧ env.now-cs.amongMinorityTime < delay then .ok cs
    else .ok { cs with state := health }

def claimMasterSlots (oldmaster : NodeId) (cs : ClusterState) : Except ClusterFault ClusterState :=
  forSlots (fun cs j => do
    let o ← deref cs oldmaster
    if o.slots j then rebindSlot cs cs.myself j else .ok cs) cs

def clusterFailoverReplaceYourMaster (cfg : ClusterConfig) (env : Env) (cs : ClusterState) :
    Except ClusterFault ClusterState := do
  let me ← deref cs cs.myself
  match me.slaveof with
  | none => .ok cs
  | some oldmaster =>
    if me.flags.master then .ok cs
    else do
      let cs ← clusterSetNodeAsMaster cs cs.myself
      let cs ← claimMasterSlots oldmaster cs
      let cs ← clusterUpdateState cfg env cs
      let cs ← clusterBroadcastPong cfg env cs false
      .ok (resetManualFailover cs)

/-- The preconditions of `clusterHandleSlaveFailover`: a slave whose master serves slots and has
failed, unless a manual failover is under way. -/
def mayFailover (cfg : ClusterConfig) (cs : ClusterState) (manual : Bool) :
    Except ClusterFault Bool := do
  let me ← deref cs cs.myself
  if me.flags.master then .ok false
  else
    match me.slaveof with
    | none => .ok false
    | some m => do
      let master ← deref cs m
      .ok ((master.flags.fail || manual) && (!cfg.slaveNoFailover || manual) &&
        decide (master.numslots ≠ 0))

def dataTooOld (cfg : ClusterConfig) (env : Env) : Bool :=
  let age := if env.dataAge > cfg.nodeTimeout then env.dataAge-cfg.nodeTimeout else env.dataAge
  decide (cfg.slaveValidityFactor ≠ 0) &&
    decide (age > cfg.replPingSlavePeriod*1000+cfg.nodeTimeout*cfg.slaveValidityFactor)

def scheduleElection (cfg : ClusterConfig) (env : Env) (cs : ClusterState) :
    Except ClusterFault ClusterState := do
  let rank ← clusterGetSlaveRank env cs
  let cs :=
    { cs with
      failoverAuthTime := if cs.mfEnd ≠ 0 then env.now
        else env.now+500+(env.random%500 : ℕ)+rank*1000
      failoverAuthCount := 0
      failoverAuthSent := false
      failoverAuthRank := if cs.mfEnd ≠ 0 then 0 else rank }
  clusterBroadcastPong cfg env cs true

def delayElection (env : Env) (cs : ClusterState) : Except ClusterFault ClusterState :=
  if cs.failoverAuthSent = false ∧ cs.mfEnd = 0 then do
    let newrank ← clusterGetSlaveRank env cs
    if cs.failoverAuthRank < newrank then
      .ok { cs with
        failoverAuthTime := cs.failoverAuthTime+(newrank-cs.failoverAuthRank)*1000
        failoverAuthRank := newrank }
    else .ok cs
  else .ok cs

def requestVotes (cfg : ClusterConfig) (env : Env) (cs : ClusterState) :
    Except ClusterFault ClusterState := do
  let cs := { cs with currentEpoch := cs.currentEpoch+1, failoverAuthEpoch := cs.currentEpoch+1 }
  let cs ← clusterRequestFailoverAuth cfg env cs
  .ok { cs with failoverAuthSent := true }

def winElection (cfg : ClusterConfig) (env : Env) (cs : ClusterState) :
    Except ClusterFault ClusterState := do
  let cs ← updateNode cs cs.myself (fun n =>
    { n with configEpoch := max n.configEpoch cs.failoverAuthEpoch })
  clusterFailoverReplaceYourMaster cfg env cs

def runElection (cfg : ClusterConfig) (env : Env) (cs : ClusterState) (authAge authTimeout : ℤ) :
    Except ClusterFault (ClusterState × Bool) := do
  let cs ← delayElection env cs
  if env.now < cs.failoverAuthTime then .ok (cs, false)
  else if authAge > authTimeout then .ok (cs, false)
  else if cs.failoverAuthSent = false then do
    let cs ← requestVotes cfg env cs
    .ok (cs, false)
  else if cs.size/2+1 ≤ cs.failoverAuthCount then do
    let cs ← winElection cfg env cs
    .ok (cs, true)
  else .ok (cs, false)

def clusterHandleSlaveFailover (cfg : ClusterConfig) (env : Env) (cs : ClusterState) :
    Except ClusterFault (ClusterState × Bool) := do
  let authAge := env.now-cs.failoverAuthTime
  let manual := decide (cs.mfEnd ≠ 0) && cs.mfCanStart
  let authTimeout := max (cfg.nodeTimeout*2) 2000
  if !(← mayFailover cfg cs manual) then .ok (cs, false)
  else if dataTooOld cfg env && !manual then .ok (cs, false)
  else if authAge > authTimeout*2 then do
    let cs ← scheduleElection cfg env cs
    .ok (cs, false)
  else runElection cfg env cs authAge authTimeout

def nodeUpdateAddressIfNeeded (env : Env) (cs : ClusterState) (x : NodeId) (link : Option NodeId)
    (hdr : ClusterMsg) : Except ClusterFault ClusterState := do
  let n ← deref cs x
  let ip := if hdr.addr.ip = [] then env.peerIp else hdr.addr.ip
  if link = some x then .ok cs
  else if n.addr = ⟨ip, hdr.addr.port, hdr.addr.cport⟩ then .ok cs
  else updateNode cs x (fun n =>
    { n with
      addr := ⟨ip, hdr.addr.port, hdr.addr.cport⟩
      link := false
      flags := { n.flags with noaddr := false } })

def noteSender (cs : ClusterState) (sender : Option NodeId) (hdr : ClusterMsg) :
    Except ClusterFault ClusterState :=
  match sender with
  | none => .ok cs
  | some s => do
    let n ← deref cs s
    if n.flags.handshake then .ok cs
    else do
      let cs := { cs with currentEpoch := max cs.currentEpoch hdr.currentEpoch }
      let cs ← updateNode cs s (fun n =>
        { n with configEpoch := max n.configEpoch hdr.configEpoch, replOffset := hdr.offset })
      let me ← deref cs cs.myself
      if cs.mfEnd ≠ 0 ∧ me.flags.slave = true ∧ me.slaveof = some s ∧ hdr.paused = true ∧
          cs.mfMasterOffset = 0 then
        .ok { cs with mfMasterOffset := hdr.offset }
      else .ok cs

def senderConfigEpoch (n : ClusterNode) (hdr : ClusterMsg) : ℕ :=
  if n.flags.handshake then 0 else hdr.configEpoch

def senderCurrentEpoch (n : ClusterNode) (hdr : ClusterMsg) : ℕ :=
  if n.flags.handshake then 0 else hdr.currentEpoch

def linkPeer (cs : ClusterState) (link : Option NodeId) (hdr : ClusterMsg) : NodeName :=
  match link with
  | none => hdr.sender
  | some l => (cs.nodes l).elim hdr.sender ClusterNode.name

def meetSender (cfg : ClusterConfig) (env : Env) (cs : ClusterState) (link : Option NodeId)
    (sender : Option NodeId) (hdr : ClusterMsg) : Except ClusterFault ClusterState :=
  match sender, hdr.body with
  | none, .meet gossip =>
    let ip := if hdr.addr.ip = [] then env.peerIp else hdr.addr.ip
    let cs := clusterAddNode cs
      { createClusterNode env.randomName { noFlags with handshake := true } env.now with
        addr := ⟨ip, hdr.addr.port, hdr.addr.cport⟩ }
    clusterProcessGossipSection cfg env cs link hdr gossip
  | _, _ => .ok cs

def answerPing (cfg : ClusterConfig) (env : Env) (cs : ClusterState) (link : Option NodeId)
    (hdr : ClusterMsg) : Except ClusterFault ClusterState :=
  match hdr.body with
  | .ping _ => clusterSendPing cfg env cs (linkPeer cs link hdr) .pong
  | .meet _ => clusterSendPing cfg env cs (linkPeer cs link hdr) .pong
  | _ => .ok cs

/-- The handshake of the node the link belongs to. -/
def handshakeLink (cfg : ClusterConfig) (env : Env) (cs : ClusterState) (link : Option NodeId)
    (sender : Option NodeId) (hdr : ClusterMsg) : Except ClusterFault (ClusterState × Bool) :=
  match link with
  | none => .ok (cs, true)
  | some l => do
    let n ← deref cs l
    if n.flags.handshake then
      match sender with
      | some s => do
        -- the node is known already under its own name
        let cs ← nodeUpdateAddressIfNeeded env cs s link hdr
        let cs ← clusterDelNode cfg env cs l
        .ok (cs, false)
      | none => do
        let cs ← clusterRenameNode cs l hdr.sender
        let cs ← updateNode cs l (fun n =>
          { n with flags := { n.flags with
              handshake := false
              master := n.flags.master || hdr.flags.master
              slave := n.flags.slave || hdr.flags.slave } })
        .ok (cs, true)
    else if n.name ≠ hdr.sender then do
      let cs ← updateNode cs l (fun n =>
        { n with addr := ⟨[], 0, 0⟩, link := false, flags := { n.flags with noaddr := true } })
      .ok (cs, false)
    else .ok (cs, true)

def noteAnnounced (env : Env) (cs : ClusterState) (link : Option NodeId) (s : NodeId)
    (hdr : ClusterMsg) : Except ClusterFault ClusterState := do
  let cs ← updateNode cs s (fun n =>
    { n with flags := { n.flags with nofailover := hdr.flags.nofailover } })
  let n ← deref cs s
  match hdr.body with
  | .ping _ =>
    if n.flags.handshake then .ok cs else nodeUpdateAddressIfNeeded env cs s link hdr
  | _ => .ok cs

def notePong (cfg : ClusterConfig) (env : Env) (cs : ClusterState) (link : Option NodeId)
    (hdr : ClusterMsg) : Except ClusterFault ClusterState :=
  match link, hdr.body with
  | some l, .pong _ => do
    let n ← deref cs l
    if n.flags.pfail then
      updateNode cs l (fun n => { n with flags := { n.flags with pfail := false } })
    else if n.flags.fail then clearNodeFailureIfNeeded cfg env cs l
    else .ok cs
  | _, _ => .ok cs

def demoteSender (cs : ClusterState) (s : NodeId) : Except ClusterFault ClusterState := do
  let n ← deref cs s
  if n.flags.master then do
    let cs ← clusterDelNodeSlots cs s
    updateNode cs s (fun n =>
      { n with flags := { n.flags with master := false, migrateTo := false, slave := true } })
  else .ok cs

def attachSender (cs : ClusterState) (s m : NodeId) : Except ClusterFault ClusterState := do
  let n ← deref cs s
  if n.slaveof = some m then .ok cs
  else do
    let cs ← detachSlave cs s
    let cs ← clusterNodeAddSlave cs m s
    updateNode cs s (fun n => { n with slaveof := some m })

def switchRole (cs : ClusterState) (s : NodeId) (hdr : ClusterMsg) :
    Except ClusterFault ClusterState :=
  if hdr.slaveof = nullName then clusterSetNodeAsMaster cs s
  else
    match clusterLookupNode cs hdr.slaveof with
    | none => demoteSender cs s
    | some m => do
      let cs ← demoteSender cs s
      attachSender cs s m

def dirtySlots (cs : ClusterState) (s : NodeId) (hdr : ClusterMsg) : Except ClusterFault Bool := do
  let n ← deref cs s
  match (if n.flags.master then some s else n.slaveof) with
  | none => .ok false
  | some m => do
    let master ← deref cs m
    .ok (decide (master.slots ≠ hdr.myslots))

def staleClaim (cs : ClusterState) (s : NodeId) (epoch : ℕ) (hdr : ClusterMsg) : Option NodeId :=
  ((List.finRange 16384).find? (fun j => hdr.myslots j && (cs.slots j).isSome &&
    decide (cs.slots j ≠ some s) && decide (epoch < slotEpoch cs j))).bind cs.slots

def updateSlots (cfg : ClusterConfig) (env : Env) (cs : ClusterState) (s : NodeId) (epoch : ℕ)
    (hdr : ClusterMsg) : Except ClusterFault ClusterState := do
  if ← dirtySlots cs s hdr then do
    let n ← deref cs s
    let cs ← (if n.flags.master then clusterUpdateSlotsConfigWith cfg cs s epoch hdr.myslots
      else .ok cs)
    match staleClaim cs s epoch hdr with
    | none => .ok cs
    | some owner => clusterSendUpdate cfg env cs s owner
  else .ok cs

def resolveCollision (cs : ClusterState) (s : NodeId) (epoch : ℕ) :
    Except ClusterFault ClusterState := do
  let n ← deref cs s
  let me ← deref cs cs.myself
  if me.flags.master = true ∧ n.flags.master = true ∧ epoch = me.configEpoch then
    clusterHandleConfigEpochCollision cs s
  else .ok cs

def processConfig (cfg : ClusterConfig) (env : Env) (cs : ClusterState) (link : Option NodeId)
    (sender : Option NodeId) (epoch : ℕ) (hdr : ClusterMsg) (gossip : List GossipEntry) :
    Except ClusterFault ClusterState := do
  let r ← handshakeLink cfg env cs link sender hdr
  if r.2 = false then .ok r.1
  else
    match sender with
    | none => notePong cfg env r.1 link hdr
    | some s => do
      let cs ← noteAnnounced env r.1 link s hdr
      let cs ← notePong cfg env cs link hdr
      let cs ← switchRole cs s hdr
      let cs ← updateSlots cfg env cs s epoch hdr
      let cs ← resolveCollision cs s epoch
      clusterProcessGossipSection cfg env cs link hdr gossip

def processFail (env : Env) (cs : ClusterState) (sender : Option NodeId) (name : NodeName) :
    Except ClusterFault ClusterState :=
  match sender, clusterLookupNode cs name with
  | some _, some x => do
    let n ← deref cs x
    if n.flags.fail || n.flags.myself then .ok cs
    else updateNode cs x (fun n =>
      { n with flags := { n.flags with fail := true, pfail := false }, failTime := env.now })
  | _, _ => .ok cs

def processAuthAck (cs : ClusterState) (s : NodeId) (epoch : ℕ) : Except ClusterFault ClusterState := do
  let n ← deref cs s
  if n.flags.master = true ∧ 0 < n.numslots ∧ cs.failoverAuthEpoch ≤ epoch then
    .ok { cs with failoverAuthCount := cs.failoverAuthCount+1 }
  else .ok cs

def processMfstart (env : Env) (cs : ClusterState) (s : NodeId) : Except ClusterFault ClusterState := do
  let n ← deref cs s
  if n.slaveof = some cs.myself then
    .ok { resetManualFailover cs with mfEnd := env.now+5000, mfSlave := some s }
  else .ok cs

def processUpdate (cfg : ClusterConfig) (cs : ClusterState) (name : NodeName)
    (reportedConfigEpoch : ℕ) (slots : Slot → Bool) : Except ClusterFault ClusterState :=
  match clusterLookupNode cs name with
  | none => .ok cs
  | some x => do
    let n ← deref cs x
    if reportedConfigEpoch ≤ n.configEpoch then .ok cs
    else do
      let cs ← (if n.flags.slave then clusterSetNodeAsMaster cs x else .ok cs)
      let cs ← updateNode cs x (fun n => { n with configEpoch := reportedConfigEpoch })
      clusterUpdateSlotsConfigWith cfg cs x reportedConfigEpoch slots

def processKnown (cfg : ClusterConfig) (env : Env) (cs : ClusterState) (s : NodeId) (epoch : ℕ)
    (hdr : ClusterMsg) : Except ClusterFault ClusterState :=
  match hdr.body with
  | .authRequest => clusterSendFailoverAuthIfNeeded cfg env cs s hdr
  | .authAck => processAuthAck cs s epoch
  | .mfstart => processMfstart env cs s
  | .update name reportedConfigEpoch slots => processUpdate cfg cs name reportedConfigEpoch slots
  | _ => .ok cs

def findSender (cs : ClusterState) (hdr : ClusterMsg) :
    Except ClusterFault (Option NodeId × ℕ × ℕ) :=
  match clusterLookupNode cs hdr.sender with
  | none => .ok (none, 0, 0)
  | some s => do
    let n ← deref cs s
    .ok (some s, senderCurrentEpoch n hdr, senderConfigEpoch n hdr)

def processBody (cfg : ClusterConfig) (env : Env) (cs : ClusterState) (link : Option NodeId)
    (sender : Option NodeId) (currentEpoch configEpoch : ℕ) (hdr : ClusterMsg) :
    Except ClusterFault ClusterState :=
  match hdr.body with
  | .ping gossip => processConfig cfg env cs link sender configEpoch hdr gossip
  | .pong gossip => processConfig cfg env cs link sender configEpoch hdr gossip
  | .meet gossip => processConfig cfg env cs link sender configEpoch hdr gossip
  | .fail name => processFail env cs sender name
  | _ =>
    match sender with
    | none => .ok cs
    | some s => processKnown cfg env cs s currentEpoch hdr

def clusterProcessPacket (cfg : ClusterConfig) (env : Env) (cs : ClusterState)
    (link : Option NodeId) (hdr : ClusterMsg) : Except ClusterFault ClusterState := do
  let r ← findSender cs hdr
  let cs ← noteSender cs r.1 hdr
  let cs ← meetSender cfg env cs link r.1 hdr
  let cs ← answerPing cfg env cs link hdr
  processBody cfg env cs link r.1 r.2.1 r.2.2 hdr

end RedisCore.Cluster
