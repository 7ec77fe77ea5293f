import RedisCore.ClusterModel

namespace RedisCore.Cluster

inductive CommandProc where
  | migrate
  | eval
  | evalsha
  | other
deriving DecidableEq, Repr

/-- A command with its arguments: its entry in the command table, the keys that `getKeysFromCommand`
finds, and what it does to the data set. -/
structure KeyCommand (K V R : Type) where
  proc : CommandProc
  readonly : Bool
  asking : Bool
  keys : List K
  run : (K → Option V) → R × (K → Option V)
  frame : ∀ db k, k ∉ keys → (run db).2 k = db k
  reads : ∀ db db', (∀ k ∈ keys, db k = db' k) →
    (run db).1 = (run db').1 ∧ ∀ k ∈ keys, (run db).2 k = (run db').2 k

inductive Wire (K V R : Type) where
  | asking
  | multi
  | discard
  | exec
  | call (cmd : KeyCommand K V R)

variable {K V R : Type}

def Wire.keys : Wire K V R → List K
  | .call cmd => cmd.keys
  | _ => []

def Wire.readonly : Wire K V R → Bool
  | .call cmd => cmd.readonly
  | _ => false

structure Conn (K V R : Type) where
  multi : Bool
  dirtyExec : Bool
  asking : Bool
  readonly : Bool
  queue : List (Wire K V R)

inductive RedirError where
  | none
  | crossSlot
  | unstable
  | ask
  | moved
  | downState
  | downUnbound
  | downRoState
deriving DecidableEq, Repr

structure KeyScan (K : Type) where
  node : Option NodeId
  firstkey : Option K
  slot : Slot
  migratingSlot : Bool
  importingSlot : Bool
  multipleKeys : Bool
  missingKeys : ℕ

def noKeys : KeyScan K :=
  { node := none
    firstkey := none
    slot := 0
    migratingSlot := false
    importingSlot := false
    multipleKeys := false
    missingKeys := 0 }

structure RoutingConfig (K : Type) where
  moduleNoRedirection : Bool
  allowReadsWhenDown : Bool
  keyHashSlot : K → Slot

variable [DecidableEq K]

def placeKey (cfg : RoutingConfig K) (cs : ClusterState) (scan : KeyScan K) (thiskey : K) :
    Except RedirError (KeyScan K) :=
  match scan.firstkey with
  | none =>
    let slot := cfg.keyHashSlot thiskey
    match cs.slots slot with
    | none => .error .downUnbound
    | some n =>
      let migrating := decide (n = cs.myself) && (cs.migratingSlotsTo slot).isSome
      .ok { scan with
        node := some n
        firstkey := some thiskey
        slot := slot
        migratingSlot := migrating
        importingSlot := !migrating && (cs.importingSlotsFrom slot).isSome }
  | some firstkey =>
    if firstkey = thiskey then .ok scan
    else if scan.slot ≠ cfg.keyHashSlot thiskey then .error .crossSlot
    else .ok { scan with multipleKeys := true }

def scanKey (cfg : RoutingConfig K) (cs : ClusterState) (db : K → Option V) (scan : KeyScan K)
    (thiskey : K) : Except RedirError (KeyScan K) := do
  let scan ← placeKey cfg cs scan thiskey
  .ok (if (scan.migratingSlot || scan.importingSlot) && (db thiskey).isNone then
    { scan with missingKeys := scan.missingKeys+1 } else scan)

def queried (c : Conn K V R) : Wire K V R → List (Wire K V R)
  | .exec => c.queue
  | cmd => [cmd]

def queriedKeys (c : Conn K V R) (cmd : Wire K V R) : List K := (queried c cmd).flatMap Wire.keys

def Wire.isEval : Wire K V R → Bool
  | .call cmd => decide (cmd.proc = .eval) || decide (cmd.proc = .evalsha)
  | _ => false

def Wire.isMigrate : Wire K V R → Bool
  | .call cmd => decide (cmd.proc = .migrate)
  | _ => false

def Wire.asks : Wire K V R → Bool
  | .call cmd => cmd.asking
  | _ => false

def isReadonlyCommand (c : Conn K V R) : Wire K V R → Bool
  | .exec => c.queue.all Wire.readonly
  | cmd => cmd.readonly

def slaveServes (cs : ClusterState) (n : NodeId) : Bool :=
  (cs.nodes cs.myself).any (fun me => me.flags.slave && decide (me.slaveof = some n))

def routeSlot (cs : ClusterState) (c : Conn K V R) (cmd : Wire K V R) (scan : KeyScan K) (n : NodeId) :
    Option NodeId × RedirError :=
  if (scan.migratingSlot || scan.importingSlot) && cmd.isMigrate then (some cs.myself, .none)
  else if scan.migratingSlot = true ∧ scan.missingKeys ≠ 0 then
    (cs.migratingSlotsTo scan.slot, .ask)
  else if scan.importingSlot && (c.asking || cmd.asks) then
    if scan.multipleKeys = true ∧ scan.missingKeys ≠ 0 then (none, .unstable)
    else (some cs.myself, .none)
  else if c.readonly && (isReadonlyCommand c cmd || cmd.isEval) && slaveServes cs n then
    (some cs.myself, .none)
  else (some n, if n ≠ cs.myself then .moved else .none)

def downError (cfg : RoutingConfig K) (cs : ClusterState) (cmd : Wire K V R) : Option RedirError :=
  if cs.state = .ok then none
  else if cfg.allowReadsWhenDown = false then some .downState
  else if !cmd.readonly && !cmd.isEval then some .downRoState
  else none

def getNodeByQuery (cfg : RoutingConfig K) (cs : ClusterState) (db : K → Option V) (c : Conn K V R)
    (cmd : Wire K V R) : Option NodeId × RedirError :=
  if cfg.moduleNoRedirection then (some cs.myself, .none)
  else
    match cmd, c.multi with
    | .exec, false => (some cs.myself, .none)
    | _, _ =>
      match (queriedKeys c cmd).foldlM (scanKey cfg cs db) noKeys with
      | .error e => (none, e)
      | .ok scan =>
        match scan.node with
        | none => (some cs.myself, .none)
        | some n =>
          match downError cfg cs cmd with
          | some e => (none, e)
          | none => routeSlot cs c cmd scan n

inductive WireReply (R : Type) where
  | ok
  | queued
  | error
  | execAbort
  | redirect (e : RedirError)
  | result (r : R)
  | results (rs : List R)

def WireReply.isAsk : WireReply R → Bool
  | .redirect e => decide (e = .ask)
  | _ => false

def freshConn : Conn K V R :=
  { multi := false
    dirtyExec := false
    asking := false
    readonly := false
    queue := [] }

omit [DecidableEq K] in
def discardTransaction (c : Conn K V R) : Conn K V R :=
  { c with multi := false, dirtyExec := false, queue := [] }

def flagTransaction (c : Conn K V R) : Conn K V R :=
  if c.multi then { c with dirtyExec := true } else c

def queueMultiCommand (c : Conn K V R) (cmd : Wire K V R) : Conn K V R :=
  if c.dirtyExec then c else { c with queue := c.queue ++ [cmd] }

def runQueue : List (Wire K V R) → (K → Option V) → List (KeyCommand K V R × R) × (K → Option V)
  | [], db => ([], db)
  | .call cmd :: queue, db =>
    let r := cmd.run db
    let rest := runQueue queue r.2
    ((cmd, r.1) :: rest.1, rest.2)
  | _ :: queue, db => runQueue queue db

/-- What the processing of a command leaves: the data set, the client, the reply and the commands
that were executed with their results. -/
structure Processed (K V R : Type) where
  db : K → Option V
  conn : Conn K V R
  reply : WireReply R
  ran : List (KeyCommand K V R × R)

def callCommand (db : K → Option V) (c : Conn K V R) : Wire K V R → Processed K V R
  | .asking => ⟨db, { c with asking := true }, .ok, []⟩
  | .multi => if c.multi then ⟨db, c, .error, []⟩ else ⟨db, { c with multi := true }, .ok, []⟩
  | .discard => if c.multi then ⟨db, discardTransaction c, .ok, []⟩ else ⟨db, c, .error, []⟩
  | .exec =>
    if c.multi = false then ⟨db, c, .error, []⟩
    else if c.dirtyExec then ⟨db, discardTransaction c, .execAbort, []⟩
    else
      let r := runQueue c.queue db
      ⟨r.2, discardTransaction c, .results (r.1.map Prod.snd), r.1⟩
  | .call cmd =>
    let r := cmd.run db
    ⟨r.2, c, .result r.1, [(cmd, r.1)]⟩

def Wire.isQueued : Wire K V R → Bool
  | .asking => true
  | .call _ => true
  | _ => false

def queueOrCall (db : K → Option V) (c : Conn K V R) (cmd : Wire K V R) : Processed K V R :=
  if c.multi && cmd.isQueued then ⟨db, queueMultiCommand c cmd, .queued, []⟩
  else callCommand db c cmd

def processCommand (cfg : RoutingConfig K) (cs : ClusterState) (db : K → Option V) (c : Conn K V R)
    (cmd : Wire K V R) : Processed K V R :=
  match cmd with
  | .exec =>
    let r := getNodeByQuery cfg cs db c cmd
    if r.1 ≠ some cs.myself then ⟨db, discardTransaction c, .redirect r.2, []⟩
    else queueOrCall db c cmd
  | .call _ =>
    let r := getNodeByQuery cfg cs db c cmd
    if r.1 ≠ some cs.myself then ⟨db, flagTransaction c, .redirect r.2, []⟩
    else queueOrCall db c cmd
  | _ => queueOrCall db c cmd

def Wire.isAsking : Wire K V R → Bool
  | .asking => true
  | _ => false

def resetClient (c : Conn K V R) (cmd : Wire K V R) : Conn K V R :=
  if c.multi = false ∧ cmd.isAsking = false then { c with asking := false } else c

def serveCommand (cfg : RoutingConfig K) (cs : ClusterState) (db : K → Option V) (c : Conn K V R)
    (cmd : Wire K V R) : Processed K V R :=
  let r := processCommand cfg cs db c cmd
  { r with conn := resetClient r.conn cmd }

variable {cfg : RoutingConfig K} {cs : ClusterState} {db : K → Option V} {c : Conn K V R}
variable {cmd : Wire K V R} {s : Slot} {n : NodeId}

structure Scanned (cs : ClusterState) (db : K → Option V) (s : Slot) (n : NodeId) (k₀ : K)
    (keys : List K) (scan : KeyScan K) : Prop where
  node : scan.node = some n
  firstkey : scan.firstkey = some k₀
  slot : scan.slot = s
  migrating : scan.migratingSlot = (decide (n = cs.myself) && (cs.migratingSlotsTo s).isSome)
  importing : scan.importingSlot = (!scan.migratingSlot && (cs.importingSlotsFrom s).isSome)
  multiple : scan.multipleKeys = false ↔ ∀ k ∈ keys, k = k₀
  missing : (scan.migratingSlot || scan.importingSlot) = true →
    (scan.missingKeys = 0 ↔ ∀ k ∈ keys, db k ≠ none)

variable {keys : List K} {scan : KeyScan K} {k₀ k : K} {e : RedirError}

omit [DecidableEq K] in
theorem Scanned.count (h : Scanned cs db s n k₀ keys scan) (scan' : KeyScan K)
    (hmult : scan'.multipleKeys = false ↔
      scan.multipleKeys = false ∧ k = k₀) (hrest : scan' = { scan with multipleKeys := scan'.multipleKeys }) :
    Scanned cs db s n k₀ (keys ++ [k])
      (if (scan'.migratingSlot || scan'.importingSlot) && (db k).isNone then
        { scan' with missingKeys := scan'.missingKeys+1 } else scan') := by
  have hm : ∀ P : K → Prop, (∀ x ∈ keys ++ [k], P x) ↔ (∀ x ∈ keys, P x) ∧ P k := by
    intro P
    simp only [List.mem_append, List.mem_singleton]
    exact ⟨fun h => ⟨fun x hx => h x (Or.inl hx), h k (Or.inr rfl)⟩,
      fun h x hx => hx.elim (h.1 x) (fun hx => hx ▸ h.2)⟩
  have hmult' : scan'.multipleKeys = false ↔ ∀ x ∈ keys ++ [k], x = k₀ := by
    rw [hmult, h.multiple, hm]
  have hnode : scan'.node = some n := by rw [hrest]; exact h.node
  have hfirst : scan'.firstkey = some k₀ := by rw [hrest]; exact h.firstkey
  have hslot : scan'.slot = s := by rw [hrest]; exact h.slot
  have hmig : scan'.migratingSlot = scan.migratingSlot := by rw [hrest]
  have himp : scan'.importingSlot = scan.importingSlot := by rw [hrest]
  have hmissing : scan'.missingKeys = scan.missingKeys := by rw [hrest]
  by_cases hopen : (scan'.migratingSlot || scan'.importingSlot) = true
  · have hcount := h.missing (by rw [← hmig, ← himp]; exact hopen)
    by_cases hk : (db k).isNone = true
    · rw [if_pos (by rw [hopen, hk]; rfl)]
      refine ⟨hnode, hfirst, hslot, hmig.trans h.migrating, ?_, hmult', fun _ => ?_⟩
      · show scan'.importingSlot = (!scan'.migratingSlot && _)
        rw [himp, hmig]
        exact h.importing
      · rw [hm]
        constructor
        · intro h0
          cases h0
        · rintro ⟨-, hne⟩
          exact absurd (Option.isNone_iff_eq_none.mp hk) hne
    · rw [if_neg (by rw [hopen, Bool.true_and]; exact hk)]
      refine ⟨hnode, hfirst, hslot, hmig.trans h.migrating, by rw [himp, hmig]; exact h.importing,
        hmult', fun _ => ?_⟩
      rw [hmissing, hcount, hm]
      exact ⟨fun hall => ⟨hall, fun hnone => hk (Option.isNone_iff_eq_none.mpr hnone)⟩, fun hall => hall.1⟩
  · rw [if_neg (fun hb => hopen ((Bool.and_eq_true _ _).mp hb).1)]
    exact ⟨hnode, hfirst, hslot, hmig.trans h.migrating, by rw [himp, hmig]; exact h.importing,
      hmult', fun ho => absurd ho hopen⟩

theorem Scanned.next {scan' : KeyScan K} (h : Scanned cs db s n k₀ keys scan)
    (hk : scanKey cfg cs db scan k = .ok scan') :
    Scanned cs db s n k₀ (keys ++ [k]) scan' := by
  unfold scanKey placeKey at hk
  rw [h.firstkey] at hk
  dsimp only at hk
  by_cases hsame : k₀ = k
  · rw [if_pos hsame] at hk
    cases hk
    exact h.count _ ⟨fun hm => ⟨hm, hsame.symm⟩, fun hm => hm.1⟩ rfl
  · rw [if_neg hsame] at hk
    split_ifs at hk with hslot
    · cases hk
    · cases hk
      rw [← h.firstkey]
      refine h.count _ ⟨fun hm => ?_, fun hm => absurd hm.2.symm hsame⟩ rfl
      cases hm

theorem Scanned.run : ∀ (rest keys : List K) (scan scan' : KeyScan K),
    Scanned cs db s n k₀ keys scan → rest.foldlM (scanKey cfg cs db) scan = .ok scan' →
    Scanned cs db s n k₀ (keys ++ rest) scan' := by
  intro rest
  induction rest with
  | nil =>
    intro keys scan scan' h hr
    cases hr
    rw [List.append_nil]
    exact h
  | cons k rest ih =>
    intro keys scan scan' h hr
    rw [List.foldlM_cons] at hr
    cases hk : scanKey cfg cs db scan k with
    | error e =>
      rw [hk] at hr
      cases hr
    | ok scan1 =>
      rw [hk] at hr
      have h1 := ih (keys ++ [k]) scan1 scan' (h.next hk) hr
      rw [List.append_assoc] at h1
      exact h1

theorem scanKeys_spec {rest : List K} (hslot : cfg.keyHashSlot k₀ = s)
    (hn : cs.slots s = some n) (hr : (k₀ :: rest).foldlM (scanKey cfg cs db) noKeys = .ok scan) :
    Scanned cs db s n k₀ (k₀ :: rest) scan := by
  let first : KeyScan K := { (noKeys : KeyScan K) with
    node := some n
    firstkey := some k₀
    slot := s
    migratingSlot := decide (n = cs.myself) && (cs.migratingSlotsTo s).isSome
    importingSlot := !(decide (n = cs.myself) && (cs.migratingSlotsTo s).isSome) &&
      (cs.importingSlotsFrom s).isSome }
  have hplace : placeKey cfg cs noKeys k₀ = .ok first := by
    unfold placeKey noKeys
    dsimp only
    rw [hslot, hn]
    rfl
  have hempty : Scanned cs db s n k₀ [] first :=
    ⟨rfl, rfl, rfl, rfl, rfl, ⟨fun _ k hk => absurd hk List.not_mem_nil, fun _ => rfl⟩,
      fun _ => ⟨fun _ k hk => absurd hk List.not_mem_nil, fun _ => rfl⟩⟩
  have hfirst := hempty.count first ⟨fun _ => ⟨rfl, rfl⟩, fun _ => rfl⟩ rfl
  rw [List.foldlM_cons] at hr
  unfold scanKey at hr
  rw [hplace] at hr
  exact hfirst.run rest [k₀] _ scan hr

theorem scanKey_error (h : scanKey cfg cs db scan k = .error e) : e ≠ .ask := by
  unfold scanKey at h
  cases hp : placeKey cfg cs scan k with
  | ok scan1 =>
    rw [hp] at h
    cases h
  | error e' =>
    rw [hp] at h
    cases h
    unfold placeKey at hp
    split at hp
    · dsimp only at hp
      split at hp
      · cases hp
        decide
      · cases hp
    · split_ifs at hp
      cases hp
      decide

theorem scanKeys_error : ∀ (keys : List K) (scan : KeyScan K),
    keys.foldlM (scanKey cfg cs db) scan = .error e → e ≠ .ask := by
  intro keys
  induction keys with
  | nil =>
    intro scan h
    cases h
  | cons k keys ih =>
    intro scan h
    rw [List.foldlM_cons] at h
    cases hk : scanKey cfg cs db scan k with
    | error e' =>
      rw [hk] at h
      cases h
      exact scanKey_error hk
    | ok scan1 =>
      rw [hk] at h
      exact ih scan1 h

omit [DecidableEq K] in
theorem downError_ne_ask (h : downError cfg cs cmd = some e) : e ≠ .ask := by
  unfold downError at h
  split_ifs at h <;> cases h <;> decide

/-- A request whose keys are of one slot, other than the two commands that move keys, on a node
where no module has turned the redirections off. -/
structure Routed (cfg : RoutingConfig K) (s : Slot) (c : Conn K V R) (cmd : Wire K V R) : Prop where
  redirects : cfg.moduleNoRedirection = false
  inMulti : cmd = .exec → c.multi = true
  notMigrate : cmd.isMigrate = false
  notAsks : cmd.asks = false
  slot : ∀ k ∈ queriedKeys c cmd, cfg.keyHashSlot k = s

theorem getNodeByQuery_scan (h : Routed cfg s c cmd) : getNodeByQuery cfg cs db c cmd =
    match (queriedKeys c cmd).foldlM (scanKey cfg cs db) noKeys with
    | .error e => (none, e)
    | .ok scan =>
      match scan.node with
      | none => (some cs.myself, .none)
      | some n =>
        match downError cfg cs cmd with
        | some e => (none, e)
        | none => routeSlot cs c cmd scan n := by
  unfold getNodeByQuery
  rw [if_neg (by rw [h.redirects]; decide)]
  split
  · rename_i hm
    rw [h.inMulti rfl] at hm
    cases hm
  · rfl

theorem getNodeByQuery_cases (h : Routed cfg s c cmd) (hn : cs.slots s = some n) :
    (queriedKeys c cmd = [] ∧ getNodeByQuery cfg cs db c cmd = (some cs.myself, .none)) ∨
    (∃ e, e ≠ RedirError.ask ∧ getNodeByQuery cfg cs db c cmd = (none, e)) ∨
    ∃ k₀ scan, k₀ ∈ queriedKeys c cmd ∧ Scanned cs db s n k₀ (queriedKeys c cmd) scan ∧
      getNodeByQuery cfg cs db c cmd = routeSlot cs c cmd scan n := by
  rw [getNodeByQuery_scan h]
  cases hkeys : queriedKeys c cmd with
  | nil => exact Or.inl ⟨rfl, rfl⟩
  | cons k₀ rest =>
    right
    cases hscan : (k₀ :: rest).foldlM (scanKey cfg cs db) noKeys with
    | error e => exact Or.inl ⟨e, scanKeys_error _ _ hscan, rfl⟩
    | ok scan =>
      have hk₀ : cfg.keyHashSlot k₀ = s := h.slot k₀ (by rw [hkeys]; exact List.mem_cons_self)
      have hs := scanKeys_spec hk₀ hn hscan
      dsimp only
      rw [hs.node]
      cases hdown : downError cfg cs cmd with
      | some e => exact Or.inl ⟨e, downError_ne_ask hdown, rfl⟩
      | none => exact Or.inr ⟨k₀, scan, List.mem_cons_self, hs, rfl⟩

structure Migrating (cs : ClusterState) (s : Slot) : Prop where
  owner : cs.slots s = some cs.myself
  target : ∃ b, b ≠ cs.myself ∧ cs.migratingSlotsTo s = some b

structure Importing (cs : ClusterState) (s : Slot) : Prop where
  owner : ∃ a, a ≠ cs.myself ∧ cs.slots s = some a
  source : (cs.importingSlotsFrom s).isSome = true
  master : (cs.nodes cs.myself).any (fun me => me.flags.slave) = false

theorem Migrating.serves (hopen : Migrating cs s) (h : Routed cfg s c cmd)
    (hself : (getNodeByQuery cfg cs db c cmd).1 = some cs.myself) :
    ∀ k ∈ queriedKeys c cmd, db k ≠ none := by
  obtain ⟨b, hb, hto⟩ := hopen.target
  rcases getNodeByQuery_cases h hopen.owner with ⟨hnil, -⟩ | ⟨e, -, he⟩ | ⟨k₀, scan, -, hs, hroute⟩
  · intro k hk
    rw [hnil] at hk
    cases hk
  · rw [he] at hself
    cases hself
  · have hmig : scan.migratingSlot = true := by
      rw [hs.migrating, hto]
      simp
    apply (hs.missing (by rw [hmig]; rfl)).mp
    -- a missing key would have sent the client to the target
    by_contra hmissing
    rw [hroute] at hself
    unfold routeSlot at hself
    rw [if_neg (by rw [h.notMigrate, Bool.and_false]; decide), if_pos ⟨hmig, hmissing⟩, hs.slot] at hself
    exact hb (Option.some.inj (hto.symm.trans hself))

theorem Migrating.asks (hopen : Migrating cs s) (h : Routed cfg s c cmd)
    (hask : (getNodeByQuery cfg cs db c cmd).2 = .ask) : ∃ k ∈ queriedKeys c cmd, db k = none := by
  obtain ⟨b, hb, hto⟩ := hopen.target
  rcases getNodeByQuery_cases h hopen.owner with ⟨-, he⟩ | ⟨e, hne, he⟩ | ⟨k₀, scan, -, hs, hroute⟩
  · rw [he] at hask
    cases hask
  · rw [he] at hask
    exact absurd hask hne
  · have hmig : scan.migratingSlot = true := by
      rw [hs.migrating, hto]
      simp
    by_contra hall
    have hpresent : ∀ k ∈ queriedKeys c cmd, db k ≠ none := fun k hk hnone => hall ⟨k, hk, hnone⟩
    have hzero : scan.missingKeys = 0 := (hs.missing (by rw [hmig]; rfl)).mpr hpresent
    have himp : scan.importingSlot = false := by
      rw [hs.importing, hmig]
      rfl
    rw [hroute] at hask
    unfold routeSlot at hask
    rw [if_neg (by rw [h.notMigrate, Bool.and_false]; decide), if_neg (fun hm => hm.2 hzero),
      if_neg (by rw [himp, Bool.false_and]; decide)] at hask
    split_ifs at hask

theorem Importing.serves (hopen : Importing cs s) (h : Routed cfg s c cmd)
    (hself : (getNodeByQuery cfg cs db c cmd).1 = some cs.myself) :
    queriedKeys c cmd = [] ∨ c.asking = true ∧
      ((∀ k ∈ queriedKeys c cmd, db k ≠ none) ∨ ∃ k₀, ∀ k ∈ queriedKeys c cmd, k = k₀) := by
  obtain ⟨a, ha, howner⟩ := hopen.owner
  rcases getNodeByQuery_cases h howner with ⟨hnil, -⟩ | ⟨e, -, he⟩ | ⟨k₀, scan, -, hs, hroute⟩
  · exact Or.inl hnil
  · rw [he] at hself
    cases hself
  · right
    have hmig : scan.migratingSlot = false := by
      rw [hs.migrating, decide_eq_false ha, Bool.false_and]
    have himp : scan.importingSlot = true := by
      rw [hs.importing, hmig, hopen.source]
      rfl
    have hslave : slaveServes cs a = false := by
      unfold slaveServes
      cases hme : cs.nodes cs.myself with
      | none => rfl
      | some me =>
        have := hopen.master
        rw [hme, Option.any_some] at this
        rw [Option.any_some, this, Bool.false_and]
    rw [hroute] at hself
    unfold routeSlot at hself
    rw [if_neg (by rw [h.notMigrate, Bool.and_false]; decide),
      if_neg (fun hm => absurd hm.1 (by rw [hmig]; decide)), himp, h.notAsks, Bool.or_false,
      Bool.true_and] at hself
    by_cases hasking : c.asking = true
    · rw [if_pos hasking] at hself
      refine ⟨hasking, ?_⟩
      by_cases hmany : scan.multipleKeys = true ∧ scan.missingKeys ≠ 0
      · rw [if_pos hmany] at hself
        cases hself
      · rcases Bool.eq_false_or_eq_true scan.multipleKeys with hm | hm
        · left
          apply (hs.missing (by rw [himp, Bool.or_true])).mp
          by_contra hmissing
          exact hmany ⟨hm, hmissing⟩
        · exact Or.inr ⟨k₀, hs.multiple.mp hm⟩
    · rw [if_neg hasking, hslave, Bool.and_false, if_neg (by decide)] at hself
      exact absurd (Option.some.inj hself) ha

end RedisCore.Cluster
