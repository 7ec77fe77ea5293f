import RedisCore.ClusterRouting
import RedisCore.ClusterCommands
import Mathlib.Logic.Function.Basic
import Mathlib.Logic.Relation

namespace RedisCore.Cluster
open List (mem_cons_self mem_singleton)
open Function (update_eq_self update_of_ne update_self)

variable {K V R : Type} [DecidableEq K]

inductive Side where
  | source
  | target
deriving DecidableEq, Repr

def Side.other : Side → Side
  | .source => .target
  | .target => .source

def mergedDb (db : Side → K → Option V) (k : K) : Option V := (db .source k).or (db .target k)

def lastWritten (init : K → Option V) (log : List (KeyCommand K V R × R)) : K → Option V :=
  log.foldl (fun db e => (e.1.run db).2) init

def Replays : List (KeyCommand K V R × R) → (K → Option V) → (K → Option V) → Prop
  | [], db, db' => db = db'
  | (cmd, r) :: log, db, db' => (cmd.run db).1 = r ∧ Replays log (cmd.run db).2 db'

omit [DecidableEq K] in
theorem Replays.append : ∀ {log log' : List (KeyCommand K V R × R)} {db db' db'' : K → Option V},
    Replays log db db' → Replays log' db' db'' → Replays (log ++ log') db db''
  | [], _, _, _, _, h, h' => by rw [Replays] at h; rw [h]; exact h'
  | _ :: _, _, _, _, _, h, h' => ⟨h.1, Replays.append h.2 h'⟩

omit [DecidableEq K] in
theorem Replays.final : ∀ {log : List (KeyCommand K V R × R)} {db db' : K → Option V},
    Replays log db db' → db' = lastWritten db log
  | [], _, _, h => h.symm
  | _ :: _, _, _, h => h.2.final

variable {cmd : KeyCommand K V R} {side : Side} {k : K} {replace : Bool} {i : ℕ}

omit [DecidableEq K] in
theorem Replays.result {r : R} {after : List (KeyCommand K V R × R)}
    {db' : K → Option V} : ∀ {before : List (KeyCommand K V R × R)} {db : K → Option V},
    Replays (before ++ (cmd, r) :: after) db db' → r = (cmd.run (lastWritten db before)).1 := by
  intro before
  induction before with
  | nil =>
    intro db h
    exact h.1.symm
  | cons e before ih =>
    intro db h
    exact ih h.2

omit [DecidableEq K] in
theorem runQueue_replays : ∀ (queue : List (Wire K V R)) (db : K → Option V),
    Replays (runQueue queue db).1 db (runQueue queue db).2
  | [], _ => rfl
  | .call cmd :: queue, db => ⟨rfl, runQueue_replays queue (cmd.run db).2⟩
  | .asking :: queue, db => runQueue_replays queue db
  | .multi :: queue, db => runQueue_replays queue db
  | .discard :: queue, db => runQueue_replays queue db
  | .exec :: queue, db => runQueue_replays queue db

omit [DecidableEq K] in
theorem mergedDb_eq {db : Side → K → Option V} (h : db side.other k = none) :
    mergedDb db k = db side k := by
  unfold mergedDb
  cases side with
  | source =>
    rw [show db .target k = none from h]
    exact Option.or_none
  | target =>
    rw [show db .source k = none from h]
    exact Option.none_or

omit [DecidableEq K] in
theorem run_mergedDb {db : Side → K → Option V} (cmd : KeyCommand K V R)
    (h : ∀ k ∈ cmd.keys, db side.other k = none) :
    cmd.run (mergedDb db) =
      ((cmd.run (db side)).1, mergedDb (Function.update db side (cmd.run (db side)).2)) := by
  have hagree : ∀ k ∈ cmd.keys, mergedDb db k = db side k := fun k hk => mergedDb_eq (h k hk)
  have hreads := cmd.reads _ _ hagree
  have hother : side.other ≠ side := by cases side <;> decide
  apply Prod.ext
  · exact hreads.1
  · funext k
    by_cases hk : k ∈ cmd.keys
    · have hkeep : Function.update db side (cmd.run (db side)).2 side.other k = none := by
        rw [update_of_ne hother]
        exact h k hk
      calc
        (cmd.run (mergedDb db)).2 k = (cmd.run (db side)).2 k := hreads.2 k hk
        _ = Function.update db side (cmd.run (db side)).2 side k := by rw [update_self]
        _ = mergedDb (Function.update db side (cmd.run (db side)).2) k := (mergedDb_eq hkeep).symm
    · have hsame : ∀ x, Function.update db side (cmd.run (db side)).2 x k = db x k := by
        intro x
        by_cases hx : x = side
        · rw [hx, update_self]
          exact cmd.frame _ k hk
        · rw [update_of_ne hx]
      calc
        (cmd.run (mergedDb db)).2 k = mergedDb db k := cmd.frame _ k hk
        _ = mergedDb (Function.update db side (cmd.run (db side)).2) k := by
          unfold mergedDb
          rw [hsame .source, hsame .target]

omit [DecidableEq K] in
theorem runQueue_mergedDb : ∀ (queue : List (Wire K V R)) (db : Side → K → Option V),
    (∀ k ∈ queue.flatMap Wire.keys, db side.other k = none) →
    runQueue queue (mergedDb db) =
      ((runQueue queue (db side)).1, mergedDb (Function.update db side (runQueue queue (db side)).2)) := by
  intro queue
  have hother : side.other ≠ side := by cases side <;> decide
  induction queue with
  | nil =>
    intro db _
    show ([], mergedDb db) = ([], mergedDb (Function.update db side (db side)))
    rw [update_eq_self]
  | cons w queue ih =>
    intro db h
    have htail : ∀ k ∈ queue.flatMap Wire.keys, db side.other k = none := fun k hk =>
      h k (List.mem_append_right _ hk)
    cases w with
    | call cmd =>
      have hhead : ∀ k ∈ cmd.keys, db side.other k = none := fun k hk =>
        h k (List.mem_append_left _ hk)
      have hrun := run_mergedDb cmd hhead
      have hrest := ih (Function.update db side (cmd.run (db side)).2) (by
        rw [update_of_ne hother]
        exact htail)
      rw [update_self, Function.update_idem] at hrest
      show ((cmd, (cmd.run (mergedDb db)).1) :: (runQueue queue (cmd.run (mergedDb db)).2).1,
          (runQueue queue (cmd.run (mergedDb db)).2).2) = _
      rw [hrun]
      dsimp only
      rw [hrest]
      rfl
    | asking => exact ih db htail
    | multi => exact ih db htail
    | discard => exact ih db htail
    | exec => exact ih db htail

omit [DecidableEq K] in
theorem runQueue_frame : ∀ (queue : List (Wire K V R)) (db : K → Option V),
    k ∉ queue.flatMap Wire.keys → (runQueue queue db).2 k = db k := by
  intro queue
  induction queue with
  | nil =>
    intro db _
    rfl
  | cons w queue ih =>
    intro db hk
    have htail : k ∉ queue.flatMap Wire.keys := fun hm => hk (List.mem_append_right _ hm)
    cases w with
    | call cmd =>
      calc
        (runQueue (.call cmd :: queue) db).2 k = (cmd.run db).2 k := ih _ htail
        _ = db k := cmd.frame db k (fun hm => hk (List.mem_append_left _ hm))
    | asking => exact ih db htail
    | multi => exact ih db htail
    | discard => exact ih db htail
    | exec => exact ih db htail

inductive Request (K V R : Type) where
  | single (cmd : KeyCommand K V R)
  | group (cmds : List (KeyCommand K V R))

def Request.cmds : Request K V R → List (KeyCommand K V R)
  | .single cmd => [cmd]
  | .group cmds => cmds

def Request.keys (req : Request K V R) : List K := req.cmds.flatMap KeyCommand.keys

def Request.wires : Request K V R → List (Wire K V R)
  | .single cmd => [.call cmd]
  | .group cmds => .multi :: cmds.map .call ++ [.exec]

structure MigrationClient (K V R : Type) where
  request : Request K V R
  asked : Bool
  side : Side
  pending : List (Wire K V R)
  conns : Side → Conn K V R

structure MigrationState (K V R : Type) where
  view : Side → ClusterState
  db : Side → K → Option V
  client : ℕ → MigrationClient K V R
  log : List (KeyCommand K V R × R)

structure PlainRequest (hash : K → Slot) (s : Slot) (req : Request K V R) : Prop where
  proc : ∀ cmd ∈ req.cmds, cmd.proc ≠ .migrate
  asking : ∀ cmd ∈ req.cmds, cmd.asking = false
  slot : ∀ k ∈ req.keys, hash k = s

def migrateKey (db : Side → K → Option V) (k : K) (replace : Bool) : Side → K → Option V :=
  match db .source k with
  | none => db
  | some v =>
    if (db .target k).isSome && !replace then db
    else
      fun
        | .source => Function.update (db .source) k none
        | .target => Function.update (db .target) k (some v)

def OpenView (s : Slot) : Side → ClusterState → Prop
  | .source, cs => Migrating cs s
  | .target, cs => Importing cs s

def sendNext (cfg : Side → RoutingConfig K) (m : MigrationState K V R) (i : ℕ) (w : Wire K V R)
    (rest : List (Wire K V R)) : MigrationState K V R :=
  let cl := m.client i
  let side := cl.side
  let r := serveCommand (cfg side) (m.view side) (m.db side) (cl.conns side) w
  { view := m.view
    db := Function.update m.db side r.db
    client := Function.update m.client i { cl with
      pending := rest
      conns := Function.update cl.conns side r.conn
      asked := cl.asked || (decide (side = .source) && r.reply.isAsk) }
    log := m.log ++ r.ran }

inductive MigrationStep (cfg : Side → RoutingConfig K) (s : Slot) :
    MigrationState K V R → MigrationState K V R → Prop
  | request (m : MigrationState K V R) (i : ℕ) (req : Request K V R)
      (hidle : (m.client i).pending = [])
      (hplain : PlainRequest (cfg .source).keyHashSlot s req) :
      MigrationStep cfg s m { m with
        client := Function.update m.client i { m.client i with
          request := req
          asked := false
          side := .source
          pending := req.wires } }
  | follow (m : MigrationState K V R) (i : ℕ)
      (hidle : (m.client i).pending = [])
      (hasked : (m.client i).asked = true) :
      MigrationStep cfg s m { m with
        client := Function.update m.client i { m.client i with
          side := .target
          pending := .asking :: (m.client i).request.wires } }
  | send (m : MigrationState K V R) (i : ℕ) (w : Wire K V R) (rest : List (Wire K V R))
      (hnext : (m.client i).pending = w :: rest) :
      MigrationStep cfg s m (sendNext cfg m i w rest)
  | abandon (m : MigrationState K V R) (i : ℕ)
      (hmulti : ((m.client i).conns (m.client i).side).multi = true) :
      MigrationStep cfg s m { m with
        client := Function.update m.client i { m.client i with pending := [.discard] } }
  | migrate (m : MigrationState K V R) (k : K) (replace : Bool)
      (hslot : (cfg .source).keyHashSlot k = s) :
      MigrationStep cfg s m { m with db := migrateKey m.db k replace }
  | observe (m : MigrationState K V R) (side : Side) (cs : ClusterState)
      (hopen : OpenView s side cs) :
      MigrationStep cfg s m { m with view := Function.update m.view side cs }

structure Quiet (c : Conn K V R) : Prop where
  multi : c.multi = false
  dirty : c.dirtyExec = false
  asking : c.asking = false
  queue : c.queue = []

inductive Sending (req : Request K V R) : Conn K V R → List (Wire K V R) → Prop
  | idle (c : Conn K V R) (h : Quiet c) : Sending req c []
  | asking (c : Conn K V R) (h : Quiet c) : Sending req c (.asking :: req.wires)
  | ready (c : Conn K V R) (h : Quiet { c with asking := false }) : Sending req c req.wires
  | collecting (c : Conn K V R) (rest : List (KeyCommand K V R))
      (hmulti : c.multi = true)
      (hrest : ∀ cmd ∈ rest, cmd ∈ req.cmds)
      (hqueue : ∀ w ∈ c.queue, ∃ cmd ∈ req.cmds, w = .call cmd)
      (hall : c.dirtyExec = false → c.queue ++ rest.map .call = req.cmds.map .call) :
      Sending req c (rest.map .call ++ [.exec])
  | abandoning (c : Conn K V R) (hmulti : c.multi = true) : Sending req c [.discard]

variable {hash : K → Slot} {s : Slot} {req : Request K V R} {c : Conn K V R} {w : Wire K V R}
variable {rest : List (Wire K V R)} {cfg : RoutingConfig K} {cs : ClusterState} {db : K → Option V}

theorem serveCommand_isAsk (h : (serveCommand cfg cs db c w).reply.isAsk = true) :
    (getNodeByQuery cfg cs db c w).2 = .ask := by
  have hcall : ∀ w : Wire K V R, (queueOrCall db c w).reply.isAsk = false := by
    intro w
    unfold queueOrCall
    split_ifs
    · rfl
    · cases w <;> unfold callCommand <;> dsimp only <;> (try split_ifs) <;> rfl
  unfold serveCommand processCommand at h
  dsimp only at h
  split at h
  · split_ifs at h
    · exact of_decide_eq_true h
    · rw [hcall] at h
      cases h
  · split_ifs at h
    · exact of_decide_eq_true h
    · rw [hcall] at h
      cases h
  · rw [hcall] at h
    cases h

omit [DecidableEq K] in
theorem resetClient_discard (c : Conn K V R) (hw : w.isAsking = false) :
    Sending req (resetClient (discardTransaction c) w) [] := by
  unfold resetClient discardTransaction
  rw [if_pos ⟨rfl, hw⟩]
  exact Sending.idle _ ⟨rfl, rfl, rfl, rfl⟩

omit [DecidableEq K] in
theorem resetClient_single (h : Quiet { c with asking := false }) (hw : w.isAsking = false) :
    Sending req (resetClient c w) [] := by
  unfold resetClient
  rw [if_pos ⟨h.multi, hw⟩]
  exact Sending.idle _ h

omit [DecidableEq K] in
theorem queueOrCall_call (h : c.multi = false) : queueOrCall db c w = callCommand db c w := by
  unfold queueOrCall
  rw [h]
  rfl

omit [DecidableEq K] in
theorem resetClient_multi {c : Conn K V R} (h : c.multi = true) : resetClient c w = c := by
  unfold resetClient
  rw [if_neg (fun hm => absurd hm.1 (by rw [h]; decide))]

theorem collecting_next {cmds : List (KeyCommand K V R)} (hmulti : c.multi = true)
    (hrest : ∀ x ∈ cmd :: cmds, x ∈ req.cmds) (hqueue : ∀ w ∈ c.queue, ∃ x ∈ req.cmds, w = .call x)
    (hall : c.dirtyExec = false → c.queue ++ (cmd :: cmds).map .call = req.cmds.map .call) :
    Sending req (serveCommand cfg cs db c (.call cmd)).conn (cmds.map .call ++ [.exec]) := by
  have htail : ∀ x ∈ cmds, x ∈ req.cmds := fun x hx => hrest x (List.mem_cons_of_mem _ hx)
  unfold serveCommand processCommand
  dsimp only
  split_ifs
  · have hflag : flagTransaction c = { c with dirtyExec := true } := by
      unfold flagTransaction
      rw [if_pos hmulti]
    rw [hflag]
    rw [resetClient_multi (show ({ c with dirtyExec := true } : Conn K V R).multi = true from hmulti)]
    apply Sending.collecting { c with dirtyExec := true } cmds hmulti htail hqueue
    intro hd
    cases hd
  · have hq : queueOrCall db c (.call cmd) = ⟨db, queueMultiCommand c (.call cmd), .queued, []⟩ := by
      unfold queueOrCall
      rw [if_pos (by rw [hmulti]; rfl)]
    rw [hq]
    dsimp only
    unfold queueMultiCommand
    by_cases hdirty : c.dirtyExec = true
    · rw [if_pos hdirty, resetClient_multi hmulti]
      apply Sending.collecting _ _ hmulti htail hqueue
      intro hd
      rw [hdirty] at hd
      cases hd
    · let c' : Conn K V R := { c with queue := c.queue ++ [.call cmd] }
      have hc' : resetClient c' (.call cmd) = c' := resetClient_multi hmulti
      rw [if_neg hdirty, hc']
      apply Sending.collecting c' cmds hmulti htail
      · intro w hw
        rcases List.mem_append.mp hw with hw | hw
        · exact hqueue w hw
        · exact ⟨cmd, hrest cmd mem_cons_self, mem_singleton.mp hw⟩
      · intro _
        have := hall (Bool.eq_false_iff.mpr hdirty)
        calc
          (c.queue ++ [.call cmd]) ++ cmds.map .call = c.queue ++ (cmd :: cmds).map .call := by simp
          _ = req.cmds.map .call := this

theorem Sending.next (h : Sending req c (w :: rest)) :
    Sending req (serveCommand cfg cs db c w).conn rest := by
  generalize hp : w :: rest = pending at h
  cases h with
  | idle hq => cases hp
  | asking hq =>
    cases hp
    have hserve : (serveCommand cfg cs db c .asking).conn = { c with asking := true } := by
      unfold serveCommand processCommand
      dsimp only
      rw [queueOrCall_call hq.multi]
      show resetClient { c with asking := true } (.asking : Wire K V R) = _
      unfold resetClient
      rw [if_neg (fun hm => by cases hm.2)]
    rw [hserve]
    exact Sending.ready _ ⟨hq.multi, hq.dirty, rfl, hq.queue⟩
  | ready hq =>
    have hmulti : c.multi = false := hq.multi
    cases hreq : req with
    | single cmd =>
      rw [hreq] at hp
      cases hp
      unfold serveCommand processCommand
      dsimp only
      split_ifs
      · have hflag : flagTransaction c = c := by
          unfold flagTransaction
          rw [hmulti]
          rfl
        rw [hflag]
        exact resetClient_single hq rfl
      · have hcall : (queueOrCall db c (.call cmd)).conn = c := by
          rw [queueOrCall_call hmulti]
          rfl
        rw [hcall]
        exact resetClient_single hq rfl
    | group cmds =>
      rw [hreq] at hp
      cases hp
      have hserve : (serveCommand cfg cs db c .multi).conn = { c with multi := true } := by
        unfold serveCommand processCommand
        dsimp only
        rw [queueOrCall_call hmulti]
        unfold callCommand
        rw [hmulti]
        rfl
      rw [hserve]
      apply Sending.collecting _ _ rfl (fun x hx => hx)
      · intro w hw
        have hnil : c.queue = [] := hq.queue
        rw [hnil] at hw
        cases hw
      · intro _
        have hnil : c.queue = [] := hq.queue
        rw [hnil]
        rfl
  | collecting cmds hmulti hrest hqueue hall =>
    cases cmds with
    | nil =>
      cases hp
      unfold serveCommand processCommand
      dsimp only
      split_ifs
      · exact resetClient_discard c rfl
      · have hexec : (queueOrCall db c .exec).conn = discardTransaction c := by
          unfold queueOrCall callCommand
          rw [hmulti]
          dsimp only
          split_ifs <;> first | rfl | contradiction
        rw [hexec]
        exact resetClient_discard c rfl
    | cons cmd cmds =>
      cases hp
      exact collecting_next hmulti hrest hqueue hall
  | abandoning hmulti =>
    cases hp
    have hdiscard : (processCommand cfg cs db c .discard).conn = discardTransaction c := by
      unfold processCommand queueOrCall callCommand
      rw [hmulti]
      rfl
    unfold serveCommand
    dsimp only
    rw [hdiscard]
    exact resetClient_discard c rfl

omit [DecidableEq K] in
theorem Sending.quiet (h : Sending req c []) : Quiet c := by
  generalize hp : ([] : List (Wire K V R)) = pending at h
  cases h with
  | idle hq => exact hq
  | asking hq => cases hp
  | ready hq =>
    cases req with
    | single cmd => cases hp
    | group cmds => cases hp
  | collecting cmds hmulti hrest hqueue hall =>
    have := congrArg List.length hp
    simp at this
  | abandoning hmulti => cases hp

omit [DecidableEq K] in
theorem Sending.keys (h : Sending req c (w :: rest)) : ∀ w' ∈ queried c w,
    w'.isMigrate = false ∧ w'.asks = false ∧ w'.keys = [] ∨ ∃ cmd ∈ req.cmds, w' = .call cmd := by
  have hself : ∀ w' ∈ [w], w.keys = [] → w.isMigrate = false → w.asks = false →
      w'.isMigrate = false ∧ w'.asks = false ∧ w'.keys = [] ∨ ∃ cmd ∈ req.cmds, w' = .call cmd := by
    intro w' hw' hkeys hmigrate hasks
    rw [mem_singleton.mp hw']
    exact Or.inl ⟨hmigrate, hasks, hkeys⟩
  intro w' hw'
  generalize hp : w :: rest = pending at h
  cases h with
  | idle hq => cases hp
  | asking hq =>
    cases hp
    exact hself w' hw' rfl rfl rfl
  | ready hq =>
    cases hreq : req with
    | single cmd =>
      rw [hreq] at hp
      cases hp
      right
      exact ⟨cmd, mem_singleton.mpr rfl, mem_singleton.mp hw'⟩
    | group cmds =>
      rw [hreq] at hp
      cases hp
      rw [← hreq]
      exact hself w' hw' rfl rfl rfl
  | collecting cmds hmulti hrest hqueue hall =>
    cases cmds with
    | nil =>
      cases hp
      exact Or.inr (hqueue w' hw')
    | cons cmd cmds =>
      cases hp
      right
      exact ⟨cmd, hrest cmd mem_cons_self, mem_singleton.mp hw'⟩
  | abandoning hmulti =>
    cases hp
    exact hself w' hw' rfl rfl rfl

omit [DecidableEq K] in
theorem Sending.keys_mem (h : Sending req c (w :: rest)) : ∀ k ∈ queriedKeys c w, k ∈ req.keys := by
  intro k hk
  obtain ⟨w', hw', hkw⟩ := List.mem_flatMap.mp hk
  rcases h.keys w' hw' with ⟨-, -, hnil⟩ | ⟨cmd, hcmd, rfl⟩
  · rw [hnil] at hkw
    cases hkw
  · exact List.mem_flatMap.mpr ⟨cmd, hcmd, hkw⟩

omit [DecidableEq K] in
theorem Sending.routed (h : Sending req c (w :: rest)) (hplain : PlainRequest hash s req)
    (hhash : cfg.keyHashSlot = hash) (hredirects : cfg.moduleNoRedirection = false) :
    Routed cfg s c w := by
  have hslot : ∀ k ∈ queriedKeys c w, cfg.keyHashSlot k = s := by
    intro k hk
    rw [hhash]
    exact hplain.slot k (h.keys_mem k hk)
  by_cases hexec : w = .exec
  · refine ⟨hredirects, fun _ => ?_, by rw [hexec]; rfl, by rw [hexec]; rfl, hslot⟩
    rw [hexec] at h
    generalize hp : Wire.exec :: rest = pending at h
    cases h with
    | idle hq => cases hp
    | asking hq => cases hp
    | ready hq => cases req <;> cases hp
    | collecting cmds hmulti hrest hqueue hall => exact hmulti
    | abandoning hmulti => exact hmulti
  · have hw : w ∈ queried c w := by
      cases w with
      | exec => exact absurd rfl hexec
      | asking => exact mem_singleton.mpr rfl
      | multi => exact mem_singleton.mpr rfl
      | discard => exact mem_singleton.mpr rfl
      | call cmd => exact mem_singleton.mpr rfl
    rcases h.keys w hw with ⟨hmigrate, hasks, -⟩ | ⟨cmd, hcmd, hcall⟩
    · exact ⟨hredirects, fun he => absurd he hexec, hmigrate, hasks, hslot⟩
    · refine ⟨hredirects, fun he => absurd he hexec, ?_, ?_, hslot⟩
      · rw [hcall]
        exact decide_eq_false (hplain.proc cmd hcmd)
      · rw [hcall]
        exact hplain.asking cmd hcmd

variable (cfg cs db) in
theorem Sending.executes (h : Sending req c (w :: rest)) :
    ((serveCommand cfg cs db c w).ran = [] ∧ (serveCommand cfg cs db c w).db = db) ∨
    ((getNodeByQuery cfg cs db c w).1 = some cs.myself ∧ queried c w = req.cmds.map .call ∧
      (serveCommand cfg cs db c w).ran = (runQueue (queried c w) db).1 ∧
      (serveCommand cfg cs db c w).db = (runQueue (queried c w) db).2) := by
  generalize hp : w :: rest = pending at h
  cases h with
  | idle hq => cases hp
  | asking hq =>
    cases hp
    left
    unfold serveCommand processCommand
    dsimp only
    rw [queueOrCall_call hq.multi]
    exact ⟨rfl, rfl⟩
  | ready hq =>
    have hmulti : c.multi = false := hq.multi
    cases hreq : req with
    | single cmd =>
      rw [hreq] at hp
      cases hp
      unfold serveCommand processCommand
      dsimp only
      split_ifs with hself
      · exact Or.inl ⟨rfl, rfl⟩
      · right
        rw [queueOrCall_call hmulti]
        exact ⟨not_not.mp hself, rfl, rfl, rfl⟩
    | group cmds =>
      rw [hreq] at hp
      cases hp
      left
      unfold serveCommand processCommand
      dsimp only
      rw [queueOrCall_call hmulti]
      unfold callCommand
      rw [hmulti]
      exact ⟨rfl, rfl⟩
  | collecting cmds hmulti hrest hqueue hall =>
    cases cmds with
    | nil =>
      cases hp
      unfold serveCommand processCommand
      dsimp only
      split_ifs with hself
      · exact Or.inl ⟨rfl, rfl⟩
      · have hexec : queueOrCall db c .exec = callCommand db c .exec := by
          unfold queueOrCall
          rw [if_neg (by rw [hmulti]; exact Bool.false_ne_true)]
        rw [hexec]
        unfold callCommand
        dsimp only
        rw [if_neg (by rw [hmulti]; decide)]
        by_cases hdirty : c.dirtyExec = true
        · rw [if_pos hdirty]
          exact Or.inl ⟨rfl, rfl⟩
        · right
          rw [if_neg hdirty]
          have hq := hall (Bool.eq_false_iff.mpr hdirty)
          rw [List.map_nil, List.append_nil] at hq
          exact ⟨not_not.mp hself, hq, rfl, rfl⟩
    | cons cmd cmds =>
      cases hp
      left
      unfold serveCommand processCommand
      dsimp only
      split_ifs
      · exact ⟨rfl, rfl⟩
      · unfold queueOrCall
        rw [if_pos (by rw [hmulti]; rfl)]
        exact ⟨rfl, rfl⟩
  | abandoning hmulti =>
    cases hp
    left
    unfold serveCommand processCommand queueOrCall callCommand
    rw [hmulti]
    exact ⟨rfl, rfl⟩

theorem serveCommand_asking (h : (serveCommand cfg cs db c w).conn.asking = true) :
    c.asking = true ∨ w.isAsking = true := by
  have hreset : ∀ c' : Conn K V R, (resetClient c' w).asking = true → c'.asking = true := by
    intro c' hc'
    unfold resetClient at hc'
    split_ifs at hc'
    · exact hc'
  have hqueue : (queueOrCall db c w).conn.asking = true → c.asking = true ∨ w.isAsking = true := by
    intro hq
    unfold queueOrCall at hq
    split_ifs at hq
    · left
      unfold queueMultiCommand at hq
      dsimp only at hq
      split_ifs at hq <;> exact hq
    · cases w <;> unfold callCommand at hq <;> dsimp only at hq <;> (try split_ifs at hq) <;>
        first | exact Or.inr rfl | exact Or.inl hq
  have hflag : (flagTransaction c).asking = c.asking := by
    unfold flagTransaction
    split_ifs <;> rfl
  have hconn := hreset _ h
  unfold processCommand at hconn
  dsimp only at hconn
  split at hconn
  · split_ifs at hconn
    · exact Or.inl hconn
    · exact hqueue hconn
  · split_ifs at hconn
    · rw [hflag] at hconn
      exact Or.inl hconn
    · exact hqueue hconn
  · exact hqueue hconn

structure ClientSafe (hash : K → Slot) (s : Slot) (source : K → Option V)
    (cl : MigrationClient K V R) : Prop where
  plain : PlainRequest hash s cl.request
  asked : cl.asked = true → ∃ k ∈ cl.request.keys, source k = none
  asks : ∀ w ∈ cl.pending, w.isAsking = true → cl.asked = true
  asking : ∀ side, (cl.conns side).asking = true → cl.asked = true
  sending : Sending cl.request (cl.conns cl.side) cl.pending
  quiet : Quiet (cl.conns cl.side.other)

def Unforked (hash : K → Slot) (s : Slot) (db : Side → K → Option V) : Prop :=
  ∀ k, hash k = s → db .source k = none ∨ db .target k = none

structure MigrationSafe (hash : K → Slot) (s : Slot) (init : K → Option V) (m : MigrationState K V R) :
    Prop where
  views : ∀ side, OpenView s side (m.view side)
  unforked : Unforked hash s m.db
  clients : ∀ i, ClientSafe hash s (m.db .source) (m.client i)
  replays : Replays m.log init (mergedDb m.db)

variable {source source' : K → Option V} {cl : MigrationClient K V R} {db2 : Side → K → Option V}
variable {init : K → Option V} {m m' : MigrationState K V R}

omit [DecidableEq K] in
theorem ClientSafe.mono (h : ClientSafe hash s source cl)
    (hlost : ∀ k, hash k = s → source k = none → source' k = none) : ClientSafe hash s source' cl := by
  refine ⟨h.plain, fun ha => ?_, h.asks, h.asking, h.sending, h.quiet⟩
  obtain ⟨k, hk, hnone⟩ := h.asked ha
  exact ⟨k, hk, hlost k (h.plain.slot k hk) hnone⟩

omit [DecidableEq K] in
theorem Unforked.other (h : Unforked hash s db2) (side : Side) (hk : hash k = s)
    (hhere : db2 side k ≠ none) : db2 side.other k = none := by
  cases side with
  | source => exact (h k hk).resolve_left hhere
  | target => exact (h k hk).resolve_right hhere

theorem ClientSafe.alone (h : ClientSafe hash s (db2 .source) cl) (hu : Unforked hash s db2)
    (hview : OpenView s cl.side cs) (hnext : cl.pending = w :: rest)
    (hhash : cfg.keyHashSlot = hash) (hredirects : cfg.moduleNoRedirection = false)
    (hself : (getNodeByQuery cfg cs (db2 cl.side) (cl.conns cl.side) w).1 = some cs.myself)
    (hall : queried (cl.conns cl.side) w = cl.request.cmds.map .call) :
    ∀ k ∈ queriedKeys (cl.conns cl.side) w, db2 cl.side.other k = none ∧
      (cl.side = .source → db2 .source k ≠ none) := by
  have hsend : Sending cl.request (cl.conns cl.side) (w :: rest) := by
    rw [← hnext]
    exact h.sending
  have hrouted := hsend.routed h.plain hhash hredirects
  have hslot : ∀ k ∈ queriedKeys (cl.conns cl.side) w, hash k = s := fun k hk =>
    h.plain.slot k (hsend.keys_mem k hk)
  cases hside : cl.side with
  | source =>
    rw [hside] at hview hself hrouted hslot
    have hpresent := Migrating.serves hview hrouted hself
    intro k hk
    exact ⟨hu.other .source (hslot k hk) (hpresent k hk), fun _ => hpresent k hk⟩
  | target =>
    rw [hside] at hview hself hrouted hslot hall
    intro k hk
    refine ⟨?_, fun hs => by cases hs⟩
    show db2 .source k = none
    rcases Importing.serves hview hrouted hself with hnil | ⟨hasking, hserved⟩
    · rw [hnil] at hk
      cases hk
    · rcases hserved with hpresent | ⟨k₀, hone⟩
      · exact hu.other .target (hslot k hk) (hpresent k hk)
      · -- the one key is the key that the source lacks
        obtain ⟨k', hk', hnone⟩ := h.asked (h.asking .target hasking)
        have hkeys : k' ∈ queriedKeys (cl.conns .target) w := by
          unfold queriedKeys
          rw [hall, List.flatMap_map]
          exact hk'
        rw [hone k hk, ← hone k' hkeys]
        exact hnone

theorem Unforked.run {queue : List (Wire K V R)} (h : Unforked hash s db2)
    (halone : ∀ k ∈ queue.flatMap Wire.keys, db2 side.other k = none) :
    Unforked hash s (Function.update db2 side (runQueue queue (db2 side)).2) := by
  intro k hk
  by_cases hmem : k ∈ queue.flatMap Wire.keys
  · cases side with
    | source =>
      right
      rw [update_of_ne (by decide)]
      exact halone k hmem
    | target =>
      left
      rw [update_of_ne (by decide)]
      exact halone k hmem
  · have hframe : ∀ x, Function.update db2 side (runQueue queue (db2 side)).2 x k = db2 x k := by
      intro x
      by_cases hx : x = side
      · rw [hx, update_self]
        exact runQueue_frame queue _ hmem
      · rw [update_of_ne hx]
    rw [hframe, hframe]
    exact h k hk

theorem migrateKey_unforked (h : Unforked hash s db2) :
    Unforked hash s (migrateKey db2 k replace) := by
  unfold migrateKey
  split
  · exact h
  · split_ifs
    · exact h
    · intro x hx
      by_cases hxk : x = k
      · left
        rw [hxk]
        exact update_self k none (db2 .source)
      · show Function.update (db2 .source) k none x = none ∨ Function.update (db2 .target) k _ x = none
        rw [update_of_ne hxk, update_of_ne hxk]
        exact h x hx

theorem migrateKey_lost {x : K} (hx : db2 .source x = none) :
    migrateKey db2 k replace .source x = none := by
  unfold migrateKey
  cases db2 .source k with
  | none => exact hx
  | some v =>
    dsimp only
    split_ifs
    · exact hx
    · show Function.update (db2 .source) k none x = none
      by_cases hxk : x = k
      · rw [hxk, update_self]
      · rw [update_of_ne hxk]
        exact hx

theorem migrateKey_merged (h : Unforked hash s db2) (hk : hash k = s) :
    mergedDb (migrateKey db2 k replace) = mergedDb db2 := by
  unfold migrateKey
  split
  · rfl
  · rename_i v hv
    have htarget : db2 .target k = none := h.other .source hk (by rw [hv]; exact fun hn => by cases hn)
    split_ifs with hrefused
    · rfl
    · funext x
      show (Function.update (db2 .source) k none x).or (Function.update (db2 .target) k (some v) x) =
        (db2 .source x).or (db2 .target x)
      by_cases hxk : x = k
      · rw [hxk, update_self, update_self, hv, htarget]
        rfl
      · rw [update_of_ne hxk, update_of_ne hxk]

variable {cfgs : Side → RoutingConfig K}

/-- The nodes hash keys alike, and no module has turned their redirections off. -/
structure Configured (hash : K → Slot) (cfgs : Side → RoutingConfig K) : Prop where
  hash : ∀ side, (cfgs side).keyHashSlot = hash
  redirects : ∀ side, (cfgs side).moduleNoRedirection = false

omit [DecidableEq K] in
theorem clients_update {client : ℕ → MigrationClient K V R} {cl : MigrationClient K V R}
    (h : ∀ j, ClientSafe hash s source (client j)) (hcl : ClientSafe hash s source cl) :
    ∀ j, ClientSafe hash s source (Function.update client i cl j) := by
  intro j
  by_cases hj : j = i
  · rw [hj, update_self]
    exact hcl
  · rw [update_of_ne hj]
    exact h j

omit [DecidableEq K] in
theorem ClientSafe.bothQuiet (h : ClientSafe hash s source cl) (hidle : cl.pending = []) :
    ∀ side, Quiet (cl.conns side) := by
  have hhere : Quiet (cl.conns cl.side) := Sending.quiet (hidle ▸ h.sending)
  intro side
  have hcases : side = cl.side ∨ side = cl.side.other := by
    cases side <;> cases cl.side <;> decide
  rcases hcases with hs | hs
  · rw [hs]
    exact hhere
  · rw [hs]
    exact h.quiet

omit [DecidableEq K] in
theorem Request.wires_notAsking (req : Request K V R) : ∀ w ∈ req.wires, w.isAsking = false := by
  intro w hw
  cases req with
  | single cmd =>
    rw [mem_singleton.mp hw]
    rfl
  | group cmds =>
    rcases List.mem_cons.mp hw with rfl | hw
    · rfl
    · rcases List.mem_append.mp hw with hw | hw
      · obtain ⟨cmd, -, rfl⟩ := List.mem_map.mp hw
        rfl
      · rw [mem_singleton.mp hw]
        rfl

omit [DecidableEq K] in
theorem ClientSafe.request (h : ClientSafe hash s source cl) (hidle : cl.pending = [])
    (hplain : PlainRequest hash s req) :
    ClientSafe hash s source { cl with
      request := req, asked := false, side := .source, pending := req.wires } := by
  have hquiet := h.bothQuiet hidle
  refine ⟨hplain, fun ha => absurd ha Bool.false_ne_true, fun w hw hask => ?_, fun side ha => ?_, ?_,
    hquiet _⟩
  · rw [req.wires_notAsking w hw] at hask
    cases hask
  · rw [(hquiet side).asking] at ha
    cases ha
  · have hq := hquiet .source
    exact Sending.ready _ ⟨hq.multi, hq.dirty, rfl, hq.queue⟩

omit [DecidableEq K] in
theorem ClientSafe.follow (h : ClientSafe hash s source cl) (hidle : cl.pending = [])
    (hasked : cl.asked = true) :
    ClientSafe hash s source { cl with side := .target, pending := .asking :: cl.request.wires } := by
  have hquiet := h.bothQuiet hidle
  exact ⟨h.plain, h.asked, fun _ _ _ => hasked, fun _ _ => hasked, Sending.asking _ (hquiet .target),
    hquiet _⟩

omit [DecidableEq K] in
theorem ClientSafe.abandon (h : ClientSafe hash s source cl) (hmulti : (cl.conns cl.side).multi = true) :
    ClientSafe hash s source { cl with pending := [.discard] } := by
  refine ⟨h.plain, h.asked, fun w hw hask => ?_, h.asking, Sending.abandoning _ hmulti, h.quiet⟩
  rw [mem_singleton.mp hw] at hask
  cases hask

variable (cfg cs db) in
theorem ClientSafe.send (h : ClientSafe hash s source cl) (hnext : cl.pending = w :: rest)
    (hhash : cfg.keyHashSlot = hash) (hredirects : cfg.moduleNoRedirection = false)
    (hview : OpenView s cl.side cs) (hdb : cl.side = .source → db = source) :
    ClientSafe hash s source { cl with
      pending := rest
      conns := Function.update cl.conns cl.side (serveCommand cfg cs db (cl.conns cl.side) w).conn
      asked := cl.asked ||
        (decide (cl.side = .source) && (serveCommand cfg cs db (cl.conns cl.side) w).reply.isAsk) } := by
  have hsend : Sending cl.request (cl.conns cl.side) (w :: rest) := by
    rw [← hnext]
    exact h.sending
  have hasked : cl.asked = true → (cl.asked || (decide (cl.side = .source) &&
      (serveCommand cfg cs db (cl.conns cl.side) w).reply.isAsk)) = true := by
    intro ha
    rw [ha]
    rfl
  refine ⟨h.plain, fun ha => ?_, fun w' hw' hask => ?_, fun side ha => ?_, ?_, ?_⟩
  · rcases (Bool.or_eq_true _ _).mp ha with ha | ha
    · exact h.asked ha
    · -- the source has answered with an ASK redirection
      have hside := of_decide_eq_true ((Bool.and_eq_true _ _).mp ha).1
      have hreply := serveCommand_isAsk ((Bool.and_eq_true _ _).mp ha).2
      have hrouted := hsend.routed h.plain hhash hredirects
      rw [hdb hside] at hreply
      rw [hside] at hview
      obtain ⟨k, hk, hnone⟩ := Migrating.asks hview hrouted hreply
      exact ⟨k, hsend.keys_mem k hk, hnone⟩
  · apply hasked
    apply h.asks w' _ hask
    rw [hnext]
    exact List.mem_cons_of_mem _ hw'
  · apply hasked
    by_cases hs : side = cl.side
    · dsimp only at ha
      rw [hs, update_self] at ha
      rcases serveCommand_asking ha with ha | ha
      · exact h.asking _ ha
      · apply h.asks w _ ha
        rw [hnext]
        exact mem_cons_self
    · dsimp only at ha
      rw [update_of_ne hs] at ha
      exact h.asking side ha
  · show Sending _ (Function.update cl.conns cl.side _ cl.side) _
    rw [update_self]
    exact hsend.next
  · show Quiet (Function.update cl.conns cl.side _ cl.side.other)
    rw [update_of_ne (by cases cl.side <;> decide)]
    exact h.quiet

theorem MigrationSafe.send (hcfg : Configured hash cfgs) (h : MigrationSafe hash s init m)
    (hnext : (m.client i).pending = w :: rest) :
    MigrationSafe hash s init (sendNext cfgs m i w rest) := by
  have hcl := h.clients i
  have hsend : Sending (m.client i).request ((m.client i).conns (m.client i).side) (w :: rest) := by
    rw [← hnext]
    exact hcl.sending
  have hview := h.views (m.client i).side
  have hafter := hcl.send (cfgs (m.client i).side) (m.view (m.client i).side)
    (m.db (m.client i).side) hnext (hcfg.hash _) (hcfg.redirects _) hview (fun hs => by rw [hs])
  rcases hsend.executes (cfgs (m.client i).side) (m.view (m.client i).side)
    (m.db (m.client i).side) with ⟨hran, hdb⟩ | ⟨hself, hall, hran, hdb⟩
  · have hsame : (sendNext cfgs m i w rest).db = m.db := by
      show Function.update m.db _ _ = m.db
      rw [hdb, update_eq_self]
    refine ⟨h.views, ?_, ?_, ?_⟩
    · rw [hsame]
      exact h.unforked
    · rw [hsame]
      exact clients_update h.clients hafter
    · rw [hsame]
      show Replays (m.log ++ _) _ _
      rw [hran, List.append_nil]
      exact h.replays
  · have halone := hcl.alone h.unforked hview hnext (hcfg.hash _) (hcfg.redirects _) hself hall
    have hdb' : (sendNext cfgs m i w rest).db = Function.update m.db (m.client i).side
        (runQueue (queried ((m.client i).conns (m.client i).side) w) (m.db (m.client i).side)).2 := by
      show Function.update m.db _ _ = _
      rw [hdb]
    have hlost : ∀ k, hash k = s → m.db .source k = none →
        (sendNext cfgs m i w rest).db .source k = none := by
      intro k _ hnone
      rw [hdb']
      by_cases hside : (m.client i).side = .source
      · rw [hside, update_self]
        rw [runQueue_frame, hnone]
        intro hk
        rw [hside] at halone
        exact (halone k hk).2 rfl hnone
      · rw [update_of_ne (fun he => hside he.symm)]
        exact hnone
    refine ⟨h.views, ?_, ?_, ?_⟩
    · rw [hdb']
      exact h.unforked.run (fun k hk => (halone k hk).1)
    · exact clients_update (fun j => (h.clients j).mono hlost) (hafter.mono hlost)
    · show Replays (m.log ++ _) _ _
      apply h.replays.append
      have hmerged := runQueue_mergedDb _ m.db (fun k hk => (halone k hk).1)
      have hreplay := runQueue_replays (queried ((m.client i).conns (m.client i).side) w) (mergedDb m.db)
      rw [hmerged] at hreplay
      rw [hran, hdb']
      exact hreplay

theorem MigrationSafe.step (hcfg : Configured hash cfgs) (h : MigrationSafe hash s init m)
    (hstep : MigrationStep cfgs s m m') : MigrationSafe hash s init m' := by
  cases hstep with
  | request i req hidle hplain =>
    rw [hcfg.hash] at hplain
    exact ⟨h.views, h.unforked, clients_update h.clients ((h.clients i).request hidle hplain), h.replays⟩
  | follow i hidle hasked =>
    exact ⟨h.views, h.unforked, clients_update h.clients ((h.clients i).follow hidle hasked), h.replays⟩
  | send i w rest hnext => exact h.send hcfg hnext
  | abandon i hmulti =>
    exact ⟨h.views, h.unforked, clients_update h.clients ((h.clients i).abandon hmulti), h.replays⟩
  | migrate k replace hslot =>
    rw [hcfg.hash] at hslot
    refine ⟨h.views, migrateKey_unforked h.unforked, fun i => ?_, ?_⟩
    · exact (h.clients i).mono (fun x _ hx => migrateKey_lost hx)
    · show Replays m.log init (mergedDb (migrateKey m.db k replace))
      rw [migrateKey_merged h.unforked hslot]
      exact h.replays
  | observe side cs hopen =>
    refine ⟨fun x => ?_, h.unforked, h.clients, h.replays⟩
    by_cases hx : x = side
    · rw [hx]
      show OpenView s side (Function.update m.view side cs side)
      rw [update_self]
      exact hopen
    · show OpenView s x (Function.update m.view side cs x)
      rw [update_of_ne hx]
      exact h.views x

/-- The slot has been opened, no key of it is on both nodes, and no request is under way. -/
structure MigrationStart (hash : K → Slot) (s : Slot) (m : MigrationState K V R) : Prop where
  views : ∀ side, OpenView s side (m.view side)
  unforked : Unforked hash s m.db
  request : ∀ i, (m.client i).request.cmds = []
  asked : ∀ i, (m.client i).asked = false
  pending : ∀ i, (m.client i).pending = []
  quiet : ∀ i side, Quiet ((m.client i).conns side)
  log : m.log = []

omit [DecidableEq K] in
theorem MigrationStart.safe (h : MigrationStart hash s m) : MigrationSafe hash s (mergedDb m.db) m := by
  refine ⟨h.views, h.unforked, fun i => ?_, ?_⟩
  · have hplain : PlainRequest hash s (m.client i).request := by
      refine ⟨fun cmd hc => ?_, fun cmd hc => ?_, fun k hk => ?_⟩
      · rw [h.request] at hc
        cases hc
      · rw [h.request] at hc
        cases hc
      · unfold Request.keys at hk
        rw [h.request] at hk
        cases hk
    refine ⟨hplain, fun ha => ?_, fun w hw _ => ?_, fun side ha => ?_, ?_, h.quiet i _⟩
    · rw [h.asked] at ha
      cases ha
    · rw [h.pending] at hw
      cases hw
    · rw [(h.quiet i side).asking] at ha
      cases ha
    · rw [h.pending]
      exact Sending.idle _ (h.quiet i _)
  · rw [h.log]
    rfl

theorem MigrationSafe.run (hcfg : Configured hash cfgs) (h : MigrationSafe hash s init m)
    (hrun : Relation.ReflTransGen (MigrationStep cfgs s) m m') : MigrationSafe hash s init m' := by
  induction hrun with
  | refl => exact h
  | tail _ hstep ih => exact ih.step hcfg hstep

def getCommand (k : ℕ) : KeyCommand ℕ ℕ (Option ℕ) :=
  { proc := .other
    readonly := true
    asking := false
    keys := [k]
    run := fun db => (db k, db)
    frame := fun _ _ _ => rfl
    reads := fun _ _ h => ⟨h k mem_cons_self, h⟩ }

def setCommand (k v : ℕ) : KeyCommand ℕ ℕ (Option ℕ) :=
  { proc := .other
    readonly := false
    asking := false
    keys := [k]
    run := fun db => (none, Function.update db k (some v))
    frame := fun db x hx => update_of_ne (List.ne_of_not_mem_cons hx) _ db
    reads := fun db db' _ => by
      refine ⟨rfl, fun x hx => ?_⟩
      rw [mem_singleton.mp hx]
      exact (update_self k _ db).trans (update_self k _ db').symm }

def openCfg : Side → RoutingConfig ℕ := fun _ =>
  { moduleNoRedirection := false
    allowReadsWhenDown := false
    keyHashSlot := fun _ => 0 }

def openViews : Side → ClusterState
  | .source => { emptyCluster with
      myself := 1
      state := .ok
      slots := fun _ => some 1
      migratingSlotsTo := fun _ => some 2 }
  | .target => { emptyCluster with
      myself := 2
      state := .ok
      slots := fun _ => some 1
      importingSlotsFrom := fun _ => some 1 }

def openState : MigrationState ℕ ℕ (Option ℕ) :=
  { view := openViews
    db := fun
      | .source => Function.update (fun _ => none) 7 (some 5)
      | .target => fun _ => none
    client := fun _ =>
      { request := .group []
        asked := false
        side := .source
        pending := []
        conns := fun _ => freshConn }
    log := [] }

theorem openViews_open (side : Side) : OpenView 0 side (openViews side) := by
  cases side with
  | source => exact ⟨rfl, 2, by decide, rfl⟩
  | target => exact ⟨⟨1, by decide, rfl⟩, rfl, rfl⟩

theorem openState_start : MigrationStart (fun _ => 0) 0 openState :=
  { views := openViews_open
    unforked := fun _ _ => Or.inr rfl
    request := fun _ => rfl
    asked := fun _ => rfl
    pending := fun _ => rfl
    quiet := fun _ _ => ⟨rfl, rfl, rfl, rfl⟩
    log := rfl }

theorem plainRequest_single {cmd : KeyCommand ℕ ℕ (Option ℕ)} (hproc : cmd.proc ≠ .migrate)
    (hasking : cmd.asking = false) : PlainRequest (fun _ => 0) 0 (.single cmd) := by
  refine ⟨fun x hx => ?_, fun x hx => ?_, fun _ _ => rfl⟩
  · rw [mem_singleton.mp hx]
    exact hproc
  · rw [mem_singleton.mp hx]
    exact hasking

theorem openState_run : ∃ m', Relation.ReflTransGen (MigrationStep openCfg 0) openState m' ∧
    m'.log.map Prod.snd = [some 5, none] := by
  -- a read at the source
  have hread : MigrationStep openCfg 0 openState _ := MigrationStep.request openState 0
    (.single (getCommand 7)) rfl (plainRequest_single (by decide) rfl)
  have h0 := Relation.ReflTransGen.single hread
  have h1 := h0.tail (MigrationStep.send _ 0 _ _ rfl)
  -- the key moves
  have h2 := h1.tail (MigrationStep.migrate _ 7 false rfl)
  -- a write, which the source redirects
  have h3 := h2.tail (MigrationStep.request _ 0 (.single (setCommand 7 9)) rfl
    (plainRequest_single (by decide) rfl))
  have h4 := h3.tail (MigrationStep.send _ 0 _ _ rfl)
  have h5 := h4.tail (MigrationStep.follow _ 0 rfl rfl)
  have h6 := h5.tail (MigrationStep.send _ 0 _ _ rfl)
  have h7 := h6.tail (MigrationStep.send _ 0 _ _ rfl)
  exact ⟨_, h7, rfl⟩

end RedisCore.Cluster
