import RedisCore.BlockingBalance

namespace RedisCore.Blocking

variable {α : Type} {ok : Prop}

def ExecAnnounced (c : ClientId) : State α → List (ℕ × Command α) → Prop
  | _, [] => True
  | s, cmd :: cmds => Announced s cmd ∧ ExecAnnounced c (runCommand c true s cmd) cmds

def EventAnnounced (s : State α) : Event α → Prop
  | .command c cmd => s.client c = none → Announced s cmd
  | .exec c cmds => s.client c = none → ExecAnnounced c s cmds
  | .timeout _ => True

def RunAnnounced : State α → List (Event α) → Prop
  | _, [] => True
  | s, e :: es => EventAnnounced s e ∧ RunAnnounced (stepEvent s e) es

theorem sound_exec (c : ClientId) (cmds : List (ℕ × Command α)) {s : State α} (h : Sound ok [] none none s)
    (hcmds : ok → ExecAnnounced c s cmds) : Sound ok [] none none (cmds.foldl (runCommand c true) s) := by
  induction cmds generalizing s with
  | nil => exact h
  | cons cmd cmds ih =>
    apply ih
    · apply sound_runCommand h c true
      · intro hmulti
        cases hmulti
      · intro hok
        exact (hcmds hok).1
    · intro hok
      exact (hcmds hok).2

theorem step_command (s : State α) (c : ClientId) (cmd : ℕ × Command α) :
    (s.client c = none ∧ stepEvent s (.command c cmd) = handleClientsBlockedOnKeys (runCommand c false s cmd)) ∨
      stepEvent s (.command c cmd) = s := by
  cases hc : s.client c with
  | none =>
    left
    simp only [stepEvent, hc, Option.isNone_none, if_true, and_self]
  | some b =>
    right
    simp only [stepEvent, hc, Option.isNone_some, Bool.false_eq_true, if_false]

theorem step_exec (s : State α) (c : ClientId) (cmds : List (ℕ × Command α)) :
    (s.client c = none ∧
      stepEvent s (.exec c cmds) = handleClientsBlockedOnKeys (cmds.foldl (runCommand c true) s)) ∨
        stepEvent s (.exec c cmds) = s := by
  cases hc : s.client c with
  | none =>
    left
    simp only [stepEvent, hc, Option.isNone_none, if_true, and_self]
  | some b =>
    right
    simp only [stepEvent, hc, Option.isNone_some, Bool.false_eq_true, if_false]

theorem sound_stepEvent {s : State α} (h : Sound ok [] none none s) (hready : s.readyKeys = []) (e : Event α)
    (he : ok → EventAnnounced s e) :
    Sound ok [] none none (stepEvent s e) ∧ (stepEvent s e).readyKeys = [] := by
  cases e with
  | command c cmd =>
    cases step_command s c cmd with
    | inl hstep =>
      rw [hstep.2]
      apply handleClients_spec
      exact sound_runCommand h c false (fun _ => hstep.1) cmd (fun hok => he hok hstep.1)
    | inr hsame =>
      rw [hsame]
      exact ⟨h, hready⟩
  | exec c cmds =>
    cases step_exec s c cmds with
    | inl hstep =>
      rw [hstep.2]
      apply handleClients_spec
      exact sound_exec c cmds h (fun hok => he hok hstep.1)
    | inr hsame =>
      rw [hsame]
      exact ⟨h, hready⟩
  | timeout c =>
    refine ⟨sound_unblock h c, ?_⟩
    rw [show stepEvent s (.timeout c) = unblockClient s c from rfl]
    unfold unblockClient
    cases s.client c with
    | none => exact hready
    | some b => exact hready

theorem sound_run (es : List (Event α)) {s : State α} (h : Sound ok [] none none s) (hready : s.readyKeys = [])
    (hes : ok → RunAnnounced s es) : Sound ok [] none none (run s es) ∧ (run s es).readyKeys = [] := by
  induction es generalizing s with
  | nil => exact ⟨h, hready⟩
  | cons e es ih =>
    obtain ⟨hstep, hnone⟩ := sound_stepEvent h hready e (fun hok => (hes hok).1)
    exact ih hstep hnone (fun hok => (hes hok).2)

theorem balanced_exec (c : ClientId) (cmds : List (ℕ × Command α)) {s : State α} (h : Balanced s) :
    Balanced (cmds.foldl (runCommand c true) s) := by
  induction cmds generalizing s with
  | nil => exact h
  | cons cmd cmds ih => exact ih (balanced_runCommand h c true cmd)

theorem balanced_run (es : List (Event α)) {s : State α} (h : Balanced s) : Balanced (run s es) := by
  induction es generalizing s with
  | nil => exact h
  | cons e es ih =>
    apply ih
    cases e with
    | command c cmd =>
      cases step_command s c cmd with
      | inl hstep =>
        rw [hstep.2]
        exact balanced_handleClients (balanced_runCommand h c false cmd)
      | inr hsame =>
        rw [hsame]
        exact h
    | exec c cmds =>
      cases step_exec s c cmds with
      | inl hstep =>
        rw [hstep.2]
        exact balanced_handleClients (balanced_exec c cmds h)
      | inr hsame =>
        rw [hsame]
        exact h
    | timeout c => exact balanced_same h (shift_unblock s c)

theorem balanced_initState : Balanced (initState : State α) := rfl

theorem nobody_waits {s : State α} (h : Sound ok [] none none s) (hready : s.readyKeys = []) (hok : ok)
    {c : ClientId} {b : Blocked} (hc : s.client c = some b) {name : Bytes} (hname : name ∈ b.keys) :
    elementsAt s (b.db, name) = [] := by
  have hmem : c ∈ waiting s (b.db, name) := (h.linked.member c (b.db, name)).mpr ⟨b, hc, rfl, hname⟩
  have hempty : s.readyDict = [] := by
    have hperm := h.ready
    rw [hready] at hperm
    exact hperm.eq_nil
  cases hlookup : s.dict.lookup (b.db, name) with
  | none => exact elementsAt_none hlookup
  | some v =>
    cases v with
    | list l =>
      have hqueued := h.signalled hok (b.db, name) l (Option.some_ne_none _) hlookup (List.ne_nil_of_mem hmem)
      rw [hempty] at hqueued
      cases hqueued
    | zset =>
      unfold elementsAt
      rw [hlookup]
      rfl
    | string =>
      unfold elementsAt
      rw [hlookup]
      rfl

theorem brpoplpush_wrongType (s : State α) (c : ClientId) (d : ℕ) (multi : Bool) (src dst : Bytes)
    (hwrong : wrongType s (d, dst) = true) : (brpoplpushCommand s c d multi src dst).dict = s.dict := by
  unfold brpoplpushCommand
  split
  · cases multi with
    | true => rfl
    | false => rfl
  · unfold rpoplpushCommand
    split
    · rfl
    · rw [if_pos hwrong]
  · rfl

end RedisCore.Blocking
