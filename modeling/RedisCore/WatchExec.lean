import RedisCore.KeyspaceRuns

namespace RedisCore.Keyspace

variable {V : Type} {cfg : ServerConfig} {s s' : Server V} {d : ℕ} {k : Bytes}
variable {P : Prop} {n : ℕ} {T : Set (ℕ × Bytes)} {env : Env} {c : ClientId}

/-- What a read finds under a key: an expired key is not there. -/
def readView (env : Env) (db : RedisDb V) (k : Bytes) : Option V :=
  if readsExpired env db k then none else db.dict k

def WatchedKey.seen (wk : WatchedKey V) : Option V := if wk.expired then none else wk.value

theorem execCommand_reply (cfg : ServerConfig) (env : Env) (s : Server V) (c : ClientId) :
    Yields False (execCommand cfg env s c) (fun r =>
      (r.2 = .nullArray → (s.clients c).dirtyCas = true) ∧
      ∀ rs, r.2 = .array rs → (s.clients c).dirtyCas = false) := by
  have hany : ∀ {α : Type} (x : Except KeyspaceFault α), Yields False x (fun _ => True) := by
    intro α x
    cases x with
    | ok a => trivial
    | error e => exact fun hf => hf
  unfold execCommand
  by_cases hmulti : (s.clients c).multi = false
  · rw [if_pos hmulti]
    refine ⟨fun h => ?_, fun rs h => ?_⟩ <;> cases h
  rw [if_neg hmulti]
  by_cases hflagged : (s.clients c).dirtyCas = true ∨ (s.clients c).dirtyExec = true
  · rw [if_pos hflagged]
    apply (hany _).bind
    intro s1 _
    by_cases hexec : (s.clients c).dirtyExec = true
    · rw [if_pos hexec]
      refine ⟨fun h => ?_, fun rs h => ?_⟩ <;> cases h
    · rw [if_neg hexec]
      refine ⟨fun _ => hflagged.resolve_right hexec, fun rs h => ?_⟩
      cases h
  · rw [if_neg hflagged]
    apply (hany _).bind
    intro s1 _
    apply (hany _).bind
    rintro ⟨s2, rs⟩ _
    apply (hany _).bind
    intro s3 _
    refine ⟨fun h => ?_, fun _ _ => Bool.eq_false_iff.mpr (fun hc => hflagged (Or.inl hc))⟩
    cases h

theorem watch_exec (cfg : ServerConfig) (events : List (Env × Event V)) :
    ∃ s, runEvents cfg events emptyServer = .ok s ∧
      (∀ c d k, Watches s c d k ↔ c ∈ (s.watchedKeys d k).getD []) ∧
      (∀ c, ∃ s', unwatchAllKeys s c = .ok s') ∧
      (∀ env c s', execCommand cfg env s c = .ok (s', .nullArray) →
        ∃ wk ∈ (s.clients c).watchedKeys, Changed s wk.since wk.db wk.key) ∧
      (QuietRun cfg events emptyServer → ∀ env c s' rs,
        execCommand cfg env s c = .ok (s', .array rs) →
          ((∀ wk ∈ (s.clients c).watchedKeys, readView env (s.dbs wk.db) wk.key = wk.seen) ↔
            ∀ wk ∈ (s.clients c).watchedKeys, (s.dbs wk.db).dict wk.key = none ∨
              readsExpired env (s.dbs wk.db) wk.key = wk.expired)) := by
  have hrun := runEvents_sound (P := False) events emptyServer (emptyServer_settled cfg)
    (fun hf => hf.elim)
  obtain ⟨s, hs, hsettled⟩ := hrun.total trivial
  refine ⟨s, hs, fun c d k => (hsettled.watching.linked.listed d k c).symm, fun c => ?_,
    fun env c s' hexec => ?_, fun hquiet env c s' rs hexec => ?_⟩
  · obtain ⟨s', hs', -⟩ := (unwatchAllKeys_yields hsettled.watching.linked c).total trivial
    exact ⟨s', hs'⟩
  · exact hsettled.watching.noticed c (((execCommand_reply cfg env s c).of_ok hexec).1 rfl)
  · have hclean := ((execCommand_reply cfg env s c).of_ok hexec).2 rs rfl
    have hguarded := (runEvents_sound (P := True) events emptyServer (emptyServer_settled cfg)
      (fun _ => hquiet)).of_ok hs
    have hsame : ∀ wk ∈ (s.clients c).watchedKeys, (s.dbs wk.db).dict wk.key = wk.value := by
      intro wk hwk
      exact (hguarded.watching.guarded trivial c hclean wk hwk).resolve_left (Set.notMem_empty _)
    have hview : ∀ wk ∈ (s.clients c).watchedKeys, readView env (s.dbs wk.db) wk.key = wk.seen ↔
        (s.dbs wk.db).dict wk.key = none ∨ readsExpired env (s.dbs wk.db) wk.key = wk.expired := by
      intro wk hwk
      unfold readView WatchedKey.seen
      rw [← hsame wk hwk]
      cases hdict : (s.dbs wk.db).dict wk.key with
      | none => simp
      | some v => cases readsExpired env (s.dbs wk.db) wk.key <;> cases wk.expired <;> simp
    exact ⟨fun h wk hwk => (hview wk hwk).mp (h wk hwk), fun h wk hwk => (hview wk hwk).mpr (h wk hwk)⟩

def twoDbs : ServerConfig :=
  { dbnum := 2
    dbnum_pos := by decide
    clusterEnabled := false
    keyHashSlot := fun _ => 0 }

def swapRun : List (Env × Event ℕ) :=
  [(atTime 0, .request 0 (.call (.set [7] 1 plainSet none))),
    (atTime 0, .request 0 (.watch [[7]])),
    (atTime 0, .request 0 .multi),
    (atTime 0, .request 1 (.call (.swapdb 0 1)))]

def expireRun : List (Env × Event ℕ) :=
  [(atTime 0, .request 0 (.call (.set [7] 1 plainSet (some 5)))),
    (atTime 0, .request 0 (.watch [[7]])),
    (atTime 0, .request 0 .multi)]

theorem exec_on_changed_keys :
    (∃ s s' rs, runEvents twoDbs swapRun emptyServer = .ok s ∧
      execCommand twoDbs (atTime 0) s 0 = .ok (s', .array rs) ∧
      ∃ wk ∈ (s.clients 0).watchedKeys, readView (atTime 0) (s.dbs wk.db) wk.key ≠ wk.seen) ∧
    ∃ s s' rs, runEvents twoDbs expireRun emptyServer = .ok s ∧
      execCommand twoDbs (atTime 9) s 0 = .ok (s', .array rs) ∧
      ∃ wk ∈ (s.clients 0).watchedKeys, readView (atTime 9) (s.dbs wk.db) wk.key ≠ wk.seen := by
  constructor
  · refine ⟨_, _, _, rfl, rfl, ⟨[7], 0, some 1, false, 1⟩, ?_, ?_⟩
    · exact List.mem_cons_self
    · decide
  · refine ⟨_, _, _, rfl, rfl, ⟨[7], 0, some 1, false, 2⟩, ?_, ?_⟩
    · exact List.mem_cons_self
    · decide

end RedisCore.Keyspace
