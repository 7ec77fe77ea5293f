import RedisCore.SortSteps

namespace RedisCore.Collection
open Option (bind_some map_eq_some_iff)

variable {cfg : ServerConfig} {env : Env} {db db' : RedisDb}

def Fits (cfg : ServerConfig) (env : Env) (db : RedisDb) : Event → Prop
  | .command cmd argv =>
    (cmd.name = "hincrbyfloat" → FloatFits cfg.libc env argv db) ∧
      (cmd.name = "sort" → LimitsOk cfg env argv db)
  | .set .. => True
  | .expire .. => True

def Event.Known : Event → Prop
  | .command cmd _ => cmd ∈ redisCommandTable
  | .set .. => True
  | .expire .. => True

inductive Reached (cfg : ServerConfig) : RedisDb → Prop
  | start : Reached cfg emptyDb
  | step {env : Env} {db db' : RedisDb} {e : Event} {r : Reply} : Reached cfg db → e.Known →
    Fits cfg env db e → step cfg env e db = .ok (db', r) → Reached cfg db'

/-- A command that SORT is not does not fail. -/
def Safe (cfg : ServerConfig) (env : Env) (db : RedisDb) : Event → Prop
  | .command cmd argv => cmd.name = "sort" → SortSafe cfg env argv db
  | .set .. => True
  | .expire .. => True

theorem processCommand_good (hn : NonEmpty db) {cmd : RedisCommand} (hcmd : cmd ∈ redisCommandTable)
    {argv : List Bytes} (hfits : Fits cfg env db (.command cmd argv)) :
    Yields (Safe cfg env db (.command cmd argv)) (processCommand cfg env cmd argv db) (Good env db) := by
  unfold processCommand
  by_cases harity : (cmd.arity > 0 ∧ cmd.arity ≠ argv.length) ∨ (argv.length : ℤ) < -cmd.arity
  · rw [if_pos harity]
    exact good_purged hn Purged.refl _
  rw [if_neg harity]
  have htotal : ∀ {x : Result}, Yields True x (Good env db) →
      Yields (Safe cfg env db (.command cmd argv)) x (Good env db) :=
    fun h => h.strengthen (fun _ => trivial)
  simp only [redisCommandTable, List.mem_cons, List.not_mem_nil, or_false] at hcmd
  rcases hcmd with rfl | rfl | rfl | rfl | rfl | rfl | rfl | rfl | rfl | rfl | rfl | rfl | rfl | rfl |
    rfl | rfl | rfl | rfl | rfl | rfl | rfl | rfl | rfl | rfl | rfl
  · exact htotal (pushGenericCommand_good hn .tail argv)
  · exact htotal (pushGenericCommand_good hn .head argv)
  · exact htotal (pushxGenericCommand_good hn .tail argv)
  · exact htotal (pushxGenericCommand_good hn .head argv)
  · exact htotal (linsertCommand_good hn argv)
  · exact htotal (popGenericCommand_good hn .tail argv)
  · exact htotal (popGenericCommand_good hn .head argv)
  · exact htotal (lsetCommand_good hn argv)
  · exact htotal (ltrimCommand_good hn argv)
  · exact htotal (lremCommand_good hn argv)
  · exact htotal (rpoplpushCommand_good hn argv)
  · exact htotal (saddCommand_good hn (by dsimp only at harity; omega))
  · exact htotal (sremCommand_good hn argv)
  · exact htotal (smoveCommand_good hn argv)
  · exact htotal (spopCommand_good hn argv)
  · exact htotal (sinterstoreCommand_good hn argv)
  · exact htotal (sunionDiffGenericCommand_good hn .union argv)
  · exact htotal (sunionDiffGenericCommand_good hn .diff argv)
  · exact htotal (hsetCommand_good hn "hset" (by dsimp only at harity; omega))
  · exact htotal (hsetnxCommand_good hn argv)
  · exact htotal (hsetCommand_good hn "hmset" (by dsimp only at harity; omega))
  · exact htotal (hincrbyCommand_good hn argv)
  · exact htotal (hincrbyfloatCommand_good hn (hfits.1 rfl))
  · exact htotal (hdelCommand_good hn argv)
  · exact (sortCommand_good hn (hfits.2 rfl)).strengthen (fun h => h rfl)

theorem setCommand_good (hn : NonEmpty db) (k v : Bytes) :
    Yields True (setCommand env k v db) (Good env db) := by
  unfold setCommand
  apply (setKey_yields hn k (v := .string v) trivial).bind
  exact fun db2 hn2 => good_changed hn2 isError_ok

theorem expireCommand_good (hn : NonEmpty db) (k : Bytes) (when : ℤ) :
    Yields True (expireCommand env k when db) (Good env db) := by
  obtain ⟨db1, o, hl, hn1, hp, ho⟩ := lookupKeyWrite_spec env hn k
  simp only [expireCommand, hl]
  cases o with
  | none => exact good_purged hn hp _
  | some v =>
    dsimp only
    split_ifs
    · exact good_changed (hn1.dbDelete k) (isError_int 1)
    · have hn2 : NonEmpty { db1 with expires := Function.update db1.expires k (some when) } := hn1
      exact good_changed hn2 (isError_int 1)

theorem step_good (hn : NonEmpty db) {e : Event} (hknown : e.Known) (hfits : Fits cfg env db e) :
    Yields (Safe cfg env db e) (step cfg env e db) (Good env db) := by
  cases e with
  | command cmd argv => exact processCommand_good hn hknown hfits
  | set k v => exact (setCommand_good hn k v).strengthen (fun _ => trivial)
  | expire k when => exact (expireCommand_good hn k when).strengthen (fun _ => trivial)

theorem reached_nonEmpty (h : Reached cfg db) : NonEmpty db := by
  induction h with
  | start =>
    intro k v hv
    cases hv
  | step _ hknown hfits hstep ih => exact ((step_good ih hknown hfits).of_ok hstep).nonEmpty

/-- In every run whose commands fit, each state has only collections with elements, and a further
command that fits is answered, and changes nothing when it is answered with an error. -/
theorem collections_stay_nonEmpty (h : Reached cfg db) :
    NonEmpty db ∧ ∀ env (e : Event), e.Known → Fits cfg env db e →
      (∀ db' msg, step cfg env e db = .ok (db', .error msg) → Purged env db db') ∧
      (Safe cfg env db e → ∃ r, step cfg env e db = .ok r) := by
  have hn := reached_nonEmpty h
  refine ⟨hn, fun env e hknown hfits => ?_⟩
  have hgood := @step_good cfg env db hn e hknown hfits
  constructor
  · intro db' msg hstep
    exact (hgood.of_ok hstep).unchanged trivial
  · intro hsafe
    obtain ⟨r, hr, -⟩ := hgood.total hsafe
    exact ⟨r, hr⟩

def wholeNumbers : Libc where
  LongDouble := Option ℤ
  string2ld s := if s = text "inf" then some none else (string2ll s).map some
  ldZero := some 0
  ldAdd v w := v.bind (fun v => w.map (v + ·))
  ldIsNanOrInf v := v.isNone
  ld2string v := decimal (v.getD 0)
  Double := ℤ
  dZero := 0
  strtod s := ((string2ll s).getD 0, (string2ll s).isSome)
  dLt v w := decide (v < w)
  strcoll := sdscmp

def plainConfig : ServerConfig :=
  { clusterEnabled := false
    libc := wholeNumbers }

def plainEnv : Env :=
  { now := 0
    slave := false
    random := fun _ => 0
    errnoRange := fun _ => false }

def eventOf (argv : List String) : Option Event :=
  (lookupCommand (arg (argv.map text) 0)).map (fun cmd => .command cmd (argv.map text))

def callCommand (argv : List String) (db : RedisDb) : Option (RedisDb × Reply) :=
  (eventOf argv).bind (fun e => (step plainConfig plainEnv e db).toOption)

theorem known_of_eventOf {argv : List String} {e : Event} (h : eventOf argv = some e) : e.Known := by
  unfold eventOf lookupCommand at h
  cases hc : redisCommandTable.find? (fun c => sameCaseless (text c.name) (arg (argv.map text) 0)) with
  | none =>
    rw [hc] at h
    cases h
  | some cmd =>
    rw [hc] at h
    cases h
    exact List.mem_of_find?_eq_some hc

theorem step_of_callCommand {argv : List String} {r : RedisDb × Reply}
    (h : callCommand argv db = some r) :
    ∃ e, eventOf argv = some e ∧ step plainConfig plainEnv e db = .ok r := by
  unfold callCommand at h
  cases he : eventOf argv with
  | none =>
    rw [he] at h
    cases h
  | some e =>
    rw [he] at h
    refine ⟨e, rfl, ?_⟩
    cases hs : step plainConfig plainEnv e db with
    | error x =>
      rw [bind_some, hs] at h
      cases h
    | ok r' =>
      rw [bind_some, hs] at h
      cases h
      rfl

theorem fits_of_eventOf {argv : List String} {e : Event} (h : eventOf argv = some e)
    (hname : ∀ cmd, lookupCommand (arg (argv.map text) 0) = some cmd →
      cmd.name ≠ "hincrbyfloat" ∧ cmd.name ≠ "sort") : Fits cfg env db e := by
  unfold eventOf at h
  cases hc : lookupCommand (arg (argv.map text) 0) with
  | none =>
    rw [hc] at h
    cases h
  | some cmd =>
    rw [hc] at h
    cases h
    obtain ⟨hfloat, hsort⟩ := hname cmd hc
    exact ⟨fun h => absurd h hfloat, fun h => absurd h hsort⟩

theorem collections_stay_nonEmpty_pushed :
    ∃ db1 db2, callCommand ["RPUSH", "k", "a"] emptyDb = some (db1, .int 1) ∧
      callCommand ["LSET", "k", "5", "b"] db1 = some (db2, .error "ERR index out of range") ∧
      NonEmpty db1 ∧ Purged plainEnv db1 db2 := by
  have hpush : (callCommand ["RPUSH", "k", "a"] emptyDb).map Prod.snd = some (.int 1) := by
    decide +kernel
  have hset : ((callCommand ["RPUSH", "k", "a"] emptyDb).bind
      (fun r => callCommand ["LSET", "k", "5", "b"] r.1)).map Prod.snd =
        some (.error "ERR index out of range") := by
    decide +kernel
  obtain ⟨⟨db1, r1⟩, hpushed, hr1⟩ := map_eq_some_iff.mp hpush
  rw [hpushed, bind_some] at hset
  obtain ⟨⟨db2, r2⟩, hlset, hr2⟩ := map_eq_some_iff.mp hset
  dsimp only at hr1 hr2
  subst hr1 hr2
  obtain ⟨e1, he1, hstep1⟩ := step_of_callCommand hpushed
  obtain ⟨e2, he2, hstep2⟩ := step_of_callCommand hlset
  have hfits1 : Fits plainConfig plainEnv emptyDb e1 := by
    apply fits_of_eventOf he1
    decide +kernel
  have hfits2 : Fits plainConfig plainEnv db1 e2 := by
    apply fits_of_eventOf he2
    decide +kernel
  have hreached : Reached plainConfig db1 := Reached.start.step (known_of_eventOf he1) hfits1 hstep1
  obtain ⟨hn, hall⟩ := collections_stay_nonEmpty hreached
  exact ⟨db1, db2, hpushed, hlset, hn, (hall plainEnv e2 (known_of_eventOf he2) hfits2).1 _ _ hstep2⟩

/-- HINCRBYFLOAT leaves an empty hash behind its error, and SORT ... STORE stores an empty list. -/
theorem collections_left_empty :
    (∃ db1, callCommand ["HINCRBYFLOAT", "k", "f", "inf"] emptyDb =
        some (db1, .error "ERR increment would produce NaN or Infinity") ∧
      db1.dict (text "k") = some (.hash []) ∧ ¬NonEmpty db1 ∧ ¬Purged plainEnv emptyDb db1) ∧
    (∃ db1 db2, callCommand ["RPUSH", "l", "1", "2", "3"] emptyDb = some (db1, .int 3) ∧
      callCommand ["SORT", "l", "LIMIT", "2", "9223372036854775807", "STORE", "d"] db1 =
        some (db2, .int 4294967295) ∧
      db2.dict (text "d") = some (.list []) ∧ ¬NonEmpty db2) := by
  constructor
  · have hfloat : (callCommand ["HINCRBYFLOAT", "k", "f", "inf"] emptyDb).map
        (fun r => (r.1.dict (text "k"), r.2)) =
          some (some (.hash []), .error "ERR increment would produce NaN or Infinity") := by
      decide +kernel
    obtain ⟨⟨db1, r1⟩, hcall, hr⟩ := map_eq_some_iff.mp hfloat
    obtain ⟨hdict, hreply⟩ := Prod.mk.inj hr
    dsimp only at hdict hreply
    subst hreply
    refine ⟨db1, hcall, hdict, fun hn => hn _ _ hdict rfl, fun hp => ?_⟩
    rcases hp (text "k") with ⟨hd, -⟩ | ⟨-, hd, -⟩
    · rw [hdict] at hd
      cases hd
    · rw [hdict] at hd
      cases hd
  · have hpush : (callCommand ["RPUSH", "l", "1", "2", "3"] emptyDb).map Prod.snd = some (.int 3) := by
      decide +kernel
    have hsort : ((callCommand ["RPUSH", "l", "1", "2", "3"] emptyDb).bind (fun r =>
        callCommand ["SORT", "l", "LIMIT", "2", "9223372036854775807", "STORE", "d"] r.1)).map
          (fun r => (r.1.dict (text "d"), r.2)) = some (some (.list []), .int 4294967295) := by
      decide +kernel
    obtain ⟨⟨db1, r1⟩, hpushed, hr1⟩ := map_eq_some_iff.mp hpush
    dsimp only at hr1
    subst hr1
    rw [hpushed, bind_some] at hsort
    obtain ⟨⟨db2, r2⟩, hcall, hr⟩ := map_eq_some_iff.mp hsort
    obtain ⟨hdict, hreply⟩ := Prod.mk.inj hr
    dsimp only at hdict hreply
    subst hreply
    exact ⟨db1, db2, hpushed, hcall, hdict, fun hn => hn _ _ hdict rfl⟩

end RedisCore.Collection
