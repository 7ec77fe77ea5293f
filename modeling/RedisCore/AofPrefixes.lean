import RedisCore.AofRepair

namespace RedisCore.Aof
open List (append_assoc append_nil mem_cons prefix_append prefix_cons_iff prefix_nil prefix_refl)

open Request (encodeCommand)
open Keyspace (RedisDb)

variable {V : Type} {srv : Server V} {mstime : ℤ}

def withValue (data : Dataset V) (d : ℕ) (k : Bytes) (v : V) (expire : Option ℤ) : Dataset V :=
  setDb data d { dict := Function.update (data d).dict k (some v)
                 expires := Function.update (data d).expires k expire }

theorem setGenericCommand_expire {ctx : Ctx} {o : SetOptions} {k : Bytes} {v : V} {db db' : RedisDb V}
    (h : setGenericCommand ctx o k v db = some db') (ho : o.expire ≠ none) :
    ∃ t, db' = { dict := Function.update db.dict k (some v)
                 expires := Function.update db.expires k (some t) } := by
  obtain ⟨ttl, httl, hdb⟩ := setGenericCommand_some h
  cases he : o.expire with
  | none => exact absurd he ho
  | some e =>
    obtain ⟨s, seconds⟩ := e
    rw [he] at httl
    obtain ⟨n, -, rfl⟩ := timeToLive_some httl
    exact ⟨_, hdb⟩

theorem halves_of_call {ctx : Ctx} {i : Item} (hi : ItemOk srv i) {data data' : Dataset V} {proc : Proc}
    {argv c c' : List Bytes} (hcall : call srv ctx i.db i.proc i.argv data = some (data', proc, argv))
    (htr : translated i.fedAt proc argv = some [c, c']) :
    ∃ k v t, replayAll srv mstime [c] (i.db, data) = (i.db, withValue data i.db k v none) ∧
      data' = withValue data i.db k v (some t) := by
  have hset3 : ∀ {name k v : Bytes}, lookupCommand srv name = some .set →
      replayAll srv mstime [[name, k, v]] (i.db, data) =
        (i.db, withValue data i.db k (srv.stringObject v) none) := by
    intro name k v hname
    rw [replayAll_single, resolve_of_lookup (show lookupCommand srv (arg [name, k, v] 0) = _ from hname),
      loadCall_set]
    rfl
  have hname := hi.name
  rcases call_propagates hcall with ⟨rfl, rfl⟩ | ⟨rfl, k, -, rfl⟩
  · generalize hargv : i.argv = iargv at *
    cases hproc : i.proc with
    | set =>
      rw [hproc] at hcall htr hname
      rcases iargv with _ | ⟨a, _ | ⟨k, _ | ⟨v, opts⟩⟩⟩
      · cases hcall
      · cases hcall
      · cases hcall
      · simp only [call, Option.bind_eq_some_iff, Option.map_eq_some_iff] at hcall
        obtain ⟨o, ho, db', hset, heq⟩ := hcall
        cases heq
        have hscanned : Scanned noOptions (none, none) := by
          intro s n _
          constructor
          · intro h
            cases h
          · intro h
            cases h
        obtain ⟨-, hnoscan⟩ := setOptions_scan opts noOptions o (none, none) ho hscanned
        have hdrop : (a :: k :: v :: opts).drop 3 = opts := rfl
        have hfirst : c = [a, k, v] ∧ scanExpire opts (none, none) ≠ (none, none) := by
          unfold translated at htr
          rw [if_neg (by decide), if_neg (by decide), hdrop] at htr
          by_cases hlong : Proc.set = Proc.set ∧ (a :: k :: v :: opts).length > 3
          · rw [if_pos hlong] at htr
            rcases hscan : scanExpire opts (none, none) with ⟨exarg, pxarg⟩
            rw [hscan] at htr
            cases exarg <;> cases pxarg <;> cases htr <;> exact ⟨rfl, by simp⟩
          · rw [if_neg hlong] at htr
            cases htr
        have hexpire : o.expire ≠ none := fun hnone => hfirst.2 (hnoscan hnone).2
        obtain ⟨t, hdb⟩ := setGenericCommand_expire hset hexpire
        rw [hfirst.1, hdb]
        exact ⟨k, srv.stringObject v, t, hset3 hname, rfl⟩
    | setex | psetex =>
      rw [hproc] at hcall htr
      rcases iargv with _ | ⟨a, _ | ⟨k, _ | ⟨s, _ | ⟨v, _ | ⟨_, _⟩⟩⟩⟩⟩
      · cases hcall
      · cases hcall
      · cases hcall
      · cases hcall
      · simp only [call, Option.map_eq_some_iff] at hcall
        obtain ⟨db', hset, heq⟩ := hcall
        cases heq
        obtain ⟨t, hdb⟩ := setGenericCommand_expire hset (by simp)
        cases htr
        rw [hdb]
        exact ⟨k, srv.stringObject v, t, hset3 (lookup_set []), rfl⟩
      · cases hcall
    | expire | pexpire | expireat | pexpireat | del | select | multi | exec | other =>
      rw [hproc] at htr
      cases htr
  · cases htr

/-- The cut falls into a single command that was translated to two, behind the first of them. -/
def TornAt (srv : Server V) (steps : List Step) (p : Bytes) (done : List Step) (i : Item)
    (s1 s2 : AofState V) : Prop :=
  done ++ [.command i] <+: steps ∧ runSteps srv done start = some s1 ∧ execItem srv s1 i = some s2 ∧
    ∃ data proc argv c c',
      call srv { now := i.now, loading := false } i.db i.proc i.argv s1.data = some (data, proc, argv) ∧
      translated i.fedAt proc argv = some [c, c'] ∧
      s1.aofBuf ++ encodeAll (selectFor s1.aofSelectedDb i.db ++ [c]) <+: p ∧ p <+: s2.aofBuf ∧
      p ≠ s2.aofBuf

def Torn (srv : Server V) (steps : List Step) (p : Bytes) : Prop :=
  ∃ done i s1 s2, TornAt srv steps p done i s1 s2

def Reached (srv : Server V) (steps : List Step) (data : Dataset V) : Prop :=
  ∃ done s, done <+: steps ∧ runSteps srv done start = some s ∧ s.data = data

theorem Stands.loads_append {cmds more : List (List Bytes)} {l : Loader V}
    (h : Stands srv mstime cmds l) (hplain : ∀ c ∈ more, Plain srv c) {tail : Bytes} (htail : Tail tail) :
    ∃ file, loadAppendOnlyFile srv mstime (encodeAll cmds ++ (encodeAll more ++ tail)) =
      .ok ((replayAll srv mstime more (l.db, l.data)).2, file) := by
  obtain ⟨l', hl', hdata⟩ := h.append hplain
  have hload := hl'.loads htail
  rw [encodeAll_append, append_assoc] at hload
  rw [← hdata]
  exact ⟨_, hload⟩

theorem Stands.loads_open {cmds queued : List (List Bytes)} {l : Loader V}
    (h : Stands srv mstime cmds l) (hplain : ∀ c ∈ queued, Plain srv c) {tail : Bytes} (htail : Tail tail) :
    ∃ file, loadAppendOnlyFile srv mstime (encodeAll (cmds ++ [text "MULTI"] :: queued) ++ tail) =
      .ok (l.data, file) := by
  obtain ⟨l', hload, -, -, -, hdata, -, hok⟩ := h.queue hplain
  rw [loadAppendOnlyFile_spec htail hok hload, hdata]
  exact ⟨_, rfl⟩

theorem replay_select_first {selected : Option ℕ} {d : ℕ} (hd : d < srv.dbnum) {whole : List (List Bytes)}
    (hwhole : whole <+: selectFor selected d) (r : ℕ × Dataset V) :
    (replayAll srv mstime whole r).2 = r.2 := by
  have hcases : whole = [] ∨ whole = [selectArgv d] := by
    unfold selectFor at hwhole
    split_ifs at hwhole
    · exact Or.inl (prefix_nil.mp hwhole)
    · rcases prefix_cons_iff.mp hwhole with h | ⟨t, rfl, ht⟩
      · exact Or.inl h
      · rw [prefix_nil.mp ht]
        exact Or.inr rfl
  rcases hcases with rfl | rfl
  · rfl
  · rw [replay_select hd]

theorem execItem_of_call {s s' : AofState V} {i : Item} (h : execItem srv s i = some s')
    {data : Dataset V} {proc : Proc} {argv : List Bytes} {cmds : List (List Bytes)}
    (hcall : call srv { now := i.now, loading := false } i.db i.proc i.argv s.data = some (data, proc, argv))
    (htr : translated i.fedAt proc argv = some cmds) :
    s'.data = data ∧ s'.aofSelectedDb = some i.db ∧
      s'.aofBuf = s.aofBuf ++ encodeAll (selectFor s.aofSelectedDb i.db ++ cmds) := by
  unfold execItem at h
  rw [hcall] at h
  obtain ⟨cmds', htr', hdata, hselected, hbuf⟩ := feed_spec h
  rw [htr] at htr'
  cases htr'
  exact ⟨hdata, hselected, hbuf⟩

theorem translated_length {fedAt : ℤ} {proc : Proc} {argv : List Bytes} {cmds : List (List Bytes)}
    (h : translated fedAt proc argv = some cmds) : (∃ c, cmds = [c]) ∨ ∃ c c', cmds = [c, c'] := by
  unfold translated at h
  split_ifs at h
  · cases h
    exact Or.inl ⟨_, rfl⟩
  · cases h
    exact Or.inr ⟨_, _, rfl⟩
  · rcases hscan : scanExpire (argv.drop 3) (none, none) with ⟨exarg, pxarg⟩
    rw [hscan] at h
    cases exarg <;> cases pxarg <;> cases h
    · exact Or.inl ⟨_, rfl⟩
    · exact Or.inr ⟨_, _, rfl⟩
    · exact Or.inr ⟨_, _, rfl⟩
  · cases h
    exact Or.inl ⟨_, rfl⟩

theorem loaded_done {steps done : List Step} {st : Step} {s1 : AofState V}
    (hok : ∀ st ∈ steps, StepOk srv st) (hpunctual : ∀ st ∈ steps, StepPunctual st)
    (hdone : done ++ [st] <+: steps) (hrun : runSteps srv done start = some s1) (mstime : ℤ) :
    ∃ cmds l, Loaded srv mstime s1 cmds l := by
  have hmem : ∀ x ∈ done, x ∈ steps := fun x hx => hdone.subset (List.mem_append_left _ hx)
  exact (loaded_start srv mstime).run done hrun (fun x hx => hok x (hmem x hx))
    (fun x hx => hpunctual x (hmem x hx))

theorem loads_of_torn {steps : List Step} {p : Bytes} (hok : ∀ st ∈ steps, StepOk srv st)
    (hpunctual : ∀ st ∈ steps, StepPunctual st) {done : List Step} {i : Item} {s1 s2 : AofState V}
    (htorn : TornAt srv steps p done i s1 s2) (mstime : ℤ) :
    ∃ data file, loadAppendOnlyFile srv mstime p = .ok (data, file) ∧
      ∃ k v t, data = withValue s1.data i.db k v none ∧ s2.data = withValue s1.data i.db k v (some t) := by
  obtain ⟨hdone, hrun, hexec, data', proc, argv, c, c', hcall, htr, hfirst, hp, hne⟩ := htorn
  have hi : ItemOk srv i := hok (.command i) (hdone.subset (by simp))
  obtain ⟨cmds, l, hl⟩ := loaded_done hok hpunctual hdone hrun mstime
  obtain ⟨hdata2, hselected2, hbuf2⟩ := execItem_of_call hexec hcall htr
  obtain ⟨k, v, t, hreplay, hdata'⟩ := @halves_of_call V srv mstime _ i hi _ _ _ _ _ _ hcall htr
  rw [← hdata2] at hcall
  have happ := execItem_appends hi hcall htr hselected2
  have hplain : ∀ x ∈ selectFor s1.aofSelectedDb i.db ++ [c], Plain srv x := by
    intro x hx
    apply happ.plain x
    simp only [List.mem_append, mem_cons, List.not_mem_nil, or_false] at hx ⊢
    tauto
  obtain ⟨q, rfl⟩ := hfirst
  have hsecond : s2.aofBuf = s1.aofBuf ++ encodeAll (selectFor s1.aofSelectedDb i.db ++ [c]) ++
      encodeAll [c'] := by
    rw [hbuf2]
    simp
  rw [hsecond] at hp hne
  obtain ⟨whole, tail, hwhole, rfl, htail, hend⟩ := cut_encodeAll [c']
    (fun x hx => (happ.plain x (by simp only [List.mem_append, mem_cons] at hx ⊢; tauto)).ok)
    ((List.prefix_append_right_inj _).mp hp)
  have hwhole' : whole = [] := by
    rcases prefix_cons_iff.mp hwhole with h | ⟨w, rfl, hw⟩
    · exact h
    · rw [prefix_nil.mp hw] at hend hne
      rw [hend rfl, append_nil] at hne
      exact absurd rfl hne
  obtain ⟨file, hload⟩ := hl.loads_append hplain htail
  rw [replayAll_append, replay_selectFor hi.db hl.selects, hl.data, hreplay, ← append_assoc,
    ← hl.buf] at hload
  rw [hwhole', encodeAll_nil, List.nil_append]
  exact ⟨_, file, hload, k, v, t, rfl, by rw [hdata2, hdata']⟩

theorem reached_of_not_torn {steps : List Step} {s : AofState V} {p : Bytes}
    (hok : ∀ st ∈ steps, StepOk srv st) (hpunctual : ∀ st ∈ steps, StepPunctual st)
    (hrun : runSteps srv steps start = some s) (hp : p <+: s.aofBuf) (htorn : ¬ Torn srv steps p)
    (mstime : ℤ) :
    ∃ data file, loadAppendOnlyFile srv mstime p = .ok (data, file) ∧ Reached srv steps data := by
  have hnil : (start : AofState V).aofBuf = [] := rfl
  rcases run_cut steps hrun hok (by rw [hnil]; exact List.nil_prefix) hp with rfl | hstep
  · obtain ⟨cmds, l, hl⟩ := (loaded_start srv mstime).run steps hrun hok hpunctual
    have hload := hl.loads (Or.inl rfl)
    rw [append_nil, ← hl.buf, hl.data] at hload
    exact ⟨_, _, hload, steps, s, prefix_refl _, hrun, rfl⟩
  obtain ⟨done, st, s1, s2, hdone, hrun1, hexec, hs1, hs2, hne⟩ := hstep
  have hokst : StepOk srv st := hok st (hdone.subset (by simp))
  obtain ⟨cmds, l, hl⟩ := loaded_done hok hpunctual hdone hrun1 mstime
  have hreached : Reached srv steps s1.data :=
    ⟨done, s1, (prefix_append ..).trans hdone, hrun1, rfl⟩
  have hselects : ∀ {d : ℕ} {whole : List (List Bytes)} {tail : Bytes}, d < srv.dbnum →
      whole <+: selectFor s1.aofSelectedDb d → Tail tail →
      ∃ data file, loadAppendOnlyFile srv mstime (s1.aofBuf ++ (encodeAll whole ++ tail)) =
        .ok (data, file) ∧ Reached srv steps data := by
    intro d whole tail hd hwhole htail
    obtain ⟨file, hload⟩ := hl.loads_append (fun c hc => selectFor_plain _ hd c (hwhole.subset hc)) htail
    rw [replay_select_first hd hwhole, ← hl.buf, hl.data] at hload
    exact ⟨_, file, hload, hreached⟩
  obtain ⟨q, rfl⟩ := hs1
  cases st with
  | command i =>
    rcases execItem_cases hexec with rfl | ⟨proc, argv, more, hcall, htr, hselected, hbuf⟩
    · exact absurd ((prefix_append ..).eq_of_length_le hs2.length_le).symm hne
    have happ := execItem_appends hokst hcall htr hselected
    rw [hbuf] at hs2 hne
    obtain ⟨whole, tail, hwhole, rfl, htail, hend⟩ := cut_encodeAll _ (fun c hc => (happ.plain c hc).ok)
      ((List.prefix_append_right_inj _).mp hs2)
    rcases prefix_append_cases hwhole with ⟨hpre, -⟩ | ⟨w, rfl, hw⟩
    · exact hselects hokst.db hpre htail
    have hshort : w ≠ more := by
      rintro rfl
      rw [hend rfl, append_nil] at hne
      exact hne rfl
    have hcases : w = [] ∨ ∃ c c', more = [c, c'] ∧ w = [c] := by
      rcases translated_length htr with ⟨c, rfl⟩ | ⟨c, c', rfl⟩
      · rcases prefix_cons_iff.mp hw with h | ⟨t, rfl, ht⟩
        · exact Or.inl h
        · rw [prefix_nil.mp ht] at hshort
          exact absurd rfl hshort
      · rcases prefix_cons_iff.mp hw with h | ⟨t, rfl, ht⟩
        · exact Or.inl h
        · rcases prefix_cons_iff.mp ht with rfl | ⟨t', rfl, ht'⟩
          · exact Or.inr ⟨c, c', rfl, rfl⟩
          · rw [prefix_nil.mp ht'] at hshort
            exact absurd rfl hshort
    rcases hcases with rfl | ⟨c, c', rfl, rfl⟩
    · rw [append_nil]
      exact hselects hokst.db (prefix_refl _) htail
    · refine absurd ⟨done, i, s1, s2, hdone, hrun1, hexec, s2.data, proc, argv, c, c', hcall, htr, ?_, ?_, ?_⟩
        htorn
      · rw [← append_assoc]
        exact prefix_append ..
      · rw [hbuf]
        exact hs2
      · rw [hbuf]
        exact hne
  | transaction dbMulti items dbExec =>
    obtain ⟨sm, body, -, hbuf, -, hbody, -⟩ := execTransaction_spec hexec hokst
    have hbefore : ∀ c ∈ selectFor s1.aofSelectedDb dbMulti, Plain srv c := selectFor_plain _ hokst.1
    rw [hbuf] at hs2 hne
    obtain ⟨whole, tail, hwhole, rfl, htail, hend⟩ := cut_encodeAll _ (Block.argvs_ok hbefore hbody)
      ((List.prefix_append_right_inj _).mp hs2)
    rcases prefix_append_cases hwhole with ⟨hpre, -⟩ | ⟨w, rfl, hw⟩
    · exact hselects hokst.1 hpre htail
    rcases prefix_cons_iff.mp hw with rfl | ⟨queued, rfl, hqueued⟩
    · rw [append_nil]
      exact hselects hokst.1 (prefix_refl _) htail
    have hin : queued <+: body := by
      rcases List.prefix_concat_iff.mp hqueued with rfl | hin
      · rw [hend rfl, append_nil] at hne
        exact absurd rfl hne
      · exact hin
    obtain ⟨l1, hl1, hdata1⟩ := hl.append hbefore
    obtain ⟨file, hload⟩ := hl1.loads_open (fun c hc => hbody c (hin.subset hc)) htail
    have hdata : l1.data = s1.data := by
      rw [replay_selectFor hokst.1 hl.selects, hl.data] at hdata1
      exact (Prod.mk.inj hdata1).2
    have hfile : s1.aofBuf ++ (encodeAll (selectFor s1.aofSelectedDb dbMulti ++ [text "MULTI"] :: queued) ++
        tail) = encodeAll (cmds ++ selectFor s1.aofSelectedDb dbMulti ++ [text "MULTI"] :: queued) ++
          tail := by
      rw [hl.buf]
      simp
    rw [hfile, hload, hdata]
    exact ⟨_, file, rfl, hreached⟩

def sampleSetex : Item :=
  { db := 0
    proc := .setex
    argv := [text "SETEX", text "k", text "10", text "v"]
    now := 5
    fedAt := 5 }

def sampleHalf : Bytes := encodeAll [selectArgv 0, [text "SET", text "k", text "v"]]

theorem sampleSetex_ok : ∀ st ∈ [Step.command sampleSetex], StepOk sampleServer st ∧ StepPunctual st := by
  intro st hst
  rw [List.mem_singleton.mp hst]
  have hlookup : lookupCommand sampleServer (arg sampleSetex.argv 0) = some .setex :=
    lookup_own ("setex", .setex) (by decide) _
  exact ⟨⟨by decide, ⟨by simp [sampleSetex], by simp [sampleSetex], by decide⟩, hlookup, by decide⟩,
    fun _ => rfl⟩

theorem sampleSetex_torn : ∃ s, runSteps sampleServer [.command sampleSetex] start = some s ∧
    sampleHalf <+: s.aofBuf ∧
    TornAt sampleServer [.command sampleSetex] sampleHalf [] sampleSetex start s := by
  have hcall : (call sampleServer { now := 5, loading := false } 0 .setex sampleSetex.argv
      emptyDataset).map (fun r => r.2) = some (.setex, sampleSetex.argv) := by
    decide
  obtain ⟨⟨data, proc, argv⟩, hr, heq⟩ := Option.map_eq_some_iff.mp hcall
  cases heq
  have hbuf : (execItem sampleServer start sampleSetex).map (fun s => s.aofBuf) =
      some (sampleHalf ++ encodeCommand [text "PEXPIREAT", text "k", text "10005"]) := by
    decide +kernel
  obtain ⟨s, hs, hcut⟩ := Option.map_eq_some_iff.mp hbuf
  have hrun : runSteps sampleServer [.command sampleSetex] start = some s := by
    rw [runSteps, execStep, hs]
    rfl
  have hpre : sampleHalf <+: s.aofBuf := by
    rw [hcut]
    exact prefix_append ..
  refine ⟨s, hrun, hpre, prefix_refl _, rfl, hs, data, .setex, sampleSetex.argv, _, _, hr, rfl,
    prefix_refl _, hpre, ?_⟩
  rw [hcut]
  intro heq
  have hlen := congrArg List.length heq
  have hpos := encodeCommand_length_pos [text "PEXPIREAT", text "k", text "10005"]
  rw [List.length_append] at hlen
  omega

end RedisCore.Aof
