import RedisCore.AofBlocks

namespace RedisCore.Aof

open Request (encodeCommand)

variable {V : Type} {srv : Server V} {mstime : ℤ}

structure Stands (srv : Server V) (mstime : ℤ) (cmds : List (List Bytes)) (l : Loader V) : Prop where
  ok : ∀ c ∈ cmds, ArgvOk c
  load : loadAll srv mstime cmds newLoader 0 = some l
  multi : l.multi = false
  commands : l.commands = []

theorem Stands.nil (srv : Server V) (mstime : ℤ) : Stands srv mstime [] newLoader where
  ok := by simp
  load := rfl
  multi := rfl
  commands := rfl

variable {cmds : List (List Bytes)} {l : Loader V} {s s' : AofState V} {st : Step}

theorem Stands.validUpTo (h : Stands srv mstime cmds l) :
    l.validUpTo = (encodeAll cmds).length := by
  rw [loadAll_validUpTo cmds h.load rfl, Nat.zero_add]

theorem Stands.append {more : List (List Bytes)} (h : Stands srv mstime cmds l)
    (hplain : ∀ c ∈ more, Plain srv c) : ∃ l', Stands srv mstime (cmds ++ more) l' ∧
      (l'.db, l'.data) = replayAll srv mstime more (l.db, l.data) := by
  obtain ⟨l', hload, hmulti, hcommands, hdata⟩ := @loadAll_plain V srv mstime more l
    (0+(encodeAll cmds).length) hplain h.multi
  refine ⟨l', ⟨?_, ?_, hmulti, by rw [hcommands, h.commands]⟩, hdata⟩
  · intro c hc
    rcases List.mem_append.mp hc with hc | hc
    · exact h.ok c hc
    · exact (hplain c hc).ok
  · rw [loadAll_append, h.load, Option.bind_some, hload]

theorem argvOk_single (s : String) (hs : s.toList.length < 2^63) : ArgvOk [text s] := by
  refine ⟨by simp, by simp, ?_⟩
  intro a ha
  rw [List.mem_singleton.mp ha, text_length]
  exact hs

theorem multi_ok : ArgvOk [text "MULTI"] := argvOk_single "MULTI" (by decide)

theorem exec_ok : ArgvOk [text "EXEC"] := argvOk_single "EXEC" (by decide)

theorem Stands.queue {queued : List (List Bytes)} (h : Stands srv mstime cmds l)
    (hplain : ∀ c ∈ queued, Plain srv c) :
    ∃ l', loadAll srv mstime (cmds ++ [text "MULTI"] :: queued) newLoader 0 = some l' ∧
      l'.multi = true ∧ l'.commands = queued.map (resolve srv) ∧ l'.db = l.db ∧ l'.data = l.data ∧
      l'.validBeforeMulti = (encodeAll cmds).length ∧
      ∀ c ∈ cmds ++ [text "MULTI"] :: queued, ArgvOk c := by
  let pos := 0+(encodeAll cmds).length
  let open' : Loader V := { l with
    multi := true
    validBeforeMulti := l.validUpTo
    validUpTo := pos+(encodeCommand [text "MULTI"]).length }
  obtain ⟨l', hload, hmulti, hcommands, hdb, hdata, hvalid⟩ := @loadAll_queued V srv mstime queued
    open' (pos+(encodeCommand [text "MULTI"]).length) hplain rfl
  refine ⟨l', ?_, hmulti, ?_, hdb, hdata, ?_, ?_⟩
  · rw [loadAll_append, h.load, Option.bind_some, loadAll, loadStep_multi h.multi, Option.bind_some]
    exact hload
  · rw [hcommands, show open'.commands = l.commands from rfl, h.commands, List.nil_append]
  · rw [hvalid]
    exact h.validUpTo
  · intro c hc
    rcases List.mem_append.mp hc with hc | hc
    · exact h.ok c hc
    · rcases List.mem_cons.mp hc with rfl | hc
      · exact multi_ok
      · exact (hplain c hc).ok

theorem Stands.transaction {before body : List (List Bytes)} (h : Stands srv mstime cmds l)
    (hbefore : ∀ c ∈ before, Plain srv c) (hbody : ∀ c ∈ body, Plain srv c) :
    ∃ l', Stands srv mstime (cmds ++ (Block.transaction before body).argvs) l' ∧
      (l'.db, l'.data) = replayAll srv mstime (before ++ body) (l.db, l.data) := by
  obtain ⟨l1, h1, hdata1⟩ := h.append hbefore
  obtain ⟨l2, hload2, hmulti2, hcommands2, hdb2, hdata2, -, hok2⟩ := h1.queue hbody
  have hargvs : cmds ++ (Block.transaction before body).argvs =
      ((cmds ++ before) ++ [text "MULTI"] :: body) ++ [[text "EXEC"]] := by
    simp [Block.argvs]
  obtain ⟨l3, hload3, hmulti3, hcommands3, hdata3⟩ : ∃ l3,
      loadAll srv mstime (cmds ++ (Block.transaction before body).argvs) newLoader 0 = some l3 ∧
      l3.multi = false ∧ l3.commands = [] ∧
      (l3.db, l3.data) = l2.commands.foldl (loadCall srv mstime) (l2.db, l2.data) := by
    rw [hargvs, loadAll_append, hload2, Option.bind_some, loadAll, loadStep_exec hmulti2]
    exact ⟨_, rfl, rfl, rfl, rfl⟩
  refine ⟨l3, ⟨?_, hload3, hmulti3, hcommands3⟩, ?_⟩
  · intro c hc
    rw [hargvs] at hc
    rcases List.mem_append.mp hc with hc | hc
    · exact hok2 c hc
    · rw [List.mem_singleton.mp hc]
      exact exec_ok
  · rw [hdata3, hcommands2, hdb2, hdata2, replayAll_append, ← hdata1]
    rfl

structure Loaded (srv : Server V) (mstime : ℤ) (s : AofState V) (cmds : List (List Bytes)) (l : Loader V) :
    Prop extends Stands srv mstime cmds l where
  buf : s.aofBuf = encodeAll cmds
  data : l.data = s.data
  selects : Selects s.aofSelectedDb l.db

theorem Stands.step (h : execStep srv s st = some s')
    (hok : StepOk srv st) : ∃ more inner, s'.aofBuf = s.aofBuf ++ encodeAll more ∧
      Appends srv (StepPunctual st) s s' inner ∧
      ∀ {mstime : ℤ} {cmds : List (List Bytes)} {l : Loader V}, Stands srv mstime cmds l →
        ∃ l', Stands srv mstime (cmds ++ more) l' ∧
          (l'.db, l'.data) = replayAll srv mstime inner (l.db, l.data) := by
  cases st with
  | command i =>
    obtain ⟨more, hbuf, happ⟩ := execItem_spec h hok
    exact ⟨more, more, hbuf, happ, fun hl => hl.append happ.plain⟩
  | transaction dbMulti items dbExec =>
    obtain ⟨s1, body, -, hbuf, -, hbody, happ⟩ := execTransaction_spec h hok
    exact ⟨_, _, hbuf, happ, fun hl => hl.transaction (selectFor_plain _ hok.1) hbody⟩

theorem Loaded.step (hl : Loaded srv mstime s cmds l) (h : execStep srv s st = some s')
    (hok : StepOk srv st)
    (hp : StepPunctual st) : ∃ cmds' l', Loaded srv mstime s' cmds' l' := by
  obtain ⟨more, inner, hbuf, happ, hstands⟩ := Stands.step h hok
  obtain ⟨l', hl', hdata⟩ := hstands hl.toStands
  obtain ⟨d, hreplay, hselects⟩ := happ.replay hp mstime l.db hl.selects
  rw [hl.data, hreplay] at hdata
  obtain ⟨hdb, hdata⟩ := Prod.mk.injEq .. ▸ hdata
  refine ⟨cmds ++ more, l', hl', by rw [hbuf, hl.buf, encodeAll_append], hdata, ?_⟩
  rw [hdb]
  exact hselects

theorem Loaded.run (steps : List Step) : ∀ {s s' : AofState V} {cmds : List (List Bytes)} {l : Loader V},
    Loaded srv mstime s cmds l → runSteps srv steps s = some s' → (∀ st ∈ steps, StepOk srv st) →
    (∀ st ∈ steps, StepPunctual st) → ∃ cmds' l', Loaded srv mstime s' cmds' l' := by
  induction steps with
  | nil =>
    intro s s' cmds l hl h _ _
    cases h
    exact ⟨cmds, l, hl⟩
  | cons st steps ih =>
    intro s s' cmds l hl h hok hp
    rw [runSteps] at h
    obtain ⟨s1, h1, h2⟩ := Option.bind_eq_some_iff.mp h
    obtain ⟨cmds1, l1, hl1⟩ := hl.step h1 (hok st List.mem_cons_self) (hp st List.mem_cons_self)
    exact ih hl1 h2 (fun x hx => hok x (List.mem_cons_of_mem st hx))
      (fun x hx => hp x (List.mem_cons_of_mem st hx))

end RedisCore.Aof
