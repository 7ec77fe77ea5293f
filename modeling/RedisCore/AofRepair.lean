import RedisCore.AofRuns

namespace RedisCore.Aof
open List (append_assoc append_nil mem_append mem_cons mem_cons_of_mem mem_cons_self mem_singleton
  nil_prefix prefix_append prefix_refl)

open Request (encodeCommand)

variable {V : Type} {srv : Server V} {mstime : ℤ}

theorem cut_encodeAll (cmds : List (List Bytes)) : ∀ {p : Bytes}, (∀ c ∈ cmds, ArgvOk c) →
    p <+: encodeAll cmds → ∃ whole tail, whole <+: cmds ∧ p = encodeAll whole ++ tail ∧ Tail tail ∧
      (whole = cmds → tail = []) := by
  induction cmds with
  | nil =>
    intro p _ hp
    refine ⟨[], [], prefix_refl _, ?_, Or.inl rfl, fun _ => rfl⟩
    simpa using hp
  | cons c cmds ih =>
    intro p hok hp
    rw [encodeAll_cons] at hp
    rcases prefix_append_cases hp with ⟨hc, hlt⟩ | ⟨q, rfl, hq⟩
    · by_cases hnil : p = []
      · exact ⟨[], [], nil_prefix, by rw [hnil]; rfl, Or.inl rfl, fun _ => rfl⟩
      · exact ⟨[], p, nil_prefix, rfl, Or.inr ⟨c, hok c mem_cons_self, hc, hnil, hlt⟩,
          fun h => absurd h (by simp)⟩
    · obtain ⟨whole, tail, hwhole, rfl, htail, hend⟩ := ih (fun x hx => hok x (mem_cons_of_mem c hx)) hq
      refine ⟨c :: whole, tail, List.cons_prefix_cons.mpr ⟨rfl, hwhole⟩, by simp, htail, ?_⟩
      intro h
      exact hend (List.cons.inj h).2

theorem Block.argvs_ok {before body : List (List Bytes)} (hbefore : ∀ c ∈ before, Plain srv c)
    (hbody : ∀ c ∈ body, Plain srv c) : ∀ c ∈ (Block.transaction before body).argvs, ArgvOk c := by
  intro c hc
  rcases mem_append.mp hc with hc | hc
  · exact (hbefore c hc).ok
  rcases mem_cons.mp hc with rfl | hc
  · exact multi_ok
  rcases mem_append.mp hc with hc | hc
  · exact (hbody c hc).ok
  · rw [mem_singleton.mp hc]
    exact exec_ok

def Whole (p : Bytes) : Prop := ∃ cmds, (∀ c ∈ cmds, ArgvOk c) ∧ p = encodeAll cmds

theorem tail_not_whole {tail : Bytes} (htail : Tail tail) (hne : tail ≠ []) (cmds : List (List Bytes))
    (hok : ∀ c ∈ cmds, ArgvOk c) : ¬ Whole (encodeAll cmds ++ tail) := by
  rintro ⟨cmds', hok', heq⟩
  induction cmds generalizing cmds' with
  | nil =>
    rcases htail with rfl | ⟨c, hc, hcut, -, hlt⟩
    · exact hne rfl
    cases cmds' with
    | nil => exact hne heq
    | cons c' rest =>
      have hread := readCommand_cut hc hcut hne hlt
      rw [encodeAll_nil, List.nil_append] at heq
      rw [heq, encodeAll_cons, readCommand_encoded (hok' c' mem_cons_self)] at hread
      cases hread
  | cons c cmds ih =>
    cases cmds' with
    | nil =>
      have hlen := congrArg List.length heq
      have hpos := encodeCommand_length_pos c
      simp only [encodeAll_cons, encodeAll_nil, List.length_append, List.length_nil] at hlen
      omega
    | cons c' rest =>
      rw [encodeAll_cons, encodeAll_cons, append_assoc] at heq
      have hread := congrArg readCommand heq
      rw [readCommand_encoded (hok c mem_cons_self),
        readCommand_encoded (hok' c' mem_cons_self)] at hread
      have hrest : encodeAll cmds ++ tail = encodeAll rest := by
        injection hread with hread
        injection hread with hread
        exact (Prod.mk.inj hread).2
      exact ih (fun x hx => hok x (mem_cons_of_mem c hx)) rest
        (fun x hx => hok' x (mem_cons_of_mem c' hx)) hrest

def start : AofState V :=
  { data := emptyDataset
    aofSelectedDb := none
    aofBuf := [] }

theorem loaded_start (srv : Server V) (mstime : ℤ) : Loaded srv mstime start [] newLoader where
  toStands := Stands.nil srv mstime
  buf := rfl
  data := rfl
  selects := fun _ h => absurd h (by simp [start])

theorem execStep_buf {s s' : AofState V} {st : Step} (h : execStep srv s st = some s')
    (hok : StepOk srv st) : s.aofBuf <+: s'.aofBuf := by
  obtain ⟨more, inner, hbuf, -, -⟩ := Stands.step h hok
  rw [hbuf]
  exact prefix_append ..

theorem runSteps_buf (steps : List Step) : ∀ {s s' : AofState V}, runSteps srv steps s = some s' →
    (∀ st ∈ steps, StepOk srv st) → s.aofBuf <+: s'.aofBuf := by
  induction steps with
  | nil =>
    intro s s' h _
    cases h
    exact prefix_refl _
  | cons st steps ih =>
    intro s s' h hok
    rw [runSteps] at h
    obtain ⟨s1, h1, h2⟩ := Option.bind_eq_some_iff.mp h
    exact (execStep_buf h1 (hok st mem_cons_self)).trans
      (ih h2 (fun x hx => hok x (mem_cons_of_mem st hx)))

theorem run_cut (steps : List Step) : ∀ {s s' : AofState V} {p : Bytes},
    runSteps srv steps s = some s' → (∀ st ∈ steps, StepOk srv st) → s.aofBuf <+: p → p <+: s'.aofBuf →
    p = s'.aofBuf ∨ ∃ done st s1 s2, done ++ [st] <+: steps ∧ runSteps srv done s = some s1 ∧
      execStep srv s1 st = some s2 ∧ s1.aofBuf <+: p ∧ p <+: s2.aofBuf ∧ p ≠ s2.aofBuf := by
  induction steps with
  | nil =>
    intro s s' p h _ hsp hps
    cases h
    exact Or.inl (List.IsPrefix.eq_of_length_le hps (List.IsPrefix.length_le hsp))
  | cons st steps ih =>
    intro s s' p h hok hsp hps
    rw [runSteps] at h
    obtain ⟨s1, h1, h2⟩ := Option.bind_eq_some_iff.mp h
    by_cases hs1 : s1.aofBuf <+: p
    · rcases ih h2 (fun x hx => hok x (mem_cons_of_mem st hx)) hs1 hps with heq | hcut
      · exact Or.inl heq
      · obtain ⟨done, st', sa, sb, hdone, hrun, hcut⟩ := hcut
        refine Or.inr ⟨st :: done, st', sa, sb, ?_, ?_, hcut⟩
        · rw [List.cons_append]
          exact List.cons_prefix_cons.mpr ⟨rfl, hdone⟩
        · rw [runSteps, h1, Option.bind_some, hrun]
    · have hbuf : s1.aofBuf <+: s'.aofBuf := runSteps_buf steps h2 (fun x hx => hok x (mem_cons_of_mem st hx))
      have hp1 : p <+: s1.aofBuf := by
        rcases List.prefix_or_prefix_of_prefix hbuf hps with hle | hle
        · exact absurd hle hs1
        · exact hle
      refine Or.inr ⟨[], st, s, s1, ?_, rfl, h1, hsp, hp1, ?_⟩
      · exact List.cons_prefix_cons.mpr ⟨rfl, nil_prefix⟩
      · rintro rfl
        exact hs1 (prefix_refl _)

theorem Stands.loads {cmds : List (List Bytes)} {l : Loader V} (h : Stands srv mstime cmds l)
    {tail : Bytes} (htail : Tail tail) :
    loadAppendOnlyFile srv mstime (encodeAll cmds ++ tail) = .ok (l.data, encodeAll cmds) := by
  rw [loadAppendOnlyFile_spec htail h.ok h.load, h.multi]
  by_cases ht : tail ≠ []
  · rw [if_pos ht]
  · rw [if_neg ht, if_neg Bool.false_ne_true]

def Written (srv : Server V) (file : Bytes) (r : ℕ × Dataset V) : Prop :=
  ∃ cmds, file = encodeAll cmds ∧ ∀ mstime, ∃ l, Stands srv mstime cmds l ∧ (l.db, l.data) = r

theorem written_nil (srv : Server V) : Written srv [] (0, emptyDataset) :=
  ⟨[], rfl, fun mstime => ⟨newLoader, Stands.nil srv mstime, rfl⟩⟩

theorem Written.loads {file : Bytes} {r : ℕ × Dataset V} (h : Written srv file r) {tail : Bytes}
    (htail : Tail tail) (mstime : ℤ) : loadAppendOnlyFile srv mstime (file ++ tail) = .ok (r.2, file) := by
  obtain ⟨cmds, rfl, hstands⟩ := h
  obtain ⟨l, hl, rfl⟩ := hstands mstime
  exact hl.loads htail

theorem Written.append {file : Bytes} {r : ℕ × Dataset V} (h : Written srv file r)
    {more : List (List Bytes)} (hplain : ∀ c ∈ more, Plain srv c) (hclock : ∀ c ∈ more, ClockFree srv c) :
    Written srv (file ++ encodeAll more) (replayAll srv 0 more r) := by
  obtain ⟨cmds, rfl, hstands⟩ := h
  refine ⟨cmds ++ more, by rw [encodeAll_append], ?_⟩
  intro mstime
  obtain ⟨l, hl, rfl⟩ := hstands mstime
  obtain ⟨l', hl', hdata⟩ := hl.append hplain
  exact ⟨l', hl', by rw [hdata, replayAll_clock hclock mstime 0]⟩

theorem Written.step {s s' : AofState V} {r : ℕ × Dataset V} (h : Written srv s.aofBuf r) {st : Step}
    (hstep : execStep srv s st = some s') (hok : StepOk srv st) : ∃ r', Written srv s'.aofBuf r' := by
  obtain ⟨more, inner, hbuf, happ, hmore⟩ := Stands.step hstep hok
  obtain ⟨cmds, hfile, hstands⟩ := h
  refine ⟨replayAll srv 0 inner r, cmds ++ more, by rw [hbuf, hfile, encodeAll_append], ?_⟩
  intro mstime
  obtain ⟨l, hl, rfl⟩ := hstands mstime
  obtain ⟨l', hl', hdata⟩ := hmore hl
  exact ⟨l', hl', by rw [hdata, replayAll_clock happ.clock mstime 0]⟩

theorem Written.run (steps : List Step) : ∀ {s s' : AofState V} {r : ℕ × Dataset V},
    Written srv s.aofBuf r → runSteps srv steps s = some s' → (∀ st ∈ steps, StepOk srv st) →
    ∃ r', Written srv s'.aofBuf r' := by
  induction steps with
  | nil =>
    intro s s' r h hrun _
    cases hrun
    exact ⟨r, h⟩
  | cons st steps ih =>
    intro s s' r h hrun hok
    rw [runSteps] at hrun
    obtain ⟨s1, h1, h2⟩ := Option.bind_eq_some_iff.mp hrun
    obtain ⟨r1, hr1⟩ := h.step h1 (hok st mem_cons_self)
    exact ih hr1 h2 (fun x hx => hok x (mem_cons_of_mem st hx))

def Usable (srv : Server V) (data : Dataset V) (file : Bytes) : Prop :=
  ∀ (more : List Step) (s' : AofState V) (mstime : ℤ), (∀ st ∈ more, StepOk srv st) →
    (∀ st ∈ more, StepPunctual st) →
    runSteps srv more { data := data, aofSelectedDb := none, aofBuf := file } = some s' →
    ∃ file', loadAppendOnlyFile srv mstime s'.aofBuf = .ok (s'.data, file')

theorem Written.usable {file : Bytes} {r : ℕ × Dataset V} (h : Written srv file r) :
    Usable srv r.2 file := by
  intro more s' mstime hok hp hrun
  obtain ⟨cmds, rfl, hstands⟩ := h
  obtain ⟨l, hl, rfl⟩ := hstands mstime
  have hloaded : Loaded srv mstime { data := l.data, aofSelectedDb := none, aofBuf := encodeAll cmds }
      cmds l :=
    { hl with
      buf := rfl
      data := rfl
      selects := fun _ hd => absurd hd (by simp) }
  obtain ⟨cmds', l', hl'⟩ := hloaded.run more hrun hok hp
  have hload := hl'.loads (Or.inl rfl)
  rw [append_nil, ← hl'.buf, hl'.data] at hload
  exact ⟨_, hload⟩

def CutInTransaction (srv : Server V) (steps : List Step) (p : Bytes) : Prop :=
  ¬ Whole p ∧ ∃ done dbMulti items dbExec s1 s2 s3,
    done ++ [.transaction dbMulti items dbExec] <+: steps ∧ runSteps srv done start = some s1 ∧
    feedAppendOnlyFile 0 s1 .multi dbMulti [text "MULTI"] = some s2 ∧
    execTransaction srv dbMulti items dbExec s1 = some s3 ∧ s2.aofBuf <+: p ∧ p <+: s3.aofBuf

theorem Written.cut {file : Bytes} {r : ℕ × Dataset V} (h : Written srv file r)
    {more : List (List Bytes)} (hplain : ∀ c ∈ more, Plain srv c) (hclock : ∀ c ∈ more, ClockFree srv c)
    {tail : Bytes} (htail : Tail tail) (mstime : ℤ) :
    ∃ data file', loadAppendOnlyFile srv mstime (file ++ (encodeAll more ++ tail)) = .ok (data, file') ∧
      Usable srv data file' := by
  have hmore := h.append hplain hclock
  have hload := hmore.loads htail mstime
  rw [append_assoc] at hload
  exact ⟨_, _, hload, hmore.usable⟩

theorem Written.open_cut {file : Bytes} {r : ℕ × Dataset V} (h : Written srv file r)
    {queued : List (List Bytes)} (hplain : ∀ c ∈ queued, Plain srv c) (mstime : ℤ) :
    loadAppendOnlyFile srv mstime (file ++ encodeAll ([text "MULTI"] :: queued)) = .ok (r.2, file) := by
  obtain ⟨cmds, rfl, hstands⟩ := h
  obtain ⟨l, hl, rfl⟩ := hstands mstime
  obtain ⟨l', hload, hmulti, -, -, hdata, hvalid, hok⟩ := hl.queue hplain
  have hspec := loadAppendOnlyFile_spec (Or.inl rfl) hok hload
  rw [if_neg (by simp), hmulti, if_pos rfl, hvalid, hdata, encodeAll_append, append_nil,
    List.take_left] at hspec
  exact hspec

theorem Written.torn {file : Bytes} {r : ℕ × Dataset V} (h : Written srv file r)
    {queued : List (List Bytes)} (hplain : ∀ c ∈ queued, Plain srv c) {tail : Bytes} (htail : Tail tail)
    (hne : tail ≠ []) (mstime : ℤ) :
    loadAppendOnlyFile srv mstime (file ++ (encodeAll ([text "MULTI"] :: queued) ++ tail)) =
      .ok (r.2, file ++ encodeAll ([text "MULTI"] :: queued)) := by
  obtain ⟨cmds, rfl, hstands⟩ := h
  obtain ⟨l, hl, rfl⟩ := hstands mstime
  obtain ⟨l', hload, -, -, -, hdata, -, hok⟩ := hl.queue hplain
  have hspec := loadAppendOnlyFile_spec htail hok hload
  rw [if_pos hne, hdata, encodeAll_append, append_assoc] at hspec
  exact hspec

theorem usable_of_not_cut {steps : List Step} {s : AofState V} {p : Bytes}
    (hok : ∀ st ∈ steps, StepOk srv st) (hrun : runSteps srv steps start = some s) (hp : p <+: s.aofBuf)
    (hcut : ¬ CutInTransaction srv steps p) (mstime : ℤ) :
    ∃ data file, loadAppendOnlyFile srv mstime p = .ok (data, file) ∧ Usable srv data file := by
  have hnil : (start : AofState V).aofBuf = [] := rfl
  have hwritten : Written srv (start : AofState V).aofBuf (0, emptyDataset) := written_nil srv
  rcases run_cut steps hrun hok (by rw [hnil]; exact nil_prefix) hp with rfl | hstep
  · obtain ⟨r, hr⟩ := hwritten.run steps hrun hok
    have hload := hr.loads (Or.inl rfl) mstime
    rw [append_nil] at hload
    exact ⟨_, _, hload, hr.usable⟩
  obtain ⟨done, st, s1, s2, hdone, hrun1, hexec, hs1, hs2, hne⟩ := hstep
  have hmem : ∀ x ∈ done ++ [st], x ∈ steps := fun x hx => hdone.subset hx
  have hokst : StepOk srv st := hok st (hmem st (by simp))
  obtain ⟨r, hr⟩ := hwritten.run done hrun1 (fun x hx => hok x (hmem x (by simp [hx])))
  obtain ⟨q, rfl⟩ := hs1
  cases st with
  | command i =>
    obtain ⟨more, hbuf, happ⟩ := execItem_spec hexec hokst
    rw [hbuf] at hs2
    obtain ⟨whole, tail, hwhole, rfl, htail, -⟩ := cut_encodeAll more (fun c hc => (happ.plain c hc).ok)
      ((List.prefix_append_right_inj _).mp hs2)
    exact hr.cut (fun c hc => happ.plain c (hwhole.subset hc)) (fun c hc => happ.clock c (hwhole.subset hc))
      htail mstime
  | transaction dbMulti items dbExec =>
    obtain ⟨sm, body, hmulti, hbuf, hbufm, hbody, -⟩ := execTransaction_spec hexec hokst
    let before := selectFor s1.aofSelectedDb dbMulti
    have hbefore : ∀ c ∈ before, Plain srv c := selectFor_plain _ hokst.1
    have hclock : ∀ c ∈ before, ClockFree srv c := selectFor_clockFree _ _
    rw [hbuf] at hs2 hne
    obtain ⟨whole, tail, hwhole, rfl, htail, hend⟩ := cut_encodeAll
      (Block.transaction before body).argvs (Block.argvs_ok hbefore hbody)
      ((List.prefix_append_right_inj _).mp hs2)
    have hshort : whole ≠ (Block.transaction before body).argvs := by
      intro heq
      rw [hend heq, heq, append_nil] at hne
      exact hne rfl
    rcases prefix_append_cases hwhole with ⟨hpre, -⟩ | ⟨w, rfl, hw⟩
    · exact hr.cut (fun c hc => hbefore c (hpre.subset hc)) (fun c hc => hclock c (hpre.subset hc))
        htail mstime
    rcases List.prefix_cons_iff.mp hw with rfl | ⟨queued, rfl, hqueued⟩
    · rw [append_nil]
      exact hr.cut hbefore hclock htail mstime
    have hin : queued <+: body := by
      rcases List.prefix_concat_iff.mp hqueued with heq | hin
      · rw [heq] at hshort
        exact absurd rfl hshort
      · exact hin
    have hplain : ∀ c ∈ queued, Plain srv c := fun c hc => hbody c (hin.subset hc)
    have hrb := hr.append hbefore hclock
    by_cases htorn : tail = []
    · have hload := hrb.open_cut hplain mstime
      rw [append_assoc, ← encodeAll_append] at hload
      rw [htorn, append_nil]
      exact ⟨_, _, hload, hrb.usable⟩
    · refine absurd ?_ hcut
      obtain ⟨cmds, hcmds, hstands⟩ := hrb
      obtain ⟨l, hl, -⟩ := hstands mstime
      obtain ⟨-, -, -, -, -, -, -, hokall⟩ := hl.queue hplain
      refine ⟨?_, done, dbMulti, items, dbExec, s1, sm, s2, hdone, hrun1, hmulti, hexec, ?_, ?_⟩
      · have hfile : s1.aofBuf ++ (encodeAll (before ++ [text "MULTI"] :: queued) ++ tail) =
            encodeAll (cmds ++ [text "MULTI"] :: queued) ++ tail := by
          rw [encodeAll_append, encodeAll_append, ← hcmds]
          simp
        rw [hfile]
        exact tail_not_whole htail htorn _ hokall
      · have hsplit : s1.aofBuf ++ (encodeAll (before ++ [text "MULTI"] :: queued) ++ tail) =
            sm.aofBuf ++ (encodeAll queued ++ tail) := by
          rw [hbufm]
          simp [before]
        rw [hsplit]
        exact prefix_append ..
      · rw [hbuf]
        exact hs2

theorem feed_some {s : AofState V} {fedAt : ℤ} {proc : Proc} {argv : List Bytes} {cmds : List (List Bytes)}
    (h : translated fedAt proc argv = some cmds) (d : ℕ) :
    ∃ s', feedAppendOnlyFile fedAt s proc d argv = some s' := by
  unfold feedAppendOnlyFile
  dsimp only
  rw [translate_eq, h]
  exact ⟨_, rfl⟩

def toggle (data : Dataset V) : Item :=
  if ((data 0).dict (text "k")).isSome then
    { db := 0, proc := .del, argv := [text "DEL", text "k"], now := 0, fedAt := 0 }
  else { db := 0, proc := .set, argv := [text "SET", text "k", text "v"], now := 0, fedAt := 0 }

theorem toggle_ok (data : Dataset V) : ItemOk srv (toggle data) := by
  have hlookup : lookupCommand srv (arg [text "DEL", text "k"] 0) = some .del :=
    lookup_own ("del", .del) (by decide) _
  unfold toggle
  split_ifs
  · exact ⟨srv.dbnum_pos, ⟨by simp, by simp, by decide⟩, hlookup, by decide⟩
  · exact ⟨srv.dbnum_pos, ⟨by simp, by simp, by decide⟩, lookup_set _, by decide⟩

theorem toggle_punctual (data : Dataset V) : Punctual (toggle data) := by
  intro _
  unfold toggle
  split_ifs <;> rfl

theorem toggle_changes (s : AofState V) :
    ∃ s', execItem srv s (toggle s.data) = some s' ∧ s'.data ≠ s.data := by
  have hchanges : ∀ (proc : Proc) (argv : List Bytes) (data : Dataset V),
      toggle s.data = { db := 0, proc := proc, argv := argv, now := 0, fedAt := 0 } →
      call srv { now := 0, loading := false } 0 proc argv s.data = some (data, proc, argv) →
      translated 0 proc argv = some [argv] → data ≠ s.data →
      ∃ s', execItem srv s (toggle s.data) = some s' ∧ s'.data ≠ s.data := by
    intro proc argv data htoggle hcall htr hne
    obtain ⟨s', hfeed⟩ := @feed_some V { s with data := data } 0 proc argv [argv] htr 0
    refine ⟨s', ?_, ?_⟩
    · unfold execItem
      rw [htoggle]
      dsimp only
      rw [hcall]
      exact hfeed
    · obtain ⟨-, -, hdata, -⟩ := feed_spec hfeed
      rw [hdata]
      exact hne
  by_cases hk : ((s.data 0).dict (text "k")).isSome
  · apply hchanges .del [text "DEL", text "k"] (setDb s.data 0
      { dict := Function.update (s.data 0).dict (text "k") none
        expires := Function.update (s.data 0).expires (text "k") none })
    · unfold toggle
      rw [if_pos hk]
    · simp only [call, delGenericCommand_single hk, Option.map_some]
    · rfl
    · intro heq
      rw [← heq] at hk
      simp at hk
  · apply hchanges .set [text "SET", text "k", text "v"] (setDb s.data 0
      { dict := Function.update (s.data 0).dict (text "k") (some (srv.stringObject (text "v")))
        expires := Function.update (s.data 0).expires (text "k") none })
    · unfold toggle
      rw [if_neg hk]
    · simp [call, setOptions, noOptions, setGenericCommand, timeToLive]
    · rfl
    · intro heq
      rw [← heq] at hk
      simp at hk

theorem Written.not_usable {file : Bytes} {r : ℕ × Dataset V} (h : Written srv file r)
    {queued : List (List Bytes)} (hplain : ∀ c ∈ queued, Plain srv c) :
    ¬ Usable srv r.2 (file ++ encodeAll ([text "MULTI"] :: queued)) := by
  intro husable
  obtain ⟨s', hexec, hne⟩ := @toggle_changes V srv
    { data := r.2, aofSelectedDb := none, aofBuf := file ++ encodeAll ([text "MULTI"] :: queued) }
  obtain ⟨cmds, hbuf, happ⟩ := execItem_spec hexec (toggle_ok r.2)
  obtain ⟨file', hload⟩ := husable [.command (toggle r.2)] s' 0
    (fun st hst => by rw [mem_singleton.mp hst]; exact toggle_ok r.2)
    (fun st hst => by rw [mem_singleton.mp hst]; exact toggle_punctual r.2)
    (by rw [runSteps, execStep, hexec]; rfl)
  have hqueue : ∀ c ∈ queued ++ cmds, Plain srv c := by
    intro c hc
    rcases mem_append.mp hc with hc | hc
    · exact hplain c hc
    · exact happ.plain c hc
  have hopen := h.open_cut hqueue 0
  rw [← List.cons_append, encodeAll_append, ← append_assoc, ← hbuf, hload] at hopen
  injection hopen with hopen
  exact hne (Prod.mk.inj hopen).1

theorem not_usable_of_cut {steps : List Step} {p : Bytes} (hok : ∀ st ∈ steps, StepOk srv st)
    (hcut : CutInTransaction srv steps p) (mstime : ℤ) :
    ∃ data file, loadAppendOnlyFile srv mstime p = .ok (data, file) ∧ ¬ Usable srv data file := by
  obtain ⟨hnot, done, dbMulti, items, dbExec, s1, s2, s3, hdone, hrun, hmulti, hexec, hs2, hs3⟩ := hcut
  have hmem : ∀ x ∈ done ++ [Step.transaction dbMulti items dbExec], x ∈ steps :=
    fun x hx => hdone.subset hx
  have hokst : StepOk srv (.transaction dbMulti items dbExec) := hok _ (hmem _ (by simp))
  have hwritten : Written srv (start : AofState V).aofBuf (0, emptyDataset) := written_nil srv
  obtain ⟨r, hr⟩ := hwritten.run done hrun (fun x hx => hok x (hmem x (by simp [hx])))
  obtain ⟨sm, body, hsm, hbuf, hbufm, hbody, -⟩ := execTransaction_spec hexec hokst
  rw [hmulti] at hsm
  cases hsm
  let before := selectFor s1.aofSelectedDb dbMulti
  have hbefore : ∀ c ∈ before, Plain srv c := selectFor_plain _ hokst.1
  have hrb := hr.append hbefore (selectFor_clockFree _ _)
  obtain ⟨q, rfl⟩ := hs2
  have hs3buf : s3.aofBuf = s2.aofBuf ++ encodeAll (body ++ [[text "EXEC"]]) := by
    rw [hbuf, hbufm]
    simp [Block.argvs]
  rw [hs3buf] at hs3
  have hokbody : ∀ c ∈ body ++ [[text "EXEC"]], ArgvOk c := by
    intro c hc
    rcases mem_append.mp hc with hc | hc
    · exact (hbody c hc).ok
    · rw [mem_singleton.mp hc]
      exact exec_ok
  obtain ⟨queued, tail, hqueued, rfl, htail, hend⟩ := cut_encodeAll _ hokbody
    ((List.prefix_append_right_inj _).mp hs3)
  have hs2buf : s2.aofBuf = (s1.aofBuf ++ encodeAll before) ++ encodeAll [[text "MULTI"]] := by
    rw [hbufm, encodeAll_append, append_assoc]
  have htorn : tail ≠ [] := by
    rintro rfl
    obtain ⟨cmds, hcmds, hstands⟩ := hrb
    obtain ⟨l, hl, -⟩ := hstands mstime
    refine hnot ⟨cmds ++ [text "MULTI"] :: queued, ?_, ?_⟩
    · intro c hc
      rcases mem_append.mp hc with hc | hc
      · exact hl.ok c hc
      · rcases mem_cons.mp hc with rfl | hc
        · exact multi_ok
        · exact hokbody c (hqueued.subset hc)
    · rw [hs2buf, hcmds]
      simp
  have hin : queued <+: body := by
    rcases List.prefix_concat_iff.mp hqueued with heq | hin
    · exact absurd (hend heq) htorn
    · exact hin
  have hplain : ∀ c ∈ queued, Plain srv c := fun c hc => hbody c (hin.subset hc)
  have hload := hrb.torn hplain htail htorn mstime
  have hfile : s2.aofBuf ++ (encodeAll queued ++ tail) =
      s1.aofBuf ++ encodeAll before ++ (encodeAll ([text "MULTI"] :: queued) ++ tail) := by
    rw [hs2buf]
    simp
  rw [hfile]
  exact ⟨_, _, hload, hrb.not_usable hplain⟩

def sampleServer : Server Bytes where
  dbnum := 16
  dbnum_pos := Nat.succ_pos 15
  dbnum_int := by decide
  known := fun _ => false
  apply := fun _ _ data => data
  stringObject := id
  lazyfreeLazyExpire := false

def sampleRun : List Step :=
  [.transaction 0 [{ db := 0, proc := .set, argv := [text "SET", text "k", text "v"], now := 0, fedAt := 0 }] 0]

def sampleCut : Bytes := encodeAll [selectArgv 0, [text "MULTI"]] ++ text "*3\r\n$3\r\nSET\r\n"

theorem sampleRun_ok : ∀ st ∈ sampleRun, StepOk sampleServer st ∧ StepPunctual st := by
  intro st hst
  rw [mem_singleton.mp hst]
  refine ⟨⟨by decide, by decide, ?_⟩, ?_⟩
  · intro i hi
    rw [mem_singleton.mp hi]
    exact ⟨by decide, ⟨by simp, by simp, by decide⟩, lookup_set _, by decide⟩
  · intro i hi _
    rw [mem_singleton.mp hi]

theorem sampleRun_runs : ∃ s, runSteps sampleServer sampleRun start = some s ∧ sampleCut <+: s.aofBuf := by
  have hbuf : (runSteps sampleServer sampleRun start).map (fun s => s.aofBuf) =
      some (sampleCut ++ text "$1\r\nk\r\n$1\r\nv\r\n*1\r\n$4\r\nEXEC\r\n") := by
    decide +kernel
  obtain ⟨s, hs, hcut⟩ := Option.map_eq_some_iff.mp hbuf
  exact ⟨s, hs, by rw [hcut]; exact prefix_append ..⟩

end RedisCore.Aof
