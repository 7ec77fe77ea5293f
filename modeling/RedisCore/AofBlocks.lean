import RedisCore.AofReplay

namespace RedisCore.Aof

open Request (encodeCommand)

variable {V : Type} {srv : Server V} {mstime : ℤ}

theorem timeToLive_of_scan {opts : List Bytes} {o : SetOptions}
    (ho : setOptions opts noOptions = some o) (hscan : scanExpire opts (none, none) = (none, none)) :
    o.expire = none ∨ timeToLive o.expire = none := by
  have hscanned : Scanned noOptions (none, none) := by
    intro s n _
    constructor
    · intro h
      cases h
    · intro h
      cases h
  obtain ⟨hfound, -⟩ := setOptions_scan opts noOptions o (none, none) ho hscanned
  rw [hscan] at hfound
  cases he : o.expire with
  | none => exact Or.inl rfl
  | some e =>
    right
    obtain ⟨s, seconds⟩ := e
    unfold timeToLive
    dsimp only
    cases hs : string2ll s with
    | none => rfl
    | some n =>
      cases seconds with
      | true =>
        have hbad := (hfound s n hs).1 he
        cases hbad
      | false =>
        have hbad := (hfound s n hs).2 he
        cases hbad

def ClockFree (srv : Server V) (c : List Bytes) : Prop :=
  ∀ (m m' : ℤ) (r : ℕ × Dataset V), loadCall srv m r (resolve srv c) = loadCall srv m' r (resolve srv c)

variable {cmds : List (List Bytes)} {c argv : List Bytes} {proc : Proc} {fedAt : ℤ} {i : Item}
  {P Q : Prop} {s s' : AofState V} {d : ℕ}

theorem replayAll_clock (h : ∀ c ∈ cmds, ClockFree srv c) (m m' : ℤ)
    (r : ℕ × Dataset V) : replayAll srv m cmds r = replayAll srv m' cmds r := by
  induction cmds generalizing r with
  | nil => rfl
  | cons c cmds ih =>
    have hc := h c List.mem_cons_self m m' r
    have htail := fun x hx => h x (List.mem_cons_of_mem c hx)
    calc replayAll srv m (c :: cmds) r
        = replayAll srv m cmds (loadCall srv m r (resolve srv c)) := rfl
      _ = replayAll srv m' cmds (loadCall srv m' r (resolve srv c)) := by rw [hc, ih htail]

theorem clockFree_of_call (hname : lookupCommand srv (arg c 0) = some proc)
    (h : ∀ (m m' : ℤ) (d : ℕ) (data : Dataset V), call srv { now := m, loading := true } d proc c data =
      call srv { now := m', loading := true } d proc c data) : ClockFree srv c := by
  intro m m' r
  rw [resolve_of_lookup hname]
  unfold loadCall
  rw [h m m' r.1 r.2]

theorem expireat_clock (hproc : proc = .expireat ∨ proc = .pexpireat) (c : List Bytes)
    (m m' : ℤ) (d : ℕ) (data : Dataset V) :
    call srv { now := m, loading := true } d proc c data =
      call srv { now := m', loading := true } d proc c data := by
  have hnever : ∀ (w : ℤ) (n : ℤ), ¬ (w ≤ n ∧ true = false) := fun w n h => absurd h.2 (by decide)
  rcases hproc with rfl | rfl
  · match c with
    | [a, k, s] => simp only [call, expireUnit, expireGenericCommand, if_neg (hnever _ _)]
    | [] => rfl
    | [_] => rfl
    | [_, _] => rfl
    | _ :: _ :: _ :: _ :: _ => rfl
  · match c with
    | [a, k, s] => simp only [call, expireUnit, expireGenericCommand, if_neg (hnever _ _)]
    | [] => rfl
    | [_] => rfl
    | [_, _] => rfl
    | _ :: _ :: _ :: _ :: _ => rfl

theorem set_clock (hscan : scanExpire (c.drop 3) (none, none) = (none, none)) (m m' : ℤ)
    (d : ℕ) (data : Dataset V) :
    call srv { now := m, loading := true } d .set c data =
      call srv { now := m', loading := true } d .set c data := by
  match c with
  | a :: k :: v :: opts =>
    rw [show (a :: k :: v :: opts).drop 3 = opts from rfl] at hscan
    simp only [call]
    cases ho : setOptions opts noOptions with
    | none => rfl
    | some o =>
      rw [Option.bind_some, Option.bind_some]
      rcases timeToLive_of_scan ho hscan with hnone | herror
      · rw [setGenericCommand_ctx hnone]
      · unfold setGenericCommand
        rw [herror]
  | [] => rfl
  | [_] => rfl
  | [_, _] => rfl

theorem clockFree_pexpireat (fedAt : ℤ) (proc : Proc) (k s : Bytes) :
    ClockFree srv (pexpireat fedAt proc k s) :=
  clockFree_of_call (lookup_pexpireat _) (expireat_clock (Or.inr rfl) _)

theorem clockFree_set (hname : lookupCommand srv (arg c 0) = some .set)
    (hlen : c.length ≤ 3) : ClockFree srv c := by
  apply clockFree_of_call hname
  apply set_clock
  rw [List.drop_eq_nil_of_le hlen]
  rfl

theorem translated_clockFree (hname : lookupCommand srv (arg argv 0) = some proc)
    (hproc : proc ∉ [Proc.select, Proc.multi, Proc.exec]) (htr : translated fedAt proc argv = some cmds) : ∀ c ∈ cmds, ClockFree srv c := by
  have hzero : arg (argv.take 3) 0 = arg argv 0 := by
    cases argv with
    | nil => rfl
    | cons a rest => rfl
  apply translated_forall (P := ClockFree srv) htr
  · intro hrel hscan
    cases proc with
    | set => exact clockFree_of_call hname (set_clock (hscan rfl))
    | pexpireat => exact clockFree_of_call hname (expireat_clock (Or.inr rfl) _)
    | del | other => exact clockFree_of_call hname (fun _ _ _ _ => by cases argv <;> rfl)
    | setex | psetex | expire | pexpire | expireat => simp at hrel
    | select | multi | exec => simp at hproc
  · rintro rfl
    exact clockFree_set (by rw [hzero]; exact hname) (List.length_take_le ..)
  · exact clockFree_set (lookup_set _) (by simp)
  · exact fun p _ s => clockFree_pexpireat fedAt p _ s

theorem clockFree_of_item (hi : ItemOk srv i) {ctx : Ctx} {data data' : Dataset V}
    (hcall : call srv ctx i.db i.proc i.argv data = some (data', proc, argv))
    (htr : translated i.fedAt proc argv = some cmds) :
    ∀ c ∈ cmds, ClockFree srv c := by
  rcases call_propagates hcall with ⟨rfl, rfl⟩ | ⟨rfl, k, hk, rfl⟩
  · exact translated_clockFree hi.name hi.proc htr
  · exact translated_clockFree (lookup_del [k]) (by decide) htr

theorem clockFree_select (d : ℕ) : ClockFree srv (selectArgv d) := by
  intro m m' r
  have hresolve : resolve srv (selectArgv d) = (.select, selectArgv d) :=
    resolve_of_lookup (lookup_select _)
  rw [hresolve]
  rfl

inductive Block where
  | commands (cmds : List (List Bytes))
  | transaction (before body : List (List Bytes))

def Block.argvs : Block → List (List Bytes)
  | .commands cmds => cmds
  | .transaction before body => before ++ [text "MULTI"] :: (body ++ [[text "EXEC"]])

def Selects (selected : Option ℕ) (d : ℕ) : Prop := ∀ d', selected = some d' → d = d'

structure Appends (srv : Server V) (punctual : Prop) (s s' : AofState V) (cmds : List (List Bytes)) :
    Prop where
  plain : ∀ c ∈ cmds, Plain srv c
  clock : ∀ c ∈ cmds, ClockFree srv c
  replay : punctual → ∀ (mstime : ℤ) (d : ℕ), Selects s.aofSelectedDb d →
    ∃ d', replayAll srv mstime cmds (d, s.data) = (d', s'.data) ∧ Selects s'.aofSelectedDb d'

theorem Appends.refl (srv : Server V) (s : AofState V) : Appends srv True s s [] where
  plain := by simp
  clock := by simp
  replay := fun _ _ d hd => ⟨d, rfl, hd⟩

theorem Appends.trans {s1 s2 : AofState V} {cmds' : List (List Bytes)}
    (h : Appends srv P s s1 cmds) (h' : Appends srv Q s1 s2 cmds') :
    Appends srv (P ∧ Q) s s2 (cmds ++ cmds') where
  plain := by
    intro c hc
    rcases List.mem_append.mp hc with hc | hc
    · exact h.plain c hc
    · exact h'.plain c hc
  clock := by
    intro c hc
    rcases List.mem_append.mp hc with hc | hc
    · exact h.clock c hc
    · exact h'.clock c hc
  replay := by
    intro hpq mstime d hd
    obtain ⟨d1, h1, hd1⟩ := h.replay hpq.1 mstime d hd
    obtain ⟨d2, h2, hd2⟩ := h'.replay hpq.2 mstime d1 hd1
    exact ⟨d2, by rw [replayAll_append, h1, h2], hd2⟩

theorem Appends.weaken (hpq : Q → P) (h : Appends srv P s s' cmds) : Appends srv Q s s' cmds :=
  ⟨h.plain, h.clock, fun hq => h.replay (hpq hq)⟩

theorem selectFor_plain (selected : Option ℕ) (hd : d < srv.dbnum) :
    ∀ c ∈ selectFor selected d, Plain srv c := by
  intro c hc
  have hint := srv.dbnum_int
  have hc' : c = selectArgv d := by
    unfold selectFor at hc
    split_ifs at hc
    · cases hc
    · exact List.mem_singleton.mp hc
  rw [hc']
  refine ⟨⟨by simp [selectArgv], by simp [selectArgv], ?_⟩, .select, lookup_select _, by decide, by decide⟩
  intro a ha
  simp only [selectArgv, List.mem_cons, List.not_mem_nil, or_false] at ha
  rcases ha with rfl | rfl
  · rw [text_length]
    decide
  · exact decimal_short (by omega) (by omega)

theorem selectFor_clockFree (selected : Option ℕ) (d : ℕ) : ∀ c ∈ selectFor selected d, ClockFree srv c := by
  intro c hc
  unfold selectFor at hc
  split_ifs at hc
  · cases hc
  · rw [List.mem_singleton.mp hc]
    exact clockFree_select d

theorem replay_selectFor {selected : Option ℕ} {d' : ℕ} (hd : d < srv.dbnum)
    (hd' : Selects selected d')
    (data : Dataset V) : replayAll srv mstime (selectFor selected d) (d', data) = (d, data) := by
  unfold selectFor
  by_cases hsame : selected = some d
  · rw [if_pos hsame, hd' d hsame]
    rfl
  · rw [if_neg hsame, replay_select hd]

theorem selectFor_appends (hd : d < srv.dbnum) (hdata : s'.data = s.data)
    (hselected : s'.aofSelectedDb = some d) :
    Appends srv True s s' (selectFor s.aofSelectedDb d) where
  plain := selectFor_plain _ hd
  clock := selectFor_clockFree _ d
  replay := by
    intro _ mstime d0 hd0
    refine ⟨d, by rw [replay_selectFor hd hd0, hdata], ?_⟩
    intro d' hd'
    rw [hselected] at hd'
    exact Option.some.inj hd'

theorem execItem_cases (h : execItem srv s i = some s') : s' = s ∨ ∃ proc argv cmds,
      call srv { now := i.now, loading := false } i.db i.proc i.argv s.data = some (s'.data, proc, argv) ∧
      translated i.fedAt proc argv = some cmds ∧ s'.aofSelectedDb = some i.db ∧
      s'.aofBuf = s.aofBuf ++ encodeAll (selectFor s.aofSelectedDb i.db ++ cmds) := by
  unfold execItem at h
  cases hcall : call srv { now := i.now, loading := false } i.db i.proc i.argv s.data with
  | none =>
    rw [hcall] at h
    exact Or.inl (Option.some.inj h).symm
  | some r =>
    obtain ⟨data, proc, argv⟩ := r
    rw [hcall] at h
    obtain ⟨cmds, htr, hdata, hselected, hbuf⟩ := feed_spec h
    right
    rw [hdata]
    exact ⟨proc, argv, cmds, rfl, htr, hselected, hbuf⟩

theorem execItem_appends (hi : ItemOk srv i)
    (hcall : call srv { now := i.now, loading := false } i.db i.proc i.argv s.data =
      some (s'.data, proc, argv))
    (htr : translated i.fedAt proc argv = some cmds) (hselected : s'.aofSelectedDb = some i.db) :
    Appends srv (Punctual i) s s' (selectFor s.aofSelectedDb i.db ++ cmds) := by
  have hselect : Appends srv True s { s with aofSelectedDb := some i.db } (selectFor s.aofSelectedDb i.db) :=
    selectFor_appends hi.db rfl rfl
  have hcmds : Appends srv (Punctual i) { s with aofSelectedDb := some i.db } s' cmds := by
    refine ⟨plain_of_call hi hcall htr, clockFree_of_item hi hcall htr, ?_⟩
    intro hp mstime d hd
    have hdb : d = i.db := hd i.db rfl
    refine ⟨i.db, by rw [hdb]; exact replays_call hi hp hcall htr, ?_⟩
    intro d' hd'
    rw [hselected] at hd'
    exact Option.some.inj hd'
  exact (hselect.trans hcmds).weaken (fun hp => ⟨trivial, hp⟩)

theorem execItem_spec (h : execItem srv s i = some s') (hi : ItemOk srv i) :
    ∃ cmds, s'.aofBuf = s.aofBuf ++ encodeAll cmds ∧ Appends srv (Punctual i) s s' cmds := by
  rcases execItem_cases h with rfl | ⟨proc, argv, cmds, hcall, htr, hselected, hbuf⟩
  · exact ⟨[], by simp, (Appends.refl srv s').weaken (fun _ => trivial)⟩
  · exact ⟨_, hbuf, execItem_appends hi hcall htr hselected⟩

theorem execItems_spec (items : List Item) : ∀ {s s' : AofState V}, execItems srv items s = some s' →
    (∀ i ∈ items, ItemOk srv i) → ∃ cmds, s'.aofBuf = s.aofBuf ++ encodeAll cmds ∧
      Appends srv (∀ i ∈ items, Punctual i) s s' cmds := by
  induction items with
  | nil =>
    intro s s' h _
    cases h
    exact ⟨[], by simp, (Appends.refl srv s).weaken (fun _ => trivial)⟩
  | cons i items ih =>
    intro s s' h hok
    rw [execItems] at h
    obtain ⟨s1, h1, h2⟩ := Option.bind_eq_some_iff.mp h
    obtain ⟨cmds, hbuf, happ⟩ := execItem_spec h1 (hok i List.mem_cons_self)
    obtain ⟨cmds', hbuf', happ'⟩ := ih h2 (fun x hx => hok x (List.mem_cons_of_mem i hx))
    refine ⟨cmds ++ cmds', by rw [hbuf', hbuf, encodeAll_append, List.append_assoc], ?_⟩
    exact (happ.trans happ').weaken
      (fun hp => ⟨hp i List.mem_cons_self, fun x hx => hp x (List.mem_cons_of_mem i hx)⟩)

def StepOk (srv : Server V) : Step → Prop
  | .command i => ItemOk srv i
  | .transaction dbMulti items dbExec =>
    dbMulti < srv.dbnum ∧ dbExec < srv.dbnum ∧ ∀ i ∈ items, ItemOk srv i

def StepPunctual : Step → Prop
  | .command i => Punctual i
  | .transaction _ items _ => ∀ i ∈ items, Punctual i

theorem translated_bracket (h : proc = .multi ∨ proc = .exec) :
    translated fedAt proc argv = some [argv] := by
  rcases h with rfl | rfl <;> rfl

theorem feed_multi (h : feedAppendOnlyFile 0 s .multi d [text "MULTI"] = some s') : s'.data =
    s.data ∧
      s'.aofSelectedDb = some d ∧
      s'.aofBuf = s.aofBuf ++ encodeAll (selectFor s.aofSelectedDb d ++ [[text "MULTI"]]) := by
  obtain ⟨cmds, htr, hdata, hselected, hbuf⟩ := feed_spec h
  rw [translated_bracket (Or.inl rfl)] at htr
  cases htr
  exact ⟨hdata, hselected, hbuf⟩

theorem execTransaction_spec {dbMulti dbExec : ℕ} {items : List Item}
    (h : execTransaction srv dbMulti items dbExec s = some s')
    (hok : StepOk srv (.transaction dbMulti items dbExec)) :
    ∃ s1 body, feedAppendOnlyFile 0 s .multi dbMulti [text "MULTI"] = some s1 ∧
      s'.aofBuf = s.aofBuf ++
        encodeAll (Block.transaction (selectFor s.aofSelectedDb dbMulti) body).argvs ∧
      s1.aofBuf = s.aofBuf ++ encodeAll (selectFor s.aofSelectedDb dbMulti ++ [[text "MULTI"]]) ∧
      (∀ c ∈ body, Plain srv c) ∧
      Appends srv (∀ i ∈ items, Punctual i) s s' (selectFor s.aofSelectedDb dbMulti ++ body) := by
  obtain ⟨hmulti, hexec, hitems⟩ := hok
  unfold execTransaction at h
  obtain ⟨s1, h1, h⟩ := Option.bind_eq_some_iff.mp h
  obtain ⟨s2, h2, h3⟩ := Option.bind_eq_some_iff.mp h
  obtain ⟨hdata1, hselected1, hbuf1⟩ := feed_multi h1
  obtain ⟨cmds, hbuf2, happ2⟩ := execItems_spec items h2 hitems
  obtain ⟨last, htr, hdata3, hselected3, hbuf3⟩ := feed_spec h3
  rw [translated_bracket (Or.inr rfl)] at htr
  cases htr
  have happ1 : Appends srv True s s1 (selectFor s.aofSelectedDb dbMulti) :=
    selectFor_appends hmulti hdata1 hselected1
  have happ3 : Appends srv True s2 s' (selectFor s2.aofSelectedDb dbExec) :=
    selectFor_appends hexec hdata3 hselected3
  have hbody := happ2.trans happ3
  refine ⟨s1, cmds ++ selectFor s2.aofSelectedDb dbExec, h1, ?_, hbuf1, hbody.plain, ?_⟩
  · rw [hbuf3, hbuf2, hbuf1]
    simp [Block.argvs]
  · exact (happ1.trans hbody).weaken (fun hp => ⟨trivial, hp, trivial⟩)

end RedisCore.Aof
