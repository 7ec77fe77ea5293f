import RedisCore.AofModel

namespace RedisCore.Aof
open List (cons_append length_append map_cons mem_cons_self)

open Request (encodeCommand)

variable {V : Type} {srv : Server V} {mstime : ℤ}

def encodeAll (cmds : List (List Bytes)) : Bytes := cmds.flatMap encodeCommand

@[simp] theorem encodeAll_nil : encodeAll [] = [] := rfl

@[simp] theorem encodeAll_cons (c : List Bytes) (cmds : List (List Bytes)) :
    encodeAll (c :: cmds) = encodeCommand c ++ encodeAll cmds := List.flatMap_cons

@[simp] theorem encodeAll_append (cmds cmds' : List (List Bytes)) :
    encodeAll (cmds ++ cmds') = encodeAll cmds ++ encodeAll cmds' := List.flatMap_append

theorem encodeCommand_length_pos (c : List Bytes) : 0 < (encodeCommand c).length := by
  simp [encodeCommand, Request.encodeLine]

def loadAll (srv : Server V) (mstime : ℤ) : List (List Bytes) → Loader V → ℕ → Option (Loader V)
  | [], l, _ => some l
  | c :: cmds, l, pos =>
    (loadStep srv mstime l c (pos+(encodeCommand c).length)).bind (fun l =>
      loadAll srv mstime cmds l (pos+(encodeCommand c).length))

theorem loadAll_append (cmds cmds' : List (List Bytes)) : ∀ (l : Loader V) (pos : ℕ),
    loadAll srv mstime (cmds ++ cmds') l pos = (loadAll srv mstime cmds l pos).bind (fun l =>
      loadAll srv mstime cmds' l (pos+(encodeAll cmds).length)) := by
  induction cmds with
  | nil => exact fun l pos => rfl
  | cons c cmds ih =>
    intro l pos
    rw [cons_append, loadAll, loadAll]
    cases loadStep srv mstime l c (pos+(encodeCommand c).length) with
    | none => rfl
    | some l' =>
      rw [Option.bind_some, Option.bind_some, ih, encodeAll_cons, length_append, Nat.add_assoc]

theorem loadStep_validUpTo {l l' : Loader V} {c : List Bytes} {pos : ℕ}
    (h : loadStep srv mstime l c pos = some l') : l'.validUpTo = pos := by
  unfold loadStep at h
  cases hproc : lookupCommand srv (arg c 0) with
  | none =>
    rw [hproc] at h
    cases h
  | some proc =>
    rw [hproc] at h
    cases h
    rfl

theorem loadAll_validUpTo (cmds : List (List Bytes)) : ∀ {l l' : Loader V} {pos : ℕ},
    loadAll srv mstime cmds l pos = some l' → l.validUpTo = pos →
    l'.validUpTo = pos+(encodeAll cmds).length := by
  induction cmds with
  | nil =>
    intro l l' pos h hpos
    cases h
    exact hpos
  | cons c cmds ih =>
    intro l l' pos h _
    rw [loadAll] at h
    obtain ⟨l1, h1, h2⟩ := Option.bind_eq_some_iff.mp h
    rw [ih h2 (loadStep_validUpTo h1), encodeAll_cons, length_append, Nat.add_assoc]

def Tail (tail : Bytes) : Prop :=
  tail = [] ∨ ∃ c, ArgvOk c ∧ tail <+: encodeCommand c ∧ tail ≠ [] ∧
    tail.length < (encodeCommand c).length

theorem readCommand_nil : readCommand [] = .ok none := rfl

theorem loadLoop_spec (total : ℕ) {tail : Bytes} (htail : Tail tail) (cmds : List (List Bytes)) :
    ∀ (fuel : ℕ) (l l' : Loader V) (pos : ℕ), (∀ c ∈ cmds, ArgvOk c) → cmds.length < fuel →
      total = pos+(encodeAll cmds).length+tail.length → loadAll srv mstime cmds l pos = some l' →
      loadLoop srv mstime total fuel (encodeAll cmds ++ tail) l = .ok (l', decide (tail ≠ [])) := by
  induction cmds with
  | nil =>
    intro fuel l l' pos _ hfuel _ hload
    cases hload
    cases fuel with
    | zero => exact absurd hfuel (Nat.not_lt_zero _)
    | succ fuel =>
      rw [loadLoop, encodeAll_nil, List.nil_append]
      rcases htail with rfl | ⟨c, hc, hcut, hne, hlt⟩
      · rw [readCommand_nil]
        simp
      · rw [readCommand_cut hc hcut hne hlt]
        simp [hne]
  | cons c cmds ih =>
    intro fuel l l' pos hok hfuel htotal hload
    cases fuel with
    | zero => exact absurd hfuel (Nat.not_lt_zero _)
    | succ fuel =>
      rw [loadAll] at hload
      obtain ⟨l1, h1, h2⟩ := Option.bind_eq_some_iff.mp hload
      rw [encodeAll_cons, length_append] at htotal
      have hpos : total-(encodeAll cmds ++ tail).length = pos+(encodeCommand c).length := by
        rw [length_append]
        omega
      rw [loadLoop, encodeAll_cons, List.append_assoc, readCommand_encoded (hok c mem_cons_self)]
      dsimp only
      rw [hpos, h1]
      apply ih fuel l1 l' _ (fun x hx => hok x (List.mem_cons_of_mem _ hx)) _ _ h2
      · rw [List.length_cons] at hfuel
        omega
      · omega

theorem length_le_encodeAll (cmds : List (List Bytes)) : cmds.length ≤ (encodeAll cmds).length := by
  induction cmds with
  | nil => exact le_refl 0
  | cons c cmds ih =>
    have hpos := encodeCommand_length_pos c
    rw [List.length_cons, encodeAll_cons, length_append]
    omega

theorem not_preamble {c : Bytes} (h : c.head? = some 42) : c.take 5 ≠ text "REDIS" := by
  cases c with
  | nil => cases h
  | cons b c =>
    cases h
    intro heq
    have hhead := congrArg List.head? heq
    rw [List.take_succ_cons, List.head?_cons] at hhead
    exact absurd hhead (by decide)

theorem encodeCommand_head (c : List Bytes) : ∃ w, encodeCommand c = 42 :: w :=
  ⟨_, by rw [encodeCommand, Request.encodeLine, cons_append, cons_append]⟩

theorem file_head {cmds : List (List Bytes)} {tail : Bytes} (htail : Tail tail)
    (hne : encodeAll cmds ++ tail ≠ []) : (encodeAll cmds ++ tail).head? = some 42 := by
  cases cmds with
  | nil =>
    rw [encodeAll_nil, List.nil_append] at hne ⊢
    rcases htail with rfl | ⟨c, -, hcut, -, -⟩
    · exact absurd rfl hne
    · obtain ⟨w, hw⟩ := encodeCommand_head c
      obtain ⟨rest, hrest⟩ := hcut
      cases tail with
      | nil => exact absurd rfl hne
      | cons b tail =>
        rw [hw, cons_append] at hrest
        rw [(List.cons.inj hrest).1]
        rfl
  | cons c cmds =>
    obtain ⟨w, hw⟩ := encodeCommand_head c
    rw [encodeAll_cons, hw]
    rfl

theorem loadAppendOnlyFile_spec {cmds : List (List Bytes)} {tail : Bytes} (htail : Tail tail)
    (hok : ∀ c ∈ cmds, ArgvOk c) {l : Loader V} (hload : loadAll srv mstime cmds newLoader 0 = some l) :
    loadAppendOnlyFile srv mstime (encodeAll cmds ++ tail) =
      .ok (l.data, if tail ≠ [] then encodeAll cmds
        else if l.multi then (encodeAll cmds).take l.validBeforeMulti else encodeAll cmds) := by
  have hup := loadAll_validUpTo cmds hload rfl
  rw [Nat.zero_add] at hup
  unfold loadAppendOnlyFile
  by_cases hnil : encodeAll cmds ++ tail = []
  · obtain ⟨hcmds, rfl⟩ := List.append_eq_nil_iff.mp hnil
    have hlen := length_le_encodeAll cmds
    rw [hcmds] at hlen
    have hc := List.eq_nil_of_length_eq_zero (Nat.le_zero.mp hlen)
    rw [hc] at hload ⊢
    cases hload
    rfl
  rw [if_neg hnil, if_neg (not_preamble (file_head htail hnil))]
  have hloop := @loadLoop_spec V srv mstime (encodeAll cmds ++ tail).length tail htail cmds
    ((encodeAll cmds ++ tail).length+1) newLoader l 0 hok
    (by
      have hlen := length_le_encodeAll cmds
      rw [length_append]
      omega)
    (by rw [length_append, Nat.zero_add]) hload
  rw [hloop]
  dsimp only
  by_cases ht : tail ≠ []
  · rw [if_pos (decide_eq_true ht), if_pos ht, hup, List.take_left]
  · rw [not_not] at ht
    rw [ht]
    simp only [ne_eq, not_true_eq_false, decide_false, Bool.false_eq_true, if_false, List.append_nil]
    split_ifs <;> rfl

structure Plain (srv : Server V) (c : List Bytes) : Prop where
  ok : ArgvOk c
  known : ∃ proc, lookupCommand srv (arg c 0) = some proc ∧ proc ≠ .multi ∧ proc ≠ .exec

def resolve (srv : Server V) (c : List Bytes) : Proc × List Bytes :=
  ((lookupCommand srv (arg c 0)).getD .other, c)

theorem loadAll_plain (cmds : List (List Bytes)) : ∀ (l : Loader V) (pos : ℕ),
    (∀ c ∈ cmds, Plain srv c) → l.multi = false →
    ∃ l', loadAll srv mstime cmds l pos = some l' ∧ l'.multi = false ∧ l'.commands = l.commands ∧
      (l'.db, l'.data) = (cmds.map (resolve srv)).foldl (loadCall srv mstime) (l.db, l.data) := by
  induction cmds with
  | nil => exact fun l pos _ hl => ⟨l, rfl, hl, rfl, rfl⟩
  | cons c cmds ih =>
    intro l pos hplain hl
    obtain ⟨-, proc, hproc, hmulti, hexec⟩ := hplain c mem_cons_self
    have hstep : loadStep srv mstime l c (pos+(encodeCommand c).length) =
        some { l with
          db := (loadCall srv mstime (l.db, l.data) (proc, c)).1
          data := (loadCall srv mstime (l.db, l.data) (proc, c)).2
          validUpTo := pos+(encodeCommand c).length } := by
      unfold loadStep loadCommand
      rw [hproc]
      dsimp only
      rw [if_neg hmulti, if_neg (by rw [hl]; simp), if_neg hmulti, if_neg hexec]
    obtain ⟨l', hload, hl', hcommands, hdata⟩ := ih
      { l with
        db := (loadCall srv mstime (l.db, l.data) (proc, c)).1
        data := (loadCall srv mstime (l.db, l.data) (proc, c)).2
        validUpTo := pos+(encodeCommand c).length }
      (pos+(encodeCommand c).length) (fun x hx => hplain x (List.mem_cons_of_mem _ hx)) hl
    refine ⟨l', ?_, hl', hcommands, ?_⟩
    · rw [loadAll, hstep, Option.bind_some, hload]
    · rw [hdata, map_cons, List.foldl_cons, resolve, hproc]
      rfl

theorem loadAll_queued (cmds : List (List Bytes)) : ∀ (l : Loader V) (pos : ℕ),
    (∀ c ∈ cmds, Plain srv c) → l.multi = true →
    ∃ l', loadAll srv mstime cmds l pos = some l' ∧ l'.multi = true ∧
      l'.commands = l.commands ++ cmds.map (resolve srv) ∧ l'.db = l.db ∧ l'.data = l.data ∧
      l'.validBeforeMulti = l.validBeforeMulti := by
  induction cmds with
  | nil => exact fun l pos _ hl => ⟨l, rfl, hl, by simp, rfl, rfl, rfl⟩
  | cons c cmds ih =>
    intro l pos hplain hl
    obtain ⟨-, proc, hproc, hmulti, hexec⟩ := hplain c mem_cons_self
    have hstep : loadStep srv mstime l c (pos+(encodeCommand c).length) =
        some { l with
          commands := l.commands ++ [(proc, c)]
          validUpTo := pos+(encodeCommand c).length } := by
      unfold loadStep loadCommand
      rw [hproc]
      dsimp only
      rw [if_neg hmulti, if_pos ⟨hl, hexec⟩]
    obtain ⟨l', hload, hl', hcommands, hrest⟩ := ih
      { l with
        commands := l.commands ++ [(proc, c)]
        validUpTo := pos+(encodeCommand c).length }
      (pos+(encodeCommand c).length) (fun x hx => hplain x (List.mem_cons_of_mem _ hx)) hl
    refine ⟨l', ?_, hl', ?_, hrest⟩
    · rw [loadAll, hstep, Option.bind_some, hload]
    · rw [hcommands, map_cons, resolve, hproc]
      simp

theorem lookup_multi : lookupCommand srv (arg [text "MULTI"] 0) = some .multi := by
  unfold lookupCommand
  rw [show commandNames.find? (fun c => sameCaseless (text c.1) (arg [text "MULTI"] 0)) =
    some ("multi", .multi) by decide]

theorem lookup_exec : lookupCommand srv (arg [text "EXEC"] 0) = some .exec := by
  unfold lookupCommand
  rw [show commandNames.find? (fun c => sameCaseless (text c.1) (arg [text "EXEC"] 0)) =
    some ("exec", .exec) by decide]

theorem loadStep_multi {l : Loader V} (hl : l.multi = false) (pos : ℕ) :
    loadStep srv mstime l [text "MULTI"] pos =
      some { l with multi := true, validBeforeMulti := l.validUpTo, validUpTo := pos } := by
  unfold loadStep loadCommand
  rw [lookup_multi]
  simp [hl]

theorem loadStep_exec {l : Loader V} (hl : l.multi = true) (pos : ℕ) :
    loadStep srv mstime l [text "EXEC"] pos =
      some { l with
        db := (l.commands.foldl (loadCall srv mstime) (l.db, l.data)).1
        multi := false
        commands := []
        data := (l.commands.foldl (loadCall srv mstime) (l.db, l.data)).2
        validUpTo := pos } := by
  unfold loadStep loadCommand
  rw [lookup_exec]
  simp [hl]

end RedisCore.Aof
