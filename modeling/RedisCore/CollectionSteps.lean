import RedisCore.SortModel

namespace RedisCore.Collection

def Value.NonEmpty : Value → Prop
  | .string _ => True
  | .list es => es ≠ []
  | .set ms => ms ≠ []
  | .hash fs => fs ≠ []

def NonEmpty (db : RedisDb) : Prop := ∀ k v, db.dict k = some v → v.NonEmpty

def Purged (env : Env) (db db' : RedisDb) : Prop :=
  ∀ k, (db'.dict k = db.dict k ∧ db'.expires k = db.expires k) ∨
    (keyIsExpired env db k = true ∧ db'.dict k = none ∧ db'.expires k = none)

def Reply.IsError : Reply → Prop
  | .error _ => True
  | _ => False

structure Good (env : Env) (db : RedisDb) (r : RedisDb × Reply) : Prop where
  nonEmpty : NonEmpty r.1
  unchanged : r.2.IsError → Purged env db r.1

variable {env : Env} {db db1 db2 : RedisDb}

theorem Purged.refl : Purged env db db := fun _ => Or.inl ⟨rfl, rfl⟩

theorem Purged.trans (h : Purged env db db1) (h' : Purged env db1 db2) : Purged env db db2 := by
  intro k
  rcases h k with ⟨hd, he⟩ | ⟨hx, hd, he⟩
  · have hexp : keyIsExpired env db1 k = keyIsExpired env db k := by
      unfold keyIsExpired
      rw [he]
    rcases h' k with ⟨hd', he'⟩ | ⟨hx', hn⟩
    · exact Or.inl ⟨hd'.trans hd, he'.trans he⟩
    · exact Or.inr ⟨hexp ▸ hx', hn⟩
  · rcases h' k with ⟨hd', he'⟩ | ⟨-, hn⟩
    · exact Or.inr ⟨hx, hd'.trans hd, he'.trans he⟩
    · exact Or.inr ⟨hx, hn⟩

theorem Purged.nonEmpty (h : Purged env db db1) (hn : NonEmpty db) : NonEmpty db1 := by
  intro k v hv
  rcases h k with ⟨hd, -⟩ | ⟨-, hd, -⟩
  · exact hn k v (hd ▸ hv)
  · rw [hd] at hv
    cases hv

theorem purged_expireIfNeeded (env : Env) (db : RedisDb) (k : Bytes) :
    Purged env db (expireIfNeeded env db k) := by
  intro k'
  unfold expireIfNeeded
  by_cases hx : (keyIsExpired env db k && !env.slave) = true
  · rw [if_pos hx]
    have hexp : keyIsExpired env db k = true := (Bool.and_eq_true_iff.mp hx).1
    by_cases hk : k' = k
    · rw [hk]
      exact Or.inr ⟨hexp, Function.update_self .., Function.update_self ..⟩
    · exact Or.inl ⟨Function.update_of_ne hk .., Function.update_of_ne hk ..⟩
  · rw [if_neg hx]
    exact Or.inl ⟨rfl, rfl⟩

variable {v : Value} {k : Bytes} {r : Reply} {dobj : Option Value}

theorem NonEmpty.setValue (h : NonEmpty db) (k : Bytes) (hv : v.NonEmpty) :
    NonEmpty (setValue db k v) := by
  intro k' v' h'
  by_cases hk : k' = k
  · have hval : some v = some v' := by simpa [Collection.setValue, hk] using h'
    cases hval
    exact hv
  · have hval : db.dict k' = some v' := by simpa [Collection.setValue, hk] using h'
    exact h k' v' hval

theorem NonEmpty.dbDelete (h : NonEmpty db) (k : Bytes) : NonEmpty (dbDelete db k) := by
  intro k' v' h'
  by_cases hk : k' = k
  · simp [Collection.dbDelete, hk] at h'
  · have hval : db.dict k' = some v' := by simpa [Collection.dbDelete, hk] using h'
    exact h k' v' hval

def NonEmptyBut (k : Bytes) (db : RedisDb) : Prop := ∀ k' v, k' ≠ k → db.dict k' = some v → v.NonEmpty

theorem NonEmptyBut.setValue (h : NonEmptyBut k db) (hv : v.NonEmpty) :
    NonEmpty (setValue db k v) := by
  intro k' v' h'
  by_cases hk : k' = k
  · have hval : some v = some v' := by simpa [Collection.setValue, hk] using h'
    cases hval
    exact hv
  · have hval : db.dict k' = some v' := by simpa [Collection.setValue, hk] using h'
    exact h k' v' hk hval

theorem NonEmpty.but (h : NonEmpty db) (k : Bytes) : NonEmptyBut k db := fun k' v _ => h k' v

theorem nonEmptyBut_setValue (h : NonEmpty db) (k : Bytes) (v : Value) :
    NonEmptyBut k (Collection.setValue db k v) := by
  intro k' v' hk h'
  have hval : db.dict k' = some v' := by simpa [Collection.setValue, hk] using h'
  exact h k' v' hval

theorem good_purged (hn : NonEmpty db) (h : Purged env db db1) (r : Reply) : Good env db (db1, r) :=
  ⟨h.nonEmpty hn, fun _ => h⟩

theorem good_changed (h : NonEmpty db1) (hr : ¬r.IsError) : Good env db (db1, r) :=
  ⟨h, fun he => absurd he hr⟩

@[simp] theorem isError_ok : ¬Reply.ok.IsError := id
@[simp] theorem isError_null : ¬Reply.null.IsError := id
@[simp] theorem isError_emptySet : ¬Reply.emptySet.IsError := id
@[simp] theorem isError_int (n : ℤ) : ¬(Reply.int n).IsError := id
@[simp] theorem isError_bulk (s : Bytes) : ¬(Reply.bulk s).IsError := id
@[simp] theorem isError_array (es : List (Option Bytes)) : ¬(Reply.array es).IsError := id
@[simp] theorem isError_addReplySet (ms : List Bytes) : ¬(addReplySet ms).IsError := by
  unfold addReplySet
  split <;> exact id

theorem dbAdd_yields (h : db.dict k = none) (v : Value) :
    Yields True (dbAdd db k v) (· = setValue db k v) := by
  unfold dbAdd
  rw [h]
  rfl

theorem dbOverwrite_yields {o : Value} (h : db.dict k = some o) (v : Value) :
    Yields True (dbOverwrite db k v) (· = setValue db k v) := by
  unfold dbOverwrite
  rw [h]
  rfl

theorem setKey_yields (hn : NonEmpty db) (k : Bytes) (hv : v.NonEmpty) :
    Yields True (setKey env db k v) NonEmpty := by
  unfold setKey lookupKeyWrite
  dsimp only
  have hn1 := (purged_expireIfNeeded env db k).nonEmpty hn
  have hput : Yields True (if ((expireIfNeeded env db k).dict k).isNone then
      dbAdd (expireIfNeeded env db k) k v else dbOverwrite (expireIfNeeded env db k) k v)
      (· = setValue (expireIfNeeded env db k) k v) := by
    cases ho : (expireIfNeeded env db k).dict k with
    | none => exact dbAdd_yields ho v
    | some o => exact dbOverwrite_yields ho v
  apply hput.bind
  intro db' hdb'
  rw [hdb']
  exact hn1.setValue k hv

theorem lookupKeyWrite_spec (env : Env) (hn : NonEmpty db) (k : Bytes) :
    ∃ db1 o, lookupKeyWrite env db k = (db1, o) ∧ NonEmpty db1 ∧ Purged env db db1 ∧ db1.dict k = o :=
  ⟨_, _, rfl, (purged_expireIfNeeded env db k).nonEmpty hn, purged_expireIfNeeded env db k, rfl⟩

theorem lookupKeyWrite_again (h : lookupKeyWrite env db k = (db1, some v)) :
    lookupKeyWrite env db1 k = (db1, some v) := by
  by_cases hx : (keyIsExpired env db k && !env.slave) = true
  · simp [lookupKeyWrite, expireIfNeeded, hx, dbDelete] at h
  · have hdb : expireIfNeeded env db k = db := by
      unfold expireIfNeeded
      rw [if_neg hx]
    have heq : db = db1 := by
      rw [lookupKeyWrite, hdb] at h
      exact congrArg Prod.fst h
    rwa [heq] at h

theorem listTypePush_ne_nil (es : List Bytes) (v : Bytes) (side : Side) : listTypePush es v side ≠ [] := by
  cases side <;> simp [listTypePush]

theorem pushAll_ne_nil (side : Side) : ∀ (vs es : List Bytes), es ≠ [] ∨ vs ≠ [] →
    pushAll es vs side ≠ [] := by
  intro vs
  induction vs with
  | nil =>
    intro es h
    simpa [pushAll] using h
  | cons v vs ih =>
    intro es _
    exact ih _ (Or.inl (listTypePush_ne_nil es v side))

theorem pushGenericCommand_good (hn : NonEmpty db) (side : Side) (argv : List Bytes) :
    Yields True (pushGenericCommand side env argv db) (Good env db) := by
  obtain ⟨db1, o, hl, hn1, hp, ho⟩ := lookupKeyWrite_spec env hn (arg argv 1)
  simp only [pushGenericCommand, hl]
  cases o with
  | none =>
    dsimp only
    by_cases hvs : argv.drop 2 = []
    · rw [if_pos hvs]
      exact good_purged hn hp _
    · rw [if_neg hvs]
      apply (dbAdd_yields ho _).bind
      intro db2 hdb2
      rw [hdb2]
      apply good_changed _ (isError_int _)
      exact (nonEmptyBut_setValue hn1 _ _).setValue (pushAll_ne_nil side _ [] (Or.inr hvs))
  | some v =>
    cases v with
    | list es =>
      apply good_changed _ (isError_int _)
      exact hn1.setValue _ (pushAll_ne_nil side _ es (Or.inl (hn1 _ _ ho)))
    | _ => exact good_purged hn hp _

theorem pushxGenericCommand_good (hn : NonEmpty db) (side : Side) (argv : List Bytes) :
    Yields True (pushxGenericCommand side env argv db) (Good env db) := by
  obtain ⟨db1, o, hl, hn1, hp, ho⟩ := lookupKeyWrite_spec env hn (arg argv 1)
  simp only [pushxGenericCommand, hl]
  cases o with
  | none => exact good_purged hn hp _
  | some v =>
    cases v with
    | list es =>
      apply good_changed _ (isError_int _)
      exact hn1.setValue _ (pushAll_ne_nil side _ es (Or.inl (hn1 _ _ ho)))
    | _ => exact good_purged hn hp _

theorem listTypeInsert_ne_nil (pivot v : Bytes) (side : Side) {es es' : List Bytes}
    (h : listTypeInsert pivot v side es = some es') : es' ≠ [] := by
  cases es with
  | nil => cases h
  | cons e es =>
    rw [listTypeInsert.eq_def] at h
    dsimp only at h
    by_cases he : e = pivot
    · rw [if_pos he] at h
      cases side <;> cases h <;> exact List.cons_ne_nil _ _
    · rw [if_neg he] at h
      cases hr : listTypeInsert pivot v side es with
      | none =>
        rw [hr] at h
        cases h
      | some rest =>
        rw [hr] at h
        cases h
        exact List.cons_ne_nil _ _

theorem linsertAt_good (hn : NonEmpty db) (argv : List Bytes) (side : Side) :
    Yields True (linsertCommand.linsertAt env argv db side) (Good env db) := by
  obtain ⟨db1, o, hl, hn1, hp, ho⟩ := lookupKeyWrite_spec env hn (arg argv 1)
  simp only [linsertCommand.linsertAt, hl]
  cases o with
  | none => exact good_purged hn hp _
  | some v =>
    cases v with
    | list es =>
      dsimp only
      cases hi : listTypeInsert (arg argv 3) (arg argv 4) side es with
      | none => exact good_purged hn hp _
      | some es' =>
        apply good_changed _ (isError_int _)
        exact hn1.setValue _ (listTypeInsert_ne_nil _ _ _ hi)
    | _ => exact good_purged hn hp _

theorem linsertCommand_good (hn : NonEmpty db) (argv : List Bytes) :
    Yields True (linsertCommand env argv db) (Good env db) := by
  unfold linsertCommand
  split_ifs
  · exact linsertAt_good hn argv .tail
  · exact linsertAt_good hn argv .head
  · exact good_purged hn Purged.refl _

theorem lsetCommand_good (hn : NonEmpty db) (argv : List Bytes) :
    Yields True (lsetCommand env argv db) (Good env db) := by
  obtain ⟨db1, o, hl, hn1, hp, ho⟩ := lookupKeyWrite_spec env hn (arg argv 1)
  simp only [lsetCommand, hl]
  cases o with
  | none => exact good_purged hn hp _
  | some v =>
    cases v with
    | list es =>
      dsimp only
      cases getLongFromObjectOrReply (arg argv 2) with
      | error e => exact good_purged hn hp _
      | ok index =>
        dsimp only
        cases quicklistIndex es index with
        | none => exact good_purged hn hp _
        | some i =>
          have hes : es ≠ [] := hn1 _ _ ho
          apply good_changed _ isError_ok
          apply hn1.setValue
          show es.set i (arg argv 3) ≠ []
          simpa using hes
    | _ => exact good_purged hn hp _

theorem good_listOrGone (hn : NonEmpty db1) (k : Bytes) (es : List Bytes) (hr : ¬r.IsError) :
    Yields True (if es = [] then Except.ok (dbDelete db1 k, r)
      else Except.ok (setValue db1 k (.list es), r) : Result) (Good env db) := by
  by_cases hes : es = []
  · rw [if_pos hes]
    exact good_changed (hn.dbDelete k) hr
  · rw [if_neg hes]
    exact good_changed (hn.setValue k (v := .list es) hes) hr

theorem popGenericCommand_good (hn : NonEmpty db) (side : Side) (argv : List Bytes) :
    Yields True (popGenericCommand side env argv db) (Good env db) := by
  obtain ⟨db1, o, hl, hn1, hp, ho⟩ := lookupKeyWrite_spec env hn (arg argv 1)
  simp only [popGenericCommand, hl]
  cases o with
  | none => exact good_purged hn hp _
  | some v =>
    cases v with
    | list es =>
      dsimp only
      cases listTypePop es side with
      | none => exact good_purged hn hp _
      | some r => exact good_listOrGone hn1 _ _ (isError_bulk _)
    | _ => exact good_purged hn hp _

theorem ltrimCommand_good (hn : NonEmpty db) (argv : List Bytes) :
    Yields True (ltrimCommand env argv db) (Good env db) := by
  obtain ⟨db1, o, hl, hn1, hp, ho⟩ := lookupKeyWrite_spec env hn (arg argv 1)
  simp only [ltrimCommand, hl]
  cases getLongFromObjectOrReply (arg argv 2) with
  | error e => exact good_purged hn Purged.refl _
  | ok start =>
    cases getLongFromObjectOrReply (arg argv 3) with
    | error e => exact good_purged hn Purged.refl _
    | ok stop =>
      cases o with
      | none => exact good_purged hn hp _
      | some v =>
        cases v with
        | list es => exact good_listOrGone hn1 _ _ isError_ok
        | _ => exact good_purged hn hp _

theorem lremCommand_good (hn : NonEmpty db) (argv : List Bytes) :
    Yields True (lremCommand env argv db) (Good env db) := by
  obtain ⟨db1, o, hl, hn1, hp, ho⟩ := lookupKeyWrite_spec env hn (arg argv 1)
  simp only [lremCommand, hl]
  cases getLongFromObjectOrReply (arg argv 2) with
  | error e => exact good_purged hn Purged.refl _
  | ok toremove =>
    cases o with
    | none => exact good_purged hn hp _
    | some v =>
      cases v with
      | list es => exact good_listOrGone hn1 _ _ (isError_int _)
      | _ => exact good_purged hn hp _

theorem listAt_setValue (db : RedisDb) (k : Bytes) (es : List Bytes) :
    listAt (setValue db k (.list es)) k = es := by
  simp [listAt, setValue]

theorem listAt_of_ne {k' : Bytes} (hk : k ≠ k') (db : RedisDb) (v : Value) :
    listAt (setValue db k' v) k = listAt db k := by
  simp [listAt, setValue, hk]

theorem rpoplpushHandlePush_yields (hn : NonEmpty db) (src dst : Bytes) (es : List Bytes)
    (v : Bytes) (hdobj : dobj = none → src ≠ dst ∧ db.dict dst = none) :
    Yields True (rpoplpushHandlePush (setValue db src (.list es)) dst dobj v) (fun db2 =>
      NonEmptyBut src db2 ∧ (listAt db2 src ≠ [] → NonEmpty db2)) := by
  have hbut := nonEmptyBut_setValue hn src (.list es)
  have hput : Yields True (if dobj.isNone then dbAdd (setValue db src (.list es)) dst (.list [])
      else Except.ok (setValue db src (.list es))) (fun db2 =>
        listAt db2 src = es ∧ db2.dict src = some (.list es) ∧
          ∀ k v, k ≠ src → k ≠ dst → db2.dict k = some v → v.NonEmpty) := by
    cases dobj with
    | some o => exact ⟨listAt_setValue .., Function.update_self .., fun k v hk _ => hbut k v hk⟩
    | none =>
      obtain ⟨hne, hnone⟩ := hdobj rfl
      have hdst : (setValue db src (.list es)).dict dst = none := by
        simpa [setValue, Ne.symm hne] using hnone
      apply (dbAdd_yields hdst _).mono
      intro db2 hdb2
      rw [hdb2]
      refine ⟨?_, ?_, ?_⟩
      · rw [listAt_of_ne hne, listAt_setValue]
      · simp [setValue, hne]
      · intro k v hk hk' h
        exact hbut k v hk (by simpa [setValue, hk'] using h)
  apply hput.bind
  intro db2 ⟨hat, hsrc, hothers⟩
  have hpush : Value.NonEmpty (.list (listTypePush (listAt db2 dst) v .head)) :=
    listTypePush_ne_nil _ v .head
  constructor
  · intro k w hk h
    by_cases hk' : k = dst
    · rw [hk'] at h
      have hval : some (Value.list (listTypePush (listAt db2 dst) v .head)) = some w := by
        simpa [setValue] using h
      cases hval
      exact hpush
    · exact hothers k w hk hk' (by simpa [setValue, hk'] using h)
  · intro hlist k w h
    by_cases hk' : k = dst
    · rw [hk'] at h
      have hval : some (Value.list (listTypePush (listAt db2 dst) v .head)) = some w := by
        simpa [setValue] using h
      cases hval
      exact hpush
    · have hold : db2.dict k = some w := by simpa [setValue, hk'] using h
      by_cases hk : k = src
      · rw [hk] at hold hk'
        rw [listAt_of_ne hk', hat] at hlist
        rw [hsrc] at hold
        cases hold
        exact hlist
      · exact hothers k w hk hk' hold

theorem NonEmptyBut.dbDelete (h : NonEmptyBut k db) : NonEmpty (dbDelete db k) := by
  intro k' v' h'
  by_cases hk : k' = k
  · simp [Collection.dbDelete, hk] at h'
  · have hval : db.dict k' = some v' := by simpa [Collection.dbDelete, hk] using h'
    exact h k' v' hk hval

theorem moved_good (hn : NonEmpty db1) (argv : List Bytes) (src : Bytes) (es : List Bytes)
    (v : Bytes) (hdobj : dobj = none → src ≠ arg argv 2 ∧ db1.dict (arg argv 2) = none) :
    Yields True (rpoplpushCommand.moved argv db1 src es dobj v) (Good env db) := by
  unfold rpoplpushCommand.moved
  apply (rpoplpushHandlePush_yields hn src (arg argv 2) es v hdobj).bind
  intro db2 ⟨hbut, hall⟩
  by_cases hes : listAt db2 src = []
  · rw [if_pos hes]
    exact good_changed hbut.dbDelete (isError_bulk v)
  · rw [if_neg hes]
    exact good_changed (hall hes) (isError_bulk v)

theorem rpoplpushCommand_good (hn : NonEmpty db) (argv : List Bytes) :
    Yields True (rpoplpushCommand env argv db) (Good env db) := by
  obtain ⟨db1, o, hl, hn1, hp, ho⟩ := lookupKeyWrite_spec env hn (arg argv 1)
  simp only [rpoplpushCommand, hl]
  cases o with
  | none => exact good_purged hn hp _
  | some w =>
    cases w with
    | list es =>
      dsimp only
      cases listTypePop es .tail with
      | none => exact good_purged hn hp _
      | some r =>
        obtain ⟨db2, o2, hl2, hn2, hp2, ho2⟩ := lookupKeyWrite_spec env hn1 (arg argv 2)
        have hdobj : o2 = none → arg argv 1 ≠ arg argv 2 ∧ db2.dict (arg argv 2) = none := by
          intro hnone
          refine ⟨fun heq => ?_, ho2.trans hnone⟩
          have hagain := lookupKeyWrite_again hl
          rw [heq, hl2, hnone] at hagain
          cases hagain
        simp only [hl2]
        cases o2 with
        | none => exact moved_good hn2 argv _ _ _ hdobj
        | some w =>
          cases w with
          | list es2 => exact moved_good hn2 argv _ _ _ hdobj
          | _ => exact good_purged hn (hp.trans hp2) _
    | _ => exact good_purged hn hp _

end RedisCore.Collection
