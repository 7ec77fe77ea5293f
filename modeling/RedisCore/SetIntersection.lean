import RedisCore.CollectionModel

namespace RedisCore.Collection
open Function (update_of_ne update_self)

/-- `lookupKeyRead` for a command with the flag `readonly`, which does not see an expired key of a
replica. -/
def lookupKeyReadonly (env : Env) (db : RedisDb) (k : Bytes) : RedisDb × Option Value :=
  let db := expireIfNeeded env db k
  (db, if keyIsExpired env db k then none else db.dict k)

def loadSets (lookup : RedisDb → Bytes → RedisDb × Option Value) :
    List Bytes → RedisDb → RedisDb × SourceSets
  | [], db => (db, .sets [])
  | k :: ks, db =>
    let (db, o) := lookup db k
    match o with
    | none => (db, .missing)
    | some (.set ms) =>
      match loadSets lookup ks db with
      | (db, .sets s) => (db, .sets (ms :: s))
      | r => r
    | some _ => (db, .wrongtype)

def sinterFinish : RedisDb × SourceSets → Result
  | (db, .missing) => .ok (db, .emptySet)
  | (db, .wrongtype) => .ok (db, wrongtypeerr)
  | (db, .sets sets) =>
    let sets := sets.mergeSort (fun s1 s2 => s1.length ≤ s2.length)
    .ok (db, .array ((intersection sets).map some))

def sinterCommand (env : Env) (argv : List Bytes) (db : RedisDb) : Result :=
  sinterFinish (loadSets (lookupKeyReadonly env) (argv.drop 1) db)

def visible (env : Env) (db : RedisDb) (k : Bytes) : Option Value × Option ℤ :=
  ((expireIfNeeded env db k).dict k, (expireIfNeeded env db k).expires k)

def SameMembers (ms ms' : List Bytes) : Prop := ∀ m, m ∈ ms ↔ m ∈ ms'

def SameValue (o o' : Option Value) : Prop :=
  o = o' ∨ ∃ ms ms', o = some (.set ms) ∧ o' = some (.set ms') ∧ SameMembers ms ms'

def SameReply (r r' : Reply) : Prop :=
  r = r' ∨ ∃ ms ms' : List Bytes, r = .array (ms.map some) ∧ r' = .array (ms'.map some) ∧
    SameMembers ms ms'

def SameKeyspace (env : Env) (db db' : RedisDb) : Prop :=
  ∀ k, SameValue (visible env db k).1 (visible env db' k).1 ∧
    (visible env db k).2 = (visible env db' k).2

def Agree (env : Env) (r r' : Result) : Prop :=
  ∃ a b, r = .ok a ∧ r' = .ok b ∧ SameReply a.2 b.2 ∧ SameKeyspace env a.1 b.1

def isSet : Option Value → Bool
  | some (.set _) => true
  | _ => false

def WrongType (o : Option Value) : Prop := o ≠ none ∧ isSet o = false

/-- The command replies the same and leaves the same behind for every order of its sources, and a
source of the wrong type always makes it fail. -/
def OrderFree (env : Env) (db : RedisDb) (seen : Bytes → Option Value) (keys : List Bytes)
    (command : List Bytes → Result) : Prop :=
  ∀ keys', keys'.Perm keys → Agree env (command keys') (command keys) ∧
    ((∃ k ∈ keys, WrongType (seen k)) → Agree env (command keys') (.ok (db, wrongtypeerr)))

/-- Some source is not there, and another is of the wrong type. -/
def Mixed (seen : Bytes → Option Value) (keys : List Bytes) : Prop :=
  (∃ k ∈ keys, seen k = none) ∧ ∃ k ∈ keys, WrongType (seen k)

variable {env : Env} {db db1 db2 : RedisDb} {lookup : RedisDb → Bytes → RedisDb × Option Value}

theorem visible_eq (k : Bytes) : visible env db k =
    if keyIsExpired env db k && !env.slave then (none, none) else (db.dict k, db.expires k) := by
  unfold visible expireIfNeeded
  split <;> simp [dbDelete]

theorem visible_congr {k : Bytes} (hd : db1.dict k = db2.dict k) (he : db1.expires k = db2.expires k) :
    visible env db1 k = visible env db2 k := by
  rw [visible_eq, visible_eq, keyIsExpired, keyIsExpired, hd, he]

theorem visible_kept {k : Bytes} (he : db.expires k = none) : visible env db k = (db.dict k, none) := by
  simp [visible_eq, keyIsExpired, he]

theorem visible_dbDelete (d k : Bytes) : visible env (dbDelete db d) k =
    if k = d then (none, none) else visible env db k := by
  split
  · rename_i hk
    rw [hk, visible_kept (update_self ..)]
    simp [dbDelete]
  · rename_i hk
    exact visible_congr (update_of_ne hk ..) (update_of_ne hk ..)

theorem visible_setValue (d k : Bytes) (v : Value) : visible env (setValue (dbDelete db d) d v) k =
    if k = d then (some v, none) else visible env db k := by
  split
  · rename_i hk
    rw [hk, visible_kept (update_self ..)]
    simp [setValue]
  · rename_i hk
    apply visible_congr
    · exact (update_of_ne hk ..).trans (update_of_ne hk ..)
    · exact update_of_ne hk ..

theorem visible_expireIfNeeded (k' : Bytes) : visible env (expireIfNeeded env db k') = visible env db := by
  funext k
  by_cases hx : (keyIsExpired env db k' && !env.slave) = true
  · rw [expireIfNeeded, if_pos hx, visible_dbDelete]
    split
    · rename_i hk
      rw [hk, visible_eq, if_pos hx]
    · rfl
  · rw [expireIfNeeded, if_neg hx]

structure Lookup (env : Env) (lookup : RedisDb → Bytes → RedisDb × Option Value) : Prop where
  purges : ∀ db k, (lookup db k).1 = expireIfNeeded env db k
  finds : ∀ db db' k, visible env db k = visible env db' k → (lookup db k).2 = (lookup db' k).2

theorem lookupKeyWrite_lookup : Lookup env (lookupKeyWrite env) :=
  ⟨fun _ _ => rfl, fun _ _ _ h => congrArg Prod.fst h⟩

theorem lookupKeyReadonly_lookup : Lookup env (lookupKeyReadonly env) := by
  refine ⟨fun _ _ => rfl, fun db db' k h => ?_⟩
  have h1 := congrArg Prod.fst h
  have h2 := congrArg Prod.snd h
  dsimp only [visible] at h1 h2
  simp only [lookupKeyReadonly, keyIsExpired, h1, h2]
  rfl

theorem loadSets_visible (hl : Lookup env lookup) : ∀ (ks : List Bytes) (db : RedisDb),
    visible env (loadSets lookup ks db).1 = visible env db := by
  intro ks
  induction ks with
  | nil => exact fun db => rfl
  | cons k ks ih =>
    intro db
    have hk : visible env (lookup db k).1 = visible env db := by
      rw [hl.purges]
      exact visible_expireIfNeeded k
    have hrest := (ih (lookup db k).1).trans hk
    simp only [loadSets]
    split
    · exact hk
    · split
      · rename_i heq
        rw [heq] at hrest
        exact hrest
      · exact hrest
    · exact hk

def asSet : Option Value → List Bytes
  | some (.set ms) => ms
  | _ => []

def found (os : List (Option Value)) : SourceSets :=
  match os.find? fun o => !isSet o with
  | none => .sets (os.map asSet)
  | some none => .missing
  | some (some _) => .wrongtype

theorem found_set (ms : List Bytes) (os : List (Option Value)) : found (some (.set ms) :: os) =
    match found os with
    | .sets s => .sets (ms :: s)
    | r => r := by
  unfold found
  rw [List.find?_cons_of_neg (by simp [isSet])]
  split <;> rfl

theorem loadSets_found (hl : Lookup env lookup) : ∀ (ks : List Bytes) (db : RedisDb),
    (loadSets lookup ks db).2 = found (ks.map fun k => (lookup db k).2) := by
  intro ks
  induction ks with
  | nil => exact fun db => rfl
  | cons k ks ih =>
    intro db
    have hlater : (ks.map fun k' => (lookup (lookup db k).1 k').2) = ks.map fun k' => (lookup db k').2 := by
      apply List.map_congr_left
      intro k' _
      apply hl.finds
      rw [hl.purges, visible_expireIfNeeded]
    have hrest := ih (lookup db k).1
    rw [hlater] at hrest
    simp only [loadSets, List.map_cons]
    generalize hr : loadSets lookup ks (lookup db k).1 = r at hrest
    cases ho : (lookup db k).2 with
    | none => rfl
    | some v =>
      cases v with
      | set ms =>
        rw [found_set, ← hrest]
        cases hr2 : r with
        | mk d s => cases s <;> simp_all
      | _ => rfl

theorem found_perm {os os' : List (Option Value)} (h : os'.Perm os)
    (hmix : ¬(none ∈ os ∧ ∃ o ∈ os, WrongType o)) :
    (found os' = found os ∨ ∃ s s', found os' = .sets s ∧ found os = .sets s' ∧ s.Perm s') ∧
      ((∃ o ∈ os, WrongType o) → found os' = .wrongtype) := by
  unfold found
  cases ho : os.find? fun o => !isSet o with
  | none =>
    have hall := List.find?_eq_none.1 ho
    have ho' : (os'.find? fun o => !isSet o) = none :=
      List.find?_eq_none.2 fun o hm => hall o (h.mem_iff.1 hm)
    rw [ho']
    exact ⟨Or.inr ⟨_, _, rfl, rfl, h.map asSet⟩, fun ⟨o, hm, hw⟩ => absurd hw.2 (by simpa using hall o hm)⟩
  | some o =>
    have hm := List.mem_of_find?_eq_some ho
    have hset : isSet o = false := by simpa using List.find?_some ho
    cases ho' : os'.find? fun o => !isSet o with
    | none => exact absurd hset (by simpa using List.find?_eq_none.1 ho' o (h.mem_iff.2 hm))
    | some o' =>
      have hm' := h.mem_iff.1 (List.mem_of_find?_eq_some ho')
      have hset' : isSet o' = false := by simpa using List.find?_some ho'
      -- Both are missing or both of the wrong type, though they may stand at different keys.
      cases o <;> cases o'
      · exact ⟨Or.inl rfl, fun hw => absurd ⟨hm, hw⟩ hmix⟩
      · exact absurd ⟨hm, _, hm', by simp, hset'⟩ hmix
      · exact absurd ⟨hm', _, hm, by simp, hset⟩ hmix
      · exact ⟨Or.inl rfl, fun _ => rfl⟩

theorem mem_intersection {s : List (List Bytes)} (m : Bytes) :
    m ∈ intersection s ↔ s ≠ [] ∧ ∀ t ∈ s, m ∈ t := by
  cases s <;> simp [intersection]

theorem intersection_perm {s s' : List (List Bytes)} (h : s.Perm s')
    (le : List Bytes → List Bytes → Bool) :
    SameMembers (intersection (s.mergeSort le)) (intersection (s'.mergeSort le)) := by
  intro m
  have hp := (List.mergeSort_perm s le).trans (h.trans (List.mergeSort_perm s' le).symm)
  rw [mem_intersection, mem_intersection]
  simp only [hp.mem_iff, ne_eq, ← List.length_eq_zero_iff, hp.length_eq]

theorem mem_foldl_setTypeAdd (x : Bytes) : ∀ (ms d : List Bytes),
    x ∈ ms.foldl (fun d m => (setTypeAdd d m).1) d ↔ x ∈ d ∨ x ∈ ms := by
  intro ms
  induction ms with
  | nil => simp
  | cons m ms ih =>
    intro d
    rw [List.foldl_cons, ih, setTypeAdd]
    split <;> grind

theorem nodup_foldl_setTypeAdd : ∀ (ms : List Bytes) {d : List Bytes}, d.Nodup →
    (ms.foldl (fun d m => (setTypeAdd d m).1) d).Nodup := by
  intro ms
  induction ms with
  | nil => exact fun h => h
  | cons m ms ih =>
    intro d h
    apply ih
    dsimp only
    unfold setTypeAdd
    split
    · exact h
    · rename_i hm
      simpa [List.nodup_append, h] using fun a ha (hx : a = m) => hm (hx ▸ ha)

theorem SameKeyspace.of_visible (h : visible env db1 = visible env db2) :
    SameKeyspace env db1 db2 := by
  intro k
  rw [h]
  exact ⟨Or.inl rfl, rfl⟩

def sinterstoreFinish (dstkey : Bytes) : RedisDb × SourceSets → Result
  | (db, .missing) => .ok (dbDelete db dstkey, .int 0)
  | (db, .wrongtype) => .ok (db, wrongtypeerr)
  | (db, .sets sets) =>
    let sets := sets.mergeSort (fun s1 s2 => s1.length ≤ s2.length)
    let dstset := (intersection sets).foldl (fun d m => (setTypeAdd d m).1) []
    storeSet db dstkey dstset

theorem sinterstoreCommand_eq (name dstkey : Bytes) (keys : List Bytes) (db : RedisDb) :
    sinterstoreCommand env (name :: dstkey :: keys) db =
      sinterstoreFinish dstkey (loadSets (lookupKeyWrite env) keys db) := by
  have hload : ∀ ks db, sinterSets env ks db = loadSets (lookupKeyWrite env) ks db := by
    intro ks
    induction ks with
    | nil => exact fun db => rfl
    | cons k ks ih =>
      intro db
      simp only [sinterSets, loadSets, ih] <;> rfl
  rw [← hload]
  simp only [sinterstoreCommand, sinterstoreFinish, arg]
  rfl

structure Finish (env : Env) (finish : RedisDb × SourceSets → Result) : Prop where
  wrongtype : ∀ db, finish (db, .wrongtype) = .ok (db, wrongtypeerr)
  missing : ∀ db db', ¬Agree env (finish (db, .missing)) (.ok (db', wrongtypeerr))
  agree : ∀ {db1 db2 f f'}, visible env db1 = visible env db2 →
    (f = f' ∨ ∃ s s', f = .sets s ∧ f' = .sets s' ∧ s.Perm s') →
    Agree env (finish (db1, f)) (finish (db2, f'))

theorem sinterFinish_finish : Finish env sinterFinish where
  wrongtype _ := rfl
  missing db db' := by
    intro ⟨a, b, ha, hb, hreply, _⟩
    cases ha
    cases hb
    rcases hreply with h | ⟨ms, ms', h, _⟩ <;> cases h
  agree := by
    intro db1 db2 f f' hv hf
    have hkeys := SameKeyspace.of_visible hv
    rcases hf with rfl | ⟨s, s', rfl, rfl, hp⟩
    · cases f <;> exact ⟨_, _, rfl, rfl, Or.inl rfl, hkeys⟩
    · exact ⟨_, _, rfl, rfl, Or.inr ⟨_, _, rfl, rfl, intersection_perm hp _⟩, hkeys⟩

theorem storeSet_agree {d : Bytes} {ms ms' : List Bytes} (hv : visible env db1 = visible env db2)
    (hn : ms.Nodup) (hn' : ms'.Nodup) (h : SameMembers ms ms') :
    Agree env (storeSet db1 d ms) (storeSet db2 d ms') := by
  have hlen : ms.length = ms'.length := ((List.perm_ext_iff_of_nodup hn hn').2 h).length_eq
  have hset : ∀ (db : RedisDb) (ms : List Bytes), storeSet db d ms =
      if ms.length > 0 then .ok (setValue (dbDelete db d) d (.set ms), .int ms.length)
      else .ok (dbDelete db d, .int 0) := by
    intro db ms
    have hgone : (dbDelete db d).dict d = none := update_self ..
    simp only [storeSet, dbAdd, hgone]
    rfl
  rw [hset, hset, hlen]
  split
  · refine ⟨_, _, rfl, rfl, Or.inl rfl, fun k => ?_⟩
    rw [visible_setValue, visible_setValue, hv]
    split
    · exact ⟨Or.inr ⟨_, _, rfl, rfl, h⟩, rfl⟩
    · exact ⟨Or.inl rfl, rfl⟩
  · refine ⟨_, _, rfl, rfl, Or.inl rfl, fun k => ?_⟩
    rw [visible_dbDelete, visible_dbDelete, hv]
    exact ⟨Or.inl rfl, rfl⟩

theorem sinterstoreFinish_finish (d : Bytes) : Finish env (sinterstoreFinish d) where
  wrongtype _ := rfl
  missing db db' := by
    intro ⟨a, b, ha, hb, hreply, _⟩
    cases ha
    cases hb
    rcases hreply with h | ⟨ms, ms', h, _⟩ <;> cases h
  agree := by
    intro db1 db2 f f' hv hf
    have hdel : SameKeyspace env (dbDelete db1 d) (dbDelete db2 d) := by
      apply SameKeyspace.of_visible
      funext k
      rw [visible_dbDelete, visible_dbDelete, hv]
    have hstore : ∀ s s' : List (List Bytes), s.Perm s' →
        Agree env (sinterstoreFinish d (db1, .sets s)) (sinterstoreFinish d (db2, .sets s')) := by
      intro s s' hp
      apply storeSet_agree hv (nodup_foldl_setTypeAdd _ List.nodup_nil)
        (nodup_foldl_setTypeAdd _ List.nodup_nil)
      intro m
      rw [mem_foldl_setTypeAdd, mem_foldl_setTypeAdd, intersection_perm hp _ m]
    rcases hf with rfl | ⟨s, s', rfl, rfl, hp⟩
    · cases f with
      | sets s => exact hstore s s (List.Perm.refl s)
      | missing => exact ⟨_, _, rfl, rfl, Or.inl rfl, hdel⟩
      | wrongtype => exact ⟨_, _, rfl, rfl, Or.inl rfl, SameKeyspace.of_visible hv⟩
    · exact hstore s s' hp

theorem orderFree_iff {finish : RedisDb × SourceSets → Result} (hl : Lookup env lookup)
    (hf : Finish env finish) (keys : List Bytes) :
    OrderFree env db (fun k => (lookup db k).2) keys (fun ks => finish (loadSets lookup ks db)) ↔
      ¬Mixed (fun k => (lookup db k).2) keys := by
  have hrun : ∀ ks, ∃ db', visible env db' = visible env db ∧
      finish (loadSets lookup ks db) = finish (db', found (ks.map fun k => (lookup db k).2)) :=
    fun ks => ⟨_, loadSets_visible hl ks db, by rw [← loadSets_found hl ks db]⟩
  constructor
  · intro h ⟨⟨m, hm, hmissing⟩, hwrong⟩
    -- With the missing key in front the command never sees the other one.
    have hfirst := (h (m :: keys.erase m) (List.perm_cons_erase hm).symm).2 hwrong
    have hload : loadSets lookup (m :: keys.erase m) db = ((lookup db m).1, .missing) := by
      simp only [loadSets, hmissing]
    dsimp only at hfirst
    rw [hload] at hfirst
    exact hf.missing _ _ hfirst
  · intro hmix keys' hp
    have ⟨db1, hv1, h1⟩ := hrun keys'
    have ⟨db2, hv2, h2⟩ := hrun keys
    have hos := found_perm (hp.map fun k => (lookup db k).2) (by
      intro ⟨hn, o, ho, hwrong⟩
      have ⟨k, hk, hko⟩ := List.mem_map.1 hn
      have ⟨k', hk', hko'⟩ := List.mem_map.1 ho
      rw [← hko'] at hwrong
      exact hmix ⟨⟨k, hk, hko⟩, k', hk', hwrong⟩)
    dsimp only
    rw [h1, h2]
    refine ⟨hf.agree (hv1.trans hv2.symm) hos.1, fun ⟨k, hk, hwrong⟩ => ?_⟩
    rw [hos.2 ⟨_, List.mem_map_of_mem hk, hwrong⟩, hf.wrongtype]
    exact ⟨_, _, rfl, rfl, Or.inl rfl, SameKeyspace.of_visible hv1⟩

end RedisCore.Collection
