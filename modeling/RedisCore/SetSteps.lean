import RedisCore.CollectionSteps

namespace RedisCore.Collection

variable {env : Env} {db db1 : RedisDb}

theorem setTypeAdd_ne_nil (ms : List Bytes) (m : Bytes) : (setTypeAdd ms m).1 ≠ [] := by
  unfold setTypeAdd
  by_cases hm : m ∈ ms
  · rw [if_pos hm]
    exact List.ne_nil_of_mem hm
  · rw [if_neg hm]
    simp

theorem addAll_ne_nil (vs ms : List Bytes) (h : ms ≠ [] ∨ vs ≠ []) : (addAll ms vs).1 ≠ [] := by
  have hfold : ∀ (vs : List Bytes) (r : List Bytes × ℕ), r.1 ≠ [] →
      (vs.foldl (fun r v => ((setTypeAdd r.1 v).1, if (setTypeAdd r.1 v).2 then r.2+1 else r.2)) r).1
        ≠ [] := by
    intro vs
    induction vs with
    | nil => exact fun r hr => hr
    | cons v vs ih => exact fun r _ => ih _ (setTypeAdd_ne_nil r.1 v)
  cases vs with
  | nil => simpa [addAll] using h
  | cons v vs => exact hfold vs _ (setTypeAdd_ne_nil ms v)

theorem saddCommand_good (hn : NonEmpty db) {argv : List Bytes} (hargv : 3 ≤ argv.length) :
    Yields True (saddCommand env argv db) (Good env db) := by
  have hvs : argv.drop 2 ≠ [] := by
    intro h
    have hlen := congrArg List.length h
    simp only [List.length_drop, List.length_nil] at hlen
    omega
  obtain ⟨db1, o, hl, hn1, hp, ho⟩ := lookupKeyWrite_spec env hn (arg argv 1)
  simp only [saddCommand, hl]
  cases o with
  | none =>
    apply (dbAdd_yields ho _).bind
    intro db2 hdb2
    rw [hdb2]
    apply good_changed _ (isError_int _)
    exact (nonEmptyBut_setValue hn1 _ _).setValue (addAll_ne_nil _ [] (Or.inr hvs))
  | some v =>
    cases v with
    | set ms =>
      apply good_changed _ (isError_int _)
      exact hn1.setValue _ (addAll_ne_nil _ ms (Or.inr hvs))
    | _ => exact good_purged hn hp _

theorem removeLoop_keyremoved {α : Type} {remove : List α → Bytes → List α × Bool}
    (hsame : ∀ ms v, (remove ms v).2 = false → (remove ms v).1 = ms) :
    ∀ (vs : List Bytes) (ms : List α) (deleted : ℕ), ms ≠ [] →
      ((removeLoop remove vs ms deleted).2.2 = false → (removeLoop remove vs ms deleted).1 ≠ []) := by
  intro vs
  induction vs with
  | nil => exact fun ms deleted hms _ => hms
  | cons v vs ih =>
    intro ms deleted hms
    simp only [removeLoop]
    cases hr : (remove ms v).2 with
    | false =>
      rw [if_neg Bool.false_ne_true, hsame ms v hr]
      exact ih ms deleted hms
    | true =>
      rw [if_pos rfl]
      by_cases hlen : (remove ms v).1.length = 0
      · rw [if_pos hlen]
        intro h
        cases h
      · rw [if_neg hlen]
        exact ih _ _ (fun hnil => hlen (by rw [hnil]; rfl))

theorem setTypeRemove_same (ms : List Bytes) (v : Bytes) (h : (setTypeRemove ms v).2 = false) :
    (setTypeRemove ms v).1 = ms := by
  unfold setTypeRemove at h ⊢
  by_cases hm : v ∈ ms
  · rw [if_pos hm] at h
    cases h
  · rw [if_neg hm]

theorem sremCommand_good (hn : NonEmpty db) (argv : List Bytes) :
    Yields True (sremCommand env argv db) (Good env db) := by
  obtain ⟨db1, o, hl, hn1, hp, ho⟩ := lookupKeyWrite_spec env hn (arg argv 1)
  simp only [sremCommand, hl]
  cases o with
  | none => exact good_purged hn hp _
  | some v =>
    cases v with
    | set ms =>
      dsimp only
      have hleft := removeLoop_keyremoved setTypeRemove_same (argv.drop 2) ms 0 (hn1 _ _ ho)
      cases hkey : (removeLoop setTypeRemove (argv.drop 2) ms 0).2.2 with
      | true => exact good_changed (hn1.dbDelete _) (isError_int _)
      | false => exact good_changed (hn1.setValue _ (v := .set _) (hleft hkey)) (isError_int _)
    | _ => exact good_purged hn hp _

theorem smove_moved_good (hn : NonEmpty db) (hn1 : NonEmpty db1) (hp : Purged env db db1)
    (src dst ele : Bytes) (ms : List Bytes) {dstset : Option (List Bytes)}
    (hdst : dstset = none → db1.dict dst = none) :
    Yields True (smoveCommand.moved db1 src dst ele ms dstset) (Good env db) := by
  unfold smoveCommand.moved
  by_cases heq : src = dst
  · rw [if_pos heq]
    exact good_purged hn hp _
  rw [if_neg heq]
  dsimp only
  cases hr : (setTypeRemove ms ele).2 with
  | false => exact good_purged hn hp _
  | true =>
    rw [if_neg (by simp)]
    have hsrc : NonEmpty (if (setTypeRemove ms ele).1.length = 0 then dbDelete db1 src
        else setValue db1 src (.set (setTypeRemove ms ele).1)) := by
      by_cases hlen : (setTypeRemove ms ele).1.length = 0
      · rw [if_pos hlen]
        exact hn1.dbDelete src
      · rw [if_neg hlen]
        apply hn1.setValue
        intro hnil
        exact hlen (by rw [hnil]; rfl)
    have hkept : (if (setTypeRemove ms ele).1.length = 0 then dbDelete db1 src
        else setValue db1 src (.set (setTypeRemove ms ele).1)).dict dst = db1.dict dst := by
      have hne : dst ≠ src := fun h => heq h.symm
      split_ifs
      · exact Function.update_of_ne hne ..
      · exact Function.update_of_ne hne ..
    generalize (if (setTypeRemove ms ele).1.length = 0 then dbDelete db1 src
        else setValue db1 src (.set (setTypeRemove ms ele).1)) = db2 at hsrc hkept ⊢
    have hput : Yields True (if dstset.isNone then dbAdd db2 dst (.set []) else Except.ok db2)
        (NonEmptyBut dst) := by
      cases dstset with
      | some ds => exact hsrc.but dst
      | none =>
        apply (dbAdd_yields (hkept.trans (hdst rfl)) _).mono
        intro db3 hdb3
        rw [hdb3]
        exact nonEmptyBut_setValue hsrc dst _
    apply hput.bind
    intro db3 hdb3
    exact good_changed (hdb3.setValue (v := .set _) (setTypeAdd_ne_nil _ _)) (isError_int _)

theorem smoveCommand_good (hn : NonEmpty db) (argv : List Bytes) :
    Yields True (smoveCommand env argv db) (Good env db) := by
  obtain ⟨db1, o, hl, hn1, hp, ho⟩ := lookupKeyWrite_spec env hn (arg argv 1)
  obtain ⟨db2, o2, hl2, hn2, hp2, ho2⟩ := lookupKeyWrite_spec env hn1 (arg argv 2)
  have hpurged := hp.trans hp2
  simp only [smoveCommand, hl, hl2]
  cases o with
  | none => exact good_purged hn hpurged _
  | some v =>
    cases v with
    | set ms =>
      cases o2 with
      | none => exact smove_moved_good hn hn2 hpurged _ _ _ _ (fun _ => ho2)
      | some w =>
        cases w with
        | set ds =>
          apply smove_moved_good hn hn2 hpurged
          intro h
          cases h
        | _ => exact good_purged hn hpurged _
    | _ => exact good_purged hn hpurged _

theorem setTypeRandomElement_yields (random : ℕ) {ms : List Bytes} (h : ms ≠ []) :
    Yields True (setTypeRandomElement random ms) (· ∈ ms) := by
  have hlt : random % ms.length < ms.length := Nat.mod_lt _ (List.length_pos_iff.mpr h)
  unfold setTypeRandomElement
  rw [List.getElem?_eq_getElem hlt]
  exact List.getElem_mem hlt

theorem setTypeRemove_length {ms : List Bytes} {m : Bytes} (h : m ∈ ms) :
    (setTypeRemove ms m).1.length+1 = ms.length := by
  have hpos := List.length_pos_of_mem h
  unfold setTypeRemove
  rw [if_pos h]
  dsimp only
  rw [List.length_erase_of_mem h]
  omega

theorem spopSome_yields (random : ℕ → ℕ) : ∀ (count : ℕ) (ms : List Bytes), count < ms.length →
    Yields True (spopSome random count ms) (fun r => r.1 ≠ []) := by
  intro count
  induction count with
  | zero => exact fun ms h => List.length_pos_iff.mp h
  | succ count ih =>
    intro ms h
    have hms : ms ≠ [] := List.length_pos_iff.mp (by omega)
    unfold spopSome
    apply (setTypeRandomElement_yields (random count) hms).bind
    intro m hm
    have hlen := setTypeRemove_length hm
    apply (ih (setTypeRemove ms m).1 (by omega)).bind
    exact fun r hr => hr

theorem spopKeep_yields (random : ℕ → ℕ) : ∀ (remaining : ℕ) (ms newset : List Bytes),
    remaining ≤ ms.length → newset ≠ [] ∨ 0 < remaining →
    Yields True (spopKeep random remaining ms newset) (fun r => r.1 ≠ []) := by
  intro remaining
  induction remaining with
  | zero =>
    intro ms newset _ h
    exact h.resolve_right (lt_irrefl 0)
  | succ remaining ih =>
    intro ms newset h _
    have hms : ms ≠ [] := List.length_pos_iff.mp (by omega)
    unfold spopKeep
    apply (setTypeRandomElement_yields (random remaining) hms).bind
    intro m hm
    have hlen := setTypeRemove_length hm
    exact ih _ _ (by omega) (Or.inl (setTypeAdd_ne_nil newset m))

theorem spopWithCountCommand_good (hn : NonEmpty db) (argv : List Bytes) :
    Yields True (spopWithCountCommand env argv db) (Good env db) := by
  obtain ⟨db1, o, hl, hn1, hp, ho⟩ := lookupKeyWrite_spec env hn (arg argv 1)
  simp only [spopWithCountCommand, hl]
  cases getLongFromObjectOrReply (arg argv 2) with
  | error e => exact good_purged hn Purged.refl _
  | ok l =>
    dsimp only
    by_cases hneg : l < 0
    · rw [if_pos hneg]
      exact good_purged hn Purged.refl _
    rw [if_neg hneg]
    cases o with
    | none => exact good_purged hn hp _
    | some v =>
      cases v with
      | set ms =>
        dsimp only
        by_cases hzero : l.toNat = 0
        · rw [if_pos hzero]
          exact good_purged hn hp _
        rw [if_neg hzero]
        by_cases hall : l.toNat ≥ ms.length
        · rw [if_pos hall]
          exact good_changed (hn1.dbDelete _) (isError_addReplySet _)
        rw [if_neg hall]
        by_cases hmany : (ms.length-l.toNat)*5 > l.toNat
        · rw [if_pos hmany]
          apply (spopSome_yields env.random l.toNat ms (by omega)).bind
          intro r hr
          exact good_changed (hn1.setValue _ (v := .set _) hr) (isError_array _)
        · rw [if_neg hmany]
          apply (spopKeep_yields env.random (ms.length-l.toNat) ms [] (by omega)
            (Or.inr (by omega))).bind
          intro r hr
          apply (dbOverwrite_yields ho _).bind
          intro db2 hdb2
          rw [hdb2]
          exact good_changed (hn1.setValue _ (v := .set _) hr) (isError_array _)
      | _ => exact good_purged hn hp _

theorem spopCommand_good (hn : NonEmpty db) (argv : List Bytes) :
    Yields True (spopCommand env argv db) (Good env db) := by
  obtain ⟨db1, o, hl, hn1, hp, ho⟩ := lookupKeyWrite_spec env hn (arg argv 1)
  unfold spopCommand
  by_cases hthree : argv.length = 3
  · rw [if_pos hthree]
    exact spopWithCountCommand_good hn argv
  rw [if_neg hthree]
  by_cases hmore : argv.length > 3
  · rw [if_pos hmore]
    exact good_purged hn Purged.refl _
  rw [if_neg hmore]
  simp only [hl]
  cases o with
  | none => exact good_purged hn hp _
  | some v =>
    cases v with
    | set ms =>
      apply (setTypeRandomElement_yields (env.random 0) (hn1 _ _ ho)).bind
      intro m hm
      by_cases hlen : (setTypeRemove ms m).1.length = 0
      · rw [if_pos hlen]
        exact good_changed (hn1.dbDelete _) (isError_bulk _)
      · rw [if_neg hlen]
        apply good_changed _ (isError_bulk _)
        apply hn1.setValue
        intro hnil
        exact hlen (by rw [hnil]; rfl)
    | _ => exact good_purged hn hp _

theorem storeSet_good (hn : NonEmpty db1) (dstkey : Bytes) (dstset : List Bytes) :
    Yields True (storeSet db1 dstkey dstset) (Good env db) := by
  unfold storeSet
  have hdel := hn.dbDelete dstkey
  dsimp only
  by_cases hlen : dstset.length > 0
  · rw [if_pos hlen]
    have hnone : (dbDelete db1 dstkey).dict dstkey = none := by simp [dbDelete]
    apply (dbAdd_yields hnone _).bind
    intro db2 hdb2
    rw [hdb2]
    exact good_changed (hdel.setValue _ (v := .set _) (List.length_pos_iff.mp hlen)) (isError_int _)
  · rw [if_neg hlen]
    exact good_changed hdel (isError_int _)

theorem sinterSets_purged : ∀ (ks : List Bytes) (db : RedisDb), Purged env db (sinterSets env ks db).1 := by
  intro ks
  induction ks with
  | nil => exact fun db => Purged.refl
  | cons k ks ih =>
    intro db
    have hp := purged_expireIfNeeded env db k
    simp only [sinterSets, lookupKeyWrite]
    have hrest := hp.trans (ih (expireIfNeeded env db k))
    split
    · exact hp
    · split
      · rename_i heq
        rw [heq] at hrest
        exact hrest
      · exact hrest
    · exact hp

theorem sinterstoreCommand_good (hn : NonEmpty db) (argv : List Bytes) :
    Yields True (sinterstoreCommand env argv db) (Good env db) := by
  have hp := @sinterSets_purged env (argv.drop 2) db
  unfold sinterstoreCommand
  dsimp only
  generalize sinterSets env (argv.drop 2) db = r at hp ⊢
  obtain ⟨db1, found⟩ := r
  cases found with
  | missing => exact good_changed ((hp.nonEmpty hn).dbDelete _) (isError_int _)
  | wrongtype => exact good_purged hn hp _
  | sets s => exact storeSet_good (hp.nonEmpty hn) _ _

theorem sunionDiffSets_purged : ∀ (ks : List Bytes) (db : RedisDb),
    Purged env db (sunionDiffSets env ks db).1 := by
  intro ks
  induction ks with
  | nil => exact fun db => Purged.refl
  | cons k ks ih =>
    intro db
    have hp := purged_expireIfNeeded env db k
    have hrest := hp.trans (ih (expireIfNeeded env db k))
    simp only [sunionDiffSets, lookupKeyWrite]
    split
    · exact hrest
    · exact hrest
    · exact hp

theorem sunionDiffGenericCommand_good (hn : NonEmpty db) (op : SetOp) (argv : List Bytes) :
    Yields True (sunionDiffGenericCommand op env argv db) (Good env db) := by
  have hp := @sunionDiffSets_purged env (argv.drop 2) db
  unfold sunionDiffGenericCommand
  generalize sunionDiffSets env (argv.drop 2) db = r at hp ⊢
  obtain ⟨db1, found⟩ := r
  cases found with
  | none => exact good_purged hn hp _
  | some sets => exact storeSet_good (hp.nonEmpty hn) _ _

theorem hashTypeSet_ne_nil (fs : List (Bytes × Bytes)) (field v : Bytes) :
    (hashTypeSet fs field v).1 ≠ [] := by
  unfold hashTypeSet
  by_cases hf : hashTypeExists fs field = true
  · rw [if_pos hf]
    intro hnil
    have hfs : fs = [] := List.map_eq_nil_iff.mp hnil
    rw [hfs] at hf
    cases hf
  · rw [if_neg hf]
    simp

theorem hashTypeLookupWriteOrCreate_yields (hn : NonEmpty db) (k : Bytes) :
    Yields True (hashTypeLookupWriteOrCreate env db k) (fun r =>
      match r.2 with
      | none => Purged env db r.1
      | some fs => NonEmptyBut k r.1 ∧ (fs ≠ [] → Purged env db r.1) ∧
          (fs = [] → (lookupKeyWrite env db k).2 = none)) := by
  obtain ⟨db1, o, hl, hn1, hp, ho⟩ := lookupKeyWrite_spec env hn k
  unfold hashTypeLookupWriteOrCreate
  rw [hl]
  cases o with
  | none =>
    apply (dbAdd_yields ho _).bind
    intro db2 hdb2
    rw [hdb2]
    exact ⟨nonEmptyBut_setValue hn1 k _, fun h => absurd rfl h, fun _ => rfl⟩
  | some v =>
    cases v with
    | hash fs => exact ⟨hn1.but k, fun _ => hp, fun h => absurd h (hn1 k _ ho)⟩
    | _ => exact hp

theorem ne_nil_of_value {fs : List (Bytes × Bytes)} {field : Bytes}
    (h : (hashTypeGetValue fs field).isSome) : fs ≠ [] := by
  intro hnil
  rw [hnil] at h
  cases h

theorem hsetnxCommand_good (hn : NonEmpty db) (argv : List Bytes) :
    Yields True (hsetnxCommand env argv db) (Good env db) := by
  unfold hsetnxCommand
  apply (hashTypeLookupWriteOrCreate_yields hn (arg argv 1)).bind
  intro r hr
  obtain ⟨db1, o⟩ := r
  cases o with
  | none => exact good_purged hn hr _
  | some fs =>
    obtain ⟨hbut, hp, -⟩ := hr
    dsimp only
    by_cases hf : hashTypeExists fs (arg argv 2) = true
    · rw [if_pos hf]
      exact good_purged hn (hp (ne_nil_of_value hf)) _
    · rw [if_neg hf]
      exact good_changed (hbut.setValue (v := .hash _) (hashTypeSet_ne_nil _ _ _)) (isError_int _)

theorem hsetLoop_ne_nil : ∀ (vs : List Bytes) (fs : List (Bytes × Bytes)) (created : ℕ),
    fs ≠ [] ∨ 2 ≤ vs.length → (hsetLoop vs fs created).1 ≠ []
  | field :: v :: rest, fs, created, _ => by
    rw [hsetLoop]
    exact hsetLoop_ne_nil rest _ _ (Or.inl (hashTypeSet_ne_nil fs field v))
  | [], fs, created, h => by simpa [hsetLoop] using h
  | [_], fs, created, h => by simpa [hsetLoop] using h

theorem hsetCommand_good (hn : NonEmpty db) (name : String) {argv : List Bytes} (hargv : 4 ≤ argv.length) :
    Yields True (hsetCommand name env argv db) (Good env db) := by
  unfold hsetCommand
  by_cases hodd : argv.length % 2 = 1
  · rw [if_pos hodd]
    exact good_purged hn Purged.refl _
  rw [if_neg hodd]
  apply (hashTypeLookupWriteOrCreate_yields hn (arg argv 1)).bind
  intro r hr
  obtain ⟨db1, o⟩ := r
  cases o with
  | none => exact good_purged hn hr _
  | some fs =>
    have htwo : 2 ≤ (argv.drop 2).length := by
      rw [List.length_drop]
      omega
    refine good_changed (hr.1.setValue (v := .hash _) (hsetLoop_ne_nil _ fs 0 (Or.inr htwo))) ?_
    split_ifs
    · exact isError_int _
    · exact isError_ok

theorem hashTypeDelete_same (fs : List (Bytes × Bytes)) (v : Bytes) (h : (hashTypeDelete fs v).2 = false) :
    (hashTypeDelete fs v).1 = fs := by
  unfold hashTypeDelete at h ⊢
  by_cases hf : hashTypeExists fs v = true
  · rw [if_pos hf] at h
    cases h
  · rw [if_neg hf]

theorem hdelCommand_good (hn : NonEmpty db) (argv : List Bytes) :
    Yields True (hdelCommand env argv db) (Good env db) := by
  obtain ⟨db1, o, hl, hn1, hp, ho⟩ := lookupKeyWrite_spec env hn (arg argv 1)
  simp only [hdelCommand, hl]
  cases o with
  | none => exact good_purged hn hp _
  | some v =>
    cases v with
    | hash fs =>
      dsimp only
      have hleft := removeLoop_keyremoved hashTypeDelete_same (argv.drop 2) fs 0 (hn1 _ _ ho)
      cases hkey : (removeLoop hashTypeDelete (argv.drop 2) fs 0).2.2 with
      | true => exact good_changed (hn1.dbDelete _) (isError_int _)
      | false => exact good_changed (hn1.setValue _ (v := .hash _) (hleft hkey)) (isError_int _)
    | _ => exact good_purged hn hp _

theorem hincrbyCommand_good (hn : NonEmpty db) (argv : List Bytes) :
    Yields True (hincrbyCommand env argv db) (Good env db) := by
  unfold hincrbyCommand
  cases getLongFromObjectOrReply (arg argv 3) with
  | error e => exact good_purged hn Purged.refl _
  | ok incr =>
    apply (hashTypeLookupWriteOrCreate_yields hn (arg argv 1)).bind
    intro r hr
    obtain ⟨db1, o⟩ := r
    cases o with
    | none => exact good_purged hn hr _
    | some fs =>
      obtain ⟨hbut, hp, -⟩ := hr
      have hset : ∀ v n, Good env db (setValue db1 (arg argv 1)
          (.hash (hashTypeSet fs (arg argv 2) v).1), .int n) := by
        intro v n
        exact good_changed (hbut.setValue (v := .hash _) (hashTypeSet_ne_nil _ _ _)) (isError_int n)
      dsimp only
      cases hv : hashTypeGetValue fs (arg argv 2) with
      | none =>
        have hzero : wouldOverflow 0 incr = false := by simp [wouldOverflow]
        dsimp only
        rw [if_neg (by rw [hzero]; exact Bool.false_ne_true)]
        exact hset _ _
      | some text =>
        have hfs : fs ≠ [] := ne_nil_of_value (by rw [hv]; rfl)
        dsimp only
        cases string2ll text with
        | none => exact good_purged hn (hp hfs) _
        | some old =>
          dsimp only
          split_ifs
          · exact good_purged hn (hp hfs) _
          · exact hset _ _

def FloatFits (l : Libc) (env : Env) (argv : List Bytes) (db : RedisDb) : Prop :=
  ∀ incr, l.string2ld (arg argv 3) = some incr → (lookupKeyWrite env db (arg argv 1)).2 = none →
    l.ldIsNanOrInf (l.ldAdd l.ldZero incr) = false

theorem hincrbyfloatCommand_good {l : Libc} {argv : List Bytes} (hn : NonEmpty db)
    (hfits : FloatFits l env argv db) :
    Yields True (hincrbyfloatCommand l env argv db) (Good env db) := by
  unfold hincrbyfloatCommand
  cases hincr : l.string2ld (arg argv 3) with
  | none => exact good_purged hn Purged.refl _
  | some incr =>
    apply (hashTypeLookupWriteOrCreate_yields hn (arg argv 1)).bind
    intro r hr
    obtain ⟨db1, o⟩ := r
    cases o with
    | none => exact good_purged hn hr _
    | some fs =>
      obtain ⟨hbut, hp, hnew⟩ := hr
      have hset : ∀ v w, Good env db (setValue db1 (arg argv 1)
          (.hash (hashTypeSet fs (arg argv 2) v).1), .bulk w) := by
        intro v w
        exact good_changed (hbut.setValue (v := .hash _) (hashTypeSet_ne_nil _ _ _)) (isError_bulk w)
      dsimp only
      cases hv : hashTypeGetValue fs (arg argv 2) with
      | none =>
        dsimp only
        by_cases hinf : l.ldIsNanOrInf (l.ldAdd l.ldZero incr) = true
        · rw [if_pos hinf]
          -- a new hash is excluded, so there were other fields
          apply good_purged hn (hp _)
          intro hnil
          rw [hfits incr hincr (hnew hnil)] at hinf
          cases hinf
        · rw [if_neg hinf]
          exact hset _ _
      | some text =>
        have hfs : fs ≠ [] := ne_nil_of_value (by rw [hv]; rfl)
        dsimp only
        cases l.string2ld text with
        | none => exact good_purged hn (hp hfs) _
        | some old =>
          dsimp only
          split_ifs
          · exact good_purged hn (hp hfs) _
          · exact hset _ _

end RedisCore.Collection
