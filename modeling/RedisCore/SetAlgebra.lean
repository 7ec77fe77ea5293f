import RedisCore.SetIntersection
import RedisCore.SetSteps

/-! What the commands on sets make of the members: the STORE forms of the set algebra, with both
algorithms for differences, and SPOP with a count. -/

namespace RedisCore.Collection
open Function (update_of_ne update_self)

variable {env : Env} {db db1 : RedisDb}

/-- The members of the set at a key; a key that is not there counts as an empty set. -/
def members (env : Env) (db : RedisDb) (k : Bytes) : List Bytes := asSet (visible env db k).1

/-- The reply is the size of the result, which replaces what was at the key, without duplicates and
without an expire time. -/
def Stores (env : Env) (db : RedisDb) (dstkey : Bytes) (p : Bytes → Prop) (r : Result) : Prop :=
  ∃ (db' : RedisDb) (ms : List Bytes), r = .ok (db', .int ms.length) ∧ ms.Nodup ∧
    (∀ m, m ∈ ms ↔ p m) ∧ ∀ k, visible env db' k =
      if k = dstkey then (if ms = [] then none else some (.set ms), none) else visible env db k

theorem storeSet_stores {d : Bytes} {ms : List Bytes} {p : Bytes → Prop}
    (hv : visible env db1 = visible env db) (hn : ms.Nodup) (hp : ∀ m, m ∈ ms ↔ p m) :
    Stores env db d p (storeSet db1 d ms) := by
  have hgone : (dbDelete db1 d).dict d = none := update_self ..
  cases ms with
  | nil =>
    refine ⟨dbDelete db1 d, [], rfl, hn, hp, fun k => ?_⟩
    rw [visible_dbDelete, hv]
    rfl
  | cons m ms =>
    refine ⟨setValue (dbDelete db1 d) d (.set (m :: ms)), m :: ms, ?_, hn, hp, fun k => ?_⟩
    · simp only [storeSet, dbAdd, hgone]
      rfl
    · rw [visible_setValue, hv]
      rfl

def sourceAt : Option Value → Option (List Bytes)
  | some (.set ms) => some ms
  | _ => none

theorem sourceAt_getD (o : Option Value) : (sourceAt o).getD [] = asSet o := by
  rcases o with _ | v
  · rfl
  · cases v <;> rfl

theorem sunionDiffSets_loads : ∀ (ks : List Bytes) (db : RedisDb),
    (∀ k ∈ ks, ¬WrongType (visible env db k).1) →
    visible env (sunionDiffSets env ks db).1 = visible env db ∧
      (sunionDiffSets env ks db).2 = some (ks.map fun k => sourceAt (visible env db k).1) := by
  intro ks
  induction ks with
  | nil => exact fun db _ => ⟨rfl, rfl⟩
  | cons k ks ih =>
    intro db h
    obtain ⟨hk, hks⟩ := List.forall_mem_cons.mp h
    have hv : visible env (expireIfNeeded env db k) = visible env db := visible_expireIfNeeded k
    have hrest := ih (expireIfNeeded env db k) (by rw [hv]; exact hks)
    rw [hv] at hrest
    have ho : (lookupKeyWrite env db k).2 = (visible env db k).1 := rfl
    have hdb : (lookupKeyWrite env db k).1 = expireIfNeeded env db k := rfl
    simp only [sunionDiffSets, ho, hdb, List.map_cons]
    cases hval : (visible env db k).1 with
    | none => exact ⟨hrest.1, by simp only [hrest.2]; rfl⟩
    | some v =>
      cases v with
      | set ms => exact ⟨hrest.1, by simp only [hrest.2]; rfl⟩
      | _ => exact absurd ⟨by rw [hval]; simp, by rw [hval]; rfl⟩ hk

theorem mem_unionSets (sets : List (Option (List Bytes))) (m : Bytes) :
    m ∈ unionSets sets ↔ ∃ s ∈ sets, m ∈ s.getD [] := by
  have hfold : ∀ (sets : List (Option (List Bytes))) (d : List Bytes),
      m ∈ sets.foldl (fun d s => (s.getD []).foldl (fun d m => (setTypeAdd d m).1) d) d ↔
        m ∈ d ∨ ∃ s ∈ sets, m ∈ s.getD [] := by
    intro sets
    induction sets with
    | nil => simp
    | cons s sets ih =>
      intro d
      rw [List.foldl_cons, ih, mem_foldl_setTypeAdd, List.exists_mem_cons_iff, or_assoc]
  rw [unionSets, hfold]
  simp

theorem nodup_unionSets (sets : List (Option (List Bytes))) : (unionSets sets).Nodup := by
  have hfold : ∀ (sets : List (Option (List Bytes))) {d : List Bytes}, d.Nodup →
      (sets.foldl (fun d s => (s.getD []).foldl (fun d m => (setTypeAdd d m).1) d) d).Nodup := by
    intro sets
    induction sets with
    | nil => exact fun h => h
    | cons s sets ih => exact fun h => ih (nodup_foldl_setTypeAdd _ h)
  exact hfold sets List.nodup_nil

def IsDifference (first : List Bytes) (others : List (Option (List Bytes))) (ms : List Bytes) : Prop :=
  ms.Nodup ∧ ∀ m, m ∈ ms ↔ m ∈ first ∧ ∀ s ∈ others, m ∉ s.getD []

theorem diffOne_isDifference (first : List Bytes) (others : List (Option (List Bytes))) :
    IsDifference first others (diffOne first others) := by
  refine ⟨nodup_foldl_setTypeAdd _ List.nodup_nil, fun m => ?_⟩
  rw [diffOne, mem_foldl_setTypeAdd]
  simp

theorem removeAll_spec : ∀ (ms d : List Bytes), d.Nodup →
    (ms.foldl (fun d m => (setTypeRemove d m).1) d).Nodup ∧
      ∀ x, x ∈ ms.foldl (fun d m => (setTypeRemove d m).1) d ↔ x ∈ d ∧ x ∉ ms := by
  intro ms
  induction ms with
  | nil => exact fun d h => ⟨h, by simp⟩
  | cons m ms ih =>
    intro d h
    have hone : (setTypeRemove d m).1 = d.erase m := by
      unfold setTypeRemove
      split
      · rfl
      · rename_i hm
        exact (List.erase_of_not_mem hm).symm
    rw [List.foldl_cons, hone]
    obtain ⟨hn, hmem⟩ := ih (d.erase m) (h.erase m)
    refine ⟨hn, fun x => ?_⟩
    rw [hmem, h.mem_erase_iff, List.mem_cons]
    tauto

theorem diffTwo_isDifference {first : List Bytes} (others : List (Option (List Bytes)))
    (hsize : first.length < 2^32) : IsDifference first others (diffTwo first others) := by
  -- With fewer than 2^32 members left, the `int` is 0 only if nothing is left.
  have hfold : ∀ (others : List (Option (List Bytes))) (d : List Bytes), d.Nodup → d.length < 2^32 →
      IsDifference d others (others.foldl (fun d s =>
        if toInt d.length = 0 then d else (s.getD []).foldl (fun d m => (setTypeRemove d m).1) d) d) := by
    intro others
    induction others with
    | nil => exact fun d h _ => ⟨h, by simp⟩
    | cons s others ih =>
      intro d h hlen
      rw [List.foldl_cons]
      split
      · rename_i hzero
        have hd : d = [] := by
          have hdvd := Int.dvd_of_bmod_eq_zero hzero
          exact List.length_eq_zero_iff.mp (by norm_num at hdvd hlen; omega)
        obtain ⟨hn, hmem⟩ := ih d h hlen
        refine ⟨hn, fun m => ?_⟩
        rw [hmem, hd]
        simp
      · obtain ⟨hn1, hmem1⟩ := removeAll_spec (s.getD []) d h
        have hless := (hn1.subperm fun m hm => ((hmem1 m).mp hm).1).length_le
        obtain ⟨hn, hmem⟩ := ih _ hn1 (lt_of_le_of_lt hless hlen)
        refine ⟨hn, fun m => ?_⟩
        rw [hmem, hmem1, List.forall_mem_cons, and_assoc]
  have hcopy : (first.foldl (fun d m => (setTypeAdd d m).1) []).Nodup :=
    nodup_foldl_setTypeAdd first List.nodup_nil
  have hless := (hcopy.subperm fun m hm => (mem_foldl_setTypeAdd ..).mp hm |>.resolve_left
    List.not_mem_nil).length_le
  obtain ⟨hn, hmem⟩ := hfold others _ hcopy (lt_of_le_of_lt hless hsize)
  refine ⟨hn, fun m => ?_⟩
  rw [diffTwo, hmem, mem_foldl_setTypeAdd]
  simp

theorem diffSets_isDifference {o : Option (List Bytes)} (others : List (Option (List Bytes)))
    (hsize : (o.getD []).length < 2^32) : IsDifference (o.getD []) others (diffSets (o :: others)) := by
  cases o with
  | none => exact ⟨List.nodup_nil, by simp [diffSets]⟩
  | some first =>
    simp only [diffSets]
    split
    · obtain ⟨hn, hmem⟩ := diffOne_isDifference first
        (others.mergeSort (fun s1 s2 => (s2.getD []).length ≤ (s1.getD []).length))
      exact ⟨hn, fun m => by rw [hmem]; simp⟩
    · exact diffTwo_isDifference others hsize

theorem sinterstore_stores (name dstkey : Bytes) {keys : List Bytes} (hne : keys ≠ [])
    (hsets : ∀ k ∈ keys, ¬WrongType (visible env db k).1) :
    Stores env db dstkey (fun m => ∀ k ∈ keys, m ∈ members env db k)
      (sinterstoreCommand env (name :: dstkey :: keys) db) := by
  have hv := loadSets_visible (@lookupKeyWrite_lookup env) keys db
  have hf := loadSets_found (@lookupKeyWrite_lookup env) keys db
  have hos : (keys.map fun k => (lookupKeyWrite env db k).2) = keys.map fun k => (visible env db k).1 :=
    rfl
  rw [sinterstoreCommand_eq]
  generalize loadSets (lookupKeyWrite env) keys db = r at hv hf
  obtain ⟨db1, f⟩ := r
  rw [hos] at hf
  dsimp only at hv hf
  rw [hf, found]
  cases hfind : (keys.map fun k => (visible env db k).1).find? fun o => !isSet o with
  | none =>
    apply storeSet_stores hv (nodup_foldl_setTypeAdd _ List.nodup_nil)
    intro m
    rw [mem_foldl_setTypeAdd, mem_intersection]
    simp [members, ← List.length_eq_zero_iff, List.length_mergeSort, mt List.length_eq_zero_iff.1 hne]
  | some o =>
    obtain ⟨k, hk, rfl⟩ := List.mem_map.mp (List.mem_of_find?_eq_some hfind)
    have hset : isSet (visible env db k).1 = false := by simpa using List.find?_some hfind
    have hnone : (visible env db k).1 = none := by
      by_contra hsome
      exact hsets k hk ⟨hsome, hset⟩
    rw [hnone]
    refine ⟨dbDelete db1 dstkey, [], rfl, List.nodup_nil, fun m => ?_, fun k' => ?_⟩
    · have hempty : members env db k = [] := by rw [members, hnone]; rfl
      simp only [List.not_mem_nil, false_iff]
      intro hall
      have hm := hall k hk
      rw [hempty] at hm
      cases hm
    · rw [visible_dbDelete, hv]
      rfl

theorem sunionDiff_stores {op : SetOp} {keys ms : List Bytes} {p : Bytes → Prop} (name dstkey : Bytes)
    (hsets : ∀ k ∈ keys, ¬WrongType (visible env db k).1) (hms : ms = match op with
      | .union => unionSets (keys.map fun k => sourceAt (visible env db k).1)
      | .diff => diffSets (keys.map fun k => sourceAt (visible env db k).1))
    (hn : ms.Nodup) (hp : ∀ m, m ∈ ms ↔ p m) :
    Stores env db dstkey p (sunionDiffGenericCommand op env (name :: dstkey :: keys) db) := by
  have hload := sunionDiffSets_loads keys db hsets
  simp only [sunionDiffGenericCommand, List.drop_succ_cons, List.drop_zero]
  generalize sunionDiffSets env keys db = r at hload
  obtain ⟨db1, sets⟩ := r
  dsimp only at hload
  rw [hload.2]
  rw [hms] at hn hp
  exact storeSet_stores hload.1 hn hp

theorem spopSome_perm (random : ℕ → ℕ) : ∀ (count : ℕ) (ms : List Bytes), count ≤ ms.length →
    ∃ rest popped, spopSome random count ms = .ok (rest, popped) ∧ popped.length = count ∧
      (popped ++ rest).Perm ms := by
  intro count
  induction count with
  | zero => exact fun ms _ => ⟨ms, [], rfl, rfl, List.Perm.refl ms⟩
  | succ count ih =>
    intro ms h
    have hms : ms ≠ [] := List.length_pos_iff.mp (by omega)
    obtain ⟨m, hm, hmem⟩ := (setTypeRandomElement_yields (random count) hms).total trivial
    have hlen := setTypeRemove_length hmem
    obtain ⟨rest, popped, hsome, hcount, hperm⟩ := ih (setTypeRemove ms m).1 (by omega)
    refine ⟨rest, m :: popped, ?_, by simp [hcount], ?_⟩
    · rw [spopSome, hm, ok_bind, hsome]
      rfl
    · rw [setTypeRemove, if_pos hmem] at hperm
      exact (hperm.cons m).trans (List.perm_cons_erase hmem).symm

theorem spopKeep_perm (random : ℕ → ℕ) : ∀ (remaining : ℕ) (ms newset : List Bytes),
    remaining ≤ ms.length → (newset ++ ms).Nodup →
    ∃ newset' rest, spopKeep random remaining ms newset = .ok (newset', rest) ∧
      rest.length+remaining = ms.length ∧ (newset' ++ rest).Perm (newset ++ ms) := by
  intro remaining
  induction remaining with
  | zero => exact fun ms newset _ _ => ⟨newset, ms, rfl, rfl, List.Perm.refl _⟩
  | succ remaining ih =>
    intro ms newset h hn
    have hms : ms ≠ [] := List.length_pos_iff.mp (by omega)
    obtain ⟨m, hm, hmem⟩ := (setTypeRandomElement_yields (random remaining) hms).total trivial
    have hlen := setTypeRemove_length hmem
    have hnew : m ∉ newset := fun hin => (List.nodup_append.mp hn).2.2 m hin m hmem rfl
    have hmove : (newset ++ [m] ++ ms.erase m).Perm (newset ++ ms) := by
      rw [List.append_assoc]
      exact (List.perm_cons_erase hmem).symm.append_left newset
    rw [spopKeep, hm, ok_bind]
    rw [setTypeRemove, if_pos hmem] at hlen ⊢
    rw [setTypeAdd, if_neg hnew]
    obtain ⟨newset', rest, hkeep, hcount, hperm⟩ :=
      ih (ms.erase m) (newset ++ [m]) (by dsimp only at hlen; omega) (hmove.nodup_iff.mpr hn)
    exact ⟨newset', rest, hkeep, by dsimp only at hlen; omega, hperm.trans hmove⟩

theorem visible_overwritten {k : Bytes} {v : Value} (hset : (visible env db k).1 = some v) (w : Value) :
    visible env (setValue db k w) =
      Function.update (visible env db) k (some w, (visible env db k).2) := by
  have hfresh : (keyIsExpired env db k && !env.slave) = false := by
    by_contra hx
    rw [visible_eq, if_pos (by simpa using hx)] at hset
    cases hset
  funext k'
  by_cases hk : k' = k
  · have hsame : keyIsExpired env (setValue db k w) k = keyIsExpired env db k := rfl
    rw [hk, update_self, visible_eq, visible_eq, hsame, hfresh]
    simp [setValue]
  · rw [update_of_ne hk]
    exact visible_congr (update_of_ne hk ..) rfl

/-- Whichever strategy is used, SPOP with a count replies with that many members, or all, and leaves
exactly the other ones behind; the expire time stays as long as a member is left.  The header of the
reply with the whole set is an `int`. -/
theorem spop_partitions (env : Env) (db : RedisDb) (name k : Bytes) {ms : List Bytes} {count : ℕ}
    (hcount : count < 2^63) (hset : (visible env db k).1 = some (.set ms)) (hn : ms.Nodup)
    (hne : ms ≠ []) (hsize : ms.length < 2^31) :
    ∃ (db' : RedisDb) (popped rest : List Bytes),
      spopWithCountCommand env [name, k, decimal count] db =
          .ok (db', if count = 0 then .emptySet else .array (popped.map some)) ∧
        popped.length = min count ms.length ∧ (popped ++ rest).Perm ms ∧
        visible env db' = Function.update (visible env db) k
          (if rest = [] then (none, none) else (some (.set rest), (visible env db k).2)) := by
  have harg : getLongFromObjectOrReply (decimal count) = .ok (count : ℤ) := by
    rw [getLongFromObjectOrReply, string2ll_decimal (by omega) (by exact_mod_cast hcount)]
  have hlook : (lookupKeyWrite env db k).2 = some (.set ms) := hset
  have hv : visible env (lookupKeyWrite env db k).1 = visible env db := visible_expireIfNeeded k
  have hdict : (lookupKeyWrite env db k).1.dict k = some (.set ms) := hset
  have hpos : 0 < ms.length := List.length_pos_iff.mpr hne
  simp only [spopWithCountCommand, arg, List.getD_cons_succ, List.getD_cons_zero, harg, Int.toNat_natCast,
    if_neg (Int.not_lt.mpr (Int.natCast_nonneg count))]
  generalize lookupKeyWrite env db k = r at hlook hv hdict
  obtain ⟨db1, o⟩ := r
  dsimp only at hlook hv hdict ⊢
  rw [hlook]
  dsimp only
  rw [← hv] at hset ⊢
  by_cases hzero : count = 0
  · refine ⟨db1, [], ms, by simp [hzero], by simp [hzero], List.Perm.refl ms, ?_⟩
    rw [if_neg hne, ← hset]
    exact (Function.update_eq_self k _).symm
  simp only [if_neg hzero]
  by_cases hall : count ≥ ms.length
  · have hreply : addReplySet ms = .array (ms.map some) := if_pos (toInt_of_fits (by omega) (by omega))
    refine ⟨dbDelete db1 k, ms, [], by rw [if_pos hall, hreply], (Nat.min_eq_right hall).symm, by simp, ?_⟩
    funext k'
    rw [visible_dbDelete, if_pos rfl, Function.update_apply]
  rw [if_neg hall]
  by_cases hmany : (ms.length-count)*5 > count
  · obtain ⟨rest, popped, hsome, hlen, hperm⟩ := spopSome_perm env.random count ms (by omega)
    have hsum := hperm.length_eq
    rw [List.length_append] at hsum
    have hrest : rest ≠ [] := List.length_pos_iff.mp (by omega)
    refine ⟨setValue db1 k (.set rest), popped, rest, ?_, by omega, hperm, ?_⟩
    · rw [if_pos hmany, hsome]
      rfl
    · rw [if_neg hrest]
      exact visible_overwritten hset _
  · obtain ⟨newset, popped, hkeep, hlen, hperm⟩ :=
      spopKeep_perm env.random (ms.length-count) ms [] (by omega) hn
    have hsum := hperm.length_eq
    rw [List.length_append, List.nil_append] at hsum
    have hrest : newset ≠ [] := List.length_pos_iff.mp (by omega)
    refine ⟨setValue db1 k (.set newset), popped, newset, ?_, by omega,
      List.perm_append_comm.trans hperm, ?_⟩
    · rw [if_neg hmany, hkeep]
      simp only [dbOverwrite, ok_bind, hdict]
      rfl
    · rw [if_neg hrest]
      exact visible_overwritten hset _

/-- Popping two of three members with an expire time, one by one. -/
theorem spop_partitions_three :
    let env : Env := ⟨0, false, fun _ => 0, fun _ => false⟩
    let db : RedisDb := { setValue emptyDb [97] (.set [[1], [2], [3]]) with expires := fun _ => some 5 }
    ∃ (db' : RedisDb) (popped rest : List Bytes),
      spopWithCountCommand env [text "spop", [97], decimal (2 : ℕ)] db =
          .ok (db', if 2 = 0 then .emptySet else .array (popped.map some)) ∧
        popped.length = min 2 3 ∧ (popped ++ rest).Perm [[1], [2], [3]] ∧
        visible env db' = Function.update (visible env db) [97]
          (if rest = [] then (none, none) else (some (.set rest), (visible env db [97]).2)) := by
  intro env db
  have hset : (visible env db [97]).1 = some (.set [[1], [2], [3]]) := rfl
  exact spop_partitions env db _ _ (show 2 < 2^63 by decide) hset (by decide) (by decide) (by decide)

end RedisCore.Collection
