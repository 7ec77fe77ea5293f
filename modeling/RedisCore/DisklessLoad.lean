import RedisCore.KeyspaceIndexes

namespace RedisCore.Keyspace

variable {V : Type} {cfg : ServerConfig}

structure LoadItem (V : Type) where
  db : ℕ
  key : Bytes
  value : V
  expiretime : Option ℤ

/-- `serverPanic` for a key that is there twice, and the exit for a database that there is not. -/
inductive LoadFault where
  | duplicatedKey
  | dbRange
  | keyspace (e : KeyspaceFault)
deriving DecidableEq, Repr

def dbAddRDBLoad (cfg : ServerConfig) (s : Server V) (d : ℕ) (k : Bytes) (v : V) : Server V × Bool :=
  match (s.dbs d).dict k with
  | some _ => (s, false)
  | none =>
    let s := setDict s d k (some v)
    (if cfg.clusterEnabled then slotToKeyUpdateKey cfg s k true else s, true)

def loadItem (cfg : ServerConfig) (s : Server V) (item : LoadItem V) : Except LoadFault (Server V) :=
  if cfg.dbnum ≤ item.db then .error .dbRange
  else
    let (s, added) := dbAddRDBLoad cfg s item.db item.key item.value
    if !added then .error .duplicatedKey
    else
      match item.expiretime with
      | none => .ok s
      | some when => (setExpire s item.db item.key when).mapError .keyspace

def rdbLoadRio (cfg : ServerConfig) (items : List (LoadItem V)) (s : Server V) :
    Except LoadFault (Server V) := items.foldlM (loadItem cfg) s

def disklessLoadMakeBackups (cfg : ServerConfig) (s : Server V) : (ℕ → RedisDb V) × Server V :=
  (s.dbs, { s with dbs := fun d => if d < cfg.dbnum then emptyDb else s.dbs d })

def disklessLoadRestoreBackups (cfg : ServerConfig) (backup : ℕ → RedisDb V) (s : Server V) : Server V :=
  let s := emptyDbGeneric cfg s none
  { s with dbs := fun d => if d < cfg.dbnum then backup d else s.dbs d }

def failedSync (cfg : ServerConfig) (items : List (LoadItem V)) (s : Server V) :
    Except LoadFault (Server V) := do
  let (backup, s) := disklessLoadMakeBackups cfg s
  let s := emptyDbGeneric cfg s none
  let s ← rdbLoadRio cfg items s
  return disklessLoadRestoreBackups cfg backup s

variable {s s' : Server V}

def SameOutside (cfg : ServerConfig) (s s' : Server V) : Prop := ∀ d, cfg.dbnum ≤ d → s'.dbs d = s.dbs d

theorem SameOutside.trans {s1 s2 s3 : Server V} (h : SameOutside cfg s1 s2)
    (h' : SameOutside cfg s2 s3) : SameOutside cfg s1 s3 :=
  fun d hd => (h' d hd).trans (h d hd)

theorem emptyDbGeneric_dbs (s : Server V) (d : ℕ) :
    (emptyDbGeneric cfg s none).dbs d = if d < cfg.dbnum then emptyDb else s.dbs d := by
  have hin : inDb none d = true := by simp [inDb]
  unfold emptyDbGeneric
  rw [if_neg (by simp)]
  dsimp only
  split
  · simp only [slotToKeyFlush, hin, true_and]
    rfl
  · simp only [hin, true_and]
    rfl

theorem emptyDbGeneric_slots (hcluster : cfg.clusterEnabled = true) (s : Server V) :
    (emptyDbGeneric cfg s none).slotsToKeys = [] ∧
      ∀ hashslot, (emptyDbGeneric cfg s none).slotsKeysCount hashslot = 0 := by
  unfold emptyDbGeneric
  rw [if_neg (by simp)]
  dsimp only
  rw [if_pos hcluster]
  exact ⟨rfl, fun _ => rfl⟩

theorem emptyDbGeneric_outside (s : Server V) : SameOutside cfg s (emptyDbGeneric cfg s none) := by
  intro d hd
  rw [emptyDbGeneric_dbs, if_neg (not_lt.mpr hd)]

theorem setDict_outside {d : ℕ} (hd : d < cfg.dbnum) (k : Bytes) (v : Option V) :
    SameOutside cfg s (setDict s d k v) := by
  intro d' hd'
  exact Function.update_of_ne (by omega) _ _

theorem setExpires_outside {d : ℕ} (hd : d < cfg.dbnum) (k : Bytes) (t : Option ℤ) :
    SameOutside cfg s (setExpires s d k t) := by
  intro d' hd'
  exact Function.update_of_ne (by omega) _ _

theorem dbAddRDBLoad_outside {d : ℕ} (hd : d < cfg.dbnum) (k : Bytes) (v : V) :
    SameOutside cfg s (dbAddRDBLoad cfg s d k v).1 := by
  unfold dbAddRDBLoad
  cases (s.dbs d).dict k with
  | some _ => exact fun _ _ => rfl
  | none =>
    have hset : SameOutside cfg s (setDict s d k (some v)) := setDict_outside hd k (some v)
    dsimp only
    split
    · exact hset
    · exact hset

theorem loadItem_outside {item : LoadItem V} (h : loadItem cfg s item = .ok s') :
    SameOutside cfg s s' := by
  unfold loadItem at h
  by_cases hdb : cfg.dbnum ≤ item.db
  · rw [if_pos hdb] at h
    cases h
  · rw [if_neg hdb] at h
    have hd := not_le.mp hdb
    have hadd : SameOutside cfg s (dbAddRDBLoad cfg s item.db item.key item.value).1 :=
      dbAddRDBLoad_outside hd item.key item.value
    generalize dbAddRDBLoad cfg s item.db item.key item.value = added at h hadd
    dsimp only at h
    cases hok : added.2 with
    | false =>
      simp only [hok, Bool.not_false, if_true] at h
      cases h
    | true =>
      simp only [hok, Bool.not_true, Bool.false_eq_true, if_false] at h
      cases htime : item.expiretime with
      | none =>
        simp only [htime, Except.ok.injEq] at h
        rw [← h]
        exact hadd
      | some when =>
        simp only [htime, setExpire] at h
        cases hkey : (added.1.dbs item.db).dict item.key with
        | none =>
          simp only [hkey, Except.mapError] at h
          cases h
        | some v =>
          simp only [hkey, Except.mapError, Except.ok.injEq] at h
          rw [← h]
          exact hadd.trans (setExpires_outside hd item.key (some when))

theorem rdbLoadRio_outside {items : List (LoadItem V)} (h : rdbLoadRio cfg items s = .ok s') :
    SameOutside cfg s s' := by
  induction items generalizing s with
  | nil =>
    cases h
    exact fun _ _ => rfl
  | cons item items ih =>
    unfold rdbLoadRio at h
    rw [List.foldlM_cons] at h
    cases hitem : loadItem cfg s item with
    | error e =>
      rw [hitem] at h
      cases h
    | ok s1 =>
      rw [hitem] at h
      exact (loadItem_outside hitem).trans (ih h)

theorem failedSync_spec {items : List (LoadItem V)} (h : failedSync cfg items s = .ok s') :
    (∀ d, s'.dbs d = s.dbs d) ∧
      (cfg.clusterEnabled = true → s'.slotsToKeys = [] ∧ ∀ hashslot, s'.slotsKeysCount hashslot = 0) := by
  unfold failedSync at h
  dsimp only at h
  cases hload : rdbLoadRio cfg items
      (emptyDbGeneric cfg (disklessLoadMakeBackups cfg s).2 none) with
  | error e =>
    rw [hload] at h
    cases h
  | ok s1 =>
    rw [hload] at h
    cases h
    constructor
    · intro d
      by_cases hd : d < cfg.dbnum
      · exact if_pos hd
      · have houtside := ((emptyDbGeneric_outside (disklessLoadMakeBackups cfg s).2).trans
          (rdbLoadRio_outside hload)).trans (emptyDbGeneric_outside s1)
        calc (disklessLoadRestoreBackups cfg (disklessLoadMakeBackups cfg s).1 s1).dbs d
            = (emptyDbGeneric cfg s1 none).dbs d := if_neg hd
          _ = (disklessLoadMakeBackups cfg s).2.dbs d := houtside d (not_lt.mp hd)
          _ = s.dbs d := if_neg hd
    · intro hcluster
      exact emptyDbGeneric_slots hcluster s1

theorem slotIndexed_of_flushed (hslots : s.slotsToKeys = [])
    (hcount : ∀ hashslot, s.slotsKeysCount hashslot = 0) :
    SlotIndexed cfg s ↔ ∀ k, (s.dbs 0).dict k = none := by
  constructor
  · intro h k
    by_contra hk
    have hmem := (h.mem (slotKey cfg k)).mpr ⟨k, hk, rfl⟩
    rw [hslots] at hmem
    cases hmem
  · intro hempty
    constructor
    · rw [hslots]
      exact List.Pairwise.nil
    · intro e
      rw [hslots]
      constructor
      · intro hmem
        cases hmem
      · intro hkey
        obtain ⟨k, hk, -⟩ := hkey
        exact absurd (hempty k) hk
    · intro hashslot
      rw [hcount, hslots]
      rfl

/-- The restore gives back every database. -/
theorem failedSync_restores {items : List (LoadItem V)} (h : failedSync cfg items s = .ok s') :
    ((∀ d, s'.dbs d = s.dbs d) ∧ (cfg.clusterEnabled = true → SlotIndexed cfg s')) ↔
      (cfg.clusterEnabled = false ∨ ∀ k, (s.dbs 0).dict k = none) := by
  obtain ⟨hdbs, hslots⟩ := failedSync_spec h
  cases hcluster : cfg.clusterEnabled with
  | false =>
    constructor
    · exact fun _ => Or.inl rfl
    · exact fun _ => ⟨hdbs, fun hc => by cases hc⟩
  | true =>
    obtain ⟨hindex, hcount⟩ := hslots hcluster
    have hiff : SlotIndexed cfg s' ↔ ∀ k, (s'.dbs 0).dict k = none :=
      slotIndexed_of_flushed hindex hcount
    rw [hdbs 0] at hiff
    constructor
    · intro hrestored
      exact Or.inr (hiff.mp (hrestored.2 rfl))
    · intro hempty
      rcases hempty with hempty | hempty
      · cases hempty
      · exact ⟨hdbs, fun _ => hiff.mpr hempty⟩

def plainConfig : ServerConfig :=
  { dbnum := 16
    dbnum_pos := by decide
    clusterEnabled := false
    keyHashSlot := fun _ => 0 }

def twoDatabases : Server ℕ :=
  { emptyServer with dbs := fun d =>
      { (emptyDb : RedisDb ℕ) with
        dict := fun k => if (d, k) = (0, [97]) then some 1 else if (d, k) = (3, [99]) then some 4 else none
        expires := fun k => if (d, k) = (0, [97]) then some 7 else none } }

/-- A transfer that dies after two keys, one of which the replica has with another value. -/
theorem failedSync_restores_twoDatabases : ∃ s',
    failedSync plainConfig [⟨0, [97], 2, some 5⟩, ⟨1, [98], 3, none⟩] twoDatabases = .ok s' ∧
    (s'.dbs 0).dict [97] = some 1 ∧ (s'.dbs 0).expires [97] = some 7 ∧ (s'.dbs 3).dict [99] = some 4 ∧
    (s'.dbs 1).dict [98] = none := by
  obtain ⟨s', hs'⟩ : ∃ s',
      failedSync plainConfig [⟨0, [97], 2, some 5⟩, ⟨1, [98], 3, none⟩] twoDatabases = .ok s' := ⟨_, rfl⟩
  have hiff := failedSync_restores hs'
  obtain ⟨hdbs, -⟩ := hiff.mpr (Or.inl rfl)
  refine ⟨s', hs', ?_⟩
  rw [hdbs, hdbs, hdbs]
  exact ⟨rfl, rfl, rfl, rfl⟩

def clusterConfig : ServerConfig :=
  { dbnum := 1
    dbnum_pos := by decide
    clusterEnabled := true
    keyHashSlot := fun _ => 0 }

def oneKeyServer : Server ℕ :=
  slotToKeyUpdateKey clusterConfig (setDict emptyServer 0 [97] (some 1)) [97] true

theorem oneKeyServer_indexed : SlotIndexed clusterConfig oneKeyServer :=
  slotToKeyUpdateKey_indexed (emptyServer_indexed.slots rfl) rfl rfl

/-- The key that `dbAdd` has put there is back, and the index of the slots does not have it. -/
theorem restore_leaves_slots_empty :
    dbAdd clusterConfig emptyServer 0 [97] 1 = .ok oneKeyServer ∧
      SlotIndexed clusterConfig oneKeyServer ∧
      ∃ s', failedSync clusterConfig [] oneKeyServer = .ok s' ∧ (s'.dbs 0).dict [97] = some 1 ∧
        s'.slotsToKeys = [] ∧ ¬ SlotIndexed clusterConfig s' := by
  have hsync : ∃ s', failedSync clusterConfig [] oneKeyServer = .ok s' := ⟨_, rfl⟩
  obtain ⟨s', hs'⟩ := hsync
  obtain ⟨hdbs, hslots⟩ := failedSync_spec hs'
  obtain ⟨hindex, hcount⟩ := hslots rfl
  have hkey : (s'.dbs 0).dict [97] = some 1 := by
    rw [hdbs]
    rfl
  refine ⟨rfl, oneKeyServer_indexed, s', hs', hkey, hindex, ?_⟩
  intro h
  have hnone := (slotIndexed_of_flushed hindex hcount).mp h [97]
  rw [hkey] at hnone
  cases hnone

end RedisCore.Keyspace
