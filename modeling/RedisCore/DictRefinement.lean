import RedisCore.DictOps

namespace RedisCore.HashDict

open List

section Abstract

variable {K V : Type} [DecidableEq K]

inductive DictOp (K V : Type)
  | add (key : K) (val : V)
  | replace (key : K) (val : V)
  | addOrFind (key : K)
  | find (key : K)
  | delete (key : K)
  | unlink (key : K)
  | expand (size : ℕ)
  | resize
  | rehash (n : BitVec 32)
  | empty
  | enableResize
  | disableResize

inductive DictOut (K V : Type)
  | status (s : Status)
  | added (fresh : Bool)
  | entry (e : Option (DictEntry K V))
  | done
deriving DecidableEq, Repr

abbrev KeyMap (K V : Type) := K → Option (DictEntry K V)

variable (ty : DictType K V)

def KeyMap.set (m : KeyMap K V) (key : K) (e : DictEntry K V) : KeyMap K V :=
  fun x => if dictCompareKeys ty key x then some e else m x

def KeyMap.erase (m : KeyMap K V) (key : K) : KeyMap K V :=
  fun x => if dictCompareKeys ty key x then none else m x

def applyMap (m : KeyMap K V) : DictOp K V → KeyMap K V × DictOut K V
  | .add key val =>
    match m key with
    | some _ => (m, .status .err)
    | none => (m.set ty key ⟨applyDup ty.keyDup key, some (applyDup ty.valDup val)⟩, .status .ok)
  | .replace key val =>
    match m key with
    | some e => (m.set ty key { e with v := some (applyDup ty.valDup val) }, .added false)
    | none => (m.set ty key ⟨applyDup ty.keyDup key, some (applyDup ty.valDup val)⟩, .added true)
  | .addOrFind key =>
    match m key with
    | some e => (m, .entry (some e))
    | none => (m.set ty key ⟨applyDup ty.keyDup key, none⟩,
        .entry (some ⟨applyDup ty.keyDup key, none⟩))
  | .find key => (m, .entry (m key))
  | .delete key => (m.erase ty key, .status (if (m key).isSome then .ok else .err))
  | .unlink key => (m.erase ty key, .entry (m key))
  | .empty => (fun _ => none, .done)
  | .expand _ => (m, .done)
  | .resize => (m, .done)
  | .rehash _ => (m, .done)
  | .enableResize => (m, .done)
  | .disableResize => (m, .done)

def runMap (m : KeyMap K V) : List (DictOp K V) → KeyMap K V × List (DictOut K V)
  | [] => (m, [])
  | op :: ops =>
    let r := applyMap ty m op
    let rest := runMap r.1 ops
    (rest.1, r.2 :: rest.2)

def readEntry (d : Dict K V) : Option EntryRef → Except Fault (DictOut K V)
  | none => .ok (.entry none)
  | some ref => do
    let e ← loadEntry d ref
    .ok (.entry (some e))

def applyOp (s : Dict K V × Bool) : DictOp K V → Except Fault ((Dict K V × Bool) × DictOut K V)
  | .add key val => do
    let r ← dictAdd ty s.2 s.1 key val
    .ok ((r.1, s.2), .status r.2)
  | .replace key val => do
    let r ← dictReplace ty s.2 s.1 key val
    .ok ((r.1, s.2), .added r.2)
  | .addOrFind key => do
    let r ← dictAddOrFind ty s.2 s.1 key
    let out ← readEntry r.1 r.2
    .ok ((r.1, s.2), out)
  | .find key => do
    let r ← dictFind ty s.1 key
    let out ← readEntry r.1 r.2
    .ok ((r.1, s.2), out)
  | .delete key => do
    let r ← dictDelete ty s.1 key
    .ok ((r.1, s.2), .status r.2)
  | .unlink key => do
    let r ← dictUnlink ty s.1 key
    .ok ((r.1, s.2), .entry r.2)
  | .expand size => .ok (((dictExpand s.1 size).1, s.2), .done)
  | .resize => .ok (((dictResize s.2 s.1).1, s.2), .done)
  | .rehash n => do
    let r ← dictRehash ty s.1 n
    .ok ((r.1, s.2), .done)
  | .empty => do
    let d ← dictEmpty s.1
    .ok ((d, s.2), .done)
  | .enableResize => .ok ((s.1, true), .done)
  | .disableResize => .ok ((s.1, false), .done)

def runOps (s : Dict K V × Bool) :
    List (DictOp K V) → Except Fault ((Dict K V × Bool) × List (DictOut K V))
  | [] => .ok (s, [])
  | op :: ops => do
    let r ← applyOp ty s op
    let rest ← runOps r.1 ops
    .ok (rest.1, r.2 :: rest.2)

end Abstract

section Refinement

variable {K V : Type} [DecidableEq K] {ty : DictType K V}

def DistinctKeys (ty : DictType K V) (l : List (DictEntry K V)) : Prop :=
  l.Pairwise (fun a b => ¬ keyMatches ty a.key b)

structure Inv (ty : DictType K V) (d : Dict K V) : Prop where
  tables : TablesOk ty d
  sized : Sized d
  distinct : DistinctKeys ty (entries d)

def Holds (ty : DictType K V) (d : Dict K V) (m : KeyMap K V) : Prop :=
  ∀ key e, m key = some e ↔ e ∈ entries d ∧ keyMatches ty key e

theorem inv_create : Inv ty (dictCreate : Dict K V) where
  tables := ⟨htOk_reset, htOk_reset, fun _ => rfl, fun _ h => (by cases h)⟩
  sized := ⟨Nat.zero_le _, Nat.zero_le _⟩
  distinct := Pairwise.nil

theorem holds_create : Holds ty (dictCreate : Dict K V) (fun _ => none) := by
  intro key e
  simp [entries, dictCreate]

theorem DistinctKeys.perm (law : Lawful ty) {l l' : List (DictEntry K V)}
    (h : DistinctKeys ty l) (hp : l' ~ l) : DistinctKeys ty l' := by
  apply (hp.pairwise_iff _).mpr h
  intro a b hab hba
  apply hab
  rw [keyMatches_iff law] at hba ⊢
  exact law.symm _ _ hba

theorem Holds.perm {d d' : Dict K V} {m : KeyMap K V} (h : Holds ty d m)
    (hp : entries d' ~ entries d) : Holds ty d' m := by
  intro key e
  rw [h key e, hp.mem_iff]

theorem Holds.eq_none {d : Dict K V} {m : KeyMap K V} (h : Holds ty d m) {key : K}
    (hno : ∀ e ∈ entries d, ¬ keyMatches ty key e) : m key = none := by
  cases hm : m key with
  | none => rfl
  | some e =>
    obtain ⟨h1, h2⟩ := (h key e).mp hm
    exact absurd h2 (hno e h1)

theorem Holds.set (law : Lawful ty) {d' : Dict K V} {m : KeyMap K V} {key : K}
    {e : DictEntry K V} {rest : List (DictEntry K V)} (hkey : dictCompareKeys ty key e.key)
    (hrest : ∀ x ∈ rest, ¬ keyMatches ty key x) (hd' : entries d' ~ e :: rest)
    (hm : ∀ k x, ¬ dictCompareKeys ty key k → (m k = some x ↔ x ∈ rest ∧ keyMatches ty k x)) :
    Holds ty d' (m.set ty key e) := by
  intro k x
  rw [hd'.mem_iff, mem_cons, KeyMap.set]
  split
  next hk =>
    -- equivalent keys see the new entry, and only it
    constructor
    · intro hx
      cases hx
      refine ⟨Or.inl rfl, ?_⟩
      rw [keyMatches_iff law]
      exact law.trans _ _ _ (law.symm _ _ hk) hkey
    · rintro ⟨rfl | hx, hmatch⟩
      · rfl
      · rw [keyMatches_iff law] at hmatch
        have hbad := law.trans _ _ _ hk hmatch
        exact absurd ((keyMatches_iff law).mpr hbad) (hrest x hx)
  next hk =>
    rw [hm k x hk]
    constructor
    · rintro ⟨h1, h2⟩
      exact ⟨Or.inr h1, h2⟩
    · rintro ⟨rfl | hx, hmatch⟩
      · rw [keyMatches_iff law] at hmatch
        exact absurd (law.trans _ _ _ hkey (law.symm _ _ hmatch)) hk
      · exact ⟨hx, hmatch⟩

theorem rest_not_matching (law : Lawful ty) {e : DictEntry K V} {rest : List (DictEntry K V)}
    {key : K} (hd : DistinctKeys ty (e :: rest)) (he : keyMatches ty key e) :
    ∀ x ∈ rest, ¬ keyMatches ty key x := by
  intro x hx hmatch
  rw [keyMatches_iff law] at he hmatch
  apply (pairwise_cons.mp hd).1 x hx
  rw [keyMatches_iff law]
  exact law.trans _ _ _ (law.symm _ _ he) hmatch

theorem Holds.rest (law : Lawful ty) {d : Dict K V} {m : KeyMap K V} (h : Holds ty d m)
    {key : K} {e : DictEntry K V} {rest : List (DictEntry K V)} (hd : entries d ~ e :: rest)
    (he : keyMatches ty key e) (k : K) (x : DictEntry K V) (hk : ¬ dictCompareKeys ty key k) :
    m k = some x ↔ x ∈ rest ∧ keyMatches ty k x := by
  rw [h k x, hd.mem_iff, mem_cons]
  constructor
  · rintro ⟨rfl | hx, hmatch⟩
    · rw [keyMatches_iff law] at he hmatch
      exact absurd (law.trans _ _ _ he (law.symm _ _ hmatch)) hk
    · exact ⟨hx, hmatch⟩
  · rintro ⟨hx, hmatch⟩
    exact ⟨Or.inr hx, hmatch⟩

theorem Holds.erase (law : Lawful ty) {d d' : Dict K V} {m : KeyMap K V} (h : Holds ty d m)
    {key : K} {e : DictEntry K V} (hd : entries d ~ e :: entries d') (he : keyMatches ty key e)
    (hrest : ∀ x ∈ entries d', ¬ keyMatches ty key x) : Holds ty d' (m.erase ty key) := by
  intro k x
  rw [KeyMap.erase]
  split
  next hk =>
    constructor
    · intro hx
      cases hx
    · rintro ⟨hx, hmatch⟩
      rw [keyMatches_iff law] at hmatch
      exact absurd ((keyMatches_iff law).mpr (law.trans _ _ _ hk hmatch)) (hrest x hx)
  next hk => exact h.rest law hd he k x hk

theorem Holds.erase_absent (law : Lawful ty) {d d' : Dict K V} {m : KeyMap K V}
    (h : Holds ty d m) {key : K} (hno : ∀ x ∈ entries d, ¬ keyMatches ty key x)
    (hp : entries d' ~ entries d) : Holds ty d' (m.erase ty key) := by
  have hsame : m.erase ty key = m := by
    funext k
    rw [KeyMap.erase]
    split
    next hk =>
      symm
      apply h.eq_none
      intro x hx hmatch
      rw [keyMatches_iff law] at hmatch
      exact hno x hx ((keyMatches_iff law).mpr (law.trans _ _ _ hk hmatch))
    · rfl
  rw [hsame]
  exact h.perm hp

theorem Inv.setVal (law : Lawful ty) {d : Dict K V} (inv : Inv ty d) {ref : EntryRef}
    {e : DictEntry K V} (he : EntryAt d ref e) (val : V) :
    ∃ d' rest, dictSetVal ty d ref val = .ok d' ∧ Inv ty d' ∧ entries d ~ e :: rest ∧
      entries d' ~ { e with v := some (applyDup ty.valDup val) } :: rest := by
  obtain ⟨d', rest, hrun, hok, hs, -, hp, hp'⟩ := dictSetVal_spec inv.tables he val
  refine ⟨d', rest, hrun, ⟨hok, hs.sized inv.sized, ?_⟩, hp, hp'⟩
  have hbefore := inv.distinct.perm law hp.symm
  apply DistinctKeys.perm law _ hp'
  -- distinctness looks at keys only
  exact pairwise_cons.mpr (pairwise_cons.mp hbefore)

theorem Inv.addRaw (law : Lawful ty) {d : Dict K V} (inv : Inv ty d)
    (hroom : dictSize d ≤ 2^59) (canResize : Bool) (key : K) :
    ∃ d' entry existing, dictAddRaw ty canResize d key = .ok (d', entry, existing) ∧ Inv ty d' ∧
      ((∃ ref, entry = some ref ∧ EntryAt d' ref ⟨applyDup ty.keyDup key, none⟩ ∧
          (∀ e ∈ entries d, ¬ keyMatches ty key e) ∧
          entries d' ~ ⟨applyDup ty.keyDup key, none⟩ :: entries d) ∨
        (∃ ref e, entry = none ∧ existing = some ref ∧ EntryAt d' ref e ∧ keyMatches ty key e ∧
          entries d' ~ entries d)) := by
  have hroomy : Roomy d := ⟨inv.sized, hroom⟩
  obtain ⟨⟨d', entry, existing⟩, hrun, hok, hs, -, hpost⟩ :=
    (dictAddRaw_yields law inv.tables canResize key).total hroomy
  refine ⟨d', entry, existing, hrun, ?_⟩
  rcases hpost with ⟨ref, h1, h2, h3, h4⟩ | ⟨h1, h2, ⟨ref, e, h3, h4, h5⟩ | ⟨-, h3⟩⟩
  · refine ⟨⟨hok, hs hroomy, ?_⟩, Or.inl ⟨ref, h1, h2, h3, h4⟩⟩
    apply DistinctKeys.perm law _ h4
    refine pairwise_cons.mpr ⟨?_, inv.distinct⟩
    intro x hx hmatch
    apply h3 x hx
    rw [keyMatches_iff law] at hmatch ⊢
    exact law.trans _ _ _ (law.dup key) hmatch
  · exact ⟨⟨hok, hs hroomy, inv.distinct.perm law h2⟩,
      Or.inr ⟨ref, e, h1, h3, h4, h5, h2⟩⟩
  · exact absurd hroomy h3

def Refines (ty : DictType K V) (m : KeyMap K V) (s : Dict K V × Bool) (op : DictOp K V) : Prop :=
  ∃ s', applyOp ty s op = .ok (s', (applyMap ty m op).2) ∧ Inv ty s'.1 ∧
    Holds ty s'.1 (applyMap ty m op).1

variable {d : Dict K V} {m : KeyMap K V} {canResize : Bool}

theorem refines_add (law : Lawful ty) (inv : Inv ty d) (hm : Holds ty d m)
    (hroom : dictSize d ≤ 2^59) (key : K) (val : V) :
    Refines ty m (d, canResize) (.add key val) := by
  obtain ⟨d1, entry, existing, hrun, inv1, hcase⟩ := inv.addRaw law hroom canResize key
  rcases hcase with ⟨ref, rfl, hat, hfresh, hp⟩ | ⟨ref, e, rfl, rfl, hat, hmatch, hp⟩
  · obtain ⟨d2, rest, hset, inv2, hp1, hp2⟩ := inv1.setVal law hat val
    have hnone := hm.eq_none hfresh
    have hrest : rest ~ entries d := (hp1.symm.trans hp).cons_inv
    refine ⟨(d2, canResize), ?_, inv2, ?_⟩
    · simp [applyOp, dictAdd, hrun, hset, applyMap, hnone]
    · simp only [applyMap, hnone]
      apply Holds.set law (law.dup key) _ hp2
      · intro k x hk
        rw [hm k x, hrest.mem_iff]
      · intro x hx
        exact hfresh x (hrest.mem_iff.mp hx)
  · have hsome : m key = some e := (hm key e).mpr ⟨hp.mem_iff.mp hat.mem, hmatch⟩
    refine ⟨(d1, canResize), ?_, inv1, ?_⟩
    · simp [applyOp, dictAdd, hrun, applyMap, hsome]
    · simp only [applyMap, hsome]
      exact hm.perm hp

theorem refines_replace (law : Lawful ty) (inv : Inv ty d) (hm : Holds ty d m)
    (hroom : dictSize d ≤ 2^59) (key : K) (val : V) :
    Refines ty m (d, canResize) (.replace key val) := by
  obtain ⟨d1, entry, existing, hrun, inv1, hcase⟩ := inv.addRaw law hroom canResize key
  rcases hcase with ⟨ref, rfl, hat, hfresh, hp⟩ | ⟨ref, e, rfl, rfl, hat, hmatch, hp⟩
  · obtain ⟨d2, rest, hset, inv2, hp1, hp2⟩ := inv1.setVal law hat val
    have hnone := hm.eq_none hfresh
    have hrest : rest ~ entries d := (hp1.symm.trans hp).cons_inv
    refine ⟨(d2, canResize), ?_, inv2, ?_⟩
    · simp [applyOp, dictReplace, hrun, hset, applyMap, hnone]
    · simp only [applyMap, hnone]
      apply Holds.set law (law.dup key) _ hp2
      · intro k x hk
        rw [hm k x, hrest.mem_iff]
      · intro x hx
        exact hfresh x (hrest.mem_iff.mp hx)
  · -- the key is there: its entry keeps the old key and takes the new value
    obtain ⟨d2, rest, hset, inv2, hp1, hp2⟩ := inv1.setVal law hat val
    have hsome : m key = some e := (hm key e).mpr ⟨hp.mem_iff.mp hat.mem, hmatch⟩
    refine ⟨(d2, canResize), ?_, inv2, ?_⟩
    · simp [applyOp, dictReplace, hrun, hset, applyMap, hsome]
    · simp only [applyMap, hsome]
      have hkey : dictCompareKeys ty key e.key := (keyMatches_iff law).mp hmatch
      apply Holds.set (e := { e with v := some (applyDup ty.valDup val) }) law hkey _ hp2
      · exact (hm.perm hp).rest law hp1 hmatch
      · exact rest_not_matching law (inv1.distinct.perm law hp1.symm) hmatch

theorem refines_addOrFind (law : Lawful ty) (inv : Inv ty d) (hm : Holds ty d m)
    (hroom : dictSize d ≤ 2^59) (key : K) :
    Refines ty m (d, canResize) (.addOrFind key) := by
  obtain ⟨d1, entry, existing, hrun, inv1, hcase⟩ := inv.addRaw law hroom canResize key
  rcases hcase with ⟨ref, rfl, hat, hfresh, hp⟩ | ⟨ref, e, rfl, rfl, hat, hmatch, hp⟩
  · have hnone := hm.eq_none hfresh
    refine ⟨(d1, canResize), ?_, inv1, ?_⟩
    · simp [applyOp, dictAddOrFind, hrun, readEntry, loadEntry_eq hat, applyMap, hnone]
    · simp only [applyMap, hnone]
      apply Holds.set law (law.dup key) hfresh hp
      intro k x _
      exact hm k x
  · have hsome : m key = some e := (hm key e).mpr ⟨hp.mem_iff.mp hat.mem, hmatch⟩
    refine ⟨(d1, canResize), ?_, inv1, ?_⟩
    · simp [applyOp, dictAddOrFind, hrun, readEntry, loadEntry_eq hat, applyMap, hsome]
    · simp only [applyMap, hsome]
      exact hm.perm hp

theorem refines_find (law : Lawful ty) (inv : Inv ty d) (hm : Holds ty d m) (key : K) :
    Refines ty m (d, canResize) (.find key) := by
  obtain ⟨⟨d1, found⟩, hrun, hok, hs, -, hp, hcase⟩ :=
    (dictFind_yields law inv.tables key).total inv.sized
  have inv1 : Inv ty d1 := ⟨hok, hs inv.sized, inv.distinct.perm law hp⟩
  refine ⟨(d1, canResize), ?_, inv1, hm.perm hp⟩
  rcases hcase with ⟨ref, e, hfound, hat, hmatch⟩ | ⟨hfound, hno⟩
  · have hsome : m key = some e := (hm key e).mpr ⟨hp.mem_iff.mp hat.mem, hmatch⟩
    dsimp only at hfound hat
    simp [applyOp, hrun, hfound, readEntry, loadEntry_eq hat, applyMap, hsome]
  · have hnone : m key = none := (hm.perm hp).eq_none hno
    dsimp only at hfound
    simp [applyOp, hrun, hfound, readEntry, applyMap, hnone]

theorem genericDelete_refines (law : Lawful ty) (inv : Inv ty d) (hm : Holds ty d m) (key : K) :
    ∃ d', dictGenericDelete ty d key = .ok (d', m key) ∧ Inv ty d' ∧
      Holds ty d' (m.erase ty key) := by
  obtain ⟨⟨d1, removed⟩, hrun, hok, hs, -, hcase⟩ :=
    (dictGenericDelete_yields law inv.tables key).total inv.sized
  rcases hcase with ⟨e, h1, hmatch, hp⟩ | ⟨h1, hp, hno⟩
  · dsimp only at h1 hp
    have hsome : m key = some e :=
      (hm key e).mpr ⟨hp.mem_iff.mpr mem_cons_self, hmatch⟩
    have hdist := inv.distinct.perm law hp.symm
    refine ⟨d1, by rw [hrun, h1, hsome], ⟨hok, hs inv.sized, (pairwise_cons.mp hdist).2⟩, ?_⟩
    exact hm.erase law hp hmatch (rest_not_matching law hdist hmatch)
  · dsimp only at h1 hp
    refine ⟨d1, by rw [hrun, h1, hm.eq_none hno], ⟨hok, hs inv.sized, ?_⟩, ?_⟩
    · exact inv.distinct.perm law hp
    · exact hm.erase_absent law hno hp

/-- The requests under which the byte count of a table does not wrap: at most 2^60 buckets are
asked for, and keys are added to at most 2^59 entries. -/
def Fits (d : Dict K V) : DictOp K V → Prop
  | .add _ _ => dictSize d ≤ 2^59
  | .replace _ _ => dictSize d ≤ 2^59
  | .addOrFind _ => dictSize d ≤ 2^59
  | .expand size => size ≤ 2^60
  | .resize => dictSize d ≤ 2^60
  | _ => True

theorem applyOp_refines (law : Lawful ty) (inv : Inv ty d) (hm : Holds ty d m) (op : DictOp K V)
    (hfit : Fits d op) : Refines ty m (d, canResize) op := by
  cases op with
  | add key val => exact refines_add law inv hm hfit key val
  | replace key val => exact refines_replace law inv hm hfit key val
  | addOrFind key => exact refines_addOrFind law inv hm hfit key
  | find key => exact refines_find law inv hm key
  | delete key =>
    obtain ⟨d', hrun, inv', hm'⟩ := genericDelete_refines law inv hm key
    refine ⟨(d', canResize), ?_, inv', hm'⟩
    simp [applyOp, dictDelete, hrun, applyMap]
  | unlink key =>
    obtain ⟨d', hrun, inv', hm'⟩ := genericDelete_refines law inv hm key
    refine ⟨(d', canResize), ?_, inv', hm'⟩
    simp [applyOp, dictUnlink, hrun, applyMap]
  | expand size =>
    obtain ⟨hok, hent, -, -, hs⟩ := dictExpand_spec inv.tables size
    refine ⟨((dictExpand d size).1, canResize), rfl, ⟨hok, hs hfit inv.sized, ?_⟩, ?_⟩
    · rw [hent]
      exact inv.distinct
    · exact hm.perm (Perm.of_eq hent)
  | resize =>
    refine ⟨((dictResize canResize d).1, canResize), rfl, ?_⟩
    unfold dictResize
    split
    · exact ⟨inv, hm⟩
    · -- the minimal size is at most the number of entries, or the initial size
      have hmin : (if d.ht0.used < dictHtInitialSize then dictHtInitialSize else d.ht0.used)
          ≤ 2^60 := by
        simp only [Fits, dictSize] at hfit
        unfold dictHtInitialSize
        split <;> omega
      obtain ⟨hok, hent, -, -, hs⟩ := dictExpand_spec inv.tables
        (if d.ht0.used < dictHtInitialSize then dictHtInitialSize else d.ht0.used)
      refine ⟨⟨hok, hs hmin inv.sized, ?_⟩, hm.perm (Perm.of_eq hent)⟩
      rw [hent]
      exact inv.distinct
  | rehash n =>
    obtain ⟨r, hrun, hok, hs, -, hp⟩ := (dictRehash_yields inv.tables n).total inv.sized
    refine ⟨(r.1, canResize), ?_, ⟨hok, hs.sized inv.sized, inv.distinct.perm law hp⟩, hm.perm hp⟩
    simp [applyOp, hrun, applyMap]
  | empty =>
    obtain ⟨d', hrun, rfl⟩ := (dictEmpty_yields inv.tables).total inv.sized
    refine ⟨(dictCreate, canResize), by simp [applyOp, hrun, applyMap], ?_, ?_⟩
    · exact inv_create
    · exact holds_create
  | enableResize => exact ⟨(d, true), rfl, inv, hm⟩
  | disableResize => exact ⟨(d, false), rfl, inv, hm⟩

def FitsRun (ty : DictType K V) (s : Dict K V × Bool) : List (DictOp K V) → Prop
  | [] => True
  | op :: ops => Fits s.1 op ∧ ∀ r, applyOp ty s op = .ok r → FitsRun ty r.1 ops

theorem fitsRun_cons {s : Dict K V × Bool} {op : DictOp K V} {ops : List (DictOp K V)} :
    FitsRun ty s (op :: ops) ↔
      Fits s.1 op ∧ Yields False (applyOp ty s op) (fun r => FitsRun ty r.1 ops) := by
  rw [FitsRun]
  cases applyOp ty s op with
  | ok r => simp
  | error e => simp

instance {ε α : Type} {P : α → Prop} [∀ a, Decidable (P a)] (x : Except ε α) : Decidable (Yields False x P) :=
  match x with
  | .ok a => inferInstanceAs (Decidable (P a))
  | .error _ => isTrue not_false

instance (d : Dict K V) (op : DictOp K V) : Decidable (Fits d op) :=
  match op with
  | .add _ _ | .replace _ _ | .addOrFind _ => inferInstanceAs (Decidable (dictSize d ≤ 2^59))
  | .expand size => inferInstanceAs (Decidable (size ≤ 2^60))
  | .resize => inferInstanceAs (Decidable (dictSize d ≤ 2^60))
  | .find _ | .delete _ | .unlink _ | .rehash _ | .empty | .enableResize | .disableResize => isTrue trivial

instance decidableFitsRun : ∀ (s : Dict K V × Bool) (ops : List (DictOp K V)), Decidable (FitsRun ty s ops)
  | _, [] => isTrue trivial
  | _, _ :: ops =>
    have (s' : Dict K V × Bool) : Decidable (FitsRun ty s' ops) := decidableFitsRun s' ops
    decidable_of_iff _ fitsRun_cons.symm

theorem runOps_refines (law : Lawful ty) (ops : List (DictOp K V)) (inv : Inv ty d)
    (hm : Holds ty d m) (hfit : FitsRun ty (d, canResize) ops) :
    ∃ s, runOps ty (d, canResize) ops = .ok (s, (runMap ty m ops).2) ∧ Inv ty s.1 ∧
      Holds ty s.1 (runMap ty m ops).1 := by
  induction ops generalizing d m canResize with
  | nil => exact ⟨(d, canResize), rfl, inv, hm⟩
  | cons op ops ih =>
    have hstep : Refines ty m (d, canResize) op := applyOp_refines law inv hm op hfit.1
    obtain ⟨s1, hrun, inv1, hm1⟩ := hstep
    obtain ⟨s2, hrest, inv2, hm2⟩ := ih inv1 hm1 (hfit.2 _ hrun)
    refine ⟨s2, ?_, inv2, hm2⟩
    simp only [runOps, runMap, hrun, ok_bind, hrest]

theorem find_of_distinct (law : Lawful ty) {l : List (DictEntry K V)} (hd : DistinctKeys ty l) {key : K}
    {e : DictEntry K V} (he : e ∈ l) (hmatch : keyMatches ty key e) : l.find? (keyMatches ty key) = some e := by
  induction l with
  | nil => cases he
  | cons a l ih =>
    obtain ⟨hhead, hrest⟩ := pairwise_cons.mp hd
    rcases mem_cons.mp he with rfl | he
    · exact find?_cons_of_pos hmatch
    · have hno : ¬keyMatches ty key a := by
        intro ha
        rw [keyMatches_iff law] at ha hmatch
        apply hhead e he
        rw [keyMatches_iff law]
        exact law.trans _ _ _ (law.symm _ _ ha) hmatch
      rw [find?_cons_of_neg hno]
      exact ih hrest he

theorem Inv.holds (law : Lawful ty) (inv : Inv ty d) :
    Holds ty d (fun key => (entries d).find? (keyMatches ty key)) := by
  intro key e
  constructor
  · intro h
    exact ⟨mem_of_find?_eq_some h, find?_some h⟩
  · rintro ⟨he, hmatch⟩
    exact find_of_distinct law inv.distinct he hmatch

theorem runOps_inv (law : Lawful ty) {s : Dict K V × Bool} {ops : List (DictOp K V)} (inv : Inv ty s.1)
    (hfit : FitsRun ty s ops) : ∃ r, runOps ty s ops = .ok r ∧ Inv ty r.1.1 := by
  obtain ⟨s', hrun, inv', -⟩ := runOps_refines law ops inv (inv.holds law) hfit
  exact ⟨_, hrun, inv'⟩

theorem inv_of_run (law : Lawful ty) {ops : List (DictOp K V)} {r : (Dict K V × Bool) × List (DictOut K V)}
    (hrun : runOps ty (dictCreate, canResize) ops = .ok r) (hfit : FitsRun ty (dictCreate, canResize) ops) :
    Inv ty r.1.1 := by
  obtain ⟨r', hr, inv⟩ := runOps_inv law (s := (dictCreate, canResize)) inv_create hfit
  rw [hrun] at hr
  cases hr
  exact inv

/-- In every run from an empty dict whose requests stay within bounds, every state satisfies the
dict invariants, no assertion fails and no access leaves a table, and the operations return
what they return on the abstract map. -/
theorem dict_refines_map (law : Lawful ty) (canResize : Bool) (ops : List (DictOp K V))
    (hfit : FitsRun ty (dictCreate, canResize) ops) :
    ∃ s, runOps ty (dictCreate, canResize) ops = .ok (s, (runMap ty (fun _ => none) ops).2) ∧
      Inv ty s.1 ∧ Holds ty s.1 (runMap ty (fun _ => none) ops).1 :=
  runOps_refines law ops inv_create holds_create hfit

end Refinement

section Instances

theorem lawful_plain {ty : DictType ℕ ℕ} (hcompare : ty.keyCompare = none) (hdup : ty.keyDup = none) :
    Lawful ty where
  refl a := by simp [dictCompareKeys, hcompare]
  symm a b h := by
    simp only [dictCompareKeys, hcompare, beq_iff_eq] at h ⊢
    exact h.symm
  trans a b c h1 h2 := by
    simp only [dictCompareKeys, hcompare, beq_iff_eq] at h1 h2 ⊢
    exact h1.trans h2
  hash a b h := by
    simp only [dictCompareKeys, hcompare, beq_iff_eq] at h
    rw [h]
  dup a := by simp [dictCompareKeys, hcompare, applyDup, hdup]

def natType : DictType ℕ ℕ := { hashFunction := fun _ => 0 }

theorem natType_lawful : Lawful natType := lawful_plain rfl rfl

def spreadType : DictType ℕ ℕ := { hashFunction := BitVec.ofNat 64 }

theorem spreadType_lawful : Lawful spreadType := lawful_plain rfl rfl

/-- Keys that share a bucket; the fifth one starts a rehash, which goes on while keys are replaced and
deleted. -/
def growing : List (DictOp ℕ ℕ) :=
  [.add 1 7, .add 5 8, .add 2 9, .add 6 10, .add 3 11, .find 5, .replace 1 12, .delete 2, .rehash 1, .find 2,
    .rehash 9, .expand 32, .find 1]

theorem dict_refines_map_growing : FitsRun spreadType (dictCreate, true) growing ∧
    ∃ s, runOps spreadType (dictCreate, true) growing = .ok (s, [.status .ok, .status .ok, .status .ok,
      .status .ok, .status .ok, .entry (some ⟨5, some 8⟩), .added false, .status .ok, .done, .entry none,
      .done, .done, .entry (some ⟨1, some 12⟩)]) := by
  have hfit : FitsRun spreadType (dictCreate, true) growing := by decide
  obtain ⟨s, hrun, -, -⟩ := dict_refines_map spreadType_lawful true growing hfit
  exact ⟨hfit, s, hrun⟩

/-- A request for 2^61 buckets wraps to a table without any: the next addition accesses a bucket
outside of it, where the abstract map adds the key. -/
theorem dict_expand_wraps :
    runOps natType (dictCreate, true) [.expand (2^61), .add 1 7] = .error .outOfBounds ∧
      (runMap natType (fun _ => none) [.expand (2^61), .add 1 7]).2 = [.done, .status .ok] := by
  decide

end Instances

end RedisCore.HashDict
