import RedisCore.DictScan

/-! The hash table of redis-3.0.7 and its scan.  What that version has in common with redis-6.0.9 is used
from there; here a hash is an `unsigned int`, a bucket index an `int`, and the bits of the cursor outside
the smaller mask count upwards. -/

namespace RedisCore.HashDictOld

open List ReversedOrder HashDict

structure DictType (K V : Type) where
  hashFunction : K → BitVec 32
  keyDup : Option (K → K) := none
  valDup : Option (V → V) := none
  keyCompare : Option (K → K → Bool) := none

section Code

variable {K V : Type}

def DictType.masked (ty : DictType K V) : HashDict.DictType K V where
  hashFunction key := (ty.hashFunction key).setWidth 64
  keyDup := ty.keyDup
  valDup := ty.valDup
  keyCompare := ty.keyCompare

def _dictNextPower (size : ℕ) : ℕ :=
  if longMax ≤ size then longMax else nextPowerLoop size 62 dictHtInitialSize

def allocTable (realsize : ℕ) : Except Fault (DictHt K V) :=
  if longMax < realsize*sizeofPointer%2^64 then .error .aborted else .ok (newTable realsize)

def dictExpand (d : Dict K V) (size : ℕ) : Except Fault (Dict K V × Status) := do
  let realsize := _dictNextPower size
  if dictIsRehashing d ∨ d.ht0.used > size then return (d, .err)
  else if realsize = d.ht0.size then return (d, .err)
  else
    let n ← allocTable realsize
    if d.ht0.table.isNone then return ({ d with ht0 := n }, .ok)
    else return ({ d with ht1 := n, rehashidx := some 0 }, .ok)

def dictResize (canResize : Bool) (d : Dict K V) : Except Fault (Dict K V × Status) :=
  if !canResize ∨ dictIsRehashing d then .ok (d, .err)
  else
    let minimal := (BitVec.ofNat 32 d.ht0.used).toInt
    dictExpand d (if minimal < dictHtInitialSize then dictHtInitialSize else minimal.toNat)

def _dictExpandIfNeeded (canResize : Bool) (d : Dict K V) : Except Fault (Dict K V × Status) :=
  if dictIsRehashing d then .ok (d, .ok)
  else if d.ht0.size = 0 then dictExpand d dictHtInitialSize
  else if d.ht0.used ≥ d.ht0.size ∧
      (canResize ∨ d.ht0.used/d.ht0.size > dictForceResizeRatio) then
    dictExpand d (d.ht0.used*2%2^64)
  else .ok (d, .ok)

variable [DecidableEq K] (ty : DictType K V)

def searchTable (ht : DictHt K V) (key : K) : Except Fault (ℕ × Option ℕ) := do
  let idx := bucketIdx ht (ty.masked.hashFunction key)
  let chain ← tableLoad ht idx
  .ok (idx, chain.findIdx? (fun he => dictCompareKeys ty.masked key he.key))

def searchTables (d : Dict K V) (key : K) : Except Fault (ℕ × Option EntryRef) := do
  let s0 ← searchTable ty d.ht0 key
  match s0.2 with
  | some pos => .ok (s0.1, some ⟨false, s0.1, pos⟩)
  | none =>
    if !dictIsRehashing d then .ok (s0.1, none)
    else do
      let s1 ← searchTable ty d.ht1 key
      .ok (s1.1, s1.2.map fun pos => ⟨true, s1.1, pos⟩)

def _dictKeyIndex (canResize : Bool) (d : Dict K V) (key : K) : Except Fault (Dict K V × BitVec 32) := do
  let r ← _dictExpandIfNeeded canResize d
  if r.2 = .err then return (r.1, -1)
  else
    let s ← searchTables ty r.1 key
    match s.2 with
    | some _ => return (r.1, -1)
    | none => return (r.1, BitVec.ofNat 32 s.1)

def dictAddRaw (canResize : Bool) (d : Dict K V) (key : K) :
    Except Fault (Dict K V × Option EntryRef) := do
  let d ← rehashIfNeeded ty.masked d
  let r ← _dictKeyIndex ty canResize d key
  let d := r.1
  if r.2 = -1 then return (d, none)
  else if r.2.toInt < 0 then .error .outOfBounds
  else
    let index := r.2.toNat
    let second := dictIsRehashing d
    let ht := getHt d second
    let chain ← tableLoad ht index
    let ht ← tableStore ht index (⟨applyDup ty.keyDup key, none⟩ :: chain)
    return (setHt d second { ht with used := ht.used+1 }, some ⟨second, index, 0⟩)

def dictAdd (canResize : Bool) (d : Dict K V) (key : K) (val : V) :
    Except Fault (Dict K V × Status) := do
  let r ← dictAddRaw ty canResize d key
  match r.2 with
  | none => return (r.1, .err)
  | some entry =>
    let d ← dictSetVal ty.masked r.1 entry val
    return (d, .ok)

def dictGenericDelete (d : Dict K V) (key : K) : Except Fault (Dict K V × Status) :=
  if d.ht0.size = 0 then .ok (d, .err)
  else do
    let d ← rehashIfNeeded ty.masked d
    let s ← searchTables ty d key
    match s.2 with
    | some ref =>
      let r ← unlinkEntry d ref
      return (r.1, .ok)
    | none => return (d, .err)

def dictDelete (d : Dict K V) (key : K) : Except Fault (Dict K V × Status) :=
  dictGenericDelete ty d key

def countUp (m0 v : BitVec 64) : BitVec 64 := (((v ||| m0)+1) &&& ~~~m0) ||| (v &&& m0)

def scanExpansions (t1 : DictHt K V) (m0 m1 : BitVec 64) :
    ℕ → BitVec 64 → Except Fault (BitVec 64 × List (DictEntry K V))
  | 0, _ => .error .outOfFuel
  | fuel+1, v => do
    let chain ← tableLoad t1 (bucketIdx t1 v)
    let v := countUp m0 v
    if v &&& (m0 ^^^ m1) = 0 then return (v, chain)
    else
      let r ← scanExpansions t1 m0 m1 fuel v
      return (r.1, chain ++ r.2)

def smaller (d : Dict K V) : DictHt K V := if d.ht0.size > d.ht1.size then d.ht1 else d.ht0

def larger (d : Dict K V) : DictHt K V := if d.ht0.size > d.ht1.size then d.ht0 else d.ht1

def dictScan (d : Dict K V) (v : BitVec 64) : Except Fault (BitVec 64 × List (DictEntry K V)) :=
  if dictSize d = 0 then .ok (0, [])
  else if !dictIsRehashing d then do
    let chain ← tableLoad d.ht0 (bucketIdx d.ht0 v)
    return (scanNext d.ht0.sizemask v, chain)
  else do
    let t0 := smaller d
    let t1 := larger d
    let chain ← tableLoad t0 (bucketIdx t0 v)
    let r ← scanExpansions t1 t0.sizemask t1.sizemask t1.size v
    return (scanNext t0.sizemask r.1, chain ++ r.2)

inductive DictOp (K V : Type)
  | add (key : K) (val : V)
  | delete (key : K)
  | expand (size : ℕ)
  | resize
  | rehash (n : BitVec 32)
  | enableResize
  | disableResize

def applyOp (s : Dict K V × Bool) : DictOp K V → Except Fault (Dict K V × Bool)
  | .add key val => do
    let r ← dictAdd ty s.2 s.1 key val
    return (r.1, s.2)
  | .delete key => do
    let r ← dictDelete ty s.1 key
    return (r.1, s.2)
  | .expand size => do
    let r ← dictExpand s.1 size
    return (r.1, s.2)
  | .resize => do
    let r ← dictResize s.2 s.1
    return (r.1, s.2)
  | .rehash n => do
    let r ← dictRehash ty.masked s.1 n
    return (r.1, s.2)
  | .enableResize => return (s.1, true)
  | .disableResize => return (s.1, false)

def runOps (s : Dict K V × Bool) : List (DictOp K V) → Except Fault (Dict K V × Bool)
  | [] => .ok s
  | op :: ops => do
    let s ← applyOp ty s op
    runOps s ops

end Code

section Tables

variable {K V : Type} {ty : DictType K V}

variable {d : Dict K V} {s : Dict K V × Bool}

/-- At most 2^31 buckets: every table can be allocated and every bucket index is an `int`. -/
structure Safe (ty : DictType K V) (d : Dict K V) : Prop where
  tables : TablesOk ty.masked d
  small : d.ht0.size ≤ 2^31 ∧ d.ht1.size ≤ 2^31

theorem Safe.sized (h : Safe ty d) : Sized d := by
  have hs := h.small
  exact ⟨by omega, by omega⟩

theorem Safe.keeps (h : Safe ty d) {d' : Dict K V} (hok : TablesOk ty.masked d') (hk : Keeps d d') :
    Safe ty d' := ⟨hok, hk.sizes _ h.small⟩

theorem nextPower_small {size : ℕ} (h : size ≤ 2^31) :
    _dictNextPower size = HashDict._dictNextPower size ∧ HashDict._dictNextPower size ≤ 2^31 := by
  have hlong : ¬longMax ≤ size := by
    unfold longMax
    omega
  obtain ⟨b, hb, -, -, hleast⟩ := nextPowerLoop_spec size 62 2
  rw [_dictNextPower, HashDict._dictNextPower, if_neg hlong, if_neg hlong]
  refine ⟨rfl, ?_⟩
  rw [show dictHtInitialSize = 2^2 from rfl, hb]
  exact Nat.pow_le_pow_right (by decide) (hleast 31 (by decide) h)

theorem dictExpand_eq {size : ℕ} (h : size ≤ 2^31) : dictExpand d size = .ok (HashDict.dictExpand d size) := by
  obtain ⟨hpower, hle⟩ := nextPower_small h
  have halloc : (allocTable (HashDict._dictNextPower size) : Except Fault (DictHt K V)) =
      .ok (newTable (HashDict._dictNextPower size)) := by
    apply if_neg
    unfold longMax sizeofPointer
    omega
  unfold dictExpand HashDict.dictExpand
  dsimp only
  rw [hpower, halloc]
  split_ifs <;> rfl

theorem Safe.expand (h : Safe ty d) {size : ℕ} (hsize : size ≤ 2^31) :
    Safe ty (HashDict.dictExpand d size).1 := by
  refine ⟨(dictExpand_spec h.tables size).1, ?_⟩
  have hle := (nextPower_small hsize).2
  unfold HashDict.dictExpand
  dsimp only
  split_ifs
  · exact h.small
  · exact h.small
  · exact ⟨hle, h.small.2⟩
  · exact ⟨h.small.1, hle⟩

theorem dictExpand_yields (h : Safe ty d) {size : ℕ} (hsize : size ≤ 2^31) :
    Yields True (dictExpand d size) (fun r => Safe ty r.1) := by
  rw [dictExpand_eq hsize]
  exact h.expand hsize

theorem dictResize_yields (h : Safe ty d) (canResize : Bool) :
    Yields True (dictResize canResize d) (fun r => Safe ty r.1) := by
  unfold dictResize
  split_ifs with hno
  · exact h
  · apply dictExpand_yields h
    have hlt := (BitVec.ofNat 32 d.ht0.used).toInt_lt
    unfold dictHtInitialSize
    split_ifs <;> omega

theorem dictExpandIfNeeded_yields (h : Safe ty d) (hused : d.ht0.used ≤ 2^30) (canResize : Bool) :
    Yields True (_dictExpandIfNeeded canResize d) (fun r => Safe ty r.1 ∧ r.1.ht0.table.isSome) := by
  have hdouble : d.ht0.used*2%2^64 ≤ 2^31 := by omega
  have heq : _dictExpandIfNeeded canResize d = .ok (HashDict._dictExpandIfNeeded canResize d) := by
    unfold _dictExpandIfNeeded HashDict._dictExpandIfNeeded
    rw [dictExpand_eq hdouble, dictExpand_eq (by decide)]
    split_ifs <;> rfl
  obtain ⟨hok, -, -, hsome, -⟩ := dictExpandIfNeeded_spec h.tables canResize
  rw [heq]
  refine ⟨?_, hsome⟩
  unfold HashDict._dictExpandIfNeeded
  split_ifs
  · exact h
  · exact h.expand (by decide)
  · exact h.expand hdouble
  · exact h

variable [DecidableEq K]

theorem searchTable_eq (law : Lawful ty.masked) (ht : DictHt K V) (key : K) :
    searchTable ty ht key = HashDict.searchTable ty.masked ht key := by
  have hmatch : (fun he : DictEntry K V => dictCompareKeys ty.masked key he.key) =
      keyMatches ty.masked key := by
    funext he
    have h : keyMatches ty.masked key he ↔ dictCompareKeys ty.masked key he.key := keyMatches_iff law
    cases hc : dictCompareKeys ty.masked key he.key with
    | true => exact (h.mpr hc).symm
    | false =>
      cases hm : keyMatches ty.masked key he with
      | false => rfl
      | true =>
        rw [h.mp hm] at hc
        cases hc
  rw [searchTable, HashDict.searchTable, hmatch]

theorem searchTables_eq (law : Lawful ty.masked) (d : Dict K V) (key : K) :
    searchTables ty d key = HashDict.searchTables ty.masked d key := by
  unfold searchTables HashDict.searchTables
  simp only [searchTable_eq law]
  <;> rfl

theorem searchTables_yields (law : Lawful ty.masked) (h : Safe ty d) (hsome : d.ht0.table.isSome) (key : K) :
    Yields True (searchTables ty d key) (fun s =>
      (∃ ref e, s.2 = some ref ∧ EntryAt d ref e) ∨
      (s.2 = none ∧ s.1 = bucketIdx (getHt d (dictIsRehashing d)) (ty.masked.hashFunction key) ∧
        s.1 < (buckets (getHt d (dictIsRehashing d))).length)) := by
  rw [searchTables_eq law]
  apply (HashDict.searchTables_yields law h.tables hsome (fun _ => h.sized) key).mono
  rintro s (⟨ref, e, href, hat, -⟩ | ⟨hnone, -, hidx, hlt⟩)
  · exact Or.inl ⟨ref, e, href, hat⟩
  · exact Or.inr ⟨hnone, hidx, hlt⟩

omit [DecidableEq K] in
theorem Safe.buckets_le (h : Safe ty d) (second : Bool) : (buckets (getHt d second)).length ≤ 2^31 := by
  have hs := h.small
  rw [(HtOk.placed_getHt h.tables second).alloc, allocatedBuckets, sizeofPointer]
  cases second
  · have hsize : (getHt d false).size = d.ht0.size := rfl
    omega
  · have hsize : (getHt d true).size = d.ht1.size := rfl
    omega

theorem store_tablesOk (law : Lawful ty.masked) (ok : TablesOk ty.masked d) {key : K}
    {index : ℕ} {chain : List (DictEntry K V)} {ht : DictHt K V}
    (hidx : index = bucketIdx (getHt d (dictIsRehashing d)) (ty.masked.hashFunction key))
    (hload : tableLoad (getHt d (dictIsRehashing d)) index = .ok chain)
    (hstore : tableStore (getHt d (dictIsRehashing d)) index (⟨applyDup ty.keyDup key, none⟩ :: chain) =
      .ok ht) :
    TablesOk ty.masked (setHt d (dictIsRehashing d) { ht with used := ht.used+1 }) ∧
      EntryAt (setHt d (dictIsRehashing d) { ht with used := ht.used+1 }) ⟨dictIsRehashing d, index, 0⟩
        ⟨applyDup ty.keyDup key, none⟩ := by
  have hchain := tableLoad_eq_ok.1 hload
  obtain ⟨hlt, -⟩ := List.getElem?_eq_some_iff.mp hchain
  rw [tableStore_eq hlt] at hstore
  cases hstore
  have hok := HtOk.placed_getHt ok (dictIsRehashing d)
  constructor
  · apply ok.setBucket (n := (getHt d (dictIsRehashing d)).used+1) hchain
    · intro e he
      rcases mem_cons.mp he with rfl | he
      · have hdup := law.hash key _ (law.dup key)
        rw [hidx, hdup]
        rfl
      · exact hok.placed _ _ hchain e he
    · rw [length_cons]
      omega
    · intro h1 h2
      rw [h1] at h2
      cases h2
  · refine ⟨⟨applyDup ty.keyDup key, none⟩ :: chain, ?_, rfl⟩
    have hget := getHt_setBucket d (dictIsRehashing d) index
      (⟨applyDup ty.keyDup key, none⟩ :: chain) ((getHt d (dictIsRehashing d)).used+1)
    rw [setBucket] at hget
    rw [withBucket_used, hget, buckets_used, buckets_withBucket]
    exact getElem?_set_self hlt

theorem dictKeyIndex_yields (law : Lawful ty.masked) (h : Safe ty d) (hused : d.ht0.used ≤ 2^30)
    (canResize : Bool) (key : K) : Yields True (_dictKeyIndex ty canResize d key) (fun r =>
      Safe ty r.1 ∧ (r.2 = -1 ∨
        (r.2.toNat = bucketIdx (getHt r.1 (dictIsRehashing r.1)) (ty.masked.hashFunction key) ∧
          r.2.toNat < (buckets (getHt r.1 (dictIsRehashing r.1))).length))) := by
  apply Yields.bind (dictExpandIfNeeded_yields h hused canResize)
  rintro r ⟨hr, hsome⟩
  by_cases herr : r.2 = .err
  · rw [if_pos herr]
    exact ⟨hr, Or.inl rfl⟩
  rw [if_neg herr]
  apply Yields.bind (searchTables_yields law hr hsome key)
  rintro s (⟨ref, e, href, -⟩ | ⟨hnone, hidx, hlt⟩)
  · rw [href]
    exact ⟨hr, Or.inl rfl⟩
  · rw [hnone]
    have hle := hr.buckets_le (dictIsRehashing r.1)
    have hnat : (BitVec.ofNat 32 s.1).toNat = s.1 := by
      rw [BitVec.toNat_ofNat, Nat.mod_eq_of_lt (by omega)]
    exact ⟨hr, Or.inr ⟨hnat.trans hidx, hnat.trans_lt hlt⟩⟩

theorem dictAddRaw_yields (law : Lawful ty.masked) (h : Safe ty d) (hroom : dictSize d ≤ 2^30)
    (canResize : Bool) (key : K) : Yields True (dictAddRaw ty canResize d key) (fun r =>
      Safe ty r.1 ∧ ∀ ref, r.2 = some ref → ∃ e, EntryAt r.1 ref e) := by
  apply Yields.bind ((rehashIfNeeded_yields h.tables).strengthen (fun _ => h.sized))
  rintro d1 ⟨ok1, hk1, -, hp1⟩
  have hused : d1.ht0.used ≤ 2^30 := by
    rw [dictSize_eq h.tables, ← hp1.length_eq, ← dictSize_eq ok1, dictSize] at hroom
    omega
  apply Yields.bind (dictKeyIndex_yields law (h.keeps ok1 hk1) hused canResize key)
  rintro r ⟨h2, hidx⟩
  dsimp only
  by_cases hminus : r.2 = -1
  · rw [if_pos hminus]
    refine ⟨h2, ?_⟩
    intro ref href
    cases href
  rw [if_neg hminus]
  obtain ⟨hplace, hlt⟩ := hidx.resolve_left hminus
  have hnonneg : ¬r.2.toInt < 0 := by
    have hle := h2.buckets_le (dictIsRehashing r.1)
    rw [BitVec.toInt_eq_toNat_cond]
    split_ifs <;> omega
  have hload := tableLoad_eq_ok.2 (getElem?_eq_getElem hlt)
  rw [if_neg hnonneg, hload, ok_bind, tableStore_eq hlt, ok_bind]
  obtain ⟨hok, hat⟩ := store_tablesOk law h2.tables hplace hload (tableStore_eq hlt)
  refine ⟨h2.keeps hok keeps_setBucket, ?_⟩
  intro ref href
  cases href
  exact ⟨_, hat⟩

theorem dictAdd_yields (law : Lawful ty.masked) (h : Safe ty d) (hroom : dictSize d ≤ 2^30) (canResize : Bool)
    (key : K) (val : V) : Yields True (dictAdd ty canResize d key val) (fun r => Safe ty r.1) := by
  apply Yields.bind (dictAddRaw_yields law h hroom canResize key)
  rintro r ⟨h1, hat⟩
  cases href : r.2 with
  | none => exact h1
  | some ref =>
    obtain ⟨e, he⟩ := hat ref href
    obtain ⟨d2, rest, hset, ok2, hk2, -⟩ := dictSetVal_spec h1.tables he val
    dsimp only
    rw [hset]
    exact h1.keeps ok2 hk2

theorem dictDelete_yields (law : Lawful ty.masked) (h : Safe ty d) (key : K) :
    Yields True (dictDelete ty d key) (fun r => Safe ty r.1) := by
  unfold dictDelete dictGenericDelete
  by_cases hzero : d.ht0.size = 0
  · rw [if_pos hzero]
    exact h
  rw [if_neg hzero]
  have hsome : d.ht0.table.isSome := by
    rcases h.tables.ok0.shape with hreset | ⟨hsome, -⟩
    · rw [hreset] at hzero
      exact absurd rfl hzero
    · exact hsome
  apply Yields.bind ((rehashIfNeeded_yields h.tables).strengthen (fun _ => h.sized))
  rintro d1 ⟨ok1, hk1, -⟩
  have h1 := h.keeps ok1 hk1
  apply Yields.bind (searchTables_yields law h1 (hk1.table hsome) key)
  rintro found (⟨ref, e, href, hat⟩ | ⟨hnone, -⟩)
  · obtain ⟨d2, hrun, ok2, hk2, -⟩ := unlinkEntry_spec ok1 hat
    rw [href]
    dsimp only
    rw [hrun]
    exact h1.keeps ok2 hk2
  · rw [hnone]
    exact h1

/-- Keys are added to at most 2^30 entries, and at most 2^31 buckets are asked for. -/
def Fits (d : Dict K V) : DictOp K V → Prop
  | .add _ _ => dictSize d ≤ 2^30
  | .expand size => size ≤ 2^31
  | _ => True

theorem applyOp_yields (law : Lawful ty.masked) (h : Safe ty s.1) {op : DictOp K V} (hfit : Fits s.1 op) :
    Yields True (applyOp ty s op) (fun s' => Safe ty s'.1) := by
  cases op with
  | add key val => exact (dictAdd_yields law h hfit s.2 key val).bind (fun r hr => hr)
  | delete key => exact (dictDelete_yields law h key).bind (fun r hr => hr)
  | expand size => exact (dictExpand_yields h hfit).bind (fun r hr => hr)
  | resize => exact (dictResize_yields h s.2).bind (fun r hr => hr)
  | rehash n =>
    apply Yields.bind ((dictRehash_yields h.tables n).strengthen (fun _ => h.sized))
    rintro r ⟨ok1, hk1, -⟩
    exact h.keeps ok1 hk1
  | enableResize => exact h
  | disableResize => exact h

def FitsRun (ty : DictType K V) (s : Dict K V × Bool) : List (DictOp K V) → Prop
  | [] => True
  | op :: ops => Fits s.1 op ∧ Yields False (applyOp ty s op) (fun s' => FitsRun ty s' ops)

instance (d : Dict K V) (op : DictOp K V) : Decidable (Fits d op) :=
  match op with
  | .add _ _ => inferInstanceAs (Decidable (dictSize d ≤ 2^30))
  | .expand size => inferInstanceAs (Decidable (size ≤ 2^31))
  | .delete _ | .resize | .rehash _ | .enableResize | .disableResize => isTrue trivial

instance decidableFitsRun : ∀ (s : Dict K V × Bool) (ops : List (DictOp K V)), Decidable (FitsRun ty s ops)
  | _, [] => isTrue trivial
  | s, op :: ops =>
    have := fun s' => decidableFitsRun s' ops
    inferInstanceAs (Decidable (Fits s.1 op ∧ Yields False (applyOp ty s op) _))

theorem runOps_safe (law : Lawful ty.masked) {ops : List (DictOp K V)} (h : Safe ty s.1)
    (hfit : FitsRun ty s ops) : ∃ s', runOps ty s ops = .ok s' ∧ Safe ty s'.1 := by
  induction ops generalizing s with
  | nil => exact ⟨s, rfl, h⟩
  | cons op ops ih =>
    obtain ⟨s1, hrun, h1⟩ := (applyOp_yields law h hfit.1).total trivial
    have hrest := hfit.2
    rw [hrun] at hrest
    obtain ⟨s2, hrun2, h2⟩ := ih h1 hrest
    exact ⟨s2, by rw [runOps, hrun, ok_bind, hrun2], h2⟩

end Tables

section Call

variable {K V : Type} {ty : HashDict.DictType K V}

theorem mem_chain {ht : DictHt K V} (ok : HtOk ty ht) {v : BitVec 64} {chain : List (DictEntry K V)}
    (hc : (buckets ht)[bucketIdx ht v]? = some chain) {e : DictEntry K V} (he : e ∈ htEntries ht)
    (hidx : bucketIdx ht (ty.hashFunction e.key) = bucketIdx ht v) : e ∈ chain := by
  obtain ⟨i, c, hi, hec⟩ := mem_htEntries.1 he
  have hplace := ok.placed i c hi e hec
  rw [← hplace, hidx, hc] at hi
  cases hi
  exact hec

theorem toNat_add_unit_mod (v : BitVec 64) {a b : ℕ} (hb : b ≤ 64) :
    (v+BitVec.ofNat 64 (2^a)).toNat%2^b = (v.toNat%2^b+2^a)%2^b := by
  have hdvd : 2^b ∣ 2^64 := pow_dvd_pow 2 hb
  rw [BitVec.toNat_add, BitVec.toNat_ofNat, Nat.add_mod_mod, Nat.mod_mod_of_dvd _ hdvd, Nat.mod_add_mod]

theorem scanExpansions_yields {S : Prop} {t0 t1 : DictHt K V} (ok : HtOk ty t1)
    (hsome : t1.table.isSome) (hs : S → t1.size ≤ 2^60) {a b : ℕ} (ha : HasBits t0 a)
    (hb : HasBits t1 b) (hab : a ≤ b) (fuel : ℕ) (v : BitVec 64)
    (hfuel : 2^b ≤ v.toNat%2^b+fuel*2^a) :
    Yields S (scanExpansions t1 t0.sizemask t1.sizemask fuel v) (fun r =>
      r.1.toNat%2^a = v.toNat%2^a ∧
      ∀ e ∈ htEntries t1, (ty.hashFunction e.key).toNat%2^a = v.toNat%2^a →
        v.toNat%2^b ≤ (ty.hashFunction e.key).toNat%2^b → e ∈ r.2) := by
  have hposB : 0 < 2^b := Nat.two_pow_pos _
  have hdvd : 2^a ∣ 2^b := pow_dvd_pow 2 hab
  induction fuel generalizing v with
  | zero =>
    have hlt := Nat.mod_lt v.toNat hposB
    omega
  | succ fuel ih =>
    rw [scanExpansions]
    apply Yields.bind (tableLoad_yields (fun h => bucketIdx_lt_length ok hsome (hs h) v))
    intro chain hc
    have hhere (e : DictEntry K V) (he : e ∈ htEntries t1)
        (heq : (ty.hashFunction e.key).toNat%2^b = v.toNat%2^b) : e ∈ chain := by
      apply mem_chain ok hc he
      rw [bucketIdx_eq_mod hb, bucketIdx_eq_mod hb, heq]
    -- an entry behind this bucket is a unit behind it
    have hbehind (e : DictEntry K V) (hlow : (ty.hashFunction e.key).toNat%2^a = v.toNat%2^a)
        (hlt : v.toNat%2^b < (ty.hashFunction e.key).toNat%2^b) :
        v.toNat%2^b+2^a ≤ (ty.hashFunction e.key).toNat%2^b := by
      apply Nat.ModEq.add_le_of_lt _ hlt
      rw [Nat.ModEq, Nat.mod_mod_of_dvd _ hdvd, Nat.mod_mod_of_dvd _ hdvd, hlow]
    have hnext := toNat_add_unit_mod v (a := a) hb.le
    have hnextLow : (v+BitVec.ofNat 64 (2^a)).toNat%2^a = v.toNat%2^a := by
      rw [toNat_add_unit_mod v ha.le, Nat.add_mod_right, Nat.mod_mod]
    dsimp only
    have hcount : countUp t0.sizemask v = v+BitVec.ofNat 64 (2^a) := by
      rw [ha.mask]
      exact count_outside v ha.le
    rw [hcount, ha.mask, hb.mask]
    by_cases hstop : (v+BitVec.ofNat 64 (2^a)) &&& (lowMask 64 a ^^^ lowMask 64 b) = 0
    · rw [if_pos hstop]
      refine ⟨hnextLow, ?_⟩
      intro e he hlow hle
      have hsmall := (and_xor_masks_eq_zero_iff _ hab hb.le).mp hstop
      rcases Nat.lt_or_eq_of_le hle with hlt | heq
      · -- the sum has wrapped, so nothing lies behind
        have hunit := hbehind e hlow hlt
        have hmax := Nat.mod_lt (ty.hashFunction e.key).toNat hposB
        rw [hnext, Nat.mod_eq_of_lt (by omega)] at hsmall
        omega
      · exact hhere e he heq.symm
    · rw [if_neg hstop]
      have hbig : ¬(v+BitVec.ofNat 64 (2^a)).toNat%2^b < 2^a := by
        intro hsmall
        exact hstop ((and_xor_masks_eq_zero_iff _ hab hb.le).mpr hsmall)
      have hmod : (v+BitVec.ofNat 64 (2^a)).toNat%2^b = v.toNat%2^b+2^a := by
        have hlt := Nat.mod_lt v.toNat hposB
        rcases Nat.lt_or_ge (v.toNat%2^b+2^a) (2^b) with h | h
        · rw [hnext, Nat.mod_eq_of_lt h]
        · -- a wrapped sum is below the unit
          have hpow : 2^a ≤ 2^b := Nat.pow_le_pow_right (by decide) hab
          rw [hnext, Nat.mod_eq_sub_mod h, Nat.mod_eq_of_lt (by omega)] at hbig
          omega
      have hrec := ih (v+BitVec.ofNat 64 (2^a)) (by
        rw [hmod]
        rw [Nat.add_one_mul] at hfuel
        omega)
      rw [ha.mask, hb.mask] at hrec
      apply Yields.bind hrec
      rintro r ⟨hrlow, hemit⟩
      refine ⟨hrlow.trans hnextLow, ?_⟩
      intro e he hlow hle
      rw [mem_append]
      rcases Nat.lt_or_eq_of_le hle with hlt | heq
      · right
        apply hemit e he (hlow.trans hnextLow.symm)
        rw [hmod]
        exact hbehind e hlow hlt
      · exact Or.inl (hhere e he heq.symm)

def Ordered (d : Dict K V) (v : BitVec 64) : Prop :=
  dictIsRehashing d → ∃ j, (v ||| (smaller d).sizemask) &&& (larger d).sizemask = lowMask 64 j

theorem dictScan_yields {d : Dict K V} (ok : TablesOk ty d) (v : BitVec 64) (hord : Ordered d v) :
    Yields (Sized d) (dictScan d v) (fun r => ∃ last, (IsEnd r.1 last ∨ entries d = []) ∧
      ∀ e ∈ entries d, position v ≤ position (ty.hashFunction e.key) →
        position (ty.hashFunction e.key) < last → e ∈ r.2) := by
  unfold dictScan
  by_cases hzero : dictSize d = 0
  · rw [if_pos hzero]
    rw [dictSize_eq ok, length_eq_zero_iff] at hzero
    refine ⟨0, Or.inr hzero, ?_⟩
    intro e _ _ hlt
    omega
  rw [if_neg hzero]
  rw [dictSize_eq ok, length_eq_zero_iff] at hzero
  have hsome := table_isSome_of_mem ok hzero
  by_cases hre : dictIsRehashing d = true
  · rw [if_neg (by simp [hre])]
    dsimp only
    obtain ⟨idx, hidx⟩ := Option.isSome_iff_exists.mp hre
    obtain ⟨t0, t1, h0, h1, ok0, ok1, some0, some1, hle, hsz, hmem⟩ := smaller_larger ok hidx
    have h0 : smaller d = t0 := h0
    have h1 : larger d = t1 := h1
    subst h0 h1
    obtain ⟨a, ha⟩ := ok0.hasBits some0
    obtain ⟨b, hb⟩ := ok1.hasBits some1
    have hab : a ≤ b := by
      rw [ha.size, hb.size] at hle
      exact (Nat.pow_le_pow_iff_right (by decide)).mp hle
    have hones : OnesFromBelow v a b := by
      have h := hord hre
      rw [ha.mask, hb.mask] at h
      exact h
    apply Yields.bind (tableLoad_yields (fun h => bucketIdx_lt_length ok0 some0 (hsz h).1 v))
    intro chain hc
    have hfuel : 2^b ≤ v.toNat%2^b+(larger d).size*2^a := by
      have hpos : 1 ≤ 2^a := Nat.one_le_two_pow
      rw [hb.size]
      exact le_trans (Nat.le_mul_of_pos_right _ hpos) (Nat.le_add_left _ _)
    apply Yields.bind (scanExpansions_yields ok1 some1 (fun h => (hsz h).2) ha hb hab (larger d).size v
      hfuel)
    rintro r ⟨hlow, hemit⟩
    have hblock : blockEnd (2^(64-a)) (position r.1) = blockEnd (2^(64-a)) (position v) := by
      rw [blockEnd, blockEnd, (block_eq_iff r.1 v ha.le).mpr hlow]
    have hend := isEnd_nextBlock ha.le r.1
    rw [hblock] at hend
    refine ⟨blockEnd (2^(64-a)) (position v), Or.inl ?_, ?_⟩
    · dsimp only
      rw [ha.mask, scanNext_eq]
      exact hend
    · intro e he hfirst hlast
      rw [mem_append]
      rcases (hmem e).mp he with h | h
      · exact Or.inl (chain_emits ok0 ha hc e h hfirst hlast)
      · right
        -- between the cursors the low bits are those of the cursor
        have hsame : (ty.hashFunction e.key).toNat%2^a = v.toNat%2^a := by
          apply (block_eq_iff _ v ha.le).mp
          have hge := Nat.div_le_div_right (c := 2^(64-a)) hfirst
          have hlt := (Nat.div_lt_iff_lt_mul (Nat.two_pow_pos (64-a))).mpr hlast
          omega
        exact hemit e h hsame (mod_le_of_onesFromBelow hb.le hones hsame hfirst)
  · have hidle : d.rehashidx = none := by simpa [dictIsRehashing] using hre
    rw [if_pos (by simp [hre])]
    obtain ⟨b, hb⟩ := ok.ok0.hasBits hsome
    apply Yields.bind (tableLoad_yields (fun h => bucketIdx_lt_length ok.ok0 hsome h.1 v))
    intro chain hc
    refine ⟨blockEnd (2^(64-b)) (position v), Or.inl ?_, ?_⟩
    · dsimp only
      rw [hb.mask, scanNext_eq]
      exact isEnd_nextBlock hb.le v
    · intro e he
      rw [entries, ok.idle hidle, htEntries_reset, append_nil] at he
      exact chain_emits ok.ok0 hb hc e he

end Call

section Coverage

variable {K V : Type} [DecidableEq K] {ty : DictType K V}

omit [DecidableEq K] in
theorem ordered_iff (d : Dict K V) (v : BitVec 64) : Ordered d v ↔ (dictIsRehashing d →
    ∃ j : Fin 65, (v ||| (smaller d).sizemask) &&& (larger d).sizemask = lowMask 64 j) := by
  constructor
  · intro h hre
    obtain ⟨j, hj⟩ := h hre
    rcases Nat.lt_or_ge j 65 with hlt | hge
    · exact ⟨⟨j, hlt⟩, hj⟩
    · refine ⟨64, hj.trans ?_⟩
      apply BitVec.eq_of_getLsbD_eq
      intro i hi
      rw [getLsbD_lowMask hi, getLsbD_lowMask hi, decide_eq_true (by omega), eq_comm]
      exact decide_eq_true hi
  · intro h hre
    obtain ⟨j, hj⟩ := h hre
    exact ⟨j, hj⟩

instance (d : Dict K V) (v : BitVec 64) : Decidable (Ordered d v) := decidable_of_iff _ (ordered_iff d v).symm

variable (ty) in
def scanDict (s : Dict K V × Bool) (rounds : List (List (DictOp K V))) :
    Except Fault (BitVec 64 × List (DictEntry K V) × List ((Dict K V × Bool) × BitVec 64)) :=
  runScan (fun s v => dictScan s.1 v) (runOps ty) s 0 rounds

variable (ty) in
/-- At every call during a rehash the cursor is ordered, and every operation between the calls stays within
bounds. -/
def OrderedScan (s : Dict K V × Bool) (rounds : List (List (DictOp K V))) : Prop :=
  ScanFits (fun s v => dictScan s.1 v) (runOps ty) (fun s v => Ordered s.1 v) (FitsRun ty) s 0 rounds

instance (s : Dict K V × Bool) (rounds : List (List (DictOp K V))) : Decidable (OrderedScan ty s rounds) :=
  decidableScanFits _ _ _ _ s 0 rounds

/-- Such a scan from cursor 0 does not fault, and if it ends with cursor 0 it has passed every key to the
callback that the dict holds at each call. -/
theorem dictScan_covers_ordered (law : Lawful ty.masked) {s : Dict K V × Bool} (hs : Safe ty s.1)
    (rounds : List (List (DictOp K V))) (hord : OrderedScan ty s rounds) : ∃ next es calls,
      scanDict ty s rounds = .ok (next, es, calls) ∧ (next = 0 → ∀ key,
        (∀ c ∈ calls, ∃ e ∈ entries c.1.1, e.key = key) → ∃ e ∈ es, e.key = key) := by
  have hcall (s : Dict K V × Bool) (v : BitVec 64) (hs : Safe ty s.1) (hord : Ordered s.1 v) :
      ∃ r last, dictScan s.1 v = .ok r ∧ (IsEnd r.1 last ∨ entries s.1 = []) ∧
        ∀ e ∈ entries s.1, position v ≤ position (ty.masked.hashFunction e.key) →
          position (ty.masked.hashFunction e.key) < last → e ∈ r.2 := by
    obtain ⟨r, hr, last, hend, hemit⟩ := (dictScan_yields hs.tables v hord).total hs.sized
    exact ⟨r, last, hr, hend, hemit⟩
  obtain ⟨next, es, calls, hcalls, hcovers⟩ := runScan_covers hcall (fun s ops => runOps_safe law) rounds hs hord
  refine ⟨next, es, calls, hcalls, fun hdone key hkey => hcovers hdone key hkey ?_⟩
  rw [position_eq_zero.2 rfl]
  exact Nat.zero_le _

end Coverage

section Instances

def numberType : DictType ℕ ℕ := { hashFunction := fun n => BitVec.ofNat 32 n }

theorem numberType_lawful : Lawful numberType.masked := lawful_plain rfl rfl

def sixteen : Dict ℕ ℕ :=
  { ht0 := ⟨some ([[], [], [], [], [⟨4, some 7⟩]] ++ List.replicate 11 []), 16, 15, 1⟩
    ht1 := _dictReset
    rehashidx := none
    iterators := 0 }

def sixteenShrinking : Dict ℕ ℕ := { sixteen with ht1 := newTable 4, rehashidx := some 0 }

theorem sixteen_run : runOps numberType (dictCreate, true) [.expand 16, .add 4 7] = .ok (sixteen, true) := by
  decide

theorem sixteen_safe : Safe numberType sixteen := by
  obtain ⟨r, hr, h⟩ := runOps_safe numberType_lawful (s := (dictCreate, true))
    ⟨inv_create.tables, by decide⟩ (by decide : FitsRun numberType (dictCreate, true) [.expand 16, .add 4 7])
  rw [sixteen_run] at hr
  cases hr
  exact h

/-- A key that is there at every call and is never passed to the callback: the second call continues with
cursor 8 on a table that shrinks from sixteen to four buckets, and leaves out bucket 4. -/
theorem dictScan_misses_key : ∃ calls,
    runOps numberType (dictCreate, true) [.expand 16, .add 4 7] = .ok (sixteen, true) ∧
    scanDict numberType (sixteen, true) [[.resize], [], [], []] = .ok (0, [], calls) ∧
    ∀ c ∈ calls, ∃ e ∈ entries c.1.1, e.key = 4 := by
  refine ⟨[((sixteen, true), 0), ((sixteenShrinking, true), 8), ((sixteenShrinking, true), 2),
    ((sixteenShrinking, true), 1), ((sixteenShrinking, true), 3)], sixteen_run, rfl, ?_⟩
  intro c hc
  refine ⟨⟨4, some 7⟩, ?_, rfl⟩
  simp only [mem_cons, not_mem_nil, or_false] at hc
  rcases hc with rfl | rfl | rfl | rfl | rfl <;> decide

theorem fourKeys_safe : Safe numberType fourKeys := by
  obtain ⟨r, hr, h⟩ := runOps_safe numberType_lawful (s := (dictCreate, true)) ⟨inv_create.tables, by decide⟩
    (by decide : FitsRun numberType (dictCreate, true) [.add 1 1, .add 5 2, .add 3 3, .add 9 4])
  have hrun : runOps numberType (dictCreate, true) [.add 1 1, .add 5 2, .add 3 3, .add 9 4] =
      .ok (fourKeys, true) := by decide
  rw [hrun] at hr
  cases hr
  exact h

/-- The table grows after the first call and is rehashed during the scan. -/
def growingScan : List (List (DictOp ℕ ℕ)) :=
  [[.expand 16, .rehash 1], [.add 6 5, .delete 9], [.rehash 9, .delete 6], [.add 2 1]] ++ List.replicate 8 []

theorem dictScan_covers_ordered_growing : ∃ es calls,
    scanDict numberType (fourKeys, true) growingScan = .ok (0, es, calls) ∧
    (4, 16) ∈ calls.map (fun c => (c.1.1.ht0.size, c.1.1.ht1.size)) ∧
    ∀ key ∈ [1, 3, 5], ∃ e ∈ es, e.key = key := by
  obtain ⟨next, es, calls, hcalls, hcovers⟩ := dictScan_covers_ordered numberType_lawful
    (s := (fourKeys, true)) fourKeys_safe growingScan (by decide +kernel)
  have htrace : (scanDict numberType (fourKeys, true) growingScan).toOption.map (scanTrace [1, 3, 5]) =
      some (0, [(4, 0), (4, 16)] ++ List.replicate 8 (16, 0), true) := by decide +kernel
  rw [hcalls, Except.toOption, Option.map_some, Option.some.injEq, Prod.ext_iff, Prod.ext_iff] at htrace
  obtain ⟨rfl, hsizes, hheld⟩ := htrace
  refine ⟨es, calls, hcalls, ?_, fun key hkey => hcovers rfl key (scanTrace_held hheld hkey)⟩
  rw [show calls.map _ = _ from hsizes]
  decide

end Instances

end RedisCore.HashDictOld
