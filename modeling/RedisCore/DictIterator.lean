import RedisCore.DictRefinement
import RedisCore.ChainWalk

/-! The safe iterator of `dict.c`.  No two entries of a dict have equal keys, so the pointers of
an iterator to entries are the keys of these entries; following one whose entry is gone is a
`Fault`. -/

namespace RedisCore.HashDict

open List ChainWalk

section Model

variable {K V : Type} [DecidableEq K]

structure DictIterator (K : Type) where
  index : ℤ
  table : Bool
  entry : Option K
  nextEntry : Option K
deriving DecidableEq, Repr

def dictGetSafeIterator : DictIterator K :=
  { index := -1, table := false, entry := none, nextEntry := none }

def fromEntry (key : K) (chain : List (DictEntry K V)) :
    Option (DictEntry K V × List (DictEntry K V)) :=
  match chain.dropWhile (fun he => he.key != key) with
  | [] => none
  | he :: next => some (he, next)

def derefEntry (d : Dict K V) (key : K) : Except Fault (DictEntry K V × List (DictEntry K V)) :=
  match (buckets d.ht0 ++ buckets d.ht1).findSome? (fromEntry key) with
  | some r => .ok r
  | none => .error .outOfBounds

def headPointer (chain : List (DictEntry K V)) : Option K := chain.head?.map DictEntry.key

abbrev NextResult (K V : Type) := Dict K V × DictIterator K × Option (DictEntry K V)

def returnEntry (d : Dict K V) (iter : DictIterator K) (key : K) :
    Except Fault (NextResult K V) := do
  let he ← derefEntry d key
  .ok (d, { iter with entry := some key, nextEntry := headPointer he.2 }, some he.1)

def neverAdvanced (iter : DictIterator K) : Bool := iter.index == -1 && !iter.table

def castLong (size : ℕ) : ℤ := (BitVec.ofNat 64 size).toInt

def loadHead (again : DictIterator K → Except Fault (NextResult K V)) (d : Dict K V)
    (iter : DictIterator K) : Except Fault (NextResult K V) := do
  let chain ← tableLoad (getHt d iter.table) iter.index.toNat
  match headPointer chain with
  | some key => returnEntry d iter key
  | none => again { iter with entry := none }

def nextBucket (again : DictIterator K → Except Fault (NextResult K V)) (d : Dict K V)
    (iter : DictIterator K) : Except Fault (NextResult K V) :=
  if iter.index ≥ castLong (getHt d iter.table).size then
    if dictIsRehashing d && !iter.table then
      loadHead again d { iter with table := true, index := 0 }
    else .ok (d, iter, none)
  else loadHead again d iter

def dictNextLoop : ℕ → Dict K V → DictIterator K → Except Fault (NextResult K V)
  | 0, _, _ => .error .outOfFuel
  | fuel+1, d, iter =>
    match iter.entry with
    | none =>
      let d := if neverAdvanced iter then { d with iterators := d.iterators+1 } else d
      nextBucket (dictNextLoop fuel d) d { iter with index := iter.index+1 }
    | some _ =>
      match iter.nextEntry with
      | some key => returnEntry d iter key
      | none => dictNextLoop fuel d { iter with entry := none }

def dictNext (d : Dict K V) (iter : DictIterator K) : Except Fault (NextResult K V) :=
  dictNextLoop (d.ht0.size+d.ht1.size+3) d iter

def dictReleaseIterator (d : Dict K V) (iter : DictIterator K) : Dict K V :=
  if neverAdvanced iter then d else { d with iterators := d.iterators-1 }

/-- What the caller may do between two calls of `dictNext`; adding may start a resize. -/
inductive CallerAction (K V : Type)
  | deleteReturned
  | find (key : K)
  | replace (canResize : Bool) (key : K) (val : V)
  | add (canResize : Bool) (key : K) (val : V)

/-- The caller's side of an iteration: the dict, the entry returned last unless it has been
deleted, and the history. -/
structure Caller (K V : Type) where
  dict : Dict K V
  returned : Option K
  trace : List (WalkEvent K)

variable (ty : DictType K V)

def callerStep (c : Caller K V) : CallerAction K V → Except Fault (Caller K V)
  | .deleteReturned =>
    match c.returned with
    | none => .ok c
    | some key => do
      let r ← dictDelete ty c.dict key
      if r.2 = .ok then
        .ok { dict := r.1, returned := none, trace := .deleted key :: c.trace }
      else .ok { c with dict := r.1 }
  | .find key => do
    let r ← dictFind ty c.dict key
    .ok { c with dict := r.1 }
  | .replace canResize key val => do
    let r ← dictReplace ty canResize c.dict key val
    .ok { c with dict := r.1 }
  | .add canResize key val => do
    let r ← dictAdd ty canResize c.dict key val
    .ok { c with dict := r.1 }

def iterateLoop : List (List (CallerAction K V)) → Dict K V → DictIterator K →
    List (WalkEvent K) → Except Fault (Dict K V × DictIterator K × List (WalkEvent K) × Bool)
  | [], d, iter, trace => .ok (d, iter, trace, false)
  | actions :: script, d, iter, trace => do
    let r ← dictNext d iter
    match r.2.2 with
    | none => .ok (r.1, r.2.1, trace, true)
    | some he => do
      let c ← actions.foldlM (callerStep ty)
        { dict := r.1, returned := some he.key, trace := .returned he.key :: trace }
      iterateLoop script c.dict r.2.1 c.trace

/-- A whole iteration: the dict after the release of the iterator, the history, and whether
`dictNext` has returned `NULL`. -/
def iterate (script : List (List (CallerAction K V))) (d : Dict K V) :
    Except Fault (Dict K V × List (WalkEvent K) × Bool) := do
  let r ← iterateLoop ty script d dictGetSafeIterator []
  .ok (dictReleaseIterator r.1 r.2.1, r.2.2.1, r.2.2.2)

end Model

section Slots

variable {K V : Type}

def chainKeys (d : Dict K V) : List (List K) :=
  (buckets d.ht0 ++ buckets d.ht1).map (·.map DictEntry.key)

def slotOf (d : Dict K V) (second : Bool) (idx : ℕ) : ℕ :=
  if second then (buckets d.ht0).length+idx else idx

theorem flatten_chainKeys (d : Dict K V) :
    (chainKeys d).flatten = (entries d).map DictEntry.key := by
  rw [chainKeys, ← map_flatten, flatten_append]
  rfl

theorem chainKeys_slot {d : Dict K V} {second : Bool} {idx : ℕ} {chain : List (DictEntry K V)}
    (h : (buckets (getHt d second))[idx]? = some chain) :
    (chainKeys d)[slotOf d second idx]? = some (chain.map DictEntry.key) := by
  rw [chainKeys, getElem?_map]
  cases second with
  | false =>
    have hi : idx < (buckets d.ht0).length := (List.getElem?_eq_some_iff.mp h).1
    have hslot : (buckets d.ht0 ++ buckets d.ht1)[idx]? = some chain := by
      rw [getElem?_append_left hi]
      exact h
    exact congrArg (Option.map _) hslot
  | true =>
    have hslot : (buckets d.ht0 ++ buckets d.ht1)[(buckets d.ht0).length+idx]? = some chain := by
      rw [getElem?_append_right (Nat.le_add_right _ _), Nat.add_sub_cancel_left]
      exact h
    exact congrArg (Option.map _) hslot

theorem chainKeys_setBucket {d : Dict K V} {second : Bool} {idx : ℕ}
    {old : List (DictEntry K V)} (h : (buckets (getHt d second))[idx]? = some old)
    (new : List (DictEntry K V)) (n : ℕ) : chainKeys (setBucket d second idx new n) =
      (chainKeys d).set (slotOf d second idx) (new.map DictEntry.key) := by
  obtain ⟨hi, -⟩ := List.getElem?_eq_some_iff.mp h
  rw [chainKeys, chainKeys, ← map_set]
  apply congrArg (map _)
  cases second with
  | false =>
    have hlt : idx < (buckets d.ht0).length := hi
    calc buckets (withBucket d.ht0 idx new) ++ buckets d.ht1
      _ = (buckets d.ht0).set idx new ++ buckets d.ht1 := by rw [buckets_withBucket]
      _ = (buckets d.ht0 ++ buckets d.ht1).set idx new := (set_append_left _ _ hlt).symm
  | true =>
    calc buckets d.ht0 ++ buckets (withBucket d.ht1 idx new)
      _ = buckets d.ht0 ++ (buckets d.ht1).set idx new := by rw [buckets_withBucket]
      _ = (buckets d.ht0 ++ buckets d.ht1).set ((buckets d.ht0).length+idx) new := by
        rw [set_append_right _ _ (Nat.le_add_right _ _), Nat.add_sub_cancel_left]

structure SameSlots (d d' : Dict K V) : Prop where
  iterators : d'.iterators = d.iterators
  first : (buckets d.ht0).length ≤ (buckets d'.ht0).length
  second : dictIsRehashing d → dictIsRehashing d' ∧
    (buckets d'.ht0).length = (buckets d.ht0).length

theorem SameSlots.refl (d : Dict K V) : SameSlots d d := ⟨rfl, le_refl _, fun h => ⟨h, rfl⟩⟩

theorem SameSlots.trans {d d' d'' : Dict K V} (h : SameSlots d d') (h' : SameSlots d' d'') :
    SameSlots d d'' := by
  refine ⟨h'.iterators.trans h.iterators, h.first.trans h'.first, ?_⟩
  intro hre
  obtain ⟨hre', hlen⟩ := h.second hre
  obtain ⟨hre'', hlen'⟩ := h'.second hre'
  exact ⟨hre'', hlen'.trans hlen⟩

theorem sameSlots_setBucket (d : Dict K V) (second : Bool) (idx : ℕ)
    (chain : List (DictEntry K V)) (n : ℕ) : SameSlots d (setBucket d second idx chain n) := by
  have hlen : (buckets (setBucket d second idx chain n).ht0).length =
      (buckets d.ht0).length := by
    cases second with
    | false =>
      calc (buckets (withBucket d.ht0 idx chain)).length
        _ = (buckets d.ht0).length := by rw [buckets_withBucket, length_set]
    | true => rfl
  refine ⟨setBucket_iterators d second idx chain n, hlen.ge, fun h => ⟨?_, hlen⟩⟩
  rw [dictIsRehashing, setBucket_rehashidx]
  exact h

end Slots

section Edits

variable {K V : Type} {ty : DictType K V}

variable {d : Dict K V} {ref : EntryRef} {e : DictEntry K V}

theorem rehashIfNeeded_iterating (h : d.iterators ≠ 0) : rehashIfNeeded ty d = .ok d := by
  rw [rehashIfNeeded, _dictRehashStep, if_neg h, ite_self]

theorem dictExpand_slots (ok : TablesOk ty d) (size : ℕ) : SameSlots d (dictExpand d size).1 ∧
      ∃ n, chainKeys (dictExpand d size).1 = chainKeys d ++ replicate n [] := by
  have hsame : SameSlots d d ∧ ∃ n, chainKeys d = chainKeys d ++ replicate n [] :=
    ⟨SameSlots.refl d, 0, (append_nil _).symm⟩
  unfold dictExpand
  split
  · exact hsame
  next hgo =>
    rw [not_or] at hgo
    have hidle : d.rehashidx = none := by simpa [dictIsRehashing] using hgo.1
    have hht1 : buckets d.ht1 = [] := by
      rw [ok.idle hidle]
      rfl
    have hnew (n : ℕ) : (buckets (newTable n : DictHt K V)).map (·.map DictEntry.key) =
        replicate (allocatedBuckets n) [] := map_replicate
    have hno : ¬dictIsRehashing d := hgo.1
    dsimp only
    split
    · exact hsame
    · split
      next hnone =>
        -- the `NULL` table had no chains
        have hht0 : buckets d.ht0 = [] := by
          rw [buckets, Option.isNone_iff_eq_none.mp hnone]
          rfl
        refine ⟨⟨rfl, by rw [hht0]; exact Nat.zero_le _, fun h => absurd h hno⟩,
          allocatedBuckets (_dictNextPower size), ?_⟩
        simp only [chainKeys, hht0, hht1, append_nil, nil_append, map_nil, hnew]
      next hsome =>
        refine ⟨⟨rfl, le_refl _, fun h => absurd h hno⟩, allocatedBuckets (_dictNextPower size), ?_⟩
        simp only [chainKeys, hht1, append_nil, map_append, hnew]

theorem dictExpandIfNeeded_slots (ok : TablesOk ty d) (canResize : Bool) :
    SameSlots d (_dictExpandIfNeeded canResize d).1 ∧
      ∃ n, chainKeys (_dictExpandIfNeeded canResize d).1 = chainKeys d ++ replicate n [] := by
  have hsame : SameSlots d d ∧ ∃ n, chainKeys d = chainKeys d ++ replicate n [] :=
    ⟨SameSlots.refl d, 0, (append_nil _).symm⟩
  unfold _dictExpandIfNeeded
  split
  · exact hsame
  · split
    · exact dictExpand_slots ok _
    · split
      · exact dictExpand_slots ok _
      · exact hsame

theorem dictSetVal_slots {d' : Dict K V} (he : EntryAt d ref e) {val : V}
    (h : dictSetVal ty d ref val = .ok d') :
    SameSlots d d' ∧ chainKeys d' = chainKeys d := by
  obtain ⟨chain, hc, hpos, hload, hi, hlt, -⟩ := he.load
  simp only [dictSetVal, hload, ok_bind, hpos, tableStore_eq hi] at h
  obtain rfl : setBucket d ref.second ref.idx
      (chain.set ref.pos { e with v := some (applyDup ty.valDup val) })
      (getHt d ref.second).used = d' := Except.ok.inj h
  refine ⟨sameSlots_setBucket .., ?_⟩
  have hkeys : (chain.set ref.pos { e with v := some (applyDup ty.valDup val) }).map
      DictEntry.key = chain.map DictEntry.key := by
    have hkey : (chain.map DictEntry.key)[ref.pos]? = some e.key := by rw [getElem?_map, hpos]; rfl
    obtain ⟨hlt', hget⟩ := List.getElem?_eq_some_iff.mp hkey
    rw [map_set, ← hget, set_getElem_self]
  rw [chainKeys_setBucket hc, hkeys]
  obtain ⟨hlt', hget⟩ := List.getElem?_eq_some_iff.mp (chainKeys_slot hc)
  rw [← hget, set_getElem_self]

theorem unlinkEntry_slots (he : EntryAt d ref e) {r : Dict K V × DictEntry K V}
    (h : unlinkEntry d ref = .ok r) :
    SameSlots d r.1 ∧ ∃ (q : ℕ) (chain : List K) (j : ℕ), (chainKeys d)[q]? = some chain ∧
      chain[j]? = some e.key ∧ chainKeys r.1 = (chainKeys d).set q (chain.eraseIdx j) := by
  obtain ⟨chain, hc, hpos, hload, hi, hlt, -⟩ := he.load
  simp only [unlinkEntry, hload, ok_bind, hpos, tableStore_eq hi] at h
  obtain rfl : (setBucket d ref.second ref.idx (chain.eraseIdx ref.pos)
      ((getHt d ref.second).used-1), e) = r := Except.ok.inj h
  refine ⟨sameSlots_setBucket .., slotOf d ref.second ref.idx, chain.map DictEntry.key, ref.pos,
    chainKeys_slot hc, by rw [getElem?_map, hpos]; rfl, ?_⟩
  rw [chainKeys_setBucket hc, eraseIdx_map]

variable [DecidableEq K]

def KeysJoin (ty : DictType K V) (d d' : Dict K V) : Prop :=
  ∃ n, chainKeys d' = chainKeys d ++ replicate n [] ∨
    ∃ (q : ℕ) (chain : List K) (x : K), (chainKeys d ++ replicate n [])[q]? = some chain ∧
      chainKeys d' = (chainKeys d ++ replicate n []).set q (x :: chain) ∧
      ∀ e ∈ entries d, ¬dictCompareKeys ty x e.key

structure Updated (ty : DictType K V) (d d' : Dict K V) : Prop where
  tables : TablesOk ty d'
  sized : Roomy d → Sized d'
  slots : SameSlots d d'
  keys : KeysJoin ty d d'

theorem dictKeyIndex_dict (canResize : Bool) (d : Dict K V) (key : K) :
    Yields False (_dictKeyIndex ty canResize d key) (fun r =>
      r.1 = (_dictExpandIfNeeded canResize d).1) := by
  unfold _dictKeyIndex
  dsimp only
  split
  · rfl
  · cases hs : searchTables ty (_dictExpandIfNeeded canResize d).1 key with
    | error e => exact fun h => h
    | ok s =>
      rw [ok_bind]
      split <;> rfl

theorem dictAddRaw_slots (law : Lawful ty) (ok : TablesOk ty d)
    (hit : d.iterators ≠ 0) (canResize : Bool) (key : K) :
    Yields False (dictAddRaw ty canResize d key) (fun r =>
      SameSlots d r.1 ∧ KeysJoin ty d r.1) := by
  rw [dictAddRaw, rehashIfNeeded_iterating hit, ok_bind]
  obtain ⟨hslots, n, hkeys⟩ := dictExpandIfNeeded_slots ok canResize
  apply Yields.bind (((dictKeyIndex_yields law ok canResize key).strengthen False.elim).and
    (dictKeyIndex_dict canResize d key))
  rintro ⟨d2, index, existing⟩ ⟨⟨ok2, -, -, -, hcase⟩, hd2⟩
  dsimp only at ok2 hcase hd2 ⊢
  subst hd2
  rcases hcase with ⟨index, rfl, hfresh, hidx, hlt⟩ | ⟨rfl, -⟩
  · dsimp only
    obtain ⟨chain, hchain⟩ : ∃ chain, (buckets (getHt (_dictExpandIfNeeded canResize d).1
        (dictIsRehashing (_dictExpandIfNeeded canResize d).1)))[index]? = some chain :=
      ⟨_, getElem?_eq_getElem hlt⟩
    rw [tableLoad_eq_ok.2 hchain, ok_bind, tableStore_eq hlt, ok_bind]
    have hset := chainKeys_setBucket hchain (⟨applyDup ty.keyDup key, none⟩ :: chain)
      ((getHt (_dictExpandIfNeeded canResize d).1
        (dictIsRehashing (_dictExpandIfNeeded canResize d).1)).used+1)
    have hslot := chainKeys_slot hchain
    rw [hkeys] at hset hslot
    refine ⟨hslots.trans (sameSlots_setBucket _ _ index _ _), n, Or.inr ⟨_, _, _, hslot, hset, ?_⟩⟩
    intro e he hsame
    exact hfresh e he ((keyMatches_iff law).mpr (law.trans _ _ _ (law.dup key) hsame))
  · exact ⟨hslots, n, Or.inl hkeys⟩

theorem dictSetVal_updated {d1 : Dict K V} (ok1 : TablesOk ty d1) (hs : Roomy d → Sized d1)
    (hslots : SameSlots d d1) (hkeys : KeysJoin ty d d1) (he : EntryAt d1 ref e) (val : V) :
    ∃ d', dictSetVal ty d1 ref val = .ok d' ∧ Updated ty d d' := by
  obtain ⟨d', -, hrun, ok', hs', -, -, -⟩ := dictSetVal_spec ok1 he val
  obtain ⟨hslots', hkeys'⟩ := dictSetVal_slots he hrun
  refine ⟨d', hrun, ok', fun h => hs'.sized (hs h), hslots.trans hslots', ?_⟩
  rw [KeysJoin, hkeys']
  exact hkeys

theorem dictAdd_updates (law : Lawful ty) (ok : TablesOk ty d)
    (hit : d.iterators ≠ 0) (canResize : Bool) (key : K) (val : V) :
    Yields (Roomy d) (dictAdd ty canResize d key val) (fun r => Updated ty d r.1) := by
  rw [dictAdd]
  apply Yields.bind ((dictAddRaw_yields law ok canResize key).and_returned
    (dictAddRaw_slots law ok hit canResize key))
  rintro ⟨d1, entry, existing⟩ ⟨⟨ok1, hs1, -, hpost⟩, hslots, hkeys⟩
  dsimp only at ok1 hs1 hslots hkeys ⊢
  rcases hpost with ⟨ref, rfl, hat, -⟩ | ⟨rfl, -⟩
  · obtain ⟨d', hrun, hup⟩ := dictSetVal_updated ok1 hs1 hslots hkeys hat val
    simp only [hrun, ok_bind]
    exact hup
  · exact ⟨ok1, hs1, hslots, hkeys⟩

theorem dictReplace_updates (law : Lawful ty) (ok : TablesOk ty d)
    (hit : d.iterators ≠ 0) (canResize : Bool) (key : K) (val : V) :
    Yields (Roomy d) (dictReplace ty canResize d key val) (fun r => Updated ty d r.1) := by
  rw [dictReplace]
  apply Yields.bind ((dictAddRaw_yields law ok canResize key).and_returned
    (dictAddRaw_slots law ok hit canResize key))
  rintro ⟨d1, entry, existing⟩ ⟨⟨ok1, hs1, -, hpost⟩, hslots, hkeys⟩
  dsimp only at ok1 hs1 hslots hkeys ⊢
  rcases hpost with ⟨ref, rfl, hat, -⟩ | ⟨rfl, -, ⟨ref, e, rfl, hat, -⟩ | ⟨rfl, hno⟩⟩
  · obtain ⟨d', hrun, hup⟩ := dictSetVal_updated ok1 hs1 hslots hkeys hat val
    simp only [hrun, ok_bind]
    exact hup
  · obtain ⟨d', hrun, hup⟩ := dictSetVal_updated ok1 hs1 hslots hkeys hat val
    simp only [hrun, ok_bind]
    exact hup
  · exact hno

theorem dictFind_unchanged (law : Lawful ty) (ok : TablesOk ty d)
    (hit : d.iterators ≠ 0) (key : K) :
    Yields (Sized d) (dictFind ty d key) (fun r => r.1 = d) := by
  have hrun := dictFind_yields law ok key
  rw [dictFind] at hrun ⊢
  split
  · rfl
  next hne =>
    rw [if_neg hne, rehashIfNeeded_iterating hit, ok_bind] at hrun
    rw [rehashIfNeeded_iterating hit, ok_bind]
    cases hs : searchTables ty d key with
    | ok s => rfl
    | error e =>
      rw [hs] at hrun
      exact hrun

theorem dictDelete_slots (law : Lawful ty) (ok : TablesOk ty d)
    (hit : d.iterators ≠ 0) {key : K} (hmem : ∃ e ∈ entries d, keyMatches ty key e) :
    Yields (Sized d) (dictDelete ty d key) (fun r => r.2 = .ok ∧ TablesOk ty r.1 ∧
      (Sized d → Sized r.1) ∧ SameSlots d r.1 ∧
      ∃ (q : ℕ) (chain : List K) (j : ℕ) (x : K), (chainKeys d)[q]? = some chain ∧
        chain[j]? = some x ∧ dictCompareKeys ty key x ∧
        chainKeys r.1 = (chainKeys d).set q (chain.eraseIdx j)) := by
  obtain ⟨e0, he0, hmatch0⟩ := hmem
  have hne : entries d ≠ [] := ne_nil_of_mem he0
  have hused : ¬(d.ht0.used = 0 ∧ d.ht1.used = 0) := by
    intro h
    apply hne
    rw [← length_eq_zero_iff, ← dictSize_eq ok, dictSize, h.1, h.2]
  rw [dictDelete, dictGenericDelete, if_neg hused, rehashIfNeeded_iterating hit, ok_bind]
  have hsearch := searchTables_yields law ok (table_isSome_of_mem ok hne) id key
  cases hs : searchTables ty d key with
  | error e =>
    rw [hs] at hsearch
    exact hsearch
  | ok s =>
    rw [hs] at hsearch
    rcases hsearch with ⟨ref, e, h1, hat, hmatch⟩ | ⟨-, hno, -⟩
    · obtain ⟨d', hrun, ok', hs', -, -⟩ := unlinkEntry_spec ok hat
      obtain ⟨hslots, q, chain, j, hq, hj, hkeys⟩ := unlinkEntry_slots hat hrun
      simp only [ok_bind, h1, hrun]
      exact ⟨rfl, ok', hs'.sized, hslots, q, chain, j, e.key, hq, hj, (keyMatches_iff law).mp hmatch,
        hkeys⟩
    · exact absurd hmatch0 (hno e0 he0)

end Edits

end RedisCore.HashDict
