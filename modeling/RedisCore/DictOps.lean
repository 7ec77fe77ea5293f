import RedisCore.DictRehash

namespace RedisCore.HashDict

open List

variable {K V : Type}

section Expand

theorem nextPowerLoop_spec (size fuel a : ℕ) :
    ∃ b, nextPowerLoop size fuel (2^a) = 2^b ∧ b ≤ a+fuel ∧ (size ≤ 2^(a+fuel) → size ≤ 2^b) ∧
      ∀ c, a ≤ c → size ≤ 2^c → b ≤ c := by
  induction fuel generalizing a with
  | zero => exact ⟨a, rfl, le_refl _, id, fun c hc _ => hc⟩
  | succ fuel ih =>
    rw [nextPowerLoop]
    split
    next h => exact ⟨a, rfl, by omega, fun _ => h, fun c hc _ => hc⟩
    next h =>
      obtain ⟨b, h1, h2, h3, h4⟩ := ih (a+1)
      rw [← pow_succ]
      refine ⟨b, h1, by omega, ?_, ?_⟩
      · intro hle
        apply h3
        rwa [Nat.add_right_comm, Nat.add_assoc]
      · intro c hc hle
        apply h4 c _ hle
        -- the size lies above `2^a`, so `c` cannot be `a`
        rcases Nat.lt_or_ge a c with hlt | hge
        · exact hlt
        · have : c = a := by omega
          subst this
          exact absurd hle h

theorem dictNextPower_spec (size : ℕ) :
    ∃ k, _dictNextPower size = 2^k ∧ k ≤ 63 ∧ (size ≤ 2^60 → size ≤ 2^k ∧ k ≤ 60) := by
  unfold _dictNextPower longMax
  split
  next h => exact ⟨63, by norm_num, le_refl _, fun hle => absurd hle (by omega)⟩
  next h =>
    obtain ⟨b, h1, h2, h3, h4⟩ := nextPowerLoop_spec size 62 2
    have hb63 : b ≤ 63 := by
      apply h4 63 (by omega)
      omega
    refine ⟨b, h1, hb63, ?_⟩
    intro hle
    exact ⟨h3 (by omega), h4 60 (by omega) hle⟩

theorem htEntries_newTable (n : ℕ) : htEntries (newTable n : DictHt K V) = [] := by
  simp [htEntries, buckets, newTable]

variable {ty : DictType K V}

theorem htOk_newTable {k : ℕ} (hk : k ≤ 63) : HtOk ty (newTable (2^k) : DictHt K V) where
  alloc := by simp [buckets, newTable]
  shape := Or.inr ⟨rfl, k, hk, rfl, rfl⟩
  placed := by
    intro i chain hc e he
    have hmem : chain ∈ buckets (newTable (2^k) : DictHt K V) := mem_of_getElem? hc
    rw [eq_of_mem_replicate hmem] at he
    cases he
  counted := by rw [htEntries_newTable]; rfl

theorem dictExpand_spec {d : Dict K V} (ok : TablesOk ty d) (size : ℕ) :
    TablesOk ty (dictExpand d size).1 ∧ entries (dictExpand d size).1 = entries d ∧
      (dictExpand d size).1.iterators = d.iterators ∧
      (d.ht0.table.isSome → (dictExpand d size).1.ht0.table.isSome) ∧
      (size ≤ 2^60 → Sized d → Sized (dictExpand d size).1) := by
  have hsame : TablesOk ty d ∧ entries d = entries d ∧ d.iterators = d.iterators ∧
      (d.ht0.table.isSome → d.ht0.table.isSome) ∧ (size ≤ 2^60 → Sized d → Sized d) :=
    ⟨ok, rfl, rfl, id, fun _ => id⟩
  obtain ⟨k, hpow, hk, hsmall⟩ := dictNextPower_spec size
  have hle : size ≤ 2^60 → 2^k ≤ 2^60 := fun h =>
    Nat.pow_le_pow_right (by decide) (hsmall h).2
  unfold dictExpand
  split
  · exact hsame
  next hgo =>
    rw [not_or] at hgo
    have hidle : d.rehashidx = none := by
      simpa [dictIsRehashing] using hgo.1
    have hht1 := ok.idle hidle
    dsimp only
    rw [hpow]
    split
    · exact hsame
    · split
      next hnone =>
        -- the first table: it replaces a `NULL` table without entries
        have hht0 : d.ht0 = _dictReset := by
          rcases ok.ok0.shape with h | ⟨h, -⟩
          · exact h
          · simp [Option.isNone_iff_eq_none.mp hnone] at h
        refine ⟨⟨htOk_newTable hk, ok.ok1, ok.idle, ?_⟩, ?_, rfl, fun _ => rfl, ?_⟩
        · intro idx hidx
          rw [hidle] at hidx
          cases hidx
        · simp [entries, htEntries_newTable, hht0]
        · intro h hs
          exact ⟨hle h, hs.2⟩
      next hsome =>
        refine ⟨⟨ok.ok0, htOk_newTable hk, fun h => (by cases h), ?_⟩, ?_, rfl, id, ?_⟩
        · intro idx hidx
          cases hidx
          refine ⟨Option.isSome_iff_ne_none.mpr (by simpa using hsome), rfl, ?_⟩
          intro i chain hi
          omega
        · simp [entries, htEntries_newTable, hht1]
        · intro h hs
          exact ⟨hs.1, hle h⟩

theorem dictExpandIfNeeded_spec {d : Dict K V} (ok : TablesOk ty d) (canResize : Bool) :
    TablesOk ty (_dictExpandIfNeeded canResize d).1 ∧
      entries (_dictExpandIfNeeded canResize d).1 = entries d ∧
      (_dictExpandIfNeeded canResize d).1.iterators = d.iterators ∧
      (_dictExpandIfNeeded canResize d).1.ht0.table.isSome ∧
      (Sized d ∧ d.ht0.used ≤ 2^59 → Sized (_dictExpandIfNeeded canResize d).1 ∧
        (_dictExpandIfNeeded canResize d).2 = .ok) := by
  unfold _dictExpandIfNeeded
  split
  next hre =>
    obtain ⟨idx, hidx⟩ := Option.isSome_iff_exists.mp hre
    exact ⟨ok, rfl, rfl, (ok.moving idx hidx).1, fun h => ⟨h.1, rfl⟩⟩
  next hre =>
    have hidle : d.rehashidx = none := by simpa [dictIsRehashing] using hre
    split
    next hzero =>
      have hht0 : d.ht0 = _dictReset := by
        rcases ok.ok0.shape with h | ⟨-, k, -, hk, -⟩
        · exact h
        · have hpos : 0 < 2^k := Nat.two_pow_pos k
          omega
      -- the first expansion always succeeds
      have hrun : dictExpand d dictHtInitialSize = ({ d with ht0 := newTable 4 }, .ok) := by
        simp [dictExpand, dictIsRehashing, hidle, hht0, _dictReset, dictHtInitialSize,
          _dictNextPower, longMax, nextPowerLoop]
      have hspec := dictExpand_spec ok dictHtInitialSize
      rw [hrun] at hspec ⊢
      exact ⟨hspec.1, hspec.2.1, hspec.2.2.1, rfl, fun h =>
        ⟨hspec.2.2.2.2 (by decide) h.1, rfl⟩⟩
    next hzero =>
      have hsome : d.ht0.table.isSome := by
        rcases ok.ok0.shape with h | ⟨h, -⟩
        · rw [h] at hzero
          exact absurd rfl hzero
        · exact h
      split
      next hfull =>
        obtain ⟨h1, h2, h3, h4, h5⟩ := dictExpand_spec ok (d.ht0.used*2%2^64)
        refine ⟨h1, h2, h3, h4 hsome, ?_⟩
        rintro ⟨hs, hused⟩
        have hmod : d.ht0.used*2%2^64 = d.ht0.used*2 := Nat.mod_eq_of_lt (by omega)
        rw [hmod] at h5 ⊢
        refine ⟨h5 (by omega) hs, ?_⟩
        -- the doubled request lies above the present size
        obtain ⟨k, hpow, -, hsmall⟩ := dictNextPower_spec (d.ht0.used*2)
        have hk := (hsmall (by omega)).1
        have hgt : ¬(d.ht0.used > d.ht0.used*2) := by omega
        have hdiff : ¬(2^k = d.ht0.size) := by omega
        simp only [dictExpand, dictIsRehashing, hidle, hpow, if_neg hdiff, Option.isSome_none,
          Bool.false_eq_true, false_or, if_neg hgt]
        split <;> rfl
      · exact ⟨ok, rfl, rfl, hsome, fun h => ⟨h.1, rfl⟩⟩

end Expand

section Search

def EntryAt (d : Dict K V) (ref : EntryRef) (e : DictEntry K V) : Prop :=
  ∃ chain, (buckets (getHt d ref.second))[ref.idx]? = some chain ∧ chain[ref.pos]? = some e

variable {d : Dict K V} {ref : EntryRef} {e : DictEntry K V} {S : Prop}

theorem loadEntry_eq (h : EntryAt d ref e) : loadEntry d ref = .ok e := by
  obtain ⟨chain, hc, he⟩ := h
  simp only [loadEntry, tableLoad_eq_ok.2 hc, ok_bind, he]

theorem mem_entries : e ∈ entries d ↔ e ∈ htEntries d.ht0 ∨ e ∈ htEntries d.ht1 := by
  rw [entries, mem_append]

theorem EntryAt.mem (h : EntryAt d ref e) : e ∈ entries d := by
  obtain ⟨chain, hc, he⟩ := h
  have hmem : e ∈ htEntries (getHt d ref.second) :=
    mem_htEntries.2 ⟨_, _, hc, mem_of_getElem? he⟩
  rw [mem_entries]
  cases hb : ref.second with
  | false => exact Or.inl (by simpa [getHt, hb] using hmem)
  | true => exact Or.inr (by simpa [getHt, hb] using hmem)

variable [DecidableEq K] {ty : DictType K V}

/-- What the callbacks of a `dictType` owe to the dict: an equivalence on keys, a hash that
respects it, and copies equal to the original. -/
structure Lawful (ty : DictType K V) : Prop where
  refl : ∀ a, dictCompareKeys ty a a
  symm : ∀ a b, dictCompareKeys ty a b → dictCompareKeys ty b a
  trans : ∀ a b c, dictCompareKeys ty a b → dictCompareKeys ty b c → dictCompareKeys ty a c
  hash : ∀ a b, dictCompareKeys ty a b → ty.hashFunction a = ty.hashFunction b
  dup : ∀ a, dictCompareKeys ty a (applyDup ty.keyDup a)

theorem keyMatches_iff (law : Lawful ty) {key : K} :
    keyMatches ty key e ↔ dictCompareKeys ty key e.key := by
  rw [keyMatches, Bool.or_eq_true, beq_iff_eq]
  constructor
  · rintro (h | h)
    · rw [← h]
      exact law.refl key
    · exact h
  · exact Or.inr

theorem searchTable_yields (law : Lawful ty) {ht : DictHt K V} (ok : HtOk ty ht)
    (hsome : ht.table.isSome) (hs : S → ht.size ≤ 2^60) (key : K) :
    Yields S (searchTable ty ht key) (fun s => s.1 = bucketIdx ht (ty.hashFunction key) ∧
      s.1 < (buckets ht).length ∧
      ((∃ pos chain e, s.2 = some pos ∧ (buckets ht)[s.1]? = some chain ∧
          chain[pos]? = some e ∧ keyMatches ty key e) ∨
        (s.2 = none ∧ ∀ e ∈ htEntries ht, ¬ keyMatches ty key e))) := by
  rw [searchTable]
  apply Yields.bind (tableLoad_yields (fun h => bucketIdx_lt_length ok hsome (hs h) _))
  intro chain hc
  obtain ⟨hi, -⟩ := List.getElem?_eq_some_iff.mp hc
  refine ⟨rfl, hi, ?_⟩
  cases hf : chain.findIdx? (keyMatches ty key) with
  | some pos =>
    left
    obtain ⟨hlt, hmatch, -⟩ := findIdx?_eq_some_iff_getElem.mp hf
    exact ⟨pos, chain, chain[pos], rfl, hc, getElem?_eq_getElem hlt, hmatch⟩
  | none =>
    right
    refine ⟨rfl, ?_⟩
    intro e he hmatch
    -- equal keys have equal hashes, so a matching entry would be in this very chain
    obtain ⟨i, c, hic, hec⟩ := mem_htEntries.1 he
    have hplace := ok.placed i c hic e hec
    rw [← law.hash key e.key ((keyMatches_iff law).mp hmatch)] at hplace
    subst hplace
    rw [hc] at hic
    cases hic
    have hno := findIdx?_eq_none_iff.mp hf e hec
    rw [hno] at hmatch
    cases hmatch

theorem searchTables_yields (law : Lawful ty) (ok : TablesOk ty d)
    (hsome : d.ht0.table.isSome) (hs : S → Sized d) (key : K) :
    Yields S (searchTables ty d key) (fun s =>
      (∃ ref e, s.2 = some ref ∧ EntryAt d ref e ∧ keyMatches ty key e) ∨
      (s.2 = none ∧ (∀ e ∈ entries d, ¬ keyMatches ty key e) ∧
        s.1 = bucketIdx (getHt d (dictIsRehashing d)) (ty.hashFunction key) ∧
        s.1 < (buckets (getHt d (dictIsRehashing d))).length)) := by
  rw [searchTables]
  apply Yields.bind (searchTable_yields law ok.ok0 hsome (fun h => (hs h).1) key)
  rintro s0 ⟨h1, h2, ⟨pos, chain, e, h3, h4, h5, h6⟩ | ⟨h3, h4⟩⟩
  · simp only [h3]
    left
    exact ⟨⟨false, s0.1, pos⟩, e, rfl, ⟨chain, h4, h5⟩, h6⟩
  · simp only [h3]
    cases hre : dictIsRehashing d with
    | false =>
      have hidle : d.rehashidx = none := by simpa [dictIsRehashing] using hre
      right
      refine ⟨rfl, ?_, h1, h2⟩
      intro e he
      rw [entries, ok.idle hidle, htEntries_reset, append_nil] at he
      exact h4 e he
    | true =>
      obtain ⟨idx, hidx⟩ := Option.isSome_iff_exists.mp hre
      obtain ⟨-, hsome1, -⟩ := ok.moving idx hidx
      simp only [Bool.not_true, Bool.false_eq_true, if_false]
      apply Yields.bind (searchTable_yields law ok.ok1 hsome1 (fun h => (hs h).2) key)
      rintro s1 ⟨g1, g2, ⟨pos, chain, e, g3, g4, g5, g6⟩ | ⟨g3, g4⟩⟩
      · left
        refine ⟨⟨true, s1.1, pos⟩, e, ?_, ⟨chain, g4, g5⟩, g6⟩
        simp only [g3, Option.map_some]
      · right
        refine ⟨by simp only [g3, Option.map_none], ?_, g1, g2⟩
        intro e he
        rcases mem_entries.1 he with h | h
        · exact h4 e h
        · exact g4 e h

end Search

section Update

variable {ty : DictType K V}

def setBucket (d : Dict K V) (second : Bool) (idx : ℕ) (chain : List (DictEntry K V)) (n : ℕ) :
    Dict K V :=
  setHt d second { withBucket (getHt d second) idx chain with used := n }

theorem getHt_setBucket (d : Dict K V) (second : Bool) (idx : ℕ)
    (chain : List (DictEntry K V)) (n : ℕ) : getHt (setBucket d second idx chain n) second =
      { withBucket (getHt d second) idx chain with used := n } := by
  cases second <;> rfl

theorem setBucket_iterators (d : Dict K V) (second : Bool) (idx : ℕ)
    (chain : List (DictEntry K V)) (n : ℕ) :
    (setBucket d second idx chain n).iterators = d.iterators := by
  cases second <;> rfl

theorem setBucket_rehashidx (d : Dict K V) (second : Bool) (idx : ℕ)
    (chain : List (DictEntry K V)) (n : ℕ) :
    (setBucket d second idx chain n).rehashidx = d.rehashidx := by
  cases second <;> rfl

variable {d : Dict K V} {second : Bool} {idx n : ℕ} {old : List (DictEntry K V)} {ref : EntryRef}
  {e : DictEntry K V}

theorem keeps_setBucket {chain : List (DictEntry K V)} : Keeps d (setBucket d second idx chain n) := by
  cases second
  · refine ⟨fun _ => id, fun h => ?_⟩
    simpa [setBucket, setHt, getHt, withBucket] using h
  · exact ⟨fun _ => id, id⟩

theorem TablesOk.setBucket (ok : TablesOk ty d) {new : List (DictEntry K V)}
    (hold : (buckets (getHt d second))[idx]? = some old)
    (hnew : ∀ e ∈ new, bucketIdx (getHt d second) (ty.hashFunction e.key) = idx)
    (hn : n+old.length = (getHt d second).used+new.length)
    (hpassed : dictIsRehashing d → second = false → old ≠ []) :
    TablesOk ty (setBucket d second idx new n) := by
  cases second with
  | true =>
    refine ⟨ok.ok0, ok.ok1.store hold hnew hn, ?_, ?_⟩
    · intro hidle
      rw [setBucket_rehashidx] at hidle
      have hreset := ok.idle hidle
      simp [getHt, hreset, buckets, _dictReset] at hold
    · intro r hr
      rw [setBucket_rehashidx] at hr
      obtain ⟨h0, h1, h2⟩ := ok.moving r hr
      refine ⟨h0, ?_, h2⟩
      simpa [HashDict.setBucket, setHt, getHt] using h1
  | false =>
    refine ⟨ok.ok0.store hold hnew hn, ok.ok1, ok.idle, ?_⟩
    intro r hr
    rw [setBucket_rehashidx] at hr
    obtain ⟨h0, h1, h2⟩ := ok.moving r hr
    refine ⟨by simpa [HashDict.setBucket, setHt, getHt] using h0, h1, ?_⟩
    -- a bucket with entries lies at or after the cursor, the others are as before
    have hidx : r ≤ idx := by
      by_contra hlt
      exact hpassed (by simp [dictIsRehashing, hr]) rfl (h2 idx old (by omega) hold)
    intro i chain hi hchain
    apply h2 i chain hi
    have hne : ¬ idx = i := by omega
    simpa [HashDict.setBucket, setHt, getHt, hne] using hchain

theorem entries_setBucket (new : List (DictEntry K V)) (n : ℕ)
    (hold : (buckets (getHt d second))[idx]? = some old) :
    ∃ rest, entries d ~ old ++ rest ∧ entries (setBucket d second idx new n) ~ new ++ rest := by
  obtain ⟨hi, -⟩ := List.getElem?_eq_some_iff.mp hold
  have hbefore := flatten_perm_of_getElem? hold
  have hafter := htEntries_withBucket hi new
  cases second with
  | false =>
    refine ⟨((buckets d.ht0).eraseIdx idx).flatten ++ htEntries d.ht1, ?_, ?_⟩
    · rw [← append_assoc]
      exact hbefore.append_right _
    · rw [← append_assoc]
      exact hafter.append_right _
  | true =>
    refine ⟨htEntries d.ht0 ++ ((buckets d.ht1).eraseIdx idx).flatten, ?_, ?_⟩
    · exact (hbefore.append_left _).trans (perm_append_comm_assoc _ _ _)
    · exact (hafter.append_left _).trans (perm_append_comm_assoc _ _ _)

theorem EntryAt.load (h : EntryAt d ref e) :
    ∃ chain, (buckets (getHt d ref.second))[ref.idx]? = some chain ∧ chain[ref.pos]? = some e ∧
      tableLoad (getHt d ref.second) ref.idx = .ok chain ∧
      ref.idx < (buckets (getHt d ref.second)).length ∧ ref.pos < chain.length ∧ chain ≠ [] := by
  obtain ⟨chain, hc, he⟩ := h
  obtain ⟨hi, -⟩ := List.getElem?_eq_some_iff.mp hc
  obtain ⟨hp, -⟩ := List.getElem?_eq_some_iff.mp he
  exact ⟨chain, hc, he, tableLoad_eq_ok.2 hc, hi, hp, ne_nil_of_mem (mem_of_getElem? he)⟩

theorem perm_cons_eraseIdx {α : Type} {l : List α} {i : ℕ} {a : α} (h : l[i]? = some a) :
    l ~ a :: l.eraseIdx i := by
  obtain ⟨hi, rfl⟩ := List.getElem?_eq_some_iff.mp h
  exact (getElem_cons_eraseIdx_perm hi).symm

theorem HtOk.placed_getHt (ok : TablesOk ty d) (second : Bool) : HtOk ty (getHt d second) := by
  cases second
  · exact ok.ok0
  · exact ok.ok1

theorem dictSetVal_spec (ok : TablesOk ty d) (he : EntryAt d ref e) (val : V) :
    ∃ d' rest, dictSetVal ty d ref val = .ok d' ∧ TablesOk ty d' ∧ Keeps d d' ∧
      d'.iterators = d.iterators ∧ entries d ~ e :: rest ∧
      entries d' ~ { e with v := some (applyDup ty.valDup val) } :: rest := by
  obtain ⟨chain, hc, hpos, hload, hi, hlt, hne⟩ := he.load
  have hok := HtOk.placed_getHt ok ref.second
  have hset := set_perm_cons_eraseIdx hlt { e with v := some (applyDup ty.valDup val) }
  obtain ⟨rest, hr1, hr2⟩ := entries_setBucket
    (chain.set ref.pos { e with v := some (applyDup ty.valDup val) }) (getHt d ref.second).used hc
  refine ⟨setBucket d ref.second ref.idx
    (chain.set ref.pos { e with v := some (applyDup ty.valDup val) }) (getHt d ref.second).used,
    chain.eraseIdx ref.pos ++ rest, ?_, ?_, keeps_setBucket, setBucket_iterators .., ?_, ?_⟩
  · simp only [dictSetVal, hload, ok_bind, hpos, tableStore_eq hi]
    rfl
  · apply ok.setBucket hc
    · intro x hx
      have hmem := hset.mem_iff.mp hx
      rcases mem_cons.mp hmem with rfl | hx
      · exact hok.placed _ _ hc e (mem_of_getElem? hpos)
      · exact hok.placed _ _ hc x (mem_of_mem_eraseIdx hx)
    · rw [length_set]
    · exact fun _ _ => hne
  · exact hr1.trans ((perm_cons_eraseIdx hpos).append_right rest)
  · exact hr2.trans (hset.append_right rest)

theorem unlinkEntry_spec (ok : TablesOk ty d) (he : EntryAt d ref e) :
    ∃ d', unlinkEntry d ref = .ok (d', e) ∧ TablesOk ty d' ∧ Keeps d d' ∧
      d'.iterators = d.iterators ∧ entries d ~ e :: entries d' := by
  obtain ⟨chain, hc, hpos, hload, hi, hlt, hne⟩ := he.load
  have hok := HtOk.placed_getHt ok ref.second
  have hused : 0 < (getHt d ref.second).used := by
    rw [hok.counted]
    exact length_pos_of_mem (mem_htEntries.2 ⟨_, _, hc, mem_of_getElem? hpos⟩)
  obtain ⟨rest, hr1, hr2⟩ := entries_setBucket (chain.eraseIdx ref.pos)
    ((getHt d ref.second).used-1) hc
  refine ⟨setBucket d ref.second ref.idx (chain.eraseIdx ref.pos) ((getHt d ref.second).used-1),
    ?_, ?_, keeps_setBucket, setBucket_iterators .., ?_⟩
  · simp only [unlinkEntry, hload, ok_bind, hpos, tableStore_eq hi]
    rfl
  · apply ok.setBucket hc
    · intro x hx
      exact hok.placed _ _ hc x (mem_of_mem_eraseIdx hx)
    · rw [length_eraseIdx_of_lt hlt]
      omega
    · exact fun _ _ => hne
  · calc entries d ~ chain ++ rest := hr1
      _ ~ e :: chain.eraseIdx ref.pos ++ rest := (perm_cons_eraseIdx hpos).append_right rest
      _ ~ e :: entries _ := hr2.symm.cons e

end Update

section Operations

variable {ty : DictType K V}

def Roomy (d : Dict K V) : Prop := Sized d ∧ dictSize d ≤ 2^59

variable {d : Dict K V}

theorem dictSize_eq (ok : TablesOk ty d) : dictSize d = (entries d).length := by
  rw [dictSize, entries, length_append, ok.ok0.counted, ok.ok1.counted]

theorem table_isSome_of_mem (ok : TablesOk ty d) (hne : entries d ≠ []) : d.ht0.table.isSome := by
  cases hidx : d.rehashidx with
  | some idx => exact (ok.moving idx hidx).1
  | none =>
    by_contra hnone
    apply hne
    have h0 : d.ht0.table = none := by simpa using hnone
    simp [entries, ok.idle hidx, htEntries, buckets, h0, _dictReset]

variable [DecidableEq K]

def AddRawPost (ty : DictType K V) (d : Dict K V) (key : K)
    (r : Dict K V × Option EntryRef × Option EntryRef) : Prop :=
  (∃ ref, r.2.1 = some ref ∧ EntryAt r.1 ref ⟨applyDup ty.keyDup key, none⟩ ∧
    (∀ e ∈ entries d, ¬ keyMatches ty key e) ∧
    entries r.1 ~ ⟨applyDup ty.keyDup key, none⟩ :: entries d) ∨
  (r.2.1 = none ∧ entries r.1 ~ entries d ∧
    ((∃ ref e, r.2.2 = some ref ∧ EntryAt r.1 ref e ∧ keyMatches ty key e) ∨
      (r.2.2 = none ∧ ¬ Roomy d)))

theorem dictKeyIndex_yields (law : Lawful ty) (ok : TablesOk ty d) (canResize : Bool) (key : K) :
    Yields (Roomy d) (_dictKeyIndex ty canResize d key) (fun r => TablesOk ty r.1 ∧
      (Roomy d → Sized r.1) ∧ r.1.iterators = d.iterators ∧ entries r.1 = entries d ∧
      ((∃ index, r.2.1 = some index ∧ (∀ e ∈ entries d, ¬ keyMatches ty key e) ∧
          index = bucketIdx (getHt r.1 (dictIsRehashing r.1)) (ty.hashFunction key) ∧
          index < (buckets (getHt r.1 (dictIsRehashing r.1))).length) ∨
        (r.2.1 = none ∧ ((∃ ref e, r.2.2 = some ref ∧ EntryAt r.1 ref e ∧ keyMatches ty key e) ∨
          (r.2.2 = none ∧ ¬ Roomy d))))) := by
  obtain ⟨hok, hent, hit, hsome, hgrow⟩ := dictExpandIfNeeded_spec ok canResize
  have hused : Roomy d → Sized (_dictExpandIfNeeded canResize d).1 ∧
      (_dictExpandIfNeeded canResize d).2 = .ok := by
    rintro ⟨hs, hsize⟩
    apply hgrow
    rw [dictSize] at hsize
    exact ⟨hs, by omega⟩
  unfold _dictKeyIndex
  dsimp only
  split
  next herr =>
    have hno : ¬ Roomy d := by
      intro h
      rw [(hused h).2] at herr
      cases herr
    exact ⟨hok, fun h => absurd h hno, hit, hent, Or.inr ⟨rfl, Or.inr ⟨rfl, hno⟩⟩⟩
  · apply Yields.bind (searchTables_yields law hok hsome (fun h => (hused h).1) key)
    rintro s (⟨ref, e, h1, h2, h3⟩ | ⟨h1, h2, h3, h4⟩)
    · simp only [h1]
      exact ⟨hok, fun h => (hused h).1, hit, hent, Or.inr ⟨rfl, Or.inl ⟨ref, e, rfl, h2, h3⟩⟩⟩
    · simp only [h1]
      refine ⟨hok, fun h => (hused h).1, hit, hent, Or.inl ⟨s.1, rfl, ?_, h3, h4⟩⟩
      rw [← hent]
      exact h2

theorem dictAddRaw_yields (law : Lawful ty) (ok : TablesOk ty d) (canResize : Bool) (key : K) :
    Yields (Roomy d) (dictAddRaw ty canResize d key) (fun r => TablesOk ty r.1 ∧
      (Roomy d → Sized r.1) ∧ r.1.iterators = d.iterators ∧ AddRawPost ty d key r) := by
  rw [dictAddRaw]
  apply Yields.bind ((rehashIfNeeded_yields ok).strengthen (fun h => h.1))
  rintro d1 ⟨ok1, hs1, hit1, hp1⟩
  have hroomy : Roomy d → Roomy d1 := by
    intro h
    refine ⟨hs1.sized h.1, ?_⟩
    rw [dictSize_eq ok1, hp1.length_eq, ← dictSize_eq ok]
    exact h.2
  apply Yields.bind ((dictKeyIndex_yields law ok1 canResize key).strengthen hroomy)
  rintro ⟨d2, index, existing⟩ ⟨ok2, hs2, hit2, hent2, hcase⟩
  dsimp only at ok2 hs2 hit2 hent2 hcase ⊢
  rcases hcase with ⟨index, rfl, hfresh, hidx, hlt⟩ | ⟨rfl, hcase⟩
  · -- a new entry at the head of its bucket, in the table that accepts entries
    dsimp only
    obtain ⟨chain, hchain⟩ : ∃ chain,
        (buckets (getHt d2 (dictIsRehashing d2)))[index]? = some chain :=
      ⟨_, getElem?_eq_getElem hlt⟩
    rw [tableLoad_eq_ok.2 hchain, ok_bind, tableStore_eq hlt, ok_bind]
    have hok := HtOk.placed_getHt ok2 (dictIsRehashing d2)
    obtain ⟨rest, hr1, hr2⟩ := entries_setBucket (⟨applyDup ty.keyDup key, none⟩ :: chain)
      ((getHt d2 (dictIsRehashing d2)).used+1) hchain
    refine ⟨?_, fun h => keeps_setBucket.sized (hs2 (hroomy h)), ?_, Or.inl ⟨_, rfl, ?_, ?_, ?_⟩⟩
    · apply ok2.setBucket (n := (getHt d2 (dictIsRehashing d2)).used+1) hchain
      · intro e he
        rcases mem_cons.mp he with rfl | he
        · rw [← law.hash key _ (law.dup key)]
          exact hidx.symm
        · exact hok.placed _ _ hchain e he
      · rw [length_cons]
        omega
      · intro h1 h2
        rw [h1] at h2
        cases h2
    · rw [← hit1, ← hit2]
      exact setBucket_iterators d2 (dictIsRehashing d2) index _ _
    · refine ⟨⟨applyDup ty.keyDup key, none⟩ :: chain, ?_, rfl⟩
      have hget := getHt_setBucket d2 (dictIsRehashing d2) index
        (⟨applyDup ty.keyDup key, none⟩ :: chain) ((getHt d2 (dictIsRehashing d2)).used+1)
      rw [setBucket] at hget
      rw [withBucket_used, hget, buckets_used, buckets_withBucket]
      exact getElem?_set_self hlt
    · intro e he
      exact hfresh e (hp1.mem_iff.mpr he)
    · calc entries (setBucket d2 (dictIsRehashing d2) index
            (⟨applyDup ty.keyDup key, none⟩ :: chain) ((getHt d2 (dictIsRehashing d2)).used+1))
        _ ~ ⟨applyDup ty.keyDup key, none⟩ :: chain ++ rest := hr2
        _ ~ ⟨applyDup ty.keyDup key, none⟩ :: entries d2 := hr1.symm.cons _
        _ = ⟨applyDup ty.keyDup key, none⟩ :: entries d1 := by rw [hent2]
        _ ~ ⟨applyDup ty.keyDup key, none⟩ :: entries d := hp1.cons _
  · refine ⟨ok2, fun h => hs2 (hroomy h), hit2.trans hit1, Or.inr ⟨rfl, ?_, ?_⟩⟩
    · rw [hent2]
      exact hp1
    · rcases hcase with h | ⟨h1, h2⟩
      · exact Or.inl h
      · exact Or.inr ⟨h1, fun h => h2 (hroomy h)⟩

theorem searchTables_after_step (law : Lawful ty) (ok : TablesOk ty d)
    (hne : entries d ≠ []) (key : K) {β : Type} {f : Dict K V → ℕ × Option EntryRef → Except Fault β}
    {Q : β → Prop}
    (hf : ∀ d' s, TablesOk ty d' → (Sized d → Sized d') → d'.iterators = d.iterators →
      entries d' ~ entries d →
      ((∃ ref e, s.2 = some ref ∧ EntryAt d' ref e ∧ keyMatches ty key e) ∨
        (s.2 = none ∧ ∀ e ∈ entries d', ¬ keyMatches ty key e)) → Yields (Sized d) (f d' s) Q) :
    Yields (Sized d) (rehashIfNeeded ty d >>= fun d' => searchTables ty d' key >>= f d') Q := by
  apply Yields.bind (rehashIfNeeded_yields ok)
  rintro d1 ⟨ok1, hs1, hit1, hp1⟩
  have hsome : d1.ht0.table.isSome := by
    apply table_isSome_of_mem ok1
    intro hnil
    rw [hnil] at hp1
    exact hne hp1.symm.eq_nil
  apply Yields.bind (searchTables_yields law ok1 hsome hs1.sized key)
  intro s hs
  apply hf d1 s ok1 hs1.sized hit1 hp1
  rcases hs with h | h
  · exact Or.inl h
  · exact Or.inr ⟨h.1, h.2.1⟩

theorem dictFind_yields (law : Lawful ty) (ok : TablesOk ty d) (key : K) :
    Yields (Sized d) (dictFind ty d key) (fun r => TablesOk ty r.1 ∧ (Sized d → Sized r.1) ∧
      r.1.iterators = d.iterators ∧ entries r.1 ~ entries d ∧
      ((∃ ref e, r.2 = some ref ∧ EntryAt r.1 ref e ∧ keyMatches ty key e) ∨
        (r.2 = none ∧ ∀ e ∈ entries r.1, ¬ keyMatches ty key e))) := by
  unfold dictFind
  split
  next hzero =>
    rw [dictSize_eq ok, length_eq_zero_iff] at hzero
    refine ⟨ok, id, rfl, Perm.refl _, Or.inr ⟨rfl, ?_⟩⟩
    intro e he
    rw [hzero] at he
    cases he
  next hne =>
    rw [dictSize_eq ok, length_eq_zero_iff] at hne
    apply searchTables_after_step law ok hne key (f := fun d' s => .ok (d', s.2))
    intro d' s h1 h2 h3 h4 h5
    exact ⟨h1, h2, h3, h4, h5⟩

theorem dictGenericDelete_yields (law : Lawful ty) (ok : TablesOk ty d) (key : K) :
    Yields (Sized d) (dictGenericDelete ty d key) (fun r => TablesOk ty r.1 ∧
      (Sized d → Sized r.1) ∧ r.1.iterators = d.iterators ∧
      ((∃ e, r.2 = some e ∧ keyMatches ty key e ∧ entries d ~ e :: entries r.1) ∨
        (r.2 = none ∧ entries r.1 ~ entries d ∧ ∀ e ∈ entries d, ¬ keyMatches ty key e))) := by
  unfold dictGenericDelete
  split
  next hzero =>
    have hnil : entries d = [] := by
      rw [← length_eq_zero_iff, ← dictSize_eq ok, dictSize]
      omega
    refine ⟨ok, id, rfl, Or.inr ⟨rfl, Perm.refl _, ?_⟩⟩
    intro e he
    rw [hnil] at he
    cases he
  next hne =>
    have hnonempty : entries d ≠ [] := by
      intro hnil
      rw [← length_eq_zero_iff, ← dictSize_eq ok, dictSize] at hnil
      omega
    apply searchTables_after_step law ok hnonempty key
    rintro d1 s ok1 hs1 hit1 hp1 (⟨ref, e, h1, h2, h3⟩ | ⟨h1, h2⟩)
    · obtain ⟨d2, hrun, ok2, hs2, hit2, hp2⟩ := unlinkEntry_spec ok1 h2
      simp only [h1, hrun, ok_bind]
      exact ⟨ok2, fun h => hs2.sized (hs1 h), hit2.trans hit1,
        Or.inl ⟨e, rfl, h3, hp1.symm.trans hp2⟩⟩
    · simp only [h1]
      refine ⟨ok1, hs1, hit1, Or.inr ⟨rfl, hp1, ?_⟩⟩
      intro e he
      exact h2 e (hp1.mem_iff.mpr he)

omit [DecidableEq K] in
theorem clearLoop_yields {S : Prop} {ht : DictHt K V} (fuel i used : ℕ)
    (hs : S → i+fuel ≤ (buckets ht).length) :
    Yields S (clearLoop ht fuel i used) (fun _ => True) := by
  induction fuel generalizing i used with
  | zero => trivial
  | succ fuel ih =>
    rw [clearLoop]
    split
    · trivial
    · apply Yields.bind (tableLoad_yields (fun h => by have := hs h; omega))
      intro chain _
      apply Yields.bind (ih (i+1) _ (fun h => by have := hs h; omega))
      intro _ _
      trivial

omit [DecidableEq K] in
theorem dictEmpty_yields (ok : TablesOk ty d) :
    Yields (Sized d) (dictEmpty d) (fun d' => d' = dictCreate) := by
  have hclear (ht : DictHt K V) (hok : HtOk ty ht) (hs : Sized d → ht.size ≤ 2^60) :
      Yields (Sized d) (_dictClear ht) (fun r => r.1 = _dictReset) := by
    apply Yields.bind (clearLoop_yields ht.size 0 ht.used (fun h => by
      rw [hok.alloc, allocatedBuckets_of_le (hs h)]
      omega))
    intro _ _
    rfl
  apply Yields.bind (hclear d.ht0 ok.ok0 (fun h => h.1))
  intro r0 h0
  apply Yields.bind (hclear d.ht1 ok.ok1 (fun h => h.2))
  intro r1 h1
  rw [yields_ok, h0, h1]
  rfl

end Operations

end RedisCore.HashDict
