import RedisCore.DictTable

namespace RedisCore.HashDict

open List

variable {K V : Type}

def entries (d : Dict K V) : List (DictEntry K V) := htEntries d.ht0 ++ htEntries d.ht1

def EmptyBelow (ht : DictHt K V) (idx : ℕ) : Prop :=
  ∀ i chain, i < idx → (buckets ht)[i]? = some chain → chain = []

/-- The invariant of a dict, apart from the distinctness of its keys: both tables are in order,
the second one is there exactly while rehashing, and then the cursor has passed only empty
buckets. -/
structure TablesOk (ty : DictType K V) (d : Dict K V) : Prop where
  ok0 : HtOk ty d.ht0
  ok1 : HtOk ty d.ht1
  idle : d.rehashidx = none → d.ht1 = _dictReset
  moving : ∀ idx, d.rehashidx = some idx →
    d.ht0.table.isSome ∧ d.ht1.table.isSome ∧ EmptyBelow d.ht0 idx

/-- Tables small enough for the byte count of their allocation not to wrap. -/
def Sized (d : Dict K V) : Prop := d.ht0.size ≤ 2^60 ∧ d.ht1.size ≤ 2^60

variable {ty : DictType K V}

theorem exists_bucket_of_used {ht : DictHt K V} (ok : HtOk ty ht) (hused : ht.used ≠ 0) {idx : ℕ}
    (hempty : EmptyBelow ht idx) :
    ∃ j chain, idx ≤ j ∧ (buckets ht)[j]? = some chain ∧ chain ≠ [] := by
  have hlen : 0 < (htEntries ht).length := by rw [← ok.counted]; omega
  obtain ⟨e, he⟩ := exists_mem_of_length_pos hlen
  obtain ⟨j, chain, hj, hmem⟩ := mem_htEntries.1 he
  have hne : chain ≠ [] := ne_nil_of_mem hmem
  refine ⟨j, chain, ?_, hj, hne⟩
  by_contra hlt
  exact hne (hempty j chain (by omega) hj)

theorem rehashSkip_spec {ht : DictHt K V} {j : ℕ} {target : List (DictEntry K V)}
    (hj : (buckets ht)[j]? = some target) (hne : target ≠ []) (fuel idx : ℕ) (ev : BitVec 32)
    (hidx : idx ≤ j) (hfuel : j < fuel+idx) (hempty : EmptyBelow ht idx) :
    ∃ r, rehashSkip ht fuel idx ev = .ok r ∧ idx ≤ r.1 ∧ r.1 ≤ j ∧ EmptyBelow ht r.1 := by
  induction fuel generalizing idx ev with
  | zero => omega
  | succ fuel ih =>
    obtain ⟨hjlt, -⟩ := List.getElem?_eq_some_iff.mp hj
    have hload : tableLoad ht idx = .ok (buckets ht)[idx] := by
      rw [tableLoad_eq_ok]
      exact getElem?_eq_getElem (by omega)
    rw [rehashSkip, hload, ok_bind]
    by_cases hc : ((buckets ht)[idx]).isEmpty
    · -- an empty bucket: it is not the target, and the cursor passes it
      have hnil : (buckets ht)[idx] = [] := by simpa using hc
      have hlt : idx < j := by
        rcases Nat.lt_or_ge idx j with h | h
        · exact h
        · have heq : idx = j := by omega
          subst heq
          rw [getElem?_eq_getElem hjlt, hnil] at hj
          exact absurd (Option.some.inj hj).symm hne
      have hempty' : EmptyBelow ht (idx+1) := by
        intro i chain hi hchain
        rcases Nat.lt_succ_iff_lt_or_eq.mp hi with h | h
        · exact hempty i chain h hchain
        · subst h
          rw [getElem?_eq_getElem (by omega), hnil] at hchain
          exact (Option.some.inj hchain).symm
      rw [if_pos hc]
      split
      · exact ⟨_, rfl, by simp, by simpa using hlt, hempty'⟩
      · obtain ⟨r, hr, h1, h2, h3⟩ := ih (idx+1) (ev-1) hlt (by omega) hempty'
        exact ⟨r, hr, by omega, h2, h3⟩
    · rw [if_neg hc]
      exact ⟨_, rfl, le_refl _, hidx, hempty⟩

theorem moveChain_yields {S : Prop} (chain : List (DictEntry K V)) (ht0 ht1 : DictHt K V)
    (ok : HtOk ty ht1) (hsome : ht1.table.isSome) (hs : S → ht1.size ≤ 2^60) :
    Yields S (moveChain ty chain ht0 ht1) (fun r =>
      r.1 = { ht0 with used := ht0.used-chain.length } ∧ HtOk ty r.2 ∧ SameShape r.2 ht1 ∧
      htEntries r.2 ~ chain ++ htEntries ht1) := by
  induction chain generalizing ht0 ht1 with
  | nil => exact ⟨rfl, ok, ⟨rfl, rfl, rfl⟩, Perm.refl _⟩
  | cons de rest ih =>
    rw [moveChain]
    have hin : S → bucketIdx ht1 (ty.hashFunction de.key) < (buckets ht1).length :=
      fun h => bucketIdx_lt_length ok hsome (hs h) _
    apply Yields.bind (tableLoad_yields hin)
    intro old hold
    obtain ⟨hi, -⟩ := List.getElem?_eq_some_iff.mp hold
    rw [tableStore_eq hi, ok_bind]
    -- the moved entry joins the entries that share its bucket
    have hok : HtOk ty { withBucket ht1 (bucketIdx ht1 (ty.hashFunction de.key)) (de :: old) with
        used := ht1.used+1 } := by
      apply ok.store hold
      · intro e he
        rcases mem_cons.mp he with rfl | he
        · rfl
        · exact ok.placed _ _ hold e he
      · simp only [length_cons]
        omega
    have hperm : htEntries (withBucket ht1 (bucketIdx ht1 (ty.hashFunction de.key)) (de :: old)) ~
        de :: htEntries ht1 :=
      (htEntries_withBucket hi _).trans ((flatten_perm_of_getElem? hold).symm.cons de)
    have hshape := sameShape_withBucket ht1 (bucketIdx ht1 (ty.hashFunction de.key))
      (ht1.used+1) (de :: old)
    apply Yields.mono (ih { ht0 with used := ht0.used-1 } _ hok (hshape.2.2 ▸ hsome) hs)
    rintro r ⟨h1, h2, h3, h4⟩
    refine ⟨?_, h2, h3.trans hshape, ?_⟩
    · rw [h1, length_cons, Nat.sub_sub, Nat.add_comm]
    · calc htEntries r.2 ~ rest ++ htEntries (withBucket ht1
          (bucketIdx ht1 (ty.hashFunction de.key)) (de :: old)) := h4
        _ ~ rest ++ de :: htEntries ht1 := hperm.append_left rest
        _ ~ de :: rest ++ htEntries ht1 := perm_middle

structure Rehashed (ty : DictType K V) (ht0 ht1 : DictHt K V)
    (r : DictHt K V × DictHt K V × ℕ × Bool) : Prop where
  ok0 : HtOk ty r.1
  ok1 : HtOk ty r.2.1
  shape0 : SameShape r.1 ht0
  shape1 : SameShape r.2.1 ht1
  empty : EmptyBelow r.1 r.2.2.1
  perm : htEntries r.1 ++ htEntries r.2.1 ~ htEntries ht0 ++ htEntries ht1

theorem Rehashed.refl {ht0 ht1 : DictHt K V} (ok0 : HtOk ty ht0) (ok1 : HtOk ty ht1) {idx : ℕ}
    (hempty : EmptyBelow ht0 idx) (b : Bool) : Rehashed ty ht0 ht1 (ht0, ht1, idx, b) :=
  ⟨ok0, ok1, ⟨rfl, rfl, rfl⟩, ⟨rfl, rfl, rfl⟩, hempty, Perm.refl _⟩

theorem emptyBelow_withBucket {ht : DictHt K V} {idx n : ℕ} (h : EmptyBelow ht idx) :
    EmptyBelow { withBucket ht idx [] with used := n } (idx+1) := by
  intro i chain hi hchain
  rw [buckets_used, buckets_withBucket, getElem?_set] at hchain
  by_cases he : idx = i
  · subst he
    by_cases hlt : idx < (buckets ht).length
    · simpa [hlt, eq_comm] using hchain
    · simp [hlt] at hchain
  · apply h i chain (by omega)
    simpa [he] using hchain

theorem rehashLoop_yields {S : Prop} (fuel : ℕ) (n ev : BitVec 32) (ht0 ht1 : DictHt K V)
    (idx : ℕ) (ok0 : HtOk ty ht0) (ok1 : HtOk ty ht1) (hsome : ht1.table.isSome)
    (hempty : EmptyBelow ht0 idx) (hs : S → ht1.size ≤ 2^60) (hfuel : 0 < fuel)
    (hlen : (buckets ht0).length < fuel+idx) :
    Yields S (rehashLoop ty fuel n ev ht0 ht1 idx) (Rehashed ty ht0 ht1) := by
  induction fuel generalizing n ev ht0 ht1 idx with
  | zero => omega
  | succ fuel ih =>
    rw [rehashLoop]
    split
    · exact Rehashed.refl ok0 ok1 hempty false
    next hstop =>
      rw [not_or] at hstop
      -- entries remain, so the assertion holds and the skip loop finds a bucket
      obtain ⟨j, target, hj, hbucket, hne⟩ := exists_bucket_of_used ok0 hstop.2 hempty
      obtain ⟨hjlt, -⟩ := List.getElem?_eq_some_iff.mp hbucket
      have hbound : (buckets ht0).length ≤ ht0.size := by
        rw [ok0.alloc, allocatedBuckets, sizeofPointer]
        omega
      rw [if_neg (by omega)]
      obtain ⟨s, hskip, h1, h2, h3⟩ := rehashSkip_spec hbucket hne (ht0.size+1) idx ev hj
        (by omega) hempty
      rw [hskip, ok_bind]
      dsimp only
      split
      · exact Rehashed.refl ok0 ok1 h3 true
      · obtain ⟨chain, hchain⟩ : ∃ chain, (buckets ht0)[s.1]? = some chain :=
          ⟨_, getElem?_eq_getElem (by omega)⟩
        have hi : s.1 < (buckets ht0).length := by omega
        rw [tableLoad_eq_ok.2 hchain, ok_bind]
        apply Yields.bind (moveChain_yields chain ht0 ht1 ok1 hsome hs)
        rintro ⟨m0, m1⟩ ⟨hm0, hok1, hshape1, hperm1⟩
        dsimp only at hm0 hok1 hshape1 hperm1 ⊢
        subst hm0
        rw [tableStore_eq (by simpa using hi), ok_bind]
        have hcount := (flatten_perm_of_getElem? hchain).length_eq
        rw [length_append, ← htEntries, ← ok0.counted] at hcount
        have hok0 : HtOk ty { withBucket ht0 s.1 [] with used := ht0.used-chain.length } := by
          apply ok0.store hchain
          · intro e he
            cases he
          · simp only [length_nil]
            omega
        apply Yields.mono (ih (n-1) s.2.1 _ m1 (s.1+1) hok0 hok1 (hshape1.2.2 ▸ hsome)
          (emptyBelow_withBucket h3) (fun h => hshape1.1 ▸ hs h) (by omega) (by
            rw [buckets_used, buckets_withBucket, length_set]
            omega))
        intro r hr
        refine ⟨hr.ok0, hr.ok1, hr.shape0.trans (sameShape_withBucket _ _ _ _),
          hr.shape1.trans hshape1, hr.empty, ?_⟩
        calc htEntries r.1 ++ htEntries r.2.1
          _ ~ htEntries (withBucket ht0 s.1 []) ++ htEntries m1 := hr.perm
          _ ~ ((buckets ht0).eraseIdx s.1).flatten ++ (chain ++ htEntries ht1) :=
            (htEntries_withBucket hi []).append hperm1
          _ ~ chain ++ ((buckets ht0).eraseIdx s.1).flatten ++ htEntries ht1 := by
            rw [← append_assoc]
            exact perm_append_comm.append_right _
          _ ~ htEntries ht0 ++ htEntries ht1 :=
            (flatten_perm_of_getElem? hchain).symm.append_right _

/-- No table is larger than before, and the first one is still there. -/
structure Keeps (d d' : Dict K V) : Prop where
  sizes : ∀ b, d.ht0.size ≤ b ∧ d.ht1.size ≤ b → d'.ht0.size ≤ b ∧ d'.ht1.size ≤ b
  table : d.ht0.table.isSome → d'.ht0.table.isSome

theorem Keeps.refl (d : Dict K V) : Keeps d d := ⟨fun _ => id, id⟩

theorem Keeps.sized {d d' : Dict K V} (h : Keeps d d') (hd : Sized d) : Sized d' := h.sizes (2^60) hd

theorem dictRehash_yields {d : Dict K V} (ok : TablesOk ty d) (n : BitVec 32) :
    Yields (Sized d) (dictRehash ty d n) (fun r => TablesOk ty r.1 ∧ Keeps d r.1 ∧
      r.1.iterators = d.iterators ∧ entries r.1 ~ entries d) := by
  cases hidx : d.rehashidx with
  | none =>
    simp only [dictRehash, hidx]
    exact ⟨ok, .refl d, rfl, Perm.refl _⟩
  | some idx =>
    obtain ⟨hsome0, hsome1, hempty⟩ := ok.moving idx hidx
    simp only [dictRehash, hidx]
    have hbound : (buckets d.ht0).length ≤ d.ht0.size := by
      rw [ok.ok0.alloc, allocatedBuckets, sizeofPointer]
      omega
    apply Yields.bind (rehashLoop_yields (d.ht0.size+1) n (n*10) d.ht0 d.ht1 idx ok.ok0 ok.ok1
      hsome1 hempty (fun h => h.2) (by omega) (by omega))
    intro r hr
    have hsome : r.1.table.isSome ∧ r.2.1.table.isSome :=
      ⟨hr.shape0.2.2 ▸ hsome0, hr.shape1.2.2 ▸ hsome1⟩
    have hsize (b : ℕ) : d.ht0.size ≤ b ∧ d.ht1.size ≤ b → r.1.size ≤ b ∧ r.2.1.size ≤ b := by
      rw [hr.shape0.1, hr.shape1.1]
      exact id
    have hgoing : TablesOk ty { d with ht0 := r.1, ht1 := r.2.1, rehashidx := some r.2.2.1 } := by
      refine ⟨hr.ok0, hr.ok1, fun h => (by cases h), ?_⟩
      intro i hi
      cases hi
      exact ⟨hsome.1, hsome.2, hr.empty⟩
    split
    · exact ⟨hgoing, ⟨hsize, fun _ => hsome.1⟩, rfl, hr.perm⟩
    · split
      next hdone =>
        -- the first table has run empty: the second one takes its place
        have hnil : htEntries r.1 = [] := by
          rw [← length_eq_zero_iff, ← hr.ok0.counted]
          exact hdone
        refine ⟨⟨hr.ok1, htOk_reset, fun _ => rfl, fun i hi => (by cases hi)⟩,
          ⟨fun b h => ⟨(hsize b h).2, Nat.zero_le b⟩, fun _ => hsome.2⟩, rfl, ?_⟩
        calc htEntries r.2.1 ++ htEntries _dictReset
          _ = htEntries r.1 ++ htEntries r.2.1 := by simp [hnil]
          _ ~ entries d := hr.perm
      · exact ⟨hgoing, ⟨hsize, fun _ => hsome.1⟩, rfl, hr.perm⟩

theorem rehashIfNeeded_yields {d : Dict K V} (ok : TablesOk ty d) :
    Yields (Sized d) (rehashIfNeeded ty d) (fun d' => TablesOk ty d' ∧ Keeps d d' ∧
      d'.iterators = d.iterators ∧ entries d' ~ entries d) := by
  have hsame : TablesOk ty d ∧ Keeps d d ∧ d.iterators = d.iterators ∧
      entries d ~ entries d := ⟨ok, .refl d, rfl, Perm.refl _⟩
  unfold rehashIfNeeded _dictRehashStep
  split
  · split
    · exact Yields.bind (dictRehash_yields ok 1) (fun r hr => hr)
    · exact hsame
  · exact hsame

end RedisCore.HashDict
