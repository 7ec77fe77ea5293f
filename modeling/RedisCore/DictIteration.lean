import RedisCore.DictRefinement
import RedisCore.DictIterator

namespace RedisCore.HashDict

open List ChainWalk

section Next

variable {K V : Type} {ty : DictType K V}

structure Standing (d : Dict K V) (iter : DictIterator K) (p : ℕ) (pre rest : List K) : Prop where
  chain : (chainKeys d)[p]? = some (pre ++ rest)
  slot : p = slotOf d iter.table iter.index.toNat
  index : 0 ≤ iter.index
  entry : iter.entry.isSome
  next : iter.nextEntry = rest.head?
  first : iter.table = false → iter.index.toNat < (buckets d.ht0).length
  second : iter.table = true → dictIsRehashing d

structure Between (d : Dict K V) (iter : DictIterator K) (s : ℕ) : Prop where
  entry : iter.entry = none
  slot : s = slotOf d iter.table (iter.index+1).toNat
  index : -1 ≤ iter.index
  first : iter.table = false → (iter.index+1).toNat ≤ (buckets d.ht0).length
  second : iter.table = true → dictIsRehashing d ∧ 0 ≤ iter.index ∧
    (iter.index+1).toNat ≤ (buckets d.ht1).length

theorem length_chainKeys (d : Dict K V) :
    (chainKeys d).length = (buckets d.ht0).length+(buckets d.ht1).length := by
  rw [chainKeys, length_map, length_append]

variable {ht : DictHt K V} {i : ℤ} {key : K} {chain : List (DictEntry K V)} {pre rest : List K}
  {d : Dict K V} {p s : ℕ} {again : DictIterator K → Except Fault (NextResult K V)}

theorem buckets_le_size (ok : HtOk ty ht) : (buckets ht).length ≤ ht.size := by
  rw [ok.alloc, allocatedBuckets, sizeofPointer]
  omega

theorem buckets_le_of_castLong (ok : HtOk ty ht) (hi : 0 ≤ i)
    (h : castLong ht.size ≤ i) : (buckets ht).length ≤ i.toNat := by
  rcases ok.shape with he | ⟨-, k, hk, hsize, -⟩
  · rw [he]
    exact Nat.zero_le _
  · have hlen := buckets_le_size ok
    rcases Nat.lt_or_ge k 63 with hlt | hge
    · have hpow : 2^k ≤ 2^62 := Nat.pow_le_pow_right (by decide) (by omega)
      have hcast : castLong ht.size = (2^k : ℕ) := by
        have hnat : (BitVec.ofNat 64 (2^k)).toNat = 2^k := by
          rw [BitVec.toNat_ofNat, Nat.mod_eq_of_lt (by omega)]
        rw [castLong, hsize, BitVec.toInt_eq_toNat_of_lt (by omega), hnat]
      omega
    · have h63 : k = 63 := by omega
      rw [ok.alloc, hsize, h63]
      exact Nat.zero_le _

theorem lt_size_of_castLong {size : ℕ} (hi : 0 ≤ i) (h : ¬castLong size ≤ i) : i.toNat < size := by
  have hle : castLong size ≤ (BitVec.ofNat 64 size).toNat := by
    rw [castLong, BitVec.toInt_eq_toNat_cond]
    split <;> omega
  have hmod : (BitVec.ofNat 64 size).toNat ≤ size := by
    rw [BitVec.toNat_ofNat]
    exact Nat.mod_le _ _
  omega

variable [DecidableEq K]

theorem fromEntry_eq (h : chain.map DictEntry.key = pre ++ key :: rest) (hno : key ∉ pre) :
    ∃ he next, fromEntry key chain = some (he, next) ∧ he.key = key ∧
      next.map DictEntry.key = rest := by
  obtain ⟨c1, c2, rfl, hc1, hc2⟩ := map_eq_append_iff.mp h
  obtain ⟨he, next, rfl, hhe, hnext⟩ := map_eq_cons_iff.mp hc2
  have hskip : ∀ x ∈ c1, (x.key != key) = true := by
    intro x hx
    rw [bne_iff_ne]
    intro hkey
    apply hno
    rw [← hc1, ← hkey]
    exact mem_map_of_mem hx
  refine ⟨he, next, ?_, hhe, hnext⟩
  rw [fromEntry, dropWhile_append_of_pos hskip, dropWhile_cons_of_neg (by simp [hhe])]

theorem fromEntry_none (h : key ∉ chain.map DictEntry.key) : fromEntry key chain = none := by
  have hskip : ∀ x ∈ chain, (x.key != key) = true := by
    intro x hx
    rw [bne_iff_ne]
    intro hkey
    apply h
    rw [← hkey]
    exact mem_map_of_mem hx
  rw [fromEntry, dropWhile_eq_nil_iff.mpr hskip]

theorem derefEntry_eq (hnodup : (chainKeys d).flatten.Nodup)
    (h : (chainKeys d)[p]? = some (pre ++ key :: rest)) :
    ∃ he next, derefEntry d key = .ok (he, next) ∧ he.key = key ∧
      next.map DictEntry.key = rest := by
  rw [← behind_append_ahead h, behind, append_assoc] at hnodup
  obtain ⟨-, hright, hdisj⟩ := nodup_append.mp hnodup
  obtain ⟨-, -, hdisj'⟩ := nodup_append.mp hright
  have hahead : key ∈ ahead (chainKeys d) p (key :: rest) := mem_append_left _ mem_cons_self
  rw [chainKeys, getElem?_map, Option.map_eq_some_iff] at h
  obtain ⟨chain, hchain, hkeys⟩ := h
  obtain ⟨hlt, hget⟩ := List.getElem?_eq_some_iff.mp hchain
  obtain ⟨he, next, hfrom, hhe, hnext⟩ := fromEntry_eq hkeys (fun hpre =>
    hdisj' key hpre key hahead rfl)
  have hfind : (buckets d.ht0 ++ buckets d.ht1).findSome? (fromEntry key) = some (he, next) := by
    rw [findSome?_eq_some_iff]
    refine ⟨(buckets d.ht0 ++ buckets d.ht1).take p, chain,
      (buckets d.ht0 ++ buckets d.ht1).drop (p+1), ?_, hfrom, ?_⟩
    · rw [← hget, getElem_cons_drop, take_append_drop]
    · intro c hc
      apply fromEntry_none
      intro hmem
      have hflat : key ∈ ((chainKeys d).take p).flatten := by
        rw [chainKeys, ← map_take]
        exact mem_flatten.mpr ⟨_, mem_map_of_mem hc, hmem⟩
      exact hdisj key hflat key (mem_append_right _ hahead) rfl
  refine ⟨he, next, ?_, hhe, hnext⟩
  rw [derefEntry, hfind]

def counted (d : Dict K V) (iter : DictIterator K) : Dict K V :=
  if neverAdvanced iter then { d with iterators := d.iterators+1 } else d

omit [DecidableEq K] in
theorem chainKeys_counted (d : Dict K V) (iter : DictIterator K) :
    chainKeys (counted d iter) = chainKeys d := by
  rw [counted]
  split <;> rfl

omit [DecidableEq K] in
theorem tablesOk_counted (ok : TablesOk ty d) (iter : DictIterator K) :
    TablesOk ty (counted d iter) := by
  rw [counted]
  split
  · exact ⟨ok.ok0, ok.ok1, ok.idle, ok.moving⟩
  · exact ok

def Found (d : Dict K V) (passed todo : List K) (iter : DictIterator K) :
    Option (DictEntry K V) → Prop
  | none => todo = [] ∧ neverAdvanced iter = false
  | some he => ∃ p pre rest, Standing d iter p pre rest ∧
      behind (chainKeys d) p pre = passed ++ [he.key] ∧
      todo = he.key :: ahead (chainKeys d) p rest

theorem returnEntry_found (hnodup : (chainKeys d).flatten.Nodup)
    {iter : DictIterator K} (h : (chainKeys d)[p]? = some (pre ++ key :: rest))
    (hslot : p = slotOf d iter.table iter.index.toNat) (hindex : 0 ≤ iter.index)
    (hfirst : iter.table = false → iter.index.toNat < (buckets d.ht0).length)
    (hsecond : iter.table = true → dictIsRehashing d) :
    ∃ iter' he, returnEntry d iter key = .ok (d, iter', some he) ∧
      Found d (behind (chainKeys d) p pre) (ahead (chainKeys d) p (key :: rest)) iter'
        (some he) := by
  obtain ⟨he, next, hderef, hhe, hnext⟩ := derefEntry_eq hnodup h
  refine ⟨{ iter with entry := some key, nextEntry := headPointer next }, he, ?_, p, pre ++ [key],
    rest, ⟨?_, hslot, hindex, rfl, ?_, hfirst, hsecond⟩, ?_, ?_⟩
  · simp only [returnEntry, hderef, ok_bind]
  · rw [h, append_assoc]
    rfl
  · dsimp only
    rw [headPointer, ← hnext, head?_map]
  · rw [behind, behind, append_assoc, hhe]
  · rw [hhe]
    rfl

omit [DecidableEq K] in
theorem found_skip (h : (chainKeys d)[s]? = some [])
    {iter : DictIterator K} {e : Option (DictEntry K V)}
    (hfound : Found d ((chainKeys d).take (s+1)).flatten ((chainKeys d).drop (s+1)).flatten
      iter e) :
    Found d ((chainKeys d).take s).flatten ((chainKeys d).drop s).flatten iter e := by
  have htake : ((chainKeys d).take (s+1)).flatten = ((chainKeys d).take s).flatten := by
    rw [take_add_one, h, Option.toList_some, flatten_append, flatten_singleton, append_nil]
  have hdrop : ((chainKeys d).drop s).flatten = ((chainKeys d).drop (s+1)).flatten := by
    rw [drop_of_slot h, flatten_cons, nil_append]
  rw [hdrop, ← htake]
  exact hfound

def SearchesFrom (d : Dict K V) (s : ℕ) (x : Except Fault (NextResult K V)) : Prop :=
  Yields (Sized d) x (fun r => r.1 = d ∧
    Found d ((chainKeys d).take s).flatten ((chainKeys d).drop s).flatten r.2.1 r.2.2)

theorem loadHead_searches (hnodup : (chainKeys d).flatten.Nodup) {iter : DictIterator K}
    (hindex : 0 ≤ iter.index) (hsecond : iter.table = true → dictIsRehashing d)
    (hin : Sized d → iter.index.toNat < (buckets (getHt d iter.table)).length)
    (hagain : Between d { iter with entry := none } (slotOf d iter.table iter.index.toNat+1) →
      SearchesFrom d (slotOf d iter.table iter.index.toNat+1) (again { iter with entry := none })) :
    SearchesFrom d (slotOf d iter.table iter.index.toNat) (loadHead again d iter) := by
  apply Yields.bind (tableLoad_yields hin)
  intro chain hload
  have hslot := chainKeys_slot hload
  obtain ⟨hlt, -⟩ := List.getElem?_eq_some_iff.mp hload
  cases chain with
  | nil =>
    apply (hagain ⟨rfl, ?_, ?_, ?_, ?_⟩).mono
    · rintro r ⟨h1, h2⟩
      exact ⟨h1, found_skip hslot h2⟩
    · rw [slotOf, slotOf]
      dsimp only
      split <;> omega
    · dsimp only
      omega
    · intro hfalse
      have hlt0 : iter.index.toNat < (buckets d.ht0).length := by
        rw [show iter.table = false from hfalse] at hlt
        exact hlt
      dsimp only
      omega
    · intro htrue
      have hlt1 : iter.index.toNat < (buckets d.ht1).length := by
        rw [show iter.table = true from htrue] at hlt
        exact hlt
      dsimp only
      exact ⟨hsecond htrue, hindex, by omega⟩
  | cons he next =>
    have hfirst : iter.table = false → iter.index.toNat < (buckets d.ht0).length := by
      intro hfalse
      rw [hfalse] at hlt
      exact hlt
    have hslot' : (chainKeys d)[slotOf d iter.table iter.index.toNat]? =
        some ([] ++ he.key :: next.map DictEntry.key) := hslot
    obtain ⟨iter', he', hrun, hfound⟩ := returnEntry_found hnodup hslot' rfl hindex hfirst hsecond
    have hhead : headPointer (he :: next) = some he.key := rfl
    rw [hhead]
    dsimp only
    rw [hrun]
    refine ⟨rfl, ?_⟩
    rw [behind, append_nil] at hfound
    have hdrop : ((chainKeys d).drop (slotOf d iter.table iter.index.toNat)).flatten =
        ahead (chainKeys d) (slotOf d iter.table iter.index.toNat)
          (he.key :: next.map DictEntry.key) := by
      rw [drop_of_slot hslot, flatten_cons]
      rfl
    rw [hdrop]
    exact hfound

theorem nextBucket_searches (ok : TablesOk ty d)
    (hnodup : (chainKeys d).flatten.Nodup) {iter : DictIterator K} (hs : s = slotOf d iter.table iter.index.toNat) (hindex : 0 ≤ iter.index)
    (hfirst : iter.table = false → iter.index.toNat ≤ (buckets d.ht0).length)
    (hsecond : iter.table = true → dictIsRehashing d ∧
      iter.index.toNat ≤ (buckets d.ht1).length)
    (hagain : ∀ iter', Between d iter' (s+1) → neverAdvanced iter' = false →
      SearchesFrom d (s+1) (again iter')) :
    SearchesFrom d s (nextBucket again d iter) := by
  have hadvanced (b : Bool) : neverAdvanced { iter with entry := none, table := b } = false := by
    have hne : ¬iter.index = -1 := by omega
    simp [neverAdvanced, hne]
  have hok := HtOk.placed_getHt ok iter.table
  unfold nextBucket
  split
  next hend =>
    have hpast := buckets_le_of_castLong hok hindex hend
    split
    next hswitch =>
      -- the first table is done and the second one is there: its first bucket follows
      have hre : dictIsRehashing d := (Bool.and_eq_true_iff.mp hswitch).1
      have htable : iter.table = false := by simpa using (Bool.and_eq_true_iff.mp hswitch).2
      have hlen := hfirst htable
      rw [htable] at hpast hs
      have hslot : s = slotOf d true 0 := by
        have hpast0 : (buckets d.ht0).length ≤ iter.index.toNat := hpast
        rw [hs, slotOf, if_neg Bool.false_ne_true, slotOf, if_pos rfl]
        omega
      obtain ⟨idx, hidx⟩ := Option.isSome_iff_exists.mp hre
      obtain ⟨-, hsome1, -⟩ := ok.moving idx hidx
      rw [hslot] at hagain ⊢
      apply loadHead_searches hnodup (le_refl 0) (fun _ => hre)
      · intro hsized
        have hpos := bucketIdx_lt_length ok.ok1 hsome1 hsized.2 0
        exact Nat.lt_of_le_of_lt (Nat.zero_le _) hpos
      · intro hbetween
        exact hagain _ hbetween (by simp [neverAdvanced])
    next hstop =>
      refine ⟨rfl, ?_, by simpa [neverAdvanced] using fun h => absurd h (by omega)⟩
      have hover : (chainKeys d).length ≤ s := by
        rw [length_chainKeys, hs]
        cases htable : iter.table with
        | false =>
          rw [htable, Bool.not_false, Bool.and_true] at hstop
          have hidle : d.rehashidx = none := by simpa [dictIsRehashing] using hstop
          have hht1 : buckets d.ht1 = [] := by
            rw [ok.idle hidle]
            rfl
          rw [htable] at hpast
          rw [hht1]
          exact hpast
        | true =>
          rw [htable] at hpast
          exact Nat.add_le_add_left hpast _
      rw [drop_eq_nil_of_le hover, flatten_nil]
  next hgo =>
    rw [hs] at hagain ⊢
    apply loadHead_searches hnodup hindex (fun h => (hsecond h).1)
    · intro hsized
      have hlt := lt_size_of_castLong hindex hgo
      have hsize : (getHt d iter.table).size ≤ 2^60 := by
        cases iter.table
        · exact hsized.1
        · exact hsized.2
      rw [hok.alloc, allocatedBuckets_of_le hsize]
      exact hlt
    · intro hbetween
      exact hagain _ hbetween (hadvanced iter.table)

theorem dictNextLoop_yields (ok : TablesOk ty d)
    (hnodup : (chainKeys d).flatten.Nodup) {fuel : ℕ} {iter : DictIterator K}
    (h : Between d iter s) (hfuel : (chainKeys d).length+1 < fuel+s) :
    Yields (Sized d) (dictNextLoop fuel d iter) (fun r => r.1 = counted d iter ∧
      Found d ((chainKeys d).take s).flatten ((chainKeys d).drop s).flatten r.2.1 r.2.2) := by
  induction fuel generalizing d iter s with
  | zero =>
    rw [length_chainKeys, h.slot] at hfuel
    cases htable : iter.table with
    | false =>
      have hlen := h.first htable
      rw [htable, slotOf, if_neg Bool.false_ne_true] at hfuel
      omega
    | true =>
      have hlen := (h.second htable).2.2
      rw [htable, slotOf, if_pos rfl] at hfuel
      omega
  | succ fuel ih =>
    -- the counter of iterators is nothing to the search
    have hround (n : ℕ) : SearchesFrom { d with iterators := n } s
        (nextBucket (dictNextLoop fuel { d with iterators := n }) { d with iterators := n }
          { iter with index := iter.index+1 }) := by
      have hindex := h.index
      have ok' : TablesOk ty { d with iterators := n } := ⟨ok.ok0, ok.ok1, ok.idle, ok.moving⟩
      apply nextBucket_searches ok' hnodup h.slot
      · dsimp only
        omega
      · exact h.first
      · exact fun htable => ⟨(h.second htable).1, (h.second htable).2.2⟩
      · intro iter' hbetween hadv
        have hlen : (chainKeys { d with iterators := n }).length+1 < fuel+(s+1) := by
          have hsame : (chainKeys { d with iterators := n }).length = (chainKeys d).length := rfl
          omega
        have hrun := ih ok' hnodup hbetween hlen
        rw [counted, hadv, if_neg Bool.false_ne_true] at hrun
        exact hrun
    have hrun : dictNextLoop (fuel+1) d iter = nextBucket (dictNextLoop fuel (counted d iter))
        (counted d iter) { iter with index := iter.index+1 } := by
      rw [dictNextLoop]
      split
      · rfl
      next hsome =>
        rw [h.entry] at hsome
        cases hsome
    rw [hrun, counted]
    have hfound (n : ℕ) (r : NextResult K V) (h : r.1 = { d with iterators := n } ∧
        Found { d with iterators := n } ((chainKeys d).take s).flatten
          ((chainKeys d).drop s).flatten r.2.1 r.2.2) : r.1 = { d with iterators := n } ∧
        Found d ((chainKeys d).take s).flatten ((chainKeys d).drop s).flatten r.2.1 r.2.2 := by
      obtain ⟨h1, h2⟩ := h
      refine ⟨h1, ?_⟩
      cases hr : r.2.2 with
      | none =>
        rw [hr] at h2
        exact h2
      | some he =>
        rw [hr] at h2
        obtain ⟨p, pre, rest, hstand, h3, h4⟩ := h2
        exact ⟨p, pre, rest, ⟨hstand.chain, hstand.slot, hstand.index, hstand.entry, hstand.next,
          hstand.first, hstand.second⟩, h3, h4⟩
    split
    · exact (hround (d.iterators+1)).mono (hfound _)
    · exact (hround d.iterators).mono (hfound _)

def Placed (d : Dict K V) (iter : DictIterator K) (passed todo : List K) : Prop :=
  (iter = dictGetSafeIterator ∧ passed = [] ∧ todo = (chainKeys d).flatten) ∨
    ∃ p pre rest, Standing d iter p pre rest ∧ passed = behind (chainKeys d) p pre ∧
      todo = ahead (chainKeys d) p rest

theorem dictNext_yields (ok : TablesOk ty d)
    (hnodup : (chainKeys d).flatten.Nodup) {iter : DictIterator K} {passed todo : List K}
    (h : Placed d iter passed todo) :
    Yields (Sized d) (dictNext d iter) (fun r => r.1 = counted d iter ∧
      Found d passed todo r.2.1 r.2.2) := by
  have h0 := buckets_le_size ok.ok0
  have h1 := buckets_le_size ok.ok1
  have hlen := length_chainKeys d
  rcases h with ⟨rfl, rfl, rfl⟩ | ⟨p, pre, rest, hstand, rfl, rfl⟩
  · have hbetween : Between d dictGetSafeIterator 0 :=
      ⟨rfl, rfl, le_refl _, fun _ => Nat.zero_le _, fun h => absurd h Bool.false_ne_true⟩
    exact dictNextLoop_yields ok hnodup hbetween (by omega)
  · have hne : ¬iter.index = -1 := by
      have := hstand.index
      omega
    have hadv : neverAdvanced iter = false := by simp [neverAdvanced, hne]
    have hcounted : counted d iter = d := by
      rw [counted, hadv, if_neg Bool.false_ne_true]
    obtain ⟨key0, hentry⟩ := Option.isSome_iff_exists.mp hstand.entry
    rw [hcounted]
    cases rest with
    | cons key rest =>
      rw [dictNext, dictNextLoop, hentry, show iter.nextEntry = some key from hstand.next]
      obtain ⟨iter', he, hrun, hfound⟩ := returnEntry_found hnodup hstand.chain hstand.slot
        hstand.index hstand.first (fun h => hstand.second h)
      dsimp only
      rw [hrun]
      exact ⟨rfl, hfound⟩
    | nil =>
      have hstart : dictNext d iter = dictNextLoop (d.ht0.size+d.ht1.size+2) d
          { iter with entry := none } := by
        rw [dictNext, dictNextLoop, hentry, show iter.nextEntry = none from hstand.next]
      rw [hstart]
      have hlt := (List.getElem?_eq_some_iff.mp hstand.chain).1
      have hslot := hstand.slot
      have hindex := hstand.index
      have hbetween : Between d { iter with entry := none } (p+1) := by
        refine ⟨rfl, ?_, ?_, ?_, ?_⟩
        · rw [hslot, slotOf, slotOf]
          dsimp only
          split <;> omega
        · dsimp only
          omega
        · intro htable
          have := hstand.first htable
          dsimp only
          omega
        · intro htable
          have htable' : iter.table = true := htable
          rw [htable', slotOf, if_pos rfl] at hslot
          dsimp only
          exact ⟨hstand.second htable, hindex, by omega⟩
      have hfuel : (chainKeys d).length+1 < (d.ht0.size+d.ht1.size+2)+(p+1) := by omega
      have hrun := dictNextLoop_yields ok hnodup hbetween hfuel
      have hcounted' : counted d { iter with entry := none } = d := hcounted
      rw [hcounted'] at hrun
      have hpassed : ((chainKeys d).take (p+1)).flatten = behind (chainKeys d) p pre := by
        rw [take_add_one, hstand.chain, Option.toList_some, flatten_append, flatten_singleton,
          append_nil]
        rfl
      rw [hpassed] at hrun
      exact hrun

end Next

section Caller

variable {K V : Type} {ty : DictType K V}

variable {d d' : Dict K V}

theorem Standing.moved {iter : DictIterator K} {p : ℕ} {pre pre' rest : List K}
    (h : Standing d iter p pre rest) (hslots : SameSlots d d')
    (hchain : (chainKeys d')[p]? = some (pre' ++ rest)) : Standing d' iter p pre' rest := by
  refine ⟨hchain, ?_, h.index, h.entry, h.next, ?_, fun htable => (hslots.second (h.second htable)).1⟩
  · rw [h.slot, slotOf, slotOf]
    cases htable : iter.table with
    | false => rfl
    | true =>
      rw [(hslots.second (h.second htable)).2]
  · intro htable
    exact Nat.lt_of_lt_of_le (h.first htable) hslots.first

variable [DecidableEq K]

theorem Lawful.isSame (law : Lawful ty) : IsSame (dictCompareKeys ty) :=
  ⟨law.refl, law.symm, law.trans⟩

/-- The state between two calls of `dictNext`: `n` is the counter before the iteration, and
`left` many keys are ahead. -/
structure Iterating (ty : DictType K V) (initial : List K) (n : ℕ) (iter : DictIterator K)
    (left : ℕ) (c : Caller K V) : Prop where
  tables : TablesOk ty c.dict
  iterators : c.dict.iterators = n+1
  returned : ∀ key, c.returned = some key → Outstanding (dictCompareKeys ty) key c.trace
  once : NeverTwice (dictCompareKeys ty) c.trace
  place : ∃ p pre rest, Standing c.dict iter p pre rest ∧
    (ahead (chainKeys c.dict) p rest).length = left ∧
    Walk (dictCompareKeys ty) initial (behind (chainKeys c.dict) p pre)
      (ahead (chainKeys c.dict) p rest) c.trace

variable {initial : List K} {n left : ℕ} {iter : DictIterator K} {c : Caller K V}

omit [DecidableEq K] in
theorem dictSize_eq_keys (ok : TablesOk ty d) : dictSize d = (chainKeys d).flatten.length := by
  rw [dictSize_eq ok, flatten_chainKeys, length_map]

theorem Iterating.update (law : Lawful ty) (h : Iterating ty initial n iter left c)
    (hup : Updated ty c.dict d') :
    ∃ left' ≤ left+1, Iterating ty initial n iter left' { c with dict := d' } ∧
      dictSize d' ≤ dictSize c.dict+1 := by
  obtain ⟨p, pre, rest, hstand, hleft, walk⟩ := h.place
  have hit : d'.iterators = n+1 := hup.slots.iterators.trans h.iterators
  rw [dictSize_eq_keys h.tables, dictSize_eq_keys hup.tables]
  obtain ⟨k, hkeys | ⟨q, chain, x, hq, hkeys, hnew⟩⟩ := hup.keys
  · obtain ⟨hp, hbehind, hahead⟩ := place_append_empty hstand.chain k
    rw [← hkeys] at hp hbehind hahead
    refine ⟨left, by omega, ⟨hup.tables, hit, h.returned, h.once, p, pre, rest,
      hstand.moved hup.slots hp, ?_, ?_⟩, ?_⟩
    · dsimp only
      rw [hahead, hleft]
    · dsimp only
      rw [hbehind, hahead]
      exact walk
    · rw [hkeys, flatten_append, flatten_replicate_nil, append_nil]
      omega
  · obtain ⟨hp, hbehind, hahead⟩ := place_append_empty hstand.chain k
    obtain ⟨pre', hp', hcase⟩ := place_setHead hp hq x
    have hlen := (flatten_set_head hq x).length_eq
    have hfresh : ∀ y ∈ behind (chainKeys c.dict) p pre ++ ahead (chainKeys c.dict) p rest,
        ¬dictCompareKeys ty x y := by
      intro y hy
      rw [behind_append_ahead hstand.chain, flatten_chainKeys, mem_map] at hy
      obtain ⟨e, he, rfl⟩ := hy
      exact hnew e he
    rw [hbehind, hahead, ← hkeys] at hcase
    rw [← hkeys] at hp' hlen
    rw [flatten_append, flatten_replicate_nil, append_nil, length_cons] at hlen
    have hstand' := hstand.moved hup.slots hp'
    -- the new key is behind the iterator or ahead of it
    rcases hcase with ⟨h1, h2⟩ | ⟨h1, h2⟩
    · refine ⟨left, by omega, ⟨hup.tables, hit, h.returned, h.once, p, pre', rest, hstand', ?_, ?_⟩,
        by omega⟩
      · dsimp only
        rw [h2, hleft]
      · dsimp only
        rw [h2]
        exact (walk.joinBehind hfresh).perm law.isSame h1.symm (Perm.refl _)
    · refine ⟨left+1, le_refl _, ⟨hup.tables, hit, h.returned, h.once, p, pre', rest, hstand', ?_,
        ?_⟩, by omega⟩
      · dsimp only
        rw [h2.length_eq, length_cons, hleft]
      · dsimp only
        rw [h1]
        exact (walk.joinBefore law.isSame hfresh).perm law.isSame (Perm.refl _) h2.symm

theorem callerStep_yields (law : Lawful ty) (h : Iterating ty initial n iter left c)
    (action : CallerAction K V) :
    Yields (Roomy c.dict) (callerStep ty c action) (fun c' =>
      (∃ left' ≤ left+1, Iterating ty initial n iter left' c' ∧
        dictSize c'.dict ≤ dictSize c.dict+1) ∧ (Roomy c.dict → Sized c'.dict)) := by
  have hit : c.dict.iterators ≠ 0 := by
    rw [h.iterators]
    exact Nat.succ_ne_zero n
  cases action with
  | deleteReturned =>
    rw [callerStep]
    cases hret : c.returned with
    | none => exact ⟨⟨left, by omega, h, by omega⟩, fun hs => hs.1⟩
    | some key =>
      obtain ⟨p, pre, rest, hstand, hleft, walk⟩ := h.place
      have hout := h.returned key hret
      have hmem : ∃ e ∈ entries c.dict, keyMatches ty key e := by
        obtain ⟨y, hy, hsame⟩ := walk.alive key hout
        rw [behind_append_ahead hstand.chain, flatten_chainKeys, mem_map] at hy
        obtain ⟨e, he, rfl⟩ := hy
        exact ⟨e, he, (keyMatches_iff law).mpr (law.symm _ _ hsame)⟩
      apply Yields.bind ((dictDelete_slots law h.tables hit hmem).strengthen (fun hs => hs.1))
      rintro ⟨d', status⟩ ⟨rfl, ok', hsized, hslots, q, chain, j, x, hq, hj, hsame, hkeys⟩
      dsimp only at ok' hsized hslots hkeys ⊢
      rw [if_pos rfl]
      refine ⟨⟨left, by omega, ?_, ?_⟩, fun hs => hsized hs.1⟩
      · -- the key is not ahead, since it has been returned
        rcases place_eraseIdx hstand.chain hq hj with hahead | ⟨pre', hp', hbehind, hahead⟩
        · exact absurd (law.isSame.outstanding hsame hout) (walk.fresh x hahead)
        · rw [← hkeys] at hp' hbehind hahead
          refine ⟨ok', hslots.iterators.trans h.iterators, fun _ h => (by cases h),
            h.once.deleted key, p, pre', rest, hstand.moved hslots hp', ?_, ?_⟩
          · dsimp only
            rw [hahead, hleft]
          · dsimp only
            rw [hahead]
            exact (walk.perm law.isSame hbehind (Perm.refl _)).leave law.isSame
              (law.symm _ _ hsame)
      · have hlen := (flatten_set_eraseIdx hq hj).length_eq
        rw [← hkeys, length_cons] at hlen
        rw [dictSize_eq_keys ok', dictSize_eq_keys h.tables]
        omega
  | find key =>
    apply Yields.bind ((dictFind_unchanged law h.tables hit key).strengthen (fun hs => hs.1))
    rintro ⟨d', found⟩ hsame
    obtain rfl : d' = c.dict := hsame
    exact ⟨⟨left, by omega, h, Nat.le_succ _⟩, fun hs => hs.1⟩
  | replace canResize key val =>
    apply Yields.bind (dictReplace_updates law h.tables hit canResize key val)
    intro r hup
    exact ⟨h.update law hup, hup.sized⟩
  | add canResize key val =>
    apply Yields.bind (dictAdd_updates law h.tables hit canResize key val)
    intro r hup
    exact ⟨h.update law hup, hup.sized⟩

theorem callerSteps_yields (law : Lawful ty) (actions : List (CallerAction K V))
    (h : Iterating ty initial n iter left c) :
    Yields (Sized c.dict ∧ dictSize c.dict+actions.length ≤ 2^59)
      (actions.foldlM (callerStep ty) c) (fun c' =>
        (∃ left' ≤ left+actions.length, Iterating ty initial n iter left' c' ∧
          dictSize c'.dict ≤ dictSize c.dict+actions.length) ∧
        (Sized c.dict ∧ dictSize c.dict+actions.length ≤ 2^59 → Sized c'.dict)) := by
  induction actions generalizing c left with
  | nil => exact ⟨⟨left, le_refl _, h, le_refl _⟩, fun hs => hs.1⟩
  | cons action actions ih =>
    rw [foldlM_cons, length_cons]
    have hroomy : Sized c.dict ∧ dictSize c.dict+(actions.length+1) ≤ 2^59 → Roomy c.dict :=
      fun hs => ⟨hs.1, by omega⟩
    apply Yields.bind ((callerStep_yields law h action).strengthen hroomy)
    rintro c1 ⟨⟨left1, hle1, h1, hsize1⟩, hsized1⟩
    have hnext : Sized c.dict ∧ dictSize c.dict+(actions.length+1) ≤ 2^59 →
        Sized c1.dict ∧ dictSize c1.dict+actions.length ≤ 2^59 :=
      fun hs => ⟨hsized1 (hroomy hs), by omega⟩
    apply ((ih h1).strengthen hnext).mono
    rintro c2 ⟨⟨left2, hle2, h2, hsize2⟩, hsized2⟩
    exact ⟨⟨left2, by omega, h2, by omega⟩, fun hs => hsized2 (hnext hs)⟩

/-- What an iteration leaves: the counter as the iterator has moved it, nobody returned twice, and
once `dictNext` has returned `NULL` every key of the start that was not deleted returned once. -/
structure Iterated (ty : DictType K V) (initial : List K) (n : ℕ)
    (r : Dict K V × DictIterator K × List (WalkEvent K) × Bool) : Prop where
  iterators : r.1.iterators = if neverAdvanced r.2.1 then n else n+1
  once : NeverTwice (dictCompareKeys ty) r.2.2.1
  complete : r.2.2.2 = true → ∀ key ∈ initial, ¬WasDeleted (dictCompareKeys ty) key r.2.2.1 →
    timesReturned (dictCompareKeys ty) key r.2.2.1 = 1

theorem iterateLoop_yields (law : Lawful ty) (script : List (List (CallerAction K V)))
    (ok : TablesOk ty d) {iter : DictIterator K} {passed todo : List K}
    {trace : List (WalkEvent K)} (hplace : Placed d iter passed todo)
    (walk : Walk (dictCompareKeys ty) initial passed todo trace)
    (honce : NeverTwice (dictCompareKeys ty) trace)
    (hit : d.iterators = if neverAdvanced iter then n else n+1) :
    Yields (Sized d ∧ dictSize d+script.flatten.length ≤ 2^59)
      (iterateLoop ty script d iter trace) (fun r => Iterated ty initial n r ∧
        (todo.length+script.flatten.length < script.length → r.2.2.2 = true)) := by
  induction script generalizing d iter passed todo trace with
  | nil => exact ⟨⟨hit, honce, fun h => (by cases h)⟩, fun h => absurd h (Nat.not_lt_zero _)⟩
  | cons actions script ih =>
    have hflat : passed ++ todo = (chainKeys d).flatten := by
      rcases hplace with ⟨-, rfl, rfl⟩ | ⟨p, pre, rest, hstand, rfl, rfl⟩
      · rfl
      · exact behind_append_ahead hstand.chain
    have hnodup : (chainKeys d).flatten.Nodup := by
      rw [← hflat]
      apply walk.distinct.imp
      rintro a b hab rfl
      exact hab (law.refl a)
    rw [iterateLoop]
    apply Yields.bind ((dictNext_yields ok hnodup hplace).strengthen (fun hs => hs.1))
    rintro ⟨d1, iter1, found⟩ ⟨rfl, hfound⟩
    have hit1 : (counted d iter).iterators = n+1 := by
      rw [counted]
      cases hadv : neverAdvanced iter with
      | true => rw [if_pos rfl, hit, hadv, if_pos rfl]
      | false => rw [if_neg Bool.false_ne_true, hit, hadv, if_neg Bool.false_ne_true]
    cases found with
    | none =>
      obtain ⟨rfl, hadv⟩ := hfound
      refine ⟨⟨?_, honce, ?_⟩, fun _ => rfl⟩
      · rw [hadv, if_neg Bool.false_ne_true]
        exact hit1
      · intro _ key hkey hdel
        apply walk.visited key hkey hdel
        rintro ⟨x, hx, -⟩
        cases hx
    | some he =>
      obtain ⟨p, pre, rest, hstand, hbehind, rfl⟩ := hfound
      dsimp only at hstand hit1 ⊢
      have hiter : Iterating ty initial n iter1 (ahead (chainKeys d) p rest).length
          { dict := counted d iter, returned := some he.key, trace := .returned he.key :: trace } := by
        have hvisit := (walk.visit law.isSame).perm law.isSame
          (show he.key :: passed ~ behind (chainKeys d) p pre by
            rw [hbehind]
            exact (perm_append_singleton he.key passed).symm) (Perm.refl _)
        refine ⟨tablesOk_counted ok iter, hit1, ?_,
          honce.returned (walk.fresh he.key mem_cons_self), p, pre, rest, ?_, ?_, ?_⟩
        · rintro key ⟨rfl⟩
          exact Or.inl (law.refl _)
        · rw [counted]
          split
          · exact ⟨hstand.chain, hstand.slot, hstand.index, hstand.entry, hstand.next,
              hstand.first, hstand.second⟩
          · exact hstand
        · dsimp only
          rw [chainKeys_counted]
        · dsimp only
          rw [chainKeys_counted]
          exact hvisit
      have hcounted : Sized (counted d iter) = Sized d ∧
          dictSize (counted d iter) = dictSize d := by
        rw [counted]
        split <;> exact ⟨rfl, rfl⟩
      rw [flatten_cons, length_append]
      have hstart : Sized d ∧ dictSize d+(actions.length+script.flatten.length) ≤ 2^59 →
          Sized (counted d iter) ∧ dictSize (counted d iter)+actions.length ≤ 2^59 := by
        rw [hcounted.1, hcounted.2]
        exact fun hs => ⟨hs.1, by omega⟩
      apply Yields.bind ((callerSteps_yields law actions hiter).strengthen hstart)
      rintro c1 ⟨⟨left1, hle1, h1, hsize1⟩, hsized1⟩
      dsimp only at hsize1
      rw [hcounted.2] at hsize1
      obtain ⟨p1, pre1, rest1, hstand1, hleft1, walk1⟩ := h1.place
      have hadv1 : neverAdvanced iter1 = false := by
        have hindex := hstand1.index
        have hne : ¬iter1.index = -1 := by omega
        simp [neverAdvanced, hne]
      have hnext : Sized d ∧ dictSize d+(actions.length+script.flatten.length) ≤ 2^59 →
          Sized c1.dict ∧ dictSize c1.dict+script.flatten.length ≤ 2^59 := by
        intro hs
        exact ⟨hsized1 (hstart hs), by omega⟩
      have hrest := ih h1.tables (Or.inr ⟨p1, pre1, rest1, hstand1, rfl, rfl⟩) walk1 h1.once (by
        rw [hadv1, if_neg Bool.false_ne_true]
        exact h1.iterators)
      apply (hrest.strengthen hnext).mono
      rintro r ⟨hdone, hended⟩
      refine ⟨hdone, fun hlong => hended ?_⟩
      rw [length_cons, length_cons] at hlong
      omega

def oneKeyGrowing : Dict ℕ ℕ :=
  { ht0 := ⟨some [[⟨1, some 7⟩], [], [], []], 4, 3, 1⟩
    ht1 := newTable 8
    rehashidx := some 0
    iterators := 0 }

theorem oneKeyGrowing_inv : Inv natType oneKeyGrowing := by
  have hrun : runOps natType (dictCreate, true) [.add 1 7, .expand 8] =
      .ok ((oneKeyGrowing, true), [.status .ok, .done]) := by decide
  exact inv_of_run natType_lawful hrun (by decide)

end Caller

end RedisCore.HashDict
