import RedisCore.DictModel

namespace RedisCore.HashDict

open List

section Lists

variable {α : Type}

theorem flatten_perm_of_getElem? {t : List (List α)} {i : ℕ} {c : List α}
    (h : t[i]? = some c) : t.flatten ~ c ++ (t.eraseIdx i).flatten := by
  obtain ⟨hi, rfl⟩ := List.getElem?_eq_some_iff.mp h
  exact (getElem_cons_eraseIdx_perm hi).symm.flatten

theorem flatten_set_perm {t : List (List α)} {i : ℕ} (hi : i < t.length) (c : List α) :
    (t.set i c).flatten ~ c ++ (t.eraseIdx i).flatten :=
  (set_perm_cons_eraseIdx hi c).flatten

end Lists

variable {K V : Type}

def buckets (ht : DictHt K V) : List (List (DictEntry K V)) := ht.table.getD []

def htEntries (ht : DictHt K V) : List (DictEntry K V) := (buckets ht).flatten

def withBucket (ht : DictHt K V) (idx : ℕ) (chain : List (DictEntry K V)) : DictHt K V :=
  { ht with table := ht.table.map (·.set idx chain) }

@[simp] theorem buckets_withBucket (ht : DictHt K V) (idx : ℕ) (chain : List (DictEntry K V)) :
    buckets (withBucket ht idx chain) = (buckets ht).set idx chain := by
  cases h : ht.table with
  | none => simp [buckets, withBucket, h]
  | some t => simp [buckets, withBucket, h]

@[simp] theorem withBucket_used (ht : DictHt K V) (idx : ℕ) (chain : List (DictEntry K V)) :
    (withBucket ht idx chain).used = ht.used := rfl

@[simp] theorem buckets_used (ht : DictHt K V) (n : ℕ) :
    buckets { ht with used := n } = buckets ht := rfl

@[simp] theorem htEntries_used (ht : DictHt K V) (n : ℕ) :
    htEntries { ht with used := n } = htEntries ht := rfl

@[simp] theorem bucketIdx_used (ht : DictHt K V) (n : ℕ) (h : BitVec 64) :
    bucketIdx { ht with used := n } h = bucketIdx ht h := rfl

@[simp] theorem bucketIdx_withBucket (ht : DictHt K V) (idx : ℕ) (chain : List (DictEntry K V))
    (h : BitVec 64) : bucketIdx (withBucket ht idx chain) h = bucketIdx ht h := rfl

@[simp] theorem withBucket_isSome (ht : DictHt K V) (idx : ℕ) (chain : List (DictEntry K V)) :
    (withBucket ht idx chain).table.isSome = ht.table.isSome := by
  simp [withBucket]

variable {ht : DictHt K V} {idx n : ℕ} {chain : List (DictEntry K V)}

theorem tableLoad_eq_ok : tableLoad ht idx = .ok chain ↔ (buckets ht)[idx]? = some chain := by
  cases h : ht.table with
  | none => simp [tableLoad, buckets, h]
  | some t =>
    cases hi : t[idx]? with
    | none => simp [tableLoad, buckets, h, hi]
    | some c => simp [tableLoad, buckets, h, hi]

theorem tableStore_eq (hi : idx < (buckets ht).length) : tableStore ht idx chain = .ok
    (withBucket ht idx chain) := by
  cases h : ht.table with
  | none => simp [buckets, h] at hi
  | some t =>
    have hlt : idx < t.length := by simpa [buckets, h] using hi
    simp [tableStore, withBucket, h, hlt]

theorem tableLoad_yields {S : Prop} (hs : S → idx < (buckets ht).length) :
    Yields S (tableLoad ht idx) (fun chain => (buckets ht)[idx]? = some chain) := by
  cases h : tableLoad ht idx with
  | ok chain => exact tableLoad_eq_ok.1 h
  | error e =>
    intro hS
    have hok := tableLoad_eq_ok.2 (getElem?_eq_getElem (hs hS))
    rw [h] at hok
    cases hok

/-- The invariant of one table: a power of two of buckets, as many as were allocated, every
entry in the bucket of its hash, and an exact count. -/
structure HtOk (ty : DictType K V) (ht : DictHt K V) : Prop where
  alloc : (buckets ht).length = allocatedBuckets ht.size
  shape : ht = _dictReset ∨ (ht.table.isSome ∧ ∃ k, k ≤ 63 ∧ ht.size = 2^k ∧
    ht.sizemask = BitVec.ofNat 64 (2^k-1))
  placed : ∀ i chain, (buckets ht)[i]? = some chain →
    ∀ e ∈ chain, bucketIdx ht (ty.hashFunction e.key) = i
  counted : ht.used = (htEntries ht).length

def SameShape (a b : DictHt K V) : Prop :=
  a.size = b.size ∧ a.sizemask = b.sizemask ∧ a.table.isSome = b.table.isSome

theorem SameShape.trans {a b c : DictHt K V} (h : SameShape a b) (h' : SameShape b c) :
    SameShape a c := by
  exact ⟨h.1.trans h'.1, h.2.1.trans h'.2.1, h.2.2.trans h'.2.2⟩

theorem allocatedBuckets_of_le (h : n ≤ 2^60) : allocatedBuckets n = n := by
  unfold allocatedBuckets sizeofPointer
  omega

variable {ty : DictType K V}

@[simp] theorem htEntries_reset : htEntries (_dictReset : DictHt K V) = [] := rfl

theorem htOk_reset : HtOk ty (_dictReset : DictHt K V) where
  alloc := by simp [buckets, _dictReset, allocatedBuckets]
  shape := Or.inl rfl
  placed := by intro i chain h; simp [buckets, _dictReset] at h
  counted := by simp [htEntries, buckets, _dictReset]

theorem bucketIdx_lt (ok : HtOk ty ht) (hsome : ht.table.isSome)
    (h : BitVec 64) : bucketIdx ht h < ht.size := by
  rcases ok.shape with he | ⟨-, k, hk, hsize, hmask⟩
  · rw [he] at hsome
    cases hsome
  · have hpow : 2^k ≤ 2^63 := Nat.pow_le_pow_right (by decide) hk
    have hpos : 0 < 2^k := Nat.two_pow_pos k
    rw [bucketIdx, hmask, hsize, BitVec.toNat_and, BitVec.toNat_ofNat,
      Nat.mod_eq_of_lt (by omega), Nat.and_two_pow_sub_one_eq_mod]
    exact Nat.mod_lt _ hpos

theorem bucketIdx_lt_length (ok : HtOk ty ht) (hsome : ht.table.isSome)
    (hsize : ht.size ≤ 2^60) (h : BitVec 64) : bucketIdx ht h < (buckets ht).length := by
  rw [ok.alloc, allocatedBuckets_of_le hsize]
  exact bucketIdx_lt ok hsome h

theorem mem_htEntries {e : DictEntry K V} :
    e ∈ htEntries ht ↔ ∃ (i : ℕ) (chain : List (DictEntry K V)), (buckets ht)[i]? = some chain ∧ e ∈ chain := by
  rw [htEntries, mem_flatten]
  constructor
  · rintro ⟨chain, hc, he⟩
    obtain ⟨i, hi⟩ := getElem?_of_mem hc
    exact ⟨i, chain, hi, he⟩
  · rintro ⟨i, chain, hi, he⟩
    exact ⟨chain, mem_of_getElem? hi, he⟩

theorem htEntries_withBucket (hi : idx < (buckets ht).length) (chain : List (DictEntry K V)) :
    htEntries (withBucket ht idx chain) ~ chain ++ ((buckets ht).eraseIdx idx).flatten := by
  rw [htEntries, buckets_withBucket]
  exact flatten_set_perm hi chain

theorem HtOk.store (ok : HtOk ty ht) {old new : List (DictEntry K V)}
    (hold : (buckets ht)[idx]? = some old)
    (hnew : ∀ e ∈ new, bucketIdx ht (ty.hashFunction e.key) = idx)
    (hn : n+old.length = ht.used+new.length) :
    HtOk ty { withBucket ht idx new with used := n } where
  alloc := by
    rw [buckets_used, buckets_withBucket, length_set]
    exact ok.alloc
  shape := by
    obtain ⟨hi, -⟩ := List.getElem?_eq_some_iff.mp hold
    rcases ok.shape with he | ⟨hs, hk⟩
    · rw [he] at hi
      simp [buckets, _dictReset] at hi
    · right
      exact ⟨by simpa using hs, hk⟩
  placed := by
    intro i chain hc e he
    rw [buckets_used, buckets_withBucket, getElem?_set] at hc
    rw [bucketIdx_used, bucketIdx_withBucket]
    by_cases h : idx = i
    · subst h
      obtain ⟨hi, -⟩ := List.getElem?_eq_some_iff.mp hold
      have hchain : new = chain := by simpa [hi] using hc
      exact hnew e (hchain ▸ he)
    · exact ok.placed i chain (by simpa [h] using hc) e he
  counted := by
    obtain ⟨hi, -⟩ := List.getElem?_eq_some_iff.mp hold
    have h1 := (htEntries_withBucket hi new).length_eq
    have h2 := (flatten_perm_of_getElem? hold).length_eq
    have h3 := ok.counted
    rw [length_append] at h1 h2
    rw [htEntries] at h3
    rw [htEntries_used, h1]
    show n = _
    omega

theorem sameShape_withBucket (ht : DictHt K V) (idx n : ℕ) (chain : List (DictEntry K V)) :
    SameShape { withBucket ht idx chain with used := n } ht :=
  ⟨rfl, rfl, withBucket_isSome ht idx chain⟩

end RedisCore.HashDict
