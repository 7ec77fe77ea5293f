import RedisCore.DictRefinement
import RedisCore.ReversedOrder

namespace RedisCore.HashDict

open List ReversedOrder

section Reverse

def swapBlocks (s : ℕ) (mask v : BitVec 64) : BitVec 64 :=
  ((v >>> s) &&& mask) ||| ((v <<< s) &&& ~~~mask)

def swapFrom (s : ℕ) (mask : BitVec 64) (i : ℕ) : ℕ := if mask.getLsbD i then i+s else i-s

def MaskFor (s : ℕ) (mask : BitVec 64) : Prop :=
  ∀ i < 64, if mask.getLsbD i then i+s < 64 else s ≤ i

variable {s i : ℕ} {mask : BitVec 64}

theorem swapBlocks_getLsbD (hmask : MaskFor s mask) (v : BitVec 64) (hi : i < 64) :
    (swapBlocks s mask v).getLsbD i = v.getLsbD (swapFrom s mask i) := by
  have h := hmask i hi
  rw [swapBlocks, swapFrom, BitVec.getLsbD_or, BitVec.getLsbD_and, BitVec.getLsbD_and,
    BitVec.getLsbD_not, BitVec.getLsbD_shiftLeft, BitVec.getLsbD_ushiftRight]
  cases hm : mask.getLsbD i with
  | true => simp [Nat.add_comm]
  | false =>
    have hs : ¬ i < s := by
      rw [hm] at h
      simpa using h
    simp [hi, hs]

theorem swapFrom_lt (hmask : MaskFor s mask) (hi : i < 64) : swapFrom s mask i < 64 := by
  have h := hmask i hi
  rw [swapFrom]
  cases hm : mask.getLsbD i with
  | true => simpa [hm] using h
  | false =>
    simp only [Bool.false_eq_true, if_false]
    omega

theorem rev_rounds (v : BitVec 64) : rev v =
    swapBlocks 1 0x5555555555555555 (swapBlocks 2 0x3333333333333333
      (swapBlocks 4 0x0f0f0f0f0f0f0f0f (swapBlocks 8 0x00ff00ff00ff00ff
        (swapBlocks 16 0x0000ffff0000ffff (swapBlocks 32 0x00000000ffffffff v))))) := rfl

theorem rev_eq_reverse (v : BitVec 64) : rev v = v.reverse := by
  have h1 : MaskFor 1 0x5555555555555555 := by unfold MaskFor; decide
  have h2 : MaskFor 2 0x3333333333333333 := by unfold MaskFor; decide
  have h4 : MaskFor 4 0x0f0f0f0f0f0f0f0f := by unfold MaskFor; decide
  have h8 : MaskFor 8 0x00ff00ff00ff00ff := by unfold MaskFor; decide
  have h16 : MaskFor 16 0x0000ffff0000ffff := by unfold MaskFor; decide
  have h32 : MaskFor 32 0x00000000ffffffff := by unfold MaskFor; decide
  -- the six rounds together take bit `63-i` to position `i`
  have hidx : ∀ i < 64, swapFrom 32 0x00000000ffffffff (swapFrom 16 0x0000ffff0000ffff
      (swapFrom 8 0x00ff00ff00ff00ff (swapFrom 4 0x0f0f0f0f0f0f0f0f
        (swapFrom 2 0x3333333333333333 (swapFrom 1 0x5555555555555555 i))))) = 63-i := by
    decide
  apply BitVec.eq_of_getLsbD_eq
  intro i hi
  have i1 := swapFrom_lt h1 hi
  have i2 := swapFrom_lt h2 i1
  have i3 := swapFrom_lt h4 i2
  have i4 := swapFrom_lt h8 i3
  have i5 := swapFrom_lt h16 i4
  rw [rev_rounds, swapBlocks_getLsbD h1 _ hi, swapBlocks_getLsbD h2 _ i1,
    swapBlocks_getLsbD h4 _ i2, swapBlocks_getLsbD h8 _ i3, swapBlocks_getLsbD h16 _ i4,
    swapBlocks_getLsbD h32 _ i5, hidx i hi, BitVec.getLsbD_reverse, BitVec.getMsbD_eq_getLsbD]
  simp [hi]

end Reverse

section Scan

variable {K V : Type} {ty : DictType K V}

structure HasBits (ht : DictHt K V) (b : ℕ) : Prop where
  le : b ≤ 64
  size : ht.size = 2^b
  mask : ht.sizemask = lowMask 64 b

variable {ht : DictHt K V} {b last : ℕ} {v : BitVec 64}

theorem HtOk.hasBits (ok : HtOk ty ht) (hsome : ht.table.isSome) : ∃ b, HasBits ht b := by
  rcases ok.shape with h | ⟨-, k, hk, hsize, hmask⟩
  · rw [h] at hsome
    cases hsome
  · exact ⟨k, by omega, hsize, hmask⟩

theorem bucketIdx_eq_mod (h : HasBits ht b) (x : BitVec 64) : bucketIdx ht x = x.toNat%2^b := by
  rw [bucketIdx, h.mask, toNat_and_lowMask x h.le]

theorem bucketIdx_eq_iff (h : HasBits ht b) (x y : BitVec 64) :
    bucketIdx ht x = bucketIdx ht y ↔ position x/2^(64-b) = position y/2^(64-b) := by
  rw [bucketIdx_eq_mod h, bucketIdx_eq_mod h, block_eq_iff x y h.le]

theorem scanNext_eq (b : ℕ) (v : BitVec 64) : scanNext (lowMask 64 b) v = nextBlock b v := by
  rw [scanNext, rev_eq_reverse, rev_eq_reverse, nextBlock]

def Emitted (ty : DictType K V) (ht : DictHt K V) (first last : ℕ) (es : List (DictEntry K V)) :
    Prop :=
  ∀ e ∈ htEntries ht, first ≤ position (ty.hashFunction e.key) →
    position (ty.hashFunction e.key) < last → e ∈ es

theorem chain_emits (ok : HtOk ty ht) (hb : HasBits ht b) {chain : List (DictEntry K V)}
    (hc : (buckets ht)[bucketIdx ht v]? = some chain) :
    Emitted ty ht (position v) (blockEnd (2^(64-b)) (position v)) chain := by
  intro e he hfirst hlast
  obtain ⟨i, c, hi, hec⟩ := mem_htEntries.1 he
  have hplace := ok.placed i c hi e hec
  have hblock : position (ty.hashFunction e.key)/2^(64-b) = position v/2^(64-b) := by
    have hlow := Nat.div_le_div_right (c := 2^(64-b)) hfirst
    have hhigh := (Nat.div_lt_iff_lt_mul (Nat.two_pow_pos (64-b))).mpr hlast
    omega
  have hidx := (bucketIdx_eq_iff hb _ _).mpr hblock
  rw [← hplace, hidx, hc] at hi
  cases hi
  exact hec

theorem Emitted.append {x y z : ℕ} {as bs : List (DictEntry K V)}
    (ha : Emitted ty ht x y as) (hb : Emitted ty ht y z bs) : Emitted ty ht x z (as ++ bs) := by
  intro e he hfirst hlast
  rw [mem_append]
  rcases Nat.lt_or_ge (position (ty.hashFunction e.key)) y with h | h
  · exact Or.inl (ha e he hfirst h)
  · exact Or.inr (hb e he h hlast)

def IsEnd (v : BitVec 64) (last : ℕ) : Prop :=
  (0 < last ∧ position v = last) ∨ (last = 2^64 ∧ v = 0)

theorem IsEnd.of_zero (h : IsEnd 0 last) : last = 2^64 := by
  rcases h with ⟨h1, h2⟩ | ⟨h, -⟩
  · rw [position_eq_zero.2 rfl] at h2
    omega
  · exact h

theorem IsEnd.of_ne (h : IsEnd v last) (hv : v ≠ 0) : position v = last := by
  rcases h with ⟨-, h⟩ | ⟨-, h⟩
  · exact h
  · exact absurd h hv

theorem blockEnd_le_top (b : ℕ) (v : BitVec 64) :
    blockEnd (2^(64-b)) (position v) ≤ 2^64 :=
  blockEnd_le (pow_dvd_pow 2 (Nat.sub_le 64 b)) (position_lt v)

theorem isEnd_nextBlock (hb : b ≤ 64) (v : BitVec 64) :
    IsEnd (nextBlock b v) (blockEnd (2^(64-b)) (position v)) := by
  have hnext := position_nextBlock v hb
  have hpos := lt_blockEnd (Nat.two_pow_pos (64-b)) (position v)
  rcases Nat.lt_or_eq_of_le (blockEnd_le_top b v) with h | h
  · left
    rw [Nat.mod_eq_of_lt h] at hnext
    exact ⟨by omega, hnext⟩
  · right
    rw [h, Nat.mod_self] at hnext
    exact ⟨h, position_eq_zero.1 hnext⟩

theorem scanExpansions_yields {S : Prop} {t0 t1 : DictHt K V} (ok : HtOk ty t1)
    (hsome : t1.table.isSome) (hs : S → t1.size ≤ 2^60) {a : ℕ} (ha : HasBits t0 a)
    (hb : HasBits t1 b) (hab : a ≤ b) (fuel : ℕ) (v : BitVec 64) (last : ℕ)
    (hlast : last = blockEnd (2^(64-a)) (position v))
    (hfuel : last < blockEnd (2^(64-b)) (position v)+fuel*2^(64-b)) :
    Yields S (scanExpansions t1 t0.sizemask t1.sizemask fuel v) (fun r =>
      IsEnd r.1 last ∧ Emitted ty t1 (position v) last r.2) := by
  have hposA : 0 < 2^(64-a) := Nat.two_pow_pos _
  have hposB : 0 < 2^(64-b) := Nat.two_pow_pos _
  have hdvd : 2^(64-b) ∣ 2^(64-a) := pow_dvd_pow 2 (by omega)
  induction fuel generalizing v with
  | zero =>
    -- the smaller table's block contains the larger table's block
    have hle : blockEnd (2^(64-b)) (position v) ≤ last := by
      rw [hlast]
      exact blockEnd_le (hdvd.trans (Dvd.intro_left _ rfl)) (lt_blockEnd hposA _)
    omega
  | succ fuel ih =>
    rw [scanExpansions]
    apply Yields.bind (tableLoad_yields (fun h => bucketIdx_lt_length ok hsome (hs h) v))
    intro chain hc
    have hchain := chain_emits ok hb hc
    have hle : blockEnd (2^(64-b)) (position v) ≤ last := by
      rw [hlast]
      exact blockEnd_le (hdvd.trans (Dvd.intro_left _ rfl)) (lt_blockEnd hposA _)
    dsimp only
    rw [hb.mask, ha.mask, scanNext_eq]
    rcases isEnd_nextBlock hb.le v with ⟨hlt, hpos⟩ | ⟨htop, hzero⟩
    · have hblock : position (nextBlock b v)%2^(64-b) = 0 := by
        rw [hpos, blockEnd]
        exact Nat.mul_mod_left _ _
      split
      next hstop =>
        -- the loop stops at a block start of the smaller table: it is the next one
        have hdiv := (and_masks_eq_zero_iff hab hb.le hblock).mp hstop
        rw [hpos] at hdiv
        have hge : last ≤ blockEnd (2^(64-b)) (position v) := by
          rw [hlast]
          exact blockEnd_le (Nat.dvd_of_mod_eq_zero hdiv) (lt_blockEnd hposB _)
        have heq : blockEnd (2^(64-b)) (position v) = last := by omega
        rw [heq] at hlt hpos hchain
        exact ⟨Or.inl ⟨hlt, hpos⟩, hchain⟩
      next hgo =>
        have hne : blockEnd (2^(64-b)) (position v) ≠ last := by
          intro heq
          apply hgo
          rw [and_masks_eq_zero_iff hab hb.le hblock, hpos, heq, hlast, blockEnd]
          exact Nat.mul_mod_left _ _
        have hself : blockEnd (2^(64-b)) (blockEnd (2^(64-b)) (position v)) =
            blockEnd (2^(64-b)) (position v)+2^(64-b) := by
          rw [blockEnd, blockEnd, Nat.mul_div_cancel _ hposB, Nat.add_one_mul]
        have hrec := ih (nextBlock b v)
          (by
            rw [hpos, hlast]
            symm
            apply blockEnd_eq hposA (le_of_lt (lt_blockEnd hposB _))
            rw [← hlast]
            omega)
          (by
            rw [hpos, hself]
            rw [Nat.add_one_mul] at hfuel
            omega)
        rw [ha.mask, hb.mask] at hrec
        apply Yields.bind hrec
        rintro r ⟨hend, hemit⟩
        rw [hpos] at hemit
        exact ⟨hend, hchain.append hemit⟩
    · -- the order is exhausted, and with it the smaller table's block
      have htoplast : last = 2^64 := by
        have hup := blockEnd_le_top a v
        omega
      have hstop : (0 : BitVec 64) &&& (lowMask 64 a ^^^ lowMask 64 b) = 0 := BitVec.zero_and
      rw [hzero, if_pos hstop]
      rw [htop, ← htoplast] at hchain
      exact ⟨Or.inr ⟨htoplast, rfl⟩, hchain⟩

theorem smaller_larger {d : Dict K V} (ok : TablesOk ty d) {idx : ℕ} (hidx : d.rehashidx = some idx) :
    ∃ t0 t1, (if d.ht0.size > d.ht1.size then d.ht1 else d.ht0) = t0 ∧
      (if d.ht0.size > d.ht1.size then d.ht0 else d.ht1) = t1 ∧ HtOk ty t0 ∧ HtOk ty t1 ∧
      t0.table.isSome ∧ t1.table.isSome ∧ t0.size ≤ t1.size ∧
      (Sized d → t0.size ≤ 2^60 ∧ t1.size ≤ 2^60) ∧
      ∀ e, e ∈ entries d ↔ e ∈ htEntries t0 ∨ e ∈ htEntries t1 := by
  obtain ⟨hsome, hsome1, -⟩ := ok.moving idx hidx
  by_cases hgt : d.ht0.size > d.ht1.size
  · refine ⟨d.ht1, d.ht0, if_pos hgt, if_pos hgt, ok.ok1, ok.ok0, hsome1, hsome, le_of_lt hgt,
      fun h => ⟨h.2, h.1⟩, fun e => ?_⟩
    rw [mem_entries, or_comm]
  · exact ⟨d.ht0, d.ht1, if_neg hgt, if_neg hgt, ok.ok0, ok.ok1, hsome, hsome1, by omega,
      fun h => h, fun e => mem_entries⟩

theorem dictScan_yields {d : Dict K V} (ok : TablesOk ty d) (v : BitVec 64) :
    Yields (Sized d) (dictScan d v) (fun r => ∃ last, (IsEnd r.1 last ∨ entries d = []) ∧
      ∀ e ∈ entries d, position v ≤ position (ty.hashFunction e.key) →
        position (ty.hashFunction e.key) < last → e ∈ r.2) := by
  unfold dictScan
  split
  next hzero =>
    rw [dictSize_eq ok, length_eq_zero_iff] at hzero
    refine ⟨0, Or.inr hzero, ?_⟩
    intro e _ _ hlt
    omega
  next hne =>
    rw [dictSize_eq ok, length_eq_zero_iff] at hne
    have hsome := table_isSome_of_mem ok hne
    split
    next hre =>
      have hidle : d.rehashidx = none := by simpa [dictIsRehashing] using hre
      obtain ⟨b, hb⟩ := ok.ok0.hasBits hsome
      apply Yields.bind (tableLoad_yields (fun h => bucketIdx_lt_length ok.ok0 hsome h.1 v))
      intro chain hc
      rw [hb.mask, scanNext_eq]
      refine ⟨_, Or.inl (isEnd_nextBlock hb.le v), ?_⟩
      intro e he
      rw [entries, ok.idle hidle, htEntries_reset, append_nil] at he
      exact chain_emits ok.ok0 hb hc e he
    next hre =>
      obtain ⟨idx, hidx⟩ := Option.ne_none_iff_exists'.mp (by simpa [dictIsRehashing] using hre)
      obtain ⟨t0, t1, h0, h1, ok0, ok1, some0, some1, hle, hsz, hmem⟩ := smaller_larger ok hidx
      rw [h0, h1]
      obtain ⟨a, ha⟩ := ok0.hasBits some0
      obtain ⟨b, hb⟩ := ok1.hasBits some1
      have hab : a ≤ b := by
        rw [ha.size, hb.size] at hle
        exact (Nat.pow_le_pow_iff_right (by decide)).mp hle
      dsimp only
      apply Yields.bind (tableLoad_yields (fun h =>
        bucketIdx_lt_length ok0 some0 (hsz h).1 v))
      intro chain hc
      have hfuel : blockEnd (2^(64-a)) (position v) <
          blockEnd (2^(64-b)) (position v)+t1.size*2^(64-b) := by
        have htop := blockEnd_le_top a v
        have hpos : 0 < 2^(64-b) := Nat.two_pow_pos _
        have hlt := lt_blockEnd hpos (position v)
        have htile : t1.size*2^(64-b) = 2^64 := by
          rw [hb.size, ← pow_add, Nat.add_sub_cancel' hb.le]
        omega
      apply Yields.bind (scanExpansions_yields ok1 some1 (fun h => (hsz h).2) ha hb hab t1.size v
        _ rfl hfuel)
      rintro r ⟨hend, hemit⟩
      refine ⟨_, Or.inl hend, ?_⟩
      intro e he hfirst hlast
      rw [mem_append]
      rcases (hmem e).mp he with h | h
      · exact Or.inl (chain_emits ok0 ha hc e h hfirst hlast)
      · exact Or.inr (hemit e h hfirst hlast)

theorem emitted_or_ahead {hash : K → BitVec 64} {l : List (DictEntry K V)} {v next : BitVec 64} {last : ℕ}
    {es : List (DictEntry K V)} (hend : IsEnd next last ∨ l = [])
    (hemit : ∀ e ∈ l, position v ≤ position (hash e.key) →
      position (hash e.key) < last → e ∈ es) {e : DictEntry K V} (he : e ∈ l)
    (hpos : position v ≤ position (hash e.key)) :
    e ∈ es ∨ next ≠ 0 ∧ position next ≤ position (hash e.key) := by
  have hend : IsEnd next last := by
    rcases hend with h | h
    · exact h
    · rw [h] at he
      cases he
  by_cases hnext : next = 0
  · -- cursor 0 ends the order: no hash lies behind it
    rw [hnext] at hend
    exact Or.inl (hemit e he hpos (hend.of_zero ▸ position_lt _))
  · rw [hend.of_ne hnext]
    rcases Nat.lt_or_ge (position (hash e.key)) last with hlt | hge
    · exact Or.inl (hemit e he hpos hlt)
    · exact Or.inr ⟨hnext, hge⟩

end Scan

section Runs

variable {K V σ α : Type} (scan : σ → BitVec 64 → Except Fault (BitVec 64 × List (DictEntry K V)))
  (run : σ → α → Except Fault σ)

/-- A scan: calls, each with the cursor that the one before returned, and what is run between them.
The last cursor, the entries passed to the callback, and the state and the cursor at each call. -/
def runScan : σ → BitVec 64 → List α →
    Except Fault (BitVec 64 × List (DictEntry K V) × List (σ × BitVec 64))
  | s, v, [] => do
    let r ← scan s v
    .ok (r.1, r.2, [(s, v)])
  | s, v, a :: rounds => do
    let r ← scan s v
    if r.1 = 0 then .ok (0, r.2, [(s, v)])
    else
      let s' ← run s a
      let rest ← runScan s' r.1 rounds
      .ok (rest.1, r.2 ++ rest.2.1, (s, v) :: rest.2.2)

/-- `C` holds at every call, and `F` of what is run after it. -/
def ScanFits (C : σ → BitVec 64 → Prop) (F : σ → α → Prop) : σ → BitVec 64 → List α → Prop
  | s, v, [] => C s v
  | s, v, a :: rounds => C s v ∧ Yields False (scan s v) (fun r =>
      r.1 = 0 ∨ (F s a ∧ Yields False (run s a) (fun s' => ScanFits C F s' r.1 rounds)))

instance decidableScanFits (C : σ → BitVec 64 → Prop) (F : σ → α → Prop) [∀ s v, Decidable (C s v)]
    [∀ s a, Decidable (F s a)] : ∀ s v rounds, Decidable (ScanFits scan run C F s v rounds)
  | s, v, [] => inferInstanceAs (Decidable (C s v))
  | s, v, _ :: rounds =>
    have := fun s' v' => decidableScanFits C F s' v' rounds
    inferInstanceAs (Decidable (C s v ∧ Yields False (scan s v) _))

variable {scan run} {ents : σ → List (DictEntry K V)} {hash : K → BitVec 64} {I : σ → Prop}
  {C : σ → BitVec 64 → Prop} {F : σ → α → Prop}

/-- A call passes on what lies between its cursor and the next one; whatever is run in between, what lies
ahead of a cursor still does. -/
theorem runScan_covers
    (hscan : ∀ s v, I s → C s v → ∃ r last, scan s v = .ok r ∧ (IsEnd r.1 last ∨ ents s = []) ∧
      ∀ e ∈ ents s, position v ≤ position (hash e.key) → position (hash e.key) < last → e ∈ r.2)
    (hrun : ∀ s a, I s → F s a → ∃ s', run s a = .ok s' ∧ I s') (rounds : List α) {s : σ} {v : BitVec 64}
    (hs : I s) (hfit : ScanFits scan run C F s v rounds) : ∃ next es calls,
      runScan scan run s v rounds = .ok (next, es, calls) ∧ (next = 0 → ∀ key,
        (∀ c ∈ calls, ∃ e ∈ ents c.1, e.key = key) → position v ≤ position (hash key) →
        ∃ e ∈ es, e.key = key) := by
  induction rounds generalizing s v with
  | nil =>
    obtain ⟨r, last, hr, hend, hemit⟩ := hscan s v hs hfit
    refine ⟨r.1, r.2, [(s, v)], by rw [runScan, hr, ok_bind], ?_⟩
    intro hzero key hkey hpos
    obtain ⟨e, he, rfl⟩ := hkey _ mem_cons_self
    rcases emitted_or_ahead hend hemit he hpos with h | ⟨hne, -⟩
    · exact ⟨e, h, rfl⟩
    · exact absurd hzero hne
  | cons a rounds ih =>
    obtain ⟨r, last, hr, hend, hemit⟩ := hscan s v hs hfit.1
    have hnext := hfit.2
    rw [hr, yields_ok] at hnext
    by_cases hzero : r.1 = 0
    · refine ⟨0, r.2, [(s, v)], by rw [runScan, hr, ok_bind, if_pos hzero], ?_⟩
      intro _ key hkey hpos
      obtain ⟨e, he, rfl⟩ := hkey _ mem_cons_self
      rcases emitted_or_ahead hend hemit he hpos with h | ⟨hne, -⟩
      · exact ⟨e, h, rfl⟩
      · exact absurd hzero hne
    · obtain ⟨hF, hrest⟩ := hnext.resolve_left hzero
      obtain ⟨s', hs', inv'⟩ := hrun s a hs hF
      rw [hs', yields_ok] at hrest
      obtain ⟨next, es, calls, hcalls, hcovers⟩ := ih inv' hrest
      refine ⟨next, r.2 ++ es, (s, v) :: calls, ?_, ?_⟩
      · rw [runScan, hr, ok_bind, if_neg hzero, hs', ok_bind, hcalls, ok_bind]
      · intro hdone key hkey hpos
        obtain ⟨e, he, rfl⟩ := hkey _ mem_cons_self
        rcases emitted_or_ahead hend hemit he hpos with h | ⟨-, hle⟩
        · exact ⟨e, mem_append_left es h, rfl⟩
        · -- it lies ahead of the new cursor
          obtain ⟨e', he', hek'⟩ := hcovers hdone e.key (fun c hc => hkey c (mem_cons_of_mem _ hc)) hle
          exact ⟨e', mem_append_right r.2 he', hek'⟩

end Runs

section Coverage

variable {K V : Type} [DecidableEq K] (ty : DictType K V)

/-- A scan of a dict, with lists of dict operations between the calls. -/
def scanDict (s : Dict K V × Bool) (rounds : List (List (DictOp K V))) :
    Except Fault (BitVec 64 × List (DictEntry K V) × List ((Dict K V × Bool) × BitVec 64)) :=
  runScan (fun s v => dictScan s.1 v) (fun s ops => (runOps ty s ops).map Prod.fst) s 0 rounds

/-- Every operation between the calls stays within the bounds of the byte counts. -/
def FitsScan (s : Dict K V × Bool) (rounds : List (List (DictOp K V))) : Prop :=
  ScanFits (fun s v => dictScan s.1 v) (fun s ops => (runOps ty s ops).map Prod.fst) (fun _ _ => True)
    (FitsRun ty) s 0 rounds

instance (s : Dict K V × Bool) (rounds : List (List (DictOp K V))) : Decidable (FitsScan ty s rounds) :=
  decidableScanFits _ _ _ _ s 0 rounds

variable {ty}

/-- A scan that starts at cursor 0 does not fault, and if it ends with cursor 0 it has passed every key
to the callback that the dict holds at each call, for every hash function and whatever operations within
bounds happen between the calls. -/
theorem dictScan_covers (law : Lawful ty) {s : Dict K V × Bool} (inv : Inv ty s.1)
    (rounds : List (List (DictOp K V))) (hfit : FitsScan ty s rounds) : ∃ next es calls,
      scanDict ty s rounds = .ok (next, es, calls) ∧ (next = 0 → ∀ key,
        (∀ c ∈ calls, ∃ e ∈ entries c.1.1, e.key = key) → ∃ e ∈ es, e.key = key) := by
  have hcall (s : Dict K V × Bool) (v : BitVec 64) (inv : Inv ty s.1) (_ : True) :
      ∃ r last, dictScan s.1 v = .ok r ∧ (IsEnd r.1 last ∨ entries s.1 = []) ∧
        ∀ e ∈ entries s.1, position v ≤ position (ty.hashFunction e.key) →
          position (ty.hashFunction e.key) < last → e ∈ r.2 := by
    obtain ⟨r, hr, last, hend, hemit⟩ := (dictScan_yields inv.tables v).total inv.sized
    exact ⟨r, last, hr, hend, hemit⟩
  have hbetween (s : Dict K V × Bool) (ops : List (DictOp K V)) (inv : Inv ty s.1)
      (hops : FitsRun ty s ops) : ∃ s', (runOps ty s ops).map Prod.fst = .ok s' ∧ Inv ty s'.1 := by
    obtain ⟨r, hr, inv'⟩ := runOps_inv law inv hops
    exact ⟨r.1, by rw [hr]; rfl, inv'⟩
  obtain ⟨next, es, calls, hcalls, hcovers⟩ := runScan_covers hcall hbetween rounds inv hfit
  refine ⟨next, es, calls, hcalls, fun hdone key hkey => hcovers hdone key hkey ?_⟩
  rw [position_eq_zero.2 rfl]
  exact Nat.zero_le _

end Coverage

section Instances

def fourKeys : Dict ℕ ℕ :=
  { ht0 := ⟨some [[], [⟨9, some 4⟩, ⟨5, some 2⟩, ⟨1, some 1⟩], [], [⟨3, some 3⟩]], 4, 3, 4⟩
    ht1 := _dictReset
    rehashidx := none
    iterators := 0 }

theorem fourKeys_inv : Inv spreadType fourKeys := by
  have hrun : runOps spreadType (dictCreate, true) [.add 1 1, .add 5 2, .add 3 3, .add 9 4] =
      .ok ((fourKeys, true), [.status .ok, .status .ok, .status .ok, .status .ok]) := by decide
  exact inv_of_run spreadType_lawful hrun (by decide)

/-- The table grows after the first call, is rehashed while keys are added and deleted, and shrinks again. -/
def resizing : List (List (DictOp ℕ ℕ)) :=
  [[.expand 16, .rehash 1], [.add 6 5, .delete 9], [.rehash 9, .delete 6, .resize], [.rehash 1]]

/-- The last cursor, the sizes of the tables at each call, and whether `keys` are held at each call. -/
def scanTrace (keys : List ℕ) (r : BitVec 64 × List (DictEntry ℕ ℕ) × List ((Dict ℕ ℕ × Bool) × BitVec 64)) :
    BitVec 64 × List (ℕ × ℕ) × Bool :=
  (r.1, r.2.2.map (fun c => (c.1.1.ht0.size, c.1.1.ht1.size)),
    r.2.2.all (fun c => keys.all (fun key => (entries c.1.1).any (fun e => e.key = key))))

theorem scanTrace_held {keys : List ℕ} {next : BitVec 64} {es : List (DictEntry ℕ ℕ)}
    {calls : List ((Dict ℕ ℕ × Bool) × BitVec 64)} (h : (scanTrace keys (next, es, calls)).2.2 = true) {key : ℕ}
    (hkey : key ∈ keys) : ∀ c ∈ calls, ∃ e ∈ entries c.1.1, e.key = key := by
  intro c hc
  have hany := all_eq_true.mp (all_eq_true.mp h c hc) key hkey
  simpa using hany

theorem dictScan_covers_resizing : ∃ es calls,
    scanDict spreadType (fourKeys, true) resizing = .ok (0, es, calls) ∧
    calls.map (fun c => (c.1.1.ht0.size, c.1.1.ht1.size)) = [(4, 0), (4, 16), (16, 0), (16, 4), (16, 4)] ∧
    ∀ key ∈ [1, 3, 5], ∃ e ∈ es, e.key = key := by
  obtain ⟨next, es, calls, hcalls, hcovers⟩ := dictScan_covers spreadType_lawful (s := (fourKeys, true))
    fourKeys_inv resizing (by decide)
  have htrace : (scanDict spreadType (fourKeys, true) resizing).toOption.map (scanTrace [1, 3, 5]) =
      some (0, [(4, 0), (4, 16), (16, 0), (16, 4), (16, 4)], true) := by decide
  rw [hcalls, Except.toOption, Option.map_some, Option.some.injEq, Prod.ext_iff, Prod.ext_iff] at htrace
  obtain ⟨rfl, hsizes, hheld⟩ := htrace
  exact ⟨es, calls, hcalls, hsizes, fun key hkey => hcovers rfl key (scanTrace_held hheld hkey)⟩

/-- A request for 2^61 buckets after the first call wraps to a table without any: the next call accesses a
bucket outside of it, before any key was passed on. -/
theorem dictScan_wraps : Inv spreadType fourKeys ∧ dictScan fourKeys 0 = .ok (2, []) ∧
    scanDict spreadType (fourKeys, true) [[.expand (2^61)]] = .error .outOfBounds :=
  ⟨fourKeys_inv, by decide, rfl⟩

end Instances

end RedisCore.HashDict
