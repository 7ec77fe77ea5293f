import RedisCore.IntsetOps

namespace RedisCore.IntegerSet
open List (append_assoc append_nil length_append length_cons length_take mem_append mem_cons
  pairwise_append pairwise_cons replicate)

variable {is : Intset} {xs : List ℤ} {value : ℤ}

theorem upgradeLoop_spec {cur new p l : ℕ} (hcur : ElementSize cur) (hnew : ElementSize new)
    (hle : cur ≤ new) (hfits : ∀ x ∈ xs, FitsIn cur x) (tail : Bytes) (n : ℕ) :
    ∀ {m g : Bytes}, n ≤ xs.length → g.length+n*cur = (n+p)*new →
    m = encodeInts cur (xs.take n) ++ (g ++ (encodeInts new (xs.drop n) ++ tail)) →
    ∃ gap' : Bytes, gap'.length = p*new ∧ upgradeLoop cur p n ⟨new, l, m⟩ =
      .ok ⟨new, l, gap' ++ (encodeInts new xs ++ tail)⟩ := by
  induction n with
  | zero =>
    intro m gap _ hgap hm
    refine ⟨gap, by simpa using hgap, ?_⟩
    rw [upgradeLoop, hm]
    rfl
  | succ n ih =>
    intro m gap hn hgap hm
    have hx : n < xs.length := hn
    -- the last element of the old width and the gap behind it
    obtain ⟨room, hroom⟩ : ∃ room, room = leBytes cur (toUnsigned (8*cur) xs[n]) ++ gap := ⟨_, rfl⟩
    have hold : n*cur ≤ n*new := Nat.mul_le_mul_left n hle
    have hlen : room.length = (n+p)*new-n*cur+new := by
      rw [hroom, length_append, leBytes_length]
      simp only [Nat.add_mul, Nat.one_mul] at hgap ⊢
      omega
    have htake : encodeInts cur (xs.take (n+1)) =
        encodeInts cur (xs.take n) ++ leBytes cur (toUnsigned (8*cur) xs[n]) := by
      rw [← List.take_append_getElem hx, encodeInts_append, encodeInts_cons, encodeInts_nil,
        append_nil]
    have hload : loadElement ⟨new, l, m⟩ n cur = .ok xs[n] := by
      apply loadElement_at (a := encodeInts cur (xs.take n))
        (c := gap ++ (encodeInts new (xs.drop (n+1)) ++ tail))
      · rw [hm, htake, append_assoc]
      · rw [encodeInts_length, length_take, Nat.min_eq_left hx.le]
      · have := hcur.pos
        omega
      · exact hfits _ (List.getElem_mem hx)
    have hstore : storeElement ⟨new, l, m⟩ ((n+p : ℕ) : ℤ) new xs[n] =
        .ok ⟨new, l, (encodeInts cur (xs.take n) ++ room.take ((n+p)*new-n*cur)) ++
          (leBytes new (toUnsigned (8*new) xs[n]) ++
            (encodeInts new (xs.drop (n+1)) ++ tail))⟩ := by
      apply storeElement_at (o := room.drop ((n+p)*new-n*cur))
      · rw [hm, htake]
        conv_rhs => rw [append_assoc, ← append_assoc (room.take _), List.take_append_drop,
          hroom]
        simp only [append_assoc]
      · rw [length_append, encodeInts_length, length_take, length_take, hlen]
        simp only [Nat.add_mul] at hold ⊢
        rw [Nat.min_eq_left hx.le, Nat.min_eq_left (by omega)]
        omega
      · rw [List.length_drop, hlen]
        omega
    rw [upgradeLoop, _intsetGetEncoded_eq hcur, hload, ok_bind, _intsetSet_eq hnew,
      ← Nat.cast_add, hstore, ok_bind]
    apply ih (g := room.take ((n+p)*new-n*cur)) hx.le
    · rw [length_take, hlen]
      simp only [Nat.add_mul] at hold ⊢
      omega
    · rw [List.drop_eq_getElem_cons hx, encodeInts_cons]
      simp only [append_assoc]

theorem intsetUpgradeAndAdd_spec (h : Stores is xs) (hv : FitsIn 8 value)
    (hwide : ¬FitsIn is.encoding value)
    (hroom : (xs.length+1)*_intsetValueEncoding value < 2^32) :
    ∃ is', intsetUpgradeAndAdd is value = .ok is' ∧
      is'.encoding = _intsetValueEncoding value ∧
      Stores is' (if value < 0 then value :: xs else xs ++ [value]) := by
  have hnew := elementSize_valueEncoding value
  have hle : is.encoding ≤ _intsetValueEncoding value := by
    by_contra hgt
    exact hwide ((valueEncoding_le_iff h.encoding hv).mp (by omega))
  have hself : FitsIn (_intsetValueEncoding value) value :=
    (valueEncoding_le_iff hnew hv).mp le_rfl
  have hlen := h.length_lt
  have hold : xs.length*is.encoding ≤ xs.length*_intsetValueEncoding value :=
    Nat.mul_le_mul_left _ hle
  have hfits : ∀ x ∈ xs, FitsIn (_intsetValueEncoding value) x :=
    fun x hx => (h.fits x hx).mono hle
  have hgrown : intsetResize { is with encoding := _intsetValueEncoding value }
      ((is.length+1)%2^32) = ⟨_intsetValueEncoding value, xs.length, encodeInts is.encoding xs ++
        replicate ((xs.length+1)*_intsetValueEncoding value-xs.length*is.encoding) 0⟩ := by
    rw [intsetResize, h.length, Nat.mod_eq_of_lt (a := xs.length+1) (by omega),
      Nat.mod_eq_of_lt hroom, h.contents, reallocBytes_grow]
    · rw [encodeInts_length]
    · rw [encodeInts_length]
      simp only [Nat.add_mul]
      omega
  have hint : toInt (xs.length : ℤ) = xs.length := toInt_of_fits (by omega) (by omega)
  have hcount : (xs.length+1)%2^32 = xs.length+1 := Nat.mod_eq_of_lt (by omega)
  unfold intsetUpgradeAndAdd
  dsimp only
  rw [hgrown]
  dsimp only
  rw [hint, if_neg (by omega)]
  generalize _intsetValueEncoding value = new at *
  have hspare : xs.length*is.encoding+((xs.length+1)*new-xs.length*is.encoding) =
      xs.length*new+new := by
    simp only [Nat.add_mul]
    omega
  rcases outside_of_not_fits hwide with ⟨hneg, hbelow⟩ | ⟨hneg, habove⟩
  · -- room is left in front of the widened elements
    obtain ⟨gap, hgap, hloop⟩ := upgradeLoop_spec (p := 1) (l := xs.length) h.encoding hnew hle
      h.fits [] xs.length
      (g := replicate ((xs.length+1)*new-xs.length*is.encoding) 0) le_rfl (by
        rw [List.length_replicate, Nat.add_comm, hspare, Nat.add_mul, Nat.one_mul]) rfl
    have hset := storeElement_at (t := ⟨new, xs.length, gap ++ (encodeInts new xs ++ [])⟩)
      (a := []) (p := 0) (s := new) (c := encodeInts new xs) value
      (by rw [append_nil]; rfl) (by simp) (by rw [hgap, Nat.one_mul])
    simp only [List.take_length, List.drop_length, encodeInts_nil, List.nil_append,
      append_nil, Nat.cast_one] at hloop hset
    rw [if_pos hneg, hloop, ok_bind, if_pos rfl, if_pos hneg]
    rw [_intsetSet_eq (t := ⟨new, xs.length, gap ++ encodeInts new xs⟩) hnew]
    have hset' : storeElement ⟨new, xs.length, gap ++ encodeInts new xs⟩ 0 new value =
      .ok ⟨new, xs.length, encodeInts new (value :: xs)⟩ := by rw [encodeInts_cons]; exact hset
    dsimp only
    rw [hset', ok_bind]
    refine ⟨_, rfl, rfl, hnew, hcount, rfl, ?_, ?_, hroom⟩
    · exact List.forall_mem_cons.mpr ⟨hself, hfits⟩
    · exact pairwise_cons.mpr ⟨fun x hx => hbelow x (h.fits x hx), h.sorted⟩
  · -- room is left behind them
    obtain ⟨gap, hgap, hloop⟩ := upgradeLoop_spec (p := 0) (l := xs.length) h.encoding hnew hle
      h.fits (replicate new 0) xs.length
      (g := replicate (xs.length*new-xs.length*is.encoding) 0) le_rfl (by
        rw [List.length_replicate, Nat.add_zero]
        omega) rfl
    obtain rfl : gap = [] := List.length_eq_zero_iff.mp (by simpa using hgap)
    have hset := storeElement_at
      (t := ⟨new, xs.length, encodeInts new xs ++ replicate new 0⟩)
      (a := encodeInts new xs) (p := xs.length) (s := new) (c := []) value
      (by rw [append_nil]) (by simp) (by simp)
    simp only [List.take_length, List.drop_length, encodeInts_nil, List.nil_append,
      append_nil, Nat.cast_zero, List.replicate_append_replicate] at hloop hset
    have hsplit : xs.length*new-xs.length*is.encoding+new =
        (xs.length+1)*new-xs.length*is.encoding := by
      rw [Nat.add_mul]
      omega
    rw [hsplit] at hloop
    rw [if_neg hneg, hloop, ok_bind, if_neg (by norm_num), if_neg hneg,
      _intsetSet_eq (t := ⟨new, xs.length, encodeInts new xs ++ replicate new 0⟩) hnew]
    have hset' : storeElement ⟨new, xs.length, encodeInts new xs ++ replicate new 0⟩
        xs.length new value = .ok ⟨new, xs.length, encodeInts new (xs ++ [value])⟩ := by
      rw [encodeInts_append, encodeInts_cons, encodeInts_nil, append_nil]
      exact hset
    dsimp only
    rw [hint, hset', ok_bind]
    refine ⟨_, rfl, rfl, hnew, by simpa using hcount, rfl, ?_, ?_, by simpa using hroom⟩
    · exact List.forall_mem_append.mpr ⟨hfits, by simpa using hself⟩
    · refine pairwise_append.mpr ⟨h.sorted, List.pairwise_singleton _ _, ?_⟩
      intro x hx y hy
      rw [List.mem_singleton.mp hy]
      exact habove x (h.fits x hx)

theorem moveTail_size {is : Intset} (h : ElementSize is.encoding) :
    (if is.encoding = intsetEncInt64 then 8 else if is.encoding = intsetEncInt32 then 4 else 2) =
      is.encoding := by
  rcases h with h | h | h <;> rw [h] <;> rfl

theorem intsetMoveTail_spec {t : Intset} {a : Bytes} {b : List ℤ} {k n : ℕ} {u y c v : Bytes}
    (henc : ElementSize t.encoding) (hsource : a.length = k*t.encoding)
    (htarget : u.length = n*t.encoding) (hy : y.length = b.length*t.encoding)
    (hlen : t.length = k+b.length) (hsize : b.length*t.encoding < 2^32)
    (hm : t.contents = a ++ (encodeInts t.encoding b ++ c)) (hm' : t.contents = u ++ (y ++ v)) :
    intsetMoveTail t k n =
      .ok { t with contents := u ++ (encodeInts t.encoding b ++ v) } := by
  have hpos := henc.pos
  have hb : b.length < 2^32 := by
    have hle : b.length*2 ≤ b.length*t.encoding := Nat.mul_le_mul_left _ hpos
    omega
  have hbytes : toUnsigned 32 ((t.length : ℤ)-k) = b.length := by
    rw [hlen, toUnsigned_of_range (by push_cast; omega) (by push_cast; omega)]
    omega
  unfold intsetMoveTail
  dsimp only
  rw [moveTail_size henc, hbytes, Nat.mod_eq_of_lt hsize,
    moveBytes_at hm hsource.symm (by rw [encodeInts_length]) hm' htarget.symm
      (by rw [encodeInts_length, hy])]
  rfl

theorem open_array {a b : List ℤ} {size len : ℕ} (henc : ElementSize size)
    (hlen : (a ++ b).length = len) (hroom : (len+1)*size < 2^32) (hlt : len < 2^31) :
    ∃ hole : Bytes, hole.length = size ∧
      (if a.length < len then intsetMoveTail ⟨size, len, encodeInts size (a ++ b) ++
          replicate size 0⟩ a.length ((a.length+1)%2^32)
        else .ok ⟨size, len, encodeInts size (a ++ b) ++ replicate size 0⟩) =
        .ok ⟨size, len, encodeInts size a ++ (hole ++ encodeInts size b)⟩ := by
  rw [length_append] at hlen
  by_cases hend : a.length < len
  · obtain ⟨rest, hrest⟩ : ∃ rest, rest = encodeInts size b ++ replicate size 0 := ⟨_, rfl⟩
    have hrestlen : rest.length = size+b.length*size := by
      rw [hrest, length_append, encodeInts_length, List.length_replicate, Nat.add_comm]
    refine ⟨rest.take size, by rw [length_take, hrestlen]; omega, ?_⟩
    have hbound : b.length*size ≤ (len+1)*size := Nat.mul_le_mul_right _ (by omega)
    rw [if_pos hend, Nat.mod_eq_of_lt (by omega)]
    have hmove := intsetMoveTail_spec (t := ⟨size, len, encodeInts size (a ++ b) ++
        replicate size 0⟩) (a := encodeInts size a) (b := b) (c := replicate size 0)
      (u := encodeInts size a ++ rest.take size) (y := rest.drop size) (v := [])
      (k := a.length) (n := a.length+1) henc
      (by rw [encodeInts_length])
      (by simp [hrestlen, Nat.add_mul])
      (by simp [hrestlen]) (by dsimp only; omega)
      (by dsimp only; omega) (by simp)
      (by simp [hrest])
    rw [hmove]
    simp
  · obtain rfl : b = [] := List.length_eq_zero_iff.mp (by omega)
    refine ⟨replicate size 0, by simp, ?_⟩
    rw [if_neg hend]
    simp

theorem Stores.insert {a b : List ℤ} (h : Stores is (a ++ b)) (hfit : FitsIn is.encoding value)
    (hbelow : ∀ x ∈ a, x < value) (habove : ∀ x ∈ b, value < x)
    (hroom : ((a ++ b).length+1)*is.encoding < 2^32) :
    ∃ is', (do
        let is := intsetResize is ((is.length+1)%2^32)
        let is ← (if a.length < is.length then intsetMoveTail is a.length ((a.length+1)%2^32)
          else .ok is)
        let is ← _intsetSet is (toInt a.length) value
        return ({ is with length := (is.length+1)%2^32 }, true) : Except Fault (Intset × Bool)) =
        .ok (is', true) ∧ is'.encoding = is.encoding ∧ Stores is' (a ++ value :: b) := by
  obtain ⟨enc, len, contents⟩ := is
  have henc : ElementSize enc := h.encoding
  have hlen : len = (a ++ b).length := h.length
  have hcontents : contents = encodeInts enc (a ++ b) := h.contents
  have hlt := h.length_lt
  dsimp only at hroom hfit
  rw [length_append] at hlt
  have hcount : (len+1)%2^32 = len+1 := by
    rw [hlen, length_append]
    omega
  have hgrown : intsetResize ⟨enc, len, contents⟩ (len+1) =
      ⟨enc, len, encodeInts enc (a ++ b) ++ replicate enc 0⟩ := by
    rw [intsetResize]
    dsimp only
    rw [Nat.mod_eq_of_lt (by rw [hlen]; exact hroom), hcontents, reallocBytes_grow]
    · congr 3
      rw [encodeInts_length, ← hlen, Nat.add_mul]
      omega
    · rw [encodeInts_length, ← hlen, Nat.add_mul]
      omega
  obtain ⟨hole, hhole, hopen⟩ := open_array henc hlen.symm (by rw [hlen]; exact hroom)
    (by rw [hlen, length_append]; exact hlt)
  have hset := storeElement_at (t := ⟨enc, len, encodeInts enc a ++ (hole ++ encodeInts enc b)⟩)
    (a := encodeInts enc a) (p := a.length) (s := enc) (c := encodeInts enc b) value rfl
    (by rw [encodeInts_length]) hhole
  dsimp only
  rw [hcount, hgrown]
  dsimp only
  rw [hopen, ok_bind, toInt_of_fits (by omega) (by omega), _intsetSet_eq henc, hset,
    ok_bind]
  refine ⟨⟨enc, (len+1)%2^32, _⟩, rfl, rfl, henc, ?_, ?_, ?_, ?_, ?_⟩
  · rw [hcount, hlen, length_append, length_append, length_cons, Nat.add_assoc]
  · rw [encodeInts_append, encodeInts_cons]
  · intro x hx
    rcases mem_append.mp hx with hx | hx
    · exact h.fits x (List.mem_append_left _ hx)
    · rcases mem_cons.mp hx with rfl | hx
      · exact hfit
      · exact h.fits x (List.mem_append_right _ hx)
  · obtain ⟨hsa, hsb, hab⟩ := pairwise_append.mp h.sorted
    refine pairwise_append.mpr ⟨hsa, pairwise_cons.mpr ⟨habove, hsb⟩, ?_⟩
    intro x hx y hy
    rcases mem_cons.mp hy with rfl | hy
    · exact hbelow x hx
    · exact hab x hx y hy
  · simp only [length_append, length_cons] at hroom ⊢
    exact hroom

theorem intsetAdd_spec (h : Stores is xs) (hv : FitsIn 8 value)
    (hroom : value ∉ xs → (xs.length+1)*max is.encoding (_intsetValueEncoding value) < 2^32) :
    ∃ is' xs', intsetAdd is value = .ok (is', decide (value ∉ xs)) ∧ Stores is' xs' ∧
      is.encoding ≤ is'.encoding ∧ (∀ x, x ∈ xs' ↔ x = value ∨ x ∈ xs) := by
  unfold intsetAdd
  by_cases henc : _intsetValueEncoding value > is.encoding
  · have hwide : ¬FitsIn is.encoding value := by
      rw [← valueEncoding_le_iff h.encoding hv]
      omega
    have hno : value ∉ xs := fun hmem => hwide (h.fits value hmem)
    have hsize := hroom hno
    rw [Nat.max_eq_right henc.le] at hsize
    obtain ⟨is', hrun, hnew, hst⟩ := intsetUpgradeAndAdd_spec h hv hwide hsize
    rw [if_pos henc, hrun, ok_bind, decide_eq_true hno]
    refine ⟨is', _, rfl, hst, by omega, ?_⟩
    intro x
    split_ifs
    · rw [mem_cons]
    · rw [mem_append, List.mem_singleton, or_comm]
  · have hfit : FitsIn is.encoding value := (valueEncoding_le_iff h.encoding hv).mp (by omega)
    obtain ⟨⟨found, pos⟩, hsearch, hpost⟩ := intsetSearch_spec h value
    rw [if_neg henc, hsearch, ok_bind]
    dsimp only
    rcases hpost with ⟨hf, a, b, rfl, -⟩ | ⟨hf, a, b, rfl, hp, hbelow, habove⟩
    · dsimp only at hf
      subst hf
      have hmem : value ∈ a ++ value :: b := List.mem_append_right _ List.mem_cons_self
      rw [if_pos rfl, decide_eq_false (not_not_intro hmem)]
      refine ⟨is, _, rfl, h, le_rfl, ?_⟩
      intro x
      constructor
      · exact Or.inr
      · rintro (rfl | hx)
        · exact hmem
        · exact hx
    · dsimp only at hf hp
      subst hf hp
      have hno : value ∉ a ++ b := by
        intro hmem
        rcases mem_append.mp hmem with hmem | hmem
        · exact lt_irrefl _ (hbelow value hmem)
        · exact lt_irrefl _ (habove value hmem)
      have hsize := hroom hno
      rw [Nat.max_eq_left (by omega)] at hsize
      obtain ⟨is', hrun, hnew, hst⟩ := h.insert hfit hbelow habove hsize
      rw [if_neg (by simp), decide_eq_true hno]
      refine ⟨is', _, hrun, hst, hnew.ge, ?_⟩
      intro x
      simp only [mem_append, mem_cons]
      tauto

theorem intsetRemove_spec (h : Stores is xs) (hv : FitsIn 8 value) :
    ∃ is' xs', intsetRemove is value = .ok (is', decide (value ∈ xs)) ∧ Stores is' xs' ∧
      is'.encoding = is.encoding ∧ (∀ x, x ∈ xs' ↔ x ≠ value ∧ x ∈ xs) := by
  have habsent (hno : value ∉ xs) : ∀ x, x ∈ xs ↔ x ≠ value ∧ x ∈ xs := by
    intro x
    constructor
    · intro hx
      exact ⟨fun heq => hno (heq ▸ hx), hx⟩
    · exact And.right
  unfold intsetRemove
  by_cases henc : _intsetValueEncoding value ≤ is.encoding
  · obtain ⟨⟨found, pos⟩, hsearch, hpost⟩ := intsetSearch_spec h value
    have hmem := hpost.mem_iff
    rw [if_pos henc, hsearch, ok_bind]
    dsimp only at hmem ⊢
    rcases hpost with ⟨hf, a, b, rfl, hp⟩ | ⟨hf, -⟩
    · dsimp only at hf hp
      subst hf hp
      obtain ⟨enc, len, contents⟩ := is
      have henc' : ElementSize enc := h.encoding
      have hlen : len = a.length+(b.length+1) := by
        rw [show len = _ from h.length, length_append, length_cons]
      have hcontents : contents = encodeInts enc (a ++ value :: b) := h.contents
      have hlt := h.length_lt
      have hsize : (a ++ value :: b).length*enc < 2^32 := h.size
      rw [length_append, length_cons, Nat.add_mul, Nat.add_mul] at hsize
      -- the elements behind the value, moved over it, and what is left behind them
      have hmove : ∃ rest : Bytes, (if a.length < len-1 then
          intsetMoveTail ⟨enc, len, contents⟩ ((a.length+1)%2^32) a.length
          else .ok ⟨enc, len, contents⟩) =
          .ok ⟨enc, len, encodeInts enc a ++ (encodeInts enc b ++ rest)⟩ := by
        by_cases hend : a.length < len-1
        · obtain ⟨old, hold⟩ : ∃ old, old = encodeInts enc (value :: b) := ⟨_, rfl⟩
          have holdlen : old.length = b.length*enc+enc := by
            rw [hold, encodeInts_length, length_cons, Nat.add_mul, Nat.one_mul]
          refine ⟨old.drop (b.length*enc), ?_⟩
          rw [length_append, length_cons] at hlt
          rw [if_pos hend, Nat.mod_eq_of_lt (by omega)]
          exact intsetMoveTail_spec (a := encodeInts enc (a ++ [value])) (c := [])
            (y := old.take (b.length*enc)) henc' (by simp [Nat.add_mul]) (by simp)
            (by rw [length_take, holdlen]; exact Nat.min_eq_left (Nat.le_add_right _ _))
            (by dsimp only; omega) (by dsimp only; omega)
            (by dsimp only; rw [hcontents, encodeInts_append, encodeInts_append, encodeInts_cons,
              encodeInts_cons, encodeInts_nil]; simp)
            (by dsimp only; rw [hcontents, encodeInts_append, List.take_append_drop, hold])
        · obtain rfl : b = [] := List.length_eq_zero_iff.mp (by omega)
          refine ⟨encodeInts enc [value], ?_⟩
          rw [if_neg hend, hcontents, encodeInts_append]
          rfl
      obtain ⟨rest, hmove⟩ := hmove
      dsimp only at hmove ⊢
      rw [if_pos rfl, hmove, ok_bind, decide_eq_true (hmem.mp rfl)]
      have hab : (a ++ b).length = len-1 := by
        rw [length_append]
        omega
      have hfew : (len-1)*enc < 2^32 := by
        rw [← hab, length_append, Nat.add_mul]
        omega
      have hshrunk : intsetResize ⟨enc, len, encodeInts enc a ++ (encodeInts enc b ++ rest)⟩ (len-1) =
          ⟨enc, len, encodeInts enc (a ++ b)⟩ := by
        have htake : (encodeInts enc a ++ (encodeInts enc b ++ rest)).take ((len-1)*enc) =
            encodeInts enc (a ++ b) := by
          rw [encodeInts_append, ← append_assoc]
          exact List.take_left' (by rw [← encodeInts_append, encodeInts_length, hab])
        rw [intsetResize]
        dsimp only
        rw [Nat.mod_eq_of_lt hfew, reallocBytes_shrink, htake]
        rw [← append_assoc, ← encodeInts_append, length_append, encodeInts_length, hab]
        exact Nat.le_add_right _ _
      rw [hshrunk]
      have hsorted := h.sorted
      obtain ⟨hsa, hsb, hcross⟩ := pairwise_append.mp hsorted
      refine ⟨⟨enc, len-1, encodeInts enc (a ++ b)⟩, a ++ b, rfl,
        ⟨henc', hab.symm, rfl, ?_, ?_, by rw [hab]; exact hfew⟩, rfl, ?_⟩
      · intro x hx
        rcases mem_append.mp hx with hx | hx
        · exact h.fits x (List.mem_append_left _ hx)
        · exact h.fits x (List.mem_append_right _ (List.mem_cons_of_mem _ hx))
      · refine pairwise_append.mpr ⟨hsa, (pairwise_cons.mp hsb).2, ?_⟩
        intro x hx y hy
        exact hcross x hx y (List.mem_cons_of_mem _ hy)
      · intro x
        have hxa : x ∈ a → x ≠ value := fun hx => (hcross x hx value List.mem_cons_self).ne
        have hxb : x ∈ b → x ≠ value := fun hx => ((pairwise_cons.mp hsb).1 x hx).ne'
        simp only [mem_append, mem_cons]
        tauto
    · dsimp only at hf
      subst hf
      have hno : value ∉ xs := fun hx => absurd (hmem.mpr hx) (by simp)
      rw [if_neg (by simp), decide_eq_false hno]
      exact ⟨is, xs, rfl, h, rfl, habsent hno⟩
  · have hno : value ∉ xs := fun hmem =>
      henc ((valueEncoding_le_iff h.encoding hv).mpr (h.fits value hmem))
    rw [if_neg henc, decide_eq_false hno]
    exact ⟨is, xs, rfl, h, rfl, habsent hno⟩

end RedisCore.IntegerSet
