import RedisCore.SdsContents

namespace RedisCore.DynamicString

variable {noise : ℕ → UInt8} {x x' : Sds} {type : SdsType} {alloc : ℕ} {slack content : Bytes}

def Increment (x : Sds) (incr : ℤ) (written : Bytes) : Prop :=
  ∃ len avail flags, sdslen x = .ok len ∧ sdsavail x = .ok avail ∧ loadFlags x = .ok flags ∧
    (typeOf flags = some .type5 → incr ≠ 0) ∧
    (incr = written.length ∧ written.length ≤ avail ∨
      incr < 0 ∧ written = [] ∧ -2^63 ≤ incr ∧ -incr ≤ len)

theorem incrAllowed_grow {len : ℕ} {incr : ℤ} (hfits : alloc < type.limit) (hpos : 0 ≤ incr)
    (hle : len + incr ≤ alloc) (hfive : type ≠ .type5) : incrAllowed type len alloc incr := by
  cases type with
  | type5 => exact absurd rfl hfive
  | type32 =>
    left
    have hlimit : alloc < 2^32 := hfits
    rw [Int.emod_eq_of_lt hpos (by omega), Int.emod_eq_of_lt (by omega) (by omega)]
    omega
  | type64 =>
    left
    have hlimit : alloc < 2^64 := hfits
    rw [Int.emod_eq_of_lt (by omega) (by omega)]
    omega
  | _ =>
    left
    omega

theorem incrAllowed_shrink {len : ℕ} {incr : ℤ} (hneg : incr < 0) (hle : -incr ≤ len) :
    incrAllowed type len alloc incr := by
  have hmod : (-incr) % 2^32 ≤ -incr := by omega
  cases type <;> (right; omega)

theorem sdsIncrLen_spec {body content' slack' : Bytes} {len : ℕ} {b : UInt8} {incr : ℤ}
    (h : Laid x type len alloc body) (hallowed : incrAllowed type len alloc incr)
    (hnew : (len : ℤ) + incr = content'.length) (hfits : content'.length < type.limit)
    (hbody : body = content' ++ b :: slack') (hroom : type ≠ .type5 → body.length = alloc + 1) :
    ∃ x' alloc', sdsIncrLen x incr = .ok x' ∧ Holds x' type alloc' slack' content' := by
  obtain ⟨flags, hflags, htype, -⟩ := h.loadFlags
  have hlimit := limit_le type
  have hsum : (((len : ℤ) + incr) % (if type = .type5 then 2^64 else type.limit : ℕ)).toNat =
      content'.length := by
    rw [hnew]
    split_ifs
    · rw [Int.emod_eq_of_lt (by omega) (by push_cast; omega), Int.toNat_natCast]
    · rw [Int.emod_eq_of_lt (by omega) (by omega), Int.toNat_natCast]
  obtain ⟨x', hclose, h'⟩ := h.close hbody rfl hfits hroom
  refine ⟨x', _, ?_, h'⟩
  unfold sdsIncrLen
  rw [hflags, ok_bind, htype]
  dsimp only
  rw [h.sdslen, ok_bind, h.sdsalloc, ok_bind, if_pos hallowed, hsum]
  exact hclose

def incremented (incr : ℤ) (written content : Bytes) : Bytes :=
  if 0 ≤ incr then content ++ written else content.take (content.length - (-incr).toNat)

theorem incrLen_holds (h : Holds x type alloc slack content) {incr : ℤ} {written : Bytes}
    (hincr : Increment x incr written) :
    ∃ x' alloc' slack', (SdsOp.incrLen incr written).run noise x = .ok x' ∧
      Holds x' type alloc' slack' (incremented incr written content) := by
  have hle := h.le
  obtain ⟨len, avail, flags, hlen, havail, hflags, hzero, hcases⟩ := hincr
  obtain ⟨b0, hflags0, htype, -⟩ := h.laid.loadFlags
  rw [h.laid.sdslen] at hlen
  rw [h.laid.sdsavail hle] at havail
  rw [hflags0] at hflags
  cases hlen
  cases havail
  cases hflags
  unfold SdsOp.run incremented
  dsimp only
  rw [h.laid.sdslen, ok_bind]
  rcases hcases with ⟨hincr, hroom⟩ | ⟨hneg, hwritten, hlow, hback⟩
  · obtain ⟨x1, b, rest, hstore, hlaid, hexact⟩ := h.append (t := written) (by omega)
    have hfive : type ≠ .type5 := by
      intro hfive
      have halloc := h.laid.five hfive
      rw [hfive] at htype
      exact hzero htype (by omega)
    obtain ⟨x2, alloc2, hrun, h2⟩ := sdsIncrLen_spec hlaid
      (incrAllowed_grow h.laid.allocFits (show 0 ≤ incr by omega) (by omega) hfive)
      (by rw [List.length_append, hincr]; push_cast; rfl)
      (by rw [List.length_append]; have := h.laid.allocFits; omega) rfl hexact
    rw [if_pos (by omega)]
    refine ⟨x2, alloc2, rest, ?_, h2⟩
    rw [hstore, ok_bind, hrun]
  · obtain ⟨x1, b, rest, hstore, hlaid, hexact⟩ := h.append (t := []) (by rw [List.length_nil]; omega)
    rw [List.append_nil] at hlaid hexact
    rw [hwritten, if_neg (by omega), hstore, ok_bind]
    have hlt : content.length - (-incr).toNat < (content ++ b :: rest).length := by
      rw [List.length_append, List.length_cons]
      omega
    obtain ⟨a, b', rest', hsplit, ha, -⟩ := exists_split hlt
    have htake : content.take (content.length - (-incr).toNat) = a := by
      have hprefix := congrArg (List.take a.length) hsplit
      rw [List.take_left, ha, List.take_append_of_le_length (by omega)] at hprefix
      exact hprefix
    have hnew : (content.length : ℤ) + incr = a.length := by
      rw [ha]
      omega
    have hfits : a.length < type.limit := by
      have := h.laid.lenFits
      omega
    obtain ⟨x2, alloc2, hrun, h2⟩ :=
      sdsIncrLen_spec hlaid (incrAllowed_shrink hneg hback) hnew hfits hsplit hexact
    rw [htake]
    exact ⟨x2, alloc2, rest', hrun, h2⟩

def SdsOp.size : SdsOp → ℕ
  | .makeRoomFor addlen => addlen
  | .incrLen _ written => written.length
  | .growzero len => len
  | .catlen t => t.length
  | .cpylen t => t.length
  | _ => 0

def SdsOp.Within (x : Sds) : SdsOp → Prop
  | .incrLen incr written => Increment x incr written
  | .range start stop => (-2^63 ≤ start ∧ start < 2^63) ∧ -2^63 ≤ stop ∧ stop < 2^63
  | _ => True

def SdsOp.apply (content : Bytes) : SdsOp → Bytes
  | .makeRoomFor _ => content
  | .removeFreeSpace => content
  | .incrLen incr written => incremented incr written content
  | .growzero len => content ++ List.replicate (len - content.length) 0
  | .catlen t => content ++ t
  | .cpylen t => t
  | .trim cset => trimmed cset content
  | .range start stop => slice start stop content
  | .clear => []

/-- The strings that are created with a size and changed by operations, with the byte string and the
sum of the sizes. -/
inductive Reaches (noise : ℕ → UInt8) : Sds → Bytes → ℕ → Prop where
  | created {init : SdsInit} {x : Sds} {content : Bytes} (hsize : init.initlen < 2^62)
      (hnew : sdsnewlen noise init = .ok x) (hload : load x 0 init.initlen = .ok content) :
      Reaches noise x content init.initlen
  | changed {x x' : Sds} {content : Bytes} {total : ℕ} (op : SdsOp) (h : Reaches noise x content total)
      (hwithin : op.Within x) (hsize : total + op.size < 2^62) (hrun : op.run noise x = .ok x') :
      Reaches noise x' (op.apply content) (total + op.size)

theorem apply_length (content : Bytes) (op : SdsOp) :
    (op.apply content).length ≤ content.length + op.size := by
  cases op with
  | makeRoomFor addlen => exact Nat.le_add_right _ _
  | removeFreeSpace => exact le_rfl
  | incrLen incr written =>
    unfold SdsOp.apply SdsOp.size incremented
    dsimp only
    split_ifs
    · rw [List.length_append]
    · rw [List.length_take]
      omega
  | growzero len =>
    unfold SdsOp.apply SdsOp.size
    dsimp only
    rw [List.length_append, List.length_replicate]
    omega
  | catlen t => rw [SdsOp.apply, List.length_append, SdsOp.size]
  | cpylen t => exact Nat.le_add_left _ _
  | trim cset =>
    have hright := (List.rdropWhile_prefix (strchr cset) (content.dropWhile (strchr cset))).length_le
    have hleft := (List.dropWhile_suffix (l := content) (strchr cset)).length_le
    exact (hright.trans hleft).trans (Nat.le_add_right _ _)
  | range start stop =>
    unfold SdsOp.apply SdsOp.size slice
    dsimp only
    rw [List.length_take, List.length_drop]
    omega
  | clear => exact Nat.zero_le _

theorem SdsOp.run_holds (noise : ℕ → UInt8) (h : Holds x type alloc slack content) (op : SdsOp)
    (hwithin : op.Within x) (hsize : content.length + op.size < 2^62) :
    ∃ x' type' alloc' slack', op.run noise x = .ok x' ∧ Holds x' type' alloc' slack' (op.apply content) := by
  cases op with
  | makeRoomFor addlen =>
    obtain ⟨x', type', alloc', slack', hrun, h', -⟩ := sdsMakeRoomFor_holds noise h hsize
    exact ⟨x', type', alloc', slack', hrun, h'⟩
  | removeFreeSpace => exact sdsRemoveFreeSpace_holds noise h hsize
  | incrLen incr written =>
    obtain ⟨x', alloc', slack', hrun, h'⟩ := incrLen_holds h hwithin
    exact ⟨x', type, alloc', slack', hrun, h'⟩
  | growzero len => exact sdsgrowzero_holds noise h (lt_of_le_of_lt (Nat.le_add_left _ _) hsize)
  | catlen t => exact sdscatlen_holds noise h hsize
  | cpylen t => exact sdscpylen_holds noise h hsize
  | trim cset =>
    obtain ⟨x', alloc', slack', hrun, h'⟩ := sdstrim_holds h cset
    exact ⟨x', type, alloc', slack', hrun, h'⟩
  | range start stop =>
    obtain ⟨x', alloc', slack', hrun, h'⟩ := sdsrange_holds h hsize hwithin.1 hwithin.2
    exact ⟨x', type, alloc', slack', hrun, h'⟩
  | clear =>
    obtain ⟨x', alloc', slack', hrun, h'⟩ := sdsclear_holds h
    exact ⟨x', type, alloc', slack', hrun, h'⟩

theorem Reaches.holds {total : ℕ} (h : Reaches noise x content total) :
    (∃ type alloc slack, Holds x type alloc slack content) ∧ content.length ≤ total ∧ total < 2^62 := by
  induction h with
  | created hsize hnew hload =>
    obtain ⟨x1, type, alloc, slack, content1, hnew1, h1, hgives⟩ := sdsnewlen_holds noise hsize
    rw [hnew] at hnew1
    cases hnew1
    have hlen := hgives.length
    have hbody := h1.laid.load (a := []) (b := content1) (c := 0 :: slack) rfl rfl hlen.symm
    rw [List.length_nil] at hbody
    rw [hload] at hbody
    cases hbody
    exact ⟨⟨type, alloc, slack, h1⟩, hlen.le, hsize⟩
  | changed op _ hwithin hsize hrun ih =>
    obtain ⟨⟨type, alloc, slack, h⟩, hle, -⟩ := ih
    obtain ⟨x1, type', alloc', slack', hrun1, h1⟩ := op.run_holds noise h hwithin (by omega)
    rw [hrun] at hrun1
    cases hrun1
    exact ⟨⟨type', alloc', slack', h1⟩, (apply_length _ op).trans (by omega), hsize⟩

structure Describes (x : Sds) (type : SdsType) (alloc : ℕ) (content : Bytes) : Prop where
  flags : ∃ b, loadFlags x = .ok b ∧ typeOf b = some type
  sdslen : sdslen x = .ok content.length
  sdsalloc : sdsalloc x = .ok alloc
  lenFits : content.length < type.limit
  allocFits : alloc < type.limit
  le : content.length ≤ alloc
  five : type = .type5 → alloc = content.length
  bytes : load x 0 (content.length + 1) = .ok (content ++ [0])
  allocated : sdsHdrSize type + alloc + 1 ≤ x.block.length
  exact : type ≠ .type5 → x.block.length = sdsHdrSize type + alloc + 1

theorem Holds.describes (h : Holds x type alloc slack content) : Describes x type alloc content := by
  obtain ⟨b, hflags, htype, -⟩ := h.laid.loadFlags
  have hbody : content ++ 0 :: slack = [] ++ ((content ++ [0]) ++ slack) := by
    rw [List.nil_append, List.append_assoc, List.singleton_append]
  have hbytes := h.laid.load (i := 0) (n := content.length + 1) hbody rfl
    (by rw [List.length_append, List.length_singleton])
  exact
    { flags := ⟨b, hflags, htype⟩
      sdslen := h.laid.sdslen
      sdsalloc := h.laid.sdsalloc
      lenFits := h.laid.lenFits
      allocFits := h.laid.allocFits
      le := h.le
      five := h.laid.five
      bytes := hbytes
      allocated := h.size.1
      exact := h.size.2 }

/-- Every string that a run reaches describes its byte string, the next operation has no fault, and
neither has the creation of a string. -/
theorem run_describes {total : ℕ} (h : Reaches noise x content total) :
    (∃ type alloc, Describes x type alloc content) ∧
      (∀ op : SdsOp, op.Within x → total + op.size < 2^62 → ∃ x', op.run noise x = .ok x') ∧
      ∀ init : SdsInit, init.initlen < 2^62 → ∃ x' content', sdsnewlen noise init = .ok x' ∧
        load x' 0 init.initlen = .ok content' ∧ init.Gives content' := by
  obtain ⟨⟨type, alloc, slack, hholds⟩, hle, -⟩ := h.holds
  refine ⟨⟨type, alloc, hholds.describes⟩, ?_, ?_⟩
  · intro op hwithin hsize
    obtain ⟨x', _, _, _, hrun, -⟩ := op.run_holds noise hholds hwithin (by omega)
    exact ⟨x', hrun⟩
  · intro init hsize
    obtain ⟨x1, type1, alloc1, slack1, content1, hnew, h1, hgives⟩ := sdsnewlen_holds noise hsize
    have hbody := h1.laid.load (a := []) (b := content1) (c := 0 :: slack1) rfl rfl hgives.length.symm
    exact ⟨x1, content1, hnew, hbody, hgives⟩

def zeroNoise : ℕ → UInt8 := fun _ => 0

theorem abc_reaches : Reaches zeroNoise ⟨[24, 97, 98, 99, 0], 1⟩ [97, 98, 99] 3 :=
  @Reaches.created zeroNoise (.data [97, 98, 99]) _ _ (by decide) rfl rfl

theorem run_describes_abc :
    (∃ type alloc, Describes ⟨[24, 97, 98, 99, 0], 1⟩ type alloc [97, 98, 99]) ∧
      (∀ op : SdsOp, op.Within ⟨[24, 97, 98, 99, 0], 1⟩ → 3 + op.size < 2^62 →
        ∃ x', op.run zeroNoise ⟨[24, 97, 98, 99, 0], 1⟩ = .ok x') ∧
      ∀ init : SdsInit, init.initlen < 2^62 → ∃ x' content', sdsnewlen zeroNoise init = .ok x' ∧
        load x' 0 init.initlen = .ok content' ∧ init.Gives content' :=
  run_describes abc_reaches

/-- A short string that is cleared forgets how much was allocated for it, and refuses an increment by
nothing. -/
theorem short_header_forgets :
    ∃ x, Reaches zeroNoise x [] 3 ∧ Describes x .type5 0 [] ∧
      x.block.length ≠ sdsHdrSize .type5 + 0 + 1 ∧ sdsIncrLen x 0 = .error .aborted := by
  have hreaches : Reaches zeroNoise ⟨[0, 0, 98, 99, 0], 1⟩ [] 3 :=
    Reaches.changed .clear abc_reaches trivial (by decide) rfl
  refine ⟨_, hreaches, ?_, by decide, rfl⟩
  exact
    { flags := ⟨0, rfl, rfl⟩
      sdslen := rfl
      sdsalloc := rfl
      lenFits := by decide
      allocFits := by decide
      le := le_rfl
      five := fun _ => rfl
      bytes := rfl
      allocated := by decide
      exact := fun h => absurd rfl h }

end RedisCore.DynamicString
