import RedisCore.GeohashCells

namespace RedisCore.Geohash
open Interleaved

/-- What is wanted of an encoded point: the bits fit the step, and the decoded area holds it. -/
def CellRight (longRange latRange : GeoHashRange) (longitude latitude : ℚ) (hash : GeoHashBits) :
    Prop :=
  hash.bits.toNat < 2^(2*hash.step) ∧
    ∃ area, geohashDecode longRange latRange hash = some area ∧
      area.longitude.min ≤ longitude ∧ longitude ≤ area.longitude.max ∧
      area.latitude.min ≤ latitude ∧ latitude ≤ area.latitude.max

def offset (r : GeoHashRange) (v : ℚ) : ℚ := (v-r.min)/(r.max-r.min)

/-- The coordinate is not the upper end of the range and, with the largest step, not in the last
cell. -/
def Inside (r : GeoHashRange) (step : ℕ) (v : ℚ) : Prop :=
  v < r.max ∧ (step = 32 → offset r v*2^32 < 2^32-1)

variable {q longitude latitude : ℚ} {step : ℕ} {r longRange latRange : GeoHashRange}
  {undef : ℚ → BitVec 32} {hash : GeoHashBits}

theorem truncate_of_nonneg (h : 0 ≤ q) : truncate q = ⌊q⌋ := by
  rw [truncate, Rat.floor_def', Int.tdiv_eq_ediv_of_nonneg (Rat.num_nonneg.2 h)]

theorem toNat_toUint32 (undef : ℚ → BitVec 32) (h : 0 ≤ q) (hlt : q < 2^32) :
    ((toUint32 undef q).toNat : ℤ) = ⌊q⌋ := by
  have hfloor : 0 ≤ ⌊q⌋ := Int.floor_nonneg.2 h
  have hfits : ⌊q⌋ < 2^32 := by
    rw [Int.floor_lt]
    exact_mod_cast hlt
  rw [toUint32, truncate_of_nonneg h, if_pos ⟨hfloor, hfits⟩, BitVec.toNat_ofInt]
  omega

theorem toNat_succ (x : BitVec 32) : (x+1).toNat = (x.toNat+1)%2^32 := by
  rw [BitVec.toNat_add]
  rfl

theorem index_right_iff {t : ℚ} (undef : ℚ → BitVec 32) (hstep : step ≤ 32)
    (h0 : 0 ≤ t) (h1 : t ≤ 2^step) :
    ((toUint32 undef t).toNat < 2^step ∧ ((toUint32 undef t).toNat : ℚ) ≤ t ∧
        t ≤ ((toUint32 undef t+1).toNat : ℚ)) ↔
      t < 2^step ∧ (step = 32 → t < 2^32-1) := by
  have hpow : (2:ℚ)^step ≤ 2^32 := pow_le_pow_right₀ (by norm_num) hstep
  have hpowNat : 2^step ≤ 2^32 := Nat.pow_le_pow_right (by norm_num) hstep
  have hcast : (((2:ℕ)^step : ℕ) : ℚ) = 2^step := by push_cast; rfl
  constructor
  · rintro ⟨hlt, hle, hge⟩
    have hsucc := toNat_succ (toUint32 undef t)
    have hword : ((toUint32 undef t+1).toNat : ℚ) ≤ 2^32-1 := by
      have hnat : (toUint32 undef t+1).toNat+1 ≤ 2^32 := (toUint32 undef t+1).isLt
      have hrat : ((toUint32 undef t+1).toNat : ℚ)+1 ≤ 2^32 := by exact_mod_cast hnat
      linarith
    have hsmall : t < 2^32 := by linarith
    have hfloor := toNat_toUint32 undef h0 hsmall
    constructor
    · -- at the upper end the index would be `2^step`
      by_contra hmax
      have heq : t = ((2^step : ℕ) : ℚ) := by rw [hcast]; linarith
      have hindex : ⌊t⌋ = ((2^step : ℕ) : ℤ) := by
        rw [heq, ← Int.cast_natCast, Int.floor_intCast]
      have hbad : (toUint32 undef t).toNat = 2^step := by
        have hint := hfloor.trans hindex
        exact_mod_cast hint
      omega
    · -- the last cell of the largest step ends where the range begins
      intro h32
      by_contra hlast
      have heq : t = ((2^32-1 : ℕ) : ℚ) := by push_cast; linarith
      have hindex : ⌊t⌋ = ((2^32-1 : ℕ) : ℤ) := by
        rw [heq, ← Int.cast_natCast, Int.floor_intCast]
      have hbad : (toUint32 undef t).toNat = 2^32-1 := by
        have hint := hfloor.trans hindex
        exact_mod_cast hint
      rw [hbad] at hsucc
      have hzero : ((toUint32 undef t+1).toNat : ℚ) = 0 := by
        rw [hsucc]
        norm_num
      rw [hzero, heq] at hge
      norm_num at hge
  · rintro ⟨hlt, hlast⟩
    have hsmall : t < 2^32 := by linarith
    have hfloor := toNat_toUint32 undef h0 hsmall
    have hcastFloor : ((toUint32 undef t).toNat : ℚ) = ((⌊t⌋ : ℤ) : ℚ) := by
      rw [← hfloor, Int.cast_natCast]
    have hbelow : ((toUint32 undef t).toNat : ℚ) ≤ t := by
      rw [hcastFloor]
      exact Int.floor_le t
    have habove : t < ((toUint32 undef t).toNat : ℚ)+1 := by
      rw [hcastFloor]
      exact Int.lt_floor_add_one t
    have hindex : (toUint32 undef t).toNat < 2^step := by
      have hrat : ((toUint32 undef t).toNat : ℚ) < ((2^step : ℕ) : ℚ) := by rw [hcast]; linarith
      exact_mod_cast hrat
    have hroom : (toUint32 undef t).toNat+1 < 2^32 := by
      by_cases h32 : step = 32
      · have hrat : ((toUint32 undef t).toNat : ℚ) < ((2^32-1 : ℕ) : ℚ) := by
          have := hlast h32
          push_cast
          linarith
        have hnat : (toUint32 undef t).toNat < 2^32-1 := by exact_mod_cast hrat
        omega
      · have hhalf : 2^step ≤ 2^31 := Nat.pow_le_pow_right (by norm_num) (by omega)
        omega
    refine ⟨hindex, hbelow, ?_⟩
    rw [toNat_succ, Nat.mod_eq_of_lt hroom]
    push_cast
    exact le_of_lt habove

theorem cell_ends (hr : r.min < r.max) (v : ℚ) (step n : ℕ) :
    (r.min+((n : ℚ)/2^step)*(r.max-r.min) ≤ v ↔ (n : ℚ) ≤ offset r v*2^step) ∧
      (v ≤ r.min+((n : ℚ)/2^step)*(r.max-r.min) ↔ offset r v*2^step ≤ n) := by
  have hscale : 0 < r.max-r.min := by linarith
  have hcells : (0:ℚ) < 2^step := by positivity
  have hv : v = r.min+offset r v*(r.max-r.min) := by
    rw [offset, div_mul_cancel₀ _ (ne_of_gt hscale)]
    ring
  constructor
  · constructor
    · intro h
      rw [hv] at h
      have hmul : (n : ℚ)/2^step*(r.max-r.min) ≤ offset r v*(r.max-r.min) := by linarith
      rw [← div_le_iff₀ hcells]
      exact le_of_mul_le_mul_right hmul hscale
    · intro h
      rw [← div_le_iff₀ hcells] at h
      have hmul := mul_le_mul_of_nonneg_right h (le_of_lt hscale)
      linarith
  · constructor
    · intro h
      rw [hv] at h
      have hmul : offset r v*(r.max-r.min) ≤ (n : ℚ)/2^step*(r.max-r.min) := by linarith
      rw [← le_div_iff₀ hcells]
      exact le_of_mul_le_mul_right hmul hscale
    · intro h
      rw [← le_div_iff₀ hcells] at h
      have hmul := mul_le_mul_of_nonneg_right h (le_of_lt hscale)
      linarith

theorem coordinate_right_iff {v : ℚ} (undef : ℚ → BitVec 32)
    (hr : r.min < r.max) (hstep : step ≤ 32) (hlo : r.min ≤ v) (hhi : v ≤ r.max) :
    ((toUint32 undef (offset r v*2^step)).toNat < 2^step ∧
      r.min+(((toUint32 undef (offset r v*2^step)).toNat : ℚ)/2^step)*(r.max-r.min) ≤ v ∧
      v ≤ r.min+(((toUint32 undef (offset r v*2^step)+1).toNat : ℚ)/2^step)*(r.max-r.min)) ↔
      Inside r step v := by
  have hscale : 0 < r.max-r.min := by linarith
  have hcells : (0:ℚ) < 2^step := by positivity
  have hzero : 0 ≤ offset r v := div_nonneg (by linarith) (le_of_lt hscale)
  have hone : offset r v ≤ 1 := by
    rw [offset, div_le_one hscale]
    linarith
  have hlast : offset r v < 1 ↔ v < r.max := by
    rw [offset, div_lt_one hscale]
    constructor <;> intro h <;> linarith
  have hends : offset r v*2^step < 2^step ↔ v < r.max := by
    rw [← hlast]
    exact mul_lt_iff_lt_one_left hcells
  rw [(cell_ends hr v step _).1, (cell_ends hr v step _).2,
    index_right_iff undef hstep (mul_nonneg hzero (le_of_lt hcells))
      (mul_le_of_le_one_left (le_of_lt hcells) hone), hends, Inside]
  constructor
  · rintro ⟨hmax, h32⟩
    exact ⟨hmax, fun he => by have := h32 he; rwa [he] at this⟩
  · rintro ⟨hmax, h32⟩
    exact ⟨hmax, fun he => by have := h32 he; rwa [he]⟩

theorem halves_interleave64 (x y : BitVec 32) :
    ((deinterleave64 (interleave64 x y)).setWidth 32 : BitVec 32) = x ∧
      ((deinterleave64 (interleave64 x y) >>> 32).setWidth 32 : BitVec 32) = y := by
  rw [deinterleave64_interleave64]
  constructor
  · apply BitVec.eq_of_getLsbD_eq
    intro j hj
    rw [BitVec.getLsbD_setWidth, BitVec.getLsbD_append, if_pos hj, decide_eq_true hj, Bool.true_and]
  · apply BitVec.eq_of_getLsbD_eq
    intro j hj
    have hindex : 32+j-32 = j := by omega
    rw [BitVec.getLsbD_setWidth, BitVec.getLsbD_ushiftRight, BitVec.getLsbD_append,
      if_neg (by omega), hindex, decide_eq_true hj, Bool.true_and]

theorem interleave64_bounded_iff (x y : BitVec 32) (step : ℕ) :
    (interleave64 x y).toNat < 2^(2*step) ↔ x.toNat < 2^step ∧ y.toNat < 2^step := by
  obtain ⟨hx, hy⟩ := halves_interleave64 x y
  constructor
  · intro hb
    have hbound : Bounded ⟨interleave64 x y, step⟩ := hb
    have hlat := latIndex_lt hbound
    have hlong := longIndex_lt hbound
    rw [latIndex, hx] at hlat
    rw [longIndex, hy] at hlong
    exact ⟨hlat, hlong⟩
  · rintro ⟨hlat, hlong⟩
    have hbound : Bounded ⟨interleave64 x y, step⟩ := by
      apply bounded_of_high
      intro j hj
      have hj : step ≤ j/2 := by
        have hj : 2*step ≤ j := hj
        omega
      have hpow : 2^step ≤ 2^(j/2) := Nat.pow_le_pow_right (by norm_num) hj
      rw [getLsbD_interleave64, ← BitVec.testBit_toNat, ← BitVec.testBit_toNat,
        Nat.testBit_lt_two_pow (lt_of_lt_of_le hlat hpow),
        Nat.testBit_lt_two_pow (lt_of_lt_of_le hlong hpow), ite_self]
    exact hbound

theorem geohashEncode_some
    (h : geohashEncode undef longRange latRange longitude latitude step = some hash) :
    step ≤ 32 ∧ step ≠ 0 ∧ rangeIsZero latRange = false ∧ rangeIsZero longRange = false ∧
      (latRange.min ≤ latitude ∧ latitude ≤ latRange.max) ∧
      (longRange.min ≤ longitude ∧ longitude ≤ longRange.max) ∧
      hash = ⟨interleave64 (toUint32 undef (offset latRange latitude*2^step))
        (toUint32 undef (offset longRange longitude*2^step)), step⟩ := by
  unfold geohashEncode at h
  split_ifs at h with h1 h2 h3
  simp only [not_or, not_lt, gt_iff_lt] at h1 h3
  obtain ⟨hstep, hne, hlat, hlong⟩ := h1
  obtain ⟨h4, h5, h6, h7⟩ := h3
  exact ⟨hstep, hne, by simpa using hlat, by simpa using hlong, ⟨h4, h5⟩, ⟨h6, h7⟩,
    (Option.some.inj h).symm⟩

theorem cellRight_iff (hlong : longRange.min < longRange.max) (hlat : latRange.min < latRange.max)
    (h : geohashEncode undef longRange latRange longitude latitude step = some hash) :
    CellRight longRange latRange longitude latitude hash ↔
      Inside latRange step latitude ∧ Inside longRange step longitude := by
  obtain ⟨hstep, hne, hzlat, hzlong, ⟨hlatlo, hlathi⟩, ⟨hlonglo, hlonghi⟩, rfl⟩ :=
    geohashEncode_some h
  rw [← coordinate_right_iff undef hlat hstep hlatlo hlathi,
    ← coordinate_right_iff undef hlong hstep hlonglo hlonghi]
  generalize toUint32 undef (offset latRange latitude*2^step) = x
  generalize toUint32 undef (offset longRange longitude*2^step) = y
  obtain ⟨hx, hy⟩ := halves_interleave64 x y
  have hnonzero : hashIsZero ⟨interleave64 x y, step⟩ = false := by
    rw [hashIsZero]
    exact decide_eq_false (fun hc => hne hc.2)
  have hdecode : geohashDecode longRange latRange ⟨interleave64 x y, step⟩ = some {
      hash := ⟨interleave64 x y, step⟩
      latitude := {
        min := latRange.min+((x.toNat : ℚ)/2^step)*(latRange.max-latRange.min)
        max := latRange.min+(((x+1).toNat : ℚ)/2^step)*(latRange.max-latRange.min) }
      longitude := {
        min := longRange.min+((y.toNat : ℚ)/2^step)*(longRange.max-longRange.min)
        max := longRange.min+(((y+1).toNat : ℚ)/2^step)*(longRange.max-longRange.min) } } := by
    rw [geohashDecode, hnonzero, hzlat, hzlong, if_neg (by simp)]
    dsimp only
    rw [hx, hy]
  constructor
  · rintro ⟨hbits, area, harea, hlong1, hlong2, hlat1, hlat2⟩
    obtain ⟨hxlt, hylt⟩ := (interleave64_bounded_iff x y step).1 hbits
    rw [hdecode] at harea
    obtain rfl := Option.some.inj harea
    exact ⟨⟨hxlt, hlat1, hlat2⟩, ⟨hylt, hlong1, hlong2⟩⟩
  · rintro ⟨⟨hxlt, hlat1, hlat2⟩, ⟨hylt, hlong1, hlong2⟩⟩
    exact ⟨(interleave64_bounded_iff x y step).2 ⟨hxlt, hylt⟩, _, hdecode, hlong1, hlong2, hlat1,
      hlat2⟩

/-- Cells of accepted points, the round trip of the interleaving, and the eight neighbors. -/
theorem geohash_cells (undef : ℚ → BitVec 32) :
    (∀ (longRange latRange : GeoHashRange) (longitude latitude : ℚ) (step : ℕ)
      (hash : GeoHashBits), longRange.min < longRange.max → latRange.min < latRange.max →
      geohashEncode undef longRange latRange longitude latitude step = some hash →
      (CellRight longRange latRange longitude latitude hash ↔
        Inside latRange step latitude ∧ Inside longRange step longitude)) ∧
    (∀ x y : BitVec 32, deinterleave64 (interleave64 x y) = y ++ x) ∧
    (∀ (h : GeoHashBits) (dir : Direction), 1 ≤ h.step → h.step ≤ 32 →
      h.bits.toNat < 2^(2*h.step) →
      Moved h ((geohashNeighbors h).at dir) dir.delta.1 dir.delta.2 ∧
      (geohashNeighbors ((geohashNeighbors h).at dir)).at dir.opposite = h) := by
  refine ⟨?_, deinterleave64_interleave64, ?_⟩
  · intro longRange latRange longitude latitude step hash hlong hlat h
    exact cellRight_iff hlong hlat h
  · intro h dir _ hk hb
    exact ⟨neighbor_moved hb hk dir, neighbor_back hb hk dir⟩

theorem geoRanges : geohashGetCoordRange.1.min < geohashGetCoordRange.1.max ∧
    geohashGetCoordRange.2.min < geohashGetCoordRange.2.max := by
  constructor
  · show (-180 : ℚ) < 180
    norm_num
  · show (-8505112878/100000000 : ℚ) < 8505112878/100000000
    norm_num

theorem geohashEncodeType_equator (undef : ℚ → BitVec 32) (hlo : -180 ≤ longitude)
    (hhi : longitude ≤ 180) : ∃ hash, geohashEncodeType undef longitude 0 26 = some hash := by
  have hlat1 : ¬(0 : ℚ) > geoLatMax := by norm_num [geoLatMax]
  have hlat2 : ¬(0 : ℚ) < geoLatMin := by norm_num [geoLatMin]
  have hlong1 : ¬longitude > geoLongMax := not_lt.2 hhi
  have hlong2 : ¬longitude < geoLongMin := not_lt.2 hlo
  have hzero : rangeIsZero ⟨geoLatMin, geoLatMax⟩ = false := by
    rw [rangeIsZero]
    exact decide_eq_false (fun hc => absurd hc.1 (by norm_num [geoLatMax]))
  have hzero' : rangeIsZero ⟨geoLongMin, geoLongMax⟩ = false := by
    rw [rangeIsZero]
    exact decide_eq_false (fun hc => absurd hc.1 (by norm_num [geoLongMax]))
  unfold geohashEncodeType geohashEncode geohashGetCoordRange
  dsimp only
  have hsupported : ¬(longitude > geoLongMax ∨ longitude < geoLongMin ∨ (0 : ℚ) > geoLatMax ∨
      (0 : ℚ) < geoLatMin) := by
    simp only [not_or]
    exact ⟨hlong1, hlong2, hlat1, hlat2⟩
  have hinside : ¬((0 : ℚ) < geoLatMin ∨ (0 : ℚ) > geoLatMax ∨ longitude < geoLongMin ∨
      longitude > geoLongMax) := by
    simp only [not_or]
    exact ⟨hlat2, hlat1, hlong2, hlong1⟩
  rw [hzero, hzero', if_neg (by norm_num), if_neg hsupported, if_neg hinside]
  exact ⟨_, rfl⟩

theorem geohash_cells_sample : ∃ hash, geohashEncodeType (fun _ => 0) 0 0 26 = some hash ∧
    CellRight geohashGetCoordRange.1 geohashGetCoordRange.2 0 0 hash := by
  obtain ⟨hash, hhash⟩ := geohashEncodeType_equator (fun _ => 0)
    (show (-180 : ℚ) ≤ 0 by norm_num) (by norm_num)
  refine ⟨hash, hhash, ((geohash_cells _).1 _ _ _ _ _ _ geoRanges.1 geoRanges.2 hhash).2 ⟨?_, ?_⟩⟩
  · exact ⟨by norm_num [geohashGetCoordRange, geoLatMax], by norm_num⟩
  · exact ⟨by norm_num [geohashGetCoordRange, geoLongMax], by norm_num⟩

/-- Longitude 180, which is accepted: its index is 2^26 with step 26. -/
theorem geohash_upper_end : ∃ hash, geohashEncodeType (fun _ => 0) 180 0 26 = some hash ∧
    ¬CellRight geohashGetCoordRange.1 geohashGetCoordRange.2 180 0 hash := by
  obtain ⟨hash, hhash⟩ := geohashEncodeType_equator (fun _ => 0)
    (show (-180 : ℚ) ≤ 180 by norm_num) le_rfl
  refine ⟨hash, hhash, ?_⟩
  intro hright
  obtain ⟨-, hmax, -⟩ := (cellRight_iff geoRanges.1 geoRanges.2 hhash).1 hright
  exact absurd hmax (by norm_num [geohashGetCoordRange, geoLongMax])

end RedisCore.Geohash
