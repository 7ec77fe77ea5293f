import RedisCore.InterleavedBits

/-! Geohash cells (`geohash.c`), with `double` arithmetic read as that of rational numbers. -/

namespace RedisCore.Geohash

structure GeoHashRange where
  min : ℚ
  max : ℚ
deriving DecidableEq, Repr

structure GeoHashBits where
  bits : BitVec 64
  step : ℕ
deriving DecidableEq, Repr

structure GeoHashArea where
  hash : GeoHashBits
  longitude : GeoHashRange
  latitude : GeoHashRange
deriving DecidableEq, Repr

def geoLatMin : ℚ := -8505112878/100000000
def geoLatMax : ℚ := 8505112878/100000000
def geoLongMin : ℚ := -180
def geoLongMax : ℚ := 180

def rangeIsZero (r : GeoHashRange) : Bool := r.max = 0 ∧ r.min = 0

def hashIsZero (h : GeoHashBits) : Bool := h.bits = 0 ∧ h.step = 0

def spreadRound (x : BitVec 64) (shift : ℕ) (mask : BitVec 64) : BitVec 64 :=
  (x ||| (x <<< shift)) &&& mask

def spreadWord (x : BitVec 64) : BitVec 64 :=
  let x := spreadRound x 16 0x0000FFFF0000FFFF
  let x := spreadRound x 8 0x00FF00FF00FF00FF
  let x := spreadRound x 4 0x0F0F0F0F0F0F0F0F
  let x := spreadRound x 2 0x3333333333333333
  spreadRound x 1 0x5555555555555555

def interleave64 (xlo ylo : BitVec 32) : BitVec 64 :=
  let x := spreadWord (xlo.setWidth 64)
  let y := spreadWord (ylo.setWidth 64)
  x ||| (y <<< 1)

def gatherRound (x : BitVec 64) (shift : ℕ) (mask : BitVec 64) : BitVec 64 :=
  (x ||| (x >>> shift)) &&& mask

def gatherWord (x : BitVec 64) : BitVec 64 :=
  let x := gatherRound x 0 0x5555555555555555
  let x := gatherRound x 1 0x3333333333333333
  let x := gatherRound x 2 0x0F0F0F0F0F0F0F0F
  let x := gatherRound x 4 0x00FF00FF00FF00FF
  let x := gatherRound x 8 0x0000FFFF0000FFFF
  gatherRound x 16 0x00000000FFFFFFFF

def deinterleave64 (interleaved : BitVec 64) : BitVec 64 :=
  let x := gatherWord interleaved
  let y := gatherWord (interleaved >>> 1)
  x ||| (y <<< 32)

def truncate (q : ℚ) : ℤ := q.num.tdiv q.den

/-- The conversion of a `double` to `uint32_t`. It is undefined in C where the number does not fit,
and `undef` says what it gives there. -/
def toUint32 (undef : ℚ → BitVec 32) (q : ℚ) : BitVec 32 :=
  if 0 ≤ truncate q ∧ truncate q < 2^32 then BitVec.ofInt 32 (truncate q) else undef q

def geohashEncode (undef : ℚ → BitVec 32) (longRange latRange : GeoHashRange)
    (longitude latitude : ℚ) (step : ℕ) : Option GeoHashBits :=
  if step > 32 ∨ step = 0 ∨ rangeIsZero latRange ∨ rangeIsZero longRange then none
  else if longitude > geoLongMax ∨ longitude < geoLongMin ∨ latitude > geoLatMax ∨
      latitude < geoLatMin then none
  else if latitude < latRange.min ∨ latitude > latRange.max ∨ longitude < longRange.min ∨
      longitude > longRange.max then none
  else
    let latOffset := (latitude-latRange.min)/(latRange.max-latRange.min)
    let longOffset := (longitude-longRange.min)/(longRange.max-longRange.min)
    let latOffset := latOffset*2^step
    let longOffset := longOffset*2^step
    some ⟨interleave64 (toUint32 undef latOffset) (toUint32 undef longOffset), step⟩

/-- The sums `ilato + 1` and `ilono + 1` are those of `uint32_t` numbers. -/
def geohashDecode (longRange latRange : GeoHashRange) (hash : GeoHashBits) : Option GeoHashArea :=
  if hashIsZero hash ∨ rangeIsZero latRange ∨ rangeIsZero longRange then none
  else
    let step := hash.step
    let hashSep := deinterleave64 hash.bits
    let latScale := latRange.max-latRange.min
    let longScale := longRange.max-longRange.min
    let ilato : BitVec 32 := hashSep.setWidth 32
    let ilono : BitVec 32 := (hashSep >>> 32).setWidth 32
    some {
      hash
      latitude := {
        min := latRange.min+((ilato.toNat : ℚ)/2^step)*latScale
        max := latRange.min+(((ilato+1).toNat : ℚ)/2^step)*latScale }
      longitude := {
        min := longRange.min+((ilono.toNat : ℚ)/2^step)*longScale
        max := longRange.min+(((ilono+1).toNat : ℚ)/2^step)*longScale } }

def geohashGetCoordRange : GeoHashRange × GeoHashRange :=
  (⟨geoLongMin, geoLongMax⟩, ⟨geoLatMin, geoLatMax⟩)

def geohashEncodeType (undef : ℚ → BitVec 32) (longitude latitude : ℚ) (step : ℕ) :
    Option GeoHashBits :=
  geohashEncode undef geohashGetCoordRange.1 geohashGetCoordRange.2 longitude latitude step

def geohashDecodeType (hash : GeoHashBits) : Option GeoHashArea :=
  geohashDecode geohashGetCoordRange.1 geohashGetCoordRange.2 hash

def geohashMoveX (hash : GeoHashBits) (d : ℤ) : GeoHashBits :=
  if d = 0 then hash
  else
    let x := hash.bits &&& 0xaaaaaaaaaaaaaaaa
    let y := hash.bits &&& 0x5555555555555555
    let zz : BitVec 64 := (0x5555555555555555 : BitVec 64) >>> (64-hash.step*2)
    let x := if d > 0 then x+(zz+1) else (x ||| zz)-(zz+1)
    let x := x &&& ((0xaaaaaaaaaaaaaaaa : BitVec 64) >>> (64-hash.step*2))
    { hash with bits := x ||| y }

def geohashMoveY (hash : GeoHashBits) (d : ℤ) : GeoHashBits :=
  if d = 0 then hash
  else
    let x := hash.bits &&& 0xaaaaaaaaaaaaaaaa
    let y := hash.bits &&& 0x5555555555555555
    let zz : BitVec 64 := (0xaaaaaaaaaaaaaaaa : BitVec 64) >>> (64-hash.step*2)
    let y := if d > 0 then y+(zz+1) else (y ||| zz)-(zz+1)
    let y := y &&& ((0x5555555555555555 : BitVec 64) >>> (64-hash.step*2))
    { hash with bits := x ||| y }

structure GeoHashNeighbors where
  north : GeoHashBits
  east : GeoHashBits
  west : GeoHashBits
  south : GeoHashBits
  northEast : GeoHashBits
  southEast : GeoHashBits
  northWest : GeoHashBits
  southWest : GeoHashBits
deriving DecidableEq, Repr

def geohashNeighbors (hash : GeoHashBits) : GeoHashNeighbors where
  east := geohashMoveY (geohashMoveX hash 1) 0
  west := geohashMoveY (geohashMoveX hash (-1)) 0
  south := geohashMoveY (geohashMoveX hash 0) (-1)
  north := geohashMoveY (geohashMoveX hash 0) 1
  northWest := geohashMoveY (geohashMoveX hash (-1)) 1
  northEast := geohashMoveY (geohashMoveX hash 1) 1
  southEast := geohashMoveY (geohashMoveX hash 1) (-1)
  southWest := geohashMoveY (geohashMoveX hash (-1)) (-1)

def latIndex (hash : GeoHashBits) : ℕ := ((deinterleave64 hash.bits).setWidth 32 : BitVec 32).toNat

def longIndex (hash : GeoHashBits) : ℕ :=
  ((deinterleave64 hash.bits >>> 32).setWidth 32 : BitVec 32).toNat

end RedisCore.Geohash
