import RedisCore.AofModel

/-! Expire times given by clients (`expire.c`, `t_string.c`, `db.c`), in one database.  The time is
computed in wrapping 64 bit arithmetic and compared with the clock afterwards; a negative time that
is stored stands for no expire time. -/

namespace RedisCore.Expire
open Function (update_self)

open Keyspace (RedisDb)
open Aof (SetOptions noOptions setOptions Proc)

variable {V : Type}

/-- The role of the server and the clock while a command runs: `server.mstime`, the call of
`mstime` for the base of a relative time, and the last call of `mstime`. -/
structure Ctx where
  slave : Bool
  loading : Bool
  cached : ℤ
  basetime : ℤ
  now : ℤ
deriving DecidableEq, Repr

inductive Reply where
  | ok
  | one
  | zero
  | null
  | error (msg : String)
deriving DecidableEq, Repr

def dbDelete (db : RedisDb V) (k : Bytes) : RedisDb V :=
  { dict := Function.update db.dict k none
    expires := Function.update db.expires k none }

def getExpire (db : RedisDb V) (k : Bytes) : ℤ := (db.expires k).getD (-1)

def setExpire (db : RedisDb V) (k : Bytes) (when : ℤ) : RedisDb V :=
  { db with expires := Function.update db.expires k (some when) }

theorem dbDelete_dict (db : RedisDb V) (k : Bytes) : (dbDelete db k).dict k = none :=
  update_self _ _ _

theorem dbDelete_expires (db : RedisDb V) (k : Bytes) : (dbDelete db k).expires k = none :=
  update_self _ _ _

theorem setExpire_expires (db : RedisDb V) (k : Bytes) (when : ℤ) :
    (setExpire db k when).expires k = some when := update_self _ _ _

def keyIsExpired (loading : Bool) (now : ℤ) (db : RedisDb V) (k : Bytes) : Bool :=
  if getExpire db k < 0 then false
  else if loading then false
  else decide (getExpire db k < now)

def expireIfNeeded (slave loading : Bool) (now : ℤ) (db : RedisDb V) (k : Bytes) : RedisDb V × Bool :=
  if keyIsExpired loading now db k then (if slave then db else dbDelete db k, true) else (db, false)

def lookupKeyRead (slave loading : Bool) (now : ℤ) (db : RedisDb V) (k : Bytes) :
    RedisDb V × Option V :=
  let (db, expired) := expireIfNeeded slave loading now db k
  (db, if expired then none else db.dict k)

def lookupKeyWrite (ctx : Ctx) (db : RedisDb V) (k : Bytes) : RedisDb V × Option V :=
  let (db, _) := expireIfNeeded ctx.slave ctx.loading ctx.cached db k
  (db, db.dict k)

def activeExpireCycleTryExpire (now : ℤ) (db : RedisDb V) (k : Bytes) : RedisDb V :=
  match db.expires k with
  | none => db
  | some t => if t < now then dbDelete db k else db

def getLongLongFromObjectOrReply (o : Bytes) : Except Reply ℤ :=
  match string2ll o with
  | none => .error (.error "ERR value is not an integer or out of range")
  | some v => .ok v

def checkAlreadyExpired (ctx : Ctx) (when : ℤ) : Bool :=
  decide (when ≤ ctx.now) && !ctx.loading && !ctx.slave

def expireGenericCommand (ctx : Ctx) (basetime : ℤ) (seconds : Bool) (k param : Bytes)
    (db : RedisDb V) : RedisDb V × Reply :=
  match getLongLongFromObjectOrReply param with
  | .error e => (db, e)
  | .ok n =>
    let when := if seconds then toLong (n * 1000) else n
    let when := toLong (when + basetime)
    let (db, o) := lookupKeyWrite ctx db k
    match o with
    | none => (db, .zero)
    | some _ =>
      if checkAlreadyExpired ctx when then (dbDelete db k, .one) else (setExpire db k when, .one)

def setMilliseconds (name : String) (o : SetOptions) : Except Reply ℤ :=
  match o.expire with
  | none => .ok 0
  | some (s, seconds) =>
    match getLongLongFromObjectOrReply s with
    | .error e => .error e
    | .ok milliseconds =>
      if milliseconds ≤ 0 then .error (.error ("ERR invalid expire time in " ++ name))
      else .ok (if seconds then toLong (milliseconds * 1000) else milliseconds)

def genericSetKey (ctx : Ctx) (db : RedisDb V) (k : Bytes) (v : V) (keepttl : Bool) : RedisDb V :=
  let (db, _) := lookupKeyWrite ctx db k
  { dict := Function.update db.dict k (some v)
    expires := if keepttl then db.expires else Function.update db.expires k none }

def setGenericCommand (ctx : Ctx) (name : String) (o : SetOptions) (k : Bytes) (v : V)
    (db : RedisDb V) : RedisDb V × Reply :=
  match setMilliseconds name o with
  | .error e => (db, e)
  | .ok milliseconds =>
    if (o.nx && (lookupKeyWrite ctx db k).2.isSome) || (o.xx && (lookupKeyWrite ctx db k).2.isNone) then
      ((lookupKeyWrite ctx db k).1, .null)
    else
      let db := genericSetKey ctx db k v o.keepttl
      (if o.expire.isSome then setExpire db k (toLong (ctx.now + milliseconds)) else db, .ok)

def expireUnit (ctx : Ctx) : Proc → Option (ℤ × Bool)
  | .expire => some (ctx.basetime, true)
  | .pexpire => some (ctx.basetime, false)
  | .expireat => some (0, true)
  | .pexpireat => some (0, false)
  | _ => none

def call (stringObject : Bytes → V) (ctx : Ctx) (proc : Proc) (argv : List Bytes) (db : RedisDb V) :
    RedisDb V × Reply :=
  match proc, argv with
  | .set, _ :: k :: v :: opts =>
    match setOptions opts noOptions with
    | none => (db, .error "ERR syntax error")
    | some o => setGenericCommand ctx "set" o k (stringObject v) db
  | .setex, [_, k, s, v] =>
    setGenericCommand ctx "setex" { noOptions with expire := some (s, true) } k (stringObject v) db
  | .psetex, [_, k, s, v] =>
    setGenericCommand ctx "psetex" { noOptions with expire := some (s, false) } k (stringObject v) db
  | proc, [_, k, s] =>
    match expireUnit ctx proc with
    | none => (db, .error "ERR wrong number of arguments")
    | some (basetime, seconds) => expireGenericCommand ctx basetime seconds k s db
  | _, _ => (db, .error "ERR wrong number of arguments")

/-- The reply to PTTL: -2 for no key, -1 for no expire time. -/
def pttlCommand (slave : Bool) (mstime : ℤ) (db : RedisDb V) (k : Bytes) : ℤ :=
  let (db, o) := lookupKeyRead slave false mstime db k
  match o with
  | none => -2
  | some _ =>
    let expire := getExpire db k
    let ttl := if expire ≠ -1 then toLong (expire - mstime) else -1
    if expire ≠ -1 ∧ ttl < 0 then 0 else ttl

def exactTime (ctx : Ctx) (proc : Proc) (argv : List Bytes) : Option ℤ :=
  match proc, argv with
  | .set, _ :: _ :: _ :: opts =>
    (setOptions opts noOptions).bind (fun o => o.expire.bind (fun e => exactly ctx.now e.2 e.1))
  | .setex, [_, _, s, _] => exactly ctx.now true s
  | .psetex, [_, _, s, _] => exactly ctx.now false s
  | proc, [_, _, s] => (expireUnit ctx proc).bind (fun u => exactly u.1 u.2 s)
  | _, _ => none
where
  exactly (base : ℤ) (seconds : Bool) (s : Bytes) : Option ℤ :=
    (string2ll s).map (fun t => base + t * (if seconds then 1000 else 1))

structure Behaves (db : RedisDb V) (k : Bytes) (exact : ℤ) (slave : Bool) (mstime : ℤ) : Prop where
  alive : mstime < exact → pttlCommand slave mstime db k = exact - mstime ∧
    activeExpireCycleTryExpire mstime db k = db
  expired : exact < mstime → pttlCommand slave mstime db k = -2

def BehavesFrom (db : RedisDb V) (k : Bytes) (exact since : ℤ) : Prop :=
  ∀ slave mstime, since ≤ mstime → mstime < 2 ^ 63 → Behaves db k exact slave mstime

def deletesAtOnce (ctx : Ctx) (proc : Proc) : Bool :=
  (expireUnit ctx proc).isSome && !ctx.loading && !ctx.slave

/-- The times that are kept: a 64 bit number, not negative where it is stored; and those in the past
that are congruent to a time in the past. -/
def Kept (deletes : Bool) (exact now : ℤ) : Prop :=
  if deletes then (-2 ^ 63 ≤ exact ∧ exact < 2 ^ 63) ∨
    (exact ≤ now ∧ (exact % 2 ^ 64 ≤ now ∨ 2 ^ 63 ≤ exact % 2 ^ 64))
  else (0 ≤ exact ∧ exact < 2 ^ 63) ∨ (exact ≤ now ∧ exact % 2 ^ 64 < now)

theorem toLong_add (a b : ℤ) : toLong (toLong a + b) = toLong (a + b) := Int.bmod_add_bmod

theorem toLong_eq_self {n : ℤ} : toLong n = n ↔ -2 ^ 63 ≤ n ∧ n < 2 ^ 63 := by
  constructor
  · intro h
    rw [← h]
    exact toLong_range n
  · intro h
    exact toLong_of_fits h.1 h.2

theorem toLong_emod (n : ℤ) : toLong n =
    if n % 2 ^ 64 < 2 ^ 63 then n % 2 ^ 64 else n % 2 ^ 64 - 2 ^ 64 := by
  unfold toLong Int.bmod
  push_cast
  split_ifs <;> omega

section

variable {db : RedisDb V} {k : Bytes} {exact since w : ℤ}

theorem pttl_missing (slave : Bool) (mstime : ℤ) (hdict : db.dict k = none)
    (hexpires : db.expires k = none) : pttlCommand slave mstime db k = -2 := by
  have hexpired : keyIsExpired false mstime db k = false := by
    unfold keyIsExpired getExpire
    rw [hexpires]
    rfl
  unfold pttlCommand lookupKeyRead expireIfNeeded
  simp only [hexpired, hdict, Bool.false_eq_true, if_false]

theorem pttl_expired (slave : Bool) {mstime : ℤ} (hexpires : db.expires k = some w) (hw : 0 ≤ w) (hlt : w < mstime) :
    pttlCommand slave mstime db k = -2 := by
  have hexpired : keyIsExpired false mstime db k = true := by
    unfold keyIsExpired getExpire
    rw [hexpires, Option.getD_some, if_neg (not_lt.mpr hw)]
    simp only [Bool.false_eq_true, if_false, decide_eq_true_eq]
    exact hlt
  unfold pttlCommand lookupKeyRead expireIfNeeded
  simp only [hexpired, if_true]

theorem pttl_present {v : V} (slave : Bool) {mstime : ℤ} (hdict : db.dict k = some v)
    (hexpires : db.expires k = some w) (h : w < 0 ∨ mstime ≤ w) : pttlCommand slave mstime db k =
      if w ≠ -1 ∧ (if w ≠ -1 then toLong (w - mstime) else -1) < 0 then 0
      else if w ≠ -1 then toLong (w - mstime) else -1 := by
  have hget : getExpire db k = w := by
    unfold getExpire
    rw [hexpires, Option.getD_some]
  have hexpired : keyIsExpired false mstime db k = false := by
    unfold keyIsExpired
    rw [hget]
    by_cases hneg : w < 0
    · rw [if_pos hneg]
    · rw [if_neg hneg]
      simp only [Bool.false_eq_true, if_false, decide_eq_false_iff_not, not_lt]
      exact h.resolve_left hneg
  unfold pttlCommand lookupKeyRead expireIfNeeded
  simp only [hexpired, Bool.false_eq_true, if_false, hdict, hget]

theorem pttl_alive {v : V} (slave : Bool) {mstime : ℤ} (hdict : db.dict k = some v)
    (hexpires : db.expires k = some w) (hpos : 0 ≤ mstime) (hle : mstime ≤ w) (hw : w < 2 ^ 63) :
    pttlCommand slave mstime db k = w - mstime := by
  have hlong : toLong (w - mstime) = w - mstime := toLong_of_fits (by omega) (by omega)
  have hne : w ≠ -1 := by omega
  rw [pttl_present slave hdict hexpires (Or.inr hle), if_pos hne, hlong, if_neg (by omega)]

theorem pttl_negative {v : V} (slave : Bool) (mstime : ℤ) (hdict : db.dict k = some v)
    (hexpires : db.expires k = some w) (hneg : w < 0) : pttlCommand slave mstime db k ≠ -2 := by
  rw [pttl_present slave hdict hexpires (Or.inl hneg)]
  split_ifs <;> omega

theorem tryExpire_stored {v : V} {mstime : ℤ} (hdict : db.dict k = some v)
    (hexpires : db.expires k = some w) :
    activeExpireCycleTryExpire mstime db k = db ↔ mstime ≤ w := by
  unfold activeExpireCycleTryExpire
  rw [hexpires]
  dsimp only
  constructor
  · intro h
    by_contra hlt
    rw [if_pos (not_le.mp hlt)] at h
    have hnone := congrArg (fun db => db.dict k) h
    dsimp only [dbDelete] at hnone
    rw [update_self, hdict] at hnone
    cases hnone
  · intro h
    rw [if_neg (not_lt.mpr h)]

theorem deleted_behaves (hsince : since < 2 ^ 63) (hdict : db.dict k = none)
    (hexpires : db.expires k = none) : BehavesFrom db k exact since ↔ exact ≤ since := by
  constructor
  · intro h
    by_contra hlt
    have halive := ((h false since le_rfl hsince).alive (not_le.mp hlt)).1
    rw [pttl_missing false since hdict hexpires] at halive
    omega
  · intro h slave mstime hle _
    constructor
    · intro hlt
      omega
    · intro _
      exact pttl_missing slave mstime hdict hexpires

theorem stored_behaves {v : V} (hsince : since < 2 ^ 63) (hpos : 0 ≤ since)
    (hdict : db.dict k = some v) (hexpires : db.expires k = some (toLong exact)) :
    BehavesFrom db k exact since ↔
      0 ≤ toLong exact ∧ (toLong exact = exact ∨ (exact ≤ since ∧ toLong exact < since)) := by
  obtain ⟨hlo, hhi⟩ := toLong_range exact
  have hsame := @toLong_eq_self exact
  constructor
  · intro h
    by_cases hfuture : since < exact
    · obtain ⟨hpttl, htry⟩ := (h false since le_rfl hsince).alive hfuture
      have hle := (tryExpire_stored hdict hexpires).mp htry
      rw [pttl_alive false hdict hexpires hpos hle hhi] at hpttl
      exact ⟨by omega, Or.inl (by omega)⟩
    · by_cases hfits : toLong exact = exact
      · refine ⟨?_, Or.inl hfits⟩
        by_contra hneg
        exact pttl_negative false since hdict hexpires (not_le.mp hneg)
          ((h false since le_rfl hsince).expired (by omega))
      · have hpast : exact < since := by omega
        have hgone := (h false since le_rfl hsince).expired hpast
        by_cases hneg : toLong exact < 0
        · exact absurd hgone (pttl_negative false since hdict hexpires hneg)
        · by_cases hlate : since ≤ toLong exact
          · rw [pttl_alive false hdict hexpires hpos hlate hhi] at hgone
            omega
          · exact ⟨not_lt.mp hneg, Or.inr ⟨hpast.le, not_le.mp hlate⟩⟩
  · intro ⟨hw, hcases⟩ slave mstime hle hmax
    constructor
    · intro hlt
      have heq : toLong exact = exact := by omega
      refine ⟨?_, (tryExpire_stored hdict hexpires).mpr (by omega)⟩
      rw [pttl_alive slave hdict hexpires (by omega) (by omega) hhi, heq]
    · intro hlt
      exact pttl_expired slave hexpires hw (by omega)

end

section

variable {ctx : Ctx} {db : RedisDb V} {k : Bytes} {exact : ℤ}

theorem kept_false : Kept false exact ctx.now ↔
    (0 ≤ exact ∧ exact < 2 ^ 63) ∨ (exact ≤ ctx.now ∧ exact % 2 ^ 64 < ctx.now) := by
  unfold Kept
  rw [if_neg Bool.false_ne_true]

theorem kept_true : Kept true exact ctx.now ↔ (-2 ^ 63 ≤ exact ∧ exact < 2 ^ 63) ∨
    (exact ≤ ctx.now ∧ (exact % 2 ^ 64 ≤ ctx.now ∨ 2 ^ 63 ≤ exact % 2 ^ 64)) := by
  unfold Kept
  rw [if_pos rfl]

theorem stored_kept {v : V} (hpos : 0 ≤ ctx.now) (hmax : ctx.now < 2 ^ 63)
    (hdict : db.dict k = some v) (hexpires : db.expires k = some (toLong exact)) :
    BehavesFrom db k exact ctx.now ↔ Kept false exact ctx.now := by
  have hmod := toLong_emod exact
  have hsame := @toLong_eq_self exact
  rw [stored_behaves hmax hpos hdict hexpires, kept_false]
  split_ifs at hmod <;> omega

theorem lookupKeyWrite_dict (ctx : Ctx) (db : RedisDb V) (k : Bytes) :
    (lookupKeyWrite ctx db k).1.dict k = (lookupKeyWrite ctx db k).2 := rfl

theorem expireGeneric_spec (hpos : 0 ≤ ctx.now) (hmax : ctx.now < 2 ^ 63) (basetime : ℤ)
    (seconds : Bool) (k param : Bytes) (db : RedisDb V) :
    ((∃ msg, expireGenericCommand ctx basetime seconds k param db = (db, .error msg)) ∨
      (expireGenericCommand ctx basetime seconds k param db).2 = .zero ∧
        (lookupKeyWrite ctx db k).2 = none ∨
      (expireGenericCommand ctx basetime seconds k param db).2 = .one ∧
        ∀ exact, exactTime.exactly basetime seconds param = some exact →
          (BehavesFrom (expireGenericCommand ctx basetime seconds k param db).1 k exact ctx.now ↔
            Kept (!ctx.loading && !ctx.slave) exact ctx.now)) := by
  unfold expireGenericCommand getLongLongFromObjectOrReply exactTime.exactly
  cases hparam : string2ll param with
  | none => exact Or.inl ⟨_, rfl⟩
  | some n =>
    right
    dsimp only
    cases hlookup : (lookupKeyWrite ctx db k).2 with
    | none => exact Or.inl ⟨rfl, rfl⟩
    | some v =>
      right
      dsimp only
      have hwhen : toLong ((if seconds then toLong (n * 1000) else n) + basetime) =
          toLong (basetime + n * (if seconds then 1000 else 1)) := by
        cases seconds with
        | true =>
          simp only [if_true]
          rw [toLong_add, add_comm]
        | false =>
          simp only [Bool.false_eq_true, if_false]
          rw [mul_one, add_comm]
      rw [hwhen]
      refine ⟨by split_ifs <;> rfl, ?_⟩
      intro exact hexact
      rw [Option.map_some, Option.some_inj] at hexact
      rw [hexact]
      unfold checkAlreadyExpired
      rw [Bool.and_assoc]
      have hmod := toLong_emod exact
      have hsame := @toLong_eq_self exact
      cases hdel : (!ctx.loading && !ctx.slave) with
      | false =>
        rw [Bool.and_false, if_neg Bool.false_ne_true]
        apply stored_kept hpos hmax
        · exact (lookupKeyWrite_dict ctx db k).trans hlookup
        · exact setExpire_expires _ _ _
      | true =>
        rw [Bool.and_true, kept_true]
        by_cases hpast : toLong exact ≤ ctx.now
        · rw [if_pos (decide_eq_true hpast), deleted_behaves hmax (dbDelete_dict _ _) (dbDelete_expires _ _)]
          split_ifs at hmod <;> omega
        · have hstored := @stored_kept V ctx
            (setExpire (lookupKeyWrite ctx db k).1 k (toLong exact)) k exact v hpos hmax
            ((lookupKeyWrite_dict ctx db k).trans hlookup) (setExpire_expires _ _ _)
          rw [if_neg (by rw [decide_eq_true_eq]; exact hpast), hstored, kept_false]
          split_ifs at hmod <;> omega

theorem setMilliseconds_error {name : String} {o : SetOptions} {e : Reply}
    (h : setMilliseconds name o = .error e) : ∃ msg, e = .error msg := by
  unfold setMilliseconds getLongLongFromObjectOrReply at h
  rcases hexpire : o.expire with _ | ⟨s, seconds⟩
  · rw [hexpire] at h
    cases h
  · rw [hexpire] at h
    dsimp only at h
    cases hs : string2ll s with
    | none =>
      rw [hs] at h
      exact ⟨_, (Except.error.inj h).symm⟩
    | some n =>
      rw [hs] at h
      dsimp only at h
      split_ifs at h
      exact ⟨_, (Except.error.inj h).symm⟩

theorem setGeneric_spec (hpos : 0 ≤ ctx.now) (hmax : ctx.now < 2 ^ 63) (name : String) (o : SetOptions)
    (k : Bytes) (v : V) (db : RedisDb V) :
    ((∃ msg, setGenericCommand ctx name o k v db = (db, .error msg)) ∨
      (setGenericCommand ctx name o k v db).2 = .null ∨
      (setGenericCommand ctx name o k v db).2 = .ok ∧
        ∀ exact, o.expire.bind (fun e => exactTime.exactly ctx.now e.2 e.1) = some exact →
          (BehavesFrom (setGenericCommand ctx name o k v db).1 k exact ctx.now ↔
            Kept false exact ctx.now)) := by
  unfold setGenericCommand
  cases hms : setMilliseconds name o with
  | error e =>
    left
    obtain ⟨msg, hmsg⟩ := setMilliseconds_error hms
    rw [hmsg]
    exact ⟨msg, rfl⟩
  | ok milliseconds =>
    right
    dsimp only
    split_ifs with hrefused hgiven
    · exact Or.inl rfl
    · right
      refine ⟨rfl, ?_⟩
      intro exact hexact
      apply stored_kept hpos hmax
      · exact update_self _ _ _
      · have hstored : toLong (ctx.now + milliseconds) = toLong exact := by
          obtain ⟨⟨s, seconds⟩, hexpire⟩ := Option.isSome_iff_exists.mp hgiven
          unfold setMilliseconds getLongLongFromObjectOrReply at hms
          unfold exactTime.exactly at hexact
          rw [hexpire] at hms hexact
          dsimp only [Option.bind_some] at hms hexact
          cases hs : string2ll s with
          | none =>
            rw [hs] at hexact
            cases hexact
          | some n =>
            rw [hs] at hms hexact
            dsimp only at hms
            rw [Option.map_some, Option.some_inj] at hexact
            by_cases hn : n ≤ 0
            · rw [if_pos hn] at hms
              cases hms
            · rw [if_neg hn] at hms
              rw [← Except.ok.inj hms, ← hexact]
              cases seconds with
              | true =>
                simp only [if_true]
                rw [add_comm, toLong_add, add_comm]
              | false =>
                simp only [Bool.false_eq_true, if_false]
                rw [mul_one]
        rw [← hstored]
        exact update_self _ _ _
    · right
      refine ⟨rfl, ?_⟩
      intro exact hexact
      rw [Option.not_isSome_iff_eq_none.mp hgiven] at hexact
      cases hexact

def Done (r : Reply) : Prop := r = .ok ∨ r = .one

/-- What a command does: an error changes nothing; a key that is there is given the time. -/
structure Exactly (ctx : Ctx) (proc : Proc) (argv : List Bytes) (db : RedisDb V)
    (result : RedisDb V × Reply) : Prop where
  error : ∀ msg, result.2 = .error msg → result.1 = db
  zero : result.2 = .zero → (lookupKeyWrite ctx db (arg argv 1)).2 = none
  done : Done result.2 → ∀ exact, exactTime ctx proc argv = some exact →
    (BehavesFrom result.1 (arg argv 1) exact ctx.now ↔ Kept (deletesAtOnce ctx proc) exact ctx.now)

theorem exactly_refused (proc : Proc) (argv : List Bytes) (db : RedisDb V) (msg : String) :
    Exactly ctx proc argv db (db, .error msg) := by
  refine ⟨fun _ _ => rfl, fun h => ?_, fun h => ?_⟩
  · cases h
  · rcases h with h | h <;> cases h

theorem exactly_set (hpos : 0 ≤ ctx.now) (hmax : ctx.now < 2 ^ 63) {proc : Proc} (argv : List Bytes)
    {o : SetOptions} (htime : exactTime ctx proc argv =
      o.expire.bind (fun e => exactTime.exactly ctx.now e.2 e.1))
    (hproc : expireUnit ctx proc = none) (name : String) (v : V) (db : RedisDb V) :
    Exactly ctx proc argv db (setGenericCommand ctx name o (arg argv 1) v db) := by
  have hdel : deletesAtOnce ctx proc = false := by
    unfold deletesAtOnce
    rw [hproc]
    rfl
  rcases setGeneric_spec hpos hmax name o (arg argv 1) v db with ⟨msg, hset⟩ | hnull | ⟨hok, hspec⟩
  · rw [hset]
    exact exactly_refused proc argv db msg
  · refine ⟨fun msg h => ?_, fun h => ?_, fun h => ?_⟩
    · rw [hnull] at h
      cases h
    · rw [hnull] at h
      cases h
    · rw [hnull] at h
      rcases h with h | h <;> cases h
  · refine ⟨fun msg h => ?_, fun h => ?_, fun _ exact hexact => ?_⟩
    · rw [hok] at h
      cases h
    · rw [hok] at h
      cases h
    · rw [hdel]
      exact hspec exact (htime.symm.trans hexact)

theorem exactly_expire (hpos : 0 ≤ ctx.now) (hmax : ctx.now < 2 ^ 63) {proc : Proc} {basetime : ℤ}
    {seconds : Bool} (hproc : expireUnit ctx proc = some (basetime, seconds)) (name k s : Bytes)
    (htime : exactTime ctx proc [name, k, s] = exactTime.exactly basetime seconds s) (db : RedisDb V) :
    Exactly ctx proc [name, k, s] db (expireGenericCommand ctx basetime seconds k s db) := by
  have hdel : deletesAtOnce ctx proc = (!ctx.loading && !ctx.slave) := by
    unfold deletesAtOnce
    rw [hproc, Option.isSome_some, Bool.true_and]
  rcases expireGeneric_spec hpos hmax basetime seconds k s db with ⟨msg, hcall⟩ | ⟨hzero, hnone⟩ |
    ⟨hone, hspec⟩
  · rw [hcall]
    exact exactly_refused proc _ db msg
  · refine ⟨fun msg h => ?_, fun _ => hnone, fun h => ?_⟩
    · rw [hzero] at h
      cases h
    · rw [hzero] at h
      rcases h with h | h <;> cases h
  · refine ⟨fun msg h => ?_, fun h => ?_, fun _ exact hexact => ?_⟩
    · rw [hone] at h
      cases h
    · rw [hone] at h
      cases h
    · rw [hdel]
      exact hspec exact (htime.symm.trans hexact)

end

/-- A command gives the exact time to a key if and only if that time is one of those that are kept. -/
theorem expires_exactly (stringObject : Bytes → V) (ctx : Ctx) (hpos : 0 ≤ ctx.now)
    (hmax : ctx.now < 2 ^ 63) (proc : Proc) (argv : List Bytes) (db : RedisDb V) :
    Exactly ctx proc argv db (call stringObject ctx proc argv db) := by
  unfold call
  split
  · next name k v opts =>
    cases hopts : setOptions opts noOptions with
    | none => exact exactly_refused _ _ db _
    | some o =>
      refine exactly_set hpos hmax (name :: k :: v :: opts) ?_ rfl "set" (stringObject v) db
      unfold exactTime
      dsimp only
      rw [hopts, Option.bind_some]
  · next name k s v => exact exactly_set hpos hmax [name, k, s, v] rfl rfl "setex" _ db
  · next name k s v => exact exactly_set hpos hmax [name, k, s, v] rfl rfl "psetex" _ db
  · next proc' _ name k s _ =>
    cases hunit : expireUnit ctx proc with
    | none => exact exactly_refused _ _ db _
    | some unit =>
      obtain ⟨basetime, seconds⟩ := unit
      refine exactly_expire hpos hmax hunit name k s ?_ db
      cases proc <;> first | cases hunit; rfl | cases hunit
  · exact exactly_refused _ _ db _

theorem expires_exactly_day :
    Exactly { slave := false, loading := false, cached := 5, basetime := 5, now := 6 } .expire
      [text "EXPIRE", text "k", text "86400"] { dict := fun _ => some (), expires := fun _ => none }
      (call (fun _ => ()) { slave := false, loading := false, cached := 5, basetime := 5, now := 6 }
        .expire [text "EXPIRE", text "k", text "86400"]
        { dict := fun _ => some (), expires := fun _ => none }) :=
  expires_exactly (fun _ => ()) { slave := false, loading := false, cached := 5, basetime := 5, now := 6 }
    (by norm_num) (by norm_num) .expire [text "EXPIRE", text "k", text "86400"]
    { dict := fun _ => some (), expires := fun _ => none }

def persistentKey : RedisDb Unit :=
  { dict := fun _ => some ()
    expires := fun _ => none }

def masterCtx : Ctx :=
  { slave := false
    loading := false
    cached := 5
    basetime := 5
    now := 6 }

/-- The greatest number of seconds deletes the key of a master at once, and a slave stores a time
that stands for no expire time. -/
theorem expire_wraps :
    (call (fun _ => ()) masterCtx .expire [text "EXPIRE", text "k", text "9223372036854775807"]
        persistentKey = (dbDelete persistentKey (text "k"), .one) ∧
      exactTime masterCtx .expire [text "EXPIRE", text "k", text "9223372036854775807"] =
        some 9223372036854775807005 ∧
      ¬ BehavesFrom (dbDelete persistentKey (text "k")) (text "k") 9223372036854775807005 6) ∧
    (call (fun _ => ()) { masterCtx with slave := true } .pexpireat [text "PEXPIREAT", text "k", text "-1"]
        persistentKey = (setExpire persistentKey (text "k") (-1), .one) ∧
      pttlCommand true 6 (setExpire persistentKey (text "k") (-1)) (text "k") = -1 ∧
      ¬ BehavesFrom (setExpire persistentKey (text "k") (-1)) (text "k") (-1) 6) := by
  have hmost : string2ll (text "9223372036854775807") = some 9223372036854775807 := by decide
  have hminus : string2ll (text "-1") = some (-1) := by decide
  have hlookup : ∀ ctx k, lookupKeyWrite ctx persistentKey k = (persistentKey, some ()) := fun _ _ => rfl
  have hdel := @deleted_behaves Unit (dbDelete persistentKey (text "k")) (text "k")
    9223372036854775807005 6 (by norm_num) (dbDelete_dict _ _) (dbDelete_expires _ _)
  have hstored := @stored_behaves Unit (setExpire persistentKey (text "k") (-1)) (text "k") (-1) 6 ()
    (by norm_num) (by norm_num) rfl (setExpire_expires _ _ _)
  have hnegative := setExpire_expires persistentKey (text "k") (-1)
  refine ⟨⟨?_, ?_, ?_⟩, ?_, ?_, ?_⟩
  · have hpast : checkAlreadyExpired masterCtx
        (toLong (toLong (9223372036854775807 * 1000) + masterCtx.basetime)) = true := by decide
    unfold call expireUnit
    dsimp only
    unfold expireGenericCommand getLongLongFromObjectOrReply
    rw [hmost]
    dsimp only
    rw [hlookup, if_pos rfl, if_pos hpast]
  · unfold exactTime expireUnit exactTime.exactly
    dsimp only [Option.bind_some]
    rw [hmost]
    rfl
  · rw [hdel]
    norm_num
  · unfold call expireUnit
    dsimp only
    unfold expireGenericCommand getLongLongFromObjectOrReply
    rw [hminus]
    dsimp only
    rw [hlookup]
    rfl
  · rw [pttl_present true rfl hnegative (Or.inl (by norm_num))]
    norm_num
  · rw [hstored]
    intro h
    have hneg : toLong (-1) = -1 := by decide
    omega

end RedisCore.Expire
