import RedisCore.AofLoading

namespace RedisCore.Aof
open List (map_cons mem_cons not_mem_nil)
open Option (bind_eq_some_iff map_eq_some_iff not_isSome)
open Bool (and_eq_true_iff false_eq_true)

open Request (encodeCommand)
open Keyspace (RedisDb)

variable {V : Type} {srv : Server V} {mstime : ℤ}

def pexpireat (fedAt : ℤ) (proc : Proc) (k seconds : Bytes) : List Bytes :=
  let when := strtol seconds
  let when := if proc ∈ [.expire, .setex, .expireat] then toLong (when*1000) else when
  let when := if proc ∈ [.expire, .pexpire, .setex, .psetex] then toLong (when+fedAt) else when
  [text "PEXPIREAT", k, decimal when]

def translated (fedAt : ℤ) (proc : Proc) (argv : List Bytes) : Option (List (List Bytes)) :=
  if proc ∈ [.expire, .pexpire, .expireat] then some [pexpireat fedAt proc (arg argv 1) (arg argv 2)]
  else if proc ∈ [.setex, .psetex] then
    some [[text "SET", arg argv 1, arg argv 3], pexpireat fedAt proc (arg argv 1) (arg argv 2)]
  else if proc = .set ∧ argv.length > 3 then
    match scanExpire (argv.drop 3) (none, none) with
    | (some _, some _) => none
    | (some exarg, none) => some [argv.take 3, pexpireat fedAt .expire (arg argv 1) exarg]
    | (none, some pxarg) => some [argv.take 3, pexpireat fedAt .pexpire (arg argv 1) pxarg]
    | (none, none) => some [argv]
  else some [argv]

theorem translate_eq (fedAt : ℤ) (proc : Proc) (argv : List Bytes) (buf : Bytes) :
    translate fedAt proc argv buf =
      (translated fedAt proc argv).map (fun cmds => buf ++ encodeAll cmds) := by
  have hexpire : ∀ p k s b, catAppendOnlyExpireAtCommand fedAt b p k s =
      b ++ encodeAll [pexpireat fedAt p k s] := by
    intro p k s b
    simp [catAppendOnlyExpireAtCommand, catAppendOnlyGenericCommand, pexpireat]
  have hcat : ∀ c b, catAppendOnlyGenericCommand b c = b ++ encodeAll [c] := by
    intro c b
    simp [catAppendOnlyGenericCommand]
  unfold translate translated
  simp only [hexpire, hcat, List.append_assoc, ← encodeAll_append]
  split_ifs
  · rfl
  · rfl
  · rcases scanExpire (argv.drop 3) (none, none) with ⟨exarg, pxarg⟩
    cases exarg <;> cases pxarg <;> rfl
  · rfl

def selectArgv (dictid : ℕ) : List Bytes := [text "SELECT", decimal dictid]

def selectFor (selected : Option ℕ) (dictid : ℕ) : List (List Bytes) :=
  if selected = some dictid then [] else [selectArgv dictid]

theorem selectText_eq (dictid : ℕ) : selectText dictid = encodeCommand (selectArgv dictid) := by
  have hhead : text "*2\r\n$6\r\nSELECT\r\n$" = Request.encodeLine 42 2 ++
      Request.encodeBulk (text "SELECT") ++ [36] := by
    decide +kernel
  have hcrlf : text "\r\n" = [13, 10] := by decide
  unfold selectText
  rw [hhead, hcrlf]
  simp [encodeCommand, selectArgv, Request.encodeBulk, Request.encodeLine]

theorem feed_spec {s s' : AofState V} {fedAt : ℤ} {proc : Proc} {dictid : ℕ} {argv : List Bytes}
    (h : feedAppendOnlyFile fedAt s proc dictid argv = some s') :
    ∃ cmds, translated fedAt proc argv = some cmds ∧ s'.data = s.data ∧
      s'.aofSelectedDb = some dictid ∧
      s'.aofBuf = s.aofBuf ++ encodeAll (selectFor s.aofSelectedDb dictid ++ cmds) := by
  have hselect : (if s.aofSelectedDb = some dictid then [] else selectText dictid) =
      encodeAll (selectFor s.aofSelectedDb dictid) := by
    unfold selectFor
    split_ifs
    · rfl
    · rw [selectText_eq]
      simp
  unfold feedAppendOnlyFile at h
  dsimp only at h
  rw [hselect, translate_eq] at h
  cases htr : translated fedAt proc argv with
  | none =>
    rw [htr] at h
    cases h
  | some cmds =>
    rw [htr] at h
    cases h
    refine ⟨cmds, rfl, rfl, rfl, ?_⟩
    rw [encodeAll_append]

theorem sameCaseless_trans {a s t : Bytes} (hs : sameCaseless a s = true) (ht : sameCaseless a t = true) :
    (cString s).map tolower = (cString t).map tolower := by
  unfold sameCaseless at hs ht
  rw [← eq_of_beq hs, eq_of_beq ht]

theorem number_not_option {s : Bytes} {n : ℤ} (h : string2ll s = some n) :
    sameCaseless s (text "ex") = false ∧ sameCaseless s (text "px") = false := by
  obtain ⟨hs, -, -⟩ := string2ll_some h
  have hfirst : ∃ c cs, s = c :: cs ∧ (c = 45 ∨ 48 ≤ c.toNat ∧ c.toNat ≤ 57) := by
    rw [← hs]
    unfold decimal
    split_ifs
    · exact ⟨45, _, rfl, Or.inl rfl⟩
    · obtain ⟨c, cs, hcs, -⟩ := @decimalNat_head n.natAbs
      exact ⟨c, cs, hcs, Or.inr (Request.decimalNat_digits _ c (by rw [hcs]; exact List.mem_cons_self))⟩
  obtain ⟨c, cs, rfl, hc⟩ := hfirst
  have hsmall : c.toNat ≤ 57 ∧ 45 ≤ c.toNat := by
    rcases hc with rfl | hc
    · decide
    · omega
  have hzero : c ≠ 0 := by
    rintro rfl
    exact absurd hsmall.2 (by decide)
  have hlower : tolower c = c := by
    unfold tolower
    rw [if_neg]
    simp only [Bool.and_eq_true, decide_eq_true_eq, UInt8.le_iff_toNat_le, not_and, not_le]
    intro h65
    have h : (65 : UInt8).toNat = 65 := rfl
    omega
  have hcstring : (cString (c :: cs)).map tolower = c :: ((cs.takeWhile (· ≠ 0)).map tolower) := by
    unfold cString
    rw [List.takeWhile_cons_of_pos (by simpa using hzero), map_cons, hlower]
  have hne : ∀ t : Bytes, (∃ d ds, (cString t).map tolower = d :: ds ∧ 57 < d.toNat) →
      sameCaseless (c :: cs) t = false := by
    rintro t ⟨d, ds, ht, hd⟩
    unfold sameCaseless
    rw [hcstring, ht, beq_eq_false_iff_ne]
    intro heq
    have hcd := (List.cons.inj heq).1
    rw [hcd] at hsmall
    omega
  exact ⟨hne _ ⟨101, [120], by decide, by decide⟩, hne _ ⟨112, [120], by decide, by decide⟩⟩

def Scanned (o : SetOptions) (r : Option Bytes × Option Bytes) : Prop :=
  ∀ s n, string2ll s = some n →
    (o.expire = some (s, true) → r.1 = some s) ∧ (o.expire = some (s, false) → r.2 = some s)

theorem scanExpire_cons_same {a : Bytes} {rest : List Bytes} {r : Option Bytes × Option Bytes}
    (hex : sameCaseless a (text "ex") = false) (hpx : sameCaseless a (text "px") = false) :
    scanExpire (a :: rest) r = scanExpire rest r := by
  simp only [scanExpire, hex, hpx, false_eq_true, if_false]

theorem flag_not_expire {a : Bytes} {name : String}
    (hname : name = "nx" ∨ name = "xx" ∨ name = "keepttl") (h : sameCaseless a (text name) = true) :
    sameCaseless a (text "ex") = false ∧ sameCaseless a (text "px") = false := by
  have hne : (cString (text name)).map tolower ≠ (cString (text "ex")).map tolower ∧
      (cString (text name)).map tolower ≠ (cString (text "px")).map tolower := by
    rcases hname with rfl | rfl | rfl <;> decide
  constructor
  · cases hx : sameCaseless a (text "ex") with
    | false => rfl
    | true => exact absurd (sameCaseless_trans h hx) hne.1
  · cases hx : sameCaseless a (text "px") with
    | false => rfl
    | true => exact absurd (sameCaseless_trans h hx) hne.2

theorem ex_not_px {a : Bytes} (h : sameCaseless a (text "ex") = true) :
    sameCaseless a (text "px") = false := by
  cases hx : sameCaseless a (text "px") with
  | false => rfl
  | true => exact absurd (sameCaseless_trans h hx) (by decide)

theorem setOptions_scan : ∀ (opts : List Bytes) (o o' : SetOptions) (r : Option Bytes × Option Bytes),
    setOptions opts o = some o' → Scanned o r →
    Scanned o' (scanExpire opts r) ∧ (o'.expire = none → o.expire = none ∧ scanExpire opts r = r)
  | [], o, o', r, h, hr => by
    rw [setOptions] at h
    cases h
    exact ⟨hr, fun h => ⟨h, rfl⟩⟩
  | a :: rest, o, o', r, h, hr => by
    rw [setOptions.eq_def] at h
    dsimp only at h
    by_cases hnx : (sameCaseless a (text "nx") && !o.xx) = true
    · rw [if_pos hnx] at h
      obtain ⟨hex, hpx⟩ := flag_not_expire (Or.inl rfl) (and_eq_true_iff.mp hnx).1
      rw [scanExpire_cons_same hex hpx]
      exact setOptions_scan rest { o with nx := true } o' r h hr
    rw [if_neg hnx] at h
    by_cases hxx : (sameCaseless a (text "xx") && !o.nx) = true
    · rw [if_pos hxx] at h
      obtain ⟨hex, hpx⟩ := flag_not_expire (Or.inr (Or.inl rfl)) (and_eq_true_iff.mp hxx).1
      rw [scanExpire_cons_same hex hpx]
      exact setOptions_scan rest { o with xx := true } o' r h hr
    rw [if_neg hxx] at h
    by_cases hkeep : (sameCaseless a (text "keepttl") && !o.ex && !o.px) = true
    · rw [if_pos hkeep] at h
      have hname := (and_eq_true_iff.mp (and_eq_true_iff.mp hkeep).1).1
      obtain ⟨hex, hpx⟩ := flag_not_expire (Or.inr (Or.inr rfl)) hname
      rw [scanExpire_cons_same hex hpx]
      exact setOptions_scan rest { o with keepttl := true } o' r h hr
    rw [if_neg hkeep] at h
    cases rest with
    | nil => cases h
    | cons next rest =>
      dsimp only at h
      by_cases hex : (sameCaseless a (text "ex") && !o.keepttl && !o.px) = true
      · rw [if_pos hex] at h
        have hname := (and_eq_true_iff.mp (and_eq_true_iff.mp hex).1).1
        have hscan : scanExpire (a :: next :: rest) r = scanExpire (next :: rest) (some next, r.2) := by
          rw [scanExpire]
          simp only [hname, ex_not_px hname, false_eq_true, if_false, if_true,
            List.headD_cons]
        rw [hscan, scanExpire]
        have hnext := setOptions_scan rest _ o'
          (if sameCaseless next (text "px") then
            ((if sameCaseless next (text "ex") then (some (rest.headD []), r.2) else (some next, r.2)).1,
              some (rest.headD []))
          else if sameCaseless next (text "ex") then (some (rest.headD []), r.2) else (some next, r.2)) h
          (by
            intro s n hs
            obtain ⟨hsex, hspx⟩ := number_not_option hs
            constructor
            · intro he
              cases he
              rw [if_neg (by rw [hspx]; exact Bool.false_ne_true),
                if_neg (by rw [hsex]; exact Bool.false_ne_true)]
            · intro he
              cases he)
        refine ⟨hnext.1, fun hnone => ?_⟩
        have hbad := (hnext.2 hnone).1
        cases hbad
      rw [if_neg hex] at h
      by_cases hpx : (sameCaseless a (text "px") && !o.keepttl && !o.ex) = true
      · rw [if_pos hpx] at h
        have hname := (and_eq_true_iff.mp (and_eq_true_iff.mp hpx).1).1
        have hnotex : sameCaseless a (text "ex") = false := by
          cases hx : sameCaseless a (text "ex") with
          | false => rfl
          | true => exact absurd (ex_not_px hx) (by rw [hname]; decide)
        have hscan : scanExpire (a :: next :: rest) r = scanExpire (next :: rest) (r.1, some next) := by
          rw [scanExpire]
          simp only [hname, hnotex, false_eq_true, if_false, if_true,
            List.headD_cons]
        rw [hscan, scanExpire]
        have hnext := setOptions_scan rest _ o'
          (if sameCaseless next (text "px") then
            ((if sameCaseless next (text "ex") then (some (rest.headD []), some next)
              else (r.1, some next)).1, some (rest.headD []))
          else if sameCaseless next (text "ex") then (some (rest.headD []), some next)
          else (r.1, some next)) h
          (by
            intro s n hs
            obtain ⟨hsex, hspx⟩ := number_not_option hs
            constructor
            · intro he
              cases he
            · intro he
              cases he
              rw [if_neg (by rw [hspx]; exact Bool.false_ne_true),
                if_neg (by rw [hsex]; exact Bool.false_ne_true)])
        refine ⟨hnext.1, fun hnone => ?_⟩
        have hbad := (hnext.2 hnone).1
        cases hbad
      · rw [if_neg hpx] at h
        cases h

def replayAll (srv : Server V) (mstime : ℤ) (cmds : List (List Bytes)) (r : ℕ × Dataset V) :
    ℕ × Dataset V :=
  (cmds.map (resolve srv)).foldl (loadCall srv mstime) r

theorem replayAll_append (cmds cmds' : List (List Bytes)) (r : ℕ × Dataset V) :
    replayAll srv mstime (cmds ++ cmds') r = replayAll srv mstime cmds' (replayAll srv mstime cmds r) := by
  simp [replayAll]

theorem replayAll_single (c : List Bytes) (r : ℕ × Dataset V) :
    replayAll srv mstime [c] r = loadCall srv mstime r (resolve srv c) := rfl

theorem lookup_own (entry : String × Proc) {name : Bytes}
    (h : commandNames.find? (fun c => sameCaseless (text c.1) name) = some entry) (args : List Bytes) :
    lookupCommand srv (arg (name :: args) 0) = some entry.2 := by
  unfold lookupCommand
  rw [show arg (name :: args) 0 = name from rfl, h]

theorem lookup_set (args : List Bytes) : lookupCommand srv (arg (text "SET" :: args) 0) = some .set :=
  lookup_own ("set", .set) (by decide) args

theorem lookup_pexpireat (args : List Bytes) :
    lookupCommand srv (arg (text "PEXPIREAT" :: args) 0) = some .pexpireat :=
  lookup_own ("pexpireat", .pexpireat) (by decide) args

theorem lookup_select (args : List Bytes) :
    lookupCommand srv (arg (text "SELECT" :: args) 0) = some .select :=
  lookup_own ("select", .select) (by decide) args

theorem lookup_del (args : List Bytes) : lookupCommand srv (arg (delName srv :: args) 0) = some .del := by
  unfold delName
  cases srv.lazyfreeLazyExpire with
  | true => exact lookup_own ("unlink", .del) (by decide) args
  | false => exact lookup_own ("del", .del) (by decide) args

theorem resolve_of_lookup {c : List Bytes} {proc : Proc} (h : lookupCommand srv (arg c 0) = some proc) :
    resolve srv c = (proc, c) := by
  rw [resolve, h, Option.getD_some]

theorem replay_select {d : ℕ} (hd : d < srv.dbnum) (r : ℕ × Dataset V) :
    replayAll srv mstime [selectArgv d] r = (d, r.2) := by
  have hint := srv.dbnum_int
  have hnum : string2ll (decimal d) = some (d : ℤ) := string2ll_decimal (by omega) (by omega)
  have hresolve : resolve srv (selectArgv d) = (.select, selectArgv d) :=
    resolve_of_lookup (lookup_select _)
  rw [replayAll_single, hresolve, loadCall, if_pos rfl, selectCommand,
    show arg (selectArgv d) 1 = decimal d from rfl, hnum]
  dsimp only
  rw [if_pos (by omega), Int.toNat_natCast]

@[simp] theorem setDb_same (data : Dataset V) (d : ℕ) (db : RedisDb V) : setDb data d db d = db :=
  Function.update_self ..

@[simp] theorem setDb_setDb (data : Dataset V) (d : ℕ) (db db' : RedisDb V) :
    setDb (setDb data d db) d db' = setDb data d db' := Function.update_idem ..

theorem loadCall_set (name k v : Bytes) (d : ℕ) (data : Dataset V) :
    loadCall srv mstime (d, data) (.set, [name, k, v]) =
      (d, setDb data d { dict := Function.update (data d).dict k (some (srv.stringObject v))
                         expires := Function.update (data d).expires k none }) := by
  simp [loadCall, call, setOptions, noOptions, setGenericCommand, timeToLive]

theorem loadCall_pexpireat (name k : Bytes) {when : ℤ} (hlo : -2^63 ≤ when) (hhi : when < 2^63) (d : ℕ)
    {data : Dataset V} (hk : ((data d).dict k).isSome) :
    loadCall srv mstime (d, data) (.pexpireat, [name, k, decimal when]) =
      (d, setDb data d { data d with expires := Function.update (data d).expires k (some when) }) := by
  have hnone : ((data d).dict k).isNone = false := by
    rw [← not_isSome, hk]
    rfl
  have hwhen : toLong when = when := toLong_of_fits hlo hhi
  simp [loadCall, call, expireUnit, expireGenericCommand, string2ll_decimal hlo hhi, hwhen, hnone]

theorem replay_set_pexpireat {set k v : Bytes} {when : ℤ} (hset : lookupCommand srv set = some .set)
    (hlo : -2^63 ≤ when) (hhi : when < 2^63) (d : ℕ) (data : Dataset V) :
    replayAll srv mstime [[set, k, v], [text "PEXPIREAT", k, decimal when]] (d, data) =
      (d, setDb data d { dict := Function.update (data d).dict k (some (srv.stringObject v))
                         expires := Function.update (data d).expires k (some when) }) := by
  have hone : resolve srv [set, k, v] = (.set, [set, k, v]) := resolve_of_lookup hset
  have htwo : resolve srv [text "PEXPIREAT", k, decimal when] =
      (.pexpireat, [text "PEXPIREAT", k, decimal when]) := resolve_of_lookup (lookup_pexpireat _)
  unfold replayAll
  rw [map_cons, map_cons, List.map_nil, List.foldl_cons, List.foldl_cons, List.foldl_nil,
    hone, htwo, loadCall_set, loadCall_pexpireat _ _ hlo hhi d (by simp)]
  simp

theorem replay_same {proc : Proc} {argv : List Bytes} (hname : lookupCommand srv (arg argv 0) = some proc)
    (hselect : proc ≠ .select) {d : ℕ} {data data' : Dataset V} {c : Proc × List Bytes}
    (h : call srv { now := mstime, loading := true } d proc argv data = some (data', c)) :
    replayAll srv mstime [argv] (d, data) = (d, data') := by
  rw [replayAll_single, resolve_of_lookup hname, loadCall, if_neg hselect, h]

theorem pexpireat_when {fedAt n : ℤ} {proc : Proc} {k s : Bytes} (hs : string2ll s = some n) :
    pexpireat fedAt proc k s = [text "PEXPIREAT", k, decimal
      (if proc ∈ [.expire, .pexpire, .setex, .psetex] then
        toLong ((if proc ∈ [.expire, .setex, .expireat] then toLong (n*1000) else n)+fedAt)
      else if proc ∈ [.expire, .setex, .expireat] then toLong (n*1000) else n)] := by
  unfold pexpireat
  dsimp only
  rw [strtol_of_string2ll hs]

/-- A command that a client may send and that is appended when it changes something. -/
structure ItemOk (srv : Server V) (i : Item) : Prop where
  db : i.db < srv.dbnum
  argv : ArgvOk i.argv
  name : lookupCommand srv (arg i.argv 0) = some i.proc
  proc : i.proc ∉ [Proc.select, Proc.multi, Proc.exec]

def Punctual (i : Item) : Prop :=
  (i.proc ∈ [Proc.setex, Proc.psetex, Proc.expire, Proc.pexpire] ∨
    (i.proc = .set ∧ scanExpire (i.argv.drop 3) (none, none) ≠ (none, none))) → i.fedAt = i.now

theorem timeToLive_some {s : Bytes} {seconds : Bool} {ttl : Option ℤ}
    (h : timeToLive (some (s, seconds)) = some ttl) :
    ∃ n, string2ll s = some n ∧ ttl = some (if seconds then toLong (n*1000) else n) := by
  unfold timeToLive at h
  dsimp only at h
  cases hs : string2ll s with
  | none =>
    rw [hs] at h
    cases h
  | some n =>
    rw [hs] at h
    dsimp only at h
    by_cases hn : n ≤ 0
    · rw [if_pos hn] at h
      cases h
    · rw [if_neg hn] at h
      cases h
      exact ⟨n, rfl, rfl⟩

theorem setGenericCommand_some {ctx : Ctx} {o : SetOptions} {k : Bytes} {v : V} {db db' : RedisDb V}
    (h : setGenericCommand ctx o k v db = some db') :
    ∃ ttl, timeToLive o.expire = some ttl ∧
      db' = { dict := Function.update db.dict k (some v)
              expires := match ttl with
                | some ms => Function.update db.expires k (some (toLong (ctx.now+ms)))
                | none => if o.keepttl then db.expires else Function.update db.expires k none } := by
  unfold setGenericCommand at h
  cases ht : timeToLive o.expire with
  | none =>
    rw [ht] at h
    cases h
  | some ttl =>
    rw [ht] at h
    dsimp only at h
    split at h
    · cases h
    · cases h
      exact ⟨ttl, rfl, rfl⟩

theorem setGenericCommand_ctx {ctx ctx' : Ctx} {o : SetOptions} (ho : o.expire = none) (k : Bytes) (v : V)
    (db : RedisDb V) : setGenericCommand ctx o k v db = setGenericCommand ctx' o k v db := by
  unfold setGenericCommand timeToLive
  rw [ho]

theorem text_length (s : String) : (text s).length = s.toList.length := by
  rw [text, List.length_map]

theorem decimal_short {v : ℤ} (hlo : -2^63 ≤ v) (hhi : v < 2^63) : (decimal v).length < 2^63 := by
  have h := (decimal_length hlo hhi).2
  omega

theorem replays_set {i : Item} (hi : ItemOk srv i) (hp : Punctual i) (hproc : i.proc = .set)
    {data data' : Dataset V} {proc : Proc} {argv : List Bytes} {cmds : List (List Bytes)}
    (hcall : call srv { now := i.now, loading := false } i.db i.proc i.argv data =
      some (data', proc, argv))
    (htr : translated i.fedAt proc argv = some cmds) :
    replayAll srv mstime cmds (i.db, data) = (i.db, data') := by
  have hargv := hi.argv
  have hname := hi.name
  unfold Punctual at hp
  rw [hproc] at hcall hname hp
  generalize i.argv = iargv at *
  match iargv, hcall with
  | a :: k :: v :: opts, hcall =>
    simp only [call, bind_eq_some_iff, map_eq_some_iff] at hcall
    obtain ⟨o, ho, db', hset, heq⟩ := hcall
    cases heq
    obtain ⟨ttl, httl, hdb⟩ := setGenericCommand_some hset
    have hscanned : Scanned noOptions (none, none) := by
      intro s n _
      constructor
      · intro h
        cases h
      · intro h
        cases h
    obtain ⟨hscan, hnoscan⟩ := setOptions_scan opts noOptions o (none, none) ho hscanned
    cases hexp : o.expire with
    | none =>
      have hcmds : cmds = [a :: k :: v :: opts] := by
        unfold translated at htr
        rw [if_neg (by decide), if_neg (by decide)] at htr
        have hdrop : (a :: k :: v :: opts).drop 3 = opts := rfl
        rw [hdrop, (hnoscan hexp).2] at htr
        split_ifs at htr
        · exact (Option.some.inj htr).symm
        · exact (Option.some.inj htr).symm
      rw [hcmds]
      apply replay_same hname (by decide) (c := (.set, a :: k :: v :: opts))
      have hsame := @setGenericCommand_ctx V { now := i.now, loading := false }
        { now := mstime, loading := true } o hexp k (srv.stringObject v) (data i.db)
      rw [hset] at hsame
      simp [call, ho, ← hsame]
    | some e =>
      obtain ⟨s, seconds⟩ := e
      rw [hexp] at httl
      obtain ⟨n, hn, rfl⟩ := timeToLive_some httl
      obtain ⟨hex, hpx⟩ := hscan s n hn
      have hset3 : lookupCommand srv a = some .set := hname
      have hdrop : (a :: k :: v :: opts).drop 3 = opts := rfl
      have htake : (a :: k :: v :: opts).take 3 = [a, k, v] := rfl
      have hkey : arg (a :: k :: v :: opts) 1 = k := rfl
      rw [hdrop] at hp
      unfold translated at htr
      rw [if_neg (by decide), if_neg (by decide), hdrop, htake, hkey] at htr
      have hlong : (Proc.set = Proc.set ∧ (a :: k :: v :: opts).length > 3) := by
        refine ⟨rfl, ?_⟩
        cases opts with
        | nil =>
          cases ho
          cases hexp
        | cons x opts => simp
      rw [if_pos hlong] at htr
      -- the scan finds the argument that was parsed, and nothing for the other unit
      cases seconds with
      | true =>
        have hfst := hex hexp
        rcases hres : scanExpire opts (none, none) with ⟨exarg, pxarg⟩
        rw [hres] at hfst htr hp
        dsimp only at hfst
        subst hfst
        have hnow : i.fedAt = i.now := hp (Or.inr ⟨rfl, by simp⟩)
        cases pxarg with
        | some px => cases htr
        | none =>
          cases htr
          rw [pexpireat_when hn, hdb]
          simp only [mem_cons, true_or, if_true, hnow, add_comm (toLong (n*1000)) i.now]
          obtain ⟨hlo, hhi⟩ := toLong_range (i.now+toLong (n*1000))
          exact replay_set_pexpireat hset3 hlo hhi i.db data
      | false =>
        have hsnd := hpx hexp
        rcases hres : scanExpire opts (none, none) with ⟨exarg, pxarg⟩
        rw [hres] at hsnd htr hp
        dsimp only at hsnd
        subst hsnd
        have hnow : i.fedAt = i.now := hp (Or.inr ⟨rfl, by simp⟩)
        cases exarg with
        | some ex => cases htr
        | none =>
          cases htr
          rw [pexpireat_when hn, hdb]
          have hnot : Proc.pexpire ∉ [Proc.expire, Proc.setex, Proc.expireat] := by decide
          simp only [hnot, if_false, mem_cons, true_or, or_true, if_true, hnow, add_comm n i.now]
          obtain ⟨hlo, hhi⟩ := toLong_range (i.now+n)
          exact replay_set_pexpireat hset3 hlo hhi i.db data
  | [], hcall => cases hcall
  | [a], hcall => cases hcall
  | [a, k], hcall => cases hcall

theorem replays_setex {i : Item} (hi : ItemOk srv i) (hp : Punctual i)
    (hproc : i.proc = .setex ∨ i.proc = .psetex) {data data' : Dataset V} {proc : Proc}
    {argv : List Bytes} {cmds : List (List Bytes)}
    (hcall : call srv { now := i.now, loading := false } i.db i.proc i.argv data =
      some (data', proc, argv))
    (htr : translated i.fedAt proc argv = some cmds) :
    replayAll srv mstime cmds (i.db, data) = (i.db, data') := by
  have hargv := hi.argv
  have hnow : i.fedAt = i.now := by
    apply hp
    rcases hproc with h | h <;> simp [h]
  generalize i.argv = iargv at *
  match iargv, hcall with
  | [a, k, s, v], hcall =>
    rcases hproc with h | h
    · rw [h] at hcall
      simp only [call, map_eq_some_iff] at hcall
      obtain ⟨db', hset, heq⟩ := hcall
      cases heq
      obtain ⟨ttl, httl, hdb⟩ := setGenericCommand_some hset
      obtain ⟨n, hn, rfl⟩ := timeToLive_some httl
      cases htr
      rw [show arg [a, k, s, v] 1 = k from rfl, show arg [a, k, s, v] 2 = s from rfl,
        show arg [a, k, s, v] 3 = v from rfl, pexpireat_when hn, hdb]
      simp only [mem_cons, true_or, or_true, if_true, hnow, add_comm (toLong (n*1000)) i.now]
      obtain ⟨hlo, hhi⟩ := toLong_range (i.now+toLong (n*1000))
      exact replay_set_pexpireat (lookup_set []) hlo hhi i.db data
    · rw [h] at hcall
      simp only [call, map_eq_some_iff] at hcall
      obtain ⟨db', hset, heq⟩ := hcall
      cases heq
      obtain ⟨ttl, httl, hdb⟩ := setGenericCommand_some hset
      obtain ⟨n, hn, rfl⟩ := timeToLive_some httl
      cases htr
      have hnot : Proc.psetex ∉ [Proc.expire, Proc.setex, Proc.expireat] := by decide
      rw [show arg [a, k, s, v] 1 = k from rfl, show arg [a, k, s, v] 2 = s from rfl,
        show arg [a, k, s, v] 3 = v from rfl, pexpireat_when hn, hdb]
      simp only [hnot, if_false, mem_cons, true_or, or_true, if_true, hnow, add_comm n i.now,
        false_eq_true]
      obtain ⟨hlo, hhi⟩ := toLong_range (i.now+n)
      exact replay_set_pexpireat (lookup_set []) hlo hhi i.db data
  | [], hcall => rcases hproc with h | h <;> rw [h] at hcall <;> cases hcall
  | [_], hcall => rcases hproc with h | h <;> rw [h] at hcall <;> cases hcall
  | [_, _], hcall => rcases hproc with h | h <;> rw [h] at hcall <;> cases hcall
  | [_, _, _], hcall => rcases hproc with h | h <;> rw [h] at hcall <;> cases hcall
  | _ :: _ :: _ :: _ :: _ :: _, hcall => rcases hproc with h | h <;> rw [h] at hcall <;> cases hcall

theorem delGenericCommand_single {k : Bytes} {db : RedisDb V} (h : (db.dict k).isSome) :
    delGenericCommand [k] db = some { dict := Function.update db.dict k none
                                      expires := Function.update db.expires k none } := by
  have hdict : (fun k' => if k' ∈ [k] then none else db.dict k') = Function.update db.dict k none := by
    funext k'
    simp [Function.update_apply]
  have hexpires : (fun k' => if k' ∈ [k] then none else db.expires k') =
      Function.update db.expires k none := by
    funext k'
    simp [Function.update_apply]
  unfold delGenericCommand
  rw [if_pos (by simp [h]), hdict, hexpires]

theorem expireGenericCommand_some {ctx : Ctx} {basetime : ℤ} {seconds : Bool} {k param : Bytes}
    {db : RedisDb V} {r : RedisDb V × Bool}
    (h : expireGenericCommand ctx basetime seconds k param db = some r) :
    ∃ n, string2ll param = some n ∧ (db.dict k).isSome ∧
      (r = ({ dict := Function.update db.dict k none
              expires := Function.update db.expires k none }, true) ∨
        r = ({ dict := db.dict
               expires := Function.update db.expires k
                 (some (toLong (toLong (if seconds then n*1000 else n)+basetime))) }, false)) := by
  unfold expireGenericCommand at h
  cases hn : string2ll param with
  | none =>
    rw [hn] at h
    cases h
  | some n =>
    rw [hn] at h
    dsimp only at h
    cases hk : db.dict k with
    | none =>
      rw [hk] at h
      cases h
    | some v =>
      rw [hk, Option.isNone_some, if_neg Bool.false_ne_true] at h
      refine ⟨n, rfl, rfl, ?_⟩
      by_cases hpast : toLong (toLong (if seconds then n*1000 else n)+basetime) ≤ ctx.now ∧
          ctx.loading = false
      · rw [if_pos hpast] at h
        exact Or.inl (Option.some.inj h).symm
      · rw [if_neg hpast] at h
        exact Or.inr (Option.some.inj h).symm

theorem replay_pexpireat {k : Bytes} {when : ℤ} (hlo : -2^63 ≤ when) (hhi : when < 2^63) (d : ℕ)
    {data : Dataset V} (hin : ((data d).dict k).isSome) :
    replayAll srv mstime [[text "PEXPIREAT", k, decimal when]] (d, data) =
      (d, setDb data d { data d with expires := Function.update (data d).expires k (some when) }) := by
  rw [replayAll_single, resolve_of_lookup (lookup_pexpireat _), loadCall_pexpireat _ _ hlo hhi d hin]

theorem replay_del {k : Bytes} (d : ℕ) {data : Dataset V} (hin : ((data d).dict k).isSome) :
    replayAll srv mstime [[delName srv, k]] (d, data) =
      (d, setDb data d { dict := Function.update (data d).dict k none
                         expires := Function.update (data d).expires k none }) := by
  apply replay_same (lookup_del _) (by decide) (c := (.del, [delName srv, k]))
  simp [call, delGenericCommand_single hin]

theorem expireUnit_some {ctx : Ctx} {proc : Proc} {u : ℤ × Bool} (h : expireUnit ctx proc = some u) :
    (proc = .expire ∧ u = (ctx.now, true)) ∨ (proc = .pexpire ∧ u = (ctx.now, false)) ∨
      (proc = .expireat ∧ u = (0, true)) ∨ (proc = .pexpireat ∧ u = (0, false)) := by
  cases proc <;> cases h <;> simp

theorem toLong_toLong (n : ℤ) : toLong (toLong n) = toLong n := by
  obtain ⟨hlo, hhi⟩ := toLong_range n
  exact toLong_of_fits hlo hhi

theorem replays_expire {i : Item} (hi : ItemOk srv i) (hp : Punctual i) {a k s : Bytes}
    (hargv3 : i.argv = [a, k, s]) {u : ℤ × Bool}
    (hunit : expireUnit { now := i.now, loading := false } i.proc = some u)
    {data : Dataset V} {r : RedisDb V × Bool}
    (hexpire : expireGenericCommand { now := i.now, loading := false } u.1 u.2 k s (data i.db) = some r)
    {cmds : List (List Bytes)}
    (htr : translated i.fedAt (if r.2 then .del else i.proc) (if r.2 then [delName srv, k] else i.argv) =
      some cmds) : replayAll srv mstime cmds (i.db, data) = (i.db, setDb data i.db r.1) := by
  have hargv := hi.argv
  have hname := hi.name
  rw [hargv3] at hargv hname htr
  obtain ⟨n, hn, hin, rfl | rfl⟩ := expireGenericCommand_some hexpire
  · cases htr
    exact replay_del i.db hin
  · have hnlong : toLong n = n := by
      obtain ⟨-, hlo, hhi⟩ := string2ll_some hn
      exact toLong_of_fits hlo hhi
    have hkey : arg [a, k, s] 1 = k := rfl
    have hsec : arg [a, k, s] 2 = s := rfl
    have htr3 : translated i.fedAt i.proc [a, k, s] = some cmds := htr
    unfold Punctual at hp
    rcases expireUnit_some hunit with ⟨hproc, rfl⟩ | ⟨hproc, rfl⟩ | ⟨hproc, rfl⟩ | ⟨hproc, rfl⟩
    · rw [hproc] at htr3 hp
      have hnow : i.fedAt = i.now := hp (Or.inl (by simp))
      cases htr3
      rw [hkey, hsec, pexpireat_when hn]
      simp only [mem_cons, true_or, if_true, hnow]
      obtain ⟨hlo, hhi⟩ := toLong_range (toLong (n*1000)+i.now)
      exact replay_pexpireat hlo hhi i.db hin
    · rw [hproc] at htr3 hp
      have hnow : i.fedAt = i.now := hp (Or.inl (by simp))
      have hnot : Proc.pexpire ∉ [Proc.expire, Proc.setex, Proc.expireat] := by decide
      cases htr3
      rw [hkey, hsec, pexpireat_when hn]
      simp only [hnot, if_false, mem_cons, true_or, or_true, if_true, hnow, false_eq_true, hnlong]
      obtain ⟨hlo, hhi⟩ := toLong_range (n+i.now)
      exact replay_pexpireat hlo hhi i.db hin
    · rw [hproc] at htr3
      have hnot : Proc.expireat ∉ [Proc.expire, Proc.pexpire, Proc.setex, Proc.psetex] := by decide
      cases htr3
      rw [hkey, hsec, pexpireat_when hn]
      simp only [hnot, if_false, mem_cons, true_or, or_true, if_true, add_zero, toLong_toLong]
      obtain ⟨hlo, hhi⟩ := toLong_range (n*1000)
      exact replay_pexpireat hlo hhi i.db hin
    · rw [hproc] at htr3 hname
      cases htr3
      apply replay_same hname (by decide) (c := (.pexpireat, [a, k, s]))
      have hnone : ((data i.db).dict k).isNone = false := by
        rw [← not_isSome, hin]
        rfl
      simp [call, expireUnit, expireGenericCommand, hn, hnone]

theorem replays_call {i : Item} (hi : ItemOk srv i) (hp : Punctual i) {data data' : Dataset V}
    {proc : Proc} {argv : List Bytes} {cmds : List (List Bytes)}
    (hcall : call srv { now := i.now, loading := false } i.db i.proc i.argv data =
      some (data', proc, argv))
    (htr : translated i.fedAt proc argv = some cmds) :
    replayAll srv mstime cmds (i.db, data) = (i.db, data') := by
  have hnot := hi.proc
  have hexpires : (∀ a k s, i.argv = [a, k, s] → call srv { now := i.now, loading := false } i.db i.proc
      i.argv data = (expireUnit { now := i.now, loading := false } i.proc).bind (fun u =>
        (expireGenericCommand { now := i.now, loading := false } u.1 u.2 k s (data i.db)).map (fun r =>
          if r.2 then (setDb data i.db r.1, .del, [delName srv, k])
          else (setDb data i.db r.1, i.proc, i.argv)))) →
      (∃ a k s, i.argv = [a, k, s]) →
        replayAll srv mstime cmds (i.db, data) = (i.db, data') := by
    rintro heq ⟨a, k, s, h3⟩
    rw [heq a k s h3] at hcall
    obtain ⟨u, hunit, hr⟩ := bind_eq_some_iff.mp hcall
    obtain ⟨r, hexpire, hres⟩ := map_eq_some_iff.mp hr
    obtain ⟨db, deleted⟩ := r
    cases deleted with
    | true =>
      cases hres
      exact replays_expire hi hp h3 hunit hexpire htr
    | false =>
      cases hres
      exact replays_expire hi hp h3 hunit hexpire htr
  cases hproc : i.proc with
  | set => exact replays_set hi hp hproc hcall htr
  | setex => exact replays_setex hi hp (Or.inl hproc) hcall htr
  | psetex => exact replays_setex hi hp (Or.inr hproc) hcall htr
  | del =>
    have hargv := hi.argv
    have hname := hi.name
    rw [hproc] at hcall hname
    generalize i.argv = iargv at *
    cases iargv with
    | nil => cases hcall
    | cons a ks =>
      simp only [call, map_eq_some_iff] at hcall
      obtain ⟨db, hdel, heq⟩ := hcall
      cases heq
      cases htr
      apply replay_same hname (by decide) (c := (.del, a :: ks))
      simp [call, hdel]
  | other =>
    have hname := hi.name
    rw [hproc] at hcall hname
    cases hcall
    cases htr
    exact replay_same hname (by decide) rfl
  | select => simp [hproc] at hnot
  | multi => simp [hproc] at hnot
  | exec => simp [hproc] at hnot
  | expire | pexpire | expireat | pexpireat =>
    apply hexpires
    · intro a k s h3
      rw [hproc, h3]
      rfl
    · rw [hproc] at hcall
      match hlist : i.argv, hcall with
      | [a, k, s], _ => exact ⟨a, k, s, rfl⟩

theorem arg_short {argv : List Bytes} (h : ArgvOk argv) (n : ℕ) : (arg argv n).length < 2^63 := by
  unfold arg
  rw [List.getD_eq_getElem?_getD]
  cases hn : argv[n]? with
  | none => simp
  | some a => exact h.lens a (List.mem_of_getElem? hn)

theorem pexpireat_plain {fedAt : ℤ} {proc : Proc} {k s : Bytes}
    (hproc : proc ∈ [Proc.expire, Proc.pexpire, Proc.expireat, Proc.setex, Proc.psetex])
    (hk : k.length < 2^63) : Plain srv (pexpireat fedAt proc k s) := by
  have hwhen : ∃ n, pexpireat fedAt proc k s = [text "PEXPIREAT", k, decimal (toLong n)] := by
    simp only [mem_cons, not_mem_nil, or_false] at hproc
    rcases hproc with rfl | rfl | rfl | rfl | rfl <;> exact ⟨_, rfl⟩
  obtain ⟨n, hn⟩ := hwhen
  obtain ⟨hlo, hhi⟩ := toLong_range n
  rw [hn]
  refine ⟨⟨by simp, by simp, ?_⟩, .pexpireat, lookup_pexpireat _, by decide, by decide⟩
  intro a ha
  simp only [mem_cons, not_mem_nil, or_false] at ha
  rcases ha with rfl | rfl | rfl
  · rw [text_length]
    decide
  · exact hk
  · exact decimal_short hlo hhi

theorem plain_of_lookup {c : List Bytes} {proc : Proc} (hc : ArgvOk c)
    (hname : lookupCommand srv (arg c 0) = some proc)
    (hproc : proc ∉ [Proc.select, Proc.multi, Proc.exec]) : Plain srv c := by
  simp only [mem_cons, not_mem_nil, or_false, not_or] at hproc
  exact ⟨hc, proc, hname, hproc.2.1, hproc.2.2⟩

theorem translated_forall {P : List Bytes → Prop} {fedAt : ℤ} {proc : Proc} {argv : List Bytes}
    {cmds : List (List Bytes)} (htr : translated fedAt proc argv = some cmds)
    (hsame : proc ∉ [Proc.expire, Proc.pexpire, Proc.expireat, Proc.setex, Proc.psetex] →
      (proc = .set → scanExpire (argv.drop 3) (none, none) = (none, none)) → P argv)
    (htake : proc = .set → P (argv.take 3)) (hset : P [text "SET", arg argv 1, arg argv 3])
    (hexpire : ∀ p ∈ [Proc.expire, Proc.pexpire, Proc.expireat, Proc.setex, Proc.psetex], ∀ s,
      P (pexpireat fedAt p (arg argv 1) s)) : ∀ c ∈ cmds, P c := by
  have hpair : ∀ {c c' : List Bytes}, P c → P c' → ∀ x ∈ [c, c'], P x := by
    intro c c' hc hc' x hx
    simp only [mem_cons, not_mem_nil, or_false] at hx
    rcases hx with rfl | rfl
    · exact hc
    · exact hc'
  have hone : ∀ {c : List Bytes}, P c → ∀ x ∈ [c], P x := by
    intro c hc x hx
    rw [List.mem_singleton.mp hx]
    exact hc
  unfold translated at htr
  by_cases hrel : proc ∈ [Proc.expire, Proc.pexpire, Proc.expireat]
  · rw [if_pos hrel] at htr
    cases htr
    refine hone (hexpire proc ?_ _)
    simp only [mem_cons, not_mem_nil, or_false] at hrel ⊢
    tauto
  rw [if_neg hrel] at htr
  by_cases hsetex : proc ∈ [Proc.setex, Proc.psetex]
  · rw [if_pos hsetex] at htr
    cases htr
    refine hpair hset (hexpire proc ?_ _)
    simp only [mem_cons, not_mem_nil, or_false] at hsetex ⊢
    tauto
  rw [if_neg hsetex] at htr
  have hnone : proc ∉ [Proc.expire, Proc.pexpire, Proc.expireat, Proc.setex, Proc.psetex] := by
    simp only [mem_cons, not_mem_nil, or_false] at hrel hsetex ⊢
    tauto
  by_cases hopts : proc = .set ∧ argv.length > 3
  · rw [if_pos hopts] at htr
    rcases hscan : scanExpire (argv.drop 3) (none, none) with ⟨exarg, pxarg⟩
    rw [hscan] at htr
    cases exarg with
    | none =>
      cases pxarg with
      | none =>
        cases htr
        exact hone (hsame hnone (fun _ => hscan))
      | some px =>
        cases htr
        exact hpair (htake hopts.1) (hexpire .pexpire (by decide) _)
    | some ex =>
      cases pxarg with
      | none =>
        cases htr
        exact hpair (htake hopts.1) (hexpire .expire (by decide) _)
      | some px => cases htr
  · rw [if_neg hopts] at htr
    cases htr
    apply hone
    apply hsame hnone
    intro hset
    have hlen : argv.length ≤ 3 := by
      by_contra hlong
      exact hopts ⟨hset, by omega⟩
    rw [List.drop_eq_nil_of_le hlen]
    rfl

theorem translated_plain {fedAt : ℤ} {proc : Proc} {argv : List Bytes} (hargv : ArgvOk argv)
    (hname : lookupCommand srv (arg argv 0) = some proc)
    (hproc : proc ∉ [Proc.select, Proc.multi, Proc.exec]) {cmds : List (List Bytes)}
    (htr : translated fedAt proc argv = some cmds) : ∀ c ∈ cmds, Plain srv c := by
  have hsame : Plain srv argv := plain_of_lookup hargv hname hproc
  have htake : proc = .set → Plain srv (argv.take 3) := by
    rintro rfl
    refine @plain_of_lookup V srv (argv.take 3) .set ⟨?_, ?_, ?_⟩ ?_ (by decide)
    · simpa using hargv.pos
    · rw [List.length_take]
      exact lt_of_le_of_lt (Nat.min_le_right ..) hargv.argc
    · exact fun a ha => hargv.lens a (List.mem_of_mem_take ha)
    · have hzero : arg (argv.take 3) 0 = arg argv 0 := by
        cases argv with
        | nil => rfl
        | cons a rest => rfl
      rw [hzero]
      exact hname
  have hset : Plain srv [text "SET", arg argv 1, arg argv 3] := by
    refine plain_of_lookup ⟨by simp, by simp, ?_⟩ (lookup_set _) (by decide)
    intro a ha
    simp only [mem_cons, not_mem_nil, or_false] at ha
    rcases ha with rfl | rfl | rfl
    · rw [text_length]
      decide
    · exact arg_short hargv 1
    · exact arg_short hargv 3
  exact translated_forall htr (fun _ _ => hsame) htake hset
    (fun p hp s => pexpireat_plain hp (arg_short hargv 1))

theorem call_propagates {ctx : Ctx} {d : ℕ} {p proc : Proc} {args argv : List Bytes}
    {data data' : Dataset V} (h : call srv ctx d p args data = some (data', proc, argv)) :
    (proc = p ∧ argv = args) ∨ (proc = .del ∧ ∃ k ∈ args, argv = [delName srv, k]) := by
  have hexpire : ∀ a k s, args = [a, k, s] → ∀ q : Proc, (expireUnit ctx q).bind (fun u =>
      (expireGenericCommand ctx u.1 u.2 k s (data d)).map (fun r =>
        if r.2 then (setDb data d r.1, Proc.del, [delName srv, k]) else (setDb data d r.1, q, args))) =
      some (data', proc, argv) →
      (proc = q ∧ argv = args) ∨ (proc = .del ∧ ∃ k ∈ args, argv = [delName srv, k]) := by
    intro a k s hargs q hq
    obtain ⟨u, -, hr⟩ := bind_eq_some_iff.mp hq
    obtain ⟨r, -, hres⟩ := map_eq_some_iff.mp hr
    split at hres
    · cases hres
      exact Or.inr ⟨rfl, k, by rw [hargs]; simp, rfl⟩
    · cases hres
      exact Or.inl ⟨rfl, rfl⟩
  unfold call at h
  split at h
  · obtain ⟨o, -, hr⟩ := bind_eq_some_iff.mp h
    obtain ⟨db, -, hres⟩ := map_eq_some_iff.mp hr
    cases hres
    exact Or.inl ⟨rfl, rfl⟩
  · obtain ⟨db, -, hres⟩ := map_eq_some_iff.mp h
    cases hres
    exact Or.inl ⟨rfl, rfl⟩
  · obtain ⟨db, -, hres⟩ := map_eq_some_iff.mp h
    cases hres
    exact Or.inl ⟨rfl, rfl⟩
  · obtain ⟨db, -, hres⟩ := map_eq_some_iff.mp h
    cases hres
    exact Or.inl ⟨rfl, rfl⟩
  · cases h
    exact Or.inl ⟨rfl, rfl⟩
  · exact hexpire _ _ _ rfl _ h
  · cases h

theorem plain_of_call {i : Item} (hi : ItemOk srv i) {ctx : Ctx} {data data' : Dataset V} {proc : Proc}
    {argv : List Bytes} (hcall : call srv ctx i.db i.proc i.argv data = some (data', proc, argv))
    {cmds : List (List Bytes)} (htr : translated i.fedAt proc argv = some cmds) :
    ∀ c ∈ cmds, Plain srv c := by
  rcases call_propagates hcall with ⟨rfl, rfl⟩ | ⟨rfl, k, hk, rfl⟩
  · exact translated_plain hi.argv hi.name hi.proc htr
  · refine translated_plain ⟨by simp, by simp, ?_⟩ (lookup_del [k]) (by decide) htr
    intro a ha
    simp only [mem_cons, not_mem_nil, or_false] at ha
    rcases ha with rfl | rfl
    · unfold delName
      rw [text_length]
      split_ifs <;> decide
    · exact hi.argv.lens a hk

end RedisCore.Aof
