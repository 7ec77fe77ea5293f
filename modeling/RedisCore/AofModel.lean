import RedisCore.AofFormat
import RedisCore.KeyspaceModel

/-! The append only file (`aof.c`): commands are executed, translated and appended, and the file is
loaded by a fake client that executes what it reads (`t_string.c`, `expire.c`, `multi.c`, `db.c`). -/

namespace RedisCore.Aof

open Request (encodeCommand)
open Keyspace (RedisDb)

variable {V : Type}

inductive Proc where
  | set
  | setex
  | psetex
  | expire
  | pexpire
  | expireat
  | pexpireat
  | del
  | select
  | multi
  | exec
  | other
deriving DecidableEq, Repr

abbrev Dataset (V : Type) := ℕ → RedisDb V

/-- The other commands: which names there are, and what a command vector does to the databases when
it is executed in one of them.  The vector is the one that is propagated. -/
structure Server (V : Type) where
  dbnum : ℕ
  dbnum_pos : 0 < dbnum
  dbnum_int : dbnum ≤ 2^31
  known : Bytes → Bool
  apply : ℕ → List Bytes → Dataset V → Dataset V
  stringObject : Bytes → V
  lazyfreeLazyExpire : Bool

def commandNames : List (String × Proc) := [
  ("set", .set), ("setex", .setex), ("psetex", .psetex), ("expire", .expire), ("pexpire", .pexpire),
  ("expireat", .expireat), ("pexpireat", .pexpireat), ("del", .del), ("unlink", .del),
  ("select", .select), ("multi", .multi), ("exec", .exec)]

def lookupCommand (srv : Server V) (name : Bytes) : Option Proc :=
  match commandNames.find? (fun c => sameCaseless (text c.1) name) with
  | some c => some c.2
  | none => if srv.known name then some .other else none

structure Ctx where
  now : ℤ
  loading : Bool
deriving DecidableEq, Repr

structure SetOptions where
  nx : Bool
  xx : Bool
  keepttl : Bool
  ex : Bool
  px : Bool
  expire : Option (Bytes × Bool)
deriving DecidableEq, Repr

def noOptions : SetOptions :=
  { nx := false
    xx := false
    keepttl := false
    ex := false
    px := false
    expire := none }

/-- The loop of `setCommand`; `none` is a syntax error. -/
def setOptions : List Bytes → SetOptions → Option SetOptions
  | [], o => some o
  | a :: rest, o =>
    if sameCaseless a (text "nx") && !o.xx then setOptions rest { o with nx := true }
    else if sameCaseless a (text "xx") && !o.nx then setOptions rest { o with xx := true }
    else if sameCaseless a (text "keepttl") && !o.ex && !o.px then
      setOptions rest { o with keepttl := true }
    else
      match rest with
      | [] => none
      | next :: rest =>
        if sameCaseless a (text "ex") && !o.keepttl && !o.px then
          setOptions rest { o with ex := true, expire := some (next, true) }
        else if sameCaseless a (text "px") && !o.keepttl && !o.ex then
          setOptions rest { o with px := true, expire := some (next, false) }
        else none

/-- The time to live in milliseconds, and `none` for an error reply. -/
def timeToLive (expire : Option (Bytes × Bool)) : Option (Option ℤ) :=
  match expire with
  | none => some none
  | some (s, seconds) =>
    match string2ll s with
    | none => none
    | some n => if n ≤ 0 then none else some (some (if seconds then toLong (n*1000) else n))

/-- `none` when the key space has not changed. -/
def setGenericCommand (ctx : Ctx) (o : SetOptions) (k : Bytes) (v : V) (db : RedisDb V) :
    Option (RedisDb V) :=
  match timeToLive o.expire with
  | none => none
  | some ttl =>
    if (o.nx && (db.dict k).isSome) || (o.xx && (db.dict k).isNone) then none
    else
      some { dict := Function.update db.dict k (some v)
             expires := match ttl with
               | some ms => Function.update db.expires k (some (toLong (ctx.now+ms)))
               | none => if o.keepttl then db.expires else Function.update db.expires k none }

def expireGenericCommand (ctx : Ctx) (basetime : ℤ) (seconds : Bool) (k param : Bytes)
    (db : RedisDb V) : Option (RedisDb V × Bool) :=
  match string2ll param with
  | none => none
  | some n =>
    let when := toLong (toLong (if seconds then n*1000 else n) + basetime)
    if (db.dict k).isNone then none
    else if when ≤ ctx.now ∧ ctx.loading = false then
      some ({ dict := Function.update db.dict k none
              expires := Function.update db.expires k none }, true)
    else some ({ db with expires := Function.update db.expires k (some when) }, false)

def delGenericCommand (ks : List Bytes) (db : RedisDb V) : Option (RedisDb V) :=
  if ks.any (fun k => (db.dict k).isSome) then
    some { dict := fun k => if k ∈ ks then none else db.dict k
           expires := fun k => if k ∈ ks then none else db.expires k }
  else none

def expireUnit (ctx : Ctx) : Proc → Option (ℤ × Bool)
  | .expire => some (ctx.now, true)
  | .pexpire => some (ctx.now, false)
  | .expireat => some (0, true)
  | .pexpireat => some (0, false)
  | _ => none

def delName (srv : Server V) : Bytes := text (if srv.lazyfreeLazyExpire then "UNLINK" else "DEL")

def setDb (data : Dataset V) (d : ℕ) (db : RedisDb V) : Dataset V := Function.update data d db

/-- A command in the database `d`: the databases after it, and the command and vector to propagate;
`none` when nothing has changed.  A key that has expired is deleted by a DEL of its own before. -/
def call (srv : Server V) (ctx : Ctx) (d : ℕ) (proc : Proc) (argv : List Bytes) (data : Dataset V) :
    Option (Dataset V × Proc × List Bytes) :=
  match proc, argv with
  | .set, _ :: k :: v :: opts =>
    (setOptions opts noOptions).bind (fun o =>
      (setGenericCommand ctx o k (srv.stringObject v) (data d)).map (fun db =>
        (setDb data d db, .set, argv)))
  | .setex, [_, k, s, v] =>
    (setGenericCommand ctx { noOptions with ex := true, expire := some (s, true) } k
      (srv.stringObject v) (data d)).map (fun db => (setDb data d db, .setex, argv))
  | .psetex, [_, k, s, v] =>
    (setGenericCommand ctx { noOptions with px := true, expire := some (s, false) } k
      (srv.stringObject v) (data d)).map (fun db => (setDb data d db, .psetex, argv))
  | .del, _ :: ks => (delGenericCommand ks (data d)).map (fun db => (setDb data d db, .del, argv))
  | .other, _ => some (srv.apply d argv data, .other, argv)
  | proc, [_, k, s] =>
    (expireUnit ctx proc).bind (fun u =>
      (expireGenericCommand ctx u.1 u.2 k s (data d)).map (fun r =>
        if r.2 then (setDb data d r.1, .del, [delName srv, k]) else (setDb data d r.1, proc, argv)))
  | _, _ => none

structure AofState (V : Type) where
  data : Dataset V
  aofSelectedDb : Option ℕ
  aofBuf : Bytes

def catAppendOnlyGenericCommand (dst : Bytes) (argv : List Bytes) : Bytes := dst ++ encodeCommand argv

def catAppendOnlyExpireAtCommand (mstime : ℤ) (buf : Bytes) (proc : Proc) (k seconds : Bytes) : Bytes :=
  let when := strtol seconds
  let when := if proc ∈ [.expire, .setex, .expireat] then toLong (when*1000) else when
  let when := if proc ∈ [.expire, .pexpire, .setex, .psetex] then toLong (when+mstime) else when
  catAppendOnlyGenericCommand buf [text "PEXPIREAT", k, decimal when]

def scanExpire : List Bytes → Option Bytes × Option Bytes → Option Bytes × Option Bytes
  | [], r => r
  | a :: rest, r =>
    let r := if sameCaseless a (text "ex") then (some (rest.headD []), r.2) else r
    let r := if sameCaseless a (text "px") then (r.1, some (rest.headD [])) else r
    scanExpire rest r

/-- The command that is appended; `none` when the assertion on EX and PX fails. -/
def translate (mstime : ℤ) (proc : Proc) (argv : List Bytes) (buf : Bytes) : Option Bytes :=
  if proc ∈ [.expire, .pexpire, .expireat] then
    some (catAppendOnlyExpireAtCommand mstime buf proc (arg argv 1) (arg argv 2))
  else if proc ∈ [.setex, .psetex] then
    let buf := catAppendOnlyGenericCommand buf [text "SET", arg argv 1, arg argv 3]
    some (catAppendOnlyExpireAtCommand mstime buf proc (arg argv 1) (arg argv 2))
  else if proc = .set ∧ argv.length > 3 then
    match scanExpire (argv.drop 3) (none, none) with
    | (some _, some _) => none
    | (some exarg, none) =>
      let buf := catAppendOnlyGenericCommand buf (argv.take 3)
      some (catAppendOnlyExpireAtCommand mstime buf .expire (arg argv 1) exarg)
    | (none, some pxarg) =>
      let buf := catAppendOnlyGenericCommand buf (argv.take 3)
      some (catAppendOnlyExpireAtCommand mstime buf .pexpire (arg argv 1) pxarg)
    | (none, none) => some (catAppendOnlyGenericCommand buf argv)
  else some (catAppendOnlyGenericCommand buf argv)

def selectText (dictid : ℕ) : Bytes :=
  text "*2\r\n$6\r\nSELECT\r\n$" ++ decimal (decimal dictid).length ++ text "\r\n" ++ decimal dictid ++
    text "\r\n"

def feedAppendOnlyFile (mstime : ℤ) (s : AofState V) (proc : Proc) (dictid : ℕ) (argv : List Bytes) :
    Option (AofState V) :=
  let buf := if s.aofSelectedDb = some dictid then [] else selectText dictid
  (translate mstime proc argv buf).map (fun buf =>
    { s with
      aofSelectedDb := some dictid
      aofBuf := s.aofBuf ++ buf })

/-- A command that a client sends in a database, with the clock when it is executed and when it is
appended.  The deletion of an expired key is a command of its own, a DEL. -/
structure Item where
  db : ℕ
  proc : Proc
  argv : List Bytes
  now : ℤ
  fedAt : ℤ
deriving DecidableEq, Repr

/-- One step of the server: a command, or the commands of a MULTI/EXEC with the databases that are
selected at its beginning and at its end. -/
inductive Step where
  | command (i : Item)
  | transaction (dbMulti : ℕ) (items : List Item) (dbExec : ℕ)
deriving DecidableEq, Repr

def execItem (srv : Server V) (s : AofState V) (i : Item) : Option (AofState V) :=
  match call srv { now := i.now, loading := false } i.db i.proc i.argv s.data with
  | none => some s
  | some (data, proc, argv) => feedAppendOnlyFile i.fedAt { s with data := data } proc i.db argv

def execItems (srv : Server V) : List Item → AofState V → Option (AofState V)
  | [], s => some s
  | i :: items, s => (execItem srv s i).bind (execItems srv items)

def execTransaction (srv : Server V) (dbMulti : ℕ) (items : List Item) (dbExec : ℕ) (s : AofState V) :
    Option (AofState V) :=
  (feedAppendOnlyFile 0 s .multi dbMulti [text "MULTI"]).bind (fun s =>
    (execItems srv items s).bind (fun s =>
      feedAppendOnlyFile 0 s .exec dbExec [text "EXEC"]))

def execStep (srv : Server V) (s : AofState V) : Step → Option (AofState V)
  | .command i => execItem srv s i
  | .transaction dbMulti items dbExec => execTransaction srv dbMulti items dbExec s

def runSteps (srv : Server V) : List Step → AofState V → Option (AofState V)
  | [], s => some s
  | st :: steps, s => (execStep srv s st).bind (runSteps srv steps)

structure Loader (V : Type) where
  db : ℕ
  multi : Bool
  commands : List (Proc × List Bytes)
  data : Dataset V
  validUpTo : ℕ
  validBeforeMulti : ℕ

def selectCommand (srv : Server V) (d : ℕ) (argv : List Bytes) : ℕ :=
  match string2ll (arg argv 1) with
  | none => d
  | some id => if 0 ≤ id ∧ id < srv.dbnum then id.toNat else d

/-- A command of the fake client outside of a transaction, or one that EXEC executes: the selected
database and the data. -/
def loadCall (srv : Server V) (mstime : ℤ) (r : ℕ × Dataset V) (c : Proc × List Bytes) : ℕ × Dataset V :=
  if c.1 = .select then (selectCommand srv r.1 c.2, r.2)
  else
    match call srv { now := mstime, loading := true } r.1 c.1 c.2 r.2 with
    | none => r
    | some (data, _, _) => (r.1, data)

/-- MULTI within a MULTI, and EXEC without one, only reply an error. -/
def loadCommand (srv : Server V) (mstime : ℤ) (l : Loader V) (proc : Proc) (argv : List Bytes) : Loader V :=
  if l.multi = true ∧ proc ≠ .exec then { l with commands := l.commands ++ [(proc, argv)] }
  else if proc = .multi then { l with multi := true }
  else if proc = .exec then
    if l.multi then
      let r := l.commands.foldl (loadCall srv mstime) (l.db, l.data)
      { l with db := r.1, multi := false, commands := [], data := r.2 }
    else l
  else
    let r := loadCall srv mstime (l.db, l.data) (proc, argv)
    { l with db := r.1, data := r.2 }

/-- One turn of the loop after a command has been read, up to the offset `pos`; `none` for a name
that there is not. -/
def loadStep (srv : Server V) (mstime : ℤ) (l : Loader V) (argv : List Bytes) (pos : ℕ) :
    Option (Loader V) :=
  match lookupCommand srv (arg argv 0) with
  | none => none
  | some proc =>
    let l := if proc = .multi then { l with validBeforeMulti := l.validUpTo } else l
    some { loadCommand srv mstime l proc argv with validUpTo := pos }

inductive LoadExit where
  | readError
  | formatError
  | unknownCommand
  | rdbPreamble
deriving DecidableEq, Repr

def loadLoop (srv : Server V) (mstime : ℤ) (total : ℕ) :
    ℕ → Bytes → Loader V → Except LoadExit (Loader V × Bool)
  | 0, _, l => .ok (l, false)
  | fuel+1, file, l =>
    match readCommand file with
    | .error .shortRead => .ok (l, true)
    | .error .readError => .error .readError
    | .error .formatError => .error .formatError
    | .ok none => .ok (l, false)
    | .ok (some (argv, file)) =>
      match loadStep srv mstime l argv (total-file.length) with
      | none => .error .unknownCommand
      | some l => loadLoop srv mstime total fuel file l

def emptyDataset : Dataset V := fun _ => Keyspace.emptyDb

def newLoader : Loader V :=
  { db := 0
    multi := false
    commands := []
    data := emptyDataset
    validUpTo := 0
    validBeforeMulti := 0 }

def loadAppendOnlyFile (srv : Server V) (mstime : ℤ) (file : Bytes) :
    Except LoadExit (Dataset V × Bytes) :=
  if file = [] then .ok (emptyDataset, [])
  else if file.take 5 = text "REDIS" then .error .rdbPreamble
  else
    match loadLoop srv mstime file.length (file.length+1) file newLoader with
    | .error e => .error e
    | .ok (l, shortRead) =>
      if shortRead then .ok (l.data, file.take l.validUpTo)
      else if l.multi then .ok (l.data, file.take l.validBeforeMulti)
      else .ok (l.data, file)

end RedisCore.Aof
