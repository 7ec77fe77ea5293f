import RedisCore.ClientOutput

/-! The replication backlog of a master: the circular buffer with the end of the replication
stream, what is written to it and to the replicas for each command, and how a replica is sent what
it has missed. -/

namespace RedisCore.Replication

open Output

structure Server where
  masterhost : Bool
  slaveseldb : ℤ
  replBacklog : Option Bytes
  replBacklogSize : ℕ
  replBacklogHistlen : ℕ
  replBacklogIdx : ℕ
  replBacklogOff : ℤ
  masterReplOffset : ℤ
  slaves : List Client

def configReplBacklogMinSize : ℕ := 1024 * 16

/-- A new empty buffer; the contents of new memory are unspecified. -/
def emptyBacklog (s : Server) : Server := { s with
  replBacklog := some (List.replicate s.replBacklogSize 0)
  replBacklogHistlen := 0
  replBacklogIdx := 0
  replBacklogOff := s.masterReplOffset + 1 }

def createReplicationBacklog (s : Server) : Except Fault Server :=
  match s.replBacklog with
  | some _ => .error .aborted
  | none => return emptyBacklog s

def resizeReplicationBacklog (s : Server) (newsize : ℤ) : Server :=
  let newsize : ℕ :=
    if newsize < configReplBacklogMinSize then configReplBacklogMinSize else newsize.toNat
  if s.replBacklogSize = newsize then s
  else
    let s := { s with replBacklogSize := newsize }
    match s.replBacklog with
    | some _ => emptyBacklog s
    | none => s

def feedLoop : ℕ → Server → Bytes → Except Fault Server
  | 0, _, _ => .error .outOfFuel
  | fuel+1, s, p =>
    if p.length = 0 then return s
    else
      match s.replBacklog with
      | none => .error .outOfBounds
      | some backlog => do
        let thislen := s.replBacklogSize - s.replBacklogIdx
        let thislen := if thislen > p.length then p.length else thislen
        let backlog ← storeBytes backlog s.replBacklogIdx (p.take thislen)
        let idx := s.replBacklogIdx + thislen
        let idx := if idx = s.replBacklogSize then 0 else idx
        feedLoop fuel { s with
          replBacklog := some backlog
          replBacklogIdx := idx
          replBacklogHistlen := s.replBacklogHistlen + thislen } (p.drop thislen)

def feedReplicationBacklog (s : Server) (p : Bytes) : Except Fault Server := do
  let s := { s with masterReplOffset := s.masterReplOffset + p.length }
  let s ← feedLoop (p.length + 1) s p
  let histlen :=
    if s.replBacklogHistlen > s.replBacklogSize then s.replBacklogSize else s.replBacklogHistlen
  return { s with
    replBacklogHistlen := histlen
    replBacklogOff := s.masterReplOffset - histlen + 1 }

def feedReplicationBacklogWithObject (s : Server) (o : StringObject) : Except Fault Server :=
  match o with
  | .int v => do
    let (llstr, len) ← ll2string (List.replicate 21 0) v.toInt
    let p ← loadBytes llstr 0 len
    feedReplicationBacklog s p
  | .raw p => feedReplicationBacklog s p.val

def selectText (size : ℕ) (dictid : ℤ) : Except Fault Bytes := do
  let (llstr, dictidLen) ← ll2string (List.replicate size 0) dictid
  return text "*2\r\n$6\r\nSELECT\r\n$" ++ decimal dictidLen ++ text "\r\n" ++ cString llstr ++
    text "\r\n"

def selectCommand (dictid : ℤ) : Except Fault Bytes :=
  if dictid ≥ 0 ∧ dictid < 10 then selectText 64 dictid else selectText 21 dictid

def feedEach (f : Client → Except Fault Client) (slaves : List Client) :
    Except Fault (List Client) :=
  slaves.mapM (fun slave => if slave.replstate = .waitBgsaveStart then return slave else f slave)

def feedArguments (s : Server) : List StringObject → Except Fault Server
  | [] => return s
  | o :: argv => do
    let line ← printLine 24 36 (stringObjectLen o)
    let s ← feedReplicationBacklog s line
    let s ← feedReplicationBacklogWithObject s o
    let s ← feedReplicationBacklog s [13, 10]
    feedArguments s argv

def addReplyArguments (env : Env) (slave : Client) : List StringObject → Except Fault Client
  | [] => return slave
  | o :: argv => do
    let slave ← addReplyBulk env slave o
    addReplyArguments env slave argv

def feedSelect (env : Env) (s : Server) (dictid : ℤ) : Except Fault Server := do
  if s.slaveseldb ≠ dictid then
    let selectcmd ← selectCommand dictid
    let s ← (if s.replBacklog.isSome then feedReplicationBacklog s selectcmd else return s)
    let slaves ← feedEach (fun slave => return addReplyProto env slave selectcmd) s.slaves
    return { s with slaves := slaves }
  else return s

def replicationFeedSlaves (env : Env) (s : Server) (dictid : ℤ) (argv : List StringObject) :
    Except Fault Server := do
  if s.masterhost then return s
  else if s.replBacklog = none ∧ s.slaves.length = 0 then return s
  else if s.slaves.length ≠ 0 ∧ s.replBacklog = none then .error .aborted
  else
    let s ← feedSelect env s dictid
    let s := { s with slaveseldb := dictid }
    let s ← (if s.replBacklog.isSome then do
        let line ← printLine 24 42 argv.length
        let s ← feedReplicationBacklog s line
        feedArguments s argv
      else return s)
    let slaves ← feedEach (fun slave => do
        let slave ← addReplyArrayLen env slave argv.length
        addReplyArguments env slave argv) s.slaves
    return { s with slaves := slaves }

def sendLoop (env : Env) (s : Server) : ℕ → Client → ℤ → ℤ → Except Fault Client
  | 0, _, _, _ => .error .outOfFuel
  | fuel+1, c, j, len =>
    if len = 0 then return c
    else
      match s.replBacklog with
      | none => .error .outOfBounds
      | some backlog => do
        let thislen := if s.replBacklogSize - j < len then s.replBacklogSize - j else len
        -- a negative length or position is a huge one for `sdsnewlen`
        if j < 0 ∨ thislen < 0 then .error .outOfBounds
        else
          let bytes ← loadBytes backlog j.toNat thislen.toNat
          sendLoop env s fuel (addReplyProto env c bytes) 0 (len - thislen)

/-- The client and the number of bytes that it is sent.  The remainder is that of C, which has the
sign of the dividend. -/
def addReplyReplicationBacklog (env : Env) (s : Server) (c : Client) (offset : ℤ) :
    Except Fault (Client × ℤ) := do
  if s.replBacklogHistlen = 0 then return (c, 0)
  else
    let skip := offset - s.replBacklogOff
    let first : ℤ := s.replBacklogIdx + (s.replBacklogSize - s.replBacklogHistlen)
    let j := first.tmod s.replBacklogSize
    let j := (j + skip).tmod s.replBacklogSize
    let len := s.replBacklogHistlen - skip
    let c ← sendLoop env s (len.toNat + 1) c j len
    return (c, s.replBacklogHistlen - skip)

end RedisCore.Replication
