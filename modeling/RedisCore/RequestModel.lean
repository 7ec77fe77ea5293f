import RedisCore.CTypes
import RedisCore.InlineArgs

/-! The requests of a client (`networking.c`): the query buffer, the two parsers that consume it, and
the stream of a master, which is passed on to the replicas. -/

namespace RedisCore.Request

/-- What a command sets of the flags of its own client: `CLIENT_CLOSE_AFTER_REPLY`, `CLIENT_CLOSE_ASAP`
and `CLIENT_BLOCKED`, or the pause of all clients. -/
structure Effect where
  closeAfterReply : Bool
  closeAsap : Bool
  blocked : Bool
deriving DecidableEq, Repr

/-- `effect` tells it of a command that is executed after others. -/
structure Config where
  protoMaxBulkLen : ℕ
  protoMaxBulkLen_lt : protoMaxBulkLen < 2 ^ 63
  clientMaxQuerybufLen : ℕ
  gopherEnabled : Bool
  effect : List (List Bytes) → List Bytes → Effect

inductive ReqType where
  | inline
  | multibulk
deriving DecidableEq, Repr

inductive ProtocolError where
  | tooBigInlineRequest
  | unbalancedQuotes
  | inlineFromMaster
  | tooBigMbulkCount
  | invalidMultibulkLength
  | tooBigBulkCount
  | expectedDollar (got : UInt8)
  | invalidBulkLength
deriving DecidableEq, Repr

/-- A client.  `reqtype` is `none` until the first byte of a request, and `bulklen` when it is -1.
`executed` are the argument vectors of the commands that were handled, and `protocolError` comes with
`CLIENT_CLOSE_AFTER_REPLY`. -/
structure Client where
  master : Bool
  querybuf : Bytes
  qbPos : ℕ
  reqtype : Option ReqType
  multibulklen : ℕ
  bulklen : Option ℕ
  argv : List Bytes
  protocolError : Option ProtocolError
  closeAfterReply : Bool
  closeAsap : Bool
  blocked : Bool
  executed : List (List Bytes)
  multi : Bool
  pendingQuerybuf : Bytes
  readReploff : ℤ
  reploff : ℤ

structure Replica where
  waitBgsaveStart : Bool
  output : Bytes

structure Server where
  backlog : Option Bytes
  slaves : List Replica
  client : Client

def PROTO_INLINE_MAX_SIZE : ℕ := 1024 * 64

def PROTO_MBULK_BIG_ARG : ℕ := 1024 * 32

def PROTO_IOBUF_LEN : ℕ := 1024 * 16

/-- The byte that ends the search is the terminator of the string. -/
def strchr (c : UInt8) : Bytes → Option ℕ
  | [] => none
  | b :: s => if b = c then some 0 else if b = 0 then none else (strchr c s).map (· + 1)

def Client.unread (c : Client) : Bytes := c.querybuf.drop c.qbPos

def setProtocolError (c : Client) (e : ProtocolError) : Client :=
  { c with
    protocolError := some e
    closeAfterReply := true }

def withoutCr (line : Bytes) : Bytes :=
  if line.getLast? = some 13 then line.dropLast else line

/-- The result tells if there is a request (`C_OK`). -/
def processInlineBuffer (c : Client) : Client × Bool :=
  match strchr 10 c.unread with
  | none =>
    if c.unread.length > PROTO_INLINE_MAX_SIZE then (setProtocolError c .tooBigInlineRequest, false)
    else (c, false)
  | some newline =>
    let query := withoutCr (c.unread.take newline)
    match sdssplitargs query with
    | none => (setProtocolError c .unbalancedQuotes, false)
    | some argv =>
      if query ≠ [] ∧ c.master then (setProtocolError c .inlineFromMaster, false)
      else ({ c with qbPos := c.qbPos + (newline + 1), argv := argv }, true)

inductive BulkLen where
  | known (len : ℕ) (c : Client)
  | wait
  | error (e : ProtocolError)

/-- The length of the next argument, from the client or from the header that announces it.  The buffer
is trimmed for a big argument. -/
def readBulkLen (cfg : Config) (c : Client) : BulkLen :=
  match c.bulklen with
  | some len => .known len c
  | none =>
    match strchr 13 c.unread with
    | none => if c.unread.length > PROTO_INLINE_MAX_SIZE then .error .tooBigBulkCount else .wait
    | some newline =>
      if newline + 2 > c.unread.length then .wait
      else if c.unread.headD 0 ≠ 36 then .error (.expectedDollar (c.unread.headD 0))
      else
        match string2ll ((c.unread.take newline).drop 1) with
        | none => .error .invalidBulkLength
        | some ll =>
          if ll < 0 ∨ (c.master = false ∧ ll > cfg.protoMaxBulkLen) then .error .invalidBulkLength
          else
            let len := ll.toNat
            let c := { c with qbPos := c.qbPos + (newline + 2), bulklen := some len }
            if len ≥ PROTO_MBULK_BIG_ARG ∧ c.unread.length ≤ len + 2 then
              .known len { c with querybuf := c.unread, qbPos := 0 }
            else .known len c

/-- The next argument, which is complete, leaves the buffer.  A big one that is all of the buffer takes
the buffer along. -/
def readBulk (len : ℕ) (c : Client) : Client :=
  let c := if c.qbPos = 0 ∧ len ≥ PROTO_MBULK_BIG_ARG ∧ c.querybuf.length = len + 2 then
      { c with argv := c.argv ++ [c.querybuf.take len], querybuf := [] }
    else { c with argv := c.argv ++ [c.unread.take len], qbPos := c.qbPos + (len + 2) }
  { c with
    bulklen := none
    multibulklen := c.multibulklen - 1 }

def readArguments (cfg : Config) : ℕ → Client → Client × Bool
  | 0, c => (c, true)
  | missing + 1, c =>
    match readBulkLen cfg c with
    | .error e => (setProtocolError c e, false)
    | .wait => (c, false)
    | .known len c =>
      if c.unread.length < len + 2 then (c, false) else readArguments cfg missing (readBulk len c)

def processMultibulkBuffer (cfg : Config) (c : Client) : Client × Bool :=
  if c.multibulklen = 0 then
    match strchr 13 c.unread with
    | none =>
      if c.unread.length > PROTO_INLINE_MAX_SIZE then (setProtocolError c .tooBigMbulkCount, false)
      else (c, false)
    | some newline =>
      if newline + 2 > c.unread.length then (c, false)
      else
        match string2ll ((c.unread.take newline).drop 1) with
        | none => (setProtocolError c .invalidMultibulkLength, false)
        | some ll =>
          if ll > 1024 * 1024 then (setProtocolError c .invalidMultibulkLength, false)
          else
            let c := { c with qbPos := c.qbPos + (newline + 2) }
            if ll ≤ 0 then (c, true)
            else readArguments cfg ll.toNat { c with multibulklen := ll.toNat, argv := [] }
  else readArguments cfg c.multibulklen c

def resetClient (c : Client) : Client :=
  { c with
    argv := []
    reqtype := none
    multibulklen := 0
    bulklen := none }

def lower (b : UInt8) : UInt8 := if 65 ≤ b ∧ b ≤ 90 then b + 32 else b

def multiAfter (multi : Bool) (argv : List Bytes) : Bool :=
  match argv with
  | [name] =>
    if name.map lower = [109, 117, 108, 116, 105] then true
    else if name.map lower = [101, 120, 101, 99] then false
    else if name.map lower = [100, 105, 115, 99, 97, 114, 100] then false
    else multi
  | _ => multi

def isQuit (argv : List Bytes) : Bool := sameCaseless (argv.headD []) (text "quit")

/-- The result tells if the command was handled (`C_OK`), which QUIT is not. -/
def processCommand (cfg : Config) (c : Client) : Client × Bool :=
  if isQuit c.argv then ({ c with closeAfterReply := true }, false)
  else
    let e := cfg.effect c.executed c.argv
    ({ c with
      executed := c.executed ++ [c.argv]
      multi := multiAfter c.multi c.argv
      closeAfterReply := c.closeAfterReply || e.closeAfterReply
      closeAsap := c.closeAsap || e.closeAsap
      blocked := c.blocked || e.blocked }, true)

def feedReplica (buf : Bytes) (slave : Replica) : Replica :=
  if slave.waitBgsaveStart then slave else { slave with output := slave.output ++ buf }

def replicationFeedSlavesFromMasterStream (s : Server) (buf : Bytes) : Server :=
  { s with
    backlog := s.backlog.map (· ++ buf)
    slaves := s.slaves.map (feedReplica buf) }

def commandProcessed (s : Server) : Server :=
  let prevOffset := s.client.reploff
  let c := if s.client.master ∧ s.client.multi = false then
      { s.client with
        reploff := s.client.readReploff - s.client.querybuf.length + s.client.qbPos }
    else s.client
  let c := resetClient c
  let applied := c.reploff - prevOffset
  if c.master ∧ applied ≠ 0 then
    replicationFeedSlavesFromMasterStream
      { s with client := { c with pendingQuerybuf := c.pendingQuerybuf.drop applied.toNat } }
      (c.pendingQuerybuf.take applied.toNat)
  else { s with client := c }

def processCommandAndResetClient (cfg : Config) (s : Server) : Server :=
  let r := processCommand cfg s.client
  if r.2 then commandProcessed { s with client := r.1 } else { s with client := r.1 }

/-- A request for Gopher is an inline request with no argument or with a selector. -/
def gopherRequest (cfg : Config) (c : Client) : Bool :=
  cfg.gopherEnabled && decide (c.reqtype = some .inline) &&
    (decide (c.argv = []) || (decide (c.argv.length = 1) && decide ((c.argv.headD []).head? = some 47)))

def requestReady (cfg : Config) (s : Server) : Server :=
  if gopherRequest cfg s.client then
    { s with client := { resetClient s.client with closeAfterReply := true } }
  else if s.client.argv = [] then { s with client := resetClient s.client }
  else processCommandAndResetClient cfg s

def detectReqtype (c : Client) : Client :=
  if c.reqtype = none then
    { c with reqtype := if c.unread.head? = some 42 then some .multibulk else some .inline }
  else c

def parseRequest (cfg : Config) (c : Client) : Client × Bool :=
  if c.reqtype = some .inline then processInlineBuffer c else processMultibulkBuffer cfg c

def processRequests (cfg : Config) : ℕ → Server → Server
  | 0, s => s
  | fuel + 1, s =>
    if s.client.unread = [] ∨ s.client.blocked ∨ s.client.closeAfterReply ∨ s.client.closeAsap then s
    else
      let r := parseRequest cfg (detectReqtype s.client)
      if r.2 then processRequests cfg fuel (requestReady cfg { s with client := r.1 })
      else { s with client := r.1 }

def trimQuerybuf (c : Client) : Client :=
  { c with
    querybuf := c.unread
    qbPos := 0 }

def processInputBuffer (cfg : Config) (s : Server) : Server :=
  let s := processRequests cfg s.client.unread.length s
  { s with client := trimQuerybuf s.client }

/-- How many bytes are read: not more than are missing of a big argument. -/
def readLen (c : Client) : ℕ :=
  match c.reqtype, c.bulklen with
  | some .multibulk, some len =>
    if c.multibulklen ≠ 0 ∧ len ≥ PROTO_MBULK_BIG_ARG ∧ c.querybuf.length < len + 2 then
      min PROTO_IOBUF_LEN (len + 2 - c.querybuf.length)
    else PROTO_IOBUF_LEN
  | _, _ => PROTO_IOBUF_LEN

def appendQuerybuf (c : Client) (chunk : Bytes) : Client :=
  if c.master then
    { c with
      querybuf := c.querybuf ++ chunk
      pendingQuerybuf := c.pendingQuerybuf ++ chunk
      readReploff := c.readReploff + chunk.length }
  else { c with querybuf := c.querybuf ++ chunk }

def readQueryFromClient (cfg : Config) (s : Server) (chunk : Bytes) : Server :=
  let c := appendQuerybuf s.client chunk
  if c.querybuf.length > cfg.clientMaxQuerybufLen then { s with client := { c with closeAsap := true } }
  else processInputBuffer cfg { s with client := c }

inductive Reads (cfg : Config) (s : Server) : Bytes → Server → Prop where
  | start : Reads cfg s [] s
  | read {stream : Bytes} {s' : Server} (h : Reads cfg s stream s') (chunk : Bytes) (hne : chunk ≠ [])
      (hlen : chunk.length ≤ readLen s'.client) :
      Reads cfg s (stream ++ chunk) (readQueryFromClient cfg s' chunk)

def newClient (master : Bool) (offset : ℤ) : Client :=
  { master := master
    querybuf := []
    qbPos := 0
    reqtype := none
    multibulklen := 0
    bulklen := none
    argv := []
    protocolError := none
    closeAfterReply := false
    closeAsap := false
    blocked := false
    executed := []
    multi := false
    pendingQuerybuf := []
    readReploff := offset
    reploff := offset }

end RedisCore.Request
