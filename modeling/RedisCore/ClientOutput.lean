import RedisCore.IntegerText
import RedisCore.RequestEncoding

namespace RedisCore.Output
open List (append_assoc append_nil replicate)

inductive ReplState where
  | none
  | waitBgsaveStart
  | waitBgsaveEnd
  | sendBulk
  | online
deriving DecidableEq, Repr

inductive ClientType where
  | normal
  | slave
  | pubsub
  | master
deriving DecidableEq, Repr

structure ReplyBlock where
  size : ℕ
  bytes : Bytes
  fits : bytes.length ≤ size

structure BufferLimits where
  hardLimitBytes : ℕ
  softLimitBytes : ℕ
  softLimitSeconds : ℤ

structure Env where
  clientObufLimits : ClientType → BufferLimits
  unixtime : ℤ
  fragmentation : ℕ → ℕ

structure Client where
  lua : Bool
  module : Bool
  closeAsap : Bool
  closeAfterReply : Bool
  replyOff : Bool
  replySkip : Bool
  master : Bool
  masterForceReply : Bool
  slave : Bool
  monitor : Bool
  pubsub : Bool
  conn : Bool
  replstate : ReplState
  buf : Bytes
  /-- A node without a block keeps the place of a length that is not known yet. -/
  reply : List (Option ReplyBlock)
  replyBytes : ℕ
  obufSoftLimitReachedTime : ℤ

def protoReplyChunkBytes : ℕ := 16 * 1024

def prepareClientToWrite (c : Client) : Bool :=
  if c.lua || c.module then true
  else if c.closeAsap then false
  else if c.replyOff || c.replySkip then false
  else if c.master && !c.masterForceReply then false
  else c.conn

def getClientType (c : Client) : ClientType :=
  if c.master then .master
  else if c.slave && !c.monitor then .slave
  else if c.pubsub then .pubsub
  else .normal

def getClientOutputBufferMemoryUsage (c : Client) : ℕ := c.replyBytes + (24 + 16) * c.reply.length

def checkClientOutputBufferLimits (env : Env) (c : Client) : Bool × Client :=
  let usedMem := getClientOutputBufferMemoryUsage c
  let limits := env.clientObufLimits
    (if getClientType c = .master then .normal else getClientType c)
  let hard := decide (limits.hardLimitBytes ≠ 0 ∧ usedMem ≥ limits.hardLimitBytes)
  if limits.softLimitBytes ≠ 0 ∧ usedMem ≥ limits.softLimitBytes then
    if c.obufSoftLimitReachedTime = 0 then
      (hard, { c with obufSoftLimitReachedTime := env.unixtime })
    else
      let elapsed := env.unixtime - c.obufSoftLimitReachedTime
      (hard || decide (¬ elapsed ≤ limits.softLimitSeconds), c)
  else (hard, { c with obufSoftLimitReachedTime := 0 })

def freeClientAsync (c : Client) : Client :=
  if c.closeAsap || c.lua then c else { c with closeAsap := true }

def asyncCloseClientOnOutputBufferLimitReached (env : Env) (c : Client) : Client :=
  if !c.conn then c
  else if c.replyBytes = 0 || c.closeAsap then c
  else
    let (reached, c) := checkClientOutputBufferLimits env c
    if reached then freeClientAsync c else c

def addReplyToBuffer (c : Client) (s : Bytes) : Option Client :=
  let available := protoReplyChunkBytes - c.buf.length
  if c.closeAfterReply then some c
  else if c.reply.length > 0 then none
  else if s.length > available then none
  else some { c with buf := c.buf ++ s }

def ReplyBlock.append (b : ReplyBlock) (s : Bytes) : ReplyBlock where
  size := b.size
  bytes := b.bytes ++ s.take (b.size - b.bytes.length)
  fits := by
    have h := b.fits
    rw [List.length_append, List.length_take]
    omega

def newReplyBlock (env : Env) (s : Bytes) : ReplyBlock where
  size := max protoReplyChunkBytes s.length + env.fragmentation (max protoReplyChunkBytes s.length)
  bytes := s
  fits := by omega

def fillTail (reply : List (Option ReplyBlock)) (s : Bytes) : List (Option ReplyBlock) × Bytes :=
  match reply.getLast? with
  | some (some tail) =>
    (reply.dropLast ++ [some (tail.append s)], s.drop (tail.size - tail.bytes.length))
  | _ => (reply, s)

def addReplyProtoToList (env : Env) (c : Client) (s : Bytes) : Client :=
  if c.closeAfterReply then c
  else
    let (reply, s) := fillTail c.reply s
    let c :=
      if s = [] then { c with reply := reply }
      else
        let tail := newReplyBlock env s
        { c with reply := reply ++ [some tail], replyBytes := c.replyBytes + tail.size }
    asyncCloseClientOnOutputBufferLimitReached env c

def addReplyProto (env : Env) (c : Client) (s : Bytes) : Client :=
  if prepareClientToWrite c then (addReplyToBuffer c s).getD (addReplyProtoToList env c s) else c

inductive StringObject where
  | raw (s : { s : Bytes // s.length < 2 ^ 63 })
  | int (v : Int64)

def stringObjectLen : StringObject → ℕ
  | .raw s => s.val.length
  | .int v => digits10 v.toInt.natAbs + (if v.toInt < 0 then 1 else 0)

def addReply (env : Env) (c : Client) (obj : StringObject) : Except Fault Client :=
  if prepareClientToWrite c then
    match obj with
    | .raw s => return (addReplyToBuffer c s.val).getD (addReplyProtoToList env c s.val)
    | .int v => do
      let (buf, len) ← ll2string (replicate 32 0) v.toInt
      let s ← loadBytes buf 0 len
      return (addReplyToBuffer c s).getD (addReplyProtoToList env c s)
  else return c

def sharedBulkhdr (lead : UInt8) (j : ℕ) : Except Fault Bytes :=
  match ((List.range 32).map (Request.encodeLine lead))[j]? with
  | some s => return s
  | none => .error .outOfBounds

def printLine (size : ℕ) (lead : UInt8) (ll : ℤ) : Except Fault Bytes := do
  let (digits, len) ← ll2string (replicate (size - 1) 0) ll
  let buf ← storeBytes (lead :: digits) (len + 1) [13, 10]
  loadBytes buf 0 (len + 3)

def addReplyLongLongWithPrefix (env : Env) (c : Client) (ll : ℤ) (lead : UInt8) :
    Except Fault Client := do
  if (lead = 42 ∨ lead = 36) ∧ ll < 32 ∧ ll ≥ 0 then
    let s ← sharedBulkhdr lead ll.toNat
    return addReplyProto env c s
  else
    let s ← printLine 128 lead ll
    return addReplyProto env c s

def addReplyArrayLen (env : Env) (c : Client) (length : ℕ) : Except Fault Client := do
  if length < 32 then
    let s ← sharedBulkhdr 42 length
    return addReplyProto env c s
  else addReplyLongLongWithPrefix env c length 42

def addReplyBulkLen (env : Env) (c : Client) (obj : StringObject) : Except Fault Client := do
  let len := stringObjectLen obj
  if len < 32 then
    let s ← sharedBulkhdr 36 len
    return addReplyProto env c s
  else addReplyLongLongWithPrefix env c len 36

def addReplyBulk (env : Env) (c : Client) (obj : StringObject) : Except Fault Client := do
  let c ← addReplyBulkLen env c obj
  let c ← addReply env c obj
  return addReplyProto env c [13, 10]

variable {env : Env} {c : Client} {s : Bytes} {ss : List Bytes} {obj : StringObject}

def blockBytes : Option ReplyBlock → Bytes
  | some b => b.bytes
  | none => []

def Client.output (c : Client) : Bytes := c.buf ++ c.reply.flatMap blockBytes

def Client.Open (c : Client) : Prop := prepareClientToWrite c = true ∧ c.closeAfterReply = false

instance (c : Client) : Decidable c.Open := inferInstanceAs (Decidable (_ ∧ _))

theorem asyncClose_output (env : Env) (c : Client) :
    (asyncCloseClientOnOutputBufferLimitReached env c).output = c.output ∧
      (asyncCloseClientOnOutputBufferLimitReached env c).replstate = c.replstate := by
  unfold asyncCloseClientOnOutputBufferLimitReached checkClientOutputBufferLimits freeClientAsync
  dsimp only
  split_ifs <;> exact ⟨rfl, rfl⟩

theorem fillTail_bytes (reply : List (Option ReplyBlock)) (s : Bytes) :
    (fillTail reply s).1.flatMap blockBytes ++ (fillTail reply s).2 =
      reply.flatMap blockBytes ++ s := by
  unfold fillTail
  split
  · rename_i tail hlast
    have hreply : reply = reply.dropLast ++ [some tail] :=
      (List.dropLast_append_getLast? _ (Option.mem_def.mpr hlast)).symm
    have hbytes : reply.flatMap blockBytes = reply.dropLast.flatMap blockBytes ++ tail.bytes := by
      nth_rewrite 1 [hreply]
      rw [List.flatMap_append, List.flatMap_singleton]
      rfl
    rw [hbytes, List.flatMap_append, List.flatMap_singleton]
    simp only [blockBytes, ReplyBlock.append, append_assoc, List.take_append_drop]
  · rfl

theorem addReplyProtoToList_output (hopen : c.closeAfterReply = false) :
    (addReplyProtoToList env c s).output = c.output ++ s ∧
      (addReplyProtoToList env c s).replstate = c.replstate := by
  have hbytes := fillTail_bytes c.reply s
  unfold addReplyProtoToList
  rw [if_neg (by rw [hopen]; exact Bool.false_ne_true)]
  dsimp only
  rw [(asyncClose_output env _).1, (asyncClose_output env _).2]
  unfold Client.output
  rw [append_assoc, ← hbytes]
  split_ifs with hrest
  · rw [hrest, append_nil]
    exact ⟨rfl, rfl⟩
  · rw [List.flatMap_append, List.flatMap_singleton]
    exact ⟨rfl, rfl⟩

theorem addReplyProto_closed (hclosed : ¬ c.Open) : addReplyProto env c s = c := by
  unfold addReplyProto
  split_ifs with hprepare
  · have hafter : c.closeAfterReply = true := by
      by_contra h
      exact hclosed ⟨hprepare, Bool.not_eq_true _ ▸ h⟩
    unfold addReplyToBuffer
    dsimp only
    rw [if_pos hafter, Option.getD_some]
  · rfl

theorem addReplyProto_output (hopen : c.Open) :
    (addReplyProto env c s).output = c.output ++ s ∧
      (addReplyProto env c s).replstate = c.replstate := by
  unfold addReplyProto
  rw [if_pos hopen.1]
  unfold addReplyToBuffer
  dsimp only
  rw [hopen.2, if_neg Bool.false_ne_true]
  split_ifs with hlist hroom
  · exact addReplyProtoToList_output hopen.2
  · exact addReplyProtoToList_output hopen.2
  · have hreply : c.reply = [] := List.length_eq_zero_iff.mp (by omega)
    unfold Client.output
    simp only [Option.getD_some, hreply, List.flatMap_nil, append_nil, and_self]

def receive (env : Env) (c : Client) (ss : List Bytes) : Client := ss.foldl (addReplyProto env) c

theorem receive_append (c : Client) (ss ts : List Bytes) :
    receive env c (ss ++ ts) = receive env (receive env c ss) ts := List.foldl_append

theorem receive_closed (hclosed : ¬ c.Open) : receive env c ss = c := by
  induction ss with
  | nil => rfl
  | cons s ss ih => rw [receive, List.foldl_cons, addReplyProto_closed hclosed, ← receive, ih]

theorem receive_output (env : Env) (c : Client) (ss : List Bytes) :
    (∃ sent, sent <+: ss.flatten ∧ (receive env c ss).output = c.output ++ sent) ∧
      ((receive env c ss).Open → (receive env c ss).output = c.output ++ ss.flatten) ∧
      (receive env c ss).replstate = c.replstate := by
  induction ss generalizing c with
  | nil => exact ⟨⟨[], List.nil_prefix, (append_nil _).symm⟩,
      fun _ => (append_nil _).symm, rfl⟩
  | cons s ss ih =>
    by_cases hopen : c.Open
    · obtain ⟨⟨sent, hsent, hout⟩, hall, hstate⟩ := ih (addReplyProto env c s)
      obtain ⟨hfirst, hfirstState⟩ := @addReplyProto_output env _ s hopen
      have hrun : receive env c (s :: ss) = receive env (addReplyProto env c s) ss := rfl
      rw [hrun, hstate, hfirstState, List.flatten_cons]
      refine ⟨⟨s ++ sent, (List.prefix_append_right_inj s).mpr hsent, ?_⟩, ?_, rfl⟩
      · rw [hout, hfirst, append_assoc]
      · intro hstill
        rw [hall hstill, hfirst, append_assoc]
    · rw [receive_closed hopen]
      exact ⟨⟨[], List.nil_prefix, (append_nil _).symm⟩,
        fun hstill => absurd hstill hopen, rfl⟩

def StringObject.text : StringObject → Bytes
  | .raw s => s.val
  | .int v => decimal v.toInt

theorem int64_range (v : Int64) : -2 ^ 63 ≤ v.toInt ∧ v.toInt < 2 ^ 63 :=
  ⟨v.le_toInt, v.toInt_lt⟩

theorem stringObjectLen_eq (obj : StringObject) : stringObjectLen obj = obj.text.length := by
  cases obj with
  | raw s => rfl
  | int v =>
    simp only [stringObjectLen, StringObject.text, decimal, digits10_eq]
    split_ifs
    · rw [List.length_cons]
    · rfl

theorem text_length_lt (obj : StringObject) : obj.text.length < 2 ^ 63 := by
  cases obj with
  | raw s => exact s.property
  | int v =>
    have h := decimal_length (int64_range v).1 (int64_range v).2
    have hlen : (decimal v.toInt).length < 2 ^ 63 := lt_of_le_of_lt h.2 (by norm_num)
    exact hlen

theorem ll2string_load {v : ℤ} (hlo : -2 ^ 63 ≤ v) (hhi : v < 2 ^ 63) {size : ℕ}
    (hsize : 21 ≤ size) : ∃ buf, ll2string (replicate size 0) v =
      .ok (buf, (decimal v).length) ∧ loadBytes buf 0 (decimal v).length = .ok (decimal v) := by
  have hlen := (decimal_length hlo hhi).2
  obtain ⟨rest, hprint⟩ := ll2string_spec hlo hhi (replicate size 0)
    (by rw [List.length_replicate]; omega)
  exact ⟨_, hprint, loadBytes_at (a := []) (b := decimal v) (c := 0 :: rest) rfl rfl rfl⟩

theorem addReply_eq (env : Env) (c : Client) (obj : StringObject) :
    addReply env c obj = .ok (addReplyProto env c obj.text) := by
  unfold addReply addReplyProto
  split_ifs
  · cases obj with
    | raw s => rfl
    | int v =>
      obtain ⟨buf, hprint, hload⟩ :=
        ll2string_load (int64_range v).1 (int64_range v).2 (show 21 ≤ 32 by norm_num)
      simp only [hprint, ok_bind, hload]
      rfl
  · rfl

theorem sharedBulkhdr_eq {lead : UInt8} {j : ℕ} (hj : j < 32) :
    sharedBulkhdr lead j = .ok (Request.encodeLine lead j) := by
  unfold sharedBulkhdr
  rw [List.getElem?_map, List.getElem?_range hj]
  rfl

theorem printLine_eq {size n : ℕ} {lead : UInt8} (hn : n < 2 ^ 63) (hsize : 24 ≤ size) :
    printLine size lead n = .ok (Request.encodeLine lead n) := by
  have hlen := (decimal_length (v := n) (by omega) (by omega)).2
  have hprint := ll2string_buffer (v := n) (by omega) (by omega) (replicate (size - 1) 0)
    (by rw [List.length_replicate]; omega)
  -- behind the terminator there is room for the second byte of the end of the line
  obtain ⟨x, rest, hrest⟩ : ∃ x rest,
      (replicate (size - 1) (0 : UInt8)).drop ((decimal n).length + 1) = x :: rest := by
    apply List.exists_cons_of_ne_nil
    rw [ne_eq, List.drop_eq_nil_iff, List.length_replicate]
    omega
  have hstore : storeBytes (lead :: (decimal n ++ 0 :: x :: rest)) ((decimal n).length + 1) [13, 10] =
      .ok (lead :: decimal n ++ ([13, 10] ++ rest)) :=
    storeBytes_at (a := lead :: decimal n) (x := [0, x]) rfl rfl rfl
  unfold printLine
  rw [hprint, hrest, ok_bind]
  dsimp only
  rw [hstore, ok_bind]
  exact loadBytes_at (a := []) (b := Request.encodeLine lead n) (c := rest)
    (by simp [Request.encodeLine]) rfl (by simp [Request.encodeLine])

theorem addReplyLongLongWithPrefix_eq (env : Env) (c : Client) {lead : UInt8} {n : ℕ}
    (hn : n < 2 ^ 63) : addReplyLongLongWithPrefix env c n lead =
      .ok (addReplyProto env c (Request.encodeLine lead n)) := by
  unfold addReplyLongLongWithPrefix
  split_ifs with hshared
  · rw [Int.toNat_natCast, sharedBulkhdr_eq (by omega)]
    rfl
  · rw [printLine_eq hn (by norm_num)]
    rfl

theorem addReplyArrayLen_eq (env : Env) (c : Client) {n : ℕ} (hn : n < 2 ^ 63) :
    addReplyArrayLen env c n = .ok (addReplyProto env c (Request.encodeLine 42 n)) := by
  unfold addReplyArrayLen
  split_ifs with hshared
  · rw [sharedBulkhdr_eq hshared]
    rfl
  · exact addReplyLongLongWithPrefix_eq env c hn

theorem addReplyBulk_eq (env : Env) (c : Client) (obj : StringObject) :
    addReplyBulk env c obj = .ok (receive env c
      [Request.encodeLine 36 obj.text.length, obj.text, [13, 10]]) := by
  have hlen : addReplyBulkLen env c obj =
      .ok (addReplyProto env c (Request.encodeLine 36 obj.text.length)) := by
    unfold addReplyBulkLen
    dsimp only
    rw [stringObjectLen_eq]
    split_ifs with hshared
    · rw [sharedBulkhdr_eq hshared]
      rfl
    · exact addReplyLongLongWithPrefix_eq env c (text_length_lt obj)
  unfold addReplyBulk
  rw [hlen, ok_bind, addReply_eq, ok_bind]
  rfl

end RedisCore.Output
