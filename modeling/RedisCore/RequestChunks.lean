import RedisCore.RequestEncoding

namespace RedisCore.Request

open StateTransition StreamMachine

variable {cfg : Config} {s s' : Server} {stream : Bytes}

def newServer (backlog : Option Bytes) (slaves : List Replica) (master : Bool) (offset : ℤ) : Server :=
  { backlog := backlog
    slaves := slaves
    client := newClient master offset }

theorem newServer_waiting (cfg : Config) (backlog : Option Bytes) (slaves : List Replica) (master : Bool)
    (offset : ℤ) : Waiting cfg (newServer backlog slaves master offset) (between [] 0 []) := by
  have hopen : HaltedBy false false false false := by
    unfold HaltedBy
    decide
  refine ⟨⟨rfl, le_refl _, rfl, rfl, rfl, rfl, rfl, hopen, rfl⟩, rfl, rfl, rfl, fun h => ?_⟩
  cases h

theorem readLen_pos (c : Client) : 0 < readLen c := by
  have hpos : 0 < PROTO_IOBUF_LEN := by decide
  unfold readLen
  split
  · split_ifs with h
    · exact lt_min hpos (Nat.sub_pos_of_lt h.2.2)
    · exact hpos
  · exact hpos

theorem reads_exist (cfg : Config) (s : Server) (stream : Bytes) : ∃ s', Reads cfg s stream s' := by
  induction stream using List.reverseRecOn with
  | nil => exact ⟨s, Reads.start⟩
  | append_singleton stream b ih =>
    obtain ⟨s', hreads⟩ := ih
    exact ⟨_, hreads.read [b] (List.cons_ne_nil b []) (readLen_pos s'.client)⟩

theorem encodeItems_commands (cmds : List (List Bytes)) :
    encodeItems (cmds.map Item.command) = cmds.flatMap encodeCommand := by
  unfold encodeItems
  rw [List.flatMap_map]
  rfl

theorem completed_commands (cmds : List (List Bytes)) :
    ∀ t, (completed t (cmds.map Item.command)).map Prod.fst = cmds := by
  induction cmds with
  | nil => exact fun _ => rfl
  | cons argv cmds ih =>
    intro t
    rw [List.map_cons]
    unfold completed
    rw [List.map_cons, ih]

/-- A command of at most 1024*1024 arguments, each below `proto-max-bulk-len` and, with the line end, below
the limit of the query buffer. -/
def Accepted (cfg : Config) (argv : List Bytes) : Prop :=
  argv ≠ [] ∧ argv.length ≤ 1024 * 1024 ∧
    ∀ arg ∈ argv, arg.length ≤ cfg.protoMaxBulkLen ∧ arg.length + 2 ≤ cfg.clientMaxQuerybufLen

theorem commands_goes (cfg : Config) (master : Bool) {cmds : List (List Bytes)}
    (h : ∀ argv ∈ cmds, Accepted cfg argv) (hcalm : Calm cfg cmds) :
    Goes cfg master True (completed 0 (cmds.map Item.command)) (between (cmds.flatMap encodeCommand) 0 []) := by
  have hitems := items_goes cfg master True (cmds.map Item.command) 0 []
    (fun item hitem => by
      obtain ⟨argv, hargv, rfl⟩ := List.mem_map.mp hitem
      obtain ⟨hne, hcount, hargs⟩ := h argv hargv
      exact ⟨hne, hcount, fun arg harg => ⟨(hargs arg harg).1.trans_lt cfg.protoMaxBulkLen_lt,
        fun _ => (hargs arg harg).1⟩⟩)
    (fun _ item hitem => by
      obtain ⟨argv, hargv, rfl⟩ := List.mem_map.mp hitem
      exact fun arg harg => ((h argv hargv).2.2 arg harg).2)
    (fun _ => by
      rw [List.nil_append, completed_commands]
      exact hcalm)
  rw [encodeItems_commands] at hitems
  exact hitems

/-- Parsing does not depend on the reads, if the limit of the query buffer leaves room for lines: commands
are executed as they were encoded, unless one of them ends the requests of its client, and any stream of
short lines leads to the same commands and the same error. -/
theorem request_parsing {cfg : Config} (hroomy : Roomy cfg) (backlog : Option Bytes) (slaves : List Replica)
    (master : Bool) (offset : ℤ) :
    (∀ cmds : List (List Bytes), (∀ argv ∈ cmds, Accepted cfg argv) → Calm cfg cmds →
      ∀ s, Reads cfg (newServer backlog slaves master offset) (cmds.flatMap encodeCommand) s →
        s.client.executed = cmds ∧ s.client.protocolError = none) ∧
    ∀ stream, ShortLines cfg master (between stream 0 []) →
      ∀ s1 s2, Reads cfg (newServer backlog slaves master offset) stream s1 →
        Reads cfg (newServer backlog slaves master offset) stream s2 →
        s1.client.executed = s2.client.executed ∧ s1.client.protocolError = s2.client.protocolError := by
  have hwait := newServer_waiting cfg backlog slaves master offset
  constructor
  · intro cmds haccepted hcalm s' hreads
    have hgoes := commands_goes cfg master haccepted hcalm
    obtain ⟨q, hrun, hq, hmaster⟩ := hreads.waiting hroomy hwait hgoes.short
    obtain ⟨q', hrun', hstop', herror, -, -, hall⟩ := hgoes.stops
    have hstop := hq.stop
    rw [hmaster] at hstop
    have heq : q = q' := stops_unique hrun hstop hrun' hstop'
    rw [← hq.same.executed, ← hq.same.error, heq, herror, hall trivial, completed_commands]
    exact ⟨rfl, rfl⟩
  · intro stream hshort s1 s2 h1 h2
    exact h1.same hroomy hwait hshort h2

def defaultConfig : Config :=
  { protoMaxBulkLen := 512 * 1024 * 1024
    protoMaxBulkLen_lt := by norm_num
    clientMaxQuerybufLen := 1024 * 1024 * 1024
    gopherEnabled := false
    effect := fun _ _ =>
      { closeAfterReply := false
        closeAsap := false
        blocked := false } }

theorem defaultConfig_roomy : Roomy defaultConfig := by
  unfold Roomy
  decide

theorem defaultConfig_calm {cmds : List (List Bytes)} (h : ∀ argv ∈ cmds, isQuit argv = false) :
    Calm defaultConfig cmds :=
  fun _ _ hinit => ⟨h _ (hinit.subset (List.mem_append_right _ List.mem_cons_self)), rfl⟩

def connected : Server := newServer none [] false 0

def ping : Bytes := text "PING"

def pingRequest : Bytes := text "*1\r\n$4\r\nPING\r\n"

/-- The value is a line end, which is cut by the first read; the second ends in the length of the next
argument. -/
def setPing : List (List Bytes) := [[text "SET", text "k", text "\r\n"], [ping]]

def firstRead : Bytes := text "*3\r\n$3\r\nSET\r\n$1\r\nk\r\n$2\r\n\r"

def secondRead : Bytes := text "\n\r\n*1\r\n$"

def thirdRead : Bytes := text "4\r\nPING\r\n"

theorem setPing_bytes : setPing.flatMap encodeCommand = [] ++ firstRead ++ secondRead ++ thirdRead := by
  decide +kernel

def readTwice : Server :=
  readQueryFromClient defaultConfig (readQueryFromClient defaultConfig connected firstRead) secondRead

theorem request_parsing_setPing : ∃ s1 s2, s1 = readQueryFromClient defaultConfig readTwice thirdRead ∧
    s2 = readQueryFromClient defaultConfig connected (setPing.flatMap encodeCommand) ∧
    (s1.client.executed = setPing ∧ s1.client.protocolError = none) ∧
    s1.client.executed = s2.client.executed ∧ s1.client.protocolError = s2.client.protocolError := by
  have haccepted : ∀ argv ∈ setPing, Accepted defaultConfig argv := by
    unfold Accepted
    decide +kernel
  have hcalm : Calm defaultConfig setPing := defaultConfig_calm (by decide)
  have hshort := (commands_goes defaultConfig false haccepted hcalm).short
  have h1 : Reads defaultConfig connected ([] ++ firstRead) (readQueryFromClient defaultConfig connected firstRead) :=
    Reads.start.read firstRead (by decide) (by decide +kernel)
  have h2 : Reads defaultConfig connected ([] ++ firstRead ++ secondRead) readTwice :=
    h1.read secondRead (by decide) (by decide +kernel)
  have h3 := h2.read thirdRead (by decide) (by decide +kernel)
  have hstart : Reads defaultConfig connected [] connected := Reads.start
  have hall := hstart.read (setPing.flatMap encodeCommand) (by decide +kernel) (by decide +kernel)
  rw [← setPing_bytes] at h3
  have hparsed := request_parsing defaultConfig_roomy none [] false 0
  exact ⟨_, _, rfl, rfl, hparsed.1 setPing haccepted hcalm _ h3, hparsed.2 _ hshort _ _ h3 hall⟩

def smallConfig : Config := { defaultConfig with clientMaxQuerybufLen := 14 }

def quitPing : List (List Bytes) := [[text "quit"], [ping]]

/-- With a small limit of the query buffer, two commands in one read close the client, and no command is
executed after QUIT. -/
theorem requests_may_be_lost :
    (∃ s1 s2, Reads smallConfig connected ([[ping], [ping]].flatMap encodeCommand) s1 ∧
      Reads smallConfig connected ([[ping], [ping]].flatMap encodeCommand) s2 ∧
      s1.client.executed = [[ping], [ping]] ∧ s2.client.executed = []) ∧
    ∃ s, Reads defaultConfig connected (quitPing.flatMap encodeCommand) s ∧ [ping] ∉ s.client.executed := by
  have hbytes : [[ping], [ping]].flatMap encodeCommand = [] ++ pingRequest ++ pingRequest := by decide +kernel
  constructor
  · have h1 : Reads smallConfig connected ([] ++ pingRequest) (readQueryFromClient smallConfig connected pingRequest) :=
      Reads.start.read pingRequest (by decide) (by decide +kernel)
    have h2 := h1.read pingRequest (by decide) (by decide +kernel)
    have h3 : Reads smallConfig connected ([] ++ (pingRequest ++ pingRequest))
        (readQueryFromClient smallConfig connected (pingRequest ++ pingRequest)) :=
      Reads.start.read (pingRequest ++ pingRequest) (by decide) (by decide +kernel)
    rw [hbytes]
    exact ⟨_, _, h2, h3, by decide +kernel, by decide +kernel⟩
  · have hstart : Reads defaultConfig connected [] connected := Reads.start
    have h := hstart.read (quitPing.flatMap encodeCommand) (by decide +kernel) (by decide +kernel)
    exact ⟨_, h, by decide +kernel⟩

end RedisCore.Request
