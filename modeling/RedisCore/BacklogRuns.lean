import RedisCore.BacklogModel
import RedisCore.CircularWindow

namespace RedisCore.Replication
open List (append_assoc append_nil flatMap_cons flatten_append flatten_nil length_append length_drop
  length_nil length_rotate singleton_inj take_zero)

open Output Circular

variable {env : Env} {s s' s'' : Server} {c : Client} {p q stream : Bytes}

structure Window (s : Server) (stream : Bytes) : Prop where
  size_pos : 0 < s.replBacklogSize
  idx_lt : s.replBacklogIdx < s.replBacklogSize
  histlen_le : s.replBacklogHistlen ≤ s.replBacklogSize
  histlen_le_stream : s.replBacklogHistlen ≤ stream.length
  off_eq : s.replBacklogOff = s.masterReplOffset - s.replBacklogHistlen + 1
  /-- In the order in which it is written the buffer ends with the bytes of the stream. -/
  holds : ∃ backlog, s.replBacklog = some backlog ∧ backlog.length = s.replBacklogSize ∧
    (backlog.rotate s.replBacklogIdx).rtake s.replBacklogHistlen =
      stream.rtake s.replBacklogHistlen

theorem feedLoop_spec (fuel : ℕ) : ∀ {s : Server} {p backlog : Bytes}, p.length < fuel →
    s.replBacklog = some backlog → backlog.length = s.replBacklogSize →
    s.replBacklogIdx < s.replBacklogSize →
    ∃ backlog' idx', feedLoop fuel s p = .ok { s with
        replBacklog := some backlog'
        replBacklogIdx := idx'
        replBacklogHistlen := s.replBacklogHistlen + p.length } ∧
      backlog'.length = s.replBacklogSize ∧ idx' < s.replBacklogSize ∧
      backlog'.rotate idx' = (backlog.rotate s.replBacklogIdx ++ p).rtake s.replBacklogSize := by
  induction fuel with
  | zero =>
    intro s p backlog hfuel
    omega
  | succ fuel ih =>
    intro s p backlog hfuel hbacklog hsize hidx
    unfold feedLoop
    split_ifs with hnil
    · have hp : p = [] := List.length_eq_zero_iff.mp hnil
      have hrot : (backlog.rotate s.replBacklogIdx ++ []).rtake s.replBacklogSize =
          backlog.rotate s.replBacklogIdx := by
        rw [append_nil, rtake_of_length_le (by rw [length_rotate, hsize])]
      refine ⟨backlog, s.replBacklogIdx, ?_, hsize, hidx, by rw [hp, hrot]⟩
      rw [hp, ← hbacklog]
      rfl
    · -- one piece up to the end of the buffer, and the rest from the start of it
      generalize hlen : (if s.replBacklogSize - s.replBacklogIdx > p.length then p.length
        else s.replBacklogSize - s.replBacklogIdx) = thislen
      have hle : thislen ≤ p.length ∧ 0 < thislen ∧
          s.replBacklogIdx + thislen ≤ s.replBacklogSize := by
        rw [← hlen]
        split_ifs <;> omega
      have hpiece : (p.take thislen).length = thislen := by
        rw [List.length_take, Nat.min_eq_left hle.1]
      have hfit : s.replBacklogIdx + (p.take thislen).length ≤ backlog.length := by omega
      generalize hstored : backlog.take s.replBacklogIdx ++
        (p.take thislen ++ backlog.drop (s.replBacklogIdx + (p.take thislen).length)) = stored
      have hstore : storeBytes backlog s.replBacklogIdx (p.take thislen) = .ok stored := by
        rw [storeBytes, if_pos hfit, hstored]
      have hrotate := rotate_write hfit
      have hlength := length_write hfit
      rw [hstored] at hrotate hlength
      rw [hpiece, hsize] at hrotate
      have hadvance : advance s.replBacklogSize s.replBacklogIdx thislen < s.replBacklogSize :=
        advance_lt (by omega) hle.2.2
      obtain ⟨backlog', idx', hrun, hsize', hidx', hrotate'⟩ :=
        ih (p := p.drop thislen)
          (s := { s with
            replBacklog := some stored
            replBacklogIdx := advance s.replBacklogSize s.replBacklogIdx thislen
            replBacklogHistlen := s.replBacklogHistlen + thislen })
          (by rw [length_drop]; omega) rfl (hlength.trans hsize) hadvance
      refine ⟨backlog', idx', ?_, hsize', hidx', ?_⟩
      · rw [hbacklog]
        dsimp only
        rw [hlen, hstore, ok_bind]
        have hcount : s.replBacklogHistlen + thislen + (p.drop thislen).length =
            s.replBacklogHistlen + p.length := by
          rw [length_drop]
          omega
        rw [hcount] at hrun
        exact hrun
      · rw [hrotate', hrotate]
        have hpieces : p = p.take thislen ++ p.drop thislen := (List.take_append_drop _ _).symm
        nth_rewrite 3 [hpieces]
        rw [← append_assoc]
        apply rtake_congr_append _ _ (Nat.le_add_right s.replBacklogSize _)
        exact rtake_rtake _ le_rfl

structure Fed (s : Server) (p : Bytes) (s' : Server) : Prop where
  masterhost : s'.masterhost = s.masterhost
  slaveseldb : s'.slaveseldb = s.slaveseldb
  slaves : s'.slaves = s.slaves
  size : s'.replBacklogSize = s.replBacklogSize
  offset : s'.masterReplOffset = s.masterReplOffset + p.length
  histlen : s'.replBacklogHistlen = min (s.replBacklogHistlen + p.length) s.replBacklogSize
  window : ∀ stream, Window s stream → Window s' (stream ++ p)

theorem Fed.trans (hp : Fed s p s') (hq : Fed s' q s'') : Fed s (p ++ q) s'' where
  masterhost := hq.masterhost.trans hp.masterhost
  slaveseldb := hq.slaveseldb.trans hp.slaveseldb
  slaves := hq.slaves.trans hp.slaves
  size := hq.size.trans hp.size
  offset := by
    rw [hq.offset, hp.offset, length_append, Nat.cast_add]
    ring
  histlen := by
    rw [hq.histlen, hp.histlen, hp.size, length_append]
    omega
  window := by
    intro stream hw
    rw [← append_assoc]
    exact hq.window _ (hp.window stream hw)

theorem feedReplicationBacklog_spec (hw : Window s stream) (p : Bytes) :
    ∃ s', feedReplicationBacklog s p = .ok s' ∧ Fed s p s' := by
  obtain ⟨backlog, hbacklog, hsize, -⟩ := hw.holds
  obtain ⟨backlog', idx', hrun, hsize', hidx', hrotate⟩ :=
    feedLoop_spec (p.length + 1) (Nat.lt_succ_self _)
      (s := { s with masterReplOffset := s.masterReplOffset + p.length }) hbacklog hsize hw.idx_lt
  dsimp only at hrun hsize' hidx' hrotate
  unfold feedReplicationBacklog
  dsimp only
  rw [hrun, ok_bind]
  refine ⟨_, rfl, ?_⟩
  have hhist : (if s.replBacklogHistlen + p.length > s.replBacklogSize then s.replBacklogSize
      else s.replBacklogHistlen + p.length) =
      min (s.replBacklogHistlen + p.length) s.replBacklogSize := by
    split_ifs <;> omega
  dsimp only
  rw [hhist]
  constructor
  case window =>
    intro T hT
    obtain ⟨old, hold, -, hholds⟩ := hT.holds
    have heq : old = backlog := Option.some.inj (hold.symm.trans hbacklog)
    rw [heq] at hholds
    have hT1 := hT.histlen_le_stream
    refine ⟨hw.size_pos, hidx', Nat.min_le_right _ _, ?_, rfl, backlog', rfl, hsize', ?_⟩
    · rw [length_append]
      dsimp only
      omega
    · dsimp only
      rw [hrotate, rtake_rtake _ (Nat.min_le_right _ _)]
      exact rtake_congr_append hholds p (Nat.min_le_left _ _)
  all_goals rfl

theorem emptyBacklog_window (hpos : 0 < s.replBacklogSize) (stream : Bytes) :
    Window (emptyBacklog s) stream where
  size_pos := hpos
  idx_lt := hpos
  histlen_le := Nat.zero_le _
  histlen_le_stream := Nat.zero_le _
  off_eq := by
    dsimp only [emptyBacklog]
    omega
  holds := ⟨_, rfl, List.length_replicate, by simp [emptyBacklog, List.rtake]⟩

theorem resizeReplicationBacklog_window (hw : Window s stream) (newsize : ℤ) :
    Window (resizeReplicationBacklog s newsize) stream := by
  obtain ⟨backlog, hbacklog, -⟩ := hw.holds
  unfold resizeReplicationBacklog
  dsimp only
  split_ifs with hmin hsame hsame
  · exact hw
  · rw [hbacklog]
    exact emptyBacklog_window (by unfold configReplBacklogMinSize; norm_num) stream
  · exact hw
  · rw [hbacklog]
    apply emptyBacklog_window
    unfold configReplBacklogMinSize at hmin
    dsimp only
    omega

/-- What a client gets that is sent `bytes`: all of them if it still takes replies at the end, the
first of them if it stops in between, and none if it takes no replies. -/
structure Sent (c : Client) (bytes : Bytes) (c' : Client) : Prop where
  closed : ¬ c.Open → c' = c
  all : c'.Open → c'.output = c.output ++ bytes
  first : ∃ sent, sent <+: bytes ∧ c'.output = c.output ++ sent

theorem receive_sent (env : Env) (c : Client) (ss : List Bytes) :
    Sent c ss.flatten (receive env c ss) where
  closed := receive_closed
  all := (receive_output env c ss).2.1
  first := (receive_output env c ss).1

theorem sendLoop_eq (env : Env) (c : Client) {backlog : Bytes} {j len fuel : ℕ}
    (hbacklog : s.replBacklog = some backlog) (hsize : backlog.length = s.replBacklogSize)
    (hj : j < s.replBacklogSize) (hlen : len ≤ s.replBacklogSize) (hfuel : len < fuel) :
    ∃ pieces, sendLoop env s fuel c j len = .ok (receive env c pieces) ∧
      pieces.flatten = (backlog.drop j).take (min (s.replBacklogSize - j) len) ++
        backlog.take (len - min (s.replBacklogSize - j) len) := by
  have hload : ∀ i n : ℕ, i + n ≤ s.replBacklogSize →
      loadBytes backlog (i : ℤ).toNat (n : ℤ).toNat = .ok ((backlog.drop i).take n) := by
    intro i n hin
    rw [Int.toNat_natCast, Int.toNat_natCast, loadBytes, if_pos (by omega)]
  -- the last piece starts anywhere and does not reach the end of the buffer
  have hlast : ∀ (fuel i n : ℕ) (c : Client), i + n ≤ s.replBacklogSize → n < fuel →
      ∃ pieces, sendLoop env s fuel c i n = .ok (receive env c pieces) ∧
        pieces.flatten = (backlog.drop i).take n := by
    intro fuel i n c hin hfuel
    obtain ⟨fuel, rfl⟩ : ∃ k, fuel = k + 1 := ⟨fuel - 1, by omega⟩
    unfold sendLoop
    by_cases hzero : (n : ℤ) = 0
    · have hn : n = 0 := by exact_mod_cast hzero
      rw [if_pos hzero]
      exact ⟨[], rfl, by rw [hn, take_zero]; rfl⟩
    · rw [if_neg hzero]
      have hthis : (if (s.replBacklogSize : ℤ) - i < n then (s.replBacklogSize : ℤ) - i else n) =
          (n : ℤ) := by
        split_ifs <;> omega
      obtain ⟨fuel, rfl⟩ : ∃ k, fuel = k + 1 := ⟨fuel - 1, by omega⟩
      rw [hbacklog]
      dsimp only
      rw [hthis, if_neg (by omega), hload i n hin, ok_bind, sub_self]
      exact ⟨[(backlog.drop i).take n], rfl, by simp⟩
  by_cases hwrap : s.replBacklogSize - j < len
  · rw [Nat.min_eq_left hwrap.le]
    obtain ⟨fuel, rfl⟩ : ∃ k, fuel = k + 1 := ⟨fuel - 1, by omega⟩
    obtain ⟨pieces, hrun, hpieces⟩ := hlast fuel 0 (len - (s.replBacklogSize - j))
      (addReplyProto env c ((backlog.drop j).take (s.replBacklogSize - j))) (by omega) (by omega)
    refine ⟨(backlog.drop j).take (s.replBacklogSize - j) :: pieces, ?_, ?_⟩
    · have hthis : (if (s.replBacklogSize : ℤ) - j < len then (s.replBacklogSize : ℤ) - j
          else len) = ((s.replBacklogSize - j : ℕ) : ℤ) := by
        rw [if_pos (by omega)]
        omega
      have hrest : (len : ℤ) - ((s.replBacklogSize - j : ℕ) : ℤ) =
          ((len - (s.replBacklogSize - j) : ℕ) : ℤ) := by omega
      unfold sendLoop
      rw [if_neg (by omega), hbacklog]
      dsimp only
      rw [hthis, if_neg (by omega), hload j _ (by omega), ok_bind, hrest]
      exact hrun
    · rw [List.flatten_cons, hpieces, List.drop_zero]
  · rw [Nat.min_eq_right (by omega), Nat.sub_self, take_zero, append_nil]
    exact hlast fuel j len c (by omega) hfuel

theorem addReplyReplicationBacklog_spec (hw : Window s stream) (env : Env) (c : Client) {skip : ℕ}
    (hskip : skip ≤ s.replBacklogHistlen) :
    ∃ c', addReplyReplicationBacklog env s c (s.replBacklogOff + skip) =
        .ok (c', ((s.replBacklogHistlen - skip : ℕ) : ℤ)) ∧
      Sent c ((stream.rtake s.replBacklogHistlen).drop skip) c' := by
  obtain ⟨backlog, hbacklog, hsize, hholds⟩ := hw.holds
  have hidx := hw.idx_lt
  have hhist := hw.histlen_le
  unfold addReplyReplicationBacklog
  by_cases hzero : s.replBacklogHistlen = 0
  · have hskip0 : skip = 0 := by omega
    rw [if_pos hzero, hzero, hskip0, List.rtake_zero, List.drop_nil]
    exact ⟨c, rfl, receive_sent env c []⟩
  · rw [if_neg hzero]
    dsimp only
    rw [show s.replBacklogOff + (skip : ℤ) - s.replBacklogOff = (skip : ℤ) by omega,
      show (s.replBacklogIdx : ℤ) + ((s.replBacklogSize : ℤ) - s.replBacklogHistlen) =
        ((s.replBacklogIdx + (s.replBacklogSize - s.replBacklogHistlen) : ℕ) : ℤ) by omega,
      show (s.replBacklogHistlen : ℤ) - (skip : ℤ) =
        ((s.replBacklogHistlen - skip : ℕ) : ℤ) by omega]
    generalize hd : s.replBacklogSize - s.replBacklogHistlen + skip = d
    have hmod : (((s.replBacklogIdx + (s.replBacklogSize - s.replBacklogHistlen) : ℕ) : ℤ).tmod
        s.replBacklogSize + (skip : ℤ)).tmod s.replBacklogSize =
        (((s.replBacklogIdx + d) % s.replBacklogSize : ℕ) : ℤ) := by
      rw [← Int.ofNat_tmod, ← Nat.cast_add, ← Int.ofNat_tmod, Nat.mod_add_mod, Nat.add_assoc, hd]
    rw [hmod, Int.toNat_natCast]
    obtain ⟨pieces, hrun, hpieces⟩ := sendLoop_eq env c hbacklog hsize
      (Nat.mod_lt (s.replBacklogIdx + d) hw.size_pos)
      (show s.replBacklogHistlen - skip ≤ s.replBacklogSize by omega)
      (Nat.lt_add_one (s.replBacklogHistlen - skip))
    rw [hrun]
    refine ⟨_, rfl, ?_⟩
    -- the pieces are what the window holds from there on
    have hbytes : pieces.flatten = (stream.rtake s.replBacklogHistlen).drop skip := by
      have hrest : s.replBacklogHistlen - skip = backlog.length - d := by omega
      rw [← hholds, drop_rtake, length_rotate, hsize, hd, hpieces]
      by_cases hend : d < backlog.length
      · have hread := read_rotate (hsize ▸ hidx) hend
        dsimp only at hread
        rw [hread, hsize, hrest, hsize]
      · have hnone : backlog.length - d = 0 := by omega
        rw [hrest, hnone, Nat.min_zero, take_zero, List.nil_append, Nat.zero_sub,
          take_zero, List.drop_eq_nil_of_le (by rw [length_rotate]; omega)]
    rw [← hbytes]
    exact receive_sent env c pieces

theorem decimal_ne_zero (v : ℤ) : ∀ b ∈ decimal v, b ≠ 0 := by
  intro b hb hzero
  rw [hzero] at hb
  unfold decimal at hb
  split_ifs at hb
  · rcases List.mem_cons.mp hb with hminus | hdigit
    · exact absurd hminus (by decide)
    · exact absurd (Request.decimalNat_digits _ 0 hdigit).1 (by decide)
  · exact absurd (Request.decimalNat_digits _ 0 hb).1 (by decide)

theorem cString_decimal (v : ℤ) (rest : Bytes) : cString (decimal v ++ 0 :: rest) = decimal v := by
  unfold cString
  rw [List.takeWhile_append_of_pos (by
    intro b hb
    exact decide_eq_true (decimal_ne_zero v b hb))]
  rw [List.takeWhile_cons_of_neg (by decide), append_nil]

theorem selectCommand_eq (dictid : Int32) : selectCommand dictid.toInt =
    .ok (Request.encodeCommand [text "SELECT", decimal dictid.toInt]) := by
  have hlo := dictid.le_toInt
  have hhi := dictid.toInt_lt
  have hlen := (decimal_length (v := dictid.toInt) (by omega) (by omega)).2
  have htext : ∀ size, 21 ≤ size → selectText size dictid.toInt =
      .ok (Request.encodeCommand [text "SELECT", decimal dictid.toInt]) := by
    intro size hsize
    obtain ⟨rest, hprint⟩ := ll2string_spec (v := dictid.toInt) (by omega) (by omega)
      (List.replicate size 0) (by rw [List.length_replicate]; omega)
    have hlead : text "*2\r\n$6\r\nSELECT\r\n$" =
        Request.encodeLine 42 2 ++ (Request.encodeLine 36 6 ++ text "SELECT" ++ [13, 10] ++ [36]) := by
      decide +kernel
    unfold selectText
    rw [hprint, ok_bind]
    dsimp only
    rw [cString_decimal, hlead]
    have hend : text "\r\n" = [13, 10] := by decide
    have hselect : (text "SELECT").length = 6 := by decide
    rw [hend]
    simp only [Request.encodeCommand, Request.encodeBulk, flatMap_cons, List.flatMap_nil,
      List.length_cons, length_nil, hselect, Nat.zero_add, Nat.reduceAdd, append_assoc,
      append_nil, Request.encodeLine, List.cons_append, List.nil_append, except_pure]
  unfold selectCommand
  split_ifs
  · exact htext 64 (by norm_num)
  · exact htext 21 le_rfl

def feedReplica (env : Env) (ss : List Bytes) (slave : Client) : Client :=
  if slave.replstate = .waitBgsaveStart then slave else receive env slave ss

theorem feedReplica_append (ss ts : List Bytes) (slave : Client) :
    feedReplica env ts (feedReplica env ss slave) = feedReplica env (ss ++ ts) slave := by
  unfold feedReplica
  split_ifs with hwait hthen
  · rfl
  · rw [(receive_output env slave ss).2.2] at hthen
    exact absurd hthen hwait
  · rw [receive_append]

theorem feedEach_eq {f : Client → Except Fault Client} {ss : List Bytes}
    (hf : ∀ slave, f slave = .ok (receive env slave ss)) (slaves : List Client) :
    feedEach f slaves = .ok (slaves.map (feedReplica env ss)) := by
  induction slaves with
  | nil => rfl
  | cons slave slaves ih =>
    have hone : (if slave.replstate = .waitBgsaveStart then (pure slave : Except Fault Client)
        else f slave) = .ok (feedReplica env ss slave) := by
      unfold feedReplica
      split_ifs
      · rfl
      · exact hf slave
    unfold feedEach at ih ⊢
    rw [List.mapM_cons, hone, ok_bind, ih]
    rfl

theorem feedReplicationBacklogWithObject_spec (hw : Window s stream) (o : StringObject) :
    ∃ s', feedReplicationBacklogWithObject s o = .ok s' ∧ Fed s o.text s' := by
  cases o with
  | raw p => exact feedReplicationBacklog_spec hw p.val
  | int v =>
    obtain ⟨buf, hprint, hload⟩ :=
      ll2string_load (int64_range v).1 (int64_range v).2 (le_refl 21)
    unfold feedReplicationBacklogWithObject
    dsimp only
    rw [hprint, ok_bind]
    dsimp only
    rw [hload, ok_bind]
    exact feedReplicationBacklog_spec hw _

def argumentReplies (argv : List StringObject) : List Bytes :=
  argv.flatMap (fun o => [Request.encodeLine 36 o.text.length, o.text, [13, 10]])

theorem argumentReplies_flatten (argv : List StringObject) : (argumentReplies argv).flatten =
    (argv.map StringObject.text).flatMap Request.encodeBulk := by
  induction argv with
  | nil => rfl
  | cons o argv ih =>
    unfold argumentReplies at ih ⊢
    rw [flatMap_cons, flatten_append, ih, List.map_cons, flatMap_cons]
    simp only [List.flatten_cons, flatten_nil, append_nil, Request.encodeBulk,
      append_assoc]

theorem feedArguments_spec (argv : List StringObject) : ∀ {s : Server} {stream : Bytes},
    Window s stream →
    ∃ s', feedArguments s argv = .ok s' ∧ Fed s (argumentReplies argv).flatten s' := by
  induction argv with
  | nil =>
    intro s stream hw
    have hhist := hw.histlen_le
    refine ⟨s, rfl, rfl, rfl, rfl, rfl, ?_, ?_, ?_⟩
    · simp [argumentReplies]
    · simp [argumentReplies, hhist]
    · intro T hT
      simpa [argumentReplies] using hT
  | cons o argv ih =>
    intro s stream hw
    obtain ⟨s1, hrun1, h1⟩ := feedReplicationBacklog_spec hw
      (Request.encodeLine 36 o.text.length)
    obtain ⟨s2, hrun2, h2⟩ := feedReplicationBacklogWithObject_spec (h1.window _ hw) o
    obtain ⟨s3, hrun3, h3⟩ := feedReplicationBacklog_spec (h2.window _ (h1.window _ hw)) [13, 10]
    obtain ⟨s4, hrun4, h4⟩ := ih (h3.window _ (h2.window _ (h1.window _ hw)))
    refine ⟨s4, ?_, ?_⟩
    · unfold feedArguments
      rw [stringObjectLen_eq, printLine_eq (text_length_lt o) le_rfl, ok_bind, hrun1,
        ok_bind, hrun2, ok_bind, hrun3, ok_bind, hrun4]
    · have hall := ((h1.trans h2).trans h3).trans h4
      have hbytes : (argumentReplies (o :: argv)).flatten =
          Request.encodeLine 36 o.text.length ++ o.text ++ [13, 10] ++
            (argumentReplies argv).flatten := by
        unfold argumentReplies
        simp only [flatMap_cons, flatten_append, List.flatten_cons, flatten_nil,
          append_nil, append_assoc]
      rw [hbytes]
      exact hall

theorem addReplyArguments_eq (env : Env) (argv : List StringObject) (slave : Client) :
    addReplyArguments env slave argv = .ok (receive env slave (argumentReplies argv)) := by
  induction argv generalizing slave with
  | nil => rfl
  | cons o argv ih =>
    unfold addReplyArguments
    rw [addReplyBulk_eq, ok_bind, ih, ← receive_append]
    rfl

/-- The number of arguments is an `int`. -/
abbrev Arguments := { argv : List StringObject // argv.length < 2 ^ 31 }

/-- The bytes of a command in the stream: `SELECT` when the database is another one than that of the
last command, and then the arguments. -/
def commandBytes (s : Server) (dictid : Int32) (argv : Arguments) : Bytes :=
  if s.masterhost then []
  else
    (if s.slaveseldb ≠ dictid.toInt then
      Request.encodeCommand [text "SELECT", decimal dictid.toInt] else []) ++
      Request.encodeCommand (argv.val.map StringObject.text)

structure Propagated (env : Env) (s : Server) (ss : List Bytes) (s' : Server) : Prop where
  size : s'.replBacklogSize = s.replBacklogSize
  offset : s'.masterReplOffset = s.masterReplOffset + ss.flatten.length
  histlen : s'.replBacklogHistlen =
    min (s.replBacklogHistlen + ss.flatten.length) s.replBacklogSize
  window : ∀ stream, Window s stream → Window s' (stream ++ ss.flatten)
  slaves : s'.slaves = s.slaves.map (feedReplica env ss)

theorem Window.congr {masterhost : Bool} {slaveseldb : ℤ} {slaves : List Client}
    (hw : Window s stream) : Window { s with
      masterhost := masterhost
      slaveseldb := slaveseldb
      slaves := slaves } stream :=
  ⟨hw.size_pos, hw.idx_lt, hw.histlen_le, hw.histlen_le_stream, hw.off_eq, hw.holds⟩

theorem Fed.propagated {ss : List Bytes} {dictid : ℤ} (h : Fed s ss.flatten s') :
    Propagated env s ss
      { s' with slaveseldb := dictid, slaves := s'.slaves.map (feedReplica env ss) } where
  size := h.size
  offset := h.offset
  histlen := h.histlen
  window := fun stream hw => (h.window stream hw).congr
  slaves := by rw [h.slaves]

theorem Propagated.trans {ss ts : List Bytes} (hs : Propagated env s ss s')
    (ht : Propagated env s' ts s'') : Propagated env s (ss ++ ts) s'' where
  size := ht.size.trans hs.size
  offset := by
    rw [ht.offset, hs.offset, flatten_append, length_append, Nat.cast_add]
    ring
  histlen := by
    rw [ht.histlen, hs.histlen, hs.size, flatten_append, length_append]
    omega
  window := by
    intro stream hw
    rw [flatten_append, ← append_assoc]
    exact ht.window _ (hs.window stream hw)
  slaves := by
    rw [ht.slaves, hs.slaves, List.map_map]
    apply List.map_congr_left
    intro slave _
    exact feedReplica_append ss ts slave

theorem Propagated.nothing (hw : Window s stream) (env : Env) (dictid : ℤ) :
    Propagated env s [] { s with slaveseldb := dictid } := by
  have hhist := hw.histlen_le
  refine ⟨rfl, ?_, ?_, ?_, ?_⟩
  · simp
  · simp [hhist]
  · intro T hT
    rw [flatten_nil, append_nil]
    exact @Window.congr s _ s.masterhost _ s.slaves hT
  · have hid : ∀ slave : Client, feedReplica env [] slave = slave := by
      intro slave
      unfold feedReplica
      split_ifs <;> rfl
    rw [List.map_congr_left (fun slave _ => hid slave), List.map_id']

theorem feedSelect_spec (hw : Window s stream) (env : Env) (dictid : Int32) :
    ∃ s', feedSelect env s dictid.toInt = .ok s' ∧
      Propagated env s (if s.slaveseldb ≠ dictid.toInt then
        [Request.encodeCommand [text "SELECT", decimal dictid.toInt]] else [])
        { s' with slaveseldb := dictid.toInt } := by
  obtain ⟨backlog, hbacklog, -⟩ := hw.holds
  unfold feedSelect
  by_cases hsel : s.slaveseldb ≠ dictid.toInt
  · obtain ⟨s', hrun, hfed⟩ := feedReplicationBacklog_spec hw
      (Request.encodeCommand [text "SELECT", decimal dictid.toInt])
    have hsome : s.replBacklog.isSome = true := by rw [hbacklog, Option.isSome_some]
    have hsend : feedEach (fun slave => pure (addReplyProto env slave
        (Request.encodeCommand [text "SELECT", decimal dictid.toInt]))) s'.slaves =
        .ok (s'.slaves.map (feedReplica env
          [Request.encodeCommand [text "SELECT", decimal dictid.toInt]])) :=
      @feedEach_eq env _ [_] (fun slave => rfl) _
    rw [if_pos hsel, if_pos hsel, selectCommand_eq, ok_bind, if_pos hsome, hrun,
      ok_bind, hsend]
    have hbytes : [Request.encodeCommand [text "SELECT", decimal dictid.toInt]].flatten =
        Request.encodeCommand [text "SELECT", decimal dictid.toInt] := List.flatten_singleton
    rw [← hbytes] at hfed
    exact ⟨_, rfl, hfed.propagated⟩
  · rw [if_neg hsel, if_neg hsel]
    exact ⟨s, rfl, Propagated.nothing hw env _⟩

theorem replicationFeedSlaves_spec (hw : Window s stream) (env : Env) (dictid : Int32)
    (argv : Arguments) :
    ∃ s' ss, replicationFeedSlaves env s dictid.toInt argv.val = .ok s' ∧
      ss.flatten = commandBytes s dictid argv ∧ Propagated env s ss s' := by
  obtain ⟨backlog, hbacklog, -⟩ := hw.holds
  unfold replicationFeedSlaves commandBytes
  by_cases hproxy : s.masterhost = true
  · rw [if_pos hproxy, if_pos hproxy]
    exact ⟨s, [], rfl, rfl, Propagated.nothing hw env s.slaveseldb⟩
  · have hnone : s.replBacklog ≠ none := by
      rw [hbacklog]
      exact Option.some_ne_none _
    rw [if_neg hproxy, if_neg hproxy, if_neg (fun h => hnone h.1), if_neg (fun h => hnone h.2)]
    obtain ⟨s1, hselect, h1⟩ := feedSelect_spec hw env dictid
    rw [hselect, ok_bind]
    dsimp only
    have hw2 := h1.window _ hw
    obtain ⟨s3, hline, h3⟩ := feedReplicationBacklog_spec hw2
      (Request.encodeLine 42 argv.val.length)
    obtain ⟨s4, hargs, h4⟩ := feedArguments_spec argv.val (h3.window _ hw2)
    obtain ⟨backlog2, hbacklog2, -⟩ := hw2.holds
    have hargc : argv.val.length < 2 ^ 63 := lt_trans argv.property (by norm_num)
    have hsome : s1.replBacklog.isSome = true := by
      dsimp only at hbacklog2
      rw [hbacklog2, Option.isSome_some]
    have heach : ∀ slave, (do
        let slave ← addReplyArrayLen env slave argv.val.length
        addReplyArguments env slave argv.val) =
        .ok (receive env slave
          (Request.encodeLine 42 argv.val.length :: argumentReplies argv.val)) := by
      intro slave
      rw [addReplyArrayLen_eq env slave hargc, ok_bind, addReplyArguments_eq]
      rfl
    rw [if_pos hsome, printLine_eq hargc le_rfl, ok_bind, hline, ok_bind, hargs,
      ok_bind, feedEach_eq heach]
    refine ⟨_, _, rfl, ?_, h1.trans (h3.trans h4).propagated⟩
    have hcommand : Request.encodeCommand (argv.val.map StringObject.text) =
        Request.encodeLine 42 argv.val.length ++
          (argv.val.map StringObject.text).flatMap Request.encodeBulk := by
      rw [Request.encodeCommand, List.length_map]
    rw [flatten_append, List.flatten_cons, argumentReplies_flatten, hcommand]
    split_ifs
    · rw [List.flatten_singleton]
    · rfl

/-- What happens to the server: calls of the three functions, and between them anything that
changes its role, its replicas and the database of the last command. -/
inductive Event where
  | feed (p : Bytes)
  | command (env : Env) (dictid : Int32) (argv : Arguments)
  | resize (newsize : ℤ)
  | other (masterhost : Bool) (slaveseldb : ℤ) (slaves : List Client)

def step (s : Server) : Event → Except Fault Server
  | .feed p => feedReplicationBacklog s p
  | .command env dictid argv => replicationFeedSlaves env s dictid.toInt argv.val
  | .resize newsize => return resizeReplicationBacklog s newsize
  | .other masterhost slaveseldb slaves => return { s with
      masterhost := masterhost
      slaveseldb := slaveseldb
      slaves := slaves }

def added (s : Server) : Event → Bytes
  | .feed p => p
  | .command _ dictid argv => commandBytes s dictid argv
  | .resize _ => []
  | .other _ _ _ => []

def record : Server → Bytes → List Event → Except Fault (Server × Bytes)
  | s, stream, [] => return (s, stream)
  | s, stream, e :: events => do
    let s' ← step s e
    record s' (stream ++ added s e) events

theorem step_window (hw : Window s stream) (e : Event) :
    ∃ s', step s e = .ok s' ∧ Window s' (stream ++ added s e) ∧
      s'.masterReplOffset = s.masterReplOffset + (added s e).length := by
  cases e with
  | feed p =>
    obtain ⟨s', hrun, hfed⟩ := feedReplicationBacklog_spec hw p
    exact ⟨s', hrun, hfed.window _ hw, hfed.offset⟩
  | command env dictid argv =>
    obtain ⟨s', ss, hrun, hbytes, hprop⟩ := replicationFeedSlaves_spec hw env dictid argv
    have hadded : added s (.command env dictid argv) = ss.flatten := hbytes.symm
    rw [hadded]
    exact ⟨s', hrun, hprop.window _ hw, hprop.offset⟩
  | resize newsize =>
    refine ⟨_, rfl, ?_, ?_⟩
    · rw [added, append_nil]
      exact resizeReplicationBacklog_window hw newsize
    · have hsame : (resizeReplicationBacklog s newsize).masterReplOffset = s.masterReplOffset := by
        unfold resizeReplicationBacklog
        dsimp only
        split_ifs <;> first | rfl | (split <;> rfl)
      rw [hsame, added, length_nil, Nat.cast_zero, add_zero]
  | other masterhost slaveseldb slaves =>
    refine ⟨_, rfl, ?_, ?_⟩
    · rw [added, append_nil]
      exact hw.congr
    · rw [added, length_nil, Nat.cast_zero, add_zero]

theorem record_window (events : List Event) : ∀ {s : Server} {stream : Bytes}, Window s stream →
    ∃ s' stream', record s stream events = .ok (s', stream') ∧ Window s' stream' ∧
      s'.masterReplOffset - stream'.length = s.masterReplOffset - stream.length := by
  induction events with
  | nil =>
    intro s stream hw
    exact ⟨s, stream, rfl, hw, rfl⟩
  | cons e events ih =>
    intro s stream hw
    obtain ⟨s', hstep, hw', hoffset⟩ := step_window hw e
    obtain ⟨s'', stream'', hrun, hw'', hoffset'⟩ := ih hw'
    refine ⟨s'', stream'', ?_, hw'', ?_⟩
    · rw [record, hstep, ok_bind, hrun]
    · rw [hoffset', hoffset, length_append, Nat.cast_add]
      ring

/-- A replica that does not wait for `BGSAVE` is sent the bytes of a command. -/
def Delivered (bytes : Bytes) (slave slave' : Client) : Prop :=
  if slave.replstate = .waitBgsaveStart then slave' = slave else Sent slave bytes slave'

/-- After every run from a new backlog on, the backlog is a window on the replication stream: it
holds its last `histlen` bytes, which grow with each call up to the size. -/
theorem backlog_window (s0 : Server) (hnone : s0.replBacklog = none)
    (hsize : 0 < s0.replBacklogSize) (events : List Event) :
    ∃ s stream, (do
        let s ← createReplicationBacklog s0
        record s [] events) = .ok (s, stream) ∧
      Window s stream ∧
      s.masterReplOffset = s0.masterReplOffset + stream.length ∧
      (∀ p, ∃ s', feedReplicationBacklog s p = .ok s' ∧
        s'.replBacklogHistlen = min (s.replBacklogHistlen + p.length) s.replBacklogSize) ∧
      (∀ (env : Env) (c : Client) (offset : ℤ), s.replBacklogOff ≤ offset →
        offset ≤ s.replBacklogOff + s.replBacklogHistlen →
        ∃ c', addReplyReplicationBacklog env s c offset =
            .ok (c', ((stream.drop (offset - s0.masterReplOffset - 1).toNat).length : ℤ)) ∧
          Sent c (stream.drop (offset - s0.masterReplOffset - 1).toNat) c') ∧
      ∀ (env : Env) (dictid : Int32) (argv : Arguments), ∃ s',
        replicationFeedSlaves env s dictid.toInt argv.val = .ok s' ∧
        Window s' (stream ++ commandBytes s dictid argv) ∧
        List.Forall₂ (Delivered (commandBytes s dictid argv)) s.slaves s'.slaves := by
  have hcreate : createReplicationBacklog s0 = .ok (emptyBacklog s0) := by
    rw [createReplicationBacklog, hnone]
    rfl
  obtain ⟨s, stream, hrun, hw, hoffset⟩ :=
    record_window events (s := emptyBacklog s0) (emptyBacklog_window hsize [])
  have hoff : s.masterReplOffset = s0.masterReplOffset + stream.length := by
    simp only [emptyBacklog, length_nil, Nat.cast_zero, sub_zero] at hoffset
    omega
  refine ⟨s, stream, ?_, hw, hoff, ?_, ?_, ?_⟩
  · rw [hcreate, ok_bind, hrun]
  · intro p
    obtain ⟨s', hfeed, hfed⟩ := feedReplicationBacklog_spec hw p
    exact ⟨s', hfeed, hfed.histlen⟩
  · intro env c offset hlo hhi
    obtain ⟨skip, hskip⟩ : ∃ skip : ℕ, offset = s.replBacklogOff + skip :=
      ⟨(offset - s.replBacklogOff).toNat, by omega⟩
    have hle : skip ≤ s.replBacklogHistlen := by omega
    have hw1 := hw.histlen_le_stream
    have hw2 := hw.off_eq
    -- the first byte of the stream has the offset after that of the creation
    have hpos : (offset - s0.masterReplOffset - 1).toNat =
        stream.length - s.replBacklogHistlen + skip := by omega
    obtain ⟨c', hsend, hsent⟩ := addReplyReplicationBacklog_spec hw env c hle
    rw [drop_rtake] at hsent
    rw [hpos, hskip, hsend, length_drop]
    refine ⟨c', ?_, hsent⟩
    rw [show stream.length - (stream.length - s.replBacklogHistlen + skip) =
      s.replBacklogHistlen - skip by omega]
  · intro env dictid argv
    obtain ⟨s', ss, hcommand, hbytes, hprop⟩ := replicationFeedSlaves_spec hw env dictid argv
    rw [← hbytes]
    refine ⟨s', hcommand, hprop.window _ hw, ?_⟩
    rw [hprop.slaves, List.forall₂_map_right_iff, List.forall₂_same]
    intro slave _
    unfold Delivered feedReplica
    split_ifs
    · rfl
    · exact receive_sent env slave ss

/-- A master with no backlog and one replica, which is being closed. -/
def closingMaster : Server where
  masterhost := false
  slaveseldb := -1
  replBacklog := none
  replBacklogSize := 4
  replBacklogHistlen := 0
  replBacklogIdx := 0
  replBacklogOff := 0
  masterReplOffset := 10
  slaves := [{
    lua := false, module := false, closeAsap := true, closeAfterReply := false
    replyOff := false, replySkip := false, master := false, masterForceReply := false
    slave := true, monitor := false, pubsub := false, conn := true, replstate := .online
    buf := [], reply := [], replyBytes := 0, obufSoftLimitReachedTime := 0 }]

theorem backlog_window_wrapped : ∃ s stream, (do
      let s ← createReplicationBacklog closingMaster
      record s [] [.feed [1, 2, 3], .resize 20000, .feed [4, 5, 6, 7]]) = .ok (s, stream) ∧
    Window s stream ∧ s.masterReplOffset = 10 + stream.length := by
  obtain ⟨s, stream, hrun, hw, hoffset, -⟩ := backlog_window closingMaster rfl (by decide)
    [.feed [1, 2, 3], .resize 20000, .feed [4, 5, 6, 7]]
  exact ⟨s, stream, hrun, hw, hoffset⟩

/-- Not every replica gets what the backlog gets: nothing is written to one that is being closed. -/
theorem closing_replica_gets_nothing : ¬ ∀ (env : Env) (s s' : Server) (stream : Bytes)
    (dictid : Int32) (argv : Arguments), Window s stream →
    replicationFeedSlaves env s dictid.toInt argv.val = .ok s' →
    ∀ (slave slave' : Client) (i : ℕ), s.slaves[i]? = some slave → s'.slaves[i]? = some slave' →
      slave.replstate ≠ .waitBgsaveStart →
      slave'.output = slave.output ++ commandBytes s dictid argv := by
  intro hall
  let env : Env := ⟨fun _ => ⟨0, 0, 0⟩, 0, fun _ => 0⟩
  have hw : Window (emptyBacklog closingMaster) [] := emptyBacklog_window (by decide) []
  obtain ⟨s', ss, hrun, -, hprop⟩ := replicationFeedSlaves_spec hw env 0 ⟨[], by decide⟩
  obtain ⟨slave, hslave⟩ : ∃ slave, (emptyBacklog closingMaster).slaves = [slave] := ⟨_, rfl⟩
  have hslave' : s'.slaves = [receive env slave ss] := by
    rw [hprop.slaves, hslave, List.map_singleton, feedReplica, if_neg]
    have hstate : slave.replstate = .online := by
      rw [← singleton_inj.mp hslave]
    rw [hstate]
    decide
  have hclosed : receive env slave ss = slave := by
    apply receive_closed
    rw [← singleton_inj.mp hslave]
    decide
  have hsame := hall env _ s' [] 0 ⟨[], by decide⟩ hw hrun slave slave 0 (by rw [hslave]; rfl)
    (by rw [hslave', hclosed]; rfl)
    (by rw [← singleton_inj.mp hslave]; decide)
  have hnil := List.append_cancel_left ((append_nil _).trans hsame)
  exact absurd (congrArg List.length hnil) (by decide)

end RedisCore.Replication
