import RedisCore.AofRewriteModel
import RedisCore.AofRuns

namespace RedisCore.Aof
open List (append_assoc append_nil nil_append)

open Request (encodeCommand)

variable {V : Type} {srv : Server V} {rdbLoadRio : Bytes → Option (Dataset V × Bytes)} {mstime : ℤ}

def blocksBytes (blocks : List Aofrwblock) : Bytes := blocks.flatMap (fun b => b.buf)

@[simp] theorem blocksBytes_nil : blocksBytes [] = [] := rfl

@[simp] theorem blocksBytes_cons (b : Aofrwblock) (blocks : List Aofrwblock) :
    blocksBytes (b :: blocks) = b.buf ++ blocksBytes blocks := List.flatMap_cons

@[simp] theorem blocksBytes_append (xs ys : List Aofrwblock) :
    blocksBytes (xs ++ ys) = blocksBytes xs ++ blocksBytes ys := List.flatMap_append

theorem fillLast_bytes (s : Bytes) (blocks : List Aofrwblock) :
    blocksBytes (fillLast s blocks).1 ++ (fillLast s blocks).2 = blocksBytes blocks ++ s := by
  induction blocks with
  | nil => rfl
  | cons b blocks ih =>
    cases blocks with
    | nil => simp [fillLast, List.take_append_drop]
    | cons b' blocks =>
      have hne : b' :: blocks = [] → False := fun h => by cases h
      rw [fillLast.eq_3 _ _ _ hne, blocksBytes_cons, append_assoc, ih, blocksBytes_cons b,
        append_assoc]

theorem fillLast_new (s : Bytes) (blocks : List Aofrwblock) :
    (fillLast s (blocks ++ [newBlock])).2 = s.drop aofRwBufBlockSize := by
  induction blocks with
  | nil => rfl
  | cons b blocks ih =>
    cases blocks with
    | nil => rfl
    | cons b' blocks => exact ih

theorem fillLast_short (s : Bytes) (blocks : List Aofrwblock) : (fillLast s blocks).2.length ≤ s.length := by
  induction blocks with
  | nil => exact le_refl _
  | cons b blocks ih =>
    cases blocks with
    | nil => simp [fillLast]
    | cons b' blocks => exact ih

theorem appendLoop_bytes (fuel : ℕ) : ∀ (s : Bytes) (blocks : List Aofrwblock), s.length < fuel →
    blocksBytes (appendLoop fuel s (blocks ++ [newBlock])) = blocksBytes blocks ++ s := by
  induction fuel with
  | zero => exact fun s blocks h => absurd h (Nat.not_lt_zero _)
  | succ fuel ih =>
    intro s blocks hfuel
    rw [appendLoop]
    dsimp only
    have hfill := fillLast_bytes s (blocks ++ [newBlock])
    have hnew : blocksBytes (blocks ++ [newBlock]) = blocksBytes blocks := by
      rw [blocksBytes_append, blocksBytes_cons, blocksBytes_nil, append_nil]
      exact append_nil _
    by_cases hs : s = []
    · rw [if_pos hs, hnew, hs, append_nil]
    rw [if_neg hs]
    by_cases hrest : (fillLast s (blocks ++ [newBlock])).2 = []
    · rw [if_pos hrest]
      rw [hrest, append_nil, hnew] at hfill
      exact hfill
    · have hpos : 0 < s.length := List.length_pos_iff.mpr hs
      have hlen : (fillLast s (blocks ++ [newBlock])).2.length < fuel := by
        rw [fillLast_new, List.length_drop]
        unfold aofRwBufBlockSize
        omega
      rw [if_neg hrest, ih _ _ hlen, hfill, hnew]

theorem aofRewriteBufferAppend_bytes (s : Bytes) (blocks : List Aofrwblock) :
    blocksBytes (aofRewriteBufferAppend s blocks) = blocksBytes blocks ++ s := by
  unfold aofRewriteBufferAppend
  rw [appendLoop]
  dsimp only
  have hfill := fillLast_bytes s blocks
  have hshort := fillLast_short s blocks
  by_cases hs : s = []
  · rw [if_pos hs, hs, append_nil]
  rw [if_neg hs]
  by_cases hrest : (fillLast s blocks).2 = []
  · rw [if_pos hrest]
    rw [hrest, append_nil] at hfill
    exact hfill
  · rw [if_neg hrest, appendLoop_bytes _ _ _ (by omega), hfill]

theorem aofChildWriteDiffData_bytes (stop : Bool) (sizes : List ℤ) (blocks : List Aofrwblock) :
    (aofChildWriteDiffData stop sizes blocks).2 ++
      blocksBytes (aofChildWriteDiffData stop sizes blocks).1 = blocksBytes blocks := by
  fun_induction aofChildWriteDiffData stop sizes blocks with
  | case1 => rfl
  | case2 => rfl
  | case3 sizes b blocks hstop hnil ih => rw [ih, blocksBytes_cons, hnil, nil_append]
  | case4 => rfl
  | case5 => rfl
  | case6 b blocks hstop hnil nwritten sizes hpos n b' rest r ih =>
    have hrest : blocksBytes rest = b'.buf ++ blocksBytes blocks := by
      by_cases hb : b'.buf = []
      · rw [show rest = blocks from if_pos hb, hb, nil_append]
      · rw [show rest = b' :: blocks from if_neg hb, blocksBytes_cons]
    have hsplit : b.buf.take n ++ b'.buf = b.buf := List.take_append_drop n b.buf
    rw [append_assoc, ih, hrest, ← append_assoc, hsplit, blocksBytes_cons]

theorem aofChildWriteDiffData_stop (sizes : List ℤ) (blocks : List Aofrwblock) :
    (aofChildWriteDiffData true sizes blocks).2 = [] := by
  cases blocks with
  | nil => rw [aofChildWriteDiffData]
  | cons b blocks =>
    rw [aofChildWriteDiffData.eq_def]
    rfl

theorem aofRewriteBufferWrite_bytes (blocks : List Aofrwblock) : ∀ {results : List ℤ} {w : Bytes},
    aofRewriteBufferWrite results blocks = some w → w = blocksBytes blocks := by
  induction blocks with
  | nil =>
    intro results w h
    rw [aofRewriteBufferWrite] at h
    exact (Option.some.inj h).symm
  | cons b blocks ih =>
    intro results w h
    rw [aofRewriteBufferWrite.eq_def] at h
    dsimp only at h
    by_cases hb : b.buf = []
    · rw [if_pos hb] at h
      rw [ih h, blocksBytes_cons, hb, nil_append]
    rw [if_neg hb] at h
    cases results with
    | nil => cases h
    | cons nwritten results =>
      dsimp only at h
      by_cases hn : nwritten = b.buf.length
      · rw [if_pos hn] at h
        obtain ⟨rest, hrest, rfl⟩ := Option.map_eq_some_iff.mp h
        rw [ih hrest, blocksBytes_cons]
      · rw [if_neg hn] at h
        cases h

def pending (srv : Server V) (mstime : ℤ) (l : Loader V) : ℕ × Dataset V :=
  l.commands.foldl (loadCall srv mstime) (l.db, l.data)

def Head (rdbLoadRio : Bytes → Option (Dataset V × Bytes)) (head : Bytes) (l : Loader V) : Prop :=
  (head = [] ∧ l = newLoader) ∨
    (head.take 5 = text "REDIS" ∧ ∃ data, l = preambleLoader data ∧
      ∀ rest, rdbLoadRio (head ++ rest) = some (data, rest))

/-- Loading the log gives these data; `multi` says that the server is within an EXEC, and then the
loader may still have the commands in its queue. -/
def Follows (srv : Server V) (rdbLoadRio : Bytes → Option (Dataset V × Bytes)) (mstime : ℤ) (log : Bytes)
    (data : Dataset V) (selected : Option ℕ) (multi : Bool) : Prop :=
  ∃ head l0 cmds l, Head rdbLoadRio head l0 ∧ log = head ++ encodeAll cmds ∧ (∀ c ∈ cmds, ArgvOk c) ∧
    loadAll srv mstime cmds l0 head.length = some l ∧ (pending srv mstime l).2 = data ∧
    Selects selected (pending srv mstime l).1 ∧ (l.multi = false → l.commands = []) ∧
    (multi = false → l.multi = false)

theorem follows_append {log : Bytes} {data data' : Dataset V} {selected selected' : Option ℕ}
    {multi multi' : Bool} (h : Follows srv rdbLoadRio mstime log data selected multi)
    {more : List (List Bytes)} (hok : ∀ c ∈ more, ArgvOk c)
    (hload : ∀ (l : Loader V) (pos : ℕ), (pending srv mstime l).2 = data →
      Selects selected (pending srv mstime l).1 → (l.multi = false → l.commands = []) →
      (multi = false → l.multi = false) →
      ∃ l', loadAll srv mstime more l pos = some l' ∧ (pending srv mstime l').2 = data' ∧
        Selects selected' (pending srv mstime l').1 ∧ (l'.multi = false → l'.commands = []) ∧
        (multi' = false → l'.multi = false)) :
    Follows srv rdbLoadRio mstime (log ++ encodeAll more) data' selected' multi' := by
  obtain ⟨head, l0, cmds, l, hhead, hlog, hcmds, hloaded, hdata, hselects, hqueue, hmulti⟩ := h
  obtain ⟨l', hload', hrest⟩ := hload l (head.length+(encodeAll cmds).length) hdata hselects hqueue hmulti
  refine ⟨head, l0, cmds ++ more, l', hhead, by rw [hlog, encodeAll_append, append_assoc], ?_, ?_,
    hrest⟩
  · intro c hc
    rcases List.mem_append.mp hc with hc | hc
    · exact hcmds c hc
    · exact hok c hc
  · rw [loadAll_append, hloaded, Option.bind_some, hload']

theorem loadAll_pending {cmds : List (List Bytes)} (hplain : ∀ c ∈ cmds, Plain srv c) (l : Loader V)
    (pos : ℕ) (hqueue : l.multi = false → l.commands = []) :
    ∃ l', loadAll srv mstime cmds l pos = some l' ∧
      pending srv mstime l' = replayAll srv mstime cmds (pending srv mstime l) ∧ l'.multi = l.multi ∧
      (l'.multi = false → l'.commands = []) := by
  cases hm : l.multi with
  | false =>
    obtain ⟨l', hload, hmulti, hcommands, hdata⟩ := @loadAll_plain V srv mstime cmds l pos hplain hm
    have hnil := hqueue hm
    refine ⟨l', hload, ?_, hmulti, fun _ => by rw [hcommands, hnil]⟩
    unfold pending
    rw [hcommands, hnil, List.foldl_nil, List.foldl_nil, hdata]
    rfl
  | true =>
    obtain ⟨l', hload, hmulti, hcommands, hdb, hdata, -⟩ := @loadAll_queued V srv mstime cmds l pos hplain hm
    refine ⟨l', hload, ?_, hmulti, fun h => ?_⟩
    · unfold pending
      rw [hcommands, hdb, hdata, List.foldl_append]
      rfl
    · rw [hmulti] at h
      cases h

theorem Follows.plain {log : Bytes} {data data' : Dataset V} {selected selected' : Option ℕ} {multi : Bool}
    (h : Follows srv rdbLoadRio mstime log data selected multi) {cmds : List (List Bytes)}
    (hplain : ∀ c ∈ cmds, Plain srv c)
    (hreplay : ∀ d, Selects selected d →
      ∃ d', replayAll srv mstime cmds (d, data) = (d', data') ∧ Selects selected' d') :
    Follows srv rdbLoadRio mstime (log ++ encodeAll cmds) data' selected' multi := by
  apply follows_append h (fun c hc => (hplain c hc).ok)
  intro l pos hdata hselects hqueue hmulti
  obtain ⟨l', hload, hpending, hm, hqueue'⟩ := @loadAll_pending V srv mstime cmds hplain l pos hqueue
  obtain ⟨d', hd', hselects'⟩ := hreplay _ hselects
  have heq : pending srv mstime l' = (d', data') := by
    rw [hpending, ← hd', ← hdata]
  exact ⟨l', hload, by rw [heq], by rw [heq]; exact hselects', hqueue', fun h => by rw [hm]; exact hmulti h⟩

theorem Follows.multi {log : Bytes} {data : Dataset V} {selected : Option ℕ}
    (h : Follows srv rdbLoadRio mstime log data selected false) :
    Follows srv rdbLoadRio mstime (log ++ encodeAll [[text "MULTI"]]) data selected true := by
  apply follows_append h (fun c hc => by rw [List.mem_singleton.mp hc]; exact multi_ok)
  intro l pos hdata hselects hqueue hmulti
  have hm := hmulti rfl
  have hnil := hqueue hm
  rw [loadAll, loadStep_multi hm, Option.bind_some, loadAll]
  exact ⟨_, rfl, hdata, hselects, fun _ => hnil, fun h => absurd h (by decide)⟩

theorem Follows.exec {log : Bytes} {data : Dataset V} {selected : Option ℕ} {multi : Bool}
    (h : Follows srv rdbLoadRio mstime log data selected multi) :
    Follows srv rdbLoadRio mstime (log ++ encodeAll [[text "EXEC"]]) data selected false := by
  apply follows_append h (fun c hc => by rw [List.mem_singleton.mp hc]; exact exec_ok)
  intro l pos hdata hselects hqueue _
  cases hm : l.multi with
  | true =>
    rw [loadAll, loadStep_exec hm, Option.bind_some, loadAll]
    exact ⟨_, rfl, hdata, hselects, fun _ => rfl, fun _ => rfl⟩
  | false =>
    have hstep : loadStep srv mstime l [text "EXEC"] (pos+(encodeCommand [text "EXEC"]).length) =
        some { l with validUpTo := pos+(encodeCommand [text "EXEC"]).length } := by
      unfold loadStep loadCommand
      rw [lookup_exec]
      simp [hm]
    rw [loadAll, hstep, Option.bind_some, loadAll]
    exact ⟨_, rfl, hdata, hselects, fun _ => hqueue hm, fun _ => hm⟩

end RedisCore.Aof
