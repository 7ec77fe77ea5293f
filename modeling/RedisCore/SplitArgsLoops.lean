import RedisCore.QuotedText

namespace RedisCore.Request
open List (mem_append mem_cons mem_cons_of_mem)

inductive SplitFault where
  | outOfBounds
  /-- No allocator has the size that is asked for, and the server aborts. -/
  | outOfMemory
deriving DecidableEq, Repr

def load (buffer : Bytes) (p : ℕ) : Except SplitFault UInt8 :=
  match buffer[p]? with
  | none => .error .outOfBounds
  | some b => .ok b

inductive SplitLoop where
  | blanks
  | token (quotes : Quotes) (current : Bytes)
deriving DecidableEq, Repr

structure Splitter where
  p : ℕ
  vector : List Bytes
  loop : SplitLoop
deriving DecidableEq, Repr

inductive SplitOutcome where
  | running (s : Splitter)
  | returns (r : Option (List Bytes))
deriving DecidableEq, Repr

def loadHexEscape (buffer : Bytes) (p : ℕ) : Except SplitFault (Option UInt8) := do
  let slash ← load buffer p
  if slash ≠ 92 then .ok none
  else
    let x ← load buffer (p+1)
    if x ≠ 120 then .ok none
    else
      let high ← load buffer (p+2)
      if isHexDigit high = false then .ok none
      else
        let low ← load buffer (p+3)
        if isHexDigit low = false then .ok none
        else .ok (some (hexDigitToInt high * 16 + hexDigitToInt low))

/-- The 2^31st token makes the `int` in `((*argc)+1)*sizeof(char*)` negative. -/
def addToken (p : ℕ) (vector : List Bytes) (current : Bytes) : Except SplitFault SplitOutcome :=
  if vector.length+1 < 2^31 then .ok (.running { p := p, vector := vector ++ [current], loop := .blanks })
  else .error .outOfMemory

def closeToken (buffer : Bytes) (p : ℕ) (vector : List Bytes) (current : Bytes) :
    Except SplitFault SplitOutcome := do
  let next ← load buffer (p+1)
  if next ≠ 0 ∧ isSpace next = false then .ok (.returns none)
  else addToken (p+1) vector current

def doubleStep (buffer : Bytes) (p : ℕ) (vector : List Bytes) (current : Bytes) :
    Except SplitFault SplitOutcome := do
  let escape ← loadHexEscape buffer p
  match escape with
  | some byte =>
    .ok (.running { p := p + 4, vector := vector, loop := .token .double (current ++ [byte]) })
  | none =>
    let b ← load buffer p
    let next ← if b = 92 then load buffer (p+1) else .ok 0
    if b = 92 ∧ next ≠ 0 then
      .ok (.running { p := p + 2, vector := vector, loop := .token .double (current ++ [unescape next]) })
    else if b = 34 then closeToken buffer p vector current
    else if b = 0 then .ok (.returns none)
    else .ok (.running { p := p + 1, vector := vector, loop := .token .double (current ++ [b]) })

def singleStep (buffer : Bytes) (p : ℕ) (vector : List Bytes) (current : Bytes) :
    Except SplitFault SplitOutcome := do
  let b ← load buffer p
  let next ← if b = 92 then load buffer (p+1) else .ok 0
  if b = 92 ∧ next = 39 then
    .ok (.running { p := p + 2, vector := vector, loop := .token .single (current ++ [39]) })
  else if b = 39 then closeToken buffer p vector current
  else if b = 0 then .ok (.returns none)
  else .ok (.running { p := p + 1, vector := vector, loop := .token .single (current ++ [b]) })

def plainStep (buffer : Bytes) (p : ℕ) (vector : List Bytes) (current : Bytes) :
    Except SplitFault SplitOutcome := do
  let b ← load buffer p
  if b = 32 ∨ b = 10 ∨ b = 13 ∨ b = 9 then addToken (p+1) vector current
  else if b = 0 then addToken p vector current
  else if b = 34 then .ok (.running { p := p + 1, vector := vector, loop := .token .double current })
  else if b = 39 then .ok (.running { p := p + 1, vector := vector, loop := .token .single current })
  else .ok (.running { p := p + 1, vector := vector, loop := .token .no (current ++ [b]) })

def blanksStep (buffer : Bytes) (p : ℕ) (vector : List Bytes) : Except SplitFault SplitOutcome := do
  let b ← load buffer p
  if b ≠ 0 ∧ isSpace b = true then .ok (.running { p := p + 1, vector := vector, loop := .blanks })
  else if b ≠ 0 then .ok (.running { p := p, vector := vector, loop := .token .no [] })
  else .ok (.returns (some vector))

def splitStep (buffer : Bytes) (s : Splitter) : Except SplitFault SplitOutcome :=
  match s.loop with
  | .blanks => blanksStep buffer s.p s.vector
  | .token .no current => plainStep buffer s.p s.vector current
  | .token .double current => doubleStep buffer s.p s.vector current
  | .token .single current => singleStep buffer s.p s.vector current

def splitRun (buffer : Bytes) : ℕ → Splitter → Except SplitFault (Option (Option (List Bytes)))
  | 0, _ => .ok none
  | turns+1, s => do
    match ← splitStep buffer s with
    | .running s => splitRun buffer turns s
    | .returns r => .ok (some r)

def Ends (buffer : Bytes) (s : Splitter) (o : Except SplitFault (Option (List Bytes))) : Prop :=
  ∃ turns, ∀ more, splitRun buffer (turns + more) s = o.map some

def Returns (buffer : Bytes) (s : Splitter) (r : Option (List Bytes)) : Prop := Ends buffer s (.ok r)

theorem Ends.step {buffer : Bytes} {s s' : Splitter} {o : Except SplitFault (Option (List Bytes))}
    (hstep : splitStep buffer s = .ok (.running s')) (h : Ends buffer s' o) : Ends buffer s o := by
  obtain ⟨turns, h⟩ := h
  refine ⟨turns + 1, ?_⟩
  intro more
  rw [show turns + 1 + more = (turns + more) + 1 by omega, splitRun, hstep]
  exact h more

theorem Ends.last {buffer : Bytes} {s : Splitter} {r : Option (List Bytes)}
    (hstep : splitStep buffer s = .ok (.returns r)) : Ends buffer s (.ok r) := by
  refine ⟨1, ?_⟩
  intro more
  rw [show 1 + more = more + 1 by omega, splitRun, hstep]
  rfl

theorem Ends.fault {buffer : Bytes} {s : Splitter} {e : SplitFault}
    (hstep : splitStep buffer s = .error e) : Ends buffer s (.error e) := by
  refine ⟨1, ?_⟩
  intro more
  rw [show 1 + more = more + 1 by omega, splitRun, hstep]
  rfl

theorem Ends.unique {buffer : Bytes} {s : Splitter} {o o' : Except SplitFault (Option (List Bytes))}
    (h : Ends buffer s o) (h' : Ends buffer s o') : o = o' := by
  obtain ⟨turns, h⟩ := h
  obtain ⟨turns', h'⟩ := h'
  have hmap : o.map some = o'.map some := by
    rw [← h turns', ← h' turns, Nat.add_comm]
  cases o with
  | ok r =>
    cases o' with
    | ok r' => simpa [Except.map] using hmap
    | error e' => cases hmap
  | error e =>
    cases o' with
    | ok r' => cases hmap
    | error e' => simpa [Except.map] using hmap

section Steps

variable {buffer s : Bytes} {p : ℕ} {b : UInt8} {l : Bytes}

theorem load_first (h : buffer.drop p = b :: l) : load buffer p = .ok b := by
  have hget : buffer[p]? = some b := by
    calc buffer[p]? = (buffer.drop p)[0]? := by rw [List.getElem?_drop, Nat.add_zero]
      _ = some b := by rw [h, List.getElem?_cons_zero]
  unfold load
  rw [hget]

theorem drop_next (h : buffer.drop p = b :: l) : buffer.drop (p+1) = l := by
  rw [List.drop_add_one_eq_tail_drop, h, List.tail_cons]

variable {h low e : UInt8}

theorem loadHexEscape_some (hbuffer : buffer.drop p = 92 :: 120 :: h :: low :: l)
    (hh : isHexDigit h = true) (hl : isHexDigit low = true) :
    loadHexEscape buffer p = .ok (some (hexDigitToInt h * 16 + hexDigitToInt low)) := by
  have h1 := drop_next hbuffer
  have h2 := drop_next h1
  have h3 := drop_next h2
  have hload : load buffer p = .ok 92 ∧ load buffer (p+1) = .ok 120 ∧ load buffer (p+2) = .ok h ∧
      load buffer (p+3) = .ok low :=
    ⟨load_first hbuffer, load_first h1, load_first h2, load_first h3⟩
  simp [loadHexEscape, hload, hh, hl, Bind.bind, Except.bind]

theorem loadHexEscape_plain (h : buffer.drop p = b :: l) (hslash : b ≠ 92) :
    loadHexEscape buffer p = .ok none := by
  simp [loadHexEscape, load_first h, hslash, Bind.bind, Except.bind]

theorem loadHexEscape_none (h : buffer.drop p = 92 :: e :: (s ++ [0]))
    (hhex : ∀ high low rest, s = high :: low :: rest →
      ¬ (e = 120 ∧ isHexDigit high = true ∧ isHexDigit low = true)) :
    loadHexEscape buffer p = .ok none := by
  have h1 := drop_next h
  have h2 := drop_next h1
  by_cases he : e = 120
  · have hx := load_first h1
    rw [he] at hx
    cases s with
    | nil =>
      have hzero : load buffer (p+2) = .ok 0 := load_first h2
      have hdigit : isHexDigit 0 = false := by decide
      simp [loadHexEscape, load_first h, hx, hzero, hdigit, Bind.bind, Except.bind]
    | cons high s =>
      have hhigh : load buffer (p+2) = .ok high := load_first h2
      have h3 := drop_next h2
      cases hd : isHexDigit high with
      | false => simp [loadHexEscape, load_first h, hx, hhigh, hd, Bind.bind, Except.bind]
      | true =>
        cases s with
        | nil =>
          have hzero : load buffer (p+3) = .ok 0 := load_first h3
          have hdigit : isHexDigit 0 = false := by decide
          simp [loadHexEscape, load_first h, hx, hhigh, hzero, hd, hdigit, Bind.bind, Except.bind]
        | cons low s =>
          have hlow : load buffer (p+3) = .ok low := load_first h3
          have hd' : isHexDigit low = false := by
            cases hd' : isHexDigit low with
            | false => rfl
            | true => exact absurd ⟨he, hd, hd'⟩ (hhex high low s rfl)
          simp [loadHexEscape, load_first h, hx, hhigh, hlow, hd, hd', Bind.bind, Except.bind]
  · simp [loadHexEscape, load_first h, load_first h1, he, Bind.bind, Except.bind]

variable {vector : List Bytes} {current : Bytes}

theorem closeToken_spec (h : buffer.drop (p+1) = s ++ [0]) (hs : 0 ∉ s) (vector : List Bytes)
    (current : Bytes) :
    closeToken buffer p vector current = match closeQuotes current s with
      | none => .ok (.returns none)
      | some _ => addToken (p+1) vector current := by
  cases s with
  | nil => simp [closeToken, load_first h, closeQuotes, Bind.bind, Except.bind]
  | cons b s =>
    have hb : b ≠ 0 := fun hb => hs (by simp [hb])
    have hnext : load buffer (p+1) = .ok b := load_first h
    cases hspace : isSpace b with
    | false => simp [closeToken, hnext, closeQuotes, hspace, hb, Bind.bind, Except.bind]
    | true => simp [closeToken, hnext, closeQuotes, hspace, Bind.bind, Except.bind]

theorem doubleStep_hex (hbuffer : buffer.drop p = 92 :: 120 :: h :: low :: l)
    (hh : isHexDigit h = true) (hl : isHexDigit low = true) :
    doubleStep buffer p vector current = .ok (.running
      ⟨p + 4, vector, .token .double (current ++ [hexDigitToInt h * 16 + hexDigitToInt low])⟩) := by
  simp only [doubleStep, loadHexEscape_some hbuffer hh hl, Bind.bind, Except.bind]

theorem doubleStep_escape (h : buffer.drop p = 92 :: e :: (s ++ [0])) (he : e ≠ 0)
    (hhex : ∀ high low rest, s = high :: low :: rest →
      ¬ (e = 120 ∧ isHexDigit high = true ∧ isHexDigit low = true)) :
    doubleStep buffer p vector current =
      .ok (.running ⟨p + 2, vector, .token .double (current ++ [unescape e])⟩) := by
  have hnext : load buffer (p+1) = .ok e := load_first (drop_next h)
  simp [doubleStep, loadHexEscape_none h hhex, load_first h, hnext, he, Bind.bind, Except.bind]

theorem doubleStep_close (h : buffer.drop p = 34 :: l) :
    doubleStep buffer p vector current = closeToken buffer p vector current := by
  simp [doubleStep, loadHexEscape_plain h (by decide), load_first h, Bind.bind, Except.bind]

theorem doubleStep_plain (h : buffer.drop p = b :: l) (hslash : b ≠ 92) (hclose : b ≠ 34) (hb : b ≠ 0) :
    doubleStep buffer p vector current =
      .ok (.running ⟨p + 1, vector, .token .double (current ++ [b])⟩) := by
  simp [doubleStep, loadHexEscape_plain h hslash, load_first h, hslash, hclose, hb, Bind.bind,
    Except.bind]

theorem doubleStep_slash (h : buffer.drop p = [92, 0]) :
    doubleStep buffer p vector current =
      .ok (.running ⟨p + 1, vector, .token .double (current ++ [92])⟩) := by
  have hnext : load buffer (p+1) = .ok 0 := load_first (drop_next h)
  have hhex : loadHexEscape buffer p = .ok none := by
    simp [loadHexEscape, load_first h, hnext, Bind.bind, Except.bind]
  simp [doubleStep, hhex, load_first h, hnext, Bind.bind, Except.bind]

theorem doubleStep_end (h : buffer.drop p = [0]) :
    doubleStep buffer p vector current = .ok (.returns none) := by
  simp [doubleStep, loadHexEscape_plain h (by decide), load_first h, Bind.bind, Except.bind]

theorem singleStep_escape (h : buffer.drop p = 92 :: 39 :: l) :
    singleStep buffer p vector current =
      .ok (.running ⟨p + 2, vector, .token .single (current ++ [39])⟩) := by
  have hnext : load buffer (p+1) = .ok 39 := load_first (drop_next h)
  simp [singleStep, load_first h, hnext, Bind.bind, Except.bind]

theorem singleStep_close (h : buffer.drop p = 39 :: l) :
    singleStep buffer p vector current = closeToken buffer p vector current := by
  simp [singleStep, load_first h, Bind.bind, Except.bind]

theorem singleStep_plain (h : buffer.drop p = b :: e :: l) (hescape : ¬ (b = 92 ∧ e = 39))
    (hclose : b ≠ 39) (hb : b ≠ 0) :
    singleStep buffer p vector current =
      .ok (.running ⟨p + 1, vector, .token .single (current ++ [b])⟩) := by
  have hnext : load buffer (p+1) = .ok e := load_first (drop_next h)
  by_cases hslash : b = 92
  · have he : e ≠ 39 := fun he => hescape ⟨hslash, he⟩
    rw [hslash] at h
    simp [singleStep, load_first h, hslash, hnext, he, Bind.bind, Except.bind]
  · simp [singleStep, load_first h, hslash, hclose, hb, Bind.bind, Except.bind]

theorem singleStep_end (h : buffer.drop p = [0]) :
    singleStep buffer p vector current = .ok (.returns none) := by
  simp [singleStep, load_first h, Bind.bind, Except.bind]

end Steps

theorem closeQuotes_mem {current s token rest : Bytes} (h : closeQuotes current s = some (token, rest))
    {b : UInt8} (hb : b ∈ rest) : b ∈ s := by
  cases s with
  | nil =>
    cases h
    exact hb
  | cons b' s =>
    simp only [closeQuotes] at h
    split_ifs at h
    cases h
    exact hb

theorem splitToken_mem (q : Quotes) (current s : Bytes) : ∀ token rest,
    splitToken q current s = some (token, rest) → ∀ b ∈ rest, b ∈ s := by
  fun_induction splitToken q current s with
  | case1 current =>
    intro token rest h b hb
    cases h
    exact hb
  | _ => grind [→ closeQuotes_mem]

variable {o : Except SplitFault (Option (List Bytes))}

def TokenLeads (buffer : Bytes) (vector : List Bytes) (o : Except SplitFault (Option (List Bytes))) :
    Option (Bytes × Bytes) → Prop
  | none => o = .ok none
  | some (token, rest) =>
    if vector.length+1 < 2^31 then
      ∀ p, buffer.drop p = rest ++ [0] → Ends buffer ⟨p, vector ++ [token], .blanks⟩ o
    else o = .error .outOfMemory

variable {line : Bytes} {isprint : UInt8 → Bool} {args : List Bytes}

theorem addToken_ends {buffer current rest : Bytes} {p : ℕ} {vector : List Bytes} {s : Splitter}
    (hstep : splitStep buffer s = addToken p vector current) (hdrop : buffer.drop p = rest ++ [0])
    (h : TokenLeads buffer vector o (some (current, rest))) : Ends buffer s o := by
  unfold addToken at hstep
  simp only [TokenLeads] at h
  by_cases hlimit : vector.length+1 < 2^31
  · rw [if_pos hlimit] at hstep h
    exact Ends.step hstep (h p hdrop)
  · rw [if_neg hlimit] at hstep h
    rw [h]
    exact Ends.fault hstep

theorem closeToken_ends {buffer s : Bytes} {p : ℕ} {vector : List Bytes} {current : Bytes}
    {q : Quotes} (hdrop : buffer.drop (p+1) = s ++ [0]) (hs : 0 ∉ s)
    (hstep : splitStep buffer ⟨p, vector, .token q current⟩ = closeToken buffer p vector current)
    (h : TokenLeads buffer vector o (closeQuotes current s)) :
    Ends buffer ⟨p, vector, .token q current⟩ o := by
  have hclose := closeToken_spec hdrop hs vector current
  rw [hclose] at hstep
  cases s with
  | nil => exact addToken_ends hstep hdrop h
  | cons b s =>
    unfold closeQuotes at h hstep
    cases hspace : isSpace b with
    | false =>
      simp only [hspace, Bool.false_eq_true, if_false] at h hstep
      rw [show o = .ok none from h]
      exact Ends.last hstep
    | true =>
      simp only [hspace, if_true] at h hstep
      exact addToken_ends hstep hdrop h

theorem token_ends {buffer : Bytes} {vector : List Bytes} (q : Quotes)
    (current s : Bytes) : ∀ p, buffer.drop p = s ++ [0] → 0 ∉ s →
      TokenLeads buffer vector o (splitToken q current s) →
        Ends buffer ⟨p, vector, .token q current⟩ o := by
  fun_induction splitToken q current s with
  | case1 current =>
    intro p hdrop _ h
    refine addToken_ends ?_ hdrop h
    simp [splitStep, plainStep, load_first hdrop, Bind.bind, Except.bind]
  | case2 current b rest hblank =>
    intro p hdrop _ h
    refine addToken_ends ?_ (drop_next hdrop) h
    simp only [splitStep, plainStep, load_first hdrop, Bind.bind, Except.bind, if_pos hblank]
  | case3 current rest _ ih =>
    intro p hdrop hs h
    refine Ends.step ?_ (ih (p+1) (drop_next hdrop) (fun hz => hs (mem_cons_of_mem _ hz)) h)
    simp [splitStep, plainStep, load_first hdrop, Bind.bind, Except.bind]
  | case4 current rest _ _ ih =>
    intro p hdrop hs h
    refine Ends.step ?_ (ih (p+1) (drop_next hdrop) (fun hz => hs (mem_cons_of_mem _ hz)) h)
    simp [splitStep, plainStep, load_first hdrop, Bind.bind, Except.bind]
  | case5 current b rest hblank hdouble hsingle ih =>
    intro p hdrop hs h
    have hb : b ≠ 0 := fun hb => hs (by simp [hb])
    refine Ends.step ?_ (ih (p+1) (drop_next hdrop) (fun hz => hs (mem_cons_of_mem _ hz)) h)
    simp only [splitStep, plainStep, load_first hdrop, Bind.bind, Except.bind, if_neg hblank, if_neg hb,
      if_neg hdouble, if_neg hsingle]
  | case6 current =>
    intro p hdrop _ h
    rw [show o = .ok none from h]
    exact Ends.last (doubleStep_end hdrop)
  | case7 current =>
    intro p hdrop hs h
    exact closeToken_ends (s := []) (drop_next hdrop) (by simp) (doubleStep_close hdrop) h
  | case8 current b hclose =>
    intro p hdrop hs h
    rw [show o = .ok none from h]
    have hend : Ends buffer ⟨p+1, vector, .token .double (current ++ [b])⟩ (.ok none) :=
      Ends.last (doubleStep_end (drop_next hdrop))
    by_cases hslash : b = 92
    · rw [hslash] at hdrop hend
      exact Ends.step (doubleStep_slash hdrop) hend
    · exact Ends.step (doubleStep_plain hdrop hslash hclose (fun hb => hs (by simp [hb]))) hend
  | case9 current e h l rest hhex ih =>
    intro p hdrop hs hleads
    obtain ⟨he, hh, hl⟩ := hhex
    rw [he] at hdrop
    have hrest := drop_next (drop_next (drop_next (drop_next hdrop)))
    refine Ends.step (doubleStep_hex hdrop hh hl) (ih (p+4) hrest ?_ hleads)
    intro hz
    exact hs (by simp [hz])
  | case10 current e h l rest hhex ih =>
    intro p hdrop hs hleads
    have he : e ≠ 0 := fun he => hs (by simp [he])
    have hrest : buffer.drop (p+2) = h :: l :: rest ++ [0] := drop_next (drop_next hdrop)
    refine Ends.step (doubleStep_escape (s := h :: l :: rest) hdrop he ?_) (ih (p+2) hrest ?_ hleads)
    · intro high low rest' heq
      cases heq
      exact hhex
    · intro hz
      exact hs (mem_cons_of_mem _ (mem_cons_of_mem _ hz))
  | case11 current e rest hshort ih =>
    intro p hdrop hs hleads
    have he : e ≠ 0 := fun he => hs (by simp [he])
    have hrest : buffer.drop (p+2) = rest ++ [0] := drop_next (drop_next hdrop)
    refine Ends.step (doubleStep_escape (s := rest) hdrop he ?_) (ih (p+2) hrest ?_ hleads)
    · intro high low rest' heq
      exact absurd heq (hshort high low rest')
    · intro hz
      exact hs (mem_cons_of_mem _ (mem_cons_of_mem _ hz))
  | case12 current e rest =>
    intro p hdrop hs h
    exact closeToken_ends (s := e :: rest) (drop_next hdrop)
      (fun hz => hs (mem_cons_of_mem _ hz)) (doubleStep_close hdrop) h
  | case13 current b e rest hslash hclose ih =>
    intro p hdrop hs h
    have hb : b ≠ 0 := fun hb => hs (by simp [hb])
    exact Ends.step (doubleStep_plain hdrop hslash hclose hb)
      (ih (p+1) (drop_next hdrop) (fun hz => hs (mem_cons_of_mem _ hz)) h)
  | case14 current =>
    intro p hdrop _ h
    rw [show o = .ok none from h]
    exact Ends.last (singleStep_end hdrop)
  | case15 current =>
    intro p hdrop hs h
    exact closeToken_ends (s := []) (drop_next hdrop) (by simp) (singleStep_close hdrop) h
  | case16 current b hclose =>
    intro p hdrop hs h
    rw [show o = .ok none from h]
    have hb : b ≠ 0 := fun hb => hs (by simp [hb])
    refine Ends.step (singleStep_plain hdrop ?_ hclose hb) (Ends.last (singleStep_end (drop_next hdrop)))
    intro hescape
    exact absurd hescape.2 (by decide)
  | case17 current b e rest hescape ih =>
    intro p hdrop hs h
    rw [hescape.1, hescape.2] at hdrop
    refine Ends.step (singleStep_escape hdrop) (ih (p+2) (drop_next (drop_next hdrop)) ?_ h)
    intro hz
    exact hs (mem_cons_of_mem _ (mem_cons_of_mem _ hz))
  | case18 current e rest =>
    intro p hdrop hs h
    exact closeToken_ends (s := e :: rest) (drop_next hdrop)
      (fun hz => hs (mem_cons_of_mem _ hz)) (singleStep_close hdrop) h
  | case19 current b e rest hescape hclose ih =>
    intro p hdrop hs h
    have hb : b ≠ 0 := fun hb => hs (by simp [hb])
    exact Ends.step (singleStep_plain hdrop hescape hclose hb)
      (ih (p+1) (drop_next hdrop) (fun hz => hs (mem_cons_of_mem _ hz)) h)

theorem blanks_ends {buffer : Bytes} {vector : List Bytes} (line : Bytes) :
    ∀ p, buffer.drop p = line ++ [0] → 0 ∉ line →
      (∀ p', buffer.drop p' = line.dropWhile isSpace ++ [0] →
        (match line.dropWhile isSpace with
          | [] => o = .ok (some vector)
          | _ :: _ => Ends buffer ⟨p', vector, .token .no []⟩ o)) →
      Ends buffer ⟨p, vector, .blanks⟩ o := by
  induction line with
  | nil =>
    intro p hdrop _ h
    have ho : o = .ok (some vector) := h p hdrop
    rw [ho]
    apply Ends.last
    simp [splitStep, blanksStep, load_first hdrop, Bind.bind, Except.bind]
  | cons b line ih =>
    intro p hdrop hs h
    have hb : b ≠ 0 := fun hb => hs (by simp [hb])
    cases hspace : isSpace b with
    | true =>
      rw [List.dropWhile_cons_of_pos hspace] at h
      refine Ends.step ?_ (ih (p+1) (drop_next hdrop) (fun hz => hs (mem_cons_of_mem _ hz)) h)
      simp [splitStep, blanksStep, load_first hdrop, hb, hspace, Bind.bind, Except.bind]
    | false =>
      rw [List.dropWhile_cons_of_neg (by simp [hspace])] at h
      refine Ends.step ?_ (h p hdrop)
      simp [splitStep, blanksStep, load_first hdrop, hb, hspace, Bind.bind, Except.bind]

/-- What the loops come to: the tokens, unless there are more of them than an `int` counts. -/
def splitLimited (line : Bytes) (vector : List Bytes) : Except SplitFault (Option (List Bytes)) :=
  if vector.length+tokenCount line < 2^31 then .ok (splitTokens line vector) else .error .outOfMemory

theorem splitTokens_ends {buffer : Bytes} (line : Bytes) (vector : List Bytes) :
    ∀ p, buffer.drop p = line ++ [0] → 0 ∉ line → vector.length < 2^31 →
      o = splitLimited line vector → Ends buffer ⟨p, vector, .blanks⟩ o := by
  unfold splitLimited
  fun_induction splitTokens line vector with
  | case1 line vector hline =>
    intro p hdrop hs hlen ho
    have hblanks := continues_blanks line
    rw [hline] at hblanks
    have hcount : tokenCount line = 0 := hblanks.2
    rw [hcount, Nat.add_zero, if_pos hlen] at ho
    apply blanks_ends line p hdrop hs
    intro p' _
    rw [hline]
    exact ho
  | case2 line vector b s hline hnone =>
    intro p hdrop hs hlen ho
    have hlexed := token_lexed hline
    rw [hnone] at hlexed
    have hcount : tokenCount line = 0 := hlexed.2
    rw [hcount, Nat.add_zero, if_pos hlen] at ho
    apply blanks_ends line p hdrop hs
    intro p' hdrop'
    rw [hline] at hdrop' ⊢
    have hs' : 0 ∉ b :: s := fun hz => hs ((List.dropWhile_sublist isSpace).mem (hline ▸ hz))
    apply token_ends .no [] (b :: s) p' hdrop' hs'
    rw [hnone]
    exact ho
  | case3 line vector b s hline token rest hsome hshort ih =>
    intro p hdrop hs _ ho
    have hlexed := token_lexed hline
    rw [hsome] at hlexed
    have hcount : tokenCount line = tokenCount rest+1 := hlexed.2
    apply blanks_ends line p hdrop hs
    intro p' hdrop'
    rw [hline] at hdrop' ⊢
    have hs' : 0 ∉ b :: s := fun hz => hs ((List.dropWhile_sublist isSpace).mem (hline ▸ hz))
    apply token_ends .no [] (b :: s) p' hdrop' hs'
    rw [hsome]
    simp only [TokenLeads]
    by_cases hlimit : vector.length+1 < 2^31
    · rw [if_pos hlimit]
      intro p'' hdrop''
      have hlen : (vector ++ [token]).length = vector.length+1 := List.length_append
      refine ih p'' hdrop'' (fun hz => hs' (splitToken_mem .no [] (b :: s) token rest hsome 0 hz)) ?_ ?_
      · rw [hlen]
        exact hlimit
      · rw [ho, hcount, hlen, show vector.length+1+tokenCount rest = vector.length+(tokenCount rest+1) by omega]
    · rw [if_neg hlimit, ho, hcount, if_neg (by omega)]

theorem sdssplitargs_ends (h : 0 ∉ line) : Ends (line ++ [0]) ⟨0, [], .blanks⟩ (splitLimited line []) :=
  splitTokens_ends line [] 0 rfl h (by decide) rfl

theorem sdssplitargs_returns_iff (h : 0 ∉ line) (r : Option (List Bytes)) :
    Returns (line ++ [0]) ⟨0, [], .blanks⟩ r ↔ r = sdssplitargs line ∧ tokenCount line < 2^31 := by
  have hends := sdssplitargs_ends h
  rw [splitLimited, List.length_nil, Nat.zero_add] at hends
  by_cases hlimit : tokenCount line < 2^31
  · rw [if_pos hlimit] at hends
    constructor
    · intro hr
      exact ⟨Except.ok.inj (hr.unique hends), hlimit⟩
    · intro hr
      rw [hr.1]
      exact hends
  · rw [if_neg hlimit] at hends
    constructor
    · intro hr
      cases hr.unique hends
    · exact fun hr => absurd hr.2 hlimit

theorem reprByte_nonzero (hprint : PrintsOnly isprint) (b : UInt8) : 0 ∉ reprByte isprint b := by
  have hdigit : ∀ n : UInt8, isHexDigit n = true → n ≠ 0 := by
    intro n hn h
    rw [h] at hn
    exact absurd hn (by decide)
  intro hz
  unfold reprByte at hz
  split_ifs at hz with hself hn hr ht ha hb hp
  · rcases hself with h | h <;> (rw [h] at hz; exact absurd hz (by decide))
  all_goals first
    | exact absurd hz (by decide)
    | skip
  · have hzero : b = 0 := (List.mem_singleton.mp hz).symm
    have := (hprint b hp).1
    rw [hzero] at this
    exact absurd this (by decide)
  · obtain ⟨hhigh, hlow, -⟩ := hexDigit_spec b
    simp only [mem_cons, List.not_mem_nil, or_false] at hz
    rcases hz with h | h | h | h
    · exact absurd h (by decide)
    · exact absurd h (by decide)
    · exact hdigit _ hhigh h.symm
    · exact hdigit _ hlow h.symm

theorem joined_nonzero (hprint : PrintsOnly isprint) (h : JoinedReprs isprint args line) : 0 ∉ line
    := by
  have hrepr : ∀ arg : Bytes, 0 ∉ sdscatrepr isprint [] arg := by
    intro arg hz
    rw [sdscatrepr_eq, List.nil_append, mem_append, mem_cons, List.mem_singleton,
      List.mem_flatMap] at hz
    rcases hz with (h | h) | h
    · exact absurd h (by decide)
    · obtain ⟨b, -, hb⟩ := h
      exact reprByte_nonzero hprint b hb
    · exact absurd h (by decide)
  induction h with
  | none => simp
  | one arg => exact hrepr arg
  | more arg blanks line _ hspace _ ih =>
    intro hz
    rw [mem_append, mem_append] at hz
    rcases hz with (h | h) | h
    · exact hrepr arg h
    · exact absurd (hspace 0 h) (by decide)
    · exact ih h

/-- In the buffer of a line the loops return without a read after the terminator, `NULL` exactly for
a quote that is unterminated or closed before a byte that is no blank, and the quoted forms of strings
are split into these strings, exactly if the `int` counts the tokens of the line. -/
theorem sdssplitargs_inverts (hprint : PrintsOnly isprint) {joined : Bytes}
    (hjoined : JoinedReprs isprint args joined) (hline : 0 ∉ line) :
    (Returns (joined ++ [0]) ⟨0, [], .blanks⟩ (some args) ↔ args.length < 2^31) ∧
      ((∃ r, Returns (line ++ [0]) ⟨0, [], .blanks⟩ r ∧
        (r = none ↔ UnterminatedQuote line ∨ BadClosingQuote line)) ↔ tokenCount line < 2^31) := by
  constructor
  · rw [sdssplitargs_returns_iff (joined_nonzero hprint hjoined), sdssplitargs_joined hjoined,
      joined_tokens hjoined, and_iff_right rfl]
  · simp only [sdssplitargs_returns_iff hline]
    constructor
    · rintro ⟨r, hr, -⟩
      exact hr.2
    · exact fun hlimit => ⟨sdssplitargs line, ⟨rfl, hlimit⟩, sdssplitargs_none line⟩

def isPrintable (b : UInt8) : Bool := decide (32 ≤ b ∧ b ≤ 126)

theorem isPrintable_only : PrintsOnly isPrintable := fun _ hb => of_decide_eq_true hb

theorem sdssplitargs_inverts_two :
    Returns (sdscatrepr isPrintable [] [97, 34] ++ [9, 32] ++ sdscatrepr isPrintable [] [0] ++ [0])
        ⟨0, [], .blanks⟩ (some [[97, 34], [0]]) ∧
      ∃ r, Returns ([34, 97, 34, 98] ++ [0]) ⟨0, [], .blanks⟩ r ∧
        (r = none ↔ UnterminatedQuote [34, 97, 34, 98] ∨ BadClosingQuote [34, 97, 34, 98]) := by
  have hspace : ∀ b ∈ ([9, 32] : Bytes), isSpace b = true := by simp [isSpace]
  have hline : 0 ∉ ([34, 97, 34, 98] : Bytes) := by simp
  have h := sdssplitargs_inverts isPrintable_only
    (JoinedReprs.more [97, 34] [9, 32] _ (by simp) hspace (JoinedReprs.one [0])) hline
  exact ⟨h.1.mpr (by decide), h.2.mpr (by decide)⟩

/-- `""` a number of times, with blanks between. -/
def emptyQuotes (n : ℕ) : Bytes := (List.replicate n [34, 34, 32]).flatten ++ [34, 34]

theorem joinedReprs_emptyQuotes (isprint : UInt8 → Bool) (n : ℕ) :
    JoinedReprs isprint (List.replicate (n+1) []) (emptyQuotes n) := by
  induction n with
  | zero => exact JoinedReprs.one []
  | succ n ih => exact JoinedReprs.more [] [32] (emptyQuotes n) (by simp) (by simp [isSpace]) ih

/-- 2^31 quoted empty strings. -/
theorem sdssplitargs_aborts :
    JoinedReprs isPrintable (List.replicate (2^31) []) (emptyQuotes (2^31-1)) ∧
      ¬Returns (emptyQuotes (2^31-1) ++ [0]) ⟨0, [], .blanks⟩ (some (List.replicate (2^31) [])) := by
  have hjoined := joinedReprs_emptyQuotes isPrintable (2^31-1)
  rw [Nat.sub_add_cancel (by norm_num)] at hjoined
  refine ⟨hjoined, ?_⟩
  rw [sdssplitargs_returns_iff (joined_nonzero isPrintable_only hjoined), joined_tokens hjoined,
    List.length_replicate]
  exact fun h => absurd h.2 (lt_irrefl _)

end RedisCore.Request
