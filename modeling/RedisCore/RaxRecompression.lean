import RedisCore.ByteBlock

namespace RedisCore.Rax

def raxNodeMaxSize : ℕ := 2^29-1

inductive RaxNode
  | node (iskey iscompr : Bool) (data : Bytes) (children : List RaxNode)

namespace RaxNode

def iskey : RaxNode → Bool
  | node iskey _ _ _ => iskey

def iscompr : RaxNode → Bool
  | node _ iscompr _ _ => iscompr

def data : RaxNode → Bytes
  | node _ _ data _ => data

def children : RaxNode → List RaxNode
  | node _ _ _ children => children

def size (h : RaxNode) : ℕ := h.data.length

def stops (h : RaxNode) : Bool := h.iskey || (!h.iscompr && h.size != 1)

def lastChild (h : RaxNode) : Option RaxNode := h.children.getLast?

theorem sizeOf_lastChild {h c : RaxNode} (hc : h.lastChild = some c) : sizeOf c < sizeOf h := by
  obtain ⟨iskey, iscompr, data, children⟩ := h
  have hmem : c ∈ children := List.mem_of_getLast? hc
  have hlt := List.sizeOf_lt_of_mem hmem
  simp only [node.sizeOf_spec]
  omega

end RaxNode

open RaxNode

/-- A node of the stack, without the child through which the walk went on. -/
structure RaxFrame where
  iskey : Bool
  iscompr : Bool
  data : Bytes
  left : List RaxNode
  right : List RaxNode

def RaxFrame.plug (f : RaxFrame) (h : RaxNode) : RaxNode :=
  node f.iskey f.iscompr f.data (f.left ++ h :: f.right)

def RaxFrame.stops (f : RaxFrame) : Bool := f.iskey || (!f.iscompr && f.data.length != 1)

def climb : List RaxFrame → RaxNode → List RaxFrame × RaxNode
  | [], h => ([], h)
  | f :: ts, h => if f.stops then (f :: ts, h) else climb ts (f.plug h)

def measureScan (h : RaxNode) (comprsize nodes : ℕ) : ℕ × ℕ :=
  match hc : h.lastChild with
  | none => (comprsize, nodes)
  | some c =>
    if c.stops then (comprsize, nodes)
    else if comprsize+c.size > raxNodeMaxSize then (comprsize, nodes)
    else measureScan c (comprsize+c.size) (nodes+1)
termination_by sizeOf h
decreasing_by exact sizeOf_lastChild hc

def copyScan (h : RaxNode) (copied : Bytes) (freed : ℕ) : Bytes × ℕ × RaxNode :=
  match hc : h.lastChild with
  | none => (copied, freed, h)
  | some c =>
    if c.stops then (copied ++ h.data, freed+1, c)
    else copyScan c (copied ++ h.data) (freed+1)
termination_by sizeOf h
decreasing_by exact sizeOf_lastChild hc

def raxPadding (nodesize : ℕ) : ℕ := (8-(nodesize+4)%8)%8

def rebuild : List RaxFrame → RaxNode → RaxNode
  | [], h => h
  | f :: ts, h => rebuild ts (f.plug h)

structure Recompression where
  tree : RaxNode
  nodes : ℕ
  freed : ℕ
  comprsize : ℕ
  copied : ℕ

/-- The branch `if (trycompress)`; without a new node the result is `none`. -/
def raxRecompress (ts : List RaxFrame) (h : RaxNode) : Except Fault (Option Recompression) :=
  let start := climb ts h
  let measured := measureScan start.2 start.2.size 1
  if measured.2 > 1 then
    let scan := copyScan start.2 [] 0
    if scan.1.length ≤ measured.1+raxPadding measured.1+8 then
      .ok (some {
        tree := rebuild start.1 (node false true (scan.1.take measured.1) [scan.2.2])
        nodes := measured.2
        freed := scan.2.1
        comprsize := measured.1
        copied := scan.1.length })
    else .error .outOfBounds
  else .ok none

inductive NodeOk : RaxNode → Prop
  | node (iskey iscompr : Bool) (data : Bytes) (children : List RaxNode)
      (hsize : data.length ≤ raxNodeMaxSize)
      (hchildren : children.length = if iscompr then 1 else data.length)
      (hok : ∀ c ∈ children, NodeOk c) : NodeOk (node iskey iscompr data children)

def below (h : RaxNode) : List ℕ :=
  match _hc : h.lastChild with
  | none => []
  | some c => if c.stops then [] else c.size :: below c
termination_by sizeOf h
decreasing_by exact sizeOf_lastChild ‹_›

def above : List RaxFrame → List ℕ
  | [] => []
  | f :: ts => if f.stops then [] else f.data.length :: above ts

def chain (ts : List RaxFrame) (h : RaxNode) : List ℕ := (above ts).reverse ++ h.size :: below h

def fitting : ℕ → List ℕ → List ℕ
  | _, [] => []
  | comprsize, k :: ks =>
    if comprsize+k > raxNodeMaxSize then [] else k :: fitting (comprsize+k) ks

theorem below_child {h c : RaxNode} (hc : h.lastChild = some c) :
    below h = if c.stops then [] else c.size :: below c := by
  rw [below]
  split
  next hnone =>
    rw [hc] at hnone
    cases hnone
  next c' hc' =>
    rw [hc] at hc'
    cases hc'
    rfl

theorem measureScan_eq (h : RaxNode) (comprsize nodes : ℕ) : measureScan h comprsize nodes =
    (comprsize+(fitting comprsize (below h)).sum, nodes+(fitting comprsize (below h)).length) := by
  fun_induction measureScan h comprsize nodes with
  | case1 h comprsize nodes hc =>
    have hbelow : below h = [] := by
      rw [below]
      split
      · rfl
      · simp_all
    rw [hbelow]
    rfl
  | case2 h comprsize nodes c hc hs =>
    rw [below_child hc, if_pos hs]
    rfl
  | case3 h comprsize nodes c hc hs hgt =>
    rw [below_child hc, if_neg hs, fitting, if_pos hgt]
    rfl
  | case4 h comprsize nodes c hc hs hle ih =>
    rw [ih, below_child hc, if_neg hs, fitting, if_neg hle, List.sum_cons, List.length_cons]
    simp only [Nat.add_assoc, Nat.add_comm]

theorem NodeOk.size_le {h : RaxNode} (hok : NodeOk h) : h.size ≤ raxNodeMaxSize := by
  cases hok with
  | node _ _ _ _ hsize _ _ => exact hsize

theorem NodeOk.lastChild {h : RaxNode} (hok : NodeOk h) (hs : h.stops = false) :
    ∃ c, h.lastChild = some c ∧ NodeOk c := by
  obtain ⟨iskey, iscompr, data, children, -, hchildren, hok⟩ := hok
  have hne : children ≠ [] := by
    rintro rfl
    cases iscompr <;> simp [RaxNode.stops, RaxNode.iskey, RaxNode.iscompr, RaxNode.size,
      RaxNode.data] at hs hchildren
    omega
  exact ⟨children.getLast hne, List.getLast?_eq_some_getLast hne, hok _ (List.getLast_mem hne)⟩

theorem copyScan_eq (h : RaxNode) (copied : Bytes) (freed : ℕ) (hok : NodeOk h)
    (hs : h.stops = false) :
    (copyScan h copied freed).1.length = copied.length+(h.size :: below h).sum ∧
      (copyScan h copied freed).2.1 = freed+(h.size :: below h).length := by
  fun_induction copyScan h copied freed with
  | case1 h copied freed hc =>
    obtain ⟨c, hc', -⟩ := hok.lastChild hs
    rw [hc] at hc'
    cases hc'
  | case2 h copied freed c hc hstop =>
    rw [below_child hc, if_pos hstop]
    simp [RaxNode.size]
  | case3 h copied freed c hc hgo ih =>
    obtain ⟨c', hc', hok'⟩ := hok.lastChild hs
    obtain rfl : c = c' := Option.some.inj (hc.symm.trans hc')
    have h := ih hok' (Bool.eq_false_of_not_eq_true hgo)
    rw [h.1, h.2, below_child hc, if_neg hgo]
    simp only [List.length_append, List.sum_cons, List.length_cons, RaxNode.size]
    omega

theorem rebuild_ok {ts : List RaxFrame} {h : RaxNode} (hok : NodeOk (rebuild ts h)) : NodeOk h := by
  induction ts generalizing h with
  | nil => exact hok
  | cons f ts ih =>
    obtain ⟨-, -, -, -, -, -, hok⟩ := ih hok
    exact hok h (by simp)

theorem plug_single {f : RaxFrame} {h : RaxNode} (hok : NodeOk (f.plug h)) (hs : f.stops = false) :
    (f.plug h).lastChild = some h := by
  obtain ⟨iskey, iscompr, data, left, right⟩ := f
  obtain ⟨-, -, -, -, -, hchildren, -⟩ := hok
  have hright : right = [] := by
    apply List.length_eq_zero_iff.1
    cases iscompr <;> simp [RaxFrame.stops] at hs hchildren <;> omega
  simp [RaxFrame.plug, RaxNode.lastChild, RaxNode.children, hright]

theorem climb_chain {ts : List RaxFrame} {h : RaxNode} (hok : NodeOk (rebuild ts h))
    (hs : h.stops = false) : NodeOk (climb ts h).2 ∧ (climb ts h).2.stops = false ∧
      (climb ts h).2.size :: below (climb ts h).2 = chain ts h := by
  induction ts generalizing h with
  | nil => exact ⟨hok, hs, rfl⟩
  | cons f ts ih =>
    rw [climb, chain, above]
    by_cases hf : f.stops = true
    · rw [if_pos hf, if_pos hf]
      exact ⟨rebuild_ok hok, hs, rfl⟩
    · have hf' : f.stops = false := Bool.eq_false_of_not_eq_true hf
      rw [if_neg hf, if_neg hf]
      have hup := ih hok (show (f.plug h).stops = false from hf')
      have hbelow : below (f.plug h) = h.size :: below h := by
        rw [below_child (plug_single (rebuild_ok hok) hf'), if_neg (by simp [hs])]
      refine ⟨hup.1, hup.2.1, hup.2.2.trans ?_⟩
      rw [chain, hbelow, List.reverse_cons, List.append_assoc]
      rfl

/-- If there is a new node, the nodes freed are those counted, and the characters copied are as
many as it has room for. -/
def ExactCopy (ts : List RaxFrame) (h : RaxNode) : Prop :=
  ∃ r, raxRecompress ts h = .ok r ∧ ∀ q, r = some q →
    q.freed = q.nodes ∧ q.copied = q.comprsize ∧ q.comprsize ≤ raxNodeMaxSize

theorem fitting_of_le {comprsize : ℕ} {ks : List ℕ} (h : comprsize+ks.sum ≤ raxNodeMaxSize) :
    fitting comprsize ks = ks := by
  induction ks generalizing comprsize with
  | nil => rfl
  | cons k ks ih =>
    rw [List.sum_cons] at h
    rw [fitting, if_neg (by omega), ih (by omega)]

theorem fitting_sum_le {comprsize : ℕ} (ks : List ℕ) (h : comprsize ≤ raxNodeMaxSize) :
    comprsize+(fitting comprsize ks).sum ≤ raxNodeMaxSize := by
  induction ks generalizing comprsize with
  | nil => exact h
  | cons k ks ih =>
    rw [fitting]
    split_ifs with hgt
    · exact h
    · have := ih (Nat.not_lt.1 hgt)
      rw [List.sum_cons]
      omega

theorem exactCopy_scans {ts : List RaxFrame} {h : RaxNode} (hok : NodeOk (rebuild ts h))
    (hkey : h.iskey = false) (hone : h.size = 1) :
    ∃ a ks, chain ts h = a :: ks ∧ a ≤ raxNodeMaxSize ∧ (ExactCopy ts h ↔ fitting a ks = [] ∨
      (fitting a ks).length = ks.length ∧ (fitting a ks).sum = ks.sum) := by
  obtain ⟨hstart, hgo, hchain⟩ := climb_chain hok (by simp [stops, hkey, hone])
  obtain ⟨hcopied, hfreed⟩ := copyScan_eq (climb ts h).2 [] 0 hstart hgo
  refine ⟨_, _, hchain.symm, hstart.size_le, ?_⟩
  have hle := fitting_sum_le (below (climb ts h).2) hstart.size_le
  rw [ExactCopy, raxRecompress, measureScan_eq]
  dsimp only
  rw [List.length_nil, Nat.zero_add, List.sum_cons] at hcopied
  rw [Nat.zero_add, List.length_cons] at hfreed
  generalize copyScan (climb ts h).2 [] 0 = scan at *
  generalize (climb ts h).2.size = a at *
  generalize below (climb ts h).2 = ks at *
  cases hfit : fitting a ks with
  | nil => exact iff_of_true ⟨none, rfl, fun q hq => by cases hq⟩ (Or.inl rfl)
  | cons b bs =>
    rw [← hfit, if_pos (by rw [hfit, List.length_cons]; omega)]
    constructor
    · rintro ⟨r, hr, hexact⟩
      split_ifs at hr
      have h := hexact _ (Except.ok.inj hr).symm
      dsimp only at h
      exact Or.inr ⟨by omega, by omega⟩
    · intro hagree
      have h := hagree.resolve_left (by rw [hfit]; simp)
      rw [if_pos (by omega)]
      refine ⟨_, rfl, fun q hq => ?_⟩
      obtain rfl := Option.some.inj hq
      dsimp only
      omega

/-- The scans agree exactly when the whole chain fits into a node, or not even its first two nodes
do and nothing is compressed. -/
theorem exact_copy_iff {ts : List RaxFrame} {h : RaxNode} (hok : NodeOk (rebuild ts h))
    (hkey : h.iskey = false) (hone : h.size = 1) : ExactCopy ts h ↔
      (chain ts h).sum ≤ raxNodeMaxSize ∨ raxNodeMaxSize < ((chain ts h).take 2).sum := by
  obtain ⟨a, ks, hchain, ha, hscans⟩ := exactCopy_scans hok hkey hone
  rw [hscans, hchain]
  by_cases hsum : (a :: ks).sum ≤ raxNodeMaxSize
  · have hfit : fitting a ks = ks := fitting_of_le (by rwa [← List.sum_cons])
    rw [hfit]
    exact iff_of_true (Or.inr ⟨rfl, rfl⟩) (Or.inl hsum)
  have hle := fitting_sum_le ks ha
  have hmore : ¬a+ks.sum ≤ raxNodeMaxSize := by rwa [← List.sum_cons]
  cases ks with
  | nil => exact absurd ha hmore
  | cons b ks =>
    have htake : ((a :: b :: ks).take 2).sum = a+b := by simp
    rw [htake]
    by_cases hab : a+b > raxNodeMaxSize
    · rw [fitting, if_pos hab]
      exact iff_of_true (Or.inl rfl) (Or.inr hab)
    · -- the copying scan goes on behind the node at which the measuring one has stopped
      refine iff_of_false (fun h => ?_) (fun h => h.elim hsum hab)
      rcases h with hnone | ⟨-, hall⟩
      · rw [fitting, if_neg hab] at hnone
        cases hnone
      · omega

def branchNode (n : ℕ) : RaxNode :=
  node false false [98] [node false true (List.replicate n 99)
    [node false false [100] [node true false [] []]]]

def frameNode : RaxFrame := ⟨false, true, [97, 97], [], []⟩

theorem branchNode_ok {n : ℕ} (hn : n ≤ raxNodeMaxSize) :
    NodeOk (rebuild [frameNode] (branchNode n)) := by
  have hleaf : NodeOk (node true false [] []) := ⟨_, _, _, _, by decide, rfl, by simp⟩
  have hlast : NodeOk (node false false [100] [node true false [] []]) :=
    ⟨_, _, _, _, by decide, rfl, by simpa using hleaf⟩
  have hlong : NodeOk (node false true (List.replicate n 99)
      [node false false [100] [node true false [] []]]) :=
    ⟨_, _, _, _, by rwa [List.length_replicate], rfl, by simpa using hlast⟩
  have hbranch : NodeOk (branchNode n) := ⟨_, _, _, _, by decide, rfl, by simpa using hlong⟩
  exact ⟨_, _, _, _, by decide, rfl, by simpa [frameNode] using hbranch⟩

theorem branchNode_chain (n : ℕ) : chain [frameNode] (branchNode n) = [2, 1, n, 1] := by
  simp [chain, above, frameNode, RaxFrame.stops, branchNode, RaxNode.size, RaxNode.data, below,
    RaxNode.lastChild, RaxNode.children, RaxNode.stops, RaxNode.iskey, RaxNode.iscompr]

theorem exact_copy_iff_short : ExactCopy [frameNode] (branchNode 5) :=
  (exact_copy_iff (branchNode_ok (by decide)) rfl rfl).2 (by rw [branchNode_chain]; decide)

/-- A chain with one character more than a node can hold. -/
theorem exact_copy_fails : ∃ ts h, NodeOk (rebuild ts h) ∧ h.iskey = false ∧ h.size = 1 ∧
    ¬ExactCopy ts h := by
  have hok : NodeOk (rebuild [frameNode] (branchNode (2^29-4))) :=
    branchNode_ok (by rw [raxNodeMaxSize]; norm_num)
  refine ⟨_, _, hok, rfl, rfl, ?_⟩
  obtain ⟨a, ks, hchain, -, hscans⟩ := exactCopy_scans hok rfl rfl
  rw [branchNode_chain] at hchain
  obtain ⟨rfl, rfl⟩ := List.cons.inj hchain
  have hfit : fitting 2 [1, 2^29-4, 1] = [1, 2^29-4] := by
    norm_num [fitting, raxNodeMaxSize]
  rw [hscans, hfit]
  simp

end RedisCore.Rax
