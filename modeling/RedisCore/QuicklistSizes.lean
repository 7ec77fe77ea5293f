import RedisCore.QuicklistModel

set_option linter.style.nameCheck false

namespace RedisCore.Ql

open Ziplist

def SzRight (n : QuicklistNode) : Prop := ziplistBlobLen n.zl = .ok n.sz

def AllSz (nodes : List QuicklistNode) : Prop := ∀ n ∈ nodes, SzRight n

theorem SzRight.eq_length {n : QuicklistNode} (h : SzRight n) {es : List Entry}
    (hp : Parses n.zl es) : n.sz = n.zl.length := by
  obtain ⟨cnt, -, hblob⟩ := hp.layout
  have hbytes : ziplistBlobLen (blob es cnt) = .ok (blobLen es) := ziplistBytes_header hp.size
  rw [SzRight, hblob, hbytes] at h
  rw [hblob, blob_length]
  exact (Except.ok.inj h).symm

section Lists

variable {nodes : List QuicklistNode} {f : QuicklistNode → QuicklistNode}

def KeepsZl (f : QuicklistNode → QuicklistNode) : Prop := ∀ n, (f n).zl = n.zl ∧ (f n).sz = n.sz

theorem KeepsZl.right (hf : KeepsZl f) {n : QuicklistNode} (h : SzRight n) : SzRight (f n) := by
  rw [SzRight, (hf n).1, (hf n).2]
  exact h

theorem AllSz.modify (h : AllSz nodes) (hf : KeepsZl f) (i : ℕ) : AllSz (nodes.modify i f) := by
  intro n hn
  obtain ⟨j, hj⟩ := List.getElem?_of_mem hn
  rw [List.getElem?_modify, Option.map_eq_map, Option.map_eq_some_iff] at hj
  obtain ⟨m, hm, rfl⟩ := hj
  have hright := h m (List.mem_of_getElem? hm)
  by_cases hij : i = j
  · rw [if_pos hij]
    exact hf.right hright
  · rw [if_neg hij]
    exact hright

theorem AllSz.set (h : AllSz nodes) {n : QuicklistNode} (hn : SzRight n) (i : ℕ) :
    AllSz (nodes.set i n) := by
  intro m hm
  rcases List.mem_or_eq_of_mem_set hm with hm | rfl
  · exact h m hm
  · exact hn

theorem AllSz.eraseIdx (h : AllSz nodes) (i : ℕ) : AllSz (nodes.eraseIdx i) :=
  fun n hn => h n (List.mem_of_mem_eraseIdx hn)

theorem AllSz.insert (h : AllSz nodes) {n : QuicklistNode} (hn : SzRight n) (i : ℕ) :
    AllSz (nodes.take i ++ n :: nodes.drop i) := by
  intro m hm
  rcases List.mem_append.mp hm with hm | hm
  · exact h m (List.mem_of_mem_take hm)
  · rcases List.mem_cons.mp hm with rfl | hm
    · exact hn
    · exact h m (List.mem_of_mem_drop hm)

theorem keepsZl_decompress : KeepsZl quicklistDecompressNode := fun _ => ⟨rfl, rfl⟩

theorem keepsZl_decompressForUse : KeepsZl quicklistDecompressNodeForUse := by
  intro n
  rw [quicklistDecompressNodeForUse]
  split <;> exact ⟨rfl, rfl⟩

theorem keepsZl_addCount (d : ℤ) : KeepsZl (addCount · d) := fun _ => ⟨rfl, rfl⟩

theorem keepsZl_compress (shrinks : Bytes → Bool) : KeepsZl (quicklistCompressNode shrinks) := by
  intro n
  rw [quicklistCompressNode, __quicklistCompressNode]
  split
  · exact ⟨rfl, rfl⟩
  · split
    · exact ⟨rfl, rfl⟩
    · split <;> exact ⟨rfl, rfl⟩

theorem keepsZl_recompress (shrinks : Bytes → Bool) :
    KeepsZl (fun n => if n.recompress then quicklistCompressNode shrinks n else n) := by
  intro n
  dsimp only
  split
  · exact keepsZl_compress shrinks n
  · exact ⟨rfl, rfl⟩

end Lists

theorem yields_any {ε α : Type} (x : Except ε α) : Yields False x (fun _ => True) := by
  cases x with
  | ok a => trivial
  | error e => exact fun h => h

section Sizes

variable {shrinks : Bytes → Bool} {q : Quicklist}

def SizesAfter (x : Except Fault Quicklist) : Prop := Yields False x (fun q => AllSz q.nodes)

theorem updateZl_right (n : QuicklistNode) (zl : Bytes) : Yields False (updateZl n zl) SzRight := by
  rw [updateZl]
  cases h : ziplistBlobLen zl with
  | error e => exact fun h => h
  | ok sz => exact h

theorem AllSz.modifyPtr {f : QuicklistNode → QuicklistNode} (h : AllSz q.nodes) (hf : KeepsZl f)
    (p : Option ℕ) : AllSz (modifyPtr q p f).nodes := by
  cases p with
  | none => exact h
  | some i => exact h.modify hf i

theorem compressLoop_sizes (node : Option ℕ) (rounds : ℕ) (forward reverse : Option ℕ)
    (in_depth : Bool) (h : AllSz q.nodes) :
    Yields False (compressLoop node rounds forward reverse in_depth q)
      (fun r => AllSz r.1.nodes) := by
  induction rounds generalizing forward reverse in_depth q with
  | zero => exact h
  | succ rounds ih =>
    have h' := (h.modifyPtr keepsZl_decompress forward).modifyPtr keepsZl_decompress reverse
    unfold compressLoop
    dsimp only
    split
    · exact h'
    · split
      · exact ih _ _ _ h'
      · exact fun h => h

theorem __quicklistCompress_sizes (h : AllSz q.nodes) (node : Option ℕ) :
    SizesAfter (__quicklistCompress shrinks q node) := by
  rw [__quicklistCompress]
  split
  · exact h
  · apply Yields.bind (compressLoop_sizes node _ _ _ _ h)
    rintro ⟨q', rest⟩ hq'
    cases rest with
    | none => exact hq'
    | some p =>
      obtain ⟨forward, reverse, in_depth⟩ := p
      have hnode : AllSz (if in_depth then q'
          else modifyPtr q' node (quicklistCompressNode shrinks)).nodes := by
        split
        · exact hq'
        · exact AllSz.modifyPtr hq' (keepsZl_compress shrinks) node
      dsimp only
      generalize (if in_depth then q' else modifyPtr q' node (quicklistCompressNode shrinks)) = q1
        at hnode ⊢
      split
      · exact (hnode.modifyPtr (keepsZl_compress shrinks) forward).modifyPtr
          (keepsZl_compress shrinks) reverse
      · exact hnode

theorem quicklistCompress_sizes (h : AllSz q.nodes) (i : ℕ) :
    SizesAfter (quicklistCompress shrinks q i) := by
  apply Yields.bind (yields_any _)
  intro n _
  split
  · exact h.modify (keepsZl_compress shrinks) i
  · exact __quicklistCompress_sizes h (some i)

theorem __quicklistInsertNode_sizes (h : AllSz q.nodes) (old_node : Option ℕ) {n : QuicklistNode}
    (hn : SzRight n) (after : Bool) :
    SizesAfter (__quicklistInsertNode shrinks q old_node n after) := by
  unfold __quicklistInsertNode
  cases old_node with
  | none =>
    dsimp only
    split
    · intro m hm
      rw [List.mem_singleton.mp hm]
      exact hn
    · split
      · exact fun h => h
      · exact h
  | some i =>
    apply Yields.bind (yields_any _)
    intro _ _
    apply Yields.bind (quicklistCompress_sizes (q := { q with nodes := _ }) (h.insert hn _) _)
    intro q' hq'
    exact hq'

theorem __quicklistDelNode_sizes {i : ℕ} (h : AllSz (q.nodes.eraseIdx i)) :
    SizesAfter (__quicklistDelNode shrinks q i) := by
  apply Yields.bind (yields_any _)
  intro n _
  apply Yields.bind (__quicklistCompress_sizes (q := { q with nodes := q.nodes.eraseIdx i }) h none)
  intro q' hq'
  exact hq'

theorem quicklistPushHead_sizes (h : AllSz q.nodes) (value : Bytes) :
    SizesAfter (quicklistPushHead shrinks q value) := by
  have hlinked : SizesAfter (if _quicklistNodeAllowInsert q.nodes.head? q.fill value.length then do
      let n ← nodeAt q 0
      let zl ← ziplistPush (← rawZl n) value .head
      .ok (setNode q 0 (← updateZl n zl))
    else do
      let n ← singletonNode value .head
      let n ← updateZl n n.zl
      __quicklistInsertNode shrinks q (if q.nodes.isEmpty then none else some 0) n false) := by
    split
    · apply Yields.bind (yields_any _)
      intro n _
      apply Yields.bind (yields_any _)
      intro raw _
      apply Yields.bind (yields_any _)
      intro zl _
      apply Yields.bind (updateZl_right n zl)
      intro n' hn'
      exact h.set hn' 0
    · apply Yields.bind (yields_any _)
      intro n _
      apply Yields.bind (updateZl_right n n.zl)
      intro n' hn'
      exact __quicklistInsertNode_sizes h _ hn' false
  apply Yields.bind hlinked
  intro q' hq'
  exact AllSz.modify hq' (keepsZl_addCount 1) 0

theorem quicklistPushTail_sizes (h : AllSz q.nodes) (value : Bytes) :
    SizesAfter (quicklistPushTail shrinks q value) := by
  have hlinked : SizesAfter (if _quicklistNodeAllowInsert q.nodes.getLast? q.fill value.length then do
      let n ← nodeAt q (q.nodes.length-1)
      let zl ← ziplistPush (← rawZl n) value .tail
      .ok (setNode q (q.nodes.length-1) (← updateZl n zl))
    else do
      let n ← singletonNode value .tail
      let n ← updateZl n n.zl
      __quicklistInsertNode shrinks q
        (if q.nodes.isEmpty then none else some (q.nodes.length-1)) n true) := by
    split
    · apply Yields.bind (yields_any _)
      intro n _
      apply Yields.bind (yields_any _)
      intro raw _
      apply Yields.bind (yields_any _)
      intro zl _
      apply Yields.bind (updateZl_right n zl)
      intro n' hn'
      exact h.set hn' _
    · apply Yields.bind (yields_any _)
      intro n _
      apply Yields.bind (updateZl_right n n.zl)
      intro n' hn'
      exact __quicklistInsertNode_sizes h _ hn' true
  apply Yields.bind hlinked
  intro q' hq'
  exact AllSz.modify hq' (keepsZl_addCount 1) _

theorem quicklistPush_sizes (h : AllSz q.nodes) (value : Bytes) (w : Where) :
    SizesAfter (quicklistPush shrinks q value w) := by
  cases w with
  | head => exact quicklistPushHead_sizes h value
  | tail => exact quicklistPushTail_sizes h value

theorem quicklistAppendZiplist_sizes (h : AllSz q.nodes) (zl : Bytes) :
    SizesAfter (quicklistAppendZiplist shrinks q zl) := by
  apply Yields.bind (yields_any _)
  intro len _
  apply Yields.bind (updateZl_right _ len.2)
  intro n hn
  apply Yields.bind (__quicklistInsertNode_sizes h _ hn true)
  intro q' hq'
  exact hq'

theorem quicklistDelIndex_sizes (h : AllSz q.nodes) (i p : ℕ) :
    Yields False (quicklistDelIndex shrinks q i p) (fun r => AllSz r.1.nodes) := by
  apply Yields.bind (yields_any _)
  intro n _
  apply Yields.bind (yields_any _)
  intro raw _
  apply Yields.bind (yields_any _)
  intro zl _
  dsimp only
  split
  · have hrest : AllSz ((q.nodes.set i (addCount { n with zl := zl.1 } (-1))).eraseIdx i) := by
      rw [List.eraseIdx_set_eq]
      exact h.eraseIdx i
    apply Yields.bind (__quicklistDelNode_sizes hrest)
    intro q' hq'
    exact hq'
  · apply Yields.bind (updateZl_right _ zl.1)
    intro n' hn'
    exact h.set hn' i

theorem quicklistIndex_sizes (h : AllSz q.nodes) (idx : ℤ) :
    Yields False (quicklistIndex q idx) (fun r => AllSz r.1.nodes) := by
  rw [quicklistIndex]
  dsimp only
  generalize decide (0 ≤ idx) = forward
  generalize (if forward = true then idx.toNat else (-idx-1).toNat) = index
  generalize (if forward = true then q.nodes else q.nodes.reverse) = nodes
  split
  · exact h
  · split
    · exact h
    · apply Yields.bind (yields_any _)
      intro n _
      apply Yields.bind (yields_any _)
      intro raw _
      apply Yields.bind (yields_any _)
      intro zi _
      apply Yields.bind (yields_any _)
      intro value _
      exact h.modify keepsZl_decompressForUse _

theorem quicklistDelEntry_sizes (h : AllSz q.nodes) (entry : QuicklistEntry) :
    SizesAfter (quicklistDelEntry shrinks q entry) := by
  rw [quicklistDelEntry]
  split
  · apply Yields.bind (quicklistDelIndex_sizes h _ _)
    intro r hr
    exact hr
  · exact fun h => h

theorem quicklistReplaceAtIndex_sizes (h : AllSz q.nodes) (index : ℤ) (data : Bytes) :
    Yields False (quicklistReplaceAtIndex shrinks q index data) (fun r => AllSz r.1.nodes) := by
  apply Yields.bind (quicklistIndex_sizes h index)
  intro r hr
  split
  · exact hr
  · split
    next i zi _ _ =>
      apply Yields.bind (yields_any _)
      intro n _
      apply Yields.bind (yields_any _)
      intro raw _
      apply Yields.bind (yields_any _)
      intro deleted _
      apply Yields.bind (yields_any _)
      intro zl _
      apply Yields.bind (updateZl_right n zl)
      intro n' hn'
      apply Yields.bind (quicklistCompress_sizes (q := setNode r.1 i n') (AllSz.set hr hn' i) i)
      intro q' hq'
      exact hq'
    · exact fun h => h

theorem _quicklistZiplistMerge_sizes (h : AllSz q.nodes) (i : ℕ) :
    SizesAfter (_quicklistZiplistMerge shrinks q i) := by
  apply Yields.bind (yields_any _)
  intro a _
  apply Yields.bind (yields_any _)
  intro b _
  apply Yields.bind (yields_any _)
  intro r _
  split
  · exact fun h => h
  next zl kept_a =>
    apply Yields.bind (yields_any _)
    intro len _
    apply Yields.bind (updateZl_right _ len.2)
    intro keep hkeep
    have hrest (nokeep : QuicklistNode) :
        AllSz ((if kept_a then setNode (setNode q i keep) (i+1) nokeep
          else setNode (setNode q i nokeep) (i+1) keep).nodes.eraseIdx
            (if kept_a then i+1 else i)) := by
      cases kept_a with
      | true =>
        have herased : ((q.nodes.set i keep).set (i+1) nokeep).eraseIdx (i+1) =
            (q.nodes.set i keep).eraseIdx (i+1) := List.eraseIdx_set_eq
        simp only [setNode, if_true]
        rw [herased]
        exact (h.set hkeep i).eraseIdx (i+1)
      | false =>
        have herased : ((q.nodes.set i nokeep).set (i+1) keep).eraseIdx i =
            (q.nodes.set (i+1) keep).eraseIdx i := by
          rw [List.set_comm _ _ (by omega), List.eraseIdx_set_eq]
        simp only [setNode, Bool.false_eq_true, if_false]
        rw [herased]
        exact (h.set hkeep (i+1)).eraseIdx i
    apply Yields.bind (__quicklistDelNode_sizes (hrest _))
    intro q' hq'
    exact quicklistCompress_sizes hq' i

theorem mergeIf_sizes (h : AllSz q.nodes) (merge : Bool) (i : ℕ) :
    SizesAfter (if merge then _quicklistZiplistMerge shrinks q i else .ok q) := by
  split
  · exact _quicklistZiplistMerge_sizes h i
  · exact h

theorem _quicklistMergeNodes_sizes (h : AllSz q.nodes) (center : ℕ) :
    SizesAfter (_quicklistMergeNodes shrinks q center) := by
  rw [_quicklistMergeNodes]
  dsimp only
  apply Yields.bind (mergeIf_sizes h _ _)
  intro q₁ hq₁
  apply Yields.bind (mergeIf_sizes hq₁ _ _)
  intro q₂ hq₂
  apply Yields.bind (mergeIf_sizes hq₂ _ _)
  intro q₃ hq₃
  exact mergeIf_sizes hq₃ _ _

theorem _quicklistSplitNode_sizes (node : QuicklistNode) (offset : ℤ) (after : Bool) :
    Yields False (_quicklistSplitNode node offset after) (fun r => SzRight r.1) := by
  apply Yields.bind (yields_any _)
  intro raw _
  apply Yields.bind (yields_any _)
  intro copy _
  apply Yields.bind (yields_any _)
  intro zl _
  apply Yields.bind (yields_any _)
  intro len _
  apply Yields.bind (updateZl_right _ len.2)
  intro node' hnode'
  apply Yields.bind (yields_any _)
  intro new_zl _
  apply Yields.bind (yields_any _)
  intro new_len _
  apply Yields.bind (yields_any _)
  intro new_node _
  exact hnode'

theorem insertInto_sizes (h : AllSz q.nodes) (i : ℕ) (edit : Bytes → Except Fault Bytes) :
    SizesAfter (insertInto shrinks q i edit) := by
  apply Yields.bind (yields_any _)
  intro n _
  apply Yields.bind (yields_any _)
  intro raw _
  apply Yields.bind (yields_any _)
  intro zl _
  apply Yields.bind (updateZl_right _ zl)
  intro n' hn'
  exact (h.set hn' i).modify (keepsZl_recompress shrinks) i

theorem _quicklistInsert_sizes (h : AllSz q.nodes) {entry : QuicklistEntry}
    (hentry : entry.node = none → q.len ≠ 0) (value : Bytes) (after : Bool) :
    SizesAfter (_quicklistInsert shrinks q entry value after) := by
  unfold _quicklistInsert
  cases hnode : entry.node with
  | none =>
    apply Yields.bind (yields_any _)
    intro n _
    have hlinked : SizesAfter (__quicklistInsertNode shrinks q none (addCount n 1) after) := by
      unfold __quicklistInsertNode
      dsimp only
      rw [if_neg (hentry hnode)]
      split
      · exact fun h => h
      · exact h
    apply Yields.bind hlinked
    intro q' hq'
    exact hq'
  | some i =>
    apply Yields.bind (yields_any _)
    intro node _
    dsimp only
    generalize (if i ≥ 1 then q.nodes[i-1]? else none) = prev
    have htotal {x : Except Fault Quicklist} (hx : SizesAfter x) :
        SizesAfter (do
          let q ← x
          .ok (addTotal q 1)) := by
      apply Yields.bind hx
      intro q' hq'
      exact hq'
    apply htotal
    split
    · exact insertInto_sizes h i _
    split
    · exact insertInto_sizes h i _
    split
    · exact insertInto_sizes h (i+1) _
    split
    · exact insertInto_sizes h (i-1) _
    split
    · apply Yields.bind (yields_any _)
      intro n _
      apply Yields.bind (updateZl_right _ _)
      intro n' hn'
      exact __quicklistInsertNode_sizes h (some i) hn' after
    · apply Yields.bind (_quicklistSplitNode_sizes _ _ _)
      intro r hr
      apply Yields.bind (yields_any _)
      intro zl _
      apply Yields.bind (updateZl_right _ zl)
      intro n' hn'
      apply Yields.bind (__quicklistInsertNode_sizes (q := setNode q i r.1) (h.set hr i) (some i) hn'
        after)
      intro q' hq'
      exact _quicklistMergeNodes_sizes hq' _

theorem delRangeLoop_sizes (fuel i : ℕ) (offset : ℤ) (extent : ℕ) (h : AllSz q.nodes) :
    SizesAfter (delRangeLoop shrinks fuel i offset extent q) := by
  induction fuel generalizing i offset extent q with
  | zero => exact fun h => h
  | succ fuel ih =>
    rw [delRangeLoop]
    split
    · exact h
    · apply Yields.bind (yields_any _)
      intro node _
      dsimp only
      split
      · apply Yields.bind (__quicklistDelNode_sizes (h.eraseIdx i))
        intro q' hq'
        exact ih _ _ _ hq'
      · apply Yields.bind (yields_any _)
        intro raw _
        apply Yields.bind (yields_any _)
        intro zl _
        apply Yields.bind (updateZl_right _ zl)
        intro node' hnode'
        have hset : AllSz (q.nodes.set i
            (addCount node' (-(delAmount offset extent node.count).1))) :=
          h.set ((keepsZl_addCount _).right hnode') i
        split
        · apply Yields.bind (__quicklistDelNode_sizes (hset.eraseIdx i))
          intro q' hq'
          exact ih _ _ _ hq'
        · exact ih _ _ _ (hset.modify (keepsZl_recompress shrinks) i)

theorem quicklistDelRange_sizes (h : AllSz q.nodes) (start count : ℤ) :
    Yields False (quicklistDelRange shrinks q start count) (fun r => AllSz r.1.nodes) := by
  rw [quicklistDelRange]
  split
  · exact h
  · apply Yields.bind (quicklistIndex_sizes h start)
    intro r hr
    split
    · exact hr
    · split
      · exact fun h => h
      · apply Yields.bind (delRangeLoop_sizes _ _ _ _ hr)
        intro q' hq'
        exact hq'

theorem quicklistRotate_sizes (h : AllSz q.nodes) : SizesAfter (quicklistRotate shrinks q) := by
  rw [quicklistRotate]
  split
  · exact h
  · apply Yields.bind (yields_any _)
    intro tail _
    apply Yields.bind (yields_any _)
    intro raw _
    apply Yields.bind (yields_any _)
    intro p _
    apply Yields.bind (yields_any _)
    intro value _
    split
    · exact fun h => h
    · apply Yields.bind (quicklistPushHead_sizes h _)
      intro q' hq'
      apply Yields.bind (yields_any _)
      intro tail' _
      apply Yields.bind (yields_any _)
      intro p' _
      split
      · exact fun h => h
      · apply Yields.bind (quicklistDelIndex_sizes hq' _ _)
        intro r hr
        exact hr

theorem quicklistPopCustom_sizes (h : AllSz q.nodes) (w : Where) :
    Yields False (quicklistPopCustom shrinks q w) (fun r => AllSz r.1.nodes) := by
  unfold quicklistPopCustom
  split
  · exact h
  split
  · exact h
  · apply Yields.bind (yields_any _)
    intro node _
    apply Yields.bind (yields_any _)
    intro raw _
    apply Yields.bind (yields_any _)
    intro p _
    apply Yields.bind (yields_any _)
    intro value _
    split
    · apply Yields.bind (quicklistDelIndex_sizes h _ _)
      intro r hr
      exact hr
    · exact h

/-- What callers do with a quicklist; the entries they pass need not be current. -/
inductive Mutation where
  | setFill (fill : ℤ)
  | setCompressDepth (compress : ℤ)
  | push (value : Bytes) (w : Where)
  | pop (w : Where)
  | appendZiplist (zl : Bytes)
  | lookup (idx : ℤ)
  | insert (entry : QuicklistEntry) (value : Bytes) (after : Bool)
  | delRange (start count : ℤ)
  | delEntry (entry : QuicklistEntry)
  | replace (index : ℤ) (data : Bytes)
  | rotate

variable (shrinks) in
def mutate (q : Quicklist) : Mutation → Except Fault Quicklist
  | .setFill fill => .ok (quicklistSetFill q fill)
  | .setCompressDepth compress => .ok (quicklistSetCompressDepth q compress)
  | .push value w => quicklistPush shrinks q value w
  | .pop w => Prod.fst <$> quicklistPopCustom shrinks q w
  | .appendZiplist zl => quicklistAppendZiplist shrinks q zl
  | .lookup idx => Prod.fst <$> quicklistIndex q idx
  | .insert entry value after => _quicklistInsert shrinks q entry value after
  | .delRange start count => Prod.fst <$> quicklistDelRange shrinks q start count
  | .delEntry entry => quicklistDelEntry shrinks q entry
  | .replace index data => Prod.fst <$> quicklistReplaceAtIndex shrinks q index data
  | .rotate => quicklistRotate shrinks q

/-- The mutation does not insert through an entry without node into an empty quicklist. -/
def LinksSized (q : Quicklist) : Mutation → Prop
  | .insert entry _ _ => entry.node = none → q.len ≠ 0
  | _ => True

variable (shrinks) in
inductive Reached (allowed : Quicklist → Mutation → Prop) : Quicklist → Prop
  | new (fill compress : ℤ) : Reached allowed (quicklistNew fill compress)
  | step {q q' : Quicklist} {m : Mutation} : Reached allowed q → allowed q m →
    mutate shrinks q m = .ok q' → Reached allowed q'

theorem map_fst_sizes {β : Type} {x : Except Fault (Quicklist × β)}
    (hx : Yields False x (fun r => AllSz r.1.nodes)) : SizesAfter (Prod.fst <$> x) := by
  cases x with
  | ok r => exact hx
  | error e => exact fun h => h

theorem mutate_sizes (h : AllSz q.nodes) {m : Mutation} (hm : LinksSized q m) :
    SizesAfter (mutate shrinks q m) := by
  cases m with
  | setFill fill => exact h
  | setCompressDepth compress => exact h
  | push value w => exact quicklistPush_sizes h value w
  | pop w => exact map_fst_sizes (quicklistPopCustom_sizes h w)
  | appendZiplist zl => exact quicklistAppendZiplist_sizes h zl
  | lookup idx => exact map_fst_sizes (quicklistIndex_sizes h idx)
  | insert entry value after => exact _quicklistInsert_sizes h hm value after
  | delRange start count => exact map_fst_sizes (quicklistDelRange_sizes h start count)
  | delEntry entry => exact quicklistDelEntry_sizes h entry
  | replace index data => exact map_fst_sizes (quicklistReplaceAtIndex_sizes h index data)
  | rotate => exact quicklistRotate_sizes h

/-- In runs that link no node of unknown size every node has the byte length of its ziplist. -/
theorem reached_sizes (h : Reached shrinks LinksSized q) : ∀ n ∈ q.nodes, SzRight n := by
  induction h with
  | new fill compress => exact fun n hn => absurd hn List.not_mem_nil
  | step _ hm hq ih => exact (mutate_sizes ih hm).of_ok hq

theorem reached_sizes_two_nodes :
    ∃ q, Reached (fun _ => false) LinksSized q ∧ q.nodes.length = 2 ∧
      ∀ n ∈ q.nodes, SzRight n := by
  have h0 : Reached (fun _ => false) LinksSized (quicklistNew 1 0) := Reached.new 1 0
  have h1 := h0.step (m := .push [97] .tail) trivial rfl
  have h2 := h1.step (m := .push [98] .tail) trivial rfl
  exact ⟨_, h2, rfl, reached_sizes h2⟩

/-- A value that goes into an empty quicklist through an entry without node gets a node whose size
stays 0. -/
theorem insert_noEntry_size_zero :
    ∃ q n, Reached (fun _ => false) (fun _ _ => True) q ∧ q.nodes = [n] ∧
      n.compressed = false ∧ n.sz = 0 ∧ n.zl.length = 14 ∧ ¬ SzRight n := by
  have h0 : Reached (fun _ => false) (fun _ _ => True) (quicklistNew (-2) 0) := Reached.new (-2) 0
  have h1 := h0.step (m := .insert noEntry [97] false) trivial rfl
  refine ⟨_, _, h1, rfl, rfl, rfl, rfl, ?_⟩
  intro h
  exact absurd (Except.ok.inj h) (by decide)

end Sizes

end RedisCore.Ql
