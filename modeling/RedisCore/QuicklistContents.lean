import RedisCore.QuicklistSizes

set_option linter.style.nameCheck false

namespace RedisCore.Ql
open List (length_append length_cons length_map map_nil)

open Ziplist

def plain (n : QuicklistNode) : QuicklistNode := { n with compressed := false, recompress := false }

def KeepsPlain (f : QuicklistNode → QuicklistNode) : Prop := ∀ n, plain (f n) = plain n

structure SamePlain (q q' : Quicklist) : Prop where
  nodes : q'.nodes.map plain = q.nodes.map plain
  count : q'.count = q.count
  len : q'.len = q.len
  fill : q'.fill = q.fill
  compress : q'.compress = q.compress

section Compression

variable {shrinks : Bytes → Bool} {q q' q'' : Quicklist} {f : QuicklistNode → QuicklistNode}

theorem SamePlain.refl (q : Quicklist) : SamePlain q q := ⟨rfl, rfl, rfl, rfl, rfl⟩

theorem SamePlain.trans (h : SamePlain q q') (h' : SamePlain q' q'') : SamePlain q q'' :=
  ⟨h'.nodes.trans h.nodes, h'.count.trans h.count, h'.len.trans h.len, h'.fill.trans h.fill,
    h'.compress.trans h.compress⟩

theorem SamePlain.length (h : SamePlain q q') : q'.nodes.length = q.nodes.length := by
  have hlen := congrArg List.length h.nodes
  rwa [length_map, length_map] at hlen

theorem keepsPlain_decompress : KeepsPlain quicklistDecompressNode := fun _ => rfl

theorem keepsPlain_decompressForUse : KeepsPlain quicklistDecompressNodeForUse := by
  intro n
  rw [quicklistDecompressNodeForUse]
  split <;> rfl

theorem keepsPlain_compress : KeepsPlain (quicklistCompressNode shrinks) := by
  intro n
  rw [quicklistCompressNode, __quicklistCompressNode]
  split
  · rfl
  · split
    · rfl
    · split <;> rfl

theorem keepsPlain_recompress :
    KeepsPlain (fun n => if n.recompress then quicklistCompressNode shrinks n else n) := by
  intro n
  dsimp only
  split
  · exact keepsPlain_compress n
  · rfl

theorem map_plain_modify (hf : KeepsPlain f) (nodes : List QuicklistNode) (i : ℕ) :
    (nodes.modify i f).map plain = nodes.map plain := by
  apply List.ext_getElem?
  intro j
  rw [List.getElem?_map, List.getElem?_map, List.getElem?_modify]
  cases nodes[j]? with
  | none => rfl
  | some n =>
    by_cases hij : i = j
    · simp [hij, hf n]
    · simp [hij]

theorem samePlain_modifyNode (hf : KeepsPlain f) (q : Quicklist) (i : ℕ) :
    SamePlain q (modifyNode q i f) :=
  ⟨map_plain_modify hf q.nodes i, rfl, rfl, rfl, rfl⟩

theorem samePlain_modifyPtr (hf : KeepsPlain f) (q : Quicklist) (p : Option ℕ) :
    SamePlain q (modifyPtr q p f) := by
  cases p with
  | none => exact SamePlain.refl q
  | some i => exact samePlain_modifyNode hf q i

theorem compressLoop_plain (node : Option ℕ) (rounds : ℕ) (forward reverse : Option ℕ)
    (in_depth : Bool) (q : Quicklist)
    (hforward : 0 < rounds → ∃ f, forward = some f ∧ f+rounds ≤ q.nodes.length)
    (hreverse : 0 < rounds → ∃ r, reverse = some r ∧ rounds ≤ r+1) :
    ∃ r, compressLoop node rounds forward reverse in_depth q = .ok r ∧ SamePlain q r.1 := by
  induction rounds generalizing forward reverse in_depth q with
  | zero => exact ⟨_, rfl, SamePlain.refl q⟩
  | succ rounds ih =>
    obtain ⟨f, rfl, hf⟩ := hforward (by omega)
    obtain ⟨r, rfl, hr⟩ := hreverse (by omega)
    have hends := (samePlain_modifyPtr keepsPlain_decompress q (some f)).trans
      (samePlain_modifyPtr keepsPlain_decompress _ (some r))
    unfold compressLoop
    dsimp only
    by_cases hmeet : some f = some r
    · rw [if_pos hmeet]
      exact ⟨_, rfl, hends⟩
    · rw [if_neg hmeet]
      generalize modifyPtr (modifyPtr q (some f) quicklistDecompressNode) (some r)
        quicklistDecompressNode = q₁ at hends ⊢
      have hlen := hends.length
      have hnext (hpos : 0 < rounds) : ∃ f', nextNode q₁ f = some f' ∧
          f'+rounds ≤ q₁.nodes.length := by
        refine ⟨f+1, ?_, by omega⟩
        rw [nextNode, if_pos (by omega)]
      have hprev (hpos : 0 < rounds) : ∃ r', prevNode r = some r' ∧ rounds ≤ r'+1 := by
        refine ⟨r-1, ?_, by omega⟩
        rw [prevNode, if_neg (by omega)]
      obtain ⟨res, hres, hsame⟩ := ih _ _ (in_depth || some f == node || some r == node) q₁ hnext
        hprev
      exact ⟨res, hres, hends.trans hsame⟩

theorem __quicklistCompress_plain (h : q.len ≤ q.nodes.length+1) (node : Option ℕ) :
    ∃ q', __quicklistCompress shrinks q node = .ok q' ∧ SamePlain q q' := by
  rw [__quicklistCompress]
  by_cases hshort : q.compress = 0 ∨ q.len < q.compress*2
  · rw [if_pos hshort]
    exact ⟨q, rfl, SamePlain.refl q⟩
  · have hsome : q.nodes.isEmpty = false := by
      rw [List.isEmpty_eq_false_iff, ← List.length_pos_iff]
      omega
    obtain ⟨r, hloop, hsame⟩ := compressLoop_plain node q.compress (some 0)
      (some (q.nodes.length-1)) false q (fun _ => ⟨0, rfl, by omega⟩) (fun _ => ⟨_, rfl, by omega⟩)
    rw [if_neg hshort, hsome]
    simp only [Bool.false_eq_true, if_false]
    rw [hloop, ok_bind]
    obtain ⟨q₁, rest⟩ := r
    cases rest with
    | none => exact ⟨q₁, rfl, hsame⟩
    | some p =>
      obtain ⟨forward, reverse, in_depth⟩ := p
      have hnode : SamePlain q (if in_depth then q₁
          else modifyPtr q₁ node (quicklistCompressNode shrinks)) := by
        split
        · exact hsame
        · exact hsame.trans (samePlain_modifyPtr keepsPlain_compress q₁ node)
      dsimp only
      generalize (if in_depth then q₁ else modifyPtr q₁ node (quicklistCompressNode shrinks)) = q₂
        at hnode ⊢
      split
      · exact ⟨_, rfl, (hnode.trans (samePlain_modifyPtr keepsPlain_compress q₂ forward)).trans
          (samePlain_modifyPtr keepsPlain_compress _ reverse)⟩
      · exact ⟨_, rfl, hnode⟩

theorem quicklistCompress_plain (h : q.len ≤ q.nodes.length+1) {i : ℕ} (hi : i < q.nodes.length) :
    ∃ q', quicklistCompress shrinks q i = .ok q' ∧ SamePlain q q' := by
  rw [quicklistCompress, nodeAt, List.getElem?_eq_getElem hi]
  dsimp only
  rw [ok_bind]
  split
  · exact ⟨_, rfl, samePlain_modifyNode keepsPlain_compress q i⟩
  · exact __quicklistCompress_plain h (some i)

theorem quicklistRecompressOnly_plain (q : Quicklist) (i : ℕ) :
    SamePlain q (quicklistRecompressOnly shrinks q i) :=
  samePlain_modifyNode keepsPlain_recompress q i

end Compression

structure NodeOk (n : QuicklistNode) (es : List Entry) : Prop where
  parses : Parses n.zl es
  count : n.count = es.length
  narrow : es.length < 2^16
  nonempty : es ≠ []

structure Sound (q : Quicklist) (ess : List (List Entry)) : Prop where
  nodes : List.Forall₂ NodeOk q.nodes ess
  count : q.count = ess.flatten.length
  fits : q.count < 2^64
  len : q.len = q.nodes.length

def elements (ess : List (List Entry)) : List Bytes := texts ess.flatten

theorem elements_append (A B : List (List Entry)) :
    elements (A ++ B) = elements A ++ elements B := by
  rw [elements, elements, elements, List.flatten_append, texts, List.map_append, ← texts, ← texts]

theorem elements_cons (es : List Entry) (B : List (List Entry)) :
    elements (es :: B) = texts es ++ elements B := by
  rw [elements, elements, List.flatten_cons, texts, List.map_append, ← texts, ← texts]

theorem elements_length (ess : List (List Entry)) : (elements ess).length = ess.flatten.length :=
  texts_length _

section Contents

variable {q q' : Quicklist} {n m : QuicklistNode} {es : List Entry} {A B ess : List (List Entry)}

theorem NodeOk.of_plain (h : NodeOk n es) (hm : plain m = plain n) : NodeOk m es := by
  have hzl : (plain m).zl = (plain n).zl := congrArg QuicklistNode.zl hm
  have hcount : (plain m).count = (plain n).count := congrArg QuicklistNode.count hm
  exact ⟨(show m.zl = n.zl from hzl) ▸ h.parses, hcount.trans h.count, h.narrow, h.nonempty⟩

theorem forall₂_of_plain {R : QuicklistNode → List Entry → Prop}
    (hR : ∀ n m es, R n es → plain m = plain n → R m es) {l l' : List QuicklistNode}
    (h : List.Forall₂ R l ess) (hl : l'.map plain = l.map plain) : List.Forall₂ R l' ess := by
  induction h generalizing l' with
  | nil =>
    rw [map_nil, List.map_eq_nil_iff] at hl
    rw [hl]
    exact List.Forall₂.nil
  | cons hn _ ih =>
    obtain ⟨m, l'', rfl, hm, hl''⟩ := List.map_eq_cons_iff.mp hl
    exact List.Forall₂.cons (hR _ _ _ hn hm) (ih hl'')

theorem nodesOk_of_plain {l l' : List QuicklistNode} (h : List.Forall₂ NodeOk l ess)
    (hl : l'.map plain = l.map plain) : List.Forall₂ NodeOk l' ess :=
  forall₂_of_plain (fun _ _ _ hn hm => hn.of_plain hm) h hl

theorem Sound.of_samePlain (h : Sound q ess) (hs : SamePlain q q') : Sound q' ess :=
  ⟨nodesOk_of_plain h.nodes hs.nodes, hs.count.trans h.count, hs.count.trans_lt h.fits,
    by rw [hs.len, h.len, hs.length]⟩

theorem counts_sum {l : List QuicklistNode} (h : List.Forall₂ NodeOk l ess) :
    (l.map QuicklistNode.count).sum = ess.flatten.length := by
  induction h with
  | nil => rfl
  | cons hn _ ih => simp [hn.count, ih]

theorem forall₂_split {α β : Type} {R : α → β → Prop} {L : List α} {A B : List β} {b : β}
    (h : List.Forall₂ R L (A ++ b :: B)) : ∃ l a r, L = l ++ a :: r ∧ l.length = A.length ∧
      List.Forall₂ R l A ∧ R a b ∧ List.Forall₂ R r B := by
  have hl := List.forall₂_take_append _ _ _ h
  have hr := List.forall₂_drop_append _ _ _ h
  obtain ⟨a, r, ha, hrest, hdrop⟩ := List.forall₂_cons_right_iff.mp hr
  refine ⟨L.take A.length, a, r, ?_, hl.length_eq, hl, ha, hrest⟩
  rw [← hdrop, List.take_append_drop]

theorem Sound.split (h : Sound q (A ++ es :: B)) : ∃ l n r, q.nodes = l ++ n :: r ∧
    l.length = A.length ∧ List.Forall₂ NodeOk l A ∧ NodeOk n es ∧ List.Forall₂ NodeOk r B :=
  forall₂_split h.nodes

end Contents

section Middle

variable {q : Quicklist} {l r : List QuicklistNode} {n : QuicklistNode}

theorem nodeAt_mid (h : q.nodes = l ++ n :: r) : nodeAt q l.length = .ok n := by
  rw [nodeAt, h, List.getElem?_append_right le_rfl, Nat.sub_self]
  rfl

theorem setNode_mid (h : q.nodes = l ++ n :: r) (m : QuicklistNode) :
    (setNode q l.length m).nodes = l ++ m :: r := by
  rw [setNode, h]
  dsimp only
  rw [List.set_append_right _ _ le_rfl, Nat.sub_self]
  rfl

theorem eraseIdx_mid (h : q.nodes = l ++ n :: r) : q.nodes.eraseIdx l.length = l ++ r := by
  rw [h, List.eraseIdx_append_of_length_le le_rfl, Nat.sub_self]
  rfl

theorem modifyNode_mid (h : q.nodes = l ++ n :: r) (f : QuicklistNode → QuicklistNode) :
    (modifyNode q l.length f).nodes = l ++ f n :: r := by
  rw [modifyNode, h]
  dsimp only
  rw [List.modify_eq_take_cons_drop (by simp)]
  simp

theorem insertIdx_mid (h : q.nodes = l ++ n :: r) (m : QuicklistNode) (after : Bool) :
    q.nodes.take (if after then l.length+1 else l.length) ++
        m :: q.nodes.drop (if after then l.length+1 else l.length) =
      l ++ (if after then [n, m] else [m, n]) ++ r := by
  cases after with
  | true =>
    have htake : (l ++ n :: r).take (l.length+1) = l ++ [n] := by
      rw [List.take_length_add_append]
      rfl
    have hdrop : (l ++ n :: r).drop (l.length+1) = r := by
      rw [List.drop_length_add_append]
      rfl
    rw [h, if_pos rfl, if_pos rfl, htake, hdrop]
    simp
  | false =>
    rw [h, if_neg Bool.false_ne_true, if_neg Bool.false_ne_true, List.take_left, List.drop_left]
    simp

variable {shrinks : Bytes → Bool}

theorem __quicklistDelNode_plain (h : q.nodes = l ++ n :: r) (hlen : q.len = q.nodes.length) :
    ∃ q', __quicklistDelNode shrinks q l.length = .ok q' ∧
      q'.nodes.map plain = (l ++ r).map plain ∧ q'.len = q'.nodes.length ∧
      q'.count = toUnsigned 64 (q.count+-n.count) := by
  have herase := eraseIdx_mid h
  have hshort : q.len = (l ++ r).length+1 := by
    rw [hlen, h, length_append, length_append, length_cons]
    omega
  obtain ⟨q', hrun, hsame⟩ := (@__quicklistCompress_plain shrinks)
    (q := { q with nodes := q.nodes.eraseIdx l.length }) (by dsimp only; rw [herase, hshort]) none
  have hnodes : q'.nodes.map plain = (q.nodes.eraseIdx l.length).map plain := hsame.nodes
  have hlength := congrArg List.length hnodes
  rw [length_map, length_map, herase] at hlength
  rw [__quicklistDelNode, nodeAt_mid h, ok_bind, hrun, ok_bind]
  refine ⟨_, rfl, ?_, ?_, ?_⟩
  · rw [← herase]
    exact hnodes
  · change q'.len-1 = q'.nodes.length
    have hkept : q'.len = q.len := hsame.len
    rw [hkept, hshort, hlength]
    rfl
  · change toUnsigned 64 ((q'.count : ℤ)+-n.count) = _
    have hkept : q'.count = q.count := hsame.count
    rw [hkept]

theorem __quicklistInsertNode_plain (h : q.nodes = l ++ n :: r) (hlen : q.len = q.nodes.length)
    (m : QuicklistNode) (after : Bool) :
    ∃ q', __quicklistInsertNode shrinks q (some l.length) m after = .ok q' ∧
      q'.nodes.map plain = (l ++ (if after then [n, m] else [m, n]) ++ r).map plain ∧
      q'.len = q'.nodes.length := by
  have hlength : (l ++ (if after then [n, m] else [m, n]) ++ r).length = q.len+1 := by
    rw [hlen, h]
    cases after <;> simp <;> omega
  have hpos : (if after then l.length else l.length+1) <
      (l ++ (if after then [n, m] else [m, n]) ++ r).length := by
    cases after <;> simp
  have hinsert := insertIdx_mid h m after
  obtain ⟨q', hrun, hsame⟩ := (@quicklistCompress_plain shrinks)
    (q := { q with nodes := l ++ (if after then [n, m] else [m, n]) ++ r })
    (by dsimp only; rw [hlength]; omega) hpos
  unfold __quicklistInsertNode
  dsimp only
  rw [nodeAt_mid h, ok_bind, hinsert, hrun, ok_bind]
  refine ⟨_, rfl, hsame.nodes, ?_⟩
  change q'.len+1 = q'.nodes.length
  have hkept : q'.len = q.len := hsame.len
  rw [hkept, hsame.length, hlength]

end Middle

theorem exists_split_flatten {α : Type} (ls : List (List α)) {s : ℕ} (hs : s < ls.flatten.length) :
    ∃ A l B o, ls = A ++ l :: B ∧ s = A.flatten.length+o ∧ o < l.length := by
  induction ls generalizing s with
  | nil => exact absurd hs (Nat.not_lt_zero s)
  | cons l ls ih =>
    by_cases hlt : s < l.length
    · exact ⟨[], l, ls, s, rfl, by simp, hlt⟩
    · rw [List.flatten_cons, length_append] at hs
      obtain ⟨A, l', B, o, rfl, hpos, ho⟩ := ih (s := s-l.length) (by omega)
      refine ⟨l :: A, l', B, o, rfl, ?_, ho⟩
      rw [List.flatten_cons, length_append]
      omega

theorem findNode_mid {index : ℕ} {l r : List QuicklistNode} {n : QuicklistNode} (i accum : ℕ)
    (hlo : accum+(l.map QuicklistNode.count).sum ≤ index)
    (hhi : index < accum+(l.map QuicklistNode.count).sum+n.count) :
    findNode index (l ++ n :: r) i accum =
      some (i+l.length, accum+(l.map QuicklistNode.count).sum) := by
  induction l generalizing i accum with
  | nil =>
    rw [map_nil, List.sum_nil, Nat.add_zero] at hhi
    rw [List.nil_append, findNode, if_pos hhi]
    rfl
  | cons m l ih =>
    rw [List.map_cons, List.sum_cons] at hlo hhi ⊢
    rw [List.cons_append, findNode, if_neg (by omega), ih _ _ (by omega) (by omega),
      length_cons, Nat.add_assoc accum, Nat.add_assoc i, Nat.add_comm 1]

section Lookup

variable {q : Quicklist} {es : List Entry} {A B ess : List (List Entry)}

theorem Parses.ziplistIndex {zl : Bytes} (h : Parses zl es) (index : ℤ) : ziplistIndex zl index =
    .ok ((indexPos es.length index).map (entryPos es)) := by
  obtain ⟨cnt, -, rfl⟩ := h.layout
  exact ziplistIndex_blob cnt h.entries h.size index

def entryAt (i : ℕ) (es : List Entry) (j : ℕ) (value : ZlValue) (offset : ℤ) : QuicklistEntry :=
  { node := some i, zi := some (entryPos es j), value := some value, offset := offset }

theorem decompressedForUse (n : QuicklistNode) :
    (quicklistDecompressNodeForUse n).compressed = false := by
  rw [quicklistDecompressNodeForUse]
  split
  · rfl
  next h => exact Bool.eq_false_of_not_eq_true h

theorem decompressedForUse_count (n : QuicklistNode) :
    (quicklistDecompressNodeForUse n).count = n.count := by
  rw [quicklistDecompressNodeForUse]
  split <;> rfl

theorem rawZl_decompressedForUse (n : QuicklistNode) :
    rawZl (quicklistDecompressNodeForUse n) = .ok n.zl := by
  rw [rawZl, decompressedForUse]
  have hzl : (quicklistDecompressNodeForUse n).zl = n.zl := (keepsZl_decompressForUse n).1
  rw [if_neg Bool.false_ne_true, hzl]

theorem open_entry (h : Sound q (A ++ es :: B)) {offset : ℤ} {j : ℕ} (hj : j < es.length)
    (hpos : indexPos es.length offset = some j) :
    ∃ v : ZlValue, v.text = es[j].text ∧ (do
      let n ← nodeAt (modifyNode q A.length quicklistDecompressNodeForUse) A.length
      let zi ← ziplistIndex (← rawZl n) offset
      let value ← ziplistGet n.zl zi
      .ok (modifyNode q A.length quicklistDecompressNodeForUse, some
        { node := some A.length, zi := zi, value := value, offset := offset : QuicklistEntry })) =
      (.ok (modifyNode q A.length quicklistDecompressNodeForUse,
        some (entryAt A.length es j v offset)) : Except Fault (Quicklist × Option QuicklistEntry)) := by
  obtain ⟨l, n, r, hnodes, hlen, -, hn, -⟩ := h.split
  obtain ⟨v, hget, hv⟩ := ziplistGet_at hn.parses hj
  have hzl : (quicklistDecompressNodeForUse n).zl = n.zl := (keepsZl_decompressForUse n).1
  refine ⟨v, hv, ?_⟩
  rw [← hlen, nodeAt_mid (modifyNode_mid hnodes quicklistDecompressNodeForUse), ok_bind,
    rawZl_decompressedForUse, ok_bind, Parses.ziplistIndex hn.parses, ok_bind, hpos,
    hzl]
  dsimp only [Option.map_some]
  rw [hget, ok_bind]
  rfl

theorem quicklistIndex_forward (h : Sound q (A ++ es :: B)) {o : ℕ} (ho : o < es.length) :
    ∃ v : ZlValue, v.text = es[o].text ∧ quicklistIndex q (A.flatten.length+o : ℕ) =
      .ok (modifyNode q A.length quicklistDecompressNodeForUse,
        some (entryAt A.length es o v o)) := by
  obtain ⟨l, n, r, hnodes, hlen, hl, hn, -⟩ := h.split
  have hpos : indexPos es.length (o : ℤ) = some o := by
    rw [indexPos, if_pos ⟨by omega, by exact_mod_cast ho⟩, Int.toNat_natCast]
  obtain ⟨v, hv, hopen⟩ := open_entry h ho hpos
  refine ⟨v, hv, ?_⟩
  have hsum := counts_sum hl
  have hcount := h.count
  rw [List.flatten_append, List.flatten_cons, length_append, length_append] at hcount
  have hfind : findNode (A.flatten.length+o) q.nodes 0 0 = some (A.length, A.flatten.length) := by
    rw [hnodes, findNode_mid 0 0 (by omega) (by rw [hn.count]; omega), hsum, hlen, Nat.zero_add,
      Nat.zero_add]
  rw [quicklistIndex]
  have hforward : decide (0 ≤ ((A.flatten.length+o : ℕ) : ℤ)) = true := by
    rw [decide_eq_true_iff]
    omega
  rw [hforward]
  simp only [if_true, Int.toNat_natCast]
  rw [if_neg (by omega), hfind]
  dsimp only
  have hoffset : ((A.flatten.length+o : ℕ) : ℤ)-A.flatten.length = o := by omega
  rw [hoffset]
  exact hopen

theorem quicklistIndex_backward (h : Sound q (A ++ es :: B)) {k : ℕ} (hk : 0 < k)
    (hle : k ≤ es.length) :
    ∃ v : ZlValue, v.text = (es.get ⟨es.length-k, by omega⟩).text ∧
      quicklistIndex q (-((B.flatten.length+k : ℕ) : ℤ)) =
        .ok (modifyNode q A.length quicklistDecompressNodeForUse,
          some (entryAt A.length es (es.length-k) v (-(k : ℤ)))) := by
  obtain ⟨l, n, r, hnodes, hlen, -, hn, hr⟩ := h.split
  have hpos : indexPos es.length (-(k : ℤ)) = some (es.length-k) := by
    rw [indexPos, if_neg (by omega), if_pos ⟨by omega, by omega⟩]
    congr 1
    omega
  obtain ⟨v, hv, hopen⟩ := open_entry h (show es.length-k < es.length by omega) hpos
  refine ⟨v, hv, ?_⟩
  have hsum : (r.reverse.map QuicklistNode.count).sum = B.flatten.length := by
    rw [List.map_reverse, List.sum_reverse, counts_sum hr]
  have hcount := h.count
  rw [List.flatten_append, List.flatten_cons, length_append, length_append] at hcount
  have hfind : findNode (B.flatten.length+k-1) q.nodes.reverse 0 0 =
      some (r.length, B.flatten.length) := by
    rw [hnodes, List.reverse_append, List.reverse_cons, List.append_assoc, List.singleton_append,
      findNode_mid 0 0 (by omega) (by rw [hn.count]; omega), hsum, List.length_reverse,
      Nat.zero_add, Nat.zero_add]
  rw [quicklistIndex]
  have hforward : decide (0 ≤ -((B.flatten.length+k : ℕ) : ℤ)) = false := by
    rw [decide_eq_false_iff_not]
    omega
  have hindex : (-(-((B.flatten.length+k : ℕ) : ℤ))-1).toNat = B.flatten.length+k-1 := by omega
  rw [hforward]
  simp only [Bool.false_eq_true, if_false]
  rw [hindex, if_neg (by omega), hfind]
  dsimp only
  have hnode : q.nodes.length-1-r.length = A.length := by
    rw [hnodes, length_append, length_cons]
    omega
  have hoffset : ((B.flatten.length : ℕ) : ℤ)-(B.flatten.length+k-1 : ℕ)-1 = -(k : ℤ) := by omega
  rw [hnode, hoffset]
  exact hopen

theorem quicklistIndex_none {idx : ℤ} (h : indexPos q.count idx = none) :
    quicklistIndex q idx = .ok (q, none) := by
  rw [indexPos] at h
  split_ifs at h with hfront hback
  rw [quicklistIndex]
  dsimp only
  rw [if_pos]
  by_cases hneg : 0 ≤ idx
  · rw [decide_eq_true hneg, if_pos rfl]
    omega
  · rw [decide_eq_false hneg, if_neg Bool.false_ne_true]
    omega

end Lookup

end RedisCore.Ql
