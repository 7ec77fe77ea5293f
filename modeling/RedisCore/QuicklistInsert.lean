import RedisCore.QuicklistDelRange

set_option linter.style.nameCheck false

namespace RedisCore.Ql
open List (append_assoc append_nil length_append length_cons length_singleton rel_append)
open Bool (false_eq_true)

open Ziplist

structure HoldsEntries (n : QuicklistNode) (es : List Entry) : Prop where
  parses : Parses n.zl es
  nonempty : es ≠ []

structure Holds (q : Quicklist) (ess : List (List Entry)) : Prop where
  nodes : List.Forall₂ HoldsEntries q.nodes ess
  len : q.len = q.nodes.length

section Holding

variable {shrinks : Bytes → Bool} {q q' : Quicklist} {n m : QuicklistNode} {es fs : List Entry}
  {A B ess : List (List Entry)}

theorem Sound.holds (h : Sound q ess) : Holds q ess :=
  ⟨h.nodes.imp (fun _ _ hn => ⟨hn.parses, hn.nonempty⟩), h.len⟩

theorem HoldsEntries.of_plain (h : HoldsEntries n es) (hm : plain m = plain n) :
    HoldsEntries m es := by
  have hzl : (plain m).zl = (plain n).zl := congrArg QuicklistNode.zl hm
  exact ⟨(show m.zl = n.zl from hzl) ▸ h.parses, h.nonempty⟩

theorem Holds.of_plain {L : List QuicklistNode} (h : List.Forall₂ HoldsEntries L ess)
    (hnodes : q.nodes.map plain = L.map plain) (hlen : q.len = q.nodes.length) : Holds q ess :=
  ⟨forall₂_of_plain (fun _ _ _ hn hm => hn.of_plain hm) h hnodes, hlen⟩

theorem Holds.of_samePlain (h : Holds q ess) (hs : SamePlain q q') : Holds q' ess :=
  Holds.of_plain h.nodes hs.nodes (by rw [hs.len, h.len, hs.length])

theorem Holds.addTotal (h : Holds q ess) (d : ℤ) : Holds (addTotal q d) ess := ⟨h.nodes, h.len⟩

theorem Holds.setNode (h : Holds q (A ++ es :: B)) (hm : HoldsEntries m fs) :
    Holds (setNode q A.length m) (A ++ fs :: B) := by
  obtain ⟨l, n, r, hnodes, hlen, hl, -, hr⟩ := forall₂_split h.nodes
  have hset := setNode_mid hnodes m
  rw [hlen] at hset
  refine ⟨?_, ?_⟩
  · rw [hset]
    exact rel_append hl (List.Forall₂.cons hm hr)
  · change q.len = (Ql.setNode q A.length m).nodes.length
    rw [h.len, hset, hnodes]
    simp

theorem insertInto_holds (h : Holds q (A ++ es :: B)) {edit : Bytes → Except Fault Bytes}
    {vs : List Bytes} (hvs : vs ≠ [])
    (hedit : ∀ zl, Parses zl es → ReturnsOr .sizeWrap (edit zl) (fun zl' =>
      ∃ es', Parses zl' es' ∧ texts es' = vs)) :
    ReturnsOr .sizeWrap (insertInto shrinks q A.length edit) (fun q' =>
      ∃ es', Holds q' (A ++ es' :: B) ∧ texts es' = vs) := by
  obtain ⟨l, n, r, hnodes, hlen, -, hn, -⟩ := forall₂_split h.nodes
  have hnode := nodeAt_mid hnodes
  rw [hlen] at hnode
  rw [insertInto, hnode, ok_bind]
  dsimp only
  rw [rawZl_decompressedForUse, ok_bind]
  apply (hedit n.zl hn.parses).bind
  rintro zl' ⟨es', hparse, htexts⟩
  rw [updateZl_parses hparse, ok_bind]
  have hne : es' ≠ [] := by
    rintro rfl
    exact hvs htexts.symm
  have hset := h.setNode (m := { addCount (quicklistDecompressNodeForUse n) 1 with
    zl := zl', sz := blobLen es' }) ⟨hparse, hne⟩
  exact ⟨es', hset.of_samePlain (quicklistRecompressOnly_plain _ _), htexts⟩

theorem __quicklistDelNode_holds {l r : List QuicklistNode} (hnodes : q.nodes = l ++ n :: r)
    (hlen : q.len = q.nodes.length) (hl : List.Forall₂ HoldsEntries l A)
    (hr : List.Forall₂ HoldsEntries r B) :
    ∃ q', __quicklistDelNode shrinks q l.length = .ok q' ∧ Holds q' (A ++ B) := by
  obtain ⟨q', hrun, hplain, hlen', -⟩ :=
    (@__quicklistDelNode_plain _ _ _ _ shrinks) hnodes hlen
  exact ⟨q', hrun, Holds.of_plain (rel_append hl hr) hplain hlen'⟩

theorem __quicklistInsertNode_holds (h : Holds q (A ++ es :: B)) (hm : HoldsEntries m fs)
    (after : Bool) :
    ∃ q', __quicklistInsertNode shrinks q (some A.length) m after = .ok q' ∧
      Holds q' (A ++ (if after then [es, fs] else [fs, es]) ++ B) := by
  obtain ⟨l, n, r, hnodes, hlen, hl, hn, hr⟩ := forall₂_split h.nodes
  obtain ⟨q', hrun, hplain, hlen'⟩ :=
    (@__quicklistInsertNode_plain _ _ _ _ shrinks) hnodes h.len m after
  have hpair : List.Forall₂ HoldsEntries (if after then [n, m] else [m, n])
      (if after then [es, fs] else [fs, es]) := by
    cases after with
    | true => exact List.Forall₂.cons hn (List.Forall₂.cons hm List.Forall₂.nil)
    | false => exact List.Forall₂.cons hm (List.Forall₂.cons hn List.Forall₂.nil)
  rw [← hlen]
  exact ⟨q', hrun, Holds.of_plain (rel_append (rel_append hl hpair) hr) hplain hlen'⟩

theorem set_pair {α : Type} (l r : List α) (a b x y : α) :
    ((l ++ a :: b :: r).set l.length x).set (l.length+1) y = l ++ x :: y :: r := by
  have hone : l.length+1-l.length = 1 := by omega
  rw [List.set_append_right _ _ le_rfl, Nat.sub_self, List.set_append_right _ _ (Nat.le_succ _),
    Nat.succ_eq_add_one, hone]
  rfl

theorem _quicklistZiplistMerge_holds (h : Holds q (A ++ es :: fs :: B)) :
    ReturnsOr .sizeWrap (_quicklistZiplistMerge shrinks q A.length) (fun q' =>
      ∃ gs, Holds q' (A ++ gs :: B) ∧ texts gs = texts es ++ texts fs) := by
  obtain ⟨l, a, r, hnodes, hlen, hl, ha, hr⟩ := forall₂_split h.nodes
  obtain ⟨b, r, hb, hrest, rfl⟩ := List.forall₂_cons_right_iff.mp hr
  have hnodes' : q.nodes = (l ++ [a]) ++ b :: r := by rw [hnodes, append_assoc]; rfl
  have hsecond := nodeAt_mid hnodes'
  rw [length_append, length_singleton] at hsecond
  rw [_quicklistZiplistMerge, ← hlen, nodeAt_mid hnodes, ok_bind, hsecond, ok_bind]
  dsimp only
  apply (ziplistMerge_parses ha.parses hb.parses (fun hnil => absurd hnil hb.nonempty)).bind
  rintro res ⟨zl, kept_a, gs, rfl, hparse, htexts⟩
  obtain ⟨zl', hlenrun, hparse'⟩ := ziplistLen_parses hparse
  have hne : gs ≠ [] := by
    rintro rfl
    obtain ⟨e, es', rfl⟩ := List.exists_cons_of_ne_nil ha.nonempty
    cases htexts
  dsimp only
  rw [hlenrun, ok_bind]
  dsimp only
  rw [updateZl_parses hparse', ok_bind]
  obtain ⟨keep, hkeep⟩ : ∃ keep : QuicklistNode, keep =
      { (if kept_a then quicklistDecompressNode a else quicklistDecompressNode b) with
        zl := zl', sz := blobLen gs, count := gs.length%2^16 } := ⟨_, rfl⟩
  obtain ⟨nokeep, hnokeep⟩ : ∃ nokeep : QuicklistNode, nokeep =
      { (if kept_a then quicklistDecompressNode b else quicklistDecompressNode a) with
        count := 0 } := ⟨_, rfl⟩
  have hholds : HoldsEntries keep gs := by
    rw [hkeep]
    exact ⟨hparse', hne⟩
  rw [← hkeep, ← hnokeep]
  have hset : ((q.nodes.set l.length keep).set (l.length+1) nokeep) =
      (l ++ [keep]) ++ nokeep :: r := by
    rw [hnodes, set_pair, append_assoc]
    rfl
  have hset' : ((q.nodes.set l.length nokeep).set (l.length+1) keep) =
      l ++ nokeep :: keep :: r := by
    rw [hnodes, set_pair]
  have hcount : q.len = l.length+1+r.length+1 := by
    rw [h.len, hnodes, length_append, length_cons, length_cons]
    omega
  obtain ⟨q', hrun, hq'⟩ : ∃ q', __quicklistDelNode shrinks
      (if kept_a then setNode (setNode q l.length keep) (l.length+1) nokeep
        else setNode (setNode q l.length nokeep) (l.length+1) keep)
      (if kept_a then l.length+1 else l.length) = .ok q' ∧ Holds q' (A ++ gs :: B) := by
    cases kept_a with
    | true =>
      obtain ⟨q', hrun, hq'⟩ := (@__quicklistDelNode_holds shrinks)
        (q := setNode (setNode q l.length keep) (l.length+1) nokeep) hset
        (by
          change q.len = ((q.nodes.set l.length keep).set (l.length+1) nokeep).length
          rw [hset, hcount]
          simp
          omega)
        (rel_append hl (List.Forall₂.cons hholds List.Forall₂.nil)) hrest
      rw [length_append, length_singleton] at hrun
      rw [append_assoc] at hq'
      exact ⟨q', hrun, hq'⟩
    | false =>
      exact (@__quicklistDelNode_holds shrinks)
        (q := setNode (setNode q l.length nokeep) (l.length+1) keep) hset'
        (by
          change q.len = ((q.nodes.set l.length nokeep).set (l.length+1) keep).length
          rw [hset', hcount]
          simp
          omega) hl (List.Forall₂.cons hholds hrest)
  rw [hrun, ok_bind]
  have hlength := hq'.nodes.length_eq
  rw [length_append, length_cons] at hlength
  obtain ⟨q'', hcomp, hsame⟩ := (@quicklistCompress_plain shrinks) (q := q')
    (i := l.length) (by rw [hq'.len]; omega) (by omega)
  rw [hcomp]
  exact ⟨gs, hq'.of_samePlain hsame, htexts⟩

theorem mergeIf_holds (h : Holds q ess) {merge : Bool} {i : ℕ}
    (hmerge : merge = true → i+1 < ess.length) :
    ReturnsOr .sizeWrap (if merge then _quicklistZiplistMerge shrinks q i else .ok q) (fun q' =>
      ∃ ess', Holds q' ess' ∧ elements ess' = elements ess ∧
        ess'.length = ess.length-(if merge then 1 else 0)) := by
  cases merge with
  | false => exact ⟨ess, h, rfl, rfl⟩
  | true =>
    have hi := hmerge rfl
    have hsplit : ess = ess.take i ++ ess[i] :: ess[i+1] :: ess.drop (i+2) := by
      rw [List.getElem_cons_drop, List.getElem_cons_drop, List.take_append_drop]
    have hlen : (ess.take i).length = i := by rw [List.length_take]; omega
    rw [if_pos rfl]
    rw [hsplit] at h
    have hrun := (@_quicklistZiplistMerge_holds shrinks) h
    rw [hlen] at hrun
    apply hrun.mono
    rintro q' ⟨gs, hq', htexts⟩
    refine ⟨_, hq', ?_, ?_⟩
    · conv_rhs => rw [hsplit]
      rw [elements_append, elements_append, elements_cons, elements_cons, elements_cons, htexts,
        append_assoc]
    · rw [length_append, length_cons, List.length_drop, hlen, if_pos rfl]
      omega

theorem allowMerge_some {a b : Option QuicklistNode} {fill : ℤ}
    (h : _quicklistNodeAllowMerge a b fill = true) : a.isSome ∧ b.isSome := by
  unfold _quicklistNodeAllowMerge at h
  split at h
  · exact ⟨rfl, rfl⟩
  · cases h

theorem lt_of_isSome {α : Type} {l : List α} {i : ℕ} (h : l[i]?.isSome) : i < l.length := by
  simpa using h

theorem _quicklistMergeNodes_holds (h : Holds q ess) {center : ℕ} (hcenter : center < ess.length) :
    ReturnsOr .sizeWrap (_quicklistMergeNodes shrinks q center) (fun q' =>
      ∃ ess', Holds q' ess' ∧ elements ess' = elements ess) := by
  have hlen := h.nodes.length_eq
  rw [_quicklistMergeNodes]
  dsimp only
  generalize hprev : _quicklistNodeAllowMerge (if center ≥ 1 then q.nodes[center-1]? else none)
    (if center ≥ 2 then q.nodes[center-2]? else none) q.fill = merge_prev
  generalize hnext : _quicklistNodeAllowMerge q.nodes[center+1]? q.nodes[center+2]? q.fill =
    merge_next
  have hfirst : merge_prev = true → 2 ≤ center := by
    rintro rfl
    have hsome := (allowMerge_some hprev).2
    by_contra hlt
    rw [if_neg hlt] at hsome
    cases hsome
  have hsecond : merge_next = true → center+2 < ess.length := by
    rintro rfl
    have hsome := (allowMerge_some hnext).2
    rw [← hlen]
    exact lt_of_isSome hsome
  apply (mergeIf_holds h (fun hm => by have := hfirst hm; omega)).bind
  rintro q₁ ⟨ess₁, h₁, helems₁, hlen₁⟩
  obtain ⟨center₁, hcenter₁⟩ : ∃ c, c = if merge_prev then center-1 else center := ⟨_, rfl⟩
  rw [← hcenter₁]
  have hin₁ : center₁ < ess₁.length ∧ (merge_next = true → center₁+2 < ess₁.length) := by
    cases merge_prev with
    | true =>
      have hfirst := hfirst rfl
      simp only [if_true] at hcenter₁ hlen₁
      exact ⟨by omega, fun hm => by have := hsecond hm; omega⟩
    | false =>
      simp only [false_eq_true, if_false] at hcenter₁ hlen₁
      exact ⟨by omega, fun hm => by have := hsecond hm; omega⟩
  apply (mergeIf_holds h₁ (fun hm => hin₁.2 hm)).bind
  rintro q₂ ⟨ess₂, h₂, helems₂, hlen₂⟩
  have hlen₂' := h₂.nodes.length_eq
  generalize hmid : _quicklistNodeAllowMerge q₂.nodes[center₁]?
    (if center₁ ≥ 1 then q₂.nodes[center₁-1]? else none) q.fill = merge_center
  have hthird : merge_center = true → 1 ≤ center₁ ∧ center₁ < ess₂.length := by
    rintro rfl
    obtain ⟨hsome, hsome'⟩ := allowMerge_some hmid
    refine ⟨?_, hlen₂' ▸ lt_of_isSome hsome⟩
    by_contra hlt
    rw [if_neg hlt] at hsome'
    cases hsome'
  apply (mergeIf_holds h₂ (fun hm => by have := hthird hm; omega)).bind
  rintro q₃ ⟨ess₃, h₃, helems₃, hlen₃⟩
  generalize hlast : _quicklistNodeAllowMerge
    q₃.nodes[if merge_center then center₁-1 else center₁]?
    q₃.nodes[(if merge_center then center₁-1 else center₁)+1]? q.fill = merge_target
  have hfourth : merge_target = true →
      (if merge_center then center₁-1 else center₁)+1 < ess₃.length := by
    rintro rfl
    have hsome := (allowMerge_some hlast).2
    rw [← h₃.nodes.length_eq]
    exact lt_of_isSome hsome
  apply (mergeIf_holds h₃ hfourth).mono
  rintro q₄ ⟨ess₄, h₄, helems₄, -⟩
  exact ⟨ess₄, h₄, by rw [helems₄, helems₃, helems₂, helems₁]⟩

theorem ziplistDeleteRange_from {zl : Bytes} (h : Parses zl es) (i num : ℕ) :
    ReturnsOr .sizeWrap (ziplistDeleteRange zl (i : ℤ) num) (fun zl' => ∃ es', Parses zl' es' ∧
      texts es' = (texts es).take i ++ (texts es).drop (i+num)) := by
  by_cases hi : i < es.length
  · apply ziplistDeleteRange_parses h
    rw [indexPos, if_pos ⟨by omega, by exact_mod_cast hi⟩, Int.toNat_natCast]
  · have hnone : indexPos es.length (i : ℤ) = none := by
      rw [indexPos, if_neg (by omega), if_neg (by omega)]
    rw [ziplistDeleteRange, Parses.ziplistIndex h, hnone, Option.map_none, ok_bind]
    refine ⟨es, h, ?_⟩
    rw [List.take_of_length_le (by rw [texts_length]; omega),
      List.drop_of_length_le (by rw [texts_length]; omega), append_nil]

theorem _quicklistSplitNode_ranges (h : Parses n.zl es) (hsz : SzRight n)
    (hraw : rawZl n = .ok n.zl) {offset : ℤ} {after : Bool} {i num i' num' : ℕ}
    (hi : (if after then offset+1 else 0) = i)
    (hnum : toUnsigned 32 (if after then -1 else offset) = num)
    (hi' : (if after then 0 else offset) = i')
    (hnum' : toUnsigned 32 (if after then offset+1 else -1) = num') :
    ReturnsOr .sizeWrap (_quicklistSplitNode n offset after) (fun r => ∃ ks ms,
      Parses r.1.zl ks ∧ Parses r.2.zl ms ∧
      texts ks = (texts es).take i ++ (texts es).drop (i+num) ∧
      texts ms = (texts es).take i' ++ (texts es).drop (i'+num')) := by
  have hload : loadBytes n.zl 0 n.sz = .ok n.zl :=
    loadBytes_at (a := []) (b := n.zl) (c := []) (by simp) rfl (hsz.eq_length h)
  rw [_quicklistSplitNode, hraw, ok_bind, hload, ok_bind]
  dsimp only
  rw [hi, hnum, hi', hnum']
  apply (ziplistDeleteRange_from h i num).bind
  rintro zl ⟨ks, hparse, hks⟩
  obtain ⟨zl', hlen, hparse'⟩ := ziplistLen_parses hparse
  rw [hlen, ok_bind, updateZl_parses hparse', ok_bind]
  apply (ziplistDeleteRange_from h i' num').bind
  rintro zl₂ ⟨ms, hparse₂, hms⟩
  obtain ⟨zl₂', hlen₂, hparse₂'⟩ := ziplistLen_parses hparse₂
  rw [hlen₂, ok_bind, updateZl_parses hparse₂']
  exact ⟨ks, ms, hparse', hparse₂', hks, hms⟩

theorem _quicklistSplitNode_parts (h : Parses n.zl es) (hsz : SzRight n)
    (hraw : rawZl n = .ok n.zl) (hnarrow : es.length < 2^16) {j : ℕ} (hj : j < es.length)
    (after : Bool) :
    ReturnsOr .sizeWrap (_quicklistSplitNode n j after) (fun r => ∃ ks ms, Parses r.1.zl ks ∧
      Parses r.2.zl ms ∧
      texts ks = (if after then (texts es).take (j+1) else (texts es).drop j) ∧
      texts ms = (if after then (texts es).drop (j+1) else (texts es).take j)) := by
  have hlen := texts_length es
  have hall : toUnsigned 32 (-1) = 2^32-1 := by decide
  have hrest (i : ℕ) : (texts es).drop (i+(2^32-1)) = [] :=
    List.drop_of_length_le (by omega)
  cases after with
  | true =>
    have hnum : toUnsigned 32 ((j : ℤ)+1) = j+1 := by
      rw [toUnsigned_of_range (by omega) (by norm_num; omega)]
      omega
    apply (@_quicklistSplitNode_ranges _ _ h hsz hraw j true (j+1) _ 0 _
      rfl hall rfl hnum).mono
    rintro r ⟨ks, ms, hks, hms, hk, hm⟩
    rw [hrest, append_nil] at hk
    rw [List.take_zero, List.nil_append, Nat.zero_add] at hm
    exact ⟨ks, ms, hks, hms, hk, hm⟩
  | false =>
    have hnum : toUnsigned 32 (j : ℤ) = j := by
      rw [toUnsigned_of_range (by omega) (by norm_num; omega), Int.toNat_natCast]
    apply (@_quicklistSplitNode_ranges _ _ h hsz hraw j false 0 _ j _
      rfl hnum rfl hall).mono
    rintro r ⟨ks, ms, hks, hms, hk, hm⟩
    rw [List.take_zero, List.nil_append, Nat.zero_add] at hk
    rw [hrest, append_nil] at hm
    exact ⟨ks, ms, hks, hms, hk, hm⟩

def placed (A : List (List Entry)) (es : List Entry) (B : List (List Entry)) (p : ℕ)
    (value : Bytes) : List Bytes :=
  elements A ++ ((texts es).take p ++ value :: (texts es).drop p) ++ elements B

theorem singletonNode_holds (value : Bytes) (w : Where) :
    ReturnsOr .sizeWrap (singletonNode value w) (fun n => ∃ fs, Parses n.zl fs ∧
      texts fs = [value]) := by
  cases w with
  | head =>
    apply (ziplistPush_head ziplistNew_parses value).bind
    rintro zl ⟨fs, hparse, htexts⟩
    exact ⟨fs, hparse, htexts⟩
  | tail =>
    apply (ziplistPush_tail ziplistNew_parses value).bind
    rintro zl ⟨fs, hparse, htexts⟩
    exact ⟨fs, hparse, htexts⟩

theorem insertInto_entry (h : Holds q (A ++ es :: B)) {j : ℕ} (hj : j < es.length)
    (value : Bytes) (after : Bool) :
    ReturnsOr .sizeWrap (insertInto shrinks q A.length (fun zl =>
      if after then do
        match ← ziplistNext zl (entryPos es j) with
        | none => ziplistPush zl value .tail
        | some p => ziplistInsert zl p value
      else ziplistInsert zl (entryPos es j) value)) (fun q' => ∃ ess', Holds q' ess' ∧
        elements ess' = placed A es B (if after then j+1 else j) value) := by
  have hlen := texts_length es
  have hedit (zl : Bytes) (hp : Parses zl es) : ReturnsOr .sizeWrap
      (if after then do
        match ← ziplistNext zl (entryPos es j) with
        | none => ziplistPush zl value .tail
        | some p => ziplistInsert zl p value
      else ziplistInsert zl (entryPos es j) value) (fun zl' => ∃ es', Parses zl' es' ∧
        texts es' = (texts es).take (if after then j+1 else j) ++
          value :: (texts es).drop (if after then j+1 else j)) := by
    cases after with
    | true =>
      simp only [if_true]
      rw [ziplistNext_at hp hj, ok_bind]
      by_cases hlast : j+1 < es.length
      · rw [cursorAt_of_lt hlast]
        apply (ziplistInsert_at hp hlast.le value).mono
        rintro zl' ⟨es', hparse, htexts, -⟩
        exact ⟨es', hparse, htexts⟩
      · rw [cursorAt_of_le (by omega)]
        apply (ziplistPush_tail hp value).mono
        rintro zl' ⟨es', hparse, htexts⟩
        rw [List.take_of_length_le (by omega), List.drop_of_length_le (by omega)]
        exact ⟨es', hparse, htexts⟩
    | false =>
      simp only [false_eq_true, if_false]
      apply (ziplistInsert_at hp hj.le value).mono
      rintro zl' ⟨es', hparse, htexts, -⟩
      exact ⟨es', hparse, htexts⟩
  apply (insertInto_holds h (by simp) hedit).mono
  rintro q' ⟨es', hholds, htexts⟩
  refine ⟨_, hholds, ?_⟩
  rw [placed, elements_append, elements_cons, htexts]
  simp only [append_assoc]

theorem splitAndMerge_holds (h : Holds q (A ++ es :: B)) (hn : q.nodes[A.length]? = some n)
    (hsz : SzRight n) (hnarrow : es.length < 2^16) {j : ℕ} (hj : j < es.length) (value : Bytes)
    (after : Bool) :
    ReturnsOr .sizeWrap (do
      let node := quicklistDecompressNodeForUse n
      let r ← _quicklistSplitNode node j after
      let zl ← ziplistPush r.2.zl value (if after then .head else .tail)
      let m ← updateZl (addCount r.2 1) zl
      let q ← __quicklistInsertNode shrinks (setNode q A.length r.1) (some A.length) m after
      _quicklistMergeNodes shrinks q (if after then A.length else A.length+1)) (fun q' =>
        ∃ ess', Holds q' ess' ∧ elements ess' = placed A es B (if after then j+1 else j) value) := by
  obtain ⟨l, m, r, hnodes, hlen, -, hm, -⟩ := forall₂_split h.nodes
  have hmn : m = n := by
    rw [hnodes, ← hlen, List.getElem?_append_right le_rfl, Nat.sub_self] at hn
    exact Option.some.inj hn
  subst hmn
  have hzl : (quicklistDecompressNodeForUse m).zl = m.zl := (keepsZl_decompressForUse m).1
  have hlength := texts_length es
  dsimp only
  apply (_quicklistSplitNode_parts (hzl ▸ hm.parses) (keepsZl_decompressForUse.right hsz)
    (by rw [rawZl_decompressedForUse, hzl]) hnarrow hj after).bind
  rintro ⟨node, new⟩ ⟨ks, ms, hks, hms, hktexts, hmtexts⟩
  have hpush : ReturnsOr .sizeWrap (ziplistPush new.zl value (if after then .head else .tail))
      (fun zl => ∃ fs, Parses zl fs ∧
        texts fs = (if after then value :: texts ms else texts ms ++ [value])) := by
    cases after with
    | true => exact ziplistPush_head hms value
    | false => exact ziplistPush_tail hms value
  apply hpush.bind
  rintro zl ⟨fs, hfs, hftexts⟩
  rw [updateZl_parses hfs, ok_bind]
  have hkne : ks ≠ [] := by
    rintro rfl
    have hzero := congrArg List.length hktexts
    cases after <;> simp [texts] at hzero <;> omega
  have hfne : fs ≠ [] := by
    rintro rfl
    have hzero := congrArg List.length hftexts
    cases after <;> simp [texts] at hzero
  obtain ⟨q₁, hrun, hq₁⟩ := (@__quicklistInsertNode_holds shrinks)
    (h.setNode (m := node) ⟨hks, hkne⟩)
    (m := { addCount new 1 with zl := zl, sz := blobLen fs }) ⟨hfs, hfne⟩ after
  rw [hrun, ok_bind]
  apply (_quicklistMergeNodes_holds hq₁ (by cases after <;> simp)).mono
  rintro q' ⟨ess', hholds, helems⟩
  refine ⟨ess', hholds, ?_⟩
  rw [helems, placed, elements_append, elements_append]
  congr 2
  cases after with
  | true =>
    simp only [if_true] at hktexts hmtexts hftexts ⊢
    rw [elements_cons, elements_cons, hktexts, hftexts, hmtexts]
    simp [elements, texts]
  | false =>
    simp only [false_eq_true, if_false] at hktexts hmtexts hftexts ⊢
    rw [elements_cons, elements_cons, hktexts, hftexts, hmtexts]
    simp [elements, texts]

theorem placed_head (A : List (List Entry)) (es fs : List Entry) (B : List (List Entry))
    (value : Bytes) :
    placed (A ++ [fs]) es B 0 value = elements A ++ (texts fs ++ [value]) ++ elements (es :: B) := by
  rw [placed, elements_append, elements_cons]
  simp [elements, texts]

theorem insertInto_prev (h : Holds q (A ++ fs :: es :: B)) (value : Bytes) :
    ReturnsOr .sizeWrap (insertInto shrinks q A.length (ziplistPush · value .tail)) (fun q' =>
      ∃ ess', Holds q' ess' ∧ elements ess' = placed (A ++ [fs]) es B 0 value) := by
  apply (@insertInto_holds _ _ _ _ _ h _ (texts fs ++ [value]) (by simp)
    (fun zl hp => ziplistPush_tail hp value)).mono
  rintro q' ⟨es', hholds, htexts⟩
  refine ⟨_, hholds, ?_⟩
  rw [placed_head, elements_append, elements_cons, htexts]
  simp only [append_assoc]

theorem insertSingleton_before (h : Holds q (A ++ es :: B)) (value : Bytes) :
    ReturnsOr .sizeWrap (do
      let m ← singletonNode value .head
      let m ← updateZl (addCount m 1) m.zl
      __quicklistInsertNode shrinks q (some A.length) m false) (fun q' =>
        ∃ ess', Holds q' ess' ∧ elements ess' = placed A es B 0 value) := by
  apply (singletonNode_holds value .head).bind
  rintro m ⟨fs, hparse, htexts⟩
  have hne : fs ≠ [] := by
    rintro rfl
    cases htexts
  rw [updateZl_parses hparse, ok_bind]
  obtain ⟨q', hrun, hq'⟩ := (@__quicklistInsertNode_holds shrinks) h
    (m := { addCount m 1 with zl := m.zl, sz := blobLen fs }) ⟨hparse, hne⟩ false
  rw [hrun]
  refine ⟨_, hq', ?_⟩
  simp only [false_eq_true, if_false]
  rw [placed, elements_append, elements_append, elements_cons, elements_cons, htexts]
  simp [elements, texts]

def EntryAllows (q : Quicklist) (entry : QuicklistEntry) (value : Bytes) : Prop :=
  ∃ i n, entry.node = some i ∧ q.nodes[i]? = some n ∧
    _quicklistNodeAllowInsert (some n) q.fill value.length = true

theorem _quicklistInsert_placed (h : Sound q (A ++ es :: B)) (hsz : AllSz q.nodes) {j : ℕ}
    (hj : j < es.length) {v : ZlValue} {offset : ℤ} {value : Bytes}
    (hroom : offset = j ∨ EntryAllows q (entryAt A.length es j v offset) value) (after : Bool) :
    ReturnsOr .sizeWrap (_quicklistInsert shrinks q (entryAt A.length es j v offset) value after)
      (fun q' => ∃ ess', Holds q' ess' ∧
        elements ess' = placed A es B (if after then j+1 else j) value) := by
  obtain ⟨l, n, r, hnodes, hlen, -, hn, -⟩ := h.split
  have hnode := nodeAt_mid hnodes
  rw [hlen] at hnode
  have hget : q.nodes[A.length]? = some n := by
    rw [hnodes, ← hlen, List.getElem?_append_right le_rfl, Nat.sub_self]
    rfl
  have hright : SzRight n := hsz n (List.mem_of_getElem? hget)
  have htotal {x : Except Fault Quicklist} (hx : ReturnsOr .sizeWrap x (fun q' =>
      ∃ ess', Holds q' ess' ∧ elements ess' = placed A es B (if after then j+1 else j) value)) :
      ReturnsOr .sizeWrap (do
        let q ← x
        .ok (addTotal q 1)) (fun q' => ∃ ess', Holds q' ess' ∧
          elements ess' = placed A es B (if after then j+1 else j) value) := by
    apply hx.bind
    rintro q' ⟨ess', hholds, helems⟩
    exact ⟨ess', hholds.addTotal 1, helems⟩
  unfold _quicklistInsert
  dsimp only [entryAt]
  rw [hnode, ok_bind]
  apply htotal
  cases hallow : _quicklistNodeAllowInsert (some n) q.fill value.length with
  | true =>
    have hroom := (@insertInto_entry shrinks) h.holds hj value after
    cases after with
    | true =>
      simp only [Bool.not_true, Bool.not_false, Bool.and_self, if_true] at hroom ⊢
      exact hroom
    | false =>
      simp only [Bool.not_true, Bool.not_false, Bool.and_self, Bool.and_false, false_eq_true,
        if_false, if_true] at hroom ⊢
      exact hroom
  | false =>
    have hoffset : offset = j := by
      rcases hroom with hoffset | ⟨i, m, hi, hm, hroom⟩
      · exact hoffset
      · cases hi
        rw [hget] at hm
        cases hm
        rw [hallow] at hroom
        cases hroom
    subst hoffset
    have hsplit := (@splitAndMerge_holds shrinks) h.holds hget hright hn.narrow hj value
      after
    cases after with
    | true =>
      -- an offset from the head never equals the count
      have htail : ((j : ℤ) == n.count) = false := by
        rw [beq_eq_false_iff_ne, hn.count]
        omega
      simp only [Bool.not_false, Bool.and_true, htail, Bool.false_and, Bool.and_false,
        Bool.not_true, false_eq_true, if_false, if_true, Bool.or_false] at hsplit ⊢
      exact hsplit
    | false =>
      have hhead : ((j : ℤ) == 0) = decide (j = 0) := by
        rw [Bool.eq_iff_iff, beq_iff_eq, decide_eq_true_iff]
        omega
      simp only [Bool.not_false, Bool.and_false, Bool.true_and, Bool.and_true, hhead,
        Bool.false_and, Bool.not_true, false_eq_true, if_false, Bool.false_or] at hsplit ⊢
      by_cases hzero : j = 0
      · subst hzero
        simp only [decide_true, Bool.true_and]
        rcases List.eq_nil_or_concat A with rfl | ⟨A, fs, rfl⟩
        · simpa using hsplit
        · rw [List.concat_eq_append] at h hget hsplit ⊢
          obtain ⟨l', m, r', hnodes', hlen', -, -, -⟩ :=
            forall₂_split (A := A) (b := fs) (B := es :: B) (by simpa using h.nodes)
          have hprev : q.nodes[(A ++ [fs]).length-1]? = some m := by
            rw [hnodes', length_append, length_singleton, Nat.add_sub_cancel, ← hlen',
              List.getElem?_append_right le_rfl, Nat.sub_self]
            rfl
          have hpos : (A ++ [fs]).length ≥ 1 := by simp
          simp only [hpos, if_true, hprev, Option.isSome_some, Bool.true_and]
          cases _quicklistNodeAllowInsert (some m) q.fill value.length with
          | true =>
            have hholds : Holds q (A ++ fs :: es :: B) := by simpa using h.holds
            have hprev := (@insertInto_prev shrinks) hholds value
            simp only [Bool.not_true, Bool.not_false, if_true, length_append,
              length_singleton, Nat.add_sub_cancel]
            exact hprev
          | false =>
            simp only [Bool.not_true, Bool.not_false, if_true, false_eq_true, if_false]
            exact insertSingleton_before h.holds value
      · simp only [hzero, decide_false, Bool.false_and, false_eq_true, if_false]
        exact hsplit

def Places (x : Except Fault Quicklist) (ess : List (List Entry)) (s : ℕ) (value : Bytes)
    (after : Bool) : Prop :=
  ReturnsOr .sizeWrap x (fun q' => ∃ ess', Holds q' ess' ∧ elements ess' =
    (elements ess).take (if after then s+1 else s) ++
      value :: (elements ess).drop (if after then s+1 else s))

theorem placed_eq (A : List (List Entry)) (es : List Entry) (B : List (List Entry)) {p : ℕ}
    (hp : p ≤ es.length) (value : Bytes) : placed A es B p value =
      (elements (A ++ es :: B)).take (A.flatten.length+p) ++
        value :: (elements (A ++ es :: B)).drop (A.flatten.length+p) := by
  have hA := elements_length A
  have hes := texts_length es
  rw [placed, elements_append, elements_cons, ← hA, List.take_length_add_append,
    List.drop_length_add_append, List.take_append_of_le_length (by omega),
    List.drop_append_of_le_length (by omega)]
  simp only [append_assoc, List.cons_append]

/-- An insertion next to the entry that an index finds puts the value in its place, as long as the
offset counts from the head of the node or the node has room. -/
theorem quicklistInsert_places (h : Sound q ess) (hsz : AllSz q.nodes) {idx : ℤ} {q₁ : Quicklist}
    {entry : QuicklistEntry} (hindex : quicklistIndex q idx = .ok (q₁, some entry))
    {value : Bytes} (hroom : 0 ≤ entry.offset ∨ EntryAllows q₁ entry value) (after : Bool) :
    ∃ s, indexPos ess.flatten.length idx = some s ∧
      Places (_quicklistInsert shrinks q₁ entry value after) ess s value after := by
  rw [← h.count]
  cases hs : indexPos q.count idx with
  | none =>
    rw [quicklistIndex_none hs] at hindex
    cases hindex
  | some s =>
    refine ⟨s, rfl, ?_⟩
    obtain ⟨A, es, B, j, rfl, rfl, hj, hidx⟩ := start_cases h.count hs
    have hsound : Sound (modifyNode q A.length quicklistDecompressNodeForUse) (A ++ es :: B) :=
      h.of_samePlain (samePlain_modifyNode keepsPlain_decompressForUse q A.length)
    have hright : AllSz (modifyNode q A.length quicklistDecompressNodeForUse).nodes :=
      hsz.modify keepsZl_decompressForUse A.length
    -- the entry that was found
    obtain ⟨v, offset, hfound, hoffset⟩ : ∃ v offset, quicklistIndex q idx =
        .ok (modifyNode q A.length quicklistDecompressNodeForUse,
          some (entryAt A.length es j v offset)) ∧ (0 ≤ offset → offset = j) := by
      rcases hidx with rfl | ⟨k, hk, hle, rfl, rfl⟩
      · obtain ⟨v, -, hfound⟩ := quicklistIndex_forward h hj
        exact ⟨v, j, hfound, fun _ => rfl⟩
      · obtain ⟨v, -, hfound⟩ := quicklistIndex_backward h hk hle
        exact ⟨v, _, hfound, fun hnonneg => by omega⟩
    rw [hfound] at hindex
    cases hindex
    have hplaced := (@_quicklistInsert_placed shrinks) hsound hright hj
      (hroom.imp_left hoffset) after
    rw [placed_eq A es B (by split <;> omega)] at hplaced
    rw [Places]
    cases after with
    | true => exact hplaced
    | false => exact hplaced

theorem sixLetters_sizes : AllSz sixLetters.nodes := by
  unfold AllSz SzRight
  decide +kernel

/-- A value behind the second entry of a full node, which is split. -/
theorem quicklistInsert_places_sixLetters : ∃ q ess,
    _quicklistInsert (fun _ => false) sixLetters
      { node := some 0, zi := some 13, value := some (.str [98]), offset := 1 } [120] true = .ok q ∧
    Holds q ess ∧ elements ess = [[97], [98], [120], [99], [100], [101], [102]] ∧ q.nodes.length = 3 := by
  have hindex : quicklistIndex sixLetters 1 = .ok (sixLetters,
      some { node := some 0, zi := some 13, value := some (.str [98]), offset := 1 }) := rfl
  obtain ⟨s, hs, hplaces⟩ : ∃ s, indexPos (2*3) 1 = some s ∧ Places (_quicklistInsert (fun _ => false) sixLetters
      { node := some 0, zi := some 13, value := some (.str [98]), offset := 1 } [120] true)
      [letters 97 98 99, letters 100 101 102] s [120] true :=
    quicklistInsert_places sixLetters_sound sixLetters_sizes hindex (Or.inl (by decide)) true
  have hrun : ((fun q => q.nodes.length) <$> _quicklistInsert (fun _ => false) sixLetters
      { node := some 0, zi := some 13, value := some (.str [98]), offset := 1 } [120] true) = .ok 3 := by
    decide +kernel
  cases hs
  rw [Places] at hplaces
  rcases returnsOr_iff.mp hplaces with hwrap | ⟨q, hq, ess, hholds, helements⟩
  · rw [hwrap] at hrun
    cases hrun
  · rw [hq] at hrun
    exact ⟨q, ess, hq, hholds, helements, Except.ok.inj hrun⟩

def insertNextTo (idx : ℤ) (after : Bool) : Except Fault Quicklist := do
  let q ← [97, 98, 99].foldlM (fun q c => quicklistPushTail (fun _ => false) q [c]) (quicklistNew 3 0)
  let r ← quicklistIndex q idx
  match r.2 with
  | none => .error .aborted
  | some entry => _quicklistInsert (fun _ => false) r.1 entry [120] after

/-- Behind "b", which is the last but one, the value takes the place of "c", and behind the last one it
goes to the front. -/
theorem insert_fromTail_full :
    (insertNextTo (-2) true >>= fun q => q.nodes.mapM fun n => ziplistValues n.zl) =
      .ok [[[97], [98], [120]]] ∧
    (insertNextTo (-1) true >>= fun q => q.nodes.mapM fun n => ziplistValues n.zl) =
      .ok [[], [[120], [97], [98], [99]]] ∧
    (insertNextTo 1 true >>= fun q => q.nodes.mapM fun n => ziplistValues n.zl) =
      .ok [[[97], [98]], [[120], [99]]] := by
  decide +kernel

end Holding

end RedisCore.Ql
