import RedisCore.QuicklistContents

set_option linter.style.nameCheck false

namespace RedisCore.Ql
open List (append_assoc append_nil drop_of_length_le flatten_append length_append length_cons)

open Ziplist

structure SoundAround (q : Quicklist) (A : List (List Entry)) (n : QuicklistNode)
    (B : List (List Entry)) : Prop where
  split : ∃ l r, q.nodes = l ++ n :: r ∧ List.Forall₂ NodeOk l A ∧ List.Forall₂ NodeOk r B
  count : q.count = A.flatten.length+n.count+B.flatten.length
  fits : q.count < 2^64
  len : q.len = q.nodes.length

section Around

variable {shrinks : Bytes → Bool} {q : Quicklist} {n m : QuicklistNode} {es : List Entry}
  {A B : List (List Entry)}

theorem Sound.around (h : Sound q (A ++ es :: B)) : ∃ n, SoundAround q A n B ∧ NodeOk n es := by
  obtain ⟨l, n, r, hnodes, -, hl, hn, hr⟩ := h.split
  refine ⟨n, ⟨⟨l, r, hnodes, hl, hr⟩, ?_, h.fits, h.len⟩, hn⟩
  rw [h.count, hn.count]
  simp [Nat.add_assoc]

theorem SoundAround.sound (h : SoundAround q A n B) (hn : NodeOk n es) :
    Sound q (A ++ es :: B) := by
  obtain ⟨l, r, hnodes, hl, hr⟩ := h.split
  refine ⟨?_, ?_, h.fits, h.len⟩
  · rw [hnodes]
    exact List.rel_append hl (List.Forall₂.cons hn hr)
  · rw [h.count, hn.count]
    simp [Nat.add_assoc]

theorem SoundAround.nodeAt (h : SoundAround q A n B) : nodeAt q A.length = .ok n := by
  obtain ⟨l, r, hnodes, hl, -⟩ := h.split
  rw [← hl.length_eq]
  exact nodeAt_mid hnodes

theorem SoundAround.replace (h : SoundAround q A n B) {d : ℤ} (hm : (m.count : ℤ) = n.count+d)
    (hfits : (q.count : ℤ)+d < 2^64) :
    SoundAround (addTotal (setNode q A.length m) d) A m B := by
  obtain ⟨l, r, hnodes, hl, hr⟩ := h.split
  have hcount := h.count
  have htotal : toUnsigned 64 ((q.count : ℤ)+d) = ((q.count : ℤ)+d).toNat :=
    toUnsigned_of_range (by omega) hfits
  have hset : (setNode q A.length m).nodes = l ++ m :: r := by
    rw [← hl.length_eq]
    exact setNode_mid hnodes m
  refine ⟨⟨l, r, hset, hl, hr⟩, ?_, ?_, ?_⟩
  · change toUnsigned 64 ((q.count : ℤ)+d) = _
    rw [htotal]
    omega
  · change toUnsigned 64 ((q.count : ℤ)+d) < 2^64
    rw [htotal]
    omega
  · change q.len = (setNode q A.length m).nodes.length
    rw [h.len, hnodes, hset]
    simp

theorem __quicklistDelNode_around (h : SoundAround q A n B) :
    ∃ q', __quicklistDelNode shrinks q A.length = .ok q' ∧ Sound q' (A ++ B) := by
  obtain ⟨l, r, hnodes, hl, hr⟩ := h.split
  have hcount := h.count
  have hfits := h.fits
  obtain ⟨q', hrun, hplain, hlen, htotal⟩ :=
    (@__quicklistDelNode_plain _ _ _ _ shrinks) hnodes h.len
  have hrest : toUnsigned 64 ((q.count : ℤ)+-n.count) = ((q.count : ℤ)+-n.count).toNat :=
    toUnsigned_of_range (by omega) (by omega)
  rw [hrest] at htotal
  rw [← hl.length_eq]
  refine ⟨q', hrun, nodesOk_of_plain (List.rel_append hl hr) hplain, ?_, by omega, hlen⟩
  rw [htotal, flatten_append, length_append]
  omega

end Around

section Ranges

variable {zl : Bytes} {es : List Entry}

theorem indexPos_lt {n j : ℕ} {index : ℤ} (h : indexPos n index = some j) : j < n := by
  rw [indexPos] at h
  split_ifs at h with hfront hback
  · have hj := Option.some.inj h
    omega
  · have hj := Option.some.inj h
    omega

theorem ziplistDeleteRange_parses (h : Parses zl es) {index : ℤ} {j : ℕ}
    (hpos : indexPos es.length index = some j) (num : ℕ) :
    ReturnsOr .sizeWrap (ziplistDeleteRange zl index num) (fun zl' => ∃ es', Parses zl' es' ∧
      texts es' = (texts es).take j ++ (texts es).drop (j+num)) := by
  rw [ziplistDeleteRange, Parses.ziplistIndex h, hpos, Option.map_some, ok_bind,
    returnsOr_iff]
  rcases delete_step h (indexPos_lt hpos) num with he | ⟨zl', es', hd, hp, ht, -⟩
  · exact Or.inl he
  · rw [List.drop_drop] at ht
    exact Or.inr ⟨zl', hd, es', hp, ht⟩

theorem ziplistDeleteRange_tail (h : Parses zl es) {index : ℤ} {j : ℕ}
    (hpos : indexPos es.length index = some j) {num : ℕ} (hnum : es.length ≤ j+num) :
    ∃ zl', ziplistDeleteRange zl index num = .ok zl' ∧ Parses zl' (es.take j) := by
  have hj := indexPos_lt hpos
  obtain ⟨num, rfl⟩ : ∃ k, num = k+1 := ⟨num-1, by omega⟩
  obtain ⟨cnt, hcnt, rfl⟩ := h.layout
  have hsplit : es = es.take j ++ es[j] :: es.drop (j+1) := by
    rw [List.getElem_cons_drop, List.take_append_drop]
  have hrest : (es.drop (j+1)).drop num = [] := by
    rw [List.drop_drop, List.drop_eq_nil_iff]
    omega
  have hdel : deleteEntries (es.take j) [] = es.take j := by simp [deleteEntries, follow]
  have hok := h.entries
  have hsize := h.size
  rw [hsplit] at hok hsize hcnt
  have hle : blobLen (es.take j) < 2^32 := by
    rw [blobLen, entriesLen_append] at hsize
    rw [blobLen]
    omega
  obtain ⟨cnt', hcnt', hrun⟩ := (__ziplistDelete_blob num hok hsize hcnt).1 (by
    rw [hrest, hdel]
    exact hle)
  rw [hrest, hdel, ← hsplit] at hrun
  rw [hrest, hdel] at hcnt'
  refine ⟨_, ?_, ((entriesOk_append 0 _ _).mp hok).1, hle, cnt', hcnt', rfl⟩
  rw [ziplistDeleteRange, Parses.ziplistIndex h, hpos, Option.map_some, ok_bind]
  exact hrun

end Ranges

theorem updateZl_parses {zl : Bytes} {es : List Entry} (h : Parses zl es) (n : QuicklistNode) :
    updateZl n zl = .ok { n with zl := zl, sz := blobLen es } := by
  obtain ⟨cnt, -, rfl⟩ := h.layout
  have hbytes : ziplistBlobLen (blob es cnt) = .ok (blobLen es) := ziplistBytes_header h.size
  rw [updateZl, hbytes]
  rfl

section Round

variable {shrinks : Bytes → Bool} {q : Quicklist} {es : List Entry} {A B : List (List Entry)}
  {P : Quicklist → Prop}

theorem delRound (h : Sound q (A ++ es :: B)) {offset : ℤ} {e j d : ℕ}
    (hpos : indexPos es.length offset = some j) (he : 0 < e)
    (hdel : (delAmount offset e es.length).1 = d) (hd : j+d ≤ es.length)
    (hentire : (delAmount offset e es.length).2 = true → j = 0 ∧ d = es.length) (fuel : ℕ)
    (hnext : ∀ q' C, Sound q' ((A ++ C) ++ B) →
      elements C = (texts es).take j ++ (texts es).drop (j+d) →
      ReturnsOr .sizeWrap (delRangeLoop shrinks fuel (A ++ C).length 0 (e-d) q') P) :
    ReturnsOr .sizeWrap (delRangeLoop shrinks (fuel+1) A.length offset e q) P := by
  obtain ⟨n, haround, hn⟩ := h.around
  have hnarrow := hn.narrow
  rw [delRangeLoop, if_neg (by omega), haround.nodeAt, ok_bind, hn.count]
  generalize delAmount offset e es.length = amount at hdel hentire ⊢
  obtain ⟨del, entire⟩ := amount
  dsimp only at hdel hentire ⊢
  subst hdel
  rw [Int.toNat_natCast]
  cases entire with
  | true =>
    obtain ⟨rfl, rfl⟩ := hentire rfl
    obtain ⟨q', hrun, hsound⟩ := (@__quicklistDelNode_around shrinks) haround
    rw [if_pos rfl, hrun, ok_bind]
    have hgo := hnext q' [] (by rwa [append_nil]) (by
      rw [← texts_length, Nat.zero_add, List.take_zero, List.drop_length]
      rfl)
    rwa [append_nil] at hgo
  | false =>
    have hnum : toUnsigned 32 (d : ℤ) = d := by
      rw [toUnsigned_of_range (by omega) (by norm_num; omega), Int.toNat_natCast]
    rw [if_neg Bool.false_ne_true, rawZl_decompressedForUse, ok_bind, hnum]
    apply (ziplistDeleteRange_parses hn.parses hpos d).bind
    rintro zl' ⟨es', hparse, htexts⟩
    have hlen : es'.length = es.length-d := by
      have hlength := congrArg List.length htexts
      rw [length_append, List.length_take, List.length_drop, texts_length, texts_length]
        at hlength
      omega
    rw [updateZl_parses hparse, ok_bind]
    obtain ⟨m, hm⟩ : ∃ m, m = addCount { quicklistDecompressNodeForUse n with
        zl := zl', sz := blobLen es' } (-(d : ℤ)) := ⟨_, rfl⟩
    have hcount : m.count = es'.length := by
      have hsub : toUnsigned 16 ((n.count : ℤ)+-d) = ((n.count : ℤ)+-d).toNat :=
        toUnsigned_of_range (by rw [hn.count]; omega) (by rw [hn.count]; norm_num; omega)
      rw [hm]
      change toUnsigned 16 (((quicklistDecompressNodeForUse n).count : ℤ)+-d) = _
      rw [decompressedForUse_count, hsub, hn.count]
      omega
    have haround' := haround.replace (d := -(d : ℤ)) (m := m) (by rw [hcount, hn.count]; omega)
      (by have := haround.fits; omega)
    rw [← hm]
    by_cases hzero : es'.length = 0
    · -- the node has lost its last entry
      obtain ⟨q', hrun, hsound⟩ := (@__quicklistDelNode_around shrinks) haround'
      rw [if_pos (by rw [hcount, hzero]), hrun, ok_bind]
      have hgo := hnext q' [] (by rwa [append_nil]) (by
        rw [← htexts, List.length_eq_zero_iff.mp hzero]
        rfl)
      rwa [append_nil] at hgo
    · have hsound := haround'.sound ⟨hm ▸ hparse, hcount, by omega, by
        rintro rfl
        exact hzero rfl⟩
      have hgo := hnext (quicklistRecompressOnly shrinks
          (addTotal (setNode q A.length m) (-(d : ℤ))) A.length) [es'] (by
        rw [append_assoc]
        exact hsound.of_samePlain (quicklistRecompressOnly_plain _ _)) (by
        rw [← htexts]
        simp [elements])
      rw [if_neg (by rw [hcount]; exact hzero)]
      rwa [length_append, List.length_singleton] at hgo

theorem delRangeLoop_boundary (h : Sound q (A ++ B)) {e fuel : ℕ} (he : e ≤ B.flatten.length)
    (hfuel : B.length < fuel) :
    ReturnsOr .sizeWrap (delRangeLoop shrinks fuel A.length 0 e q) (fun q' =>
      ∃ ess, Sound q' ess ∧ elements ess = elements A ++ (elements B).drop e) := by
  induction B generalizing A q e fuel with
  | nil =>
    obtain ⟨fuel, rfl⟩ : ∃ k, fuel = k+1 := ⟨fuel-1, by omega⟩
    rw [delRangeLoop, if_pos (Nat.le_zero.mp he)]
    refine ⟨A ++ [], h, ?_⟩
    rw [elements_append]
    simp [elements, texts]
  | cons es B ih =>
    obtain ⟨fuel, rfl⟩ : ∃ k, fuel = k+1 := ⟨fuel-1, by omega⟩
    by_cases hzero : e = 0
    · rw [delRangeLoop, if_pos hzero, hzero]
      exact ⟨A ++ es :: B, h, elements_append _ _⟩
    · obtain ⟨n, -, hn⟩ := h.around
      have hne := List.length_pos_of_ne_nil hn.nonempty
      rw [List.flatten_cons, length_append] at he
      have hpos : indexPos es.length 0 = some 0 := by
        rw [indexPos, if_pos ⟨le_rfl, by exact_mod_cast hne⟩]
        rfl
      have hamount : delAmount 0 e es.length =
          (((min e es.length : ℕ) : ℤ), decide (es.length ≤ e)) := by
        unfold delAmount
        by_cases hle : es.length ≤ e
        · rw [if_pos ⟨rfl, hle⟩, min_eq_right hle, decide_eq_true hle]
        · rw [if_neg (fun h => hle h.2), if_neg (fun h => hle h.2),
            if_neg (lt_irrefl _), min_eq_left (by omega), decide_eq_false hle]
      apply delRound h hpos (d := min e es.length) (by omega) (by rw [hamount]) (by omega)
      · rw [hamount]
        intro hle
        exact ⟨rfl, min_eq_right (of_decide_eq_true hle)⟩
      · intro q' C hsound hC
        rw [length_cons] at hfuel
        apply (ih hsound (e := e-min e es.length) (by omega) (by omega)).mono
        rintro q'' ⟨ess, hsound', hess⟩
        refine ⟨ess, hsound', ?_⟩
        have hdrop : (texts es ++ elements B).drop e =
            (texts es).drop (min e es.length) ++ (elements B).drop (e-min e es.length) := by
          rw [List.drop_append, texts_length]
          by_cases hle : es.length ≤ e
          · have hall : (texts es).drop e = [] := drop_of_length_le (by rwa [texts_length])
            have hall' : (texts es).drop es.length = [] :=
              drop_of_length_le (by rw [texts_length])
            rw [min_eq_right hle, hall, hall']
          · rw [min_eq_left (by omega), Nat.sub_self, Nat.sub_eq_zero_of_le (by omega)]
        rw [hess, elements_append, hC, elements_cons, hdrop, List.take_zero, Nat.zero_add,
          List.nil_append, append_assoc]

end Round

section Range

variable {shrinks : Bytes → Bool} {q : Quicklist} {es : List Entry} {A B ess : List (List Entry)}
  {start count : ℤ}

/-- `count` elements from position `s` on are gone and the counters are right, or nothing has changed
where the start designates no element. -/
def RemovesRange (shrinks : Bytes → Bool) (q : Quicklist) (ess : List (List Entry))
    (start count : ℤ) : Prop :=
  match indexPos ess.flatten.length start with
  | some s => ReturnsOr .sizeWrap (quicklistDelRange shrinks q start count) (fun r =>
      r.2 = true ∧ ∃ ess', Sound r.1 ess' ∧
        elements ess' = (elements ess).take s ++ (elements ess).drop (s+count.toNat))
  | none => quicklistDelRange shrinks q start count = .ok (q, false)

/-- The start, counted from the head, lies behind the first entry of a node, and the range has fewer
elements than this node but ends in a later one. -/
def CutsShort (ess : List (List Entry)) (start count : ℤ) : Prop :=
  ∃ A es B o, ess = A ++ es :: B ∧ start = ((A.flatten.length+o : ℕ) : ℤ) ∧ 0 < o ∧
    o < es.length ∧ min count.toNat (ess.flatten.length-start.toNat) < es.length ∧
    es.length < o+min count.toNat (ess.flatten.length-start.toNat)

variable {j e s : ℕ} {offset : ℤ} {v : ZlValue}

theorem elements_range (A : List (List Entry)) (es : List Entry) (B : List (List Entry))
    (hj : j ≤ es.length) :
    (elements (A ++ es :: B)).take (A.flatten.length+j) ++
        (elements (A ++ es :: B)).drop (A.flatten.length+j+e) =
      elements A ++ ((texts es).take j ++ (texts es).drop (j+min e (es.length-j))) ++
        (elements B).drop (e-min e (es.length-j)) := by
  have hA := elements_length A
  have hes := texts_length es
  have htake : (elements A ++ (texts es ++ elements B)).take (A.flatten.length+j) =
      elements A ++ (texts es).take j := by
    rw [← hA, List.take_length_add_append, List.take_append_of_le_length (by omega)]
  have hdrop : (elements A ++ (texts es ++ elements B)).drop (A.flatten.length+j+e) =
      (texts es).drop (j+min e (es.length-j)) ++ (elements B).drop (e-min e (es.length-j)) := by
    rw [← hA, Nat.add_assoc, List.drop_length_add_append, List.drop_append, hes]
    by_cases hle : e ≤ es.length-j
    · have hin : j+e-es.length = 0 := by omega
      rw [min_eq_left hle, Nat.sub_self, hin]
    · have hall : (texts es).drop (j+e) = [] := drop_of_length_le (by omega)
      have hall' : (texts es).drop (j+(es.length-j)) = [] := drop_of_length_le (by omega)
      have hpast : j+e-es.length = e-(es.length-j) := by omega
      rw [min_eq_right (by omega), hall, hall', hpast]
  rw [elements_append, elements_cons, htake, hdrop]
  simp only [append_assoc]

theorem delRangeLoop_start (h : Sound q (A ++ es :: B)) (hpos : indexPos es.length offset = some j)
    (he : 0 < e)
    (hle : e ≤ es.length-j+B.flatten.length)
    (hdel : (delAmount offset e es.length).1 = (min e (es.length-j) : ℕ))
    (hentire : (delAmount offset e es.length).2 = true → j = 0 ∧ es.length ≤ e) :
    ReturnsOr .sizeWrap (delRangeLoop shrinks (q.nodes.length+1) A.length offset e q) (fun q' =>
      ∃ ess, Sound q' ess ∧ elements ess =
        (elements (A ++ es :: B)).take (A.flatten.length+j) ++
          (elements (A ++ es :: B)).drop (A.flatten.length+j+e)) := by
  have hj := indexPos_lt hpos
  have hlen := h.nodes.length_eq
  rw [length_append, length_cons] at hlen
  apply delRound h hpos he hdel (by omega)
  · intro hall
    obtain ⟨rfl, hall⟩ := hentire hall
    exact ⟨rfl, by omega⟩
  · intro q' C hsound hC
    apply (delRangeLoop_boundary hsound (e := e-min e (es.length-j)) (by omega) (by omega)).mono
    rintro q'' ⟨ess, hsound', hess⟩
    refine ⟨ess, hsound', ?_⟩
    rw [hess, elements_append, hC, elements_range A es B hj.le]

theorem delRange_extent (hs : indexPos q.count start = some s) (hfits : q.count < 2^64) :
    (if start ≥ 0 ∧ count.toNat > toUnsigned 64 (q.count-start) then toUnsigned 64 (q.count-start)
      else if start < 0 ∧ count.toNat > (-start).toNat then (-start).toNat else count.toNat) =
      min count.toNat (q.count-s) := by
  rw [indexPos] at hs
  split_ifs at hs with hfront hback
  · have hs := Option.some.inj hs
    have hrest : toUnsigned 64 ((q.count : ℤ)-start) = ((q.count : ℤ)-start).toNat :=
      toUnsigned_of_range (by omega) (by omega)
    rw [hrest]
    split_ifs <;> omega
  · have hs := Option.some.inj hs
    split_ifs <;> omega

theorem quicklistDelRange_found {q₁ : Quicklist} {i : ℕ} (hcount : 0 < count)
    (hs : indexPos q.count start = some s) (hfits : q.count < 2^64)
    (hindex : quicklistIndex q start = .ok (q₁, some (entryAt i es j v offset))) :
    quicklistDelRange shrinks q start count = (do
      let q' ← delRangeLoop shrinks (q₁.nodes.length+1) i offset (min count.toNat (q.count-s)) q₁
      .ok (q', true)) := by
  rw [quicklistDelRange, if_neg (by omega)]
  dsimp only
  rw [delRange_extent hs hfits, hindex, ok_bind]
  rfl

theorem parses_length_unique {zl : Bytes} {es es' : List Entry} (h : Parses zl es)
    (h' : Parses zl es') : es.length = es'.length := by
  have hvalues := ziplistValues_parses h
  rw [ziplistValues_parses h'] at hvalues
  rw [← texts_length es, ← texts_length es', Except.ok.inj hvalues]

theorem exists_nodeOk {l : List QuicklistNode} {n : QuicklistNode}
    (h : List.Forall₂ NodeOk l ess) (hn : n ∈ l) : ∃ es, NodeOk n es := by
  induction h with
  | nil => exact absurd hn List.not_mem_nil
  | cons hm _ ih =>
    rcases List.mem_cons.mp hn with rfl | hn
    · exact ⟨_, hm⟩
    · exact ih hn

theorem delRangeLoop_cut (h : Sound q (A ++ es :: B)) {o : ℕ} (ho : 0 < o) (hlt : o < es.length)
    (he : e < es.length) (hpast : es.length < o+e) :
    ∃ q', delRangeLoop shrinks (q.nodes.length+1) A.length o e q = .ok q' ∧
      ∀ ess, ¬Sound q' ess := by
  obtain ⟨n, haround, hn⟩ := h.around
  obtain ⟨l, r, hnodes, hl, hr⟩ := haround.split
  have hnarrow := hn.narrow
  have hpos : indexPos es.length (o : ℤ) = some o := by
    rw [indexPos, if_pos ⟨by omega, by exact_mod_cast hlt⟩, Int.toNat_natCast]
  have hamount : delAmount o e es.length = ((e : ℤ), false) := by
    unfold delAmount
    rw [if_neg (by omega), if_neg (by omega), if_neg (by omega)]
  have hnum : toUnsigned 32 (e : ℤ) = e := by
    rw [toUnsigned_of_range (by omega) (by norm_num; omega), Int.toNat_natCast]
  obtain ⟨zl', hdel, hparse⟩ := (@ziplistDeleteRange_tail _ _ hn.parses _ _ hpos e) (by omega)
  obtain ⟨m, hm⟩ : ∃ m, m = addCount { quicklistDecompressNodeForUse n with
      zl := zl', sz := blobLen (es.take o) } (-(e : ℤ)) := ⟨_, rfl⟩
  have hcount : m.count = es.length-e := by
    have hsub : toUnsigned 16 ((n.count : ℤ)+-e) = ((n.count : ℤ)+-e).toNat :=
      toUnsigned_of_range (by rw [hn.count]; omega) (by rw [hn.count]; norm_num; omega)
    rw [hm]
    change toUnsigned 16 (((quicklistDecompressNodeForUse n).count : ℤ)+-e) = _
    rw [decompressedForUse_count, hsub, hn.count]
    omega
  obtain ⟨fuel, hfuel⟩ : ∃ k, q.nodes.length = k+1 := by
    refine ⟨l.length+r.length, ?_⟩
    rw [hnodes, length_append, length_cons, Nat.add_assoc]
  refine ⟨quicklistRecompressOnly shrinks (addTotal (setNode q A.length m) (-(e : ℤ))) A.length,
    ?_, ?_⟩
  · rw [hfuel, delRangeLoop, if_neg (by omega), haround.nodeAt, ok_bind, hn.count, hamount]
    dsimp only
    rw [if_neg Bool.false_ne_true, rawZl_decompressedForUse, ok_bind, hnum, hdel,
      ok_bind, updateZl_parses hparse, ok_bind, ← hm, if_neg (by rw [hcount]; omega),
      Int.toNat_natCast, Nat.sub_self, delRangeLoop, if_pos rfl]
  · intro ess hsound
    have hplain := ((@quicklistRecompressOnly_plain shrinks)
      (addTotal (setNode q A.length m) (-(e : ℤ))) A.length).nodes
    have hset : (addTotal (setNode q A.length m) (-(e : ℤ))).nodes = l ++ m :: r := by
      rw [← hl.length_eq]
      exact setNode_mid hnodes m
    have hall := nodesOk_of_plain hsound.nodes hplain.symm
    rw [hset] at hall
    obtain ⟨es', hmem⟩ := exists_nodeOk hall (List.mem_append_right l List.mem_cons_self)
    have hparse' : Parses m.zl (es.take o) := hm ▸ hparse
    have hlen := parses_length_unique hparse' hmem.parses
    rw [List.length_take, ← hmem.count, hcount] at hlen
    omega

theorem start_cases (hs : q.count = ess.flatten.length) (hpos : indexPos q.count start = some s) :
    ∃ A es B j, ess = A ++ es :: B ∧ s = A.flatten.length+j ∧ j < es.length ∧
      (start = ((A.flatten.length+j : ℕ) : ℤ) ∨
        ∃ k, 0 < k ∧ k ≤ es.length ∧ j = es.length-k ∧
          start = -((B.flatten.length+k : ℕ) : ℤ)) := by
  have hlt := indexPos_lt hpos
  obtain ⟨A, es, B, j, rfl, rfl, hj⟩ := exists_split_flatten ess (s := s) (by omega)
  refine ⟨A, es, B, j, rfl, rfl, hj, ?_⟩
  rw [flatten_append, List.flatten_cons, length_append, length_append] at hs
  rw [indexPos] at hpos
  split_ifs at hpos with hfront hback
  · have hpos := Option.some.inj hpos
    exact Or.inl (by omega)
  · have hpos := Option.some.inj hpos
    exact Or.inr ⟨es.length-j, by omega, by omega, by omega, by omega⟩

theorem quicklistDelRange_cut (h : Sound q ess) (hcount : 0 < count)
    (hcut : CutsShort ess start count) :
    ∃ q', quicklistDelRange shrinks q start count = .ok (q', true) ∧ ∀ ess', ¬Sound q' ess' := by
  obtain ⟨A, es, B, o, rfl, hstart, ho, hlt, he, hpast⟩ := hcut
  obtain ⟨v, -, hindex⟩ := quicklistIndex_forward h hlt
  have hsound : Sound (modifyNode q A.length quicklistDecompressNodeForUse) (A ++ es :: B) :=
    h.of_samePlain (samePlain_modifyNode keepsPlain_decompressForUse q A.length)
  have hnat : start.toNat = A.flatten.length+o := by omega
  rw [hnat, ← h.count] at he hpast
  have htotal := h.count
  rw [flatten_append, List.flatten_cons, length_append, length_append] at htotal
  have hs : indexPos q.count start = some (A.flatten.length+o) := by
    rw [indexPos, if_pos ⟨by omega, by omega⟩, hnat]
  rw [← hstart] at hindex
  rw [quicklistDelRange_found hcount hs h.fits hindex]
  obtain ⟨q', hrun, hbad⟩ := (@delRangeLoop_cut shrinks) hsound ho hlt he hpast
  rw [hrun, ok_bind]
  exact ⟨q', rfl, hbad⟩

theorem quicklistDelRange_right (h : Sound q (A ++ es :: B)) (hcount : 0 < count)
    (hs : indexPos q.count start = some (A.flatten.length+j))
    (hindex : quicklistIndex q start =
      .ok (modifyNode q A.length quicklistDecompressNodeForUse,
        some (entryAt A.length es j v offset)))
    (hpos : indexPos es.length offset = some j)
    (hdel : (delAmount offset (min count.toNat (q.count-(A.flatten.length+j))) es.length).1 =
      (min (min count.toNat (q.count-(A.flatten.length+j))) (es.length-j) : ℕ))
    (hentire : (delAmount offset (min count.toNat (q.count-(A.flatten.length+j)))
      es.length).2 = true → j = 0 ∧ es.length ≤ min count.toNat (q.count-(A.flatten.length+j))) :
    ReturnsOr .sizeWrap (quicklistDelRange shrinks q start count) (fun r =>
      r.2 = true ∧ ∃ ess', Sound r.1 ess' ∧ elements ess' =
        (elements (A ++ es :: B)).take (A.flatten.length+j) ++
          (elements (A ++ es :: B)).drop (A.flatten.length+j+count.toNat)) := by
  have hlt := indexPos_lt hs
  have hj := indexPos_lt hpos
  have hsound : Sound (modifyNode q A.length quicklistDecompressNodeForUse) (A ++ es :: B) :=
    h.of_samePlain (samePlain_modifyNode keepsPlain_decompressForUse q A.length)
  have htotal := h.count
  rw [flatten_append, List.flatten_cons, length_append, length_append] at htotal
  rw [quicklistDelRange_found hcount hs h.fits hindex]
  apply (delRangeLoop_start hsound hpos (by omega) (by omega) hdel hentire).bind
  rintro q' ⟨ess, hess, helems⟩
  refine ⟨rfl, ess, hess, ?_⟩
  have hdrop : (elements (A ++ es :: B)).drop (A.flatten.length+j+
      min count.toNat (q.count-(A.flatten.length+j))) =
      (elements (A ++ es :: B)).drop (A.flatten.length+j+count.toNat) := by
    have hlen := elements_length (A ++ es :: B)
    rw [← h.count] at hlen
    by_cases hle : count.toNat ≤ q.count-(A.flatten.length+j)
    · rw [min_eq_left hle]
    · rw [min_eq_right (by omega), drop_of_length_le (by omega),
        drop_of_length_le (by omega)]
  rw [helems, hdrop]

/-- `quicklistDelRange` does what it says exactly if the range is not cut short. -/
theorem quicklistDelRange_iff (h : Sound q ess) (hcount : 0 < count) :
    RemovesRange shrinks q ess start count ↔ ¬CutsShort ess start count := by
  by_cases hcut : CutsShort ess start count
  · refine iff_of_false ?_ (fun hno => hno hcut)
    obtain ⟨q', hrun, hbad⟩ := (@quicklistDelRange_cut shrinks) h hcount hcut
    rw [RemovesRange, hrun]
    split
    · rintro ⟨-, ess', hsound, -⟩
      exact hbad ess' hsound
    · intro heq
      cases heq
  · refine iff_of_true ?_ hcut
    rw [RemovesRange, ← h.count]
    cases hs : indexPos q.count start with
    | none =>
      dsimp only
      rw [quicklistDelRange, if_neg (by omega)]
      dsimp only
      rw [quicklistIndex_none hs, ok_bind]
    | some s =>
      dsimp only
      have hlt := indexPos_lt hs
      obtain ⟨A, es, B, j, rfl, rfl, hj, hstart⟩ := start_cases h.count hs
      obtain ⟨e, he⟩ : ∃ e, e = min count.toNat (q.count-(A.flatten.length+j)) := ⟨_, rfl⟩
      rcases hstart with hstart | ⟨k, hk, hle, rfl, hstart⟩
      · -- from the head the offset is the position in the node
        obtain ⟨v, -, hindex⟩ := quicklistIndex_forward h hj
        have hpos : indexPos es.length (j : ℤ) = some j := by
          rw [indexPos, if_pos ⟨by omega, by exact_mod_cast hj⟩, Int.toNat_natCast]
        have hfits : 0 < j → e < es.length → j+e ≤ es.length := by
          intro hj0 hlt'
          by_contra hpast
          apply hcut
          refine ⟨A, es, B, j, rfl, hstart, hj0, hj, ?_⟩
          have hnat : start.toNat = A.flatten.length+j := by omega
          rw [hnat, ← h.count, ← he]
          exact ⟨hlt', by omega⟩
        rw [← hstart] at hindex
        apply quicklistDelRange_right h hcount hs hindex hpos
        · rw [← he]
          unfold delAmount
          split_ifs <;> dsimp only <;> omega
        · rw [← he]
          unfold delAmount
          split_ifs
          all_goals simp
          all_goals omega
      · -- from the tail it is negative, and the third case deletes no more than there is
        obtain ⟨v, -, hindex⟩ := quicklistIndex_backward h hk hle
        have hpos : indexPos es.length (-(k : ℤ)) = some (es.length-k) := by
          rw [indexPos, if_neg (by omega), if_pos ⟨by omega, by omega⟩]
          congr 1
          omega
        rw [← hstart] at hindex
        apply quicklistDelRange_right h hcount hs hindex hpos
        · rw [← he]
          unfold delAmount
          split_ifs <;> dsimp only <;> omega
        · rw [← he]
          unfold delAmount
          split_ifs
          all_goals simp
          all_goals omega

def letters (a b c : UInt8) : List Entry := [⟨false, [1, a]⟩, ⟨false, [1, b]⟩, ⟨false, [1, c]⟩]

theorem letters_parses (a b c : UInt8) : Parses (blob (letters a b c) 3) (letters a b c) := by
  have hbody (x : UInt8) : BodyOk [1, x] := ⟨0, 1, 1, rfl, rfl⟩
  have hsmall (x : UInt8) : (⟨false, [1, x]⟩ : Entry).rawlen < zipBigPrevlen := (by decide : 3 < 254)
  exact ⟨⟨⟨fun _ => by decide, hbody a⟩, ⟨fun _ => hsmall a, hbody b⟩, ⟨fun _ => hsmall b, hbody c⟩, trivial⟩,
    (by decide : 20 < 2^32), 3, Or.inl ⟨rfl, (by decide : 3 < uint16Max)⟩, rfl⟩

def fullNode (a b c : UInt8) : QuicklistNode :=
  { zl := blob (letters a b c) 3, sz := 20, count := 3, compressed := false, recompress := false }

theorem fullNode_ok (a b c : UInt8) : NodeOk (fullNode a b c) (letters a b c) :=
  ⟨letters_parses a b c, rfl, (by decide : 3 < 2^16), by simp [letters]⟩

/-- The six values a to f in two full nodes. -/
def sixLetters : Quicklist :=
  { nodes := [fullNode 97 98 99, fullNode 100 101 102], count := 6, len := 2, fill := 3, compress := 0 }

theorem sixLetters_sound : Sound sixLetters [letters 97 98 99, letters 100 101 102] :=
  ⟨.cons (fullNode_ok _ _ _) (.cons (fullNode_ok _ _ _) .nil), rfl, by decide, rfl⟩

/-- Three elements from the second on, the last one in the next node. -/
theorem quicklistDelRange_iff_sixLetters : ∃ q ess,
    quicklistDelRange (fun _ => false) sixLetters 1 3 = .ok (q, true) ∧ Sound q ess ∧
      elements ess = [[97], [101], [102]] := by
  have hiff : RemovesRange (fun _ => false) sixLetters [letters 97 98 99, letters 100 101 102] 1 3 ↔
      ¬CutsShort [letters 97 98 99, letters 100 101 102] 1 3 :=
    quicklistDelRange_iff sixLetters_sound (by decide)
  have hwhole : ¬CutsShort [letters 97 98 99, letters 100 101 102] 1 3 := by
    rintro ⟨A, es, B, o, heq, -, -, -, hmin, -⟩
    have hmem : es ∈ [letters 97 98 99, letters 100 101 102] := by
      rw [heq]
      exact List.mem_append_right A List.mem_cons_self
    have hlen : ∀ l ∈ [letters 97 98 99, letters 100 101 102], l.length = 3 := by decide
    rw [hlen es hmem] at hmin
    exact absurd hmin (by decide)
  have hrun : (quicklistDelRange (fun _ => false) sixLetters 1 3).isOk = true := by decide +kernel
  have hremoves := hiff.mpr hwhole
  rw [RemovesRange] at hremoves
  rcases returnsOr_iff.mp hremoves with hwrap | ⟨⟨q, found⟩, hq, hfound, ess, hsound, helements⟩
  · rw [hwrap] at hrun
    cases hrun
  · dsimp only at hfound
    subst hfound
    exact ⟨q, ess, hq, hsound, helements⟩

def deleteThirdOfSix : Except Fault (Quicklist × Bool) := do
  let q ← [97, 98, 99, 100, 101, 102].foldlM
    (fun q c => quicklistPushTail (fun _ => false) q [c]) (quicklistNew 3 0)
  quicklistDelRange (fun _ => false) q 2 2

/-- Only one value is deleted, and the first node says that it has one entry of its two. -/
theorem quicklistDelRange_third_of_six :
    Prod.snd <$> deleteThirdOfSix = .ok true ∧
      (fun r => (r.1.count, r.1.nodes.map (·.count))) <$> deleteThirdOfSix = .ok (4, [1, 3]) ∧
      (deleteThirdOfSix >>= fun r => r.1.nodes.mapM fun n => ziplistValues n.zl) =
        .ok [[[97], [98]], [[100], [101], [102]]] := by
  decide +kernel

end Range

end RedisCore.Ql
