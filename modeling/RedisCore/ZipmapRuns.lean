import RedisCore.ZipmapConversion
import Mathlib.Data.Finmap

namespace RedisCore.Zipmap
open List (length_map map_cons mem_cons mem_map)

abbrev HashMap := Finmap (fun _ : Bytes => Bytes)

inductive Op where
  | set (key val : Bytes)
  | del (key : Bytes)
  | len

def applyOp (zm : Bytes) : Op → Except Fault (Bytes × ℕ)
  | .set key val => do
    let (zm, update) ← zipmapSet zm key val
    .ok (zm, update.toNat)
  | .del key => do
    let (zm, deleted) ← zipmapDel zm key
    .ok (zm, deleted.toNat)
  | .len => do
    let (len, zm) ← zipmapLen zm
    .ok (zm, len)

def runOps (zm : Bytes) : List Op → Except Fault (Bytes × List ℕ)
  | [] => .ok (zm, [])
  | op :: ops => do
    let (zm, reply) ← applyOp zm op
    let (zm, replies) ← runOps zm ops
    .ok (zm, reply :: replies)

def mapOp (m : HashMap) : Op → HashMap × ℕ
  | .set key val => (m.insert key val, (decide (key ∈ m)).toNat)
  | .del key => (m.erase key, (decide (key ∈ m)).toNat)
  | .len => (m, m.keys.card)

def mapRun (m : HashMap) : List Op → HashMap × List ℕ
  | [] => (m, [])
  | op :: ops =>
    let r := mapRun (mapOp m op).1 ops
    (r.1, (mapOp m op).2 :: r.2)

def orderOp (bs : List (Bytes × Bytes)) : Op → List (Bytes × Bytes)
  | .set key val => setBinding key val bs
  | .del key => delBinding key bs
  | .len => bs

structure Enumerates (bs : List (Bytes × Bytes)) (m : HashMap) : Prop where
  keys : (bs.map Prod.fst).Nodup
  mem : ∀ key val, (key, val) ∈ bs ↔ m.lookup key = some val

variable {bs : List (Bytes × Bytes)} {m : HashMap} {zm key val : Bytes} {es : List Entry}

theorem Enumerates.mem_keys (h : Enumerates bs m) (key : Bytes) :
    key ∈ bs.map Prod.fst ↔ key ∈ m := by
  rw [Finmap.mem_iff, mem_map]
  constructor
  · intro hin
    obtain ⟨b, hb, rfl⟩ := hin
    exact ⟨b.2, (h.mem _ _).1 hb⟩
  · intro hin
    obtain ⟨val, hval⟩ := hin
    exact ⟨(key, val), (h.mem _ _).2 hval, rfl⟩

theorem Enumerates.card (h : Enumerates bs m) : m.keys.card = bs.length := by
  have hkeys : m.keys = (bs.map Prod.fst).toFinset := by
    ext key
    rw [Finmap.mem_keys, List.mem_toFinset, h.mem_keys]
  rw [hkeys, List.toFinset_card_of_nodup h.keys, length_map]

theorem setBinding_keys (key val : Bytes) (bs : List (Bytes × Bytes)) :
    (setBinding key val bs).map Prod.fst =
      if key ∈ bs.map Prod.fst then bs.map Prod.fst else bs.map Prod.fst ++ [key] := by
  induction bs with
  | nil => rfl
  | cons b bs ih =>
    rw [setBinding]
    by_cases hkey : b.1 = key
    · rw [if_pos hkey, if_pos (by rw [← hkey]; exact List.mem_cons_self), map_cons,
        map_cons, hkey]
    · have hiff : key ∈ (b :: bs).map Prod.fst ↔ key ∈ bs.map Prod.fst := by
        rw [map_cons, mem_cons]
        exact or_iff_right (Ne.symm hkey)
      rw [if_neg hkey, map_cons, ih]
      by_cases hin : key ∈ bs.map Prod.fst
      · rw [if_pos hin, if_pos (hiff.2 hin), map_cons]
      · rw [if_neg hin, if_neg fun h => hin (hiff.1 h), map_cons, List.cons_append]

theorem mem_setBinding {b : Bytes × Bytes} (h : (bs.map Prod.fst).Nodup) :
    b ∈ setBinding key val bs ↔ b = (key, val) ∨ (b.1 ≠ key ∧ b ∈ bs) := by
  induction bs with
  | nil => simp [setBinding]
  | cons d bs ih =>
    rw [map_cons, List.nodup_cons] at h
    obtain ⟨hd, hbs⟩ := h
    rw [setBinding]
    by_cases hkey : d.1 = key
    · have hother : ∀ b ∈ bs, b.1 ≠ key := by
        intro b hb heq
        rw [hkey, ← heq] at hd
        exact hd (List.mem_map_of_mem hb)
      rw [if_pos hkey, mem_cons, mem_cons]
      constructor
      · rintro (rfl | hb)
        · exact Or.inl rfl
        · exact Or.inr ⟨hother b hb, Or.inr hb⟩
      · rintro (rfl | ⟨hne, rfl | hb⟩)
        · exact Or.inl rfl
        · exact absurd hkey hne
        · exact Or.inr hb
    · rw [if_neg hkey, mem_cons, ih hbs, mem_cons]
      constructor
      · rintro (rfl | hb | ⟨hne, hb⟩)
        · exact Or.inr ⟨hkey, Or.inl rfl⟩
        · exact Or.inl hb
        · exact Or.inr ⟨hne, Or.inr hb⟩
      · rintro (hb | ⟨hne, hb | hb⟩)
        · exact Or.inr (Or.inl hb)
        · exact Or.inl hb
        · exact Or.inr (Or.inr ⟨hne, hb⟩)

theorem Enumerates.set (h : Enumerates bs m) (key val : Bytes) :
    Enumerates (setBinding key val bs) (m.insert key val) where
  keys := by
    rw [setBinding_keys]
    by_cases hin : key ∈ bs.map Prod.fst
    · rw [if_pos hin]
      exact h.keys
    · rw [if_neg hin]
      exact List.nodup_append_comm.1 (List.nodup_cons.2 ⟨hin, h.keys⟩)
  mem := by
    intro k v
    rw [mem_setBinding h.keys, h.mem]
    by_cases hk : k = key
    · rw [hk, Finmap.lookup_insert]
      simp [eq_comm]
    · rw [Finmap.lookup_insert_of_ne m hk]
      simp [hk]

theorem Enumerates.del (h : Enumerates bs m) (key : Bytes) :
    Enumerates (delBinding key bs) (m.erase key) where
  keys := h.keys.sublist (List.filter_sublist.map _)
  mem := by
    intro k v
    rw [delBinding, List.mem_filter, h.mem]
    by_cases hk : k = key
    · rw [hk, Finmap.lookup_erase]
      simp
    · rw [Finmap.lookup_erase_ne hk]
      simp [hk]

theorem Enumerates.step (h : Enumerates bs m) (op : Op) :
    Enumerates (orderOp bs op) (mapOp m op).1 := by
  cases op with
  | set key val => exact h.set key val
  | del key => exact h.del key
  | len => exact h

theorem applyOp_holds (h : Holds zm es) (hm : Enumerates (bindings es) m) (op : Op) :
    ReturnsOr .sizeWrap (applyOp zm op) (fun r => r.2 = (mapOp m op).2 ∧ ∃ es', Holds r.1 es' ∧
      bindings es' = orderOp (bindings es) op) := by
  cases op with
  | set key val =>
    have hflag : decide (key ∈ (bindings es).map Prod.fst) = decide (key ∈ m) :=
      decide_eq_decide.2 (hm.mem_keys key)
    refine (zipmapSet_holds h key val).bind fun r hr => ?_
    obtain ⟨hr, es', hholds, hbindings⟩ := hr
    exact ⟨congrArg Bool.toNat (hr.trans hflag), es', hholds, hbindings⟩
  | del key =>
    have hflag : decide (key ∈ (bindings es).map Prod.fst) = decide (key ∈ m) :=
      decide_eq_decide.2 (hm.mem_keys key)
    obtain ⟨zm', es', hdel, hholds, hbindings⟩ := zipmapDel_holds h key
    rw [applyOp, hdel, ok_bind, returnsOr_ok]
    exact ⟨congrArg Bool.toNat hflag, es', hholds, hbindings⟩
  | len =>
    obtain ⟨zm', hlen, hholds⟩ := zipmapLen_holds h
    have hcard : es.length = m.keys.card := by rw [hm.card, bindings, length_map]
    rw [applyOp, hlen, ok_bind, returnsOr_ok]
    exact ⟨hcard, es, hholds, rfl⟩

theorem runOps_holds (ops : List Op) : ∀ {zm : Bytes} {es : List Entry} {m : HashMap}, Holds zm es →
    Enumerates (bindings es) m →
    ReturnsOr .sizeWrap (runOps zm ops) (fun r => r.2 = (mapRun m ops).2 ∧ ∃ es', Holds r.1 es' ∧
      bindings es' = ops.foldl orderOp (bindings es) ∧
      Enumerates (bindings es') (mapRun m ops).1) := by
  induction ops with
  | nil => exact fun h hm => ⟨rfl, _, h, rfl, hm⟩
  | cons op ops ih =>
    intro zm es m h hm
    refine (applyOp_holds h hm op).bind fun r hr => ?_
    obtain ⟨hreply, es', hholds, hbindings⟩ := hr
    have hstep := hm.step op
    rw [← hbindings] at hstep
    refine (ih hholds hstep).bind fun r' hr' => ?_
    obtain ⟨hreplies, es'', hholds', hbindings', hm'⟩ := hr'
    rw [hbindings] at hbindings'
    refine ⟨?_, es'', hholds', hbindings', hm'⟩
    rw [hreply, hreplies]
    rfl

structure Represents (zm : Bytes) (m : HashMap) : Prop where
  layout : ∃ es, Holds zm es
  blobLen : zipmapBlobLen zm = .ok zm.length
  get : ∀ key, zipmapGet zm key = .ok (m.lookup key)
  contains : ∀ key, zipmapExists zm key = .ok (decide (key ∈ m))
  len : ∃ zm', zipmapLen zm = .ok (m.keys.card, zm')
  iteration : ∃ bs, zipmapBindings zm = .ok bs ∧ Enumerates bs m

theorem represents_of_holds (h : Holds zm es) (hm : Enumerates (bindings es) m) :
    Represents zm m where
  layout := ⟨es, h⟩
  blobLen := zipmapBlobLen_holds h
  get := by
    intro key
    rcases find_key es key with hnew | ⟨xs, e, ys, rfl, rfl⟩
    · have hnone : m.lookup key = none := by
        rw [Finmap.lookup_eq_none, ← hm.mem_keys]
        intro hin
        obtain ⟨b, hb, heq⟩ := mem_map.1 hin
        exact bindings_other hnew b hb heq
      rw [hnone, zipmapGet_missing h hnew]
    · have hsome : m.lookup e.key = some e.val :=
        (hm.mem _ _).1 (mem_map.2 ⟨e, by simp, rfl⟩)
      rw [hsome, zipmapGet_found h]
  contains := by
    intro key
    rcases find_key es key with hnew | ⟨xs, e, ys, rfl, rfl⟩
    · have hout : key ∉ m := by
        rw [← hm.mem_keys]
        intro hin
        obtain ⟨b, hb, heq⟩ := mem_map.1 hin
        exact bindings_other hnew b hb heq
      rw [decide_eq_false hout, zipmapExists_missing h hnew]
    · have hin : e.key ∈ m := by
        rw [← hm.mem_keys]
        exact mem_map.2 ⟨e.binding, mem_map.2 ⟨e, by simp, rfl⟩, rfl⟩
      rw [decide_eq_true hin, zipmapExists_found h]
  len := by
    obtain ⟨zm', hlen, -⟩ := zipmapLen_holds h
    have hcard : m.keys.card = es.length := by rw [hm.card, bindings, length_map]
    rw [hcard]
    exact ⟨zm', hlen⟩
  iteration := ⟨_, zipmapBindings_holds h, hm⟩

def LoadsSame (limits : HashLimits) (zm : Bytes) (m : HashMap) : Prop :=
  ∃ o bs, loadHashZipmap limits zm = .ok o ∧ hashPairs o = .ok bs ∧ Enumerates bs m

theorem loadsSame_iff (h : Holds zm es) (hm : Enumerates (bindings es) m) (limits : HashLimits) :
    LoadsSame limits zm m ↔ ziplistSize (bindings es) < 2^32 := by
  obtain ⟨hfits, hwraps⟩ := loadHashZipmap_holds h limits
  constructor
  · intro hsame
    obtain ⟨o, bs, hload, -⟩ := hsame
    by_contra hge
    rw [hwraps hge] at hload
    cases hload
  · intro hlt
    obtain ⟨o, hload, hpairs⟩ := hfits hlt
    exact ⟨o, _, hload, hpairs, hm⟩

theorem empty_enumerates : Enumerates [] ∅ where
  keys := List.nodup_nil
  mem := by simp

end RedisCore.Zipmap
