import Mathlib.Data.Finset.Card
import RedisCore.ClusterEdits

namespace RedisCore.Cluster
open Function (update_of_ne update_self)
open Finset (mem_filter mem_univ)

variable {k : Slack} {cs cs' cs'' : ClusterState} {x y : NodeId} {n m : ClusterNode} {j : Slot}

theorem Table.fresh_none (ht : Table cs) : cs.nodes cs.fresh = none := by
  cases h : cs.nodes cs.fresh with
  | none => rfl
  | some n => exact absurd (ht.bound _ n h) (lt_irrefl _)

structure Alike (cs cs' : ClusterState) : Prop where
  old : ∀ y n', cs'.nodes y = some n' → ∃ n, cs.nodes y = some n ∧ n'.name = n.name ∧
    n'.slots = n.slots ∧ n'.numslots = n.numslots ∧ n'.flags.handshake = n.flags.handshake
  live : ∀ y n, cs.nodes y = some n → ∃ n', cs'.nodes y = some n'
  table : cs'.table = cs.table
  slots : cs'.slots = cs.slots
  importing : cs'.importingSlotsFrom = cs.importingSlotsFrom
  migrating : cs'.migratingSlotsTo = cs.migratingSlotsTo
  fresh : cs'.fresh = cs.fresh
  myself : cs'.myself = cs.myself

theorem Alike.refl (cs : ClusterState) : Alike cs cs :=
  ⟨fun _ n h => ⟨n, h, rfl, rfl, rfl, rfl⟩, fun _ n h => ⟨n, h⟩, rfl, rfl, rfl, rfl, rfl, rfl⟩

theorem Alike.trans (h : Alike cs cs') (h' : Alike cs' cs'') : Alike cs cs'' := by
  refine ⟨?_, ?_, h'.table.trans h.table, h'.slots.trans h.slots, h'.importing.trans h.importing,
    h'.migrating.trans h.migrating, h'.fresh.trans h.fresh, h'.myself.trans h.myself⟩
  · intro y n'' hy
    obtain ⟨n', hy', h1, h2, h3, h4⟩ := h'.old y n'' hy
    obtain ⟨n, hy, g1, g2, g3, g4⟩ := h.old y n' hy'
    exact ⟨n, hy, h1.trans g1, h2.trans g2, h3.trans g3, h4.trans g4⟩
  · intro y n hy
    obtain ⟨n', hy'⟩ := h.live y n hy
    exact h'.live y n' hy'

theorem alike_of_map {nodes : NodeId → Option ClusterNode} (f : NodeId → ClusterNode → ClusterNode)
    (hn : ∀ y, nodes y = (cs.nodes y).map (f y))
    (hf : ∀ y n, cs.nodes y = some n → (f y n).name = n.name ∧ (f y n).slots = n.slots ∧
      (f y n).numslots = n.numslots ∧ (f y n).flags.handshake = n.flags.handshake) :
    Alike cs { cs with nodes := nodes } := by
  refine ⟨?_, ?_, rfl, rfl, rfl, rfl, rfl, rfl⟩
  · intro y n' hy
    have hy' : nodes y = some n' := hy
    rw [hn, Option.map_eq_some_iff] at hy'
    obtain ⟨n, h, rfl⟩ := hy'
    exact ⟨n, h, hf y n h⟩
  · intro y n hy
    refine ⟨f y n, ?_⟩
    show nodes y = _
    rw [hn, hy, Option.map_some]

theorem alike_mapNode {f : ClusterNode → ClusterNode}
    (hf : ∀ n, cs.nodes x = some n → (f n).name = n.name ∧ (f n).slots = n.slots ∧
      (f n).numslots = n.numslots ∧ (f n).flags.handshake = n.flags.handshake) :
    Alike cs (mapNode cs x f) := by
  apply alike_of_map (fun y => if y = x then f else id)
  · intro y
    by_cases hy : y = x
    · rw [if_pos hy, if_pos hy]
    · rw [if_neg hy, if_neg hy, Option.map_id, id]
  · intro y n hn
    by_cases hy : y = x
    · rw [if_pos hy]
      exact hf n (hy ▸ hn)
    · rw [if_neg hy]
      exact ⟨rfl, rfl, rfl, rfl⟩

theorem dropSlave_same (x : NodeId) (m : ClusterNode) : (dropSlave x m).name = m.name ∧
    (dropSlave x m).slots = m.slots ∧ (dropSlave x m).numslots = m.numslots ∧
    (dropSlave x m).flags.handshake = m.flags.handshake := by
  by_cases hx : x ∈ m.slaves
  · rw [dropSlave, if_pos hx]
    by_cases he : (m.slaves.erase x).isEmpty = true
    · simp only [he, if_true, and_self]
    · simp only [he, if_false, Bool.false_eq_true, and_self]
  · rw [dropSlave, if_neg hx]
    exact ⟨rfl, rfl, rfl, rfl⟩

theorem takeSlave_same (x : NodeId) (m : ClusterNode) : (takeSlave x m).name = m.name ∧
    (takeSlave x m).slots = m.slots ∧ (takeSlave x m).numslots = m.numslots ∧
    (takeSlave x m).flags.handshake = m.flags.handshake := by
  unfold takeSlave
  split_ifs <;> exact ⟨rfl, rfl, rfl, rfl⟩

theorem alike_unlink (cs : ClusterState) (x : NodeId) : Alike cs (unlink cs x) := by
  unfold unlink
  split
  · exact Alike.refl cs
  · exact alike_mapNode (fun n _ => dropSlave_same x n)

theorem alike_orphan (cs : ClusterState) (slaves : List NodeId) : Alike cs (orphan cs slaves) := by
  apply alike_of_map (fun y => if y ∈ slaves then fun n => { n with slaveof := none } else id)
  · intro y
    by_cases hy : y ∈ slaves
    · rw [if_pos hy, if_pos hy]
    · rw [if_neg hy, if_neg hy, Option.map_id, id]
  · intro y n _
    by_cases hy : y ∈ slaves
    · rw [if_pos hy]
      exact ⟨rfl, rfl, rfl, rfl⟩
    · rw [if_neg hy]
      exact ⟨rfl, rfl, rfl, rfl⟩

theorem alike_detached (cs : ClusterState) (x : NodeId) (n : ClusterNode) :
    Alike cs (detached cs x n) := by
  unfold detached
  split_ifs
  · exact (alike_orphan cs n.slaves).trans (alike_unlink _ x)
  · exact alike_orphan cs n.slaves

theorem SameView.alike (h : SameView cs cs') : Alike cs cs' := by
  refine ⟨?_, ?_, h.table, h.slots, h.importing, h.migrating, h.fresh, h.myself⟩
  · intro y n hy
    rw [h.nodes] at hy
    exact ⟨n, hy, rfl, rfl, rfl, rfl⟩
  · intro y n hy
    exact ⟨n, by rw [h.nodes]; exact hy⟩

theorem Touched.alike (h : Touched cs cs') : Alike cs cs' := by
  refine ⟨?_, ?_, h.table, h.slots, h.importing, h.migrating, h.fresh, h.myself⟩
  · intro y n' hy
    obtain ⟨n, hn, hs⟩ := h.old y n' hy
    exact ⟨n, hn, hs.name, hs.slots, hs.numslots, hs.handshake⟩
  · intro y n hy
    obtain ⟨n', hn', -⟩ := h.live y n hy
    exact ⟨n', hn'⟩

theorem Table.alike (ht : Table cs) (h : Alike cs cs') : Table cs' := by
  refine ⟨?_, ?_, ?_, ?_, ?_, ?_, ?_, ?_⟩
  · intro x n' hx j
    obtain ⟨n, hx, -, hs, -⟩ := h.old x n' hx
    rw [hs, h.slots]
    exact ht.bit x n hx j
  · intro j x hj
    rw [h.slots] at hj
    obtain ⟨n, hn⟩ := ht.owner j x hj
    exact h.live x n hn
  · intro x n' hx
    obtain ⟨n, hx, -, hs, hc, -⟩ := h.old x n' hx
    rw [hs, hc]
    exact ht.count x n hx
  · intro j x hj
    rw [h.importing] at hj
    obtain ⟨n, hn⟩ := ht.importing j x hj
    exact h.live x n hn
  · intro j x hj
    rw [h.migrating] at hj
    obtain ⟨n, hn⟩ := ht.migrating j x hj
    exact h.live x n hn
  · intro name x hx
    rw [h.table] at hx
    obtain ⟨n, hn, hname⟩ := ht.listed name x hx
    obtain ⟨n', hn'⟩ := h.live x n hn
    obtain ⟨p, hp, hsame, -⟩ := h.old x n' hn'
    rw [hn, Option.some.injEq] at hp
    exact ⟨n', hn', by rw [hsame, ← hp, hname]⟩
  · intro x n' hx hhand
    obtain ⟨n, hn, hname, -, -, hflag⟩ := h.old x n' hx
    rw [h.table, hname]
    exact ht.handshake x n hn (by rw [← hflag, hhand])
  · intro x n' hx
    obtain ⟨n, hx, -⟩ := h.old x n' hx
    rw [h.fresh]
    exact ht.bound x n hx

theorem View.alike (hv : View cs) (h : Alike cs cs') : View cs' := by
  obtain ⟨n, hn⟩ := hv.me
  obtain ⟨n', hn'⟩ := h.live _ n hn
  exact ⟨hv.toTable.alike h, n', by rw [h.myself]; exact hn'⟩

theorem card_set {s : Slot → Bool} (hj : s j = false) :
    (Finset.univ.filter (fun i => Function.update s j true i = true)).card =
      (Finset.univ.filter (fun i => s i = true)).card+1 := by
  have hset : Finset.univ.filter (fun i => Function.update s j true i = true) =
      insert j (Finset.univ.filter (fun i => s i = true)) := by
    ext i
    rw [Finset.mem_insert, mem_filter, mem_filter]
    by_cases hi : i = j
    · simp [hi]
    · simp [hi]
  rw [hset, Finset.card_insert_of_notMem]
  rw [mem_filter, hj]
  simp

theorem card_clear {s : Slot → Bool} (hj : s j = true) :
    (Finset.univ.filter (fun i => Function.update s j false i = true)).card =
      (Finset.univ.filter (fun i => s i = true)).card-1 := by
  have hset : Finset.univ.filter (fun i => Function.update s j false i = true) =
      (Finset.univ.filter (fun i => s i = true)).erase j := by
    ext i
    rw [Finset.mem_erase, mem_filter, mem_filter]
    by_cases hi : i = j
    · simp [hi]
    · simp [hi]
  rw [hset, Finset.card_erase_of_mem]
  rw [mem_filter]
  exact ⟨mem_univ _, hj⟩

theorem Table.writeSlot (ht : Table cs) (hx : cs.nodes x = some n)
    (hown : cs.slots j = none ∨ cs.slots j = some x) (b : Bool) {n' : ClusterNode}
    (hname : n'.name = n.name) (hhand : n'.flags.handshake = n.flags.handshake)
    (hslots : n'.slots = Function.update n.slots j b)
    (hcount : n'.numslots = (Finset.univ.filter (fun i => n'.slots i = true)).card) :
    Table { setNode cs x n' with
      slots := Function.update cs.slots j (if b then some x else none) } := by
  have hlive : ∀ y, (∃ m, cs.nodes y = some m) → ∃ m, (setNode cs x n').nodes y = some m := by
    rintro y ⟨m, hy⟩
    rw [setNode_nodes]
    by_cases hyx : y = x
    · exact ⟨n', if_pos hyx⟩
    · exact ⟨m, by rw [if_neg hyx, hy]⟩
  -- a node of the new view is `x`, or it is untouched
  have hold : ∀ y m, (setNode cs x n').nodes y = some m →
      (y = x ∧ m = n') ∨ (y ≠ x ∧ cs.nodes y = some m) := by
    intro y m hy
    rw [setNode_nodes] at hy
    by_cases hyx : y = x
    · rw [if_pos hyx] at hy
      exact Or.inl ⟨hyx, (Option.some.inj hy).symm⟩
    · rw [if_neg hyx] at hy
      exact Or.inr ⟨hyx, hy⟩
  have hname' : ∀ y m, (setNode cs x n').nodes y = some m → ∃ m', cs.nodes y = some m' ∧
      m'.name = m.name ∧ m'.flags.handshake = m.flags.handshake := by
    intro y m hy
    rcases hold y m hy with ⟨rfl, rfl⟩ | ⟨-, hy'⟩
    · exact ⟨n, hx, hname.symm, hhand.symm⟩
    · exact ⟨m, hy', rfl, rfl⟩
  refine ⟨?_, ?_, ?_, ?_, ?_, ?_, ?_, ?_⟩
  · intro y m hy i
    show m.slots i = true ↔ Function.update cs.slots j (if b then some x else none) i = some y
    by_cases hi : i = j
    · rcases hold y m hy with ⟨rfl, rfl⟩ | ⟨hne, hy'⟩
      · rw [hslots, hi, update_self, update_self]
        cases b <;> simp
      · rw [hi, update_self, ht.bit y m hy' j]
        rcases hown with h | h <;> cases b <;> simp [h, Ne.symm hne]
    · rw [update_of_ne hi]
      rcases hold y m hy with ⟨rfl, rfl⟩ | ⟨-, hy'⟩
      · rw [hslots, update_of_ne hi]
        exact ht.bit y n hx i
      · exact ht.bit y m hy' i
  · intro i y hi
    have hs : Function.update cs.slots j (if b then some x else none) i = some y := hi
    by_cases hij : i = j
    · rw [hij, update_self] at hs
      cases b with
      | false => cases hs
      | true =>
        cases hs
        exact hlive x ⟨n, hx⟩
    · rw [update_of_ne hij] at hs
      exact hlive y (ht.owner i y hs)
  · intro y m hy
    rcases hold y m hy with ⟨rfl, rfl⟩ | ⟨-, hy'⟩
    · exact hcount
    · exact ht.count y m hy'
  · intro i y hi
    exact hlive y (ht.importing i y hi)
  · intro i y hi
    exact hlive y (ht.migrating i y hi)
  · intro name y hy
    obtain ⟨m, hm, hmname⟩ := ht.listed name y hy
    obtain ⟨m', hm'⟩ := hlive y ⟨m, hm⟩
    obtain ⟨p, hp, heq, -⟩ := hname' y m' hm'
    rw [hm, Option.some.injEq] at hp
    exact ⟨m', hm', by rw [← heq, ← hp, hmname]⟩
  · intro y m hy hh
    obtain ⟨m', hm', heq, hflag⟩ := hname' y m hy
    rw [← heq]
    exact ht.handshake y m' hm' (by rw [hflag, hh])
  · intro y m hy
    obtain ⟨m', hy', -⟩ := hname' y m hy
    exact ht.bound y m' hy'

theorem Table.bindSlot (ht : Table cs) (hx : cs.nodes x = some n) (hfree : cs.slots j = none)
    {n' : ClusterNode} (hname : n'.name = n.name) (hhand : n'.flags.handshake = n.flags.handshake)
    (hslots : n'.slots = Function.update n.slots j true) (hnum : n'.numslots = n.numslots+1) :
    Table { setNode cs x n' with slots := Function.update cs.slots j (some x) } := by
  have hbit : n.slots j = false := by
    by_contra h
    rw [Bool.not_eq_false, ht.bit x n hx j, hfree] at h
    cases h
  apply ht.writeSlot hx (Or.inl hfree) true hname hhand hslots
  rw [hnum, hslots, card_set hbit, ht.count x n hx]

theorem Table.unbindSlot (ht : Table cs) (hx : cs.nodes x = some n) (hs : cs.slots j = some x) :
    Table { setNode cs x { n with
        slots := Function.update n.slots j false, numslots := n.numslots-1 } with
      slots := Function.update cs.slots j none } := by
  have hbit : n.slots j = true := (ht.bit x n hx j).mpr hs
  have hcount : n.numslots-1 =
      (Finset.univ.filter (fun i => Function.update n.slots j false i = true)).card := by
    rw [card_clear hbit, ht.count x n hx]
  have hname : ({ n with slots := Function.update n.slots j false, numslots := n.numslots-1 }
    : ClusterNode).name = n.name := rfl
  exact ht.writeSlot hx (Or.inr hs) false hname rfl rfl hcount

theorem Table.no_slots (ht : Table cs) (hx : cs.nodes x = some n) (hnum : n.numslots = 0) (j : Slot) :
    cs.slots j ≠ some x := by
  intro hj
  have hcard := ht.count x n hx
  rw [hnum] at hcard
  have hmem := Finset.card_eq_zero.mp hcard.symm
  have hin : j ∈ Finset.univ.filter (fun j => n.slots j = true) := by
    rw [mem_filter]
    exact ⟨mem_univ j, (ht.bit x n hx j).mpr hj⟩
  rw [hmem] at hin
  exact absurd hin (Finset.notMem_empty j)

theorem Table.join (ht : Table cs) (hn : Newborn n) (hname : clusterLookupNode cs n.name = none) :
    Table { setNode cs cs.fresh n with
      table := Function.update cs.table n.name (some cs.fresh), fresh := cs.fresh+1 } := by
  have hfresh := ht.fresh_none
  have hlive : ∀ y m, cs.nodes y = some m → (setNode cs cs.fresh n).nodes y = some m := by
    intro y m hy
    rw [setNode_nodes, if_neg, hy]
    rintro rfl
    rw [hfresh] at hy
    cases hy
  have hlives : ∀ y, (∃ m, cs.nodes y = some m) → ∃ m, (setNode cs cs.fresh n).nodes y = some m := by
    rintro y ⟨m, hy⟩
    exact ⟨m, hlive y m hy⟩
  have hold : ∀ y m, (setNode cs cs.fresh n).nodes y = some m →
      (y = cs.fresh ∧ m = n) ∨ cs.nodes y = some m := by
    intro y m hy
    rw [setNode_nodes] at hy
    by_cases hyx : y = cs.fresh
    · rw [if_pos hyx] at hy
      exact Or.inl ⟨hyx, (Option.some.inj hy).symm⟩
    · rw [if_neg hyx] at hy
      exact Or.inr hy
  refine ⟨?_, ?_, ?_, ?_, ?_, ?_, ?_, ?_⟩
  · intro y m hy j
    rcases hold y m hy with ⟨rfl, rfl⟩ | hy'
    · rw [hn.slots]
      constructor
      · intro h
        cases h
      · intro h
        obtain ⟨p, hp⟩ := ht.owner j _ h
        rw [hfresh] at hp
        cases hp
    · exact ht.bit y m hy' j
  · intro j y hj
    exact hlives y (ht.owner j y hj)
  · intro y m hy
    rcases hold y m hy with ⟨rfl, rfl⟩ | hy'
    · rw [hn.numslots, hn.slots]
      simp
    · exact ht.count y m hy'
  · intro j y hj
    exact hlives y (ht.importing j y hj)
  · intro j y hj
    exact hlives y (ht.migrating j y hj)
  · intro name y hy
    have hy' : Function.update cs.table n.name (some cs.fresh) name = some y := hy
    by_cases heq : name = n.name
    · rw [heq, update_self, Option.some.injEq] at hy'
      exact ⟨n, by show (setNode cs cs.fresh n).nodes y = _; rw [setNode_nodes, if_pos hy'.symm], heq.symm⟩
    · rw [update_of_ne heq] at hy'
      obtain ⟨m, hm, hmname⟩ := ht.listed name y hy'
      exact ⟨m, hlive y m hm, hmname⟩
  · intro y m hy hhand
    show Function.update cs.table n.name (some cs.fresh) m.name = some y
    rcases hold y m hy with ⟨rfl, rfl⟩ | hy'
    · rw [update_self]
    · have hlisted := ht.handshake y m hy' hhand
      rw [update_of_ne, hlisted]
      intro heq
      rw [← heq] at hname
      rw [clusterLookupNode, hlisted] at hname
      cases hname
  · intro y m hy
    rcases hold y m hy with ⟨rfl, rfl⟩ | hy'
    · exact Nat.lt_succ_self _
    · exact lt_trans (ht.bound y m hy') (Nat.lt_succ_self _)

theorem Table.drop (ht : Table cs) (hx : cs.nodes x = some n) (hname : cs.table n.name = some x)
    (hs : ∀ j, cs.slots j ≠ some x) (hi : ∀ j, cs.importingSlotsFrom j ≠ some x)
    (hm : ∀ j, cs.migratingSlotsTo j ≠ some x) : Table (dropNode cs x n.name) := by
  have hold : ∀ y m, (dropNode cs x n.name).nodes y = some m → y ≠ x ∧ cs.nodes y = some m := by
    intro y m hy
    have hy' : (if y = x then none else cs.nodes y) = some m := hy
    by_cases hyx : y = x
    · rw [if_pos hyx] at hy'
      cases hy'
    · rw [if_neg hyx] at hy'
      exact ⟨hyx, hy'⟩
  have hlive : ∀ y m, y ≠ x → cs.nodes y = some m → (dropNode cs x n.name).nodes y = some m := by
    intro y m hyx hy
    show (if y = x then none else cs.nodes y) = some m
    rw [if_neg hyx, hy]
  have hlives : ∀ y, y ≠ x → (∃ m, cs.nodes y = some m) →
      ∃ m, (dropNode cs x n.name).nodes y = some m := by
    rintro y hyx ⟨m, hy⟩
    exact ⟨m, hlive y m hyx hy⟩
  refine ⟨?_, ?_, ?_, ?_, ?_, ?_, ?_, ?_⟩
  · intro y m hy j
    exact ht.bit y m (hold y m hy).2 j
  · intro j y hj
    exact hlives y (fun h => hs j (h ▸ hj)) (ht.owner j y hj)
  · intro y m hy
    exact ht.count y m (hold y m hy).2
  · intro j y hj
    exact hlives y (fun h => hi j (h ▸ hj)) (ht.importing j y hj)
  · intro j y hj
    exact hlives y (fun h => hm j (h ▸ hj)) (ht.migrating j y hj)
  · intro name y hy
    have hy' : Function.update cs.table n.name none name = some y := hy
    by_cases heq : name = n.name
    · rw [heq, update_self] at hy'
      cases hy'
    · rw [update_of_ne heq] at hy'
      obtain ⟨m, hm', hmname⟩ := ht.listed name y hy'
      refine ⟨m, hlive y m ?_ hm', hmname⟩
      rintro rfl
      rw [hx, Option.some.injEq] at hm'
      exact heq (by rw [← hmname, hm'])
  · intro y m hy hhand
    obtain ⟨hyx, hy'⟩ := hold y m hy
    show Function.update cs.table n.name none m.name = some y
    have hlisted := ht.handshake y m hy' hhand
    rw [update_of_ne, hlisted]
    intro heq
    rw [heq, hname, Option.some.injEq] at hlisted
    exact hyx hlisted.symm
  · intro y m hy
    exact ht.bound y m (hold y m hy).2

theorem relist_eq (table : NodeName → Option NodeId) (x : NodeId) (oldname newname name : NodeName) :
    relist table x oldname newname name =
      if name = newname ∧ Function.update table oldname none newname = none then some x
      else Function.update table oldname none name := by
  unfold relist
  cases ht : Function.update table oldname none newname with
  | none =>
    by_cases h : name = newname
    · rw [h]
      simp
    · simp [h]
  | some z => simp

theorem Table.complete (ht : Table cs) (hx : cs.nodes x = some n)
    (hhand : n.flags.handshake = true) (name : NodeName) (f : NodeFlags) :
    Table { mapNode cs x (joinAs name f) with table := relist cs.table x n.name name } := by
  have hlisted := ht.handshake x n hx hhand
  have hlive : ∀ y m, y ≠ x → cs.nodes y = some m →
      (mapNode cs x (joinAs name f)).nodes y = some m := by
    intro y m hyx hy
    rw [mapNode_nodes, if_neg hyx, hy]
  have hlives : ∀ y, (∃ m, cs.nodes y = some m) →
      ∃ m, (mapNode cs x (joinAs name f)).nodes y = some m := by
    rintro y ⟨m, hy⟩
    by_cases hyx : y = x
    · exact ⟨joinAs name f m, by rw [mapNode_nodes, if_pos hyx, hy]; rfl⟩
    · exact ⟨m, hlive y m hyx hy⟩
  have hold : ∀ y m, (mapNode cs x (joinAs name f)).nodes y = some m →
      (y = x ∧ m = joinAs name f n) ∨ (y ≠ x ∧ cs.nodes y = some m) := by
    intro y m hy
    rw [mapNode_nodes] at hy
    by_cases hyx : y = x
    · rw [if_pos hyx, hyx, hx] at hy
      exact Or.inl ⟨hyx, (Option.some.inj hy).symm⟩
    · rw [if_neg hyx] at hy
      exact Or.inr ⟨hyx, hy⟩
  -- no other node is listed under the old name of `x`
  have hother : ∀ y name', y ≠ x → cs.table name' = some y → name' ≠ n.name := by
    rintro y name' hyx hy rfl
    rw [hlisted, Option.some.injEq] at hy
    exact hyx hy.symm
  refine ⟨?_, ?_, ?_, ?_, ?_, ?_, ?_, ?_⟩
  · intro y m hy j
    rcases hold y m hy with ⟨rfl, rfl⟩ | ⟨-, hy'⟩
    · exact ht.bit y n hx j
    · exact ht.bit y m hy' j
  · intro j y hj
    exact hlives y (ht.owner j y hj)
  · intro y m hy
    rcases hold y m hy with ⟨rfl, rfl⟩ | ⟨-, hy'⟩
    · exact ht.count y n hx
    · exact ht.count y m hy'
  · intro j y hj
    exact hlives y (ht.importing j y hj)
  · intro j y hj
    exact hlives y (ht.migrating j y hj)
  · intro name' y hy
    have hy' : relist cs.table x n.name name name' = some y := hy
    rw [relist_eq] at hy'
    split_ifs at hy' with h
    · rw [Option.some.injEq] at hy'
      refine ⟨joinAs name f n, ?_, h.1.symm⟩
      show (mapNode cs x (joinAs name f)).nodes y = _
      rw [mapNode_nodes, if_pos hy'.symm, ← hy', hx]
      rfl
    · by_cases heq : name' = n.name
      · rw [heq, update_self] at hy'
        cases hy'
      · rw [update_of_ne heq] at hy'
        obtain ⟨m, hm, hmname⟩ := ht.listed name' y hy'
        refine ⟨m, hlive y m ?_ hm, hmname⟩
        rintro rfl
        rw [hx, Option.some.injEq] at hm
        exact heq (by rw [← hmname, hm])
  · intro y m hy hh
    show relist cs.table x n.name name m.name = some y
    rcases hold y m hy with ⟨rfl, rfl⟩ | ⟨hyx, hy'⟩
    · cases hh
    · have hm := ht.handshake y m hy' hh
      have hupd : Function.update cs.table n.name none m.name = some y := by
        rw [update_of_ne (hother y _ hyx hm), hm]
      rw [relist_eq, hupd, if_neg]
      rintro ⟨heq, hnone⟩
      rw [← heq, hupd] at hnone
      cases hnone
  · intro y m hy
    rcases hold y m hy with ⟨rfl, rfl⟩ | ⟨-, hy'⟩
    · exact ht.bound y n hx
    · exact ht.bound y m hy'

theorem Table.slotState (ht : Table cs) {mig imp : Slot → Option NodeId}
    (hm : ∀ j x, mig j = some x → ∃ n, cs.nodes x = some n)
    (hi : ∀ j x, imp j = some x → ∃ n, cs.nodes x = some n) :
    Table { cs with migratingSlotsTo := mig, importingSlotsFrom := imp } :=
  ⟨ht.bit, ht.owner, ht.count, hi, hm, ht.listed, ht.handshake, ht.bound⟩

theorem View.leave (hv : View cs) : View (quitRole cs) := by
  unfold quitRole
  split_ifs
  · have hs := hv.alike (alike_mapNode (x := cs.myself) (f := asSlave) (fun n _ => ⟨rfl, rfl, rfl, rfl⟩))
    refine ⟨?_, hs.me⟩
    apply hs.toTable.slotState
    · intro j x h
      cases h
    · intro j x h
      cases h
  · exact hv.alike (alike_unlink cs cs.myself)

theorem View.edit (hv : View cs) (e : Edit k cs cs') : View cs' := by
  obtain ⟨me, hme⟩ := hv.me
  cases e with
  | aside h => exact hv.alike h.alike
  | send msgs => exact hv.alike (SameView.alike ⟨rfl, rfl, rfl, rfl, rfl, rfl, rfl, rfl⟩)
  | ballot h => exact hv.alike h.alike
  | touch h => exact hv.alike h.alike
  | join n h hname =>
    refine ⟨hv.toTable.join h hname, ?_⟩
    show ∃ p, (setNode cs cs.fresh n).nodes cs.myself = some p
    rw [setNode_nodes]
    by_cases hf : cs.myself = cs.fresh
    · exact ⟨n, if_pos hf⟩
    · exact ⟨me, by rw [if_neg hf, hme]⟩
  | epochUp e =>
    have ha : Alike cs { cs with currentEpoch := e } :=
      ⟨fun _ n h => ⟨n, h, rfl, rfl, rfl, rfl⟩, fun _ n h => ⟨n, h⟩, rfl, rfl, rfl, rfl, rfl, rfl⟩
    exact hv.alike ha
  | nodeEpoch x e => exact hv.alike (alike_mapNode (fun n _ => ⟨rfl, rfl, rfl, rfl⟩))
  | bind x n n' j hx hfree hn =>
    refine ⟨hv.toTable.bindSlot hx hfree hn.name hn.handshake hn.slots hn.numslots, ?_⟩
    show ∃ p, (setNode cs x n').nodes cs.myself = some p
    rw [setNode_nodes]
    by_cases hf : cs.myself = x
    · exact ⟨n', if_pos hf⟩
    · exact ⟨me, by rw [if_neg hf, hme]⟩
  | unbind x n j hx hs =>
    refine ⟨hv.toTable.unbindSlot hx hs, ?_⟩
    show ∃ p, (setNode cs x _).nodes cs.myself = some p
    rw [setNode_nodes]
    by_cases hf : cs.myself = x
    · exact ⟨_, if_pos hf⟩
    · exact ⟨me, by rw [if_neg hf, hme]⟩
  | slotState mig imp hm hi => exact ⟨hv.toTable.slotState hm hi, hv.me⟩
  | promote x b =>
    exact hv.alike ((alike_unlink cs x).trans (alike_mapNode (fun n _ => ⟨rfl, rfl, rfl, rfl⟩)))
  | demote x => exact hv.alike (alike_mapNode (fun n _ => ⟨rfl, rfl, rfl, rfl⟩))
  | attach x m =>
    exact hv.alike (((alike_unlink cs x).trans (alike_mapNode (fun n _ => takeSlave_same x n))).trans
      (alike_mapNode (fun n _ => ⟨rfl, rfl, rfl, rfl⟩)))
  | follow m =>
    have hlink : Alike (quitRole cs) (mapNode (quitRole cs) cs.myself (slaveOf m)) :=
      alike_mapNode (fun n _ => ⟨rfl, rfl, rfl, rfl⟩)
    exact hv.leave.alike (hlink.trans (alike_mapNode (fun n _ => takeSlave_same cs.myself n)))
  | remove x n hx hne hname hs hi hm =>
    have ha := alike_detached cs x n
    have hd := hv.alike ha
    obtain ⟨n', hn'⟩ := ha.live x n hx
    obtain ⟨p, hp, hsame, -⟩ := ha.old x n' hn'
    rw [hx, Option.some.injEq] at hp
    rw [← hp] at hsame
    refine ⟨?_, ?_⟩
    · rw [← hsame]
      apply hd.toTable.drop hn'
      · rw [hsame, ha.table]
        exact hname
      · rw [ha.slots]
        exact hs
      · rw [ha.importing]
        exact hi
      · rw [ha.migrating]
        exact hm
    · obtain ⟨q, hq⟩ := hd.me
      refine ⟨q, ?_⟩
      show (if (detached cs x n).myself = x then none
        else (detached cs x n).nodes (detached cs x n).myself) = some q
      rw [if_neg (fun h => hne (h.symm.trans ha.myself)), hq]
  | complete x n hx name f hhand =>
    refine ⟨hv.toTable.complete hx hhand name f, ?_⟩
    show ∃ p, (mapNode cs x _).nodes cs.myself = some p
    rw [mapNode_nodes]
    by_cases hf : cs.myself = x
    · rw [if_pos hf, hme]
      exact ⟨_, rfl⟩
    · rw [if_neg hf]
      exact ⟨me, hme⟩

end RedisCore.Cluster
