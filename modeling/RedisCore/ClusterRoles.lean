import Mathlib.Data.List.Nodup
import RedisCore.ClusterTable

namespace RedisCore.Cluster
open Option (bind_some map_eq_some_iff)

variable {k : Slack} {cs cs' : ClusterState} {x y : NodeId} {n m : ClusterNode} {j : Slot}

structure SameRole (n n' : ClusterNode) : Prop where
  slaves : n'.slaves = n.slaves
  slaveof : n'.slaveof = n.slaveof
  master : n'.flags.master = n.flags.master
  slave : n'.flags.slave = n.flags.slave
  handshake : n'.flags.handshake = n.flags.handshake

theorem SameRole.refl (n : ClusterNode) : SameRole n n := ⟨rfl, rfl, rfl, rfl, rfl⟩

variable {n' p : ClusterNode} {f : NodeFlags} {u : ClusterState}

theorem SameNode.role {n : ClusterNode} (h : SameNode n n') : SameRole n n' :=
  ⟨h.slaves, h.slaveof, h.master, h.slave, h.handshake⟩

theorem OneRole.congr {f' : NodeFlags} (h : OneRole f) (hm : f'.master = f.master)
    (hs : f'.slave = f.slave) (hh : f'.handshake = f.handshake) : OneRole f' := by
  unfold OneRole at *
  rw [hm, hs, hh]
  exact h

structure SameRoles (cs cs' : ClusterState) : Prop where
  old : ∀ y n', cs'.nodes y = some n' → ∃ n, cs.nodes y = some n ∧ SameRole n n'
  live : ∀ y n, cs.nodes y = some n → ∃ n', cs'.nodes y = some n' ∧ SameRole n n'
  myself : cs'.myself = cs.myself

theorem Roles.same (h : Roles cs) (hs : SameRoles cs cs')
    (hown : ∀ j x, cs'.slots j = some x → cs.slots j = some x ∨
      ∃ n, cs.nodes x = some n ∧ n.flags.master = true) : Roles cs' := by
  refine ⟨?_, ?_, ?_, ?_, ?_, ?_, ?_, ?_, ?_⟩
  · intro x n' y hx hy
    obtain ⟨n, hn, hr⟩ := hs.old x n' hx
    obtain ⟨m, hm, hmem⟩ := h.attached x n y hn (by rw [← hr.slaveof, hy])
    obtain ⟨m', hm', hr'⟩ := hs.live y m hm
    exact ⟨m', hm', by rw [hr'.slaves]; exact hmem⟩
  · intro y m' x hy hx
    obtain ⟨m, hm, hr⟩ := hs.old y m' hy
    rw [hr.slaves] at hx
    obtain ⟨n, hn, hslave⟩ := h.slaves y m x hm hx
    obtain ⟨n', hn', hr'⟩ := hs.live x n hn
    exact ⟨n', hn', by rw [hr'.slaveof, hslave]⟩
  · intro y m' hy
    obtain ⟨m, hm, hr⟩ := hs.old y m' hy
    rw [hr.slaves]
    exact h.distinct y m hm
  · intro x n' y hx hy
    obtain ⟨n, hn, hr⟩ := hs.old x n' hx
    rw [hr.slave]
    exact h.slaveFlag x n y hn (by rw [← hr.slaveof, hy])
  · intro x n' hx
    obtain ⟨n, hn, hr⟩ := hs.old x n' hx
    exact (h.oneRole x n hn).congr hr.master hr.slave hr.handshake
  · intro j x n' hj hx
    obtain ⟨n, hn, hr⟩ := hs.old x n' hx
    rw [hr.master]
    rcases hown j x hj with hj' | ⟨p, hp, hmaster⟩
    · exact h.owner j x n hj' hn
    · rw [hn, Option.some.injEq] at hp
      rw [hp, hmaster]
  · intro n' hx hslave
    rw [hs.myself] at hx
    obtain ⟨n, hn, hr⟩ := hs.old _ n' hx
    rw [hr.slave] at hslave
    rw [hr.slaveof]
    exact h.follows n hn hslave
  · intro n' hx
    rw [hs.myself] at hx
    obtain ⟨n, hn, hr⟩ := hs.old _ n' hx
    rw [hr.handshake]
    exact h.joined n hn
  · intro n' y m' hx hy hm
    rw [hs.myself] at hx
    obtain ⟨n, hn, hr⟩ := hs.old _ n' hx
    obtain ⟨m, hm', hr'⟩ := hs.old y m' hm
    rw [hr'.handshake]
    exact h.master n y m hn (by rw [← hr.slaveof, hy]) hm'

theorem sameRoles_of_nodes (hn : cs'.nodes = cs.nodes) (hm : cs'.myself = cs.myself) :
    SameRoles cs cs' := by
  refine ⟨?_, ?_, hm⟩
  · intro y n hy
    rw [hn] at hy
    exact ⟨n, hy, SameRole.refl n⟩
  · intro y n hy
    exact ⟨n, by rw [hn]; exact hy, SameRole.refl n⟩

theorem sameRoles_mapNode {f : ClusterNode → ClusterNode}
    (hf : ∀ n, cs.nodes x = some n → SameRole n (f n)) : SameRoles cs (mapNode cs x f) := by
  refine ⟨?_, ?_, rfl⟩
  · intro y n' hy
    rw [mapNode_nodes] at hy
    by_cases hyx : y = x
    · rw [if_pos hyx, map_eq_some_iff] at hy
      obtain ⟨n, hn, rfl⟩ := hy
      exact ⟨n, hn, hf n (hyx ▸ hn)⟩
    · rw [if_neg hyx] at hy
      exact ⟨n', hy, SameRole.refl n'⟩
  · intro y n hy
    rw [mapNode_nodes]
    by_cases hyx : y = x
    · rw [if_pos hyx, hy]
      exact ⟨f n, rfl, hf n (hyx ▸ hy)⟩
    · rw [if_neg hyx]
      exact ⟨n, hy, SameRole.refl n⟩

theorem sameRoles_setNode (hx : cs.nodes x = some n) (hr : SameRole n n')
    {cs' : ClusterState} (hn : cs'.nodes = (setNode cs x n').nodes) (hm : cs'.myself = cs.myself) :
    SameRoles cs cs' := by
  refine ⟨?_, ?_, hm⟩
  · intro y p hy
    rw [hn, setNode_nodes] at hy
    by_cases hyx : y = x
    · rw [if_pos hyx, Option.some.injEq] at hy
      rw [hyx, ← hy]
      exact ⟨n, hx, hr⟩
    · rw [if_neg hyx] at hy
      exact ⟨p, hy, SameRole.refl p⟩
  · intro y p hy
    rw [hn, setNode_nodes]
    by_cases hyx : y = x
    · rw [hyx, hx, Option.some.injEq] at hy
      rw [if_pos hyx, ← hy]
      exact ⟨n', rfl, hr⟩
    · rw [if_neg hyx]
      exact ⟨p, hy, SameRole.refl p⟩

theorem Roles.slaveof_none (h : Roles cs) (hx : cs.nodes x = some n) (hs : n.flags.slave = false) :
    n.slaveof = none := by
  cases hm : n.slaveof with
  | none => rfl
  | some y =>
    have hflag := h.slaveFlag x n y hx hm
    rw [hs] at hflag
    cases hflag

theorem OneRole.not_slave (h : OneRole f) (hm : f.master = true) : f.slave = false := by
  rcases h with ⟨-, hm', -⟩ | ⟨-, hs⟩
  · rw [hm] at hm'
    cases hm'
  · rw [hs, hm]
    rfl

theorem OneRole.slave_of (h : OneRole f) (hh : f.handshake = false)
    (hm : f.master = false) : f.slave = true := by
  rcases h with ⟨hh', -⟩ | ⟨-, hs⟩
  · rw [hh] at hh'
    cases hh'
  · rw [hs, hm]
    rfl

theorem OneRole.joined (h : OneRole f) (hm : f.master = true) : f.handshake = false := by
  rcases h with ⟨-, hm', -⟩ | ⟨hh, -⟩
  · rw [hm] at hm'
    cases hm'
  · exact hh

theorem Roles.master_slaveof (h : Roles cs) (hx : cs.nodes x = some n)
    (hm : n.flags.master = true) : n.slaveof = none :=
  h.slaveof_none hx ((h.oneRole x n hx).not_slave hm)

structure Relinked (x : NodeId) (dest : Option NodeId) (cs cs' : ClusterState) : Prop where
  old : ∀ y n', cs'.nodes y = some n' → ∃ n, cs.nodes y = some n ∧ n'.slaves.Nodup ∧
    (∀ z, z ∈ n'.slaves ↔ (z ∈ n.slaves ∧ z ≠ x) ∨ (z = x ∧ dest = some y)) ∧
    (y = x → n'.slaveof = dest) ∧ (y ≠ x → n'.slaveof = n.slaveof) ∧
    (y ≠ x → n'.flags.master = n.flags.master ∧ n'.flags.slave = n.flags.slave ∧
      n'.flags.handshake = n.flags.handshake)
  live : ∀ y n, cs.nodes y = some n → ∃ n', cs'.nodes y = some n'
  myself : cs'.myself = cs.myself
  slots : cs'.slots = cs.slots

theorem Roles.relinked {dest : Option NodeId} (h : Roles cs) (hr : Relinked x dest cs cs')
    (hx : cs.nodes x = some n) (hto : ∀ m, dest = some m → ∃ p, cs.nodes m = some p)
    (hself : ∀ n', cs'.nodes x = some n' → OneRole n'.flags ∧
      (∀ y, dest = some y → n'.flags.slave = true) ∧
      (∀ j, cs.slots j = some x → n'.flags.master = true) ∧
      (x = cs.myself → n'.flags.handshake = false ∧ (n'.flags.slave = true → ∃ y, dest = some y)) ∧
      (n'.flags.handshake = true → n.flags.handshake = true))
    (hmaster : ∀ y p, x = cs.myself → dest = some y → cs.nodes y = some p →
      p.flags.handshake = false) : Roles cs' := by
  refine ⟨?_, ?_, ?_, ?_, ?_, ?_, ?_, ?_, ?_⟩
  · intro z n' y hz hy
    obtain ⟨p, hp, -, -, heq, hne, -⟩ := hr.old z n' hz
    by_cases hzx : z = x
    · have hto' : dest = some y := by rw [← heq hzx, hy]
      obtain ⟨q, hq⟩ := hto y hto'
      obtain ⟨q', hq'⟩ := hr.live y q hq
      obtain ⟨r, -, -, hiff, -⟩ := hr.old y q' hq'
      exact ⟨q', hq', (hiff z).mpr (Or.inr ⟨hzx, hto'⟩)⟩
    · obtain ⟨q, hq, hmem⟩ := h.attached z p y hp (by rw [← hne hzx, hy])
      obtain ⟨q', hq'⟩ := hr.live y q hq
      obtain ⟨r, hr1, -, hiff, -⟩ := hr.old y q' hq'
      rw [hq, Option.some.injEq] at hr1
      exact ⟨q', hq', (hiff z).mpr (Or.inl ⟨hr1 ▸ hmem, hzx⟩)⟩
  · intro y m' z hy hz
    obtain ⟨m, hm, -, hiff, -⟩ := hr.old y m' hy
    rcases (hiff z).mp hz with ⟨hmem, hzx⟩ | ⟨hzx, hto'⟩
    · obtain ⟨p, hp, hslave⟩ := h.slaves y m z hm hmem
      obtain ⟨p', hp'⟩ := hr.live z p hp
      obtain ⟨r, hr1, -, -, -, hne, -⟩ := hr.old z p' hp'
      rw [hp, Option.some.injEq] at hr1
      exact ⟨p', hp', by rw [hne hzx, ← hr1, hslave]⟩
    · obtain ⟨p', hp'⟩ := hr.live x n hx
      obtain ⟨r, -, -, -, heq, -⟩ := hr.old x p' hp'
      exact ⟨p', hzx ▸ hp', by rw [heq rfl, hto']⟩
  · intro y m' hy
    obtain ⟨m, -, hnd, -⟩ := hr.old y m' hy
    exact hnd
  · intro z n' y hz hy
    obtain ⟨p, hp, -, -, heq, hne, hflags⟩ := hr.old z n' hz
    by_cases hzx : z = x
    · exact (hself n' (hzx ▸ hz)).2.1 y (by rw [← heq hzx, hy])
    · rw [(hflags hzx).2.1]
      exact h.slaveFlag z p y hp (by rw [← hne hzx, hy])
  · intro z n' hz
    obtain ⟨p, hp, -, -, -, -, hflags⟩ := hr.old z n' hz
    by_cases hzx : z = x
    · exact (hself n' (hzx ▸ hz)).1
    · exact (h.oneRole z p hp).congr (hflags hzx).1 (hflags hzx).2.1 (hflags hzx).2.2
  · intro j z n' hj hz
    rw [hr.slots] at hj
    obtain ⟨p, hp, -, -, -, -, hflags⟩ := hr.old z n' hz
    by_cases hzx : z = x
    · exact (hself n' (hzx ▸ hz)).2.2.1 j (hzx ▸ hj)
    · rw [(hflags hzx).1]
      exact h.owner j z p hj hp
  · intro n' hme hslave
    rw [hr.myself] at hme
    obtain ⟨p, hp, -, -, heq, hne, hflags⟩ := hr.old _ n' hme
    by_cases hzx : cs.myself = x
    · rw [heq hzx]
      exact ((hself n' (hzx ▸ hme)).2.2.2.1 hzx.symm).2 hslave
    · rw [hne hzx]
      exact h.follows p hp (by rw [← (hflags hzx).2.1, hslave])
  · intro n' hme
    rw [hr.myself] at hme
    obtain ⟨p, hp, -, -, -, -, hflags⟩ := hr.old _ n' hme
    by_cases hzx : cs.myself = x
    · exact ((hself n' (hzx ▸ hme)).2.2.2.1 hzx.symm).1
    · rw [(hflags hzx).2.2]
      exact h.joined p hp
  · intro n' y m' hme hy hm
    rw [hr.myself] at hme
    obtain ⟨p, hp, -, -, heq, hne, -⟩ := hr.old _ n' hme
    obtain ⟨q, hq, -, -, -, -, hflags⟩ := hr.old y m' hm
    have hq' : q.flags.handshake = false := by
      by_cases hzx : cs.myself = x
      · exact hmaster y q hzx.symm (by rw [← heq hzx, hy]) hq
      · exact h.master p y q hp (by rw [← hne hzx, hy]) hq
    by_cases hyx : y = x
    · by_contra hne'
      rw [Bool.not_eq_false] at hne'
      have hhand := (hself m' (hyx ▸ hm)).2.2.2.2 hne'
      rw [hyx, hx, Option.some.injEq] at hq
      rw [← hq, hhand] at hq'
      cases hq'
    · rw [(hflags hyx).2.2]
      exact hq'

theorem mem_dropSlave {m : ClusterNode} (hnd : m.slaves.Nodup) (x z : NodeId) :
    z ∈ (dropSlave x m).slaves ↔ z ∈ m.slaves ∧ z ≠ x := by
  by_cases hx : x ∈ m.slaves
  · rw [dropSlave, if_pos hx]
    show z ∈ m.slaves.erase x ↔ _
    rw [hnd.mem_erase_iff]
    exact and_comm
  · rw [dropSlave, if_neg hx]
    constructor
    · intro hz
      refine ⟨hz, ?_⟩
      rintro rfl
      exact hx hz
    · exact fun h => h.1

theorem nodup_dropSlave {m : ClusterNode} (hnd : m.slaves.Nodup) (x : NodeId) :
    (dropSlave x m).slaves.Nodup := by
  by_cases hx : x ∈ m.slaves
  · rw [dropSlave, if_pos hx]
    exact hnd.erase x
  · rw [dropSlave, if_neg hx]
    exact hnd

theorem dropSlave_role (x : NodeId) (m : ClusterNode) : (dropSlave x m).slaveof = m.slaveof ∧
    (dropSlave x m).flags.master = m.flags.master ∧ (dropSlave x m).flags.slave = m.flags.slave ∧
    (dropSlave x m).flags.handshake = m.flags.handshake := by
  by_cases hx : x ∈ m.slaves
  · rw [dropSlave, if_pos hx]
    by_cases he : (m.slaves.erase x).isEmpty = true
    · simp only [he, if_true, and_self]
    · simp only [he, if_false, Bool.false_eq_true, and_self]
  · rw [dropSlave, if_neg hx]
    exact ⟨rfl, rfl, rfl, rfl⟩

theorem mem_takeSlave (m : ClusterNode) (x z : NodeId) :
    z ∈ (takeSlave x m).slaves ↔ z ∈ m.slaves ∨ z = x := by
  unfold takeSlave
  split_ifs with hx
  · constructor
    · exact Or.inl
    · rintro (h | rfl)
      · exact h
      · exact hx
  · rw [List.mem_append, List.mem_singleton]

theorem nodup_takeSlave {m : ClusterNode} (hnd : m.slaves.Nodup) (x : NodeId) :
    (takeSlave x m).slaves.Nodup := by
  unfold takeSlave
  split_ifs with hx
  · exact hnd
  · show (m.slaves ++ [x]).Nodup
    rw [List.nodup_append]
    refine ⟨hnd, List.nodup_singleton x, ?_⟩
    intro a ha b hb
    rw [List.mem_singleton.mp hb]
    rintro rfl
    exact hx ha

theorem takeSlave_role (x : NodeId) (m : ClusterNode) : (takeSlave x m).slaveof = m.slaveof ∧
    (takeSlave x m).flags.master = m.flags.master ∧ (takeSlave x m).flags.slave = m.flags.slave ∧
    (takeSlave x m).flags.handshake = m.flags.handshake := by
  unfold takeSlave
  split_ifs <;> exact ⟨rfl, rfl, rfl, rfl⟩

structure Unlinked (x : NodeId) (cs cs' : ClusterState) : Prop where
  old : ∀ y n', cs'.nodes y = some n' → ∃ n, cs.nodes y = some n ∧ n'.slaves.Nodup ∧
    (∀ z, z ∈ n'.slaves ↔ z ∈ n.slaves ∧ z ≠ x) ∧ n'.slaveof = n.slaveof ∧
    (y ≠ x → n'.flags.master = n.flags.master ∧ n'.flags.slave = n.flags.slave ∧
      n'.flags.handshake = n.flags.handshake)
  live : ∀ y n, cs.nodes y = some n → ∃ n', cs'.nodes y = some n'
  myself : cs'.myself = cs.myself
  slots : cs'.slots = cs.slots

theorem unlink_role (hx : (unlink cs x).nodes y = some m) : ∃ n, cs.nodes y = some n ∧
    m.slaveof = n.slaveof ∧ m.flags.master = n.flags.master ∧ m.flags.slave = n.flags.slave ∧
    m.flags.handshake = n.flags.handshake := by
  unfold unlink at hx
  split at hx
  · exact ⟨m, hx, rfl, rfl, rfl, rfl⟩
  · rename_i p _
    rw [mapNode_nodes] at hx
    by_cases hyp : y = p
    · rw [if_pos hyp, map_eq_some_iff] at hx
      obtain ⟨n, hn, rfl⟩ := hx
      exact ⟨n, hn, dropSlave_role x n⟩
    · rw [if_neg hyp] at hx
      exact ⟨m, hx, rfl, rfl, rfl, rfl⟩

theorem Roles.unlisted (h : Roles cs) (hx : (cs.nodes x).bind ClusterNode.slaveof = none)
    (hy : cs.nodes y = some m) : x ∉ m.slaves := by
  intro hmem
  obtain ⟨p, hp, hslave⟩ := h.slaves y m x hy hmem
  rw [hp, bind_some, hslave] at hx
  cases hx

theorem Roles.unlinked (h : Roles cs) (x : NodeId) : Unlinked x cs (unlink cs x) := by
  have hkeep : ∀ y n, cs.nodes y = some n → x ∉ n.slaves →
      ∀ z, z ∈ n.slaves ↔ z ∈ n.slaves ∧ z ≠ x := by
    intro y n hy hnot z
    constructor
    · intro hz
      refine ⟨hz, ?_⟩
      rintro rfl
      exact hnot hz
    · exact fun hz => hz.1
  unfold unlink
  cases hm : (cs.nodes x).bind ClusterNode.slaveof with
  | none =>
    refine ⟨?_, fun y n hy => ⟨n, hy⟩, rfl, rfl⟩
    intro y n hy
    exact ⟨n, hy, h.distinct y n hy, hkeep y n hy (h.unlisted hm hy), rfl, fun _ => ⟨rfl, rfl, rfl⟩⟩
  | some m =>
    refine ⟨?_, ?_, rfl, rfl⟩
    · intro y n' hy
      dsimp only at hy
      rw [mapNode_nodes] at hy
      by_cases hym : y = m
      · rw [if_pos hym, map_eq_some_iff] at hy
        obtain ⟨n, hn, rfl⟩ := hy
        have hnd := h.distinct y n hn
        exact ⟨n, hn, nodup_dropSlave hnd x, mem_dropSlave hnd x, (dropSlave_role x n).1,
          fun _ => (dropSlave_role x n).2⟩
      · rw [if_neg hym] at hy
        have hnot : x ∉ n'.slaves := by
          intro hmem
          obtain ⟨p, hp, hslave⟩ := h.slaves y n' x hy hmem
          rw [hp, bind_some, hslave, Option.some.injEq] at hm
          exact hym hm
        exact ⟨n', hy, h.distinct y n' hy, hkeep y n' hy hnot, rfl, fun _ => ⟨rfl, rfl, rfl⟩⟩
    · intro y n hy
      dsimp only
      rw [mapNode_nodes]
      by_cases hym : y = m
      · rw [if_pos hym, hy]
        exact ⟨_, rfl⟩
      · rw [if_neg hym]
        exact ⟨n, hy⟩

theorem Roles.unlinked_master (h : Roles cs) (hx : cs.nodes x = some n)
    (hm : n.flags.master = true) {f : ClusterNode → ClusterNode}
    (hf : ∀ n, (f n).slaveof = n.slaveof ∧ (f n).slaves = n.slaves) :
    Unlinked x cs (mapNode cs x f) := by
  have hu := h.unlinked x
  have hnone : (cs.nodes x).bind ClusterNode.slaveof = none := by
    rw [hx, bind_some]
    exact h.master_slaveof hx hm
  have heq : unlink cs x = cs := by
    unfold unlink
    rw [hnone]
  rw [heq] at hu
  refine ⟨?_, ?_, rfl, rfl⟩
  · intro y n' hy
    rw [mapNode_nodes] at hy
    by_cases hyx : y = x
    · rw [if_pos hyx, map_eq_some_iff] at hy
      obtain ⟨p, hp, rfl⟩ := hy
      obtain ⟨q, hq, hnd, hiff, hs, -⟩ := hu.old y p hp
      exact ⟨q, hq, by rw [(hf p).2]; exact hnd, fun z => by rw [(hf p).2]; exact hiff z,
        (hf p).1.trans hs, fun hne => absurd hyx hne⟩
    · rw [if_neg hyx] at hy
      exact hu.old y n' hy
  · intro y p hy
    rw [mapNode_nodes]
    by_cases hyx : y = x
    · rw [if_pos hyx, hy]
      exact ⟨_, rfl⟩
    · rw [if_neg hyx]
      exact ⟨p, hy⟩

theorem Unlinked.relink (hu : Unlinked x cs u) {f : ClusterNode → ClusterNode}
    (hf : ∀ n, u.nodes x = some n → (f n).slaveof = none ∧ (f n).slaves = n.slaves) :
    Relinked x none cs (mapNode u x f) := by
  refine ⟨?_, ?_, hu.myself, hu.slots⟩
  · intro y n' hy
    rw [mapNode_nodes] at hy
    by_cases hyx : y = x
    · rw [if_pos hyx, map_eq_some_iff] at hy
      obtain ⟨p, hp, rfl⟩ := hy
      obtain ⟨n, hn, hnd, hiff, -⟩ := hu.old y p hp
      have hfp := hf p (hyx ▸ hp)
      refine ⟨n, hn, by rw [hfp.2]; exact hnd, ?_, fun _ => hfp.1, fun hne => absurd hyx hne,
        fun hne => absurd hyx hne⟩
      intro z
      rw [hfp.2, hiff z]
      simp
    · rw [if_neg hyx] at hy
      obtain ⟨n, hn, hnd, hiff, hs, hflags⟩ := hu.old y n' hy
      refine ⟨n, hn, hnd, ?_, fun heq => absurd heq hyx, fun _ => hs, hflags⟩
      intro z
      rw [hiff z]
      simp
  · intro y n hy
    obtain ⟨p, hp⟩ := hu.live y n hy
    rw [mapNode_nodes]
    by_cases hyx : y = x
    · rw [if_pos hyx, hp]
      exact ⟨_, rfl⟩
    · rw [if_neg hyx]
      exact ⟨p, hp⟩

theorem Unlinked.attach (hu : Unlinked x cs u) (m : NodeId) :
    Relinked x (some m) cs (mapNode (mapNode u m (takeSlave x)) x (slaveOf m)) := by
  have hmid : ∀ y p, (mapNode u m (takeSlave x)).nodes y = some p → ∃ n, cs.nodes y = some n ∧
      p.slaves.Nodup ∧ (∀ z, z ∈ p.slaves ↔ (z ∈ n.slaves ∧ z ≠ x) ∨ (z = x ∧ some m = some y)) ∧
      p.slaveof = n.slaveof ∧ (y ≠ x → p.flags.master = n.flags.master ∧
        p.flags.slave = n.flags.slave ∧ p.flags.handshake = n.flags.handshake) := by
    intro y p hy
    rw [mapNode_nodes] at hy
    by_cases hym : y = m
    · rw [if_pos hym, map_eq_some_iff] at hy
      obtain ⟨q, hq, rfl⟩ := hy
      obtain ⟨n, hn, hnd, hiff, hs, hflags⟩ := hu.old y q hq
      obtain ⟨t0, t1, t2, t3⟩ := takeSlave_role x q
      refine ⟨n, hn, nodup_takeSlave hnd x, ?_, t0.trans hs, ?_⟩
      · intro z
        rw [mem_takeSlave, hiff z, hym]
        simp
      · intro hne
        obtain ⟨h1, h2, h3⟩ := hflags hne
        exact ⟨t1.trans h1, t2.trans h2, t3.trans h3⟩
    · rw [if_neg hym] at hy
      obtain ⟨n, hn, hnd, hiff, hs, hflags⟩ := hu.old y p hy
      refine ⟨n, hn, hnd, ?_, hs, hflags⟩
      intro z
      rw [hiff z]
      simp [Ne.symm hym]
  refine ⟨?_, ?_, hu.myself, hu.slots⟩
  · intro y n' hy
    rw [mapNode_nodes] at hy
    by_cases hyx : y = x
    · rw [if_pos hyx, map_eq_some_iff] at hy
      obtain ⟨p, hp, rfl⟩ := hy
      obtain ⟨n, hn, hnd, hiff, -⟩ := hmid y p hp
      exact ⟨n, hn, hnd, hiff, fun _ => rfl, fun hne => absurd hyx hne, fun hne => absurd hyx hne⟩
    · rw [if_neg hyx] at hy
      obtain ⟨n, hn, hnd, hiff, hs, hflags⟩ := hmid y n' hy
      exact ⟨n, hn, hnd, hiff, fun heq => absurd heq hyx, fun _ => hs, hflags⟩
  · intro y n hy
    obtain ⟨p, hp⟩ := hu.live y n hy
    have hp' : ∃ q, (mapNode u m (takeSlave x)).nodes y = some q := by
      rw [mapNode_nodes]
      by_cases hym : y = m
      · rw [if_pos hym, hp]
        exact ⟨_, rfl⟩
      · rw [if_neg hym]
        exact ⟨p, hp⟩
    obtain ⟨q, hq⟩ := hp'
    rw [mapNode_nodes]
    by_cases hyx : y = x
    · rw [if_pos hyx, hq]
      exact ⟨_, rfl⟩
    · rw [if_neg hyx]
      exact ⟨q, hq⟩

theorem attach_role {p : NodeId}
    (hx : (mapNode (mapNode u p (takeSlave x)) x (slaveOf p)).nodes x = some m) :
    ∃ n, u.nodes x = some n ∧ m.flags.master = n.flags.master ∧ m.flags.slave = n.flags.slave ∧
      m.flags.handshake = n.flags.handshake := by
  rw [mapNode_nodes, if_pos rfl, map_eq_some_iff] at hx
  obtain ⟨q, hq, rfl⟩ := hx
  rw [mapNode_nodes] at hq
  by_cases hxp : x = p
  · rw [if_pos hxp, map_eq_some_iff] at hq
    obtain ⟨n, hn, rfl⟩ := hq
    exact ⟨n, hn, (takeSlave_role x n).2⟩
  · rw [if_neg hxp] at hq
    exact ⟨q, hq, rfl, rfl, rfl⟩

theorem mapNode_comm (hxy : x ≠ y) (f g : ClusterNode → ClusterNode) :
    mapNode (mapNode cs x f) y g = mapNode (mapNode cs y g) x f := by
  unfold mapNode
  congr 1
  ext1 z
  dsimp only
  by_cases hz : z = y
  · rw [if_pos hz, if_neg (fun h => hxy (h.symm.trans hz)), if_neg (fun h => hxy (h.symm.trans hz)),
      if_pos hz]
  · rw [if_neg hz]
    by_cases hzx : z = x
    · rw [if_pos hzx, if_pos hzx, if_neg hz]
    · rw [if_neg hzx, if_neg hzx, if_neg hz]

theorem Roles.join (h : Roles cs) (hv : View cs) (hn : Newborn n) (hrole : OneRole n.flags) :
    Roles { setNode cs cs.fresh n with
      table := Function.update cs.table n.name (some cs.fresh), fresh := cs.fresh+1 } := by
  have hfresh := hv.toTable.fresh_none
  have hne : ∀ y p, cs.nodes y = some p → y ≠ cs.fresh := by
    rintro y p hy rfl
    rw [hfresh] at hy
    cases hy
  have hlive : ∀ y p, cs.nodes y = some p → (setNode cs cs.fresh n).nodes y = some p := by
    intro y p hy
    rw [setNode_nodes, if_neg (hne y p hy), hy]
  have hold : ∀ y p, (setNode cs cs.fresh n).nodes y = some p →
      (y = cs.fresh ∧ p = n) ∨ cs.nodes y = some p := by
    intro y p hy
    rw [setNode_nodes] at hy
    by_cases hyx : y = cs.fresh
    · rw [if_pos hyx] at hy
      exact Or.inl ⟨hyx, (Option.some.inj hy).symm⟩
    · rw [if_neg hyx] at hy
      exact Or.inr hy
  obtain ⟨me, hme⟩ := hv.me
  have hself : ∀ p, (setNode cs cs.fresh n).nodes cs.myself = some p → cs.nodes cs.myself = some p := by
    intro p hp
    rw [hlive _ me hme] at hp
    rw [hme, hp]
  refine ⟨?_, ?_, ?_, ?_, ?_, ?_, ?_, ?_, ?_⟩
  · intro x p y hx hy
    rcases hold x p hx with ⟨-, rfl⟩ | hx'
    · rw [hn.slaveof] at hy
      cases hy
    · obtain ⟨q, hq, hmem⟩ := h.attached x p y hx' hy
      exact ⟨q, hlive y q hq, hmem⟩
  · intro y q x hy hx
    rcases hold y q hy with ⟨-, rfl⟩ | hy'
    · rw [hn.slaves] at hx
      cases hx
    · obtain ⟨p, hp, hslave⟩ := h.slaves y q x hy' hx
      exact ⟨p, hlive x p hp, hslave⟩
  · intro y q hy
    rcases hold y q hy with ⟨-, rfl⟩ | hy'
    · rw [hn.slaves]
      exact List.nodup_nil
    · exact h.distinct y q hy'
  · intro x p y hx hy
    rcases hold x p hx with ⟨-, rfl⟩ | hx'
    · rw [hn.slaveof] at hy
      cases hy
    · exact h.slaveFlag x p y hx' hy
  · intro x p hx
    rcases hold x p hx with ⟨-, rfl⟩ | hx'
    · exact hrole
    · exact h.oneRole x p hx'
  · intro j x p hj hx
    rcases hold x p hx with ⟨rfl, -⟩ | hx'
    · obtain ⟨q, hq⟩ := hv.toTable.owner j _ hj
      rw [hfresh] at hq
      cases hq
    · exact h.owner j x p hj hx'
  · intro p hp
    exact h.follows p (hself p hp)
  · intro p hp
    exact h.joined p (hself p hp)
  · intro p y q hp hy hq
    rcases hold y q hq with ⟨rfl, -⟩ | hq'
    · obtain ⟨r, hr, -⟩ := h.attached _ p _ (hself p hp) hy
      rw [hfresh] at hr
      cases hr
    · exact h.master p y q (hself p hp) hy hq'

theorem Roles.promote (h : Roles cs) (x : NodeId) (b : Bool)
    (hhand : ∀ n, cs.nodes x = some n → n.flags.handshake = false) :
    Roles (mapNode (unlink cs x) x (asMaster b)) := by
  have hr : Relinked x none cs (mapNode (unlink cs x) x (asMaster b)) :=
    (h.unlinked x).relink (fun n _ => ⟨rfl, rfl⟩)
  cases hx : cs.nodes x with
  | none =>
    -- there is nothing to promote
    apply h.same _ (fun j y hj => Or.inl (by rw [← hr.slots]; exact hj))
    have hu : unlink cs x = cs := by
      unfold unlink
      rw [hx]
      rfl
    rw [hu]
    apply sameRoles_mapNode
    intro n hn
    rw [hx] at hn
    cases hn
  | some n =>
    apply h.relinked hr hx
    · intro m hm
      cases hm
    · intro n' hn'
      rw [mapNode_nodes, if_pos rfl, map_eq_some_iff] at hn'
      obtain ⟨p, hp, rfl⟩ := hn'
      obtain ⟨q, hq, -, -, -, hflag⟩ := unlink_role hp
      have hh : (asMaster b p).flags.handshake = false := hflag.trans (hhand q hq)
      refine ⟨Or.inr ⟨hh, rfl⟩, ?_, fun _ _ => rfl, fun _ => ⟨hh, ?_⟩, ?_⟩
      · intro y hy
        cases hy
      · intro hs
        cases hs
      · intro ht
        rw [hh] at ht
        cases ht
    · intro y p _ hy
      cases hy

theorem Roles.demote (h : Roles cs) (hv : View cs) (hx : cs.nodes x = some n)
    (hslots : n.numslots = 0) (hm : n.flags.master = true) (hme : x ≠ cs.myself) :
    Roles (mapNode cs x asSlave) := by
  have hnone := h.master_slaveof hx hm
  have hrole := (h.oneRole x n hx).joined hm
  have hu : unlink cs x = cs := by
    unfold unlink
    rw [hx, bind_some, hnone]
  have hr : Relinked x none cs (mapNode cs x asSlave) := by
    have hu' := h.unlinked x
    rw [hu] at hu'
    apply hu'.relink
    intro p hp
    rw [hx, Option.some.injEq] at hp
    exact ⟨hp ▸ hnone, rfl⟩
  apply h.relinked hr hx
  · intro m hm
    cases hm
  · intro n' hn'
    rw [mapNode_nodes, if_pos rfl, hx] at hn'
    cases hn'
    refine ⟨Or.inr ⟨hrole, rfl⟩, ?_, ?_, fun h => absurd h hme, ?_⟩
    · intro y hy
      cases hy
    · intro j hj
      exact absurd hj (hv.toTable.no_slots hx hslots j)
    · intro ht
      exact ht
  · intro y p _ hy
    cases hy

theorem Roles.attach (h : Roles cs) (hx : cs.nodes x = some n) (hm : ∃ p, cs.nodes y = some p)
    (hme : x ≠ cs.myself) (hslave : n.flags.slave = true) :
    Roles (mapNode (mapNode (unlink cs x) y (takeSlave x)) x (slaveOf y)) := by
  apply h.relinked ((h.unlinked x).attach y) hx
  · intro m hm'
    cases hm'
    exact hm
  · intro n' hn'
    obtain ⟨p, hp, h1, h2, h3⟩ := attach_role hn'
    obtain ⟨q, hq, -, g1, g2, g3⟩ := unlink_role hp
    rw [hx, Option.some.injEq] at hq
    subst hq
    have hm' := h1.trans g1
    have hs' := h2.trans g2
    have hh' := h3.trans g3
    refine ⟨(h.oneRole x n hx).congr hm' hs' hh', fun _ _ => hs'.trans hslave, ?_,
      fun h => absurd h hme, fun ht => hh'.symm.trans ht⟩
    intro j hj
    rw [hm']
    exact h.owner j x n hj hx
  · intro z p h' _
    exact absurd h' hme

theorem Roles.follow (h : Roles cs) (hv : View cs) (hne : y ≠ cs.myself)
    (hm : ∃ p, cs.nodes y = some p)
    (hslots : ∀ n, cs.nodes cs.myself = some n → n.numslots = 0)
    (hhand : ∀ n, cs.nodes y = some n → n.flags.handshake = false) :
    Roles (mapNode (mapNode (quitRole cs) cs.myself (slaveOf y)) y (takeSlave cs.myself)) := by
  obtain ⟨me, hme⟩ := hv.me
  have hjoined := h.joined me hme
  rw [mapNode_comm (Ne.symm hne)]
  -- both as a master and as a slave this node is listed by nobody before it follows
  have hquit : Unlinked cs.myself cs (quitRole cs) ∧ ∀ p, (quitRole cs).nodes cs.myself = some p →
      p.flags.master = false ∧ p.flags.slave = true ∧ p.flags.handshake = false := by
    unfold quitRole
    rw [hme, Option.any_some]
    by_cases hmaster : me.flags.master = true
    · rw [if_pos hmaster]
      have hu : Unlinked cs.myself cs (mapNode cs cs.myself asSlave) :=
        h.unlinked_master hme hmaster (fun n => ⟨rfl, rfl⟩)
      refine ⟨⟨hu.old, hu.live, rfl, rfl⟩, ?_⟩
      intro p hp
      have hp' : (mapNode cs cs.myself asSlave).nodes cs.myself = some p := hp
      rw [mapNode_nodes, if_pos rfl, hme] at hp'
      cases hp'
      exact ⟨rfl, rfl, hjoined⟩
    · rw [if_neg hmaster]
      refine ⟨h.unlinked _, ?_⟩
      intro p hp
      obtain ⟨q, hq, -, g1, g2, g3⟩ := unlink_role hp
      rw [hme, Option.some.injEq] at hq
      subst hq
      have hone := (h.oneRole _ _ hme).slave_of hjoined (Bool.eq_false_iff.mpr hmaster)
      exact ⟨g1.trans (Bool.eq_false_iff.mpr hmaster), g2.trans hone, g3.trans hjoined⟩
  apply h.relinked (hquit.1.attach y) hme
  · intro m hm'
    cases hm'
    exact hm
  · intro n' hn'
    obtain ⟨p, hp, h1, h2, h3⟩ := attach_role hn'
    obtain ⟨g1, g2, g3⟩ := hquit.2 p hp
    have hs' := h2.trans g2
    have hh' := h3.trans g3
    refine ⟨Or.inr ⟨hh', by rw [hs', h1, g1]; rfl⟩, fun _ _ => hs', ?_, fun _ => ⟨hh', ?_⟩, ?_⟩
    · intro j hj
      exact absurd hj (hv.toTable.no_slots hme (hslots me hme) j)
    · intro _
      exact ⟨y, rfl⟩
    · intro ht
      rw [hh'] at ht
      cases ht
  · intro z p _ hz hp
    cases hz
    exact hhand p hp

theorem Roles.complete (h : Roles cs) (hx : cs.nodes x = some n) (hhand : n.flags.handshake = true)
    (hf : f.slave = !f.master) (name : NodeName) :
    Roles (mapNode cs x (joinAs name f)) := by
  have hrole : n.flags.master = false ∧ n.flags.slave = false := by
    rcases h.oneRole x n hx with ⟨-, hrole⟩ | ⟨hh, -⟩
    · exact hrole
    · rw [hhand] at hh
      cases hh
  have hu := h.unlinked x
  have hnone := h.slaveof_none hx hrole.2
  have heq : unlink cs x = cs := by
    unfold unlink
    rw [hx, bind_some, hnone]
  rw [heq] at hu
  apply h.relinked (hu.relink _) hx
  · intro m hm
    cases hm
  · intro n' hn'
    rw [mapNode_nodes, if_pos rfl, hx] at hn'
    cases hn'
    refine ⟨Or.inr ⟨rfl, ?_⟩, ?_, ?_, ?_, fun _ => hhand⟩
    · show (n.flags.slave || f.slave) = !(n.flags.master || f.master)
      rw [hrole.1, hrole.2, hf, Bool.false_or, Bool.false_or]
    · intro y hy
      cases hy
    · intro j hj
      have := h.owner j x n hj hx
      rw [hrole.1] at this
      cases this
    · rintro rfl
      have := h.joined n hx
      rw [hhand] at this
      cases this
  · intro y p _ hy
    cases hy
  · intro p hp
    rw [hx, Option.some.injEq] at hp
    exact ⟨hp ▸ hnone, rfl⟩

theorem orphan_nodes {l : List NodeId} (hy : (orphan cs l).nodes y = some p) :
    ∃ q, cs.nodes y = some q ∧ p.slaves = q.slaves ∧ p.flags = q.flags ∧
      (y ∈ l → p.slaveof = none) ∧ (y ∉ l → p.slaveof = q.slaveof) := by
  have hy' : (if y ∈ l then (cs.nodes y).map (fun n => { n with slaveof := none })
    else cs.nodes y) = some p := hy
  by_cases hl : y ∈ l
  · rw [if_pos hl, map_eq_some_iff] at hy'
    obtain ⟨q, hq, rfl⟩ := hy'
    exact ⟨q, hq, rfl, rfl, fun _ => rfl, fun h => absurd hl h⟩
  · rw [if_neg hl] at hy'
    exact ⟨p, hy', rfl, rfl, fun h => absurd h hl, fun _ => rfl⟩

theorem Roles.mem_slaves (h : Roles cs) (hx : cs.nodes x = some n) (hy : cs.nodes y = some m) :
    y ∈ n.slaves ↔ m.slaveof = some x := by
  constructor
  · intro hmem
    obtain ⟨p, hp, hslave⟩ := h.slaves x n y hx hmem
    rw [hy, Option.some.injEq] at hp
    rw [hp, hslave]
  · intro hslave
    obtain ⟨p, hp, hmem⟩ := h.attached y m x hy hslave
    rw [hx, Option.some.injEq] at hp
    rw [hp]
    exact hmem

theorem Roles.detached (h : Roles cs) (hx : cs.nodes x = some n) (hne : y ≠ x)
    (hy : (Cluster.detached cs x n).nodes y = some p) : ∃ q, cs.nodes y = some q ∧ p.slaves.Nodup ∧
      (∀ z, z ∈ p.slaves ↔ z ∈ q.slaves ∧ z ≠ x) ∧
      (q.slaveof = some x → p.slaveof = none) ∧ (q.slaveof ≠ some x → p.slaveof = q.slaveof) ∧
      p.flags.master = q.flags.master ∧ p.flags.slave = q.flags.slave ∧
      p.flags.handshake = q.flags.handshake := by
  have hkeep : ∀ q, cs.nodes y = some q → x ∉ q.slaves → ∀ z, z ∈ q.slaves ↔ z ∈ q.slaves ∧ z ≠ x := by
    intro q _ hnot z
    constructor
    · intro hz
      refine ⟨hz, ?_⟩
      rintro rfl
      exact hnot hz
    · exact fun hz => hz.1
  -- the nodes that `orphan` leaves, where nobody lists `x`
  have hplain : ∀ p, (orphan cs n.slaves).nodes y = some p →
      (∀ q, cs.nodes y = some q → x ∉ q.slaves) → ∃ q, cs.nodes y = some q ∧ p.slaves.Nodup ∧
      (∀ z, z ∈ p.slaves ↔ z ∈ q.slaves ∧ z ≠ x) ∧
      (q.slaveof = some x → p.slaveof = none) ∧ (q.slaveof ≠ some x → p.slaveof = q.slaveof) ∧
      p.flags.master = q.flags.master ∧ p.flags.slave = q.flags.slave ∧
      p.flags.handshake = q.flags.handshake := by
    intro p hp hnot
    obtain ⟨q, hq, hs, hf, h1, h2⟩ := orphan_nodes hp
    rw [h.mem_slaves hx hq] at h1 h2
    refine ⟨q, hq, by rw [hs]; exact h.distinct y q hq, ?_, h1, h2, by rw [hf], by rw [hf], by rw [hf]⟩
    rw [hs]
    exact hkeep q hq (hnot q hq)
  unfold Cluster.detached at hy
  by_cases hslave : n.flags.slave = true
  · rw [if_pos hslave] at hy
    unfold unlink at hy
    cases hm : ((orphan cs n.slaves).nodes x).bind ClusterNode.slaveof with
    | none =>
      rw [hm] at hy
      apply hplain p hy
      intro q hq hmem
      have hxy := (h.mem_slaves hq hx).mp hmem
      have hnot : x ∉ n.slaves := by
        rw [h.mem_slaves hx hx, hxy, Option.some.injEq]
        exact hne
      have ho : (orphan cs n.slaves).nodes x = cs.nodes x := if_neg hnot
      rw [ho, hx, bind_some, hxy] at hm
      cases hm
    | some m =>
      rw [hm] at hy
      dsimp only at hy
      have hxm : n.slaveof = some m := by
        rw [Option.bind_eq_some_iff] at hm
        obtain ⟨r, hr, hrm⟩ := hm
        obtain ⟨q, hq, -, -, h1, h2⟩ := orphan_nodes hr
        rw [hx, Option.some.injEq] at hq
        subst hq
        by_cases hin : x ∈ n.slaves
        · rw [h1 hin] at hrm
          cases hrm
        · rw [← h2 hin, hrm]
      rw [mapNode_nodes] at hy
      by_cases hym : y = m
      · rw [if_pos hym, map_eq_some_iff] at hy
        obtain ⟨r, hr, rfl⟩ := hy
        obtain ⟨q, hq, hs, hf, h1, h2⟩ := orphan_nodes hr
        rw [h.mem_slaves hx hq] at h1 h2
        have hnd : r.slaves.Nodup := by
          rw [hs]
          exact h.distinct y q hq
        obtain ⟨d0, d1, d2, d3⟩ := dropSlave_role x r
        refine ⟨q, hq, nodup_dropSlave hnd x, ?_, fun hq => d0.trans (h1 hq), fun hq => d0.trans (h2 hq),
          by rw [d1, hf], by rw [d2, hf], by rw [d3, hf]⟩
        intro z
        rw [mem_dropSlave hnd, hs]
      · rw [if_neg hym] at hy
        apply hplain p hy
        intro q hq hmem
        have hxy := (h.mem_slaves hq hx).mp hmem
        rw [hxm, Option.some.injEq] at hxy
        exact hym hxy.symm
  · rw [if_neg hslave] at hy
    apply hplain p hy
    intro q hq
    apply h.unlisted _ hq
    rw [hx, bind_some]
    exact h.slaveof_none hx (Bool.eq_false_iff.mpr hslave)

theorem Roles.remove (h : Roles cs) (hx : cs.nodes x = some n) (hs : ∀ j, cs.slots j ≠ some x)
    (hme : x ≠ cs.myself) (hmaster : ∀ n, cs.nodes cs.myself = some n → n.slaveof ≠ some x) :
    Roles (dropNode (Cluster.detached cs x n) x n.name) := by
  have ha := alike_detached cs x n
  have hold : ∀ y p, (dropNode (Cluster.detached cs x n) x n.name).nodes y = some p →
      y ≠ x ∧ (Cluster.detached cs x n).nodes y = some p := by
    intro y p hy
    have hy' : (if y = x then none else (Cluster.detached cs x n).nodes y) = some p := hy
    by_cases hyx : y = x
    · rw [if_pos hyx] at hy'
      cases hy'
    · rw [if_neg hyx] at hy'
      exact ⟨hyx, hy'⟩
  have hlive : ∀ y p, y ≠ x → cs.nodes y = some p →
      ∃ p', (dropNode (Cluster.detached cs x n) x n.name).nodes y = some p' := by
    intro y p hyx hy
    obtain ⟨p', hp'⟩ := ha.live y p hy
    refine ⟨p', ?_⟩
    show (if y = x then none else (Cluster.detached cs x n).nodes y) = some p'
    rw [if_neg hyx, hp']
  have hself : ∀ p, (dropNode (Cluster.detached cs x n) x n.name).nodes
      (dropNode (Cluster.detached cs x n) x n.name).myself = some p →
      (Cluster.detached cs x n).nodes cs.myself = some p := by
    intro p hp
    have hp' := (hold _ p hp).2
    have hmy : (dropNode (Cluster.detached cs x n) x n.name).myself = cs.myself := ha.myself
    rw [hmy] at hp'
    exact hp'
  refine ⟨?_, ?_, ?_, ?_, ?_, ?_, ?_, ?_, ?_⟩
  · intro z p y hz hy
    obtain ⟨hzx, hz'⟩ := hold z p hz
    obtain ⟨q, hq, -, -, h1, h2, -⟩ := h.detached hx hzx hz'
    have hqx : q.slaveof ≠ some x := by
      intro hqx
      rw [h1 hqx] at hy
      cases hy
    rw [h2 hqx] at hy
    obtain ⟨r, hr, hmem⟩ := h.attached z q y hq hy
    have hyx : y ≠ x := by
      rintro rfl
      exact hqx hy
    obtain ⟨r', hr'⟩ := hlive y r hyx hr
    obtain ⟨r0, hr0, -, hiff, -⟩ := h.detached hx hyx (hold y r' hr').2
    rw [hr, Option.some.injEq] at hr0
    subst hr0
    exact ⟨r', hr', (hiff z).mpr ⟨hmem, hzx⟩⟩
  · intro y p z hy hz
    obtain ⟨hyx, hy'⟩ := hold y p hy
    obtain ⟨q, hq, -, hiff, -⟩ := h.detached hx hyx hy'
    obtain ⟨hmem, hzx⟩ := (hiff z).mp hz
    obtain ⟨r, hr, hslave⟩ := h.slaves y q z hq hmem
    obtain ⟨r', hr'⟩ := hlive z r hzx hr
    obtain ⟨r0, hr0, -, -, -, h2, -⟩ := h.detached hx hzx (hold z r' hr').2
    rw [hr, Option.some.injEq] at hr0
    subst hr0
    refine ⟨r', hr', ?_⟩
    rw [h2, hslave]
    rw [hslave, Ne, Option.some.injEq]
    exact hyx
  · intro y p hy
    obtain ⟨hyx, hy'⟩ := hold y p hy
    obtain ⟨q, hq, hnd, -⟩ := h.detached hx hyx hy'
    exact hnd
  · intro z p y hz hy
    obtain ⟨hzx, hz'⟩ := hold z p hz
    obtain ⟨q, hq, -, -, h1, h2, -, hslave, -⟩ := h.detached hx hzx hz'
    rw [hslave]
    have hqx : q.slaveof ≠ some x := by
      intro hqx
      rw [h1 hqx] at hy
      cases hy
    exact h.slaveFlag z q y hq (by rw [← h2 hqx, hy])
  · intro z p hz
    obtain ⟨hzx, hz'⟩ := hold z p hz
    obtain ⟨q, hq, -, -, -, -, f1, f2, f3⟩ := h.detached hx hzx hz'
    exact (h.oneRole z q hq).congr f1 f2 f3
  · intro j z p hj hz
    obtain ⟨hzx, hz'⟩ := hold z p hz
    obtain ⟨q, hq, -, -, -, -, f1, -⟩ := h.detached hx hzx hz'
    rw [f1]
    have hj' : (Cluster.detached cs x n).slots j = some z := hj
    rw [ha.slots] at hj'
    exact h.owner j z q hj' hq
  · intro p hp hslave
    obtain ⟨q, hq, -, -, -, h2, -, f2, -⟩ := h.detached hx hme.symm (hself p hp)
    rw [h2 (hmaster q hq)]
    exact h.follows q hq (by rw [← f2, hslave])
  · intro p hp
    obtain ⟨q, hq, -, -, -, -, -, -, f3⟩ := h.detached hx hme.symm (hself p hp)
    rw [f3]
    exact h.joined q hq
  · intro p y r hp hy hr
    obtain ⟨q, hq, -, -, -, h2, -⟩ := h.detached hx hme.symm (hself p hp)
    obtain ⟨hyx, hr'⟩ := hold y r hr
    obtain ⟨r0, hr0, -, -, -, -, -, -, f3⟩ := h.detached hx hyx hr'
    rw [f3]
    exact h.master q y r0 hq (by rw [← h2 (hmaster q hq), hy]) hr0

theorem Roles.edit (h : Roles cs) (hv : View cs) (hk : ¬ k.role) (e : Edit k cs cs') : Roles cs' := by
  have hguard : ∀ {p : Prop}, (p ∨ k.role) → p := fun hp => hp.resolve_right hk
  cases e with
  | aside hv' =>
    exact h.same (sameRoles_of_nodes hv'.nodes hv'.myself) (fun j x hj => Or.inl (by
      rw [← hv'.slots]; exact hj))
  | send msgs => exact h.same (sameRoles_of_nodes rfl rfl) (fun j x hj => Or.inl hj)
  | ballot hv' =>
    exact h.same (sameRoles_of_nodes hv'.nodes hv'.myself) (fun j x hj => Or.inl (by
      rw [← hv'.slots]; exact hj))
  | touch ht =>
    apply h.same _ (fun j x hj => Or.inl (by rw [← ht.slots]; exact hj))
    refine ⟨?_, ?_, ht.myself⟩
    · intro y n' hy
      obtain ⟨n, hn, hs⟩ := ht.old y n' hy
      exact ⟨n, hn, hs.role⟩
    · intro y n hy
      obtain ⟨n', hn', hs⟩ := ht.live y n hy
      exact ⟨n', hn', hs.role⟩
  | join n hn hname hrole => exact h.join hv hn (hguard hrole)
  | epochUp e => exact h.same (sameRoles_of_nodes rfl rfl) (fun j x hj => Or.inl hj)
  | nodeEpoch x e =>
    exact h.same (sameRoles_mapNode (fun n _ => ⟨rfl, rfl, rfl, rfl, rfl⟩)) (fun j x hj => Or.inl hj)
  | bind x n n' j hx hfree hn hrole =>
    have hr : SameRole n n' := ⟨hn.slaves, hn.slaveof, hn.master, hn.slave, hn.handshake⟩
    have hs : SameRoles cs { setNode cs x n' with slots := Function.update cs.slots j (some x) } :=
      sameRoles_setNode hx hr rfl rfl
    apply h.same hs
    intro i y hi
    have hi' : Function.update cs.slots j (some x) i = some y := hi
    by_cases hij : i = j
    · rw [hij, Function.update_self, Option.some.injEq] at hi'
      exact Or.inr ⟨n, hi' ▸ hx, hguard hrole⟩
    · rw [Function.update_of_ne hij] at hi'
      exact Or.inl hi'
  | unbind x n j hx hs =>
    have hr : SameRole n { n with
        slots := Function.update n.slots j false, numslots := n.numslots-1 } :=
      ⟨rfl, rfl, rfl, rfl, rfl⟩
    have hs : SameRoles cs { setNode cs x { n with
        slots := Function.update n.slots j false, numslots := n.numslots-1 } with
        slots := Function.update cs.slots j none } := sameRoles_setNode hx hr rfl rfl
    apply h.same hs
    intro i y hi
    have hi' : Function.update cs.slots j none i = some y := hi
    by_cases hij : i = j
    · rw [hij, Function.update_self] at hi'
      cases hi'
    · rw [Function.update_of_ne hij] at hi'
      exact Or.inl hi'
  | slotState mig imp => exact h.same (sameRoles_of_nodes rfl rfl) (fun j x hj => Or.inl hj)
  | promote x b hrole => exact h.promote x b (hguard hrole)
  | demote x n hx hslots hm hrole => exact h.demote hv hx hslots hm (hguard hrole)
  | attach x m n hx hm hrole => exact h.attach hx hm (hguard hrole).1 (hguard hrole).2
  | follow m hne hm hslots hrole => exact h.follow hv hne hm hslots (hguard hrole)
  | remove x n hx hne hname hs hi hm hrm hrole => exact h.remove hx hs hne (hguard hrole)
  | complete x n hx name f hhand hf =>
    exact (h.complete hx hhand (hguard hf) name).same (sameRoles_of_nodes rfl rfl)
      (fun j x hj => Or.inl hj)

end RedisCore.Cluster
