import RedisCore.ClusterStart

namespace RedisCore.Cluster

variable {k : Slack} {cs cs' cs'' : ClusterState} {x y : NodeId} {n m : ClusterNode} {j : Slot}
variable {cfg : ClusterConfig} {env : Env} {P : NodeName → Prop}

structure Settled (P : NodeName → Prop) (cs : ClusterState) : Prop where
  handshake : ∀ x n, cs.nodes x = some n → n.flags.handshake = false
  mine : ∀ x n, cs.nodes x = some n → n.flags.myself = true → P n.name

def SettledLine (P : NodeName → Prop) (line : NodeLine) : Prop :=
  line.flags.handshake = false ∧ (line.flags.myself = true → P line.name)

def Recorded (cs : ClusterState) (line : NodeLine) : Prop :=
  ∃ x n, cs.table line.name = some x ∧ cs.nodes x = some n ∧ n.configEpoch = line.configEpoch

theorem LineRead.settled {st st' : LoadState} {line : NodeLine} (h : LineRead line x st st')
    (hs : Settled P st.cs) (hline : SettledLine P line) : Settled P st'.cs := by
  refine ⟨?_, ?_⟩
  · intro y n hy
    by_contra hh
    rw [Bool.not_eq_false] at hh
    rcases (h.old y n hy).1 hh with ⟨-, hlh⟩ | ⟨p, hp, hph⟩
    · rw [hline.1] at hlh
      cases hlh
    · rw [hs.handshake y p hp] at hph
      cases hph
  · intro y n hy hm
    rcases (h.old y n hy).2 hm with ⟨hyx, hlm⟩ | ⟨p, hp, hpm, hname⟩
    · obtain ⟨q, hq, hname⟩ := h.loading.listed line.name x h.named
      rw [hyx, hq, Option.some.injEq] at hy
      rw [← hy, hname]
      exact hline.2 hlm
    · rw [hname]
      exact hs.mine y p hp hpm

theorem LineRead.recorded {st st' : LoadState} {line line' : NodeLine}
    (h : LineRead line x st st') (hr : Recorded st.cs line')
    (hne : line'.name ≠ line.name) : Recorded st'.cs line' := by
  obtain ⟨y, n, hy, hn, he⟩ := hr
  obtain ⟨n', hn', -, hepoch⟩ := h.kept y n hn
  have hy' := h.table _ _ hy
  refine ⟨y, n', hy', hn', ?_⟩
  rw [hepoch, he]
  rintro rfl
  obtain ⟨p, hp, hname⟩ := h.loading.listed _ _ hy'
  obtain ⟨p', hp', hname'⟩ := h.loading.listed _ _ h.named
  rw [hp, Option.some.injEq] at hp'
  exact hne (by rw [← hname, hp', hname'])

theorem loadLines_recorded : ∀ (lines : List NodeLine) (st : LoadState) (read : List NodeLine),
    Loaded st → Settled P st.cs → (∀ line ∈ read, Recorded st.cs line) →
    (∀ line ∈ lines, SettledLine P line) → ((read ++ lines).map NodeLine.name).Nodup →
    ReturnsOr .badConfig (lines.foldlM (loadLine env) st) (fun st' =>
      Loaded st' ∧ Settled P st'.cs ∧ ∀ line ∈ read ++ lines, Recorded st'.cs line) := by
  intro lines
  induction lines with
  | nil =>
    intro st read hl hs hr _ _
    refine ⟨hl, hs, ?_⟩
    rw [List.append_nil]
    exact hr
  | cons line lines ih =>
    intro st read hl hs hr hlines hnd
    rw [List.foldlM_cons]
    apply ReturnsOr.bind (loadLine_read hl.loading line)
    rintro st' ⟨x, h⟩
    have happ : read ++ line :: lines = (read ++ [line]) ++ lines := by
      rw [List.append_assoc, List.singleton_append]
    rw [happ] at hnd ⊢
    apply ih st' (read ++ [line]) (h.loaded hl) (h.settled hs (hlines line List.mem_cons_self)) _ _ hnd
    · intro line' hline'
      rcases List.mem_append.mp hline' with hread | hnew
      · apply h.recorded (hr line' hread)
        intro heq
        rw [List.map_append, List.map_append, List.nodup_append] at hnd
        have hnd' := (List.nodup_append.mp hnd.1).2.2
        exact hnd' _ (List.mem_map_of_mem hread) _ (List.mem_map_of_mem List.mem_cons_self) heq
      · rw [List.mem_singleton] at hnew
        obtain ⟨n, hn, he, -⟩ := h.record
        rw [hnew]
        exact ⟨x, n, h.named, hn, he⟩
    · exact fun line' hline' => hlines line' (List.mem_cons_of_mem line hline')

structure Restored (P : NodeName → Prop) (conf : NodesConf) (cs : ClusterState) : Prop
    extends Started cs where
  settled : Settled P cs
  recorded : ∀ line ∈ conf.lines, Recorded cs line
  current : conf.currentEpoch ≤ cs.currentEpoch

theorem Settled.same (h : Settled P cs) (hp : Pointwise SameRecord cs cs') : Settled P cs' := by
  refine ⟨?_, ?_⟩
  · intro x n' hx
    obtain ⟨n, hn, hs⟩ := hp.old x n' hx
    exact hs.handshake.trans (h.handshake x n hn)
  · intro x n' hx hm
    obtain ⟨n, hn, hs⟩ := hp.old x n' hx
    rw [hs.name]
    exact h.mine x n hn (hs.mine.symm.trans hm)

theorem Recorded.same {line : NodeLine} (h : Recorded cs line) (hp : Pointwise SameRecord cs cs')
    (ht : cs'.table = cs.table) : Recorded cs' line := by
  obtain ⟨x, n, hx, hn, he⟩ := h
  obtain ⟨n', hn', hs⟩ := hp.live x n hn
  exact ⟨x, n', by rw [ht]; exact hx, hn', hs.epoch.trans he⟩

theorem clusterLoadConfig_restored {conf : NodesConf}
    (hlines : ∀ line ∈ conf.lines, SettledLine P line)
    (hnd : (conf.lines.map NodeLine.name).Nodup) :
    ReturnsOr .badConfig (clusterLoadConfig env conf) (Restored P conf) := by
  have hempty : Settled P emptyCluster := by
    refine ⟨?_, ?_⟩
    · intro x n h
      cases h
    · intro x n h
      cases h
  have hread : ReturnsOr .badConfig (clusterLoadConfig env conf) (fun cs =>
      Settled P cs ∧ (∀ line ∈ conf.lines, Recorded cs line) ∧
        conf.currentEpoch ≤ cs.currentEpoch) := by
    unfold clusterLoadConfig
    apply ReturnsOr.bind (loadLines_recorded conf.lines ⟨emptyCluster, none⟩ [] emptyCluster_loaded
      hempty (fun line h => absurd h List.not_mem_nil) hlines hnd)
    rintro st ⟨-, hs, hr⟩
    cases st.myself with
    | none => exact (returnsOr_error _).mpr rfl
    | some x =>
      apply (returnsOr_ok _).mpr
      exact ⟨⟨hs.handshake, hs.mine⟩, hr, (le_clusterGetMaxEpoch { st.cs with
        myself := x, currentEpoch := conf.currentEpoch, lastVoteEpoch := conf.lastVoteEpoch }).1⟩
  apply ((clusterLoadConfig_started conf).and hread).mono
  rintro cs ⟨h, hs, hr, hc⟩
  exact ⟨h, hs, hr, hc⟩

theorem clusterInit_restored {conf : NodesConf} (hlines : ∀ line ∈ conf.lines, SettledLine P line)
    (hnd : (conf.lines.map NodeLine.name).Nodup) :
    ReturnsOr .badConfig (clusterInit cfg env (some conf)) (Restored P conf) := by
  unfold clusterInit
  apply ReturnsOr.bind (clusterLoadConfig_restored hlines hnd)
  intro cs h
  obtain ⟨cs', hok, hstarted, -⟩ := clusterUpdateMyselfFlags_started cfg h.toStarted
  rw [hok]
  apply (returnsOr_ok _).mpr
  obtain ⟨me, hme⟩ := h.me
  rw [clusterUpdateMyselfFlags, updateNode_ok hme, Except.ok.injEq] at hok
  have hp : Pointwise SameRecord cs cs' := by
    rw [← hok]
    exact pointwise_mapNode SameRecord.refl (fun n _ => ⟨rfl, rfl, rfl, rfl⟩)
  have ht : cs'.table = cs.table ∧ cs'.currentEpoch = cs.currentEpoch := by
    rw [← hok]
    exact ⟨rfl, rfl⟩
  exact ⟨hstarted, h.settled.same hp, fun line hline => (h.recorded line hline).same hp ht.1,
    h.current.trans ht.2.ge⟩

theorem clusterInit_none_settled (hP : P env.randomName)
    (hi : clusterInit cfg env none = .ok cs) : Settled P cs := by
  have hfirst : Settled P (clusterAddNode emptyCluster
      (createClusterNode env.randomName { noFlags with myself := true, master := true } env.now)) := by
    have hone : ∀ y p, (clusterAddNode emptyCluster (createClusterNode env.randomName
        { noFlags with myself := true, master := true } env.now)).nodes y = some p →
        p.name = env.randomName ∧ p.flags.handshake = false := by
      intro y p h
      have h' : (if y = 0 then some (createClusterNode env.randomName
        { noFlags with myself := true, master := true } env.now) else none) = some p := h
      split_ifs at h'
      rw [Option.some.injEq] at h'
      rw [← h']
      exact ⟨rfl, rfl⟩
    refine ⟨fun y p h => (hone y p h).2, ?_⟩
    intro y p h _
    rw [(hone y p h).1]
    exact hP
  obtain ⟨me, hme⟩ := (firstNode_started env).1.me
  unfold clusterInit at hi
  rw [ok_bind, clusterUpdateMyselfFlags, updateNode_ok hme, Except.ok.injEq] at hi
  rw [← hi]
  exact hfirst.same (pointwise_mapNode SameRecord.refl (fun n _ => ⟨rfl, rfl, rfl, rfl⟩))

structure Named (P : NodeName → Prop) (cs : ClusterState) : Prop where
  temporary : ∀ x n, cs.nodes x = some n → n.flags.handshake = true → ¬ P n.name
  mine : ∀ x n, cs.nodes x = some n → n.flags.myself = true → P n.name

theorem Settled.named (h : Settled P cs) : Named P cs := by
  refine ⟨?_, h.mine⟩
  intro x n hx hh
  rw [h.handshake x n hx] at hh
  cases hh

theorem mem_clusterSaveConfig {line : NodeLine} : line ∈ (clusterSaveConfig cs).lines ↔
    ∃ x n, x ∈ nodeIds cs ∧ cs.nodes x = some n ∧ n.flags.handshake = false ∧
      line = clusterGenNodeDescription cs n := by
  unfold clusterSaveConfig
  dsimp only
  rw [List.mem_filterMap]
  refine ⟨?_, ?_⟩
  · rintro ⟨x, hx, h⟩
    obtain ⟨n, hn, hline⟩ := Option.bind_eq_some_iff.mp h
    by_cases hh : n.flags.handshake = true
    · rw [if_pos hh] at hline
      cases hline
    · rw [if_neg hh, Option.some.injEq] at hline
      exact ⟨x, n, hx, hn, Bool.eq_false_iff.mpr hh, hline.symm⟩
  · rintro ⟨x, n, hx, hn, hh, rfl⟩
    refine ⟨x, hx, ?_⟩
    rw [hn, Option.bind_some, hh, if_neg Bool.false_ne_true]

theorem clusterSaveConfig_settled (h : Named P cs) :
    ∀ line ∈ (clusterSaveConfig cs).lines, SettledLine P line := by
  intro line hline
  obtain ⟨x, n, -, hn, hh, rfl⟩ := mem_clusterSaveConfig.1 hline
  exact ⟨hh, fun hm => h.mine x n hn hm⟩

theorem clusterSaveConfig_nodup (cs : ClusterState) :
    ((clusterSaveConfig cs).lines.map NodeLine.name).Nodup := by
  have hids : (nodeIds cs).Nodup := (List.nodup_range).filter _
  -- a name leads back to the node that is listed under it
  have hname : ∀ x ∈ nodeIds cs, ∀ name, Option.map NodeLine.name ((cs.nodes x).bind (fun n =>
      if n.flags.handshake then none else some (clusterGenNodeDescription cs n))) = some name →
      cs.table name = some x := by
    intro x hx name h
    obtain ⟨-, n, hn, ht⟩ := mem_nodeIds.1 hx
    rw [hn, Option.bind_some] at h
    by_cases hh : n.flags.handshake = true
    · rw [if_pos hh] at h
      cases h
    · rw [if_neg hh, Option.map_some, Option.some.injEq] at h
      rw [← h]
      exact ht
  unfold clusterSaveConfig
  dsimp only
  rw [List.map_filterMap, List.Nodup, List.pairwise_filterMap]
  apply hids.imp_of_mem
  intro x y hx hy hne name h name' h' heq
  have hx' := hname x hx name h
  have hy' := hname y hy name' h'
  rw [heq, hy', Option.some.injEq] at hx'
  exact hne hx'.symm

variable (cfg env) in
theorem restart_recorded (h : Named P cs) :
    ReturnsOr .badConfig (clusterInit cfg env (some (clusterSaveConfig cs))) (fun cs' =>
      Restored P (clusterSaveConfig cs) cs' ∧ cs.currentEpoch ≤ cs'.currentEpoch ∧
      ∀ x n, cs.nodes x = some n → cs.table n.name = some x → x < cs.fresh →
        n.flags.handshake = false → ∃ x' n', cs'.table n.name = some x' ∧
          cs'.nodes x' = some n' ∧ n'.configEpoch = (clusterGenNodeDescription cs n).configEpoch) := by
  apply (clusterInit_restored (clusterSaveConfig_settled h) (clusterSaveConfig_nodup cs)).mono
  intro cs' hr
  refine ⟨hr, hr.current, ?_⟩
  intro x n hn hx hlt hh
  exact hr.recorded _ (mem_clusterSaveConfig.2
    ⟨x, n, mem_nodeIds.2 ⟨hlt, n, hn, hx⟩, hn, hh, rfl⟩)

end RedisCore.Cluster
