import RedisCore.ClusterRoles

namespace RedisCore.Cluster

variable {k k' : Slack} {cs cs' cs'' : ClusterState} {x y : NodeId} {n m : ClusterNode} {j : Slot}
variable {α β : Type} {P Q : α → Prop}

structure SameFrame (cs cs' : ClusterState) : Prop extends SameBallot cs cs' where
  fresh : cs'.fresh = cs.fresh
  current : cs'.currentEpoch = cs.currentEpoch
  myself : cs'.myself = cs.myself
  out : cs'.out = cs.out

theorem unlink_frame (cs : ClusterState) (x : NodeId) : SameFrame cs (unlink cs x) := by
  unfold unlink
  split <;> exact ⟨⟨rfl, rfl, rfl, rfl⟩, rfl, rfl, rfl, rfl⟩

theorem quitRole_frame (cs : ClusterState) : SameFrame cs (quitRole cs) := by
  unfold quitRole
  split_ifs
  · exact ⟨⟨rfl, rfl, rfl, rfl⟩, rfl, rfl, rfl, rfl⟩
  · exact unlink_frame cs _

theorem detached_frame (cs : ClusterState) (x : NodeId) (n : ClusterNode) :
    SameFrame cs (detached cs x n) := by
  unfold detached
  split_ifs
  · have h := unlink_frame (orphan cs n.slaves) x
    exact ⟨⟨h.vote, h.count, h.sent, h.epoch⟩, h.fresh, h.current, h.myself, h.out⟩
  · exact ⟨⟨rfl, rfl, rfl, rfl⟩, rfl, rfl, rfl, rfl⟩

theorem Epochs.edit (h : Epochs cs) (hk : ¬ k.epoch) (e : Edit k cs cs') : Epochs cs' := by
  have hmap : ∀ {f : ClusterNode → ClusterNode} {c : ClusterState} {x : NodeId},
      (∀ y n, c.nodes y = some n → n.configEpoch ≤ cs.currentEpoch) →
      (∀ n, (f n).configEpoch = n.configEpoch) →
      ∀ y n, (mapNode c x f).nodes y = some n → n.configEpoch ≤ cs.currentEpoch := by
    intro f c x hc hf y n hy
    rw [mapNode_nodes] at hy
    by_cases hyx : y = x
    · rw [if_pos hyx, Option.map_eq_some_iff] at hy
      obtain ⟨p, hp, rfl⟩ := hy
      rw [hf]
      exact hc y p hp
    · rw [if_neg hyx] at hy
      exact hc y n hy
  have hdrop : ∀ x m, (dropSlave x m).configEpoch = m.configEpoch := by
    intro x m
    unfold dropSlave
    split_ifs <;> rfl
  have htake : ∀ x m, (takeSlave x m).configEpoch = m.configEpoch := by
    intro x m
    unfold takeSlave
    split_ifs <;> rfl
  have hunlink : ∀ (c : ClusterState) x,
      (∀ y n, c.nodes y = some n → n.configEpoch ≤ cs.currentEpoch) →
      ∀ y n, (unlink c x).nodes y = some n → n.configEpoch ≤ cs.currentEpoch := by
    intro c x hc
    unfold unlink
    split
    · exact hc
    · exact hmap hc (hdrop x)
  have hframe : ∀ {c c' : ClusterState}, SameFrame cs c → c'.currentEpoch = c.currentEpoch →
      c'.failoverAuthEpoch = c.failoverAuthEpoch →
      (∀ y n, c'.nodes y = some n → n.configEpoch ≤ cs.currentEpoch) → Epochs c' := by
    intro c c' hf hc he hn
    have hcur := hc.trans hf.current
    exact ⟨by rw [hcur]; exact hn, by rw [hcur, he.trans hf.epoch]; exact h.election⟩
  cases e with
  | aside hv hb =>
    refine ⟨?_, by rw [hb.epoch, hv.current]; exact h.election⟩
    rw [hv.nodes, hv.current]
    exact h.known
  | send msgs => exact ⟨h.known, h.election⟩
  | ballot hv ho hel he =>
    refine ⟨by rw [hv.nodes, hv.current]; exact h.known, ?_⟩
    rw [hv.current]
    rcases he with he | he
    · rw [he]
      exact h.election
    · exact he
  | touch ht =>
    refine ⟨?_, by rw [ht.epoch, ht.current]; exact h.election⟩
    intro y n' hy
    obtain ⟨n, hn, hs⟩ := ht.old y n' hy
    rw [hs.epoch, ht.current]
    exact h.known y n hn
  | join n hn =>
    refine ⟨?_, h.election⟩
    intro y p hy
    have hy' : (setNode cs cs.fresh n).nodes y = some p := hy
    rw [setNode_nodes] at hy'
    by_cases hyx : y = cs.fresh
    · rw [if_pos hyx, Option.some.injEq] at hy'
      rw [← hy', hn.epoch]
      exact Nat.zero_le _
    · rw [if_neg hyx] at hy'
      exact h.known y p hy'
  | epochUp e he => exact ⟨fun y p hy => (h.known y p hy).trans he, h.election.trans he⟩
  | nodeEpoch x e hle hbound =>
    refine ⟨?_, h.election⟩
    intro y p hy
    rw [mapNode_nodes] at hy
    by_cases hyx : y = x
    · rw [if_pos hyx, Option.map_eq_some_iff] at hy
      obtain ⟨q, hq, rfl⟩ := hy
      exact hbound.resolve_right hk
    · rw [if_neg hyx] at hy
      exact h.known y p hy
  | bind x n n' j hx hfree hn =>
    refine ⟨?_, h.election⟩
    intro y p hy
    have hy' : (setNode cs x n').nodes y = some p := hy
    rw [setNode_nodes] at hy'
    by_cases hyx : y = x
    · rw [if_pos hyx, Option.some.injEq] at hy'
      rw [← hy', hn.epoch]
      exact h.known x n hx
    · rw [if_neg hyx] at hy'
      exact h.known y p hy'
  | unbind x n j hx hs =>
    refine ⟨?_, h.election⟩
    intro y p hy
    have hy' : (setNode cs x { n with
      slots := Function.update n.slots j false, numslots := n.numslots-1 }).nodes y = some p := hy
    rw [setNode_nodes] at hy'
    by_cases hyx : y = x
    · rw [if_pos hyx, Option.some.injEq] at hy'
      rw [← hy']
      exact h.known x n hx
    · rw [if_neg hyx] at hy'
      exact h.known y p hy'
  | slotState mig imp => exact ⟨h.known, h.election⟩
  | promote x b =>
    refine hframe (unlink_frame cs x) ?_ ?_ ?_
    · rfl
    · rfl
    · exact hmap (hunlink cs x h.known) (fun n => rfl)
  | demote x n => exact ⟨hmap h.known (fun n => rfl), h.election⟩
  | attach x m n =>
    refine hframe (unlink_frame cs x) ?_ ?_ ?_
    · rfl
    · rfl
    · exact hmap (hmap (hunlink cs x h.known) (htake x)) (fun n => rfl)
  | follow m =>
    have hquit : ∀ y n, (quitRole cs).nodes y = some n → n.configEpoch ≤ cs.currentEpoch := by
      unfold quitRole
      split_ifs
      · exact hmap h.known (fun n => rfl)
      · exact hunlink cs _ h.known
    refine hframe (quitRole_frame cs) ?_ ?_ ?_
    · rfl
    · rfl
    · exact hmap (hmap hquit (fun n => rfl)) (htake cs.myself)
  | remove x n =>
    have horphan : ∀ y p, (orphan cs n.slaves).nodes y = some p → p.configEpoch ≤ cs.currentEpoch := by
      intro y p hy
      have hy' : (if y ∈ n.slaves then (cs.nodes y).map (fun n => { n with slaveof := none })
        else cs.nodes y) = some p := hy
      split_ifs at hy'
      · rw [Option.map_eq_some_iff] at hy'
        obtain ⟨q, hq, rfl⟩ := hy'
        exact h.known y q hq
      · exact h.known y p hy'
    have hdet : ∀ y p, (detached cs x n).nodes y = some p → p.configEpoch ≤ cs.currentEpoch := by
      unfold detached
      split_ifs
      · exact hunlink _ x horphan
      · exact horphan
    refine hframe (detached_frame cs x n) ?_ ?_ ?_
    · rfl
    · rfl
    · intro y p hy
      have hy' : (if y = x then none else (detached cs x n).nodes y) = some p := hy
      split_ifs at hy'
      exact hdet y p hy'
  | complete x n hx name f =>
    exact ⟨hmap h.known (fun n => rfl), h.election⟩

structure Pointwise (R : ClusterNode → ClusterNode → Prop) (cs cs' : ClusterState) : Prop where
  old : ∀ y n', cs'.nodes y = some n' → ∃ n, cs.nodes y = some n ∧ R n n'
  live : ∀ y n, cs.nodes y = some n → ∃ n', cs'.nodes y = some n' ∧ R n n'

variable {R : ClusterNode → ClusterNode → Prop}

theorem pointwise_of_nodes (hR : ∀ n, R n n) (h : cs'.nodes = cs.nodes) : Pointwise R cs cs' := by
  refine ⟨?_, ?_⟩
  · intro y n hy
    exact ⟨n, by rw [← h]; exact hy, hR n⟩
  · intro y n hy
    exact ⟨n, by rw [h]; exact hy, hR n⟩

theorem Pointwise.trans (ht : ∀ n n' n'', R n n' → R n' n'' → R n n'') (h : Pointwise R cs cs')
    (h' : Pointwise R cs' cs'') : Pointwise R cs cs'' := by
  refine ⟨?_, ?_⟩
  · intro y n'' hy
    obtain ⟨n', hn', hr'⟩ := h'.old y n'' hy
    obtain ⟨n, hn, hr⟩ := h.old y n' hn'
    exact ⟨n, hn, ht n n' n'' hr hr'⟩
  · intro y n hy
    obtain ⟨n', hn', hr⟩ := h.live y n hy
    obtain ⟨n'', hn'', hr'⟩ := h'.live y n' hn'
    exact ⟨n'', hn'', ht n n' n'' hr hr'⟩

theorem pointwise_mapNode (hR : ∀ n, R n n) {f : ClusterNode → ClusterNode}
    (hf : ∀ n, cs.nodes x = some n → R n (f n)) : Pointwise R cs (mapNode cs x f) := by
  refine ⟨?_, ?_⟩
  · intro y n' hy
    rw [mapNode_nodes] at hy
    by_cases hyx : y = x
    · rw [if_pos hyx, Option.map_eq_some_iff] at hy
      obtain ⟨n, hn, rfl⟩ := hy
      exact ⟨n, hn, hf n (hyx ▸ hn)⟩
    · rw [if_neg hyx] at hy
      exact ⟨n', hy, hR n'⟩
  · intro y n hy
    rw [mapNode_nodes]
    by_cases hyx : y = x
    · rw [if_pos hyx, hy]
      exact ⟨f n, rfl, hf n (hyx ▸ hy)⟩
    · rw [if_neg hyx]
      exact ⟨n, hy, hR n⟩

variable {f : ClusterState → Except ClusterFault ClusterState} {n' : ClusterNode}
  {a : Except ClusterFault α}

theorem pointwise_setNode (hR : ∀ n, R n n) (hx : cs.nodes x = some n)
    (hr : R n n') (hn : cs'.nodes = (setNode cs x n').nodes) : Pointwise R cs cs' := by
  refine ⟨?_, ?_⟩
  · intro y p hy
    rw [hn, setNode_nodes] at hy
    by_cases hyx : y = x
    · rw [if_pos hyx, Option.some.injEq] at hy
      rw [hyx, ← hy]
      exact ⟨n, hx, hr⟩
    · rw [if_neg hyx] at hy
      exact ⟨p, hy, hR p⟩
  · intro y p hy
    rw [hn, setNode_nodes]
    by_cases hyx : y = x
    · rw [hyx, hx, Option.some.injEq] at hy
      rw [if_pos hyx, ← hy]
      exact ⟨n', rfl, hr⟩
    · rw [if_neg hyx]
      exact ⟨p, hy, hR p⟩

structure Grown (k : Slack) (n n' : ClusterNode) : Prop where
  epoch : n.configEpoch ≤ n'.configEpoch ∨ k.epoch
  label : (n'.name = n.name ∧ n'.flags.handshake = n.flags.handshake) ∨
    (n.flags.handshake = true ∧ n'.flags.handshake = false ∧ (k.proc n'.name ∨ k.epoch))
  mine : n'.flags.myself = n.flags.myself
  unlinked : n.flags.myself = true → n.link = false → n'.link = false

theorem Grown.joined {n : ClusterNode} (h : Grown k n n') (hh : n.flags.handshake = false) :
    n'.flags.handshake = false ∧ n'.name = n.name := by
  rcases h.label with ⟨hn, heq⟩ | ⟨ht, -⟩
  · exact ⟨heq.trans hh, hn⟩
  · rw [hh] at ht
    cases ht

theorem Grown.refl (n : ClusterNode) : Grown k n n :=
  ⟨Or.inl (le_refl _), Or.inl ⟨rfl, rfl⟩, rfl, fun _ h => h⟩

theorem Grown.trans {n n'' : ClusterNode} (h : Grown k n n') (h' : Grown k n' n'') :
    Grown k n n'' := by
  refine ⟨?_, ?_, h'.mine.trans h.mine, ?_⟩
  · rcases h.epoch with he | he
    · exact h'.epoch.imp_left he.trans
    · exact Or.inr he
  · rcases h.label with ⟨hn, hh⟩ | ⟨ht, hf, hp⟩
    · rcases h'.label with ⟨hn', hh'⟩ | ⟨ht', hf', hp'⟩
      · exact Or.inl ⟨hn'.trans hn, hh'.trans hh⟩
      · exact Or.inr ⟨hh ▸ ht', hf', hp'⟩
    · obtain ⟨hf', hn'⟩ := h'.joined hf
      exact Or.inr ⟨ht, hf', by rw [hn']; exact hp⟩
  · intro hm hl
    exact h'.unlinked (h.mine.trans hm) (h.unlinked hm hl)

theorem Grown.of_eq {n : ClusterNode} (he : n'.configEpoch = n.configEpoch)
    (hn : n'.name = n.name) (hh : n'.flags.handshake = n.flags.handshake)
    (hm : n'.flags.myself = n.flags.myself)
    (hl : n.flags.myself = true → n.link = false → n'.link = false) : Grown k n n' :=
  ⟨Or.inl he.ge, Or.inl ⟨hn, hh⟩, hm, hl⟩

theorem dropSlave_grown (x : NodeId) (m : ClusterNode) : Grown k m (dropSlave x m) := by
  obtain ⟨hn, -, -, hh⟩ := dropSlave_same x m
  have hrest : (dropSlave x m).configEpoch = m.configEpoch ∧
      (dropSlave x m).flags.myself = m.flags.myself ∧ (dropSlave x m).link = m.link := by
    by_cases hx : x ∈ m.slaves
    · rw [dropSlave, if_pos hx]
      by_cases he : (m.slaves.erase x).isEmpty = true
      · simp only [he, if_true, and_self]
      · simp only [he, if_false, Bool.false_eq_true, and_self]
    · rw [dropSlave, if_neg hx]
      exact ⟨rfl, rfl, rfl⟩
  exact Grown.of_eq hrest.1 hn hh hrest.2.1 (fun _ h => hrest.2.2.trans h)

theorem takeSlave_grown (x : NodeId) (m : ClusterNode) : Grown k m (takeSlave x m) := by
  obtain ⟨hn, -, -, hh⟩ := takeSlave_same x m
  have hrest : (takeSlave x m).configEpoch = m.configEpoch ∧
      (takeSlave x m).flags.myself = m.flags.myself ∧ (takeSlave x m).link = m.link := by
    unfold takeSlave
    split_ifs <;> exact ⟨rfl, rfl, rfl⟩
  exact Grown.of_eq hrest.1 hn hh hrest.2.1 (fun _ h => hrest.2.2.trans h)

theorem unlink_grown (cs : ClusterState) (x : NodeId) : Pointwise (Grown k) cs (unlink cs x) := by
  unfold unlink
  split
  · exact pointwise_of_nodes Grown.refl rfl
  · exact pointwise_mapNode Grown.refl (fun n _ => dropSlave_grown x n)

theorem quitRole_grown (cs : ClusterState) : Pointwise (Grown k) cs (quitRole cs) := by
  unfold quitRole
  split_ifs
  · have hm : Pointwise (Grown k) cs (mapNode cs cs.myself asSlave) :=
      pointwise_mapNode Grown.refl (fun n _ => Grown.of_eq rfl rfl rfl rfl (fun _ h => h))
    exact ⟨hm.old, hm.live⟩
  · exact unlink_grown cs _

theorem orphan_grown (cs : ClusterState) (l : List NodeId) : Pointwise (Grown k) cs (orphan cs l) := by
  have ho : ∀ y, (orphan cs l).nodes y = if y ∈ l then
      (cs.nodes y).map (fun n => { n with slaveof := none }) else cs.nodes y := fun y => rfl
  refine ⟨?_, ?_⟩
  · intro y n' hy
    rw [ho] at hy
    split_ifs at hy
    · rw [Option.map_eq_some_iff] at hy
      obtain ⟨n, hn, rfl⟩ := hy
      exact ⟨n, hn, Grown.of_eq rfl rfl rfl rfl (fun _ h => h)⟩
    · exact ⟨n', hy, Grown.refl n'⟩
  · intro y n hy
    rw [ho]
    split_ifs
    · rw [hy]
      exact ⟨_, rfl, Grown.of_eq rfl rfl rfl rfl (fun _ h => h)⟩
    · exact ⟨n, hy, Grown.refl n⟩

theorem detached_grown (cs : ClusterState) (x : NodeId) (n : ClusterNode) :
    Pointwise (Grown k) cs (detached cs x n) := by
  unfold detached
  split_ifs
  · exact (orphan_grown cs _).trans (fun _ _ _ => Grown.trans) (unlink_grown _ x)
  · exact orphan_grown cs _

structure Later (k : Slack) (cs cs' : ClusterState) : Prop where
  old : ∀ x n', x < cs.fresh → cs'.nodes x = some n' → ∃ n, cs.nodes x = some n ∧ Grown k n n'
  fresh : cs.fresh ≤ cs'.fresh
  current : cs.currentEpoch ≤ cs'.currentEpoch
  myself : cs'.myself = cs.myself

theorem Later.refl (cs : ClusterState) : Later k cs cs :=
  ⟨fun _ n _ h => ⟨n, h, Grown.refl n⟩, le_refl _, le_refl _, rfl⟩

theorem Later.trans (h : Later k cs cs') (h' : Later k cs' cs'') : Later k cs cs'' := by
  refine ⟨?_, h.fresh.trans h'.fresh, h.current.trans h'.current, h'.myself.trans h.myself⟩
  intro x n'' hx hn''
  obtain ⟨n', hn', hg'⟩ := h'.old x n'' (lt_of_lt_of_le hx h.fresh) hn''
  obtain ⟨n, hn, hg⟩ := h.old x n' hx hn'
  exact ⟨n, hn, hg.trans hg'⟩

theorem Pointwise.later (h : Pointwise (Grown k) cs cs') (hf : cs'.fresh = cs.fresh)
    (hc : cs.currentEpoch ≤ cs'.currentEpoch) (hm : cs'.myself = cs.myself) : Later k cs cs' :=
  ⟨fun x n' _ hn' => h.old x n' hn', hf.ge, hc, hm⟩

def Alive (cs cs' : ClusterState) : Prop :=
  ∀ x n, cs.nodes x = some n → ∃ n', cs'.nodes x = some n'

theorem Pointwise.alive (h : Pointwise R cs cs') : Alive cs cs' := by
  intro x n hx
  obtain ⟨n', hn', -⟩ := h.live x n hx
  exact ⟨n', hn'⟩

theorem Edit.later (e : Edit k cs cs') : Later k cs cs' ∧ (¬ k.removal → Alive cs cs') := by
  have hpoint : ∀ {c : ClusterState}, Pointwise (Grown k) cs c → c.fresh = cs.fresh →
      cs.currentEpoch ≤ c.currentEpoch → c.myself = cs.myself →
      Later k cs c ∧ (¬ k.removal → Alive cs c) :=
    fun h hf hc hm => ⟨h.later hf hc hm, fun _ => h.alive⟩
  have hmap : ∀ {c : ClusterState} {x : NodeId} {f : ClusterNode → ClusterNode},
      Pointwise (Grown k) cs c → (∀ n, Grown k n (f n)) → Pointwise (Grown k) cs (mapNode c x f) :=
    fun h hf => h.trans (fun _ _ _ => Grown.trans) (pointwise_mapNode Grown.refl (fun n _ => hf n))
  cases e with
  | aside hv => exact hpoint (pointwise_of_nodes Grown.refl hv.nodes) hv.fresh hv.current.ge hv.myself
  | send msgs => exact hpoint (pointwise_of_nodes Grown.refl rfl) rfl (le_refl _) rfl
  | ballot hv => exact hpoint (pointwise_of_nodes Grown.refl hv.nodes) hv.fresh hv.current.ge hv.myself
  | touch ht =>
    refine hpoint ⟨?_, ?_⟩ ht.fresh ht.current.ge ht.myself
    · intro y n' hy
      obtain ⟨n, hn, hs⟩ := ht.old y n' hy
      exact ⟨n, hn, Grown.of_eq hs.epoch hs.name hs.handshake hs.mine hs.unlinked⟩
    · intro y n hy
      obtain ⟨n', hn', hs⟩ := ht.live y n hy
      exact ⟨n', hn', Grown.of_eq hs.epoch hs.name hs.handshake hs.mine hs.unlinked⟩
  | join n hn =>
    refine ⟨⟨?_, Nat.le_succ _, le_refl _, rfl⟩, ?_⟩
    · intro x p hx hp
      have hp' : (setNode cs cs.fresh n).nodes x = some p := hp
      rw [setNode_nodes, if_neg (ne_of_lt hx)] at hp'
      exact ⟨p, hp', Grown.refl p⟩
    · intro _ x p hp
      show ∃ p', (setNode cs cs.fresh n).nodes x = some p'
      rw [setNode_nodes]
      by_cases hx : x = cs.fresh
      · exact ⟨n, if_pos hx⟩
      · exact ⟨p, by rw [if_neg hx, hp]⟩
  | epochUp e he => exact hpoint (pointwise_of_nodes Grown.refl rfl) rfl he rfl
  | nodeEpoch x e hle =>
    refine hpoint (pointwise_mapNode Grown.refl ?_) rfl (le_refl _) rfl
    intro n hn
    exact ⟨hle.imp_left (fun h => h n hn), Or.inl ⟨rfl, rfl⟩, rfl, fun _ h => h⟩
  | bind x n n' j hx hfree hn =>
    exact hpoint (pointwise_setNode Grown.refl hx (Grown.of_eq hn.epoch hn.name hn.handshake hn.mine hn.unlinked) rfl) rfl
      (le_refl _) rfl
  | unbind x n j hx hs =>
    have hg : Grown k n { n with slots := Function.update n.slots j false, numslots := n.numslots-1 } :=
      Grown.of_eq rfl rfl rfl rfl (fun _ h => h)
    exact hpoint (pointwise_setNode Grown.refl hx hg rfl) rfl (le_refl _) rfl
  | slotState mig imp => exact hpoint (pointwise_of_nodes Grown.refl rfl) rfl (le_refl _) rfl
  | promote x b =>
    have hf := unlink_frame cs x
    exact hpoint (hmap (unlink_grown cs x) (fun n => Grown.of_eq rfl rfl rfl rfl (fun _ h => h)))
      hf.fresh hf.current.ge hf.myself
  | demote x n =>
    exact hpoint (pointwise_mapNode Grown.refl (fun n _ => Grown.of_eq rfl rfl rfl rfl (fun _ h => h))) rfl (le_refl _) rfl
  | attach x m n =>
    have hf := unlink_frame cs x
    exact hpoint (hmap (hmap (unlink_grown cs x) (takeSlave_grown x))
      (fun n => Grown.of_eq rfl rfl rfl rfl (fun _ h => h))) hf.fresh hf.current.ge hf.myself
  | follow m =>
    have hf := quitRole_frame cs
    exact hpoint (hmap (hmap (quitRole_grown cs) (fun n => Grown.of_eq rfl rfl rfl rfl (fun _ h => h)))
      (takeSlave_grown _)) hf.fresh hf.current.ge hf.myself
  | remove x n hx hme hname hs hi hm hrm =>
    have hf := detached_frame cs x n
    refine ⟨⟨?_, hf.fresh.ge, hf.current.ge, hf.myself⟩, fun h => absurd hrm h⟩
    intro y p _ hp
    have hp' : (if y = x then none else (detached cs x n).nodes y) = some p := hp
    split_ifs at hp'
    exact (detached_grown cs x n).old y p hp'
  | complete x n hx name f hhand hf hnamed =>
    have hg : ∀ p, cs.nodes x = some p → Grown k p (joinAs name f p) := by
      intro p hp
      rw [hx, Option.some.injEq] at hp
      exact ⟨Or.inl (le_refl _), Or.inr ⟨hp ▸ hhand, rfl, hnamed⟩, rfl, fun _ h => h⟩
    have hm : Pointwise (Grown k) cs (mapNode cs x (joinAs name f)) := pointwise_mapNode Grown.refl hg
    exact hpoint ⟨hm.old, hm.live⟩ rfl (le_refl _) rfl

theorem Edit.fresh (e : Edit k cs cs') : cs'.fresh = cs.fresh ∨ ∃ n, cs'.fresh = cs.fresh+1 ∧
    cs'.nodes cs.fresh = some n ∧ (n.flags.handshake = true → k.proc n.name → k.epoch) ∧
    (n.flags.myself = true → k.proc n.name ∨ k.epoch) := by
  cases e with
  | aside hv => exact Or.inl hv.fresh
  | ballot hv => exact Or.inl hv.fresh
  | touch ht => exact Or.inl ht.fresh
  | join n hn hname hrole hproc hmine =>
    refine Or.inr ⟨n, rfl, ?_, hproc, hmine⟩
    show (setNode cs cs.fresh n).nodes cs.fresh = some n
    rw [setNode_nodes, if_pos rfl]
  | promote x b => exact Or.inl (unlink_frame cs x).fresh
  | attach x m n => exact Or.inl (unlink_frame cs x).fresh
  | follow m => exact Or.inl (quitRole_frame cs).fresh
  | remove x n => exact Or.inl (detached_frame cs x n).fresh
  | _ => exact Or.inl rfl

theorem Edit.out (e : Edit k cs cs') : ∃ msgs, cs'.out = cs.out ++ msgs ∧
    ∀ p ∈ msgs, Honest k cs p.2 := by
  have hnone : cs'.out = cs.out → ∃ msgs, cs'.out = cs.out ++ msgs ∧ ∀ p ∈ msgs, Honest k cs p.2 := by
    intro h
    exact ⟨[], by rw [h, List.append_nil], fun p hp => absurd hp List.not_mem_nil⟩
  cases e with
  | aside hv hb ho => exact hnone ho
  | send msgs h => exact ⟨msgs, rfl, h⟩
  | ballot hv ho => exact hnone ho
  | touch ht => exact hnone ht.out
  | promote x b => exact hnone (unlink_frame cs x).out
  | attach x m n => exact hnone (unlink_frame cs x).out
  | follow m => exact hnone (quitRole_frame cs).out
  | remove x n => exact hnone (detached_frame cs x n).out
  | _ => exact hnone rfl

theorem Edits.later (e : Edits k cs cs') : Later k cs cs' := by
  induction e with
  | refl => exact Later.refl _
  | tail _ e ih => exact ih.trans e.later.1

theorem Edits.alive (e : Edits k cs cs') (hk : ¬ k.removal) : Alive cs cs' := by
  induction e with
  | refl => exact fun x n hx => ⟨n, hx⟩
  | tail _ e ih =>
    intro x n hx
    obtain ⟨n', hn'⟩ := ih x n hx
    exact e.later.2 hk x n' hn'

theorem Edits.grown (e : Edits k cs cs') (hk : ¬ k.removal) (hv : View cs)
    (hx : cs.nodes x = some n) : ∃ n', cs'.nodes x = some n' ∧ Grown k n n' := by
  obtain ⟨n', hn'⟩ := e.alive hk x n hx
  obtain ⟨p, hp, hg⟩ := e.later.old x n' (hv.toTable.bound x n hx) hn'
  rw [hx, Option.some.injEq] at hp
  exact ⟨n', hn', hp ▸ hg⟩

structure Slack.Le (k k' : Slack) : Prop where
  role : k.role → k'.role
  epoch : k.epoch → k'.epoch
  removal : k.removal → k'.removal
  election : k.election → k'.election
  proc : ∀ name, k'.proc name ↔ k.proc name

theorem Honest.mono (hk : k.Le k') {msg : ClusterMsg} (h : Honest k cs msg) : Honest k' cs msg := by
  refine ⟨h.sender, h.current, h.config, ?_⟩
  have hb := h.body
  cases hm : msg.body with
  | authRequest =>
    rw [hm] at hb
    exact hk.election hb
  | authAck =>
    rw [hm] at hb
    exact hk.election hb
  | _ =>
    rw [hm] at hb
    exact hb

theorem Edit.mono (hk : k.Le k') (e : Edit k cs cs') : Edit k' cs cs' := by
  cases e with
  | aside hv hb ho => exact Edit.aside hv hb ho
  | send msgs h => exact Edit.send msgs (fun p hp => (h p hp).mono hk)
  | ballot hv ho hel he => exact Edit.ballot hv ho (hk.election hel) he
  | touch h => exact Edit.touch h
  | join n h hname hrole hproc hmine =>
    exact Edit.join n h hname (hrole.imp_right hk.role)
      (fun hh hp => hk.epoch (hproc hh ((hk.proc _).mp hp)))
      (fun hm => (hmine hm).imp (hk.proc _).mpr hk.epoch)
  | epochUp e h => exact Edit.epochUp e h
  | nodeEpoch x e h hb => exact Edit.nodeEpoch x e (h.imp_right hk.epoch) (hb.imp_right hk.epoch)
  | bind x n n' j hx hf hn hr => exact Edit.bind x n n' j hx hf hn (hr.imp_right hk.role)
  | unbind x n j hx hs => exact Edit.unbind x n j hx hs
  | slotState mig imp hm hi => exact Edit.slotState mig imp hm hi
  | promote x b hr => exact Edit.promote x b (hr.imp_right hk.role)
  | demote x n hx hs hm hr => exact Edit.demote x n hx hs hm (hr.imp_right hk.role)
  | attach x m n hx hm hr => exact Edit.attach x m n hx hm (hr.imp_right hk.role)
  | follow m hne hm hs hr => exact Edit.follow m hne hm hs (hr.imp_right hk.role)
  | remove x n hx hme hname hs hi hm hrm hr =>
    exact Edit.remove x n hx hme hname hs hi hm (hk.removal hrm) (hr.imp_right hk.role)
  | complete x n hx name f hh hf hnamed =>
    exact Edit.complete x n hx name f hh (hf.imp_right hk.role)
      (hnamed.imp (hk.proc _).mpr hk.epoch)

theorem Edits.mono (hk : k.Le k') (e : Edits k cs cs') : Edits k' cs cs' := by
  induction e with
  | refl => exact Edits.refl _
  | tail _ e ih => exact ih.tail (e.mono hk)

def Slack.keep (k : Slack) : Slack := { k with removal := False }

theorem Slack.keep_le (k : Slack) : k.keep.Le k :=
  ⟨id, id, False.elim, id, fun _ => Iff.rfl⟩

structure Good (k : Slack) (cs : ClusterState) : Prop extends View cs where
  own : ∀ me, cs.nodes cs.myself = some me → me.flags.myself = true ∧ me.link = false
  roles : Roles cs ∨ k.role
  epochs : Epochs cs ∨ k.epoch

theorem Good.edit (h : Good k cs) (e : Edit k cs cs') : Good k cs' := by
  refine ⟨h.toView.edit e, ?_, ?_, ?_⟩
  · intro me' hme'
    have hl := e.later.1
    rw [hl.myself] at hme'
    obtain ⟨me, hme⟩ := h.me
    obtain ⟨p, hp, hg⟩ := hl.old _ me' (h.toTable.bound _ me hme) hme'
    obtain ⟨h1, h2⟩ := h.own p hp
    exact ⟨hg.mine.trans h1, hg.unlinked h1 h2⟩
  · by_cases hk : k.role
    · exact Or.inr hk
    · exact Or.inl ((h.roles.resolve_right hk).edit h.toView hk e)
  · by_cases hk : k.epoch
    · exact Or.inr hk
    · exact Or.inl ((h.epochs.resolve_right hk).edit hk e)

theorem Good.edits (h : Good k cs) (e : Edits k cs cs') : Good k cs' :=
  e.induct (fun _ _ e h => h.edit e) h

theorem Good.keep (h : Good k cs) : Good k.keep cs := ⟨h.toView, h.own, h.roles, h.epochs⟩

theorem Good.kept (h : Good k cs) (e : Edits k.keep cs cs') (hx : cs.nodes x = some n) :
    ∃ n', cs'.nodes x = some n' ∧ Grown k n n' := by
  obtain ⟨n', hn', hg⟩ := e.grown (fun h => h) h.toView hx
  exact ⟨n', hn', hg.epoch, hg.label, hg.mine, hg.unlinked⟩

theorem Good.keeps (h : Good k cs) (e : Edits k.keep cs cs') : Good k cs' :=
  h.edits (e.mono k.keep_le)

def Excused (k : Slack) (e : ClusterFault) : Prop :=
  e ≠ .delSlotAssert ∧ e ≠ .slotsCommandAssert ∧ k.role

def Leads (k : Slack) (x : Except ClusterFault α) (P : α → Prop) : Prop :=
  match x with
  | .ok a => P a
  | .error e => Excused k e

@[simp] theorem leads_ok (a : α) : Leads k (.ok a) P ↔ P a := Iff.rfl

@[simp] theorem leads_error (e : ClusterFault) :
    Leads k (.error e : Except ClusterFault α) P ↔ Excused k e := Iff.rfl

theorem Leads.ok {a : α} (h : P a) : Leads k (.ok a) P := h

theorem Leads.error {e : ClusterFault} (h : Excused k e) :
    Leads k (.error e : Except ClusterFault α) P := h

@[simp] theorem ok_bind (a : α) (f : α → Except ClusterFault β) : (Except.ok a >>= f) = f a := rfl

theorem Leads.bind {f : α → Except ClusterFault β} {R : β → Prop}
    (ha : Leads k a P) (hf : ∀ b, P b → Leads k (f b) R) : Leads k (a >>= f) R := by
  cases a with
  | ok b => exact hf b ha
  | error e => exact ha

theorem Leads.mono (ha : Leads k a P) (h : ∀ b, P b → Q b) : Leads k a Q := by
  cases a with
  | ok b => exact h b ha
  | error e => exact ha

theorem Leads.of_ok {b : α} (ha : Leads k a P) (h : a = .ok b) : P b := by
  rw [h] at ha
  exact ha

-- an outcome is not looked into: some are those of loops over all slots
attribute [irreducible] Leads

def Runs (k : Slack) (cs : ClusterState) (a : Except ClusterFault ClusterState) : Prop :=
  Leads k a (Edits k cs)

theorem Runs.refl : Runs k cs (.ok cs) := Leads.ok (Edits.refl cs)

theorem Runs.single (h : Edit k cs cs') : Runs k cs (.ok cs') := Leads.ok (Edits.single h)

theorem Runs.bind {a : Except ClusterFault ClusterState} (hg : Good k cs) (ha : Runs k cs a)
    (hf : ∀ cs', Edits k cs cs' → Good k cs' → Runs k cs' (f cs')) : Runs k cs (a >>= f) := by
  apply Leads.bind ha
  intro cs' h
  exact (hf cs' h (hg.edits h)).mono (fun _ h' => h.trans h')

theorem Leads.weaken (hk : k.Le k') (ha : Leads k a P) : Leads k' a P := by
  cases a with
  | ok b => exact leads_ok b |>.mpr ((leads_ok b).mp ha)
  | error e =>
    obtain ⟨h1, h2, h3⟩ := (leads_error e).mp ha
    exact Leads.error ⟨h1, h2, hk.role h3⟩

theorem Runs.bind_keep {a : Except ClusterFault ClusterState} (hg : Good k cs)
    (ha : Runs k.keep cs a)
    (hf : ∀ cs', Edits k.keep cs cs' → Good k cs' → Runs k cs' (f cs')) : Runs k cs (a >>= f) := by
  apply Leads.bind (Leads.weaken k.keep_le ha)
  intro cs' h
  exact (hf cs' h (hg.keeps h)).mono (fun _ h' => (h.mono k.keep_le).trans h')

theorem Leads.foldlM {σ ι : Type} (st : σ → ClusterState) {f : σ → ι → Except ClusterFault σ}
    (I : List ι → σ → Prop)
    (step : ∀ i rest s, Good k (st s) → I (i :: rest) s →
      Leads k (f s i) (fun s' => Edits k (st s) (st s') ∧ I rest s')) :
    ∀ l s, Good k (st s) → I l s →
      Leads k (l.foldlM f s) (fun s' => Edits k (st s) (st s') ∧ I [] s') := by
  intro l
  induction l with
  | nil => exact fun s _ hi => Leads.ok ⟨Edits.refl _, hi⟩
  | cons i rest ih =>
    intro s hg hi
    rw [List.foldlM_cons]
    apply Leads.bind (step i rest s hg hi)
    rintro s' ⟨he, hi'⟩
    apply (ih s' (hg.edits he) hi').mono
    rintro s'' ⟨he', hi''⟩
    exact ⟨he.trans he', hi''⟩

end RedisCore.Cluster
