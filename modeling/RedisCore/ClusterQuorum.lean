import RedisCore.ClusterElection

namespace RedisCore.Cluster
open List (mem_map not_mem_nil)

variable {cs cs' : ClusterState} {x y : NodeId} {n m : ClusterNode} {M : Finset NodeName}

section Electorate

variable {ι : Type} [DecidableEq ι] {cfg : ι → ClusterConfig} {name : ι → NodeName}
variable {s s' : Electorate ι} {i : ι}

structure Steady (M : Finset NodeName) (s : Electorate ι) : Prop where
  agrees : ∀ i, (∀ e, (i, e) ∉ s.wins) → Agrees M (s.view i)
  promoted : ∀ i e me, (i, e) ∈ s.wins → (s.view i).nodes (s.view i).myself = some me →
    me.flags.master = true

def Uncounted (cfg : ι → ClusterConfig) (s : Electorate ι) : ElectEvent ι → Prop
  | .failover i env cron => startsElection (cfg i) env (failoverView env (s.view i) cron) = true →
    (s.view i).failoverAuthCount = 0
  | _ => True

/-- A node that waits for votes counted none that it did not get, and a majority voted for every
node that won. -/
structure Tallied (M : Finset NodeName) (s : Electorate ι) : Prop where
  count : ∀ i, (∀ e, (i, e) ∉ s.wins) → (s.view i).failoverAuthSent = true →
    (s.view i).failoverAuthCount ≤ (votesFor s M i (s.view i).failoverAuthEpoch).card
  majority : ∀ w ∈ s.wins, M.card < 2*(votesFor s M w.1 w.2).card

theorem votesFor_mono (hacks : ∀ p ∈ s.acks, p ∈ s'.acks) (i : ι) (e : ℕ) :
    votesFor s M i e ⊆ votesFor s' M i e := by
  apply Finset.monotone_filter_right
  intro name _ hname
  obtain ⟨p, hp, heq⟩ := mem_map.mp hname
  exact mem_map.mpr ⟨p, hacks p hp, heq⟩

theorem Tallied.move (h : Tallied M s)
    (hview : s'.view = Function.update s.view i { cs with out := [] }) (hwins : s'.wins = s.wins)
    (hacks : ∀ p ∈ s.acks, p ∈ s'.acks)
    (hcount : (∀ e, (i, e) ∉ s.wins) → cs.failoverAuthSent = true →
      cs.failoverAuthCount ≤ (votesFor s' M i cs.failoverAuthEpoch).card) : Tallied M s' := by
  refine ⟨?_, ?_⟩
  · intro j hj hsent
    rw [hwins] at hj
    by_cases hji : j = i
    · rw [hji] at hj
      rw [hji, hview, Function.update_self] at hsent ⊢
      exact hcount hj hsent
    · rw [hview, Function.update_of_ne hji] at hsent ⊢
      exact (h.count j hj hsent).trans (Finset.card_le_card (votesFor_mono hacks j _))
  · intro w hw
    rw [hwins] at hw
    have hle := Finset.card_le_card (votesFor_mono (M := M) hacks w.1 w.2)
    exact lt_of_lt_of_le (h.majority w hw) (Nat.mul_le_mul_left 2 hle)

theorem Tallied.same (h : Tallied M s)
    (hview : s'.view = Function.update s.view i { cs with out := [] }) (hwins : s'.wins = s.wins)
    (hacks : ∀ p ∈ s.acks, p ∈ s'.acks) (hcount : cs.failoverAuthCount = (s.view i).failoverAuthCount)
    (hsent : cs.failoverAuthSent = (s.view i).failoverAuthSent)
    (hepoch : cs.failoverAuthEpoch = (s.view i).failoverAuthEpoch) : Tallied M s' := by
  apply h.move hview hwins hacks
  intro hi hs
  rw [hsent] at hs
  rw [hcount, hepoch]
  exact (h.count i hi hs).trans (Finset.card_le_card (votesFor_mono hacks i _))

theorem Tallied.failover (h : Tallied M s) (hb : Ballots name s) (hm : Steady M s) {env : Env}
    {cron : Bool} (hfirst : Uncounted cfg s (.failover i env cron))
    (hs : stepElectorate cfg name s (.failover i env cron) = some s') : Tallied M s' := by
  obtain ⟨r, hr, heq⟩ := stepElectorate_failover hs
  obtain ⟨he, hatt⟩ := failoverCall_attempt (hb.good i) (hb.named i) hr
  have hsame := failoverView_same env (s.view i) cron
  have hview : s'.view = Function.update s.view i { r.1 with out := [] } := by rw [heq]; rfl
  have hacks : ∀ p ∈ s.acks, p ∈ s'.acks := by
    rw [heq]
    exact fun p hp => hp
  have hwins : s'.wins = if r.2 then s.wins ++ [(i, (s.view i).failoverAuthEpoch)] else s.wins := by
    rw [heq]
  rcases hatt with hatt | ⟨hc, hlost⟩
  · obtain ⟨c, won⟩ := r
    cases hatt with
    | calm hc =>
      exact h.same hview hwins hacks (hc.count.trans hsame.count) (hc.sent.trans hsame.sent)
        (hc.epoch.trans hsame.epoch)
    | scheduled hc =>
      apply h.move hview hwins hacks
      intro _ hsent
      rw [hc.sent] at hsent
      cases hsent
    | requested hc hstart =>
      apply h.move hview hwins hacks
      intro _ _
      rw [hc.count, hsame.count, hfirst hstart]
      exact Nat.zero_le _
    | won hc hq hsent hslave =>
      -- the node did not win before, and what it counted is what it got
      obtain ⟨me, hme, hmaster⟩ := hslave
      rw [hsame.nodes, hsame.myself] at hme
      have hnever : ∀ e, (i, e) ∉ s.wins := by
        intro e hwon
        rw [hm.promoted i e me hwon hme] at hmaster
        cases hmaster
      rw [hsame.sent] at hsent
      rw [hsame.size, hsame.count, (hm.agrees i hnever).size_eq (hb.good i).toView] at hq
      have hgot := hq.trans (h.count i hnever hsent)
      have hvotes : ∀ j e, votesFor s' M j e = votesFor s M j e := by
        intro j e
        unfold votesFor
        rw [heq]
        rfl
      refine ⟨?_, ?_⟩
      · intro j hj hsent'
        rw [hwins, if_pos rfl] at hj
        have hji : j ≠ i := by
          rintro rfl
          exact hj _ (List.mem_append_right _ (List.mem_singleton_self _))
        rw [hvotes]
        rw [hview, Function.update_of_ne hji] at hsent' ⊢
        exact h.count j (fun e hwon => hj e (List.mem_append_left _ hwon)) hsent'
      · intro w hw
        rw [hvotes]
        rw [hwins, if_pos rfl, List.mem_append, List.mem_singleton] at hw
        rcases hw with hw | rfl
        · exact h.majority w hw
        · dsimp only
          omega
  · rw [hlost, if_neg Bool.false_ne_true] at hwins
    exact h.same hview hwins hacks hc.count hc.sent hc.epoch

theorem Tallied.receive (h : Tallied M s) (hb : Ballots name s) (hm : Steady M s) {env : Env}
    {link : Option NodeId} {msg : ℕ}
    (hs : stepElectorate cfg name s (.receive i env link msg) = some s') : Tallied M s' := by
  obtain ⟨p, cs, hp, hdest, hlink, hr, heq⟩ := stepElectorate_receive hs
  have hview : s'.view = Function.update s.view i { cs with out := [] } := by rw [heq]; rfl
  have hwins : s'.wins = s.wins := by rw [heq]; rfl
  have hacks' : s'.acks = if p.2.body.ack then s.acks ++ [(i, p.2)] else s.acks := by rw [heq]; rfl
  have hacks : ∀ q ∈ s.acks, q ∈ s'.acks := by
    intro q hq
    rw [hacks']
    split_ifs
    · exact List.mem_append_left _ hq
    · exact hq
  have hcalm : Calm (s.view i) cs → Tallied M s' :=
    fun hc => h.same hview hwins hacks hc.count hc.sent hc.epoch
  by_cases hauth : p.2.body.auth = true
  swap
  · rw [Bool.not_eq_true] at hauth
    have hev : stepEvent (cfg i) env (s.view i) (.packet link p.2) = .ok cs := by
      unfold stepEvent
      dsimp only
      rw [if_pos hlink, hr]
    have he := stepEvent_calm (hb.good i) hev (by simp) (by simp) (by
      rintro link' hdr ⟨⟩
      exact hauth)
    exact hcalm (he.calm (fun h => h))
  by_cases hreq : p.2.body = .authRequest
  · obtain ⟨-, hc | ⟨c, hc, hv⟩⟩ := authRequest_answered (hb.good i) (hb.named i) hreq hr
    · exact hcalm hc
    · exact h.same hview hwins hacks (hv.count.trans hc.count) (hv.sent.trans hc.sent)
        (hv.epoch.trans hc.epoch)
  have hack : p.2.body = .authAck := by
    cases hbody : p.2.body with
    | authRequest => exact absurd hbody hreq
    | authAck => rfl
    | _ =>
      rw [hbody] at hauth
      cases hauth
  obtain ⟨-, hc | ⟨c, x, n, hc, hcs, hx, hn, hmaster, hslots, hle⟩⟩ :=
    authAck_counted (hb.good i) hack hr
  · exact hcalm hc
  · -- the vote is of the epoch asked for, from a master that had not voted for this node in it
    have hmem : p ∈ s.sent := List.mem_of_getElem? hp
    have hflying := hb.flying p hmem hack i hdest
    have hcur : p.2.currentEpoch = (s.view i).failoverAuthEpoch := le_antisymm hflying hle
    have hkept : s'.acks = s.acks ++ [(i, p.2)] := by
      rw [hacks', if_pos (by rw [hack]; rfl)]
    apply h.move hview hwins hacks
    intro hi hsent
    rw [hcs] at hsent
    have hsent' : (s.view i).failoverAuthSent = true := by
      rw [← hc.sent]
      exact hsent
    have hepoch : cs.failoverAuthEpoch = (s.view i).failoverAuthEpoch := by
      rw [hcs]
      exact hc.epoch
    have hcount : cs.failoverAuthCount = (s.view i).failoverAuthCount+1 := by
      rw [hcs, ← hc.count]
    rw [hcount, hepoch]
    have hsender : p.2.sender ∈ M := by
      obtain ⟨n', hn', hname⟩ := (hb.good i).toTable.listed _ x hx
      rw [hn, Option.some.injEq] at hn'
      rw [← hn'] at hname
      have hlisted : (s.view i).table n.name = some x := by rw [hname]; exact hx
      rw [← hname]
      exact ((hm.agrees i hi).masters x n hn hlisted).mp ⟨hmaster, hslots⟩
    have hnew : p.2.sender ∉ votesFor s M i (s.view i).failoverAuthEpoch := by
      intro hin
      obtain ⟨q, hq, hqb⟩ := mem_map.mp (Finset.mem_filter.mp hin).2
      have hballot : q.2.ballot = p.2.ballot := by
        unfold ClusterMsg.ballot
        rw [hcur]
        exact (Prod.mk.inj hqb).2
      have honce := hb.once
      unfold ballots at honce
      rw [List.nodup_append] at honce
      refine honce.2.2 p.2.ballot ?_ q.2.ballot (mem_map.mpr ⟨q, hq, rfl⟩) hballot.symm
      unfold sentBallots
      apply mem_map.mpr
      refine ⟨p.2, List.mem_filter.mpr ⟨mem_map.mpr ⟨p, hmem, rfl⟩, ?_⟩, rfl⟩
      rw [hack]
      rfl
    have hinsert : insert p.2.sender (votesFor s M i (s.view i).failoverAuthEpoch) ⊆
        votesFor s' M i (s.view i).failoverAuthEpoch := by
      rw [Finset.insert_subset_iff]
      refine ⟨?_, votesFor_mono hacks i _⟩
      unfold votesFor
      rw [Finset.mem_filter]
      refine ⟨hsender, mem_map.mpr ⟨(i, p.2), ?_, ?_⟩⟩
      · rw [hkept]
        exact List.mem_append_right _ (List.mem_singleton_self _)
      · unfold ClusterMsg.ballot
        rw [hcur]
    calc (s.view i).failoverAuthCount+1
        ≤ (votesFor s M i (s.view i).failoverAuthEpoch).card+1 :=
          Nat.succ_le_succ (h.count i hi hsent')
      _ = (insert p.2.sender (votesFor s M i (s.view i).failoverAuthEpoch)).card :=
          (Finset.card_insert_of_notMem hnew).symm
      _ ≤ (votesFor s' M i (s.view i).failoverAuthEpoch).card := Finset.card_le_card hinsert

theorem Tallied.step (h : Tallied M s) (hb : Ballots name s) (hm : Steady M s) {e : ElectEvent ι}
    (hfirst : Uncounted cfg s e) (hs : stepElectorate cfg name s e = some s') : Tallied M s' := by
  cases e with
  | failover i env cron => exact h.failover hb hm hfirst hs
  | receive i env link msg => exact h.receive hb hm hs
  | act i env ev =>
    obtain ⟨cs, hev, rfl, hfail, hcron, hpacket⟩ := stepElectorate_act hs
    have he := stepEvent_calm (hb.good i) hev hfail hcron
      (fun link hdr heq => absurd heq (hpacket link hdr))
    have hc : Calm (s.view i) cs := he.calm (fun h => h)
    exact h.same rfl rfl (fun _ hp => hp) hc.count hc.sent hc.epoch
  | lose msg =>
    rw [stepElectorate, Option.some.injEq] at hs
    rw [← hs]
    exact ⟨h.count, h.majority⟩

/-- Nodes that hold no election and have no message under way. -/
structure AtRest (name : ι → NodeName) (s : Electorate ι) : Prop where
  good : ∀ i, Good anything (s.view i)
  named : ∀ i, KnownAs (name i) (s.view i)
  vote : ∀ i, (s.view i).lastVoteEpoch ≤ (s.view i).currentEpoch
  epoch : ∀ i, (s.view i).failoverAuthEpoch ≤ (s.view i).currentEpoch
  idle : ∀ i, (s.view i).failoverAuthSent = false
  uncounted : ∀ i, (s.view i).failoverAuthCount = 0
  silent : ∀ i, (s.view i).out = []
  sent : s.sent = []
  acks : s.acks = []
  wins : s.wins = []

omit [DecidableEq ι] in
theorem AtRest.ballots (h : AtRest name s) : Ballots name s := by
  have hnone : Cluster.ballots s = [] := by
    unfold Cluster.ballots
    rw [h.sent, h.acks]
    rfl
  refine ⟨h.good, h.named, h.vote, h.epoch, h.silent, ?_, ?_, ?_, ?_⟩
  · rw [hnone]
    exact List.nodup_nil
  · rw [hnone]
    exact fun b hb => absurd hb not_mem_nil
  · rw [h.sent]
    exact fun p hp => absurd hp not_mem_nil
  · rw [h.sent]
    exact fun p hp => absurd hp not_mem_nil

theorem AtRest.tallied (h : AtRest name s) : Tallied M s := by
  refine ⟨?_, ?_⟩
  · intro i _ hsent
    rw [h.idle i] at hsent
    cases hsent
  · rw [h.wins]
    exact fun w hw => absurd hw not_mem_nil

theorem runElectorate_tallied (hinj : Function.Injective name) : ∀ (es : List (ElectEvent ι))
    (s : Electorate ι), Ballots name s → Tallied M s →
    EachEvent (fun s e => Steady M s ∧ Uncounted cfg s e) cfg name s es →
    runElectorate cfg name s es = some s' → Ballots name s' ∧ Tallied M s' := by
  intro es
  induction es with
  | nil =>
    intro s hb ht _ hr
    rw [runElectorate, Option.some.injEq] at hr
    exact hr ▸ ⟨hb, ht⟩
  | cons e es ih =>
    intro s hb ht he hr
    obtain ⟨s1, hs, hr'⟩ := Option.bind_eq_some_iff.mp hr
    exact ih s1 (hb.step hinj hs) (ht.step hb he.1.1 he.1.2 hs) (he.2 s1 hs) hr'

theorem Tallied.unique (h : Tallied M s) (hb : Ballots name s) {w w' : ι × ℕ} (hw : w ∈ s.wins)
    (hw' : w' ∈ s.wins) (he : w.2 = w'.2) : w.1 = w'.1 := by
  have h1 := h.majority w hw
  have h2 := h.majority w' hw'
  -- some master voted for both
  have hcommon : (votesFor s M w.1 w.2 ∩ votesFor s M w'.1 w'.2).Nonempty := by
    rw [← Finset.card_pos]
    have hunion : (votesFor s M w.1 w.2 ∪ votesFor s M w'.1 w'.2).card ≤ M.card :=
      Finset.card_le_card (Finset.union_subset (Finset.filter_subset _ _) (Finset.filter_subset _ _))
    have hsum := Finset.card_union_add_card_inter (votesFor s M w.1 w.2) (votesFor s M w'.1 w'.2)
    omega
  obtain ⟨master, hmaster⟩ := hcommon
  rw [Finset.mem_inter] at hmaster
  obtain ⟨p, hp, hpb⟩ := mem_map.mp (Finset.mem_filter.mp hmaster.1).2
  obtain ⟨q, hq, hqb⟩ := mem_map.mp (Finset.mem_filter.mp hmaster.2).2
  have hballot : p.2.ballot = q.2.ballot := by
    rw [(Prod.mk.inj hpb).2, (Prod.mk.inj hqb).2, he]
  have honce := hb.once
  unfold ballots at honce
  have hpq := List.inj_on_of_nodup_map (List.nodup_append.mp honce).2.1 hp hq hballot
  rw [← (Prod.mk.inj hpb).1, ← (Prod.mk.inj hqb).1, hpq]

/-- In a run in which no election starts with votes counted before it, every node that wins got the
votes of a majority of the masters in that epoch, and no two nodes win in one epoch. -/
theorem election_safe_of_uncounted (hinj : Function.Injective name) (hrest : AtRest name s)
    (es : List (ElectEvent ι))
    (he : EachEvent (fun s e => Steady M s ∧ Uncounted cfg s e) cfg name s es)
    (hr : runElectorate cfg name s es = some s') :
    (∀ w ∈ s'.wins, M.card < 2*(votesFor s' M w.1 w.2).card) ∧
      ∀ w ∈ s'.wins, ∀ w' ∈ s'.wins, w.2 = w'.2 → w.1 = w'.1 := by
  obtain ⟨hb, ht⟩ := runElectorate_tallied hinj es s hrest.ballots hrest.tallied he hr
  exact ⟨ht.majority, fun w hw w' hw' heq => ht.unique hb hw hw' heq⟩

end Electorate

def ballotNode (i x : NodeId) : ClusterNode :=
  { createClusterNode (x+1) { noFlags with
      master := decide (x < 3)
      slave := decide (x = 3)
      fail := decide (x = 0)
      myself := decide (x = i) } 0 with
    slots := fun j => decide (j.val = x ∧ x < 3)
    numslots := if x < 3 then 1 else 0
    slaves := if x = 0 then [3] else []
    slaveof := if x = 3 then some 0 else none
    link := decide (x ≠ i) }

def ballotView (i : Fin 4) : ClusterState :=
  { emptyCluster with
    nodes := fun x => if x < 4 then some (ballotNode i x) else none
    table := fun name => if 1 ≤ name ∧ name ≤ 4 then some (name-1) else none
    fresh := 4
    myself := i
    size := 3
    slots := fun j => if j.val < 3 then some j.val else none }

def ballotName (i : Fin 4) : NodeName := i.val+1

def ballotStart : Electorate (Fin 4) :=
  { view := ballotView
    sent := []
    acks := []
    wins := [] }

theorem ballotView_table (i : Fin 4) : Table (ballotView i) := by
  have hnode : ∀ x n, (ballotView i).nodes x = some n → x < 4 ∧ n = ballotNode i x := by
    intro x n hx
    have hx' : (if x < 4 then some (ballotNode i x) else none) = some n := hx
    split_ifs at hx' with h
    cases hx'
    exact ⟨h, rfl⟩
  have hslot : ∀ j x, (ballotView i).slots j = some x ↔ j.val < 3 ∧ x = j.val := by
    intro j x
    show (if j.val < 3 then some j.val else none) = some x ↔ _
    split_ifs with h
    · rw [Option.some.injEq, eq_comm]
      exact ⟨fun he => ⟨h, he⟩, fun he => he.2⟩
    · constructor
      · intro he
        cases he
      · exact fun he => absurd he.1 h
  have hlive : ∀ x, x < 4 → (ballotView i).nodes x = some (ballotNode i x) := fun x hx => if_pos hx
  have hbit : ∀ a x : ℕ, (a = x ∧ x < 3) ↔ (a < 3 ∧ x = a) := by omega
  refine ⟨?_, ?_, ?_, ?_, ?_, ?_, ?_, ?_⟩
  · intro x n hx j
    obtain ⟨h4, rfl⟩ := hnode x n hx
    rw [hslot]
    show decide (j.val = x ∧ x < 3) = true ↔ _
    rw [decide_eq_true_eq]
    exact hbit j.val x
  · intro j x hx
    obtain ⟨h1, rfl⟩ := (hslot j x).mp hx
    exact ⟨_, hlive _ (h1.trans (by decide))⟩
  · intro x n hx
    obtain ⟨h4, rfl⟩ := hnode x n hx
    show (if x < 3 then 1 else 0) = (Finset.univ.filter (fun j : Slot => decide (j.val = x ∧ x < 3) = true)).card
    by_cases h3 : x < 3
    · rw [if_pos h3, eq_comm, Finset.card_eq_one]
      refine ⟨⟨x, h3.trans (by decide)⟩, ?_⟩
      ext j
      rw [Finset.mem_filter, Finset.mem_singleton, decide_eq_true_eq, Fin.ext_iff]
      exact ⟨fun h => h.2.1, fun h => ⟨Finset.mem_univ j, h, h3⟩⟩
    · rw [if_neg h3, eq_comm, Finset.card_eq_zero, Finset.filter_eq_empty_iff]
      intro j _ h
      rw [decide_eq_true_eq] at h
      exact h3 h.2
  · intro j x h
    cases h
  · intro j x h
    cases h
  · intro nm x h
    have h' : (if 1 ≤ nm ∧ nm ≤ 4 then some (nm-1) else none) = some x := h
    split_ifs at h' with hn
    cases h'
    refine ⟨_, hlive _ ?_, ?_⟩
    · exact Nat.lt_of_lt_of_le (Nat.sub_lt hn.1 Nat.one_pos) hn.2
    · exact Nat.sub_add_cancel hn.1
  · intro x n hx hh
    obtain ⟨h4, rfl⟩ := hnode x n hx
    cases hh
  · intro x n hx
    exact (hnode x n hx).1

theorem ballotStart_atRest : AtRest ballotName ballotStart := by
  have hme : ∀ i : Fin 4, (ballotView i).nodes (ballotView i).myself = some (ballotNode i i) :=
    fun i => if_pos i.isLt
  refine ⟨?_, ?_, fun _ => le_refl _, fun _ => le_refl _, fun _ => rfl, fun _ => rfl, fun _ => rfl,
    rfl, rfl, rfl⟩
  · intro i
    refine ⟨⟨ballotView_table i, _, hme i⟩, ?_, Or.inr trivial, Or.inr trivial⟩
    intro me h
    rw [show (ballotStart.view i).nodes (ballotStart.view i).myself = some (ballotNode i i) from hme i,
      Option.some.injEq] at h
    rw [← h]
    exact ⟨decide_eq_true rfl, decide_eq_false (fun hne => hne rfl)⟩
  · intro i
    exact ⟨_, hme i, rfl, rfl⟩

def ballotMasters : Finset NodeName := {1, 2, 3}

theorem ballotView_agrees (i : Fin 4) : Agrees ballotMasters (ballotView i) := by
  have hnode : ∀ x n, (ballotView i).nodes x = some n → x < 4 ∧ n = ballotNode i x := by
    intro x n hx
    have hx' : (if x < 4 then some (ballotNode i x) else none) = some n := hx
    split_ifs at hx' with h
    cases hx'
    exact ⟨h, rfl⟩
  refine ⟨?_, ?_, ?_⟩
  · intro x n hx _
    obtain ⟨h4, rfl⟩ := hnode x n hx
    show (decide (x < 3) = true ∧ (if x < 3 then 1 else 0) ≠ 0) ↔ x+1 ∈ ballotMasters
    interval_cases x <;> decide
  · intro name hname
    fin_cases hname
    · exact ⟨0, rfl⟩
    · exact ⟨1, rfl⟩
    · exact ⟨2, rfl⟩
  · fin_cases i <;> rfl

def ballotRequest (epoch : ℕ) : ClusterMsg :=
  { sender := 4
    currentEpoch := epoch
    configEpoch := 0
    offset := 0
    myslots := (ballotNode 3 0).slots
    slaveof := 1
    addr := defaultConfig.announce
    flags := (ballotNode 3 3).flags
    paused := false
    forceack := false
    body := .authRequest }

def ballotAck (i : Fin 4) : ClusterMsg :=
  { sender := ballotName i
    currentEpoch := 1
    configEpoch := 0
    offset := 0
    myslots := (ballotNode i i).slots
    slaveof := nullName
    addr := defaultConfig.announce
    flags := (ballotNode i i).flags
    paused := false
    forceack := false
    body := .authAck }

def slaveView (epoch count : ℕ) (time : ℤ) (sent : Bool) : ClusterState :=
  { ballotView 3 with
    currentEpoch := epoch
    failoverAuthTime := time
    failoverAuthCount := count
    failoverAuthSent := sent
    failoverAuthEpoch := epoch }

def voterView (i : Fin 4) : ClusterState :=
  { setNode (ballotView i) 0 { ballotNode i 0 with votedTime := 100600 } with
    currentEpoch := 1
    lastVoteEpoch := 1 }

theorem slave_schedules : clusterHandleSlaveFailover defaultConfig (quietEnv 100000 9) (ballotView 3) =
    .ok (slaveView 0 0 100500 false, false) := rfl

theorem slave_reschedules : clusterHandleSlaveFailover defaultConfig (quietEnv 170000 9)
    (slaveView 1 0 100500 true) = .ok (slaveView 1 0 170500 false, false) := rfl

theorem slave_requests : clusterHandleSlaveFailover defaultConfig (quietEnv 100500 9)
    (slaveView 0 0 100500 false) = .ok ({ slaveView 1 0 100500 true with
      out := [1, 2, 3].map (fun dest => (dest, ballotRequest 1)) }, false) := rfl

theorem slave_requests_again : clusterHandleSlaveFailover defaultConfig (quietEnv 170500 9)
    (slaveView 1 2 170500 false) = .ok ({ slaveView 2 2 170500 true with
      out := [1, 2, 3].map (fun dest => (dest, ballotRequest 2)) }, false) := rfl

theorem slave_counts {i : Fin 4} (hi : i = 1 ∨ i = 2) (count : ℕ) (time now : ℤ) (sent : Bool) :
    clusterProcessPacket defaultConfig (quietEnv now 9) (slaveView 1 count time sent) none
      (ballotAck i) = .ok (slaveView 1 (count+1) time sent) := by
  rcases hi with rfl | rfl
  · have hnote : noteSender (slaveView 1 count time sent) (some 1) (ballotAck 1) =
        .ok (slaveView 1 count time sent) := noteSender_same rfl rfl (le_refl _) rfl rfl rfl
    calc clusterProcessPacket defaultConfig (quietEnv now 9) (slaveView 1 count time sent) none (ballotAck 1)
        = (noteSender (slaveView 1 count time sent) (some 1) (ballotAck 1) >>= fun cs =>
          processAuthAck cs 1 1) := rfl
      _ = .ok (slaveView 1 (count+1) time sent) := by rw [hnote]; rfl
  · have hnote : noteSender (slaveView 1 count time sent) (some 2) (ballotAck 2) =
        .ok (slaveView 1 count time sent) := noteSender_same rfl rfl (le_refl _) rfl rfl rfl
    calc clusterProcessPacket defaultConfig (quietEnv now 9) (slaveView 1 count time sent) none (ballotAck 2)
        = (noteSender (slaveView 1 count time sent) (some 2) (ballotAck 2) >>= fun cs =>
          processAuthAck cs 2 1) := rfl
      _ = .ok (slaveView 1 (count+1) time sent) := by rw [hnote]; rfl

theorem voter_votes {i : Fin 4} (hi : i = 1 ∨ i = 2) :
    clusterProcessPacket defaultConfig (quietEnv 100600 9) (ballotView i) none (ballotRequest 1) =
      .ok { voterView i with out := [(4, ballotAck i)] } := by
  have hme : (ballotView i).nodes (ballotView i).myself = some (ballotNode i i) := if_pos i.isLt
  have hnote : noteSender (ballotView i) (some 3) (ballotRequest 1) =
      .ok { ballotView i with currentEpoch := 1 } := by
    have h3 : (ballotView i).nodes 3 = some (ballotNode i 3) := rfl
    exact noteSender_same h3 rfl (le_refl _) rfl hme rfl
  have hgrant : clusterSendFailoverAuthIfNeeded defaultConfig (quietEnv 100600 9)
      { ballotView i with currentEpoch := 1 } 3 (ballotRequest 1) =
      grantVote defaultConfig (quietEnv 100600 9) { ballotView i with currentEpoch := 1 } 3 0 := by
    have h0 : ({ ballotView i with currentEpoch := 1 } : ClusterState).nodes 0 =
      some (ballotNode i 0) := rfl
    refine vote_granted hme ?_ ?_ (le_refl _) ?_ ?_ h0 ?_ ?_
    · rcases hi with rfl | rfl <;> rfl
    · rcases hi with rfl | rfl <;> decide
    · exact Nat.zero_ne_one
    · rfl
    · show (15000*2 : ℤ) ≤ 100600-0
      decide
    · intro z n hz
      have hz' : (if z < 4 then some (ballotNode i z) else none) = some n := hz
      split_ifs at hz'
      cases hz'
      exact le_refl 0
  calc clusterProcessPacket defaultConfig (quietEnv 100600 9) (ballotView i) none (ballotRequest 1)
      = (noteSender (ballotView i) (some 3) (ballotRequest 1) >>= fun cs =>
        clusterSendFailoverAuthIfNeeded defaultConfig (quietEnv 100600 9) cs 3 (ballotRequest 1)) := rfl
    _ = grantVote defaultConfig (quietEnv 100600 9) { ballotView i with currentEpoch := 1 } 3 0 := by
      rw [hnote, ok_bind, hgrant]
    _ = .ok { voterView i with out := [(4, ballotAck i)] } := by
      rcases hi with rfl | rfl <;> rfl

theorem slaveView_roles (epoch count : ℕ) (time : ℤ) (sent : Bool) :
    Roles (slaveView epoch count time sent) := by
  have hnode : ∀ x n, (slaveView epoch count time sent).nodes x = some n →
      x < 4 ∧ n = ballotNode 3 x := by
    intro x n hx
    have hx' : (if x < 4 then some (ballotNode 3 x) else none) = some n := hx
    split_ifs at hx' with h
    cases hx'
    exact ⟨h, rfl⟩
  have hlive : ∀ x, x < 4 → (slaveView epoch count time sent).nodes x = some (ballotNode 3 x) :=
    fun x hx => if_pos hx
  refine ⟨?_, ?_, ?_, ?_, ?_, ?_, ?_, ?_, ?_⟩
  · intro x n y hx hy
    obtain ⟨h4, rfl⟩ := hnode x n hx
    refine ⟨ballotNode 3 0, ?_⟩
    interval_cases x <;> cases hy
    exact ⟨rfl, List.mem_singleton_self _⟩
  · intro y m x hy hx
    obtain ⟨h4, rfl⟩ := hnode y m hy
    refine ⟨ballotNode 3 3, ?_⟩
    interval_cases y <;> cases hx
    · exact ⟨rfl, rfl⟩
    · rename_i h
      cases h
  · intro y m hy
    obtain ⟨h4, rfl⟩ := hnode y m hy
    interval_cases y <;> decide
  · intro x n y hx hy
    obtain ⟨h4, rfl⟩ := hnode x n hx
    interval_cases x <;> cases hy
    rfl
  · intro x n hx
    obtain ⟨h4, rfl⟩ := hnode x n hx
    interval_cases x <;> exact Or.inr ⟨rfl, rfl⟩
  · intro j x n hs hx
    obtain ⟨h4, rfl⟩ := hnode x n hx
    have hs' : (if j.val < 3 then some j.val else none) = some x := hs
    split_ifs at hs' with h
    cases hs'
    exact decide_eq_true h
  · intro n hn _
    cases hn
    exact ⟨0, rfl⟩
  · intro n hn
    cases hn
    rfl
  · intro n y m hn hy hm
    cases hn
    cases hy
    cases hm
    rfl

theorem slave_wins {epoch : ℕ} {now time : ℤ} (hdue : time ≤ now) (hage : now-time ≤ 30000) :
    ∃ cs, clusterHandleSlaveFailover defaultConfig (quietEnv now 9) (slaveView epoch 2 time true) =
      .ok (cs, true) := by
  have hg : Good roleGuards (slaveView epoch 2 time true) := by
    have ht := ballotView_table 3
    refine ⟨⟨⟨ht.bit, ht.owner, ht.count, ht.importing, ht.migrating, ht.listed, ht.handshake,
      ht.bound⟩, _, rfl⟩, ?_, Or.inl (slaveView_roles epoch 2 time true), Or.inr trivial⟩
    intro me hme
    cases hme
    exact ⟨rfl, rfl⟩
  have hwin : Runs roleGuards (slaveView epoch 2 time true)
    (winElection defaultConfig (quietEnv now 9) (slaveView epoch 2 time true)) := winElection_runs hg
  have hmay : mayFailover defaultConfig (slaveView epoch 2 time true)
      (decide ((slaveView epoch 2 time true).mfEnd ≠ 0) && (slaveView epoch 2 time true).mfCanStart) =
      .ok true := rfl
  have hfresh : dataTooOld defaultConfig (quietEnv now 9) = false := rfl
  have hdelay : delayElection (quietEnv now 9) (slaveView epoch 2 time true) =
      .ok (slaveView epoch 2 time true) := rfl
  have hrun : clusterHandleSlaveFailover defaultConfig (quietEnv now 9)
      (slaveView epoch 2 time true) =
      winElection defaultConfig (quietEnv now 9) (slaveView epoch 2 time true) >>= fun cs =>
        .ok (cs, true) := by
    have hold : ¬(quietEnv now 9).now-(slaveView epoch 2 time true).failoverAuthTime >
        max (defaultConfig.nodeTimeout*2) 2000*2 := by
      change ¬now-time > max (15000*2) 2000*2
      omega
    have hstarted : ¬(quietEnv now 9).now < (slaveView epoch 2 time true).failoverAuthTime := by
      change ¬now < time
      omega
    have hrecent : ¬(quietEnv now 9).now-(slaveView epoch 2 time true).failoverAuthTime >
        max (defaultConfig.nodeTimeout*2) 2000 := by
      change ¬now-time > max (15000*2) 2000
      omega
    have hsent : ¬(slaveView epoch 2 time true).failoverAuthSent = false := Bool.noConfusion
    have hvotes : (slaveView epoch 2 time true).size/2+1 ≤
        (slaveView epoch 2 time true).failoverAuthCount := by
      change 3/2+1 ≤ 2
      norm_num
    unfold clusterHandleSlaveFailover
    dsimp only
    rw [hmay, ok_bind, hfresh, Bool.false_and, if_neg (by decide), if_neg (by decide),
      if_neg hold]
    unfold runElection
    rw [hdelay, ok_bind, if_neg hstarted, if_neg hrecent, if_neg hsent, if_pos hvotes]
  rw [hrun]
  cases hw : winElection defaultConfig (quietEnv now 9) (slaveView epoch 2 time true) with
  | ok cs => exact ⟨cs, rfl⟩
  | error e =>
    unfold Runs at hwin
    rw [hw] at hwin
    exact ((leads_error e).mp hwin).2.2.elim

section Traces

variable {ι : Type} [DecidableEq ι] {cfg : ι → ClusterConfig} {name : ι → NodeName}
variable {s s' s'' : Electorate ι} {i : ι} {P : Electorate ι → ElectEvent ι → Prop}

def Trace (P : Electorate ι → ElectEvent ι → Prop) (cfg : ι → ClusterConfig) (name : ι → NodeName)
    (s : Electorate ι) (es : List (ElectEvent ι)) (s' : Electorate ι) : Prop :=
  EachEvent P cfg name s es ∧ runElectorate cfg name s es = some s'

theorem Trace.nil (s : Electorate ι) : Trace P cfg name s [] s := ⟨trivial, rfl⟩

variable {es : List (ElectEvent ι)} {env : Env} {msg : ℕ} {p : NodeName × ClusterMsg}
  {Q : Electorate ι → Prop}

theorem Trace.cons {e : ElectEvent ι} (hp : P s e)
    (hs : stepElectorate cfg name s e = some s') (h : Trace P cfg name s' es s'') :
    Trace P cfg name s (e :: es) s'' := by
  refine ⟨⟨hp, ?_⟩, ?_⟩
  · intro s1 h1
    rw [hs, Option.some.injEq] at h1
    exact h1 ▸ h.1
  · rw [runElectorate, hs, Option.bind_some]
    exact h.2

theorem step_failover {r : ClusterState × Bool}
    (h : clusterHandleSlaveFailover (cfg i) env (s.view i) = .ok r) :
    stepElectorate cfg name s (.failover i env false) = some { putView s i r.1 with
      wins := if r.2 then s.wins ++ [(i, (s.view i).failoverAuthEpoch)] else s.wins } := by
  unfold stepElectorate failoverCall
  dsimp only
  rw [if_neg Bool.false_ne_true, h]
  rfl

theorem step_receive (hp : s.sent[msg]? = some p)
    (hd : p.1 = name i) (h : clusterProcessPacket (cfg i) env (s.view i) none p.2 = .ok cs) :
    stepElectorate cfg name s (.receive i env none msg) = some (putView { s with
      sent := s.sent.eraseIdx msg
      acks := if p.2.body.ack then s.acks ++ [(i, p.2)] else s.acks } i cs) := by
  unfold stepElectorate
  dsimp only
  rw [hp, Option.bind_some, if_pos ⟨hd, rfl⟩, h]
  rfl

structure Undecided (M : Finset NodeName) (s : Electorate ι) : Prop where
  agrees : ∀ i, Agrees M (s.view i)
  wins : s.wins = []

omit [DecidableEq ι] in
theorem Undecided.steady (h : Undecided M s) : Steady M s := by
  refine ⟨fun i _ => h.agrees i, ?_⟩
  intro i e me hw
  rw [h.wins] at hw
  exact absurd hw not_mem_nil

theorem Undecided.put (h : Undecided M s) (hc : Agrees M cs)
    (hview : s'.view = Function.update s.view i { cs with out := [] }) (hwins : s'.wins = s.wins) :
    Undecided M s' := by
  refine ⟨?_, hwins.trans h.wins⟩
  intro j
  rw [hview]
  by_cases hj : j = i
  · rw [hj, Function.update_self]
    exact hc.alike (fun _ => rfl) rfl rfl rfl
  · rw [Function.update_of_ne hj]
    exact h.agrees j

theorem Undecided.failover (h : Undecided M s) (hp : Steady M s → P s (.failover i env false))
    (hc : Agrees M cs)
    (hs : clusterHandleSlaveFailover (cfg i) env (s.view i) = .ok (cs, false))
    (hrest : ∀ s1, s1 = putView s i cs → Undecided M s1 →
      ∃ s', Trace P cfg name s1 es s' ∧ Q s') :
    ∃ s', Trace P cfg name s (.failover i env false :: es) s' ∧ Q s' := by
  obtain ⟨s', ht, hq⟩ := hrest _ rfl (h.put hc rfl rfl)
  exact ⟨s', Trace.cons (hp h.steady) (step_failover hs) ht, hq⟩

theorem Undecided.receive (h : Undecided M s) (hq : Steady M s → P s (.receive i env none msg))
    (hc : Agrees M cs)
    (hp : s.sent[msg]? = some p) (hd : p.1 = name i)
    (hs : clusterProcessPacket (cfg i) env (s.view i) none p.2 = .ok cs)
    (hrest : ∀ s1, s1 = putView { s with
        sent := s.sent.eraseIdx msg
        acks := if p.2.body.ack then s.acks ++ [(i, p.2)] else s.acks } i cs → Undecided M s1 →
      ∃ s', Trace P cfg name s1 es s' ∧ Q s') :
    ∃ s', Trace P cfg name s (.receive i env none msg :: es) s' ∧ Q s' := by
  obtain ⟨s', ht, hr⟩ := hrest _ rfl (h.put hc rfl rfl)
  exact ⟨s', Trace.cons (hq h.steady) (step_receive hp hd hs) ht, hr⟩

end Traces

def firstElection : List (ElectEvent (Fin 4)) :=
  [.failover 3 (quietEnv 100000 9) false,
   .failover 3 (quietEnv 100500 9) false,
   .receive 1 (quietEnv 100600 9) none 1,
   .receive 2 (quietEnv 100600 9) none 1]

def timelyVotes : List (ElectEvent (Fin 4)) :=
  [.receive 3 (quietEnv 100700 9) none 1,
   .receive 3 (quietEnv 100700 9) none 1,
   .failover 3 (quietEnv 100700 9) false]

def lateVotes : List (ElectEvent (Fin 4)) :=
  [.failover 3 (quietEnv 170000 9) false,
   .receive 3 (quietEnv 170100 9) none 1,
   .receive 3 (quietEnv 170100 9) none 1,
   .failover 3 (quietEnv 170500 9) false,
   .failover 3 (quietEnv 170501 9) false]

theorem slaveView_agrees (epoch count : ℕ) (time : ℤ) (sent : Bool) :
    Agrees ballotMasters (slaveView epoch count time sent) :=
  (ballotView_agrees 3).alike (fun _ => rfl) rfl rfl rfl

theorem voterView_agrees (i : Fin 4) : Agrees ballotMasters (voterView i) := by
  apply Agrees.alike (ballotView_agrees i)
  · intro x
    by_cases hx : x = 0
    · rw [hx]
      rfl
    · have hsame : (voterView i).nodes x = (ballotView i).nodes x := if_neg hx
      rw [hsame]
  · rfl
  · rfl
  · rfl

theorem Agrees.sends {msgs : List (NodeName × ClusterMsg)} (h : Agrees M cs) :
    Agrees M { cs with out := msgs } :=
  h.alike (fun _ => rfl) rfl rfl rfl

section Samples

variable {P : Electorate (Fin 4) → ElectEvent (Fin 4) → Prop} {s : Electorate (Fin 4)}

structure Asking (s : Electorate (Fin 4)) : Prop extends Undecided ballotMasters s where
  slave : s.view 3 = slaveView 1 0 100500 true
  sent : s.sent = [(1, ballotRequest 1), (4, ballotAck 1), (4, ballotAck 2)]
  acks : s.acks = []

variable {es : List (ElectEvent (Fin 4))} {Q : Electorate (Fin 4) → Prop}

theorem firstElection_asks
    (hp : ∀ s e, e ∈ firstElection → Steady ballotMasters s → (s.view 3).failoverAuthCount = 0 → P
    s e)
    (hrest : ∀ s, Asking s → ∃ s', Trace P (fun _ => defaultConfig) ballotName s es s' ∧ Q s') :
    ∃ s', Trace P (fun _ => defaultConfig) ballotName ballotStart (firstElection ++ es) s' ∧ Q s' := by
  have h0 : Undecided ballotMasters ballotStart := ⟨ballotView_agrees, rfl⟩
  apply h0.failover (fun h => hp _ _ (by simp [firstElection]) h rfl) (slaveView_agrees _ _ _ _)
    slave_schedules
  intro s1 hs1 h1
  have hv1 : s1.view 3 = slaveView 0 0 100500 false := by rw [hs1]; rfl
  apply h1.failover (fun h => hp _ _ (by simp [firstElection]) h (by rw [hv1]; rfl))
    (slaveView_agrees 1 0 100500 true).sends (by rw [hv1]; exact slave_requests)
  intro s2 hs2 h2
  have hv2 : s2.view 3 = slaveView 1 0 100500 true ∧ s2.view 1 = ballotView 1 ∧
      s2.view 2 = ballotView 2 := by
    rw [hs2, hs1]
    exact ⟨rfl, rfl, rfl⟩
  have hm2 : s2.sent = [(1, ballotRequest 1), (2, ballotRequest 1), (3, ballotRequest 1)] ∧
      s2.acks = [] := by
    rw [hs2, hs1]
    exact ⟨rfl, rfl⟩
  -- both masters that are up vote
  apply h2.receive (p := (2, ballotRequest 1))
    (fun h => hp _ _ (by simp [firstElection]) h (by rw [hv2.1]; rfl)) (voterView_agrees 1).sends
    (by rw [hm2.1]; rfl) rfl (by rw [hv2.2.1]; exact voter_votes (Or.inl rfl))
  intro s3 hs3 h3
  have hv3 : s3.view 3 = slaveView 1 0 100500 true ∧ s3.view 2 = ballotView 2 := by
    rw [hs3]
    exact ⟨hv2.1, hv2.2.2⟩
  have hm3 : s3.sent = [(1, ballotRequest 1), (3, ballotRequest 1), (4, ballotAck 1)] ∧
      s3.acks = [] := by
    rw [hs3]
    unfold putView
    rw [hm2.1, hm2.2]
    exact ⟨rfl, rfl⟩
  apply h3.receive (p := (3, ballotRequest 1))
    (fun h => hp _ _ (by simp [firstElection]) h (by rw [hv3.1]; rfl)) (voterView_agrees 2).sends
    (by rw [hm3.1]; rfl) rfl (by rw [hv3.2]; exact voter_votes (Or.inr rfl))
  intro s4 hs4 h4
  apply hrest s4
  refine ⟨h4, ?_, ?_, ?_⟩
  · rw [hs4]
    exact hv3.1
  · rw [hs4]
    unfold putView
    rw [hm3.1, hm3.2]
    rfl
  · rw [hs4]
    unfold putView
    rw [hm3.2]
    rfl

theorem votes_come_in (time now : ℕ)
    (sent : Bool) (h : Undecided ballotMasters s) (hv : s.view 3 = slaveView 1 0 time sent)
    (hm : s.sent = [(1, ballotRequest 1), (4, ballotAck 1), (4, ballotAck 2)]) (ha : s.acks = [])
    (hp : ∀ s env msg, Steady ballotMasters s → P s (.receive 3 env none msg))
    (hrest : ∀ s, Undecided ballotMasters s → s.view 3 = slaveView 1 2 time sent →
      s.acks = [(3, ballotAck 1), (3, ballotAck 2)] →
      ∃ s', Trace P (fun _ => defaultConfig) ballotName s es s' ∧ Q s') :
    ∃ s', Trace P (fun _ => defaultConfig) ballotName s (.receive 3 (quietEnv now 9) none 1 ::
      .receive 3 (quietEnv now 9) none 1 :: es) s' ∧ Q s' := by
  apply h.receive (p := (4, ballotAck 1)) (hp _ _ _) (slaveView_agrees 1 1 time sent)
    (by rw [hm]; rfl) rfl (by rw [hv]; exact slave_counts (Or.inl rfl) 0 time now sent)
  intro s1 hs1 h1
  have hv1 : s1.view 3 = slaveView 1 1 time sent := by
    rw [hs1]
    rfl
  have hm1 : s1.sent = [(1, ballotRequest 1), (4, ballotAck 2)] ∧ s1.acks = [(3, ballotAck 1)] := by
    rw [hs1]
    unfold putView
    rw [hm, ha]
    exact ⟨rfl, rfl⟩
  apply h1.receive (p := (4, ballotAck 2)) (hp _ _ _) (slaveView_agrees 1 2 time sent)
    (by rw [hm1.1]; rfl) rfl (by rw [hv1]; exact slave_counts (Or.inr rfl) 1 time now sent)
  intro s2 hs2 h2
  apply hrest s2 h2
  · rw [hs2]
    rfl
  · rw [hs2]
    unfold putView
    rw [hm1.2]
    rfl

end Samples

/-- Votes of the first election come in after the second one was scheduled, and win it. -/
theorem late_votes_win : AtRest ballotName ballotStart ∧ ∃ s,
    Trace (fun s _ => Steady ballotMasters s) (fun _ => defaultConfig) ballotName ballotStart
      (firstElection ++ lateVotes) s ∧ s.wins = [(3, 2)] ∧ votesFor s ballotMasters 3 2 = ∅ := by
  obtain ⟨won, hwon⟩ := @slave_wins 2 170501 170500 (by norm_num) (by norm_num)
  refine ⟨ballotStart_atRest, ?_⟩
  apply firstElection_asks (fun s e _ h _ => h)
  intro s4 h4
  apply h4.failover id (slaveView_agrees 1 0 170500 false) (by rw [h4.slave]; exact slave_reschedules)
  intro s5 hs5 h5
  apply votes_come_in 170500 170100 false h5
  · rw [hs5]
    rfl
  · rw [hs5]
    exact (List.append_nil _).trans h4.sent
  · rw [hs5]
    exact h4.acks
  · exact fun s env msg h => h
  intro s7 h7 hv7 ha7
  -- the request for the second epoch finds a majority counted
  apply h7.failover id (slaveView_agrees 2 2 170500 true).sends (by rw [hv7]; exact slave_requests_again)
  intro s8 hs8 h8
  have hv8 : s8.view 3 = slaveView 2 2 170500 true := by
    rw [hs8]
    rfl
  have ha8 : s8.acks = [(3, ballotAck 1), (3, ballotAck 2)] := by
    rw [hs8]
    exact ha7
  refine ⟨_, Trace.cons h8.steady (step_failover (by rw [hv8]; exact hwon)) (Trace.nil _), ?_, ?_⟩
  · show s8.wins ++ [(3, (s8.view 3).failoverAuthEpoch)] = _
    rw [h8.wins, hv8]
    rfl
  · show ballotMasters.filter (fun name => (3, name, 2) ∈ s8.acks.map (fun p => (p.1, p.2.ballot))) = ∅
    rw [ha8]
    decide

/-- Votes that come in in time win the election they were cast for. -/
theorem election_safe_of_timely_votes : ∃ s,
    runElectorate (fun _ => defaultConfig) ballotName ballotStart (firstElection ++ timelyVotes) =
      some s ∧ s.wins = [(3, 1)] ∧
    (∀ w ∈ s.wins, ballotMasters.card < 2*(votesFor s ballotMasters w.1 w.2).card) ∧
    ∀ w ∈ s.wins, ∀ w' ∈ s.wins, w.2 = w'.2 → w.1 = w'.1 := by
  obtain ⟨won, hwon⟩ := @slave_wins 1 100700 100500 (by norm_num) (by norm_num)
  obtain ⟨s, ht, hw⟩ : ∃ s, Trace (fun s e => Steady ballotMasters s ∧
      Uncounted (fun _ => defaultConfig) s e) (fun _ => defaultConfig) ballotName ballotStart
      (firstElection ++ timelyVotes) s ∧ s.wins = [(3, 1)] := by
    apply firstElection_asks
    · intro s e he h hcount
      refine ⟨h, ?_⟩
      fin_cases he
      · exact fun _ => hcount
      · exact fun _ => hcount
      · trivial
      · trivial
    intro s4 h4
    apply votes_come_in 100500 100700 true h4.toUndecided h4.slave h4.sent h4.acks
      (fun s env msg h => ⟨h, trivial⟩)
    intro s6 h6 hv6 ha6
    refine ⟨_, Trace.cons ⟨h6.steady, ?_⟩ (step_failover (by rw [hv6]; exact hwon)) (Trace.nil _), ?_⟩
    · intro hstart
      rw [hv6] at hstart
      cases hstart
    · show s6.wins ++ [(3, (s6.view 3).failoverAuthEpoch)] = _
      rw [h6.wins, hv6]
      rfl
  have hinj : Function.Injective ballotName := by
    intro i j h
    exact Fin.ext (Nat.succ.inj h)
  exact ⟨s, ht.2, hw, election_safe_of_uncounted hinj ballotStart_atRest _ ht.1 ht.2⟩

end RedisCore.Cluster
