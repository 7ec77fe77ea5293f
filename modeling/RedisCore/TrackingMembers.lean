import RedisCore.TrackingModel

namespace RedisCore.Tracking
open List (mem_append mem_cons mem_singleton nodup_append nodup_nil not_mem_nil)
open Function (update_of_ne update_self)

variable {s s' : TrackingState} {c : ClientId} {p k : Bytes}

structure Linked (s : TrackingState) : Prop where
  subscribed : ∀ c p, p ∈ (s.client c).prefixes ↔ p ∈ s.prefixTable ∧ c ∈ (s.bcasts p).clients
  tableNodup : s.prefixTable.Nodup
  clientsNodup : ∀ p ∈ s.prefixTable, (s.bcasts p).clients.Nodup
  inhabited : ∀ p ∈ s.prefixTable, (s.bcasts p).clients ≠ []
  prefixesNodup : ∀ c, (s.client c).prefixes.Nodup

structure Members (s : TrackingState) : Prop where
  nodup : s.clients.Nodup
  connected : ∀ c, (s.client c).tracking = true → c ∈ s.clients
  count : s.trackingClients = s.clients.countP (fun c => (s.client c).tracking)
  started : s.trackingTable = none → ∀ c, (s.client c).tracking = false
  bcast : ∀ c, (s.client c).bcast = true → (s.client c).tracking = true
  prefixes : ∀ c, (s.client c).bcast = false → (s.client c).prefixes = []
  linked : Linked s

def normal (s : TrackingState) (c : ClientId) : Bool := (s.client c).tracking && !(s.client c).bcast

theorem normal_iff : normal s c = true ↔ (s.client c).tracking = true ∧ (s.client c).bcast = false := by
  unfold normal
  rw [Bool.and_eq_true, Bool.not_eq_true']

theorem initState_members {clients : List ClientId} (h : clients.Nodup) : Members (initState clients) := by
  refine ⟨h, fun c hc => ?_, ?_, fun _ _ => rfl, fun c hc => ?_, fun _ _ => rfl, ⟨fun c p => ?_,
    nodup_nil, fun p hp => ?_, fun p hp => ?_, fun _ => nodup_nil⟩⟩
  · cases hc
  · symm
    apply List.countP_eq_zero.mpr
    intro c _
    exact Bool.false_ne_true
  · cases hc
  · exact ⟨fun hp => absurd hp not_mem_nil, fun hp => absurd hp.1 not_mem_nil⟩
  · cases hp
  · cases hp

structure SameMembers (s s' : TrackingState) : Prop where
  clients : s'.clients = s.clients
  client : s'.client = s.client
  count : s'.trackingClients = s.trackingClients
  started : s'.trackingTable = none → s.trackingTable = none
  prefixTable : s'.prefixTable = s.prefixTable
  subscribers : ∀ p, (s'.bcasts p).clients = (s.bcasts p).clients

theorem SameMembers.refl (s : TrackingState) : SameMembers s s :=
  ⟨rfl, rfl, rfl, fun h => h, rfl, fun _ => rfl⟩

theorem Members.same (h : Members s) (hs : SameMembers s s') : Members s' := by
  refine ⟨?_, ?_, ?_, fun hn => ?_, ?_, ?_, ⟨fun c p => ?_, ?_, fun p => ?_, fun p => ?_,
    fun c => ?_⟩⟩
  · rw [hs.clients]
    exact h.nodup
  · rw [hs.clients, hs.client]
    exact h.connected
  · rw [hs.count, hs.clients, hs.client]
    exact h.count
  · rw [hs.client]
    exact h.started (hs.started hn)
  · rw [hs.client]
    exact h.bcast
  · rw [hs.client]
    exact h.prefixes
  · rw [hs.client, hs.prefixTable, hs.subscribers]
    exact h.linked.subscribed c p
  · rw [hs.prefixTable]
    exact h.linked.tableNodup
  · rw [hs.prefixTable, hs.subscribers]
    exact h.linked.clientsNodup p
  · rw [hs.prefixTable, hs.subscribers]
    exact h.linked.inhabited p
  · rw [hs.client]
    exact h.linked.prefixesNodup c

theorem invalidateKeyRaw_same (s : TrackingState) (who : Option ClientId) (k : Bytes) (bcast : Bool) :
    SameMembers s (trackingInvalidateKeyRaw s who k bcast).1 := by
  have hremember : SameMembers s (trackingRememberKeyToBroadcast s who k) := by
    refine ⟨rfl, rfl, rfl, fun h => h, rfl, fun p => ?_⟩
    show (if _ then _ else _ : BcastState).clients = _
    split_ifs <;> rfl
  unfold trackingInvalidateKeyRaw
  cases htable : s.trackingTable with
  | none => exact SameMembers.refl s
  | some table =>
    have hif : SameMembers s (if bcast = true ∧ s.prefixTable ≠ [] then
        trackingRememberKeyToBroadcast s who k else s) := by
      split_ifs
      · exact hremember
      · exact SameMembers.refl s
    dsimp only
    cases table k with
    | none => exact hif
    | some ids =>
      exact ⟨hif.clients, hif.client, hif.count, fun h => absurd h (Option.some_ne_none _), hif.prefixTable,
        hif.subscribers⟩

theorem flush_same (s : TrackingState) (allDbs : Bool) :
    SameMembers s (trackingInvalidateKeysOnFlush s allDbs).1 := by
  refine ⟨rfl, rfl, rfl, fun h => ?_, rfl, fun _ => rfl⟩
  have h' : (if allDbs then s.trackingTable.map (fun _ _ => none) else s.trackingTable) = none := h
  split_ifs at h'
  · exact Option.map_eq_none_iff.mp h'
  · exact h'

theorem broadcast_same (s : TrackingState) :
    SameMembers s (trackingBroadcastInvalidationMessages s).1 := by
  unfold trackingBroadcastInvalidationMessages
  split_ifs
  · exact SameMembers.refl s
  · refine ⟨rfl, rfl, rfl, fun h => h, rfl, fun p => ?_⟩
    show (if _ then _ else _ : BcastState).clients = _
    split_ifs <;> rfl

theorem rememberKeys_same (s : TrackingState) (c : ClientId) (ks : List Bytes) :
    SameMembers s (trackingRememberKeys s c ks) := by
  unfold trackingRememberKeys
  cases htable : s.trackingTable with
  | none => exact SameMembers.refl s
  | some table => exact ⟨rfl, rfl, rfl, fun h => absurd h (Option.some_ne_none _), rfl, fun _ => rfl⟩

theorem countP_update {l : List ClientId} (hl : l.Nodup) (hc : c ∈ l)
    (client : ClientId → TrackingClient) (x : TrackingClient) :
    l.countP (fun y => (Function.update client c x y).tracking) + (if (client c).tracking then 1 else 0) =
      l.countP (fun y => (client y).tracking) + (if x.tracking then 1 else 0) := by
  have hperm := List.perm_cons_erase hc
  have hrest : (l.erase c).countP (fun y => (Function.update client c x y).tracking) =
      (l.erase c).countP (fun y => (client y).tracking) := by
    apply List.countP_congr
    intro y hy
    have hne : y ≠ c := (hl.mem_erase_iff.mp hy).1
    rw [update_of_ne hne]
  rw [hperm.countP_eq, hperm.countP_eq (fun y => (client y).tracking), List.countP_cons, List.countP_cons,
    hrest, update_self]
  omega

structure Joined (c : ClientId) (s s' : TrackingState) : Prop where
  clients : s'.clients = s.clients
  count : s'.trackingClients = s.trackingClients
  table : s'.trackingTable = s.trackingTable
  other : ∀ x, x ≠ c → s'.client x = s.client x
  flags : (s'.client c).tracking = (s.client c).tracking ∧ (s'.client c).bcast = (s.client c).bcast ∧
    (s'.client c).noloop = (s.client c).noloop
  more : ∀ p ∈ s.prefixTable, p ∈ s'.prefixTable ∧ (s'.bcasts p).keys = (s.bcasts p).keys
  fresh : ∀ p ∈ s'.prefixTable, p ∉ s.prefixTable → (s'.bcasts p).keys = []
  prefixes : ∀ p ∈ (s.client c).prefixes, p ∈ (s'.client c).prefixes

theorem Joined.refl (s : TrackingState) : Joined c s s :=
  ⟨rfl, rfl, rfl, fun _ _ => rfl, ⟨rfl, rfl, rfl⟩, fun _ hp => ⟨hp, rfl⟩, fun _ hp hn => absurd hp hn,
    fun _ hp => hp⟩

theorem Joined.trans {s1 s2 s3 : TrackingState} (h : Joined c s1 s2) (h' : Joined c s2 s3) :
    Joined c s1 s3 := by
  refine ⟨h'.clients.trans h.clients, h'.count.trans h.count, h'.table.trans h.table,
    fun x hx => (h'.other x hx).trans (h.other x hx), ⟨h'.flags.1.trans h.flags.1,
    h'.flags.2.1.trans h.flags.2.1, h'.flags.2.2.trans h.flags.2.2⟩, fun p hp => ?_, fun p hp hn => ?_,
    fun p hp => h'.prefixes p (h.prefixes p hp)⟩
  · have h2 := h.more p hp
    have h3 := h'.more p h2.1
    exact ⟨h3.1, h3.2.trans h2.2⟩
  · by_cases hp2 : p ∈ s2.prefixTable
    · rw [(h'.more p hp2).2]
      exact h.fresh p hp2 hn
    · exact h'.fresh p hp hp2

theorem enableBcast_cases (c : ClientId) (s : TrackingState) (p : Bytes) :
    (p ∈ s.prefixTable ∧ c ∈ (s.bcasts p).clients ∧ enableBcastTrackingForPrefix c s p = s) ∨
    ∃ bs, c ∉ bs.clients ∧ (p ∈ s.prefixTable ∧ bs = s.bcasts p ∨ p ∉ s.prefixTable ∧ bs = freshBcast) ∧
      enableBcastTrackingForPrefix c s p = { s with
        prefixTable := if p ∈ s.prefixTable then s.prefixTable else s.prefixTable ++ [p]
        bcasts := Function.update s.bcasts p { bs with clients := bs.clients ++ [c] }
        client := Function.update s.client c
          { s.client c with prefixes := (s.client c).prefixes ++ [p] } } := by
  unfold enableBcastTrackingForPrefix
  by_cases hp : p ∈ s.prefixTable
  · by_cases hc : c ∈ (s.bcasts p).clients
    · left
      refine ⟨hp, hc, ?_⟩
      rw [if_pos hp]
      dsimp only
      rw [if_pos hc]
    · right
      refine ⟨s.bcasts p, hc, Or.inl ⟨hp, rfl⟩, ?_⟩
      rw [if_pos hp, if_pos hp]
      dsimp only
      rw [if_neg hc]
  · right
    refine ⟨freshBcast, not_mem_nil, Or.inr ⟨hp, rfl⟩, ?_⟩
    have hnot : c ∉ (Function.update s.bcasts p freshBcast p).clients := by
      rw [update_self]
      exact not_mem_nil
    rw [if_neg hp, if_neg hp]
    dsimp only
    rw [if_neg hnot, Function.update_idem, update_self]

theorem enableBcast_joined (c : ClientId) (s : TrackingState) (p : Bytes) :
    Joined c s (enableBcastTrackingForPrefix c s p) := by
  rcases enableBcast_cases c s p with ⟨-, -, heq⟩ | ⟨bs, -, hbs, heq⟩
  · rw [heq]
    exact Joined.refl s
  · rw [heq]
    have hkeys : ∀ q ∈ s.prefixTable, (Function.update s.bcasts p
        { bs with clients := bs.clients ++ [c] } q).keys = (s.bcasts q).keys := by
      intro q hq
      by_cases hqp : q = p
      · subst hqp
        rw [update_self]
        rcases hbs with ⟨-, rfl⟩ | ⟨hn, -⟩
        · rfl
        · exact absurd hq hn
      · rw [update_of_ne hqp]
    refine ⟨rfl, rfl, rfl, fun x hx => update_of_ne hx _ _, ?_, fun q hq => ⟨?_, hkeys q hq⟩,
      fun q hq hn => ?_, fun q hq => ?_⟩
    · dsimp only
      rw [update_self]
      exact ⟨rfl, rfl, rfl⟩
    · dsimp only
      split_ifs
      · exact hq
      · exact List.mem_append_left _ hq
    · dsimp only at hq ⊢
      split_ifs at hq with hp
      · exact absurd hq hn
      · rcases mem_append.mp hq with hq | hq
        · exact absurd hq hn
        · rw [mem_singleton.mp hq, update_self]
          rcases hbs with ⟨hm, -⟩ | ⟨-, rfl⟩
          · exact absurd hm hp
          · rfl
    · dsimp only
      rw [update_self]
      exact List.mem_append_left _ hq

theorem enableBcast_linked (h : Linked s) (c : ClientId) (p : Bytes) :
    Linked (enableBcastTrackingForPrefix c s p) := by
  rcases enableBcast_cases c s p with ⟨-, -, heq⟩ | ⟨bs, hc, hbs, heq⟩
  · rw [heq]
    exact h
  rw [heq]
  have htable : ∀ q, q ∈ (if p ∈ s.prefixTable then s.prefixTable else s.prefixTable ++ [p]) ↔
      q ∈ s.prefixTable ∨ q = p := by
    intro q
    split_ifs with hp
    · exact ⟨Or.inl, fun hq => hq.elim id (fun heq => heq ▸ hp)⟩
    · rw [mem_append, mem_singleton]
  have holdclients : ∀ x, x ∈ bs.clients ↔ p ∈ s.prefixTable ∧ x ∈ (s.bcasts p).clients := by
    intro x
    rcases hbs with ⟨hp, rfl⟩ | ⟨hp, rfl⟩
    · exact ⟨fun hx => ⟨hp, hx⟩, fun hx => hx.2⟩
    · exact ⟨fun hx => absurd hx not_mem_nil, fun hx => absurd hx.1 hp⟩
  have hnodup : bs.clients.Nodup := by
    rcases hbs with ⟨hp, rfl⟩ | ⟨hp, rfl⟩
    · exact h.clientsNodup p hp
    · exact nodup_nil
  refine ⟨fun x q => ?_, ?_, fun q hq => ?_, fun q hq => ?_, fun x => ?_⟩
  · dsimp only
    rw [htable]
    have hold := h.subscribed x q
    by_cases hx : x = c
    · subst hx
      rw [update_self, mem_append, mem_singleton, hold]
      by_cases hqp : q = p
      · subst hqp
        rw [update_self]
        constructor
        · intro _
          exact ⟨Or.inr rfl, List.mem_append_right _ (mem_singleton.mpr rfl)⟩
        · intro _
          exact Or.inr rfl
      · rw [update_of_ne hqp]
        simp [hqp]
    · rw [update_of_ne hx, hold]
      by_cases hqp : q = p
      · subst hqp
        rw [update_self, mem_append, mem_singleton, holdclients]
        constructor
        · intro hm
          exact ⟨Or.inr rfl, Or.inl hm⟩
        · rintro ⟨-, hm | hm⟩
          · exact hm
          · exact absurd hm hx
      · rw [update_of_ne hqp]
        simp [hqp]
  · dsimp only
    split_ifs with hp
    · exact h.tableNodup
    · apply nodup_append.mpr
      refine ⟨h.tableNodup, List.nodup_singleton p, fun a ha b hb heq => ?_⟩
      rw [mem_singleton.mp hb] at heq
      exact hp (heq ▸ ha)
  · dsimp only at hq ⊢
    by_cases hqp : q = p
    · rw [hqp, update_self]
      apply nodup_append.mpr
      refine ⟨hnodup, List.nodup_singleton c, fun a ha b hb heq => ?_⟩
      rw [mem_singleton.mp hb] at heq
      exact hc (heq ▸ ha)
    · rw [update_of_ne hqp]
      exact h.clientsNodup q (((htable q).mp hq).resolve_right hqp)
  · dsimp only at hq ⊢
    by_cases hqp : q = p
    · rw [hqp, update_self]
      exact List.append_ne_nil_of_right_ne_nil _ (List.cons_ne_nil _ _)
    · rw [update_of_ne hqp]
      exact h.inhabited q (((htable q).mp hq).resolve_right hqp)
  · dsimp only
    by_cases hx : x = c
    · rw [hx, update_self]
      have hnew : p ∉ (s.client c).prefixes := fun hp =>
        hc ((holdclients c).mpr ((h.subscribed c p).mp hp))
      apply nodup_append.mpr
      refine ⟨h.prefixesNodup c, List.nodup_singleton p, fun a ha b hb heq => ?_⟩
      rw [mem_singleton.mp hb] at heq
      exact hnew (heq ▸ ha)
    · rw [update_of_ne hx]
      exact h.prefixesNodup x

theorem enableBcasts_spec (c : ClientId) (ps : List Bytes) : ∀ s : TrackingState, Linked s →
    Joined c s (ps.foldl (enableBcastTrackingForPrefix c) s) ∧
      Linked (ps.foldl (enableBcastTrackingForPrefix c) s) := by
  induction ps with
  | nil =>
    intro s h
    exact ⟨Joined.refl s, h⟩
  | cons p ps ih =>
    intro s h
    obtain ⟨hj, hl⟩ := ih _ (enableBcast_linked h c p)
    exact ⟨(enableBcast_joined c s p).trans hj, hl⟩

structure Enabled (c : ClientId) (s s' : TrackingState) : Prop where
  clients : s'.clients = s.clients
  table : s'.trackingTable = some (s.trackingTable.getD (fun _ => none))
  other : ∀ x, x ≠ c → s'.client x = s.client x
  more : ∀ p ∈ s.prefixTable, p ∈ s'.prefixTable ∧ (s'.bcasts p).keys = (s.bcasts p).keys
  fresh : ∀ p ∈ s'.prefixTable, p ∉ s.prefixTable → (s'.bcasts p).keys = []
  prefixes : ∀ p ∈ (s.client c).prefixes, p ∈ (s'.client c).prefixes

theorem enableTracking_spec (h : Members s) (hc : c ∈ s.clients) {bcast : Bool} (noloop : Bool) {ps : List Bytes}
    (hrefused : trackingOnRefused s c bcast ps = false) :
    Members (enableTracking s c bcast noloop ps) ∧ Enabled c s (enableTracking s c bcast noloop ps) ∧
      ((enableTracking s c bcast noloop ps).client c).tracking = true ∧
      ((enableTracking s c bcast noloop ps).client c).bcast = bcast := by
  let client : TrackingClient := { s.client c with tracking := true, bcast := bcast, noloop := noloop }
  let s1 : TrackingState := { s with
    trackingClients := if (s.client c).tracking then s.trackingClients else s.trackingClients + 1
    client := Function.update s.client c client
    trackingTable := some (s.trackingTable.getD (fun _ => none)) }
  have hself : s1.client c = client := update_self c client s.client
  have hother : ∀ x, x ≠ c → s1.client x = s.client x := fun x hx => update_of_ne hx _ _
  have hprefixes : ∀ x, (s1.client x).prefixes = (s.client x).prefixes := by
    intro x
    by_cases hx : x = c
    · rw [hx, hself]
    · rw [hother x hx]
  have hlinked1 : Linked s1 := by
    refine ⟨fun x p => ?_, h.linked.tableNodup, h.linked.clientsNodup, h.linked.inhabited, fun x => ?_⟩
    · rw [hprefixes]
      exact h.linked.subscribed x p
    · rw [hprefixes]
      exact h.linked.prefixesNodup x
  -- the mode of a client that tracks is not switched
  have hmode : bcast = false → (s.client c).bcast = false := by
    intro hb
    by_contra hne
    have hyes : (s.client c).bcast = true := Bool.eq_true_of_not_eq_false hne
    unfold trackingOnRefused at hrefused
    rw [h.bcast c hyes, hyes, hb] at hrefused
    simp at hrefused
  have hcount1 : s1.trackingClients = s1.clients.countP (fun x => (s1.client x).tracking) := by
    have hupdate := countP_update h.nodup hc s.client client
    have hold := h.count
    show (if (s.client c).tracking then s.trackingClients else s.trackingClients + 1) =
      s.clients.countP (fun x => (Function.update s.client c client x).tracking)
    rw [if_pos (show client.tracking = true from rfl)] at hupdate
    split_ifs at hupdate ⊢ <;> omega
  have henabled1 : Enabled c s s1 :=
    ⟨rfl, rfl, hother, fun _ hp => ⟨hp, rfl⟩, fun _ hp hn => absurd hp hn, fun p hp => by
      rw [hprefixes]
      exact hp⟩
  have hmembers1 : bcast = false → Members s1 := by
    intro hb
    refine ⟨h.nodup, fun x hx => ?_, hcount1, fun hn => absurd hn (Option.some_ne_none _), fun x hx => ?_,
      fun x hx => ?_, hlinked1⟩
    · by_cases hxc : x = c
      · rw [hxc]
        exact hc
      · rw [hother x hxc] at hx
        exact h.connected x hx
    · by_cases hxc : x = c
      · rw [hxc, hself]
      · rw [hother x hxc] at hx ⊢
        exact h.bcast x hx
    · rw [hprefixes]
      by_cases hxc : x = c
      · rw [hxc]
        exact h.prefixes c (hmode hb)
      · rw [hother x hxc] at hx
        exact h.prefixes x hx
  cases hb : bcast with
  | false =>
    have heq : enableTracking s c false noloop ps = s1 := by
      unfold enableTracking
      rw [if_neg Bool.false_ne_true]
      simp only [s1, client, hb]
    rw [heq]
    exact ⟨hmembers1 hb, henabled1, by rw [hself], by rw [hself]; exact hb⟩
  | true =>
    have heq : enableTracking s c true noloop ps =
        (if ps = [] then [[]] else ps).foldl (enableBcastTrackingForPrefix c) s1 := by
      unfold enableTracking
      rw [if_pos rfl]
      simp only [s1, client, hb]
    rw [heq]
    obtain ⟨hj, hl⟩ := enableBcasts_spec c (if ps = [] then [[]] else ps) s1 hlinked1
    generalize ((if ps = [] then [[]] else ps).foldl (enableBcastTrackingForPrefix c) s1) = s2 at hj hl
    have hcflags : (s2.client c).tracking = true ∧ (s2.client c).bcast = true := by
      rw [hj.flags.1, hj.flags.2.1, hself]
      exact ⟨rfl, hb⟩
    have hxflags : ∀ x, x ≠ c → s2.client x = s.client x := fun x hx =>
      (hj.other x hx).trans (hother x hx)
    refine ⟨⟨?_, fun x hx => ?_, ?_, fun hn => ?_, fun x hx => ?_, fun x hx => ?_, hl⟩,
      ⟨hj.clients, hj.table, hxflags, hj.more, hj.fresh, fun p hp => ?_⟩, hcflags⟩
    · rw [hj.clients]
      exact h.nodup
    · rw [hj.clients]
      by_cases hxc : x = c
      · rw [hxc]
        exact hc
      · rw [hxflags x hxc] at hx
        exact h.connected x hx
    · rw [hj.count, hj.clients, hcount1]
      apply List.countP_congr
      intro x _
      by_cases hxc : x = c
      · rw [hxc, hj.flags.1]
      · rw [hj.other x hxc]
    · rw [hj.table] at hn
      exact absurd hn (Option.some_ne_none _)
    · by_cases hxc : x = c
      · rw [hxc]
        exact hcflags.1
      · rw [hxflags x hxc] at hx ⊢
        exact h.bcast x hx
    · by_cases hxc : x = c
      · rw [hxc, hcflags.2] at hx
        cases hx
      · rw [hxflags x hxc] at hx ⊢
        exact h.prefixes x hx
    · apply hj.prefixes
      rw [hprefixes]
      exact hp

structure Left (s s' : TrackingState) : Prop where
  clients : s'.clients = s.clients
  client : s'.client = s.client
  count : s'.trackingClients = s.trackingClients
  table : s'.trackingTable = s.trackingTable
  fewer : ∀ p ∈ s'.prefixTable, p ∈ s.prefixTable ∧ (s'.bcasts p).keys = (s.bcasts p).keys

structure Leaving (c : ClientId) (ps : List Bytes) (s : TrackingState) : Prop where
  others : ∀ x, x ≠ c → ∀ p, p ∈ (s.client x).prefixes ↔ p ∈ s.prefixTable ∧ x ∈ (s.bcasts p).clients
  self : ∀ p, p ∈ ps ↔ p ∈ s.prefixTable ∧ c ∈ (s.bcasts p).clients
  tableNodup : s.prefixTable.Nodup
  clientsNodup : ∀ p ∈ s.prefixTable, (s.bcasts p).clients.Nodup
  inhabited : ∀ p ∈ s.prefixTable, (s.bcasts p).clients ≠ []

theorem leavePrefix_spec {ps : List Bytes} (h : Leaving c (p :: ps) s) (hps : p ∉ ps) :
    Left s (leavePrefix c s p) ∧ Leaving c ps (leavePrefix c s p) := by
  obtain ⟨hp, hc⟩ := (h.self p).mp List.mem_cons_self
  have hnodup := h.clientsNodup p hp
  have hmem : ∀ x, x ∈ (s.bcasts p).clients.erase c ↔ x ≠ c ∧ x ∈ (s.bcasts p).clients :=
    fun x => hnodup.mem_erase_iff
  unfold leavePrefix
  dsimp only
  split_ifs with hlast
  · -- the last client takes the prefix along
    have hone : ∀ x ∈ (s.bcasts p).clients, x = c := by
      intro x hx
      by_contra hne
      have := (hmem x).mpr ⟨hne, hx⟩
      rw [hlast] at this
      cases this
    have htable : ∀ q, q ∈ s.prefixTable.erase p ↔ q ≠ p ∧ q ∈ s.prefixTable := fun q =>
      h.tableNodup.mem_erase_iff
    have hbcasts : ∀ q, q ≠ p → Function.update s.bcasts p freshBcast q = s.bcasts q := fun q hq =>
      update_of_ne hq _ _
    refine ⟨⟨rfl, rfl, rfl, rfl, fun q hq => ?_⟩, ⟨fun x hx q => ?_, fun q => ?_, ?_, fun q hq => ?_,
      fun q hq => ?_⟩⟩
    · obtain ⟨hqp, hq'⟩ := (htable q).mp hq
      dsimp only
      rw [hbcasts q hqp]
      exact ⟨hq', rfl⟩
    · dsimp only
      rw [htable, h.others x hx q]
      by_cases hqp : q = p
      · subst hqp
        constructor
        · intro hm
          exact absurd (hone x hm.2) hx
        · intro hm
          exact absurd rfl hm.1.1
      · rw [hbcasts q hqp]
        exact ⟨fun hm => ⟨⟨hqp, hm.1⟩, hm.2⟩, fun hm => ⟨hm.1.2, hm.2⟩⟩
    · dsimp only
      rw [htable]
      have hself := h.self q
      by_cases hqp : q = p
      · subst hqp
        exact ⟨fun hm => absurd hm hps, fun hm => absurd rfl hm.1.1⟩
      · rw [hbcasts q hqp]
        constructor
        · intro hm
          have := hself.mp (List.mem_cons_of_mem _ hm)
          exact ⟨⟨hqp, this.1⟩, this.2⟩
        · intro hm
          exact (mem_cons.mp (hself.mpr ⟨hm.1.2, hm.2⟩)).resolve_left hqp
    · exact h.tableNodup.erase p
    · obtain ⟨hqp, hq'⟩ := (htable q).mp hq
      dsimp only
      rw [hbcasts q hqp]
      exact h.clientsNodup q hq'
    · obtain ⟨hqp, hq'⟩ := (htable q).mp hq
      dsimp only
      rw [hbcasts q hqp]
      exact h.inhabited q hq'
  · have hbcasts : ∀ q, q ≠ p → Function.update s.bcasts p
        { s.bcasts p with clients := (s.bcasts p).clients.erase c } q = s.bcasts q := fun q hq =>
      update_of_ne hq _ _
    refine ⟨⟨rfl, rfl, rfl, rfl, fun q hq => ⟨hq, ?_⟩⟩, ⟨fun x hx q => ?_, fun q => ?_, h.tableNodup,
      fun q hq => ?_, fun q hq => ?_⟩⟩
    · dsimp only
      by_cases hqp : q = p
      · rw [hqp, update_self]
      · rw [hbcasts q hqp]
    · dsimp only
      rw [h.others x hx q]
      by_cases hqp : q = p
      · rw [hqp, update_self, hmem]
        exact ⟨fun hm => ⟨hm.1, hx, hm.2⟩, fun hm => ⟨hm.1, hm.2.2⟩⟩
      · rw [hbcasts q hqp]
    · dsimp only
      have hself := h.self q
      by_cases hqp : q = p
      · subst hqp
        rw [update_self, hmem]
        exact ⟨fun hm => absurd hm hps, fun hm => absurd rfl hm.2.1⟩
      · rw [hbcasts q hqp]
        constructor
        · intro hm
          exact hself.mp (List.mem_cons_of_mem _ hm)
        · intro hm
          exact (mem_cons.mp (hself.mpr hm)).resolve_left hqp
    · dsimp only
      by_cases hqp : q = p
      · rw [hqp, update_self]
        exact hnodup.erase c
      · rw [hbcasts q hqp]
        exact h.clientsNodup q hq
    · dsimp only
      by_cases hqp : q = p
      · rw [hqp, update_self]
        exact hlast
      · rw [hbcasts q hqp]
        exact h.inhabited q hq

theorem leavePrefixes_spec (ps : List Bytes) : ∀ s : TrackingState, ps.Nodup → Leaving c ps s →
    Left s (ps.foldl (leavePrefix c) s) ∧ Leaving c [] (ps.foldl (leavePrefix c) s) := by
  induction ps with
  | nil =>
    intro s _ h
    exact ⟨⟨rfl, rfl, rfl, rfl, fun _ hp => ⟨hp, rfl⟩⟩, h⟩
  | cons p ps ih =>
    intro s hnodup h
    have hn := List.nodup_cons.mp hnodup
    obtain ⟨hl1, hv1⟩ := leavePrefix_spec h hn.1
    obtain ⟨hl2, hv2⟩ := ih _ hn.2 hv1
    refine ⟨⟨hl2.clients.trans hl1.clients, hl2.client.trans hl1.client, hl2.count.trans hl1.count,
      hl2.table.trans hl1.table, fun q hq => ?_⟩, hv2⟩
    have h2 := hl2.fewer q hq
    have h1 := hl1.fewer q h2.1
    exact ⟨h1.1, h2.2.trans h1.2⟩

structure Disabled (c : ClientId) (s s' : TrackingState) : Prop where
  clients : s'.clients = s.clients
  table : s'.trackingTable = s.trackingTable
  other : ∀ x, x ≠ c → s'.client x = s.client x
  self : (s'.client c).tracking = false
  fewer : ∀ p ∈ s'.prefixTable, p ∈ s.prefixTable ∧ (s'.bcasts p).keys = (s.bcasts p).keys

theorem disable_members (h : Members s) (hc : c ∈ s.clients) {s1 : TrackingState} (hleft : Left s s1)
    (hleaving : Leaving c [] s1) :
    Members { s1 with
      trackingClients := if (s.client c).tracking then s1.trackingClients - 1 else s1.trackingClients
      client := Function.update s1.client c untracked } := by
  have hother : ∀ x, x ≠ c → Function.update s1.client c untracked x = s.client x := by
    intro x hx
    rw [update_of_ne hx, hleft.client]
  have hself : Function.update s1.client c untracked c = untracked := update_self c _ _
  refine ⟨?_, fun x hx => ?_, ?_, fun hn x => ?_, fun x hx => ?_, fun x hx => ?_, ⟨fun x p => ?_,
    hleaving.tableNodup, hleaving.clientsNodup, hleaving.inhabited, fun x => ?_⟩⟩
  · rw [hleft.clients]
    exact h.nodup
  · dsimp only at hx ⊢
    by_cases hxc : x = c
    · rw [hxc, hself] at hx
      cases hx
    · rw [hother x hxc] at hx
      rw [hleft.clients]
      exact h.connected x hx
  · dsimp only
    have hupdate := countP_update h.nodup hc s1.client untracked
    have hold := h.count
    rw [hleft.client] at hupdate ⊢
    rw [if_neg (show ¬ untracked.tracking = true from Bool.false_ne_true)] at hupdate
    rw [hleft.clients, hleft.count]
    split_ifs at hupdate ⊢ <;> omega
  · dsimp only at hn ⊢
    by_cases hxc : x = c
    · rw [hxc, hself]
      rfl
    · rw [hother x hxc]
      rw [hleft.table] at hn
      exact h.started hn x
  · dsimp only at hx ⊢
    by_cases hxc : x = c
    · rw [hxc, hself] at hx
      cases hx
    · rw [hother x hxc] at hx ⊢
      exact h.bcast x hx
  · dsimp only at hx ⊢
    by_cases hxc : x = c
    · rw [hxc, hself]
      rfl
    · rw [hother x hxc] at hx ⊢
      exact h.prefixes x hx
  · dsimp only
    by_cases hxc : x = c
    · rw [hxc, hself]
      exact hleaving.self p
    · rw [hother x hxc, ← hleft.client]
      exact hleaving.others x hxc p
  · dsimp only
    by_cases hxc : x = c
    · rw [hxc, hself]
      exact nodup_nil
    · rw [hother x hxc]
      exact h.linked.prefixesNodup x

theorem Linked.leaving (h : Linked s) (c : ClientId) : Leaving c (s.client c).prefixes s :=
  ⟨fun x _ p => h.subscribed x p, fun p => h.subscribed c p, h.tableNodup, h.clientsNodup, h.inhabited⟩

theorem disableTracking_spec (h : Members s) (hc : c ∈ s.clients) :
    Members (disableTracking s c) ∧ Disabled c s (disableTracking s c) := by
  -- a client without BCAST is in no prefix
  have hleave : ∃ s1, (if (s.client c).bcast then (s.client c).prefixes.foldl (leavePrefix c) s else s) =
      s1 ∧ Left s s1 ∧ Leaving c [] s1 := by
    by_cases hb : (s.client c).bcast = true
    · rw [if_pos hb]
      exact ⟨_, rfl, leavePrefixes_spec _ s (h.linked.prefixesNodup c) (h.linked.leaving c)⟩
    · rw [if_neg hb]
      have hempty := h.prefixes c (Bool.eq_false_of_not_eq_true hb)
      have hleaving := h.linked.leaving c
      rw [hempty] at hleaving
      exact ⟨s, rfl, ⟨rfl, rfl, rfl, rfl, fun _ hp => ⟨hp, rfl⟩⟩, hleaving⟩
  obtain ⟨s1, heq, hleft, hleaving⟩ := hleave
  have hmembers := disable_members h hc hleft hleaving
  by_cases ht : (s.client c).tracking = true
  · have hdisable : disableTracking s c = { s1 with
        trackingClients := s1.trackingClients - 1
        client := Function.update s1.client c untracked } := by
      unfold disableTracking
      dsimp only
      rw [heq, if_pos ht]
    rw [if_pos ht] at hmembers
    rw [hdisable]
    refine ⟨hmembers, ⟨hleft.clients, hleft.table, fun x hx => ?_, ?_, hleft.fewer⟩⟩
    · dsimp only
      rw [update_of_ne hx, hleft.client]
    · dsimp only
      rw [update_self]
      rfl
  · -- a client that does not track has no BCAST flag
    have hb : ¬ (s.client c).bcast = true := fun hb => ht (h.bcast c hb)
    have hdisable : disableTracking s c = s := by
      unfold disableTracking
      dsimp only
      rw [if_neg hb, if_neg ht]
    rw [hdisable]
    exact ⟨h, ⟨rfl, rfl, fun _ _ => rfl, Bool.eq_false_of_not_eq_true ht, fun _ hp => ⟨hp, rfl⟩⟩⟩

end RedisCore.Tracking
