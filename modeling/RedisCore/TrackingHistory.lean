import RedisCore.TrackingMembers

namespace RedisCore.Tracking

variable {s s' : TrackingState} {c : ClientId} {p k : Bytes}

abbrev Modification := Option ClientId × Bytes

/-- What has happened so far. -/
structure History where
  owed : ClientId → Bytes → Bool
  missed : ClientId → Bytes → Bool
  cycle : List Modification
  modified : Bytes → List Modification

def told (out : Messages) (c : ClientId) (k : Bytes) : Bool :=
  out.any (fun m => decide (m.1 = c) && m.2.covers k)

def readsKey (s : TrackingState) (c : ClientId) (k : Bytes) : Event → Bool
  | .read c' ks => decide (c' = c) && decide (k ∈ ks) && normal s c
  | _ => false

def dropsKey (k : Bytes) : Event → Bool
  | .modify _ k' => decide (k' = k)
  | .evict k' => decide (k' = k)
  | .flush allDbs => allDbs
  | _ => false

def listens (s : TrackingState) (c : ClientId) : Event → Bool
  | .modify who _ => normal s c && !((s.client c).noloop && decide (who = some c))
  | .evict _ => normal s c
  | .flush _ => (s.client c).tracking
  | _ => false

def nextCycle (l : List Modification) : Event → List Modification
  | .modify who k => l ++ [(who, k)]
  | .broadcast => []
  | _ => l

def History.next (h : History) (s s' : TrackingState) (e : Event) (out : Messages) : History :=
  { owed := fun c k => readsKey s c k e || (h.owed c k && !told out c k)
    missed := fun c k =>
      if readsKey s c k e then false else h.missed c k || (dropsKey k e && !listens s c e)
    cycle := nextCycle h.cycle e
    modified := fun p =>
      if p ∈ s.prefixTable ∧ p ∈ s'.prefixTable then nextCycle (h.modified p) e else [] }

structure World where
  state : TrackingState
  history : History

def initWorld (clients : List ClientId) : World :=
  { state := initState clients
    history :=
      { owed := fun _ _ => false
        missed := fun _ _ => false
        cycle := []
        modified := fun _ => [] } }

def World.step (w : World) (e : Event) : World :=
  let r := stepEvent w.state e
  { state := r.1
    history := w.history.next w.state r.1 e r.2 }

def World.run (w : World) (es : List Event) : World := es.foldl World.step w

theorem fromClient_fst (s : TrackingState) (c : ClientId) (s' : TrackingState) :
    (fromClient s c s').1 = if c ∈ s.clients then s' else s := rfl

theorem step_members (h : Members s) (e : Event) : Members (stepEvent s e).1 := by
  cases e with
  | trackingOn c bcast noloop prefixes =>
    unfold stepEvent
    rw [fromClient_fst]
    by_cases hc : c ∈ s.clients
    · rw [if_pos hc]
      by_cases hr : trackingOnRefused s c bcast prefixes = true
      · rw [if_pos hr]
        exact h
      · rw [if_neg hr]
        exact (enableTracking_spec h hc noloop (Bool.eq_false_of_not_eq_true hr)).1
    · rw [if_neg hc]
      exact h
  | trackingOff c =>
    unfold stepEvent
    rw [fromClient_fst]
    by_cases hc : c ∈ s.clients
    · rw [if_pos hc]
      exact (disableTracking_spec h hc).1
    · rw [if_neg hc]
      exact h
  | read c ks =>
    unfold stepEvent
    rw [fromClient_fst]
    split_ifs
    · exact h.same (rememberKeys_same s c ks)
    · exact h
    · exact h
  | modify who k => exact h.same (invalidateKeyRaw_same s who k true)
  | flush allDbs => exact h.same (flush_same s allDbs)
  | evict k => exact h.same (invalidateKeyRaw_same s none k false)
  | broadcast => exact h.same (broadcast_same s)

def remembered (s : TrackingState) (k : Bytes) : List ClientId :=
  match s.trackingTable with
  | none => []
  | some table => (table k).getD []

theorem remembered_of_table (h : s'.trackingTable = s.trackingTable) :
    remembered s' k = remembered s k := by
  unfold remembered
  rw [h]

theorem remembered_some {table : Bytes → Option (List ClientId)} (h : s.trackingTable = some table) :
    remembered s k = (table k).getD [] := by
  unfold remembered
  rw [h]

theorem mem_rememberKey {table : Bytes → Option (List ClientId)} {c x : ClientId} {k' : Bytes} :
    x ∈ (rememberKey c table k' k).getD [] ↔ (x = c ∧ k = k') ∨ x ∈ (table k).getD [] := by
  unfold rememberKey
  by_cases hk : k = k'
  · rw [hk, Function.update_self, Option.getD_some]
    split_ifs with hc
    · constructor
      · exact fun hx => Or.inr hx
      · rintro (⟨rfl, -⟩ | hx)
        · exact hc
        · exact hx
    · rw [List.mem_append, List.mem_singleton]
      tauto
  · rw [Function.update_of_ne hk]
    tauto

theorem mem_rememberKeys {c x : ClientId} (ks : List Bytes) :
    ∀ table : Bytes → Option (List ClientId),
      x ∈ (ks.foldl (rememberKey c) table k).getD [] ↔ (x = c ∧ k ∈ ks) ∨ x ∈ (table k).getD [] := by
  induction ks with
  | nil =>
    intro table
    simp
  | cons k' ks ih =>
    intro table
    rw [List.foldl_cons, ih, mem_rememberKey, List.mem_cons]
    tauto

theorem mem_trackingRememberKeys {c x : ClientId} {ks : List Bytes} (h : s.trackingTable ≠ none) :
    x ∈ remembered (trackingRememberKeys s c ks) k ↔ (x = c ∧ k ∈ ks) ∨ x ∈ remembered s k := by
  unfold trackingRememberKeys
  cases htable : s.trackingTable with
  | none => exact absurd htable h
  | some table =>
    rw [remembered_some rfl, remembered_some htable]
    exact mem_rememberKeys ks table

theorem remembered_invalidate (s : TrackingState) (who : Option ClientId) (k' : Bytes) (bcast : Bool) :
    remembered (trackingInvalidateKeyRaw s who k' bcast).1 k = if k' = k then [] else remembered s k := by
  unfold trackingInvalidateKeyRaw
  cases htable : s.trackingTable with
  | none =>
    have hempty : remembered s k = [] := by
      unfold remembered
      rw [htable]
    dsimp only
    rw [hempty, ite_self]
  | some table =>
    have hkeep : (if bcast = true ∧ s.prefixTable ≠ [] then trackingRememberKeyToBroadcast s who k' else
        s).trackingTable = some table := by
      split_ifs
      · exact htable
      · exact htable
    rw [remembered_some htable]
    dsimp only
    cases hids : table k' with
    | none =>
      rw [remembered_some hkeep]
      split_ifs with hk
      · rw [← hk, hids, Option.getD_none]
      · rfl
    | some ids =>
      rw [remembered_some rfl]
      split_ifs with hk
      · rw [hk, Function.update_self, Option.getD_none]
      · rw [Function.update_of_ne (fun h => hk h.symm)]

theorem mem_remembered_step (h : Members s) (e : Event) :
    c ∈ remembered (stepEvent s e).1 k ↔
      readsKey s c k e = true ∨ (dropsKey k e = false ∧ c ∈ remembered s k) := by
  -- the events that leave the table as it is
  have hkeep : ∀ s' : TrackingState, remembered s' k = remembered s k →
      (c ∈ remembered s' k ↔ false = true ∨ (false = false ∧ c ∈ remembered s k)) := by
    intro s' heq
    rw [heq]
    simp
  have hdrop : ∀ s' : TrackingState, ∀ k' : Bytes,
      (remembered s' k = if k' = k then [] else remembered s k) →
      (c ∈ remembered s' k ↔ false = true ∨ (decide (k' = k) = false ∧ c ∈ remembered s k)) := by
    intro s' k' heq
    rw [heq]
    split_ifs with hk
    · simp [hk]
    · simp [hk]
  cases e with
  | trackingOn x bcast noloop prefixes =>
    apply hkeep
    unfold stepEvent
    rw [fromClient_fst]
    by_cases hx : x ∈ s.clients
    · rw [if_pos hx]
      by_cases hr : trackingOnRefused s x bcast prefixes = true
      · rw [if_pos hr]
      · rw [if_neg hr]
        have henabled := (enableTracking_spec h hx noloop (Bool.eq_false_of_not_eq_true hr)).2.1
        rw [remembered_some henabled.table]
        unfold remembered
        cases s.trackingTable with
        | none => rfl
        | some table => rfl
    · rw [if_neg hx]
  | trackingOff x =>
    apply hkeep
    unfold stepEvent
    rw [fromClient_fst]
    split_ifs with hx
    · exact remembered_of_table (disableTracking_spec h hx).2.table
    · rfl
  | read x ks =>
    unfold stepEvent
    rw [fromClient_fst]
    show _ ↔ (decide (x = c) && decide (k ∈ ks) && normal s c) = true ∨ (false = false ∧ _)
    by_cases hx : normal s x = true
    · have hflags := normal_iff.1 hx
      rw [if_pos (h.connected x hflags.1), if_pos hflags, mem_trackingRememberKeys]
      · rw [Bool.and_eq_true, Bool.and_eq_true, decide_eq_true_iff, decide_eq_true_iff]
        constructor
        · rintro (⟨rfl, hk⟩ | hold)
          · exact Or.inl ⟨⟨rfl, hk⟩, hx⟩
          · exact Or.inr ⟨rfl, hold⟩
        · rintro (⟨⟨rfl, hk⟩, -⟩ | ⟨-, hold⟩)
          · exact Or.inl ⟨rfl, hk⟩
          · exact Or.inr hold
      · intro hn
        rw [h.started hn x] at hflags
        exact Bool.false_ne_true hflags.1
    · have hnot : ¬ ((s.client x).tracking = true ∧ (s.client x).bcast = false) :=
        fun hflags => hx (normal_iff.2 hflags)
      rw [if_neg hnot, ite_self]
      constructor
      · exact fun hold => Or.inr ⟨rfl, hold⟩
      · rintro (hread | ⟨-, hold⟩)
        · rw [Bool.and_eq_true, Bool.and_eq_true, decide_eq_true_iff] at hread
          rw [hread.1.1] at hx
          exact absurd hread.2 hx
        · exact hold
  | modify who k' => exact hdrop _ k' (remembered_invalidate s who k' true)
  | flush allDbs =>
    have htable : (stepEvent s (.flush allDbs)).1.trackingTable =
      if allDbs then s.trackingTable.map (fun _ _ => none) else s.trackingTable := rfl
    cases allDbs with
    | false => exact hkeep _ (remembered_of_table htable)
    | true =>
      have hempty : remembered (stepEvent s (.flush true)).1 k = [] := by
        unfold remembered
        rw [htable]
        cases s.trackingTable with
        | none => rfl
        | some table => rfl
      rw [hempty]
      simp [readsKey, dropsKey]
  | evict k' => exact hdrop _ k' (remembered_invalidate s none k' false)
  | broadcast =>
    apply hkeep
    apply remembered_of_table
    show (trackingBroadcastInvalidationMessages s).1.trackingTable = _
    unfold trackingBroadcastInvalidationMessages
    split_ifs
    · rfl
    · rfl

theorem told_iff {out : Messages} : told out c k = true ↔ ∃ m, (c, m) ∈ out ∧ m.covers k = true := by
  unfold told
  rw [List.any_eq_true]
  constructor
  · rintro ⟨⟨x, m⟩, hm, hcov⟩
    rw [Bool.and_eq_true, decide_eq_true_iff] at hcov
    have hx : x = c := hcov.1
    exact ⟨m, hx ▸ hm, hcov.2⟩
  · rintro ⟨m, hm, hcov⟩
    refine ⟨(c, m), hm, ?_⟩
    rw [Bool.and_eq_true, decide_eq_true_iff]
    exact ⟨rfl, hcov⟩

theorem invalidationFor_eq_some {who : Option ClientId} {id : ClientId} {r : ClientId × Invalidation}
    (h : Members s) : invalidationFor s who k id = some r ↔
      normal s id = true ∧ ¬ ((s.client id).noloop = true ∧ who = some id) ∧ r = (id, .keys [k]) := by
  unfold invalidationFor
  dsimp only
  by_cases hid : normal s id = true
  · have hflags := normal_iff.1 hid
    have hgo : ¬ (id ∉ s.clients ∨ (s.client id).tracking = false ∨ (s.client id).bcast = true) := by
      rw [hflags.1, hflags.2]
      simp [h.connected id hflags.1]
    rw [if_neg hgo]
    split_ifs with hself
    · simp [hself]
    · rw [Option.some.injEq]
      exact ⟨fun heq => ⟨hid, hself, heq.symm⟩, fun hr => hr.2.2.symm⟩
  · have hstop : id ∉ s.clients ∨ (s.client id).tracking = false ∨ (s.client id).bcast = true := by
      right
      by_contra hne
      rw [not_or, Bool.not_eq_false, Bool.not_eq_true] at hne
      exact hid (normal_iff.2 hne)
    rw [if_pos hstop]
    exact ⟨fun hn => (Option.some_ne_none _ hn.symm).elim, fun hr => absurd hr.1 hid⟩

theorem told_invalidate (h : Members s) (who : Option ClientId) (k' : Bytes) (bcast : Bool) :
    told (trackingInvalidateKeyRaw s who k' bcast).2 c k = true ↔
      k' = k ∧ c ∈ remembered s k ∧ normal s c = true ∧ ¬ ((s.client c).noloop = true ∧ who = some c) := by
  have hsame : ∀ s1 : TrackingState, s1.clients = s.clients → s1.client = s.client →
      invalidationFor s1 who k' = invalidationFor s who k' := by
    intro s1 hclients hclient
    unfold invalidationFor
    rw [hclients, hclient]
  rw [told_iff]
  unfold trackingInvalidateKeyRaw remembered
  cases htable : s.trackingTable with
  | none =>
    dsimp only
    constructor
    · rintro ⟨m, hm, -⟩
      cases hm
    · rintro ⟨-, hm, -⟩
      cases hm
  | some table =>
    have hfor : invalidationFor (if bcast = true ∧ s.prefixTable ≠ [] then
        trackingRememberKeyToBroadcast s who k' else s) who k' = invalidationFor s who k' := by
      split_ifs
      · exact hsame _ rfl rfl
      · rfl
    dsimp only
    cases hids : table k' with
    | none =>
      dsimp only
      constructor
      · rintro ⟨m, hm, -⟩
        cases hm
      · rintro ⟨rfl, hm, -⟩
        rw [hids] at hm
        cases hm
    | some ids =>
      dsimp only
      rw [hfor]
      constructor
      · rintro ⟨m, hm, hcov⟩
        obtain ⟨id, hid, hsome⟩ := List.mem_filterMap.mp hm
        obtain ⟨hnormal, hself, heq⟩ := (invalidationFor_eq_some h).mp hsome
        obtain ⟨rfl, rfl⟩ := Prod.mk.inj heq
        have hk : k = k' := by
          have : k ∈ [k'] := of_decide_eq_true hcov
          exact List.mem_singleton.mp this
        subst hk
        rw [hids]
        exact ⟨rfl, hid, hnormal, hself⟩
      · rintro ⟨rfl, hm, hnormal, hself⟩
        rw [hids] at hm
        refine ⟨.keys [k'], List.mem_filterMap.mpr ⟨c, hm, ?_⟩, ?_⟩
        · exact (invalidationFor_eq_some h).mpr ⟨hnormal, hself, rfl⟩
        · exact decide_eq_true (List.mem_singleton.mpr rfl)

theorem told_flush (h : Members s) (allDbs : Bool) :
    told (trackingInvalidateKeysOnFlush s allDbs).2 c k = true ↔ (s.client c).tracking = true := by
  rw [told_iff]
  unfold trackingInvalidateKeysOnFlush
  dsimp only
  constructor
  · rintro ⟨m, hm, -⟩
    split_ifs at hm
    · cases hm
    · obtain ⟨x, hx, heq⟩ := List.mem_map.mp hm
      rw [← (Prod.mk.inj heq).1]
      exact (List.mem_filter.mp hx).2
  · intro ht
    have hc := h.connected c ht
    have hcount : s.trackingClients ≠ 0 := by
      rw [h.count]
      apply Nat.pos_iff_ne_zero.mp
      apply List.countP_pos_iff.mpr
      exact ⟨c, hc, ht⟩
    refine ⟨.all, ?_, rfl⟩
    rw [if_neg hcount]
    apply List.mem_map.mpr
    exact ⟨c, List.mem_filter.mpr ⟨hc, ht⟩, rfl⟩

theorem told_drop (h : Members s) {e : Event} (hdrop : dropsKey k e = true) (hc : c ∈ remembered s k) :
    told (stepEvent s e).2 c k = listens s c e := by
  rw [Bool.eq_iff_iff]
  cases e with
  | modify who k' =>
    have hk : k' = k := of_decide_eq_true hdrop
    show told (trackingInvalidateKeyRaw s who k' true).2 c k = true ↔ _
    rw [told_invalidate h]
    cases hnoloop : (s.client c).noloop with
    | false => simp [hk, hc, hnoloop, listens]
    | true => simp [hk, hc, hnoloop, listens]
  | evict k' =>
    have hk : k' = k := of_decide_eq_true hdrop
    show told (trackingInvalidateKeyRaw s none k' false).2 c k = true ↔ _
    rw [told_invalidate h]
    simp [hk, hc, listens]
  | flush allDbs => exact told_flush h allDbs
  | trackingOn x bcast noloop prefixes => cases hdrop
  | trackingOff x => cases hdrop
  | read x ks => cases hdrop
  | broadcast => cases hdrop

end RedisCore.Tracking
