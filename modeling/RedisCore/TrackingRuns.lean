import RedisCore.TrackingHistory

namespace RedisCore.Tracking

variable {s s' : TrackingState} {c : ClientId} {p k : Bytes} {w : World}

def recordKey (p : Bytes) (keys : List (Bytes × Option ClientId)) (m : Modification) :
    List (Bytes × Option ClientId) :=
  if p.isPrefixOf m.2 then tryInsertKey m.2 m.1 keys else keys

def recordedKeys (p : Bytes) (l : List Modification) : List (Bytes × Option ClientId) :=
  l.foldl (recordKey p) []

def firstModifier (l : List Modification) (k : Bytes) : Option (Option ClientId) :=
  (l.find? (fun m => decide (m.2 = k))).map Prod.fst

theorem firstModifier_append (l : List Modification) (m : Modification) (k : Bytes) :
    firstModifier (l ++ [m]) k = (firstModifier l k).or (if m.2 = k then some m.1 else none) := by
  unfold firstModifier
  rw [List.find?_append]
  cases l.find? (fun m => decide (m.2 = k)) with
  | some m' => rfl
  | none =>
    by_cases hk : m.2 = k
    · simp [hk]
    · simp [hk]

theorem mem_tryInsertKey {x : Option ClientId} {k' : Bytes} {y : Option ClientId}
    {keys : List (Bytes × Option ClientId)} :
    (k, x) ∈ tryInsertKey k' y keys ↔
      (k, x) ∈ keys ∨ (k = k' ∧ x = y ∧ ∀ z, (k', z) ∉ keys) := by
  have hany : keys.any (fun e => decide (e.1 = k')) = true ↔ ∃ z, (k', z) ∈ keys := by
    rw [List.any_eq_true]
    constructor
    · rintro ⟨⟨a, z⟩, hm, ha⟩
      have hak : a = k' := of_decide_eq_true ha
      exact ⟨z, hak ▸ hm⟩
    · rintro ⟨z, hm⟩
      exact ⟨(k', z), hm, decide_eq_true rfl⟩
  unfold tryInsertKey
  split_ifs with hin
  · constructor
    · exact Or.inl
    · rintro (hm | ⟨-, -, hn⟩)
      · exact hm
      · obtain ⟨z, hz⟩ := hany.mp hin
        exact absurd hz (hn z)
  · have hn : ∀ z, (k', z) ∉ keys := fun z hz => hin (hany.mpr ⟨z, hz⟩)
    rw [List.mem_append, List.mem_singleton, Prod.mk.injEq]
    constructor
    · rintro (hm | ⟨hk, hx⟩)
      · exact Or.inl hm
      · exact Or.inr ⟨hk, hx, hn⟩
    · rintro (hm | ⟨hk, hx, -⟩)
      · exact Or.inl hm
      · exact Or.inr ⟨hk, hx⟩

theorem mem_recordedKeys (p : Bytes) (l : List Modification) :
    ∀ k x, (k, x) ∈ recordedKeys p l ↔ p <+: k ∧ firstModifier l k = some x := by
  induction l using List.reverseRecOn with
  | nil =>
    intro k x
    constructor
    · intro hm
      cases hm
    · rintro ⟨-, hf⟩
      cases hf
  | append_singleton l m ih =>
    intro k x
    have hstep : recordedKeys p (l ++ [m]) = recordKey p (recordedKeys p l) m := by
      unfold recordedKeys
      rw [List.foldl_append, List.foldl_cons, List.foldl_nil]
    rw [hstep, firstModifier_append]
    unfold recordKey
    by_cases hp : p.isPrefixOf m.2 = true
    · have hinit : p <+: m.2 := List.isPrefixOf_iff_prefix.mp hp
      -- a key is there already when the list has modified it before
      have hthere : (∀ z, (m.2, z) ∉ recordedKeys p l) ↔ firstModifier l m.2 = none := by
        constructor
        · intro hn
          by_contra hne
          obtain ⟨z, hz⟩ := Option.ne_none_iff_exists'.mp hne
          exact hn z ((ih m.2 z).mpr ⟨hinit, hz⟩)
        · intro hn z hz
          have := ((ih m.2 z).mp hz).2
          rw [hn] at this
          cases this
      rw [if_pos hp, mem_tryInsertKey, ih, hthere]
      by_cases hk : m.2 = k
      · subst hk
        rw [if_pos rfl]
        cases firstModifier l m.2 with
        | none =>
          simp only [Option.none_or, Option.some.injEq, reduceCtorEq, and_false, false_or, true_and,
            and_true, hinit]
          exact eq_comm
        | some y => simp
      · have hk' : ¬ k = m.2 := fun h => hk h.symm
        rw [if_neg hk, Option.or_none]
        simp [hk']
    · rw [if_neg hp, ih]
      by_cases hk : m.2 = k
      · subst hk
        have hn : ¬ p <+: m.2 := fun h => hp (List.isPrefixOf_iff_prefix.mpr h)
        simp [hn]
      · rw [if_neg hk, Option.or_none]

theorem nextCycle_recorded (p : Bytes) (l : List Modification) (who : Option ClientId) (k : Bytes) :
    recordedKeys p (nextCycle l (.modify who k)) =
      if p.isPrefixOf k then tryInsertKey k who (recordedKeys p l) else recordedKeys p l := by
  unfold nextCycle recordedKeys
  rw [List.foldl_append, List.foldl_cons, List.foldl_nil]
  rfl

theorem prefixTable_started (h : Members s) (hn : s.trackingTable = none) : p ∉ s.prefixTable := by
  intro hp
  obtain ⟨c, hc⟩ := List.exists_mem_of_ne_nil _ (h.linked.inhabited p hp)
  have hinit : p ∈ (s.client c).prefixes := (h.linked.subscribed c p).mpr ⟨hp, hc⟩
  have hbcast : (s.client c).bcast = true := by
    by_contra hne
    rw [h.prefixes c (Bool.eq_false_of_not_eq_true hne)] at hinit
    cases hinit
  have htracks := h.bcast c hbcast
  rw [h.started hn c] at htracks
  cases htracks

theorem prefix_tracked (h : Members s) (hp : p ∈ (s.client c).prefixes) :
    (s.client c).bcast = true ∧ (s.client c).tracking = true ∧ s.trackingTable ≠ none ∧
      s.trackingClients ≠ 0 := by
  have hbcast : (s.client c).bcast = true := by
    by_contra hne
    rw [h.prefixes c (Bool.eq_false_of_not_eq_true hne)] at hp
    cases hp
  have htracks := h.bcast c hbcast
  refine ⟨hbcast, htracks, fun hn => ?_, ?_⟩
  · rw [h.started hn c] at htracks
    cases htracks
  · rw [h.count]
    apply Nat.pos_iff_ne_zero.mp
    apply List.countP_pos_iff.mpr
    exact ⟨c, h.connected c htracks, htracks⟩

theorem keys_invalidate (h : Members s) (hp : p ∈ s.prefixTable) (who : Option ClientId) (k : Bytes)
    (bcast : Bool) :
    ((trackingInvalidateKeyRaw s who k bcast).1.bcasts p).keys =
      if bcast ∧ p.isPrefixOf k then tryInsertKey k who (s.bcasts p).keys else (s.bcasts p).keys := by
  have hbcasts : (trackingInvalidateKeyRaw s who k bcast).1.bcasts =
      (if bcast = true ∧ s.prefixTable ≠ [] then trackingRememberKeyToBroadcast s who k else s).bcasts := by
    unfold trackingInvalidateKeyRaw
    cases htable : s.trackingTable with
    | none => exact absurd hp (prefixTable_started h htable)
    | some table =>
      dsimp only
      cases table k with
      | none => rfl
      | some ids => rfl
  have hne : s.prefixTable ≠ [] := List.ne_nil_of_mem hp
  rw [hbcasts]
  cases bcast with
  | false => simp
  | true =>
    rw [if_pos ⟨rfl, hne⟩]
    unfold trackingRememberKeyToBroadcast
    dsimp only
    by_cases hk : p.isPrefixOf k = true
    · rw [if_pos ⟨hp, hk⟩, if_pos ⟨rfl, hk⟩]
    · rw [if_neg (fun h => hk h.2), if_neg (fun h => hk h.2)]

theorem keys_broadcast (h : Members s) (hp : p ∈ s.prefixTable) :
    ((trackingBroadcastInvalidationMessages s).1.bcasts p).keys = [] := by
  obtain ⟨c, hc⟩ := List.exists_mem_of_ne_nil _ (h.linked.inhabited p hp)
  obtain ⟨-, -, htable, hcount⟩ := prefix_tracked h ((h.linked.subscribed c p).mpr ⟨hp, hc⟩)
  have hgo : ¬ (s.trackingTable.isNone = true ∨ s.trackingClients = 0) := by
    rw [Option.isNone_iff_eq_none]
    rintro (hn | hn)
    · exact htable hn
    · exact hcount hn
  unfold trackingBroadcastInvalidationMessages
  rw [if_neg hgo]
  dsimp only
  rw [if_pos hp]

theorem keys_step (h : Members s) (e : Event) (hp : p ∈ (stepEvent s e).1.prefixTable) {l : List Modification}
    (hkeys : p ∈ s.prefixTable → (s.bcasts p).keys = recordedKeys p l) :
    ((stepEvent s e).1.bcasts p).keys = recordedKeys p (if p ∈ s.prefixTable then nextCycle l e else []) := by
  cases e with
  | trackingOn c bcast noloop prefixes =>
    unfold stepEvent at hp ⊢
    rw [fromClient_fst] at hp ⊢
    by_cases hrun : c ∈ s.clients ∧ trackingOnRefused s c bcast prefixes = false
    · have hr : ¬ trackingOnRefused s c bcast prefixes = true := by
        rw [hrun.2]
        exact Bool.false_ne_true
      rw [if_pos hrun.1, if_neg hr] at hp ⊢
      have henabled := (enableTracking_spec h hrun.1 noloop hrun.2).2.1
      by_cases hold : p ∈ s.prefixTable
      · rw [if_pos hold, (henabled.more p hold).2]
        exact hkeys hold
      · rw [if_neg hold, henabled.fresh p hp hold]
        rfl
    · have hsame : (if c ∈ s.clients then if trackingOnRefused s c bcast prefixes = true then s else
          enableTracking s c bcast noloop prefixes else s) = s := by
        by_cases hc : c ∈ s.clients
        · rw [if_pos hc, if_pos (Bool.eq_true_of_not_eq_false (fun hr => hrun ⟨hc, hr⟩))]
        · rw [if_neg hc]
      rw [hsame] at hp ⊢
      rw [if_pos hp]
      exact hkeys hp
  | trackingOff c =>
    unfold stepEvent at hp ⊢
    rw [fromClient_fst] at hp ⊢
    by_cases hc : c ∈ s.clients
    · rw [if_pos hc] at hp ⊢
      obtain ⟨hold, heq⟩ := (disableTracking_spec h hc).2.fewer p hp
      rw [if_pos hold, heq]
      exact hkeys hold
    · rw [if_neg hc] at hp ⊢
      rw [if_pos hp]
      exact hkeys hp
  | read c ks =>
    have hbcasts : (stepEvent s (.read c ks)).1.bcasts = s.bcasts ∧
        (stepEvent s (.read c ks)).1.prefixTable = s.prefixTable := by
      unfold stepEvent
      rw [fromClient_fst]
      unfold trackingRememberKeys
      split_ifs
      · cases s.trackingTable with
        | none => exact ⟨rfl, rfl⟩
        | some table => exact ⟨rfl, rfl⟩
      · exact ⟨rfl, rfl⟩
      · exact ⟨rfl, rfl⟩
    rw [hbcasts.2] at hp
    rw [hbcasts.1, if_pos hp]
    exact hkeys hp
  | modify who k =>
    have hold : p ∈ s.prefixTable := by
      have hsame := (invalidateKeyRaw_same s who k true).prefixTable
      exact hsame ▸ hp
    rw [if_pos hold, nextCycle_recorded, ← hkeys hold]
    show ((trackingInvalidateKeyRaw s who k true).1.bcasts p).keys = _
    rw [keys_invalidate h hold]
    simp
  | flush allDbs =>
    have hold : p ∈ s.prefixTable := hp
    rw [if_pos hold]
    exact hkeys hold
  | evict k =>
    have hold : p ∈ s.prefixTable := by
      have hsame := (invalidateKeyRaw_same s none k false).prefixTable
      exact hsame ▸ hp
    rw [if_pos hold]
    show ((trackingInvalidateKeyRaw s none k false).1.bcasts p).keys = _
    rw [keys_invalidate h hold]
    simp only [Bool.false_eq_true, false_and, if_false]
    exact hkeys hold
  | broadcast =>
    have hold : p ∈ s.prefixTable := by
      have hsame := (broadcast_same s).prefixTable
      exact hsame ▸ hp
    rw [if_pos hold]
    exact keys_broadcast h hold

structure Recorded (w : World) : Prop where
  members : Members w.state
  owed : ∀ c k, w.history.owed c k = true →
    (c ∈ remembered w.state k ↔ w.history.missed c k = false)
  keys : ∀ p ∈ w.state.prefixTable, (w.state.bcasts p).keys = recordedKeys p (w.history.modified p)
  suffix : ∀ p, w.history.modified p <:+ w.history.cycle

theorem initWorld_recorded {clients : List ClientId} (h : clients.Nodup) : Recorded (initWorld clients) := by
  refine ⟨initState_members h, fun c k howed => ?_, fun p hp => ?_, fun _ => List.suffix_refl _⟩
  · cases howed
  · cases hp

theorem nextCycle_suffix {l l' : List Modification} (h : l <:+ l') (e : Event) :
    nextCycle l e <:+ nextCycle l' e := by
  cases e with
  | modify who k =>
    obtain ⟨front, rfl⟩ := h
    exact ⟨front, (List.append_assoc front l _).symm⟩
  | broadcast => exact List.suffix_refl _
  | trackingOn c bcast noloop prefixes => exact h
  | trackingOff c => exact h
  | read c ks => exact h
  | flush allDbs => exact h
  | evict k => exact h

theorem Recorded.step (h : Recorded w) (e : Event) : Recorded (w.step e) := by
  refine ⟨step_members h.members e, fun c k howed => ?_, fun p hp => ?_, fun p => ?_⟩
  · have howed' : (readsKey w.state c k e || (w.history.owed c k && !told (stepEvent w.state e).2 c k)) = true :=
      howed
    show c ∈ remembered (stepEvent w.state e).1 k ↔
      (if readsKey w.state c k e then false else
        w.history.missed c k || (dropsKey k e && !listens w.state c e)) = false
    rw [mem_remembered_step h.members]
    by_cases hread : readsKey w.state c k e = true
    · rw [if_pos hread]
      exact ⟨fun _ => rfl, fun _ => Or.inl hread⟩
    · rw [if_neg hread]
      rw [Bool.eq_false_of_not_eq_true hread, Bool.false_or, Bool.and_eq_true, Bool.not_eq_true'] at howed'
      have hold := h.owed c k howed'.1
      rw [Bool.or_eq_false_iff]
      by_cases hdrop : dropsKey k e = true
      · -- the client was not told, so either it was missed before or it is now
        have hmissed : ¬ (w.history.missed c k = false ∧ (dropsKey k e && !listens w.state c e) = false) := by
          rintro ⟨hm, hn⟩
          have htold := told_drop h.members hdrop (hold.mpr hm)
          rw [howed'.2] at htold
          rw [hdrop, ← htold] at hn
          cases hn
        constructor
        · rintro (hr | ⟨hd, -⟩)
          · exact absurd hr hread
          · rw [hdrop] at hd
            cases hd
        · exact fun hm => absurd hm hmissed
      · rw [Bool.eq_false_of_not_eq_true hdrop, Bool.false_and, ← hold]
        constructor
        · rintro (hr | ⟨-, hm⟩)
          · exact absurd hr hread
          · exact ⟨hm, rfl⟩
        · exact fun hm => Or.inr ⟨rfl, hm.1⟩
  · have hkeys := keys_step h.members e hp (h.keys p)
    show ((stepEvent w.state e).1.bcasts p).keys = recordedKeys p (if _ then _ else _)
    rw [hkeys]
    by_cases hold : p ∈ w.state.prefixTable
    · rw [if_pos hold, if_pos ⟨hold, hp⟩]
    · rw [if_neg hold, if_neg (fun hb => hold hb.1)]
  · show (if _ then _ else _) <:+ nextCycle w.history.cycle e
    split_ifs
    · exact nextCycle_suffix (h.suffix p) e
    · exact List.nil_suffix

theorem Recorded.run (es : List Event) : ∀ {w : World}, Recorded w → Recorded (w.run es) := by
  induction es with
  | nil => exact fun h => h
  | cons e es ih => exact fun h => ih (h.step e)

theorem told_broadcast (h : Members s) :
    told (trackingBroadcastInvalidationMessages s).2 c k = true ↔
      ∃ p ∈ (s.client c).prefixes, ∃ x, (k, x) ∈ (s.bcasts p).keys ∧
        ((s.client c).noloop = true → x ≠ some c) := by
  rw [told_iff]
  constructor
  · rintro ⟨m, hm, hcov⟩
    unfold trackingBroadcastInvalidationMessages at hm
    split_ifs at hm
    · cases hm
    · obtain ⟨p, hp, hmp⟩ := List.mem_flatMap.mp hm
      unfold broadcastPrefix at hmp
      split_ifs at hmp
      · cases hmp
      · obtain ⟨x, hx, hsome⟩ := List.mem_filterMap.mp hmp
        unfold broadcastTo at hsome
        obtain ⟨ks, hks, heq⟩ := Option.map_eq_some_iff.mp hsome
        obtain ⟨rfl, rfl⟩ := Prod.mk.inj heq
        have hk : k ∈ ks := of_decide_eq_true hcov
        refine ⟨p, (h.linked.subscribed x p).mpr ⟨hp, hx⟩, ?_⟩
        unfold trackingBuildBroadcastReply at hks
        by_cases hnoloop : (s.client x).noloop = true
        · rw [if_pos hnoloop] at hks
          dsimp only at hks
          split_ifs at hks
          rw [← Option.some.inj hks] at hk
          obtain ⟨⟨k', y⟩, hmem, rfl⟩ := List.mem_map.mp hk
          obtain ⟨hin, hne⟩ := List.mem_filter.mp hmem
          exact ⟨y, hin, fun _ => of_decide_eq_true hne⟩
        · rw [if_neg hnoloop] at hks
          rw [← Option.some.inj hks] at hk
          obtain ⟨⟨k', y⟩, hmem, rfl⟩ := List.mem_map.mp hk
          exact ⟨y, hmem, fun hn => absurd hn hnoloop⟩
  · rintro ⟨p, hinit, x, hx, hne⟩
    obtain ⟨-, -, htable, hcount⟩ := prefix_tracked h hinit
    obtain ⟨hp, hc⟩ := (h.linked.subscribed c p).mp hinit
    have hgo : ¬ (s.trackingTable.isNone = true ∨ s.trackingClients = 0) := by
      rw [Option.isNone_iff_eq_none]
      rintro (hn | hn)
      · exact htable hn
      · exact hcount hn
    -- the message of this prefix
    have hsent : ∃ ks, broadcastTo s p c = some (c, .keys ks) ∧ k ∈ ks := by
      unfold broadcastTo trackingBuildBroadcastReply
      by_cases hnoloop : (s.client c).noloop = true
      · have hother : (k, x) ∈ (s.bcasts p).keys.filter (fun e => decide (e.2 ≠ some c)) :=
          List.mem_filter.mpr ⟨hx, decide_eq_true (hne hnoloop)⟩
        rw [if_pos hnoloop]
        dsimp only
        rw [if_neg (List.ne_nil_of_mem hother)]
        exact ⟨_, rfl, List.mem_map.mpr ⟨(k, x), hother, rfl⟩⟩
      · rw [if_neg hnoloop]
        exact ⟨_, rfl, List.mem_map.mpr ⟨(k, x), hx, rfl⟩⟩
    obtain ⟨ks, hks, hk⟩ := hsent
    refine ⟨.keys ks, ?_, decide_eq_true hk⟩
    unfold trackingBroadcastInvalidationMessages
    rw [if_neg hgo]
    apply List.mem_flatMap.mpr
    refine ⟨p, hp, ?_⟩
    unfold broadcastPrefix
    rw [if_neg (List.ne_nil_of_mem hx)]
    exact List.mem_filterMap.mpr ⟨c, hc, hks⟩

/-- What is put into the tables fits in a node of a rax. -/
def Event.Fits : Event → Prop
  | .trackingOn _ _ _ prefixes => ∀ p ∈ prefixes, p.length ≤ RaxSet.RAX_NODE_MAX_SIZE
  | .read _ ks => ∀ k ∈ ks, k.length ≤ RaxSet.RAX_NODE_MAX_SIZE
  | _ => True

structure TablesFit (s : TrackingState) : Prop where
  keys : ∀ table, s.trackingTable = some table → ∀ k, table k ≠ none → k.length ≤ RaxSet.RAX_NODE_MAX_SIZE
  prefixes : ∀ p ∈ s.prefixTable, p.length ≤ RaxSet.RAX_NODE_MAX_SIZE

theorem enableBcasts_prefixes (c : ClientId) (ps : List Bytes) : ∀ (s : TrackingState),
    ∀ p ∈ (ps.foldl (enableBcastTrackingForPrefix c) s).prefixTable, p ∈ s.prefixTable ∨ p ∈ ps := by
  induction ps with
  | nil => exact fun s p hp => Or.inl hp
  | cons q ps ih =>
    intro s p hp
    rcases ih (enableBcastTrackingForPrefix c s q) p hp with hp | hp
    · rcases enableBcast_cases c s q with ⟨-, -, heq⟩ | ⟨bs, -, -, heq⟩
      · rw [heq] at hp
        exact Or.inl hp
      · rw [heq] at hp
        dsimp only at hp
        split_ifs at hp
        · exact Or.inl hp
        · rcases List.mem_append.mp hp with hp | hp
          · exact Or.inl hp
          · exact Or.inr (List.mem_cons.mpr (Or.inl (List.mem_singleton.mp hp)))
    · exact Or.inr (List.mem_cons_of_mem _ hp)

theorem rememberKeys_keys (c : ClientId) (ks : List Bytes) : ∀ (table : Bytes → Option (List ClientId)) (k : Bytes),
    ks.foldl (rememberKey c) table k ≠ none → table k ≠ none ∨ k ∈ ks := by
  induction ks with
  | nil => exact fun table k hk => Or.inl hk
  | cons k' ks ih =>
    intro table k hk
    rcases ih (rememberKey c table k') k hk with hk | hk
    · by_cases heq : k = k'
      · exact Or.inr (heq ▸ List.mem_cons_self)
      · unfold rememberKey at hk
        rw [Function.update_of_ne heq] at hk
        exact Or.inl hk
    · exact Or.inr (List.mem_cons_of_mem _ hk)

theorem TablesFit.same (h : TablesFit s) (hs : SameMembers s s')
    (hkeys : ∀ table', s'.trackingTable = some table' → ∀ k, table' k ≠ none →
      ∃ table, s.trackingTable = some table ∧ table k ≠ none) : TablesFit s' := by
  refine ⟨fun table' htable' k hk => ?_, fun p hp => h.prefixes p (hs.prefixTable ▸ hp)⟩
  obtain ⟨table, htable, hk⟩ := hkeys table' htable' k hk
  exact h.keys table htable k hk

theorem TablesFit.invalidate (h : TablesFit s) (who : Option ClientId) (k : Bytes) (bcast : Bool) :
    TablesFit (trackingInvalidateKeyRaw s who k bcast).1 := by
  apply h.same (invalidateKeyRaw_same s who k bcast)
  intro table' htable' x hx
  cases htable : s.trackingTable with
  | none =>
    have hsame : (trackingInvalidateKeyRaw s who k bcast).1 = s := by
      unfold trackingInvalidateKeyRaw
      rw [htable]
    rw [hsame, htable] at htable'
    cases htable'
  | some table =>
    refine ⟨table, rfl, ?_⟩
    unfold trackingInvalidateKeyRaw at htable'
    rw [htable] at htable'
    dsimp only at htable'
    cases hids : table k with
    | none =>
      rw [hids] at htable'
      have hkept : s.trackingTable = some table' := by
        rw [← htable']
        dsimp only
        split_ifs <;> rfl
      rw [htable] at hkept
      rw [Option.some.inj hkept]
      exact hx
    | some ids =>
      rw [hids] at htable'
      rw [← Option.some.inj htable'] at hx
      by_cases heq : x = k
      · rw [heq, Function.update_self] at hx
        exact absurd rfl hx
      · rw [Function.update_of_ne heq] at hx
        exact hx

theorem TablesFit.step (h : TablesFit s) (hm : Members s) {e : Event} (hfit : e.Fits) :
    TablesFit (stepEvent s e).1 := by
  cases e with
  | trackingOn c bcast noloop prefixes =>
    unfold stepEvent
    rw [fromClient_fst]
    split_ifs with hc hr
    · exact h
    · have henabled := (enableTracking_spec hm hc noloop (Bool.eq_false_of_not_eq_true hr)).2.1
      refine ⟨fun table htable k hk => ?_, fun p hp => ?_⟩
      · rw [henabled.table] at htable
        rw [← Option.some.inj htable] at hk
        cases hold : s.trackingTable with
        | none =>
          rw [hold] at hk
          exact absurd rfl hk
        | some old =>
          rw [hold] at hk
          exact h.keys old hold k hk
      · unfold enableTracking at hp
        dsimp only at hp
        generalize (if (s.client c).tracking then s.trackingClients else s.trackingClients + 1) = count at hp
        split_ifs at hp with hb hnil
        · rcases enableBcasts_prefixes c [[]] _ p hp with hp | hp
          · exact h.prefixes p hp
          · rw [List.mem_singleton.mp hp]
            exact Nat.zero_le _
        · rcases enableBcasts_prefixes c prefixes _ p hp with hp | hp
          · exact h.prefixes p hp
          · exact hfit p hp
        · exact h.prefixes p hp
    · exact h
  | trackingOff c =>
    unfold stepEvent
    rw [fromClient_fst]
    split_ifs with hc
    · have hdisabled := (disableTracking_spec hm hc).2
      exact ⟨fun table htable => h.keys table (hdisabled.table ▸ htable),
        fun p hp => h.prefixes p (hdisabled.fewer p hp).1⟩
    · exact h
  | read c ks =>
    unfold stepEvent
    rw [fromClient_fst]
    split_ifs
    · unfold trackingRememberKeys
      cases hold : s.trackingTable with
      | none => exact h
      | some old =>
        refine ⟨fun table htable k hk => ?_, h.prefixes⟩
        rw [← Option.some.inj htable] at hk
        rcases rememberKeys_keys c ks old k hk with hk | hk
        · exact h.keys old hold k hk
        · exact hfit k hk
    · exact h
    · exact h
  | modify who k => exact h.invalidate who k true
  | flush allDbs =>
    apply h.same (flush_same s allDbs)
    intro table' htable' k hk
    have hflushed : (if allDbs then s.trackingTable.map (fun _ _ => none) else s.trackingTable) = some table' :=
      htable'
    split_ifs at hflushed
    · obtain ⟨table, -, rfl⟩ := Option.map_eq_some_iff.mp hflushed
      exact absurd rfl hk
    · exact ⟨table', hflushed, hk⟩
  | evict k => exact h.invalidate none k false
  | broadcast =>
    apply h.same (broadcast_same s)
    intro table' htable' k hk
    refine ⟨table', ?_, hk⟩
    rw [← htable']
    show _ = (trackingBroadcastInvalidationMessages s).1.trackingTable
    unfold trackingBroadcastInvalidationMessages
    split_ifs <;> rfl

theorem TablesFit.run (es : List Event) : ∀ {w : World}, TablesFit w.state → Members w.state →
    (∀ e ∈ es, e.Fits) → TablesFit (w.run es).state := by
  induction es with
  | nil => exact fun h _ _ => h
  | cons e es ih =>
    intro w h hm hfit
    obtain ⟨hfirst, hrest⟩ := List.forall_mem_cons.mp hfit
    exact ih (h.step hm hfirst) (step_members hm e) hrest

/-- In any run of clients whose keys and prefixes fit in a node of a rax, a modification by somebody else of
a key that a client has read is told if and only if the client is in the mode for that and none was missed,
and a broadcast tells a client of a key if and only if the first modifier in the cycle is not the client in
NOLOOP mode. -/
theorem invalidations_told {clients : List ClientId} (h : clients.Nodup) (es : List Event)
    (hfit : ∀ e ∈ es, e.Fits) :
    TablesFit ((initWorld clients).run es).state ∧
    (∀ c k who, ((initWorld clients).run es).history.owed c k = true → who ≠ some c →
      (told (stepEvent ((initWorld clients).run es).state (.modify who k)).2 c k = true ↔
        normal ((initWorld clients).run es).state c = true ∧
          ((initWorld clients).run es).history.missed c k = false)) ∧
    ∀ c p k who, p ∈ (((initWorld clients).run es).state.client c).prefixes → p <+: k →
      (who, k) ∈ ((initWorld clients).run es).history.cycle → who ≠ some c →
      (told (stepEvent ((initWorld clients).run es).state .broadcast).2 c k = true ↔
        ∃ q ∈ (((initWorld clients).run es).state.client c).prefixes, q <+: k ∧
          ∃ first, firstModifier (((initWorld clients).run es).history.modified q) k = some first ∧
            ((((initWorld clients).run es).state.client c).noloop = true → first ≠ some c)) := by
  have hrec := (initWorld_recorded h).run es
  have hempty : TablesFit (initWorld clients).state :=
    ⟨fun _ htable => absurd htable.symm (Option.some_ne_none _), fun _ hp => absurd hp List.not_mem_nil⟩
  refine ⟨hempty.run es (initState_members h) hfit, ?_⟩
  generalize (initWorld clients).run es = w at hrec
  constructor
  · intro c k who howed hwho
    show told (trackingInvalidateKeyRaw w.state who k true).2 c k = true ↔ _
    rw [told_invalidate hrec.members, hrec.owed c k howed]
    constructor
    · rintro ⟨-, hmissed, hnormal, -⟩
      exact ⟨hnormal, hmissed⟩
    · rintro ⟨hnormal, hmissed⟩
      exact ⟨rfl, hmissed, hnormal, fun hself => hwho hself.2⟩
  · intro c p k who _ _ _ _
    show told (trackingBroadcastInvalidationMessages w.state).2 c k = true ↔ _
    rw [told_broadcast hrec.members]
    have hkeys : ∀ q ∈ (w.state.client c).prefixes, ∀ x, (k, x) ∈ (w.state.bcasts q).keys ↔
        q <+: k ∧ firstModifier (w.history.modified q) k = some x := by
      intro q hq x
      rw [hrec.keys q ((hrec.members.linked.subscribed c q).mp hq).1]
      exact mem_recordedKeys q _ k x
    constructor
    · rintro ⟨q, hq, x, hx, hne⟩
      obtain ⟨hinit, hfirst⟩ := (hkeys q hq x).mp hx
      exact ⟨q, hq, hinit, x, hfirst, hne⟩
    · rintro ⟨q, hq, hinit, x, hfirst, hne⟩
      exact ⟨q, hq, x, (hkeys q hq x).mpr ⟨hinit, hfirst⟩, hne⟩

def keyA : Bytes := [97]

def ownModification : World :=
  (initWorld [1, 2]).run [.trackingOn 1 false true [], .read 1 [keyA], .modify (some 1) keyA]

def twoModifications : World :=
  (initWorld [1, 2]).run [.trackingOn 1 true true [], .modify (some 1) keyA, .modify (some 2) keyA]

/-- The modification by client 2 is not told to client 1, in either mode. -/
theorem modifications_lost :
    (normal ownModification.state 1 = true ∧ ownModification.history.owed 1 keyA = true ∧
      told (stepEvent ownModification.state (.modify (some 2) keyA)).2 1 keyA = false) ∧
    ([] ∈ (twoModifications.state.client 1).prefixes ∧
      (some 2, keyA) ∈ twoModifications.history.cycle ∧
      told (stepEvent twoModifications.state .broadcast).2 1 keyA = false) := by
  refine ⟨⟨rfl, rfl, rfl⟩, ?_, ?_, rfl⟩
  · exact List.mem_singleton.mpr rfl
  · exact List.mem_cons_of_mem _ (List.mem_singleton.mpr rfl)

theorem invalidations_told_two :
    [1, 2].Nodup ∧
    told (stepEvent ((initWorld [1, 2]).run [.trackingOn 1 false true [], .read 1 [keyA]]).state
      (.modify (some 2) keyA)).2 1 keyA = true ∧
    told (stepEvent ((initWorld [1, 2]).run [.trackingOn 1 true true [], .modify (some 2) keyA,
      .modify (some 1) keyA]).state .broadcast).2 1 keyA = true := by
  have hnodup : [1, 2].Nodup := by decide
  refine ⟨hnodup, ?_, ?_⟩
  · have htold := (invalidations_told hnodup [.trackingOn 1 false true [], .read 1 [keyA]]
      (by simp [Event.Fits, keyA, RaxSet.RAX_NODE_MAX_SIZE])).2.1
      1 keyA (some 2) rfl (by decide)
    exact htold.mpr ⟨rfl, rfl⟩
  · have htold := (invalidations_told hnodup [.trackingOn 1 true true [], .modify (some 2) keyA,
      .modify (some 1) keyA] (by simp [Event.Fits])).2.2 1 [] keyA (some 2) (List.mem_singleton.mpr rfl) List.nil_prefix
      List.mem_cons_self (by decide)
    exact htold.mpr ⟨[], List.mem_singleton.mpr rfl, List.nil_prefix, some 2, rfl, fun _ => by decide⟩

end RedisCore.Tracking
