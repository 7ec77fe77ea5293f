import RedisCore.KeyspaceCommands

namespace RedisCore.Keyspace
open Function (update_idem update_of_ne update_self)

variable {V : Type} {cfg : ServerConfig} {s s' : Server V} {d : ℕ} {k : Bytes}
variable {P : Prop} {n : ℕ} {T : Set (ℕ × Bytes)} {env : Env} {c : ClientId}

theorem inDb_iff {dbid : Option ℕ} : inDb dbid d = true ↔ dbid = none ∨ dbid = some d := by
  unfold inDb
  exact decide_eq_true_iff

theorem emptyDbGeneric_sound (h : Sound cfg P n T s) {dbid : Option ℕ}
    (hd : ∀ d, dbid = some d → Usable cfg d) : Sound cfg P n T (emptyDbGeneric cfg s dbid) := by
  by_cases hrange : dbid.any (fun d => decide (cfg.dbnum ≤ d)) = true
  · unfold emptyDbGeneric
    rw [if_pos hrange]
    exact h
  -- what the flush leaves
  let touched : ClientId → Client V := (touchWatchedKeysOnFlush s dbid).clients
  have hdbs : ∀ d, ((emptyDbGeneric cfg s dbid).dbs d) =
      if inDb dbid d ∧ d < cfg.dbnum then emptyDb else s.dbs d := by
    intro d
    unfold emptyDbGeneric
    rw [if_neg hrange]
    dsimp only
    by_cases hc : cfg.clusterEnabled = true
    · rw [if_pos hc]
      rfl
    · rw [if_neg hc]
      rfl
  have hclients : (emptyDbGeneric cfg s dbid).clients = touched := by
    unfold emptyDbGeneric
    rw [if_neg hrange]
    dsimp only
    split_ifs <;> rfl
  have hwatched : (emptyDbGeneric cfg s dbid).watchedKeys = s.watchedKeys := by
    unfold emptyDbGeneric
    rw [if_neg hrange]
    dsimp only
    split_ifs <;> rfl
  have hchanges : (emptyDbGeneric cfg s dbid).changes = s.changes ++ [flushedKeys cfg s dbid] := by
    unfold emptyDbGeneric
    rw [if_neg hrange]
    dsimp only
    split_ifs <;> rfl
  have hkept : ∀ c, (touched c).watchedKeys = (s.clients c).watchedKeys ∧
      (touched c).db = (s.clients c).db := by
    intro c
    show (ite _ _ _ : Client V).watchedKeys = _ ∧ (ite _ _ _ : Client V).db = _
    split_ifs <;> exact ⟨rfl, rfl⟩
  refine ⟨⟨fun d k hnone => ?_, fun hc d hd0 k => ?_, fun hc => ?_, ?_⟩,
    ⟨fun c => ?_, fun c => ?_, fun c => ?_, ⟨fun d k c => ?_, ?_, fun c => ?_⟩, fun c => ?_, ?_,
      fun c hdirty => ?_, fun hp c hdirty wk hwk => ?_⟩⟩
  · rw [hdbs] at hnone ⊢
    split_ifs at hnone ⊢ with hflushed
    · rfl
    · exact h.indexed.expires d k hnone
  · rw [hdbs]
    split_ifs
    · rfl
    · exact h.indexed.onlyZero hc d hd0 k
  · -- in cluster mode the one database is empty now, and so is the index
    have hin : inDb dbid 0 = true := by
      apply inDb_iff.2
      cases dbid with
      | none => exact Or.inl rfl
      | some d => exact Or.inr (congrArg some (hd d rfl hc))
    have hslots : (emptyDbGeneric cfg s dbid).slotsToKeys = [] ∧
        (emptyDbGeneric cfg s dbid).slotsKeysCount = fun _ => 0 := by
      unfold emptyDbGeneric
      rw [if_neg hrange]
      dsimp only
      rw [if_pos hc]
      exact ⟨rfl, rfl⟩
    refine ⟨by rw [hslots.1]; exact List.Pairwise.nil, fun e => ?_, fun hashslot => ?_⟩
    · rw [hslots.1, hdbs, if_pos ⟨hin, cfg.dbnum_pos⟩]
      constructor
      · intro he
        cases he
      · rintro ⟨k, hk, -⟩
        exact absurd rfl hk
    · rw [hslots.1, hslots.2]
      rfl
  · apply h.indexed.record (hchanges ▸ List.prefix_append _ _)
    intro d k hk
    rw [hdbs] at hk
    split_ifs at hk
    · exact absurd rfl hk
    · exact Or.inr ⟨d, hk⟩
  · rw [hclients, (hkept c).2]
    exact h.watching.usable c
  · rw [hclients, (hkept c).2]
    exact h.watching.inRange c
  · rw [hclients, (hkept c).1]
    exact h.watching.keysInRange c
  · unfold Watches
    rw [hwatched, hclients, (hkept c).1]
    exact h.watching.linked.listed d k c
  · rw [hwatched]
    exact h.watching.linked.proper
  · rw [hclients, (hkept c).1]
    exact h.watching.linked.distinct c
  · rw [hclients, (hkept c).1]
    exact h.watching.since c
  · rw [hchanges, List.length_append]
    exact h.watching.recorded.trans (Nat.le_add_right _ _)
  · rw [hclients] at hdirty ⊢
    rw [(hkept c).1]
    by_cases hany : (s.clients c).watchedKeys.any
        (fun wk => inDb dbid wk.db && ((s.dbs wk.db).dict wk.key).isSome) = true
    · obtain ⟨wk, hwk, hseen⟩ := List.any_eq_true.mp hany
      have hboth := (Bool.and_eq_true _ _).mp hseen
      refine ⟨wk, hwk, changed_last hchanges ?_ ?_⟩
      · exact (h.watching.since c wk hwk).trans h.watching.recorded
      · unfold flushedKeys
        rw [hboth.1, hboth.2, decide_eq_true (h.watching.keysInRange c wk hwk)]
        rfl
    · have hsame : touched c = s.clients c := if_neg hany
      rw [hsame] at hdirty
      obtain ⟨wk, hwk, hch⟩ := h.watching.noticed c hdirty
      refine ⟨wk, hwk, hch.mono ?_⟩
      rw [hchanges]
      exact List.prefix_append _ _
  · rw [hclients] at hdirty hwk
    rw [(hkept c).1] at hwk
    have hnotany : ¬ (s.clients c).watchedKeys.any
        (fun wk => inDb dbid wk.db && ((s.dbs wk.db).dict wk.key).isSome) = true := by
      intro hany
      have htouched : touched c = { s.clients c with dirtyCas := true } := if_pos hany
      rw [htouched] at hdirty
      cases hdirty
    have hsame : touched c = s.clients c := if_neg hnotany
    rw [hsame] at hdirty
    rcases h.watching.guarded hp c hdirty wk hwk with hT | hvalue
    · exact Or.inl hT
    · right
      rw [hdbs]
      split_ifs with hflushed
      · have hnone : (s.dbs wk.db).dict wk.key = none := by
          by_contra hne
          apply hnotany
          apply List.any_eq_true.mpr
          exact ⟨wk, hwk, by rw [hflushed.1, Option.isSome_iff_ne_none.mpr hne]; rfl⟩
        rw [← hvalue, hnone]
        rfl
      · exact hvalue

def SwapUnseen (cfg : ServerConfig) (s : Server V) (id1 id2 : ℕ) : Prop :=
  cfg.clusterEnabled = false → id1 < cfg.dbnum → id2 < cfg.dbnum →
    ∀ c, (s.clients c).dirtyCas = false → ∀ wk ∈ (s.clients c).watchedKeys,
      wk.db = id1 ∨ wk.db = id2 → (s.dbs id1).dict wk.key = (s.dbs id2).dict wk.key

theorem swapdbCommand_sound (h : Sound cfg P n T s) {id1 id2 : ℕ}
    (hswap : P → SwapUnseen cfg s id1 id2) : Sound cfg P n T (swapdbCommand cfg s id1 id2).1 := by
  unfold swapdbCommand
  by_cases hcluster : cfg.clusterEnabled = true
  · rw [if_pos hcluster]
    exact h
  · rw [if_neg hcluster]
    unfold dbSwapDatabases
    by_cases hrange : cfg.dbnum ≤ id1 ∨ cfg.dbnum ≤ id2
    · rw [if_pos hrange]
      exact h
    · rw [if_neg hrange]
      by_cases hsame : id1 = id2
      · rw [if_pos hsame]
        exact h
      · rw [if_neg hsame]
        have hdbs : ∀ d, Function.update (Function.update s.dbs id1 (s.dbs id2)) id2 (s.dbs id1) d =
            if d = id2 then s.dbs id1 else if d = id1 then s.dbs id2 else s.dbs d := by
          intro d
          by_cases h2 : d = id2
          · rw [if_pos h2, h2, update_self]
          · rw [if_neg h2, update_of_ne h2]
            by_cases h1 : d = id1
            · rw [if_pos h1, h1, update_self]
            · rw [if_neg h1, update_of_ne h1]
        show Sound cfg P n T { s with
          dbs := Function.update (Function.update s.dbs id1 (s.dbs id2)) id2 (s.dbs id1) }
        refine ⟨⟨fun d k hnone => ?_, fun hc => absurd hc hcluster, fun hc => absurd hc hcluster, ?_⟩, ?_⟩
        · dsimp only at hnone ⊢
          rw [hdbs] at hnone ⊢
          split_ifs at hnone ⊢
          · exact h.indexed.expires id1 k hnone
          · exact h.indexed.expires id2 k hnone
          · exact h.indexed.expires d k hnone
        · refine @Indexed.record V cfg s _ h.indexed List.prefix_rfl (fun d k hk => ?_)
          dsimp only at hk
          rw [hdbs] at hk
          split_ifs at hk
          · exact Or.inr ⟨id1, hk⟩
          · exact Or.inr ⟨id2, hk⟩
          · exact Or.inr ⟨d, hk⟩
        · have hkeeps : Keeps s { s with
              dbs := Function.update (Function.update s.dbs id1 (s.dbs id2)) id2 (s.dbs id1) } :=
            ⟨rfl, rfl, List.prefix_rfl⟩
          apply h.watching.keeps hkeeps
          intro hp c hdirty wk hwk
          by_cases hT : (wk.db, wk.key) ∈ T
          · exact Or.inl hT
          · right
            refine ⟨hT, ?_⟩
            have hunseen := hswap hp (Bool.eq_false_iff.mpr hcluster)
              (Nat.lt_of_not_le (fun hle => hrange (Or.inl hle)))
              (Nat.lt_of_not_le (fun hle => hrange (Or.inr hle))) c hdirty wk hwk
            dsimp only
            rw [hdbs]
            split_ifs with h2 h1
            · rw [h2]
              exact hunseen (Or.inr h2)
            · rw [h1]
              exact (hunseen (Or.inl h1)).symm
            · rfl

@[simp] theorem setClient_self (s : Server V) (c : ClientId) (client : Client V) :
    (setClient s c client).clients c = client := by
  show Function.update s.clients c client c = client
  rw [update_self]

theorem setClient_other (s : Server V) (client : Client V) {c x : ClientId} (hx : x ≠ c) :
    (setClient s c client).clients x = s.clients x := by
  show Function.update s.clients c client x = s.clients x
  rw [update_of_ne hx]

theorem Linked.client (h : Linked s) (c : ClientId) (client : Client V)
    (hkeys : client.watchedKeys = (s.clients c).watchedKeys) : Linked (setClient s c client) := by
  have hsame : ∀ x, ((setClient s c client).clients x).watchedKeys = (s.clients x).watchedKeys := by
    intro x
    by_cases hx : x = c
    · rw [hx, setClient_self]
      exact hkeys
    · rw [setClient_other s client hx]
  refine ⟨fun d k x => ?_, h.proper, fun x => ?_⟩
  · unfold Watches
    rw [hsame]
    exact h.listed d k x
  · rw [hsame]
    exact h.distinct x

theorem Sound.client (h : Sound cfg P n T s) (client : Client V)
    (hkeys : client.watchedKeys = (s.clients c).watchedKeys)
    (hdirty : client.dirtyCas = (s.clients c).dirtyCas) (husable : Usable cfg client.db)
    (hrange : client.db < cfg.dbnum) : Sound cfg P n T (setClient s c client) := by
  have hsame : ∀ x, ((setClient s c client).clients x).watchedKeys = (s.clients x).watchedKeys ∧
      ((setClient s c client).clients x).dirtyCas = (s.clients x).dirtyCas := by
    intro x
    by_cases hx : x = c
    · rw [hx, setClient_self]
      exact ⟨hkeys, hdirty⟩
    · rw [setClient_other s client hx]
      exact ⟨rfl, rfl⟩
  have hdb : ∀ x, Usable cfg ((setClient s c client).clients x).db ∧
      ((setClient s c client).clients x).db < cfg.dbnum := by
    intro x
    by_cases hx : x = c
    · rw [hx, setClient_self]
      exact ⟨husable, hrange⟩
    · rw [setClient_other s client hx]
      exact ⟨h.watching.usable x, h.watching.inRange x⟩
  have hslots : cfg.clusterEnabled = true → SlotIndexed cfg (setClient s c client) := by
    intro hc
    exact ⟨(h.indexed.slots hc).ascending, (h.indexed.slots hc).mem, (h.indexed.slots hc).count⟩
  refine ⟨⟨h.indexed.expires, h.indexed.onlyZero, hslots, h.indexed.recorded⟩, ⟨fun x => (hdb x).1, fun x => (hdb x).2,
    fun x => ?_, h.watching.linked.client c client hkeys, fun x => ?_,
    h.watching.recorded, fun x => ?_, fun hp x => ?_⟩⟩
  · rw [(hsame x).1]
    exact h.watching.keysInRange x
  · rw [(hsame x).1]
    exact h.watching.since x
  · rw [(hsame x).1, (hsame x).2]
    exact h.watching.noticed x
  · rw [(hsame x).1, (hsame x).2]
    exact h.watching.guarded hp x

theorem selectCommand_sound (h : Sound cfg P n T s) (id : ℕ) :
    Sound cfg P n T (selectCommand cfg s c id).1 := by
  unfold selectCommand
  by_cases hcluster : cfg.clusterEnabled = true ∧ id ≠ 0
  · rw [if_pos hcluster]
    exact h
  · rw [if_neg hcluster]
    by_cases hrange : cfg.dbnum ≤ id
    · rw [if_pos hrange]
      exact h
    · rw [if_neg hrange]
      apply h.client { s.clients c with db := id } rfl rfl _ (Nat.lt_of_not_le hrange)
      intro hc
      by_contra hne
      exact hcluster ⟨hc, hne⟩

theorem watchForKey_sound (h : Sound cfg P s.changes.length T s) (k : Bytes) :
    Sound cfg P s.changes.length T (watchForKey env s c k) ∧
      (watchForKey env s c k).changes = s.changes := by
  unfold watchForKey
  dsimp only
  split_ifs with hany
  · exact ⟨h, rfl⟩
  refine ⟨?_, rfl⟩
  have hnew : ∀ wk ∈ (s.clients c).watchedKeys, ¬ (wk.db = (s.clients c).db ∧ wk.key = k) := by
    intro wk hwk heq
    apply hany
    apply List.any_eq_true.mpr
    exact ⟨wk, hwk, by rw [decide_eq_true heq.1, decide_eq_true heq.2]; rfl⟩
  have hnotlisted : c ∉ (s.watchedKeys (s.clients c).db k).getD [] := by
    intro hm
    obtain ⟨wk, hwk, hdb, hkey⟩ := (h.watching.linked.listed _ _ _).mp hm
    exact hnew wk hwk ⟨hdb, hkey⟩
  -- the record of the new key
  generalize hwk₀ : (WatchedKey.mk k (s.clients c).db ((s.dbs (s.clients c).db).dict k)
    (readsExpired env (s.dbs (s.clients c).db) k) s.changes.length) = wk₀
  have hdb₀ : wk₀.db = (s.clients c).db := by rw [← hwk₀]
  have hkey₀ : wk₀.key = k := by rw [← hwk₀]
  have hvalue₀ : wk₀.value = (s.dbs (s.clients c).db).dict k := by rw [← hwk₀]
  have hsince₀ : wk₀.since = s.changes.length := by rw [← hwk₀]
  let client : Client V := { s.clients c with watchedKeys := (s.clients c).watchedKeys ++ [wk₀] }
  have hself : Function.update s.clients c client c = client := by rw [update_self]
  have hother : ∀ x, x ≠ c → Function.update s.clients c client x = s.clients x := by
    intro x hx
    rw [update_of_ne hx]
  have hmem : ∀ x wk, wk ∈ (Function.update s.clients c client x).watchedKeys ↔
      wk ∈ (s.clients x).watchedKeys ∨ (x = c ∧ wk = wk₀) := by
    intro x wk
    by_cases hx : x = c
    · subst hx
      rw [hself]
      simp [client]
    · rw [hother x hx]
      simp [hx]
  have hdirty : ∀ x, (Function.update s.clients c client x).dirtyCas = (s.clients x).dirtyCas := by
    intro x
    by_cases hx : x = c
    · rw [hx, hself]
    · rw [hother x hx]
  have hdb : ∀ x, (Function.update s.clients c client x).db = (s.clients x).db := by
    intro x
    by_cases hx : x = c
    · rw [hx, hself]
    · rw [hother x hx]
  let lists := Function.update s.watchedKeys (s.clients c).db
    (Function.update (s.watchedKeys (s.clients c).db) k
      (some ((s.watchedKeys (s.clients c).db k).getD [] ++ [c])))
  have hlists : ∀ d' k', lists d' k' = if d' = (s.clients c).db ∧ k' = k then
      some ((s.watchedKeys (s.clients c).db k).getD [] ++ [c]) else s.watchedKeys d' k' := by
    intro d' k'
    by_cases hd' : d' = (s.clients c).db
    · subst hd'
      by_cases hk' : k' = k
      · subst hk'
        simp [lists]
      · simp [lists, hk']
    · simp [lists, hd']
  have hindexed : Indexed cfg { s with watchedKeys := lists, clients := Function.update s.clients c client } :=
    ⟨h.indexed.expires, h.indexed.onlyZero, fun hc =>
      ⟨(h.indexed.slots hc).ascending, (h.indexed.slots hc).mem, (h.indexed.slots hc).count⟩, h.indexed.recorded⟩
  refine ⟨hindexed, ⟨fun x => ?_, fun x => ?_, fun x wk hwk => ?_,
    ⟨fun d' k' x => ?_, fun d' k' l hl => ?_, fun x => ?_⟩, fun x wk hwk => ?_, h.watching.recorded,
    fun x hx => ?_, fun hp x hx wk hwk => ?_⟩⟩
  · rw [hdb]
    exact h.watching.usable x
  · rw [hdb]
    exact h.watching.inRange x
  · rcases (hmem x wk).mp hwk with hold | ⟨rfl, rfl⟩
    · exact h.watching.keysInRange x wk hold
    · rw [hdb₀]
      exact h.watching.inRange x
  · show x ∈ (lists d' k').getD [] ↔ ∃ wk ∈ (Function.update s.clients c client x).watchedKeys, _
    have hold := h.watching.linked.listed d' k' x
    rw [hlists]
    constructor
    · intro hx
      split_ifs at hx with heq
      · rcases List.mem_append.mp hx with hx | hx
        · rw [← heq.1, ← heq.2] at hx
          obtain ⟨wk, hwk, hwkeq⟩ := hold.mp hx
          exact ⟨wk, (hmem x wk).mpr (Or.inl hwk), hwkeq⟩
        · exact ⟨wk₀, (hmem x wk₀).mpr (Or.inr ⟨List.mem_singleton.mp hx, rfl⟩),
            hdb₀.trans heq.1.symm, hkey₀.trans heq.2.symm⟩
      · obtain ⟨wk, hwk, hwkeq⟩ := hold.mp hx
        exact ⟨wk, (hmem x wk).mpr (Or.inl hwk), hwkeq⟩
    · rintro ⟨wk, hwk, hwkeq⟩
      split_ifs with heq
      · show x ∈ _ ++ [c]
        rcases (hmem x wk).mp hwk with hwk | ⟨rfl, rfl⟩
        · apply List.mem_append_left
          rw [← heq.1, ← heq.2]
          exact hold.mpr ⟨wk, hwk, hwkeq⟩
        · exact List.mem_append_right _ (List.mem_singleton.mpr rfl)
      · rcases (hmem x wk).mp hwk with hwk | ⟨rfl, rfl⟩
        · exact hold.mpr ⟨wk, hwk, hwkeq⟩
        · exact absurd ⟨hwkeq.1.symm.trans hdb₀, hwkeq.2.symm.trans hkey₀⟩ heq
  · rw [show ({ s with watchedKeys := lists, clients := Function.update s.clients c client } :
      Server V).watchedKeys = lists from rfl, hlists] at hl
    split_ifs at hl
    · cases hl
      refine ⟨List.append_ne_nil_of_right_ne_nil _ (List.cons_ne_nil _ _), ?_⟩
      have hproper : ((s.watchedKeys (s.clients c).db k).getD []).Nodup := by
        cases hw : s.watchedKeys (s.clients c).db k with
        | none => exact List.nodup_nil
        | some l => exact (h.watching.linked.proper _ _ _ hw).2
      apply List.nodup_append.mpr
      refine ⟨hproper, List.nodup_singleton c, fun a ha b hb => ?_⟩
      rw [List.mem_singleton.mp hb]
      intro heq
      exact hnotlisted (heq ▸ ha)
    · exact h.watching.linked.proper d' k' l hl
  · by_cases hx : x = c
    · subst hx
      show (Function.update s.clients x client x).watchedKeys.Pairwise _
      rw [hself]
      apply List.pairwise_append.mpr
      refine ⟨h.watching.linked.distinct x, List.pairwise_singleton _ _, fun a ha b hb => ?_⟩
      rw [List.mem_singleton.mp hb, hdb₀, hkey₀]
      exact hnew a ha
    · show (Function.update s.clients c client x).watchedKeys.Pairwise _
      rw [hother x hx]
      exact h.watching.linked.distinct x
  · rcases (hmem x wk).mp hwk with hold | ⟨-, rfl⟩
    · exact h.watching.since x wk hold
    · rw [hsince₀]
  · rw [hdirty] at hx
    obtain ⟨wk, hwk, hch⟩ := h.watching.noticed x hx
    exact ⟨wk, (hmem x wk).mpr (Or.inl hwk), hch⟩
  · rw [hdirty] at hx
    rcases (hmem x wk).mp hwk with hold | ⟨rfl, rfl⟩
    · exact h.watching.guarded hp x hx wk hold
    · right
      show (s.dbs wk.db).dict wk.key = wk.value
      rw [hvalue₀, hdb₀, hkey₀]

theorem unwatchKey_yields (h : Linked s) {wk : WatchedKey V} {rest : List (WatchedKey V)}
    (hkeys : (s.clients c).watchedKeys = wk :: rest) :
    Yields True (unwatchKey c s wk) (fun s' => Linked s' ∧ s'.dbs = s.dbs ∧ s'.changes = s.changes ∧
      s'.slotsToKeys = s.slotsToKeys ∧ s'.slotsKeysCount = s.slotsKeysCount ∧
      s'.clients = Function.update s.clients c { s.clients c with watchedKeys := rest }) := by
  have hlisted : c ∈ (s.watchedKeys wk.db wk.key).getD [] :=
    (h.listed _ _ _).mpr ⟨wk, by rw [hkeys]; exact List.mem_cons_self, rfl, rfl⟩
  have hdistinct := h.distinct c
  rw [hkeys] at hdistinct
  have hfirst := (List.pairwise_cons.mp hdistinct).1
  unfold unwatchKey
  cases hw : s.watchedKeys wk.db wk.key with
  | none =>
    rw [hw] at hlisted
    cases hlisted
  | some clients =>
    have hmem : c ∈ clients := by
      rw [hw] at hlisted
      exact hlisted
    have hproper := h.proper _ _ _ hw
    dsimp only
    rw [if_pos hmem]
    refine ⟨⟨fun d' k' x => ?_, fun d' k' l hl => ?_, fun x => ?_⟩, rfl, rfl, rfl, rfl, ?_⟩
    · have hold := h.listed d' k' x
      have hlists : (Function.update s.watchedKeys wk.db (Function.update (s.watchedKeys wk.db) wk.key
          (if clients.erase c = [] then none else some (clients.erase c))) d' k').getD [] =
          if d' = wk.db ∧ k' = wk.key then clients.erase c else (s.watchedKeys d' k').getD [] := by
        by_cases hd' : d' = wk.db
        · subst hd'
          by_cases hk' : k' = wk.key
          · subst hk'
            by_cases hnil : clients.erase c = [] <;> simp [hnil]
          · simp [hk']
        · simp [hd']
      have hwatch : ∀ x, Watches { s with
            watchedKeys := Function.update s.watchedKeys wk.db (Function.update (s.watchedKeys wk.db)
              wk.key (if clients.erase c = [] then none else some (clients.erase c)))
            clients := Function.update s.clients c
              { s.clients c with watchedKeys := (s.clients c).watchedKeys.tail } } x d' k' ↔
          Watches s x d' k' ∧ ¬ (x = c ∧ d' = wk.db ∧ k' = wk.key) := by
        intro x
        unfold Watches
        dsimp only
        by_cases hx : x = c
        · subst hx
          rw [update_self, hkeys, List.tail_cons]
          constructor
          · rintro ⟨wk', hwk', rfl, rfl⟩
            refine ⟨⟨wk', List.mem_cons_of_mem _ hwk', rfl, rfl⟩, ?_⟩
            rintro ⟨-, hdb, hkey⟩
            exact hfirst wk' hwk' ⟨hdb.symm, hkey.symm⟩
          · rintro ⟨⟨wk', hwk', rfl, rfl⟩, hne⟩
            rcases List.mem_cons.mp hwk' with rfl | hwk'
            · exact absurd ⟨rfl, rfl, rfl⟩ hne
            · exact ⟨wk', hwk', rfl, rfl⟩
        · rw [update_of_ne hx]
          exact ⟨fun hm => ⟨hm, fun hc => hx hc.1⟩, fun hm => hm.1⟩
      rw [hwatch x]
      show x ∈ (Function.update s.watchedKeys _ _ d' k').getD [] ↔ _
      rw [hlists]
      by_cases heq : d' = wk.db ∧ k' = wk.key
      · rw [if_pos heq, ← hold, heq.1, heq.2, hw]
        rw [show (some clients).getD [] = clients from rfl, hproper.2.mem_erase_iff]
        constructor
        · rintro ⟨hne, hm⟩
          exact ⟨hm, fun hc => hne hc.1⟩
        · rintro ⟨hm, hne⟩
          exact ⟨fun hc => hne ⟨hc, rfl, rfl⟩, hm⟩
      · rw [if_neg heq, ← hold]
        exact ⟨fun hm => ⟨hm, fun hc => heq hc.2⟩, fun hm => hm.1⟩
    · have hl' : Function.update s.watchedKeys wk.db (Function.update (s.watchedKeys wk.db) wk.key
          (if clients.erase c = [] then none else some (clients.erase c))) d' k' = some l := hl
      by_cases hd' : d' = wk.db
      · subst hd'
        rw [update_self] at hl'
        by_cases hk' : k' = wk.key
        · subst hk'
          rw [update_self] at hl'
          split_ifs at hl' with hnil
          cases hl'
          exact ⟨hnil, hproper.2.erase c⟩
        · rw [update_of_ne hk'] at hl'
          exact h.proper _ _ _ hl'
      · rw [update_of_ne hd'] at hl'
        exact h.proper _ _ _ hl'
    · by_cases hx : x = c
      · subst hx
        show (Function.update s.clients x _ x).watchedKeys.Pairwise _
        rw [update_self, hkeys]
        exact (List.pairwise_cons.mp hdistinct).2
      · show (Function.update s.clients c _ x).watchedKeys.Pairwise _
        rw [update_of_ne hx]
        exact h.distinct x
    · rw [hkeys]
      rfl

theorem unwatchAllKeys_yields (h : Linked s) (c : ClientId) :
    Yields True (unwatchAllKeys s c) (fun s' => Linked s' ∧ s'.dbs = s.dbs ∧ s'.changes = s.changes ∧
      s'.slotsToKeys = s.slotsToKeys ∧ s'.slotsKeysCount = s.slotsKeysCount ∧
      s'.clients = Function.update s.clients c { s.clients c with watchedKeys := [] }) := by
  have hloop : ∀ (keys : List (WatchedKey V)) (s : Server V), Linked s →
      (s.clients c).watchedKeys = keys →
      Yields True (keys.foldlM (unwatchKey c) s) (fun s' => Linked s' ∧ s'.dbs = s.dbs ∧
        s'.changes = s.changes ∧ s'.slotsToKeys = s.slotsToKeys ∧
        s'.slotsKeysCount = s.slotsKeysCount ∧
        s'.clients = Function.update s.clients c { s.clients c with watchedKeys := [] }) := by
    intro keys
    induction keys with
    | nil =>
      intro s h hkeys
      refine ⟨h, rfl, rfl, rfl, rfl, ?_⟩
      have hself : { s.clients c with watchedKeys := [] } = s.clients c := by rw [← hkeys]
      rw [hself, Function.update_eq_self]
    | cons wk rest ih =>
      intro s h hkeys
      rw [List.foldlM_cons]
      apply (unwatchKey_yields h hkeys).bind
      rintro s1 ⟨h1, hdbs, hchanges, hkeys1, hcount, hclients⟩
      have hrest : (s1.clients c).watchedKeys = rest := by rw [hclients, update_self]
      apply (ih s1 h1 hrest).mono
      rintro s2 ⟨h2, hdbs2, hchanges2, hkeys2, hcount2, hclients2⟩
      refine ⟨h2, hdbs2.trans hdbs, hchanges2.trans hchanges, hkeys2.trans hkeys1, hcount2.trans hcount, ?_⟩
      rw [hclients2, hclients, update_self, update_idem]
  exact hloop _ s h rfl

theorem Sound.released (h : Sound cfg P n T s) (c : ClientId) (client : Client V) (hkeys : client.watchedKeys = [])
    (hdirty : client.dirtyCas = false) (husable : Usable cfg client.db) (hrange : client.db < cfg.dbnum)
    (hlinked : Linked s') (hdbs : s'.dbs = s.dbs) (hchanges : s'.changes = s.changes)
    (hslots : s'.slotsToKeys = s.slotsToKeys) (hcount : s'.slotsKeysCount = s.slotsKeysCount)
    (hclients : s'.clients = Function.update s.clients c client) : Sound cfg P n T s' := by
  have hself : s'.clients c = client := by rw [hclients, update_self]
  have hother : ∀ x, x ≠ c → s'.clients x = s.clients x := by
    intro x hx
    rw [hclients, update_of_ne hx]
  refine ⟨⟨?_, ?_, fun hc => ⟨?_, ?_, ?_⟩, ?_⟩, ⟨fun x => ?_, fun x => ?_, fun x => ?_, hlinked, fun x => ?_, ?_,
    fun x hx => ?_, fun hp x hx => ?_⟩⟩
  · rw [hdbs]
    exact h.indexed.expires
  · rw [hdbs]
    exact h.indexed.onlyZero
  · rw [hslots]
    exact (h.indexed.slots hc).ascending
  · rw [hslots, hdbs]
    exact (h.indexed.slots hc).mem
  · rw [hslots, hcount]
    exact (h.indexed.slots hc).count
  · apply h.indexed.record (hchanges ▸ List.prefix_rfl)
    intro d k hk
    rw [hdbs] at hk
    exact Or.inr ⟨d, hk⟩
  · by_cases hx : x = c
    · rw [hx, hself]
      exact husable
    · rw [hother x hx]
      exact h.watching.usable x
  · by_cases hx : x = c
    · rw [hx, hself]
      exact hrange
    · rw [hother x hx]
      exact h.watching.inRange x
  · by_cases hx : x = c
    · rw [hx, hself, hkeys]
      intro wk hwk
      cases hwk
    · rw [hother x hx]
      exact h.watching.keysInRange x
  · by_cases hx : x = c
    · rw [hx, hself, hkeys]
      intro wk hwk
      cases hwk
    · rw [hother x hx]
      exact h.watching.since x
  · rw [hchanges]
    exact h.watching.recorded
  · by_cases hxc : x = c
    · rw [hxc, hself, hdirty] at hx
      cases hx
    · rw [hother x hxc] at hx ⊢
      obtain ⟨wk, hwk, hch⟩ := h.watching.noticed x hx
      refine ⟨wk, hwk, hch.mono ?_⟩
      rw [hchanges]
  · by_cases hxc : x = c
    · rw [hxc, hself, hkeys]
      intro wk hwk
      cases hwk
    · rw [hother x hxc] at hx ⊢
      rw [hdbs]
      exact h.watching.guarded hp x hx

theorem unwatchAllKeys_sound (h : Sound cfg P n T s) (hdirty : (s.clients c).dirtyCas = false) :
    Yields True (unwatchAllKeys s c) (fun s' => Sound cfg P n T s' ∧ s'.changes = s.changes) := by
  apply (unwatchAllKeys_yields h.watching.linked c).mono
  rintro s' ⟨hlinked, hdbs, hchanges, hslots, hcount, hclients⟩
  exact ⟨h.released c { s.clients c with watchedKeys := [] } rfl hdirty (h.watching.usable c)
    (h.watching.inRange c) hlinked hdbs hchanges hslots hcount hclients, hchanges⟩

theorem discardTransaction_sound (h : Sound cfg P n T s) :
    Yields True (discardTransaction s c) (fun s' => Sound cfg P n T s' ∧ s'.changes = s.changes) := by
  unfold discardTransaction
  let client : Client V := { s.clients c with
    commands := []
    multi := false
    dirtyCas := false
    dirtyExec := false }
  have hlinked : Linked (setClient s c client) := h.watching.linked.client c client rfl
  apply (unwatchAllKeys_yields hlinked c).mono
  rintro s' ⟨hlinked', hdbs, hchanges, hslots, hcount, hclients⟩
  refine ⟨h.released c { client with watchedKeys := [] } rfl rfl
    (h.watching.usable c) (h.watching.inRange c) hlinked' hdbs hchanges hslots hcount ?_, hchanges⟩
  rw [hclients, setClient_self]
  show Function.update (Function.update s.clients c client) c _ = _
  rw [update_idem]

theorem unwatchCommand_sound (h : Sound cfg P n T s) :
    Yields True (unwatchCommand s c) (fun r => Sound cfg P n T r.1) := by
  unfold unwatchCommand
  apply (unwatchAllKeys_yields h.watching.linked c).bind
  rintro s1 ⟨hlinked, hdbs, hchanges, hslots, hcount, hclients⟩
  have hself : s1.clients c = { s.clients c with watchedKeys := [] } := by
    rw [hclients, update_self]
  have hlinked' : Linked (setClient s1 c { s1.clients c with dirtyCas := false }) :=
    hlinked.client c _ rfl
  apply h.released c { s.clients c with watchedKeys := [], dirtyCas := false } rfl rfl
    (h.watching.usable c) (h.watching.inRange c) hlinked' hdbs hchanges hslots hcount
  show Function.update s1.clients c _ = _
  rw [hself, hclients, update_idem]

end RedisCore.Keyspace
