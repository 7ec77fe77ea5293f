import RedisCore.KeyspaceModel
import RedisCore.Outcome

namespace RedisCore.Keyspace

open RaxSet

variable {V : Type} {cfg : ServerConfig} {s s' : Server V} {d : ℕ} {k : Bytes}

theorem slotBytes_injective {a b : Slot} (h : slotBytes a = slotBytes b) : a = b := by
  have hhi := congrArg UInt8.toNat (List.cons.inj h).1
  have hlo := congrArg UInt8.toNat (List.cons.inj (List.cons.inj h).2).1
  simp only [UInt8.toNat_ofNat'] at hhi hlo
  apply Fin.ext
  have := a.isLt
  have := b.isLt
  omega

theorem slotKey_injective {k k' : Bytes} (h : slotKey cfg k = slotKey cfg k') : k = k' :=
  List.append_inj_right h rfl

def ofSlot (hashslot : Slot) (e : Bytes) : Bool := decide (e.take 2 = slotBytes hashslot)

theorem ofSlot_slotKey (hashslot : Slot) (k : Bytes) :
    ofSlot hashslot (slotKey cfg k) = decide (hashslot = cfg.keyHashSlot k) := by
  have htake : (slotKey cfg k).take 2 = slotBytes (cfg.keyHashSlot k) := rfl
  unfold ofSlot
  rw [htake]
  apply decide_eq_decide.mpr
  exact ⟨fun h => (slotBytes_injective h).symm, fun h => by rw [h]⟩

def Changed (s : Server V) (n : ℕ) (d : ℕ) (k : Bytes) : Prop := ∃ e ∈ s.changes.drop n, e d k = true

structure SlotIndexed (cfg : ServerConfig) (s : Server V) : Prop where
  ascending : Ascending s.slotsToKeys
  mem : ∀ e, e ∈ s.slotsToKeys ↔ ∃ k, (s.dbs 0).dict k ≠ none ∧ e = slotKey cfg k
  count : ∀ hashslot, s.slotsKeysCount hashslot = s.slotsToKeys.countP (ofSlot hashslot)

structure Indexed (cfg : ServerConfig) (s : Server V) : Prop where
  expires : ∀ d k, (s.dbs d).dict k = none → (s.dbs d).expires k = none
  onlyZero : cfg.clusterEnabled = true → ∀ d, d ≠ 0 → ∀ k, (s.dbs d).dict k = none
  slots : cfg.clusterEnabled = true → SlotIndexed cfg s
  recorded : ∀ d k, (s.dbs d).dict k ≠ none → ∃ d', Changed s 0 d' k

def Usable (cfg : ServerConfig) (d : ℕ) : Prop := cfg.clusterEnabled = true → d = 0

theorem emptyServer_indexed : Indexed cfg (emptyServer : Server V) := by
  refine ⟨fun _ _ _ => rfl, fun _ _ _ _ => rfl, fun _ => ⟨List.Pairwise.nil, fun e => ?_, fun _ => rfl⟩, ?_⟩
  · constructor
    · intro h
      cases h
    · rintro ⟨k, hk, -⟩
      exact absurd rfl hk
  · intro d k hk
    exact absurd rfl hk

structure Keeps (s s' : Server V) : Prop where
  clients : s'.clients = s.clients
  watchedKeys : s'.watchedKeys = s.watchedKeys
  changes : s.changes <+: s'.changes

theorem Keeps.refl (s : Server V) : Keeps s s := ⟨rfl, rfl, List.prefix_rfl⟩

theorem Keeps.trans {s1 s2 s3 : Server V} (h : Keeps s1 s2) (h' : Keeps s2 s3) : Keeps s1 s3 :=
  ⟨h'.clients.trans h.clients, h'.watchedKeys.trans h.watchedKeys, h.changes.trans h'.changes⟩

structure Alters (d : ℕ) (k : Bytes) (s s' : Server V) : Prop extends Keeps s s' where
  other : ∀ d' k', ¬ (d' = d ∧ k' = k) → (s'.dbs d').dict k' = (s.dbs d').dict k'

theorem Alters.refl (s : Server V) : Alters d k s s := ⟨Keeps.refl s, fun _ _ _ => rfl⟩

theorem Alters.trans {s1 s2 s3 : Server V} (h : Alters d k s1 s2) (h' : Alters d k s2 s3) :
    Alters d k s1 s3 :=
  ⟨h.toKeeps.trans h'.toKeeps, fun d' k' hne => (h'.other d' k' hne).trans (h.other d' k' hne)⟩

structure SameValues (s s' : Server V) : Prop extends Keeps s s' where
  values : ∀ d k, (s'.dbs d).dict k = (s.dbs d).dict k

theorem SameValues.refl (s : Server V) : SameValues s s := ⟨Keeps.refl s, fun _ _ => rfl⟩

theorem SameValues.alters (h : SameValues s s') : Alters d k s s' :=
  ⟨h.toKeeps, fun d' k' _ => h.values d' k'⟩

theorem Changed.mono {n : ℕ} (h : Changed s n d k) (hk : s.changes <+: s'.changes) :
    Changed s' n d k := by
  obtain ⟨e, he, hek⟩ := h
  obtain ⟨l, hl⟩ := hk
  refine ⟨e, ?_, hek⟩
  rw [← hl, List.drop_append]
  exact List.mem_append_left _ he

theorem Indexed.record (h : Indexed cfg s) (hchanges : s.changes <+: s'.changes)
    (hdict : ∀ d k, (s'.dbs d).dict k ≠ none → (∃ d', Changed s' 0 d' k) ∨ ∃ d', (s.dbs d').dict k ≠ none) :
    ∀ d k, (s'.dbs d).dict k ≠ none → ∃ d', Changed s' 0 d' k := by
  intro d k hk
  rcases hdict d k hk with hnew | ⟨d', hold⟩
  · exact hnew
  · obtain ⟨d'', hch⟩ := h.recorded d' k hold
    exact ⟨d'', hch.mono hchanges⟩

theorem Changed.earlier {n n' : ℕ} (h : Changed s n d k) (hn : n' ≤ n) : Changed s n' d k := by
  obtain ⟨e, he, hek⟩ := h
  exact ⟨e, (List.drop_sublist_drop_left _ hn).subset he, hek⟩

theorem changed_last {n : ℕ} {e : ℕ → Bytes → Bool} {changes : List (ℕ → Bytes → Bool)}
    (hs : s.changes = changes ++ [e]) (hn : n ≤ changes.length) (he : e d k = true) : Changed s n d k := by
  refine ⟨e, ?_, he⟩
  rw [hs, List.drop_append_of_le_length hn]
  exact List.mem_append_right _ (List.mem_singleton.mpr rfl)

@[simp] theorem oneKey_self (d : ℕ) (k : Bytes) : oneKey d k d k = true := by
  simp [oneKey]

theorem setDict_dict (s : Server V) (d : ℕ) (k : Bytes) (v : Option V) (d' : ℕ) (k' : Bytes) :
    ((setDict s d k v).dbs d').dict k' = if d' = d ∧ k' = k then v else (s.dbs d').dict k' := by
  unfold setDict
  by_cases hd : d' = d
  · subst hd
    by_cases hk : k' = k
    · subst hk
      simp
    · simp [hk]
  · simp [hd]

theorem setDict_expires (s : Server V) (d : ℕ) (k : Bytes) (v : Option V) (d' : ℕ) (k' : Bytes) :
    ((setDict s d k v).dbs d').expires k' = (s.dbs d').expires k' := by
  unfold setDict
  by_cases hd : d' = d
  · subst hd
    simp
  · simp [hd]

theorem setExpires_dict (s : Server V) (d : ℕ) (k : Bytes) (t : Option ℤ) (d' : ℕ) (k' : Bytes) :
    ((setExpires s d k t).dbs d').dict k' = (s.dbs d').dict k' := by
  unfold setExpires
  by_cases hd : d' = d
  · subst hd
    simp
  · simp [hd]

theorem setExpires_expires (s : Server V) (d : ℕ) (k : Bytes) (t : Option ℤ) (d' : ℕ) (k' : Bytes) :
    ((setExpires s d k t).dbs d').expires k' = if d' = d ∧ k' = k then t else (s.dbs d').expires k' := by
  unfold setExpires
  by_cases hd : d' = d
  · subst hd
    by_cases hk : k' = k
    · subst hk
      simp
    · simp [hk]
  · simp [hd]

theorem setExpires_keeps (s : Server V) (d : ℕ) (k : Bytes) (t : Option ℤ) :
    SameValues s (setExpires s d k t) :=
  ⟨⟨rfl, rfl, List.prefix_append _ _⟩, setExpires_dict s d k t⟩

theorem setExpires_indexed (h : Indexed cfg s) {t : Option ℤ} (ht : (s.dbs d).dict k = none → t = none) :
    Indexed cfg (setExpires s d k t) := by
  refine ⟨fun d' k' hnone => ?_, fun hc d' hd k' => ?_, fun hc => ?_, ?_⟩
  · rw [setExpires_dict] at hnone
    rw [setExpires_expires]
    split_ifs with heq
    · rw [heq.1, heq.2] at hnone
      exact ht hnone
    · exact h.expires d' k' hnone
  · rw [setExpires_dict]
    exact h.onlyZero hc d' hd k'
  · have hslots := h.slots hc
    refine ⟨hslots.ascending, fun e => ?_, hslots.count⟩
    rw [show (setExpires s d k t).slotsToKeys = s.slotsToKeys from rfl, hslots.mem]
    simp only [setExpires_dict]
  · apply h.record (List.prefix_append _ _)
    intro d' k' hk'
    rw [setExpires_dict] at hk'
    exact Or.inr ⟨d', hk'⟩

theorem slotToKeyUpdateKey_indexed {v : Option V} (h : SlotIndexed cfg s) {add : Bool}
    (hadd : add = ((s.dbs 0).dict k).isNone) (hv : v.isSome = add) :
    SlotIndexed cfg (slotToKeyUpdateKey cfg (setDict s 0 k v) k add) := by
  have hdict : ∀ x, ((slotToKeyUpdateKey cfg (setDict s 0 k v) k add).dbs 0).dict x =
      if x = k then v else (s.dbs 0).dict x := by
    intro x
    calc
      ((slotToKeyUpdateKey cfg (setDict s 0 k v) k add).dbs 0).dict x =
          if 0 = 0 ∧ x = k then v else (s.dbs 0).dict x := setDict_dict s 0 k v 0 x
      _ = if x = k then v else (s.dbs 0).dict x := by simp
  have hmem : slotKey cfg k ∈ s.slotsToKeys ↔ (s.dbs 0).dict k ≠ none := by
    rw [h.mem]
    constructor
    · rintro ⟨x, hx, heq⟩
      rw [slotKey_injective heq]
      exact hx
    · intro hx
      exact ⟨k, hx, rfl⟩
  cases add with
  | true =>
    have hnone : (s.dbs 0).dict k = none := Option.isNone_iff_eq_none.mp hadd.symm
    have hnew : slotKey cfg k ∉ s.slotsToKeys := fun hm => hmem.mp hm hnone
    obtain ⟨v', rfl⟩ := Option.isSome_iff_exists.mp hv
    refine ⟨raxInsert_ascending h.ascending, fun e => ?_, fun hashslot => ?_⟩
    · show e ∈ raxInsert (slotKey cfg k) s.slotsToKeys ↔ _
      rw [mem_raxInsert, h.mem]
      simp only [hdict]
      constructor
      · rintro (rfl | ⟨x, hx, rfl⟩)
        · exact ⟨k, by simp, rfl⟩
        · refine ⟨x, ?_, rfl⟩
          split_ifs
          · simp
          · exact hx
      · rintro ⟨x, hx, rfl⟩
        by_cases hxk : x = k
        · exact Or.inl (by rw [hxk])
        · rw [if_neg hxk] at hx
          exact Or.inr ⟨x, hx, rfl⟩
    · show Function.update s.slotsKeysCount _ (s.slotsKeysCount _ + _) hashslot =
        ((raxInsert (slotKey cfg k) s.slotsToKeys).countP (ofSlot hashslot) : ℕ)
      rw [countP_raxInsert _ hnew, ofSlot_slotKey]
      by_cases hslot : hashslot = cfg.keyHashSlot k
      · subst hslot
        rw [Function.update_self, h.count]
        simp
      · rw [Function.update_of_ne hslot, h.count]
        simp [hslot]
  | false =>
    have hsome : (s.dbs 0).dict k ≠ none := by
      intro hnone
      rw [hnone] at hadd
      cases hadd
    have hold := hmem.mpr hsome
    have hnone : v = none := by
      cases v with
      | none => rfl
      | some v' => cases hv
    subst hnone
    refine ⟨raxRemove_ascending h.ascending, fun e => ?_, fun hashslot => ?_⟩
    · show e ∈ raxRemove (slotKey cfg k) s.slotsToKeys ↔ _
      rw [mem_raxRemove h.ascending, h.mem]
      simp only [hdict]
      constructor
      · rintro ⟨hne, x, hx, rfl⟩
        refine ⟨x, ?_, rfl⟩
        rw [if_neg (fun hxk => hne (by rw [hxk]))]
        exact hx
      · rintro ⟨x, hx, rfl⟩
        by_cases hxk : x = k
        · rw [if_pos hxk] at hx
          exact absurd rfl hx
        · rw [if_neg hxk] at hx
          exact ⟨fun heq => hxk (slotKey_injective heq), x, hx, rfl⟩
    · show Function.update s.slotsKeysCount _ (s.slotsKeysCount _ + _) hashslot =
        ((raxRemove (slotKey cfg k) s.slotsToKeys).countP (ofSlot hashslot) : ℕ)
      have hcount := countP_raxRemove (ofSlot hashslot) hold
      rw [ofSlot_slotKey] at hcount
      by_cases hslot : hashslot = cfg.keyHashSlot k
      · subst hslot
        rw [Function.update_self, h.count, ← hcount]
        simp
      · rw [Function.update_of_ne hslot, h.count, ← hcount]
        simp [hslot]

theorem setDict_alters (s : Server V) (d : ℕ) (k : Bytes) (v : Option V) :
    Alters d k s (setDict s d k v) := by
  refine ⟨⟨rfl, rfl, List.prefix_append _ _⟩, fun d' k' hne => ?_⟩
  rw [setDict_dict, if_neg hne]

theorem setDict_changed (s : Server V) (d : ℕ) (k : Bytes) (v : Option V) {n : ℕ}
    (hn : n ≤ s.changes.length) : Changed (setDict s d k v) n d k :=
  changed_last rfl hn (oneKey_self d k)

theorem setDict_recorded (h : Indexed cfg s) (v : Option V) : ∀ d' k',
    ((setDict s d k v).dbs d').dict k' ≠ none → ∃ d'', Changed (setDict s d k v) 0 d'' k' := by
  apply h.record (List.prefix_append _ _)
  intro d' k' hk'
  by_cases heq : k' = k
  · rw [heq]
    exact Or.inl ⟨d, setDict_changed s d k v (Nat.zero_le _)⟩
  · rw [setDict_dict, if_neg (fun hboth => heq hboth.2)] at hk'
    exact Or.inr ⟨d', hk'⟩

theorem addKey_indexed (h : Indexed cfg s) (hd : Usable cfg d) (hnone : (s.dbs d).dict k = none) (v : V) :
    Indexed cfg (if cfg.clusterEnabled then slotToKeyUpdateKey cfg (setDict s d k (some v)) k true
      else setDict s d k (some v)) := by
  have hexpires : ∀ d' k', ((setDict s d k (some v)).dbs d').dict k' = none →
      ((setDict s d k (some v)).dbs d').expires k' = none := by
    intro d' k' hd'
    rw [setDict_dict] at hd'
    rw [setDict_expires]
    split_ifs at hd'
    · exact h.expires d' k' hd'
  by_cases hc : cfg.clusterEnabled = true
  · rw [if_pos hc]
    have hd0 := hd hc
    subst hd0
    refine ⟨hexpires, fun _ d' hd' k' => ?_, fun _ => ?_, setDict_recorded h (some v)⟩
    · show ((setDict s 0 k (some v)).dbs d').dict k' = none
      rw [setDict_dict, if_neg (fun heq => hd' heq.1)]
      exact h.onlyZero hc d' hd' k'
    · exact slotToKeyUpdateKey_indexed (h.slots hc) (by rw [hnone]; rfl) rfl
  · rw [if_neg hc]
    exact ⟨hexpires, fun hc' => absurd hc' hc, fun hc' => absurd hc' hc, setDict_recorded h (some v)⟩

theorem removeKey_indexed (h : Indexed cfg s) (hsome : (s.dbs d).dict k ≠ none)
    (hnoexpire : (s.dbs d).expires k = none) :
    Indexed cfg (if cfg.clusterEnabled then slotToKeyUpdateKey cfg (setDict s d k none) k false
      else setDict s d k none) := by
  have hexpires : ∀ d' k', ((setDict s d k none).dbs d').dict k' = none →
      ((setDict s d k none).dbs d').expires k' = none := by
    intro d' k' hd'
    rw [setDict_dict] at hd'
    rw [setDict_expires]
    split_ifs at hd' with heq
    · rw [heq.1, heq.2]
      exact hnoexpire
    · exact h.expires d' k' hd'
  by_cases hc : cfg.clusterEnabled = true
  · rw [if_pos hc]
    have hd0 : d = 0 := by
      by_contra hd
      exact hsome (h.onlyZero hc d hd k)
    subst hd0
    refine ⟨hexpires, fun _ d' hd' k' => ?_, fun _ => ?_, setDict_recorded h none⟩
    · show ((setDict s 0 k none).dbs d').dict k' = none
      rw [setDict_dict, if_neg (fun heq => hd' heq.1)]
      exact h.onlyZero hc d' hd' k'
    · apply slotToKeyUpdateKey_indexed (h.slots hc) _ rfl
      exact (Option.isNone_eq_false_iff.mpr (Option.isSome_iff_ne_none.mpr hsome)).symm
  · rw [if_neg hc]
    exact ⟨hexpires, fun hc' => absurd hc' hc, fun hc' => absurd hc' hc, setDict_recorded h none⟩

theorem setKey_indexed (h : Indexed cfg s) (hsome : (s.dbs d).dict k ≠ none) (v : V) :
    Indexed cfg (setDict s d k (some v)) := by
  have hnone : ∀ d' k', ((setDict s d k (some v)).dbs d').dict k' = none ↔ (s.dbs d').dict k' = none := by
    intro d' k'
    rw [setDict_dict]
    split_ifs with heq
    · rw [heq.1, heq.2]
      constructor
      · intro hv
        cases hv
      · intro hv
        exact absurd hv hsome
    · exact Iff.rfl
  refine ⟨fun d' k' hd' => ?_, fun hc d' hd' k' => ?_, fun hc => ?_, setDict_recorded h (some v)⟩
  · rw [setDict_expires]
    exact h.expires d' k' ((hnone d' k').mp hd')
  · exact (hnone d' k').mpr (h.onlyZero hc d' hd' k')
  · have hslots := h.slots hc
    refine ⟨hslots.ascending, fun e => ?_, hslots.count⟩
    show e ∈ s.slotsToKeys ↔ _
    rw [hslots.mem]
    simp only [ne_eq, hnone]

end RedisCore.Keyspace
