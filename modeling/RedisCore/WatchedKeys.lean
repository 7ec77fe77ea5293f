import RedisCore.KeyspaceIndexes

namespace RedisCore.Keyspace

variable {V : Type} {cfg : ServerConfig} {s s' : Server V} {d : ℕ} {k : Bytes}

def Watches (s : Server V) (c : ClientId) (d : ℕ) (k : Bytes) : Prop :=
  ∃ wk ∈ (s.clients c).watchedKeys, wk.db = d ∧ wk.key = k

structure Linked (s : Server V) : Prop where
  listed : ∀ d k c, c ∈ (s.watchedKeys d k).getD [] ↔ Watches s c d k
  proper : ∀ d k clients, s.watchedKeys d k = some clients → clients ≠ [] ∧ clients.Nodup
  distinct : ∀ c, (s.clients c).watchedKeys.Pairwise (fun a b => ¬ (a.db = b.db ∧ a.key = b.key))

structure Watching (cfg : ServerConfig) (P : Prop) (n : ℕ) (T : Set (ℕ × Bytes)) (s : Server V) :
    Prop where
  usable : ∀ c, Usable cfg (s.clients c).db
  inRange : ∀ c, (s.clients c).db < cfg.dbnum
  keysInRange : ∀ c, ∀ wk ∈ (s.clients c).watchedKeys, wk.db < cfg.dbnum
  linked : Linked s
  since : ∀ c, ∀ wk ∈ (s.clients c).watchedKeys, wk.since ≤ n
  recorded : n ≤ s.changes.length
  noticed : ∀ c, (s.clients c).dirtyCas = true →
    ∃ wk ∈ (s.clients c).watchedKeys, Changed s wk.since wk.db wk.key
  guarded : P → ∀ c, (s.clients c).dirtyCas = false → ∀ wk ∈ (s.clients c).watchedKeys,
    (wk.db, wk.key) ∈ T ∨ (s.dbs wk.db).dict wk.key = wk.value

structure Sound (cfg : ServerConfig) (P : Prop) (n : ℕ) (T : Set (ℕ × Bytes)) (s : Server V) : Prop where
  indexed : Indexed cfg s
  watching : Watching cfg P n T s

variable {P : Prop} {n : ℕ} {T T' : Set (ℕ × Bytes)}

theorem Linked.of_eq (h : Linked s) (hc : s'.clients = s.clients) (hw : s'.watchedKeys = s.watchedKeys) :
    Linked s' := by
  refine ⟨fun d k c => ?_, fun d k l => ?_, fun c => ?_⟩
  · unfold Watches
    rw [hc, hw]
    exact h.listed d k c
  · rw [hw]
    exact h.proper d k l
  · rw [hc]
    exact h.distinct c

theorem Watching.keeps (h : Watching cfg P n T s) (hk : Keeps s s')
    (hdict : P → ∀ c, (s.clients c).dirtyCas = false → ∀ wk ∈ (s.clients c).watchedKeys,
      (wk.db, wk.key) ∈ T' ∨
        (wk.db, wk.key) ∉ T ∧ (s'.dbs wk.db).dict wk.key = (s.dbs wk.db).dict wk.key) :
    Watching cfg P n T' s' := by
  refine ⟨?_, ?_, ?_, h.linked.of_eq hk.clients hk.watchedKeys, ?_, ?_, ?_, ?_⟩
  · rw [hk.clients]
    exact h.usable
  · rw [hk.clients]
    exact h.inRange
  · rw [hk.clients]
    exact h.keysInRange
  · rw [hk.clients]
    exact h.since
  · exact h.recorded.trans hk.changes.length_le
  · rw [hk.clients]
    intro c hc
    obtain ⟨wk, hwk, hch⟩ := h.noticed c hc
    exact ⟨wk, hwk, hch.mono hk.changes⟩
  · rw [hk.clients]
    intro hp c hc wk hwk
    rcases hdict hp c hc wk hwk with hT | ⟨hT, hsame⟩
    · exact Or.inl hT
    · rw [hsame]
      exact Or.inr ((h.guarded hp c hc wk hwk).resolve_left hT)

theorem Watching.alters (h : Watching cfg P n T s) (ha : Alters d k s s') :
    Watching cfg P n (insert (d, k) T) s' := by
  apply h.keeps ha.toKeeps
  intro _ c _ wk _
  by_cases heq : wk.db = d ∧ wk.key = k
  · left
    rw [heq.1, heq.2]
    exact Set.mem_insert _ _
  · by_cases hT : (wk.db, wk.key) ∈ T
    · exact Or.inl (Set.mem_insert_of_mem _ hT)
    · exact Or.inr ⟨hT, ha.other wk.db wk.key heq⟩

theorem Watching.sameValues (h : Watching cfg P n T s) (hv : SameValues s s') : Watching cfg P n T s' := by
  apply h.keeps hv.toKeeps
  intro _ c _ wk _
  by_cases hT : (wk.db, wk.key) ∈ T
  · exact Or.inl hT
  · exact Or.inr ⟨hT, hv.values wk.db wk.key⟩

theorem Watching.weaken (h : Watching cfg P n T s) (hT : T ⊆ T') : Watching cfg P n T' s :=
  { h with guarded := fun hp c hc wk hwk => (h.guarded hp c hc wk hwk).imp_left (fun hm => hT hm) }

@[simp] theorem touchWatchedKey_dbs (s : Server V) (d : ℕ) (k : Bytes) :
    (touchWatchedKey s d k).dbs = s.dbs := by
  unfold touchWatchedKey
  split <;> rfl

@[simp] theorem touchWatchedKey_changes (s : Server V) (d : ℕ) (k : Bytes) :
    (touchWatchedKey s d k).changes = s.changes := by
  unfold touchWatchedKey
  split <;> rfl

theorem touchWatchedKey_watchedKeys (s : Server V) (d : ℕ) (k : Bytes) :
    (touchWatchedKey s d k).watchedKeys = s.watchedKeys := by
  unfold touchWatchedKey
  split <;> rfl

theorem touchWatchedKey_indexed (h : Indexed cfg s) : Indexed cfg (touchWatchedKey s d k) := by
  unfold touchWatchedKey
  split
  · exact h
  · exact ⟨h.expires, h.onlyZero, fun hc => ⟨(h.slots hc).ascending, (h.slots hc).mem, (h.slots hc).count⟩,
      h.recorded⟩

theorem touchWatchedKey_clients (h : Linked s) (d : ℕ) (k : Bytes) (c : ClientId) :
    (Watches s c d k → (touchWatchedKey s d k).clients c = { s.clients c with dirtyCas := true }) ∧
    (¬ Watches s c d k → (touchWatchedKey s d k).clients c = s.clients c) := by
  have hlisted := h.listed d k c
  unfold touchWatchedKey
  cases hw : s.watchedKeys d k with
  | none =>
    rw [hw] at hlisted
    exact ⟨fun hc => absurd (hlisted.mpr hc) List.not_mem_nil, fun _ => rfl⟩
  | some clients =>
    rw [hw] at hlisted
    refine ⟨fun hc => if_pos (hlisted.mpr hc), fun hc => if_neg (fun hm => hc (hlisted.mp hm))⟩

theorem touchWatchedKey_same (h : Linked s) (d : ℕ) (k : Bytes) (c : ClientId) :
    ((touchWatchedKey s d k).clients c).watchedKeys = (s.clients c).watchedKeys ∧
    ((touchWatchedKey s d k).clients c).db = (s.clients c).db := by
  have ht := touchWatchedKey_clients h d k c
  by_cases hw : Watches s c d k
  · rw [ht.1 hw]
    exact ⟨rfl, rfl⟩
  · rw [ht.2 hw]
    exact ⟨rfl, rfl⟩

theorem Watching.touch (h : Watching cfg P n (insert (d, k) T) s) (hc : Changed s n d k) :
    Watching cfg P n T (touchWatchedKey s d k) := by
  have hsame := touchWatchedKey_same h.linked d k
  have htouch := touchWatchedKey_clients h.linked d k
  refine ⟨fun c => ?_, fun c => ?_, fun c => ?_, ⟨fun d' k' c => ?_, fun d' k' l => ?_, fun c => ?_⟩,
    fun c => ?_, ?_, fun c hdirty => ?_, fun hp c hdirty wk hwk => ?_⟩
  · rw [(hsame c).2]
    exact h.usable c
  · rw [(hsame c).2]
    exact h.inRange c
  · rw [(hsame c).1]
    exact h.keysInRange c
  · unfold Watches
    rw [touchWatchedKey_watchedKeys, (hsame c).1]
    exact h.linked.listed d' k' c
  · rw [touchWatchedKey_watchedKeys]
    exact h.linked.proper d' k' l
  · rw [(hsame c).1]
    exact h.linked.distinct c
  · rw [(hsame c).1]
    exact h.since c
  · rw [touchWatchedKey_changes]
    exact h.recorded
  · have hchanged : ∀ m d' k', Changed s m d' k' → Changed (touchWatchedKey s d k) m d' k' := by
      intro m d' k' hm
      apply hm.mono
      rw [touchWatchedKey_changes]
    rw [(hsame c).1]
    by_cases hw : Watches s c d k
    · obtain ⟨wk, hwk, rfl, rfl⟩ := hw
      exact ⟨wk, hwk, hchanged _ _ _ (hc.earlier (h.since c wk hwk))⟩
    · rw [(htouch c).2 hw] at hdirty
      obtain ⟨wk, hwk, hch⟩ := h.noticed c hdirty
      exact ⟨wk, hwk, hchanged _ _ _ hch⟩
  · rw [(hsame c).1] at hwk
    have hnot : ¬ Watches s c d k := by
      intro hw
      rw [(htouch c).1 hw] at hdirty
      cases hdirty
    rw [(htouch c).2 hnot] at hdirty
    rw [touchWatchedKey_dbs]
    rcases h.guarded hp c hdirty wk hwk with hT | hvalue
    · left
      rcases Set.mem_insert_iff.mp hT with heq | hT
      · exact absurd ⟨wk, hwk, congrArg Prod.fst heq, congrArg Prod.snd heq⟩ hnot
      · exact hT
    · exact Or.inr hvalue

theorem Sound.touch (h : Sound cfg P n (insert (d, k) T) s) (hc : Changed s n d k) :
    Sound cfg P n T (touchWatchedKey s d k) :=
  ⟨touchWatchedKey_indexed h.indexed, h.watching.touch hc⟩

theorem Sound.weaken (h : Sound cfg P n T s) (hT : T ⊆ T') : Sound cfg P n T' s :=
  ⟨h.indexed, h.watching.weaken hT⟩

theorem Sound.settled (h : Sound cfg P n T s) : Sound cfg P n (insert (d, k) T) s :=
  h.weaken (Set.subset_insert _ _)

theorem Sound.later (h : Sound cfg P n T s) : Sound cfg P s.changes.length T s := by
  refine ⟨h.indexed, { h.watching with since := fun c wk hwk => ?_, recorded := le_refl _ }⟩
  exact (h.watching.since c wk hwk).trans h.watching.recorded

end RedisCore.Keyspace
