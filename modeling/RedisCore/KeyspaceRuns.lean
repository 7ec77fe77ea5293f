import RedisCore.WatchCommands
import Mathlib.Data.Set.Card

namespace RedisCore.Keyspace

open RaxSet

variable {V : Type} {cfg : ServerConfig} {s s' : Server V} {d : ℕ} {k : Bytes}
variable {P : Prop} {n : ℕ} {T : Set (ℕ × Bytes)} {env : Env} {c : ClientId}

def Settled (cfg : ServerConfig) (P : Prop) (s : Server V) : Prop :=
  Sound cfg P s.changes.length ∅ s

theorem Sound.settle (h : Sound cfg P n ∅ s) : Settled cfg P s := h.later

def QuietCall (cfg : ServerConfig) (s : Server V) : Command V → Prop
  | .swapdb id1 id2 => SwapUnseen cfg s id1 id2
  | _ => True

def QuietQueue (cfg : ServerConfig) (env : Env) (c : ClientId) : List (Command V) → Server V → Prop
  | [], _ => True
  | cmd :: commands, s => QuietCall cfg s cmd ∧
    ∀ s' r, call cfg env s c cmd = .ok (s', r) → QuietQueue cfg env c commands s'

variable (env c) in
theorem call_sound (h : Settled cfg P s) {cmd : Command V} (hq : P → QuietCall cfg s cmd) :
    Yields True (call cfg env s c cmd) (fun r => Settled cfg P r.1) := by
  have hd : Usable cfg (s.clients c).db := h.watching.usable c
  have hlater : ∀ r : Server V × Reply V, Sound cfg P s.changes.length ∅ r.1 → Settled cfg P r.1 :=
    fun r hr => hr.settle
  unfold call
  cases cmd with
  | get k => exact (getCommand_sound h).mono hlater
  | set k v flags expire => exact (setGenericCommand_sound h hd v flags expire).mono hlater
  | update k f => exact (updateCommand_sound h hd f).mono hlater
  | del ks => exact (delGenericCommand_sound ks s 0 h).mono hlater
  | expireAt k when => exact (expireGenericCommand_sound h when).mono hlater
  | persist k => exact (persistCommand_sound h).mono hlater
  | rename k k' nx => exact (renameGenericCommand_sound h hd k' nx).mono hlater
  | move k dbid => exact (moveCommand_sound h dbid).mono hlater
  | select id => exact (selectCommand_sound h id).settle
  | flushdb =>
    have hflush : Sound cfg P s.changes.length ∅ (emptyDbGeneric cfg s (some (s.clients c).db)) := by
      apply emptyDbGeneric_sound h
      intro d hsome
      cases hsome
      exact hd
    exact hflush.settle
  | flushall =>
    have hflush : Sound cfg P s.changes.length ∅ (emptyDbGeneric cfg s none) := by
      apply emptyDbGeneric_sound h
      intro d hnone
      cases hnone
    exact hflush.settle
  | swapdb id1 id2 => exact (swapdbCommand_sound h hq).settle
  | unwatch => exact (unwatchCommand_sound h).mono hlater

theorem execQueue_sound : ∀ (commands : List (Command V)) (s : Server V), Settled cfg P s →
    (P → QuietQueue cfg env c commands s) →
    Yields True (execQueue cfg env c commands s) (fun r => Settled cfg P r.1) := by
  intro commands
  induction commands with
  | nil =>
    intro s h _
    exact h
  | cons cmd commands ih =>
    intro s h hq
    unfold execQueue
    have hcall := call_sound env c h (fun hp => (hq hp).1)
    cases hr : call cfg env s c cmd with
    | error e =>
      rw [hr] at hcall
      exact hcall
    | ok r =>
      rw [hr] at hcall
      obtain ⟨s1, r1⟩ := r
      show Yields True (execQueue cfg env c commands s1 >>= _) _
      apply (ih s1 hcall (fun hp => (hq hp).2 s1 r1 hr)).bind
      rintro ⟨s2, rs⟩ h2
      exact h2

def QuietRequest (cfg : ServerConfig) (env : Env) (s : Server V) (c : ClientId) : Request V → Prop
  | .call cmd => (s.clients c).multi = false → QuietCall cfg s cmd
  | .exec => ∀ s', unwatchAllKeys s c = .ok s' → QuietQueue cfg env c (s.clients c).commands s'
  | _ => True

theorem execCommand_sound (h : Settled cfg P s) (hq : P → QuietRequest cfg env s c .exec) :
    Yields True (execCommand cfg env s c) (fun r => Settled cfg P r.1) := by
  unfold execCommand
  by_cases hmulti : (s.clients c).multi = false
  · rw [if_pos hmulti]
    exact h
  rw [if_neg hmulti]
  by_cases hflagged : (s.clients c).dirtyCas = true ∨ (s.clients c).dirtyExec = true
  · rw [if_pos hflagged]
    apply (discardTransaction_sound h).bind
    rintro s1 ⟨h1, -⟩
    exact h1.settle
  rw [if_neg hflagged]
  have hclean : (s.clients c).dirtyCas = false := Bool.eq_false_iff.mpr (fun hc => hflagged (Or.inl hc))
  have hunwatch := unwatchAllKeys_sound (c := c) h hclean
  cases hr : unwatchAllKeys s c with
  | error e =>
    rw [hr] at hunwatch
    exact hunwatch
  | ok s1 =>
    rw [hr] at hunwatch
    show Yields True (execQueue cfg env c (s.clients c).commands s1 >>= _) _
    apply (execQueue_sound _ s1 hunwatch.1.settle (fun hp => hq hp s1 hr)).bind
    rintro ⟨s2, rs⟩ h2
    apply (discardTransaction_sound h2).bind
    rintro s3 ⟨h3, -⟩
    exact h3.settle

theorem watchKeys_sound (ks : List Bytes) : ∀ s : Server V, Settled cfg P s →
    Settled cfg P (ks.foldl (fun s k => watchForKey env s c k) s) := by
  induction ks with
  | nil =>
    intro s h
    exact h
  | cons k ks ih =>
    intro s h
    exact ih _ (watchForKey_sound h k).1.settle

theorem processCommand_sound (h : Settled cfg P s) {req : Request V}
    (hq : P → QuietRequest cfg env s c req) :
    Yields True (processCommand cfg env s c req) (fun r => Settled cfg P r.1) := by
  have hset : ∀ client : Client V, client.watchedKeys = (s.clients c).watchedKeys →
      client.dirtyCas = (s.clients c).dirtyCas → client.db = (s.clients c).db →
      Settled cfg P (setClient s c client) := by
    intro client hkeys hdirty hdb
    apply Sound.settle
    apply h.client client hkeys hdirty
    · rw [hdb]
      exact h.watching.usable c
    · rw [hdb]
      exact h.watching.inRange c
  unfold processCommand
  cases req with
  | watch ks =>
    dsimp only
    split_ifs
    · exact h
    · exact watchKeys_sound ks s h
  | multi =>
    dsimp only
    split_ifs
    · exact h
    · exact hset { s.clients c with multi := true } rfl rfl rfl
  | discard =>
    dsimp only
    by_cases hmulti : (s.clients c).multi = false
    · rw [if_pos hmulti]
      exact h
    · rw [if_neg hmulti]
      apply (discardTransaction_sound h).bind
      rintro s1 ⟨h1, -⟩
      exact h1.settle
  | exec => exact execCommand_sound h hq
  | refused =>
    dsimp only
    split_ifs
    · exact hset { s.clients c with dirtyExec := true } rfl rfl rfl
    · exact h
  | call cmd =>
    dsimp only
    by_cases hmulti : (s.clients c).multi = false
    · rw [if_pos hmulti]
      exact call_sound env c h (fun hp => hq hp hmulti)
    · rw [if_neg hmulti]
      split_ifs
      · exact h
      · exact hset { s.clients c with commands := (s.clients c).commands ++ [cmd] } rfl rfl rfl

theorem head_eq_of_between {a b : UInt8} {xs as bs : Bytes} (hge : sdscmp (b :: xs) (a :: as) ≠ .lt)
    (hlt : sdscmp (b :: xs) (a :: bs) = .lt) :
    b = a ∧ sdscmp xs as ≠ .lt ∧ sdscmp xs bs = .lt := by
  rw [sdscmp_cons_cons] at hge hlt
  have h1 : ¬ b < a := by
    intro hba
    rw [if_pos hba] at hge
    exact hge rfl
  have h2 : ¬ a < b := by
    intro hab
    rw [if_neg h1, if_pos hab] at hlt
    cases hlt
  rw [if_neg h1, if_neg h2] at hge hlt
  exact ⟨UInt8.le_antisymm (UInt8.not_lt.mp h2) (UInt8.not_lt.mp h1), hge, hlt⟩

theorem take_two_of_between {a b : UInt8} {k y : Bytes} (hlen : 2 ≤ y.length)
    (hge : sdscmp y [a, b] ≠ .lt) (hle : y = a :: b :: k ∨ sdscmp y (a :: b :: k) = .lt) :
    y.take 2 = [a, b] := by
  rcases hle with rfl | hlt
  · rfl
  · match y, hlen with
    | a' :: b' :: y, _ =>
      obtain ⟨ha, hge', hlt'⟩ := head_eq_of_between hge hlt
      obtain ⟨hb, -, -⟩ := head_eq_of_between hge' hlt'
      rw [ha, hb]
      rfl

theorem raxSeekGe_slot (h : SlotIndexed cfg s) {hashslot : Slot} (hcount : s.slotsKeysCount hashslot ≠ 0) :
    ∃ k, raxSeekGe (slotBytes hashslot) s.slotsToKeys = some (slotKey cfg k) ∧
      cfg.keyHashSlot k = hashslot ∧ (s.dbs 0).dict k ≠ none := by
  have hpos : 0 < s.slotsToKeys.countP (ofSlot hashslot) := by
    apply Nat.pos_of_ne_zero
    intro hzero
    apply hcount
    rw [h.count, hzero]
    rfl
  obtain ⟨e, he, hslot⟩ := List.countP_pos_iff.mp hpos
  obtain ⟨k, hk, rfl⟩ := (h.mem e).mp he
  rw [ofSlot_slotKey] at hslot
  have hkslot : hashslot = cfg.keyHashSlot k := of_decide_eq_true hslot
  have hge : sdscmp (slotKey cfg k) (slotBytes hashslot) ≠ .lt := by
    unfold slotKey
    rw [← hkslot]
    unfold slotBytes
    simp only [List.cons_append, List.nil_append, sdscmp_cons_cons, UInt8.lt_irrefl, if_false]
    cases k with
    | nil => simp
    | cons x xs => simp
  obtain ⟨y, hy, hle⟩ := raxSeekGe_least h.ascending he hge
  obtain ⟨hmem, hyge⟩ := raxSeekGe_some hy
  obtain ⟨k', hk', rfl⟩ := (h.mem y).mp hmem
  have htake : (slotKey cfg k').take 2 = slotBytes hashslot := by
    unfold slotKey at hle
    rw [← hkslot] at hle
    exact take_two_of_between (by simp [slotKey, slotBytes]) hyge hle
  refine ⟨k', hy, ?_, hk'⟩
  exact slotBytes_injective htake

theorem delete_count (hc : cfg.clusterEnabled = true) {s1 : Server V} {v : V}
    (hv : (s1.dbs d).dict k = some v) (hcount : s1.slotsKeysCount = s.slotsKeysCount) :
    ((match (s1.dbs d).dict k with
      | none => (s1, false)
      | some _ => (if cfg.clusterEnabled then slotToKeyUpdateKey cfg (setDict s1 d k none) k false
        else setDict s1 d k none, true)).1).slotsKeysCount (cfg.keyHashSlot k) =
      s.slotsKeysCount (cfg.keyHashSlot k) - 1 := by
  rw [hv]
  dsimp only
  rw [if_pos hc]
  show Function.update s1.slotsKeysCount _ _ _ = _
  rw [Function.update_self, ← hcount]
  rfl

theorem dbDelete_count (hc : cfg.clusterEnabled = true) (hsome : (s.dbs d).dict k ≠ none) :
    (dbDelete cfg s d k).1.slotsKeysCount (cfg.keyHashSlot k) =
      s.slotsKeysCount (cfg.keyHashSlot k) - 1 := by
  obtain ⟨v, hv⟩ := Option.ne_none_iff_exists'.mp hsome
  unfold dbDelete
  dsimp only
  by_cases he : ((s.dbs d).expires k).isSome = true
  · rw [if_pos he]
    exact delete_count hc (by rw [setExpires_dict]; exact hv) rfl
  · rw [if_neg he]
    exact delete_count hc hv rfl

theorem delKeysLoop_spec (hc : cfg.clusterEnabled = true) (hashslot : Slot) :
    ∀ (fuel : ℕ) (s : Server V) (j : ℤ), Indexed cfg s →
      (s.slotsKeysCount hashslot).toNat < fuel →
      ∃ s', delKeysLoop cfg hashslot fuel s (toInt j) =
          .ok (some (s', toInt (j + (s.slotsKeysCount hashslot).toNat))) ∧
        Indexed cfg s' ∧ Keeps s s' ∧ ∀ d k, (s'.dbs d).dict k =
          if d = 0 ∧ cfg.keyHashSlot k = hashslot then none else (s.dbs d).dict k := by
  intro fuel
  induction fuel with
  | zero =>
    intro s j _ hfuel
    exact absurd hfuel (Nat.not_lt_zero _)
  | succ fuel ih =>
    intro s j h hfuel
    have hslots := h.slots hc
    unfold delKeysLoop
    by_cases hzero : s.slotsKeysCount hashslot = 0
    · rw [if_pos hzero, hzero, Int.toNat_zero, Nat.cast_zero, add_zero]
      refine ⟨s, rfl, h, Keeps.refl s, fun d k => ?_⟩
      split_ifs with hslot
      · -- no key of the slot is left
        by_contra hne
        have hk : (s.dbs 0).dict k ≠ none := by
          rw [← hslot.1]
          exact fun heq => hne heq
        have hmem := (hslots.mem (slotKey cfg k)).mpr ⟨k, hk, rfl⟩
        have hcount := hslots.count hashslot
        rw [hzero] at hcount
        have hnone := List.countP_eq_zero.mp (Int.ofNat_eq_zero.mp hcount.symm) _ hmem
        rw [ofSlot_slotKey] at hnone
        exact hnone (decide_eq_true hslot.2.symm)
      · rfl
    · rw [if_neg hzero]
      obtain ⟨k, hseek, hkslot, hk⟩ := raxSeekGe_slot hslots hzero
      rw [hseek]
      have hdrop : (slotKey cfg k).drop 2 = k := rfl
      dsimp only
      rw [hdrop]
      have herased := dbDelete_erased (d := 0) (k := k) h
      have hcount := dbDelete_count hc hk
      rw [hkslot] at hcount
      have hpos : 0 < s.slotsKeysCount hashslot := by
        have := hslots.count hashslot
        omega
      obtain ⟨s', hs', hindexed, hkeeps, hdict⟩ := ih (dbDelete cfg s 0 k).1 (j+1) herased.indexed
        (by rw [hcount]; omega)
      have hrounds : j + 1 + ((dbDelete cfg s 0 k).1.slotsKeysCount hashslot).toNat =
          j + (s.slotsKeysCount hashslot).toNat := by
        rw [hcount]
        omega
      rw [hrounds, ← toInt_add] at hs'
      refine ⟨s', hs', hindexed, herased.alters.toKeeps.trans hkeeps, fun d x => ?_⟩
      rw [hdict]
      split_ifs with hslot
      · rfl
      · apply herased.alters.other
        rintro ⟨hd, hx⟩
        exact hslot ⟨hd, by rw [hx, hkslot]⟩

theorem toInt_unsigned (n : ℕ) : (toInt n % 2^32).toNat = n % 2^32 := by
  have hmod : toInt n % ((2^32 : ℕ) : ℤ) = (n : ℤ) % ((2^32 : ℕ) : ℤ) := Int.bmod_emod
  omega

theorem delKeysInSlot_spec (hc : cfg.clusterEnabled = true) (h : Indexed cfg s) (hashslot : Slot) :
    ∃ s', delKeysInSlot cfg hashslot ((s.slotsKeysCount hashslot).toNat + 1) s =
        .ok (some (s', (s.slotsKeysCount hashslot).toNat % 2^32)) ∧
      Indexed cfg s' ∧ Keeps s s' ∧ ∀ d k, (s'.dbs d).dict k =
        if d = 0 ∧ cfg.keyHashSlot k = hashslot then none else (s.dbs d).dict k := by
  obtain ⟨s', hs', hrest⟩ := delKeysLoop_spec hc hashslot _ s 0 h (Nat.lt_succ_self _)
  refine ⟨s', ?_, hrest⟩
  have hstart : toInt 0 = 0 := rfl
  unfold delKeysInSlot
  rw [hstart, zero_add] at hs'
  rw [hs']
  simp only [Except.map, Option.map_some, toInt_unsigned]

def SlotUnseen (cfg : ServerConfig) (s : Server V) (hashslot : Slot) : Prop :=
  ∀ c, (s.clients c).dirtyCas = false → ∀ wk ∈ (s.clients c).watchedKeys,
    wk.db = 0 → cfg.keyHashSlot wk.key = hashslot → (s.dbs 0).dict wk.key = none

def QuietEvent (cfg : ServerConfig) (env : Env) (s : Server V) : Event V → Prop
  | .request c req => QuietRequest cfg env s c req
  | .delKeysInSlot hashslot => cfg.clusterEnabled = true → SlotUnseen cfg s hashslot
  | _ => True

variable (env) in
theorem stepEvent_sound (h : Settled cfg P s) {e : Event V} (hq : P → QuietEvent cfg env s e) :
    Yields True (stepEvent cfg env s e) (Settled cfg P) := by
  unfold stepEvent
  cases e with
  | request c req =>
    have hreq := processCommand_sound h hq
    dsimp only
    cases hr : processCommand cfg env s c req with
    | error e =>
      rw [hr] at hreq
      exact hreq
    | ok r =>
      rw [hr] at hreq
      exact hreq
  | disconnect c =>
    apply (unwatchAllKeys_yields h.watching.linked c).bind
    rintro s1 ⟨hlinked, hdbs, hchanges, hslots, hcount, hclients⟩
    have hself : (s1.clients c).watchedKeys = [] := by rw [hclients, Function.update_self]
    have hlinked' : Linked (setClient s1 c freshClient) := hlinked.client c freshClient hself.symm
    apply Sound.settle
    apply h.released c freshClient rfl rfl (fun _ => rfl) cfg.dbnum_pos hlinked' hdbs hchanges hslots hcount
    show Function.update s1.clients c _ = _
    rw [hclients, Function.update_idem]
  | activeExpire d k => exact (activeExpire_sound h).settle
  | delKeysInSlot hashslot =>
    dsimp only
    split_ifs with hc
    · obtain ⟨s', hs', hindexed, hkeeps, hdict⟩ := delKeysInSlot_spec hc h.indexed hashslot
      rw [hs']
      apply Sound.settle
      refine ⟨hindexed, h.watching.keeps hkeeps (fun hp c hdirty wk hwk => ?_)⟩
      right
      refine ⟨Set.notMem_empty _, ?_⟩
      show (s'.dbs wk.db).dict wk.key = (s.dbs wk.db).dict wk.key
      rw [hdict]
      split_ifs with hslot
      · have hunseen := hq hp hc c hdirty wk hwk hslot.1 hslot.2
        rw [hslot.1]
        exact hunseen.symm
      · rfl
    · exact h

def QuietRun (cfg : ServerConfig) : List (Env × Event V) → Server V → Prop
  | [], _ => True
  | e :: events, s => QuietEvent cfg e.1 s e.2 ∧
    ∀ s', stepEvent cfg e.1 s e.2 = .ok s' → QuietRun cfg events s'

theorem runEvents_sound : ∀ (events : List (Env × Event V)) (s : Server V), Settled cfg P s →
    (P → QuietRun cfg events s) → Yields True (runEvents cfg events s) (Settled cfg P) := by
  intro events
  induction events with
  | nil =>
    intro s h _
    exact h
  | cons e events ih =>
    intro s h hq
    unfold runEvents
    rw [List.foldlM_cons]
    have hstep := stepEvent_sound e.1 h (fun hp => (hq hp).1)
    cases hs : stepEvent cfg e.1 s e.2 with
    | error f =>
      rw [hs] at hstep
      exact hstep
    | ok s1 =>
      rw [hs] at hstep
      exact ih s1 hstep (fun hp => (hq hp).2 s1 hs)

variable (cfg) in
theorem emptyServer_settled : Settled cfg P (emptyServer : Server V) := by
  have hnil : ∀ c, ((emptyServer : Server V).clients c).watchedKeys = [] := fun _ => rfl
  refine ⟨emptyServer_indexed, ⟨fun _ _ => rfl, fun _ => cfg.dbnum_pos, fun c wk hwk => ?_,
    ⟨fun d k c => ?_, fun d k l hl => ?_, fun c => ?_⟩, fun c wk hwk => ?_, le_refl _, fun c hc => ?_,
    fun _ c _ wk hwk => ?_⟩⟩
  · rw [hnil] at hwk
    cases hwk
  · constructor
    · intro hm
      cases hm
    · rintro ⟨wk, hwk, -⟩
      rw [hnil] at hwk
      cases hwk
  · cases hl
  · rw [hnil]
    exact List.Pairwise.nil
  · rw [hnil] at hwk
    cases hwk
  · cases hc
  · rw [hnil] at hwk
    cases hwk

theorem SlotIndexed.count_eq (h : SlotIndexed cfg s) (hashslot : Slot) :
    {k | (s.dbs 0).dict k ≠ none ∧ cfg.keyHashSlot k = hashslot}.Finite ∧
    s.slotsKeysCount hashslot =
      ({k | (s.dbs 0).dict k ≠ none ∧ cfg.keyHashSlot k = hashslot}.ncard : ℤ) := by
  let entries := s.slotsToKeys.filter (ofSlot hashslot)
  have hnodup : entries.Nodup := h.ascending.nodup.filter _
  have himage : slotKey cfg '' {k | (s.dbs 0).dict k ≠ none ∧ cfg.keyHashSlot k = hashslot} =
      {e | e ∈ entries} := by
    ext e
    simp only [Set.mem_image, Set.mem_ofPred_eq, entries, List.mem_filter, h.mem]
    constructor
    · rintro ⟨k, ⟨hk, hslot⟩, rfl⟩
      exact ⟨⟨k, hk, rfl⟩, by rw [ofSlot_slotKey]; exact decide_eq_true hslot.symm⟩
    · rintro ⟨⟨k, hk, rfl⟩, hslot⟩
      rw [ofSlot_slotKey] at hslot
      exact ⟨k, ⟨hk, (of_decide_eq_true hslot).symm⟩, rfl⟩
  have hinjective : Function.Injective (slotKey cfg) := fun _ _ heq => slotKey_injective heq
  have hfinite : (slotKey cfg '' {k | (s.dbs 0).dict k ≠ none ∧ cfg.keyHashSlot k = hashslot}).Finite := by
    rw [himage]
    exact List.finite_toSet entries
  refine ⟨hfinite.of_finite_image hinjective.injOn, ?_⟩
  rw [h.count, ← Set.ncard_image_of_injective _ hinjective, himage]
  have hcard : {e | e ∈ entries}.ncard = entries.length := by
    rw [← List.toFinset_card_of_nodup hnodup, ← Set.ncard_coe_finset]
    congr 1
    ext e
    simp
  rw [hcard, List.countP_eq_length_filter]

/-- No key was ever added or deleted that is too long for a node of the tree. -/
def KeysFit (s : Server V) : Prop :=
  ∀ change ∈ s.changes, ∀ d k, change d k = true → k.length + 2 ≤ RAX_NODE_MAX_SIZE

theorem KeysFit.slotsToKeys (hfit : KeysFit s) (h : Indexed cfg s) (hc : cfg.clusterEnabled = true) :
    ∀ e ∈ s.slotsToKeys, e.length ≤ RAX_NODE_MAX_SIZE := by
  intro e he
  obtain ⟨k, hk, rfl⟩ := ((h.slots hc).mem e).mp he
  obtain ⟨d, change, hchange, hkey⟩ := h.recorded 0 k hk
  rw [List.drop_zero] at hchange
  have hlen : (slotKey cfg k).length = k.length + 2 := rfl
  rw [hlen]
  exact hfit change hchange d k hkey

/-- No assertion fails in any run whose keys fit in a node of the tree, the expire times are those of keys,
in cluster mode the index has one entry for each key and the number of keys of each slot, and
`delKeysInSlot` ends after it has deleted the keys of the slot; it returns their number if and only if that
is an `unsigned int`. -/
theorem keyspace_indexes (cfg : ServerConfig) (events : List (Env × Event V))
    (hfit : ∀ s, runEvents cfg events emptyServer = .ok s → KeysFit s) :
    ∃ s, runEvents cfg events emptyServer = .ok s ∧
      (∀ d k, (s.dbs d).expires k ≠ none → (s.dbs d).dict k ≠ none) ∧
      (cfg.clusterEnabled = true →
        (∀ d, d ≠ 0 → ∀ k, (s.dbs d).dict k = none) ∧
        s.slotsToKeys.Nodup ∧
        (∀ e, e ∈ s.slotsToKeys ↔ ∃ k, (s.dbs 0).dict k ≠ none ∧ e = slotKey cfg k) ∧
        (∀ e ∈ s.slotsToKeys, e.length ≤ RAX_NODE_MAX_SIZE) ∧
        ∀ hashslot,
          {k | (s.dbs 0).dict k ≠ none ∧ cfg.keyHashSlot k = hashslot}.Finite ∧
          s.slotsKeysCount hashslot =
            ({k | (s.dbs 0).dict k ≠ none ∧ cfg.keyHashSlot k = hashslot}.ncard : ℤ) ∧
          ∃ fuel s' n, delKeysInSlot cfg hashslot fuel s = .ok (some (s', n)) ∧
            (∀ k, (s'.dbs 0).dict k = if cfg.keyHashSlot k = hashslot then none else (s.dbs 0).dict k) ∧
            (n = {k | (s.dbs 0).dict k ≠ none ∧ cfg.keyHashSlot k = hashslot}.ncard ↔
              {k | (s.dbs 0).dict k ≠ none ∧ cfg.keyHashSlot k = hashslot}.ncard < 2^32)) := by
  have hrun := runEvents_sound (P := False) events emptyServer (emptyServer_settled cfg)
    (fun hf => hf.elim)
  obtain ⟨s, hs, hsettled⟩ := hrun.total trivial
  refine ⟨s, hs, fun d k hne hnone => hne (hsettled.indexed.expires d k hnone), fun hc => ?_⟩
  have hslots := hsettled.indexed.slots hc
  refine ⟨hsettled.indexed.onlyZero hc, hslots.ascending.nodup, hslots.mem,
    (hfit s hs).slotsToKeys hsettled.indexed hc, fun hashslot => ?_⟩
  obtain ⟨hfinite, hcount⟩ := hslots.count_eq hashslot
  refine ⟨hfinite, hcount, ?_⟩
  obtain ⟨s', hs', -, -, hdict⟩ := delKeysInSlot_spec hc hsettled.indexed hashslot
  rw [hcount, Int.toNat_natCast] at hs'
  refine ⟨_, s', _, hs', fun k => ?_, ?_⟩
  · rw [hdict]
    simp
  · exact Nat.mod_eq_iff_lt (by norm_num)

def slotConfig : ServerConfig :=
  { dbnum := 4
    dbnum_pos := Nat.zero_lt_succ 3
    clusterEnabled := true
    keyHashSlot := fun _ => 0 }

def atTime (now : ℤ) : Env :=
  { now := now
    slave := false
    loading := false }

def plainSet : SetFlags :=
  { nx := false
    xx := false
    keepttl := false }

def renamedRun : List (Env × Event ℕ) :=
  [(atTime 0, .request 0 (.call (.set [97] 1 plainSet (some 5)))),
    (atTime 0, .request 0 (.call (.set [98] 2 plainSet none))),
    (atTime 0, .request 0 (.call (.rename [97] [99] false))),
    (atTime 9, .activeExpire 0 [99]),
    (atTime 9, .request 0 (.call (.set [97] 3 plainSet none)))]

theorem keyspace_indexes_renamed : ∃ s fuel s', runEvents slotConfig renamedRun emptyServer = .ok s ∧
    delKeysInSlot slotConfig 0 fuel s = .ok (some (s', 2)) ∧ ∀ k, (s'.dbs 0).dict k = none := by
  have hfit : ∀ s, runEvents slotConfig renamedRun emptyServer = .ok s → KeysFit s := by
    intro s hs change hchange d k hk
    have hshort : ∀ change ∈ s.changes, ∃ d, ∃ b : UInt8, change = oneKey d [b] := by
      cases hs
      intro change hchange
      fin_cases hchange
      all_goals exact ⟨_, _, rfl⟩
    obtain ⟨d', b, rfl⟩ := hshort change hchange
    have hkey : k = [b] := of_decide_eq_true (Bool.and_elim_right hk)
    rw [hkey, List.length_singleton]
    unfold RAX_NODE_MAX_SIZE
    norm_num
  obtain ⟨s, hs, -, hcluster⟩ := keyspace_indexes slotConfig renamedRun hfit
  obtain ⟨-, -, -, -, hslot⟩ := hcluster rfl
  obtain ⟨-, hcount, fuel, s', n, hdel, hgone, hn⟩ := hslot 0
  have htwo : s.slotsKeysCount 0 = 2 := by
    cases hs
    rfl
  rw [htwo] at hcount
  generalize {k | (s.dbs 0).dict k ≠ none ∧ slotConfig.keyHashSlot k = 0}.ncard = m at hcount hn
  obtain rfl : m = 2 := by omega
  refine ⟨s, fuel, s', hs, ?_, fun k => ?_⟩
  · rw [hdel, hn.mpr (by norm_num)]
  · rw [hgone]
    exact if_pos rfl

/-- A key of the slot 0. -/
def tagKey (i : ℕ) : Bytes := text "\x7b06S\x7d" ++ decimal i

theorem tagKey_injective {i j : ℕ} (hi : i < 2^63) (hj : j < 2^63) (h : tagKey i = tagKey j) : i = j := by
  have heq := congrArg string2ll (List.append_cancel_left h)
  rw [string2ll_decimal (by omega) (by omega), string2ll_decimal (by omega) (by omega)] at heq
  exact_mod_cast Option.some.inj heq

def fillRun (n : ℕ) : List (Env × Event ℕ) :=
  (List.range n).map (fun i => (atTime 0, .request 0 (.call (.set (tagKey i) 0 plainSet none))))

structure Filled (n : ℕ) (s : Server ℕ) : Prop where
  db : (s.clients 0).db = 0
  multi : (s.clients 0).multi = false
  unwatched : ∀ k, s.watchedKeys 0 k = none
  unexpired : ∀ k, (s.dbs 0).expires k = none
  fresh : ∀ i, n ≤ i → i < 2^63 → (s.dbs 0).dict (tagKey i) = none
  count : s.slotsKeysCount 0 = n

theorem Filled.next {n : ℕ} {s : Server ℕ} (h : Filled n s) (hn : n < 2^63) : ∃ s',
    stepEvent slotConfig (atTime 0) s (.request 0 (.call (.set (tagKey n) 0 plainSet none))) = .ok s' ∧
      Filled (n+1) s' := by
  refine ⟨slotToKeyUpdateKey slotConfig (setDict s 0 (tagKey n) (some 0)) (tagKey n) true, ?_, ?_⟩
  · have hfresh := h.fresh n (le_refl n) hn
    have hlookup : lookupKeyWrite slotConfig (atTime 0) s 0 (tagKey n) = .ok (s, none) := by
      unfold lookupKeyWrite expireIfNeeded keyIsExpired getExpire
      rw [h.unexpired, ← hfresh]
      rfl
    have hadd : dbAdd slotConfig s 0 (tagKey n) 0 =
        .ok (slotToKeyUpdateKey slotConfig (setDict s 0 (tagKey n) (some 0)) (tagKey n) true) := by
      unfold dbAdd
      rw [hfresh]
      rfl
    have hremove : ∀ s1 : Server ℕ, (s1.dbs 0).dict (tagKey n) = some 0 → (s1.dbs 0).expires (tagKey n) = none →
        removeExpire s1 0 (tagKey n) = .ok (s1, false) := by
      intro s1 hdict hexpires
      unfold removeExpire
      rw [hdict, hexpires]
      rfl
    have htouch : ∀ s1 : Server ℕ, s1.watchedKeys = s.watchedKeys → touchWatchedKey s1 0 (tagKey n) = s1 := by
      intro s1 hsame
      unfold touchWatchedKey
      rw [hsame, h.unwatched]
    have hset : genericSetKey slotConfig (atTime 0) s 0 (tagKey n) 0 false true =
        .ok (slotToKeyUpdateKey slotConfig (setDict s 0 (tagKey n) (some 0)) (tagKey n) true) := by
      unfold genericSetKey
      rw [hlookup]
      show (dbAdd slotConfig s 0 (tagKey n) 0 >>= _) = _
      rw [hadd]
      show (Except.map Prod.fst (removeExpire _ 0 (tagKey n)) >>= _) = _
      rw [hremove]
      · exact congrArg Except.ok (htouch _ rfl)
      · show ((setDict s 0 (tagKey n) (some 0)).dbs 0).dict (tagKey n) = _
        rw [setDict_dict, if_pos ⟨rfl, rfl⟩]
      · show ((setDict s 0 (tagKey n) (some 0)).dbs 0).expires (tagKey n) = _
        rw [setDict_expires]
        exact h.unexpired _
    unfold stepEvent processCommand
    dsimp only
    rw [if_pos h.multi]
    show Except.map Prod.fst (setGenericCommand slotConfig (atTime 0) s (s.clients 0).db (tagKey n) 0 plainSet none) = _
    rw [h.db]
    show Except.map Prod.fst (genericSetKey slotConfig (atTime 0) s 0 (tagKey n) 0 false true >>= _) = _
    rw [hset]
    rfl
  · refine ⟨h.db, h.multi, h.unwatched, fun k => ?_, fun i hi hi' => ?_, ?_⟩
    · show ((setDict s 0 (tagKey n) (some 0)).dbs 0).expires k = none
      rw [setDict_expires]
      exact h.unexpired k
    · show ((setDict s 0 (tagKey n) (some 0)).dbs 0).dict (tagKey i) = none
      rw [setDict_dict, if_neg]
      · exact h.fresh i (Nat.le_of_succ_le hi) hi'
      · rintro ⟨-, heq⟩
        have := tagKey_injective hi' hn heq
        omega
    · show Function.update s.slotsKeysCount 0 _ 0 = _
      rw [Function.update_self]
      show s.slotsKeysCount 0 + 1 = _
      rw [h.count, Nat.cast_succ]

theorem fillRun_filled (n : ℕ) (hn : n ≤ 2^63) :
    ∃ s, runEvents slotConfig (fillRun n) emptyServer = .ok s ∧ Filled n s := by
  induction n with
  | zero => exact ⟨emptyServer, rfl, rfl, rfl, fun _ => rfl, fun _ => rfl, fun _ _ _ => rfl, rfl⟩
  | succ n ih =>
    obtain ⟨s, hs, h⟩ := ih (Nat.le_of_succ_le hn)
    obtain ⟨s', hs', h'⟩ := h.next hn
    refine ⟨s', ?_, h'⟩
    unfold runEvents fillRun at hs ⊢
    rw [List.range_succ, List.map_append, List.foldlM_append, hs]
    show stepEvent _ _ _ _ >>= _ = _
    rw [hs']
    rfl

/-- The int wraps when there are 2^32 keys in the slot. -/
theorem delKeysInSlot_wraps : ∃ s fuel s', runEvents slotConfig (fillRun (2^32)) emptyServer = .ok s ∧
    {k | (s.dbs 0).dict k ≠ none ∧ slotConfig.keyHashSlot k = 0}.ncard = 2^32 ∧
    delKeysInSlot slotConfig 0 fuel s = .ok (some (s', 0)) := by
  obtain ⟨n, hn⟩ : ∃ n, n = 2^32 := ⟨_, rfl⟩
  rw [← hn]
  obtain ⟨s, hs, hfilled⟩ := fillRun_filled n (by omega)
  have hsettled := (runEvents_sound (P := False) (fillRun n) emptyServer (emptyServer_settled slotConfig)
    (fun hf => hf.elim)).of_ok hs
  obtain ⟨s', hs', -⟩ := delKeysInSlot_spec rfl hsettled.indexed 0
  have hcount := ((hsettled.indexed.slots rfl).count_eq 0).2
  rw [hfilled.count] at hcount hs'
  have hzero : n % 2^32 = 0 := by rw [hn, Nat.mod_self]
  rw [Int.toNat_natCast, hzero] at hs'
  exact ⟨s, _, s', hs, by exact_mod_cast hcount.symm, hs'⟩

end RedisCore.Keyspace
