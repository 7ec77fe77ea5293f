import RedisCore.WatchedKeys

namespace RedisCore.Keyspace
open Option (some_ne_none)

variable {V : Type} {cfg : ServerConfig} {s s' : Server V} {d : ℕ} {k : Bytes}
variable {P : Prop} {n : ℕ} {T : Set (ℕ × Bytes)} {env : Env}

theorem dbAdd_sound (h : Sound cfg P n T s) (hd : Usable cfg d) (hnone : (s.dbs d).dict k = none) (v : V) :
    Yields True (dbAdd cfg s d k v) (fun s' => Sound cfg P n (insert (d, k) T) s' ∧ Alters d k s s' ∧
      Changed s' n d k ∧ (s'.dbs d).dict k = some v) := by
  have hadded : (dbAdd cfg s d k v) = .ok (if cfg.clusterEnabled then
      slotToKeyUpdateKey cfg (setDict s d k (some v)) k true else setDict s d k (some v)) := by
    unfold dbAdd
    rw [hnone]
  have halters : Alters d k s (if cfg.clusterEnabled then
      slotToKeyUpdateKey cfg (setDict s d k (some v)) k true else setDict s d k (some v)) := by
    have ha := setDict_alters s d k (some v)
    split_ifs
    · exact ⟨⟨ha.clients, ha.watchedKeys, ha.changes⟩, ha.other⟩
    · exact ha
  rw [hadded]
  refine ⟨⟨addKey_indexed h.indexed hd hnone v, h.watching.alters halters⟩, halters, ?_, ?_⟩
  · have hc := setDict_changed s d k (some v) h.watching.recorded
    split_ifs
    · exact hc
    · exact hc
  · have hv : ((setDict s d k (some v)).dbs d).dict k = some v := by
      rw [setDict_dict, if_pos ⟨rfl, rfl⟩]
    split_ifs
    · exact hv
    · exact hv

theorem dbOverwrite_sound (h : Sound cfg P n T s) (hsome : (s.dbs d).dict k ≠ none) (v : V) :
    Yields True (dbOverwrite s d k v) (fun s' => Sound cfg P n (insert (d, k) T) s' ∧ Alters d k s s' ∧
      Changed s' n d k ∧ (s'.dbs d).dict k = some v) := by
  have hset : dbOverwrite s d k v = .ok (setDict s d k (some v)) := by
    unfold dbOverwrite
    cases hdict : (s.dbs d).dict k with
    | none => exact absurd hdict hsome
    | some _ => rfl
  have halters := setDict_alters s d k (some v)
  rw [hset]
  refine ⟨⟨setKey_indexed h.indexed hsome v, h.watching.alters halters⟩, halters,
    setDict_changed s d k (some v) h.watching.recorded, ?_⟩
  rw [setDict_dict, if_pos ⟨rfl, rfl⟩]

structure Erased (cfg : ServerConfig) (d : ℕ) (k : Bytes) (s : Server V) (r : Server V × Bool) : Prop where
  indexed : Indexed cfg r.1
  alters : Alters d k s r.1
  gone : (r.1.dbs d).dict k = none
  deleted : r.2 = true ↔ (s.dbs d).dict k ≠ none
  changed : (s.dbs d).dict k ≠ none → ∀ n ≤ s.changes.length, Changed r.1 n d k
  unchanged : (s.dbs d).dict k = none → r.1 = s

theorem dbDelete_erased (h : Indexed cfg s) : Erased cfg d k s (dbDelete cfg s d k) := by
  cases hdict : (s.dbs d).dict k with
  | none =>
    have hexpires := h.expires d k hdict
    have hr : dbDelete cfg s d k = (s, false) := by
      unfold dbDelete
      rw [hexpires, if_neg (by decide)]
      dsimp only
      rw [hdict]
    rw [hr]
    refine ⟨h, Alters.refl s, hdict, ?_, fun hne => absurd hdict hne, fun _ => rfl⟩
    rw [hdict]
    exact ⟨fun hf => absurd hf Bool.false_ne_true, fun hne => absurd rfl hne⟩
  | some v =>
    have hsome : (s.dbs d).dict k ≠ none := by
      rw [hdict]
      exact some_ne_none v
    -- the expire time goes first
    have hunexpired : ∃ s1, (if ((s.dbs d).expires k).isSome then setExpires s d k none else s) = s1 ∧
        Indexed cfg s1 ∧ SameValues s s1 ∧ (s1.dbs d).expires k = none := by
      by_cases he : ((s.dbs d).expires k).isSome = true
      · refine ⟨_, rfl, ?_⟩
        rw [if_pos he]
        refine ⟨setExpires_indexed h (fun _ => rfl), setExpires_keeps s d k none, ?_⟩
        rw [setExpires_expires, if_pos ⟨rfl, rfl⟩]
      · refine ⟨_, rfl, ?_⟩
        rw [if_neg he]
        exact ⟨h, SameValues.refl s, Option.not_isSome_iff_eq_none.mp he⟩
    obtain ⟨s1, hs1, hindexed, hvalues, hnoexpire⟩ := hunexpired
    have hdict1 : (s1.dbs d).dict k ≠ none := by
      rw [hvalues.values]
      exact hsome
    have hr : dbDelete cfg s d k = (if cfg.clusterEnabled then
        slotToKeyUpdateKey cfg (setDict s1 d k none) k false else setDict s1 d k none, true) := by
      unfold dbDelete
      dsimp only
      rw [hs1]
      cases hd1 : (s1.dbs d).dict k with
      | none => exact absurd hd1 hdict1
      | some _ => rfl
    have halters : Alters d k s1 (if cfg.clusterEnabled then
        slotToKeyUpdateKey cfg (setDict s1 d k none) k false else setDict s1 d k none) := by
      have ha := setDict_alters s1 d k none
      split_ifs
      · exact ⟨⟨ha.clients, ha.watchedKeys, ha.changes⟩, ha.other⟩
      · exact ha
    rw [hr]
    refine ⟨removeKey_indexed hindexed hdict1 hnoexpire, hvalues.alters.trans halters, ?_,
      ⟨fun _ => hsome, fun _ => rfl⟩, fun _ n hn => ?_, fun hnone => absurd hnone hsome⟩
    · have hgone : ((setDict s1 d k none).dbs d).dict k = none := by
        rw [setDict_dict, if_pos ⟨rfl, rfl⟩]
      dsimp only
      split_ifs
      · exact hgone
      · exact hgone
    · have hc := setDict_changed s1 d k none (hn.trans hvalues.changes.length_le)
      dsimp only
      split_ifs
      · exact hc
      · exact hc

structure Deleted (cfg : ServerConfig) (P : Prop) (n : ℕ) (T : Set (ℕ × Bytes)) (d : ℕ) (k : Bytes)
    (s : Server V) (r : Server V × Bool) : Prop where
  sound : Sound cfg P n (insert (d, k) T) r.1
  alters : Alters d k s r.1
  gone : (r.1.dbs d).dict k = none
  deleted : r.2 = true ↔ (s.dbs d).dict k ≠ none
  changed : (s.dbs d).dict k ≠ none → Changed r.1 n d k
  unchanged : (s.dbs d).dict k = none → Sound cfg P n T r.1

theorem dbDelete_sound (h : Sound cfg P n T s) (d : ℕ) (k : Bytes) :
    Deleted cfg P n T d k s (dbDelete cfg s d k) := by
  have he := dbDelete_erased (d := d) (k := k) h.indexed
  refine ⟨⟨he.indexed, h.watching.alters he.alters⟩, he.alters, he.gone, he.deleted,
    fun hne => he.changed hne n h.watching.recorded, fun hnone => ?_⟩
  rw [he.unchanged hnone]
  exact h

theorem removeExpire_sound (h : Sound cfg P n T s) (hsome : (s.dbs d).dict k ≠ none) :
    Yields True (removeExpire s d k) (fun r => Sound cfg P n T r.1 ∧ SameValues s r.1 ∧
      (r.2 = true → Changed r.1 n d k)) := by
  unfold removeExpire
  cases hdict : (s.dbs d).dict k with
  | none => exact absurd hdict hsome
  | some v =>
    dsimp only
    have hkeeps := setExpires_keeps s d k none
    split_ifs
    · exact ⟨⟨setExpires_indexed h.indexed (fun _ => rfl), h.watching.sameValues hkeeps⟩, hkeeps,
        fun _ => changed_last rfl h.watching.recorded (oneKey_self d k)⟩
    · exact ⟨h, SameValues.refl s, fun hf => absurd hf Bool.false_ne_true⟩

theorem setExpire_sound (h : Sound cfg P n T s) (hsome : (s.dbs d).dict k ≠ none) (when : ℤ) :
    Yields True (setExpire s d k when) (fun s' => Sound cfg P n T s' ∧ SameValues s s' ∧
      Changed s' n d k) := by
  unfold setExpire
  cases hdict : (s.dbs d).dict k with
  | none => exact absurd hdict hsome
  | some v =>
    have hkeeps := setExpires_keeps s d k (some when)
    refine ⟨⟨setExpires_indexed h.indexed (fun hnone => ?_), h.watching.sameValues hkeeps⟩, hkeeps,
      changed_last rfl h.watching.recorded (oneKey_self d k)⟩
    exact absurd hnone hsome

theorem getExpire_yields (h : Indexed cfg s) : Yields True (getExpire s d k) (fun _ => True) := by
  unfold getExpire
  cases hexpires : (s.dbs d).expires k with
  | none => trivial
  | some t =>
    cases hdict : (s.dbs d).dict k with
    | none =>
      rw [h.expires d k hdict] at hexpires
      cases hexpires
    | some v => trivial

theorem keyIsExpired_yields (h : Indexed cfg s) :
    Yields True (keyIsExpired env s d k) (fun _ => True) := by
  unfold keyIsExpired
  exact (getExpire_yields h).bind (fun _ _ => trivial)

structure Looked (d : ℕ) (k : Bytes) (s s' : Server V) : Prop where
  changes : s.changes <+: s'.changes
  other : ∀ d' k', ¬ (d' = d ∧ k' = k) → (s'.dbs d').dict k' = (s.dbs d').dict k'

theorem Looked.refl (s : Server V) : Looked d k s s := ⟨List.prefix_rfl, fun _ _ _ => rfl⟩

theorem expireIfNeeded_sound (h : Sound cfg P n T s) :
    Yields True (expireIfNeeded cfg env s d k) (fun r => Sound cfg P n T r.1 ∧ Looked d k s r.1) := by
  unfold expireIfNeeded
  apply (keyIsExpired_yields h.indexed).bind
  intro expired _
  split_ifs
  · exact ⟨h, Looked.refl s⟩
  · exact ⟨h, Looked.refl s⟩
  · have hdel := dbDelete_sound h d k
    generalize dbDelete cfg s d k = r at hdel
    obtain ⟨s1, deleted⟩ := r
    dsimp only
    cases deleted with
    | false =>
      have hdict : (s.dbs d).dict k = none := by
        by_contra hne
        exact absurd (hdel.deleted.mpr hne) Bool.false_ne_true
      exact ⟨hdel.unchanged hdict, hdel.alters.changes, hdel.alters.other⟩
    | true =>
      have hdict := hdel.deleted.mp rfl
      refine ⟨hdel.sound.touch (hdel.changed hdict), ?_, ?_⟩
      · rw [if_pos rfl, touchWatchedKey_changes]
        exact hdel.alters.changes
      · rw [if_pos rfl, touchWatchedKey_dbs]
        exact hdel.alters.other

theorem lookupKeyWrite_sound (h : Sound cfg P n T s) :
    Yields True (lookupKeyWrite cfg env s d k) (fun r => Sound cfg P n T r.1 ∧ Looked d k s r.1 ∧
      r.2 = (r.1.dbs d).dict k) := by
  unfold lookupKeyWrite
  apply (expireIfNeeded_sound h).bind
  rintro ⟨s1, expired⟩ ⟨h1, hl⟩
  exact ⟨h1, hl, rfl⟩

theorem lookupKeyRead_sound (h : Sound cfg P n T s) :
    Yields True (lookupKeyRead cfg env s d k) (fun r => Sound cfg P n T r.1) := by
  unfold lookupKeyRead
  apply (expireIfNeeded_sound h).bind
  rintro ⟨s1, expired⟩ ⟨h1, -⟩
  exact h1

theorem activeExpire_sound (h : Sound cfg P n T s) :
    Sound cfg P n T (activeExpireCycleTryExpire cfg env s d k) := by
  unfold activeExpireCycleTryExpire
  cases hexpires : (s.dbs d).expires k with
  | none => exact h
  | some t =>
    dsimp only
    split_ifs
    · have hdict : (s.dbs d).dict k ≠ none := by
        intro hnone
        rw [h.indexed.expires d k hnone] at hexpires
        cases hexpires
      have hdel := dbDelete_sound h d k
      exact hdel.sound.touch (hdel.changed hdict)
    · exact h

theorem isNone_of_eq {o : Option V} (h : o = (s.dbs d).dict k) (hn : o.isNone = true) :
    (s.dbs d).dict k = none := h.symm.trans (Option.isNone_iff_eq_none.mp hn)

theorem putKey_sound (h : Sound cfg P n T s) (hd : Usable cfg d) {o : Option V}
    (ho : o = (s.dbs d).dict k) (v : V) :
    Yields True (if o.isNone then dbAdd cfg s d k v else dbOverwrite s d k v)
      (fun s' => Sound cfg P n (insert (d, k) T) s' ∧ Alters d k s s' ∧ Changed s' n d k ∧
        (s'.dbs d).dict k = some v) := by
  split_ifs with hn
  · exact dbAdd_sound h hd (isNone_of_eq ho hn) v
  · apply dbOverwrite_sound h _ v
    rw [← ho]
    exact fun hnone => hn (Option.isNone_iff_eq_none.mpr hnone)

theorem genericSetKey_sound (h : Sound cfg P n T s) (hd : Usable cfg d) (v : V) (keepttl : Bool) :
    Yields True (genericSetKey cfg env s d k v keepttl true)
      (fun s' => Sound cfg P n T s' ∧ (s'.dbs d).dict k = some v) := by
  unfold genericSetKey
  apply (lookupKeyWrite_sound h).bind
  rintro ⟨s1, o⟩ ⟨h1, -, ho⟩
  dsimp only at h1 ho ⊢
  apply (putKey_sound h1 hd ho v).bind
  rintro s2 ⟨h2, -, hc2, hv2⟩
  have hsome : (s2.dbs d).dict k ≠ none := by
    rw [hv2]
    exact some_ne_none v
  have hremove : Yields True (if keepttl then .ok s2 else Except.map Prod.fst (removeExpire s2 d k))
      (fun s3 => Sound cfg P n (insert (d, k) T) s3 ∧ SameValues s2 s3) := by
    split_ifs
    · exact ⟨h2, SameValues.refl s2⟩
    · have hr := removeExpire_sound h2 hsome
      cases hx : removeExpire s2 d k with
      | error e =>
        rw [hx] at hr
        exact hr
      | ok r =>
        rw [hx] at hr
        exact ⟨hr.1, hr.2.1⟩
  apply hremove.bind
  rintro s3 ⟨h3, hv3⟩
  refine ⟨h3.touch (hc2.mono hv3.changes), ?_⟩
  show ((touchWatchedKey s3 d k).dbs d).dict k = some v
  rw [touchWatchedKey_dbs, hv3.values, hv2]

theorem getCommand_sound (h : Sound cfg P n T s) :
    Yields True (getCommand cfg env s d k) (fun r => Sound cfg P n T r.1) := by
  unfold getCommand
  apply (lookupKeyRead_sound h).bind
  rintro ⟨s1, o⟩ h1
  exact h1

theorem setRefused_sound (h : Sound cfg P n T s) (flags : SetFlags) :
    Yields True (setRefused cfg env s d k flags) (fun r => Sound cfg P n T r.1) := by
  have hlookup : ∀ (s : Server V) (flag : Bool) (found : Option V → Bool), Sound cfg P n T s →
      Yields True (setRefused.lookupIf cfg env d k flag found s) (fun r => Sound cfg P n T r.1) := by
    intro s flag found hs
    unfold setRefused.lookupIf
    split_ifs
    · apply (lookupKeyWrite_sound hs).bind
      rintro ⟨s1, o⟩ ⟨h1, -, -⟩
      exact h1
    · exact hs
  unfold setRefused
  apply (hlookup s flags.nx Option.isSome h).bind
  rintro ⟨s1, nx⟩ h1
  dsimp only at h1 ⊢
  split_ifs
  · exact h1
  · exact hlookup s1 flags.xx Option.isNone h1

theorem setGenericCommand_sound (h : Sound cfg P n T s) (hd : Usable cfg d) (v : V) (flags : SetFlags)
    (expire : Option ℤ) :
    Yields True (setGenericCommand cfg env s d k v flags expire) (fun r => Sound cfg P n T r.1) := by
  unfold setGenericCommand
  split_ifs
  · exact h
  · apply (setRefused_sound h flags).bind
    rintro ⟨s1, refused⟩ h1
    dsimp only
    split_ifs
    · exact h1
    · apply (genericSetKey_sound h1 hd v flags.keepttl).bind
      rintro s2 ⟨h2, hv2⟩
      cases expire with
      | none => exact h2
      | some t =>
        have hsome : (s2.dbs d).dict k ≠ none := by
          rw [hv2]
          exact some_ne_none v
        apply (setExpire_sound h2 hsome (env.now + t)).bind
        rintro s3 ⟨h3, -, -⟩
        exact h3

theorem updateCommand_sound (h : Sound cfg P n T s) (hd : Usable cfg d) (f : Option V → Option V) :
    Yields True (updateCommand cfg env s d k f) (fun r => Sound cfg P n T r.1) := by
  unfold updateCommand
  apply (lookupKeyWrite_sound h).bind
  rintro ⟨s1, o⟩ ⟨h1, -, ho⟩
  dsimp only at h1 ho ⊢
  cases o with
  | none =>
    cases hf : f none with
    | none => exact h1
    | some v =>
      apply (dbAdd_sound h1 hd ho.symm v).bind
      rintro s2 ⟨h2, -, hc2, -⟩
      exact h2.touch hc2
  | some w =>
    have hsome : (s1.dbs d).dict k ≠ none := by
      rw [← ho]
      exact some_ne_none w
    cases hf : f (some w) with
    | none =>
      have hdel := dbDelete_sound h1 d k
      exact hdel.sound.touch (hdel.changed hsome)
    | some v =>
      apply (dbOverwrite_sound h1 hsome v).bind
      rintro s2 ⟨h2, -, hc2, -⟩
      exact h2.touch hc2

theorem delGenericCommand_sound (ks : List Bytes) : ∀ (s : Server V) (numdel : ℕ), Sound cfg P n T s →
    Yields True (delGenericCommand cfg env d ks s numdel) (fun r => Sound cfg P n T r.1) := by
  induction ks with
  | nil =>
    intro s numdel h
    exact h
  | cons k ks ih =>
    intro s numdel h
    unfold delGenericCommand
    apply (expireIfNeeded_sound h).bind
    rintro ⟨s1, expired⟩ ⟨h1, -⟩
    have hdel := dbDelete_sound h1 d k
    dsimp only
    generalize dbDelete cfg s1 d k = r at hdel
    obtain ⟨s2, deleted⟩ := r
    dsimp only
    cases deleted with
    | false =>
      apply ih
      apply hdel.unchanged
      by_contra hne
      exact absurd (hdel.deleted.mpr hne) Bool.false_ne_true
    | true => exact ih _ _ (hdel.sound.touch (hdel.changed (hdel.deleted.mp rfl)))

theorem expireGenericCommand_sound (h : Sound cfg P n T s) (when : ℤ) :
    Yields True (expireGenericCommand cfg env s d k when) (fun r => Sound cfg P n T r.1) := by
  unfold expireGenericCommand
  apply (lookupKeyWrite_sound h).bind
  rintro ⟨s1, o⟩ ⟨h1, -, ho⟩
  dsimp only at h1 ho ⊢
  cases o with
  | none => exact h1
  | some v =>
    have hsome : (s1.dbs d).dict k ≠ none := by
      rw [← ho]
      exact some_ne_none v
    dsimp only
    by_cases hpast : checkAlreadyExpired env when = true
    · rw [if_pos hpast]
      have hdel := dbDelete_sound h1 d k
      have hyes := hdel.deleted.mpr hsome
      generalize dbDelete cfg s1 d k = r at hdel hyes
      obtain ⟨s2, deleted⟩ := r
      dsimp only at hyes ⊢
      rw [if_pos hyes]
      exact hdel.sound.touch (hdel.changed hsome)
    · rw [if_neg hpast]
      apply (setExpire_sound h1 hsome when).bind
      rintro s2 ⟨h2, -, hc2⟩
      exact h2.settled.touch hc2

theorem persistCommand_sound (h : Sound cfg P n T s) :
    Yields True (persistCommand cfg env s d k) (fun r => Sound cfg P n T r.1) := by
  unfold persistCommand
  apply (lookupKeyWrite_sound h).bind
  rintro ⟨s1, o⟩ ⟨h1, -, ho⟩
  dsimp only at h1 ho ⊢
  cases o with
  | none => exact h1
  | some v =>
    have hsome : (s1.dbs d).dict k ≠ none := by
      rw [← ho]
      exact some_ne_none v
    apply (removeExpire_sound h1 hsome).bind
    rintro ⟨s2, removed⟩ ⟨h2, -, hc2⟩
    dsimp only at h2 hc2 ⊢
    cases removed with
    | false => exact h2
    | true => exact h2.settled.touch (hc2 rfl)

theorem moveKey_sound {d' : ℕ} {k' : Bytes} (h : Sound cfg P n (insert (d', k') T) s)
    (hd : Usable cfg d') (hne : ¬ (d = d' ∧ k = k')) (hsome : (s.dbs d).dict k ≠ none)
    (hnone : (s.dbs d').dict k' = none) (v : V) (expire : ℤ) (r : Reply V) :
    Yields True (do
      let s ← dbAdd cfg s d' k' v
      let s ← (if expire ≠ -1 then setExpire s d' k' expire else .ok s)
      let s := (dbDelete cfg s d k).1
      .ok (touchWatchedKey (touchWatchedKey s d k) d' k', r))
      (fun r => Sound cfg P n T r.1) := by
  apply (dbAdd_sound h hd hnone v).bind
  rintro s1 ⟨h1, ha1, hc1, hv1⟩
  rw [Set.insert_idem] at h1
  have hset : Yields True (if expire ≠ -1 then setExpire s1 d' k' expire else .ok s1)
      (fun s2 => Sound cfg P n (insert (d', k') T) s2 ∧ SameValues s1 s2) := by
    split_ifs
    · have hsome1 : (s1.dbs d').dict k' ≠ none := by
        rw [hv1]
        exact some_ne_none v
      exact (setExpire_sound h1 hsome1 expire).mono (fun s2 h2 => ⟨h2.1, h2.2.1⟩)
    · exact ⟨h1, SameValues.refl s1⟩
  apply hset.bind
  rintro s2 ⟨h2, hv2⟩
  have hsome2 : (s2.dbs d).dict k ≠ none := by
    rw [hv2.values, ha1.other d k hne]
    exact hsome
  have hdel := dbDelete_sound h2 d k
  have h3 := hdel.sound.touch (hdel.changed hsome2)
  apply h3.touch
  apply (hc1.mono hv2.changes).mono
  rw [touchWatchedKey_changes]
  exact hdel.alters.changes

theorem renameGenericCommand_sound (h : Sound cfg P n T s) (hd : Usable cfg d) (k' : Bytes) (nx : Bool) :
    Yields True (renameGenericCommand cfg env s d k k' nx) (fun r => Sound cfg P n T r.1) := by
  unfold renameGenericCommand
  apply (lookupKeyWrite_sound h).bind
  rintro ⟨s1, o⟩ ⟨h1, -, ho⟩
  dsimp only at h1 ho ⊢
  cases o with
  | none => exact h1
  | some v =>
    have hsome : (s1.dbs d).dict k ≠ none := by
      rw [← ho]
      exact some_ne_none v
    dsimp only
    by_cases hsame : k = k'
    · rw [if_pos hsame]
      exact h1
    · rw [if_neg hsame]
      apply (getExpire_yields h1.indexed).bind
      intro expire _
      apply (lookupKeyWrite_sound h1).bind
      rintro ⟨s2, o'⟩ ⟨h2, hl2, ho2⟩
      dsimp only at h2 hl2 ho2 ⊢
      have hne : ¬ (d = d ∧ k = k') := fun heq => hsame heq.2
      have hsome2 : (s2.dbs d).dict k ≠ none := by
        rw [hl2.other d k hne]
        exact hsome
      by_cases hnx : (o'.isSome && nx) = true
      · rw [if_pos hnx]
        exact h2
      rw [if_neg hnx]
      by_cases hover : o'.isSome = true
      · rw [if_pos hover]
        -- the key that is in the way is deleted
        have hdel := dbDelete_sound h2 d k'
        apply moveKey_sound hdel.sound hd hne _ hdel.gone
        rw [hdel.alters.other d k hne]
        exact hsome2
      · have hnone : (s2.dbs d).dict k' = none := by
          rw [← ho2]
          exact Option.not_isSome_iff_eq_none.mp hover
        rw [if_neg hover]
        exact moveKey_sound h2.settled hd hne hsome2 hnone v expire _

theorem moveCommand_sound (h : Sound cfg P n T s) (dst : ℕ) :
    Yields True (moveCommand cfg env s d dst k) (fun r => Sound cfg P n T r.1) := by
  unfold moveCommand
  by_cases hrefused : cfg.clusterEnabled = true ∨ cfg.dbnum ≤ dst ∨ d = dst
  · rw [if_pos hrefused]
    exact h
  · rw [if_neg hrefused]
    obtain ⟨hcluster, -, hdiffer⟩ := not_or.mp hrefused |>.imp_right not_or.mp
    apply (lookupKeyWrite_sound h).bind
    rintro ⟨s1, o⟩ ⟨h1, -, ho⟩
    dsimp only at h1 ho ⊢
    cases o with
    | none => exact h1
    | some v =>
      have hsome : (s1.dbs d).dict k ≠ none := by
        rw [← ho]
        exact some_ne_none v
      apply (getExpire_yields h1.indexed).bind
      intro expire _
      apply (lookupKeyWrite_sound h1).bind
      rintro ⟨s2, o'⟩ ⟨h2, hl2, ho2⟩
      dsimp only at h2 hl2 ho2 ⊢
      by_cases hthere : o'.isSome = true
      · rw [if_pos hthere]
        exact h2
      · rw [if_neg hthere]
        have hne : ¬ (d = dst ∧ k = k) := fun heq => hdiffer heq.1
        have hnone : (s2.dbs dst).dict k = none := by
          rw [← ho2]
          exact Option.not_isSome_iff_eq_none.mp hthere
        apply moveKey_sound h2.settled (fun hc => absurd hc hcluster) hne _ hnone
        rw [hl2.other d k hne]
        exact hsome

end RedisCore.Keyspace
