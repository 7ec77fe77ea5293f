import RedisCore.SetSteps

namespace RedisCore.Collection

variable {env : Env} {db db1 : RedisDb}

theorem lookupKeyByPattern_purged (db : RedisDb) (pattern subst : Bytes) :
    Purged env db (lookupKeyByPattern env db pattern subst).1 := by
  unfold lookupKeyByPattern lookupKeyRead
  split_ifs
  · exact Purged.refl
  · split
    · exact Purged.refl
    · dsimp only
      split
      · exact purged_expireIfNeeded _ _ _
      · exact purged_expireIfNeeded _ _ _
      · exact purged_expireIfNeeded _ _ _

theorem sortByValue_purged (o : SortOptions) (db : RedisDb) (obj : Bytes) :
    Purged env db (sortByValue env o db obj).1 := by
  unfold sortByValue
  cases o.sortby with
  | none => exact Purged.refl
  | some pattern => exact lookupKeyByPattern_purged db pattern obj

theorem sortScores_fst (l : Libc) (o : SortOptions) (obj : Bytes) (objs : List Bytes) (db : RedisDb) :
    (sortScores l env o (obj :: objs) db).1 =
      (sortScores l env o objs (sortByValue env o db obj).1).1 := by
  simp only [sortScores]
  split
  · rfl
  · split_ifs <;> rfl

theorem sortScores_purged (l : Libc) (o : SortOptions) : ∀ (objs : List Bytes) (db : RedisDb),
    Purged env db (sortScores l env o objs db).1 := by
  intro objs
  induction objs with
  | nil => exact fun db => Purged.refl
  | cons obj objs ih =>
    intro db
    rw [sortScores_fst]
    exact (sortByValue_purged o db obj).trans (ih _)

theorem sortScores_length (l : Libc) (o : SortOptions) : ∀ (objs : List Bytes) (db : RedisDb),
    (sortScores l env o objs db).2.1.length = objs.length := by
  intro objs
  induction objs with
  | nil => exact fun db => rfl
  | cons obj objs ih =>
    intro db
    have hlen : (sortScores l env o (obj :: objs) db).2.1.length =
        (sortScores l env o objs (sortByValue env o db obj).1).2.1.length+1 := by
      simp only [sortScores]
      split
      · rfl
      · split_ifs <;> rfl
    rw [hlen, ih, List.length_cons]

theorem sortVector_spec (l : Libc) (o : SortOptions) (objs : List Bytes) (db : RedisDb) :
    Purged env db (sortVector l env o objs db).1 ∧
      (sortVector l env o objs db).2.1.length = objs.length := by
  unfold sortVector
  by_cases hd : o.dontsort = true
  · rw [if_pos hd]
    exact ⟨Purged.refl, rfl⟩
  · rw [if_neg hd]
    refine ⟨sortScores_purged l o objs db, ?_⟩
    dsimp only
    rw [List.length_map, List.length_mergeSort, sortScores_length]

theorem sortGets_spec (obj : Bytes) : ∀ (gets : List Bytes) (db : RedisDb),
    Purged env db (sortGets env obj gets db).1 ∧ (sortGets env obj gets db).2.length = gets.length := by
  intro gets
  induction gets with
  | nil => exact fun db => ⟨Purged.refl, rfl⟩
  | cons pattern gets ih =>
    intro db
    obtain ⟨hp, hlen⟩ := ih (lookupKeyByPattern env db pattern obj).1
    exact ⟨(lookupKeyByPattern_purged db pattern obj).trans hp, congrArg (· + 1) hlen⟩

theorem sortOutput_spec (gets : List Bytes) : ∀ (objs : List Bytes) (db : RedisDb),
    Purged env db (sortOutput env gets objs db).1 ∧
      (objs ≠ [] → (sortOutput env gets objs db).2 ≠ []) := by
  intro objs
  induction objs with
  | nil => exact fun db => ⟨Purged.refl, fun h => absurd rfl h⟩
  | cons obj objs ih =>
    intro db
    simp only [sortOutput]
    by_cases hgets : gets = []
    · rw [if_pos hgets]
      obtain ⟨hp, -⟩ := ih db
      exact ⟨hp, fun _ => List.cons_ne_nil _ _⟩
    · rw [if_neg hgets]
      obtain ⟨hp, hlen⟩ := @sortGets_spec env obj gets db
      obtain ⟨hrest, -⟩ := ih (sortGets env obj gets db).1
      refine ⟨hp.trans hrest, fun _ hnil => hgets ?_⟩
      have hvs := (List.append_eq_nil_iff.mp hnil).1
      rw [hvs] at hlen
      exact List.eq_nil_of_length_eq_zero hlen.symm

def LimitsFit (o : SortOptions) (vectorlen : ℤ) : Prop :=
  o.limitCount < 0 ∨ vectorlen ≤ o.limitStart ∨ max 0 o.limitStart + o.limitCount ≤ 2^63

variable {o : SortOptions} {isSet : Bool} {start stop : ℤ}

theorem sortLimits_spec {vectorlen : ℤ} (hfit : LimitsFit o vectorlen) (hint : vectorlen < 2^31) :
    (sortLimits o vectorlen).2 < vectorlen ∧ (sortLimits o vectorlen).1 ≤ (sortLimits o vectorlen).2+1 ∧
      ((sortLimits o vectorlen).1 ≤ (sortLimits o vectorlen).2 → 0 ≤ (sortLimits o vectorlen).1) := by
  unfold LimitsFit at hfit
  have hstop : 0 ≤ o.limitCount → (if o.limitStart < 0 then 0 else o.limitStart) < vectorlen →
      toLong ((if o.limitStart < 0 then 0 else o.limitStart)+o.limitCount-1) =
        (if o.limitStart < 0 then 0 else o.limitStart)+o.limitCount-1 := by
    intro hcount hstart
    apply toLong_of_fits
    · split_ifs <;> omega
    · split_ifs at hstart ⊢ <;> omega
  unfold sortLimits
  dsimp only
  generalize hs : (if o.limitStart < 0 then 0 else o.limitStart) = start at hstop ⊢
  have hstart : 0 ≤ start := by
    rw [← hs]
    split_ifs <;> omega
  by_cases hcount : o.limitCount < 0
  · rw [if_pos hcount]
    split_ifs <;> dsimp only at * <;> omega
  · rw [if_neg hcount]
    by_cases hge : start ≥ vectorlen
    · rw [if_pos hge]
      dsimp only
      split_ifs <;> omega
    · rw [if_neg hge]
      have heq := hstop (by omega) (by omega)
      dsimp only
      rw [heq]
      split_ifs <;> omega

theorem sortLoad_yields {es : List Bytes} (hfit : LimitsFit o (toInt es.length)) :
    Yields (es.length < 2^31) (sortLoad o isSet es) (fun l =>
      l.start ≤ l.stop+1 ∧ (l.start ≤ l.stop → 0 ≤ l.start ∧ l.stop < l.objs.length)) := by
  obtain ⟨hstop, hle, hstart⟩ := sortLimits_spec hfit (toInt_lt _)
  have hint := toInt_lt es.length
  have hlen : es.length < 2^31 → toInt es.length = es.length := by
    intro h
    exact toInt_of_fits (by omega) (by omega)
  unfold sortLoad
  dsimp only
  generalize toInt es.length = vectorlen at *
  rcases hlimits : sortLimits o vectorlen with ⟨start, stop⟩
  rw [hlimits] at hstop hle hstart
  dsimp only at *
  by_cases hdirect : (!isSet && o.dontsort) = true
  · rw [hdirect]
    simp only [Bool.true_and, if_true]
    by_cases hrange : stop ≥ start
    · have hnew : (if (start ≠ 0 || stop ≠ vectorlen-1) = true then toInt (toLong (stop-start+1))
          else vectorlen) = stop-start+1 := by
        have h0 := hstart hrange
        split_ifs with hcond
        · rw [toLong_of_fits (by omega) (by omega), toInt_of_fits (by omega) (by omega)]
        · simp only [ne_eq, Bool.or_eq_true, decide_eq_true_eq, not_or, not_not] at hcond
          omega
      have hside : (if o.desc = true then es.reverse else es).length = es.length := by
        split_ifs
        · exact List.length_reverse
        · rfl
      generalize (if o.desc = true then es.reverse else es) = side at hside ⊢
      have h0 := hstart hrange
      rw [hnew, if_neg (by omega), if_pos hrange]
      dsimp only
      by_cases hj : (((side.drop start.toNat).take (stop-start+1).toNat).length : ℤ) = stop-start+1
      · rw [if_neg (not_not.mpr hj)]
        show 0 ≤ stop-start+1 ∧ (0 ≤ stop-start → 0 ≤ 0 ∧ stop-start < _)
        rw [hj]
        exact ⟨by omega, fun _ => ⟨le_refl 0, by omega⟩⟩
      · rw [if_pos hj]
        intro hsmall
        rw [hlen hsmall] at hstop
        apply hj
        rw [List.length_take, List.length_drop, hside]
        omega
    · rw [if_neg hrange]
      have hempty : start = stop+1 := by omega
      have hzero : toInt (toLong (stop-start+1)) = 0 := by
        rw [show stop-start+1 = 0 by omega]
        rfl
      rw [hzero]
      split_ifs with hcond hneg hj hneg hj
      · omega
      · exact fun _ => hj rfl
      · exact ⟨by omega, fun h => absurd h hrange⟩
      · intro hsmall
        rw [hlen hsmall] at hneg
        omega
      · intro hsmall
        simp only [ne_eq, Bool.or_eq_true, decide_eq_true_eq, not_or, not_not] at hcond
        apply hj
        show (0 : ℤ) = vectorlen
        omega
      · exact ⟨by omega, fun h => absurd h hrange⟩
  · rw [Bool.not_eq_true] at hdirect
    rw [hdirect]
    simp only [Bool.false_and, Bool.false_eq_true, if_false]
    split_ifs with hneg hj
    · intro hsmall
      rw [hlen hsmall] at hneg
      omega
    · exact fun hsmall => hj (hlen hsmall).symm
    · rw [not_not] at hj
      refine ⟨hle, fun h => ⟨hstart h, ?_⟩⟩
      show stop < (es.length : ℤ)
      omega

theorem sortRange_yields {objs : List Bytes} (h : start ≤ stop → 0 ≤ start ∧ stop < objs.length) :
    Yields True (sortRange objs start stop) (fun r => start ≤ stop → r ≠ []) := by
  unfold sortRange
  by_cases hlt : stop < start
  · rw [if_pos hlt]
    exact fun hle => absurd hle (not_le.mpr hlt)
  · rw [if_neg hlt]
    obtain ⟨h0, hstop⟩ := h (not_lt.mp hlt)
    rw [if_neg (by omega)]
    intro hle
    apply List.length_pos_iff.mp
    rw [List.length_take, List.length_drop]
    omega

theorem sortOutputLen_eq_zero (h : start = stop+1) : sortOutputLen o start stop = 0 := by
  unfold sortOutputLen
  rw [show stop-start+1 = 0 by omega]
  split_ifs <;> simp

theorem sortStore_good (hn : NonEmpty db1) (storekey : Bytes) {outputlen : ℤ}
    {output : List (Option Bytes)} (h : outputlen ≠ 0 → output ≠ []) :
    Yields True (sortStore env db1 storekey outputlen output) (Good env db) := by
  unfold sortStore
  by_cases hlen : outputlen ≠ 0
  · rw [if_pos hlen]
    have hlist : Value.NonEmpty (.list (output.map (fun v => v.getD []))) := by
      intro hnil
      exact h hlen (List.map_eq_nil_iff.mp hnil)
    apply (setKey_yields hn storekey hlist).bind
    exact fun db2 hn2 => good_changed hn2 (isError_int _)
  · rw [if_neg hlen]
    exact good_changed (hn.dbDelete storekey) (isError_int _)

theorem lookupKeyRead_eq (env : Env) (db : RedisDb) (k : Bytes) :
    lookupKeyRead env db k = lookupKeyWrite env db k := rfl

def LimitsOk (cfg : ServerConfig) (env : Env) (argv : List Bytes) (db : RedisDb) : Prop :=
  ∀ o isSet es, parseSortOptions cfg (argv.drop 2) sortDefaults = .ok o → o.storekey.isSome →
    sortElements (lookupKeyWrite env db (arg argv 1)).2 = some (isSet, es) →
    LimitsFit o (toInt es.length)

def SortSafe (cfg : ServerConfig) (env : Env) (argv : List Bytes) (db : RedisDb) : Prop :=
  ∀ o isSet es, parseSortOptions cfg (argv.drop 2) sortDefaults = .ok o →
    sortElements (lookupKeyWrite env db (arg argv 1)).2 = some (isSet, es) →
    LimitsFit o (toInt es.length) ∧ es.length < 2^31

theorem limitsFit_forceAlpha {n : ℤ} (h : LimitsFit o n) : LimitsFit (forceAlpha o isSet) n := by
  unfold forceAlpha
  split_ifs
  · exact h
  · exact h

theorem yields_of_not {ε α : Type} {S : Prop} {P : α → Prop} {x : Except ε α} (hS : ¬S)
    (h : ∀ a, P a) : Yields S x P := by
  cases x with
  | ok a => exact h a
  | error e => exact hS

theorem sortCommand_good {cfg : ServerConfig} {argv : List Bytes} (hn : NonEmpty db)
    (hok : LimitsOk cfg env argv db) :
    Yields (SortSafe cfg env argv db) (sortCommand cfg env argv db) (Good env db) := by
  obtain ⟨db1, sortval, hl, hn1, hp, -⟩ := lookupKeyWrite_spec env hn (arg argv 1)
  unfold sortCommand
  simp only [lookupKeyRead_eq, ite_self, hl]
  cases hparse : parseSortOptions cfg (argv.drop 2) sortDefaults with
  | error e => exact good_purged hn Purged.refl _
  | ok o =>
    dsimp only
    cases hes : sortElements sortval with
    | none => exact good_purged hn hp _
    | some r =>
      obtain ⟨isSet, es⟩ := r
      dsimp only
      have hstore : (forceAlpha o isSet).storekey = o.storekey := by
        unfold forceAlpha
        split_ifs <;> rfl
      -- the limits fit when the result is stored, and when an answer is asked for
      have hfits : o.storekey.isSome ∨ SortSafe cfg env argv db →
          LimitsFit (forceAlpha o isSet) (toInt es.length) := by
        rintro (hsome | hsafe)
        · exact limitsFit_forceAlpha (hok o isSet es hparse hsome (by rw [hl]; exact hes))
        · exact limitsFit_forceAlpha (hsafe o isSet es hparse (by rw [hl]; exact hes)).1
      have hsmall : SortSafe cfg env argv db → es.length < 2^31 :=
        fun hsafe => (hsafe o isSet es hparse (by rw [hl]; exact hes)).2
      have hload : Yields (SortSafe cfg env argv db) (sortLoad (forceAlpha o isSet) isSet es)
          (fun l => o.storekey.isSome ∨ SortSafe cfg env argv db →
            l.start ≤ l.stop+1 ∧ (l.start ≤ l.stop → 0 ≤ l.start ∧ l.stop < l.objs.length)) := by
        by_cases h : o.storekey.isSome ∨ SortSafe cfg env argv db
        · exact ((sortLoad_yields (hfits h)).strengthen hsmall).mono (fun l hl _ => hl)
        · exact yields_of_not (fun hs => h (Or.inr hs)) (fun l hl => absurd hl h)
      generalize forceAlpha o isSet = o' at hstore hload ⊢
      apply hload.bind
      intro l hrange
      obtain ⟨hvec, hlen⟩ := @sortVector_spec env cfg.libc o' l.objs db1
      rcases hsorted : sortVector cfg.libc env o' l.objs db1 with ⟨db2, objs, conversionError⟩
      rw [hsorted] at hvec hlen
      dsimp only at hvec hlen ⊢
      have hp2 := hp.trans hvec
      by_cases hconv : conversionError = true
      · rw [if_pos hconv]
        exact good_purged hn hp2 _
      rw [if_neg hconv]
      have hobjs : Yields (SortSafe cfg env argv db) (sortRange objs l.start l.stop)
          (fun r => o.storekey.isSome → l.start ≤ l.stop → r ≠ []) := by
        by_cases h : o.storekey.isSome ∨ SortSafe cfg env argv db
        · obtain ⟨-, hin⟩ := hrange h
          rw [← hlen] at hin
          exact ((sortRange_yields hin).strengthen (fun _ => trivial)).mono (fun r hr _ => hr)
        · exact yields_of_not (fun hs => h (Or.inr hs)) (fun r hr => absurd (Or.inl hr) h)
      apply hobjs.bind
      intro objs' hne
      obtain ⟨hout, houtput⟩ := @sortOutput_spec env o'.gets objs' db2
      have hp3 := hp2.trans hout
      rw [hstore]
      cases hkey : o.storekey with
      | none => exact good_purged hn hp3 _
      | some storekey =>
        rw [hkey] at hrange hne
        obtain ⟨hle, -⟩ := hrange (Or.inl rfl)
        apply (sortStore_good (hp3.nonEmpty hn) storekey _).strengthen (fun _ => trivial)
        intro hoff
        apply houtput
        apply hne rfl
        by_contra hlt
        exact hoff (sortOutputLen_eq_zero (by omega))

end RedisCore.Collection
