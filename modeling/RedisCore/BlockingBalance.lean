import RedisCore.BlockingServing

namespace RedisCore.Blocking

open TableSum

variable {α : Type}

def held (s : State α) : Multiset α := tableSum (fun v : Value α => (v.elements : Multiset α)) s.dict

def accounted (s : State α) : Multiset α := held s + (s.delivered.map Prod.snd : Multiset α) + s.dropped

structure Shift (gone come : Multiset α) (s s' : State α) : Prop where
  pushed : s'.pushed = s.pushed
  accounted : accounted s' + gone = accounted s + come

variable {gone come x : Multiset α} {s s' s'' : State α} {key : Key} {l rest : List α} {head : Bool}
  {v : α}

theorem shift_trans {gone' come' : Multiset α} (h : Shift gone come s s')
    (h' : Shift gone' come' s' s'') : Shift (gone + gone') (come + come') s s'' := by
  refine ⟨h'.pushed.trans h.pushed, ?_⟩
  calc accounted s'' + (gone + gone') = accounted s'' + gone' + gone := by
        rw [add_comm gone gone', add_assoc]
    _ = accounted s' + gone + come' := by rw [h'.accounted, add_right_comm]
    _ = accounted s + (come + come') := by rw [h.accounted, add_assoc]

theorem shift_cancel (x : Multiset α) (h : Shift (gone + x) (come + x) s s') : Shift gone come s s'
    := by
  refine ⟨h.pushed, ?_⟩
  apply add_right_cancel (b := x)
  rw [add_assoc, add_assoc]
  exact h.accounted

theorem shift_same (hdict : s'.dict = s.dict) (hpushed : s'.pushed = s.pushed)
    (hdelivered : s'.delivered = s.delivered) (hdropped : s'.dropped = s.dropped) : Shift 0 0 s s' := by
  refine ⟨hpushed, ?_⟩
  unfold accounted held
  rw [hdict, hdelivered, hdropped]

theorem shift_refl (s : State α) : Shift 0 0 s s := shift_same rfl rfl rfl rfl

theorem valueAt_elements (s : State α) (key : Key) :
    valueAt (fun v : Value α => (v.elements : Multiset α)) s.dict key = (elementsAt s key : Multiset α) := by
  unfold valueAt elementsAt
  cases s.dict.lookup key with
  | none => rfl
  | some v => rfl

theorem elementsAt_list (h : s.dict.lookup key = some (.list l)) : elementsAt s key = l := by
  unfold elementsAt
  rw [h]
  rfl

theorem elementsAt_none (h : s.dict.lookup key = none) : elementsAt s key = [] := by
  unfold elementsAt
  rw [h]
  rfl

theorem shift_insert (s : State α) (key : Key) (v : Value α) :
    Shift (elementsAt s key : Multiset α) (v.elements : Multiset α) s
      { s with dict := s.dict.insert key v } := by
  refine ⟨rfl, ?_⟩
  have hsum := tableSum_insert (fun v : Value α => (v.elements : Multiset α)) s.dict key v
  rw [valueAt_elements] at hsum
  unfold accounted held
  calc _ = tableSum (fun v : Value α => (v.elements : Multiset α)) (s.dict.insert key v) +
          (elementsAt s key : Multiset α) + (s.delivered.map Prod.snd : Multiset α) + s.dropped := by abel
    _ = _ := by
        rw [hsum]
        abel

theorem shift_erase (s : State α) (key : Key) :
    Shift (elementsAt s key : Multiset α) 0 s { s with dict := s.dict.erase key } := by
  refine ⟨rfl, ?_⟩
  have hsum := tableSum_erase (fun v : Value α => (v.elements : Multiset α)) s.dict key
  rw [valueAt_elements] at hsum
  unfold accounted held
  rw [← hsum]
  abel

theorem shift_dropped (s : State α) (x : Multiset α) : Shift 0 x s { s with dropped := s.dropped + x } := by
  refine ⟨rfl, ?_⟩
  unfold accounted held
  rw [add_zero]
  exact (add_assoc _ _ _).symm

theorem shift_delivered (s : State α) (c : ClientId) (v : α) :
    Shift 0 {v} s { s with delivered := s.delivered ++ [(c, v)] } := by
  refine ⟨rfl, ?_⟩
  unfold accounted held
  rw [List.map_append, ← Multiset.coe_add, List.map_singleton, Multiset.coe_singleton]
  abel

theorem shift_signal (s : State α) (key : Key) : Shift 0 0 s (signalKeyAsReady s key) := by
  unfold signalKeyAsReady
  by_cases hnone : s.blockingKeys.lookup key = none
  · rw [if_pos hnone]
    exact shift_refl s
  rw [if_neg hnone]
  by_cases hmem : key ∈ s.readyDict
  · rw [if_pos hmem]
    exact shift_refl s
  · rw [if_neg hmem]
    exact shift_same rfl rfl rfl rfl

theorem shift_dbAdd (hnew : s.dict.lookup key = none) (v : Value α) :
    Shift 0 (v.elements : Multiset α) s (dbAdd s key v) := by
  have hinsert := shift_insert s key v
  rw [elementsAt_none hnew] at hinsert
  have hsignalled := shift_trans hinsert (shift_signal { s with dict := s.dict.insert key v } key)
  rw [Multiset.coe_nil, add_zero, add_zero] at hsignalled
  cases v with
  | list l => exact hsignalled
  | zset => exact hsignalled
  | string => exact hinsert

theorem shift_dbDelete (s : State α) (key : Key) : Shift 0 0 s (dbDelete s key) := by
  have hboth := shift_trans (shift_erase s key)
    (shift_dropped { s with dict := s.dict.erase key } (elementsAt s key : Multiset α))
  rw [add_comm] at hboth
  exact shift_cancel _ hboth

theorem shift_setKey (s : State α) (key : Key) (v : Value α) :
    Shift 0 (v.elements : Multiset α) s (setKey s key v) := by
  unfold setKey
  cases hlookup : s.dict.lookup key with
  | none => exact shift_dbAdd hlookup v
  | some old =>
    have hboth := shift_trans (shift_insert s key v)
      (shift_dropped { s with dict := s.dict.insert key v } (elementsAt s key : Multiset α))
    rw [add_comm (elementsAt s key : Multiset α) 0] at hboth
    exact shift_cancel _ hboth

theorem shift_setList (hl : s.dict.lookup key = some (.list l))
    (l' : List α) : Shift (l : Multiset α) (l' : Multiset α) s (setList s key l') := by
  have hinsert := shift_insert s key (.list l')
  rw [elementsAt_list hl] at hinsert
  exact hinsert

theorem shift_deleteIfEmpty (s : State α) (key : Key) : Shift 0 0 s (deleteIfEmpty s key) := by
  unfold deleteIfEmpty
  split
  · exact shift_dbDelete s key
  · exact shift_refl s

theorem shift_unblock (s : State α) (c : ClientId) : Shift 0 0 s (unblockClient s c) := by
  unfold unblockClient
  cases s.client c with
  | none => exact shift_refl s
  | some b => exact shift_same rfl rfl rfl rfl

theorem listTypePush_coe (head : Bool) (l : List α) (v : α) :
    (listTypePush head l v : Multiset α) = (l : Multiset α) + {v} := by
  cases head with
  | true =>
    rw [add_comm]
    exact (Multiset.singleton_add v (l : Multiset α)).symm
  | false => exact (Multiset.coe_add l [v]).symm

theorem pushAll_coe (head : Bool) (vs l : List α) :
    ((vs.foldl (listTypePush head) l : List α) : Multiset α) = (l : Multiset α) + (vs : Multiset α) := by
  induction vs generalizing l with
  | nil =>
    rw [List.foldl_nil, Multiset.coe_nil, add_zero]
  | cons v vs ih =>
    rw [List.foldl_cons, ih, listTypePush_coe, add_assoc, Multiset.singleton_add, Multiset.cons_coe]

theorem listTypePop_coe (h : listTypePop head l = some (v, rest)) :
    (l : Multiset α) = (rest : Multiset α) + {v} := by
  rw [← listTypePop_push h, listTypePush_coe]

theorem shift_pop (hl : s.dict.lookup key = some (.list l))
    (hpop : listTypePop head l = some (v, rest)) :
    Shift {v} 0 s (setList s key rest) := by
  have hset := shift_setList hl rest
  rw [listTypePop_coe hpop, add_comm] at hset
  apply shift_cancel (rest : Multiset α)
  rw [zero_add]
  exact hset

theorem shift_handlePush {dst : Key} (hwrong : ¬ wrongType s dst = true) (v : α) :
    Shift 0 {v} s (rpoplpushHandlePush s dst v) := by
  unfold rpoplpushHandlePush
  split
  · rename_i l hl
    have hset := shift_setList hl (listTypePush true l v)
    rw [listTypePush_coe, add_comm] at hset
    apply shift_cancel (l : Multiset α)
    rw [zero_add]
    exact hset
  · -- the destination is not a list
    rename_i w hnot hw
    exfalso
    apply hwrong
    unfold wrongType
    rw [hw]
    cases w with
    | list l => exact absurd rfl (hnot l)
    | zset => rfl
    | string => rfl
  · rename_i hnone
    rw [setList_dbAdd]
    exact shift_dbAdd hnone (.list [v])

theorem shift_back (h : Shift x 0 s s') (h' : Shift 0 x s' s'') : Shift 0 0 s s'' := by
  have hboth := shift_trans h h'
  rw [add_comm x 0] at hboth
  exact shift_cancel x hboth

theorem shift_then (h : Shift gone come s s') (h' : Shift 0 0 s' s'') : Shift gone come s s'' := by
  have hboth := shift_trans h h'
  rw [add_zero, add_zero] at hboth
  exact hboth

def Balanced (s : State α) : Prop := s.pushed = accounted s

theorem balanced_same (h : Balanced s) (hshift : Shift 0 0 s s') : Balanced s' := by
  have haccount := hshift.accounted
  rw [add_zero, add_zero] at haccount
  calc s'.pushed = accounted s := hshift.pushed.trans h
    _ = accounted s' := haccount.symm

theorem balanced_pushed (h : Balanced s) (hshift : Shift 0 x s s') :
    Balanced { s' with pushed := s.pushed + x } := by
  have haccount := hshift.accounted
  rw [add_zero] at haccount
  calc s.pushed + x = accounted s + x := by rw [show s.pushed = accounted s from h]
    _ = accounted s' := haccount.symm

theorem balanced_push (h : Balanced s) (key : Key) (vs : List α) (head : Bool) :
    Balanced (pushGenericCommand s key vs head) := by
  unfold pushGenericCommand
  split
  · rename_i l hl
    apply balanced_pushed h
    have hset := shift_setList hl (vs.foldl (listTypePush head) l)
    rw [pushAll_coe, add_comm] at hset
    apply shift_cancel (l : Multiset α)
    rw [zero_add]
    exact hset
  · exact h
  · rename_i hnone
    by_cases hvs : vs = []
    · rw [if_pos hvs]
      exact h
    · rw [if_neg hvs]
      dsimp only
      rw [setList_dbAdd]
      have hadd := shift_dbAdd hnone (.list (vs.foldl (listTypePush head) []))
      have helements : ((Value.list (vs.foldl (listTypePush head) [])).elements : Multiset α) =
          (vs : Multiset α) := by
        calc ((Value.list (vs.foldl (listTypePush head) [])).elements : Multiset α)
            = ((vs.foldl (listTypePush head) [] : List α) : Multiset α) := rfl
          _ = (vs : Multiset α) := by rw [pushAll_coe, Multiset.coe_nil, zero_add]
      rw [helements] at hadd
      have hpushed : (dbAdd s key (.list [])).pushed = s.pushed := (shift_dbAdd hnone (.list [])).pushed
      rw [hpushed]
      exact balanced_pushed h hadd

theorem shift_deliver (c : ClientId) (hl : s.dict.lookup key = some (.list l))
    (hpop : listTypePop head l = some (v, rest)) :
    Shift 0 0 s (deliver s c key v rest) := by
  have hdelivered := shift_back (shift_pop hl hpop) (shift_delivered (setList s key rest) c v)
  exact shift_then hdelivered (shift_deleteIfEmpty _ key)

theorem shift_block (s : State α) (c : ClientId) (d : ℕ) (names : List Bytes) (target : Option Bytes)
    (head : Bool) : Shift 0 0 s (blockForKeys s c d names target head) := shift_same rfl rfl rfl rfl

theorem shift_blockingPop (s : State α) (c : ClientId) (d : ℕ) (head multi : Bool) (all names : List Bytes) :
    Shift 0 0 s (blockingPopGenericCommand s c d head multi all names) := by
  induction names with
  | nil =>
    unfold blockingPopGenericCommand
    cases multi with
    | true => exact shift_refl s
    | false => exact shift_block s c d all none head
  | cons name names ih =>
    unfold blockingPopGenericCommand
    split
    · exact ih
    · rename_i l hl
      split
      · rename_i v rest hpop
        exact shift_deliver c hl hpop
      · exact ih
    · exact shift_refl s

theorem shift_rpoplpush {src : Key} (hl : s.dict.lookup src = some (.list l))
    (dst : Key) : Shift 0 0 s (rpoplpushCommand s src dst l) := by
  unfold rpoplpushCommand
  split
  · exact shift_refl s
  · rename_i v rest hpop
    by_cases hwrong : wrongType s dst = true
    · rw [if_pos hwrong]
      exact shift_refl s
    · rw [if_neg hwrong]
      have hright : ¬ wrongType (setList s src rest) dst = true := by
        rw [wrongType_setList hl]
        exact hwrong
      have hmoved := shift_back (shift_pop hl hpop) (shift_handlePush hright v)
      exact shift_then hmoved (shift_deleteIfEmpty _ src)

theorem shift_brpoplpush (s : State α) (c : ClientId) (d : ℕ) (multi : Bool) (src dst : Bytes) :
    Shift 0 0 s (brpoplpushCommand s c d multi src dst) := by
  unfold brpoplpushCommand
  split
  · cases multi with
    | true => exact shift_refl s
    | false => exact shift_block s c d [src] (some dst) false
  · rename_i l hl
    exact shift_rpoplpush hl (d, dst)
  · exact shift_refl s

theorem shift_del (s : State α) (d : ℕ) (names : List Bytes) :
    Shift 0 0 s (names.foldl (fun s name => dbDelete s (d, name)) s) := by
  induction names generalizing s with
  | nil => exact shift_refl s
  | cons name names ih => exact shift_then (shift_dbDelete s (d, name)) (ih _)

theorem dbAdd_dict (s : State α) (key : Key) (v : Value α) : (dbAdd s key v).dict = s.dict.insert key v := by
  cases v with
  | list l => exact (heard_signal { s with dict := s.dict.insert key (.list l) } key).dict
  | zset => exact (heard_signal { s with dict := s.dict.insert key .zset } key).dict
  | string => rfl

theorem shift_rename (s : State α) (d : ℕ) (src dst : Bytes) :
    Shift 0 0 s (renameGenericCommand s d src dst) := by
  unfold renameGenericCommand
  split
  · exact shift_refl s
  · rename_i v hv
    by_cases hsame : src = dst
    · rw [if_pos hsame]
      exact shift_refl s
    · rw [if_neg hsame]
      have hkeys : (d, src) ≠ (d, dst) := fun heq => hsame (Prod.mk.inj heq).2
      have hnone : (dbDelete s (d, dst)).dict.lookup (d, dst) = none := AList.lookup_erase _ _
      have hadd := shift_trans (shift_dbDelete s (d, dst)) (shift_dbAdd hnone v)
      -- the object is still at its old key
      have hold : (elementsAt (dbAdd (dbDelete s (d, dst)) (d, dst) v) (d, src) : Multiset α) =
          (v.elements : Multiset α) := by
        unfold elementsAt
        rw [dbAdd_dict, AList.lookup_insert_ne hkeys,
          show (dbDelete s (d, dst)).dict = s.dict.erase (d, dst) from rfl, AList.lookup_erase_ne hkeys, hv]
        rfl
      have herase := shift_erase (dbAdd (dbDelete s (d, dst)) (d, dst) v) (d, src)
      rw [hold] at herase
      have hall := shift_trans hadd herase
      simp only [add_zero, zero_add] at hall
      apply shift_cancel (v.elements : Multiset α)
      rw [zero_add]
      exact hall

theorem swap_held (i j : ℕ) (s : State α) : held { s with dict := swapDict i j s.dict } = held s := by
  unfold held tableSum swapDict
  rw [List.map_map]
  rfl

theorem shift_scan (d : ℕ) (keys : List Key) (s : State α) : Shift 0 0 s (keys.foldl (scanKey d) s) := by
  induction keys generalizing s with
  | nil => exact shift_refl s
  | cons key keys ih =>
    apply shift_then _ (ih (scanKey d s key))
    unfold scanKey
    by_cases hd : key.1 = d
    · rw [if_pos hd]
      split
      · exact shift_signal s key
      · exact shift_signal s key
      · exact shift_refl s
      · exact shift_refl s
    · rw [if_neg hd]
      exact shift_refl s

theorem shift_swapdb (s : State α) (i j : ℕ) (order : List Key) :
    Shift 0 0 s (dbSwapDatabases s i j order) := by
  unfold dbSwapDatabases
  by_cases hij : i = j
  · rw [if_pos hij]
    exact shift_refl s
  · rw [if_neg hij]
    have hswap : Shift 0 0 s { s with dict := swapDict i j s.dict } := by
      refine ⟨rfl, ?_⟩
      unfold accounted
      rw [swap_held]
    exact shift_then (shift_then hswap (shift_scan i _ _)) (shift_scan j _ _)

theorem balanced_sortStore (h : Balanced s) (key : Key) (out : List α) :
    Balanced (sortStoreCommand s key out) := by
  unfold sortStoreCommand
  by_cases hout : out = []
  · rw [if_pos hout]
    exact balanced_same h (shift_dbDelete s key)
  · rw [if_neg hout]
    exact balanced_pushed h (shift_setKey s key (.list out))

theorem shift_zadd (s : State α) (key : Key) : Shift 0 0 s (zaddCommand s key) := by
  unfold zaddCommand
  cases hlookup : s.dict.lookup key with
  | none => exact shift_dbAdd hlookup .zset
  | some v => exact shift_refl s

theorem balanced_runCommand (h : Balanced s) (c : ClientId) (multi : Bool)
    (cmd : ℕ × Command α) : Balanced (runCommand c multi s cmd) := by
  obtain ⟨d, command⟩ := cmd
  cases command with
  | push head name vs => exact balanced_push h (d, name) vs head
  | blockingPop head names => exact balanced_same h (shift_blockingPop s c d head multi names names)
  | brpoplpush src dst => exact balanced_same h (shift_brpoplpush s c d multi src dst)
  | del names => exact balanced_same h (shift_del s d names)
  | rename src dst => exact balanced_same h (shift_rename s d src dst)
  | swapdb i j order => exact balanced_same h (shift_swapdb s i j order)
  | set name => exact balanced_same h (shift_setKey s (d, name) .string)
  | zadd name => exact balanced_same h (shift_zadd s (d, name))
  | sortStore dst out => exact balanced_sortStore h (d, dst) out

theorem shift_serveOne {c : ClientId} {b : Blocked} (others : List ClientId)
    (hl : s.dict.lookup key = some (.list l))
    (hpop : listTypePop b.head l = some (v, rest)) :
    Shift 0 0 s (serveOne s c b key v rest others) := by
  have hpopped : Shift {v} 0 s (unblockClient (setList s key rest) c) :=
    shift_then (shift_pop hl hpop) (shift_unblock _ c)
  have hserved : Shift 0 {v} (unblockClient (setList s key rest) c)
      (serveClientBlockedOnList (unblockClient (setList s key rest) c) c b key v rest) := by
    unfold serveClientBlockedOnList
    cases b.target with
    | none => exact shift_delivered _ c v
    | some dst =>
      by_cases hwrong : wrongType (unblockClient (setList s key rest) c) (b.db, dst) = true
      · -- the element goes back
        simp only [hwrong, if_true]
        have hrest : (unblockClient (setList s key rest) c).dict.lookup key = some (.list rest) := by
          rw [unblock_dict, setList_lookup, if_pos rfl]
        have hset := shift_setList hrest (listTypePush b.head rest v)
        rw [listTypePush_coe, add_comm] at hset
        apply shift_cancel (rest : Multiset α)
        rw [zero_add]
        exact hset
      · simp only [hwrong]
        exact shift_handlePush hwrong v
  exact shift_then (shift_back hpopped hserved) (shift_same rfl rfl rfl rfl)

theorem shift_serveClients (key : Key) (numclients : ℕ) (s : State α) :
    Shift 0 0 s (serveClients key numclients s) := by
  induction numclients generalizing s with
  | zero => exact shift_refl s
  | succ numclients ih =>
    rw [serveClients]
    split
    · exact shift_refl s
    · rename_i c others hwaiting
      split
      · rename_i b l hc hl
        split
        · exact shift_refl s
        · rename_i v rest hpop
          exact shift_then (shift_serveOne others hl hpop) (ih _)
      · exact shift_refl s

theorem shift_serveKey (s : State α) (key : Key) : Shift 0 0 s (serveKey s key) := by
  have htaken : Shift 0 0 s { s with readyDict := s.readyDict.erase key } := shift_same rfl rfl rfl rfl
  unfold serveKey
  dsimp only
  split
  · apply shift_then htaken
    exact shift_then (shift_serveClients key _ _) (shift_deleteIfEmpty _ key)
  · apply shift_then htaken
    unfold serveClientsBlockedOnSortedSetKey
    split
    · exact shift_refl _
    · exact shift_same rfl rfl rfl rfl
  · exact htaken
  · exact htaken

theorem shift_round (keys : List Key) (s : State α) : Shift 0 0 s (keys.foldl serveKey s) := by
  induction keys generalizing s with
  | nil => exact shift_refl s
  | cons key keys ih => exact shift_then (shift_serveKey s key) (ih _)

theorem shift_handleRounds (fuel : ℕ) (s : State α) : Shift 0 0 s (handleRounds fuel s) := by
  induction fuel generalizing s with
  | zero => exact shift_refl s
  | succ fuel ih =>
    unfold handleRounds
    by_cases hempty : s.readyKeys = []
    · rw [if_pos hempty]
      exact shift_refl s
    · rw [if_neg hempty]
      have hstart : Shift 0 0 s { s with readyKeys := [] } := shift_same rfl rfl rfl rfl
      exact shift_then (shift_then hstart (shift_round _ _)) (ih _)

theorem balanced_handleClients (h : Balanced s) : Balanced (handleClientsBlockedOnKeys s) :=
  balanced_same h (shift_handleRounds _ s)

end RedisCore.Blocking
