import RedisCore.CTypes
import Mathlib.Logic.Function.Basic

/-! The eviction pool (`evict.c`): sixteen entries in ascending order of their idle times.  Each of
them owns a cached string for its key, which has to travel when the entries are shifted.  How the
idle time of a sample is computed, and the sampling itself, are parameters of a run. -/

namespace RedisCore.Eviction
open List (append_assoc append_nil cons_append eq_nil_or_concat' filterMap_append
  filterMap_cons_some length_append length_cons map_append map_cons mem_append mem_append_left
  mem_append_right mem_cons mem_cons_of_mem mem_cons_self not_mem_nil pairwise_append pairwise_cons
  tail_cons takeWhile_cons)
open Option (map_some not_isSome)

def evpoolSize : ℕ := 16
def evpoolCachedSdsSize : ℕ := 255

inductive Sds where
  | cached (buffer : ℕ)
  | dup (s : Bytes)
deriving DecidableEq, Repr

structure EvictionPoolEntry where
  idle : ℕ
  key : Option Sds
  cached : ℕ
  dbid : ℕ
deriving DecidableEq, Repr

/-- A string of type 8: its block, with room for the terminator, and its length. -/
structure CachedSds where
  buf : Bytes
  len : UInt8

def CachedSds.text (s : CachedSds) : Bytes := s.buf.take s.len.toNat

structure Pool where
  entries : List EvictionPoolEntry
  strings : ℕ → CachedSds

def evictionPoolAlloc : Pool :=
  { entries := (List.range evpoolSize).map (fun j => { idle := 0, key := none, cached := j, dbid := 0 })
    strings := fun _ => ⟨List.replicate (evpoolCachedSdsSize+1) 0, 255⟩ }

inductive Fault where
  | outOfBounds

structure Candidate where
  idle : ℕ
  key : Bytes
  dbid : ℕ
deriving DecidableEq, Repr

def findBucket (entries : List EvictionPoolEntry) (idle : ℕ) : ℕ :=
  (entries.takeWhile (fun e => e.key.isSome && decide (e.idle < idle))).length

def emptyEntry : EvictionPoolEntry :=
  { idle := 0
    key := none
    cached := 0
    dbid := 0 }

def entryAt (entries : List EvictionPoolEntry) (k : ℕ) : EvictionPoolEntry := entries.getD k emptyEntry

def setCached (entries : List EvictionPoolEntry) (k cached : ℕ) : List EvictionPoolEntry :=
  entries.modify k (fun e => { e with cached := cached })

def shiftRight (entries : List EvictionPoolEntry) (k : ℕ) : List EvictionPoolEntry :=
  entries.take (k + 1) ++ (entries.drop k).take (evpoolSize - k - 1)

def shiftLeft (entries : List EvictionPoolEntry) (k : ℕ) : List EvictionPoolEntry :=
  (entries.drop 1).take k ++ entries.drop k

def makeRoom (entries : List EvictionPoolEntry) (idle : ℕ) : Option (List EvictionPoolEntry × ℕ) :=
  let k := findBucket entries idle
  if k = 0 ∧ (entryAt entries (evpoolSize - 1)).key.isSome then none
  else if k < evpoolSize ∧ (entryAt entries k).key.isNone then some (entries, k)
  else if (entryAt entries (evpoolSize - 1)).key.isNone then
    some (setCached (shiftRight entries k) k (entryAt entries (evpoolSize - 1)).cached, k)
  else some (setCached (shiftLeft entries (k - 1)) (k - 1) (entryAt entries 0).cached, k - 1)

/-- `memcpy(cached,key,klen+1)` and `sdssetlen(cached,klen)`. -/
def copyKey (s : CachedSds) (key : Bytes) (klen : ℤ) : CachedSds :=
  { buf := (key ++ [0]).take (klen+1).toNat ++ s.buf.drop (klen+1).toNat
    len := UInt8.ofNat (klen % 2^8).toNat }

/-- The length of the key is an `int`. -/
def storeKey (entries : List EvictionPoolEntry) (strings : ℕ → CachedSds) (k : ℕ) (c : Candidate) :
    Except Fault Pool :=
  let buffer := (entryAt entries k).cached
  let klen := toInt c.key.length
  if evpoolCachedSdsSize < klen then
    .ok
      { entries := entries.modify k
          (fun e => { e with key := some (.dup c.key), idle := c.idle, dbid := c.dbid })
        strings := strings }
  -- a negative size is the greatest of all for `memcpy`
  else if klen+1 < 0 then .error .outOfBounds
  else
    .ok
      { entries := entries.modify k
          (fun e => { e with key := some (.cached e.cached), idle := c.idle, dbid := c.dbid })
        strings := Function.update strings buffer (copyKey (strings buffer) c.key klen) }

def addSample (pool : Pool) (c : Candidate) : Except Fault Pool :=
  match makeRoom pool.entries c.idle with
  | none => .ok pool
  | some (entries, k) => storeKey entries pool.strings k c

def candidates (dbid : ℕ) (samples : List (Bytes × ℕ)) : List Candidate :=
  samples.map (fun s => { idle := s.2, key := s.1, dbid := dbid })

def evictionPoolPopulate (dbid : ℕ) (samples : List (Bytes × ℕ)) (pool : Pool) : Except Fault Pool :=
  (candidates dbid samples).foldlM addSample pool

def keyText (strings : ℕ → CachedSds) : Sds → Bytes
  | .cached buffer => (strings buffer).text
  | .dup s => s

/-- The scan of `freeMemoryIfNeeded` over the entries below `k`, from the right; `found` looks a key
up in its database. -/
def takeBest (found : ℕ → Bytes → Bool) : ℕ → Pool → Pool × Option (ℕ × Bytes)
  | 0, pool => (pool, none)
  | k + 1, pool =>
    let e := entryAt pool.entries k
    match e.key with
    | none => takeBest found k pool
    | some key =>
      let pool := { pool with entries := pool.entries.modify k (fun e => { e with key := none, idle := 0 }) }
      if found e.dbid (keyText pool.strings key) then (pool, some (e.dbid, keyText pool.strings key))
      else takeBest found k pool

inductive Event where
  | populate (dbid : ℕ) (samples : List (Bytes × ℕ))
  | take (found : ℕ → Bytes → Bool)

def step (pool : Pool) : Event → Except Fault Pool
  | .populate dbid samples => evictionPoolPopulate dbid samples pool
  | .take found => .ok (takeBest found evpoolSize pool).1

def run (events : List Event) : Except Fault Pool := events.foldlM step evictionPoolAlloc

def sampled : List Event → List Candidate
  | [] => []
  | .populate dbid samples :: events => candidates dbid samples ++ sampled events
  | .take _ :: events => sampled events

def candidate (strings : ℕ → CachedSds) (e : EvictionPoolEntry) : Option Candidate :=
  e.key.map (fun s => { idle := e.idle, key := keyText strings s, dbid := e.dbid })

def remembered (pool : Pool) : List Candidate := pool.entries.filterMap (candidate pool.strings)

def Own (e : EvictionPoolEntry) : Prop := ∀ buffer, e.key = some (.cached buffer) → buffer = e.cached

structure PoolOk (pool : Pool) : Prop where
  size : pool.entries.length = evpoolSize
  compact : ∃ full free, pool.entries = full ++ free ∧ (∀ e ∈ full, e.key.isSome = true) ∧
    ∀ e ∈ free, e.key = none
  own : ∀ e ∈ pool.entries, Own e
  distinct : (pool.entries.map EvictionPoolEntry.cached).Nodup
  ascending : (remembered pool).Pairwise (fun c c' => c.idle ≤ c'.idle)

def insertCandidate (c : Candidate) (l : List Candidate) : List Candidate :=
  l.takeWhile (fun x => decide (x.idle < c.idle)) ++ c :: l.dropWhile (fun x => decide (x.idle < c.idle))

section

variable {strings : ℕ → CachedSds} {c : Candidate} {e : EvictionPoolEntry} {front back : List EvictionPoolEntry}

theorem modify_at (f : EvictionPoolEntry → EvictionPoolEntry) (front : List EvictionPoolEntry)
    (e : EvictionPoolEntry) (back : List EvictionPoolEntry) :
    (front ++ e :: back).modify front.length f = front ++ f e :: back := by
  induction front with
  | nil => rfl
  | cons x front ih =>
    rw [cons_append, length_cons, List.modify_succ_cons, ih]
    rfl

theorem entryAt_front (front : List EvictionPoolEntry) (e : EvictionPoolEntry)
    (back : List EvictionPoolEntry) : entryAt (front ++ e :: back) front.length = e := by
  unfold entryAt
  rw [List.getD_append_right _ _ _ _ le_rfl, Nat.sub_self, List.getD_cons_zero]

/-- A key that is copied whole: it fits a cached string, or its `int` length still is too great for one. -/
def KeyFits (key : Bytes) : Prop := key.length ≤ evpoolCachedSdsSize ∨ evpoolCachedSdsSize < toInt key.length

instance (key : Bytes) : Decidable (KeyFits key) := inferInstanceAs (Decidable (_ ∨ _))

theorem copyKey_text {key : Bytes} (h : key.length ≤ evpoolCachedSdsSize) (s : CachedSds) :
    (copyKey s key key.length).text = key := by
  have hlen : (UInt8.ofNat (((key.length : ℕ) : ℤ) % 2^8).toNat).toNat = key.length := by
    unfold evpoolCachedSdsSize at h
    rw [UInt8.toNat_ofNat']
    omega
  have hcopied : (((key.length : ℕ) : ℤ)+1).toNat = (key ++ [0]).length := by
    rw [length_append, List.length_singleton]
    omega
  unfold CachedSds.text copyKey
  rw [hlen, hcopied, List.take_length, append_assoc, List.take_left]

theorem storeKey_spec (strings : ℕ → CachedSds) (c : Candidate) (hfits : KeyFits c.key)
    (hown : ∀ x ∈ front ++ back, Own x) (hother : ∀ x ∈ front ++ back, x.cached ≠ e.cached) :
    ∃ e' strings', storeKey (front ++ e :: back) strings front.length c =
        .ok { entries := front ++ e' :: back, strings := strings' } ∧
      e'.cached = e.cached ∧ Own e' ∧ candidate strings' e' = some c ∧
      ∀ x ∈ front ++ back, candidate strings' x = candidate strings x := by
  unfold storeKey
  dsimp only
  by_cases hlong : evpoolCachedSdsSize < toInt c.key.length
  · rw [if_pos hlong, modify_at]
    refine ⟨_, strings, rfl, rfl, ?_, rfl, fun _ _ => rfl⟩
    intro buffer hkey
    cases hkey
  · have hshort := hfits.resolve_right hlong
    have hklen : toInt c.key.length = c.key.length := by
      unfold evpoolCachedSdsSize at hshort
      exact toInt_of_fits (by omega) (by omega)
    rw [if_neg hlong, hklen, if_neg (by omega), modify_at, entryAt_front]
    refine ⟨_, _, rfl, rfl, ?_, ?_, ?_⟩
    · intro buffer hkey
      cases hkey
      rfl
    · unfold candidate keyText
      simp only [map_some, Function.update_self, copyKey_text hshort]
    · intro x hx
      unfold candidate
      cases hkey : x.key with
      | none => rfl
      | some s =>
        cases s with
        | dup s => rfl
        | cached buffer =>
          have hbuffer : buffer ≠ e.cached := by
            rw [hown x hx buffer hkey]
            exact hother x hx
          unfold keyText
          simp only [map_some, Function.update_of_ne hbuffer]

end

section

variable {full free : List EvictionPoolEntry}

theorem findBucket_eq (hfull : ∀ e ∈ full, e.key.isSome = true) (hfree : ∀ e ∈ free, e.key = none)
    (idle : ℕ) : findBucket (full ++ free) idle =
      (full.takeWhile (fun e => decide (e.idle < idle))).length := by
  unfold findBucket
  congr 1
  induction full with
  | nil =>
    cases free with
    | nil => rfl
    | cons e free =>
      have hnone : e.key.isSome = false := by
        rw [hfree e mem_cons_self]
        rfl
      rw [List.nil_append, takeWhile_cons, hnone, Bool.false_and, List.takeWhile_nil]
      rfl
  | cons e full ih =>
    have hsome := hfull e mem_cons_self
    have ih := ih (fun x hx => hfull x (mem_cons_of_mem e hx))
    rw [cons_append, takeWhile_cons, takeWhile_cons, hsome, Bool.true_and, ih]

theorem entryAt_last {entries : List EvictionPoolEntry} {z : EvictionPoolEntry}
    (hsize : (entries ++ [z]).length = evpoolSize) : entryAt (entries ++ [z]) (evpoolSize - 1) = z := by
  have hlen : entries.length = evpoolSize - 1 := by
    rw [length_append, List.length_singleton] at hsize
    omega
  rw [← hlen]
  exact entryAt_front entries z []

theorem lastKey_isSome (hsize : (full ++ free).length = evpoolSize)
    (hfull : ∀ e ∈ full, e.key.isSome = true) (hfree : ∀ e ∈ free, e.key = none) :
    (entryAt (full ++ free) (evpoolSize - 1)).key.isSome = true ↔ free = [] := by
  rcases eq_nil_or_concat' free with hnil | ⟨front, z, hfront⟩
  · rw [hnil, append_nil] at hsize ⊢
    rcases eq_nil_or_concat' full with hnil | ⟨front, z, hfront⟩
    · rw [hnil] at hsize
      cases hsize
    · rw [hfront] at hsize hfull ⊢
      rw [entryAt_last hsize]
      exact ⟨fun _ => rfl, fun _ => hfull z (mem_append_right _ mem_cons_self)⟩
  · have hz := hfree z (by rw [hfront]; exact mem_append_right _ mem_cons_self)
    rw [hfront, ← append_assoc] at hsize ⊢
    rw [entryAt_last hsize, hz]
    constructor
    · intro h
      cases h
    · intro h
      exact absurd h (List.append_ne_nil_of_right_ne_nil _ (List.cons_ne_nil z []))

theorem setCached_at (front back : List EvictionPoolEntry) (e : EvictionPoolEntry) (cached : ℕ) :
    setCached (front ++ e :: back) front.length cached = front ++ { e with cached := cached } :: back := by
  unfold setCached
  rw [modify_at]

theorem shiftRight_at (front back : List EvictionPoolEntry) (e z : EvictionPoolEntry)
    (hsize : (front ++ e :: (back ++ [z])).length = evpoolSize) :
    shiftRight (front ++ e :: (back ++ [z])) front.length = front ++ e :: e :: back := by
  have hrest : evpoolSize - front.length - 1 = (e :: back).length := by
    simp only [length_append, length_cons, List.length_nil] at hsize ⊢
    omega
  have hback : e :: (back ++ [z]) = (e :: back) ++ [z] := rfl
  unfold shiftRight
  rw [List.take_append, List.take_of_length_le (Nat.le_succ _), Nat.add_sub_cancel_left,
    List.drop_left, hrest, hback, List.take_left, ← hback, List.take_succ_cons, List.take_zero,
    append_assoc]
  rfl

theorem shiftLeft_at (a : EvictionPoolEntry) (front back : List EvictionPoolEntry) :
    ∃ e, shiftLeft (a :: front ++ back) front.length = front ++ e :: back := by
  unfold shiftLeft
  rcases eq_nil_or_concat' front with hnil | ⟨front', z, hfront⟩
  · rw [hnil]
    exact ⟨a, rfl⟩
  · refine ⟨z, ?_⟩
    have hdrop : (a :: front ++ back).drop front.length = z :: back := by
      have hlen : front.length = (a :: front').length := by
        rw [hfront, length_append]
        rfl
      have hsplit : a :: front ++ back = (a :: front') ++ (z :: back) := by
        rw [hfront, cons_append, append_assoc]
        rfl
      rw [hsplit, hlen, List.drop_left]
    rw [hdrop, cons_append, List.drop_one, tail_cons, List.take_left]

theorem makeRoom_spec (hsize : (full ++ free).length = evpoolSize)
    (hfull : ∀ e ∈ full, e.key.isSome = true) (hfree : ∀ e ∈ free, e.key = none) {idle : ℕ}
    {low high : List EvictionPoolEntry} (hlow : low = full.takeWhile (fun e => decide (e.idle < idle)))
    (hsplit : full = low ++ high) :
    (free = [] ∧ low = [] ∧ makeRoom (full ++ free) idle = none) ∨
    (∃ e free', (∀ x ∈ free', x.key = none) ∧ free ≠ [] ∧
      (e.cached :: free'.map EvictionPoolEntry.cached).Perm (free.map EvictionPoolEntry.cached) ∧
      makeRoom (full ++ free) idle = some (low ++ e :: (high ++ free'), low.length)) ∨
    (free = [] ∧ ∃ a rest e, low = a :: rest ∧ e.cached = a.cached ∧
      makeRoom (full ++ free) idle = some (rest ++ e :: high, rest.length)) := by
  have hbucket := findBucket_eq hfull hfree idle
  have hlast := lastKey_isSome hsize hfull hfree
  rw [← hlow] at hbucket
  unfold makeRoom
  dsimp only
  rw [hbucket]
  by_cases hnil : free = []
  · cases low with
    | nil =>
      left
      rw [if_pos ⟨rfl, hlast.mpr hnil⟩]
      exact ⟨hnil, rfl, rfl⟩
    | cons a rest =>
      right
      right
      have hkeep : (entryAt (full ++ free) (evpoolSize - 1)).key.isNone ≠ true := by
        rw [← not_isSome, hlast.mpr hnil]
        decide
      have hused : ¬ ((a :: rest).length < evpoolSize ∧
          (entryAt (full ++ free) (a :: rest).length).key.isNone = true) := by
        intro ⟨hlt, hnone⟩
        have hmem : entryAt (full ++ free) (a :: rest).length ∈ full := by
          rw [hnil, append_nil] at hsize ⊢
          unfold entryAt
          rw [← hsize] at hlt
          rw [List.getD_eq_getElem _ _ hlt]
          exact List.getElem_mem hlt
        have hsome := hfull _ hmem
        rw [← not_isSome, hsome] at hnone
        cases hnone
      rw [if_neg (by rw [length_cons]; omega), if_neg hused, if_neg hkeep, length_cons,
        Nat.add_sub_cancel]
      obtain ⟨e, hshift⟩ := shiftLeft_at a rest high
      have hentries : full ++ free = a :: rest ++ high := by
        rw [hnil, append_nil, hsplit]
      have hfirst : entryAt (a :: rest ++ high) 0 = a := rfl
      rw [hentries, hshift, setCached_at, hfirst]
      exact ⟨hnil, a, rest, { e with cached := a.cached }, rfl, rfl, rfl⟩
  · right
    left
    have hroom : ¬ (low.length = 0 ∧ (entryAt (full ++ free) (evpoolSize - 1)).key.isSome = true) :=
      fun h => hnil (hlast.mp h.2)
    rw [if_neg hroom]
    cases high with
    | nil =>
      obtain ⟨e, free', hcons⟩ := List.exists_cons_of_ne_nil hnil
      have hentries : full ++ free = low ++ e :: free' := by
        rw [hsplit, append_nil, hcons]
      have hlt : low.length < evpoolSize := by
        rw [hentries, length_append, length_cons] at hsize
        omega
      have hempty : e.key.isNone = true := by
        rw [hfree e (by rw [hcons]; exact mem_cons_self)]
        rfl
      rw [hentries, entryAt_front, if_pos ⟨hlt, hempty⟩]
      refine ⟨e, free', fun x hx => hfree x (by rw [hcons]; exact mem_cons_of_mem e hx), hnil, ?_, rfl⟩
      rw [hcons, map_cons]
    | cons b high =>
      obtain ⟨free', z, hconcat⟩ := (eq_nil_or_concat' free).resolve_left hnil
      have hentries : full ++ free = low ++ b :: ((high ++ free') ++ [z]) := by
        rw [hsplit, hconcat]
        simp only [append_assoc, cons_append]
      have hb : b.key.isNone ≠ true := by
        rw [← not_isSome, hfull b (by rw [hsplit]; exact mem_append_right _ mem_cons_self)]
        decide
      have hspace : (entryAt (full ++ free) (evpoolSize - 1)).key.isNone = true := by
        rw [← not_isSome, Bool.not_eq_true', Bool.eq_false_iff]
        exact fun h => hnil (hlast.mp h)
      have hz : entryAt (full ++ free) (evpoolSize - 1) = z := by
        rw [hconcat, ← append_assoc] at hsize ⊢
        exact entryAt_last hsize
      rw [if_neg (by rw [hentries, entryAt_front]; exact fun h => hb h.2), if_pos hspace, hz]
      rw [hentries] at hsize ⊢
      rw [shiftRight_at _ _ _ _ hsize, setCached_at]
      refine ⟨{ b with cached := z.cached }, free', ?_, hnil, ?_, rfl⟩
      · intro x hx
        exact hfree x (by rw [hconcat]; exact mem_append_left _ hx)
      · rw [hconcat, map_append]
        exact (List.perm_append_singleton _ _).symm

end

section

variable {pool : Pool} {c : Candidate}

theorem filterMap_free {strings : ℕ → CachedSds} {free : List EvictionPoolEntry}
    (h : ∀ e ∈ free, e.key = none) : free.filterMap (candidate strings) = [] := by
  apply List.filterMap_eq_nil_iff.mpr
  intro e he
  unfold candidate
  rw [h e he]
  rfl

theorem filterMap_takeWhile {strings : ℕ → CachedSds} {full : List EvictionPoolEntry}
    (hfull : ∀ e ∈ full, e.key.isSome = true) (idle : ℕ) :
    (full.takeWhile (fun e => decide (e.idle < idle))).filterMap (candidate strings) =
        (full.filterMap (candidate strings)).takeWhile (fun x => decide (x.idle < idle)) ∧
      (full.dropWhile (fun e => decide (e.idle < idle))).filterMap (candidate strings) =
        (full.filterMap (candidate strings)).dropWhile (fun x => decide (x.idle < idle)) := by
  induction full with
  | nil => exact ⟨rfl, rfl⟩
  | cons e full ih =>
    obtain ⟨htake, hdrop⟩ := ih (fun x hx => hfull x (mem_cons_of_mem e hx))
    obtain ⟨s, hs⟩ := Option.isSome_iff_exists.mp (hfull e mem_cons_self)
    have hcand : candidate strings e = some { idle := e.idle, key := keyText strings s, dbid := e.dbid } := by
      unfold candidate
      rw [hs, map_some]
    simp only [takeWhile_cons, List.dropWhile_cons, filterMap_cons_some hcand]
    by_cases hlt : e.idle < idle
    · simp only [hlt, decide_true, if_true, filterMap_cons_some hcand, htake, hdrop, and_self]
    · simp only [hlt, decide_false, Bool.false_eq_true, if_false, List.filterMap_nil,
        filterMap_cons_some hcand, and_self]

variable {l l' : List Candidate} {x : Candidate}

theorem insertCandidate_ascending (h : l.Pairwise (fun c c' => c.idle ≤ c'.idle)) (c : Candidate) :
    (insertCandidate c l).Pairwise (fun c c' => c.idle ≤ c'.idle) := by
  have hsplit := List.takeWhile_append_dropWhile (p := fun x => decide (x.idle < c.idle)) (l := l)
  rw [← hsplit] at h
  obtain ⟨hlow, hhigh, hcross⟩ := pairwise_append.mp h
  unfold insertCandidate
  refine pairwise_append.mpr ⟨hlow, pairwise_cons.mpr ⟨?_, hhigh⟩, ?_⟩
  · intro x hx
    cases hd : l.dropWhile (fun x => decide (x.idle < c.idle)) with
    | nil =>
      rw [hd] at hx
      cases hx
    | cons y high =>
      have hy : ¬ decide (y.idle < c.idle) = true := by
        have hhead := List.head?_dropWhile_not (fun x : Candidate => decide (x.idle < c.idle)) l
        rw [hd] at hhead
        simpa only [List.head?_cons, Bool.not_eq_true] using hhead
      rw [decide_eq_true_eq] at hy
      rw [hd] at hx hhigh
      rcases mem_cons.mp hx with hx | hx
      · rw [hx]
        omega
      · have hle := (pairwise_cons.mp hhigh).1 x hx
        omega
  · intro x hx y hy
    rcases mem_cons.mp hy with hy | hy
    · have hlt := List.mem_takeWhile_imp (p := fun x : Candidate => decide (x.idle < c.idle)) hx
      rw [decide_eq_true_eq] at hlt
      rw [hy]
      omega
    · exact hcross x hx y hy

def remember (c : Candidate) (l : List Candidate) : List Candidate :=
  if l.length < evpoolSize then insertCandidate c l
  else if l.takeWhile (fun x => decide (x.idle < c.idle)) = [] then l
  else (insertCandidate c l).tail

theorem placed_ok {front back : List EvictionPoolEntry} {e : EvictionPoolEntry} {k : ℕ}
    (hfits : KeyFits c.key) (hk : k = front.length) {strings : ℕ → CachedSds} (hsize : (front ++ e :: back).length = evpoolSize)
    (hcompact : ∃ high free, back = high ++ free ∧ (∀ x ∈ front ++ high, x.key.isSome = true) ∧
      ∀ x ∈ free, x.key = none)
    (hown : ∀ x ∈ front ++ back, Own x)
    (hdistinct : ((front ++ e :: back).map EvictionPoolEntry.cached).Nodup)
    (hascending : (front.filterMap (candidate strings) ++ c :: back.filterMap (candidate strings)).Pairwise
      (fun c c' => c.idle ≤ c'.idle)) :
    ∃ pool, storeKey (front ++ e :: back) strings k c = .ok pool ∧ PoolOk pool ∧
      remembered pool = front.filterMap (candidate strings) ++ c :: back.filterMap (candidate strings) := by
  have hother : ∀ x ∈ front ++ back, x.cached ≠ e.cached := by
    rw [map_append, map_cons, List.nodup_middle, ← map_append, List.nodup_cons] at hdistinct
    intro x hx heq
    exact hdistinct.1 (heq ▸ List.mem_map_of_mem hx)
  obtain ⟨e', strings', hstore, hcached, howne, hcand, hsame⟩ := storeKey_spec strings c hfits hown hother
  have hremember : remembered { entries := front ++ e' :: back, strings := strings' } =
      front.filterMap (candidate strings) ++ c :: back.filterMap (candidate strings) := by
    unfold remembered
    rw [filterMap_append, filterMap_cons_some hcand,
      List.filterMap_congr (fun x hx => hsame x (mem_append_left _ hx)),
      List.filterMap_congr (fun x hx => hsame x (mem_append_right _ hx))]
  refine ⟨_, by rw [hk, hstore], ?_, hremember⟩
  constructor
  · simp only [length_append, length_cons] at hsize ⊢
    exact hsize
  · obtain ⟨high, free, hback, hused, hfree⟩ := hcompact
    refine ⟨front ++ e' :: high, free, ?_, ?_, hfree⟩
    · rw [hback, append_assoc]
      rfl
    · intro x hx
      rcases mem_append.mp hx with hx | hx
      · exact hused x (mem_append_left _ hx)
      · rcases mem_cons.mp hx with hx | hx
        · rw [hx]
          unfold candidate at hcand
          obtain ⟨s, hs, -⟩ := Option.map_eq_some_iff.mp hcand
          rw [hs]
          rfl
        · exact hused x (mem_append_right _ hx)
  · intro x hx
    rcases mem_append.mp hx with hx | hx
    · exact hown x (mem_append_left _ hx)
    · rcases mem_cons.mp hx with hx | hx
      · rw [hx]
        exact howne
      · exact hown x (mem_append_right _ hx)
  · rw [map_append, map_cons] at hdistinct ⊢
    rw [hcached]
    exact hdistinct
  · rw [hremember]
    exact hascending

theorem addSample_ok (h : PoolOk pool) {c : Candidate} (hfits : KeyFits c.key) :
    ∃ pool', addSample pool c = .ok pool' ∧ PoolOk pool' ∧
      remembered pool' = remember c (remembered pool) := by
  obtain ⟨full, free, hentries, hfull, hfree⟩ := h.compact
  have hsize := h.size
  have hown := h.own
  have hdistinct := h.distinct
  have hascending := insertCandidate_ascending h.ascending c
  have hpool : remembered pool = full.filterMap (candidate pool.strings) := by
    unfold remembered
    rw [hentries, filterMap_append, filterMap_free hfree, append_nil]
  obtain ⟨htake, hdrop⟩ := @filterMap_takeWhile pool.strings full hfull c.idle
  have hcand : ∀ e ∈ full, (candidate pool.strings e).isSome = true := by
    intro e he
    unfold candidate
    rw [Option.isSome_map]
    exact hfull e he
  have hlen := List.filterMap_length_eq_length.mpr hcand
  have hsplit : full = full.takeWhile (fun e => decide (e.idle < c.idle)) ++
      full.dropWhile (fun e => decide (e.idle < c.idle)) := List.takeWhile_append_dropWhile.symm
  rw [hentries] at hsize hown hdistinct
  have hroom := makeRoom_spec hsize hfull hfree rfl hsplit
  rw [hpool] at hascending ⊢
  unfold insertCandidate at hascending
  rw [← htake, ← hdrop] at hascending
  unfold addSample remember insertCandidate
  rw [hentries, ← htake, ← hdrop, hlen]
  generalize hlow : full.takeWhile (fun e => decide (e.idle < c.idle)) = low at *
  generalize hhigh : full.dropWhile (fun e => decide (e.idle < c.idle)) = high at *
  rcases hroom with ⟨hnil, hlow, hmake⟩ | ⟨e, free', hfree', hne, hperm, hmake⟩ |
    ⟨hnil, a, rest, e, hlow, hcached, hmake⟩
  · have hsixteen : ¬ full.length < evpoolSize := by
      rw [hnil, append_nil] at hsize
      omega
    rw [hmake, hlow, if_neg hsixteen, List.filterMap_nil, if_pos rfl]
    exact ⟨pool, rfl, h, hpool⟩
  · have hroom : full.length < evpoolSize := by
      have hpos := List.length_pos_of_ne_nil hne
      rw [length_append] at hsize
      omega
    have hcaches : ((low ++ e :: (high ++ free')).map EvictionPoolEntry.cached).Perm
        ((full ++ free).map EvictionPoolEntry.cached) := by
      rw [hsplit]
      simp only [map_append, map_cons, append_assoc]
      exact List.Perm.append_left _ (List.perm_middle.symm.trans (hperm.append_left _))
    have hback : (high ++ free').filterMap (candidate pool.strings) =
        high.filterMap (candidate pool.strings) := by
      rw [filterMap_append, filterMap_free hfree', append_nil]
    rw [hmake, if_pos hroom, ← hback]
    refine placed_ok hfits rfl ?_ ⟨high, free', rfl, ?_, hfree'⟩ ?_ (hcaches.nodup_iff.mpr hdistinct) ?_
    · have hlength := hcaches.length_eq
      rw [List.length_map, List.length_map] at hlength
      exact hlength.trans hsize
    · rw [← hsplit]
      exact hfull
    · intro x hx
      rw [← append_assoc, ← hsplit] at hx
      rcases mem_append.mp hx with hx | hx
      · exact hown x (mem_append_left _ hx)
      · intro buffer hkey
        rw [hfree' x hx] at hkey
        cases hkey
    · rw [hback]
      exact hascending
  · have hsixteen : ¬ full.length < evpoolSize := by
      rw [hnil, append_nil] at hsize
      omega
    obtain ⟨first, hfirst⟩ := Option.isSome_iff_exists.mp
      (hcand a (by rw [hsplit, hlow]; exact mem_append_left _ mem_cons_self))
    have hlowcand : low.filterMap (candidate pool.strings) =
        first :: rest.filterMap (candidate pool.strings) := by
      rw [hlow, filterMap_cons_some hfirst]
    rw [hlowcand] at hascending
    rw [hmake, if_neg hsixteen, hlowcand, if_neg (List.cons_ne_nil _ _), cons_append, tail_cons]
    have hrest : ∀ x ∈ rest ++ high, x ∈ full := by
      intro x hx
      rw [hsplit, hlow]
      exact mem_cons_of_mem a hx
    rw [hsplit, hlow, hnil, append_nil] at hsize hdistinct
    refine placed_ok hfits rfl ?_ ⟨high, [], (append_nil high).symm, fun x hx => hfull x (hrest x hx), ?_⟩
      (fun x hx => hown x (mem_append_left _ (hrest x hx))) ?_ (pairwise_cons.mp hascending).2
    · simp only [length_append, length_cons] at hsize ⊢
      omega
    · exact fun x hx => absurd hx not_mem_nil
    · rw [map_append, map_cons, hcached, List.nodup_middle, ← map_append]
      rw [cons_append, map_cons] at hdistinct
      exact hdistinct

theorem compact_front {front back : List EvictionPoolEntry} {e : EvictionPoolEntry} (h : PoolOk pool)
    (hentries : pool.entries = front ++ e :: back) (hkey : e.key.isSome = true) :
    ∀ x ∈ front, x.key.isSome = true := by
  obtain ⟨full, free, hcompact, hfull, hfree⟩ := h.compact
  rw [hentries] at hcompact
  rcases List.append_eq_append_iff.mp hcompact with ⟨rest, hrest, -⟩ | ⟨rest, hrest, hback⟩
  · intro x hx
    exact hfull x (by rw [hrest]; exact mem_append_left _ hx)
  · have he : e ∈ rest ++ e :: back := mem_append_right _ mem_cons_self
    rw [← hback] at he
    rw [hfree e he] at hkey
    cases hkey

theorem emptied_ok {front back : List EvictionPoolEntry} {e : EvictionPoolEntry} (h : PoolOk pool)
    (hentries : pool.entries = front ++ e :: back) (hback : ∀ x ∈ back, x.key = none)
    (hkey : e.key.isSome = true) :
    PoolOk { pool with
        entries := pool.entries.modify front.length (fun e => { e with key := none, idle := 0 }) } ∧
      remembered { pool with
        entries := pool.entries.modify front.length (fun e => { e with key := none, idle := 0 }) } =
        front.filterMap (candidate pool.strings) := by
  have hfront := compact_front h hentries hkey
  have hsize := h.size
  have hown := h.own
  have hdistinct := h.distinct
  have hascending := h.ascending
  unfold remembered at hascending
  rw [hentries] at hsize hown hdistinct hascending ⊢
  rw [modify_at]
  have hfree : ∀ x ∈ { e with key := none, idle := 0 } :: back, x.key = none := by
    intro x hx
    rcases mem_cons.mp hx with hx | hx
    · rw [hx]
    · exact hback x hx
  have hremember : remembered
      { pool with entries := front ++ { e with key := none, idle := 0 } :: back } =
        front.filterMap (candidate pool.strings) := by
    unfold remembered
    rw [filterMap_append, filterMap_free hfree, append_nil]
  refine ⟨?_, hremember⟩
  constructor
  · rw [length_append, length_cons] at hsize ⊢
    exact hsize
  · exact ⟨front, _, rfl, hfront, hfree⟩
  · intro x hx
    rcases mem_append.mp hx with hx | hx
    · exact hown x (mem_append_left _ hx)
    · intro buffer hbuffer
      rw [hfree x hx] at hbuffer
      cases hbuffer
  · rw [map_append, map_cons] at hdistinct ⊢
    exact hdistinct
  · rw [hremember]
    rw [filterMap_append] at hascending
    exact (pairwise_append.mp hascending).1

/-- What the scan does: it forgets the candidates on the right of the victim, which are not found any
more, and the victim. -/
def Takes (found : ℕ → Bytes → Bool) (l : List Candidate) (l' : List Candidate) :
    Option (ℕ × Bytes) → Prop
  | none => l' = [] ∧ ∀ c ∈ l, found c.dbid c.key = false
  | some (dbid, key) => ∃ idle ghosts, l = l' ++ { idle := idle, key := key, dbid := dbid } :: ghosts ∧
      found dbid key = true ∧ ∀ c ∈ ghosts, found c.dbid c.key = false

theorem takeBest_ok (found : ℕ → Bytes → Bool) (k : ℕ) : ∀ {pool : Pool}
    {front back : List EvictionPoolEntry}, PoolOk pool → pool.entries = front ++ back →
    front.length = k → (∀ x ∈ back, x.key = none) →
    PoolOk (takeBest found k pool).1 ∧
      Takes found (remembered pool) (remembered (takeBest found k pool).1) (takeBest found k pool).2 := by
  induction k with
  | zero =>
    intro pool front back h hentries hlen hback
    have hnil : remembered pool = [] := by
      unfold remembered
      rw [hentries, List.eq_nil_of_length_eq_zero hlen, List.nil_append, filterMap_free hback]
    rw [takeBest]
    refine ⟨h, hnil, ?_⟩
    rw [hnil]
    exact fun c hc => absurd hc not_mem_nil
  | succ k ih =>
    intro pool front back h hentries hlen hback
    rcases eq_nil_or_concat' front with hnil | ⟨front', e, hfront⟩
    · rw [hnil] at hlen
      cases hlen
    · have hlen' : front'.length = k := by
        rw [hfront, length_append, List.length_singleton] at hlen
        omega
      have hcons : pool.entries = front' ++ e :: back := by
        rw [hentries, hfront, append_assoc]
        rfl
      have hat : entryAt pool.entries k = e := by
        rw [hcons, ← hlen', entryAt_front]
      rw [takeBest, hat]
      cases hkey : e.key with
      | none =>
        dsimp only
        apply ih h hcons hlen'
        intro x hx
        rcases mem_cons.mp hx with hx | hx
        · rw [hx]
          exact hkey
        · exact hback x hx
      | some s =>
        dsimp only
        have hsome : e.key.isSome = true := by
          rw [hkey]
          rfl
        obtain ⟨hok, hremember⟩ := emptied_ok h hcons hback hsome
        rw [hlen'] at hok hremember
        have hsplit : remembered pool = front'.filterMap (candidate pool.strings) ++
            [{ idle := e.idle, key := keyText pool.strings s, dbid := e.dbid }] := by
          have hcand : candidate pool.strings e =
              some { idle := e.idle, key := keyText pool.strings s, dbid := e.dbid } := by
            unfold candidate
            rw [hkey, map_some]
          unfold remembered
          rw [hcons, filterMap_append, filterMap_cons_some hcand, filterMap_free hback]
        by_cases hfound : found e.dbid (keyText pool.strings s) = true
        · rw [if_pos hfound]
          refine ⟨hok, e.idle, [], ?_, hfound, fun c hc => absurd hc not_mem_nil⟩
          rw [hremember]
          exact hsplit
        · rw [if_neg hfound]
          have hmodify : (pool.entries.modify k (fun e => { e with key := none, idle := 0 })) =
              front' ++ { e with key := none, idle := 0 } :: back := by
            rw [hcons, ← hlen', modify_at]
          obtain ⟨hnext, htakes⟩ := ih hok hmodify hlen' (by
            intro x hx
            rcases mem_cons.mp hx with hx | hx
            · rw [hx]
            · exact hback x hx)
          refine ⟨hnext, ?_⟩
          rw [hremember] at htakes
          rw [hsplit]
          have hghost := Bool.eq_false_iff.mpr hfound
          cases hresult : (takeBest found k { pool with
              entries := pool.entries.modify k (fun e => { e with key := none, idle := 0 }) }).2 with
          | none =>
            rw [hresult] at htakes
            refine ⟨htakes.1, ?_⟩
            intro c hc
            rcases mem_append.mp hc with hc | hc
            · exact htakes.2 c hc
            · rw [List.mem_singleton.mp hc]
              exact hghost
          | some victim =>
            rw [hresult] at htakes
            obtain ⟨idle, ghosts, hvictim, hthere, hghosts⟩ := htakes
            refine ⟨idle, ghosts ++ [{ idle := e.idle, key := keyText pool.strings s, dbid := e.dbid }],
              ?_, hthere, ?_⟩
            · rw [hvictim, append_assoc]
              rfl
            · intro c hc
              rcases mem_append.mp hc with hc | hc
              · exact hghosts c hc
              · rw [List.mem_singleton.mp hc]
                exact hghost

/-- What a sample changes: there is room for it, or all of the others are not smaller, or the
smallest one gives way. -/
def Remembers (c : Candidate) (l l' : List Candidate) : Prop :=
  (l.length < evpoolSize ∧ l' = insertCandidate c l) ∨
    (l.length = evpoolSize ∧ l' = l ∧ ∀ x ∈ l, c.idle ≤ x.idle) ∨
    ∃ least rest, l = least :: rest ∧ l.length = evpoolSize ∧ least.idle < c.idle ∧
      (∀ x ∈ rest, least.idle ≤ x.idle) ∧ l' = insertCandidate c rest

/-- What the samples of one call change, one after the other. -/
def RemembersAll : List Candidate → List Candidate → List Candidate → Prop
  | [], l, l' => l' = l
  | c :: cs, l, l'' => ∃ l', Remembers c l l' ∧ RemembersAll cs l' l''

theorem remember_spec (hl : l.Pairwise (fun c c' => c.idle ≤ c'.idle))
    (hlen : l.length ≤ evpoolSize) (c : Candidate) : Remembers c l (remember c l) := by
  unfold remember
  by_cases hroom : l.length < evpoolSize
  · rw [if_pos hroom]
    exact Or.inl ⟨hroom, rfl⟩
  · have hfull : l.length = evpoolSize := le_antisymm hlen (not_lt.mp hroom)
    rw [if_neg hroom]
    right
    cases l with
    | nil => cases hfull
    | cons least rest =>
      obtain ⟨hleast, -⟩ := pairwise_cons.mp hl
      by_cases hlt : least.idle < c.idle
      · right
        have hinsert : (insertCandidate c (least :: rest)).tail = insertCandidate c rest := by
          unfold insertCandidate
          simp only [takeWhile_cons, List.dropWhile_cons, hlt, decide_true, if_true, cons_append,
            tail_cons]
        rw [if_neg (by simp only [takeWhile_cons, hlt, decide_true, if_true, reduceCtorEq,
          not_false_eq_true]), hinsert]
        exact ⟨least, rest, rfl, hfull, hlt, hleast, rfl⟩
      · left
        rw [if_pos (by simp only [takeWhile_cons, hlt, decide_false, Bool.false_eq_true, if_false])]
        refine ⟨hfull, rfl, ?_⟩
        intro x hx
        rcases mem_cons.mp hx with hx | hx
        · rw [hx]
          exact not_lt.mp hlt
        · exact (not_lt.mp hlt).trans (hleast x hx)

theorem insertCandidate_mem {c : Candidate} (h : x ∈ insertCandidate c l) : x = c ∨ x ∈ l := by
  unfold insertCandidate at h
  rcases mem_append.mp h with h | h
  · exact Or.inr ((List.takeWhile_sublist _).mem h)
  · rcases mem_cons.mp h with h | h
    · exact Or.inl h
    · exact Or.inr ((List.dropWhile_sublist _).mem h)

theorem Remembers.mem (h : Remembers c l l') (hx : x ∈ l') : x = c ∨ x ∈ l := by
  rcases h with ⟨-, h⟩ | ⟨-, h, -⟩ | ⟨least, rest, hl, -, -, -, h⟩
  · rw [h] at hx
    exact insertCandidate_mem hx
  · rw [h] at hx
    exact Or.inr hx
  · rw [h] at hx
    rw [hl]
    exact (insertCandidate_mem hx).imp_right (mem_cons_of_mem least)

theorem Takes.mem {found : ℕ → Bytes → Bool} {victim : Option (ℕ × Bytes)}
    (h : Takes found l l' victim) (hx : x ∈ l') : x ∈ l := by
  cases victim with
  | none =>
    rw [h.1] at hx
    cases hx
  | some v =>
    obtain ⟨idle, ghosts, hl, -⟩ := h
    rw [hl]
    exact mem_append_left _ hx

theorem remembered_length (h : PoolOk pool) : (remembered pool).length ≤ evpoolSize := by
  rw [← h.size]
  exact List.length_filterMap_le _ _

theorem evictionPoolAlloc_ok : PoolOk evictionPoolAlloc := by
  have hempty : ∀ e ∈ evictionPoolAlloc.entries, e.key = none := by
    intro e he
    obtain ⟨j, -, hj⟩ := List.mem_map.mp he
    rw [← hj]
  constructor
  · rfl
  · exact ⟨[], evictionPoolAlloc.entries, rfl, fun e he => absurd he not_mem_nil, hempty⟩
  · intro e he buffer hbuffer
    rw [hempty e he] at hbuffer
    cases hbuffer
  · decide
  · unfold remembered
    rw [filterMap_free hempty]
    exact List.Pairwise.nil

theorem RemembersAll.mem {cs : List Candidate} : ∀ {l l' : List Candidate}, RemembersAll cs l l' →
    x ∈ l' → x ∈ cs ∨ x ∈ l := by
  induction cs with
  | nil =>
    intro l l' h hx
    rw [show l' = l from h] at hx
    exact Or.inr hx
  | cons c cs ih =>
    intro l l'' h hx
    obtain ⟨l', hone, hrest⟩ := h
    rcases ih hrest hx with hx | hx
    · exact Or.inl (mem_cons_of_mem c hx)
    · rcases hone.mem hx with hx | hx
      · exact Or.inl (hx ▸ mem_cons_self)
      · exact Or.inr hx

theorem addSamples_ok {cs : List Candidate} (hfits : ∀ c ∈ cs, KeyFits c.key) : ∀ {pool : Pool},
    PoolOk pool → ∃ pool', cs.foldlM addSample pool = .ok pool' ∧ PoolOk pool' ∧
      RemembersAll cs (remembered pool) (remembered pool') := by
  induction cs with
  | nil => exact fun {pool} h => ⟨pool, rfl, h, rfl⟩
  | cons c cs ih =>
    intro pool h
    obtain ⟨pool1, hadd, hok, hremember⟩ := addSample_ok h (hfits c mem_cons_self)
    have hspec := remember_spec h.ascending (remembered_length h) c
    rw [← hremember] at hspec
    obtain ⟨pool', hrest, hok', hall⟩ := ih (fun x hx => hfits x (mem_cons_of_mem c hx)) hok
    refine ⟨pool', ?_, hok', _, hspec, hall⟩
    rw [List.foldlM_cons, hadd]
    exact hrest

theorem run_ok (events : List Event) : ∀ {pool : Pool} {seen : List Candidate}, PoolOk pool →
    (∀ x ∈ remembered pool, x ∈ seen) → (∀ c ∈ sampled events, KeyFits c.key) →
    ∃ pool', events.foldlM step pool = .ok pool' ∧ PoolOk pool' ∧
      ∀ x ∈ remembered pool', x ∈ seen ++ sampled events := by
  induction events with
  | nil =>
    intro pool seen h hseen _
    refine ⟨pool, rfl, h, ?_⟩
    rw [sampled, append_nil]
    exact hseen
  | cons e events ih =>
    intro pool seen h hseen hfits
    cases e with
    | populate dbid samples =>
      obtain ⟨pool1, hpopulate, hok, hall⟩ :=
        addSamples_ok (fun c hc => hfits c (mem_append_left _ hc)) h
      have hmem : ∀ x ∈ remembered pool1, x ∈ seen ++ candidates dbid samples := by
        intro x hx
        rcases hall.mem hx with hx | hx
        · exact mem_append_right _ hx
        · exact mem_append_left _ (hseen x hx)
      obtain ⟨pool', hrun, hok', hmem'⟩ := ih hok hmem fun c hc => hfits c (mem_append_right _ hc)
      refine ⟨pool', ?_, hok', fun x hx => ?_⟩
      · rw [List.foldlM_cons, step, evictionPoolPopulate, hpopulate]
        exact hrun
      · rw [sampled, ← append_assoc]
        exact hmem' x hx
    | take found =>
      have hsize : pool.entries.length = evpoolSize := h.size
      obtain ⟨hok, htakes⟩ := takeBest_ok found evpoolSize h (append_nil pool.entries).symm hsize
        (fun x hx => absurd hx not_mem_nil)
      exact ih hok (fun x hx => hseen x (htakes.mem hx)) hfits

/-- The eviction pool after any run, if all keys that are sampled are copied whole: it is in order and
every key in it was sampled with its idle time and database; a sample takes the place of the smallest
one when there is no room; and the next victim is the greatest candidate that still is found. -/
theorem evictionPool_run (events : List Event) (hfits : ∀ c ∈ sampled events, KeyFits c.key) :
    ∃ pool, run events = .ok pool ∧ PoolOk pool ∧ (∀ x ∈ remembered pool, x ∈ sampled events) ∧
      (∀ dbid samples, (∀ c ∈ candidates dbid samples, KeyFits c.key) →
        ∃ pool', evictionPoolPopulate dbid samples pool = .ok pool' ∧
          RemembersAll (candidates dbid samples) (remembered pool) (remembered pool')) ∧
      ∀ found, Takes found (remembered pool) (remembered (takeBest found evpoolSize pool).1)
          (takeBest found evpoolSize pool).2 ∧
        ∀ dbid key, (takeBest found evpoolSize pool).2 = some (dbid, key) →
          ∃ idle, { idle := idle, key := key, dbid := dbid } ∈ remembered pool ∧
            ∀ x ∈ remembered pool, idle < x.idle → found x.dbid x.key = false := by
  obtain ⟨pool, hrun, hok, hmem⟩ := @run_ok events evictionPoolAlloc [] evictionPoolAlloc_ok
    (fun x hx => hx) hfits
  have hascending := hok.ascending
  refine ⟨pool, hrun, hok, hmem, ?_, ?_⟩
  · intro dbid samples hsamples
    obtain ⟨pool', hpopulate, -, hall⟩ := addSamples_ok hsamples hok
    exact ⟨pool', hpopulate, hall⟩
  · intro found
    have htakes := (takeBest_ok found evpoolSize hok (append_nil _).symm hok.size
      (fun x hx => absurd hx not_mem_nil)).2
    refine ⟨htakes, ?_⟩
    intro dbid key hvictim
    rw [hvictim] at htakes
    obtain ⟨idle, ghosts, hl, -, hghosts⟩ := htakes
    rw [hl] at hascending ⊢
    refine ⟨idle, mem_append_right _ mem_cons_self, ?_⟩
    intro x hx hlt
    rcases mem_append.mp hx with hx | hx
    · have hle := (pairwise_append.mp hascending).2.2 x hx _ mem_cons_self
      dsimp only at hle
      omega
    · rcases mem_cons.mp hx with hx | hx
      · rw [hx] at hlt
        exact absurd hlt (lt_irrefl _)
      · exact hghosts x hx

end

/-- Twenty samples for the sixteen entries, one of them of 300 bytes, and an eviction. -/
def sampleEvents : List Event :=
  [.populate 2 ((List.range 19).map fun i => ([UInt8.ofNat i], 80+i)),
    .populate 5 [(List.replicate 300 97, 95)], .take (fun _ key => key.length = 300)]

theorem evictionPool_run_twenty : ∃ pool, run sampleEvents = .ok pool ∧ PoolOk pool ∧
    (remembered pool).map (fun c => (c.idle, c.key)) =
      (List.range 11).map fun i => (84+i, [UInt8.ofNat (4+i)]) := by
  obtain ⟨pool, hrun, hok, -⟩ := evictionPool_run sampleEvents (by decide +kernel)
  have heval : (run sampleEvents).toOption.map
      (fun pool => (remembered pool).map (fun c => (c.idle, c.key))) =
      some ((List.range 11).map fun i => (84+i, [UInt8.ofNat (4+i)])) := by
    decide +kernel
  rw [hrun] at heval
  exact ⟨pool, hrun, hok, Option.some.inj heval⟩

/-- The `int` length of a key of 2^32+5 bytes is 5. -/
theorem evictionPool_cuts_key : ¬∀ (events : List Event) (pool : Pool), run events = .ok pool →
    ∀ x ∈ remembered pool, x ∈ sampled events := by
  intro h
  obtain ⟨key, hlen⟩ : ∃ key : Bytes, key.length = 2^32+5 :=
    ⟨List.replicate (2^32+5) 97, List.length_replicate⟩
  have hklen : toInt key.length = 5 := by
    rw [hlen]
    decide
  have hroom : makeRoom evictionPoolAlloc.entries 1 = some (evictionPoolAlloc.entries, 0) := by decide
  let cut := copyKey (evictionPoolAlloc.strings 0) key 5
  have hrun : run [.populate 0 [(key, 1)]] = .ok
      { entries := evictionPoolAlloc.entries.modify 0
          (fun e => { e with key := some (.cached e.cached), idle := 1, dbid := 0 })
        strings := Function.update evictionPoolAlloc.strings 0 cut } := by
    simp only [run, List.foldlM_cons, List.foldlM_nil, step, evictionPoolPopulate, candidates, map_cons,
      List.map_nil, addSample, hroom, storeKey, hklen]
    rfl
  have hcut : cut.text.length ≤ 5 := List.length_take_le _ _
  have hcand : candidate (Function.update evictionPoolAlloc.strings 0 cut) ⟨1, some (.cached 0), 0, 0⟩ =
      some ⟨1, cut.text, 0⟩ := by
    simp only [candidate, keyText, map_some, Function.update_self]
  have hmem := h _ _ hrun ⟨1, cut.text, 0⟩ (List.mem_filterMap.mpr ⟨_, mem_cons_self, hcand⟩)
  simp only [sampled, candidates, map_cons, List.map_nil, append_nil, List.mem_singleton,
    Candidate.mk.injEq, and_true, true_and] at hmem
  rw [hmem, hlen] at hcut
  exact absurd hcut (by decide)

end RedisCore.Eviction
