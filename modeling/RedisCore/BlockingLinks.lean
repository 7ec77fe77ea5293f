import RedisCore.BlockingModel
import RedisCore.TableSum

namespace RedisCore.Blocking
open Function (update_of_ne update_self)

open TableSum

variable {α : Type}

def clientsOf (table : AList (fun _ : Key => List ClientId)) (key : Key) : List ClientId :=
  (table.lookup key).getD []

def Inhabited (table : AList (fun _ : Key => List ClientId)) : Prop := ∀ key, table.lookup key ≠ some []

theorem clientsOf_insert (table : AList (fun _ : Key => List ClientId)) (key k : Key) (l : List ClientId) :
    clientsOf (table.insert key l) k = if k = key then l else clientsOf table k := by
  unfold clientsOf
  by_cases hk : k = key
  · subst hk
    rw [if_pos rfl, AList.lookup_insert, Option.getD_some]
  · rw [if_neg hk, AList.lookup_insert_ne hk]

theorem clientsOf_erase (table : AList (fun _ : Key => List ClientId)) (key k : Key) :
    clientsOf (table.erase key) k = if k = key then [] else clientsOf table k := by
  unfold clientsOf
  by_cases hk : k = key
  · subst hk
    rw [if_pos rfl, AList.lookup_erase, Option.getD_none]
  · rw [if_neg hk, AList.lookup_erase_ne hk]

theorem inhabited_insert {table : AList (fun _ : Key => List ClientId)} (h : Inhabited table) (key : Key)
    {l : List ClientId} (hl : l ≠ []) : Inhabited (table.insert key l) := by
  intro k hk
  by_cases hkey : k = key
  · subst hkey
    rw [AList.lookup_insert] at hk
    exact hl (Option.some.inj hk)
  · rw [AList.lookup_insert_ne hkey] at hk
    exact h k hk

theorem inhabited_erase {table : AList (fun _ : Key => List ClientId)} (h : Inhabited table) (key : Key) :
    Inhabited (table.erase key) := by
  intro k hk
  by_cases hkey : k = key
  · subst hkey
    rw [AList.lookup_erase] at hk
    cases hk
  · rw [AList.lookup_erase_ne hkey] at hk
    exact h k hk

theorem clientsOf_addWaiting (c : ClientId) (d : ℕ) (table : AList (fun _ : Key => List ClientId))
    (name : Bytes) (key : Key) :
    clientsOf (addWaiting c d table name) key =
      if key = (d, name) then clientsOf table key ++ [c] else clientsOf table key := by
  unfold addWaiting
  rw [clientsOf_insert]
  by_cases hk : key = (d, name)
  · rw [if_pos hk, if_pos hk, hk]
    rfl
  · rw [if_neg hk, if_neg hk]

theorem clientsOf_removeWaiting (c : ClientId) (d : ℕ) (table : AList (fun _ : Key => List ClientId))
    (name : Bytes) (key : Key) :
    clientsOf (removeWaiting c d table name) key =
      if key = (d, name) then (clientsOf table key).erase c else clientsOf table key := by
  unfold removeWaiting
  by_cases hk : key = (d, name)
  · subst hk
    rw [if_pos rfl]
    by_cases hempty : ((table.lookup (d, name)).getD []).erase c = []
    · rw [if_pos hempty, clientsOf_erase, if_pos rfl]
      exact hempty.symm
    · rw [if_neg hempty, clientsOf_insert, if_pos rfl]
      rfl
  · rw [if_neg hk]
    by_cases hempty : ((table.lookup (d, name)).getD []).erase c = []
    · rw [if_pos hempty, clientsOf_erase, if_neg hk]
    · rw [if_neg hempty, clientsOf_insert, if_neg hk]

theorem inhabited_addWaiting (c : ClientId) (d : ℕ) {table : AList (fun _ : Key => List ClientId)}
    (h : Inhabited table) (name : Bytes) : Inhabited (addWaiting c d table name) := by
  apply inhabited_insert h
  exact List.append_ne_nil_of_right_ne_nil _ (List.cons_ne_nil c [])

theorem inhabited_removeWaiting (c : ClientId) (d : ℕ) {table : AList (fun _ : Key => List ClientId)}
    (h : Inhabited table) (name : Bytes) : Inhabited (removeWaiting c d table name) := by
  unfold removeWaiting
  by_cases hempty : ((table.lookup (d, name)).getD []).erase c = []
  · rw [if_pos hempty]
    exact inhabited_erase h _
  · rw [if_neg hempty]
    exact inhabited_insert h _ hempty

theorem clientsOf_addAll (c : ClientId) (d : ℕ) (key : Key) (names : List Bytes) (hnames : names.Nodup)
    (table : AList (fun _ : Key => List ClientId)) :
    clientsOf (names.foldl (addWaiting c d) table) key =
      if key.1 = d ∧ key.2 ∈ names then clientsOf table key ++ [c] else clientsOf table key := by
  induction names generalizing table with
  | nil => rw [List.foldl_nil, if_neg (fun h => List.not_mem_nil h.2)]
  | cons name names ih =>
    have hrest := List.nodup_cons.mp hnames
    rw [List.foldl_cons, ih hrest.2, clientsOf_addWaiting]
    by_cases hkey : key = (d, name)
    · -- the other names are different from this one
      subst hkey
      rw [if_pos rfl, if_neg (fun h => hrest.1 h.2), if_pos ⟨rfl, List.mem_cons_self⟩]
    · rw [if_neg hkey]
      by_cases hmem : key.1 = d ∧ key.2 ∈ names
      · rw [if_pos hmem, if_pos ⟨hmem.1, List.mem_cons_of_mem _ hmem.2⟩]
      · rw [if_neg hmem, if_neg]
        intro h
        cases List.mem_cons.mp h.2 with
        | inl hname => exact hkey (Prod.ext h.1 hname)
        | inr hname => exact hmem ⟨h.1, hname⟩

theorem clientsOf_removeAll (c : ClientId) (d : ℕ) (key : Key) (names : List Bytes) (hnames : names.Nodup)
    (table : AList (fun _ : Key => List ClientId)) :
    clientsOf (names.foldl (removeWaiting c d) table) key =
      if key.1 = d ∧ key.2 ∈ names then (clientsOf table key).erase c else clientsOf table key := by
  induction names generalizing table with
  | nil => rw [List.foldl_nil, if_neg (fun h => List.not_mem_nil h.2)]
  | cons name names ih =>
    have hrest := List.nodup_cons.mp hnames
    rw [List.foldl_cons, ih hrest.2, clientsOf_removeWaiting]
    by_cases hkey : key = (d, name)
    · subst hkey
      rw [if_pos rfl, if_neg (fun h => hrest.1 h.2), if_pos ⟨rfl, List.mem_cons_self⟩]
    · rw [if_neg hkey]
      by_cases hmem : key.1 = d ∧ key.2 ∈ names
      · rw [if_pos hmem, if_pos ⟨hmem.1, List.mem_cons_of_mem _ hmem.2⟩]
      · rw [if_neg hmem, if_neg]
        intro h
        cases List.mem_cons.mp h.2 with
        | inl hname => exact hkey (Prod.ext h.1 hname)
        | inr hname => exact hmem ⟨h.1, hname⟩

theorem inhabited_addAll (c : ClientId) (d : ℕ) (names : List Bytes)
    {table : AList (fun _ : Key => List ClientId)} (h : Inhabited table) :
    Inhabited (names.foldl (addWaiting c d) table) := by
  induction names generalizing table with
  | nil => exact h
  | cons name names ih => exact ih (inhabited_addWaiting c d h name)

theorem inhabited_removeAll (c : ClientId) (d : ℕ) (names : List Bytes)
    {table : AList (fun _ : Key => List ClientId)} (h : Inhabited table) :
    Inhabited (names.foldl (removeWaiting c d) table) := by
  induction names generalizing table with
  | nil => exact h
  | cons name names ih => exact ih (inhabited_removeWaiting c d h name)

theorem total_removeWaiting (c : ClientId) (d : ℕ) (table : AList (fun _ : Key => List ClientId))
    (name : Bytes) :
    tableSum List.length (removeWaiting c d table name) + (if c ∈ clientsOf table (d, name) then 1 else 0) =
      tableSum List.length table := by
  have hold : valueAt List.length table (d, name) = (clientsOf table (d, name)).length := by
    unfold valueAt clientsOf
    cases table.lookup (d, name) with
    | none => rfl
    | some l => rfl
  have hlength : ((clientsOf table (d, name)).erase c).length +
      (if c ∈ clientsOf table (d, name) then 1 else 0) = (clientsOf table (d, name)).length := by
    by_cases hc : c ∈ clientsOf table (d, name)
    · rw [if_pos hc, List.length_erase_of_mem hc]
      have hpos := List.length_pos_of_mem hc
      omega
    · rw [if_neg hc, List.erase_of_not_mem hc, add_zero]
  unfold removeWaiting
  by_cases hempty : ((table.lookup (d, name)).getD []).erase c = []
  · rw [if_pos hempty]
    have hsum := tableSum_erase List.length table (d, name)
    have hzero : ((clientsOf table (d, name)).erase c).length = 0 := by
      rw [show (clientsOf table (d, name)).erase c = [] from hempty, List.length_nil]
    omega
  · rw [if_neg hempty]
    have hsum := tableSum_insert List.length table (d, name)
      (((table.lookup (d, name)).getD []).erase c)
    have hnew : (((table.lookup (d, name)).getD []).erase c).length =
      ((clientsOf table (d, name)).erase c).length := rfl
    omega

theorem total_removeAll (c : ClientId) (d : ℕ) (names : List Bytes)
    (table : AList (fun _ : Key => List ClientId)) :
    tableSum List.length (names.foldl (removeWaiting c d) table) ≤ tableSum List.length table := by
  induction names generalizing table with
  | nil => exact le_refl _
  | cons name names ih =>
    have hone := total_removeWaiting c d table name
    calc tableSum List.length (names.foldl (removeWaiting c d) (removeWaiting c d table name))
        ≤ tableSum List.length (removeWaiting c d table name) := ih _
      _ ≤ tableSum List.length table := by omega

theorem total_removeAll_lt (c : ClientId) (d : ℕ) (names : List Bytes) (hnames : names.Nodup)
    (table : AList (fun _ : Key => List ClientId)) {name : Bytes} (hname : name ∈ names)
    (hc : c ∈ clientsOf table (d, name)) :
    tableSum List.length (names.foldl (removeWaiting c d) table) < tableSum List.length table := by
  induction names generalizing table with
  | nil => cases hname
  | cons first names ih =>
    have hrest := List.nodup_cons.mp hnames
    have hone := total_removeWaiting c d table first
    rw [List.foldl_cons]
    cases List.mem_cons.mp hname with
    | inl hfirst =>
      subst hfirst
      rw [if_pos hc] at hone
      have hle := total_removeAll c d names (removeWaiting c d table name)
      omega
    | inr htail =>
      have hne : (d, name) ≠ (d, first) := by
        intro h
        rw [← (Prod.mk.inj h).2] at hrest
        exact hrest.1 htail
      have hstill : c ∈ clientsOf (removeWaiting c d table first) (d, name) := by
        rw [clientsOf_removeWaiting, if_neg hne]
        exact hc
      have hlt := ih hrest.2 _ htail hstill
      omega

def sinceOf (client : ClientId → Option Blocked) (c : ClientId) : ℕ := ((client c).map Blocked.since).getD 0

structure Linked (table : AList (fun _ : Key => List ClientId)) (client : ClientId → Option Blocked)
    (clock : ℕ) : Prop where
  member : ∀ c key, c ∈ clientsOf table key ↔ ∃ b, client c = some b ∧ b.db = key.1 ∧ key.2 ∈ b.keys
  inhabited : Inhabited table
  ordered : ∀ key, (clientsOf table key).Pairwise (fun c e => sinceOf client c < sinceOf client e)
  names : ∀ c b, client c = some b → b.keys.Nodup
  past : ∀ c b, client c = some b → b.since < clock

theorem linked_empty : Linked ∅ (fun _ => none) 0 := by
  refine ⟨?_, ?_, ?_, ?_, ?_⟩
  · intro c key
    constructor
    · intro h
      cases h
    · intro h
      obtain ⟨b, hb, _⟩ := h
      cases hb
  · intro key h
    cases h
  · intro key
    exact List.Pairwise.nil
  · intro c b h
    cases h
  · intro c b h
    cases h

variable {client : ClientId → Option Blocked} {clock : ℕ} {c : ClientId} {b : Blocked}

theorem linked_nodup {table : AList (fun _ : Key => List ClientId)} (h : Linked table client clock)
    (key : Key) : (clientsOf table key).Nodup := by
  apply (h.ordered key).imp
  intro c e hlt heq
  rw [heq] at hlt
  exact lt_irrefl _ hlt

theorem linked_block {table : AList (fun _ : Key => List ClientId)} (h : Linked table client clock)
    (hc : client c = none) (b : Blocked)
    (hnames : b.keys.Nodup) (hsince : b.since = clock) :
    Linked (b.keys.foldl (addWaiting c b.db) table) (Function.update client c (some b)) (clock + 1) := by
  -- the client waits for nothing yet
  have hfresh : ∀ key, c ∉ clientsOf table key := by
    intro key hmem
    obtain ⟨b', hb', _⟩ := (h.member c key).mp hmem
    rw [hc] at hb'
    cases hb'
  have hothers : ∀ key, ∀ e ∈ clientsOf table key, Function.update client c (some b) e = client e := by
    intro key e he
    apply update_of_ne
    intro heq
    exact hfresh key (heq ▸ he)
  refine ⟨?_, inhabited_addAll c b.db b.keys h.inhabited, ?_, ?_, ?_⟩
  · intro e key
    rw [clientsOf_addAll c b.db key b.keys hnames]
    by_cases he : e = c
    · subst he
      rw [update_self]
      by_cases hkey : key.1 = b.db ∧ key.2 ∈ b.keys
      · rw [if_pos hkey]
        refine ⟨fun _ => ⟨b, rfl, hkey.1.symm, hkey.2⟩, fun _ => ?_⟩
        exact List.mem_append_right _ (List.mem_singleton.mpr rfl)
      · rw [if_neg hkey]
        refine ⟨fun hmem => absurd hmem (hfresh key), ?_⟩
        intro hblocked
        obtain ⟨b', hb', hdb, hname⟩ := hblocked
        rw [← Option.some.inj hb'] at hdb hname
        exact absurd ⟨hdb.symm, hname⟩ hkey
    · rw [update_of_ne he, ← h.member e key]
      by_cases hkey : key.1 = b.db ∧ key.2 ∈ b.keys
      · rw [if_pos hkey, List.mem_append, List.mem_singleton]
        exact or_iff_left he
      · rw [if_neg hkey]
  · intro key
    have hold : (clientsOf table key).Pairwise
        (fun x y => sinceOf (Function.update client c (some b)) x <
          sinceOf (Function.update client c (some b)) y) := by
      apply (h.ordered key).imp_of_mem
      intro x y hx hy hlt
      unfold sinceOf at hlt ⊢
      rw [hothers key x hx, hothers key y hy]
      exact hlt
    rw [clientsOf_addAll c b.db key b.keys hnames]
    by_cases hkey : key.1 = b.db ∧ key.2 ∈ b.keys
    · rw [if_pos hkey, List.pairwise_append]
      refine ⟨hold, List.pairwise_singleton _ _, ?_⟩
      intro x hx y hy
      rw [List.mem_singleton.mp hy]
      obtain ⟨b', hb', _⟩ := (h.member x key).mp hx
      unfold sinceOf
      rw [hothers key x hx, update_self, hb', Option.map_some, Option.map_some, Option.getD_some,
        Option.getD_some, hsince]
      exact h.past x b' hb'
    · rw [if_neg hkey]
      exact hold
  · intro e b' hb'
    by_cases he : e = c
    · rw [he, update_self] at hb'
      rw [← Option.some.inj hb']
      exact hnames
    · rw [update_of_ne he] at hb'
      exact h.names e b' hb'
  · intro e b' hb'
    by_cases he : e = c
    · rw [he, update_self] at hb'
      rw [← Option.some.inj hb', hsince]
      exact Nat.lt_succ_self clock
    · rw [update_of_ne he] at hb'
      exact Nat.lt_succ_of_lt (h.past e b' hb')

theorem removeAll_erase {table : AList (fun _ : Key => List ClientId)}
    (h : Linked table client clock) (hc : client c = some b)
    (key : Key) :
    clientsOf (b.keys.foldl (removeWaiting c b.db) table) key = (clientsOf table key).erase c := by
  rw [clientsOf_removeAll c b.db key b.keys (h.names c b hc)]
  by_cases hkey : key.1 = b.db ∧ key.2 ∈ b.keys
  · rw [if_pos hkey]
  · rw [if_neg hkey, List.erase_of_not_mem]
    intro hmem
    obtain ⟨b', hb', hdb, hname⟩ := (h.member c key).mp hmem
    rw [hc] at hb'
    rw [← Option.some.inj hb'] at hdb hname
    exact hkey ⟨hdb.symm, hname⟩

theorem linked_unblock {table : AList (fun _ : Key => List ClientId)}
    (h : Linked table client clock) (hc : client c = some b) :
    Linked (b.keys.foldl (removeWaiting c b.db) table) (Function.update client c none) clock := by
  have herase := removeAll_erase h hc
  refine ⟨?_, inhabited_removeAll c b.db b.keys h.inhabited, ?_, ?_, ?_⟩
  · intro e key
    rw [herase, (linked_nodup h key).mem_erase_iff, h.member e key]
    by_cases he : e = c
    · subst he
      rw [update_self]
      refine ⟨fun hmem => absurd rfl hmem.1, ?_⟩
      intro hblocked
      obtain ⟨b', hb', _⟩ := hblocked
      cases hb'
    · rw [update_of_ne he]
      exact and_iff_right he
  · intro key
    rw [herase]
    apply List.Pairwise.imp_of_mem _ ((h.ordered key).sublist List.erase_sublist)
    intro x y hx hy hlt
    have hxc := ((linked_nodup h key).mem_erase_iff.mp hx).1
    have hyc := ((linked_nodup h key).mem_erase_iff.mp hy).1
    unfold sinceOf at hlt ⊢
    rw [update_of_ne hxc, update_of_ne hyc]
    exact hlt
  · intro e b' hb'
    by_cases he : e = c
    · rw [he, update_self] at hb'
      cases hb'
    · rw [update_of_ne he] at hb'
      exact h.names e b' hb'
  · intro e b' hb'
    by_cases he : e = c
    · rw [he, update_self] at hb'
      cases hb'
    · rw [update_of_ne he] at hb'
      exact h.past e b' hb'

theorem linked_same {table table' : AList (fun _ : Key => List ClientId)}
    (h : Linked table client clock)
    (hinhabited : Inhabited table') (hsame : ∀ key, clientsOf table' key = clientsOf table key) :
    Linked table' client clock := by
  refine ⟨?_, hinhabited, ?_, h.names, h.past⟩
  · intro c key
    rw [hsame]
    exact h.member c key
  · intro key
    rw [hsame]
    exact h.ordered key

end RedisCore.Blocking
