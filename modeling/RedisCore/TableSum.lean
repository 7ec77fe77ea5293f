import Mathlib.Data.List.AList
import Mathlib.Algebra.BigOperators.Group.List.Basic

namespace RedisCore.TableSum

variable {K V M : Type} [DecidableEq K] [AddCommMonoid M] {f : V → M}

def tableSum (f : V → M) (t : AList (fun _ : K => V)) : M := (t.entries.map (fun e => f e.2)).sum

def valueAt (f : V → M) (t : AList (fun _ : K => V)) (k : K) : M := ((t.lookup k).map f).getD 0

theorem kerase_sum (f : V → M) (k : K) (l : List (Sigma (fun _ : K => V))) :
    ((l.kerase k).map (fun e => f e.2)).sum + ((l.dlookup k).map f).getD 0 =
      (l.map (fun e => f e.2)).sum := by
  induction l with
  | nil => simp
  | cons e l ih =>
    by_cases hk : k = e.1
    · have hhead : List.kerase k (e :: l) = l := List.kerase_cons_eq hk
      subst hk
      rw [hhead, List.dlookup_cons_eq, List.map_cons, List.sum_cons, add_comm]
      rfl
    · have hhead : List.kerase k (e :: l) = e :: List.kerase k l := List.kerase_cons_ne hk
      rw [hhead, List.dlookup_cons_ne l e hk, List.map_cons, List.sum_cons, List.map_cons, List.sum_cons,
        add_assoc, ih]

theorem tableSum_erase (f : V → M) (t : AList (fun _ : K => V)) (k : K) :
    tableSum f (t.erase k) + valueAt f t k = tableSum f t := kerase_sum f k t.entries

theorem tableSum_insert (f : V → M) (t : AList (fun _ : K => V)) (k : K) (v : V) :
    tableSum f (t.insert k v) + valueAt f t k = tableSum f t + f v := by
  have hsum : tableSum f (t.insert k v) = f v + ((t.entries.kerase k).map (fun e => f e.2)).sum := by
    unfold tableSum
    rw [AList.entries_insert, List.map_cons, List.sum_cons]
  rw [hsum, add_assoc]
  have hrest := kerase_sum f k t.entries
  rw [show valueAt f t k = ((t.entries.dlookup k).map f).getD 0 from rfl, hrest, add_comm]
  rfl

end RedisCore.TableSum
