import Mathlib

/-! The partial quicksort of redis-6.0.9 (`pqsort.c`), by which `SORT` orders only the range of the
vector that it returns. Pointers to elements are their indexes; the range is compared with byte
addresses, as in the source. -/
namespace RedisCore.Pqsort

variable {α : Type} {cmp : α → α → ℤ} {m m' m'' : ℕ → α} {a n b k i j : ℕ}

def swap (m : ℕ → α) (i j : ℕ) : ℕ → α :=
  fun k => if k = i then m j else if k = j then m i else m k

def vecswap (m : ℕ → α) (i j : ℕ) : ℕ → ℕ → α
  | 0 => m
  | n+1 => swap (vecswap m i j n) (i+n) (j+n)

def med3 (cmp : α → α → ℤ) (m : ℕ → α) (a b c : ℕ) : ℕ :=
  if cmp (m a) (m b) < 0 then
    if cmp (m b) (m c) < 0 then b else if cmp (m a) (m c) < 0 then c else a
  else if cmp (m b) (m c) > 0 then b else if cmp (m a) (m c) < 0 then a else c

def sink (cmp : α → α → ℤ) (a : ℕ) : ℕ → (ℕ → α) → ℕ → α
  | 0, m => m
  | k+1, m => if cmp (m (a+k)) (m (a+k+1)) > 0 then sink cmp a k (swap m (a+k+1) (a+k)) else m

def insertionSort (cmp : α → α → ℤ) (a : ℕ) : ℕ → (ℕ → α) → ℕ → α
  | 0, m => m
  | n+1, m => sink cmp a n (insertionSort cmp a n m)

def pivot (cmp : α → α → ℤ) (m : ℕ → α) (a n : ℕ) : ℕ :=
  let pm := a+n/2
  if n > 7 then
    let pl := a
    let pn := a+(n-1)
    if n > 40 then
      let d := n/8
      med3 cmp m (med3 cmp m pl (pl+d) (pl+2*d)) (med3 cmp m (pm-d) pm (pm+d))
        (med3 cmp m (pn-2*d) (pn-d) pn)
    else med3 cmp m pl pm pn
  else pm

structure Cuts where
  pa : ℕ
  pb : ℕ
  pc : ℕ
  pd : ℕ

def scanUp (cmp : α → α → ℤ) (a : ℕ) (m : ℕ → α) (s : Cuts) : (ℕ → α) × Cuts :=
  if s.pb ≤ s.pc ∧ cmp (m s.pb) (m a) ≤ 0 then
    if cmp (m s.pb) (m a) = 0 then
      scanUp cmp a (swap m s.pa s.pb) { s with pa := s.pa+1, pb := s.pb+1 }
    else scanUp cmp a m { s with pb := s.pb+1 }
  else (m, s)
termination_by s.pc+1-s.pb

def scanDown (cmp : α → α → ℤ) (a : ℕ) (m : ℕ → α) (s : Cuts) : (ℕ → α) × Cuts :=
  if s.pb ≤ s.pc ∧ 0 < s.pc ∧ cmp (m s.pc) (m a) ≥ 0 then
    if cmp (m s.pc) (m a) = 0 then
      scanDown cmp a (swap m s.pc s.pd) { s with pc := s.pc-1, pd := s.pd-1 }
    else scanDown cmp a m { s with pc := s.pc-1 }
  else (m, s)
termination_by s.pc

theorem scanUp_pb (cmp : α → α → ℤ) (a : ℕ) (m : ℕ → α) (s : Cuts) :
    s.pb ≤ (scanUp cmp a m s).2.pb ∧ (scanUp cmp a m s).2.pc = s.pc := by
  fun_induction scanUp cmp a m s with
  | case1 m s _ _ ih => exact ⟨by have := ih.1; dsimp only at this; omega, ih.2⟩
  | case2 m s _ _ ih => exact ⟨by have := ih.1; dsimp only at this; omega, ih.2⟩
  | case3 m s _ => exact ⟨le_rfl, rfl⟩

theorem scanDown_pc (cmp : α → α → ℤ) (a : ℕ) (m : ℕ → α) (s : Cuts) :
    (scanDown cmp a m s).2.pc ≤ s.pc ∧ (scanDown cmp a m s).2.pb = s.pb := by
  fun_induction scanDown cmp a m s with
  | case1 m s _ _ ih => exact ⟨by have := ih.1; dsimp only at this; omega, ih.2⟩
  | case2 m s _ _ ih => exact ⟨by have := ih.1; dsimp only at this; omega, ih.2⟩
  | case3 m s _ => exact ⟨le_rfl, rfl⟩

def partition (cmp : α → α → ℤ) (a : ℕ) (m : ℕ → α) (s : Cuts) : (ℕ → α) × Cuts :=
  let up := scanUp cmp a m s
  let r := scanDown cmp a up.1 up.2
  if r.2.pb > r.2.pc then r
  else partition cmp a (swap r.1 r.2.pb r.2.pc) { r.2 with pb := r.2.pb+1, pc := r.2.pc-1 }
termination_by s.pc+1-s.pb
decreasing_by
  have hup := scanUp_pb cmp a m s
  have hdown := scanDown_pc cmp a (scanUp cmp a m s).1 (scanUp cmp a m s).2
  dsimp only [r, up] at *
  omega

structure Regions (cmp : α → α → ℤ) (a n : ℕ) (m : ℕ → α) (s : Cuts) : Prop where
  front : a < s.pa
  low : s.pa ≤ s.pb
  met : s.pb ≤ s.pc+1
  high : s.pc ≤ s.pd
  last : s.pd < a+n
  values : ∀ k, a < k → k < a+n → (k < s.pa ∨ s.pd < k → cmp (m k) (m a) = 0) ∧
    (s.pa ≤ k ∧ k < s.pb → cmp (m k) (m a) < 0) ∧ (s.pc < k ∧ k ≤ s.pd → 0 < cmp (m k) (m a))

def Shuffles (a n : ℕ) (m m' : ℕ → α) : Prop :=
  ∃ σ : Equiv.Perm ℕ, (∀ k, k < a ∨ a+n ≤ k → σ k = k) ∧ m' = m ∘ σ

theorem Shuffles.refl (a n : ℕ) (m : ℕ → α) : Shuffles a n m m := ⟨1, fun _ _ => rfl, rfl⟩

theorem Shuffles.trans (h : Shuffles a n m m') (h' : Shuffles a n m' m'') : Shuffles a n m m'' := by
  obtain ⟨σ, hσ, rfl⟩ := h
  obtain ⟨τ, hτ, rfl⟩ := h'
  refine ⟨σ * τ, fun k hk => ?_, rfl⟩
  rw [Equiv.Perm.mul_apply, hτ k hk, hσ k hk]

theorem swap_eq (m : ℕ → α) (i j : ℕ) : swap m i j = m ∘ Equiv.swap i j := by
  funext k
  simp only [swap, Function.comp, Equiv.swap_apply_def]
  split_ifs <;> rfl

theorem Shuffles.swap (m : ℕ → α) (hi : a ≤ i ∧ i < a+n) (hj : a ≤ j ∧ j < a+n) :
    Shuffles a n m (swap m i j) := by
  refine ⟨Equiv.swap i j, fun k hk => ?_, swap_eq m i j⟩
  exact Equiv.swap_apply_of_ne_of_ne (by omega) (by omega)

theorem Shuffles.within {b k : ℕ} (h : Shuffles b k m m') (hb : a ≤ b) (hk : b+k ≤ a+n) :
    Shuffles a n m m' := by
  obtain ⟨σ, hσ, hm⟩ := h
  exact ⟨σ, fun i hi => hσ i (by omega), hm⟩

theorem Shuffles.outside (h : Shuffles a n m m') (hk : k < a ∨ a+n ≤ k) : m' k = m k := by
  obtain ⟨σ, hσ, rfl⟩ := h
  rw [Function.comp, hσ k hk]

theorem perm_mem_range {σ : Equiv.Perm ℕ} (hσ : ∀ k, k < a ∨ a+n ≤ k → σ k = k)
    (hk : a ≤ k ∧ k < a+n) : a ≤ σ k ∧ σ k < a+n := by
  by_contra hout
  have hfix : σ (σ k) = σ k := hσ (σ k) (by omega)
  have hk : σ k = k := σ.injective hfix
  omega

theorem Shuffles.forall {P : α → Prop} (h : Shuffles a n m m')
    (hm : ∀ k, a ≤ k → k < a+n → P (m k)) : ∀ k, a ≤ k → k < a+n → P (m' k) := by
  obtain ⟨σ, hσ, rfl⟩ := h
  intro k hak hkn
  have hin := perm_mem_range hσ ⟨hak, hkn⟩
  exact hm (σ k) hin.1 hin.2

theorem swap_of_ne (hi : k ≠ i) (hj : k ≠ j) : swap m i j k = m k := by
  rw [swap, if_neg hi, if_neg hj]

theorem scanUp_regions {s : Cuts} (h : Regions cmp a n m s) :
    Regions cmp a n (scanUp cmp a m s).1 (scanUp cmp a m s).2 ∧
      Shuffles a n m (scanUp cmp a m s).1 ∧
      ((scanUp cmp a m s).2.pb ≤ (scanUp cmp a m s).2.pc →
        0 < cmp ((scanUp cmp a m s).1 (scanUp cmp a m s).2.pb) ((scanUp cmp a m s).1 a)) := by
  obtain ⟨hfront, hlow, hmet, hhigh, hlast, hval⟩ := h
  fun_induction scanUp cmp a m s with
  | case1 m s hc heq ih =>
    have hpa := hval s.pa
    have h := ih (by dsimp only; omega) (by dsimp only; omega) (by dsimp only; omega) hhigh hlast
      (fun k h1 h2 => by
        have hk := hval k h1 h2
        rw [swap_of_ne (k := a) (by omega) (by omega), swap]
        split_ifs <;> subst_vars <;> dsimp only <;> omega)
    exact ⟨h.1, (Shuffles.swap m (by omega) (by omega)).trans h.2.1, h.2.2⟩
  | case2 m s hc hne ih =>
    refine ih hfront (by dsimp only; omega) (by dsimp only; omega) hhigh hlast fun k h1 h2 => ?_
    have hk := hval k h1 h2
    by_cases hb : k = s.pb <;> subst_vars <;> dsimp only <;> omega
  | case3 m s hc =>
    refine ⟨⟨hfront, hlow, hmet, hhigh, hlast, hval⟩, Shuffles.refl a n m, fun hle => ?_⟩
    by_contra hneg
    exact hc ⟨hle, Int.not_lt.1 hneg⟩

theorem scanDown_regions {s : Cuts} (h : Regions cmp a n m s)
    (hstop : s.pb ≤ s.pc → 0 < cmp (m s.pb) (m a)) :
    Regions cmp a n (scanDown cmp a m s).1 (scanDown cmp a m s).2 ∧
      Shuffles a n m (scanDown cmp a m s).1 ∧
      ((scanDown cmp a m s).2.pb ≤ (scanDown cmp a m s).2.pc →
        0 < cmp ((scanDown cmp a m s).1 (scanDown cmp a m s).2.pb) ((scanDown cmp a m s).1 a) ∧
        cmp ((scanDown cmp a m s).1 (scanDown cmp a m s).2.pc) ((scanDown cmp a m s).1 a) < 0) := by
  obtain ⟨hfront, hlow, hmet, hhigh, hlast, hval⟩ := h
  fun_induction scanDown cmp a m s with
  | case1 m s hc heq ih =>
    have hlt : s.pb ≠ s.pc := by
      intro heq'
      have := hstop hc.1
      rw [heq'] at this
      omega
    have hpd := hval s.pd
    have hsame : s.pc = s.pd → cmp (m s.pd) (m a) = 0 := fun h => h ▸ heq
    have h := ih (fun _ => by
        dsimp only
        rw [swap_of_ne (by omega) (by omega), swap_of_ne (by omega) (by omega)]
        exact hstop hc.1)
      hfront hlow (by dsimp only; omega) (by dsimp only; omega) (by dsimp only; omega)
      (fun k h1 h2 => by
        have hk := hval k h1 h2
        rw [swap_of_ne (k := a) (by omega) (by omega), swap]
        split_ifs <;> subst_vars <;> dsimp only <;> omega)
    exact ⟨h.1, (Shuffles.swap m (by omega) (by omega)).trans h.2.1, h.2.2⟩
  | case2 m s hc hne ih =>
    refine ih (fun _ => hstop hc.1) hfront hlow (by dsimp only; omega) (by dsimp only; omega) hlast
      fun k h1 h2 => ?_
    have hk := hval k h1 h2
    by_cases hb : k = s.pc <;> subst_vars <;> dsimp only <;> omega
  | case3 m s hc =>
    refine ⟨⟨hfront, hlow, hmet, hhigh, hlast, hval⟩, Shuffles.refl a n m, fun hle => ?_⟩
    refine ⟨hstop hle, ?_⟩
    by_contra hneg
    have hle : s.pb ≤ s.pc := hle
    exact hc ⟨hle, by omega, Int.not_lt.1 hneg⟩

theorem partition_regions {s : Cuts} (h : Regions cmp a n m s) :
    Regions cmp a n (partition cmp a m s).1 (partition cmp a m s).2 ∧
      Shuffles a n m (partition cmp a m s).1 ∧
      (partition cmp a m s).2.pb = (partition cmp a m s).2.pc+1 := by
  fun_induction partition cmp a m s with
  | case1 m s up r hgt =>
    obtain ⟨h1, h2, h3⟩ := scanUp_regions h
    obtain ⟨h4, h5, -⟩ := scanDown_regions h1 h3
    have hmet := h4.met
    exact ⟨h4, h2.trans h5, by dsimp only [r, up] at hgt ⊢; omega⟩
  | case2 m s up r hle ih =>
    obtain ⟨h1, h2, h3⟩ := scanUp_regions h
    obtain ⟨h4, h5, h6⟩ := scanDown_regions h1 h3
    obtain ⟨hfront, hlow, hmet, hhigh, hlast, hval⟩ : Regions cmp a n r.1 r.2 := h4
    have h6 : 0 < cmp (r.1 r.2.pb) (r.1 a) ∧ cmp (r.1 r.2.pc) (r.1 a) < 0 := h6 (Nat.not_lt.1 hle)
    have hne : r.2.pb ≠ r.2.pc := by
      intro heq
      rw [heq] at h6
      omega
    have h := ih ⟨hfront, by dsimp only; omega, by dsimp only; omega, by dsimp only; omega, hlast,
      fun k h1 h2 => by
        have hk := hval k h1 h2
        rw [swap_of_ne (k := a) (by omega) (by omega), swap]
        split_ifs <;> subst_vars <;> dsimp only <;> omega⟩
    have hswap := Shuffles.swap r.1 (show a ≤ r.2.pb ∧ r.2.pb < a+n by omega)
      (show a ≤ r.2.pc ∧ r.2.pc < a+n by omega)
    exact ⟨h.1, (h2.trans h5).trans (hswap.trans h.2.1), h.2.2⟩

def cuts (a n : ℕ) : Cuts := ⟨a+1, a+1, a+(n-1), a+(n-1)⟩

def gather (a n : ℕ) (m : ℕ → α) (s : Cuts) : ℕ → α :=
  let r := min (s.pa-a) (s.pb-s.pa)
  let m := vecswap m a (s.pb-r) r
  let r := min (s.pd-s.pc) (a+n-s.pd-1)
  vecswap m s.pb (a+n-r) r

def apart (es lrange rrange a r : ℕ) : Bool :=
  let _l := a*es
  let _r := a*es+r*es-1
  (lrange < _l && rrange < _l) || (lrange > _r && rrange > _r)

theorem med3_mem (cmp : α → α → ℤ) (m : ℕ → α) (i j k : ℕ) :
    med3 cmp m i j k = i ∨ med3 cmp m i j k = j ∨ med3 cmp m i j k = k := by
  rw [med3]
  split_ifs <;> simp

theorem pivot_mem (cmp : α → α → ℤ) (m : ℕ → α) (a : ℕ) (hn : ¬n < 7) :
    a ≤ pivot cmp m a n ∧ pivot cmp m a n < a+n := by
  rw [pivot]
  dsimp only
  split_ifs with h7 h40
  · have h1 := med3_mem cmp m a (a+n/8) (a+2*(n/8))
    have h2 := med3_mem cmp m (a+n/2-n/8) (a+n/2) (a+n/2+n/8)
    have h3 := med3_mem cmp m (a+(n-1)-2*(n/8)) (a+(n-1)-n/8) (a+(n-1))
    have h := med3_mem cmp m (med3 cmp m a (a+n/8) (a+2*(n/8)))
      (med3 cmp m (a+n/2-n/8) (a+n/2) (a+n/2+n/8))
      (med3 cmp m (a+(n-1)-2*(n/8)) (a+(n-1)-n/8) (a+(n-1)))
    omega
  · have h := med3_mem cmp m a (a+n/2) (a+(n-1))
    omega
  · omega

theorem cuts_regions (cmp : α → α → ℤ) (m : ℕ → α) (a : ℕ) (hn : ¬n < 7) :
    Regions cmp a n m (cuts a n) := by
  refine ⟨?_, ?_, ?_, ?_, ?_, fun k h1 h2 => ?_⟩ <;> dsimp only [cuts] <;> omega

theorem partition_cuts (cmp : α → α → ℤ) (m : ℕ → α) (a : ℕ) (hn : ¬n < 7) :
    Regions cmp a n (partition cmp a m (cuts a n)).1 (partition cmp a m (cuts a n)).2 ∧
      Shuffles a n m (partition cmp a m (cuts a n)).1 ∧
      (partition cmp a m (cuts a n)).2.pb = (partition cmp a m (cuts a n)).2.pc+1 :=
  partition_regions (cuts_regions cmp m a hn)

def _pqsort (cmp : α → α → ℤ) (es lrange rrange n a : ℕ) (m : ℕ → α) : ℕ → α :=
  if n < 7 then insertionSort cmp a n m
  else
    let q := partition cmp a (swap m a (pivot cmp m a n)) (cuts a n)
    let m1 := gather a n q.1 q.2
    let l := q.2.pb-q.2.pa
    let m2 := if l > 1 ∧ !apart es lrange rrange a l then _pqsort cmp es lrange rrange l a m1
      else m1
    let r := q.2.pd-q.2.pc
    if r > 1 ∧ !apart es lrange rrange (a+n-r) r then
      _pqsort cmp es lrange rrange r (a+n-r) m2
    else m2
termination_by n
decreasing_by
  all_goals
    have hq := partition_cuts cmp (swap m a (pivot cmp m a n)) a ‹_›
    have h1 := hq.1.front
    have h2 := hq.1.high
    have h3 := hq.1.last
    have h4 := hq.1.low
    omega

def pqsort (cmp : α → α → ℤ) (m : ℕ → α) (n es lrange rrange : ℕ) : ℕ → α :=
  _pqsort cmp es (lrange*es) ((rrange+1)*es-1) n 0 m

structure Compares (cmp : α → α → ℤ) : Prop where
  flip : ∀ x y, cmp x y < 0 ↔ 0 < cmp y x
  trans : ∀ x y z, cmp x y ≤ 0 → cmp y z ≤ 0 → cmp x z ≤ 0

theorem Compares.le_iff (hc : Compares cmp) (x y : α) : cmp x y ≤ 0 ↔ 0 ≤ cmp y x := by
  have h := hc.flip y x
  omega

theorem Compares.self (hc : Compares cmp) (x : α) : cmp x x = 0 := by
  have h := hc.flip x x
  omega

def InPlace (cmp : α → α → ℤ) (m : ℕ → α) (a n i : ℕ) : Prop :=
  (∀ j, a ≤ j → j < i → cmp (m j) (m i) ≤ 0) ∧ ∀ j, i < j → j < a+n → cmp (m i) (m j) ≤ 0

theorem sink_sorted (hc : Compares cmp) (a n k : ℕ) (m : ℕ → α) (hk : k < n)
    (hrest : ∀ i j, a ≤ i → i < j → j < a+n → i ≠ a+k → j ≠ a+k → cmp (m i) (m j) ≤ 0)
    (hup : ∀ j, a+k < j → j < a+n → cmp (m (a+k)) (m j) ≤ 0) :
    Shuffles a n m (sink cmp a k m) ∧
      ∀ i j, a ≤ i → i < j → j < a+n → cmp (sink cmp a k m i) (sink cmp a k m j) ≤ 0 := by
  induction k generalizing m with
  | zero =>
    refine ⟨Shuffles.refl a n m, fun i j hi hij hj => ?_⟩
    by_cases h : i = a
    · rw [h]
      exact hup j (by omega) hj
    · exact hrest i j hi hij hj h (by omega)
  | succ k ih =>
    rw [sink]
    split_ifs with hgt
    · have hle : cmp (m (a+k+1)) (m (a+k)) ≤ 0 := by
        have := (hc.flip (m (a+k+1)) (m (a+k))).2 hgt
        omega
      have h := ih (swap m (a+k+1) (a+k)) (by omega) ?_ ?_
      · exact ⟨(Shuffles.swap m (by omega) (by omega)).trans h.1, h.2⟩
      · intro i j hi hij hj hik hjk
        simp only [swap]
        rw [if_neg hik, if_neg hjk]
        split_ifs
        · omega
        · exact hrest (a+k) j (by omega) (by omega) hj (by omega) (by omega)
        · exact hrest i (a+k) hi (by omega) (by omega) (by omega) (by omega)
        · exact hrest i j hi hij hj (by omega) (by omega)
      · intro j h1 h2
        simp only [swap]
        rw [if_neg (by omega), if_pos trivial, if_neg (show j ≠ a+k by omega)]
        split_ifs
        · exact hle
        · exact hup j (by omega) h2
    · refine ⟨Shuffles.refl a n m, fun i j hi hij hj => ?_⟩
      have hle : cmp (m (a+k)) (m (a+(k+1))) ≤ 0 := by rw [← Nat.add_assoc]; omega
      by_cases h1 : i = a+(k+1)
      · rw [h1]
        exact hup j (by omega) hj
      by_cases h2 : j = a+(k+1)
      · by_cases h3 : i = a+k
        · rw [h2, h3]
          exact hle
        · rw [h2]
          exact hc.trans _ _ _ (hrest i (a+k) hi (by omega) (by omega) h1 (by omega)) hle
      · exact hrest i j hi hij hj h1 h2

theorem insertionSort_sorted (hc : Compares cmp) (a n : ℕ) (m : ℕ → α) :
    Shuffles a n m (insertionSort cmp a n m) ∧ ∀ i j, a ≤ i → i < j → j < a+n →
      cmp (insertionSort cmp a n m i) (insertionSort cmp a n m j) ≤ 0 := by
  induction n with
  | zero => exact ⟨Shuffles.refl a 0 m, fun i j _ _ _ => by omega⟩
  | succ n ih =>
    have h := sink_sorted hc a (n+1) n (insertionSort cmp a n m) (by omega)
      (fun i j hi hij hj _ hjn => ih.2 i j hi hij (by omega)) (fun j h1 h2 => by omega)
    exact ⟨(ih.1.within le_rfl (by omega)).trans h.1, h.2⟩

theorem vecswap_apply (m : ℕ → α) (h : i+n ≤ j) (k : ℕ) : vecswap m i j n k =
    if i ≤ k ∧ k < i+n then m (j+(k-i)) else if j ≤ k ∧ k < j+n then m (i+(k-j)) else m k := by
  induction n generalizing k with
  | zero => rw [vecswap, if_neg (by omega), if_neg (by omega)]
  | succ n ih =>
    have ih := ih (by omega)
    rw [vecswap, swap]
    by_cases h1 : k = i+n
    · rw [if_pos h1, ih, if_neg (by omega), if_neg (by omega), if_pos (by omega), h1,
        Nat.add_sub_cancel_left]
    by_cases h2 : k = j+n
    · rw [if_neg h1, if_pos h2, ih, if_neg (by omega), if_neg (by omega), if_neg (by omega),
        if_pos (by omega), h2, Nat.add_sub_cancel_left]
    · rw [if_neg h1, if_neg h2, ih]
      split_ifs <;> first | rfl | omega

theorem vecswap_shuffles (m : ℕ → α) (hi : a ≤ i) (hij : i ≤ j) (hj : j+k ≤ a+n) :
    Shuffles a n m (vecswap m i j k) := by
  induction k with
  | zero => exact Shuffles.refl a n m
  | succ k ih => exact (ih (by omega)).trans (Shuffles.swap _ (by omega) (by omega))

theorem vecswap_blocks {P Q : α → Prop} {x y z r : ℕ} (m : ℕ → α) (hxy : x ≤ y) (hyz : y ≤ z)
    (hr : r = min (y-x) (z-y)) (hP : ∀ k, x ≤ k → k < y → P (m k))
    (hQ : ∀ k, y ≤ k → k < z → Q (m k)) :
    (∀ k, x ≤ k → k < x+(z-y) → Q (vecswap m x (z-r) r k)) ∧
      ∀ k, x+(z-y) ≤ k → k < z → P (vecswap m x (z-r) r k) := by
  have happ := vecswap_apply m (show x+r ≤ z-r by omega)
  constructor
  · intro k h1 h2
    rw [happ]
    split_ifs with h3 h4
    · exact hQ _ (by omega) (by omega)
    · exact hQ _ (by omega) (by omega)
    · exact hQ _ (by omega) (by omega)
  · intro k h1 h2
    rw [happ]
    split_ifs with h3 h4
    · exact hP _ (by omega) (by omega)
    · exact hP _ (by omega) (by omega)
    · exact hP _ (by omega) (by omega)

structure Parts (cmp : α → α → ℤ) (v : α) (a n l r : ℕ) (m : ℕ → α) : Prop where
  size : l+r < n
  less : ∀ k, a ≤ k → k < a+l → cmp (m k) v < 0
  equal : ∀ k, a+l ≤ k → k < a+n-r → cmp (m k) v = 0
  greater : ∀ k, a+n-r ≤ k → k < a+n → 0 < cmp (m k) v

theorem gather_parts (hc : Compares cmp) {s : Cuts} (h : Regions cmp a n m s)
    (hmet : s.pb = s.pc+1) : Shuffles a n m (gather a n m s) ∧
      Parts cmp (m a) a n (s.pb-s.pa) (s.pd-s.pc) (gather a n m s) := by
  have hfront := h.front
  have hlow := h.low
  have hhigh := h.high
  have hlast := h.last
  have hequal : ∀ k, a ≤ k → k < s.pa → cmp (m k) (m a) = 0 := by
    intro k h1 h2
    by_cases hk : k = a
    · rw [hk]
      exact hc.self _
    · exact (h.values k (by omega) (by omega)).1 (Or.inl h2)
  have hless (k : ℕ) (h1 : s.pa ≤ k) (h2 : k < s.pb) : cmp (m k) (m a) < 0 :=
    (h.values k (by omega) (by omega)).2.1 ⟨h1, h2⟩
  let r1 := min (s.pa-a) (s.pb-s.pa)
  let r2 := min (s.pd-s.pc) (a+n-s.pd-1)
  let m1 := vecswap m a (s.pb-r1) r1
  have hg : gather a n m s = vecswap m1 s.pb (a+n-r2) r2 := rfl
  have hm1 (k : ℕ) (hk : s.pb ≤ k) : m1 k = m k := by
    dsimp only [m1]
    rw [vecswap_apply m (by omega), if_neg (by omega), if_neg (by omega)]
  have hm2 (k : ℕ) (hk : k < s.pb) : gather a n m s k = m1 k := by
    rw [hg, vecswap_apply m1 (by omega), if_neg (by omega), if_neg (by omega)]
  have hfirst := vecswap_blocks (P := fun x => cmp x (m a) = 0) (Q := fun x => cmp x (m a) < 0) m
    hfront.le hlow (show r1 = _ from rfl) hequal hless
  have hsecond := vecswap_blocks (P := fun x => 0 < cmp x (m a)) (Q := fun x => cmp x (m a) = 0)
    (x := s.pb) (y := s.pd+1) (z := a+n) (r := r2) m1 (by omega) (by omega)
    (by dsimp only [r2]; omega)
    (fun k h1 h2 => by
      rw [hm1 k h1]
      exact (h.values k (by omega) (by omega)).2.2 (by omega))
    (fun k h1 h2 => by
      rw [hm1 k (by omega)]
      exact (h.values k (by omega) h2).1 (by omega))
  constructor
  · rw [hg]
    exact (vecswap_shuffles m le_rfl (by omega) (by omega)).trans
      (vecswap_shuffles m1 (by omega) (by omega) (by omega))
  · refine ⟨by omega, fun k h1 h2 => ?_, fun k h1 h2 => ?_, fun k h1 h2 => ?_⟩
    · rw [hm2 k (by omega)]
      exact hfirst.1 k h1 h2
    · by_cases hk : k < s.pb
      · rw [hm2 k hk]
        exact hfirst.2 k h1 hk
      · exact hsecond.1 k (by omega) (by omega)
    · exact hsecond.2 k (by omega) h2

theorem Parts.inPlace (hc : Compares cmp) {v : α} {l r : ℕ} (h : Parts cmp v a n l r m) (hi : a ≤ i)
    (hin : i < a+n) (hl : i < a+l → InPlace cmp m a l i)
    (hr : a+n-r ≤ i → InPlace cmp m (a+n-r) r i) : InPlace cmp m a n i := by
  have hsize := h.size
  have hle {x y : α} (hx : cmp x v ≤ 0) (hy : 0 ≤ cmp y v) : cmp x y ≤ 0 :=
    hc.trans _ _ _ hx ((hc.le_iff v y).2 hy)
  have hlow (k : ℕ) (h1 : a ≤ k) (h2 : k < a+n-r) : cmp (m k) v ≤ 0 := by
    rcases Nat.lt_or_ge k (a+l) with hk | hk
    · exact (h.less k h1 hk).le
    · exact (h.equal k hk h2).le
  have hhigh (k : ℕ) (h1 : a+l ≤ k) (h2 : k < a+n) : 0 ≤ cmp (m k) v := by
    rcases Nat.lt_or_ge k (a+n-r) with hk | hk
    · exact (h.equal k h1 hk).ge
    · exact (h.greater k hk h2).le
  constructor
  · intro j haj hji
    by_cases h1 : i < a+l
    · exact (hl h1).1 j haj hji
    by_cases h2 : a+n-r ≤ j
    · exact (hr (by omega)).1 j h2 hji
    · exact hle (hlow j haj (by omega)) (hhigh i (by omega) hin)
  · intro j hij hjn
    by_cases h1 : j < a+l
    · exact (hl (by omega)).2 j hij h1
    by_cases h2 : a+n-r ≤ i
    · exact (hr h2).2 j hij (by omega)
    · exact hle (hlow i hi (by omega)) (hhigh j (by omega) hjn)

theorem Parts.shuffles {v : α} {l r : ℕ} (h : Parts cmp v a n l r m) (hl : Shuffles a l m m')
    (hr : Shuffles (a+n-r) r m' m'') : Parts cmp v a n l r m'' := by
  have hsize := h.size
  refine ⟨hsize, fun k h1 h2 => ?_, fun k h1 h2 => ?_, ?_⟩
  · rw [hr.outside (by omega)]
    exact hl.forall (P := fun x => cmp x v < 0) h.less k h1 h2
  · rw [hr.outside (by omega), hl.outside (by omega)]
    exact h.equal k h1 h2
  · intro k h1 h2
    refine hr.forall (P := fun x => 0 < cmp x v) (fun k h3 h4 => ?_) k h1 (by omega)
    rw [hl.outside (by omega)]
    exact h.greater k h3 (by omega)

theorem not_apart {es lrange rrange r : ℕ} (hes : 0 < es) (hi : a ≤ i ∧ i < a+r)
    (hrange : lrange ≤ i ∧ i ≤ rrange) :
    apart es (lrange*es) ((rrange+1)*es-1) a r = false := by
  have h1 : a*es ≤ i*es := Nat.mul_le_mul_right es hi.1
  have h2 : i*es+es ≤ a*es+r*es := by
    have := Nat.mul_le_mul_right es (show i+1 ≤ a+r by omega)
    rwa [Nat.add_mul, Nat.add_mul, Nat.one_mul] at this
  have h3 : lrange*es ≤ i*es := Nat.mul_le_mul_right es hrange.1
  have h4 : i*es ≤ rrange*es := Nat.mul_le_mul_right es hrange.2
  simp only [apart, Bool.or_eq_false_iff, Bool.and_eq_false_iff, decide_eq_false_iff_not,
    Nat.add_mul, Nat.one_mul]
  omega

theorem _pqsort_sorts (hc : Compares cmp) {es : ℕ} (hes : 0 < es) (lrange rrange n a : ℕ)
    (m : ℕ → α) : Shuffles a n m (_pqsort cmp es (lrange*es) ((rrange+1)*es-1) n a m) ∧
      ∀ i, a ≤ i → i < a+n → lrange ≤ i → i ≤ rrange →
        InPlace cmp (_pqsort cmp es (lrange*es) ((rrange+1)*es-1) n a m) a n i := by
  induction n using Nat.strong_induction_on generalizing a m with
  | h n ih =>
    rw [_pqsort]
    split_ifs with hn
    · obtain ⟨hsh, hsorted⟩ := insertionSort_sorted hc a n m
      refine ⟨hsh, fun i hi hin _ _ => ⟨fun j haj hji => ?_, fun j hij hjn => ?_⟩⟩
      · exact hsorted j i haj hji hin
      · exact hsorted i j hi hij hjn
    have hpivot := pivot_mem cmp m a hn
    obtain ⟨hreg, hpart, hmet⟩ := partition_cuts cmp (swap m a (pivot cmp m a n)) a hn
    generalize hq : partition cmp a (swap m a (pivot cmp m a n)) (cuts a n) = q at *
    obtain ⟨hgather, hparts⟩ := gather_parts hc hreg hmet
    have hsize := hparts.size
    dsimp only
    generalize gather a n q.1 q.2 = m1 at *
    generalize q.2.pb-q.2.pa = l at *
    generalize q.2.pd-q.2.pc = r at *
    -- a part of one element needs no call, one without an element of the range gets none
    have hcall (b k : ℕ) (m : ℕ → α) (hk : k < n) : ∃ m', (if k > 1 ∧
        !apart es (lrange*es) ((rrange+1)*es-1) b k then
          _pqsort cmp es (lrange*es) ((rrange+1)*es-1) k b m else m) = m' ∧ Shuffles b k m m' ∧
        ∀ i, b ≤ i → i < b+k → lrange ≤ i → i ≤ rrange → InPlace cmp m' b k i := by
      refine ⟨_, rfl, ?_⟩
      split_ifs with hrun
      · exact ih k hk b m
      · refine ⟨Shuffles.refl b k m, fun i hi hik h1 h2 => ?_⟩
        have hone : k ≤ 1 := by
          by_contra hmany
          exact hrun ⟨by omega, by rw [not_apart hes ⟨hi, hik⟩ ⟨h1, h2⟩]; rfl⟩
        exact ⟨fun j _ _ => by omega, fun j _ _ => by omega⟩
    obtain ⟨m2, hm2, hsh2, hin2⟩ := hcall a l m1 (by omega)
    rw [hm2]
    obtain ⟨m3, hm3, hsh3, hin3⟩ := hcall (a+n-r) r m2 (by omega)
    rw [hm3]
    constructor
    · have hswap := Shuffles.swap m (show a ≤ a ∧ a < a+n by omega) hpivot
      exact (((hswap.trans hpart).trans hgather).trans (hsh2.within le_rfl (by omega))).trans
        (hsh3.within (by omega) (by omega))
    · intro i hi hin h1 h2
      refine (hparts.shuffles hsh2 hsh3).inPlace hc hi hin (fun hl => ?_) (fun hr => ?_)
      · have h := hin2 i hi hl h1 h2
        have hkeep (j : ℕ) (hj : j < a+l) : m3 j = m2 j := hsh3.outside (by omega)
        refine ⟨fun j haj hji => ?_, fun j hij hjl => ?_⟩
        · rw [hkeep j (by omega), hkeep i hl]
          exact h.1 j haj hji
        · rw [hkeep j hjl, hkeep i hl]
          exact h.2 j hij hjl
      · exact hin3 i hr (by omega) h1 h2

theorem Shuffles.perm (h : Shuffles 0 n m m') :
    ((List.range n).map m').Perm ((List.range n).map m) := by
  obtain ⟨σ, hσ, rfl⟩ := h
  have hsub : (List.range n).map σ ⊆ List.range n := by
    intro x hx
    obtain ⟨k, hk, rfl⟩ := List.mem_map.1 hx
    have h := perm_mem_range hσ ⟨k.zero_le, by have := List.mem_range.1 hk; omega⟩
    exact List.mem_range.2 (by omega)
  have hperm : ((List.range n).map σ).Perm (List.range n) :=
    (List.subperm_of_subset (List.nodup_range.map σ.injective) hsub).perm_of_length_le (by simp)
  rw [← List.map_map]
  exact hperm.map m

theorem lt_countP {p : α → Bool} {l : List α} (hi : i < l.length)
    (h : ∀ j (hj : j < l.length), j ≤ i → p l[j] = true) : i < l.countP p := by
  have htake : (l.take (i+1)).countP p = i+1 := by
    rw [List.countP_eq_length.2, List.length_take, Nat.min_eq_left hi]
    intro x hx
    obtain ⟨j, hj, rfl⟩ := List.mem_iff_getElem.1 hx
    rw [List.length_take] at hj
    rw [List.getElem_take]
    exact h j (by omega) (by omega)
  have h : (l.take (i+1)).countP p ≤ l.countP p := (List.take_sublist (i+1) l).countP_le
  omega

theorem countP_le {p : α → Bool} {l : List α}
    (h : ∀ j (hj : j < l.length), i ≤ j → p l[j] = false) : l.countP p ≤ i := by
  have hdrop : (l.drop i).countP p = 0 := by
    rw [List.countP_eq_zero]
    intro x hx
    obtain ⟨j, hj, rfl⟩ := List.mem_iff_getElem.1 hx
    rw [List.length_drop] at hj
    rw [List.getElem_drop, h (i+j) (by omega) (by omega)]
    simp
  have htake : (l.take i).countP p ≤ i := List.countP_le_length.trans (List.length_take_le i l)
  rw [← List.take_append_drop i l, List.countP_append, hdrop]
  exact htake

theorem InPlace.sorted (hc : Compares cmp) (h : InPlace cmp m 0 n i) (hi : i < n) {sorted : List α}
    (hperm : sorted.Perm ((List.range n).map m)) (hs : sorted.Pairwise fun x y => cmp x y ≤ 0) :
    ∃ x, sorted[i]? = some x ∧ cmp (m i) x = 0 := by
  have hlen : sorted.length = n := by rw [hperm.length_eq]; simp
  have hle (j k : ℕ) (hjk : j ≤ k) (hk : k < sorted.length) : cmp sorted[j] sorted[k] ≤ 0 := by
    rcases Nat.eq_or_lt_of_le hjk with rfl | hlt
    · exact (hc.self _).le
    · exact List.pairwise_iff_getElem.1 hs j k (by omega) hk hlt
  have hget (j : ℕ) (hj : j < ((List.range n).map m).length) : ((List.range n).map m)[j] = m j := by
    simp
  refine ⟨sorted[i], List.getElem?_eq_getElem (by omega), ?_⟩
  rcases Int.lt_trichotomy (cmp (m i) sorted[i]) 0 with hlt | heq | hgt
  · -- the elements that are not greater than `m i`
    have hmany : i < ((List.range n).map m).countP fun y => decide (cmp y (m i) ≤ 0) := by
      refine lt_countP (by simpa using hi) fun j hj hji => decide_eq_true ?_
      rw [hget]
      rcases Nat.eq_or_lt_of_le hji with rfl | hji
      · exact (hc.self _).le
      · exact h.1 j j.zero_le hji
    have hfew : sorted.countP (fun y => decide (cmp y (m i) ≤ 0)) ≤ i := by
      refine countP_le fun j hj hij => decide_eq_false fun hjm => ?_
      have h1 := hc.trans _ _ _ (hle i j hij hj) hjm
      have h2 := (hc.flip (m i) sorted[i]).1 hlt
      omega
    rw [hperm.countP_eq] at hfew
    omega
  · exact heq
  · have hmany : i < sorted.countP fun y => decide (cmp y (m i) < 0) := by
      refine lt_countP (by omega) fun j hj hji => decide_eq_true ?_
      by_contra hjm
      have h1 := hc.trans _ _ _ ((hc.le_iff _ _).2 (Int.not_lt.1 hjm)) (hle j i hji (by omega))
      omega
    have hfew : ((List.range n).map m).countP (fun y => decide (cmp y (m i) < 0)) ≤ i := by
      refine countP_le fun j hj hij => decide_eq_false fun hjm => ?_
      rw [hget] at hjm
      rcases Nat.eq_or_lt_of_le hij with rfl | hij
      · have := hc.self (m i)
        omega
      · have h1 := h.2 j hij (by simpa using hj)
        have h2 := (hc.flip _ _).1 hjm
        omega
    rw [hperm.countP_eq] at hmany
    omega

/-- The call leaves a permutation of the vector in which the elements of the range are those of the
sorted vector. -/
theorem pqsort_range (hc : Compares cmp) {es lrange rrange : ℕ} (hes : 0 < es) (hr : rrange < n)
    (m : ℕ → α) :
    ((List.range n).map (pqsort cmp m n es lrange rrange)).Perm ((List.range n).map m) ∧
      (∀ k, n ≤ k → pqsort cmp m n es lrange rrange k = m k) ∧
      ∀ sorted : List α, sorted.Perm ((List.range n).map m) →
        sorted.Pairwise (fun x y => cmp x y ≤ 0) → ∀ i, lrange ≤ i → i ≤ rrange →
          ∃ x, sorted[i]? = some x ∧ cmp (pqsort cmp m n es lrange rrange i) x = 0 := by
  obtain ⟨hsh, hin⟩ := _pqsort_sorts hc hes lrange rrange n 0 m
  refine ⟨hsh.perm, fun k hk => hsh.outside (by omega), fun sorted hperm hs i hli hir => ?_⟩
  have hlen : i < n := by omega
  exact (hin i i.zero_le (by omega) hli hir).sorted hc hlen (hperm.trans hsh.perm.symm) hs

theorem pqsort_range_numbers :
    ((List.range 9).map (pqsort (fun x y : ℤ => x-y) (fun k => 9-k) 9 8 4 5)).Perm
      ((List.range 9).map fun k => 9-(k : ℤ)) := by
  have hc : Compares fun x y : ℤ => x-y := ⟨fun x y => by omega, fun x y z _ _ => by omega⟩
  exact (pqsort_range hc (by norm_num) (by norm_num) fun k => 9-(k : ℤ)).1

end RedisCore.Pqsort
