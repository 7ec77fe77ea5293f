import RedisCore.ByteBlock

namespace RedisCore

def memcmp : Bytes → Bytes → Ordering
  | a :: as, b :: bs => if a < b then .lt else if b < a then .gt else memcmp as bs
  | _, _ => .eq

def sdscmp (s1 s2 : Bytes) : Ordering :=
  match memcmp s1 s2 with
  | .eq => compare s1.length s2.length
  | c => c

@[simp] theorem sdscmp_nil_nil : sdscmp [] [] = .eq := rfl

@[simp] theorem sdscmp_nil_cons (b : UInt8) (bs : Bytes) : sdscmp [] (b :: bs) = .lt := by
  simp [sdscmp, memcmp, compare, compareOfLessAndEq]

@[simp] theorem sdscmp_cons_nil (a : UInt8) (as : Bytes) : sdscmp (a :: as) [] = .gt := by
  simp [sdscmp, memcmp, compare, compareOfLessAndEq]

theorem sdscmp_cons_cons (a b : UInt8) (as bs : Bytes) : sdscmp (a :: as) (b :: bs) =
    if a < b then .lt else if b < a then .gt else sdscmp as bs := by
  unfold sdscmp
  rw [memcmp]
  split_ifs
  · rfl
  · rfl
  · simp [compare, compareOfLessAndEq]

@[simp] theorem sdscmp_self (s : Bytes) : sdscmp s s = .eq := by
  induction s with
  | nil => rfl
  | cons a as ih => simp [sdscmp_cons_cons, ih]

theorem sdscmp_eq_iff {s t : Bytes} : sdscmp s t = .eq ↔ s = t := by
  constructor
  · intro h
    induction s generalizing t with
    | nil =>
      cases t with
      | nil => rfl
      | cons b bs => simp at h
    | cons a as ih =>
      cases t with
      | nil => simp at h
      | cons b bs =>
        rw [sdscmp_cons_cons] at h
        split_ifs at h with h1 h2
        have hab : a = b := UInt8.le_antisymm (UInt8.not_lt.mp h2) (UInt8.not_lt.mp h1)
        rw [hab, ih h]
  · rintro rfl
    exact sdscmp_self s

theorem sdscmp_swap (s t : Bytes) : (sdscmp s t).swap = sdscmp t s := by
  induction s generalizing t with
  | nil =>
    cases t with
    | nil => rfl
    | cons b bs => simp
  | cons a as ih =>
    cases t with
    | nil => simp
    | cons b bs =>
      rw [sdscmp_cons_cons, sdscmp_cons_cons]
      by_cases h1 : a < b
      · have h2 : ¬ b < a := UInt8.lt_asymm h1
        simp [h1, h2]
      · by_cases h2 : b < a
        · simp [h1, h2]
        · simp [h1, h2, ih]

theorem sdscmp_gt_iff {s t : Bytes} : sdscmp s t = .gt ↔ sdscmp t s = .lt := by
  rw [← sdscmp_swap t s]
  cases sdscmp t s <;> simp

theorem sdscmp_trans {s t u : Bytes} (h1 : sdscmp s t = .lt) (h2 : sdscmp t u = .lt) :
    sdscmp s u = .lt := by
  induction s generalizing t u with
  | nil =>
    cases u with
    | nil =>
      cases t with
      | nil => exact h1
      | cons b bs => simp at h2
    | cons c cs => simp
  | cons a as ih =>
    cases t with
    | nil => simp at h1
    | cons b bs =>
      cases u with
      | nil => simp at h2
      | cons c cs =>
        rw [sdscmp_cons_cons] at h1 h2 ⊢
        simp only [UInt8.lt_iff_toNat_lt] at h1 h2 ⊢
        split_ifs at h1 h2 ⊢ <;> first | rfl | omega | exact ih h1 h2

end RedisCore
