import RedisCore.ByteBlock

/-! A block that is written in circles. -/

namespace RedisCore.Circular
open List (append_assoc drop_drop length_append length_drop)

variable {α : Type*} {block data : List α} {idx h n : ℕ}

theorem length_rtake (l : List α) (n : ℕ) : (l.rtake n).length = min n l.length := by
  rw [List.rtake, length_drop]
  omega

theorem rtake_of_length_le {l : List α} (hn : l.length ≤ n) : l.rtake n = l := by
  rw [List.rtake, Nat.sub_eq_zero_of_le hn, List.drop_zero]

theorem rtake_rtake (l : List α) {m n : ℕ} (hmn : m ≤ n) : (l.rtake n).rtake m = l.rtake m := by
  have hl := length_rtake l n
  unfold List.rtake at hl ⊢
  rw [drop_drop]
  congr 1
  omega

theorem rtake_append (l k : List α) (n : ℕ) : (l ++ k).rtake (n + k.length) = l.rtake n ++ k := by
  unfold List.rtake
  rw [length_append, show l.length + k.length - (n + k.length) = l.length - n by omega,
    List.drop_append_of_le_length (by omega)]

theorem drop_rtake (l : List α) (h skip : ℕ) :
    (l.rtake h).drop skip = l.drop (l.length - h + skip) := by
  rw [List.rtake, drop_drop]

theorem rtake_congr_append {l l' : List α} (hl : l.rtake h = l'.rtake h) (k : List α)
    (hn : n ≤ h + k.length) : (l ++ k).rtake n = (l' ++ k).rtake n := by
  rw [← rtake_rtake (l ++ k) hn, ← rtake_rtake (l' ++ k) hn, rtake_append, rtake_append, hl]

def advance (size idx n : ℕ) : ℕ := if idx + n = size then 0 else idx + n

theorem advance_lt {size : ℕ} (hpos : 0 < size) (hn : idx + n ≤ size) : advance size idx n < size := by
  unfold advance
  split_ifs <;> omega

theorem length_write (hfit : idx + data.length ≤ block.length) :
    (block.take idx ++ (data ++ block.drop (idx + data.length))).length = block.length := by
  simp only [length_append, List.length_take, length_drop]
  omega

theorem rotate_write (hfit : idx + data.length ≤ block.length) :
    (block.take idx ++ (data ++ block.drop (idx + data.length))).rotate
        (advance block.length idx data.length) =
      (block.rotate idx ++ data).rtake block.length := by
  have hidx : idx ≤ block.length := by omega
  have hrest : (block.rotate idx ++ data).rtake block.length =
      block.drop (idx + data.length) ++ block.take idx ++ data := by
    rw [List.rtake, length_append, List.length_rotate, Nat.add_sub_cancel_left,
      List.rotate_eq_drop_append_take hidx, append_assoc,
      List.drop_append_of_le_length (by rw [length_drop]; omega), drop_drop,
      append_assoc]
  have hfront : (block.take idx ++ data).length = idx + data.length := by
    rw [length_append, List.length_take, Nat.min_eq_left hidx]
  rw [hrest]
  unfold advance
  split_ifs with hend
  · -- the write reaches the end of the block, and nothing is left behind it
    rw [List.rotate_zero, hend, List.drop_length, List.append_nil, List.nil_append]
  · rw [← append_assoc, ← hfront, List.rotate_append_length_eq, append_assoc]

theorem read_rotate {d : ℕ} (hidx : idx < block.length) (hd : d < block.length) :
    let j := (idx + d) % block.length
    (block.rotate idx).drop d =
      (block.drop j).take (min (block.length - j) (block.length - d)) ++
        block.take (block.length - d - min (block.length - j) (block.length - d)) := by
  intro j
  rw [List.rotate_eq_drop_append_take hidx.le]
  by_cases hwrap : idx + d < block.length
  · have hj : j = idx + d := Nat.mod_eq_of_lt hwrap
    have hall : (block.drop (idx + d)).take (block.length - (idx + d)) = block.drop (idx + d) := by
      apply List.take_of_length_le
      rw [length_drop]
    rw [hj, Nat.min_eq_left (by omega), hall,
      List.drop_append_of_le_length (by rw [length_drop]; omega), drop_drop,
      show block.length - d - (block.length - (idx + d)) = idx by omega]
  · have hj : j = idx + d - block.length := by
      have hmod : (idx + d) % block.length = (idx + d - block.length) % block.length :=
        Nat.mod_eq_sub_mod (by omega)
      rw [Nat.mod_eq_of_lt (a := idx + d - block.length) (by omega)] at hmod
      exact hmod
    rw [hj, Nat.min_eq_right (by omega), Nat.sub_self, List.take_zero, List.append_nil,
      List.drop_append, drop_drop, List.drop_eq_nil_of_le (by omega), List.nil_append,
      length_drop, List.drop_take, show d - (block.length - idx) = idx + d - block.length by omega,
      show idx - (idx + d - block.length) = block.length - d by omega]

end RedisCore.Circular
