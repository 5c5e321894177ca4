import Mathlib.Algebra.Group.Nat.Defs
import Mathlib.Data.List.Basic

/-!
# Texts in blocks

The blocks of one size that a text fills, what is left behind the last of them, and how both
grow when the text grows by one item; numbers as big-endian texts.
-/

namespace OnlineChat.Library

section Blocks

variable {α : Type} {size : Nat} {xs : List α} {x : α}

/-- The full blocks of a text, in their order. -/
def blocks (size : Nat) (xs : List α) : List (List α) :=
  (List.range (xs.length / size)).map fun i => (xs.drop (i * size)).take size

/-- What stands behind the last full block. -/
def remainder (size : Nat) (xs : List α) : List α := xs.drop (xs.length / size * size)

@[simp]
theorem blocks_nil (size : Nat) : blocks size ([] : List α) = [] := by
  simp [blocks]

theorem length_remainder (size : Nat) (xs : List α) :
    (remainder size xs).length = xs.length % size := by
  rw [remainder, List.length_drop, Nat.mod_eq_sub_div_mul]

/-- Another item does not change the blocks that are full already. -/
theorem block_concat {i : Nat} (full : i < xs.length / size) :
    ((xs ++ [x]).drop (i * size)).take size = (xs.drop (i * size)).take size := by
  have inside : (i + 1) * size ≤ xs.length :=
    Nat.le_trans (Nat.mul_le_mul_right size full) (Nat.div_mul_le_self ..)
  rw [Nat.succ_mul] at inside
  rw [List.drop_append_of_le_length (by omega), List.take_append_of_le_length]
  rw [List.length_drop]
  omega

theorem drop_concat (size : Nat) (xs : List α) (x : α) :
    (xs ++ [x]).drop (xs.length / size * size) = remainder size xs ++ [x] := by
  rw [List.drop_append_of_le_length (Nat.div_mul_le_self ..)]
  rfl

theorem succ_div_mod_of_full {n : Nat} (full : n % size + 1 = size) :
    (n + 1) / size = n / size + 1 ∧ (n + 1) % size = 0 := by
  have whole : (n + 1) % size = 0 := by
    rw [Nat.add_mod, ← Nat.mod_add_mod]
    simp [full]
  exact ⟨Nat.succ_div_of_mod_eq_zero whole, whole⟩

theorem succ_div_mod_of_lt {n : Nat} (short : n % size + 1 < size) :
    (n + 1) / size = n / size ∧ (n + 1) % size = n % size + 1 := by
  have next : (n + 1) % size = n % size + 1 := by
    rw [← Nat.mod_add_mod, Nat.mod_eq_of_lt short]
  exact ⟨Nat.succ_div_of_mod_ne_zero (by omega), next⟩

/-- The item fills the last block. -/
theorem blocks_concat_of_full (full : xs.length % size + 1 = size) :
    blocks size (xs ++ [x]) = blocks size xs ++ [remainder size xs ++ [x]] ∧
      remainder size (xs ++ [x]) = [] := by
  obtain ⟨count, whole⟩ := succ_div_mod_of_full full
  constructor
  · have last : (remainder size xs ++ [x]).take size = remainder size xs ++ [x] := by
      rw [List.take_of_length_le]
      simp [length_remainder, full]
    rw [blocks, List.length_append, List.length_singleton, count, List.range_succ,
      List.map_append, List.map_singleton, drop_concat, last]
    congr 1
    apply List.map_congr_left
    intro i membership
    exact block_concat (List.mem_range.mp membership)
  · rw [← List.length_eq_zero_iff, length_remainder, List.length_append, List.length_singleton]
    exact whole

/-- The item goes behind what is left. -/
theorem blocks_concat_of_lt (short : xs.length % size + 1 < size) :
    blocks size (xs ++ [x]) = blocks size xs ∧
      remainder size (xs ++ [x]) = remainder size xs ++ [x] := by
  obtain ⟨count, -⟩ := succ_div_mod_of_lt short
  constructor
  · rw [blocks, List.length_append, List.length_singleton, count]
    apply List.map_congr_left
    intro i membership
    exact block_concat (List.mem_range.mp membership)
  · rw [remainder, List.length_append, List.length_singleton, count, drop_concat]

end Blocks

/-! ## Big-endian numbers -/

/-- The last `k` bytes of a number, the highest one first. -/
def bigEndian (k n : Nat) : List UInt8 :=
  (List.range k).map fun i => UInt8.ofNat (n / 256 ^ (k - 1 - i))

@[simp]
theorem length_bigEndian (k n : Nat) : (bigEndian k n).length = k := by
  simp [bigEndian]

def ofBigEndian (text : List UInt8) : Nat := text.foldl (fun n b => n * 256 + b.toNat) 0

end OnlineChat.Library
