import Mathlib.Data.List.TakeWhile
import Mathlib.Data.Nat.Digits.Lemmas

/-!
# Byte strings

`std::string` is a sequence of bytes.  The module gives the literals, the C string
that SQLite is handed and the decimal text of an integer.
-/

namespace OnlineChat

/-- A `std::string`. -/
abbrev Bytes := List UInt8

/-- The bytes of a string literal of the source. -/
def bytes (s : String) : Bytes := s.toUTF8.data.toList

/-- `s.c_str()` read up to its first NUL, as `sqlite3_bind_text` with length -1
and `sqlite3_column_text` see it. -/
def cStr (s : Bytes) : Bytes := s.takeWhile (· ≠ 0)

theorem cStr_eq_self {s : Bytes} (clean : ∀ b ∈ s, b ≠ 0) : cStr s = s :=
  List.takeWhile_eq_self_iff.mpr fun b membership => by simpa using clean b membership

theorem ne_zero_of_mem_cStr {s : Bytes} {b : UInt8} (membership : b ∈ cStr s) : b ≠ 0 := by
  simpa using List.mem_takeWhile_imp membership

@[simp]
theorem cStr_cStr (s : Bytes) : cStr (cStr s) = cStr s :=
  cStr_eq_self fun _ membership => ne_zero_of_mem_cStr membership

/-! ## Decimal text -/

/-- The byte of a decimal digit. -/
def digitByte (d : Nat) : UInt8 := UInt8.ofNat (48 + d)

/-- The digit that a byte stands for. -/
def digitOf (b : UInt8) : Nat := b.toNat - 48

theorem toNat_digitByte {d : Nat} (small : d < 10) : (digitByte d).toNat = 48 + d := by
  simp only [digitByte, UInt8.toNat_ofNat']
  omega

theorem digitOf_digitByte {d : Nat} (small : d < 10) : digitOf (digitByte d) = d := by
  simp [digitOf, toNat_digitByte small]

/-- The decimal text of a natural number. -/
def toDecimalNat (n : Nat) : Bytes :=
  if n = 0 then [digitByte 0] else ((Nat.digits 10 n).map digitByte).reverse

/-- `std::to_string(long long)`, `"%lld"`. -/
def toDecimal (n : Int) : Bytes :=
  if n < 0 then 45 :: toDecimalNat n.natAbs else toDecimalNat n.natAbs

/-- The number that a text of digits denotes. -/
def ofDecimalNat (text : Bytes) : Nat := Nat.ofDigits 10 (text.reverse.map digitOf)

theorem mem_toDecimalNat {n : Nat} {b : UInt8} (membership : b ∈ toDecimalNat n) :
    ∃ d < 10, b = digitByte d := by
  unfold toDecimalNat at membership
  split at membership
  · exact ⟨0, by decide, by simpa using membership⟩
  · obtain ⟨d, digit, rfl⟩ := List.mem_map.mp (List.mem_reverse.mp membership)
    exact ⟨d, Nat.digits_lt_base (by decide) digit, rfl⟩

/-- Decimal text holds digits only. -/
theorem digit_of_mem_toDecimalNat {n : Nat} {b : UInt8} (membership : b ∈ toDecimalNat n) :
    48 ≤ b.toNat ∧ b.toNat ≤ 57 := by
  obtain ⟨d, small, rfl⟩ := mem_toDecimalNat membership
  have value := toNat_digitByte small
  omega

@[simp]
theorem ofDecimalNat_toDecimalNat (n : Nat) : ofDecimalNat (toDecimalNat n) = n := by
  unfold toDecimalNat
  split
  next zero => subst zero; rfl
  next positive =>
    have back : ((Nat.digits 10 n).map digitByte).map digitOf = Nat.digits 10 n := by
      rw [List.map_map, List.map_congr_left (g := id), List.map_id]
      intro d digit
      exact digitOf_digitByte (Nat.digits_lt_base (by decide) digit)
    rw [ofDecimalNat, List.reverse_reverse, back, Nat.ofDigits_digits]

theorem toDecimalNat_injective : Function.Injective toDecimalNat :=
  Function.LeftInverse.injective ofDecimalNat_toDecimalNat

theorem length_toDecimalNat_le {n k : Nat} (small : n < 10 ^ k) :
    (toDecimalNat n).length ≤ k + 1 := by
  unfold toDecimalNat
  split
  · simp
  · have digits := (Nat.digits_length_le_iff (by decide) n).mpr small
    rw [List.length_reverse, List.length_map]
    omega

/-- A `long long` has at most 21 bytes of text. -/
theorem length_toDecimal_le {n : Int} (low : -2 ^ 63 ≤ n) (high : n < 2 ^ 63) :
    (toDecimal n).length ≤ 21 := by
  have digits := length_toDecimalNat_le (n := n.natAbs) (k := 19) (by omega)
  unfold toDecimal
  split
  · rw [List.length_cons]
    omega
  · omega

theorem toDecimal_of_pos {n : Int} (positive : 0 < n) : toDecimal n = toDecimalNat n.natAbs :=
  if_neg (by omega)

theorem toDecimal_injective : Function.Injective toDecimal := by
  intro m n same
  -- a text of digits does not start with a minus sign
  have unsigned : ∀ k text, toDecimalNat k ≠ 45 :: text := by
    intro k text start
    have digit := digit_of_mem_toDecimalNat (n := k) (b := 45) (by simp [start])
    exact absurd digit (by decide)
  unfold toDecimal at same
  split at same <;> split at same
  · have values := toDecimalNat_injective (List.cons.inj same).2
    omega
  · exact absurd same.symm (unsigned _ _)
  · exact absurd same (unsigned _ _)
  · have values := toDecimalNat_injective same
    omega

end OnlineChat
