import Mathlib.Data.List.Basic

/-!
# Memory of several objects

Every object is a run of bytes of its own; a pointer names an object and a place in it. Two
pointers can meet only in one object.
-/

namespace OnlineChat.Library

/-- The bytes of the objects. -/
abbrev Memory (ι : Type) := ι → Nat → UInt8

/-- An object and an offset in it. -/
abbrev Pointer (ι : Type) := ι × Nat

namespace Memory

variable {ι : Type} [DecidableEq ι] {mem : Memory ι} {p q : Pointer ι} {text : List UInt8}
  {o : ι} {a n : Nat}

/-- So many bytes from the pointer on. -/
def read (mem : Memory ι) (p : Pointer ι) (n : Nat) : List UInt8 :=
  (List.range n).map fun i => mem p.1 (p.2 + i)

/-- `memcpy` of a text to the pointer. -/
def write (mem : Memory ι) (p : Pointer ι) (text : List UInt8) : Memory ι := fun o a =>
  if o = p.1 ∧ p.2 ≤ a ∧ a < p.2 + text.length then text.getD (a - p.2) 0 else mem o a

/-- Every object holds its text from its beginning on. -/
def ofTexts (texts : ι → List UInt8) : Memory ι := fun o a => (texts o).getD a 0

omit [DecidableEq ι] in
@[simp]
theorem length_read (mem : Memory ι) (p : Pointer ι) (n : Nat) : (mem.read p n).length = n := by
  simp [read]

omit [DecidableEq ι] in
theorem read_add (mem : Memory ι) (o : ι) (a k n : Nat) :
    mem.read (o, a) (k + n) = mem.read (o, a) k ++ mem.read (o, a + k) n := by
  simp [read, List.range_add, Nat.add_assoc]

omit [DecidableEq ι] in
theorem read_ofTexts (texts : ι → List UInt8) (o : ι) :
    (ofTexts texts).read (o, 0) (texts o).length = texts o := by
  apply List.ext_getElem (length_read ..)
  intro i _ inside
  simp [read, ofTexts, inside]

/-- Another object is not touched. -/
theorem write_of_ne (differs : o ≠ p.1) : mem.write p text o = mem o := by
  funext a
  exact if_neg fun same => differs same.1

theorem read_write_self (mem : Memory ι) (p : Pointer ι) (text : List UInt8) :
    (mem.write p text).read p text.length = text := by
  apply List.ext_getElem (length_read ..)
  intro i _ inside
  simp [read, write, inside]

/-- What stands in front of the text that is written stays. -/
theorem read_write_before (mem : Memory ι) (o : ι) (a k : Nat) (text : List UInt8) :
    (mem.write (o, a + k) text).read (o, a) k = mem.read (o, a) k := by
  apply List.map_congr_left
  intro i membership
  have before := List.mem_range.mp membership
  exact if_neg fun inside => absurd inside.2.1 (by dsimp only; omega)

/-- The text goes behind what has been written. -/
theorem read_write_behind (mem : Memory ι) (o : ι) (a k : Nat) (text : List UInt8) :
    (mem.write (o, a + k) text).read (o, a) (k + text.length) = mem.read (o, a) k ++ text := by
  rw [read_add, read_write_before, read_write_self]

omit [DecidableEq ι] in
/-- A read sees its own object only. -/
theorem read_congr {mem mem' : Memory ι} (same : mem p.1 = mem' p.1) (n : Nat) :
    mem.read p n = mem'.read p n := by
  rw [read, same]
  rfl

end Memory

end OnlineChat.Library
