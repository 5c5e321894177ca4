import OnlineChat.Bytes
import OnlineChat.Library.SortedMap

/-!
# The (user, seq) idempotency window

A pair is let through once.  When the table is full it is cleared as a whole.
-/

namespace OnlineChat

open Library

structure SeqDeduper where
  maxEntries : Nat := 500000
  table : SortedMap Bytes Int := ∅

namespace SeqDeduper

def key (user : Bytes) (seq : Int) : Bytes := user ++ 58 :: toDecimal seq

/-- `true` is the first time (let through), `false` a repetition. -/
def checkAndAdd (d : SeqDeduper) (user : Bytes) (seq : Int) : Bool × SeqDeduper :=
  let k := key user seq
  if d.table.contains k then (false, d)
  else
    let table := if d.table.size ≥ d.maxEntries then ∅ else d.table
    (true, { d with table := table.insert k seq })

def seen (d : SeqDeduper) (user : Bytes) (seq : Int) : Bool := d.table.contains (key user seq)

/-- A call for the pair clears no table: the pair is known, or there is room. -/
def keeps (d : SeqDeduper) (user : Bytes) (seq : Int) : Bool :=
  d.seen user seq || d.table.size < d.maxEntries

def clear (d : SeqDeduper) : SeqDeduper := { d with table := ∅ }

/-- Two lists whose part behind the last `b` has no `b` have equal parts. -/
theorem append_cons_inj_of_notMem {xs ys : Bytes} {b : UInt8} {us vs : Bytes}
    (xsTail : b ∉ us) (ysTail : b ∉ vs) (same : xs ++ b :: us = ys ++ b :: vs) :
    xs = ys ∧ us = vs := by
  rcases List.append_eq_append_iff.mp same with ⟨mid, rfl, tails⟩ | ⟨mid, rfl, tails⟩
  · cases mid with
    | nil => simpa using tails
    | cons head mid =>
        obtain ⟨-, rfl⟩ := List.cons.inj tails
        exact absurd (by simp) xsTail
  · cases mid with
    | nil => simpa [eq_comm] using tails
    | cons head mid =>
        obtain ⟨-, rfl⟩ := List.cons.inj tails
        exact absurd (by simp) ysTail

/-- The colon that ends the user name is the last one of the key. -/
theorem colon_notMem_toDecimal (n : Int) : (58 : UInt8) ∉ toDecimal n := by
  intro membership
  have noDigit : (58 : UInt8) ∉ toDecimalNat n.natAbs := fun digit =>
    absurd (digit_of_mem_toDecimalNat digit) (by decide)
  unfold toDecimal at membership
  split at membership
  · rcases List.mem_cons.mp membership with sign | digit
    · exact absurd sign (by decide)
    · exact noDigit digit
  · exact noDigit membership

/-- Distinct pairs have distinct keys. -/
theorem key_inj {user user' : Bytes} {seq seq' : Int} :
    key user seq = key user' seq' ↔ user = user' ∧ seq = seq' := by
  constructor
  · intro same
    obtain ⟨users, numbers⟩ := append_cons_inj_of_notMem (colon_notMem_toDecimal seq)
      (colon_notMem_toDecimal seq') same
    exact ⟨users, toDecimal_injective numbers⟩
  · rintro ⟨rfl, rfl⟩
    rfl

/-- What one call does to the window, as long as nothing is evicted: a new pair
is let through and remembered, a known one is refused, and no other pair changes. -/
theorem seen_checkAndAdd {d : SeqDeduper} {user : Bytes} {seq : Int}
    (keeps : d.keeps user seq = true) (user' : Bytes) (seq' : Int) :
    (d.checkAndAdd user seq).2.seen user' seq' =
      (d.seen user' seq' || (user' = user && seq' = seq)) := by
  unfold SeqDeduper.keeps at keeps
  unfold checkAndAdd
  unfold seen at keeps ⊢
  dsimp only
  split
  next known =>
    by_cases same : user' = user ∧ seq' = seq
    · obtain ⟨rfl, rfl⟩ := same
      simp [known]
    · simp_all
  next fresh =>
    have other : key user' seq' = key user seq ↔ user' = user ∧ seq' = seq := key_inj
    have room : d.table.size < d.maxEntries := by simpa [fresh] using keeps
    simp only [Nat.not_le.mpr room, if_false, SortedMap.contains, SortedMap.find?_insert,
      other]
    by_cases same : user' = user ∧ seq' = seq
    · simp [same]
    · simp only [same, if_false]
      simp_all

theorem checkAndAdd_fst (d : SeqDeduper) (user : Bytes) (seq : Int) :
    (d.checkAndAdd user seq).1 = !d.seen user seq := by
  unfold checkAndAdd seen
  dsimp only
  split <;> simp_all

@[simp]
theorem maxEntries_checkAndAdd (d : SeqDeduper) (user : Bytes) (seq : Int) :
    (d.checkAndAdd user seq).2.maxEntries = d.maxEntries := by
  unfold checkAndAdd
  dsimp only
  split <;> rfl

end SeqDeduper

end OnlineChat
