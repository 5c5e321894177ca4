import Mathlib.Data.List.Basic
import Mathlib.Data.List.Nodup
import Mathlib.Data.List.Pairwise

/-!
# Maps with ordered keys

A finite map as the list of its entries in increasing order of their keys.  The
order is part of the type, so that enumerating a map is a function of its content.
-/

namespace OnlineChat.Library

universe u v

variable {κ : Type u} {α : Type v} [Ord κ]

namespace SortedMap

/-- The key of `a` is below the key of `b`. -/
def Below (a b : κ × α) : Prop := compare a.1 b.1 = .lt

/-- Insert into an ordered list of entries, replacing the entry of that key. -/
def insertIn (k : κ) (x : α) : List (κ × α) → List (κ × α)
  | [] => [(k, x)]
  | (k', x') :: rest =>
      match compare k k' with
      | .lt => (k, x) :: (k', x') :: rest
      | .eq => (k, x) :: rest
      | .gt => (k', x') :: insertIn k x rest

theorem mem_insertIn {k : κ} {x : α} {a : κ × α} {entries : List (κ × α)}
    (membership : a ∈ insertIn k x entries) : a = (k, x) ∨ a ∈ entries := by
  induction entries with
  | nil => exact .inl (by simpa [insertIn] using membership)
  | cons head rest inductionHypothesis =>
      obtain ⟨k', x'⟩ := head
      unfold insertIn at membership
      split at membership <;> simp only [List.mem_cons] at membership ⊢
      · exact membership
      · exact membership.imp_right .inr
      · rcases membership with same | later
        · exact .inr (.inl same)
        · exact (inductionHypothesis later).imp_right .inr

end SortedMap

/-- A finite map from `κ` to `α`. -/
@[ext]
structure SortedMap (κ : Type u) (α : Type v) [Ord κ] where
  entries : List (κ × α)
  sorted : entries.Pairwise SortedMap.Below

namespace SortedMap

def empty : SortedMap κ α := ⟨[], .nil⟩

instance : EmptyCollection (SortedMap κ α) := ⟨empty⟩

instance : Inhabited (SortedMap κ α) := ⟨empty⟩

def size (m : SortedMap κ α) : Nat := m.entries.length

/-- The keys in increasing order. -/
def keys (m : SortedMap κ α) : List κ := m.entries.map Prod.fst

/-- The entries that satisfy `p`. -/
def filter (p : κ × α → Bool) (m : SortedMap κ α) : SortedMap κ α :=
  ⟨m.entries.filter p, m.sorted.filter p⟩

/-- The entries behind the first `n`. -/
def drop (n : Nat) (m : SortedMap κ α) : SortedMap κ α :=
  ⟨m.entries.drop n, m.sorted.sublist (List.drop_sublist n m.entries)⟩

section Lookup

variable [DecidableEq κ]

def find? (m : SortedMap κ α) (k : κ) : Option α :=
  (m.entries.find? fun entry => entry.1 = k).map Prod.snd

def contains (m : SortedMap κ α) (k : κ) : Bool := (m.find? k).isSome

def erase (m : SortedMap κ α) (k : κ) : SortedMap κ α := m.filter fun entry => entry.1 ≠ k

@[simp]
theorem find?_empty (k : κ) : (∅ : SortedMap κ α).find? k = none := rfl

theorem find?_erase (m : SortedMap κ α) (k k' : κ) :
    (m.erase k).find? k' = if k' = k then none else m.find? k' := by
  unfold find? erase filter
  simp only [List.find?_filter]
  split
  next same =>
    subst same
    simp [List.find?_eq_none]
  next differ =>
    congr 2
    funext entry
    by_cases hit : entry.1 = k'
    · simp [hit, differ]
    · simp [hit]

@[simp]
theorem find?_erase_self (m : SortedMap κ α) (k : κ) : (m.erase k).find? k = none := by
  simp [find?_erase]

theorem find?_isSome_iff {m : SortedMap κ α} {k : κ} : (m.find? k).isSome ↔ k ∈ m.keys := by
  simp [find?, keys, List.find?_isSome]

theorem contains_iff {m : SortedMap κ α} {k : κ} : m.contains k = true ↔ k ∈ m.keys :=
  find?_isSome_iff

theorem mem_entries_of_find? {m : SortedMap κ α} {k : κ} {x : α} (found : m.find? k = some x) :
    (k, x) ∈ m.entries := by
  obtain ⟨entry, hit, rfl⟩ := Option.map_eq_some_iff.mp found
  obtain rfl : entry.1 = k := by simpa using List.find?_some hit
  exact List.mem_of_find?_eq_some hit

theorem mem_keys_erase {m : SortedMap κ α} {k k' : κ} :
    k' ∈ (m.erase k).keys ↔ k' ≠ k ∧ k' ∈ m.keys := by
  rw [← find?_isSome_iff, ← find?_isSome_iff, find?_erase]
  by_cases same : k' = k <;> simp [same]

end Lookup

theorem nodup_keys [Std.LawfulEqOrd κ] (m : SortedMap κ α) : m.keys.Nodup := by
  refine (List.pairwise_map.mpr (m.sorted.imp ?_))
  intro a b below same
  simp [Below, same] at below

theorem find?_eq_some_iff [Std.LawfulEqOrd κ] [DecidableEq κ] {m : SortedMap κ α} {k : κ} {x : α} :
    m.find? k = some x ↔ (k, x) ∈ m.entries := by
  constructor
  · exact mem_entries_of_find?
  · intro membership
    cases found : m.find? k with
    | none =>
        have among : k ∈ m.keys := List.mem_map_of_mem membership
        rw [← find?_isSome_iff, found] at among
        cases among
    | some y =>
        have same := List.inj_on_of_nodup_map m.nodup_keys (mem_entries_of_find? found)
          membership rfl
        rw [(Prod.mk.inj same).2]

theorem find?_filter [Std.LawfulEqOrd κ] [DecidableEq κ] (p : κ × α → Bool) (m : SortedMap κ α)
    (k : κ) : (m.filter p).find? k = (m.find? k).filter fun x => p (k, x) := by
  ext x
  rw [Option.filter_eq_some_iff, find?_eq_some_iff, find?_eq_some_iff]
  exact List.mem_filter

section Insert

variable [Std.TransOrd κ] [Std.LawfulEqOrd κ]

theorem sorted_insertIn {k : κ} {x : α} {entries : List (κ × α)}
    (sorted : entries.Pairwise Below) : (insertIn k x entries).Pairwise Below := by
  induction entries with
  | nil => simp [insertIn]
  | cons head rest inductionHypothesis =>
      obtain ⟨k', x'⟩ := head
      obtain ⟨first, later⟩ := List.pairwise_cons.mp sorted
      unfold insertIn
      split
      next less =>
        refine List.pairwise_cons.mpr ⟨fun a membership => ?_, sorted⟩
        rcases List.mem_cons.mp membership with rfl | behind
        · exact less
        · exact Std.TransCmp.lt_trans less (first a behind)
      next same =>
        obtain rfl := Std.LawfulEqCmp.eq_of_compare same
        exact List.pairwise_cons.mpr ⟨first, later⟩
      next greater =>
        refine List.pairwise_cons.mpr ⟨fun a membership => ?_, inductionHypothesis later⟩
        rcases mem_insertIn membership with rfl | behind
        · exact Std.OrientedCmp.gt_iff_lt.mp greater
        · exact first a behind

omit [Std.LawfulEqOrd κ] in
/-- A key above all others comes last. -/
theorem insertIn_of_above {k : κ} {x : α} {entries : List (κ × α)}
    (above : ∀ entry ∈ entries, Below entry (k, x)) : insertIn k x entries = entries ++ [(k, x)] := by
  induction entries with
  | nil => rfl
  | cons head rest inductionHypothesis =>
      obtain ⟨first, later⟩ := List.forall_mem_cons.mp above
      have greater : compare k head.1 = .gt := Std.OrientedCmp.gt_iff_lt.mpr first
      simp only [insertIn, greater, List.cons_append, inductionHypothesis later]

def insert (m : SortedMap κ α) (k : κ) (x : α) : SortedMap κ α :=
  ⟨insertIn k x m.entries, sorted_insertIn m.sorted⟩

variable [DecidableEq κ]

theorem find?_insert (m : SortedMap κ α) (k k' : κ) (x : α) :
    (m.insert k x).find? k' = if k' = k then some x else m.find? k' := by
  obtain ⟨entries, sorted⟩ := m
  unfold find? insert
  dsimp only
  clear sorted
  induction entries with
  | nil =>
      by_cases same : k' = k
      · simp [insertIn, same]
      · simp [insertIn, same, Ne.symm same]
  | cons head rest inductionHypothesis =>
      obtain ⟨key, y⟩ := head
      unfold insertIn
      split
      next =>
        by_cases same : k' = k
        · simp [same]
        · simp [same, Ne.symm same]
      next equal =>
        obtain rfl := Std.LawfulEqCmp.eq_of_compare equal
        by_cases same : k' = k
        · simp [same]
        · simp [same, Ne.symm same]
      next greater =>
        by_cases hit : key = k'
        · have differ : k' ≠ k := by
            rintro rfl
            simp [hit] at greater
          simp [hit, differ]
        · simpa [hit] using inductionHypothesis

@[simp]
theorem find?_insert_self (m : SortedMap κ α) (k : κ) (x : α) :
    (m.insert k x).find? k = some x := by
  simp [find?_insert]

theorem size_insert {m : SortedMap κ α} {k : κ} {x : α} (fresh : m.find? k = none) :
    (m.insert k x).size = m.size + 1 := by
  obtain ⟨entries, sorted⟩ := m
  unfold find? at fresh
  unfold insert size
  dsimp only at fresh ⊢
  clear sorted
  induction entries with
  | nil => rfl
  | cons head rest inductionHypothesis =>
      obtain ⟨key, y⟩ := head
      have apart : key ≠ k := by
        rintro rfl
        simp at fresh
      unfold insertIn
      split
      next => rfl
      next equal => exact absurd (Std.LawfulEqCmp.eq_of_compare equal).symm apart
      next =>
        have later := inductionHypothesis (by simpa [apart] using fresh)
        rw [List.length_cons, later, List.length_cons]

theorem mem_keys_insert {m : SortedMap κ α} {k k' : κ} {x : α} :
    k' ∈ (m.insert k x).keys ↔ k' = k ∨ k' ∈ m.keys := by
  rw [← find?_isSome_iff, ← find?_isSome_iff, find?_insert]
  by_cases same : k' = k <;> simp [same]

theorem size_insert_of_mem {m : SortedMap κ α} {k : κ} {x : α} (present : k ∈ m.keys) :
    (m.insert k x).size = m.size := by
  have same : (m.insert k x).keys.Perm m.keys := by
    apply (List.perm_ext_iff_of_nodup (nodup_keys _) (nodup_keys _)).mpr
    intro k'
    rw [mem_keys_insert]
    exact or_iff_right_of_imp fun here => here ▸ present
  simpa [keys, size] using same.length_eq

end Insert

end SortedMap

end OnlineChat.Library
