import Mathlib.Data.List.Basic
import Mathlib.Data.List.Pairwise

/-!
# Tables with an automatic key

A table of an SQL store with an `INTEGER PRIMARY KEY AUTOINCREMENT` column: every
row gets a larger key than any row before it, also after a deletion.  That keys are
positive, increasing and bounded by the counter is part of the type.
-/

namespace OnlineChat.Library

universe u

variable {ρ : Type u}

structure Table (ρ : Type u) where
  /-- The rows in the order of their insertion. -/
  rows : List (Int × ρ)
  /-- The largest key ever given. -/
  seq : Int
  increasing : rows.Pairwise fun a b => a.1 < b.1
  bounded : ∀ row ∈ rows, 0 < row.1 ∧ row.1 ≤ seq
  nonneg : 0 ≤ seq

namespace Table

def empty : Table ρ := ⟨[], 0, .nil, by simp, Int.le_refl 0⟩

instance : EmptyCollection (Table ρ) := ⟨empty⟩

instance : Inhabited (Table ρ) := ⟨empty⟩

/-- Append a row under the next key. -/
def insert (t : Table ρ) (x : ρ) : Table ρ where
  rows := t.rows ++ [(t.seq + 1, x)]
  seq := t.seq + 1
  increasing := by
    refine List.pairwise_append.mpr ⟨t.increasing, List.pairwise_singleton .., ?_⟩
    intro a old b new
    obtain rfl := List.mem_singleton.mp new
    have bound := (t.bounded a old).2
    omega
  bounded := by
    intro row membership
    have nonneg := t.nonneg
    rcases List.mem_append.mp membership with old | new
    · have bound := t.bounded row old
      omega
    · obtain rfl := List.mem_singleton.mp new
      exact ⟨by omega, Int.le_refl _⟩
  nonneg := by have nonneg := t.nonneg; omega

/-- Rewrite the row of one key. -/
def update (t : Table ρ) (id : Int) (f : ρ → ρ) : Table ρ where
  rows := t.rows.map fun row => if row.1 = id then (row.1, f row.2) else row
  seq := t.seq
  increasing := by
    refine List.pairwise_map.mpr (t.increasing.imp ?_)
    intro a b less
    split <;> split <;> exact less
  bounded := by
    intro row membership
    obtain ⟨old, there, rfl⟩ := List.mem_map.mp membership
    have bound := t.bounded old there
    split <;> exact bound
  nonneg := t.nonneg

/-- Change the content of every row, under the same keys. -/
def map {σ : Type u} (f : ρ → σ) (t : Table ρ) : Table σ where
  rows := t.rows.map fun row => (row.1, f row.2)
  seq := t.seq
  increasing := List.pairwise_map.mpr t.increasing
  bounded := by
    intro row membership
    obtain ⟨old, there, rfl⟩ := List.mem_map.mp membership
    exact t.bounded old there
  nonneg := t.nonneg

@[simp]
theorem seq_insert (t : Table ρ) (x : ρ) : (t.insert x).seq = t.seq + 1 := rfl

@[simp]
theorem rows_insert (t : Table ρ) (x : ρ) : (t.insert x).rows = t.rows ++ [(t.seq + 1, x)] := rfl

@[simp]
theorem rows_empty : (∅ : Table ρ).rows = [] := rfl

theorem mem_rows_insert {t : Table ρ} {x : ρ} {row : Int × ρ} :
    row ∈ (t.insert x).rows ↔ row ∈ t.rows ∨ row = (t.seq + 1, x) := by
  simp

/-- A key belongs to one row. -/
theorem eq_of_key {t : Table ρ} {row row' : Int × ρ} (there : row ∈ t.rows)
    (there' : row' ∈ t.rows) (same : row.1 = row'.1) : row = row' := by
  by_contra differ
  exact List.Pairwise.forall_of_forall_of_flip (R := fun a b => a ≠ b → a.1 ≠ b.1) (by simp)
    (t.increasing.imp fun less _ => by omega) (t.increasing.imp fun less _ => by omega)
    there there' differ same

/-- The rows under keys that the old table does not have. -/
def added (old new : Table ρ) : List (Int × ρ) :=
  new.rows.filter fun row => old.rows.all fun row' => row'.1 ≠ row.1

theorem added_insert (t : Table ρ) (x : ρ) : t.added (t.insert x) = [(t.seq + 1, x)] := by
  have old : t.rows.filter (fun row => t.rows.all fun row' => row'.1 ≠ row.1) = [] := by
    apply List.filter_eq_nil_iff.mpr
    intro row there unknown
    have differs := List.all_eq_true.mp unknown row there
    simp at differs
  have fresh : t.rows.all (fun row' => row'.1 ≠ t.seq + 1) = true := by
    apply List.all_eq_true.mpr
    intro row there
    have bound := (t.bounded row there).2
    exact decide_eq_true (by omega)
  rw [added, rows_insert, List.filter_append, old, List.nil_append, List.filter_singleton, fresh]
  rfl

/-- Without new keys nothing is added. -/
theorem added_eq_nil {old new : Table ρ} (known : ∀ row ∈ new.rows, ∃ x, (row.1, x) ∈ old.rows) :
    old.added new = [] := by
  apply List.filter_eq_nil_iff.mpr
  intro row there unknown
  obtain ⟨x, before⟩ := known row there
  have differs := List.all_eq_true.mp unknown _ before
  simp at differs

theorem mem_rows_update {t : Table ρ} {id : Int} {f : ρ → ρ} {row : Int × ρ} :
    row ∈ (t.update id f).rows ↔
      ∃ x, (row.1, x) ∈ t.rows ∧ row.2 = if row.1 = id then f x else x := by
  simp only [update, List.mem_map, Prod.exists]
  constructor
  · rintro ⟨key, x, there, rfl⟩
    by_cases hit : key = id <;> simp [hit, there]
    exact ⟨x, hit ▸ there, rfl⟩
  · rintro ⟨x, there, value⟩
    refine ⟨row.1, x, there, ?_⟩
    by_cases hit : row.1 = id
    · simp only [hit, if_true] at value ⊢
      exact Prod.ext hit.symm value.symm
    · simp only [hit, if_false] at value ⊢
      exact Prod.ext rfl value.symm

end Table

end OnlineChat.Library
