import Mathlib.Data.List.Chain
import Mathlib.Order.Lattice

/-!
# Keyset paging

A client reads a growing set of rows page by page: the newest rows first, and every
further page behind the key of the last row that it got.
-/

namespace OnlineChat.Library

universe u v

variable {α : Type u} {κ : Type v} [LinearOrder κ] {key : α → κ} {cursor : Option κ}
  {rows page : List α} {limit n : Nat} {x y : α}

/-- Without a cursor every row counts, with one those of a smaller key. -/
def Behind (key : α → κ) (cursor : Option κ) (x : α) : Prop := ∀ k ∈ cursor, key x < k

/-- The newest `limit` rows behind the cursor, newest first. -/
structure IsPage (key : α → κ) (limit : Nat) (cursor : Option κ) (rows page : List α) :
    Prop where
  sound : ∀ x ∈ page, x ∈ rows ∧ Behind key cursor x
  decreasing : page.Pairwise fun x y => key y < key x
  short : page.length ≤ limit
  full : ∀ x ∈ rows, Behind key cursor x → x ∉ page →
    page.length = limit ∧ ∀ y ∈ page, key x < key y

/-- `WHERE … ORDER BY key DESC LIMIT limit`. -/
theorem isPage_take {sorted : List α} (limit : Nat)
    (filtered : ∀ x, x ∈ sorted ↔ x ∈ rows ∧ Behind key cursor x)
    (decreasing : sorted.Pairwise fun x y => key y < key x) :
    IsPage key limit cursor rows (sorted.take limit) := by
  refine ⟨?_, ?_, ?_, ?_⟩
  · intro x membership
    exact (filtered x).mp (List.mem_of_mem_take membership)
  · exact decreasing.sublist (List.take_sublist limit sorted)
  · exact List.length_take_le limit sorted
  · intro x there behind missing
    have later : x ∈ sorted.drop limit := by
      have all := (filtered x).mpr ⟨there, behind⟩
      rw [← List.take_append_drop limit sorted, List.mem_append] at all
      exact all.resolve_left missing
    refine ⟨?_, ?_⟩
    · rw [List.length_take, Nat.min_eq_left]
      have positive := List.length_pos_of_mem later
      rw [List.length_drop] at positive
      exact Nat.le_of_lt (Nat.lt_of_sub_pos positive)
    · intro y membership
      rw [← List.take_append_drop limit sorted] at decreasing
      exact (List.pairwise_append.mp decreasing).2.2 y membership x later

namespace IsPage

/-- A shorter page of the same rows. -/
theorem take (isPage : IsPage key limit cursor rows page) (n : Nat) :
    IsPage key (min n limit) cursor rows (page.take n) := by
  refine ⟨?_, ?_, ?_, ?_⟩
  · intro x membership
    exact isPage.sound x (List.mem_of_mem_take membership)
  · exact isPage.decreasing.sublist (List.take_sublist n page)
  · rw [List.length_take]
    have short := isPage.short
    omega
  · intro x there behind missing
    by_cases later : x ∈ page
    · rw [← List.take_append_drop n page, List.mem_append] at later
      have later := later.resolve_left missing
      have positive := List.length_pos_of_mem later
      rw [List.length_drop] at positive
      have short := isPage.short
      refine ⟨?_, ?_⟩
      · rw [List.length_take]
        omega
      · intro y membership
        have decreasing := isPage.decreasing
        rw [← List.take_append_drop n page] at decreasing
        exact (List.pairwise_append.mp decreasing).2.2 y membership x later
    · obtain ⟨length, older⟩ := isPage.full x there behind later
      refine ⟨by rw [List.length_take, length], ?_⟩
      intro y membership
      exact older y (List.mem_of_mem_take membership)

/-- One row more than shown is read: it is there exactly when an older row is. -/
theorem more_iff (isPage : IsPage key (n + 1) cursor rows page) :
    n < page.length ↔ ∃ x ∈ rows, Behind key cursor x ∧ ∀ y ∈ page.take n, key x < key y := by
  constructor
  · intro more
    have membership : page[n] ∈ page.drop n := by
      rw [List.drop_eq_getElem_cons more]
      exact List.mem_cons_self
    obtain ⟨there, behind⟩ := isPage.sound page[n] (List.mem_of_mem_drop membership)
    refine ⟨page[n], there, behind, ?_⟩
    intro y shown
    have decreasing := isPage.decreasing
    rw [← List.take_append_drop n page] at decreasing
    exact (List.pairwise_append.mp decreasing).2.2 y shown page[n] membership
  · rintro ⟨x, there, behind, older⟩
    by_contra few
    have all : page.take n = page := List.take_of_length_le (Nat.not_lt.mp few)
    rw [all] at older
    by_cases shown : x ∈ page
    · exact absurd (older x shown) (lt_irrefl _)
    · have full := (isPage.full x there behind shown).1
      omega

end IsPage

/-! ## Page by page -/

/-- The rows at a request, and the page that was shown. -/
abbrev Visit (α : Type u) := List α × List α

/-- A client that passes the key of the last row back as long as there are more rows;
whether there are more behind the last page. -/
inductive Walk (key : α → κ) (n : Nat) : Option κ → List (Visit α) → Bool → Prop where
  | last {cursor : Option κ} {rows page : List α} : IsPage key (n + 1) cursor rows page →
      Walk key n cursor [(rows, page.take n)] (decide (n < page.length))
  | next {cursor : Option κ} {rows page : List α} {x : α} {visits : List (Visit α)}
      {more : Bool} : IsPage key (n + 1) cursor rows page → n < page.length →
      (page.take n).getLast? = some x → Walk key n (some (key x)) visits more →
      Walk key n cursor ((rows, page.take n) :: visits) more

/-- The rows that were shown, in the order of the pages. -/
def shown (visits : List (Visit α)) : List α := visits.flatMap Prod.snd

/-- No row is deleted between the requests. -/
def Growing (visits : List (Visit α)) : Prop :=
  (visits.map Prod.fst).IsChain fun rows rows' => ∀ x ∈ rows, x ∈ rows'

variable {visits : List (Visit α)} {more : Bool}

theorem Walk.behind (walk : Walk key n cursor visits more) : ∀ x ∈ shown visits, Behind key cursor x := by
  induction walk with
  | last isPage =>
      intro x membership
      simp only [shown, List.flatMap_cons, List.flatMap_nil, List.append_nil] at membership
      exact (isPage.sound x (List.mem_of_mem_take membership)).2
  | next isPage _ last _ inductionHypothesis =>
      intro x membership
      rcases List.mem_append.mp membership with here | later
      · exact (isPage.sound x (List.mem_of_mem_take here)).2
      · intro k given
        have old := (isPage.sound _ (List.mem_of_mem_take (List.mem_of_getLast? last))).2 k given
        exact lt_trans (inductionHypothesis x later _ rfl) old

/-- From page to page the keys decrease. -/
theorem Walk.decreasing (walk : Walk key n cursor visits more) :
    (shown visits).Pairwise fun x y => key y < key x := by
  induction walk with
  | last isPage =>
      simpa [shown] using isPage.decreasing.sublist (List.take_sublist n _)
  | next isPage _ last walk inductionHypothesis =>
      refine List.pairwise_append.mpr
        ⟨isPage.decreasing.sublist (List.take_sublist n _), inductionHypothesis, ?_⟩
      intro x here y later
      refine lt_of_lt_of_le (walk.behind y later _ rfl) ?_
      have decreasing := isPage.decreasing.sublist (List.take_sublist n _)
      obtain ⟨front, split⟩ := List.getLast?_eq_some_iff.mp last
      rw [split] at decreasing here
      rcases List.mem_append.mp here with before | same
      · exact le_of_lt ((List.pairwise_append.mp decreasing).2.2 x before _ (by simp))
      · rw [List.mem_singleton.mp same]

/-- A row that is there at the first request is shown, once there are no more rows. -/
theorem Walk.covers (walk : Walk key n cursor visits more) (ended : more = false)
    (growing : Growing visits) :
    ∀ visit ∈ visits.head?, ∀ x ∈ visit.1, Behind key cursor x → x ∈ shown visits := by
  induction walk with
  | last isPage =>
      rintro visit first x there behind
      obtain rfl := Option.some.inj first
      have all := Nat.not_lt.mp (of_decide_eq_false ended)
      by_contra missing
      simp only [shown, List.flatMap_cons, List.flatMap_nil, List.append_nil,
        List.take_of_length_le all] at missing
      have full := (isPage.full x there behind missing).1
      omega
  | @next cursor rows page last visits more isPage full end' walk inductionHypothesis =>
      rintro visit first x there behind
      obtain rfl := Option.some.inj first
      obtain ⟨next, later⟩ := List.isChain_cons.mp growing
      by_cases here : x ∈ page.take n
      · exact List.mem_append_left _ here
      · have older := ((isPage.take n).full x there behind here).2 last
          (List.mem_of_getLast? end')
        apply List.mem_append_right
        cases visits with
        | nil => cases walk
        | cons visit visits =>
            refine inductionHypothesis ended later visit rfl x (next _ rfl x there) ?_
            intro k given
            obtain rfl := Option.some.inj given
            exact older

end OnlineChat.Library
