import Mathlib.Data.List.Infix
import Mathlib.Data.List.Basic

/-!
# Leftmost longest matches

A text is cut from left to right.  Where words of a list start, the longest of them is cut
out as a hit, elsewhere one symbol is kept.  Symbols are compared up to a function `fold`.
-/

namespace OnlineChat.Library

universe u

variable {α : Type u}

/-! ## Pieces -/

inductive Piece (α : Type u) where
  | keep (c : α)
  | hit (s : List α)

namespace Piece

def text : Piece α → List α
  | keep c => [c]
  | hit s => s

/-- A hit is replaced by a mask, as often as `count` says. -/
def masked (count : List α → Nat) (mask : α) : Piece α → List α
  | keep c => [c]
  | hit s => List.replicate (count s) mask

/-- Where the hits start and where they end. -/
def spans : Nat → List (Piece α) → List (Nat × Nat)
  | _, [] => []
  | i, keep _ :: pieces => spans (i + 1) pieces
  | i, hit s :: pieces => (i, i + s.length) :: spans (i + s.length) pieces

theorem le_of_mem_spans {i : Nat} {pieces : List (Piece α)} {span : Nat × Nat}
    (there : span ∈ spans i pieces) :
    i ≤ span.1 ∧ span.1 ≤ span.2 ∧ span.2 ≤ i + (pieces.flatMap text).length := by
  induction pieces generalizing i with
  | nil => cases there
  | cons piece pieces inductionHypothesis =>
      rw [List.flatMap_cons, List.length_append]
      cases piece with
      | keep c =>
          have later := inductionHypothesis there
          simp only [text, List.length_singleton]
          omega
      | hit s =>
          simp only [text]
          rcases List.mem_cons.mp there with rfl | there
          · dsimp only
            omega
          · have later := inductionHypothesis there
            omega

theorem lt_of_mem_spans {i : Nat} {pieces : List (Piece α)} {span : Nat × Nat}
    (nonempty : ∀ s, hit s ∈ pieces → s ≠ []) (there : span ∈ spans i pieces) :
    span.1 < span.2 := by
  induction pieces generalizing i with
  | nil => cases there
  | cons piece pieces inductionHypothesis =>
      have later := @inductionHypothesis (i + piece.text.length) fun s there =>
        nonempty s (List.mem_cons_of_mem piece there)
      cases piece with
      | keep c => exact later there
      | hit s =>
          rcases List.mem_cons.mp there with rfl | there
          · have length := List.length_pos_of_ne_nil (nonempty s (List.mem_cons_self ..))
            dsimp only
            omega
          · exact later there

theorem spans_eq_nil_iff {i : Nat} {pieces : List (Piece α)} :
    spans i pieces = [] ↔ ∀ s, hit s ∉ pieces := by
  induction pieces generalizing i with
  | nil => simp [spans]
  | cons piece pieces inductionHypothesis =>
      cases piece with
      | keep c => simp [spans, inductionHypothesis]
      | hit s =>
          refine iff_of_false (List.cons_ne_nil _ _) fun none => none s (List.mem_cons_self ..)

/-- A mask for each symbol of a hit changes the hits and nothing else. -/
theorem getElem?_masked (mask : α) (pieces : List (Piece α)) (i j : Nat) :
    (pieces.flatMap (masked List.length mask))[j]? =
      if (∃ span ∈ spans i pieces, span.1 ≤ i + j ∧ i + j < span.2) then some mask
      else (pieces.flatMap text)[j]? := by
  induction pieces generalizing i j with
  | nil => simp [spans]
  | cons piece pieces inductionHypothesis =>
      rw [List.flatMap_cons, List.flatMap_cons]
      cases piece with
      | keep c =>
          cases j with
          | zero =>
              have before : ¬ ∃ span ∈ spans (i + 1) pieces, span.1 ≤ i + 0 ∧ i + 0 < span.2 := by
                rintro ⟨span, there, starts, -⟩
                have bounds := le_of_mem_spans there
                omega
              rw [spans, if_neg before]
              rfl
          | succ j =>
              have later := inductionHypothesis (i + 1) j
              rw [show i + 1 + j = i + (j + 1) by omega] at later
              exact later
      | hit s =>
          have front : masked List.length mask (hit s) = List.replicate s.length mask := rfl
          have whole : (hit s).text = s := rfl
          rw [front, whole]
          by_cases inside : j < s.length
          · have covered : ∃ span ∈ spans i (hit s :: pieces), span.1 ≤ i + j ∧ i + j < span.2 :=
              ⟨(i, i + s.length), List.mem_cons_self .., by omega, by dsimp only; omega⟩
            rw [if_pos covered, List.getElem?_append_left (by simpa using inside),
              List.getElem?_replicate, if_pos inside]
          · have later := inductionHypothesis (i + s.length) (j - s.length)
            rw [show i + s.length + (j - s.length) = i + j by omega] at later
            rw [List.getElem?_append_right (by simpa using inside),
              List.getElem?_append_right (not_lt.mp inside), List.length_replicate, later]
            have outside : ¬ (i ≤ i + j ∧ i + j < i + s.length) := by omega
            simp only [spans, List.exists_mem_cons_iff, outside, false_or]

theorem length_masked (mask : α) (pieces : List (Piece α)) :
    (pieces.flatMap (masked List.length mask)).length = (pieces.flatMap text).length := by
  induction pieces with
  | nil => rfl
  | cons piece pieces inductionHypothesis =>
      rw [List.flatMap_cons, List.flatMap_cons, List.length_append, List.length_append,
        inductionHypothesis]
      cases piece with
      | keep c => rfl
      | hit s => simp [masked, text]

end Piece

/-! ## The cut of a text -/

section Cuts

variable (fold : α → α) (words : List (List α))

/-- The word is in the list and stands at the beginning of the text.  The empty word is
nowhere. -/
structure Begins (word text : List α) : Prop where
  listed : word ∈ words
  nonempty : word ≠ []
  spelled : word.map fold <+: text.map fold

/-- Some word of the list stands in the text. -/
def Occurs (text : List α) : Prop :=
  ∃ word ∈ words, word ≠ [] ∧ word.map fold <:+: text.map fold

inductive Cuts : List α → List (Piece α) → Prop where
  | nil : Cuts [] []
  | keep {c : α} {text : List α} {pieces : List (Piece α)} :
      (∀ word, ¬ Begins fold words word (c :: text)) → Cuts text pieces →
      Cuts (c :: text) (.keep c :: pieces)
  | hit {word s rest : List α} {pieces : List (Piece α)} :
      Begins fold words word (s ++ rest) → word.length = s.length →
      (∀ word', Begins fold words word' (s ++ rest) → word'.length ≤ s.length) →
      Cuts rest pieces → Cuts (s ++ rest) (.hit s :: pieces)

end Cuts

variable {fold : α → α} {words : List (List α)} {text rest s : List α}
  {pieces pieces' : List (Piece α)}

theorem Begins.occurs {word : List α} (begins : Begins fold words word text) :
    Occurs fold words text :=
  ⟨word, begins.listed, begins.nonempty, begins.spelled.isInfix⟩

theorem Occurs.cons_iff {c : α} : Occurs fold words (c :: text) ↔
    (∃ word, Begins fold words word (c :: text)) ∨ Occurs fold words text := by
  constructor
  · rintro ⟨word, listed, nonempty, within⟩
    rcases List.infix_cons_iff.mp within with begins | later
    · exact .inl ⟨word, listed, nonempty, begins⟩
    · exact .inr ⟨word, listed, nonempty, later⟩
  · rintro (⟨word, begins⟩ | ⟨word, listed, nonempty, within⟩)
    · exact begins.occurs
    · exact ⟨word, listed, nonempty, List.infix_cons within⟩

/-- The beginning of a text that a word takes up. -/
theorem Begins.map_eq {word : List α} (begins : Begins fold words word (s ++ rest))
    (size : word.length = s.length) : word.map fold = s.map fold := by
  have spelled := begins.spelled
  rw [List.map_append] at spelled
  have within : word.map fold <+: s.map fold :=
    List.prefix_of_prefix_length_le spelled (List.prefix_append _ _) (by simp [size])
  exact within.eq_of_length (by simp [size])

namespace Cuts

theorem flatMap_text (cuts : Cuts fold words text pieces) : pieces.flatMap Piece.text = text := by
  induction cuts with
  | nil => rfl
  | keep _ _ inductionHypothesis => exact congrArg (_ :: ·) inductionHypothesis
  | @hit _ s _ _ _ _ _ _ inductionHypothesis => exact congrArg (s ++ ·) inductionHypothesis

theorem ne_nil_of_hit (cuts : Cuts fold words text pieces) (there : .hit s ∈ pieces) : s ≠ [] := by
  induction cuts with
  | nil => cases there
  | keep _ _ inductionHypothesis =>
      rcases List.mem_cons.mp there with same | later
      · cases same
      · exact inductionHypothesis later
  | hit begins size _ _ inductionHypothesis =>
      rcases List.mem_cons.mp there with same | later
      · obtain rfl := Piece.hit.inj same
        rintro rfl
        exact begins.nonempty (List.length_eq_zero_iff.mp size)
      · exact inductionHypothesis later

/-- There is one way to cut a text. -/
theorem unique (cuts : Cuts fold words text pieces) (cuts' : Cuts fold words text pieces') :
    pieces = pieces' := by
  induction cuts generalizing pieces' with
  | nil =>
      generalize empty : ([] : List α) = text at cuts'
      cases cuts' with
      | nil => rfl
      | keep _ _ => cases empty
      | hit begins size _ _ =>
          obtain ⟨rfl, -⟩ := List.append_eq_nil_iff.mp empty.symm
          exact absurd (List.length_eq_zero_iff.mp size) begins.nonempty
  | @keep c text pieces none cuts inductionHypothesis =>
      generalize same : c :: text = whole at cuts'
      cases cuts' with
      | nil => cases same
      | keep _ cuts' =>
          obtain ⟨rfl, rfl⟩ := List.cons.inj same
          rw [inductionHypothesis cuts']
      | hit begins _ _ _ => exact absurd (same ▸ begins) (none _)
  | @hit word s rest pieces begins size longest cuts inductionHypothesis =>
      generalize same : s ++ rest = whole at cuts'
      cases cuts' with
      | nil =>
          obtain ⟨rfl, -⟩ := List.append_eq_nil_iff.mp same
          exact absurd (List.length_eq_zero_iff.mp size) begins.nonempty
      | keep none _ => exact absurd (same ▸ begins) (none _)
      | @hit word' s' rest' _ begins' size' longest' cuts' =>
          have lengths : s.length = s'.length := by
            have le := longest' word (same ▸ begins)
            have ge := longest word' (same ▸ begins')
            omega
          obtain ⟨rfl, rfl⟩ := List.append_inj same lengths
          rw [inductionHypothesis cuts']

/-- A text has a hit exactly when a word occurs in it. -/
theorem exists_hit_iff (cuts : Cuts fold words text pieces) :
    (∃ s, .hit s ∈ pieces) ↔ Occurs fold words text := by
  induction cuts with
  | nil =>
      constructor
      · rintro ⟨s, ⟨⟩⟩
      · rintro ⟨word, -, nonempty, within⟩
        exact absurd (by simpa using within) nonempty
  | keep none _ inductionHypothesis =>
      rw [Occurs.cons_iff, ← inductionHypothesis]
      simp [none]
  | hit begins _ _ _ _ => exact iff_of_true ⟨_, List.mem_cons_self ..⟩ begins.occurs

/-- A text without words is kept as it is. -/
theorem of_not_occurs (absent : ¬ Occurs fold words text) :
    Cuts fold words text (text.map .keep) := by
  induction text with
  | nil => exact .nil
  | cons c text inductionHypothesis =>
      rw [Occurs.cons_iff, not_or, not_exists] at absent
      exact .keep absent.1 (inductionHypothesis absent.2)

end Cuts

/-! ## Masks that are in no word -/

variable {count : List α → Nat} {mask : α} {word : List α}

/-- What starts a masked text and has no mask starts the text. -/
theorem prefix_of_prefix_masked (apart : fold mask ∉ word.map fold)
    (counts : ∀ s, .hit s ∈ pieces → 0 < count s)
    (begins : word.map fold <+: (pieces.flatMap (Piece.masked count mask)).map fold) :
    word.map fold <+: (pieces.flatMap Piece.text).map fold := by
  induction pieces generalizing word with
  | nil => exact begins
  | cons piece pieces inductionHypothesis =>
      cases word with
      | nil => exact List.nil_prefix
      | cons d word =>
          cases piece with
          | keep c =>
              simp only [List.flatMap_cons, Piece.masked, Piece.text, List.singleton_append,
                List.map_cons, List.cons_prefix_cons] at begins ⊢
              refine ⟨begins.1, inductionHypothesis ?_ ?_ begins.2⟩
              · exact fun there => apart (List.mem_cons_of_mem _ there)
              · exact fun s there => counts s (List.mem_cons_of_mem _ there)
          | hit s =>
              obtain ⟨n, positive⟩ := Nat.exists_eq_succ_of_ne_zero
                (counts s (List.mem_cons_self ..)).ne'
              simp only [List.flatMap_cons, Piece.masked, positive, List.replicate_succ,
                List.cons_append, List.map_cons, List.cons_prefix_cons] at begins
              exact absurd (begins.1 ▸ List.mem_cons_self ..) apart

/-- No word occurs in a text whose hits are masked. -/
theorem Cuts.not_occurs_masked (cuts : Cuts fold words text pieces)
    (apart : ∀ word ∈ words, fold mask ∉ word.map fold)
    (counts : ∀ s, .hit s ∈ pieces → 0 < count s) :
    ¬ Occurs fold words (pieces.flatMap (Piece.masked count mask)) := by
  induction cuts with
  | nil =>
      rintro ⟨word, -, nonempty, within⟩
      exact nonempty (by simpa using within)
  | @keep c text pieces none cuts inductionHypothesis =>
      have later := inductionHypothesis fun s there => counts s (List.mem_cons_of_mem _ there)
      have kept : (Piece.keep c :: pieces).flatMap (Piece.masked count mask) =
          c :: pieces.flatMap (Piece.masked count mask) := rfl
      rw [kept, Occurs.cons_iff, not_or, not_exists]
      refine ⟨?_, later⟩
      rintro word ⟨listed, nonempty, spelled⟩
      have begins : word.map fold <+:
          ((Piece.keep c :: pieces).flatMap Piece.text).map fold :=
        prefix_of_prefix_masked (apart word listed) counts spelled
      rw [List.flatMap_cons, cuts.flatMap_text] at begins
      exact none word ⟨listed, nonempty, begins⟩
  | @hit _ s rest pieces _ _ _ cuts inductionHypothesis =>
      have later := inductionHypothesis fun s there => counts s (List.mem_cons_of_mem _ there)
      have front : (Piece.hit s :: pieces).flatMap (Piece.masked count mask) =
          List.replicate (count s) mask ++ pieces.flatMap (Piece.masked count mask) := rfl
      rw [front]
      clear counts front
      induction count s with
      | zero => exact later
      | succ n outside =>
          rw [List.replicate_succ, List.cons_append, Occurs.cons_iff, not_or, not_exists]
          refine ⟨?_, outside⟩
          rintro word ⟨listed, nonempty, spelled⟩
          cases word with
          | nil => exact nonempty rfl
          | cons d word =>
              rw [List.map_cons, List.map_cons, List.cons_prefix_cons] at spelled
              exact apart _ listed (spelled.1 ▸ List.mem_cons_self ..)

end OnlineChat.Library
