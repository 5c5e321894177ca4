import Mathlib.Logic.Function.Basic
import OnlineChat.Library.Utf8
import OnlineChat.WordFilter

/-!
# Masks

Every node of the trie is reached by one path, and a terminal node by the lower-cased word
that it holds.  From this follows what a segment of a hit is, and that a hit is a listed word.
-/

namespace OnlineChat.WordFilter

open Library Library.Utf8

variable {f : WordFilter} {words : List Bytes} {path : Nat → Bytes}

/-- The filter after `add_word` for each of the words. -/
def ofWords (words : List Bytes) : WordFilter := words.foldl (fun f word => (f.addWord word).2) {}

/-! ## The paths of the trie -/

/-- `path` gives the path to every node. -/
structure Paths (words : List Bytes) (f : WordFilter) (path : Nat → Bytes) : Prop where
  root : path 0 = []
  exists_root : 0 < f.nodes.length
  edge : ∀ i c j, (f.node i).next.find? c = some j →
    path j = path i ++ [c] ∧ j < f.nodes.length
  word : ∀ i, (f.node i).terminal = true →
    path i = asciiLower (f.node i).word ∧ (f.node i).word ∈ words

theorem node_set {nodes : List Node} {words : Nat} {cur i : Nat} {node : Node}
    (inside : cur < nodes.length) :
    (⟨nodes.set cur node, words⟩ : WordFilter).node i =
      if i = cur then node else (⟨nodes, words⟩ : WordFilter).node i := by
  unfold WordFilter.node
  rw [List.getD_eq_getElem?_getD, List.getD_eq_getElem?_getD, List.getElem?_set]
  by_cases same : cur = i
  · subst same
    simp [inside]
  · simp [same, Ne.symm same]

theorem node_concat {nodes : List Node} {words : Nat} {i : Nat} :
    (⟨nodes ++ [({} : Node)], words⟩ : WordFilter).node i = (⟨nodes, words⟩ : WordFilter).node i := by
  unfold WordFilter.node
  rw [List.getD_eq_getElem?_getD, List.getD_eq_getElem?_getD, List.getElem?_append]
  split
  next => rfl
  next outside =>
    rw [List.getElem?_eq_none (Nat.not_lt.mp outside)]
    cases i - nodes.length <;> rfl

/-- Behind the end there are empty nodes only. -/
theorem node_of_not_lt {i : Nat} (outside : ¬ i < f.nodes.length) : f.node i = {} := by
  unfold WordFilter.node
  rw [List.getD_eq_getElem?_getD, List.getElem?_eq_none (Nat.not_lt.mp outside)]
  rfl

theorem lt_of_find {i j : Nat} {c : UInt8} (found : (f.node i).next.find? c = some j) :
    i < f.nodes.length := by
  by_contra outside
  rw [node_of_not_lt outside] at found
  cases found

theorem lt_of_terminal {i : Nat} (terminal : (f.node i).terminal = true) : i < f.nodes.length := by
  by_contra outside
  rw [node_of_not_lt outside] at terminal
  cases terminal

/-- One byte further, along an edge or to a fresh node. -/
theorem Paths.addStep (paths : Paths words f path) {cur : Nat} (inside : cur < f.nodes.length)
    (c : UInt8) :
    ∃ path', Paths words (f.addStep cur c).2 path' ∧
      (f.addStep cur c).1 < (f.addStep cur c).2.nodes.length ∧
      path' (f.addStep cur c).1 = path cur ++ [c] := by
  unfold WordFilter.addStep
  split
  next id found =>
    obtain ⟨leads, there⟩ := paths.edge cur c id found
    exact ⟨path, paths, there, leads⟩
  next absent =>
    have fresh : f.nodes.length ≠ cur := by omega
    have longer : cur < (f.nodes ++ [({} : Node)]).length := by
      rw [List.length_append]
      omega
    have node (i : Nat) : (⟨(f.nodes ++ [({} : Node)]).set cur { f.node cur with
        next := (f.node cur).next.insert c f.nodes.length }, f.words⟩ : WordFilter).node i =
        if i = cur then { f.node cur with next := (f.node cur).next.insert c f.nodes.length }
        else f.node i := by
      rw [node_set longer, node_concat]
    have old {i : Nat} (inside : i < f.nodes.length) :
        Function.update path f.nodes.length (path cur ++ [c]) i = path i :=
      Function.update_of_ne (Nat.ne_of_lt inside) ..
    refine ⟨Function.update path f.nodes.length (path cur ++ [c]), ⟨?_, ?_, ?_, ?_⟩, ?_, ?_⟩
    · rw [old paths.exists_root, paths.root]
    · simp
    · intro i c' j found
      rw [node] at found
      split at found
      next same =>
        subst same
        rw [SortedMap.find?_insert] at found
        split at found
        next same =>
          obtain rfl := Option.some.inj found
          rw [Function.update_self, old inside, same]
          exact ⟨rfl, by simp⟩
        next =>
          obtain ⟨leads, there⟩ := paths.edge i c' j found
          rw [old there, old inside]
          exact ⟨leads, by simpa using Nat.lt_succ_of_lt there⟩
      next =>
        obtain ⟨leads, there⟩ := paths.edge i c' j found
        rw [old there, old (lt_of_find found)]
        exact ⟨leads, by simpa using Nat.lt_succ_of_lt there⟩
    · intro i terminal
      have kept : ((if i = cur then { f.node cur with next := (f.node cur).next.insert c f.nodes.length }
          else f.node i : Node).terminal, (if i = cur then { f.node cur with
            next := (f.node cur).next.insert c f.nodes.length } else f.node i : Node).word) =
          ((f.node i).terminal, (f.node i).word) := by
        split
        next same => rw [same]
        next => rfl
      obtain ⟨sameTerminal, sameWord⟩ := Prod.mk.inj kept
      rw [node, sameTerminal] at terminal
      rw [node, sameWord, old (lt_of_terminal terminal)]
      exact paths.word i terminal
    · simp
    · rw [Function.update_self]

theorem Paths.addPath {rest : Bytes} (paths : Paths words f path) {cur : Nat}
    (inside : cur < f.nodes.length) :
    ∃ path', Paths words (f.addPath cur rest).2 path' ∧
      (f.addPath cur rest).1 < (f.addPath cur rest).2.nodes.length ∧
      path' (f.addPath cur rest).1 = path cur ++ rest := by
  induction rest generalizing f path cur with
  | nil => exact ⟨path, paths, inside, (List.append_nil _).symm⟩
  | cons c rest inductionHypothesis =>
      obtain ⟨path', paths', inside', leads⟩ := paths.addStep inside c
      obtain ⟨path'', paths'', inside'', leads'⟩ := inductionHypothesis paths' inside'
      refine ⟨path'', paths'', inside'', ?_⟩
      refine leads'.trans ?_
      rw [leads, List.append_assoc]
      rfl

theorem Paths.mono {words' : List Bytes} (paths : Paths words f path)
    (more : ∀ word ∈ words, word ∈ words') : Paths words' f path where
  root := paths.root
  exists_root := paths.exists_root
  edge := paths.edge
  word i terminal := (paths.word i terminal).imp_right (more _)

theorem Paths.addWord (paths : Paths words f path) (word : Bytes) :
    ∃ path', Paths (words ++ [word]) (f.addWord word).2 path' := by
  have more : ∀ x ∈ words, x ∈ words ++ [word] := fun x there => List.mem_append_left _ there
  unfold WordFilter.addWord
  split
  next => exact ⟨path, paths.mono more⟩
  next =>
    obtain ⟨path', paths', inside, leads⟩ := @Paths.addPath _ _ _ (asciiLower word) paths _
      paths.exists_root
    rw [paths.root, List.nil_append] at leads
    dsimp only
    split
    next => exact ⟨path', paths'.mono more⟩
    next =>
      refine ⟨path', paths'.root, ?_, ?_, ?_⟩
      · rw [List.length_set]
        exact paths'.exists_root
      · intro i c j found
        rw [node_set inside] at found
        rw [List.length_set]
        split at found
        next same => exact same ▸ paths'.edge _ c j found
        next => exact paths'.edge i c j found
      · intro i terminal
        rw [node_set inside] at terminal ⊢
        split at terminal
        next same =>
          rw [if_pos same]
          exact ⟨same ▸ leads, by simp⟩
        next other =>
          rw [if_neg other]
          exact (paths'.word i terminal).imp_right (more _)

theorem exists_paths (words : List Bytes) : ∃ path, Paths words (ofWords words) path := by
  have grows (f : WordFilter) (before : List Bytes) (path : Nat → Bytes)
      (paths : Paths before f path) :
      ∃ path', Paths (before ++ words) (words.foldl (fun f word => (f.addWord word).2) f) path' := by
    induction words generalizing f before path with
    | nil => exact ⟨path, by rwa [List.append_nil]⟩
    | cons word words inductionHypothesis =>
        obtain ⟨path', paths'⟩ := paths.addWord word
        have rest := inductionHypothesis (f.addWord word).2 (before ++ [word]) path' paths'
        rwa [List.append_assoc] at rest
  apply grows {} [] fun _ => []
  have empty (i : Nat) : ({} : WordFilter).node i = {} := by cases i <;> rfl
  refine ⟨rfl, by decide, ?_, ?_⟩
  · intro i c j found
    rw [empty] at found
    cases found
  · intro i terminal
    rw [empty] at terminal
    cases terminal

/-! ## The segments of the hits -/

/-- Where the walk from a node finds a word, it is spelled by the path and the text. -/
theorem Paths.longest (paths : Paths words f path) {cur len len' : Nat} {best : Option (Nat × Bytes)}
    {text word : Bytes} (found : f.longest cur len best text = some (len', word)) :
    best = some (len', word) ∨ ∃ k, 0 < k ∧ k ≤ text.length ∧ len' = len + k ∧
      path cur ++ text.take k = asciiLower word ∧ word ∈ words := by
  induction text generalizing cur len best with
  | nil => exact .inl found
  | cons c text inductionHypothesis =>
      unfold WordFilter.longest at found
      split at found
      next => exact .inl found
      next next' edge =>
        obtain ⟨leads, -⟩ := paths.edge cur c next' edge
        rcases inductionHypothesis found with here | ⟨k, positive, inside, size, spelled, listed⟩
        · split at here
          next terminal =>
            obtain ⟨rfl, rfl⟩ := Prod.mk.inj (Option.some.inj here)
            obtain ⟨spelled, listed⟩ := paths.word next' terminal
            refine .inr ⟨1, by decide, by simp, rfl, ?_, listed⟩
            rw [← spelled, leads]
            rfl
          next => exact .inl here
        · refine .inr ⟨k + 1, by omega, by simpa using inside, by omega, ?_, listed⟩
          rw [← spelled, leads, List.append_assoc]
          rfl

/-- The hits from a position on: they do not overlap, and each one spells its word. -/
def Segments (words : List Bytes) (lowered : Bytes) : Nat → List Match → Prop
  | _, [] => True
  | pos, m :: ms =>
      pos ≤ m.start ∧ m.start < m.stop ∧ m.stop ≤ lowered.length ∧
        (lowered.drop m.start).take (m.stop - m.start) = asciiLower m.word ∧ m.word ∈ words ∧
        Segments words lowered m.stop ms

theorem Segments.later {lowered : Bytes} {pos pos' : Nat} {ms : List Match}
    (segments : Segments words lowered pos' ms) (later : pos ≤ pos') :
    Segments words lowered pos ms := by
  cases ms with
  | nil => trivial
  | cons m ms => exact ⟨later.trans segments.1, segments.2⟩

theorem Paths.scanFrom (paths : Paths words f path) (lowered : Bytes) (fuel i : Nat) :
    Segments words lowered i (f.scanFrom fuel i (lowered.drop i)) := by
  induction fuel generalizing i with
  | zero => trivial
  | succ fuel inductionHypothesis =>
      cases rest : lowered.drop i with
      | nil => trivial
      | cons c text =>
          have inside : i + (text.length + 1) = lowered.length := by
            have lengths := congrArg List.length rest
            simp only [List.length_drop, List.length_cons] at lengths
            omega
          unfold WordFilter.scanFrom
          split
          next len word found =>
            obtain ⟨k, positive, short, size, spelled, listed⟩ :=
              (paths.longest found).resolve_left nofun
            obtain rfl : len = k := by omega
            rw [paths.root, List.nil_append, ← rest] at spelled
            rw [List.length_cons] at short
            refine ⟨Nat.le_refl i, by dsimp only; omega, by dsimp only; omega, ?_, listed, ?_⟩
            · rw [Nat.add_sub_cancel_left]
              exact spelled
            · rw [← rest, List.drop_drop]
              exact inductionHypothesis (i + len)
          next =>
            have next : lowered.drop (i + 1) = text := by
              rw [← List.drop_drop, rest]
              rfl
            rw [← next]
            exact (inductionHypothesis (i + 1)).later (Nat.le_succ i)

theorem segments_scan (words : List Bytes) (lowered : Bytes) :
    Segments words lowered 0 ((ofWords words).scan lowered) := by
  obtain ⟨path, paths⟩ := exists_paths words
  exact paths.scanFrom lowered lowered.length 0

/-! ## UTF-8 -/

/-- The lower case of one byte. -/
def lowerByte (b : UInt8) : UInt8 := if 65 ≤ b ∧ b ≤ 90 then b - 65 + 97 else b

theorem asciiLower_eq (s : Bytes) : asciiLower s = s.map lowerByte := rfl

theorem toNat_lowerByte (b : UInt8) :
    (lowerByte b).toNat = if 65 ≤ b.toNat ∧ b.toNat ≤ 90 then b.toNat + 32 else b.toNat := by
  have range : (65 ≤ b ∧ b ≤ 90) ↔ 65 ≤ b.toNat ∧ b.toNat ≤ 90 := by
    rw [UInt8.le_iff_toNat_le, UInt8.le_iff_toNat_le]
    rfl
  unfold lowerByte
  by_cases upper : 65 ≤ b ∧ b ≤ 90
  · rw [if_pos upper, if_pos (range.mp upper), UInt8.toNat_add, UInt8.toNat_sub_of_le _ _ upper.1]
    have bounds := range.mp upper
    have first : (65 : UInt8).toNat = 65 := rfl
    have lower : (97 : UInt8).toNat = 97 := rfl
    omega
  · rw [if_neg upper, if_neg (mt range.mpr upper)]

theorem lowerByte_lt_iff (b : UInt8) : lowerByte b < 128 ↔ b < 128 := by
  rw [UInt8.lt_iff_toNat_lt, UInt8.lt_iff_toNat_lt, toNat_lowerByte]
  have bound : (128 : UInt8).toNat = 128 := rfl
  split <;> omega

theorem lowerByte_of_high (b : UInt8) (high : 128 ≤ b) : lowerByte b = b := by
  apply if_neg
  rintro ⟨-, low⟩
  exact absurd (UInt8.le_trans high low) (by decide)

theorem wellFormed_asciiLower_iff {s : Bytes} : WellFormed (asciiLower s) ↔ WellFormed s := by
  constructor
  · intro wellFormed
    exact wellFormed_of_map wellFormed lowerByte_lt_iff lowerByte_of_high
  · intro wellFormed
    rw [asciiLower_eq, List.map_eq_flatMap]
    apply wellFormed.flatMap
    · intro b small x there
      rw [List.mem_singleton.mp there]
      exact (lowerByte_lt_iff b).mpr small
    · intro b high
      rw [lowerByte_of_high b high]

theorem wellFormed_contains {text hit : Bytes} (utf8 : ∀ word ∈ words, WellFormed word)
    (found : (ofWords words).contains text = some hit) : WellFormed hit := by
  have segments := segments_scan words (asciiLower text)
  unfold WordFilter.contains at found
  cases hits : (ofWords words).scan (asciiLower text) with
  | nil => simp [hits] at found
  | cons m ms =>
      rw [hits] at found segments
      obtain rfl := Option.some.inj found
      exact utf8 m.word segments.2.2.2.2.1

end OnlineChat.WordFilter
