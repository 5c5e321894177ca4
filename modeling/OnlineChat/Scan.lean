import OnlineChat.Library.Matching
import OnlineChat.Masking

/-!
# What the scan finds

The walk along a listed word ends in a terminal node, so that the scan cuts the text where
the longest listed words are.
-/

namespace OnlineChat.WordFilter

open Library

variable {f f' f'' : WordFilter} {words : List Bytes} {path : Nat → Bytes} {cur : Nat} {c : UInt8}
  {text word : Bytes}

/-! ## Walks -/

/-- Follow the edges of these bytes. -/
def walk (f : WordFilter) (cur : Nat) : Bytes → Option Nat
  | [] => some cur
  | c :: text =>
      match (f.node cur).next.find? c with
      | none => none
      | some id => f.walk id text

/-- Nothing of the trie is taken away. -/
structure Extends (f f' : WordFilter) : Prop where
  edge : ∀ i c j, (f.node i).next.find? c = some j → (f'.node i).next.find? c = some j
  terminal : ∀ i, (f.node i).terminal = true → (f'.node i).terminal = true

theorem Extends.refl (f : WordFilter) : Extends f f := ⟨fun _ _ _ => id, fun _ => id⟩

theorem Extends.trans (first : Extends f f') (second : Extends f' f'') : Extends f f'' where
  edge i c j found := second.edge i c j (first.edge i c j found)
  terminal i terminal := second.terminal i (first.terminal i terminal)

/-- A walk goes along an edge. -/
theorem walk_cons_iff {c : UInt8} {i : Nat} : f.walk cur (c :: text) = some i ↔
    ∃ id, (f.node cur).next.find? c = some id ∧ f.walk id text = some i := by
  rw [WordFilter.walk]
  cases (f.node cur).next.find? c <;> simp

theorem Extends.walk (more : Extends f f') {i : Nat} (walks : f.walk cur text = some i) :
    f'.walk cur text = some i := by
  induction text generalizing cur with
  | nil => exact walks
  | cons c text inductionHypothesis =>
      obtain ⟨id, edge, behind⟩ := walk_cons_iff.mp walks
      exact walk_cons_iff.mpr ⟨id, more.edge cur c id edge, inductionHypothesis behind⟩

theorem extends_addStep (inside : cur < f.nodes.length) (c : UInt8) :
    Extends f (f.addStep cur c).2 ∧
      ((f.addStep cur c).2.node cur).next.find? c = some (f.addStep cur c).1 := by
  unfold WordFilter.addStep
  split
  next id found => exact ⟨.refl f, found⟩
  next missing =>
    have inside' : cur < (f.nodes ++ [({} : Node)]).length := by
      rw [List.length_append]
      omega
    dsimp only
    refine ⟨⟨?_, ?_⟩, ?_⟩
    · intro i c' j found
      rw [node_set inside']
      split
      next same =>
        subst same
        have apart : c' ≠ c := by
          rintro rfl
          cases missing.symm.trans found
        dsimp only
        rw [SortedMap.find?_insert, if_neg apart]
        exact found
      next =>
        rw [node_concat]
        exact found
    · intro i terminal
      rw [node_set inside']
      split
      next same => exact same ▸ terminal
      next =>
        rw [node_concat]
        exact terminal
    · rw [node_set inside', if_pos rfl]
      exact SortedMap.find?_insert_self _ _ _

theorem extends_addPath (paths : Paths words f path) (inside : cur < f.nodes.length) :
    Extends f (f.addPath cur text).2 ∧
      (f.addPath cur text).2.walk cur text = some (f.addPath cur text).1 := by
  induction text generalizing f path cur with
  | nil => exact ⟨.refl f, rfl⟩
  | cons c text inductionHypothesis =>
      obtain ⟨path', paths', inside', -⟩ := paths.addStep inside c
      obtain ⟨more, edge⟩ := extends_addStep inside c
      obtain ⟨rest, walks⟩ := inductionHypothesis paths' inside'
      refine ⟨more.trans rest, ?_⟩
      exact walk_cons_iff.mpr ⟨_, rest.edge cur c _ edge, walks⟩

/-- The word has a terminal node. -/
def Has (f : WordFilter) (word : Bytes) : Prop :=
  ∃ i, f.walk 0 (asciiLower word) = some i ∧ (f.node i).terminal = true

theorem Extends.has (more : Extends f f') (has : f.Has word) : f'.Has word := by
  obtain ⟨i, walks, terminal⟩ := has
  exact ⟨i, more.walk walks, more.terminal i terminal⟩

theorem has_addWord (paths : Paths words f path) (nonempty : word ≠ []) :
    Extends f (f.addWord word).2 ∧ (f.addWord word).2.Has word := by
  obtain ⟨path', paths', inside, -⟩ := @Paths.addPath _ _ _ (asciiLower word) paths _
    paths.exists_root
  obtain ⟨more, walks⟩ :=
    @extends_addPath _ _ _ _ (asciiLower word) paths paths.exists_root
  unfold WordFilter.addWord
  rw [if_neg nonempty]
  dsimp only
  split
  next terminal => exact ⟨more, _, walks, terminal⟩
  next =>
    have marked : Extends (f.addPath 0 (asciiLower word)).2
        ⟨(f.addPath 0 (asciiLower word)).2.nodes.set (f.addPath 0 (asciiLower word)).1
          { (f.addPath 0 (asciiLower word)).2.node (f.addPath 0 (asciiLower word)).1 with
            terminal := true, word },
          (f.addPath 0 (asciiLower word)).2.words + 1⟩ := by
      refine ⟨?_, ?_⟩
      · intro i c j found
        rw [node_set inside]
        split
        next same => exact same ▸ found
        next => exact found
      · intro i terminal
        rw [node_set inside]
        split
        next => rfl
        next => exact terminal
    refine ⟨more.trans marked, _, marked.walk walks, ?_⟩
    rw [node_set inside, if_pos rfl]

theorem ofWords_concat (words : List Bytes) (word : Bytes) :
    ofWords (words ++ [word]) = ((ofWords words).addWord word).2 := by
  simp [ofWords]

/-- Every word that was added can be walked. -/
theorem has_ofWords (listed : word ∈ words) (nonempty : word ≠ []) : (ofWords words).Has word := by
  induction words using List.reverseRecOn with
  | nil => cases listed
  | append_singleton words last inductionHypothesis =>
      obtain ⟨path, paths⟩ := exists_paths words
      rw [ofWords_concat]
      rcases List.mem_append.mp listed with old | new
      · by_cases empty : last = []
        · rw [WordFilter.addWord, if_pos empty]
          exact inductionHypothesis old
        · exact (has_addWord paths empty).1.has (inductionHypothesis old)
      · obtain rfl := List.mem_singleton.mp new
        exact (has_addWord paths nonempty).2

/-! ## The longest match at one position -/

/-- What was found so far is given up only for something longer. -/
theorem longest_of_best {len n : Nat} {best : Option (Nat × Bytes)} (short : n ≤ len)
    (have' : ∃ word, best = some (n, word)) :
    ∃ n' word, f.longest cur len best text = some (n', word) ∧ n ≤ n' := by
  induction text generalizing cur len best n with
  | nil =>
      obtain ⟨word, rfl⟩ := have'
      exact ⟨n, word, rfl, le_rfl⟩
  | cons c text inductionHypothesis =>
      unfold WordFilter.longest
      split
      next =>
        obtain ⟨word, rfl⟩ := have'
        exact ⟨n, word, rfl, le_rfl⟩
      next next' _ =>
        dsimp only
        split
        next =>
          obtain ⟨n', word, found, grows⟩ :=
            @inductionHypothesis next' (len + 1) (len + 1) _ le_rfl ⟨_, rfl⟩
          exact ⟨n', word, found, by omega⟩
        next => exact inductionHypothesis (by omega) have'

/-- A word that can be walked along the text is found, or a longer one. -/
theorem longest_of_walk {len i : Nat} {best : Option (Nat × Bytes)} {w : Bytes}
    (walks : f.walk cur w = some i) (terminal : (f.node i).terminal = true) (nonempty : w ≠ [])
    (begins : w <+: text) :
    ∃ n word, f.longest cur len best text = some (n, word) ∧ len + w.length ≤ n := by
  induction text generalizing cur len best w with
  | nil => exact absurd (List.prefix_nil.mp begins) nonempty
  | cons c text inductionHypothesis =>
      cases w with
      | nil => exact absurd rfl nonempty
      | cons d w =>
          obtain ⟨rfl, behind⟩ := List.cons_prefix_cons.mp begins
          obtain ⟨id, edge, walks⟩ := walk_cons_iff.mp walks
          simp only [WordFilter.longest, edge]
          cases w with
          | nil =>
              obtain rfl := Option.some.inj walks
              rw [if_pos terminal]
              exact longest_of_best le_rfl ⟨_, rfl⟩
          | cons d' w =>
              obtain ⟨n, word, found, long⟩ :=
                @inductionHypothesis id (len + 1) _ _ walks (List.cons_ne_nil d' w) behind
              refine ⟨n, word, found, ?_⟩
              simp only [List.length_cons] at long ⊢
              omega

/-- A listed word begins the text, up to the case of ASCII letters. -/
abbrev Here (words : List Bytes) : Bytes → Bytes → Prop := Begins lowerByte words

theorem longest_of_begins (begins : Here words word text) :
    ∃ n found, (ofWords words).longest 0 0 none (asciiLower text) = some (n, found) ∧
      word.length ≤ n := by
  obtain ⟨i, walks, terminal⟩ := has_ofWords begins.listed begins.nonempty
  have nonempty : asciiLower word ≠ [] := by
    intro empty
    exact begins.nonempty (List.map_eq_nil_iff.mp empty)
  obtain ⟨n, found, result, long⟩ :=
    @longest_of_walk _ _ _ 0 i none _ walks terminal nonempty begins.spelled
  refine ⟨n, found, result, ?_⟩
  rw [asciiLower_eq, List.length_map] at long
  omega

/-- What is found at a position begins the text there, and no listed word that does is longer. -/
theorem begins_of_longest {n : Nat}
    (found : (ofWords words).longest 0 0 none (asciiLower text) = some (n, word)) :
    0 < n ∧ n ≤ text.length ∧ word.length = n ∧ Here words word text ∧
      ∀ word', Here words word' text → word'.length ≤ n := by
  obtain ⟨path, paths⟩ := exists_paths words
  obtain ⟨k, positive, inside, size, spelled, listed⟩ := (paths.longest found).resolve_left nofun
  rw [Nat.zero_add] at size
  subst size
  rw [paths.root, List.nil_append] at spelled
  rw [asciiLower_eq, List.length_map] at inside
  have length : word.length = n := by
    have sizes := congrArg List.length spelled
    simp only [asciiLower_eq, List.length_take, List.length_map] at sizes
    omega
  refine ⟨positive, inside, length, ⟨listed, ?_, ?_⟩, ?_⟩
  · rintro rfl
    exact absurd length positive.ne
  · rw [← asciiLower_eq, ← spelled]
    exact List.take_prefix n _
  · intro word' begins
    obtain ⟨n', found', result, long⟩ := longest_of_begins begins
    obtain ⟨rfl, -⟩ := Prod.mk.inj (Option.some.inj (result.symm.trans found))
    exact long

/-! ## The scan -/

/-- Where a hit starts and ends. -/
def Match.span (m : Match) : Nat × Nat := (m.start, m.stop)

theorem cuts_scanFrom (words : List Bytes) (text : Bytes) (fuel i : Nat)
    (enough : text.length ≤ fuel) :
    ∃ pieces, Cuts lowerByte words text pieces ∧
      ((ofWords words).scanFrom fuel i (asciiLower text)).map Match.span = Piece.spans i pieces := by
  induction fuel generalizing text i with
  | zero =>
      obtain rfl := List.length_eq_zero_iff.mp (Nat.le_zero.mp enough)
      exact ⟨[], .nil, rfl⟩
  | succ fuel inductionHypothesis =>
      cases text with
      | nil => exact ⟨[], .nil, rfl⟩
      | cons c text =>
          have lowered : asciiLower (c :: text) = lowerByte c :: asciiLower text := rfl
          rw [lowered, WordFilter.scanFrom, ← lowered]
          split
          next n word found =>
            obtain ⟨positive, inside, size, begins, longest⟩ := begins_of_longest found
            have cut := List.take_append_drop n (c :: text)
            have front : ((c :: text).take n).length = n := by
              rw [List.length_take]
              omega
            obtain ⟨pieces, cuts, spans⟩ := inductionHypothesis ((c :: text).drop n) (i + n) (by
              rw [List.length_drop]
              omega)
            refine ⟨.hit ((c :: text).take n) :: pieces, ?_, ?_⟩
            · have whole : Cuts lowerByte words ((c :: text).take n ++ (c :: text).drop n)
                  (.hit ((c :: text).take n) :: pieces) := by
                refine .hit (cut.symm ▸ begins) ?_ ?_ cuts
                · rw [size, front]
                · rw [cut, front]
                  exact longest
              rwa [cut] at whole
            · have rest : (asciiLower (c :: text)).drop n = asciiLower ((c :: text).drop n) :=
                List.map_drop.symm
              rw [rest, List.map_cons, spans, Piece.spans, front]
              rfl
          next missing =>
            obtain ⟨pieces, cuts, spans⟩ := inductionHypothesis text (i + 1) (by simpa using enough)
            refine ⟨.keep c :: pieces, .keep ?_ cuts, spans⟩
            intro word begins
            obtain ⟨n, found, result, -⟩ := longest_of_begins begins
            cases missing.symm.trans result

theorem cuts_scan (words : List Bytes) (text : Bytes) :
    ∃ pieces, Cuts lowerByte words text pieces ∧
      ((ofWords words).scan (asciiLower text)).map Match.span = Piece.spans 0 pieces := by
  apply cuts_scanFrom
  rw [asciiLower_eq, List.length_map]

/-- The number of masks for a segment. -/
def maskCount (segment : Bytes) : Nat := if utf8Chars segment = 0 then 1 else utf8Chars segment

theorem maskCount_pos (segment : Bytes) : 0 < maskCount segment := by
  unfold maskCount
  split <;> omega

/-- The hits are masked, and everything between them is copied. -/
theorem maskFrom_eq {mask : UInt8} {ms : List Match} {pieces : List (Piece UInt8)}
    {before kept : Bytes} (whole : text = before ++ (kept ++ pieces.flatMap Piece.text))
    (spans : ms.map Match.span = Piece.spans (before.length + kept.length) pieces) :
    maskFrom text mask before.length ms =
      kept ++ pieces.flatMap (Piece.masked maskCount mask) := by
  induction pieces generalizing ms before kept with
  | nil =>
      obtain rfl := List.map_eq_nil_iff.mp spans
      simp [maskFrom, whole]
  | cons piece pieces inductionHypothesis =>
      cases piece with
      | keep c =>
          have longer := @inductionHypothesis ms before (kept ++ [c])
            (by simp [whole, Piece.text]) (by
              rw [spans, Piece.spans, List.length_append, List.length_singleton, Nat.add_assoc])
          simpa [Piece.masked] using longer
      | hit s =>
          obtain ⟨m, rest, rfl, span, spans⟩ := List.map_eq_cons_iff.mp spans
          obtain ⟨starts, stops⟩ := Prod.mk.inj span
          have split : text = (before ++ kept ++ s) ++ ([] ++ pieces.flatMap Piece.text) := by
            simp [whole, Piece.text]
          have later := @inductionHypothesis rest _ _ split (by
            rw [spans, List.length_append, List.length_append, List.length_nil, Nat.add_zero])
          have stop : (before ++ kept ++ s).length = m.stop := by
            rw [stops, List.length_append, List.length_append]
          rw [stop, List.nil_append] at later
          have copied : (text.drop before.length).take (m.start - before.length) = kept := by
            rw [starts, whole, List.drop_left, Nat.add_sub_cancel_left, List.take_left]
          have segment : (text.drop m.start).take (m.stop - m.start) = s := by
            rw [starts, stops, split, List.nil_append, List.append_assoc,
              ← List.length_append, List.drop_left, List.length_append, Nat.add_sub_cancel_left,
              List.take_left]
          unfold maskFrom
          dsimp only
          rw [copied, segment, later, List.append_assoc]
          rfl

theorem filter_eq {mask : UInt8} {pieces : List (Piece UInt8)}
    (cuts : Cuts lowerByte words text pieces) :
    (ofWords words).filter text mask = pieces.flatMap (Piece.masked maskCount mask) := by
  obtain ⟨pieces', cuts', spans⟩ := cuts_scan words text
  obtain rfl := cuts.unique cuts'
  exact @maskFrom_eq _ _ _ _ [] [] cuts.flatMap_text.symm spans

/-- The filter finds something exactly when a listed word occurs in the text. -/
theorem contains_ne_none_iff :
    (ofWords words).contains text ≠ none ↔ Occurs lowerByte words text := by
  obtain ⟨pieces, cuts, spans⟩ := cuts_scan words text
  have silent : (ofWords words).contains text = none ↔ Piece.spans 0 pieces = [] := by
    rw [← spans]
    simp [WordFilter.contains]
  rw [← cuts.exists_hit_iff, ne_eq, silent, Piece.spans_eq_nil_iff, not_forall]
  simp

/-! ## Filters without words -/

/-- A new node is not the end of a word. -/
theorem terminal_addStep {i : Nat} (inside : cur < f.nodes.length)
    (terminal : ((f.addStep cur c).2.node i).terminal = true) : (f.node i).terminal = true := by
  unfold WordFilter.addStep at terminal
  split at terminal
  next => exact terminal
  next =>
    have inside' : cur < (f.nodes ++ [({} : Node)]).length := by
      rw [List.length_append]
      omega
    dsimp only at terminal
    rw [node_set inside'] at terminal
    split at terminal
    next same => exact same ▸ terminal
    next =>
      rw [node_concat] at terminal
      exact terminal

theorem words_addStep : (f.addStep cur c).2.words = f.words := by
  unfold WordFilter.addStep
  split <;> rfl

theorem addPath_frame (paths : Paths words f path) (inside : cur < f.nodes.length) :
    (f.addPath cur text).2.words = f.words ∧
      ∀ i, ((f.addPath cur text).2.node i).terminal = true → (f.node i).terminal = true := by
  induction text generalizing f path cur with
  | nil => exact ⟨rfl, fun _ => id⟩
  | cons c text inductionHypothesis =>
      obtain ⟨path', paths', inside', -⟩ := paths.addStep inside c
      obtain ⟨same, older⟩ := inductionHypothesis paths' inside'
      exact ⟨same.trans words_addStep, fun i terminal => terminal_addStep inside (older i terminal)⟩

/-- Where a word ends, words are counted. -/
theorem words_ne_zero (words : List Bytes) {i : Nat}
    (terminal : ((ofWords words).node i).terminal = true) : (ofWords words).words ≠ 0 := by
  induction words using List.reverseRecOn generalizing i with
  | nil => cases i <;> cases terminal
  | append_singleton words last inductionHypothesis =>
      obtain ⟨path, paths⟩ := exists_paths words
      obtain ⟨same, older⟩ :=
        @addPath_frame _ _ _ _ (asciiLower last) paths paths.exists_root
      rw [ofWords_concat] at terminal ⊢
      unfold WordFilter.addWord at terminal ⊢
      split
      next empty =>
        rw [if_pos empty] at terminal
        exact inductionHypothesis terminal
      next nonempty =>
        rw [if_neg nonempty] at terminal
        dsimp only at terminal ⊢
        split
        next ends => exact same ▸ inductionHypothesis (older _ ends)
        next => exact Nat.succ_ne_zero _

theorem contains_of_isEmpty (empty : (ofWords words).isEmpty = true) (text : Bytes) :
    (ofWords words).contains text = none := by
  rw [← not_ne_iff, contains_ne_none_iff]
  rintro ⟨word, listed, nonempty, -⟩
  obtain ⟨i, -, terminal⟩ := has_ofWords listed nonempty
  exact words_ne_zero words terminal (of_decide_eq_true empty)

/-! ## Masked texts -/

theorem lowerByte_eq_star {c : UInt8} (star : lowerByte c = 42) : c = 42 := by
  have number := congrArg UInt8.toNat star
  rw [toNat_lowerByte] at number
  rw [← UInt8.toNat_inj]
  split at number
  · simp only [UInt8.reduceToNat] at number
    omega
  · exact number

/-- In a masked text no listed word occurs, as long as none contains the mask. -/
theorem contains_filter (plain : ∀ word ∈ words, 42 ∉ word) (text : Bytes) :
    (ofWords words).contains ((ofWords words).filter text 42) = none := by
  obtain ⟨pieces, cuts, -⟩ := cuts_scan words text
  rw [filter_eq cuts, ← not_ne_iff, contains_ne_none_iff]
  refine cuts.not_occurs_masked ?_ fun s _ => maskCount_pos s
  intro word listed there
  obtain ⟨c, inside, lowered⟩ := List.mem_map.mp there
  exact plain word listed (lowerByte_eq_star lowered ▸ inside)

/-- A text without listed words is left as it is. -/
theorem filter_of_contains {mask : UInt8} (clean : (ofWords words).contains text = none) :
    (ofWords words).filter text mask = text := by
  rw [← not_ne_iff, contains_ne_none_iff] at clean
  rw [filter_eq (Cuts.of_not_occurs clean), List.flatMap_map]
  exact List.flatMap_singleton' text

/-- What stands before some position of a text has no words that the text has not. -/
theorem contains_prefix {front : Bytes} (front_le : front <+: text)
    (clean : (ofWords words).contains text = none) : (ofWords words).contains front = none := by
  rw [← not_ne_iff, contains_ne_none_iff] at clean ⊢
  rintro ⟨word, listed, nonempty, within⟩
  exact clean ⟨word, listed, nonempty, within.trans (front_le.map lowerByte).isInfix⟩

/-- The scan cuts the text at the longest listed words from left to right, the filter finds
something exactly when a listed word occurs, and it changes nothing but the hits. -/
theorem scan_leftmost_longest (words : List Bytes) (text : Bytes) :
    ∃ pieces, Cuts lowerByte words text pieces ∧
      (∀ pieces', Cuts lowerByte words text pieces' → pieces' = pieces) ∧
      ((ofWords words).scan (asciiLower text)).map Match.span = Piece.spans 0 pieces ∧
      ((ofWords words).contains text ≠ none ↔ Occurs lowerByte words text) ∧
      ∀ mask, (ofWords words).filter text mask =
        pieces.flatMap (Piece.masked maskCount mask) := by
  obtain ⟨pieces, cuts, spans⟩ := cuts_scan words text
  exact ⟨pieces, cuts, fun _ cuts' => cuts'.unique cuts, spans, contains_ne_none_iff,
    fun _ => filter_eq cuts⟩

/-- Three words that overlap, and letters of both cases. -/
example : ((ofWords [bytes "ab", bytes "abcd", bytes "bcx"]).scan (asciiLower (bytes "xABcdabcX"))).map
    Match.span = [(1, 5), (5, 7)] := by
  decide +kernel

end OnlineChat.WordFilter
