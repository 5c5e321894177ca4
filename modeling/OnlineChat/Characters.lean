import OnlineChat.Scan

/-!
# Masks for characters

Over words in UTF-8 the scan of a text in UTF-8 hits whole characters, and the masked text
has a mask for each of them.
-/

namespace OnlineChat

open Library Library.Utf8
open String (utf8EncodeChar)

/-! ## The bytes of a character -/

/-- The bytes that continue a character. -/
theorem continues_iff (b : UInt8) : b &&& 0xC0 = 0x80 ↔ 128 ≤ b.toNat ∧ b.toNat < 192 := by
  have all : ∀ n : Fin 256, (UInt8.ofNat n &&& 0xC0 = 0x80 ↔ 128 ≤ n.val ∧ n.val < 192) := by
    decide +kernel
  have one := all ⟨b.toNat, b.toNat_lt⟩
  rwa [UInt8.ofNat_toNat] at one

namespace WordFilter

variable {words : List Bytes} {text tail : Bytes} {mask : UInt8} {pieces : List (Piece UInt8)}
  {cs ds : List Char}

theorem utf8Chars_append (s t : Bytes) : utf8Chars (s ++ t) = utf8Chars s + utf8Chars t :=
  List.countP_append

theorem utf8Chars_encodeChar (c : Char) : utf8Chars (utf8EncodeChar c) = 1 := by
  have starts {n : Nat} (fits : n < 256) (outside : n < 128 ∨ 192 ≤ n) (t : Bytes) :
      utf8Chars (UInt8.ofNat n :: t) = utf8Chars t + 1 := by
    have first : ¬ UInt8.ofNat n &&& 0xC0 = 0x80 := by
      rw [continues_iff, UInt8.toNat_ofNat', Nat.mod_eq_of_lt fits]
      omega
    exact List.countP_cons_of_pos (decide_eq_true first)
  have continues (n : Nat) (t : Bytes) :
      utf8Chars (UInt8.ofNat (n % 64 + 128) :: t) = utf8Chars t := by
    have behind : UInt8.ofNat (n % 64 + 128) &&& 0xC0 = 0x80 := by
      rw [continues_iff, UInt8.toNat_ofNat', Nat.mod_eq_of_lt (by omega)]
      omega
    exact List.countP_cons_of_neg fun differs => of_decide_eq_true differs behind
  unfold utf8EncodeChar
  dsimp only
  split
  next small => rw [starts (by omega) (by omega)]; rfl
  next =>
    split
    · rw [starts (by omega) (by omega), continues]; rfl
    · split
      · rw [starts (by omega) (by omega), continues, continues]; rfl
      · rw [starts (by omega) (by omega), continues, continues, continues]; rfl

/-- The count of a text in UTF-8 is the number of its characters. -/
theorem utf8Chars_encode (cs : List Char) : utf8Chars (cs.flatMap utf8EncodeChar) = cs.length := by
  induction cs with
  | nil => rfl
  | cons c cs inductionHypothesis =>
      rw [List.flatMap_cons, utf8Chars_append, utf8Chars_encodeChar, inductionHypothesis,
        List.length_cons, Nat.add_comm]

/-! ## Cuts between characters -/

/-- What a piece of characters is in bytes. -/
def encoded : Piece Char → List (Piece UInt8)
  | .keep c => (utf8EncodeChar c).map .keep
  | .hit ds => [.hit (ds.flatMap utf8EncodeChar)]

theorem append_of_encode {rest : Bytes}
    (same : ds.flatMap utf8EncodeChar ++ rest = cs.flatMap utf8EncodeChar) :
    ∃ cs', cs = ds ++ cs' ∧ rest = cs'.flatMap utf8EncodeChar := by
  induction ds generalizing cs with
  | nil => exact ⟨cs, rfl, same⟩
  | cons d ds inductionHypothesis =>
      cases cs with
      | nil =>
          have empty := (List.append_eq_nil_iff.mp (List.append_eq_nil_iff.mp same).1).1
          exact absurd empty String.utf8EncodeChar_ne_nil
      | cons c cs =>
          rw [List.flatMap_cons, List.flatMap_cons, List.append_assoc] at same
          obtain ⟨rfl, later⟩ := encode_append_inj same
          obtain ⟨cs', rfl, behind⟩ := inductionHypothesis later
          exact ⟨cs', rfl, behind⟩

/-- A text that is cut at words in UTF-8 is cut between its characters.  `tail` is what is
left of a character whose first bytes are kept. -/
theorem exists_encoded (utf8 : ∀ word ∈ words, WellFormed word)
    (cuts : Cuts lowerByte words text pieces) (continues : ∀ x ∈ tail, ¬ x.IsUTF8FirstByte)
    (encodes : text = tail ++ cs.flatMap utf8EncodeChar) :
    ∃ chars : List (Piece Char), pieces = tail.map .keep ++ chars.flatMap encoded ∧
      cs = chars.flatMap Piece.text := by
  induction cuts generalizing tail cs with
  | nil =>
      obtain ⟨rfl, empty⟩ := List.append_eq_nil_iff.mp encodes.symm
      cases cs with
      | nil => exact ⟨[], rfl, rfl⟩
      | cons c cs => exact absurd (List.append_eq_nil_iff.mp empty).1 String.utf8EncodeChar_ne_nil
  | @keep b text pieces _ _ inductionHypothesis =>
      cases tail with
      | cons x tail =>
          obtain ⟨rfl, later⟩ := List.cons.inj encodes
          obtain ⟨chars, rfl, rfl⟩ := inductionHypothesis
            (fun x there => continues x (List.mem_cons_of_mem _ there)) later
          exact ⟨chars, rfl, rfl⟩
      | nil =>
          cases cs with
          | nil => cases encodes
          | cons c cs =>
              obtain ⟨x, tail, bytes, -, continues⟩ := encode_starts c
              rw [List.nil_append, List.flatMap_cons, bytes, List.cons_append] at encodes
              obtain ⟨rfl, later⟩ := List.cons.inj encodes
              obtain ⟨chars, rfl, rfl⟩ := inductionHypothesis continues later
              refine ⟨.keep c :: chars, ?_, rfl⟩
              rw [List.flatMap_cons, encoded, bytes]
              rfl
  | @hit word s rest pieces begins size _ _ inductionHypothesis =>
      have segment : WellFormed s := by
        rw [← wellFormed_asciiLower_iff, asciiLower_eq, ← begins.map_eq size, ← asciiLower_eq,
          wellFormed_asciiLower_iff]
        exact utf8 word begins.listed
      have nonempty : s ≠ [] := by
        rintro rfl
        exact begins.nonempty (List.length_eq_zero_iff.mp size)
      -- a hit starts with the first byte of a character
      have whole : tail = [] := by
        cases tail with
        | nil => rfl
        | cons x tail =>
            cases s with
            | nil => exact absurd rfl nonempty
            | cons b s =>
                obtain ⟨rfl, -⟩ := List.cons.inj encodes
                exact absurd (segment.starts b s rfl) (continues b (List.mem_cons_self ..))
      subst whole
      obtain ⟨ds, rfl⟩ := wellFormed_iff.mp segment
      obtain ⟨cs', rfl, behind⟩ := append_of_encode encodes
      obtain ⟨chars, rfl, rfl⟩ := @inductionHypothesis [] _ nofun behind
      exact ⟨.hit ds :: chars, rfl, rfl⟩

/-! ## The masked text -/

variable {chars : List (Piece Char)}

/-- Where the character with that number starts. -/
def offset (cs : List Char) (i : Nat) : Nat := ((cs.take i).flatMap utf8EncodeChar).length

theorem spans_keep {i : Nat} (t : Bytes) :
    Piece.spans i (t.map .keep ++ pieces) = Piece.spans (i + t.length) pieces := by
  induction t generalizing i with
  | nil => rfl
  | cons b t inductionHypothesis =>
      rw [List.map_cons, List.cons_append, Piece.spans, inductionHypothesis, List.length_cons]
      congr 1
      omega

theorem spans_encoded (front : List Char) :
    Piece.spans (front.flatMap utf8EncodeChar).length (chars.flatMap encoded) =
      (Piece.spans front.length chars).map fun span =>
        (offset (front ++ chars.flatMap Piece.text) span.1,
          offset (front ++ chars.flatMap Piece.text) span.2) := by
  induction chars generalizing front with
  | nil => rfl
  | cons piece chars inductionHypothesis =>
      cases piece with
      | keep c =>
          have later := inductionHypothesis (front ++ [c])
          rw [List.flatMap_append, List.length_append, List.length_append, List.append_assoc]
            at later
          rw [List.flatMap_singleton] at later
          rw [List.flatMap_cons, encoded, spans_keep]
          exact later
      | hit ds =>
          have later := inductionHypothesis (front ++ ds)
          rw [List.flatMap_append, List.length_append, List.length_append, List.append_assoc]
            at later
          have start : offset (front ++ (ds ++ chars.flatMap Piece.text)) front.length =
              (front.flatMap utf8EncodeChar).length := by
            rw [offset, List.take_left]
          have stop : offset (front ++ (ds ++ chars.flatMap Piece.text))
                (front.length + ds.length) =
              (front.flatMap utf8EncodeChar).length + (ds.flatMap utf8EncodeChar).length := by
            rw [offset, ← List.append_assoc, ← List.length_append, List.take_left,
              List.flatMap_append, List.length_append]
          have whole : (Piece.hit ds :: chars).flatMap Piece.text =
              ds ++ chars.flatMap Piece.text := rfl
          have front' : (Piece.hit ds :: chars).flatMap encoded =
              .hit (ds.flatMap utf8EncodeChar) :: chars.flatMap encoded := rfl
          rw [front', whole, Piece.spans, Piece.spans, List.map_cons, start, stop, later]

theorem masked_encoded (small : mask < 128) (nonempty : ∀ ds, Piece.hit ds ∈ chars → ds ≠ []) :
    (chars.flatMap encoded).flatMap (Piece.masked maskCount mask) =
      (chars.flatMap (Piece.masked List.length (Char.ofNat mask.toNat))).flatMap utf8EncodeChar := by
  induction chars with
  | nil => rfl
  | cons piece chars inductionHypothesis =>
      have later := inductionHypothesis fun ds there =>
        nonempty ds (List.mem_cons_of_mem piece there)
      rw [List.flatMap_cons, List.flatMap_append, List.flatMap_cons, List.flatMap_append, later]
      congr 1
      cases piece with
      | keep c =>
          rw [encoded, List.flatMap_map]
          exact (List.flatMap_singleton' _).trans (List.flatMap_singleton ..).symm
      | hit ds =>
          have count : maskCount (ds.flatMap utf8EncodeChar) = ds.length := by
            have some := List.length_pos_of_ne_nil (nonempty ds (List.mem_cons_self ..))
            rw [maskCount, utf8Chars_encode, if_neg some.ne']
          rw [encoded, List.flatMap_singleton, Piece.masked, Piece.masked, count,
            List.flatMap_replicate, encode_ascii small]
          exact (List.flatten_replicate_singleton).symm

/-- A text in UTF-8 is cut into pieces of characters. -/
theorem exists_chars (utf8 : ∀ word ∈ words, WellFormed word) (cs : List Char) :
    ∃ chars : List (Piece Char), cs = chars.flatMap Piece.text ∧
      (∀ ds, Piece.hit ds ∈ chars → ds ≠ []) ∧
      Cuts lowerByte words (cs.flatMap utf8EncodeChar) (chars.flatMap encoded) := by
  obtain ⟨pieces, cuts, -⟩ := cuts_scan words (cs.flatMap utf8EncodeChar)
  obtain ⟨chars, rfl, rfl⟩ := exists_encoded utf8 cuts (List.forall_mem_nil _) (List.nil_append _).symm
  refine ⟨chars, rfl, ?_, cuts⟩
  rintro ds there rfl
  refine cuts.ne_nil_of_hit ?_ rfl
  exact List.mem_flatMap.mpr ⟨.hit [], there, List.mem_singleton_self _⟩

theorem wellFormed_filter (utf8 : ∀ word ∈ words, WellFormed word) (small : mask < 128)
    (wellFormed : WellFormed text) : WellFormed ((ofWords words).filter text mask) := by
  obtain ⟨cs, rfl⟩ := wellFormed_iff.mp wellFormed
  obtain ⟨chars, -, nonempty, cuts⟩ := exists_chars utf8 cs
  rw [filter_eq cuts, masked_encoded small nonempty]
  exact wellFormed_iff.mpr ⟨_, rfl⟩

/-- The scan hits whole characters, and the masked text has a mask for each of them and is
the same elsewhere. -/
theorem filter_characters (utf8 : ∀ word ∈ words, WellFormed word) (wellFormed : WellFormed text)
    (small : mask < 128) :
    ∃ (cs masked : List Char) (spans : List (Nat × Nat)),
      text = cs.flatMap utf8EncodeChar ∧
      (ofWords words).filter text mask = masked.flatMap utf8EncodeChar ∧
      masked.length = cs.length ∧
      ((ofWords words).scan (asciiLower text)).map Match.span =
        spans.map (fun span => (offset cs span.1, offset cs span.2)) ∧
      (∀ span ∈ spans, span.1 < span.2 ∧ span.2 ≤ cs.length) ∧
      ∀ i, masked[i]? =
        if ∃ span ∈ spans, span.1 ≤ i ∧ i < span.2 then some (Char.ofNat mask.toNat)
        else cs[i]? := by
  obtain ⟨cs, rfl⟩ := wellFormed_iff.mp wellFormed
  obtain ⟨chars, rfl, nonempty, cuts⟩ := exists_chars utf8 cs
  obtain ⟨pieces, cuts', spans⟩ := cuts_scan words ((chars.flatMap Piece.text).flatMap utf8EncodeChar)
  obtain rfl := cuts.unique cuts'
  refine ⟨chars.flatMap Piece.text,
    chars.flatMap (Piece.masked List.length (Char.ofNat mask.toNat)), Piece.spans 0 chars,
    rfl, ?_, Piece.length_masked _ chars, ?_, ?_, ?_⟩
  · rw [filter_eq cuts]
    exact masked_encoded small nonempty
  · exact spans.trans (spans_encoded [])
  · intro span there
    have bounds := Piece.le_of_mem_spans there
    exact ⟨Piece.lt_of_mem_spans nonempty there, by omega⟩
  · intro i
    have here := Piece.getElem?_masked (Char.ofNat mask.toNat) chars 0 i
    rwa [Nat.zero_add] at here

/-- Two characters of three bytes between ASCII. -/
theorem filter_characters_two :
    (∀ word ∈ [bytes "你好"], WellFormed word) ∧ WellFormed (bytes "a你好b") ∧
    ∃ (cs masked : List Char) (spans : List (Nat × Nat)),
      bytes "a你好b" = cs.flatMap utf8EncodeChar ∧
      (ofWords [bytes "你好"]).filter (bytes "a你好b") 42 = masked.flatMap utf8EncodeChar ∧
      masked.length = cs.length ∧
      ((ofWords [bytes "你好"]).scan (asciiLower (bytes "a你好b"))).map Match.span =
        spans.map (fun span => (offset cs span.1, offset cs span.2)) ∧
      (∀ span ∈ spans, span.1 < span.2 ∧ span.2 ≤ cs.length) ∧
      ∀ i, masked[i]? =
        if ∃ span ∈ spans, span.1 ≤ i ∧ i < span.2 then some (Char.ofNat (42 : UInt8).toNat)
        else cs[i]? :=
  have utf8 : ∀ word ∈ [bytes "你好"], WellFormed word :=
    List.forall_mem_singleton.mpr (wellFormed_toUTF8 _)
  ⟨utf8, wellFormed_toUTF8 _, filter_characters utf8 (wellFormed_toUTF8 _) (by decide)⟩

end WordFilter

end OnlineChat
