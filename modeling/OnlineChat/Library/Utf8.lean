import Mathlib.Data.List.TakeDrop
import Mathlib.Data.List.Flatten

/-!
# Well-formed UTF-8

A byte string is well-formed when it encodes a list of Unicode scalar values.  No byte of
an encoding but the first can start one, so that a well-formed text falls apart into
well-formed parts wherever a part starts with such a byte.
-/

namespace OnlineChat.Library.Utf8

open String (utf8EncodeChar)

variable {t u v : List UInt8} {b : UInt8} {c d : Char}

def WellFormed (t : List UInt8) : Prop := t.toByteArray.IsValidUTF8

instance : DecidablePred WellFormed := fun t => inferInstanceAs (Decidable t.toByteArray.IsValidUTF8)

/-- The text is the encoding of some Unicode scalar values. -/
theorem wellFormed_iff : WellFormed t ↔ ∃ cs : List Char, t = cs.flatMap utf8EncodeChar := by
  constructor
  · rintro ⟨cs, encodes⟩
    exact ⟨cs, List.toByteArray_inj.mp encodes⟩
  · rintro ⟨cs, rfl⟩
    exact ⟨cs, rfl⟩

/-- Strings are encoded in UTF-8. -/
theorem wellFormed_toUTF8 (s : String) : WellFormed s.toUTF8.data.toList := by
  have same : s.toUTF8.data.toList.toByteArray = s.toByteArray := by
    apply ByteArray.ext
    rw [List.data_toByteArray]
    rfl
  rw [WellFormed, same]
  exact s.isValidUTF8

/-! ## The encoding of one character -/

/-- The first byte of an encoding can start one, the others cannot. -/
theorem encode_starts (c : Char) : ∃ b tail, utf8EncodeChar c = b :: tail ∧
    b.IsUTF8FirstByte ∧ ∀ x ∈ tail, ¬ x.IsUTF8FirstByte := by
  cases encoded : utf8EncodeChar c with
  | nil => exact absurd encoded String.utf8EncodeChar_ne_nil
  | cons b tail =>
      have first (i : Nat) (inside : i < (utf8EncodeChar c).length) :
          (utf8EncodeChar c)[i].IsUTF8FirstByte ↔ i = 0 :=
        UInt8.isUTF8FirstByte_getElem_utf8EncodeChar
      simp only [encoded] at first
      refine ⟨b, tail, rfl, ?_, ?_⟩
      · exact (first 0 (by simp)).mpr rfl
      · intro x there start
        obtain ⟨i, inside, rfl⟩ := List.getElem_of_mem there
        have zero := (first (i + 1) (by simpa using inside)).mp (by simpa using start)
        omega

/-- A character is one byte of ASCII or has no such byte. -/
theorem encode_cases (c : Char) :
    (∃ b : UInt8, b < 128 ∧ utf8EncodeChar c = [b]) ∨ ∀ b ∈ utf8EncodeChar c, 128 ≤ b := by
  have low {n : Nat} (small : n ≤ 0x7f) : UInt8.ofNat n < 128 := by
    rw [UInt8.lt_iff_toNat_lt, UInt8.toNat_ofNat']
    exact Nat.lt_of_le_of_lt (Nat.mod_le n _) (Nat.lt_succ_of_le small)
  have high {n k : Nat} (range : 128 ≤ k) (fits : n + k < 256) : 128 ≤ UInt8.ofNat (n + k) := by
    rw [UInt8.le_iff_toNat_le, UInt8.toNat_ofNat', Nat.mod_eq_of_lt fits]
    exact Nat.le_trans range (Nat.le_add_left k n)
  unfold utf8EncodeChar
  dsimp only
  split
  next small => exact .inl ⟨_, low small, rfl⟩
  next =>
    right
    intro b there
    split at there
    · simp only [List.mem_cons, List.not_mem_nil, or_false] at there
      rcases there with rfl | rfl <;> exact high (by omega) (by omega)
    · split at there
      · simp only [List.mem_cons, List.not_mem_nil, or_false] at there
        rcases there with rfl | rfl | rfl <;> exact high (by omega) (by omega)
      · simp only [List.mem_cons, List.not_mem_nil, or_false] at there
        rcases there with rfl | rfl | rfl | rfl <;> exact high (by omega) (by omega)

theorem encode_ascii (small : b < 128) : utf8EncodeChar (Char.ofNat b.toNat) = [b] := by
  have value : b.toNat < 128 := UInt8.lt_iff_toNat_lt.mp small
  have code : (Char.ofNat b.toNat).val.toNat = b.toNat := by
    rw [Char.ofNat, dif_pos (.inl (by omega))]
    rfl
  unfold utf8EncodeChar
  rw [code, if_pos (by omega), UInt8.ofNat_toNat]

/-- No encoding is the beginning of another one. -/
theorem encode_append_inj (same : utf8EncodeChar c ++ u = utf8EncodeChar d ++ v) :
    c = d ∧ u = v := by
  have decoded (c : Char) (u : List UInt8) :
      ByteArray.utf8DecodeChar? (utf8EncodeChar c ++ u).toByteArray 0 = some c := by
    rw [List.toByteArray_append]
    exact ByteArray.utf8DecodeChar?_utf8EncodeChar_append
  have chars : c = d := by
    have first := decoded c u
    rw [same, decoded d v] at first
    exact (Option.some.inj first).symm
  subst chars
  exact ⟨rfl, List.append_cancel_left same⟩

/-! ## Composition -/

theorem wellFormed_nil : WellFormed [] := wellFormed_iff.mpr ⟨[], rfl⟩

theorem WellFormed.append (first : WellFormed t) (second : WellFormed u) : WellFormed (t ++ u) := by
  obtain ⟨cs, rfl⟩ := wellFormed_iff.mp first
  obtain ⟨ds, rfl⟩ := wellFormed_iff.mp second
  exact wellFormed_iff.mpr ⟨cs ++ ds, List.flatMap_append.symm⟩

theorem wellFormed_encode (c : Char) : WellFormed (utf8EncodeChar c) :=
  wellFormed_iff.mpr ⟨[c], by simp⟩

theorem wellFormed_byte (small : b < 128) : WellFormed [b] :=
  encode_ascii small ▸ wellFormed_encode _

theorem WellFormed.cons (rest : WellFormed t) (small : b < 128) : WellFormed (b :: t) :=
  (wellFormed_byte small).append rest

theorem wellFormed_of_ascii (small : ∀ b ∈ t, b < 128) : WellFormed t := by
  induction t with
  | nil => exact wellFormed_nil
  | cons b t inductionHypothesis =>
      apply WellFormed.cons
      · exact inductionHypothesis fun x there => small x (by simp [there])
      · exact small b (by simp)

theorem wellFormed_of_all (small : t.all (fun b => b < 128) = true) : WellFormed t := by
  apply wellFormed_of_ascii
  intro b there
  exact of_decide_eq_true (List.all_eq_true.mp small b there)

/-- A property of texts that the empty text has and that one more character keeps. -/
@[elab_as_elim]
theorem WellFormed.induction {motive : (t : List UInt8) → WellFormed t → Prop}
    (nil : motive [] wellFormed_nil)
    (cons : ∀ c t (rest : WellFormed t), motive t rest →
      motive (utf8EncodeChar c ++ t) ((wellFormed_encode c).append rest))
    (wellFormed : WellFormed t) : motive t wellFormed := by
  obtain ⟨cs, rfl⟩ := wellFormed_iff.mp wellFormed
  induction cs with
  | nil => exact nil
  | cons c cs inductionHypothesis =>
      have rest : WellFormed (cs.flatMap utf8EncodeChar) := wellFormed_iff.mpr ⟨cs, rfl⟩
      exact cons c _ rest (inductionHypothesis rest)

theorem flatMap_eq_self {g : UInt8 → List UInt8} (fixed : ∀ b ∈ t, g b = [b]) : t.flatMap g = t := by
  induction t with
  | nil => rfl
  | cons b t inductionHypothesis =>
      rw [List.flatMap_cons, fixed b (by simp), inductionHypothesis fun x there =>
        fixed x (by simp [there])]
      rfl

/-- A function of bytes that keeps ASCII apart and the other bytes as they are. -/
theorem WellFormed.flatMap {g : UInt8 → List UInt8} (wellFormed : WellFormed t)
    (ascii : ∀ b, b < 128 → ∀ x ∈ g b, x < 128) (fixed : ∀ b, 128 ≤ b → g b = [b]) :
    WellFormed (t.flatMap g) := by
  induction wellFormed using WellFormed.induction with
  | nil => exact wellFormed_nil
  | cons c t _ inductionHypothesis =>
      rw [List.flatMap_append]
      apply WellFormed.append _ inductionHypothesis
      rcases encode_cases c with ⟨b, small, encoded⟩ | high
      · rw [encoded, List.flatMap_singleton]
        exact wellFormed_of_ascii (ascii b small)
      · rw [flatMap_eq_self fun b there => fixed b (high b there)]
        exact wellFormed_encode c

/-! ## Decomposition -/

/-- The text is empty or starts with a byte that can start an encoding. -/
def Starts (t : List UInt8) : Prop := ∀ b rest, t = b :: rest → b.IsUTF8FirstByte

theorem starts_of_ascii (small : b < 128) : Starts (b :: t) := by
  rintro _ _ ⟨⟩
  obtain ⟨x, tail, encoded, starts, -⟩ := encode_starts (Char.ofNat b.toNat)
  rw [encode_ascii small] at encoded
  obtain ⟨rfl, -⟩ := List.cons.inj encoded
  exact starts

theorem WellFormed.starts (wellFormed : WellFormed t) : Starts t := by
  induction wellFormed using WellFormed.induction with
  | nil => exact nofun
  | cons c t _ _ =>
      obtain ⟨x, tail, encoded, starts, -⟩ := encode_starts c
      rw [encoded]
      rintro _ _ ⟨⟩
      exact starts

/-- A part that starts like a character does not start inside one. -/
theorem WellFormed.split (whole : WellFormed (t ++ u)) (starts : Starts u) :
    WellFormed t ∧ WellFormed u := by
  generalize joined : t ++ u = text at whole
  induction whole using WellFormed.induction generalizing t with
  | nil =>
      obtain ⟨rfl, rfl⟩ := List.append_eq_nil_iff.mp joined
      exact ⟨wellFormed_nil, wellFormed_nil⟩
  | cons c text rest inductionHypothesis =>
      rcases List.append_eq_append_iff.mp joined with ⟨mid, encoded, tails⟩ | ⟨mid, rfl, tails⟩
      · cases mid with
        | nil =>
            rw [List.append_nil] at encoded
            rw [List.nil_append] at tails
            exact ⟨encoded ▸ wellFormed_encode c, tails ▸ rest⟩
        | cons b mid =>
            -- the part would start with a byte of `c`
            obtain ⟨x, tail, first, -, others⟩ := encode_starts c
            have start := starts b (mid ++ text) tails
            cases t with
            | nil =>
                rw [tails]
                rw [List.nil_append] at encoded
                exact ⟨wellFormed_nil, encoded ▸ (wellFormed_encode c).append rest⟩
            | cons y t =>
                rw [first] at encoded
                have inside : b ∈ tail := by simp [(List.cons.inj encoded).2]
                exact absurd start (others b inside)
      · obtain ⟨front, back⟩ := inductionHypothesis tails.symm
        exact ⟨(wellFormed_encode c).append front, back⟩

/-- What follows a well-formed beginning is well-formed. -/
theorem WellFormed.cancel (whole : WellFormed (t ++ u)) (front : WellFormed t) : WellFormed u := by
  induction front using WellFormed.induction with
  | nil => exact whole
  | cons c t _ inductionHypothesis =>
      apply inductionHypothesis
      obtain ⟨cs, encodes⟩ := wellFormed_iff.mp whole
      cases cs with
      | nil =>
          obtain ⟨x, tail, encoded, -⟩ := encode_starts c
          simp [encoded] at encodes
      | cons d cs =>
          rw [List.append_assoc, List.flatMap_cons] at encodes
          exact wellFormed_iff.mpr ⟨cs, (encode_append_inj encodes).2⟩

/-- A byte of ASCII is a character of its own. -/
theorem WellFormed.around (whole : WellFormed (t ++ b :: u)) (small : b < 128) :
    WellFormed t ∧ WellFormed u := by
  obtain ⟨front, back⟩ := whole.split (starts_of_ascii small)
  exact ⟨front, WellFormed.cancel (t := [b]) back (wellFormed_byte small)⟩

theorem WellFormed.tail (whole : WellFormed (b :: u)) (small : b < 128) : WellFormed u :=
  (WellFormed.around (t := []) whole small).2

/-- ASCII around a text may be taken away. -/
theorem WellFormed.trim {w w' : List UInt8} (whole : WellFormed (w ++ (t ++ w')))
    (before : ∀ b ∈ w, b < 128) (after : ∀ b ∈ w', b < 128) : WellFormed t := by
  have back : WellFormed (t ++ w') := whole.cancel (wellFormed_of_ascii before)
  cases w' with
  | nil => rwa [List.append_nil] at back
  | cons b w' => exact (back.around (after b (List.mem_cons_self ..))).1

/-- A function of bytes that keeps ASCII apart and the other bytes as they are loses
nothing. -/
theorem wellFormed_of_map {g : UInt8 → UInt8} (wellFormed : WellFormed (t.map g))
    (ascii : ∀ b, g b < 128 ↔ b < 128) (fixed : ∀ b, 128 ≤ b → g b = b) : WellFormed t := by
  generalize mapped : t.map g = text at wellFormed
  induction wellFormed using WellFormed.induction generalizing t with
  | nil =>
      rw [List.map_eq_nil_iff] at mapped
      exact mapped ▸ wellFormed_nil
  | cons c text _ inductionHypothesis =>
      obtain ⟨front, back, rfl, encoded, rest⟩ := List.map_eq_append_iff.mp mapped
      apply WellFormed.append _ (inductionHypothesis rest)
      rcases encode_cases c with ⟨b, small, single⟩ | high
      · obtain ⟨x, rfl, rfl⟩ := List.map_eq_singleton_iff.mp (encoded.trans single)
        exact wellFormed_byte ((ascii x).mp small)
      · have same : front.map g = front := by
          apply (List.map_congr_left ?_).trans (List.map_id front)
          intro b there
          have mapped := high (g b) (encoded ▸ List.mem_map_of_mem there)
          apply fixed b
          exact UInt8.not_lt.mp fun small => UInt8.not_lt.mpr mapped ((ascii b).mpr small)
        rw [← same, encoded]
        exact wellFormed_encode c

end OnlineChat.Library.Utf8
