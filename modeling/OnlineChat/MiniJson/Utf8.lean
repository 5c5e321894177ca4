import OnlineChat.Library.Utf8
import OnlineChat.MiniJson.RoundTrip
import OnlineChat.PwdHash

/-!
# JSON in UTF-8

The serialiser writes UTF-8 when all strings of a value are UTF-8, and all strings that
the parser finds in a text of UTF-8 are UTF-8.  The parser stops at ASCII only, so that its
index never stays inside a character.
-/

namespace OnlineChat.MiniJson

open Library.Utf8

variable {t u s out : Bytes} {i j fuel : Nat} {b : UInt8}

/-! ## Texts of the source -/

@[simp]
theorem wellFormed_bytes (text : String) : WellFormed (bytes text) := wellFormed_toUTF8 text

theorem digit_lt (digit : 48 ≤ b.toNat ∧ b.toNat ≤ 57) : b < 128 := by
  rw [UInt8.lt_iff_toNat_lt]
  exact Nat.lt_of_le_of_lt digit.2 (by decide)

@[simp]
theorem wellFormed_toDecimal (n : Int) : WellFormed (toDecimal n) := by
  have digits : WellFormed (toDecimalNat n.natAbs) :=
    wellFormed_of_ascii fun b there => digit_lt (digit_of_mem_toDecimalNat there)
  unfold toDecimal
  split
  · exact digits.cons (by decide)
  · exact digits

/-- What a C string keeps of a text ends in front of a NUL. -/
theorem wellFormed_cStr (wellFormed : WellFormed s) : WellFormed (cStr s) := by
  have whole : WellFormed (cStr s ++ s.dropWhile (· ≠ 0)) := by
    rwa [cStr, List.takeWhile_append_dropWhile]
  refine (whole.split ?_).1
  intro b rest starts
  have zero : b = 0 := by
    have first := List.head?_dropWhile_not (· ≠ (0 : UInt8)) s
    rw [starts] at first
    simpa using first
  subst zero
  exact starts_of_ascii (b := 0) (t := []) (by decide) 0 [] rfl

@[simp]
theorem wellFormed_toHex (data : Bytes) : WellFormed (PwdHash.toHex data) := by
  have low : ∀ d < 16, PwdHash.hexChar d < 128 := by decide
  apply wellFormed_of_ascii
  intro x there
  obtain ⟨b, -, digit⟩ := List.mem_flatMap.mp there
  have byte := b.toNat_lt
  simp only [List.mem_cons, List.not_mem_nil, or_false] at digit
  rcases digit with rfl | rfl
  · exact low _ (by omega)
  · exact low _ (by omega)

/-! ## Writing -/

/-- The escape of a byte of ASCII is ASCII. -/
theorem escapeByte_ascii (small : b < 128) : ∀ x ∈ escapeByte b, x < 128 := by
  have low : ∀ d < 16, lowerHex d < 128 := by decide
  intro x there
  unfold escapeByte at there
  repeat' split at there
  iterate 7
    · simp only [List.mem_cons, List.not_mem_nil, or_false] at there
      rcases there with rfl | rfl <;> decide
  next control =>
    have value : b.toNat < 32 := UInt8.lt_iff_toNat_lt.mp control
    simp only [List.mem_cons, List.not_mem_nil, or_false] at there
    rcases there with rfl | rfl | rfl | rfl | rfl | rfl
    iterate 4
      · decide
    · exact low _ (by omega)
    · exact low _ (by omega)
  next => exact List.mem_singleton.mp there ▸ small

theorem wellFormed_escapeString (wellFormed : WellFormed s) : WellFormed (escapeString s) := by
  apply wellFormed.flatMap
  · intro b small
    exact escapeByte_ascii small
  · intro b high
    have apart {x : UInt8} (small : x < 128) : b ≠ x := by
      rintro rfl
      exact UInt8.not_lt.mpr high small
    unfold escapeByte
    have control : ¬ b < 32 := fun low => absurd (UInt8.lt_trans low (by decide)) (UInt8.not_lt.mpr high)
    simp [apart, control]

theorem wellFormed_quote (wellFormed : WellFormed s) : WellFormed (quote s) :=
  ((wellFormed_escapeString wellFormed).append (wellFormed_byte (by decide))).cons (by decide)

mutual

/-- All strings of a value are UTF-8. -/
def Value.Utf8 : Value → Prop
  | .str s => WellFormed s
  | .num _ | .nullObj => True
  | .list items => Utf8Items items
  | .obj fields => Utf8Fields fields

def Utf8Items : List Value → Prop
  | [] => True
  | item :: items => item.Utf8 ∧ Utf8Items items

def Utf8Fields : List (Bytes × Value) → Prop
  | [] => True
  | (k, v) :: fields => (WellFormed k ∧ v.Utf8) ∧ Utf8Fields fields

end

mutual

theorem wellFormed_serializeValue (v : Value) (utf8 : v.Utf8) : WellFormed (serializeValue v) := by
  cases v with
  | str s => exact wellFormed_quote utf8
  | num n => exact wellFormed_toDecimal n
  | list items =>
      have inside := wellFormed_serializeItems items utf8
      exact (inside.append (wellFormed_byte (by decide))).cons (by decide)
  | obj fields =>
      have inside := wellFormed_serializeFields fields utf8
      exact (inside.append (wellFormed_byte (by decide))).cons (by decide)
  | nullObj => exact wellFormed_of_all rfl

theorem wellFormed_serializeItems (items : List Value) (utf8 : Utf8Items items) :
    WellFormed (serializeItems items) := by
  match items with
  | [] => exact wellFormed_nil
  | [item] => exact wellFormed_serializeValue item utf8.1
  | item :: next :: items =>
      have first := wellFormed_serializeValue item utf8.1
      exact first.append ((wellFormed_serializeItems (next :: items) utf8.2).cons (by decide))

theorem wellFormed_serializeFields (fields : List (Bytes × Value)) (utf8 : Utf8Fields fields) :
    WellFormed (serializeFields fields) := by
  match fields with
  | [] => exact wellFormed_nil
  | [(k, v)] =>
      have value := wellFormed_serializeValue v utf8.1.2
      exact (wellFormed_quote utf8.1.1).append (value.cons (by decide))
  | (k, v) :: next :: fields =>
      have value := wellFormed_serializeValue v utf8.1.2
      have rest := wellFormed_serializeFields (next :: fields) utf8.2
      exact (wellFormed_quote utf8.1.1).append
        ((value.append (rest.cons (by decide))).cons (by decide))

end

/-! ## Objects -/

theorem utf8Items_iff {items : List Value} : Utf8Items items ↔ ∀ item ∈ items, item.Utf8 := by
  induction items with
  | nil => simp [Utf8Items]
  | cons item items inductionHypothesis => simp [Utf8Items, inductionHypothesis]

theorem utf8Fields_iff {fields : List (Bytes × Value)} :
    Utf8Fields fields ↔ ∀ field ∈ fields, WellFormed field.1 ∧ field.2.Utf8 := by
  induction fields with
  | nil => simp [Utf8Fields]
  | cons field fields inductionHypothesis =>
      obtain ⟨k, v⟩ := field
      simp [Utf8Fields, inductionHypothesis]

/-- All strings of an object are UTF-8. -/
def Object.Utf8 (o : Object) : Prop := Utf8Fields o.fields

theorem wellFormed_serialize {o : Object} (utf8 : o.Utf8) : WellFormed (serialize o) :=
  wellFormed_serializeValue (.obj o.fields) utf8

theorem Object.utf8_empty : ({} : Object).Utf8 := trivial

theorem Object.Utf8.set {o : Object} {k : Bytes} {v : Value} (utf8 : o.Utf8) (key : WellFormed k)
    (value : v.Utf8) : (o.set k v).Utf8 := by
  obtain ⟨fields⟩ := o
  induction fields with
  | nil => exact ⟨⟨key, value⟩, trivial⟩
  | cons field fields inductionHypothesis =>
      obtain ⟨k', v'⟩ := field
      simp only [Object.set, Object.setIn]
      split
      · exact ⟨⟨utf8.1.1, value⟩, utf8.2⟩
      · exact ⟨utf8.1, inductionHypothesis utf8.2⟩

variable {o : Object} {k : Bytes}

theorem Object.Utf8.setStr (utf8 : o.Utf8) (key : WellFormed k) (text : WellFormed s) :
    (o.setStr k s).Utf8 := utf8.set key text

theorem Object.Utf8.setNum (utf8 : o.Utf8) (key : WellFormed k) (n : Int) : (o.setNum k n).Utf8 :=
  utf8.set key trivial

theorem Object.Utf8.setList {texts : List Bytes} (utf8 : o.Utf8) (key : WellFormed k)
    (wellFormed : ∀ text ∈ texts, WellFormed text) : (o.setList k texts).Utf8 := by
  apply utf8.set key
  apply utf8Items_iff.mpr
  intro item there
  obtain ⟨text, member, rfl⟩ := List.mem_map.mp there
  exact wellFormed text member

theorem Object.Utf8.setObjs {objs : List Object} (utf8 : o.Utf8) (key : WellFormed k)
    (wellFormed : ∀ obj ∈ objs, obj.Utf8) : (o.setObjs k objs).Utf8 := by
  apply utf8.set key
  apply utf8Items_iff.mpr
  intro item there
  obtain ⟨obj, member, rfl⟩ := List.mem_map.mp there
  exact wellFormed obj member

theorem Object.Utf8.getStr (utf8 : o.Utf8) (k : Bytes) : WellFormed (o.getStr k) := by
  have fields := utf8Fields_iff.mp utf8
  unfold Object.getStr
  cases found : o.fields.findSome? _ with
  | none => exact wellFormed_nil
  | some text =>
      obtain ⟨⟨k', v⟩, there, reads⟩ := List.exists_of_findSome?_eq_some found
      cases v with
      | str s =>
          simp only [Option.ite_none_right_eq_some, Option.some.injEq] at reads
          exact reads.2 ▸ (fields _ there).2
      | _ => cases reads

/-! ## Reading -/

/-- White space is ASCII. -/
theorem Blank.ascii {w : Bytes} (blank : Blank w) : ∀ b ∈ w, b < 128 := by
  intro b there
  have space := blank b there
  simp only [isSpace, Bool.or_eq_true, decide_eq_true_eq] at space
  rcases space with ((rfl | rfl) | rfl) | rfl <;> decide

theorem HexDigit.ascii {d : Nat} (digit : HexDigit b d) : b < 128 := by
  cases digit with
  | decimal small => interval_cases d <;> decide
  | @lower d small => interval_cases d <;> decide
  | @upper d small => interval_cases d <;> decide

theorem CodeUnit.ascii {x : Bytes} {n : Nat} (unit : CodeUnit x n) : ∀ b ∈ x, b < 128 := by
  obtain ⟨first, second, third, fourth⟩ := unit
  simp [first.ascii, second.ascii, third.ascii, fourth.ascii]

theorem shortEscape_ascii {e : UInt8} (stands : shortEscape e = some b) : e < 128 ∧ b < 128 := by
  unfold shortEscape at stands
  split at stands
  iterate 8
    · obtain rfl := Option.some.inj stands
      decide
  · cases stands

/-- A character of a literal is one byte that stays as it is, or it is written in ASCII and
denotes UTF-8. -/
theorem Glyph.cases_ascii {g : Bytes} (glyph : Glyph g s) :
    (∃ b, g = [b] ∧ s = [b]) ∨
    ∃ g', g = 92 :: g' ∧ (∀ b ∈ g', b < 128) ∧ WellFormed s := by
  cases glyph with
  | byte => exact .inl ⟨_, rfl, rfl⟩
  | short stands =>
      obtain ⟨letter, byte⟩ := shortEscape_ascii stands
      exact .inr ⟨_, rfl, by simpa using letter, wellFormed_byte byte⟩
  | unit unit =>
      refine .inr ⟨_, rfl, ?_, wellFormed_encode _⟩
      exact List.forall_mem_cons.mpr ⟨by decide, unit.ascii⟩
  | pair unit _ _ unit' =>
      refine .inr ⟨_, rfl, ?_, wellFormed_encode _⟩
      refine List.forall_mem_cons.mpr ⟨by decide, List.forall_mem_append.mpr ⟨unit.ascii, ?_⟩⟩
      exact List.forall_mem_cons.mpr ⟨by decide, List.forall_mem_cons.mpr ⟨by decide, unit'.ascii⟩⟩

/-- Behind `part` of a character of UTF-8, the rest of a literal of UTF-8 denotes UTF-8. -/
theorem Chars.wellFormed (chars : Chars t s) (part : Bytes) (whole : WellFormed (part ++ t)) :
    WellFormed (part ++ s) := by
  induction chars generalizing part with
  | nil => exact whole
  | @cons g s t s' glyph _ inductionHypothesis =>
      rcases glyph.cases_ascii with ⟨b, rfl, rfl⟩ | ⟨g', rfl, ascii, denoted⟩
      · rw [List.singleton_append, List.append_cons] at whole ⊢
        exact inductionHypothesis (part ++ [b]) whole
      · -- in front of the backslash no character is open
        rw [List.cons_append] at whole
        obtain ⟨front, back⟩ := whole.around (by decide)
        have rest : WellFormed t := back.cancel (wellFormed_of_ascii ascii)
        exact front.append (denoted.append (inductionHypothesis [] rest))

/-- A string literal of UTF-8 denotes UTF-8. -/
theorem Chars.utf8 {rest : Bytes} (chars : Chars t s) (whole : WellFormed (34 :: (t ++ 34 :: rest))) :
    WellFormed s ∧ WellFormed rest := by
  obtain ⟨inside, behind⟩ := (whole.tail (by decide)).around (by decide)
  exact ⟨chars.wellFormed [] inside, behind⟩

mutual

theorem Denotes.utf8 {t : Bytes} {v : Value} : Denotes t v → WellFormed t → v.wrapped.Utf8
  | .str chars, wellFormed => (chars.utf8 wellFormed).1
  | .num _, _ => trivial
  | .null, _ => wellFormed_nil
  | .emptyList _, _ => trivial
  | .list items, wellFormed =>
      items.utf8 ((wellFormed.tail (by decide)).around (by decide)).1
  | .emptyObj _, _ => trivial
  | @Denotes.obj t members denotes, wellFormed => by
      have inside := ((wellFormed.tail (by decide)).around (by decide)).1
      have utf8 := denotes.utf8 inside Object.utf8_empty
      have collected : (collect members).wrapped = members.foldl
        (fun o member => o.set member.1 member.2.wrapped) {} := foldl_wrapped members {}
      rw [← collected] at utf8
      exact utf8

theorem Items.utf8 {t : Bytes} {items : List Value} :
    Items t items → WellFormed t → Utf8Items (wrappedItems items)
  | .last blank denotes blank', wellFormed =>
      ⟨denotes.utf8 (wellFormed.trim blank.ascii blank'.ascii), trivial⟩
  | @Items.cons w t w' t' v items blank denotes blank' others, wellFormed => by
      have whole : WellFormed ((w ++ (t ++ w')) ++ 44 :: t') := by simpa using wellFormed
      obtain ⟨front, back⟩ := whole.around (by decide)
      exact ⟨denotes.utf8 (front.trim blank.ascii blank'.ascii), others.utf8 back⟩

theorem Members.utf8 {t : Bytes} {members : List (Bytes × Value)} : Members t members →
    ∀ {o : Object}, WellFormed t → o.Utf8 →
    (members.foldl (fun o member => o.set member.1 member.2.wrapped) o).Utf8
  | .last member, o, wellFormed, before => by
      obtain ⟨key, value⟩ := member.utf8 wellFormed
      exact before.set key value
  | .cons member others, o, wellFormed, before => by
      obtain ⟨front, back⟩ := wellFormed.around (by decide)
      obtain ⟨key, value⟩ := member.utf8 front
      exact others.utf8 back (before.set key value)

theorem Member.utf8 {t : Bytes} {member : Bytes × Value} :
    Member t member → WellFormed t → WellFormed member.1 ∧ member.2.wrapped.Utf8
  | .pair blank₁ chars blank₂ blank₃ denotes blank₄, wellFormed => by
      have literal := wellFormed.cancel (wellFormed_of_ascii blank₁.ascii)
      obtain ⟨key, behind⟩ := chars.utf8 literal
      obtain ⟨-, value⟩ := behind.around (by decide)
      exact ⟨key, denotes.utf8 (value.trim blank₃.ascii blank₄.ascii)⟩

end

/-- All strings that come out of a text of UTF-8 are UTF-8. -/
theorem utf8_of_parse {o : Object} (wellFormed : WellFormed t) (ok : parse t = .ok o) : o.Utf8 := by
  obtain ⟨o', document, rfl⟩ := document_of_parse ok
  obtain ⟨blank, denotes, blank'⟩ := document
  exact denotes.utf8 (wellFormed.trim blank.ascii blank'.ascii)

end OnlineChat.MiniJson
