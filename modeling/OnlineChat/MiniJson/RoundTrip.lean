import OnlineChat.Library.Utf8
import OnlineChat.MiniJson.Grammar

/-!
# JSON there and back

What the serialiser writes is in the language of the parser, and it denotes the value that
was written.  So the parser reads it back.
-/

namespace OnlineChat.MiniJson

/-! ## Strings and numbers -/

/-- A byte is written as a short escape, as the escape of a control character, or as it
is. -/
theorem escapeByte_cases (c : UInt8) :
    (∃ e, escapeByte c = [92, e] ∧ shortEscape e = some c) ∨
    (c < 32 ∧ escapeByte c =
      [92, 117, 48, 48, lowerHex (c.toNat / 16), lowerHex (c.toNat % 16)]) ∨
    (c ≠ 34 ∧ c ≠ 92 ∧ ¬ c < 32 ∧ escapeByte c = [c]) := by
  unfold escapeByte
  split_ifs with quote slash backspace feed line return' tab control
  · exact .inl ⟨34, rfl, by rw [quote]; rfl⟩
  · exact .inl ⟨92, rfl, by rw [slash]; rfl⟩
  · exact .inl ⟨98, rfl, by rw [backspace]; rfl⟩
  · exact .inl ⟨102, rfl, by rw [feed]; rfl⟩
  · exact .inl ⟨110, rfl, by rw [line]; rfl⟩
  · exact .inl ⟨114, rfl, by rw [return']; rfl⟩
  · exact .inl ⟨116, rfl, by rw [tab]; rfl⟩
  · exact .inr (.inl ⟨control, rfl⟩)
  · exact .inr (.inr ⟨quote, slash, control, rfl⟩)

theorem hexDigit_lowerHex {d : Nat} (small : d < 16) : HexDigit (lowerHex d) d := by
  unfold lowerHex
  split
  next decimal => exact .decimal decimal
  next letter =>
    have lower := HexDigit.lower (d := d - 10) (by omega)
    have byte : 97 + (d - 10) = 87 + d := by omega
    have value : 10 + (d - 10) = d := by omega
    rwa [byte, value] at lower

/-- The escape of a byte denotes it. -/
theorem glyph_escapeByte (c : UInt8) : Glyph (escapeByte c) [c] := by
  rcases escapeByte_cases c with ⟨e, shape, stands⟩ | ⟨control, shape⟩ |
    ⟨noQuote, noSlash, printable, shape⟩ <;> rw [shape]
  · exact .short stands
  · have small : c.toNat < 32 := UInt8.lt_iff_toNat_lt.mp control
    have zero : HexDigit 48 0 := .decimal (d := 0) (by decide)
    have unit := CodeUnit.digits zero zero (hexDigit_lowerHex (show c.toNat / 16 < 16 by omega))
      (hexDigit_lowerHex (show c.toNat % 16 < 16 by omega))
    have value : 0 * 4096 + 0 * 256 + c.toNat / 16 * 16 + c.toNat % 16 = c.toNat := by omega
    rw [value] at unit
    rw [← Library.Utf8.encode_ascii (UInt8.lt_trans control (by decide))]
    exact .unit unit (.inl (by omega))
  · exact .byte (UInt8.not_lt.mp printable) noQuote noSlash

theorem chars_escapeString (s : Bytes) : Chars (escapeString s) s := by
  induction s with
  | nil => exact .nil
  | cons c s inductionHypothesis => exact .cons (glyph_escapeByte c) inductionHypothesis

theorem isDigit_toDecimalNat {n : Nat} {b : UInt8} (membership : b ∈ toDecimalNat n) :
    isDigit b = true := by
  obtain ⟨low, high⟩ := digit_of_mem_toDecimalNat membership
  simp only [isDigit, Bool.and_eq_true, decide_eq_true_eq, UInt8.le_iff_toNat_le]
  exact ⟨low, high⟩

theorem toDecimalNat_ne_nil (n : Nat) : toDecimalNat n ≠ [] := by
  unfold toDecimalNat
  split
  · simp
  next positive => simpa [Nat.digits_ne_nil_iff_ne_zero] using positive

theorem number_toDecimal (n : Int) : Number (toDecimal n) n := by
  have digits : Digits (toDecimalNat n.natAbs) := fun _ there => isDigit_toDecimalNat there
  have nonempty := toDecimalNat_ne_nil n.natAbs
  unfold toDecimal
  split
  next negative =>
    have number := Number.minus nonempty digits .none .none
    have value : -(n.natAbs : Int) = n := by omega
    rwa [List.append_nil, List.append_nil, ofDecimalNat_toDecimalNat, value] at number
  next positive =>
    have number := Number.plus nonempty digits .none .none
    have value : (n.natAbs : Int) = n := by omega
    rwa [List.append_nil, List.append_nil, ofDecimalNat_toDecimalNat, value] at number

/-! ## Values -/

mutual

/-- What the parser can give back: numbers in the range of both signs, no field name
twice and no null object pointer. -/
def Value.Plain : Value → Prop
  | .str _ => True
  | .num n => -2 ^ 63 < n ∧ n < 2 ^ 63
  | .list items => PlainItems items
  | .obj fields => (fields.map Prod.fst).Nodup ∧ PlainFields fields
  | .nullObj => False

def PlainItems : List Value → Prop
  | [] => True
  | item :: items => item.Plain ∧ PlainItems items

def PlainFields : List (Bytes × Value) → Prop
  | [] => True
  | (_, v) :: fields => v.Plain ∧ PlainFields fields

end

mutual

theorem Value.Plain.range {v : Value} (plain : v.Plain) :
    ∀ n ∈ v.numbers, -2 ^ 63 < n ∧ n < 2 ^ 63 := by
  intro n there
  match v with
  | .num m =>
      obtain rfl := List.mem_singleton.mp there
      exact plain
  | .list items => exact range_of_plainItems plain n there
  | .obj fields => exact range_of_plainFields plain.2 n there

theorem range_of_plainItems {items : List Value} (plain : PlainItems items) :
    ∀ n ∈ numbersOfItems items, -2 ^ 63 < n ∧ n < 2 ^ 63 := by
  intro n there
  match items with
  | item :: items =>
      rcases List.mem_append.mp there with first | later
      · exact plain.1.range n first
      · exact range_of_plainItems plain.2 n later

theorem range_of_plainFields {fields : List (Bytes × Value)} (plain : PlainFields fields) :
    ∀ n ∈ numbersOfFields fields, -2 ^ 63 < n ∧ n < 2 ^ 63 := by
  intro n there
  match fields with
  | (k, v) :: fields =>
      rcases List.mem_append.mp there with first | later
      · exact plain.1.range n first
      · exact range_of_plainFields plain.2 n later

end

/-- The first field of that name is not there yet. -/
theorem set_of_notMem {done : List (Bytes × Value)} {k : Bytes} {v : Value}
    (fresh : k ∉ done.map Prod.fst) : Object.set ⟨done⟩ k v = ⟨done ++ [(k, v)]⟩ := by
  have appends : Object.setIn k v done = done ++ [(k, v)] := by
    induction done with
    | nil => rfl
    | cons field done inductionHypothesis =>
        obtain ⟨k', v'⟩ := field
        simp only [List.map_cons, List.mem_cons, not_or] at fresh
        rw [Object.setIn, if_neg (Ne.symm fresh.1), inductionHypothesis fresh.2]
        rfl
  rw [Object.set, appends]

/-- Fields with different names are collected as they are. -/
theorem collect_of_nodup {fields : List (Bytes × Value)}
    (distinct : (fields.map Prod.fst).Nodup) : collect fields = ⟨fields⟩ := by
  have more (fields done : List (Bytes × Value))
      (distinct : ((done ++ fields).map Prod.fst).Nodup) :
      fields.foldl (fun (o : Object) field => o.set field.1 field.2) ⟨done⟩ = ⟨done ++ fields⟩ := by
    induction fields generalizing done with
    | nil => simp
    | cons field fields inductionHypothesis =>
        have fresh : field.1 ∉ done.map Prod.fst := by
          simp only [List.map_append, List.map_cons, List.nodup_append] at distinct
          intro there
          exact distinct.2.2 field.1 there field.1 (List.mem_cons_self ..) rfl
        rw [List.foldl_cons, set_of_notMem fresh, inductionHypothesis _ (by simpa using distinct)]
        simp
  exact more fields [] (by simpa using distinct)

/-- A name, a colon and a value without white space. -/
theorem member_quote {t : Bytes} {v : Value} (k : Bytes) (denotes : Denotes t v) :
    Member (quote k ++ 58 :: t) (k, v) := by
  have none : Blank [] := List.forall_mem_nil _
  have member := Member.pair none (chars_escapeString k) none none denotes none
  simpa [quote] using member

mutual

/-- The text of a value denotes it. -/
theorem denotes_serializeValue (v : Value) (plain : v.Plain) : Denotes (serializeValue v) v := by
  cases v with
  | str s => exact .str (chars_escapeString s)
  | num n => exact .num (number_toDecimal n)
  | list items =>
      by_cases empty : items = []
      · subst empty
        exact .emptyList (w := []) (List.forall_mem_nil _)
      · exact .list (items_serializeItems items plain empty)
  | obj fields =>
      by_cases empty : fields = []
      · subst empty
        exact .emptyObj (w := []) (List.forall_mem_nil _)
      · have denotes := Denotes.obj (members_serializeFields fields plain.2 empty)
        rwa [collect_of_nodup plain.1] at denotes
  | nullObj => exact plain.elim

theorem items_serializeItems (items : List Value) (plain : PlainItems items)
    (nonempty : items ≠ []) : Items (serializeItems items) items := by
  have none : Blank [] := List.forall_mem_nil _
  match items with
  | [] => exact absurd rfl nonempty
  | [item] =>
      have last := Items.last none (denotes_serializeValue item plain.1) none
      rwa [List.append_nil] at last
  | item :: next :: items =>
      have others := items_serializeItems (next :: items) plain.2 (by simp)
      exact .cons none (denotes_serializeValue item plain.1) none others

theorem members_serializeFields (fields : List (Bytes × Value)) (plain : PlainFields fields)
    (nonempty : fields ≠ []) : Members (serializeFields fields) fields := by
  match fields with
  | [] => exact absurd rfl nonempty
  | [(k, v)] => exact .last (member_quote k (denotes_serializeValue v plain.1))
  | (k, v) :: next :: fields =>
      have others := members_serializeFields (next :: fields) plain.2 (by simp)
      have all := Members.cons (member_quote k (denotes_serializeValue v plain.1)) others
      simpa [serializeFields] using all

end

/-- An object whose fields are plain is read back from its text. -/
theorem parse_serialize_of_plain {o : Object} (plain : Value.Plain (.obj o.fields)) :
    parse (serialize o) = .ok o := by
  have none : Blank [] := List.forall_mem_nil _
  have document := Document.object none (denotes_serializeValue (.obj o.fields) plain) none
  rw [List.nil_append, List.append_nil] at document
  rw [serialize, parse_of_document document, Object.wrapped_of_range (Value.Plain.range plain)]

/-! ## Objects built up field by field -/

mutual

/-- What `set` and its variants build up from the empty object. -/
inductive Object.Built : Object → Prop where
  | empty : Object.Built {}
  | set {o : Object} {k : Bytes} {v : Value} :
      Object.Built o → Value.Built v → Object.Built (o.set k v)

/-- A value that may be set: an object value holds an object. -/
inductive Value.Built : Value → Prop where
  | str {s : Bytes} : Value.Built (.str s)
  | num {n : Int} : -(2 ^ 63 - 1) ≤ n → n ≤ 2 ^ 63 - 1 → Value.Built (.num n)
  | list {items : List Value} : (∀ item ∈ items, Value.Built item) → Value.Built (.list items)
  | obj {o : Object} : Object.Built o → Value.Built (.obj o.fields)

end

namespace Object.Built

variable {o : Object} {k : Bytes}

theorem setStr {s : Bytes} (built : o.Built) : (o.setStr k s).Built := built.set .str

theorem setNum {n : Int} (built : o.Built) (low : -(2 ^ 63 - 1) ≤ n) (high : n ≤ 2 ^ 63 - 1) :
    (o.setNum k n).Built := built.set (.num low high)

theorem setList {l : List Bytes} (built : o.Built) : (o.setList k l).Built := by
  apply built.set
  apply Value.Built.list
  intro item membership
  obtain ⟨s, -, rfl⟩ := List.mem_map.mp membership
  exact .str

theorem setObjs {objs : List Object} (built : o.Built) (items : ∀ item ∈ objs, item.Built) :
    (o.setObjs k objs).Built := by
  apply built.set
  apply Value.Built.list
  intro item membership
  obtain ⟨object, among, rfl⟩ := List.mem_map.mp membership
  exact .obj (items object among)

end Object.Built

theorem plainItems_of_forall {items : List Value} (plain : ∀ item ∈ items, item.Plain) :
    PlainItems items := by
  induction items with
  | nil => trivial
  | cons item items inductionHypothesis =>
      exact ⟨plain item (List.mem_cons_self ..),
        inductionHypothesis fun other among => plain other (List.mem_cons_of_mem _ among)⟩

theorem keys_setIn (k : Bytes) (v : Value) (fields : List (Bytes × Value)) (k' : Bytes) :
    k' ∈ (Object.setIn k v fields).map Prod.fst ↔ k' = k ∨ k' ∈ fields.map Prod.fst := by
  induction fields with
  | nil => simp [Object.setIn]
  | cons field fields inductionHypothesis =>
      unfold Object.setIn
      split
      next same =>
        subst same
        simp
      next => simp only [List.map_cons, List.mem_cons, inductionHypothesis, or_left_comm]

/-- Setting a plain value keeps the field names apart and the values plain. -/
theorem plain_setIn {k : Bytes} {v : Value} {fields : List (Bytes × Value)}
    (plain : Value.Plain (.obj fields)) (value : v.Plain) :
    Value.Plain (.obj (Object.setIn k v fields)) := by
  induction fields with
  | nil => exact ⟨List.nodup_singleton k, value, trivial⟩
  | cons field fields inductionHypothesis =>
      obtain ⟨k', v'⟩ := field
      obtain ⟨distinct, first, others⟩ := plain
      unfold Object.setIn
      split
      · exact ⟨distinct, value, others⟩
      next differs =>
        obtain ⟨apart, distinct⟩ := List.nodup_cons.mp distinct
        obtain ⟨distinct', others'⟩ := inductionHypothesis ⟨distinct, others⟩
        refine ⟨List.nodup_cons.mpr ⟨?_, distinct'⟩, first, others'⟩
        intro among
        rcases (keys_setIn k v fields k').mp among with same | among
        · exact differs same
        · exact apart among

mutual

theorem Object.Built.plain {o : Object} : o.Built → Value.Plain (.obj o.fields)
  | .empty => ⟨List.nodup_nil, trivial⟩
  | .set before value => plain_setIn before.plain value.plain

theorem Value.Built.plain {v : Value} : v.Built → v.Plain
  | .str => trivial
  | .num low high => ⟨by omega, by omega⟩
  | .list items => plainItems_of_forall fun item among => (items item among).plain
  | .obj object => object.plain

end

/-- An object that was built up field by field is read back from its text. -/
theorem parse_serialize_of_built {o : Object} (built : o.Built) : parse (serialize o) = .ok o :=
  parse_serialize_of_plain built.plain

/-- A text with a quote, a control byte and a byte behind ASCII, the least number, and a
list that mixes a text, a number and an object that holds a list of objects. -/
theorem parse_serialize_of_built_nested :
    let inner := (({} : Object).setStr [34] [92, 0, 200]).setNum [] (-(2 ^ 63 - 1))
    let outer := (({} : Object).setObjs [107] [inner, {}]).set [10]
      (.list [.str [34], .num 7, .obj inner.fields])
    parse (serialize outer) = .ok outer := by
  intro inner outer
  have built : inner.Built :=
    Object.Built.setNum (Object.Built.setStr .empty) (by decide) (by decide)
  apply parse_serialize_of_built
  apply Object.Built.set
  · apply Object.Built.setObjs .empty
    intro item among
    rcases List.mem_pair.mp among with rfl | rfl
    · exact built
    · exact .empty
  · apply Value.Built.list
    intro item among
    rcases List.mem_cons.mp among with rfl | among
    · exact .str
    rcases List.mem_pair.mp among with rfl | rfl
    · exact .num (by decide) (by decide)
    · exact .obj built

end OnlineChat.MiniJson
