import OnlineChat.MiniJson.RoundTrip
import OnlineChat.SeqDeduper

/-!
# Numbers that do not fit

`parse_number` accumulates the digits of a literal without a check.  Its values stay in the
range of a `long long` exactly for integer parts below 2^63.  Other literals are accepted too
and count modulo 2^64, so that messages with different numbers may share a dedup key.
-/

namespace OnlineChat.MiniJson

variable {t u w : Bytes} {v : Value} {o : Object} {n : Int} {ls : List Bytes}

/-! ## The literals of a text -/

/-- The integer part of a literal. -/
def integerPart : Bytes → Int
  | 45 :: u => -ofDecimalNat (u.takeWhile isDigit)
  | u => ofDecimalNat (u.takeWhile isDigit)

mutual

/-- The grammar of values, with all number literals of the text, also those of members that
do not count. -/
inductive Spells : Bytes → Value → List Bytes → Prop where
  | str {t s : Bytes} : Chars t s → Spells (34 :: (t ++ [34])) (.str s) []
  | num {t : Bytes} {n : Int} : Number t n → Spells t (.num n) [t]
  | null : Spells [110, 117, 108, 108] (.str []) []
  | emptyList {w : Bytes} : Blank w → Spells (91 :: (w ++ [93])) (.list []) []
  | list {t : Bytes} {items : List Value} {ls : List Bytes} : SpellsItems t items ls →
      Spells (91 :: (t ++ [93])) (.list items) ls
  | emptyObj {w : Bytes} : Blank w → Spells (123 :: (w ++ [125])) (.obj []) []
  | obj {t : Bytes} {members : List (Bytes × Value)} {ls : List Bytes} :
      SpellsMembers t members ls → Spells (123 :: (t ++ [125])) (.obj (collect members).fields) ls

inductive SpellsItems : Bytes → List Value → List Bytes → Prop where
  | last {w t w' : Bytes} {v : Value} {ls : List Bytes} : Blank w → Spells t v ls → Blank w' →
      SpellsItems (w ++ (t ++ w')) [v] ls
  | cons {w t w' t' : Bytes} {v : Value} {items : List Value} {ls ls' : List Bytes} : Blank w →
      Spells t v ls → Blank w' → SpellsItems t' items ls' →
      SpellsItems (w ++ (t ++ (w' ++ 44 :: t'))) (v :: items) (ls ++ ls')

inductive SpellsMembers : Bytes → List (Bytes × Value) → List Bytes → Prop where
  | last {t : Bytes} {member : Bytes × Value} {ls : List Bytes} : SpellsMember t member ls →
      SpellsMembers t [member] ls
  | cons {t t' : Bytes} {member : Bytes × Value} {members : List (Bytes × Value)}
      {ls ls' : List Bytes} : SpellsMember t member ls → SpellsMembers t' members ls' →
      SpellsMembers (t ++ 44 :: t') (member :: members) (ls ++ ls')

inductive SpellsMember : Bytes → Bytes × Value → List Bytes → Prop where
  | pair {w₁ k s w₂ w₃ t w₄ : Bytes} {v : Value} {ls : List Bytes} : Blank w₁ → Chars k s →
      Blank w₂ → Blank w₃ → Spells t v ls → Blank w₄ →
      SpellsMember (w₁ ++ 34 :: (k ++ 34 :: (w₂ ++ 58 :: (w₃ ++ (t ++ w₄))))) (s, v) ls

end

/-- A text, the object that it denotes and its number literals. -/
inductive Spelling : Bytes → Object → List Bytes → Prop where
  | object {w t w' : Bytes} {o : Object} {ls : List Bytes} : Blank w →
      Spells t (.obj o.fields) ls → Blank w' → Spelling (w ++ (t ++ w')) o ls

mutual

theorem exists_spells {t : Bytes} {v : Value} : Denotes t v → ∃ ls, Spells t v ls
  | .str chars => ⟨[], .str chars⟩
  | .num number => ⟨[_], .num number⟩
  | .null => ⟨[], .null⟩
  | .emptyList blank => ⟨[], .emptyList blank⟩
  | .list items => (exists_spellsItems items).imp fun _ => .list
  | .emptyObj blank => ⟨[], .emptyObj blank⟩
  | .obj members => (exists_spellsMembers members).imp fun _ => .obj

theorem exists_spellsItems {t : Bytes} {items : List Value} :
    Items t items → ∃ ls, SpellsItems t items ls
  | .last blank denotes blank' => (exists_spells denotes).imp fun _ spells => .last blank spells blank'
  | .cons blank denotes blank' items => by
      obtain ⟨ls, spells⟩ := exists_spells denotes
      obtain ⟨ls', rest⟩ := exists_spellsItems items
      exact ⟨ls ++ ls', .cons blank spells blank' rest⟩

theorem exists_spellsMembers {t : Bytes} {members : List (Bytes × Value)} :
    Members t members → ∃ ls, SpellsMembers t members ls
  | .last member => (exists_spellsMember member).imp fun _ => .last
  | .cons member members => by
      obtain ⟨ls, first⟩ := exists_spellsMember member
      obtain ⟨ls', rest⟩ := exists_spellsMembers members
      exact ⟨ls ++ ls', .cons first rest⟩

theorem exists_spellsMember {t : Bytes} {member : Bytes × Value} :
    Member t member → ∃ ls, SpellsMember t member ls
  | .pair blank₁ chars blank₂ blank₃ denotes blank₄ =>
      (exists_spells denotes).imp fun _ spells => .pair blank₁ chars blank₂ blank₃ spells blank₄

end

/-- Every literal is a number, and every number has its literal. -/
structure Covers (ls : List Bytes) (ns : List Int) : Prop where
  literals : ∀ u ∈ ls, ∃ n, Number u n
  numbers : ∀ n ∈ ns, ∃ u ∈ ls, Number u n

theorem covers_nil : Covers [] [] := ⟨nofun, nofun⟩

theorem Covers.append {ls' : List Bytes} {ns ns' : List Int} (covers : Covers ls ns)
    (covers' : Covers ls' ns') : Covers (ls ++ ls') (ns ++ ns') := by
  refine ⟨List.forall_mem_append.mpr ⟨covers.literals, covers'.literals⟩,
    List.forall_mem_append.mpr ⟨?_, ?_⟩⟩
  · intro n there
    obtain ⟨u, listed, number⟩ := covers.numbers n there
    exact ⟨u, List.mem_append_left _ listed, number⟩
  · intro n there
    obtain ⟨u, listed, number⟩ := covers'.numbers n there
    exact ⟨u, List.mem_append_right _ listed, number⟩

theorem mem_numbers_setIn {k : Bytes} {fields : List (Bytes × Value)}
    (there : n ∈ numbersOfFields (Object.setIn k v fields)) :
    n ∈ v.numbers ∨ n ∈ numbersOfFields fields := by
  induction fields with
  | nil => simpa [Object.setIn, numbersOfFields] using there
  | cons field fields inductionHypothesis =>
      obtain ⟨k', v'⟩ := field
      unfold Object.setIn at there
      split at there
      · rcases List.mem_append.mp there with new | later
        · exact .inl new
        · exact .inr (List.mem_append_right _ later)
      · rcases List.mem_append.mp there with old | later
        · exact .inr (List.mem_append_left _ old)
        · exact (inductionHypothesis later).imp_right (List.mem_append_right _)

/-- The numbers of an object are among those of its members. -/
theorem mem_numbers_collect {members : List (Bytes × Value)} (o : Object)
    (there : n ∈ numbersOfFields
      (members.foldl (fun o member => o.set member.1 member.2) o).fields) :
    n ∈ numbersOfFields o.fields ∨ n ∈ numbersOfFields members := by
  induction members generalizing o with
  | nil => exact .inl there
  | cons member members inductionHypothesis =>
      rcases inductionHypothesis _ there with set | later
      · rcases mem_numbers_setIn set with new | old
        · exact .inr (List.mem_append_left _ new)
        · exact .inl old
      · exact .inr (List.mem_append_right _ later)

mutual

theorem denotes_of_spells {t : Bytes} {v : Value} {ls : List Bytes} :
    Spells t v ls → Denotes t v ∧ Covers ls v.numbers
  | .str chars => ⟨.str chars, covers_nil⟩
  | .num number => ⟨.num number, List.forall_mem_singleton.mpr ⟨_, number⟩,
      List.forall_mem_singleton.mpr ⟨_, List.mem_singleton_self _, number⟩⟩
  | .null => ⟨.null, covers_nil⟩
  | .emptyList blank => ⟨.emptyList blank, covers_nil⟩
  | .list spells => (items_of_spells spells).imp_left .list
  | .emptyObj blank => ⟨.emptyObj blank, covers_nil⟩
  | .obj spells => by
      obtain ⟨members, covers⟩ := members_of_spells spells
      refine ⟨.obj members, covers.literals, fun n there => covers.numbers n ?_⟩
      exact (mem_numbers_collect {} there).resolve_left nofun

theorem items_of_spells {t : Bytes} {items : List Value} {ls : List Bytes} :
    SpellsItems t items ls → Items t items ∧ Covers ls (numbersOfItems items)
  | .last blank spells blank' => by
      obtain ⟨denotes, covers⟩ := denotes_of_spells spells
      refine ⟨.last blank denotes blank', ?_⟩
      rw [numbersOfItems, numbersOfItems, List.append_nil]
      exact covers
  | .cons blank spells blank' rest => by
      obtain ⟨denotes, covers⟩ := denotes_of_spells spells
      obtain ⟨items, covers'⟩ := items_of_spells rest
      exact ⟨.cons blank denotes blank' items, covers.append covers'⟩

theorem members_of_spells {t : Bytes} {members : List (Bytes × Value)} {ls : List Bytes} :
    SpellsMembers t members ls → Members t members ∧ Covers ls (numbersOfFields members)
  | @SpellsMembers.last _ member _ spells => by
      obtain ⟨first, covers⟩ := member_of_spells spells
      refine ⟨.last first, ?_⟩
      rw [numbersOfFields, numbersOfFields, List.append_nil]
      exact covers
  | @SpellsMembers.cons _ _ member members _ _ spells rest => by
      obtain ⟨first, covers⟩ := member_of_spells spells
      obtain ⟨others, covers'⟩ := members_of_spells rest
      exact ⟨.cons first others, covers.append covers'⟩

theorem member_of_spells {t : Bytes} {member : Bytes × Value} {ls : List Bytes} :
    SpellsMember t member ls → Member t member ∧ Covers ls member.2.numbers
  | .pair blank₁ chars blank₂ blank₃ spells blank₄ => by
      obtain ⟨denotes, covers⟩ := denotes_of_spells spells
      exact ⟨.pair blank₁ chars blank₂ blank₃ denotes blank₄, covers⟩

end

theorem Spelling.document (spelling : Spelling t o ls) :
    Document t o ∧ Covers ls (numbersOfFields o.fields) := by
  obtain ⟨blank, spells, blank'⟩ := spelling
  obtain ⟨denotes, covers⟩ := denotes_of_spells spells
  exact ⟨.object blank denotes blank', covers⟩

theorem exists_spelling (document : Document t o) : ∃ ls, Spelling t o ls := by
  obtain ⟨blank, denotes, blank'⟩ := document
  obtain ⟨ls, spells⟩ := exists_spells denotes
  exact ⟨ls, .object blank spells blank'⟩

/-- The texts that are accepted are those that are spelled, whatever their numbers. -/
theorem accepted_iff : (∃ o, parse t = .ok o) ↔ ∃ o ls, Spelling t o ls := by
  rw [(parse_iff t).1]
  constructor
  · rintro ⟨o, document⟩
    exact ⟨o, exists_spelling document⟩
  · rintro ⟨o, ls, spelling⟩
    exact ⟨o, spelling.document.1⟩

/-- The digits of a literal behind its sign. -/
theorem takeWhile_number {d f x : Bytes} (digits : Digits d) (fraction : Fraction f)
    (exponent : Exponent x) : (d ++ (f ++ x)).takeWhile isDigit = d := by
  have nothing : Closes [] := nofun
  have stops := stops_fraction fraction exponent nothing
  rw [List.append_nil] at stops
  exact takeWhile_of_stops digits stops

/-- A literal that starts with a digit has no sign. -/
theorem unsigned_of_digits {d u tail : Bytes} (nonempty : d ≠ []) (digits : Digits d) :
    d ++ u ≠ 45 :: tail := by
  obtain ⟨b, d', rfl⟩ := List.exists_cons_of_ne_nil nonempty
  intro same
  obtain ⟨rfl, -⟩ := List.cons.inj same
  cases digits 45 (List.mem_cons_self ..)

theorem integerPart_of_number (number : Number u n) : integerPart u = n := by
  cases number with
  | plus nonempty digits fraction exponent =>
      rw [integerPart, takeWhile_number digits fraction exponent]
      exact fun _ => unsigned_of_digits nonempty digits
  | minus nonempty digits fraction exponent =>
      rw [integerPart, takeWhile_number digits fraction exponent]

/-! ## The values of the loop -/

/-- The values that the loop of `parse_number` goes through from `v` on, as integers. -/
def loopValues (v : Int) : Bytes → List Int
  | [] => []
  | b :: digits =>
      let next := v * 10 + (b.toNat - 48 : Nat)
      v * 10 :: next :: loopValues next digits

/-- All values that `parse_number` computes for a literal, with the sign at the end. -/
def numberValues : Bytes → List Int
  | 45 :: u => loopValues 0 (u.takeWhile isDigit) ++ [-(ofDecimalNat (u.takeWhile isDigit) : Int)]
  | u => loopValues 0 (u.takeWhile isDigit)

/-- A `long long` holds the value. -/
def Fits (x : Int) : Prop := -2 ^ 63 ≤ x ∧ x < 2 ^ 63

/-- The digits are accumulated from `v` on. -/
def accumulated (v : Nat) (digits : Bytes) : Nat :=
  digits.foldl (fun v b => v * 10 + (b.toNat - 48)) v

theorem accumulated_zero (digits : Bytes) : accumulated 0 digits = ofDecimalNat digits := by
  induction digits using List.reverseRecOn with
  | nil => rfl
  | append_singleton digits b inductionHypothesis =>
      rw [ofDecimalNat_concat, ← inductionHypothesis, accumulated, List.foldl_append]
      rfl

theorem le_accumulated (v : Nat) (digits : Bytes) : v ≤ accumulated v digits := by
  induction digits generalizing v with
  | nil => exact le_rfl
  | cons b digits inductionHypothesis =>
      have later := inductionHypothesis (v * 10 + (b.toNat - 48))
      exact le_trans (by omega) later

/-- The values grow, so that all fit when the last one does. -/
theorem fits_loopValues_iff {v : Nat} (small : v < 2 ^ 63) (digits : Bytes) :
    (∀ x ∈ loopValues v digits, Fits x) ↔ accumulated v digits < 2 ^ 63 := by
  induction digits generalizing v with
  | nil => exact iff_of_true nofun small
  | cons b digits inductionHypothesis =>
      have grows := le_accumulated (v * 10 + (b.toNat - 48)) digits
      have next : (v : Int) * 10 + (b.toNat - 48 : Nat) = (v * 10 + (b.toNat - 48) : Nat) := by
        push_cast
        rfl
      have values : loopValues v (b :: digits) = (v : Int) * 10 ::
          ((v * 10 + (b.toNat - 48) : Nat) : Int) ::
            loopValues ((v * 10 + (b.toNat - 48) : Nat) : Int) digits := by
        rw [← next]
        rfl
      have whole : accumulated v (b :: digits) = accumulated (v * 10 + (b.toNat - 48)) digits := rfl
      rw [values, whole]
      constructor
      · intro fits
        obtain ⟨-, top⟩ := fits _ (List.mem_cons_of_mem _ (List.mem_cons_self ..))
        refine (inductionHypothesis (by omega)).mp fun x there => fits x ?_
        exact List.mem_cons_of_mem _ (List.mem_cons_of_mem _ there)
      · intro fits
        have later := (inductionHypothesis (by omega)).mpr fits
        refine List.forall_mem_cons.mpr ⟨⟨by omega, by omega⟩,
          List.forall_mem_cons.mpr ⟨⟨by omega, by omega⟩, later⟩⟩

/-- All values of a literal fit exactly when its integer part is below 2^63. -/
theorem fits_numberValues_iff (number : Number u n) :
    (∀ x ∈ numberValues u, Fits x) ↔ -2 ^ 63 < n ∧ n < 2 ^ 63 := by
  have loop (digits : Bytes) : (∀ x ∈ loopValues 0 digits, Fits x) ↔ ofDecimalNat digits < 2 ^ 63 := by
    rw [← accumulated_zero]
    exact fits_loopValues_iff (v := 0) (by decide) digits
  cases number with
  | @plus d f x nonempty digits fraction exponent =>
      rw [numberValues, takeWhile_number digits fraction exponent, loop]
      · omega
      · exact fun _ => unsigned_of_digits nonempty digits
  | @minus d f x nonempty digits fraction exponent =>
      rw [numberValues, takeWhile_number digits fraction exponent, List.forall_mem_append, loop,
        List.forall_mem_singleton]
      unfold Fits
      omega

/-! ## The numbers of a result -/

theorem wrap64_eq_iff {m n : Int} : wrap64 m = wrap64 n ↔ m % 2 ^ 64 = n % 2 ^ 64 := by
  unfold wrap64
  omega

theorem getNum_wrapped (o : Object) (k : Bytes) : o.wrapped.getNum k = wrap64 (o.getNum k) := by
  obtain ⟨fields⟩ := o
  induction fields with
  | nil => rfl
  | cons field fields inductionHypothesis =>
      obtain ⟨k', v⟩ := field
      cases v with
      | num n =>
          by_cases same : k' = k
          · simp [Object.wrapped, Object.getNum, wrappedFields, Value.wrapped, same]
          · simpa [Object.wrapped, Object.getNum, wrappedFields, Value.wrapped, same]
              using inductionHypothesis
      | _ => exact inductionHypothesis

/-- The result has the numbers of the text, and nothing that is computed leaves the range of
a `long long`. -/
structure NeverWraps (t : Bytes) (o : Object) (ls : List Bytes) : Prop where
  result : parse t = .ok o
  values : ∀ u ∈ ls, ∀ x ∈ numberValues u, Fits x

theorem neverWraps_iff (spelling : Spelling t o ls) :
    NeverWraps t o ls ↔ ∀ u ∈ ls, -2 ^ 63 < integerPart u ∧ integerPart u < 2 ^ 63 := by
  obtain ⟨document, covers⟩ := spelling.document
  constructor
  · intro exact' u listed
    obtain ⟨n, number⟩ := covers.literals u listed
    rw [integerPart_of_number number]
    exact (fits_numberValues_iff number).mp (exact'.values u listed)
  · intro small
    constructor
    · refine (parse_iff t).2 o document fun n there => ?_
      obtain ⟨u, listed, number⟩ := covers.numbers n there
      exact integerPart_of_number number ▸ small u listed
    · intro u listed
      obtain ⟨n, number⟩ := covers.literals u listed
      exact (fits_numberValues_iff number).mpr (integerPart_of_number number ▸ small u listed)

theorem getNum_of_parse {r : Object} (spelling : Spelling t o ls) (ok : parse t = .ok r)
    (k : Bytes) : r.getNum k = wrap64 (o.getNum k) := by
  obtain rfl := Except.ok.inj (ok.symm.trans (parse_of_document spelling.document.1))
  exact getNum_wrapped o k

/-- A text is accepted when it is one of the grammar, however large its numbers.  They are kept
exactly when no literal is out of range, and frames share a dedup key exactly when their
numbers agree modulo 2^64. -/
theorem neverWraps_iff_small (t : Bytes) :
    ((∃ r, parse t = .ok r) ↔ ∃ o ls, Spelling t o ls) ∧
    (∀ o ls, Spelling t o ls →
      (NeverWraps t o ls ↔ ∀ u ∈ ls, -2 ^ 63 < integerPart u ∧ integerPart u < 2 ^ 63)) ∧
    ∀ user o ls r t' o' ls' r', Spelling t o ls → parse t = .ok r →
      Spelling t' o' ls' → parse t' = .ok r' →
      (SeqDeduper.key user (r.getNum (bytes "seq")) =
          SeqDeduper.key user (r'.getNum (bytes "seq")) ↔
        o.getNum (bytes "seq") % 2 ^ 64 = o'.getNum (bytes "seq") % 2 ^ 64) := by
  refine ⟨accepted_iff, fun o ls => neverWraps_iff, ?_⟩
  intro user o ls r t' o' ls' r' spelling ok spelling' ok'
  rw [SeqDeduper.key_inj, getNum_of_parse spelling ok, getNum_of_parse spelling' ok', wrap64_eq_iff]
  exact and_iff_right rfl

/-! ## Two frames with one key -/

namespace Demo

/-- A MESSAGE frame with that literal. -/
def seqText (seq : String) : Bytes :=
  bytes ("\x7b\"type\":\"MESSAGE\",\"to\":\"ALL\",\"content\":\"a\",\"seq\":" ++ seq ++ "\x7d")

def seqFrame (seq : Int) : Object :=
  ⟨[(bytes "type", .str (bytes "MESSAGE")), (bytes "to", .str (bytes "ALL")),
    (bytes "content", .str (bytes "a")), (bytes "seq", .num seq)]⟩

theorem document_seqFrame (seq : Int) : Document (serialize (seqFrame seq)) (seqFrame seq) := by
  have none : Blank [] := List.forall_mem_nil _
  have text (key value : String) : Member (quote (bytes key) ++ 58 :: quote (bytes value))
      (bytes key, .str (bytes value)) := member_quote _ (.str (chars_escapeString _))
  have number := member_quote (bytes "seq") (Denotes.num (number_toDecimal seq))
  have members := Members.cons (text "type" "MESSAGE") (.cons (text "to" "ALL")
    (.cons (text "content" "a") (.last number)))
  have names : [bytes "type", bytes "to", bytes "content", bytes "seq"].Nodup := by
    decide +kernel
  have distinct : ((seqFrame seq).fields.map Prod.fst).Nodup := names
  have denotes : Denotes _ (.obj (collect (seqFrame seq).fields).fields) := .obj members
  rw [collect_of_nodup distinct] at denotes
  have document := Document.object none denotes none
  simpa [serialize, serializeValue, serializeFields, seqFrame] using document

end Demo

/-- Two frames with numbers that differ by 2^64 are read as the same. -/
theorem seq_wraps : ∃ o ls r o' ls' r',
    Spelling (Demo.seqText "18446744073709551617") o ls ∧
    Spelling (Demo.seqText "1") o' ls' ∧
    o.getNum (bytes "seq") = 18446744073709551617 ∧ o'.getNum (bytes "seq") = 1 ∧
    parse (Demo.seqText "18446744073709551617") = .ok r ∧ parse (Demo.seqText "1") = .ok r' ∧
    r.getNum (bytes "seq") = 1 ∧ ¬ NeverWraps (Demo.seqText "18446744073709551617") o ls ∧
    ∀ user, SeqDeduper.key user (r.getNum (bytes "seq")) =
      SeqDeduper.key user (r'.getNum (bytes "seq")) := by
  have large : Demo.seqText "18446744073709551617" =
      serialize (Demo.seqFrame 18446744073709551617) := by decide +kernel
  have small : Demo.seqText "1" = serialize (Demo.seqFrame 1) := by decide +kernel
  have document := Demo.document_seqFrame 18446744073709551617
  have document' := Demo.document_seqFrame 1
  rw [large, small]
  obtain ⟨ls, spelling⟩ := exists_spelling document
  obtain ⟨ls', spelling'⟩ := exists_spelling document'
  have ok := parse_of_document document
  have ok' := parse_of_document document'
  refine ⟨_, ls, _, _, ls', _, spelling, spelling', by decide +kernel, by decide +kernel, ok, ok',
    by decide +kernel, ?_, fun user => congrArg (SeqDeduper.key user) (by decide +kernel)⟩
  intro exact'
  have same := congrArg (Object.getNum · (bytes "seq"))
    (Except.ok.inj (exact'.result.symm.trans ok))
  revert same
  decide +kernel

/-- A frame whose number is in range. -/
theorem neverWraps_iff_small_seven : ∃ o ls, Spelling (Demo.seqText "7") o ls ∧
    (NeverWraps (Demo.seqText "7") o ls ↔
      ∀ u ∈ ls, -2 ^ 63 < integerPart u ∧ integerPart u < 2 ^ 63) := by
  have text : Demo.seqText "7" = serialize (Demo.seqFrame 7) := by decide +kernel
  rw [text]
  obtain ⟨ls, spelling⟩ := exists_spelling (Demo.document_seqFrame 7)
  exact ⟨_, ls, spelling, (neverWraps_iff_small _).2.1 _ _ spelling⟩

end OnlineChat.MiniJson
