import OnlineChat.MiniJson

/-!
# The language of the parser

Which texts stand for an object and for which, as a grammar, and that the parser accepts
exactly these texts.  The grammar knows no limit to numbers: the parser keeps them modulo
2^64.
-/

namespace OnlineChat.MiniJson

variable {t u rest : Bytes} {i j k fuel : Nat} {b : UInt8}

/-! ## The grammar -/

/-- White space. -/
def Blank (w : Bytes) : Prop := ∀ b ∈ w, isSpace b = true

instance (w : Bytes) : Decidable (Blank w) :=
  inferInstanceAs (Decidable (∀ b ∈ w, isSpace b = true))

/-- The digits of an escape, of either case. -/
inductive HexDigit : UInt8 → Nat → Prop where
  | decimal {d : Nat} : d < 10 → HexDigit (UInt8.ofNat (48 + d)) d
  | lower {d : Nat} : d < 6 → HexDigit (UInt8.ofNat (97 + d)) (10 + d)
  | upper {d : Nat} : d < 6 → HexDigit (UInt8.ofNat (65 + d)) (10 + d)

/-- Four digits and the code unit that they denote. -/
inductive CodeUnit : Bytes → Nat → Prop where
  | digits {a b c d : UInt8} {x y z w : Nat} : HexDigit a x → HexDigit b y → HexDigit c z →
      HexDigit d w → CodeUnit [a, b, c, d] (x * 4096 + y * 256 + z * 16 + w)

/-- The UTF-8 bytes of a code point. -/
def utf8 (cp : Nat) : Bytes := String.utf8EncodeChar (Char.ofNat cp)

/-- One character of a string literal and the bytes that it denotes: a byte that is neither
a control byte nor a quote nor a backslash, a short escape, the escape of a code unit that
is no surrogate, or that of a high surrogate directly followed by that of a low one. -/
inductive Glyph : Bytes → Bytes → Prop where
  | byte {b : UInt8} : 32 ≤ b → b ≠ 34 → b ≠ 92 → Glyph [b] [b]
  | short {e b : UInt8} : shortEscape e = some b → Glyph [92, e] [b]
  | unit {x : Bytes} {n : Nat} : CodeUnit x n → n < 0xD800 ∨ 0xDFFF < n →
      Glyph (92 :: 117 :: x) (utf8 n)
  | pair {x y : Bytes} {hi lo : Nat} : CodeUnit x hi → 0xD800 ≤ hi → hi ≤ 0xDBFF →
      CodeUnit y lo → 0xDC00 ≤ lo → lo ≤ 0xDFFF →
      Glyph (92 :: 117 :: (x ++ 92 :: 117 :: y))
        (utf8 (0x10000 + (hi - 0xD800) * 1024 + (lo - 0xDC00)))

/-- The inside of a string literal and the bytes that it denotes. -/
inductive Chars : Bytes → Bytes → Prop where
  | nil : Chars [] []
  | cons {g s t s' : Bytes} : Glyph g s → Chars t s' → Chars (g ++ t) (s ++ s')

/-- Any number of digits. -/
def Digits (t : Bytes) : Prop := ∀ b ∈ t, isDigit b = true

instance (t : Bytes) : Decidable (Digits t) :=
  inferInstanceAs (Decidable (∀ b ∈ t, isDigit b = true))

inductive Fraction : Bytes → Prop where
  | none : Fraction []
  | digits {t : Bytes} : Digits t → Fraction (46 :: t)

inductive Exponent : Bytes → Prop where
  | none : Exponent []
  | digits {e : UInt8} {t : Bytes} : e = 101 ∨ e = 69 → Digits t → Exponent (e :: t)
  | signed {e s : UInt8} {t : Bytes} : e = 101 ∨ e = 69 → s = 43 ∨ s = 45 → Digits t →
      Exponent (e :: s :: t)

/-- A number and its integer part. -/
inductive Number : Bytes → Int → Prop where
  | plus {d f x : Bytes} : d ≠ [] → Digits d → Fraction f → Exponent x →
      Number (d ++ (f ++ x)) (ofDecimalNat d)
  | minus {d f x : Bytes} : d ≠ [] → Digits d → Fraction f → Exponent x →
      Number (45 :: (d ++ (f ++ x))) (-ofDecimalNat d)

/-- The object of these members: of two with the same name the last one counts. -/
def collect (members : List (Bytes × Value)) : Object :=
  members.foldl (fun o member => o.set member.1 member.2) {}

mutual

/-- A text without white space around it, and the value that it denotes. -/
inductive Denotes : Bytes → Value → Prop where
  | str {t s : Bytes} : Chars t s → Denotes (34 :: (t ++ [34])) (.str s)
  | num {t : Bytes} {n : Int} : Number t n → Denotes t (.num n)
  | null : Denotes [110, 117, 108, 108] (.str [])
  | emptyList {w : Bytes} : Blank w → Denotes (91 :: (w ++ [93])) (.list [])
  | list {t : Bytes} {items : List Value} : Items t items →
      Denotes (91 :: (t ++ [93])) (.list items)
  | emptyObj {w : Bytes} : Blank w → Denotes (123 :: (w ++ [125])) (.obj [])
  | obj {t : Bytes} {members : List (Bytes × Value)} : Members t members →
      Denotes (123 :: (t ++ [125])) (.obj (collect members).fields)

/-- Values with commas between them. -/
inductive Items : Bytes → List Value → Prop where
  | last {w t w' : Bytes} {v : Value} : Blank w → Denotes t v → Blank w' →
      Items (w ++ (t ++ w')) [v]
  | cons {w t w' t' : Bytes} {v : Value} {items : List Value} : Blank w → Denotes t v →
      Blank w' → Items t' items → Items (w ++ (t ++ (w' ++ 44 :: t'))) (v :: items)

/-- Members with commas between them. -/
inductive Members : Bytes → List (Bytes × Value) → Prop where
  | last {t : Bytes} {member : Bytes × Value} : Member t member → Members t [member]
  | cons {t t' : Bytes} {member : Bytes × Value} {members : List (Bytes × Value)} :
      Member t member → Members t' members → Members (t ++ 44 :: t') (member :: members)

/-- A name, a colon and a value. -/
inductive Member : Bytes → Bytes × Value → Prop where
  | pair {w₁ k s w₂ w₃ t w₄ : Bytes} {v : Value} : Blank w₁ → Chars k s → Blank w₂ → Blank w₃ →
      Denotes t v → Blank w₄ →
      Member (w₁ ++ 34 :: (k ++ 34 :: (w₂ ++ 58 :: (w₃ ++ (t ++ w₄))))) (s, v)

end

/-- An object with white space around it. -/
inductive Document : Bytes → Object → Prop where
  | object {w t w' : Bytes} {o : Object} : Blank w → Denotes t (.obj o.fields) → Blank w' →
      Document (w ++ (t ++ w')) o

/-! ## Numbers in a value -/

mutual

/-- The numbers that occur in a value. -/
def Value.numbers : Value → List Int
  | .num n => [n]
  | .str _ | .nullObj => []
  | .list items => numbersOfItems items
  | .obj fields => numbersOfFields fields

def numbersOfItems : List Value → List Int
  | [] => []
  | item :: items => item.numbers ++ numbersOfItems items

def numbersOfFields : List (Bytes × Value) → List Int
  | [] => []
  | (_, v) :: fields => v.numbers ++ numbersOfFields fields

end

mutual

/-- The value with its numbers as a `long long` holds them. -/
def Value.wrapped : Value → Value
  | .num n => .num (wrap64 n)
  | .str s => .str s
  | .nullObj => .nullObj
  | .list items => .list (wrappedItems items)
  | .obj fields => .obj (wrappedFields fields)

def wrappedItems : List Value → List Value
  | [] => []
  | item :: items => item.wrapped :: wrappedItems items

def wrappedFields : List (Bytes × Value) → List (Bytes × Value)
  | [] => []
  | (k, v) :: fields => (k, v.wrapped) :: wrappedFields fields

end

/-- Every number of the object is the integer part of a text below 2^63. -/
def Object.InRange (o : Object) : Prop :=
  ∀ n ∈ numbersOfFields o.fields, -2 ^ 63 < n ∧ n < 2 ^ 63

instance (o : Object) : Decidable o.InRange :=
  inferInstanceAs (Decidable (∀ n ∈ numbersOfFields o.fields, -2 ^ 63 < n ∧ n < 2 ^ 63))

def Object.wrapped (o : Object) : Object := ⟨wrappedFields o.fields⟩

theorem wrap64_of_range {n : Int} (low : -2 ^ 63 ≤ n) (high : n < 2 ^ 63) : wrap64 n = n := by
  unfold wrap64
  rw [Int.emod_eq_of_lt (by omega) (by omega)]
  omega

mutual

theorem Value.wrapped_of_range (v : Value)
    (range : ∀ n ∈ v.numbers, -2 ^ 63 < n ∧ n < 2 ^ 63) : v.wrapped = v := by
  cases v with
  | num n =>
      obtain ⟨low, high⟩ := range n (List.mem_singleton_self n)
      exact congrArg Value.num (wrap64_of_range low.le high)
  | str s => rfl
  | nullObj => rfl
  | list items => exact congrArg Value.list (wrappedItems_of_range items range)
  | obj fields => exact congrArg Value.obj (wrappedFields_of_range fields range)

theorem wrappedItems_of_range (items : List Value)
    (range : ∀ n ∈ numbersOfItems items, -2 ^ 63 < n ∧ n < 2 ^ 63) :
    wrappedItems items = items := by
  match items with
  | [] => rfl
  | item :: items =>
      rw [wrappedItems, item.wrapped_of_range fun n there => range n (List.mem_append_left _ there),
        wrappedItems_of_range items fun n there => range n (List.mem_append_right _ there)]

theorem wrappedFields_of_range (fields : List (Bytes × Value))
    (range : ∀ n ∈ numbersOfFields fields, -2 ^ 63 < n ∧ n < 2 ^ 63) :
    wrappedFields fields = fields := by
  match fields with
  | [] => rfl
  | (k, v) :: fields =>
      rw [wrappedFields, v.wrapped_of_range fun n there => range n (List.mem_append_left _ there),
        wrappedFields_of_range fields fun n there => range n (List.mem_append_right _ there)]

end

theorem Object.wrapped_of_range {o : Object} (range : o.InRange) : o.wrapped = o :=
  congrArg Object.mk (wrappedFields_of_range o.fields range)

theorem Object.wrapped_set (o : Object) (k : Bytes) (v : Value) :
    (o.set k v).wrapped = o.wrapped.set k v.wrapped := by
  have fields (entries : List (Bytes × Value)) : wrappedFields (Object.setIn k v entries) =
      Object.setIn k v.wrapped (wrappedFields entries) := by
    induction entries with
    | nil => rfl
    | cons entry entries inductionHypothesis =>
        obtain ⟨k', v'⟩ := entry
        by_cases same : k' = k
        · simp [Object.setIn, wrappedFields, same]
        · simp [Object.setIn, wrappedFields, same, inductionHypothesis]
  exact congrArg Object.mk (fields o.fields)

/-- Numbers may be wrapped before the members are collected. -/
theorem foldl_wrapped (members : List (Bytes × Value)) (o : Object) :
    (members.foldl (fun o member => o.set member.1 member.2) o).wrapped =
      members.foldl (fun o member => o.set member.1 member.2.wrapped) o.wrapped := by
  induction members generalizing o with
  | nil => rfl
  | cons member members inductionHypothesis =>
      rw [List.foldl_cons, List.foldl_cons, inductionHypothesis, Object.wrapped_set]

/-! ## At a position of the text -/

theorem getElem?_of_drop (here : t.drop i = b :: rest) : t[i]? = some b := by
  have first : (t.drop i)[0]? = some b := by rw [here]; rfl
  simpa using first

theorem lt_of_drop (here : t.drop i = b :: rest) : i < t.length := by
  by_contra out
  rw [List.drop_eq_nil_of_le (Nat.not_lt.mp out)] at here
  cases here

theorem byteAt_of_drop (here : t.drop i = b :: rest) : byteAt t i = .ok b := by
  simp [byteAt, getElem?_of_drop here]

theorem test_of_drop (here : t.drop i = b :: rest) (p : UInt8 → Bool) : test t i p = p b := by
  simp [test, getElem?_of_drop here]

theorem drop_add (here : t.drop i = u ++ rest) : t.drop (i + u.length) = rest := by
  rw [← List.drop_drop, here, List.drop_left]

theorem drop_succ (here : t.drop i = b :: rest) : t.drop (i + 1) = rest :=
  drop_add (u := [b]) here

theorem skipWs_of_drop (here : t.drop i = b :: rest) (solid : isSpace b = false) :
    skipWs t i = i := by
  simp [skipWs, skipWhile, here, countWhile, solid]

theorem drop_of_test {p : UInt8 → Bool} (holds : test t i p = true) :
    ∃ b, p b = true ∧ t.drop i = b :: t.drop (i + 1) := by
  unfold test at holds
  split at holds
  next b here =>
    obtain ⟨inside, rfl⟩ := List.getElem?_eq_some_iff.mp here
    exact ⟨t[i], holds, List.drop_eq_getElem_cons inside⟩
  next => cases holds

theorem drop_of_byteAt (here : byteAt t i = .ok b) : t.drop i = b :: t.drop (i + 1) := by
  obtain ⟨x, found, split⟩ := drop_of_test (t := t) (i := i) (p := (· = b)) (by
    unfold byteAt at here
    unfold test
    split at here
    · simpa using here
    · cases here)
  simpa [of_decide_eq_true found] using split

theorem bind_ok {α β : Type} (x : α) (f : α → Except Stop β) : (Except.ok x >>= f) = f x := rfl

/-- What a computation that succeeds has computed. -/
theorem bind_eq_ok {α β : Type} {x : Except Stop α} {f : α → Except Stop β} {r : β}
    (ok : x >>= f = .ok r) : ∃ a, x = .ok a ∧ f a = .ok r := by
  cases x with
  | error stop => cases ok
  | ok a => exact ⟨a, rfl, ok⟩

theorem countWhile_eq (p : UInt8 → Bool) (text : Bytes) :
    countWhile p text = (text.takeWhile p).length := by
  induction text with
  | nil => rfl
  | cons b text inductionHypothesis =>
      simp only [countWhile, List.takeWhile_cons]
      split <;> simp [inductionHypothesis]

theorem takeWhile_append_drop (p : UInt8 → Bool) (text : Bytes) :
    text.takeWhile p ++ text.drop (countWhile p text) = text := by
  induction text with
  | nil => rfl
  | cons b text inductionHypothesis =>
      simp only [countWhile, List.takeWhile_cons]
      split <;> simp [inductionHypothesis]

/-- `u` stands between the indices. -/
def Span (t : Bytes) (i j : Nat) (u : Bytes) : Prop := t.drop i = u ++ t.drop j

theorem Span.trans {v : Bytes} (first : Span t i j u) (second : Span t j k v) :
    Span t i k (u ++ v) := by
  unfold Span at first second ⊢
  rw [first, second, List.append_assoc]

theorem span_of_test {p : UInt8 → Bool} (holds : test t i p = true) :
    ∃ b, p b = true ∧ Span t i (i + 1) [b] := drop_of_test holds

theorem span_of_test_eq (holds : test t i (· = b) = true) : Span t i (i + 1) [b] := by
  obtain ⟨b', same, span⟩ := span_of_test holds
  exact of_decide_eq_true same ▸ span

theorem span_of_byteAt (here : byteAt t i = .ok b) : Span t i (i + 1) [b] := drop_of_byteAt here

theorem span_skipWhile (p : UInt8 → Bool) (t : Bytes) (i : Nat) :
    Span t i (skipWhile p t i) ((t.drop i).takeWhile p) := by
  rw [Span, skipWhile, ← List.drop_drop, takeWhile_append_drop]

theorem blank_takeWhile (text : Bytes) : Blank (text.takeWhile isSpace) :=
  fun _ there => List.mem_takeWhile_imp there

theorem digits_takeWhile (text : Bytes) : Digits (text.takeWhile isDigit) :=
  fun _ there => List.mem_takeWhile_imp there

theorem Blank.append {w w' : Bytes} (blank : Blank w) (blank' : Blank w') : Blank (w ++ w') :=
  List.forall_mem_append.mpr ⟨blank, blank'⟩

/-- White space in front of the items. -/
theorem Items.blank {w : Bytes} {items : List Value} (denotes : Items u items) (blank : Blank w) :
    Items (w ++ u) items := by
  cases denotes with
  | last before denotes after =>
      rw [← List.append_assoc]
      exact .last (blank.append before) denotes after
  | cons before denotes after rest =>
      rw [← List.append_assoc]
      exact .cons (blank.append before) denotes after rest

theorem Member.blank {w : Bytes} {member : Bytes × Value} (denotes : Member u member)
    (blank : Blank w) : Member (w ++ u) member := by
  obtain ⟨before, chars, left, right, denotes, after⟩ := denotes
  rw [← List.append_assoc]
  exact .pair (blank.append before) chars left right denotes after

theorem Members.blank {w : Bytes} {members : List (Bytes × Value)} (denotes : Members u members)
    (blank : Blank w) : Members (w ++ u) members := by
  cases denotes with
  | last member => exact .last (member.blank blank)
  | cons member rest =>
      rw [← List.append_assoc]
      exact .cons (member.blank blank) rest

theorem span_skipWs (t : Bytes) (i : Nat) : ∃ w, Blank w ∧ Span t i (skipWs t i) w :=
  ⟨_, blank_takeWhile (t.drop i), span_skipWhile isSpace t i⟩

/-! ## Escapes -/

theorem hexDigit_eq {d : Nat} (digit : HexDigit b d) : hexDigit b = .ok d := by
  cases digit with
  | decimal small => interval_cases d <;> rfl
  | @lower d small => interval_cases d <;> rfl
  | @upper d small => interval_cases d <;> rfl

/-- The digits of a range of bytes. -/
theorem ofNat_add_sub {low : Nat} (above : low ≤ b.toNat) :
    UInt8.ofNat (low + (b.toNat - low)) = b := by
  rw [Nat.add_sub_cancel' above, UInt8.ofNat_toNat]

theorem digit_of_hexDigit {d : Nat} (ok : hexDigit b = .ok d) : HexDigit b d := by
  unfold hexDigit at ok
  simp only [Bool.and_eq_true, decide_eq_true_eq, UInt8.le_iff_toNat_le] at ok
  split at ok
  next range =>
    obtain ⟨low, high⟩ : 48 ≤ b.toNat ∧ b.toNat ≤ 57 := range
    obtain rfl := Except.ok.inj ok
    have digit := HexDigit.decimal (d := b.toNat - 48) (by omega)
    rwa [ofNat_add_sub low] at digit
  next =>
    split at ok
    next range =>
      obtain ⟨low, high⟩ : 97 ≤ b.toNat ∧ b.toNat ≤ 102 := range
      obtain rfl := Except.ok.inj ok
      have digit := HexDigit.lower (d := b.toNat - 97) (by omega)
      rwa [ofNat_add_sub low, Nat.add_comm 10] at digit
    next =>
      split at ok
      next range =>
        obtain ⟨low, high⟩ : 65 ≤ b.toNat ∧ b.toNat ≤ 70 := range
        obtain rfl := Except.ok.inj ok
        have digit := HexDigit.upper (d := b.toNat - 65) (by omega)
        rwa [ofNat_add_sub low, Nat.add_comm 10] at digit
      next => cases ok

theorem HexDigit.lt {d : Nat} (digit : HexDigit b d) : d < 16 := by
  cases digit <;> omega

theorem CodeUnit.lt {n : Nat} (unit : CodeUnit u n) : n < 0x10000 := by
  obtain ⟨first, second, third, fourth⟩ := unit
  have := first.lt
  have := second.lt
  have := third.lt
  have := fourth.lt
  omega

theorem CodeUnit.length {n : Nat} (unit : CodeUnit u n) : u.length = 4 := by
  cases unit
  rfl

/-- `hex4` reads a code unit. -/
theorem unit_of_hex4 {n : Nat} (ok : hex4 t i = .ok n) :
    ∃ x, CodeUnit x n ∧ Span t i (i + 4) x := by
  unfold hex4 at ok
  split at ok
  next => cases ok
  next =>
    obtain ⟨d₀, first, ok⟩ := bind_eq_ok ok
    obtain ⟨d₁, second, ok⟩ := bind_eq_ok ok
    obtain ⟨d₂, third, ok⟩ := bind_eq_ok ok
    obtain ⟨d₃, fourth, ok⟩ := bind_eq_ok ok
    obtain ⟨a, here, value⟩ := bind_eq_ok first
    obtain ⟨b, here₁, value₁⟩ := bind_eq_ok second
    obtain ⟨c, here₂, value₂⟩ := bind_eq_ok third
    obtain ⟨d, here₃, value₃⟩ := bind_eq_ok fourth
    obtain rfl := Except.ok.inj ok
    refine ⟨[a, b, c, d], .digits (digit_of_hexDigit value) (digit_of_hexDigit value₁)
      (digit_of_hexDigit value₂) (digit_of_hexDigit value₃), ?_⟩
    exact (span_of_byteAt here).trans ((span_of_byteAt here₁).trans
      ((span_of_byteAt here₂).trans (span_of_byteAt here₃)))

theorem hex4_of_unit {x : Bytes} {n : Nat} (unit : CodeUnit x n) (here : t.drop i = x ++ rest) :
    hex4 t i = .ok n := by
  obtain ⟨first, second, third, fourth⟩ := unit
  have here₁ := drop_succ here
  have here₂ := drop_succ here₁
  have here₃ := drop_succ here₂
  have inside := lt_of_drop here₃
  unfold hex4
  rw [if_neg (by omega)]
  simp only [byteAt_of_drop here, byteAt_of_drop here₁, byteAt_of_drop here₂,
    byteAt_of_drop here₃, bind, Except.bind, hexDigit_eq first, hexDigit_eq second,
    hexDigit_eq third, hexDigit_eq fourth, pure, Except.pure]

/-- A Unicode scalar value is appended as its encoding. -/
theorem appendUtf8_eq {cp : Nat} (scalar : cp.isValidChar) :
    appendUtf8 out cp = .ok (out ++ String.utf8EncodeChar (Char.ofNat cp)) := by
  have code : (Char.ofNat cp).val.toNat = cp := by
    rw [Char.ofNat, dif_pos scalar]
    rfl
  have range : cp ≤ 0x10FFFF := by
    rcases scalar with low | high
    · omega
    · omega
  have tail : ∀ x < 64, 0x80 ||| x = x + 0x80 := by decide
  have lead₂ : ∀ x < 32, 0xC0 ||| x = x + 0xC0 := by decide
  have lead₃ : ∀ x < 16, 0xE0 ||| x = x + 0xE0 := by decide
  have lead₄ : ∀ x < 8, 0xF0 ||| x = x + 0xF0 := by decide
  have bits (x : Nat) : x &&& 0x3F = x % 64 := Nat.and_two_pow_sub_one_eq_mod x 6
  unfold appendUtf8 String.utf8EncodeChar
  rw [code]
  simp only [bits, Nat.shiftRight_eq_div_pow, Nat.reducePow]
  split
  next => rfl
  next =>
    split
    next small =>
      rw [lead₂ _ (by omega), tail _ (by omega), Nat.mod_eq_of_lt (show cp / 64 < 32 by omega)]
    next =>
      split
      next small =>
        rw [lead₃ _ (by omega), tail _ (by omega), tail _ (by omega),
          Nat.mod_eq_of_lt (show cp / 4096 < 16 by omega)]
      next =>
        rw [lead₄ _ (by omega), tail _ (by omega), tail _ (by omega),
          tail _ (by omega), Nat.mod_eq_of_lt (show cp / 262144 < 8 by omega)]

theorem isValidChar_unit {n : Nat} (small : n < 0x10000) (alone : n < 0xD800 ∨ 0xDFFF < n) :
    n.isValidChar := by
  rcases alone with low | high
  · exact .inl low
  · exact .inr ⟨high, by omega⟩

theorem isValidChar_pair {hi lo : Nat} (high : 0xD800 ≤ hi ∧ hi ≤ 0xDBFF)
    (low : 0xDC00 ≤ lo ∧ lo ≤ 0xDFFF) :
    (0x10000 + (hi - 0xD800) * 1024 + (lo - 0xDC00)).isValidChar :=
  .inr ⟨by omega, by omega⟩

/-- `parse_string` reads the escape of a character behind its backslash. -/
theorem glyph_of_parseUnicode {out s : Bytes} (letter : Span t i (i + 1) [117])
    (ok : parseUnicode t i out = .ok (s, j)) :
    ∃ g s', Glyph (92 :: g) s' ∧ Span t i j g ∧ s = out ++ s' := by
  unfold parseUnicode at ok
  obtain ⟨cu, hex, ok⟩ := bind_eq_ok ok
  obtain ⟨x, unit, span⟩ := unit_of_hex4 hex
  have behind := letter.trans span
  dsimp only at ok
  split at ok
  next high =>
    -- a low surrogate has to follow
    split at ok
    next => cases ok
    next =>
      obtain ⟨slash, here, ok⟩ := bind_eq_ok ok
      split at ok
      next => cases ok
      next isSlash =>
        obtain ⟨letter', next, ok⟩ := bind_eq_ok ok
        split at ok
        next => cases ok
        next isLetter =>
          obtain rfl : slash = 92 := by simpa using isSlash
          obtain rfl : letter' = 117 := by simpa using isLetter
          obtain ⟨lo, hex', ok⟩ := bind_eq_ok ok
          obtain ⟨y, unit', span'⟩ := unit_of_hex4 hex'
          split at ok
          next => cases ok
          next low =>
            have range : 0xDC00 ≤ lo ∧ lo ≤ 0xDFFF := by omega
            rw [appendUtf8_eq (isValidChar_pair high range)] at ok
            obtain ⟨rfl, rfl⟩ := Prod.mk.inj (Except.ok.inj ok)
            refine ⟨117 :: (x ++ 92 :: 117 :: y), _,
              .pair unit high.1 high.2 unit' range.1 range.2, ?_, rfl⟩
            exact behind.trans ((span_of_byteAt here).trans ((span_of_byteAt next).trans span'))
  next noHigh =>
    split at ok
    next => cases ok
    next noLow =>
      have alone : cu < 0xD800 ∨ 0xDFFF < cu := by omega
      rw [appendUtf8_eq (isValidChar_unit unit.lt alone)] at ok
      obtain ⟨rfl, rfl⟩ := Prod.mk.inj (Except.ok.inj ok)
      exact ⟨117 :: x, _, .unit unit alone, behind, rfl⟩

theorem parseUnicode_unit {x out : Bytes} {n : Nat} (unit : CodeUnit x n)
    (alone : n < 0xD800 ∨ 0xDFFF < n) (here : t.drop i = 117 :: (x ++ rest)) :
    parseUnicode t i out = .ok (out ++ utf8 n, i + 5) := by
  unfold parseUnicode
  rw [hex4_of_unit unit (drop_succ here), bind_ok]
  dsimp only
  rw [if_neg (by omega), if_neg (by omega), appendUtf8_eq (isValidChar_unit unit.lt alone)]
  rfl

theorem parseUnicode_pair {x y out : Bytes} {hi lo : Nat} (unit : CodeUnit x hi)
    (high : 0xD800 ≤ hi ∧ hi ≤ 0xDBFF) (unit' : CodeUnit y lo)
    (low : 0xDC00 ≤ lo ∧ lo ≤ 0xDFFF)
    (here : t.drop i = 117 :: (x ++ 92 :: 117 :: (y ++ rest))) :
    parseUnicode t i out =
      .ok (out ++ utf8 (0x10000 + (hi - 0xD800) * 1024 + (lo - 0xDC00)), i + 11) := by
  have slash : t.drop (i + 5) = 92 :: 117 :: (y ++ rest) := by
    have behind := drop_add (drop_succ here)
    rwa [unit.length] at behind
  have letter := drop_succ slash
  have inside := lt_of_drop letter
  unfold parseUnicode
  rw [hex4_of_unit unit (drop_succ here), bind_ok]
  dsimp only
  rw [if_pos high, if_neg (by omega), byteAt_of_drop slash, bind_ok, if_neg (by decide),
    byteAt_of_drop letter, bind_ok, if_neg (by decide), hex4_of_unit unit' (drop_succ letter),
    bind_ok, if_neg (by omega), appendUtf8_eq (isValidChar_pair high low)]
  rfl

/-! ## Strings -/

/-- One round of the loop reads one character. -/
theorem parseStringLoop_glyph {g s out : Bytes} (glyph : Glyph g s)
    (here : t.drop i = g ++ rest) :
    parseStringLoop t (fuel + 1) i out = parseStringLoop t fuel (i + g.length) (out ++ s) := by
  have unicode : shortEscape 117 = none := rfl
  -- behind a backslash
  have escape {e : UInt8} {u : Bytes} (start : t.drop i = 92 :: e :: u) :
      parseStringLoop t (fuel + 1) i out =
        (shortEscape e).elim
          (if e = 117 then
            parseUnicode t (i + 1) out >>= fun passed => parseStringLoop t fuel passed.2 passed.1
          else .error .malformed)
          fun b => parseStringLoop t fuel (i + 2) (out ++ [b]) := by
    have inside := lt_of_drop start
    have behind := lt_of_drop (drop_succ start)
    rw [parseStringLoop, if_neg (Nat.not_le.mpr inside), byteAt_of_drop start, bind_ok,
      if_neg (by decide), if_pos rfl]
    dsimp only
    rw [if_neg (Nat.not_le.mpr behind), byteAt_of_drop (drop_succ start), bind_ok]
    cases shortEscape e <;> rfl
  cases glyph with
  | byte printable noQuote noSlash =>
      have inside := lt_of_drop here
      rw [parseStringLoop, if_neg (Nat.not_le.mpr inside), byteAt_of_drop here, bind_ok,
        if_neg noQuote, if_neg noSlash, if_neg (UInt8.not_lt.mpr printable)]
      rfl
  | short stands =>
      rw [escape here, stands]
      rfl
  | unit unit alone =>
      rw [escape here, unicode, Option.elim_none, if_pos rfl]
      rw [parseUnicode_unit unit alone (drop_succ here), bind_ok, List.length_cons,
        List.length_cons, unit.length]
  | @pair x y hi lo unit hiLow hiHigh unit' loLow loHigh =>
      have start : t.drop i = 92 :: 117 :: (x ++ 92 :: 117 :: (y ++ rest)) := by simpa using here
      rw [escape start, unicode, Option.elim_none, if_pos rfl]
      rw [parseUnicode_pair unit ⟨hiLow, hiHigh⟩ unit' ⟨loLow, loHigh⟩ (drop_succ start), bind_ok]
      simp only [List.length_cons, List.length_append, unit.length, unit'.length]

theorem Glyph.ne_nil {g s : Bytes} (glyph : Glyph g s) : g ≠ [] := by
  cases glyph <;> simp

theorem parseStringLoop_chars {s out : Bytes} (chars : Chars u s)
    (here : t.drop i = u ++ 34 :: rest) (enough : u.length < fuel) :
    parseStringLoop t fuel i out = .ok (out ++ s, i + u.length + 1) := by
  induction chars generalizing i fuel out with
  | nil =>
      obtain ⟨fuel, rfl⟩ := Nat.exists_eq_add_of_lt enough
      have inside := lt_of_drop (b := 34) here
      rw [parseStringLoop, if_neg (Nat.not_le.mpr inside), byteAt_of_drop (b := 34) here, bind_ok,
        if_pos rfl, List.append_nil]
      rfl
  | @cons g s u s' glyph _ inductionHypothesis =>
      obtain ⟨fuel, rfl⟩ : ∃ fuel', fuel = fuel' + 1 := ⟨fuel - 1, by omega⟩
      have positive := List.length_pos_iff.mpr glyph.ne_nil
      rw [List.append_assoc] at here
      rw [List.length_append] at enough ⊢
      rw [parseStringLoop_glyph glyph here, inductionHypothesis (drop_add here) (by omega),
        List.append_assoc, Nat.add_assoc i]

/-- `parse_string` reads a literal. -/
theorem parseString_of_chars {s : Bytes} (chars : Chars u s)
    (here : t.drop i = 34 :: (u ++ 34 :: rest)) :
    parseString t i = .ok (s, i + u.length + 2) := by
  have long : u.length < t.length + 1 := by
    have lengths := congrArg List.length here
    simp only [List.length_drop, List.length_cons, List.length_append] at lengths
    omega
  have opens : test t i (· = 34) = true := test_of_drop here _
  rw [parseString, if_pos opens, parseStringLoop_chars chars (drop_succ here) long, List.nil_append]
  congr 2
  omega

theorem chars_of_parseStringLoop {s out : Bytes}
    (ok : parseStringLoop t fuel i out = .ok (s, j)) :
    ∃ u s', Chars u s' ∧ Span t i j (u ++ [34]) ∧ s = out ++ s' := by
  induction fuel generalizing i out with
  | zero => cases ok
  | succ fuel inductionHypothesis =>
      -- a character in front of what the other rounds read
      have before {g s₁ : Bytes} {k : Nat} (glyph : Glyph g s₁) (span : Span t i k g)
          (ok : parseStringLoop t fuel k (out ++ s₁) = .ok (s, j)) :
          ∃ u s', Chars u s' ∧ Span t i j (u ++ [34]) ∧ s = out ++ s' := by
        obtain ⟨u, s', chars, span', rfl⟩ := inductionHypothesis ok
        refine ⟨g ++ u, s₁ ++ s', .cons glyph chars, ?_, List.append_assoc ..⟩
        rw [List.append_assoc]
        exact span.trans span'
      unfold parseStringLoop at ok
      split at ok
      next => cases ok
      next =>
        obtain ⟨c, first, ok⟩ := bind_eq_ok ok
        have here := span_of_byteAt first
        split at ok
        next isQuote =>
          obtain ⟨rfl, rfl⟩ := Prod.mk.inj (Except.ok.inj ok)
          exact ⟨[], [], .nil, isQuote ▸ here, (List.append_nil out).symm⟩
        next noQuote =>
          split at ok
          next isSlash =>
            subst isSlash
            dsimp only at ok
            split at ok
            next => cases ok
            next =>
              obtain ⟨e, second, ok⟩ := bind_eq_ok ok
              have there := span_of_byteAt second
              split at ok
              next stands => exact before (.short stands) (here.trans there) ok
              next =>
                split at ok
                next isLetter =>
                  subst isLetter
                  obtain ⟨⟨out', k⟩, unicode, ok⟩ := bind_eq_ok ok
                  obtain ⟨g, s₁, glyph, span, rfl⟩ := glyph_of_parseUnicode there unicode
                  exact before glyph (here.trans span) ok
                next => cases ok
          next noSlash =>
            split at ok
            next => cases ok
            next printable =>
              exact before (.byte (UInt8.not_lt.mp printable) noQuote noSlash) here ok

theorem chars_of_parseString {s : Bytes} (ok : parseString t i = .ok (s, j)) :
    ∃ u, Chars u s ∧ Span t i j (34 :: (u ++ [34])) := by
  unfold parseString at ok
  split at ok
  next opens =>
    obtain ⟨u, s', chars, span, rfl⟩ := chars_of_parseStringLoop ok
    exact ⟨u, chars, (span_of_test_eq opens).trans span⟩
  next => cases ok

/-! ## Numbers -/

theorem ofDecimalNat_concat (text : Bytes) (b : UInt8) :
    ofDecimalNat (text ++ [b]) = ofDecimalNat text * 10 + (b.toNat - 48) := by
  simp only [ofDecimalNat, List.reverse_append, List.reverse_singleton, List.singleton_append,
    List.map_cons, Nat.ofDigits_cons, digitOf]
  omega

/-- The digits are accumulated modulo 2^64. -/
theorem accumulate_eq (text : Bytes) : accumulate 0 text = wrap64 (ofDecimalNat text) := by
  induction text using List.reverseRecOn with
  | nil => rfl
  | append_singleton text b inductionHypothesis =>
      have step : accumulate 0 (text ++ [b]) =
          wrap64 (wrap64 (accumulate 0 text * 10) + (b.toNat - 48 : Nat)) := by
        simp [accumulate, List.foldl_append]
      rw [step, inductionHypothesis, ofDecimalNat_concat]
      unfold wrap64
      omega

/-- What may follow a value: white space, a comma, a closing bracket or nothing. -/
def Closes (rest : Bytes) : Prop :=
  ∀ b tail, rest = b :: tail → isSpace b = true ∨ b = 44 ∨ b = 93 ∨ b = 125

/-- The next byte is none of those that `p` selects. -/
def Stops (p : UInt8 → Bool) (rest : Bytes) : Prop := ∀ b tail, rest = b :: tail → p b = false

theorem test_of_stops {p : UInt8 → Bool} (stops : Stops p (t.drop i)) : test t i p = false := by
  cases holds : test t i p with
  | false => rfl
  | true =>
      obtain ⟨b, stands, here⟩ := drop_of_test holds
      rw [stops b _ here] at stands
      cases stands

theorem takeWhile_of_stops {p : UInt8 → Bool} (all : ∀ b ∈ u, p b = true) (stops : Stops p rest) :
    (u ++ rest).takeWhile p = u := by
  rw [List.takeWhile_append_of_pos all]
  cases rest with
  | nil => simp
  | cons b tail => rw [List.takeWhile_cons_of_neg (by simp [stops b tail rfl]), List.append_nil]

theorem skipWhile_of_stops {p : UInt8 → Bool} (all : ∀ b ∈ u, p b = true)
    (here : t.drop i = u ++ rest) (stops : Stops p rest) : skipWhile p t i = i + u.length := by
  rw [skipWhile, here, countWhile_eq, takeWhile_of_stops all stops]

theorem skipWs_of_blank {w : Bytes} (blank : Blank w) (here : t.drop i = w ++ rest)
    (stops : Stops isSpace rest) : skipWs t i = i + w.length :=
  skipWhile_of_stops blank here stops

/-- The bytes that close a value do not go on with a number. -/
theorem Closes.stops {p : UInt8 → Bool} (closes : Closes rest)
    (others : ∀ b, p b = true → isDigit b = true ∨ b ∈ [43, 45, 46, 69, 101]) : Stops p rest := by
  rintro b tail rfl
  have closing := closes b tail rfl
  have apart : isDigit b = false ∧ b ∉ ([43, 45, 46, 69, 101] : Bytes) := by
    simp only [isSpace, Bool.or_eq_true, decide_eq_true_eq] at closing
    rcases closing with (((rfl | rfl) | rfl) | rfl) | rfl | rfl | rfl <;> decide
  cases stands : p b with
  | false => rfl
  | true =>
      rcases others b stands with digit | sign
      · rw [apart.1] at digit
        cases digit
      · exact absurd sign apart.2

/-- Where a fraction ends that begins at the index, if there is one. -/
def fractionEnd (t : Bytes) (i : Nat) : Nat :=
  if test t i (· = 46) then skipWhile isDigit t (i + 1) else i

/-- Where an exponent ends that begins at the index, if there is one. -/
def exponentEnd (t : Bytes) (i : Nat) : Nat :=
  if test t i (fun b => b = 101 || b = 69) then
    skipWhile isDigit t (if test t (i + 1) (fun b => b = 43 || b = 45) then i + 1 + 1 else i + 1)
  else i

theorem span_fractionEnd (t : Bytes) (i : Nat) : ∃ f, Fraction f ∧ Span t i (fractionEnd t i) f := by
  unfold fractionEnd
  split
  next point =>
    exact ⟨_, .digits (digits_takeWhile _),
      (span_of_test_eq point).trans (span_skipWhile isDigit t (i + 1))⟩
  next => exact ⟨[], .none, rfl⟩

theorem span_exponentEnd (t : Bytes) (i : Nat) : ∃ x, Exponent x ∧ Span t i (exponentEnd t i) x := by
  unfold exponentEnd
  split
  next letter =>
    obtain ⟨e, isLetter, span⟩ := span_of_test letter
    simp only [Bool.or_eq_true, decide_eq_true_eq] at isLetter
    split
    next sign =>
      obtain ⟨s, isSign, span'⟩ := span_of_test sign
      simp only [Bool.or_eq_true, decide_eq_true_eq] at isSign
      exact ⟨_, .signed isLetter isSign (digits_takeWhile _),
        span.trans (span'.trans (span_skipWhile isDigit t (i + 1 + 1)))⟩
    next =>
      exact ⟨_, .digits isLetter (digits_takeWhile _),
        span.trans (span_skipWhile isDigit t (i + 1))⟩
  next => exact ⟨[], .none, rfl⟩

/-- An exponent that is there starts with its letter. -/
theorem Exponent.starts {x : Bytes} (exponent : Exponent x) :
    x = [] ∨ ∃ e tail, x = e :: tail ∧ (e = 101 ∨ e = 69) := by
  cases exponent with
  | none => exact .inl rfl
  | digits letter => exact .inr ⟨_, _, rfl, letter⟩
  | signed letter => exact .inr ⟨_, _, rfl, letter⟩

theorem stops_exponent {p : UInt8 → Bool} {x : Bytes} (exponent : Exponent x) (closes : Closes rest)
    (others : ∀ b, p b = true → isDigit b = true ∨ b ∈ [43, 45, 46, 69, 101])
    (letters : p 101 = false ∧ p 69 = false) : Stops p (x ++ rest) := by
  rcases exponent.starts with rfl | ⟨e, tail, rfl, rfl | rfl⟩
  · exact closes.stops others
  · rintro b tail' same
    exact (List.cons.inj same).1 ▸ letters.1
  · rintro b tail' same
    exact (List.cons.inj same).1 ▸ letters.2

theorem stops_fraction {f x : Bytes} (fraction : Fraction f) (exponent : Exponent x)
    (closes : Closes rest) : Stops isDigit (f ++ (x ++ rest)) := by
  cases fraction with
  | none =>
      rw [List.nil_append]
      exact stops_exponent exponent closes (fun b digit => .inl digit) (by decide)
  | digits =>
      rintro b tail same
      obtain ⟨rfl, -⟩ := List.cons.inj same
      rfl

theorem fractionEnd_eq {f x : Bytes} (fraction : Fraction f) (exponent : Exponent x)
    (closes : Closes rest) (here : t.drop i = f ++ (x ++ rest)) :
    fractionEnd t i = i + f.length := by
  unfold fractionEnd
  cases fraction with
  | none =>
      have absent : test t i (· = 46) = false := by
        apply test_of_stops
        rw [here, List.nil_append]
        exact stops_exponent exponent closes (by simp) (by decide)
      rw [absent]
      rfl
  | @digits d digits =>
      have point : test t i (· = 46) = true := test_of_drop here _
      have stops := stops_exponent exponent closes (p := isDigit) (fun b digit => .inl digit)
        (by decide)
      rw [if_pos point, skipWhile_of_stops digits (drop_succ here) stops, List.length_cons]
      omega

theorem exponentEnd_eq {x : Bytes} (exponent : Exponent x) (closes : Closes rest)
    (here : t.drop i = x ++ rest) : exponentEnd t i = i + x.length := by
  have digitsEnd : Stops isDigit rest := closes.stops fun b digit => .inl digit
  unfold exponentEnd
  cases exponent with
  | none =>
      have absent : test t i (fun b => b = 101 || b = 69) = false := by
        apply test_of_stops
        rw [here]
        apply closes.stops
        intro b letter
        simp only [Bool.or_eq_true, decide_eq_true_eq] at letter
        rcases letter with rfl | rfl <;> decide
      rw [absent]
      rfl
  | @digits e d isLetter digits =>
      have letter : test t i (fun b => b = 101 || b = 69) = true := by
        rw [test_of_drop here]
        simpa using isLetter
      have unsigned : test t (i + 1) (fun b => b = 43 || b = 45) = false := by
        apply test_of_stops
        rw [drop_succ here]
        cases d with
        | nil =>
            apply closes.stops
            intro b sign
            simp only [Bool.or_eq_true, decide_eq_true_eq] at sign
            rcases sign with rfl | rfl <;> decide
        | cons b d =>
            rintro b' tail same
            obtain ⟨rfl, -⟩ := List.cons.inj same
            have digit := digits b (List.mem_cons_self ..)
            simp only [Bool.or_eq_false_iff, decide_eq_false_iff_not]
            refine ⟨?_, ?_⟩ <;> rintro rfl <;> cases digit
      rw [if_pos letter, unsigned, if_neg (by decide),
        skipWhile_of_stops digits (drop_succ here) digitsEnd, List.length_cons]
      omega
  | @signed e s d isLetter isSign digits =>
      have letter : test t i (fun b => b = 101 || b = 69) = true := by
        rw [test_of_drop here]
        simpa using isLetter
      have sign : test t (i + 1) (fun b => b = 43 || b = 45) = true := by
        rw [test_of_drop (drop_succ here)]
        simpa using isSign
      rw [if_pos letter, if_pos sign,
        skipWhile_of_stops digits (drop_succ (drop_succ here)) digitsEnd, List.length_cons,
        List.length_cons]
      omega

/-- The stages of `parse_number` behind the sign. -/
theorem parseNumber_eq (t : Bytes) (i : Nat) :
    parseNumber t i =
      let neg := test t i (· = 45)
      let i := if neg then i + 1 else i
      if test t i isDigit then
        let v := accumulate 0 ((t.drop i).takeWhile isDigit)
        .ok (if neg then wrap64 (-v) else v,
          exponentEnd t (fractionEnd t (skipWhile isDigit t i)))
      else .error .malformed := rfl

theorem number_of_parseNumber {n : Int} (ok : parseNumber t i = .ok (n, j)) :
    ∃ u n', Number u n' ∧ Span t i j u ∧ n = wrap64 n' := by
  rw [parseNumber_eq] at ok
  have stages (k : Nat) (digit : test t k isDigit = true) : ∃ d f x, d ≠ [] ∧ Digits d ∧
      Fraction f ∧ Exponent x ∧ d = (t.drop k).takeWhile isDigit ∧
      Span t k (exponentEnd t (fractionEnd t (skipWhile isDigit t k))) (d ++ (f ++ x)) := by
    obtain ⟨f, fraction, span⟩ := span_fractionEnd t (skipWhile isDigit t k)
    obtain ⟨x, exponent, span'⟩ := span_exponentEnd t (fractionEnd t (skipWhile isDigit t k))
    refine ⟨_, f, x, ?_, digits_takeWhile (t.drop k), fraction, exponent, rfl,
      (span_skipWhile isDigit t k).trans (span.trans span')⟩
    obtain ⟨b, isDigit, here⟩ := drop_of_test digit
    rw [here, List.takeWhile_cons_of_pos isDigit]
    exact List.cons_ne_nil _ _
  cases sign : test t i (· = 45) with
  | false =>
      simp only [sign, Bool.false_eq_true, if_false] at ok
      split at ok
      next digit =>
        obtain ⟨d, f, x, nonempty, digits, fraction, exponent, taken, span⟩ := stages i digit
        obtain ⟨rfl, rfl⟩ := Prod.mk.inj (Except.ok.inj ok)
        exact ⟨_, _, .plus nonempty digits fraction exponent, span, by rw [← taken, accumulate_eq]⟩
      next => cases ok
  | true =>
      simp only [sign, if_true] at ok
      split at ok
      next digit =>
        obtain ⟨d, f, x, nonempty, digits, fraction, exponent, taken, span⟩ :=
          stages (i + 1) digit
        obtain ⟨rfl, rfl⟩ := Prod.mk.inj (Except.ok.inj ok)
        refine ⟨_, _, .minus nonempty digits fraction exponent, (span_of_test_eq sign).trans span,
          ?_⟩
        rw [← taken, accumulate_eq]
        unfold wrap64
        omega
      next => cases ok

theorem parseNumber_of_number {n : Int} (number : Number u n) (here : t.drop i = u ++ rest)
    (closes : Closes rest) : parseNumber t i = .ok (wrap64 n, i + u.length) := by
  rw [parseNumber_eq]
  have stages {d f x : Bytes} {k : Nat} (nonempty : d ≠ []) (digits : Digits d)
      (fraction : Fraction f) (exponent : Exponent x)
      (here : t.drop k = d ++ (f ++ (x ++ rest))) :
      test t k isDigit = true ∧ (t.drop k).takeWhile isDigit = d ∧
        exponentEnd t (fractionEnd t (skipWhile isDigit t k)) = k + (d ++ (f ++ x)).length := by
    have stops := stops_fraction fraction exponent closes
    refine ⟨?_, ?_, ?_⟩
    · obtain ⟨b, d', rfl⟩ := List.exists_cons_of_ne_nil nonempty
      rw [test_of_drop here]
      exact digits b (List.mem_cons_self ..)
    · rw [here, takeWhile_of_stops digits stops]
    · have behind := drop_add here
      rw [skipWhile_of_stops digits here stops, fractionEnd_eq fraction exponent closes behind,
        exponentEnd_eq exponent closes (drop_add behind)]
      simp only [List.length_append]
      omega
  cases number with
  | @plus d f x nonempty digits fraction exponent =>
      have here : t.drop i = d ++ (f ++ (x ++ rest)) := by simpa using here
      obtain ⟨digit, taken, ends⟩ := stages nonempty digits fraction exponent here
      have sign : test t i (· = 45) = false := by
        obtain ⟨b, d', rfl⟩ := List.exists_cons_of_ne_nil nonempty
        rw [test_of_drop here]
        have digit := digits b (List.mem_cons_self ..)
        exact decide_eq_false fun minus => by rw [minus] at digit; cases digit
      simp only [sign, Bool.false_eq_true, if_false, digit, if_true, taken, ends, accumulate_eq]
  | @minus d f x nonempty digits fraction exponent =>
      have here : t.drop i = 45 :: (d ++ (f ++ (x ++ rest))) := by simpa using here
      obtain ⟨digit, taken, ends⟩ := stages nonempty digits fraction exponent (drop_succ here)
      have sign : test t i (· = 45) = true := test_of_drop here _
      have value : wrap64 (-wrap64 (ofDecimalNat d)) = wrap64 (-ofDecimalNat d) := by
        unfold wrap64
        omega
      have length : i + 1 + (d ++ (f ++ x)).length = i + (45 :: (d ++ (f ++ x))).length := by
        rw [List.length_cons]
        omega
      simp only [sign, if_true, digit, taken, ends, accumulate_eq, value, length]

/-! ## What the parser accepts is in the language -/

mutual

theorem denotes_of_parseValue {i j fuel : Nat} {v : Value}
    (ok : parseValue t fuel i = .ok (v, j)) :
    ∃ w u v', Blank w ∧ Denotes u v' ∧ Span t i j (w ++ u) ∧ v = v'.wrapped := by
  cases fuel with
  | zero => simp [parseValue] at ok
  | succ fuel =>
      obtain ⟨w, blank, white⟩ := span_skipWs t i
      -- what stands behind the white space
      have behind {u : Bytes} {v' : Value} (denotes : Denotes u v')
          (span : Span t (skipWs t i) j u) (same : v = v'.wrapped) :
          ∃ w u v', Blank w ∧ Denotes u v' ∧ Span t i j (w ++ u) ∧ v = v'.wrapped :=
        ⟨w, u, v', blank, denotes, white.trans span, same⟩
      unfold parseValue at ok
      dsimp only at ok
      split at ok
      next => cases ok
      next =>
        obtain ⟨c, first, ok⟩ := bind_eq_ok ok
        have here := span_of_byteAt first
        split at ok
        next =>
          obtain ⟨⟨s, k⟩, string, ok⟩ := bind_eq_ok ok
          obtain ⟨rfl, rfl⟩ := Prod.mk.inj (Except.ok.inj ok)
          obtain ⟨u, chars, span⟩ := chars_of_parseString string
          exact behind (.str chars) span rfl
        next =>
          split at ok
          next =>
            obtain ⟨⟨n, k⟩, number, ok⟩ := bind_eq_ok ok
            obtain ⟨rfl, rfl⟩ := Prod.mk.inj (Except.ok.inj ok)
            obtain ⟨u, n', denotes, span, rfl⟩ := number_of_parseNumber number
            exact behind (.num denotes) span rfl
          next =>
            split at ok
            next brace =>
              subst brace
              obtain ⟨⟨o, k⟩, object, ok⟩ := bind_eq_ok ok
              obtain ⟨rfl, rfl⟩ := Prod.mk.inj (Except.ok.inj ok)
              obtain ⟨u, o', denotes, span, rfl⟩ := denotes_of_parseObjectBody object
              exact behind denotes (here.trans span) rfl
            next =>
              split at ok
              next bracket =>
                subst bracket
                obtain ⟨w', blank', white'⟩ := span_skipWs t (skipWs t i + 1)
                split at ok
                next closes =>
                  obtain ⟨rfl, rfl⟩ := Prod.mk.inj (Except.ok.inj ok)
                  exact behind (.emptyList blank')
                    (here.trans (white'.trans (span_of_test_eq closes))) rfl
                next =>
                  obtain ⟨u, vs, items, span, rfl⟩ := items_of_parseItems ok
                  have whole := here.trans (white'.trans span)
                  refine behind (.list (items.blank blank')) ?_ rfl
                  simpa using whole
              next =>
                split at ok
                next null =>
                  obtain ⟨rfl, rfl⟩ := Prod.mk.inj (Except.ok.inj ok)
                  refine behind .null ?_ rfl
                  rw [Span, ← List.drop_drop, ← null, List.take_append_drop]
                next => cases ok

theorem items_of_parseItems {i j fuel : Nat} {v : Value} {items : List Value}
    (ok : parseItems t fuel i items = .ok (v, j)) :
    ∃ u vs, Items u vs ∧ Span t i j (u ++ [93]) ∧ v = .list (items ++ wrappedItems vs) := by
  cases fuel with
  | zero => simp [parseItems] at ok
  | succ fuel =>
      unfold parseItems at ok
      obtain ⟨⟨item, k⟩, first, ok⟩ := bind_eq_ok ok
      obtain ⟨w, blank, white⟩ := span_skipWs t i
      obtain ⟨w', u, v', blank', denotes, span, rfl⟩ := denotes_of_parseValue first
      obtain ⟨w'', blank'', white''⟩ := span_skipWs t k
      have spaced := white.trans (span.trans white'')
      have blanks : Blank (w ++ w') := blank.append blank'
      dsimp only at ok
      split at ok
      next comma =>
        obtain ⟨u', vs, items', span', rfl⟩ := items_of_parseItems ok
        refine ⟨_, _, .cons blanks denotes blank'' items', ?_, by simp [wrappedItems]⟩
        have whole := spaced.trans ((span_of_test_eq comma).trans span')
        simpa using whole
      next =>
        split at ok
        next closes =>
          obtain ⟨rfl, rfl⟩ := Prod.mk.inj (Except.ok.inj ok)
          refine ⟨_, _, .last blanks denotes blank'', ?_, by simp [wrappedItems]⟩
          have whole := spaced.trans (span_of_test_eq closes)
          simpa using whole
        next => cases ok

/-- The index is entered at the brace. -/
theorem denotes_of_parseObjectBody {i j fuel : Nat} {o : Object}
    (ok : parseObjectBody t fuel i = .ok (o, j)) :
    ∃ (u : Bytes) (o' : Object), Denotes (123 :: u) (.obj o'.fields) ∧ Span t (i + 1) j u ∧
      o = o'.wrapped := by
  cases fuel with
  | zero => simp [parseObjectBody] at ok
  | succ fuel =>
      unfold parseObjectBody at ok
      obtain ⟨w, blank, white⟩ := span_skipWs t (i + 1)
      dsimp only at ok
      split at ok
      next closes =>
        obtain ⟨rfl, rfl⟩ := Prod.mk.inj (Except.ok.inj ok)
        exact ⟨_, {}, .emptyObj blank, white.trans (span_of_test_eq closes), rfl⟩
      next =>
        obtain ⟨u, members, denotes, span, rfl⟩ := members_of_parseMembers ok
        have whole := white.trans span
        refine ⟨_, _, .obj (denotes.blank blank), ?_, (foldl_wrapped members {}).symm⟩
        simpa using whole

theorem members_of_parseMembers {i j fuel : Nat} {o o' : Object}
    (ok : parseMembers t fuel i o = .ok (o', j)) :
    ∃ u members, Members u members ∧ Span t i j (u ++ [125]) ∧
      o' = members.foldl (fun o member => o.set member.1 member.2.wrapped) o := by
  cases fuel with
  | zero => simp [parseMembers] at ok
  | succ fuel =>
      unfold parseMembers at ok
      obtain ⟨⟨key, k⟩, name, ok⟩ := bind_eq_ok ok
      obtain ⟨w₁, blank₁, white₁⟩ := span_skipWs t i
      obtain ⟨s, chars, span⟩ := chars_of_parseString name
      obtain ⟨w₂, blank₂, white₂⟩ := span_skipWs t k
      dsimp only at ok
      split at ok
      next colon =>
        obtain ⟨⟨v, l⟩, value, ok⟩ := bind_eq_ok ok
        obtain ⟨w₃, u, v', blank₃, denotes, span', rfl⟩ := denotes_of_parseValue value
        obtain ⟨w₄, blank₄, white₄⟩ := span_skipWs t l
        have member := Member.pair blank₁ chars blank₂ blank₃ denotes blank₄
        have before := white₁.trans (span.trans (white₂.trans
          ((span_of_test_eq colon).trans (span'.trans white₄))))
        dsimp only at ok
        split at ok
        next comma =>
          obtain ⟨u', members, rest, span'', rfl⟩ := members_of_parseMembers ok
          refine ⟨_, _, .cons member rest, ?_, rfl⟩
          have whole := before.trans ((span_of_test_eq comma).trans span'')
          simpa using whole
        next =>
          split at ok
          next closes =>
            obtain ⟨rfl, rfl⟩ := Prod.mk.inj (Except.ok.inj ok)
            refine ⟨_, _, .last member, ?_, rfl⟩
            have whole := before.trans (span_of_test_eq closes)
            simpa using whole
          next => cases ok
      next => cases ok

end

/-- An accepted text is in the language, and the result holds its numbers as a `long long`
does. -/
theorem document_of_parse {o : Object} (ok : parse t = .ok o) :
    ∃ o', Document t o' ∧ o = o'.wrapped := by
  unfold parse at ok
  obtain ⟨w, blank, white⟩ := span_skipWs t 0
  dsimp only at ok
  split at ok
  next opens =>
    obtain ⟨⟨o₁, k⟩, object, ok⟩ := bind_eq_ok ok
    obtain ⟨u, o', denotes, span, rfl⟩ := denotes_of_parseObjectBody object
    obtain ⟨w', blank', white'⟩ := span_skipWs t k
    dsimp only at ok
    split at ok
    next ends =>
      obtain rfl := Except.ok.inj ok
      refine ⟨o', ?_, rfl⟩
      have whole := white.trans ((span_of_test_eq opens).trans (span.trans white'))
      rw [ends, Span, List.drop_zero, List.drop_length, List.append_nil] at whole
      rw [whole]
      exact .object (t := 123 :: u) blank denotes blank'
    next => cases ok
  next => cases ok

/-! ## The parser accepts the language -/

/-- A value starts with a byte that is no white space and closes nothing. -/
theorem Denotes.starts {v : Value} (denotes : Denotes u v) :
    ∃ b tail, u = b :: tail ∧ isSpace b = false ∧ b ≠ 93 := by
  cases denotes with
  | num number =>
      cases number with
      | plus nonempty digits =>
          obtain ⟨b, d', rfl⟩ := List.exists_cons_of_ne_nil nonempty
          have digit := digits b (List.mem_cons_self ..)
          refine ⟨b, _, rfl, ?_, ?_⟩
          · simp only [isSpace, Bool.or_eq_false_iff, decide_eq_false_iff_not]
            refine ⟨⟨⟨?_, ?_⟩, ?_⟩, ?_⟩ <;> rintro rfl <;> cases digit
          · rintro rfl
            cases digit
      | minus => exact ⟨45, _, rfl, by decide⟩
  | str => exact ⟨34, _, rfl, by decide⟩
  | null => exact ⟨110, _, rfl, by decide⟩
  | emptyList | list => exact ⟨91, _, rfl, by decide⟩
  | emptyObj | obj => exact ⟨123, _, rfl, by decide⟩

theorem Denotes.stops {v : Value} (denotes : Denotes u v) : Stops isSpace (u ++ rest) := by
  obtain ⟨b, tail, rfl, solid, -⟩ := denotes.starts
  rintro b' tail' same
  obtain ⟨rfl, -⟩ := List.cons.inj same
  exact solid

/-- A byte that is no white space. -/
theorem stops_cons (solid : isSpace b = false) : Stops isSpace (b :: rest) := by
  rintro b' tail same
  obtain ⟨rfl, -⟩ := List.cons.inj same
  exact solid

theorem closes_blank {w : Bytes} (blank : Blank w) (closes : Closes rest) : Closes (w ++ rest) := by
  cases w with
  | nil => exact closes
  | cons b w =>
      rintro b' tail same
      obtain ⟨rfl, -⟩ := List.cons.inj same
      exact .inl (blank b (List.mem_cons_self ..))

theorem stops_skipWs (t : Bytes) (i : Nat) : Stops isSpace (t.drop (skipWs t i)) := by
  have rest (text : Bytes) : Stops isSpace (text.drop (countWhile isSpace text)) := by
    induction text with
    | nil => exact fun b tail same => by cases same
    | cons b text inductionHypothesis =>
        unfold countWhile
        split
        next => exact inductionHypothesis
        next solid => exact stops_cons (Bool.eq_false_iff.mpr solid)
  have skipped := rest (t.drop i)
  rwa [List.drop_drop] at skipped

theorem skipWs_skipWs (t : Bytes) (i : Nat) : skipWs t (skipWs t i) = skipWs t i :=
  skipWs_of_blank (w := []) (List.forall_mem_nil _) rfl (stops_skipWs t i)

/-- White space in front of a value is skipped. -/
theorem parseValue_skipWs (t : Bytes) (fuel i : Nat) :
    parseValue t fuel (skipWs t i) = parseValue t fuel i := by
  cases fuel with
  | zero => simp only [parseValue]
  | succ fuel => simp only [parseValue, skipWs_skipWs]

theorem parseItems_skipWs (t : Bytes) (fuel i : Nat) (items : List Value) :
    parseItems t fuel (skipWs t i) items = parseItems t fuel i items := by
  cases fuel with
  | zero => simp only [parseItems]
  | succ fuel => simp only [parseItems, skipWs_skipWs]

theorem parseMembers_skipWs (t : Bytes) (fuel i : Nat) (o : Object) :
    parseMembers t fuel (skipWs t i) o = parseMembers t fuel i o := by
  cases fuel with
  | zero => simp only [parseMembers]
  | succ fuel => simp only [parseMembers, skipWs_skipWs]

/-- `parse_value` at the first byte of a value. -/
theorem parseValue_start (here : t.drop i = b :: rest) (solid : isSpace b = false) :
    parseValue t (fuel + 1) i =
      if b = 34 then do
        let (s, i) ← parseString t i
        return (.str s, i)
      else if b = 45 || isDigit b then do
        let (n, i) ← parseNumber t i
        return (.num n, i)
      else if b = 123 then do
        let (o, i) ← parseObjectBody t fuel i
        return (.obj o.fields, i)
      else if b = 91 then
        let i := skipWs t (i + 1)
        if test t i (· = 93) then return (.list [], i + 1)
        else parseItems t fuel i []
      else if (t.drop i).take 4 = [110, 117, 108, 108] then return (.str [], i + 4)
      else throw .malformed := by
  have stays : skipWs t i = i := skipWs_of_drop here solid
  rw [parseValue]
  simp only [stays]
  rw [if_neg (Nat.not_le.mpr (lt_of_drop here)), byteAt_of_drop here, bind_ok]

/-- One round over the items of an array. -/
theorem parseItems_item {w w' : Bytes} {v item : Value} {items : List Value} {b' : UInt8}
    (blank : Blank w) (denotes : Denotes u v) (blank' : Blank w')
    (here : t.drop i = w ++ (u ++ (w' ++ b' :: rest))) (solid : isSpace b' = false)
    (read : ∀ j, t.drop j = u ++ (w' ++ b' :: rest) →
      parseValue t fuel j = .ok (item, j + u.length)) :
    parseItems t (fuel + 1) i items =
      let j := i + (w ++ (u ++ w')).length
      if b' = 44 then parseItems t fuel (j + 1) (items ++ [item])
      else if b' = 93 then .ok (.list (items ++ [item]), j + 1)
      else .error .malformed := by
  have skips := skipWs_of_blank blank here denotes.stops
  have start := drop_add here
  have behind := drop_add start
  have skips' := skipWs_of_blank blank' behind (stops_cons solid)
  have byte := drop_add behind
  have length : i + (w ++ (u ++ w')).length = i + w.length + u.length + w'.length := by
    simp only [List.length_append]
    omega
  rw [parseItems, skips, read _ start, bind_ok]
  simp only [skips', test_of_drop byte, decide_eq_true_eq, length]
  rfl

/-- One round over the members of an object. -/
theorem parseMembers_member {w₁ k s w₂ w₃ w₄ : Bytes} {v item : Value} {o : Object} {b' : UInt8}
    (blank₁ : Blank w₁) (chars : Chars k s) (blank₂ : Blank w₂) (blank₃ : Blank w₃)
    (denotes : Denotes u v) (blank₄ : Blank w₄)
    (here : t.drop i =
      w₁ ++ 34 :: (k ++ 34 :: (w₂ ++ 58 :: (w₃ ++ (u ++ (w₄ ++ b' :: rest))))))
    (solid : isSpace b' = false)
    (read : ∀ j, t.drop j = u ++ (w₄ ++ b' :: rest) →
      parseValue t fuel j = .ok (item, j + u.length)) :
    parseMembers t (fuel + 1) i o =
      let j := i + (w₁ ++ 34 :: (k ++ 34 :: (w₂ ++ 58 :: (w₃ ++ (u ++ w₄))))).length
      if b' = 44 then parseMembers t fuel (j + 1) (o.set s item)
      else if b' = 125 then .ok (o.set s item, j + 1)
      else .error .malformed := by
  have skips₁ := skipWs_of_blank blank₁ here (stops_cons rfl)
  have quote := drop_add here
  have name := parseString_of_chars chars quote
  have behind : t.drop (i + w₁.length + k.length + 2) =
      w₂ ++ 58 :: (w₃ ++ (u ++ (w₄ ++ b' :: rest))) := by
    have inside := drop_add (drop_succ quote)
    rw [← drop_succ inside]
    congr 1
    omega
  have skips₂ := skipWs_of_blank blank₂ behind (stops_cons rfl)
  have colon := drop_add behind
  have value := drop_succ colon
  have start := drop_add value
  have after := drop_add start
  have skips₄ := skipWs_of_blank blank₄ after (stops_cons solid)
  have byte := drop_add after
  have length : i + (w₁ ++ 34 :: (k ++ 34 :: (w₂ ++ 58 :: (w₃ ++ (u ++ w₄))))).length =
      i + w₁.length + k.length + 2 + w₂.length + 1 + w₃.length + u.length + w₄.length := by
    simp only [List.length_append, List.length_cons]
    omega
  rw [parseMembers, skips₁, name, bind_ok]
  simp only [skips₂, test_of_drop colon, decide_true, if_true]
  rw [← parseValue_skipWs, skipWs_of_blank blank₃ value denotes.stops, read _ start, bind_ok]
  simp only [skips₄, test_of_drop byte, decide_eq_true_eq, length]
  rfl

/-- A text that closes with the byte that follows it. -/
theorem closes_cons {w : Bytes} (blank : Blank w) (closing : b = 44 ∨ b = 93 ∨ b = 125) :
    Closes (w ++ b :: rest) := by
  apply closes_blank blank
  rintro b' tail same
  obtain ⟨rfl, -⟩ := List.cons.inj same
  exact .inr closing

theorem parseValue_chars {s : Bytes} (chars : Chars u s)
    (here : t.drop i = 34 :: (u ++ [34]) ++ rest) :
    parseValue t (fuel + 1) i = .ok (.str s, i + (34 :: (u ++ [34])).length) := by
  have start : t.drop i = 34 :: (u ++ 34 :: rest) := by simpa using here
  rw [parseValue_start start rfl, if_pos rfl, parseString_of_chars chars start, bind_ok]
  simp
  rfl

theorem parseValue_number {n : Int} (number : Number u n) (here : t.drop i = u ++ rest)
    (closes : Closes rest) :
    parseValue t (fuel + 1) i = .ok (.num (wrap64 n), i + u.length) := by
  obtain ⟨b, tail, rfl, kind, noQuote⟩ : ∃ b tail, u = b :: tail ∧
      (b = 45 || isDigit b) = true ∧ b ≠ 34 := by
    cases number with
    | plus nonempty digits =>
        obtain ⟨b, d', rfl⟩ := List.exists_cons_of_ne_nil nonempty
        have digit := digits b (List.mem_cons_self ..)
        refine ⟨b, _, rfl, by rw [digit, Bool.or_true], ?_⟩
        rintro rfl
        cases digit
    | minus => exact ⟨45, _, rfl, rfl, by decide⟩
  obtain ⟨b', tail', same, solid, -⟩ := (Denotes.num number).starts
  obtain ⟨rfl, -⟩ := List.cons.inj same
  rw [parseValue_start here solid, if_neg noQuote, if_pos kind,
    parseNumber_of_number number here closes, bind_ok]
  rfl

theorem parseValue_null (here : t.drop i = [110, 117, 108, 108] ++ rest) :
    parseValue t (fuel + 1) i = .ok (.str [], i + 4) := by
  have null : (t.drop i).take 4 = [110, 117, 108, 108] := by rw [here]; rfl
  rw [parseValue_start (b := 110) here rfl, if_neg (by decide), if_neg (by decide),
    if_neg (by decide), if_neg (by decide), if_pos null]
  rfl

/-- An array is read when its items are. -/
theorem parseValue_bracket (here : t.drop i = 91 :: rest) :
    parseValue t (fuel + 1) i =
      if test t (skipWs t (i + 1)) (· = 93) then .ok (.list [], skipWs t (i + 1) + 1)
      else parseItems t fuel (i + 1) [] := by
  rw [parseValue_start here rfl, if_neg (by decide), if_neg (by decide), if_neg (by decide),
    if_pos rfl]
  simp only [parseItems_skipWs]
  rfl

/-- An object is read when its members are. -/
theorem parseValue_brace (here : t.drop i = 123 :: rest) :
    parseValue t (fuel + 2) i =
      if test t (skipWs t (i + 1)) (· = 125) then .ok (.obj [], skipWs t (i + 1) + 1)
      else do
        let (o, i) ← parseMembers t fuel (i + 1) {}
        return (.obj o.fields, i) := by
  rw [parseValue_start here rfl, if_neg (by decide), if_neg (by decide), if_pos rfl,
    parseObjectBody]
  simp only [parseMembers_skipWs]
  split <;> rfl

theorem test_blank {w : Bytes} {p : UInt8 → Bool} (blank : Blank w)
    (here : t.drop i = w ++ b :: rest) (solid : isSpace b = false) :
    skipWs t i = i + w.length ∧ test t (skipWs t i) p = p b := by
  have skips := skipWs_of_blank blank here (stops_cons solid)
  refine ⟨skips, ?_⟩
  rw [skips, test_of_drop (drop_add here)]

theorem Items.starts {items : List Value} (denotes : Items u items) :
    ∃ w b tail, u = w ++ b :: tail ∧ Blank w ∧ isSpace b = false ∧ b ≠ 93 := by
  cases denotes with
  | last blank denotes | cons blank denotes =>
      obtain ⟨b, tail, rfl, solid, noBracket⟩ := denotes.starts
      exact ⟨_, b, _, rfl, blank, solid, noBracket⟩

theorem Member.starts {member : Bytes × Value} (denotes : Member u member) :
    ∃ w tail, u = w ++ 34 :: tail ∧ Blank w := by
  obtain ⟨blank⟩ := denotes
  exact ⟨_, _, rfl, blank⟩

theorem Members.starts {members : List (Bytes × Value)} (denotes : Members u members) :
    ∃ w tail, u = w ++ 34 :: tail ∧ Blank w := by
  cases denotes with
  | last member => exact member.starts
  | cons member =>
      obtain ⟨w, tail, rfl, blank⟩ := member.starts
      exact ⟨w, _, List.append_assoc .., blank⟩

mutual

/-- A text that denotes a value is read as that value, with its numbers as a `long long`. -/
theorem parseValue_of_denotes {u : Bytes} {v : Value} : Denotes u v → ∀ {i fuel : Nat}
    {rest : Bytes}, t.drop i = u ++ rest → Closes rest → u.length ≤ fuel →
    parseValue t fuel i = .ok (v.wrapped, i + u.length)
  | .str chars, i, fuel, rest, here, closes, enough => by
      obtain ⟨fuel, rfl⟩ := Nat.exists_eq_add_of_le' (Nat.one_le_of_lt enough)
      exact parseValue_chars chars here
  | .num number, i, fuel, rest, here, closes, enough => by
      obtain ⟨b, tail, rfl, -⟩ := (Denotes.num number).starts
      obtain ⟨fuel, rfl⟩ := Nat.exists_eq_add_of_le' (Nat.one_le_of_lt enough)
      exact parseValue_number number here closes
  | .null, i, fuel, rest, here, closes, enough => by
      obtain ⟨fuel, rfl⟩ := Nat.exists_eq_add_of_le' (Nat.one_le_of_lt enough)
      exact parseValue_null here
  | @Denotes.emptyList w blank, i, fuel, rest, here, closes, enough => by
      obtain ⟨fuel, rfl⟩ := Nat.exists_eq_add_of_le' (Nat.one_le_of_lt enough)
      have start : t.drop i = 91 :: (w ++ 93 :: rest) := by simpa using here
      obtain ⟨skips, closed⟩ := test_blank (p := (· = 93)) blank (drop_succ start) rfl
      rw [parseValue_bracket start, closed, skips]
      simp [Value.wrapped, wrappedItems]
      omega
  | @Denotes.list u items denotes, i, fuel, rest, here, closes, enough => by
      obtain ⟨fuel, rfl⟩ := Nat.exists_eq_add_of_le' (Nat.one_le_of_lt enough)
      have start : t.drop i = 91 :: (u ++ 93 :: rest) := by simpa using here
      obtain ⟨w, b, tail, shape, blank, solid, noBracket⟩ := denotes.starts
      have inside : t.drop (i + 1) = w ++ b :: (tail ++ 93 :: rest) := by
        rw [drop_succ start, shape, List.append_assoc, List.cons_append]
      obtain ⟨-, opens⟩ := test_blank (p := (· = 93)) blank inside solid
      rw [parseValue_bracket start, opens, decide_eq_false noBracket, if_neg (by decide),
        parseItems_of_items denotes (drop_succ start) (by simpa using enough)]
      simp [Value.wrapped]
      omega
  | @Denotes.emptyObj w blank, i, fuel, rest, here, closes, enough => by
      obtain ⟨fuel, rfl⟩ : ∃ fuel', fuel = fuel' + 2 := by
        simp only [List.length_cons, List.length_append] at enough
        exact ⟨fuel - 2, by omega⟩
      have start : t.drop i = 123 :: (w ++ 125 :: rest) := by simpa using here
      obtain ⟨skips, closed⟩ := test_blank (p := (· = 125)) blank (drop_succ start) rfl
      rw [parseValue_brace start, closed, skips]
      simp [Value.wrapped, wrappedFields]
      omega
  | @Denotes.obj u members denotes, i, fuel, rest, here, closes, enough => by
      obtain ⟨fuel, rfl⟩ : ∃ fuel', fuel = fuel' + 2 := by
        simp only [List.length_cons, List.length_append] at enough
        exact ⟨fuel - 2, by omega⟩
      have start : t.drop i = 123 :: (u ++ 125 :: rest) := by simpa using here
      obtain ⟨w, tail, shape, blank⟩ := denotes.starts
      have inside : t.drop (i + 1) = w ++ 34 :: (tail ++ 125 :: rest) := by
        rw [drop_succ start, shape, List.append_assoc, List.cons_append]
      obtain ⟨-, opens⟩ := test_blank (p := (· = 125)) blank inside rfl
      have read := parseMembers_of_members (o := {}) denotes (drop_succ start)
        (by simpa using enough)
      have fields := congrArg Object.fields (foldl_wrapped members {})
      rw [parseValue_brace start, opens, if_neg (by decide), read, bind_ok]
      refine congrArg Except.ok (Prod.ext (congrArg Value.obj fields.symm) ?_)
      simp
      omega

theorem parseItems_of_items {u : Bytes} {vs : List Value} : Items u vs → ∀ {i fuel : Nat}
    {rest : Bytes} {items : List Value}, t.drop i = u ++ 93 :: rest → u.length + 1 ≤ fuel →
    parseItems t fuel i items = .ok (.list (items ++ wrappedItems vs), i + u.length + 1)
  | @Items.last w u w' v blank denotes blank', i, fuel, rest, items, here, enough => by
      obtain ⟨fuel, rfl⟩ := Nat.exists_eq_add_of_le' (Nat.one_le_of_lt enough)
      have here : t.drop i = w ++ (u ++ (w' ++ 93 :: rest)) := by simpa using here
      simp only [List.length_append] at enough
      rw [parseItems_item blank denotes blank' here rfl fun j start =>
        parseValue_of_denotes denotes start (closes_cons blank' (.inr (.inl rfl))) (by omega)]
      rfl
  | @Items.cons w u w' u' v vs blank denotes blank' others, i, fuel, rest, items, here, enough => by
      obtain ⟨fuel, rfl⟩ := Nat.exists_eq_add_of_le' (Nat.one_le_of_lt enough)
      have here : t.drop i = w ++ (u ++ (w' ++ 44 :: (u' ++ 93 :: rest))) := by simpa using here
      simp only [List.length_append, List.length_cons] at enough
      have behind : t.drop (i + (w ++ (u ++ w')).length + 1) = u' ++ 93 :: rest := by
        apply drop_succ (b := 44)
        apply drop_add
        simpa using here
      rw [parseItems_item blank denotes blank' here rfl fun j start =>
        parseValue_of_denotes denotes start (closes_cons blank' (.inl rfl)) (by omega)]
      dsimp only
      rw [if_pos rfl, parseItems_of_items others behind (by omega)]
      simp [wrappedItems]
      omega

theorem parseMembers_of_members {u : Bytes} {members : List (Bytes × Value)} :
    Members u members → ∀ {i fuel : Nat} {rest : Bytes} {o : Object},
    t.drop i = u ++ 125 :: rest → u.length ≤ fuel →
    parseMembers t fuel i o =
      .ok (members.foldl (fun o member => o.set member.1 member.2.wrapped) o, i + u.length + 1)
  | .last member, i, fuel, rest, o, here, enough => by
      rw [parseMembers_of_member member here rfl (.inr (.inr rfl)) enough]
      rfl
  | @Members.cons u u' member members first others, i, fuel, rest, o, here, enough => by
      have here : t.drop i = u ++ 44 :: (u' ++ 125 :: rest) := by simpa using here
      simp only [List.length_append, List.length_cons] at enough
      rw [parseMembers_of_member first here rfl (.inl rfl) (by omega)]
      dsimp only
      rw [if_pos rfl, parseMembers_of_members others (drop_succ (drop_add here)) (by omega)]
      simp
      omega

theorem parseMembers_of_member {u : Bytes} {member : Bytes × Value} : Member u member →
    ∀ {i fuel : Nat} {rest : Bytes} {o : Object} {b' : UInt8}, t.drop i = u ++ b' :: rest →
    isSpace b' = false → (b' = 44 ∨ b' = 93 ∨ b' = 125) → u.length ≤ fuel →
    parseMembers t fuel i o =
      let o' := o.set member.1 member.2.wrapped
      let j := i + u.length
      if b' = 44 then parseMembers t (fuel - 1) (j + 1) o'
      else if b' = 125 then .ok (o', j + 1)
      else .error .malformed
  | @Member.pair w₁ k s w₂ w₃ u w₄ v blank₁ chars blank₂ blank₃ denotes blank₄, i, fuel, rest, o,
      b', here, solid, closing, enough => by
      simp only [List.length_append, List.length_cons] at enough
      obtain ⟨fuel, rfl⟩ : ∃ fuel', fuel = fuel' + 1 := ⟨fuel - 1, by omega⟩
      have here : t.drop i =
          w₁ ++ 34 :: (k ++ 34 :: (w₂ ++ 58 :: (w₃ ++ (u ++ (w₄ ++ b' :: rest))))) := by
        simpa using here
      exact parseMembers_member blank₁ chars blank₂ blank₃ denotes blank₄ here solid
        fun j start => parseValue_of_denotes denotes start (closes_cons blank₄ closing) (by omega)

end

theorem Denotes.brace {fields : List (Bytes × Value)} (denotes : Denotes u (.obj fields)) :
    ∃ tail, u = 123 :: tail := by
  cases denotes <;> exact ⟨_, rfl⟩

/-- A text of the language is accepted. -/
theorem parse_of_document {o : Object} (document : Document t o) : parse t = .ok o.wrapped := by
  obtain @⟨w, u, w', o, blank, denotes, blank'⟩ := document
  generalize text : w ++ (u ++ w') = t
  have here : t.drop w.length = u ++ w' := by rw [← text, List.drop_left]
  have skips : skipWs t 0 = w.length := by
    rw [skipWs_of_blank (i := 0) blank text.symm denotes.stops, Nat.zero_add]
  have ends : skipWs t (w.length + u.length) = t.length := by
    have behind : t.drop (w.length + u.length) = w' ++ [] := by
      rw [drop_add here, List.append_nil]
    rw [skipWs_of_blank blank' behind nofun, ← text]
    simp only [List.length_append]
    omega
  have nothing : Closes [] := nofun
  have closes : Closes w' := by simpa using closes_blank blank' nothing
  have enough : u.length ≤ fuelFor t + 1 := by
    simp only [fuelFor, ← text, List.length_append]
    omega
  have read := parseValue_of_denotes denotes here closes enough
  obtain ⟨tail, rfl⟩ := denotes.brace
  have opens : test t w.length (· = 123) = true := test_of_drop here _
  rw [parseValue_start here rfl, if_neg (by decide), if_neg (by decide), if_pos rfl] at read
  obtain ⟨⟨o', k⟩, body, same⟩ := bind_eq_ok read
  obtain ⟨fields, rfl⟩ := Prod.mk.inj (Except.ok.inj same)
  obtain rfl : o' = o.wrapped := congrArg Object.mk (Value.obj.inj fields)
  unfold parse
  simp only [skips, opens, if_true]
  rw [body, bind_ok]
  simp only [ends, if_true]
  rfl

/-- The parser accepts exactly the documented language, and as long as no number of the
result is out of range, the result is what the text denotes. -/
theorem parse_iff (t : Bytes) :
    ((∃ o, parse t = .ok o) ↔ ∃ o, Document t o) ∧
      ∀ o, Document t o → o.InRange → parse t = .ok o := by
  refine ⟨⟨?_, ?_⟩, ?_⟩
  · rintro ⟨o, ok⟩
    obtain ⟨o', document, -⟩ := document_of_parse ok
    exact ⟨o', document⟩
  · rintro ⟨o, document⟩
    exact ⟨o.wrapped, parse_of_document document⟩
  · intro o document range
    rw [parse_of_document document, Object.wrapped_of_range range]

/-- A fraction counts for its integer part, and the last of two members of one name wins. -/
theorem parse_iff_pair : parse (bytes " \x7b\"k\":null, \"k\" :[-12.5e+,7] \x7d") =
    .ok (({} : Object).set (bytes "k") (.list [.num (-12), .num 7])) := by
  have none : Blank [] := List.forall_mem_nil _
  have space : Blank [32] := by decide +kernel
  have name : Chars (bytes "k") (bytes "k") :=
    .cons (.byte (b := 107) (by decide +kernel) (by decide +kernel) (by decide +kernel)) .nil
  have minus : Number (bytes "-12.5e+") (-12) :=
    .minus (d := bytes "12") (by decide +kernel) (by decide +kernel) (.digits (t := bytes "5") (by decide +kernel))
      (.signed (e := 101) (s := 43) (t := []) (.inl rfl) (.inl rfl) nofun)
  have plus : Number (bytes "7") 7 :=
    .plus (d := bytes "7") (by decide +kernel) (by decide +kernel) .none .none
  have items := Denotes.list (.cons none (.num minus) none (.last none (.num plus) none))
  have members := Members.cons (.pair none name none none .null none)
    (.last (.pair space name space none items space))
  have document := Document.object (o := collect _) space (.obj members) none
  exact (parse_iff _).2 _ document (by decide +kernel)

end OnlineChat.MiniJson
