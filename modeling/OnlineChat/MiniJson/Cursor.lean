import OnlineChat.Library.Scanning
import OnlineChat.MiniJson.Grammar

/-!
# The index of the parser

`minijson.h` passes its index by reference, so that a call that fails leaves it somewhere. Here
the parsers keep it, and every one moves it only forward and inside the text, reads nothing
behind the end and comes to an end.
-/

namespace OnlineChat.MiniJson.Cursor

open Library

/-! ## The parsers with their index -/

/-- `t[i + k]`. -/
def read (t : Bytes) (k : Nat) : Scan Stop UInt8 := do
  MonadExcept.ofExcept (byteAt t ((← get) + k))

/-- `i < t.size() && p(t[i])`. -/
def sees (t : Bytes) (p : UInt8 → Bool) : Scan Stop Bool := return test t (← get) p

def skipWs (t : Bytes) : Scan Stop Unit := modify (MiniJson.skipWs t)

def skipDigits (t : Bytes) : Scan Stop Unit := modify (skipWhile isDigit t)

/-- `++i` as often as that. -/
def advance (k : Nat) : Scan Stop Unit := modify (· + k)

def parseUnicode (t : Bytes) (out : Bytes) : Scan Stop Bytes := do
  let cu ← MonadExcept.ofExcept (hex4 t ((← get) + 1))
  advance 5
  if 0xD800 ≤ cu ∧ cu ≤ 0xDBFF then
    if (← get) + 1 ≥ t.length then throw .malformed
    if (← read t 0) ≠ 92 then throw .malformed
    if (← read t 1) ≠ 117 then throw .malformed
    let lo ← MonadExcept.ofExcept (hex4 t ((← get) + 2))
    if lo < 0xDC00 ∨ lo > 0xDFFF then throw .malformed
    advance 6
    MonadExcept.ofExcept (appendUtf8 out (0x10000 + (cu - 0xD800) * 1024 + (lo - 0xDC00)))
  else if 0xDC00 ≤ cu ∧ cu ≤ 0xDFFF then throw .malformed
  else MonadExcept.ofExcept (appendUtf8 out cu)

/-- The escape whose letter is at the index. -/
def parseEscape (t : Bytes) (out : Bytes) : Scan Stop Bytes := do
  if (← get) ≥ t.length then throw .malformed
  let e ← read t 0
  match shortEscape e with
  | some b =>
    advance 1
    return out ++ [b]
  | none => if e = 117 then parseUnicode t out else throw .malformed

def parseStringLoop (t : Bytes) : Nat → Bytes → Scan Stop Bytes
  | 0, _ => throw .outOfFuel
  | fuel + 1, out => do
    if (← get) ≥ t.length then throw .malformed
    let c ← read t 0
    if c = 34 then
      advance 1
      return out
    else if c = 92 then
      advance 1
      let out ← parseEscape t out
      parseStringLoop t fuel out
    else if c < 32 then throw .malformed
    else
      advance 1
      parseStringLoop t fuel (out ++ [c])

def parseString (t : Bytes) : Scan Stop Bytes := do
  if ← sees t (· = 34) then
    advance 1
    parseStringLoop t (t.length + 1) []
  else throw .malformed

def skipFraction (t : Bytes) : Scan Stop Unit := do
  if ← sees t (· = 46) then
    advance 1
    skipDigits t

def skipExponent (t : Bytes) : Scan Stop Unit := do
  if ← sees t (fun b => b = 101 || b = 69) then
    advance 1
    if ← sees t (fun b => b = 43 || b = 45) then advance 1
    skipDigits t

def parseNumber (t : Bytes) : Scan Stop Int := do
  let neg ← sees t (· = 45)
  if neg then advance 1
  if ← sees t isDigit then
    let v := accumulate 0 ((t.drop (← get)).takeWhile isDigit)
    skipDigits t
    skipFraction t
    skipExponent t
    return if neg then wrap64 (-v) else v
  else throw .malformed

mutual

def parseValue (t : Bytes) : Nat → Scan Stop Value
  | 0 => throw .outOfFuel
  | fuel + 1 => do
    skipWs t
    if (← get) ≥ t.length then throw .malformed
    let c ← read t 0
    if c = 34 then return .str (← parseString t)
    else if c = 45 || isDigit c then return .num (← parseNumber t)
    else if c = 123 then return .obj (← parseObjectBody t fuel).fields
    else if c = 91 then
      advance 1
      skipWs t
      if ← sees t (· = 93) then
        advance 1
        return .list []
      else parseItems t fuel []
    else if (t.drop (← get)).take 4 = [110, 117, 108, 108] then
      advance 4
      return .str []
    else throw .malformed

def parseItems (t : Bytes) : Nat → List Value → Scan Stop Value
  | 0, _ => throw .outOfFuel
  | fuel + 1, items => do
    skipWs t
    let item ← parseValue t fuel
    let items := items ++ [item]
    skipWs t
    if ← sees t (· = 44) then
      advance 1
      parseItems t fuel items
    else if ← sees t (· = 93) then
      advance 1
      return .list items
    else throw .malformed

def parseObjectBody (t : Bytes) : Nat → Scan Stop Object
  | 0 => throw .outOfFuel
  | fuel + 1 => do
    advance 1
    skipWs t
    if ← sees t (· = 125) then
      advance 1
      return {}
    else parseMembers t fuel {}

def parseMembers (t : Bytes) : Nat → Object → Scan Stop Object
  | 0, _ => throw .outOfFuel
  | fuel + 1, out => do
    skipWs t
    let key ← parseString t
    skipWs t
    if ← sees t (· = 58) then
      advance 1
      let v ← parseValue t fuel
      let out := out.set key v
      skipWs t
      if ← sees t (· = 44) then
        advance 1
        parseMembers t fuel out
      else if ← sees t (· = 125) then
        advance 1
        return out
      else throw .malformed
    else throw .malformed

end

def parse (text : Bytes) : Scan Stop Object := do
  skipWs text
  if ← sees text (· = 123) then
    let out ← parseObjectBody text (fuelFor text)
    skipWs text
    if (← get) = text.length then return out else throw .malformed
  else throw .malformed

variable {α β : Type} {t : Bytes} {i k fuel : Nat} {post : α → Nat → Prop}

/-! ## Steps of the index -/

/-- The parser keeps the index inside the text and fails only because the text is malformed. -/
abbrev Keeps (t : Bytes) (p : Scan Stop α) (i : Nat) (post : α → Nat → Prop) : Prop :=
  Scan.Meets t.length (· = .malformed) p i post

theorem keeps_malformed (inside : i ≤ t.length) : Keeps t (throw .malformed) i post :=
  Scan.meets_throw _ inside rfl

/-- An early return. -/
theorem keeps_guard {c : Prop} [Decidable c] {rest : PUnit → Scan Stop α} (inside : i ≤ t.length)
    (passes : ¬ c → Keeps t (rest ⟨⟩) i post) :
    Keeps t (if c then throw .malformed >>= rest else rest ⟨⟩) i post :=
  Scan.meets_ite (fun _ => .bind (Scan.meets_throw _ inside rfl)) passes

theorem keeps_read {post : UInt8 → Nat → Prop} (inside : i + k < t.length)
    (holds : ∀ b, t[i + k]? = some b → post b i) : Keeps t (read t k) i post := by
  have found : t[i + k]? = some t[i + k] := List.getElem?_eq_getElem inside
  refine .bind (Scan.meets_get (by omega) (Scan.meets_ofExcept (by omega) ?_ ?_))
  · intro e stopped
    rw [byteAt, found] at stopped
    cases stopped
  · intro b read
    rw [byteAt, found] at read
    exact holds b (Except.ok.inj read ▸ found)

theorem keeps_sees {p : UInt8 → Bool} {post : Bool → Nat → Prop} (inside : i ≤ t.length)
    (holds : post (test t i p) i) : Keeps t (sees t p) i post :=
  .bind (Scan.meets_get inside (Scan.meets_pure _ inside holds))

theorem keeps_advance {post : Unit → Nat → Prop} (inside : i + k ≤ t.length)
    (holds : post () (i + k)) : Keeps t (advance k) i post :=
  Scan.meets_modify (Nat.le_add_right i k) inside holds

theorem lt_of_test {p : UInt8 → Bool} (holds : test t i p = true) : i < t.length := by
  obtain ⟨b, -, here⟩ := drop_of_test holds
  exact lt_of_drop here

theorem skipWhile_le (p : UInt8 → Bool) (inside : i ≤ t.length) : skipWhile p t i ≤ t.length := by
  have taken : ((t.drop i).takeWhile p).length ≤ (t.drop i).length :=
    (List.takeWhile_sublist p).length_le
  rw [List.length_drop] at taken
  rw [skipWhile, countWhile_eq]
  omega

theorem lt_skipWhile {p : UInt8 → Bool} (holds : test t i p = true) : i < skipWhile p t i := by
  obtain ⟨b, byte, here⟩ := drop_of_test holds
  rw [skipWhile, here, countWhile, if_pos byte]
  omega

theorem keeps_skipWhile {p : UInt8 → Bool} {post : Unit → Nat → Prop} (inside : i ≤ t.length)
    (holds : ∀ j, i ≤ j → j ≤ t.length → post () j) :
    Keeps t (modify (skipWhile p t)) i post :=
  Scan.meets_modify (Nat.le_add_right ..) (skipWhile_le p inside)
    (holds _ (Nat.le_add_right ..) (skipWhile_le p inside))

/-! ## Escapes -/

theorem malformed_of_hexDigit {h : UInt8} {e : Stop} (stopped : hexDigit h = .error e) :
    e = .malformed := by
  unfold hexDigit at stopped
  split at stopped
  · cases stopped
  split at stopped
  · cases stopped
  split at stopped <;> cases stopped
  rfl

theorem malformed_of_appendUtf8 {out : Bytes} {cp : Nat} {e : Stop}
    (stopped : appendUtf8 out cp = .error e) : e = .malformed := by
  unfold appendUtf8 at stopped
  dsimp only at stopped
  repeat' split at stopped
  all_goals cases stopped
  rfl

theorem malformed_of_bind {x : Except Stop α} {f : α → Except Stop β} {e : Stop}
    (stopped : x >>= f = .error e) (first : ∀ e, x = .error e → e = .malformed)
    (second : ∀ a, f a = .error e → e = .malformed) : e = .malformed := by
  cases x with
  | error e' => exact Except.error.inj stopped ▸ first e' rfl
  | ok a => exact second a stopped

theorem malformed_of_digit {e : Stop} (inside : i < t.length)
    (stopped : byteAt t i >>= hexDigit = .error e) : e = .malformed := by
  rw [byteAt, List.getElem?_eq_getElem inside] at stopped
  exact malformed_of_hexDigit stopped

/-- All four digits are inside the text when the first one is read. -/
theorem malformed_of_hex4 {e : Stop} (stopped : hex4 t i = .error e) : e = .malformed := by
  unfold hex4 at stopped
  split at stopped
  · cases stopped
    rfl
  next room =>
    refine malformed_of_bind stopped (fun _ => malformed_of_digit (by omega)) ?_
    intro d0 stopped
    refine malformed_of_bind stopped (fun _ => malformed_of_digit (by omega)) ?_
    intro d1 stopped
    refine malformed_of_bind stopped (fun _ => malformed_of_digit (by omega)) ?_
    intro d2 stopped
    refine malformed_of_bind stopped (fun _ => malformed_of_digit (by omega)) ?_
    exact fun _ stopped => nomatch stopped

theorem le_of_hex4 {n : Nat} (ok : hex4 t i = .ok n) : i + 4 ≤ t.length := by
  unfold hex4 at ok
  split at ok
  · cases ok
  next room => omega

theorem keeps_hex4 {post : Nat → Nat → Prop} (inside : i ≤ t.length)
    (holds : ∀ n, i + k + 4 ≤ t.length → post n i) :
    Keeps t (do MonadExcept.ofExcept (hex4 t ((← get) + k))) i post :=
  .bind (Scan.meets_get inside (Scan.meets_ofExcept inside (fun _ => malformed_of_hex4)
    fun n ok => holds n (le_of_hex4 ok)))

theorem keeps_appendUtf8 {out : Bytes} {cp : Nat} {post : Bytes → Nat → Prop}
    (inside : i ≤ t.length) (holds : ∀ out, post out i) :
    Keeps t (MonadExcept.ofExcept (appendUtf8 out cp)) i post :=
  Scan.meets_ofExcept inside (fun _ => malformed_of_appendUtf8) fun out _ => holds out

/-- Entered at the letter of the escape. -/
theorem keeps_parseUnicode (inside : i < t.length) (out : Bytes) :
    Keeps t (parseUnicode t out) i fun _ j => i < j := by
  unfold parseUnicode
  rw [← bind_assoc]
  refine .bind (keeps_hex4 inside.le fun cu room => ?_)
  refine .bind (keeps_advance (by omega) ?_)
  refine Scan.meets_ite (fun high => ?_) fun _ =>
    Scan.meets_ite (fun _ => keeps_malformed (by omega)) fun _ => ?_
  · refine .bind (Scan.meets_get (by omega) ?_)
    refine keeps_guard (by omega) fun two => ?_
    refine .bind (keeps_read (by omega) fun b0 _ => ?_)
    refine keeps_guard (by omega) fun _ => ?_
    refine .bind (keeps_read (by omega) fun b1 _ => ?_)
    refine keeps_guard (by omega) fun _ => ?_
    rw [← bind_assoc]
    refine .bind (keeps_hex4 (by omega) fun lo room' => ?_)
    refine keeps_guard (by omega) fun _ => ?_
    refine .bind (keeps_advance (by omega) ?_)
    exact keeps_appendUtf8 (by omega) fun _ => by omega
  · exact keeps_appendUtf8 (by omega) fun _ => by omega

theorem keeps_parseEscape (inside : i ≤ t.length) (out : Bytes) :
    Keeps t (parseEscape t out) i fun _ j => i < j := by
  unfold parseEscape
  refine .bind (Scan.meets_get inside ?_)
  refine keeps_guard inside fun letter => ?_
  refine .bind (keeps_read (by omega) fun e _ => ?_)
  cases shortEscape e with
  | some b => exact .bind (keeps_advance (by omega) (Scan.meets_pure _ (by omega) (by omega)))
  | none =>
      refine Scan.meets_ite (fun _ => ?_) fun _ => keeps_malformed inside
      exact keeps_parseUnicode (by omega) out

/-! ## Strings and numbers -/

/-- Every round of the loop reads a byte at least, so that as many rounds as there are bytes
left end it. -/
theorem keeps_parseStringLoop (inside : i ≤ t.length) (enough : t.length - i < fuel)
    (out : Bytes) : Keeps t (parseStringLoop t fuel out) i fun _ j => i < j := by
  induction fuel generalizing i out with
  | zero => omega
  | succ fuel inductionHypothesis =>
      have again : ∀ j out, i < j → j ≤ t.length →
          Keeps t (parseStringLoop t fuel out) j fun _ j' => i < j' := by
        intro j out later inside
        exact (inductionHypothesis inside (by omega) out).mono fun _ _ _ _ further => by omega
      unfold parseStringLoop
      refine .bind (Scan.meets_get inside ?_)
      refine keeps_guard inside fun here => ?_
      refine .bind (keeps_read (by omega) fun c _ => ?_)
      refine Scan.meets_ite (fun _ => ?_) fun _ => Scan.meets_ite (fun _ => ?_) fun _ =>
        Scan.meets_ite (fun _ => keeps_malformed inside) fun _ => ?_
      · -- the closing quote
        exact .bind (keeps_advance (by omega) (Scan.meets_pure _ (by omega) (by omega)))
      · -- an escape
        refine .bind (keeps_advance (by omega) ?_)
        refine (keeps_parseEscape (by omega) out).andThen fun out j _ inside further => ?_
        exact again j out (by omega) inside
      · -- any other byte
        exact .bind (keeps_advance (by omega) (again _ _ (by omega) (by omega)))

theorem keeps_parseString (inside : i ≤ t.length) :
    Keeps t (parseString t) i fun _ j => i < j := by
  unfold parseString
  refine .bind (keeps_sees inside ?_)
  refine Scan.meets_ite (fun quote => ?_) fun _ => keeps_malformed inside
  have here := lt_of_test quote
  refine .bind (keeps_advance here ?_)
  exact (keeps_parseStringLoop here (by omega) []).mono fun _ _ _ _ later => by omega

/-- A sign that may be there. -/
theorem keeps_sign {p : UInt8 → Bool} {rest : PUnit → Scan Stop α} (inside : i ≤ t.length)
    (next : ∀ j, i ≤ j → j ≤ t.length → Keeps t (rest ⟨⟩) j post) :
    Keeps t (if test t i p = true then advance 1 >>= rest else rest ⟨⟩) i post := by
  refine Scan.meets_ite (fun sign => ?_) fun _ => next i le_rfl inside
  exact .bind (keeps_advance (lt_of_test sign) (next _ (by omega) (lt_of_test sign)))

theorem keeps_skipFraction (inside : i ≤ t.length) :
    Keeps t (skipFraction t) i fun _ j => i ≤ j := by
  unfold skipFraction
  refine .bind (keeps_sees inside ?_)
  refine Scan.meets_ite (fun point => ?_) fun _ => Scan.meets_pure _ inside le_rfl
  refine .bind (keeps_advance (lt_of_test point) ?_)
  exact keeps_skipWhile (lt_of_test point) fun _ later _ => by omega

theorem keeps_skipExponent (inside : i ≤ t.length) :
    Keeps t (skipExponent t) i fun _ j => i ≤ j := by
  unfold skipExponent
  refine .bind (keeps_sees inside ?_)
  refine Scan.meets_ite (fun letter => ?_) fun _ => Scan.meets_pure _ inside le_rfl
  have here := lt_of_test letter
  refine .bind (keeps_advance here ?_)
  refine .bind (keeps_sees here ?_)
  refine keeps_sign here fun j later inside => ?_
  exact keeps_skipWhile inside fun _ further _ => by omega

/-- There is a digit at least. -/
theorem keeps_parseNumber (inside : i ≤ t.length) :
    Keeps t (parseNumber t) i fun _ j => i < j := by
  unfold parseNumber
  refine .bind (keeps_sees inside ?_)
  refine keeps_sign inside fun j later inside => ?_
  refine .bind (keeps_sees inside ?_)
  refine Scan.meets_ite (fun digit => ?_) fun _ => keeps_malformed inside
  refine .bind (Scan.meets_get inside ?_)
  refine .bind (Scan.meets_modify (Nat.le_add_right ..) (skipWhile_le isDigit inside) ?_)
  have passed := lt_skipWhile digit
  have inside := skipWhile_le isDigit inside
  refine (keeps_skipFraction inside).andThen fun _ j' _ inside later' => ?_
  refine (keeps_skipExponent inside).andThen fun _ j'' _ inside later'' => ?_
  exact Scan.meets_pure _ inside (by omega)

/-! ## Values -/

/-- A closing byte ends the value; otherwise it goes on. -/
theorem keeps_close {p : UInt8 → Bool} {a : α} {others : Scan Stop α} {start : Nat}
    (later : start ≤ i) (goesOn : Keeps t others i fun _ j => start < j) :
    Keeps t (if test t i p = true then advance 1 >>= fun _ => pure a else others) i
      fun _ j => start < j := by
  refine Scan.meets_ite (fun closing => ?_) fun _ => goesOn
  have here := lt_of_test closing
  exact .bind (keeps_advance here (Scan.meets_pure _ here (by omega)))

/-- With so much fuel the parsers of values come to an end: a level of nesting and a round of
a loop take two rounds at most for every byte that they pass. -/
structure Ends (t : Bytes) (fuel : Nat) : Prop where
  value : ∀ i, i ≤ t.length → 2 * (t.length - i) + 1 ≤ fuel →
    Keeps t (parseValue t fuel) i fun _ j => i < j
  items : ∀ i items, i ≤ t.length → 2 * (t.length - i) + 2 ≤ fuel →
    Keeps t (parseItems t fuel items) i fun _ j => i < j
  body : ∀ i, i < t.length → 2 * (t.length - i) ≤ fuel →
    Keeps t (parseObjectBody t fuel) i fun _ j => i < j
  members : ∀ i out, i ≤ t.length → 2 * (t.length - i) + 1 ≤ fuel →
    Keeps t (parseMembers t fuel out) i fun _ j => i < j

theorem Ends.parseValue (ends : Ends t fuel) (inside : i ≤ t.length)
    (enough : 2 * (t.length - i) + 1 ≤ fuel + 1) :
    Keeps t (Cursor.parseValue t (fuel + 1)) i fun _ j => i < j := by
  unfold Cursor.parseValue
  refine .bind (keeps_skipWhile inside fun j later inside => ?_)
  refine .bind (Scan.meets_get inside ?_)
  refine keeps_guard inside fun here => ?_
  refine .bind (keeps_read (by omega) fun c _ => ?_)
  refine Scan.meets_ite (fun _ => ?_) fun _ => Scan.meets_ite (fun _ => ?_) fun _ =>
    Scan.meets_ite (fun _ => ?_) fun _ => Scan.meets_ite (fun _ => ?_) fun _ => ?_
  · refine (keeps_parseString inside).andThen fun s j' _ inside' further => ?_
    exact Scan.meets_pure _ inside' (by omega)
  · refine (keeps_parseNumber inside).andThen fun n j' _ inside' further => ?_
    exact Scan.meets_pure _ inside' (by omega)
  · refine (ends.body j (by omega) (by omega)).andThen fun o j' _ inside' further => ?_
    exact Scan.meets_pure _ inside' (by omega)
  · refine .bind (keeps_advance (by omega) ?_)
    refine .bind (keeps_skipWhile (by omega) fun j' later' inside' => ?_)
    refine .bind (keeps_sees inside' (keeps_close (by omega) ?_))
    exact (ends.items j' [] inside' (by omega)).mono fun _ _ _ _ further => by omega
  · refine .bind (Scan.meets_get inside ?_)
    refine Scan.meets_ite (fun null => ?_) fun _ => keeps_malformed inside
    have four : ((t.drop j).take 4).length = 4 := by rw [null]; rfl
    rw [List.length_take, List.length_drop] at four
    exact .bind (keeps_advance (by omega) (Scan.meets_pure _ (by omega) (by omega)))

theorem Ends.parseItems (ends : Ends t fuel) (items : List Value) (inside : i ≤ t.length)
    (enough : 2 * (t.length - i) + 2 ≤ fuel + 1) :
    Keeps t (Cursor.parseItems t (fuel + 1) items) i fun _ j => i < j := by
  unfold Cursor.parseItems
  refine .bind (keeps_skipWhile inside fun j later inside => ?_)
  refine (ends.value j inside (by omega)).andThen fun item j' _ inside' further => ?_
  refine .bind (keeps_skipWhile inside' fun k later' inside => ?_)
  refine .bind (keeps_sees inside ?_)
  refine Scan.meets_ite (fun comma => ?_) fun _ => ?_
  · refine .bind (keeps_advance (lt_of_test comma) ?_)
    exact (ends.items _ _ (lt_of_test comma) (by omega)).mono fun _ _ _ _ last => by omega
  · refine .bind (keeps_sees inside ?_)
    exact keeps_close (by omega) (keeps_malformed inside)

theorem Ends.parseObjectBody (ends : Ends t fuel) (inside : i < t.length)
    (enough : 2 * (t.length - i) ≤ fuel + 1) :
    Keeps t (Cursor.parseObjectBody t (fuel + 1)) i fun _ j => i < j := by
  unfold Cursor.parseObjectBody
  refine .bind (keeps_advance inside ?_)
  refine .bind (keeps_skipWhile inside fun j later inside' => ?_)
  refine .bind (keeps_sees inside' (keeps_close (by omega) ?_))
  exact (ends.members j {} inside' (by omega)).mono fun _ _ _ _ further => by omega

theorem Ends.parseMembers (ends : Ends t fuel) (out : Object) (inside : i ≤ t.length)
    (enough : 2 * (t.length - i) + 1 ≤ fuel + 1) :
    Keeps t (Cursor.parseMembers t (fuel + 1) out) i fun _ j => i < j := by
  unfold Cursor.parseMembers
  refine .bind (keeps_skipWhile inside fun j later inside => ?_)
  refine (keeps_parseString inside).andThen fun key j' _ inside' further => ?_
  refine .bind (keeps_skipWhile inside' fun k later' inside => ?_)
  refine .bind (keeps_sees inside ?_)
  refine Scan.meets_ite (fun colon => ?_) fun _ => keeps_malformed inside
  refine .bind (keeps_advance (lt_of_test colon) ?_)
  refine (ends.value _ (lt_of_test colon) (by omega)).andThen fun v k' _ inside' _ => ?_
  refine .bind (keeps_skipWhile inside' fun l later'' inside => ?_)
  refine .bind (keeps_sees inside ?_)
  refine Scan.meets_ite (fun comma => ?_) fun _ => ?_
  · refine .bind (keeps_advance (lt_of_test comma) ?_)
    exact (ends.members _ _ (lt_of_test comma) (by omega)).mono fun _ _ _ _ last => by omega
  · refine .bind (keeps_sees inside ?_)
    exact keeps_close (by omega) (keeps_malformed inside)

theorem ends (t : Bytes) (fuel : Nat) : Ends t fuel := by
  induction fuel with
  | zero =>
      refine ⟨?_, ?_, ?_, ?_⟩
      · exact fun _ _ enough => absurd enough (by omega)
      · exact fun _ _ _ enough => absurd enough (by omega)
      · exact fun _ here enough => absurd enough (by omega)
      · exact fun _ _ _ enough => absurd enough (by omega)
  | succ fuel inductionHypothesis =>
      refine ⟨?_, ?_, ?_, ?_⟩
      · exact fun _ inside enough => inductionHypothesis.parseValue inside enough
      · exact fun _ items inside enough => inductionHypothesis.parseItems items inside enough
      · exact fun _ here enough => inductionHypothesis.parseObjectBody here enough
      · exact fun _ out inside enough => inductionHypothesis.parseMembers out inside enough

/-- `parse` hands on fuel for the whole text. -/
theorem keeps_parse (t : Bytes) : Keeps t (parse t) 0 fun _ j => 0 < j := by
  unfold parse
  refine .bind (keeps_skipWhile (Nat.zero_le _) fun j _ inside => ?_)
  refine .bind (keeps_sees inside ?_)
  refine Scan.meets_ite (fun brace => ?_) fun _ => keeps_malformed inside
  have enough : 2 * (t.length - j) ≤ fuelFor t := by
    unfold fuelFor
    omega
  refine ((ends t _).body j (lt_of_test brace) enough).andThen fun o j' _ inside' further => ?_
  refine .bind (keeps_skipWhile inside' fun k later' inside => ?_)
  refine .bind (Scan.meets_get inside ?_)
  exact Scan.meets_ite (fun _ => Scan.meets_pure _ inside (by omega)) fun _ =>
    keeps_malformed inside

/-! ## The parsers without the index of a failure -/

theorem map_eq_bind {ε : Type} (r : Except ε α) (f : α → β) :
    r.map f = r >>= fun a => .ok (f a) := (rfl)

theorem throw_eq {ε : Type} (e : ε) : (throw e : Except ε α) = .error e := (rfl)

theorem pure_eq {ε : Type} (a : α) : (pure a : Except ε α) = .ok a := (rfl)

theorem error_bind {ε : Type} (e : ε) (f : α → Except ε β) :
    (Except.error e >>= f) = .error e := (rfl)

theorem plain_parseUnicode (t out : Bytes) (i : Nat) :
    (parseUnicode t out).plain i = MiniJson.parseUnicode t i out := by
  unfold parseUnicode MiniJson.parseUnicode
  simp only [read, advance, bind_assoc, Scan.plain_get_bind, Scan.plain_ofExcept_bind,
    Scan.plain_modify_bind, Scan.plain_ite, Scan.plain_throw, Scan.plain_ofExcept,
    Scan.plain_throw_bind, map_eq_bind, throw_eq, pure_eq, error_bind, Nat.add_zero]

theorem plain_parseEscape_bind (t out : Bytes) (f : Bytes → Scan Stop β) (i : Nat) :
    (parseEscape t out >>= f).plain i =
      if i ≥ t.length then .error .malformed
      else byteAt t i >>= fun e =>
        match shortEscape e with
        | some b => (f (out ++ [b])).plain (i + 1)
        | none =>
          if e = 117 then
            MiniJson.parseUnicode t i out >>= fun passed => (f passed.1).plain passed.2
          else .error .malformed := by
  unfold parseEscape
  split
  next behind =>
    rw [bind_assoc, Scan.plain_get_bind, if_pos behind]
    rfl
  next here =>
    simp only [bind_assoc, Scan.plain_get_bind, if_neg here, read, Scan.plain_ofExcept_bind,
      Nat.add_zero]
    cases byteAt t i with
    | error e => rfl
    | ok e =>
        rw [bind_ok, bind_ok]
        cases shortEscape e with
        | some b => rfl
        | none =>
            dsimp only
            split
            · rw [Scan.plain_bind, plain_parseUnicode]
            · rfl

theorem plain_parseStringLoop (t : Bytes) (fuel i : Nat) (out : Bytes) :
    (parseStringLoop t fuel out).plain i = MiniJson.parseStringLoop t fuel i out := by
  induction fuel generalizing i out with
  | zero => rfl
  | succ fuel inductionHypothesis =>
      unfold parseStringLoop
      simp only [read, advance, bind_assoc, Scan.plain_get_bind, Scan.plain_ofExcept_bind,
        Scan.plain_modify_bind, Scan.plain_ite, Scan.plain_throw, Scan.plain_pure,
        Scan.plain_throw_bind, Nat.add_zero, inductionHypothesis, plain_parseEscape_bind]
      rfl

theorem plain_parseString (t : Bytes) (i : Nat) :
    (parseString t).plain i = MiniJson.parseString t i := by
  unfold parseString MiniJson.parseString
  simp only [sees, advance, bind_assoc, pure_bind, Scan.plain_get_bind, Scan.plain_modify_bind,
    Scan.plain_ite, Scan.plain_throw, plain_parseStringLoop]

theorem plain_skipFraction_bind (t : Bytes) (f : Unit → Scan Stop β) (i : Nat) :
    (skipFraction t >>= f).plain i = (f ()).plain (fractionEnd t i) := by
  unfold skipFraction fractionEnd
  simp only [sees, bind_assoc, pure_bind, Scan.plain_get_bind]
  split <;> rfl

theorem plain_skipExponent_bind (t : Bytes) (f : Unit → Scan Stop β) (i : Nat) :
    (skipExponent t >>= f).plain i = (f ()).plain (exponentEnd t i) := by
  unfold skipExponent exponentEnd
  simp only [sees, advance, bind_assoc, pure_bind, Scan.plain_get_bind]
  split
  · simp only [bind_assoc, Scan.plain_modify_bind, Scan.plain_get_bind]
    split <;> rfl
  · rfl

theorem plain_parseNumber (t : Bytes) (i : Nat) :
    (parseNumber t).plain i = MiniJson.parseNumber t i := by
  rw [parseNumber_eq]
  unfold parseNumber
  simp only [sees, advance, skipDigits, bind_assoc, pure_bind, Scan.plain_get_bind,
    Scan.plain_modify_bind, Scan.plain_ite, Scan.plain_throw, Scan.plain_pure,
    plain_skipFraction_bind, plain_skipExponent_bind]
  split <;> rfl

/-- The parsers of values agree at that fuel. -/
structure Agrees (t : Bytes) (fuel : Nat) : Prop where
  value : ∀ i, (parseValue t fuel).plain i = MiniJson.parseValue t fuel i
  items : ∀ items i, (parseItems t fuel items).plain i = MiniJson.parseItems t fuel i items
  body : ∀ i, (parseObjectBody t fuel).plain i = MiniJson.parseObjectBody t fuel i
  members : ∀ out i, (parseMembers t fuel out).plain i = MiniJson.parseMembers t fuel i out

theorem agrees (t : Bytes) (fuel : Nat) : Agrees t fuel := by
  induction fuel with
  | zero =>
      refine ⟨fun i => ?_, fun items i => ?_, fun i => ?_, fun out i => ?_⟩
      · rw [parseValue, MiniJson.parseValue, Scan.plain_throw]
      · rw [parseItems, MiniJson.parseItems, Scan.plain_throw]
      · rw [parseObjectBody, MiniJson.parseObjectBody, Scan.plain_throw]
      · rw [parseMembers, MiniJson.parseMembers, Scan.plain_throw]
  | succ fuel agrees =>
      refine ⟨fun i => ?_, fun items i => ?_, fun i => ?_, fun out i => ?_⟩
      · unfold parseValue MiniJson.parseValue
        simp only [read, sees, advance, skipWs, bind_assoc, pure_bind, Scan.plain_get_bind,
          Scan.plain_modify_bind, Scan.plain_ofExcept_bind, Scan.plain_throw_bind, Scan.plain_ite,
          Scan.plain_throw, Scan.plain_pure, Scan.plain_bind_of (plain_parseString t),
          Scan.plain_bind_of (plain_parseNumber t), Scan.plain_bind_of agrees.body, agrees.items,
          throw_eq, pure_eq, error_bind, Nat.add_zero]
      · unfold parseItems MiniJson.parseItems
        simp only [sees, advance, skipWs, bind_assoc, pure_bind, Scan.plain_get_bind,
          Scan.plain_modify_bind, Scan.plain_ite, Scan.plain_throw, Scan.plain_pure,
          Scan.plain_bind_of agrees.value, agrees.items, throw_eq, pure_eq]
      · unfold parseObjectBody MiniJson.parseObjectBody
        simp only [sees, advance, skipWs, bind_assoc, pure_bind, Scan.plain_get_bind,
          Scan.plain_modify_bind, Scan.plain_ite, Scan.plain_pure, agrees.members]
      · unfold parseMembers MiniJson.parseMembers
        simp only [sees, advance, skipWs, bind_assoc, pure_bind, Scan.plain_get_bind,
          Scan.plain_modify_bind, Scan.plain_ite, Scan.plain_throw, Scan.plain_pure,
          Scan.plain_bind_of (plain_parseString t), Scan.plain_bind_of agrees.value,
          agrees.members, throw_eq, pure_eq]

/-- The result of `parse` is that of the parser that keeps its index. -/
theorem plain_parse (t : Bytes) :
    MiniJson.parse t = ((parse t).plain 0).map Prod.fst := by
  unfold parse MiniJson.parse
  simp only [sees, skipWs, bind_assoc, pure_bind, Scan.plain_get_bind,
    Scan.plain_modify_bind, Scan.plain_ite, Scan.plain_throw, Scan.plain_pure,
    Scan.plain_bind_of (agrees t (fuelFor t)).body]
  split
  · cases MiniJson.parseObjectBody t (fuelFor t) (MiniJson.skipWs t 0) with
    | error e => rfl
    | ok reached =>
        obtain ⟨o, i⟩ := reached
        rw [bind_ok, bind_ok]
        split <;> rfl
  · rfl

/-! ## Every parser comes to an end inside the text -/

/-- Entered at `i`, the parser comes to an end of its own. It reads nothing behind the end of
the text, it leaves the index between `i` and the end, whether it fails or not, and when it
succeeds it has passed a byte. -/
def Advances (t : Bytes) (p : Scan Stop α) (i : Nat) : Prop :=
  i ≤ (p.run i).2 ∧ (p.run i).2 ≤ t.length ∧
    match (p.run i).1 with
    | .ok _ => i < (p.run i).2
    | .error stop => stop ≠ .outOfBounds ∧ stop ≠ .outOfFuel

theorem advances_of_keeps {p : Scan Stop α} (keeps : Keeps t p i fun _ j => i < j) :
    Advances t p i := by
  refine ⟨keeps.forward, keeps.inside, ?_⟩
  cases ended : (p.run i).1 with
  | ok a => exact keeps.returns a ended
  | error stop =>
      obtain rfl := keeps.fails stop ended
      exact ⟨nofun, nofun⟩

/-- The parse of a text ends as the source can end. -/
theorem malformed_of_parse {stop : Stop} (stopped : MiniJson.parse t = .error stop) :
    stop = .malformed := by
  rw [plain_parse, Scan.plain] at stopped
  have keeps := keeps_parse t
  cases ended : (parse t).run 0 with
  | mk r j =>
      rw [ended] at stopped
      cases r with
      | ok o => cases stopped
      | error stop' =>
          cases stopped
          exact keeps.fails stop (by rw [ended])

/-- With fuel for every byte that is left the parsers end inside the text;
`parse_object_body` is entered at an opening brace. -/
theorem parsers_advance (inside : i ≤ t.length) :
    Advances t (parseString t) i ∧ Advances t (parseNumber t) i ∧
      (∀ fuel, 2 * (t.length - i) + 1 ≤ fuel → Advances t (parseValue t fuel) i) ∧
      (i < t.length → ∀ fuel, 2 * (t.length - i) ≤ fuel →
        Advances t (parseObjectBody t fuel) i) ∧
      Advances t (parse t) 0 ∧
      ((∃ o, MiniJson.parse t = .ok o) ∨ MiniJson.parse t = .error .malformed) := by
  refine ⟨?_, ?_, ?_, ?_, ?_, ?_⟩
  · exact advances_of_keeps (keeps_parseString inside)
  · exact advances_of_keeps (keeps_parseNumber inside)
  · exact fun fuel enough => advances_of_keeps ((ends t fuel).value i inside enough)
  · exact fun here fuel enough => advances_of_keeps ((ends t fuel).body i here enough)
  · exact advances_of_keeps (keeps_parse t)
  · cases parsed : MiniJson.parse t with
    | ok o => exact .inl ⟨o, rfl⟩
    | error stop =>
        right
        rw [malformed_of_parse parsed]

/-- A text that ends inside an escape. -/
def truncated : Bytes := bytes "\x7b\"k\":[\"\\u00"

theorem parsers_advance_truncated :
    Advances truncated (parseString truncated) 6 ∧ Advances truncated (parseNumber truncated) 6 ∧
      (∀ fuel, 2 * (truncated.length - 6) + 1 ≤ fuel →
        Advances truncated (parseValue truncated fuel) 6) ∧
      (6 < truncated.length → ∀ fuel, 2 * (truncated.length - 6) ≤ fuel →
        Advances truncated (parseObjectBody truncated fuel) 6) ∧
      Advances truncated (parse truncated) 0 ∧
      ((∃ o, MiniJson.parse truncated = .ok o) ∨
        MiniJson.parse truncated = .error .malformed) :=
  parsers_advance (by decide)

end OnlineChat.MiniJson.Cursor
