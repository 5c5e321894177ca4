import OnlineChat.Client.Values
import OnlineChat.Codec
import OnlineChat.MiniJson.Fields
import OnlineChat.MiniJson.Utf8

/-!
# JSON in the client

`json.dumps` and `json.loads` on the UTF-8 of a text, and `send_frame` and `recv_frame`
with them.  No byte of a character behind ASCII means anything to JSON, so that the text
is read byte by byte.
-/

namespace OnlineChat.Client

open Library.Utf8 MiniJson

/-- `float.__repr__`, and `float` on the text of a number. -/
structure FloatText where
  repr : PyFloat → Bytes
  ofText : Bytes → PyFloat

/-! ## Writing -/

/-- `ESCAPE_DCT`: quote, backslash and the control characters are escaped. -/
def escapeDct (c : UInt8) : Bytes :=
  if c = 92 then [92, 92]
  else if c = 34 then [92, 34]
  else if c = 8 then [92, 98]
  else if c = 12 then [92, 102]
  else if c = 10 then [92, 110]
  else if c = 13 then [92, 114]
  else if c = 9 then [92, 116]
  else if c < 32 then [92, 117, 48, 48, lowerHex (c.toNat / 16), lowerHex (c.toNat % 16)]
  else [c]

/-- `encode_basestring`, for `ensure_ascii=False`. -/
def encodeBasestring (s : Bytes) : Bytes := 34 :: (s.flatMap escapeDct ++ [34])

mutual

/-- `json.dumps(v, ensure_ascii=False, separators=(item, key))` -/
def dumpsWith (floats : FloatText) (item key : Bytes) : PyValue → Bytes
  | .none => bytes "null"
  | .bool b => if b then bytes "true" else bytes "false"
  | .int n => toDecimal n
  | .float x => floats.repr x
  | .str s => encodeBasestring s
  | .list items => 91 :: (dumpsItems floats item key items ++ [93])
  | .dict fields => 123 :: (dumpsFields floats item key fields ++ [125])

def dumpsItems (floats : FloatText) (item key : Bytes) : List PyValue → Bytes
  | [] => []
  | [v] => dumpsWith floats item key v
  | v :: vs => dumpsWith floats item key v ++ (item ++ dumpsItems floats item key vs)

def dumpsFields (floats : FloatText) (item key : Bytes) : List (Bytes × PyValue) → Bytes
  | [] => []
  | [(k, v)] => encodeBasestring k ++ (key ++ dumpsWith floats item key v)
  | (k, v) :: fields =>
      encodeBasestring k ++ (key ++ (dumpsWith floats item key v ++
        (item ++ dumpsFields floats item key fields)))

end

/-- `json.dumps` as `send_frame` calls it. -/
def dumps (floats : FloatText) : PyValue → Bytes := dumpsWith floats [44] [58]

/-! ## Reading -/

/-- The UTF-8 bytes of a code unit.  A surrogate that stands alone gets its three bytes, too. -/
def encodeUnit (n : Nat) : Bytes :=
  if 0xD800 ≤ n ∧ n ≤ 0xDFFF then
    [UInt8.ofNat (0xE0 ||| n >>> 12), UInt8.ofNat (0x80 ||| (n >>> 6 &&& 0x3F)),
      UInt8.ofNat (0x80 ||| (n &&& 0x3F))]
  else utf8 n

/-- `_decode_uXXXX`: four digits of either case, and what is behind them. -/
def decodeUXXXX : Bytes → Option (Nat × Bytes)
  | a :: b :: c :: d :: rest => do
      let a ← (hexDigit a).toOption
      let b ← (hexDigit b).toOption
      let c ← (hexDigit c).toOption
      let d ← (hexDigit d).toOption
      return (a * 4096 + b * 256 + c * 16 + d, rest)
  | _ => none

/-- The escape behind `\u`: a high surrogate takes a low one along that follows it. -/
def scanUnicode (text : Bytes) : Option (Bytes × Bytes) := do
  let (unit, rest) ← decodeUXXXX text
  if 0xD800 ≤ unit ∧ unit ≤ 0xDBFF ∧ rest.take 2 = [92, 117] then
    let (low, rest') ← decodeUXXXX (rest.drop 2)
    if 0xDC00 ≤ low ∧ low ≤ 0xDFFF then
      return (utf8 (0x10000 + (unit - 0xD800) * 1024 + (low - 0xDC00)), rest')
    else return (encodeUnit unit, rest)
  else return (encodeUnit unit, rest)

/-- `scanstring` behind the opening quote, with `strict`.  Every round takes bytes. -/
def scanstring : Nat → Bytes → Option (Bytes × Bytes)
  | 0, _ => none
  | _ + 1, [] => none
  | rounds + 1, c :: rest =>
      if c = 34 then some ([], rest)
      else if c = 92 then do
        let e ← rest.head?
        let (s, rest) ←
          match shortEscape e with
          | some b => some ([b], rest.tail)
          | none => if e = 117 then scanUnicode rest.tail else none
        let (s', rest) ← scanstring rounds rest
        return (s ++ s', rest)
      else if c < 32 then none
      else do
        let (s, rest) ← scanstring rounds rest
        return (c :: s, rest)

/-- The digits of `(-?(?:0|[1-9]\d*))` behind the sign. -/
def matchInt (text : Bytes) : Option (Bytes × Bytes) :=
  match text with
  | 48 :: rest => some ([48], rest)
  | _ =>
      let digits := text.takeWhile isDigit
      if digits = [] then none else some (digits, text.dropWhile isDigit)

/-- `(\.\d+)?` -/
def matchFraction (text : Bytes) : Bytes × Bytes :=
  match text with
  | 46 :: rest =>
      let digits := rest.takeWhile isDigit
      if digits = [] then ([], text) else (46 :: digits, rest.dropWhile isDigit)
  | _ => ([], text)

/-- `([eE][-+]?\d+)?` -/
def matchExponent (text : Bytes) : Bytes × Bytes :=
  match text with
  | e :: rest =>
      let sign := rest.take 1
      let (sign, rest) := if sign = [43] ∨ sign = [45] then (sign, rest.drop 1) else ([], rest)
      let digits := rest.takeWhile isDigit
      if (e = 101 ∨ e = 69) ∧ digits ≠ [] then (e :: (sign ++ digits), rest.dropWhile isDigit)
      else ([], text)
  | [] => ([], text)

/-- `_match_number` -/
def matchNumber (floats : FloatText) (text : Bytes) : Option (PyValue × Bytes) := do
  let neg := decide (text.head? = some 45)
  let (digits, rest) ← matchInt (if neg then text.tail else text)
  let (fraction, rest) := matchFraction rest
  let (exponent, rest) := matchExponent rest
  if fraction = [] ∧ exponent = [] then
    let n : Int := ofDecimalNat digits
    return (.int (if neg then -n else n), rest)
  else
    let sign := if neg then [45] else []
    return (.float (floats.ofText (sign ++ (digits ++ (fraction ++ exponent)))), rest)

/-- The words that stand for a value. -/
def constants : List (String × PyValue) :=
  [("null", .none), ("true", .bool true), ("false", .bool false), ("NaN", .float .nan),
    ("Infinity", .float .infinite), ("-Infinity", .float .infinite)]

def matchConstant (text : Bytes) : Option (PyValue × Bytes) :=
  constants.findSome? fun word =>
    if (bytes word.1).isPrefixOf text then some (word.2, text.drop (bytes word.1).length) else none

/-- `d[k] = v` -/
def setItem (k : Bytes) (v : PyValue) : Frame → Frame
  | [] => [(k, v)]
  | (k', v') :: fields => if k' = k then (k', v) :: fields else (k', v') :: setItem k v fields

mutual

/-- `scan_once`.  Every round takes bytes. -/
def scanOnce (floats : FloatText) : Nat → Bytes → Option (PyValue × Bytes)
  | 0, _ => none
  | _ + 1, [] => none
  | rounds + 1, c :: rest =>
      if c = 34 then (scanstring (rest.length + 1) rest).map fun r => (.str r.1, r.2)
      else if c = 123 then
        let rest := rest.dropWhile isSpace
        if rest.head? = some 125 then some (.dict [], rest.tail)
        else parseObject floats rounds rest []
      else if c = 91 then
        let rest := rest.dropWhile isSpace
        if rest.head? = some 93 then some (.list [], rest.tail)
        else parseArray floats rounds rest []
      else
        (matchConstant (c :: rest)).or (matchNumber floats (c :: rest))

/-- `_parse_object` at a name. -/
def parseObject (floats : FloatText) : Nat → Bytes → Frame → Option (PyValue × Bytes)
  | 0, _, _ => none
  | rounds + 1, text, fields =>
      if text.head? ≠ some 34 then none
      else do
        let (k, rest) ← scanstring (text.length + 1) text.tail
        let rest := rest.dropWhile isSpace
        if rest.head? ≠ some 58 then none
        else do
          let (v, rest) ← scanOnce floats rounds (rest.tail.dropWhile isSpace)
          let fields := setItem k v fields
          let rest := rest.dropWhile isSpace
          if rest.head? = some 125 then return (.dict fields, rest.tail)
          else if rest.head? ≠ some 44 then none
          else parseObject floats rounds (rest.tail.dropWhile isSpace) fields

/-- `_parse_array` at an item. -/
def parseArray (floats : FloatText) : Nat → Bytes → List PyValue → Option (PyValue × Bytes)
  | 0, _, _ => none
  | rounds + 1, text, items => do
      let (v, rest) ← scanOnce floats rounds text
      let rest := rest.dropWhile isSpace
      if rest.head? = some 93 then return (.list (items ++ [v]), rest.tail)
      else if rest.head? ≠ some 44 then none
      else parseArray floats rounds (rest.tail.dropWhile isSpace) (items ++ [v])

end

/-- `json.loads(body.decode("utf-8"))`; `none` is a `ValueError`. -/
def loads (floats : FloatText) (body : Bytes) : Option PyValue :=
  -- a byte order mark is refused
  if ¬ WellFormed body ∨ body.take 3 = [0xEF, 0xBB, 0xBF] then none
  else do
    let (v, rest) ← scanOnce floats (2 * body.length + 2) (body.dropWhile isSpace)
    if rest.dropWhile isSpace = [] then return v else none

/-! ## Frames -/

/-- The text of a type. -/
def MsgType.text : MsgType → Bytes
  | loginHello => bytes "LOGIN_HELLO"
  | login => bytes "LOGIN"
  | auth => bytes "AUTH"
  | logout => bytes "LOGOUT"
  | ping => bytes "PING"
  | join => bytes "JOIN"
  | leave => bytes "LEAVE"
  | rooms => bytes "ROOMS"
  | create => bytes "CREATE"
  | hist => bytes "HIST"
  | inbox => bytes "INBOX"
  | message => bytes "MESSAGE"

/-- The `dict` of a message. -/
def Msg.dict (m : Msg) : Frame :=
  [(bytes "ver", .int m.ver), (bytes "type", .str m.type.text), (bytes "from", .str m.sender),
    (bytes "to", .str m.receiver), (bytes "room", .str m.room), (bytes "content", m.content),
    (bytes "ts", .int m.ts), (bytes "seq", .int m.seq)]

/-- What `send_frame` passes to `sendall`, or a `ValueError`. -/
def sendFrame (floats : FloatText) (obj : Frame) : Except PyError Bytes :=
  let body := dumps floats (.dict obj)
  if maxFrameClient < body.length then .error .valueError
  else .ok (lengthPrefix body.length ++ body)

/-! ## Strings -/

variable {floats : FloatText} {rest : Bytes} {c : UInt8}

/-- Both sides escape alike. -/
theorem escapeDct_eq (c : UInt8) : escapeDct c = escapeByte c := by
  unfold escapeDct escapeByte
  by_cases slash : c = 92
  · subst slash
    rfl
  · rw [if_neg slash, if_neg slash]

theorem encodeBasestring_eq (s : Bytes) : encodeBasestring s = quote s := by
  rw [encodeBasestring, funext escapeDct_eq]
  rfl

theorem toOption_hexDigit {d : Nat} (small : d < 16) :
    (hexDigit (lowerHex d)).toOption = some d := by
  rw [hexDigit_eq (hexDigit_lowerHex small)]
  rfl

theorem scanUnicode_control (control : c < 32) :
    scanUnicode (48 :: 48 :: lowerHex (c.toNat / 16) :: lowerHex (c.toNat % 16) :: rest) =
      some ([c], rest) := by
  have small : c.toNat < 32 := UInt8.lt_iff_toNat_lt.mp control
  have zero : (hexDigit 48).toOption = some 0 := rfl
  have unit : decodeUXXXX (48 :: 48 :: lowerHex (c.toNat / 16) :: lowerHex (c.toNat % 16) :: rest) =
      some (c.toNat, rest) := by
    have value : 0 * 4096 + 0 * 256 + c.toNat / 16 * 16 + c.toNat % 16 = c.toNat := by omega
    simp only [decodeUXXXX, zero, toOption_hexDigit (show c.toNat / 16 < 16 by omega),
      toOption_hexDigit (show c.toNat % 16 < 16 by omega), Option.bind_eq_bind, Option.bind_some,
      Option.pure_def, value]
  have ascii : encodeUnit c.toNat = [c] := by
    rw [encodeUnit, if_neg (by omega)]
    exact encode_ascii (UInt8.lt_trans control (by decide))
  simp only [scanUnicode, unit, Option.bind_eq_bind, Option.bind_some, Option.pure_def]
  rw [if_neg (by omega), ascii]

/-- One character of a literal. -/
theorem scanstring_escape (rounds : Nat) (c : UInt8) (rest : Bytes) :
    scanstring (rounds + 1) (escapeByte c ++ rest) =
      (scanstring rounds rest).map fun r => (c :: r.1, r.2) := by
  rcases escapeByte_cases c with ⟨e, shape, stands⟩ | ⟨control, shape⟩ |
    ⟨noQuote, noSlash, printable, shape⟩ <;> rw [shape]
  · simp [scanstring, stands, Option.map_eq_bind]
  · have scanned := @scanUnicode_control rest c control
    simp [scanstring, shortEscape, scanned, Option.map_eq_bind]
  · simp [scanstring, noQuote, noSlash, printable, Option.map_eq_bind]

/-- A literal is scanned up to its closing quote. -/
theorem scanstring_quoted (s rest : Bytes) {rounds : Nat} (enough : s.length < rounds) :
    scanstring rounds (escapeString s ++ 34 :: rest) = some (s, rest) := by
  induction s generalizing rounds with
  | nil =>
      obtain ⟨rounds, rfl⟩ := Nat.exists_eq_add_one.mpr enough
      simp [escapeString, scanstring]
  | cons c s inductionHypothesis =>
      obtain ⟨rounds, rfl⟩ := Nat.exists_eq_add_one.mpr (Nat.zero_lt_of_lt enough)
      have later := @inductionHypothesis rounds (by simpa using enough)
      simp only [escapeString, List.flatMap_cons, List.append_assoc] at later ⊢
      rw [scanstring_escape, later]
      rfl

theorem length_le_escapeString (s : Bytes) : s.length ≤ (escapeString s).length := by
  induction s with
  | nil => simp
  | cons c s inductionHypothesis =>
      have first : 0 < (escapeByte c).length := by
        rcases escapeByte_cases c with ⟨e, shape, -⟩ | ⟨-, shape⟩ | ⟨-, -, -, shape⟩ <;>
          simp [shape]
      simp only [escapeString, List.flatMap_cons, List.length_append, List.length_cons] at *
      omega

/-! ## Numbers -/

/-- What is behind a number goes on with none of its parts. -/
theorem matchFraction_closes (closes : Closes rest) : matchFraction rest = ([], rest) := by
  have stops := closes.stops (p := fun b => b = 46) (by simp)
  cases rest with
  | nil => rfl
  | cons b tail =>
      have differs : b ≠ 46 := by simpa using stops b tail rfl
      unfold matchFraction
      split
      next same => exact absurd (List.cons.inj same).1 differs
      next => rfl

theorem matchExponent_closes (closes : Closes rest) : matchExponent rest = ([], rest) := by
  have stops := closes.stops (p := fun b => b = 101 ∨ b = 69) (by simp)
  cases rest with
  | nil => rfl
  | cons b tail =>
      have differs : ¬ (b = 101 ∨ b = 69) := by simpa using stops b tail rfl
      simp [matchExponent, differs]

theorem toDecimalNat_starts (n : Nat) :
    ∃ b tail, toDecimalNat n = b :: tail ∧ 48 ≤ b.toNat ∧ b.toNat ≤ 57 := by
  cases text : toDecimalNat n with
  | nil => exact absurd text (toDecimalNat_ne_nil n)
  | cons b tail => exact ⟨b, tail, rfl, digit_of_mem_toDecimalNat (n := n) (by simp [text])⟩

theorem toDecimal_starts (n : Int) :
    ∃ b tail, toDecimal n = b :: tail ∧ 45 ≤ b.toNat ∧ b.toNat ≤ 57 := by
  obtain ⟨b, tail, digits, low, high⟩ := toDecimalNat_starts n.natAbs
  unfold toDecimal
  split
  · exact ⟨45, _, rfl, by decide, by decide⟩
  · exact ⟨b, tail, digits, by omega, high⟩

/-- A number does not begin with a zero unless it is one. -/
theorem toDecimalNat_zero {n : Nat} {tail : Bytes} (starts : toDecimalNat n = 48 :: tail) :
    n = 0 ∧ tail = [] := by
  unfold toDecimalNat at starts
  split at starts
  next zero => exact ⟨zero, (List.cons.inj starts).2.symm⟩
  next positive =>
    have nonempty : Nat.digits 10 n ≠ [] := Nat.digits_ne_nil_iff_ne_zero.mpr positive
    have last := congrArg List.head? starts
    rw [List.head?_reverse, List.getLast?_map, List.getLast?_eq_some_getLast nonempty] at last
    have small : (Nat.digits 10 n).getLast nonempty < 10 :=
      Nat.digits_lt_base (by decide) (List.getLast_mem nonempty)
    have value := congrArg UInt8.toNat (Option.some.inj last)
    rw [toNat_digitByte small] at value
    have zero : (Nat.digits 10 n).getLast nonempty = 0 := by simpa using value
    exact absurd zero (Nat.getLast_digit_ne_zero 10 positive)

theorem matchInt_toDecimalNat (n : Nat) (closes : Closes rest) :
    matchInt (toDecimalNat n ++ rest) = some (toDecimalNat n, rest) := by
  have stops := closes.stops (p := isDigit) fun b digit => .inl digit
  have all : ∀ b ∈ toDecimalNat n, isDigit b = true := fun b there => isDigit_toDecimalNat there
  have taken := takeWhile_of_stops all stops
  have dropped : (toDecimalNat n ++ rest).dropWhile isDigit = rest := by
    have split := List.takeWhile_append_dropWhile (p := isDigit) (l := toDecimalNat n ++ rest)
    rw [taken] at split
    exact List.append_cancel_left split
  cases digits : toDecimalNat n with
  | nil => exact absurd digits (toDecimalNat_ne_nil n)
  | cons b tail =>
      rw [digits] at taken dropped
      rw [List.cons_append] at taken dropped ⊢
      by_cases zero : b = 48
      · subst zero
        obtain ⟨-, rfl⟩ := toDecimalNat_zero digits
        rfl
      · unfold matchInt
        split
        next same => exact absurd (List.cons.inj same).1 zero
        next => simp [taken, dropped]

theorem matchNumber_toDecimal (n : Int) (closes : Closes rest) :
    matchNumber floats (toDecimal n ++ rest) = some (.int n, rest) := by
  have digits := matchInt_toDecimalNat n.natAbs closes
  unfold toDecimal
  split
  next negative =>
    have value : -(n.natAbs : Int) = n := by omega
    have sign : decide ((45 :: (toDecimalNat n.natAbs ++ rest)).head? = some 45) = true := rfl
    simp only [matchNumber, sign, if_true, List.cons_append, List.tail_cons, digits,
      matchFraction_closes closes, matchExponent_closes closes, ofDecimalNat_toDecimalNat, value,
      and_self, Option.bind_eq_bind, Option.bind_some, Option.pure_def]
  next positive =>
    have value : (n.natAbs : Int) = n := by omega
    have unsigned : decide ((toDecimalNat n.natAbs ++ rest).head? = some 45) = false := by
      obtain ⟨b, tail, text, low, -⟩ := toDecimalNat_starts n.natAbs
      apply decide_eq_false
      rw [text]
      rintro same
      obtain rfl : b = 45 := by simpa using same
      exact absurd low (by decide)
    simp only [matchNumber, unsigned, Bool.false_eq_true, if_false, digits, value,
      matchFraction_closes closes, matchExponent_closes closes, ofDecimalNat_toDecimalNat,
      and_self, if_true, Option.bind_eq_bind, Option.bind_some, Option.pure_def]

/-! ## Values there and back -/

mutual

/-- A value without floats and with no name twice in a `dict`. -/
def PyValue.Apart : PyValue → Prop
  | .none | .bool _ | .int _ | .str _ => True
  | .float _ => False
  | .list items => ApartItems items
  | .dict fields => (fields.map Prod.fst).Nodup ∧ ApartFields fields

def ApartItems : List PyValue → Prop
  | [] => True
  | v :: vs => v.Apart ∧ ApartItems vs

def ApartFields : List (Bytes × PyValue) → Prop
  | [] => True
  | (_, v) :: fields => v.Apart ∧ ApartFields fields

end

mutual

/-- Such a value with its texts in UTF-8. -/
def PyValue.Exact : PyValue → Prop
  | .none | .bool _ | .int _ => True
  | .float _ => False
  | .str s => WellFormed s
  | .list items => ExactItems items
  | .dict fields => (fields.map Prod.fst).Nodup ∧ ExactFields fields

def ExactItems : List PyValue → Prop
  | [] => True
  | v :: vs => v.Exact ∧ ExactItems vs

def ExactFields : List (Bytes × PyValue) → Prop
  | [] => True
  | (k, v) :: fields => (WellFormed k ∧ v.Exact) ∧ ExactFields fields

end

mutual

theorem PyValue.Exact.apart (v : PyValue) (exact : v.Exact) : v.Apart := by
  match v with
  | .none | .bool _ | .int _ | .str _ => trivial
  | .float _ => exact exact.elim
  | .list items => exact apart_of_exactItems items exact
  | .dict fields => exact ⟨exact.1, apart_of_exactFields fields exact.2⟩

theorem apart_of_exactItems (items : List PyValue) (exact : ExactItems items) :
    ApartItems items := by
  match items with
  | [] => trivial
  | v :: vs => exact ⟨PyValue.Exact.apart v exact.1, apart_of_exactItems vs exact.2⟩

theorem apart_of_exactFields (fields : Frame) (exact : ExactFields fields) :
    ApartFields fields := by
  match fields with
  | [] => trivial
  | (_, v) :: fields =>
      exact ⟨PyValue.Exact.apart v exact.1.2, apart_of_exactFields fields exact.2⟩

end

theorem setItem_of_notMem {k : Bytes} {v : PyValue} {fields : Frame}
    (fresh : k ∉ fields.map Prod.fst) : setItem k v fields = fields ++ [(k, v)] := by
  induction fields with
  | nil => rfl
  | cons field fields inductionHypothesis =>
      obtain ⟨k', v'⟩ := field
      simp only [List.map_cons, List.mem_cons, not_or] at fresh
      rw [setItem, if_neg (Ne.symm fresh.1), inductionHypothesis fresh.2]
      rfl

theorem dropWhile_cons {b : UInt8} {tail : Bytes} (solid : isSpace b = false) :
    (b :: tail).dropWhile isSpace = b :: tail := List.dropWhile_cons_of_neg (by simp [solid])

theorem dropWhile_blank {w : Bytes} (blank : Blank w) (rest : Bytes) :
    (w ++ rest).dropWhile isSpace = rest.dropWhile isSpace :=
  List.dropWhile_append_of_pos fun b there => blank b there

/-- The first byte of a value. -/
theorem dumpsWith_starts (item key : Bytes) (v : PyValue) (apart : v.Apart) :
    ∃ b tail, dumpsWith floats item key v = b :: tail ∧ isSpace b = false ∧ b ≠ 93 ∧ b < 128 := by
  cases v with
  | none => exact ⟨110, _, rfl, rfl, by decide, by decide⟩
  | bool b =>
      cases b with
      | false => exact ⟨102, _, rfl, rfl, by decide, by decide⟩
      | true => exact ⟨116, _, rfl, rfl, by decide, by decide⟩
  | int n =>
      obtain ⟨b, tail, text, low, high⟩ := toDecimal_starts n
      refine ⟨b, tail, text, ?_, ?_, ?_⟩
      · simp only [isSpace, Bool.or_eq_false_iff, decide_eq_false_iff_not]
        refine ⟨⟨⟨?_, ?_⟩, ?_⟩, ?_⟩ <;> rintro rfl <;> exact absurd low (by decide)
      · rintro rfl
        exact absurd high (by decide)
      · exact UInt8.lt_iff_toNat_lt.mpr (Nat.lt_of_le_of_lt high (by decide))
  | float x => exact apart.elim
  | str s => exact ⟨34, _, rfl, rfl, by decide, by decide⟩
  | list items => exact ⟨91, _, rfl, rfl, by decide, by decide⟩
  | dict fields => exact ⟨123, _, rfl, rfl, by decide, by decide⟩

theorem scanOnce_str (s rest : Bytes) (rounds : Nat) :
    scanOnce floats (rounds + 1) (encodeBasestring s ++ rest) = some (.str s, rest) := by
  have enough : s.length < (escapeString s ++ 34 :: rest).length + 1 := by
    have longer := length_le_escapeString s
    rw [List.length_append]
    omega
  have scanned := scanstring_quoted s rest enough
  rw [encodeBasestring_eq, quote, List.cons_append, List.append_assoc, List.singleton_append,
    scanOnce, if_pos rfl, scanned]
  rfl

theorem bytes_constants : constants.map (fun word => bytes word.1) =
    [[110, 117, 108, 108], [116, 114, 117, 101], [102, 97, 108, 115, 101], [78, 97, 78],
      [73, 110, 102, 105, 110, 105, 116, 121], [45, 73, 110, 102, 105, 110, 105, 116, 121]] := by
  decide

theorem matchConstant_eq_none {text : Bytes}
    (none : ∀ word ∈ constants.map (fun word => bytes word.1), word.isPrefixOf text = false) :
    matchConstant text = .none := by
  apply List.findSome?_eq_none_iff.mpr
  intro word among
  rw [none _ (List.mem_map_of_mem among)]
  rfl

/-- A number does not begin like a word. -/
theorem matchConstant_toDecimal (n : Int) (rest : Bytes) :
    matchConstant (toDecimal n ++ rest) = none := by
  obtain ⟨b, tail, digits, low, high⟩ := toDecimalNat_starts n.natAbs
  have differs {x : UInt8} (other : x.toNat < 48 ∨ 57 < x.toNat) : (x == b) = false := by
    apply beq_false_of_ne
    rintro rfl
    omega
  apply matchConstant_eq_none
  rw [bytes_constants, toDecimal]
  split
  · rw [digits]
    simp [List.isPrefixOf, differs (x := 73) (.inr (by decide))]
  · rw [digits]
    simp [List.isPrefixOf, differs (x := 110) (.inr (by decide)),
      differs (x := 116) (.inr (by decide)), differs (x := 102) (.inr (by decide)),
      differs (x := 78) (.inr (by decide)), differs (x := 73) (.inr (by decide)),
      differs (x := 45) (.inl (by decide))]

theorem scanOnce_int (n : Int) (rounds : Nat) (closes : Closes rest) :
    scanOnce floats (rounds + 1) (toDecimal n ++ rest) = some (.int n, rest) := by
  have number := @matchNumber_toDecimal floats _ n closes
  have constant := matchConstant_toDecimal n rest
  obtain ⟨b, tail, text, low, high⟩ := toDecimal_starts n
  have differs {x : UInt8} (other : x.toNat < 45 ∨ 57 < x.toNat) : b ≠ x := by
    rintro rfl
    omega
  rw [text, List.cons_append] at number constant ⊢
  rw [scanOnce, if_neg (differs (.inl (by decide))), if_neg (differs (.inr (by decide))),
    if_neg (differs (.inr (by decide))), constant, number]
  rfl

section Values

variable {w w' : Bytes}

theorem closes_cons_of {b : UInt8} (closing : b = 44 ∨ b = 93 ∨ b = 125) (tail : Bytes) :
    Closes (b :: tail) := by
  rintro _ _ ⟨⟩
  exact .inr closing

theorem dumpsItems_cons (item key : Bytes) (v next : PyValue) (items : List PyValue) :
    dumpsItems floats item key (v :: next :: items) =
      dumpsWith floats item key v ++ (item ++ dumpsItems floats item key (next :: items)) := by
  rw [dumpsItems]
  exact List.cons_ne_nil next items

theorem dumpsFields_cons (item key k : Bytes) (v : PyValue) (next : Bytes × PyValue)
    (fields : Frame) : dumpsFields floats item key ((k, v) :: next :: fields) =
      encodeBasestring k ++ (key ++ (dumpsWith floats item key v ++
        (item ++ dumpsFields floats item key (next :: fields)))) := by
  rw [dumpsFields]
  exact List.cons_ne_nil next fields

/-- The items begin as the first of them does. -/
theorem dumpsItems_starts {item key : Bytes} {items : List PyValue} (apart : ApartItems items)
    (nonempty : items ≠ []) (rest : Bytes) :
    ∃ b tail, dumpsItems floats item key items ++ rest = b :: tail ∧ isSpace b = false ∧
      b ≠ 93 := by
  match items, nonempty with
  | [v], _ =>
      obtain ⟨b, tail, text, solid, other, -⟩ :=
        @dumpsWith_starts floats item key v apart.1
      exact ⟨b, tail ++ rest, by rw [dumpsItems, text, List.cons_append], solid, other⟩
  | v :: next :: items, _ =>
      obtain ⟨b, tail, text, solid, other, -⟩ :=
        @dumpsWith_starts floats item key v apart.1
      exact ⟨b, _, by rw [dumpsItems_cons, text, List.cons_append, List.cons_append], solid, other⟩

theorem dumpsFields_starts {item key : Bytes} {fields : Frame} (nonempty : fields ≠ [])
    (rest : Bytes) : ∃ tail, dumpsFields floats item key fields ++ rest = 34 :: tail := by
  match fields, nonempty with
  | [(k, v)], _ => exact ⟨_, rfl⟩
  | (k, v) :: next :: fields, _ => exact ⟨_, rfl⟩

/-- What `parse_object` and `parse_array` find behind a value: a comma and more, or the end. -/
theorem dropWhile_comma (blank : Blank w) {b : UInt8} {tail : Bytes} (solid : isSpace b = false) :
    (w ++ b :: tail).dropWhile isSpace = b :: tail := by
  rw [dropWhile_blank blank, dropWhile_cons solid]

/-- A name, a colon and a value are taken into the `dict`. -/
theorem parseObject_name (blank' : Blank w') (k rest' : Bytes) (v : PyValue) (rounds : Nat)
    (done : Frame) {b : UInt8} {tail : Bytes} (solid : isSpace b = false)
    (scanned : scanOnce floats rounds (b :: tail) = some (v, rest')) :
    parseObject floats (rounds + 1) (encodeBasestring k ++ 58 :: (w' ++ b :: tail)) done =
      if (rest'.dropWhile isSpace).head? = some 125 then
        some (.dict (setItem k v done), (rest'.dropWhile isSpace).tail)
      else if (rest'.dropWhile isSpace).head? ≠ some 44 then none
      else parseObject floats rounds ((rest'.dropWhile isSpace).tail.dropWhile isSpace)
        (setItem k v done) := by
  have text : encodeBasestring k ++ 58 :: (w' ++ b :: tail) =
      34 :: (escapeString k ++ 34 :: 58 :: (w' ++ b :: tail)) := by
    simp [encodeBasestring_eq, quote]
  have name : scanstring ((34 :: (escapeString k ++ 34 :: 58 :: (w' ++ b :: tail))).length + 1)
      (escapeString k ++ 34 :: 58 :: (w' ++ b :: tail)) = some (k, 58 :: (w' ++ b :: tail)) := by
    apply scanstring_quoted
    have longer := length_le_escapeString k
    rw [List.length_cons, List.length_append]
    omega
  have value : (w' ++ b :: tail).dropWhile isSpace = b :: tail := dropWhile_comma blank' solid
  rw [text, parseObject, List.tail_cons, name]
  simp only [List.head?_cons, ne_eq, not_true_eq_false, if_false, Option.bind_eq_bind,
    Option.bind_some, dropWhile_cons (show isSpace 58 = false by decide), List.tail_cons, value,
    scanned, Option.pure_def]

/-- The name is not in what was read so far. -/
theorem setItem_done {k : Bytes} {v : PyValue} {done fields : Frame}
    (distinct : ((done ++ (k, v) :: fields).map Prod.fst).Nodup) :
    setItem k v done = done ++ [(k, v)] := by
  apply setItem_of_notMem
  intro there
  rw [List.map_append, List.map_cons, List.nodup_append] at distinct
  exact distinct.2.2 k there k (List.mem_cons_self ..) rfl

mutual

/-- The text of a value is scanned up to what closes it. -/
theorem scanOnce_dumps (blank : Blank w) (blank' : Blank w') (v : PyValue) (apart : v.Apart)
    (rounds : Nat) (rest : Bytes) (closes : Closes rest)
    (enough : (dumpsWith floats (44 :: w) (58 :: w') v).length ≤ rounds) :
    scanOnce floats rounds (dumpsWith floats (44 :: w) (58 :: w') v ++ rest) = some (v, rest) := by
  obtain ⟨rounds, rfl⟩ : ∃ n, rounds = n + 1 := by
    obtain ⟨b, tail, text, -⟩ := @dumpsWith_starts floats (44 :: w) (58 :: w') v apart
    rw [text, List.length_cons] at enough
    exact Nat.exists_eq_add_one.mpr (by omega)
  match v with
  | .none => rfl
  | .bool true => rfl
  | .bool false => rfl
  | .int n => exact scanOnce_int n rounds closes
  | .float x => exact apart.elim
  | .str s => exact scanOnce_str s rest rounds
  | .list [] => rfl
  | .list (v :: vs) =>
      have items := parseArray_dumps blank blank' (v :: vs) apart (by simp) rounds rest [] (by
        simpa [dumpsWith] using enough)
      obtain ⟨b, tail, text, solid, other⟩ := @dumpsItems_starts floats
        (44 :: w) (58 :: w') _ apart (by simp) (93 :: rest)
      rw [text] at items
      rw [dumpsWith, List.cons_append, List.append_assoc, List.singleton_append, text, scanOnce,
        if_neg (by decide), if_neg (by decide), if_pos rfl, dropWhile_cons solid]
      simpa [other] using items
  | .dict [] => rfl
  | .dict (field :: fields) =>
      have members := parseObject_dumps blank blank' (field :: fields) apart.2 (by simp) rounds rest
        [] (by simpa using apart.1) (by simpa [dumpsWith] using enough)
      obtain ⟨tail, text⟩ := @dumpsFields_starts floats (44 :: w) (58 :: w')
        (field :: fields) (by simp) (125 :: rest)
      rw [text] at members
      rw [dumpsWith, List.cons_append, List.append_assoc, List.singleton_append, text, scanOnce,
        if_neg (by decide), if_pos rfl, dropWhile_cons (by decide)]
      simpa using members

theorem parseArray_dumps (blank : Blank w) (blank' : Blank w') (items : List PyValue)
    (apart : ApartItems items) (nonempty : items ≠ []) (rounds : Nat) (rest : Bytes)
    (done : List PyValue)
    (enough : (dumpsItems floats (44 :: w) (58 :: w') items).length + 1 ≤ rounds) :
    parseArray floats rounds (dumpsItems floats (44 :: w) (58 :: w') items ++ 93 :: rest) done =
      some (.list (done ++ items), rest) := by
  obtain ⟨rounds, rfl⟩ := Nat.exists_eq_add_one.mpr (by omega : 0 < rounds)
  match items, nonempty with
  | [v], _ =>
      have scanned := scanOnce_dumps blank blank' v apart.1 rounds (93 :: rest)
        (closes_cons_of (by decide) rest) (by simpa [dumpsItems] using enough)
      rw [dumpsItems, parseArray, scanned]
      rfl
  | v :: next :: items, _ =>
      simp only [dumpsItems_cons, List.length_append, List.length_cons] at enough
      have scanned := scanOnce_dumps blank blank' v apart.1 rounds
        (44 :: (w ++ (dumpsItems floats (44 :: w) (58 :: w') (next :: items) ++ 93 :: rest)))
        (closes_cons_of (by decide) _) (by omega)
      have later := parseArray_dumps blank blank' (next :: items) apart.2 (by simp) rounds rest
        (done ++ [v]) (by omega)
      obtain ⟨b, tail, text, solid, -⟩ := @dumpsItems_starts floats
        (44 :: w) (58 :: w') (next :: items) apart.2 (by simp) (93 :: rest)
      rw [text] at scanned later
      rw [dumpsItems_cons, List.append_assoc, List.append_assoc, List.cons_append, text, parseArray,
        scanned]
      have skipped := @dropWhile_comma w blank _ tail solid
      simpa [dropWhile_cons (show isSpace 44 = false by decide), skipped] using later

theorem parseObject_dumps (blank : Blank w) (blank' : Blank w') (fields : Frame)
    (apart : ApartFields fields) (nonempty : fields ≠ []) (rounds : Nat) (rest : Bytes)
    (done : Frame) (distinct : ((done ++ fields).map Prod.fst).Nodup)
    (enough : (dumpsFields floats (44 :: w) (58 :: w') fields).length + 1 ≤ rounds) :
    parseObject floats rounds (dumpsFields floats (44 :: w) (58 :: w') fields ++ 125 :: rest) done =
      some (.dict (done ++ fields), rest) := by
  obtain ⟨rounds, rfl⟩ := Nat.exists_eq_add_one.mpr (by omega : 0 < rounds)
  match fields, nonempty with
  | [(k, v)], _ =>
      simp only [dumpsFields, List.length_append, List.length_cons] at enough
      have scanned := scanOnce_dumps blank blank' v apart.1 rounds (125 :: rest)
        (closes_cons_of (by decide) rest) (by omega)
      obtain ⟨b, tail, text, solid, -⟩ :=
        @dumpsWith_starts floats (44 :: w) (58 :: w') v apart.1
      rw [text, List.cons_append] at scanned
      have read := parseObject_name blank' k (125 :: rest) v rounds done solid scanned
      rw [setItem_done distinct] at read
      simpa [dumpsFields, text, dropWhile_cons (show isSpace 125 = false by decide)] using read
  | (k, v) :: next :: fields, _ =>
      simp only [dumpsFields_cons, List.length_append, List.length_cons] at enough
      have scanned := scanOnce_dumps blank blank' v apart.1 rounds
        (44 :: (w ++ (dumpsFields floats (44 :: w) (58 :: w') (next :: fields) ++ 125 :: rest)))
        (closes_cons_of (by decide) _) (by omega)
      have later := parseObject_dumps blank blank' (next :: fields) apart.2 (by simp) rounds rest
        (done ++ [(k, v)]) (by simpa using distinct) (by omega)
      obtain ⟨b, tail, text, solid, -⟩ :=
        @dumpsWith_starts floats (44 :: w) (58 :: w') v apart.1
      obtain ⟨tail', text'⟩ := @dumpsFields_starts floats (44 :: w) (58 :: w')
        (next :: fields) (by simp) (125 :: rest)
      rw [text'] at scanned later
      rw [text, List.cons_append] at scanned
      have read := parseObject_name blank' k _ v rounds done solid scanned
      have skipped := @dropWhile_comma w blank _ tail' (show isSpace 34 = false by decide)
      rw [setItem_done distinct] at read
      rw [dumpsFields_cons]
      simp only [List.append_assoc, List.cons_append, text, text'] at read ⊢
      rw [read, dropWhile_cons (show isSpace 44 = false by decide)]
      simpa [skipped] using later

end

mutual

theorem wellFormed_dumps (blank : Blank w) (blank' : Blank w') (v : PyValue) (exact : v.Exact) :
    WellFormed (dumpsWith floats (44 :: w) (58 :: w') v) := by
  match v with
  | .none => exact wellFormed_bytes "null"
  | .bool true => exact wellFormed_bytes "true"
  | .bool false => exact wellFormed_bytes "false"
  | .int n => exact wellFormed_toDecimal n
  | .float x => exact exact.elim
  | .str s =>
      rw [dumpsWith, encodeBasestring_eq]
      exact wellFormed_quote exact
  | .list items =>
      have inside := wellFormed_dumpsItems blank blank' items exact
      exact (inside.append (wellFormed_byte (by decide))).cons (by decide)
  | .dict fields =>
      have inside := wellFormed_dumpsFields blank blank' fields exact.2
      exact (inside.append (wellFormed_byte (by decide))).cons (by decide)

theorem wellFormed_dumpsItems (blank : Blank w) (blank' : Blank w') (items : List PyValue)
    (exact : ExactItems items) : WellFormed (dumpsItems floats (44 :: w) (58 :: w') items) := by
  match items with
  | [] => exact wellFormed_nil
  | [v] => exact wellFormed_dumps blank blank' v exact.1
  | v :: next :: items =>
      have comma : WellFormed (44 :: w) := (wellFormed_of_ascii blank.ascii).cons (by decide)
      rw [dumpsItems_cons]
      exact (wellFormed_dumps blank blank' v exact.1).append
        (comma.append (wellFormed_dumpsItems blank blank' (next :: items) exact.2))

theorem wellFormed_dumpsFields (blank : Blank w) (blank' : Blank w') (fields : Frame)
    (exact : ExactFields fields) : WellFormed (dumpsFields floats (44 :: w) (58 :: w') fields) := by
  have comma : WellFormed (44 :: w) := (wellFormed_of_ascii blank.ascii).cons (by decide)
  have colon : WellFormed (58 :: w') := (wellFormed_of_ascii blank'.ascii).cons (by decide)
  match fields with
  | [] => exact wellFormed_nil
  | [(k, v)] =>
      rw [dumpsFields, encodeBasestring_eq]
      exact (wellFormed_quote exact.1.1).append
        (colon.append (wellFormed_dumps blank blank' v exact.1.2))
  | (k, v) :: next :: fields =>
      rw [dumpsFields_cons, encodeBasestring_eq]
      exact (wellFormed_quote exact.1.1).append (colon.append
        ((wellFormed_dumps blank blank' v exact.1.2).append
          (comma.append (wellFormed_dumpsFields blank blank' (next :: fields) exact.2))))

end

/-- A text in UTF-8 that was written with any white space behind commas and colons. -/
theorem loads_of_wellFormed (blank : Blank w) (blank' : Blank w') (v : PyValue) (apart : v.Apart)
    (utf8 : WellFormed (dumpsWith floats (44 :: w) (58 :: w') v)) :
    loads floats (dumpsWith floats (44 :: w) (58 :: w') v) = some v := by
  obtain ⟨b, tail, text, solid, -, ascii⟩ :=
    @dumpsWith_starts floats (44 :: w) (58 :: w') v apart
  have scanned := @scanOnce_dumps floats _ _ blank blank' v apart
    (2 * (b :: tail).length + 2) [] (by rintro _ _ ⟨⟩) (by rw [text]; omega)
  have mark : ¬ (¬ WellFormed (b :: tail) ∨ (b :: tail).take 3 = [0xEF, 0xBB, 0xBF]) := by
    rintro (bad | start)
    · exact bad (text ▸ utf8)
    · obtain ⟨rfl, -⟩ := List.cons.inj start
      exact absurd ascii (by decide)
  rw [List.append_nil] at scanned
  rw [text] at scanned ⊢
  rw [loads, if_neg mark, dropWhile_cons solid, scanned]
  rfl

/-- What was written is read back. -/
theorem loads_dumpsWith (blank : Blank w) (blank' : Blank w') (v : PyValue) (exact : v.Exact) :
    loads floats (dumpsWith floats (44 :: w) (58 :: w') v) = some v :=
  loads_of_wellFormed blank blank' v (PyValue.Exact.apart v exact)
    (wellFormed_dumps blank blank' v exact)

theorem wellFormed_of_loads {body : Bytes} {v : PyValue} (read : loads floats body = some v) :
    WellFormed body := by
  by_contra bad
  rw [loads, if_pos (.inl bad)] at read
  cases read

end Values

/-! ## Values of the server -/

mutual

/-- A value of the server as the client sees it. -/
def pyValue : Value → PyValue
  | .str s => .str s
  | .num n => .int n
  | .list items => .list (pyItems items)
  | .obj fields => .dict (pyFields fields)
  | .nullObj => .none

def pyItems : List Value → List PyValue
  | [] => []
  | v :: vs => pyValue v :: pyItems vs

def pyFields : List (Bytes × Value) → Frame
  | [] => []
  | (k, v) :: fields => (k, pyValue v) :: pyFields fields

end

mutual

/-- Both sides write the same text. -/
theorem dumps_pyValue (v : Value) : dumps floats (pyValue v) = serializeValue v := by
  match v with
  | .str s => exact encodeBasestring_eq s
  | .num n => rfl
  | .list items =>
      have inside := dumpsItems_pyItems items
      simp only [pyValue, dumps, dumpsWith, inside, serializeValue]
  | .obj fields =>
      have inside := dumpsFields_pyFields fields
      simp only [pyValue, dumps, dumpsWith, inside, serializeValue]
  | .nullObj =>
      have word : bytes "null" = [110, 117, 108, 108] := by decide
      exact word

theorem dumpsItems_pyItems (items : List Value) :
    dumpsItems floats [44] [58] (pyItems items) = serializeItems items := by
  match items with
  | [] => rfl
  | [v] => exact dumps_pyValue v
  | v :: next :: items =>
      have later := dumpsItems_pyItems (next :: items)
      have first := dumps_pyValue v
      simp only [pyItems, dumps] at later first ⊢
      rw [dumpsItems_cons, first, later]
      rfl

theorem dumpsFields_pyFields (fields : List (Bytes × Value)) :
    dumpsFields floats [44] [58] (pyFields fields) = serializeFields fields := by
  match fields with
  | [] => rfl
  | [(k, v)] =>
      have value := dumps_pyValue v
      simp only [dumps] at value
      simp only [pyFields, dumpsFields, value, encodeBasestring_eq, serializeFields]
      rfl
  | (k, v) :: next :: fields =>
      have later := dumpsFields_pyFields (next :: fields)
      have value := dumps_pyValue v
      simp only [pyFields, dumps] at later value ⊢
      rw [dumpsFields_cons, value, later, encodeBasestring_eq]
      rfl

end

theorem keys_pyFields (fields : List (Bytes × Value)) :
    (pyFields fields).map Prod.fst = fields.map Prod.fst := by
  induction fields with
  | nil => rfl
  | cons field fields inductionHypothesis => simp [pyFields, inductionHypothesis]

mutual

theorem exact_pyValue (v : Value) (apart : v.Distinct) (utf8 : v.Utf8) : (pyValue v).Exact := by
  match v with
  | .str s => exact utf8
  | .num n => trivial
  | .list items => exact exact_pyItems items apart utf8
  | .obj fields =>
      refine ⟨?_, exact_pyFields fields apart.2 utf8⟩
      rw [keys_pyFields]
      exact apart.1
  | .nullObj => trivial

theorem exact_pyItems (items : List Value) (apart : DistinctItems items) (utf8 : Utf8Items items) :
    ExactItems (pyItems items) := by
  match items with
  | [] => trivial
  | v :: vs => exact ⟨exact_pyValue v apart.1 utf8.1, exact_pyItems vs apart.2 utf8.2⟩

theorem exact_pyFields (fields : List (Bytes × Value)) (apart : DistinctFields fields)
    (utf8 : Utf8Fields fields) : ExactFields (pyFields fields) := by
  match fields with
  | [] => trivial
  | (k, v) :: fields =>
      exact ⟨⟨utf8.1.1, exact_pyValue v apart.1 utf8.1.2⟩, exact_pyFields fields apart.2 utf8.2⟩

end

mutual

theorem apart_pyValue (v : Value) (distinct : v.Distinct) : (pyValue v).Apart := by
  match v with
  | .str _ | .num _ | .nullObj => trivial
  | .list items => exact apart_pyItems items distinct
  | .obj fields =>
      refine ⟨?_, apart_pyFields fields distinct.2⟩
      rw [keys_pyFields]
      exact distinct.1

theorem apart_pyItems (items : List Value) (distinct : DistinctItems items) :
    ApartItems (pyItems items) := by
  match items with
  | [] => trivial
  | v :: vs => exact ⟨apart_pyValue v distinct.1, apart_pyItems vs distinct.2⟩

theorem apart_pyFields (fields : List (Bytes × Value)) (distinct : DistinctFields fields) :
    ApartFields (pyFields fields) := by
  match fields with
  | [] => trivial
  | (_, v) :: fields => exact ⟨apart_pyValue v distinct.1, apart_pyFields fields distinct.2⟩

end

/-- What the client reads in a text of the server is what the server has written. -/
theorem eq_of_loads_serialize {o : Object} {v : PyValue} (distinct : o.Distinct)
    (read : loads floats (serialize o) = some v) : v = .dict (pyFields o.fields) := by
  have none : Blank [] := List.forall_mem_nil _
  have same := @dumps_pyValue floats (.obj o.fields)
  have utf8 := wellFormed_of_loads read
  rw [serialize, ← same] at read utf8
  exact Option.some.inj (read.symm.trans
    (loads_of_wellFormed none none _ (apart_pyValue (.obj o.fields) distinct) utf8))

/-- The client reads the fields that the server has written. -/
theorem loads_serialize {o : Object} (apart : o.Distinct) (utf8 : o.Utf8) :
    loads floats (serialize o) = some (.dict (pyFields o.fields)) := by
  have none : Blank [] := List.forall_mem_nil _
  have same := @dumps_pyValue floats (.obj o.fields)
  rw [serialize, ← same]
  exact loads_dumpsWith none none _ (exact_pyValue (.obj o.fields) apart utf8)

end OnlineChat.Client
