import OnlineChat.Bytes

/-!
# JSON

The nested JSON subset of `minijson.h`: values, the fields of an object, the
parser over an index into the text and the serialiser.
-/

namespace OnlineChat.MiniJson

/-! ## Values -/

/-- A JSON value.  `nullObj` is an object value without an object. -/
inductive Value where
  | str (s : Bytes)
  | num (n : Int)
  | list (items : List Value)
  | obj (fields : List (Bytes × Value))
  | nullObj

/-- An object: its fields in the order in which they were first set. -/
structure Object where
  fields : List (Bytes × Value) := []

namespace Object

/-- Overwrite the first field of that name, or add one at the end. -/
def setIn (k : Bytes) (v : Value) : List (Bytes × Value) → List (Bytes × Value)
  | [] => [(k, v)]
  | (k', v') :: fields => if k' = k then (k', v) :: fields else (k', v') :: setIn k v fields

def set (o : Object) (k : Bytes) (v : Value) : Object := ⟨setIn k v o.fields⟩

def setStr (o : Object) (k : Bytes) (s : Bytes) : Object := o.set k (.str s)

def setNum (o : Object) (k : Bytes) (n : Int) : Object := o.set k (.num n)

def setList (o : Object) (k : Bytes) (l : List Bytes) : Object :=
  o.set k (.list (l.map .str))

def setObjs (o : Object) (k : Bytes) (objs : List Object) : Object :=
  o.set k (.list (objs.map fun item => .obj item.fields))

/-- The first field of that name that is a string, else the empty string. -/
def getStr (o : Object) (k : Bytes) : Bytes :=
  (o.fields.findSome? fun
    | (k', .str s) => if k' = k then some s else none
    | _ => none).getD []

/-- The first field of that name that is a number, else 0. -/
def getNum (o : Object) (k : Bytes) : Int :=
  (o.fields.findSome? fun
    | (k', .num n) => if k' = k then some n else none
    | _ => none).getD 0

end Object

/-! ## Parsing -/

/-- Why the parser gives up.  `outOfBounds` is a read behind the end of the text
and `outOfFuel` is a loop that did not end: the source has no such exit. -/
inductive Stop where
  | malformed
  | outOfBounds
  | outOfFuel
  deriving DecidableEq

/-- `t[i]`. -/
def byteAt (t : Bytes) (i : Nat) : Except Stop UInt8 :=
  match t[i]? with
  | some b => .ok b
  | none => .error .outOfBounds

/-- A `long long` after an operation that may have left its range. -/
def wrap64 (n : Int) : Int := (n + 2 ^ 63) % 2 ^ 64 - 2 ^ 63

/-- Space, tab, line feed and carriage return. -/
def isSpace (b : UInt8) : Bool := b = 32 || b = 9 || b = 10 || b = 13

def isDigit (b : UInt8) : Bool := 48 ≤ b && b ≤ 57

/-- Whether `i` is inside the text and its byte there satisfies `p`. -/
def test (t : Bytes) (i : Nat) (p : UInt8 → Bool) : Bool :=
  match t[i]? with
  | some b => p b
  | none => false

/-- The number of leading bytes of `t` that satisfy `p`. -/
def countWhile (p : UInt8 → Bool) : Bytes → Nat
  | [] => 0
  | b :: t => if p b then countWhile p t + 1 else 0

/-- `while (i < t.size() && p(t[i])) ++i;` -/
def skipWhile (p : UInt8 → Bool) (t : Bytes) (i : Nat) : Nat := i + countWhile p (t.drop i)

def skipWs (t : Bytes) (i : Nat) : Nat := skipWhile isSpace t i

/-- The UTF-8 bytes of a code point. -/
def appendUtf8 (out : Bytes) (cp : Nat) : Except Stop Bytes :=
  let byte (n : Nat) : UInt8 := UInt8.ofNat n
  if cp ≤ 0x7F then .ok (out ++ [byte cp])
  else if cp ≤ 0x7FF then .ok (out ++ [byte (0xC0 ||| cp >>> 6), byte (0x80 ||| (cp &&& 0x3F))])
  else if cp ≤ 0xFFFF then
    .ok (out ++ [byte (0xE0 ||| cp >>> 12), byte (0x80 ||| (cp >>> 6 &&& 0x3F)),
      byte (0x80 ||| (cp &&& 0x3F))])
  else if cp ≤ 0x10FFFF then
    .ok (out ++ [byte (0xF0 ||| cp >>> 18), byte (0x80 ||| (cp >>> 12 &&& 0x3F)),
      byte (0x80 ||| (cp >>> 6 &&& 0x3F)), byte (0x80 ||| (cp &&& 0x3F))])
  else .error .malformed

/-- The value of a hexadecimal digit of an escape, of either case. -/
def hexDigit (h : UInt8) : Except Stop Nat :=
  if 48 ≤ h && h ≤ 57 then .ok (h.toNat - 48)
  else if 97 ≤ h && h ≤ 102 then .ok (h.toNat - 97 + 10)
  else if 65 ≤ h && h ≤ 70 then .ok (h.toNat - 65 + 10)
  else .error .malformed

def hex4 (t : Bytes) (pos : Nat) : Except Stop Nat := do
  if pos + 4 > t.length then throw .malformed
  let d0 ← byteAt t pos >>= hexDigit
  let d1 ← byteAt t (pos + 1) >>= hexDigit
  let d2 ← byteAt t (pos + 2) >>= hexDigit
  let d3 ← byteAt t (pos + 3) >>= hexDigit
  return d0 * 4096 + d1 * 256 + d2 * 16 + d3

/-- The escape `\u` whose `u` is at `i`: one code unit, or a high surrogate
followed by the escape of a low one. -/
def parseUnicode (t : Bytes) (i : Nat) (out : Bytes) : Except Stop (Bytes × Nat) := do
  let cu ← hex4 t (i + 1)
  let i := i + 5
  if 0xD800 ≤ cu ∧ cu ≤ 0xDBFF then
    if i + 1 ≥ t.length then throw .malformed
    if (← byteAt t i) ≠ 92 then throw .malformed
    if (← byteAt t (i + 1)) ≠ 117 then throw .malformed
    let lo ← hex4 t (i + 2)
    if lo < 0xDC00 ∨ lo > 0xDFFF then throw .malformed
    let out ← appendUtf8 out (0x10000 + (cu - 0xD800) * 1024 + (lo - 0xDC00))
    return (out, i + 6)
  else if 0xDC00 ≤ cu ∧ cu ≤ 0xDFFF then throw .malformed
  else
    let out ← appendUtf8 out cu
    return (out, i)

/-- The byte that a short escape stands for. -/
def shortEscape : UInt8 → Option UInt8
  | 34 => some 34
  | 92 => some 92
  | 47 => some 47
  | 98 => some 8
  | 102 => some 12
  | 110 => some 10
  | 114 => some 13
  | 116 => some 9
  | _ => none

/-- The loop of `parse_string`, behind the opening quote. -/
def parseStringLoop (t : Bytes) : Nat → Nat → Bytes → Except Stop (Bytes × Nat)
  | 0, _, _ => .error .outOfFuel
  | fuel + 1, i, out => do
    if i ≥ t.length then throw .malformed
    let c ← byteAt t i
    if c = 34 then return (out, i + 1)
    else if c = 92 then
      let i := i + 1
      if i ≥ t.length then throw .malformed
      let e ← byteAt t i
      match shortEscape e with
      | some b => parseStringLoop t fuel (i + 1) (out ++ [b])
      | none =>
        if e = 117 then
          let (out, i) ← parseUnicode t i out
          parseStringLoop t fuel i out
        else throw .malformed
    else if c < 32 then throw .malformed
    else parseStringLoop t fuel (i + 1) (out ++ [c])

def parseString (t : Bytes) (i : Nat) : Except Stop (Bytes × Nat) :=
  if test t i (· = 34) then parseStringLoop t (t.length + 1) (i + 1) []
  else .error .malformed

/-- `v = v * 10 + (t[i] - '0')` over a run of digits. -/
def accumulate (v : Int) (digits : Bytes) : Int :=
  digits.foldl (fun v b => wrap64 (wrap64 (v * 10) + (b.toNat - 48 : Nat))) v

def parseNumber (t : Bytes) (i : Nat) : Except Stop (Int × Nat) :=
  let neg := test t i (· = 45)
  let i := if neg then i + 1 else i
  if test t i isDigit then
    let v := accumulate 0 ((t.drop i).takeWhile isDigit)
    let i := skipWhile isDigit t i
    let i := if test t i (· = 46) then skipWhile isDigit t (i + 1) else i
    let i :=
      if test t i (fun b => b = 101 || b = 69) then
        let i := i + 1
        let i := if test t i (fun b => b = 43 || b = 45) then i + 1 else i
        skipWhile isDigit t i
      else i
    .ok (if neg then wrap64 (-v) else v, i)
  else .error .malformed

mutual

def parseValue (t : Bytes) : Nat → Nat → Except Stop (Value × Nat)
  | 0, _ => .error .outOfFuel
  | fuel + 1, i => do
    let i := skipWs t i
    if i ≥ t.length then throw .malformed
    let c ← byteAt t i
    if c = 34 then
      let (s, i) ← parseString t i
      return (.str s, i)
    else if c = 45 || isDigit c then
      let (n, i) ← parseNumber t i
      return (.num n, i)
    else if c = 123 then
      let (o, i) ← parseObjectBody t fuel i
      return (.obj o.fields, i)
    else if c = 91 then
      let i := skipWs t (i + 1)
      if test t i (· = 93) then return (.list [], i + 1)
      else parseItems t fuel i []
    else if (t.drop i).take 4 = [110, 117, 108, 108] then return (.str [], i + 4)
    else throw .malformed

/-- The loop over the items of an array. -/
def parseItems (t : Bytes) : Nat → Nat → List Value → Except Stop (Value × Nat)
  | 0, _, _ => .error .outOfFuel
  | fuel + 1, i, items => do
    let (item, i) ← parseValue t fuel (skipWs t i)
    let items := items ++ [item]
    let i := skipWs t i
    if test t i (· = 44) then parseItems t fuel (i + 1) items
    else if test t i (· = 93) then return (.list items, i + 1)
    else throw .malformed

/-- Entered with `i` at the opening brace. -/
def parseObjectBody (t : Bytes) : Nat → Nat → Except Stop (Object × Nat)
  | 0, _ => .error .outOfFuel
  | fuel + 1, i =>
    let i := skipWs t (i + 1)
    if test t i (· = 125) then .ok ({}, i + 1) else parseMembers t fuel i {}

/-- The loop over the members of an object. -/
def parseMembers (t : Bytes) : Nat → Nat → Object → Except Stop (Object × Nat)
  | 0, _, _ => .error .outOfFuel
  | fuel + 1, i, out => do
    let (key, i) ← parseString t (skipWs t i)
    let i := skipWs t i
    if test t i (· = 58) then
      let (v, i) ← parseValue t fuel (i + 1)
      let out := out.set key v
      let i := skipWs t i
      if test t i (· = 44) then parseMembers t fuel (i + 1) out
      else if test t i (· = 125) then return (out, i + 1)
      else throw .malformed
    else throw .malformed

end

/-- Enough rounds for every text of that length. -/
def fuelFor (t : Bytes) : Nat := 3 * t.length + 3

def parse (text : Bytes) : Except Stop Object := do
  let i := skipWs text 0
  if test text i (· = 123) then
    let (o, i) ← parseObjectBody text (fuelFor text) i
    if skipWs text i = text.length then return o else throw .malformed
  else throw .malformed

/-! ## Serialising -/

/-- A lower-case hexadecimal digit. -/
def lowerHex (d : Nat) : UInt8 := if d < 10 then UInt8.ofNat (48 + d) else UInt8.ofNat (87 + d)

def escapeByte (c : UInt8) : Bytes :=
  if c = 34 then [92, 34]
  else if c = 92 then [92, 92]
  else if c = 8 then [92, 98]
  else if c = 12 then [92, 102]
  else if c = 10 then [92, 110]
  else if c = 13 then [92, 114]
  else if c = 9 then [92, 116]
  else if c < 32 then [92, 117, 48, 48, lowerHex (c.toNat / 16), lowerHex (c.toNat % 16)]
  else [c]

def escapeString (s : Bytes) : Bytes := s.flatMap escapeByte

/-- A string literal. -/
def quote (s : Bytes) : Bytes := 34 :: (escapeString s ++ [34])

mutual

def serializeValue : Value → Bytes
  | .str s => quote s
  | .num n => toDecimal n
  | .list items => 91 :: (serializeItems items ++ [93])
  | .obj fields => 123 :: (serializeFields fields ++ [125])
  | .nullObj => [110, 117, 108, 108]

def serializeItems : List Value → Bytes
  | [] => []
  | [item] => serializeValue item
  | item :: items => serializeValue item ++ 44 :: serializeItems items

def serializeFields : List (Bytes × Value) → Bytes
  | [] => []
  | [(k, v)] => quote k ++ 58 :: serializeValue v
  | (k, v) :: fields => quote k ++ 58 :: (serializeValue v ++ 44 :: serializeFields fields)

end

def serialize (o : Object) : Bytes := serializeValue (.obj o.fields)

/-! ## Sizes -/

theorem length_escapeByte_le (c : UInt8) : (escapeByte c).length ≤ 6 := by
  unfold escapeByte
  repeat' split
  all_goals simp

theorem length_quote_le (s : Bytes) : (quote s).length ≤ 6 * s.length + 2 := by
  have escaped : (escapeString s).length ≤ 6 * s.length := by
    induction s with
    | nil => simp [escapeString]
    | cons c s inductionHypothesis =>
        have head := length_escapeByte_le c
        simp only [escapeString, List.flatMap_cons, List.length_append] at inductionHypothesis ⊢
        rw [List.length_cons]
        omega
  simp [quote]
  omega

/-- What a field adds to the text of its object at most. -/
def fieldSize (field : Bytes × Value) : Nat :=
  (quote field.1).length + (serializeValue field.2).length + 2

def Object.size (o : Object) : Nat := (o.fields.map fieldSize).sum

theorem length_serializeFields_le (fields : List (Bytes × Value)) :
    (serializeFields fields).length ≤ (fields.map fieldSize).sum := by
  induction fields with
  | nil => simp [serializeFields]
  | cons field fields inductionHypothesis =>
      obtain ⟨k, v⟩ := field
      cases fields with
      | nil =>
          simp [serializeFields, fieldSize]
          omega
      | cons next fields =>
          simp only [serializeFields, List.length_append, List.length_cons, List.map_cons,
            List.sum_cons, fieldSize] at inductionHypothesis ⊢
          omega

theorem length_serialize_le (o : Object) : (serialize o).length ≤ o.size + 2 := by
  have fields := length_serializeFields_le o.fields
  simp only [serialize, serializeValue, List.length_cons, List.length_append, List.length_nil,
    Object.size]
  omega

theorem Object.size_set_le (o : Object) (k : Bytes) (v : Value) :
    (o.set k v).size ≤ o.size + fieldSize (k, v) := by
  obtain ⟨fields⟩ := o
  simp only [Object.size, Object.set]
  induction fields with
  | nil => simp [Object.setIn]
  | cons field fields inductionHypothesis =>
      obtain ⟨k', v'⟩ := field
      unfold Object.setIn
      split
      next same =>
        subst same
        simp only [List.map_cons, List.sum_cons]
        omega
      next =>
        simp only [List.map_cons, List.sum_cons]
        omega

end OnlineChat.MiniJson
