import Mathlib.Data.Rat.Floor
import OnlineChat.PwdHash

/-!
# The values of the client

What `json.loads` returns, what the client reads out of it, and the frames that it
builds.  A `str` is taken as its UTF-8.
-/

namespace OnlineChat.Client

open PwdHash

/-- The exceptions that are told apart.  A `ConnectionError` is an `OSError`, a text that is
no JSON or no UTF-8 raises a `ValueError`. -/
inductive PyError where
  | osError
  | valueError
  | typeError
  | overflowError
  | attributeError
  deriving DecidableEq

inductive PyFloat where
  | finite (x : Rat)
  | infinite
  | nan

/-- A value as `json.loads` returns it. -/
inductive PyValue where
  | none
  | bool (b : Bool)
  | int (n : Int)
  | float (x : PyFloat)
  | str (s : Bytes)
  | list (items : List PyValue)
  | dict (fields : List (Bytes × PyValue))

/-! ## Built-in functions -/

/-- `int(x)` of a number: rounded towards zero. -/
def pyTrunc (x : Rat) : Int := if 0 ≤ x then x.floor else x.ceil

/-- `Py_ISSPACE` -/
def isAsciiSpace (b : UInt8) : Bool := b = 32 ∨ (9 ≤ b ∧ b ≤ 13)

/-- The blanks beyond ASCII. -/
def unicodeSpaces : List Nat :=
  [0x85, 0xA0, 0x1680, 0x2000, 0x2001, 0x2002, 0x2003, 0x2004, 0x2005, 0x2006, 0x2007, 0x2008,
    0x2009, 0x200A, 0x2028, 0x2029, 0x202F, 0x205F, 0x3000]

/-- The zeros of the decimal digits beyond ASCII; the other nine digits follow each of them. -/
def decimalZeros : List Nat :=
  [0x660, 0x6F0, 0x7C0, 0x966, 0x9E6, 0xA66, 0xAE6, 0xB66, 0xBE6, 0xC66, 0xCE6, 0xD66, 0xDE6,
    0xE50, 0xED0, 0xF20, 0x1040, 0x1090, 0x17E0, 0x1810, 0x1946, 0x19D0, 0x1A80, 0x1A90, 0x1B50,
    0x1BB0, 0x1C40, 0x1C50, 0xA620, 0xA8D0, 0xA900, 0xA9D0, 0xA9F0, 0xAA50, 0xABF0, 0xFF10,
    0x104A0, 0x10D30, 0x11066, 0x110F0, 0x11136, 0x111D0, 0x112F0, 0x11450, 0x114D0, 0x11650,
    0x116C0, 0x11730, 0x118E0, 0x11950, 0x11C50, 0x11D50, 0x11DA0, 0x16A60, 0x16AC0, 0x16B50,
    0x1D7CE, 0x1D7D8, 0x1D7E2, 0x1D7EC, 0x1D7F6, 0x1E140, 0x1E2F0, 0x1E950, 0x1FBF0]

/-- A character as the reader of numbers sees it; no number has a `?`. -/
def asciiOf (c : Char) : UInt8 :=
  if c.toNat < 127 then c.toNat.toUInt8
  else if unicodeSpaces.any fun blank => blank = c.toNat then 32
  else
    match decimalZeros.find? fun first => first ≤ c.toNat ∧ c.toNat ≤ first + 9 with
    | some first => (48 + (c.toNat - first)).toUInt8
    | none => 63

/-- A text of ASCII stays as it is. -/
def transformToAscii (s : Bytes) : Option Bytes :=
  if s.all fun b => b < 128 then some s
  else s.toByteArray.utf8Decode?.map fun chars => chars.toList.map asciiOf

/-- Digits, with single underscores between them. -/
def pyDigits (value : Nat) (afterDigit : Bool) : Bytes → Option Nat
  | [] => if afterDigit then some value else none
  | b :: rest =>
      if 48 ≤ b ∧ b ≤ 57 then pyDigits (value * 10 + digitOf b) true rest
      else if b = 95 ∧ afterDigit then pyDigits value false rest
      else none

/-- `sys.int_info.default_max_str_digits` -/
def maxStrDigits : Nat := 4300

/-- The value of the digits, unless they are too many. -/
def pyNumber (digits : Bytes) : Option Nat :=
  if maxStrDigits < digits.countP fun b => 48 ≤ b ∧ b ≤ 57 then none else pyDigits 0 false digits

/-- `s.strip()` for the blanks of ASCII. -/
def stripSpaces (s : Bytes) : Bytes :=
  ((s.dropWhile isAsciiSpace).reverse.dropWhile isAsciiSpace).reverse

/-- `int(s)` -/
def pyIntOfStr (s : Bytes) : Option Int :=
  match (transformToAscii s).map stripSpaces with
  | none => none
  | some (45 :: digits) => (pyNumber digits).map fun n : Nat => -(n : Int)
  | some (43 :: digits) => (pyNumber digits).map Int.ofNat
  | some digits => (pyNumber digits).map Int.ofNat

namespace PyValue

/-- `int(v)` -/
def toInt : PyValue → Except PyError Int
  | bool b => .ok b.toInt
  | int n => .ok n
  | float (.finite x) => .ok (pyTrunc x)
  | float .infinite => .error .overflowError
  | float .nan => .error .valueError
  | str s =>
      match pyIntOfStr s with
      | some n => .ok n
      | Option.none => .error .valueError
  | none | list _ | dict _ => .error .typeError

/-- `bool(v)` -/
def truthy : PyValue → Bool
  | none => false
  | bool b => b
  | int n => n ≠ 0
  | float (.finite x) => x ≠ 0
  | float _ => true
  | str s => s ≠ []
  | list items => ¬ items.isEmpty
  | dict fields => ¬ fields.isEmpty

/-- `hash(v)` raises no `TypeError`. -/
def hashable : PyValue → Bool
  | list _ | dict _ => false
  | _ => true

end PyValue

/-! ## Frames from the server -/

/-- A `dict` with the fields of a frame. -/
abbrev Frame := List (Bytes × PyValue)

/-- The values of `type` that `_dispatch` tells apart. -/
inductive Kind where
  | pong
  | ack
  | nack
  | err
  | challenge
  | registerOk
  | authOk
  | joinOk
  | leaveOk
  | createOk
  | roomsList
  | history
  | inbox
  | message
  | system
  | userlist
  | unknown
  deriving DecidableEq

def Kind.ofText (type : Bytes) : Kind :=
  if type = bytes "PONG" then pong
  else if type = bytes "ACK" then ack
  else if type = bytes "NACK" then nack
  else if type = bytes "ERR" then err
  else if type = bytes "CHALLENGE" then challenge
  else if type = bytes "REGISTER_OK" then registerOk
  else if type = bytes "AUTH_OK" then authOk
  else if type = bytes "JOIN_OK" then joinOk
  else if type = bytes "LEAVE_OK" then leaveOk
  else if type = bytes "CREATE_OK" then createOk
  else if type = bytes "ROOMS_LIST" then roomsList
  else if type = bytes "HISTORY" then history
  else if type = bytes "INBOX" then inbox
  else if type = bytes "MESSAGE" then message
  else if type = bytes "SYSTEM" then system
  else if type = bytes "USERLIST" then userlist
  else unknown

namespace Frame

/-- `frame.get(key, default)` -/
def get (f : Frame) (key : String) (default : PyValue) : PyValue :=
  ((f.find? fun field => field.1 = bytes key).map Prod.snd).getD default

/-- `frame.get("type", "")` -/
def kind (f : Frame) : Kind :=
  match f.get "type" (.str []) with
  | .str type => .ofText type
  | _ => .unknown

end Frame

/-! ## Frames to the server -/

inductive MsgType where
  | loginHello
  | login
  | auth
  | logout
  | ping
  | join
  | leave
  | rooms
  | create
  | hist
  | inbox
  | message
  deriving DecidableEq

/-- What `make_msg` builds. -/
structure Msg where
  ver : Nat := 1
  type : MsgType
  sender : Bytes
  receiver : Bytes
  room : Bytes := []
  content : PyValue
  ts : Int
  seq : Int

def makeMsg (type : MsgType) (sender receiver : Bytes) (content : PyValue) (seq : Int)
    (now : Rat) : Msg :=
  { type, sender, receiver, content, seq, ts := pyTrunc now }

/-! ## Challenge and response -/

/-- The functions of `hashlib` and `hmac`, with SHA-256. -/
structure Hashlib where
  pbkdf2Hmac : Bytes → Bytes → Nat → Nat → Bytes
  hmac : Bytes → Bytes → Bytes

/-- The digit that a character of either case stands for. -/
def pyHexValue (h : UInt8) : Option Nat :=
  if 65 ≤ h ∧ h ≤ 70 then some (h.toNat - 55) else hexValue h

/-- `bytes.fromhex(s)`: blanks may stand between the bytes. -/
def pyFromHex : Bytes → Option Bytes
  | [] => some []
  | [b] => if isAsciiSpace b then some [] else none
  | h :: l :: rest =>
      if isAsciiSpace h then pyFromHex (l :: rest)
      else do
        let hi ← pyHexValue h
        let lo ← pyHexValue l
        let out ← pyFromHex rest
        return hexByte hi lo :: out

/-- `bytes.fromhex(v)` -/
def fromHexValue : PyValue → Except PyError Bytes
  | .str s =>
      match pyFromHex s with
      | some raw => .ok raw
      | none => .error .valueError
  | _ => .error .typeError

def deriveKey (lib : Hashlib) (password : Bytes) (saltHex : PyValue) : Except PyError Bytes := do
  let salt ← fromHexValue saltHex
  return lib.pbkdf2Hmac password salt 100000 32

def challengeProof (lib : Hashlib) (derived op user : Bytes) (nonceHex : PyValue) :
    Except PyError Bytes := do
  let nonce ← fromHexValue nonceHex
  return toHex (lib.hmac derived (op ++ user ++ nonce))

end OnlineChat.Client
