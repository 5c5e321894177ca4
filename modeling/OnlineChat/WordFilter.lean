import OnlineChat.Bytes
import OnlineChat.Library.SortedMap

/-!
# Word filter

A byte trie over the lower-cased words, stored as nodes with indices, and a scan
from left to right that takes the longest match at every position.
-/

namespace OnlineChat

open Library

namespace WordFilter

structure Node where
  next : SortedMap UInt8 Nat := ∅
  terminal : Bool := false
  word : Bytes := []

/-- A hit: the bytes from `start` up to `stop` match `word`. -/
structure Match where
  start : Nat
  stop : Nat
  word : Bytes

end WordFilter

structure WordFilter where
  nodes : List WordFilter.Node := [{}]
  words : Nat := 0

namespace WordFilter

def isEmpty (f : WordFilter) : Bool := f.words = 0

def asciiLower (s : Bytes) : Bytes := s.map fun b => if 65 ≤ b ∧ b ≤ 90 then b - 65 + 97 else b

/-- `nodes_[i]`. -/
def node (f : WordFilter) (i : Nat) : Node := f.nodes.getD i {}

/-- Follow one byte, adding a node where there is none. -/
def addStep (f : WordFilter) (cur : Nat) (c : UInt8) : Nat × WordFilter :=
  match (f.node cur).next.find? c with
  | some id => (id, f)
  | none =>
      let id := f.nodes.length
      let parent := f.node cur
      (id, { f with
        nodes := (f.nodes ++ [({} : Node)]).set cur { parent with next := parent.next.insert c id } })

def addPath (f : WordFilter) (cur : Nat) : Bytes → Nat × WordFilter
  | [] => (cur, f)
  | c :: w => let (cur, f) := f.addStep cur c; f.addPath cur w

/-- `false` for the empty word. -/
def addWord (f : WordFilter) (word : Bytes) : Bool × WordFilter :=
  if word = [] then (false, f)
  else
    let (cur, f) := f.addPath 0 (asciiLower word)
    let last := f.node cur
    if last.terminal then (true, f)
    else
      (true, { nodes := f.nodes.set cur { last with terminal := true, word },
               words := f.words + 1 })

/-- The longest match at one position: its length and word. -/
def longest (f : WordFilter) (cur len : Nat) (best : Option (Nat × Bytes)) :
    Bytes → Option (Nat × Bytes)
  | [] => best
  | c :: rest =>
      match (f.node cur).next.find? c with
      | none => best
      | some cur =>
          let last := f.node cur
          f.longest cur (len + 1) (if last.terminal then some (len + 1, last.word) else best) rest

/-- The loop of `scan` from position `i` on. -/
def scanFrom (f : WordFilter) : Nat → Nat → Bytes → List Match
  | 0, _, _ => []
  | _, _, [] => []
  | fuel + 1, i, c :: rest =>
      match f.longest 0 0 none (c :: rest) with
      | some (len, word) =>
          ⟨i, i + len, word⟩ :: f.scanFrom fuel (i + len) ((c :: rest).drop len)
      | none => f.scanFrom fuel (i + 1) rest

/-- Every round consumes a byte, so the length of the text is enough fuel. -/
def scan (f : WordFilter) (lowered : Bytes) : List Match := f.scanFrom lowered.length 0 lowered

/-- The word of the first hit. -/
def contains (f : WordFilter) (text : Bytes) : Option Bytes :=
  (f.scan (asciiLower text)).head?.map Match.word

/-- The number of bytes that do not continue a character. -/
def utf8Chars (s : Bytes) : Nat := s.countP fun b => b &&& 0xC0 ≠ 0x80

/-- Replace the segments of the hits, `pos` being where the unmasked text goes on. -/
def maskFrom (text : Bytes) (mask : UInt8) (pos : Nat) : List Match → Bytes
  | [] => text.drop pos
  | m :: ms =>
      let chars := utf8Chars ((text.drop m.start).take (m.stop - m.start))
      (text.drop pos).take (m.start - pos) ++
        List.replicate (if chars = 0 then 1 else chars) mask ++ maskFrom text mask m.stop ms

def filter (f : WordFilter) (text : Bytes) (mask : UInt8) : Bytes :=
  maskFrom text mask 0 (f.scan (asciiLower text))

end WordFilter

end OnlineChat
