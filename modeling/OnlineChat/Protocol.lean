import OnlineChat.Bytes

/-!
# Protocol layer

Error codes, the checks of names and the history cursor.
-/

namespace OnlineChat

inductive ErrorCode where
  | dupUser
  | noSuchUser
  | badPass
  | dupLogin
  | alreadyAuth
  | badToken
  | notAuth
  | badCredFmt
  | badChallenge
  | roomExists
  | noSuchRoom
  | notInRoom
  | badRoomName
  | badCursor
  | connRate
  | msgRate
  | sensitive
  | backpressure
  | db
  deriving DecidableEq

/-- The number that goes on the wire. -/
def ErrorCode.value : ErrorCode → Int
  | dupUser => 1001
  | noSuchUser => 1002
  | badPass => 1003
  | dupLogin => 1004
  | alreadyAuth => 1005
  | badToken => 1006
  | notAuth => 1007
  | badCredFmt => 1008
  | badChallenge => 1009
  | roomExists => 2001
  | noSuchRoom => 2002
  | notInRoom => 2003
  | badRoomName => 2004
  | badCursor => 3001
  | connRate => 4001
  | msgRate => 4002
  | sensitive => 4003
  | backpressure => 4004
  | db => 9001

/-! ## Names -/

/-- No control characters. -/
def printableName (u : Bytes) : Bool := u.all (32 ≤ ·)

/-- 1 to 32 bytes, not reserved, no control characters. -/
def validName (u : Bytes) : Bool :=
  u ≠ [] && u.length ≤ 32 && u ≠ bytes "SERVER" && u ≠ bytes "ALL" && printableName u

def validUsername (u : Bytes) : Bool := validName u

def validRoomName (r : Bytes) : Bool := validName r

theorem ne_nil_of_validName {u : Bytes} (valid : validName u = true) : u ≠ [] := by
  simp only [validName, Bool.and_eq_true, decide_eq_true_eq] at valid
  exact valid.1.1.1.1

/-- A valid name goes through SQLite unchanged. -/
theorem cStr_of_validName {u : Bytes} (valid : validName u = true) : cStr u = u := by
  simp only [validName, Bool.and_eq_true, printableName, List.all_eq_true,
    decide_eq_true_eq] at valid
  refine cStr_eq_self fun b membership zero => ?_
  exact absurd (zero ▸ valid.2 b membership) (by decide)

/-! ## History cursor -/

def formatCursor (ts id : Int) : Bytes := toDecimal ts ++ 58 :: toDecimal id

/-- White space as `isspace` sees it. -/
def isSpaceC (b : UInt8) : Bool := b = 32 || (9 ≤ b && b ≤ 13)

/-- `std::atoll`: blanks, a sign and digits, clamped to the range of `long long`. -/
def atoll (s : Bytes) : Int :=
  let s := (cStr s).dropWhile isSpaceC
  let (neg, s) :=
    match s with
    | 45 :: s => (true, s)
    | 43 :: s => (false, s)
    | s => (false, s)
  let v : Int := ofDecimalNat (s.takeWhile fun b => 48 ≤ b && b ≤ 57)
  if neg then max (-v) (-(2 ^ 63)) else min v (2 ^ 63 - 1)

def parseCursor (cur : Bytes) : Option (Int × Int) :=
  match cur.idxOf? 58 with
  | none => none
  | some p =>
      if p = 0 ∨ p + 1 ≥ cur.length then none
      else
        let ts := atoll (cur.take p)
        let id := atoll (cur.drop (p + 1))
        if 0 < ts ∧ 0 < id then some (ts, id) else none

theorem toNat_le_of_isSpaceC {b : UInt8} (space : isSpaceC b = true) : b.toNat ≤ 32 := by
  simp only [isSpaceC, Bool.or_eq_true, Bool.and_eq_true, decide_eq_true_eq,
    UInt8.le_iff_toNat_le] at space
  rcases space with rfl | ⟨-, high⟩
  · decide
  · exact Nat.le_trans high (by decide)

/-- `atoll` reads back what `"%lld"` wrote. -/
theorem atoll_toDecimal {n : Int} (positive : 0 < n) (small : n < 2 ^ 63) :
    atoll (toDecimal n) = n := by
  have digits : ∀ b ∈ toDecimalNat n.natAbs, 48 ≤ b.toNat ∧ b.toNat ≤ 57 :=
    fun b membership => digit_of_mem_toDecimalNat membership
  have value : ((ofDecimalNat (toDecimalNat n.natAbs) : Nat) : Int) = n := by
    rw [ofDecimalNat_toDecimalNat]
    omega
  have clean : cStr (toDecimalNat n.natAbs) = toDecimalNat n.natAbs := by
    refine cStr_eq_self fun b membership zero => ?_
    exact absurd (digits b membership) (by simp [zero])
  have whole : (toDecimalNat n.natAbs).takeWhile (fun b => 48 ≤ b && b ≤ 57) =
      toDecimalNat n.natAbs := by
    rw [List.takeWhile_eq_self_iff]
    intro b membership
    have digit := digits b membership
    simp only [Bool.and_eq_true, decide_eq_true_eq, UInt8.le_iff_toNat_le]
    exact digit
  have noSpace : (toDecimalNat n.natAbs).dropWhile isSpaceC = toDecimalNat n.natAbs := by
    rw [List.dropWhile_eq_self_iff]
    intro positive space
    have first := digits _ (List.getElem_mem positive)
    have low := toNat_le_of_isSpaceC space
    omega
  unfold atoll
  rw [toDecimal_of_pos positive, clean, noSpace]
  dsimp only
  -- the text does not start with a sign
  split
  next rest start =>
    have sign := digits 45 (by simp [start])
    exact absurd sign (by decide)
  next rest start =>
    have sign := digits 43 (by simp [start])
    exact absurd sign (by decide)
  next =>
    rw [whole, value]
    exact min_eq_left (by omega)

/-- A cursor of a row is accepted, and denotes its time and its key. -/
theorem parseCursor_formatCursor {ts id : Int} (tsPositive : 0 < ts) (tsSmall : ts < 2 ^ 63)
    (idPositive : 0 < id) (idSmall : id < 2 ^ 63) :
    parseCursor (formatCursor ts id) = some (ts, id) := by
  have digits {n : Int} (positive : 0 < n) : (58 : UInt8) ∉ toDecimal n ∧ toDecimal n ≠ [] := by
    rw [toDecimal_of_pos positive]
    refine ⟨fun colon => absurd (digit_of_mem_toDecimalNat colon) (by decide), fun empty => ?_⟩
    have value := ofDecimalNat_toDecimalNat n.natAbs
    rw [empty] at value
    have zero : ofDecimalNat [] = 0 := rfl
    omega
  have tsLength := List.length_pos_iff.mpr (digits tsPositive).2
  have idLength := List.length_pos_iff.mpr (digits idPositive).2
  have colon : (formatCursor ts id).idxOf? 58 = some (toDecimal ts).length := by
    unfold formatCursor
    rw [List.idxOf?_eq_some_iff]
    refine ⟨by simp, by simp, ?_⟩
    intro j before here
    rw [List.getElem_append_left before] at here
    exact (digits tsPositive).1 (here ▸ List.getElem_mem before)
  unfold parseCursor
  rw [colon]
  have inside : ¬ ((toDecimal ts).length = 0 ∨
      (toDecimal ts).length + 1 ≥ (formatCursor ts id).length) := by
    simp only [formatCursor, List.length_append, List.length_cons]
    omega
  have front : (formatCursor ts id).take (toDecimal ts).length = toDecimal ts := by
    simp [formatCursor]
  have back : (formatCursor ts id).drop ((toDecimal ts).length + 1) = toDecimal id := by
    simp [formatCursor]
  simp only [inside, if_false, front, back, atoll_toDecimal tsPositive tsSmall,
    atoll_toDecimal idPositive idSmall]
  rw [if_pos ⟨tsPositive, idPositive⟩]

end OnlineChat
