import OnlineChat.Client.Wire
import OnlineChat.Server.Frames

/-!
# What the server sends is what the client reads

`json.loads` turns every body that the server sends into a `dict` with the fields of its
frame.  The receive thread of the client knows its kind and goes on behind it.
-/

namespace OnlineChat.Client

open Library Library.Utf8 MiniJson ChatSession

/-! ## Fields by name -/

/-- An object of the server as a `dict`. -/
def asFrame (o : Object) : Frame := pyFields o.fields

@[simp]
theorem bytes_inj {s t : String} : bytes s = bytes t ↔ s = t := by
  constructor
  · intro same
    apply String.toByteArray_inj.mp
    apply ByteArray.ext
    exact Array.toList_inj.mp same
  · rintro rfl
    rfl

theorem get_set (o : Object) (k key : String) (v : Value) (default : PyValue) :
    (asFrame (o.set (bytes k) v)).get key default =
      if k = key then pyValue v else (asFrame o).get key default := by
  obtain ⟨fields⟩ := o
  simp only [asFrame, Object.set]
  induction fields with
  | nil =>
      by_cases same : k = key
      · simp [Object.setIn, pyFields, Frame.get, same]
      · simp [Object.setIn, pyFields, Frame.get, same, bytes_inj]
  | cons field fields inductionHypothesis =>
      obtain ⟨k', v'⟩ := field
      unfold Object.setIn
      by_cases here : k' = bytes k
      · subst here
        by_cases same : k = key
        · simp [pyFields, Frame.get, same]
        · simp [pyFields, Frame.get, same, bytes_inj]
      · rw [if_neg here]
        by_cases found : k' = bytes key
        · subst found
          have differs : k ≠ key := by
            rintro rfl
            exact here rfl
          simp [pyFields, Frame.get, differs]
        · simp only [Frame.get, pyFields, List.find?_cons, found, decide_false]
          exact inductionHypothesis

@[simp]
theorem get_setStr (o : Object) (k key : String) (s : Bytes) (default : PyValue) :
    (asFrame (o.setStr (bytes k) s)).get key default =
      if k = key then .str s else (asFrame o).get key default := get_set o k key (.str s) default

@[simp]
theorem get_setNum (o : Object) (k key : String) (n : Int) (default : PyValue) :
    (asFrame (o.setNum (bytes k) n)).get key default =
      if k = key then .int n else (asFrame o).get key default := get_set o k key (.num n) default

@[simp]
theorem get_setList (o : Object) (k key : String) (texts : List Bytes) (default : PyValue) :
    (asFrame (o.setList (bytes k) texts)).get key default =
      if k = key then pyValue (.list (texts.map .str)) else (asFrame o).get key default :=
  get_set o k key _ default

@[simp]
theorem get_setObjs (o : Object) (k key : String) (objs : List Object) (default : PyValue) :
    (asFrame (o.setObjs (bytes k) objs)).get key default =
      if k = key then pyValue (.list (objs.map fun item => .obj item.fields))
      else (asFrame o).get key default := get_set o k key _ default

@[simp]
theorem get_empty (key : String) (default : PyValue) : (asFrame {}).get key default = default := rfl

/-! ## Numbers in texts -/

theorem pyDigits_map (ds : List Nat) (small : ∀ d ∈ ds, d < 10) (value : Nat) (after : Bool)
    (some' : after = true ∨ ds ≠ []) : pyDigits value after (ds.map digitByte) =
      some (ds.foldl (fun value d => value * 10 + d) value) := by
  induction ds generalizing value after with
  | nil =>
      have there : after = true := some'.resolve_right fun some' => some' rfl
      simp [pyDigits, there]
  | cons d ds inductionHypothesis =>
      obtain ⟨first, rest⟩ := List.forall_mem_cons.mp small
      have digit := toNat_digitByte first
      have range : 48 ≤ digitByte d ∧ digitByte d ≤ 57 := by
        simp only [UInt8.le_iff_toNat_le, digit]
        exact ⟨by simp, by simp; omega⟩
      rw [List.map_cons, pyDigits, if_pos range, digitOf_digitByte first,
        inductionHypothesis rest _ _ (.inl rfl), List.foldl_cons]

theorem pyDigits_toDecimalNat (n : Nat) : pyDigits 0 false (toDecimalNat n) = some n := by
  by_cases zero : n = 0
  · subst zero
    rfl
  · have small : ∀ d ∈ (Nat.digits 10 n).reverse, d < 10 := by
      intro d there
      exact Nat.digits_lt_base (by decide) (List.mem_reverse.mp there)
    have nonempty : (Nat.digits 10 n).reverse ≠ [] := by
      simpa [Nat.digits_ne_nil_iff_ne_zero] using zero
    rw [toDecimalNat, if_neg zero, ← List.map_reverse, pyDigits_map _ small 0 false (.inr nonempty),
      List.foldl_reverse]
    have value (ds : List Nat) :
        ds.foldr (fun d value => value * 10 + d) 0 = Nat.ofDigits 10 ds := by
      induction ds with
      | nil => rfl
      | cons d ds inductionHypothesis =>
          rw [List.foldr_cons, inductionHypothesis, Nat.ofDigits_cons]
          exact (Nat.add_comm _ _).trans (congrArg _ (Nat.mul_comm _ _))
    rw [value, Nat.ofDigits_digits]

theorem range_of_mem_toDecimal {n : Int} {b : UInt8} (there : b ∈ toDecimal n) :
    45 ≤ b.toNat ∧ b.toNat ≤ 57 := by
  have digit (m : Nat) (there : b ∈ toDecimalNat m) : 45 ≤ b.toNat ∧ b.toNat ≤ 57 := by
    obtain ⟨low, high⟩ := digit_of_mem_toDecimalNat there
    exact ⟨by omega, high⟩
  unfold toDecimal at there
  split at there
  · rcases List.mem_cons.mp there with rfl | there
    · decide
    · exact digit _ there
  · exact digit _ there

theorem not_isAsciiSpace_of_mem {n : Int} {b : UInt8} (there : b ∈ toDecimal n) :
    isAsciiSpace b = false := by
  obtain ⟨low, high⟩ := range_of_mem_toDecimal there
  simp only [isAsciiSpace, Bool.decide_or, Bool.or_eq_false_iff, decide_eq_false_iff_not,
    UInt8.le_iff_toNat_le]
  refine ⟨?_, ?_⟩
  · rintro rfl
    exact absurd low (by decide)
  · rintro ⟨-, high⟩
    exact absurd (Nat.le_trans low high) (by decide)

theorem dropWhile_of_forall {text : Bytes} (solid : ∀ b ∈ text, isAsciiSpace b = false) :
    text.dropWhile isAsciiSpace = text := by
  cases text with
  | nil => rfl
  | cons b text => exact List.dropWhile_cons_of_neg (by simp [solid b])

/-- A decimal number is read as it stands. -/
theorem transform_toDecimal (n : Int) :
    (transformToAscii (toDecimal n)).map stripSpaces = some (toDecimal n) := by
  have ascii : (toDecimal n).all (fun b => b < 128) = true := by
    rw [List.all_eq_true]
    intro b there
    have high := (range_of_mem_toDecimal there).2
    have small : b.toNat < 128 := by omega
    exact decide_eq_true (UInt8.lt_iff_toNat_lt.mpr small)
  have solid : ∀ b ∈ toDecimal n, isAsciiSpace b = false := fun b there =>
    not_isAsciiSpace_of_mem there
  have reversed : ∀ b ∈ (toDecimal n).reverse, isAsciiSpace b = false := by
    intro b there
    exact solid b (List.mem_reverse.mp there)
  rw [transformToAscii, if_pos ascii, Option.map_some, stripSpaces, dropWhile_of_forall solid,
    dropWhile_of_forall reversed, List.reverse_reverse]

theorem eq_of_pyNumber_toDecimalNat {n m : Nat} (read : pyNumber (toDecimalNat n) = some m) :
    m = n := by
  unfold pyNumber at read
  split at read
  · exact absurd read (by simp)
  · rw [pyDigits_toDecimalNat] at read
    exact (Option.some.inj read).symm

/-- `int` reads what `std::to_string` has written, unless there are too many digits. -/
theorem eq_of_pyIntOfStr_toDecimal {n m : Int} (read : pyIntOfStr (toDecimal n) = some m) :
    m = n := by
  rw [pyIntOfStr, transform_toDecimal] at read
  obtain ⟨b, tail, text, low, -⟩ := toDecimalNat_starts n.natAbs
  have signless (sign : UInt8) (digits : Bytes) (early : sign.toNat < 48) :
      toDecimalNat n.natAbs ≠ sign :: digits := by
    rw [text]
    rintro same
    obtain ⟨rfl, -⟩ := List.cons.inj same
    omega
  by_cases negative : n < 0
  · rw [toDecimal, if_pos negative] at read
    obtain ⟨k, number, rfl⟩ := Option.map_eq_some_iff.mp read
    obtain rfl := eq_of_pyNumber_toDecimalNat number
    omega
  · rw [toDecimal, if_neg negative] at read
    split at read
    next none => exact absurd none (by simp)
    next same => exact absurd (Option.some.inj same) (signless 45 _ (by decide))
    next same => exact absurd (Option.some.inj same) (signless 43 _ (by decide))
    next same =>
      obtain rfl := Option.some.inj same
      obtain ⟨k, number, rfl⟩ := Option.map_eq_some_iff.mp read
      obtain rfl := eq_of_pyNumber_toDecimalNat number
      exact Int.natAbs_of_nonneg (Int.not_lt.mp negative)

/-! ## The frames of the server -/

/-- The receive thread comes back to its loop, unless the answer to a challenge fails to go
out. -/
def GoesOn (sock : Socket) (commands : List Cmd) : Prop :=
  .recvLoop sock ∈ commands ∨ ∃ proof, .request (.login sock proof) ∈ commands

/-- The fields that `_dispatch` reads have values that it can use. -/
def Frame.Sound (f : Frame) : Prop :=
  match f.kind with
  | .unknown => False
  | .ack | .nack => ∃ text, f.get "content" (.str (bytes "0")) = .str text
  | .err => ∃ n, (f.get "code" (.int 0)).toInt = .ok n
  | .challenge =>
      (∃ salt, f.get "salt" (.str []) = .str salt) ∧ ∃ nonce, f.get "content" (.str []) = .str nonce
  | .authOk =>
      (∃ token, f.get "content" (.str []) = .str token) ∧ ∃ n, (f.get "exp" (.int 0)).toInt = .ok n
  | .history => ∃ cursor, f.get "cursor" (.str []) = .str cursor
  | .message =>
      (∃ n, (f.get "seq" (.int 0)).toInt = .ok n) ∧ ∃ name, f.get "from" (.str []) = .str name
  | .system => ∃ text, f.get "content" (.str []) = .str text
  | _ => True

variable {f : Frame} {st : Settings} {s : ChatSession} {sock : Socket} {o : Object}

theorem Frame.Sound.known (sound : f.Sound) : f.kind ≠ .unknown := by
  intro unknown
  simp [Frame.Sound, unknown] at sound

theorem Frame.Sound.readable (sound : f.Sound) : f.readable = true := by
  unfold Frame.Sound at sound
  unfold Frame.readable
  cases kind : f.kind with
  | authOk =>
      rw [kind] at sound
      obtain ⟨⟨token, text⟩, -⟩ := sound
      dsimp only
      rw [text, readable_str]
  | history =>
      rw [kind] at sound
      obtain ⟨cursor, text⟩ := sound
      dsimp only
      rw [text, readable_str]
  | _ => rfl

/-- The proof is made, or the texts are no hexadecimal. -/
theorem goesOn_answerChallenge {salt nonce : Bytes} (saltText : f.get "salt" (.str []) = .str salt)
    (nonceText : f.get "content" (.str []) = .str nonce) :
    GoesOn sock (answerChallenge st sock f) := by
  unfold answerChallenge
  split
  · exact .inl (List.mem_singleton_self _)
  · rw [saltText, nonceText]
    simp only [deriveKey, challengeProof, fromHexValue]
    cases pyFromHex salt with
    | none => exact .inl (List.mem_singleton_self _)
    | some salt =>
        cases pyFromHex nonce with
        | none => exact .inl (List.mem_singleton_self _)
        | some nonce => exact .inr ⟨_, List.mem_singleton_self _⟩

theorem goesOn_handleErr (code : Int) : GoesOn sock (s.handleErr st sock code).2 := by
  unfold handleErr
  split
  · exact .inl (by simp)
  · split <;> exact .inl (by simp)

theorem Frame.Sound.goesOn (sound : f.Sound) : GoesOn sock (s.dispatch st sock f).2 := by
  unfold Frame.Sound at sound
  unfold dispatch
  cases kind : f.kind with
  | ack | nack =>
      rw [kind] at sound
      obtain ⟨text, content⟩ := sound
      simp only [content, PyValue.toInt]
      -- a text that is no number is a `ValueError`, which is caught
      cases pyIntOfStr text with
      | none => exact .inl (List.mem_singleton_self _)
      | some n =>
          dsimp only
          split <;> exact .inl (by simp)
  | err =>
      rw [kind] at sound
      obtain ⟨code, number⟩ := sound
      simp only [number]
      exact goesOn_handleErr code
  | challenge =>
      rw [kind] at sound
      obtain ⟨⟨salt, saltText⟩, nonce, nonceText⟩ := sound
      exact goesOn_answerChallenge saltText nonceText
  | authOk =>
      rw [kind] at sound
      obtain ⟨-, exp, number⟩ := sound
      simp only [number]
      exact .inl (by simp)
  | message =>
      rw [kind] at sound
      obtain ⟨⟨n, number⟩, name, sender⟩ := sound
      simp only [handleMessage, number, sender]
      exact .inl (by simp [PyValue.hashable])
  | system =>
      rw [kind] at sound
      obtain ⟨text, content⟩ := sound
      simp only [content]
      exact .inl (List.mem_singleton_self _)
  | unknown =>
      rw [kind] at sound
      exact sound.elim
  | _ => exact .inl (by simp)

/-- The object itself, or with a number. -/
def Numbered (o o' : Object) : Prop := o' = o ∨ ∃ n, o' = o.setNum (bytes "seq") n

theorem Numbered.get {o' : Object} (numbered : Numbered o o') {key : String} (other : key ≠ "seq")
    (default : PyValue) : (asFrame o').get key default = (asFrame o).get key default := by
  rcases numbered with rfl | ⟨n, rfl⟩
  · rfl
  · rw [get_setNum, if_neg other.symm]

/-- The type of a frame says its kind. -/
theorem kind_of_type (type : String)
    (named : (asFrame o).get "type" (.str []) = .str (bytes type)) :
    (asFrame o).kind = .ofText (bytes type) := by
  rw [Frame.kind, named]

theorem kind_textFrame (type : String) (receiver room content : Bytes) (ts : Int) :
    (asFrame (textFrame (bytes type) receiver room content ts)).kind = .ofText (bytes type) := by
  apply kind_of_type
  simp [textFrame, header]

theorem kind_listFrame (type : String) (receiver room : Bytes) (names : List Bytes) (ts : Int) :
    (asFrame (listFrame (bytes type) receiver room names ts)).kind = .ofText (bytes type) := by
  apply kind_of_type
  simp [listFrame, header]

theorem kind_pageFrame (type : String) (receiver room : Bytes)
    (rows : List (Int × Message Origin)) (more : Bool) (ts : Int) :
    (asFrame (pageFrame (bytes type) receiver room rows more ts)).kind = .ofText (bytes type) := by
  apply kind_of_type
  simp [pageFrame, header]

theorem kind_messageFrame (sender receiver room content : Bytes) (ts : Int) :
    (asFrame (messageFrame sender receiver room content ts)).kind = .message := by
  apply kind_of_type "MESSAGE"
  simp [messageFrame, header]

theorem kind_nackFrame (receiver : Bytes) (seq : Int) (reason : Bytes) (code : Option ErrorCode)
    (ts : Int) : (asFrame (nackFrame receiver seq reason code ts)).kind = .nack := by
  apply kind_of_type "NACK"
  cases code <;> simp [nackFrame, header]

theorem kind_errFrame (receiver : Bytes) (code : ErrorCode) (text : Bytes) (ts : Int) :
    (asFrame (errFrame receiver code text ts)).kind = .err := by
  apply kind_of_type "ERR"
  simp [errFrame, header]

theorem kind_challengeFrame (receiver nonceHex saltHex : Bytes) (ts : Int) :
    (asFrame (challengeFrame receiver nonceHex saltHex ts)).kind = .challenge := by
  apply kind_of_type "CHALLENGE"
  simp [challengeFrame, header]

theorem kind_authOkFrame (receiver room token : Bytes) (exp ts : Int) :
    (asFrame (authOkFrame receiver room token exp ts)).kind = .authOk := by
  apply kind_of_type "AUTH_OK"
  simp [authOkFrame, header]

theorem kind_roomsListFrame (receiver : Bytes) (rooms : List RoomInfo) (ts : Int) :
    (asFrame (roomsListFrame receiver rooms ts)).kind = .roomsList := by
  apply kind_of_type "ROOMS_LIST"
  simp [roomsListFrame, header]

theorem kind_offlineFrame (receiver : Bytes) (row : OffRow) :
    (asFrame (offlineFrame receiver row)).kind = .message := by
  apply kind_of_type "MESSAGE"
  simp [offlineFrame, messageFrame, header]

theorem Numbered.kind {o' : Object} (numbered : Numbered o o') :
    (asFrame o').kind = (asFrame o).kind := by
  unfold Frame.kind
  rw [numbered.get (by decide)]

/-- Only an ACK is taken for one. -/
theorem kind_plainFrame (frame : PlainFrame o) : (asFrame o).kind ≠ .ack := by
  cases frame with
  | pong | registerOk | system | leaveOk | createOk =>
      simp only [pongFrame, registerOkFrame, systemFrame, leaveOkFrame, createOkFrame,
        kind_textFrame]
      decide
  | userlist | joinOk =>
      simp only [userlistFrame, joinOkFrame, kind_listFrame]
      decide
  | history | inbox =>
      rw [kind_pageFrame]
      decide
  | nack => simp [kind_nackFrame]
  | err => simp [kind_errFrame]
  | challenge => simp [kind_challengeFrame]
  | authOk => simp [kind_authOkFrame]
  | roomsList => simp [kind_roomsListFrame]
  | message => simp [kind_messageFrame]
  | offline => simp [kind_offlineFrame]

theorem distinct_header (type sender receiver room : Bytes) :
    (header type sender receiver room).Distinct :=
  Object.Distinct.empty.setNum.setStr.setStr.setStr.setStr

theorem distinct_roomItem (r : RoomInfo) : (roomItem r).Distinct :=
  Object.Distinct.empty.setStr.setStr.setNum.setNum

theorem distinct_historyItem (row : Int × Message Origin) : (historyItem row).Distinct :=
  Object.Distinct.empty.setNum.setStr.setStr.setStr.setNum.setStr

theorem distinct_pageFrame (kind receiver room : Bytes) (rows : List (Int × Message Origin))
    (more : Bool) (ts : Int) : (pageFrame kind receiver room rows more ts).Distinct := by
  apply Object.Distinct.setNum
  apply Object.Distinct.setNum
  apply Object.Distinct.setStr
  apply (distinct_header ..).setObjs
  intro item there
  obtain ⟨row, -, rfl⟩ := List.mem_map.mp there
  exact distinct_historyItem row

/-- The server sets no field under a name of its own twice. -/
theorem distinct_serverFrame (frame : ServerFrame o) : o.Distinct := by
  rcases frame with frame | ⟨receiver, seq, ts⟩
  swap
  · exact (distinct_header ..).setStr.setNum
  cases frame with
  | pong | registerOk | system | leaveOk | createOk | message =>
      exact (distinct_header ..).setStr.setNum
  | err => exact (distinct_header ..).setNum.setStr.setNum
  | nack receiver seq reason code ts =>
      cases code with
      | none => exact (distinct_header ..).setStr.setStr.setNum
      | some code => exact (distinct_header ..).setStr.setStr.setNum.setNum
  | challenge => exact (distinct_header ..).setStr.setStr.setNum
  | authOk => exact (distinct_header ..).setStr.setNum.setNum
  | userlist | joinOk => exact (distinct_header ..).setList.setNum
  | roomsList receiver rooms ts =>
      apply Object.Distinct.setNum
      apply (distinct_header ..).setObjs
      intro item there
      obtain ⟨r, -, rfl⟩ := List.mem_map.mp there
      exact distinct_roomItem r
  | history | inbox => exact distinct_pageFrame ..
  | offline => exact (distinct_header ..).setStr.setNum.setNum

theorem Numbered.distinct {o' : Object} (numbered : Numbered o o') (apart : o.Distinct) :
    o'.Distinct := by
  rcases numbered with rfl | ⟨n, rfl⟩
  · exact apart
  · exact apart.setNum

theorem Numbered.utf8 {o' : Object} (numbered : Numbered o o') (utf8 : o.Utf8) : o'.Utf8 := by
  rcases numbered with rfl | ⟨n, rfl⟩
  · exact utf8
  · exact utf8.setNum (wellFormed_bytes "seq") n

end OnlineChat.Client

/-! ## The bodies of a run -/

namespace OnlineChat

open Library Library.Utf8 MiniJson Client

end OnlineChat
