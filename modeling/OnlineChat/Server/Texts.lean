import OnlineChat.Characters
import OnlineChat.GroupCommit
import OnlineChat.Library.Recording
import OnlineChat.MiniJson.Utf8
import OnlineChat.Server.Program

/-!
# The texts of the server

Every text that the server keeps or is about to send is UTF-8, as long as the bodies of
the frames that it receives are.
-/

namespace OnlineChat

open Library Library.Utf8 MiniJson Database ChatServer

/-! ## Frames -/

section Frames

variable {type sender receiver room content : Bytes} {ts : Int}

theorem utf8_header (typeUtf8 : WellFormed type) (senderUtf8 : WellFormed sender)
    (receiverUtf8 : WellFormed receiver) (roomUtf8 : WellFormed room) :
    (header type sender receiver room).Utf8 := by
  unfold header
  apply Object.Utf8.setStr _ (wellFormed_bytes "room") roomUtf8
  apply Object.Utf8.setStr _ (wellFormed_bytes "to") receiverUtf8
  apply Object.Utf8.setStr _ (wellFormed_bytes "from") senderUtf8
  apply Object.Utf8.setStr _ (wellFormed_bytes "type") typeUtf8
  exact Object.utf8_empty.setNum (wellFormed_bytes "ver") 1

theorem wellFormed_serverName : WellFormed serverName := wellFormed_bytes "SERVER"

/-- The head of a frame of the server. -/
theorem utf8_serverHeader (type : String) (receiverUtf8 : WellFormed receiver)
    (roomUtf8 : WellFormed room) : (header (bytes type) serverName receiver room).Utf8 :=
  utf8_header (wellFormed_bytes type) wellFormed_serverName receiverUtf8 roomUtf8

theorem utf8_textFrame (type : String) (receiverUtf8 : WellFormed receiver)
    (roomUtf8 : WellFormed room) (contentUtf8 : WellFormed content) (ts : Int) :
    (textFrame (bytes type) receiver room content ts).Utf8 :=
  ((utf8_serverHeader type receiverUtf8 roomUtf8).setStr (wellFormed_bytes _) contentUtf8).setNum
    (wellFormed_bytes _) ts

theorem utf8_errFrame (receiverUtf8 : WellFormed receiver) (code : ErrorCode)
    (contentUtf8 : WellFormed content) (ts : Int) : (errFrame receiver code content ts).Utf8 := by
  have head := utf8_serverHeader "ERR" receiverUtf8 wellFormed_nil
  exact ((head.setNum (wellFormed_bytes _) code.value).setStr (wellFormed_bytes _)
    contentUtf8).setNum (wellFormed_bytes _) ts

theorem utf8_overpressureFrame (receiverUtf8 : WellFormed receiver) (ts : Int) :
    (overpressureFrame receiver ts).Utf8 :=
  utf8_errFrame receiverUtf8 .backpressure (wellFormed_bytes _) ts

theorem utf8_nackFrame {reason : Bytes} (receiverUtf8 : WellFormed receiver) (seq : Int)
    (reasonUtf8 : WellFormed reason) (code : Option ErrorCode) (ts : Int) :
    (nackFrame receiver seq reason code ts).Utf8 := by
  have head := utf8_serverHeader "NACK" receiverUtf8 wellFormed_nil
  have nack := (head.setStr (wellFormed_bytes "content") (wellFormed_toDecimal seq)).setStr
    (wellFormed_bytes "reason") reasonUtf8
  unfold nackFrame
  apply Object.Utf8.setNum _ (wellFormed_bytes "ts")
  cases code with
  | none => exact nack
  | some code => exact nack.setNum (wellFormed_bytes "code") code.value

theorem utf8_challengeFrame {nonceHex saltHex : Bytes} (receiverUtf8 : WellFormed receiver)
    (nonceUtf8 : WellFormed nonceHex) (saltUtf8 : WellFormed saltHex) (ts : Int) :
    (challengeFrame receiver nonceHex saltHex ts).Utf8 := by
  have head := utf8_serverHeader "CHALLENGE" receiverUtf8 wellFormed_nil
  exact ((head.setStr (wellFormed_bytes _) nonceUtf8).setStr (wellFormed_bytes _)
    saltUtf8).setNum (wellFormed_bytes _) ts

theorem utf8_authOkFrame {token : Bytes} (receiverUtf8 : WellFormed receiver)
    (roomUtf8 : WellFormed room) (tokenUtf8 : WellFormed token) (exp ts : Int) :
    (authOkFrame receiver room token exp ts).Utf8 := by
  have head := utf8_serverHeader "AUTH_OK" receiverUtf8 roomUtf8
  exact ((head.setStr (wellFormed_bytes _) tokenUtf8).setNum (wellFormed_bytes _) exp).setNum
    (wellFormed_bytes _) ts

theorem utf8_listFrame (type : String) {names : List Bytes} (receiverUtf8 : WellFormed receiver)
    (roomUtf8 : WellFormed room) (namesUtf8 : ∀ name ∈ names, WellFormed name) (ts : Int) :
    (listFrame (bytes type) receiver room names ts).Utf8 :=
  ((utf8_serverHeader type receiverUtf8 roomUtf8).setList (wellFormed_bytes _) namesUtf8).setNum
    (wellFormed_bytes _) ts

theorem utf8_leaveOkFrame (receiverUtf8 : WellFormed receiver) (roomUtf8 : WellFormed room)
    (ts : Int) : (leaveOkFrame receiver room ts).Utf8 :=
  utf8_textFrame "LEAVE_OK" receiverUtf8 roomUtf8 ((wellFormed_bytes _).append roomUtf8) ts

theorem utf8_createOkFrame (receiverUtf8 : WellFormed receiver) (roomUtf8 : WellFormed room)
    (ts : Int) : (createOkFrame receiver room ts).Utf8 := by
  apply utf8_textFrame "CREATE_OK" receiverUtf8 roomUtf8
  have named := (wellFormed_bytes "房间 ").append roomUtf8
  have hint := (named.append (wellFormed_bytes " 创建成功，用 /join ")).append roomUtf8
  exact hint.append (wellFormed_bytes " 加入")

/-- The texts of a room. -/
structure RoomInfo.Utf8 (r : RoomInfo) : Prop where
  name : WellFormed r.name
  owner : WellFormed r.owner
  members : ∀ user ∈ r.members.keys, WellFormed user

theorem utf8_roomsListFrame {rooms : List RoomInfo} (receiverUtf8 : WellFormed receiver)
    (roomsUtf8 : ∀ r ∈ rooms, r.Utf8) (ts : Int) : (roomsListFrame receiver rooms ts).Utf8 := by
  have head := utf8_serverHeader "ROOMS_LIST" receiverUtf8 wellFormed_nil
  refine (head.setObjs (wellFormed_bytes _) ?_).setNum (wellFormed_bytes _) ts
  intro item there
  obtain ⟨r, member, rfl⟩ := List.mem_map.mp there
  have named := Object.utf8_empty.setStr (wellFormed_bytes "name") (roomsUtf8 r member).name
  have owned := named.setStr (wellFormed_bytes "owner") (roomsUtf8 r member).owner
  exact (owned.setNum (wellFormed_bytes _) _).setNum (wellFormed_bytes _) _

/-- The texts of a stored message. -/
structure Message.Utf8 {Call : Type} (x : Message Call) : Prop where
  sender : WellFormed x.sender
  receiver : WellFormed x.receiver
  content : WellFormed x.content
  type : WellFormed x.type

theorem utf8_pageFrame {Call : Type} {rows : List (Int × Message Call)} (kind : String)
    (receiverUtf8 : WellFormed receiver) (roomUtf8 : WellFormed room)
    (rowsUtf8 : ∀ row ∈ rows, row.2.Utf8) (more : Bool) (ts : Int) :
    (pageFrame (bytes kind) receiver room rows more ts).Utf8 := by
  have head := utf8_serverHeader kind receiverUtf8 roomUtf8
  refine (((head.setObjs (wellFormed_bytes _) ?_).setStr (wellFormed_bytes _) ?_).setNum
    (wellFormed_bytes _) _).setNum (wellFormed_bytes _) ts
  · intro item there
    obtain ⟨row, member, rfl⟩ := List.mem_map.mp there
    have utf8 := rowsUtf8 row (List.mem_reverse.mp member)
    have addressed := ((Object.utf8_empty.setNum (wellFormed_bytes "id") row.1).setStr
      (wellFormed_bytes "from") utf8.sender).setStr (wellFormed_bytes "to") utf8.receiver
    exact ((addressed.setStr (wellFormed_bytes _) utf8.content).setNum (wellFormed_bytes _)
      _).setStr (wellFormed_bytes _) utf8.type
  · cases rows.getLast? with
    | none => exact wellFormed_nil
    | some row =>
        have id : WellFormed (58 :: toDecimal row.1) :=
          (wellFormed_toDecimal row.1).cons (by decide)
        exact (wellFormed_toDecimal row.2.ts).append id

theorem utf8_messageFrame (senderUtf8 : WellFormed sender) (receiverUtf8 : WellFormed receiver)
    (roomUtf8 : WellFormed room) (contentUtf8 : WellFormed content) (ts : Int) :
    (messageFrame sender receiver room content ts).Utf8 :=
  ((utf8_header (wellFormed_bytes "MESSAGE") senderUtf8 receiverUtf8 roomUtf8).setStr
    (wellFormed_bytes _) contentUtf8).setNum (wellFormed_bytes _) ts

/-- The texts of an offline row. -/
structure OffRow.Utf8 (row : OffRow) : Prop where
  sender : WellFormed row.sender
  content : WellFormed row.content

theorem utf8_offlineFrame {row : OffRow} (receiverUtf8 : WellFormed receiver) (utf8 : row.Utf8) :
    (offlineFrame receiver row).Utf8 :=
  (utf8_messageFrame utf8.sender receiverUtf8 wellFormed_nil utf8.content row.ts).setNum
    (wellFormed_bytes _) 1

end Frames

/-! ## The database -/

/-- All texts of a database that the server reads back are UTF-8. -/
structure Database.Utf8 {Call : Type} (db : Database Call) : Prop where
  users : ∀ row ∈ db.users.rows, WellFormed row.2.username ∧ WellFormed row.2.salt
  rooms : ∀ row ∈ db.rooms.rows, WellFormed row.2.name ∧ WellFormed row.2.owner
  offline : ∀ row ∈ db.offline.rows, WellFormed row.2.sender ∧ WellFormed row.2.content
  messages : ∀ row ∈ db.messages.rows, row.2.Utf8
  saved : ∀ row ∈ db.saved.rows, row.2.Utf8

namespace Database

section Tables

variable {Call : Type} {db db' : Database Call} {e : SqlOutcome} {name : Bytes}

theorem Utf8.reopen {Call' : Type} (utf8 : db.Utf8) : (db.reopen : Database Call').Utf8 where
  users := utf8.users
  rooms := utf8.rooms
  offline := utf8.offline
  messages row there := by
    obtain ⟨old, stored, rfl⟩ := List.mem_map.mp there
    have old : old.2.Utf8 := by
      unfold Database.stored at stored
      split at stored
      · exact utf8.saved old stored
      · exact utf8.messages old stored
    exact ⟨old.sender, old.receiver, old.content, old.type⟩
  saved := by simp [Database.reopen]

theorem Utf8.createUser {salt pwdHash : Bytes} (utf8 : db.Utf8) (nameUtf8 : WellFormed name)
    (saltUtf8 : WellFormed salt) (ts : Int) :
    (db.createUser name salt pwdHash ts e).2.Utf8 := by
  unfold Database.createUser
  repeat' split
  all_goals try exact utf8
  refine { utf8 with users := ?_ }
  intro row there
  rcases Table.mem_rows_insert.mp there with old | rfl
  · exact utf8.users row old
  · exact ⟨wellFormed_cStr nameUtf8, wellFormed_cStr saltUtf8⟩

theorem Utf8.createRoom {owner : Bytes} (utf8 : db.Utf8) (nameUtf8 : WellFormed name)
    (ownerUtf8 : WellFormed owner) (ts : Int) : (db.createRoom name owner ts e).2.Utf8 := by
  unfold Database.createRoom
  repeat' split
  all_goals try exact utf8
  refine { utf8 with rooms := ?_ }
  intro row there
  rcases Table.mem_rows_insert.mp there with old | rfl
  · exact utf8.rooms row old
  · exact ⟨wellFormed_cStr nameUtf8, wellFormed_cStr ownerUtf8⟩

theorem Utf8.insertOffline {sender receiver content : Bytes} (utf8 : db.Utf8)
    (senderUtf8 : WellFormed sender) (contentUtf8 : WellFormed content) (ts : Int) :
    (db.insertOffline sender receiver content ts e).Utf8 := by
  unfold Database.insertOffline
  dsimp only
  split
  · refine { utf8 with offline := ?_ }
    intro row there
    rcases Table.mem_rows_insert.mp there with old | rfl
    · exact utf8.offline row old
    · exact ⟨wellFormed_cStr senderUtf8, wellFormed_cStr contentUtf8⟩
  · exact utf8

theorem Utf8.markDelivered (utf8 : db.Utf8) (id : Int) : (db.markDelivered id e).Utf8 := by
  unfold Database.markDelivered
  split
  · refine { utf8 with offline := ?_ }
    intro row there
    obtain ⟨x, old, value⟩ := Table.mem_rows_update.mp there
    rw [value]
    split <;> exact utf8.offline _ old
  · exact utf8

theorem Utf8.advance {x : Message Call} {bump : Int → Int} {state : CallState} {p : Progress}
    (utf8 : db.Utf8) (row : x.Utf8) (ran : db.advance bump x e state = some (db', p)) :
    db'.Utf8 := by
  obtain ⟨users, rooms, offline⟩ := tables_advance ran
  obtain ⟨saved, messages⟩ := messages_advance ran
  refine ⟨users ▸ utf8.users, rooms ▸ utf8.rooms, offline ▸ utf8.offline, ?_, ?_⟩
  · rcases messages with same | back | ⟨grown, -⟩
    · exact same ▸ utf8.messages
    · exact back ▸ utf8.saved
    · rw [grown]
      intro y there
      rcases Table.mem_rows_insert.mp there with old | rfl
      · exact utf8.messages y old
      · exact row
  · rcases saved with same | now
    · exact same ▸ utf8.saved
    · exact now ▸ utf8.messages

theorem Utf8.salt_of_findUser {row : UserRow} (utf8 : db.Utf8)
    (found : db.findUser name e = some row) : WellFormed row.salt := by
  unfold Database.findUser at found
  split at found
  · obtain ⟨entry, hit, rfl⟩ := Option.map_eq_some_iff.mp found
    exact (utf8.users entry (List.mem_of_find?_eq_some hit)).2
  · cases found

theorem Utf8.undelivered (utf8 : db.Utf8) (receiver : Bytes) :
    ∀ row ∈ db.undelivered receiver e, row.Utf8 := by
  intro row read
  obtain ⟨x, there, -, -, same⟩ := mem_undelivered read
  obtain ⟨senderUtf8, contentUtf8⟩ := utf8.offline _ there
  rw [same]
  exact ⟨senderUtf8, contentUtf8⟩

theorem Utf8.page (utf8 : db.Utf8) (p : Message Call → Bool) (cursor : Option (Int × Int))
    (limit : Nat) : ∀ row ∈ db.page p cursor limit e, row.2.Utf8 := by
  intro row read
  have taken := List.mem_of_mem_take ((fetched_sublist _ _).subset read)
  exact utf8.messages row (List.mem_filter.mp (List.mem_insertionSort _ |>.mp taken)).1

theorem Utf8.listRooms (utf8 : db.Utf8) :
    ∀ row ∈ db.listRooms e, WellFormed row.2.name ∧ WellFormed row.2.owner := by
  intro row read
  exact utf8.rooms row ((fetched_sublist e db.rooms.rows).subset read)

end Tables

end Database

/-! ## The rooms -/

/-- All texts of the routing table are UTF-8. -/
structure RoomRouter.Utf8 (r : RoomRouter) : Prop where
  rooms : ∀ entry ∈ r.rooms.entries, WellFormed entry.1 ∧ entry.2.Utf8
  users : ∀ entry ∈ r.userRooms.entries, WellFormed entry.2

namespace RoomRouter

variable {r : RoomRouter} {user room : Bytes}

theorem utf8_empty : Utf8 {} := ⟨nofun, nofun⟩

theorem Utf8.create {name owner : Bytes} (utf8 : r.Utf8) (nameUtf8 : WellFormed name)
    (ownerUtf8 : WellFormed owner) (dbId createdAt : Int) :
    (r.create name owner dbId createdAt).2.Utf8 := by
  unfold RoomRouter.create
  split
  · exact utf8
  · refine ⟨?_, utf8.users⟩
    intro entry there
    rcases SortedMap.mem_insertIn there with rfl | old
    · refine ⟨nameUtf8, nameUtf8, ownerUtf8, ?_⟩
      rintro user ⟨⟩
    · exact utf8.rooms entry old

theorem utf8_modifyMembers {rooms : SortedMap Bytes RoomInfo}
    {f : SortedMap Bytes Unit → SortedMap Bytes Unit}
    (utf8 : ∀ entry ∈ rooms.entries, WellFormed entry.1 ∧ entry.2.Utf8)
    (keeps : ∀ members : SortedMap Bytes Unit, (∀ user ∈ members.keys, WellFormed user) →
      ∀ user ∈ (f members).keys, WellFormed user) :
    ∀ entry ∈ (modifyMembers rooms room f).entries, WellFormed entry.1 ∧ entry.2.Utf8 := by
  unfold modifyMembers
  split
  next info found =>
    obtain ⟨roomUtf8, old⟩ := utf8 _ (SortedMap.mem_entries_of_find? found)
    intro entry there
    rcases SortedMap.mem_insertIn there with rfl | other
    · exact ⟨roomUtf8, old.name, old.owner, keeps _ old.members⟩
    · exact utf8 entry other
  next => exact utf8

theorem utf8_erase (user : Bytes) (members : SortedMap Bytes Unit)
    (utf8 : ∀ x ∈ members.keys, WellFormed x) : ∀ x ∈ (members.erase user).keys, WellFormed x := by
  intro x there
  exact utf8 x (SortedMap.mem_keys_erase.mp there).2

theorem utf8_insert (userUtf8 : WellFormed user) (members : SortedMap Bytes Unit)
    (utf8 : ∀ x ∈ members.keys, WellFormed x) :
    ∀ x ∈ (members.insert user ()).keys, WellFormed x := by
  intro x there
  rcases SortedMap.mem_keys_insert.mp there with rfl | old
  · exact userUtf8
  · exact utf8 x old

theorem utf8_userRooms {users : SortedMap Bytes Bytes} (utf8 : ∀ entry ∈ users.entries, WellFormed entry.2)
    (roomUtf8 : WellFormed room) : ∀ entry ∈ (users.insert user room).entries, WellFormed entry.2 := by
  intro entry there
  rcases SortedMap.mem_insertIn there with rfl | old
  · exact roomUtf8
  · exact utf8 entry old

theorem Utf8.join (utf8 : r.Utf8) (userUtf8 : WellFormed user) (roomUtf8 : WellFormed room) :
    (r.join user room).2.Utf8 := by
  unfold RoomRouter.join
  split
  · split
    · split
      · exact utf8
      · refine ⟨?_, utf8_userRooms utf8.users roomUtf8⟩
        apply utf8_modifyMembers (utf8_modifyMembers utf8.rooms (utf8_erase user))
        exact utf8_insert userUtf8
    · refine ⟨?_, utf8_userRooms utf8.users roomUtf8⟩
      exact utf8_modifyMembers utf8.rooms (utf8_insert userUtf8)
  · exact utf8

theorem Utf8.userRoom (utf8 : r.Utf8) (user : Bytes) : WellFormed (r.userRoom user) := by
  unfold RoomRouter.userRoom
  cases found : r.userRooms.find? user with
  | none => exact wellFormed_nil
  | some room => exact utf8.users _ (SortedMap.mem_entries_of_find? found)

/-- The room that a user comes from. -/
theorem fst_join {prev : Bytes} (joined : (r.join user room).1 = some prev) :
    prev = r.userRoom user := by
  unfold RoomRouter.join at joined
  unfold RoomRouter.userRoom
  split at joined
  · cases was : r.userRooms.find? user with
    | none =>
        rw [was] at joined
        exact (Option.some.inj joined).symm
    | some old =>
        rw [was] at joined
        dsimp only at joined
        split at joined <;> exact (Option.some.inj joined).symm
  · cases joined

/-- A room that exists. -/
theorem Utf8.of_exists (utf8 : r.Utf8) (there : r.exists room = true) : WellFormed room := by
  obtain ⟨info, found⟩ := Option.isSome_iff_exists.mp there
  exact (utf8.rooms _ (SortedMap.mem_entries_of_find? found)).1

theorem Utf8.leave (utf8 : r.Utf8) (user : Bytes) : (r.leave user).2.Utf8 := by
  unfold RoomRouter.leave
  split
  · exact utf8
  · refine ⟨utf8_modifyMembers utf8.rooms (utf8_erase user), ?_⟩
    intro entry there
    exact utf8.users entry (List.mem_filter.mp there).1

theorem Utf8.members (utf8 : r.Utf8) (room : Bytes) : ∀ user ∈ r.members room, WellFormed user := by
  unfold RoomRouter.members
  split
  next info found => exact (utf8.rooms _ (SortedMap.mem_entries_of_find? found)).2.members
  next => exact nofun

theorem Utf8.list (utf8 : r.Utf8) : ∀ info ∈ r.list, info.Utf8 := by
  intro info there
  obtain ⟨entry, member, rfl⟩ := List.mem_map.mp there
  exact (utf8.rooms entry member).2

end RoomRouter

/-! ## The tokens -/

/-- The users of all tokens are UTF-8. -/
def TokenBook.Utf8 (b : TokenBook) : Prop := ∀ entry ∈ b.tokens.entries, WellFormed entry.2.user

namespace TokenBook

variable {hashes : PwdHash.Hashes} {b : TokenBook} {user token : Bytes} {now now' : Int}

theorem Utf8.issue (utf8 : b.Utf8) (userUtf8 : WellFormed user) :
    (b.issue hashes user token now now').2.Utf8 := by
  intro entry there
  rcases mem_issue there with rfl | old
  · exact userUtf8
  · exact utf8 entry old

theorem Utf8.validate (utf8 : b.Utf8) : (b.validate hashes token now).2.Utf8 :=
  fun entry there => utf8 entry (mem_validate there)

theorem Utf8.of_validate (utf8 : b.Utf8) (valid : (b.validate hashes token now).1 = some user) :
    WellFormed user := by
  obtain ⟨exp, there⟩ := entry_of_validate valid
  exact utf8 _ there

end TokenBook

end OnlineChat
