import OnlineChat.Server.Membership
import OnlineChat.Server.Outgoing
import OnlineChat.Server.Passages

/-!
# Who gets to see a message

A message to a room is relayed to the connections of those who are in it, and its row is
read by those who are in it.  The row of a private message is read by its receiver.
-/

namespace OnlineChat

open Library MiniJson Database ChatServer

variable {st : Startup} {s : ChatServer} {c : ConnId} {e : Ext} {w w' : World} {t t' : Thread}
  {k k' : Cmd} {rest new : List Cmd} {File : Type} {file : Database File} {b : BootExt}
  {m : ChatMsg} {room : Bytes} {notes more : List Passage} {x : World × List Passage}

/-! ## The tables of the rooms -/

theorem rooms_createRoom {Call : Type} (db : Database Call) (name owner : Bytes) (ts : Int)
    (out : SqlOutcome) : db.rooms.rows <+: (db.createRoom name owner ts out).2.rooms.rows := by
  unfold Database.createRoom
  repeat' split
  all_goals first
    | exact List.prefix_refl _
    | exact List.prefix_append ..

/-- A section of the database adds rooms at most. -/
theorem rooms_runDb {k : DbCmd} {r : Effect (Database Origin) DbEvent}
    (ran : runDb st s c e k = some r) : s.db.rooms.rows <+: r.state.rooms.rows := by
  have same {rooms : Table RoomRow} (unchanged : rooms = s.db.rooms) :
      s.db.rooms.rows <+: rooms.rows := unchanged ▸ List.prefix_refl _
  have updates := state_runDb ran
  generalize r.state = db at updates ⊢
  cases updates with
  | reads => exact List.prefix_refl _
  | createRoom room ts since => exact rooms_createRoom s.db room (s.sess.username c) ts e.sql
  | createUser name derived saltHex stored since =>
      obtain ⟨users, state⟩ := s.db.createUser_users name saltHex stored (e.nowTs 0) e.sql
      exact same (by rw [state])
  | advances call advanced => exact same (tables_advance advanced).2.1
  | insertOffline m target since =>
      unfold Database.insertOffline
      split <;> exact List.prefix_refl _
  | markDelivered name id rest since =>
      unfold Database.markDelivered
      split <;> exact List.prefix_refl _

theorem rooms_run (ran : w.run st c e k = some (w', new)) :
    w.server.db.rooms.rows <+: w'.server.db.rooms.rows := by
  cases k with
  | db k =>
      obtain ⟨r, step, result⟩ := Option.map_eq_some_iff.mp ran
      obtain ⟨rfl, -⟩ := Prod.mk.inj result
      exact rooms_runDb step
  | _ => rw [db_run ran (by simp)]

/-- That id is the key of the room in the database. -/
def Database.HasRoom {Call : Type} (db : Database Call) (id : Int) (room : Bytes) : Prop :=
  ∃ x, (id, x) ∈ db.rooms.rows ∧ x.name = room

theorem Database.HasRoom.grown {Call Call' : Type} {db : Database Call} {db' : Database Call'}
    {id : Int} (has : db.HasRoom id room) (more : db.rooms.rows <+: db'.rooms.rows) :
    db'.HasRoom id room := by
  obtain ⟨x, there, named⟩ := has
  exact ⟨x, more.subset there, named⟩

/-- A key belongs to one room. -/
theorem Database.HasRoom.unique {Call : Type} {db : Database Call} {id : Int} {room' : Bytes}
    (has : db.HasRoom id room) (has' : db.HasRoom id room') : room = room' := by
  obtain ⟨x, there, rfl⟩ := has
  obtain ⟨x', there', rfl⟩ := has'
  rw [(Prod.mk.inj (Table.eq_of_key there there' rfl)).2]

/-- The ids in the routing table are those of the database, and its two maps agree. -/
structure Backed (s : ChatServer) : Prop where
  ids : ∀ room, 0 < s.router.dbId room → s.db.HasRoom (s.router.dbId room) room
  mirrored : s.router.Mirrored

theorem Backed.congr {s' : ChatServer} (backed : Backed s) (router : s'.router = s.router)
    (more : s.db.rooms.rows <+: s'.db.rooms.rows) : Backed s' := by
  refine ⟨?_, router ▸ backed.mirrored⟩
  rw [router]
  exact fun room positive => (backed.ids room positive).grown more

theorem Backed.leave (backed : Backed s) (user : Bytes) :
    Backed { s with router := (s.router.leave user).2 } := by
  refine ⟨?_, RoomRouter.mirrored_leave backed.mirrored user⟩
  intro room positive
  rw [RoomRouter.dbId_leave] at positive ⊢
  exact backed.ids room positive

theorem Backed.join (backed : Backed s) (user room : Bytes) :
    Backed { s with router := (s.router.join user room).2 } := by
  refine ⟨?_, RoomRouter.mirrored_join backed.mirrored user room⟩
  intro room' positive
  rw [RoomRouter.dbId_join] at positive ⊢
  exact backed.ids room' positive

theorem Backed.create (backed : Backed s) {name : Bytes} {id : Int}
    (has : 0 < id → s.db.HasRoom id name) (owner : Bytes) (createdAt : Int) :
    Backed { s with router := (s.router.create name owner id createdAt).2 } := by
  refine ⟨?_, RoomRouter.mirrored_create backed.mirrored name owner id createdAt⟩
  intro room positive
  rcases s.router.dbId_create name owner id createdAt room with same | ⟨rfl, fresh⟩
  · rw [same] at positive ⊢
    exact backed.ids room positive
  · rw [fresh] at positive ⊢
    exact has positive

theorem backed_run (backed : Backed w.server)
    (creates : ∀ room id ts, k = .router (.createRoom room id ts) → 0 < id →
      w.server.db.HasRoom id room)
    (ran : w.run st c e k = some (w', new)) : Backed w'.server := by
  cases k with
  | sess k =>
      obtain ⟨rfl, -⟩ := Prod.mk.inj (Option.some.inj ran)
      have stays (sess : Sessions) : Backed { w.server with sess } :=
        backed.congr rfl (List.prefix_refl _)
      rcases runSess_cases st w.server c e k with ⟨state, -⟩ |
        ⟨ip, port, arrival, rfl, state, -⟩ | ⟨name, token, exp, rfl, state, -⟩ |
        ⟨name, rfl, state, -⟩ | ⟨v, n, rfl, -, state, -⟩
      · simp only [state]
        exact backed
      · simp only [state]
        exact stays _
      · simp only [state]
        exact stays _
      · simp only [state]
        exact stays _
      · simp only [state, roomsWithout]
        split
        · exact (backed.leave (w.server.sess.username v)).congr rfl (List.prefix_refl _)
        · exact stays _
  | router k =>
      obtain ⟨rfl, -⟩ := Prod.mk.inj (Option.some.inj ran)
      cases k with
      | createRoom room id ts => exact backed.create (creates room id ts rfl) _ ts
      | joinRoom room =>
          have joined : (runRouter w.server c e (.joinRoom room)).state =
              (w.server.router.join (w.server.sess.username c) room).2 := by
            simp only [runRouter, joinRoom]
            split
            next result => rw [result]
            next result => rw [result]
          simp only [joined]
          exact backed.join _ _
      | doLeave => exact backed.leave _
      | _ => exact backed.congr rfl (List.prefix_refl _)
  | _ => exact backed.congr (router_run ran (by simp) (by simp)) (rooms_run ran)

/-- Rooms are loaded under their keys. -/
theorem Backed.load {rows : List (Int × RoomRow)} (backed : Backed s)
    (known : ∀ row ∈ rows, row ∈ s.db.rooms.rows) :
    Backed { s with router := rows.foldl (fun (router : RoomRouter) row =>
      (router.create row.2.name row.2.owner row.1 row.2.createdAt).2) s.router } := by
  induction rows generalizing s with
  | nil => exact backed
  | cons row rows inductionHypothesis =>
      obtain ⟨first, rest⟩ := List.forall_mem_cons.mp known
      have created := backed.create (fun _ => ⟨row.2, first, rfl⟩) row.2.owner row.2.createdAt
      exact inductionHypothesis created rest

theorem backed_boot (st : Startup) (file : Database File) (b : BootExt) :
    Backed (boot st file b) := by
  -- before the lobby, the table holds rooms of the file only
  have loaded : Backed { boot st file b with
      db := file.reopen
      router := ((file.reopen : Database Origin).listRooms b.lists).foldl
        (fun (router : RoomRouter) row =>
          (router.create row.2.name row.2.owner row.1 row.2.createdAt).2) {} } := by
    apply Backed.load (s := { boot st file b with db := file.reopen, router := {} })
    · refine ⟨?_, RoomRouter.mirrored_empty⟩
      intro room positive
      exact absurd positive (Int.lt_irrefl 0)
    · exact fun row there => (Database.fetched_sublist _ _).subset there
  have grown := rooms_createRoom (file.reopen : Database Origin) (bytes "lobby") (bytes "SERVER")
    b.ts b.creates
  unfold boot loadOrCreateLobby
  dsimp only
  split
  · exact loaded.congr rfl (List.prefix_refl _)
  · split
    next db result =>
      rw [result] at grown
      exact loaded.congr rfl grown
    next first db notFailed result =>
      rw [result] at grown
      have kept : Backed { boot st file b with
          db
          router := ((file.reopen : Database Origin).listRooms b.lists).foldl
            (fun (router : RoomRouter) row =>
              (router.create row.2.name row.2.owner row.1 row.2.createdAt).2) {} } :=
        loaded.congr rfl grown
      refine (kept.create (fun positive => ?_) _ _).congr rfl (List.prefix_refl _)
      exact mem_rows_of_findRoomId positive

/-! ## The rows and their messages -/

/-- For whom the message of a row is: for a room that has the id of the row, or for the
receiver of the row. -/
def MeantFor {Call : Type} (db : Database Call) (row : Int × Message Empty) (m : ChatMsg)
    (room : Bytes) : Prop :=
  (m.receiver = bytes "ALL" ∧ row.2.receiver = bytes "ALL" ∧
      (0 < row.2.roomId → db.HasRoom row.2.roomId room)) ∨
    (validUsername m.receiver = true ∧ row.2.receiver = m.receiver ∧ row.2.roomId = 0)

/-- Every row of the tables has been noted, and what has been noted is addressed. -/
structure Filed {Call : Type} (db : Database Call) (notes : List Passage) : Prop where
  messages : ∀ row ∈ db.messages.rows, ∃ m room, .stored (bareRow row) m room ∈ notes
  saved : ∀ row ∈ db.saved.rows, ∃ m room, .stored (bareRow row) m room ∈ notes
  addressed : ∀ row m room, .stored row m room ∈ notes → MeantFor db row m room
  offline : ∀ row ∈ db.offline.rows, ∃ m, .parked (offRow row) m ∈ notes
  parked : ∀ row m, .parked row m ∈ notes → validUsername m.receiver = true ∧
    ∃ x, (row.id, x) ∈ db.offline.rows ∧ x.receiver = m.receiver

/-- No row of a message is new, and no room and no offline row is lost. -/
structure Retained {Call Call' : Type} (db : Database Call) (db' : Database Call') : Prop where
  messages : ∀ row ∈ db'.messages.rows,
    ∃ old, (old ∈ db.messages.rows ∨ old ∈ db.saved.rows) ∧ bareRow old = bareRow row
  saved : ∀ row ∈ db'.saved.rows,
    ∃ old, (old ∈ db.messages.rows ∨ old ∈ db.saved.rows) ∧ bareRow old = bareRow row
  rooms : db.rooms.rows <+: db'.rooms.rows
  offline : ∀ row ∈ db'.offline.rows, ∃ old ∈ db.offline.rows, offRow old = offRow row
  stays : ∀ id x, (id, x) ∈ db.offline.rows →
    ∃ x', (id, x') ∈ db'.offline.rows ∧ x'.receiver = x.receiver

section Tables

variable {Call Call' : Type} {db : Database Call} {db' : Database Call'}

theorem MeantFor.grown {row : Int × Message Empty} (addressed : MeantFor db row m room)
    (more : db.rooms.rows <+: db'.rooms.rows) : MeantFor db' row m room := by
  rcases addressed with ⟨all, receiver, has⟩ | mine
  · exact .inl ⟨all, receiver, fun positive => (has positive).grown more⟩
  · exact .inr mine

theorem Filed.kept (filed : Filed db notes) (kept : Retained db db') : Filed db' notes := by
  have known (old : Int × Message Call)
      (there : old ∈ db.messages.rows ∨ old ∈ db.saved.rows) :
      ∃ m room, .stored (bareRow old) m room ∈ notes :=
    there.elim (filed.messages old) (filed.saved old)
  refine ⟨?_, ?_, ?_, ?_, ?_⟩
  · intro row there
    obtain ⟨old, before, same⟩ := kept.messages row there
    exact same ▸ known old before
  · intro row there
    obtain ⟨old, before, same⟩ := kept.saved row there
    exact same ▸ known old before
  · exact fun row m room stored => (filed.addressed row m room stored).grown kept.rooms
  · intro row there
    obtain ⟨old, before, same⟩ := kept.offline row there
    exact same ▸ filed.offline old before
  · intro row m parked
    obtain ⟨valid, x, there, receiver⟩ := filed.parked row m parked
    obtain ⟨x', stays, same⟩ := kept.stays row.id x there
    exact ⟨valid, x', stays, same.trans receiver⟩

/-- Notes that file nothing. -/
theorem Filed.noted (filed : Filed db notes)
    (others : ∀ note ∈ more, (∀ row m room, note ≠ .stored row m room) ∧
      ∀ row m, note ≠ .parked row m) : Filed db (notes ++ more) := by
  have old {note : Passage} (there : note ∈ notes) : note ∈ notes ++ more :=
    List.mem_append_left _ there
  refine ⟨?_, ?_, ?_, ?_, ?_⟩
  · intro row there
    obtain ⟨m, room, stored⟩ := filed.messages row there
    exact ⟨m, room, old stored⟩
  · intro row there
    obtain ⟨m, room, stored⟩ := filed.saved row there
    exact ⟨m, room, old stored⟩
  · intro row m room stored
    rcases List.mem_append.mp stored with before | now
    · exact filed.addressed row m room before
    · exact absurd rfl ((others _ now).1 row m room)
  · intro row there
    obtain ⟨m, parked⟩ := filed.offline row there
    exact ⟨m, old parked⟩
  · intro row m parked
    rcases List.mem_append.mp parked with before | now
    · exact filed.parked row m before
    · exact absurd rfl ((others _ now).2 row m)

/-- The row of a message is filed with it. -/
theorem Filed.insert (filed : Filed db notes) {row : Message Call}
    (addressed : MeantFor db (bareRow (db.messages.seq + 1, row)) m room) :
    Filed { db with messages := db.messages.insert row }
      (notes ++ [.stored (bareRow (db.messages.seq + 1, row)) m room]) := by
  refine ⟨?_, ?_, ?_, ?_, ?_⟩
  · intro row' there
    rcases Table.mem_rows_insert.mp there with old | rfl
    · obtain ⟨m, room, stored⟩ := filed.messages row' old
      exact ⟨m, room, List.mem_append_left _ stored⟩
    · exact ⟨m, room, List.mem_append_right _ (List.mem_singleton.mpr rfl)⟩
  · intro row' there
    obtain ⟨m, room, stored⟩ := filed.saved row' there
    exact ⟨m, room, List.mem_append_left _ stored⟩
  · intro row' m' room' stored
    rcases List.mem_append.mp stored with before | now
    · exact filed.addressed row' m' room' before
    · obtain ⟨rfl, rfl, rfl⟩ := Passage.stored.inj (List.mem_singleton.mp now)
      exact addressed
  · intro row' there
    obtain ⟨m, parked⟩ := filed.offline row' there
    exact ⟨m, List.mem_append_left _ parked⟩
  · intro row' m' parked
    rcases List.mem_append.mp parked with before | now
    · exact filed.parked row' m' before
    · cases List.mem_singleton.mp now

theorem Filed.park (filed : Filed db notes) (valid : validUsername m.receiver = true) :
    Filed { db with offline := db.offline.insert m.offlineRow }
      (notes ++ [.parked (offRow (db.offline.seq + 1, m.offlineRow)) m]) := by
  refine ⟨?_, ?_, ?_, ?_, ?_⟩
  · intro row there
    obtain ⟨m, room, stored⟩ := filed.messages row there
    exact ⟨m, room, List.mem_append_left _ stored⟩
  · intro row there
    obtain ⟨m, room, stored⟩ := filed.saved row there
    exact ⟨m, room, List.mem_append_left _ stored⟩
  · intro row m' room' stored
    rcases List.mem_append.mp stored with before | now
    · exact filed.addressed row m' room' before
    · cases List.mem_singleton.mp now
  · intro row there
    rcases Table.mem_rows_insert.mp there with old | rfl
    · obtain ⟨m, parked⟩ := filed.offline row old
      exact ⟨m, List.mem_append_left _ parked⟩
    · exact ⟨m, List.mem_append_right _ (List.mem_singleton.mpr rfl)⟩
  · intro row m' parked
    rcases List.mem_append.mp parked with before | now
    · obtain ⟨valid, x, there, receiver⟩ := filed.parked row m' before
      exact ⟨valid, x, Table.mem_rows_insert.mpr (.inl there), receiver⟩
    · obtain ⟨rfl, rfl⟩ := Passage.parked.inj (List.mem_singleton.mp now)
      refine ⟨valid, m'.offlineRow, Table.mem_rows_insert.mpr (.inr rfl), ?_⟩
      exact cStr_of_validName valid

/-- A database that differs in nothing of this. -/
theorem Retained.of_eq {db' : Database Call} (messages : db'.messages = db.messages ∨
      db'.messages = db.saved) (saved : db'.saved = db.saved ∨ db'.saved = db.messages)
    (rooms : db.rooms.rows <+: db'.rooms.rows) (offline : db'.offline = db.offline) :
    Retained db db' := by
  refine ⟨?_, ?_, rooms, ?_, ?_⟩
  · intro row there
    rcases messages with same | same <;> rw [same] at there
    · exact ⟨row, .inl there, rfl⟩
    · exact ⟨row, .inr there, rfl⟩
  · intro row there
    rcases saved with same | same <;> rw [same] at there
    · exact ⟨row, .inr there, rfl⟩
    · exact ⟨row, .inl there, rfl⟩
  · intro row there
    rw [offline] at there
    exact ⟨row, there, rfl⟩
  · intro id x there
    exact ⟨x, offline ▸ there, rfl⟩

theorem Retained.reopen (db : Database Call) : Retained db (db.reopen : Database Call') := by
  have stored : ∀ row ∈ db.stored.rows, row ∈ db.messages.rows ∨ row ∈ db.saved.rows := by
    intro row there
    unfold Database.stored at there
    split at there
    · exact .inr there
    · exact .inl there
  refine ⟨?_, ?_, List.prefix_refl _, ?_, ?_⟩
  · intro row there
    obtain ⟨old, before, rfl⟩ := List.mem_map.mp there
    exact ⟨old, stored old before, rfl⟩
  · intro row there
    cases there
  · exact fun row there => ⟨row, there, rfl⟩
  · exact fun id x there => ⟨x, there, rfl⟩

end Tables

/-! ## What a section writes -/

theorem deposits_eq_nil {k : DbCmd} {r : Effect (Database Origin) DbEvent}
    (ran : runDb st s c e k = some r) (messages : s.db.messages.added r.state.messages = [])
    (offline : s.db.offline.added r.state.offline = []) : deposits st s c e k = [] := by
  unfold deposits
  split
  next m r' about ran' =>
    obtain rfl := Option.some.inj (ran.symm.trans ran')
    rw [messages, offline]
    rfl
  next => rfl

theorem added_self {ρ : Type} (table : Table ρ) : table.added table = [] :=
  Table.added_eq_nil fun row there => ⟨row.2, there⟩

/-- A section of a call, and what is noted of it. -/
theorem writes_call {k : DbCmd} {row : Message Origin} {state : Database.CallState}
    {p : Database.Progress} (within : w.server.db.Within)
    (ran : w.run st c e (.db k) = some (w', new)) (call : Cmd.call c (.db k) = some (m, row, state))
    (advanced : w.server.db.advance bumpGen row e.sql state = some (w'.server.db, p)) :
    (deposits st w.server c e k = [] ∧ Retained w.server.db w'.server.db) ∨
      (Retained { w.server.db with messages := w.server.db.messages.insert row } w'.server.db ∧
        deposits st w.server c e k = [.stored (bareRow (w.server.db.messages.seq + 1, row)) m
          (w.server.router.userRoom m.sender)]) := by
  obtain ⟨r, step, result⟩ := Option.map_eq_some_iff.mp ran
  obtain ⟨rfl, -⟩ := Prod.mk.inj result
  obtain ⟨-, rooms, offline⟩ := Database.tables_advance advanced
  obtain ⟨saved, messages⟩ := Database.messages_advance advanced
  dsimp only at rooms offline saved messages
  have more : w.server.db.rooms.rows <+: r.state.rooms.rows := rooms ▸ List.prefix_refl _
  have nothing : w.server.db.offline.added r.state.offline = [] := by
    rw [offline]
    exact added_self _
  rcases messages with same | back | ⟨grown, -⟩
  · left
    refine ⟨deposits_eq_nil step ?_ nothing, Retained.of_eq (.inl same) saved more offline⟩
    rw [same]
    exact added_self _
  · left
    refine ⟨deposits_eq_nil step ?_ nothing, Retained.of_eq (.inr back) saved more offline⟩
    rw [back]
    exact Table.added_eq_nil fun row there => ⟨row.2, within row there⟩
  · right
    have about : (Cmd.db k).about = some m := about_of_handled (handled_of_call call).2.1
    constructor
    · refine ⟨?_, ?_, more, ?_, ?_⟩
      · intro row' there
        rw [grown] at there
        exact ⟨row', .inl there, rfl⟩
      · intro row' there
        refine ⟨row', ?_, rfl⟩
        rcases saved with same | same <;> rw [same] at there
        · exact .inr there
        · exact .inl (Table.mem_rows_insert.mpr (.inl there))
      · exact fun row' there => ⟨row', offline ▸ there, rfl⟩
      · exact fun id x there => ⟨x, offline ▸ there, rfl⟩
    · simp only [deposits, about, step, nothing, grown, Table.added_insert, List.map_cons,
        List.map_nil, List.append_nil]

/-- A section that belongs to no call, and what is noted of it. -/
theorem writes_other {k : DbCmd} (ran : w.run st c e (.db k) = some (w', new))
    (idle : Cmd.call c (.db k) = none) :
    (deposits st w.server c e k = [] ∧ Retained w.server.db w'.server.db) ∨
      ∃ m target since, k = .insertOffline m target since ∧
        Retained { w.server.db with offline := w.server.db.offline.insert m.offlineRow }
          w'.server.db ∧
        deposits st w.server c e k =
          [.parked (offRow (w.server.db.offline.seq + 1, m.offlineRow)) m] := by
  have more := rooms_run ran
  obtain ⟨r, step, result⟩ := Option.map_eq_some_iff.mp ran
  obtain ⟨rfl, -⟩ := Prod.mk.inj result
  obtain ⟨users, rooms, offline, state⟩ := tables_runDb step idle
  have messages : r.state.messages = w.server.db.messages := by rw [state]
  have saved : r.state.saved = w.server.db.saved := by rw [state]
  have nothing : w.server.db.messages.added r.state.messages = [] := by
    rw [messages]
    exact added_self _
  have unwritten (same : r.state.offline = w.server.db.offline) :
      deposits st w.server c e k = [] ∧ Retained w.server.db r.state := by
    refine ⟨deposits_eq_nil step nothing ?_, ?_⟩
    · rw [same]
      exact added_self _
    · exact Retained.of_eq (.inl messages) (.inl saved) more same
  by_cases marks : ∃ name id rest since, k = .markDelivered name id rest since
  · obtain ⟨name, id, rest, since, rfl⟩ := marks
    left
    rcases next_whenTxIdle step with rfl | ⟨n, rfl⟩
    · by_cases done : e.sql.prepares = true ∧ e.sql.steps = true
      · -- a row that is marked stays the same row
        have marked : (w.server.db.markDelivered id e.sql).offline =
            w.server.db.offline.update id fun row => { row with delivered := true } := by
          rw [Database.markDelivered, if_pos done]
        refine ⟨rfl, ?_, ?_, more, ?_, ?_⟩
        · exact fun row there => ⟨row, .inl (messages ▸ there), rfl⟩
        · exact fun row there => ⟨row, .inr (saved ▸ there), rfl⟩
        · intro row there
          dsimp only at there
          rw [marked] at there
          obtain ⟨old, before, value⟩ := Table.mem_rows_update.mp there
          refine ⟨(row.1, old), before, ?_⟩
          unfold offRow
          rw [value]
          split <;> rfl
        · intro id' x there
          refine ⟨if id' = id then { x with delivered := true } else x, ?_, ?_⟩
          · dsimp only
            rw [marked]
            exact Table.mem_rows_update.mpr ⟨x, there, rfl⟩
          · split <;> rfl
      · apply unwritten
        simp only [Database.markDelivered, if_neg done]
    · exact unwritten rfl
  · rcases offline_runDb step (fun name id rest since same =>
      marks ⟨name, id, rest, since, same⟩) with same | ⟨m, target, since, rfl, grown⟩
    · exact .inl (unwritten same)
    · right
      refine ⟨m, target, since, rfl, ?_, ?_⟩
      · refine ⟨?_, ?_, more, ?_, ?_⟩
        · exact fun row there => ⟨row, .inl (messages ▸ there), rfl⟩
        · exact fun row there => ⟨row, .inr (saved ▸ there), rfl⟩
        · exact fun row there => ⟨row, grown ▸ there, rfl⟩
        · exact fun id x there => ⟨x, grown ▸ there, rfl⟩
      · have about : (Cmd.db (.insertOffline m target since)).about = some m := rfl
        simp only [deposits, about, step, nothing, grown, Table.added_insert, List.map_cons,
          List.map_nil, List.nil_append]

/-! ## What is known of a command that waits -/

/-- A message to all for which the room of its sender has been looked up. -/
structure Routing (x : World × List Passage) (m : ChatMsg) (room : Bytes) : Prop where
  all : m.receiver = bytes "ALL"
  sender : room = x.1.server.router.userRoom m.sender
  nonempty : room ≠ []
  fresh : ∃ s, current x.2 = some (m, s, []) ∧ s.sess = x.1.server.sess ∧
    s.router = x.1.server.router

/-- Those who have had the message and those who will get it are those entitled to it. -/
def Relaying (notes : List Passage) (m : ChatMsg) (targets : List ConnId) : Prop :=
  ∃ s vs, current notes = some (m, s, vs) ∧ (vs ++ targets).Nodup ∧
    ∀ v, v ∈ vs ++ targets ↔ Entitled s m v

/-- The message that is on its way to a user. -/
def Cmd.toUser : Cmd → Option ChatMsg
  | .db (.findReceiver m) | .db (.insertPrivateMsg m _) | .sess (.findTarget m)
  | .io (.relayTarget m _) | .db (.insertOffline m _ _) => some m
  | _ => none

/-- The message that is on its way to a room. -/
def Cmd.toRoom : Cmd → Option (ChatMsg × Bytes)
  | .router (.roomDbId m room) | .db (.insertRoomMsg m room _ _)
  | .router (.broadcastRoomRelay m room) | .sess (.relayConns m room _) => some (m, room)
  | _ => none

/-- The room whose row is on its way. -/
def Cmd.founds : Cmd → Option Bytes
  | .db (.insertRow room _ _) | .db (.findRow room _) => some room
  | _ => none

/-- The name under which the connection has just been logged in. -/
def Cmd.loggedIn : Cmd → Option Bytes
  | .token (.issueAuth name _) | .router (.finishAuth name _ _ _) | .db (.pushOffline name) =>
      some name
  | _ => none

structure Posted (t : Thread) (k : Cmd) (x : World × List Passage) : Prop where
  toAll : ∀ m, k = .router (.routeRoom m) → m.receiver = bytes "ALL"
  toUser : ∀ m, k.toUser = some m → validUsername m.receiver = true
  toRoom : ∀ m room, k.toRoom = some (m, room) → Routing x m room
  roomId : ∀ m room id state, k = .db (.insertRoomMsg m room id state) →
    id = x.1.server.router.dbId room
  names : ∀ m room names, k = .sess (.relayConns m room names) →
    names = x.1.server.router.members room
  relays : ∀ m room targets, k = .io (.relayEach m room targets) → Relaying x.2 m targets
  asks : ∀ room cur, k = .router (.histRoomId room cur) →
    room = x.1.server.router.userRoom (x.1.server.sess.username t.conn)
  reads : ∀ room id cursor, k = .db (.historyPage room id cursor) → 0 < id ∧
    id = x.1.server.router.dbId (x.1.server.router.userRoom (x.1.server.sess.username t.conn))
  founds : ∀ room, k.founds = some room → validRoomName room = true
  creates : ∀ room id ts, k = .router (.createRoom room id ts) → 0 < id →
    x.1.server.db.HasRoom id room
  loggedIn : ∀ name, k.loggedIn = some name → validUsername name = true ∧
    x.1.server.sess.username t.conn = name

variable {n : Cmd}

/-- Of what does not belong to a handler nothing is known. -/
theorem posted_of_outer (outer : k.layer.inner = false) : Posted t k x := by
  refine ⟨?_, ?_, ?_, ?_, ?_, ?_, ?_, ?_, ?_, ?_, ?_⟩
  · rintro m rfl
    cases outer
  · intro m private'
    unfold Cmd.toUser at private'
    split at private' <;> first
      | cases outer
      | cases private'
  · intro m room public'
    unfold Cmd.toRoom at public'
    split at public' <;> first
      | cases outer
      | cases public'
  · rintro m room id state rfl
    cases outer
  · rintro m room names rfl
    cases outer
  · rintro m room targets rfl
    cases outer
  · rintro room cur rfl
    cases outer
  · rintro room id cursor rfl
    cases outer
  · intro room founds
    unfold Cmd.founds at founds
    split at founds <;> first
      | cases outer
      | cases founds
  · rintro room id ts rfl
    cases outer
  · intro name loggedIn
    unfold Cmd.loggedIn at loggedIn
    split at loggedIn <;> first
      | cases outer
      | cases loggedIn

theorem Layer.service_of_above {l l' : Layer} (above : l.above l' = true)
    (inner : l'.inner = true) : l = .service := by
  revert above inner
  cases l <;> cases l' <;> decide

/-- What waits below a service that runs stays as it is. -/
theorem Posted.below (posted : Posted t k' x) (waits : k'.topmost = false)
    (service : k.layer = .service) (ran : x.1.run st t.conn e k = some (w', new)) :
    Posted t k' (w', x.2 ++ watch st x.1.server t.conn e k) := by
  rw [watch_of_service service, List.append_nil]
  refine ⟨posted.toAll, posted.toUser, ?_, ?_, ?_, posted.relays, ?_, ?_, posted.founds, ?_, ?_⟩
  · intro m room public'
    unfold Cmd.toRoom at public'
    split at public' <;> first
      | cases waits
      | cases public'
  · rintro m room id state rfl
    cases waits
  · rintro m room names rfl
    cases waits
  · rintro room cur rfl
    cases waits
  · rintro room id cursor rfl
    cases waits
  · rintro room id ts rfl
    cases waits
  · intro name loggedIn
    obtain ⟨valid, named⟩ := posted.loggedIn name loggedIn
    refine ⟨valid, ?_⟩
    rcases username_run ran t.conn with same | ⟨-, enters⟩
    · exact same.trans named
    · cases service.symm.trans (layer_of_enters enters)

theorem Routing.congr (routing : Routing x m room) (sess : w'.server.sess = x.1.server.sess)
    (router : w'.server.router = x.1.server.router) (quiet : current more = current x.2) :
    Routing (w', more) m room := by
  obtain ⟨s, latest, sess', router'⟩ := routing.fresh
  refine ⟨routing.all, ?_, routing.nonempty, s, ?_, ?_, ?_⟩
  · rw [router]
    exact routing.sender
  · rw [quiet]
    exact latest
  · exact sess'.trans sess.symm
  · exact router'.trans router.symm

/-- To whom a message on its way to a user is addressed. -/
theorem toUser_own (known : ∀ m, k.toUser = some m → validUsername m.receiver = true)
    (ran : w.run st c e k = some (w', new)) (called : n ∈ new) (private' : n.toUser = some m) :
    validUsername m.receiver = true := by
  have by' := calledBy_run ran n called
  have follows := (leads_run ran).1 n called
  unfold Cmd.toUser at private'
  split at private'
  all_goals cases private'
  · exact follows
  · rcases by' with ⟨rfl, -⟩ | ⟨state, db, rfl, -⟩ <;> exact known m rfl
  · obtain ⟨state, db, id, rfl, -⟩ := by'
    exact known m rfl
  · obtain ⟨rfl, -⟩ := by'
    exact known m rfl
  · rcases by' with rfl | ⟨v, rfl⟩ | ⟨target, since, rfl⟩ <;> exact known m rfl

theorem toRoom_own (posted : Posted t k x) (ran : x.1.run st t.conn e k = some (w', new))
    (called : n ∈ new) (public' : n.toRoom = some (m, room)) :
    Routing (w', x.2 ++ watch st x.1.server t.conn e k) m room := by
  have by' := calledBy_run ran n called
  have follows := (leads_run ran).1 n called
  have inserting {roomId : Int} {state : Database.CallState}
      (inserts : k = .db (.insertRoomMsg m room roomId state)) :
      Routing (w', x.2 ++ watch st x.1.server t.conn e k) m room := by
    subst inserts
    apply (posted.toRoom m room rfl).congr
    · exact sess_run ran (by simp)
    · exact router_run ran (by simp) (by simp)
    · exact current_watch_db _
  unfold Cmd.toRoom at public'
  split at public'
  all_goals cases public'
  · obtain ⟨rfl, sender, nonempty⟩ := follows
    obtain ⟨rfl, -⟩ := Prod.mk.inj (Option.some.inj ran)
    refine ⟨posted.toAll m rfl, sender, nonempty, x.1.server, ?_, rfl, rfl⟩
    rw [current_append]
    rfl
  · rcases follows with ⟨rfl, -⟩ | ⟨state, inserts⟩
    · obtain ⟨rfl, -⟩ := Prod.mk.inj (Option.some.inj ran)
      apply (posted.toRoom m room rfl).congr
      · rfl
      · rfl
      · rw [current_append]
        rfl
    · exact inserting inserts
  · obtain ⟨roomId, state, db, id, inserts, -⟩ := by'
    exact inserting inserts
  · obtain ⟨rfl, -⟩ := by'
    obtain ⟨rfl, -⟩ := Prod.mk.inj (Option.some.inj ran)
    apply (posted.toRoom m room rfl).congr
    · rfl
    · rfl
    · rw [current_append]
      rfl

/-- The connections of the members are those entitled to the message, each once. -/
theorem relaying_members (sound : s.sess.Sound) (mirrored : s.router.Mirrored)
    (nonempty : s.router.userRoom m.sender ≠ [])
    (latest : current notes = some (m, s, [])) :
    Relaying notes m
      ((s.router.members (s.router.userRoom m.sender)).filterMap s.sess.online) := by
  refine ⟨s, [], latest, ?_, ?_⟩
  · apply (RoomRouter.nodup_members _ _).filterMap
    intro name name' v there there'
    exact (sound.held _ _ there).2.symm.trans (sound.held _ _ there').2
  · intro v
    rw [List.nil_append, List.mem_filterMap]
    apply exists_congr
    intro user
    rw [mirrored user, and_comm]
    apply and_congr_right
    intro _
    unfold RoomRouter.userRoom at nonempty ⊢
    constructor
    · intro house
      rw [house]
      rfl
    · intro same
      cases house : s.router.userRooms.find? user with
      | none => exact absurd (same.symm.trans (by rw [house]; rfl)) nonempty
      | some room =>
          rw [house] at same
          exact congrArg some same

theorem relays_own (sound : x.1.server.sess.Sound) (mirrored : x.1.server.router.Mirrored)
    (posted : Posted t k x) (ran : x.1.run st t.conn e k = some (w', new)) {targets : List ConnId}
    (called : .io (.relayEach m room targets) ∈ new) :
    Relaying (x.2 ++ watch st x.1.server t.conn e k) m targets := by
  rcases calledBy_run ran _ called with ⟨names, rfl, rfl⟩ | ⟨v, rfl⟩
  · obtain ⟨-, rfl, nonempty, s, latest, sess, router⟩ := posted.toRoom m room rfl
    rw [posted.names m _ names rfl, ← sess, ← router]
    rw [← router] at nonempty
    apply relaying_members
    · exact sess ▸ sound
    · exact router ▸ mirrored
    · exact nonempty
    · rw [current_append, latest]
      rfl
  · obtain ⟨s, vs, latest, distinct, entitled⟩ := posted.relays m room (v :: targets) rfl
    have onward : vs ++ v :: targets = (vs ++ [v]) ++ targets := by
      rw [List.append_assoc, List.singleton_append]
    rw [onward] at distinct entitled
    refine ⟨s, vs ++ [v], ?_, distinct, entitled⟩
    rw [current_append, latest]
    rfl

/-- The name of a login is valid until its rows have been read. -/
theorem valid_loggedIn (named : ∀ name, k.entrant = some name → validUsername name = true)
    (known : ∀ name, k.loggedIn = some name → validUsername name = true)
    (ran : w.run st c e k = some (w', new)) (called : n ∈ new) {name : Bytes}
    (loggedIn : n.loggedIn = some name) : validUsername name = true := by
  have by' := calledBy_run ran n called
  have follows := (leads_run ran).1 n called
  unfold Cmd.loggedIn at loggedIn
  split at loggedIn
  all_goals cases loggedIn
  · obtain rfl := by'
    exact named name rfl
  · rcases follows with rfl | rfl
    · exact named name rfl
    · exact known name rfl
  · obtain ⟨token, exp, old, rfl⟩ := follows
    exact known name rfl

theorem loggedIn_own (posted : Posted t k x) (ran : x.1.run st t.conn e k = some (w', new))
    (called : n ∈ new) {name : Bytes} (loggedIn : n.loggedIn = some name) :
    w'.server.sess.username t.conn = name := by
  have by' := calledBy_run ran n called
  have follows := (leads_run ran).1 n called
  unfold Cmd.loggedIn at loggedIn
  split at loggedIn
  all_goals cases loggedIn
  · obtain rfl := by'
    obtain ⟨rfl, -⟩ := Prod.mk.inj (Option.some.inj ran)
    exact Function.update_self ..
  · rcases follows with rfl | rfl
    · obtain ⟨rfl, -⟩ := Prod.mk.inj (Option.some.inj ran)
      exact Function.update_self ..
    · obtain ⟨rfl, -⟩ := Prod.mk.inj (Option.some.inj ran)
      exact (posted.loggedIn name rfl).2
  · obtain ⟨token, exp, old, rfl⟩ := follows
    obtain ⟨rfl, -⟩ := Prod.mk.inj (Option.some.inj ran)
    exact (posted.loggedIn name rfl).2

/-- What is known of a command holds when it is called. -/
theorem posted_own (named : ∀ name, k.entrant = some name → validUsername name = true)
    (sound : x.1.server.sess.Sound) (mirrored : x.1.server.router.Mirrored)
    (posted : Posted t k x) (ran : x.1.run st t.conn e k = some (w', new)) :
    ∀ n ∈ new, Posted t n (w', x.2 ++ watch st x.1.server t.conn e k) := by
  intro n called
  have by' := calledBy_run ran n called
  have follows := (leads_run ran).1 n called
  refine ⟨?_, ?_, ?_, ?_, ?_, ?_, ?_, ?_, ?_, ?_, ?_⟩
  · rintro m rfl
    exact follows
  · exact fun m private' => toUser_own posted.toUser ran called private'
  · exact fun m room public' => toRoom_own posted ran called public'
  · rintro m room id state rfl
    rcases follows with ⟨rfl, same⟩ | ⟨state', rfl⟩
    · obtain ⟨rfl, -⟩ := Prod.mk.inj (Option.some.inj ran)
      exact same
    · dsimp only
      rw [router_run ran (by simp) (by simp)]
      exact posted.roomId m room id state' rfl
  · rintro m room names rfl
    obtain ⟨rfl, same⟩ := by'
    obtain ⟨rfl, -⟩ := Prod.mk.inj (Option.some.inj ran)
    exact same
  · rintro m room targets rfl
    exact relays_own sound mirrored posted ran called
  · rintro room cur rfl
    obtain ⟨⟨obj, rfl⟩, same⟩ := follows
    obtain ⟨rfl, -⟩ := Prod.mk.inj (Option.some.inj ran)
    exact same
  · rintro room id cursor rfl
    obtain ⟨⟨cur, rfl⟩, rfl, positive⟩ := follows
    obtain ⟨rfl, -⟩ := Prod.mk.inj (Option.some.inj ran)
    refine ⟨positive, congrArg _ ?_⟩
    exact posted.asks room cur rfl
  · intro room founds
    unfold Cmd.founds at founds
    split at founds
    all_goals cases founds
    · rcases follows with valid | ⟨ts, since, rfl⟩
      · exact valid
      · exact posted.founds room rfl
    · obtain ⟨ts, since, rfl⟩ := follows
      exact posted.founds room rfl
  · rintro room id ts rfl positive
    obtain ⟨⟨ts, rfl⟩, rfl⟩ := follows
    obtain ⟨rfl, -⟩ := Prod.mk.inj (Option.some.inj ran)
    obtain ⟨row, there, name⟩ := mem_rows_of_findRoomId positive
    exact ⟨row, there, name.trans (cStr_of_validName (posted.founds room rfl))⟩
  · intro name loggedIn
    refine ⟨?_, loggedIn_own posted ran called loggedIn⟩
    have valid (name : Bytes) (before : k.loggedIn = some name) : validUsername name = true :=
      (posted.loggedIn name before).1
    exact valid_loggedIn named valid ran called loggedIn

/-! ## One step of the history -/

theorem mem_historyRows {id : Int} {cursor : Option (Int × Int)} {row : Int × Message Origin}
    (read : row ∈ s.historyRows e id cursor) :
    row ∈ s.db.messages.rows ∧ row.2.roomId = id := by
  unfold historyRows at read
  cases cursor <;> exact (mem_page read).imp_right of_decide_eq_true

theorem mem_inboxRows {obj : Object} {rows : List (Int × Message Origin)}
    (read : s.inboxRows c e obj = some rows) {row : Int × Message Origin} (there : row ∈ rows) :
    row ∈ s.db.messages.rows ∧ row.2.receiver = cStr (s.sess.username c) := by
  unfold inboxRows at read
  dsimp only at read
  split at read
  · obtain rfl := Option.some.inj read
    exact (mem_page there).imp_right of_decide_eq_true
  · obtain ⟨cursor, -, rfl⟩ := Option.map_eq_some_iff.mp read
    exact (mem_page there).imp_right of_decide_eq_true

theorem mem_replied {rows : List (Int × Message Origin)} {row : Int × Message Empty}
    (there : row ∈ replied rows) : ∃ old ∈ rows, bareRow old = row := by
  obtain ⟨old, taken, same⟩ := List.mem_map.mp there
  exact ⟨old, (List.take_sublist _ _).subset taken, same⟩

theorem ne_all_of_validUsername {u : Bytes} (valid : validUsername u = true) :
    u ≠ bytes "ALL" := by
  rintro rfl
  revert valid
  decide

/-- The rows that a section hands out are for the user who gets them. -/
theorem confined_replies {k : DbCmd} (filed : Filed s.db notes) (backed : Backed s)
    (reads : ∀ room id cursor, k = .historyPage room id cursor → 0 < id ∧
      id = s.router.dbId (s.router.userRoom (s.sess.username c)))
    (asks : ∀ obj, k = .doInbox obj → validUsername (s.sess.username c) = true)
    (pushes : ∀ name, k = .pushOffline name →
      validUsername name = true ∧ s.sess.username c = name) :
    ∀ note ∈ replies s c e k, Confined notes note := by
  intro note there
  unfold replies at there
  split at there
  next room id cursor =>
    obtain rfl := List.mem_singleton.mp there
    obtain ⟨positive, same⟩ := reads room id cursor rfl
    intro row replied
    obtain ⟨old, read, rfl⟩ := mem_replied replied
    obtain ⟨filled, rfl⟩ := mem_historyRows read
    have here := backed.ids (s.router.userRoom (s.sess.username c)) (same ▸ positive)
    rw [← same] at here
    have meant (m : ChatMsg) (room' : Bytes) (stored : .stored (bareRow old) m room' ∈ notes) :
        m.receiver = bytes "ALL" ∧ room' = s.router.userRoom (s.sess.username c) := by
      rcases filed.addressed _ m room' stored with ⟨all, -, has⟩ | ⟨-, -, zero⟩
      · exact ⟨all, (has positive).unique here⟩
      · exact absurd zero (Int.ne_of_gt positive)
    obtain ⟨m, room', stored⟩ := filed.messages old filled
    obtain ⟨-, rfl⟩ := meant m room' stored
    exact ⟨⟨m, stored⟩, meant⟩
  next obj =>
    obtain ⟨rows, read, rfl⟩ := Option.map_eq_some_iff.mp (Option.mem_toList.mp there)
    have valid := asks obj rfl
    intro row replied
    obtain ⟨old, among, rfl⟩ := mem_replied replied
    obtain ⟨filled, mine⟩ := mem_inboxRows read among
    rw [cStr_of_validName valid] at mine
    refine ⟨filed.messages old filled, ?_⟩
    intro m room stored
    rcases filed.addressed _ m room stored with ⟨-, all, -⟩ | ⟨valid', same, -⟩
    · exact absurd (mine.symm.trans all) (ne_all_of_validUsername valid)
    · exact ⟨ne_all_of_validUsername valid', same.symm.trans mine⟩
  next name =>
    obtain rfl := List.mem_singleton.mp there
    obtain ⟨valid, same⟩ := pushes name rfl
    intro row read
    obtain ⟨x, filled, mine, -, shape⟩ := mem_undelivered read
    rw [cStr_of_validName valid] at mine
    constructor
    · have parked := filed.offline _ filled
      rwa [show offRow (row.id, x) = row from shape.symm] at parked
    · intro m parked
      obtain ⟨valid', x', filled', receiver⟩ := filed.parked row m parked
      obtain rfl := (Prod.mk.inj (Table.eq_of_key filled filled' rfl)).2
      exact ⟨ne_all_of_validUsername valid', receiver.symm.trans (mine.trans same.symm)⟩
  next => cases there

/-- A section hands out one reply at most. -/
theorem replies_cases (k : DbCmd) : replies s c e k = [] ∨ ∃ note, replies s c e k = [note] ∧
    (∀ row m room, note ≠ .stored row m room) ∧ ∀ row m, note ≠ .parked row m := by
  cases k with
  | historyPage room id cursor => exact .inr ⟨_, rfl, nofun, nofun⟩
  | doInbox obj =>
      cases read : s.inboxRows c e obj with
      | none => exact .inl (by simp only [replies, read]; rfl)
      | some rows =>
          refine .inr ⟨.inbox (s.sess.username c) (replied rows), ?_, nofun, nofun⟩
          simp only [replies, read]
          rfl
  | pushOffline name => exact .inr ⟨_, rfl, nofun, nofun⟩
  | _ => exact .inl rfl

theorem replies_of_call {k : DbCmd} {row : Message Origin} {state : Database.CallState}
    (call : Cmd.call c (.db k) = some (m, row, state)) : replies s c e k = [] := by
  rcases call_cases call with ⟨room, roomId, same, -⟩ | ⟨same, -⟩ <;> cases same <;> rfl

/-- The row of a call is addressed like its message. -/
theorem addressed_of_call {k : DbCmd} {row : Message Origin} {state : Database.CallState}
    (backed : Backed x.1.server) (posted : Posted t (.db k) x)
    (call : Cmd.call t.conn (.db k) = some (m, row, state)) (id : Int) :
    MeantFor x.1.server.db (bareRow (id, row)) m (x.1.server.router.userRoom m.sender) ∧
      ∀ past room, Confined past (.stored (bareRow (id, row)) m room) := by
  cases k with
  | insertRoomMsg m' room roomId state' =>
      cases call
      obtain ⟨all, rfl, -⟩ := posted.toRoom m room rfl
      constructor
      · refine .inl ⟨all, rfl, fun positive => ?_⟩
        obtain rfl := posted.roomId m _ roomId state rfl
        exact backed.ids _ positive
      · exact fun past room => .inl ⟨all, roomId, rfl⟩
  | insertPrivateMsg m' state' =>
      cases call
      have valid := posted.toUser m rfl
      constructor
      · exact .inr ⟨valid, cStr_of_validName valid, rfl⟩
      · exact fun past room => .inr ⟨ne_all_of_validUsername valid, rfl⟩
  | _ => cases call

/-- A section of the database files what it writes, and hands out what is filed for the
user. -/
theorem filed_db {k : DbCmd} (filed : Filed x.1.server.db x.2) (backed : Backed x.1.server)
    (lawful : Lawful Confined x.2) (within : x.1.server.db.Within)
    (posted : Posted t (.db k) x)
    (asks : ∀ obj, k = .doInbox obj → validUsername (x.1.server.sess.username t.conn) = true)
    (ran : x.1.run st t.conn e (.db k) = some (w', new)) :
    Filed w'.server.db (x.2 ++ watch st x.1.server t.conn e (.db k)) ∧
      Lawful Confined (x.2 ++ watch st x.1.server t.conn e (.db k)) := by
  have notes : watch st x.1.server t.conn e (.db k) =
    deposits st x.1.server t.conn e k ++ replies x.1.server t.conn e k := rfl
  cases idle : Cmd.call t.conn (.db k) with
  | some call =>
      obtain ⟨m, row, state⟩ := call
      rcases call_run ran with ⟨none, -⟩ | ⟨m', row', state', p, events, call, advanced, -⟩
      · cases none.symm.trans idle
      · cases call.symm.trans idle
        rw [notes, replies_of_call idle, List.append_nil]
        obtain ⟨addressed, stored⟩ :=
          addressed_of_call backed posted idle (x.1.server.db.messages.seq + 1)
        rcases writes_call within ran idle advanced with ⟨none, kept⟩ | ⟨kept, one⟩
        · rw [none, List.append_nil]
          exact ⟨filed.kept kept, lawful⟩
        · rw [one]
          exact ⟨(filed.insert addressed).kept kept, lawful.concat (stored _ _)⟩
  | none =>
      rcases writes_other ran idle with ⟨none, kept⟩ | ⟨m, target, since, rfl, kept, one⟩
      · rw [notes, none, List.nil_append]
        have handed := confined_replies (e := e) (k := k) filed backed
          (fun room id cursor reads => posted.reads room id cursor (congrArg Cmd.db reads)) asks
          (fun name pushes => posted.loggedIn name (pushes ▸ rfl))
        rcases replies_cases (s := x.1.server) (c := t.conn) (e := e) k with
          silent | ⟨note, one, others⟩
        · rw [silent, List.append_nil]
          exact ⟨filed.kept kept, lawful⟩
        · rw [one] at handed ⊢
          have legal := handed note (List.mem_singleton_self _)
          refine ⟨(filed.noted ?_).kept kept, lawful.concat legal⟩
          exact List.forall_mem_singleton.mpr others
      · have valid := posted.toUser m rfl
        rw [notes, one]
        refine ⟨(filed.park valid).kept kept, lawful.concat ?_⟩
        exact ⟨ne_all_of_validUsername valid, rfl⟩

/-- The invariant of the tables, the rooms and the history. -/
structure Isolated (x : World × List Passage) : Prop where
  filed : Filed x.1.server.db x.2
  backed : Backed x.1.server
  lawful : Lawful Confined x.2

theorem filed_quiet (filed : Filed x.1.server.db x.2) (db : w'.server.db = x.1.server.db)
    {note : Passage} (quiet : (∀ row m room, note ≠ .stored row m room) ∧
      ∀ row m, note ≠ .parked row m) : Filed w'.server.db (x.2 ++ [note]) := by
  rw [db]
  exact filed.noted (List.forall_mem_singleton.mpr quiet)

theorem isolated_run (isolated : Isolated x) (within : x.1.server.db.Within)
    (posted : Posted t k x)
    (asks : ∀ obj, k = .db (.doInbox obj) →
      validUsername (x.1.server.sess.username t.conn) = true)
    (ran : x.1.run st t.conn e k = some (w', new)) :
    Isolated (w', x.2 ++ watch st x.1.server t.conn e k) := by
  obtain ⟨filed, backed, lawful⟩ := isolated
  have backed' := backed_run backed posted.creates ran
  have silent (db : w'.server.db = x.1.server.db)
      (nothing : watch st x.1.server t.conn e k = []) :
      Isolated (w', x.2 ++ watch st x.1.server t.conn e k) := by
    rw [nothing, List.append_nil]
    exact ⟨db ▸ filed, backed', lawful⟩
  cases k with
  | db k =>
      obtain ⟨filed', lawful'⟩ := filed_db filed backed lawful within posted
        (fun obj asked => asks obj (congrArg Cmd.db asked)) ran
      exact ⟨filed', backed', lawful'⟩
  | router k =>
      have db := db_run ran (by simp)
      cases k with
      | routeRoom m =>
          refine ⟨filed_quiet filed db ⟨nofun, nofun⟩, backed', lawful.concat ?_⟩
          exact posted.toAll m rfl
      | _ => exact silent db rfl
  | io k =>
      have db := db_run ran (by simp)
      cases k with
      | relayEach m room targets =>
          obtain ⟨s, vs, latest, distinct, entitled⟩ := posted.relays m room targets rfl
          cases targets with
          | nil =>
              rw [List.append_nil] at distinct entitled
              refine ⟨filed_quiet filed db ⟨nofun, nofun⟩, backed', lawful.concat ?_⟩
              exact ⟨s, vs, latest, distinct, entitled⟩
          | cons v rest =>
              refine ⟨filed_quiet filed db ⟨nofun, nofun⟩, backed', lawful.concat ?_⟩
              refine ⟨s, vs, latest, (entitled v).mp (by simp), ?_⟩
              rw [List.nodup_append] at distinct
              exact fun had => distinct.2.2 v had v List.mem_cons_self rfl
      | _ => exact silent db rfl
  | _ => exact silent (db_run ran (by simp)) rfl

/-! ## Runs -/

variable {When : Config Thread Cmd World → Thread → Ext → Bool}
  {cfg : Config Thread Cmd (World × List Passage)}

/-- What runs at once is at the top. -/
def AboveWaiting (k lower : Cmd) : Prop := Above k lower ∧ lower.topmost = false

theorem respects_waiting (st : Startup) : (watched st).Respects AboveWaiting := by
  intro t e k x x' new ran
  obtain ⟨ran, -⟩ := Program.exec_recording.mp ran
  obtain ⟨-, ran⟩ := exec_eq_some_iff.mp ran
  obtain ⟨pairwise, inherits⟩ := (ordered_run ran).pairwise
  have waits := (leads_run ran).2
  refine ⟨?_, fun n called lower above => ⟨inherits n called lower above.1, above.2⟩⟩
  cases new with
  | nil => exact .nil
  | cons n new =>
      obtain ⟨first, rest⟩ := List.pairwise_cons.mp pairwise
      refine List.pairwise_cons.mpr ⟨fun n' there => ⟨first n' there, waits n' there⟩, ?_⟩
      exact rest.imp_of_mem fun _ there above => ⟨above, waits _ there⟩

/-- Who may run a command that needs a login has a valid name. -/
theorem valid_of_plain {cfg : Config Thread Cmd World}
    (run : (server st).Reaches When (start st file b) cfg) (waiting : k ∈ cfg.stack (.client c))
    (closed : k.opens c = false) :
    validUsername (cfg.shared.server.sess.username c) = true := by
  obtain ⟨notes, recorded⟩ := run.recorded (noted st) []
  obtain ⟨authentic, -, pending⟩ := acting_of_run recorded
  rcases (pending _ k waiting).gated c rfl with opens | auth
  · cases closed.symm.trans opens
  · rcases authentic.sessions c with ⟨missing, -⟩ | ⟨-, valid⟩
    · exact absurd missing auth
    · exact valid

/-- What the sessions say of a command that runs. -/
theorem acting_of_plain {cfg : Config Thread Cmd World}
    (run : (server st).Reaches When (start st file b) cfg) (stack : cfg.stack t = k :: rest)
    (here : k.runsOn t = true) :
    (∀ name, k.entrant = some name → validUsername name = true) ∧
      cfg.shared.server.db.Within ∧ ∀ obj, k = .db (.doInbox obj) →
        validUsername (cfg.shared.server.sess.username t.conn) = true := by
  have waiting : k ∈ cfg.stack t := by
    rw [stack]
    exact List.mem_cons_self
  obtain ⟨notes, recorded⟩ := run.recorded (noted st) []
  obtain ⟨authentic, -, pending⟩ := acting_of_run recorded
  refine ⟨(pending t k waiting).named, authentic.within, ?_⟩
  rintro obj rfl
  cases t with
  | accept | monitor => cases here
  | client c => exact valid_of_plain run waiting rfl

/-- In every run with atomic handlers the invariant holds, from any start where it does. -/
theorem isolated_of_run (run : (watched st).Reaches (fun cfg t e => atomic cfg.plain t e)
      ((start st file b).noted notes) cfg)
    (isolated : Isolated ((start st file b).shared, notes)) :
    Outlined AboveWaiting Isolated Posted cfg := by
  refine run.outlined (respects_waiting st) ?_ ?_ ?_
  · refine ⟨isolated, ?_, ?_⟩
    · intro t
      cases t <;> exact List.pairwise_singleton ..
    · intro t k waiting
      apply posted_of_outer
      cases t <;> obtain rfl := List.mem_singleton.mp waiting <;> rfl
  · rintro cfg t e k rest ⟨w, notes'⟩ new reached outlined - stack ran
    obtain ⟨ran, rfl⟩ := Program.exec_recording.mp ran
    obtain ⟨here, ran⟩ := exec_eq_some_iff.mp ran
    have plain := Program.Reaches.plain reached
    obtain ⟨named, within, asks⟩ := acting_of_plain plain stack here
    have posted := outlined.pending t k (by simp [stack])
    refine ⟨isolated_run outlined.inv within posted asks ran, ?_⟩
    exact posted_own named (sound_of_run plain).inv outlined.inv.backed.mirrored posted ran
  · rintro cfg t e k rest ⟨w, notes'⟩ new reached - allowed stack ran
    intro t' k' waiting waits posted
    obtain ⟨ran, rfl⟩ := Program.exec_recording.mp ran
    obtain ⟨-, ran⟩ := exec_eq_some_iff.mp ran
    cases inner : k'.layer.inner with
    | false => exact posted_of_outer inner
    | true =>
        obtain rfl := eq_of_inner (Program.Reaches.plain reached) allowed waiting inner
        rcases waits with other | ⟨-, above, waits⟩
        · exact absurd rfl other
        · exact posted.below waits (Layer.service_of_above above inner) ran

/-! ## Restarts -/

theorem rooms_boot (st : Startup) (file : Database File) (b : BootExt) :
    file.rooms.rows <+: (boot st file b).db.rooms.rows := by
  unfold boot loadOrCreateLobby
  dsimp only
  split
  · exact List.prefix_refl _
  · have grown := rooms_createRoom (file.reopen : Database Origin) (bytes "lobby")
      (bytes "SERVER") b.ts b.creates
    split
    all_goals
      next result =>
        rw [result] at grown
        exact grown

/-- A restart keeps what was on the disk. -/
theorem kept_boot (st : Startup) (file : Database File) (b : BootExt) :
    Retained file (boot st file b).db := by
  have more := rooms_boot st file b
  have kept : Retained file (file.reopen : Database Origin) := Retained.reopen file
  obtain ⟨rooms, db⟩ := db_boot st file b
  rw [db] at more ⊢
  exact ⟨kept.messages, kept.saved, more, kept.offline, kept.stays⟩

theorem isolated_boot (filed : Filed file notes) (lawful : Lawful Confined notes) :
    Isolated ((start st file b).shared, notes) :=
  ⟨filed.kept (kept_boot st file b), backed_boot st file b, lawful⟩

/-- Nothing is filed in a file without rows. -/
theorem isolated_fresh (messages : file.stored.rows = []) (offline : file.offline.rows = []) :
    Isolated ((start st file b).shared, []) := by
  refine ⟨?_, backed_boot st file b, lawful_nil⟩
  obtain ⟨rooms, db⟩ := db_boot st file b
  refine ⟨?_, ?_, nofun, ?_, nofun⟩
  · intro row there
    have there : row ∈ (boot st file b).db.messages.rows := there
    rw [db] at there
    simp [Database.reopen, Table.map, messages] at there
  · intro row there
    have there : row ∈ (boot st file b).db.saved.rows := there
    rw [db] at there
    cases there
  · intro row there
    have there : row ∈ (boot st file b).db.offline.rows := there
    rw [db] at there
    simp [Database.reopen, offline] at there

/-- An era has run from a start where the invariant held. -/
def Era.Begun (era : Era) : Prop :=
  ∃ (File : Type) (file : Database File) (b : BootExt) (notes : List Passage),
    (watched era.st).Reaches (fun cfg t e => atomic cfg.plain t e)
      ((start era.st file b).noted notes) era.cfg ∧
    Isolated ((start era.st file b).shared, notes)

theorem Era.Begun.isolated {era : Era} (begun : era.Begun) : Isolated era.cfg.shared := by
  obtain ⟨File, file, b, notes, run, isolated⟩ := begun
  exact (isolated_of_run run isolated).inv

theorem Era.Begun.next {era later : Era} (begun : era.Begun) (next : Era.Next era later) :
    later.Begun := by
  cases next with
  | step cfg' step =>
      obtain ⟨File, file, b, notes, run, isolated⟩ := begun
      exact ⟨File, file, b, notes, run.tail step, isolated⟩
  | restart st' b =>
      have isolated := begun.isolated
      exact ⟨Origin, era.cfg.shared.1.server.db, b, era.cfg.shared.2, .refl,
        isolated_boot isolated.filed isolated.lawful⟩

/-! ## What the history tells -/

/-- What is noted is what the command does: a relay is a section of the send side of its
target, a reply carries the rows, and a row that is noted is in the table. -/
def Passage.DoneBy (st : Startup) (s : ChatServer) (c : ConnId) (e : Ext) (k : Cmd) :
    Passage → Prop
  | .routed m s' => k = .router (.routeRoom m) ∧ s' = s
  | .relayed m v => ∃ room targets, k = .io (.relayEach m room (v :: targets)) ∧
      ∀ r, runIo st s c e (.relayEach m room (v :: targets)) = some r →
        r.state = Function.update s.sides v ((s.sides v).run (.sendRelay
          (messageFrame m.sender (bytes "ALL") room m.content m.ts) m.seq)
          (s.sess.username v) (e.nowTs 0) e.writes).side
  | .finished m => ∃ room, k = .io (.relayEach m room [])
  | .stored row _ _ => ∃ k' r, k = .db k' ∧ runDb st s c e k' = some r ∧
      ∃ added ∈ r.state.messages.rows, bareRow added = row
  | .parked row _ => ∃ k' r, k = .db k' ∧ runDb st s c e k' = some r ∧
      ∃ added ∈ r.state.offline.rows, offRow added = row
  | .history user _ rows => ∃ k' room more, ∃ sent : List (Int × Message Origin),
      k = .db k' ∧ sent.map bareRow = rows ∧
      (runDb st s c e k').map Effect.next = some [.io (.sendFrame c
        (pageFrame (bytes "HISTORY") user room sent more (e.nowTs 0)))]
  | .inbox user rows => ∃ k' more, ∃ sent : List (Int × Message Origin),
      k = .db k' ∧ sent.map bareRow = rows ∧
      (runDb st s c e k').map Effect.next = some [.io (.sendFrame c
        (pageFrame (bytes "INBOX") user [] sent more (e.nowTs 0)))]
  | .pushed user rows => user = s.sess.username c ∧ ∃ name, k = .db (.pushOffline name) ∧
      (runDb st s c e (.pushOffline name)).map Effect.next = some [.io (.pushRows name rows)]

theorem done_of_deposits {k : DbCmd} : ∀ note ∈ deposits st s c e k,
    note.DoneBy st s c e (.db k) := by
  intro note there
  unfold deposits at there
  split at there
  next m r about ran =>
    rcases List.mem_append.mp there with stored | parked
    · obtain ⟨row, added, rfl⟩ := List.mem_map.mp stored
      exact ⟨k, r, rfl, ran, row, List.mem_of_mem_filter added, rfl⟩
    · obtain ⟨row, added, rfl⟩ := List.mem_map.mp parked
      exact ⟨k, r, rfl, ran, row, List.mem_of_mem_filter added, rfl⟩
  next => cases there

theorem done_of_replies {k : DbCmd} : ∀ note ∈ replies s c e k, note.DoneBy st s c e (.db k) := by
  intro note there
  unfold replies at there
  split at there
  next room roomId cursor =>
    obtain rfl := List.mem_singleton.mp there
    obtain ⟨more, next⟩ := next_historyPage (s := s) (c := c) (e := e) room roomId cursor
    exact ⟨_, room, more, _, rfl, rfl, congrArg some next⟩
  next obj =>
    obtain ⟨rows, read, rfl⟩ := Option.map_eq_some_iff.mp (Option.mem_toList.mp there)
    obtain ⟨more, next⟩ := next_doInbox read
    exact ⟨_, more, _, rfl, rfl, congrArg some next⟩
  next name =>
    obtain rfl := List.mem_singleton.mp there
    exact ⟨rfl, name, rfl, rfl⟩
  next => cases there

/-- The history of a run tells what the commands do. -/
theorem done_of_watch : ∀ note ∈ watch st s c e k, note.DoneBy st s c e k := by
  intro note there
  unfold watch at there
  split at there
  next m =>
    obtain rfl := List.mem_singleton.mp there
    exact ⟨rfl, rfl⟩
  next m room v targets =>
    obtain rfl := List.mem_singleton.mp there
    exact ⟨room, targets, rfl, fun r ran => state_runIo ran rfl⟩
  next m room =>
    obtain rfl := List.mem_singleton.mp there
    exact ⟨room, rfl⟩
  next k =>
    rcases List.mem_append.mp there with deposited | replied
    · exact done_of_deposits note deposited
    · exact done_of_replies note replied
  next => cases there

/-- Messages go only to those for whom they are: in every run with atomic handlers from a
file without messages, over any number of restarts.  What the history notes is what the
commands do, as `done_of_watch` says. -/
theorem confined_of_eras {later : Era} (messages : file.stored.rows = [])
    (offline : file.offline.rows = [])
    (run : Era.Later ⟨st, (start st file b).noted []⟩ later) :
    Lawful Confined later.cfg.shared.2 := by
  have begun : later.Begun := by
    induction run with
    | refl => exact ⟨File, file, b, [], .refl, isolated_fresh messages offline⟩
    | tail _ next inductionHypothesis => exact inductionHypothesis.next next
  exact begun.isolated.lawful

/-! ## A run over a restart -/

theorem later_of_reaches {cfg cfg' : Config Thread Cmd (World × List Passage)}
    (run : (watched st).Reaches (fun cfg t e => atomic cfg.plain t e) cfg cfg') :
    Era.Later ⟨st, cfg⟩ ⟨st, cfg'⟩ := by
  induction run with
  | refl => exact .refl
  | tail _ step inductionHypothesis => exact inductionHypothesis.tail (.step _ _ step)

/-- A HISTORY reply with rows. -/
def Passage.recalls : Passage → Bool
  | .history _ _ rows => !rows.isEmpty
  | _ => false

/-- Alice has sent a message to the lobby, and asks for the history after a restart. -/
theorem confined_of_eras_recalled : ∃ later : Era,
    Era.Later ⟨Demo.startup, (start Demo.startup Demo.file {}).noted []⟩ later ∧
      Lawful Confined later.cfg.shared.2 ∧ later.cfg.shared.2.any Passage.recalls = true := by
  let When (cfg : Config Thread Cmd (World × List Passage)) (t : Thread) (e : Ext) : Bool :=
    atomic cfg.plain t e
  let restarted (cfg : Config Thread Cmd (World × List Passage)) :=
    (start Demo.startup cfg.shared.1.server.db {}).noted cfg.shared.2
  obtain ⟨sent, run, onward⟩ := Program.exists_reaches_of_play (watched Demo.startup) When
    (Demo.joining ++ Demo.steps (.client 1) 10 ++ Demo.speaks "ALL" 1 11)
    ((start Demo.startup Demo.file {}).noted [])
    (fun cfg => ((watched Demo.startup).play When
      (Demo.joining ++ Demo.steps (.client 1) 10 ++
        Demo.receives 1 (Demo.request "HIST" [("content", .str [])]) ++ Demo.steps (.client 1) 3)
      (restarted cfg)).any fun cfg => cfg.shared.2.any Passage.recalls)
    (by decide +kernel)
  obtain ⟨asked, played, recalls⟩ := (Option.any_eq_true _ _).mp onward
  have later := ((later_of_reaches run).tail (.restart _ Demo.startup {})).trans
    (later_of_reaches (Program.reaches_of_play played))
  exact ⟨_, later, confined_of_eras rfl rfl later, recalls⟩

end OnlineChat
