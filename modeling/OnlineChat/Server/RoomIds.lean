import OnlineChat.RoomMirror
import OnlineChat.Server.Isolation

/-!
# The rooms in memory and on the disk

Every room of the routing table has the id of its row, as long as the id is found when the
room has been created.  When `find_room_id` fails, the room gets the id 0, under which
private messages are stored.
-/

namespace OnlineChat

open Library MiniJson Database ChatServer

/-! ## Which rooms there are -/

namespace RoomRouter

variable (r : RoomRouter) (user name owner room : Bytes) (id createdAt : Int)

/-- A room that is there already keeps its id. -/
theorem dbId_create_of_exists (there : r.exists room = true) :
    (r.create name owner id createdAt).2.dbId room = r.dbId room := by
  unfold create
  split
  · rfl
  next fresh =>
    have differs : room ≠ name := by
      rintro rfl
      exact fresh there
    simp [dbId, SortedMap.find?_insert, differs]

theorem dbId_create_self (fresh : r.exists name = false) :
    (r.create name owner id createdAt).2.dbId name = id := by
  unfold create RoomRouter.exists at *
  simp [fresh, dbId]

/-- The rooms stay, under their ids. -/
def Keeps (r r' : RoomRouter) : Prop :=
  ∀ room, r.exists room = true → r'.exists room = true ∧ r'.dbId room = r.dbId room

theorem keeps_refl : Keeps r r := fun _ there => ⟨there, rfl⟩

theorem keeps_join : Keeps r (r.join user room).2 := fun name there =>
  ⟨exists_join.trans there, dbId_join r user room name⟩

theorem keeps_leave : Keeps r (r.leave user).2 := fun name there =>
  ⟨exists_leave.trans there, dbId_leave r user name⟩

theorem keeps_create : Keeps r (r.create name owner id createdAt).2 := fun room there =>
  ⟨exists_create.mpr (.inr there),
    dbId_create_of_exists r name owner room id createdAt there⟩

/-- The room of a user is a room of the table. -/
theorem exists_userRoom {r : RoomRouter} (mirrored : r.Mirrored) {user : Bytes}
    (nonempty : r.userRoom user ≠ []) : r.exists (r.userRoom user) = true := by
  unfold userRoom at nonempty ⊢
  cases house : r.userRooms.find? user with
  | none =>
      rw [house] at nonempty
      exact absurd rfl nonempty
  | some room =>
      rw [Option.getD_some]
      exact exists_of_mem ((mirrored user room).mpr house)

end RoomRouter

/-! ## The tables -/

namespace Database

/-- The names of the rooms are unique, and the messages to rooms are stored under positive
ids. -/
structure Orderly {Call : Type} (db : Database Call) : Prop where
  names : (db.rooms.rows.map fun row => row.2.name).Nodup
  messages : ∀ row ∈ db.messages.rows, row.2.type = bytes "room" → 0 < row.2.roomId
  saved : ∀ row ∈ db.saved.rows, row.2.type = bytes "room" → 0 < row.2.roomId

variable {Call Call' : Type} {db db' : Database Call} {out : SqlOutcome}

theorem Orderly.reopen (orderly : db.Orderly) : (db.reopen : Database Call').Orderly := by
  refine ⟨orderly.names, ?_, nofun⟩
  intro row there
  obtain ⟨old, stored, rfl⟩ := List.mem_map.mp there
  unfold Database.stored at stored
  split at stored
  · exact orderly.saved old stored
  · exact orderly.messages old stored

/-- A second room of a name is a violation of the constraint. -/
theorem Orderly.createRoom (orderly : db.Orderly) (name owner : Bytes) (ts : Int) :
    (db.createRoom name owner ts out).2.Orderly := by
  unfold Database.createRoom
  split
  · exact orderly
  · split
    · exact orderly
    next unique =>
      split
      · exact orderly
      · refine { orderly with names := ?_ }
        rw [Table.rows_insert, List.map_append, List.nodup_append]
        refine ⟨orderly.names, List.nodup_singleton _, ?_⟩
        intro old there new fresh same
        obtain ⟨row, among, rfl⟩ := List.mem_map.mp there
        obtain rfl := List.mem_singleton.mp fresh
        apply unique
        exact List.any_eq_true.mpr ⟨row, among, decide_eq_true same⟩

theorem Orderly.advance {x : Message Call} {bump : Int → Int} {state : CallState} {p : Progress}
    (orderly : db.Orderly) (row : x.type = bytes "room" → 0 < x.roomId)
    (ran : db.advance bump x out state = some (db', p)) : db'.Orderly := by
  obtain ⟨-, rooms, -⟩ := tables_advance ran
  obtain ⟨saved, messages⟩ := messages_advance ran
  refine ⟨rooms ▸ orderly.names, ?_, ?_⟩
  · rcases messages with same | back | ⟨grown, -⟩
    · exact same ▸ orderly.messages
    · exact back ▸ orderly.saved
    · rw [grown]
      intro y there
      rcases Table.mem_rows_insert.mp there with old | rfl
      · exact orderly.messages y old
      · exact row
  · rcases saved with same | now
    · exact same ▸ orderly.saved
    · exact now ▸ orderly.messages

theorem HasRoom.eq_of_names {id id' : Int} {room : Bytes} (orderly : db.Orderly)
    (has : db.HasRoom id room) (has' : db.HasRoom id' room) : id = id' := by
  obtain ⟨x, there, rfl⟩ := has
  obtain ⟨x', there', named⟩ := has'
  exact congrArg Prod.fst
    (List.inj_on_of_nodup_map orderly.names there there' named.symm)

/-- The id of a room that has a row is found, unless the query fails. -/
theorem findRoomId_pos {name : Bytes} (answers : out.prepares = true ∧ out.steps = true)
    (has : ∃ id, db.HasRoom id (cStr name)) : 0 < db.findRoomId name out := by
  obtain ⟨id, x, there, named⟩ := has
  unfold findRoomId
  rw [if_pos answers]
  cases hit : db.rooms.rows.find? fun row => row.2.name = cStr name with
  | none =>
      have missed := List.find?_eq_none.mp hit (id, x) there
      exact absurd (decide_eq_true named) missed
  | some row => exact (db.rooms.bounded row (List.mem_of_find?_eq_some hit)).1

/-- Behind `create_room` the room has a row, if it did not fail. -/
theorem hasRoom_createRoom {name owner : Bytes} {ts : Int}
    (created : (db.createRoom name owner ts out).1 ≠ .failed) :
    ∃ id, (db.createRoom name owner ts out).2.HasRoom id (cStr name) := by
  unfold Database.createRoom at created ⊢
  split at created
  · exact absurd rfl created
  next prepares =>
    rw [if_neg prepares]
    split at created
    next known =>
      rw [if_pos known]
      obtain ⟨row, there, named⟩ := List.any_eq_true.mp known
      exact ⟨row.1, row.2, there, of_decide_eq_true named⟩
    next unique =>
      rw [if_neg unique]
      split at created
      · exact absurd rfl created
      next steps =>
        rw [if_neg steps]
        exact ⟨_, _, Table.mem_rows_insert.mpr (.inr rfl), rfl⟩

end Database

variable {st : Startup} {s s' : ChatServer} {c : ConnId} {e : Ext} {w w' : World} {t t' : Thread}
  {k k' n : Cmd} {rest new cmds cmds' : List Cmd} {File : Type} {file : Database File}
  {b : BootExt} {room : Bytes} {cfg : Config Thread Cmd World}

/-! ## Announcements -/

/-- The frame that a command sends or passes on. -/
def Cmd.frame : Cmd → Option Object
  | .io (.sendFrame _ obj) | .sess (.roomConns _ obj _) | .router (.userlistConns _ obj) =>
      some obj
  | _ => none

/-- A CREATE_OK frame. -/
def Announces (obj : Object) : Prop := obj.getStr (bytes "type") = bytes "CREATE_OK"

/-- The command does not announce a new room. -/
def Silent (k : Cmd) : Prop := ∀ obj, k.frame = some obj → ¬ Announces obj

def AllSilent (cmds : List Cmd) : Prop := ∀ k ∈ cmds, Silent k

theorem allSilent_nil : AllSilent [] := List.forall_mem_nil _

theorem AllSilent.cons (first : Silent k) (rest : AllSilent cmds) : AllSilent (k :: cmds) :=
  List.forall_mem_cons.mpr ⟨first, rest⟩

theorem allSilent_one (silent : Silent k) : AllSilent [k] := .cons silent allSilent_nil

theorem silent_of_unframed (unframed : k.frame = none) : Silent k := by
  intro obj framed
  cases unframed.symm.trans framed

theorem AllSilent.cons_unframed (unframed : k.frame = none) (rest : AllSilent cmds) :
    AllSilent (k :: cmds) :=
  .cons (silent_of_unframed unframed) rest

theorem allSilent_unframed (unframed : k.frame = none) : AllSilent [k] :=
  .cons_unframed unframed allSilent_nil

theorem AllSilent.append (first : AllSilent cmds) (second : AllSilent cmds') :
    AllSilent (cmds ++ cmds') :=
  List.forall_mem_append.mpr ⟨first, second⟩

theorem allSilent_map {α : Type} {f : α → Cmd} {xs : List α} (silent : ∀ x, Silent (f x)) :
    AllSilent (xs.map f) :=
  List.forall_mem_map.mpr fun x _ => silent x

/-- A frame of another type. -/
theorem silent_frame {obj : Object} (type : String) (framed : k.frame = some obj)
    (typed : obj.getStr (bytes "type") = bytes type) (other : bytes type ≠ bytes "CREATE_OK") :
    Silent k := by
  intro obj' framed' announces
  obtain rfl := Option.some.inj (framed.symm.trans framed')
  exact other (typed.symm.trans announces)

theorem silent_sendErr (v : ConnId) (code : ErrorCode) (text : String) (ts : Int) :
    Silent (s.sendErr v code text ts) :=
  silent_frame "ERR" rfl rfl (by decide)

theorem allSilent_sendErr {v : ConnId} {code : ErrorCode} {text : String} {ts : Int} :
    AllSilent [s.sendErr v code text ts] :=
  allSilent_one (silent_sendErr v code text ts)

theorem silent_sendNack (seq : Int) (reason : Bytes) (code : Option ErrorCode) (ts : Int) :
    Silent (s.sendNack c seq reason code ts) := by
  refine silent_frame "NACK" rfl ?_ (by decide)
  cases code <;> rfl

theorem silent_leaveRoomNotify (name room : Bytes) : AllSilent (leaveRoomNotify name room) :=
  .cons_unframed rfl (allSilent_unframed rfl)

/-- The same for what the handler of a frame and the loop behind it leave. -/
def DispatchesSilently (c : ConnId) (p : List Cmd × Bool) : Prop :=
  AllSilent (p.1 ++ if p.2 then [.sess (.dropConn c true), .io (.closeConn c)] else [.own .frames])

theorem silent_handleBody (body : Bytes) : DispatchesSilently c (handleBody s c e body) := by
  unfold handleBody
  cases parse body with
  | error => exact allSilent_unframed rfl
  | ok obj =>
      dsimp only
      -- one goal for each type of frame
      repeat' (apply iteInduction <;> intro _)
      all_goals first
        | exact .cons (silent_sendErr _ _ _ _) (allSilent_unframed rfl)
        | exact .cons (silent_frame "PONG" rfl rfl (by decide)) (allSilent_unframed rfl)
        | exact .cons_unframed rfl (.cons_unframed rfl (allSilent_unframed rfl))
        | exact .cons_unframed rfl (allSilent_unframed rfl)
        | exact allSilent_unframed rfl

theorem silent_runOwn (k : OwnCmd) : AllSilent (runOwn st s c e k).next := by
  cases k with
  | recvLoop =>
      simp only [runOwn, recvLoop]
      repeat' split
      all_goals first
        | exact .cons_unframed rfl (allSilent_unframed rfl)
        | exact allSilent_unframed rfl
  | frames =>
      simp only [runOwn, frames]
      split
      next body reader taken => exact silent_handleBody body
      next =>
        split
        · exact .cons_unframed rfl (allSilent_unframed rfl)
        · exact allSilent_unframed rfl
  | sendChallenge user saltHex isRegister =>
      simp only [runOwn, sendChallenge]
      split <;> exact allSilent_one (silent_frame "CHALLENGE" rfl rfl (by decide))
  | doRegister obj | doLogin obj | doCreate obj =>
      simp only [runOwn, doRegister, doLogin, doCreate]
      repeat' split
      all_goals first
        | exact allSilent_sendErr
        | exact allSilent_unframed rfl

theorem silent_runLimit (k : LimitCmd) : AllSilent (runLimit st s c e k).next := by
  cases k with
  | acceptLoop =>
      simp only [runLimit, acceptLoop]
      repeat' split
      all_goals exact allSilent_unframed rfl
  | doRegisterHello obj | doLoginHello obj =>
      simp only [runLimit, doRegisterHello, doLoginHello, doHello]
      repeat' split
      all_goals first
        | exact allSilent_sendErr
        | exact allSilent_unframed rfl
  | doMessage obj =>
      simp only [runLimit, doMessage]
      repeat' split
      all_goals first
        | exact allSilent_one (silent_sendNack _ _ _ _)
        | exact allSilent_unframed rfl

theorem silent_runToken (k : TokenCmd) : AllSilent (runToken st s c e k).next := by
  cases k with
  | doAuth obj =>
      simp only [runToken, doAuth]
      repeat' split
      all_goals first
        | exact allSilent_sendErr
        | exact allSilent_unframed rfl
  | issueLogin name | issueAuth name old => exact allSilent_unframed rfl

theorem silent_runSess {k : SessCmd} (silent : Silent (.sess k)) :
    AllSilent (runSess st s c e k).next := by
  cases k with
  | monitorLoop =>
      have drops (v : ConnId) : Silent (.sess (.dropConn v true)) := silent_of_unframed rfl
      exact (allSilent_map drops).append (allSilent_unframed rfl)
  | monitorDrain =>
      have drains (v : ConnId) : Silent (.io (.drainSlow v)) := silent_of_unframed rfl
      exact (allSilent_map drains).append (allSilent_unframed rfl)
  | roomConns names obj exclude =>
      refine allSilent_map fun v obj' framed => ?_
      obtain rfl := Option.some.inj framed
      exact silent obj rfl
  | checkLogin name =>
      simp only [runSess, checkLogin]
      split
      · exact allSilent_sendErr
      · exact allSilent_unframed rfl
  | dropConn v notifyRoom =>
      simp only [runSess, dropConn]
      repeat' split
      all_goals first
        | exact allSilent_nil
        | exact silent_leaveRoomNotify _ _
  | findTarget m =>
      simp only [runSess, findTarget]
      split <;> exact allSilent_unframed rfl
  | _ => exact allSilent_unframed rfl

theorem silent_runRouter {k : RouterCmd} (silent : Silent (.router k))
    (others : ∀ room id ts, k ≠ .createRoom room id ts) :
    AllSilent (runRouter s c e k).next := by
  cases k with
  | finishAuth name token exp old =>
      refine .cons ?_ (.cons_unframed rfl (allSilent_unframed rfl))
      exact silent_frame "AUTH_OK" rfl rfl (by decide)
  | finishRoom name old =>
      have joinState : AllSilent
          (if s.router.userRoom name ≠ [] then
            [.router (.sendJoinState (s.router.userRoom name))] else []) := by
        split
        · exact allSilent_unframed rfl
        · exact allSilent_nil
      simp only [runRouter, finishRoom]
      cases old with
      | none => exact joinState
      | some old =>
          refine .cons ?_ (.cons_unframed rfl joinState)
          exact silent_frame "SYSTEM" rfl rfl (by decide)
  | sendJoinState room =>
      exact allSilent_one (silent_frame "JOIN_OK" rfl rfl (by decide))
  | doJoin obj =>
      simp only [runRouter, doJoin]
      repeat' split
      all_goals first
        | exact allSilent_sendErr
        | exact allSilent_unframed rfl
  | joinRoom room =>
      have arrives (name : Bytes) : AllSilent [.router (.sendJoinState room),
          .router (.broadcastRoomSystem room (name ++ bytes " 进入了房间") (some c)),
          .router (.broadcastRoomUserlist room)] :=
        .cons_unframed rfl (.cons_unframed rfl (allSilent_unframed rfl))
      simp only [runRouter, joinRoom]
      split
      · exact allSilent_sendErr
      · split
        · exact allSilent_unframed rfl
        · split
          · exact (silent_leaveRoomNotify _ _).append (arrives _)
          · exact arrives _
  | doLeave =>
      simp only [runRouter, doLeave]
      split
      · exact allSilent_sendErr
      · refine (silent_leaveRoomNotify _ _).append (allSilent_one ?_)
        exact silent_frame "LEAVE_OK" rfl rfl (by decide)
  | doRooms =>
      exact allSilent_one (silent_frame "ROOMS_LIST" rfl rfl (by decide))
  | createRoom room id ts => exact absurd rfl (others room id ts)
  | doHist obj | histRoomId room cur =>
      simp only [runRouter, doHist, histRoomId]
      repeat' split
      all_goals first
        | exact allSilent_sendErr
        | exact allSilent_unframed rfl
  | broadcastRoomSystem room text exclude =>
      exact allSilent_one (silent_frame "SYSTEM" rfl rfl (by decide))
  | broadcastRoomUserlist room =>
      exact allSilent_one (silent_frame "USERLIST" rfl rfl (by decide))
  | userlistConns room obj =>
      refine allSilent_one fun obj' framed => ?_
      obtain rfl := Option.some.inj framed
      exact silent obj rfl
  | routeRoom m =>
      simp only [runRouter, routeRoom]
      split <;> exact allSilent_unframed rfl
  | roomDbId m room | broadcastRoomRelay m room => exact allSilent_unframed rfl

theorem silent_whenTxIdle {since : Option Nat} {again : Option Nat → DbCmd}
    {go r : Effect (Database Origin) DbEvent} (ran : s.whenTxIdle e since again go = some r)
    (goes : AllSilent go.next) : AllSilent r.next := by
  rcases next_whenTxIdle ran with rfl | ⟨n, rfl⟩
  · exact goes
  · exact allSilent_unframed rfl

theorem silent_runDb {k : DbCmd} {r : Effect (Database Origin) DbEvent}
    (ran : runDb st s c e k = some r) : AllSilent r.next := by
  cases k with
  | findHello name isRegister =>
      obtain rfl := Option.some.inj ran
      simp only [findHello]
      split
      all_goals first
        | exact allSilent_sendErr
        | exact allSilent_unframed rfl
  | createUser name derived saltHex stored since =>
      apply silent_whenTxIdle ran
      split
      · exact allSilent_sendErr
      · exact allSilent_sendErr
      · exact allSilent_one (silent_frame "REGISTER_OK" rfl rfl (by decide))
  | findLogin name proof nonceHex =>
      obtain rfl := Option.some.inj ran
      simp only [findLogin]
      repeat' split
      all_goals first
        | exact allSilent_sendErr
        | exact allSilent_unframed rfl
  | insertRow room ts since =>
      apply silent_whenTxIdle ran
      split
      · exact allSilent_sendErr
      · exact allSilent_sendErr
      · exact allSilent_unframed rfl
  | historyPage room roomId cursor =>
      obtain rfl := Option.some.inj ran
      exact allSilent_one (silent_frame "HISTORY" rfl rfl (by decide))
  | doInbox obj =>
      obtain rfl := Option.some.inj ran
      simp only [doInbox]
      repeat' split
      all_goals first
        | exact allSilent_sendErr
        | exact allSilent_one (silent_frame "INBOX" rfl rfl (by decide))
  | findReceiver m =>
      obtain rfl := Option.some.inj ran
      simp only [findReceiver]
      split <;> exact allSilent_unframed rfl
  | insertRoomMsg m room roomId state | insertPrivateMsg m state =>
      rcases next_insertMsg ran with ⟨db, state', -, -, next⟩ | ⟨db, id, -, -, -, ends⟩
      · rw [next]
        exact allSilent_unframed rfl
      · rcases ends with ⟨-, reason, next⟩ | ⟨-, next⟩ <;> rw [next]
        · exact allSilent_unframed rfl
        · exact .cons_unframed rfl (allSilent_unframed rfl)
  | insertOffline m target since =>
      apply silent_whenTxIdle ran
      cases target with
      | none => exact allSilent_nil
      | some v => exact allSilent_unframed rfl
  | markDelivered name id rest since => exact silent_whenTxIdle ran (allSilent_unframed rfl)
  | _ =>
      obtain rfl := Option.some.inj ran
      exact allSilent_unframed rfl

theorem silent_runIo {k : IoCmd} {r : Effect (ConnId → SendSide) IoEvent}
    (ran : runIo st s c e k = some r) : AllSilent r.next := by
  cases k with
  | handleClient =>
      obtain ⟨-, -, tls, rfl | rfl⟩ := starts_handleClient ran
      · exact allSilent_unframed rfl
      · exact .cons_unframed rfl (allSilent_unframed rfl)
  | pushRows name rows | relayEach m room rows =>
      cases rows with
      | nil =>
          obtain rfl := Option.some.inj ran
          exact allSilent_nil
      | cons row rest =>
          obtain rfl := Option.some.inj ran
          simp only [sendSection]
          split
          all_goals first
            | exact allSilent_nil
            | exact allSilent_unframed rfl
            | exact .cons_unframed rfl (allSilent_unframed rfl)
  | _ =>
      obtain rfl := Option.some.inj ran
      simp only [sendSection]
      split
      all_goals first
        | exact allSilent_nil
        | exact allSilent_unframed rfl

theorem silent_checkAndAdd (m : ChatMsg) : AllSilent (s.checkAndAdd m).2.2 := by
  unfold ChatServer.checkAndAdd
  repeat' split
  all_goals exact allSilent_unframed rfl

/-- Only `doCreate` announces a new room. -/
theorem silent_run (silent : (∃ k', k = .io k') ∨ Silent k)
    (others : ∀ room id ts, k ≠ .router (.createRoom room id ts))
    (ran : w.run st c e k = some (w', new)) : AllSilent new := by
  cases k with
  | own k => exact (Prod.mk.inj (Option.some.inj ran)).2 ▸ silent_runOwn k
  | limit k => exact (Prod.mk.inj (Option.some.inj ran)).2 ▸ silent_runLimit k
  | token k => exact (Prod.mk.inj (Option.some.inj ran)).2 ▸ silent_runToken k
  | sess k =>
      exact (Prod.mk.inj (Option.some.inj ran)).2 ▸ silent_runSess (silent.resolve_left nofun)
  | router k =>
      refine (Prod.mk.inj (Option.some.inj ran)).2 ▸ silent_runRouter (silent.resolve_left nofun) ?_
      rintro room id ts rfl
      exact others room id ts rfl
  | db k =>
      obtain ⟨r, step, result⟩ := Option.map_eq_some_iff.mp ran
      exact (Prod.mk.inj result).2 ▸ silent_runDb step
  | io k =>
      obtain ⟨r, step, result⟩ := Option.map_eq_some_iff.mp ran
      exact (Prod.mk.inj result).2 ▸ silent_runIo step
  | checkAndAdd m => exact (Prod.mk.inj (Option.some.inj ran)).2 ▸ silent_checkAndAdd m

/-! ## What a step does to the rooms -/

/-- The routing table after a step. -/
theorem router_cases (ran : w.run st c e k = some (w', new)) :
    w'.server.router = w.server.router ∨
      (∃ user, w'.server.router = (w.server.router.leave user).2) ∨
      (∃ user room, w'.server.router = (w.server.router.join user room).2) ∨
      ∃ room owner id ts, k = .router (.createRoom room id ts) ∧
        w'.server.router = (w.server.router.create room owner id ts).2 := by
  cases k with
  | sess k =>
      obtain ⟨rfl, -⟩ := Prod.mk.inj (Option.some.inj ran)
      rcases runSess_cases st w.server c e k with ⟨state, -⟩ |
        ⟨ip, port, arrival, rfl, state, -⟩ | ⟨name, token, exp, rfl, state, -⟩ |
        ⟨name, rfl, state, -⟩ | ⟨v, n, rfl, -, state, -⟩
      · exact .inl (congrArg Prod.snd state)
      · exact .inl (congrArg Prod.snd state)
      · exact .inl (congrArg Prod.snd state)
      · exact .inl (congrArg Prod.snd state)
      · simp only [state, roomsWithout]
        split
        · exact .inr (.inl ⟨_, rfl⟩)
        · exact .inl rfl
  | router k =>
      obtain ⟨rfl, -⟩ := Prod.mk.inj (Option.some.inj ran)
      cases k with
      | createRoom room id ts => exact .inr (.inr (.inr ⟨room, _, id, ts, rfl, rfl⟩))
      | joinRoom room =>
          refine .inr (.inr (.inl ⟨w.server.sess.username c, room, ?_⟩))
          simp only [runRouter, joinRoom]
          split
          next result => rw [result]
          next result => rw [result]
      | doLeave => exact .inr (.inl ⟨_, rfl⟩)
      | _ => exact .inl rfl
  | _ => exact .inl (router_run ran (by simp) (by simp))

/-- Rooms are only added, in memory and on the disk. -/
structure Grows (s s' : ChatServer) : Prop where
  rows : s.db.rooms.rows <+: s'.db.rooms.rows
  router : s.router.Keeps s'.router

theorem grows_run (ran : w.run st c e k = some (w', new)) : Grows w.server w'.server := by
  refine ⟨rooms_run ran, ?_⟩
  rcases router_cases ran with same | ⟨user, left⟩ | ⟨user, room, joined⟩ |
    ⟨room, owner, id, ts, -, created⟩
  · rw [same]
    exact RoomRouter.keeps_refl _
  · rw [left]
    exact RoomRouter.keeps_leave _ _
  · rw [joined]
    exact RoomRouter.keeps_join _ _ _
  · rw [created]
    exact RoomRouter.keeps_create _ _ _ _ _

theorem orderly_runDb {k : DbCmd} {r : Effect (Database Origin) DbEvent} (orderly : s.db.Orderly)
    (inserts : ∀ m room id state, k = .insertRoomMsg m room id state → 0 < id)
    (ran : runDb st s c e k = some r) : r.state.Orderly := by
  have updates := state_runDb ran
  generalize r.state = db at updates ⊢
  cases updates with
  | reads => exact orderly
  | createRoom room ts since => exact orderly.createRoom room (s.sess.username c) ts
  | createUser name derived saltHex stored since =>
      obtain ⟨users, state⟩ := s.db.createUser_users name saltHex stored (e.nowTs 0) e.sql
      rw [state]
      exact ⟨orderly.names, orderly.messages, orderly.saved⟩
  | @advances k m row state db p call advanced =>
      refine orderly.advance ?_ advanced
      cases k with
      | insertRoomMsg m room roomId state =>
          cases call
          exact fun _ => inserts m room roomId state rfl
      | insertPrivateMsg m state =>
          have differs : bytes "private" ≠ bytes "room" := by decide
          cases call
          exact fun same => absurd same differs
      | _ => cases call
  | insertOffline m target since =>
      unfold Database.insertOffline
      split <;> exact ⟨orderly.names, orderly.messages, orderly.saved⟩
  | markDelivered name id rest since =>
      unfold Database.markDelivered
      split <;> exact ⟨orderly.names, orderly.messages, orderly.saved⟩

/-! ## The invariant -/

/-- The room is in memory, under the positive id of its row, which is the only one with its
name. -/
structure Agrees (s : ChatServer) (room : Bytes) : Prop where
  there : s.router.exists room = true
  positive : 0 < s.router.dbId room
  row : s.db.HasRoom (s.router.dbId room) room
  only : ∀ id, s.db.HasRoom id room → id = s.router.dbId room

/-- What every step keeps of the rooms. -/
structure RoomsKept (s : ChatServer) : Prop where
  backed : Backed s
  orderly : s.db.Orderly
  positive : ∀ room, s.router.exists room = true → 0 < s.router.dbId room

theorem RoomsKept.agrees (kept : RoomsKept s) (there : s.router.exists room = true) :
    Agrees s room := by
  have positive := kept.positive room there
  have row := kept.backed.ids room positive
  exact ⟨there, positive, row, fun id has => has.eq_of_names kept.orderly row⟩

/-- What is known of a command while it waits. -/
def Placed (s : ChatServer) : Cmd → Prop
  | .db (.insertRow room _ _) => validRoomName room = true
  | .db (.findRow room _) => validRoomName room = true ∧ ∃ id, s.db.HasRoom id room
  | .router (.createRoom room id _) | .db (.insertRoomMsg _ room id _) =>
      0 < id ∧ s.db.HasRoom id room
  | .router (.roomDbId _ room) => s.router.exists room = true
  | .io (.sendFrame _ obj) =>
      Announces obj → s.router.exists (obj.getStr (bytes "room")) = true
  | .sess (.roomConns _ obj _) | .router (.userlistConns _ obj) => ¬ Announces obj
  | _ => True

theorem Placed.grown (placed : Placed s k) (grows : Grows s s') : Placed s' k := by
  cases k with
  | db k =>
      cases k with
      | findRow room ts =>
          obtain ⟨valid, id, has⟩ := placed
          exact ⟨valid, id, has.grown grows.rows⟩
      | insertRoomMsg m room id state => exact placed.imp_right fun has => has.grown grows.rows
      | _ => exact placed
  | router k =>
      cases k with
      | createRoom room id ts => exact placed.imp_right fun has => has.grown grows.rows
      | roomDbId m room => exact (grows.router room placed).1
      | _ => exact placed
  | io k =>
      cases k with
      | sendFrame v obj => exact fun announces => (grows.router _ (placed announces)).1
      | _ => exact placed
  | sess k => cases k <;> exact placed
  | _ => exact placed

theorem silent_of_placed (placed : Placed s k) : (∃ k', k = .io k') ∨ Silent k := by
  cases k with
  | io k => exact .inl ⟨k, rfl⟩
  | sess k =>
      right
      intro obj framed
      cases k with
      | roomConns names obj' exclude =>
          obtain rfl := Option.some.inj framed
          exact placed
      | _ => cases framed
  | router k =>
      right
      intro obj framed
      cases k with
      | userlistConns room obj' =>
          obtain rfl := Option.some.inj framed
          exact placed
      | _ => cases framed
  | _ =>
      right
      intro obj framed
      cases framed

/-- The queries of `find_room_id` succeed. -/
def findsRooms (cfg : Config Thread Cmd World) (t : Thread) (e : Ext) : Bool :=
  match cfg.stack t with
  | .db (.findRow _ _) :: _ => e.sql.prepares && e.sql.steps
  | _ => true

/-- `doCreate` goes on with the id only when the room has a row. -/
theorem hasRoom_of_insertRow {room' : Bytes} {ts ts' : Int} {since : Option Nat}
    {r : Effect (Database Origin) DbEvent}
    (ran : s.insertRow c e room ts since = some r)
    (called : .db (.findRow room' ts') ∈ r.next) : ∃ id, r.state.HasRoom id (cStr room) := by
  rcases next_whenTxIdle ran with rfl | ⟨n, rfl⟩
  · have created : (s.db.createRoom room (s.sess.username c) ts e.sql).1 ≠ .failed →
        ∃ id, (s.db.createRoom room (s.sess.username c) ts e.sql).2.HasRoom id (cStr room) :=
      hasRoom_createRoom
    revert called
    split
    next db result => simp [sendErr]
    next db result => simp [sendErr]
    next db result =>
      intro _
      rw [result] at created
      apply created
      rintro ⟨⟩
  · simp at called

/-- `router_.create` in `doCreate` is followed by the announcement. -/
theorem announces_createRoom {id ts : Int}
    (ran : w.run st c e (.router (.createRoom room id ts)) = some (w', new)) (called : n ∈ new) :
    n = .io (.sendFrame c (createOkFrame (w.server.sess.username c) room (e.nowTs 0))) := by
  obtain ⟨-, rfl⟩ := Prod.mk.inj (Option.some.inj ran)
  exact List.mem_singleton.mp called

theorem placed_own (kept : RoomsKept w.server) (placed : Placed w.server k)
    (finds : ∀ room ts, k = .db (.findRow room ts) → e.sql.prepares = true ∧ e.sql.steps = true)
    (ran : w.run st c e k = some (w', new)) : ∀ n ∈ new, Placed w'.server n := by
  intro n called
  have follows := (leads_run ran).1 n called
  have silent (others : ∀ room id ts, k ≠ .router (.createRoom room id ts)) : Silent n :=
    silent_run (silent_of_placed placed) others ran n called
  cases n with
  | db n =>
      cases n with
      | insertRow room ts since =>
          rcases follows with valid | ⟨ts, since, rfl⟩
          · exact valid
          · exact placed
      | findRow room ts =>
          obtain ⟨ts, since, rfl⟩ := follows
          obtain ⟨r, step, result⟩ := Option.map_eq_some_iff.mp ran
          obtain ⟨rfl, rfl⟩ := Prod.mk.inj result
          have has := hasRoom_of_insertRow step called
          rw [cStr_of_validName placed] at has
          exact ⟨placed, has⟩
      | insertRoomMsg m room id state =>
          rcases follows with ⟨rfl, rfl⟩ | ⟨state, rfl⟩
          · obtain ⟨rfl, -⟩ := Prod.mk.inj (Option.some.inj ran)
            have agrees := kept.agrees placed
            exact ⟨agrees.positive, agrees.row⟩
          · exact placed.grown (grows_run ran)
      | _ => trivial
  | router n =>
      cases n with
      | createRoom room id ts =>
          obtain ⟨⟨ts, rfl⟩, rfl⟩ := follows
          obtain ⟨rfl, -⟩ := Prod.mk.inj (Option.some.inj ran)
          obtain ⟨valid, has⟩ := placed
          rw [← cStr_of_validName valid] at has
          have positive := findRoomId_pos (finds room ts rfl) has
          obtain ⟨row, there, named⟩ := mem_rows_of_findRoomId positive
          exact ⟨positive, row, there, named.trans (cStr_of_validName valid)⟩
      | roomDbId m room =>
          obtain ⟨rfl, rfl, nonempty⟩ := follows
          obtain ⟨rfl, -⟩ := Prod.mk.inj (Option.some.inj ran)
          exact RoomRouter.exists_userRoom kept.backed.mirrored nonempty
      | userlistConns room obj =>
          refine silent ?_ obj rfl
          rintro room' id ts rfl
          cases announces_createRoom ran called
      | _ => trivial
  | sess n =>
      cases n with
      | roomConns names obj exclude =>
          refine silent ?_ obj rfl
          rintro room' id ts rfl
          cases announces_createRoom ran called
      | _ => trivial
  | io n =>
      cases n with
      | sendFrame v obj =>
          intro announces
          by_cases creates : ∃ room id ts, k = .router (.createRoom room id ts)
          · obtain ⟨room, id, ts, rfl⟩ := creates
            cases announces_createRoom ran called
            obtain ⟨rfl, -⟩ := Prod.mk.inj (Option.some.inj ran)
            exact RoomRouter.exists_create.mpr (.inl rfl)
          · refine absurd announces (silent ?_ obj rfl)
            rintro room id ts rfl
            exact creates ⟨room, id, ts, rfl⟩
      | _ => trivial
  | _ => trivial

theorem positive_create {router : RoomRouter} {owner : Bytes} {id ts : Int}
    (positive : ∀ room, router.exists room = true → 0 < router.dbId room) (key : 0 < id) :
    ∀ name, (router.create room owner id ts).2.exists name = true →
      0 < (router.create room owner id ts).2.dbId name := by
  intro name there
  by_cases old : router.exists name = true
  · rw [RoomRouter.dbId_create_of_exists _ _ _ _ _ _ old]
    exact positive name old
  · obtain rfl := (RoomRouter.exists_create.mp there).resolve_right old
    rw [RoomRouter.dbId_create_self _ _ _ _ _ (Bool.eq_false_of_not_eq_true old)]
    exact key

theorem roomsKept_run (kept : RoomsKept w.server) (placed : Placed w.server k)
    (ran : w.run st c e k = some (w', new)) : RoomsKept w'.server := by
  refine ⟨?_, ?_, ?_⟩
  · refine backed_run kept.backed ?_ ran
    rintro room id ts rfl _
    exact placed.2
  · cases k with
    | db k =>
        obtain ⟨r, step, result⟩ := Option.map_eq_some_iff.mp ran
        obtain ⟨rfl, -⟩ := Prod.mk.inj result
        refine orderly_runDb kept.orderly ?_ step
        rintro m room id state rfl
        exact placed.1
    | _ => exact db_run ran (by simp) ▸ kept.orderly
  · intro room there
    rcases router_cases ran with same | ⟨user, left⟩ | ⟨user, room', joined⟩ |
      ⟨room', owner, id, ts, rfl, created⟩
    · rw [same] at there ⊢
      exact kept.positive room there
    · rw [left, RoomRouter.exists_leave] at there
      rw [left, RoomRouter.dbId_leave]
      exact kept.positive room there
    · rw [joined, RoomRouter.exists_join] at there
      rw [joined, RoomRouter.dbId_join]
      exact kept.positive room there
    · rw [created] at there ⊢
      exact positive_create kept.positive placed.1 room there

/-! ## The start -/

/-- The query of `find_room_id` in `loadOrCreateLobby` succeeds. -/
def BootExt.FindsLobby (b : BootExt) : Prop := b.finds.prepares = true ∧ b.finds.steps = true

/-- The rooms that are loaded have positive keys. -/
theorem positive_load {rows : List (Int × RoomRow)} (keys : ∀ row ∈ rows, 0 < row.1)
    {router : RoomRouter} (positive : ∀ room, router.exists room = true → 0 < router.dbId room) :
    ∀ room,
      (rows.foldl (fun (router : RoomRouter) row =>
        (router.create row.2.name row.2.owner row.1 row.2.createdAt).2) router).exists room = true →
      0 < (rows.foldl (fun (router : RoomRouter) row =>
        (router.create row.2.name row.2.owner row.1 row.2.createdAt).2) router).dbId room := by
  induction rows generalizing router with
  | nil => exact positive
  | cons row rows inductionHypothesis =>
      obtain ⟨first, later⟩ := List.forall_mem_cons.mp keys
      exact inductionHypothesis later (positive_create positive first)

theorem roomsKept_boot (orderly : file.Orderly) (finds : b.FindsLobby) :
    RoomsKept (boot st file b) := by
  let db : Database Origin := file.reopen
  have kept : db.Orderly := orderly.reopen
  have keys : ∀ row ∈ db.listRooms b.lists, 0 < row.1 := fun row there =>
    (file.rooms.bounded row ((Database.fetched_sublist _ _).subset there)).1
  have loaded := positive_load keys (nofun : ∀ room, ({} : RoomRouter).exists room = true → _)
  refine ⟨backed_boot st file b, ?_, ?_⟩
  · have created : (db.createRoom (bytes "lobby") (bytes "SERVER") b.ts b.creates).2.Orderly :=
      kept.createRoom ..
    unfold boot loadOrCreateLobby
    dsimp only
    split
    · exact kept
    · split
      all_goals
        next result =>
          rw [result] at created
          exact created
  · have has : (db.createRoom (bytes "lobby") (bytes "SERVER") b.ts b.creates).1 ≠ .failed → _ :=
      hasRoom_createRoom
    unfold boot loadOrCreateLobby
    dsimp only
    split
    · exact loaded
    · split
      · exact loaded
      next first db' notFailed result =>
        rw [result] at has
        exact positive_create loaded (findRoomId_pos finds (has (notFailed ·)))

/-! ## Runs over any number of starts -/

/-- A server that was started on a file, has run, and was started again on what it left on
the disk any number of times.  All queries of `find_room_id` have succeeded. -/
inductive Serves (file : Database File) : Startup → Config Thread Cmd World → Prop where
  | starts {st : Startup} {b : BootExt} : b.FindsLobby → Serves file st (start st file b)
  | steps {st : Startup} {cfg cfg' : Config Thread Cmd World} :
      Serves file st cfg → (server st).Step findsRooms cfg cfg' → Serves file st cfg'
  | restarts {st st' : Startup} {cfg : Config Thread Cmd World} {b : BootExt} :
      Serves file st cfg → b.FindsLobby → Serves file st' (start st' cfg.shared.server.db b)

/-- The rooms in memory and on the disk agree: the loaded and created ones, those that are
being announced, and those under whose id a message is being stored or is stored. -/
structure RoomsAgree (cfg : Config Thread Cmd World) : Prop where
  rooms : ∀ room, cfg.shared.server.router.exists room = true → Agrees cfg.shared.server room
  announced : ∀ t v obj, .io (.sendFrame v obj) ∈ cfg.stack t → Announces obj →
    Agrees cfg.shared.server (obj.getStr (bytes "room"))
  stores : ∀ t m room id state, .db (.insertRoomMsg m room id state) ∈ cfg.stack t →
    0 < id ∧ cfg.shared.server.db.HasRoom id room
  stored : ∀ row ∈ cfg.shared.server.db.messages.rows,
    row.2.type = bytes "room" → 0 < row.2.roomId

/-- The invariant with what is known of all waiting commands. -/
def AllPlaced (cfg : Config Thread Cmd World) : Prop :=
  RoomsKept cfg.shared.server ∧ ∀ t, ∀ k ∈ cfg.stack t, Placed cfg.shared.server k

theorem allPlaced_start (orderly : file.Orderly) (finds : b.FindsLobby) :
    AllPlaced (start st file b) := by
  refine ⟨roomsKept_boot orderly finds, ?_⟩
  intro t k waiting
  cases t <;> obtain rfl := List.mem_singleton.mp waiting <;> trivial

theorem allPlaced_step {cfg' : Config Thread Cmd World} (placed : AllPlaced cfg)
    (step : (server st).Step findsRooms cfg cfg') : AllPlaced cfg' := by
  obtain ⟨t, e, allowed, fired⟩ := step
  obtain ⟨k, rest, w, new, stack, ran, rfl⟩ := (Program.fire_eq_some_iff _).mp fired
  obtain ⟨-, ran⟩ := exec_eq_some_iff.mp ran
  obtain ⟨kept, waiting⟩ := placed
  have first := waiting t k (by simp [stack])
  have grows := grows_run ran
  refine ⟨roomsKept_run kept first ran, ?_⟩
  intro t' k' pending
  dsimp only at pending ⊢
  by_cases same : t' = t
  · subst same
    rw [Function.update_self] at pending
    rcases List.mem_append.mp pending with called | below
    · refine placed_own kept first ?_ ran k' called
      rintro room ts rfl
      simpa [findsRooms, stack] using allowed
    · exact (waiting t' k' (by simp [stack, below])).grown grows
  · rw [Function.update_of_ne same] at pending
    exact (waiting t' k' pending).grown grows

theorem allPlaced_of_serves (orderly : file.Orderly) (serves : Serves file st cfg) :
    AllPlaced cfg := by
  induction serves with
  | starts finds => exact allPlaced_start orderly finds
  | steps _ step inductionHypothesis => exact allPlaced_step inductionHypothesis step
  | restarts _ finds inductionHypothesis =>
      exact allPlaced_start inductionHypothesis.1.orderly finds

/-- Rooms in memory and on the disk agree in every state of a server, from a file in which
rooms have names of their own and messages to rooms have positive ids, for example an empty
one, over any number of starts. -/
theorem roomsAgree_of_serves (orderly : file.Orderly) (serves : Serves file st cfg) :
    RoomsAgree cfg := by
  obtain ⟨kept, placed⟩ := allPlaced_of_serves orderly serves
  refine ⟨fun room => kept.agrees, ?_, ?_, kept.orderly.messages⟩
  · intro t v obj pending announces
    exact kept.agrees (placed t _ pending announces)
  · intro t m room id state pending
    exact placed t _ pending

theorem serves_of_reaches (finds : b.FindsLobby)
    (run : (server st).Reaches findsRooms (start st file b) cfg) : Serves file st cfg := by
  induction run with
  | refl => exact .starts finds
  | tail _ step inductionHypothesis => exact inductionHypothesis.steps step

/-! ## Alice creates a room -/

namespace Demo

/-- Alice logs in and asks for a new room, up to its announcement; the query of its id has
this outcome. -/
def creates (finds : SqlOutcome) : Schedule :=
  connects 1 ++ hello 1 1 ++ proves 1 1 ++ enters 1 1 ++ steps (.client 1) 6 ++
    receives 1 (request "CREATE" [("content", .str (bytes "den"))]) ++ steps (.client 1) 2 ++
    [(.client 1, { sql := finds })] ++ steps (.client 1) 1

/-- She joins it and sends a message to it. -/
def speaksInDen : Schedule :=
  steps (.client 1) 2 ++ receives 1 (request "JOIN" [("content", .str (bytes "den"))]) ++
    steps (.client 1) 11 ++ speaks "ALL" 1 8

/-- A room is being announced to alice. -/
def announced (cfg : Config Thread Cmd World) : Bool :=
  match cfg.stack (.client 1) with
  | .io (.sendFrame _ obj) :: _ =>
      obj.getStr (bytes "type") = bytes "CREATE_OK" && obj.getStr (bytes "room") = bytes "den"
  | _ => false

/-- A message to a room is stored under the id of private messages. -/
def misfiled (cfg : Config Thread Cmd World) : Bool :=
  cfg.shared.server.db.messages.rows.any fun row =>
    row.2.type = bytes "room" && row.2.roomId = 0

end Demo

theorem orderly_demo : Demo.file.Orderly := by
  refine ⟨List.nodup_nil, ?_, ?_⟩
  · intro row there
    cases there
  · intro row there
    cases there

/-- The room that alice has created is loaded at the next start. -/
theorem roomsAgree_of_serves_den : ∃ cfg, Serves Demo.file Demo.startup cfg ∧ RoomsAgree cfg ∧
    cfg.shared.server.router.exists (bytes "den") = true := by
  obtain ⟨cfg, run, created⟩ := Program.exists_reaches_of_play (server Demo.startup) findsRooms
    (Demo.creates {}) (start Demo.startup Demo.file {})
    (fun cfg =>
      (start Demo.startup cfg.shared.server.db {}).shared.server.router.exists (bytes "den"))
    (by decide +kernel)
  have serves : Serves Demo.file Demo.startup
      (start Demo.startup cfg.shared.server.db {}) :=
    (serves_of_reaches ⟨rfl, rfl⟩ run).restarts ⟨rfl, rfl⟩
  exact ⟨_, serves, roomsAgree_of_serves orderly_demo serves, created⟩

theorem announced_cases {cfg : Config Thread Cmd World} (announced : Demo.announced cfg = true) :
    ∃ v obj, .io (.sendFrame v obj) ∈ cfg.stack (.client 1) ∧ Announces obj ∧
      obj.getStr (bytes "room") = bytes "den" := by
  unfold Demo.announced at announced
  split at announced
  next v obj rest stack =>
    simp only [Bool.and_eq_true, decide_eq_true_eq] at announced
    exact ⟨v, obj, by simp [stack], announced⟩
  next => cases announced

/-- The query of the id fails: the room is announced all the same, and the message that
alice sends to it is stored under the id 0. -/
theorem rooms_disagree : ∃ cfg cfg',
    (server Demo.startup).Reaches Program.always (start Demo.startup Demo.file {}) cfg ∧
    (server Demo.startup).Reaches Program.always cfg cfg' ∧
    (∃ v obj, .io (.sendFrame v obj) ∈ cfg.stack (.client 1) ∧ Announces obj ∧
      ¬ Agrees cfg.shared.server (obj.getStr (bytes "room"))) ∧
    (∃ row ∈ cfg'.shared.server.db.messages.rows, row.2.type = bytes "room" ∧
      row.2.roomId = 0) ∧ ¬ RoomsAgree cfg ∧ ¬ RoomsAgree cfg' := by
  obtain ⟨cfg, run, checked⟩ := Program.exists_reaches_of_play (server Demo.startup)
    Program.always (Demo.creates { steps := false }) (start Demo.startup Demo.file {})
    (fun cfg => Demo.announced cfg && cfg.shared.server.router.dbId (bytes "den") = 0 &&
      (((server Demo.startup).play Program.always Demo.speaksInDen cfg).any Demo.misfiled))
    (by decide +kernel)
  simp only [Bool.and_eq_true, decide_eq_true_eq] at checked
  obtain ⟨⟨announced, unknown⟩, onward⟩ := checked
  obtain ⟨cfg', played, misfiled⟩ := (Option.any_eq_true _ _).mp onward
  obtain ⟨v, obj, pending, announces, den⟩ := announced_cases announced
  have disagrees : ¬ Agrees cfg.shared.server (obj.getStr (bytes "room")) := by
    intro agrees
    rw [den] at agrees
    exact absurd (unknown ▸ agrees.positive) (Int.lt_irrefl 0)
  obtain ⟨row, there, marked⟩ := List.any_eq_true.mp misfiled
  simp only [Bool.and_eq_true, decide_eq_true_eq] at marked
  refine ⟨cfg, cfg', run, Program.reaches_of_play played, ⟨v, obj, pending, announces, disagrees⟩,
    ⟨row, there, marked⟩, ?_, ?_⟩
  · intro agree
    exact disagrees (agree.announced _ v obj pending announces)
  · intro agree
    have positive := agree.stored row there marked.1
    rw [marked.2] at positive
    exact absurd positive (Int.lt_irrefl 0)

end OnlineChat
