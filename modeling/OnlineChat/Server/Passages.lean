import OnlineChat.Server.Handlers
import OnlineChat.Server.Identity
import OnlineChat.Server.Membership

/-!
# Where messages go

The history of what is stored and handed out, over restarts, the law that it obeys when a
message is seen only by those for whom it is meant, and what is known of each command when
it is called.
-/

namespace OnlineChat

open Library MiniJson Database ChatServer

/-! ## The history of all runs -/

/-- A row of `messages` as a restart leaves it: it belongs to no call. -/
def Message.bare {Call : Type} (x : Message Call) : Message Empty :=
  { roomId := x.roomId, sender := x.sender, receiver := x.receiver, content := x.content,
    ts := x.ts, type := x.type, origin := none }

def bareRow {Call : Type} (row : Int × Message Call) : Int × Message Empty := (row.1, row.2.bare)

/-- An offline row as `undelivered` returns it. -/
def offRow (row : Int × OfflineRow) : OffRow :=
  { id := row.1, sender := row.2.sender, content := row.2.content, ts := row.2.ts }

inductive Passage where
  /-- `doMessage` looks up the room of the sender of a message to all. -/
  | routed (m : ChatMsg) (s : ChatServer)
  /-- The message is relayed to a connection. -/
  | relayed (m : ChatMsg) (v : ConnId)
  /-- The relay of the message to a room ends. -/
  | finished (m : ChatMsg)
  /-- The row of a message is inserted while its sender is in that room. -/
  | stored (row : Int × Message Empty) (m : ChatMsg) (room : Bytes)
  /-- The offline row of a message is inserted. -/
  | parked (row : OffRow) (m : ChatMsg)
  /-- A HISTORY reply to a user who is in that room. -/
  | history (user room : Bytes) (rows : List (Int × Message Empty))
  | inbox (user : Bytes) (rows : List (Int × Message Empty))
  /-- The rows that are pushed to the user at a login. -/
  | pushed (user : Bytes) (rows : List OffRow)

namespace ChatServer

variable (st : Startup) (s : ChatServer) (c : ConnId) (e : Ext)

/-- The rows that `historyPage` reads. -/
def historyRows (roomId : Int) (cursor : Option (Int × Int)) : List (Int × Message Origin) :=
  match cursor with
  | none => s.db.historyLatest roomId (kHistPageSize + 1) e.sql
  | some (ts, id) => s.db.historyBefore roomId ts id (kHistPageSize + 1) e.sql

/-- The rows that `doInbox` reads, unless the cursor is not one. -/
def inboxRows (obj : Object) : Option (List (Int × Message Origin)) :=
  let cur := obj.getStr (bytes "content")
  if cur = [] then some (s.db.inboxLatest (s.sess.username c) (kHistPageSize + 1) e.sql)
  else (parseCursor cur).map fun (ts, id) =>
    s.db.inboxBefore (s.sess.username c) ts id (kHistPageSize + 1) e.sql

/-- The rows of a reply. -/
def replied (rows : List (Int × Message Origin)) : List (Int × Message Empty) :=
  (rows.take kHistPageSize).map bareRow

/-- What a section of the database hands out to the user of the connection. -/
def replies : DbCmd → List Passage
  | .historyPage _ roomId cursor =>
      let name := s.sess.username c
      [.history name (s.router.userRoom name) (replied (s.historyRows e roomId cursor))]
  | .doInbox obj =>
      ((s.inboxRows c e obj).map fun rows => .inbox (s.sess.username c) (replied rows)).toList
  | .pushOffline name => [.pushed (s.sess.username c) (s.db.undelivered name e.sql)]
  | _ => []

/-- The rows that a section of the database adds for its message. -/
def deposits (k : DbCmd) : List Passage :=
  match (Cmd.db k).about, runDb st s c e k with
  | some m, some r =>
      (s.db.messages.added r.state.messages).map (fun row =>
        .stored (bareRow row) m (s.router.userRoom m.sender)) ++
      (s.db.offline.added r.state.offline).map fun row => .parked (offRow row) m
  | _, _ => []

/-- What is to be noted of a command. -/
def watch : Cmd → List Passage
  | .router (.routeRoom m) => [.routed m s]
  | .io (.relayEach m _ (v :: _)) => [.relayed m v]
  | .io (.relayEach m _ []) => [.finished m]
  | .db k => deposits st s c e k ++ replies s c e k
  | _ => []

variable {s c e}

/-- The reply of `historyPage` has the rows that are noted. -/
theorem next_historyPage (room : Bytes) (roomId : Int) (cursor : Option (Int × Int)) :
    ∃ more, (historyPage s c e room roomId cursor).next =
      [.io (.sendFrame c (pageFrame (bytes "HISTORY") (s.sess.username c) room
        ((s.historyRows e roomId cursor).take kHistPageSize) more (e.nowTs 0)))] :=
  ⟨_, rfl⟩

/-- So has that of `doInbox`. -/
theorem next_doInbox {obj : Object} {rows : List (Int × Message Origin)}
    (read : s.inboxRows c e obj = some rows) :
    ∃ more, (doInbox s c e obj).next =
      [.io (.sendFrame c (pageFrame (bytes "INBOX") (s.sess.username c) []
        (rows.take kHistPageSize) more (e.nowTs 0)))] := by
  unfold inboxRows at read
  unfold doInbox
  dsimp only at read ⊢
  split at read
  next latest =>
    obtain rfl := Option.some.inj read
    exact ⟨_, if_pos latest⟩
  next before =>
    obtain ⟨cursor, parsed, rfl⟩ := Option.map_eq_some_iff.mp read
    rw [if_neg before, parsed]
    exact ⟨_, rfl⟩

end ChatServer

/-! ## The law -/

/-- `v` is the connection of somebody who is in the room of the sender. -/
def Entitled (s : ChatServer) (m : ChatMsg) (v : ConnId) : Prop :=
  ∃ user, s.sess.online user = some v ∧ s.router.userRoom user = s.router.userRoom m.sender

/-- How a note continues the relay of the latest message. -/
def follow : Option (ChatMsg × ChatServer × List ConnId) → Passage →
    Option (ChatMsg × ChatServer × List ConnId)
  | _, .routed m s => some (m, s, [])
  | some (m, s, vs), .relayed _ v => some (m, s, vs ++ [v])
  | cur, _ => cur

/-- The latest message to all, the server when it was routed, and the connections to which
something has been relayed since. -/
def current (notes : List Passage) : Option (ChatMsg × ChatServer × List ConnId) :=
  notes.foldl follow none

/-- What may be handed out after that past.  A relay goes to an entitled connection that
has not had the message, and when it ends all have had it.  A row that is handed out was
stored, and by whatever message it was stored, that message was meant for the user. -/
def Confined (past : List Passage) : Passage → Prop
  | .routed m _ => m.receiver = bytes "ALL"
  | .relayed m v => ∃ s vs, current past = some (m, s, vs) ∧ Entitled s m v ∧ v ∉ vs
  | .finished m => ∃ s vs, current past = some (m, s, vs) ∧ vs.Nodup ∧
      ∀ v, v ∈ vs ↔ Entitled s m v
  | .stored row m _ => (m.receiver = bytes "ALL" ∧ ∃ roomId, row.2 =
        roomMessage roomId m.sender m.content m.ts none) ∨
      (m.receiver ≠ bytes "ALL" ∧
        row.2 = privateMessage m.sender m.receiver m.content m.ts none)
  | .parked row m => m.receiver ≠ bytes "ALL" ∧
      row = { id := row.id, sender := cStr m.sender, content := cStr m.content, ts := m.ts }
  | .history _ room rows => ∀ row ∈ rows, (∃ m, .stored row m room ∈ past) ∧
      ∀ m room', .stored row m room' ∈ past → m.receiver = bytes "ALL" ∧ room' = room
  | .inbox user rows => ∀ row ∈ rows, (∃ m room, .stored row m room ∈ past) ∧
      ∀ m room, .stored row m room ∈ past → m.receiver ≠ bytes "ALL" ∧ m.receiver = user
  | .pushed user rows => ∀ row ∈ rows, (∃ m, .parked row m ∈ past) ∧
      ∀ m, .parked row m ∈ past → m.receiver ≠ bytes "ALL" ∧ m.receiver = user

/-- The server with its history. -/
abbrev watched (st : Startup) : Program Thread Ext Cmd (World × List Passage) :=
  (server st).recording fun t e k w => watch st w.server t.conn e k

/-- A server, its threads and the history. -/
structure Era where
  st : Startup
  cfg : Config Thread Cmd (World × List Passage)

/-- A step in which handlers are atomic, or a restart, perhaps after a crash, on the
database that the server leaves behind. -/
inductive Era.Next : Era → Era → Prop where
  | step (era : Era) (cfg' : Config Thread Cmd (World × List Passage)) :
      (watched era.st).Step (fun cfg t e => atomic cfg.plain t e) era.cfg cfg' →
      Next era ⟨era.st, cfg'⟩
  | restart (era : Era) (st' : Startup) (b : BootExt) :
      Next era ⟨st', (start st' era.cfg.shared.1.server.db b).noted era.cfg.shared.2⟩

/-- Any number of steps and restarts. -/
def Era.Later : Era → Era → Prop := Relation.ReflTransGen Era.Next

variable {st : Startup} {s : ChatServer} {c : ConnId} {e : Ext} {w w' : World} {t t' : Thread}
  {k k' : Cmd} {rest new : List Cmd} {File : Type} {file : Database File} {b : BootExt}
  {m : ChatMsg} {room : Bytes} {notes more : List Passage} {x : World × List Passage}

theorem current_append : current (notes ++ more) = more.foldl follow (current notes) :=
  List.foldl_append

/-- Notes about rows and replies. -/
def Passage.quiet : Passage → Bool
  | .routed _ _ | .relayed _ _ => false
  | _ => true

theorem follow_quiet {note : Passage} (quiet : note.quiet = true)
    (cur : Option (ChatMsg × ChatServer × List ConnId)) : follow cur note = cur := by
  cases note with
  | routed m s => cases quiet
  | relayed m v => cases quiet
  | _ => cases cur <;> rfl

theorem current_append_quiet (quiet : ∀ note ∈ more, note.quiet = true) :
    current (notes ++ more) = current notes := by
  rw [current_append]
  induction more generalizing notes with
  | nil => rfl
  | cons note more inductionHypothesis =>
      obtain ⟨first, rest⟩ := List.forall_mem_cons.mp quiet
      rw [List.foldl_cons, follow_quiet first]
      exact inductionHypothesis rest

theorem quiet_deposits (k : DbCmd) : ∀ note ∈ deposits st s c e k, note.quiet = true := by
  intro note there
  unfold deposits at there
  split at there
  · rcases List.mem_append.mp there with stored | parked
    · obtain ⟨row, -, rfl⟩ := List.mem_map.mp stored
      rfl
    · obtain ⟨row, -, rfl⟩ := List.mem_map.mp parked
      rfl
  · cases there

theorem quiet_replies (k : DbCmd) : ∀ note ∈ replies s c e k, note.quiet = true := by
  intro note there
  unfold replies at there
  split at there
  · obtain rfl := List.mem_singleton.mp there
    rfl
  · obtain ⟨rows, -, rfl⟩ := Option.map_eq_some_iff.mp (Option.mem_toList.mp there)
    rfl
  · obtain rfl := List.mem_singleton.mp there
    rfl
  · cases there

/-- A section of the database does not interfere with a relay. -/
theorem current_watch_db (k : DbCmd) :
    current (notes ++ watch st s c e (.db k)) = current notes := by
  apply current_append_quiet
  exact List.forall_mem_append.mpr ⟨quiet_deposits k, quiet_replies k⟩

theorem watch_of_service (service : k.layer = .service) : watch st s c e k = [] := by
  unfold watch
  split
  · cases service
  · cases service
  · cases service
  next k => cases k <;> cases service
  · rfl

/-! ## What follows what -/

/-- What is known of a command when it is called: to whom its message is addressed, and
what has been looked up for it. -/
def Follows (s : ChatServer) (c : ConnId) (e : Ext) (k : Cmd) : Cmd → Prop
  | .router (.routeRoom m) => m.receiver = bytes "ALL"
  | .db (.findReceiver m) => validUsername m.receiver = true
  | .router (.roomDbId m room) =>
      k = .router (.routeRoom m) ∧ room = s.router.userRoom m.sender ∧ room ≠ []
  | .db (.insertRoomMsg m room roomId _) =>
      (k = .router (.roomDbId m room) ∧ roomId = s.router.dbId room) ∨
        ∃ state, k = .db (.insertRoomMsg m room roomId state)
  | .router (.histRoomId room _) =>
      (∃ obj, k = .router (.doHist obj)) ∧ room = s.router.userRoom (s.sess.username c)
  | .db (.historyPage room roomId _) =>
      (∃ cur, k = .router (.histRoomId room cur)) ∧ roomId = s.router.dbId room ∧ 0 < roomId
  | .db (.insertRow room _ _) =>
      validRoomName room = true ∨ ∃ ts since, k = .db (.insertRow room ts since)
  | .db (.findRow room _) => ∃ ts since, k = .db (.insertRow room ts since)
  | .router (.createRoom room dbId _) =>
      (∃ ts, k = .db (.findRow room ts)) ∧ dbId = s.db.findRoomId room e.sql
  | .router (.finishAuth name token exp old) =>
      k = .sess (.installLogin name token exp) ∨ k = .token (.issueAuth name old)
  | .db (.pushOffline name) => ∃ token exp old, k = .router (.finishAuth name token exp old)
  | _ => True

/-- Commands that run at once when they are called. -/
def Cmd.topmost : Cmd → Bool
  | .router (.roomDbId _ _) | .db (.insertRoomMsg _ _ _ _) | .router (.broadcastRoomRelay _ _)
  | .sess (.relayConns _ _ _) | .router (.histRoomId _ _) | .db (.historyPage _ _ _)
  | .router (.createRoom _ _ _) => true
  | _ => false

/-- What `k` leaves to be run. -/
def Leads (s : ChatServer) (c : ConnId) (e : Ext) (k : Cmd) (new : List Cmd) : Prop :=
  (∀ n ∈ new, Follows s c e k n) ∧ ∀ n ∈ new.tail, n.topmost = false

theorem leads_nil : Leads s c e k [] := ⟨nofun, nofun⟩

theorem leads_one {n : Cmd} (follows : Follows s c e k n) : Leads s c e k [n] :=
  ⟨List.forall_mem_singleton.mpr follows, nofun⟩

/-- A list of commands of which nothing is known. -/
theorem leads_plain (follows : ∀ n ∈ new, Follows s c e k n)
    (plain : ∀ n ∈ new, n.topmost = false) : Leads s c e k new :=
  ⟨follows, fun n there => plain n (List.mem_of_mem_tail there)⟩

/-- A handler follows from its frame without further conditions, and the loop after it. -/
def Dispatches (s : ChatServer) (c : ConnId) (e : Ext) (p : List Cmd × Bool) : Prop :=
  Leads s c e (.own .frames)
    (p.1 ++ if p.2 then [.sess (.dropConn c true), .io (.closeConn c)] else [.own .frames])

theorem dispatches_handleBody (body : Bytes) : Dispatches s c e (handleBody s c e body) := by
  unfold handleBody
  cases parse body with
  | error => exact leads_one trivial
  | ok obj =>
      dsimp only
      -- one goal for each type of frame
      repeat' (apply iteInduction <;> intro _)
      all_goals simp [Dispatches, Leads, sendErr, Follows, Cmd.topmost]

theorem leads_runOwn (k : OwnCmd) : Leads s c e (.own k) (runOwn st s c e k).next := by
  cases k with
  | recvLoop =>
      simp only [runOwn, recvLoop]
      repeat' split
      all_goals simp [Leads, Follows, Cmd.topmost]
  | frames =>
      simp only [runOwn, frames]
      split
      next body reader taken => exact dispatches_handleBody body
      next => split <;> simp [Leads, Follows, Cmd.topmost]
  | sendChallenge user saltHex isRegister =>
      simp only [runOwn, sendChallenge]
      split <;> exact leads_one trivial
  | doRegister obj =>
      simp only [runOwn, doRegister]
      repeat' split
      all_goals exact leads_one trivial
  | doLogin obj =>
      simp only [runOwn, doLogin]
      repeat' split
      all_goals exact leads_one trivial
  | doCreate obj =>
      simp only [runOwn, doCreate]
      split
      · exact leads_one trivial
      next valid => exact leads_one (.inl (Decidable.not_not.mp valid))

theorem leads_runLimit (k : LimitCmd) : Leads s c e (.limit k) (runLimit st s c e k).next := by
  cases k with
  | acceptLoop =>
      simp only [runLimit, acceptLoop]
      repeat' split
      all_goals exact leads_one trivial
  | doRegisterHello obj | doLoginHello obj =>
      simp only [runLimit, doRegisterHello, doLoginHello, doHello]
      repeat' split
      all_goals exact leads_one trivial
  | doMessage obj =>
      simp only [runLimit, doMessage]
      repeat' split
      all_goals exact leads_one trivial

theorem leads_runToken (k : TokenCmd) : Leads s c e (.token k) (runToken st s c e k).next := by
  cases k with
  | doAuth obj =>
      simp only [runToken, doAuth]
      repeat' split
      all_goals exact leads_one trivial
  | issueLogin name => exact leads_one trivial
  | issueAuth name old => exact leads_one (.inr rfl)

theorem leads_runSess (k : SessCmd) : Leads s c e (.sess k) (runSess st s c e k).next := by
  cases k with
  | monitorLoop | monitorDrain =>
      apply leads_plain
      · intro n called
        rcases List.mem_append.mp called with service | again
        · obtain ⟨v, -, rfl⟩ := List.mem_map.mp service
          trivial
        · obtain rfl := List.mem_singleton.mp again
          trivial
      · intro n called
        rcases List.mem_append.mp called with service | again
        · obtain ⟨v, -, rfl⟩ := List.mem_map.mp service
          rfl
        · obtain rfl := List.mem_singleton.mp again
          rfl
  | roomConns names obj exclude =>
      apply leads_plain
      · intro n called
        obtain ⟨v, -, rfl⟩ := List.mem_map.mp called
        trivial
      · intro n called
        obtain ⟨v, -, rfl⟩ := List.mem_map.mp called
        rfl
  | checkLogin name =>
      simp only [runSess, checkLogin]
      split <;> exact leads_one trivial
  | installLogin name token exp => exact leads_one (.inl rfl)
  | dropConn v notifyRoom =>
      simp only [runSess, dropConn]
      repeat' split
      all_goals simp [Leads, leaveRoomNotify, Follows, Cmd.topmost]
  | findTarget m =>
      simp only [runSess, findTarget]
      split <;> exact leads_one trivial
  | acceptInstall ip port | installAuth name | relayConns m room names => exact leads_one trivial

theorem leads_runRouter (k : RouterCmd) :
    Leads s c e (.router k) (runRouter s c e k).next := by
  cases k with
  | finishAuth name token exp old =>
      simp [runRouter, finishAuth, Leads, Follows, Cmd.topmost]
  | finishRoom name old =>
      simp only [runRouter, finishRoom]
      cases old <;> dsimp only <;> split <;> simp [Leads, Follows, Cmd.topmost]
  | joinRoom room =>
      simp only [runRouter, joinRoom]
      repeat' split
      all_goals simp [Leads, sendErr, leaveRoomNotify, Follows, Cmd.topmost]
  | doJoin obj =>
      simp only [runRouter, doJoin]
      repeat' split
      all_goals exact leads_one trivial
  | doLeave =>
      simp only [runRouter, doLeave]
      split <;> simp [Leads, sendErr, leaveRoomNotify, Follows, Cmd.topmost]
  | doHist obj =>
      simp only [runRouter, doHist]
      split
      · exact leads_one trivial
      · exact leads_one ⟨⟨obj, rfl⟩, rfl⟩
  | histRoomId room cur =>
      simp only [runRouter, histRoomId]
      split
      · exact leads_one trivial
      next positive =>
        split
        · exact leads_one ⟨⟨cur, rfl⟩, rfl, Int.not_le.mp positive⟩
        · split
          · exact leads_one trivial
          · exact leads_one ⟨⟨cur, rfl⟩, rfl, Int.not_le.mp positive⟩
  | routeRoom m =>
      simp only [runRouter, routeRoom]
      split
      · exact leads_one trivial
      next inside => exact leads_one ⟨rfl, rfl, inside⟩
  | roomDbId m room => exact leads_one (.inl ⟨rfl, rfl⟩)
  | _ => exact leads_one trivial

theorem leads_whenTxIdle {since : Option Nat} {again : Option Nat → DbCmd}
    {go r : Effect (Database Origin) DbEvent} (ran : s.whenTxIdle e since again go = some r)
    (waits : ∀ since, Follows s c e k (.db (again since))) (goes : Leads s c e k go.next) :
    Leads s c e k r.next := by
  rcases next_whenTxIdle ran with rfl | ⟨n, rfl⟩
  · exact goes
  · exact leads_one (waits (some n))

theorem leads_runDb {k : DbCmd} {r : Effect (Database Origin) DbEvent}
    (ran : runDb st s c e k = some r) : Leads s c e (.db k) r.next := by
  cases k with
  | findHello name isRegister =>
      obtain rfl := Option.some.inj ran
      simp only [findHello]
      split <;> exact leads_one trivial
  | createUser name derived saltHex stored since =>
      refine leads_whenTxIdle ran (fun _ => trivial) ?_
      split <;> exact leads_one trivial
  | findLogin name proof nonceHex =>
      obtain rfl := Option.some.inj ran
      simp only [findLogin]
      repeat' split
      all_goals exact leads_one trivial
  | insertRow room ts since =>
      refine leads_whenTxIdle ran (fun _ => .inr ⟨ts, since, rfl⟩) ?_
      split
      · exact leads_one trivial
      · exact leads_one trivial
      · exact leads_one ⟨ts, since, rfl⟩
  | findRow room ts =>
      obtain rfl := Option.some.inj ran
      exact leads_one ⟨⟨ts, rfl⟩, rfl⟩
  | historyPage room roomId cursor =>
      obtain rfl := Option.some.inj ran
      exact leads_one trivial
  | doInbox obj =>
      obtain rfl := Option.some.inj ran
      simp only [doInbox]
      repeat' split
      all_goals exact leads_one trivial
  | findReceiver m =>
      obtain rfl := Option.some.inj ran
      simp only [findReceiver]
      split <;> exact leads_one trivial
  | insertRoomMsg m room roomId state =>
      rcases next_insertMsg ran with ⟨db, state', -, -, next⟩ | ⟨db, id, -, -, -, ends⟩
      · rw [next]
        exact leads_one (.inr ⟨state, rfl⟩)
      · rcases ends with ⟨-, reason, next⟩ | ⟨-, next⟩
        · rw [next]
          exact leads_one trivial
        · simp [next, Leads, Follows, Cmd.topmost]
  | insertPrivateMsg m state =>
      rcases next_insertMsg ran with ⟨db, state', -, -, next⟩ | ⟨db, id, -, -, -, ends⟩
      · rw [next]
        exact leads_one trivial
      · rcases ends with ⟨-, reason, next⟩ | ⟨-, next⟩
        · rw [next]
          exact leads_one trivial
        · simp [next, Leads, Follows, Cmd.topmost]
  | insertOffline m target since =>
      refine leads_whenTxIdle ran (fun _ => trivial) ?_
      cases target with
      | none => exact leads_nil
      | some v => exact leads_one trivial
  | pushOffline name =>
      obtain rfl := Option.some.inj ran
      exact leads_one trivial
  | markDelivered name id rest since =>
      exact leads_whenTxIdle ran (fun _ => trivial) (leads_one trivial)

theorem leads_runIo {k : IoCmd} {r : Effect (ConnId → SendSide) IoEvent}
    (ran : runIo st s c e k = some r) : Leads s c e (.io k) r.next := by
  cases k with
  | handleClient =>
      obtain ⟨-, -, tls, rfl | rfl⟩ := starts_handleClient ran
      · exact leads_one trivial
      · simp [Leads, Follows, Cmd.topmost]
  | pushRows name rows =>
      cases rows with
      | nil =>
          obtain rfl := Option.some.inj ran
          exact leads_nil
      | cons row rest =>
          obtain rfl := Option.some.inj ran
          simp only [sendSection]
          split <;> simp [Leads, Follows, Cmd.topmost]
  | relayEach m room targets =>
      cases targets with
      | nil =>
          obtain rfl := Option.some.inj ran
          exact leads_nil
      | cons v rest =>
          obtain rfl := Option.some.inj ran
          simp only [sendSection]
          split <;> simp [Leads, Follows, Cmd.topmost]
  | _ =>
      obtain rfl := Option.some.inj ran
      simp only [sendSection]
      split <;> simp [Leads, Follows, Cmd.topmost]

theorem leads_checkAndAdd (m : ChatMsg) :
    Leads s c e (.checkAndAdd m) (s.checkAndAdd m).2.2 := by
  unfold ChatServer.checkAndAdd
  split
  · exact leads_one trivial
  · dsimp only
    split
    next all => exact leads_one all
    · split
      · exact leads_one trivial
      next refused =>
        have valid : validUsername m.receiver = true := by
          simpa using (not_or.mp (not_or.mp refused).2).2
        exact leads_one valid

/-- What a command leaves to be run follows from it. -/
theorem leads_run (ran : w.run st c e k = some (w', new)) : Leads w.server c e k new := by
  cases k with
  | own k =>
      obtain ⟨-, rfl⟩ := Prod.mk.inj (Option.some.inj ran)
      exact leads_runOwn k
  | limit k =>
      obtain ⟨-, rfl⟩ := Prod.mk.inj (Option.some.inj ran)
      exact leads_runLimit k
  | token k =>
      obtain ⟨-, rfl⟩ := Prod.mk.inj (Option.some.inj ran)
      exact leads_runToken k
  | sess k =>
      obtain ⟨-, rfl⟩ := Prod.mk.inj (Option.some.inj ran)
      exact leads_runSess k
  | router k =>
      obtain ⟨-, rfl⟩ := Prod.mk.inj (Option.some.inj ran)
      exact leads_runRouter k
  | db k =>
      obtain ⟨r, step, result⟩ := Option.map_eq_some_iff.mp ran
      obtain ⟨-, rfl⟩ := Prod.mk.inj result
      exact leads_runDb step
  | io k =>
      obtain ⟨r, step, result⟩ := Option.map_eq_some_iff.mp ran
      obtain ⟨-, rfl⟩ := Prod.mk.inj result
      exact leads_runIo step
  | checkAndAdd m =>
      obtain ⟨-, rfl⟩ := Prod.mk.inj (Option.some.inj ran)
      exact leads_checkAndAdd m

/-! ## Messages to all -/

/-- The message that is on its way to all. -/
def Cmd.toAll : Cmd → Option ChatMsg
  | .router (.routeRoom m) | .router (.roomDbId m _) | .db (.insertRoomMsg m _ _ _)
  | .router (.broadcastRoomRelay m _) | .sess (.relayConns m _ _) | .io (.relayEach m _ _) =>
      some m
  | _ => none

theorem toAll_own (known : ∀ m, k.toAll = some m → m.receiver = bytes "ALL")
    (ran : w.run st c e k = some (w', new)) (called : n ∈ new) (all : n.toAll = some m) :
    m.receiver = bytes "ALL" := by
  have by' := calledBy_run ran n called
  have follows := (leads_run ran).1 n called
  unfold Cmd.toAll at all
  split at all
  all_goals cases all
  · exact follows
  · obtain ⟨rfl, -⟩ := follows
    exact known m rfl
  · rcases follows with ⟨rfl, -⟩ | ⟨state, rfl⟩ <;> exact known m rfl
  · obtain ⟨roomId, state, db, id, rfl, -⟩ := by'
    exact known m rfl
  · obtain ⟨rfl, -⟩ := by'
    exact known m rfl
  · rcases by' with ⟨names, rfl, -⟩ | ⟨v, rfl⟩ <;> exact known m rfl

end OnlineChat
