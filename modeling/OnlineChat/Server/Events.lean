import OnlineChat.GroupCommit
import OnlineChat.Server.Flow

/-!
# The events of a step

Which command emits which event.
-/

namespace OnlineChat

open Library ChatServer

variable {st : Startup} {s : ChatServer} {c : ConnId} {e : Ext} {w w' : World}

/-- The thread of `c` emits an event when it runs `k`. -/
def EmittedBy (s : ChatServer) (c : ConnId) (k : Cmd) : Event → Prop
  | .own (.issued c' _ _ _ _) | .own (.taken c' _ _ _ _) | .own (.compared c' _ _) =>
      c' = c ∧ ∃ k', k = .own k'
  | .sess (.loggedIn c' user holder) =>
      c' = c ∧ holder = s.sess.online user ∧ ∃ token exp, k = .sess (.installLogin user token exp)
  | .sess (.resumed c' user) => c' = c ∧ k = .sess (.installAuth user)
  | .sess (.dropped v) => ∃ notifyRoom, k = .sess (.dropConn v notifyRoom)
  | .sess (.fanOut user seq) => ∃ m, user = m.sender ∧ seq = m.seq ∧
      ((∃ room names, k = .sess (.relayConns m room names)) ∨ k = .sess (.findTarget m))
  | .db (.registered name derived saltHex) =>
      ∃ stored since, k = .db (.createUser name derived saltHex stored since)
  | .db (.compared c' user nonceHex _ proof _) => c' = c ∧ k = .db (.findLogin user proof nonceHex)
  | .db (.inserted user seq) => ∃ m since, user = m.sender ∧ seq = m.seq ∧
      ((∃ room roomId, k = .db (.insertRoomMsg m room roomId (.enter since))) ∨
        k = .db (.insertPrivateMsg m (.enter since)))
  | .db (.pushStarted c' name _) => c' = c ∧ k = .db (.pushOffline name)
  | .io (.acked c' user seq) => c' = c ∧ user = s.sess.username c ∧ k = .io (.sendAck seq)
  | .io (.refused user seq) => ∃ m reason, user = m.sender ∧ seq = m.seq ∧
      k = .io (.refuse m reason)
  | .io (.relayed v user seq) => ∃ m, user = m.sender ∧ seq = m.seq ∧
      (k = .io (.relayTarget m v) ∨ ∃ room rest, k = .io (.relayEach m room (v :: rest)))
  | .io (.handed c' row) => c' = c ∧ ∃ name rest, k = .io (.pushRows name (row :: rest))
  | .admitted c' user seq => c' = c ∧ s.dedup.seen user seq = false ∧
      ∃ m, user = m.sender ∧ seq = m.seq ∧ k = .checkAndAdd m

theorem emitted_runOwn (k : OwnCmd) :
    ∀ event ∈ (runOwn st s c e k).events, EmittedBy s c (.own k) (.own event) := by
  cases k with
  | recvLoop =>
      simp only [runOwn, recvLoop]
      repeat' split
      all_goals simp
  | frames =>
      simp only [runOwn, frames]
      split <;> simp
  | sendChallenge user saltHex isRegister =>
      simp only [runOwn, sendChallenge]
      split <;> simp [EmittedBy]
  | doRegister obj | doLogin obj =>
      simp only [runOwn, doRegister, doLogin]
      split
      · simp
      · split
        · simp
        · repeat' split
          all_goals simp [EmittedBy]
  | doCreate obj => simp [runOwn, doCreate]

theorem emitted_runSess (k : SessCmd) :
    (runSess st s c e k).events.length ≤ 1 ∧
      ∀ event ∈ (runSess st s c e k).events, EmittedBy s c (.sess k) (.sess event) := by
  cases k with
  | dropConn v notifyRoom =>
      simp only [runSess, dropConn]
      repeat' split
      all_goals simp [EmittedBy]
  | findTarget m =>
      simp only [runSess, findTarget]
      split <;> simp [EmittedBy]
  | _ =>
      simp [runSess, acceptInstall, monitorLoop, monitorDrain, checkLogin, installLogin, installAuth,
        roomConns, relayConns, EmittedBy]

/-- A section of an insert emits its event with the `INSERT`. -/
theorem emitted_insertMsg {m : ChatMsg} {row : Message Origin} {state : Database.CallState}
    {again : Database.CallState → DbCmd} {stored : List Cmd}
    {r : Effect (Database Origin) DbEvent}
    (ran : insertMsg s e m row state again stored = some r) :
    r.events = [] ∨ ((∃ since, state = .enter since) ∧ r.events = [.inserted m.sender m.seq] ∧
      ∃ state', state'.outside = false ∧ r.next = [.db (again state')]) := by
  obtain ⟨⟨db, p⟩, advanced, rfl⟩ := Option.map_eq_some_iff.mp ran
  cases p with
  | returns id => exact .inl rfl
  | goes state' =>
      cases out : state'.outside with
      | true =>
          obtain ⟨-, since', rfl⟩ := Database.outside_advance advanced out
          left
          cases state <;> rfl
      | false =>
          cases state with
          | enter since =>
              refine .inr ⟨⟨since, rfl⟩, ?_, state', out, rfl⟩
              cases state' <;> first
                | rfl
                | cases out
          | _ => exact .inl rfl

theorem emitted_runDb {k : DbCmd} {r : Effect (Database Origin) DbEvent}
    (ran : runDb st s c e k = some r) :
    r.events.length ≤ 1 ∧ ∀ event ∈ r.events, EmittedBy s c (.db k) (.db event) := by
  cases k with
  | createUser name derived saltHex stored since =>
      rcases next_whenTxIdle ran with rfl | ⟨n, rfl⟩
      · split <;> simp [EmittedBy]
      · simp
  | findLogin name proof nonceHex =>
      obtain rfl := Option.some.inj ran
      simp only [findLogin]
      repeat' split
      all_goals simp [EmittedBy]
  | insertRow room ts since => simp [(state_insertRow ran).1]
  | insertRoomMsg m room roomId state | insertPrivateMsg m state =>
      rcases emitted_insertMsg ran with none | ⟨⟨since, rfl⟩, one, -⟩
      · simp [none]
      · simp only [one]
        refine ⟨by simp, ?_⟩
        intro event membership
        obtain rfl := List.mem_singleton.mp membership
        exact ⟨m, since, rfl, rfl, by simp⟩
  | insertOffline m target since | markDelivered name id rest since =>
      rcases next_whenTxIdle ran with rfl | ⟨n, rfl⟩ <;> simp
  | _ =>
      obtain rfl := Option.some.inj ran
      simp [findHello, findRow, historyPage, doInbox, findReceiver, pushOffline, EmittedBy]

theorem emitted_runIo {k : IoCmd} {r : Effect (ConnId → SendSide) IoEvent}
    (ran : runIo st s c e k = some r) :
    r.events.length ≤ 1 ∧ ∀ event ∈ r.events, EmittedBy s c (.io k) (.io event) := by
  cases k with
  | handleClient =>
      obtain ⟨-, -, tls, rfl | rfl⟩ := starts_handleClient ran
      · simp
      · simp
  | pushRows name rows =>
      cases rows with
      | nil =>
          obtain rfl := Option.some.inj ran
          simp
      | cons row rest =>
          obtain rfl := Option.some.inj ran
          simp only [sendSection]
          split <;> simp [EmittedBy]
  | relayEach m room targets =>
      cases targets with
      | nil =>
          obtain rfl := Option.some.inj ran
          simp
      | cons v rest =>
          obtain rfl := Option.some.inj ran
          refine ⟨by simp [sendSection], ?_⟩
          intro event membership
          obtain rfl := List.mem_singleton.mp membership
          exact ⟨m, rfl, rfl, .inr ⟨room, rest, rfl⟩⟩
  | relayTarget m v =>
      obtain rfl := Option.some.inj ran
      refine ⟨by simp [sendSection], ?_⟩
      intro event membership
      obtain rfl := List.mem_singleton.mp membership
      exact ⟨m, rfl, rfl, .inl rfl⟩
  | refuse m reason =>
      obtain rfl := Option.some.inj ran
      refine ⟨by simp [sendSection], ?_⟩
      intro event membership
      obtain rfl := List.mem_singleton.mp membership
      exact ⟨m, reason, rfl, rfl, rfl⟩
  | _ =>
      obtain rfl := Option.some.inj ran
      simp [sendSection, EmittedBy]

theorem checkAndAdd_fst (s : ChatServer) (m : ChatMsg) :
    (s.checkAndAdd m).1 = !s.dedup.seen m.sender m.seq := by
  rw [← s.dedup.checkAndAdd_fst]
  unfold ChatServer.checkAndAdd
  split
  next result => rw [result]
  next result => rw [result]

theorem run_checkAndAdd {m : ChatMsg} {new : List Cmd}
    (ran : w.run st c e (.checkAndAdd m) = some (w', new)) :
    w'.server.dedup = (w.server.dedup.checkAndAdd m.sender m.seq).2 ∧
      new = (w.server.checkAndAdd m).2.2 := by
  have shape : w.run st c e (.checkAndAdd m) =
      some (⟨{ w.server with dedup := (w.server.checkAndAdd m).2.1 }, w.trace ++
        if (w.server.checkAndAdd m).1 then [.admitted c m.sender m.seq] else []⟩,
        (w.server.checkAndAdd m).2.2) := rfl
  rw [shape] at ran
  obtain ⟨rfl, rfl⟩ := Prod.mk.inj (Option.some.inj ran)
  refine ⟨?_, rfl⟩
  dsimp only
  unfold ChatServer.checkAndAdd
  split
  next result => rw [result]
  next result => rw [result]

/-- A command appends its events to the trace: at most one, unless it is one of the own
client. -/
theorem trace_run {k : Cmd} {new : List Cmd} (ran : w.run st c e k = some (w', new)) :
    ∃ events, w'.trace = w.trace ++ events ∧
      (∀ event ∈ events, EmittedBy w.server c k event) ∧
      ((∃ k', k = .own k') ∨ events.length ≤ 1) := by
  cases k with
  | own k =>
      obtain ⟨rfl, -⟩ := Prod.mk.inj (Option.some.inj ran)
      refine ⟨_, rfl, ?_, .inl ⟨k, rfl⟩⟩
      intro event membership
      obtain ⟨event, there, rfl⟩ := List.mem_map.mp membership
      exact emitted_runOwn k event there
  | sess k =>
      obtain ⟨rfl, -⟩ := Prod.mk.inj (Option.some.inj ran)
      obtain ⟨length, emitted⟩ := @emitted_runSess st w.server c e k
      refine ⟨_, rfl, ?_, .inr (by simpa using length)⟩
      intro event membership
      obtain ⟨event, there, rfl⟩ := List.mem_map.mp membership
      exact emitted event there
  | db k =>
      obtain ⟨r, step, result⟩ := Option.map_eq_some_iff.mp ran
      obtain ⟨rfl, -⟩ := Prod.mk.inj result
      obtain ⟨length, emitted⟩ := emitted_runDb step
      refine ⟨_, rfl, ?_, .inr (by simpa using length)⟩
      intro event membership
      obtain ⟨event, there, rfl⟩ := List.mem_map.mp membership
      exact emitted event there
  | io k =>
      obtain ⟨r, step, result⟩ := Option.map_eq_some_iff.mp ran
      obtain ⟨rfl, -⟩ := Prod.mk.inj result
      obtain ⟨length, emitted⟩ := emitted_runIo step
      refine ⟨_, rfl, ?_, .inr (by simpa using length)⟩
      intro event membership
      obtain ⟨event, there, rfl⟩ := List.mem_map.mp membership
      exact emitted event there
  | checkAndAdd m =>
      obtain ⟨rfl, -⟩ := Prod.mk.inj (Option.some.inj ran)
      refine ⟨if (w.server.checkAndAdd m).1 then [.admitted c m.sender m.seq] else [], rfl, ?_, .inr ?_⟩
      · rw [checkAndAdd_fst]
        cases seen : w.server.dedup.seen m.sender m.seq with
        | true => simp
        | false => simp [EmittedBy, seen]
      · split <;> simp
  | _ =>
      obtain ⟨rfl, -⟩ := Prod.mk.inj (Option.some.inj ran)
      exact ⟨[], by simp, by simp, by simp⟩

/-! ## The calls of the group commit -/

/-- The call in which a command of `c` stands: its message, its row and its state. -/
def Cmd.call (c : ConnId) : Cmd → Option (ChatMsg × Message Origin × Database.CallState)
  | .db (.insertRoomMsg m _ roomId state) => some (m, roomRow c m roomId, state)
  | .db (.insertPrivateMsg m state) => some (m, privateRow c m, state)
  | _ => none

/-- A call stores a message for a room or for a user. -/
theorem call_cases {k : Cmd} {m : ChatMsg} {row : Message Origin} {state : Database.CallState}
    (call : k.call c = some (m, row, state)) :
    (∃ room roomId, k = .db (.insertRoomMsg m room roomId state) ∧ row = roomRow c m roomId) ∨
      (k = .db (.insertPrivateMsg m state) ∧ row = privateRow c m) := by
  unfold Cmd.call at call
  split at call
  · cases call
    exact .inl ⟨_, _, rfl, rfl⟩
  · cases call
    exact .inr ⟨rfl, rfl⟩
  · cases call

/-- What a section of the database makes of it. -/
inductive Updates (s : ChatServer) (c : ConnId) (e : Ext) : DbCmd → Database Origin → Prop where
  | reads (k : DbCmd) : Updates s c e k s.db
  | createUser (name derived saltHex stored : Bytes) (since : Option Nat) :
      Updates s c e (.createUser name derived saltHex stored since)
        (s.db.createUser name saltHex stored (e.nowTs 0) e.sql).2
  | createRoom (room : Bytes) (ts : Int) (since : Option Nat) :
      Updates s c e (.insertRow room ts since)
        (s.db.createRoom room (s.sess.username c) ts e.sql).2
  | advances {k : DbCmd} {m : ChatMsg} {row : Message Origin} {state : Database.CallState}
      {db : Database Origin} {p : Database.Progress} :
      Cmd.call c (.db k) = some (m, row, state) →
      s.db.advance bumpGen row e.sql state = some (db, p) → Updates s c e k db
  | insertOffline (m : ChatMsg) (target : Option ConnId) (since : Option Nat) :
      Updates s c e (.insertOffline m target since)
        (s.db.insertOffline m.sender m.receiver m.content m.ts e.sql)
  | markDelivered (name : Bytes) (id : Int) (rest : List OffRow) (since : Option Nat) :
      Updates s c e (.markDelivered name id rest since) (s.db.markDelivered id e.sql)

theorem state_runDb {k : DbCmd} {r : Effect (Database Origin) DbEvent}
    (ran : runDb st s c e k = some r) : Updates s c e k r.state := by
  cases k with
  | createUser name derived saltHex stored since =>
      rcases next_whenTxIdle ran with rfl | ⟨n, rfl⟩
      · have updates : Updates s c e _ _ := .createUser name derived saltHex stored since
        split
        all_goals
          next result =>
            rw [result] at updates
            exact updates
      · exact .reads _
  | insertRow room ts since =>
      rcases next_whenTxIdle ran with rfl | ⟨n, rfl⟩
      · have updates : Updates s c e _ _ := .createRoom room ts since
        split
        all_goals
          next result =>
            rw [result] at updates
            exact updates
      · exact .reads _
  | insertRoomMsg m room roomId state | insertPrivateMsg m state =>
      obtain ⟨⟨db, p⟩, advanced, rfl⟩ := Option.map_eq_some_iff.mp ran
      cases p <;> exact .advances rfl advanced
  | insertOffline m target since =>
      rcases next_whenTxIdle ran with rfl | ⟨n, rfl⟩
      · exact .insertOffline m target since
      · exact .reads _
  | markDelivered name id rest since =>
      rcases next_whenTxIdle ran with rfl | ⟨n, rfl⟩
      · exact .markDelivered name id rest since
      · exact .reads _
  | findLogin name proof nonceHex =>
      obtain rfl := Option.some.inj ran
      simp only [findLogin]
      repeat' split
      all_goals exact .reads _
  | _ =>
      obtain rfl := Option.some.inj ran
      exact .reads _

theorem Database.createUser_users (db : Database Origin) (name salt pwdHash : Bytes) (ts : Int)
    (out : SqlOutcome) : ∃ users, (db.createUser name salt pwdHash ts out).2 = { db with users } := by
  unfold Database.createUser
  repeat' split
  all_goals exact ⟨_, rfl⟩

/-- Other sections leave `messages` and the group commit alone. -/
theorem tables_runDb {k : DbCmd} {r : Effect (Database Origin) DbEvent}
    (ran : runDb st s c e k = some r) (idle : Cmd.call c (.db k) = none) :
    ∃ users rooms offline, r.state = { s.db with users, rooms, offline } := by
  have updates := state_runDb ran
  generalize r.state = db at updates ⊢
  cases updates with
  | reads => exact ⟨_, _, _, rfl⟩
  | createUser name derived saltHex stored since =>
      obtain ⟨users, state⟩ := s.db.createUser_users name saltHex stored (e.nowTs 0) e.sql
      exact ⟨users, _, _, state⟩
  | createRoom room ts since =>
      obtain ⟨rooms, state⟩ := s.db.createRoom_rooms room (s.sess.username c) ts e.sql
      exact ⟨_, rooms, _, state⟩
  | advances call advanced => simp [call] at idle
  | insertOffline m target since =>
      unfold Database.insertOffline
      split
      · exact ⟨_, _, _, rfl⟩
      · exact ⟨_, _, _, rfl⟩
  | markDelivered name id rest since =>
      unfold Database.markDelivered
      split
      · exact ⟨_, _, _, rfl⟩
      · exact ⟨_, _, _, rfl⟩

/-- What a section of a call leaves to be run: its next section, a NACK, or the ACK and
the relay. -/
inductive Leaves (c : ConnId) (m : ChatMsg) (row : Message Origin) (state : Database.CallState)
    (events : List Event) (new : List Cmd) : Database.Progress → Prop where
  | goes (n : Cmd) (state' : Database.CallState) : new = [n] → n.call c = some (m, row, state') →
      (events = if state.outside && !state'.outside then [.db (.inserted m.sender m.seq)] else []) →
      Leaves c m row state events new (.goes state')
  | refuses (id : Int) (reason : Bytes) : id < 0 → new = [.io (.refuse m reason)] → events = [] →
      Leaves c m row state events new (.returns id)
  | stores (id : Int) (relay : Cmd) : 0 ≤ id →
      ((∃ room, relay = .router (.broadcastRoomRelay m room)) ∨ relay = .sess (.findTarget m)) →
      new.Perm [.io (.sendAck m.seq), relay] → events = [] →
      Leaves c m row state events new (.returns id)

theorem leaves_insertMsg {m : ChatMsg} {row : Message Origin} {state : Database.CallState}
    {again : Database.CallState → DbCmd} {stored : List Cmd} {relay : Cmd}
    {r : Effect (Database Origin) DbEvent}
    (ran : insertMsg s e m row state again stored = some r)
    (onward : ∀ state, Cmd.call c (.db (again state)) = some (m, row, state))
    (relays : (∃ room, relay = .router (.broadcastRoomRelay m room)) ∨ relay = .sess (.findTarget m))
    (all : stored.Perm [.io (.sendAck m.seq), relay]) :
    ∃ p, s.db.advance bumpGen row e.sql state = some (r.state, p) ∧
      Leaves c m row state (r.events.map .db) r.next p := by
  obtain ⟨⟨db, p⟩, advanced, rfl⟩ := Option.map_eq_some_iff.mp ran
  cases p with
  | goes state' =>
      refine ⟨_, advanced, .goes _ state' rfl (onward state') ?_⟩
      cases out : state'.outside with
      | true =>
          obtain ⟨-, since', rfl⟩ := Database.outside_advance advanced out
          cases state <;> simp
      | false => cases state <;> cases state' <;> simp_all [Database.CallState.outside, Database.advance]
  | returns id =>
      refine ⟨_, advanced, ?_⟩
      by_cases failed : id < 0
      · exact .refuses id _ failed (if_pos failed) rfl
      · exact .stores id relay (Int.not_lt.mp failed) relays (by simpa [failed] using all) rfl

/-- A step leaves the group commit alone, or it is a section of a call. -/
theorem call_run {k : Cmd} {new : List Cmd} (ran : w.run st c e k = some (w', new)) :
    (k.call c = none ∧
      ∃ users rooms offline, w'.server.db = { w.server.db with users, rooms, offline }) ∨
    ∃ m row state p events, k.call c = some (m, row, state) ∧
      w.server.db.advance bumpGen row e.sql state = some (w'.server.db, p) ∧
      w'.trace = w.trace ++ events ∧ Leaves c m row state events new p := by
  cases k with
  | db k =>
      obtain ⟨r, step, result⟩ := Option.map_eq_some_iff.mp ran
      obtain ⟨rfl, rfl⟩ := Prod.mk.inj result
      cases idle : Cmd.call c (.db k) with
      | none => exact .inl ⟨rfl, tables_runDb step idle⟩
      | some call =>
          right
          cases k with
          | insertRoomMsg m room roomId state =>
              obtain rfl := Option.some.inj idle
              obtain ⟨p, advanced, leaves⟩ := leaves_insertMsg step (fun _ => rfl)
                (.inl ⟨room, rfl⟩) (List.Perm.swap ..)
              exact ⟨m, _, state, p, _, rfl, advanced, rfl, leaves⟩
          | insertPrivateMsg m state =>
              obtain rfl := Option.some.inj idle
              obtain ⟨p, advanced, leaves⟩ := leaves_insertMsg step (fun _ => rfl)
                (.inr rfl) (List.Perm.refl _)
              exact ⟨m, _, state, p, _, rfl, advanced, rfl, leaves⟩
          | _ => cases idle
  | _ => exact .inl ⟨rfl, _, _, _, db_run ran (by simp)⟩

/-! ## The offline rows -/

/-- The row of `insert_offline`. -/
def ChatMsg.offlineRow (m : ChatMsg) : OfflineRow :=
  { sender := cStr m.sender, receiver := cStr m.receiver, content := cStr m.content, ts := m.ts }

theorem Database.insertOffline_cases (db : Database Origin) (m : ChatMsg) (out : SqlOutcome) :
    db.insertOffline m.sender m.receiver m.content m.ts out = db ∨
      db.insertOffline m.sender m.receiver m.content m.ts out =
        { db with offline := db.offline.insert m.offlineRow } := by
  unfold Database.insertOffline
  split
  · exact .inr rfl
  · exact .inl rfl

/-- A section of the database that marks nothing adds at most the row of its message. -/
theorem offline_runDb {k : DbCmd} {r : Effect (Database Origin) DbEvent}
    (ran : runDb st s c e k = some r)
    (marks : ∀ name id rest since, k ≠ .markDelivered name id rest since) :
    r.state.offline = s.db.offline ∨ ∃ m target since, k = .insertOffline m target since ∧
      r.state.offline = s.db.offline.insert m.offlineRow := by
  have updates := state_runDb ran
  generalize r.state = db at updates ⊢
  cases updates with
  | reads => exact .inl rfl
  | createUser name derived saltHex stored since =>
      obtain ⟨users, state⟩ := s.db.createUser_users name saltHex stored (e.nowTs 0) e.sql
      exact .inl (by rw [state])
  | createRoom room ts since =>
      obtain ⟨rooms, state⟩ := s.db.createRoom_rooms room (s.sess.username c) ts e.sql
      exact .inl (by rw [state])
  | advances call advanced => exact .inl (Database.tables_advance advanced).2.2
  | insertOffline m target since =>
      rcases s.db.insertOffline_cases m e.sql with state | state
      · exact .inl (congrArg Database.offline state)
      · exact .inr ⟨m, target, since, rfl, congrArg Database.offline state⟩
  | markDelivered name id rest since => exact absurd rfl (marks name id rest since)

end OnlineChat
