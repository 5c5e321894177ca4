import OnlineChat.Library.Progress
import OnlineChat.Server.Flow

/-!
# No handler runs forever

The three loops of the server are those of `recvLoop`, `acceptLoop` and `monitorLoop`, and a
section of the database may fall asleep again.  Everything else leaves commands of a lower
rank, or takes a frame out of the buffer of its connection: a thread that goes on forever
comes back to its loop, or sleeps again, infinitely often.
-/

namespace OnlineChat

open Library MiniJson ChatServer Filter

/-! ## Ranks -/

/-- A command leaves commands of lower levels, except where it goes on with less to do. -/
def Cmd.level : Cmd → ℕ
  | .io (.sendFrame _ _) | .io (.sendAck _) | .io (.refuse _ _) => 0
  | .sess (.roomConns _ _ _) | .router (.sendJoinState _) | .own (.sendChallenge _ _ _)
  | .db (.createUser _ _ _ _ _) | .db (.doInbox _) | .db (.historyPage _ _ _) | .router .doRooms
  | .router (.createRoom _ _ _) => 1
  | .router (.userlistConns _ _) | .router (.broadcastRoomSystem _ _ _) | .db (.findHello _ _)
  | .own (.doRegister _) | .router (.histRoomId _ _) | .db (.findRow _ _) => 2
  | .router (.broadcastRoomUserlist _) | .io (.pushRows _ _) | .db (.markDelivered _ _ _ _)
  | .limit (.doRegisterHello _) | .limit (.doLoginHello _) | .router (.doHist _)
  | .db (.insertRow _ _ _) => 3
  | .sess (.dropConn _ _) | .db (.pushOffline _) | .router .doLeave | .router (.joinRoom _)
  | .own (.doCreate _) => 4
  | .io (.drainSlow _) | .db (.insertOffline _ _ _) | .router (.finishRoom _ _)
  | .router (.doJoin _) => 5
  | .io (.relayTarget _ _) | .router (.finishAuth _ _ _ _) | .io (.relayEach _ _ _) => 6
  | .sess (.findTarget _) | .token (.issueAuth _ _) | .sess (.installLogin _ _ _)
  | .sess (.relayConns _ _ _) => 7
  | .router (.broadcastRoomRelay _ _) | .sess (.installAuth _) | .token (.issueLogin _) => 8
  | .db (.insertRoomMsg _ _ _ _) | .db (.insertPrivateMsg _ _) | .sess (.checkLogin _)
  | .token (.doAuth _) => 9
  | .router (.roomDbId _ _) | .db (.findReceiver _) | .db (.findLogin _ _ _) => 10
  | .router (.routeRoom _) | .own (.doLogin _) => 11
  | .checkAndAdd _ => 12
  | .limit (.doMessage _) => 13
  | .io (.closeConn _) => 14
  | .own .recvLoop | .limit .acceptLoop | .sess .monitorLoop => 15
  | .own .frames | .sess (.acceptInstall _ _) | .sess .monitorDrain | .io .handleClient => 16

/-- How far a call of an insert is from its end. -/
def Database.CallState.remaining : Database.CallState → ℕ
  | .start => 3
  | .enter _ => 2
  | .joined _ _ _ | .window _ _ => 1
  | .leave _ => 0

/-- What is left to do on one level. -/
def Cmd.size : Cmd → ℕ
  | .io (.pushRows _ rows) => 2 * rows.length
  | .db (.markDelivered _ _ rest _) => 2 * rest.length + 1
  | .io (.relayEach _ _ targets) => targets.length
  | .db (.insertRoomMsg _ _ _ state) | .db (.insertPrivateMsg _ state) => state.remaining
  | _ => 0

/-- A command of a lower level, or with less to do on the same one. -/
def Cmd.Lower (n k : Cmd) : Prop := n.level < k.level ∨ n.level = k.level ∧ n.size < k.size

theorem wellFounded_lower : WellFounded Cmd.Lower := by
  refine Subrelation.wf ?_ (InvImage.wf (fun k : Cmd => (k.level, k.size))
    (wellFounded_lt.prod_lex wellFounded_lt))
  intro n k lower
  exact Prod.lex_def.mpr lower

/-- All of them are of lower levels. -/
def Cmd.below (k : Cmd) (new : List Cmd) : Bool := new.all fun n => n.level < k.level

/-- Everything that is left is lower. -/
def Lowers (k : Cmd) (new : List Cmd) : Prop := ∀ n ∈ new, n.Lower k

theorem lowers_of_below {k : Cmd} {new : List Cmd} (below : k.below new = true) :
    Lowers k new := by
  intro n membership
  have less := List.all_eq_true.mp below n membership
  exact .inl (of_decide_eq_true less)

theorem Lowers.cons {k n : Cmd} {new : List Cmd} (lower : n.Lower k) (rest : Lowers k new) :
    Lowers k (n :: new) :=
  List.forall_mem_cons.mpr ⟨lower, rest⟩

theorem lowers_nil (k : Cmd) : Lowers k [] := by
  intro n membership
  cases membership

/-! ## Rounds -/

/-- The loop heads of the three kinds of threads. -/
def Cmd.isLoop : Cmd → Bool
  | .own .recvLoop | .limit .acceptLoop | .sess .monitorLoop => true
  | _ => false

/-- The call, as if it had not slept. -/
def Database.CallState.awake : Database.CallState → Database.CallState
  | .enter _ => .enter none
  | .joined id myGen _ => .joined id myGen 0
  | state => state

/-- The command, as if it had not slept. -/
def Cmd.awake : Cmd → Cmd
  | .db (.createUser name derived saltHex stored _) =>
      .db (.createUser name derived saltHex stored none)
  | .db (.insertRow room ts _) => .db (.insertRow room ts none)
  | .db (.insertOffline m target _) => .db (.insertOffline m target none)
  | .db (.markDelivered name id rest _) => .db (.markDelivered name id rest none)
  | .db (.insertRoomMsg m room roomId state) => .db (.insertRoomMsg m room roomId state.awake)
  | .db (.insertPrivateMsg m state) => .db (.insertPrivateMsg m state.awake)
  | k => k

/-- The head of a loop is run, or a section falls asleep and is to be run again. -/
def Cmd.Round (k : Cmd) (new : List Cmd) : Prop :=
  k.isLoop = true ∨ ∃ again, new = [again] ∧ again.awake = k.awake

/-- A round starts, or everything that is left is lower. -/
def Winds (k : Cmd) (new : List Cmd) : Prop := k.Round new ∨ Lowers k new

theorem winds_of_below {k : Cmd} {new : List Cmd} (below : k.below new = true) : Winds k new :=
  .inr (lowers_of_below below)

variable {st : Startup} {s : ChatServer} {c : ConnId} {e : Ext}

theorem winds_runOwn {k : OwnCmd} (other : k ≠ .frames) :
    Winds (.own k) (runOwn st s c e k).next := by
  cases k with
  | recvLoop => exact .inl (.inl rfl)
  | frames => exact absurd rfl other
  | sendChallenge user saltHex isRegister =>
      refine winds_of_below ?_
      simp only [runOwn, sendChallenge]
      split <;> rfl
  | doRegister obj =>
      refine winds_of_below ?_
      simp only [runOwn, doRegister]
      repeat' split
      all_goals rfl
  | doLogin obj =>
      refine winds_of_below ?_
      simp only [runOwn, doLogin]
      repeat' split
      all_goals rfl
  | doCreate obj =>
      refine winds_of_below ?_
      simp only [runOwn, doCreate]
      split <;> rfl

theorem winds_runLimit (k : LimitCmd) : Winds (.limit k) (runLimit st s c e k).next := by
  cases k with
  | acceptLoop => exact .inl (.inl rfl)
  | doRegisterHello obj | doLoginHello obj =>
      refine winds_of_below ?_
      simp only [runLimit, doRegisterHello, doLoginHello, doHello]
      repeat' split
      all_goals rfl
  | doMessage obj =>
      refine winds_of_below ?_
      simp only [runLimit, doMessage]
      repeat' split
      all_goals rfl

theorem winds_runToken (k : TokenCmd) : Winds (.token k) (runToken st s c e k).next := by
  refine winds_of_below ?_
  cases k with
  | doAuth obj =>
      simp only [runToken, doAuth]
      repeat' split
      all_goals rfl
  | issueLogin name | issueAuth name old => rfl

/-- A command for each connection of a list is lower when one is, whatever the list. -/
theorem lowers_map {k : Cmd} {f : ConnId → Cmd} (conns : List ConnId)
    (lower : ∀ v, k.below [f v] = true) : Lowers k (conns.map f) := by
  intro n membership
  obtain ⟨v, -, rfl⟩ := List.mem_map.mp membership
  exact lowers_of_below (lower v) _ (List.mem_singleton.mpr rfl)

theorem Lowers.append {k : Cmd} {first second : List Cmd} (one : Lowers k first)
    (two : Lowers k second) : Lowers k (first ++ second) :=
  List.forall_mem_append.mpr ⟨one, two⟩

theorem winds_runSess (k : SessCmd) : Winds (.sess k) (runSess st s c e k).next := by
  cases k with
  | monitorLoop => exact .inl (.inl rfl)
  | monitorDrain =>
      exact .inr (Lowers.append (lowers_map _ fun _ => rfl) (lowers_of_below rfl))
  | roomConns names obj exclude => exact .inr (lowers_map _ fun _ => rfl)
  | checkLogin name =>
      refine winds_of_below ?_
      simp only [runSess, checkLogin]
      split <;> rfl
  | dropConn v notifyRoom =>
      refine winds_of_below ?_
      simp only [runSess, dropConn]
      repeat' split
      all_goals rfl
  | findTarget m =>
      refine winds_of_below ?_
      simp only [runSess, findTarget]
      split <;> rfl
  | _ => exact winds_of_below rfl

theorem winds_runRouter (k : RouterCmd) : Winds (.router k) (runRouter s c e k).next := by
  refine winds_of_below ?_
  cases k with
  | finishRoom name old =>
      simp only [runRouter, finishRoom]
      cases old <;> dsimp only <;> split <;> rfl
  | joinRoom room =>
      simp only [runRouter, joinRoom]
      repeat' split
      all_goals rfl
  | doJoin obj =>
      simp only [runRouter, doJoin]
      repeat' split
      all_goals rfl
  | doLeave =>
      simp only [runRouter, doLeave]
      split <;> rfl
  | doHist obj =>
      simp only [runRouter, doHist]
      split <;> rfl
  | histRoomId room cur =>
      simp only [runRouter, histRoomId]
      repeat' split
      all_goals rfl
  | routeRoom m =>
      simp only [runRouter, routeRoom]
      split <;> rfl
  | _ => rfl

/-- A section behind `wait_tx_idle` falls asleep, or does what it is there for. -/
theorem winds_whenTxIdle {k : DbCmd} {since : Option Nat} {again : Option Nat → DbCmd}
    {go r : Effect (Database Origin) DbEvent} (ran : s.whenTxIdle e since again go = some r)
    (same : ∀ since, (Cmd.db (again since)).awake = (Cmd.db k).awake)
    (goes : Lowers (.db k) go.next) : Winds (.db k) r.next := by
  rcases next_whenTxIdle ran with rfl | ⟨n, rfl⟩
  · exact .inr goes
  · exact .inl (.inr ⟨_, rfl, same (some n)⟩)

/-- A section of an insert sleeps on, or brings the call nearer to its end. -/
theorem remaining_advance {db db' : Database Origin} {row : Message Origin} {out : SqlOutcome}
    {state state' : Database.CallState}
    (advanced : db.advance bumpGen row out state = some (db', .goes state')) :
    state'.awake = state.awake ∨ state'.remaining < state.remaining := by
  cases state with
  | start =>
      obtain ⟨-, ⟨⟩⟩ := Prod.mk.inj (Option.some.inj advanced)
      exact .inr (by decide)
  | enter since =>
      simp only [Database.advance] at advanced
      split at advanced
      · cases advanced
      · obtain ⟨-, goes⟩ := Prod.mk.inj (Option.some.inj advanced)
        obtain rfl := Database.Progress.goes.inj goes
        cases entered : (db.enterBatchLocked out).1 with
        | full => exact .inl rfl
        | alone => exact .inr Nat.two_pos
        | joiner myGen =>
            refine .inr ?_
            simp only [Database.insertEntered]
            repeat' split
            all_goals simp [Database.CallState.remaining]
        | starter myGen =>
            refine .inr ?_
            simp only [Database.insertEntered]
            repeat' split
            all_goals simp [Database.CallState.remaining]
  | joined id myGen since =>
      simp only [Database.advance] at advanced
      split at advanced
      · cases advanced
      · split at advanced
        · obtain ⟨-, ⟨⟩⟩ := Prod.mk.inj (Option.some.inj advanced)
          exact .inl rfl
        · obtain ⟨-, ⟨⟩⟩ := Prod.mk.inj (Option.some.inj advanced)
          exact .inr (by simp [Database.CallState.remaining])
  | window id myGen =>
      obtain ⟨-, ⟨⟩⟩ := Prod.mk.inj (Option.some.inj advanced)
      exact .inr (by simp [Database.CallState.remaining])
  | leave id =>
      obtain ⟨-, ⟨⟩⟩ := Prod.mk.inj (Option.some.inj advanced)

/-- A section of an insert that is to be stored by the commands of `stored`. -/
theorem winds_insertMsg {k : DbCmd} {m : ChatMsg} {row : Message Origin}
    {state : Database.CallState} {again : Database.CallState → DbCmd} {stored : List Cmd}
    {r : Effect (Database Origin) DbEvent}
    (ran : insertMsg s e m row state again stored = some r)
    (onward : ∀ state', state'.awake = state.awake ∨ state'.remaining < state.remaining →
      Winds (.db k) [.db (again state')])
    (refused : ∀ reason, Lowers (.db k) [.io (.refuse m reason)])
    (done : Lowers (.db k) stored) : Winds (.db k) r.next := by
  rcases next_insertMsg ran with ⟨db, state', advanced, -, next⟩ | ⟨db, id, -, -, -, ends⟩
  · rw [next]
    exact onward state' (remaining_advance advanced)
  · rcases ends with ⟨-, reason, next⟩ | ⟨-, next⟩
    · rw [next]
      exact .inr (refused reason)
    · rw [next]
      exact .inr done

theorem winds_runDb {k : DbCmd} {r : Effect (Database Origin) DbEvent}
    (ran : runDb st s c e k = some r) : Winds (.db k) r.next := by
  cases k with
  | findHello name isRegister =>
      obtain rfl := Option.some.inj ran
      refine winds_of_below ?_
      unfold findHello
      dsimp only
      split <;> rfl
  | findLogin name proof nonceHex =>
      obtain rfl := Option.some.inj ran
      refine winds_of_below ?_
      simp only [findLogin]
      repeat' split
      all_goals rfl
  | createUser name derived saltHex stored since =>
      refine winds_whenTxIdle ran (fun _ => rfl) (lowers_of_below ?_)
      split <;> rfl
  | insertRow room ts since =>
      refine winds_whenTxIdle ran (fun _ => rfl) (lowers_of_below ?_)
      split <;> rfl
  | doInbox obj =>
      obtain rfl := Option.some.inj ran
      refine winds_of_below ?_
      simp only [doInbox]
      repeat' split
      all_goals rfl
  | findReceiver m =>
      obtain rfl := Option.some.inj ran
      refine winds_of_below ?_
      simp only [findReceiver]
      split <;> rfl
  | insertRoomMsg m room roomId state =>
      refine winds_insertMsg ran ?_ (fun _ => lowers_of_below rfl) (lowers_of_below rfl)
      rintro state' (same | nearer)
      · exact .inl (.inr ⟨_, rfl, by simp only [Cmd.awake, same]⟩)
      · exact .inr (.cons (.inr ⟨rfl, nearer⟩) (lowers_nil _))
  | insertPrivateMsg m state =>
      refine winds_insertMsg ran ?_ (fun _ => lowers_of_below rfl) (lowers_of_below rfl)
      rintro state' (same | nearer)
      · exact .inl (.inr ⟨_, rfl, by simp only [Cmd.awake, same]⟩)
      · exact .inr (.cons (.inr ⟨rfl, nearer⟩) (lowers_nil _))
  | insertOffline m target since =>
      refine winds_whenTxIdle ran (fun _ => rfl) (lowers_of_below ?_)
      cases target <;> rfl
  | markDelivered name id rest since =>
      refine winds_whenTxIdle ran (fun _ => rfl) (.cons (.inr ⟨rfl, ?_⟩) (lowers_nil _))
      simp [Cmd.size]
  | _ =>
      obtain rfl := Option.some.inj ran
      exact winds_of_below rfl

theorem winds_runIo {k : IoCmd} {r : Effect (ConnId → SendSide) IoEvent}
    (ran : runIo st s c e k = some r) : Winds (.io k) r.next := by
  cases k with
  | handleClient =>
      obtain ⟨-, -, tls, rfl | rfl⟩ := starts_handleClient ran
      · exact winds_of_below rfl
      · exact winds_of_below rfl
  | pushRows name rows =>
      cases rows with
      | nil =>
          obtain rfl := Option.some.inj ran
          exact winds_of_below rfl
      | cons row rest =>
          obtain rfl := Option.some.inj ran
          simp only [sendSection]
          split
          · refine .inr (.cons (.inr ⟨rfl, ?_⟩) (lowers_nil _))
            simp [Cmd.size]
            omega
          · exact winds_of_below rfl
  | relayEach m room targets =>
      cases targets with
      | nil =>
          obtain rfl := Option.some.inj ran
          exact winds_of_below rfl
      | cons v rest =>
          obtain rfl := Option.some.inj ran
          have onward : Cmd.Lower (.io (.relayEach m room rest)) (.io (.relayEach m room (v :: rest))) :=
            .inr ⟨rfl, by simp [Cmd.size]⟩
          have drops : Cmd.Lower (.sess (.dropConn v true)) (.io (.relayEach m room (v :: rest))) :=
            lowers_of_below rfl _ (List.mem_singleton.mpr rfl)
          simp only [sendSection]
          split
          · exact .inr (.cons onward (lowers_nil _))
          · exact .inr (.cons drops (.cons onward (lowers_nil _)))
  | _ =>
      obtain rfl := Option.some.inj ran
      simp only [sendSection]
      refine winds_of_below ?_
      split <;> rfl

theorem winds_checkAndAdd (m : ChatMsg) : Winds (.checkAndAdd m) (s.checkAndAdd m).2.2 := by
  refine winds_of_below ?_
  unfold ChatServer.checkAndAdd
  split
  · rfl
  · dsimp only
    repeat' split
    all_goals rfl

/-! ## The program -/

variable {w w' : World} {t t' : Thread} {k : Cmd} {new : List Cmd}

theorem winds_run (ran : w.run st c e k = some (w', new)) (other : k ≠ .own .frames) :
    Winds k new := by
  cases k with
  | own k =>
      obtain ⟨-, rfl⟩ := Prod.mk.inj (Option.some.inj ran)
      refine winds_runOwn ?_
      rintro rfl
      exact other rfl
  | limit k =>
      obtain ⟨-, rfl⟩ := Prod.mk.inj (Option.some.inj ran)
      exact winds_runLimit k
  | token k =>
      obtain ⟨-, rfl⟩ := Prod.mk.inj (Option.some.inj ran)
      exact winds_runToken k
  | sess k =>
      obtain ⟨-, rfl⟩ := Prod.mk.inj (Option.some.inj ran)
      exact winds_runSess k
  | router k =>
      obtain ⟨-, rfl⟩ := Prod.mk.inj (Option.some.inj ran)
      exact winds_runRouter k
  | db k =>
      obtain ⟨r, step, result⟩ := Option.map_eq_some_iff.mp ran
      obtain ⟨-, rfl⟩ := Prod.mk.inj result
      exact winds_runDb step
  | io k =>
      obtain ⟨r, step, result⟩ := Option.map_eq_some_iff.mp ran
      obtain ⟨-, rfl⟩ := Prod.mk.inj result
      exact winds_runIo step
  | checkAndAdd m =>
      obtain ⟨-, rfl⟩ := Prod.mk.inj (Option.some.inj ran)
      exact winds_checkAndAdd m

/-- The bytes that have arrived on the connection of a thread and are still to be looked at. -/
def unread (t : Thread) (w : World) : ℕ :=
  if t.isClient then (w.server.clients t.conn).reader.buf.length else 0

theorem unread_congr (t : Thread) (same : w'.server.clients = w.server.clients) :
    unread t w' = unread t w := by
  unfold unread
  rw [same]

/-- A body that is taken out leaves a shorter buffer; otherwise it stays as it is. -/
theorem FrameReader.next_buf (r : FrameReader) :
    (r.next.1 = none ∧ r.next.2.buf = r.buf) ∨ r.next.2.buf.length < r.buf.length := by
  unfold FrameReader.next
  split
  · exact .inl ⟨rfl, rfl⟩
  rcases buf : r.buf with _ | ⟨b0, _ | ⟨b1, _ | ⟨b2, _ | ⟨b3, rest⟩⟩⟩⟩
  · exact .inl ⟨rfl, buf⟩
  · exact .inl ⟨rfl, buf⟩
  · exact .inl ⟨rfl, buf⟩
  · exact .inl ⟨rfl, buf⟩
  · dsimp only
    generalize announced b0 b1 b2 b3 = len
    split
    · exact .inl ⟨rfl, rfl⟩
    · split
      · exact .inl ⟨rfl, buf⟩
      · refine .inr ?_
        simp only [List.length_drop, List.length_cons]
        omega

/-- Handlers do not touch the buffer. -/
theorem reader_runOwn {k : OwnCmd} (other : k ≠ .frames) (loop : k ≠ .recvLoop) :
    (runOwn st s c e k).state.reader = (s.clients c).reader := by
  cases k with
  | recvLoop => exact absurd rfl loop
  | frames => exact absurd rfl other
  | sendChallenge user saltHex isRegister =>
      simp only [runOwn, sendChallenge]
      split <;> rfl
  | doRegister obj =>
      simp only [runOwn, doRegister]
      repeat' split
      all_goals rfl
  | doLogin obj =>
      simp only [runOwn, doLogin]
      repeat' split
      all_goals rfl
  | doCreate obj => rfl

/-- A round of the loop over the frames takes a frame out, or hands over to a lower command. -/
theorem winds_frames :
    ((frames s c e).state.reader.buf.length < (s.clients c).reader.buf.length) ∨
      (frames s c e).state.reader.buf = (s.clients c).reader.buf ∧
        Lowers (.own .frames) (frames s c e).next := by
  have shorter := (s.clients c).reader.next_buf
  unfold frames
  dsimp only
  split
  next body reader taken =>
    rw [taken] at shorter
    rcases shorter with ⟨⟨⟩, -⟩ | shorter
    exact .inl shorter
  next reader none =>
    rw [none] at shorter
    rcases shorter with ⟨-, same⟩ | shorter
    · refine .inr ⟨same, lowers_of_below ?_⟩
      split <;> rfl
    · exact .inl shorter

/-- No command of another thread touches the buffer of a connection. -/
theorem unread_of_ne (ran : (server st).exec t' e k w = some (w', new)) (other : t' ≠ t) :
    unread t w' = unread t w := by
  obtain ⟨here, ran⟩ := exec_eq_some_iff.mp ran
  by_cases own : ∃ k', k = .own k'
  · obtain ⟨k, rfl⟩ := own
    rw [← (Prod.mk.inj (Option.some.inj ran)).1]
    have client' : t'.isClient = true := by cases k <;> exact here
    unfold unread
    split
    next client =>
      dsimp only
      rw [Function.update_of_ne]
      intro same
      exact other (Thread.eq_of_conn client' client same.symm)
    next => rfl
  · refine unread_congr t (clients_run ran ?_)
    rintro k' rfl
    exact own ⟨k', rfl⟩

/-- What a command of the own client leaves in the buffer. -/
theorem unread_own {k : OwnCmd} (here : Cmd.runsOn (.own k) t = true)
    (ran : w.run st t.conn e (.own k) = some (w', new)) :
    unread t w' = (runOwn st w.server t.conn e k).state.reader.buf.length := by
  have client : t.isClient = true := by cases k <;> exact here
  rw [← (Prod.mk.inj (Option.some.inj ran)).1]
  unfold unread
  rw [if_pos client]
  dsimp only
  rw [Function.update_self]

/-- A step of a thread starts a round, shortens its buffer, or leaves lower commands. -/
theorem winds_own (ran : (server st).exec t e k w = some (w', new)) :
    k.Round new ∨ unread t w' < unread t w ∨
      (unread t w' ≤ unread t w ∧ ∀ n ∈ new, n.Lower k) := by
  obtain ⟨here, ran⟩ := exec_eq_some_iff.mp ran
  by_cases own : ∃ k', k = .own k'
  · obtain ⟨k, rfl⟩ := own
    have after := unread_own here ran
    have client : t.isClient = true := by cases k <;> exact here
    have before : unread t w = (w.server.clients t.conn).reader.buf.length := if_pos client
    by_cases isFrames : k = .frames
    · subst isFrames
      obtain ⟨-, rfl⟩ := Prod.mk.inj (Option.some.inj ran)
      rw [after, before]
      rcases @winds_frames w.server t.conn e with shorter | ⟨same, lower⟩
      · exact .inr (.inl shorter)
      · exact .inr (.inr ⟨(congrArg List.length same).le, lower⟩)
    · by_cases loop : k = .recvLoop
      · subst loop
        exact .inl (.inl rfl)
      rcases winds_run ran (fun same => isFrames (Cmd.own.inj same)) with round | lower
      · exact .inl round
      · rw [after, before, reader_runOwn isFrames loop]
        exact .inr (.inr ⟨Nat.le_refl _, lower⟩)
  · have others (k' : OwnCmd) : k ≠ .own k' := by
      rintro rfl
      exact own ⟨k', rfl⟩
    rcases winds_run ran (others _) with round | lower
    · exact .inl round
    · exact .inr (.inr ⟨(unread_congr t (clients_run ran others)).le, lower⟩)

theorem windsDown (st : Startup) (t : Thread) :
    (server st).WindsDown t Cmd.Lower (unread t) Cmd.Round where
  own _ _ _ _ _ ran := winds_own ran
  other _ _ _ _ _ _ other ran := (unread_of_ne ran other).le

/-- In every infinite run of the server, from any state, whatever the clients send and however
the threads are interleaved: a thread that acts again and again comes back to the head of its
loop, or falls asleep in the database, infinitely often.  No request keeps a thread busy
forever. -/
theorem rounds_of_run {run : ℕ → Config Thread Cmd World} {who : ℕ → Thread}
    (forever : (server st).RunsForever run who) (acts : ∃ᶠ n in atTop, who n = t) :
    ∃ᶠ n in atTop, StartsRound Cmd.Round run who t n :=
  (windsDown st t).frequently_startsRound wellFounded_lower forever acts

namespace Demo

/-- The body of a PING. -/
def ping : Bytes := serialize ⟨[(bytes "type", .str (bytes "PING"))]⟩

/-- Where the thread of a connection stands while PINGs arrive, and what is in its buffer. -/
inductive Ponging (c : ConnId) : ℕ → List Cmd → FrameReader → Prop where
  | receives : Ponging c 0 [.own .recvLoop] {}
  | takes : Ponging c 1 [.own .frames] { buf := makeWireFrame ping }
  | answers (obj : Object) : Ponging c 2 [.io (.sendFrame c obj), .own .frames] {}
  | looks : Ponging c 3 [.own .frames] {}

theorem handleBody_ping (s : ChatServer) (c : ConnId) (e : Ext) :
    ∃ obj, handleBody s c e ping = ([.io (.sendFrame c obj)], false) := by
  have asks : (match parse ping with
      | .ok obj => decide (obj.getStr (bytes "type") = bytes "PING")
      | .error _ => false) = true := by decide +kernel
  unfold handleBody
  cases parsed : parse ping with
  | error raised => simp [parsed] at asks
  | ok obj =>
      have type : obj.getStr (bytes "type") = bytes "PING" := by simpa [parsed] using asks
      dsimp only
      rw [if_pos type]
      exact ⟨_, rfl⟩

theorem next_ping : ({ buf := makeWireFrame ping } : FrameReader).next = (some ping, {}) :=
  FrameReader.next_frame rfl (List.append_nil _).symm (by decide +kernel) (by decide +kernel)

/-- A step of the thread in a section of its own. -/
theorem fire_own (c : ConnId) (e : Ext) {cfg : Config Thread Cmd World} {k : OwnCmd}
    (stack : cfg.stack (.client c) = .own k :: rest) :
    ∃ cfg', (server startup).fire (.client c) e cfg = some cfg' ∧
      cfg'.stack (.client c) = (runOwn startup cfg.shared.server c e k).next ++ rest ∧
      cfg'.shared.server.clients c = (runOwn startup cfg.shared.server c e k).state := by
  have here : Cmd.runsOn (.own k) (.client c) = true := by cases k <;> rfl
  refine ⟨_, (server startup).fire_eq_some_iff.mpr
    ⟨_, _, _, _, stack, exec_eq_some_iff.mpr ⟨here, rfl⟩, rfl⟩, ?_, ?_⟩
  · simp [Thread.conn]
  · simp [Thread.conn]

/-- One step of the thread. -/
theorem Ponging.step {c : ConnId} {p : ℕ} {cfg : Config Thread Cmd World}
    (here : Ponging c p (cfg.stack (.client c)) (cfg.shared.server.clients c).reader) :
    ∃ e cfg', (server startup).fire (.client c) e cfg = some cfg' ∧
      Ponging c ((p + 1) % 4) (cfg'.stack (.client c)) (cfg'.shared.server.clients c).reader := by
  generalize stack : cfg.stack (.client c) = cmds at here
  generalize reader : (cfg.shared.server.clients c).reader = r at here
  cases here with
  | receives =>
      let arrives : Ext := { received := .data (makeWireFrame ping) }
      obtain ⟨cfg', fired, stack', client⟩ := fire_own c arrives stack
      refine ⟨arrives, cfg', fired, ?_⟩
      have fits : (makeWireFrame ping).take 4096 = makeWireFrame ping := by decide +kernel
      have some' : makeWireFrame ping ≠ [] := by decide +kernel
      have fed : (runOwn startup cfg.shared.server c arrives .recvLoop).next = [.own .frames] ∧
          (runOwn startup cfg.shared.server c arrives .recvLoop).state.reader =
            { buf := makeWireFrame ping } := by
        simp only [runOwn, recvLoop, arrives]
        rw [if_neg some', fits]
        exact ⟨rfl, by rw [reader]; rfl⟩
      rw [stack', client, fed.1, fed.2]
      exact .takes
  | takes =>
      obtain ⟨cfg', fired, stack', client⟩ := fire_own c {} stack
      refine ⟨{}, cfg', fired, ?_⟩
      obtain ⟨obj, handled⟩ := handleBody_ping cfg.shared.server c {}
      have taken : (cfg.shared.server.clients c).reader.next = (some ping, {}) := by
        rw [reader]
        exact next_ping
      rw [stack', client]
      simp only [runOwn, frames, taken, handled]
      exact .answers obj
  | answers obj =>
      obtain ⟨sides, ran⟩ := exists_sides_of_sendFrame startup c {} cfg.shared c obj
      refine ⟨{}, _, (server startup).fire_eq_some_iff.mpr ⟨_, _, _, [], stack, ran, rfl⟩, ?_⟩
      dsimp only
      rw [Function.update_self, reader]
      exact .looks
  | looks =>
      obtain ⟨cfg', fired, stack', client⟩ := fire_own c {} stack
      refine ⟨{}, cfg', fired, ?_⟩
      have silent : (cfg.shared.server.clients c).reader.next = (none, {}) := by
        rw [reader]
        rfl
      rw [stack', client]
      simp only [runOwn, frames, silent]
      exact .receives

/-- The thread of connection 1 is at that place of its loop. -/
def PongsAt (n : ℕ) (cfg : Config Thread Cmd World) : Prop :=
  Ponging 1 (n % 4) (cfg.stack (.client 1)) (cfg.shared.server.clients 1).reader

theorem PongsAt.next (n : ℕ) (cfg : Config Thread Cmd World) (here : PongsAt n cfg) :
    ∃ e cfg', (server startup).fire (.client 1) e cfg = some cfg' ∧ PongsAt (n + 1) cfg' := by
  obtain ⟨e, cfg', fired, next⟩ := Ponging.step here
  rw [Nat.mod_add_mod] at next
  exact ⟨e, cfg', fired, next⟩

/-- The thread of connection 1 waits for its first frame. -/
def waits (cfg : Config Thread Cmd World) : Bool :=
  let reader := (cfg.shared.server.clients 1).reader
  match cfg.stack (.client 1), reader.buf with
  | [.own .recvLoop], [] => decide (reader.maxFrame = kMaxFrame) && !reader.failed
  | _, _ => false

theorem pongsAt_of_waits {cfg : Config Thread Cmd World} (waiting : waits cfg = true) :
    PongsAt 0 cfg := by
  unfold PongsAt
  unfold waits at waiting
  generalize (cfg.shared.server.clients 1).reader = reader at waiting ⊢
  obtain ⟨buf, maxFrame, failed⟩ := reader
  dsimp only at waiting
  split at waiting
  next stack =>
    obtain ⟨full, alive⟩ := Bool.and_eq_true_iff.mp waiting
    obtain rfl := of_decide_eq_true full
    obtain rfl := Bool.not_eq_true' _ |>.mp alive
    rw [stack]
    exact .receives
  next => cases waiting

/-- Connection 1 sends PINGs forever: between two calls of `recv` its thread takes the frame,
sends the PONG and looks for another frame. -/
theorem rounds_of_run_pinging :
    ∃ run, (server startup).RunsForever run (fun _ => .client 1) ∧
      (server startup).Reaches Program.always (start startup file {}) (run 0) ∧
      (∀ n, n % 4 = 2 → ∃ obj, (run n).stack (.client 1) =
        [.io (.sendFrame 1 obj), .own .frames]) ∧
      ∃ᶠ n in atTop, StartsRound Cmd.Round run (fun _ => .client 1) (.client 1) n := by
  obtain ⟨cfg, reached, checked⟩ := Program.exists_reaches_of_play (server startup)
    Program.always (connects 1) (start startup file {}) waits (by decide +kernel)
  have first : PongsAt 0 cfg := pongsAt_of_waits checked
  obtain ⟨run, starts, forever, ponging⟩ :
      ∃ run, run 0 = cfg ∧ (server startup).RunsForever run (fun _ => .client 1) ∧
        ∀ n, PongsAt n (run n) :=
    Program.exists_runsForever first PongsAt.next
  refine ⟨run, forever, starts ▸ reached, ?_,
    rounds_of_run forever (Frequently.of_forall fun _ => rfl)⟩
  intro n answers
  have here : Ponging 1 (n % 4) _ _ := ponging n
  rw [answers] at here
  generalize (run n).stack (.client 1) = stack at here ⊢
  generalize ((run n).shared.server.clients 1).reader = reader at here
  cases here with
  | answers obj => exact ⟨obj, rfl⟩

end Demo

end OnlineChat
