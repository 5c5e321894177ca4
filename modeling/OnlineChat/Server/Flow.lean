import OnlineChat.Server.Program

/-!
# The control flow of the server

Which command may wait above which in the stack of a thread, by which command each
command of interest is called and under which condition, and which part of the state
a command changes.
-/

namespace OnlineChat

open Library MiniJson ChatServer

/-! ## Layers -/

/-- `loop` waits above nothing, `handler` above a loop only, `chain` also above a
service, and a `service` above anything. -/
inductive Layer where
  | loop
  | handler
  | chain
  | service
  deriving DecidableEq

def Layer.above : Layer → Layer → Bool
  | loop, _ => false
  | handler, l => l = loop
  | chain, l => l = loop || l = service
  | service, _ => true

def Cmd.layer : Cmd → Layer
  | .own .recvLoop | .own .frames | .limit .acceptLoop | .sess (.acceptInstall _ _)
  | .sess .monitorLoop | .sess .monitorDrain | .io .handleClient => .loop
  | .router (.broadcastRoomRelay _ _) | .sess (.relayConns _ _ _) | .io (.relayEach _ _ _)
  | .sess (.findTarget _) | .io (.relayTarget _ _) | .db (.insertOffline _ _ _)
  | .db (.pushOffline _) | .io (.pushRows _ _) | .db (.markDelivered _ _ _ _) => .chain
  | .sess (.dropConn _ _) | .sess (.roomConns _ _ _) | .router (.broadcastRoomSystem _ _ _)
  | .router (.broadcastRoomUserlist _) | .router (.userlistConns _ _)
  | .router (.sendJoinState _) | .router (.finishRoom _ _) | .io (.sendFrame _ _)
  | .io (.sendAck _) | .io (.drainSlow _) | .io (.closeConn _) => .service
  | _ => .handler

/-- `k` may wait above `lower` in a stack. -/
def Above (k lower : Cmd) : Prop := k.layer.above lower.layer = true

/-- Whatever waits below `k` may wait below `n`. -/
def Layer.inherits (k n : Layer) : Bool :=
  [loop, handler, chain, service].all fun l => !k.above l || n.above l

/-- The layers of what a command of layer `k` leaves are in order. -/
def Layer.ordered (k : Layer) : List Layer → Bool
  | [] => true
  | n :: ns => k.inherits n && ns.all n.above && ordered k ns

theorem Layer.above_of_inherits {k n l : Layer} (inherits : k.inherits n = true)
    (above : k.above l = true) : n.above l = true := by
  revert inherits above
  cases k <;> cases n <;> cases l <;> decide

/-- What `k` leaves to be run stands in the order of the layers. -/
def Ordered (k : Cmd) (new : List Cmd) : Prop :=
  k.layer.ordered (new.map Cmd.layer) = true

theorem Ordered.pairwise {k : Cmd} {new : List Cmd} (ordered : Ordered k new) :
    new.Pairwise Above ∧ ∀ n ∈ new, ∀ lower, Above k lower → Above n lower := by
  induction new with
  | nil => simp
  | cons n new inductionHypothesis =>
      simp only [Ordered, List.map_cons, Layer.ordered, Bool.and_eq_true, List.all_map,
        List.all_eq_true] at ordered
      obtain ⟨⟨first, above⟩, rest⟩ := ordered
      obtain ⟨pairwise, inherits⟩ := inductionHypothesis rest
      refine ⟨List.pairwise_cons.mpr ⟨above, pairwise⟩, ?_⟩
      intro n' membership lower waiting
      rcases List.mem_cons.mp membership with rfl | later
      · exact Layer.above_of_inherits first waiting
      · exact inherits n' later lower waiting

/-- Services above something that may wait below a service. -/
theorem Ordered.services {k : Cmd} {services rest : List Cmd} (rests : Ordered k rest)
    (all : ∀ n ∈ services, n.layer = .service) : Ordered k (services ++ rest) := by
  induction services with
  | nil => exact rests
  | cons n services inductionHypothesis =>
      have service : n.layer = .service := all n (by simp)
      have inherits : k.layer.inherits .service = true := by cases k.layer <;> rfl
      have above : ∀ l : Layer, Layer.service.above l = true := fun _ => rfl
      have rest := inductionHypothesis fun n' membership => all n' (by simp [membership])
      simp only [Ordered, List.cons_append, List.map_cons, Layer.ordered, service, inherits,
        Bool.true_and, Bool.and_eq_true, List.all_eq_true]
      exact ⟨fun l _ => above l, rest⟩

/-! ## Callers -/

/-- `n` is left to be run by `k`, when it is one of the commands of which something is
asserted while they wait. -/
def CalledBy (st : Startup) (s : ChatServer) (c : ConnId) (e : Ext) (k : Cmd) : Cmd → Prop
  | .io .handleClient => False
  | .own (.sendChallenge name saltHex isRegister) =>
      k = .db (.findHello name isRegister) ∧ (isRegister = true → saltHex = [])
  | .db (.createUser name derived saltHex stored _) =>
      (∃ obj ch, k = .own (.doRegister obj) ∧
        (takeChallenge (s.clients c).chal name true (e.clock 0)).1 = some ch ∧
        saltHex = ch.saltHex ∧ validUsername name = true ∧ decodes derived = true ∧
        stored = PwdHash.applyPepper st.hashes derived st.pepperHex name saltHex ∧ stored ≠ []) ∨
      ∃ since', k = .db (.createUser name derived saltHex stored since')
  | .db (.findLogin name proof nonceHex) =>
      ∃ obj ch, k = .own (.doLogin obj) ∧ s.sess.authed c = false ∧
        (takeChallenge (s.clients c).chal name false (e.clock 0)).1 = some ch ∧
        nonceHex = ch.nonceHex ∧ proof.length = 64 ∧
        (doLogin s c e obj).events = [.taken c false name nonceHex (e.clock 0)]
  | .sess (.checkLogin name) => ∃ proof nonceHex, k = .db (.findLogin name proof nonceHex)
  | .token (.issueLogin name) => k = .sess (.checkLogin name) ∧ s.sess.online name = none
  | .sess (.installLogin name _ _) => k = .token (.issueLogin name)
  | .sess (.installAuth _) => ∃ obj, k = .token (.doAuth obj) ∧ s.sess.authed c = false
  | .token (.issueAuth name _) => k = .sess (.installAuth name)
  | .router (.joinRoom room) =>
      ∃ obj, k = .router (.doJoin obj) ∧ validRoomName room = true
  | .limit (.doMessage obj) =>
      k = .own .frames ∧ s.sess.authed c = true ∧
        obj.getStr (bytes "type") = bytes "MESSAGE" ∧
        ∃ body reader, (s.clients c).reader.next = (some body, reader) ∧ parse body = .ok obj
  | .checkAndAdd m => ∃ obj, k = .limit (.doMessage obj) ∧ m.sender = s.sess.username c
  | .router (.routeRoom m) => k = .checkAndAdd m ∧ s.dedup.seen m.sender m.seq = false
  | .router (.roomDbId m _) => k = .router (.routeRoom m)
  | .db (.insertRoomMsg m room roomId state) =>
      (k = .router (.roomDbId m room) ∧ state = .start) ∨
      ∃ state' db, k = .db (.insertRoomMsg m room roomId state') ∧
        s.db.advance bumpGen (roomRow c m roomId) e.sql state' = some (db, .goes state)
  | .router (.broadcastRoomRelay m room) =>
      ∃ roomId state db id, k = .db (.insertRoomMsg m room roomId state) ∧
        s.db.advance bumpGen (roomRow c m roomId) e.sql state = some (db, .returns id) ∧ 0 ≤ id
  | .sess (.relayConns m room names) =>
      k = .router (.broadcastRoomRelay m room) ∧ names = s.router.members room
  | .io (.relayEach m room targets) =>
      (∃ names, k = .sess (.relayConns m room names) ∧ targets = names.filterMap s.sess.online) ∨
      ∃ v, k = .io (.relayEach m room (v :: targets))
  | .db (.findReceiver m) => k = .checkAndAdd m ∧ s.dedup.seen m.sender m.seq = false
  | .db (.insertPrivateMsg m state) =>
      (k = .db (.findReceiver m) ∧ state = .start) ∨
      ∃ state' db, k = .db (.insertPrivateMsg m state') ∧
        s.db.advance bumpGen (privateRow c m) e.sql state' = some (db, .goes state)
  | .sess (.findTarget m) =>
      ∃ state db id, k = .db (.insertPrivateMsg m state) ∧
        s.db.advance bumpGen (privateRow c m) e.sql state = some (db, .returns id) ∧ 0 ≤ id
  | .io (.relayTarget m v) =>
      k = .sess (.findTarget m) ∧ s.sess.online m.receiver = some v
  | .db (.insertOffline m _ _) =>
      k = .sess (.findTarget m) ∨ (∃ v, k = .io (.relayTarget m v)) ∨
        ∃ target since', k = .db (.insertOffline m target since')
  | .io (.sendAck seq) =>
      (∃ m, k = .checkAndAdd m ∧ seq = m.seq ∧ s.dedup.seen m.sender m.seq = true) ∨
      (∃ m room roomId state db id, k = .db (.insertRoomMsg m room roomId state) ∧ seq = m.seq ∧
        s.db.advance bumpGen (roomRow c m roomId) e.sql state = some (db, .returns id) ∧
        0 ≤ id) ∨
      ∃ m state db id, k = .db (.insertPrivateMsg m state) ∧ seq = m.seq ∧
        s.db.advance bumpGen (privateRow c m) e.sql state = some (db, .returns id) ∧ 0 ≤ id
  | .io (.refuse m _) =>
      k = .checkAndAdd m ∨ k = .router (.routeRoom m) ∨ k = .db (.findReceiver m) ∨
        (∃ room roomId state, k = .db (.insertRoomMsg m room roomId state)) ∨
        ∃ state, k = .db (.insertPrivateMsg m state)
  | .io (.pushRows name rows) =>
      (k = .db (.pushOffline name) ∧ rows = s.db.undelivered name e.sql) ∨
      ∃ id since, k = .db (.markDelivered name id rows since)
  | .db (.markDelivered name id rest _) =>
      (∃ row, k = .io (.pushRows name (row :: rest)) ∧ id = row.id) ∨
      ∃ since', k = .db (.markDelivered name id rest since')
  | _ => True

variable {st : Startup} {s : ChatServer} {c : ConnId} {e : Ext}

/-- The thread of an accepted connection receives, or ends it when the handshake fails. -/
theorem starts_handleClient {r : Effect (ConnId → SendSide) IoEvent}
    (ran : runIo st s c e .handleClient = some r) :
    c ≠ 0 ∧ c ≤ s.sess.nextId ∧ ∃ tls,
      r = { state := Function.update s.sides c { s.sides c with tls }
            next := [.own .recvLoop] } ∨
      r = { state := s.sides, next := [.sess (.dropConn c true), .io (.closeConn c)] } := by
  simp only [runIo, handleClient] at ran
  split at ran
  · cases ran
  next accepted =>
    simp only [not_or, Nat.not_lt] at accepted
    refine ⟨accepted.1, accepted.2, ?_⟩
    split at ran
    · obtain rfl := Option.some.inj ran
      refine ⟨(s.sides c).tls, .inl ?_⟩
      rw [Function.update_eq_self]
    · split at ran
      · exact ⟨true, .inl (Option.some.inj ran).symm⟩
      · exact ⟨true, .inr (Option.some.inj ran).symm⟩

/-- At most one handler is started. -/
def Starts (s : ChatServer) (c : ConnId) (e : Ext) (r : List Cmd × Bool) : Prop :=
  r.1 = [] ∨ ∃ n, r.1 = [n] ∧ n.layer.above .loop = true ∧ (r.2 = true → n.layer = .service) ∧
    ∀ st, CalledBy st s c e (.own .frames) n

theorem starts_handleBody {body : Bytes} {reader : FrameReader}
    (taken : (s.clients c).reader.next = (some body, reader)) :
    Starts s c e (handleBody s c e body) := by
  unfold handleBody
  cases parsed : parse body with
  | error => exact .inl rfl
  | ok obj =>
      dsimp only
      -- one goal for each type of frame
      repeat' (apply iteInduction <;> intro _)
      all_goals first
        | exact .inl rfl
        | refine .inr ⟨_, rfl, rfl, ?_, ?_⟩
          · first
              | exact fun _ => rfl
              | exact nofun
          · intro st
            first
              | exact trivial
              | refine ⟨rfl, ?_, ‹_›, body, reader, taken, parsed⟩
                simpa using ‹¬ ¬ _›

theorem events_doLogin {obj : Object} {ch : Challenge} (out : s.sess.authed c = false)
    (taken : (takeChallenge (s.clients c).chal (obj.getStr (bytes "from")) false (e.clock 0)).1 =
      some ch) :
    (doLogin s c e obj).events =
      [.taken c false (obj.getStr (bytes "from")) ch.nonceHex (e.clock 0)] := by
  unfold doLogin
  rw [if_neg (by simp [out])]
  simp only [taken]
  repeat' split
  all_goals rfl

/-- The only command that is left. -/
theorem called_one {k n : Cmd} (called : CalledBy st s c e k n) :
    ∀ n' ∈ [n], CalledBy st s c e k n' :=
  List.forall_mem_singleton.mpr called

theorem called_cons {k n : Cmd} {new : List Cmd} (called : CalledBy st s c e k n)
    (rest : ∀ n' ∈ new, CalledBy st s c e k n') : ∀ n' ∈ n :: new, CalledBy st s c e k n' :=
  List.forall_mem_cons.mpr ⟨called, rest⟩

/-- The notice to a room may be left by any command. -/
theorem called_leaveRoomNotify (k : Cmd) (name room : Bytes) :
    ∀ n ∈ leaveRoomNotify name room, CalledBy st s c e k n :=
  called_cons trivial (called_one trivial)

theorem calledBy_runOwn (k : OwnCmd) :
    ∀ n ∈ (runOwn st s c e k).next, CalledBy st s c e (.own k) n := by
  cases k with
  | recvLoop =>
      simp only [runOwn, recvLoop]
      repeat' split
      all_goals first
        | exact called_one trivial
        | exact called_cons trivial (called_one trivial)
  | frames =>
      simp only [runOwn, frames]
      split
      next body reader taken =>
        refine List.forall_mem_append.mpr ⟨?_, ?_⟩
        · rcases @starts_handleBody s c e _ _ taken with none | ⟨n', one, -, -, called⟩
          · rw [none]
            exact List.forall_mem_nil _
          · rw [one]
            exact called_one (called _)
        · split
          · exact called_cons trivial (called_one trivial)
          · exact called_one trivial
      next =>
        split
        · exact called_cons trivial (called_one trivial)
        · exact called_one trivial
  | sendChallenge user saltHex isRegister =>
      simp only [runOwn, sendChallenge]
      split <;> exact called_one trivial
  | doRegister obj =>
      unfold runOwn doRegister
      dsimp only
      split
      · simp [CalledBy, sendErr]
      · split
        · simp [CalledBy, sendErr]
        · repeat' split
          all_goals simp_all [CalledBy, sendErr]
  | doLogin obj =>
      unfold runOwn doLogin
      dsimp only
      split
      · simp [CalledBy, sendErr]
      next out =>
        split
        · simp [CalledBy, sendErr]
        next ch taken =>
          have events := events_doLogin (by simpa using out) taken
          repeat' split
          all_goals simp_all [CalledBy, sendErr]
  | doCreate obj =>
      simp only [runOwn, doCreate]
      split <;> exact called_one trivial

theorem calledBy_runLimit (k : LimitCmd) :
    ∀ n ∈ (runLimit st s c e k).next, CalledBy st s c e (.limit k) n := by
  cases k with
  | acceptLoop =>
      simp only [runLimit, acceptLoop]
      repeat' split
      all_goals exact called_one trivial
  | doRegisterHello obj | doLoginHello obj =>
      simp only [runLimit, doRegisterHello, doLoginHello, doHello]
      repeat' split
      all_goals exact called_one trivial
  | doMessage obj =>
      simp only [runLimit, doMessage]
      repeat' split
      all_goals first
        | exact called_one trivial
        | exact called_one ⟨obj, rfl, rfl⟩

theorem calledBy_runToken (k : TokenCmd) :
    ∀ n ∈ (runToken st s c e k).next, CalledBy st s c e (.token k) n := by
  cases k with
  | doAuth obj =>
      simp only [runToken, doAuth]
      split
      · exact called_one trivial
      next out =>
        split
        · exact called_one trivial
        · exact called_one ⟨obj, rfl, Bool.not_eq_true _ ▸ out⟩
  | issueLogin name => exact called_one rfl
  | issueAuth name old => exact called_one trivial

theorem calledBy_runSess (k : SessCmd) :
    ∀ n ∈ (runSess st s c e k).next, CalledBy st s c e (.sess k) n := by
  cases k with
  | acceptInstall ip port => exact called_one trivial
  | monitorLoop | monitorDrain =>
      simp only [runSess, monitorLoop, monitorDrain, List.mem_append, List.mem_map,
        List.mem_singleton]
      rintro n (⟨v, -, rfl⟩ | rfl) <;> trivial
  | checkLogin name =>
      simp only [runSess, checkLogin]
      split
      · exact called_one trivial
      next free => exact called_one ⟨rfl, free⟩
  | installLogin name token exp => exact called_one trivial
  | installAuth name => exact called_one rfl
  | dropConn v notifyRoom =>
      simp only [runSess, dropConn]
      repeat' split
      all_goals first
        | exact called_leaveRoomNotify _ _ _
        | exact List.forall_mem_nil _
  | roomConns names obj exclude =>
      simp only [runSess, roomConns, List.mem_map]
      rintro n ⟨v, -, rfl⟩
      trivial
  | relayConns m room names => exact called_one (.inl ⟨names, rfl, rfl⟩)
  | findTarget m =>
      simp only [runSess, findTarget]
      split
      next v there => exact called_one ⟨rfl, there⟩
      next => exact called_one (.inl rfl)

theorem calledBy_runRouter (k : RouterCmd) :
    ∀ n ∈ (runRouter s c e k).next, CalledBy st s c e (.router k) n := by
  cases k with
  | finishAuth name token exp old =>
      exact called_cons trivial (called_cons trivial (called_one trivial))
  | finishRoom name old =>
      simp only [runRouter, finishRoom]
      cases old <;> dsimp only <;> split <;> simp [CalledBy]
  | joinRoom room =>
      simp only [runRouter, joinRoom]
      repeat' split
      all_goals simp [CalledBy, sendErr, leaveRoomNotify]
  | doJoin obj =>
      simp only [runRouter, doJoin]
      repeat' split
      all_goals simp_all [CalledBy, sendErr]
  | doLeave =>
      simp only [runRouter, doLeave]
      split
      · exact called_one trivial
      · exact List.forall_mem_append.mpr ⟨called_leaveRoomNotify _ _ _, called_one trivial⟩
  | doHist obj =>
      simp only [runRouter, doHist]
      split <;> exact called_one trivial
  | histRoomId room cur =>
      simp only [runRouter, histRoomId]
      repeat' split
      all_goals exact called_one trivial
  | routeRoom m =>
      simp only [runRouter, routeRoom]
      split
      · exact called_one (.inr (.inl rfl))
      · exact called_one rfl
  | roomDbId m room => exact called_one (.inl ⟨rfl, rfl⟩)
  | broadcastRoomRelay m room => exact called_one ⟨rfl, rfl⟩
  | _ => exact called_one trivial

theorem next_whenTxIdle {s : ChatServer} {since : Option Nat} {again : Option Nat → DbCmd}
    {go r : Effect (Database Origin) DbEvent} (ran : s.whenTxIdle e since again go = some r) :
    r = go ∨ ∃ n, r = { state := s.db, next := [.db (again (some n))] } := by
  unfold whenTxIdle at ran
  split at ran
  · simp at ran
  next n _ => exact .inr ⟨n, (Option.some.inj ran).symm⟩
  · exact .inl (Option.some.inj ran).symm

/-- What a section of an insert leaves to be run. -/
theorem next_insertMsg {m : ChatMsg} {row : Message Origin} {state : Database.CallState}
    {again : Database.CallState → DbCmd} {stored : List Cmd}
    {r : Effect (Database Origin) DbEvent}
    (ran : insertMsg s e m row state again stored = some r) :
    (∃ db state', s.db.advance bumpGen row e.sql state = some (db, .goes state') ∧
      r.state = db ∧ r.next = [.db (again state')]) ∨
    ∃ db id, s.db.advance bumpGen row e.sql state = some (db, .returns id) ∧ r.state = db ∧
      r.events = [] ∧ ((id < 0 ∧ ∃ reason, r.next = [.io (.refuse m reason)]) ∨
        (0 ≤ id ∧ r.next = stored)) := by
  obtain ⟨⟨db, p⟩, advanced, rfl⟩ := Option.map_eq_some_iff.mp ran
  cases p with
  | goes state' => exact .inl ⟨db, state', advanced, rfl, rfl⟩
  | returns id =>
      refine .inr ⟨db, id, advanced, rfl, rfl, ?_⟩
      by_cases failed : id < 0
      · exact .inl ⟨failed, _, if_pos failed⟩
      · exact .inr ⟨Int.not_lt.mp failed, if_neg failed⟩

theorem Database.createRoom_rooms {Call : Type} (db : Database Call) (name owner : Bytes)
    (ts : Int) (out : SqlOutcome) :
    ∃ rooms, (db.createRoom name owner ts out).2 = { db with rooms } := by
  unfold Database.createRoom
  repeat' split
  all_goals exact ⟨_, rfl⟩

/-- A section of `create_room` touches the rooms only. -/
theorem state_insertRow {room : Bytes} {ts : Int} {since : Option Nat}
    {r : Effect (Database Origin) DbEvent} (ran : insertRow s c e room ts since = some r) :
    r.events = [] ∧ ∃ rooms, r.state = { s.db with rooms } := by
  rcases next_whenTxIdle ran with rfl | ⟨n, rfl⟩
  · obtain ⟨rooms, state⟩ := s.db.createRoom_rooms room (s.sess.username c) ts e.sql
    cases result : s.db.createRoom room (s.sess.username c) ts e.sql with
    | mk first db =>
        obtain rfl : db = { s.db with rooms } := by rw [← state, result]
        cases first <;> exact ⟨rfl, rooms, rfl⟩
  · exact ⟨rfl, s.db.rooms, rfl⟩

theorem called_whenTxIdle {s : ChatServer} {k : Cmd} {since : Option Nat}
    {again : Option Nat → DbCmd} {go r : Effect (Database Origin) DbEvent}
    (ran : s.whenTxIdle e since again go = some r)
    (waits : ∀ since, CalledBy st s c e k (.db (again since)))
    (goes : ∀ n ∈ go.next, CalledBy st s c e k n) : ∀ n ∈ r.next, CalledBy st s c e k n := by
  rcases next_whenTxIdle ran with rfl | ⟨n, rfl⟩
  · exact goes
  · exact called_one (waits (some n))

theorem calledBy_runDb {k : DbCmd} {r : Effect (Database Origin) DbEvent}
    (ran : runDb st s c e k = some r) : ∀ n ∈ r.next, CalledBy st s c e (.db k) n := by
  cases k with
  | findHello name isRegister =>
      obtain rfl := Option.some.inj ran
      simp only [findHello]
      split
      · exact called_one trivial
      · exact called_one ⟨rfl, fun _ => rfl⟩
      · exact called_one ⟨rfl, nofun⟩
      · exact called_one trivial
  | createUser name derived saltHex stored since =>
      apply called_whenTxIdle ran
      · exact fun _ => .inr ⟨since, rfl⟩
      · split <;> exact called_one trivial
  | findLogin name proof nonceHex =>
      obtain rfl := Option.some.inj ran
      simp only [findLogin]
      repeat' split
      all_goals first
        | exact called_one trivial
        | exact called_one ⟨proof, nonceHex, rfl⟩
  | insertRow room ts since =>
      apply called_whenTxIdle ran
      · exact fun _ => trivial
      · split <;> exact called_one trivial
  | findRow room ts | historyPage room roomId cursor =>
      obtain rfl := Option.some.inj ran
      exact called_one trivial
  | doInbox obj =>
      obtain rfl := Option.some.inj ran
      simp only [doInbox]
      repeat' split
      all_goals exact called_one trivial
  | findReceiver m =>
      obtain rfl := Option.some.inj ran
      simp only [findReceiver]
      split
      · exact called_one (.inr (.inr (.inl rfl)))
      · exact called_one (.inl ⟨rfl, rfl⟩)
  | insertRoomMsg m room roomId state =>
      rcases next_insertMsg ran with ⟨db, state', advanced, -, next⟩ | ⟨db, id, advanced, -, -, ends⟩
      · rw [next]
        exact called_one (.inr ⟨state, db, rfl, advanced⟩)
      · rcases ends with ⟨-, reason, next⟩ | ⟨stored, next⟩
        · rw [next]
          exact called_one (.inr (.inr (.inr (.inl ⟨room, roomId, state, rfl⟩))))
        · rw [next]
          apply called_cons
          · exact ⟨roomId, state, db, id, rfl, advanced, stored⟩
          · exact called_one (.inr (.inl ⟨m, room, roomId, state, db, id, rfl, rfl, advanced, stored⟩))
  | insertPrivateMsg m state =>
      rcases next_insertMsg ran with ⟨db, state', advanced, -, next⟩ | ⟨db, id, advanced, -, -, ends⟩
      · rw [next]
        exact called_one (.inr ⟨state, db, rfl, advanced⟩)
      · rcases ends with ⟨-, reason, next⟩ | ⟨stored, next⟩
        · rw [next]
          exact called_one (.inr (.inr (.inr (.inr ⟨state, rfl⟩))))
        · rw [next]
          apply called_cons
          · exact .inr (.inr ⟨m, state, db, id, rfl, rfl, advanced, stored⟩)
          · exact called_one ⟨state, db, id, rfl, advanced, stored⟩
  | insertOffline m target since =>
      apply called_whenTxIdle ran
      · exact fun _ => .inr (.inr ⟨target, since, rfl⟩)
      · cases target with
        | none => exact List.forall_mem_nil _
        | some v => exact called_one trivial
  | pushOffline name =>
      obtain rfl := Option.some.inj ran
      exact called_one (.inl ⟨rfl, rfl⟩)
  | markDelivered name id rest since =>
      apply called_whenTxIdle ran
      · exact fun _ => .inr ⟨since, rfl⟩
      · exact called_one (.inr ⟨id, since, rfl⟩)

theorem calledBy_runIo {k : IoCmd} {r : Effect (ConnId → SendSide) IoEvent}
    (ran : runIo st s c e k = some r) : ∀ n ∈ r.next, CalledBy st s c e (.io k) n := by
  cases k with
  | handleClient =>
      obtain ⟨-, -, tls, rfl | rfl⟩ := starts_handleClient ran
      · simp [CalledBy]
      · simp [CalledBy]
  | pushRows name rows =>
      cases rows with
      | nil =>
          obtain rfl := Option.some.inj ran
          exact List.forall_mem_nil _
      | cons row rest =>
          obtain rfl := Option.some.inj ran
          simp only [sendSection]
          split <;> simp [CalledBy]
  | relayEach m room targets =>
      cases targets with
      | nil =>
          obtain rfl := Option.some.inj ran
          exact List.forall_mem_nil _
      | cons v rest =>
          obtain rfl := Option.some.inj ran
          simp only [sendSection]
          split <;> simp [CalledBy]
  | _ =>
      obtain rfl := Option.some.inj ran
      simp only [sendSection]
      split <;> simp [CalledBy]

theorem calledBy_checkAndAdd (m : ChatMsg) :
    ∀ n ∈ (s.checkAndAdd m).2.2, CalledBy st s c e (.checkAndAdd m) n := by
  have answer := s.dedup.checkAndAdd_fst m.sender m.seq
  unfold ChatServer.checkAndAdd
  cases result : s.dedup.checkAndAdd m.sender m.seq with
  | mk first dedup =>
    rw [result] at answer
    cases first with
    | false =>
        have seen : s.dedup.seen m.sender m.seq = true := by simpa using answer.symm
        simp [CalledBy, seen]
    | true =>
        have unseen : s.dedup.seen m.sender m.seq = false := by simpa using answer.symm
        dsimp only
        repeat' split
        all_goals simp [CalledBy, unseen]

/-! ## The order of the stacks -/

theorem ordered_runOwn (k : OwnCmd) : Ordered (.own k) (runOwn st s c e k).next := by
  cases k with
  | recvLoop =>
      simp only [runOwn, recvLoop]
      repeat' split
      all_goals rfl
  | frames =>
      simp only [runOwn, frames]
      split
      next body reader taken =>
        rcases @starts_handleBody s c e _ _ taken with none | ⟨n, one, above, quits, -⟩
        · rw [none]
          split <;> rfl
        · rw [one]
          split
          next quit =>
            simp only [Ordered, List.singleton_append, List.map_cons, List.map_nil, quits quit]
            rfl
          next =>
            simp only [Ordered, List.singleton_append, List.map_cons, List.map_nil, Layer.ordered,
              List.all_cons, List.all_nil, Bool.and_true, Bool.and_eq_true]
            exact ⟨⟨rfl, above⟩, rfl⟩
      next => split <;> rfl
  | sendChallenge user saltHex isRegister =>
      simp only [runOwn, sendChallenge]
      split <;> rfl
  | doRegister obj =>
      simp only [runOwn, doRegister]
      repeat' split
      all_goals rfl
  | doLogin obj =>
      simp only [runOwn, doLogin]
      repeat' split
      all_goals rfl
  | doCreate obj =>
      simp only [runOwn, doCreate]
      split <;> rfl

theorem ordered_runLimit (k : LimitCmd) : Ordered (.limit k) (runLimit st s c e k).next := by
  cases k with
  | acceptLoop =>
      simp only [runLimit, acceptLoop]
      repeat' split
      all_goals rfl
  | doRegisterHello obj | doLoginHello obj =>
      simp only [runLimit, doRegisterHello, doLoginHello, doHello]
      repeat' split
      all_goals rfl
  | doMessage obj =>
      simp only [runLimit, doMessage]
      repeat' split
      all_goals rfl

theorem ordered_runToken (k : TokenCmd) : Ordered (.token k) (runToken st s c e k).next := by
  cases k with
  | doAuth obj =>
      simp only [runToken, doAuth]
      repeat' split
      all_goals rfl
  | issueLogin name | issueAuth name old => rfl

theorem ordered_runSess (k : SessCmd) : Ordered (.sess k) (runSess st s c e k).next := by
  cases k with
  | monitorLoop | monitorDrain =>
      refine Ordered.services ?_ ?_
      · rfl
      intro n membership
      obtain ⟨v, -, rfl⟩ := List.mem_map.mp membership
      rfl
  | roomConns names obj exclude =>
      simp only [runSess, roomConns]
      rw [← List.append_nil (List.map _ _)]
      refine Ordered.services ?_ ?_
      · rfl
      intro n membership
      obtain ⟨v, -, rfl⟩ := List.mem_map.mp membership
      rfl
  | checkLogin name =>
      simp only [runSess, checkLogin]
      split <;> rfl
  | dropConn v notifyRoom =>
      simp only [runSess, dropConn]
      repeat' split
      all_goals rfl
  | findTarget m =>
      simp only [runSess, findTarget]
      split <;> rfl
  | _ => rfl

theorem ordered_runRouter (k : RouterCmd) : Ordered (.router k) (runRouter s c e k).next := by
  cases k with
  | finishRoom name old =>
      simp only [runRouter, finishRoom]
      cases old <;> dsimp only <;> split <;> rfl
  | joinRoom room =>
      simp only [runRouter, joinRoom]
      repeat' split
      all_goals rfl
  | doJoin obj =>
      simp only [runRouter, doJoin]
      repeat' split
      all_goals rfl
  | doLeave =>
      simp only [runRouter, doLeave]
      split <;> rfl
  | doHist obj =>
      simp only [runRouter, doHist]
      split <;> rfl
  | histRoomId room cur =>
      simp only [runRouter, histRoomId]
      repeat' split
      all_goals rfl
  | routeRoom m =>
      simp only [runRouter, routeRoom]
      split <;> rfl
  | _ => rfl

theorem ordered_insertMsg {k : Cmd} {m : ChatMsg} {row : Message Origin}
    {state : Database.CallState} {again : Database.CallState → DbCmd} {stored : List Cmd}
    {r : Effect (Database Origin) DbEvent} (handler : k.layer = .handler)
    (onward : ∀ state, (Cmd.db (again state)).layer = .handler) (done : Ordered k stored)
    (ran : insertMsg s e m row state again stored = some r) : Ordered k r.next := by
  rcases next_insertMsg ran with ⟨db, state', -, -, next⟩ | ⟨db, id, -, -, -, ends⟩
  · simp only [next, Ordered, handler, List.map_cons, onward, List.map_nil]
    decide
  · rcases ends with ⟨-, reason, next⟩ | ⟨-, next⟩
    · simp only [next, Ordered, handler, List.map_cons, List.map_nil]
      rfl
    · rwa [next]

theorem ordered_runDb {k : DbCmd} {r : Effect (Database Origin) DbEvent}
    (ran : runDb st s c e k = some r) : Ordered (.db k) r.next := by
  cases k with
  | findHello name isRegister =>
      obtain rfl := Option.some.inj ran
      unfold findHello
      dsimp only
      split <;> rfl
  | findLogin name proof nonceHex =>
      obtain rfl := Option.some.inj ran
      simp only [findLogin]
      repeat' split
      all_goals rfl
  | createUser name derived saltHex stored since =>
      rcases next_whenTxIdle ran with rfl | ⟨n, rfl⟩
      · split <;> rfl
      · rfl
  | insertRow room ts since =>
      rcases next_whenTxIdle ran with rfl | ⟨n, rfl⟩
      · split <;> rfl
      · rfl
  | doInbox obj =>
      obtain rfl := Option.some.inj ran
      simp only [doInbox]
      repeat' split
      all_goals rfl
  | findReceiver m =>
      obtain rfl := Option.some.inj ran
      simp only [findReceiver]
      split <;> rfl
  | insertRoomMsg m room roomId state | insertPrivateMsg m state =>
      refine ordered_insertMsg ?_ ?_ ?_ ran
      · rfl
      · exact fun _ => rfl
      · rfl
  | insertOffline m target since =>
      rcases next_whenTxIdle ran with rfl | ⟨n, rfl⟩
      · cases target <;> rfl
      · rfl
  | markDelivered name id rest since => rcases next_whenTxIdle ran with rfl | ⟨n, rfl⟩ <;> rfl
  | _ =>
      obtain rfl := Option.some.inj ran
      rfl

theorem ordered_runIo {k : IoCmd} {r : Effect (ConnId → SendSide) IoEvent}
    (ran : runIo st s c e k = some r) : Ordered (.io k) r.next := by
  cases k with
  | handleClient =>
      obtain ⟨-, -, tls, rfl | rfl⟩ := starts_handleClient ran
      · rfl
      · rfl
  | pushRows name rows =>
      cases rows with
      | nil =>
          obtain rfl := Option.some.inj ran
          rfl
      | cons row rest =>
          obtain rfl := Option.some.inj ran
          simp only [sendSection]
          split <;> rfl
  | relayEach m room targets =>
      cases targets with
      | nil =>
          obtain rfl := Option.some.inj ran
          rfl
      | cons v rest =>
          obtain rfl := Option.some.inj ran
          simp only [sendSection]
          split <;> rfl
  | _ =>
      obtain rfl := Option.some.inj ran
      simp only [sendSection]
      split <;> rfl

theorem ordered_checkAndAdd (m : ChatMsg) :
    Ordered (.checkAndAdd m) (s.checkAndAdd m).2.2 := by
  unfold ChatServer.checkAndAdd
  split
  · rfl
  · dsimp only
    repeat' split
    all_goals rfl

/-! ## The program -/

variable {w w' : World} {t : Thread} {k : Cmd} {new : List Cmd}

theorem exec_eq_some_iff :
    (server st).exec t e k w = some (w', new) ↔
      k.runsOn t = true ∧ w.run st t.conn e k = some (w', new) := by
  unfold server
  dsimp only
  split
  next here => simp [here]
  next away => simp [away]

/-- A thread sends a frame to a connection, in one section that leaves all but the send sides
as it was. -/
theorem exists_sides_of_sendFrame (st : Startup) (c : ConnId) (e : Ext) (w : World) (v : ConnId)
    (obj : Object) :
    ∃ sides, (server st).exec (.client c) e (.io (.sendFrame v obj)) w =
      some (⟨{ w.server with sides }, w.trace⟩, []) := by
  let result :=
    (w.server.sides v).sendFrame obj (w.server.sess.username v) (e.nowTs 0) e.writes
  have next : (w.server.sendSection v result [] [] []).next = [] := ite_self []
  refine ⟨Function.update w.server.sides v result.side, exec_eq_some_iff.mpr ⟨rfl, ?_⟩⟩
  change some (World.mk _ (w.trace ++ []), (w.server.sendSection v result [] [] []).next) = _
  rw [next, List.append_nil]
  rfl

theorem calledBy_run (ran : w.run st c e k = some (w', new)) :
    ∀ n ∈ new, CalledBy st w.server c e k n := by
  cases k with
  | own k =>
      obtain ⟨-, rfl⟩ := Prod.mk.inj (Option.some.inj ran)
      exact calledBy_runOwn k
  | limit k =>
      obtain ⟨-, rfl⟩ := Prod.mk.inj (Option.some.inj ran)
      exact calledBy_runLimit k
  | token k =>
      obtain ⟨-, rfl⟩ := Prod.mk.inj (Option.some.inj ran)
      exact calledBy_runToken k
  | sess k =>
      obtain ⟨-, rfl⟩ := Prod.mk.inj (Option.some.inj ran)
      exact calledBy_runSess k
  | router k =>
      obtain ⟨-, rfl⟩ := Prod.mk.inj (Option.some.inj ran)
      exact calledBy_runRouter k
  | db k =>
      obtain ⟨r, step, result⟩ := Option.map_eq_some_iff.mp ran
      obtain ⟨-, rfl⟩ := Prod.mk.inj result
      exact calledBy_runDb step
  | io k =>
      obtain ⟨r, step, result⟩ := Option.map_eq_some_iff.mp ran
      obtain ⟨-, rfl⟩ := Prod.mk.inj result
      exact calledBy_runIo step
  | checkAndAdd m =>
      obtain ⟨-, rfl⟩ := Prod.mk.inj (Option.some.inj ran)
      exact calledBy_checkAndAdd m

theorem ordered_run (ran : w.run st c e k = some (w', new)) : Ordered k new := by
  cases k with
  | own k =>
      obtain ⟨-, rfl⟩ := Prod.mk.inj (Option.some.inj ran)
      exact ordered_runOwn k
  | limit k =>
      obtain ⟨-, rfl⟩ := Prod.mk.inj (Option.some.inj ran)
      exact ordered_runLimit k
  | token k =>
      obtain ⟨-, rfl⟩ := Prod.mk.inj (Option.some.inj ran)
      exact ordered_runToken k
  | sess k =>
      obtain ⟨-, rfl⟩ := Prod.mk.inj (Option.some.inj ran)
      exact ordered_runSess k
  | router k =>
      obtain ⟨-, rfl⟩ := Prod.mk.inj (Option.some.inj ran)
      exact ordered_runRouter k
  | db k =>
      obtain ⟨r, step, result⟩ := Option.map_eq_some_iff.mp ran
      obtain ⟨-, rfl⟩ := Prod.mk.inj result
      exact ordered_runDb step
  | io k =>
      obtain ⟨r, step, result⟩ := Option.map_eq_some_iff.mp ran
      obtain ⟨-, rfl⟩ := Prod.mk.inj result
      exact ordered_runIo step
  | checkAndAdd m =>
      obtain ⟨-, rfl⟩ := Prod.mk.inj (Option.some.inj ran)
      exact ordered_checkAndAdd m

theorem respects (st : Startup) : (server st).Respects Above := by
  intro t e k w w' new ran
  exact (ordered_run (exec_eq_some_iff.mp ran).2).pairwise

/-! ## The parts of the state -/

/-- The sessions change in sections under `g_m_` only. -/
theorem sess_run (ran : w.run st c e k = some (w', new)) (others : ∀ k', k ≠ .sess k') :
    w'.server.sess = w.server.sess := by
  cases k with
  | sess k => exact absurd rfl (others k)
  | db k | io k =>
      obtain ⟨r, -, result⟩ := Option.map_eq_some_iff.mp ran
      rw [← (Prod.mk.inj result).1]
  | _ => rw [← (Prod.mk.inj (Option.some.inj ran)).1]

/-- The room table changes in its own sections and in those under `g_m_`. -/
theorem router_run (ran : w.run st c e k = some (w', new)) (others : ∀ k', k ≠ .sess k')
    (others' : ∀ k', k ≠ .router k') : w'.server.router = w.server.router := by
  cases k with
  | sess k => exact absurd rfl (others k)
  | router k => exact absurd rfl (others' k)
  | db k | io k =>
      obtain ⟨r, -, result⟩ := Option.map_eq_some_iff.mp ran
      rw [← (Prod.mk.inj result).1]
  | _ => rw [← (Prod.mk.inj (Option.some.inj ran)).1]

theorem db_run (ran : w.run st c e k = some (w', new)) (others : ∀ k', k ≠ .db k') :
    w'.server.db = w.server.db := by
  cases k with
  | db k => exact absurd rfl (others k)
  | io k =>
      obtain ⟨r, -, result⟩ := Option.map_eq_some_iff.mp ran
      rw [← (Prod.mk.inj result).1]
  | _ => rw [← (Prod.mk.inj (Option.some.inj ran)).1]

theorem clients_run (ran : w.run st c e k = some (w', new)) (others : ∀ k', k ≠ .own k') :
    w'.server.clients = w.server.clients := by
  cases k with
  | own k => exact absurd rfl (others k)
  | db k | io k =>
      obtain ⟨r, -, result⟩ := Option.map_eq_some_iff.mp ran
      rw [← (Prod.mk.inj result).1]
  | _ => rw [← (Prod.mk.inj (Option.some.inj ran)).1]

theorem dedup_run (ran : w.run st c e k = some (w', new)) (others : ∀ m, k ≠ .checkAndAdd m) :
    w'.server.dedup = w.server.dedup := by
  cases k with
  | checkAndAdd m => exact absurd rfl (others m)
  | db k | io k =>
      obtain ⟨r, -, result⟩ := Option.map_eq_some_iff.mp ran
      rw [← (Prod.mk.inj result).1]
  | _ => rw [← (Prod.mk.inj (Option.some.inj ran)).1]

/-! ## The threads of the connections -/

theorem nextId_le_run (ran : w.run st c e k = some (w', new)) :
    w.server.sess.nextId ≤ w'.server.sess.nextId := by
  cases k with
  | sess k =>
      obtain ⟨rfl, -⟩ := Prod.mk.inj (Option.some.inj ran)
      cases k with
      | acceptInstall ip port => exact Nat.le_succ _
      | dropConn v notifyRoom =>
          simp only [runSess, dropConn]
          repeat' split
          all_goals exact Nat.le_refl _
      | findTarget m =>
          simp only [runSess, findTarget]
          split <;> exact Nat.le_refl _
      | _ => exact Nat.le_refl _
  | _ => rw [sess_run ran (by simp)]

/-- The thread of a connection that was not accepted has not started. -/
def Started (c : Config Thread Cmd World) : Prop :=
  ∀ v k, k ∈ c.stack (.client v) → k = .io .handleClient ∨
    (v ≠ 0 ∧ v ≤ c.shared.server.sess.nextId)

variable {File : Type} {file : Database File} {b : BootExt}
  {When : Config Thread Cmd World → Thread → Ext → Bool} {cfg : Config Thread Cmd World}

theorem started_of_run (run : (server st).Reaches When (start st file b) cfg) : Started cfg := by
  refine run.invariant ?_ ?_
  · intro v k waiting
    exact .inl (by simpa [start] using waiting)
  · intro cfg t e k rest w new _ started _ stack ran v k' waiting
    have ran := (exec_eq_some_iff.mp ran).2
    have grows := nextId_le_run ran
    dsimp only at waiting ⊢
    have earlier : ∀ k'', k'' ∈ cfg.stack (.client v) → k'' = .io .handleClient ∨
        (v ≠ 0 ∧ v ≤ w.server.sess.nextId) := by
      intro k'' waiting
      rcases started v k'' waiting with fresh | ⟨positive, known⟩
      · exact .inl fresh
      · exact .inr ⟨positive, Nat.le_trans known grows⟩
    by_cases own : Thread.client v = t
    · subst own
      rw [Function.update_self] at waiting
      rcases List.mem_append.mp waiting with called | below
      · rcases earlier k (by simp [stack]) with rfl | known
        · -- the thread starts with this step
          obtain ⟨r, ran, -⟩ := Option.map_eq_some_iff.mp ran
          obtain ⟨positive, accepted, -⟩ := starts_handleClient ran
          exact .inr ⟨positive, Nat.le_trans accepted grows⟩
        · exact .inr known
      · exact earlier k' (by simp [stack, below])
    · rw [Function.update_of_ne own] at waiting
      exact earlier k' waiting

/-- The server starts on the tables of the file; it may create a room. -/
theorem db_boot (st : Startup) (file : Database File) (b : BootExt) :
    ∃ rooms, (boot st file b).db = { file.reopen with rooms } := by
  unfold boot loadOrCreateLobby
  dsimp only
  split
  · exact ⟨_, rfl⟩
  · obtain ⟨rooms, created⟩ :=
      file.reopen.createRoom_rooms (bytes "lobby") (bytes "SERVER") b.ts b.creates
    refine ⟨rooms, ?_⟩
    rw [← created]
    split
    next result => rw [result]
    next result => rw [result]

/-- Every other connection that was ever accepted satisfies `p`. -/
def allOthers (cfg : Config Thread Cmd World) (t : Thread) (p : ConnId → Bool) : Bool :=
  (List.range (cfg.shared.server.sess.nextId + 1)).all fun v => v = t.conn || p v

theorem of_allOthers {p : ConnId → Bool} (all : allOthers cfg t p = true) {v : ConnId}
    (accepted : v ≤ cfg.shared.server.sess.nextId) (other : v ≠ t.conn) : p v = true := by
  simp only [allOthers, List.all_eq_true, List.mem_range, Bool.or_eq_true,
    decide_eq_true_eq] at all
  exact (all v (Nat.lt_succ_of_le accepted)).resolve_left other

end OnlineChat
