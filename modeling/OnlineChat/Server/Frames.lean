import OnlineChat.Server.Outgoing
import OnlineChat.Server.RoomIds

/-!
# The frames that the server sends

Whatever happens, a body that goes out is the text of a frame of one of the kinds below,
with or without a number.
-/

namespace OnlineChat

open Library Library.Utf8 MiniJson Database ChatServer

/-- The frames of the server, without the ACKs. -/
inductive PlainFrame : Object → Prop where
  | pong (receiver content : Bytes) (ts : Int) : PlainFrame (pongFrame receiver content ts)
  | nack (receiver : Bytes) (seq : Int) (reason : Bytes) (code : Option ErrorCode) (ts : Int) :
      PlainFrame (nackFrame receiver seq reason code ts)
  | err (receiver : Bytes) (code : ErrorCode) (text : Bytes) (ts : Int) :
      PlainFrame (errFrame receiver code text ts)
  | challenge (receiver nonceHex saltHex : Bytes) (ts : Int) :
      PlainFrame (challengeFrame receiver nonceHex saltHex ts)
  | registerOk (receiver : Bytes) (ts : Int) : PlainFrame (registerOkFrame receiver ts)
  | authOk (receiver room token : Bytes) (exp ts : Int) :
      PlainFrame (authOkFrame receiver room token exp ts)
  | system (receiver room content : Bytes) (ts : Int) :
      PlainFrame (systemFrame receiver room content ts)
  | userlist (room : Bytes) (names : List Bytes) (ts : Int) :
      PlainFrame (userlistFrame room names ts)
  | joinOk (receiver room : Bytes) (names : List Bytes) (ts : Int) :
      PlainFrame (joinOkFrame receiver room names ts)
  | leaveOk (receiver room : Bytes) (ts : Int) : PlainFrame (leaveOkFrame receiver room ts)
  | createOk (receiver room : Bytes) (ts : Int) : PlainFrame (createOkFrame receiver room ts)
  | roomsList (receiver : Bytes) (rooms : List RoomInfo) (ts : Int) :
      PlainFrame (roomsListFrame receiver rooms ts)
  | history (receiver room : Bytes) (rows : List (Int × Message Origin)) (more : Bool) (ts : Int) :
      PlainFrame (pageFrame (bytes "HISTORY") receiver room rows more ts)
  | inbox (receiver room : Bytes) (rows : List (Int × Message Origin)) (more : Bool) (ts : Int) :
      PlainFrame (pageFrame (bytes "INBOX") receiver room rows more ts)
  | message (sender receiver room content : Bytes) (ts : Int) :
      PlainFrame (messageFrame sender receiver room content ts)
  | offline (receiver : Bytes) (row : OffRow) : PlainFrame (offlineFrame receiver row)

/-- The frames of the server.  No other command than `sendAck` sends an ACK. -/
inductive ServerFrame : Object → Prop where
  | plain {obj : Object} (frame : PlainFrame obj) : ServerFrame obj
  | ack (receiver : Bytes) (seq ts : Int) : ServerFrame (ackFrame receiver seq ts)

/-! ## Frames in commands -/

def FromServer (cmds : List Cmd) : Prop :=
  ∀ k ∈ cmds, ∀ obj, k.frame = some obj → PlainFrame obj

variable {st : Startup} {s : ChatServer} {c : ConnId} {e : Ext} {k : Cmd} {cmds cmds' : List Cmd}

theorem fromServer_nil : FromServer [] := List.forall_mem_nil _

theorem FromServer.cons (first : ∀ obj, k.frame = some obj → PlainFrame obj) (rest : FromServer cmds) :
    FromServer (k :: cmds) := List.forall_mem_cons.mpr ⟨first, rest⟩

/-- A command without a frame. -/
theorem FromServer.plain (none : k.frame = none) (rest : FromServer cmds) : FromServer (k :: cmds) := by
  apply rest.cons
  intro obj some
  rw [none] at some
  cases some

theorem fromServer_one (none : k.frame = none) : FromServer [k] := .plain none fromServer_nil

theorem FromServer.append (first : FromServer cmds) (second : FromServer cmds') : FromServer (cmds ++ cmds') :=
  List.forall_mem_append.mpr ⟨first, second⟩

theorem fromServer_send {v : ConnId} {obj : Object} (frame : PlainFrame obj) :
    FromServer [.io (.sendFrame v obj)] := by
  apply fromServer_nil.cons
  rintro _ ⟨⟩
  exact frame

theorem fromServer_map {α : Type} {f : α → Cmd} {xs : List α}
    (frames : ∀ x, ∀ obj, (f x).frame = some obj → PlainFrame obj) : FromServer (xs.map f) := by
  intro k there
  obtain ⟨x, -, rfl⟩ := List.mem_map.mp there
  exact frames x

namespace ChatServer

theorem fromServer_sendErr {v : ConnId} {code : ErrorCode} {text : String} {ts : Int} :
    FromServer [s.sendErr v code text ts] := fromServer_send (.err ..)

theorem fromServer_sendNack {v : ConnId} {seq : Int} {reason : Bytes} {code : Option ErrorCode}
    {ts : Int} : FromServer [s.sendNack v seq reason code ts] := fromServer_send (.nack ..)

theorem fromServer_leaveRoomNotify {name room : Bytes} : FromServer (leaveRoomNotify name room) :=
  .plain rfl (fromServer_one rfl)

theorem fromServer_handleBody (body : Bytes) : FromServer (handleBody s c e body).1 := by
  unfold handleBody
  split
  · exact fromServer_nil
  · dsimp only
    -- one goal for each type of frame
    repeat'
      refine iteInduction (motive := fun p : List Cmd × Bool => FromServer p.1) ?_ ?_ <;> intro _
    · exact fromServer_send (.pong ..)
    iterate 6 exact fromServer_one rfl
    · exact fromServer_sendErr
    iterate 7 exact fromServer_one rfl
    · exact fromServer_nil

theorem fromServer_runOwn (k : OwnCmd) : FromServer (runOwn st s c e k).next := by
  have quit : FromServer [.sess (.dropConn c true), .io (.closeConn c)] := .plain rfl (fromServer_one rfl)
  cases k with
  | recvLoop =>
      unfold runOwn recvLoop
      cases e.received with
      | data chunk =>
          dsimp only
          split
          · exact quit
          · exact fromServer_one rfl
      | closed | failed => exact quit
      | interrupted => exact fromServer_one rfl
  | frames =>
      unfold runOwn frames
      dsimp only
      split
      · apply FromServer.append (fromServer_handleBody _)
        split
        · exact quit
        · exact fromServer_one rfl
      · dsimp only
        split
        · exact quit
        · exact fromServer_one rfl
  | sendChallenge user saltHex isRegister =>
      unfold runOwn sendChallenge
      dsimp only
      split <;> exact fromServer_send (.challenge ..)
  | doRegister obj =>
      unfold runOwn doRegister
      dsimp only
      repeat' split
      iterate 6 exact fromServer_sendErr
      exact fromServer_one rfl
  | doLogin obj =>
      unfold runOwn doLogin
      dsimp only
      repeat' split
      iterate 4 exact fromServer_sendErr
      exact fromServer_one rfl
  | doCreate obj =>
      unfold runOwn doCreate
      dsimp only
      split
      · exact fromServer_sendErr
      · exact fromServer_one rfl

theorem fromServer_runLimit (k : LimitCmd) : FromServer (runLimit st s c e k).next := by
  have hello {isRegister : Bool} {already badName : String} {obj : Object} :
      FromServer (doHello st s c e isRegister already badName obj).next := by
    unfold doHello
    split
    · exact fromServer_sendErr
    · dsimp only
      repeat' split
      all_goals first
        | exact fromServer_sendErr
        | exact fromServer_one rfl
  cases k with
  | acceptLoop =>
      simp only [runLimit, acceptLoop]
      split
      · exact fromServer_one rfl
      · apply iteInduction <;> exact fun _ => fromServer_one rfl
  | doRegisterHello obj | doLoginHello obj => exact hello
  | doMessage obj =>
      simp only [runLimit, doMessage]
      split
      · exact fromServer_sendNack
      · apply iteInduction
        · exact fun _ => fromServer_sendNack
        intro _
        split
        · exact fromServer_one rfl
        · split
          · exact fromServer_one rfl
          · split
            · exact fromServer_sendNack
            · exact fromServer_one rfl

theorem fromServer_runToken (k : TokenCmd) : FromServer (runToken st s c e k).next := by
  cases k with
  | doAuth obj =>
      unfold runToken doAuth
      dsimp only
      split
      · exact fromServer_sendErr
      · split
        · exact fromServer_sendErr
        · exact fromServer_one rfl
  | issueLogin name | issueAuth name old => exact fromServer_one rfl

theorem fromServer_runSess (k : SessCmd) (here : FromServer [.sess k]) :
    FromServer (runSess st s c e k).next := by
  cases k with
  | acceptInstall ip port => exact fromServer_one rfl
  | monitorLoop | monitorDrain =>
      apply FromServer.append _ (fromServer_one rfl)
      apply fromServer_map
      rintro v _ ⟨⟩
  | checkLogin name =>
      simp only [runSess, checkLogin]
      split
      · exact fromServer_sendErr
      · exact fromServer_one rfl
  | installLogin name token exp | installAuth name => exact fromServer_one rfl
  | dropConn v notifyRoom =>
      simp only [runSess, dropConn]
      split
      · exact fromServer_nil
      · split
        · dsimp only
          split
          · exact fromServer_leaveRoomNotify
          · exact fromServer_nil
        · exact fromServer_nil
  | roomConns names obj exclude =>
      have frame := here _ (List.mem_singleton_self _) obj rfl
      apply fromServer_map
      rintro v _ ⟨⟩
      exact frame
  | relayConns m room names => exact fromServer_one rfl
  | findTarget m =>
      simp only [runSess, findTarget]
      split <;> exact fromServer_one rfl

theorem fromServer_runRouter (k : RouterCmd) (here : FromServer [.router k]) :
    FromServer (runRouter s c e k).next := by
  cases k with
  | finishAuth name token exp old =>
      exact (fromServer_send (.authOk ..)).append (.plain rfl (fromServer_one rfl))
  | finishRoom name old =>
      have state : FromServer (if s.router.userRoom name ≠ [] then
          [.router (.sendJoinState (s.router.userRoom name))] else []) := by
        split
        · exact fromServer_one rfl
        · exact fromServer_nil
      cases old with
      | none => exact state
      | some old => exact (fromServer_send (.system ..)).append (.plain rfl state)
  | sendJoinState room => exact fromServer_send (.joinOk ..)
  | doJoin obj =>
      simp only [runRouter, doJoin]
      split
      · exact fromServer_sendErr
      · split
        · exact fromServer_sendErr
        · exact fromServer_one rfl
  | joinRoom room =>
      simp only [runRouter, joinRoom]
      split
      · exact fromServer_sendErr
      · dsimp only
        split
        · exact fromServer_one rfl
        · apply FromServer.append
          · split
            · exact fromServer_leaveRoomNotify
            · exact fromServer_nil
          · exact .plain rfl (.plain rfl (fromServer_one rfl))
  | doLeave =>
      simp only [runRouter, doLeave]
      split
      · exact fromServer_sendErr
      · exact fromServer_leaveRoomNotify.append (fromServer_send (.leaveOk ..))
  | doRooms => exact fromServer_send (.roomsList ..)
  | createRoom room dbId ts => exact fromServer_send (.createOk ..)
  | doHist obj =>
      simp only [runRouter, doHist]
      split
      · exact fromServer_sendErr
      · exact fromServer_one rfl
  | histRoomId room cur =>
      simp only [runRouter, histRoomId]
      split
      · exact fromServer_sendErr
      · split
        · exact fromServer_one rfl
        · split
          · exact fromServer_sendErr
          · exact fromServer_one rfl
  | broadcastRoomSystem room text exclude =>
      apply fromServer_nil.cons
      rintro _ ⟨⟩
      exact .system ..
  | broadcastRoomUserlist room =>
      apply fromServer_nil.cons
      rintro _ ⟨⟩
      exact .userlist ..
  | userlistConns room obj =>
      have frame := here _ (List.mem_singleton_self _) obj rfl
      apply fromServer_nil.cons
      rintro _ ⟨⟩
      exact frame
  | routeRoom m =>
      simp only [runRouter, routeRoom]
      split <;> exact fromServer_one rfl
  | roomDbId m room | broadcastRoomRelay m room => exact fromServer_one rfl

theorem fromServer_whenTxIdle {since : Option Nat} {again : Option Nat → DbCmd}
    {go r : Effect (Database Origin) DbEvent} (ran : s.whenTxIdle e since again go = some r)
    (goes : FromServer go.next) : FromServer r.next := by
  unfold whenTxIdle at ran
  split at ran
  · cases ran
  · obtain rfl := Option.some.inj ran
    exact fromServer_one rfl
  · exact Option.some.inj ran ▸ goes

theorem fromServer_insertMsg {m : ChatMsg} {row : Message Origin} {state : CallState}
    {again : CallState → DbCmd} {stored : List Cmd} {r : Effect (Database Origin) DbEvent}
    (ran : insertMsg s e m row state again stored = some r) (after : FromServer stored) :
    FromServer r.next := by
  obtain ⟨⟨db, p⟩, -, rfl⟩ := Option.map_eq_some_iff.mp ran
  cases p with
  | goes state' => exact fromServer_one rfl
  | returns id =>
      dsimp only
      split
      · exact fromServer_one rfl
      · exact after

theorem fromServer_runDb {k : DbCmd} {r : Effect (Database Origin) DbEvent}
    (ran : runDb st s c e k = some r) : FromServer r.next := by
  cases k with
  | findHello name isRegister =>
      obtain rfl := Option.some.inj ran
      simp only [findHello]
      split
      · exact fromServer_sendErr
      · exact fromServer_one rfl
      · exact fromServer_one rfl
      · exact fromServer_sendErr
  | createUser name derived saltHex stored since =>
      apply fromServer_whenTxIdle ran
      split
      · exact fromServer_sendErr
      · exact fromServer_sendErr
      · exact fromServer_send (.registerOk ..)
  | findLogin name proof nonceHex =>
      obtain rfl := Option.some.inj ran
      simp only [findLogin]
      split
      · exact fromServer_sendErr
      · split
        · exact fromServer_sendErr
        · dsimp only
          split
          · exact fromServer_one rfl
          · exact fromServer_sendErr
  | insertRow room ts since =>
      apply fromServer_whenTxIdle ran
      split
      · exact fromServer_sendErr
      · exact fromServer_sendErr
      · exact fromServer_one rfl
  | findRow room ts =>
      obtain rfl := Option.some.inj ran
      exact fromServer_one rfl
  | historyPage room roomId cursor =>
      obtain rfl := Option.some.inj ran
      exact fromServer_send (.history ..)
  | doInbox obj =>
      obtain rfl := Option.some.inj ran
      simp only [doInbox]
      split
      · exact fromServer_send (.inbox ..)
      · split
        · exact fromServer_sendErr
        · exact fromServer_send (.inbox ..)
  | findReceiver m =>
      obtain rfl := Option.some.inj ran
      simp only [findReceiver]
      split <;> exact fromServer_one rfl
  | insertRoomMsg m room roomId state =>
      exact fromServer_insertMsg ran (.plain rfl (fromServer_one rfl))
  | insertPrivateMsg m state => exact fromServer_insertMsg ran (.plain rfl (fromServer_one rfl))
  | insertOffline m target since =>
      apply fromServer_whenTxIdle ran
      cases target with
      | none => exact fromServer_nil
      | some v => exact fromServer_one rfl
  | pushOffline name =>
      obtain rfl := Option.some.inj ran
      exact fromServer_one rfl
  | markDelivered name id rest since => exact fromServer_whenTxIdle ran (fromServer_one rfl)

theorem fromServer_sendSection {v : ConnId} {result : Section} {events : List IoEvent}
    {sent lost : List Cmd} (whenSent : FromServer sent) (whenLost : FromServer lost) :
    FromServer (s.sendSection v result events sent lost).next := by
  unfold sendSection
  dsimp only
  split
  · exact whenSent
  · exact whenLost

theorem fromServer_runIo {k : IoCmd} {r : Effect (ConnId → SendSide) IoEvent}
    (ran : runIo st s c e k = some r) : FromServer r.next := by
  cases k with
  | handleClient =>
      simp only [runIo, handleClient] at ran
      split at ran
      · cases ran
      · split at ran
        · obtain rfl := Option.some.inj ran
          exact fromServer_one rfl
        · split at ran
          · obtain rfl := Option.some.inj ran
            exact fromServer_one rfl
          · obtain rfl := Option.some.inj ran
            exact .plain rfl (fromServer_one rfl)
  | sendFrame v obj | sendAck seq | refuse m reason | closeConn v =>
      obtain rfl := Option.some.inj ran
      exact fromServer_sendSection fromServer_nil fromServer_nil
  | pushRows name rows =>
      cases rows with
      | nil =>
          obtain rfl := Option.some.inj ran
          exact fromServer_nil
      | cons row rest =>
          obtain rfl := Option.some.inj ran
          exact fromServer_sendSection (fromServer_one rfl) fromServer_nil
  | relayTarget m v =>
      obtain rfl := Option.some.inj ran
      exact fromServer_sendSection fromServer_nil (fromServer_one rfl)
  | relayEach m room targets =>
      cases targets with
      | nil =>
          obtain rfl := Option.some.inj ran
          exact fromServer_nil
      | cons v rest =>
          obtain rfl := Option.some.inj ran
          exact fromServer_sendSection (fromServer_one rfl) (.plain rfl (fromServer_one rfl))
  | drainSlow v =>
      obtain rfl := Option.some.inj ran
      exact fromServer_sendSection fromServer_nil (fromServer_one rfl)

theorem fromServer_checkAndAdd (m : ChatMsg) : FromServer (s.checkAndAdd m).2.2 := by
  unfold checkAndAdd
  split
  · exact fromServer_one rfl
  · dsimp only
    split
    · exact fromServer_one rfl
    · split <;> exact fromServer_one rfl

end ChatServer

/-- A command leaves frames of the server to be sent. -/
theorem fromServer_run {w w' : World} {new : List Cmd} (here : FromServer [k])
    (ran : w.run st c e k = some (w', new)) : FromServer new := by
  cases k with
  | own k =>
      obtain ⟨-, rfl⟩ := Prod.mk.inj (Option.some.inj ran)
      exact fromServer_runOwn k
  | limit k =>
      obtain ⟨-, rfl⟩ := Prod.mk.inj (Option.some.inj ran)
      exact fromServer_runLimit k
  | token k =>
      obtain ⟨-, rfl⟩ := Prod.mk.inj (Option.some.inj ran)
      exact fromServer_runToken k
  | sess k =>
      obtain ⟨-, rfl⟩ := Prod.mk.inj (Option.some.inj ran)
      exact fromServer_runSess k here
  | router k =>
      obtain ⟨-, rfl⟩ := Prod.mk.inj (Option.some.inj ran)
      exact fromServer_runRouter k here
  | db k =>
      obtain ⟨r, step, result⟩ := Option.map_eq_some_iff.mp ran
      obtain ⟨-, rfl⟩ := Prod.mk.inj result
      exact fromServer_runDb step
  | io k =>
      obtain ⟨r, step, result⟩ := Option.map_eq_some_iff.mp ran
      obtain ⟨-, rfl⟩ := Prod.mk.inj result
      exact fromServer_runIo step
  | checkAndAdd m =>
      obtain ⟨-, rfl⟩ := Prod.mk.inj (Option.some.inj ran)
      exact fromServer_checkAndAdd m

/-! ## The bodies of a run -/

/-- The object that a section sends. -/
def SendSide.Op.object : SendSide.Op → Option Object
  | .sendFrame obj | .sendRelay obj _ => some obj
  | .drainSlow | .close => none

/-- What goes out is the text of the object with a number. -/
theorem object_of_body {side : SendSide} {op : SendSide.Op} {body : Bytes}
    (passed : op.body side = some body) :
    ∃ obj n, op.object = some obj ∧ body = serialize (obj.setNum (bytes "seq") n) := by
  have text {obj : Object} {seq : Int} (passed : SendSide.bodyOf obj seq = some body) :
      body = serialize (obj.setNum (bytes "seq") seq) := by
    unfold SendSide.bodyOf at passed
    dsimp only at passed
    split at passed
    · cases passed
    · exact (Option.some.inj passed).symm
  cases op with
  | sendFrame obj | sendRelay obj seq =>
      simp only [SendSide.Op.body] at passed
      split at passed
      · exact ⟨obj, _, rfl, text passed⟩
      · cases passed
  | drainSlow | close => cases passed

/-- A command sends its own frame, a message or a NACK, or it is `sendAck`. -/
theorem plain_or_ack {k : IoCmd} {work : ConnId × SendSide.Op × Int} {obj : Object}
    (here : FromServer [.io k]) (works : sideOp s c e k = some work)
    (sends : work.2.1.object = some obj) :
    PlainFrame obj ∨ ∃ seq, k = .sendAck seq ∧ work.1 = c ∧
      obj = ackFrame (s.sess.username c) seq (e.nowTs 0) := by
  cases k with
  | handleClient => cases works
  | sendFrame v frame =>
      obtain rfl := Option.some.inj works
      obtain rfl := Option.some.inj sends
      exact .inl (here _ (List.mem_singleton_self _) frame rfl)
  | sendAck seq =>
      obtain rfl := Option.some.inj works
      exact .inr ⟨seq, rfl, rfl, (Option.some.inj sends).symm⟩
  | refuse m reason =>
      obtain rfl := Option.some.inj works
      obtain rfl := Option.some.inj sends
      exact .inl (.nack ..)
  | pushRows name rows =>
      cases rows with
      | nil => cases works
      | cons row rest =>
          obtain rfl := Option.some.inj works
          obtain rfl := Option.some.inj sends
          exact .inl (.offline ..)
  | relayTarget m v =>
      obtain rfl := Option.some.inj works
      obtain rfl := Option.some.inj sends
      exact .inl (.message ..)
  | relayEach m room targets =>
      cases targets with
      | nil => cases works
      | cons target rest =>
          obtain rfl := Option.some.inj works
          obtain rfl := Option.some.inj sends
          exact .inl (.message ..)
  | drainSlow v | closeConn v =>
      obtain rfl := Option.some.inj works
      cases sends

end OnlineChat
