import OnlineChat.Server.Flow
import OnlineChat.Server.Texts

/-!
# What the server sends

The bodies of all frames that go out, as a history beside the run, and the invariant that
makes them UTF-8: every text in the state and in the pending commands is.
-/

namespace OnlineChat

open Library Library.Utf8 MiniJson Database ChatServer

/-! ## The bodies that go out -/

namespace ChatServer

variable (st : Startup) (s : ChatServer) (c : ConnId) (e : Ext)

/-- The section of the send side that a command is: of which connection, which one, and at
which time. -/
def sideOp : IoCmd → Option (ConnId × SendSide.Op × Int)
  | .handleClient => none
  | .sendFrame v obj => some (v, .sendFrame obj, e.nowTs 0)
  | .sendAck seq => some (c, .sendFrame (ackFrame (s.sess.username c) seq (e.nowTs 0)), e.nowTs 1)
  | .refuse m reason =>
      some (c, .sendFrame (nackFrame (s.sess.username c) m.seq reason none (e.nowTs 0)), e.nowTs 1)
  | .pushRows _ [] => none
  | .pushRows name (row :: _) => some (c, .sendRelay (offlineFrame name row) 0, e.nowTs 0)
  | .relayTarget m v =>
      some (v, .sendRelay (messageFrame m.sender m.receiver [] m.content m.ts) m.seq, e.nowTs 0)
  | .relayEach _ _ [] => none
  | .relayEach m room (v :: _) =>
      some (v, .sendRelay (messageFrame m.sender (bytes "ALL") room m.content m.ts) m.seq,
        e.nowTs 0)
  | .drainSlow v => some (v, .drainSlow, e.nowTs 0)
  | .closeConn v => some (v, .close, e.nowTs 0)

/-- The bodies of the notices among what a section hands over. -/
def notices (writes : List Write) : List Bytes :=
  writes.filterMap fun
    | .notice body _ => some body
    | _ => none

/-- The body that `acceptLoop` sends to a socket that it refuses. -/
def refusal : Option Bytes :=
  match e.peer with
  | some (ip, _) =>
      if 0 < st.cfg.connRate ∧ ¬ (s.connLimit.allow ip (e.nowSec 0)).1 then
        some (serialize (errFrame [] .connRate (bytes "连接过于频繁：每 IP 每秒最多 " ++
          toDecimal st.cfg.connRate.floor ++ bytes " 个新连接，请稍后再试") (e.nowTs 1)))
      else none
  | none => none

/-- The bodies that a command sends: those that `sendLocked` queues, the notices that go to
the socket at once, and the refusals. -/
def emitted : Cmd → List Bytes
  | .io k =>
      match sideOp s c e k with
      | some (v, op, ts) =>
          (op.body (s.sides v)).toList ++
            notices ((s.sides v).run op (s.sess.username v) ts e.writes).writes
      | none => []
  | .limit .acceptLoop => (refusal st s e).toList
  | _ => []

variable {st s c e}

/-- A socket that got no refusal gets a connection. -/
theorem next_acceptLoop {ip : Bytes} {port : Nat} (arrived : e.peer = some (ip, port)) :
    (acceptLoop st s e).next =
      if (refusal st s e).isSome then [.limit .acceptLoop] else [.sess (.acceptInstall ip port)] := by
  unfold acceptLoop refusal
  rw [arrived]
  dsimp only
  by_cases limited : 0 < st.cfg.connRate
  · by_cases allowed : (s.connLimit.allow ip (e.nowSec 0)).1 = true <;> simp [limited, allowed]
  · simp [limited]

/-- A command works on the send side as its section says. -/
theorem state_runIo {k : IoCmd} {r : Effect (ConnId → SendSide) IoEvent} {v : ConnId}
    {op : SendSide.Op} {ts : Int} (ran : runIo st s c e k = some r)
    (works : sideOp s c e k = some (v, op, ts)) :
    r.state = Function.update s.sides v
      ((s.sides v).run op (s.sess.username v) ts e.writes).side := by
  cases k with
  | handleClient => cases works
  | pushRows name rows =>
      cases rows with
      | nil => cases works
      | cons row rest =>
          obtain ⟨rfl, rfl, rfl⟩ : _ ∧ _ ∧ _ := by simpa [sideOp] using works
          exact Option.some.inj ran ▸ rfl
  | relayEach m room targets =>
      cases targets with
      | nil => cases works
      | cons target rest =>
          obtain ⟨rfl, rfl, rfl⟩ : _ ∧ _ ∧ _ := by simpa [sideOp] using works
          exact Option.some.inj ran ▸ rfl
  | _ =>
      obtain ⟨rfl, rfl, rfl⟩ : _ ∧ _ ∧ _ := by simpa [sideOp] using works
      exact Option.some.inj ran ▸ rfl

/-- Without a section nothing is queued. -/
theorem outbuf_runIo {k : IoCmd} {r : Effect (ConnId → SendSide) IoEvent}
    (ran : runIo st s c e k = some r) (silent : sideOp s c e k = none) (v : ConnId) :
    (r.state v).outbuf = (s.sides v).outbuf := by
  cases k with
  | handleClient =>
      obtain ⟨-, -, tls, rfl | rfl⟩ := starts_handleClient ran
      · by_cases own : v = c
        · subst own
          simp
        · simp [own]
      · rfl
  | pushRows name rows =>
      cases rows with
      | nil => exact Option.some.inj ran ▸ rfl
      | cons row rest => cases silent
  | relayEach m room targets =>
      cases targets with
      | nil => exact Option.some.inj ran ▸ rfl
      | cons target rest => cases silent
  | _ => cases silent

end ChatServer

/-! ## The texts of commands -/

/-- The texts of a message. -/
structure ChatMsg.Utf8 (m : ChatMsg) : Prop where
  sender : WellFormed m.sender
  receiver : WellFormed m.receiver
  content : WellFormed m.content

/-- The texts that go from a command into frames or into the state are UTF-8. -/
def OwnCmd.Utf8 : OwnCmd → Prop
  | .sendChallenge user saltHex _ => WellFormed user ∧ WellFormed saltHex
  | .doCreate obj => WellFormed (obj.getStr (bytes "content"))
  | _ => True

def LimitCmd.Utf8 : LimitCmd → Prop
  | .acceptLoop => True
  | .doRegisterHello obj | .doLoginHello obj => WellFormed (obj.getStr (bytes "from"))
  | .doMessage obj =>
      WellFormed (obj.getStr (bytes "to")) ∧ WellFormed (obj.getStr (bytes "content"))

def TokenCmd.Utf8 : TokenCmd → Prop
  | .doAuth _ => True
  | .issueLogin name | .issueAuth name _ => WellFormed name

def SessCmd.Utf8 : SessCmd → Prop
  | .checkLogin name | .installAuth name => WellFormed name
  | .installLogin name token _ => WellFormed name ∧ WellFormed token
  | .roomConns _ obj _ => obj.Utf8
  | .relayConns m room _ => m.Utf8 ∧ WellFormed room
  | .findTarget m => m.Utf8
  | _ => True

def RouterCmd.Utf8 : RouterCmd → Prop
  | .finishAuth name token _ _ => WellFormed name ∧ WellFormed token
  | .finishRoom name _ => WellFormed name
  | .sendJoinState room | .joinRoom room | .createRoom room _ _ | .histRoomId room _
  | .broadcastRoomUserlist room => WellFormed room
  | .broadcastRoomSystem room text _ => WellFormed room ∧ WellFormed text
  | .userlistConns _ obj => obj.Utf8
  | .routeRoom m => m.Utf8
  | .roomDbId m room | .broadcastRoomRelay m room => m.Utf8 ∧ WellFormed room
  | _ => True

def DbCmd.Utf8 : DbCmd → Prop
  | .findHello name _ | .findLogin name _ _ | .pushOffline name => WellFormed name
  | .createUser name _ saltHex _ _ => WellFormed name ∧ WellFormed saltHex
  | .insertRow room _ _ | .findRow room _ | .historyPage room _ _ => WellFormed room
  | .doInbox _ => True
  | .findReceiver m | .insertPrivateMsg m _ | .insertOffline m _ _ => m.Utf8
  | .insertRoomMsg m room _ _ => m.Utf8 ∧ WellFormed room
  | .markDelivered name _ rest _ => WellFormed name ∧ ∀ row ∈ rest, row.Utf8

def IoCmd.Utf8 : IoCmd → Prop
  | .sendFrame _ obj => obj.Utf8
  | .refuse _ reason => WellFormed reason
  | .pushRows name rows => WellFormed name ∧ ∀ row ∈ rows, row.Utf8
  | .relayTarget m _ => m.Utf8
  | .relayEach m room _ => m.Utf8 ∧ WellFormed room
  | _ => True

def Cmd.Utf8 : Cmd → Prop
  | .own k => k.Utf8
  | .limit k => k.Utf8
  | .token k => k.Utf8
  | .sess k => k.Utf8
  | .router k => k.Utf8
  | .db k => k.Utf8
  | .io k => k.Utf8
  | .checkAndAdd m => m.Utf8

/-- The texts of all commands of a list are UTF-8. -/
def CmdsUtf8 (cmds : List Cmd) : Prop := ∀ k ∈ cmds, k.Utf8

section Lists

variable {k : Cmd} {cmds cmds' : List Cmd}

theorem cmdsUtf8_nil : CmdsUtf8 [] := nofun

theorem CmdsUtf8.cons (first : k.Utf8) (rest : CmdsUtf8 cmds) : CmdsUtf8 (k :: cmds) :=
  List.forall_mem_cons.mpr ⟨first, rest⟩

theorem cmdsUtf8_one (utf8 : k.Utf8) : CmdsUtf8 [k] := .cons utf8 cmdsUtf8_nil

theorem CmdsUtf8.append (first : CmdsUtf8 cmds) (second : CmdsUtf8 cmds') :
    CmdsUtf8 (cmds ++ cmds') :=
  List.forall_mem_append.mpr ⟨first, second⟩

theorem cmdsUtf8_map {α : Type} {f : α → Cmd} {xs : List α} (utf8 : ∀ x, (f x).Utf8) :
    CmdsUtf8 (xs.map f) :=
  List.forall_mem_map.mpr fun x _ => utf8 x

end Lists

/-! ## The texts of the state -/

structure Challenge.Utf8 (chal : Challenge) : Prop where
  user : WellFormed chal.user
  saltHex : WellFormed chal.saltHex
  nonceHex : WellFormed chal.nonceHex

/-- All texts that the server keeps and gives out are UTF-8. -/
structure ChatServer.Utf8 (s : ChatServer) : Prop where
  chal : ∀ v, (s.clients v).chal.Utf8
  username : ∀ v, WellFormed (s.sess.username v)
  router : s.router.Utf8
  db : s.db.Utf8
  tokens : s.tokens.Utf8

namespace ChatServer

variable {st : Startup} {s : ChatServer} {c : ConnId} {e : Ext}

theorem wellFormed_randomHex (i n : Nat) : WellFormed (e.randomHex i n) := wellFormed_toHex _

theorem Utf8.sendErr (utf8 : s.Utf8) (v : ConnId) (code : ErrorCode) (text : String) (ts : Int) :
    (s.sendErr v code text ts).Utf8 :=
  utf8_errFrame (utf8.username v) code (wellFormed_bytes text) ts

/-- The reply when a request is refused. -/
theorem Utf8.replyErr {code : ErrorCode} {text : String} {ts : Int} (utf8 : s.Utf8) :
    CmdsUtf8 [s.sendErr c code text ts] :=
  cmdsUtf8_one (utf8.sendErr c code text ts)

theorem Utf8.sendNack {reason : Bytes} (utf8 : s.Utf8) (seq : Int) (reasonUtf8 : WellFormed reason)
    (code : Option ErrorCode) (ts : Int) : (s.sendNack c seq reason code ts).Utf8 :=
  utf8_nackFrame (utf8.username c) seq reasonUtf8 code ts

theorem utf8_leaveRoomNotify {name room : Bytes} (nameUtf8 : WellFormed name)
    (roomUtf8 : WellFormed room) : CmdsUtf8 (leaveRoomNotify name room) := by
  apply CmdsUtf8.cons
  · exact ⟨roomUtf8, nameUtf8.append (wellFormed_bytes _)⟩
  · exact cmdsUtf8_one roomUtf8

/-! ## Commands of the client -/

/-- The texts of a received object that its handler passes on. -/
def passedOn (authed : Bool) (obj : Object) : List Bytes :=
  let type := obj.getStr (bytes "type")
  if type = bytes "PING" then [obj.getStr (bytes "content")]
  else if type = bytes "REGISTER_HELLO" ∨ type = bytes "LOGIN_HELLO" then
    [obj.getStr (bytes "from")]
  else if ¬ authed then []
  else if type = bytes "CREATE" then [obj.getStr (bytes "content")]
  else if type = bytes "MESSAGE" then [obj.getStr (bytes "to"), obj.getStr (bytes "content")]
  else []

/-- The texts that the handler of a frame passes on are UTF-8. -/
def bodyUtf8 (authed : Bool) (body : Bytes) : Bool :=
  match parse body with
  | .ok obj => (passedOn authed obj).all fun text => WellFormed text
  | .error _ => true

theorem wellFormed_of_mem_passedOn {authed : Bool} {obj : Object} {text : Bytes} (utf8 : obj.Utf8)
    (there : text ∈ passedOn authed obj) : WellFormed text := by
  have field (key : String) : WellFormed (obj.getStr (bytes key)) := utf8.getStr (bytes key)
  unfold passedOn at there
  dsimp only at there
  repeat' split at there
  all_goals simp only [List.mem_cons, List.not_mem_nil, or_false] at there
  all_goals first
    | exact there ▸ field _
    | rcases there with rfl | rfl <;> exact field _

/-- The body of a frame that is UTF-8 itself. -/
theorem bodyUtf8_of_wellFormed {authed : Bool} {body : Bytes} (utf8 : WellFormed body) :
    bodyUtf8 authed body = true := by
  unfold bodyUtf8
  split
  next obj parsed =>
    rw [List.all_eq_true]
    intro text there
    exact decide_eq_true (wellFormed_of_mem_passedOn (utf8_of_parse utf8 parsed) there)
  next => rfl

theorem utf8_handleBody {body : Bytes} (utf8 : s.Utf8)
    (passes : bodyUtf8 (s.sess.authed c) body = true) : CmdsUtf8 (handleBody s c e body).1 := by
  unfold bodyUtf8 at passes
  unfold handleBody
  split
  · exact cmdsUtf8_nil
  next obj parsed =>
    rw [parsed] at passes
    have texts : ∀ text ∈ passedOn (s.sess.authed c) obj, WellFormed text := by
      intro text there
      exact of_decide_eq_true (List.all_eq_true.mp passes text there)
    clear passes parsed
    dsimp only
    -- one goal for each type of frame
    repeat'
      refine iteInduction (motive := fun p : List Cmd × Bool => CmdsUtf8 p.1) ?_ ?_ <;> intro _
    · refine cmdsUtf8_one (utf8_textFrame "PONG" (utf8.username c) wellFormed_nil (texts _ ?_) _)
      grind [passedOn]
    · exact cmdsUtf8_one (texts _ (by grind [passedOn]))
    · exact cmdsUtf8_one (texts _ (by grind [passedOn]))
    · exact cmdsUtf8_one trivial
    · exact cmdsUtf8_one trivial
    · exact cmdsUtf8_one trivial
    · exact cmdsUtf8_one trivial
    · exact utf8.replyErr
    · exact cmdsUtf8_one trivial
    · exact cmdsUtf8_one trivial
    · exact cmdsUtf8_one trivial
    · exact cmdsUtf8_one (texts _ (by grind [passedOn]))
    · exact cmdsUtf8_one trivial
    · exact cmdsUtf8_one trivial
    · exact cmdsUtf8_one ⟨texts _ (by grind [passedOn]), texts _ (by grind [passedOn])⟩
    · exact cmdsUtf8_nil

/-- What the connection receives next hands UTF-8 on. -/
def takesUtf8 (s : ChatServer) (c : ConnId) : Bool :=
  match (s.clients c).reader.next.1 with
  | some body => bodyUtf8 (s.sess.authed c) body
  | none => true

/-- A challenge that was handed out was that of the user. -/
theorem takeChallenge_eq_some {chal ch : Challenge} {user : Bytes} {isRegister : Bool} {now : Int}
    (taken : (takeChallenge chal user isRegister now).1 = some ch) : ch = chal ∧ user = ch.user := by
  unfold takeChallenge at taken
  dsimp only at taken
  split at taken
  next live =>
    obtain rfl := Option.some.inj taken
    exact ⟨rfl, live.2.2.1.symm⟩
  next => cases taken

theorem utf8_takeChallenge {chal : Challenge} (utf8 : chal.Utf8) (user : Bytes)
    (isRegister : Bool) (now : Int) : (takeChallenge chal user isRegister now).2.Utf8 :=
  ⟨utf8.user, utf8.saltHex, wellFormed_nil⟩

theorem utf8_frames (utf8 : s.Utf8) (takes : takesUtf8 s c = true) :
    (frames s c e).state.chal = (s.clients c).chal ∧ CmdsUtf8 (frames s c e).next := by
  unfold takesUtf8 at takes
  unfold frames
  dsimp only
  have quit : CmdsUtf8 [.sess (.dropConn c true), .io (.closeConn c)] :=
    .cons trivial (cmdsUtf8_one trivial)
  split
  next body reader taken =>
    rw [taken] at takes
    refine ⟨rfl, .append (utf8_handleBody utf8 takes) ?_⟩
    split
    · exact quit
    · exact cmdsUtf8_one trivial
  next =>
    refine ⟨rfl, ?_⟩
    split
    · exact quit
    · exact cmdsUtf8_one trivial

theorem utf8_runOwn {k : OwnCmd} (utf8 : s.Utf8) (texts : k.Utf8)
    (takes : k = .frames → takesUtf8 s c = true) :
    (runOwn st s c e k).state.chal.Utf8 ∧ CmdsUtf8 (runOwn st s c e k).next := by
  have chal := utf8.chal c
  cases k with
  | recvLoop =>
      unfold runOwn recvLoop
      have quit : CmdsUtf8 [.sess (.dropConn c true), .io (.closeConn c)] :=
        .cons trivial (cmdsUtf8_one trivial)
      cases e.received with
      | data chunk =>
          dsimp only
          split
          · exact ⟨chal, quit⟩
          · exact ⟨chal, cmdsUtf8_one trivial⟩
      | closed | failed => exact ⟨chal, quit⟩
      | interrupted => exact ⟨chal, cmdsUtf8_one trivial⟩
  | frames =>
      obtain ⟨same, next⟩ := @utf8_frames s c e utf8 (takes rfl)
      exact ⟨same ▸ chal, next⟩
  | sendChallenge user saltHex isRegister =>
      obtain ⟨userUtf8, saltUtf8⟩ := texts
      unfold runOwn sendChallenge
      dsimp only
      split
      · exact ⟨chal, cmdsUtf8_one (utf8_challengeFrame userUtf8 chal.nonceHex chal.saltHex _)⟩
      · have salt : WellFormed (if isRegister then e.randomHex 0 16 else saltHex) := by
          split
          · exact wellFormed_randomHex 0 16
          · exact saltUtf8
        have nonce : WellFormed (e.randomHex 1 32) := wellFormed_randomHex 1 32
        exact ⟨⟨userUtf8, salt, nonce⟩, cmdsUtf8_one (utf8_challengeFrame userUtf8 nonce salt _)⟩
  | doRegister obj =>
      have after := utf8_takeChallenge chal (obj.getStr (bytes "from")) true (e.clock 0)
      unfold runOwn doRegister
      dsimp only
      split
      · exact ⟨chal, utf8.replyErr⟩
      · split
        · exact ⟨after, utf8.replyErr⟩
        next ch taken =>
          obtain ⟨rfl, named⟩ := takeChallenge_eq_some taken
          repeat' split
          iterate 4 exact ⟨after, utf8.replyErr⟩
          exact ⟨after, cmdsUtf8_one ⟨named ▸ chal.user, chal.saltHex⟩⟩
  | doLogin obj =>
      have after := utf8_takeChallenge chal (obj.getStr (bytes "from")) false (e.clock 0)
      unfold runOwn doLogin
      dsimp only
      split
      · exact ⟨chal, utf8.replyErr⟩
      · split
        · exact ⟨after, utf8.replyErr⟩
        next ch taken =>
          obtain ⟨rfl, named⟩ := takeChallenge_eq_some taken
          repeat' split
          iterate 2 exact ⟨after, utf8.replyErr⟩
          have name : WellFormed (obj.getStr (bytes "from")) := named ▸ chal.user
          exact ⟨after, cmdsUtf8_one name⟩
  | doCreate obj =>
      unfold runOwn doCreate
      dsimp only
      split
      · exact ⟨chal, utf8.replyErr⟩
      · exact ⟨chal, cmdsUtf8_one texts⟩

/-! ## Commands of the groups -/

theorem utf8_runLimit {k : LimitCmd} {words : List Bytes} (utf8 : s.Utf8) (texts : k.Utf8)
    (listed : st.words = .ofWords words) (wordsUtf8 : ∀ word ∈ words, WellFormed word) :
    CmdsUtf8 (runLimit st s c e k).next := by
  have hello {isRegister : Bool} {already badName : String} {obj : Object}
      (name : WellFormed (obj.getStr (bytes "from"))) :
      CmdsUtf8 (doHello st s c e isRegister already badName obj).next := by
    unfold doHello
    split
    · exact utf8.replyErr
    · dsimp only
      repeat' split
      all_goals first
        | exact utf8.replyErr
        | exact cmdsUtf8_one name
  cases k with
  | acceptLoop =>
      simp only [runLimit, acceptLoop]
      split
      · exact cmdsUtf8_one trivial
      · apply iteInduction <;> exact fun _ => cmdsUtf8_one trivial
  | doRegisterHello obj | doLoginHello obj => exact hello texts
  | doMessage obj =>
      simp only [runLimit, doMessage]
      split
      · exact cmdsUtf8_one (utf8.sendNack _ (wellFormed_bytes _) _ _)
      · obtain ⟨receiver, content⟩ := texts
        have sender := utf8.username c
        have rate := ((wellFormed_bytes "发送过于频繁：每用户每秒最多 ").append
          (wellFormed_toDecimal st.cfg.msgRate.floor)).append (wellFormed_bytes " 条消息，请稍后重试")
        apply iteInduction
        · exact fun _ => cmdsUtf8_one (utf8.sendNack _ rate _ _)
        intro _
        split
        · exact cmdsUtf8_one ⟨sender, receiver, content⟩
        · split
          · exact cmdsUtf8_one ⟨sender, receiver, content⟩
          next hit found =>
            split
            · rw [listed] at found
              have named := (wellFormed_bytes "消息包含敏感词「").append
                (WordFilter.wellFormed_contains wordsUtf8 found)
              exact cmdsUtf8_one (utf8.sendNack _ (named.append (wellFormed_bytes _)) _ _)
            · have star : (42 : UInt8) < 128 := by decide
              have masked := WordFilter.wellFormed_filter wordsUtf8 star content
              exact cmdsUtf8_one ⟨sender, receiver, listed ▸ masked⟩

theorem utf8_runToken {k : TokenCmd} (utf8 : s.Utf8) (texts : k.Utf8) :
    (runToken st s c e k).state.Utf8 ∧ CmdsUtf8 (runToken st s c e k).next := by
  cases k with
  | doAuth obj =>
      have after : (s.tokens.validate st.hashes (obj.getStr (bytes "content")) (e.nowTs 0)).2.Utf8 :=
        utf8.tokens.validate
      simp only [runToken, doAuth]
      split
      · exact ⟨utf8.tokens, utf8.replyErr⟩
      · split
        next tokens result =>
          rw [result] at after
          exact ⟨after, utf8.replyErr⟩
        next name tokens result =>
          rw [result] at after
          have name : WellFormed name := utf8.tokens.of_validate (congrArg Prod.fst result)
          exact ⟨after, cmdsUtf8_one name⟩
  | issueLogin name =>
      exact ⟨utf8.tokens.issue texts, cmdsUtf8_one ⟨texts, wellFormed_randomHex 0 32⟩⟩
  | issueAuth name old =>
      exact ⟨utf8.tokens.issue texts, cmdsUtf8_one ⟨texts, wellFormed_randomHex 0 32⟩⟩

theorem utf8_install {name : Bytes} (utf8 : s.Utf8) (nameUtf8 : WellFormed name) (v : ConnId) :
    WellFormed ((install s c name).username v) := by
  unfold install
  dsimp only
  by_cases own : v = c
  · subst own
    simpa using nameUtf8
  · simpa [own] using utf8.username v

theorem utf8_runSess {k : SessCmd} (utf8 : s.Utf8) (texts : k.Utf8) :
    (∀ v, WellFormed ((runSess st s c e k).state.1.username v)) ∧
      (runSess st s c e k).state.2.Utf8 ∧ CmdsUtf8 (runSess st s c e k).next := by
  cases k with
  | acceptInstall ip port => exact ⟨utf8.username, utf8.router, cmdsUtf8_one trivial⟩
  | monitorLoop =>
      exact ⟨utf8.username, utf8.router, .append (cmdsUtf8_map fun _ => trivial)
        (cmdsUtf8_one trivial)⟩
  | monitorDrain =>
      exact ⟨utf8.username, utf8.router, .append (cmdsUtf8_map fun _ => trivial)
        (cmdsUtf8_one trivial)⟩
  | checkLogin name =>
      refine ⟨utf8.username, utf8.router, ?_⟩
      simp only [runSess, checkLogin]
      split
      · exact utf8.replyErr
      · exact cmdsUtf8_one texts
  | installLogin name token exp =>
      exact ⟨utf8_install utf8 texts.1, utf8.router, cmdsUtf8_one texts⟩
  | installAuth name => exact ⟨utf8_install utf8 texts, utf8.router, cmdsUtf8_one texts⟩
  | dropConn v notifyRoom =>
      simp only [runSess, dropConn]
      split
      · exact ⟨utf8.username, utf8.router, cmdsUtf8_nil⟩
      · split
        · refine ⟨utf8.username, ?_, ?_⟩
          · dsimp only
            split
            · exact utf8.router.leave _
            · exact utf8.router
          · dsimp only
            split
            · exact utf8_leaveRoomNotify (utf8.username v) (utf8.router.userRoom _)
            · exact cmdsUtf8_nil
        · exact ⟨utf8.username, utf8.router, cmdsUtf8_nil⟩
  | roomConns names obj exclude => exact ⟨utf8.username, utf8.router, cmdsUtf8_map fun _ => texts⟩
  | relayConns m room names => exact ⟨utf8.username, utf8.router, cmdsUtf8_one texts⟩
  | findTarget m =>
      simp only [runSess, findTarget]
      split
      · exact ⟨utf8.username, utf8.router, cmdsUtf8_one texts⟩
      · exact ⟨utf8.username, utf8.router, cmdsUtf8_one texts⟩

theorem utf8_runRouter {k : RouterCmd} (utf8 : s.Utf8) (texts : k.Utf8) :
    (runRouter s c e k).state.Utf8 ∧ CmdsUtf8 (runRouter s c e k).next := by
  have name := utf8.username c
  have router := utf8.router
  cases k with
  | finishAuth name token exp old =>
      obtain ⟨nameUtf8, tokenUtf8⟩ := texts
      have frame := utf8_authOkFrame nameUtf8 (router.userRoom name) tokenUtf8 exp (e.nowTs 0)
      exact ⟨router, .cons frame (.cons nameUtf8 (cmdsUtf8_one nameUtf8))⟩
  | finishRoom name old =>
      have room := router.userRoom name
      have state : CmdsUtf8 (if s.router.userRoom name ≠ [] then
          [.router (.sendJoinState (s.router.userRoom name))] else []) := by
        split
        · exact cmdsUtf8_one room
        · exact cmdsUtf8_nil
      refine ⟨router, ?_⟩
      cases old with
      | none => exact state
      | some old =>
          have frame := utf8_textFrame "SYSTEM" texts room (wellFormed_bytes
            "该账号已在其他连接恢复会话（Token 重连顶号），本连接即将关闭") (e.nowTs 0)
          exact .cons frame (.cons trivial state)
  | sendJoinState room =>
      exact ⟨router, cmdsUtf8_one (utf8_listFrame "JOIN_OK" name texts (router.members room) _)⟩
  | doJoin obj =>
      simp only [runRouter, doJoin]
      refine ⟨router, ?_⟩
      split
      · exact utf8.replyErr
      · split
        · exact utf8.replyErr
        next there => exact cmdsUtf8_one (router.of_exists (by simpa using there))
  | joinRoom room =>
      have after := router.join name texts
      simp only [runRouter, joinRoom]
      split
      next result =>
        rw [result] at after
        exact ⟨after, utf8.replyErr⟩
      next prev router' result =>
        rw [result] at after
        refine ⟨after, ?_⟩
        dsimp only
        split
        · exact cmdsUtf8_one texts
        · have prev : WellFormed prev :=
            RoomRouter.fst_join (congrArg Prod.fst result) ▸ router.userRoom _
          have entered := name.append (wellFormed_bytes " 进入了房间")
          apply CmdsUtf8.append
          · split
            · exact utf8_leaveRoomNotify name prev
            · exact cmdsUtf8_nil
          · exact .cons texts (.cons ⟨texts, entered⟩ (cmdsUtf8_one texts))
  | doLeave =>
      have after := router.leave (s.sess.username c)
      have room : WellFormed (s.router.leave (s.sess.username c)).1 :=
        RoomRouter.leave_fst s.router _ ▸ router.userRoom _
      refine ⟨after, ?_⟩
      simp only [runRouter, doLeave]
      split
      · exact utf8.replyErr
      · apply CmdsUtf8.append (utf8_leaveRoomNotify name room)
        exact cmdsUtf8_one (utf8_leaveOkFrame name room _)
  | doRooms => exact ⟨router, cmdsUtf8_one (utf8_roomsListFrame name router.list _)⟩
  | createRoom room dbId ts =>
      exact ⟨router.create texts name dbId ts, cmdsUtf8_one (utf8_createOkFrame name texts _)⟩
  | doHist obj =>
      simp only [runRouter, doHist]
      refine ⟨router, ?_⟩
      split
      · exact utf8.replyErr
      · exact cmdsUtf8_one (router.userRoom _)
  | histRoomId room cur =>
      simp only [runRouter, histRoomId]
      refine ⟨router, ?_⟩
      split
      · exact utf8.replyErr
      · split
        · exact cmdsUtf8_one texts
        · split
          · exact utf8.replyErr
          · exact cmdsUtf8_one texts
  | broadcastRoomSystem room text exclude =>
      have frame := utf8_textFrame "SYSTEM" (wellFormed_bytes "ALL") texts.1 texts.2 (e.nowTs 0)
      exact ⟨router, cmdsUtf8_one frame⟩
  | broadcastRoomUserlist room =>
      have frame := utf8_listFrame "USERLIST" (wellFormed_bytes "ALL") texts (router.members room)
        (e.nowTs 0)
      exact ⟨router, cmdsUtf8_one frame⟩
  | userlistConns room obj => exact ⟨router, cmdsUtf8_one texts⟩
  | routeRoom m =>
      simp only [runRouter, routeRoom]
      refine ⟨router, ?_⟩
      split
      · exact cmdsUtf8_one (wellFormed_bytes _)
      · exact cmdsUtf8_one ⟨texts, router.userRoom _⟩
  | roomDbId m room => exact ⟨router, cmdsUtf8_one texts⟩
  | broadcastRoomRelay m room => exact ⟨router, cmdsUtf8_one texts⟩

theorem utf8_sendHistPage {room : Bytes} {rows : List (Int × Message Origin)} (utf8 : s.Utf8)
    (kind : String) (roomUtf8 : WellFormed room) (rowsUtf8 : ∀ row ∈ rows, row.2.Utf8) (ts : Int) :
    CmdsUtf8 [s.sendHistPage c (bytes kind) room rows ts] := by
  apply cmdsUtf8_one
  apply utf8_pageFrame kind (utf8.username c) roomUtf8
  exact fun row there => rowsUtf8 row (List.mem_of_mem_take there)

theorem utf8_insertMsg {m : ChatMsg} {row : Message Origin} {state : CallState}
    {again : CallState → DbCmd} {stored : List Cmd} {r : Effect (Database Origin) DbEvent}
    (utf8 : s.Utf8) (ran : insertMsg s e m row state again stored = some r) (rowUtf8 : row.Utf8)
    (againUtf8 : ∀ state, (again state).Utf8) (storedUtf8 : CmdsUtf8 stored) :
    r.state.Utf8 ∧ CmdsUtf8 r.next := by
  obtain ⟨⟨db, p⟩, advanced, rfl⟩ := Option.map_eq_some_iff.mp ran
  have after := utf8.db.advance rowUtf8 advanced
  cases p with
  | goes state' => exact ⟨after, cmdsUtf8_one (againUtf8 state')⟩
  | returns id =>
      refine ⟨after, ?_⟩
      dsimp only
      split
      · exact cmdsUtf8_one (wellFormed_bytes _)
      · exact storedUtf8

theorem utf8_whenTxIdle {since : Option Nat} {again : Option Nat → DbCmd}
    {go r : Effect (Database Origin) DbEvent} (utf8 : s.Utf8)
    (ran : s.whenTxIdle e since again go = some r) (againUtf8 : ∀ since, (again since).Utf8)
    (goUtf8 : go.state.Utf8 ∧ CmdsUtf8 go.next) : r.state.Utf8 ∧ CmdsUtf8 r.next := by
  unfold whenTxIdle at ran
  split at ran
  · cases ran
  next n _ =>
    obtain rfl := Option.some.inj ran
    exact ⟨utf8.db, cmdsUtf8_one (againUtf8 (some n))⟩
  · exact Option.some.inj ran ▸ goUtf8

theorem utf8_roomRow {m : ChatMsg} (utf8 : m.Utf8) (roomId : Int) : (roomRow c m roomId).Utf8 :=
  ⟨wellFormed_cStr utf8.sender, wellFormed_bytes "ALL", wellFormed_cStr utf8.content,
    wellFormed_bytes _⟩

theorem utf8_runDb {k : DbCmd} {r : Effect (Database Origin) DbEvent} (utf8 : s.Utf8)
    (texts : k.Utf8) (ran : runDb st s c e k = some r) : r.state.Utf8 ∧ CmdsUtf8 r.next := by
  have name := utf8.username c
  have db := utf8.db
  cases k with
  | findHello name isRegister =>
      obtain rfl := Option.some.inj ran
      refine ⟨db, ?_⟩
      simp only [findHello]
      split
      · exact utf8.replyErr
      · exact cmdsUtf8_one ⟨texts, wellFormed_nil⟩
      next found => exact cmdsUtf8_one ⟨texts, db.salt_of_findUser found⟩
      · exact utf8.replyErr
  | createUser name derived saltHex stored since =>
      refine utf8_whenTxIdle utf8 ran (fun _ => texts) ?_
      have after : (s.db.createUser name saltHex stored (e.nowTs 0) e.sql).2.Utf8 :=
        db.createUser texts.1 texts.2 (e.nowTs 0)
      split
      next result =>
        rw [result] at after
        exact ⟨after, utf8.replyErr⟩
      next result =>
        rw [result] at after
        exact ⟨after, utf8.replyErr⟩
      next result =>
        rw [result] at after
        have frame := utf8_textFrame "REGISTER_OK" texts.1 wellFormed_nil
          (wellFormed_bytes "注册成功，请登录") (e.nowTs 1)
        exact ⟨after, cmdsUtf8_one frame⟩
  | findLogin name proof nonceHex =>
      obtain rfl := Option.some.inj ran
      simp only [findLogin]
      split
      · exact ⟨db, utf8.replyErr⟩
      · split
        · exact ⟨db, utf8.replyErr⟩
        · refine ⟨db, ?_⟩
          dsimp only
          split
          · exact cmdsUtf8_one texts
          · exact utf8.replyErr
  | insertRow room ts since =>
      refine utf8_whenTxIdle utf8 ran (fun _ => texts) ?_
      have after := db.createRoom (e := e.sql) texts name ts
      split
      next result =>
        rw [result] at after
        exact ⟨after, utf8.replyErr⟩
      next result =>
        rw [result] at after
        exact ⟨after, utf8.replyErr⟩
      next result =>
        rw [result] at after
        exact ⟨after, cmdsUtf8_one texts⟩
  | findRow room ts =>
      obtain rfl := Option.some.inj ran
      exact ⟨db, cmdsUtf8_one texts⟩
  | historyPage room roomId cursor =>
      obtain rfl := Option.some.inj ran
      refine ⟨db, utf8_sendHistPage utf8 "HISTORY" texts ?_ _⟩
      cases cursor with
      | none => exact db.page _ _ _
      | some cursor => exact db.page _ _ _
  | doInbox obj =>
      obtain rfl := Option.some.inj ran
      refine ⟨db, ?_⟩
      simp only [doInbox]
      split
      · exact utf8_sendHistPage utf8 "INBOX" wellFormed_nil (db.page _ _ _) _
      · split
        · exact utf8.replyErr
        · exact utf8_sendHistPage utf8 "INBOX" wellFormed_nil (db.page _ _ _) _
  | findReceiver m =>
      obtain rfl := Option.some.inj ran
      refine ⟨db, ?_⟩
      simp only [findReceiver]
      split
      · exact cmdsUtf8_one ((wellFormed_bytes "用户不存在：").append texts.receiver)
      · exact cmdsUtf8_one texts
  | insertRoomMsg m room roomId state =>
      refine utf8_insertMsg utf8 ran (utf8_roomRow texts.1 roomId) (fun _ => texts) ?_
      exact .cons texts (cmdsUtf8_one trivial)
  | insertPrivateMsg m state =>
      have row : (privateRow c m).Utf8 := ⟨wellFormed_cStr texts.sender,
        wellFormed_cStr texts.receiver, wellFormed_cStr texts.content, wellFormed_bytes _⟩
      refine utf8_insertMsg utf8 ran row (fun _ => texts) ?_
      exact .cons trivial (cmdsUtf8_one texts)
  | insertOffline m target since =>
      refine utf8_whenTxIdle utf8 ran (fun _ => texts) ?_
      refine ⟨db.insertOffline texts.sender texts.content m.ts, ?_⟩
      cases target with
      | none => exact cmdsUtf8_nil
      | some v => exact cmdsUtf8_one trivial
  | pushOffline name =>
      obtain rfl := Option.some.inj ran
      exact ⟨db, cmdsUtf8_one ⟨texts, db.undelivered name⟩⟩
  | markDelivered name id rest since =>
      exact utf8_whenTxIdle utf8 ran (fun _ => texts) ⟨db.markDelivered id, cmdsUtf8_one texts⟩

theorem utf8_sendSection {v : ConnId} {result : Section} {events : List IoEvent}
    {sent lost : List Cmd} (sentUtf8 : CmdsUtf8 sent) (lostUtf8 : CmdsUtf8 lost) :
    CmdsUtf8 (s.sendSection v result events sent lost).next := by
  unfold sendSection
  dsimp only
  split
  · exact sentUtf8
  · exact lostUtf8

theorem utf8_runIo {k : IoCmd} {r : Effect (ConnId → SendSide) IoEvent} (texts : k.Utf8)
    (ran : runIo st s c e k = some r) : CmdsUtf8 r.next := by
  cases k with
  | handleClient =>
      obtain ⟨-, -, tls, rfl | rfl⟩ := starts_handleClient ran
      · exact cmdsUtf8_one trivial
      · exact .cons trivial (cmdsUtf8_one trivial)
  | pushRows name rows =>
      obtain ⟨nameUtf8, rowsUtf8⟩ := texts
      cases rows with
      | nil => exact Option.some.inj ran ▸ cmdsUtf8_nil
      | cons row rest =>
          obtain rfl := Option.some.inj ran
          refine utf8_sendSection (cmdsUtf8_one ⟨nameUtf8, ?_⟩) cmdsUtf8_nil
          exact fun row there => rowsUtf8 row (List.mem_cons_of_mem _ there)
  | relayTarget m v =>
      obtain rfl := Option.some.inj ran
      exact utf8_sendSection cmdsUtf8_nil (cmdsUtf8_one texts)
  | relayEach m room targets =>
      cases targets with
      | nil => exact Option.some.inj ran ▸ cmdsUtf8_nil
      | cons v rest =>
          obtain rfl := Option.some.inj ran
          exact utf8_sendSection (cmdsUtf8_one texts) (.cons trivial (cmdsUtf8_one texts))
  | drainSlow v =>
      obtain rfl := Option.some.inj ran
      exact utf8_sendSection cmdsUtf8_nil (cmdsUtf8_one trivial)
  | _ =>
      obtain rfl := Option.some.inj ran
      exact utf8_sendSection cmdsUtf8_nil cmdsUtf8_nil

theorem utf8_checkAndAdd {m : ChatMsg} (texts : m.Utf8) : CmdsUtf8 (s.checkAndAdd m).2.2 := by
  unfold ChatServer.checkAndAdd
  split
  · exact cmdsUtf8_one trivial
  · dsimp only
    split
    · exact cmdsUtf8_one texts
    · split
      · exact cmdsUtf8_one (wellFormed_bytes _)
      · exact cmdsUtf8_one texts

/-! ## What goes out is UTF-8 -/

/-- The object that a section sends is UTF-8. -/
def OpUtf8 : SendSide.Op → Prop
  | .sendFrame obj | .sendRelay obj _ => obj.Utf8
  | .drainSlow | .close => True

theorem utf8_sideOp {k : IoCmd} {work : ConnId × SendSide.Op × Int} (utf8 : s.Utf8)
    (texts : k.Utf8) (works : sideOp s c e k = some work) : OpUtf8 work.2.1 := by
  have name := utf8.username c
  cases k with
  | handleClient => cases works
  | sendFrame v obj =>
      obtain rfl := Option.some.inj works
      exact texts
  | sendAck seq =>
      obtain rfl := Option.some.inj works
      exact utf8_textFrame "ACK" name wellFormed_nil (wellFormed_toDecimal seq) (e.nowTs 0)
  | refuse m reason =>
      obtain rfl := Option.some.inj works
      exact utf8_nackFrame name m.seq texts none (e.nowTs 0)
  | pushRows name rows =>
      cases rows with
      | nil => cases works
      | cons row rest =>
          obtain rfl := Option.some.inj works
          exact utf8_offlineFrame texts.1 (texts.2 row List.mem_cons_self)
  | relayTarget m v =>
      obtain rfl := Option.some.inj works
      exact utf8_messageFrame texts.sender texts.receiver wellFormed_nil texts.content m.ts
  | relayEach m room targets =>
      obtain ⟨mUtf8, roomUtf8⟩ := texts
      cases targets with
      | nil => cases works
      | cons target rest =>
          obtain rfl := Option.some.inj works
          exact utf8_messageFrame mUtf8.sender (wellFormed_bytes "ALL") roomUtf8 mUtf8.content m.ts
  | drainSlow v | closeConn v =>
      obtain rfl := Option.some.inj works
      exact trivial

theorem wellFormed_bodyOf {obj : Object} {seq : Int} {body : Bytes} (utf8 : obj.Utf8)
    (passed : SendSide.bodyOf obj seq = some body) : WellFormed body := by
  unfold SendSide.bodyOf at passed
  dsimp only at passed
  split at passed
  · cases passed
  · obtain rfl := Option.some.inj passed
    exact wellFormed_serialize (utf8.setNum (wellFormed_bytes "seq") seq)

theorem wellFormed_body {side : SendSide} {op : SendSide.Op} {body : Bytes} (utf8 : OpUtf8 op)
    (passed : op.body side = some body) : WellFormed body := by
  cases op with
  | sendFrame obj | sendRelay obj seq =>
      simp only [SendSide.Op.body] at passed
      split at passed
      · exact wellFormed_bodyOf utf8 passed
      · cases passed
  | drainSlow | close => cases passed

theorem notices_append (writes writes' : List Write) :
    notices (writes ++ writes') = notices writes ++ notices writes' :=
  List.filterMap_append

/-- The drain loop writes from the queue only. -/
theorem notices_drainTls (rounds : Nat) (side : SendSide) (results : List WriteResult) :
    notices (SendSide.drainTls rounds side results).1.writes = [] := by
  induction rounds generalizing side results with
  | zero => rfl
  | succ rounds inductionHypothesis =>
      unfold SendSide.drainTls
      split
      · rfl
      · dsimp only
        split
        · rfl
        · split
          · rfl
          · exact inductionHypothesis _ _

theorem notices_drainOutLocked (side : SendSide) (results : List WriteResult) :
    notices (side.drainOutLocked results).1.writes = [] := by
  unfold SendSide.drainOutLocked
  split
  · rfl
  · split
    · rfl
    · split
      · exact notices_drainTls _ side results
      · rfl

theorem mem_notices_notify {side : SendSide} {username body : Bytes} {ts : Int}
    {results : List WriteResult}
    (there : body ∈ notices (side.notifyOverpressure username ts results)) :
    body = serialize (overpressureFrame username ts) := by
  unfold SendSide.notifyOverpressure at there
  dsimp only at there
  split at there
  · exact List.mem_singleton.mp there
  · cases there

theorem mem_notices_sendLocked {side : SendSide} {packed username body : Bytes} {ts : Int}
    {results : List WriteResult}
    (there : body ∈ notices (side.sendLocked packed username ts results).writes) :
    body = serialize (overpressureFrame username ts) := by
  unfold SendSide.sendLocked at there
  split at there
  · cases there
  · dsimp only at there
    split at there
    · exact mem_notices_notify there
    · split at there
      · cases there
      · rw [notices_drainOutLocked] at there
        cases there

/-- Every notice is that of `notifyOverpressure`. -/
theorem mem_notices_run {side : SendSide} {op : SendSide.Op} {username body : Bytes} {ts : Int}
    {results : List WriteResult}
    (there : body ∈ notices (side.run op username ts results).writes) :
    body = serialize (overpressureFrame username ts) := by
  cases op with
  | sendFrame obj =>
      simp only [SendSide.run, SendSide.sendFrame] at there
      split at there
      · cases there
      · split at there
        · cases there
        · exact mem_notices_sendLocked there
  | sendRelay obj seq =>
      simp only [SendSide.run, SendSide.sendRelay] at there
      split at there
      · cases there
      · split at there
        · cases there
        · exact mem_notices_sendLocked there
  | drainSlow =>
      simp only [SendSide.run, SendSide.drainSlow] at there
      split at there
      · rw [notices_drainOutLocked] at there
        cases there
      · dsimp only at there
        rw [notices_append, notices_drainOutLocked, List.nil_append] at there
        exact mem_notices_notify there
  | close => cases there

theorem wellFormed_refusal {body : Bytes} (refused : refusal st s e = some body) :
    WellFormed body := by
  unfold refusal at refused
  split at refused
  · split at refused
    · obtain rfl := Option.some.inj refused
      apply wellFormed_serialize
      apply utf8_errFrame wellFormed_nil
      exact ((wellFormed_bytes _).append (wellFormed_toDecimal _)).append (wellFormed_bytes _)
    · cases refused
  · cases refused

theorem wellFormed_emitted {k : Cmd} (utf8 : s.Utf8) (texts : k.Utf8) :
    ∀ body ∈ emitted st s c e k, WellFormed body := by
  intro body sent
  unfold emitted at sent
  split at sent
  next k =>
    split at sent
    next v op ts works =>
      rcases List.mem_append.mp sent with queued | noticed
      · have passed := Option.mem_toList.mp queued
        exact wellFormed_body (utf8_sideOp utf8 texts works) passed
      · obtain rfl := mem_notices_run noticed
        exact wellFormed_serialize (utf8_overpressureFrame (utf8.username v) ts)
    next => cases sent
  next => exact wellFormed_refusal (Option.mem_toList.mp sent)
  next => cases sent

/-- The body of a section goes to `sendLocked`, behind what is queued. -/
theorem run_of_body {side : SendSide} {op : SendSide.Op} {body : Bytes}
    (passed : op.body side = some body) (user : Bytes) (ts : Int) (writes : List WriteResult) :
    ∃ queued : SendSide, queued.outbuf = side.outbuf ∧
      side.run op user ts writes = queued.sendLocked body user ts writes := by
  cases op with
  | sendFrame obj =>
      obtain ⟨isOpen, body'⟩ := Option.ite_none_right_eq_some.mp passed
      refine ⟨{ side with sendSeq := side.sendSeq + 1 }, rfl, ?_⟩
      simp only [SendSide.run, SendSide.sendFrame, isOpen, body', not_true_eq_false, if_false]
  | sendRelay obj seq =>
      obtain ⟨isOpen, body'⟩ := Option.ite_none_right_eq_some.mp passed
      refine ⟨side, rfl, ?_⟩
      simp only [SendSide.run, SendSide.sendRelay, isOpen, body', not_true_eq_false, if_false]
  | drainSlow | close => cases passed

/-- A section that queues a body and writes notices. -/
structure Queues (s s' : ChatServer) (e : Ext) (sent : List Bytes) (v : ConnId)
    (op : SendSide.Op) (ts : Int) : Prop where
  sides : s'.sides = Function.update s.sides v
    ((s.sides v).run op (s.sess.username v) ts e.writes).side
  sent : sent = (op.body (s.sides v)).toList ++
    notices ((s.sides v).run op (s.sess.username v) ts e.writes).writes
  queued : ∀ body, op.body (s.sides v) = some body → ∃ side : SendSide,
    side.outbuf = (s.sides v).outbuf ∧ (s.sides v).run op (s.sess.username v) ts e.writes =
      side.sendLocked body (s.sess.username v) ts e.writes

/-- What is emitted is what a section queues and writes, or a refusal.  Otherwise nothing is
queued. -/
theorem emitted_run {w w' : World} {k : Cmd} {new : List Cmd}
    (ran : w.run st c e k = some (w', new)) :
    (∃ v op ts, Queues w.server w'.server e (emitted st w.server c e k) v op ts) ∨
      (k = .limit .acceptLoop ∧ emitted st w.server c e k = (refusal st w.server e).toList) ∨
      (emitted st w.server c e k = [] ∧
        ∀ v, (w'.server.sides v).outbuf = (w.server.sides v).outbuf) := by
  cases k with
  | io k =>
      obtain ⟨r, step, result⟩ := Option.map_eq_some_iff.mp ran
      obtain ⟨rfl, -⟩ := Prod.mk.inj result
      cases works : sideOp w.server c e k with
      | none =>
          refine .inr (.inr ⟨?_, outbuf_runIo step works⟩)
          simp only [emitted, works]
      | some work =>
          obtain ⟨v, op, ts⟩ := work
          refine .inl ⟨v, op, ts, state_runIo step works, ?_, fun body passed => ?_⟩
          · simp only [emitted, works]
          · exact run_of_body passed _ ts e.writes
  | limit k =>
      obtain ⟨rfl, -⟩ := Prod.mk.inj (Option.some.inj ran)
      cases k with
      | acceptLoop => exact .inr (.inl ⟨rfl, rfl⟩)
      | _ => exact .inr (.inr ⟨rfl, fun _ => rfl⟩)
  | db k =>
      obtain ⟨r, -, result⟩ := Option.map_eq_some_iff.mp ran
      obtain ⟨rfl, -⟩ := Prod.mk.inj result
      exact .inr (.inr ⟨rfl, fun _ => rfl⟩)
  | own k | token k | sess k | router k | checkAndAdd m =>
      obtain ⟨rfl, -⟩ := Prod.mk.inj (Option.some.inj ran)
      exact .inr (.inr ⟨rfl, fun _ => rfl⟩)

end ChatServer

/-! ## Runs -/

/-- The server with the bodies that it sends as a history. -/
def sending (st : Startup) : Program Thread Ext Cmd (World × List Bytes) :=
  (server st).recording fun t e k w => emitted st w.server t.conn e k

/-- The next step takes no frame, or one whose texts are UTF-8 as far as the server passes
them on. -/
def receivesUtf8 (cfg : Config Thread Cmd (World × List Bytes)) (t : Thread) (_ : Ext) : Bool :=
  match cfg.stack t with
  | .own .frames :: _ => takesUtf8 cfg.shared.1.server t.conn
  | _ => true

theorem utf8_run {st : Startup} {w w' : World} {c : ConnId} {e : Ext} {k : Cmd} {new : List Cmd}
    {words : List Bytes} (utf8 : w.server.Utf8) (texts : k.Utf8)
    (listed : st.words = .ofWords words) (wordsUtf8 : ∀ word ∈ words, WellFormed word)
    (takes : k = .own .frames → takesUtf8 w.server c = true)
    (ran : w.run st c e k = some (w', new)) : w'.server.Utf8 ∧ CmdsUtf8 new := by
  cases k with
  | own k =>
      obtain ⟨rfl, rfl⟩ := Prod.mk.inj (Option.some.inj ran)
      obtain ⟨own, next⟩ := @utf8_runOwn st w.server c e k utf8 texts fun same => takes (same ▸ rfl)
      refine ⟨{ utf8 with chal := ?_ }, next⟩
      intro v
      by_cases same : v = c
      · subst same
        simpa using own
      · simpa [same] using utf8.chal v
  | limit k =>
      obtain ⟨rfl, rfl⟩ := Prod.mk.inj (Option.some.inj ran)
      exact ⟨{ utf8 with }, utf8_runLimit utf8 texts listed wordsUtf8⟩
  | token k =>
      obtain ⟨rfl, rfl⟩ := Prod.mk.inj (Option.some.inj ran)
      obtain ⟨tokens, next⟩ := @utf8_runToken st w.server c e k utf8 texts
      exact ⟨{ utf8 with tokens }, next⟩
  | sess k =>
      obtain ⟨rfl, rfl⟩ := Prod.mk.inj (Option.some.inj ran)
      obtain ⟨username, router, next⟩ := @utf8_runSess st w.server c e k utf8 texts
      exact ⟨{ utf8 with username, router }, next⟩
  | router k =>
      obtain ⟨rfl, rfl⟩ := Prod.mk.inj (Option.some.inj ran)
      obtain ⟨router, next⟩ := @utf8_runRouter w.server c e k utf8 texts
      exact ⟨{ utf8 with router }, next⟩
  | db k =>
      obtain ⟨r, step, result⟩ := Option.map_eq_some_iff.mp ran
      obtain ⟨rfl, rfl⟩ := Prod.mk.inj result
      obtain ⟨db, next⟩ := utf8_runDb utf8 texts step
      exact ⟨{ utf8 with db }, next⟩
  | io k =>
      obtain ⟨r, step, result⟩ := Option.map_eq_some_iff.mp ran
      obtain ⟨rfl, rfl⟩ := Prod.mk.inj result
      exact ⟨{ utf8 with }, utf8_runIo texts step⟩
  | checkAndAdd m =>
      obtain ⟨rfl, rfl⟩ := Prod.mk.inj (Option.some.inj ran)
      exact ⟨{ utf8 with }, utf8_checkAndAdd texts⟩

/-! ## The start -/

theorem utf8_loadOrCreateLobby {db : Database Origin} {ts : Int}
    {lists creates finds : SqlOutcome} (utf8 : db.Utf8) :
    (loadOrCreateLobby db ts lists creates finds).1.Utf8 ∧
      (loadOrCreateLobby db ts lists creates finds).2.Utf8 := by
  have lobby := wellFormed_bytes "lobby"
  have owner := wellFormed_bytes "SERVER"
  have loaded : ∀ (rows : List (Int × RoomRow)) (r : RoomRouter), r.Utf8 →
      (∀ row ∈ rows, WellFormed row.2.name ∧ WellFormed row.2.owner) →
      (rows.foldl (fun (router : RoomRouter) row =>
        (router.create row.2.name row.2.owner row.1 row.2.createdAt).2) r).Utf8 := by
    intro rows
    induction rows with
    | nil => exact fun r routerUtf8 _ => routerUtf8
    | cons row rows inductionHypothesis =>
        intro r routerUtf8 rowsUtf8
        obtain ⟨first, rest⟩ := List.forall_mem_cons.mp rowsUtf8
        exact inductionHypothesis _ (routerUtf8.create first.1 first.2 _ _) rest
  have router := loaded (db.listRooms lists) {} RoomRouter.utf8_empty utf8.listRooms
  unfold loadOrCreateLobby
  dsimp only
  split
  · exact ⟨utf8, router⟩
  · have after := utf8.createRoom (e := creates) lobby owner ts
    split
    next result =>
      rw [result] at after
      exact ⟨after, router⟩
    next result =>
      rw [result] at after
      exact ⟨after, router.create lobby owner _ ts⟩

theorem utf8_boot {File : Type} {st : Startup} {file : Database File} {b : BootExt}
    (utf8 : file.Utf8) : (boot st file b).Utf8 where
  chal _ := ⟨wellFormed_nil, wellFormed_nil, wellFormed_nil⟩
  username _ := wellFormed_nil
  router := (utf8_loadOrCreateLobby utf8.reopen).2
  db := (utf8_loadOrCreateLobby utf8.reopen).1
  tokens := nofun

/-- Every body that goes out is UTF-8, and so are the texts of the database, as long as the
frames that arrive hand UTF-8 on.  The file may be that of an earlier run.  The bodies are
those of `emitted_run`. -/
theorem wellFormed_of_run {File : Type} {st : Startup} {file : Database File} {b : BootExt}
    {words : List Bytes} {cfg : Config Thread Cmd (World × List Bytes)}
    (listed : st.words = .ofWords words) (wordsUtf8 : ∀ word ∈ words, WellFormed word)
    (stored : file.Utf8)
    (run : (sending st).Reaches receivesUtf8 ((start st file b).noted []) cfg) :
    (∀ body ∈ cfg.shared.2, WellFormed body) ∧ cfg.shared.1.server.db.Utf8 := by
  suffices invariant : cfg.shared.1.server.Utf8 ∧ (∀ t, CmdsUtf8 (cfg.stack t)) ∧
      ∀ body ∈ cfg.shared.2, WellFormed body from
    ⟨invariant.2.2, invariant.1.db⟩
  apply run.invariant
  · refine ⟨utf8_boot stored, ?_, nofun⟩
    intro t
    cases t <;> exact cmdsUtf8_one trivial
  · intro cfg t e k rest s new _ holds allowed stack ran
    obtain ⟨utf8, pending, sent⟩ := holds
    obtain ⟨ran, noted⟩ := Program.exec_recording.mp ran
    obtain ⟨-, ran⟩ := exec_eq_some_iff.mp ran
    obtain ⟨texts, below⟩ := List.forall_mem_cons.mp (stack ▸ pending t : CmdsUtf8 (k :: rest))
    have takes : k = .own .frames → takesUtf8 cfg.shared.1.server t.conn = true := by
      rintro rfl
      simpa [receivesUtf8, stack] using allowed
    obtain ⟨after, next⟩ := utf8_run utf8 texts listed wordsUtf8 takes ran
    refine ⟨after, ?_, ?_⟩
    · intro t'
      by_cases own : t' = t
      · subst own
        simpa using next.append below
      · simpa [own] using pending t'
    · dsimp only
      rw [noted]
      exact List.forall_mem_append.mpr ⟨sent, wellFormed_emitted utf8 texts⟩

namespace Demo

/-- A PING with that content arrives on connection 1 and is answered. -/
def pings (content : Bytes) : Schedule :=
  connects 1 ++ receives 1 (request "PING" [("content", .str content)]) ++ steps (.client 1) 1

theorem utf8_file : file.Utf8 where
  users row there := by
    obtain rfl : row = (1, aliceRow) := List.mem_singleton.mp there
    exact ⟨wellFormed_bytes "alice", wellFormed_toHex _⟩
  rooms := nofun
  offline := nofun
  messages := nofun
  saved := nofun

end Demo

/-- The PONG to a greeting. -/
theorem wellFormed_of_run_greeted :
    ∃ cfg, (sending Demo.startup).Reaches receivesUtf8 ((start Demo.startup Demo.file {}).noted [])
        cfg ∧ cfg.shared.2 ≠ [] ∧ (∀ body ∈ cfg.shared.2, WellFormed body) ∧
      cfg.shared.1.server.db.Utf8 := by
  obtain ⟨cfg, run, sent⟩ := Program.exists_reaches_of_play (sending Demo.startup) receivesUtf8
    (Demo.pings (bytes "你好")) ((start Demo.startup Demo.file {}).noted [])
    (fun cfg => decide (cfg.shared.2 ≠ [])) (by decide +kernel)
  have listed : Demo.startup.words = .ofWords [] := rfl
  exact ⟨cfg, run, of_decide_eq_true sent, wellFormed_of_run listed nofun Demo.utf8_file run⟩

/-- A lone continuation byte in a PING comes back as it is. -/
theorem not_wellFormed_pong :
    ¬ ∀ cfg, (sending Demo.startup).Reaches Program.always
        ((start Demo.startup Demo.file {}).noted []) cfg →
      ∀ body ∈ cfg.shared.2, WellFormed body := by
  intro claim
  obtain ⟨cfg, run, sent⟩ := Program.exists_reaches_of_play (sending Demo.startup) Program.always
    (Demo.pings [0x80]) ((start Demo.startup Demo.file {}).noted [])
    (fun cfg => cfg.shared.2.any fun body => ¬ WellFormed body) (by decide +kernel)
  obtain ⟨body, there, broken⟩ := List.any_eq_true.mp sent
  exact of_decide_eq_true broken (claim cfg run body there)

end OnlineChat
