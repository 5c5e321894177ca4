import OnlineChat.Server.State

/-!
# Messages

`doMessage` from the rate limit to the relay, and the push of the offline rows.
-/

namespace OnlineChat.ChatServer

open Library MiniJson Database

variable (st : Startup) (s : ChatServer) (c : ConnId) (e : Ext)

/-! ## Up to the idempotency slot -/

/-- `doMessage` up to `check_and_add`. -/
def doMessage (obj : Object) : Effect (KeyedRateLimiter × KeyedRateLimiter) Empty :=
  let sender := s.sess.username c
  let seq := obj.getNum (bytes "seq")
  let ts := if obj.getNum (bytes "ts") ≤ 0 then e.nowTs 0 else obj.getNum (bytes "ts")
  if seq ≤ 0 then
    { state := (s.connLimit, s.msgLimit)
      next := [s.sendNack c seq (bytes "seq 必须为正整数（去重键）") none (e.nowTs 1)] }
  else
    let content := obj.getStr (bytes "content")
    let (ok, limit) :=
      if 0 < st.cfg.msgRate then s.msgLimit.allow sender (e.nowSec 1) else (true, s.msgLimit)
    let proceed (content : Bytes) : List Cmd :=
      [.checkAndAdd { sender, seq, receiver := obj.getStr (bytes "to"), content, ts }]
    { state := (s.connLimit, limit)
      next :=
        if ¬ ok then
          [s.sendNack c seq (bytes "发送过于频繁：每用户每秒最多 " ++ toDecimal st.cfg.msgRate.floor ++
            bytes " 条消息，请稍后重试") (some .msgRate) (e.nowTs 2)]
        else if st.words.isEmpty then proceed content
        else
          match st.words.contains content with
          | none => proceed content
          | some hit =>
              if st.cfg.filterReject then
                [s.sendNack c seq (bytes "消息包含敏感词「" ++ hit ++ bytes "」，已拒绝发送")
                  (some .sensitive) (e.nowTs 2)]
              else proceed (st.words.filter content 42) }

/-- `check_and_add` in `doMessage`, and the check of the receiver. -/
def checkAndAdd (m : ChatMsg) : Bool × SeqDeduper × List Cmd :=
  match s.dedup.checkAndAdd m.sender m.seq with
  | (false, dedup) => (false, dedup, [.io (.sendAck m.seq)])
  | (true, dedup) =>
      (true, dedup,
        if m.receiver = bytes "ALL" then [.router (.routeRoom m)]
        else if m.receiver = [] ∨ m.receiver = bytes "SERVER" ∨ ¬ validUsername m.receiver then
          [.io (.refuse m (bytes "接收者非法"))]
        else [.db (.findReceiver m)])

/-! ## To a room -/

def routeRoom (m : ChatMsg) : Effect RoomRouter Empty :=
  let room := s.router.userRoom m.sender
  { state := s.router
    next :=
      if room = [] then [.io (.refuse m (bytes "尚未加入房间，无法群聊（/join 后再发）"))]
      else [.router (.roomDbId m room)] }

def roomDbId (m : ChatMsg) (room : Bytes) : Effect RoomRouter Empty :=
  { state := s.router, next := [.db (.insertRoomMsg m room (s.router.dbId room) .start)] }

/-- `++tx_gen_` of an `int`. -/
def bumpGen (gen : Int) : Int := (gen + 1 + 2 ^ 31) % 2 ^ 32 - 2 ^ 31

/-- The row of a message to a room. -/
def roomRow (m : ChatMsg) (roomId : Int) : Message Origin :=
  roomMessage roomId m.sender m.content m.ts (some ⟨c, m.sender, m.seq⟩)

/-- The row of a private message. -/
def privateRow (m : ChatMsg) : Message Origin :=
  privateMessage m.sender m.receiver m.content m.ts (some ⟨c, m.sender, m.seq⟩)

/-- One section of a call that inserts `row`.  The `INSERT` runs in the section in which
the call gets in. -/
def insertMsg (m : ChatMsg) (row : Message Origin) (state : CallState) (again : CallState → DbCmd)
    (stored : List Cmd) : Option (Effect (Database Origin) DbEvent) :=
  (s.db.advance bumpGen row e.sql state).map fun
    | (db, .goes state') =>
        { state := db
          events :=
            match state, state' with
            | .enter _, .enter _ => []
            | .enter _, _ => [.inserted m.sender m.seq]
            | _, _ => []
          next := [.db (again state')] }
    | (db, .returns id) =>
        { state := db, next := if id < 0 then [.io (.refuse m (bytes "消息落库失败"))] else stored }

def insertRoomMsg (m : ChatMsg) (room : Bytes) (roomId : Int) (state : CallState) :
    Option (Effect (Database Origin) DbEvent) :=
  insertMsg s e m (roomRow c m roomId) state (.insertRoomMsg m room roomId)
    [.router (.broadcastRoomRelay m room), .io (.sendAck m.seq)]

def broadcastRoomRelay (m : ChatMsg) (room : Bytes) : Effect RoomRouter Empty :=
  { state := s.router, next := [.sess (.relayConns m room (s.router.members room))] }

/-- `roomConns` in `broadcastRoomRelay`. -/
def relayConns (m : ChatMsg) (room : Bytes) (names : List Bytes) :
    Effect (Sessions × RoomRouter) SessEvent :=
  { state := (s.sess, s.router), events := [.fanOut m.sender m.seq]
    next := [.io (.relayEach m room (names.filterMap s.sess.online))] }

/-! ## To a user -/

def findReceiver (m : ChatMsg) : Effect (Database Origin) DbEvent :=
  { state := s.db
    next :=
      match s.db.findUser m.receiver e.sql with
      | none => [.io (.refuse m (bytes "用户不存在：" ++ m.receiver))]
      | some _ => [.db (.insertPrivateMsg m .start)] }

def insertPrivateMsg (m : ChatMsg) (state : CallState) :
    Option (Effect (Database Origin) DbEvent) :=
  insertMsg s e m (privateRow c m) state (.insertPrivateMsg m)
    [.io (.sendAck m.seq), .sess (.findTarget m)]

def findTarget (m : ChatMsg) : Effect (Sessions × RoomRouter) SessEvent :=
  match s.sess.online m.receiver with
  | some v =>
      { state := (s.sess, s.router), events := [.fanOut m.sender m.seq]
        next := [.io (.relayTarget m v)] }
  | none => { state := (s.sess, s.router), next := [.db (.insertOffline m none none)] }

def insertOffline (m : ChatMsg) (target : Option ConnId) (since : Option Nat) :
    Option (Effect (Database Origin) DbEvent) :=
  s.whenTxIdle e since (.insertOffline m target)
    { state := s.db.insertOffline m.sender m.receiver m.content m.ts e.sql
      next := (target.map fun v => .sess (.dropConn v true)).toList }

/-! ## The push of the offline rows -/

def pushOffline (name : Bytes) : Effect (Database Origin) DbEvent :=
  let rows := s.db.undelivered name e.sql
  { state := s.db, events := [.pushStarted c name rows], next := [.io (.pushRows name rows)] }

def markDelivered (name : Bytes) (id : Int) (rest : List OffRow) (since : Option Nat) :
    Option (Effect (Database Origin) DbEvent) :=
  s.whenTxIdle e since (.markDelivered name id rest)
    { state := s.db.markDelivered id e.sql, next := [.io (.pushRows name rest)] }

end OnlineChat.ChatServer
