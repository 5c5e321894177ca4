import OnlineChat.Server.State

/-!
# Rooms

Broadcasts to a room, joining and leaving, the list of the rooms, history pages, and
`dropConn`.
-/

namespace OnlineChat.ChatServer

open Library MiniJson

variable (s : ChatServer) (c : ConnId) (e : Ext)

/-! ## Broadcasts -/

def broadcastRoomSystem (room text : Bytes) (exclude : Option ConnId) : Effect RoomRouter Empty :=
  { state := s.router
    next := [.sess (.roomConns (s.router.members room)
      (systemFrame (bytes "ALL") room text (e.nowTs 0)) exclude)] }

def broadcastRoomUserlist (room : Bytes) : Effect RoomRouter Empty :=
  { state := s.router
    next := [.router (.userlistConns room
      (userlistFrame room (s.router.members room) (e.nowTs 0)))] }

/-- The second look at the members, for the receivers of the user list. -/
def userlistConns (room : Bytes) (obj : Object) : Effect RoomRouter Empty :=
  { state := s.router, next := [.sess (.roomConns (s.router.members room) obj none)] }

/-- The connections of those of the names that are online. -/
def onlineConns (names : List Bytes) : List ConnId := names.filterMap s.sess.online

/-- `roomConns`, and a `sendFrame` to each connection but one. -/
def roomConns (names : List Bytes) (obj : Object) (exclude : Option ConnId) :
    Effect (Sessions × RoomRouter) SessEvent :=
  { state := (s.sess, s.router)
    next := ((s.onlineConns names).filter fun v => some v ≠ exclude).map fun v =>
      .io (.sendFrame v obj) }

def leaveRoomNotify (name room : Bytes) : List Cmd :=
  [.router (.broadcastRoomSystem room (name ++ bytes " 离开了房间") none),
    .router (.broadcastRoomUserlist room)]

/-! ## Joining and leaving -/

def doJoin (obj : Object) : Effect RoomRouter Empty :=
  let room := obj.getStr (bytes "content")
  { state := s.router
    next :=
      if ¬ validRoomName room then
        [s.sendErr c .badRoomName "房间名非法（1-32 字符，非保留字）" (e.nowTs 0)]
      else if ¬ s.router.exists room then
        [s.sendErr c .noSuchRoom "加入失败：房间不存在，可用 /create 创建" (e.nowTs 0)]
      else [.router (.joinRoom room)] }

/-- `router_.join` in `doJoin`. -/
def joinRoom (room : Bytes) : Effect RoomRouter Empty :=
  let name := s.sess.username c
  match s.router.join name room with
  | (none, router) =>
      { state := router, next := [s.sendErr c .noSuchRoom "加入失败：房间不存在" (e.nowTs 0)] }
  | (some prev, router) =>
      { state := router
        next :=
          if prev = room then [.router (.sendJoinState room)]
          else
            (if prev ≠ [] then leaveRoomNotify name prev else []) ++
              [.router (.sendJoinState room),
                .router (.broadcastRoomSystem room (name ++ bytes " 进入了房间") (some c)),
                .router (.broadcastRoomUserlist room)] }

def sendJoinState (room : Bytes) : Effect RoomRouter Empty :=
  { state := s.router
    next := [.io (.sendFrame c
      (joinOkFrame (s.sess.username c) room (s.router.members room) (e.nowTs 0)))] }

def doLeave : Effect RoomRouter Empty :=
  let name := s.sess.username c
  let (room, router) := s.router.leave name
  { state := router
    next :=
      if room = [] then
        [s.sendErr c .notInRoom "尚未加入任何房间，无法 /leave" (e.nowTs 0)]
      else leaveRoomNotify name room ++ [.io (.sendFrame c (leaveOkFrame name room (e.nowTs 0)))] }

/-! ## The list of the rooms -/

def doRooms : Effect RoomRouter Empty :=
  { state := s.router
    next := [.io (.sendFrame c
      (roomsListFrame (s.sess.username c) s.router.list (e.nowTs 0)))] }

def doCreate (obj : Object) : Effect Client OwnEvent :=
  let room := obj.getStr (bytes "content")
  { state := s.clients c
    next :=
      if ¬ validRoomName room then
        [s.sendErr c .badRoomName "房间名非法（1-32 字符，非保留字）" (e.nowTs 0)]
      else [.db (.insertRow room (e.nowTs 0) none)] }

/-- `db_.create_room` in `doCreate`. -/
def insertRow (room : Bytes) (ts : Int) (since : Option Nat) :
    Option (Effect (Database Origin) DbEvent) :=
  s.whenTxIdle e since (.insertRow room ts)
    (match s.db.createRoom room (s.sess.username c) ts e.sql with
    | (.duplicate, db) =>
        { state := db, next := [s.sendErr c .roomExists "创建失败：房间已存在" (e.nowTs 0)] }
    | (.failed, db) =>
        { state := db, next := [s.sendErr c .db "创建失败：数据库错误" (e.nowTs 0)] }
    | (.inserted, db) => { state := db, next := [.db (.findRow room ts)] })

/-- `db_.find_room_id` in `doCreate`. -/
def findRow (room : Bytes) (ts : Int) : Effect (Database Origin) DbEvent :=
  { state := s.db, next := [.router (.createRoom room (s.db.findRoomId room e.sql) ts)] }

/-- `router_.create` in `doCreate`. -/
def createRoom (room : Bytes) (dbId ts : Int) : Effect RoomRouter Empty :=
  { state := (s.router.create room (s.sess.username c) dbId ts).2
    next := [.io (.sendFrame c (createOkFrame (s.sess.username c) room (e.nowTs 0)))] }

/-! ## History -/

/-- `kHistPageSize`. -/
def kHistPageSize : Nat := 50

/-- `sendHistPage` of at most one page of the rows. -/
def sendHistPage (kind room : Bytes) (rows : List (Int × Message Origin)) (ts : Int) : Cmd :=
  .io (.sendFrame c (pageFrame kind (s.sess.username c) room (rows.take kHistPageSize)
    (kHistPageSize < rows.length) ts))

def doHist (obj : Object) : Effect RoomRouter Empty :=
  let room := s.router.userRoom (s.sess.username c)
  { state := s.router
    next :=
      if room = [] then
        [s.sendErr c .notInRoom
          "尚未加入房间，无法拉取历史（/join 后自动拉最近 50 条）" (e.nowTs 0)]
      else [.router (.histRoomId room (obj.getStr (bytes "content")))] }

/-- `router_.db_id` in `doHist`, and the cursor. -/
def histRoomId (room cur : Bytes) : Effect RoomRouter Empty :=
  let roomId := s.router.dbId room
  { state := s.router
    next :=
      if roomId ≤ 0 then [s.sendErr c .db "房间数据异常" (e.nowTs 0)]
      else if cur = [] then [.db (.historyPage room roomId none)]
      else
        match parseCursor cur with
        | none => [s.sendErr c .badCursor "历史游标非法（应为 ts:id）" (e.nowTs 0)]
        | some cursor => [.db (.historyPage room roomId (some cursor))] }

def historyPage (room : Bytes) (roomId : Int) (cursor : Option (Int × Int)) :
    Effect (Database Origin) DbEvent :=
  let rows :=
    match cursor with
    | none => s.db.historyLatest roomId (kHistPageSize + 1) e.sql
    | some (ts, id) => s.db.historyBefore roomId ts id (kHistPageSize + 1) e.sql
  { state := s.db, next := [s.sendHistPage c (bytes "HISTORY") room rows (e.nowTs 0)] }

def doInbox (obj : Object) : Effect (Database Origin) DbEvent :=
  let cur := obj.getStr (bytes "content")
  let name := s.sess.username c
  let page (rows : List (Int × Message Origin)) : List Cmd :=
    [s.sendHistPage c (bytes "INBOX") [] rows (e.nowTs 0)]
  { state := s.db
    next :=
      if cur = [] then page (s.db.inboxLatest name (kHistPageSize + 1) e.sql)
      else
        match parseCursor cur with
        | none => [s.sendErr c .badCursor "收件箱游标非法（应为 ts:id）" (e.nowTs 0)]
        | some (ts, id) => page (s.db.inboxBefore name ts id (kHistPageSize + 1) e.sql) }

/-! ## A connection goes -/

/-- `dropConn`.  A connection that is gone already is left alone, and a user whose
session is on another connection by now stays online and in his room. -/
def dropConn (v : ConnId) (notifyRoom : Bool) : Effect (Sessions × RoomRouter) SessEvent :=
  if v ∉ s.sess.conns then { state := (s.sess, s.router) }
  else
    let sess := { s.sess with
      conns := s.sess.conns.filter (· ≠ v)
      authed := Function.update s.sess.authed v false }
    let name := s.sess.username v
    if s.sess.authed v ∧ s.sess.online name = some v then
      let room := s.router.userRoom name
      { state := ({ sess with online := Function.update s.sess.online name none },
          if room ≠ [] then (s.router.leave name).2 else s.router)
        events := [.dropped v]
        next := if notifyRoom ∧ room ≠ [] then leaveRoomNotify name room else [] }
    else { state := (sess, s.router), events := [.dropped v] }

end OnlineChat.ChatServer
