import OnlineChat.Server.Auth
import OnlineChat.Server.Messages
import OnlineChat.Server.Rooms

/-!
# The server as a program of threads

The loops of the three kinds of threads, the executors of the command groups, and the
state in which the server starts.
-/

namespace OnlineChat

open Library MiniJson

namespace ChatServer

variable (st : Startup) (s : ChatServer) (c : ConnId) (e : Ext)

/-! ## The accept loop -/

/-- An accepted socket is refused by the rate limit or gets a connection. -/
def acceptLoop : Effect (KeyedRateLimiter × KeyedRateLimiter) Empty :=
  match e.peer with
  | none => { state := (s.connLimit, s.msgLimit), next := [.limit .acceptLoop] }
  | some (ip, port) =>
      let (ok, limit) :=
        if 0 < st.cfg.connRate then s.connLimit.allow ip (e.nowSec 0) else (true, s.connLimit)
      { state := (limit, s.msgLimit)
        next := if ok then [.sess (.acceptInstall ip port)] else [.limit .acceptLoop] }

def acceptInstall (ip : Bytes) (port : Nat) : Effect (Sessions × RoomRouter) SessEvent :=
  let id := s.sess.nextId + 1
  let arrival : Arrival := { peer := ip ++ 58 :: toDecimalNat port, time := e.clock 0 }
  { state := ({ s.sess with
        nextId := id
        arrival := Function.update s.sess.arrival id arrival
        conns := s.sess.conns ++ [id] }, s.router)
    next := [.limit .acceptLoop] }

/-! ## The thread of a connection -/

/-- The thread of a connection starts when the connection has been accepted. -/
def handleClient : Option (Effect (ConnId → SendSide) IoEvent) :=
  if c = 0 ∨ s.sess.nextId < c then none
  else if ¬ st.cfg.tls then some { state := s.sides, next := [.own .recvLoop] }
  else if e.handshake then
    some
      { state := Function.update s.sides c { s.sides c with tls := true }
        next := [.own .recvLoop] }
  else some { state := s.sides, next := [.sess (.dropConn c true), .io (.closeConn c)] }

def recvLoop : Effect Client OwnEvent :=
  let client := s.clients c
  let quit : List Cmd := [.sess (.dropConn c true), .io (.closeConn c)]
  match e.received with
  | .data chunk =>
      if chunk = [] then { state := client, next := quit }
      else
        { state := { client with
            lastActive := some (e.clock 0), reader := client.reader.feed (chunk.take 4096) }
          next := [.own .frames] }
  | .interrupted => { state := client, next := [.own .recvLoop] }
  | .closed | .failed => { state := client, next := quit }

/-- `handleBody`: what is to be run, and whether the connection ends then. -/
def handleBody (body : Bytes) : List Cmd × Bool :=
  match parse body with
  | .error _ => ([], false)
  | .ok obj =>
      let type := obj.getStr (bytes "type")
      if type = bytes "PING" then
        ([.io (.sendFrame c
          (pongFrame (s.sess.username c) (obj.getStr (bytes "content")) (e.nowTs 0)))], false)
      else if type = bytes "REGISTER_HELLO" then ([.limit (.doRegisterHello obj)], false)
      else if type = bytes "LOGIN_HELLO" then ([.limit (.doLoginHello obj)], false)
      else if type = bytes "REGISTER" then ([.own (.doRegister obj)], false)
      else if type = bytes "LOGIN" then ([.own (.doLogin obj)], false)
      else if type = bytes "AUTH" then ([.token (.doAuth obj)], false)
      else if type = bytes "LOGOUT" then ([.sess (.dropConn c true)], true)
      else if ¬ s.sess.authed c then
        ([s.sendErr c .notAuth "尚未登录，请先 LOGIN/AUTH 认证" (e.nowTs 0)], false)
      else if type = bytes "JOIN" then ([.router (.doJoin obj)], false)
      else if type = bytes "LEAVE" then ([.router .doLeave], false)
      else if type = bytes "ROOMS" then ([.router .doRooms], false)
      else if type = bytes "CREATE" then ([.own (.doCreate obj)], false)
      else if type = bytes "HIST" then ([.router (.doHist obj)], false)
      else if type = bytes "INBOX" then ([.db (.doInbox obj)], false)
      else if type = bytes "MESSAGE" then ([.limit (.doMessage obj)], false)
      else ([], false)

/-- The loop over the frames that have arrived. -/
def frames : Effect Client OwnEvent :=
  let client := s.clients c
  let quit : List Cmd := [.sess (.dropConn c true), .io (.closeConn c)]
  match client.reader.next with
  | (some body, reader) =>
      let handled := handleBody s c e body
      { state := { client with reader }
        next := handled.1 ++ if handled.2 then quit else [.own .frames] }
  | (none, reader) =>
      { state := { client with reader }
        next := if reader.failed then quit else [.own .recvLoop] }

/-! ## The scan thread -/

/-- The heartbeat part of a round of `monitorLoop`. -/
def monitorLoop : Effect (Sessions × RoomRouter) SessEvent :=
  let idle (v : ConnId) : Bool :=
    st.cfg.idleMs < e.clock 0 - ((s.clients v).lastActive.getD (s.sess.arrival v).time)
  { state := (s.sess, s.router)
    next := ((e.iterate s.sess.conns).filter idle).map (fun v => .sess (.dropConn v true)) ++
      [.sess .monitorDrain] }

/-- The part that drains the queues. -/
def monitorDrain : Effect (Sessions × RoomRouter) SessEvent :=
  let slow (v : ConnId) : Bool := (s.sides v).outbuf ≠ []
  { state := (s.sess, s.router)
    next := ((e.iterate s.sess.conns).filter slow).map (fun v => .io (.drainSlow v)) ++
      [.sess .monitorLoop] }

/-! ## The executors of the groups -/

def runOwn : OwnCmd → Effect Client OwnEvent
  | .recvLoop => recvLoop s c e
  | .frames => frames s c e
  | .sendChallenge user saltHex isRegister => sendChallenge s c e user saltHex isRegister
  | .doRegister obj => doRegister st s c e obj
  | .doLogin obj => doLogin s c e obj
  | .doCreate obj => doCreate s c e obj

def runLimit : LimitCmd → Effect (KeyedRateLimiter × KeyedRateLimiter) Empty
  | .acceptLoop => acceptLoop st s e
  | .doRegisterHello obj => doRegisterHello st s c e obj
  | .doLoginHello obj => doLoginHello st s c e obj
  | .doMessage obj => doMessage st s c e obj

def runToken : TokenCmd → Effect TokenBook Empty
  | .doAuth obj => doAuth st s c e obj
  | .issueLogin name => issueLogin st s e name
  | .issueAuth name old => issueAuth st s e name old

def runSess : SessCmd → Effect (Sessions × RoomRouter) SessEvent
  | .acceptInstall ip port => acceptInstall s e ip port
  | .monitorLoop => monitorLoop st s e
  | .monitorDrain => monitorDrain s e
  | .checkLogin name => checkLogin s c e name
  | .installLogin name token exp => installLogin s c name token exp
  | .installAuth name => installAuth s c name
  | .dropConn v notifyRoom => dropConn s v notifyRoom
  | .roomConns names obj exclude => roomConns s names obj exclude
  | .relayConns m room names => relayConns s m room names
  | .findTarget m => findTarget s m

def runRouter : RouterCmd → Effect RoomRouter Empty
  | .finishAuth name token exp old => finishAuth s c e name token exp old
  | .finishRoom name old => finishRoom s e name old
  | .sendJoinState room => sendJoinState s c e room
  | .doJoin obj => doJoin s c e obj
  | .joinRoom room => joinRoom s c e room
  | .doLeave => doLeave s c e
  | .doRooms => doRooms s c e
  | .createRoom room dbId ts => createRoom s c e room dbId ts
  | .doHist obj => doHist s c e obj
  | .histRoomId room cur => histRoomId s c e room cur
  | .broadcastRoomSystem room text exclude => broadcastRoomSystem s e room text exclude
  | .broadcastRoomUserlist room => broadcastRoomUserlist s e room
  | .userlistConns room obj => userlistConns s room obj
  | .routeRoom m => routeRoom s m
  | .roomDbId m room => roomDbId s m room
  | .broadcastRoomRelay m room => broadcastRoomRelay s m room

def runDb : DbCmd → Option (Effect (Database Origin) DbEvent)
  | .findHello name isRegister => some (findHello s c e name isRegister)
  | .createUser name derived saltHex stored since =>
      createUser s c e name derived saltHex stored since
  | .findLogin name proof nonceHex => some (findLogin st s c e name proof nonceHex)
  | .insertRow room ts since => insertRow s c e room ts since
  | .findRow room ts => some (findRow s e room ts)
  | .historyPage room roomId cursor => some (historyPage s c e room roomId cursor)
  | .doInbox obj => some (doInbox s c e obj)
  | .findReceiver m => some (findReceiver s e m)
  | .insertRoomMsg m room roomId state => insertRoomMsg s c e m room roomId state
  | .insertPrivateMsg m state => insertPrivateMsg s c e m state
  | .insertOffline m target since => insertOffline s e m target since
  | .pushOffline name => some (pushOffline s c e name)
  | .markDelivered name id rest since => markDelivered s e name id rest since

/-- A section on the send side of `v`, which leaves `events`, and what follows when it
succeeded or failed. -/
def sendSection (v : ConnId) (result : Section) (events : List IoEvent) (sent lost : List Cmd) :
    Effect (ConnId → SendSide) IoEvent :=
  { state := Function.update s.sides v result.side, events
    next := if result.ok then sent else lost }

def runIo : IoCmd → Option (Effect (ConnId → SendSide) IoEvent)
  | .handleClient => handleClient st s c e
  | .sendFrame v obj =>
      some (s.sendSection v ((s.sides v).sendFrame obj (s.sess.username v) (e.nowTs 0) e.writes)
        [] [] [])
  | .sendAck seq =>
      some (s.sendSection c ((s.sides c).sendFrame (ackFrame (s.sess.username c) seq (e.nowTs 0))
        (s.sess.username c) (e.nowTs 1) e.writes) [.acked c (s.sess.username c) seq] [] [])
  | .refuse m reason =>
      some (s.sendSection c ((s.sides c).sendFrame
        (nackFrame (s.sess.username c) m.seq reason none (e.nowTs 0))
        (s.sess.username c) (e.nowTs 1) e.writes) [.refused m.sender m.seq] [] [])
  | .pushRows _ [] => some { state := s.sides }
  | .pushRows name (row :: rest) =>
      let result :=
        (s.sides c).sendRelay (offlineFrame name row) 0 (s.sess.username c) (e.nowTs 0) e.writes
      some (s.sendSection c result (if result.ok then [.handed c row] else [])
        [.db (.markDelivered name row.id rest none)] [])
  | .relayTarget m v =>
      some (s.sendSection v ((s.sides v).sendRelay
        (messageFrame m.sender m.receiver [] m.content m.ts) m.seq (s.sess.username v)
        (e.nowTs 0) e.writes) [.relayed v m.sender m.seq] []
        [.db (.insertOffline m (some v) none)])
  | .relayEach _ _ [] => some { state := s.sides }
  | .relayEach m room (v :: rest) =>
      some (s.sendSection v ((s.sides v).sendRelay
        (messageFrame m.sender (bytes "ALL") room m.content m.ts) m.seq (s.sess.username v)
        (e.nowTs 0) e.writes) [.relayed v m.sender m.seq] [.io (.relayEach m room rest)]
        [.sess (.dropConn v true), .io (.relayEach m room rest)])
  | .drainSlow v =>
      some (s.sendSection v ((s.sides v).drainSlow (s.sess.username v) (e.nowTs 0) e.writes) []
        [] [.sess (.dropConn v true)])
  | .closeConn v => some (s.sendSection v ⟨true, (s.sides v).close, []⟩ [] [] [])

end ChatServer

/-! ## The program -/

open ChatServer

/-- The threads that a command is part of. -/
def Cmd.runsOn (k : Cmd) (t : Thread) : Bool :=
  match k with
  | .limit .acceptLoop | .sess (.acceptInstall _ _) => t = .accept
  | .sess .monitorLoop | .sess .monitorDrain | .io (.drainSlow _) => t = .monitor
  | .sess (.dropConn _ _) | .sess (.roomConns _ _ _) | .router (.broadcastRoomSystem _ _ _)
  | .router (.broadcastRoomUserlist _) | .router (.userlistConns _ _) | .io (.sendFrame _ _) =>
      true
  | _ => t.isClient

/-- One command of a thread that handles `c`.  Each group changes its part of the state. -/
def World.run (st : Startup) (c : ConnId) (e : Ext) (w : World) : Cmd → Option (World × List Cmd)
  | .own k =>
      let r := runOwn st w.server c e k
      some (⟨{ w.server with clients := Function.update w.server.clients c r.state },
        w.trace ++ r.events.map .own⟩, r.next)
  | .limit k =>
      let r := runLimit st w.server c e k
      some ({ w with server := { w.server with connLimit := r.state.1, msgLimit := r.state.2 } },
        r.next)
  | .token k =>
      let r := runToken st w.server c e k
      some ({ w with server := { w.server with tokens := r.state } }, r.next)
  | .sess k =>
      let r := runSess st w.server c e k
      some (⟨{ w.server with sess := r.state.1, router := r.state.2 },
        w.trace ++ r.events.map .sess⟩, r.next)
  | .router k =>
      let r := runRouter w.server c e k
      some ({ w with server := { w.server with router := r.state } }, r.next)
  | .db k =>
      (runDb st w.server c e k).map fun r =>
        (⟨{ w.server with db := r.state }, w.trace ++ r.events.map .db⟩, r.next)
  | .io k =>
      (runIo st w.server c e k).map fun r =>
        (⟨{ w.server with sides := r.state }, w.trace ++ r.events.map .io⟩, r.next)
  | .checkAndAdd m =>
      let (ok, dedup, next) := w.server.checkAndAdd m
      some (⟨{ w.server with dedup },
        w.trace ++ if ok then [.admitted c m.sender m.seq] else []⟩, next)

def server (st : Startup) : Program Thread Ext Cmd World where
  exec t e k w := if k.runsOn t then w.run st t.conn e k else none

/-! ## The start -/

/-- The limiter of a rate; a rate that is not positive is never asked. -/
def limiterOf (rate burst : Rat) : KeyedRateLimiter :=
  { rate := if 0 < rate then rate else 10 ^ 18, burst := if 0 < burst then burst else 10 ^ 18 }

/-- `loadOrCreateLobby` on an open database, with the results of its three statements. -/
def loadOrCreateLobby (db : Database Origin) (ts : Int) (lists creates finds : SqlOutcome) :
    Database Origin × RoomRouter :=
  let lobby := bytes "lobby"
  let router := (db.listRooms lists).foldl (fun (router : RoomRouter) row =>
    (router.create row.2.name row.2.owner row.1 row.2.createdAt).2) {}
  if router.exists lobby then (db, router)
  else
    match db.createRoom lobby (bytes "SERVER") ts creates with
    | (.failed, db) => (db, router)
    | (_, db) =>
        (db, (router.create lobby (bytes "SERVER") (db.findRoomId lobby finds) ts).2)

/-- What the world does while the server starts. -/
structure BootExt where
  ts : Int := 0
  lists : SqlOutcome := {}
  creates : SqlOutcome := {}
  finds : SqlOutcome := {}

/-- The server before its first connection, on the database of a file. -/
def boot {File : Type} (st : Startup) (file : Database File) (e : BootExt) : ChatServer :=
  let loaded := loadOrCreateLobby file.reopen e.ts e.lists e.creates e.finds
  { db := loaded.1
    router := loaded.2
    tokens := { ttlSec := st.cfg.tokenTtl }
    connLimit := limiterOf st.cfg.connRate st.cfg.connBurst
    msgLimit := limiterOf st.cfg.msgRate st.cfg.msgBurst }

/-- All threads before their first step. -/
def start {File : Type} (st : Startup) (file : Database File) (e : BootExt) :
    Config Thread Cmd World where
  shared := { server := boot st file e }
  stack
    | .accept => [.limit .acceptLoop]
    | .monitor => [.sess .monitorLoop]
    | .client _ => [.io .handleClient]

/-! ## A server to run -/

namespace Demo

open PwdHash

/-- The bytes of a hexadecimal text. -/
def unhex (text : String) : Bytes := (fromHex (bytes text)).getD []

/-- `len` equal bytes, as a key or as what the random source gives. -/
def block (b : UInt8) (len : Nat) : Bytes := List.replicate len b

/-- The keys that alice and bob derive from their passwords. -/
def aliceKey : Bytes := block 0xa1 32

def bobKey : Bytes := block 0xb2 32

def pepper : Bytes := block 0x77 32

/-- HMAC-SHA256 on the messages that occur in the runs below. -/
def macs : List ((Bytes × Bytes) × Bytes) :=
  [((pepper, bytes "alice" ++ toHex (block 0x5a 16)),
      unhex "0739c0bbf9eac8398f9ccc2b4f4f09b3c95ff794aefb3cd5820f71b334ba0019"),
    ((aliceKey, bytes "LOGIN" ++ bytes "alice" ++ block 1 32),
      unhex "7da0a6b4493c5ede704e11db25ca877f15c4cf3a211f6406902e8326046b0f29"),
    ((aliceKey, bytes "LOGIN" ++ bytes "alice" ++ block 2 32),
      unhex "0963fe29c22cef2e8ea9ce885da771b8451c72b2e327e3066b355eccce3dd583"),
    ((pepper, bytes "bob" ++ toHex (block 3 16)),
      unhex "231d2b713f5ba2c0cf4891555f14bdabed3f5bae2001f1e61075104de7b69a08"),
    ((bobKey, bytes "REGISTER" ++ bytes "bob" ++ block 3 32),
      unhex "4de775ef9549e8dcc50d4babd95a01158cc302b1b58cf28ca1d79dbc0aa54a1f")]

/-- SHA-256 of the tokens that occur. -/
def digests : List (Bytes × Bytes) :=
  [(toHex (block 1 32),
      unhex "58badd9b455145b487ad24c7f259cc437cc4ffd0784716845249321fb5961cfc"),
    (toHex (block 2 32),
      unhex "749f1a97ff6cd00ea46ccb3a47bb123283fe56c8fa324bea295d928f558161df")]

/-- The digests on what occurs, and longer texts elsewhere. -/
def hashes : Hashes where
  sha256 m := (digests.lookup m).getD (block 0 33 ++ m)
  hmac k m := (macs.lookup (k, m)).getD (block 0 33 ++ block 1 k.length ++ 0 :: (k ++ m))

/-- A server without rate limits. -/
def startup : Startup where
  cfg := { connRate := 0, msgRate := 0 }
  hashes := hashes
  pepperHex := toHex pepper
  pepper := by decide

/-- The row that the registration of alice has left. -/
def aliceRow : UserRow where
  username := bytes "alice"
  salt := toHex (block 0x5a 16)
  pwdHash := bytes "a698611a584b69982e3d6d8aeeeea81268fe56350f5a9d7423aed012951ba1b8"
  createdAt := 1700000000

/-- A file with the account of alice. -/
def file : Database Unit := { users := Table.insert ∅ aliceRow }

/-- A frame of a client. -/
def request (type : String) (fields : List (String × Value)) : Bytes :=
  makeWireFrame (serialize
    ⟨(("type", .str (bytes type)) :: fields).map fun field => (bytes field.1, field.2)⟩)

/-- One step of a thread, and several. -/
abbrev Schedule := List (Thread × Ext)

def steps (t : Thread) (n : Nat) : Schedule := List.replicate n (t, {})

/-- A connection is accepted and its thread started. -/
def connects (c : ConnId) : Schedule :=
  [(.accept, { peer := some (bytes "10.0.0.1", 40000) }), (.accept, {}), (.client c, {})]

/-- The bytes of frames arrive on a connection, and the first one is looked at. -/
def receives (c : ConnId) (data : Bytes) : Schedule :=
  [(.client c, { received := .data data }), (.client c, {})]

/-- A step that draws random bytes. -/
def draws (c : ConnId) (b : UInt8) : Schedule := [(.client c, { random := fun _ _ => b })]

def helloFrame : Bytes := request "LOGIN_HELLO" [("from", .str (bytes "alice"))]

/-- The proof of alice for the nonce that consists of `b`. -/
def aliceProof (b : UInt8) : Bytes :=
  toHex (hashes.hmac aliceKey (bytes "LOGIN" ++ bytes "alice" ++ block b 32))

def loginFrame (b : UInt8) : Bytes :=
  request "LOGIN" [("from", .str (bytes "alice")), ("content", .str (aliceProof b))]

/-- `LOGIN_HELLO` of alice up to the CHALLENGE with the nonce that consists of `b`. -/
def hello (c : ConnId) (b : UInt8) : Schedule :=
  receives c helloFrame ++ steps (.client c) 2 ++ draws c b ++ steps (.client c) 2

/-- `LOGIN` of alice up to the proof check. -/
def proves (c : ConnId) (b : UInt8) : Schedule :=
  receives c (loginFrame b) ++ steps (.client c) 2

/-- The rest of the login up to the installation of the session. -/
def enters (c : ConnId) (b : UInt8) : Schedule :=
  steps (.client c) 1 ++ draws c b ++ steps (.client c) 1

/-- Alice has logged in on connection 1, and her JOIN of the lobby is on its way. -/
def joining : Schedule :=
  connects 1 ++ hello 1 1 ++ proves 1 1 ++ enters 1 1 ++ steps (.client 1) 6 ++
    receives 1 (request "JOIN" [("content", .str (bytes "lobby"))]) ++ steps (.client 1) 1

/-- A MESSAGE with that seq arrives on connection 1 and is handled by `n` sections. -/
def speaks (receiver : String) (seq : Int) (n : Nat) : Schedule :=
  receives 1 (request "MESSAGE" [("to", .str (bytes receiver)), ("content", .str (bytes "hi")),
    ("seq", .num seq)]) ++ steps (.client 1) n

end Demo

end OnlineChat
