import OnlineChat.Connection
import OnlineChat.Library.Threads
import OnlineChat.PwdHash
import OnlineChat.RateLimiter
import OnlineChat.SeqDeduper
import OnlineChat.TokenBook
import OnlineChat.WordFilter

/-!
# The state of the server

The fields of `ChatServer` and of its connections, what the outside world answers to
a critical section, and the commands that its threads run.  Commands are grouped by
the lock under which they work, so that a command of one group changes one part of
the state only.

An event is something that happened in a run.  No command reads events.
-/

namespace OnlineChat

open Library MiniJson

/-- `ClientConn::id`.  The first connection is 1. -/
abbrev ConnId := Nat

/-- `acceptLoop`, `monitorLoop` and one `handleClient` for each connection. -/
inductive Thread where
  | accept
  | monitor
  | client (c : ConnId)
  deriving DecidableEq

namespace Thread

/-- The connection that a thread handles; 0 is none. -/
def conn : Thread → ConnId
  | client c => c
  | _ => 0

def isClient : Thread → Bool
  | client _ => true
  | _ => false

/-- A client thread is the only one with its connection. -/
theorem eq_of_conn {t t' : Thread} (client : t.isClient = true) (client' : t'.isClient = true)
    (same : t.conn = t'.conn) : t = t' := by
  cases t <;> cases t' <;> simp_all [isClient, conn]

end Thread

/-! ## Configuration -/

structure ServerConfig where
  idleMs : Int := 30000
  tokenTtl : Int := 7 * 24 * 3600
  connRate : Rat := 50
  connBurst : Rat := 100
  msgRate : Rat := 20
  msgBurst : Rat := 40
  filterReject : Bool := false
  tls : Bool := false

/-- What is fixed before the first connection: the configuration, the digest functions,
the pepper (`load_or_create_pepper` ends the process unless it is the text of 32 bytes)
and the word list. -/
structure Startup where
  cfg : ServerConfig := {}
  hashes : PwdHash.Hashes
  pepperHex : Bytes
  pepper : (PwdHash.fromHex pepperHex).map List.length = some PwdHash.kHashBytes
  words : WordFilter := {}

/-! ## State -/

/-- The challenge slot of a connection. -/
structure Challenge where
  active : Bool := false
  isRegister : Bool := false
  user : Bytes := []
  saltHex : Bytes := []
  nonceHex : Bytes := []
  expMs : Int := 0

/-- What only the thread of a connection writes.  `lastActive` is `none` until the
first bytes arrive; before that the time of the accept counts. -/
structure Client where
  reader : FrameReader := {}
  chal : Challenge := {}
  lastActive : Option Int := none

/-- `peer` and the first value of `last_active`. -/
structure Arrival where
  peer : Bytes := []
  time : Int := 0

/-- What `g_m_` protects. -/
structure Sessions where
  nextId : ConnId := 0
  conns : List ConnId := []
  online : Bytes → Option ConnId := fun _ => none
  arrival : ConnId → Arrival := fun _ => {}
  username : ConnId → Bytes := fun _ => []
  authed : ConnId → Bool := fun _ => false

/-- The MESSAGE frame that a call of the database stores. -/
structure Origin where
  conn : ConnId
  user : Bytes
  seq : Int
  deriving DecidableEq

structure ChatServer where
  clients : ConnId → Client := fun _ => {}
  sides : ConnId → SendSide := fun _ => {}
  sess : Sessions := {}
  router : RoomRouter := {}
  db : Database Origin := {}
  tokens : TokenBook
  dedup : SeqDeduper := {}
  connLimit : KeyedRateLimiter
  msgLimit : KeyedRateLimiter

/-! ## The outside world -/

/-- What `recv` returns. -/
inductive Received where
  | data (chunk : Bytes)
  | closed
  | interrupted
  | failed

/-- What the outside world answers to one command: the successive readings of the clock
in milliseconds, the successive draws of random bytes, the results of SQLite, of the
writes and of `recv`, and the order in which a hash table is enumerated. -/
structure Ext where
  clock : Nat → Int := fun _ => 0
  random : Nat → Nat → UInt8 := fun _ _ => 0
  sql : SqlOutcome := {}
  writes : List WriteResult := [.accepted (2 ^ 20)]
  received : Received := .closed
  handshake : Bool := true
  peer : Option (Bytes × Nat) := none
  order : List ConnId → List ConnId := id

namespace Ext

/-- `now_ts`. -/
def nowTs (e : Ext) (i : Nat) : Int := (e.clock i).tdiv 1000

/-- `now_ms() / 1000.0`. -/
def nowSec (e : Ext) (i : Nat) : Rat := (e.clock i : Rat) / 1000

/-- `random_hex(n)`, as the `i`-th draw of the command. -/
def randomHex (e : Ext) (i n : Nat) : Bytes := PwdHash.toHex ((List.range n).map (e.random i))

/-- The entries of a hash table in some order. -/
def iterate (e : Ext) (entries : List ConnId) : List ConnId :=
  if (e.order entries).isPerm entries then e.order entries else entries

end Ext

/-! ## Commands -/

/-- A MESSAGE frame behind the checks of `doMessage`; `receiver` is its `to`. -/
structure ChatMsg where
  sender : Bytes
  seq : Int
  receiver : Bytes
  content : Bytes
  ts : Int

/-- Commands that change nothing but the own client. -/
inductive OwnCmd where
  | recvLoop
  | frames
  | sendChallenge (user saltHex : Bytes) (isRegister : Bool)
  | doRegister (obj : Object)
  | doLogin (obj : Object)
  | doCreate (obj : Object)

/-- Sections of the rate limiters. -/
inductive LimitCmd where
  | acceptLoop
  | doRegisterHello (obj : Object)
  | doLoginHello (obj : Object)
  | doMessage (obj : Object)

/-- Sections of the token table. -/
inductive TokenCmd where
  | doAuth (obj : Object)
  | issueLogin (name : Bytes)
  | issueAuth (name : Bytes) (old : Option ConnId)

/-- Sections under `g_m_`. -/
inductive SessCmd where
  | acceptInstall (ip : Bytes) (port : Nat)
  | monitorLoop
  | monitorDrain
  | checkLogin (name : Bytes)
  | installLogin (name token : Bytes) (exp : Int)
  | installAuth (name : Bytes)
  | dropConn (v : ConnId) (notifyRoom : Bool)
  | roomConns (names : List Bytes) (obj : Object) (exclude : Option ConnId)
  | relayConns (m : ChatMsg) (room : Bytes) (names : List Bytes)
  | findTarget (m : ChatMsg)

/-- Sections of the room router. -/
inductive RouterCmd where
  | finishAuth (name token : Bytes) (exp : Int) (old : Option ConnId)
  | finishRoom (name : Bytes) (old : Option ConnId)
  | sendJoinState (room : Bytes)
  | doJoin (obj : Object)
  | joinRoom (room : Bytes)
  | doLeave
  | doRooms
  | createRoom (room : Bytes) (dbId ts : Int)
  | doHist (obj : Object)
  | histRoomId (room cur : Bytes)
  | broadcastRoomSystem (room text : Bytes) (exclude : Option ConnId)
  | broadcastRoomUserlist (room : Bytes)
  | userlistConns (room : Bytes) (obj : Object)
  | routeRoom (m : ChatMsg)
  | roomDbId (m : ChatMsg) (room : Bytes)
  | broadcastRoomRelay (m : ChatMsg) (room : Bytes)

/-- Sections under the mutex of the database.  `since` is the notification count at
which a writer fell asleep. -/
inductive DbCmd where
  | findHello (name : Bytes) (isRegister : Bool)
  | createUser (name derived saltHex stored : Bytes) (since : Option Nat)
  | findLogin (name proof nonceHex : Bytes)
  | insertRow (room : Bytes) (ts : Int) (since : Option Nat)
  | findRow (room : Bytes) (ts : Int)
  | historyPage (room : Bytes) (roomId : Int) (cursor : Option (Int × Int))
  | doInbox (obj : Object)
  | findReceiver (m : ChatMsg)
  | insertRoomMsg (m : ChatMsg) (room : Bytes) (roomId : Int) (state : Database.CallState)
  | insertPrivateMsg (m : ChatMsg) (state : Database.CallState)
  | insertOffline (m : ChatMsg) (target : Option ConnId) (since : Option Nat)
  | pushOffline (name : Bytes)
  | markDelivered (name : Bytes) (id : Int) (rest : List OffRow) (since : Option Nat)

/-- Sections under the `send_m` of some connection. -/
inductive IoCmd where
  | handleClient
  | sendFrame (v : ConnId) (obj : Object)
  | sendAck (seq : Int)
  | refuse (m : ChatMsg) (reason : Bytes)
  | pushRows (name : Bytes) (rows : List OffRow)
  | relayTarget (m : ChatMsg) (v : ConnId)
  | relayEach (m : ChatMsg) (room : Bytes) (targets : List ConnId)
  | drainSlow (v : ConnId)
  | closeConn (v : ConnId)

/-- A command; `checkAndAdd` is the section of the deduper. -/
inductive Cmd where
  | own (k : OwnCmd)
  | limit (k : LimitCmd)
  | token (k : TokenCmd)
  | sess (k : SessCmd)
  | router (k : RouterCmd)
  | db (k : DbCmd)
  | io (k : IoCmd)
  | checkAndAdd (m : ChatMsg)

/-! ## Events -/

inductive OwnEvent where
  /-- A fresh nonce was drawn for a challenge at that reading of the clock. -/
  | issued (c : ConnId) (isRegister : Bool) (user nonceHex : Bytes) (time : Int)
  /-- `takeChallenge` handed the challenge out at that reading of the clock. -/
  | taken (c : ConnId) (isRegister : Bool) (user nonceHex : Bytes) (now : Int)
  /-- `doRegister` compared a proof. -/
  | compared (c : ConnId) (user nonceHex : Bytes)
  deriving DecidableEq

inductive SessEvent where
  /-- `doLogin` installed its session, and whose was there. -/
  | loggedIn (c : ConnId) (user : Bytes) (holder : Option ConnId)
  | resumed (c : ConnId) (user : Bytes)
  | dropped (c : ConnId)
  /-- A message goes out live, to a room or to its receiver. -/
  | fanOut (user : Bytes) (seq : Int)
  deriving DecidableEq

inductive DbEvent where
  | registered (user keyHex saltHex : Bytes)
  /-- `doLogin` compared a proof with that of the key. -/
  | compared (c : ConnId) (user nonceHex keyHex proof : Bytes) (passed : Bool)
  /-- The `INSERT INTO messages` for that message was run. -/
  | inserted (user : Bytes) (seq : Int)
  | pushStarted (c : ConnId) (name : Bytes) (rows : List OffRow)
  deriving DecidableEq

inductive IoEvent where
  | acked (c : ConnId) (user : Bytes) (seq : Int)
  /-- A NACK for a message that had got its idempotency slot. -/
  | refused (user : Bytes) (seq : Int)
  /-- A live relay to `v` succeeded or failed. -/
  | relayed (v : ConnId) (user : Bytes) (seq : Int)
  /-- An offline row was sent with success. -/
  | handed (c : ConnId) (row : OffRow)
  deriving DecidableEq

inductive Event where
  | own (event : OwnEvent)
  | sess (event : SessEvent)
  | db (event : DbEvent)
  | io (event : IoEvent)
  /-- The deduper let the message through. -/
  | admitted (c : ConnId) (user : Bytes) (seq : Int)
  deriving DecidableEq

/-- The server and the events so far. -/
structure World where
  server : ChatServer
  trace : List Event := []

/-- What a command leaves: its part of the state, its events, and what is to be run next. -/
structure Effect (σ ε : Type) where
  state : σ
  events : List ε := []
  next : List Cmd := []

namespace ChatServer

/-- `sendErr`, at a time. -/
def sendErr (s : ChatServer) (c : ConnId) (code : ErrorCode) (text : String) (ts : Int) : Cmd :=
  .io (.sendFrame c (errFrame (s.sess.username c) code (bytes text) ts))

/-- `sendNack` before the message got its idempotency slot, at a time. -/
def sendNack (s : ChatServer) (c : ConnId) (seq : Int) (reason : Bytes) (code : Option ErrorCode)
    (ts : Int) : Cmd :=
  .io (.sendFrame c (nackFrame (s.sess.username c) seq reason code ts))

/-- A section of the database behind `wait_tx_idle`. -/
def whenTxIdle (s : ChatServer) (e : Ext) (since : Option Nat) (again : Option Nat → DbCmd)
    (go : Effect (Database Origin) DbEvent) : Option (Effect (Database Origin) DbEvent) :=
  match s.db.waitTxIdle since e.sql.spurious with
  | .asleep => none
  | .sleeps n => some { state := s.db, next := [.db (again (some n))] }
  | .passes => some go

end ChatServer

end OnlineChat
