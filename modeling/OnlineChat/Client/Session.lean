import Mathlib.Data.List.Sort
import OnlineChat.Client.Values
import OnlineChat.Library.Threads

/-!
# The session of the client

`PendingStore` and `ChatSession` as a program of threads: the thread of the connection,
the heartbeat thread, and any number of threads that call the interface.  A command runs
up to the next section under the lock of the store or of the socket.  The callbacks of the
program around the session (`on_chat`, `on_history`, ...) are taken to return; what they do,
and what they may raise, is not part of the model.

An event is something that happened in a run.  No command reads events.
-/

namespace OnlineChat.Client

open Library PwdHash

/-! ## The pending queue -/

/-- `PendingItem.state` -/
inductive ItemState where
  | sending
  | failed
  deriving DecidableEq

structure PendingItem where
  seq : Int
  receiver : Bytes
  content : Bytes
  ts : Int
  attempts : Nat := 0
  state : ItemState := .sending
  lastSent : Rat := 0

/-- The keys of `items` and the counter.  A number is given to one item only, so the items
themselves are found by their numbers in the session. -/
structure PendingStore where
  nextSeq : Int := 1
  items : List Int := []

namespace PendingStore

variable (store : PendingStore) (seq : Int)

/-- The counter after `alloc_seq` is one above what it returned. -/
def allocSeq (now : Rat) : Int × PendingStore :=
  let floor := pyTrunc (now * 1000)
  let seq := if store.nextSeq ≤ floor then floor + 1 else store.nextSeq
  (seq, { store with nextSeq := seq + 1 })

/-- `self.items[item.seq] = item`, in `add` and in `update`. -/
def put : PendingStore :=
  { store with items := if seq ∈ store.items then store.items else store.items ++ [seq] }

def remove : PendingStore := { store with items := store.items.filter fun held => held ≠ seq }

def snapshot : List Int := store.items.insertionSort (· ≤ ·)

@[simp]
theorem mem_put {held : Int} : held ∈ (store.put seq).items ↔ held = seq ∨ held ∈ store.items := by
  unfold put
  dsimp only
  split
  next there =>
    constructor
    · exact .inr
    · rintro (rfl | held)
      · exact there
      · exact held
  next =>
    rw [List.mem_append, List.mem_singleton]
    exact or_comm

@[simp]
theorem mem_remove {held : Int} :
    held ∈ (store.remove seq).items ↔ held ≠ seq ∧ held ∈ store.items := by
  simp [remove, and_comm]

end PendingStore

/-! ## The state -/

/-- What the constructor is given. -/
structure Settings where
  username : Bytes
  password : Bytes := []
  pingInterval : Rat := 10
  deadTimeout : Rat := 30
  ackTimeout : Rat := 15
  lib : Hashlib

/-- `MAX_ATTEMPTS` -/
def maxAttempts : Nat := 8

structure TokenStore where
  token : PyValue := .str []
  tokenExp : Int := 0

def TokenStore.valid (tokens : TokenStore) (now : Rat) : Bool :=
  tokens.token.truthy ∧ now < tokens.tokenExp

/-- The socket of a connection. -/
abbrev Socket := Nat

inductive Event where
  /-- `add` has put the item with that number into the store. -/
  | added (seq : Int)
  /-- An ACK has taken the item with that number out of the store. -/
  | acked (seq : Int)
  /-- `sendall` was called.  When it failed, a part of the frame may be on the way. -/
  | wrote (sock : Socket) (m : Msg)
  | received (sock : Socket) (f : Frame)

structure ChatSession where
  store : PendingStore := {}
  /-- The `PendingItem` objects, whether they are in the store or not. -/
  objects : Int → PendingItem
  tokens : TokenStore := {}
  currentRoom : PyValue := .str []
  histCursor : PyValue := .str []
  histBusy : Bool := false
  pendingHistPos : Bytes := []
  sock : Option Socket := none
  /-- The number of connections so far. -/
  conns : Nat := 0
  running : Bool := true
  lastRx : Rat := 0
  lastPing : Rat := 0
  connected : Bool := false
  authed : Bool := false
  triedPasswordFallback : Bool := false
  trace : List Event := []

/-! ## The outside world -/

/-- How `send_frame` ends.  It raises a `ValueError` when the body is too long. -/
inductive Sent where
  | done
  | osError
  | valueError

/-- `sendall` was called. -/
def Sent.writes : Sent → Bool
  | done | osError => true
  | valueError => false

/-- How `recv_frame` ends.  It may return a value that is no `dict`. -/
inductive Received where
  | frame (f : Frame)
  | other (v : PyValue)
  | failed (e : PyError)

/-- A call of the interface. -/
inductive Call where
  | send (receiver content : Bytes)
  | retryFailed (seq : Option Int)
  | joinRoom (room : Bytes)
  | leaveRoom
  | listRooms
  | createRoom (room : Bytes)
  | fetchHistory (cursor : PyValue) (position : Bytes)
  | fetchInbox (cursor : PyValue) (position : Bytes)
  | fetchOlder
  | stop

/-- What the outside world answers to one command: the successive readings of the clock,
the next call of a caller, and what the socket does. -/
structure Ext where
  clock : Nat → Rat := fun _ => 0
  call : Call := .listRooms
  connects : Bool := true
  sends : Sent := .done
  receives : Received := .failed .osError

/-! ## Commands -/

inductive Thread where
  | conn
  | heartbeat
  | caller (n : Nat)
  deriving DecidableEq

/-- The two functions that ask for a page. -/
inductive Page where
  | history
  | inbox
  deriving DecidableEq

/-- The control frames, by the place that sends them.  The calls of the interface pass the
exceptions of the first four on. -/
inductive Request where
  | join (room : Bytes)
  | leave
  | rooms
  | create (room : Bytes)
  | page (page : Page) (cursor : PyValue)
  | ping (now : Rat)
  | logout
  /-- The first frame of `_authenticate`. -/
  | auth (sock : Socket) (token : PyValue)
  | loginHello (sock : Socket)
  /-- The answer to a CHALLENGE. -/
  | login (sock : Socket) (proof : Bytes)
  /-- LOGIN_HELLO after an ERR 1006. -/
  | fallback

inductive Cmd where
  | idle
  | send (receiver content : Bytes)
  | add (seq : Int)
  | trySendItem (seq : Int)
  | update (seq : Int)
  | retryFailed (seq : Option Int)
  | retryItem (wanted : Option Int) (seq : Int)
  | fetch (page : Page) (cursor : PyValue) (position : Bytes)
  | startFetch (page : Page) (cursor : PyValue) (position : Bytes)
  | endFetch
  | request (r : Request)
  | sendRequest (r : Request) (seq : Int)
  | dropSocket
  | heartbeatLoop
  | checkDead (now : Rat)
  | retransmit (now : Rat)
  | resend (now : Rat) (seq : Int)
  | connLoop
  | install
  | authenticate (sock : Socket)
  | authFailed
  | setConnected (sock : Socket)
  | recvLoop (sock : Socket)
  | recvFrame (sock : Socket)
  | connLost
  | remove (seq : Int)
  | flushPending
  | flushItem (seq : Int)
  | failSending
  | failItem (seq : Int)
  | restoreRoom (room : PyValue)

namespace ChatSession

variable (st : Settings) (e : Ext) (s : ChatSession) (seq : Int)

/-- Change the object with that number. -/
def setItem (change : PendingItem → PendingItem) : ChatSession :=
  { s with objects := Function.update s.objects seq (change (s.objects seq)) }

def log (events : List Event) : ChatSession := { s with trace := s.trace ++ events }

/-- `_send_frame`: whether it returns, and not with an exception. -/
def sendFrame (m : Msg) : Bool × ChatSession :=
  match s.sock with
  | none => (false, s)
  | some sock =>
      match e.sends with
      | .done => (true, s.log [.wrote sock m])
      | .osError => (false, s.log [.wrote sock m])
      | .valueError => (false, s)

/-! ## Messages -/

/-- `send` up to the new item. -/
def send (receiver content : Bytes) : ChatSession × List Cmd :=
  let (seq, store) := s.store.allocSeq (e.clock 0)
  let item : PendingItem := { seq, receiver, content, ts := pyTrunc (e.clock 1) }
  ({ s with store, objects := Function.update s.objects seq item }, [.add seq, .trySendItem seq])

def add : ChatSession × List Cmd := ({ s with store := s.store.put seq }.log [.added seq], [])

def update : ChatSession × List Cmd := ({ s with store := s.store.put seq }, [])

/-- The frame of an item, with the time at which it was sent first. -/
def itemMsg : Msg :=
  let item := s.objects seq
  { makeMsg .message st.username item.receiver (.str item.content) seq (e.clock 0) with
    ts := item.ts }

/-- `_try_send_item` up to `update`. -/
def trySendItem : ChatSession × List Cmd :=
  if maxAttempts ≤ (s.objects seq).attempts then
    (s.setItem seq fun item => { item with state := .failed }, [.update seq])
  else
    let (sent, s) := s.sendFrame e (s.itemMsg st e seq)
    if sent then
      (s.setItem seq fun item =>
        { item with attempts := item.attempts + 1, lastSent := e.clock 1 }, [.update seq])
    else (s, [])

def retryFailed (wanted : Option Int) : ChatSession × List Cmd :=
  (s, s.store.snapshot.map (.retryItem wanted))

/-- One round of the loop of `retry_failed`. -/
def retryItem (wanted : Option Int) : ChatSession × List Cmd :=
  if (s.objects seq).state ≠ .failed then (s, [])
  else if wanted ≠ none ∧ wanted ≠ some seq then (s, [])
  else
    (s.setItem seq fun item => { item with state := .sending, attempts := 0 },
      [.update seq, .trySendItem seq])

def flushPending : ChatSession × List Cmd := (s, s.store.snapshot.map .flushItem)

/-- One round of the loop of `_flush_pending`. -/
def flushItem : ChatSession × List Cmd :=
  if (s.objects seq).state ≠ .sending then (s, []) else (s, [.trySendItem seq])

/-! ## Control frames -/

/-- `fetch_history` and `fetch_inbox`.  The flag is read and set without a lock. -/
def fetch (page : Page) (cursor : PyValue) (position : Bytes) : ChatSession × List Cmd :=
  (s, if s.histBusy then [] else [.startFetch page cursor position])

def startFetch (page : Page) (cursor : PyValue) (position : Bytes) : ChatSession × List Cmd :=
  ({ s with histBusy := true, pendingHistPos := position }, [.request (.page page cursor)])

def fetchOlder : List Cmd :=
  if s.histCursor.truthy then [.fetch .history s.histCursor (bytes "prepend")] else []

end ChatSession

namespace Request

def type : Request → MsgType
  | join _ => .join
  | leave => .leave
  | rooms => .rooms
  | create _ => .create
  | page .history _ => .hist
  | page .inbox _ => .inbox
  | ping _ => .ping
  | logout => .logout
  | auth _ _ => .auth
  | loginHello _ | fallback => .loginHello
  | login _ _ => .login

def content : Request → PyValue
  | join room | create room => .str room
  | page _ cursor => cursor
  | ping _ => .str (bytes "hb")
  | logout => .str (bytes "退出")
  | auth _ token => token
  | login _ proof => .str proof
  | leave | rooms | loginHello _ | fallback => .str []

/-- What the place goes on with. -/
def sent : Request → List Cmd
  | join _ | leave | rooms | create _ | page _ _ | fallback => []
  | ping now => [.checkDead now]
  | logout => [.dropSocket]
  | auth sock _ | loginHello sock => [.setConnected sock]
  | login sock _ => [.recvLoop sock]

/-- What the place goes on with after an exception. -/
def failed : Request → List Cmd
  | join _ | leave | rooms | create _ | fallback => []
  | page _ _ => [.endFetch]
  | ping _ => [.dropSocket, .heartbeatLoop]
  | logout => [.dropSocket]
  | auth _ _ | loginHello _ => [.authFailed]
  | login _ _ => [.connLost]

end Request

namespace ChatSession

variable (st : Settings) (e : Ext) (s : ChatSession) (seq : Int)

/-- The number of the control frame is allocated. -/
def request (r : Request) : ChatSession × List Cmd :=
  let (seq, store) := s.store.allocSeq (e.clock 0)
  ({ s with store }, [.sendRequest r seq])

def requestMsg (r : Request) : Msg :=
  makeMsg r.type st.username (bytes "SERVER") r.content seq (e.clock 0)

def sendRequest (r : Request) : ChatSession × List Cmd :=
  let (sent, s) := s.sendFrame e (requestMsg st e seq r)
  (s, if sent then r.sent else r.failed)

/-- A caller makes its next call. -/
def idle : ChatSession × List Cmd :=
  match e.call with
  | .send receiver content => (s, [.send receiver content, .idle])
  | .retryFailed wanted => (s, [.retryFailed wanted, .idle])
  | .joinRoom room => ({ s with histCursor := .str [] }, [.request (.join room), .idle])
  | .leaveRoom => (s, [.request .leave, .idle])
  | .listRooms => (s, [.request .rooms, .idle])
  | .createRoom room => (s, [.request (.create room), .idle])
  | .fetchHistory cursor position => (s, [.fetch .history cursor position, .idle])
  | .fetchInbox cursor position => (s, [.fetch .inbox cursor position, .idle])
  | .fetchOlder => (s, s.fetchOlder ++ [.idle])
  | .stop => ({ s with running := false }, [.request .logout, .idle])

def dropSocket : ChatSession := { s with sock := none, connected := false, authed := false }

/-! ## The heartbeat thread -/

def heartbeatLoop : ChatSession × List Cmd :=
  if ¬ s.running then (s, [])
  else if ¬ s.connected then (s, [.heartbeatLoop])
  else
    let now := e.clock 0
    if st.pingInterval ≤ now - s.lastPing then
      ({ s with lastPing := now }, [.request (.ping now)])
    else (s, [.checkDead now])

def checkDead (now : Rat) : ChatSession × List Cmd :=
  (s, if st.deadTimeout < now - s.lastRx then [.dropSocket, .heartbeatLoop] else [.retransmit now])

def retransmit (now : Rat) : ChatSession × List Cmd :=
  (s, s.store.snapshot.map (.resend now) ++ [.heartbeatLoop])

/-- One round of the loop over the messages. -/
def resend (now : Rat) : ChatSession × List Cmd :=
  let item := s.objects seq
  if item.state ≠ .sending ∨ item.lastSent ≤ 0 then (s, [])
  else if now - item.lastSent < st.ackTimeout then (s, [])
  else (s, [.trySendItem seq])

/-! ## The thread of the connection -/

def connLoop : ChatSession × List Cmd :=
  (s, if ¬ s.running then [] else if e.connects then [.install] else [.connLoop])

def install : ChatSession × List Cmd :=
  let sock := s.conns + 1
  ({ s with
      conns := sock, sock := some sock
      lastRx := e.clock 0, lastPing := e.clock 1, triedPasswordFallback := false },
    [.authenticate sock])

/-- `_authenticate` up to `alloc_seq`. -/
def authenticate (sock : Socket) : ChatSession × List Cmd :=
  (s, if s.tokens.valid (e.clock 0) then [.request (.auth sock s.tokens.token)]
    else if st.password ≠ [] then [.request (.loginHello sock)]
    else [.authFailed])

def connLost : ChatSession × List Cmd :=
  ({ s.dropSocket with currentRoom := .str [] }, if s.running then [.connLoop] else [])

end ChatSession

/-- An exception in `_recv_loop`: other ones than these end the thread. -/
def PyError.next : PyError → List Cmd
  | .osError | .valueError => [.connLost]
  | _ => []

namespace ChatSession

variable (st : Settings) (e : Ext) (s : ChatSession) (sock : Socket) (f : Frame)

def answerChallenge : List Cmd :=
  if st.password = [] then [.recvLoop sock]
  else
    let proof := do
      let derived ← deriveKey st.lib st.password (f.get "salt" (.str []))
      challengeProof st.lib derived (bytes "LOGIN") st.username (f.get "content" (.str []))
    match proof with
    | .ok proof => [.request (.login sock proof)]
    | .error .valueError => [.recvLoop sock]
    | .error raised => raised.next

def handleErr (code : Int) : ChatSession × List Cmd :=
  if code = 1006 ∧ st.password ≠ [] ∧ ¬ s.triedPasswordFallback then
    ({ s with triedPasswordFallback := true, tokens := {} }, [.request .fallback, .recvLoop sock])
  else if code ∈ [1002, 1003, 1004, 1005] then (s, [.failSending, .recvLoop sock])
  else (s, [.recvLoop sock])

/-- The messages that are being sent fail. -/
def failSending : ChatSession × List Cmd := (s, s.store.snapshot.map .failItem)

def failItem (seq : Int) : ChatSession × List Cmd :=
  if (s.objects seq).state ≠ .sending then (s, [])
  else (s.setItem seq fun item => { item with state := .failed }, [.update seq])

/-- A message is shown; the set of those seen holds their senders. -/
def handleMessage : List Cmd :=
  match (f.get "seq" (.int 0)).toInt with
  | .error .overflowError => PyError.overflowError.next
  | number =>
      let seq := number.toOption.getD 0
      if ¬ (f.get "offline" .none).truthy ∧ 0 < seq ∧ ¬ (f.get "from" (.str [])).hashable then
        PyError.typeError.next
      else [.recvLoop sock]

def handleHistory (isHistory : Bool) : ChatSession :=
  let cursor := f.get "cursor" (.str [])
  let more := (f.get "more" .none).truthy
  { s with
    histBusy := false
    histCursor := if isHistory then (if more then cursor else .str []) else s.histCursor
    pendingHistPos := [] }

/-- `_dispatch` up to the next section under a lock, without the callbacks. -/
def dispatch : ChatSession × List Cmd :=
  match f.kind with
  | .ack =>
      match (f.get "content" (.str (bytes "0"))).toInt with
      | .ok seq =>
          (s, if seq ∈ s.store.items then [.remove seq, .recvLoop sock] else [.recvLoop sock])
      | .error .valueError => (s, [.recvLoop sock])
      | .error raised => (s, raised.next)
  | .nack =>
      match (f.get "content" (.str (bytes "0"))).toInt with
      | .ok seq =>
          if seq ∈ s.store.items then
            (s.setItem seq fun item => { item with state := .failed },
              [.update seq, .recvLoop sock])
          else (s, [.recvLoop sock])
      | .error .valueError => (s, [.recvLoop sock])
      | .error raised => (s, raised.next)
  | .err =>
      match (f.get "code" (.int 0)).toInt with
      | .ok code => s.handleErr st sock code
      | .error raised => (s, raised.next)
  | .challenge => (s, answerChallenge st sock f)
  | .authOk =>
      let token := f.get "content" (.str [])
      match (f.get "exp" (.int 0)).toInt with
      | .ok tokenExp =>
          ({ s with authed := true, tokens := { token, tokenExp } },
            [.flushPending, .restoreRoom (f.get "room" (.str [])), .recvLoop sock])
      | .error raised =>
          ({ s with authed := true, tokens := { s.tokens with token } }, raised.next)
  | .joinOk =>
      ({ s with currentRoom := f.get "room" (.str []), histCursor := .str [] },
        [.fetch .history (.str []) [], .recvLoop sock])
  | .leaveOk => ({ s with currentRoom := .str [], histCursor := .str [] }, [.recvLoop sock])
  | .history => (s.handleHistory f true, [.recvLoop sock])
  | .inbox => (s.handleHistory f false, [.recvLoop sock])
  | .message => (s, handleMessage sock f)
  | .system =>
      -- the text is added to another one
      match f.get "content" (.str []) with
      | .str _ => (s, [.recvLoop sock])
      | _ => (s, PyError.typeError.next)
  | .pong | .registerOk | .createOk | .roomsList | .userlist | .unknown =>
      (s, [.recvLoop sock])

/-- The room that the server has kept. -/
def restoreRoom (room : PyValue) : ChatSession × List Cmd :=
  if room.truthy then
    ({ s with currentRoom := room, histCursor := .str [] }, [.fetch .history (.str []) []])
  else (s, [])

def recvLoop : ChatSession × List Cmd :=
  (s, if s.running then [.recvFrame sock] else [.connLost])

/-- One round of `_recv_loop`. -/
def recvFrame : ChatSession × List Cmd :=
  match e.receives with
  | .failed raised => (s, raised.next)
  | .other _ => ({ s with lastRx := e.clock 0 }, PyError.attributeError.next)
  | .frame f => ({ s with lastRx := e.clock 0 }.log [.received sock f]).dispatch st sock f

end ChatSession

/-! ## The program -/

open ChatSession

/-- One command. -/
def run (st : Settings) (e : Ext) (s : ChatSession) : Cmd → ChatSession × List Cmd
  | .idle => s.idle e
  | .send receiver content => s.send e receiver content
  | .add seq => s.add seq
  | .trySendItem seq => s.trySendItem st e seq
  | .update seq => s.update seq
  | .retryFailed wanted => s.retryFailed wanted
  | .retryItem wanted seq => s.retryItem seq wanted
  | .fetch page cursor position => s.fetch page cursor position
  | .startFetch page cursor position => s.startFetch page cursor position
  | .endFetch => ({ s with histBusy := false }, [])
  | .request r => s.request e r
  | .sendRequest r seq => s.sendRequest st e seq r
  | .dropSocket => (s.dropSocket, [])
  | .heartbeatLoop => s.heartbeatLoop st e
  | .checkDead now => s.checkDead st now
  | .retransmit now => s.retransmit now
  | .resend now seq => s.resend st seq now
  | .connLoop => s.connLoop e
  | .install => s.install e
  | .authenticate sock => s.authenticate st e sock
  | .authFailed => (s.dropSocket, [.connLoop])
  | .setConnected sock => ({ s with connected := true }, [.recvLoop sock])
  | .recvLoop sock => s.recvLoop sock
  | .recvFrame sock => s.recvFrame st e sock
  | .connLost => s.connLost
  | .remove seq => ({ s with store := s.store.remove seq }.log [.acked seq], [])
  | .flushPending => s.flushPending
  | .flushItem seq => s.flushItem seq
  | .failSending => s.failSending
  | .failItem seq => s.failItem seq
  | .restoreRoom room => s.restoreRoom room

def client (st : Settings) : Program Thread Ext Cmd ChatSession where
  exec _ e k s := some (run st e s k)

/-! ## The start -/

/-- What `_save` has left in the file of the queue. -/
structure PendingFile where
  nextSeq : Int := 1
  items : List PendingItem := []
  counted : ∀ item ∈ items, item.seq < nextSeq

/-- The threads after `start`. -/
def Thread.main : Thread → List Cmd
  | conn => [.connLoop]
  | heartbeat => [.heartbeatLoop]
  | caller _ => [.idle]

/-- The items of the file count as added. -/
def ChatSession.load (file : PendingFile) (tokens : TokenStore) : ChatSession where
  store := ⟨file.nextSeq, (file.items.map PendingItem.seq).dedup⟩
  objects seq := (file.items.reverse.find? fun item => item.seq = seq).getD
    { seq, receiver := [], content := [], ts := 0 }
  tokens := tokens
  trace := file.items.map fun item => .added item.seq

/-- A session after `start`. -/
def start (file : PendingFile) (tokens : TokenStore) : Config Thread Cmd ChatSession :=
  ⟨.load file tokens, Thread.main⟩

end OnlineChat.Client
