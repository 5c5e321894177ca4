import Mathlib.Data.List.Sort
import OnlineChat.Bytes
import OnlineChat.Library.Table

/-!
# Persistence

The tables behind one SQLite connection and the state of the group commit.  A batch
transaction leaves the state at its `BEGIN` in `saved`; a rollback goes back to it.
Every row of `messages` carries the call that inserted it, which no code reads.
-/

namespace OnlineChat

open Library

/-! ## Rows -/

structure UserRow where
  username : Bytes
  salt : Bytes
  pwdHash : Bytes
  createdAt : Int

structure RoomRow where
  name : Bytes
  owner : Bytes
  createdAt : Int

structure Message (Call : Type) where
  roomId : Int
  sender : Bytes
  receiver : Bytes
  content : Bytes
  ts : Int
  type : Bytes
  /-- The call that inserts the row; `none` in a table from an earlier run. -/
  origin : Option Call
  deriving DecidableEq

structure OfflineRow where
  sender : Bytes
  receiver : Bytes
  content : Bytes
  ts : Int
  delivered : Bool := false

/-- A row as `undelivered` returns it. -/
structure OffRow where
  id : Int
  sender : Bytes
  content : Bytes
  ts : Int
  deriving DecidableEq

/-- What SQLite and the clock answer to the statements of one critical section. -/
structure SqlOutcome where
  /-- `BEGIN IMMEDIATE` succeeds. -/
  opens : Bool := true
  /-- The statement can be prepared. -/
  prepares : Bool := true
  /-- Its step succeeds. -/
  steps : Bool := true
  /-- `SELECT last_insert_rowid()` answers. -/
  lastId : Bool := true
  /-- `COMMIT` succeeds. -/
  commits : Bool := true
  /-- The nanoseconds that `COMMIT` took. -/
  commitCost : Int := 0
  /-- A `SELECT` loop that fails after that many rows. -/
  fetches : Option Nat := none
  /-- A condition wait that returns without a notification. -/
  spurious : Bool := false

structure Database (Call : Type) where
  users : Table UserRow := ∅
  rooms : Table RoomRow := ∅
  offline : Table OfflineRow := ∅
  /-- `messages` as this connection sees it, an open batch included. -/
  messages : Table (Message Call) := ∅
  /-- `messages` at the last `BEGIN`. -/
  saved : Table (Message Call) := ∅
  inTx : Bool := false
  txPending : Nat := 0
  txGen : Int := 0
  txOk : Bool := true
  writersWaiting : Nat := 0
  commitCostNs : Int := 0
  /-- How often `cv_` was notified. -/
  wakes : Nat := 0
  /-- Whether each batch so far was committed.  Not part of the source. -/
  batches : List Bool := []

namespace Database

variable {Call : Type}

/-- The rows of `messages` that are on disk: those of an open batch are not. -/
def stored (db : Database Call) : Table (Message Call) :=
  if db.inTx then db.saved else db.messages

/-- The database that `open` finds on the disk: an open batch is gone, and the rows of
`messages` belong to no call. -/
def reopen {Call' : Type} (db : Database Call) : Database Call' where
  users := db.users
  rooms := db.rooms
  offline := db.offline
  messages := db.stored.map fun m =>
    { roomId := m.roomId, sender := m.sender, receiver := m.receiver, content := m.content,
      ts := m.ts, type := m.type, origin := none }

/-! ## Accounts, rooms and offline rows -/

/-- What a non-batch writer finds at the door: it sleeps on, goes to sleep, or goes on. -/
inductive Door where
  | asleep
  | sleeps (since : Nat)
  | passes

/-- `wait_tx_idle`.  `since` is the notification count at which the writer fell asleep. -/
def waitTxIdle (db : Database Call) (since : Option Nat) (spurious : Bool) : Door :=
  if since = some db.wakes ∧ ¬ spurious then .asleep
  else if db.inTx then .sleeps db.wakes
  else .passes

/-- The result of an `INSERT` under a uniqueness constraint. -/
inductive InsertResult where
  | inserted
  | duplicate
  | failed
  deriving DecidableEq

/-- The statement of `create_user`, behind `wait_tx_idle`. -/
def createUser (db : Database Call) (name salt pwdHash : Bytes) (ts : Int) (e : SqlOutcome) :
    InsertResult × Database Call :=
  if ¬ e.prepares then (.failed, db)
  else if db.users.rows.any fun row => row.2.username = cStr name then
    (if e.steps then .duplicate else .failed, db)
  else if ¬ e.steps then (.failed, db)
  else
    let row : UserRow :=
      { username := cStr name, salt := cStr salt, pwdHash := cStr pwdHash, createdAt := ts }
    (.inserted, { db with users := db.users.insert row })

def findUser (db : Database Call) (name : Bytes) (e : SqlOutcome) : Option UserRow :=
  if e.prepares ∧ e.steps then
    (db.users.rows.find? fun row => row.2.username = cStr name).map Prod.snd
  else none

/-- The statement of `create_room`, behind `wait_tx_idle`. -/
def createRoom (db : Database Call) (name owner : Bytes) (ts : Int) (e : SqlOutcome) :
    InsertResult × Database Call :=
  if ¬ e.prepares then (.failed, db)
  else if db.rooms.rows.any fun row => row.2.name = cStr name then
    (if e.steps then .duplicate else .failed, db)
  else if ¬ e.steps then (.failed, db)
  else
    let row : RoomRow := { name := cStr name, owner := cStr owner, createdAt := ts }
    (.inserted, { db with rooms := db.rooms.insert row })

/-- 0 when there is no such room or the query fails. -/
def findRoomId (db : Database Call) (name : Bytes) (e : SqlOutcome) : Int :=
  if e.prepares ∧ e.steps then
    ((db.rooms.rows.find? fun row => row.2.name = cStr name).map Prod.fst).getD 0
  else 0

/-- An id that is found is that of the room. -/
theorem mem_rows_of_findRoomId {db : Database Call} {name : Bytes} {e : SqlOutcome}
    (positive : 0 < db.findRoomId name e) :
    ∃ x, (db.findRoomId name e, x) ∈ db.rooms.rows ∧ x.name = cStr name := by
  unfold findRoomId at positive ⊢
  split at positive
  next answers =>
    rw [if_pos answers]
    cases hit : db.rooms.rows.find? fun row => row.2.name = cStr name with
    | none => simp [hit] at positive
    | some row =>
        have named := List.find?_some hit
        exact ⟨row.2, List.mem_of_find?_eq_some hit, of_decide_eq_true named⟩
  next => exact absurd positive (Int.lt_irrefl 0)

/-- The rows of a `SELECT` loop until it ends or fails. -/
def fetched {α : Type} (e : SqlOutcome) (rows : List α) : List α :=
  if e.prepares then
    match e.fetches with
    | none => rows
    | some n => rows.take n
  else []

def listRooms (db : Database Call) (e : SqlOutcome) : List (Int × RoomRow) :=
  fetched e db.rooms.rows

/-- The statement of `insert_offline`, behind `wait_tx_idle`. -/
def insertOffline (db : Database Call) (sender receiver content : Bytes) (ts : Int)
    (e : SqlOutcome) : Database Call :=
  let row : OfflineRow :=
    { sender := cStr sender, receiver := cStr receiver, content := cStr content, ts }
  if e.prepares ∧ e.steps then { db with offline := db.offline.insert row } else db

/-- Older first, and by key within a second. -/
def offLe (a b : OffRow) : Bool := a.ts < b.ts || (a.ts = b.ts && a.id ≤ b.id)

/-- All undelivered rows of a receiver in the order of the query. -/
def pendingFor (db : Database Call) (receiver : Bytes) : List OffRow :=
  ((db.offline.rows.filter fun row => row.2.receiver = cStr receiver ∧ row.2.delivered = false).map
    fun row => { id := row.1, sender := row.2.sender, content := row.2.content, ts := row.2.ts }
  ).insertionSort fun a b => offLe a b = true

def undelivered (db : Database Call) (receiver : Bytes) (e : SqlOutcome) : List OffRow :=
  fetched e (db.pendingFor receiver)

theorem fetched_sublist {α : Type} (e : SqlOutcome) (rows : List α) :
    (fetched e rows).Sublist rows := by
  unfold fetched
  split
  · split
    · exact List.Sublist.refl rows
    next n _ => exact List.take_sublist n rows
  · exact List.nil_sublist rows

/-- What is read is a row of that receiver that has not been delivered. -/
theorem mem_undelivered {db : Database Call} {receiver : Bytes} {e : SqlOutcome} {row : OffRow}
    (read : row ∈ db.undelivered receiver e) :
    ∃ x, (row.id, x) ∈ db.offline.rows ∧ x.receiver = cStr receiver ∧ x.delivered = false ∧
      row = { id := row.id, sender := x.sender, content := x.content, ts := x.ts } := by
  have pending := (fetched_sublist e (db.pendingFor receiver)).subset read
  simp only [pendingFor, List.mem_insertionSort, List.mem_map, List.mem_filter,
    decide_eq_true_eq] at pending
  obtain ⟨⟨id, x⟩, ⟨there, mine, undelivered⟩, rfl⟩ := pending
  exact ⟨x, there, mine, undelivered, rfl⟩

theorem undelivered_nodup (db : Database Call) (receiver : Bytes) (e : SqlOutcome) :
    ((db.undelivered receiver e).map OffRow.id).Nodup := by
  refine List.Nodup.sublist ((fetched_sublist e (db.pendingFor receiver)).map OffRow.id) ?_
  have sorted := List.perm_insertionSort (fun a b => offLe a b = true)
    ((db.offline.rows.filter fun row => row.2.receiver = cStr receiver ∧
      row.2.delivered = false).map
      fun row => { id := row.1, sender := row.2.sender, content := row.2.content, ts := row.2.ts })
  refine (sorted.map OffRow.id).nodup_iff.mpr ?_
  rw [List.map_map]
  refine List.Nodup.sublist (List.filter_sublist.map _) ?_
  exact List.pairwise_map.mpr (db.offline.increasing.imp fun less => Int.ne_of_lt less)

/-- The rows of a push are in the order of time and key. -/
theorem undelivered_sorted (db : Database Call) (receiver : Bytes) (e : SqlOutcome) :
    (db.undelivered receiver e).Pairwise fun a b => offLe a b = true := by
  have total : Std.Total fun a b : OffRow => offLe a b = true := by
    constructor
    intro a b
    simp only [offLe, Bool.or_eq_true, Bool.and_eq_true, decide_eq_true_eq]
    omega
  have trans : IsTrans OffRow fun a b => offLe a b = true := by
    constructor
    intro a b c
    simp only [offLe, Bool.or_eq_true, Bool.and_eq_true, decide_eq_true_eq]
    omega
  exact (List.pairwise_insertionSort _ _).sublist (fetched_sublist e _)

/-- The statement of `mark_delivered`, behind `wait_tx_idle`. -/
def markDelivered (db : Database Call) (id : Int) (e : SqlOutcome) : Database Call :=
  if e.prepares ∧ e.steps then
    { db with offline := db.offline.update id fun row => { row with delivered := true } }
  else db

/-! ## History pages -/

/-- Newer first, and by key within a second. -/
def newerLe (a b : Int × Message Call) : Bool :=
  b.2.ts < a.2.ts || (a.2.ts = b.2.ts && b.1 ≤ a.1)

/-- `WHERE p [AND (ts, id) < cursor] ORDER BY ts DESC, id DESC LIMIT limit`. -/
def page (db : Database Call) (p : Message Call → Bool) (cursor : Option (Int × Int))
    (limit : Nat) (e : SqlOutcome) : List (Int × Message Call) :=
  let before (row : Int × Message Call) : Bool :=
    match cursor with
    | none => true
    | some (ts, id) => row.2.ts < ts || (row.2.ts = ts && row.1 < id)
  fetched e ((((db.messages.rows.filter fun row => p row.2 && before row).insertionSort
    fun a b => newerLe a b = true)).take limit)

/-- What is read is a row of the table of which the condition holds. -/
theorem mem_page {db : Database Call} {p : Message Call → Bool} {cursor : Option (Int × Int)}
    {limit : Nat} {e : SqlOutcome} {row : Int × Message Call}
    (read : row ∈ db.page p cursor limit e) : row ∈ db.messages.rows ∧ p row.2 = true := by
  have sorted := (List.take_sublist _ _).subset ((fetched_sublist e _).subset read)
  rw [List.mem_insertionSort, List.mem_filter, Bool.and_eq_true] at sorted
  exact ⟨sorted.1, sorted.2.1⟩

def historyLatest (db : Database Call) (roomId : Int) (limit : Nat) (e : SqlOutcome) :
    List (Int × Message Call) :=
  db.page (fun m => m.roomId = roomId) none limit e

def historyBefore (db : Database Call) (roomId ts id : Int) (limit : Nat) (e : SqlOutcome) :
    List (Int × Message Call) :=
  db.page (fun m => m.roomId = roomId) (some (ts, id)) limit e

def inboxLatest (db : Database Call) (receiver : Bytes) (limit : Nat) (e : SqlOutcome) :
    List (Int × Message Call) :=
  db.page (fun m => m.receiver = cStr receiver) none limit e

def inboxBefore (db : Database Call) (receiver : Bytes) (ts id : Int) (limit : Nat)
    (e : SqlOutcome) : List (Int × Message Call) :=
  db.page (fun m => m.receiver = cStr receiver) (some (ts, id)) limit e

/-! ## Group commit -/

/-- `kBatchMax`. -/
def kBatchMax : Nat := 32

/-- `kBatchNeed`. -/
def kBatchNeed : Nat := 4

/-- `kCommitCostlyNs`. -/
def kCommitCostlyNs : Int := 1000000

/-- The row of `insert_room_msg`. -/
def roomMessage (roomId : Int) (sender content : Bytes) (ts : Int) (origin : Option Call) :
    Message Call :=
  { roomId, sender := cStr sender, receiver := bytes "ALL", content := cStr content, ts,
    type := bytes "room", origin }

/-- The row of `insert_private_msg`. -/
def privateMessage (sender receiver content : Bytes) (ts : Int) (origin : Option Call) :
    Message Call :=
  { roomId := 0, sender := cStr sender, receiver := cStr receiver, content := cStr content, ts,
    type := bytes "private", origin }

/-- The `INSERT INTO messages` and `last_insert_id`: the id, or -1. -/
def insertMessage (db : Database Call) (x : Message Call) (e : SqlOutcome) :
    Int × Database Call :=
  if e.prepares ∧ e.steps then
    (if e.lastId then db.messages.seq + 1 else -1, { db with messages := db.messages.insert x })
  else (-1, db)

/-- How a call gets in. -/
inductive Entered where
  | full
  | starter (myGen : Int)
  | joiner (myGen : Int)
  | alone

/-- `enter_batch_locked` up to its next wait.  `alone` is the fallback without a
transaction. -/
def enterBatchLocked (db : Database Call) (e : SqlOutcome) : Entered × Database Call :=
  if db.inTx then
    if kBatchMax ≤ db.txPending then (.full, db)
    else (.joiner db.txGen, { db with txPending := db.txPending + 1, wakes := db.wakes + 1 })
  else if e.opens then
    (.starter db.txGen, { db with inTx := true, txPending := 1, saved := db.messages })
  else (.alone, db)

/-- `resolve_tx_locked`.  `bump` is what `++tx_gen_` does to the counter. -/
def resolveTxLocked (bump : Int → Int) (db : Database Call) (ok : Bool) (e : SqlOutcome) :
    Database Call :=
  if ¬ db.inTx then db
  else
    let committed := ok && e.commits
    { db with
      commitCostNs := if ok then (db.commitCostNs * 3 + e.commitCost).tdiv 4 else db.commitCostNs
      messages := if committed then db.messages else db.saved
      inTx := false
      txPending := 0
      txOk := committed
      txGen := bump db.txGen
      wakes := db.wakes + 1
      batches := db.batches ++ [committed] }

/-- The result of a call once its batch is resolved. -/
def outcome (db : Database Call) (id : Int) : Int := if db.txOk then id else -1

/-- Where a call of `insert_room_msg` or `insert_private_msg` stands: before its
first step, at the door of the batch (asleep since some notification, or not),
waiting for its starter, in the starter's window, and on the way out. -/
inductive CallState where
  | start
  | enter (since : Option Nat)
  | joined (id myGen : Int) (since : Nat)
  | window (id myGen : Int)
  | leave (id : Int)
  deriving DecidableEq

inductive Progress where
  | goes (state : CallState)
  | returns (id : Int)

/-- A call inside the batch: the insert, and the critical section up to the next wait. -/
def insertEntered (bump : Int → Int) (db : Database Call) (x : Message Call) (e : SqlOutcome) :
    Entered → Database Call × CallState
  | .full => (db, .enter (some db.wakes))
  | .alone =>
      let (id, db) := db.insertMessage x e
      (db, .leave id)
  | .joiner myGen =>
      let (id, db) := db.insertMessage x e
      if id < 0 then (db, .leave (-1))
      else if myGen < 0 then (db, .leave id)
      else (db, .joined id myGen db.wakes)
  | .starter myGen =>
      let (id, db) := db.insertMessage x e
      if id < 0 then (db.resolveTxLocked bump false e, .leave (-1))
      else if myGen < 0 then (db, .leave id)
      else if kBatchNeed ≤ db.writersWaiting ∧ kCommitCostlyNs ≤ db.commitCostNs then
        (db, .window id myGen)
      else
        let db := db.resolveTxLocked bump true e
        (db, .leave (db.outcome id))

/-- One critical section of a call that inserts `x`.  `none` is a call that sleeps. -/
def advance (bump : Int → Int) (db : Database Call) (x : Message Call) (e : SqlOutcome) :
    CallState → Option (Database Call × Progress)
  | .start => some ({ db with writersWaiting := db.writersWaiting + 1 }, .goes (.enter none))
  | .enter since =>
      if since = some db.wakes ∧ ¬ e.spurious then none
      else
        let (entered, db) := db.enterBatchLocked e
        let (db, state) := db.insertEntered bump x e entered
        some (db, .goes state)
  | .joined id myGen since =>
      if since = db.wakes ∧ ¬ e.spurious then none
      else if db.txGen = myGen then some (db, .goes (.joined id myGen db.wakes))
      else some (db, .goes (.leave (db.outcome id)))
  | .window id _ =>
      let db := db.resolveTxLocked bump true e
      some (db, .goes (.leave (db.outcome id)))
  | .leave id => some ({ db with writersWaiting := db.writersWaiting - 1 }, .returns id)

end Database

end OnlineChat
