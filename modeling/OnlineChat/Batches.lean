import OnlineChat.Library.Recording
import OnlineChat.Library.Trace
import OnlineChat.Writers

/-!
# The progress of group commit

Writers of messages share batches, all other writers wait until no batch is open.  SQLite
may end the transaction of a batch by itself when an `INSERT` fails.  The history of a run
says which statements ran; from it one reads which call has a transaction open and which
calls still wait for the end of their batch.
-/

namespace OnlineChat

open Library Database

variable {Call File : Type}

/-- The writers that take no part in a batch. -/
inductive Statement where
  | createUser (name salt pwdHash : Bytes) (ts : Int)
  | createRoom (name owner : Bytes) (ts : Int)
  | insertOffline (sender receiver content : Bytes) (ts : Int)
  | markDelivered (id : Int)

def Statement.run (db : Database Call) (e : SqlOutcome) : Statement → Database Call
  | .createUser name salt pwdHash ts => (db.createUser name salt pwdHash ts e).2
  | .createRoom name owner ts => (db.createRoom name owner ts e).2
  | .insertOffline sender receiver content ts => db.insertOffline sender receiver content ts e
  | .markDelivered id => db.markDelivered id e

namespace Batches

/-- Where a call stands: one of `insert_room_msg` or `insert_private_msg`, or one of another
writer, asleep in `wait_tx_idle` since some notification or not. -/
inductive Stage where
  | batch (request : Request) (state : CallState)
  | plain (statement : Statement) (since : Option Nat)

/-- A call before its first step. -/
inductive Writer where
  | batch (request : Request)
  | plain (statement : Statement)

def Writer.entry : Writer → Stage
  | .batch request => .batch request .start
  | .plain statement => .plain statement none

/-- What is left to run of a call of `insert_room_msg` or `insert_private_msg`. -/
def stages (request : Request) : Progress → List Stage
  | .goes state => [.batch request state]
  | .returns _ => []

/-! ## The transaction of SQLite -/

/-- What SQLite answers. -/
structure Outcome extends SqlOutcome where
  /-- An `INSERT` that fails ends the transaction, as when the disk is full. -/
  fatal : Bool := false

/-- The database and SQLite's own transaction. -/
structure Engine (Call : Type) extends Database Call where
  /-- A transaction is open. -/
  live : Bool := false
  /-- The end of a batch leaves none open. -/
  inside : live = true → inTx = true

namespace Engine

variable (s : Engine Call) (e : Outcome) (db : Database Call)

/-- The call gets into the open batch. -/
def joins : Stage → Bool
  | .batch _ (.enter _) => s.inTx && s.txPending < kBatchMax
  | _ => false

/-- The `INSERT` of a joiner ends the transaction. -/
def aborts (stage : Stage) : Bool :=
  s.live && s.joins stage && !(e.prepares && e.steps) && e.fatal

/-- A batch without its transaction cannot be committed. -/
def answer : SqlOutcome := { e.toSqlOutcome with commits := e.commits && (s.live || !s.inTx) }

/-- No transaction is open. -/
def bare : Engine Call := { toDatabase := db, live := false, inside := nofun }

/-- The transaction opens and ends with the batch. -/
def follow : Engine Call :=
  { toDatabase := db
    live := db.inTx && (s.live || !s.inTx)
    inside := fun live => (Bool.and_eq_true_iff.mp live).1 }

/-- What a section leaves behind. -/
def after (stage : Stage) : Engine Call :=
  if s.aborts e stage then bare { db with messages := db.saved }
  -- without a transaction, the row of a joiner is committed by itself
  else if s.joins stage && !s.live then bare { db with saved := db.messages }
  else s.follow db

variable {s e db} {stage : Stage}

theorem after_of_not_joins (apart : s.joins stage = false) :
    s.after e db stage = s.follow db := by
  simp [after, aborts, apart]

end Engine

/-- Every thread of the program runs one call. -/
def program (bump : Int → Int) : Program Call Outcome Stage (Engine Call) where
  exec call e stage s :=
    match stage with
    | .batch request state =>
        (s.advance bump (request.message call) (s.answer e) state).map fun r =>
          (s.after e r.1 stage, stages request r.2)
    | .plain statement since =>
        match s.waitTxIdle since e.spurious with
        | .asleep => none
        | .sleeps n => some (s, [.plain statement (some n)])
        | .passes => some (s.follow (statement.run s.toDatabase e.toSqlOutcome), [])

/-! ## Histories -/

/-- What happens in a section. -/
inductive Happening (Call : Type) where
  /-- `BEGIN IMMEDIATE` succeeds. -/
  | opened (call : Call)
  /-- The call joins the open batch. -/
  | joined (call : Call)
  /-- The batch is committed or rolled back. -/
  | ended
  /-- SQLite ends the transaction by itself. -/
  | aborted
  /-- `finish_batch_locked` returns early to a call that opened or joined a batch. -/
  | early (call : Call)
  /-- The statement of another writer runs. -/
  | executed (call : Call)
  | returned (call : Call) (id : Int)
  deriving DecidableEq

/-- What a section inside the batch lets happen, behind its `INSERT`. -/
def inBatch (call : Call) (db : Database Call) (x : Message Call) (e : SqlOutcome) :
    Entered → List (Happening Call)
  | .full | .alone => []
  | .joiner myGen =>
      if (db.insertMessage x e).1 < 0 then [.joined call]
      else if myGen < 0 then [.joined call, .early call]
      else [.joined call]
  | .starter myGen =>
      if (db.insertMessage x e).1 < 0 then [.opened call, .ended]
      else if myGen < 0 then [.opened call, .early call]
      else if kBatchNeed ≤ db.writersWaiting ∧ kCommitCostlyNs ≤ db.commitCostNs then
        [.opened call]
      else [.opened call, .ended]

/-- What happens in one section of a call, but for the end of a transaction by itself. -/
def inSection (call : Call) (e : SqlOutcome) (stage : Stage) (db : Database Call) :
    List (Happening Call) :=
  match stage with
  | .batch _ .start | .batch _ (.joined ..) => []
  | .batch request (.enter _) =>
      inBatch call (db.enterBatchLocked e).2 (request.message call) e (db.enterBatchLocked e).1
  | .batch _ (.window ..) => if db.inTx then [.ended] else []
  | .batch _ (.leave id) => [.returned call id]
  | .plain _ since =>
      match db.waitTxIdle since e.spurious with
      | .passes => [.executed call]
      | _ => []

/-- What happens in one section of a call. -/
def happenings (call : Call) (e : Outcome) (stage : Stage) (s : Engine Call) :
    List (Happening Call) :=
  inSection call (s.answer e) stage s.toDatabase ++ if s.aborts e stage then [.aborted] else []

/-- The program with its history. -/
abbrev recorded (bump : Int → Int) :
    Program Call Outcome Stage (Engine Call × List (Happening Call)) :=
  (program bump).recording happenings

/-- No call has started on the database of that file. -/
def start (writer : Call → Writer) (file : Database File) :
    Config Call Stage (Engine Call × List (Happening Call)) :=
  ⟨(.bare file.reopen, []), fun call => [(writer call).entry]⟩

/-- Whose transaction is open behind a happening. -/
def opener (before : Option Call) : Happening Call → Option Call
  | .opened call => some call
  | .ended | .aborted => none
  | _ => before

/-- The call whose `BEGIN` opened the transaction that is open now. -/
def openedBy (notes : List (Happening Call)) : Option Call := notes.foldl opener none

/-- Whose batch is open behind a happening. -/
def holding (before : Option Call) : Happening Call → Option Call
  | .opened call => some call
  | .ended => none
  | _ => before

/-- The call that opened the batch that is open now. -/
def holder (notes : List (Happening Call)) : Option Call := notes.foldl holding none

variable {notes events : List (Happening Call)}

@[simp]
theorem openedBy_append : openedBy (notes ++ events) = events.foldl opener (openedBy notes) :=
  List.foldl_append

@[simp]
theorem holder_append : holder (notes ++ events) = events.foldl holding (holder notes) :=
  List.foldl_append

/-- A transaction is open in its batch only. -/
theorem holder_of_openedBy {call : Call} (mine : openedBy notes = some call) :
    holder notes = some call := by
  induction notes using List.reverseRecOn generalizing call with
  | nil => exact mine
  | append_singleton notes last inductionHypothesis =>
      rw [openedBy_append] at mine
      rw [holder_append]
      cases last with
      | opened call' => exact mine
      | ended | aborted => simp [opener] at mine
      | _ => exact inductionHypothesis mine

variable [DecidableEq Call]

/-- Whether a call waits for the end of its batch behind a happening. -/
def waits (call : Call) (before : Bool) : Happening Call → Bool
  | .opened call' | .joined call' => before || call' = call
  | .ended => false
  | _ => before

/-- The call opened or joined a batch that has not ended since. -/
def pending (call : Call) (notes : List (Happening Call)) : Bool :=
  notes.foldl (waits call) false

@[simp]
theorem pending_append {call : Call} :
    pending call (notes ++ events) = events.foldl (waits call) (pending call notes) :=
  List.foldl_append

/-- When a happening may follow a history. -/
def Legal (past : List (Happening Call)) : Happening Call → Prop
  | .executed _ => holder past = none
  | .returned call id => holder past ≠ some call ∧ (0 ≤ id → pending call past = false)
  | .early _ => False
  | _ => True

/-! ## The sections of a batch -/

/-- What the calls wait for. -/
structure Control where
  inTx : Bool
  txPending : Nat
  txGen : Int
  wakes : Nat

end Batches

def Database.control (db : Database Call) : Batches.Control :=
  { inTx := db.inTx, txPending := db.txPending, txGen := db.txGen, wakes := db.wakes }

namespace Batches

namespace Control

def joins (c : Control) : Control :=
  { c with txPending := c.txPending + 1, wakes := c.wakes + 1 }

def opens (c : Control) : Control := { c with inTx := true, txPending := 1 }

def resolves (bump : Int → Int) (c : Control) : Control :=
  { inTx := false, txPending := 0, txGen := bump c.txGen, wakes := c.wakes + 1 }

end Control

variable {bump : Int → Int} {call call' : Call} {db db' : Database Call} {e : SqlOutcome}
  {x : Message Call} {state : CallState} {p : Progress}

/-- All that a section of a call can do to the control state, and what happens in it. -/
inductive Moves (bump : Int → Int) (call : Call) (c : Control) :
    CallState → List (Happening Call) → Control → Progress → Prop
  | start : Moves bump call c .start [] c (.goes (.enter none))
  | full {since} (inside : c.inTx = true) :
      Moves bump call c (.enter since) [] c (.goes (.enter (some c.wakes)))
  | alone {since} (outside : c.inTx = false) (id : Int) :
      Moves bump call c (.enter since) [] c (.goes (.leave id))
  | joinFails {since} (inside : c.inTx = true) (room : c.txPending < kBatchMax) :
      Moves bump call c (.enter since) [.joined call] c.joins (.goes (.leave (-1)))
  | joinEarly {since} (inside : c.inTx = true) (room : c.txPending < kBatchMax) (id : Int)
      (negative : c.txGen < 0) :
      Moves bump call c (.enter since) [.joined call, .early call] c.joins (.goes (.leave id))
  | joins {since} (inside : c.inTx = true) (room : c.txPending < kBatchMax) (id : Int) :
      Moves bump call c (.enter since) [.joined call] c.joins
        (.goes (.joined id c.txGen (c.wakes + 1)))
  | openEarly {since} (outside : c.inTx = false) (id : Int) (negative : c.txGen < 0) :
      Moves bump call c (.enter since) [.opened call, .early call] c.opens (.goes (.leave id))
  | opens {since} (outside : c.inTx = false) (id : Int) :
      Moves bump call c (.enter since) [.opened call] c.opens (.goes (.window id c.txGen))
  | opensAndEnds {since} (outside : c.inTx = false) (id : Int) :
      Moves bump call c (.enter since) [.opened call, .ended] (c.opens.resolves bump)
        (.goes (.leave id))
  | sleepsOn {id myGen since} (same : c.txGen = myGen) :
      Moves bump call c (.joined id myGen since) [] c (.goes (.joined id myGen c.wakes))
  | wakesUp {id myGen since} (moved : c.txGen ≠ myGen) (id' : Int) :
      Moves bump call c (.joined id myGen since) [] c (.goes (.leave id'))
  | ends {id myGen} (inside : c.inTx = true) (id' : Int) :
      Moves bump call c (.window id myGen) [.ended] (c.resolves bump) (.goes (.leave id'))
  | finds {id myGen} (outside : c.inTx = false) (id' : Int) :
      Moves bump call c (.window id myGen) [] c (.goes (.leave id'))
  | leaves {id} : Moves bump call c (.leave id) [.returned call id] c (.returns id)

theorem control_resolve (inside : db.inTx = true) (commit : Bool) :
    (db.resolveTxLocked bump commit e).control = db.control.resolves bump := by
  simp [resolveTxLocked, Database.control, Control.resolves, inside]

theorem control_insertMessage (db : Database Call) (x : Message Call) (e : SqlOutcome) :
    (db.insertMessage x e).2.control = db.control := by
  rcases insertMessage_cases db x e with step | ⟨-, step⟩ | step <;> rw [step] <;> rfl

theorem moves_of_joiner (inside : db.inTx = true) (room : db.txPending < kBatchMax)
    (since : Option Nat) {d : Database Call} (entered : d.control = db.control.joins) :
    Moves bump call db.control (.enter since) (inBatch call d x e (.joiner db.txGen))
      (d.insertEntered bump x e (.joiner db.txGen)).1.control
      (.goes (d.insertEntered bump x e (.joiner db.txGen)).2) := by
  have inserted : (d.insertMessage x e).2.control = db.control.joins := by
    rw [control_insertMessage, entered]
  have wakes : (d.insertMessage x e).2.wakes = db.control.wakes + 1 :=
    congrArg Control.wakes inserted
  simp only [insertEntered, inBatch]
  split
  · rw [inserted]
    exact .joinFails inside room
  · split
    next negative =>
      rw [inserted]
      exact .joinEarly inside room _ negative
    next =>
      rw [inserted, wakes]
      exact .joins inside room _

theorem moves_of_starter (outside : db.inTx = false) (since : Option Nat) {d : Database Call}
    (entered : d.control = db.control.opens) :
    Moves bump call db.control (.enter since) (inBatch call d x e (.starter db.txGen))
      (d.insertEntered bump x e (.starter db.txGen)).1.control
      (.goes (d.insertEntered bump x e (.starter db.txGen)).2) := by
  have inserted : (d.insertMessage x e).2.control = db.control.opens := by
    rw [control_insertMessage, entered]
  have inside : (d.insertMessage x e).2.inTx = true := congrArg Control.inTx inserted
  have waiting : (d.insertMessage x e).2.writersWaiting = d.writersWaiting ∧
      (d.insertMessage x e).2.commitCostNs = d.commitCostNs := by
    rcases insertMessage_cases d x e with step | ⟨-, step⟩ | step <;> rw [step] <;> exact ⟨rfl, rfl⟩
  simp only [insertEntered, inBatch, waiting.1, waiting.2]
  split
  · rw [control_resolve inside, inserted]
    exact .opensAndEnds outside (-1)
  · split
    next negative =>
      rw [inserted]
      exact .openEarly outside _ negative
    next =>
      split
      · rw [inserted]
        exact .opens outside _
      · rw [control_resolve inside, inserted]
        exact .opensAndEnds outside _

/-- A section of a batch writer is one of these. -/
theorem moves_of_advance {request : Request}
    (ran : db.advance bump (request.message call) e state = some (db', p)) :
    Moves bump call db.control state (inSection call e (.batch request state) db) db'.control p := by
  cases state with
  | start =>
      obtain ⟨rfl, rfl⟩ : _ = db' ∧ _ = p := by simpa [advance] using ran
      exact .start
  | enter since =>
      obtain ⟨rfl, rfl⟩ := enter_of_advance ran
      simp only [inSection]
      unfold enterBatchLocked
      split
      next inside =>
        split
        next => exact .full inside
        next room => exact moves_of_joiner inside (by omega) since rfl
      next outside =>
        have outside : db.inTx = false := by simpa using outside
        split
        next => exact moves_of_starter outside since rfl
        next =>
          simp only [insertEntered, inBatch, control_insertMessage]
          exact .alone outside _
  | joined id myGen since =>
      obtain ⟨rfl, ⟨same, rfl⟩ | ⟨moved, rfl⟩⟩ := joined_of_advance ran
      · exact .sleepsOn same
      · exact .wakesUp moved _
  | window id myGen =>
      obtain ⟨rfl, rfl⟩ : _ = db' ∧ _ = p := by simpa [advance] using ran
      simp only [inSection]
      split
      next inside =>
        rw [control_resolve inside]
        exact .ends inside _
      next outside =>
        have outside : db.inTx = false := by simpa using outside
        have idle : db.resolveTxLocked bump true e = db := by simp [resolveTxLocked, outside]
        rw [idle]
        exact .finds outside _
  | leave id =>
      obtain ⟨rfl, rfl⟩ : _ = db' ∧ _ = p := by simpa [advance] using ran
      exact .leaves

/-- All that a section of any writer can do to the control state. -/
inductive Section (bump : Int → Int) (call : Call) (c : Control) :
    Stage → List (Happening Call) → Control → List Stage → Prop
  | moves {request state events c' p} (moves : Moves bump call c state events c' p) :
      Section bump call c (.batch request state) events c' (stages request p)
  | sleeps {statement since} (inside : c.inTx = true) :
      Section bump call c (.plain statement since) [] c [.plain statement (some c.wakes)]
  | executes {statement since} (outside : c.inTx = false) :
      Section bump call c (.plain statement since) [.executed call] c []

theorem control_run (statement : Statement) (db : Database Call) (e : SqlOutcome) :
    (statement.run db e).control = db.control := by
  cases statement <;>
    simp only [Statement.run, createUser, createRoom, insertOffline, markDelivered] <;>
    repeat' split
  all_goals rfl

/-- The three ways through `wait_tx_idle`. -/
theorem waitTxIdle_cases (db : Database Call) (since : Option Nat) (spurious : Bool) :
    (since = some db.wakes ∧ db.waitTxIdle since spurious = .asleep) ∨
    (db.inTx = true ∧ db.waitTxIdle since spurious = .sleeps db.wakes) ∨
    (db.inTx = false ∧ db.waitTxIdle since spurious = .passes) := by
  unfold waitTxIdle
  split
  next sleeping => exact .inl ⟨sleeping.1, rfl⟩
  next =>
    cases inside : db.inTx
    · exact .inr (.inr ⟨rfl, if_neg (by simp)⟩)
    · exact .inr (.inl ⟨rfl, if_pos rfl⟩)

omit e in
@[simp]
theorem Engine.control_follow (s : Engine Call) (db : Database Call) :
    (s.follow db).control = db.control := rfl

/-- Nobody waits for the transaction of SQLite. -/
@[simp]
theorem Engine.control_after (s : Engine Call) (e : Outcome) (db : Database Call) (stage : Stage) :
    (s.after e db stage).control = db.control := by
  unfold Engine.after
  split_ifs <;> rfl

variable {s s' : Engine Call} {o : Outcome}

theorem section_of_exec {stage : Stage} {new : List Stage}
    (ran : (program bump).exec call o stage s = some (s', new)) :
    Section bump call s.control stage (inSection call (s.answer o) stage s.toDatabase) s'.control
      new := by
  cases stage with
  | batch request state =>
      obtain ⟨⟨d, p⟩, advanced, result⟩ := Option.map_eq_some_iff.mp ran
      obtain ⟨rfl, rfl⟩ := Prod.mk.inj result
      rw [Engine.control_after]
      exact .moves (moves_of_advance advanced)
  | plain statement since =>
      simp only [program] at ran
      simp only [inSection]
      have spurious : (s.answer o).spurious = o.spurious := rfl
      rw [spurious]
      rcases waitTxIdle_cases s.toDatabase since o.spurious with
        ⟨-, door⟩ | ⟨inside, door⟩ | ⟨outside, door⟩ <;> simp only [door] at ran ⊢
      · simp at ran
      · obtain ⟨rfl, rfl⟩ : s = s' ∧ _ = new := by simpa using ran
        exact .sleeps inside
      · obtain ⟨rfl, rfl⟩ : _ = s' ∧ [] = new := by simpa using ran
        rw [Engine.control_follow, control_run]
        exact .executes outside

variable {c c' : Control} {events : List (Happening Call)} {stage : Stage} {new : List Stage}

/-- Only with a negative generation does a call get its early return. -/
theorem Section.negative_of_early (ran : Section bump call c stage events c' new)
    (early : .early call ∈ events) : c.txGen < 0 := by
  cases ran with
  | moves moves =>
      cases moves with
      | joinEarly _ _ _ negative => exact negative
      | openEarly _ _ negative => exact negative
      | _ => simp at early
  | _ => simp at early

/-- The generation stays with its open batch, or the next one comes. -/
theorem Section.generation (ran : Section (· + 1) call c stage events c' new) :
    (c'.txGen = c.txGen ∧ (c.inTx = true → c'.inTx = true)) ∨ c'.txGen = c.txGen + 1 := by
  cases ran with
  | moves moves =>
      cases moves with
      | start | full | alone | sleepsOn | wakesUp | finds | leaves => exact .inl ⟨rfl, id⟩
      | joinFails | joinEarly | joins => exact .inl ⟨rfl, id⟩
      | openEarly | opens => exact .inl ⟨rfl, fun _ => rfl⟩
      | opensAndEnds | ends => exact .inr rfl
  | sleeps | executes => exact .inl ⟨rfl, id⟩

/-- A joiner of the current generation has its batch open. -/
def Current (c : Control) : Stage → Prop
  | .batch _ (.joined _ myGen _) => myGen ≤ c.txGen ∧ (myGen = c.txGen → c.inTx = true)
  | _ => True

theorem Current.kept (current : Current c stage)
    (generation : (c'.txGen = c.txGen ∧ (c.inTx = true → c'.inTx = true)) ∨
      c'.txGen = c.txGen + 1) : Current c' stage := by
  cases stage with
  | plain statement since => trivial
  | batch request state =>
      cases state with
      | joined id myGen since =>
          obtain ⟨before, inside⟩ := current
          rcases generation with ⟨same, still⟩ | next
          · refine ⟨by omega, ?_⟩
            intro now
            exact still (inside (by omega))
          · exact ⟨by omega, fun now => by omega⟩
      | _ => trivial

theorem Section.current (ran : Section bump call c stage events c' new) (before : Current c stage) :
    ∀ stage ∈ new, Current c' stage := by
  intro stage there
  cases ran with
  | moves moves =>
      cases moves with
      | joins inside =>
          obtain rfl := List.mem_singleton.mp there
          exact ⟨Int.le_refl _, fun _ => inside⟩
      | sleepsOn =>
          obtain rfl := List.mem_singleton.mp there
          exact before
      | leaves => simp [stages] at there
      | _ =>
          obtain rfl := List.mem_singleton.mp there
          trivial
  | sleeps =>
      obtain rfl := List.mem_singleton.mp there
      trivial
  | executes => simp at there

/-! ## What is known of a call -/

/-- A writer at the door sleeps there only behind an open batch. -/
def Barred (since : Option Nat) (c : Control) : Prop :=
  ∀ n, since = some n → n ≤ c.wakes ∧ (n = c.wakes → c.inTx = true)

theorem barred_none (c : Control) : Barred none c := nofun

theorem Barred.kept {since : Option Nat} (barred : Barred since c) (wakes : c.wakes ≤ c'.wakes)
    (still : c'.wakes = c.wakes → c.inTx = true → c'.inTx = true) : Barred since c' := by
  intro n sleeps
  obtain ⟨before, inside⟩ := barred n sleeps
  refine ⟨before.trans wakes, ?_⟩
  intro now
  exact still (by omega) (inside (by omega))

/-- What is known of a call in each of its stages. -/
def Placed [DecidableEq Call] (call : Call) (c : Control) (notes : List (Happening Call)) : Stage → Prop
  | .batch _ .start => pending call notes = false
  | .batch _ (.enter since) => pending call notes = false ∧ Barred since c
  | .batch _ (.joined _ myGen since) =>
      since ≤ c.wakes ∧ (since = c.wakes → c.txGen = myGen) ∧
        (pending call notes = true → c.txGen = myGen)
  | .batch _ (.window ..) => holder notes = some call
  | .batch _ (.leave id) => 0 ≤ id → pending call notes = false
  | .plain _ since => Barred since c

variable [DecidableEq Call] {notes : List (Happening Call)}

/-- A section of one call does no harm to another one. -/
structure Harmless (call : Call) (c : Control) (notes : List (Happening Call)) (c' : Control)
    (events : List (Happening Call)) : Prop where
  wakes : c.wakes ≤ c'.wakes
  still : c'.wakes = c.wakes → c'.txGen = c.txGen ∧ (c.inTx = true → c'.inTx = true)
  pending : pending call (notes ++ events) = true → pending call notes = true ∧ c'.txGen = c.txGen
  opened : holder notes = some call → holder (notes ++ events) = some call
  others : holder (notes ++ events) = some call → holder notes = some call

theorem Placed.kept (placed : Placed call c notes stage)
    (harmless : Harmless call c notes c' events) : Placed call c' (notes ++ events) stage := by
  have waited (before : pending call notes = false) : pending call (notes ++ events) = false := by
    apply eq_false_of_ne_true
    intro after
    exact absurd (harmless.pending after).1 (by simp [before])
  have barred {since : Option Nat} (before : Barred since c) : Barred since c' :=
    before.kept harmless.wakes fun same => (harmless.still same).2
  cases stage with
  | batch request state =>
      cases state with
      | start => exact waited placed
      | enter since => exact ⟨waited placed.1, barred placed.2⟩
      | joined id myGen since =>
          obtain ⟨before, current, unfinished⟩ := placed
          refine ⟨before.trans harmless.wakes, ?_, ?_⟩
          · intro now
            have same : c'.wakes = c.wakes := by
              have wakes := harmless.wakes
              omega
            rw [(harmless.still same).1]
            exact current (by omega)
          · intro after
            obtain ⟨before, same⟩ := harmless.pending after
            rw [same]
            exact unfinished before
      | window id myGen => exact harmless.opened placed
      | leave id => exact fun positive => waited (placed positive)
  | plain statement since => exact barred placed

theorem Section.harmless (ran : Section bump call c stage events c' new)
    (other : call ≠ call') (agrees : c.inTx = (holder notes).isSome)
    (placed : Placed call c notes stage) : Harmless call' c notes c' events := by
  have idle (outside : c.inTx = false) : holder notes = none := by
    simpa [outside] using agrees.symm
  have still : Harmless call' c notes c [] :=
    ⟨Nat.le_refl _, by simp, by simp, by simp, by simp⟩
  cases ran with
  | moves moves =>
      cases moves with
      | start | full | alone | sleepsOn | wakesUp | finds => exact still
      | joinFails | joinEarly | joins =>
          refine ⟨Nat.le_succ _, ?_, ?_, ?_, ?_⟩ <;>
            simp [Control.joins, holding, waits, other]
      | openEarly outside | opens outside =>
          refine ⟨Nat.le_refl _, ?_, ?_, ?_, ?_⟩ <;>
            simp [Control.opens, holding, waits, other, idle outside]
      | opensAndEnds outside =>
          refine ⟨Nat.le_succ _, ?_, ?_, ?_, ?_⟩ <;>
            simp [Control.opens, Control.resolves, holding, waits, idle outside]
      | ends =>
          have mine : holder notes = some call := placed
          refine ⟨Nat.le_succ _, ?_, ?_, ?_, ?_⟩ <;>
            simp [Control.resolves, holding, waits, mine, other]
      | leaves => refine ⟨Nat.le_refl _, ?_, ?_, ?_, ?_⟩ <;> simp [holding, waits]
  | sleeps => exact still
  | executes => refine ⟨Nat.le_refl _, ?_, ?_, ?_, ?_⟩ <;> simp [holding, waits]

/-- What a section leaves behind for its own call and the batch. -/
structure Leaves (call : Call) (c' : Control) (notes : List (Happening Call))
    (events : List (Happening Call)) (new : List Stage) : Prop where
  agrees : c'.inTx = (holder (notes ++ events)).isSome
  bounded : c'.txPending ≤ kBatchMax
  lawful : Lawful Legal (notes ++ events)
  short : new.length ≤ 1
  placed : ∀ stage ∈ new, Placed call c' (notes ++ events) stage
  starter : holder (notes ++ events) = some call →
    ∃ request id myGen, new = [.batch request (.window id myGen)]

theorem lawful_concat₂ {a b : Happening Call} (lawful : Lawful Legal notes) (first : Legal notes a)
    (second : Legal (notes ++ [a]) b) : Lawful Legal (notes ++ [a, b]) := by
  rw [List.append_cons notes a [b]]
  exact (lawful.concat first).concat second

theorem Section.leaves (ran : Section bump call c stage events c' new)
    (sober : .early call ∉ events) (agrees : c.inTx = (holder notes).isSome)
    (bounded : c.txPending ≤ kBatchMax) (lawful : Lawful Legal notes)
    (placed : Placed call c notes stage)
    (starter : holder notes = some call →
      ∃ request id myGen, stage = .batch request (.window id myGen)) :
    Leaves call c' notes events new := by
  have idle (outside : c.inTx = false) : holder notes = none := by
    simpa [outside] using agrees.symm
  have other (apart : ∀ request id myGen, stage ≠ .batch request (.window id myGen)) :
      holder notes ≠ some call := by
    intro mine
    obtain ⟨request, id, myGen, same⟩ := starter mine
    exact apart request id myGen same
  have quiet (silent : events = []) (same : c' = c) (short : new.length ≤ 1)
      (after : ∀ stage ∈ new, Placed call c notes stage)
      (apart : ∀ request id myGen, stage ≠ .batch request (.window id myGen)) :
      Leaves call c' notes events new := by
    subst silent same
    rw [← List.append_nil notes] at agrees lawful after
    refine ⟨agrees, bounded, lawful, short, after, ?_⟩
    intro mine
    exact absurd (by simpa using mine) (other apart)
  cases ran with
  | @moves request _ _ _ _ moves =>
      cases moves with
      | start =>
          refine quiet rfl rfl (Nat.le_refl 1) ?_ nofun
          intro stage there
          obtain rfl := List.mem_singleton.mp there
          exact ⟨placed, barred_none c⟩
      | full inside =>
          refine quiet rfl rfl (Nat.le_refl 1) ?_ nofun
          intro stage there
          obtain rfl := List.mem_singleton.mp there
          refine ⟨placed.1, ?_⟩
          intro n sleeps
          obtain rfl := Option.some.inj sleeps
          exact ⟨Nat.le_refl _, fun _ => inside⟩
      | alone outside id =>
          refine quiet rfl rfl (Nat.le_refl 1) ?_ nofun
          intro stage there
          obtain rfl := List.mem_singleton.mp there
          exact fun _ => placed.1
      | joinFails inside room =>
          refine ⟨?_, room, lawful.concat trivial, Nat.le_refl 1, ?_, ?_⟩
          · simpa [Control.joins, holding] using agrees
          · intro stage there
            obtain rfl := List.mem_singleton.mp there
            exact fun positive => absurd positive (by decide)
          · intro mine
            exact absurd (by simpa [holding] using mine) (other nofun)
      | joinEarly | openEarly => simp at sober
      | joins inside room id =>
          refine ⟨?_, room, lawful.concat trivial, Nat.le_refl 1, ?_, ?_⟩
          · simpa [Control.joins, holding] using agrees
          · intro stage there
            obtain rfl := List.mem_singleton.mp there
            exact ⟨Nat.le_refl _, fun _ => rfl, fun _ => rfl⟩
          · intro mine
            exact absurd (by simpa [holding] using mine) (other nofun)
      | opens outside id =>
          refine ⟨?_, ?_, lawful.concat trivial, Nat.le_refl 1, ?_, ?_⟩
          · simp [Control.opens, holding]
          · simp [Control.opens, kBatchMax]
          · intro stage there
            obtain rfl := List.mem_singleton.mp there
            simp [Placed, holding]
          · intro _
            exact ⟨request, id, c.txGen, rfl⟩
      | opensAndEnds outside id =>
          refine ⟨?_, Nat.zero_le _, lawful_concat₂ lawful trivial trivial, Nat.le_refl 1, ?_, ?_⟩
          · simp [Control.resolves, holding]
          · intro stage there
            obtain rfl := List.mem_singleton.mp there
            simp [Placed, waits]
          · simp [holding]
      | sleepsOn same =>
          refine quiet rfl rfl (Nat.le_refl 1) ?_ nofun
          intro stage there
          obtain rfl := List.mem_singleton.mp there
          exact ⟨Nat.le_refl _, fun _ => same, fun _ => same⟩
      | wakesUp moved id' =>
          refine quiet rfl rfl (Nat.le_refl 1) ?_ nofun
          intro stage there
          obtain rfl := List.mem_singleton.mp there
          exact fun _ => eq_false_of_ne_true fun waiting => moved (placed.2.2 waiting)
      | ends inside id' =>
          refine ⟨?_, Nat.zero_le _, lawful.concat trivial, Nat.le_refl 1, ?_, ?_⟩
          · simp [Control.resolves, holding]
          · intro stage there
            obtain rfl := List.mem_singleton.mp there
            simp [Placed, waits]
          · simp [holding]
      | finds outside =>
          have mine : holder notes = some call := placed
          simp [idle outside] at mine
      | leaves =>
          have mine := other nofun
          refine ⟨?_, bounded, lawful.concat ⟨mine, placed⟩, Nat.zero_le 1, ?_, ?_⟩
          · simpa [holding] using agrees
          · simp [stages]
          · intro opened
            exact absurd (by simpa [holding] using opened) mine
  | sleeps inside =>
      refine quiet rfl rfl (Nat.le_refl 1) ?_ nofun
      intro stage there
      obtain rfl := List.mem_singleton.mp there
      intro n sleeps
      obtain rfl := Option.some.inj sleeps
      exact ⟨Nat.le_refl _, fun _ => inside⟩
  | executes outside =>
      refine ⟨?_, bounded, lawful.concat (idle outside), Nat.zero_le 1, by simp, ?_⟩
      · simpa [holding] using agrees
      · intro opened
        exact absurd (by simpa [holding] using opened) (other nofun)

/-- Only SQLite knows of the end of a transaction by itself. -/
theorem Harmless.aborted (harmless : Harmless call c notes c' events) :
    Harmless call c notes c' (events ++ [.aborted]) where
  wakes := harmless.wakes
  still := harmless.still
  pending waiting := harmless.pending (by simpa [waits] using waiting)
  opened mine := by simpa [holding] using harmless.opened mine
  others mine := harmless.others (by simpa [holding] using mine)

theorem Placed.aborted (placed : Placed call c notes stage) :
    Placed call c (notes ++ [.aborted]) stage := by
  have same : Harmless call c notes c [] :=
    ⟨Nat.le_refl _, by simp, by simp, by simp, by simp⟩
  exact placed.kept same.aborted

theorem Leaves.aborted (left : Leaves call c' notes events new) :
    Leaves call c' notes (events ++ [.aborted]) new where
  agrees := by simpa [holding] using left.agrees
  bounded := left.bounded
  lawful := by
    rw [← List.append_assoc]
    exact left.lawful.concat trivial
  short := left.short
  placed stage there := by
    rw [← List.append_assoc]
    exact (left.placed stage there).aborted
  starter mine := left.starter (by simpa [holding] using mine)

/-! ## Runs -/

/-- The control state of a configuration. -/
abbrev controlOf (cfg : Config Call Stage (Engine Call × List (Happening Call))) : Control :=
  cfg.shared.1.control

/-- The history of a configuration. -/
abbrev historyOf (cfg : Config Call Stage (Engine Call × List (Happening Call))) :
    List (Happening Call) :=
  cfg.shared.2

/-- The invariant of every run in which no call gets its early return. -/
structure Kept (cfg : Config Call Stage (Engine Call × List (Happening Call))) : Prop where
  agrees : (controlOf cfg).inTx = (holder (historyOf cfg)).isSome
  bounded : (controlOf cfg).txPending ≤ kBatchMax
  lawful : Lawful Legal (historyOf cfg)
  short : ∀ call, (cfg.stack call).length ≤ 1
  starter : ∀ call, holder (historyOf cfg) = some call →
    ∃ request id myGen, cfg.stack call = [.batch request (.window id myGen)]
  placed : ∀ call, ∀ stage ∈ cfg.stack call, Placed call (controlOf cfg) (historyOf cfg) stage

theorem kept_start (writer : Call → Writer) (file : Database File) :
    Kept (start writer file : Config Call Stage (Engine Call × List (Happening Call))) where
  agrees := rfl
  bounded := Nat.zero_le _
  lawful := lawful_nil
  short _ := Nat.le_refl 1
  starter _ mine := nomatch mine
  placed call stage there := by
    obtain rfl := List.mem_singleton.mp there
    unfold Writer.entry
    split
    · exact rfl
    · exact barred_none _

omit [DecidableEq Call] in
theorem happenings_cases (call : Call) (o : Outcome) (stage : Stage) (s : Engine Call) :
    happenings call o stage s = inSection call (s.answer o) stage s.toDatabase ∨
      happenings call o stage s = inSection call (s.answer o) stage s.toDatabase ++ [.aborted] := by
  unfold happenings
  split
  · exact .inr rfl
  · exact .inl (List.append_nil _)

omit [DecidableEq Call] in
theorem mem_happenings {x : Happening Call} (other : x ≠ .aborted) :
    x ∈ happenings call o stage s ↔ x ∈ inSection call (s.answer o) stage s.toDatabase := by
  rcases happenings_cases call o stage s with same | same <;> simp [same, other]

variable {cfg : Config Call Stage (Engine Call × List (Happening Call))}
  {rest : List Stage} {w : Engine Call × List (Happening Call)}

theorem eq_singleton_of_short {l : List Stage} (short : l.length ≤ 1) (there : stage ∈ l) :
    l = [stage] := by
  match l, short with
  | [y], _ => rw [List.mem_singleton.mp there]

/-- The step lemma. -/
theorem Kept.step (kept : Kept cfg) (stack : cfg.stack call = stage :: rest)
    (ran : (recorded bump).exec call o stage cfg.shared = some (w, new))
    (sober : .early call ∉ happenings call o stage cfg.shared.1) :
    Kept ⟨w, Function.update cfg.stack call (new ++ rest)⟩ := by
  obtain ⟨s, notes⟩ := w
  obtain ⟨ran, noted⟩ := Program.exec_recording.mp ran
  have sect := section_of_exec ran
  have alone : cfg.stack call = [stage] := eq_singleton_of_short (kept.short call) (by simp [stack])
  obtain rfl : rest = [] := by simpa [stack] using alone
  have placed := kept.placed call stage (by simp [stack])
  have own : Leaves call s.control cfg.shared.2 (happenings call o stage cfg.shared.1) new := by
    have left := sect.leaves (mt (mem_happenings (by simp)).mpr sober) kept.agrees kept.bounded
      kept.lawful placed (by
        intro mine
        obtain ⟨request, id, myGen, window⟩ := kept.starter call mine
        exact ⟨request, id, myGen, by simpa [stack] using window⟩)
    rcases happenings_cases call o stage cfg.shared.1 with same | same <;> rw [same]
    · exact left
    · exact left.aborted
  have others (call' : Call) (other : call' ≠ call) : Harmless call' cfg.shared.1.control
      cfg.shared.2 s.control (happenings call o stage cfg.shared.1) := by
    have harmless := sect.harmless other.symm kept.agrees placed
    rcases happenings_cases call o stage cfg.shared.1 with same | same <;> rw [same]
    · exact harmless
    · exact harmless.aborted
  simp only at noted
  subst noted
  refine ⟨own.agrees, own.bounded, own.lawful, ?_, ?_, ?_⟩
  · intro call'
    by_cases same : call' = call
    · subst same
      simpa using own.short
    · simpa [same] using kept.short call'
  · intro call' mine
    by_cases same : call' = call
    · subst same
      simpa using own.starter mine
    · simpa [same] using kept.starter call' ((others call' same).others mine)
  · intro call' stage' there
    by_cases same : call' = call
    · subst same
      exact own.placed stage' (by simpa using there)
    · exact (kept.placed call' stage' (by simpa [same] using there)).kept (others call' same)

/-- The steps in which no call gets the early return of `finish_batch_locked`. -/
def sober (cfg : Config Call Stage (Engine Call × List (Happening Call))) (call : Call)
    (o : Outcome) : Bool :=
  match cfg.stack call with
  | stage :: _ => .early call ∉ happenings call o stage cfg.shared.1
  | [] => true

theorem kept_of_run {writer : Call → Writer} {file : Database File}
    (run : (recorded bump).Reaches sober (start writer file) cfg) : Kept cfg := by
  apply run.invariant
  · exact kept_start writer file
  · intro cfg call o stage rest w new _ kept allowed stack ran
    apply kept.step stack ran
    simpa [sober, stack] using allowed

/-! ## An unbounded generation -/

/-- The invariant of every run with an unbounded generation. -/
structure Counting (cfg : Config Call Stage (Engine Call × List (Happening Call))) : Prop where
  nonneg : 0 ≤ (controlOf cfg).txGen
  current : ∀ call, ∀ stage ∈ cfg.stack call, Current (controlOf cfg) stage

theorem Counting.step (counting : Counting cfg) (stack : cfg.stack call = stage :: rest)
    (ran : (recorded (· + 1)).exec call o stage cfg.shared = some (w, new)) :
    .early call ∉ happenings call o stage cfg.shared.1 ∧
      Counting ⟨w, Function.update cfg.stack call (new ++ rest)⟩ := by
  have sect := section_of_exec (Program.exec_recording.mp ran).1
  have generation := sect.generation
  have nonneg : 0 ≤ cfg.shared.1.control.txGen := counting.nonneg
  refine ⟨?_, ?_, ?_⟩
  · intro early
    have negative := sect.negative_of_early ((mem_happenings (by simp)).mp early)
    omega
  · show 0 ≤ w.1.control.txGen
    rcases generation with ⟨same, -⟩ | next
    · rwa [same]
    · omega
  · intro call' stage' there
    by_cases same : call' = call
    · subst same
      rcases List.mem_append.mp (by simpa using there) with fresh | below
      · exact sect.current (counting.current call' stage (by simp [stack])) stage' fresh
      · exact (counting.current call' stage' (by simp [stack, below])).kept generation
    · exact (counting.current call' stage' (by simpa [same] using there)).kept generation

/-- The history knows whose transaction is open. -/
def Tracked (s : Engine Call) (notes : List (Happening Call)) : Prop :=
  s.live = (openedBy notes).isSome

omit [DecidableEq Call] in
/-- A call joins while a batch is open. -/
theorem inside_of_joins (joins : s.joins stage = true) : s.inTx = true := by
  unfold Engine.joins at joins
  split at joins
  · exact (Bool.and_eq_true_iff.mp joins).1
  · cases joins

omit [DecidableEq Call] in
theorem live_of_exec (ran : (program bump).exec call o stage s = some (s', new)) :
    s'.live = (!s.aborts o stage && s'.inTx && (s.live || !s.inTx)) := by
  have followed (db : Database Call) : (s.after o db stage).live =
      (!s.aborts o stage && (s.after o db stage).inTx && (s.live || !s.inTx)) := by
    unfold Engine.after
    split_ifs with aborts bare
    · simp [Engine.bare, aborts]
    · obtain ⟨joins, dead⟩ : s.joins stage = true ∧ s.live = false := by simpa using bare
      simp [Engine.bare, dead, inside_of_joins joins]
    · simp [Engine.follow, aborts]
  cases stage with
  | batch request state =>
      obtain ⟨⟨d, p⟩, -, result⟩ := Option.map_eq_some_iff.mp ran
      obtain ⟨rfl, -⟩ := Prod.mk.inj result
      exact followed d
  | plain statement since =>
      have apart : s.aborts o (.plain statement since) = false := by
        simp [Engine.aborts, Engine.joins]
      rw [apart]
      simp only [program] at ran
      split at ran
      · cases ran
      · obtain ⟨rfl, -⟩ := Prod.mk.inj (Option.some.inj ran)
        cases live : s.live with
        | false =>
            cases inside : s.inTx <;> simp
        | true => simp [s.inside live]
      · obtain ⟨rfl, -⟩ := Prod.mk.inj (Option.some.inj ran)
        simp [Engine.follow]

omit [DecidableEq Call] in
/-- A transaction opens with its batch and ends with it at the latest. -/
theorem Section.tracks (ran : Section bump call c stage events c' new) {live : Bool}
    (inside : live = true → c.inTx = true) (tracked : live = (openedBy notes).isSome) :
    (openedBy (notes ++ events)).isSome = (c'.inTx && (live || !c.inTx)) := by
  have kept : (openedBy notes).isSome = (c.inTx && (live || !c.inTx)) := by
    rw [← tracked]
    cases open' : live with
    | true => simp [inside open']
    | false => simp
  cases ran with
  | moves moves =>
      cases moves with
      | start | full | alone | sleepsOn | wakesUp | finds => simpa using kept
      | joinFails | joinEarly | joins => simpa [Control.joins, opener] using kept
      | openEarly outside | opens outside => simp [Control.opens, opener, outside]
      | opensAndEnds outside => simp [Control.resolves, opener]
      | ends => simp [Control.resolves, opener]
      | leaves => simpa [opener] using kept
  | sleeps => simpa using kept
  | executes => simpa [opener] using kept

omit [DecidableEq Call] in
/-- The step lemma. -/
theorem Tracked.step (tracked : Tracked s notes)
    (ran : (program bump).exec call o stage s = some (s', new)) :
    Tracked s' (notes ++ happenings call o stage s) := by
  have live := live_of_exec ran
  have tracks : (openedBy (notes ++ inSection call (s.answer o) stage s.toDatabase)).isSome =
      (s'.inTx && (s.live || !s.inTx)) := (section_of_exec ran).tracks s.inside tracked
  unfold Tracked happenings
  cases aborts : s.aborts o stage with
  | true => simp [live, aborts, opener]
  | false =>
      rw [if_neg (by simp), List.append_nil, tracks, live, aborts]
      rfl

/-- The call waits as the starter of a batch. -/
def Starts (cfg : Config Call Stage (Engine Call × List (Happening Call))) (call : Call) : Prop :=
  ∃ request id myGen, cfg.stack call = [.batch request (.window id myGen)]

/-- Five messages and an account. -/
def writer₆ (call : Fin 6) : Writer :=
  if call = 5 then .plain (.createUser (bytes "bob") [] [] 0)
  else .batch (.roomMsg 1 (bytes "u") (bytes "hi") (1700000000 + call))

/-- Writer 0 commits in 4 ms, and writer 1 starts a batch. -/
def opens₆ : List (Fin 6 × Outcome) :=
  [(0, {}), (0, { commitCost := 4000000 }), (0, {}), (1, {}), (2, {}), (3, {}), (4, {}), (1, {})]

/-- Writer 2 joins the batch, and the account waits for its end. -/
def waiting₆ : List (Fin 6 × Outcome) := opens₆ ++ [(2, ({} : Outcome)), (5, {})]

end Batches

end OnlineChat
