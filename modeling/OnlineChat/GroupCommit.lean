import OnlineChat.Database
import OnlineChat.Library.Threads

/-!
# Group commit

What a call of `insert_room_msg` or `insert_private_msg` knows at each of its waits,
and that every critical section of every call keeps it.  From this follows when the
result of a call tells the truth about its row.
-/

namespace OnlineChat.Database

open Library

variable {Call : Type} {db db' : Database Call} {x y : Message Call} {e : SqlOutcome}
  {bump : Int → Int}

/-! ## The invariant -/

/-- An open batch only added rows to the state at its `BEGIN`. -/
def Ok (db : Database Call) : Prop :=
  db.inTx = true → db.saved.rows <+: db.messages.rows

/-- The generation counter is the number of the batches resolved so far: it has not
overflowed. -/
def Counted (db : Database Call) : Prop := db.txGen = db.batches.length

instance : Decidable db.Counted := inferInstanceAs (Decidable (_ = _))

/-- No row of the call that inserts `x` is visible. -/
def Fresh (x : Message Call) (db : Database Call) : Prop :=
  ∀ row ∈ db.messages.rows, row.2.origin ≠ x.origin

/-- What a call that inserts `x` knows in each of its states.  With `strict` it also
knows that no row of it is left behind where it fails. -/
def Holds (strict : Prop) (x : Message Call) : CallState → Database Call → Prop
  | .start, db | .enter _, db => strict → db.Fresh x
  | .joined id myGen _, db =>
      0 < id ∧ ∃ batch : Nat, myGen = batch ∧
        ((batch = db.batches.length ∧ db.inTx = true ∧ (id, x) ∈ db.messages.rows ∧
            (strict → ∀ row ∈ db.saved.rows, row.2.origin ≠ x.origin)) ∨
          (db.batches[batch]? = some true ∧ (id, x) ∈ db.stored.rows) ∨
          (db.batches[batch]? = some false ∧ (strict → db.Fresh x)))
  | .window id _, db =>
      0 < id ∧ db.inTx = true ∧ db.messages.rows[db.saved.rows.length]? = some (id, x) ∧
        (strict → ∀ row ∈ db.saved.rows, row.2.origin ≠ x.origin)
  | .leave id, db =>
      (0 < id ∧ (id, x) ∈ db.stored.rows) ∨ (id = -1 ∧ (strict → db.Fresh x))

/-- The state in which a section leaves its call; one that has returned stays at its
result. -/
def Progress.state : Progress → CallState
  | .goes state => state
  | .returns id => .leave id

/-- The batch of a joiner that finds a new generation ended as the last batch did. -/
def truthful (db : Database Call) : CallState → Bool
  | .joined _ myGen _ => db.txGen = myGen || db.batches[myGen.toNat]? = some db.txOk
  | _ => true

/-- A joiner that finds a new generation and a last batch that was committed was in a batch
that was committed. -/
def trusted (db : Database Call) : CallState → Bool
  | .joined _ myGen _ => db.txGen = myGen || !db.txOk || db.batches[myGen.toNat]? = some true
  | _ => true

theorem trusted_of_truthful {state : CallState} (truth : db.truthful state = true) :
    db.trusted state = true := by
  cases state with
  | joined id myGen since =>
      unfold truthful at truth
      unfold trusted
      cases ok : db.txOk <;> simp_all
  | _ => rfl

/-! ## The statements of a section -/

theorem stored_of_inTx (inside : db.inTx = true) : db.stored = db.saved := if_pos inside

theorem stored_of_not_inTx (outside : db.inTx = false) : db.stored = db.messages := by
  simp [stored, outside]

/-- `insertMessage` fails without a trace, fails to read the id of its row, or
returns it. -/
theorem insertMessage_cases (db : Database Call) (x : Message Call) (e : SqlOutcome) :
    db.insertMessage x e = (-1, db) ∨
    (e.lastId = false ∧
      db.insertMessage x e = (-1, { db with messages := db.messages.insert x })) ∨
    db.insertMessage x e =
      (db.messages.seq + 1, { db with messages := db.messages.insert x }) := by
  unfold insertMessage
  by_cases runs : e.prepares = true ∧ e.steps = true
  · cases answer : e.lastId <;> simp [runs]
  · simp [runs]

/-- The four ways in. -/
theorem enterBatch_cases (db : Database Call) (e : SqlOutcome) :
    (db.inTx = true ∧ db.enterBatchLocked e = (.full, db)) ∨
    (db.inTx = true ∧ db.enterBatchLocked e = (.joiner db.txGen,
      { db with txPending := db.txPending + 1, wakes := db.wakes + 1 })) ∨
    (db.inTx = false ∧ db.enterBatchLocked e = (.starter db.txGen,
      { db with inTx := true, txPending := 1, saved := db.messages })) ∨
    (db.inTx = false ∧ db.enterBatchLocked e = (.alone, db)) := by
  unfold enterBatchLocked
  split
  next inside => split <;> simp [inside]
  next outside =>
    have outside : db.inTx = false := by simpa using outside
    split <;> simp [outside]

theorem stored_insert (db : Database Call) (x : Message Call) :
    db.stored.rows <+: ({ db with messages := db.messages.insert x } : Database Call).stored.rows := by
  cases inside : db.inTx <;> simp [stored, inside]

theorem stored_resolve (bump : Int → Int) (e : SqlOutcome) (ok : db.Ok) (commit : Bool) :
    db.stored.rows <+: (db.resolveTxLocked bump commit e).stored.rows := by
  cases inside : db.inTx
  · simp [resolveTxLocked, inside]
  · have extends' := ok inside
    simp only [resolveTxLocked, inside, stored]
    cases committed : commit && e.commits <;> simp [extends']

theorem ok_insert (ok : db.Ok) (x : Message Call) :
    ({ db with messages := db.messages.insert x } : Database Call).Ok := fun inside =>
  (ok inside).trans (List.prefix_append ..)

theorem inTx_resolve (db : Database Call) (commit : Bool) :
    (db.resolveTxLocked bump commit e).inTx = false := by
  cases outside : db.inTx <;> simp [resolveTxLocked, outside]

theorem ok_resolve (db : Database Call) (commit : Bool) :
    (db.resolveTxLocked bump commit e).Ok := by
  intro inside
  simp [inTx_resolve] at inside

/-- The outcome of an open batch when it is resolved, and the tables it leaves. -/
theorem resolve_open (bump : Int → Int) (e : SqlOutcome) (inside : db.inTx = true)
    (commit : Bool) :
    ∃ committed, (db.resolveTxLocked bump commit e).txOk = committed ∧
      (commit = false → committed = false) ∧
      (db.resolveTxLocked bump commit e).batches = db.batches ++ [committed] ∧
      (db.resolveTxLocked bump commit e).stored = (if committed then db.messages else db.saved) ∧
      (db.resolveTxLocked bump commit e).messages =
        (if committed then db.messages else db.saved) := by
  refine ⟨commit && e.commits, ?_⟩
  simp +contextual [resolveTxLocked, inside, stored]

theorem Fresh.of_resolve (ok : db.Ok) (fresh : db.Fresh x) (commit : Bool) :
    (db.resolveTxLocked bump commit e).Fresh x := by
  cases inside : db.inTx
  · simpa [resolveTxLocked, inside] using fresh
  · obtain ⟨committed, -, -, -, -, messages⟩ := resolve_open bump e inside commit
    intro row membership
    rw [messages] at membership
    cases committed
    · exact fresh row ((ok inside).subset membership)
    · exact fresh row membership

theorem Fresh.insert (fresh : db.Fresh x) (other : y.origin ≠ x.origin) :
    ({ db with messages := db.messages.insert y } : Database Call).Fresh x := by
  intro row membership
  rcases Table.mem_rows_insert.mp membership with old | rfl
  · exact fresh row old
  · exact other

/-! ## The other calls -/

variable {strict : Prop} {state state' : CallState}

/-- What a call knows is about these four parts only. -/
theorem Holds.congr (holds : Holds strict x state db) (messages : db'.messages = db.messages)
    (saved : db'.saved = db.saved) (inTx : db'.inTx = db.inTx)
    (batches : db'.batches = db.batches) : Holds strict x state db' := by
  cases state <;> simpa [Holds, Fresh, stored, messages, saved, inTx, batches] using holds

/-- Inserting another call's row keeps what a waiting call knows. -/
theorem Holds.insert (holds : Holds strict x state db)
    (other : y.origin ≠ x.origin) :
    Holds strict x state { db with messages := db.messages.insert y } := by
  have more := stored_insert db y
  have visible : ∀ row ∈ db.messages.rows, row ∈ (db.messages.insert y).rows :=
    fun row membership => Table.mem_rows_insert.mpr (.inl membership)
  cases state with
  | start => exact fun strictly => (holds strictly).insert other
  | enter since => exact fun strictly => (holds strictly).insert other
  | joined id myGen since =>
      obtain ⟨positive, batch, gen, pending | won | lost⟩ := holds
      · obtain ⟨current, inside, there, saved⟩ := pending
        exact ⟨positive, batch, gen, .inl ⟨current, inside, visible _ there, saved⟩⟩
      · exact ⟨positive, batch, gen, .inr (.inl ⟨won.1, more.subset won.2⟩)⟩
      · exact ⟨positive, batch, gen,
          .inr (.inr ⟨lost.1, fun strictly => (lost.2 strictly).insert other⟩)⟩
  | window id myGen =>
      obtain ⟨positive, inside, first, saved⟩ := holds
      refine ⟨positive, inside, ?_, saved⟩
      simp only [Table.rows_insert]
      rw [List.getElem?_append_left (List.getElem?_eq_some_iff.mp first).1]
      exact first
  | leave id =>
      rcases holds with won | lost
      · exact .inl ⟨won.1, more.subset won.2⟩
      · exact .inr ⟨lost.1, fun strictly => (lost.2 strictly).insert other⟩

/-- Resolving a batch keeps what a call knows, unless the call is its starter. -/
theorem Holds.resolve (ok : db.Ok) (holds : Holds strict x state db)
    (notStarter : ∀ id myGen, state ≠ .window id myGen) (commit : Bool) :
    Holds strict x state (db.resolveTxLocked bump commit e) := by
  have more := stored_resolve bump e ok commit
  cases state with
  | start => exact fun strictly => (holds strictly).of_resolve ok commit
  | enter since => exact fun strictly => (holds strictly).of_resolve ok commit
  | joined id myGen since =>
      obtain ⟨positive, batch, gen, known⟩ := holds
      refine ⟨positive, batch, gen, .inr ?_⟩
      rcases known with ⟨current, inside, there, saved⟩ | won | lost
      · obtain ⟨committed, -, -, batches, stored, messages⟩ :=
          resolve_open bump e inside commit
        rw [batches, stored, current]
        cases committed
        · refine .inr ⟨by simp, fun strictly row membership => ?_⟩
          rw [messages] at membership
          exact saved strictly row membership
        · exact .inl ⟨by simp, there⟩
      · refine .inl ⟨?_, more.subset won.2⟩
        cases inside : db.inTx
        · simpa [resolveTxLocked, inside] using won.1
        · simp only [resolveTxLocked, inside]
          exact List.getElem?_append_left (List.getElem?_eq_some_iff.mp won.1).1 ▸ won.1
      · refine .inr ⟨?_, fun strictly => (lost.2 strictly).of_resolve ok commit⟩
        cases inside : db.inTx
        · simpa [resolveTxLocked, inside] using lost.1
        · simp only [resolveTxLocked, inside]
          exact List.getElem?_append_left (List.getElem?_eq_some_iff.mp lost.1).1 ▸ lost.1
  | window id myGen => exact absurd rfl (notStarter id myGen)
  | leave id =>
      rcases holds with won | lost
      · exact .inl ⟨won.1, more.subset won.2⟩
      · exact .inr ⟨lost.1, fun strictly => (lost.2 strictly).of_resolve ok commit⟩

/-- Opening a batch keeps what a waiting call knows. -/
theorem Holds.opened (holds : Holds strict x state db) (outside : db.inTx = false) (n : Nat) :
    Holds strict x state { db with inTx := true, txPending := n, saved := db.messages } := by
  cases state with
  | start => exact holds
  | enter since => exact holds
  | joined id myGen since =>
      obtain ⟨positive, batch, gen, pending | won | lost⟩ := holds
      · exact absurd pending.2.1 (by simp [outside])
      · rw [stored_of_not_inTx outside] at won
        exact ⟨positive, batch, gen, .inr (.inl won)⟩
      · exact ⟨positive, batch, gen, .inr (.inr lost)⟩
  | window id myGen => exact absurd holds.2.1 (by simp [outside])
  | leave id =>
      rw [Holds, stored_of_not_inTx outside] at holds
      exact holds

theorem ok_opened (db : Database Call) (n : Nat) :
    ({ db with inTx := true, txPending := n, saved := db.messages } : Database Call).Ok :=
  fun _ => List.prefix_refl _

theorem stored_enterBatch (db : Database Call) :
    (db.enterBatchLocked e).2.stored = db.stored := by
  rcases enterBatch_cases db e with ⟨-, step⟩ | ⟨-, step⟩ | ⟨outside, step⟩ | ⟨-, step⟩ <;>
    rw [step]
  · rfl
  · simp [stored, outside]

theorem ok_enterBatch (ok : db.Ok) : (db.enterBatchLocked e).2.Ok := by
  rcases enterBatch_cases db e with ⟨-, step⟩ | ⟨-, step⟩ | ⟨-, step⟩ | ⟨-, step⟩ <;> rw [step]
  · exact ok
  · exact ok
  · exact ok_opened db 1
  · exact ok

/-- The first row of an open batch is its starter's: two starters are the same call. -/
theorem Holds.window_unique {strict' : Prop} {id id' myGen myGen' : Int}
    (holds : Holds strict x (.window id myGen) db)
    (holds' : Holds strict' y (.window id' myGen') db) : x = y := by
  have first := holds.2.2.1
  rw [holds'.2.2.1] at first
  exact (Prod.ext_iff.mp (Option.some.inj first)).2.symm

/-! ## One critical section -/

/-- The section of a call that got in inserts its row or not, and only a starter may
resolve the batch then. -/
theorem insertEntered_cases (bump : Int → Int) (e : SqlOutcome) (db : Database Call)
    (y : Message Call) (entered : Entered) :
    ∃ d, (d = db ∨ d = { db with messages := db.messages.insert y }) ∧
      ((db.insertEntered bump y e entered).1 = d ∨
        (∃ myGen, entered = .starter myGen) ∧
          ∃ commit, (db.insertEntered bump y e entered).1 = d.resolveTxLocked bump commit e) := by
  cases entered with
  | full => exact ⟨db, .inl rfl, .inl rfl⟩
  | alone =>
      rcases insertMessage_cases db y e with step | ⟨-, step⟩ | step <;>
        simp [Database.insertEntered, step]
  | joiner myGen =>
      rcases insertMessage_cases db y e with step | ⟨-, step⟩ | step
      · exact ⟨db, .inl rfl, .inl (by simp [Database.insertEntered, step])⟩
      · exact ⟨_, .inr rfl, .inl (by simp [Database.insertEntered, step])⟩
      · refine ⟨_, .inr rfl, .inl ?_⟩
        simp only [Database.insertEntered, step]
        split <;> [skip; split] <;> rfl
  | starter myGen =>
      rcases insertMessage_cases db y e with step | ⟨-, step⟩ | step
      · exact ⟨db, .inl rfl, .inr ⟨⟨myGen, rfl⟩, false, by simp [Database.insertEntered, step]⟩⟩
      · exact ⟨_, .inr rfl,
          .inr ⟨⟨myGen, rfl⟩, false, by simp [Database.insertEntered, step]⟩⟩
      · refine ⟨_, .inr rfl, ?_⟩
        simp only [Database.insertEntered, step]
        split
        · exact .inr ⟨⟨myGen, rfl⟩, false, rfl⟩
        · split
          · exact .inl rfl
          · split
            · exact .inl rfl
            · exact .inr ⟨⟨myGen, rfl⟩, true, rfl⟩

/-- A call at the door runs its insert in one section with the door. -/
theorem enter_of_advance {since : Option Nat} {p : Progress}
    (ran : db.advance bump x e (.enter since) = some (db', p)) :
    db' = ((db.enterBatchLocked e).2.insertEntered bump x e (db.enterBatchLocked e).1).1 ∧
      p = .goes ((db.enterBatchLocked e).2.insertEntered bump x e (db.enterBatchLocked e).1).2 := by
  simp only [advance] at ran
  split at ran
  · cases ran
  · obtain ⟨rfl, rfl⟩ : _ = db' ∧ _ = p := by simpa using ran
    exact ⟨rfl, rfl⟩

/-- The door may open a batch, the row goes in or not, and only a starter may resolve the
batch then. -/
theorem entered_of_advance {since : Option Nat} {p : Progress}
    (ran : db.advance bump x e (.enter since) = some (db', p)) :
    ∃ d, (d = (db.enterBatchLocked e).2 ∨
        d = { (db.enterBatchLocked e).2 with
          messages := (db.enterBatchLocked e).2.messages.insert x }) ∧
      (db' = d ∨ (∃ myGen, (db.enterBatchLocked e).1 = .starter myGen) ∧
        ∃ commit, db' = d.resolveTxLocked bump commit e) := by
  rw [(enter_of_advance ran).1]
  exact insertEntered_cases bump e (db.enterBatchLocked e).2 x (db.enterBatchLocked e).1

/-- A woken call sleeps on, or leaves with the result of its batch. -/
theorem joined_of_advance {id myGen : Int} {since : Nat} {p : Progress}
    (ran : db.advance bump x e (.joined id myGen since) = some (db', p)) :
    db' = db ∧ (db.txGen = myGen ∧ p = .goes (.joined id myGen db.wakes) ∨
      db.txGen ≠ myGen ∧ p = .goes (.leave (db.outcome id))) := by
  simp only [advance] at ran
  split at ran
  · cases ran
  · split at ran
    next same =>
      obtain ⟨rfl, rfl⟩ : db = db' ∧ _ = p := by simpa using ran
      exact ⟨rfl, .inl ⟨same, rfl⟩⟩
    next moved =>
      obtain ⟨rfl, rfl⟩ : db = db' ∧ _ = p := by simpa using ran
      exact ⟨rfl, .inr ⟨moved, rfl⟩⟩

/-- A section of a call changes no other table. -/
theorem tables_advance {p : Progress} (ran : db.advance bump x e state = some (db', p)) :
    db'.users = db.users ∧ db'.rooms = db.rooms ∧ db'.offline = db.offline := by
  have resolved (d : Database Call) (commit : Bool) :
      (d.resolveTxLocked bump commit e).users = d.users ∧
        (d.resolveTxLocked bump commit e).rooms = d.rooms ∧
        (d.resolveTxLocked bump commit e).offline = d.offline := by
    unfold resolveTxLocked
    split <;> exact ⟨rfl, rfl, rfl⟩
  cases state with
  | start | leave id =>
      obtain ⟨rfl, -⟩ : _ = db' ∧ _ := by simpa [advance] using ran
      exact ⟨rfl, rfl, rfl⟩
  | enter since =>
      obtain ⟨d, inserts, result⟩ := entered_of_advance ran
      have entered : d.users = db.users ∧ d.rooms = db.rooms ∧ d.offline = db.offline := by
        rcases enterBatch_cases db e with ⟨-, step⟩ | ⟨-, step⟩ | ⟨-, step⟩ | ⟨-, step⟩ <;>
          rw [step] at inserts <;> rcases inserts with rfl | rfl <;> exact ⟨rfl, rfl, rfl⟩
      rcases result with rfl | ⟨-, commit, rfl⟩
      · exact entered
      · obtain ⟨users, rooms, offline⟩ := resolved d commit
        exact ⟨users.trans entered.1, rooms.trans entered.2.1, offline.trans entered.2.2⟩
  | joined id myGen since =>
      obtain ⟨rfl, -⟩ := joined_of_advance ran
      exact ⟨rfl, rfl, rfl⟩
  | window id myGen =>
      obtain ⟨rfl, -⟩ : _ = db' ∧ _ := by simpa [advance] using ran
      exact resolved db true

theorem messages_resolve (db : Database Call) (commit : Bool) :
    (db.resolveTxLocked bump commit e).saved = db.saved ∧
      ((db.resolveTxLocked bump commit e).messages = db.messages ∨
        (db.resolveTxLocked bump commit e).messages = db.saved) := by
  unfold resolveTxLocked
  split
  · exact ⟨rfl, .inl rfl⟩
  · dsimp only
    split
    · exact ⟨rfl, .inl rfl⟩
    · exact ⟨rfl, .inr rfl⟩

/-- The call has not run its `INSERT`. -/
def CallState.outside : CallState → Bool
  | .start | .enter _ => true
  | _ => false

/-- A call that is not sent back to the door has run its `INSERT`. -/
theorem outside_insertEntered {entered : Entered} (db : Database Call) (within : entered ≠ .full) :
    (db.insertEntered bump x e entered).2.outside = false := by
  cases entered with
  | full => exact absurd rfl within
  | alone => rfl
  | joiner myGen | starter myGen =>
      simp only [insertEntered]
      repeat' split
      all_goals rfl

/-- A call that still has not run its `INSERT` is at the door. -/
theorem outside_advance (ran : db.advance bump x e state = some (db', .goes state'))
    (out : state'.outside = true) : state.outside = true ∧ ∃ since, state' = .enter since := by
  cases state with
  | start =>
      obtain ⟨-, rfl⟩ : _ ∧ CallState.enter none = state' := by simpa [advance] using ran
      exact ⟨rfl, none, rfl⟩
  | enter since =>
      refine ⟨rfl, ?_⟩
      obtain ⟨-, result⟩ := enter_of_advance ran
      obtain rfl := Progress.goes.inj result
      by_cases full : (db.enterBatchLocked e).1 = .full
      · rw [full]
        exact ⟨_, rfl⟩
      · rw [outside_insertEntered _ full] at out
        cases out
  | joined id myGen since =>
      obtain ⟨-, ⟨-, next⟩ | ⟨-, next⟩⟩ := joined_of_advance ran
      · obtain rfl := Progress.goes.inj next
        cases out
      · obtain rfl := Progress.goes.inj next
        cases out
  | window id myGen =>
      obtain ⟨-, rfl⟩ : _ ∧ _ = state' := by simpa [advance] using ran
      cases out
  | leave id => simp [advance] at ran

/-- A section goes back to the saved table, or adds the row of its call, which leaves the
door with that. -/
theorem messages_advance {p : Progress} (ran : db.advance bump x e state = some (db', p)) :
    (db'.saved = db.saved ∨ db'.saved = db.messages) ∧
      (db'.messages = db.messages ∨ db'.messages = db.saved ∨
        (db'.messages = db.messages.insert x ∧ (∃ since, state = .enter since) ∧
          ∃ state', p = .goes state' ∧ state'.outside = false)) := by
  cases state with
  | start | leave id =>
      obtain ⟨rfl, -⟩ : _ = db' ∧ _ := by simpa [advance] using ran
      exact ⟨.inl rfl, .inl rfl⟩
  | enter since =>
      obtain ⟨rfl, rfl⟩ := enter_of_advance ran
      have entered : (db.enterBatchLocked e).2.messages = db.messages ∧
          ((db.enterBatchLocked e).2.saved = db.saved ∨
            (db.enterBatchLocked e).2.saved = db.messages) := by
        rcases enterBatch_cases db e with ⟨-, step⟩ | ⟨-, step⟩ | ⟨-, step⟩ | ⟨-, step⟩ <;>
          simp [step]
      by_cases full : (db.enterBatchLocked e).1 = .full
      · rw [full]
        exact ⟨entered.2, .inl entered.1⟩
      · have leaves : ((db.enterBatchLocked e).2.insertEntered bump x e
            (db.enterBatchLocked e).1).2.outside = false := outside_insertEntered _ full
        obtain ⟨d, inserts, result⟩ := insertEntered_cases bump e
          (db.enterBatchLocked e).2 x (db.enterBatchLocked e).1
        have inserted : (d.saved = db.saved ∨ d.saved = db.messages) ∧
            (d.messages = db.messages ∨ d.messages = db.messages.insert x) := by
          rcases inserts with rfl | rfl
          · exact ⟨entered.2, .inl entered.1⟩
          · exact ⟨entered.2, .inr (congrArg (Table.insert · x) entered.1)⟩
        have tables : ∀ table, table = d.messages ∨ table = d.saved →
            table = db.messages ∨ table = db.saved ∨ table = db.messages.insert x := by
          rintro table (rfl | rfl)
          · exact inserted.2.imp_right .inr
          · exact inserted.1.symm.imp_right .inl
        rcases result with same | ⟨-, commit, committed⟩
        · rw [same]
          exact ⟨inserted.1, (tables d.messages (.inl rfl)).imp_right
            (Or.imp_right fun grown => ⟨grown, ⟨since, rfl⟩, _, rfl, leaves⟩)⟩
        · obtain ⟨saved, messages⟩ := messages_resolve d commit
          rw [committed]
          exact ⟨saved ▸ inserted.1, (tables _ messages).imp_right
            (Or.imp_right fun grown => ⟨grown, ⟨since, rfl⟩, _, rfl, leaves⟩)⟩
  | joined id myGen since =>
      obtain ⟨rfl, -⟩ := joined_of_advance ran
      exact ⟨.inl rfl, .inl rfl⟩
  | window id myGen =>
      obtain ⟨rfl, -⟩ : _ = db' ∧ _ := by simpa [advance] using ran
      obtain ⟨saved, messages⟩ := messages_resolve db true
      exact ⟨.inl saved, messages.imp_right .inl⟩

/-- The saved table holds no row that is not visible. -/
def Within (db : Database Call) : Prop := ∀ row ∈ db.saved.rows, row ∈ db.messages.rows

theorem within_resolve (within : db.Within) (commit : Bool) :
    (db.resolveTxLocked bump commit e).Within ∧
      ∀ row ∈ (db.resolveTxLocked bump commit e).messages.rows, row ∈ db.messages.rows := by
  obtain ⟨saved, messages⟩ := messages_resolve db commit
  rw [Within, saved]
  rcases messages with same | back
  · rw [same]
    exact ⟨within, fun _ there => there⟩
  · rw [back]
    exact ⟨fun _ there => there, within⟩

/-- A row that becomes visible in a section is that of its call, which stands at the door. -/
theorem within_advance {p : Progress} (within : db.Within)
    (ran : db.advance bump x e state = some (db', p)) :
    db'.Within ∧ ∀ row ∈ db'.messages.rows, row ∈ db.messages.rows ∨
      (row.2 = x ∧ ∃ since, state = .enter since) := by
  cases state with
  | start | leave id =>
      obtain ⟨rfl, -⟩ : _ = db' ∧ _ := by simpa [advance] using ran
      exact ⟨within, fun _ there => .inl there⟩
  | enter since =>
      have entered : (db.enterBatchLocked e).2.Within ∧
          (db.enterBatchLocked e).2.messages = db.messages := by
        rcases enterBatch_cases db e with ⟨-, step⟩ | ⟨-, step⟩ | ⟨-, step⟩ | ⟨-, step⟩ <;>
          rw [step]
        · exact ⟨within, rfl⟩
        · exact ⟨within, rfl⟩
        · exact ⟨fun _ there => there, rfl⟩
        · exact ⟨within, rfl⟩
      obtain ⟨d, inserts, result⟩ := entered_of_advance ran
      have inserted : d.Within ∧ ∀ row ∈ d.messages.rows, row ∈ db.messages.rows ∨
          (row.2 = x ∧ ∃ since', CallState.enter since = .enter since') := by
        rcases inserts with rfl | rfl
        · rw [entered.2]
          exact ⟨entered.1, fun _ there => .inl there⟩
        · refine ⟨?_, ?_⟩
          · intro row there
            exact Table.mem_rows_insert.mpr (.inl (entered.1 row there))
          · intro row there
            rcases Table.mem_rows_insert.mp there with old | rfl
            · rw [entered.2] at old
              exact .inl old
            · exact .inr ⟨rfl, since, rfl⟩
      rcases result with rfl | ⟨-, commit, rfl⟩
      · exact inserted
      · obtain ⟨kept, fewer⟩ := within_resolve inserted.1 commit
        exact ⟨kept, fun row there => inserted.2 row (fewer row there)⟩
  | joined id myGen since =>
      obtain ⟨rfl, -⟩ := joined_of_advance ran
      exact ⟨within, fun _ there => .inl there⟩
  | window id myGen =>
      obtain ⟨rfl, -⟩ : _ = db' ∧ _ := by simpa [advance] using ran
      obtain ⟨kept, fewer⟩ := within_resolve within true
      exact ⟨kept, fun row there => .inl (fewer row there)⟩

/-- The section of one call keeps what another one knows. -/
theorem Holds.advance_other {strict' : Prop} {p : Progress} (ok : db.Ok)
    (holds : Holds strict x state db) (runs : Holds strict' y state' db)
    (other : y.origin ≠ x.origin) (ran : db.advance bump y e state' = some (db', p)) :
    Holds strict x state db' := by
  cases state' with
  | start =>
      obtain ⟨rfl, -⟩ : _ = db' ∧ _ := by simpa [advance] using ran
      exact holds.congr rfl rfl rfl rfl
  | enter since =>
      obtain ⟨d, inserts, result⟩ := entered_of_advance ran
      have entered : Holds strict x state (db.enterBatchLocked e).2 := by
        rcases enterBatch_cases db e with ⟨-, step⟩ | ⟨-, step⟩ | ⟨outside, step⟩ | ⟨-, step⟩ <;>
          rw [step]
        · exact holds
        · exact holds.congr rfl rfl rfl rfl
        · exact holds.opened outside 1
        · exact holds
      have kept : Holds strict x state d ∧ d.Ok := by
        rcases inserts with rfl | rfl
        · exact ⟨entered, ok_enterBatch ok⟩
        · exact ⟨entered.insert other, ok_insert (ok_enterBatch ok) y⟩
      rcases result with rfl | ⟨⟨myGen, starter⟩, commit, rfl⟩
      · exact kept.1
      · refine kept.1.resolve kept.2 ?_ commit
        rintro id gen rfl
        have inside := holds.2.1
        rcases enterBatch_cases db e with ⟨-, step⟩ | ⟨-, step⟩ | ⟨outside, step⟩ | ⟨-, step⟩
        · simp [step] at starter
        · simp [step] at starter
        · simp [outside] at inside
        · simp [step] at starter
  | joined id myGen since =>
      obtain ⟨rfl, -⟩ := joined_of_advance ran
      exact holds
  | window id myGen =>
      obtain ⟨rfl, -⟩ : _ = db' ∧ _ := by simpa [advance] using ran
      refine holds.resolve ok ?_ true
      rintro id' gen rfl
      exact other (congrArg Message.origin (runs.window_unique holds))
  | leave id =>
      obtain ⟨rfl, -⟩ : _ = db' ∧ _ := by simpa [advance] using ran
      exact holds.congr rfl rfl rfl rfl

/-- A section keeps the invariant and loses no stored row. -/
theorem ok_advance {p : Progress} (ok : db.Ok)
    (ran : db.advance bump x e state = some (db', p)) :
    db'.Ok ∧ db.stored.rows <+: db'.stored.rows := by
  cases state with
  | start | leave id =>
      obtain ⟨rfl, -⟩ : _ = db' ∧ _ := by simpa [advance] using ran
      exact ⟨ok, List.prefix_refl _⟩
  | enter since =>
      obtain ⟨d, inserts, result⟩ := entered_of_advance ran
      have kept : d.Ok ∧ db.stored.rows <+: d.stored.rows := by
        rw [← stored_enterBatch (e := e)]
        rcases inserts with rfl | rfl
        · exact ⟨ok_enterBatch ok, List.prefix_refl _⟩
        · exact ⟨ok_insert (ok_enterBatch ok) x, stored_insert _ x⟩
      rcases result with rfl | ⟨-, commit, rfl⟩
      · exact kept
      · exact ⟨ok_resolve d commit, kept.2.trans (stored_resolve bump e kept.1 commit)⟩
  | joined id myGen since =>
      obtain ⟨rfl, -⟩ := joined_of_advance ran
      exact ⟨ok, List.prefix_refl _⟩
  | window id myGen =>
      obtain ⟨rfl, -⟩ : _ = db' ∧ _ := by simpa [advance] using ran
      exact ⟨ok_resolve db true, stored_resolve bump e ok true⟩

/-- What the starter knows once it has resolved its batch. -/
theorem Holds.outcome_of_resolve {id : Int} (inside : db.inTx = true) (positive : 0 < id)
    (there : (id, x) ∈ db.messages.rows)
    (saved : strict → ∀ row ∈ db.saved.rows, row.2.origin ≠ x.origin) :
    Holds strict x (.leave ((db.resolveTxLocked bump true e).outcome id))
      (db.resolveTxLocked bump true e) := by
  obtain ⟨committed, result, -, -, stored, messages⟩ :=
    resolve_open bump e inside true
  rw [outcome, result]
  cases committed
  · refine .inr ⟨rfl, fun strictly row membership => ?_⟩
    rw [messages] at membership
    exact saved strictly row membership
  · refine .inl ⟨positive, ?_⟩
    rw [stored]
    exact there

/-- A call in the batch, behind its insert. -/
theorem Holds.insertEntered_joiner (ok : db.Ok) (counted : db.Counted) (inside : db.inTx = true)
    (fresh : strict → db.Fresh x) (answers : strict → e.lastId = true) :
    Holds strict x (db.insertEntered bump x e (.joiner db.txGen)).2
      (db.insertEntered bump x e (.joiner db.txGen)).1 := by
  have nonneg := db.messages.nonneg
  rcases insertMessage_cases db x e with step | ⟨silent, step⟩ | step
  · simpa [insertEntered, step] using .inr ⟨rfl, fresh⟩
  · simpa [insertEntered, step] using
      .inr ⟨rfl, fun strictly => absurd (answers strictly) (by simp [silent])⟩
  · have generation : ¬ db.txGen < 0 := by rw [counted]; omega
    have id : ¬ db.messages.seq + 1 < 0 := by omega
    simp only [insertEntered, step, id, generation, if_false]
    refine ⟨by omega, db.batches.length, counted, .inl ⟨rfl, inside, by simp, ?_⟩⟩
    exact fun strictly row membership => fresh strictly row ((ok inside).subset membership)

theorem Holds.insertEntered_starter (counted : db.Counted) (inside : db.inTx = true)
    (opened : db.saved = db.messages) (fresh : strict → db.Fresh x)
    (answers : strict → e.lastId = true) :
    Holds strict x (db.insertEntered bump x e (.starter db.txGen)).2
      (db.insertEntered bump x e (.starter db.txGen)).1 := by
  have nonneg := db.messages.nonneg
  have ok : db.Ok := fun _ => opened ▸ List.prefix_refl _
  have savedFresh : strict → ∀ row ∈ db.saved.rows, row.2.origin ≠ x.origin := by
    rwa [opened]
  rcases insertMessage_cases db x e with step | ⟨silent, step⟩ | step
  · simpa [insertEntered, step] using
      .inr ⟨rfl, fun strictly => (fresh strictly).of_resolve ok false⟩
  · simpa [insertEntered, step] using
      .inr ⟨rfl, fun strictly => absurd (answers strictly) (by simp [silent])⟩
  · have generation : ¬ db.txGen < 0 := by rw [counted]; omega
    have id : ¬ db.messages.seq + 1 < 0 := by omega
    simp only [insertEntered, step, id, generation, if_false]
    split
    · refine ⟨by omega, inside, ?_, savedFresh⟩
      simp [opened]
    · exact outcome_of_resolve inside (by omega) (by simp) savedFresh

/-- Outside a transaction the row is stored with its statement. -/
theorem Holds.insertEntered_alone (outside : db.inTx = false) (fresh : strict → db.Fresh x)
    (answers : strict → e.lastId = true) :
    Holds strict x (db.insertEntered bump x e .alone).2 (db.insertEntered bump x e .alone).1 := by
  have nonneg := db.messages.nonneg
  rcases insertMessage_cases db x e with step | ⟨silent, step⟩ | step
  · simpa [insertEntered, step] using .inr ⟨rfl, fresh⟩
  · simpa [insertEntered, step] using
      .inr ⟨rfl, fun strictly => absurd (answers strictly) (by simp [silent])⟩
  · simp only [insertEntered, step]
    refine .inl ⟨by omega, ?_⟩
    simp [stored, outside]

/-- A counter that is incremented counts the batches. -/
theorem counted_advance {p : Progress} (counted : db.Counted)
    (ran : db.advance (· + 1) x e state = some (db', p)) : db'.Counted := by
  have resolved : ∀ d : Database Call, d.Counted → ∀ commit,
      (d.resolveTxLocked (· + 1) commit e).Counted := by
    intro d counted commit
    unfold Counted at counted ⊢
    cases inside : d.inTx
    · simpa [resolveTxLocked, inside] using counted
    · simp [resolveTxLocked, inside, counted]
  cases state with
  | start | leave id =>
      obtain ⟨rfl, -⟩ : _ = db' ∧ _ := by simpa [advance] using ran
      exact counted
  | enter since =>
      obtain ⟨d, inserts, result⟩ := entered_of_advance ran
      have entered : (db.enterBatchLocked e).2.Counted := by
        rcases enterBatch_cases db e with ⟨-, step⟩ | ⟨-, step⟩ | ⟨-, step⟩ | ⟨-, step⟩ <;>
          rw [step] <;> exact counted
      have kept : d.Counted := by rcases inserts with rfl | rfl <;> exact entered
      rcases result with rfl | ⟨-, commit, rfl⟩
      · exact kept
      · exact resolved d kept commit
  | joined id myGen since =>
      obtain ⟨rfl, -⟩ := joined_of_advance ran
      exact counted
  | window id myGen =>
      obtain ⟨rfl, -⟩ : _ = db' ∧ _ := by simpa [advance] using ran
      exact resolved db counted true

/-- The section of a call leaves the call knowing what its next state says. -/
theorem Holds.advance_own {p : Progress} (ok : db.Ok) (counted : db.Counted)
    (holds : Holds strict x state db) (trust : db.trusted state = true)
    (truth : strict → db.truthful state = true)
    (answers : strict → (∃ since, state = .enter since) → e.lastId = true)
    (ran : db.advance bump x e state = some (db', p)) : Holds strict x p.state db' := by
  cases state with
  | start =>
      obtain ⟨rfl, rfl⟩ : _ = db' ∧ _ = p := by simpa [advance] using ran
      exact holds
  | enter since =>
      obtain ⟨rfl, rfl⟩ := enter_of_advance ran
      have answers := fun strictly => answers strictly ⟨since, rfl⟩
      rcases enterBatch_cases db e with
        ⟨-, step⟩ | ⟨inside, step⟩ | ⟨-, step⟩ | ⟨outside, step⟩ <;> rw [step]
      · exact holds
      · exact insertEntered_joiner ok counted inside holds answers
      · exact insertEntered_starter counted rfl rfl holds answers
      · exact insertEntered_alone outside holds answers
  | joined id myGen since =>
      obtain ⟨rfl, ends⟩ := joined_of_advance ran
      obtain ⟨positive, batch, rfl, known⟩ := holds
      rcases ends with ⟨-, rfl⟩ | ⟨moved, rfl⟩
      · exact ⟨positive, batch, rfl, known⟩
      · rcases known with ⟨current, -⟩ | ⟨won, there⟩ | ⟨lost, fresh⟩
        · exact absurd (counted.trans (by rw [current])) moved
        · cases result : db'.txOk with
          | true =>
              simp only [Progress.state, outcome, result, if_true]
              exact .inl ⟨positive, there⟩
          | false =>
              have silent (strictly : strict) : db'.Fresh x := by
                have last := truth strictly
                simp [truthful, moved, won, result] at last
              simp only [Progress.state, outcome, result]
              exact .inr ⟨rfl, silent⟩
        · have result : db'.txOk = false := by simpa [trusted, moved, lost] using trust
          simp only [Progress.state, outcome, result]
          exact .inr ⟨rfl, fresh⟩
  | window id myGen =>
      obtain ⟨rfl, rfl⟩ : _ = db' ∧ _ = p := by simpa [advance] using ran
      obtain ⟨positive, inside, first, saved⟩ := holds
      exact outcome_of_resolve inside positive (List.mem_of_getElem? first) saved
  | leave id =>
      obtain ⟨rfl, rfl⟩ : _ = db' ∧ _ = p := by simpa [advance] using ran
      exact holds

end OnlineChat.Database
