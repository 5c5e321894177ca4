import OnlineChat.GroupCommit

/-!
# Concurrent writers

Any number of calls of `insert_room_msg` and `insert_private_msg` on one database.
A step runs from a mutex acquire to the next release or wait, in any order.  Every
call has a thread of its own; a thread that makes two calls is the special case in
which the second one starts after the first one returned.
-/

namespace OnlineChat

open Library Database

variable {Call File : Type}

/-- The arguments of a call. -/
inductive Request where
  | roomMsg (roomId : Int) (sender content : Bytes) (ts : Int)
  | privateMsg (sender receiver content : Bytes) (ts : Int)

def Request.message (call : Call) : Request → Message Call
  | .roomMsg roomId sender content ts => roomMessage roomId sender content ts (some call)
  | .privateMsg sender receiver content ts => privateMessage sender receiver content ts (some call)

@[simp]
theorem Request.origin_message (call : Call) (r : Request) :
    (r.message call).origin = some call := by
  cases r <;> rfl

/-- The database and the results of the calls that have returned. -/
structure Writers (Call : Type) where
  db : Database Call
  returned : List (Call × Int) := []

namespace Writers

/-- Every thread of the program runs one call; `tx_gen_` is unbounded. -/
def program (request : Call → Request) :
    Program Call SqlOutcome CallState (Writers Call) where
  exec call e state w :=
    (w.db.advance (· + 1) ((request call).message call) e state).map fun
      | (db, .goes state) => ({ w with db }, [state])
      | (db, .returns id) => (⟨db, w.returned ++ [(call, id)]⟩, [])

/-- No call has started on the database of that file. -/
def start (file : Database File) : Config Call CallState (Writers Call) :=
  ⟨⟨file.reopen, []⟩, fun _ => [.start]⟩

/-- A row of that call is on disk. -/
def Stored (call : Call) (db : Database Call) : Prop :=
  ∃ row ∈ db.stored.rows, row.2.origin = some call

/-- The results of the calls tell the truth about their rows. -/
structure Truthful (request : Call → Request) (w : Writers Call) : Prop where
  /-- A positive result is given exactly to the calls whose row is stored. -/
  positive : ∀ call id, (call, id) ∈ w.returned → (0 < id ↔ Stored call w.db)
  /-- The result -1 is given exactly to the others. -/
  negative : ∀ call id, (call, id) ∈ w.returned → (id = -1 ↔ ¬ Stored call w.db)
  /-- A positive result is the key of the call's own row. -/
  own : ∀ call id, (call, id) ∈ w.returned → 0 < id →
    (id, (request call).message call) ∈ w.db.stored.rows
  /-- Two calls do not get one key. -/
  distinct : ∀ call call' id, (call, id) ∈ w.returned → (call', id) ∈ w.returned → 0 < id →
    call = call'

/-- The steps of the calls that meet no defect: a joiner that wakes up finds that its
own batch ended as the last one did, and the key of an inserted row can be read. -/
def honest (c : Config Call CallState (Writers Call)) (call : Call) (e : SqlOutcome) : Bool :=
  match c.stack call with
  | .enter _ :: _ => e.lastId
  | state :: _ => c.shared.db.truthful state
  | [] => true

/-! ## The invariant of a run -/

variable {request : Call → Request}

/-- A stack holds one call and nothing above or below it. -/
def Above (_ _ : CallState) : Prop := False

theorem respects : (program request).Respects Above := by
  intro call e state w w' new ran
  obtain ⟨⟨db, p⟩, -, result⟩ := Option.map_eq_some_iff.mp ran
  refine ⟨?_, fun _ _ _ above => above⟩
  cases p with
  | goes state =>
      obtain ⟨-, rfl⟩ := Prod.mk.inj result
      exact List.pairwise_singleton ..
  | returns id =>
      obtain ⟨-, rfl⟩ := Prod.mk.inj result
      exact .nil

/-- The invariant of the shared state. -/
structure Inv (request : Call → Request) (w : Writers Call) : Prop where
  ok : w.db.Ok
  counted : w.db.Counted
  known : ∀ call id, (call, id) ∈ w.returned →
    Holds True ((request call).message call) (.leave id) w.db

/-- What is known of a call that has not returned. -/
def At (request : Call → Request) (call : Call) (state : CallState) (w : Writers Call) : Prop :=
  (∀ id, (call, id) ∉ w.returned) ∧ Holds True ((request call).message call) state w.db

theorem fresh_reopen (file : Database File) (call : Call) :
    (file.reopen : Database Call).Fresh ((request call).message call) := by
  intro row membership
  obtain ⟨old, -, rfl⟩ := List.mem_map.mp membership
  simp

theorem outlined_start (file : Database File) :
    Outlined Above (Inv request) (At request) (start file) where
  inv := ⟨by simp [start, Ok, reopen], by simp [start, Counted, reopen], by simp [start]⟩
  ordered _ := List.pairwise_singleton ..
  pending call state membership := by
    obtain rfl := List.mem_singleton.mp membership
    exact ⟨by simp [start], fun _ => fresh_reopen file call⟩

/-- The step lemma: what a section of one call leaves behind. -/
theorem exec_own {call : Call} {state : CallState} {e : SqlOutcome} {w w' : Writers Call}
    {new : List CallState} (inv : Inv request w) (holds : At request call state w)
    (truth : w.db.truthful state = true)
    (answers : (∃ since, state = .enter since) → e.lastId = true)
    (ran : (program request).exec call e state w = some (w', new)) :
    Inv request w' ∧ ∀ state' ∈ new, At request call state' w' := by
  obtain ⟨⟨db, p⟩, ran, result⟩ := Option.map_eq_some_iff.mp ran
  have own := holds.2.advance_own inv.ok inv.counted (trusted_of_truthful truth) (fun _ => truth)
    (fun _ => answers) ran
  have kept : ∀ call' id, (call', id) ∈ w.returned →
      Holds True ((request call').message call') (.leave id) db := by
    intro call' id there
    refine (inv.known call' id there).advance_other inv.ok holds.2 ?_ ran
    simp only [Request.origin_message, ne_eq, Option.some.injEq]
    rintro rfl
    exact holds.1 id there
  have next : db.Ok ∧ db.Counted := ⟨(ok_advance inv.ok ran).1, counted_advance inv.counted ran⟩
  cases p with
  | goes state' =>
      obtain ⟨rfl, rfl⟩ := Prod.mk.inj result
      refine ⟨⟨next.1, next.2, kept⟩, fun state'' membership => ?_⟩
      obtain rfl := List.mem_singleton.mp membership
      exact ⟨holds.1, own⟩
  | returns id =>
      obtain ⟨rfl, rfl⟩ := Prod.mk.inj result
      refine ⟨⟨next.1, next.2, fun call' id' membership => ?_⟩, by simp⟩
      rcases List.mem_append.mp membership with old | new
      · exact kept call' id' old
      · obtain ⟨rfl, rfl⟩ : call' = call ∧ id' = id := by simpa using new
        exact own

theorem exec_other {call call' : Call} {state state' : CallState} {e : SqlOutcome}
    {w w' : Writers Call} {new : List CallState} (inv : Inv request w)
    (running : At request call state w) (waiting : At request call' state' w)
    (other : call' ≠ call) (ran : (program request).exec call e state w = some (w', new)) :
    At request call' state' w' := by
  obtain ⟨⟨db, p⟩, ran, result⟩ := Option.map_eq_some_iff.mp ran
  have kept := waiting.2.advance_other inv.ok running.2 (by simpa using other.symm) ran
  cases p with
  | goes state'' =>
      obtain ⟨rfl, -⟩ := Prod.mk.inj result
      exact ⟨waiting.1, kept⟩
  | returns id =>
      obtain ⟨rfl, -⟩ := Prod.mk.inj result
      exact ⟨by simpa [other] using waiting.1, kept⟩

theorem not_stored_of_fresh {call : Call} {db : Database Call} (ok : db.Ok)
    (fresh : db.Fresh ((request call).message call)) : ¬ Stored call db := by
  rintro ⟨row, there, mine⟩
  have visible : row ∈ db.messages.rows := by
    cases inside : db.inTx
    · rwa [stored_of_not_inTx inside] at there
    · rw [stored_of_inTx inside] at there
      exact (ok inside).subset there
  exact fresh row visible (by simpa using mine)

variable [DecidableEq Call] {c : Config Call CallState (Writers Call)} {file : Database File}

theorem outlined_of_run (run : (program request).Reaches honest (start file) c) :
    Outlined Above (Inv request) (At request) c := by
  refine run.outlined respects (outlined_start file) ?_ ?_
  · intro c call e state rest w new _ outlined allowed stack ran
    have holds := outlined.pending call state (by simp [stack])
    refine exec_own outlined.inv holds ?_ ?_ ran
    · cases state <;> simp_all [honest, truthful]
    · rintro ⟨since, rfl⟩
      simpa [honest, stack] using allowed
  · intro c call e state rest w new _ outlined allowed stack ran call' state' _ waits waiting
    have holds := outlined.pending call state (by simp [stack])
    refine exec_other outlined.inv holds waiting ?_ ran
    rcases waits with other | below
    · exact other
    · exact below.2.elim

/-- Group commit tells every writer the truth, in every run of steps that meet no
defect. -/
theorem truthful_of_run (request : Call → Request) (file : Database File)
    (run : (program request).Reaches honest (start file) c) : Truthful request c.shared := by
  have inv := (outlined_of_run run).inv
  have result : ∀ call id, (call, id) ∈ c.shared.returned →
      (0 < id ∧ (id, (request call).message call) ∈ c.shared.db.stored.rows) ∨
        (id = -1 ∧ ¬ Stored call c.shared.db) := by
    intro call id there
    rcases inv.known call id there with won | ⟨failed, fresh⟩
    · exact .inl won
    · exact .inr ⟨failed, not_stored_of_fresh inv.ok (fresh trivial)⟩
  have own : ∀ call id, (call, id) ∈ c.shared.returned → 0 < id →
      (id, (request call).message call) ∈ c.shared.db.stored.rows := by
    intro call id there positive
    rcases result call id there with won | ⟨rfl, -⟩
    · exact won.2
    · exact absurd positive (by decide)
  have stored : ∀ call id, (id, (request call).message call) ∈ c.shared.db.stored.rows →
      Stored call c.shared.db := fun call id there => ⟨_, there, by simp⟩
  refine ⟨?_, ?_, ?_, ?_⟩
  · intro call id there
    rcases result call id there with ⟨positive, row⟩ | ⟨rfl, absent⟩
    · exact ⟨fun _ => stored call id row, fun _ => positive⟩
    · exact ⟨fun positive => absurd positive (by decide), fun there => absurd there absent⟩
  · intro call id there
    rcases result call id there with ⟨positive, row⟩ | ⟨rfl, absent⟩
    · exact ⟨fun negative => by omega, fun absent => absurd (stored call id row) absent⟩
    · exact ⟨fun _ => absent, fun _ => rfl⟩
  · exact own
  · intro call call' id there there' positive
    have same := Table.eq_of_key (own call id there positive) (own call' id there' positive) rfl
    have origins := congrArg (fun row => row.2.origin) same
    simpa using origins

/-! ## Runs on fixed schedules -/

/-- Five users who write into room 1. -/
def request₅ (call : Fin 5) : Request := .roomMsg 1 (bytes "u") (bytes "hi") (1700000000 + call)

def emptyFile : Database (Fin 5) := {}

/-- Writer 0 commits alone in 4 ms, which opens the window for the next batch. -/
def slowCommit : List (Fin 5 × SqlOutcome) :=
  [(0, {}), (0, { commitCost := 4000000 }), (0, {})]

/-- Writers 1 to 4 are at the door, writer 1 starts a batch and writer 2 joins it. -/
def joinBatch : List (Fin 5 × SqlOutcome) :=
  [(1, {}), (2, {}), (3, {}), (4, {}), (1, {}), (2, {})]

/-- The batch commits, its joiner wakes up and both return. -/
def commitBatch : List (Fin 5 × SqlOutcome) := [(1, {}), (2, {}), (1, {}), (2, {})]

/-- The batch fails to commit.  Before its joiner runs again, writers 3 and 4 commit
batches of their own; then the joiner wakes up and returns. -/
def failBatch : List (Fin 5 × SqlOutcome) :=
  [(1, { commits := false }), (3, {}), (4, {}), (3, {}), (4, {}), (2, {}), (2, {})]

theorem truthful_of_run_joined :
    ∃ c, (program request₅).Reaches honest (start emptyFile) c ∧
      Truthful request₅ c.shared ∧ c.shared.returned = [(0, 1), (1, 2), (2, 3)] := by
  obtain ⟨c, run, returned⟩ := Program.exists_reaches_of_play (program request₅) honest
    (slowCommit ++ joinBatch ++ commitBatch) (start emptyFile)
    (fun c => c.shared.returned = [(0, 1), (1, 2), (2, 3)]) (by decide +kernel)
  exact ⟨c, run, truthful_of_run request₅ emptyFile run, by simpa using returned⟩

/-- A joiner reads `tx_ok_` only after two later batches have committed: it returns
the key of writer 4's row although its own was rolled back. -/
theorem joiner_lies :
    ∃ c, (program request₅).Reaches Program.always (start emptyFile) c ∧
      ¬ Truthful request₅ c.shared := by
  obtain ⟨c, run, lied⟩ := Program.exists_reaches_of_play (program request₅) Program.always
    (slowCommit ++ joinBatch ++ failBatch) (start emptyFile)
    (fun c => decide ((2, 3) ∈ c.shared.returned ∧ (4, 3) ∈ c.shared.returned))
    (by decide +kernel)
  obtain ⟨joiner, other⟩ := of_decide_eq_true lied
  exact ⟨c, run, fun truthful => absurd (truthful.distinct 2 4 3 joiner other (by decide)) (by decide)⟩

end Writers

end OnlineChat
