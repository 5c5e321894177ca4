import OnlineChat.Batches
import OnlineChat.Server.Messages

/-!
# The generation of a batch in a 32-bit counter

A negative generation marks the fallback without a transaction, but `++tx_gen_` also
produces negative generations after 2^31 batches.
-/

namespace OnlineChat.Batches

open Library Database ChatServer

variable {Call File : Type} [DecidableEq Call] {call : Call} {e : SqlOutcome} {o : Outcome}
  {stage : Stage}
  {db : Database Call} {cfg : Config Call Stage (Engine Call × List (Happening Call))}

/-- The batches of a run are told apart from the fallback. -/
structure Survives (cfg : Config Call Stage (Engine Call × List (Happening Call))) : Prop where
  /-- No call that opened or joined a batch gets the early return. -/
  late : ∀ call, .early call ∉ cfg.shared.2
  /-- A call reports success only behind the end of its batch. -/
  success : ∀ past call id later, cfg.shared.2 = past ++ .returned call id :: later →
    0 ≤ id → pending call past = false
  /-- No call returns while the batch that it opened is open. -/
  closed : ∀ past call id later, cfg.shared.2 = past ++ .returned call id :: later →
    openedBy past ≠ some call

/-- A call gets into a batch in this section. -/
def getsIn (db : Database Call) (e : SqlOutcome) : Bool :=
  if db.inTx then db.txPending < kBatchMax else e.opens

/-- The steps in which no call whose `INSERT` succeeds gets into a batch under a negative
generation. -/
def numbered (cfg : Config Call Stage (Engine Call × List (Happening Call))) (call : Call)
    (o : Outcome) : Bool :=
  match cfg.stack call with
  | .batch _ (.enter _) :: _ =>
      0 ≤ cfg.shared.1.txGen || !getsIn cfg.shared.1.toDatabase o.toSqlOutcome ||
        !(o.prepares && o.steps && o.lastId)
  | _ => true

/-! ## Runs without a negative generation -/

omit [DecidableEq Call] in
theorem inserts_of_nonneg {x : Message Call} (positive : ¬ (db.insertMessage x e).1 < 0) :
    (e.prepares && e.steps && e.lastId) = true := by
  unfold insertMessage at positive
  split at positive
  next runs =>
    cases answer : e.lastId
    · simp [answer] at positive
    · simp [runs]
  next => simp at positive

omit [DecidableEq Call] in
/-- The early return comes behind an `INSERT` under a negative generation. -/
theorem of_early_inBatch {x : Message Call} {entered : Entered}
    (early : .early call ∈ inBatch call db x e entered) :
    (e.prepares && e.steps && e.lastId) = true ∧
      ∃ myGen, myGen < 0 ∧ (entered = .joiner myGen ∨ entered = .starter myGen) := by
  cases entered with
  | full | alone => simp [inBatch] at early
  | joiner myGen =>
      simp only [inBatch] at early
      split at early
      next => simp at early
      next positive =>
        split at early
        next negative => exact ⟨inserts_of_nonneg positive, myGen, negative, .inl rfl⟩
        next => simp at early
  | starter myGen =>
      simp only [inBatch] at early
      split at early
      next => simp at early
      next positive =>
        split at early
        next negative => exact ⟨inserts_of_nonneg positive, myGen, negative, .inr rfl⟩
        next => split at early <;> simp at early

omit [DecidableEq Call] in
theorem getsIn_of_entered {myGen : Int}
    (entered : (db.enterBatchLocked e).1 = .joiner myGen ∨
      (db.enterBatchLocked e).1 = .starter myGen) :
    getsIn db e = true ∧ myGen = db.txGen := by
  unfold getsIn
  unfold enterBatchLocked at entered
  split at entered
  next inside =>
    split at entered
    next => simp at entered
    next room =>
      rw [if_pos inside]
      have same : db.txGen = myGen := by simpa using entered
      exact ⟨by simpa using room, same.symm⟩
  next outside =>
    split at entered
    next opens =>
      rw [if_neg outside]
      have same : db.txGen = myGen := by simpa using entered
      exact ⟨opens, same.symm⟩
    next => simp at entered

theorem sober_of_numbered (allowed : numbered cfg call o = true) : sober cfg call o = true := by
  unfold sober
  split
  next stage rest stack =>
    apply decide_eq_true
    intro early
    rw [mem_happenings (by simp)] at early
    cases stage with
    | plain statement since =>
        simp only [inSection] at early
        split at early <;> simp at early
    | batch request state =>
        cases state with
        | start | joined id myGen since => simp [inSection] at early
        | window id myGen =>
            simp only [inSection] at early
            split at early <;> simp at early
        | leave id => simp [inSection] at early
        | enter since =>
            obtain ⟨inserts, myGen, negative, entered⟩ := of_early_inBatch early
            obtain ⟨inside, rfl⟩ := getsIn_of_entered entered
            have inserts : (o.prepares && o.steps && o.lastId) = true := inserts
            have inside : getsIn cfg.shared.1.toDatabase o.toSqlOutcome = true := inside
            simp [numbered, stack, inserts, inside] at allowed
            omega
  next => rfl

theorem survives_of_kept (kept : Kept cfg) : Survives cfg := by
  refine ⟨?_, ?_, ?_⟩
  · intro call early
    obtain ⟨past, later, split⟩ := List.append_of_mem early
    exact kept.lawful past (.early call) later split
  · intro past call id later split
    exact (kept.lawful past (.returned call id) later split).2
  · intro past call id later split opened
    exact (kept.lawful past (.returned call id) later split).1 (holder_of_openedBy opened)

/-- While no generation is negative, the batches are told apart from the fallback. -/
theorem survives_of_run (writer : Call → Writer) (file : Database File)
    (run : (recorded bumpGen).Reaches numbered (start writer file) cfg) : Survives cfg :=
  survives_of_kept (kept_of_run (run.mono fun _ _ _ => sober_of_numbered))

theorem survives_of_run_joined :
    ∃ cfg, (recorded bumpGen).Reaches numbered (start writer₆ ({} : Database (Fin 6))) cfg ∧
      Survives cfg ∧ .returned 1 2 ∈ cfg.shared.2 := by
  obtain ⟨cfg, run, checked⟩ := Program.exists_reaches_of_play (recorded bumpGen) numbered
    (waiting₆ ++ [((1, {}) : Fin 6 × Outcome), (1, {})]) (start writer₆ ({} : Database (Fin 6)))
    (fun cfg => .returned 1 2 ∈ cfg.shared.2) (by decide +kernel)
  exact ⟨cfg, run, survives_of_run writer₆ {} run, of_decide_eq_true checked⟩

/-! ## Few batches -/

/-- The generation after that many batches. -/
def wrapped (n : Nat) : Int := (n + 2 ^ 31) % 2 ^ 32 - 2 ^ 31

theorem bumpGen_wrapped (n : Nat) : bumpGen (wrapped n) = wrapped (n + 1) := by
  simp only [bumpGen, wrapped]
  omega

theorem wrapped_nonneg {n : Nat} (small : n < 2 ^ 31) : 0 ≤ wrapped n := by
  unfold wrapped
  omega

variable {notes events : List (Happening Call)}

/-- How many batches were opened. -/
def openings (notes : List (Happening Call)) : Nat :=
  notes.countP fun
    | .opened _ => true
    | _ => false

/-- How many batches have ended. -/
def endings (notes : List (Happening Call)) : Nat :=
  notes.countP fun
    | .ended => true
    | _ => false

omit [DecidableEq Call] in
@[simp]
theorem openings_append : openings (notes ++ events) = openings notes + openings events :=
  List.countP_append

omit [DecidableEq Call] in
@[simp]
theorem endings_append : endings (notes ++ events) = endings notes + endings events :=
  List.countP_append

/-- The generation counts the batches that have ended; the open one is not among them. -/
structure Numbering (c : Control) (notes : List (Happening Call)) : Prop where
  generation : c.txGen = wrapped (endings notes)
  opened : openings notes = endings notes + c.inTx.toNat

omit [DecidableEq Call] in
theorem Section.numbering {c c' : Control} {new : List Stage}
    (ran : Section bumpGen call c stage events c' new) (numbering : Numbering c notes) :
    Numbering c' (notes ++ events) := by
  obtain ⟨generation, opened⟩ := numbering
  have quiet : Numbering c (notes ++ []) := ⟨by simpa using generation, by simpa using opened⟩
  cases ran with
  | moves moves =>
      cases moves with
      | start | full | alone | sleepsOn | wakesUp | finds => exact quiet
      | joinFails | joinEarly | joins =>
          exact ⟨by simpa [Control.joins, endings] using generation,
            by simpa [Control.joins, endings, openings] using opened⟩
      | openEarly outside | opens outside =>
          refine ⟨by simpa [Control.opens, endings] using generation, ?_⟩
          rw [outside] at opened
          simpa [Control.opens, endings, openings] using opened
      | opensAndEnds outside =>
          refine ⟨by simp [Control.opens, Control.resolves, endings, generation, bumpGen_wrapped], ?_⟩
          rw [outside] at opened
          simpa [Control.opens, Control.resolves, endings, openings] using opened
      | ends inside =>
          refine ⟨by simp [Control.resolves, endings, generation, bumpGen_wrapped], ?_⟩
          rw [inside] at opened
          simpa [Control.resolves, endings, openings] using opened
      | leaves => exact ⟨by simpa [endings] using generation, by simpa [endings, openings] using opened⟩
  | sleeps => exact quiet
  | executes => exact ⟨by simpa [endings] using generation, by simpa [endings, openings] using opened⟩

omit [DecidableEq Call] in
theorem Numbering.aborted {c : Control} (numbering : Numbering c notes) :
    Numbering c (notes ++ [.aborted]) :=
  ⟨by simpa [endings] using numbering.generation,
    by simpa [endings, openings] using numbering.opened⟩

omit [DecidableEq Call] in
/-- The step lemma. -/
theorem Numbering.step {s s' : Engine Call} {new : List Stage}
    (numbering : Numbering s.control notes)
    (ran : (program bumpGen).exec call o stage s = some (s', new)) :
    Numbering s'.control (notes ++ happenings call o stage s) := by
  have sect := (section_of_exec ran).numbering numbering
  rcases happenings_cases call o stage s with same | same <;> rw [same]
  · exact sect
  · rw [← List.append_assoc]
    exact sect.aborted

omit [DecidableEq Call] in
theorem openings_of_starts {s : Engine Call} {request : Request} {since : Option Nat}
    (outside : s.inTx = false) (opens : o.opens = true) :
    1 ≤ openings (happenings call o (.batch request (.enter since)) s) := by
  have entered : (s.enterBatchLocked (s.answer o)).1 = .starter s.txGen := by
    have answer : (s.answer o).opens = true := opens
    simp [enterBatchLocked, outside, answer]
  rw [happenings, openings_append, inSection, entered]
  simp only [inBatch]
  split_ifs <;> simp [openings]

omit [DecidableEq Call] in
/-- Up to 2^31 batches, no call gets into one under a negative generation. -/
theorem numbered_of_few {request : Request} {since : Option Nat} {rest : List Stage}
    (numbering : Numbering cfg.shared.1.control cfg.shared.2)
    (stack : cfg.stack call = .batch request (.enter since) :: rest)
    (few : openings (cfg.shared.2 ++ happenings call o (.batch request (.enter since))
      cfg.shared.1) ≤ 2 ^ 31) : numbered cfg call o = true := by
  rw [openings_append] at few
  have generation : cfg.shared.1.txGen = wrapped (endings cfg.shared.2) := numbering.generation
  have opened : openings cfg.shared.2 = endings cfg.shared.2 + cfg.shared.1.inTx.toNat :=
    numbering.opened
  unfold numbered
  rw [stack]
  dsimp only
  by_cases small : endings cfg.shared.2 < 2 ^ 31
  · simp [generation, wrapped_nonneg small]
  · have out : getsIn cfg.shared.1.toDatabase o.toSqlOutcome = false := by
      unfold getsIn
      cases inside : cfg.shared.1.inTx with
      | true =>
          rw [inside, Bool.toNat_true] at opened
          omega
      | false =>
          cases opens : o.opens with
          | false => simp
          | true =>
              have one : 1 ≤ openings (happenings call o (.batch request (.enter since))
                  cfg.shared.1) := openings_of_starts inside opens
              omega
    simp [out]

/-- In every run of at most 2^31 batches, they are told apart from the fallback. -/
theorem survives_of_few (writer : Call → Writer) (file : Database File)
    (run : (recorded bumpGen).Reaches Program.always (start writer file) cfg)
    (few : openings cfg.shared.2 ≤ 2 ^ 31) : Survives cfg := by
  have all : Numbering cfg.shared.1.control cfg.shared.2 ∧ (openings cfg.shared.2 ≤ 2 ^ 31 →
      (recorded bumpGen).Reaches numbered (start writer file) cfg) := by
    apply run.invariant (motive := fun cfg => Numbering cfg.shared.1.control cfg.shared.2 ∧
      (openings cfg.shared.2 ≤ 2 ^ 31 →
        (recorded bumpGen).Reaches numbered (start writer file) cfg))
    · have first : wrapped 0 = 0 := by decide
      exact ⟨⟨first.symm, rfl⟩, fun _ => .refl⟩
    · rintro cfg call o stage rest w new - ⟨numbering, reached⟩ - stack ran
      obtain ⟨s, notes⟩ := w
      have fired := (recorded bumpGen).fire_eq_some_iff.mpr ⟨_, _, _, _, stack, ran, rfl⟩
      obtain ⟨ran, rfl⟩ := Program.exec_recording.mp ran
      refine ⟨numbering.step ran, ?_⟩
      intro few
      have before : openings cfg.shared.2 ≤ 2 ^ 31 := by
        rw [openings_append] at few
        exact (Nat.le_add_right _ _).trans few
      refine (reached before).tail ⟨call, o, ?_, fired⟩
      cases stage with
      | plain statement since => simp [numbered, stack]
      | batch request state =>
          cases state with
          | enter since => exact numbered_of_few numbering stack few
          | _ => simp [numbered, stack]
  exact survives_of_kept (kept_of_run ((all.2 few).mono fun _ _ _ => sober_of_numbered))

/-! ## A run of 2^31 batches -/

/-- A call per number, each of which inserts a message. -/
def endless (call : Nat) : Writer := .batch (.roomMsg 1 (bytes "u") (bytes "hi") call)

/-- No batch is open and no call is under way, after `n` batches. -/
structure Idle (n : Nat) (cfg : Config Nat Stage (Engine Nat × List (Happening Nat))) : Prop where
  outside : cfg.shared.1.inTx = false
  nobody : cfg.shared.1.writersWaiting = 0
  generation : cfg.shared.1.txGen = wrapped n
  ahead : ∀ call, n ≤ call → cfg.stack call = [(endless call).entry]

theorem idle_start : Idle 0 (start endless ({} : Database Nat)) where
  outside := rfl
  nobody := rfl
  generation := rfl
  ahead _ _ := rfl

/-- The batch of a call that is alone, behind its `INSERT`. -/
def opening (db : Database Call) (x : Message Call) : Database Call :=
  { db with inTx := true, txPending := 1, saved := db.messages, messages := db.messages.insert x }

omit [DecidableEq Call] in
/-- A call that is alone commits its batch at once. -/
theorem advance_alone {x : Message Call} (outside : db.inTx = false)
    (alone : db.writersWaiting = 1) (nonneg : 0 ≤ db.txGen) :
    db.advance bumpGen x {} (.enter none) =
      some ((opening db x).resolveTxLocked bumpGen true {}, .goes (.leave
        (((opening db x).resolveTxLocked bumpGen true {}).outcome (db.messages.seq + 1)))) := by
  have seq := db.messages.nonneg
  have id : ¬ db.messages.seq + 1 < 0 := by omega
  have generation : ¬ db.txGen < 0 := by omega
  simp [advance, enterBatchLocked, insertEntered, insertMessage, opening, outside, alone, id,
    generation, kBatchNeed]

omit [DecidableEq Call] in
/-- Under a negative generation it leaves its batch open and reports success. -/
theorem advance_negative {x : Message Call} (outside : db.inTx = false) (negative : db.txGen < 0) :
    db.advance bumpGen x {} (.enter none) =
      some (opening db x, .goes (.leave (db.messages.seq + 1))) := by
  have seq := db.messages.nonneg
  have id : ¬ db.messages.seq + 1 < 0 := by omega
  simp [advance, enterBatchLocked, insertEntered, insertMessage, opening, outside, id, negative]

omit [DecidableEq Call] in
theorem happenings_negative {request : Request} {s : Engine Call} (outside : s.inTx = false)
    (negative : s.txGen < 0) :
    happenings call {} (.batch request (.enter none)) s = [.opened call, .early call] := by
  have seq := s.messages.nonneg
  have id : ¬ s.messages.seq + 1 < 0 := by omega
  simp [happenings, inSection, inBatch, enterBatchLocked, insertMessage, Engine.answer,
    Engine.aborts, outside, id, negative]

omit [DecidableEq Call] in
theorem answer_of_not_inTx {s : Engine Call} (outside : s.inTx = false) : s.answer {} = {} := by
  simp [Engine.answer, outside]

omit [DecidableEq Call] in
theorem joins_of_not_inTx {s : Engine Call} (outside : s.inTx = false) (stage : Stage) :
    s.joins stage = false := by
  unfold Engine.joins
  split
  · simp [outside]
  · rfl

/-- One section of a call that joins no batch, as a step of the run. -/
theorem step_of_advance {request : Request} {state : CallState} {p : Progress} {db' : Database Call}
    (stack : cfg.stack call = [.batch request state])
    (apart : cfg.shared.1.joins (.batch request state) = false)
    (ran : cfg.shared.1.advance bumpGen (request.message call) (cfg.shared.1.answer {}) state =
      some (db', p)) :
    ∃ cfg', (recorded bumpGen).Step Program.always cfg cfg' ∧ cfg'.shared.1.toDatabase = db' ∧
      cfg'.shared.2 = cfg.shared.2 ++ happenings call {} (.batch request state) cfg.shared.1 ∧
      cfg'.stack call = stages request p ∧
      ∀ call', call' ≠ call → cfg'.stack call' = cfg.stack call' := by
  have fired : (recorded bumpGen).exec call {} (.batch request state) cfg.shared = some
      ((cfg.shared.1.follow db', cfg.shared.2 ++ happenings call {} (.batch request state)
        cfg.shared.1), stages request p) := by
    apply Program.exec_recording.mpr
    refine ⟨?_, rfl⟩
    simp only [program, ran, Option.map_some, Engine.after_of_not_joins apart]
  have taken := (recorded bumpGen).fire_eq_some_iff.mpr ⟨_, _, _, _, stack, fired, rfl⟩
  refine ⟨_, ⟨call, {}, rfl, taken⟩, rfl, rfl, ?_, ?_⟩
  · simp
  · intro call' other
    simp [other]

/-- A call starts, commits its batch and returns. -/
theorem Idle.lap {n : Nat} {cfg : Config Nat Stage (Engine Nat × List (Happening Nat))}
    (idle : Idle n cfg) (small : n < 2 ^ 31) :
    ∃ cfg', (recorded bumpGen).Reaches Program.always cfg cfg' ∧ Idle (n + 1) cfg' := by
  have nonneg : 0 ≤ cfg.shared.1.txGen := idle.generation ▸ wrapped_nonneg small
  obtain ⟨arrived, first, db₁, -, stack₁, others₁⟩ :=
    step_of_advance (idle.ahead n (Nat.le_refl n)) (joins_of_not_inTx idle.outside _) rfl
  have outside : arrived.shared.1.inTx = false := by simp [db₁, idle.outside]
  obtain ⟨committed, second, db₂, -, stack₂, others₂⟩ :=
    step_of_advance stack₁ (joins_of_not_inTx outside _) (by
      rw [answer_of_not_inTx outside]
      exact advance_alone outside (by simp [db₁, idle.nobody]) (by simpa [db₁] using nonneg))
  obtain ⟨returned, third, db₃, -, -, others₃⟩ := step_of_advance stack₂ rfl rfl
  refine ⟨returned, ((Relation.ReflTransGen.single first).tail second).tail third, ?_⟩
  refine ⟨?_, ?_, ?_, ?_⟩
  · rw [db₃, db₂]
    simp [opening, resolveTxLocked]
  · rw [db₃, db₂, db₁]
    simp [opening, resolveTxLocked, idle.nobody]
  · rw [db₃, db₂, db₁]
    simp [opening, resolveTxLocked, idle.generation, bumpGen_wrapped]
  · intro call' ahead
    have other : call' ≠ n := by omega
    rw [others₃ call' other, others₂ call' other, others₁ call' other]
    exact idle.ahead call' (by omega)

theorem exists_idle (n : Nat) (bound : n ≤ 2 ^ 31) :
    ∃ cfg, (recorded bumpGen).Reaches Program.always (start endless ({} : Database Nat)) cfg ∧
      Idle n cfg := by
  induction n with
  | zero => exact ⟨_, .refl, idle_start⟩
  | succ n inductionHypothesis =>
      obtain ⟨cfg, run, idle⟩ := inductionHypothesis (by omega)
      obtain ⟨cfg', lap, idle'⟩ := idle.lap (by omega)
      exact ⟨cfg', run.trans lap, idle'⟩

/-- After 2^31 batches, a call opens a batch and returns at once with success.  The batch
stays open. -/
theorem overflows :
    ∃ cfg, (recorded bumpGen).Reaches Program.always (start endless ({} : Database Nat)) cfg ∧
      ¬ Survives cfg ∧ cfg.shared.1.inTx = true ∧ cfg.stack (2 ^ 31) = [] := by
  obtain ⟨cfg, run, idle⟩ := exists_idle (2 ^ 31) (Nat.le_refl _)
  have negative : cfg.shared.1.txGen < 0 := by
    rw [idle.generation]
    decide
  obtain ⟨arrived, first, db₁, notes₁, stack₁, -⟩ := step_of_advance
    (idle.ahead (2 ^ 31) (Nat.le_refl _)) (joins_of_not_inTx idle.outside _) rfl
  have outside : arrived.shared.1.inTx = false := by simp [db₁, idle.outside]
  have below : arrived.shared.1.txGen < 0 := by simpa [db₁] using negative
  obtain ⟨opened, second, db₂, notes₂, stack₂, -⟩ :=
    step_of_advance stack₁ (joins_of_not_inTx outside _) (by
      rw [answer_of_not_inTx outside]
      exact advance_negative outside below)
  obtain ⟨returned, third, db₃, notes₃, stack₃, -⟩ := step_of_advance stack₂ rfl rfl
  refine ⟨returned, ((run.tail first).tail second).tail third, ?_, ?_, stack₃⟩
  · intro survives
    apply survives.late (2 ^ 31)
    rw [notes₃, notes₂, happenings_negative outside below]
    simp
  · rw [db₃, db₂]
    rfl

end OnlineChat.Batches
