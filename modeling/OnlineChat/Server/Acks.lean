import OnlineChat.Server.Delivery

/-!
# Acknowledgements

When an ACK says that its message is stored.
-/

namespace OnlineChat

open Library ChatServer

variable {st : Startup} {s : ChatServer} {c : ConnId} {e : Ext} {w w' : World} {t t' : Thread}
  {k k' n : Cmd} {rest new : List Cmd} {File : Type} {file : Database File} {b : BootExt}
  {cfg : Config Thread Cmd World} {m : ChatMsg}

/-! ## What an ACK says -/

/-- A row of a message with that user and seq is on disk. -/
def StoredFor (db : Database Origin) (slot : Bytes × Int) : Prop :=
  ∃ id row, (id, row) ∈ db.stored.rows ∧ ∃ c m, ChatMsg.slot m = slot ∧
    ((∃ roomId, row = roomRow c m roomId) ∨ row = privateRow c m)

/-- Each ACK is for a user and a seq of which a row is on disk. -/
def AckedStored (w : World) : Prop :=
  ∀ c user seq, .io (.acked c user seq) ∈ w.trace → StoredFor w.server.db (user, seq)

/-- The slot of a message that has got it and is neither stored nor refused. -/
def Cmd.undecided : Cmd → Option (Bytes × Int)
  | .router (.routeRoom m) | .router (.roomDbId m _) | .db (.findReceiver m)
  | .db (.insertRoomMsg m _ _ _) | .db (.insertPrivateMsg m _) | .io (.refuse m _) => some m.slot
  | _ => none

/-- The batch with the row of a call in that state has been committed. -/
def Database.committed (db : Database Origin) : CallState → Bool
  | .joined _ myGen _ => db.batches[myGen.toNat]? = some true
  | .leave id => 0 < id
  | _ => false

/-- The slot was not given to a message that has been refused, or is still on its way to
the disk. -/
def settled (cfg : Config Thread Cmd World) (t : Thread) (slot : Bytes × Int) : Bool :=
  .io (.refused slot.1 slot.2) ∉ cfg.shared.trace &&
    allOthers cfg t fun v => (cfg.stack (.client v)).all fun k =>
      k.undecided ≠ some slot ||
        (k.call v).any fun call => cfg.shared.server.db.committed call.2.2

/-- The steps that meet no defect: the slot of a message that comes again is settled, and a
call is told the end of its own batch. -/
def acksHonest (cfg : Config Thread Cmd World) (t : Thread) (_ : Ext) : Bool :=
  let s := cfg.shared.server
  match cfg.stack t with
  | .checkAndAdd m :: _ =>
      s.dedup.keeps m.sender m.seq &&
        (!s.dedup.seen m.sender m.seq || settled cfg t m.slot)
  | k :: _ => (k.call t.conn).all fun call => s.db.trusted call.2.2 && s.db.Counted
  | [] => true

/-! ## The calls -/

/-- The message that a command handles between the check of its slot and its last relay. -/
def Cmd.handled : Cmd → Option ChatMsg
  | .checkAndAdd m | .io (.refuse m _) => some m
  | k => k.message

/-- What is known where a message is handled. -/
structure Calling (t : Thread) (k : Cmd) (w : World) : Prop where
  client : ∀ m, k.handled = some m → t.isClient = true
  sender : ∀ m, k.handled = some m → m.sender = w.server.sess.username t.conn
  known : ∀ m row state, k.call t.conn = some (m, row, state) →
    Database.Holds False row state w.server.db

theorem handled_called (called : CalledBy st s c e k n) (handled : n.handled = some m) :
    ((∃ obj, k = .limit (.doMessage obj)) ∧ m.sender = s.sess.username c) ∨
      k.handled = some m := by
  unfold Cmd.handled at handled
  split at handled
  · obtain rfl := Option.some.inj handled
    obtain ⟨obj, rfl, sender⟩ := called
    exact .inl ⟨⟨obj, rfl⟩, sender⟩
  · obtain rfl := Option.some.inj handled
    right
    rcases called with rfl | rfl | rfl | ⟨room, roomId, state, rfl⟩ | ⟨state, rfl⟩ <;> rfl
  · right
    rcases message_called called handled with ⟨rfl, -⟩ | handled'
    · rfl
    · unfold Cmd.handled
      split
      · cases handled'
      · cases handled'
      · exact handled'

theorem facts_of_handled (handled : k.handled = some m) :
    k.layer ≠ .loop ∧ k.enters = false ∧ k.runsOn t = t.isClient := by
  unfold Cmd.handled Cmd.message at handled
  repeat' split at handled
  all_goals first
    | exact ⟨nofun, rfl, rfl⟩
    | cases handled

theorem handled_of_call {row : Message Origin} {state : Database.CallState}
    (call : k.call c = some (m, row, state)) :
    k.message = some m ∧ k.handled = some m ∧ k.undecided = some m.slot ∧
      row.origin = some ⟨c, m.sender, m.seq⟩ ∧
      ((∃ roomId, row = roomRow c m roomId) ∨ row = privateRow c m) := by
  rcases call_cases call with ⟨room, roomId, rfl, rfl⟩ | ⟨rfl, rfl⟩
  · exact ⟨rfl, rfl, rfl, rfl, .inl ⟨roomId, rfl⟩⟩
  · exact ⟨rfl, rfl, rfl, rfl, .inr rfl⟩

/-- A call starts with nothing known. -/
theorem call_called {row : Message Origin} {state : Database.CallState}
    (called : CalledBy st s c e k n) (call : n.call c = some (m, row, state))
    (idle : k.call c = none) : state = .start := by
  rcases call_cases call with ⟨room, roomId, rfl, rfl⟩ | ⟨rfl, rfl⟩
  · rcases called with ⟨-, first⟩ | ⟨state', db, rfl, -⟩
    · exact first
    · cases idle
  · rcases called with ⟨-, first⟩ | ⟨state', db, rfl, -⟩
    · exact first
    · cases idle

theorem calling_own (ok : w.server.db.Ok) (calling : Calling t k w) (here : k.runsOn t = true)
    (honest : ∀ m row state, k.call t.conn = some (m, row, state) →
      w.server.db.trusted state = true ∧ w.server.db.Counted)
    (ran : w.run st t.conn e k = some (w', new)) : ∀ n ∈ new, Calling t n w' := by
  intro n membership
  have called := calledBy_run ran n membership
  refine ⟨?_, ?_, ?_⟩
  · intro m handled
    rcases handled_called called handled with ⟨⟨obj, rfl⟩, -⟩ | handled'
    · exact here
    · exact calling.client m handled'
  · intro m handled
    have names (out : k.enters = false) :
        w'.server.sess.username t.conn = w.server.sess.username t.conn := by
      rcases username_run ran t.conn with same | ⟨-, entered⟩
      · exact same
      · simp [out] at entered
    rcases handled_called called handled with ⟨⟨obj, rfl⟩, sender⟩ | handled'
    · rw [names rfl]
      exact sender
    · rw [names (facts_of_handled (t := t) handled').2.1]
      exact calling.sender m handled'
  · intro m row state call
    rcases call_run ran with ⟨idle, -⟩ | ⟨m', row', state', p, events, call', advanced, -, leaves⟩
    · rw [call_called called call idle]
      exact False.elim
    · obtain ⟨trust, counted⟩ := honest _ _ _ call'
      have known := (calling.known _ _ _ call').advance_own ok counted trust False.elim False.elim
        advanced
      cases leaves with
      | goes n' state'' one next =>
          obtain rfl : n = n' := by simpa [one] using membership
          cases call.symm.trans next
          exact known
      | refuses id reason _ one =>
          obtain rfl : n = .io (.refuse m' reason) := by simpa [one] using membership
          cases call
      | stores id relay _ relays all =>
          have either := all.subset membership
          rcases relays with ⟨room, rfl⟩ | rfl <;> simp at either <;>
            rcases either with rfl | rfl <;> cases call

theorem calling_other (ok : w.server.db.Ok) (running : Calling t k w) (here : k.runsOn t = true)
    (calling : Calling t' k' w) (waits : Waits Above t k rest t' k')
    (ran : w.run st t.conn e k = some (w', new)) : Calling t' k' w' := by
  refine ⟨calling.client, ?_, ?_⟩
  · intro m handled
    rw [calling.sender m handled]
    rcases username_run ran t'.conn with same | ⟨mine, enters⟩
    · exact same.symm
    · -- a login does not run above a message of its own connection
      have client : t.isClient = true := runsOn_of_enters enters ▸ here
      obtain rfl := Thread.eq_of_conn (calling.client m handled) client mine
      rcases waits with other | ⟨-, above⟩
      · exact absurd rfl other
      · obtain ⟨noLoop, -⟩ := facts_of_handled (t := t') handled
        simp [Above, layer_of_enters enters, Layer.above, noLoop] at above
  · intro m row state call
    have known := calling.known m row state call
    rcases call_run ran with ⟨-, users, rooms, offline, db⟩ |
      ⟨m', row', state', p, events, call', advanced, -⟩
    · rw [db]
      exact known.congr rfl rfl rfl rfl
    · refine known.advance_other ok (running.known _ _ _ call') ?_ advanced
      obtain ⟨message, handled, -, origin, -⟩ := handled_of_call call
      obtain ⟨message', handled', -, origin', -⟩ := handled_of_call call'
      rw [origin, origin']
      intro same
      have apart := apart_of_message message' message waits
      exact apart (Thread.eq_of_conn (running.client _ handled') (calling.client _ handled)
        (Origin.mk.inj (Option.some.inj same)).1)

theorem ok_run (ok : w.server.db.Ok) (ran : w.run st c e k = some (w', new)) :
    w'.server.db.Ok ∧ w.server.db.stored.rows <+: w'.server.db.stored.rows := by
  rcases call_run ran with ⟨-, users, rooms, offline, db⟩ |
    ⟨m, row, state, p, events, call, advanced, -⟩
  · rw [db]
    exact ⟨ok, List.prefix_refl _⟩
  · exact Database.ok_advance ok advanced

theorem honest_call {row : Message Origin} {state : Database.CallState}
    (allowed : acksHonest cfg t e = true) (stack : cfg.stack t = k :: rest)
    (call : k.call t.conn = some (m, row, state)) :
    cfg.shared.server.db.trusted state = true ∧ cfg.shared.server.db.Counted := by
  unfold acksHonest at allowed
  rw [stack] at allowed
  rcases call_cases call with ⟨room, roomId, rfl, rfl⟩ | ⟨rfl, rfl⟩
  · simpa [Cmd.call] using allowed
  · simpa [Cmd.call] using allowed

theorem honest_check (allowed : acksHonest cfg t e = true)
    (stack : cfg.stack t = .checkAndAdd m :: rest) :
    cfg.shared.server.dedup.keeps m.sender m.seq = true ∧
      (cfg.shared.server.dedup.seen m.sender m.seq = true → settled cfg t m.slot = true) := by
  unfold acksHonest at allowed
  rw [stack] at allowed
  simp only [Bool.and_eq_true, Bool.or_eq_true, Bool.not_eq_true'] at allowed
  obtain ⟨room, unseen | settled⟩ := allowed
  · exact ⟨room, fun seen => by simp [unseen] at seen⟩
  · exact ⟨room, fun _ => settled⟩

theorem calling_of_run (run : (server st).Reaches acksHonest (start st file b) cfg) :
    Outlined Above (fun w => w.server.db.Ok) Calling cfg := by
  refine run.outlined (respects st) ?_ ?_ ?_
  · refine ⟨?_, ?_, ?_⟩
    · obtain ⟨rooms, db⟩ := db_boot st file b
      simp [start, db, Database.Ok, Database.reopen]
    · intro t
      cases t <;> simp [start]
    · intro t k waiting
      have idle : k.handled = none ∧ k.call t.conn = none := by
        cases t <;> simp_all [start, Cmd.handled, Cmd.message, Cmd.call]
      refine ⟨?_, ?_, ?_⟩
      · simp [idle.1]
      · simp [idle.1]
      · simp [idle.2]
  · intro cfg t e k rest w new _ outlined allowed stack ran
    obtain ⟨here, ran⟩ := exec_eq_some_iff.mp ran
    have calling := outlined.pending t k (by simp [stack])
    refine ⟨(ok_run outlined.inv ran).1, calling_own outlined.inv calling here ?_ ran⟩
    intro m row state call
    exact honest_call allowed stack call
  · intro cfg t e k rest w new _ outlined _ stack ran t' k' _ waits calling'
    obtain ⟨here, ran⟩ := exec_eq_some_iff.mp ran
    have calling := outlined.pending t k (by simp [stack])
    exact calling_other outlined.inv calling here calling' waits ran

/-! ## Where a slot has got to -/

theorem StoredFor.mono {db db' : Database Origin} {slot : Bytes × Int}
    (stored : StoredFor db slot) (grown : db.stored.rows <+: db'.stored.rows) :
    StoredFor db' slot := by
  obtain ⟨id, row, there, message⟩ := stored
  exact ⟨id, row, grown.subset there, message⟩

/-- A call that returns a key has stored the row of its message. -/
theorem storedFor_of_returns {row : Message Origin} {state : Database.CallState}
    {db : Database Origin} {id : Int} (call : k.call c = some (m, row, state))
    (known : Database.Holds False row (.leave id) db) (positive : 0 ≤ id) :
    StoredFor db m.slot := by
  obtain ⟨-, -, -, -, shape⟩ := handled_of_call call
  rcases known with ⟨-, there⟩ | ⟨rfl, -⟩
  · exact ⟨id, row, there, c, m, rfl, shape⟩
  · exact absurd positive (by decide)

theorem stored_of_committed {row : Message Origin} {state : Database.CallState}
    {db : Database Origin} (known : Database.Holds False row state db)
    (committed : db.committed state = true) : ∃ id, (id, row) ∈ db.stored.rows := by
  cases state with
  | joined id myGen since =>
      have committed : db.batches[myGen.toNat]? = some true := by
        simpa [Database.committed] using committed
      obtain ⟨-, batch, rfl, ⟨current, -⟩ | ⟨-, there⟩ | ⟨lost, -⟩⟩ := known
      · simp [current] at committed
      · exact ⟨id, there⟩
      · simp [lost] at committed
  | leave id =>
      have positive : 0 < id := by simpa [Database.committed] using committed
      rcases known with ⟨-, there⟩ | ⟨rfl, -⟩
      · exact ⟨id, there⟩
      · exact absurd positive (by decide)
  | _ => cases committed

/-- A slot that has been given away: its row is on disk, a NACK was sent, or its message is
still on its way. -/
def Accounted (cfg : Config Thread Cmd World) : Prop :=
  ∀ user seq, cfg.shared.server.dedup.seen user seq = true →
    StoredFor cfg.shared.server.db (user, seq) ∨ .io (.refused user seq) ∈ cfg.shared.trace ∨
      ∃ t, ∃ k ∈ cfg.stack t, k.undecided = some (user, seq)

/-- A message that has just got its slot is on its way. -/
theorem undecided_admitted (unseen : s.dedup.seen m.sender m.seq = false) :
    ∃ n ∈ (s.checkAndAdd m).2.2, n.undecided = some m.slot := by
  have admitted : (s.dedup.checkAndAdd m.sender m.seq).1 = true := by
    rw [SeqDeduper.checkAndAdd_fst, unseen]
    rfl
  unfold ChatServer.checkAndAdd
  split
  next result => simp [result] at admitted
  next =>
    dsimp only
    repeat' split
    all_goals exact ⟨_, List.mem_singleton_self _, rfl⟩

/-- A message stays on its way until its row is on disk or a NACK has been sent. -/
theorem undecided_run {user : Bytes} {seq : Int} (ok : w.server.db.Ok) (calling : Calling t k w)
    (honest : ∀ m row state, k.call t.conn = some (m, row, state) →
      w.server.db.trusted state = true ∧ w.server.db.Counted)
    (undecided : k.undecided = some (user, seq)) (ran : w.run st t.conn e k = some (w', new)) :
    StoredFor w'.server.db (user, seq) ∨ .io (.refused user seq) ∈ w'.trace ∨
      ∃ n ∈ new, n.undecided = some (user, seq) := by
  rcases call_run ran with ⟨idle, -⟩ | ⟨m, row, state, p, events, call, advanced, -, leaves⟩
  · unfold Cmd.undecided at undecided
    split at undecided
    · obtain ⟨-, rfl⟩ := Prod.mk.inj (Option.some.inj ran)
      right; right
      simp only [runRouter, routeRoom]
      split <;> exact ⟨_, List.mem_singleton_self _, undecided⟩
    · obtain ⟨-, rfl⟩ := Prod.mk.inj (Option.some.inj ran)
      exact .inr (.inr ⟨_, List.mem_singleton_self _, undecided⟩)
    · obtain ⟨-, rfl⟩ := Prod.mk.inj (Option.some.inj ran)
      right; right
      simp only [findReceiver]
      split <;> exact ⟨_, List.mem_singleton_self _, undecided⟩
    · cases idle
    · cases idle
    · obtain ⟨rfl, -⟩ := Prod.mk.inj (Option.some.inj ran)
      obtain ⟨rfl, rfl⟩ := Prod.mk.inj (Option.some.inj undecided)
      right; left
      simp [sendSection]
    · cases undecided
  · have slot : m.slot = (user, seq) :=
      Option.some.inj ((handled_of_call call).2.2.1.symm.trans undecided)
    obtain ⟨trust, counted⟩ := honest _ _ _ call
    cases leaves with
    | goes n state' one next =>
        rw [← slot]
        exact .inr (.inr ⟨n, by simp [one], (handled_of_call next).2.2.1⟩)
    | refuses id reason _ one =>
        exact .inr (.inr ⟨.io (.refuse m reason), by simp [one], congrArg some slot⟩)
    | stores id relay positive =>
        left
        rw [← slot]
        exact storedFor_of_returns call ((calling.known _ _ _ call).advance_own ok counted trust
          False.elim False.elim advanced) positive

theorem accounted_of_run (run : (server st).Reaches acksHonest (start st file b) cfg) :
    Accounted cfg := by
  refine run.invariant ?_ ?_
  · intro user seq seen
    simp [start, boot, SeqDeduper.seen, SortedMap.contains] at seen
  · intro cfg t e k rest w new reached accounted allowed stack ran user seq seen
    obtain ⟨-, ran⟩ := exec_eq_some_iff.mp ran
    have outlined := calling_of_run reached
    have stays := (ok_run outlined.inv ran).2
    have room (m : ChatMsg) (check : k = .checkAndAdd m) :=
      (honest_check allowed (check ▸ stack)).1
    obtain ⟨events, trace, -⟩ := trace_run ran
    -- what the command leaves stands on top of its stack
    have fresh (n : Cmd) (membership : n ∈ new) (undecided : n.undecided = some (user, seq)) :
        ∃ t', ∃ k' ∈ Function.update cfg.stack t (new ++ rest) t',
          k'.undecided = some (user, seq) :=
      ⟨t, n, by simp [membership], undecided⟩
    cases before : cfg.shared.server.dedup.seen user seq with
    | true =>
        rcases accounted user seq before with stored | refused | ⟨t', k', pending, undecided⟩
        · exact .inl (stored.mono stays)
        · exact .inr (.inl (by simp [trace, refused]))
        · by_cases own : t' = t
          · subst own
            rw [stack] at pending
            rcases List.mem_cons.mp pending with rfl | below
            · rcases undecided_run outlined.inv (outlined.pending t' k' (by simp [stack]))
                (fun m row state => honest_call allowed stack) undecided ran with
                stored | refused | ⟨n, membership, undecided'⟩
              · exact .inl stored
              · exact .inr (.inl refused)
              · exact .inr (.inr (fresh n membership undecided'))
            · exact .inr (.inr ⟨t', k', by simp [below], undecided⟩)
          · exact .inr (.inr ⟨t', k', by simpa [own] using pending, undecided⟩)
    | false =>
        obtain ⟨m, rfl, slot⟩ := ((seen_run room ran user seq).mp seen).resolve_left (by simp [before])
        obtain ⟨rfl, rfl⟩ := Prod.mk.inj slot
        obtain ⟨n, membership, undecided⟩ := undecided_admitted before
        exact .inr (.inr (fresh n ((run_checkAndAdd ran).2 ▸ membership) undecided))

/-! ## An ACK means stored -/

theorem handled_of_undecided {slot : Bytes × Int} (undecided : k.undecided = some slot) :
    ∃ m, k.handled = some m ∧ m.slot = slot := by
  unfold Cmd.undecided at undecided
  split at undecided
  all_goals first
    | exact ⟨_, rfl, Option.some.inj undecided⟩
    | cases undecided

/-- A thread that checks a slot has no other message on its way. -/
theorem decided_of_check (ordered : (Cmd.checkAndAdd m :: rest).Pairwise Above)
    (pending : k ∈ Cmd.checkAndAdd m :: rest) : k.undecided = none := by
  rcases List.mem_cons.mp pending with rfl | below
  · rfl
  · rw [Option.eq_none_iff_forall_ne_some]
    intro slot undecided
    obtain ⟨m', handled, -⟩ := handled_of_undecided undecided
    have above := (List.pairwise_cons.mp ordered).1 k below
    obtain ⟨noLoop, -⟩ := facts_of_handled (t := .monitor) handled
    have handler : (Cmd.checkAndAdd m).layer = .handler := rfl
    simp [Above, handler, Layer.above, noLoop] at above

/-- A slot that is known and settled is that of a row. -/
theorem storedFor_of_settled (run : (server st).Reaches acksHonest (start st file b) cfg)
    (stack : cfg.stack t = .checkAndAdd m :: rest) (settled : settled cfg t m.slot = true)
    (seen : cfg.shared.server.dedup.seen m.sender m.seq = true) :
    StoredFor cfg.shared.server.db m.slot := by
  have outlined := calling_of_run run
  unfold OnlineChat.settled at settled
  simp only [Bool.and_eq_true, decide_eq_true_eq] at settled
  obtain ⟨unrefused, others⟩ := settled
  rcases accounted_of_run run m.sender m.seq seen with stored | refused | ⟨t', k, pending, undecided⟩
  · exact stored
  · exact absurd refused unrefused
  obtain ⟨m', handled, slot⟩ := handled_of_undecided undecided
  have calling := outlined.pending t' k pending
  have client := calling.client m' handled
  have checks := (outlined.pending t _ (stack ▸ List.mem_cons_self)).client m rfl
  have apart : t'.conn ≠ t.conn := by
    intro same
    obtain rfl := Thread.eq_of_conn client checks same
    have decided := decided_of_check (stack ▸ outlined.ordered t') (stack ▸ pending)
    simp [undecided] at decided
  match t', client with
  | .client v, _ =>
      have accepted : v ≤ cfg.shared.server.sess.nextId := by
        rcases started_of_run run v k pending with rfl | ⟨-, accepted⟩
        · cases undecided
        · exact accepted
      have all := of_allOthers others accepted apart
      simp only [List.all_eq_true, Bool.or_eq_true, decide_eq_true_eq] at all
      rcases all k pending with decided | committed
      · exact absurd undecided decided
      · obtain ⟨⟨m'', row, state⟩, call, committed⟩ := (Option.any_eq_true _ _).mp committed
        obtain ⟨-, -, undecided', -, shape⟩ := handled_of_call call
        obtain ⟨id, there⟩ := stored_of_committed (calling.known _ _ _ call) committed
        exact ⟨id, row, there, v, m'', Option.some.inj (undecided'.symm.trans undecided), shape⟩

/-- An ACK on its way is for a row on disk. -/
def Acking (t : Thread) (k : Cmd) (w : World) : Prop :=
  ∀ seq, k = .io (.sendAck seq) →
    t.isClient = true ∧ StoredFor w.server.db (w.server.sess.username t.conn, seq)

theorem acking_own (run : (server st).Reaches acksHonest (start st file b) cfg)
    (allowed : acksHonest cfg t e = true) (stack : cfg.stack t = k :: rest)
    (ran : cfg.shared.run st t.conn e k = some (w', new)) : ∀ n ∈ new, Acking t n w' := by
  rintro n membership seq rfl
  have outlined := calling_of_run run
  have calling := outlined.pending t k (by simp [stack])
  have stays := (ok_run outlined.inv ran).2
  have names {m : ChatMsg} (handled : k.handled = some m) :
      w'.server.sess.username t.conn = m.sender := by
    rw [calling.sender m handled]
    rcases username_run ran t.conn with same | ⟨-, enters⟩
    · exact same
    · simp [(facts_of_handled (t := t) handled).2.1] at enters
  rcases call_run ran with ⟨idle, -⟩ | ⟨m, row, state, p, events, call, advanced, -, leaves⟩
  · rcases calledBy_run ran _ membership with ⟨m, rfl, rfl, seen⟩ |
      ⟨m, room, roomId, state, db, id, rfl, -⟩ | ⟨m, state, db, id, rfl, -⟩
    · rw [names rfl]
      have settled := (honest_check allowed stack).2 seen
      exact ⟨calling.client m rfl, (storedFor_of_settled run stack settled seen).mono stays⟩
    · cases idle
    · cases idle
  · obtain ⟨-, handled, -⟩ := handled_of_call call
    obtain ⟨trust, counted⟩ := honest_call allowed stack call
    have known := (calling.known _ _ _ call).advance_own outlined.inv counted trust False.elim
      False.elim advanced
    cases leaves with
    | goes n' state' one next =>
        obtain rfl : .io (.sendAck seq) = n' := by simpa [one] using membership
        cases next
    | refuses id reason _ one => simp [one] at membership
    | stores id relay positive relays all =>
        have either := all.subset membership
        have same : seq = m.seq := by
          rcases relays with ⟨room, rfl⟩ | rfl <;> simpa using either
        rw [names handled, same]
        exact ⟨calling.client m handled, storedFor_of_returns call known positive⟩

theorem acked_of_run (run : (server st).Reaches acksHonest (start st file b) cfg) :
    Outlined Above AckedStored Acking cfg := by
  refine run.outlined (respects st) ?_ ?_ ?_
  · refine ⟨?_, ?_, ?_⟩
    · intro c user seq acked
      simp [start] at acked
    · intro t
      cases t <;> simp [start]
    · rintro t k waiting seq rfl
      cases t <;> simp [start] at waiting
  · intro cfg t e k rest w new reached outlined allowed stack ran
    obtain ⟨-, ran⟩ := exec_eq_some_iff.mp ran
    have stays := (ok_run (calling_of_run reached).inv ran).2
    refine ⟨?_, acking_own reached allowed stack ran⟩
    intro c user seq acked
    obtain ⟨events, trace, emitted, -⟩ := trace_run ran
    rw [trace] at acked
    rcases List.mem_append.mp acked with old | now
    · exact (outlined.inv c user seq old).mono stays
    · obtain ⟨-, rfl, rfl⟩ := emitted _ now
      exact (outlined.pending t _ (by simp [stack]) seq rfl).2.mono stays
  · rintro cfg t e k rest w new reached outlined _ stack ran t' k' _ waits acking seq rfl
    obtain ⟨here, ran⟩ := exec_eq_some_iff.mp ran
    have stays := (ok_run (calling_of_run reached).inv ran).2
    obtain ⟨client, stored⟩ := acking seq rfl
    refine ⟨client, ?_⟩
    rcases username_run ran t'.conn with same | ⟨mine, enters⟩
    · rw [same]
      exact stored.mono stays
    · -- a login does not run above an ACK of its own connection
      obtain rfl := Thread.eq_of_conn client (runsOn_of_enters enters ▸ here) mine
      rcases waits with other | ⟨-, above⟩
      · exact absurd rfl other
      · have service : (Cmd.io (.sendAck seq)).layer = .service := rfl
        simp [Above, layer_of_enters enters, Layer.above, service] at above

/-- Each ACK is for a stored message, in every run whose steps meet no defect. -/
theorem ackedStored_of_run (run : (server st).Reaches acksHonest (start st file b) cfg) :
    AckedStored cfg.shared :=
  (acked_of_run run).inv

/-- Alice sends a message to the lobby and sends it again: both are acknowledged, and there
is one row of it. -/
theorem ackedStored_of_run_resent :
    ∃ cfg, (server Demo.startup).Reaches acksHonest (start Demo.startup Demo.file {}) cfg ∧
      AckedStored cfg.shared ∧
      (cfg.shared.trace.count (.io (.acked 1 (bytes "alice") 1)) = 2 ∧
        slots cfg.shared.server.db.stored = [(bytes "alice", 1)]) := by
  obtain ⟨cfg, run, resent⟩ := Program.exists_reaches_of_play (server Demo.startup) acksHonest
    (Demo.joining ++ Demo.steps (.client 1) 10 ++ Demo.speaks "ALL" 1 13 ++ Demo.speaks "ALL" 1 4)
    (start Demo.startup Demo.file {})
    (fun cfg => cfg.shared.trace.count (.io (.acked 1 (bytes "alice") 1)) = 2 ∧
      slots cfg.shared.server.db.stored = [(bytes "alice", 1)]) (by decide +kernel)
  exact ⟨cfg, run, ackedStored_of_run run, of_decide_eq_true resent⟩

/-- Alice has joined no room: her message gets its slot and then a NACK.  When it comes
again with the same seq, it is acknowledged, and no row has been written. -/
theorem refused_acked :
    ∃ cfg, (server Demo.startup).Reaches windowOpen (start Demo.startup Demo.file {}) cfg ∧
      ¬ AckedStored cfg.shared := by
  obtain ⟨cfg, run, lost⟩ := Program.exists_reaches_of_play (server Demo.startup) windowOpen
    (Demo.connects 1 ++ Demo.hello 1 1 ++ Demo.proves 1 1 ++ Demo.enters 1 1 ++
      Demo.steps (.client 1) 6 ++ Demo.speaks "ALL" 1 5 ++ Demo.speaks "ALL" 1 3)
    (start Demo.startup Demo.file {})
    (fun cfg => decide (.io (.acked 1 (bytes "alice") 1) ∈ cfg.shared.trace) &&
      cfg.shared.server.db.stored.rows.isEmpty) (by decide +kernel)
  obtain ⟨acked, empty⟩ := Bool.and_eq_true_iff.mp lost
  refine ⟨cfg, run, fun stored => ?_⟩
  obtain ⟨id, row, there, -⟩ := stored 1 (bytes "alice") 1 (of_decide_eq_true acked)
  simp [List.isEmpty_iff.mp empty] at there

end OnlineChat
