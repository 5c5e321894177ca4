import OnlineChat.Library.Recording
import OnlineChat.Server.Events
import OnlineChat.Server.Handlers

/-!
# What becomes of a message

What is done for a message between the check of its slot and the next frame of its sender:
it is refused, or it is stored, offered to everyone who is to get it, and acknowledged.
-/

namespace OnlineChat

open Library MiniJson ChatServer

variable {st : Startup} {s : ChatServer} {c : ConnId} {e : Ext} {w w' : World} {t : Thread}
  {k n : Cmd} {rest new chores : List Cmd} {File : Type} {file : Database File} {b : BootExt}
  {m : ChatMsg}

/-! ## Deeds -/

/-- What the thread of a connection does for a message. -/
inductive Deed where
  /-- The deduper lets the message through. -/
  | admits (m : ChatMsg)
  | refuses (m : ChatMsg)
  /-- The call that inserts the row returns its id. -/
  | stores (m : ChatMsg)
  | acks (seq : Int)
  /-- The members of the room are read. -/
  | musters (m : ChatMsg) (room : Bytes) (names : List Bytes)
  /-- The connections of these members are read. -/
  | spreads (m : ChatMsg) (room : Bytes) (roll : List (Bytes × Option ConnId))
  /-- A relay to `v`, and whether it was accepted. -/
  | offers (m : ChatMsg) (v : ConnId) (ok : Bool)
  /-- The connection of the receiver is read. -/
  | looks (m : ChatMsg) (target : Option ConnId)
  /-- The `INSERT INTO offline_messages` is run, and whether it succeeds. -/
  | keeps (m : ChatMsg) (ok : Bool)

/-- A call that inserts `row` returns an id. -/
def ChatServer.returnsId (s : ChatServer) (e : Ext) (row : Message Origin)
    (state : Database.CallState) : Bool :=
  (s.db.advance bumpGen row e.sql state).any fun r =>
    match r.2 with
    | .goes _ => false
    | .returns id => 0 ≤ id

/-- What a command does for its message. -/
def deeds (s : ChatServer) (c : ConnId) (e : Ext) : Cmd → List Deed
  | .checkAndAdd m => if (s.checkAndAdd m).1 then [.admits m] else []
  | .db (.insertRoomMsg m _ roomId state) =>
      if s.returnsId e (roomRow c m roomId) state then [.stores m] else []
  | .db (.insertPrivateMsg m state) =>
      if s.returnsId e (privateRow c m) state then [.stores m] else []
  | .router (.broadcastRoomRelay m room) => [.musters m room (s.router.members room)]
  | .sess (.relayConns m room names) =>
      [.spreads m room (names.map fun name => (name, s.sess.online name))]
  | .io (.relayEach m room (v :: _)) =>
      [.offers m v ((s.sides v).sendRelay (messageFrame m.sender (bytes "ALL") room m.content m.ts)
        m.seq (s.sess.username v) (e.nowTs 0) e.writes).ok]
  | .sess (.findTarget m) => [.looks m (s.sess.online m.receiver)]
  | .io (.relayTarget m v) =>
      [.offers m v ((s.sides v).sendRelay
        (messageFrame m.sender m.receiver [] m.content m.ts) m.seq (s.sess.username v)
        (e.nowTs 0) e.writes).ok]
  | .db (.insertOffline m _ since) =>
      match s.db.waitTxIdle since e.sql.spurious with
      | .asleep | .sleeps _ => []
      | .passes => [.keeps m (e.sql.prepares && e.sql.steps)]
  | .io (.sendAck seq) => [.acks seq]
  | .io (.refuse m _) => [.refuses m]
  | _ => []

/-- The server with the history of what it does for messages. -/
abbrev doing (st : Startup) : Program Thread Ext Cmd (World × List (ConnId × Deed)) :=
  (server st).recording fun t e k w => (deeds w.server t.conn e k).map (Prod.mk t.conn)

/-- The deeds of the thread of `c`, in order. -/
def deedsOn (c : ConnId) (notes : List (ConnId × Deed)) : List Deed :=
  notes.filterMap fun note => if note.1 = c then some note.2 else none

/-! ## Fates -/

/-- The deeds of a message to a room up to its relays. -/
def spreadDeeds (m : ChatMsg) (room : Bytes) (roll : List (Bytes × Option ConnId))
    (offers : List (ConnId × Bool)) : List Deed :=
  [.admits m, .stores m, .musters m room (roll.map Prod.fst), .spreads m room roll] ++
    offers.map fun offer => .offers m offer.1 offer.2

/-- What becomes of a message. -/
inductive Fate where
  /-- Its slot was taken: it is acknowledged again, and nothing else. -/
  | repeated (seq : Int)
  | refused (m : ChatMsg)
  /-- One relay to the connection of each member that is online, in this order. -/
  | spread (m : ChatMsg) (room : Bytes) (roll : List (Bytes × Option ConnId))
      (offers : List (ConnId × Bool))
      (complete : offers.map Prod.fst = roll.filterMap Prod.snd)
  /-- The connection of the receiver accepts the relay. -/
  | handed (m : ChatMsg) (v : ConnId)
  /-- It does not, and the message is kept for the receiver. -/
  | returned (m : ChatMsg) (v : ConnId) (ok : Bool)
  /-- The receiver is not online, and the message is kept for them. -/
  | kept (m : ChatMsg) (ok : Bool)

def Fate.deeds : Fate → List Deed
  | repeated seq => [.acks seq]
  | refused m => [.admits m, .refuses m]
  | spread m room roll offers _ => spreadDeeds m room roll offers ++ [.acks m.seq]
  | handed m v => [.admits m, .stores m, .acks m.seq, .looks m (some v), .offers m v true]
  | returned m v ok =>
      [.admits m, .stores m, .acks m.seq, .looks m (some v), .offers m v false, .keeps m ok]
  | kept m ok => [.admits m, .stores m, .acks m.seq, .looks m none, .keeps m ok]

/-! ## Stages -/

/-- The commands of a message behind the rate limit. -/
def Cmd.delivers : Cmd → Bool
  | .checkAndAdd _ | .router (.routeRoom _) | .router (.roomDbId _ _)
  | .db (.insertRoomMsg _ _ _ _) | .router (.broadcastRoomRelay _ _)
  | .sess (.relayConns _ _ _) | .io (.relayEach _ _ _) | .db (.findReceiver _)
  | .db (.insertPrivateMsg _ _) | .sess (.findTarget _) | .io (.relayTarget _ _)
  | .db (.insertOffline _ _ _) | .io (.sendAck _) | .io (.refuse _ _) => true
  | _ => false

/-- What is left to do for a message, and what has been done. -/
inductive Standing : List Cmd → List Deed → Prop where
  | idle : Standing [] []
  | fresh (m : ChatMsg) : Standing [.checkAndAdd m] []
  | repeated (seq : Int) : Standing [.io (.sendAck seq)] []
  | refusing (m : ChatMsg) (reason : Bytes) : Standing [.io (.refuse m reason)] [.admits m]
  | routing (m : ChatMsg) : Standing [.router (.routeRoom m)] [.admits m]
  | placing (m : ChatMsg) (room : Bytes) : Standing [.router (.roomDbId m room)] [.admits m]
  | storing (m : ChatMsg) (room : Bytes) (roomId : Int) (state : Database.CallState) :
      Standing [.db (.insertRoomMsg m room roomId state)] [.admits m]
  | mustering (m : ChatMsg) (room : Bytes) :
      Standing [.router (.broadcastRoomRelay m room), .io (.sendAck m.seq)] [.admits m, .stores m]
  | spreading (m : ChatMsg) (room : Bytes) (names : List Bytes) :
      Standing [.sess (.relayConns m room names), .io (.sendAck m.seq)]
        [.admits m, .stores m, .musters m room names]
  | offering (m : ChatMsg) (room : Bytes) (roll : List (Bytes × Option ConnId))
      (offers : List (ConnId × Bool)) (targets : List ConnId)
      (ahead : offers.map Prod.fst ++ targets = roll.filterMap Prod.snd) :
      Standing [.io (.relayEach m room targets), .io (.sendAck m.seq)]
        (spreadDeeds m room roll offers)
  | spread (m : ChatMsg) (room : Bytes) (roll : List (Bytes × Option ConnId))
      (offers : List (ConnId × Bool))
      (complete : offers.map Prod.fst = roll.filterMap Prod.snd) :
      Standing [.io (.sendAck m.seq)] (spreadDeeds m room roll offers)
  | finding (m : ChatMsg) : Standing [.db (.findReceiver m)] [.admits m]
  | keeping (m : ChatMsg) (state : Database.CallState) :
      Standing [.db (.insertPrivateMsg m state)] [.admits m]
  | acking (m : ChatMsg) :
      Standing [.io (.sendAck m.seq), .sess (.findTarget m)] [.admits m, .stores m]
  | looking (m : ChatMsg) :
      Standing [.sess (.findTarget m)] [.admits m, .stores m, .acks m.seq]
  | relaying (m : ChatMsg) (v : ConnId) :
      Standing [.io (.relayTarget m v)] [.admits m, .stores m, .acks m.seq, .looks m (some v)]
  | absent (m : ChatMsg) (since : Option Nat) :
      Standing [.db (.insertOffline m none since)]
        [.admits m, .stores m, .acks m.seq, .looks m none]
  | failing (m : ChatMsg) (v : ConnId) (since : Option Nat) :
      Standing [.db (.insertOffline m (some v) since)]
        [.admits m, .stores m, .acks m.seq, .looks m (some v), .offers m v false]

/-- The message is at some stage, or its fate is complete. -/
def Stands (chores : List Cmd) (done : List Deed) : Prop :=
  Standing chores done ∨ chores = [] ∧ ∃ fate : Fate, done = fate.deeds

theorem delivers_called (called : CalledBy st s c e k n) (delivers : n.delivers = true) :
    (∃ obj, k = .limit (.doMessage obj)) ∨ k.delivers = true := by
  unfold Cmd.delivers at delivers
  split at delivers
  · obtain ⟨obj, rfl, -⟩ := called
    exact .inl ⟨obj, rfl⟩
  · obtain ⟨rfl, -⟩ := called
    exact .inr rfl
  · obtain rfl := called
    exact .inr rfl
  · rcases called with ⟨rfl, -⟩ | ⟨state', db, rfl, -⟩ <;> exact .inr rfl
  · obtain ⟨roomId, state, db, id, rfl, -⟩ := called
    exact .inr rfl
  · obtain ⟨rfl, -⟩ := called
    exact .inr rfl
  · rcases called with ⟨names, rfl, -⟩ | ⟨v, rfl⟩ <;> exact .inr rfl
  · obtain ⟨rfl, -⟩ := called
    exact .inr rfl
  · rcases called with ⟨rfl, -⟩ | ⟨state', db, rfl, -⟩ <;> exact .inr rfl
  · obtain ⟨state, db, id, rfl, -⟩ := called
    exact .inr rfl
  · obtain ⟨rfl, -⟩ := called
    exact .inr rfl
  · rcases called with rfl | ⟨v, rfl⟩ | ⟨target, since', rfl⟩ <;> exact .inr rfl
  · rcases called with ⟨m, rfl, -⟩ | ⟨m, room, roomId, state, db, id, rfl, -⟩ |
      ⟨m, state, db, id, rfl, -⟩ <;> exact .inr rfl
  · rcases called with rfl | rfl | rfl | ⟨room, roomId, state, rfl⟩ | ⟨state, rfl⟩ <;>
      exact .inr rfl
  · cases delivers

/-- Only the thread of a connection delivers, and not in its loop. -/
theorem facts_of_delivers (delivers : k.delivers = true) :
    k.runsOn t = t.isClient ∧ k.layer ≠ .loop := by
  unfold Cmd.delivers at delivers
  split at delivers
  all_goals first
    | exact ⟨rfl, by simp [Cmd.layer]⟩
    | cases delivers

theorem deeds_of_not_delivers (other : k.delivers = false) : deeds s c e k = [] := by
  unfold deeds
  split
  all_goals first
    | rfl
    | cases other

/-- A command that delivers nothing leaves nothing to be delivered, or the message that the
rate limit lets through. -/
theorem chores_other (other : k.delivers = false) (ran : w.run st c e k = some (w', new)) :
    new.filter Cmd.delivers = [] ∨
      ∃ obj m, k = .limit (.doMessage obj) ∧ new.filter Cmd.delivers = [.checkAndAdd m] := by
  by_cases limit : ∃ obj, k = .limit (.doMessage obj)
  · obtain ⟨obj, rfl⟩ := limit
    obtain ⟨-, rfl⟩ := Prod.mk.inj (Option.some.inj ran)
    simp only [runLimit, doMessage]
    repeat' split
    all_goals first
      | exact .inl rfl
      | exact .inr ⟨obj, _, rfl, rfl⟩
  · left
    refine List.filter_eq_nil_iff.mpr ?_
    intro n membership delivers
    rcases delivers_called (calledBy_run ran n membership) delivers with limit' | delivers'
    · exact limit limit'
    · cases other.symm.trans delivers'

/-! ## One step -/

theorem next_checkAndAdd (s : ChatServer) (m : ChatMsg) :
    ((s.checkAndAdd m).1 = false ∧ (s.checkAndAdd m).2.2 = [.io (.sendAck m.seq)]) ∨
      ((s.checkAndAdd m).1 = true ∧ ((s.checkAndAdd m).2.2 = [.router (.routeRoom m)] ∨
        (∃ reason, (s.checkAndAdd m).2.2 = [.io (.refuse m reason)]) ∨
        (s.checkAndAdd m).2.2 = [.db (.findReceiver m)])) := by
  unfold ChatServer.checkAndAdd
  split
  · exact .inl ⟨rfl, rfl⟩
  · refine .inr ⟨rfl, ?_⟩
    dsimp only
    repeat' split
    · exact .inl rfl
    · exact .inr (.inl ⟨_, rfl⟩)
    · exact .inr (.inr rfl)

/-- A section of an insert goes on, is told that it failed, or stores the row. -/
theorem chores_insertMsg {row : Message Origin} {state : Database.CallState}
    {again : Database.CallState → DbCmd} {stored : List Cmd}
    {r : Effect (Database Origin) DbEvent}
    (ran : insertMsg s e m row state again stored = some r) :
    (s.returnsId e row state = false ∧ ((∃ state', r.next = [.db (again state')]) ∨
      ∃ reason, r.next = [.io (.refuse m reason)])) ∨
    (s.returnsId e row state = true ∧ r.next = stored) := by
  rcases next_insertMsg ran with ⟨db, state', advanced, -, next⟩ |
    ⟨db, id, advanced, -, -, ⟨failed, reason, next⟩ | ⟨good, next⟩⟩
  · exact .inl ⟨by simp [returnsId, advanced], .inl ⟨state', next⟩⟩
  · exact .inl ⟨by simp [returnsId, advanced, failed], .inr ⟨reason, next⟩⟩
  · exact .inr ⟨by simp [returnsId, advanced, good], next⟩

/-- The connections that are listed for the members. -/
theorem connections_roll (names : List Bytes) (online : Bytes → Option ConnId) :
    (names.map fun name => (name, online name)).map Prod.fst = names ∧
      (names.map fun name => (name, online name)).filterMap Prod.snd =
        names.filterMap online := by
  constructor
  · rw [List.map_map]
    exact List.map_id _
  · rw [List.filterMap_map]
    rfl

theorem spreadDeeds_concat (m : ChatMsg) (room : Bytes) (roll : List (Bytes × Option ConnId))
    (offers : List (ConnId × Bool)) (v : ConnId) (ok : Bool) :
    spreadDeeds m room roll offers ++ [.offers m v ok] =
      spreadDeeds m room roll (offers ++ [(v, ok)]) := by
  simp [spreadDeeds]

/-- One command for a message takes it to its next stage, or completes its fate. -/
theorem stands_own {done : List Deed} (standing : Standing (k :: chores) done)
    (ran : w.run st c e k = some (w', new)) :
    Stands (new.filter Cmd.delivers ++ chores) (done ++ deeds w.server c e k) := by
  cases standing with
  | fresh m =>
      obtain ⟨-, rfl⟩ := run_checkAndAdd ran
      rcases next_checkAndAdd w.server m with ⟨taken, next⟩ | ⟨free, nexts⟩
      · have none : deeds w.server c e (.checkAndAdd m) = [] := if_neg (by simp [taken])
        rw [next, none]
        exact .inl (.repeated m.seq)
      · have admitted : deeds w.server c e (.checkAndAdd m) = [.admits m] := if_pos free
        rw [admitted]
        rcases nexts with next | ⟨reason, next⟩ | next
        · exact next ▸ .inl (.routing m)
        · exact next ▸ .inl (.refusing m reason)
        · exact next ▸ .inl (.finding m)
  | repeated seq =>
      obtain ⟨-, rfl⟩ := Prod.mk.inj (Option.some.inj ran)
      refine .inr ⟨?_, .repeated seq, rfl⟩
      dsimp only [sendSection]
      split <;> rfl
  | refusing m reason =>
      obtain ⟨-, rfl⟩ := Prod.mk.inj (Option.some.inj ran)
      refine .inr ⟨?_, .refused m, rfl⟩
      dsimp only [sendSection]
      split <;> rfl
  | routing m =>
      obtain ⟨-, rfl⟩ := Prod.mk.inj (Option.some.inj ran)
      dsimp only [runRouter, routeRoom]
      split
      · exact .inl (.refusing m _)
      · exact .inl (.placing m _)
  | placing m room =>
      obtain ⟨-, rfl⟩ := Prod.mk.inj (Option.some.inj ran)
      exact .inl (.storing m room _ .start)
  | storing m room roomId state =>
      obtain ⟨r, step, result⟩ := Option.map_eq_some_iff.mp ran
      obtain ⟨-, rfl⟩ := Prod.mk.inj result
      rcases chores_insertMsg step with ⟨out, on⟩ | ⟨stored, next⟩
      · have none : deeds w.server c e (.db (.insertRoomMsg m room roomId state)) = [] :=
          if_neg (by simp [out])
        rw [none]
        rcases on with ⟨state', next⟩ | ⟨reason, next⟩
        · exact next ▸ .inl (.storing m room roomId state')
        · exact next ▸ .inl (.refusing m reason)
      · have one : deeds w.server c e (.db (.insertRoomMsg m room roomId state)) = [.stores m] :=
          if_pos stored
        rw [one, next]
        exact .inl (.mustering m room)
  | mustering m room =>
      obtain ⟨-, rfl⟩ := Prod.mk.inj (Option.some.inj ran)
      exact .inl (.spreading m room _)
  | spreading m room names =>
      obtain ⟨-, rfl⟩ := Prod.mk.inj (Option.some.inj ran)
      obtain ⟨listed, reached⟩ := connections_roll names w.server.sess.online
      have before : [Deed.admits m, .stores m, .musters m room names] ++
            deeds w.server c e (.sess (.relayConns m room names)) =
          spreadDeeds m room (names.map fun name => (name, w.server.sess.online name)) [] := by
        rw [spreadDeeds, listed]
        rfl
      rw [before]
      exact .inl (.offering m room _ [] _ reached.symm)
  | offering m room roll offers targets ahead =>
      cases targets with
      | nil =>
          obtain ⟨-, rfl⟩ := Prod.mk.inj (Option.some.inj ran)
          rw [List.append_nil] at ahead
          have none : deeds w.server c e (.io (.relayEach m room [])) = [] := rfl
          rw [none, List.append_nil]
          exact .inl (.spread m room roll offers ahead)
      | cons v targets =>
          obtain ⟨-, rfl⟩ := Prod.mk.inj (Option.some.inj ran)
          dsimp only [deeds]
          rw [spreadDeeds_concat]
          have ahead' : (offers ++ [(v, ((w.server.sides v).sendRelay
                (messageFrame m.sender (bytes "ALL") room m.content m.ts) m.seq
                (w.server.sess.username v) (e.nowTs 0) e.writes).ok)]).map Prod.fst ++ targets =
              roll.filterMap Prod.snd := by
            simpa using ahead
          -- whether the relay was accepted or not, the next target is served
          dsimp only [sendSection]
          split <;> exact .inl (.offering m room roll _ targets ahead')
  | spread m room roll offers complete =>
      obtain ⟨-, rfl⟩ := Prod.mk.inj (Option.some.inj ran)
      refine .inr ⟨?_, .spread m room roll offers complete, rfl⟩
      dsimp only [sendSection]
      split <;> rfl
  | finding m =>
      obtain ⟨-, rfl⟩ := Prod.mk.inj (Option.some.inj ran)
      dsimp only [findReceiver]
      split
      · exact .inl (.refusing m _)
      · exact .inl (.keeping m .start)
  | keeping m state =>
      obtain ⟨r, step, result⟩ := Option.map_eq_some_iff.mp ran
      obtain ⟨-, rfl⟩ := Prod.mk.inj result
      rcases chores_insertMsg step with ⟨out, on⟩ | ⟨stored, next⟩
      · have none : deeds w.server c e (.db (.insertPrivateMsg m state)) = [] :=
          if_neg (by simp [out])
        rw [none]
        rcases on with ⟨state', next⟩ | ⟨reason, next⟩
        · exact next ▸ .inl (.keeping m state')
        · exact next ▸ .inl (.refusing m reason)
      · have one : deeds w.server c e (.db (.insertPrivateMsg m state)) = [.stores m] :=
          if_pos stored
        rw [one, next]
        exact .inl (.acking m)
  | acking m =>
      obtain ⟨-, rfl⟩ := Prod.mk.inj (Option.some.inj ran)
      have quiet : (sendSection w.server c ((w.server.sides c).sendFrame
          (ackFrame (w.server.sess.username c) m.seq (e.nowTs 0)) (w.server.sess.username c)
          (e.nowTs 1) e.writes) [.acked c (w.server.sess.username c) m.seq] [] []).next = [] := by
        dsimp only [sendSection]
        split <;> rfl
      rw [quiet]
      exact .inl (.looking m)
  | looking m =>
      obtain ⟨-, rfl⟩ := Prod.mk.inj (Option.some.inj ran)
      dsimp only [runSess, findTarget, deeds]
      split
      next v online =>
        rw [online]
        exact .inl (.relaying m v)
      next offline =>
        rw [offline]
        exact .inl (.absent m none)
  | relaying m v =>
      obtain ⟨-, rfl⟩ := Prod.mk.inj (Option.some.inj ran)
      dsimp only [sendSection, deeds]
      cases accepted : ((w.server.sides v).sendRelay
          (messageFrame m.sender m.receiver [] m.content m.ts) m.seq
          (w.server.sess.username v) (e.nowTs 0) e.writes).ok with
      | true => exact .inr ⟨rfl, .handed m v, rfl⟩
      | false => exact .inl (.failing m v none)
  | absent m since =>
      obtain ⟨r, step, result⟩ := Option.map_eq_some_iff.mp ran
      obtain ⟨-, rfl⟩ := Prod.mk.inj result
      simp only [runDb, insertOffline, whenTxIdle] at step
      dsimp only [deeds]
      cases door : w.server.db.waitTxIdle since e.sql.spurious with
      | asleep => simp [door] at step
      | sleeps n =>
          obtain rfl : _ = r := by simpa [door] using step
          exact .inl (.absent m (some n))
      | passes =>
          obtain rfl : _ = r := by simpa [door] using step
          exact .inr ⟨rfl, .kept m _, rfl⟩
  | failing m v since =>
      obtain ⟨r, step, result⟩ := Option.map_eq_some_iff.mp ran
      obtain ⟨-, rfl⟩ := Prod.mk.inj result
      simp only [runDb, insertOffline, whenTxIdle] at step
      dsimp only [deeds]
      cases door : w.server.db.waitTxIdle since e.sql.spurious with
      | asleep => simp [door] at step
      | sleeps n =>
          obtain rfl : _ = r := by simpa [door] using step
          exact .inl (.failing m v (some n))
      | passes =>
          obtain rfl : _ = r := by simpa [door] using step
          exact .inr ⟨rfl, .returned m v _, rfl⟩

/-! ## Runs -/

theorem deedsOn_append (notes notes' : List (ConnId × Deed)) :
    deedsOn c (notes ++ notes') = deedsOn c notes ++ deedsOn c notes' :=
  List.filterMap_append

theorem deedsOn_own (done : List Deed) : deedsOn c (done.map (Prod.mk c)) = done := by
  induction done with
  | nil => rfl
  | cons deed done inductionHypothesis =>
      rw [List.map_cons, deedsOn, List.filterMap_cons, if_pos rfl]
      exact congrArg (deed :: ·) inductionHypothesis

theorem deedsOn_other {v : ConnId} (apart : v ≠ c) (done : List Deed) :
    deedsOn c (done.map (Prod.mk v)) = [] := by
  rw [deedsOn, List.filterMap_map, List.filterMap_eq_nil_iff]
  intro deed _
  exact if_neg apart

/-- What is left on a stack is at the stage that the deeds of its connection say. -/
def Told (stack : List Cmd) (done : List Deed) : Prop :=
  ∃ (fates : List Fate) (part : List Deed), done = fates.flatMap Fate.deeds ++ part ∧
    Standing (stack.filter Cmd.delivers) part

/-- A step of the thread itself. -/
theorem told_own {done : List Deed} (told : Told (k :: rest) done)
    (ordered : (k :: rest).Pairwise Above) (ran : w.run st c e k = some (w', new)) :
    Told (new ++ rest) (done ++ deeds w.server c e k) := by
  obtain ⟨fates, part, rfl, standing⟩ := told
  rw [Told, List.filter_append]
  cases delivers : k.delivers with
  | true =>
      rw [List.filter_cons_of_pos delivers] at standing
      rcases stands_own standing ran with next | ⟨nothing, fate, complete⟩
      · exact ⟨fates, part ++ deeds w.server c e k, List.append_assoc .., next⟩
      · refine ⟨fates ++ [fate], [], ?_, nothing ▸ .idle⟩
        rw [List.append_assoc, complete]
        simp
  | false =>
      rw [List.filter_cons_of_neg (by simp [delivers])] at standing
      rw [deeds_of_not_delivers delivers, List.append_nil]
      rcases chores_other delivers ran with none | ⟨obj, m, rfl, one⟩
      · exact ⟨fates, part, rfl, none ▸ standing⟩
      · -- only loops wait below the handler of a frame
        have nothing : rest.filter Cmd.delivers = [] := by
          refine List.filter_eq_nil_iff.mpr ?_
          intro lower membership delivers'
          have loop : lower.layer = .loop := by
            simpa [Above, Layer.above, Cmd.layer] using
              (List.pairwise_cons.mp ordered).1 lower membership
          exact (facts_of_delivers (t := .accept) delivers').2 loop
        rw [nothing] at standing ⊢
        cases standing
        exact ⟨fates, [], rfl, one ▸ .fresh m⟩

variable {When : Config Thread Cmd (World × List (ConnId × Deed)) → Thread → Ext → Bool}
  {cfg : Config Thread Cmd (World × List (ConnId × Deed))}

theorem told_of_run (run : (doing st).Reaches When ((start st file b).noted []) cfg) :
    ∀ c, Told (cfg.stack (.client c)) (deedsOn c cfg.shared.2) := by
  apply run.invariant
  · exact fun c => ⟨[], [], rfl, .idle⟩
  · rintro cfg t e k rest ⟨w, notes⟩ new reached told - stack ran c
    obtain ⟨ran, rfl⟩ := Program.exec_recording.mp ran
    obtain ⟨here, ran⟩ := exec_eq_some_iff.mp ran
    dsimp only
    rw [deedsOn_append]
    by_cases own : .client c = t
    · subst own
      have plain : (server st).Reaches Program.always (start st file b) cfg.plain :=
        Program.Reaches.plain (reached.mono fun _ _ _ _ => rfl)
      have ordered : (k :: rest).Pairwise Above :=
        stack ▸ (sound_of_run plain).ordered (.client c)
      have before : Told (k :: rest) (deedsOn c cfg.shared.2) := stack ▸ told c
      rw [Function.update_self]
      exact (deedsOn_own (c := c) _).symm ▸ told_own before ordered ran
    · have silent :
          deedsOn c ((deeds cfg.shared.1.server t.conn e k).map (Prod.mk t.conn)) = [] := by
        cases delivers : k.delivers with
        | false => simp [deeds_of_not_delivers delivers, deedsOn]
        | true =>
            apply deedsOn_other
            intro same
            have client := (facts_of_delivers delivers).1.symm.trans here
            exact own (Thread.eq_of_conn (t := .client c) rfl client same.symm)
      rw [Function.update_of_ne own, silent, List.append_nil]
      exact told c

/-- What has been done is the beginning of some fate. -/
theorem prefix_of_standing {done : List Deed} (standing : Standing chores done) :
    ∃ fate : Fate, done <+: fate.deeds := by
  cases standing with
  | idle => exact ⟨.repeated 0, List.nil_prefix⟩
  | repeated seq => exact ⟨.repeated seq, List.nil_prefix⟩
  | fresh m => exact ⟨.refused m, List.nil_prefix⟩
  | refusing m | routing m | placing m | storing m | finding m | keeping m =>
      exact ⟨.refused m, [.refuses m], rfl⟩
  | mustering m room => exact ⟨.spread m room [] [] rfl, _, rfl⟩
  | spreading m room names =>
      obtain ⟨listed, -⟩ := connections_roll names fun _ => none
      refine ⟨.spread m room (names.map fun name => (name, none)) [] ?_, ?_⟩
      · simp
      · rw [Fate.deeds, spreadDeeds, listed]
        exact ⟨_, rfl⟩
  | offering m room roll offers targets ahead =>
      refine ⟨.spread m room roll (offers ++ targets.map fun v => (v, true)) ?_, ?_⟩
      · rw [← ahead, List.map_append, List.map_map]
        exact congrArg (offers.map Prod.fst ++ ·) (List.map_id _)
      · simp [Fate.deeds, spreadDeeds]
  | spread m room roll offers complete => exact ⟨.spread m room roll offers complete, _, rfl⟩
  | acking m | looking m => exact ⟨.kept m true, _, rfl⟩
  | relaying m v => exact ⟨.handed m v, _, rfl⟩
  | absent m => exact ⟨.kept m true, _, rfl⟩
  | failing m v => exact ⟨.returned m v true, _, rfl⟩

/-- In every run, the deeds of a connection are one complete fate after the other, and the
beginning of one more; at its loop, the thread has left nothing undone. -/
theorem fates_of_run (run : (doing st).Reaches When ((start st file b).noted []) cfg)
    (c : ConnId) : ∃ (fates : List Fate) (part : List Deed),
      deedsOn c cfg.shared.2 = fates.flatMap Fate.deeds ++ part ∧
      (∃ fate : Fate, part <+: fate.deeds) ∧
      ((∀ k ∈ cfg.stack (.client c), k.layer = .loop) → part = []) := by
  obtain ⟨fates, part, done, standing⟩ := told_of_run run c
  refine ⟨fates, part, done, prefix_of_standing standing, ?_⟩
  intro loops
  have nothing : (cfg.stack (.client c)).filter Cmd.delivers = [] := by
    refine List.filter_eq_nil_iff.mpr ?_
    intro k waiting delivers
    exact (facts_of_delivers (t := .client c) delivers).2 (loops k waiting)
  rw [nothing] at standing
  cases standing
  rfl

/-- Alice speaks in the lobby, where she is alone: the deeds for her message are those of one
relay, and the thread waits for her next frame. -/
theorem fates_of_run_lobby : ∃ cfg,
    (doing Demo.startup).Reaches Program.always ((start Demo.startup Demo.file {}).noted []) cfg ∧
      (deedsOn 1 cfg.shared.2).length = 6 ∧
      ∃ fates : List Fate, deedsOn 1 cfg.shared.2 = fates.flatMap Fate.deeds := by
  obtain ⟨cfg, run, said⟩ := Program.exists_reaches_of_play (doing Demo.startup) Program.always
    (Demo.joining ++ Demo.steps (.client 1) 10 ++ Demo.speaks "ALL" 1 13)
    ((start Demo.startup Demo.file {}).noted [])
    (fun cfg => (deedsOn 1 cfg.shared.2).length = 6 ∧
      ∀ k ∈ cfg.stack (.client 1), k.layer = .loop)
    (by decide +kernel)
  obtain ⟨six, loops⟩ := of_decide_eq_true said
  obtain ⟨fates, part, done, -, complete⟩ := fates_of_run run 1
  rw [complete loops, List.append_nil] at done
  exact ⟨cfg, run, six, fates, done⟩

end OnlineChat
