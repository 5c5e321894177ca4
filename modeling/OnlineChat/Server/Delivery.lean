import OnlineChat.Server.Sessions

/-!
# Messages

For each user and each seq there is at most one row and one fan-out, and no connection
gets the message twice, as long as the idempotency window does not overflow.
-/

namespace OnlineChat

open Library ChatServer

variable {st : Startup} {s : ChatServer} {c v : ConnId} {e : Ext} {w w' : World} {t t' : Thread}
  {k k' n : Cmd} {rest new : List Cmd} {File : Type} {file : Database File} {b : BootExt}
  {cfg : Config Thread Cmd World} {m : ChatMsg}

/-! ## Messages on their way -/

/-- The user and the seq of a message. -/
def ChatMsg.slot (m : ChatMsg) : Bytes × Int := (m.sender, m.seq)

/-- The message that a command has on its way behind its idempotency slot. -/
def Cmd.message : Cmd → Option ChatMsg
  | .router (.routeRoom m) | .router (.roomDbId m _) | .db (.insertRoomMsg m _ _ _)
  | .router (.broadcastRoomRelay m _) | .sess (.relayConns m _ _) | .io (.relayEach m _ _)
  | .db (.findReceiver m) | .db (.insertPrivateMsg m _) | .sess (.findTarget m)
  | .io (.relayTarget m _) => some m
  | _ => none

def Cmd.carries (k : Cmd) (slot : Bytes × Int) : Prop := k.message.map ChatMsg.slot = some slot

/-- The `INSERT` of the message has not been run. -/
def Cmd.uninserted : Cmd → Bool
  | .router (.routeRoom _) | .router (.roomDbId _ _) | .db (.findReceiver _) => true
  | .db (.insertRoomMsg _ _ _ state) | .db (.insertPrivateMsg _ state) => state.outside
  | _ => false

/-- The message has not been sent to anybody. -/
def Cmd.unsent : Cmd → Bool
  | .io (.relayEach _ _ _) | .io (.relayTarget _ _) => false
  | k => k.message.isSome

/-- The connections to which the message still goes. -/
def Cmd.targets : Cmd → List ConnId
  | .io (.relayEach _ _ targets) => targets
  | .io (.relayTarget _ v) => [v]
  | _ => []

/-- The check of a message evicts nothing from the idempotency window. -/
def windowOpen (cfg : Config Thread Cmd World) (t : Thread) (_ : Ext) : Bool :=
  match cfg.stack t with
  | .checkAndAdd m :: _ => cfg.shared.server.dedup.keeps m.sender m.seq
  | _ => true

def Event.inserts : Event → Option (Bytes × Int)
  | .db (.inserted user seq) => some (user, seq)
  | _ => none

def Event.fansOut : Event → Option (Bytes × Int)
  | .sess (.fanOut user seq) => some (user, seq)
  | _ => none

def Event.relays : Event → Option (ConnId × Bytes × Int)
  | .io (.relayed v user seq) => some (v, user, seq)
  | _ => none

/-- The user and the seq of the message that a row stores. -/
def Message.slot (row : Message Origin) : Option (Bytes × Int) :=
  row.origin.map fun origin => (origin.user, origin.seq)

/-- The slots of the rows of a table of messages. -/
def slots (table : Table (Message Origin)) : List (Bytes × Int) :=
  table.rows.filterMap fun row => row.2.slot

/-- Each user and seq has at most one `INSERT`, one row, one fan-out, and one relay to each
connection. -/
structure SentOnce (w : World) : Prop where
  inserted : (w.trace.filterMap Event.inserts).Nodup
  rows : (slots w.server.db.messages).Nodup
  stored : (slots w.server.db.stored).Nodup
  sent : (w.trace.filterMap Event.fansOut).Nodup
  relayed : (w.trace.filterMap Event.relays).Nodup

/-! ## One step -/

/-- A message on its way comes out of the check of its slot, or was on its way before. -/
theorem message_called (called : CalledBy st s c e k n) (carries : n.message = some m) :
    (k = .checkAndAdd m ∧ s.dedup.seen m.sender m.seq = false) ∨ k.message = some m := by
  unfold Cmd.message at carries
  split at carries
  all_goals first
    | obtain rfl := Option.some.inj carries
    | cases carries
  · exact .inl called
  · obtain rfl := called
    exact .inr rfl
  · rcases called with ⟨rfl, -⟩ | ⟨state', db, rfl, -⟩ <;> exact .inr rfl
  · obtain ⟨roomId, state, db, id, rfl, -⟩ := called
    exact .inr rfl
  · obtain ⟨rfl, -⟩ := called
    exact .inr rfl
  · rcases called with ⟨names, rfl, -⟩ | ⟨v, rfl⟩ <;> exact .inr rfl
  · exact .inl called
  · rcases called with ⟨rfl, -⟩ | ⟨state', db, rfl, -⟩ <;> exact .inr rfl
  · obtain ⟨state, db, id, rfl, -⟩ := called
    exact .inr rfl
  · obtain ⟨rfl, -⟩ := called
    exact .inr rfl

/-- Events of a message are emitted where it is on its way. -/
theorem carries_of_emitted {event : Event} (emitted : EmittedBy s c k event) :
    (∀ slot, event.inserts = some slot → k.carries slot ∧ k.uninserted = true) ∧
      (∀ slot, event.fansOut = some slot → k.carries slot ∧ k.unsent = true) ∧
      ∀ v slot, event.relays = some (v, slot) → k.carries slot ∧ v ∈ k.targets := by
  refine ⟨?_, ?_, ?_⟩
  · rintro ⟨user, seq⟩ inserts
    match event, inserts with
    | .db (.inserted _ _), rfl =>
        obtain ⟨m, since, rfl, rfl, ⟨room, roomId, rfl⟩ | rfl⟩ := emitted <;> exact ⟨rfl, rfl⟩
  · rintro ⟨user, seq⟩ fansOut
    match event, fansOut with
    | .sess (.fanOut _ _), rfl =>
        obtain ⟨m, rfl, rfl, ⟨room, names, rfl⟩ | rfl⟩ := emitted <;> exact ⟨rfl, rfl⟩
  · rintro v ⟨user, seq⟩ relays
    match event, relays with
    | .io (.relayed _ _ _), rfl =>
        obtain ⟨m, rfl, rfl, rfl | ⟨room, rest, rfl⟩⟩ := emitted
        · exact ⟨rfl, List.mem_singleton_self _⟩
        · exact ⟨rfl, List.mem_cons_self⟩

theorem layer_of_message (carries : k.message = some m) :
    k.layer = .handler ∨ k.layer = .chain := by
  unfold Cmd.message at carries
  split at carries
  all_goals first
    | exact .inl rfl
    | exact .inr rfl
    | cases carries

/-- Two commands of one thread never carry messages. -/
theorem apart_of_message (carries : k.message = some m) {m' : ChatMsg}
    (carries' : k'.message = some m') (waits : Waits Above t k rest t' k') : t ≠ t' := by
  rintro rfl
  rcases waits with other | ⟨-, above⟩
  · exact other rfl
  · rcases layer_of_message carries with layer | layer <;>
      rcases layer_of_message carries' with layer' | layer' <;>
        simp [Above, layer, layer', Layer.above] at above

/-! ## The window -/

/-- Slots that have been used are in the window. -/
structure Windowed (w : World) : Prop where
  inserted : ∀ user seq, (user, seq) ∈ w.trace.filterMap Event.inserts →
    w.server.dedup.seen user seq = true
  sent : ∀ user seq, (user, seq) ∈ w.trace.filterMap Event.fansOut →
    w.server.dedup.seen user seq = true
  relayed : ∀ v user seq, (v, user, seq) ∈ w.trace.filterMap Event.relays →
    w.server.dedup.seen user seq = true

def InWindow (_ : Thread) (k : Cmd) (w : World) : Prop :=
  ∀ user seq, k.carries (user, seq) → w.server.dedup.seen user seq = true

/-- The window forgets nothing, and gets the slot that is checked. -/
theorem seen_run (allowed : ∀ m, k = .checkAndAdd m →
      w.server.dedup.keeps m.sender m.seq = true)
    (ran : w.run st c e k = some (w', new)) (user : Bytes) (seq : Int) :
    w'.server.dedup.seen user seq = true ↔
      w.server.dedup.seen user seq = true ∨ ∃ m, k = .checkAndAdd m ∧ m.slot = (user, seq) := by
  by_cases checks : ∃ m, k = .checkAndAdd m
  · obtain ⟨m, rfl⟩ := checks
    rw [(run_checkAndAdd ran).1, SeqDeduper.seen_checkAndAdd (allowed m rfl)]
    simp only [Bool.or_eq_true, Bool.and_eq_true, decide_eq_true_eq, Cmd.checkAndAdd.injEq,
      exists_eq_left', ChatMsg.slot, Prod.mk.injEq]
    exact or_congr_right (and_congr eq_comm eq_comm)
  · rw [dedup_run ran (by simpa using checks)]
    simpa using fun m shape => absurd ⟨m, shape⟩ checks

theorem inWindow_of_run (run : (server st).Reaches windowOpen (start st file b) cfg) :
    Outlined Above Windowed InWindow cfg := by
  have remembers {cfg : Config Thread Cmd World} {t : Thread} {e : Ext} {k : Cmd}
      {rest new : List Cmd} {w : World} (allowed : windowOpen cfg t e = true)
      (stack : cfg.stack t = k :: rest) (ran : cfg.shared.run st t.conn e k = some (w, new))
      (user : Bytes) (seq : Int) : w.server.dedup.seen user seq = true ↔
        cfg.shared.server.dedup.seen user seq = true ∨
          ∃ m, k = .checkAndAdd m ∧ m.slot = (user, seq) := by
    refine seen_run ?_ ran user seq
    rintro m rfl
    unfold windowOpen at allowed
    rw [stack] at allowed
    exact allowed
  refine run.outlined (respects st) ?_ ?_ ?_
  · refine ⟨⟨by simp [start], by simp [start], by simp [start]⟩, ?_, ?_⟩
    · intro t
      cases t <;> simp [start]
    · intro t k waiting
      cases t <;> simp_all [start, InWindow, Cmd.carries, Cmd.message]
  · intro cfg t e k rest w new reached outlined allowed stack ran
    obtain ⟨-, ran⟩ := exec_eq_some_iff.mp ran
    have seen := remembers allowed stack ran
    have carried := outlined.pending t k (by simp [stack])
    obtain ⟨events, trace, emitted, -⟩ := trace_run ran
    constructor
    · constructor
      · intro user seq inserted
        rw [trace, List.filterMap_append, List.mem_append] at inserted
        rw [seen]
        rcases inserted with old | now
        · exact .inl (outlined.inv.inserted user seq old)
        · obtain ⟨event, membership, inserts⟩ := List.mem_filterMap.mp now
          have source := (carries_of_emitted (emitted event membership)).1 _ inserts
          exact .inl (carried user seq source.1)
      · intro user seq sent
        rw [trace, List.filterMap_append, List.mem_append] at sent
        rw [seen]
        rcases sent with old | now
        · exact .inl (outlined.inv.sent user seq old)
        · obtain ⟨event, membership, fansOut⟩ := List.mem_filterMap.mp now
          have source := (carries_of_emitted (emitted event membership)).2.1 _ fansOut
          exact .inl (carried user seq source.1)
      · intro v user seq relayed
        rw [trace, List.filterMap_append, List.mem_append] at relayed
        rw [seen]
        rcases relayed with old | now
        · exact .inl (outlined.inv.relayed v user seq old)
        · obtain ⟨event, membership, relays⟩ := List.mem_filterMap.mp now
          have source := (carries_of_emitted (emitted event membership)).2.2 _ _ relays
          exact .inl (carried user seq source.1)
    · intro n membership user seq carries
      rw [seen]
      obtain ⟨m, message, slot⟩ := Option.map_eq_some_iff.mp carries
      rcases message_called (calledBy_run ran n membership) message with ⟨rfl, -⟩ | message'
      · exact .inr ⟨m, rfl, slot⟩
      · refine .inl (carried user seq ?_)
        simp [Cmd.carries, message', slot]
  · intro cfg t e k rest w new reached outlined allowed stack ran t' k' _ _ carried user seq carries
    rw [remembers allowed stack (exec_eq_some_iff.mp ran).2]
    exact .inl (carried user seq carries)

/-- A user and a seq are on their way in one thread at most. -/
theorem carries_exclusive (run : (server st).Reaches windowOpen (start st file b) cfg) :
    Exclusive Cmd.carries cfg := by
  refine run.invariant ?_ ?_
  · intro t t' _ k waiting k' _ slot carries
    cases t <;> simp_all [start, Cmd.carries, Cmd.message]
  · intro cfg t e k rest w new reached exclusive _ stack ran
    obtain ⟨-, ran⟩ := exec_eq_some_iff.mp ran
    apply exclusive.step stack
    rintro n membership ⟨user, seq⟩ carries
    obtain ⟨m, message, slot⟩ := Option.map_eq_some_iff.mp carries
    rcases message_called (calledBy_run ran n membership) message with ⟨rfl, unseen⟩ | message'
    · right
      intro t' _ k' pending carries'
      obtain ⟨rfl, rfl⟩ := Prod.mk.inj slot
      have seen := (inWindow_of_run reached).pending t' k' pending _ _ carries'
      simp [unseen] at seen
    · left
      simp [Cmd.carries, message', slot]

/-! ## Each message once -/

/-- What the log and the tables say of the messages so far. -/
structure MessageLog (w : World) : Prop where
  inserted : (w.trace.filterMap Event.inserts).Nodup
  sent : (w.trace.filterMap Event.fansOut).Nodup
  relayed : (w.trace.filterMap Event.relays).Nodup
  messages : (slots w.server.db.messages).Nodup
  saved : (slots w.server.db.saved).Nodup
  known : ∀ slot, slot ∈ slots w.server.db.messages ∨ slot ∈ slots w.server.db.saved →
    slot ∈ w.trace.filterMap Event.inserts

/-- What has not happened yet to a message on its way. -/
structure Sending (_ : Thread) (k : Cmd) (w : World) : Prop where
  uninserted : ∀ slot, k.carries slot → k.uninserted = true →
    slot ∉ w.trace.filterMap Event.inserts
  unsent : ∀ slot, k.carries slot → k.unsent = true →
    slot ∉ w.trace.filterMap Event.fansOut ∧ ∀ v, (v, slot) ∉ w.trace.filterMap Event.relays
  unrelayed : ∀ slot, k.carries slot → ∀ v ∈ k.targets,
    (v, slot) ∉ w.trace.filterMap Event.relays
  distinct : k.targets.Nodup
  members : ∀ m room names, k = .sess (.relayConns m room names) → names.Nodup

theorem slots_insert (table : Table (Message Origin)) (row : Message Origin) :
    slots (table.insert row) = slots table ++ row.slot.toList := by
  unfold slots
  rw [Table.rows_insert, List.filterMap_append]
  cases slot : row.slot <;> simp [slot]

theorem slot_of_call {row : Message Origin} {state : Database.CallState}
    (call : k.call c = some (m, row, state)) :
    k.carries m.slot ∧ k.uninserted = state.outside ∧ row.slot = some m.slot := by
  rcases call_cases call with ⟨room, roomId, rfl, rfl⟩ | ⟨rfl, rfl⟩
  · exact ⟨rfl, rfl, rfl⟩
  · exact ⟨rfl, rfl, rfl⟩

/-- The tables of messages stay, go back, or get the row of a message that had none. -/
theorem rows_run (ran : w.run st c e k = some (w', new)) :
    (w'.server.db.saved = w.server.db.saved ∨ w'.server.db.saved = w.server.db.messages) ∧
      (w'.server.db.messages = w.server.db.messages ∨
        w'.server.db.messages = w.server.db.saved ∨
        ∃ m : ChatMsg, k.carries m.slot ∧ k.uninserted = true ∧
          slots w'.server.db.messages = slots w.server.db.messages ++ [m.slot] ∧
          m.slot ∈ w'.trace.filterMap Event.inserts) := by
  rcases call_run ran with ⟨-, users, rooms, offline, db⟩ |
    ⟨m, row, state, p, events, call, advanced, trace, leaves⟩
  · rw [db]
    exact ⟨.inl rfl, .inl rfl⟩
  · obtain ⟨carries, uninserted, slot⟩ := slot_of_call call
    obtain ⟨saved, same | back | ⟨grown, ⟨since, rfl⟩, state', rfl, inside⟩⟩ :=
      Database.messages_advance advanced
    · exact ⟨saved, .inl same⟩
    · exact ⟨saved, .inr (.inl back)⟩
    · refine ⟨saved, .inr (.inr ⟨m, carries, uninserted, ?_, ?_⟩)⟩
      · rw [grown, slots_insert, slot]
        rfl
      · cases leaves with
        | goes n _ _ _ shape =>
            rw [inside] at shape
            rw [trace, shape]
            simp [Database.CallState.outside, Event.inserts, ChatMsg.slot]

theorem messageLog_run (log : MessageLog w) (sending : Sending t k w)
    (ran : w.run st t.conn e k = some (w', new)) : MessageLog w' := by
  obtain ⟨events, trace, emitted, short⟩ := trace_run ran
  have sources (event : Event) (membership : event ∈ events) :=
    carries_of_emitted (emitted event membership)
  -- commands of the own client have no part in a message
  have length {Item : Type} (read : Event → Option Item)
      (own : ∀ event ∈ events, ∀ item, read event = some item → ∃ slot, k.carries slot) :
      (∀ x ∈ events, read x = none) ∨ events.length ≤ 1 := by
    rcases short with ⟨k', rfl⟩ | short
    · left
      intro event membership
      rw [Option.eq_none_iff_forall_ne_some]
      intro item result
      obtain ⟨slot, carries⟩ := own event membership item result
      cases carries
    · exact .inr short
  have grown (slot : Bytes × Int) (old : slot ∈ w.trace.filterMap Event.inserts) :
      slot ∈ w'.trace.filterMap Event.inserts := by
    rw [trace, List.filterMap_append]
    exact List.mem_append_left _ old
  obtain ⟨saved, messages⟩ := rows_run ran
  refine ⟨?_, ?_, ?_, ?_, ?_, ?_⟩
  · rw [trace]
    refine nodup_filterMap_append log.inserted (length _ ?_) ?_
    · exact fun event membership slot inserts => ⟨slot, ((sources event membership).1 slot inserts).1⟩
    · intro event membership slot inserts
      obtain ⟨carries, uninserted⟩ := (sources event membership).1 slot inserts
      exact sending.uninserted slot carries uninserted
  · rw [trace]
    refine nodup_filterMap_append log.sent (length _ ?_) ?_
    · exact fun event membership slot fansOut =>
        ⟨slot, ((sources event membership).2.1 slot fansOut).1⟩
    · intro event membership slot fansOut
      obtain ⟨carries, unsent⟩ := (sources event membership).2.1 slot fansOut
      exact (sending.unsent slot carries unsent).1
  · rw [trace]
    refine nodup_filterMap_append log.relayed (length _ ?_) ?_
    · exact fun event membership ⟨v, slot⟩ relays =>
        ⟨slot, ((sources event membership).2.2 v slot relays).1⟩
    · rintro event membership ⟨v, slot⟩ relays
      obtain ⟨carries, target⟩ := (sources event membership).2.2 v slot relays
      exact sending.unrelayed slot carries v target
  · rcases messages with same | back | ⟨m, carries, uninserted, grows, -⟩
    · rw [same]
      exact log.messages
    · rw [back]
      exact log.saved
    · rw [grows, List.nodup_append_comm]
      refine List.nodup_cons.mpr ⟨?_, log.messages⟩
      intro there
      exact sending.uninserted m.slot carries uninserted (log.known m.slot (.inl there))
  · rcases saved with same | opened
    · rw [same]
      exact log.saved
    · rw [opened]
      exact log.messages
  · rintro slot (visible | before)
    · rcases messages with same | back | ⟨m, -, -, grows, there⟩
      · exact grown slot (log.known slot (.inl (same ▸ visible)))
      · exact grown slot (log.known slot (.inr (back ▸ visible)))
      · rw [grows] at visible
        rcases List.mem_append.mp visible with old | new
        · exact grown slot (log.known slot (.inl old))
        · exact List.mem_singleton.mp new ▸ there
    · rcases saved with same | opened
      · exact grown slot (log.known slot (.inr (same ▸ before)))
      · exact grown slot (log.known slot (.inl (opened ▸ before)))

theorem uninserted_called (called : CalledBy st s c e k n) (carries : n.message = some m)
    (out : n.uninserted = true) :
    (k = .checkAndAdd m ∧ s.dedup.seen m.sender m.seq = false) ∨
      (k.message = some m ∧ k.uninserted = true) := by
  unfold Cmd.message at carries
  split at carries
  all_goals first
    | obtain rfl := Option.some.inj carries
    | cases carries
  · exact .inl called
  · obtain rfl := called
    exact .inr ⟨rfl, rfl⟩
  · rcases called with ⟨rfl, -⟩ | ⟨state', db, rfl, advanced⟩
    · exact .inr ⟨rfl, rfl⟩
    · exact .inr ⟨rfl, (Database.outside_advance advanced out).1⟩
  · cases out
  · cases out
  · cases out
  · exact .inl called
  · rcases called with ⟨rfl, -⟩ | ⟨state', db, rfl, advanced⟩
    · exact .inr ⟨rfl, rfl⟩
    · exact .inr ⟨rfl, (Database.outside_advance advanced out).1⟩
  · cases out
  · cases out

/-- Nothing was inserted in a step that leaves the message uninserted. -/
theorem inserts_run (ran : w.run st c e k = some (w', new)) (membership : n ∈ new)
    (out : n.uninserted = true) :
    w'.trace.filterMap Event.inserts = w.trace.filterMap Event.inserts := by
  rcases call_run ran with ⟨idle, -⟩ | ⟨m, row, state, p, events, -, -, trace, leaves⟩
  · obtain ⟨events, trace, emitted, -⟩ := trace_run ran
    have none : events.filterMap Event.inserts = [] := by
      rw [List.filterMap_eq_nil_iff]
      intro event there
      rw [Option.eq_none_iff_forall_ne_some]
      intro slot inserts
      match event, inserts with
      | .db (.inserted _ _), _ =>
          obtain ⟨m, since, -, -, ⟨room, roomId, rfl⟩ | rfl⟩ := emitted _ there <;> cases idle
    rw [trace, List.filterMap_append, none, List.append_nil]
  · cases leaves with
    | goes n' state' one call shape =>
        obtain rfl : n = n' := by simpa [one] using membership
        have inside := (slot_of_call call).2.1.symm.trans out
        simp [trace, shape, inside]
    | refuses id reason _ one =>
        obtain rfl : n = .io (.refuse m reason) := by simpa [one] using membership
        cases out
    | stores id relay _ relays all _ =>
        have either := all.subset membership
        rcases relays with ⟨room, rfl⟩ | rfl <;> simp at either <;>
          rcases either with rfl | rfl <;> cases out

theorem unsent_called (called : CalledBy st s c e k n) (out : n.unsent = true) :
    ((∃ m, k = .checkAndAdd m) ∨ k.unsent = true) ∧ k.targets = [] ∧
      (∀ m room names, k ≠ .sess (.relayConns m room names)) ∧ ∀ m, k ≠ .sess (.findTarget m) := by
  unfold Cmd.unsent at out
  split at out
  · cases out
  · cases out
  · obtain ⟨m, carries⟩ := Option.isSome_iff_exists.mp out
    unfold Cmd.message at carries
    split at carries
    · obtain ⟨rfl, -⟩ := called
      exact ⟨.inl ⟨_, rfl⟩, rfl, nofun, nofun⟩
    · obtain rfl := called
      exact ⟨.inr rfl, rfl, nofun, nofun⟩
    · rcases called with ⟨rfl, -⟩ | ⟨state', db, rfl, -⟩ <;> exact ⟨.inr rfl, rfl, nofun, nofun⟩
    · obtain ⟨roomId, state, db, id, rfl, -⟩ := called
      exact ⟨.inr rfl, rfl, nofun, nofun⟩
    · obtain ⟨rfl, -⟩ := called
      exact ⟨.inr rfl, rfl, nofun, nofun⟩
    · simp_all
    · obtain ⟨rfl, -⟩ := called
      exact ⟨.inl ⟨_, rfl⟩, rfl, nofun, nofun⟩
    · rcases called with ⟨rfl, -⟩ | ⟨state', db, rfl, -⟩ <;> exact ⟨.inr rfl, rfl, nofun, nofun⟩
    · obtain ⟨state, db, id, rfl, -⟩ := called
      exact ⟨.inr rfl, rfl, nofun, nofun⟩
    · simp_all
    · cases carries

/-- Nothing was sent in a step that leaves the message unsent. -/
theorem unsent_run (ran : w.run st c e k = some (w', new)) (membership : n ∈ new)
    (out : n.unsent = true) :
    w'.trace.filterMap Event.fansOut = w.trace.filterMap Event.fansOut ∧
      w'.trace.filterMap Event.relays = w.trace.filterMap Event.relays := by
  obtain ⟨-, idle, noRoom, noUser⟩ := unsent_called (calledBy_run ran n membership) out
  obtain ⟨events, trace, emitted, -⟩ := trace_run ran
  have fansOut : events.filterMap Event.fansOut = [] := by
    rw [List.filterMap_eq_nil_iff]
    intro event there
    rw [Option.eq_none_iff_forall_ne_some]
    intro slot fansOut
    match event, fansOut with
    | .sess (.fanOut _ _), _ =>
        obtain ⟨m, -, -, ⟨room, names, rfl⟩ | rfl⟩ := emitted _ there
        · exact noRoom m room names rfl
        · exact noUser m rfl
  have relays : events.filterMap Event.relays = [] := by
    rw [List.filterMap_eq_nil_iff]
    intro event there
    rw [Option.eq_none_iff_forall_ne_some]
    rintro ⟨v, slot⟩ relays
    have target := ((carries_of_emitted (emitted event there)).2.2 v slot relays).2
    simp [idle] at target
  simp [trace, fansOut, relays]

/-- The targets of a relay: the members who are online, the receiver, or what is left. -/
theorem targets_called (called : CalledBy st s c e k n) (relays : n.targets ≠ []) :
    (k.unsent = true ∧ k.targets = [] ∧ ((∃ v, n.targets = [v]) ∨ ∃ m room names,
      k = .sess (.relayConns m room names) ∧ n.targets = names.filterMap s.sess.online)) ∨
      ∃ v, k.targets = v :: n.targets := by
  unfold Cmd.targets at relays
  split at relays
  · rcases called with ⟨names, rfl, rfl⟩ | ⟨v, rfl⟩
    · exact .inl ⟨rfl, rfl, .inr ⟨_, _, names, rfl, rfl⟩⟩
    · exact .inr ⟨v, rfl⟩
  · obtain ⟨rfl, -⟩ := called
    exact .inl ⟨rfl, rfl, .inl ⟨_, rfl⟩⟩
  · exact absurd rfl relays

theorem sending_own (windowed : Windowed w) (sound : w.server.sess.Sound) (sending : Sending t k w)
    (ran : w.run st t.conn e k = some (w', new)) : ∀ n ∈ new, Sending t n w' := by
  intro n membership
  have called := calledBy_run ran n membership
  have same {slot : Bytes × Int} {m : ChatMsg} (message : k.message = some m)
      (is : m.slot = slot) : k.carries slot := by simp [Cmd.carries, message, is]
  obtain ⟨events, trace, emitted, -⟩ := trace_run ran
  refine ⟨?_, ?_, ?_, ?_, ?_⟩
  · rintro ⟨user, seq⟩ carries out
    obtain ⟨m, message, slot⟩ := Option.map_eq_some_iff.mp carries
    rw [inserts_run ran membership out]
    rcases uninserted_called called message out with ⟨rfl, unseen⟩ | ⟨message', out'⟩
    · intro inserted
      obtain ⟨rfl, rfl⟩ := Prod.mk.inj slot
      simp [windowed.inserted _ _ inserted] at unseen
    · exact sending.uninserted _ (same message' slot) out'
  · rintro ⟨user, seq⟩ carries out
    obtain ⟨m, message, slot⟩ := Option.map_eq_some_iff.mp carries
    obtain ⟨fansOut, relays⟩ := unsent_run ran membership out
    rw [fansOut, relays]
    rcases message_called called message with ⟨rfl, unseen⟩ | message'
    · obtain ⟨rfl, rfl⟩ := Prod.mk.inj slot
      refine ⟨?_, ?_⟩
      · intro sent
        simp [windowed.sent _ _ sent] at unseen
      · intro v relayed
        simp [windowed.relayed v _ _ relayed] at unseen
    · rcases (unsent_called called out).1 with ⟨m', rfl⟩ | out'
      · cases message'
      · exact sending.unsent _ (same message' slot) out'
  · rintro ⟨user, seq⟩ carries v target
    obtain ⟨m, message, slot⟩ := Option.map_eq_some_iff.mp carries
    have message' : k.message = some m := by
      rcases message_called called message with ⟨rfl, -⟩ | message'
      · rcases targets_called called (List.ne_nil_of_mem target) with ⟨out, -⟩ | ⟨v, left⟩
        · cases out
        · cases left
      · exact message'
    rw [trace, List.filterMap_append, List.mem_append, not_or]
    rcases targets_called called (List.ne_nil_of_mem target) with ⟨out, idle, -⟩ | ⟨v', left⟩
    · refine ⟨(sending.unsent _ (same message' slot) out).2 v, ?_⟩
      intro now
      obtain ⟨event, there, relays⟩ := List.mem_filterMap.mp now
      have target := ((carries_of_emitted (emitted event there)).2.2 _ _ relays).2
      simp [idle] at target
    · refine ⟨sending.unrelayed _ (same message' slot) v (by simp [left, target]), ?_⟩
      intro now
      -- the connection that has just been served is none of those that are left
      obtain ⟨event, there, relays⟩ := List.mem_filterMap.mp now
      have distinct := sending.distinct
      rw [left, List.nodup_cons] at distinct
      have served : v = v' := by
        match event, relays with
        | .io (.relayed _ _ _), rfl =>
            obtain ⟨m', -, -, rfl | ⟨room, rest, rfl⟩⟩ := emitted _ there
            · exact (List.cons.inj left).1
            · exact (List.cons.inj left).1
      exact distinct.1 (served ▸ target)
  · cases relays : n.targets with
    | nil => exact List.nodup_nil
    | cons v rest =>
        rw [← relays]
        rcases targets_called called (by simp [relays]) with
          ⟨-, -, ⟨v', one⟩ | ⟨m, room, names, rfl, online⟩⟩ | ⟨v', left⟩
        · simp [one]
        · rw [online]
          refine (sending.members m room names rfl).filterMap ?_
          intro name name' v there there'
          exact (sound.held _ _ there).2.symm.trans (sound.held _ _ there').2
        · have distinct := sending.distinct
          rw [left, List.nodup_cons] at distinct
          exact distinct.2
  · rintro m room names rfl
    obtain ⟨rfl, rfl⟩ := called
    exact RoomRouter.nodup_members _ room

theorem sending_other (reached : (server st).Reaches windowOpen (start st file b) cfg)
    (stack : cfg.stack t = k :: rest) (pending : k' ∈ cfg.stack t')
    (waits : Waits Above t k rest t' k') (sending : Sending t' k' cfg.shared)
    (ran : cfg.shared.run st t.conn e k = some (w', new)) : Sending t' k' w' := by
  obtain ⟨events, trace, emitted, -⟩ := trace_run ran
  -- the message of another thread is another one
  have differ (slot : Bytes × Int) (carries : k.carries slot) : ¬ k'.carries slot := by
    intro carries'
    obtain ⟨m, message, -⟩ := Option.map_eq_some_iff.mp carries
    obtain ⟨m', message', -⟩ := Option.map_eq_some_iff.mp carries'
    exact carries_exclusive reached t t' (apart_of_message message message' waits) k
      (by simp [stack]) k' pending slot carries carries'
  have sources (event : Event) (membership : event ∈ events) :=
    carries_of_emitted (emitted event membership)
  refine ⟨?_, ?_, ?_, sending.distinct, sending.members⟩
  · intro slot carries out
    rw [trace, List.filterMap_append, List.mem_append, not_or]
    refine ⟨sending.uninserted slot carries out, ?_⟩
    intro now
    obtain ⟨event, there, inserts⟩ := List.mem_filterMap.mp now
    exact differ slot ((sources event there).1 slot inserts).1 carries
  · intro slot carries out
    obtain ⟨unsent, unrelayed⟩ := sending.unsent slot carries out
    rw [trace, List.filterMap_append, List.filterMap_append, List.mem_append, not_or]
    refine ⟨⟨unsent, ?_⟩, ?_⟩
    · intro now
      obtain ⟨event, there, fansOut⟩ := List.mem_filterMap.mp now
      exact differ slot ((sources event there).2.1 slot fansOut).1 carries
    · intro v
      rw [List.mem_append, not_or]
      refine ⟨unrelayed v, ?_⟩
      intro now
      obtain ⟨event, there, relays⟩ := List.mem_filterMap.mp now
      exact differ slot ((sources event there).2.2 v slot relays).1 carries
  · intro slot carries v target
    rw [trace, List.filterMap_append, List.mem_append, not_or]
    refine ⟨sending.unrelayed slot carries v target, ?_⟩
    intro now
    obtain ⟨event, there, relays⟩ := List.mem_filterMap.mp now
    exact differ slot ((sources event there).2.2 v slot relays).1 carries

theorem sending_of_run (run : (server st).Reaches windowOpen (start st file b) cfg) :
    Outlined Above MessageLog Sending cfg := by
  refine run.outlined (respects st) ?_ ?_ ?_
  · obtain ⟨rooms, db⟩ := db_boot st file b
    have blank : slots (boot st file b).db.messages = [] := by
      rw [db]
      simp [slots, Database.reopen, Table.map, Message.slot]
    have saved : slots (boot st file b).db.saved = [] := by
      rw [db]
      rfl
    refine ⟨⟨by simp [start], by simp [start], by simp [start], ?_, ?_, ?_⟩, ?_, ?_⟩
    · simp [start, blank]
    · simp [start, saved]
    · simp [start, blank, saved]
    · intro t
      cases t <;> simp [start]
    · intro t k waiting
      have idle : k.message = none ∧ k.targets = [] ∧
          ∀ m room names, k ≠ .sess (.relayConns m room names) := by
        cases t <;> simp_all [start, Cmd.message, Cmd.targets]
      refine ⟨?_, ?_, ?_, ?_, ?_⟩
      · simp [Cmd.carries, idle.1]
      · simp [Cmd.carries, idle.1]
      · simp [idle.2.1]
      · simp [idle.2.1]
      · intro m room names shape
        exact absurd shape (idle.2.2 m room names)
  · intro cfg t e k rest w new reached outlined _ stack ran
    obtain ⟨-, ran⟩ := exec_eq_some_iff.mp ran
    have sending := outlined.pending t k (by simp [stack])
    exact ⟨messageLog_run outlined.inv sending ran,
      sending_own (inWindow_of_run reached).inv (sound_of_run reached).inv sending ran⟩
  · intro cfg t e k rest w new reached _ _ stack ran t' k' pending waits sending
    exact sending_other reached stack pending waits sending (exec_eq_some_iff.mp ran).2

/-- Each message is stored and sent at most once, in every run in which the idempotency
window does not overflow. -/
theorem sentOnce_of_run (run : (server st).Reaches windowOpen (start st file b) cfg) :
    SentOnce cfg.shared := by
  have log := (sending_of_run run).inv
  refine ⟨log.inserted, log.messages, ?_, log.sent, log.relayed⟩
  unfold Database.stored
  split
  · exact log.saved
  · exact log.messages

/-- Alice sends a message to the lobby, and sends it again: it is acknowledged twice, and
stored and relayed once. -/
theorem sentOnce_of_run_resent :
    ∃ cfg, (server Demo.startup).Reaches windowOpen (start Demo.startup Demo.file {}) cfg ∧
      SentOnce cfg.shared ∧
      (cfg.shared.trace.count (.io (.acked 1 (bytes "alice") 1)) = 2 ∧
        cfg.shared.trace.filterMap Event.inserts = [(bytes "alice", 1)] ∧
        cfg.shared.trace.filterMap Event.relays = [(1, bytes "alice", 1)]) := by
  obtain ⟨cfg, run, resent⟩ := Program.exists_reaches_of_play (server Demo.startup) windowOpen
    (Demo.joining ++ Demo.steps (.client 1) 10 ++ Demo.speaks "ALL" 1 13 ++ Demo.speaks "ALL" 1 4)
    (start Demo.startup Demo.file {})
    (fun cfg => cfg.shared.trace.count (.io (.acked 1 (bytes "alice") 1)) = 2 ∧
      cfg.shared.trace.filterMap Event.inserts = [(bytes "alice", 1)] ∧
      cfg.shared.trace.filterMap Event.relays = [(1, bytes "alice", 1)]) (by decide +kernel)
  exact ⟨cfg, run, sentOnce_of_run run, of_decide_eq_true resent⟩

end OnlineChat
