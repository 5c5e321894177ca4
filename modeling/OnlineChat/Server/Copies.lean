import OnlineChat.Server.Isolation

/-!
# What is stored is what was relayed

A message comes back from the store, in a page or in a push, with the sender and the
receiver that it was relayed with.  Its content goes through C strings on the way: what
comes back is the content of the relay unless that has a NUL.
-/

namespace OnlineChat

open Library MiniJson Database ChatServer

variable {st : Startup} {s : ChatServer} {c : ConnId} {e : Ext} {w w' : World} {t t' : Thread}
  {k k' n : Cmd} {rest new : List Cmd} {File : Type} {file : Database File} {b : BootExt}
  {m : ChatMsg} {id : Int}

/-! ## The history of the copies -/

/-- A copy of a message that is made or handed out. -/
inductive Copy where
  /-- The row of the message is inserted under that key of `messages`. -/
  | stored (id : Int) (m : ChatMsg)
  /-- The row of the message is inserted under that key of `offline_messages`. -/
  | parked (id : Int) (m : ChatMsg)
  /-- The live relay of the message. -/
  | relayed (m : ChatMsg) (frame : Object)
  /-- The item of a row in a HISTORY or INBOX page. -/
  | shown (id : Int) (item : Object)
  /-- The push of an offline row. -/
  | pushed (id : Int) (frame : Object)

def Copy.storedUnder (id : Int) : Copy → Option ChatMsg
  | .stored id' m => if id' = id then some m else none
  | _ => none

def Copy.parkedUnder (id : Int) : Copy → Option ChatMsg
  | .parked id' m => if id' = id then some m else none
  | _ => none

@[simp]
theorem Copy.storedUnder_stored : (Copy.stored id m).storedUnder id = some m := if_pos rfl

@[simp]
theorem Copy.parkedUnder_parked : (Copy.parked id m).parkedUnder id = some m := if_pos rfl

/-- The insertion of a row. -/
def Passage.copy : Passage → Option Copy
  | .stored row m _ => some (.stored row.1 m)
  | .parked row m => some (.parked row.id m)
  | _ => none

namespace ChatServer

variable (st : Startup) (s : ChatServer) (c : ConnId) (e : Ext)

/-- The page with which a section of the database replies: its kind, its room and its
rows. -/
def pageOf : DbCmd → Option (Bytes × Bytes × List (Int × Message Origin))
  | .historyPage room roomId cursor =>
      some (bytes "HISTORY", room, (s.historyRows e roomId cursor).take kHistPageSize)
  | .doInbox obj => (s.inboxRows c e obj).map fun rows =>
      (bytes "INBOX", [], rows.take kHistPageSize)
  | _ => none

def pageRows (k : DbCmd) : List (Int × Message Origin) :=
  match pageOf s c e k with
  | some (_, _, rows) => rows
  | none => []

/-- The copies that a command makes and hands out. -/
def copies : Cmd → List Copy
  | .db k => (deposits st s c e k).filterMap Passage.copy ++
      (pageRows s c e k).map fun row => .shown row.1 (historyItem row)
  | .io (.relayTarget m _) =>
      [.relayed m (messageFrame m.sender m.receiver [] m.content m.ts)]
  | .io (.relayEach m room (_ :: _)) =>
      [.relayed m (messageFrame m.sender (bytes "ALL") room m.content m.ts)]
  | .io (.pushRows name (row :: _)) => [.pushed row.id (offlineFrame name row)]
  | _ => []

variable {st s c e}

/-- The reply is that page. -/
theorem next_pageOf {k : DbCmd} {kind room : Bytes} {rows : List (Int × Message Origin)}
    (page : pageOf s c e k = some (kind, room, rows)) :
    ∃ more, (runDb st s c e k).map Effect.next = some [.io (.sendFrame c
      (pageFrame kind (s.sess.username c) room rows more (e.nowTs 0)))] := by
  unfold pageOf at page
  split at page
  next room' roomId cursor =>
    cases page
    exact (next_historyPage room roomId cursor).imp fun more next => congrArg some next
  next obj =>
    obtain ⟨rows', read, same⟩ := Option.map_eq_some_iff.mp page
    cases same
    exact (next_doInbox read).imp fun more next => congrArg some next
  next => cases page

end ChatServer

/-- The server with that history. -/
abbrev copied (st : Startup) : Program Thread Ext Cmd (World × List Copy) :=
  (server st).recording fun t e k w => copies st w.server t.conn e k

/-- The states of a server that is started on a file and started again on what it leaves
behind, perhaps after a crash. -/
inductive Archives {File : Type} (file : Database File) :
    Startup → Config Thread Cmd (World × List Copy) → Prop where
  | starts (st : Startup) (b : BootExt) : Archives file st ((start st file b).noted [])
  | steps {st : Startup} {cfg cfg' : Config Thread Cmd (World × List Copy)} :
      Archives file st cfg → (copied st).Step Program.always cfg cfg' → Archives file st cfg'
  | restarts {st : Startup} {cfg : Config Thread Cmd (World × List Copy)} (st' : Startup)
      (b : BootExt) : Archives file st cfg →
      Archives file st' ((start st' cfg.shared.1.server.db b).noted cfg.shared.2)

/-! ## The law -/

/-- A text has a NUL. -/
def HasNul (text : Bytes) : Prop := 0 ∈ text

instance (text : Bytes) : Decidable (HasNul text) := inferInstanceAs (Decidable (0 ∈ text))

/-- A frame or an item carries a message as it is relayed. -/
structure Carries (m : ChatMsg) (obj : Object) : Prop where
  sender : obj.getStr (bytes "from") = m.sender
  receiver : obj.getStr (bytes "to") = m.receiver
  content : obj.getStr (bytes "content") = m.content

/-- A frame or an item gives a message back: sender and receiver always, and the content if
and only if it has no NUL. -/
structure Returns (m : ChatMsg) (obj : Object) : Prop where
  sender : obj.getStr (bytes "from") = m.sender
  receiver : obj.getStr (bytes "to") = m.receiver
  content : obj.getStr (bytes "content") = m.content ↔ ¬ HasNul m.content

/-- What may be handed out after that past.  A key whose batch was rolled back is given
again, so that the row under it is that of the latest message.  A row without a message was
in the file, and is handed out as it was there. -/
def Faithful (file : Database File) (past : List Copy) : Copy → Prop
  | .stored _ _ | .parked _ _ => True
  | .relayed m frame => Carries m frame
  | .shown id item => (latest (Copy.storedUnder id) past).elim
      (∃ x, (id, x) ∈ file.stored.rows ∧ item = historyItem (id, x)) (Returns · item)
  | .pushed id frame => (latest (Copy.parkedUnder id) past).elim
      (∃ x, (id, x) ∈ file.offline.rows ∧ frame = offlineFrame x.receiver (offRow (id, x)))
      (Returns · frame)

theorem cStr_eq_self_iff {text : Bytes} : cStr text = text ↔ ¬ HasNul text := by
  unfold cStr HasNul
  rw [List.takeWhile_eq_self_iff]
  constructor
  · intro clean zero
    simpa using clean 0 zero
  · intro clean b there
    simp only [ne_eq, decide_not, Bool.not_eq_eq_eq_not, Bool.not_true, decide_eq_false_iff_not]
    rintro rfl
    exact clean there

/-- The texts of a row are those of the message as SQLite keeps them. -/
structure KeptAs (sender receiver content : Bytes) (m : ChatMsg) : Prop where
  sender : sender = m.sender
  receiver : receiver = m.receiver
  content : content = cStr m.content

theorem KeptAs.returns {sender receiver content : Bytes} {obj : Object}
    (kept : KeptAs sender receiver content m) (sender' : obj.getStr (bytes "from") = sender)
    (receiver' : obj.getStr (bytes "to") = receiver)
    (content' : obj.getStr (bytes "content") = content) : Returns m obj := by
  refine ⟨sender'.trans kept.sender, receiver'.trans kept.receiver, ?_⟩
  rw [content', kept.content]
  exact cStr_eq_self_iff

theorem returns_historyItem {Call : Type} {row : Int × Message Call}
    (kept : KeptAs row.2.sender row.2.receiver row.2.content m) : Returns m (historyItem row) :=
  kept.returns rfl rfl rfl

theorem returns_offlineFrame {name : Bytes} {row : OffRow}
    (kept : KeptAs row.sender name row.content m) : Returns m (offlineFrame name row) :=
  kept.returns rfl rfl rfl

theorem carries_messageFrame {room : Bytes} :
    Carries m (messageFrame m.sender m.receiver room m.content m.ts) := ⟨rfl, rfl, rfl⟩

/-! ## The tables and the history -/

/-- The row of the latest message under its key, or else a row of the file. -/
def RowFrom (file : Database File) (notes : List Copy) (row : Int × Message Empty) : Prop :=
  (latest (Copy.storedUnder row.1) notes).elim
    (∃ x, (row.1, x) ∈ file.stored.rows ∧ bareRow (row.1, x) = row)
    (KeptAs row.2.sender row.2.receiver row.2.content)

/-- An offline row to a user: that of the latest message under its key, or else one of the
file. -/
def OffRowFrom (file : Database File) (notes : List Copy) (receiver : Bytes) (row : OffRow) :
    Prop :=
  (latest (Copy.parkedUnder row.id) notes).elim
    (∃ x, (row.id, x) ∈ file.offline.rows ∧ x.receiver = receiver ∧ offRow (row.id, x) = row)
    (KeptAs row.sender receiver row.content)

/-- The rows of the tables are those of the latest messages under their keys. -/
structure Archived {Call : Type} (file : Database File) (db : Database Call)
    (notes : List Copy) : Prop where
  messages : ∀ row, row ∈ db.messages.rows ∨ row ∈ db.saved.rows →
    RowFrom file notes (bareRow row)
  offline : ∀ row ∈ db.offline.rows, OffRowFrom file notes row.2.receiver (offRow row)

/-- A note that is not about the insertion of a row. -/
def Copy.quiet : Copy → Bool
  | .stored _ _ | .parked _ _ => false
  | _ => true

section Tables

variable {Call Call' : Type} {db : Database Call} {db' : Database Call'} {notes more : List Copy}

theorem silent_of_quiet {note : Copy} (quiet : note.quiet = true) (id : Int) :
    note.storedUnder id = none ∧ note.parkedUnder id = none := by
  cases note with
  | stored id' m | parked id' m => cases quiet
  | _ => exact ⟨rfl, rfl⟩

theorem RowFrom.quiet {row : Int × Message Empty} (rowFrom : RowFrom file notes row)
    (silent : ∀ note ∈ more, note.storedUnder row.1 = none) : RowFrom file (notes ++ more) row := by
  unfold RowFrom at rowFrom ⊢
  rwa [latest_append_of_none silent]

theorem OffRowFrom.quiet {receiver : Bytes} {row : OffRow}
    (rowFrom : OffRowFrom file notes receiver row)
    (silent : ∀ note ∈ more, note.parkedUnder row.id = none) :
    OffRowFrom file (notes ++ more) receiver row := by
  unfold OffRowFrom at rowFrom ⊢
  rwa [latest_append_of_none silent]

theorem Archived.noted (archived : Archived file db notes)
    (quiet : ∀ note ∈ more, note.quiet = true) : Archived file db (notes ++ more) := by
  constructor
  · intro row there
    exact (archived.messages row there).quiet fun note new => (silent_of_quiet (quiet note new) _).1
  · intro row there
    exact (archived.offline row there).quiet fun note new => (silent_of_quiet (quiet note new) _).2

/-- An offline row stays the same row. -/
theorem Retained.offline_eq (kept : Retained db db') {row : Int × OfflineRow}
    (there : row ∈ db'.offline.rows) : ∃ old ∈ db.offline.rows,
      offRow old = offRow row ∧ old.2.receiver = row.2.receiver := by
  obtain ⟨old, before, same⟩ := kept.offline row there
  have id : old.1 = row.1 := congrArg OffRow.id same
  obtain ⟨x', stays, receiver⟩ := kept.stays old.1 old.2 before
  obtain rfl := Table.eq_of_key stays there id
  exact ⟨old, before, same, receiver.symm⟩

theorem Archived.kept (archived : Archived file db notes) (kept : Retained db db') :
    Archived file db' notes := by
  constructor
  · intro row there
    obtain ⟨old, before, same⟩ := there.elim (kept.messages row) (kept.saved row)
    exact same ▸ archived.messages old before
  · intro row there
    obtain ⟨old, before, same, receiver⟩ := kept.offline_eq there
    rw [← same, ← receiver]
    exact archived.offline old before

/-- The row of a message comes into the table under a new key. -/
theorem Archived.insert (archived : Archived file db notes) (within : db.Within)
    {row : Message Call} (kept : KeptAs row.sender row.receiver row.content m) :
    Archived file { db with messages := db.messages.insert row }
      (notes ++ [.stored (db.messages.seq + 1) m]) := by
  have old (row' : Int × Message Call) (there : row' ∈ db.messages.rows) :
      RowFrom file (notes ++ [.stored (db.messages.seq + 1) m]) (bareRow row') := by
    have bound : row'.1 ≤ db.messages.seq := (db.messages.bounded row' there).2
    have other : db.messages.seq + 1 ≠ row'.1 := by omega
    exact (archived.messages row' (.inl there)).quiet
      (List.forall_mem_singleton.mpr (if_neg other))
  constructor
  · rintro row' (there | there)
    · rcases Table.mem_rows_insert.mp there with before | rfl
      · exact old row' before
      · unfold RowFrom bareRow
        rw [latest_concat Copy.storedUnder_stored]
        exact kept
    · exact old row' (within row' there)
  · intro row' there
    exact (archived.offline row' there).quiet (List.forall_mem_singleton.mpr rfl)

theorem Archived.park (archived : Archived file db notes)
    (kept : KeptAs m.offlineRow.sender m.offlineRow.receiver m.offlineRow.content m) :
    Archived file { db with offline := db.offline.insert m.offlineRow }
      (notes ++ [.parked (db.offline.seq + 1) m]) := by
  constructor
  · intro row there
    exact (archived.messages row there).quiet (List.forall_mem_singleton.mpr rfl)
  · intro row there
    rcases Table.mem_rows_insert.mp there with before | rfl
    · have bound : row.1 ≤ db.offline.seq := (db.offline.bounded row before).2
      have other : db.offline.seq + 1 ≠ row.1 := by omega
      exact (archived.offline row before).quiet (List.forall_mem_singleton.mpr (if_neg other))
    · unfold OffRowFrom offRow
      rw [latest_concat Copy.parkedUnder_parked]
      exact kept

end Tables

/-! ## What is known of a command that waits -/

/-- The offline rows that are still to be pushed, and to whom. -/
def Cmd.pushes : Cmd → Option (Bytes × List OffRow)
  | .io (.pushRows name rows) | .db (.markDelivered name _ rows _) => some (name, rows)
  | _ => none

/-- A row that has been read is that of the latest message under its key, and its key is in
the table. -/
def Pushable (file : Database File) (name : Bytes) (row : OffRow) (x : World × List Copy) :
    Prop :=
  (∃ y, (row.id, y) ∈ x.1.server.db.offline.rows) ∧ OffRowFrom file x.2 name row

structure Copying (file : Database File) (k : Cmd) (x : World × List Copy) : Prop where
  toAll : ∀ m, k.toAll = some m → m.receiver = bytes "ALL"
  toUser : ∀ m, k.toUser = some m → validUsername m.receiver = true
  loggedIn : ∀ name, k.loggedIn = some name → validUsername name = true
  pushes : ∀ name rows, k.pushes = some (name, rows) → ∀ row ∈ rows, Pushable file name row x

theorem copying_of_outer {x : World × List Copy} (outer : k.layer.inner = false) :
    Copying file k x := by
  refine ⟨?_, ?_, ?_, ?_⟩
  · intro m all
    unfold Cmd.toAll at all
    split at all <;> first
      | cases outer
      | cases all
  · intro m private'
    unfold Cmd.toUser at private'
    split at private' <;> first
      | cases outer
      | cases private'
  · intro name loggedIn
    unfold Cmd.loggedIn at loggedIn
    split at loggedIn <;> first
      | cases outer
      | cases loggedIn
  · intro name rows pushes
    unfold Cmd.pushes at pushes
    split at pushes <;> first
      | cases outer
      | cases pushes

/-! ## What a step writes -/

/-- A step writes nothing, or one row, that of its message. -/
inductive Writes (db db' : Database Origin) (more : List Copy) : Prop where
  | nothing : Retained db db' → (∀ note ∈ more, note.quiet = true) → Writes db db' more
  | stores (row : Message Origin) (m : ChatMsg) :
      Retained { db with messages := db.messages.insert row } db' →
      more = [.stored (db.messages.seq + 1) m] →
      KeptAs row.sender row.receiver row.content m → Writes db db' more
  | parks (m : ChatMsg) :
      Retained { db with offline := db.offline.insert m.offlineRow } db' →
      more = [.parked (db.offline.seq + 1) m] →
      KeptAs m.offlineRow.sender m.offlineRow.receiver m.offlineRow.content m →
      Writes db db' more

theorem Retained.refl {Call : Type} (db : Database Call) : Retained db db :=
  Retained.of_eq (.inl rfl) (.inl rfl) (List.prefix_refl _) rfl

theorem quiet_shown (rows : List (Int × Message Origin)) :
    ∀ note ∈ rows.map fun row => Copy.shown row.1 (historyItem row), note.quiet = true := by
  intro note there
  obtain ⟨row, -, rfl⟩ := List.mem_map.mp there
  rfl

/-- The row of a call is that of its message. -/
theorem keptAs_of_call {row : Message Origin} {state : Database.CallState}
    (toAll : ∀ m, k.toAll = some m → m.receiver = bytes "ALL")
    (toUser : ∀ m, k.toUser = some m → validUsername m.receiver = true)
    (sender : cStr m.sender = m.sender) (call : k.call c = some (m, row, state)) :
    KeptAs row.sender row.receiver row.content m := by
  rcases call_cases call with ⟨room, roomId, rfl, rfl⟩ | ⟨rfl, rfl⟩
  · exact ⟨sender, (toAll m rfl).symm, rfl⟩
  · exact ⟨sender, cStr_of_validName (toUser m rfl), rfl⟩

theorem writes_db {k : DbCmd} (within : w.server.db.Within)
    (toAll : ∀ m, (Cmd.db k).toAll = some m → m.receiver = bytes "ALL")
    (toUser : ∀ m, (Cmd.db k).toUser = some m → validUsername m.receiver = true)
    (senders : ∀ m, (Cmd.db k).about = some m → cStr m.sender = m.sender)
    (ran : w.run st c e (.db k) = some (w', new)) :
    Writes w.server.db w'.server.db (copies st w.server c e (.db k)) := by
  have notes : copies st w.server c e (.db k) = (deposits st w.server c e k).filterMap
      Passage.copy ++ (pageRows w.server c e k).map fun row => .shown row.1 (historyItem row) :=
    rfl
  have silent (none : deposits st w.server c e k = []) :
      ∀ note ∈ copies st w.server c e (.db k), note.quiet = true := by
    rw [notes, none]
    exact quiet_shown _
  cases idle : Cmd.call c (.db k) with
  | some call =>
      obtain ⟨m, row, state⟩ := call
      rcases call_run ran with ⟨none, -⟩ | ⟨m', row', state', p, events, call, advanced, -⟩
      · cases none.symm.trans idle
      · cases call.symm.trans idle
        rcases writes_call within ran idle advanced with ⟨none, kept⟩ | ⟨kept, one⟩
        · exact .nothing kept (silent none)
        · have sender := senders m (about_of_handled (handled_of_call idle).2.1)
          refine .stores row m kept ?_ (keptAs_of_call toAll toUser sender idle)
          have noPage : pageRows w.server c e k = [] := by
            cases k with
            | insertRoomMsg | insertPrivateMsg => rfl
            | _ => cases idle
          rw [notes, one, noPage]
          rfl
  | none =>
      rcases writes_other ran idle with ⟨none, kept⟩ | ⟨m, target, since, rfl, kept, one⟩
      · exact .nothing kept (silent none)
      · refine .parks m kept ?_ ⟨senders m rfl, cStr_of_validName (toUser m rfl), rfl⟩
        rw [notes, one]
        rfl

theorem writes_run (within : w.server.db.Within)
    (toAll : ∀ m, k.toAll = some m → m.receiver = bytes "ALL")
    (toUser : ∀ m, k.toUser = some m → validUsername m.receiver = true)
    (senders : ∀ m, k.about = some m → cStr m.sender = m.sender)
    (ran : w.run st c e k = some (w', new)) :
    Writes w.server.db w'.server.db (copies st w.server c e k) := by
  have same (other : ∀ k', k ≠ .db k')
      (quiet : ∀ note ∈ copies st w.server c e k, note.quiet = true) :
      Writes w.server.db w'.server.db (copies st w.server c e k) := by
    rw [db_run ran other]
    exact .nothing (Retained.refl _) quiet
  cases k with
  | db k => exact writes_db within toAll toUser senders ran
  | io k =>
      apply same nofun
      unfold copies
      split
      next isDb => cases isDb
      all_goals simp [Copy.quiet]
  | _ => exact same nofun nofun

theorem Archived.step {db db' : Database Origin} {notes more : List Copy}
    (archived : Archived file db notes) (within : db.Within) (writes : Writes db db' more) :
    Archived file db' (notes ++ more) := by
  cases writes with
  | nothing kept quiet => exact (archived.kept kept).noted quiet
  | stores row m kept one texts =>
      rw [one]
      exact (archived.insert within texts).kept kept
  | parks m kept one texts =>
      rw [one]
      exact (archived.park texts).kept kept

/-- A row that has been read stays what it is. -/
theorem Pushable.step {x : World × List Copy} {more : List Copy} {name : Bytes} {row : OffRow}
    (pushable : Pushable file name row x)
    (writes : Writes x.1.server.db w'.server.db more) :
    Pushable file name row (w', x.2 ++ more) := by
  obtain ⟨⟨y, there⟩, known⟩ := pushable
  have bound : row.id ≤ x.1.server.db.offline.seq := (x.1.server.db.offline.bounded _ there).2
  cases writes with
  | nothing kept quiet =>
      obtain ⟨y', stays, -⟩ := kept.stays row.id y there
      exact ⟨⟨y', stays⟩, known.quiet fun note new => (silent_of_quiet (quiet note new) _).2⟩
  | stores row' m kept one texts =>
      obtain ⟨y', stays, -⟩ := kept.stays row.id y there
      rw [one]
      exact ⟨⟨y', stays⟩, known.quiet (List.forall_mem_singleton.mpr rfl)⟩
  | parks m kept one texts =>
      obtain ⟨y', stays, -⟩ := kept.stays row.id y (Table.mem_rows_insert.mpr (.inl there))
      have other : x.1.server.db.offline.seq + 1 ≠ row.id := by omega
      rw [one]
      exact ⟨⟨y', stays⟩, known.quiet (List.forall_mem_singleton.mpr (if_neg other))⟩

theorem Copying.step {x : World × List Copy} {more : List Copy} (copying : Copying file k x)
    (writes : Writes x.1.server.db w'.server.db more) : Copying file k (w', x.2 ++ more) :=
  ⟨copying.toAll, copying.toUser, copying.loggedIn, fun name rows pushes row there =>
    (copying.pushes name rows pushes row there).step writes⟩

/-- The rows that are read for a push. -/
theorem pushable_undelivered {x : World × List Copy} {name : Bytes} {sql : SqlOutcome}
    {row : OffRow} (archived : Archived file x.1.server.db x.2)
    (valid : validUsername name = true) (read : row ∈ x.1.server.db.undelivered name sql) :
    Pushable file name row x := by
  obtain ⟨y, there, mine, -, shape⟩ := mem_undelivered read
  have known := archived.offline _ there
  rw [cStr_of_validName valid] at mine
  have same : offRow (row.id, y) = row := shape.symm
  rw [mine, same] at known
  exact ⟨⟨y, there⟩, known⟩

theorem pushes_own {x : World × List Copy} {name : Bytes} {rows : List OffRow}
    (archived : Archived file x.1.server.db x.2) (copying : Copying file k x)
    (writes : Writes x.1.server.db w'.server.db (copies st x.1.server c e k))
    (ran : x.1.run st c e k = some (w', new)) (called : n ∈ new)
    (pushes : n.pushes = some (name, rows)) :
    ∀ row ∈ rows, Pushable file name row (w', x.2 ++ copies st x.1.server c e k) := by
  intro row there
  apply Pushable.step _ writes
  have by' := calledBy_run ran n called
  unfold Cmd.pushes at pushes
  split at pushes
  all_goals cases pushes
  · rcases by' with ⟨rfl, rfl⟩ | ⟨id, since, rfl⟩
    · exact pushable_undelivered archived (copying.loggedIn name rfl) there
    · exact copying.pushes name rows rfl row there
  · rcases by' with ⟨row', rfl, -⟩ | ⟨since, rfl⟩
    · exact copying.pushes name _ rfl row (List.mem_cons_of_mem row' there)
    · exact copying.pushes name rows rfl row there

theorem copying_own {x : World × List Copy}
    (named : ∀ name, k.entrant = some name → validUsername name = true)
    (archived : Archived file x.1.server.db x.2) (copying : Copying file k x)
    (writes : Writes x.1.server.db w'.server.db (copies st x.1.server c e k))
    (ran : x.1.run st c e k = some (w', new)) :
    ∀ n ∈ new, Copying file n (w', x.2 ++ copies st x.1.server c e k) := by
  intro n called
  refine ⟨?_, ?_, ?_, ?_⟩
  · exact fun m all => toAll_own copying.toAll ran called all
  · exact fun m private' => toUser_own copying.toUser ran called private'
  · exact fun name loggedIn => valid_loggedIn named copying.loggedIn ran called loggedIn
  · exact fun name rows pushes => pushes_own archived copying writes ran called pushes

/-! ## What is handed out -/

theorem elim_mono {o : Option ChatMsg} {r r' : Prop} {p q : ChatMsg → Prop} (none : r → r')
    (some : ∀ m, p m → q m) (known : o.elim r p) : o.elim r' q := by
  cases o with
  | none => exact none known
  | some m => exact some m known

theorem mem_pageRows (st : Startup) {k : DbCmd} {row : Int × Message Origin}
    (there : row ∈ pageRows s c e k) :
    row ∈ s.db.messages.rows ∧ deposits st s c e k = [] := by
  unfold pageRows at there
  split at there
  next page =>
    unfold pageOf at page
    split at page
    · cases page
      exact ⟨(mem_historyRows ((List.take_sublist _ _).subset there)).1, rfl⟩
    · obtain ⟨rows, read, same⟩ := Option.map_eq_some_iff.mp page
      cases same
      exact ⟨(mem_inboxRows read ((List.take_sublist _ _).subset there)).1, rfl⟩
    · cases page
  next => cases there

/-- The items of a page are those of rows of the table. -/
theorem lawful_db {x : World × List Copy} {k : DbCmd}
    (archived : Archived file x.1.server.db x.2) (lawful : Lawful (Faithful file) x.2) :
    Lawful (Faithful file) (x.2 ++ copies st x.1.server c e (.db k)) := by
  have inserted : ∀ note ∈ (deposits st x.1.server c e k).filterMap Passage.copy, ∀ past,
      Faithful file past note := by
    intro note there past
    obtain ⟨passage, -, copy⟩ := List.mem_filterMap.mp there
    cases passage with
    | stored row m room | parked row m => exact Option.some.inj copy ▸ trivial
    | _ => cases copy
  have notes : x.2 ++ copies st x.1.server c e (.db k) =
      (x.2 ++ (deposits st x.1.server c e k).filterMap Passage.copy) ++
        (pageRows x.1.server c e k).map fun row => .shown row.1 (historyItem row) :=
    (List.append_assoc ..).symm
  rw [notes]
  apply (lawful.append_of_forall inserted).append
  intro past item later split
  have among : item ∈ (pageRows x.1.server c e k).map fun row =>
      Copy.shown row.1 (historyItem row) := by
    rw [split]
    simp
  obtain ⟨row, there, rfl⟩ := List.mem_map.mp among
  obtain ⟨filled, nothing⟩ := mem_pageRows st there
  have quiet : ∀ note ∈ past, note.quiet = true := by
    intro note before
    apply quiet_shown (pageRows x.1.server c e k) note
    rw [split]
    exact List.mem_append_left _ before
  rw [nothing, List.filterMap_nil, List.append_nil]
  refine elim_mono ?_ (fun m kept => returns_historyItem kept)
    ((archived.messages row (.inl filled)).quiet fun note before =>
      (silent_of_quiet (quiet note before) _).1)
  rintro ⟨x, old, same⟩
  exact ⟨x, old, congrArg historyItem same.symm⟩

theorem lawful_run {x : World × List Copy} (archived : Archived file x.1.server.db x.2)
    (copying : Copying file k x) (lawful : Lawful (Faithful file) x.2) :
    Lawful (Faithful file) (x.2 ++ copies st x.1.server c e k) := by
  unfold copies
  split
  · exact lawful_db archived lawful
  · exact lawful.concat carries_messageFrame
  next m room v targets =>
    have all := copying.toAll m rfl
    apply lawful.concat
    rw [← all]
    exact carries_messageFrame
  next name row rows =>
    obtain ⟨-, known⟩ := copying.pushes name (row :: rows) rfl row List.mem_cons_self
    refine lawful.concat (elim_mono ?_ (fun m kept => returns_offlineFrame kept) known)
    rintro ⟨x, old, rfl, same⟩
    exact ⟨x, old, congrArg (offlineFrame x.receiver) same.symm⟩
  · rw [List.append_nil]
    exact lawful

/-! ## Runs -/

variable {cfg : Config Thread Cmd (World × List Copy)} {notes : List Copy} {Later : Type}
  {file' : Database Later}

/-- The name of a sender goes through SQLite unchanged. -/
theorem sender_of_plain {When : Config Thread Cmd World → Thread → Ext → Bool}
    {cfg : Config Thread Cmd World} (run : (server st).Reaches When (start st file b) cfg)
    (waiting : k ∈ cfg.stack t) (about : k.about = some m) : cStr m.sender = m.sender := by
  obtain ⟨notes, recorded⟩ := run.recorded (noted st) []
  obtain ⟨authentic, -, pending⟩ := acting_of_run recorded
  exact cStr_of_speaksFor authentic ((pending t k waiting).speaks m about)

/-- The invariant of the tables and the history. -/
structure Preserved (file : Database File) (x : World × List Copy) : Prop where
  archived : Archived file x.1.server.db x.2
  lawful : Lawful (Faithful file) x.2

theorem preserved_of_run
    (run : (copied st).Reaches Program.always ((start st file' b).noted notes) cfg)
    (preserved : Preserved file ((start st file' b).shared, notes)) :
    Outlined Above (Preserved file) (fun _ k x => Copying file k x) cfg := by
  have step (cfg₁ : Config Thread Cmd (World × List Copy)) (t : Thread) (e : Ext) (k : Cmd)
      (rest : List Cmd) (x : World × List Copy) (new : List Cmd)
      (reached : (copied st).Reaches Program.always ((start st file' b).noted notes) cfg₁)
      (outlined : Outlined Above (Preserved file) (fun _ k x => Copying file k x) cfg₁)
      (stack : cfg₁.stack t = k :: rest)
      (ran : (copied st).exec t e k cfg₁.shared = some (x, new)) :
      cfg₁.shared.1.server.db.Within ∧
        Writes cfg₁.shared.1.server.db x.1.server.db (copies st cfg₁.shared.1.server t.conn e k) ∧
        ∀ name, k.entrant = some name → validUsername name = true := by
    obtain ⟨ran, -⟩ := Program.exec_recording.mp ran
    obtain ⟨here, ran⟩ := exec_eq_some_iff.mp ran
    have plain : (server st).Reaches Program.always ((start st file' b).noted notes).plain
        cfg₁.plain := Program.Reaches.plain reached
    obtain ⟨named, within, -⟩ := acting_of_plain plain stack here
    have waiting : k ∈ cfg₁.stack t := by simp [stack]
    have copying := outlined.pending t k waiting
    refine ⟨within, ?_, named⟩
    exact writes_run within copying.toAll copying.toUser
      (fun m about => sender_of_plain plain waiting about) ran
  refine run.outlined (respects st).recording ?_ ?_ ?_
  · refine ⟨preserved, ?_, ?_⟩
    · intro t
      cases t <;> exact List.pairwise_singleton ..
    · intro t k waiting
      apply copying_of_outer
      cases t <;> obtain rfl := List.mem_singleton.mp waiting <;> rfl
  · rintro cfg₁ t e k rest ⟨w, notes'⟩ new reached outlined - stack ran
    obtain ⟨within, writes, named⟩ := step cfg₁ t e k rest _ new reached outlined stack ran
    obtain ⟨ran, rfl⟩ := Program.exec_recording.mp ran
    obtain ⟨-, ran⟩ := exec_eq_some_iff.mp ran
    obtain ⟨archived, lawful⟩ := outlined.inv
    have copying := outlined.pending t k (by simp [stack])
    refine ⟨⟨archived.step within writes, lawful_run archived copying lawful⟩, ?_⟩
    exact copying_own named archived copying writes ran
  · rintro cfg₁ t e k rest ⟨w, notes'⟩ new reached outlined - stack ran t' k' - - copying
    obtain ⟨-, writes, -⟩ := step cfg₁ t e k rest _ new reached outlined stack ran
    obtain ⟨-, rfl⟩ := Program.exec_recording.mp ran
    exact copying.step writes

/-- A state that has been reached since a start at which the invariant held. -/
def Begun (file : Database File) (st : Startup)
    (cfg : Config Thread Cmd (World × List Copy)) : Prop :=
  ∃ (Later : Type) (file' : Database Later) (b : BootExt) (notes : List Copy),
    (copied st).Reaches Program.always ((start st file' b).noted notes) cfg ∧
      Preserved file ((start st file' b).shared, notes)

theorem Begun.preserved (begun : Begun file st cfg) : Preserved file cfg.shared := by
  obtain ⟨Later, file', b, notes, run, preserved⟩ := begun
  exact (preserved_of_run run preserved).inv

/-- At the first start all rows are those of the file. -/
theorem preserved_boot : Preserved file ((start st file b).shared, []) := by
  refine ⟨?_, lawful_nil⟩
  obtain ⟨rooms, db⟩ := db_boot st file b
  constructor
  · intro row there
    have there : row ∈ (boot st file b).db.messages.rows ∨ row ∈ (boot st file b).db.saved.rows :=
      there
    rw [db] at there
    rcases there with there | there
    · obtain ⟨old, stored, rfl⟩ := List.mem_map.mp there
      exact ⟨old.2, stored, rfl⟩
    · cases there
  · intro row there
    have there : row ∈ (boot st file b).db.offline.rows := there
    rw [db] at there
    exact ⟨row.2, there, rfl, rfl⟩

theorem begun_of_archives (archives : Archives file st cfg) : Begun file st cfg := by
  induction archives with
  | starts st b => exact ⟨File, file, b, [], .refl, preserved_boot⟩
  | steps _ step inductionHypothesis =>
      obtain ⟨Later, file', b, notes, run, preserved⟩ := inductionHypothesis
      exact ⟨Later, file', b, notes, run.tail step, preserved⟩
  | @restarts st cfg st' b _ inductionHypothesis =>
      obtain ⟨archived, lawful⟩ := inductionHypothesis.preserved
      refine ⟨Origin, cfg.shared.1.server.db, b, cfg.shared.2, .refl, ?_, lawful⟩
      exact archived.kept (kept_boot st' cfg.shared.1.server.db b)

/-- A copy is made by the command: what is relayed or pushed goes to the send side of a
connection, and an item is on the page with which the command replies. -/
def Copy.MadeBy (st : Startup) (s : ChatServer) (c : ConnId) (e : Ext) (k : Cmd) : Copy → Prop
  | .stored id m => ∃ row room, .stored row m room ∈ watch st s c e k ∧ row.1 = id
  | .parked id m => ∃ row, .parked row m ∈ watch st s c e k ∧ row.id = id
  | .relayed m frame => ∃ k' v, k = .io k' ∧ ∀ r, runIo st s c e k' = some r →
      r.state = Function.update s.sides v ((s.sides v).run (.sendRelay frame m.seq)
        (s.sess.username v) (e.nowTs 0) e.writes).side
  | .shown id item => ∃ k' kind room more, ∃ rows : List (Int × Message Origin),
      k = .db k' ∧ (∃ row ∈ rows, row.1 = id ∧ historyItem row = item) ∧
      (runDb st s c e k').map Effect.next = some [.io (.sendFrame c
        (pageFrame kind (s.sess.username c) room rows more (e.nowTs 0)))]
  | .pushed id frame => ∃ k', k = .io k' ∧
      (∃ name row, row.id = id ∧ frame = offlineFrame name row) ∧
      ∀ r, runIo st s c e k' = some r → r.state = Function.update s.sides c
        ((s.sides c).run (.sendRelay frame 0) (s.sess.username c) (e.nowTs 0) e.writes).side

theorem made_of_deposits {k : DbCmd} :
    ∀ note ∈ (deposits st s c e k).filterMap Passage.copy, note.MadeBy st s c e (.db k) := by
  intro note there
  obtain ⟨passage, deposited, copy⟩ := List.mem_filterMap.mp there
  have watched : passage ∈ watch st s c e (.db k) := List.mem_append_left _ deposited
  cases passage with
  | stored row m room =>
      obtain rfl := Option.some.inj copy
      exact ⟨row, room, watched, rfl⟩
  | parked row m =>
      obtain rfl := Option.some.inj copy
      exact ⟨row, watched, rfl⟩
  | _ => cases copy

theorem made_of_pageRows {k : DbCmd} {row : Int × Message Origin} (there : row ∈ pageRows s c e k) :
    (Copy.shown row.1 (historyItem row)).MadeBy st s c e (.db k) := by
  unfold pageRows at there
  split at there
  next kind room rows page =>
    obtain ⟨more, next⟩ := @next_pageOf st s c e k kind room rows page
    exact ⟨k, kind, room, more, rows, rfl, ⟨row, there, rfl, rfl⟩, next⟩
  next => cases there

/-- The history of the copies tells what the commands do. -/
theorem made_of_copies : ∀ note ∈ copies st s c e k, note.MadeBy st s c e k := by
  intro note there
  unfold copies at there
  split at there
  next k =>
    rcases List.mem_append.mp there with deposited | shown
    · exact made_of_deposits note deposited
    · obtain ⟨row, read, rfl⟩ := List.mem_map.mp shown
      exact made_of_pageRows read
  next m v =>
    obtain rfl := List.mem_singleton.mp there
    exact ⟨_, v, rfl, fun r ran => state_runIo ran rfl⟩
  next m room v targets =>
    obtain rfl := List.mem_singleton.mp there
    exact ⟨_, v, rfl, fun r ran => state_runIo ran rfl⟩
  next name row rows =>
    obtain rfl := List.mem_singleton.mp there
    exact ⟨_, rfl, ⟨name, row, rfl, rfl⟩, fun r ran => state_runIo ran rfl⟩
  next => cases there

/-- In every run, over any number of starts: what pages and pushes give back of a stored
message are the sender and the receiver with which it is relayed, and its content if and
only if that has no NUL.  The copies are those that the commands make (`made_of_copies`). -/
theorem faithful_of_archives (archives : Archives file st cfg) :
    Lawful (Faithful file) cfg.shared.2 :=
  (begun_of_archives archives).preserved.lawful

theorem archives_of_reaches {cfg' : Config Thread Cmd (World × List Copy)}
    (archives : Archives file st cfg) (run : (copied st).Reaches Program.always cfg cfg') :
    Archives file st cfg' := by
  induction run with
  | refl => exact archives
  | tail _ step inductionHypothesis => exact inductionHypothesis.steps step

/-! ## Alice reads her own message -/

namespace Demo

/-- Alice sends a text to the lobby and asks for the history, up to its page. -/
def recalls (content : Bytes) : Schedule :=
  joining ++ steps (.client 1) 10 ++
    receives 1 (request "MESSAGE" [("to", .str (bytes "ALL")), ("content", .str content),
      ("seq", .num 1)]) ++ steps (.client 1) 13 ++
    receives 1 (request "HIST" [("content", .str [])]) ++ steps (.client 1) 4

/-- The last note is the item of a row, whose message had this content and was relayed with
it; the item has that one. -/
def recalled (sent shown : Bytes) (notes : List Copy) : Bool :=
  match notes.getLast? with
  | some (.shown id item) =>
      item.getStr (bytes "content") = shown &&
        (match latest (Copy.storedUnder id) notes.dropLast with
          | some m => m.content = sent
          | none => false) &&
        notes.dropLast.any fun
          | .relayed _ frame => frame.getStr (bytes "content") = sent
          | _ => false
  | _ => false

end Demo

theorem recalled_cases {sent shown : Bytes} {notes : List Copy}
    (recalled : Demo.recalled sent shown notes = true) :
    ∃ past id item m, notes = past ++ [.shown id item] ∧
      latest (Copy.storedUnder id) past = some m ∧ m.content = sent ∧
      item.getStr (bytes "content") = shown ∧
      ∃ m' frame, .relayed m' frame ∈ past ∧ frame.getStr (bytes "content") = sent := by
  unfold Demo.recalled at recalled
  split at recalled
  next id item last =>
    simp only [Bool.and_eq_true, decide_eq_true_eq] at recalled
    obtain ⟨⟨content, stored⟩, relayed⟩ := recalled
    obtain ⟨note, there, carries⟩ := List.any_eq_true.mp relayed
    have split : notes = notes.dropLast ++ [.shown id item] :=
      (List.dropLast_append_getLast? _ last).symm
    cases known : latest (Copy.storedUnder id) notes.dropLast with
    | none =>
        rw [known] at stored
        cases stored
    | some m =>
        rw [known] at stored
        refine ⟨notes.dropLast, id, item, m, split, known, of_decide_eq_true stored, content, ?_⟩
        cases note with
        | relayed m' frame => exact ⟨m', frame, there, of_decide_eq_true carries⟩
        | _ => cases carries
  next => cases recalled

/-- A text without a NUL comes back. -/
theorem faithful_of_archives_hi : ∃ cfg, Archives Demo.file Demo.startup cfg ∧
    Lawful (Faithful Demo.file) cfg.shared.2 ∧
    Demo.recalled (bytes "hi") (bytes "hi") cfg.shared.2 = true := by
  obtain ⟨cfg, run, recalled⟩ := Program.exists_reaches_of_play (copied Demo.startup)
    Program.always (Demo.recalls (bytes "hi")) ((start Demo.startup Demo.file {}).noted [])
    (fun cfg => Demo.recalled (bytes "hi") (bytes "hi") cfg.shared.2) (by decide +kernel)
  have archives := archives_of_reaches (.starts Demo.startup {}) run
  exact ⟨cfg, archives, faithful_of_archives archives, recalled⟩

/-- The content `a`, NUL, `b` is relayed and stored, and the page shows `a`. -/
theorem shown_cut : ∃ cfg past id item m, Archives Demo.file Demo.startup cfg ∧
    cfg.shared.2 = past ++ [.shown id item] ∧ latest (Copy.storedUnder id) past = some m ∧
    (∃ m' frame, .relayed m' frame ∈ past ∧
      frame.getStr (bytes "content") = m.content) ∧ m.content = [97, 0, 98] ∧
    item.getStr (bytes "content") = [97] ∧ item.getStr (bytes "content") ≠ m.content := by
  obtain ⟨cfg, run, recalled⟩ := Program.exists_reaches_of_play (copied Demo.startup)
    Program.always (Demo.recalls [97, 0, 98]) ((start Demo.startup Demo.file {}).noted [])
    (fun cfg => Demo.recalled [97, 0, 98] [97] cfg.shared.2) (by decide +kernel)
  obtain ⟨past, id, item, m, notes, stored, sent, shown, m', frame, there, relayed⟩ :=
    recalled_cases recalled
  refine ⟨cfg, past, id, item, m, archives_of_reaches (.starts Demo.startup {}) run, notes, stored,
    ⟨m', frame, there, relayed.trans sent.symm⟩, sent, shown, ?_⟩
  rw [shown, sent]
  decide

end OnlineChat
