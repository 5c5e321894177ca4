import OnlineChat.Library.Trace
import OnlineChat.Server.Events

/-!
# Offline rows

An offline row is handed to a connection at most once, and in order, as long as the
pushes of one user do not overlap.
-/

namespace OnlineChat

open Library ChatServer

variable {st : Startup} {s : ChatServer} {c : ConnId} {e : Ext} {w w' : World} {t t' : Thread}
  {k k' n : Cmd} {rest new : List Cmd} {File : Type} {file : Database File} {b : BootExt}
  {cfg cfg' : Config Thread Cmd World} {trace events : List Event} {id : Int} {name : Bytes}
  {When : Config Thread Cmd World → Thread → Ext → Bool}

/-! ## Pushes -/

/-- The user of a push that is on its way, and the rows that it still has to hand over or
to mark. -/
def Cmd.push : Cmd → Option (Bytes × List Int)
  | .io (.pushRows name rows) => some (name, rows.map OffRow.id)
  | .db (.markDelivered name id rest _) => some (name, id :: rest.map OffRow.id)
  | _ => none

def Cmd.pushesTo (k : Cmd) (name : Bytes) : Bool :=
  k.push.any fun push => push.2 ≠ [] && cStr push.1 = cStr name

/-- The rows of a user are read while no other connection has rows of his left to hand
over or to mark, and `mark_delivered` succeeds. -/
def pushesApart (cfg : Config Thread Cmd World) (t : Thread) (e : Ext) : Bool :=
  match cfg.stack t with
  | .db (.pushOffline name) :: _ =>
      allOthers cfg t fun v => !(cfg.stack (.client v)).any (·.pushesTo name)
  | .db (.markDelivered _ _ _ _) :: _ => e.sql.prepares && e.sql.steps
  | _ => true

/-- The key of the row that an event hands over. -/
def Event.handsOver : Event → Option Int
  | .io (.handed _ row) => some row.id
  | _ => none

/-- The row that an event hands over to `c`. -/
def Event.handsTo (c : ConnId) : Event → Option OffRow
  | .io (.handed c' row) => if c' = c then some row else none
  | _ => none

def Event.startsPush (c : ConnId) : Event → Bool
  | .db (.pushStarted c' _ _) => c' = c
  | _ => false

/-- The latest push on `c` is one of `rows`, of which `handed` have been handed over. -/
def LatestPush (c : ConnId) (rows handed : List OffRow) (trace : List Event) : Prop :=
  ∃ past name later, trace = past ++ .db (.pushStarted c name rows) :: later ∧
    (∀ event ∈ later, event.startsPush c = false) ∧ later.filterMap (Event.handsTo c) = handed

theorem LatestPush.append {rows handed : List OffRow} (latest : LatestPush c rows handed trace)
    (same : ∀ event ∈ events, event.startsPush c = false) :
    LatestPush c rows (handed ++ events.filterMap (Event.handsTo c)) (trace ++ events) := by
  obtain ⟨past, name, later, rfl, none, rfl⟩ := latest
  refine ⟨past, name, later ++ events, by simp, ?_, by simp⟩
  intro event membership
  rcases List.mem_append.mp membership with old | new
  · exact none event old
  · exact same event new

/-- A row is handed over in the order of the latest push on its connection, whose rows are
ordered by time and key. -/
def PushOrder (past : List Event) : Event → Prop
  | .io (.handed c row) => ∃ rows handed, LatestPush c rows handed past ∧
      handed ++ [row] <+: rows ∧ rows.Pairwise fun a b => Database.offLe a b = true
  | _ => True

/-- Each row has been handed over at most once, in the order of its push and as it stands
in the table, and who is marked as delivered was handed over or marked before the start. -/
structure PushedOnce (file : Database File) (w : World) : Prop where
  once : (w.trace.filterMap Event.handsOver).Nodup
  ordered : Lawful PushOrder w.trace
  genuine : ∀ c row, .io (.handed c row) ∈ w.trace → ∃ x,
    (row.id, x) ∈ w.server.db.offline.rows ∧
    row = { id := row.id, sender := x.sender, content := x.content, ts := x.ts }
  delivered : ∀ id x, (id, x) ∈ w.server.db.offline.rows → x.delivered = true →
    id ∈ w.trace.filterMap Event.handsOver ∨
      ∃ x, (id, x) ∈ file.offline.rows ∧ x.delivered = true

/-! ## One step -/

/-- A step without a part in a push: it adds at most a fresh offline row. -/
structure Quiet (w w' : World) (new : List Cmd) : Prop where
  trace : ∃ events, w'.trace = w.trace ++ events ∧ ∀ event ∈ events,
    event.handsOver = none ∧ ∀ c, event.startsPush c = false
  offline : w'.server.db.offline = w.server.db.offline ∨ ∃ x : OfflineRow, x.delivered = false ∧
    w'.server.db.offline = w.server.db.offline.insert x
  calls : ∀ n ∈ new, n.push = none

/-- Pushes are called by pushes. -/
theorem push_called (called : CalledBy st s c e k n) {push : Bytes × List Int}
    (pushes : n.push = some push) :
    (∃ name, k = .db (.pushOffline name)) ∨ (∃ name row rest, k = .io (.pushRows name (row :: rest))) ∨
      ∃ name id rest since, k = .db (.markDelivered name id rest since) := by
  unfold Cmd.push at pushes
  split at pushes
  · rcases called with ⟨rfl, -⟩ | ⟨id, since, rfl⟩
    · exact .inl ⟨_, rfl⟩
    · exact .inr (.inr ⟨_, _, _, _, rfl⟩)
  · rcases called with ⟨row, rfl, -⟩ | ⟨since', rfl⟩
    · exact .inr (.inl ⟨_, _, _, rfl⟩)
    · exact .inr (.inr ⟨_, _, _, _, rfl⟩)
  · cases pushes

theorem markDelivered_run {rows : List OffRow} {since : Option Nat}
    (ran : w.run st c e (.db (.markDelivered name id rows since)) = some (w', new)) :
    w'.trace = w.trace ∧
      ((∃ n, w'.server.db = w.server.db ∧ new = [.db (.markDelivered name id rows (some n))]) ∨
        (w'.server.db = w.server.db.markDelivered id e.sql ∧ new = [.io (.pushRows name rows)])) := by
  obtain ⟨r, step, result⟩ := Option.map_eq_some_iff.mp ran
  obtain ⟨rfl, rfl⟩ := Prod.mk.inj result
  rcases next_whenTxIdle step with rfl | ⟨n, rfl⟩
  · exact ⟨by simp, .inr ⟨rfl, rfl⟩⟩
  · exact ⟨by simp, .inl ⟨n, rfl, rfl⟩⟩

theorem quiet_event {event : Event} (emitted : EmittedBy s c k event)
    (pushes : ∀ name, k ≠ .db (.pushOffline name))
    (hands : ∀ name row rest, k ≠ .io (.pushRows name (row :: rest))) :
    event.handsOver = none ∧ ∀ c, event.startsPush c = false := by
  match event with
  | .db (.pushStarted c' name rows) => exact absurd emitted.2 (pushes name)
  | .io (.handed c' row) =>
      obtain ⟨-, name, rest, shape⟩ := emitted
      exact absurd shape (hands name row rest)
  | .own _ | .sess _ | .admitted _ _ _ => exact ⟨rfl, fun _ => rfl⟩
  | .db (.registered _ _ _) | .db (.compared _ _ _ _ _ _) | .db (.inserted _ _) =>
      exact ⟨rfl, fun _ => rfl⟩
  | .io (.acked _ _ _) | .io (.refused _ _) | .io (.relayed _ _ _) => exact ⟨rfl, fun _ => rfl⟩

/-- A step has no part in a push, or it reads the rows, hands one over, or marks one. -/
theorem push_run (ran : w.run st c e k = some (w', new)) :
    Quiet w w' new ∨
    (∃ name, k = .db (.pushOffline name) ∧ w'.server.db = w.server.db ∧
      w'.trace = w.trace ++ [.db (.pushStarted c name (w.server.db.undelivered name e.sql))] ∧
      new = [.io (.pushRows name (w.server.db.undelivered name e.sql))]) ∨
    (∃ name row rest, k = .io (.pushRows name (row :: rest)) ∧ w'.server.db = w.server.db ∧
      w'.trace = w.trace ++ [.io (.handed c row)] ∧
      new = [.db (.markDelivered name row.id rest none)]) ∨
    ∃ name id rest since, k = .db (.markDelivered name id rest since) ∧ w'.trace = w.trace ∧
      ((∃ n, w'.server.db = w.server.db ∧ new = [.db (.markDelivered name id rest (some n))]) ∨
        (w'.server.db = w.server.db.markDelivered id e.sql ∧
          new = [.io (.pushRows name rest)])) := by
  have calls := calledBy_run ran
  have quiet (pushes : ∀ name, k ≠ .db (.pushOffline name))
      (hands : ∀ name row rest, k ≠ .io (.pushRows name (row :: rest)))
      (marks : ∀ name id rest since, k ≠ .db (.markDelivered name id rest since)) :
      ∀ n ∈ new, n.push = none := by
    intro n membership
    by_contra push
    obtain ⟨push, is⟩ := Option.ne_none_iff_exists'.mp push
    rcases push_called (calls n membership) is with ⟨name, rfl⟩ | ⟨name, row, rest, rfl⟩ |
      ⟨name, id, rest, since, rfl⟩
    · exact pushes name rfl
    · exact hands name row rest rfl
    · exact marks name id rest since rfl
  cases k with
  | db k =>
      obtain ⟨r, step, result⟩ := Option.map_eq_some_iff.mp ran
      obtain ⟨rfl, rfl⟩ := Prod.mk.inj result
      by_cases pushes : ∃ name, k = .pushOffline name
      · obtain ⟨name, rfl⟩ := pushes
        obtain rfl := Option.some.inj step
        exact .inr (.inl ⟨name, rfl, rfl, rfl, rfl⟩)
      · by_cases marks : ∃ name id rest since, k = .markDelivered name id rest since
        · obtain ⟨name, id, rest, since, rfl⟩ := marks
          exact .inr (.inr (.inr ⟨name, id, rest, since, rfl, markDelivered_run ran⟩))
        · simp only [not_exists] at pushes marks
          refine .inl ⟨⟨_, rfl, ?_⟩, (offline_runDb step marks).imp_right fun ⟨_, _, _, _, adds⟩ => ⟨_, rfl, adds⟩, quiet (by simpa using pushes) (by simp)
            (by simpa using marks)⟩
          intro event membership
          obtain ⟨event, there, rfl⟩ := List.mem_map.mp membership
          exact quiet_event ((emitted_runDb step).2 event there) (by simpa using pushes) (by simp)
  | io k =>
      obtain ⟨r, step, result⟩ := Option.map_eq_some_iff.mp ran
      obtain ⟨rfl, rfl⟩ := Prod.mk.inj result
      by_cases hands : ∃ name row rest, k = .pushRows name (row :: rest)
      · obtain ⟨name, row, rest, rfl⟩ := hands
        obtain rfl := Option.some.inj step
        simp only [sendSection]
        split
        · exact .inr (.inr (.inl ⟨name, row, rest, rfl, by simp, by simp, rfl⟩))
        · exact .inl ⟨⟨[], by simp, by simp⟩, .inl rfl, by simp⟩
      · simp only [not_exists] at hands
        refine .inl ⟨⟨_, rfl, ?_⟩, .inl rfl, quiet (by simp) (by simpa using hands) (by simp)⟩
        intro event membership
        obtain ⟨event, there, rfl⟩ := List.mem_map.mp membership
        exact quiet_event ((emitted_runIo step).2 event there) (by simp) (by simpa using hands)
  | _ =>
      obtain ⟨events, trace, emitted, -⟩ := trace_run ran
      refine .inl ⟨⟨events, trace, ?_⟩, .inl ?_, quiet (by simp) (by simp) (by simp)⟩
      · intro event membership
        exact quiet_event (emitted event membership) (by simp) (by simp)
      · rw [db_run ran (by simp)]

/-! ## The rows of a push are rows of its user -/

/-- `id` is an offline row of `name`. -/
def OfflineFor (name : Bytes) (id : Int) (w : World) : Prop :=
  ∃ x, (id, x) ∈ w.server.db.offline.rows ∧ x.receiver = cStr name

/-- A push runs for a connection, on rows of its user. -/
def Addressed (t : Thread) (k : Cmd) (w : World) : Prop :=
  ∀ name ids, k.push = some (name, ids) → t.isClient = true ∧ ∀ id ∈ ids, OfflineFor name id w

/-- An offline row stays; at most it becomes delivered. -/
theorem offline_stays (ran : w.run st c e k = some (w', new)) {x : OfflineRow}
    (there : (id, x) ∈ w.server.db.offline.rows) :
    (id, x) ∈ w'.server.db.offline.rows ∨
      ((id, { x with delivered := true }) ∈ w'.server.db.offline.rows ∧
        ∃ name rest since, k = .db (.markDelivered name id rest since)) := by
  rcases push_run ran with quiet | ⟨name, -, db, -⟩ | ⟨name, row, rest, -, db, -⟩ |
    ⟨name, id', rest, since, rfl, -, ⟨n, db, -⟩ | ⟨db, -⟩⟩
  · rcases quiet.offline with same | ⟨x', -, inserted⟩
    · exact .inl (same ▸ there)
    · rw [inserted]
      exact .inl (Table.mem_rows_insert.mpr (.inl there))
  · exact .inl (db ▸ there)
  · exact .inl (db ▸ there)
  · exact .inl (db ▸ there)
  · rw [db]
    unfold Database.markDelivered
    split
    · by_cases hit : id = id'
      · subst hit
        exact .inr ⟨Table.mem_rows_update.mpr ⟨x, there, by simp⟩, name, rest, since, rfl⟩
      · exact .inl (Table.mem_rows_update.mpr ⟨x, there, by simp [hit]⟩)
    · exact .inl there

theorem OfflineFor.run (mine : OfflineFor name id w) (ran : w.run st c e k = some (w', new)) :
    OfflineFor name id w' := by
  obtain ⟨x, there, receiver⟩ := mine
  rcases offline_stays ran there with stays | ⟨marked, -⟩
  · exact ⟨x, stays, receiver⟩
  · exact ⟨_, marked, receiver⟩

/-- What a step leaves of a push: rows that it has just read, or rows of the push that
took the step. -/
theorem push_new (ran : w.run st c e k = some (w', new)) {ids : List Int} (membership : n ∈ new)
    (pushes : n.push = some (name, ids)) :
    (k = .db (.pushOffline name) ∧ ids = (w.server.db.undelivered name e.sql).map OffRow.id) ∨
      ∃ ids', k.push = some (name, ids') ∧ ids.Sublist ids' := by
  rcases push_run ran with quiet | ⟨name', rfl, -, -, rfl⟩ | ⟨name', row, rest, rfl, -, -, rfl⟩ |
    ⟨name', id', rest, since, rfl, -, ⟨n', -, rfl⟩ | ⟨-, rfl⟩⟩
  · simp [quiet.calls n membership] at pushes
  all_goals
    obtain rfl := List.mem_singleton.mp membership
    obtain ⟨rfl, rfl⟩ := Prod.mk.inj (Option.some.inj pushes)
  · exact .inl ⟨rfl, rfl⟩
  · exact .inr ⟨_, rfl, List.Sublist.refl _⟩
  · exact .inr ⟨_, rfl, List.Sublist.refl _⟩
  · exact .inr ⟨_, rfl, List.sublist_cons_self ..⟩

theorem addressed_of_run (run : (server st).Reaches When (start st file b) cfg) :
    Outlined Above (fun _ => True) Addressed cfg := by
  refine run.outlined (respects st) ?_ ?_ ?_
  · refine ⟨trivial, ?_, ?_⟩
    · intro t
      cases t <;> simp [start]
    · intro t k waiting
      cases t <;> simp_all [start, Addressed, Cmd.push]
  · intro cfg t e k rest w new _ outlined _ stack ran
    obtain ⟨here, ran⟩ := exec_eq_some_iff.mp ran
    refine ⟨trivial, ?_⟩
    intro n membership name ids pushes
    rcases push_new ran membership pushes with ⟨rfl, rfl⟩ | ⟨ids', pushes', fewer⟩
    · refine ⟨here, ?_⟩
      intro id read
      obtain ⟨row, one, rfl⟩ := List.mem_map.mp read
      obtain ⟨x, there, receiver, -⟩ := Database.mem_undelivered one
      exact OfflineFor.run ⟨x, there, receiver⟩ ran
    · obtain ⟨client, mine⟩ := outlined.pending t k (by simp [stack]) name ids' pushes'
      exact ⟨client, fun id membership => (mine id (fewer.subset membership)).run ran⟩
  · intro cfg t e k rest w new _ _ _ _ ran t' k' _ _ addressed name ids pushes
    obtain ⟨client, mine⟩ := addressed name ids pushes
    exact ⟨client, fun id membership => (mine id membership).run (exec_eq_some_iff.mp ran).2⟩

/-! ## The pushes do not overlap -/

/-- A push has the row still to hand over or to mark. -/
def Cmd.pushesRow (k : Cmd) (id : Int) : Prop :=
  ∃ name ids, k.push = some (name, ids) ∧ id ∈ ids

/-- No other connection has rows of that user left, when rows are read. -/
theorem none_pushing (started : Started cfg) (addressed : Addressed t' k' cfg.shared)
    (stack : cfg.stack t = .db (.pushOffline name) :: rest) (client : t.isClient = true)
    (allowed : pushesApart cfg t e = true) (other : t ≠ t') (pending : k' ∈ cfg.stack t')
    {name' : Bytes} {ids : List Int} (pushes : k'.push = some (name', ids)) :
    ids = [] ∨ cStr name' ≠ cStr name := by
  obtain ⟨client', -⟩ := addressed name' ids pushes
  obtain ⟨c', rfl⟩ : ∃ c', t' = .client c' := by cases t' <;> simp_all [Thread.isClient]
  have accepted : c' ≤ cfg.shared.server.sess.nextId := by
    rcases started c' k' pending with rfl | known
    · simp [Cmd.push] at pushes
    · exact known.2
  have conns : c' ≠ t.conn := by
    intro same
    exact other (Thread.eq_of_conn client client' same.symm)
  unfold pushesApart at allowed
  rw [stack] at allowed
  have none := of_allOthers allowed accepted conns
  rw [Bool.not_eq_true', List.any_eq_false] at none
  have still := none k' pending
  simp only [Cmd.pushesTo, pushes, Option.any_some, Bool.and_eq_true, decide_eq_true_eq,
    not_and] at still
  by_cases empty : ids = []
  · exact .inl empty
  · exact .inr (still empty)

/-- The pushes of two threads have no row in common. -/
theorem pushesDisjoint_of_run (run : (server st).Reaches pushesApart (start st file b) cfg) :
    Exclusive Cmd.pushesRow cfg := by
  refine run.invariant ?_ ?_
  · rintro t t' - k waiting k' - id ⟨name, ids, pushes, -⟩
    cases t <;> simp_all [start, Cmd.push]
  · intro cfg t e k rest w new reached exclusive allowed stack ran
    obtain ⟨here, ran⟩ := exec_eq_some_iff.mp ran
    have addressed := (addressed_of_run reached).pending
    apply exclusive.step stack
    rintro n membership id ⟨name, ids, pushes, one⟩
    rcases push_new ran membership pushes with ⟨rfl, rfl⟩ | ⟨all, mine, fewer⟩
    · right
      rintro t' other k' pending ⟨name', ids', pushes', one'⟩
      obtain ⟨row, read, rfl⟩ := List.mem_map.mp one
      obtain ⟨x, there, receiver, -⟩ := Database.mem_undelivered read
      obtain ⟨x', there', receiver'⟩ := (addressed t' k' pending name' ids' pushes').2 _ one'
      obtain ⟨-, rfl⟩ := Prod.mk.inj (Table.eq_of_key there there' rfl)
      rcases none_pushing (started_of_run reached) (addressed t' k' pending) stack here allowed
        (Ne.symm other) pending pushes' with rfl | differ
      · simp at one'
      · exact differ (receiver'.symm.trans receiver)
    · left
      exact ⟨name, all, mine, fewer.subset one⟩

/-- A row that has been handed over is delivered, or about to be marked. -/
def HandedCovered (cfg : Config Thread Cmd World) : Prop :=
  ∀ id ∈ cfg.shared.trace.filterMap Event.handsOver,
    (∃ x, (id, x) ∈ cfg.shared.server.db.offline.rows ∧ x.delivered = true) ∨
    ∃ t name rest since, .db (.markDelivered name id rest since) ∈ cfg.stack t

theorem handedCovered_of_run (run : (server st).Reaches pushesApart (start st file b) cfg) :
    HandedCovered cfg := by
  refine run.invariant ?_ ?_
  · simp [HandedCovered, start]
  · intro cfg t e k rest w new reached covered allowed stack ran
    have addressed := (addressed_of_run reached).pending t k (by simp [stack])
    obtain ⟨-, ran⟩ := exec_eq_some_iff.mp ran
    have old (id : Int) (handed : id ∈ cfg.shared.trace.filterMap Event.handsOver) :
        (∃ x, (id, x) ∈ w.server.db.offline.rows ∧ x.delivered = true) ∨
        ∃ t' name rows since,
          .db (.markDelivered name id rows since) ∈ Function.update cfg.stack t (new ++ rest) t' := by
      rcases covered id handed with ⟨x, there, delivered⟩ | ⟨t', name, rows, since, pending⟩
      · rcases offline_stays ran there with stays | ⟨marked, -⟩
        · exact .inl ⟨x, stays, delivered⟩
        · exact .inl ⟨_, marked, rfl⟩
      · by_cases own : t' = t
        · subst own
          rcases List.mem_cons.mp (stack ▸ pending) with rfl | below
          · obtain ⟨-, ⟨n, -, rfl⟩ | ⟨db, rfl⟩⟩ := markDelivered_run ran
            · exact .inr ⟨t', name, rows, some n, by simp⟩
            · -- the statement succeeds
              obtain ⟨x, there, -⟩ := (addressed name _ rfl).2 id (by simp)
              unfold pushesApart at allowed
              rw [stack] at allowed
              have succeeds : e.sql.prepares = true ∧ e.sql.steps = true := by
                simpa using allowed
              refine .inl ⟨{ x with delivered := true }, ?_, rfl⟩
              rw [db, Database.markDelivered, if_pos succeeds]
              exact Table.mem_rows_update.mpr ⟨x, there, by simp⟩
          · exact .inr ⟨t', name, rows, since, by simp [below]⟩
        · refine .inr ⟨t', name, rows, since, ?_⟩
          rw [Function.update_of_ne own]
          exact pending
    intro id handed
    dsimp only at handed ⊢
    rcases push_run ran with quiet | ⟨name, rfl, -, trace, -⟩ |
      ⟨name, row, rows, rfl, -, trace, rfl⟩ | ⟨name, id', rows, since, rfl, trace, -⟩
    · obtain ⟨events, trace, none⟩ := quiet.trace
      rw [trace, List.filterMap_append, List.mem_append] at handed
      rcases handed with before | now
      · exact old id before
      · obtain ⟨event, membership, hands⟩ := List.mem_filterMap.mp now
        simp [(none event membership).1] at hands
    · exact old id (by simpa [trace, Event.handsOver] using handed)
    · rw [trace, List.filterMap_append, List.mem_append] at handed
      rcases handed with before | now
      · exact old id before
      · obtain rfl : id = row.id := by simpa [Event.handsOver] using now
        exact .inr ⟨t, name, rows, none, by simp⟩
    · exact old id (trace ▸ handed)

/-! ## Each row once -/

/-- The row as it stands in the table. -/
def Genuine (row : OffRow) (w : World) : Prop :=
  ∃ x, (row.id, x) ∈ w.server.db.offline.rows ∧
    row = { id := row.id, sender := x.sender, content := x.content, ts := x.ts }

theorem Genuine.run {row : OffRow} (genuine : Genuine row w)
    (ran : w.run st c e k = some (w', new)) : Genuine row w' := by
  obtain ⟨x, there, fields⟩ := genuine
  rcases offline_stays ran there with stays | ⟨marked, -⟩
  · exact ⟨x, stays, fields⟩
  · exact ⟨_, marked, fields⟩

/-- The rows that a push still has to hand over. -/
def Cmd.rowsLeft : Cmd → Option (List OffRow)
  | .io (.pushRows _ rows) => some rows
  | .db (.markDelivered _ _ rest _) => some rest
  | _ => none

/-- A push that is on its way: what it has left are the last rows of the latest push on its
connection and were not handed over yet; what it marks was. -/
structure Pushing (t : Thread) (k : Cmd) (w : World) : Prop where
  latest : ∀ rows, k.rowsLeft = some rows → ∃ handed,
    LatestPush t.conn (handed ++ rows) handed w.trace ∧
    (handed ++ rows).Pairwise fun a b => Database.offLe a b = true
  distinct : ∀ rows, k.rowsLeft = some rows → (rows.map OffRow.id).Nodup
  unhanded : ∀ rows, k.rowsLeft = some rows → ∀ row ∈ rows,
    row.id ∉ w.trace.filterMap Event.handsOver ∧ Genuine row w
  handed : ∀ name id rest since, k = .db (.markDelivered name id rest since) →
    id ∈ w.trace.filterMap Event.handsOver

theorem push_of_rowsLeft {rows : List OffRow} (left : k.rowsLeft = some rows) :
    ∃ name ids, k.push = some (name, ids) ∧ rows.map OffRow.id ⊆ ids := by
  unfold Cmd.rowsLeft at left
  split at left
  · obtain rfl := Option.some.inj left
    exact ⟨_, _, rfl, List.Subset.refl _⟩
  · obtain rfl := Option.some.inj left
    exact ⟨_, _, rfl, List.subset_cons_self ..⟩
  · cases left

theorem layer_of_push {push : Bytes × List Int} (pushes : k.push = some push) :
    k.layer = .chain := by
  unfold Cmd.push at pushes
  split at pushes
  · rfl
  · rfl
  · cases pushes

/-- Rows that are read have not been handed over. -/
theorem read_unhanded (reached : (server st).Reaches pushesApart (start st file b) cfg)
    (stack : cfg.stack t = .db (.pushOffline name) :: rest) (client : t.isClient = true)
    (allowed : pushesApart cfg t e = true) {row : OffRow}
    (read : row ∈ cfg.shared.server.db.undelivered name e.sql) :
    row.id ∉ cfg.shared.trace.filterMap Event.handsOver := by
  intro handed
  obtain ⟨x, there, receiver, undelivered, -⟩ := Database.mem_undelivered read
  have outlined := addressed_of_run reached
  rcases handedCovered_of_run reached row.id handed with ⟨x', there', delivered⟩ |
    ⟨t', name', rows, since, pending⟩
  · obtain ⟨-, rfl⟩ := Prod.mk.inj (Table.eq_of_key there there' rfl)
    simp [undelivered] at delivered
  · have addressed := outlined.pending t' _ pending
    have other : t ≠ t' := by
      rintro rfl
      have ordered := outlined.ordered t
      rw [stack] at pending ordered
      rcases List.mem_cons.mp pending with same | below
      · cases same
      · have above := (List.pairwise_cons.mp ordered).1 _ below
        simp [Above, Cmd.layer, Layer.above] at above
    obtain ⟨x', there', receiver'⟩ := (addressed name' _ rfl).2 row.id (by simp)
    obtain ⟨-, rfl⟩ := Prod.mk.inj (Table.eq_of_key there there' rfl)
    rcases none_pushing (started_of_run reached) addressed stack client allowed other pending rfl
      with empty | differ
    · cases empty
    · exact differ (receiver'.symm.trans receiver)

theorem pushing_of_rowsLeft_eq_none (idle : k.rowsLeft = none) : Pushing t k w := by
  refine ⟨by simp [idle], by simp [idle], by simp [idle], ?_⟩
  rintro name id rest since rfl
  simp [Cmd.rowsLeft] at idle

theorem rowsLeft_eq_none (idle : k.push = none) : k.rowsLeft = none := by
  cases left : k.rowsLeft with
  | none => rfl
  | some rows =>
      obtain ⟨name, ids, pushes, -⟩ := push_of_rowsLeft left
      simp [idle] at pushes

/-- Nothing that touches a push has happened. -/
theorem Pushing.congr (pushing : Pushing t k w) (trace : w'.trace = w.trace ++ events)
    (pushes : ∀ event ∈ events, event.startsPush t.conn = false ∧ event.handsTo t.conn = none)
    (hands : ∀ rows, k.rowsLeft = some rows → ∀ row ∈ rows,
      row.id ∉ events.filterMap Event.handsOver)
    (genuine : ∀ row, Genuine row w → Genuine row w') : Pushing t k w' := by
  refine ⟨?_, pushing.distinct, ?_, ?_⟩
  · intro rows left
    obtain ⟨handed, latest, sorted⟩ := pushing.latest rows left
    have none : events.filterMap (Event.handsTo t.conn) = [] :=
      List.filterMap_eq_nil_iff.mpr fun event membership => (pushes event membership).2
    have after := latest.append fun event membership => (pushes event membership).1
    rw [none, List.append_nil] at after
    exact ⟨handed, trace ▸ after, sorted⟩
  · intro rows left row membership
    obtain ⟨unhanded, there⟩ := pushing.unhanded rows left row membership
    refine ⟨?_, genuine row there⟩
    rw [trace, List.filterMap_append, List.mem_append, not_or]
    exact ⟨unhanded, hands rows left row membership⟩
  · intro name id rest since shape
    rw [trace, List.filterMap_append]
    exact List.mem_append_left _ (pushing.handed name id rest since shape)

theorem pushing_own (reached : (server st).Reaches pushesApart (start st file b) cfg)
    (stack : cfg.stack t = k :: rest) (allowed : pushesApart cfg t e = true)
    (pushing : Pushing t k cfg.shared)
    (ran : (server st).exec t e k cfg.shared = some (w', new)) : ∀ n ∈ new, Pushing t n w' := by
  intro n membership
  obtain ⟨here, ran⟩ := exec_eq_some_iff.mp ran
  have stays (row : OffRow) (genuine : Genuine row cfg.shared) : Genuine row w' := genuine.run ran
  rcases push_run ran with quiet | ⟨name, rfl, db, trace, rfl⟩ |
    ⟨name, row, rows, rfl, db, trace, rfl⟩ | ⟨name, id, rows, since, rfl, trace, rest⟩
  · exact pushing_of_rowsLeft_eq_none (rowsLeft_eq_none (quiet.calls n membership))
  · obtain rfl := List.mem_singleton.mp membership
    refine ⟨?_, ?_, ?_, nofun⟩
    · rintro rows ⟨⟩
      refine ⟨[], ?_, Database.undelivered_sorted ..⟩
      rw [trace]
      exact ⟨_, name, [], rfl, by simp, rfl⟩
    · rintro rows ⟨⟩
      exact Database.undelivered_nodup ..
    · rintro rows ⟨⟩ row read
      obtain ⟨x, there, -, -, fields⟩ := Database.mem_undelivered read
      refine ⟨?_, stays row ⟨x, there, fields⟩⟩
      rw [trace, List.filterMap_append]
      simpa [Event.handsOver] using read_unhanded reached stack here allowed read
  · obtain rfl := List.mem_singleton.mp membership
    have distinct := pushing.distinct _ rfl
    rw [List.map_cons, List.nodup_cons] at distinct
    refine ⟨?_, ?_, ?_, ?_⟩
    · rintro rows ⟨⟩
      obtain ⟨handed, latest, sorted⟩ := pushing.latest _ rfl
      have after : LatestPush t.conn (handed ++ row :: rows) (handed ++ [row]) w'.trace := by
        have none : ∀ event ∈ [Event.io (.handed t.conn row)],
            event.startsPush t.conn = false := by simp [Event.startsPush]
        simpa [trace, Event.handsTo] using latest.append none
      refine ⟨handed ++ [row], ?_, by simpa using sorted⟩
      simpa using after
    · rintro rows ⟨⟩
      exact distinct.2
    · rintro rows ⟨⟩ row' later
      obtain ⟨unhanded, genuine⟩ := pushing.unhanded _ rfl row' (List.mem_cons_of_mem _ later)
      refine ⟨?_, stays row' genuine⟩
      have other : row'.id ≠ row.id := by
        intro same
        exact distinct.1 (same ▸ List.mem_map_of_mem later)
      rw [trace, List.filterMap_append]
      simpa [Event.handsOver, other] using unhanded
    · rintro name' id rest' since ⟨⟩
      simp [trace, Event.handsOver]
  · have same : w'.trace = cfg.shared.trace ++ [] := by simp [trace]
    have after := pushing.congr same (by simp) (by simp) stays
    rcases rest with ⟨n', -, rfl⟩ | ⟨-, rfl⟩
    · obtain rfl := List.mem_singleton.mp membership
      refine ⟨after.latest, after.distinct, after.unhanded, ?_⟩
      rintro name' id' rest' since' ⟨⟩
      exact after.handed _ _ _ _ rfl
    · obtain rfl := List.mem_singleton.mp membership
      exact ⟨after.latest, after.distinct, after.unhanded, nofun⟩

theorem pushing_other (reached : (server st).Reaches pushesApart (start st file b) cfg)
    (stack : cfg.stack t = k :: rest) (pending : k' ∈ cfg.stack t')
    (waits : Waits Above t k rest t' k') (pushing : Pushing t' k' cfg.shared)
    (ran : (server st).exec t e k cfg.shared = some (w', new)) : Pushing t' k' w' := by
  cases left : k'.rowsLeft with
  | none => exact pushing_of_rowsLeft_eq_none left
  | some rows =>
    obtain ⟨here, ran⟩ := exec_eq_some_iff.mp ran
    have stays (row : OffRow) (genuine : Genuine row cfg.shared) : Genuine row w' :=
      genuine.run ran
    obtain ⟨name', ids', pushes', some'⟩ := push_of_rowsLeft left
    obtain ⟨client', -⟩ := (addressed_of_run reached).pending t' k' pending name' ids' pushes'
    -- no push runs in front of another one
    have apart (chain : k.layer = .chain) : t ≠ t' := by
      rintro rfl
      rcases waits with other | ⟨-, above⟩
      · exact other rfl
      · simp [Above, chain, layer_of_push pushes', Layer.above] at above
    have conns (chain : k.layer = .chain) (client : t.isClient = true) : t.conn ≠ t'.conn :=
      fun same => apart chain (Thread.eq_of_conn client client' same)
    rcases push_run ran with quiet | ⟨name, rfl, -, trace, -⟩ |
      ⟨name, row, rows₀, rfl, -, trace, -⟩ | ⟨name, id, rows₀, since, rfl, trace, -⟩
    · obtain ⟨events, trace, none⟩ := quiet.trace
      refine pushing.congr trace ?_ ?_ stays
      · intro event membership
        refine ⟨(none event membership).2 _, ?_⟩
        have hands := (none event membership).1
        cases event with
        | io event => cases event <;> simp_all [Event.handsOver, Event.handsTo]
        | _ => rfl
      · intro rows _ row _ handed
        obtain ⟨event, membership, hands⟩ := List.mem_filterMap.mp handed
        simp [(none event membership).1] at hands
    · refine pushing.congr trace ?_ ?_ stays
      · simp [Event.startsPush, Event.handsTo, conns rfl here]
      · simp [Event.handsOver]
    · refine pushing.congr trace ?_ ?_ stays
      · simp [Event.startsPush, Event.handsTo, conns rfl here]
      · intro rows' left' row' membership handed
        obtain rfl : rows = rows' := Option.some.inj (left.symm.trans left')
        have same : row'.id = row.id := by simpa [Event.handsOver] using handed
        have pending' : .io (.pushRows name (row :: rows₀)) ∈ cfg.stack t := by simp [stack]
        have theirs : row.id ∈ ids' := same ▸ some' (List.mem_map_of_mem membership)
        exact pushesDisjoint_of_run reached t t' (apart rfl) _ pending' k' pending row.id
          ⟨name, _, rfl, List.mem_map_of_mem List.mem_cons_self⟩ ⟨name', ids', pushes', theirs⟩
    · exact pushing.congr (trace.trans (List.append_nil _).symm) (by simp) (by simp) stays

theorem pushedOnce_run (once : PushedOnce file w) (pushing : Pushing t k w)
    (ran : w.run st t.conn e k = some (w', new)) : PushedOnce file w' := by
  have genuine (c : ConnId) (row : OffRow) (handed : .io (.handed c row) ∈ w.trace) :
      Genuine row w' := Genuine.run (once.genuine c row handed) ran
  -- only what has been handed over is marked
  have delivered (id : Int) (x : OfflineRow) (there : (id, x) ∈ w'.server.db.offline.rows)
      (delivered : x.delivered = true) :
      id ∈ w.trace.filterMap Event.handsOver ∨
        ∃ x, (id, x) ∈ file.offline.rows ∧ x.delivered = true := by
    rcases push_run ran with quiet | ⟨name, rfl, db, -⟩ | ⟨name, row, rows, rfl, db, -⟩ |
      ⟨name, id', rows, since, rfl, -, ⟨n, db, -⟩ | ⟨db, -⟩⟩
    · rcases quiet.offline with same | ⟨x', fresh, inserted⟩
      · exact once.delivered id x (same ▸ there) delivered
      · rw [inserted, Table.mem_rows_insert] at there
        rcases there with old | new
        · exact once.delivered id x old delivered
        · obtain ⟨-, rfl⟩ := Prod.mk.inj new
          simp [fresh] at delivered
    · exact once.delivered id x (db ▸ there) delivered
    · exact once.delivered id x (db ▸ there) delivered
    · exact once.delivered id x (db ▸ there) delivered
    · rw [db, Database.markDelivered] at there
      split at there
      · obtain ⟨x₀, there₀, value⟩ := Table.mem_rows_update.mp there
        by_cases hit : id = id'
        · exact .inl (hit ▸ pushing.handed name id' rows since rfl)
        · obtain rfl : x = x₀ := by simpa [hit] using value
          exact once.delivered id x there₀ delivered
      · exact once.delivered id x there delivered
  -- a step that hands nothing over
  have hands {events : List Event} (trace : w'.trace = w.trace ++ events)
      (none : ∀ event ∈ events, event.handsOver = none) : PushedOnce file w' := by
    have same : w'.trace.filterMap Event.handsOver = w.trace.filterMap Event.handsOver := by
      rw [trace, List.filterMap_append, List.filterMap_eq_nil_iff.mpr none, List.append_nil]
    refine ⟨?_, ?_, ?_, ?_⟩
    · exact same ▸ once.once
    · rw [trace]
      apply once.ordered.append_of_forall
      intro event membership past
      match event with
      | .io (.handed c row) => cases none _ membership
      | .io (.acked _ _ _) | .io (.refused _ _) | .io (.relayed _ _ _) | .own _ | .sess _ | .db _
      | .admitted _ _ _ => trivial
    · intro c row handed
      rcases List.mem_append.mp (trace ▸ handed) with old | new
      · exact genuine c row old
      · cases none _ new
    · rw [same]
      exact delivered
  rcases push_run ran with quiet | ⟨name, rfl, -, trace, -⟩ | ⟨name, row, rows, rfl, -, trace, -⟩ |
    ⟨name, id', rows, since, rfl, trace, -⟩
  · obtain ⟨events, trace, none⟩ := quiet.trace
    exact hands trace fun event membership => (none event membership).1
  · exact hands trace (by simp [Event.handsOver])
  · obtain ⟨unhanded, there⟩ := pushing.unhanded _ rfl row List.mem_cons_self
    obtain ⟨handed, latest, sorted⟩ := pushing.latest _ rfl
    have keys : w'.trace.filterMap Event.handsOver =
        w.trace.filterMap Event.handsOver ++ [row.id] := by simp [trace, Event.handsOver]
    refine ⟨?_, ?_, ?_, ?_⟩
    · rw [keys, List.nodup_append_comm]
      exact List.nodup_cons.mpr ⟨unhanded, once.once⟩
    · rw [trace]
      apply once.ordered.concat
      exact ⟨_, handed, latest, ⟨rows, by simp⟩, sorted⟩
    · intro c row' handed'
      rcases List.mem_append.mp (trace ▸ handed') with old | new
      · exact genuine c row' old
      · obtain ⟨rfl, rfl⟩ : c = t.conn ∧ row' = row := by simpa using new
        exact Genuine.run there ran
    · intro id x there' marked
      rw [keys]
      rcases delivered id x there' marked with old | before
      · exact .inl (List.mem_append_left _ old)
      · exact .inr before
  · exact hands (trace.trans (List.append_nil _).symm) (by simp)

theorem pushing_of_run (run : (server st).Reaches pushesApart (start st file b) cfg) :
    Outlined Above (PushedOnce file) Pushing cfg := by
  refine run.outlined (respects st) ?_ ?_ ?_
  · refine ⟨⟨by simp [start], by simp [start], by simp [start], ?_⟩, ?_, ?_⟩
    · intro id x there delivered
      obtain ⟨rooms, db⟩ := db_boot st file b
      simp only [start, db] at there
      exact .inr ⟨x, there, delivered⟩
    · intro t
      cases t <;> simp [start]
    · intro t k waiting
      apply pushing_of_rowsLeft_eq_none
      cases t <;> simp_all [start, Cmd.rowsLeft]
  · intro cfg t e k rest w new reached outlined allowed stack ran
    have pushing := outlined.pending t k (by simp [stack])
    exact ⟨pushedOnce_run outlined.inv pushing (exec_eq_some_iff.mp ran).2,
      pushing_own reached stack allowed pushing ran⟩
  · intro cfg t e k rest w new reached _ _ stack ran t' k' pending waits pushing
    exact pushing_other reached stack pending waits pushing ran

/-- A row that is not handed over stays as it is for the next login. -/
theorem unhanded_stays (run : (server st).Reaches pushesApart (start st file b) cfg)
    (later : (server st).Reaches pushesApart cfg cfg') {row : Int × OfflineRow}
    (there : row ∈ cfg.shared.server.db.offline.rows)
    (unhanded : row.1 ∉ cfg'.shared.trace.filterMap Event.handsOver) :
    row ∈ cfg'.shared.server.db.offline.rows := by
  induction later with
  | refl => exact there
  | @tail cfg₁ cfg₂ reached last inductionHypothesis =>
      obtain ⟨t, e, -, fired⟩ := last
      obtain ⟨k, rest, w, new, stack, ran, rfl⟩ := (server st).fire_eq_some_iff.mp fired
      have ran := (exec_eq_some_iff.mp ran).2
      obtain ⟨events, trace, -⟩ := trace_run ran
      have before : row.1 ∉ cfg₁.shared.trace.filterMap Event.handsOver := by
        intro handed
        apply unhanded
        rw [trace, List.filterMap_append]
        exact List.mem_append_left _ handed
      rcases offline_stays ran (inductionHypothesis before) with stays | ⟨-, name, rows, since, rfl⟩
      · exact stays
      · have pushing := (pushing_of_run (run.trans reached)).pending t _
          (stack ▸ List.mem_cons_self)
        exact absurd (pushing.handed name row.1 rows since rfl) before

/-- Every run whose pushes of one user do not overlap hands each offline row over at most
once, and leaves the others as they are. -/
theorem pushedOnce_of_run (run : (server st).Reaches pushesApart (start st file b) cfg) :
    PushedOnce file cfg.shared ∧
      ∀ cfg', (server st).Reaches pushesApart cfg cfg' →
        ∀ row ∈ cfg.shared.server.db.offline.rows,
          row.1 ∉ cfg'.shared.trace.filterMap Event.handsOver →
          row ∈ cfg'.shared.server.db.offline.rows :=
  ⟨(pushing_of_run run).inv, fun _ later _ there unhanded => unhanded_stays run later there unhanded⟩

/-- A message of bob that waits for alice. -/
def heldRow : OfflineRow where
  sender := bytes "bob"
  receiver := bytes "alice"
  content := bytes "hi"
  ts := 1700000000

def heldFile : Database Unit := { Demo.file with offline := Table.insert ∅ heldRow }

/-- The login of alice on connection 1 up to the reading of her rows. -/
def readsRows : Demo.Schedule :=
  Demo.connects 1 ++ Demo.hello 1 1 ++ Demo.proves 1 1 ++ Demo.enters 1 1 ++
    Demo.steps (.client 1) 3

/-- Connection 2 takes the session over and pushes. -/
def takesOver : Demo.Schedule :=
  Demo.connects 2 ++
    Demo.receives 2 (Demo.request "AUTH" [("content", .str (PwdHash.toHex (Demo.block 1 32)))]) ++
    Demo.steps (.client 2) 2 ++ Demo.draws 2 2 ++ Demo.steps (.client 2) 4

theorem pushedOnce_of_run_takeover :
    ∃ cfg, (server Demo.startup).Reaches pushesApart (start Demo.startup heldFile {}) cfg ∧
      PushedOnce heldFile cfg.shared ∧ cfg.shared.trace.filterMap Event.handsOver = [1] := by
  obtain ⟨cfg, run, handed⟩ := Program.exists_reaches_of_play (server Demo.startup) pushesApart
    (readsRows ++ Demo.steps (.client 1) 2 ++ takesOver) (start Demo.startup heldFile {})
    (fun cfg => cfg.shared.trace.filterMap Event.handsOver = [1]) (by decide +kernel)
  exact ⟨cfg, run, (pushedOnce_of_run run).1, of_decide_eq_true handed⟩

/-- Both connections have read the row before either hands it over: it goes out twice. -/
theorem row_pushed_twice :
    ∃ cfg, (server Demo.startup).Reaches Program.always (start Demo.startup heldFile {}) cfg ∧
      ¬ PushedOnce heldFile cfg.shared := by
  obtain ⟨cfg, run, handed⟩ := Program.exists_reaches_of_play (server Demo.startup) Program.always
    (readsRows ++ takesOver ++ Demo.steps (.client 1) 1) (start Demo.startup heldFile {})
    (fun cfg => cfg.shared.trace.filterMap Event.handsOver = [1, 1]) (by decide +kernel)
  refine ⟨cfg, run, fun pushed => ?_⟩
  have once := pushed.once
  rw [of_decide_eq_true handed] at once
  simp at once

end OnlineChat
