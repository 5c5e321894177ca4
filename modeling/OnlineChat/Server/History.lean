import Mathlib.Data.Prod.Lex
import OnlineChat.Library.Paging
import OnlineChat.Server.Program

/-!
# History pages

A client reads the history of its room with `HIST`, or its inbox with `INBOX`, page by
page.  The query of a page is a keyset query by time and key, and the text of the cursor
carries that key to the next request.
-/

namespace OnlineChat

open Library MiniJson ChatServer

/-! ## The query -/

/-- A row with its key. -/
abbrev MsgRow (Call : Type) := Int × Message Call

/-- Rows are ordered by time, and by key within a second. -/
def rowKey {Call : Type} (row : MsgRow Call) : ℤ ×ₗ ℤ := toLex (row.2.ts, row.1)

theorem rowKey_lt {Call : Type} {a b : MsgRow Call} (newer : Database.newerLe a b = true)
    (apart : a.1 ≠ b.1) : rowKey b < rowKey a := by
  simp only [Database.newerLe, Bool.or_eq_true, Bool.and_eq_true, decide_eq_true_eq] at newer
  rw [rowKey, rowKey, Prod.Lex.toLex_lt_toLex]
  rcases newer with later | ⟨same, larger⟩
  · exact .inl later
  · exact .inr ⟨same.symm, by omega⟩

namespace Database

variable {Call : Type}

/-- Rows with different keys are sorted strictly. -/
theorem pairwise_newerLe {rows : List (MsgRow Call)}
    (apart : rows.Pairwise fun a b => a.1 ≠ b.1) :
    (rows.insertionSort fun a b => newerLe a b = true).Pairwise fun a b =>
      rowKey b < rowKey a := by
  have total : Std.Total fun a b : MsgRow Call => newerLe a b = true := by
    constructor
    intro a b
    simp only [newerLe, Bool.or_eq_true, Bool.and_eq_true, decide_eq_true_eq]
    omega
  have trans : IsTrans (MsgRow Call) fun a b => newerLe a b = true := by
    constructor
    intro a b c
    simp only [newerLe, Bool.or_eq_true, Bool.and_eq_true, decide_eq_true_eq]
    omega
  have sorted := List.pairwise_insertionSort (fun a b => newerLe a b = true) rows
  have perm := List.perm_insertionSort (fun a b => newerLe a b = true) rows
  have differ := (perm.pairwise_iff fun apart => Ne.symm apart).mpr apart
  apply (sorted.and differ).imp
  rintro a b ⟨newer, differ⟩
  exact rowKey_lt newer differ

/-- A query that succeeds reads the newest rows behind its cursor. -/
theorem isPage_page (db : Database Call) (p : Message Call → Bool) (cursor : Option (Int × Int))
    (limit : Nat) {e : SqlOutcome} (prepares : e.prepares = true) (whole : e.fetches = none) :
    IsPage rowKey limit (cursor.map toLex) (db.messages.rows.filter fun row => p row.2)
      (db.page p cursor limit e) := by
  simp only [page, fetched, prepares, whole, if_true]
  apply isPage_take
  · intro row
    rw [List.mem_insertionSort, List.mem_filter, List.mem_filter, Bool.and_eq_true, and_assoc]
    apply and_congr_right
    intro _
    apply and_congr_right
    intro _
    cases cursor with
    | none => simp [Behind]
    | some key =>
        simp [Behind, rowKey, Prod.Lex.toLex_lt_toLex]
  · apply pairwise_newerLe
    exact (db.messages.increasing.imp fun less => Int.ne_of_lt less).filter _

end Database

/-! ## The page as an object -/

section Frame

variable {Call : Type} (kind receiver room : Bytes) (rows : List (MsgRow Call)) (more : Bool)
  (ts : Int)

theorem fields_pageFrame : (pageFrame kind receiver room rows more ts).fields =
    (header kind serverName receiver room).fields ++
      [(bytes "content", .list (rows.reverse.map fun row => .obj (historyItem row).fields)),
        (bytes "cursor", .str (match rows.getLast? with
          | some row => formatCursor row.2.ts row.1
          | none => [])),
        (bytes "more", .num (if more then 1 else 0)), (bytes "ts", .num ts)] := by
  unfold pageFrame
  simp [header, Object.setStr, Object.setNum, Object.setObjs, Object.set]
  rfl

theorem getNum_pageFrame : (pageFrame kind receiver room rows more ts).getNum (bytes "more") =
    if more then 1 else 0 := by
  simp only [Object.getNum, fields_pageFrame]
  rfl

theorem getStr_pageFrame : (pageFrame kind receiver room rows more ts).getStr (bytes "cursor") =
    match rows.getLast? with
    | some row => formatCursor row.2.ts row.1
    | none => [] := by
  simp only [Object.getStr, fields_pageFrame]
  rfl

end Frame

/-! ## The requests of a client -/

/-- What a client reads page by page. -/
inductive Paged where
  | hist (room : Bytes) (roomId : Int)
  | inbox (name : Bytes)

namespace Paged

variable (q : Paged)

/-- The rows that belong to it. -/
def holds : Message Origin → Bool :=
  match q with
  | hist _ roomId => fun m => m.roomId = roomId
  | inbox name => fun m => m.receiver = cStr name

/-- The handler of a request. -/
def handler (obj : Object) : Cmd :=
  match q with
  | hist _ _ => .router (.doHist obj)
  | inbox _ => .db (.doInbox obj)

def kind : Bytes :=
  match q with
  | hist _ _ => bytes "HISTORY"
  | inbox _ => bytes "INBOX"

def room : Bytes :=
  match q with
  | hist room _ => room
  | inbox _ => []

/-- The user of the connection is in that room, or owns that inbox. -/
def AskedBy (c : ConnId) (s : ChatServer) : Prop :=
  match q with
  | hist room roomId =>
      s.router.userRoom (s.sess.username c) = room ∧ room ≠ [] ∧ s.router.dbId room = roomId ∧
        0 < roomId
  | inbox name => s.sess.username c = name

/-- The user asks, and a query that runs in the section succeeds. -/
def Fine (c : ConnId) (x : World × Ext) : Prop :=
  q.AskedBy c x.1.server ∧ x.2.sql.prepares = true ∧ x.2.sql.fetches = none

end Paged

/-- The sections of a request run one by one, in whatever world the other threads have
left; the last one leaves the reply. -/
inductive Handles (st : Startup) (c : ConnId) : Cmd → List (World × Ext) → Cmd → Prop where
  | last {k reply : Cmd} {w : World} {e : Ext} : (w.run st c e k).map Prod.snd = some [reply] →
      Handles st c k [(w, e)] reply
  | next {k k' reply : Cmd} {w : World} {e : Ext} {sections : List (World × Ext)} :
      (w.run st c e k).map Prod.snd = some [k'] → Handles st c k' sections reply →
      Handles st c k ((w, e) :: sections) reply

/-- A request with its cursor, the rows of the table at its query, and the reply. -/
structure Exchange where
  cursor : Bytes
  rows : List (MsgRow Origin)
  reply : Object

/-- The server handles a request while the user stays and the queries succeed. -/
def Answered (st : Startup) (c : ConnId) (q : Paged) (x : Exchange) : Prop :=
  ∃ obj sections, obj.getStr (bytes "content") = x.cursor ∧
    Handles st c (q.handler obj) sections (.io (.sendFrame c x.reply)) ∧
    (∀ section' ∈ sections, q.Fine c section') ∧
    ∀ query ∈ sections.getLast?, x.rows = query.1.server.db.messages.rows

/-- A client that passes the cursor of each page back, as long as there are more rows. -/
inductive Session (st : Startup) (c : ConnId) (q : Paged) : Bytes → List Exchange → Prop where
  | last {x : Exchange} : Answered st c q x → Session st c q x.cursor [x]
  | next {x : Exchange} {later : List Exchange} : Answered st c q x →
      x.reply.getNum (bytes "more") ≠ 0 →
      Session st c q (x.reply.getStr (bytes "cursor")) later → Session st c q x.cursor (x :: later)

/-- What the reply tells about a page of rows, newest first: its content are the rows
oldest first, `more` is 0 when no older row is there, and the cursor denotes the oldest. -/
structure Presents (q : Paged) (x : Exchange) (page : List (MsgRow Origin)) : Prop where
  genuine : ∀ row ∈ page, row ∈ x.rows ∧ q.holds row.2 = true
  sorted : page.Pairwise fun a b => rowKey b < rowKey a
  content : (bytes "content", .list (page.reverse.map fun row => .obj (historyItem row).fields)) ∈
    x.reply.fields
  more : x.reply.getNum (bytes "more") = 0 ↔
    ¬ ∃ row ∈ x.rows, q.holds row.2 = true ∧
      Behind rowKey ((parseCursor x.cursor).map toLex) row ∧ ∀ y ∈ page, rowKey row < rowKey y
  cursor : ∀ row ∈ page.getLast?,
    parseCursor (x.reply.getStr (bytes "cursor")) = some (row.2.ts, row.1)
  blank : page = [] → x.reply.getStr (bytes "cursor") = []

variable {st : Startup} {c : ConnId} {q : Paged} {x : Exchange}

/-! ## From section to section -/

/-- A section that leaves another command than the reply is not the last one. -/
theorem Handles.later {k reply : Cmd} {sections : List (World × Ext)}
    (handles : Handles st c k sections reply) (k' : Cmd)
    (leaves : ∀ w e, (w, e) ∈ sections → (w.run st c e k).map Prod.snd = some [k'])
    (differ : k' ≠ reply) :
    ∃ head sections', sections = head :: sections' ∧ Handles st c k' sections' reply := by
  cases handles with
  | @last _ _ w e ran =>
      rw [leaves w e List.mem_cons_self, Option.some.injEq, List.cons.injEq] at ran
      exact absurd ran.1 differ
  | @next _ _ _ w e sections' ran handles =>
      rw [leaves w e List.mem_cons_self, Option.some.injEq, List.cons.injEq] at ran
      obtain ⟨rfl, -⟩ := ran
      exact ⟨_, sections', rfl, handles⟩

/-- A section that sends a frame leaves nothing to be run, so it comes behind the reply. -/
theorem not_handles_sendFrame {v : ConnId} {frame : Object} {sections : List (World × Ext)}
    {reply : Cmd} : ¬ Handles st c (.io (.sendFrame v frame)) sections reply := by
  have leaves (w : World) (e : Ext) :
      (w.run st c e (.io (.sendFrame v frame))).map Prod.snd = some [] := by
    simp only [World.run, runIo, sendSection, Option.map_some, ite_self]
  intro handles
  cases handles with
  | @last _ _ w e ran | @next _ _ _ w e _ ran _ =>
      rw [leaves w e] at ran
      cases ran

theorem Handles.replies {k : Cmd} {reply : Object} {sections : List (World × Ext)}
    {answer : World → Ext → Object}
    (handles : Handles st c k sections (.io (.sendFrame c reply)))
    (leaves : ∀ w e, (w, e) ∈ sections →
      (w.run st c e k).map Prod.snd = some [.io (.sendFrame c (answer w e))]) :
    ∃ w e, sections = [(w, e)] ∧ reply = answer w e := by
  cases handles with
  | @last _ _ w e ran =>
      simp only [leaves w e List.mem_cons_self, Option.some.injEq, List.cons.injEq, and_true,
        Cmd.io.injEq, IoCmd.sendFrame.injEq, true_and] at ran
      exact ⟨w, e, rfl, ran.symm⟩
  | @next _ _ _ w e _ ran handles =>
      rw [leaves w e List.mem_cons_self, Option.some.injEq, List.cons.injEq] at ran
      obtain ⟨rfl, -⟩ := ran
      exact absurd handles not_handles_sendFrame

/-- The rows that the query of a request reads. -/
def Paged.read (q : Paged) (db : Database Origin) (cursor : Option (Int × Int)) (e : SqlOutcome) :
    List (MsgRow Origin) :=
  db.page q.holds cursor (kHistPageSize + 1) e

/-- The page of what the query reads. -/
def Paged.answer (q : Paged) (c : ConnId) (cursor : Option (Int × Int)) (w : World) (e : Ext) :
    Object :=
  let read := q.read w.server.db cursor e.sql
  pageFrame q.kind (w.server.sess.username c) q.room (read.take kHistPageSize)
    (kHistPageSize < read.length) (e.nowTs 0)

section Sections

variable {w : World} {e : Ext} {room : Bytes} {roomId : Int} {cur : Bytes}

/-- The empty cursor, or one that is accepted, as the query gets it. -/
theorem cursor_cases (accepted : cur = [] ∨ (parseCursor cur).isSome = true) :
    (cur = [] ∧ parseCursor cur = none) ∨
      (cur ≠ [] ∧ ∃ cursor, parseCursor cur = some cursor) := by
  rcases accepted with rfl | parsed
  · exact .inl ⟨rfl, rfl⟩
  · refine .inr ⟨?_, Option.isSome_iff_exists.mp parsed⟩
    rintro rfl
    cases parsed

theorem leaves_doHist {obj : Object} (fine : (Paged.hist room roomId).Fine c (w, e)) :
    (w.run st c e (.router (.doHist obj))).map Prod.snd =
      some [.router (.histRoomId room (obj.getStr (bytes "content")))] := by
  obtain ⟨⟨inRoom, notEmpty, -⟩, -⟩ := fine
  simp only [World.run, runRouter, doHist, inRoom, notEmpty, if_false, Option.map_some]

theorem leaves_histRoomId (fine : (Paged.hist room roomId).Fine c (w, e))
    (accepted : cur = [] ∨ (parseCursor cur).isSome = true) :
    (w.run st c e (.router (.histRoomId room cur))).map Prod.snd =
      some [.db (.historyPage room roomId (parseCursor cur))] := by
  obtain ⟨⟨-, -, known, positive⟩, -⟩ := fine
  simp only [World.run, runRouter, histRoomId, known, Int.not_le.mpr positive, if_false,
    Option.map_some]
  rcases cursor_cases accepted with ⟨empty, none⟩ | ⟨notEmpty, cursor, denotes⟩
  · simp only [empty, if_true]
    rfl
  · simp only [notEmpty, if_false, denotes]

theorem leaves_historyPage {cursor : Option (Int × Int)} :
    (w.run st c e (.db (.historyPage room roomId cursor))).map Prod.snd =
      some [.io (.sendFrame c ((Paged.hist room roomId).answer c cursor w e))] := by
  cases cursor <;> rfl

theorem leaves_doInbox {name : Bytes} {obj : Object} (fine : (Paged.inbox name).Fine c (w, e))
    (accepted : obj.getStr (bytes "content") = [] ∨
      (parseCursor (obj.getStr (bytes "content"))).isSome = true) :
    (w.run st c e (.db (.doInbox obj))).map Prod.snd = some [.io (.sendFrame c
      ((Paged.inbox name).answer c (parseCursor (obj.getStr (bytes "content"))) w e))] := by
  obtain ⟨rfl, -⟩ := fine
  simp only [World.run, runDb, doInbox, Option.map_some]
  rcases cursor_cases accepted with ⟨empty, none⟩ | ⟨notEmpty, cursor, denotes⟩
  · simp only [empty, if_true]
    rfl
  · simp only [notEmpty, if_false, denotes]
    rfl

/-- A request with a cursor that is accepted is answered by a page. -/
theorem answered_of_fine (fine : q.Fine c (w, e))
    (accepted : cur = [] ∨ (parseCursor cur).isSome = true) :
    Answered st c q
      { cursor := cur, rows := w.server.db.messages.rows
        reply := q.answer c (parseCursor cur) w e } := by
  have content : (⟨[(bytes "content", .str cur)]⟩ : Object).getStr (bytes "content") = cur := rfl
  cases q with
  | hist room roomId =>
      refine ⟨⟨[(bytes "content", .str cur)]⟩, [(w, e), (w, e), (w, e)], content, ?_, ?_, ?_⟩
      · apply Handles.next (leaves_doHist fine)
        rw [content]
        apply Handles.next (leaves_histRoomId fine accepted)
        exact .last leaves_historyPage
      · simpa using fine
      · simp
  | inbox name =>
      refine ⟨⟨[(bytes "content", .str cur)]⟩, [(w, e)], content, ?_, ?_, ?_⟩
      · exact .last (leaves_doInbox fine accepted)
      · simpa using fine
      · simp

end Sections

/-- Whatever answers a request with such a cursor is the page of its query. -/
theorem page_of_answered (answered : Answered st c q x)
    (accepted : x.cursor = [] ∨ (parseCursor x.cursor).isSome = true) :
    ∃ w e, q.Fine c (w, e) ∧ x.rows = w.server.db.messages.rows ∧
      x.reply = q.answer c (parseCursor x.cursor) w e := by
  obtain ⟨obj, sections, content, handles, fine, rows⟩ := answered
  rw [← content] at accepted ⊢
  cases q with
  | hist room roomId =>
      obtain ⟨_, sections₁, rfl, routed⟩ :=
        handles.later (.router (.histRoomId room _))
          (fun w e there => leaves_doHist (fine _ there)) nofun
      obtain ⟨_, sections₂, rfl, asked⟩ :=
        routed.later (.db (.historyPage room roomId _))
          (fun w e there =>
            leaves_histRoomId (fine _ (List.mem_cons_of_mem _ there)) accepted) nofun
      obtain ⟨w, e, rfl, reply⟩ := asked.replies fun w e _ => leaves_historyPage
      exact ⟨w, e, fine (w, e) (by simp), rows (w, e) (by simp), reply⟩
  | inbox name =>
      obtain ⟨w, e, rfl, reply⟩ :=
        handles.replies fun w e there => leaves_doInbox (fine _ there) accepted
      exact ⟨w, e, fine (w, e) (by simp), rows (w, e) (by simp), reply⟩

/-! ## Page by page -/

/-- The rows were sent with a positive time, and times and keys are `long long`. -/
def InRange (rows : List (MsgRow Origin)) : Prop :=
  ∀ row ∈ rows, 0 < row.2.ts ∧ row.2.ts < 2 ^ 63 ∧ row.1 < 2 ^ 63

/-- The reply to a request presents a page of the rows of its query. -/
theorem presents_of_answered (answered : Answered st c q x)
    (accepted : x.cursor = [] ∨ (parseCursor x.cursor).isSome = true) (inRange : InRange x.rows) :
    ∃ read, IsPage rowKey (kHistPageSize + 1) ((parseCursor x.cursor).map toLex)
        (x.rows.filter fun row => q.holds row.2) read ∧
      Presents q x (read.take kHistPageSize) ∧
      (x.reply.getNum (bytes "more") = 0 ↔ ¬ kHistPageSize < read.length) := by
  obtain ⟨w, e, ⟨-, prepares, whole⟩, rows, reply⟩ := page_of_answered answered accepted
  have isPage := w.server.db.isPage_page q.holds (parseCursor x.cursor) (kHistPageSize + 1)
    prepares whole
  rw [← Paged.read, ← rows] at isPage
  obtain ⟨read, taken⟩ : ∃ read, read = q.read w.server.db (parseCursor x.cursor) e.sql :=
    ⟨_, rfl⟩
  rw [← taken] at isPage
  rw [Paged.answer, ← taken] at reply
  have member (row : MsgRow Origin) (shown : row ∈ read.take kHistPageSize) :
      row ∈ x.rows ∧ q.holds row.2 = true := by
    have sound := (isPage.sound row (List.mem_of_mem_take shown)).1
    exact List.mem_filter.mp sound
  have more : x.reply.getNum (bytes "more") = 0 ↔ ¬ kHistPageSize < read.length := by
    rw [reply, getNum_pageFrame]
    by_cases longer : kHistPageSize < read.length <;> simp [longer]
  refine ⟨read, isPage, ⟨member, ?_, ?_, ?_, ?_, ?_⟩, more⟩
  · exact isPage.decreasing.sublist (List.take_sublist _ read)
  · rw [reply, fields_pageFrame]
    simp
  · rw [more, isPage.more_iff]
    simp only [List.mem_filter, and_assoc]
  · intro row last
    rw [reply, getStr_pageFrame]
    simp only [Option.mem_def] at last
    simp only [last]
    have there := (member row (List.mem_of_getLast? last)).1
    obtain ⟨positive, small, idSmall⟩ := inRange row there
    apply parseCursor_formatCursor positive small
    · rw [rows] at there
      exact (w.server.db.messages.bounded row there).1
    · exact idSmall
  · intro empty
    rw [reply, getStr_pageFrame, empty]
    rfl

theorem Session.ne_nil {cur : Bytes} {exchanges : List Exchange}
    (session : Session st c q cur exchanges) : exchanges ≠ [] := by
  cases session <;> exact List.cons_ne_nil _ _

/-- A session is a walk over the rows of the room or of the inbox. -/
theorem walk_of_session {cur : Bytes} {exchanges : List Exchange}
    (session : Session st c q cur exchanges)
    (accepted : cur = [] ∨ (parseCursor cur).isSome = true)
    (inRange : ∀ x ∈ exchanges, InRange x.rows) :
    ∃ visits more, Walk rowKey kHistPageSize ((parseCursor cur).map toLex) visits more ∧
      List.Forall₂ (fun x (visit : Visit (MsgRow Origin)) =>
        visit.1 = x.rows.filter (fun row => q.holds row.2) ∧ Presents q x visit.2)
        exchanges visits ∧
      ∀ last ∈ exchanges.getLast?, last.reply.getNum (bytes "more") = 0 → more = false := by
  induction session with
  | @last x answered =>
      obtain ⟨read, isPage, presents, more⟩ :=
        presents_of_answered answered accepted (inRange x (by simp))
      refine ⟨_, _, .last isPage, .cons ⟨rfl, presents⟩ .nil, ?_⟩
      rintro last same done
      obtain rfl := Option.some.inj same
      exact decide_eq_false (more.mp done)
  | @next x later answered unfinished session inductionHypothesis =>
      obtain ⟨read, isPage, presents, more⟩ :=
        presents_of_answered answered accepted (inRange x (by simp))
      have longer : kHistPageSize < read.length := by
        by_contra short
        exact unfinished (more.mpr short)
      have notEmpty : read.take kHistPageSize ≠ [] := by
        apply List.ne_nil_of_length_pos
        rw [List.length_take, Nat.min_eq_left longer.le]
        decide
      have oldest := List.getLast?_eq_some_getLast notEmpty
      have cursor := presents.cursor _ oldest
      obtain ⟨visits, moreAtEnd, walk, pages, ending⟩ :=
        inductionHypothesis (.inr (by rw [cursor]; rfl))
          fun x membership => inRange x (List.mem_cons_of_mem _ membership)
      rw [cursor] at walk
      refine ⟨_, moreAtEnd, .next isPage longer oldest walk, .cons ⟨rfl, presents⟩ pages, ?_⟩
      intro last same
      apply ending last
      cases later with
      | nil => exact absurd rfl session.ne_nil
      | cons => exact same

/-- The rows of the room grow with the table. -/
theorem growing_of_rows {exchanges : List Exchange} {visits : List (Visit (MsgRow Origin))}
    (same : List.Forall₂ (fun x (visit : Visit (MsgRow Origin)) =>
      visit.1 = x.rows.filter (fun row => q.holds row.2)) exchanges visits)
    (growing : exchanges.IsChain fun x y => ∀ row ∈ x.rows, row ∈ y.rows) : Growing visits := by
  induction same with
  | nil => exact .nil
  | @cons x visit exchanges visits first rest inductionHypothesis =>
      obtain ⟨next, later⟩ := List.isChain_cons.mp growing
      apply List.isChain_cons.mpr
      refine ⟨?_, inductionHypothesis later⟩
      intro rows following row there
      cases rest with
      | nil => cases following
      | @cons y visit' exchanges visits second rest =>
          obtain rfl := Option.some.inj following
          rw [first, List.mem_filter] at there
          rw [second, List.mem_filter]
          exact ⟨next y rfl row there.1, there.2⟩

/-- History paging: the replies present pages that are disjoint and strictly decreasing,
and once `more` is 0 they hold every row that was there at the first request. -/
theorem paging_of_session {exchanges : List Exchange} (session : Session st c q [] exchanges)
    (growing : exchanges.IsChain fun x y => ∀ row ∈ x.rows, row ∈ y.rows)
    (inRange : ∀ x ∈ exchanges, InRange x.rows) :
    ∃ pages : List (List (MsgRow Origin)), List.Forall₂ (Presents q) exchanges pages ∧
      pages.flatten.Pairwise (fun a b => rowKey b < rowKey a) ∧
      ∀ first ∈ exchanges.head?, ∀ last ∈ exchanges.getLast?,
        last.reply.getNum (bytes "more") = 0 →
        ∀ row ∈ first.rows, q.holds row.2 = true → pages.flatten.count row = 1 := by
  obtain ⟨visits, more, walk, pages, ending⟩ := walk_of_session session (.inl rfl) inRange
  have flatten : (visits.map Prod.snd).flatten = shown visits := List.flatMap_def.symm
  refine ⟨visits.map Prod.snd, ?_, ?_, ?_⟩
  · rw [List.forall₂_map_right_iff]
    exact pages.imp fun _ _ both => both.2
  · rw [flatten]
    exact walk.decreasing
  · intro first head last atEnd done row there held
    rw [flatten]
    have once : (shown visits).Nodup := walk.decreasing.imp fun less same => by
      rw [same] at less
      exact lt_irrefl _ less
    apply List.count_eq_one_of_mem once
    have grows := growing_of_rows (pages.imp fun _ _ both => both.1) growing
    cases pages with
    | nil => cases head
    | @cons x visit exchanges visits both pages =>
        obtain rfl := Option.some.inj head
        refine walk.covers (ending last atEnd done) grows visit rfl row ?_ ?_
        · rw [both.1, List.mem_filter]
          exact ⟨there, held⟩
        · intro k given
          cases given

namespace Demo

/-- 51 messages of one second in the lobby, where alice is on connection 1. -/
def crowded : World where
  server :=
    { boot startup file {} with
      sess := { username := fun _ => bytes "alice" }
      router := ((boot startup file {}).router.join (bytes "alice") (bytes "lobby")).2
      db :=
        { messages := (List.range 51).foldl (fun messages _ => messages.insert
            (Database.roomMessage 1 (bytes "alice") (bytes "hi") 100 none)) ∅ } }

def lobbyPages : Paged := .hist (bytes "lobby") 1

/-- The request with that cursor and its reply. -/
def asks (cursor : Bytes) : Exchange where
  cursor := cursor
  rows := crowded.server.db.messages.rows
  reply := lobbyPages.answer 1 (parseCursor cursor) crowded {}

end Demo

/-- The 51st row is behind the cursor of a row of the same second. -/
theorem paging_of_session_ties :
    ∃ pages : List (List (MsgRow Origin)),
      List.Forall₂ (Presents Demo.lobbyPages)
        [Demo.asks [], Demo.asks (formatCursor 100 2)] pages ∧
      pages.flatten.Pairwise (fun a b => rowKey b < rowKey a) ∧
      ∀ row ∈ Demo.crowded.server.db.messages.rows, pages.flatten.count row = 1 := by
  have fine : Demo.lobbyPages.Fine 1 (Demo.crowded, {}) := by
    refine ⟨⟨?_, ?_, ?_, ?_⟩, rfl, rfl⟩ <;> decide +kernel
  have parsed : parseCursor (formatCursor 100 2) = some (100, 2) :=
    parseCursor_formatCursor (by decide) (by decide) (by decide) (by decide)
  have first : Answered Demo.startup 1 Demo.lobbyPages (Demo.asks []) :=
    answered_of_fine fine (.inl rfl)
  have second : Answered Demo.startup 1 Demo.lobbyPages (Demo.asks (formatCursor 100 2)) :=
    answered_of_fine fine (.inr (by rw [parsed]; rfl))
  have more : (Demo.asks []).reply.getNum (bytes "more") = 1 := by
    rw [Demo.asks, Paged.answer, getNum_pageFrame]
    decide +kernel
  have done : (Demo.asks (formatCursor 100 2)).reply.getNum (bytes "more") = 0 := by
    rw [Demo.asks, parsed, Paged.answer, getNum_pageFrame]
    decide +kernel
  have cursor : (Demo.asks []).reply.getStr (bytes "cursor") = formatCursor 100 2 := by
    have oldest : ((Demo.lobbyPages.read Demo.crowded.server.db none {}).take
        kHistPageSize).getLast?.map (fun row => (row.2.ts, row.1)) = some (100, 2) := by
      decide +kernel
    obtain ⟨row, last, key⟩ := Option.map_eq_some_iff.mp oldest
    have none : parseCursor [] = none := rfl
    rw [Demo.asks, none, Paged.answer, getStr_pageFrame]
    simp only [last]
    rw [(Prod.mk.inj key).1, (Prod.mk.inj key).2]
  have session : Session Demo.startup 1 Demo.lobbyPages []
      [Demo.asks [], Demo.asks (formatCursor 100 2)] := by
    refine .next first (by rw [more]; decide) ?_
    rw [cursor]
    exact .last second
  have table : ∀ row ∈ Demo.crowded.server.db.messages.rows,
      Demo.lobbyPages.holds row.2 = true ∧ 0 < row.2.ts ∧ row.2.ts < 2 ^ 63 ∧
        row.1 < 2 ^ 63 := by
    decide +kernel
  have inRange (cursor : Bytes) : InRange (Demo.asks cursor).rows :=
    fun row there => (table row there).2
  obtain ⟨pages, presents, decreasing, covers⟩ :=
    paging_of_session session (by simp [Demo.asks]) (by simp [inRange])
  refine ⟨pages, presents, decreasing, ?_⟩
  intro row there
  exact covers _ rfl _ rfl done row there (table row there).1

end OnlineChat
