import OnlineChat.Client.Json
import OnlineChat.Client.Pending

/-!
# What the client writes is what the server reads

The frames of a session go through `json.dumps`, the stream of the socket, the frame
reader of the server and its parser.  However the stream is cut, the server gets the
messages that were sent, in that order and with the same fields.
-/

namespace OnlineChat.Client

open Library MiniJson ChatSession

/-! ## The value that the server reads -/

mutual

/-- What the parser of the server makes of a value.  It knows no `true` and no `false`, and
what it makes of a float is left open. -/
def readValue : PyValue → Option Value
  | .none => some (.str [])
  | .bool _ | .float _ => none
  | .int n => some (.num n)
  | .str s => some (.str s)
  | .list items => (readItems items).map .list
  | .dict fields => (readFields fields).map fun members => .obj (collect members).fields

def readItems : List PyValue → Option (List Value)
  | [] => some []
  | v :: vs => (readValue v).bind fun x => (readItems vs).map (x :: ·)

def readFields : List (Bytes × PyValue) → Option (List (Bytes × Value))
  | [] => some []
  | (k, v) :: fields => (readValue v).bind fun x => (readFields fields).map ((k, x) :: ·)

end

def PyValue.readable (v : PyValue) : Bool := (readValue v).isSome

variable {floats : FloatText}

mutual

theorem denotes_dumps (v : PyValue) {x : Value} (reads : readValue v = some x) :
    Denotes (dumps floats v) x := by
  match v with
  | .none =>
      obtain rfl := Option.some.inj reads
      have word : bytes "null" = [110, 117, 108, 108] := by decide
      rw [dumps, dumpsWith, word]
      exact .null
  | .bool _ | .float _ => cases reads
  | .int n =>
      obtain rfl := Option.some.inj reads
      exact .num (number_toDecimal n)
  | .str s =>
      obtain rfl := Option.some.inj reads
      rw [dumps, dumpsWith, encodeBasestring_eq]
      exact .str (chars_escapeString s)
  | .list [] =>
      obtain rfl := Option.some.inj reads
      exact .emptyList (w := []) (List.forall_mem_nil _)
  | .list (v :: vs) =>
      obtain ⟨items, inside, rfl⟩ := Option.map_eq_some_iff.mp reads
      exact .list (items_dumpsItems (v :: vs) inside (by simp))
  | .dict [] =>
      obtain rfl := Option.some.inj reads
      exact .emptyObj (w := []) (List.forall_mem_nil _)
  | .dict (field :: fields) =>
      obtain ⟨members, inside, rfl⟩ := Option.map_eq_some_iff.mp reads
      exact .obj (members_dumpsFields (field :: fields) inside (by simp))

theorem items_dumpsItems (items : List PyValue) {xs : List Value}
    (reads : readItems items = some xs) (nonempty : items ≠ []) :
    Items (dumpsItems floats [44] [58] items) xs := by
  have none : Blank [] := List.forall_mem_nil _
  match items, nonempty with
  | v :: vs, _ =>
      obtain ⟨x, first, reads⟩ := Option.bind_eq_some_iff.mp reads
      obtain ⟨xs, later, rfl⟩ := Option.map_eq_some_iff.mp reads
      match vs with
      | [] =>
          obtain rfl := Option.some.inj later
          have last := Items.last none (denotes_dumps v first) none
          rwa [List.append_nil] at last
      | next :: vs =>
          have others := items_dumpsItems (next :: vs) later (by simp)
          rw [dumpsItems_cons]
          exact .cons none (denotes_dumps v first) none others

theorem members_dumpsFields (fields : Frame) {members : List (Bytes × Value)}
    (reads : readFields fields = some members) (nonempty : fields ≠ []) :
    Members (dumpsFields floats [44] [58] fields) members := by
  match fields, nonempty with
  | (k, v) :: fields, _ =>
      obtain ⟨x, first, reads⟩ := Option.bind_eq_some_iff.mp reads
      obtain ⟨members, later, rfl⟩ := Option.map_eq_some_iff.mp reads
      have member := member_quote k (denotes_dumps v first)
      rw [← encodeBasestring_eq] at member
      match fields with
      | [] =>
          obtain rfl := Option.some.inj later
          exact .last member
      | next :: fields =>
          have others := members_dumpsFields (next :: fields) later (by simp)
          have all := Members.cons member others
          rw [List.append_assoc] at all
          rw [dumpsFields_cons]
          exact all

end

/-! ## The fields of a message -/

/-- The text of a value, if it is one. -/
def PyValue.text : PyValue → Bytes
  | .str s => s
  | _ => []

/-- The object has the fields of the message; a number is read modulo 2^64. -/
structure Msg.ReadAs (m : Msg) (o : Object) : Prop where
  type : o.getStr (bytes "type") = m.type.text
  sender : o.getStr (bytes "from") = m.sender
  receiver : o.getStr (bytes "to") = m.receiver
  room : o.getStr (bytes "room") = m.room
  content : o.getStr (bytes "content") = m.content.text
  ver : o.getNum (bytes "ver") = wrap64 m.ver
  ts : o.getNum (bytes "ts") = wrap64 m.ts
  seq : o.getNum (bytes "seq") = wrap64 m.seq

/-- What the parser makes of a message. -/
def Msg.object (m : Msg) (content : Value) : Object :=
  ⟨[(bytes "ver", .num (wrap64 m.ver)), (bytes "type", .str m.type.text),
    (bytes "from", .str m.sender), (bytes "to", .str m.receiver), (bytes "room", .str m.room),
    (bytes "content", content), (bytes "ts", .num (wrap64 m.ts)),
    (bytes "seq", .num (wrap64 m.seq))]⟩

theorem asStr_wrapped {v : PyValue} {x : Value} (reads : readValue v = some x) :
    x.wrapped.asStr = v.text := by
  cases v with
  | bool b | float f => cases reads
  | none | int n | str s =>
      obtain rfl := Option.some.inj reads
      rfl
  | list items | dict fields =>
      obtain ⟨inside, -, rfl⟩ := Option.map_eq_some_iff.mp reads
      rfl

theorem names_distinct : ([bytes "ver", bytes "type", bytes "from", bytes "to", bytes "room",
    bytes "content", bytes "ts", bytes "seq"] : List Bytes).Nodup := by
  decide +kernel

theorem names_object (m : Msg) (content : Value) :
    ((m.object content).fields.map Prod.fst).Nodup := names_distinct

theorem readAs_object {m : Msg} {x : Value} (reads : readValue m.content = some x) :
    m.ReadAs (m.object x.wrapped) := by
  have str {k : Bytes} (v : Value) (there : (k, v) ∈ (m.object x.wrapped).fields) :
      (m.object x.wrapped).getStr k = v.asStr := Object.getStr_of_mem (names_object m _) there
  have num {k : Bytes} (n : Int) (there : (k, .num n) ∈ (m.object x.wrapped).fields) :
      (m.object x.wrapped).getNum k = n := Object.getNum_of_mem (names_object m _) there
  exact
    { type := str (.str m.type.text) (by simp [Msg.object])
      sender := str (.str m.sender) (by simp [Msg.object])
      receiver := str (.str m.receiver) (by simp [Msg.object])
      room := str (.str m.room) (by simp [Msg.object])
      content := (str x.wrapped (by simp [Msg.object])).trans (asStr_wrapped reads)
      ver := num (wrap64 m.ver) (by simp [Msg.object])
      ts := num (wrap64 m.ts) (by simp [Msg.object])
      seq := num (wrap64 m.seq) (by simp [Msg.object]) }

/-- The body of a message. -/
def Msg.body (floats : FloatText) (m : Msg) : Bytes := dumps floats (.dict m.dict)

/-- The parser reads the fields of a message. -/
theorem parse_body {m : Msg} (readable : m.content.readable = true) :
    ∃ o, parse (m.body floats) = .ok o ∧ m.ReadAs o := by
  obtain ⟨x, reads⟩ := Option.isSome_iff_exists.mp readable
  let members : List (Bytes × Value) :=
    [(bytes "ver", .num m.ver), (bytes "type", .str m.type.text), (bytes "from", .str m.sender),
      (bytes "to", .str m.receiver), (bytes "room", .str m.room), (bytes "content", x),
      (bytes "ts", .num m.ts), (bytes "seq", .num m.seq)]
  have inside : readFields m.dict = some members := by
    simp [Msg.dict, readFields, readValue, reads, members]
  have apart : (members.map Prod.fst).Nodup := names_distinct
  have denotes : Denotes (m.body floats) (.obj (Object.mk members).fields) := by
    have object : readValue (.dict m.dict) = some (.obj members) := by
      rw [readValue, inside, Option.map_some, collect_of_nodup apart]
    exact denotes_dumps _ object
  have none : Blank [] := List.forall_mem_nil _
  have document := Document.object none denotes none
  rw [List.nil_append, List.append_nil] at document
  refine ⟨m.object x.wrapped, ?_, readAs_object reads⟩
  rw [parse_of_document document]
  rfl

/-! ## The values that are sent back -/

/-- The value that a command puts into a frame, if it is none of the session's own texts. -/
def Cmd.readable : Cmd → Bool
  | .fetch _ cursor _ | .startFetch _ cursor _ => cursor.readable
  | .request r | .sendRequest r _ => r.content.readable
  | _ => true

def Readable (commands : List Cmd) : Prop := ∀ k ∈ commands, k.readable = true

/-- The token and the cursor. -/
structure ChatSession.Readable (s : ChatSession) : Prop where
  token : s.tokens.token.readable = true
  cursor : s.histCursor.readable = true

/-- The token or the cursor of a frame. -/
def Frame.readable (f : Frame) : Bool :=
  match f.kind with
  | .authOk => (f.get "content" (.str [])).readable
  | .history => (f.get "cursor" (.str [])).readable
  | _ => true

def Received.readable : Received → Bool
  | .frame f => f.readable
  | _ => true

/-- The cursor that a caller passes. -/
def Call.readable : Call → Bool
  | .fetchHistory cursor _ | .fetchInbox cursor _ => cursor.readable
  | _ => true

def Ext.readable (e : Ext) : Bool := e.receives.readable && e.call.readable

variable {st : Settings} {e : Ext} {s : ChatSession} {k : Cmd} {sock : Socket} {f : Frame}

theorem Readable.map {g : Int → Cmd} (readable : ∀ x, (g x).readable = true) (items : List Int) :
    Readable (items.map g) := by
  intro n there
  obtain ⟨x, -, rfl⟩ := List.mem_map.mp there
  exact readable x

theorem readable_next (raised : PyError) : Readable raised.next := by
  cases raised <;> simp [Readable, PyError.next, Cmd.readable]

theorem readable_str (text : Bytes) : (PyValue.str text).readable = true := rfl

theorem readable_handleErr (code : Int) (readable : s.Readable) :
    (s.handleErr st sock code).1.Readable ∧ Readable (s.handleErr st sock code).2 := by
  unfold handleErr
  split
  · exact ⟨⟨rfl, readable.cursor⟩, by simp [Readable, Cmd.readable, Request.content, readable_str]⟩
  · split <;> exact ⟨readable, by simp [Readable, Cmd.readable]⟩

theorem readable_answerChallenge (f : Frame) : Readable (answerChallenge st sock f) := by
  unfold answerChallenge
  split
  · simp [Readable, Cmd.readable]
  · dsimp only
    split
    · simp [Readable, Cmd.readable, Request.content, readable_str]
    · simp [Readable, Cmd.readable]
    next raised _ _ => exact readable_next raised

theorem readable_handleMessage (f : Frame) : Readable (handleMessage sock f) := by
  unfold handleMessage
  split
  · exact readable_next _
  · dsimp only
    split
    · exact readable_next _
    · simp [Readable, Cmd.readable]

theorem readable_dispatch (readable : s.Readable) (frame : f.readable = true) :
    (s.dispatch st sock f).1.Readable ∧ Readable (s.dispatch st sock f).2 := by
  have again : Readable [.recvLoop sock] := by simp [Readable, Cmd.readable]
  unfold Frame.readable at frame
  unfold dispatch
  cases kind : f.kind with
  | ack | nack =>
      dsimp only
      split
      · split
        · exact ⟨⟨readable.token, readable.cursor⟩, by simp [Readable, Cmd.readable]⟩
        · exact ⟨readable, again⟩
      · exact ⟨readable, again⟩
      next raised _ _ => exact ⟨readable, readable_next raised⟩
  | err =>
      dsimp only
      split
      next code _ => exact readable_handleErr code readable
      next raised _ => exact ⟨readable, readable_next raised⟩
  | challenge => exact ⟨readable, readable_answerChallenge f⟩
  | authOk =>
      rw [kind] at frame
      dsimp only
      split
      · exact ⟨⟨frame, readable.cursor⟩, by simp [Readable, Cmd.readable]⟩
      next raised _ => exact ⟨⟨frame, readable.cursor⟩, readable_next raised⟩
  | joinOk => exact ⟨⟨readable.token, rfl⟩, by simp [Readable, Cmd.readable, readable_str]⟩
  | leaveOk => exact ⟨⟨readable.token, rfl⟩, again⟩
  | history =>
      rw [kind] at frame
      refine ⟨⟨readable.token, ?_⟩, again⟩
      simp only [handleHistory, if_true]
      split
      · exact frame
      · rfl
  | inbox => exact ⟨⟨readable.token, readable.cursor⟩, again⟩
  | message => exact ⟨readable, readable_handleMessage f⟩
  | system =>
      dsimp only
      split
      · exact ⟨readable, again⟩
      · exact ⟨readable, readable_next .typeError⟩
  | _ => exact ⟨readable, again⟩

/-- What a command leaves goes on with readable values. -/
theorem readable_run (readable : s.Readable) (here : k.readable = true)
    (answers : e.readable = true) :
    (run st e s k).1.Readable ∧ Readable (run st e s k).2 := by
  obtain ⟨received, call⟩ := Bool.and_eq_true_iff.mp answers
  cases k with
  | recvFrame sock =>
      simp only [run, ChatSession.recvFrame]
      split
      next raised _ => exact ⟨readable, readable_next raised⟩
      next => exact ⟨⟨readable.token, readable.cursor⟩, readable_next .attributeError⟩
      next f frame =>
        rw [frame] at received
        exact readable_dispatch ⟨readable.token, readable.cursor⟩ received
  | request r =>
      refine ⟨⟨readable.token, readable.cursor⟩, List.forall_mem_singleton.mpr ?_⟩
      exact here
  | sendRequest r seq =>
      simp only [run, sendRequest]
      rw [sendFrame_eq]
      refine ⟨⟨readable.token, readable.cursor⟩, ?_⟩
      split
      · cases r <;> simp [Request.sent, Readable, Cmd.readable]
      · cases r <;> simp [Request.failed, Readable, Cmd.readable]
  | trySendItem seq =>
      simp only [run, trySendItem]
      rw [sendFrame_eq]
      split
      · exact ⟨⟨readable.token, readable.cursor⟩, by simp [Readable, Cmd.readable]⟩
      · split <;> exact ⟨⟨readable.token, readable.cursor⟩, by simp [Readable, Cmd.readable]⟩
  | idle =>
      simp only [run, idle, fetchOlder]
      unfold Call.readable at call
      cases called : e.call with
      | fetchOlder =>
          dsimp only
          split
          · exact ⟨readable, by simp [Readable, Cmd.readable, readable.cursor]⟩
          · exact ⟨readable, by simp [Readable, Cmd.readable]⟩
      | fetchHistory cursor position | fetchInbox cursor position =>
          rw [called] at call
          exact ⟨readable, by simpa [Readable, Cmd.readable] using call⟩
      | joinRoom room =>
          exact ⟨⟨readable.token, rfl⟩,
            by simp [Readable, Cmd.readable, Request.content, readable_str]⟩
      | stop =>
          exact ⟨⟨readable.token, readable.cursor⟩,
            by simp [Readable, Cmd.readable, Request.content, readable_str]⟩
      | _ =>
          exact ⟨readable, by simp [Readable, Cmd.readable, Request.content, readable_str]⟩
  | authenticate sock =>
      simp only [run, authenticate]
      refine ⟨readable, ?_⟩
      split_ifs <;>
        simp [Readable, Cmd.readable, Request.content, readable_str, readable.token]
  | fetch page cursor position =>
      simp only [run, fetch]
      refine ⟨readable, ?_⟩
      split_ifs
      · simp [Readable]
      · exact List.forall_mem_singleton.mpr here
  | startFetch page cursor position =>
      exact ⟨⟨readable.token, readable.cursor⟩, List.forall_mem_singleton.mpr here⟩
  | heartbeatLoop =>
      simp only [run, heartbeatLoop]
      split_ifs <;> exact ⟨⟨readable.token, readable.cursor⟩,
        by simp [Readable, Cmd.readable, Request.content, readable_str]⟩
  | restoreRoom room =>
      simp only [run, restoreRoom]
      split_ifs
      · exact ⟨⟨readable.token, rfl⟩, by simp [Readable, Cmd.readable, readable_str]⟩
      · exact ⟨readable, by simp [Readable]⟩
  | retryItem _ _ | checkDead _ | resend _ _ | connLoop | recvLoop _ | connLost | flushItem _
  | failItem _ =>
      simp only [run, retryItem, checkDead, resend, connLoop, recvLoop, connLost, flushItem,
        failItem]
      split_ifs <;> exact ⟨⟨readable.token, readable.cursor⟩, by simp [Readable, Cmd.readable]⟩
  | retransmit now =>
      refine ⟨readable, ?_⟩
      intro n there
      rcases List.mem_append.mp there with resent | last
      · exact Readable.map (fun _ => rfl) _ n resent
      · rw [List.mem_singleton.mp last]
        rfl
  | retryFailed _ | flushPending | failSending => exact ⟨readable, .map (fun _ => rfl) _⟩
  | _ =>
      exact ⟨⟨readable.token, readable.cursor⟩,
        by simp [run, send, add, update, install, Readable, Cmd.readable]⟩

/-! ## The frames of a run -/

/-- The messages that were written to a socket, in their order. -/
def sentOn (sock : Socket) (trace : List Event) : List Msg :=
  trace.filterMap fun
    | .wrote sock' m => if sock' = sock then some m else none
    | _ => none

theorem mem_sentOn {trace : List Event} {m : Msg} :
    m ∈ sentOn sock trace ↔ .wrote sock m ∈ trace := by
  unfold sentOn
  rw [List.mem_filterMap]
  constructor
  · rintro ⟨x, there, wrote⟩
    cases x with
    | wrote sock' m' =>
        obtain ⟨rfl, rfl⟩ : sock' = sock ∧ m' = m := by simpa using wrote
        exact there
    | _ => simp at wrote
  · intro there
    exact ⟨_, there, if_pos rfl⟩

/-- Every message comes from the user and carries a readable value. -/
def Legible (st : Settings) (trace : List Event) : Prop :=
  ∀ sock m, .wrote sock m ∈ trace → m.sender = st.username ∧ m.content.readable = true

theorem legible_run (here : k.readable = true) (legible : Legible st s.trace) :
    Legible st (run st e s k).1.trace := by
  intro sock m there
  rcases mem_trace_run.mp there with old | new
  · exact legible sock m old
  · cases k with
    | trySendItem seq =>
        simp only [Cmd.events] at new
        split at new
        · cases new
        · obtain ⟨sock', -, -, same⟩ := mem_written.mp new
          obtain ⟨-, rfl⟩ := Event.wrote.inj same
          exact ⟨rfl, rfl⟩
    | sendRequest r seq =>
        obtain ⟨sock', -, -, same⟩ := mem_written.mp new
        obtain ⟨-, rfl⟩ := Event.wrote.inj same
        exact ⟨rfl, here⟩
    | recvFrame sock' =>
        simp only [Cmd.events] at new
        split at new <;> simp at new
    | add _ | remove _ => simp [Cmd.events] at new
    | _ => cases new

/-- The steps in which everything that comes back is readable. -/
def readableSteps (_ : Config Thread Cmd ChatSession) (_ : Thread) (e : Ext) : Bool := e.readable

theorem legible_of_run {file : PendingFile} {tokens : TokenStore}
    {c : Config Thread Cmd ChatSession} (token : tokens.token.readable = true)
    (run : (client st).Reaches readableSteps (start file tokens) c) :
    Legible st c.shared.trace := by
  have all : c.shared.Readable ∧ (∀ t, Readable (c.stack t)) ∧ Legible st c.shared.trace := by
    apply run.invariant (motive := fun c =>
      c.shared.Readable ∧ (∀ t, Readable (c.stack t)) ∧ Legible st c.shared.trace)
    · refine ⟨⟨token, rfl⟩, ?_, ?_⟩
      · intro t
        cases t <;> simp [start, Thread.main, Readable, Cmd.readable]
      · intro sock m there
        simp [start, ChatSession.load] at there
    · rintro c₁ t e k rest s new - ⟨readable, queues, legible⟩ allowed stack ran
      obtain ⟨rfl, rfl⟩ := run_of_exec ran
      have pending := queues t
      rw [stack] at pending
      have here := pending k (List.mem_cons_self ..)
      obtain ⟨after, fresh⟩ := @readable_run st _ _ _ readable here allowed
      refine ⟨after, ?_, legible_run here legible⟩
      intro t' n there
      by_cases same : t' = t
      · subst same
        simp only [Function.update_self] at there
        rcases List.mem_append.mp there with first | below
        · exact fresh n first
        · exact pending n (List.mem_cons_of_mem _ below)
      · exact queues t' n (by simpa [same] using there)
  exact all.2.2

theorem sendFrame_eq_ok {obj : Frame} {frame : Bytes} (sent : sendFrame floats obj = .ok frame) :
    (dumps floats (.dict obj)).length ≤ kMaxFrame ∧
      frame = makeWireFrame (dumps floats (.dict obj)) := by
  unfold sendFrame at sent
  dsimp only at sent
  split at sent
  · cases sent
  next short => exact ⟨Nat.not_lt.mp short, (Except.ok.inj sent).symm⟩

/-- The frames of messages that `send_frame` accepts. -/
theorem frames_of_mapM {ms : List Msg} {frames : List Bytes}
    (sent : ms.mapM (fun m => sendFrame floats m.dict) = .ok frames) :
    (∀ m ∈ ms, (m.body floats).length ≤ kMaxFrame) ∧
      frames = (ms.map (Msg.body floats)).map makeWireFrame := by
  induction ms generalizing frames with
  | nil =>
      obtain rfl := Except.ok.inj sent
      simp
  | cons m ms inductionHypothesis =>
      rw [List.mapM_cons] at sent
      cases first : sendFrame floats m.dict with
      | error raised =>
          rw [first] at sent
          cases sent
      | ok frame =>
          cases others : ms.mapM (fun m => sendFrame floats m.dict) with
          | error raised =>
              rw [first, others] at sent
              cases sent
          | ok later =>
              rw [first, others] at sent
              obtain rfl : frame :: later = frames := Except.ok.inj sent
              obtain ⟨short, rfl⟩ := sendFrame_eq_ok first
              obtain ⟨shorter, rfl⟩ := inductionHypothesis others
              exact ⟨List.forall_mem_cons.mpr ⟨short, shorter⟩, rfl⟩

/-- Nothing is left of a stream that has arrived as a whole. -/
theorem later_eq_nil {later : List Bytes} {part : Bytes}
    (whole : part = later.flatMap makeWireFrame)
    (normal : part = [] ∨ ∃ body others, later = body :: others ∧
      part.length < (makeWireFrame body).length) : later = [] := by
  cases later with
  | nil => rfl
  | cons body others =>
      have size := congrArg List.length whole
      rw [List.flatMap_cons, List.length_append] at size
      rcases normal with rfl | ⟨body', others', same, less⟩
      · rw [length_makeWireFrame, List.length_nil] at size
        omega
      · obtain ⟨rfl, rfl⟩ := List.cons.inj same
        omega

/-- The frames that have arrived are read as the messages that were sent first. -/
theorem reads_of_starts {ms : List Msg} (legible : ∀ m ∈ ms, m.content.readable = true)
    (short : ∀ m ∈ ms, (m.body floats).length ≤ kMaxFrame) {chunks : List Bytes}
    (arrived : chunks.flatten <+: (ms.map (Msg.body floats)).flatMap makeWireFrame) :
    ∃ seen later, ms = seen ++ later ∧
      List.Forall₂ (fun body m => ∃ o, parse body = .ok o ∧ m.ReadAs o)
        (({} : FrameReader).feedAll chunks).1 seen ∧
      (({} : FrameReader).feedAll chunks).2.failed = false ∧
      (chunks.flatten = (ms.map (Msg.body floats)).flatMap makeWireFrame → later = []) := by
  obtain ⟨r, drains, failed, -⟩ := FrameReader.drains_feedAll (r := {}) chunks rfl
  have bodies : ∀ body ∈ ms.map (Msg.body floats), body.length ≤ kMaxFrame := by simpa using short
  obtain ⟨full, later, part, split, start, normal, read⟩ :=
    FrameReader.readAll_eq_of_starts bodies arrived
  have whole : ({} : FrameReader).feed chunks.flatten = { buf := chunks.flatten } := rfl
  have all := FrameReader.readAll_eq_iff.mpr drains
  rw [whole, read] at all
  obtain ⟨taken, left⟩ := Prod.mk.inj all
  obtain ⟨seen, others, rfl, rfl, rest⟩ := List.map_eq_append_iff.mp split
  refine ⟨seen, others, rfl, ?_, ?_, ?_⟩
  · rw [← taken, List.forall₂_map_left_iff, List.forall₂_same]
    intro m there
    exact parse_body (legible m (List.mem_append_left _ there))
  · rw [← failed, ← left]
  · intro complete
    rw [start, split, List.flatMap_append] at complete
    have none := later_eq_nil (List.append_cancel_left complete) normal
    exact List.map_eq_nil_iff.mp (rest.trans none)

/-- The server reads what a session has written. -/
theorem read_of_run {file : PendingFile} {tokens : TokenStore} {c : Config Thread Cmd ChatSession}
    (token : tokens.token.readable = true)
    (run : (client st).Reaches readableSteps (start file tokens) c) (floats : FloatText)
    (sock : Socket) {frames chunks : List Bytes}
    (sent : (sentOn sock c.shared.trace).mapM (fun m => sendFrame floats m.dict) = .ok frames)
    (arrived : chunks.flatten <+: frames.flatten) :
    ∃ seen later, sentOn sock c.shared.trace = seen ++ later ∧
      (∀ m ∈ seen, m.sender = st.username) ∧
      List.Forall₂ (fun body m => ∃ o, parse body = .ok o ∧ m.ReadAs o)
        (({} : FrameReader).feedAll chunks).1 seen ∧
      (({} : FrameReader).feedAll chunks).2.failed = false ∧
      (chunks.flatten = frames.flatten → later = []) := by
  have legible (m : Msg) (there : m ∈ sentOn sock c.shared.trace) :
      m.sender = st.username ∧ m.content.readable = true :=
    legible_of_run token run sock m (mem_sentOn.mp there)
  obtain ⟨short, rfl⟩ := frames_of_mapM sent
  rw [← List.flatMap_def] at arrived ⊢
  obtain ⟨seen, later, split, read, alive, complete⟩ :=
    reads_of_starts (fun m there => (legible m there).2) short arrived
  refine ⟨seen, later, split, ?_, read, alive, complete⟩
  intro m there
  exact (legible m (split ▸ List.mem_append_left later there)).1

namespace Demo

/-- Floats do not occur. -/
def noFloats : FloatText := ⟨fun _ => [], fun _ => .nan⟩

/-- A token and a message, and both are read. -/
theorem read_of_run_alice :
    ∃ c, (client alice).Reaches readableSteps (start noItems token) c ∧
      (sentOn 1 c.shared.trace).map Msg.type = [.auth, .message] ∧
      ∃ stream : Bytes,
        List.Forall₂ (fun body m => ∃ o, parse body = .ok o ∧ m.ReadAs o)
          (({} : FrameReader).feedAll [stream]).1 (sentOn 1 c.shared.trace) := by
  let frames (c : Config Thread Cmd ChatSession) :=
    (sentOn 1 c.shared.trace).mapM fun m => sendFrame noFloats m.dict
  obtain ⟨c, run, checked⟩ := Program.exists_reaches_of_play (client alice) readableSteps
    (connects ++ accepts ++ sends) (start noItems token)
    (fun c => (sentOn 1 c.shared.trace).map Msg.type = [.auth, .message] && (frames c).isOk)
    (by decide +kernel)
  obtain ⟨types, sent⟩ := Bool.and_eq_true_iff.mp checked
  cases result : frames c with
  | error raised =>
      rw [result] at sent
      cases sent
  | ok frames =>
      have stream : ([frames.flatten] : List Bytes).flatten = frames.flatten := by simp
      have arrived : ([frames.flatten] : List Bytes).flatten <+: frames.flatten := by simp
      obtain ⟨seen, later, split, -, read, -, complete⟩ :=
        read_of_run rfl run noFloats 1 result arrived
      rw [complete stream, List.append_nil] at split
      exact ⟨c, run, of_decide_eq_true types, frames.flatten, split ▸ read⟩

end Demo

end OnlineChat.Client
