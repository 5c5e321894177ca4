import OnlineChat.Client.Reception
import OnlineChat.Client.Resending
import OnlineChat.Server.Acks
import OnlineChat.Server.Traffic

/-!
# From the queue of a session to the disk of the server

A session and a server run side by side.  A socket is joined to a connection when the bytes
that arrive are the first of those that were written, and what comes back are bodies that were
sent.
-/

namespace OnlineChat

open Library Library.Utf8 MiniJson PwdHash
open Client (FloatText Settings Socket PendingFile TokenStore sentOn mem_sentOn readableSteps)

variable {settings : Settings} {st : Startup} {floats : FloatText} {sock : Socket} {c v : ConnId}
  {queue : PendingFile} {tokens : TokenStore} {File : Type} {file : Database File} {b : BootExt}
  {a : Config Client.Thread Client.Cmd Client.ChatSession}
  {cfg : Config Thread Cmd (World × List Traffic)}
  {When : Config Thread Cmd (World × List Traffic) → Thread → Ext → Bool}

/-! ## There -/

/-- What `doMessage` makes of a message of the client. -/
structure ChatMsg.MadeOf (st : Startup) (m : Client.Msg) (m' : ChatMsg) : Prop where
  type : m.type = .message
  seq : m'.seq = wrap64 m.seq
  positive : 0 < m'.seq
  receiver : m'.receiver = m.receiver
  content : m'.content = st.cleaned m.content.text

theorem eq_message_of_text {type : Client.MsgType} (text : type.text = bytes "MESSAGE") :
    type = .message := by
  cases type with
  | message => rfl
  | _ => simp [Client.MsgType.text] at text

/-- A message in a body that a session has written. -/
theorem madeOf_of_carried {seen : List Client.Msg} {m' : ChatMsg}
    (carried : Carried st (seen.map (Client.Msg.body floats)) m')
    (readable : ∀ m ∈ seen, m.content.readable = true) : ∃ m ∈ seen, m'.MadeOf st m := by
  obtain ⟨body, there, obj, parsed, type, made⟩ := carried
  obtain ⟨m, among, rfl⟩ := List.mem_map.mp there
  obtain ⟨o, parsed', reads⟩ := @Client.parse_body floats m (readable m among)
  obtain rfl := Except.ok.inj (parsed'.symm.trans parsed)
  refine ⟨m, among, ?_, made.seq.trans reads.seq, made.positive, made.receiver.trans reads.receiver,
    ?_⟩
  · exact eq_message_of_text (reads.type.symm.trans type)
  · rw [made.content, reads.content]

/-- The bodies that a reader has taken out of what a session has written. -/
theorem seen_of_reads {r : FrameReader} {stream : Bytes} {bodies frames : List Bytes}
    (token : tokens.token.readable = true)
    (session : (Client.client settings).Reaches readableSteps (Client.start queue tokens) a)
    (reads : Reads r stream bodies)
    (sent : (sentOn sock a.shared.trace).mapM (fun m => Client.sendFrame floats m.dict) =
      .ok frames) (arrived : stream <+: frames.flatten) :
    ∃ seen later, sentOn sock a.shared.trace = seen ++ later ∧
      bodies = seen.map (Client.Msg.body floats) ∧ (∀ m ∈ seen, m.content.readable = true) ∧
      r.failed = false ∧ (stream = frames.flatten → r.next = (none, r) → later = []) := by
  obtain ⟨short, rfl⟩ := Client.frames_of_mapM sent
  rw [← List.flatMap_def] at arrived ⊢
  obtain ⟨⟨left, split⟩, alive, complete⟩ :=
    reads.of_starts (List.forall_mem_map.mpr short) arrived
  obtain ⟨seen, later, whole, rfl, rest⟩ := List.map_eq_append_iff.mp split.symm
  refine ⟨seen, later, whole, rfl, ?_, alive, ?_⟩
  · intro m among
    have there : m ∈ sentOn sock a.shared.trace := by
      rw [whole]
      exact List.mem_append_left later among
    exact (Client.legible_of_run token session sock m (mem_sentOn.mp there)).2
  · intro all silent
    have same := complete all silent
    rw [whole, List.map_append, List.self_eq_append_right] at same
    exact List.map_eq_nil_iff.mp same

/-- What the server has read on a connection are the first messages of the session, all of
them when all bytes have arrived and the thread waits for more.  Rows and ACKs on the connection are
for these messages, with the receiver, the content behind the word filter, and the number. -/
theorem kept_of_runs {frames : List Bytes} (token : tokens.token.readable = true)
    (session : (Client.client settings).Reaches readableSteps (Client.start queue tokens) a)
    (serving : (taking st).Reaches When ((start st file b).noted []) cfg)
    (sent : (sentOn sock a.shared.trace).mapM (fun m => Client.sendFrame floats m.dict) =
      .ok frames) (arrived : streamOf c cfg.shared.2 <+: frames.flatten) :
    ∃ seen later, sentOn sock a.shared.trace = seen ++ later ∧
      bodiesOf c cfg.shared.2 = seen.map (Client.Msg.body floats) ∧
      (cfg.shared.1.server.clients c).reader.failed = false ∧
      (∀ row ∈ cfg.shared.1.server.db.messages.rows, ∀ user seq,
        row.2.origin = some ⟨c, user, seq⟩ → ∃ m ∈ seen, ∃ m', m'.MadeOf st m ∧ RowOf c m' row.2) ∧
      (∀ user seq, .io (.acked c user seq) ∈ cfg.shared.1.trace →
        ∃ m ∈ seen, m.type = .message ∧ wrap64 m.seq = seq) ∧
      (streamOf c cfg.shared.2 = frames.flatten → .own .recvLoop ∈ cfg.stack (.client c) →
        later = []) := by
  have outlined := outlined_taking serving
  obtain ⟨⟨reading, -⟩, sourced⟩ := outlined.inv
  obtain ⟨seen, later, split, bodies, readable, alive, complete⟩ :=
    seen_of_reads token session (reading c) sent arrived
  refine ⟨seen, later, split, bodies, alive, ?_, ?_, ?_⟩
  · intro row there user seq origin
    rcases sourced.messages row there with older | ⟨c', m', carried, shape⟩
    · cases origin.symm.trans older
    · have from' : c' = c := by
        rcases shape with same | ⟨roomId, same⟩ <;> rw [same] at origin <;>
          exact congrArg Origin.conn (Option.some.inj origin)
      subst from'
      rw [bodies] at carried
      obtain ⟨m, among, made⟩ := madeOf_of_carried carried readable
      exact ⟨m, among, m', made, shape⟩
  · intro user seq acked
    obtain ⟨m', carried, same⟩ := sourced.acked c user seq acked
    rw [bodies] at carried
    obtain ⟨m, among, made⟩ := madeOf_of_carried carried readable
    exact ⟨m, among, made.type, made.seq.symm.trans same⟩
  · exact fun whole waiting => complete whole (emptied_of_outlined outlined waiting)

/-! ## Back -/

/-- The ACK of a number has been received. -/
def Heard (trace : List Client.Event) (seq : Int) : Prop :=
  ∃ sock f, .received sock f ∈ trace ∧ f.kind = .ack ∧
    (f.get "content" (.str (bytes "0"))).toInt = .ok seq

theorem Heard.mono {trace more : List Client.Event} {seq : Int} (heard : Heard trace seq) :
    Heard (trace ++ more) seq := by
  obtain ⟨sock, f, there, facts⟩ := heard
  exact ⟨sock, f, List.mem_append_left more there, facts⟩

/-- Only an ACK takes an item out of the queue. -/
theorem ack_of_remove_dispatch {s : Client.ChatSession} {f : Client.Frame} {seq : Int}
    (removes : .remove seq ∈ (s.dispatch settings sock f).2) :
    f.kind = .ack ∧ (f.get "content" (.str (bytes "0"))).toInt = .ok seq := by
  have plain {commands : List Client.Cmd} (leaves : (Client.Cmd.recvFrame sock).Leaves commands) :
      .remove seq ∉ commands := by
    intro there
    cases leaves.plain _ there
  unfold Client.ChatSession.dispatch at removes
  cases kind : f.kind with
  | ack =>
      simp only [kind] at removes
      refine ⟨rfl, ?_⟩
      split at removes
      next n number =>
        split at removes
        · obtain rfl : seq = n := by simpa using removes
          exact number
        · simp at removes
      next => simp at removes
      next raised _ _ => exact absurd removes (plain (Client.leaves_next raised))
  | nack =>
      simp only [kind] at removes
      split at removes
      · split at removes <;> simp at removes
      · simp at removes
      next raised _ _ => exact absurd removes (plain (Client.leaves_next raised))
  | err =>
      simp only [kind] at removes
      split at removes
      next code _ => exact absurd removes (plain (Client.leaves_handleErr code))
      next raised _ => exact absurd removes (plain (Client.leaves_next raised))
  | challenge =>
      simp only [kind] at removes
      exact absurd removes (plain Client.leaves_answerChallenge)
  | message =>
      simp only [kind] at removes
      exact absurd removes (plain Client.leaves_handleMessage)
  | authOk =>
      simp only [kind] at removes
      split at removes
      · simp at removes
      next raised _ => exact absurd removes (plain (Client.leaves_next raised))
  | system =>
      simp only [kind] at removes
      split at removes
      · simp at removes
      · exact absurd removes (plain (Client.leaves_next .typeError))
  | _ => simp [kind] at removes

theorem ack_of_remove {s : Client.ChatSession} {e : Client.Ext} {k : Client.Cmd} {seq : Int}
    (removes : .remove seq ∈ (Client.run settings e s k).2) :
    ∃ sock f, k = .recvFrame sock ∧ e.receives = .frame f ∧ f.kind = .ack ∧
      (f.get "content" (.str (bytes "0"))).toInt = .ok seq := by
  rcases Client.leaves_run settings e s k with leaves | ⟨receiver, content, seq', rfl, left, -⟩ |
    ⟨sock, seq', -, rfl, -⟩
  · cases leaves.plain _ removes
  · rw [left] at removes
    simp at removes
  · have plain (raised : Client.PyError) : .remove seq ∉ raised.next := by
      intro there
      cases (@Client.leaves_next sock raised).plain _ there
    simp only [Client.run, Client.ChatSession.recvFrame] at removes
    split at removes
    next raised _ => exact absurd removes (plain raised)
    next => exact absurd removes (plain .attributeError)
    next f received => exact ⟨sock, f, rfl, received, ack_of_remove_dispatch removes⟩

/-- An item leaves the queue when its ACK has been received. -/
theorem heard_of_acked {Allowed : Config Client.Thread Client.Cmd Client.ChatSession →
      Client.Thread → Client.Ext → Bool}
    (session : (Client.client settings).Reaches Allowed (Client.start queue tokens) a) :
    ∀ seq, .acked seq ∈ a.shared.trace → Heard a.shared.trace seq := by
  suffices invariant : (∀ seq, .acked seq ∈ a.shared.trace → Heard a.shared.trace seq) ∧
      ∀ t seq, .remove seq ∈ a.stack t → Heard a.shared.trace seq from invariant.1
  apply session.invariant (motive := fun a =>
    (∀ seq, .acked seq ∈ a.shared.trace → Heard a.shared.trace seq) ∧
      ∀ t seq, .remove seq ∈ a.stack t → Heard a.shared.trace seq)
  · refine ⟨?_, ?_⟩
    · intro seq there
      simp [Client.start, Client.ChatSession.load] at there
    · intro t seq there
      cases t <;> cases List.mem_singleton.mp there
  · rintro a t e k rest s new - ⟨acked, pending⟩ - stack ran
    obtain ⟨rfl, rfl⟩ := Client.run_of_exec ran
    have grown := @Client.trace_run settings e a.shared k
    refine ⟨?_, ?_⟩
    · intro seq there
      dsimp only at there ⊢
      rw [grown] at there ⊢
      rcases List.mem_append.mp there with old | now
      · exact (acked seq old).mono
      · obtain rfl := Client.acked_mem_events.mp now
        exact (pending t seq (by simp [stack])).mono
    · intro t' seq there
      dsimp only at there ⊢
      rw [grown]
      by_cases own : t' = t
      · subst own
        rw [Function.update_self] at there
        rcases List.mem_append.mp there with fresh | below
        · obtain ⟨sock, f, rfl, received, ack⟩ := ack_of_remove fresh
          exact ⟨sock, f, List.mem_append_right _ (Client.received_mem_events.mpr ⟨rfl, received⟩),
            ack⟩
        · exact (pending t' seq (by simp [stack, below])).mono
      · rw [Function.update_of_ne own] at there
        exact (pending t' seq there).mono

/-- A body that was sent on a connection is no ACK, or it is that of an event. -/
def Documented (x : World × List Traffic) : Prop :=
  ∀ v, ∀ body ∈ sentTo v x.2, ∃ o o', Client.Numbered o o' ∧ body = serialize o' ∧
    (PlainFrame o ∨ ∃ user seq ts, o = ackFrame user seq ts ∧ .io (.acked v user seq) ∈ x.1.trace)

theorem documented_traffic {w w' : World} {t : Thread} {e : Ext} {k : Cmd} {new : List Cmd}
    {body : Bytes} (here : FromServer [k]) (ran : w.run st t.conn e k = some (w', new))
    (sent : .sent v body ∈ traffic t e k w) :
    ∃ o o', Client.Numbered o o' ∧ body = serialize o' ∧ (PlainFrame o ∨
      ∃ user seq ts, o = ackFrame user seq ts ∧ .io (.acked v user seq) ∈ w'.trace) := by
  unfold traffic at sent
  split at sent
  · split at sent
    · split at sent <;> simp at sent
    · cases sent
  · split at sent <;> simp at sent
  next k =>
    split at sent
    next v' op ts works =>
      have now := (List.mem_append.mp sent).resolve_left (by simp)
      obtain ⟨body', there, same⟩ := List.mem_map.mp now
      obtain ⟨rfl, rfl⟩ := Traffic.sent.inj same
      rcases List.mem_append.mp there with queued | noticed
      · obtain ⟨obj, n, sends, text⟩ := object_of_body (Option.mem_toList.mp queued)
        refine ⟨obj, _, .inr ⟨n, rfl⟩, text, ?_⟩
        rcases plain_or_ack here works sends with plain | ⟨seq, rfl, rfl, rfl⟩
        · exact .inl plain
        · refine .inr ⟨_, seq, _, rfl, ?_⟩
          obtain ⟨rfl, -⟩ := Prod.mk.inj (Option.some.inj ran)
          simp [ChatServer.sendSection]
      · exact ⟨_, _, .inl rfl, ChatServer.mem_notices_run noticed, .inl (.err ..)⟩
    next => cases sent
  next => cases sent

theorem mem_sentTo {notes : List Traffic} {body : Bytes} :
    body ∈ sentTo v notes ↔ .sent v body ∈ notes := by
  unfold sentTo
  rw [List.mem_filterMap]
  constructor
  · rintro ⟨note, there, sent⟩
    cases note with
    | sent v' body' =>
        obtain ⟨rfl, rfl⟩ : v' = v ∧ body' = body := by simpa [Traffic.sentBody] using sent
        exact there
    | _ => cases sent
  · intro there
    exact ⟨_, there, if_pos rfl⟩

theorem documented_reached (serving : (taking st).Reaches When ((start st file b).noted []) cfg) :
    Documented cfg.shared := by
  suffices invariant : Documented cfg.shared ∧ ∀ t, FromServer (cfg.stack t) from invariant.1
  apply serving.invariant
  · refine ⟨fun v => List.forall_mem_nil _, ?_⟩
    intro t
    cases t <;> exact fromServer_one rfl
  · rintro cfg t e k rest ⟨w, notes⟩ new - ⟨documented, pending⟩ - stack ran
    obtain ⟨exec, rfl⟩ := Program.exec_recording.mp ran
    obtain ⟨-, ran⟩ := exec_eq_some_iff.mp exec
    have commands := pending t
    rw [stack] at commands
    obtain ⟨frame, below⟩ := List.forall_mem_cons.mp commands
    have here : FromServer [k] := List.forall_mem_singleton.mpr frame
    obtain ⟨events, trace, -⟩ := trace_run ran
    refine ⟨?_, ?_⟩
    · intro v body sent
      rw [mem_sentTo] at sent
      rcases List.mem_append.mp sent with old | now
      · obtain ⟨o, o', numbered, text, kind⟩ := documented v body (mem_sentTo.mpr old)
        refine ⟨o, o', numbered, text, kind.imp_right ?_⟩
        rintro ⟨user, seq, ts, same, acked⟩
        exact ⟨user, seq, ts, same, trace ▸ List.mem_append_left _ acked⟩
      · exact documented_traffic here ran now
    · intro t'
      dsimp only
      by_cases own : t' = t
      · subst own
        rw [Function.update_self]
        exact (fromServer_run here ran).append below
      · rw [Function.update_of_ne own]
        exact pending t'

/-- What the client takes for an ACK is that of an event. -/
theorem acked_of_received {body : Bytes} {f : Client.Frame} {seq : Int}
    (documented : Documented cfg.shared) (sent : body ∈ sentTo v cfg.shared.2)
    (read : Client.loads floats body = some (.dict f)) (ack : f.kind = .ack)
    (number : (f.get "content" (.str (bytes "0"))).toInt = .ok seq) :
    ∃ user, .io (.acked v user seq) ∈ cfg.shared.1.trace := by
  obtain ⟨o, o', numbered, rfl, kind⟩ := documented v body sent
  have distinct : o.Distinct := by
    rcases kind with plain | ⟨user, n, ts, rfl, -⟩
    · exact Client.distinct_serverFrame (.plain plain)
    · exact Client.distinct_serverFrame (.ack ..)
  have frame := Client.eq_of_loads_serialize (numbered.distinct distinct) read
  obtain rfl : f = Client.asFrame o' := Client.PyValue.dict.inj frame
  rcases kind with plain | ⟨user, n, ts, rfl, acked⟩
  · rw [numbered.kind] at ack
    exact absurd ack (Client.kind_plainFrame plain)
  · have text : (Client.asFrame o').get "content" (.str (bytes "0")) = .str (toDecimal n) := by
      rw [numbered.get (by decide)]
      simp [ackFrame, textFrame]
    rw [text, Client.PyValue.toInt] at number
    split at number
    next m read =>
      obtain rfl := Except.ok.inj number
      obtain rfl := Client.eq_of_pyIntOfStr_toDecimal read
      exact ⟨user, acked⟩
    next => exact absurd number (by simp)

/-! ## Both ways -/

/-- The sockets of a session are joined to connections of the server. -/
structure Joined (floats : FloatText) (conn : Socket → Option ConnId) (trace : List Client.Event)
    (notes : List Traffic) : Prop where
  there : ∀ sock c, conn sock = some c → ∃ frames : List Bytes,
    (sentOn sock trace).mapM (fun m => Client.sendFrame floats m.dict) = .ok frames ∧
      streamOf c notes <+: frames.flatten
  back : ∀ sock (f : Client.Frame), .received sock f ∈ trace → f.kind = .ack →
    ∃ c, conn sock = some c ∧
      ∃ body ∈ sentTo c notes, Client.loads floats body = some (.dict f)

/-- The row of an item with that number. -/
def HeldAs (st : Startup) (v : ConnId) (seq : Int) (item : Client.PendingItem)
    (row : Message Origin) : Prop :=
  ∃ m, m.seq = seq ∧ m.receiver = item.receiver ∧ m.content = st.cleaned item.content ∧
    RowOf v m row

/-- The steps of a server with notes that meet no defect. -/
def servesHonestly (cfg : Config Thread Cmd (World × List Traffic)) (t : Thread) (e : Ext) : Bool :=
  acksHonest cfg.plain t e

/-- A number that fits is read as it is. -/
theorem wrap64_of_given {s : Client.ChatSession} {seq : Int} (given : s.Given seq)
    (fits : s.store.nextSeq ≤ 2 ^ 63) : wrap64 seq = seq := by
  obtain ⟨low, high⟩ := given
  exact wrap64_of_range (by omega) (by omega)

/-- The item of a message that came over a socket of the session. -/
theorem item_of_carried {conn : Socket → Option ConnId} {m' : ChatMsg}
    (token : tokens.token.readable = true) (positive : queue.Positive)
    (session : (Client.client settings).Reaches readableSteps (Client.start queue tokens) a)
    (fits : a.shared.store.nextSeq ≤ 2 ^ 63) (reading : Reading cfg.shared)
    (joined : Joined floats conn a.shared.trace cfg.shared.2) (socket : conn sock = some v)
    (carried : Carried st (bodiesOf v cfg.shared.2) m') :
    m'.receiver = (a.shared.objects m'.seq).receiver ∧
      m'.content = st.cleaned (a.shared.objects m'.seq).content := by
  obtain ⟨frames, sent, arrived⟩ := joined.there sock v socket
  obtain ⟨seen, later, split, bodies, readable, -⟩ :=
    seen_of_reads token session (reading v) sent arrived
  rw [bodies] at carried
  obtain ⟨m, among, made⟩ := madeOf_of_carried carried readable
  have there : m ∈ sentOn sock a.shared.trace := by
    rw [split]
    exact List.mem_append_left later among
  obtain ⟨given, carries⟩ :=
    (Client.constant_reached positive session).frames sock m (mem_sentOn.mp there) made.type
  have same : m'.seq = m.seq := made.seq.trans (wrap64_of_given given fits)
  rw [same, made.receiver, made.content, carries.receiver, carries.content]
  exact ⟨rfl, rfl⟩

theorem mem_messages_of_stored {db : Database Origin} (within : db.Within)
    {row : Int × Message Origin} (there : row ∈ db.stored.rows) : row ∈ db.messages.rows := by
  cases inside : db.inTx with
  | true =>
      rw [Database.stored_of_inTx inside] at there
      exact within row there
  | false => rwa [Database.stored_of_not_inTx inside] at there

theorem origin_of_rowOf {m : ChatMsg} {row : Message Origin} (shape : RowOf v m row) :
    row.origin = some ⟨v, m.sender, m.seq⟩ := by
  rcases shape with rfl | ⟨roomId, rfl⟩ <;> rfl

/-- An ACK that was received over a joined socket is that of an event. -/
theorem acked_of_heard {conn : Socket → Option ConnId} {seq : Int}
    (joined : Joined floats conn a.shared.trace cfg.shared.2) (documented : Documented cfg.shared)
    (heard : Heard a.shared.trace seq) :
    ∃ sock c user, conn sock = some c ∧ .io (.acked c user seq) ∈ cfg.shared.1.trace := by
  obtain ⟨sock, f, received, ack, number⟩ := heard
  obtain ⟨c, socket, body, sent, read⟩ := joined.back sock f received ack
  obtain ⟨user, acked⟩ := acked_of_received documented sent read ack number
  exact ⟨sock, c, user, socket, acked⟩

/-- The row of a number that was acknowledged. -/
theorem row_of_acked {conn : Socket → Option ConnId} {user : Bytes} {seq : Int}
    (token : tokens.token.readable = true) (positive : queue.Positive)
    (session : (Client.client settings).Reaches readableSteps (Client.start queue tokens) a)
    (fits : a.shared.store.nextSeq ≤ 2 ^ 63)
    (serving : (taking st).Reaches servesHonestly ((start st file b).noted []) cfg)
    (joined : Joined floats conn a.shared.trace cfg.shared.2)
    (acked : .io (.acked c user seq) ∈ cfg.shared.1.trace) :
    ∃ row ∈ cfg.shared.1.server.db.stored.rows, ∃ v, row.2.origin = some ⟨v, user, seq⟩ ∧
      ∀ sock, conn sock = some v → HeldAs st v seq (a.shared.objects seq) row.2 := by
  obtain ⟨⟨reading, within⟩, sourced⟩ := (outlined_taking serving).inv
  have honest : (server st).Reaches acksHonest (start st file b) cfg.plain :=
    Program.Reaches.plain serving
  obtain ⟨id, row, stored, v, m, slot, shape⟩ := (acked_of_run honest).inv c user seq acked
  obtain ⟨rfl, rfl⟩ := Prod.mk.inj slot
  have origin : row.origin = some ⟨v, m.sender, m.seq⟩ := origin_of_rowOf shape.symm
  refine ⟨(id, row), stored, v, origin, ?_⟩
  intro sock socket
  rcases sourced.messages _ (mem_messages_of_stored within stored) with older |
    ⟨v', m', carried, shape'⟩
  · cases origin.symm.trans older
  · have same := Option.some.inj (origin.symm.trans (origin_of_rowOf shape'))
    obtain ⟨rfl, -, numbers⟩ := Origin.mk.inj same
    obtain ⟨receiver, content⟩ :=
      item_of_carried token positive session fits reading joined socket carried
    rw [numbers]
    exact ⟨m', rfl, receiver, content, shape'⟩

/-- No message is lost: it is in the queue of the session, or its number was acknowledged and a row
of that user and number is on disk, which has its receiver and its content behind the word filter
if it came over a socket of the session. -/
theorem stored_of_runs {conn : Socket → Option ConnId} (token : tokens.token.readable = true)
    (positive : queue.Positive)
    (session : (Client.client settings).Reaches readableSteps (Client.start queue tokens) a)
    (fits : a.shared.store.nextSeq ≤ 2 ^ 63)
    (serving : (taking st).Reaches servesHonestly ((start st file b).noted []) cfg)
    (joined : Joined floats conn a.shared.trace cfg.shared.2) :
    ∀ seq, .added seq ∈ a.shared.trace → seq ∈ a.shared.store.items ∨
      ∃ sock c user, conn sock = some c ∧ .io (.acked c user seq) ∈ cfg.shared.1.trace ∧
        ∃ row ∈ cfg.shared.1.server.db.stored.rows, ∃ v, row.2.origin = some ⟨v, user, seq⟩ ∧
          ∀ sock', conn sock' = some v → HeldAs st v seq (a.shared.objects seq) row.2 := by
  intro seq added
  rcases Client.mem_or_acked queue tokens (session.mono fun _ _ _ _ => rfl) added with there | acked
  · exact .inl there
  · obtain ⟨sock, c, user, socket, acked⟩ :=
      acked_of_heard joined (documented_reached serving) (heard_of_acked session seq acked)
    exact .inr ⟨sock, c, user, socket, acked,
      row_of_acked token positive session fits serving joined acked⟩

/-! ## A message of alice -/

namespace Demo

/-- A device of alice, with the key that it derives from her password. -/
def device : Settings where
  username := bytes "alice"
  password := bytes "pw"
  lib := ⟨fun _ _ _ _ => aliceKey, hashes.hmac⟩

/-- The login and a message to herself. -/
def written : List Client.Msg :=
  [Client.makeMsg .loginHello (bytes "alice") (bytes "SERVER") (.str []) 1 0,
    Client.makeMsg .login (bytes "alice") (bytes "SERVER") (.str (aliceProof 1)) 2 0,
    Client.makeMsg .message (bytes "alice") (bytes "alice") (.str (bytes "hi")) 3 0]

def wireFrames : List Bytes := written.map fun m => makeWireFrame (m.body Client.Demo.noFloats)

def ackObject : Object := (ackFrame (bytes "alice") 3 0).setNum (bytes "seq") 3

theorem loads_ackObject :
    Client.loads floats (serialize ackObject) = some (.dict (Client.asFrame ackObject)) := by
  have distinct : ackObject.Distinct := (Client.distinct_serverFrame (.ack ..)).setNum
  have utf8 : ackObject.Utf8 := (utf8_textFrame "ACK" (wellFormed_bytes "alice")
    wellFormed_nil (wellFormed_toDecimal 3) 0).setNum (wellFormed_bytes "seq") 3
  exact Client.loads_serialize distinct utf8

/-- The ACK is received and takes the message out of the queue. -/
def hearsAck : List (Client.Thread × Client.Ext) :=
  [Client.Demo.connStep { receives := .frame (Client.asFrame ackObject) },
    Client.Demo.connStep {}]

def deviceSteps : List (Client.Thread × Client.Ext) :=
  Client.Demo.connects ++
    Client.Demo.receives "CHALLENGE" (.str (toHex (block 1 32)))
      [(bytes "salt", .str (toHex (block 0x5a 16)))] ::
    List.replicate 3 (Client.Demo.connStep {}) ++ Client.Demo.accepts ++
    (.caller 0, { call := .send (bytes "alice") (bytes "hi") }) ::
    List.replicate 4 Client.Demo.writesBack ++ hearsAck

/-- The three frames arrive at once. -/
def serverSteps : Schedule :=
  connects 1 ++ receives 1 wireFrames.flatten ++ steps (.client 1) 2 ++ draws 1 1 ++
    steps (.client 1) 23

/-- Message 3 has been added and has left the queue, and the three frames were written to the
only socket. -/
def delivers (a : Config Client.Thread Client.Cmd Client.ChatSession) : Bool :=
  a.shared.store.items = [] && a.shared.store.nextSeq ≤ 2 ^ 63 &&
    (a.shared.trace.any fun x => match x with
      | .added seq => seq = 3
      | _ => false) &&
    (a.shared.trace.all fun x => match x with
      | .received sock _ => sock = 1
      | _ => true) &&
    ((sentOn 1 a.shared.trace).mapM fun m =>
      Client.sendFrame Client.Demo.noFloats m.dict).toOption = some wireFrames

/-- The frames have arrived, the ACK has been sent, and the thread waits. -/
def serves (cfg : Config Thread Cmd (World × List Traffic)) : Bool :=
  streamOf 1 cfg.shared.2 = wireFrames.flatten &&
    (sentTo 1 cfg.shared.2).any (fun body => body = serialize ackObject) &&
    match cfg.stack (.client 1) with
    | [.own .recvLoop] => true
    | _ => false

/-- Both runs, and what joins them. -/
structure Meets (a : Config Client.Thread Client.Cmd Client.ChatSession)
    (cfg : Config Thread Cmd (World × List Traffic)) : Prop where
  session : (Client.client device).Reaches readableSteps (Client.start Client.Demo.noItems {}) a
  serving : (taking startup).Reaches servesHonestly ((start startup Demo.file {}).noted []) cfg
  fits : a.shared.store.nextSeq ≤ 2 ^ 63
  added : .added 3 ∈ a.shared.trace
  taken : a.shared.store.items = []
  sent : (sentOn 1 a.shared.trace).mapM (fun m => Client.sendFrame Client.Demo.noFloats m.dict) =
    .ok wireFrames
  arrived : streamOf 1 cfg.shared.2 = wireFrames.flatten
  waits : .own .recvLoop ∈ cfg.stack (.client 1)
  back : ∀ sock f, .received sock f ∈ a.shared.trace → f.kind = .ack → sock = 1 ∧
    serialize ackObject ∈ sentTo 1 cfg.shared.2 ∧ f = Client.asFrame ackObject

/-- What is received is given by a step. -/
theorem received_of_play {Allowed : Config Client.Thread Client.Cmd Client.ChatSession →
      Client.Thread → Client.Ext → Bool} {schedule : List (Client.Thread × Client.Ext)}
    {a a' : Config Client.Thread Client.Cmd Client.ChatSession} {f : Client.Frame}
    (played : (Client.client settings).play Allowed schedule a = some a')
    (there : .received sock f ∈ a'.shared.trace) :
    .received sock f ∈ a.shared.trace ∨ ∃ step ∈ schedule, step.2.receives = .frame f := by
  induction schedule generalizing a with
  | nil =>
      obtain rfl := Option.some.inj played
      exact .inl there
  | cons step schedule inductionHypothesis =>
      obtain ⟨t, e⟩ := step
      simp only [Program.play] at played
      split at played
      · obtain ⟨a₁, fired, played⟩ := Option.bind_eq_some_iff.mp played
        rcases inductionHypothesis played with before | ⟨step, among, receives⟩
        · obtain ⟨k, rest, s, new, -, ran, rfl⟩ := (Program.fire_eq_some_iff _).mp fired
          obtain ⟨rfl, rfl⟩ := Client.run_of_exec ran
          rcases Client.mem_trace_run.mp before with old | now
          · exact .inl old
          · obtain ⟨-, receives⟩ := Client.received_mem_events.mp now
            exact .inr ⟨(t, e), List.mem_cons_self, receives⟩
        · exact .inr ⟨step, List.mem_cons_of_mem _ among, receives⟩
      · cases played

/-- The only ACK of the schedule. -/
theorem eq_ack_of_step {step : Client.Thread × Client.Ext} {f : Client.Frame}
    (among : step ∈ deviceSteps) (receives : step.2.receives = .frame f) (ack : f.kind = .ack) :
    f = Client.asFrame ackObject := by
  simp only [deviceSteps, hearsAck, Client.Demo.connects, Client.Demo.accepts,
    List.mem_append, List.mem_cons, List.mem_replicate, List.not_mem_nil, or_false] at among
  rcases among with (((⟨-, rfl⟩ | rfl | ⟨-, rfl⟩) | rfl | ⟨-, rfl⟩) | rfl | ⟨-, rfl⟩) | rfl | rfl
  case inl.inl.inl.inr.inl | inl.inl.inr.inl =>
    -- the CHALLENGE and the AUTH_OK
    obtain rfl := Client.Received.frame.inj receives
    exact absurd ack (by decide +kernel)
  case inr.inl => exact (Client.Received.frame.inj receives).symm
  all_goals cases receives

theorem meets : ∃ a cfg, Meets a cfg := by
  obtain ⟨a, played, checked⟩ : ∃ a, (Client.client device).play readableSteps deviceSteps
      (Client.start Client.Demo.noItems {}) = some a ∧ delivers a = true := by
    have all : ((Client.client device).play readableSteps deviceSteps
        (Client.start Client.Demo.noItems {})).map delivers = some true := by decide +kernel
    exact Option.map_eq_some_iff.mp all
  obtain ⟨cfg, serving, served⟩ := Program.exists_reaches_of_play (taking startup) servesHonestly
    serverSteps ((start startup Demo.file {}).noted []) serves (by decide +kernel)
  simp only [delivers, Bool.and_eq_true, decide_eq_true_eq] at checked
  obtain ⟨⟨⟨⟨taken, fits⟩, added⟩, sockets⟩, sent⟩ := checked
  simp only [serves, Bool.and_eq_true, decide_eq_true_eq] at served
  obtain ⟨⟨arrived, acked⟩, waits⟩ := served
  refine ⟨a, cfg, Program.reaches_of_play played, serving, fits, ?_, taken, ?_, arrived, ?_, ?_⟩
  · obtain ⟨x, there, same⟩ := List.any_eq_true.mp added
    cases x with
    | added seq => exact of_decide_eq_true same ▸ there
    | _ => cases same
  · cases result : (sentOn 1 a.shared.trace).mapM fun m =>
        Client.sendFrame Client.Demo.noFloats m.dict with
    | ok frames =>
        rw [result] at sent
        exact congrArg Except.ok (Option.some.inj sent)
    | error raised =>
        rw [result] at sent
        cases sent
  · split at waits
    next stack =>
      rw [stack]
      exact List.mem_singleton_self _
    next => cases waits
  · intro sock f there ack
    have first := List.all_eq_true.mp sockets _ there
    obtain ⟨body, sent, same⟩ := List.any_eq_true.mp acked
    refine ⟨of_decide_eq_true first, of_decide_eq_true same ▸ sent, ?_⟩
    rcases received_of_play played there with before | ⟨step, among, receives⟩
    · simp [Client.start, Client.ChatSession.load, Client.Demo.noItems] at before
    · exact eq_ack_of_step among receives ack

/-- The first socket is joined to the first connection. -/
def conn (sock : Socket) : Option ConnId := if sock = 1 then some 1 else none

theorem there_of_arrived {notes : List Traffic}
    (sent : (sentOn 1 a.shared.trace).mapM
      (fun m => Client.sendFrame Client.Demo.noFloats m.dict) = .ok wireFrames)
    (arrived : streamOf 1 notes = wireFrames.flatten) (socket : conn sock = some c) :
    ∃ frames : List Bytes, (sentOn sock a.shared.trace).mapM
        (fun m => Client.sendFrame Client.Demo.noFloats m.dict) = .ok frames ∧
      streamOf c notes <+: frames.flatten := by
  by_cases first : sock = 1
  · subst first
    obtain rfl : 1 = c := Option.some.inj socket
    exact ⟨wireFrames, sent, arrived ▸ List.prefix_refl _⟩
  · rw [show conn sock = none from if_neg first] at socket
    cases socket

/-- All three messages are read, and the last one is kept. -/
theorem kept_of_runs_hi : ∃ a cfg, Meets a cfg ∧
    bodiesOf 1 cfg.shared.2 =
      (sentOn 1 a.shared.trace).map (Client.Msg.body Client.Demo.noFloats) := by
  obtain ⟨a, cfg, meets⟩ := meets
  have start : streamOf 1 cfg.shared.2 <+: wireFrames.flatten := meets.arrived ▸ List.prefix_refl _
  obtain ⟨seen, later, split, bodies, -, -, -, complete⟩ :=
    kept_of_runs rfl meets.session meets.serving meets.sent start
  rw [complete meets.arrived meets.waits, List.append_nil] at split
  exact ⟨a, cfg, meets, split ▸ bodies⟩

/-- The message that has left the queue is on disk. -/
theorem stored_of_runs_hi : ∃ a cfg, Meets a cfg ∧
    ∃ row ∈ cfg.shared.1.server.db.stored.rows, ∃ v user, row.2.origin = some ⟨v, user, 3⟩ := by
  obtain ⟨a, cfg, meets⟩ := meets
  have joined : Joined Client.Demo.noFloats conn a.shared.trace cfg.shared.2 := by
    constructor
    · exact fun sock c => there_of_arrived meets.sent meets.arrived
    · intro sock f received ack
      obtain ⟨rfl, sent, rfl⟩ := meets.back sock f received ack
      exact ⟨1, rfl, _, sent, loads_ackObject⟩
  have positive : Client.Demo.noItems.Positive := ⟨by decide, List.forall_mem_nil _⟩
  rcases stored_of_runs rfl positive meets.session meets.fits meets.serving joined 3
    meets.added with there | ⟨sock, c, user, -, -, row, stored, v, origin, -⟩
  · rw [meets.taken] at there
    cases there
  · exact ⟨a, cfg, meets, row, stored, v, user, origin⟩

end Demo

end OnlineChat
