import OnlineChat.Framing
import OnlineChat.Server.Traffic

/-!
# Down to the client

The sections of all threads run in any order, and each of them may queue a packet for its
connection and hand bytes to the socket.  As long as their writes are sound, every
connection keeps its own stream, and the client at its end receives what was queued for it.
-/

namespace OnlineChat

open Library MiniJson ChatServer

variable {st : Startup} {v : ConnId} {e : Ext} {w w' : World} {t : Thread} {k : Cmd}
  {new : List Cmd} {File : Type} {file : Database File} {b : BootExt} {tls : Bool}

/-! ## Sections -/

/-- A section under the `send_m` of a connection: for which user and at which time it runs,
the packet that it queues, and what it hands over. -/
structure Shipment where
  conn : ConnId
  user : Bytes
  time : Int
  call : Option Bytes
  writes : List Write

def shipments (t : Thread) (e : Ext) (k : Cmd) (w : World) : List Shipment :=
  match k with
  | .io k =>
      match sideOp w.server t.conn e k with
      | some (v, op, ts) =>
          let side := w.server.sides v
          let user := w.server.sess.username v
          [{ conn := v, user, time := ts
             call := op.body side
             writes := (side.run op user ts e.writes).writes }]
      | none => []
  | _ => []

/-- The packets that were queued on a connection, and what was handed to its socket. -/
def callsOn (v : ConnId) (notes : List Shipment) : List Bytes :=
  (notes.filter fun note => note.conn = v).filterMap Shipment.call

def writesOn (v : ConnId) (notes : List Shipment) : List Write :=
  (notes.filter fun note => note.conn = v).flatMap Shipment.writes

/-- The writes of a section are sound behind those before, and a notice to its user fits. -/
def Shipment.sound (tls : Bool) (notes : List Shipment) (note : Shipment) : Bool :=
  note.user.length ≤ 32 && -2 ^ 63 ≤ note.time && note.time < 2 ^ 63 &&
    Write.allSound tls (callsOn note.conn (notes ++ [note])) (writesOn note.conn notes) note.writes

/-- The server with the history of its sections beside that of its traffic. -/
abbrev shipping (st : Startup) : Program Thread Ext Cmd ((World × List Traffic) × List Shipment) :=
  (taking st).recording fun t e k x => shipments t e k x.1

def writesSoundly (st : Startup)
    (cfg : Config Thread Cmd ((World × List Traffic) × List Shipment)) (t : Thread) (e : Ext) :
    Bool :=
  (cfg.stack t).head?.all fun k =>
    (shipments t e k cfg.shared.1.1).all (Shipment.sound st.cfg.tls cfg.shared.2)

variable {notes : List Shipment}

/-! ## One section -/

theorem shipments_run (ran : w.run st t.conn e k = some (w', new)) :
    (shipments t e k w = [] ∧ ∀ v, (w'.server.sides v).outbuf = (w.server.sides v).outbuf) ∨
      ∃ note op, shipments t e k w = [note] ∧ note.call = op.body (w.server.sides note.conn) ∧
        note.writes =
          ((w.server.sides note.conn).run op note.user note.time e.writes).writes ∧
        w'.server.sides = Function.update w.server.sides note.conn
          ((w.server.sides note.conn).run op note.user note.time e.writes).side := by
  cases k with
  | io k =>
      obtain ⟨r, step, result⟩ := Option.map_eq_some_iff.mp ran
      obtain ⟨rfl, -⟩ := Prod.mk.inj result
      cases works : sideOp w.server t.conn e k with
      | none =>
          left
          refine ⟨?_, outbuf_runIo step works⟩
          simp only [shipments, works]
      | some work =>
          obtain ⟨v, op, ts⟩ := work
          right
          let user := w.server.sess.username v
          let writes := ((w.server.sides v).run op user ts e.writes).writes
          refine ⟨⟨v, user, ts, op.body (w.server.sides v), writes⟩, op, ?_, rfl, rfl,
            state_runIo step works⟩
          simp only [shipments, works, user, writes]
  | db k =>
      obtain ⟨r, -, result⟩ := Option.map_eq_some_iff.mp ran
      obtain ⟨rfl, -⟩ := Prod.mk.inj result
      exact .inl ⟨rfl, fun _ => rfl⟩
  | own k | limit k | token k | sess k | router k | checkAndAdd m =>
      obtain ⟨rfl, -⟩ := Prod.mk.inj (Option.some.inj ran)
      exact .inl ⟨rfl, fun _ => rfl⟩

theorem callsOn_append (v : ConnId) (notes more : List Shipment) :
    callsOn v (notes ++ more) = callsOn v notes ++ callsOn v more := by
  simp [callsOn]

theorem writesOn_append (v : ConnId) (notes more : List Shipment) :
    writesOn v (notes ++ more) = writesOn v notes ++ writesOn v more := by
  simp [writesOn]

theorem callsOn_self (note : Shipment) : callsOn note.conn [note] = note.call.toList := by
  cases call : note.call <;> simp [callsOn, call]

theorem writesOn_self (note : Shipment) : writesOn note.conn [note] = note.writes := by
  simp [writesOn]

theorem callsOn_of_ne {note : Shipment} (apart : note.conn ≠ v) : callsOn v [note] = [] := by
  simp [callsOn, apart]

theorem writesOn_of_ne {note : Shipment} (apart : note.conn ≠ v) : writesOn v [note] = [] := by
  simp [writesOn, apart]

/-! ## Runs -/

/-- Each connection has its own stream. -/
def Streams (tls : Bool) (w : World) (notes : List Shipment) : Prop :=
  ∀ v, Channel.Inv tls (callsOn v notes) (w.server.sides v).outbuf (writesOn v notes)

theorem streams_run (streams : Streams tls w notes)
    (sound : (shipments t e k w).all (Shipment.sound tls notes) = true)
    (ran : w.run st t.conn e k = some (w', new)) :
    Streams tls w' (notes ++ shipments t e k w) := by
  intro v
  rw [callsOn_append, writesOn_append]
  rcases shipments_run ran with ⟨none, same⟩ | ⟨note, op, one, call, writes, sides⟩
  · rw [none, same]
    simpa [callsOn, writesOn] using streams v
  rw [one] at sound ⊢
  by_cases own : note.conn = v
  · subst own
    simp only [List.all_cons, List.all_nil, Bool.and_true, Shipment.sound, Bool.and_eq_true,
      decide_eq_true_eq] at sound
    obtain ⟨⟨⟨short, low⟩, high⟩, sound⟩ := sound
    rw [callsOn_append, callsOn_self] at sound
    rw [sides, Function.update_self, callsOn_self, writesOn_self]
    have consumes := (Channel.consumes_run (w.server.sides note.conn)
      ⟨op, note.user, note.time, e.writes, short, low, high⟩).1
    dsimp only at consumes
    rw [← writes, ← call] at consumes
    have called : Channel.Inv tls (callsOn note.conn notes ++ note.call.toList)
        ((w.server.sides note.conn).outbuf ++ note.call.toList.flatMap makeWireFrame)
        (writesOn note.conn notes) := by
      cases passed : note.call with
      | none => simpa using streams note.conn
      | some body =>
          have short := Channel.length_le_of_body (call.symm.trans passed)
          simpa using (streams note.conn).call short
    exact called.consumes consumes sound
  · rw [sides, Function.update_of_ne (Ne.symm own), callsOn_of_ne own, writesOn_of_ne own,
      List.append_nil, List.append_nil]
    exact streams v

theorem streams_start : Streams tls (start st file b).shared [] := by
  intro v
  exact Channel.inv_nil

variable {cfg : Config Thread Cmd ((World × List Traffic) × List Shipment)}

theorem streams_of_run
    (run : (shipping st).Reaches (writesSoundly st) (((start st file b).noted []).noted []) cfg) :
    Streams st.cfg.tls cfg.shared.1.1 cfg.shared.2 := by
  apply run.invariant
  · exact streams_start
  · rintro ⟨⟨⟨w, traffic⟩, notes⟩, stack⟩ t e k rest ⟨⟨w', traffic'⟩, notes'⟩ new
      - streams sound top ran
    obtain ⟨ran, rfl⟩ := Program.exec_recording.mp ran
    obtain ⟨ran, -⟩ := Program.exec_recording.mp ran
    obtain ⟨-, ran⟩ := exec_eq_some_iff.mp ran
    dsimp only at streams top ran ⊢
    simp only [writesSoundly, top, List.head?_cons, Option.all_some] at sound
    exact streams_run streams sound ran

/-! ## The client at the other end -/

variable {Value : Type} (loads : Bytes → Option Value) {segments : List Bytes}
  {frames : List WireFrame} {calls : List Bytes} {outbuf : Bytes} {wire : List Write}

/-- What the client receives when `segments` have arrived: the values of these frames, up to
the first one that it cannot decode. -/
structure Receives (segments : List Bytes) (frames : List WireFrame) : Prop where
  values : (recvAll loads segments).1.map some =
    (frames.map fun frame => loads frame.body).takeWhile Option.isSome
  ending : (recvAll loads segments).2 =
    some (if frames.all fun frame => (loads frame.body).isSome then .closed else .undecodable)

/-- What is left is shorter than the first frame, so that there is no frame left. -/
theorem eq_nil_of_part {bodies : List Bytes} {part : Bytes}
    (rest : part = bodies.flatMap makeWireFrame)
    (normal : part = [] ∨ ∃ body others, bodies = body :: others ∧
      part.length < (makeWireFrame body).length) : bodies = [] := by
  rcases normal with rfl | ⟨body, others, rfl, less⟩
  · cases bodies with
    | nil => rfl
    | cons body others =>
        have size := congrArg List.length rest
        rw [List.flatMap_cons, List.length_append, length_makeWireFrame, List.length_nil] at size
        omega
  · rw [rest, List.flatMap_cons, List.length_append] at less
    omega

/-- From a beginning of a sequence of frames the client receives a beginning of the sequence. -/
theorem receives_of_starts (good : ∀ frame ∈ frames, frame.Good)
    (starts : segments.flatten <+: WireFrame.wire frames) :
    ∃ front back, frames = front ++ back ∧ Receives loads segments front ∧
      (segments.flatten = WireFrame.wire frames → back = []) := by
  have short : ∀ body ∈ frames.map WireFrame.body, body.length ≤ kMaxFrame := by
    intro body there
    obtain ⟨frame, among, rfl⟩ := List.mem_map.mp there
    exact (good frame among).short
  obtain ⟨full, later, part, split, stream, normal, read⟩ :=
    FrameReader.readAll_eq_of_starts short starts
  obtain ⟨front, back, rfl, rfl, rfl⟩ := List.map_eq_append_iff.mp split
  obtain ⟨values, ending⟩ := recvFrames_of_drains loads (FrameReader.readAll_eq_iff.mp read) rfl rfl
    rfl (Nat.lt_succ_self _)
  refine ⟨front, back, rfl, ⟨?_, ?_⟩, ?_⟩
  · rw [recvAll, values, List.map_map]
    rfl
  · rw [recvAll, ending, List.all_map]
    rfl
  · intro whole
    rw [WireFrame.wire, split, List.flatMap_append] at whole
    have rest := List.append_cancel_left (stream.symm.trans whole)
    exact List.map_eq_nil_iff.mp (eq_nil_of_part rest normal)

/-- Of a sound stream the client receives the packets in the order in which they were queued,
with whole notices between them, and all packets once the queue is drained. -/
theorem Channel.Inv.receives (inv : Channel.Inv tls calls outbuf wire)
    (arrived : segments.flatten <+: Write.handed wire) :
    ∃ frames : List WireFrame, (∀ frame ∈ frames, frame.Good) ∧
      WireFrame.packets frames <+: calls ∧ Receives loads segments frames ∧
      (segments.flatten = Write.handed wire → outbuf = [] → wire.any Write.cuts = false →
        WireFrame.packets frames = calls) := by
  by_cases drained : outbuf = [] ∧ wire.any Write.cuts = false
  · obtain ⟨rfl, uncut⟩ := drained
    obtain ⟨done, part, rest, linked⟩ := inv.linked uncut
    have queue := linked.queue
    rw [List.append_nil] at queue
    obtain rfl := eq_nil_of_part queue linked.normal
    obtain rfl : part = [] := queue
    have handed : Write.handed wire = WireFrame.wire done := by
      rw [linked.handed_eq, List.append_nil]
    have all : calls = WireFrame.packets done := by
      rw [linked.calls_eq, List.append_nil]
    rw [handed] at arrived ⊢
    obtain ⟨front, back, rfl, receives, complete⟩ := receives_of_starts loads linked.good arrived
    refine ⟨front, ?_, ?_, receives, ?_⟩
    · exact fun frame there => linked.good frame (List.mem_append_left back there)
    · rw [all, WireFrame.packets_append]
      exact List.prefix_append ..
    · intro whole _ _
      rw [all, complete whole, List.append_nil]
  · obtain ⟨frames, good, starts, packets⟩ := inv.prefixed
    obtain ⟨front, back, rfl, receives, -⟩ :=
      receives_of_starts loads good (arrived.trans starts)
    rw [WireFrame.packets_append] at packets
    refine ⟨front, ?_, (List.prefix_append ..).trans packets, receives, ?_⟩
    · exact fun frame there => good frame (List.mem_append_left back there)
    · exact fun _ empty uncut => absurd ⟨empty, uncut⟩ drained

/-- In every run whose writes are sound the stream of each connection is framed, and its client
receives the packets that were queued for the connection, in order, and all of them once the
queue is drained. -/
theorem downstream_of_run
    (run : (shipping st).Reaches (writesSoundly st) (((start st file b).noted []).noted []) cfg)
    (v : ConnId) :
    Channel.Framed
        { side := { cfg.shared.1.1.server.sides v with tls := st.cfg.tls }
          calls := callsOn v cfg.shared.2
          wire := writesOn v cfg.shared.2 } ∧
      ∀ segments : List Bytes, segments.flatten <+: Write.handed (writesOn v cfg.shared.2) →
        ∃ frames : List WireFrame, (∀ frame ∈ frames, frame.Good) ∧
          WireFrame.packets frames <+: callsOn v cfg.shared.2 ∧
          Receives loads segments frames ∧
          (segments.flatten = Write.handed (writesOn v cfg.shared.2) →
            (cfg.shared.1.1.server.sides v).outbuf = [] →
            (writesOn v cfg.shared.2).any Write.cuts = false →
            WireFrame.packets frames = callsOn v cfg.shared.2) := by
  have inv := streams_of_run run v
  refine ⟨Channel.Inv.framed inv, ?_⟩
  intro segments arrived
  exact inv.receives loads arrived

namespace Demo

/-- A PING is answered over a socket that takes the answer in two pieces. -/
def pingsSlowly : Schedule :=
  connects 1 ++ receives 1 (request "PING" [("content", .str (bytes "hi"))]) ++
    [(.client 1, { writes := [.accepted 10, .accepted 1000] })]

/-- Something was queued on connection 1, and all of it was handed over. -/
def drained (cfg : Config Thread Cmd ((World × List Traffic) × List Shipment)) : Bool :=
  (callsOn 1 cfg.shared.2).length = 1 && (cfg.shared.1.1.server.sides 1).outbuf.isEmpty &&
    !(writesOn 1 cfg.shared.2).any Write.cuts

end Demo

/-- The client receives the one packet that was queued. -/
theorem downstream_of_run_pong : ∃ cfg frames,
    (shipping Demo.startup).Reaches (writesSoundly Demo.startup)
      (((start Demo.startup Demo.file {}).noted []).noted []) cfg ∧
    Receives some [Write.handed (writesOn 1 cfg.shared.2)] frames ∧
    (WireFrame.packets frames).length = 1 := by
  obtain ⟨cfg, run, drained⟩ := Program.exists_reaches_of_play (shipping Demo.startup)
    (writesSoundly Demo.startup) Demo.pingsSlowly
    (((start Demo.startup Demo.file {}).noted []).noted []) Demo.drained (by decide +kernel)
  simp only [Demo.drained, Bool.and_eq_true, decide_eq_true_eq, List.isEmpty_iff,
    Bool.not_eq_true'] at drained
  obtain ⟨⟨one, empty⟩, uncut⟩ := drained
  have whole : [Write.handed (writesOn 1 cfg.shared.2)].flatten =
      Write.handed (writesOn 1 cfg.shared.2) := List.flatten_singleton
  obtain ⟨frames, -, -, receives, complete⟩ :=
    (downstream_of_run some run 1).2 [Write.handed (writesOn 1 cfg.shared.2)]
      ⟨[], (List.append_nil _).trans whole⟩
  refine ⟨cfg, frames, run, receives, ?_⟩
  rw [complete whole empty uncut]
  exact one

end OnlineChat
