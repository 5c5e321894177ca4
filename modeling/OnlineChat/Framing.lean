import OnlineChat.Connection

/-!
# The byte stream to a client

A connection runs its sections under `send_m` one after the other.  What is handed to
the socket is compared with the frames that were meant to be sent.
-/

namespace OnlineChat

open MiniJson

/-! ## Frames and writes -/

/-- A frame on the wire: a packet that was passed to `sendLocked`, or a notice. -/
inductive WireFrame where
  | packet (body : Bytes)
  | notice (body : Bytes)

namespace WireFrame

def body : WireFrame → Bytes
  | packet body | notice body => body

/-- The bodies of the packets among the frames. -/
def packets (frames : List WireFrame) : List Bytes :=
  frames.filterMap fun
    | packet body => some body
    | notice _ => none

def wire (frames : List WireFrame) : Bytes := (frames.map body).flatMap makeWireFrame

@[simp]
theorem packets_append (frames frames' : List WireFrame) :
    packets (frames ++ frames') = packets frames ++ packets frames' := List.filterMap_append ..

@[simp]
theorem wire_append (frames frames' : List WireFrame) :
    wire (frames ++ frames') = wire frames ++ wire frames' := by
  simp [wire]

@[simp]
theorem packets_map_packet (bodies : List Bytes) : packets (bodies.map packet) = bodies := by
  simp [packets, List.filterMap_map]

@[simp]
theorem wire_map_packet (bodies : List Bytes) :
    wire (bodies.map packet) = bodies.flatMap makeWireFrame := by
  simp [wire, Function.comp_def, body]

@[simp]
theorem wire_notice (b : Bytes) : wire [notice b] = makeWireFrame b := by
  simp [wire, body]

/-- A body of the admitted length, and a notice is an E4004 notice to some user. -/
def Good : WireFrame → Prop
  | packet body => body.length ≤ kMaxFrame
  | notice body => body.length ≤ kMaxFrame ∧
      ∃ username ts, body = serialize (overpressureFrame username ts)

theorem Good.short {frame : WireFrame} (good : frame.Good) : frame.body.length ≤ kMaxFrame := by
  cases frame with
  | packet body => exact good
  | notice body => exact good.1

end WireFrame

namespace Write

def bytes : Write → Bytes
  | stream data | unsettled data => data
  | notice body n => (makeWireFrame body).take n

/-- All bytes handed over. -/
def handed (wire : List Write) : Bytes := wire.flatMap bytes

/-- The bytes that were taken out of the queue. -/
def streamed (wire : List Write) : Bytes :=
  wire.flatMap fun
    | stream data => data
    | _ => []

/-- The stream was cut: by a notice that was taken in part, or by a TLS writer that
failed with bytes of the queue accepted. -/
def cuts : Write → Bool
  | stream _ => false
  | unsettled data => data ≠ []
  | notice body n => 0 < n ∧ n < (makeWireFrame body).length

/-- The bytes taken out of the queue are whole packets. -/
def atBoundary (calls : List Bytes) (wire : List Write) : Bool :=
  (List.range (calls.length + 1)).any fun k =>
    ((calls.take k).flatMap makeWireFrame).length = (streamed wire).length

/-- A write that hands over no byte is harmless.  Any other needs a stream that was not
cut, and a notice also a plaintext connection at the boundary of two packets. -/
def sound (tls : Bool) (calls : List Bytes) (wire : List Write) (w : Write) : Bool :=
  w.bytes = [] ||
    (!wire.any cuts && match w with
      | notice .. => !tls && atBoundary calls wire
      | _ => true)

def allSound (tls : Bool) (calls : List Bytes) : List Write → List Write → Bool
  | _, [] => true
  | wire, w :: writes => sound tls calls wire w && allSound tls calls (wire ++ [w]) writes

end Write

/-! ## Runs of a connection -/

/-- One section, the user of the connection and the time at which it runs, and the
results of its writes. -/
structure SendStep where
  op : SendSide.Op
  username : Bytes
  ts : Int
  results : List WriteResult
  short : username.length ≤ 32 := by decide
  range : -2 ^ 63 ≤ ts ∧ ts < 2 ^ 63 := by decide

/-- A connection with the bodies passed to `sendLocked` and the writes so far. -/
structure Channel where
  side : SendSide
  calls : List Bytes := []
  wire : List Write := []

namespace Channel

def step (c : Channel) (s : SendStep) : Channel :=
  let r := c.side.run s.op s.username s.ts s.results
  { side := r.side
    calls := c.calls ++ (s.op.body c.side).toList
    wire := c.wire ++ r.writes }

def run (c : Channel) (steps : List SendStep) : Channel := steps.foldl step c

/-- Every write of the step is sound. -/
def soundStep (c : Channel) (s : SendStep) : Bool :=
  Write.allSound c.side.tls (c.step s).calls c.wire
    (c.side.run s.op s.username s.ts s.results).writes

def soundRun : Channel → List SendStep → Bool
  | _, [] => true
  | c, s :: steps => c.soundStep s && (c.step s).soundRun steps

/-- The stream is framed. -/
structure Framed (c : Channel) : Prop where
  /-- The bytes start a sequence of whole frames: the packets passed to `sendLocked`, in
  the order of the calls, and E4004 notices.  A reader at the other end takes out exactly
  the whole frames among them and waits for the rest. -/
  frames : ∃ frames : List WireFrame, (∀ frame ∈ frames, frame.Good) ∧
    Write.handed c.wire <+: WireFrame.wire frames ∧ WireFrame.packets frames <+: c.calls ∧
    ∃ full later part, frames.map WireFrame.body = full ++ later ∧
      Write.handed c.wire = full.flatMap makeWireFrame ++ part ∧
      (part = [] ∨ ∃ body others, later = body :: others ∧
        part.length < (makeWireFrame body).length) ∧
      ({ buf := Write.handed c.wire } : FrameReader).readAll = (full, { buf := part })
  /-- On a TLS connection no byte of a notice reaches the socket. -/
  tls : c.side.tls = true → ∀ body n, .notice body n ∈ c.wire → n = 0

/-! ## The invariant -/

/-- The bytes handed over start a sequence of good frames. -/
def Prefixed (calls : List Bytes) (wire : List Write) : Prop :=
  ∃ frames : List WireFrame, (∀ frame ∈ frames, frame.Good) ∧
    Write.handed wire <+: WireFrame.wire frames ∧ WireFrame.packets frames <+: calls

/-- How the queue goes on where the stream stands: behind the frames `done`, `part` of
the first packet of `rest` is handed over, and the queue is what is left of `rest`. -/
structure Linked (calls : List Bytes) (outbuf : Bytes) (wire : List Write)
    (done : List WireFrame) (part : Bytes) (rest : List Bytes) : Prop where
  good : ∀ frame ∈ done, frame.Good
  short : ∀ body ∈ rest, body.length ≤ kMaxFrame
  calls_eq : calls = WireFrame.packets done ++ rest
  handed_eq : Write.handed wire = WireFrame.wire done ++ part
  streamed_eq : (Write.streamed wire).length =
    ((WireFrame.packets done).flatMap makeWireFrame).length + part.length
  queue : part ++ outbuf = rest.flatMap makeWireFrame
  normal : part = [] ∨ ∃ body others, rest = body :: others ∧
    part.length < (makeWireFrame body).length

/-- The invariant of a sound run. -/
structure Inv (tls : Bool) (calls : List Bytes) (outbuf : Bytes) (wire : List Write) : Prop where
  prefixed : Prefixed calls wire
  linked : wire.any Write.cuts = false → ∃ done part rest, Linked calls outbuf wire done part rest
  plain : tls = true → ∀ body n, .notice body n ∈ wire → n = 0

variable {tls : Bool} {calls : List Bytes} {outbuf outbuf' : Bytes} {wire writes : List Write}
  {done : List WireFrame} {part : Bytes} {rest : List Bytes}

@[simp]
theorem handed_append (wire wire' : List Write) :
    Write.handed (wire ++ wire') = Write.handed wire ++ Write.handed wire' :=
  List.flatMap_append

@[simp]
theorem streamed_append (wire wire' : List Write) :
    Write.streamed (wire ++ wire') = Write.streamed wire ++ Write.streamed wire' :=
  List.flatMap_append

@[simp]
theorem handed_singleton (w : Write) : Write.handed [w] = w.bytes := by
  simp [Write.handed]

theorem Linked.prefixed (linked : Linked calls outbuf wire done part rest) :
    Prefixed calls wire := by
  refine ⟨done ++ rest.map .packet, ?_, ?_, ?_⟩
  · intro frame membership
    rcases List.mem_append.mp membership with old | new
    · exact linked.good frame old
    · obtain ⟨body, there, rfl⟩ := List.mem_map.mp new
      exact linked.short body there
  · rw [linked.handed_eq, WireFrame.wire_append, WireFrame.wire_map_packet, ← linked.queue]
    exact (List.prefix_append_right_inj _).mpr (List.prefix_append ..)
  · rw [linked.calls_eq]
    simp

/-- Bytes from the queue move the stream on, possibly over several packets. -/
theorem Linked.stream {data : Bytes}
    (linked : Linked calls (data ++ outbuf) wire done part rest) :
    ∃ done part rest, Linked calls outbuf (wire ++ [.stream data]) done part rest := by
  have whole : (part ++ data) ++ outbuf = rest.flatMap makeWireFrame := by
    rw [List.append_assoc]
    exact linked.queue
  obtain ⟨full, later, part', split, start, remaining, normal⟩ :=
    FrameReader.exists_split whole
  refine ⟨done ++ full.map .packet, part', later, ?_⟩
  have size := congrArg List.length start
  simp only [List.length_append] at size
  refine ⟨?_, fun body there => linked.short body (by simp [split, there]), ?_, ?_, ?_,
    remaining, normal⟩
  · intro frame membership
    rcases List.mem_append.mp membership with old | new
    · exact linked.good frame old
    · obtain ⟨body, there, rfl⟩ := List.mem_map.mp new
      exact linked.short body (by simp [split, there])
  · rw [linked.calls_eq, split]
    simp
  · rw [handed_append, linked.handed_eq]
    simp [Write.bytes, ← start]
  · simp only [streamed_append, List.length_append, linked.streamed_eq,
      WireFrame.packets_append, WireFrame.packets_map_packet, List.flatMap_append]
    simp only [Write.streamed, List.flatMap_cons, List.flatMap_nil, List.append_nil]
    omega

/-- At the boundary of two packets none is handed over in part. -/
theorem Linked.part_eq_nil (linked : Linked calls outbuf wire done part rest)
    (boundary : Write.atBoundary calls wire = true) : part = [] := by
  rcases linked.normal with none | ⟨body, others, later, less⟩
  · exact none
  · by_contra some
    have positive := List.length_pos_iff.mpr some
    obtain ⟨k, -, length⟩ := List.any_eq_true.mp boundary
    have length := of_decide_eq_true length
    rw [linked.calls_eq, linked.streamed_eq, later, List.take_append, List.flatMap_append,
      List.length_append] at length
    rcases Nat.lt_or_ge (WireFrame.packets done).length k with behind | before
    · obtain ⟨j, count⟩ : ∃ j, k - (WireFrame.packets done).length = j + 1 :=
        ⟨k - (WireFrame.packets done).length - 1, by omega⟩
      rw [List.take_of_length_le (by omega), count, List.take_succ_cons, List.flatMap_cons,
        List.length_append] at length
      omega
    · have shorter : ((WireFrame.packets done).take k).flatMap makeWireFrame <+:
          (WireFrame.packets done).flatMap makeWireFrame := by
        conv => rhs; rw [← List.take_append_drop k (WireFrame.packets done)]
        rw [List.flatMap_append]
        exact List.prefix_append ..
      have bound := shorter.length_le
      rw [Nat.sub_eq_zero_of_le before, List.take_zero, List.flatMap_nil, List.length_nil] at length
      omega

/-- A notice that is taken whole at a boundary is a frame of the stream. -/
theorem Linked.notice {body : Bytes} {n : Nat} (good : (WireFrame.notice body).Good)
    (linked : Linked calls outbuf wire done [] rest) (whole : (makeWireFrame body).length ≤ n) :
    Linked calls outbuf (wire ++ [.notice body n]) (done ++ [.notice body]) [] rest := by
  refine ⟨?_, linked.short, ?_, ?_, ?_, linked.queue, .inl rfl⟩
  · intro frame membership
    rcases List.mem_append.mp membership with old | new
    · exact linked.good frame old
    · obtain rfl := List.mem_singleton.mp new
      exact good
  · simp [linked.calls_eq, WireFrame.packets]
  · rw [handed_append, linked.handed_eq]
    simp [Write.bytes, List.take_of_length_le whole]
  · have streamed := linked.streamed_eq
    simpa [Write.streamed, WireFrame.packets] using streamed

/-- How the writes of a section use up the queue. -/
inductive Consumes : Bytes → List Write → Bytes → Prop where
  | nil (outbuf : Bytes) : Consumes outbuf [] outbuf
  | stream {data outbuf outbuf' : Bytes} {writes : List Write}
      (later : Consumes outbuf writes outbuf') :
      Consumes (data ++ outbuf) (.stream data :: writes) outbuf'
  | unsettled {data kept outbuf outbuf' : Bytes} {writes : List Write}
      (queued : data ++ kept = outbuf) (later : Consumes outbuf writes outbuf') :
      Consumes outbuf (.unsettled data :: writes) outbuf'
  | notice {body outbuf outbuf' : Bytes} {n : Nat} {writes : List Write}
      (good : (WireFrame.notice body).Good) (later : Consumes outbuf writes outbuf') :
      Consumes outbuf (.notice body n :: writes) outbuf'

/-- One write that hands over nothing. -/
theorem Inv.silent {w : Write} (inv : Inv tls calls outbuf wire) (silent : w.bytes = [])
    (uncut : w.cuts = false) (plain : ∀ body n, w = .notice body n → n = 0) :
    Inv tls calls outbuf (wire ++ [w]) := by
  have handed : Write.handed (wire ++ [w]) = Write.handed wire := by
    simp [Write.handed, silent]
  have streamed : Write.streamed (wire ++ [w]) = Write.streamed wire := by
    cases w with
    | stream data =>
        obtain rfl : data = [] := silent
        simp [Write.streamed]
    | unsettled data => simp [Write.streamed]
    | notice body n => simp [Write.streamed]
  refine ⟨?_, fun cut => ?_, ?_⟩
  · simpa [Prefixed, handed] using inv.prefixed
  · obtain ⟨done, part, rest, linked⟩ := inv.linked (by simpa [uncut] using cut)
    exact ⟨done, part, rest, linked.good, linked.short, linked.calls_eq,
      handed.trans linked.handed_eq, streamed ▸ linked.streamed_eq, linked.queue, linked.normal⟩
  · intro secure body n membership
    rcases List.mem_append.mp membership with old | new
    · exact inv.plain secure body n old
    · exact plain body n (List.mem_singleton.mp new).symm

/-- A write that hands bytes over comes when the stream has not been cut. -/
theorem Inv.linked_of_sound {w : Write} (inv : Inv tls calls outbuf wire)
    (sound : w.sound tls calls wire = true) (some : w.bytes ≠ []) :
    ∃ done part rest, Linked calls outbuf wire done part rest := by
  apply inv.linked
  simp only [Write.sound, some, decide_false, Bool.false_or, Bool.and_eq_true,
    Bool.not_eq_true'] at sound
  exact sound.1

/-- The step lemma for one write from the queue or past it. -/
theorem Inv.consumes (consumes : Consumes outbuf writes outbuf')
    (inv : Inv tls calls outbuf wire) (sound : Write.allSound tls calls wire writes = true) :
    Inv tls calls outbuf' (wire ++ writes) := by
  induction consumes generalizing wire with
  | nil => simpa using inv
  | @stream data outbuf outbuf' writes later inductionHypothesis =>
      simp only [Write.allSound, Bool.and_eq_true] at sound
      rw [List.append_cons]
      refine inductionHypothesis ?_ sound.2
      by_cases silent : data = []
      · subst silent
        exact inv.silent rfl rfl (by simp)
      · obtain ⟨done, part, rest, linked⟩ := inv.linked_of_sound sound.1 silent
        obtain ⟨done', part', rest', next⟩ := linked.stream
        exact ⟨next.prefixed, fun _ => ⟨done', part', rest', next⟩, by simpa using inv.plain⟩
  | @unsettled data kept outbuf outbuf' writes queued later inductionHypothesis =>
      simp only [Write.allSound, Bool.and_eq_true] at sound
      rw [List.append_cons]
      refine inductionHypothesis ?_ sound.2
      by_cases silent : data = []
      · subst silent
        exact inv.silent rfl rfl (by simp)
      · obtain ⟨done, part, rest, linked⟩ := inv.linked_of_sound sound.1 silent
        -- the peer sees what it would see if the bytes had been taken out of the queue
        obtain ⟨done', part', rest', next⟩ := (queued ▸ linked).stream
        have same : Write.handed (wire ++ [.unsettled data]) =
            Write.handed (wire ++ [.stream data]) := by
          simp [Write.bytes]
        refine ⟨?_, fun cut => ?_, by simpa using inv.plain⟩
        · rw [Prefixed, same]
          exact next.prefixed
        · simp [Write.cuts, silent] at cut
  | @notice body outbuf outbuf' n writes good later inductionHypothesis =>
      simp only [Write.allSound, Bool.and_eq_true] at sound
      rw [List.append_cons]
      refine inductionHypothesis ?_ sound.2
      by_cases silent : n = 0
      · subst silent
        exact inv.silent rfl rfl (by simp)
      · obtain ⟨uncut, plaintext, boundary⟩ : wire.any Write.cuts = false ∧ tls = false ∧
            Write.atBoundary calls wire = true := by
          have some : (Write.notice body n).bytes ≠ [] := by
            have size := length_makeWireFrame body
            rw [Write.bytes, ne_eq, List.take_eq_nil_iff, not_or]
            exact ⟨silent, fun none => by simp [none] at size⟩
          simpa [Write.sound, some] using sound.1
        obtain ⟨done, part, rest, linked⟩ := inv.linked uncut
        obtain rfl := linked.part_eq_nil boundary
        have plain : tls = true → ∀ b m, .notice b m ∈ wire ++ [.notice body n] → m = 0 :=
          fun secure => by simp [plaintext] at secure
        by_cases whole : (makeWireFrame body).length ≤ n
        · have next := linked.notice good whole
          exact ⟨next.prefixed, fun _ => ⟨_, _, _, next⟩, plain⟩
        · refine ⟨⟨done ++ [.notice body], ?_, ?_, ?_⟩, fun cut => ?_, plain⟩
          · intro frame membership
            rcases List.mem_append.mp membership with old | new
            · exact linked.good frame old
            · obtain rfl := List.mem_singleton.mp new
              exact good
          · rw [handed_append, linked.handed_eq, List.append_nil, WireFrame.wire_append,
              handed_singleton, WireFrame.wire_notice]
            exact (List.prefix_append_right_inj _).mpr (List.take_prefix ..)
          · rw [linked.calls_eq]
            simp [WireFrame.packets]
          · have positive : 0 < n := by omega
            simp only [List.any_append, Bool.or_eq_false_iff] at cut
            simp [Write.cuts, positive] at cut whole
            omega

/-- Passing a packet to `sendLocked` queues it. -/
theorem Inv.call {body : Bytes} (inv : Inv tls calls outbuf wire)
    (short : body.length ≤ kMaxFrame) :
    Inv tls (calls ++ [body]) (outbuf ++ makeWireFrame body) wire := by
  refine ⟨?_, fun uncut => ?_, inv.plain⟩
  · obtain ⟨frames, good, starts, packets⟩ := inv.prefixed
    exact ⟨frames, good, starts, packets.trans (List.prefix_append ..)⟩
  · obtain ⟨done, part, rest, linked⟩ := inv.linked uncut
    refine ⟨done, part, rest ++ [body], linked.good, ?_, ?_, linked.handed_eq,
      linked.streamed_eq, ?_, ?_⟩
    · intro b membership
      rcases List.mem_append.mp membership with old | new
      · exact linked.short b old
      · obtain rfl := List.mem_singleton.mp new
        exact short
    · rw [linked.calls_eq, List.append_assoc]
    · rw [← List.append_assoc, linked.queue]
      simp
    · rcases linked.normal with none | ⟨b, others, rfl, less⟩
      · exact .inl none
      · exact .inr ⟨b, others ++ [body], rfl, less⟩

/-! ## The sections -/

theorem size_overpressureFrame_le (username : Bytes) (ts : Int) :
    (overpressureFrame username ts).size ≤
      fieldSize (bytes "ver", .num 1) + fieldSize (bytes "type", .str (bytes "ERR")) +
        fieldSize (bytes "from", .str serverName) + fieldSize (bytes "to", .str username) +
        fieldSize (bytes "room", .str []) +
        fieldSize (bytes "code", .num ErrorCode.backpressure.value) +
        fieldSize (bytes "content",
          .str (bytes "发送积压超限（读取过慢）：连接将被关闭，请稍后慢速重连")) +
        fieldSize (bytes "ts", .num ts) := by
  unfold overpressureFrame errFrame header Object.setNum Object.setStr
  iterate 7 refine (Object.size_set_le _ _ _).trans (Nat.add_le_add_right ?_ _)
  exact (Object.size_set_le _ _ _).trans (by simp [Object.size])

/-- An E4004 notice fits into a frame. -/
theorem good_notice {username : Bytes} {ts : Int} (short : username.length ≤ 32)
    (range : -2 ^ 63 ≤ ts ∧ ts < 2 ^ 63) :
    (WireFrame.notice (serialize (overpressureFrame username ts))).Good := by
  refine ⟨?_, username, ts, rfl⟩
  have fields := size_overpressureFrame_le username ts
  have constant : fieldSize (bytes "ver", .num 1) + fieldSize (bytes "type", .str (bytes "ERR")) +
      fieldSize (bytes "from", .str serverName) + fieldSize (bytes "room", .str []) +
      fieldSize (bytes "code", .num ErrorCode.backpressure.value) +
      fieldSize (bytes "content",
        .str (bytes "发送积压超限（读取过慢）：连接将被关闭，请稍后慢速重连")) ≤ 500 := by
    decide +kernel
  have keys : (quote (bytes "to")).length = 4 ∧ (quote (bytes "ts")).length = 4 := by
    decide +kernel
  have name : fieldSize (bytes "to", .str username) ≤ 200 := by
    have text := length_quote_le username
    simp only [fieldSize, serializeValue, keys]
    omega
  have time : fieldSize (bytes "ts", .num ts) ≤ 27 := by
    have text := length_toDecimal_le range.1 range.2
    simp only [fieldSize, serializeValue, keys]
    omega
  have text := length_serialize_le (overpressureFrame username ts)
  simp only [kMaxFrame]
  omega

/-- The TLS part of the drain loop hands over bytes from the front of the queue. -/
theorem consumes_drainTls (rounds : Nat) (c : SendSide) (results : List WriteResult) :
    Consumes c.outbuf (SendSide.drainTls rounds c results).1.writes
        (SendSide.drainTls rounds c results).1.side.outbuf ∧
      (SendSide.drainTls rounds c results).1.side.tls = c.tls := by
  induction rounds generalizing c results with
  | zero => exact ⟨.nil _, rfl⟩
  | succ rounds inductionHypothesis =>
      unfold SendSide.drainTls
      split
      next => exact ⟨.nil _, rfl⟩
      next =>
        dsimp only
        split
        next => exact ⟨.unsettled (List.take_append_drop _ _) (.nil _), rfl⟩
        next =>
          split
          next => exact ⟨.nil _, rfl⟩
          next =>
            let p := SendSide.writeProgress c.outbuf.length results 0 0
            have later := inductionHypothesis { c with outbuf := c.outbuf.drop p.sent } p.results
            refine ⟨?_, later.2⟩
            have step : Consumes (c.outbuf.take p.sent ++ c.outbuf.drop p.sent) _ _ :=
              .stream later.1
            rwa [List.take_append_drop] at step

theorem consumes_drainOutLocked (c : SendSide) (results : List WriteResult) :
    Consumes c.outbuf (c.drainOutLocked results).1.writes
        (c.drainOutLocked results).1.side.outbuf ∧
      (c.drainOutLocked results).1.side.tls = c.tls := by
  unfold SendSide.drainOutLocked
  split
  · exact ⟨.nil _, rfl⟩
  · split
    · exact ⟨.nil _, rfl⟩
    · split
      · exact consumes_drainTls _ c results
      · refine ⟨?_, rfl⟩
        let p := SendSide.writePlain c.outbuf.length results 0
        have step : Consumes (c.outbuf.take p.sent ++ c.outbuf.drop p.sent)
            [.stream (c.outbuf.take p.sent)] (c.outbuf.drop p.sent) := .stream (.nil _)
        rwa [List.take_append_drop] at step

theorem Consumes.append {outbuf outbuf' outbuf'' : Bytes} {writes writes' : List Write}
    (first : Consumes outbuf writes outbuf') (second : Consumes outbuf' writes' outbuf'') :
    Consumes outbuf (writes ++ writes') outbuf'' := by
  induction first with
  | nil => exact second
  | stream later inductionHypothesis => exact .stream (inductionHypothesis second)
  | unsettled queued later inductionHypothesis =>
      exact .unsettled queued (inductionHypothesis second)
  | notice good later inductionHypothesis => exact .notice good (inductionHypothesis second)

theorem consumes_notify (c : SendSide) (s : SendStep) (results : List WriteResult) :
    Consumes c.outbuf (c.notifyOverpressure s.username s.ts results) c.outbuf := by
  unfold SendSide.notifyOverpressure
  split
  · exact .notice (good_notice s.short s.range) (.nil _)
  · exact .nil _

theorem consumes_sendLocked (c : SendSide) (s : SendStep) (body : Bytes)
    (isOpen : c.isOpen = true) :
    Consumes (c.outbuf ++ makeWireFrame body)
        (c.sendLocked body s.username s.ts s.results).writes
        (c.sendLocked body s.username s.ts s.results).side.outbuf ∧
      (c.sendLocked body s.username s.ts s.results).side.tls = c.tls := by
  unfold SendSide.sendLocked
  rw [if_neg (by simp [isOpen])]
  dsimp only
  split
  · exact ⟨consumes_notify { c with outbuf := c.outbuf ++ makeWireFrame body } s s.results, rfl⟩
  · split
    · exact ⟨.nil _, rfl⟩
    · exact consumes_drainOutLocked { c with outbuf := c.outbuf ++ makeWireFrame body } s.results

theorem length_le_of_bodyOf {obj : Object} {seq : Int} {body : Bytes}
    (passed : SendSide.bodyOf obj seq = some body) : body.length ≤ kMaxFrame := by
  unfold SendSide.bodyOf at passed
  dsimp only at passed
  split at passed
  · simp at passed
  · obtain rfl : _ = body := by simpa using passed
    omega

theorem length_le_of_body {c : SendSide} {op : SendSide.Op} {body : Bytes}
    (passed : op.body c = some body) : body.length ≤ kMaxFrame := by
  cases op with
  | sendFrame obj | sendRelay obj originSeq =>
      simp only [SendSide.Op.body] at passed
      split at passed
      · exact length_le_of_bodyOf passed
      · simp at passed
  | drainSlow | close => simp [SendSide.Op.body] at passed

/-- A section queues the packet it passes to `sendLocked`, and its writes come from
the front of the queue or are notices. -/
theorem consumes_run (c : SendSide) (s : SendStep) :
    Consumes (c.outbuf ++ (s.op.body c).toList.flatMap makeWireFrame)
        (c.run s.op s.username s.ts s.results).writes
        (c.run s.op s.username s.ts s.results).side.outbuf ∧
      (c.run s.op s.username s.ts s.results).side.tls = c.tls := by
  cases op : s.op with
  | sendFrame obj =>
      cases isOpen : c.isOpen
      · simp [SendSide.run, SendSide.sendFrame, SendSide.Op.body, isOpen, Consumes.nil]
      · unfold SendSide.run SendSide.sendFrame SendSide.Op.body
        dsimp only
        rw [if_pos isOpen, if_neg (not_not.mpr isOpen)]
        cases SendSide.bodyOf obj (c.sendSeq + 1) with
        | none => simpa using Consumes.nil _
        | some body =>
            simpa using consumes_sendLocked { c with sendSeq := c.sendSeq + 1 } s body isOpen
  | sendRelay obj originSeq =>
      cases isOpen : c.isOpen
      · simp [SendSide.run, SendSide.sendRelay, SendSide.Op.body, isOpen, Consumes.nil]
      · unfold SendSide.run SendSide.sendRelay SendSide.Op.body
        dsimp only
        rw [if_pos isOpen, if_neg (not_not.mpr isOpen)]
        cases SendSide.bodyOf obj originSeq with
        | none => simpa using Consumes.nil _
        | some body => simpa using consumes_sendLocked c s body isOpen
  | drainSlow =>
      obtain ⟨drained, tls⟩ := consumes_drainOutLocked c s.results
      simp only [SendSide.run, SendSide.drainSlow, SendSide.Op.body, Option.toList_none,
        List.flatMap_nil, List.append_nil]
      split
      · exact ⟨drained, tls⟩
      · exact ⟨drained.append (consumes_notify _ s _), tls⟩
  | close => simpa [SendSide.run, SendSide.close, SendSide.Op.body] using Consumes.nil _

/-! ## Sound runs -/

/-- The step lemma. -/
theorem Inv.step {c : Channel} {s : SendStep} (inv : Inv c.side.tls c.calls c.side.outbuf c.wire)
    (sound : c.soundStep s = true) :
    Inv (c.step s).side.tls (c.step s).calls (c.step s).side.outbuf (c.step s).wire := by
  obtain ⟨consumes, tls⟩ := consumes_run c.side s
  have called : Inv c.side.tls (c.calls ++ (s.op.body c.side).toList)
      (c.side.outbuf ++ (s.op.body c.side).toList.flatMap makeWireFrame) c.wire := by
    cases passed : s.op.body c.side with
    | none => simpa using inv
    | some body => simpa using inv.call (length_le_of_body passed)
  have next := called.consumes consumes sound
  simpa only [Channel.step, tls] using next

theorem Inv.framed {c : Channel} (inv : Inv c.side.tls c.calls c.side.outbuf c.wire) :
    Framed c := by
  obtain ⟨frames, good, starts, packets⟩ := inv.prefixed
  refine ⟨⟨frames, good, starts, packets, ?_⟩, inv.plain⟩
  refine FrameReader.readAll_eq_of_starts (fun body there => ?_) starts
  obtain ⟨frame, membership, rfl⟩ := List.mem_map.mp there
  exact (good frame membership).short

/-- Nothing has been handed over. -/
theorem inv_nil : Inv tls [] [] [] := by
  refine ⟨⟨[], by simp, List.prefix_refl _, List.prefix_refl _⟩, fun _ => ⟨[], [], [], ?_⟩,
    by simp⟩
  exact ⟨by simp, by simp, rfl, rfl, rfl, rfl, .inl rfl⟩

/-- The stream of a connection stays framed in every run whose writes are sound. -/
theorem framed_of_soundRun (tls : Bool) (steps : List SendStep)
    (sound : soundRun { side := { tls } } steps = true) :
    Framed (run { side := { tls } } steps) := by
  suffices kept : ∀ (c : Channel), Inv c.side.tls c.calls c.side.outbuf c.wire →
      c.soundRun steps = true → Framed (c.run steps) from kept _ inv_nil sound
  clear sound
  induction steps with
  | nil => exact fun c inv _ => inv.framed
  | cons s steps inductionHypothesis =>
      intro c inv sound
      simp only [soundRun, Bool.and_eq_true] at sound
      exact inductionHypothesis (c.step s) (inv.step sound.1) sound.2

/-- A packet is written in part and its rest is drained. -/
def drainedSteps : List SendStep :=
  [{ op := .sendFrame (pongFrame (bytes "u") [] 1700000000), username := bytes "u",
     ts := 1700000000, results := [.accepted 1, .wouldBlock], short := by decide +kernel },
   { op := .drainSlow, username := bytes "u", ts := 1700000005,
     results := [.accepted 1000], short := by decide +kernel }]

theorem framed_drainedSteps : Framed (run { side := {} } drainedSteps) :=
  framed_of_soundRun false drainedSteps (by decide +kernel)

/-- A packet is written in part, the drain fails with an error, and the socket takes
the notice. -/
def overtakenSteps : List SendStep :=
  [{ op := .sendFrame (pongFrame (bytes "u") [] 1700000000), username := bytes "u",
     ts := 1700000000, results := [.accepted 1, .wouldBlock], short := by decide +kernel },
   { op := .drainSlow, username := bytes "u", ts := 1700000005,
     results := [.failed, .accepted 1000], short := by decide +kernel }]

/-- The notice overtakes the rest of the packet, and the reader takes out an empty
frame that nobody sent. -/
theorem not_framed_overtakenSteps : ¬ Framed (run { side := {} } overtakenSteps) := by
  intro framed
  obtain ⟨frames, good, -, packets, full, later, part, bodies, -, -, read⟩ := framed.frames
  have empty : ([] : Bytes) ∈ full := by
    let got := Write.handed (run { side := {} } overtakenSteps).wire
    have delivered : ([] : Bytes) ∈ ({ buf := got } : FrameReader).readAll.1 := by
      decide +kernel
    rwa [read] at delivered
  have among : ([] : Bytes) ∈ frames.map WireFrame.body := by
    rw [bodies]
    exact List.mem_append_left _ empty
  obtain ⟨frame, there, nothing⟩ := List.mem_map.mp among
  cases frame with
  | packet body =>
      obtain rfl : body = [] := nothing
      have called := packets.subset (List.mem_filterMap.mpr ⟨_, there, rfl⟩)
      exact absurd called (by decide +kernel)
  | notice body =>
      obtain rfl : body = [] := nothing
      obtain ⟨-, username, ts, text⟩ := good _ there
      simp [serialize, serializeValue] at text

end Channel

end OnlineChat
