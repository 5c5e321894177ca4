import OnlineChat.MiniJson.RoundTrip
import OnlineChat.Server.Program

/-!
# Which messages fit into the queue of a connection

A relay is refused when its packet is longer than the queue may be, also when the queue
was empty.  The limit of the queue is a quarter of that of a frame.
-/

namespace OnlineChat

open MiniJson ChatServer SendSide

/-! ## The length of a relay -/

theorem length_serializeFields_eq (fields : List (Bytes × Value)) (nonempty : fields ≠ []) :
    (serializeFields fields).length + 1 = (fields.map fieldSize).sum := by
  induction fields with
  | nil => exact absurd rfl nonempty
  | cons field fields inductionHypothesis =>
      obtain ⟨k, v⟩ := field
      cases fields with
      | nil => simp [serializeFields, fieldSize]; omega
      | cons next fields =>
          have rest := inductionHypothesis (List.cons_ne_nil _ _)
          simp only [serializeFields, List.length_append, List.length_cons, List.map_cons,
            List.sum_cons, fieldSize] at rest ⊢
          omega

theorem length_serialize_eq {o : Object} (nonempty : o.fields ≠ []) :
    (serialize o).length = o.size + 1 := by
  have fields := length_serializeFields_eq o.fields nonempty
  simp only [serialize, serializeValue, List.length_cons, List.length_append, List.length_nil,
    Object.size]
  omega

theorem fieldSize_str (k s : Bytes) :
    fieldSize (k, .str s) = (quote k).length + (escapeString s).length + 4 := by
  simp [fieldSize, serializeValue, quote]
  omega

theorem fieldSize_num (k : Bytes) (n : Int) :
    fieldSize (k, .num n) = (quote k).length + (toDecimal n).length + 2 := rfl

section Lengths

variable (sender receiver room content : Bytes) (ts seq : Int)

/-- The length of the packet of a MESSAGE. -/
def relaySize : Nat :=
  84 + (escapeString sender).length + (escapeString receiver).length + (escapeString room).length +
    (escapeString content).length + (toDecimal ts).length + (toDecimal seq).length

theorem fields_messageFrame : (messageFrame sender receiver room content ts).fields =
    [(bytes "ver", .num 1), (bytes "type", .str (bytes "MESSAGE")), (bytes "from", .str sender),
      (bytes "to", .str receiver), (bytes "room", .str room), (bytes "content", .str content),
      (bytes "ts", .num ts)] := by
  unfold messageFrame
  simp [header, Object.setStr, Object.setNum, Object.set]
  rfl

theorem keys_messageFrame : (messageFrame sender receiver room content ts).fields.map Prod.fst =
    [bytes "ver", bytes "type", bytes "from", bytes "to", bytes "room", bytes "content",
      bytes "ts"] := by
  rw [fields_messageFrame]
  rfl

/-- The size of a MESSAGE before its `seq` is set. -/
theorem size_messageFrame : (messageFrame sender receiver room content ts).size + 12 +
    (toDecimal seq).length = relaySize sender receiver room content ts seq := by
  have keys : (quote (bytes "ver")).length = 5 ∧ (quote (bytes "type")).length = 6 ∧
      (quote (bytes "from")).length = 6 ∧ (quote (bytes "to")).length = 4 ∧
      (quote (bytes "room")).length = 6 ∧ (quote (bytes "content")).length = 9 ∧
      (quote (bytes "ts")).length = 4 := by decide +kernel
  have version : (toDecimal 1).length = 1 := by decide +kernel
  have type : (escapeString (bytes "MESSAGE")).length = 7 := by decide +kernel
  simp only [Object.size, fields_messageFrame, List.map_cons, List.map_nil, List.sum_cons,
    List.sum_nil, fieldSize_str, fieldSize_num, keys, version, type, relaySize]
  omega

end Lengths

theorem Object.size_set_of_notMem {o : Object} {k : Bytes} {v : Value}
    (fresh : k ∉ o.fields.map Prod.fst) : (o.set k v).size = o.size + fieldSize (k, v) := by
  have appends : o.set k v = ⟨o.fields ++ [(k, v)]⟩ := set_of_notMem fresh
  simp [appends, Object.size]

/-- The packet that `sendRelay` queues. -/
theorem length_packet {o : Object} {seq : Int} (fresh : bytes "seq" ∉ o.fields.map Prod.fst) :
    (makeWireFrame (serialize (o.setNum (bytes "seq") seq))).length =
      o.size + 12 + (toDecimal seq).length := by
  have key : (quote (bytes "seq")).length = 5 := by decide +kernel
  have shape : o.setNum (bytes "seq") seq = ⟨o.fields ++ [(bytes "seq", .num seq)]⟩ :=
    set_of_notMem fresh
  have size : (o.setNum (bytes "seq") seq).size = o.size + fieldSize (bytes "seq", .num seq) :=
    Object.size_set_of_notMem fresh
  rw [length_makeWireFrame, length_serialize_eq (by simp [shape]), size, fieldSize_num, key]
  omega

theorem length_live (sender receiver room content : Bytes) (ts seq : Int) :
    (makeWireFrame (serialize ((messageFrame sender receiver room content ts).setNum
      (bytes "seq") seq))).length = relaySize sender receiver room content ts seq := by
  rw [length_packet (by rw [keys_messageFrame]; decide +kernel), size_messageFrame]

/-- An offline row that is pushed carries the field `offline` as well. -/
theorem length_offline (receiver : Bytes) (row : OffRow) :
    (makeWireFrame (serialize ((offlineFrame receiver row).setNum (bytes "seq") 0))).length =
      12 + relaySize row.sender receiver [] row.content row.ts 0 := by
  have fresh : bytes "offline" ∉
      (messageFrame row.sender receiver [] row.content row.ts).fields.map Prod.fst := by
    rw [keys_messageFrame]
    decide +kernel
  have shape : offlineFrame receiver row =
      ⟨(messageFrame row.sender receiver [] row.content row.ts).fields ++
        [(bytes "offline", .num 1)]⟩ := set_of_notMem fresh
  have size : (offlineFrame receiver row).size =
      (messageFrame row.sender receiver [] row.content row.ts).size +
        fieldSize (bytes "offline", .num 1) := Object.size_set_of_notMem fresh
  have key : (quote (bytes "offline")).length = 9 := by decide +kernel
  have one : (toDecimal 1).length = 1 := by decide +kernel
  have base := size_messageFrame row.sender receiver [] row.content row.ts 0
  rw [length_packet, size, fieldSize_num, key, one]
  · omega
  · rw [shape, List.map_append, keys_messageFrame]
    decide +kernel

/-! ## A reader that keeps up -/

variable {c : SendSide} {obj : Object} {seq ts : Int} {user : Bytes}
  {results : List WriteResult}

/-- Nothing is queued, and the socket takes whatever a frame may hold. -/
structure KeepsUp (c : SendSide) (results : List WriteResult) : Prop where
  isOpen : c.isOpen = true
  idle : c.outbuf = []
  takes : ∃ n rest, results = .accepted n :: rest ∧ kMaxFrame + 4 ≤ n

/-- Nothing is left to be written. -/
theorem write_done (len retries : Nat) (results : List WriteResult) :
    writeProgress len results retries len = ⟨len, true, results⟩ ∧
      writePlain len results len = ⟨len, true, results⟩ := by
  cases results with
  | nil => exact ⟨rfl, rfl⟩
  | cons r rest => cases r <;> simp [writeProgress, writePlain]

/-- The whole queue goes out in one write. -/
theorem drainOutLocked_all {n : Nat} {rest : List WriteResult} (isOpen : c.isOpen = true)
    (nonempty : c.outbuf ≠ []) (fits : c.outbuf.length ≤ n) :
    c.drainOutLocked (.accepted n :: rest) =
      (⟨true, { c with outbuf := [] }, [.stream c.outbuf]⟩, rest) := by
  have positive := List.length_pos_iff.mpr nonempty
  have all : min n (c.outbuf.length - 0) = c.outbuf.length := by omega
  unfold drainOutLocked
  rw [if_neg nonempty, if_neg (by simp [isOpen])]
  split
  · have progress : writeProgress c.outbuf.length (.accepted n :: rest) 0 0 =
        ⟨c.outbuf.length, true, rest⟩ := by
      rw [writeProgress, if_neg (by omega), if_neg (by omega), all, Nat.zero_add]
      exact (write_done _ _ _).1
    rw [List.length_cons, drainTls, if_neg nonempty, progress]
    simp only [not_true_eq_false, if_false, positive.ne', List.drop_length, List.take_length]
    rw [drainTls]
    rfl
  · have progress : writePlain c.outbuf.length (.accepted n :: rest) 0 =
        ⟨c.outbuf.length, true, rest⟩ := by
      rw [writePlain, if_neg (by omega), if_neg (by omega), all, Nat.zero_add]
      exact (write_done _ 0 _).2
    simp only [progress, List.drop_length, List.take_length]

theorem makeWireFrame_ne_nil (body : Bytes) : makeWireFrame body ≠ [] := by
  intro empty
  have length := length_makeWireFrame body
  rw [empty, List.length_nil] at length
  omega

/-- A packet that fits into the queue goes out at once. -/
theorem sendLocked_all {body : Bytes} (up : KeepsUp c results)
    (fits : (makeWireFrame body).length ≤ kSendQueueCap) :
    c.sendLocked body user ts results =
      ⟨true, { c with outbuf := [] }, [.stream (makeWireFrame body)]⟩ := by
  obtain ⟨isOpen, idle, n, rest, rfl, takes⟩ := up
  have drained : ({ c with outbuf := makeWireFrame body } : SendSide).drainOutLocked
      (.accepted n :: rest) =
        (⟨true, { c with outbuf := [] }, [.stream (makeWireFrame body)]⟩, rest) := by
    apply drainOutLocked_all (c := { c with outbuf := makeWireFrame body }) isOpen
      (makeWireFrame_ne_nil body)
    simp only [kMaxFrame, kSendQueueCap] at takes fits ⊢
    omega
  unfold sendLocked
  rw [if_neg (by simp [isOpen])]
  simp only [idle, List.nil_append]
  rw [if_neg (Nat.not_lt.mpr fits), if_neg (by simp), drained]

/-- `sendRelay` to a reader that keeps up succeeds when the packet fits into the queue,
and only then. -/
theorem sendRelay_ok_iff (up : KeepsUp c results) :
    (c.sendRelay obj seq user ts results).ok = true ↔
      (makeWireFrame (serialize (obj.setNum (bytes "seq") seq))).length ≤ kSendQueueCap := by
  have length := length_makeWireFrame (serialize (obj.setNum (bytes "seq") seq))
  unfold sendRelay bodyOf
  rw [if_neg (by simp [up.isOpen])]
  by_cases long : kMaxFrame < (serialize (obj.setNum (bytes "seq") seq)).length
  · simp only [if_pos long, Bool.false_eq_true, false_iff, not_le]
    simp only [kMaxFrame, kSendQueueCap] at long ⊢
    omega
  · simp only [if_neg long]
    by_cases fits : (makeWireFrame (serialize (obj.setNum (bytes "seq") seq))).length ≤
        kSendQueueCap
    · rw [sendLocked_all up fits]
      exact iff_of_true rfl fits
    · unfold sendLocked
      rw [if_neg (by simp [up.isOpen])]
      simp only [up.idle, List.nil_append]
      rw [if_pos (Nat.lt_of_not_le fits)]
      exact iff_of_false Bool.false_ne_true fits

/-! ## Messages -/

variable {st : Startup} {m : ChatMsg} {room body : Bytes}

/-- A body in a frame of at most `kMaxFrame` bytes is handled as a MESSAGE, and `doMessage`
takes it for a room or for a user. -/
def Accepted (st : Startup) (body : Bytes) (m : ChatMsg) : Prop :=
  body.length ≤ kMaxFrame ∧ ∃ (s s' s'' : ChatServer) (c : ConnId) (e e' : Ext)
    (obj : Object),
    handleBody s c e body = ([.limit (.doMessage obj)], false) ∧
    (doMessage st s' c e' obj).next = [.checkAndAdd m] ∧
    (s''.checkAndAdd m).2.2 =
      [if m.receiver = bytes "ALL" then .router (.routeRoom m) else .db (.findReceiver m)]

/-- The offline row of a message under its key. -/
def ChatMsg.kept (m : ChatMsg) (id : Int) : OffRow :=
  { id, sender := cStr m.sender, content := cStr m.content, ts := m.ts }

/-- A message for `room`, or for a user, reaches everyone who keeps up: each relay of it
succeeds, so that nobody is dropped and no row is kept, and so does the push of its offline
row, which is then marked. -/
structure Reaching (st : Startup) (m : ChatMsg) (room : Bytes) : Prop where
  room : m.receiver = bytes "ALL" → ∀ (s : ChatServer) c e v rest,
    KeepsUp (s.sides v) e.writes →
      (runIo st s c e (.relayEach m room (v :: rest))).map Effect.next =
        some [.io (.relayEach m room rest)]
  user : m.receiver ≠ bytes "ALL" → ∀ (s : ChatServer) c e v, KeepsUp (s.sides v) e.writes →
    (runIo st s c e (.relayTarget m v)).map Effect.next = some []
  push : m.receiver ≠ bytes "ALL" → ∀ (s : ChatServer) c e id rest,
    KeepsUp (s.sides c) e.writes →
      (runIo st s c e (.pushRows m.receiver (m.kept id :: rest))).map Effect.next =
        some [.db (.markDelivered m.receiver id rest none)]

/-- The packets of a message fit into the queue. -/
def ChatMsg.Fits (m : ChatMsg) (room : Bytes) : Prop :=
  if m.receiver = bytes "ALL" then
    relaySize m.sender (bytes "ALL") room m.content m.ts m.seq ≤ kSendQueueCap
  else
    relaySize m.sender m.receiver [] m.content m.ts m.seq ≤ kSendQueueCap ∧
      12 + relaySize (cStr m.sender) m.receiver [] (cStr m.content) m.ts 0 ≤ kSendQueueCap

/-- There is a reader that keeps up. -/
def idleServer : ChatServer :=
  { tokens := { ttlSec := 0 }, connLimit := limiterOf 0 0, msgLimit := limiterOf 0 0 }

theorem keepsUp_idle : KeepsUp (idleServer.sides 1) [.accepted (kMaxFrame + 4)] :=
  ⟨rfl, rfl, _, _, rfl, Nat.le_refl _⟩

/-- A section succeeds when `P` holds, and only then. -/
theorem next_sendSection {s : ChatServer} {v : ConnId} {result : Section} {events : List IoEvent}
    {sent lost : List Cmd} {P : Prop} (decides : result.ok = true ↔ P) (apart : sent ≠ lost) :
    (s.sendSection v result events sent lost).next = sent ↔ P := by
  rw [← decides]
  cases ok : result.ok <;> simp [sendSection, ok, apart.symm]

section Sections

variable (st : Startup) (s : ChatServer) (c v : ConnId) (e : Ext) (m : ChatMsg)

theorem next_relayEach (room : Bytes) (rest : List ConnId) (up : KeepsUp (s.sides v) e.writes) :
    (runIo st s c e (.relayEach m room (v :: rest))).map Effect.next =
        some [.io (.relayEach m room rest)] ↔
      relaySize m.sender (bytes "ALL") room m.content m.ts m.seq ≤ kSendQueueCap := by
  rw [← length_live]
  exact Option.some_inj.trans (next_sendSection (sendRelay_ok_iff up) (by simp))

theorem next_relayTarget (up : KeepsUp (s.sides v) e.writes) :
    (runIo st s c e (.relayTarget m v)).map Effect.next = some [] ↔
      relaySize m.sender m.receiver [] m.content m.ts m.seq ≤ kSendQueueCap := by
  rw [← length_live]
  exact Option.some_inj.trans (next_sendSection (sendRelay_ok_iff up) (by simp))

theorem next_pushRows (id : Int) (rest : List OffRow) (up : KeepsUp (s.sides c) e.writes) :
    (runIo st s c e (.pushRows m.receiver (m.kept id :: rest))).map Effect.next =
        some [.db (.markDelivered m.receiver id rest none)] ↔
      12 + relaySize (cStr m.sender) m.receiver [] (cStr m.content) m.ts 0 ≤ kSendQueueCap := by
  have length := length_offline m.receiver (m.kept id)
  rw [ChatMsg.kept] at length
  rw [← length]
  exact Option.some_inj.trans (next_sendSection (sendRelay_ok_iff up) (by simp))

end Sections

/-- A message reaches all who keep up if its packets fit into the queue, and only then. -/
theorem reaching_iff (st : Startup) (m : ChatMsg) (room : Bytes) :
    Reaching st m room ↔ m.Fits room := by
  let e : Ext := { writes := [.accepted (kMaxFrame + 4)] }
  unfold ChatMsg.Fits
  split
  next all =>
    constructor
    · intro reaching
      apply (next_relayEach st idleServer 0 1 e m room [] keepsUp_idle).mp
      exact reaching.room all _ _ e 1 [] keepsUp_idle
    · intro fits
      refine ⟨?_, fun one => absurd all one, fun one => absurd all one⟩
      intro _ s c e v rest up
      exact (next_relayEach st s c v e m room rest up).mpr fits
  next one =>
    constructor
    · intro reaching
      refine ⟨?_, ?_⟩
      · apply (next_relayTarget st idleServer 0 1 e m keepsUp_idle).mp
        exact reaching.user one _ _ e 1 keepsUp_idle
      · apply (next_pushRows st idleServer 1 e m 0 [] keepsUp_idle).mp
        exact reaching.push one _ _ e 0 [] keepsUp_idle
    · rintro ⟨live, kept⟩
      refine ⟨fun all => absurd all one, ?_, ?_⟩
      · intro _ s c e v up
        exact (next_relayTarget st s c v e m up).mpr live
      · intro _ s c e id rest up
        exact (next_pushRows st s c e m id rest up).mpr kept

/-! ## A message that does not fit -/

theorem escapeString_replicate (n : Nat) : escapeString (List.replicate n 97) = List.replicate n 97 := by
  induction n with
  | zero => rfl
  | succ n inductionHypothesis =>
      have step : escapeString (97 :: List.replicate n 97) =
          97 :: escapeString (List.replicate n 97) := rfl
      rw [List.replicate_succ, step, inductionHypothesis]

/-- The frame in which that content is sent to a user. -/
def frameTo (receiver content : Bytes) : Object :=
  ⟨[(bytes "type", .str (bytes "MESSAGE")), (bytes "to", .str receiver),
    (bytes "seq", .num 1), (bytes "ts", .num 1), (bytes "content", .str content)]⟩

/-- The message that it stands for when alice has sent it. -/
def messageTo (receiver content : Bytes) : ChatMsg :=
  { sender := bytes "alice", seq := 1, receiver, content, ts := 1 }

/-- The frame in which that content is sent to bob. -/
def frameToBob (content : Bytes) : Object :=
  ⟨[(bytes "type", .str (bytes "MESSAGE")), (bytes "to", .str (bytes "bob")),
    (bytes "seq", .num 1), (bytes "ts", .num 1), (bytes "content", .str content)]⟩

/-- The message that it stands for when alice has sent it. -/
def messageToBob (content : Bytes) : ChatMsg :=
  { sender := bytes "alice", seq := 1, receiver := bytes "bob", content, ts := 1 }

/-- Alice is logged in on connection 1. -/
def aliceServer : ChatServer :=
  { idleServer with sess := { username := fun _ => bytes "alice", authed := fun _ => true } }

theorem accepted_frameTo {receiver : Bytes} (valid : validUsername receiver = true)
    (content : Bytes) (small : (serialize (frameTo receiver content)).length ≤ kMaxFrame) :
    Accepted Demo.startup (serialize (frameTo receiver content)) (messageTo receiver content) := by
  have parsed : parse (serialize (frameTo receiver content)) = .ok (frameTo receiver content) := by
    apply parse_serialize_of_plain
    refine ⟨?_, trivial, trivial, ⟨by decide, by decide⟩, ⟨by decide, by decide⟩, trivial, trivial⟩
    show [bytes "type", bytes "to", bytes "seq", bytes "ts", bytes "content"].Nodup
    decide +kernel
  have checks : receiver ≠ [] ∧ receiver ≠ bytes "SERVER" ∧ receiver ≠ bytes "ALL" := by
    refine ⟨ne_nil_of_validName valid, ?_, ?_⟩
    all_goals
      rintro rfl
      revert valid
      decide +kernel
  refine ⟨small, aliceServer, aliceServer, aliceServer, 1, {}, {}, frameTo receiver content, ?_, ?_,
    ?_⟩
  · unfold handleBody
    rw [parsed]
    rfl
  · rfl
  · have first : aliceServer.dedup.checkAndAdd (bytes "alice") 1 =
        (true, (aliceServer.dedup.checkAndAdd (bytes "alice") 1).2) := rfl
    unfold ChatServer.checkAndAdd messageTo
    rw [first]
    simp [checks, valid]

theorem length_frameTo (receiver content : Bytes) : (serialize (frameTo receiver content)).length =
    54 + (escapeString receiver).length + (escapeString content).length := by
  have constant : fieldSize (bytes "type", .str (bytes "MESSAGE")) +
      fieldSize (bytes "seq", .num 1) + fieldSize (bytes "ts", .num 1) +
      (quote (bytes "to")).length + (quote (bytes "content")).length + 8 = 53 := by
    decide +kernel
  rw [length_serialize_eq (by simp [frameTo])]
  simp only [Object.size, frameTo, List.map_cons, List.map_nil, List.sum_cons, List.sum_nil,
    fieldSize_str (bytes "content"), fieldSize_str (bytes "to")]
  omega

theorem accepted_frameToBob (content : Bytes)
    (small : (serialize (frameToBob content)).length ≤ kMaxFrame) :
    Accepted Demo.startup (serialize (frameToBob content)) (messageToBob content) :=
  accepted_frameTo (by decide) content small

theorem length_frameToBob (content : Bytes) :
    (serialize (frameToBob content)).length = 57 + (escapeString content).length := by
  have bob : (escapeString (bytes "bob")).length = 3 := by decide +kernel
  have length := length_frameTo (bytes "bob") content
  rw [bob] at length
  exact length

/-- A content of 256 KiB is accepted in a frame far below the limit, and its relay to a
reader that keeps up is refused. -/
theorem accepted_unreachable : ∃ body m, body.length ≤ kMaxFrame / 2 ∧
    Accepted Demo.startup body m ∧ ¬ Reaching Demo.startup m [] := by
  obtain ⟨content, length⟩ : ∃ content, (escapeString content).length = kSendQueueCap :=
    ⟨List.replicate kSendQueueCap 97, by rw [escapeString_replicate, List.length_replicate]⟩
  have short : (serialize (frameToBob content)).length ≤ kMaxFrame / 2 := by
    rw [length_frameToBob, length]
    decide
  refine ⟨_, messageToBob content, short,
    accepted_frameToBob content (Nat.le_trans short (by decide)), ?_⟩
  intro reaching
  have private' : bytes "bob" ≠ bytes "ALL" := by decide +kernel
  have sent := (next_relayTarget Demo.startup idleServer 0 1 _ _ keepsUp_idle).mp
    (reaching.user private' idleServer 0 { writes := [.accepted (kMaxFrame + 4)] } 1 keepsUp_idle)
  simp only [relaySize, messageToBob] at sent
  omega

end OnlineChat
