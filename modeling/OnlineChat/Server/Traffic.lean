import OnlineChat.Codec
import OnlineChat.Library.Recording
import OnlineChat.Server.Frames
import OnlineChat.Server.Passages
import OnlineChat.Server.Rounds

/-!
# From the socket to the tables

Each connection has its own stream of bytes.  Its thread takes the frames out of the stream
in order, one after the other, and every message on its way, every row and every ACK comes
from a MESSAGE among the frames that were taken out.
-/

namespace OnlineChat

open Library MiniJson ChatServer

variable {st : Startup} {s : ChatServer} {c v : ConnId} {e : Ext} {w w' : World} {t t' : Thread}
  {k k' n : Cmd} {rest new : List Cmd} {File : Type} {file : Database File} {b : BootExt}
  {m : ChatMsg} {r r' : FrameReader} {stream body : Bytes} {bodies : List Bytes}

/-! ## A reader and its stream -/

/-- The bodies that have come out of a stream, and what is left of it in the buffer. -/
structure Reads (r : FrameReader) (stream : Bytes) (bodies : List Bytes) : Prop where
  limit : r.maxFrame = kMaxFrame
  fits : ∀ body ∈ bodies, body.length ≤ kMaxFrame
  rest : r.failed = false → bodies.flatMap makeWireFrame ++ r.buf = stream
  taken : bodies.flatMap makeWireFrame <+: stream
  failure : r.failed = true → ∃ b0 b1 b2 b3, kMaxFrame < announced b0 b1 b2 b3 ∧
    bodies.flatMap makeWireFrame ++ [b0, b1, b2, b3] <+: stream

theorem reads_nil : Reads {} [] [] where
  limit := rfl
  fits := List.forall_mem_nil _
  rest _ := rfl
  taken := List.prefix_refl _
  failure := by rintro ⟨⟩

theorem Reads.feed (reads : Reads r stream bodies) (chunk : Bytes) :
    Reads (r.feed chunk) (stream ++ chunk) bodies := by
  have taken := reads.taken.trans (List.prefix_append stream chunk)
  cases failed : r.failed with
  | true =>
      rw [FrameReader.feed_of_failed failed]
      refine ⟨reads.limit, reads.fits, ?_, taken, ?_⟩
      · intro alive
        cases failed.symm.trans alive
      · intro _
        obtain ⟨b0, b1, b2, b3, long, before⟩ := reads.failure failed
        exact ⟨b0, b1, b2, b3, long, before.trans (List.prefix_append stream chunk)⟩
  | false =>
      rw [FrameReader.feed_of_alive failed]
      refine ⟨reads.limit, reads.fits, ?_, taken, ?_⟩
      · intro _
        rw [← reads.rest failed, List.append_assoc]
      · intro failed'
        cases failed.symm.trans failed'

/-- Four bytes are the prefix of the length that they announce. -/
theorem lengthPrefix_announced (b0 b1 b2 b3 : UInt8) :
    lengthPrefix (announced b0 b1 b2 b3) = [b0, b1, b2, b3] := by
  have h0 := b0.toNat_lt
  have h1 := b1.toNat_lt
  have h2 := b2.toNat_lt
  have h3 := b3.toNat_lt
  have first : announced b0 b1 b2 b3 / 16777216 = b0.toNat := by
    unfold announced
    omega
  have second : announced b0 b1 b2 b3 / 65536 % 256 = b1.toNat := by
    unfold announced
    omega
  have third : announced b0 b1 b2 b3 / 256 % 256 = b2.toNat := by
    unfold announced
    omega
  have fourth : announced b0 b1 b2 b3 % 256 = b3.toNat := by
    unfold announced
    omega
  unfold lengthPrefix
  simp only [List.cons.injEq, and_true]
  refine ⟨?_, ?_, ?_, ?_⟩ <;> apply UInt8.toNat_inj.mp <;> rw [UInt8.toNat_ofNat']
  · rw [first]
    exact Nat.mod_eq_of_lt h0
  · exact second
  · exact third
  · exact fourth

theorem Reads.took (reads : Reads r stream bodies) (took : r.next = (some body, r')) :
    Reads r' stream (bodies ++ [body]) := by
  obtain ⟨alive, alive', limit, b0, b1, b2, b3, size, short, buffered⟩ :=
    FrameReader.next_eq_some took
  have frame : makeWireFrame body ++ r'.buf = r.buf := by
    rw [buffered, makeWireFrame, ← size, lengthPrefix_announced]
    rfl
  have split : (bodies ++ [body]).flatMap makeWireFrame ++ r'.buf = stream := by
    rw [List.flatMap_append, List.flatMap_singleton, List.append_assoc, frame]
    exact reads.rest alive
  refine ⟨limit.trans reads.limit, ?_, fun _ => split, ⟨_, split⟩, ?_⟩
  · refine List.forall_mem_append.mpr ⟨reads.fits, List.forall_mem_singleton.mpr ?_⟩
    rw [← reads.limit]
    exact short
  · intro failed
    cases alive'.symm.trans failed

theorem Reads.idle (reads : Reads r stream bodies) (silent : r.next = (none, r')) :
    Reads r' stream bodies := by
  rcases FrameReader.next_eq_none silent with ⟨rfl, -⟩ |
    ⟨alive, rfl, b0, b1, b2, b3, rest, buffered, long⟩
  · exact reads
  · refine ⟨reads.limit, reads.fits, ?_, reads.taken, ?_⟩
    · rintro ⟨⟩
    · intro _
      refine ⟨b0, b1, b2, b3, reads.limit ▸ long, rest, ?_⟩
      rw [List.append_assoc, ← reads.rest alive, buffered]
      rfl

/-- A beginning of a sequence of frames that consists of frames. -/
theorem prefix_of_frames {bodies bodies' : List Bytes}
    (short : ∀ body ∈ bodies, body.length ≤ kMaxFrame)
    (short' : ∀ body ∈ bodies', body.length ≤ kMaxFrame)
    (starts : bodies.flatMap makeWireFrame <+: bodies'.flatMap makeWireFrame) :
    bodies <+: bodies' := by
  obtain ⟨full, later, part, split, -, -, read⟩ :=
    FrameReader.readAll_eq_of_starts short' starts
  have whole : ({ buf := bodies.flatMap makeWireFrame } : FrameReader).readAll = (bodies, {}) :=
    FrameReader.readAll_eq_iff.mpr (FrameReader.drains_frames fun body there =>
      ⟨short body there, Nat.lt_of_le_of_lt (short body there) (by decide)⟩)
  obtain rfl : full = bodies := congrArg Prod.fst (read.symm.trans whole)
  exact ⟨later, split.symm⟩

/-- A stream that starts like a sequence of frames is read as its first bodies, without failure,
and as all of them once it has arrived and nothing more comes out. -/
theorem Reads.of_starts {bodies' : List Bytes} (reads : Reads r stream bodies)
    (short : ∀ body ∈ bodies', body.length ≤ kMaxFrame)
    (starts : stream <+: bodies'.flatMap makeWireFrame) :
    bodies <+: bodies' ∧ r.failed = false ∧
      (stream = bodies'.flatMap makeWireFrame → r.next = (none, r) → bodies = bodies') := by
  obtain ⟨later, rfl⟩ := prefix_of_frames reads.fits short (reads.taken.trans starts)
  have alive : r.failed = false := by
    rw [← Bool.not_eq_true]
    intro failed
    obtain ⟨b0, b1, b2, b3, long, before⟩ := reads.failure failed
    have front := before.trans starts
    rw [List.flatMap_append, List.prefix_append_right_inj] at front
    cases later with
    | nil => simp at front
    | cons body later =>
        obtain ⟨rest, same⟩ := front
        have fits := short body (by simp)
        have len := announced_lengthPrefix (Nat.lt_of_le_of_lt fits (by decide))
        simp only [List.flatMap_cons, makeWireFrame, lengthPrefix, List.cons_append,
          List.nil_append, List.cons.injEq] at same
        obtain ⟨rfl, rfl, rfl, rfl, -⟩ := same
        rw [len] at long
        omega
  refine ⟨⟨later, rfl⟩, alive, ?_⟩
  intro complete silent
  have rest := reads.rest alive
  rw [complete, List.flatMap_append] at rest
  have buffered := List.append_cancel_left rest
  cases later with
  | nil => exact (List.append_nil _).symm
  | cons body later =>
      have fits := short body (by simp)
      rw [List.flatMap_cons] at buffered
      have taken := FrameReader.next_frame alive buffered (reads.limit ▸ fits)
        (Nat.lt_of_le_of_lt fits (by decide))
      cases (congrArg Prod.fst (silent.symm.trans taken))

/-! ## What arrives -/

inductive Traffic where
  | received (c : ConnId) (chunk : Bytes)
  /-- The handling of a body starts. -/
  | took (c : ConnId) (body : Bytes)
  /-- `sendRelay` is called for a connection, with a frame and its number. -/
  | offered (c : ConnId) (frame : Object) (seq : Int)
  /-- A body goes to the send side of a connection, or a notice to its socket. -/
  | sent (c : ConnId) (body : Bytes)

/-- The frame of a relay or a push, and its number. -/
def SendSide.Op.offer : SendSide.Op → Option (Object × Int)
  | .sendRelay frame seq => some (frame, seq)
  | _ => none

/-- What `recvLoop` receives and takes out of the reader, and what the sections under a
`send_m` send. -/
def traffic (t : Thread) (e : Ext) (k : Cmd) (w : World) : List Traffic :=
  match k with
  | .own .recvLoop =>
      match e.received with
      | .data chunk => if chunk = [] then [] else [.received t.conn (chunk.take 4096)]
      | _ => []
  | .own .frames =>
      match (w.server.clients t.conn).reader.next with
      | (some body, _) => [.took t.conn body]
      | (none, _) => []
  | .io k =>
      match sideOp w.server t.conn e k with
      | some (v, op, ts) =>
          let side := w.server.sides v
          op.offer.toList.map (fun offer => .offered v offer.1 offer.2) ++ ((op.body side).toList ++
            notices (side.run op (w.server.sess.username v) ts e.writes).writes).map (.sent v)
      | none => []
  | _ => []

def Traffic.chunkOf (c : ConnId) : Traffic → Bytes
  | .received c' chunk => if c' = c then chunk else []
  | _ => []

def Traffic.bodyOf (c : ConnId) : Traffic → Option Bytes
  | .took c' body => if c' = c then some body else none
  | _ => none

def Traffic.sentBody (c : ConnId) : Traffic → Option Bytes
  | .sent c' body => if c' = c then some body else none
  | _ => none

/-- The bytes that have arrived on a connection, and the bodies that were taken out of them. -/
def streamOf (c : ConnId) (notes : List Traffic) : Bytes := notes.flatMap (Traffic.chunkOf c)

def bodiesOf (c : ConnId) (notes : List Traffic) : List Bytes := notes.filterMap (Traffic.bodyOf c)

/-- The bodies that were sent on a connection. -/
def sentTo (c : ConnId) (notes : List Traffic) : List Bytes := notes.filterMap (Traffic.sentBody c)

/-- The server with that history. -/
abbrev taking (st : Startup) : Program Thread Ext Cmd (World × List Traffic) :=
  (server st).recording traffic

/-- Each connection reads its own stream. -/
def Reading (x : World × List Traffic) : Prop :=
  ∀ c, Reads (x.1.server.clients c).reader (streamOf c x.2) (bodiesOf c x.2)

/-- Nothing arrives on the connection. -/
theorem streamOf_append_of_silent {notes more : List Traffic}
    (silent : ∀ note ∈ more, note.chunkOf c = [] ∧ note.bodyOf c = none) :
    streamOf c (notes ++ more) = streamOf c notes ∧ bodiesOf c (notes ++ more) = bodiesOf c notes := by
  constructor
  · unfold streamOf
    rw [List.flatMap_append, List.append_right_eq_self, List.flatMap_eq_nil_iff]
    exact fun note there => (silent note there).1
  · unfold bodiesOf
    rw [List.filterMap_append, List.append_right_eq_self, List.filterMap_eq_nil_iff]
    exact fun note there => (silent note there).2

/-- A connection is read by its own thread. -/
theorem silent_of_ne (apart : v ≠ t.conn) :
    ∀ note ∈ traffic t e k w, note.chunkOf v = [] ∧ note.bodyOf v = none := by
  intro note there
  unfold traffic at there
  split at there
  · split at there
    · split at there
      · cases there
      · obtain rfl := List.mem_singleton.mp there
        exact ⟨if_neg apart.symm, rfl⟩
    · cases there
  · split at there
    · obtain rfl := List.mem_singleton.mp there
      exact ⟨rfl, if_neg apart.symm⟩
    · cases there
  · split at there
    · rcases List.mem_append.mp there with offered | sent
      · obtain ⟨offer, -, rfl⟩ := List.mem_map.mp offered
        exact ⟨rfl, rfl⟩
      · obtain ⟨body, -, rfl⟩ := List.mem_map.mp sent
        exact ⟨rfl, rfl⟩
    · cases there
  · cases there

theorem silent_of_other (loop : k ≠ .own .recvLoop) (frames : k ≠ .own .frames) :
    ∀ note ∈ traffic t e k w, note.chunkOf v = [] ∧ note.bodyOf v = none := by
  intro note there
  unfold traffic at there
  split at there
  · exact absurd rfl loop
  · exact absurd rfl frames
  · split at there
    · rcases List.mem_append.mp there with offered | sent
      · obtain ⟨offer, -, rfl⟩ := List.mem_map.mp offered
        exact ⟨rfl, rfl⟩
      · obtain ⟨body, -, rfl⟩ := List.mem_map.mp sent
        exact ⟨rfl, rfl⟩
    · cases there
  · cases there

/-- Whole chunks are fed, and frames are taken out one by one. -/
theorem reads_recvLoop {notes : List Traffic}
    (reads : Reads (w.server.clients t.conn).reader (streamOf t.conn notes)
      (bodiesOf t.conn notes)) :
    Reads (recvLoop w.server t.conn e).state.reader
      (streamOf t.conn (notes ++ traffic t e (.own .recvLoop) w))
      (bodiesOf t.conn (notes ++ traffic t e (.own .recvLoop) w)) := by
  simp only [traffic, recvLoop]
  cases e.received with
  | data chunk =>
      dsimp only
      by_cases empty : chunk = []
      · rw [if_pos empty, if_pos empty, List.append_nil]
        exact reads
      · rw [if_neg empty, if_neg empty]
        have fed := reads.feed (chunk.take 4096)
        simpa [streamOf, bodiesOf, Traffic.chunkOf, List.filterMap_cons, Traffic.bodyOf] using fed
  | _ =>
      dsimp only
      rw [List.append_nil]
      exact reads

theorem reads_frames {notes : List Traffic}
    (reads : Reads (w.server.clients t.conn).reader (streamOf t.conn notes)
      (bodiesOf t.conn notes)) :
    Reads (frames w.server t.conn e).state.reader
      (streamOf t.conn (notes ++ traffic t e (.own .frames) w))
      (bodiesOf t.conn (notes ++ traffic t e (.own .frames) w)) := by
  unfold traffic frames
  rcases result : (w.server.clients t.conn).reader.next with ⟨_ | body, reader⟩
  · simp only [result, List.append_nil]
    exact reads.idle result
  · simp only [result]
    have took := reads.took result
    simpa [streamOf, bodiesOf, Traffic.chunkOf, List.filterMap_cons, Traffic.bodyOf] using took

theorem reading_run {x : World × List Traffic} (reading : Reading x) (here : k.runsOn t = true)
    (ran : x.1.run st t.conn e k = some (w', new)) : Reading (w', x.2 ++ traffic t e k x.1) := by
  intro v
  dsimp only
  by_cases own : ∃ k', k = .own k'
  · obtain ⟨k, rfl⟩ := own
    rw [← (Prod.mk.inj (Option.some.inj ran)).1]
    dsimp only
    by_cases mine : v = t.conn
    · subst mine
      rw [Function.update_self]
      have reads := reading t.conn
      by_cases loop : k = .recvLoop
      · subst loop
        exact reads_recvLoop reads
      · by_cases isFrames : k = .frames
        · subst isFrames
          exact reads_frames reads
        · obtain ⟨stream, bodies⟩ := @streamOf_append_of_silent t.conn x.2 _
            (silent_of_other (k := .own k) (by simpa using loop) (by simpa using isFrames))
          rw [reader_runOwn isFrames loop, stream, bodies]
          exact reads
    · obtain ⟨stream, bodies⟩ := @streamOf_append_of_silent v x.2 _ (silent_of_ne mine)
      rw [Function.update_of_ne mine, stream, bodies]
      exact reading v
  · obtain ⟨stream, bodies⟩ : streamOf v (x.2 ++ traffic t e k x.1) = streamOf v x.2 ∧
        bodiesOf v (x.2 ++ traffic t e k x.1) = bodiesOf v x.2 := by
      apply streamOf_append_of_silent
      apply silent_of_other <;> rintro rfl <;> exact own ⟨_, rfl⟩
    have clients : w'.server.clients = x.1.server.clients := by
      apply clients_run ran
      rintro k' rfl
      exact own ⟨k', rfl⟩
    rw [stream, bodies, clients]
    exact reading v

/-! ## Messages on their way -/

/-- The content behind the word filter, when it is not refused. -/
def Startup.cleaned (st : Startup) (content : Bytes) : Bytes :=
  if st.words.isEmpty ∨ st.words.contains content = none then content
  else st.words.filter content 42

/-- What `doMessage` makes of a frame. -/
structure ChatMsg.Of (st : Startup) (obj : Object) (m : ChatMsg) : Prop where
  seq : m.seq = obj.getNum (bytes "seq")
  positive : 0 < m.seq
  receiver : m.receiver = obj.getStr (bytes "to")
  content : m.content = st.cleaned (obj.getStr (bytes "content"))
  ts : m.ts = obj.getNum (bytes "ts") ∨ obj.getNum (bytes "ts") ≤ 0

/-- A body is a MESSAGE that becomes that message. -/
def Carried (st : Startup) (bodies : List Bytes) (m : ChatMsg) : Prop :=
  ∃ body ∈ bodies, ∃ obj, parse body = .ok obj ∧
    obj.getStr (bytes "type") = bytes "MESSAGE" ∧ m.Of st obj

theorem Carried.mono {more : List Bytes} (carried : Carried st bodies m) :
    Carried st (bodies ++ more) m := by
  obtain ⟨body, there, obj, parsed, type, made⟩ := carried
  exact ⟨body, List.mem_append_left _ there, obj, parsed, type, made⟩

theorem of_doMessage {obj : Object} (called : n ∈ (doMessage st s c e obj).next)
    (about : n.about = some m) : m.Of st obj := by
  unfold doMessage at called
  extract_lets sender seq ts content proceed at called
  have stamped : ts = obj.getNum (bytes "ts") ∨ obj.getNum (bytes "ts") ≤ 0 := by
    by_cases late : obj.getNum (bytes "ts") ≤ 0
    · exact .inr late
    · exact .inl (if_neg late)
  split at called
  · obtain rfl := List.mem_singleton.mp called
    cases about
  next positive =>
    have proceeds {text : Bytes} (called : n ∈ proceed text)
        (cleaned : text = st.cleaned (obj.getStr (bytes "content"))) : m.Of st obj := by
      obtain rfl := List.mem_singleton.mp called
      obtain rfl := Option.some.inj about
      exact ⟨rfl, Int.not_le.mp positive, rfl, cleaned, stamped⟩
    generalize (if 0 < st.cfg.msgRate then s.msgLimit.allow sender (e.nowSec 1)
      else (true, s.msgLimit)) = limited at called
    dsimp only at called
    split at called
    · obtain rfl := List.mem_singleton.mp called
      cases about
    · split at called
      next empty => exact proceeds called (if_pos (.inl empty)).symm
      next listed =>
        split at called
        next silent => exact proceeds called (if_pos (.inr silent)).symm
        next hit found =>
          split at called
          · obtain rfl := List.mem_singleton.mp called
            cases about
          · refine proceeds called (if_neg ?_).symm
            rintro (empty | silent)
            · exact listed empty
            · cases silent.symm.trans found

theorem bodiesOf_append (c : ConnId) (notes more : List Traffic) :
    bodiesOf c (notes ++ more) = bodiesOf c notes ++ bodiesOf c more := List.filterMap_append ..

/-- What is known of a command that handles a message. -/
structure Bearing (st : Startup) (t : Thread) (k : Cmd) (x : World × List Traffic) : Prop where
  frame : ∀ obj, k = .limit (.doMessage obj) → ∃ body ∈ bodiesOf t.conn x.2,
    parse body = .ok obj ∧ obj.getStr (bytes "type") = bytes "MESSAGE"
  message : ∀ m, k.about = some m → Carried st (bodiesOf t.conn x.2) m
  ack : ∀ seq, k = .io (.sendAck seq) → ∃ m, Carried st (bodiesOf t.conn x.2) m ∧ m.seq = seq
  toAll : ∀ m, k.toAll = some m → m.receiver = bytes "ALL"

theorem Bearing.mono {notes more : List Traffic} (bearing : Bearing st t k (w, notes)) :
    Bearing st t k (w', notes ++ more) := by
  refine ⟨?_, ?_, ?_, bearing.toAll⟩
  · intro obj frame
    obtain ⟨body, there, facts⟩ := bearing.frame obj frame
    refine ⟨body, ?_, facts⟩
    rw [bodiesOf_append]
    exact List.mem_append_left _ there
  · intro m about
    dsimp only
    rw [bodiesOf_append]
    exact (bearing.message m about).mono
  · intro seq ack
    obtain ⟨m, carried, same⟩ := bearing.ack seq ack
    refine ⟨m, ?_, same⟩
    dsimp only
    rw [bodiesOf_append]
    exact carried.mono

/-- The body of the frame whose handling starts. -/
theorem took_frames {reader : FrameReader} (took : (w.server.clients t.conn).reader.next =
      (some body, reader)) (notes : List Traffic) :
    body ∈ bodiesOf t.conn (notes ++ traffic t e (.own .frames) w) := by
  rw [bodiesOf_append]
  apply List.mem_append_right
  simp [traffic, took, bodiesOf, Traffic.bodyOf]

theorem bearing_own {notes : List Traffic} (bearing : Bearing st t k (w, notes))
    (ran : w.run st t.conn e k = some (w', new)) :
    ∀ n ∈ new, Bearing st t n (w', notes ++ traffic t e k w) := by
  intro n called
  have onward : Bearing st t k (w', notes ++ traffic t e k w) := bearing.mono
  refine ⟨?_, ?_, ?_, fun m all => toAll_own bearing.toAll ran called all⟩
  · rintro obj rfl
    obtain ⟨rfl, -, type, body, reader, took, parsed⟩ := calledBy_run ran _ called
    exact ⟨body, took_frames took notes, parsed, type⟩
  · intro m about
    rcases about_called (calledBy_run ran n called) about with ⟨obj, rfl, -⟩ | before
    · obtain ⟨body, there, parsed, type⟩ := onward.frame obj rfl
      obtain ⟨-, rfl⟩ := Prod.mk.inj (Option.some.inj ran)
      exact ⟨body, there, obj, parsed, type, of_doMessage called about⟩
    · exact onward.message m before
  · rintro seq rfl
    rcases calledBy_run ran _ called with ⟨m, rfl, same, -⟩ |
      ⟨m, room, roomId, state, db, id, rfl, same, -⟩ | ⟨m, state, db, id, rfl, same, -⟩
    all_goals exact ⟨m, onward.message m rfl, same.symm⟩

/-! ## Nothing is left behind -/

/-- A thread that is about to receive has no whole frame in its buffer. -/
def Emptied (t : Thread) (k : Cmd) (w : World) : Prop :=
  k = .io .handleClient ∨ k = .own .recvLoop → t.isClient = true →
    (w.server.clients t.conn).reader.next = (none, (w.server.clients t.conn).reader)

/-- A loop is only gone on with by a loop. -/
theorem loop_of_called (ran : (server st).exec t e k w = some (w', new)) (called : n ∈ new)
    (loop : n.layer = .loop) : k.layer = .loop := by
  by_contra other
  have above : Above k (.own .recvLoop) := by
    unfold Above
    cases layer : k.layer with
    | loop => exact absurd layer other
    | _ => rfl
  have lower := (respects st t e k w w' new ran).2 n called _ above
  unfold Above at lower
  rw [loop] at lower
  cases lower

/-- What the loops of a connection leave in the buffer when they go on with receiving. -/
theorem reader_recvLoop (again : .own .recvLoop ∈ (recvLoop s c e).next) :
    (recvLoop s c e).state.reader = (s.clients c).reader := by
  unfold recvLoop at again ⊢
  cases received : e.received with
  | data chunk =>
      simp only [received] at again
      split at again <;> simp at again
  | _ => rfl

theorem next_frames (again : .own .recvLoop ∈ (frames s c e).next) :
    (frames s c e).state.reader.next = (none, (frames s c e).state.reader) := by
  unfold frames at again ⊢
  dsimp only at again ⊢
  rcases result : (s.clients c).reader.next with ⟨_ | body, reader⟩
  · rcases FrameReader.next_eq_none result with ⟨rfl, -⟩ | ⟨-, rfl, -⟩
    · exact result
    · simp [result] at again
  · simp only [result, List.mem_append] at again
    rcases again with handled | behind
    · rcases @starts_handleBody s c e body reader result with none | ⟨n, one, above, -⟩
      · rw [none] at handled
        cases handled
      · rw [one] at handled
        obtain rfl := List.mem_singleton.mp handled
        cases above
    · split at behind <;> simp at behind

theorem emptied_own (here : k.runsOn t = true) (emptied : Emptied t k w)
    (exec : (server st).exec t e k w = some (w', new)) : ∀ n ∈ new, Emptied t n w' := by
  rintro n called starts client
  have ran := (exec_eq_some_iff.mp exec).2
  rcases starts with rfl | rfl
  · exact (calledBy_run ran _ called).elim
  · have loop := loop_of_called exec called rfl
    unfold Cmd.layer at loop
    split at loop
    · obtain ⟨rfl, rfl⟩ := Prod.mk.inj (Option.some.inj ran)
      have same : (runOwn st w.server t.conn e .recvLoop).state.reader =
          (w.server.clients t.conn).reader := reader_recvLoop called
      dsimp only
      rw [Function.update_self, same]
      exact emptied (.inr rfl) client
    · obtain ⟨rfl, rfl⟩ := Prod.mk.inj (Option.some.inj ran)
      dsimp only
      rw [Function.update_self]
      exact next_frames called
    -- the loops of the other threads, the start of this one, and what is no loop
    all_goals first
      | (cases of_decide_eq_true here; cases client)
      | (rw [clients_run ran (by simp)]; exact emptied (.inl rfl) client)
      | cases loop

/-- Only the thread of a connection reads from it. -/
theorem emptied_other (here : k.runsOn t = true) (waits : Waits Above t k rest t' k')
    (emptied : Emptied t' k' w) (ran : w.run st t.conn e k = some (w', new)) :
    Emptied t' k' w' := by
  intro starts client
  have before := emptied starts client
  by_cases own : ∃ k₁, k = .own k₁
  · obtain ⟨k, rfl⟩ := own
    have runs : t.isClient = true := by cases k <;> exact here
    obtain ⟨rfl, -⟩ := Prod.mk.inj (Option.some.inj ran)
    dsimp only
    by_cases mine : t'.conn = t.conn
    · obtain rfl := Thread.eq_of_conn client runs mine
      rcases waits with other | ⟨-, above⟩
      · exact absurd rfl other
      · -- what waits below a loop is nothing
        have kept : (runOwn st w.server t'.conn e k).state.reader =
            (w.server.clients t'.conn).reader := by
          apply reader_runOwn <;> rintro rfl <;> cases above
        rw [Function.update_self, kept]
        exact before
    · rw [Function.update_of_ne mine]
      exact before
  · rw [clients_run ran fun k₁ same => own ⟨k₁, same⟩]
    exact before

/-! ## The tables -/

/-- The row of a message from a connection. -/
def RowOf (c : ConnId) (m : ChatMsg) (row : Message Origin) : Prop :=
  row = privateRow c m ∨ ∃ roomId, row = roomRow c m roomId

/-- Only `delivered` may differ. -/
def OfflineRow.Same (row row' : OfflineRow) : Prop :=
  row' = { row with delivered := row'.delivered }

/-- The frame with which a message is relayed, in a room or to its receiver. -/
def ChatMsg.relay (m : ChatMsg) (room : Bytes) : Object :=
  messageFrame m.sender m.receiver room m.content m.ts

/-- Rows and relays are those of frames that have arrived, or older than the server. -/
structure Sourced (st : Startup) (file : Database File) (x : World × List Traffic) : Prop where
  messages : ∀ row ∈ x.1.server.db.messages.rows, row.2.origin = none ∨
    ∃ c m, Carried st (bodiesOf c x.2) m ∧ RowOf c m row.2
  offline : ∀ row ∈ x.1.server.db.offline.rows,
    (∃ old ∈ file.offline.rows, old.1 = row.1 ∧ old.2.Same row.2) ∨
      ∃ c m, Carried st (bodiesOf c x.2) m ∧ m.offlineRow.Same row.2
  acked : ∀ c user seq, .io (.acked c user seq) ∈ x.1.trace →
    ∃ m, Carried st (bodiesOf c x.2) m ∧ m.seq = seq
  relayed : ∀ v user seq, .io (.relayed v user seq) ∈ x.1.trace →
    ∃ c m room, Carried st (bodiesOf c x.2) m ∧ m.slot = (user, seq) ∧
      .offered v (m.relay room) seq ∈ x.2
  /-- What is offered to a connection is a relay or the push of an offline row. -/
  offered : ∀ v frame seq, .offered v frame seq ∈ x.2 →
    (∃ c m room, Carried st (bodiesOf c x.2) m ∧ m.seq = seq ∧ frame = m.relay room) ∨
      ∃ name row, seq = 0 ∧ frame = offlineFrame name row

theorem messages_run (within : w.server.db.Within) (ran : w.run st c e k = some (w', new)) :
    ∀ row ∈ w'.server.db.messages.rows, row ∈ w.server.db.messages.rows ∨
      ∃ m, k.about = some m ∧ RowOf c m row.2 := by
  intro row there
  rcases call_run ran with ⟨-, users, rooms, offline, db⟩ |
    ⟨m, row', state, p, events, call, advanced, -⟩
  · rw [db] at there
    exact .inl there
  · obtain ⟨-, rows⟩ := Database.within_advance within advanced
    rcases rows row there with old | ⟨new, -⟩
    · exact .inl old
    · obtain ⟨-, handled, -, -, shape⟩ := handled_of_call call
      refine .inr ⟨m, about_of_handled handled, ?_⟩
      rw [new]
      exact shape.symm

/-- A row of `offline_messages` is an old one, or that of the message of the command. -/
theorem offline_rows_run (ran : w.run st c e k = some (w', new)) :
    ∀ row ∈ w'.server.db.offline.rows,
      (∃ old ∈ w.server.db.offline.rows, old.1 = row.1 ∧ old.2.Same row.2) ∨
        ∃ m, k.about = some m ∧ m.offlineRow.Same row.2 := by
  intro row there
  have same (before : row ∈ w.server.db.offline.rows) :
      ∃ old ∈ w.server.db.offline.rows, old.1 = row.1 ∧ old.2.Same row.2 := ⟨row, before, rfl, rfl⟩
  by_cases section' : ∃ k', k = .db k'
  · obtain ⟨k', rfl⟩ := section'
    obtain ⟨r, step, result⟩ := Option.map_eq_some_iff.mp ran
    obtain ⟨rfl, -⟩ := Prod.mk.inj result
    by_cases marks : ∃ name id rest since, k' = .markDelivered name id rest since
    · obtain ⟨name, id, rest, since, rfl⟩ := marks
      left
      rcases next_whenTxIdle step with rfl | ⟨n, rfl⟩
      · simp only [Database.markDelivered] at there
        split at there
        · obtain ⟨old, before, value⟩ := Table.mem_rows_update.mp there
          refine ⟨(row.1, old), before, rfl, ?_⟩
          unfold OfflineRow.Same
          rw [value]
          split <;> rfl
        · exact same there
      · exact same there
    · dsimp only at there
      rcases offline_runDb step (fun name id rest since same =>
        marks ⟨name, id, rest, since, same⟩) with unchanged | ⟨m, target, since, rfl, inserts⟩
      · rw [unchanged] at there
        exact .inl (same there)
      · rw [inserts] at there
        rcases Table.mem_rows_insert.mp there with old | rfl
        · exact .inl (same old)
        · exact .inr ⟨m, rfl, rfl⟩
  · rw [db_run ran fun k' same => section' ⟨k', same⟩] at there
    exact .inl (same there)

theorem OfflineRow.Same.trans {row row' row'' : OfflineRow} (first : row.Same row')
    (second : row'.Same row'') : row.Same row'' := by
  unfold OfflineRow.Same at *
  rw [second, first]

/-- A relay is offered as the message says. -/
theorem offered_of_relays (toAll : ∀ m, k.toAll = some m → m.receiver = bytes "ALL")
    (relays : k = .io (.relayTarget m v) ∨ ∃ room rest, k = .io (.relayEach m room (v :: rest))) :
    ∃ room, .offered v (m.relay room) m.seq ∈ traffic t e k w := by
  rcases relays with rfl | ⟨room, rest, rfl⟩
  · exact ⟨[], List.mem_append_left _ (List.mem_singleton_self _)⟩
  · refine ⟨room, List.mem_append_left _ ?_⟩
    rw [ChatMsg.relay, toAll m rfl]
    exact List.mem_singleton_self _

/-- Only relays and pushes are offered. -/
theorem relays_of_offered {frame : Object} {seq : Int}
    (toAll : ∀ m, k.toAll = some m → m.receiver = bytes "ALL")
    (offered : .offered v frame seq ∈ traffic t e k w) :
    (∃ m room, k.about = some m ∧ m.seq = seq ∧ frame = m.relay room) ∨
      ∃ name row, seq = 0 ∧ frame = offlineFrame name row := by
  unfold traffic at offered
  split at offered
  · split at offered
    · split at offered <;> simp at offered
    · cases offered
  · split at offered <;> simp at offered
  next k =>
    split at offered
    next v' op ts works =>
      obtain ⟨some', rfl⟩ : op.offer = some (frame, seq) ∧ v' = v := by simpa using offered
      cases k with
      | pushRows name rows =>
          cases rows with
          | nil => cases works
          | cons row rows =>
              obtain ⟨-, rfl, -⟩ : _ ∧ _ ∧ _ := by simpa [sideOp] using works
              obtain ⟨rfl, rfl⟩ := Prod.mk.inj (Option.some.inj some')
              exact .inr ⟨name, row, rfl, rfl⟩
      | relayTarget m v =>
          obtain ⟨-, rfl, -⟩ : _ ∧ _ ∧ _ := by simpa [sideOp] using works
          obtain ⟨rfl, rfl⟩ := Prod.mk.inj (Option.some.inj some')
          exact .inl ⟨m, [], rfl, rfl, rfl⟩
      | relayEach m room targets =>
          cases targets with
          | nil => cases works
          | cons v rest =>
              obtain ⟨-, rfl, -⟩ : _ ∧ _ ∧ _ := by simpa [sideOp] using works
              obtain ⟨rfl, rfl⟩ := Prod.mk.inj (Option.some.inj some')
              refine .inl ⟨m, room, rfl, rfl, ?_⟩
              rw [ChatMsg.relay, toAll m rfl]
      | handleClient => cases works
      | _ =>
          obtain ⟨-, rfl, -⟩ : _ ∧ _ ∧ _ := by simpa [sideOp] using works
          cases some'
    next => cases offered
  next => cases offered

/-- A step is faithful to what has arrived. -/
theorem sourced_run {notes : List Traffic} (sourced : Sourced st file (w, notes))
    (within : w.server.db.Within) (bearing : Bearing st t k (w, notes))
    (ran : w.run st t.conn e k = some (w', new)) :
    Sourced st file (w', notes ++ traffic t e k w) := by
  have onward : Bearing st t k (w', notes ++ traffic t e k w) := bearing.mono
  have later {c : ConnId} {m : ChatMsg} (carried : Carried st (bodiesOf c notes) m) :
      Carried st (bodiesOf c (notes ++ traffic t e k w)) m := by
    rw [bodiesOf_append]
    exact carried.mono
  obtain ⟨events, trace, emitted, -⟩ := trace_run ran
  refine ⟨?_, ?_, ?_, ?_, ?_⟩
  · intro row there
    rcases messages_run within ran row there with old | ⟨m, about, shape⟩
    · rcases sourced.messages row old with earlier | ⟨c, m, carried, shape⟩
      · exact .inl earlier
      · exact .inr ⟨c, m, later carried, shape⟩
    · exact .inr ⟨t.conn, m, onward.message m about, shape⟩
  · intro row there
    rcases offline_rows_run ran row there with ⟨old, before, key, same⟩ | ⟨m, about, same⟩
    · rcases sourced.offline old before with ⟨first, present, key', same'⟩ | ⟨c, m, carried, same'⟩
      · exact .inl ⟨first, present, key'.trans key, same'.trans same⟩
      · exact .inr ⟨c, m, later carried, same'.trans same⟩
    · exact .inr ⟨t.conn, m, onward.message m about, same⟩
  · intro c user seq acked
    dsimp only at acked
    rw [trace] at acked
    rcases List.mem_append.mp acked with old | now
    · obtain ⟨m, carried, same⟩ := sourced.acked c user seq old
      exact ⟨m, later carried, same⟩
    · obtain ⟨rfl, -, rfl⟩ := emitted _ now
      exact onward.ack seq rfl
  · intro v user seq relayed
    dsimp only at relayed
    rw [trace] at relayed
    rcases List.mem_append.mp relayed with old | now
    · obtain ⟨c, m, room, carried, same, offered⟩ := sourced.relayed v user seq old
      exact ⟨c, m, room, later carried, same, List.mem_append_left _ offered⟩
    · obtain ⟨m, rfl, rfl, relays⟩ := emitted _ now
      obtain ⟨room, offered⟩ := offered_of_relays (t := t) (e := e) (w := w) bearing.toAll relays
      have about : k.about = some m := by
        rcases relays with rfl | ⟨room, rest, rfl⟩ <;> rfl
      exact ⟨t.conn, m, room, onward.message m about, rfl, List.mem_append_right _ offered⟩
  · intro v frame seq offered
    rcases List.mem_append.mp offered with old | now
    · rcases sourced.offered v frame seq old with ⟨c, m, room, carried, facts⟩ | pushed
      · exact .inl ⟨c, m, room, later carried, facts⟩
      · exact .inr pushed
    · rcases relays_of_offered bearing.toAll now with ⟨m, room, about, facts⟩ | pushed
      · exact .inl ⟨t.conn, m, room, onward.message m about, facts⟩
      · exact .inr pushed

/-! ## Runs -/

variable {When : Config Thread Cmd (World × List Traffic) → Thread → Ext → Bool}
  {cfg : Config Thread Cmd (World × List Traffic)}

theorem sourced_start : Sourced st file ((start st file b).noted []).shared := by
  obtain ⟨rooms, db⟩ := db_boot st file b
  refine ⟨?_, ?_, ?_, ?_, ?_⟩
  · intro row there
    left
    simp only [Config.noted, start, db, Database.reopen] at there
    obtain ⟨old, -, rfl⟩ := List.mem_map.mp there
    rfl
  · intro row there
    left
    simp only [Config.noted, start, db, Database.reopen] at there
    exact ⟨row, there, rfl, rfl⟩
  · rintro c user seq ⟨⟩
  · rintro v user seq ⟨⟩
  · rintro v frame seq ⟨⟩

theorem outlined_taking (run : (taking st).Reaches When ((start st file b).noted []) cfg) :
    Outlined Above (fun x => (Reading x ∧ x.1.server.db.Within) ∧ Sourced st file x)
      (fun t k x => Bearing st t k x ∧ Emptied t k x.1) cfg := by
  refine run.outlined (respects st).recording ?_ ?_ ?_
  · refine ⟨⟨⟨?_, ?_⟩, sourced_start⟩, ?_, ?_⟩
    · exact fun c => reads_nil
    · obtain ⟨rooms, db⟩ := db_boot st file b
      simp [Config.noted, start, db, Database.Within, Database.reopen]
    · intro t
      cases t <;> exact List.pairwise_singleton ..
    · intro t k waiting
      have first : Bearing st t k ((start st file b).noted []).shared := by
        cases t <;> obtain rfl := List.mem_singleton.mp waiting <;> constructor <;> rintro _ ⟨⟩
      exact ⟨first, fun _ _ => rfl⟩
  · rintro cfg t e k rest ⟨w, notes⟩ new - outlined - stack ran
    obtain ⟨exec, rfl⟩ := Program.exec_recording.mp ran
    obtain ⟨here, ran⟩ := exec_eq_some_iff.mp exec
    obtain ⟨⟨reading, within⟩, sourced⟩ := outlined.inv
    obtain ⟨bearing, emptied⟩ := outlined.pending t k (by simp [stack])
    refine ⟨⟨⟨reading_run reading here ran, (within_run within ran).1⟩, ?_⟩, ?_⟩
    · exact sourced_run sourced within bearing ran
    · intro n called
      exact ⟨bearing_own bearing ran n called, emptied_own here emptied exec n called⟩
  · rintro cfg t e k rest ⟨w, notes⟩ new - - - - ran t' k' - waits ⟨bearing, emptied⟩
    obtain ⟨exec, rfl⟩ := Program.exec_recording.mp ran
    obtain ⟨here, ran⟩ := exec_eq_some_iff.mp exec
    exact ⟨bearing.mono, emptied_other here waits emptied ran⟩

/-- Nothing waits in the buffer of a connection that is about to receive. -/
theorem emptied_of_outlined
    (outlined : Outlined Above (fun x => (Reading x ∧ x.1.server.db.Within) ∧ Sourced st file x)
      (fun t k x => Bearing st t k x ∧ Emptied t k x.1) cfg)
    (waiting : .own .recvLoop ∈ cfg.stack (.client c)) :
    (cfg.shared.1.server.clients c).reader.next =
      (none, (cfg.shared.1.server.clients c).reader) :=
  (outlined.pending (.client c) _ waiting).2 (.inr rfl) rfl

/-- In every run each connection reads its stream in order, and what is stored, relayed or
acknowledged came out of a stream. -/
theorem sourced_of_run (run : (taking st).Reaches When ((start st file b).noted []) cfg) :
    Reading cfg.shared ∧ Sourced st file cfg.shared ∧
      ∀ c, .own .recvLoop ∈ cfg.stack (.client c) →
        (cfg.shared.1.server.clients c).reader.next =
          (none, (cfg.shared.1.server.clients c).reader) := by
  have outlined := outlined_taking run
  exact ⟨outlined.inv.1.1, outlined.inv.2, fun c => emptied_of_outlined outlined⟩

/-- Alice says `hi` in the lobby: one frame after the other comes out of the stream, and the row
is that of the last one. -/
theorem sourced_of_run_hi : ∃ cfg,
    (taking Demo.startup).Reaches Program.always ((start Demo.startup Demo.file {}).noted []) cfg ∧
      Reading cfg.shared ∧ Sourced Demo.startup Demo.file cfg.shared ∧
      (bodiesOf 1 cfg.shared.2).length = 4 ∧
      cfg.shared.1.server.db.messages.rows.map (fun row => row.2.content) = [bytes "hi"] := by
  obtain ⟨cfg, run, said⟩ := Program.exists_reaches_of_play (taking Demo.startup) Program.always
    (Demo.joining ++ Demo.steps (.client 1) 10 ++ Demo.speaks "ALL" 1 13)
    ((start Demo.startup Demo.file {}).noted [])
    (fun cfg => (bodiesOf 1 cfg.shared.2).length = 4 ∧
      cfg.shared.1.server.db.messages.rows.map (fun row => row.2.content) = [bytes "hi"])
    (by decide +kernel)
  obtain ⟨reading, sourced, -⟩ := sourced_of_run run
  exact ⟨cfg, run, reading, sourced, of_decide_eq_true said⟩

end OnlineChat
