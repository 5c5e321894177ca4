import OnlineChat.Client.Session
import OnlineChat.Library.Trace

/-!
# What the commands of the client do

One lemma for each kind of effect: the queue, the socket, the trace, and the commands that
are left to be run.
-/

namespace OnlineChat.Client

open Library PwdHash ChatSession

variable {st : Settings} {e : Ext} {s : ChatSession} {k n : Cmd} {seq : Int} {sock : Socket}
  {f : Frame}

/-! ## What a command changes -/

/-- What `_send_frame` leaves in the trace. -/
def ChatSession.written (e : Ext) (s : ChatSession) (m : Msg) : List Event :=
  match s.sock with
  | some sock => if e.sends.writes then [.wrote sock m] else []
  | none => []

/-- What a command leaves in the trace. -/
def Cmd.events (st : Settings) (e : Ext) (s : ChatSession) : Cmd → List Event
  | .add seq => [.added seq]
  | .remove seq => [.acked seq]
  | .trySendItem seq =>
      if maxAttempts ≤ (s.objects seq).attempts then [] else s.written e (s.itemMsg st e seq)
  | .sendRequest r seq => s.written e (requestMsg st e seq r)
  | .recvFrame sock =>
      match e.receives with
      | .frame f => [.received sock f]
      | _ => []
  | _ => []

theorem sendFrame_eq (m : Msg) : (s.sendFrame e m).2 = s.log (s.written e m) := by
  have same : s = s.log [] := by simp [log]
  unfold sendFrame written
  cases s.sock with
  | none => exact same
  | some sock =>
      cases e.sends with
      | done | osError => rfl
      | valueError => exact same

theorem mem_written {x : Event} {m : Msg} :
    x ∈ s.written e m ↔ ∃ sock, s.sock = some sock ∧ e.sends.writes = true ∧ x = .wrote sock m := by
  unfold written
  cases s.sock with
  | none => simp
  | some sock => cases e.sends.writes <;> simp

/-! ### The frames -/

theorem Request.type_ne_message (r : Request) : r.type ≠ .message := by
  cases r with
  | page page => cases page <;> simp [type]
  | _ => simp [type]

/-- `_try_send_item` writes its frame. -/
def ChatSession.Sends (s : ChatSession) (seq : Int) (e : Ext) : Bool :=
  (s.objects seq).attempts < maxAttempts ∧ s.sock.isSome ∧ e.sends.writes

theorem message_of_sends (st : Settings) (sends : s.Sends seq e = true)
    (connected : s.sock = some sock) :
    .wrote sock (s.itemMsg st e seq) ∈ (Cmd.trySendItem seq).events st e s := by
  obtain ⟨few, -, writes⟩ := of_decide_eq_true sends
  rw [Cmd.events, if_neg (Nat.not_le.mpr few)]
  exact mem_written.mpr ⟨sock, connected, writes, rfl⟩

/-- `_try_send_item` is the only command that sends messages. -/
theorem message_mem_events {m : Msg} :
    .wrote sock m ∈ k.events st e s ∧ m.type = .message ↔
      ∃ seq, k = .trySendItem seq ∧ s.Sends seq e = true ∧ s.sock = some sock ∧
        m = s.itemMsg st e seq := by
  constructor
  · rintro ⟨there, type⟩
    cases k with
    | trySendItem seq =>
        simp only [Cmd.events] at there
        split at there
        · cases there
        next few =>
          obtain ⟨sock', connected, writes, same⟩ := mem_written.mp there
          obtain ⟨rfl, rfl⟩ := Event.wrote.inj same
          refine ⟨seq, rfl, ?_, connected, rfl⟩
          simp [Sends, connected, writes, Nat.lt_of_not_le few]
    | sendRequest r seq =>
        obtain ⟨sock', connected, writes, same⟩ := mem_written.mp there
        obtain ⟨rfl, rfl⟩ := Event.wrote.inj same
        exact absurd type r.type_ne_message
    | recvFrame sock' =>
        simp only [Cmd.events] at there
        split at there <;> simp at there
    | add _ | remove _ => simp [Cmd.events] at there
    | _ => cases there
  · rintro ⟨seq, rfl, sends, connected, rfl⟩
    exact ⟨message_of_sends st sends connected, rfl⟩

/-- Where an event comes from. -/
theorem events_cases {x : Event} (there : x ∈ k.events st e s) :
    (∃ seq, k = .add seq ∧ x = .added seq) ∨ (∃ seq, k = .remove seq ∧ x = .acked seq) ∨
      (∃ sock m, x = .wrote sock m) ∨
      ∃ sock f, k = .recvFrame sock ∧ e.receives = .frame f ∧ x = .received sock f := by
  cases k with
  | add seq => exact .inl ⟨seq, rfl, List.mem_singleton.mp there⟩
  | remove seq => exact .inr (.inl ⟨seq, rfl, List.mem_singleton.mp there⟩)
  | trySendItem seq =>
      simp only [Cmd.events] at there
      split at there
      · cases there
      · obtain ⟨sock, -, -, wrote⟩ := mem_written.mp there
        exact .inr (.inr (.inl ⟨sock, _, wrote⟩))
  | sendRequest r seq =>
      obtain ⟨sock, -, -, wrote⟩ := mem_written.mp there
      exact .inr (.inr (.inl ⟨sock, _, wrote⟩))
  | recvFrame sock =>
      simp only [Cmd.events] at there
      split at there
      next f received =>
        exact .inr (.inr (.inr ⟨sock, f, rfl, received, List.mem_singleton.mp there⟩))
      · cases there
  | _ => cases there

theorem added_mem_events : .added seq ∈ k.events st e s ↔ k = .add seq := by
  constructor
  · intro there
    rcases events_cases there with
      ⟨seq', rfl, same⟩ | ⟨seq', -, same⟩ | ⟨sock, m, same⟩ | ⟨sock, f, -, -, same⟩
    · cases same
      rfl
    all_goals cases same
  · rintro rfl
    exact List.mem_singleton_self _

theorem acked_mem_events : .acked seq ∈ k.events st e s ↔ k = .remove seq := by
  constructor
  · intro there
    rcases events_cases there with
      ⟨seq', -, same⟩ | ⟨seq', rfl, same⟩ | ⟨sock, m, same⟩ | ⟨sock, f, -, -, same⟩
    all_goals cases same
    rfl
  · rintro rfl
    exact List.mem_singleton_self _

theorem received_mem_events :
    .received sock f ∈ k.events st e s ↔ k = .recvFrame sock ∧ e.receives = .frame f := by
  constructor
  · intro there
    rcases events_cases there with
      ⟨seq, -, same⟩ | ⟨seq, -, same⟩ | ⟨sock, m, same⟩ | ⟨sock, f, rfl, received, same⟩
    all_goals cases same
    exact ⟨rfl, received⟩
  · rintro ⟨rfl, received⟩
    simp [Cmd.events, received]

/-- The queue, the socket and the trace are the same. -/
structure ChatSession.Kept (s s' : ChatSession) : Prop where
  store : s'.store = s.store
  sock : s'.sock = s.sock
  conns : s'.conns = s.conns
  authed : s'.authed = s.authed
  trace : s'.trace = s.trace

theorem ChatSession.Kept.refl (s : ChatSession) : Kept s s := ⟨rfl, rfl, rfl, rfl, rfl⟩

theorem kept_handleErr (code : Int) : Kept s (s.handleErr st sock code).1 := by
  unfold handleErr
  split
  · exact ⟨rfl, rfl, rfl, rfl, rfl⟩
  · split <;> exact .refl s

theorem kept_dispatch (st : Settings) (s : ChatSession) (sock : Socket)
    (other : f.kind ≠ .authOk) : Kept s (s.dispatch st sock f).1 := by
  unfold dispatch
  cases kind : f.kind with
  | authOk => exact absurd kind other
  | ack => dsimp only; split <;> exact .refl s
  | nack =>
      dsimp only
      split
      next => split <;> exact ⟨rfl, rfl, rfl, rfl, rfl⟩
      all_goals exact .refl s
  | err =>
      dsimp only
      split
      next code _ => exact kept_handleErr code
      next => exact .refl s
  | system => dsimp only; split <;> exact .refl s
  | _ => exact ⟨rfl, rfl, rfl, rfl, rfl⟩

theorem kept_dispatch_authOk (st : Settings) (s : ChatSession) (sock : Socket)
    (kind : f.kind = .authOk) : Kept { s with authed := true } (s.dispatch st sock f).1 := by
  unfold dispatch
  rw [kind]
  dsimp only
  split <;> exact ⟨rfl, rfl, rfl, rfl, rfl⟩

/-- The commands that change neither the queue nor the socket, and write no frame. -/
def Cmd.isQuiet : Cmd → Bool
  | .send _ _ | .add _ | .trySendItem _ | .update _ | .request _ | .sendRequest _ _ | .dropSocket
  | .install | .authFailed | .recvFrame _ | .connLost | .remove _ => false
  | _ => true

theorem kept_run (quiet : k.isQuiet = true) : Kept s (run st e s k).1 := by
  cases k with
  | idle =>
      simp only [run, idle]
      cases e.call <;> exact ⟨rfl, rfl, rfl, rfl, rfl⟩
  | retryItem wanted seq =>
      simp only [run, retryItem]
      split
      · exact .refl s
      · split <;> exact ⟨rfl, rfl, rfl, rfl, rfl⟩
  | heartbeatLoop =>
      simp only [run, heartbeatLoop]
      split
      · exact .refl s
      · split
        · exact .refl s
        · split <;> exact ⟨rfl, rfl, rfl, rfl, rfl⟩
  | resend now seq =>
      simp only [run, resend]
      split
      · exact .refl s
      · split <;> exact .refl s
  | flushItem seq =>
      simp only [run, flushItem]
      split <;> exact .refl s
  | failItem seq =>
      simp only [run, failItem]
      split <;> exact ⟨rfl, rfl, rfl, rfl, rfl⟩
  | restoreRoom room =>
      simp only [run, restoreRoom]
      split <;> exact ⟨rfl, rfl, rfl, rfl, rfl⟩
  | retryFailed _ | fetch _ _ _ | startFetch _ _ _ | endFetch | checkDead _ | retransmit _
  | connLoop | authenticate _ | setConnected _ | recvLoop _ | flushPending | failSending =>
      exact ⟨rfl, rfl, rfl, rfl, rfl⟩
  | _ => cases quiet

theorem nextSeq_allocSeq (store : PendingStore) (now : Rat) :
    store.nextSeq ≤ (store.allocSeq now).1 ∧
      (store.allocSeq now).2.nextSeq = (store.allocSeq now).1 + 1 := by
  refine ⟨?_, rfl⟩
  simp only [PendingStore.allocSeq]
  split <;> omega

/-- The command receives AUTH_OK. -/
def Cmd.accepts (e : Ext) : Cmd → Bool
  | .recvFrame _ =>
      match e.receives with
      | .frame f => f.kind = .authOk
      | _ => false
  | _ => false

/-- The same queue and socket; the command has left its events in the trace. -/
structure ChatSession.Grown (st : Settings) (e : Ext) (k : Cmd) (s s' : ChatSession) :
    Prop where
  store : s'.store = s.store
  sock : s'.sock = s.sock
  conns : s'.conns = s.conns
  authed : s'.authed = (s.authed || k.accepts e)
  trace : s'.trace = s.trace ++ k.events st e s

theorem ChatSession.Kept.grown {s' : ChatSession} (kept : Kept s s')
    (refused : k.accepts e = false) (quiet : k.events st e s = []) : Grown st e k s s' where
  store := kept.store
  sock := kept.sock
  conns := kept.conns
  authed := by rw [kept.authed, refused, Bool.or_false]
  trace := by rw [kept.trace, quiet, List.append_nil]

theorem grown_trySendItem : Grown st e (.trySendItem seq) s (s.trySendItem st e seq).1 := by
  have authed : s.authed = (s.authed || false) := (Bool.or_false _).symm
  unfold trySendItem
  split
  next many => exact ChatSession.Kept.grown ⟨rfl, rfl, rfl, rfl, rfl⟩ rfl (if_pos many)
  next few =>
    have events : (Cmd.trySendItem seq).events st e s = s.written e (s.itemMsg st e seq) :=
      if_neg few
    dsimp only
    rw [sendFrame_eq]
    split <;> exact ⟨rfl, rfl, rfl, authed, congrArg (s.trace ++ ·) events.symm⟩

theorem grown_sendRequest {r : Request} :
    Grown st e (.sendRequest r seq) s (s.sendRequest st e seq r).1 := by
  have authed : s.authed = (s.authed || false) := (Bool.or_false _).symm
  simp only [sendRequest]
  rw [sendFrame_eq]
  exact ⟨rfl, rfl, rfl, authed, rfl⟩

theorem grown_recvFrame : Grown st e (.recvFrame sock) s (s.recvFrame st e sock).1 := by
  unfold ChatSession.recvFrame
  split
  next raised failed =>
    exact (Kept.refl s).grown (by simp [Cmd.accepts, failed]) (by simp [Cmd.events, failed])
  next value other =>
    have kept : Kept s { s with lastRx := e.clock 0 } := ⟨rfl, rfl, rfl, rfl, rfl⟩
    exact kept.grown (by simp [Cmd.accepts, other]) (by simp [Cmd.events, other])
  next f received =>
    have events : (Cmd.recvFrame sock).events st e s = [.received sock f] := by
      simp [Cmd.events, received]
    by_cases kind : f.kind = .authOk
    · have kept := kept_dispatch_authOk st
        ({ s with lastRx := e.clock 0 }.log [.received sock f]) sock kind
      refine ⟨kept.store, kept.sock, kept.conns, ?_, ?_⟩
      · simp [kept.authed, Cmd.accepts, received, kind]
      · rw [kept.trace, events]
        rfl
    · have kept := kept_dispatch st
        ({ s with lastRx := e.clock 0 }.log [.received sock f]) sock kind
      refine ⟨kept.store, kept.sock, kept.conns, ?_, ?_⟩
      · rw [kept.authed]
        simp [Cmd.accepts, received, kind, log]
      · rw [kept.trace, events]
        rfl

/-- The commands that change neither the queue nor the socket. -/
def Cmd.isLocal : Cmd → Bool
  | .trySendItem _ | .sendRequest _ _ | .recvFrame _ => true
  | k => k.isQuiet

theorem grown_run (k : Cmd) (inside : k.isLocal = true) : Grown st e k s (run st e s k).1 := by
  cases k with
  | trySendItem seq => exact grown_trySendItem
  | sendRequest r seq => exact grown_sendRequest
  | recvFrame sock => exact grown_recvFrame
  | send _ _ | add _ | update _ | request _ | dropSocket | install | authFailed | connLost
  | remove _ => cases inside
  | _ => exact ChatSession.Kept.grown (kept_run inside) rfl rfl

theorem trace_run (k : Cmd) : (run st e s k).1.trace = s.trace ++ k.events st e s := by
  cases k with
  | add _ | remove _ => rfl
  | send _ _ | update _ | request _ | dropSocket | install | authFailed | connLost =>
      exact (List.append_nil _).symm
  | _ => exact (grown_run _ rfl).trace

theorem mem_trace_run {x : Event} :
    x ∈ (run st e s k).1.trace ↔ x ∈ s.trace ∨ x ∈ k.events st e s := by
  rw [trace_run, List.mem_append]

/-- The queue after a command. -/
theorem mem_items_run (k : Cmd) {held : Int} :
    held ∈ (run st e s k).1.store.items ↔
      (k = .add held ∨ k = .update held ∨ held ∈ s.store.items) ∧ k ≠ .remove held := by
  cases k with
  | add seq => simp [run, ChatSession.add, log, eq_comm]
  | update seq => simp [run, ChatSession.update, eq_comm]
  | remove seq => simp [run, log, and_comm, eq_comm]
  | send _ _ => simp [run, send, PendingStore.allocSeq]
  | request _ => simp [run, request, PendingStore.allocSeq]
  | dropSocket | authFailed => simp [run, dropSocket]
  | connLost => simp [run, connLost, dropSocket]
  | install => simp [run, install]
  | _ => rw [(grown_run _ rfl).store]; simp

theorem nextSeq_le_run (k : Cmd) : s.store.nextSeq ≤ (run st e s k).1.store.nextSeq := by
  cases k with
  | send _ _ | request _ =>
      have alloc := nextSeq_allocSeq s.store (e.clock 0)
      simp only [run, send, request]
      omega
  | add _ | update _ | remove _ | dropSocket | install | authFailed | connLost => exact le_refl _
  | _ => rw [(grown_run _ rfl).store]

/-- The commands that drop the socket. -/
def Cmd.drops : Cmd → Bool
  | .dropSocket | .authFailed | .connLost => true
  | _ => false

/-- What a command does to the socket and to `authed`. -/
theorem socket_run (st : Settings) (e : Ext) (s : ChatSession) (k : Cmd) :
    ((run st e s k).1.sock = s.sock ∧ (run st e s k).1.conns = s.conns ∧
      (run st e s k).1.authed = (s.authed || k.accepts e) ∧ k.drops = false ∧ k ≠ .install) ∨
    ((run st e s k).1.sock = none ∧ (run st e s k).1.conns = s.conns ∧
      (run st e s k).1.authed = false ∧ k.drops = true) ∨
    (k = .install ∧ (run st e s k).1.sock = some (s.conns + 1) ∧
      (run st e s k).1.conns = s.conns + 1 ∧ (run st e s k).1.authed = s.authed) := by
  cases k with
  | install => exact .inr (.inr ⟨rfl, rfl, rfl, rfl⟩)
  | dropSocket | authFailed | connLost => exact .inr (.inl ⟨rfl, rfl, rfl, rfl⟩)
  | send _ _ | add _ | update _ | request _ | remove _ =>
      exact .inl ⟨rfl, rfl, (Bool.or_false _).symm, rfl, by simp⟩
  | _ =>
      refine .inl ⟨?_, ?_, ?_, rfl, by simp⟩
      · exact (grown_run _ rfl).sock
      · exact (grown_run _ rfl).conns
      · exact (grown_run _ rfl).authed

/-! ## What a command leaves to be run -/

/-- The thread of a connection. -/
inductive Phase where
  /-- Any other command. -/
  | off
  /-- There is no socket. -/
  | closed
  /-- The socket is in use. -/
  | on (sock : Socket)
  | closing
  deriving DecidableEq

def Request.phase : Request → Phase
  | .auth sock _ | .loginHello sock | .login sock _ => .on sock
  | _ => .off

def Cmd.phase : Cmd → Phase
  | .connLoop | .install => .closed
  | .authenticate sock | .setConnected sock | .recvLoop sock | .recvFrame sock => .on sock
  | .request r | .sendRequest r _ => r.phase
  | .authFailed | .connLost => .closing
  | _ => .off

/-- The phases that may follow a command, in the thread of the connection or beside it. -/
inductive Cmd.Enters (k : Cmd) : Phase → Prop where
  | off : Enters k .off
  | stay : Enters k k.phase
  | close {sock : Socket} : k.phase = .on sock → Enters k .closing
  | closed : k.phase = .closing → Enters k .closed
  | install {sock : Socket} : k = .install → Enters k (.on sock)

/-- The commands that put an item into the store or take it out. -/
def Cmd.touches : Cmd → Bool
  | .add _ | .remove _ => true
  | _ => false

/-- The lists that a command may leave: only the last one may belong to the thread of the
connection. -/
inductive Cmd.Leaves (k : Cmd) : List Cmd → Prop where
  | nil : Leaves k []
  | last {n : Cmd} : k.Enters n.phase → n.touches = false → Leaves k [n]
  | cons {n : Cmd} {new : List Cmd} : n.phase = .off → n.touches = false → Leaves k new →
      Leaves k (n :: new)

theorem Cmd.Leaves.map_append {f : Int → Cmd} {new : List Cmd} (off : ∀ x, (f x).phase = .off)
    (plain : ∀ x, (f x).touches = false) (rest : k.Leaves new) (items : List Int) :
    k.Leaves (items.map f ++ new) := by
  induction items with
  | nil => exact rest
  | cons head tail inductionHypothesis => exact .cons (off head) (plain head) inductionHypothesis

theorem Cmd.Leaves.map {f : Int → Cmd} (off : ∀ x, (f x).phase = .off)
    (plain : ∀ x, (f x).touches = false) (items : List Int) : k.Leaves (items.map f) := by
  rw [← List.append_nil (items.map f)]
  exact .map_append off plain .nil items

theorem leaves_next (raised : PyError) : (Cmd.recvFrame sock).Leaves raised.next := by
  cases raised with
  | osError | valueError => exact .last (.close rfl) rfl
  | _ => exact .nil

theorem leaves_handleErr (code : Int) :
    (Cmd.recvFrame sock).Leaves (s.handleErr st sock code).2 := by
  unfold handleErr
  split
  · exact .cons rfl rfl (.last .stay rfl)
  · split
    · exact .cons rfl rfl (.last .stay rfl)
    · exact .last .stay rfl

theorem leaves_answerChallenge : (Cmd.recvFrame sock).Leaves (answerChallenge st sock f) := by
  unfold answerChallenge
  split
  · exact .last .stay rfl
  · dsimp only
    split
    · exact .last .stay rfl
    · exact .last .stay rfl
    next raised _ _ => exact leaves_next raised

theorem leaves_handleMessage : (Cmd.recvFrame sock).Leaves (handleMessage sock f) := by
  unfold handleMessage
  split
  · exact leaves_next _
  · dsimp only
    split
    · exact leaves_next _
    · exact .last .stay rfl

/-- Only an ACK for a message in the store has it removed. -/
theorem leaves_dispatch (st : Settings) (s : ChatSession) (sock : Socket) (f : Frame) :
    (Cmd.recvFrame sock).Leaves (s.dispatch st sock f).2 ∨
      ∃ seq ∈ s.store.items, (s.dispatch st sock f).2 = [.remove seq, .recvLoop sock] := by
  have again : (Cmd.recvFrame sock).Leaves [.recvLoop sock] := .last .stay rfl
  unfold dispatch
  cases f.kind with
  | ack =>
      dsimp only
      split
      next seq _ =>
        split
        next there => exact .inr ⟨seq, there, rfl⟩
        next => exact .inl again
      next => exact .inl again
      next raised _ _ => exact .inl (leaves_next raised)
  | nack =>
      dsimp only
      split
      next seq _ =>
        split
        · exact .inl (.cons rfl rfl again)
        · exact .inl again
      next => exact .inl again
      next raised _ _ => exact .inl (leaves_next raised)
  | err =>
      dsimp only
      split
      next code _ => exact .inl (leaves_handleErr code)
      next raised _ => exact .inl (leaves_next raised)
  | challenge => exact .inl leaves_answerChallenge
  | authOk =>
      dsimp only
      split
      · exact .inl (.cons rfl rfl (.cons rfl rfl again))
      next raised _ => exact .inl (leaves_next raised)
  | joinOk => exact .inl (.cons rfl rfl again)
  | message => exact .inl leaves_handleMessage
  | system =>
      dsimp only
      split
      · exact .inl again
      · exact .inl (leaves_next .typeError)
  | _ => exact .inl again

theorem leaves_sendRequest (r : Request) :
    (Cmd.sendRequest r seq).Leaves (s.sendRequest st e seq r).2 := by
  simp only [sendRequest]
  split
  · cases r with
    | ping _ | logout => exact .last .off rfl
    | auth sock _ | loginHello sock | login sock _ => exact .last .stay rfl
    | _ => exact .nil
  · cases r with
    | ping _ => exact .cons rfl rfl (.last .off rfl)
    | page _ _ | logout => exact .last .off rfl
    | auth sock _ | loginHello sock | login sock _ => exact .last (.close rfl) rfl
    | _ => exact .nil

/-- What a command leaves.  A message is put into the store under a new number, and it is
taken out when it is there. -/
theorem leaves_run (st : Settings) (e : Ext) (s : ChatSession) (k : Cmd) :
    k.Leaves (run st e s k).2 ∨
      (∃ receiver content seq, k = .send receiver content ∧
        (run st e s k).2 = [.add seq, .trySendItem seq] ∧
        s.store.nextSeq ≤ seq ∧ seq < (run st e s k).1.store.nextSeq) ∨
      ∃ sock, ∃ seq ∈ s.store.items, k = .recvFrame sock ∧
        (run st e s k).2 = [.remove seq, .recvLoop sock] := by
  cases k with
  | send receiver content =>
      obtain ⟨above, counted⟩ := nextSeq_allocSeq s.store (e.clock 0)
      refine .inr (.inl ⟨receiver, content, _, rfl, rfl, above, ?_⟩)
      change _ < (s.store.allocSeq (e.clock 0)).2.nextSeq
      rw [counted]
      exact Int.lt_succ _
  | recvFrame sock =>
      simp only [run, ChatSession.recvFrame]
      split
      next raised _ => exact .inl (leaves_next raised)
      next => exact .inl (leaves_next .attributeError)
      next f _ =>
        rcases leaves_dispatch st ({ s with lastRx := e.clock 0 }.log [.received sock f]) sock f
          with leaves | removes
        · exact .inl leaves
        · obtain ⟨seq, there, left⟩ := removes
          exact .inr (.inr ⟨sock, seq, there, rfl, left⟩)
  | sendRequest r seq => exact .inl (leaves_sendRequest r)
  | idle =>
      refine .inl ?_
      simp only [run, idle, fetchOlder]
      cases e.call with
      | fetchOlder =>
          dsimp only
          split
          · exact .cons rfl rfl (.last .off rfl)
          · exact .last .off rfl
      | _ => exact .cons rfl rfl (.last .off rfl)
  | trySendItem seq =>
      refine .inl ?_
      simp only [run, trySendItem]
      split
      · exact .last .off rfl
      · split
        · exact .last .off rfl
        · exact .nil
  | retryItem wanted seq =>
      refine .inl ?_
      simp only [run, retryItem]
      split
      · exact .nil
      · split
        · exact .nil
        · exact .cons rfl rfl (.last .off rfl)
  | fetch page cursor position =>
      refine .inl ?_
      simp only [run, fetch]
      split
      · exact .nil
      · exact .last .off rfl
  | heartbeatLoop =>
      refine .inl ?_
      simp only [run, heartbeatLoop]
      split
      · exact .nil
      · split
        · exact .last .off rfl
        · split <;> exact .last .off rfl
  | checkDead now =>
      refine .inl ?_
      simp only [run, checkDead]
      split
      · exact .cons rfl rfl (.last .off rfl)
      · exact .last .off rfl
  | retransmit now =>
      exact .inl (.map_append (fun _ => rfl) (fun _ => rfl) (.last .off rfl) _)
  | resend now seq =>
      refine .inl ?_
      simp only [run, resend]
      split
      · exact .nil
      · split
        · exact .nil
        · exact .last .off rfl
  | connLoop =>
      refine .inl ?_
      simp only [run, connLoop]
      split
      · exact .nil
      · split <;> exact .last .stay rfl
  | authenticate sock =>
      refine .inl ?_
      simp only [run, authenticate]
      split
      · exact .last .stay rfl
      · split
        · exact .last .stay rfl
        · exact .last (.close rfl) rfl
  | recvLoop sock =>
      refine .inl ?_
      simp only [run, recvLoop]
      split
      · exact .last .stay rfl
      · exact .last (.close rfl) rfl
  | connLost =>
      refine .inl ?_
      simp only [run, connLost]
      split
      · exact .last (.closed rfl) rfl
      · exact .nil
  | flushItem seq =>
      refine .inl ?_
      simp only [run, flushItem]
      split
      · exact .nil
      · exact .last .off rfl
  | failItem seq =>
      refine .inl ?_
      simp only [run, failItem]
      split
      · exact .nil
      · exact .last .off rfl
  | restoreRoom room =>
      refine .inl ?_
      simp only [run, restoreRoom]
      split
      · exact .last .off rfl
      · exact .nil
  | retryFailed _ | flushPending | failSending =>
      exact .inl (.map (fun _ => rfl) (fun _ => rfl) _)
  | add _ | update _ | endFetch | dropSocket | remove _ => exact .inl .nil
  | startFetch _ _ _ => exact .inl (.last .off rfl)
  | request r => exact .inl (.last .stay rfl)
  | install => exact .inl (.last (.install rfl) rfl)
  | authFailed => exact .inl (.last (.closed rfl) rfl)
  | setConnected sock => exact .inl (.last .stay rfl)

/-! ## The order of a stack -/

/-- The thread of the connection has one command of its own, below all others.  What puts
an item into the store or takes it out runs at once. -/
def Above (k lower : Cmd) : Prop := k.phase = .off ∧ lower.touches = false

theorem Cmd.Leaves.enters {new : List Cmd} (leaves : k.Leaves new) :
    ∀ n ∈ new, k.Enters n.phase := by
  induction leaves with
  | nil => exact List.forall_mem_nil _
  | last enters _ => exact List.forall_mem_singleton.mpr enters
  | cons off _ _ inductionHypothesis =>
      exact List.forall_mem_cons.mpr ⟨off ▸ .off, inductionHypothesis⟩

theorem Cmd.Leaves.plain {new : List Cmd} (leaves : k.Leaves new) :
    ∀ n ∈ new, n.touches = false := by
  induction leaves with
  | nil => exact List.forall_mem_nil _
  | last _ plain => exact List.forall_mem_singleton.mpr plain
  | cons _ plain _ inductionHypothesis =>
      exact List.forall_mem_cons.mpr ⟨plain, inductionHypothesis⟩

theorem Cmd.Leaves.ordered {new : List Cmd} (leaves : k.Leaves new) : new.Pairwise Above := by
  induction leaves with
  | nil => exact .nil
  | last _ _ => exact List.pairwise_singleton _ _
  | cons off _ rest inductionHypothesis =>
      refine .cons ?_ inductionHypothesis
      intro lower there
      exact ⟨off, rest.plain lower there⟩

/-- A message is added under a new number. -/
theorem nextSeq_le_of_add (there : .add seq ∈ (run st e s k).2) : s.store.nextSeq ≤ seq := by
  rcases leaves_run st e s k with leaves | adds | removes
  · cases leaves.plain _ there
  · obtain ⟨receiver, content, seq', -, left, fresh, -⟩ := adds
    rw [left] at there
    simp only [List.mem_cons, Cmd.add.injEq, reduceCtorEq, List.not_mem_nil, or_false] at there
    exact there ▸ fresh
  · obtain ⟨sock, seq', -, -, left⟩ := removes
    rw [left] at there
    simp at there

theorem enters_run (k : Cmd) : ∀ n ∈ (run st e s k).2, k.Enters n.phase := by
  rcases leaves_run st e s k with leaves | adds | removes
  · exact leaves.enters
  · obtain ⟨receiver, content, seq, rfl, left, -⟩ := adds
    rw [left]
    simp [Cmd.phase, Cmd.Enters.off]
  · obtain ⟨sock, seq, -, rfl, left⟩ := removes
    rw [left]
    intro n there
    simp only [List.mem_cons, List.not_mem_nil, or_false] at there
    rcases there with rfl | rfl
    · exact .off
    · exact .stay

/-- Beside the thread of the connection no command of it appears. -/
theorem Cmd.Enters.eq_off {p : Phase} (enters : k.Enters p) (off : k.phase = .off) : p = .off := by
  cases enters with
  | off => rfl
  | stay => exact off
  | close on => exact absurd (on.symm.trans off) (by simp)
  | closed closing => exact absurd (closing.symm.trans off) (by simp)
  | install same => subst same; cases off

theorem run_of_exec {t : Thread} {s' : ChatSession} {new : List Cmd}
    (ran : (client st).exec t e k s = some (s', new)) :
    s' = (run st e s k).1 ∧ new = (run st e s k).2 := by
  have result : run st e s k = (s', new) := Option.some.inj ran
  rw [result]
  exact ⟨rfl, rfl⟩

theorem respects : (client st).Respects Above := by
  intro t e k s s' new ran
  obtain ⟨rfl, rfl⟩ := run_of_exec ran
  constructor
  · rcases leaves_run st e s k with leaves | adds | removes
    · exact leaves.ordered
    · obtain ⟨receiver, content, seq, -, left, -⟩ := adds
      rw [left]
      simp [Above, Cmd.phase, Cmd.touches]
    · obtain ⟨sock, seq, -, -, left⟩ := removes
      rw [left]
      simp [Above, Cmd.phase, Cmd.touches]
  · intro n there lower above
    exact ⟨(enters_run k n there).eq_off above.1, above.2⟩

end OnlineChat.Client
