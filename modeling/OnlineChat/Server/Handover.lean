import OnlineChat.Library.Recording
import OnlineChat.Library.Trace
import OnlineChat.Server.Flow

/-!
# ACK and hand-over of a private message

The ACK of a private message goes out before the message is relayed to its receiver or
kept for them, in every run.  A crash in between loses it to the receiver.
-/

namespace OnlineChat

open Library MiniJson ChatServer

variable {st : Startup} {s : ChatServer} {c : ConnId} {e : Ext} {w w' : World} {t t' : Thread}
  {k k' n : Cmd} {rest new : List Cmd} {File : Type} {file : Database File} {b : BootExt}
  {m : ChatMsg}

/-! ## What is handed over -/

inductive Handing where
  /-- The loop of a connection takes its next frame. -/
  | taken (c : ConnId)
  /-- The private message of the latest frame of a connection is with its receiver: the
  live relay was accepted, or the offline row has been committed. -/
  | handed (c : ConnId)

/-- Whether the message of the latest frame on `c` has been handed over. -/
def Handing.on (c : ConnId) : Handing → Option Bool
  | .taken c' => if c' = c then some false else none
  | .handed c' => if c' = c then some true else none

/-- `sendRelay` returns true, or the `INSERT INTO offline_messages` succeeds. -/
def hands (s : ChatServer) (e : Ext) : Cmd → Bool
  | .io (.relayTarget m v) =>
      ((s.sides v).sendRelay (messageFrame m.sender m.receiver [] m.content m.ts) m.seq
        (s.sess.username v) (e.nowTs 0) e.writes).ok
  | .db (.insertOffline _ _ since) =>
      match s.db.waitTxIdle since e.sql.spurious with
      | .passes => e.sql.prepares && e.sql.steps
      | _ => false
  | _ => false

def handings (t : Thread) (e : Ext) (k : Cmd) (w : World) : List Handing :=
  match k with
  | .own .frames => [.taken t.conn]
  | k => if hands w.server e k then [.handed t.conn] else []

/-- The server with the history of what it hands over. -/
abbrev tracked (st : Startup) : Program Thread Ext Cmd (World × List Handing) :=
  (server st).recording handings

def HandedOver (c : ConnId) (notes : List Handing) : Prop :=
  latest (Handing.on c) notes = some true

/-- A private message that is about to be acknowledged has been handed over. -/
def AcksHandedOver (cfg : Config Thread Cmd (World × List Handing)) : Prop :=
  ∀ t m rest, cfg.stack t = .io (.sendAck m.seq) :: .sess (.findTarget m) :: rest →
    HandedOver t.conn cfg.shared.2

/-! ## Up to the look-up of the receiver -/

/-- The commands of a private message up to the look-up of its receiver. -/
def Cmd.precedes : Cmd → Bool
  | .limit (.doMessage _) | .checkAndAdd _ | .db (.findReceiver _) | .db (.insertPrivateMsg _ _)
  | .sess (.findTarget _) => true
  | _ => false

/-- Before its receiver is looked up, nobody has been handed the message. -/
def Kept (t : Thread) (k : Cmd) (x : World × List Handing) : Prop :=
  k.precedes = true → t.isClient = true ∧ ¬ HandedOver t.conn x.2

theorem facts_of_precedes (precedes : k.precedes = true) :
    (k.layer = .handler ∨ k.layer = .chain) ∧ handings t e k w = [] := by
  unfold Cmd.precedes at precedes
  split at precedes
  all_goals first
    | exact ⟨.inl rfl, rfl⟩
    | exact ⟨.inr rfl, rfl⟩
    | cases precedes

/-- What is noted is noted by a loop or a chain of a client. -/
theorem handings_cases (t : Thread) (e : Ext) (k : Cmd) (w : World) :
    handings t e k w = [] ∨ ((k.layer = .loop ∨ k.layer = .chain) ∧ k.runsOn t = t.isClient ∧
      ∀ note ∈ handings t e k w, ∀ c, c ≠ t.conn → note.on c = none) := by
  unfold handings
  split
  · refine .inr ⟨.inl rfl, rfl, ?_⟩
    intro note membership c other
    obtain rfl := List.mem_singleton.mp membership
    exact if_neg other.symm
  · split
    next hands =>
      right
      have chain : k.layer = .chain ∧ k.runsOn t = t.isClient := by
        unfold OnlineChat.hands at hands
        split at hands
        · exact ⟨rfl, rfl⟩
        · exact ⟨rfl, rfl⟩
        · cases hands
      refine ⟨.inr chain.1, chain.2, ?_⟩
      intro note membership c other
      obtain rfl := List.mem_singleton.mp membership
      exact if_neg other.symm
    next => exact .inl rfl

/-- Who precedes was called by one that does, or by the loop. -/
theorem precedes_called (called : CalledBy st s c e k n) (precedes : n.precedes = true) :
    k = .own .frames ∨ k.precedes = true := by
  unfold Cmd.precedes at precedes
  split at precedes
  · exact .inl called.1
  · obtain ⟨obj, rfl, -⟩ := called
    exact .inr rfl
  · obtain ⟨rfl, -⟩ := called
    exact .inr rfl
  · rcases called with ⟨rfl, -⟩ | ⟨state', db, rfl, -⟩
    · exact .inr rfl
    · exact .inr rfl
  · obtain ⟨state, db, id, rfl, -⟩ := called
    exact .inr rfl
  · cases precedes

theorem kept_own {notes : List Handing} (kept : Kept t k (w, notes)) (here : k.runsOn t = true)
    (ran : w.run st t.conn e k = some (w', new)) :
    ∀ n ∈ new, Kept t n (w', notes ++ handings t e k w) := by
  intro n membership precedes
  rcases precedes_called (calledBy_run ran n membership) precedes with rfl | before
  · refine ⟨here, ?_⟩
    have fresh : latest (Handing.on t.conn) (notes ++ [.taken t.conn]) = some false :=
      latest_concat (if_pos rfl)
    exact fun handed => by cases fresh.symm.trans handed
  · rw [(facts_of_precedes before).2, List.append_nil]
    exact kept before

theorem kept_other {notes : List Handing} (kept : Kept t' k' (w, notes))
    (here : k.runsOn t = true) (waits : Waits Above t k rest t' k') :
    Kept t' k' (w', notes ++ handings t e k w) := by
  intro precedes
  obtain ⟨client, unhanded⟩ := kept precedes
  refine ⟨client, ?_⟩
  rcases handings_cases t e k w with none | ⟨layer, runs, others⟩
  · rwa [none, List.append_nil]
  · by_cases mine : t'.conn = t.conn
    · -- the thread itself runs a loop or a chain, which waits above no such command
      obtain rfl := Thread.eq_of_conn client (runs ▸ here) mine
      rcases waits with other | ⟨-, above⟩
      · exact absurd rfl other
      · have below := (facts_of_precedes (t := t') (e := e) (w := w) precedes).1
        rcases layer with loop | chain <;> rcases below with handler | chain' <;>
          simp_all [Above, Layer.above]
    · have same : latest (Handing.on t'.conn) (notes ++ handings t e k w) =
          latest (Handing.on t'.conn) notes :=
        latest_append_of_none fun note membership => others note membership _ mine
      rwa [HandedOver, same]

variable {When : Config Thread Cmd (World × List Handing) → Thread → Ext → Bool}
  {cfg : Config Thread Cmd (World × List Handing)}

theorem kept_of_run (run : (tracked st).Reaches When ((start st file b).noted []) cfg) :
    Outlined Above (fun _ => True) Kept cfg := by
  apply run.outlined (respects st).recording
  · refine ⟨trivial, ?_, ?_⟩
    · intro t
      cases t <;> exact List.pairwise_singleton ..
    · intro t k waiting precedes
      cases t <;> obtain rfl := List.mem_singleton.mp waiting <;> cases precedes
  · rintro cfg t e k rest ⟨w, notes⟩ new - outlined - stack ran
    obtain ⟨ran, rfl⟩ := Program.exec_recording.mp ran
    obtain ⟨here, ran⟩ := exec_eq_some_iff.mp ran
    exact ⟨trivial, kept_own (outlined.pending t k (by simp [stack])) here ran⟩
  · rintro cfg t e k rest ⟨w, notes⟩ new - - - - ran t' k' - waits kept
    obtain ⟨ran, rfl⟩ := Program.exec_recording.mp ran
    exact kept_other kept (exec_eq_some_iff.mp ran).1 waits

/-- In every run, wherever a private message is about to be acknowledged, it has not been
handed over. -/
theorem not_handedOver_of_run
    (run : (tracked st).Reaches When ((start st file b).noted []) cfg)
    (stack : cfg.stack t = .io (.sendAck m.seq) :: .sess (.findTarget m) :: rest) :
    ¬ HandedOver t.conn cfg.shared.2 := by
  have waiting : .sess (.findTarget m) ∈ cfg.stack t := by simp [stack]
  exact ((kept_of_run run).pending t _ waiting rfl).2

/-! ## A message to bob -/

/-- A file with the accounts of alice and bob. -/
def bobFile : Database Unit :=
  { users := Demo.file.users.insert
      { username := bytes "bob", salt := Demo.aliceRow.salt, pwdHash := Demo.aliceRow.pwdHash
        createdAt := 1700000000 } }

/-- Alice has logged in, and her message to bob has been stored. -/
def writesToBob : Demo.Schedule :=
  Demo.connects 1 ++ Demo.hello 1 1 ++ Demo.proves 1 1 ++ Demo.enters 1 1 ++
    Demo.steps (.client 1) 6 ++ Demo.speaks "bob" 1 6

/-- The number that is to be acknowledged, and the message behind it. -/
def acknowledging : List Cmd → Option (Int × ChatMsg)
  | .io (.sendAck seq) :: .sess (.findTarget m) :: _ => some (seq, m)
  | _ => none

theorem acknowledging_eq_some {stack : List Cmd} {seq : Int} {m : ChatMsg}
    (acks : acknowledging stack = some (seq, m)) :
    ∃ rest, stack = .io (.sendAck seq) :: .sess (.findTarget m) :: rest := by
  unfold acknowledging at acks
  split at acks
  next seq' m' rest =>
    obtain ⟨rfl, rfl⟩ := Prod.mk.inj (Option.some.inj acks)
    exact ⟨rest, rfl⟩
  next => cases acks

theorem not_handedOver_of_run_bob : ∃ cfg m rest,
    (tracked Demo.startup).Reaches Program.always ((start Demo.startup bobFile {}).noted []) cfg ∧
      cfg.stack (.client 1) = .io (.sendAck m.seq) :: .sess (.findTarget m) :: rest ∧
      (m.sender = bytes "alice" ∧ m.receiver = bytes "bob") ∧ ¬ HandedOver 1 cfg.shared.2 := by
  obtain ⟨cfg, run, ready⟩ := Program.exists_reaches_of_play (tracked Demo.startup) Program.always
    writesToBob ((start Demo.startup bobFile {}).noted [])
    (fun cfg => (acknowledging (cfg.stack (.client 1))).any fun p =>
      p.1 = p.2.seq ∧ p.2.sender = bytes "alice" ∧ p.2.receiver = bytes "bob")
    (by decide +kernel)
  obtain ⟨⟨seq, m⟩, acks, facts⟩ := (Option.any_eq_true _ _).mp ready
  obtain ⟨same, parties⟩ := of_decide_eq_true facts
  obtain rfl : seq = m.seq := same
  obtain ⟨rest, stack⟩ := acknowledging_eq_some acks
  exact ⟨cfg, m, rest, run, stack, parties, not_handedOver_of_run run stack⟩

/-- The message to bob is acknowledged, and the process ends: he is a known user, and the
next server on the same file has no row to push to him. -/
theorem acked_lost : ∃ cfg,
    (tracked Demo.startup).Reaches Program.always ((start Demo.startup bobFile {}).noted []) cfg ∧
      ¬ AcksHandedOver cfg ∧ ∃ cfg', (tracked Demo.startup).fire (.client 1) {} cfg = some cfg' ∧
        .io (.acked 1 (bytes "alice") 1) ∈ cfg'.shared.1.trace ∧
        (cfg'.shared.1.server.db.findUser (bytes "bob") {}).isSome = true ∧
        cfg'.shared.1.server.sess.online (bytes "bob") = none ∧
        (cfg'.shared.1.server.db.reopen : Database Unit).undelivered (bytes "bob") {} = [] := by
  obtain ⟨cfg, run, lost⟩ := Program.exists_reaches_of_play (tracked Demo.startup) Program.always
    writesToBob ((start Demo.startup bobFile {}).noted [])
    (fun cfg => (acknowledging (cfg.stack (.client 1))).any (fun p => p.1 = p.2.seq) &&
      (latest (Handing.on 1) cfg.shared.2 = some false &&
      ((tracked Demo.startup).fire (.client 1) {} cfg).any fun cfg' =>
        .io (.acked 1 (bytes "alice") 1) ∈ cfg'.shared.1.trace ∧
        (cfg'.shared.1.server.db.findUser (bytes "bob") {}).isSome = true ∧
        cfg'.shared.1.server.sess.online (bytes "bob") = none ∧
        (cfg'.shared.1.server.db.reopen : Database Unit).undelivered (bytes "bob") {} = []))
    (by decide +kernel)
  simp only [Bool.and_eq_true, decide_eq_true_eq] at lost
  obtain ⟨acking, unhanded, crashed⟩ := lost
  obtain ⟨⟨seq, m⟩, acks, same⟩ := (Option.any_eq_true _ _).mp acking
  obtain ⟨rest, stack⟩ := acknowledging_eq_some acks
  refine ⟨cfg, run, ?_, ?_⟩
  · intro all
    obtain rfl : seq = m.seq := of_decide_eq_true same
    cases (all (.client 1) m rest stack).symm.trans unhanded
  · obtain ⟨cfg', fired, facts⟩ := (Option.any_eq_true _ _).mp crashed
    exact ⟨cfg', fired, of_decide_eq_true facts⟩

end OnlineChat
