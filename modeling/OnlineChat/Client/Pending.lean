import OnlineChat.Client.Steps

/-!
# The pending queue is exact

The store holds what has been added and not been acknowledged, and an acknowledged message
is not sent again, as long as a thread that transmits an item, or writes one back, still
finds it in the store.  `_try_send_item` does not look: an ACK between the write to the
socket and `update` takes the item out, and `update` puts it back.
-/

namespace OnlineChat.Client

open Library ChatSession

variable {st : Settings} {e : Ext} {s : ChatSession} {t t' : Thread} {k k' n : Cmd}
  {rest new : List Cmd} {seq : Int} {file : PendingFile} {tokens : TokenStore}
  {c : Config Thread Cmd ChatSession}

/-! ## The law -/

/-- The frame of the message with that number. -/
def Event.Transmits (x : Event) (seq : Int) : Prop :=
  ∃ sock m, x = .wrote sock m ∧ m.type = .message ∧ m.seq = seq

/-- A message is sent after `add`, and not after its ACK. -/
def Outstanding (past : List Event) (x : Event) : Prop :=
  ∀ seq, x.Transmits seq → .added seq ∈ past ∧ .acked seq ∉ past

/-- The law of the queue. -/
structure ChatSession.Exact (s : ChatSession) : Prop where
  mem_iff : ∀ seq, seq ∈ s.store.items ↔ .added seq ∈ s.trace ∧ .acked seq ∉ s.trace
  outstanding : Lawful Outstanding s.trace

/-- What is transmitted or written back is in the store. -/
def Held (c : Config Thread Cmd ChatSession) (t : Thread) (e : Ext) : Bool :=
  match c.stack t with
  | .update seq :: _ => seq ∈ c.shared.store.items
  | .trySendItem seq :: _ => c.shared.Sends seq e → seq ∈ c.shared.store.items
  | _ => true

/-- What a command sends or puts back. -/
def Cmd.Handles (k : Cmd) (s : ChatSession) (e : Ext) (seq : Int) : Prop :=
  k = .update seq ∨ (k = .trySendItem seq ∧ s.Sends seq e = true)

theorem held_iff (stack : c.stack t = k :: rest) :
    Held c t e = true ↔ ∀ seq, k.Handles c.shared e seq → seq ∈ c.shared.store.items := by
  unfold Held Cmd.Handles
  rw [stack]
  cases k with
  | trySendItem seq =>
      simp only [decide_eq_true_eq, reduceCtorEq, false_or, Cmd.trySendItem.injEq, and_imp,
        forall_eq']
  | _ => simp

/-! ## The events of a command -/

theorem added_mem_run :
    .added seq ∈ (run st e s k).1.trace ↔ k = .add seq ∨ .added seq ∈ s.trace := by
  rw [mem_trace_run, added_mem_events, or_comm]

theorem acked_mem_run :
    .acked seq ∈ (run st e s k).1.trace ↔ k = .remove seq ∨ .acked seq ∈ s.trace := by
  rw [mem_trace_run, acked_mem_events, or_comm]

theorem exists_transmits_iff :
    (∃ x ∈ k.events st e s, x.Transmits seq) ↔ k = .trySendItem seq ∧ s.Sends seq e = true := by
  constructor
  · rintro ⟨_, there, sock, m, rfl, type, rfl⟩
    obtain ⟨seq, rfl, sends, -, rfl⟩ := message_mem_events.mp ⟨there, type⟩
    exact ⟨rfl, sends⟩
  · rintro ⟨rfl, sends⟩
    obtain ⟨-, connected, -⟩ := of_decide_eq_true sends
    obtain ⟨sock, connected⟩ := Option.isSome_iff_exists.mp connected
    exact ⟨.wrote sock (s.itemMsg st e seq), message_of_sends st sends connected, sock, _, rfl,
      rfl, rfl⟩

/-! ## The invariant -/

/-- The law, and what the counter is for. -/
structure Counted (s : ChatSession) : Prop where
  exact : s.Exact
  below : ∀ seq, .added seq ∈ s.trace → seq < s.store.nextSeq
  added : ∀ seq, .acked seq ∈ s.trace → .added seq ∈ s.trace

/-- What holds while a command waits: a number is counted before it is used, and a message
that is to be taken out stays in the store. -/
def At (t : Thread) (k : Cmd) (s : ChatSession) : Prop :=
  match k with
  | .add seq => seq < s.store.nextSeq ∧ .added seq ∉ s.trace
  | .remove seq => t = .conn ∧ seq ∈ s.store.items
  | k => k.phase ≠ .off → t = .conn

/-- A number is used by one thread. -/
def Adds (k : Cmd) (seq : Int) : Prop := k = .add seq

/-- A command that runs keeps the law where it holds of what the command handles. -/
theorem counted_run (counted : Counted s) (here : At t k s)
    (held : ∀ seq, k.Handles s e seq → seq ∈ s.store.items) : Counted (run st e s k).1 := by
  obtain ⟨⟨mem_iff, outstanding⟩, below, added⟩ := counted
  refine ⟨⟨?_, ?_⟩, ?_, ?_⟩
  · intro seq
    rw [mem_items_run, added_mem_run, acked_mem_run, not_or]
    constructor
    · rintro ⟨rfl | rfl | there, keeps⟩
      · exact ⟨.inl rfl, keeps, fun acked => here.2 (added seq acked)⟩
      · obtain ⟨old, unacked⟩ := (mem_iff seq).mp (held seq (.inl rfl))
        exact ⟨.inr old, keeps, unacked⟩
      · obtain ⟨old, unacked⟩ := (mem_iff seq).mp there
        exact ⟨.inr old, keeps, unacked⟩
    · rintro ⟨rfl | old, keeps, unacked⟩
      · exact ⟨.inl rfl, keeps⟩
      · exact ⟨.inr (.inr ((mem_iff seq).mpr ⟨old, unacked⟩)), keeps⟩
  · rw [trace_run]
    apply outstanding.append
    intro past x later split seq transmits
    have emitted : x ∈ k.events st e s := by simp [split]
    obtain ⟨rfl, sends⟩ := exists_transmits_iff.mp ⟨x, emitted, transmits⟩
    obtain ⟨old, unacked⟩ := (mem_iff seq).mp (held seq (.inr ⟨rfl, sends⟩))
    refine ⟨List.mem_append_left _ old, ?_⟩
    intro acked
    rcases List.mem_append.mp acked with before | fresh
    · exact unacked before
    · cases acked_mem_events.mp (split ▸ List.mem_append_left _ fresh)
  · intro seq there
    rcases added_mem_run.mp there with rfl | old
    · exact lt_of_lt_of_le here.1 (nextSeq_le_run _)
    · exact lt_of_lt_of_le (below seq old) (nextSeq_le_run _)
  · intro seq there
    apply added_mem_run.mpr
    rcases acked_mem_run.mp there with rfl | old
    · exact .inr ((mem_iff seq).mp here.2).1
    · exact .inr (added seq old)

/-- A command after which the law holds has found what it handled. -/
theorem held_of_exact_run (before : s.Exact) (after : (run st e s k).1.Exact)
    (handles : k.Handles s e seq) : seq ∈ s.store.items := by
  apply (before.mem_iff seq).mpr
  rcases handles with rfl | ⟨rfl, sends⟩
  · have there : seq ∈ (run st e s (.update seq)).1.store.items :=
      (mem_items_run _).mpr ⟨.inr (.inl rfl), by simp⟩
    obtain ⟨added, unacked⟩ := (after.mem_iff seq).mp there
    rw [added_mem_run] at added
    rw [acked_mem_run] at unacked
    simpa using And.intro added unacked
  · obtain ⟨x, emitted, transmits⟩ :
        ∃ x ∈ (Cmd.trySendItem seq).events st e s, x.Transmits seq :=
      exists_transmits_iff.mpr ⟨rfl, sends⟩
    obtain ⟨past, later, split⟩ := List.append_of_mem emitted
    have whole : (run st e s (.trySendItem seq)).1.trace = (s.trace ++ past) ++ x :: later := by
      rw [trace_run, split, List.append_assoc]
    obtain ⟨added, unacked⟩ := after.outstanding _ x later whole seq transmits
    refine ⟨?_, fun acked => unacked (List.mem_append_left _ acked)⟩
    rcases List.mem_append.mp added with old | fresh
    · exact old
    · cases added_mem_events.mp (split ▸ List.mem_append_left _ fresh)

theorem conn_of_at (here : At t k s) (main : k.phase ≠ .off) : t = .conn := by
  cases k with
  | add _ | remove _ => exact absurd rfl main
  | _ => exact here main

/-- The commands that are left may wait. -/
theorem at_run (counted : Counted s) (here : At t k s) :
    ∀ n ∈ (run st e s k).2, At t n (run st e s k).1 := by
  have outside (n : Cmd) (there : n ∈ (run st e s k).2) (main : n.phase ≠ .off) : t = .conn := by
    apply conn_of_at here
    intro off
    exact main ((enters_run k n there).eq_off off)
  rcases leaves_run st e s k with leaves | adds | removes
  · intro n there
    have plain := leaves.plain n there
    have main := outside n there
    cases n with
    | add _ | remove _ => cases plain
    | _ => exact main
  · obtain ⟨receiver, content, seq, rfl, left, fresh, bounded⟩ := adds
    rw [left] at outside ⊢
    rw [List.forall_mem_cons]
    refine ⟨⟨bounded, ?_⟩, ?_⟩
    · intro there
      rcases added_mem_run.mp there with added | old
      · cases added
      · exact absurd (counted.below seq old) (not_lt.mpr fresh)
    · exact List.forall_mem_singleton.mpr (outside _ (by simp))
  · obtain ⟨sock, seq, there, rfl, left⟩ := removes
    have conn := conn_of_at here (by simp [Cmd.phase])
    have still : seq ∈ (run st e s (.recvFrame sock)).1.store.items :=
      (mem_items_run _).mpr ⟨.inr (.inr there), by simp⟩
    rw [left, List.forall_mem_cons]
    exact ⟨⟨conn, still⟩, List.forall_mem_singleton.mpr fun _ => conn⟩

/-- What waits is not disturbed. -/
theorem at_of_waits (here : At t k s) (apart : t' ≠ t → ∀ seq, Adds k' seq → ¬ Adds k seq)
    (waits : Waits Above t k rest t' k') (pending : At t' k' s) :
    At t' k' (run st e s k).1 := by
  cases k' with
  | add seq =>
      obtain ⟨counted, unsent⟩ := pending
      refine ⟨lt_of_lt_of_le counted (nextSeq_le_run k), ?_⟩
      intro there
      rcases added_mem_run.mp there with rfl | old
      · rcases waits with other | ⟨-, -, touched⟩
        · exact apart other seq rfl rfl
        · cases touched
      · exact unsent old
  | remove seq =>
      obtain ⟨conn, there⟩ := pending
      refine ⟨conn, (mem_items_run k).mpr ⟨.inr (.inr there), ?_⟩⟩
      rintro rfl
      rcases waits with other | ⟨-, -, touched⟩
      · exact other (conn.trans here.1.symm)
      · cases touched
  | _ => exact pending

/-! ## Runs -/

/-- The invariant of the runs. -/
structure Queued (c : Config Thread Cmd ChatSession) : Prop where
  outlined : Outlined Above Counted At c
  exclusive : Exclusive Adds c

theorem counted_load (file : PendingFile) (tokens : TokenStore) :
    Counted (.load file tokens) := by
  have added (seq : Int) : .added seq ∈ (ChatSession.load file tokens).trace ↔
      ∃ item ∈ file.items, item.seq = seq := by
    simp [load]
  have unacked (seq : Int) : .acked seq ∉ (ChatSession.load file tokens).trace := by
    simp [load]
  refine ⟨⟨?_, ?_⟩, ?_, ?_⟩
  · intro seq
    rw [added]
    simp [load]
  · rintro past _ later split seq ⟨sock, m, rfl, -⟩
    have there : .wrote sock m ∈ (ChatSession.load file tokens).trace := by simp [split]
    simp [load] at there
  · intro seq there
    obtain ⟨item, held, rfl⟩ := (added seq).mp there
    exact file.counted item held
  · intro seq there
    exact absurd there (unacked seq)

theorem queued_start (file : PendingFile) (tokens : TokenStore) : Queued (start file tokens) := by
  refine ⟨⟨counted_load file tokens, ?_, ?_⟩, ?_⟩
  · intro t
    cases t <;> exact List.pairwise_singleton _ _
  · intro t k there
    cases t with
    | conn =>
        rw [List.mem_singleton.mp there]
        exact fun _ => rfl
    | heartbeat | caller _ =>
        rw [List.mem_singleton.mp there]
        exact fun main => absurd rfl main
  · intro t t' _ k there k' _ seq adds
    subst adds
    cases t <;> cases List.mem_singleton.mp there

theorem queued_step {s : ChatSession} (queued : Queued c) (allowed : Held c t e = true)
    (stack : c.stack t = k :: rest) (ran : (client st).exec t e k c.shared = some (s, new)) :
    Queued ⟨s, Function.update c.stack t (new ++ rest)⟩ := by
  obtain ⟨outlined, exclusive⟩ := queued
  obtain ⟨rfl, rfl⟩ := run_of_exec ran
  have top : k ∈ c.stack t := by simp [stack]
  have here := outlined.pending t k top
  refine ⟨outlined.step respects stack ran ⟨?_, ?_⟩ ?_, exclusive.step stack ?_⟩
  · exact counted_run outlined.inv here ((held_iff stack).mp allowed)
  · exact at_run outlined.inv here
  · intro t' k' there waits pending
    apply at_of_waits here _ waits pending
    intro other seq adds adds'
    exact exclusive t' t other k' there k top seq adds adds'
  · rintro n there seq rfl
    refine .inr ?_
    rintro t' - k' pending rfl
    exact absurd (outlined.pending t' _ pending).1 (not_lt.mpr (nextSeq_le_of_add there))

/-- In every run in which what is transmitted or written back is in the store, the store
holds exactly the messages that were added and not acknowledged, and no message is sent
after its ACK.  The first step that is not so breaks this. -/
theorem exact_iff_held (file : PendingFile) (tokens : TokenStore)
    (run : (client st).Reaches Held (start file tokens) c) :
    c.shared.Exact ∧ ∀ t e c', (client st).fire t e c = some c' →
      (c'.shared.Exact ↔ Held c t e = true) := by
  have queued : Queued c := run.invariant (queued_start file tokens)
    fun _ _ _ _ _ _ _ _ queued allowed stack ran => queued_step queued allowed stack ran
  have exact := queued.outlined.inv.exact
  refine ⟨exact, ?_⟩
  intro t e c' fired
  obtain ⟨k, rest, s, new, stack, ran, rfl⟩ := (client st).fire_eq_some_iff.mp fired
  constructor
  · intro after
    apply (held_iff stack).mpr
    intro seq handles
    obtain ⟨rfl, -⟩ := run_of_exec ran
    exact held_of_exact_run exact after handles
  · intro held
    exact (queued_step queued held stack ran).outlined.inv.exact

/-- Whatever the order of the steps, nothing is dropped without an ACK. -/
theorem mem_or_acked (file : PendingFile) (tokens : TokenStore)
    (run : (client st).Reaches Program.always (start file tokens) c)
    (added : .added seq ∈ c.shared.trace) :
    seq ∈ c.shared.store.items ∨ .acked seq ∈ c.shared.trace := by
  revert added
  refine run.invariant (motive := fun c => .added seq ∈ c.shared.trace →
    seq ∈ c.shared.store.items ∨ .acked seq ∈ c.shared.trace) ?_ ?_
  · intro added
    have exact := (counted_load file tokens).exact
    exact .inl ((exact.mem_iff seq).mpr ⟨added, by simp [load]⟩)
  · intro c t e k rest s new _ inductionHypothesis _ _ ran added
    obtain ⟨rfl, rfl⟩ := run_of_exec ran
    dsimp only at added ⊢
    rw [mem_items_run, acked_mem_run]
    by_cases removes : k = .remove seq
    · exact .inr (.inl removes)
    · rcases added_mem_run.mp added with rfl | old
      · exact .inl ⟨.inl rfl, removes⟩
      · rcases inductionHypothesis old with there | acked
        · exact .inl ⟨.inr (.inr there), removes⟩
        · exact .inr (.inr acked)

/-! ## An ACK between the transmission and the write-back -/

namespace Demo

/-- A user with a valid token. -/
def alice : Settings where
  username := bytes "alice"
  lib := ⟨fun _ _ _ _ => [], fun _ _ => []⟩

def token : TokenStore where
  token := .str (bytes "t1")
  tokenExp := 600

def noItems : PendingFile where
  counted := List.forall_mem_nil _

def connStep (e : Ext) : Thread × Ext := (.conn, e)

def receives (type : String) (content : PyValue) (more : Frame) : Thread × Ext :=
  connStep { receives := .frame ((bytes "type", .str (bytes type)) :: (bytes "content", content) ::
    more) }

/-- Up to the frame with the token, and up to `_recv_loop`. -/
def connects : List (Thread × Ext) := List.replicate 7 (connStep {})

/-- The server accepts the token. -/
def accepts : List (Thread × Ext) :=
  receives "AUTH_OK" (.str (bytes "t2")) [(bytes "exp", .int 600)] :: List.replicate 3 (connStep {})

/-- A caller sends a message, up to `update`. -/
def sends : List (Thread × Ext) :=
  (.caller 0, { call := .send (bytes "bob") (bytes "hi") }) ::
    List.replicate 3 (.caller 0, {})

/-- `update` -/
def writesBack : Thread × Ext := (.caller 0, {})

/-- The server acknowledges it. -/
def acknowledges : List (Thread × Ext) :=
  [receives "ACK" (.str (bytes "2")) [], connStep {}]

/-- The message with number 2 has been acknowledged. -/
def answered (c : Config Thread Cmd ChatSession) : Bool :=
  c.shared.trace.any fun x => match x with
    | .acked seq => seq = 2
    | _ => false

theorem acked_of_answered (acked : answered c = true) : .acked 2 ∈ c.shared.trace := by
  obtain ⟨x, there, acks⟩ := List.any_eq_true.mp acked
  cases x with
  | acked seq => exact of_decide_eq_true acks ▸ there
  | _ => cases acks

/-- A message that is sent, written back and acknowledged in this order has left the store. -/
theorem exact_iff_held_alice :
    ∃ c, (client alice).Reaches Held (start noItems token) c ∧ c.shared.store.items = [] ∧
      .acked 2 ∈ c.shared.trace ∧ c.shared.Exact := by
  obtain ⟨c, run, checked⟩ := Program.exists_reaches_of_play (client alice) Held
    (connects ++ accepts ++ sends ++ writesBack :: acknowledges) (start noItems token)
    (fun c => c.shared.store.items = [] && answered c) (by decide +kernel)
  obtain ⟨empty, acked⟩ := Bool.and_eq_true_iff.mp checked
  exact ⟨c, run, of_decide_eq_true empty, acked_of_answered acked,
    (exact_iff_held noItems token run).1⟩

/-- When the ACK comes before `update`, the message is back in the store. -/
theorem written_back :
    ¬ ∀ c, (client alice).Reaches Program.always (start noItems token) c → c.shared.Exact := by
  intro exact
  obtain ⟨c, run, checked⟩ := Program.exists_reaches_of_play (client alice) Program.always
    (connects ++ accepts ++ sends ++ acknowledges ++ [writesBack]) (start noItems token)
    (fun c => 2 ∈ c.shared.store.items && answered c) (by decide +kernel)
  obtain ⟨there, acked⟩ := Bool.and_eq_true_iff.mp checked
  exact (((exact c run).mem_iff 2).mp (of_decide_eq_true there)).2 (acked_of_answered acked)

end Demo

end OnlineChat.Client
