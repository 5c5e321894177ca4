import OnlineChat.Client.Wire

/-!
# A message is sent again as it was

A number is given to one item.  Whichever thread sends the item, on whichever socket and how
often, the frame carries the receiver, the content and the time that it was given by `send`.
-/

namespace OnlineChat.Client

open Library ChatSession

variable {st : Settings} {e : Ext} {s : ChatSession} {t : Thread} {k n : Cmd} {rest new : List Cmd}
  {seq : Int} {sock : Socket} {f : Frame} {file : PendingFile} {tokens : TokenStore}

/-! ## What an item keeps -/

/-- Only the state of the transmission differs. -/
structure PendingItem.Same (item item' : PendingItem) : Prop where
  receiver : item'.receiver = item.receiver
  content : item'.content = item.content
  ts : item'.ts = item.ts

theorem PendingItem.Same.refl (item : PendingItem) : item.Same item := ⟨rfl, rfl, rfl⟩

/-- The message of an item. -/
structure Msg.Carries (m : Msg) (item : PendingItem) : Prop where
  receiver : m.receiver = item.receiver
  content : m.content = .str item.content
  ts : m.ts = item.ts

theorem Msg.Carries.same {m : Msg} {item item' : PendingItem} (carries : m.Carries item)
    (same : item.Same item') : m.Carries item' where
  receiver := carries.receiver.trans same.receiver.symm
  content := by rw [carries.content, same.content]
  ts := carries.ts.trans same.ts.symm

theorem same_setItem {change : PendingItem → PendingItem}
    (keeps : ∀ item : PendingItem, item.Same (change item)) (held : Int) :
    (s.objects held).Same ((s.setItem seq change).objects held) := by
  simp only [ChatSession.setItem]
  by_cases own : held = seq
  · subst own
    rw [Function.update_self]
    exact keeps _
  · rw [Function.update_of_ne own]
    exact .refl _

theorem same_handleErr (code : Int) (held : Int) :
    (s.objects held).Same ((s.handleErr st sock code).1.objects held) := by
  unfold handleErr
  split
  · exact .refl _
  · split <;> exact .refl _

theorem same_dispatch (held : Int) :
    (s.objects held).Same ((s.dispatch st sock f).1.objects held) := by
  unfold dispatch
  cases f.kind with
  | ack => dsimp only; split <;> exact .refl _
  | nack =>
      dsimp only
      split
      · split
        · dsimp only
          apply same_setItem
          exact fun item => ⟨rfl, rfl, rfl⟩
        · exact .refl _
      all_goals exact .refl _
  | err =>
      dsimp only
      split
      next code _ => exact same_handleErr code held
      next => exact .refl _
  | authOk | system => dsimp only; split <;> exact .refl _
  | _ => exact .refl _

/-- A number that has been given away keeps its text. -/
theorem same_run (given : seq < s.store.nextSeq) :
    (s.objects seq).Same ((run st e s k).1.objects seq) := by
  cases k with
  | send receiver content =>
      have fresh := (nextSeq_allocSeq s.store (e.clock 0)).1
      simp only [run, send]
      rw [Function.update_of_ne (by omega)]
      exact .refl _
  | trySendItem held =>
      simp only [run, trySendItem, sendFrame_eq]
      split
      · dsimp only
        apply same_setItem
        exact fun item => ⟨rfl, rfl, rfl⟩
      · split
        · have sent (item : PendingItem) :
              item.Same { item with attempts := item.attempts + 1, lastSent := e.clock 1 } :=
            ⟨rfl, rfl, rfl⟩
          exact same_setItem (s := s.log (s.written e (s.itemMsg st e held))) sent seq
        · exact .refl _
  | sendRequest r number =>
      simp only [run, sendRequest, sendFrame_eq]
      exact .refl _
  | retryItem wanted held =>
      simp only [run, retryItem]
      split
      · exact .refl _
      · split
        · exact .refl _
        · dsimp only
          apply same_setItem
          exact fun item => ⟨rfl, rfl, rfl⟩
  | failItem held =>
      simp only [run, failItem]
      split
      · exact .refl _
      · dsimp only
        apply same_setItem
        exact fun item => ⟨rfl, rfl, rfl⟩
  | recvFrame sock =>
      simp only [run, ChatSession.recvFrame]
      split
      · exact .refl _
      · exact .refl _
      next f _ =>
        exact @same_dispatch st ({ s with lastRx := e.clock 0 }.log [.received sock f]) sock f seq
  | idle =>
      simp only [run, idle]
      cases e.call <;> exact .refl _
  | heartbeatLoop =>
      simp only [run, heartbeatLoop]
      split
      · exact .refl _
      · split
        · exact .refl _
        · split <;> exact .refl _
  | resend now held =>
      simp only [run, resend]
      split
      · exact .refl _
      · split <;> exact .refl _
  | flushItem held =>
      simp only [run, flushItem]
      split <;> exact .refl _
  | restoreRoom room =>
      simp only [run, restoreRoom]
      split <;> exact .refl _
  | _ => exact .refl _

/-! ## The numbers of commands -/

/-- The number of the item that a command is about. -/
def Cmd.number : Cmd → Option Int
  | .add seq | .trySendItem seq | .update seq | .retryItem _ seq | .resend _ seq | .remove seq
  | .flushItem seq | .failItem seq => some seq
  | _ => none

/-- The commands are about items with such numbers. -/
def About (P : Int → Prop) (commands : List Cmd) : Prop :=
  ∀ n ∈ commands, ∀ seq, n.number = some seq → P seq

variable {P : Int → Prop} {commands : List Cmd}

theorem about_nil : About P [] := List.forall_mem_nil _

theorem About.cons (first : ∀ seq, k.number = some seq → P seq) (others : About P commands) :
    About P (k :: commands) := List.forall_mem_cons.mpr ⟨first, others⟩

/-- A command that is about no item. -/
theorem About.plain (none : k.number = none) (others : About P commands) :
    About P (k :: commands) := by
  apply others.cons
  intro seq some'
  cases none.symm.trans some'

theorem about_one (none : k.number = none) : About P [k] := .plain none about_nil

theorem about_map {g : Int → Cmd} (numbers : ∀ x, (g x).number = some x) {items : List Int}
    (held : ∀ seq ∈ items, P seq) : About P (items.map g) := by
  intro n there seq number
  obtain ⟨x, among, rfl⟩ := List.mem_map.mp there
  obtain rfl := Option.some.inj ((numbers x).symm.trans number)
  exact held x among

theorem about_next (raised : PyError) : About P raised.next := by
  cases raised with
  | osError | valueError => exact about_one rfl
  | _ => exact about_nil

theorem about_answerChallenge : About P (answerChallenge st sock f) := by
  unfold answerChallenge
  split
  · exact about_one rfl
  · dsimp only
    split
    · exact about_one rfl
    · exact about_one rfl
    · exact about_next _

theorem about_handleErr (code : Int) : About P (s.handleErr st sock code).2 := by
  unfold handleErr
  split
  · exact .plain rfl (about_one rfl)
  · split
    · exact .plain rfl (about_one rfl)
    · exact about_one rfl

theorem about_handleMessage : About P (handleMessage sock f) := by
  unfold handleMessage
  split
  · exact about_next _
  · dsimp only
    split
    · exact about_next _
    · exact about_one rfl

theorem about_dispatch (held : ∀ seq ∈ s.store.items, P seq) :
    About P (s.dispatch st sock f).2 := by
  unfold dispatch
  cases f.kind with
  | ack | nack =>
      dsimp only
      split
      next seq _ =>
        split
        next there =>
          dsimp only
          refine .cons ?_ (about_one rfl)
          rintro _ ⟨⟩
          exact held seq there
        next => exact about_one rfl
      next => exact about_one rfl
      next => exact about_next _
  | err =>
      dsimp only
      split
      next code _ => exact about_handleErr code
      next => exact about_next _
  | challenge => exact about_answerChallenge
  | authOk =>
      dsimp only
      split
      · exact .plain rfl (.plain rfl (about_one rfl))
      · exact about_next _
  | joinOk => exact .plain rfl (about_one rfl)
  | message => exact about_handleMessage
  | system =>
      dsimp only
      split
      · exact about_one rfl
      · exact about_next .typeError
  | _ => exact about_one rfl

/-- What a command leaves is about its own item, items of the store, or one that it has given
a number. -/
theorem about_run (own : ∀ seq, k.number = some seq → P seq) (held : ∀ seq ∈ s.store.items, P seq)
    (fresh : ∀ seq, s.store.nextSeq ≤ seq → seq < (run st e s k).1.store.nextSeq → P seq) :
    About P (run st e s k).2 := by
  have snapshot {g : Int → Cmd} (numbers : ∀ x, (g x).number = some x) :
      About P (s.store.snapshot.map g) := by
    refine about_map numbers ?_
    intro seq there
    exact held seq (by simpa [PendingStore.snapshot] using there)
  cases k with
  | send receiver content =>
      have number : P (s.store.allocSeq (e.clock 0)).1 := by
        obtain ⟨low, high⟩ := nextSeq_allocSeq s.store (e.clock 0)
        apply fresh _ low
        simp only [run, send, high]
        omega
      refine .cons ?_ (.cons ?_ about_nil) <;> rintro _ ⟨⟩ <;> exact number
  | trySendItem seq =>
      simp only [run, trySendItem]
      split
      · exact about_nil.cons own
      · split
        · exact about_nil.cons own
        · exact about_nil
  | retryItem wanted seq =>
      simp only [run, retryItem]
      split
      · exact about_nil
      · split
        · exact about_nil
        · exact .cons own (about_nil.cons own)
  | resend now seq =>
      simp only [run, resend]
      split
      · exact about_nil
      · split
        · exact about_nil
        · exact about_nil.cons own
  | flushItem seq | failItem seq =>
      simp only [run, flushItem, failItem]
      split
      · exact about_nil
      · exact about_nil.cons own
  | retryFailed wanted => exact snapshot fun _ => rfl
  | flushPending | failSending => exact snapshot fun _ => rfl
  | retransmit now =>
      exact List.forall_mem_append.mpr ⟨snapshot fun _ => rfl, about_one rfl⟩
  | recvFrame sock =>
      simp only [run, ChatSession.recvFrame]
      split
      · exact about_next _
      · exact about_next .attributeError
      · exact about_dispatch held
  | sendRequest r seq =>
      simp only [run, sendRequest]
      split
      · cases r <;> first | exact about_nil | exact about_one rfl
      · cases r <;> first
          | exact about_nil
          | exact about_one rfl
          | exact .plain rfl (about_one rfl)
  | idle =>
      simp only [run, idle, fetchOlder]
      cases e.call with
      | fetchOlder =>
          dsimp only
          split
          · exact .plain rfl (about_one rfl)
          · exact about_one rfl
      | _ => exact .plain rfl (about_one rfl)
  | fetch page cursor position =>
      simp only [run, fetch]
      split
      · exact about_nil
      · exact about_one rfl
  | heartbeatLoop =>
      simp only [run, heartbeatLoop]
      split
      · exact about_nil
      · split
        · exact about_one rfl
        · split <;> exact about_one rfl
  | checkDead now =>
      simp only [run, checkDead]
      split
      · exact .plain rfl (about_one rfl)
      · exact about_one rfl
  | connLoop =>
      simp only [run, connLoop]
      split
      · exact about_nil
      · split <;> exact about_one rfl
  | authenticate sock =>
      simp only [run, authenticate]
      split
      · exact about_one rfl
      · split <;> exact about_one rfl
  | connLost =>
      simp only [run, connLost]
      split
      · exact about_one rfl
      · exact about_nil
  | recvLoop sock =>
      simp only [run, recvLoop]
      split <;> exact about_one rfl
  | restoreRoom room =>
      simp only [run, restoreRoom]
      split
      · exact about_one rfl
      · exact about_nil
  | add seq | update seq | endFetch | dropSocket | remove seq => exact about_nil
  | _ => exact about_one rfl

/-! ## Runs -/

/-- The number has been given to an item or to a request. -/
def ChatSession.Given (s : ChatSession) (seq : Int) : Prop := 0 < seq ∧ seq < s.store.nextSeq

theorem ChatSession.Given.run (given : s.Given seq) : (run st e s k).1.Given seq :=
  ⟨given.1, Int.lt_of_lt_of_le given.2 (nextSeq_le_run k)⟩

/-- Each message that was sent is that of its item. -/
structure Constant (s : ChatSession) : Prop where
  counter : 0 < s.store.nextSeq
  items : ∀ seq ∈ s.store.items, s.Given seq
  frames : ∀ sock m, .wrote sock m ∈ s.trace → m.type = .message →
    s.Given m.seq ∧ m.Carries (s.objects m.seq)

theorem constant_run (constant : Constant s) (own : ∀ seq, k.number = some seq → s.Given seq) :
    Constant (run st e s k).1 where
  counter := Int.lt_of_lt_of_le constant.counter (nextSeq_le_run k)
  items := by
    intro seq there
    apply ChatSession.Given.run
    rcases ((mem_items_run k).mp there).1 with rfl | rfl | held
    · exact own seq rfl
    · exact own seq rfl
    · exact constant.items seq held
  frames := by
    intro sock m there type
    suffices before : s.Given m.seq ∧ m.Carries (s.objects m.seq) from
      ⟨before.1.run, before.2.same (same_run before.1.2)⟩
    rcases mem_trace_run.mp there with old | now
    · exact constant.frames sock m old type
    · obtain ⟨seq, rfl, -, -, rfl⟩ := message_mem_events.mp ⟨now, type⟩
      exact ⟨own seq rfl, rfl, rfl, rfl⟩

/-- The numbers in the file are positive. -/
def PendingFile.Positive (file : PendingFile) : Prop :=
  0 < file.nextSeq ∧ ∀ item ∈ file.items, 0 < item.seq

variable {When : Config Thread Cmd ChatSession → Thread → Ext → Bool}
  {c : Config Thread Cmd ChatSession}

theorem constant_load (positive : file.Positive) : Constant (.load file tokens) where
  counter := positive.1
  items := by
    intro seq there
    obtain ⟨item, held, rfl⟩ := List.mem_map.mp (List.mem_dedup.mp there)
    exact ⟨positive.2 item held, file.counted item held⟩
  frames := by
    intro sock m there
    simp [load] at there

theorem constant_reached (positive : file.Positive)
    (run : (client st).Reaches When (start file tokens) c) : Constant c.shared := by
  suffices invariant : Constant c.shared ∧ ∀ t, About c.shared.Given (c.stack t) from invariant.1
  apply run.invariant
  · refine ⟨constant_load positive, ?_⟩
    intro t
    cases t <;> exact about_one rfl
  · rintro c t e k rest s new - ⟨constant, pending⟩ - stack ran
    obtain ⟨rfl, rfl⟩ := run_of_exec ran
    have commands := pending t
    rw [stack] at commands
    obtain ⟨own, below⟩ := List.forall_mem_cons.mp commands
    have onward (t : Thread) : About (Client.run st e c.shared k).1.Given (c.stack t) :=
      fun n there seq number => (pending t n there seq number).run
    refine ⟨constant_run constant own, ?_⟩
    intro t'
    dsimp only
    by_cases same : t' = t
    · subst same
      rw [Function.update_self]
      refine List.forall_mem_append.mpr ⟨?_, ?_⟩
      · apply about_run
        · exact fun seq number => (own seq number).run
        · exact fun seq there => (constant.items seq there).run
        · exact fun seq low high => ⟨Int.lt_of_lt_of_le constant.counter low, high⟩
      · exact fun n there seq number => (below n there seq number).run
    · rw [Function.update_of_ne same]
      exact onward t'

/-- In every run all frames of a message, on whichever socket, are those of its one item. -/
theorem resent_of_run (positive : file.Positive)
    (run : (client st).Reaches When (start file tokens) c) :
    ∀ sock m, .wrote sock m ∈ c.shared.trace → m.type = .message →
      c.shared.Given m.seq ∧ m.Carries (c.shared.objects m.seq) ∧
        ∀ sock' m', .wrote sock' m' ∈ c.shared.trace → m'.type = .message → m'.seq = m.seq →
          m'.receiver = m.receiver ∧ m'.content = m.content ∧ m'.ts = m.ts := by
  have constant := constant_reached positive run
  intro sock m there type
  obtain ⟨given, carries⟩ := constant.frames sock m there type
  refine ⟨given, carries, ?_⟩
  intro sock' m' there' type' same
  obtain ⟨-, carries'⟩ := constant.frames sock' m' there' type'
  rw [same] at carries'
  exact ⟨carries'.receiver.trans carries.receiver.symm, carries'.content.trans carries.content.symm,
    carries'.ts.trans carries.ts.symm⟩

namespace Demo

/-- The connection breaks, the next one is accepted, and the message is sent again. -/
def sendsAgain : List (Thread × Ext) :=
  [connStep {}, connStep {}] ++ connects ++ accepts

/-- A message that has not been acknowledged goes out on both sockets. -/
theorem resent_of_run_again :
    ∃ c, (client alice).Reaches Program.always (start noItems token) c ∧
      ∃ m m', .wrote 1 m ∈ c.shared.trace ∧ .wrote 2 m' ∈ c.shared.trace ∧
        m'.receiver = bytes "bob" ∧ m'.content = m.content := by
  obtain ⟨c, run, checked⟩ := Program.exists_reaches_of_play (client alice) Program.always
    (connects ++ accepts ++ sends ++ writesBack :: sendsAgain) (start noItems token)
    (fun c => (sentOn 1 c.shared.trace).any (fun m => m.type = .message && m.seq = 2) &&
      (sentOn 2 c.shared.trace).any (fun m => m.type = .message && m.seq = 2 &&
        m.receiver = bytes "bob")) (by decide +kernel)
  obtain ⟨first, second⟩ := Bool.and_eq_true_iff.mp checked
  obtain ⟨m, there, same⟩ := List.any_eq_true.mp first
  obtain ⟨m', there', same'⟩ := List.any_eq_true.mp second
  simp only [Bool.and_eq_true, decide_eq_true_eq] at same same'
  obtain ⟨type, seq⟩ := same
  obtain ⟨⟨type', seq'⟩, receiver⟩ := same'
  have positive : noItems.Positive := ⟨by decide, List.forall_mem_nil _⟩
  obtain ⟨-, -, others⟩ := resent_of_run positive run 1 m (mem_sentOn.mp there) type
  obtain ⟨-, content, -⟩ := others 2 m' (mem_sentOn.mp there') type' (seq'.trans seq.symm)
  exact ⟨c, run, m, m', mem_sentOn.mp there, mem_sentOn.mp there', receiver, content⟩

end Demo

end OnlineChat.Client
