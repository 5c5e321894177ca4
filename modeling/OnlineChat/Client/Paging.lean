import OnlineChat.Client.Login
import OnlineChat.Library.Recording

/-!
# The next page

`fetch_history` and `fetch_inbox` do nothing while `_hist_busy` is set.  A page clears the
flag, and so does a request that could not be sent.  An ERR that answers the request leaves
it set, and so does the end of the connection: no page is asked for from then on.
-/

namespace OnlineChat.Client

open Library ChatSession

variable {refuses : ChatSession → Socket → Frame → Bool} {st : Settings} {e : Ext}
  {s : ChatSession} {t : Thread} {k n : Cmd} {rest new : List Cmd} {sock : Socket}
  {file : PendingFile} {tokens : TokenStore}

/-! ## The requests -/

inductive PageNote where
  /-- The thread has set the flag. -/
  | started (t : Thread)
  /-- HIST or INBOX has been sent. -/
  | asked (sock : Socket)
  /-- A page has come in, or an ERR that answers HIST or INBOX. -/
  | answered (sock : Socket)
  deriving DecidableEq

/-- A page answers the request. -/
def Kind.isPage : Kind → Bool
  | .history | .inbox => true
  | _ => false

/-- The command receives a page. -/
def Cmd.pages (e : Ext) : Cmd → Bool
  | .recvFrame _ =>
      match e.receives with
      | .frame f => f.kind.isPage
      | _ => false
  | _ => false

/-- The command receives an answer on that connection.  An ERR does not say what it answers:
`refuses` does, from what has been written and received before. -/
def Cmd.answers (refuses : ChatSession → Socket → Frame → Bool) (e : Ext) (s : ChatSession)
    (sock : Socket) : Cmd → Bool
  | .recvFrame there =>
      match e.receives with
      | .frame f => there = sock ∧ (f.kind.isPage ∨ (f.kind = .err ∧ refuses s sock f))
      | _ => false
  | _ => false

/-- What there is to note of a step. -/
def pageNotes (refuses : ChatSession → Socket → Frame → Bool) (t : Thread) (e : Ext) (k : Cmd)
    (s : ChatSession) : List PageNote :=
  match k with
  | .startFetch _ _ _ => [.started t]
  | .sendRequest (.page _ _) _ =>
      match s.sock, e.sends with
      | some sock, .done => [.asked sock]
      | _, _ => []
  | .recvFrame sock => if k.answers refuses e s sock then [.answered sock] else []
  | _ => []

/-- The client and its requests for pages. -/
abbrev Noted := Config Thread Cmd (ChatSession × List PageNote)

def PageNote.count (sock : Socket) (n : Nat) : PageNote → Nat
  | started _ => n
  | asked there => if there = sock then n + 1 else n
  | answered there => if there = sock then n - 1 else n

/-- The requests on a connection that have not been answered. -/
def unanswered (sock : Socket) (notes : List PageNote) : Nat :=
  notes.foldl (PageNote.count sock) 0

/-- A fetch that has set the flag and has not returned. -/
def Cmd.isFetching : Cmd → Bool
  | .request (.page _ _) | .sendRequest (.page _ _) _ | .endFetch => true
  | _ => false

def Apart (commands : List Cmd) : Prop := ∀ k ∈ commands, k.isFetching = false

/-- No thread is about to ask for a page, and no request is outstanding on the current
connection. -/
structure Unasked (c : Noted) : Prop where
  apart : ∀ t, Apart (c.stack t)
  answered : ∀ sock, c.shared.1.sock = some sock → unanswered sock c.shared.2 = 0

/-- The law of the flag: when no request is outstanding, the next fetch asks for its page. -/
def CanPage (c : Noted) : Prop :=
  Unasked c → c.shared.1.histBusy = false ∧
    ∀ page cursor position,
      c.shared.1.fetch page cursor position = (c.shared.1, [.startFetch page cursor position])

/-- A thread is about to ask for a page. -/
def fetching (c : Noted) : Bool :=
  c.shared.2.any fun note => match note with
    | .started t => (c.stack t).any Cmd.isFetching
    | _ => false

/-- The step ends the last request on the connection, by an ERR or with the connection, and
the flag is set. -/
def Forgets (refuses : ChatSession → Socket → Frame → Bool) (c : Noted) (t : Thread) (e : Ext) :
    Bool :=
  match c.shared.1.sock, c.stack t with
  | some sock, k :: _ =>
      c.shared.1.histBusy ∧ fetching c = false ∧ 0 < unanswered sock c.shared.2 ∧
        (k.drops ∨ (k.answers refuses e c.shared.1 sock ∧ ¬ k.pages e ∧
          unanswered sock c.shared.2 = 1))
  | _, _ => false

/-! ## What a command does to the flag -/

theorem unanswered_append (notes : List PageNote) (note : PageNote) :
    unanswered sock (notes ++ [note]) = note.count sock (unanswered sock notes) := by
  simp [unanswered]

/-- The commands that set the flag, and those that follow them. -/
def Cmd.fetches : Cmd → Bool
  | .startFetch _ _ _ => true
  | k => k.isFetching

theorem Apart.map {f : Int → Cmd} (apart : ∀ x, (f x).isFetching = false) (items : List Int) :
    Apart (items.map f) := by
  intro n there
  obtain ⟨x, -, rfl⟩ := List.mem_map.mp there
  exact apart x

theorem apart_next (raised : PyError) : Apart raised.next := by
  cases raised <;> simp [Apart, PyError.next, Cmd.isFetching]

theorem busy_handleErr (code : Int) :
    (s.handleErr st sock code).1.histBusy = s.histBusy ∧ Apart (s.handleErr st sock code).2 := by
  unfold handleErr
  split
  · exact ⟨rfl, by simp [Apart, Cmd.isFetching]⟩
  · split <;> exact ⟨rfl, by simp [Apart, Cmd.isFetching]⟩

theorem apart_answerChallenge (f : Frame) : Apart (answerChallenge st sock f) := by
  unfold answerChallenge
  split
  · simp [Apart, Cmd.isFetching]
  · dsimp only
    split
    · simp [Apart, Cmd.isFetching]
    · simp [Apart, Cmd.isFetching]
    next raised _ _ => exact apart_next raised

theorem apart_handleMessage (f : Frame) : Apart (handleMessage sock f) := by
  unfold handleMessage
  split
  · exact apart_next _
  · dsimp only
    split
    · exact apart_next _
    · simp [Apart, Cmd.isFetching]

/-- Only a page clears the flag, and no frame sets it. -/
theorem busy_dispatch (st : Settings) (s : ChatSession) (sock : Socket) (f : Frame) :
    (s.dispatch st sock f).1.histBusy = (s.histBusy && !f.kind.isPage) ∧
      Apart (s.dispatch st sock f).2 := by
  have same : s.histBusy = (s.histBusy && !false) := (Bool.and_true _).symm
  have again : Apart [.recvLoop sock] := by simp [Apart, Cmd.isFetching]
  unfold dispatch
  cases f.kind with
  | ack | nack =>
      dsimp only
      split
      · split
        · exact ⟨same, by simp [Apart, Cmd.isFetching]⟩
        · exact ⟨same, again⟩
      · exact ⟨same, again⟩
      next raised _ _ => exact ⟨same, apart_next raised⟩
  | err =>
      dsimp only
      split
      next code _ =>
        obtain ⟨busy, apart⟩ := @busy_handleErr st s sock code
        exact ⟨busy.trans same, apart⟩
      next raised _ => exact ⟨same, apart_next raised⟩
  | challenge => exact ⟨same, apart_answerChallenge f⟩
  | authOk =>
      dsimp only
      split
      · exact ⟨same, by simp [Apart, Cmd.isFetching]⟩
      next raised _ => exact ⟨same, apart_next raised⟩
  | joinOk => exact ⟨same, by simp [Apart, Cmd.isFetching]⟩
  | history | inbox => exact ⟨(Bool.and_false _).symm, again⟩
  | message => exact ⟨same, apart_handleMessage f⟩
  | system =>
      dsimp only
      split
      · exact ⟨same, again⟩
      · exact ⟨same, apart_next .typeError⟩
  | _ => exact ⟨same, again⟩

/-- A command outside of a fetch changes the flag only when it receives a page. -/
theorem busy_run (apart : k.fetches = false) :
    (run st e s k).1.histBusy = (s.histBusy && !k.pages e) ∧ Apart (run st e s k).2 := by
  have same : s.histBusy = (s.histBusy && !false) := (Bool.and_true _).symm
  cases k with
  | startFetch _ _ _ | endFetch => cases apart
  | recvFrame sock =>
      simp only [run, ChatSession.recvFrame, Cmd.pages]
      split
      next raised failed =>
        rw [failed]
        exact ⟨same, apart_next raised⟩
      next value other =>
        rw [other]
        exact ⟨same, apart_next .attributeError⟩
      next f received =>
        rw [received]
        exact busy_dispatch st ({ s with lastRx := e.clock 0 }.log [.received sock f]) sock f
  | request r =>
      refine ⟨same, List.forall_mem_singleton.mpr ?_⟩
      cases r with
      | page _ _ => cases apart
      | _ => rfl
  | sendRequest r seq =>
      simp only [run, sendRequest]
      rw [sendFrame_eq]
      refine ⟨same, ?_⟩
      split
      · cases r <;> simp [Request.sent, Apart, Cmd.isFetching]
      · cases r with
        | page _ _ => cases apart
        | _ => simp [Request.failed, Apart, Cmd.isFetching]
  | trySendItem seq =>
      simp only [run, trySendItem]
      rw [sendFrame_eq]
      split
      · exact ⟨same, by simp [Apart, Cmd.isFetching]⟩
      · split <;> exact ⟨same, by simp [Apart, Cmd.isFetching]⟩
  | idle =>
      simp only [run, idle, fetchOlder]
      cases e.call with
      | fetchOlder =>
          dsimp only
          split <;> exact ⟨same, by simp [Apart, Cmd.isFetching]⟩
      | _ => exact ⟨same, by simp [Apart, Cmd.isFetching]⟩
  | retryItem _ _ | fetch _ _ _ | heartbeatLoop | checkDead _ | resend _ _ | connLoop
  | authenticate _ | recvLoop _ | connLost | flushItem _ | failItem _ | restoreRoom _ =>
      simp only [run, retryItem, fetch, heartbeatLoop, checkDead, resend, connLoop, authenticate,
        recvLoop, connLost, flushItem, failItem, restoreRoom]
      split_ifs <;> exact ⟨same, by simp [Apart, Cmd.isFetching]⟩
  | retransmit now =>
      refine ⟨same, ?_⟩
      intro n there
      rcases List.mem_append.mp there with resent | last
      · exact Apart.map (fun _ => rfl) _ n resent
      · rw [List.mem_singleton.mp last]
        rfl
  | retryFailed _ | flushPending | failSending => exact ⟨same, .map (fun _ => rfl) _⟩
  | _ => exact ⟨same, by simp [run, send, add, update, install, Apart, Cmd.isFetching]⟩

theorem drops_of_pages (pages : k.pages e = true) : k.drops = false := by
  cases k with
  | recvFrame _ => rfl
  | _ => cases pages

/-- Outside of a fetch, what is noted are the answers. -/
theorem unanswered_run (apart : k.fetches = false) (notes : List PageNote) :
    unanswered sock (notes ++ pageNotes refuses t e k s) =
      if k.answers refuses e s sock then unanswered sock notes - 1 else unanswered sock notes := by
  cases k with
  | startFetch _ _ _ => cases apart
  | sendRequest r _ =>
      cases r with
      | page _ _ => cases apart
      | _ => simp [pageNotes, Cmd.answers]
  | recvFrame there =>
      by_cases same : there = sock
      · subst same
        simp only [pageNotes]
        split
        · simp [unanswered_append, PageNote.count]
        · rw [List.append_nil]
      · have foreign : (Cmd.recvFrame there).answers refuses e s sock = false := by
          simp only [Cmd.answers, same, false_and, decide_false]
          split <;> rfl
        rw [foreign]
        simp only [pageNotes]
        split
        · rw [unanswered_append]
          simp [PageNote.count, same]
        · simp
  | _ => simp [pageNotes, Cmd.answers]

/-! ## A step -/

variable {c : Noted}

theorem canPage_iff : CanPage c ↔ (Unasked c → c.shared.1.histBusy = false) := by
  refine forall_congr' fun _ => ⟨And.left, ?_⟩
  intro free
  exact ⟨free, fun _ _ _ => by simp [fetch, free]⟩

/-- A fetch that has set the flag has been noted. -/
def Started (c : Noted) : Prop :=
  ∀ t, ∀ k ∈ c.stack t, k.isFetching = true → .started t ∈ c.shared.2

theorem fetching_eq_false_iff (started : Started c) :
    fetching c = false ↔ ∀ t, Apart (c.stack t) := by
  unfold fetching
  rw [List.any_eq_false]
  constructor
  · intro none t k there
    by_contra asks
    have asks := Bool.eq_true_of_not_eq_false asks
    exact none _ (started t k there asks) (List.any_eq_true.mpr ⟨k, there, asks⟩)
  · intro apart note _
    cases note with
    | started t =>
        rw [Bool.not_eq_true, List.any_eq_false]
        intro k there
        simp [apart t k there]
    | _ => simp

/-- The configuration after a step. -/
def after (refuses : ChatSession → Socket → Frame → Bool) (st : Settings) (t : Thread) (e : Ext)
    (k : Cmd) (rest : List Cmd) (c : Noted) : Noted :=
  ⟨((run st e c.shared.1 k).1, c.shared.2 ++ pageNotes refuses t e k c.shared.1),
    Function.update c.stack t ((run st e c.shared.1 k).2 ++ rest)⟩

theorem mem_stack_after {t' : Thread} :
    n ∈ (after refuses st t e k rest c).stack t' ↔
      if t' = t then n ∈ (run st e c.shared.1 k).2 ∨ n ∈ rest else n ∈ c.stack t' := by
  unfold after
  by_cases same : t' = t
  · subst same
    simp
  · simp [same]

/-- The commands of a fetch follow each other. -/
theorem fetches_of_mem_run (there : n ∈ (run st e s k).2) (asks : n.isFetching = true) :
    k.isFetching = true ∨ ∃ page cursor position, k = .startFetch page cursor position := by
  cases apart : k.fetches with
  | false =>
      have quiet := (busy_run apart).2 n there
      cases quiet.symm.trans asks
  | true =>
      cases k with
      | startFetch page cursor position => exact .inr ⟨page, cursor, position, rfl⟩
      | _ => exact .inl apart

theorem started_after (started : Started c) (stack : c.stack t = k :: rest) :
    Started (after refuses st t e k rest c) := by
  intro t' n there asks
  rw [mem_stack_after] at there
  split at there
  next same =>
    subst same
    rcases there with fresh | below
    · rcases fetches_of_mem_run fresh asks with own | ⟨page, cursor, position, rfl⟩
      · exact List.mem_append_left _ (started t' k (by simp [stack]) own)
      · exact List.mem_append_right _ (List.mem_singleton_self _)
    · exact List.mem_append_left _ (started t' n (by simp [stack, below]) asks)
  next => exact List.mem_append_left _ (started t' n there asks)

/-- A step outside of a fetch neither begins nor ends one. -/
theorem apart_after_iff (apart : k.fetches = false) (stack : c.stack t = k :: rest) :
    (∀ t', Apart ((after refuses st t e k rest c).stack t')) ↔ ∀ t', Apart (c.stack t') := by
  have self : k.isFetching = false := by
    cases k with
    | startFetch _ _ _ => rfl
    | _ => exact apart
  refine forall_congr' fun t' => ?_
  simp only [Apart, mem_stack_after]
  split
  next same =>
    subst same
    rw [stack, List.forall_mem_cons]
    constructor
    · intro quiet
      exact ⟨self, fun n below => quiet n (.inr below)⟩
    · rintro ⟨-, quiet⟩ n (fresh | below)
      · exact (busy_run apart).2 n fresh
      · exact quiet n below
  next => rfl

/-- `_send_frame` returns. -/
theorem sent_iff {m : Msg} :
    (s.sendFrame e m).1 = true ↔ ∃ sock, s.sock = some sock ∧ e.sends = .done := by
  unfold sendFrame
  cases s.sock with
  | none => simp
  | some sock => cases e.sends <;> simp

/-- A fetch goes on until its request is out or the flag is cleared. -/
theorem canPage_after_of_fetches (asks : k.fetches = true) :
    CanPage (after refuses st t e k rest c) := by
  rw [canPage_iff]
  rintro ⟨apart, answered⟩
  have own (n : Cmd) (there : n ∈ (run st e c.shared.1 k).2) : n.isFetching = false :=
    apart t n (mem_stack_after.mpr (by simp [there]))
  cases k with
  | startFetch page cursor position => cases own _ (List.mem_singleton_self _)
  | endFetch => rfl
  | request r =>
      cases r with
      | page page cursor => cases own _ (List.mem_singleton_self _)
      | _ => cases asks
  | sendRequest r seq =>
      cases r with
      | page page cursor =>
          by_cases sent : (c.shared.1.sendFrame e (requestMsg st e seq (.page page cursor))).1 = true
          · obtain ⟨sock, inUse, done⟩ := sent_iff.mp sent
            have count := answered sock (grown_sendRequest.sock.trans inUse)
            simp [after, pageNotes, inUse, done, unanswered_append, PageNote.count] at count
          · have left : (run st e c.shared.1 (.sendRequest (.page page cursor) seq)).2 =
                [.endFetch] := by
              simp [run, sendRequest, sent, Request.failed]
            rw [left] at own
            cases own _ (List.mem_singleton_self _)
      | _ => cases asks
  | _ => cases asks

theorem forgets_iff (stack : c.stack t = k :: rest) :
    Forgets refuses c t e = true ↔
      ∃ sock, c.shared.1.sock = some sock ∧ c.shared.1.histBusy = true ∧ fetching c = false ∧
        0 < unanswered sock c.shared.2 ∧
        (k.drops = true ∨ (k.answers refuses e c.shared.1 sock = true ∧ k.pages e = false ∧
          unanswered sock c.shared.2 = 1)) := by
  unfold Forgets
  rw [stack]
  cases c.shared.1.sock with
  | none => simp
  | some sock => simp

/-- A step outside of a fetch breaks the law when it ends the last request with the flag
set. -/
theorem not_canPage_after_iff (law : CanPage c) (started : Started c)
    (closed : k = .install → c.shared.1.sock = none) (apart : k.fetches = false)
    (stack : c.stack t = k :: rest) :
    ¬ CanPage (after refuses st t e k rest c) ↔ Forgets refuses c t e = true := by
  have busy : (after refuses st t e k rest c).shared.1.histBusy =
      (c.shared.1.histBusy && !k.pages e) := (busy_run apart).1
  have quiet : (∀ t', Apart ((after refuses st t e k rest c).stack t')) ↔ fetching c = false :=
    (apart_after_iff apart stack).trans (fetching_eq_false_iff started).symm
  have socket := socket_run st e c.shared.1 k
  rw [forgets_iff stack, canPage_iff, Classical.not_imp, Bool.not_eq_false, busy,
    Bool.and_eq_true, Bool.not_eq_true']
  constructor
  · rintro ⟨⟨others, answered⟩, set, shown⟩
    have none := quiet.mp others
    obtain ⟨sock, inUse, waiting⟩ :
        ∃ sock, c.shared.1.sock = some sock ∧ unanswered sock c.shared.2 ≠ 0 := by
      by_contra all
      push Not at all
      have cleared := canPage_iff.mp law ⟨(fetching_eq_false_iff started).mp none, all⟩
      cases cleared.symm.trans set
    refine ⟨sock, inUse, set, none, Nat.pos_of_ne_zero waiting, ?_⟩
    rcases socket with ⟨same, -⟩ | ⟨-, -, -, drops⟩ | ⟨installs, -⟩
    · have count := answered sock (same.trans inUse)
      change unanswered sock (c.shared.2 ++ pageNotes refuses t e k c.shared.1) = 0 at count
      rw [unanswered_run apart] at count
      split at count
      next answers => exact .inr ⟨answers, shown, by omega⟩
      next => exact absurd count waiting
    · exact .inl drops
    · cases (closed installs).symm.trans inUse
  · rintro ⟨sock, inUse, set, none, -, last⟩
    refine ⟨⟨quiet.mpr none, ?_⟩, set, ?_⟩
    · intro sock' inUse'
      rcases socket with ⟨same, -, -, stays, -⟩ | ⟨dropped, -⟩ | ⟨installs, -⟩
      · obtain rfl := Option.some.inj (inUse.symm.trans (same.symm.trans inUse'))
        obtain ⟨answers, -, one⟩ := last.resolve_left (by simp [stays])
        change unanswered sock (c.shared.2 ++ pageNotes refuses t e k c.shared.1) = 0
        rw [unanswered_run apart, if_pos answers, one]
      · cases dropped.symm.trans inUse'
      · cases (closed installs).symm.trans inUse
    · rcases last with drops | ⟨-, shown, -⟩
      · by_contra pages
        have pages := Bool.eq_true_of_not_eq_false pages
        cases (drops_of_pages pages).symm.trans drops
      · exact shown

/-- A fetch ends no request. -/
theorem not_forgets_of_fetches (started : Started c) (asks : k.fetches = true)
    (stack : c.stack t = k :: rest) : Forgets refuses c t e = false := by
  rw [← Bool.not_eq_true, forgets_iff stack]
  rintro ⟨sock, -, -, none, -, last⟩
  cases k with
  | startFetch _ _ _ => simp [Cmd.drops, Cmd.answers] at last
  | _ =>
      have own := (fetching_eq_false_iff started).mp none t _ (stack ▸ List.mem_cons_self ..)
      cases own.symm.trans asks

theorem canPage_after_iff (law : CanPage c) (started : Started c)
    (closed : k = .install → c.shared.1.sock = none) (stack : c.stack t = k :: rest) :
    CanPage (after refuses st t e k rest c) ↔ Forgets refuses c t e = false := by
  cases asks : k.fetches with
  | true =>
      exact iff_of_true (canPage_after_of_fetches asks) (not_forgets_of_fetches started asks stack)
  | false =>
      rw [← not_iff_not, Bool.not_eq_false]
      exact not_canPage_after_iff law started closed asks stack

/-! ## Runs -/

/-- The client with its notes. -/
abbrev noting (refuses : ChatSession → Socket → Frame → Bool) (st : Settings) :
    Program Thread Ext Cmd (ChatSession × List PageNote) :=
  (client st).recording (pageNotes refuses)

variable {When : Noted → Thread → Ext → Bool}

theorem after_of_exec {s : ChatSession × List PageNote}
    (ran : (noting refuses st).exec t e k c.shared = some (s, new)) :
    (⟨s, Function.update c.stack t (new ++ rest)⟩ : Noted) = after refuses st t e k rest c := by
  obtain ⟨ran, noted⟩ := Program.exec_recording.mp ran
  obtain ⟨state, rfl⟩ := run_of_exec ran
  obtain ⟨s, notes⟩ := s
  cases state
  cases noted
  rfl

theorem started_of_reaches
    (run : (noting refuses st).Reaches When ((start file tokens).noted []) c) : Started c := by
  refine run.invariant ?_ ?_
  · intro t k there asks
    cases t <;> cases List.mem_singleton.mp there <;> cases asks
  · intro c t e k rest s new _ started _ stack ran
    rw [after_of_exec ran]
    exact started_after started stack

/-- A socket is installed where there is none. -/
theorem closed_of_reaches
    (run : (noting refuses st).Reaches When ((start file tokens).noted []) c)
    (stack : c.stack t = .install :: rest) : c.shared.1.sock = none := by
  have free : (noting refuses st).Reaches (fun c t e => Program.always c.plain t e)
      ((start file tokens).noted []) c := run.mono fun _ _ _ _ => rfl
  have plain : (client st).Reaches Program.always (start file tokens) c.plain := free.plain
  have there : Cmd.install ∈ c.plain.stack t := stack ▸ List.mem_cons_self ..
  exact ((outlined_of_reaches plain).pending t _ there).2.1

theorem canPage_start (file : PendingFile) (tokens : TokenStore) :
    CanPage ((start file tokens).noted []) :=
  canPage_iff.mpr fun _ => rfl

/-- In every run in which the last request on a connection is not ended by an ERR, or with
the connection, while the flag is set, the next page can be asked for whenever none is
outstanding.  The first step that ends it so breaks this. -/
theorem canPage_iff_not_forgets (refuses : ChatSession → Socket → Frame → Bool)
    (file : PendingFile) (tokens : TokenStore)
    (run : (noting refuses st).Reaches (fun c t e => !Forgets refuses c t e)
      ((start file tokens).noted []) c) :
    CanPage c ∧ ∀ t e c', (noting refuses st).fire t e c = some c' →
      (CanPage c' ↔ Forgets refuses c t e = false) := by
  have law : CanPage c := by
    refine run.invariant (canPage_start file tokens) ?_
    intro c t e k rest s new reached law allowed stack ran
    rw [after_of_exec ran]
    apply (canPage_after_iff law (started_of_reaches reached) _ stack).mpr
    · simpa using allowed
    · rintro rfl
      exact closed_of_reaches reached stack
  refine ⟨law, ?_⟩
  intro t e c' fired
  obtain ⟨k, rest, s, new, stack, ran, rfl⟩ := (noting refuses st).fire_eq_some_iff.mp fired
  rw [after_of_exec ran]
  apply canPage_after_iff law (started_of_reaches run) _ stack
  rintro rfl
  exact closed_of_reaches run stack

/-! ## A page that is refused -/

namespace Demo

/-- HIST outside of a room is refused with this code. -/
def notInRoom (_ : ChatSession) (_ : Socket) (f : Frame) : Bool :=
  match f.get "code" .none with
  | .int 2003 => true
  | _ => false

/-- A caller asks for the newest page. -/
def asks (call : Call) : List (Thread × Ext) :=
  (.caller 0, { call }) :: List.replicate 4 (.caller 0, {})

/-- One request has been sent on the first connection, and it has been answered. -/
def asked : List PageNote := [.started (.caller 0), .asked 1, .answered 1]

/-- A page of the inbox is asked for and comes in. -/
theorem canPage_iff_not_forgets_inbox :
    ∃ c, (noting notInRoom alice).Reaches (fun c t e => !Forgets notInRoom c t e)
      ((start noItems token).noted []) c ∧ c.shared.2 = asked ∧ CanPage c := by
  obtain ⟨c, run, checked⟩ := Program.exists_reaches_of_play (noting notInRoom alice)
    (fun c t e => !Forgets notInRoom c t e)
    (connects ++ accepts ++ asks (.fetchInbox (.str []) []) ++ [receives "INBOX" (.list []) []])
    ((start noItems token).noted []) (fun c => c.shared.2 = asked) (by decide +kernel)
  exact ⟨c, run, of_decide_eq_true checked, (canPage_iff_not_forgets _ noItems token run).1⟩

/-- An ERR leaves the flag set: nothing is outstanding, and no page is asked for. -/
theorem busy_for_good :
    ¬ ∀ c, (noting notInRoom alice).Reaches Program.always ((start noItems token).noted []) c →
      CanPage c := by
  intro law
  obtain ⟨c, run, checked⟩ := Program.exists_reaches_of_play (noting notInRoom alice)
    Program.always
    (connects ++ accepts ++ asks (.fetchHistory (.str []) []) ++
      [receives "ERR" (.str []) [(bytes "code", .int 2003)]])
    ((start noItems token).noted [])
    (fun c => c.shared.1.histBusy ∧ c.shared.1.sock = some 1 ∧ c.shared.2 = asked ∧
      fetching c = false) (by decide +kernel)
  obtain ⟨busy, inUse, noted, none⟩ := of_decide_eq_true checked
  have unasked : Unasked c := by
    refine ⟨(fetching_eq_false_iff (started_of_reaches run)).mp none, ?_⟩
    intro sock same
    obtain rfl := Option.some.inj (inUse.symm.trans same)
    rw [noted]
    rfl
  cases (law c run unasked).1.symm.trans busy

end Demo

end OnlineChat.Client
