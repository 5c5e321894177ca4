import OnlineChat.Client.Pending

/-!
# Messages before AUTH_OK

The socket can be used by all threads from the moment at which it is connected, and
`_try_send_item` does not look at `_authed`.  A message goes out before AUTH_OK exactly
when that is not set.
-/

namespace OnlineChat.Client

open Library ChatSession

variable {st : Settings} {e : Ext} {s : ChatSession} {t t' : Thread} {k k' n : Cmd}
  {rest new : List Cmd} {seq : Int} {sock : Socket} {file : PendingFile} {tokens : TokenStore}
  {c : Config Thread Cmd ChatSession}

/-! ## The law -/

/-- AUTH_OK has been received on that connection. -/
def Welcome (past : List Event) (sock : Socket) : Prop :=
  ∃ f, .received sock f ∈ past ∧ f.kind = .authOk

/-- A message goes out where AUTH_OK has come in before. -/
def AfterWelcome (past : List Event) (x : Event) : Prop :=
  ∀ sock m, x = .wrote sock m → m.type = .message → Welcome past sock

/-- A message goes out when `_authed` is set. -/
def Authed (c : Config Thread Cmd ChatSession) (t : Thread) (e : Ext) : Bool :=
  match c.stack t with
  | .trySendItem seq :: _ => c.shared.Sends seq e → c.shared.authed
  | _ => true

/-! ## The connection and its flag -/

theorem accepts_iff :
    k.accepts e = true ↔
      ∃ sock f, k = .recvFrame sock ∧ e.receives = .frame f ∧ f.kind = .authOk := by
  cases k with
  | recvFrame sock =>
      simp only [Cmd.accepts]
      cases e.receives <;> simp
  | _ => simp [Cmd.accepts]

theorem welcome_run :
    Welcome (run st e s k).1.trace sock ↔
      Welcome s.trace sock ∨ (k = .recvFrame sock ∧ k.accepts e = true) := by
  unfold Welcome
  simp only [mem_trace_run, received_mem_events, accepts_iff]
  constructor
  · rintro ⟨f, old | ⟨rfl, received⟩, kind⟩
    · exact .inl ⟨f, old, kind⟩
    · exact .inr ⟨rfl, sock, f, rfl, received, kind⟩
  · rintro (⟨f, old, kind⟩ | ⟨rfl, -, f, -, received, kind⟩)
    · exact ⟨f, .inl old, kind⟩
    · exact ⟨f, .inr ⟨rfl, received⟩, kind⟩

/-- On the connection in use, the flag says whether AUTH_OK has come. -/
structure Tracked (s : ChatSession) : Prop where
  known : ∀ sock, Welcome s.trace sock → sock ≤ s.conns
  authed_iff : ∀ sock, s.sock = some sock → (s.authed = true ↔ Welcome s.trace sock)

/-- What holds while the thread of the connection waits. -/
def Bound (t : Thread) (k : Cmd) (s : ChatSession) : Prop :=
  match k.phase with
  | .off => True
  | .closed => t = .conn ∧ s.sock = none ∧ s.authed = false
  | .on sock => t = .conn ∧ sock ≤ s.conns ∧ ∀ used, s.sock = some used → used = sock
  | .closing => t = .conn

theorem conn_of_bound (bound : Bound t k s) (main : k.phase ≠ .off) : t = .conn := by
  unfold Bound at bound
  cases phase : k.phase with
  | off => exact absurd phase main
  | closed | on sock => rw [phase] at bound; exact bound.1
  | closing => rw [phase] at bound; exact bound

/-- AUTH_OK is received on a connection. -/
theorem not_accepts (apart : ∀ sock, k.phase ≠ .on sock) : k.accepts e = false := by
  cases k with
  | recvFrame sock => exact absurd rfl (apart sock)
  | _ => rfl

theorem drops_of_closing (closing : k.phase = .closing) : k.drops = true := by
  cases k with
  | request r | sendRequest r _ => cases r <;> cases closing
  | authFailed | connLost => rfl
  | _ => cases closing

theorem tracked_run (tracked : Tracked s) (bound : Bound t k s) : Tracked (run st e s k).1 := by
  obtain ⟨known, authed_iff⟩ := tracked
  rcases socket_run st e s k with
    ⟨same, conns, authed, -, -⟩ | ⟨dropped, conns, -, drops⟩ | ⟨rfl, used, conns, authed⟩
  · refine ⟨?_, ?_⟩
    · intro sock welcome
      rw [conns]
      rcases welcome_run.mp welcome with old | ⟨rfl, -⟩
      · exact known sock old
      · exact bound.2.1
    · intro sock inUse
      rw [authed, Bool.or_eq_true, welcome_run, authed_iff sock (same ▸ inUse)]
      refine or_congr_right ⟨?_, And.right⟩
      intro accepts
      refine ⟨?_, accepts⟩
      obtain ⟨sock', f, rfl, -, -⟩ := accepts_iff.mp accepts
      rw [bound.2.2 sock (same ▸ inUse)]
  · refine ⟨?_, ?_⟩
    · intro sock welcome
      rw [conns]
      rcases welcome_run.mp welcome with old | ⟨rfl, -⟩
      · exact known sock old
      · cases drops
    · intro sock inUse
      cases dropped.symm.trans inUse
  · have quiet (sock : Socket) : Welcome (run st e s .install).1.trace sock ↔
        Welcome s.trace sock := by
      simp [welcome_run]
    refine ⟨?_, ?_⟩
    · intro sock welcome
      rw [conns]
      exact Nat.le_succ_of_le (known sock ((quiet sock).mp welcome))
    · intro sock inUse
      obtain rfl : s.conns + 1 = sock := Option.some.inj (used.symm.trans inUse)
      rw [authed, bound.2.2, quiet]
      constructor
      · nofun
      · intro welcome
        exact absurd (known _ welcome) (Nat.not_succ_le_self _)

/-- A command beside the thread of the connection may drop the socket, no more. -/
theorem socket_run_of_off (st : Settings) (e : Ext) (s : ChatSession) (off : k.phase = .off) :
    (run st e s k).1.conns = s.conns ∧
      (((run st e s k).1.sock = s.sock ∧ (run st e s k).1.authed = s.authed) ∨
        ((run st e s k).1.sock = none ∧ (run st e s k).1.authed = false)) := by
  rcases socket_run st e s k with
    ⟨same, conns, authed, -, -⟩ | ⟨dropped, conns, authed, -⟩ | ⟨rfl, -⟩
  · rw [not_accepts (by simp [off]), Bool.or_false] at authed
    exact ⟨conns, .inl ⟨same, authed⟩⟩
  · exact ⟨conns, .inr ⟨dropped, authed⟩⟩
  · cases off

/-- The commands that are left may wait. -/
theorem bound_run (bound : Bound t k s) :
    ∀ n ∈ (run st e s k).2, Bound t n (run st e s k).1 := by
  intro n there
  have socket := socket_run st e s k
  have enters := enters_run k n there
  have main := conn_of_bound bound
  unfold Bound at bound ⊢
  generalize phase : n.phase = p at enters
  cases enters with
  | off => trivial
  | close on => exact main (by simp [on])
  | closed closing =>
      rcases socket with ⟨-, -, -, stays, -⟩ | ⟨dropped, -, authed, -⟩ | ⟨rfl, -⟩
      · cases (drops_of_closing closing).symm.trans stays
      · exact ⟨main (by simp [closing]), dropped, authed⟩
      · cases closing
  | install same =>
      subst same
      obtain rfl := List.mem_singleton.mp there
      cases phase
      refine ⟨bound.1, le_refl _, ?_⟩
      intro used inUse
      exact (Option.some.inj inUse).symm
  | stay =>
      cases same : k.phase with
      | off => trivial
      | closing => exact main (by simp [same])
      | closed =>
          rw [same] at bound
          obtain ⟨conn, none, refused⟩ := bound
          rcases socket with ⟨kept, -, authed, -, -⟩ | ⟨dropped, -, authed, -⟩ | ⟨rfl, -⟩
          · rw [not_accepts (by simp [same]), Bool.or_false] at authed
            exact ⟨conn, kept.trans none, authed.trans refused⟩
          · exact ⟨conn, dropped, authed⟩
          · obtain rfl := List.mem_singleton.mp there
            cases phase
      | on sock =>
          rw [same] at bound
          obtain ⟨conn, known, unique⟩ := bound
          rcases socket with ⟨kept, conns, -⟩ | ⟨dropped, conns, -⟩ | ⟨rfl, -⟩
          · exact ⟨conn, conns ▸ known, kept ▸ unique⟩
          · refine ⟨conn, conns ▸ known, ?_⟩
            intro used inUse
            cases dropped.symm.trans inUse
          · cases same

/-- What waits is not disturbed. -/
theorem bound_of_waits (bound : Bound t k s) (waits : Waits Above t k rest t' k')
    (pending : Bound t' k' s) : Bound t' k' (run st e s k).1 := by
  have outside (main : k'.phase ≠ .off) : k.phase = .off := by
    by_contra busy
    rcases waits with other | ⟨-, above⟩
    · exact other ((conn_of_bound pending main).trans (conn_of_bound bound busy).symm)
    · exact busy above.1
  unfold Bound at pending ⊢
  cases phase : k'.phase with
  | off => trivial
  | closing =>
      rw [phase] at pending
      exact pending
  | closed =>
      rw [phase] at pending
      obtain ⟨conn, none, refused⟩ := pending
      obtain ⟨-, ⟨same, authed⟩ | ⟨dropped, authed⟩⟩ :=
        socket_run_of_off st e s (outside (by simp [phase]))
      · exact ⟨conn, same.trans none, authed.trans refused⟩
      · exact ⟨conn, dropped, authed⟩
  | on sock =>
      rw [phase] at pending
      obtain ⟨conn, known, unique⟩ := pending
      obtain ⟨conns, ⟨same, -⟩ | ⟨dropped, -⟩⟩ :=
        socket_run_of_off st e s (outside (by simp [phase]))
      · exact ⟨conn, conns ▸ known, same ▸ unique⟩
      · refine ⟨conn, conns ▸ known, ?_⟩
        intro used inUse
        cases dropped.symm.trans inUse

/-! ## Runs -/

theorem outlined_start (file : PendingFile) (tokens : TokenStore) :
    Outlined Above Tracked Bound (start file tokens) := by
  refine ⟨⟨?_, ?_⟩, ?_, ?_⟩
  · rintro sock ⟨f, there, -⟩
    simp [start, load] at there
  · intro sock inUse
    cases inUse
  · intro t
    cases t <;> exact List.pairwise_singleton _ _
  · intro t k there
    cases t with
    | conn =>
        rw [List.mem_singleton.mp there]
        exact ⟨rfl, rfl, rfl⟩
    | heartbeat | caller _ =>
        rw [List.mem_singleton.mp there]
        trivial

variable {When : Config Thread Cmd ChatSession → Thread → Ext → Bool}

theorem outlined_of_reaches (run : (client st).Reaches When (start file tokens) c) :
    Outlined Above Tracked Bound c := by
  apply run.outlined respects (outlined_start file tokens)
  · intro c t e k rest s new _ outlined _ stack ran
    obtain ⟨rfl, rfl⟩ := run_of_exec ran
    have bound := outlined.pending t k (by simp [stack])
    exact ⟨tracked_run outlined.inv bound, bound_run bound⟩
  · intro c t e k rest s new _ outlined _ stack ran t' k' _ waits pending
    obtain ⟨rfl, -⟩ := run_of_exec ran
    exact bound_of_waits (outlined.pending t k (by simp [stack])) waits pending

theorem authed_iff_of_stack (stack : c.stack t = k :: rest) :
    Authed c t e = true ↔
      ∀ seq, k = .trySendItem seq → c.shared.Sends seq e = true → c.shared.authed = true := by
  unfold Authed
  rw [stack]
  cases k with
  | trySendItem seq => simp only [decide_eq_true_eq, Cmd.trySendItem.injEq, forall_eq']
  | _ => simp

/-- A command keeps the law when `_authed` is set before a message. -/
theorem lawful_run (tracked : Tracked s) (lawful : Lawful AfterWelcome s.trace) :
    Lawful AfterWelcome (run st e s k).1.trace ↔
      ∀ seq, k = .trySendItem seq → s.Sends seq e = true → s.authed = true := by
  rw [trace_run]
  constructor
  · rintro after seq rfl sends
    obtain ⟨-, connected, -⟩ := of_decide_eq_true sends
    obtain ⟨sock, connected⟩ := Option.isSome_iff_exists.mp connected
    have there := message_of_sends st sends connected
    obtain ⟨past, later, split⟩ := List.append_of_mem there
    obtain ⟨f, received, kind⟩ :=
      after (s.trace ++ past) _ later (by rw [split, List.append_assoc]) sock _ rfl rfl
    apply (tracked.authed_iff sock connected).mpr
    rcases List.mem_append.mp received with old | fresh
    · exact ⟨f, old, kind⟩
    · cases (received_mem_events.mp (split ▸ List.mem_append_left _ fresh)).1
  · intro authed
    apply lawful.append
    rintro past _ later split sock m rfl type
    obtain ⟨seq, rfl, sends, connected, -⟩ :=
      message_mem_events.mp ⟨split ▸ List.mem_append_right _ (List.mem_cons_self ..), type⟩
    obtain ⟨f, there, kind⟩ := (tracked.authed_iff sock connected).mp (authed seq rfl sends)
    exact ⟨f, List.mem_append_left _ there, kind⟩

theorem lawful_fire {c' : Config Thread Cmd ChatSession}
    (run : (client st).Reaches When (start file tokens) c)
    (lawful : Lawful AfterWelcome c.shared.trace) (fired : (client st).fire t e c = some c') :
    Lawful AfterWelcome c'.shared.trace ↔ Authed c t e = true := by
  obtain ⟨k, rest, s, new, stack, ran, rfl⟩ := (client st).fire_eq_some_iff.mp fired
  obtain ⟨rfl, -⟩ := run_of_exec ran
  rw [authed_iff_of_stack stack]
  exact lawful_run (outlined_of_reaches run).inv lawful

/-- In every run in which messages are sent while `_authed` is set, each goes out on a
connection on which AUTH_OK has come in.  The first one that is not sent so breaks this. -/
theorem afterWelcome_iff_authed (file : PendingFile) (tokens : TokenStore)
    (run : (client st).Reaches Authed (start file tokens) c) :
    Lawful AfterWelcome c.shared.trace ∧ ∀ t e c', (client st).fire t e c = some c' →
      (Lawful AfterWelcome c'.shared.trace ↔ Authed c t e = true) := by
  have lawful : Lawful AfterWelcome c.shared.trace := by
    refine run.invariant (motive := fun c => Lawful AfterWelcome c.shared.trace) ?_ ?_
    · rintro past _ later split sock m rfl -
      have there : .wrote sock m ∈ (start file tokens).shared.trace := by simp [split]
      simp [start, load] at there
    · intro c t e k rest s new reached lawful authed stack ran
      have fired := (client st).fire_eq_some_iff.mpr ⟨k, rest, s, new, stack, ran, rfl⟩
      exact (lawful_fire reached lawful fired).mpr authed
  exact ⟨lawful, fun t e c' fired => lawful_fire run lawful fired⟩

/-! ## A message in the handshake -/

namespace Demo

/-- A message has gone out. -/
def spoken (c : Config Thread Cmd ChatSession) : Bool :=
  c.shared.trace.any fun x => match x with
    | .wrote _ m => m.type = .message
    | _ => false

/-- Nothing has come in. -/
def deaf (c : Config Thread Cmd ChatSession) : Bool :=
  c.shared.trace.all fun x => match x with
    | .received _ _ => false
    | _ => true

theorem message_of_spoken (sent : spoken c = true) :
    ∃ sock m, .wrote sock m ∈ c.shared.trace ∧ m.type = .message := by
  obtain ⟨x, there, message⟩ := List.any_eq_true.mp sent
  cases x with
  | wrote sock m => exact ⟨sock, m, there, of_decide_eq_true message⟩
  | _ => cases message

theorem afterWelcome_iff_authed_alice :
    ∃ c, (client alice).Reaches Authed (start noItems token) c ∧
      (∃ sock m, .wrote sock m ∈ c.shared.trace ∧ m.type = .message) ∧
      Lawful AfterWelcome c.shared.trace := by
  obtain ⟨c, run, sent⟩ := Program.exists_reaches_of_play (client alice) Authed
    (connects ++ accepts ++ sends) (start noItems token) spoken (by decide +kernel)
  exact ⟨c, run, message_of_spoken sent, (afterWelcome_iff_authed noItems token run).1⟩

/-- A message that is sent when the socket is there goes out before anything has come in. -/
theorem unwelcome :
    ¬ ∀ c, (client alice).Reaches Program.always (start noItems token) c →
      Lawful AfterWelcome c.shared.trace := by
  intro lawful
  obtain ⟨c, run, checked⟩ := Program.exists_reaches_of_play (client alice) Program.always
    (connects.take 2 ++ sends) (start noItems token) (fun c => spoken c && deaf c)
    (by decide +kernel)
  obtain ⟨sent, silent⟩ := Bool.and_eq_true_iff.mp checked
  obtain ⟨sock, m, there, type⟩ := message_of_spoken sent
  obtain ⟨past, later, split⟩ := List.append_of_mem there
  obtain ⟨f, received, -⟩ := lawful c run past _ later split sock m rfl type
  cases List.all_eq_true.mp silent (.received sock f) (split ▸ List.mem_append_left _ received)

end Demo

end OnlineChat.Client
