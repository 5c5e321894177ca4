import OnlineChat.Server.Sessions

/-!
# Logins

Sessions belong to connections that are still registered, as long as no session is
installed on a connection that was dropped meanwhile.  A login by password finds
nobody else under its name, as long as the logins under one name do not overlap.
-/

namespace OnlineChat

open Library ChatServer

variable {st : Startup} {c : ConnId} {e : Ext} {w w' : World} {t t' : Thread} {k k' : Cmd}
  {rest new : List Cmd} {File : Type} {file : Database File} {b : BootExt}
  {cfg : Config Thread Cmd World}

/-! ## No ghost sessions -/

/-- No session is installed on a connection that has been dropped. -/
def installsRegistered (cfg : Config Thread Cmd World) (t : Thread) (_ : Ext) : Bool :=
  match cfg.stack t with
  | .sess (.installLogin _ _ _) :: _ | .sess (.installAuth _) :: _ =>
      t.conn ∈ cfg.shared.server.sess.conns
  | _ => true

/-- Who is online has a registered connection that is authenticated under his name, and
nobody is online through a connection that was dropped. -/
structure NoGhostSessions (w : World) : Prop where
  registered : ∀ name c, w.server.sess.online name = some c →
    c ∈ w.server.sess.conns ∧ w.server.sess.authed c = true ∧ w.server.sess.username c = name
  released : ∀ c, .sess (.dropped c) ∈ w.trace → ∀ name, w.server.sess.online name ≠ some c

/-- The registered connections: who is online has one, and a dropped one never comes back. -/
structure Registry (w : World) : Prop where
  online : ∀ name c, w.server.sess.online name = some c → c ∈ w.server.sess.conns
  accepted : ∀ c ∈ w.server.sess.conns, c ≤ w.server.sess.nextId
  dropped : ∀ c, .sess (.dropped c) ∈ w.trace →
    c ∉ w.server.sess.conns ∧ c ≤ w.server.sess.nextId

/-- Other events and tables do not matter. -/
theorem Registry.congr (registry : Registry w) (sess : w'.server.sess = w.server.sess)
    {events : List Event} (trace : w'.trace = w.trace ++ events)
    (none : ∀ c, .sess (.dropped c) ∉ events) : Registry w' := by
  refine ⟨?_, ?_, ?_⟩
  · rw [sess]
    exact registry.online
  · rw [sess]
    exact registry.accepted
  · intro c dropped
    rw [sess]
    rcases List.mem_append.mp (trace ▸ dropped) with old | new
    · exact registry.dropped c old
    · exact absurd new (none c)

theorem registry_run (sound : w.server.sess.Sound) (registry : Registry w)
    (installs : ∀ k', k = .sess k' → (Cmd.enters k = true) →
      (∀ name, k' ≠ .checkLogin name) → c ∈ w.server.sess.conns)
    (ran : w.run st c e k = some (w', new)) : Registry w' := by
  cases k with
  | sess k =>
      obtain ⟨rfl, -⟩ := Prod.mk.inj (Option.some.inj ran)
      have installed (name : Bytes) (event : SessEvent) (other : ∀ c, event ≠ .dropped c)
          (there : c ∈ w.server.sess.conns) :
          Registry ⟨{ w.server with sess := install w.server c name }, w.trace ++ [.sess event]⟩ := by
        refine ⟨?_, registry.accepted, ?_⟩
        · intro name' c' online
          by_cases same : name' = name
          · obtain rfl : c = c' := by simpa [install, same] using online
            exact there
          · exact registry.online name' c' (by simpa [install, same] using online)
        · intro c' dropped
          rcases List.mem_append.mp dropped with old | new
          · exact registry.dropped c' old
          · obtain rfl : SessEvent.dropped c' = event := by simpa using new
            exact absurd rfl (other c')
      rcases runSess_cases st w.server c e k with ⟨state, events⟩ |
        ⟨ip, port, arrival, rfl, state, events⟩ | ⟨name, token, exp, rfl, state, events⟩ |
        ⟨name, rfl, state, events⟩ | ⟨v, n, rfl, there, state, events⟩
      · refine registry.congr ?_ rfl ?_
        · simp only [state]
        · intro c' dropped
          obtain ⟨event, membership, same⟩ := List.mem_map.mp dropped
          obtain ⟨user, seq, rfl⟩ := events event membership
          simp at same
      · simp only [state, events]
        refine ⟨?_, ?_, ?_⟩
        · intro name c' online
          exact List.mem_append_left _ (registry.online name c' online)
        · intro c' membership
          rcases List.mem_append.mp membership with old | new
          · exact Nat.le_succ_of_le (registry.accepted c' old)
          · exact Nat.le_of_eq (List.mem_singleton.mp new)
        · intro c' dropped
          obtain ⟨gone, old⟩ := registry.dropped c' (by simpa using dropped)
          refine ⟨?_, Nat.le_succ_of_le old⟩
          intro membership
          rcases List.mem_append.mp membership with again | new
          · exact gone again
          · rw [List.mem_singleton.mp new] at old
            exact Nat.not_succ_le_self _ old
      · simp only [state, events]
        exact installed name _ (by simp) (installs _ rfl rfl (by simp))
      · simp only [state, events]
        exact installed name _ (by simp) (installs _ rfl rfl (by simp))
      · simp only [state, events]
        refine ⟨?_, ?_, ?_⟩
        · intro name c' online
          dsimp only at online
          rw [Sessions.online_without sound] at online
          split at online
          next => simp at online
          next differs =>
            have other : c' ≠ v := by
              rintro rfl
              exact differs online
            simpa [Sessions.without, other] using registry.online name c' online
        · intro c' membership
          exact registry.accepted c' (List.mem_filter.mp membership).1
        · intro c' dropped
          rcases List.mem_append.mp dropped with old | new
          · obtain ⟨gone, accepted⟩ := registry.dropped c' old
            exact ⟨fun again => gone (List.mem_filter.mp again).1, accepted⟩
          · obtain rfl : c' = v := by simpa using new
            exact ⟨by simp [Sessions.without], registry.accepted c' there⟩
  | _ =>
      obtain ⟨events, trace, emitted, -⟩ := trace_run ran
      refine registry.congr (sess_run ran (by simp)) trace ?_
      intro c' dropped
      simpa [EmittedBy] using emitted _ dropped

/-- No ghost sessions, in every run that installs sessions on registered connections. -/
theorem noGhostSessions_of_run
    (run : (server st).Reaches installsRegistered (start st file b) cfg) :
    NoGhostSessions cfg.shared := by
  have sound := (sound_of_run run).inv
  have registry : Registry cfg.shared := by
    refine run.invariant (motive := fun cfg => Registry cfg.shared) ?_ ?_
    · exact ⟨by simp [start, boot], by simp [start, boot], by simp [start]⟩
    · intro cfg t e k rest w new reached registry allowed stack ran
      refine registry_run (sound_of_run reached).inv registry ?_ (exec_eq_some_iff.mp ran).2
      rintro k' rfl enters installs
      unfold installsRegistered at allowed
      rw [stack] at allowed
      cases k' with
      | checkLogin name => exact absurd rfl (installs name)
      | installLogin | installAuth => simpa using allowed
      | _ => cases enters
  refine ⟨?_, ?_⟩
  · intro name c online
    exact ⟨registry.online name c online, sound.held name c online⟩
  · intro c dropped name online
    exact (registry.dropped c dropped).1 (registry.online name c online)

/-- Connection 1 is dropped by the heartbeat while its LOGIN is on its way. -/
def droppedMeanwhile : Demo.Schedule :=
  Demo.connects 1 ++ Demo.hello 1 1 ++ Demo.proves 1 1 ++
    [(.monitor, { clock := fun _ => 30001 })] ++ Demo.steps .monitor 1 ++ Demo.enters 1 1

theorem noGhostSessions_of_run_login :
    ∃ cfg, (server Demo.startup).Reaches installsRegistered (start Demo.startup Demo.file {}) cfg ∧
      NoGhostSessions cfg.shared ∧ cfg.shared.server.sess.online (bytes "alice") = some 1 := by
  obtain ⟨cfg, run, online⟩ := Program.exists_reaches_of_play (server Demo.startup)
    installsRegistered (Demo.connects 1 ++ Demo.hello 1 1 ++ Demo.proves 1 1 ++ Demo.enters 1 1)
    (start Demo.startup Demo.file {})
    (fun cfg => cfg.shared.server.sess.online (bytes "alice") = some 1) (by decide +kernel)
  exact ⟨cfg, run, noGhostSessions_of_run run, by simpa using online⟩

/-- The session is installed on the connection that was dropped: alice is online for good,
through a connection that is not registered. -/
theorem ghost_session :
    ∃ cfg, (server Demo.startup).Reaches Program.always (start Demo.startup Demo.file {}) cfg ∧
      ¬ NoGhostSessions cfg.shared := by
  obtain ⟨cfg, run, haunted⟩ := Program.exists_reaches_of_play (server Demo.startup)
    Program.always droppedMeanwhile (start Demo.startup Demo.file {})
    (fun cfg => cfg.shared.server.sess.online (bytes "alice") = some 1 ∧
      1 ∉ cfg.shared.server.sess.conns) (by decide +kernel)
  obtain ⟨online, gone⟩ := of_decide_eq_true haunted
  exact ⟨cfg, run, fun sound => gone (sound.registered _ _ online).1⟩

/-! ## No double password login -/

/-- A login of that name stands between its online check and its install. -/
def Cmd.checkedLogin (k : Cmd) (name : Bytes) : Bool :=
  match k with
  | .token (.issueLogin name') | .sess (.installLogin name' _ _) => name' = name
  | _ => false

/-- A session is installed while no other connection stands between the online check and
the install of a login of the same name, and the check finds nobody only when no
connection is left that was taken over under that name and has not been dropped yet. -/
def loginsApart (cfg : Config Thread Cmd World) (t : Thread) (_ : Ext) : Bool :=
  match cfg.stack t with
  | .sess (.installLogin name _ _) :: _ | .sess (.installAuth name) :: _ =>
      allOthers cfg t fun v => !(cfg.stack (.client v)).any (·.checkedLogin name)
  | .sess (.checkLogin name) :: _ =>
      cfg.shared.server.sess.online name ≠ none || allOthers cfg t fun v =>
        !(cfg.shared.server.sess.authed v && cfg.shared.server.sess.username v = name)
  | _ => true

/-- `c` has completed a login for `user` and has not been dropped since. -/
def LoggedIn (c : ConnId) (user : Bytes) (trace : List Event) : Prop :=
  ∃ past holder later, trace = past ++ .sess (.loggedIn c user holder) :: later ∧
    .sess (.dropped c) ∉ later

/-- A login finds no other connection under its name, and every connection that completed
a login under it before has been dropped since. -/
def SingleLogin (past : List Event) : Event → Prop
  | .sess (.loggedIn c user holder) =>
      (∀ v, holder = some v → v = c) ∧ ∀ c', LoggedIn c' user past → c' = c
  | _ => True

theorem LoggedIn.of_append {trace events : List Event} {user : Bytes}
    (logged : LoggedIn c user (trace ++ events)) :
    (LoggedIn c user trace ∧ .sess (.dropped c) ∉ events) ∨
      ∃ holder, .sess (.loggedIn c user holder) ∈ events := by
  obtain ⟨past, holder, later, split, stays⟩ := logged
  rcases append_eq_append_cons split with ⟨later', old, rfl⟩ | ⟨past', -, new⟩
  · rw [List.mem_append, not_or] at stays
    exact .inl ⟨⟨past, holder, later', old, stays.1⟩, stays.2⟩
  · exact .inr ⟨holder, by simp [new]⟩

/-- The invariant of the trace: it is lawful so far, and who is logged in according to it
is authenticated under that name. -/
structure LoginLog (w : World) : Prop where
  lawful : Lawful SingleLogin w.trace
  live : ∀ c user, LoggedIn c user w.trace →
    w.server.sess.authed c = true ∧ w.server.sess.username c = user

/-- Behind its check a login is alone under its name. -/
def Alone (t : Thread) (k : Cmd) (w : World) : Prop :=
  ∀ name, k.checkedLogin name = true → w.server.sess.online name = none ∧
    ∀ v, v ≠ t.conn → w.server.sess.authed v = true → w.server.sess.username v ≠ name

theorem LoginLog.congr (log : LoginLog w) (sess : w'.server.sess = w.server.sess)
    {events : List Event} (trace : w'.trace = w.trace ++ events)
    (none : ∀ c user holder, .sess (.loggedIn c user holder) ∉ events) : LoginLog w' := by
  constructor
  · rw [trace]
    apply log.lawful.append_of_forall
    intro event membership past
    match event with
    | .sess (.loggedIn c user holder) => exact absurd membership (none c user holder)
    | .sess (.resumed _ _) | .sess (.dropped _) | .sess (.fanOut _ _) | .own _ | .db _ | .io _
    | .admitted _ _ _ => trivial
  · intro c user logged
    rw [sess]
    rcases (trace ▸ logged).of_append with ⟨old, -⟩ | ⟨holder, new⟩
    · exact log.live c user old
    · exact absurd new (none c user holder)

theorem loginLog_run (log : LoginLog w) (entering : Entering t k w) (alone : Alone t k w)
    (ran : w.run st t.conn e k = some (w', new)) : LoginLog w' := by
  cases k with
  | sess k =>
      obtain ⟨rfl, -⟩ := Prod.mk.inj (Option.some.inj ran)
      -- a session that is installed leaves those of the other connections alone
      have others (name : Bytes) (enters : Cmd.enters (.sess k) = true) (c' : ConnId)
          (user : Bytes) (logged : LoggedIn c' user w.trace) :
          c' ≠ t.conn ∧ (install w.server t.conn name).authed c' = true ∧
            (install w.server t.conn name).username c' = user := by
        obtain ⟨authed, username⟩ := log.live c' user logged
        have other : c' ≠ t.conn := by
          rintro rfl
          simp [(entering enters).2] at authed
        simp [install, other, authed, username]
      rcases runSess_cases st w.server t.conn e k with ⟨state, events⟩ |
        ⟨ip, port, arrival, rfl, state, events⟩ | ⟨name, token, exp, rfl, state, events⟩ |
        ⟨name, rfl, state, events⟩ | ⟨v, n, rfl, there, state, events⟩
      · refine log.congr ?_ rfl ?_
        · simp only [state]
        · intro c' user holder logged
          obtain ⟨event, membership, same⟩ := List.mem_map.mp logged
          obtain ⟨user, seq, rfl⟩ := events event membership
          simp at same
      · simp only [state, events]
        exact ⟨by simpa using log.lawful, fun c' user logged => log.live c' user (by simpa using logged)⟩
      · simp only [state, events]
        obtain ⟨free, nobody⟩ := alone name (by simp [Cmd.checkedLogin])
        constructor
        · apply log.lawful.concat
          refine ⟨?_, ?_⟩
          · intro v holder
            rw [free] at holder
            cases holder
          · intro c' logged
            by_contra other
            obtain ⟨authed, username⟩ := log.live c' name logged
            exact nobody c' other authed username
        · intro c' user logged
          rcases logged.of_append with ⟨old, -⟩ | ⟨holder, new⟩
          · exact (others name rfl c' user old).2
          · obtain ⟨rfl, rfl, -⟩ : c' = t.conn ∧ user = name ∧ _ := by simpa using new
            simp [install]
      · simp only [state, events]
        constructor
        · exact log.lawful.concat trivial
        · intro c' user logged
          rcases logged.of_append with ⟨old, -⟩ | ⟨holder, new⟩
          · exact (others name rfl c' user old).2
          · simp at new
      · simp only [state, events]
        constructor
        · exact log.lawful.concat trivial
        · intro c' user logged
          rcases logged.of_append with ⟨old, stays⟩ | ⟨holder, new⟩
          · have other : c' ≠ v := by simpa using stays
            simpa [Sessions.without, other] using log.live c' user old
          · simp at new
  | _ =>
      obtain ⟨events, trace, emitted, -⟩ := trace_run ran
      refine log.congr (sess_run ran (by simp)) trace ?_
      intro c' user holder logged
      simpa [EmittedBy] using emitted _ logged

theorem alone_own (sound : cfg.shared.server.sess.Sound) (stack : cfg.stack t = k :: rest)
    (allowed : loginsApart cfg t e = true) (alone : Alone t k cfg.shared)
    (ran : cfg.shared.run st t.conn e k = some (w', new)) : ∀ n ∈ new, Alone t n w' := by
  intro n membership name checked
  have called := calledBy_run ran n membership
  match n, checked with
  | .token (.issueLogin name'), checked =>
      obtain ⟨rfl, free⟩ := called
      obtain rfl : name' = name := by simpa [Cmd.checkedLogin] using checked
      obtain ⟨rfl, -⟩ := Prod.mk.inj (Option.some.inj ran)
      refine ⟨free, ?_⟩
      intro v other authed username
      unfold loginsApart at allowed
      rw [stack] at allowed
      simp only [free, ne_eq, not_true_eq_false, decide_false, Bool.false_or] at allowed
      have left := of_allOthers allowed (sound.known v authed).2 other
      simp [show cfg.shared.server.sess.authed v = true from authed,
        show cfg.shared.server.sess.username v = name' from username] at left
  | .sess (.installLogin name' _ _), checked =>
      obtain rfl := called
      rw [sess_run ran (by simp)]
      exact alone name checked

theorem alone_other (started : Started cfg) (stack : cfg.stack t = k :: rest)
    (sound : cfg.shared.server.sess.Sound)
    (allowed : loginsApart cfg t e = true) (entering : Entering t' k' cfg.shared)
    (here : k.runsOn t = true) (ran : cfg.shared.run st t.conn e k = some (w', new))
    (pending : k' ∈ cfg.stack t')
    (waits : Waits Above t k rest t' k') (alone : Alone t' k' cfg.shared) : Alone t' k' w' := by
  intro name checked
  obtain ⟨free, nobody⟩ := alone name checked
  have enters : k'.enters = true := by
    unfold Cmd.checkedLogin at checked
    split at checked
    all_goals first
      | rfl
      | simp at checked
  cases k with
  | sess k =>
      obtain ⟨rfl, -⟩ := Prod.mk.inj (Option.some.inj ran)
      -- a session that is installed meanwhile is of another name
      have installs (name' : Bytes) (enters' : Cmd.enters (.sess k) = true)
          (apart : allOthers cfg t (fun v =>
            !(cfg.stack (.client v)).any (·.checkedLogin name')) = true) :
          (install cfg.shared.server t.conn name').online name = none ∧
            ∀ v, v ≠ t'.conn → (install cfg.shared.server t.conn name').authed v = true →
              (install cfg.shared.server t.conn name').username v ≠ name := by
        have other : t' ≠ t := by
          rcases waits with other | ⟨-, above⟩
          · exact other
          · simp [not_enters_of_above above (layer_of_enters enters')] at enters
        obtain ⟨client', -⟩ := entering enters
        obtain ⟨c', rfl⟩ : ∃ c', t' = .client c' := by cases t' <;> simp_all [Thread.isClient]
        have conns : c' ≠ t.conn := by
          intro same
          rw [runsOn_of_enters enters'] at here
          exact other (Thread.eq_of_conn client' here same)
        have accepted : c' ≤ cfg.shared.server.sess.nextId := by
          rcases started c' k' pending with rfl | known
          · simp [Cmd.enters] at enters
          · exact known.2
        have differ : name' ≠ name := by
          rintro rfl
          have none := of_allOthers apart accepted conns
          rw [Bool.not_eq_true', List.any_eq_false] at none
          exact none k' pending checked
        constructor
        · simpa [install, differ.symm] using free
        · intro v away authed
          by_cases own : v = t.conn
          · simpa [install, own] using differ
          · simp only [install, Function.update_of_ne own] at authed ⊢
            exact nobody v away authed
      unfold loginsApart at allowed
      rw [stack] at allowed
      rcases runSess_cases st cfg.shared.server t.conn e k with ⟨state, -⟩ |
        ⟨ip, port, arrival, rfl, state, -⟩ | ⟨name', token, exp, rfl, state, -⟩ |
        ⟨name', rfl, state, -⟩ | ⟨v, n, rfl, there, state, -⟩
      · simp only [state]
        exact ⟨free, nobody⟩
      · simp only [state]
        exact ⟨free, nobody⟩
      · simp only [state]
        exact installs name' rfl allowed
      · simp only [state]
        exact installs name' rfl allowed
      · simp only [state]
        constructor
        · rw [Sessions.online_without sound, free]
          simp
        · intro v' away authed
          by_cases gone : v' = v
          · simp [Sessions.without, gone] at authed
          · simp only [Sessions.without, Function.update_of_ne gone] at authed ⊢
            exact nobody v' away authed
  | _ =>
      rw [sess_run ran (by simp)]
      exact ⟨free, nobody⟩

/-- No double login by password, in every run whose logins of one name do not overlap. -/
theorem singleLogin_of_run (run : (server st).Reaches loginsApart (start st file b) cfg) :
    Lawful SingleLogin cfg.shared.trace := by
  have outlined : Outlined Above LoginLog Alone cfg := by
    refine run.outlined (respects st) ?_ ?_ ?_
    · refine ⟨⟨by simp [start], ?_⟩, ?_, ?_⟩
      · rintro c user ⟨past, holder, later, split, -⟩
        simp [start] at split
      · intro t
        cases t <;> simp [start]
      · intro t k waiting name checked
        cases t <;> simp_all [start, Cmd.checkedLogin]
    · intro cfg t e k rest w new reached outlined allowed stack ran
      have sound := sound_of_run reached
      have alone := outlined.pending t k (by simp [stack])
      have entering := sound.pending t k (by simp [stack])
      obtain ⟨-, ran⟩ := exec_eq_some_iff.mp ran
      exact ⟨loginLog_run outlined.inv entering alone ran,
        alone_own sound.inv stack allowed alone ran⟩
    · intro cfg t e k rest w new reached _ allowed stack ran t' k' pending waits alone
      have sound := sound_of_run reached
      obtain ⟨here, ran⟩ := exec_eq_some_iff.mp ran
      exact alone_other (started_of_run reached) stack sound.inv allowed
        (sound.pending t' k' pending) here ran pending waits alone
  exact outlined.inv.lawful

/-- Two connections log in as alice one after the other. -/
def oneAfterTheOther : Demo.Schedule :=
  Demo.connects 1 ++ Demo.hello 1 1 ++ Demo.proves 1 1 ++ Demo.enters 1 1 ++
    Demo.steps (.client 1) 9 ++ Demo.connects 2 ++ Demo.hello 2 2 ++ Demo.proves 2 2 ++
    Demo.enters 2 2

/-- The logins of two connections overlap: both pass the online check before either
session is installed. -/
def overlapping : Demo.Schedule :=
  Demo.connects 1 ++ Demo.connects 2 ++ Demo.hello 1 1 ++ Demo.hello 2 2 ++ Demo.proves 1 1 ++
    Demo.proves 2 2 ++ Demo.steps (.client 1) 1 ++ Demo.enters 2 2 ++ Demo.draws 1 1 ++
    Demo.steps (.client 1) 1

/-- The logins of a trace, and whose session each of them found. -/
def logins (trace : List Event) : List (ConnId × Option ConnId) :=
  trace.filterMap fun
    | .sess (.loggedIn c _ holder) => some (c, holder)
    | _ => none

theorem singleLogin_of_run_twice :
    ∃ cfg, (server Demo.startup).Reaches loginsApart (start Demo.startup Demo.file {}) cfg ∧
      Lawful SingleLogin cfg.shared.trace ∧
      logins cfg.shared.trace = [(1, none), (2, none)] := by
  obtain ⟨cfg, run, both⟩ := Program.exists_reaches_of_play (server Demo.startup)
    loginsApart oneAfterTheOther (start Demo.startup Demo.file {})
    (fun cfg => logins cfg.shared.trace = [(1, none), (2, none)]) (by decide +kernel)
  exact ⟨cfg, run, singleLogin_of_run run, by simpa using both⟩

/-- The second login displaces the session that the first one has just installed. -/
theorem double_login :
    ∃ cfg, (server Demo.startup).Reaches Program.always (start Demo.startup Demo.file {}) cfg ∧
      ¬ Lawful SingleLogin cfg.shared.trace := by
  obtain ⟨cfg, run, both⟩ := Program.exists_reaches_of_play (server Demo.startup)
    Program.always overlapping (start Demo.startup Demo.file {})
    (fun cfg => logins cfg.shared.trace = [(2, none), (1, some 2)]) (by decide +kernel)
  refine ⟨cfg, run, fun lawful => ?_⟩
  have displaced : (1, some 2) ∈ logins cfg.shared.trace := by
    rw [of_decide_eq_true both]
    simp
  obtain ⟨event, membership, shape⟩ := List.mem_filterMap.mp displaced
  obtain ⟨past, later, split⟩ := List.append_of_mem membership
  have legal := lawful past event later split
  match event, shape with
  | .sess (.loggedIn c user holder), shape =>
      obtain ⟨rfl, rfl⟩ : c = 1 ∧ holder = some 2 := by simpa using shape
      exact absurd (legal.1 2 rfl) (by decide)

end OnlineChat
