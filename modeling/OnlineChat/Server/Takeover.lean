import OnlineChat.Server.Membership

/-!
# Takeovers

A connection from which a session has been taken over does not own it again before it is
dropped, so that its drop goes unnoticed in the room of its user.
-/

namespace OnlineChat

open Library ChatServer

variable {st : Startup} {s : ChatServer} {c c' v : ConnId} {e : Ext} {w w' : World} {t : Thread}
  {k : Cmd} {rest new : List Cmd} {File : Type} {file : Database File} {b : BootExt}
  {cfg cfg₁ cfg₂ : Config Thread Cmd World} {user : Bytes}

/-! ## The old connection -/

/-- As long as it is registered, the connection is authenticated under a name of which it
does not hold the session. -/
structure Displaced (c : ConnId) (user : Bytes) (s : Sessions) : Prop where
  accepted : c ≤ s.nextId
  left : c ∈ s.conns → s.authed c = true ∧ s.username c = user ∧ s.online user ≠ some c

/-- A session that is installed on a connection that was not authenticated. -/
theorem Displaced.install (displaced : Displaced c user s.sess)
    (out : s.sess.authed v = false) {name : Bytes} : Displaced c user (install s v name) := by
  refine ⟨displaced.accepted, ?_⟩
  intro registered
  obtain ⟨authed, username, online⟩ := displaced.left registered
  have other : c ≠ v := by
    rintro rfl
    simp [out] at authed
  refine ⟨?_, ?_, ?_⟩
  · simpa [ChatServer.install, other] using authed
  · simpa [ChatServer.install, other] using username
  · by_cases same : user = name
    · simpa [ChatServer.install, same] using other.symm
    · simpa [ChatServer.install, same] using online

theorem displaced_run (sound : w.server.sess.Sound) (entering : Entering t k w)
    (displaced : Displaced c user w.server.sess)
    (ran : w.run st t.conn e k = some (w', new)) : Displaced c user w'.server.sess := by
  cases k with
  | sess k =>
      obtain ⟨rfl, -⟩ := Prod.mk.inj (Option.some.inj ran)
      rcases runSess_cases st w.server t.conn e k with ⟨state, -⟩ |
        ⟨ip, port, arrival, rfl, state, -⟩ | ⟨name, token, exp, rfl, state, -⟩ |
        ⟨name, rfl, state, -⟩ | ⟨v, n, rfl, -, state, -⟩
      · simpa only [state] using displaced
      · simp only [state]
        refine ⟨Nat.le_succ_of_le displaced.accepted, ?_⟩
        intro registered
        rcases List.mem_append.mp registered with old | fresh
        · exact displaced.left old
        · have accepted := displaced.accepted
          rw [List.mem_singleton.mp fresh] at accepted
          exact absurd accepted (Nat.not_succ_le_self _)
      · simp only [state]
        exact displaced.install (entering rfl).2
      · simp only [state]
        exact displaced.install (entering rfl).2
      · simp only [state]
        refine ⟨displaced.accepted, ?_⟩
        intro registered
        obtain ⟨old, other⟩ := List.mem_filter.mp registered
        have other : c ≠ v := of_decide_eq_true other
        obtain ⟨authed, username, online⟩ := displaced.left old
        refine ⟨?_, username, ?_⟩
        · simpa [Sessions.without, other] using authed
        · rw [Sessions.online_without sound]
          split
          · rintro ⟨⟩
          · exact online
  | _ =>
      rw [sess_run ran (by simp)]
      exact displaced

/-- The drop of such a connection is not noticed in any room. -/
theorem dropConn_of_displaced (displaced : Displaced c user s.sess) (notifyRoom : Bool) :
    (dropConn s c notifyRoom).state.2 = s.router ∧ (dropConn s c notifyRoom).next = [] := by
  unfold dropConn
  split
  · exact ⟨rfl, rfl⟩
  next registered =>
    obtain ⟨-, username, online⟩ := displaced.left (Decidable.not_not.mp registered)
    have lost : ¬ (s.sess.authed c = true ∧ s.sess.online (s.sess.username c) = some c) := by
      rw [username]
      exact fun owns => online owns.2
    dsimp only
    rw [if_neg lost]
    exact ⟨rfl, rfl⟩

/-! ## The room of the user -/

/-- The step drops no connection that holds the session of the user, and carries out no
JOIN and no LEAVE of the user. -/
def undisturbed (user : Bytes) (cfg : Config Thread Cmd World) (t : Thread) (_ : Ext) : Bool :=
  let s := cfg.shared.server
  match cfg.stack t with
  | .sess (.dropConn v _) :: _ => s.sess.online user ≠ some v
  | .router (.joinRoom _) :: _ | .router .doLeave :: _ => s.sess.username t.conn ≠ user
  | _ => true

/-- A section of the router changes the room of nobody but the user of its connection. -/
theorem find?_runRouter (k : RouterCmd)
    (others : (∃ room, k = .joinRoom room) ∨ k = .doLeave → s.sess.username c ≠ user) :
    (runRouter s c e k).state.userRooms.find? user = s.router.userRooms.find? user := by
  cases k with
  | joinRoom room =>
      have other := others (.inl ⟨room, rfl⟩)
      have state : (runRouter s c e (.joinRoom room)).state =
          (s.router.join (s.sess.username c) room).2 := by
        simp only [runRouter, joinRoom]
        split <;> simp_all
      rw [state]
      cases joined : (s.router.join (s.sess.username c) room).1 with
      | none => rw [RoomRouter.join_eq_none joined]
      | some prev =>
          rw [RoomRouter.find?_join joined]
          exact if_neg other.symm
  | doLeave =>
      have other := others (.inr rfl)
      have state : (runRouter s c e .doLeave).state =
          (s.router.leave (s.sess.username c)).2 := rfl
      rw [state, RoomRouter.find?_leave]
      exact if_neg other.symm
  | createRoom room dbId ts =>
      simp only [runRouter, createRoom]
      rw [RoomRouter.userRooms_create]
  | _ => rfl

/-- The room of a user stays in a step that does not disturb it. -/
theorem find?_run (stack : cfg.stack t = k :: rest) (quiet : undisturbed user cfg t e = true)
    (ran : cfg.shared.run st t.conn e k = some (w', new)) :
    w'.server.router.userRooms.find? user =
      cfg.shared.server.router.userRooms.find? user := by
  unfold undisturbed at quiet
  rw [stack] at quiet
  cases k with
  | sess k =>
      obtain ⟨rfl, -⟩ := Prod.mk.inj (Option.some.inj ran)
      rcases runSess_cases st cfg.shared.server t.conn e k with ⟨state, -⟩ |
        ⟨ip, port, arrival, rfl, state, -⟩ | ⟨name, token, exp, rfl, state, -⟩ |
        ⟨name, rfl, state, -⟩ | ⟨v, n, rfl, -, state, -⟩
      · simp only [state]
      · simp only [state]
      · simp only [state]
      · simp only [state]
      · simp only [state, roomsWithout]
        split
        next owns =>
          rw [RoomRouter.find?_leave]
          apply if_neg
          rintro rfl
          simp [owns.1.2] at quiet
        next => rfl
  | router k =>
      obtain ⟨rfl, -⟩ := Prod.mk.inj (Option.some.inj ran)
      apply find?_runRouter
      rintro (⟨room, rfl⟩ | rfl)
      · exact of_decide_eq_true quiet
      · exact of_decide_eq_true quiet
  | _ => rw [router_run ran (by simp) (by simp)]

/-! ## Takeovers go unnoticed -/

/-- The drop of a connection leaves the rooms alone, and nothing is to be sent after it. -/
def DropsUnnoticed (st : Startup) (c : ConnId) (cfg : Config Thread Cmd World) : Prop :=
  ∀ t e notifyRoom rest cfg', cfg.stack t = .sess (.dropConn c notifyRoom) :: rest →
    (server st).fire t e cfg = some cfg' →
    cfg'.shared.server.router = cfg.shared.server.router ∧ cfg'.stack t = rest

/-- `c'` takes the session of a user over from `c`.  In every run from there on a drop of
`c` goes unnoticed, and the user stays in his room until the holder of his session is
dropped, or a JOIN or LEAVE of his is carried out. -/
theorem takeover_unnoticed
    (run : (server st).Reaches Program.always (start st file b) cfg)
    (stack : cfg.stack (.client c') = .sess (.installAuth user) :: rest)
    (holder : cfg.shared.server.sess.online user = some c) (other : c ≠ c')
    (fired : (server st).fire (.client c') e cfg = some cfg₁) :
    (cfg₁.stack (.client c') = .token (.issueAuth user (some c)) :: rest) ∧
      (∀ cfg₂, (server st).Reaches Program.always cfg₁ cfg₂ → DropsUnnoticed st c cfg₂) ∧
      ∀ cfg₂, (server st).Reaches (undisturbed user) cfg₁ cfg₂ →
        cfg₂.shared.server.router.userRoom user = cfg.shared.server.router.userRoom user := by
  have reached : (server st).Reaches Program.always (start st file b) cfg₁ :=
    run.tail ⟨.client c', e, rfl, fired⟩
  obtain ⟨k, rest', w, new, stack', ran, rfl⟩ := (server st).fire_eq_some_iff.mp fired
  obtain ⟨rfl, rfl⟩ := List.cons.inj (stack.symm.trans stack')
  have ran := (exec_eq_some_iff.mp ran).2
  obtain ⟨rfl, rfl⟩ := Prod.mk.inj (Option.some.inj ran)
  have sound := (sound_of_run run).inv
  have displaced : Displaced c user (install cfg.shared.server c' user) := by
    obtain ⟨authed, username⟩ := sound.held user c holder
    refine ⟨(sound.known c authed).2, ?_⟩
    intro _
    refine ⟨?_, ?_, ?_⟩
    · simpa [install, other] using authed
    · simpa [install, other] using username
    · simpa [install] using other.symm
  refine ⟨?_, ?_, ?_⟩
  · simp only [runSess, installAuth, Thread.conn, holder, Function.update_self,
      List.cons_append, List.nil_append]
    simp [other]
  · intro cfg₂ later t e notifyRoom rest cfg₃ dropping fired
    have displaced : Displaced c user cfg₂.shared.server.sess := by
      refine later.invariant (motive := fun cfg => Displaced c user cfg.shared.server.sess)
        displaced ?_
      intro cfg t e k rest w new before displaced _ stack ran
      have outlined := sound_of_run (reached.trans before)
      have entering := outlined.pending t k (by simp [stack])
      exact displaced_run outlined.inv entering displaced (exec_eq_some_iff.mp ran).2
    obtain ⟨k, rest', w, new, stack, ran, rfl⟩ := (server st).fire_eq_some_iff.mp fired
    obtain ⟨rfl, rfl⟩ := List.cons.inj (dropping.symm.trans stack)
    have ran := (exec_eq_some_iff.mp ran).2
    obtain ⟨rfl, rfl⟩ := Prod.mk.inj (Option.some.inj ran)
    obtain ⟨router, next⟩ := dropConn_of_displaced displaced notifyRoom
    refine ⟨router, ?_⟩
    simp [runSess, next]
  · intro cfg₂ later
    have stays : cfg₂.shared.server.router.userRooms.find? user =
        cfg.shared.server.router.userRooms.find? user := by
      refine later.invariant (motive := fun cfg₂ =>
        cfg₂.shared.server.router.userRooms.find? user =
          cfg.shared.server.router.userRooms.find? user) rfl ?_
      intro cfg' t e k rest w new _ same quiet stack ran
      rw [find?_run stack quiet (exec_eq_some_iff.mp ran).2, same]
    simp only [RoomRouter.userRoom, stays]

/-- Alice is in the lobby on connection 1, and her token has been accepted on connection 2. -/
def resuming : Demo.Schedule :=
  Demo.joining ++ Demo.steps (.client 1) 1 ++ Demo.connects 2 ++
    Demo.receives 2 (Demo.request "AUTH" [("content", .str (PwdHash.toHex (Demo.block 1 32)))]) ++
    Demo.steps (.client 2) 1

/-- The name under which a token has just been accepted. -/
def resumed : List Cmd → Option Bytes
  | .sess (.installAuth user) :: _ => some user
  | _ => none

theorem resumed_eq_some {stack : List Cmd} (accepted : resumed stack = some user) :
    ∃ rest, stack = .sess (.installAuth user) :: rest := by
  unfold resumed at accepted
  split at accepted
  next user' rest =>
    obtain rfl := Option.some.inj accepted
    exact ⟨rest, rfl⟩
  next => cases accepted

theorem takeover_unnoticed_alice :
    ∃ cfg rest cfg₁, (server Demo.startup).Reaches Program.always
        (start Demo.startup Demo.file {}) cfg ∧
      cfg.shared.server.router.userRoom (bytes "alice") = bytes "lobby" ∧
      (server Demo.startup).fire (.client 2) {} cfg = some cfg₁ ∧
      cfg₁.stack (.client 2) = .token (.issueAuth (bytes "alice") (some 1)) :: rest ∧
      ∀ cfg₂, (server Demo.startup).Reaches Program.always cfg₁ cfg₂ →
        DropsUnnoticed Demo.startup 1 cfg₂ := by
  obtain ⟨cfg, run, ready⟩ := Program.exists_reaches_of_play (server Demo.startup) Program.always
    resuming (start Demo.startup Demo.file {})
    (fun cfg => (resumed (cfg.stack (.client 2))).any fun user => user = bytes "alice" ∧
      cfg.shared.server.sess.online user = some 1 ∧
      cfg.shared.server.router.userRoom user = bytes "lobby") (by decide +kernel)
  obtain ⟨user, accepted, facts⟩ := (Option.any_eq_true _ _).mp ready
  obtain ⟨rfl, holder, room⟩ := of_decide_eq_true facts
  obtain ⟨rest, stack⟩ := resumed_eq_some accepted
  have moves : ((server Demo.startup).fire (.client 2) {} cfg).isSome = true := by
    unfold Program.fire
    rw [stack]
    rfl
  obtain ⟨cfg₁, fired⟩ := Option.isSome_iff_exists.mp moves
  obtain ⟨recorded, unnoticed, -⟩ := takeover_unnoticed run stack holder (by decide) fired
  exact ⟨cfg, rest, cfg₁, run, room, fired, recorded, unnoticed⟩

end OnlineChat
