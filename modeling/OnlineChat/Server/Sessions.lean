import OnlineChat.Library.Trace
import OnlineChat.Server.Events

/-!
# Who is online

What holds of the session tables in every run: an entry of `online_` names a connection
that is authenticated under that name, and a connection that is about to log in is not
authenticated yet.
-/

namespace OnlineChat

open Library ChatServer

variable {st : Startup} {s : ChatServer} {c v : ConnId} {e : Ext}

/-! ## One section under `g_m_` -/

/-- The tables after the connection `v` has been dropped. -/
def Sessions.without (s : Sessions) (v : ConnId) : Sessions :=
  { s with
    conns := s.conns.filter (· ≠ v)
    authed := Function.update s.authed v false
    online := if s.authed v ∧ s.online (s.username v) = some v then
        Function.update s.online (s.username v) none
      else s.online }

/-- The rooms after the connection `v` has been dropped. -/
def ChatServer.roomsWithout (s : ChatServer) (v : ConnId) : RoomRouter :=
  if (s.sess.authed v ∧ s.sess.online (s.sess.username v) = some v) ∧
      s.router.userRoom (s.sess.username v) ≠ [] then
    (s.router.leave (s.sess.username v)).2
  else s.router

/-- A section under `g_m_` accepts a connection, installs a session, drops a
connection, or only looks. -/
theorem runSess_cases (st : Startup) (s : ChatServer) (c : ConnId) (e : Ext) (k : SessCmd) :
    ((runSess st s c e k).state = (s.sess, s.router) ∧
      ∀ event ∈ (runSess st s c e k).events, ∃ user seq, event = .fanOut user seq) ∨
    (∃ ip port arrival, k = .acceptInstall ip port ∧
      (runSess st s c e k).state = ({ s.sess with
        nextId := s.sess.nextId + 1
        arrival := Function.update s.sess.arrival (s.sess.nextId + 1) arrival
        conns := s.sess.conns ++ [s.sess.nextId + 1] }, s.router) ∧
      (runSess st s c e k).events = []) ∨
    (∃ name token exp, k = .installLogin name token exp ∧
      (runSess st s c e k).state = (install s c name, s.router) ∧
      (runSess st s c e k).events = [.loggedIn c name (s.sess.online name)]) ∨
    (∃ name, k = .installAuth name ∧
      (runSess st s c e k).state = (install s c name, s.router) ∧
      (runSess st s c e k).events = [.resumed c name]) ∨
    (∃ v notifyRoom, k = .dropConn v notifyRoom ∧ v ∈ s.sess.conns ∧
      (runSess st s c e k).state = (s.sess.without v, s.roomsWithout v) ∧
      (runSess st s c e k).events = [.dropped v]) := by
  cases k with
  | acceptInstall ip port => exact .inr (.inl ⟨ip, port, _, rfl, rfl, rfl⟩)
  | installLogin name token exp => exact .inr (.inr (.inl ⟨name, token, exp, rfl, rfl, rfl⟩))
  | installAuth name => exact .inr (.inr (.inr (.inl ⟨name, rfl, rfl, rfl⟩)))
  | dropConn v notifyRoom =>
      simp only [runSess, dropConn]
      split
      · exact .inl ⟨rfl, by simp⟩
      next known =>
        refine .inr (.inr (.inr (.inr ⟨v, notifyRoom, rfl, Decidable.not_not.mp known, ?_⟩)))
        by_cases here : s.sess.authed v = true ∧ s.sess.online (s.sess.username v) = some v
        · simp [here, Sessions.without, roomsWithout]
        · simp [here, Sessions.without, roomsWithout]
  | relayConns m room names => exact .inl ⟨rfl, by simp [runSess, relayConns]⟩
  | findTarget m =>
      refine .inl ?_
      simp only [runSess, findTarget]
      split <;> simp
  | _ => exact .inl ⟨rfl, by simp [runSess, monitorLoop, monitorDrain, checkLogin, roomConns]⟩

/-! ## The tables are sound -/

structure Sessions.Sound (s : Sessions) : Prop where
  held : ∀ name c, s.online name = some c → s.authed c = true ∧ s.username c = name
  known : ∀ c, s.authed c = true → c ≠ 0 ∧ c ≤ s.nextId

theorem Sessions.online_without (sound : s.sess.Sound) (v : ConnId) (name : Bytes) :
    (s.sess.without v).online name =
      if s.sess.online name = some v then none else s.sess.online name := by
  unfold Sessions.without
  dsimp only
  by_cases mine : s.sess.online name = some v
  · obtain ⟨authed, rfl⟩ := sound.held name v mine
    simp [mine, authed]
  · simp only [mine, if_false]
    split
    next here =>
      have other : name ≠ s.sess.username v := by
        rintro rfl
        exact mine here.2
      exact Function.update_of_ne other _ _
    next => rfl

theorem Sessions.Sound.without (sound : s.sess.Sound) (v : ConnId) :
    (s.sess.without v).Sound := by
  constructor
  · intro name c online
    rw [Sessions.online_without sound] at online
    split at online
    next => simp at online
    next differs =>
      have other : c ≠ v := by
        rintro rfl
        exact differs online
      simpa [Sessions.without, other] using sound.held name c online
  · intro c authed
    by_cases same : c = v
    · simp [Sessions.without, same] at authed
    · apply sound.known
      simpa [Sessions.without, same] using authed

theorem Sessions.Sound.install (sound : s.sess.Sound) (out : s.sess.authed c = false)
    (positive : c ≠ 0) (accepted : c ≤ s.sess.nextId) (name : Bytes) :
    (install s c name).Sound := by
  constructor
  · intro name' c' online
    by_cases same : name' = name
    · subst same
      obtain rfl : c = c' := by simpa [ChatServer.install] using online
      simp [ChatServer.install]
    · have online : s.sess.online name' = some c' := by
        simpa [ChatServer.install, same] using online
      have held := sound.held name' c' online
      have other : c' ≠ c := by
        rintro rfl
        simp [out] at held
      simpa [ChatServer.install, other] using held
  · intro c' authed
    by_cases same : c' = c
    · subst same
      exact ⟨positive, accepted⟩
    · apply sound.known
      simpa [ChatServer.install, same] using authed

/-! ## Logins on their way -/

/-- The commands of a login behind the check that the connection has none yet. -/
def Cmd.enters : Cmd → Bool
  | .db (.findLogin _ _ _) | .sess (.checkLogin _) | .token (.issueLogin _)
  | .sess (.installLogin _ _ _) | .sess (.installAuth _) => true
  | _ => false

/-- While its login is on its way, a connection is not authenticated. -/
def Entering (t : Thread) (k : Cmd) (w : World) : Prop :=
  k.enters = true → t.isClient = true ∧ w.server.sess.authed t.conn = false

variable {w w' : World} {t t' : Thread} {k k' : Cmd} {rest new : List Cmd}

/-- Only its own login authenticates a connection. -/
theorem authed_run (ran : w.run st c e k = some (w', new))
    (authed : w'.server.sess.authed v = true) :
    w.server.sess.authed v = true ∨ (v = c ∧ k.enters = true) := by
  cases k with
  | sess k =>
      obtain ⟨rfl, -⟩ := Prod.mk.inj (Option.some.inj ran)
      rcases runSess_cases st w.server c e k with ⟨same, -⟩ | ⟨ip, port, arrival, rfl, state, -⟩ |
        ⟨name, token, exp, rfl, state, -⟩ | ⟨name, rfl, state, -⟩ | ⟨v', n, rfl, -, state, -⟩
      · simp only [same] at authed
        exact .inl authed
      · simp only [state] at authed
        exact .inl authed
      · by_cases own : v = c
        · exact .inr ⟨own, rfl⟩
        · simp only [state, install, Function.update_of_ne own] at authed
          exact .inl authed
      · by_cases own : v = c
        · exact .inr ⟨own, rfl⟩
        · simp only [state, install, Function.update_of_ne own] at authed
          exact .inl authed
      · by_cases gone : v = v'
        · simp [state, Sessions.without, gone] at authed
        · simp only [state, Sessions.without, Function.update_of_ne gone] at authed
          exact .inl authed
  | _ =>
      rw [sess_run ran (by simp)] at authed
      exact .inl authed

/-- Only its own login names a connection. -/
theorem username_run (ran : w.run st c e k = some (w', new)) (v : ConnId) :
    w'.server.sess.username v = w.server.sess.username v ∨ (v = c ∧ k.enters = true) := by
  cases k with
  | sess k =>
      obtain ⟨rfl, -⟩ := Prod.mk.inj (Option.some.inj ran)
      rcases runSess_cases st w.server c e k with ⟨same, -⟩ | ⟨ip, port, arrival, rfl, state, -⟩ |
        ⟨name, token, exp, rfl, state, -⟩ | ⟨name, rfl, state, -⟩ | ⟨v', n, rfl, -, state, -⟩
      · simp only [same]
        exact .inl trivial
      · simp only [state]
        exact .inl trivial
      · by_cases own : v = c
        · exact .inr ⟨own, rfl⟩
        · simp only [state, install, Function.update_of_ne own]
          exact .inl trivial
      · by_cases own : v = c
        · exact .inr ⟨own, rfl⟩
        · simp only [state, install, Function.update_of_ne own]
          exact .inl trivial
      · simp only [state]
        exact .inl rfl
  | _ => exact .inl (by rw [sess_run ran (by simp)])

theorem layer_of_enters (enters : k.enters = true) : k.layer = .handler := by
  unfold Cmd.enters at enters
  split at enters
  all_goals first
    | rfl
    | simp at enters

/-- What a handler runs above is not another handler. -/
theorem not_enters_of_above (above : Above k k') (handler : k.layer = .handler) :
    k'.enters = false := by
  cases enters : k'.enters with
  | false => rfl
  | true => simp [Above, handler, layer_of_enters enters, Layer.above] at above

theorem runsOn_of_enters (enters : k.enters = true) : k.runsOn t = t.isClient := by
  unfold Cmd.enters at enters
  split at enters
  all_goals first
    | rfl
    | simp at enters

theorem entering_own (ran : (server st).exec t e k w = some (w', new))
    (entering : Entering t k w) : ∀ n ∈ new, Entering t n w' := by
  intro n membership enters
  obtain ⟨here, ran⟩ := exec_eq_some_iff.mp ran
  have called := calledBy_run ran n membership
  have stays (out : w.server.sess.authed t.conn = false) (skips : k.enters = false) :
      w'.server.sess.authed t.conn = false := by
    by_contra authed
    rcases authed_run ran (by simpa using authed) with before | ⟨-, entered⟩
    · simp [out] at before
    · simp [skips] at entered
  match n, enters with
  | .db (.findLogin _ _ _), _ =>
      obtain ⟨obj, ch, rfl, out, -⟩ := called
      exact ⟨here, stays out rfl⟩
  | .sess (.checkLogin _), _ =>
      obtain ⟨proof, nonceHex, rfl⟩ := called
      rw [sess_run ran (by simp)]
      exact entering rfl
  | .token (.issueLogin _), _ =>
      obtain ⟨rfl, -⟩ := called
      obtain ⟨rfl, -⟩ := Prod.mk.inj (Option.some.inj ran)
      exact entering rfl
  | .sess (.installLogin _ _ _), _ =>
      obtain rfl := called
      rw [sess_run ran (by simp)]
      exact entering rfl
  | .sess (.installAuth _), _ =>
      obtain ⟨obj, rfl, out⟩ := called
      exact ⟨here, stays out rfl⟩

theorem entering_other (ran : (server st).exec t e k w = some (w', new))
    (waits : Waits Above t k rest t' k') (entering : Entering t' k' w) :
    Entering t' k' w' := by
  intro enters
  obtain ⟨client', out⟩ := entering enters
  refine ⟨client', ?_⟩
  by_contra authed
  obtain ⟨here, ran⟩ := exec_eq_some_iff.mp ran
  rcases authed_run ran (by simpa using authed) with before | ⟨same, entered⟩
  · simp [out] at before
  · rcases waits with other | ⟨-, above⟩
    · rw [runsOn_of_enters entered] at here
      exact other (Thread.eq_of_conn client' here same)
    · simp [not_enters_of_above above (layer_of_enters entered)] at enters

variable {File : Type} {file : Database File} {b : BootExt}
  {When : Config Thread Cmd World → Thread → Ext → Bool} {cfg : Config Thread Cmd World}

theorem sound_run (started : Started cfg) (stack : cfg.stack t = k :: rest)
    (sound : cfg.shared.server.sess.Sound) (entering : Entering t k cfg.shared)
    (ran : (server st).exec t e k cfg.shared = some (w', new)) : w'.server.sess.Sound := by
  obtain ⟨here, ran⟩ := exec_eq_some_iff.mp ran
  cases k with
  | sess k =>
      obtain ⟨rfl, -⟩ := Prod.mk.inj (Option.some.inj ran)
      have installs (name : Bytes) (enters : Cmd.enters (.sess k) = true) :
          (install cfg.shared.server t.conn name).Sound := by
        obtain ⟨client, out⟩ := entering enters
        obtain ⟨c, rfl⟩ : ∃ c, t = .client c := by cases t <;> simp_all [Thread.isClient]
        rcases started c (.sess k) (by simp [stack]) with fresh | ⟨positive, accepted⟩
        · cases fresh
        · exact sound.install out positive accepted name
      rcases runSess_cases st cfg.shared.server t.conn e k with ⟨same, -⟩ |
        ⟨ip, port, arrival, rfl, state, -⟩ | ⟨name, token, exp, rfl, state, -⟩ |
        ⟨name, rfl, state, -⟩ | ⟨v, n, rfl, -, state, -⟩
      · simpa only [same] using sound
      · simp only [state]
        exact ⟨sound.held, fun c authed =>
          ⟨(sound.known c authed).1, Nat.le_succ_of_le (sound.known c authed).2⟩⟩
      · simpa only [state] using installs name rfl
      · simpa only [state] using installs name rfl
      · simpa only [state] using sound.without v
  | _ =>
      rw [sess_run ran (by simp)]
      exact sound

/-- In every run the tables are sound and logins on their way are not authenticated. -/
theorem sound_of_run (run : (server st).Reaches When (start st file b) cfg) :
    Outlined Above (fun w => w.server.sess.Sound) Entering cfg := by
  refine run.outlined (respects st) ?_ ?_ ?_
  · refine ⟨⟨by simp [start, boot], by simp [start, boot]⟩, ?_, ?_⟩
    · intro t
      cases t <;> simp [start]
    · intro t k waiting
      cases t <;> simp_all [start, Entering, Cmd.enters]
  · intro cfg t e k rest w new reached outlined _ stack ran
    have entering := outlined.pending t k (by simp [stack])
    refine ⟨sound_run (started_of_run reached) stack outlined.inv entering ran, ?_⟩
    exact entering_own ran entering
  · intro cfg t e k rest w new _ _ _ _ ran t' k' _ waits entering
    exact entering_other ran waits entering

end OnlineChat
