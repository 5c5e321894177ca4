import OnlineChat.Library.Recording
import OnlineChat.Server.Acks

/-!
# Whose message it is

Every row is inserted under the name of the latest login on the connection that sent it,
and a connection changes nothing before its first login.
-/

namespace OnlineChat

open Library MiniJson ChatServer

variable {st : Startup} {s : ChatServer} {c v : ConnId} {e : Ext} {w w' : World} {t t' : Thread}
  {k k' n : Cmd} {rest new : List Cmd} {File : Type} {file : Database File} {b : BootExt}
  {m : ChatMsg} {user : Bytes}

/-! ## The history of a run -/

/-- Whom an event authenticates on `c`. -/
def Event.authenticates (c : ConnId) : Event → Option Bytes
  | .sess (.loggedIn c' user _) | .sess (.resumed c' user) => if c' = c then some user else none
  | _ => none

/-- The user of the latest successful authentication on `c`. -/
def latestAuth (trace : List Event) (c : ConnId) : Option Bytes :=
  latest (Event.authenticates c) trace

inductive Note where
  /-- The handling of a frame starts. -/
  | frame (c : ConnId) (obj : Object)
  | issued (user token : Bytes)
  /-- `doAuth` finds a token in the table. -/
  | presented (c : ConnId) (user token : Bytes)

def Note.frameOn (c : ConnId) : Note → Option Object
  | .frame c' obj => if c' = c then some obj else none
  | _ => none

/-- The latest frame that was handled on `c`. -/
def latestFrame (notes : List Note) (c : ConnId) : Option Object := latest (Note.frameOn c) notes

/-- The frames that are handled, and the tokens that are issued and presented. -/
def noted (st : Startup) (t : Thread) (e : Ext) (k : Cmd) (w : World) : List Note :=
  match k with
  | .own .frames =>
      match (w.server.clients t.conn).reader.next with
      | (some body, _) =>
          match parse body with
          | .ok obj => [.frame t.conn obj]
          | .error _ => []
      | (none, _) => []
  | .token (.issueLogin name) | .token (.issueAuth name _) =>
      [.issued name (issue st w.server e name).1]
  | .token (.doAuth obj) =>
      let token := obj.getStr (bytes "content")
      match w.server.tokens.validate st.hashes token (e.nowTs 0) with
      | (some name, _) => if w.server.sess.authed t.conn then [] else [.presented t.conn name token]
      | (none, _) => []
  | _ => []

/-- The server with that history. -/
abbrev recorded (st : Startup) : Program Thread Ext Cmd (World × List Note) :=
  (server st).recording (noted st)

/-- The proof of a LOGIN for that user on `c` was checked with success. -/
def Proved (c : ConnId) (user : Bytes) (trace : List Event) : Prop :=
  ∃ nonceHex keyHex proof, .db (.compared c user nonceHex keyHex proof true) ∈ trace

/-- A token was presented on `c` that has the digest of a token that was issued to that
user. -/
def Resumed (st : Startup) (c : ConnId) (user : Bytes) (notes : List Note) : Prop :=
  ∃ token token', .presented c user token ∈ notes ∧ .issued user token' ∈ notes ∧
    st.hashes.sha256 token = st.hashes.sha256 token'

/-- A login follows a proof, and a resumption a token. -/
def Earned (st : Startup) (x : World × List Note) : Event → Prop
  | .sess (.loggedIn c user _) => Proved c user x.1.trace
  | .sess (.resumed c user) => Resumed st c user x.2
  | _ => True

/-- `t` handles a MESSAGE frame on a connection where `user` is the latest to have been
authenticated. -/
def SpeaksFor (t : Thread) (user : Bytes) (x : World × List Note) : Prop :=
  ∃ c obj, t = .client c ∧ latestFrame x.2 c = some obj ∧
    obj.getStr (bytes "type") = bytes "MESSAGE" ∧ latestAuth x.1.trace c = some user

/-- What no frame changes before the first login. -/
structure Untouched (s s' : ChatServer) : Prop where
  router : s'.router = s.router
  messages : s'.db.messages = s.db.messages
  offline : s'.db.offline = s.db.offline
  dedup : s'.dedup = s.dedup
  msgLimit : s'.msgLimit = s.msgLimit

/-! ## The names in the sessions -/

/-- An event of a step authenticates the connection of its thread only, by an install. -/
theorem latestAuth_run (ran : w.run st c e k = some (w', new)) (v : ConnId) :
    latestAuth w'.trace v = latestAuth w.trace v ∨
      (v = c ∧ k.enters = true ∧ ∃ user, latestAuth w'.trace v = some user ∧
        ((∃ token exp, k = .sess (.installLogin user token exp)) ∨ k = .sess (.installAuth user))) := by
  obtain ⟨events, trace, emitted, few⟩ := trace_run ran
  by_cases silent : ∀ event ∈ events, event.authenticates v = none
  · left
    rw [trace]
    exact latest_append_of_none silent
  · simp only [not_forall] at silent
    obtain ⟨event, membership, authenticates⟩ := silent
    obtain ⟨user, authenticates⟩ := Option.ne_none_iff_exists'.mp authenticates
    have installs : v = c ∧ ((∃ token exp, k = .sess (.installLogin user token exp)) ∨
        k = .sess (.installAuth user)) := by
      match event, authenticates with
      | .sess (.loggedIn c' user' holder), authenticates =>
          obtain ⟨rfl, rfl⟩ : c' = v ∧ user' = user := by
            simpa [Event.authenticates] using authenticates
          obtain ⟨rfl, -, token, exp, rfl⟩ := emitted _ membership
          exact ⟨rfl, .inl ⟨token, exp, rfl⟩⟩
      | .sess (.resumed c' user'), authenticates =>
          obtain ⟨rfl, rfl⟩ : c' = v ∧ user' = user := by
            simpa [Event.authenticates] using authenticates
          obtain ⟨rfl, rfl⟩ := emitted _ membership
          exact ⟨rfl, .inr rfl⟩
    have one : events = [event] := by
      rcases few with ⟨k', rfl⟩ | few
      · rcases installs.2 with ⟨_, _, shape⟩ | shape <;> cases shape
      · match events, few, membership with
        | [x], _, membership => rw [List.mem_singleton.mp membership]
    refine .inr ⟨installs.1, ?_, user, ?_, installs.2⟩
    · rcases installs.2 with ⟨_, _, rfl⟩ | rfl <;> rfl
    · rw [trace, one]
      exact latest_concat authenticates

theorem latestAuth_stays (ran : w.run st c e k = some (w', new))
    (known : latestAuth w.trace v ≠ none) : latestAuth w'.trace v ≠ none := by
  rcases latestAuth_run ran v with same | ⟨-, -, user, now, -⟩
  · rwa [same]
  · rw [now]
    exact nofun

/-! ## Before the first login -/

/-- The commands that a client thread may run before the first login on its connection. -/
def Cmd.opens (c : ConnId) : Cmd → Bool
  | .own (.doCreate _) => false
  | .own _ | .limit (.doRegisterHello _) | .limit (.doLoginHello _) => true
  | .token (.doAuth _) | .token (.issueLogin _) => true
  | .sess (.checkLogin _) | .sess (.installLogin _ _ _) | .sess (.installAuth _) => true
  | .sess (.dropConn v _) => v = c
  | .db (.findHello _ _) | .db (.createUser _ _ _ _ _) | .db (.findLogin _ _ _) => true
  | .io .handleClient | .io (.sendFrame _ _) | .io (.closeConn _) => true
  | _ => false

/-- Only handlers that need no login, or the connection is authenticated. -/
def Gated (s : ChatServer) (c : ConnId) (r : List Cmd × Bool) : Prop :=
  ∀ n ∈ r.1, n.opens c = true ∨ s.sess.authed c = true

theorem gated_handleBody (body : Bytes) : Gated s c (handleBody s c e body) := by
  have open' {n : Cmd} {quits : Bool} (opens : n.opens c = true) : Gated s c ([n], quits) :=
    fun n' membership => .inl (List.mem_singleton.mp membership ▸ opens)
  have behind {n : Cmd} {quits : Bool} (authed : ¬ ¬ s.sess.authed c = true) :
      Gated s c ([n], quits) := fun _ _ => .inr (Decidable.not_not.mp authed)
  have nothing : Gated s c ([], false) := fun n membership => absurd membership List.not_mem_nil
  unfold handleBody
  cases parse body with
  | error => exact nothing
  | ok obj =>
      dsimp only
      -- one goal for each type of frame
      repeat' (apply iteInduction <;> intro _)
      all_goals first
        | exact nothing
        | exact open' rfl
        | exact open' (decide_eq_true rfl)
        | exact behind ‹¬ ¬ _›

theorem opens_runOwn {k : OwnCmd} (opens : Cmd.opens c (.own k) = true) :
    ∀ n ∈ (runOwn st s c e k).next, n.opens c = true ∨ s.sess.authed c = true := by
  cases k with
  | recvLoop =>
      simp only [runOwn, recvLoop]
      repeat' split
      all_goals simp [Cmd.opens]
  | frames =>
      simp only [runOwn, frames]
      split
      next body reader _ =>
        intro n membership
        rcases List.mem_append.mp membership with started | ends
        · exact gated_handleBody body n started
        · left
          revert ends
          split <;> simp +contextual [Cmd.opens, or_imp]
      next => split <;> simp [Cmd.opens]
  | sendChallenge user saltHex isRegister =>
      simp only [runOwn, sendChallenge]
      split <;> simp [Cmd.opens]
  | doRegister obj =>
      simp only [runOwn, doRegister]
      repeat' split
      all_goals simp [Cmd.opens, sendErr]
  | doLogin obj =>
      simp only [runOwn, doLogin]
      repeat' split
      all_goals simp [Cmd.opens, sendErr]
  | doCreate obj => cases opens

theorem opens_runSess {k : SessCmd} (opens : Cmd.opens c (.sess k) = true) :
    (∀ n ∈ (runSess st s c e k).next, n.opens c = true ∨ s.sess.authed c = true) ∨
      (∃ name token exp, k = .installLogin name token exp) ∨ ∃ name, k = .installAuth name := by
  cases k with
  | checkLogin name =>
      left
      simp only [runSess, checkLogin]
      split <;> simp [Cmd.opens, sendErr]
  | installLogin name token exp => exact .inr (.inl ⟨name, token, exp, rfl⟩)
  | installAuth name => exact .inr (.inr ⟨name, rfl⟩)
  | dropConn v notifyRoom =>
      left
      obtain rfl : v = c := of_decide_eq_true opens
      simp only [runSess, dropConn]
      split
      · simp
      · split
        next owns => simp [owns.1]
        next => simp
  | _ => cases opens

theorem opens_runDb {k : DbCmd} {r : Effect (Database Origin) DbEvent}
    (opens : Cmd.opens c (.db k) = true) (ran : runDb st s c e k = some r) :
    ∀ n ∈ r.next, n.opens c = true := by
  cases k with
  | findHello name isRegister =>
      obtain rfl := Option.some.inj ran
      simp only [findHello]
      split <;> simp [Cmd.opens, sendErr]
  | createUser name derived saltHex stored since =>
      rcases next_whenTxIdle ran with rfl | ⟨n, rfl⟩
      · split <;> simp [Cmd.opens, sendErr]
      · simp [Cmd.opens]
  | findLogin name proof nonceHex =>
      obtain rfl := Option.some.inj ran
      simp only [findLogin]
      repeat' split
      all_goals simp [Cmd.opens, sendErr]
  | _ => cases opens

/-- What an open command leaves is open, unless the connection is authenticated by then. -/
theorem opens_run (opens : k.opens c = true) (ran : w.run st c e k = some (w', new)) :
    ∀ n ∈ new, n.opens c = true ∨ w.server.sess.authed c = true ∨
      latestAuth w'.trace c ≠ none := by
  intro n membership
  cases k with
  | own k =>
      obtain ⟨-, rfl⟩ := Prod.mk.inj (Option.some.inj ran)
      exact (opens_runOwn opens n membership).imp_right .inl
  | limit k =>
      obtain ⟨-, rfl⟩ := Prod.mk.inj (Option.some.inj ran)
      left
      cases k with
      | doRegisterHello obj | doLoginHello obj =>
          revert membership
          simp only [runLimit, doRegisterHello, doLoginHello, doHello]
          repeat' split
          all_goals
            intro membership
            obtain rfl := List.mem_singleton.mp membership
            rfl
      | _ => cases opens
  | token k =>
      obtain ⟨-, rfl⟩ := Prod.mk.inj (Option.some.inj ran)
      left
      cases k with
      | doAuth obj =>
          revert membership
          simp only [runToken, doAuth]
          repeat' split
          all_goals
            intro membership
            obtain rfl := List.mem_singleton.mp membership
            rfl
      | issueLogin name =>
          obtain rfl := List.mem_singleton.mp membership
          rfl
      | _ => cases opens
  | sess k =>
      rcases @opens_runSess st w.server c e k opens with stays | installs
      · obtain ⟨-, rfl⟩ := Prod.mk.inj (Option.some.inj ran)
        exact (stays n membership).imp_right .inl
      · right; right
        obtain ⟨rfl, -⟩ := Prod.mk.inj (Option.some.inj ran)
        rcases installs with ⟨name, token, exp, rfl⟩ | ⟨name, rfl⟩
        · have now : latestAuth (w.trace ++ [.sess (.loggedIn c name (w.server.sess.online name))]) c =
              some name := latest_concat (by simp [Event.authenticates])
          exact fun missing => by cases now.symm.trans missing
        · have now : latestAuth (w.trace ++ [.sess (.resumed c name)]) c = some name :=
            latest_concat (by simp [Event.authenticates])
          exact fun missing => by cases now.symm.trans missing
  | router k => cases opens
  | db k =>
      obtain ⟨r, step, result⟩ := Option.map_eq_some_iff.mp ran
      obtain ⟨-, rfl⟩ := Prod.mk.inj result
      exact .inl (opens_runDb opens step n membership)
  | io k =>
      obtain ⟨r, step, result⟩ := Option.map_eq_some_iff.mp ran
      obtain ⟨-, rfl⟩ := Prod.mk.inj result
      left
      cases k with
      | handleClient =>
          obtain ⟨-, -, tls, rfl | rfl⟩ := starts_handleClient step
          · obtain rfl := List.mem_singleton.mp membership
            rfl
          · revert membership
            simp +contextual [Cmd.opens, or_imp]
      | sendFrame v obj | closeConn v =>
          obtain rfl := Option.some.inj step
          revert membership
          simp [sendSection]
      | _ => cases opens
  | checkAndAdd m => cases opens

/-- An open command of a connection that is not authenticated touches accounts, tokens
and sessions at most. -/
theorem untouched_run (opens : k.opens c = true) (out : w.server.sess.authed c = false)
    (ran : w.run st c e k = some (w', new)) : Untouched w.server w'.server := by
  cases k with
  | own k =>
      obtain ⟨rfl, -⟩ := Prod.mk.inj (Option.some.inj ran)
      exact ⟨rfl, rfl, rfl, rfl, rfl⟩
  | limit k =>
      obtain ⟨rfl, -⟩ := Prod.mk.inj (Option.some.inj ran)
      cases k with
      | doRegisterHello obj | doLoginHello obj =>
          refine ⟨rfl, rfl, rfl, rfl, ?_⟩
          simp only [runLimit, doRegisterHello, doLoginHello, doHello]
          split <;> rfl
      | _ => cases opens
  | token k =>
      obtain ⟨rfl, -⟩ := Prod.mk.inj (Option.some.inj ran)
      exact ⟨rfl, rfl, rfl, rfl, rfl⟩
  | sess k =>
      obtain ⟨rfl, -⟩ := Prod.mk.inj (Option.some.inj ran)
      refine ⟨?_, rfl, rfl, rfl, rfl⟩
      rcases runSess_cases st w.server c e k with ⟨state, -⟩ | ⟨ip, port, arrival, rfl, state, -⟩ |
        ⟨name, token, exp, rfl, state, -⟩ | ⟨name, rfl, state, -⟩ | ⟨v, n, rfl, -, state, -⟩
      · simp only [state]
      · simp only [state]
      · simp only [state]
      · simp only [state]
      · obtain rfl : v = c := of_decide_eq_true opens
        simp [state, roomsWithout, out]
  | router k => cases opens
  | db k =>
      obtain ⟨r, step, result⟩ := Option.map_eq_some_iff.mp ran
      obtain ⟨rfl, -⟩ := Prod.mk.inj result
      have idle : Cmd.call c (.db k) = none := by cases k <;> first | rfl | cases opens
      obtain ⟨users, rooms, offline, state⟩ := tables_runDb step idle
      refine ⟨rfl, by rw [state], ?_, rfl, rfl⟩
      rcases offline_runDb step (by rintro name id rest since rfl; cases opens) with
        same | ⟨m, target, since, rfl, -⟩
      · exact same
      · cases opens
  | io k =>
      obtain ⟨r, -, result⟩ := Option.map_eq_some_iff.mp ran
      obtain ⟨rfl, -⟩ := Prod.mk.inj result
      exact ⟨rfl, rfl, rfl, rfl, rfl⟩
  | checkAndAdd m => cases opens

/-! ## What is known while a command waits -/

/-- The message with which a command has to do, its offline row included. -/
def Cmd.about : Cmd → Option ChatMsg
  | .db (.insertOffline m _ _) => some m
  | k => k.handled

/-- The name under which a login is on its way, or its token is issued. -/
def Cmd.entrant : Cmd → Option Bytes
  | .db (.findLogin name _ _) | .sess (.checkLogin name) | .token (.issueLogin name)
  | .sess (.installLogin name _ _) | .sess (.installAuth name) | .token (.issueAuth name _) =>
      some name
  | _ => none

/-- The name of a login whose proof has been checked. -/
def Cmd.provenLogin : Cmd → Option Bytes
  | .sess (.checkLogin name) | .token (.issueLogin name) | .sess (.installLogin name _ _) =>
      some name
  | _ => none

theorem about_of_handled (handled : k.handled = some m) : k.about = some m := by
  unfold Cmd.about
  split
  · cases handled
  · exact handled

theorem about_called (called : CalledBy st s c e k n) (about : n.about = some m) :
    (∃ obj, k = .limit (.doMessage obj) ∧ m.sender = s.sess.username c) ∨
      k.about = some m := by
  unfold Cmd.about at about
  split at about
  · obtain rfl := Option.some.inj about
    right
    rcases called with rfl | ⟨v, rfl⟩ | ⟨target, since, rfl⟩ <;> rfl
  · rcases handled_called called about with ⟨⟨obj, rfl⟩, sender⟩ | handled
    · exact .inl ⟨obj, rfl, sender⟩
    · exact .inr (about_of_handled handled)

theorem facts_of_about (about : k.about = some m) : k.layer ≠ .loop ∧ k.enters = false := by
  unfold Cmd.about at about
  split at about
  · exact ⟨nofun, rfl⟩
  · obtain ⟨layer, enters, -⟩ := facts_of_handled (t := .accept) about
    exact ⟨layer, enters⟩

structure Acting (st : Startup) (t : Thread) (k : Cmd) (x : World × List Note) : Prop where
  speaks : ∀ m, k.about = some m → SpeaksFor t m.sender x
  frame : ∀ obj, k = .limit (.doMessage obj) → ∃ c, t = .client c ∧
    latestFrame x.2 c = some obj ∧ obj.getStr (bytes "type") = bytes "MESSAGE" ∧
    latestAuth x.1.trace c ≠ none
  gated : ∀ c, t = .client c → k.opens c = true ∨ latestAuth x.1.trace c ≠ none
  named : ∀ name, k.entrant = some name → validUsername name = true
  proved : ∀ name, k.provenLogin = some name → Proved t.conn name x.1.trace
  resumed : ∀ name, k = .sess (.installAuth name) → Resumed st t.conn name x.2

/-- The invariant of the sessions, the tokens and the table of messages. -/
structure Authentic (st : Startup) (x : World × List Note) : Prop where
  tokens : ∀ entry ∈ x.1.server.tokens.tokens.entries, validUsername entry.2.user = true ∧
    ∃ token, .issued entry.2.user token ∈ x.2 ∧ entry.1 = TokenBook.hashToken st.hashes token
  earned : ∀ event ∈ x.1.trace, Earned st x event
  sessions : ∀ c, (latestAuth x.1.trace c = none ∧ x.1.server.sess.authed c = false) ∨
    (latestAuth x.1.trace c = some (x.1.server.sess.username c) ∧
      validUsername (x.1.server.sess.username c) = true)
  within : x.1.server.db.Within

theorem Proved.mono {trace events : List Event} (proved : Proved c user trace) :
    Proved c user (trace ++ events) := by
  obtain ⟨nonceHex, keyHex, proof, there⟩ := proved
  exact ⟨nonceHex, keyHex, proof, List.mem_append_left _ there⟩

theorem Resumed.mono {notes more : List Note} (resumed : Resumed st c user notes) :
    Resumed st c user (notes ++ more) := by
  obtain ⟨token, token', presented, issued, digest⟩ := resumed
  exact ⟨token, token', List.mem_append_left _ presented, List.mem_append_left _ issued, digest⟩

/-- The latest frame of a connection changes only where its thread takes the next one. -/
theorem latestFrame_noted (notes : List Note) (v : ConnId) :
    latestFrame (notes ++ noted st t e k w) v = latestFrame notes v ∨
      (v = t.conn ∧ k = .own .frames) := by
  by_cases own : v = t.conn ∧ k = .own .frames
  · exact .inr own
  · left
    apply latest_append_of_none
    intro note membership
    unfold noted at membership
    split at membership
    · have other : t.conn ≠ v := fun same => own ⟨same.symm, rfl⟩
      repeat' split at membership
      all_goals simp at membership
      subst membership
      simp [Note.frameOn, other]
    · obtain rfl := List.mem_singleton.mp membership
      rfl
    · obtain rfl := List.mem_singleton.mp membership
      rfl
    · -- a token that is presented is not a frame
      dsimp only at membership
      split at membership
      · split at membership
        · cases membership
        · obtain rfl := List.mem_singleton.mp membership
          rfl
      · cases membership
    · cases membership

theorem noted_frames {body : Bytes} {reader : FrameReader} {obj : Object}
    (taken : (w.server.clients t.conn).reader.next = (some body, reader))
    (parsed : parse body = .ok obj) : noted st t e (.own .frames) w = [.frame t.conn obj] := by
  simp [noted, taken, parsed]

/-- A command that waits does so while its own connection neither takes a frame nor
enters. -/
theorem quiet_of_waits (here : k.runsOn t = true) (noLoop : k'.layer ≠ .loop)
    (waits : Waits Above t k rest (.client c) k') :
    ¬ (c = t.conn ∧ (k = .own .frames ∨ k.enters = true)) := by
  rintro ⟨mine, busy⟩
  have client : t.isClient = true := by
    rcases busy with rfl | enters
    · exact here
    · exact runsOn_of_enters enters ▸ here
  obtain rfl := Thread.eq_of_conn (t := .client c) rfl client mine
  rcases waits with other | ⟨-, above⟩
  · exact other rfl
  · rcases busy with rfl | enters
    · simp [Above, Cmd.layer, Layer.above] at above
    · simp [Above, layer_of_enters enters, Layer.above, noLoop] at above

/-- A message stays with its frame and its login until the next frame or login. -/
theorem SpeaksFor.mono {notes : List Note} (speaks : SpeaksFor t' user (w, notes))
    (quiet : ∀ c, t' = .client c → ¬ (c = t.conn ∧ (k = .own .frames ∨ k.enters = true)))
    (ran : w.run st t.conn e k = some (w', new)) :
    SpeaksFor t' user (w', notes ++ noted st t e k w) := by
  obtain ⟨c, obj, client, frame, type, auth⟩ := speaks
  refine ⟨c, obj, client, ?_, type, ?_⟩
  · rcases latestFrame_noted notes c with same | ⟨mine, taken⟩
    · exact same.trans frame
    · exact absurd ⟨mine, .inl taken⟩ (quiet c client)
  · rcases latestAuth_run ran c with same | ⟨mine, enters, -⟩
    · exact same.trans auth
    · exact absurd ⟨mine, .inr enters⟩ (quiet c client)

/-! ## What the handlers have checked -/

theorem valid_of_doLogin {obj : Object} {name proof nonceHex : Bytes}
    (called : .db (.findLogin name proof nonceHex) ∈ (doLogin s c e obj).next) :
    validUsername name = true := by
  simp only [doLogin] at called
  repeat' split at called
  all_goals simp [sendErr] at called
  next valid _ =>
    obtain ⟨rfl, -⟩ := called
    simp only [not_or, Bool.not_eq_true, Bool.not_eq_false] at valid
    exact valid.1

theorem valid_of_doAuth {obj : Object} {name : Bytes} (out : s.sess.authed c = false)
    (called : .sess (.installAuth name) ∈ (doAuth st s c e obj).next) :
    (s.tokens.validate st.hashes (obj.getStr (bytes "content")) (e.nowTs 0)).1 = some name := by
  simp only [doAuth, out] at called
  split at called
  next off => cases off
  next =>
    split at called
    next => simp [sendErr] at called
    next valid =>
      obtain ⟨rfl⟩ : name = _ := by simpa using called
      simp [valid]

theorem proved_of_findLogin {name proof nonceHex : Bytes}
    (called : .sess (.checkLogin name) ∈ (findLogin st s c e name proof nonceHex).next) :
    ∃ keyHex, (findLogin st s c e name proof nonceHex).events =
      [.compared c name nonceHex keyHex proof true] := by
  simp only [findLogin] at called ⊢
  split at called
  next => simp [sendErr] at called
  next row found =>
    split at called
    next => simp [sendErr] at called
    next key =>
      split at called
      next passed => exact ⟨keyOf st name row, by simp [key, passed]⟩
      next => simp [sendErr] at called

/-- The connection of a step carries the name that the latest login gave it. -/
theorem named_of_entrant {x : World × List Note} (authentic : Authentic st x)
    (acting : Acting st t k x) (ran : x.1.run st t.conn e k = some (w', new)) (called : n ∈ new)
    {name : Bytes} (entrant : n.entrant = some name) : validUsername name = true := by
  have by' := calledBy_run ran n called
  unfold Cmd.entrant at entrant
  split at entrant
  all_goals cases entrant
  · obtain ⟨obj, ch, rfl, -⟩ := by'
    obtain ⟨-, rfl⟩ := Prod.mk.inj (Option.some.inj ran)
    exact valid_of_doLogin called
  · obtain ⟨proof, nonceHex, rfl⟩ := by'
    exact acting.named name rfl
  · obtain ⟨rfl, -⟩ := by'
    exact acting.named name rfl
  · obtain rfl := by'
    exact acting.named name rfl
  · obtain ⟨obj, rfl, out⟩ := by'
    obtain ⟨-, rfl⟩ := Prod.mk.inj (Option.some.inj ran)
    obtain ⟨exp, there⟩ := TokenBook.entry_of_validate (valid_of_doAuth out called)
    exact (authentic.tokens _ there).1
  · obtain rfl := by'
    exact acting.named name rfl

theorem proved_called {x : World × List Note} (acting : Acting st t k x)
    (ran : x.1.run st t.conn e k = some (w', new)) (called : n ∈ new) {name : Bytes}
    (proven : n.provenLogin = some name) : Proved t.conn name w'.trace := by
  obtain ⟨events, trace, -⟩ := trace_run ran
  have by' := calledBy_run ran n called
  unfold Cmd.provenLogin at proven
  split at proven
  all_goals cases proven
  · obtain ⟨proof, nonceHex, rfl⟩ := by'
    obtain ⟨rfl, rfl⟩ := Prod.mk.inj (Option.some.inj ran)
    obtain ⟨keyHex, event⟩ := proved_of_findLogin called
    refine ⟨nonceHex, keyHex, proof, ?_⟩
    simp [event]
  · obtain ⟨rfl, -⟩ := by'
    rw [trace]
    exact (acting.proved name rfl).mono
  · obtain rfl := by'
    rw [trace]
    exact (acting.proved name rfl).mono

theorem resumed_called {x : World × List Note} (authentic : Authentic st x)
    (ran : x.1.run st t.conn e k = some (w', new)) {name : Bytes}
    (called : .sess (.installAuth name) ∈ new) :
    Resumed st t.conn name (x.2 ++ noted st t e k x.1) := by
  obtain ⟨obj, rfl, out⟩ := calledBy_run ran _ called
  obtain ⟨-, rfl⟩ := Prod.mk.inj (Option.some.inj ran)
  have valid := valid_of_doAuth out called
  obtain ⟨exp, there⟩ := TokenBook.entry_of_validate valid
  obtain ⟨-, token, issued, key⟩ := authentic.tokens _ there
  refine ⟨obj.getStr (bytes "content"), token, ?_, List.mem_append_left _ issued,
    PwdHash.toHex_injective key⟩
  apply List.mem_append_right
  unfold noted
  dsimp only
  split
  next user _ result =>
    obtain rfl : user = name := by simpa [result] using valid
    simp [out]
  next result => simp [result] at valid

/-- The frame of a message is the latest, and its connection is authenticated. -/
theorem frame_called {x : World × List Note} (authentic : Authentic st x)
    (here : k.runsOn t = true) (ran : x.1.run st t.conn e k = some (w', new)) {obj : Object}
    (called : .limit (.doMessage obj) ∈ new) :
    ∃ c, t = .client c ∧ latestFrame (x.2 ++ noted st t e k x.1) c = some obj ∧
      obj.getStr (bytes "type") = bytes "MESSAGE" ∧ latestAuth w'.trace c ≠ none := by
  obtain ⟨rfl, authed, type, body, reader, taken, parsed⟩ := calledBy_run ran _ called
  obtain ⟨c, rfl⟩ : ∃ c, t = .client c := by
    cases t with
    | client c => exact ⟨c, rfl⟩
    | accept | monitor => cases here
  refine ⟨c, rfl, ?_, type, ?_⟩
  · rw [noted_frames taken parsed]
    exact latest_concat (if_pos rfl)
  · apply latestAuth_stays ran
    rcases authentic.sessions c with ⟨-, out⟩ | ⟨auth, -⟩
    · cases out.symm.trans authed
    · rw [auth]
      exact nofun

theorem acting_own {x : World × List Note} (authentic : Authentic st x)
    (acting : Acting st t k x) (here : k.runsOn t = true)
    (ran : x.1.run st t.conn e k = some (w', new)) :
    ∀ n ∈ new, Acting st t n (w', x.2 ++ noted st t e k x.1) := by
  intro n called
  refine ⟨?_, ?_, ?_, ?_, ?_, ?_⟩
  · intro m about
    rcases about_called (calledBy_run ran n called) about with ⟨obj, rfl, sender⟩ | about'
    · obtain ⟨c, rfl, frame, type, auth⟩ := acting.frame obj rfl
      have speaks : SpeaksFor (.client c) m.sender x := by
        refine ⟨c, obj, rfl, frame, type, ?_⟩
        rcases authentic.sessions c with ⟨missing, -⟩ | ⟨latest, -⟩
        · exact absurd missing auth
        · rw [latest, sender]
          rfl
      exact speaks.mono (by simp [Cmd.enters]) ran
    · obtain ⟨noLoop, skips⟩ := facts_of_about about'
      refine (acting.speaks m about').mono ?_ ran
      rintro c - ⟨-, rfl | enters⟩
      · exact noLoop rfl
      · cases skips.symm.trans enters
  · rintro obj rfl
    exact frame_called authentic here ran called
  · rintro c rfl
    rcases acting.gated c rfl with opens | auth
    · rcases opens_run opens ran n called with opens' | authed | auth
      · exact .inl opens'
      · right
        apply latestAuth_stays ran
        rcases authentic.sessions c with ⟨-, out⟩ | ⟨auth, -⟩
        · cases out.symm.trans authed
        · rw [auth]
          rintro ⟨⟩
      · exact .inr auth
    · exact .inr (latestAuth_stays ran auth)
  · intro name entrant
    exact named_of_entrant authentic acting ran called entrant
  · intro name proven
    exact proved_called acting ran called proven
  · rintro name rfl
    exact resumed_called authentic ran called

theorem acting_other {x : World × List Note} (acting : Acting st t' k' x)
    (here : k.runsOn t = true) (waits : Waits Above t k rest t' k')
    (ran : x.1.run st t.conn e k = some (w', new)) :
    Acting st t' k' (w', x.2 ++ noted st t e k x.1) := by
  obtain ⟨events, trace, -⟩ := trace_run ran
  refine ⟨?_, ?_, ?_, acting.named, ?_, ?_⟩
  · intro m about
    refine (acting.speaks m about).mono ?_ ran
    rintro c rfl
    exact quiet_of_waits here (facts_of_about about).1 waits
  · rintro obj rfl
    obtain ⟨c, rfl, frame, type, auth⟩ := acting.frame obj rfl
    refine ⟨c, rfl, ?_, type, latestAuth_stays ran auth⟩
    rcases latestFrame_noted x.2 c with same | ⟨mine, taken⟩
    · exact same.trans frame
    · have noLoop : Cmd.layer (.limit (.doMessage obj)) ≠ .loop := nofun
      exact absurd ⟨mine, .inl taken⟩ (quiet_of_waits here noLoop waits)
  · intro c client
    exact (acting.gated c client).imp_right (latestAuth_stays ran)
  · intro name proven
    rw [trace]
    exact (acting.proved name proven).mono
  · intro name installs
    exact (acting.resumed name installs).mono

/-! ## One step of the shared state -/

theorem Earned.mono {x : World × List Note} {event : Event} {events : List Event}
    {more : List Note} (earned : Earned st x event) (trace : w'.trace = x.1.trace ++ events) :
    Earned st (w', x.2 ++ more) event := by
  unfold Earned at earned ⊢
  split at earned
  · dsimp only
    rw [trace]
    exact earned.mono
  · exact earned.mono
  · trivial

theorem tokens_run {x : World × List Note} (authentic : Authentic st x)
    (acting : Acting st t k x) (ran : x.1.run st t.conn e k = some (w', new)) :
    ∀ entry ∈ w'.server.tokens.tokens.entries, validUsername entry.2.user = true ∧
      ∃ token, .issued entry.2.user token ∈ x.2 ++ noted st t e k x.1 ∧
        entry.1 = TokenBook.hashToken st.hashes token := by
  have old : ∀ entry ∈ x.1.server.tokens.tokens.entries, validUsername entry.2.user = true ∧
      ∃ token, .issued entry.2.user token ∈ x.2 ++ noted st t e k x.1 ∧
        entry.1 = TokenBook.hashToken st.hashes token := by
    intro entry there
    obtain ⟨valid, token, issued, key⟩ := authentic.tokens entry there
    exact ⟨valid, token, List.mem_append_left _ issued, key⟩
  have issues {name : Bytes} (entrant : k.entrant = some name)
      (notes : noted st t e k x.1 = [.issued name (issue st x.1.server e name).1]) :
      ∀ entry ∈ (issue st x.1.server e name).2.2.tokens.entries,
        validUsername entry.2.user = true ∧
        ∃ token, .issued entry.2.user token ∈ x.2 ++ noted st t e k x.1 ∧
          entry.1 = TokenBook.hashToken st.hashes token := by
    intro entry there
    rcases TokenBook.mem_issue there with rfl | there'
    · refine ⟨acting.named name entrant, (issue st x.1.server e name).1, ?_, rfl⟩
      simp [notes]
    · exact old entry there'
  cases k with
  | token k =>
      obtain ⟨rfl, -⟩ := Prod.mk.inj (Option.some.inj ran)
      cases k with
      | doAuth obj =>
          intro entry there
          apply old entry
          simp only [runToken, doAuth] at there
          split at there
          · exact there
          · split at there
            all_goals
              next result =>
                apply TokenBook.mem_validate
                rw [result]
                exact there
      | issueLogin name => exact issues rfl rfl
      | issueAuth name old => exact issues rfl rfl
  | db k | io k =>
      obtain ⟨r, -, result⟩ := Option.map_eq_some_iff.mp ran
      rw [← (Prod.mk.inj result).1]
      exact old
  | _ =>
      rw [← (Prod.mk.inj (Option.some.inj ran)).1]
      exact old

theorem sessions_run {x : World × List Note} (authentic : Authentic st x)
    (acting : Acting st t k x) (ran : x.1.run st t.conn e k = some (w', new)) (v : ConnId) :
    (latestAuth w'.trace v = none ∧ w'.server.sess.authed v = false) ∨
      (latestAuth w'.trace v = some (w'.server.sess.username v) ∧
        validUsername (w'.server.sess.username v) = true) := by
  cases k with
  | sess k =>
      obtain ⟨rfl, -⟩ := Prod.mk.inj (Option.some.inj ran)
      have installs {name : Bytes} {event : SessEvent} (entrant : Cmd.entrant (.sess k) = some name)
          (enters : ∀ v, (Event.sess event).authenticates v = if v = t.conn then some name else none) :
          (latestAuth (x.1.trace ++ [.sess event]) v = none ∧
            (install x.1.server t.conn name).authed v = false) ∨
          (latestAuth (x.1.trace ++ [.sess event]) v =
              some ((install x.1.server t.conn name).username v) ∧
            validUsername ((install x.1.server t.conn name).username v) = true) := by
        by_cases mine : v = t.conn
        · subst mine
          right
          simp only [install, Function.update_self]
          exact ⟨latest_concat (by simp [enters]), acting.named name entrant⟩
        · have same : latestAuth (x.1.trace ++ [.sess event]) v = latestAuth x.1.trace v :=
            latest_append_of_none (by simp [enters, mine])
          simpa [same, install, mine] using authentic.sessions v
      rcases runSess_cases st x.1.server t.conn e k with ⟨state, events⟩ |
        ⟨ip, port, arrival, rfl, state, events⟩ | ⟨name, token, exp, rfl, state, events⟩ |
        ⟨name, rfl, state, events⟩ | ⟨v', n, rfl, -, state, events⟩
      · have same : latestAuth (x.1.trace ++ (runSess st x.1.server t.conn e k).events.map .sess) v =
            latestAuth x.1.trace v := by
          apply latest_append_of_none
          intro event membership
          obtain ⟨event', there, rfl⟩ := List.mem_map.mp membership
          obtain ⟨user, seq, rfl⟩ := events event' there
          rfl
        dsimp only
        rw [same, state]
        exact authentic.sessions v
      · simpa only [state, events, List.map_nil, List.append_nil] using authentic.sessions v
      · simp only [state, events]
        exact installs rfl (fun v => by simp [Event.authenticates, eq_comm])
      · simp only [state, events]
        exact installs rfl (fun v => by simp [Event.authenticates, eq_comm])
      · have same : latestAuth (x.1.trace ++ [.sess (.dropped v')]) v = latestAuth x.1.trace v :=
          latest_append_of_none (by simp [Event.authenticates])
        simp only [state, events]
        rcases authentic.sessions v with ⟨missing, out⟩ | ⟨latest, valid⟩
        · left
          refine ⟨same.trans missing, ?_⟩
          simp only [Sessions.without, Function.update_apply, out]
          split <;> rfl
        · exact .inr ⟨same.trans latest, valid⟩
  | _ =>
      rw [sess_run ran (by simp)]
      rcases latestAuth_run ran v with same | ⟨-, -, user, -, ⟨token, exp, installs⟩ | installs⟩
      · rw [same]
        exact authentic.sessions v
      · cases installs
      · cases installs

theorem earned_run {x : World × List Note} (authentic : Authentic st x)
    (acting : Acting st t k x) (ran : x.1.run st t.conn e k = some (w', new)) :
    ∀ event ∈ w'.trace, Earned st (w', x.2 ++ noted st t e k x.1) event := by
  obtain ⟨events, trace, emitted, -⟩ := trace_run ran
  intro event membership
  rw [trace] at membership
  rcases List.mem_append.mp membership with old | fresh
  · exact (authentic.earned event old).mono trace
  · have by' := emitted event fresh
    unfold Earned
    split
    · obtain ⟨rfl, -, token, exp, rfl⟩ := by'
      dsimp only
      rw [trace]
      exact (acting.proved _ rfl).mono
    · obtain ⟨rfl, rfl⟩ := by'
      exact (acting.resumed _ rfl).mono
    · trivial

theorem within_run (within : w.server.db.Within) (ran : w.run st c e k = some (w', new)) :
    w'.server.db.Within ∧ ∀ row ∈ w'.server.db.messages.rows, row ∈ w.server.db.messages.rows ∨
      ∃ m, k.handled = some m ∧ row.2.sender = cStr m.sender := by
  rcases call_run ran with ⟨-, users, rooms, offline, db⟩ |
    ⟨m, row, state, p, events, call, advanced, -⟩
  · rw [db]
    exact ⟨within, fun _ there => .inl there⟩
  · obtain ⟨kept, rows⟩ := Database.within_advance within advanced
    refine ⟨kept, fun row' there => ?_⟩
    rcases rows row' there with old | ⟨new, -⟩
    · exact .inl old
    · obtain ⟨-, handled, -, -, shape⟩ := handled_of_call call
      refine .inr ⟨m, handled, ?_⟩
      rw [new]
      rcases shape with ⟨roomId, rfl⟩ | rfl <;> rfl

theorem authentic_run {x : World × List Note} (authentic : Authentic st x)
    (acting : Acting st t k x) (ran : x.1.run st t.conn e k = some (w', new)) :
    Authentic st (w', x.2 ++ noted st t e k x.1) where
  tokens := tokens_run authentic acting ran
  earned := earned_run authentic acting ran
  sessions := sessions_run authentic acting ran
  within := (within_run authentic.within ran).1

/-! ## Runs -/

variable {When : Config Thread Cmd (World × List Note) → Thread → Ext → Bool}
  {cfg cfg' : Config Thread Cmd (World × List Note)}

theorem authentic_start : Authentic st ((start st file b).noted []).shared := by
  obtain ⟨rooms, db⟩ := db_boot st file b
  refine ⟨?_, by simp [Config.noted, start], ?_, ?_⟩
  · intro entry there
    cases there
  · intro c
    exact .inl ⟨rfl, rfl⟩
  · simp [Config.noted, start, db, Database.Within, Database.reopen]

theorem acting_start : ∀ t, ∀ k ∈ (start st file b).stack t,
    Acting st t k ((start st file b).noted []).shared := by
  intro t k waiting
  have first : k.about = none ∧ k.entrant = none ∧ k.provenLogin = none ∧
      (∀ obj, k ≠ .limit (.doMessage obj)) ∧ (∀ name, k ≠ .sess (.installAuth name)) ∧
      (t.isClient = true → k.opens t.conn = true) := by
    cases t <;> obtain rfl := List.mem_singleton.mp waiting <;>
      refine ⟨rfl, rfl, rfl, ?_, ?_, by simp [Thread.isClient, Cmd.opens]⟩ <;> rintro _ ⟨⟩
  obtain ⟨about, entrant, proven, frame, installs, opens⟩ := first
  refine ⟨?_, fun obj starts => absurd starts (frame obj), ?_, ?_, ?_,
    fun name starts => absurd starts (installs name)⟩
  · simp [about]
  · rintro c rfl
    exact .inl (opens rfl)
  · simp [entrant]
  · simp [proven]

theorem acting_of_run (run : (recorded st).Reaches When ((start st file b).noted []) cfg) :
    Outlined Above (Authentic st) (Acting st) cfg := by
  refine run.outlined (respects st).recording ?_ ?_ ?_
  · refine ⟨authentic_start, ?_, acting_start⟩
    intro t
    cases t <;> exact List.pairwise_singleton ..
  · rintro cfg t e k rest ⟨w, notes⟩ new - outlined - stack ran
    obtain ⟨ran, rfl⟩ := Program.exec_recording.mp ran
    obtain ⟨here, ran⟩ := exec_eq_some_iff.mp ran
    have acting := outlined.pending t k (by simp [stack])
    exact ⟨authentic_run outlined.inv acting ran, acting_own outlined.inv acting here ran⟩
  · rintro cfg t e k rest ⟨w, notes⟩ new - - - - ran t' k' - waits acting
    obtain ⟨ran, rfl⟩ := Program.exec_recording.mp ran
    obtain ⟨here, ran⟩ := exec_eq_some_iff.mp ran
    exact acting_other acting here waits ran

/-- What a step of `t` may do: the logins so far are genuine, a row that is new belongs to
whom the thread speaks for, and before its first login it touches nothing. -/
structure Unforged (st : Startup) (t : Thread)
    (cfg cfg' : Config Thread Cmd (World × List Note)) : Prop where
  earned : ∀ event ∈ cfg.shared.1.trace, Earned st cfg.shared event
  messages : ∀ row ∈ cfg'.shared.1.server.db.messages.rows,
    row ∈ cfg.shared.1.server.db.messages.rows ∨ SpeaksFor t row.2.sender cfg.shared
  offline : ∀ row ∈ cfg'.shared.1.server.db.offline.rows,
    (∃ old ∈ cfg.shared.1.server.db.offline.rows, old.1 = row.1 ∧ old.2.sender = row.2.sender) ∨
      SpeaksFor t row.2.sender cfg.shared
  gated : ∀ c, t = .client c → latestAuth cfg.shared.1.trace c = none →
    Untouched cfg.shared.1.server cfg'.shared.1.server

/-- The name of a sender goes through SQLite unchanged. -/
theorem cStr_of_speaksFor {x : World × List Note} (authentic : Authentic st x)
    (speaks : SpeaksFor t user x) : cStr user = user := by
  obtain ⟨c, obj, -, -, -, auth⟩ := speaks
  rcases authentic.sessions c with ⟨missing, -⟩ | ⟨latest, valid⟩
  · cases missing.symm.trans auth
  · obtain rfl := Option.some.inj (latest.symm.trans auth)
    exact cStr_of_validName valid

/-- A row of `offline_messages` is an old one, delivered or not, or that of its message. -/
theorem offline_run (ran : w.run st c e k = some (w', new)) :
    ∀ row ∈ w'.server.db.offline.rows,
      (∃ old ∈ w.server.db.offline.rows, old.1 = row.1 ∧ old.2.sender = row.2.sender) ∨
        ∃ m, k.about = some m ∧ row.2.sender = cStr m.sender := by
  intro row there
  by_cases section' : ∃ k', k = .db k'
  · obtain ⟨k', rfl⟩ := section'
    obtain ⟨r, step, result⟩ := Option.map_eq_some_iff.mp ran
    obtain ⟨rfl, -⟩ := Prod.mk.inj result
    by_cases marks : ∃ name id rest since, k' = .markDelivered name id rest since
    · obtain ⟨name, id, rest, since, rfl⟩ := marks
      left
      rcases next_whenTxIdle step with rfl | ⟨n, rfl⟩
      · simp only [Database.markDelivered] at there
        split at there
        · obtain ⟨old, before, value⟩ := Table.mem_rows_update.mp there
          refine ⟨(row.1, old), before, rfl, ?_⟩
          rw [value]
          split <;> rfl
        · exact ⟨row, there, rfl, rfl⟩
      · exact ⟨row, there, rfl, rfl⟩
    · rcases offline_runDb step (fun name id rest since same =>
        marks ⟨name, id, rest, since, same⟩) with same | ⟨m, target, since, rfl, inserts⟩
      · dsimp only at there
        rw [same] at there
        exact .inl ⟨row, there, rfl, rfl⟩
      · dsimp only at there
        rw [inserts] at there
        rcases Table.mem_rows_insert.mp there with old | rfl
        · exact .inl ⟨row, old, rfl, rfl⟩
        · exact .inr ⟨m, rfl, rfl⟩
  · rw [db_run ran fun k' same => section' ⟨k', same⟩] at there
    exact .inl ⟨row, there, rfl, rfl⟩

/-- In every run no step forges a sender, and none acts before a login. -/
theorem unforged_of_run (run : (recorded st).Reaches When ((start st file b).noted []) cfg)
    (fired : (recorded st).fire t e cfg = some cfg') : Unforged st t cfg cfg' := by
  obtain ⟨authentic, -, pending⟩ := acting_of_run run
  obtain ⟨k, rest, x, new, stack, ran, rfl⟩ := Program.fire_eq_some_iff _ |>.mp fired
  obtain ⟨ran, -⟩ := Program.exec_recording.mp ran
  obtain ⟨here, ran⟩ := exec_eq_some_iff.mp ran
  have acting := pending t k (by simp [stack])
  have signs {m : ChatMsg} {sender : Bytes} (about : k.about = some m)
      (name : sender = cStr m.sender) : SpeaksFor t sender cfg.shared := by
    have speaks := acting.speaks m about
    rwa [name, cStr_of_speaksFor authentic speaks]
  refine ⟨authentic.earned, ?_, ?_, ?_⟩
  · intro row there
    rcases (within_run authentic.within ran).2 row there with old | ⟨m, handled, name⟩
    · exact .inl old
    · exact .inr (signs (about_of_handled handled) name)
  · intro row there
    rcases offline_run ran row there with old | ⟨m, about, name⟩
    · exact .inl old
    · exact .inr (signs about name)
  · rintro c rfl missing
    rcases acting.gated c rfl with opens | auth
    · rcases authentic.sessions c with ⟨-, out⟩ | ⟨latest, -⟩
      · exact untouched_run opens out ran
      · cases missing.symm.trans latest
    · exact absurd missing auth

/-- Alice is logged in on connection 1, and the row of her message is inserted. -/
theorem unforged_of_run_alice : ∃ cfg cfg', (recorded Demo.startup).Reaches Program.always
      ((start Demo.startup Demo.file {}).noted []) cfg ∧
    (recorded Demo.startup).fire (.client 1) {} cfg = some cfg' ∧
    Unforged Demo.startup (.client 1) cfg cfg' ∧
    (cfg.shared.1.server.db.messages.rows = [] ∧ ∃ row ∈ cfg'.shared.1.server.db.messages.rows,
      row.2.sender = bytes "alice") := by
  obtain ⟨plain, run, ready⟩ := Program.exists_reaches_of_play (server Demo.startup) Program.always
    (Demo.joining ++ Demo.steps (.client 1) 10 ++ Demo.speaks "ALL" 1 5)
    (start Demo.startup Demo.file {})
    (fun cfg => cfg.shared.server.db.messages.rows = [] ∧
      ((server Demo.startup).fire (.client 1) {} cfg).any fun cfg' =>
        cfg'.shared.server.db.messages.rows.any fun row => row.2.sender = bytes "alice")
    (by decide +kernel)
  obtain ⟨notes, recorded⟩ := run.recorded (noted Demo.startup) []
  obtain ⟨empty, moves⟩ := of_decide_eq_true ready
  obtain ⟨plain', fired, inserted⟩ := (Option.any_eq_true _ _).mp moves
  obtain ⟨more, fired⟩ := Program.fire_recorded (noted Demo.startup) notes fired
  obtain ⟨row, there, sender⟩ := List.any_eq_true.mp inserted
  refine ⟨_, _, recorded, fired, unforged_of_run recorded fired, empty, row, there, ?_⟩
  exact of_decide_eq_true sender

end OnlineChat
