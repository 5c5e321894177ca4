import OnlineChat.Server.Passages

/-!
# Where a session comes from

Nobody acts under a name before the server has checked a proof for that name.  A session
that is resumed goes back, from token to token, to a login with a proof: the table of tokens
is empty when the server starts.
-/

namespace OnlineChat

open Library PwdHash ChatServer

variable {st : Startup} {s : ChatServer} {c v : ConnId} {e : Ext} {w w' : World} {t t' : Thread}
  {k k' n : Cmd} {rest new : List Cmd} {File : Type} {file : Database File} {b : BootExt}
  {user name : Bytes} {trace events : List Event}

/-! ## Acting under a name -/

/-- The user under whose name an event happens. -/
def Event.actsAs : Event → Option Bytes
  | .sess (.loggedIn _ user _) | .sess (.resumed _ user) | .sess (.fanOut user _)
  | .db (.inserted user _) | .db (.pushStarted _ user _)
  | .io (.acked _ user _) | .io (.refused user _) | .io (.relayed _ user _)
  | .admitted _ user _ => some user
  | _ => none

/-- A challenge for the user was taken, and the proof that came with it was the one of the
key in the row of the user. -/
def Vouched (st : Startup) (user : Bytes) (trace : List Event) : Prop :=
  ∃ c nonceHex keyHex now, .own (.taken c false user nonceHex now) ∈ trace ∧
    .db (.compared c user nonceHex keyHex
      (challengeProof st.hashes keyHex (bytes "LOGIN") user nonceHex) true) ∈ trace

theorem Vouched.mono (vouched : Vouched st user trace) : Vouched st user (trace ++ events) := by
  obtain ⟨c, nonceHex, keyHex, now, taken, compared⟩ := vouched
  exact ⟨c, nonceHex, keyHex, now, List.mem_append_left _ taken, List.mem_append_left _ compared⟩

/-- Whoever acts has been vouched for by then. -/
def Accountable (st : Startup) (trace : List Event) : Prop :=
  Lawful (fun past x => ∀ user, x.actsAs = some user → Vouched st user past) trace

/-! ## What is known while a command waits -/

/-- The name whose session a command prepares or starts, once it has been let in. -/
def Cmd.admits : Cmd → Option Bytes
  | .sess (.checkLogin name) | .token (.issueLogin name) | .sess (.installLogin name _ _)
  | .sess (.installAuth name) | .token (.issueAuth name _) | .router (.finishAuth name _ _ _)
  | .db (.pushOffline name) => some name
  | _ => none

/-- The command works for the user of its connection. -/
def Cmd.serves : Cmd → Bool
  | .limit (.doMessage _) | .io (.sendAck _) => true
  | k => k.about.isSome

structure Warranted (st : Startup) (t : Thread) (k : Cmd) (w : World) : Prop where
  taken : ∀ name proof nonceHex, k = .db (.findLogin name proof nonceHex) →
    ∃ now, .own (.taken t.conn false name nonceHex now) ∈ w.trace
  admits : ∀ name, k.admits = some name → Vouched st name w.trace
  sender : ∀ m, k.about = some m → Vouched st m.sender w.trace
  serves : k.serves = true → Vouched st (w.server.sess.username t.conn) w.trace

/-- The invariant of the trace, the tokens and the sessions. -/
structure Rooted (st : Startup) (w : World) : Prop where
  trace : Accountable st w.trace
  tokens : ∀ entry ∈ w.server.tokens.tokens.entries, Vouched st entry.2.user w.trace
  online : ∀ user c, w.server.sess.online user = some c → Vouched st user w.trace
  authed : ∀ c, w.server.sess.authed c = true → Vouched st (w.server.sess.username c) w.trace

/-! ## The names of the connections -/

/-- A step gives a connection no name but one that has been let in. -/
theorem username_step (warranted : Warranted st t k w) (ran : w.run st t.conn e k = some (w', new))
    (v : ConnId) : w'.server.sess.username v = w.server.sess.username v ∨
      Vouched st (w'.server.sess.username v) w.trace := by
  cases k with
  | sess k =>
      obtain ⟨rfl, -⟩ := Prod.mk.inj (Option.some.inj ran)
      have installs {name : Bytes} (admits : Cmd.admits (.sess k) = some name) :
          (install w.server t.conn name).username v = w.server.sess.username v ∨
            Vouched st ((install w.server t.conn name).username v) w.trace := by
        by_cases mine : v = t.conn
        · subst mine
          right
          simpa only [install, Function.update_self] using warranted.admits name admits
        · exact .inl (Function.update_of_ne mine ..)
      rcases runSess_cases st w.server t.conn e k with ⟨state, -⟩ |
        ⟨ip, port, arrival, rfl, state, -⟩ | ⟨name, token, exp, rfl, state, -⟩ |
        ⟨name, rfl, state, -⟩ | ⟨v', n, rfl, -, state, -⟩
      · exact .inl (by rw [state])
      · exact .inl (by rw [state])
      · rw [state]
        exact installs rfl
      · rw [state]
        exact installs rfl
      · exact .inl (by rw [state]; rfl)
  | _ => exact .inl (by rw [sess_run ran (by simp)])

/-- Who is vouched for stays so, whatever name the connection has by then. -/
theorem vouched_username (warranted : Warranted st t k w) (ran : w.run st t.conn e k = some (w', new))
    (vouched : Vouched st (w.server.sess.username v) w.trace) :
    Vouched st (w'.server.sess.username v) w'.trace := by
  obtain ⟨events, trace, -⟩ := trace_run ran
  rw [trace]
  rcases username_step warranted ran v with same | installed
  · rw [same]
    exact vouched.mono
  · exact installed.mono

/-! ## What a command leaves -/

/-- The proof that lets a login in is that of the key in the row. -/
theorem compared_of_findLogin {proof nonceHex : Bytes}
    (called : .sess (.checkLogin name) ∈ (findLogin st s c e name proof nonceHex).next) :
    ∃ keyHex, (findLogin st s c e name proof nonceHex).events =
      [.compared c name nonceHex keyHex
        (challengeProof st.hashes keyHex (bytes "LOGIN") name nonceHex) true] := by
  simp only [findLogin] at called ⊢
  split at called
  next => simp [sendErr] at called
  next row found =>
    split at called
    next => simp [sendErr] at called
    next key =>
      split at called
      next passed =>
        have same := constantTimeEq_iff.mp passed
        exact ⟨keyOf st name row, by simp [key, passed, same]⟩
      next => simp [sendErr] at called

theorem admits_called (rooted : Rooted st w) (warranted : Warranted st t k w)
    (ran : w.run st t.conn e k = some (w', new)) (called : n ∈ new)
    (admits : n.admits = some name) : Vouched st name w'.trace := by
  obtain ⟨events, trace, -⟩ := trace_run ran
  have kept {name : Bytes} (before : k.admits = some name) : Vouched st name w'.trace := by
    rw [trace]
    exact (warranted.admits name before).mono
  have by' := calledBy_run ran n called
  have follows := (leads_run ran).1 n called
  unfold Cmd.admits at admits
  split at admits
  all_goals cases admits
  · -- the comparison itself
    obtain ⟨proof, nonceHex, rfl⟩ := by'
    obtain ⟨now, taken⟩ := warranted.taken name proof nonceHex rfl
    obtain ⟨rfl, rfl⟩ := Prod.mk.inj (Option.some.inj ran)
    obtain ⟨keyHex, event⟩ := compared_of_findLogin called
    refine ⟨t.conn, nonceHex, keyHex, now, List.mem_append_left _ taken, ?_⟩
    apply List.mem_append_right
    simp [event]
  · obtain ⟨rfl, -⟩ := by'
    exact kept rfl
  · obtain rfl := by'
    exact kept rfl
  · -- a token of the table was issued to the user
    obtain ⟨obj, rfl, out⟩ := by'
    obtain ⟨rfl, rfl⟩ := Prod.mk.inj (Option.some.inj ran)
    obtain ⟨exp, there⟩ := TokenBook.entry_of_validate (valid_of_doAuth out called)
    exact rooted.tokens _ there
  · obtain rfl := by'
    exact kept rfl
  · rcases follows with rfl | rfl
    · exact kept rfl
    · exact kept rfl
  · obtain ⟨token, exp, old, rfl⟩ := follows
    exact kept rfl

theorem sender_called (warranted : Warranted st t k w) (ran : w.run st t.conn e k = some (w', new))
    (called : n ∈ new) {m : ChatMsg} (about : n.about = some m) :
    Vouched st m.sender w'.trace := by
  obtain ⟨events, trace, -⟩ := trace_run ran
  rw [trace]
  rcases about_called (calledBy_run ran n called) about with ⟨obj, rfl, sender⟩ | about'
  · rw [sender]
    exact (warranted.serves rfl).mono
  · exact (warranted.sender m about').mono

theorem serves_of_about {m : ChatMsg} (about : k.about = some m) : k.serves = true := by
  unfold Cmd.serves
  split
  · rfl
  · rfl
  · rw [about]
    rfl

theorem serves_called (rooted : Rooted st w) (warranted : Warranted st t k w)
    (ran : w.run st t.conn e k = some (w', new)) (called : n ∈ new) (serves : n.serves = true) :
    Vouched st (w'.server.sess.username t.conn) w'.trace := by
  have by' := calledBy_run ran n called
  apply vouched_username warranted ran
  unfold Cmd.serves at serves
  split at serves
  · obtain ⟨rfl, authed, -⟩ := by'
    exact rooted.authed t.conn authed
  · apply warranted.serves
    rcases by' with ⟨m, rfl, -⟩ | ⟨m, room, roomId, state, db, id, rfl, -⟩ |
      ⟨m, state, db, id, rfl, -⟩ <;> rfl
  · obtain ⟨m, about⟩ := Option.isSome_iff_exists.mp serves
    apply warranted.serves
    rcases about_called by' about with ⟨obj, rfl, -⟩ | about'
    · rfl
    · exact serves_of_about about'

theorem taken_called (ran : w.run st t.conn e k = some (w', new)) {proof nonceHex : Bytes}
    (called : .db (.findLogin name proof nonceHex) ∈ new) :
    ∃ now, .own (.taken t.conn false name nonceHex now) ∈ w'.trace := by
  obtain ⟨obj, ch, rfl, -, -, -, -, events⟩ := calledBy_run ran _ called
  obtain ⟨rfl, -⟩ := Prod.mk.inj (Option.some.inj ran)
  refine ⟨e.clock 0, List.mem_append_right _ ?_⟩
  simp [runOwn, events]

theorem warranted_own (rooted : Rooted st w) (warranted : Warranted st t k w)
    (ran : w.run st t.conn e k = some (w', new)) : ∀ n ∈ new, Warranted st t n w' := by
  intro n called
  refine ⟨?_, ?_, ?_, ?_⟩
  · rintro name proof nonceHex rfl
    exact taken_called ran called
  · intro name admits
    exact admits_called rooted warranted ran called admits
  · intro m about
    exact sender_called warranted ran called about
  · intro serves
    exact serves_called rooted warranted ran called serves

theorem warranted_other (waiting : Warranted st t' k' w) (warranted : Warranted st t k w)
    (ran : w.run st t.conn e k = some (w', new)) : Warranted st t' k' w' := by
  obtain ⟨events, trace, -⟩ := trace_run ran
  refine ⟨?_, ?_, ?_, ?_⟩
  · intro name proof nonceHex enters
    obtain ⟨now, taken⟩ := waiting.taken name proof nonceHex enters
    exact ⟨now, trace ▸ List.mem_append_left _ taken⟩
  · intro name admits
    rw [trace]
    exact (waiting.admits name admits).mono
  · intro m about
    rw [trace]
    exact (waiting.sender m about).mono
  · intro serves
    exact vouched_username warranted ran (waiting.serves serves)

/-! ## One step of the shared state -/

/-- Who acts in a step has been vouched for before it. -/
theorem vouched_of_emitted {x : Event} (warranted : Warranted st t k w)
    (emitted : EmittedBy w.server t.conn k x) (acts : x.actsAs = some user) :
    Vouched st user w.trace := by
  unfold Event.actsAs at acts
  split at acts
  all_goals cases acts
  · obtain ⟨-, -, token, exp, rfl⟩ := emitted
    exact warranted.admits user rfl
  · obtain ⟨-, rfl⟩ := emitted
    exact warranted.admits user rfl
  · obtain ⟨m, rfl, -, ⟨room, names, rfl⟩ | rfl⟩ := emitted
    · exact warranted.sender m rfl
    · exact warranted.sender m rfl
  · obtain ⟨m, since, rfl, -, ⟨room, roomId, rfl⟩ | rfl⟩ := emitted
    · exact warranted.sender m rfl
    · exact warranted.sender m rfl
  · obtain ⟨-, rfl⟩ := emitted
    exact warranted.admits user rfl
  · obtain ⟨-, rfl, rfl⟩ := emitted
    exact warranted.serves rfl
  · obtain ⟨m, reason, rfl, -, rfl⟩ := emitted
    exact warranted.sender m rfl
  · obtain ⟨m, rfl, -, rfl | ⟨room, rest, rfl⟩⟩ := emitted
    · exact warranted.sender m rfl
    · exact warranted.sender m rfl
  · obtain ⟨-, -, m, rfl, -, rfl⟩ := emitted
    exact warranted.sender m rfl

theorem accountable_run (rooted : Rooted st w) (warranted : Warranted st t k w)
    (ran : w.run st t.conn e k = some (w', new)) : Accountable st w'.trace := by
  obtain ⟨events, trace, emitted, -⟩ := trace_run ran
  rw [trace]
  apply Lawful.append rooted.trace
  rintro past x later rfl user acts
  have event : x ∈ past ++ x :: later := List.mem_append_right _ (List.mem_cons_self ..)
  exact (vouched_of_emitted warranted (emitted x event) acts).mono

/-- The table of tokens knows only who has been let in. -/
theorem vouched_tokens_run (rooted : Rooted st w) (warranted : Warranted st t k w)
    (ran : w.run st t.conn e k = some (w', new)) :
    ∀ entry ∈ w'.server.tokens.tokens.entries, Vouched st entry.2.user w'.trace := by
  obtain ⟨events, trace, -⟩ := trace_run ran
  suffices before : ∀ entry ∈ w'.server.tokens.tokens.entries, Vouched st entry.2.user w.trace by
    intro entry there
    rw [trace]
    exact (before entry there).mono
  have issues {name : Bytes} (admits : k.admits = some name) :
      ∀ entry ∈ (issue st w.server e name).2.2.tokens.entries, Vouched st entry.2.user w.trace := by
    intro entry there
    rcases TokenBook.mem_issue there with rfl | there'
    · exact warranted.admits name admits
    · exact rooted.tokens entry there'
  cases k with
  | token k =>
      obtain ⟨rfl, -⟩ := Prod.mk.inj (Option.some.inj ran)
      cases k with
      | doAuth obj =>
          intro entry there
          apply rooted.tokens entry
          simp only [runToken, doAuth] at there
          split at there
          · exact there
          · split at there
            all_goals
              next result =>
                apply TokenBook.mem_validate
                rw [result]
                exact there
      | issueLogin name => exact issues rfl
      | issueAuth name old => exact issues rfl
  | db k | io k =>
      obtain ⟨r, -, result⟩ := Option.map_eq_some_iff.mp ran
      rw [← (Prod.mk.inj result).1]
      exact rooted.tokens
  | _ =>
      rw [← (Prod.mk.inj (Option.some.inj ran)).1]
      exact rooted.tokens

/-- Only who has been let in gets online. -/
theorem online_step (warranted : Warranted st t k w) (ran : w.run st t.conn e k = some (w', new))
    {v : ConnId} (online : w'.server.sess.online user = some v) :
    w.server.sess.online user = some v ∨ Vouched st user w.trace := by
  cases k with
  | sess k =>
      obtain ⟨rfl, -⟩ := Prod.mk.inj (Option.some.inj ran)
      have installs {name : Bytes} (admits : Cmd.admits (.sess k) = some name)
          (online : (install w.server t.conn name).online user = some v) :
          w.server.sess.online user = some v ∨ Vouched st user w.trace := by
        by_cases mine : user = name
        · subst mine
          exact .inr (warranted.admits user admits)
        · simp only [install, Function.update_of_ne mine] at online
          exact .inl online
      rcases runSess_cases st w.server t.conn e k with ⟨state, -⟩ |
        ⟨ip, port, arrival, rfl, state, -⟩ | ⟨name, token, exp, rfl, state, -⟩ |
        ⟨name, rfl, state, -⟩ | ⟨v', n, rfl, -, state, -⟩
      · exact .inl (by rwa [state] at online)
      · exact .inl (by rwa [state] at online)
      · rw [state] at online
        exact installs rfl online
      · rw [state] at online
        exact installs rfl online
      · left
        rw [state] at online
        simp only [Sessions.without] at online
        split at online
        · rw [Function.update_apply] at online
          split at online
          · cases online
          · exact online
        · exact online
  | _ =>
      left
      rwa [sess_run ran (by simp)] at online

/-- Only who has been let in is authenticated. -/
theorem authed_step (rooted : Rooted st w) (warranted : Warranted st t k w)
    (ran : w.run st t.conn e k = some (w', new)) (authed : w'.server.sess.authed v = true) :
    Vouched st (w'.server.sess.username v) w'.trace := by
  by_cases before : w.server.sess.authed v = true
  · exact vouched_username warranted ran (rooted.authed v before)
  · obtain ⟨events, trace, -⟩ := trace_run ran
    rw [trace]
    apply Vouched.mono
    cases k with
    | sess k =>
        obtain ⟨rfl, -⟩ := Prod.mk.inj (Option.some.inj ran)
        have installs {name : Bytes} (admits : Cmd.admits (.sess k) = some name)
            (authed : (install w.server t.conn name).authed v = true) :
            Vouched st ((install w.server t.conn name).username v) w.trace := by
          by_cases mine : v = t.conn
          · subst mine
            simpa only [install, Function.update_self] using warranted.admits name admits
          · simp only [install, Function.update_of_ne mine] at authed
            exact absurd authed before
        rcases runSess_cases st w.server t.conn e k with ⟨state, -⟩ |
          ⟨ip, port, arrival, rfl, state, -⟩ | ⟨name, token, exp, rfl, state, -⟩ |
          ⟨name, rfl, state, -⟩ | ⟨v', n, rfl, -, state, -⟩
        · exact absurd (by rwa [state] at authed) before
        · exact absurd (by rwa [state] at authed) before
        · rw [state] at authed ⊢
          exact installs rfl authed
        · rw [state] at authed ⊢
          exact installs rfl authed
        · rw [state] at authed
          simp only [Sessions.without, Function.update_apply] at authed
          split at authed
          · cases authed
          · exact absurd authed before
    | _ =>
        rw [sess_run ran (by simp)] at authed
        exact absurd authed before

theorem rooted_run (rooted : Rooted st w) (warranted : Warranted st t k w)
    (ran : w.run st t.conn e k = some (w', new)) : Rooted st w' where
  trace := accountable_run rooted warranted ran
  tokens := vouched_tokens_run rooted warranted ran
  online := by
    intro user v online
    obtain ⟨events, trace, -⟩ := trace_run ran
    rw [trace]
    rcases online_step warranted ran online with before | vouched
    · exact (rooted.online user v before).mono
    · exact vouched.mono
  authed := fun v authed => authed_step rooted warranted ran authed

/-! ## Runs -/

variable {When : Config Thread Cmd World → Thread → Ext → Bool} {cfg : Config Thread Cmd World}

theorem rooted_start : Rooted st (start st file b).shared := by
  refine ⟨lawful_nil, ?_, ?_, ?_⟩
  · intro entry there
    cases there
  · rintro user c ⟨⟩
  · rintro c ⟨⟩

theorem warranted_start (t : Thread) : ∀ k ∈ (start st file b).stack t,
    Warranted st t k (start st file b).shared := by
  intro k waiting
  have first : k.about = none ∧ k.admits = none ∧ k.serves = false ∧
      ∀ name proof nonceHex, k ≠ .db (.findLogin name proof nonceHex) := by
    cases t <;> obtain rfl := List.mem_singleton.mp waiting <;> refine ⟨rfl, rfl, rfl, ?_⟩ <;>
      rintro _ _ _ ⟨⟩
  obtain ⟨about, admits, serves, login⟩ := first
  refine ⟨fun name proof nonceHex enters => absurd enters (login name proof nonceHex), ?_, ?_, ?_⟩
  · intro name some'
    cases admits.symm.trans some'
  · intro m some'
    cases about.symm.trans some'
  · intro true'
    cases serves.symm.trans true'

/-- In every run whoever acts under a name, is online under it or is authenticated with it
has been vouched for since the server was started. -/
theorem vouched_of_run (run : (server st).Reaches When (start st file b) cfg) :
    Accountable st cfg.shared.trace ∧
      (∀ user c, cfg.shared.server.sess.online user = some c →
        Vouched st user cfg.shared.trace) ∧
      ∀ c, cfg.shared.server.sess.authed c = true →
        Vouched st (cfg.shared.server.sess.username c) cfg.shared.trace := by
  suffices invariant : Rooted st cfg.shared ∧ ∀ t, ∀ k ∈ cfg.stack t, Warranted st t k cfg.shared from
    ⟨invariant.1.trace, invariant.1.online, invariant.1.authed⟩
  apply run.invariant
  · exact ⟨rooted_start, warranted_start⟩
  · intro cfg t e k rest s new _ holds _ stack ran
    obtain ⟨rooted, pending⟩ := holds
    obtain ⟨-, ran⟩ := exec_eq_some_iff.mp ran
    have warranted := pending t k (by simp [stack])
    refine ⟨rooted_run rooted warranted ran, ?_⟩
    intro t' k' waiting
    by_cases own : t' = t
    · subst own
      dsimp only at waiting
      rw [Function.update_self] at waiting
      rcases List.mem_append.mp waiting with fresh | below
      · exact warranted_own rooted warranted ran k' fresh
      · exact warranted_other (pending t' k' (by simp [stack, below])) warranted ran
    · dsimp only at waiting
      rw [Function.update_of_ne own] at waiting
      exact warranted_other (pending t' k' waiting) warranted ran

/-- Alice logs in with her key and is online on connection 1. -/
theorem vouched_of_run_alice : ∃ cfg, (server Demo.startup).Reaches Program.always
      (start Demo.startup Demo.file {}) cfg ∧
    Accountable Demo.startup cfg.shared.trace ∧
    cfg.shared.server.sess.online (bytes "alice") = some 1 ∧
    Vouched Demo.startup (bytes "alice") cfg.shared.trace := by
  obtain ⟨cfg, run, online⟩ := Program.exists_reaches_of_play (server Demo.startup) Program.always
    Demo.joining (start Demo.startup Demo.file {})
    (fun cfg => decide (cfg.shared.server.sess.online (bytes "alice") = some 1))
    (by decide +kernel)
  have here := of_decide_eq_true online
  obtain ⟨accountable, vouched, -⟩ := vouched_of_run run
  exact ⟨cfg, run, accountable, here, vouched _ _ here⟩

end OnlineChat
