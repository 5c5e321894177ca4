import OnlineChat.Server.Accounts
import OnlineChat.Server.Sessions

/-!
# Challenges

No nonce is compared twice, and a login passes the proof check only with the proof of the
registered key for the challenge that its own connection holds.
-/

namespace OnlineChat

open Library ChatServer PwdHash

variable {st : Startup} {c : ConnId} {e : Ext} {w w' : World} {t t' : Thread} {k k' : Cmd}
  {rest new : List Cmd} {File : Type} {file : Database File} {b : BootExt}
  {cfg : Config Thread Cmd World} {trace events : List Event}

/-! ## The nonces of a trace -/

/-- The nonce that an event issues, and the connection on which it does. -/
def Event.issues : Event → Option (ConnId × Bytes)
  | .own (.issued c _ _ nonceHex _) => some (c, nonceHex)
  | _ => none

/-- The nonce of the challenge that an event takes out of its slot. -/
def Event.takes : Event → Option Bytes
  | .own (.taken _ _ _ nonceHex _) => some nonceHex
  | _ => none

/-- The nonce of the `challenge_proof` with which an event compares. -/
def Event.compares : Event → Option Bytes
  | .own (.compared _ _ nonceHex) | .db (.compared _ _ nonceHex _ _ _) => some nonceHex
  | _ => none

/-- `random_hex` does not repeat: a fresh nonce is none of those issued before. -/
def neverRepeats (cfg : Config Thread Cmd World) (t : Thread) (e : Ext) : Bool :=
  match cfg.stack t with
  | .own (.sendChallenge _ _ _) :: _ =>
      e.randomHex 1 32 ∉ (cfg.shared.trace.filterMap Event.issues).map Prod.snd
  | _ => true

/-- The latest challenge that was issued on `c`. -/
def LatestChallenge (c : ConnId) (isRegister : Bool) (user nonceHex : Bytes) (time : Int)
    (trace : List Event) : Prop :=
  ∃ past later, trace = past ++ .own (.issued c isRegister user nonceHex time) :: later ∧
    ∀ event ∈ later, ∀ nonceHex', event.issues ≠ some (c, nonceHex')

theorem LatestChallenge.append {isRegister : Bool} {user nonceHex : Bytes} {time : Int}
    (latest : LatestChallenge c isRegister user nonceHex time trace)
    (others : ∀ event ∈ events, ∀ nonceHex', event.issues ≠ some (c, nonceHex')) :
    LatestChallenge c isRegister user nonceHex time (trace ++ events) := by
  obtain ⟨past, later, rfl, none⟩ := latest
  refine ⟨past, later ++ events, by simp, ?_⟩
  intro event membership
  rcases List.mem_append.mp membership with old | new
  · exact none event old
  · exact others event new

theorem LatestChallenge.mem {isRegister : Bool} {user nonceHex : Bytes} {time : Int}
    (latest : LatestChallenge c isRegister user nonceHex time trace) :
    (c, nonceHex) ∈ trace.filterMap Event.issues := by
  obtain ⟨past, later, rfl, -⟩ := latest
  simp [Event.issues]

/-! ## The law -/

/-- A login passes the proof check with the challenge that was the latest on its
connection, was issued for that user by `LOGIN_HELLO` and is not older than 60 seconds,
and with the proof of the registered key for it, which is no other proof. -/
def PassedLogin (st : Startup) (past : List Event) : Event → Prop
  | .db (.compared c user nonceHex keyHex proof true) =>
      (∃ time now, LatestChallenge c false user nonceHex time past ∧
        .own (.taken c false user nonceHex now) ∈ past ∧ now ≤ time + 60000) ∧
      proof = challengeProof st.hashes keyHex (bytes "LOGIN") user nonceHex ∧
      (∀ keyHex' saltHex, .db (.registered user keyHex' saltHex) ∈ past → keyHex' = keyHex) ∧
      ∀ keyHex' op user' nonceHex', (op = bytes "LOGIN" ∨ op = bytes "REGISTER") →
        proof = challengeProof st.hashes keyHex' op user' nonceHex' →
        keyHex' = keyHex ∧ op = bytes "LOGIN" ∧ user' = user ∧ nonceHex' = nonceHex
  | _ => True

/-- The rules of the challenges: each nonce is compared at most once, every login that
passed obeyed the law, and what it compared with was the key in the row of the user. -/
structure ChallengeRules (st : Startup) (w : World) : Prop where
  once : (w.trace.filterMap Event.compares).Nodup
  passed : Lawful (PassedLogin st) w.trace
  keyed : ∀ c user nonceHex keyHex proof passed,
    .db (.compared c user nonceHex keyHex proof passed) ∈ w.trace →
    ∃ row, w.server.db.userRow user = some row ∧ keyOf st user row = keyHex

/-! ## The slots -/

/-- Nonces are fresh when they are issued and pass from the slot to the comparison. -/
structure NonceLog (w : World) : Prop where
  fresh : ((w.trace.filterMap Event.issues).map Prod.snd).Nodup
  taken : ∀ nonceHex ∈ w.trace.filterMap Event.takes,
    ∃ c, (c, nonceHex) ∈ w.trace.filterMap Event.issues
  compared : ∀ nonceHex ∈ w.trace.filterMap Event.compares,
    nonceHex ∈ w.trace.filterMap Event.takes
  once : (w.trace.filterMap Event.compares).Nodup
  slot : ∀ c, (w.server.clients c).chal.active = true →
    LatestChallenge c (w.server.clients c).chal.isRegister (w.server.clients c).chal.user
      (w.server.clients c).chal.nonceHex ((w.server.clients c).chal.expMs - kChallengeTtlMs)
      w.trace ∧
    (w.server.clients c).chal.nonceHex ∉ w.trace.filterMap Event.takes

/-- The proof check of a login is about to be made, with a nonce that was taken out of
the slot and not compared yet. -/
def Proving (t : Thread) (k : Cmd) (w : World) : Prop :=
  ∀ user proof nonceHex, k = .db (.findLogin user proof nonceHex) →
    (∃ time now, LatestChallenge t.conn false user nonceHex time w.trace ∧
      .own (.taken t.conn false user nonceHex now) ∈ w.trace ∧ now ≤ time + 60000) ∧
    nonceHex ∉ w.trace.filterMap Event.compares ∧ proof.length = 64

/-- A nonce belongs to one connection. -/
theorem NonceLog.conn_unique (log : NonceLog w) {c c' : ConnId} {nonceHex : Bytes}
    (issued : (c, nonceHex) ∈ w.trace.filterMap Event.issues)
    (issued' : (c', nonceHex) ∈ w.trace.filterMap Event.issues) : c = c' :=
  (Prod.mk.inj (List.inj_on_of_nodup_map log.fresh issued issued' rfl)).1

/-- Events without nonces change nothing. -/
theorem NonceLog.congr (log : NonceLog w) (clients : w'.server.clients = w.server.clients)
    (trace : w'.trace = w.trace ++ events)
    (none : ∀ event ∈ events, event.issues = none ∧ event.takes = none ∧ event.compares = none) :
    NonceLog w' := by
  have issues : events.filterMap Event.issues = [] :=
    List.filterMap_eq_nil_iff.mpr fun event membership => (none event membership).1
  have takes : events.filterMap Event.takes = [] :=
    List.filterMap_eq_nil_iff.mpr fun event membership => (none event membership).2.1
  have compares : events.filterMap Event.compares = [] :=
    List.filterMap_eq_nil_iff.mpr fun event membership => (none event membership).2.2
  refine ⟨?_, ?_, ?_, ?_, ?_⟩
  all_goals simp only [trace, clients, List.filterMap_append, issues, takes, compares,
    List.append_nil]
  · exact log.fresh
  · exact log.taken
  · exact log.compared
  · exact log.once
  · intro c active
    obtain ⟨latest, open_⟩ := log.slot c active
    refine ⟨latest.append ?_, open_⟩
    intro event membership nonceHex'
    simp [(none event membership).1]

/-- A slot may be left as it is or emptied at any time. -/
theorem NonceLog.clear (log : NonceLog w) (trace : w'.trace = w.trace)
    (clients : ∀ v, (w'.server.clients v).chal = (w.server.clients v).chal ∨
      (w'.server.clients v).chal.active = false) : NonceLog w' := by
  refine ⟨?_, ?_, ?_, ?_, ?_⟩
  all_goals rw [trace]
  · exact log.fresh
  · exact log.taken
  · exact log.compared
  · exact log.once
  · intro v active
    rcases clients v with same | empty
    · rw [same] at active ⊢
      exact log.slot v active
    · simp [empty] at active

theorem NonceLog.issue (log : NonceLog w) {isRegister : Bool} {user saltHex nonceHex : Bytes}
    {time : Int} (fresh : nonceHex ∉ (w.trace.filterMap Event.issues).map Prod.snd)
    (trace : w'.trace = w.trace ++ [.own (.issued c isRegister user nonceHex time)])
    (mine : (w'.server.clients c).chal =
      { active := true, isRegister, user, saltHex, nonceHex, expMs := time + kChallengeTtlMs })
    (others : ∀ v, v ≠ c → (w'.server.clients v).chal = (w.server.clients v).chal) :
    NonceLog w' := by
  refine ⟨?_, ?_, ?_, ?_, ?_⟩
  all_goals simp only [trace, List.filterMap_append, List.filterMap_cons, List.filterMap_nil,
    Event.issues, Event.takes, Event.compares, List.append_nil]
  · rw [List.map_append, List.nodup_append_comm]
    exact List.nodup_cons.mpr ⟨fresh, log.fresh⟩
  · intro nonceHex' taken
    obtain ⟨c', issued⟩ := log.taken nonceHex' taken
    exact ⟨c', List.mem_append_left _ issued⟩
  · exact log.compared
  · exact log.once
  · intro v active
    by_cases own : v = c
    · subst own
      simp only [mine, Int.add_sub_cancel]
      refine ⟨⟨w.trace, [], rfl, by simp⟩, ?_⟩
      intro taken
      obtain ⟨c', issued⟩ := log.taken nonceHex taken
      exact fresh (List.mem_map.mpr ⟨_, issued, rfl⟩)
    · rw [others v own] at active ⊢
      obtain ⟨latest, untaken⟩ := log.slot v active
      refine ⟨latest.append ?_, untaken⟩
      simp [Event.issues, Ne.symm own]

theorem NonceLog.take (log : NonceLog w) {isRegister : Bool} {user : Bytes} {now : Int}
    (active : (w.server.clients c).chal.active = true)
    (trace : w'.trace = w.trace ++
      [.own (.taken c isRegister user (w.server.clients c).chal.nonceHex now)])
    (mine : (w'.server.clients c).chal.active = false)
    (others : ∀ v, v ≠ c → (w'.server.clients v).chal = (w.server.clients v).chal) :
    NonceLog w' := by
  have issued := (log.slot c active).1.mem
  refine ⟨?_, ?_, ?_, ?_, ?_⟩
  all_goals simp only [trace, List.filterMap_append, List.filterMap_cons, List.filterMap_nil,
    Event.issues, Event.takes, Event.compares, List.append_nil]
  · exact log.fresh
  · intro nonceHex taken
    rcases List.mem_append.mp taken with old | new
    · exact log.taken nonceHex old
    · obtain rfl := List.mem_singleton.mp new
      exact ⟨c, issued⟩
  · intro nonceHex compared
    exact List.mem_append_left _ (log.compared nonceHex compared)
  · exact log.once
  · intro v active'
    have other : v ≠ c := by
      rintro rfl
      simp [mine] at active'
    rw [others v other] at active' ⊢
    obtain ⟨latest, untaken⟩ := log.slot v active'
    refine ⟨latest.append (by simp [Event.issues]), ?_⟩
    intro taken
    rcases List.mem_append.mp taken with old | new
    · exact untaken old
    · rw [List.mem_singleton] at new
      exact other (log.conn_unique latest.mem (new ▸ issued))

theorem NonceLog.compare (log : NonceLog w) (event : Event) {nonceHex : Bytes}
    (issues : event.issues = none) (takes : event.takes = none)
    (compares : event.compares = some nonceHex)
    (taken : nonceHex ∈ w.trace.filterMap Event.takes)
    (unused : nonceHex ∉ w.trace.filterMap Event.compares)
    (trace : w'.trace = w.trace ++ [event]) (clients : w'.server.clients = w.server.clients) :
    NonceLog w' := by
  refine ⟨?_, ?_, ?_, ?_, ?_⟩
  all_goals simp only [trace, clients, List.filterMap_append, List.filterMap_cons,
    List.filterMap_nil, issues, takes, compares, List.append_nil]
  · exact log.fresh
  · exact log.taken
  · intro nonceHex' compared
    rcases List.mem_append.mp compared with old | new
    · exact log.compared nonceHex' old
    · obtain rfl := List.mem_singleton.mp new
      exact taken
  · rw [List.nodup_append_comm]
    exact List.nodup_cons.mpr ⟨unused, log.once⟩
  · intro v active
    obtain ⟨latest, untaken⟩ := log.slot v active
    refine ⟨latest.append ?_, untaken⟩
    simp [issues]

/-! ## One step -/

/-- Only commands of the own client and the lookup of a login emit nonces. -/
theorem nonceless {s : ChatServer} {event : Event} (emitted : EmittedBy s c k event)
    (own : ∀ k', k ≠ .own k')
    (lookup : ∀ user proof nonceHex, k ≠ .db (.findLogin user proof nonceHex)) :
    event.issues = none ∧ event.takes = none ∧ event.compares = none := by
  cases event with
  | own event =>
      obtain ⟨k', shape⟩ : ∃ k', k = .own k' := by cases event <;> exact emitted.2
      exact absurd shape (own k')
  | db event =>
      cases event with
      | compared c' user nonceHex keyHex proof passed => exact absurd emitted.2 (lookup user proof nonceHex)
      | _ => exact ⟨rfl, rfl, rfl⟩
  | _ => exact ⟨rfl, rfl, rfl⟩

theorem nonceLog_run (log : NonceLog w) (proving : Proving t k w)
    (fresh : ∀ user saltHex isRegister, k = .own (.sendChallenge user saltHex isRegister) →
      e.randomHex 1 32 ∉ (w.trace.filterMap Event.issues).map Prod.snd)
    (ran : w.run st t.conn e k = some (w', new)) : NonceLog w' := by
  cases k with
  | own k =>
      obtain ⟨trace, mine, others⟩ := own_run ran
      have others (v : ConnId) (other : v ≠ t.conn) :
          (w'.server.clients v).chal = (w.server.clients v).chal := by rw [others v other]
      rcases runOwn_cases st w.server t.conn e k with ⟨chal, events⟩ |
        ⟨user, saltHex, isRegister, rfl, chal, events⟩ |
        ⟨empty, events | ⟨user, isRegister, ch, taken, events⟩⟩
      · refine log.clear (by simp [trace, events]) ?_
        intro v
        by_cases own : v = t.conn
        · subst own
          exact .inl (mine ▸ chal)
        · exact .inl (others v own)
      · exact log.issue (fresh user saltHex isRegister rfl) (by simp [trace, events])
          (mine ▸ chal) others
      · refine log.clear (by simp [trace, events]) ?_
        intro v
        by_cases own : v = t.conn
        · subst own
          exact .inr (mine ▸ empty)
        · exact .inl (others v own)
      · obtain ⟨rfl, active, -⟩ := takeChallenge_eq_some taken
        have untaken := (log.slot t.conn active).2
        have after : NonceLog ⟨w'.server, w.trace ++ [.own (.taken t.conn isRegister user
            (w.server.clients t.conn).chal.nonceHex (e.clock 0))]⟩ :=
          log.take active rfl (mine ▸ empty) others
        rcases events with events | events
        · have same : w' = ⟨w'.server, w.trace ++ [.own (.taken t.conn isRegister user
              (w.server.clients t.conn).chal.nonceHex (e.clock 0))]⟩ := by
            cases w'
            simpa [events] using trace
          rw [same]
          exact after
        · -- `doRegister` compares in the same section
          refine after.compare (.own (.compared t.conn user
            (w.server.clients t.conn).chal.nonceHex)) rfl rfl rfl ?_ ?_ ?_ rfl
          · simp [Event.takes]
          · intro compared
            exact untaken (log.compared _ (by simpa [Event.compares] using compared))
          · simp [trace, events]
  | db k =>
      obtain ⟨r, step, result⟩ := Option.map_eq_some_iff.mp ran
      obtain ⟨rfl, -⟩ := Prod.mk.inj result
      by_cases compares : ∃ c user nonceHex keyHex proof passed,
          .compared c user nonceHex keyHex proof passed ∈ r.events
      · obtain ⟨c, user, nonceHex, keyHex, proof, passed, membership⟩ := compares
        obtain ⟨rfl, rfl, -, -, events, -⟩ := compared_runDb step membership
        obtain ⟨⟨time, now, -, taken, -⟩, unused, -⟩ := proving user proof nonceHex rfl
        refine log.compare (.db (.compared t.conn user nonceHex keyHex proof passed))
          rfl rfl rfl ?_ unused ?_ rfl
        · exact List.mem_filterMap.mpr ⟨_, taken, rfl⟩
        · simp [events]
      · refine log.congr rfl rfl ?_
        intro event membership
        obtain ⟨event, there, rfl⟩ := List.mem_map.mp membership
        refine ⟨rfl, rfl, ?_⟩
        cases event with
        | compared c user nonceHex keyHex proof passed =>
            exact absurd ⟨c, user, nonceHex, keyHex, proof, passed, there⟩ compares
        | _ => rfl
  | _ =>
      obtain ⟨events, trace, emitted, -⟩ := trace_run ran
      refine log.congr (clients_run ran (by simp)) trace ?_
      intro event membership
      exact nonceless (emitted event membership) (by simp) (by simp)

/-- Nonces are issued on the connection whose thread runs, and compared out of its slot or
behind the lookup of a login. -/
theorem nonces_run (ran : w.run st c e k = some (w', new)) :
    ∃ events, w'.trace = w.trace ++ events ∧
      (∀ event ∈ events, ∀ c' nonceHex, event.issues = some (c', nonceHex) →
        c' = c ∧ ∃ k', k = .own k') ∧
      ∀ event ∈ events, ∀ nonceHex, event.compares = some nonceHex →
        ((w.server.clients c).chal.active = true ∧
          (w.server.clients c).chal.nonceHex = nonceHex) ∨
        ∃ user proof, k = .db (.findLogin user proof nonceHex) := by
  obtain ⟨events, trace, emitted, -⟩ := trace_run ran
  refine ⟨events, trace, ?_, ?_⟩
  · intro event membership c' nonceHex issues
    match event, issues with
    | .own (.issued _ _ _ _ _), rfl => exact emitted _ membership
  · intro event membership nonceHex compares
    match event, compares with
    | .db (.compared c' user _ keyHex proof passed), rfl =>
        exact .inr ⟨user, proof, (emitted _ membership).2⟩
    | .own (.compared c' user _), rfl =>
        left
        obtain ⟨-, k, rfl⟩ := emitted _ membership
        have same := List.append_cancel_left (trace.symm.trans (own_run ran).1)
        have there : .compared c' user nonceHex ∈ (runOwn st w.server c e k).events := by
          simpa [same] using membership
        rcases runOwn_cases st w.server c e k with ⟨-, events⟩ | ⟨_, _, _, -, -, events⟩ |
          ⟨-, events | ⟨_, _, _, taken, events | events⟩⟩
        all_goals
          rw [events] at there
          simp at there
        obtain ⟨rfl, active, -⟩ := takeChallenge_eq_some taken
        exact ⟨active, there.2.2.symm⟩

/-! ## Logins on their way -/

theorem proving_own (log : NonceLog w) (ran : w.run st t.conn e k = some (w', new)) :
    ∀ n ∈ new, Proving t n w' := by
  rintro n membership user proof nonceHex rfl
  obtain ⟨obj, ch, rfl, -, taken, rfl, length, events⟩ := calledBy_run ran _ membership
  obtain ⟨rfl, active, isRegister, rfl, live⟩ := takeChallenge_eq_some taken
  obtain ⟨latest, untaken⟩ := log.slot t.conn active
  have trace : w'.trace = w.trace ++ [.own (.taken t.conn false
      (w.server.clients t.conn).chal.user (w.server.clients t.conn).chal.nonceHex
      (e.clock 0))] := by
    rw [(own_run ran).1]
    exact congrArg (fun events : List OwnEvent => w.trace ++ events.map Event.own) events
  rw [isRegister] at latest
  refine ⟨⟨(w.server.clients t.conn).chal.expMs - kChallengeTtlMs, e.clock 0, ?_, ?_, ?_⟩, ?_,
    length⟩
  · rw [trace]
    exact latest.append (by simp [Event.issues])
  · simp [trace]
  · simp only [kChallengeTtlMs]
    omega
  · rw [trace]
    intro compared
    exact untaken (log.compared _ (by simpa [Event.compares] using compared))

theorem proving_other (log : NonceLog w) (proving : Proving t k w)
    (client' : k'.enters = true → t'.isClient = true) (here : k.runsOn t = true)
    (waits : Waits Above t k rest t' k') (ran : w.run st t.conn e k = some (w', new))
    (proving' : Proving t' k' w) : Proving t' k' w' := by
  rintro user proof nonceHex rfl
  obtain ⟨⟨time, now, latest, taken, live⟩, unused, length⟩ := proving' user proof nonceHex rfl
  obtain ⟨events, trace, issues, compares⟩ := nonces_run ran
  have taken' : nonceHex ∈ w.trace.filterMap Event.takes :=
    List.mem_filterMap.mpr ⟨_, taken, rfl⟩
  -- neither a command of the own client nor another login runs in front of a login
  have apart (client : k.runsOn t = t.isClient) (handler : k.layer.above .handler = false) :
      t'.conn ≠ t.conn := by
    intro same
    rcases waits with other | ⟨-, above⟩
    · exact other (Thread.eq_of_conn (client' rfl) (client ▸ here) same)
    · have above : k.layer.above .handler = true := above
      simp [handler] at above
  refine ⟨⟨time, now, ?_, ?_, live⟩, ?_, length⟩
  · rw [trace]
    apply latest.append
    intro event membership nonceHex' issued
    obtain ⟨same, k, rfl⟩ := issues event membership _ _ issued
    refine apart ?_ ?_ same
    · cases k <;> rfl
    · cases k <;> rfl
  · rw [trace]
    exact List.mem_append_left _ taken
  · rw [trace, List.filterMap_append, List.mem_append, not_or]
    refine ⟨unused, ?_⟩
    intro compared
    obtain ⟨event, membership, nonce⟩ := List.mem_filterMap.mp compared
    rcases compares event membership nonceHex nonce with ⟨active, same⟩ | ⟨user', proof', rfl⟩
    · exact (log.slot t.conn active).2 (same ▸ taken')
    · obtain ⟨⟨_, _, latest', -⟩, -⟩ := proving user' proof' nonceHex rfl
      exact apart rfl rfl (log.conn_unique latest.mem latest'.mem)

/-! ## The law in every run -/

/-- A proof for `LOGIN` that is not empty is no other proof. -/
theorem loginProof_inj {hashes : Hashes}
    (injective : ∀ key message key' message',
      hashes.hmac key message = hashes.hmac key' message' → key = key' ∧ message = message')
    {keyHex user nonceHex keyHex' op' user' nonceHex' : Bytes}
    (nonempty : challengeProof hashes keyHex (bytes "LOGIN") user nonceHex ≠ [])
    (known : op' = bytes "LOGIN" ∨ op' = bytes "REGISTER")
    (same : challengeProof hashes keyHex (bytes "LOGIN") user nonceHex =
      challengeProof hashes keyHex' op' user' nonceHex') :
    keyHex' = keyHex ∧ op' = bytes "LOGIN" ∧ user' = user ∧ nonceHex' = nonceHex := by
  obtain ⟨rfl, context, rfl⟩ := challengeProof_inj hashes injective nonempty same
  rcases known with rfl | rfl
  · exact ⟨rfl, rfl, (List.append_cancel_left context).symm, rfl⟩
  · have first : (bytes "LOGIN" ++ user).head? = (bytes "REGISTER" ++ user').head? :=
      congrArg List.head? context
    have login : bytes "LOGIN" = 76 :: bytes "OGIN" := by decide
    have register : bytes "REGISTER" = 82 :: bytes "EGISTER" := by decide
    simp [login, register] at first

theorem passed_run
    (injective : ∀ key message key' message',
      st.hashes.hmac key message = st.hashes.hmac key' message' → key = key' ∧ message = message')
    (accounts : Accounts st w) (proving : Proving t k w)
    (passed : Lawful (PassedLogin st) w.trace) (ran : w.run st t.conn e k = some (w', new)) :
    Lawful (PassedLogin st) w'.trace := by
  cases k with
  | db k =>
      obtain ⟨r, step, result⟩ := Option.map_eq_some_iff.mp ran
      obtain ⟨rfl, -⟩ := Prod.mk.inj result
      by_cases passes : ∃ c user nonceHex keyHex proof,
          .compared c user nonceHex keyHex proof true ∈ r.events
      · obtain ⟨c, user, nonceHex, keyHex, proof, membership⟩ := passes
        obtain ⟨rfl, rfl, -, matched, events, row, found, key⟩ := compared_runDb step membership
        obtain ⟨challenge, -, length⟩ := proving user proof nonceHex rfl
        have same : challengeProof st.hashes keyHex (bytes "LOGIN") user nonceHex = proof :=
          constantTimeEq_iff.mp matched.symm
        have nonempty : challengeProof st.hashes keyHex (bytes "LOGIN") user nonceHex ≠ [] := by
          rw [same]
          rintro rfl
          simp at length
        simp only [events, List.map_cons, List.map_nil]
        apply passed.concat
        refine ⟨challenge, same.symm, ?_, ?_⟩
        · intro keyHex' saltHex registered
          obtain ⟨-, row', found', key'⟩ := accounts.registered user keyHex' saltHex registered
          obtain rfl : row = row' := Option.some.inj (found.symm.trans found')
          exact key'.symm.trans key
        · intro keyHex' op user' nonceHex' known same'
          exact loginProof_inj injective nonempty known (same.trans same')
      · apply passed.append_of_forall
        intro event membership past
        obtain ⟨event, there, rfl⟩ := List.mem_map.mp membership
        cases event with
        | compared c user nonceHex keyHex proof matched =>
            cases matched with
            | true => exact absurd ⟨c, user, nonceHex, keyHex, proof, there⟩ passes
            | false => trivial
        | registered | inserted | pushStarted => trivial
  | _ =>
      obtain ⟨events, trace, emitted, -⟩ := trace_run ran
      rw [trace]
      apply passed.append_of_forall
      intro event membership past
      have source := emitted event membership
      cases event with
      | db event => cases event <;> simp [EmittedBy] at source
      | own | sess | io | admitted => trivial

theorem nonceLog_of_run (run : (server st).Reaches neverRepeats (start st file b) cfg) :
    Outlined Above NonceLog Proving cfg := by
  refine run.outlined (respects st) ?_ ?_ ?_
  · refine ⟨⟨by simp [start], by simp [start], by simp [start], by simp [start],
      by simp [start, boot]⟩, ?_, ?_⟩
    · intro t
      cases t <;> simp [start]
    · intro t k waiting
      cases t <;> simp_all [start, Proving]
  · intro cfg t e k rest w new _ outlined allowed stack ran
    obtain ⟨-, ran⟩ := exec_eq_some_iff.mp ran
    refine ⟨nonceLog_run outlined.inv (outlined.pending t k (by simp [stack])) ?_ ran,
      proving_own outlined.inv ran⟩
    rintro user saltHex isRegister rfl
    unfold neverRepeats at allowed
    rw [stack] at allowed
    simpa using allowed
  · intro cfg t e k rest w new reached outlined _ stack ran t' k' pending waits proving'
    obtain ⟨here, ran⟩ := exec_eq_some_iff.mp ran
    have proving := outlined.pending t k (by simp [stack])
    refine proving_other outlined.inv proving ?_ here waits ran proving'
    intro enters
    exact ((sound_of_run reached).pending t' k' pending enters).1

/-- The rules of the challenges hold in every run in which `random_hex` does not repeat,
when the HMAC is injective. -/
theorem challengeRules_of_run
    (injective : ∀ key message key' message',
      st.hashes.hmac key message = st.hashes.hmac key' message' → key = key' ∧ message = message')
    (run : (server st).Reaches neverRepeats (start st file b) cfg) :
    ChallengeRules st cfg.shared := by
  refine ⟨(nonceLog_of_run run).inv.once, ?_, (accounts_of_run run).inv.compared⟩
  refine run.invariant (motive := fun cfg => Lawful (PassedLogin st) cfg.shared.trace) ?_ ?_
  · exact lawful_nil
  · intro cfg t e k rest w new reached passed _ stack ran
    have proving := (nonceLog_of_run reached).pending t k (by simp [stack])
    exact passed_run injective (accounts_of_run reached).inv proving passed
      (exec_eq_some_iff.mp ran).2

/-- A table of distinct values with an injective default outside of it. -/
theorem lookup_getD_injective {α β : Type} [BEq α] [LawfulBEq α] {table : List (α × β)}
    {default : α → β} (distinct : (table.map Prod.snd).Nodup)
    (injective : Function.Injective default)
    (outside : ∀ x, default x ∉ table.map Prod.snd) :
    Function.Injective fun x => (table.lookup x).getD (default x) := by
  have listed {x : α} {y : β} (found : table.lookup x = some y) : (x, y) ∈ table := by
    obtain ⟨before, after, split, -⟩ := List.lookup_eq_some_iff.mp found
    simp [split]
  intro x x' same
  dsimp only at same
  cases found : table.lookup x with
  | none =>
      cases found' : table.lookup x' with
      | none =>
          rw [found, found'] at same
          exact injective same
      | some y =>
          rw [found, found'] at same
          exact absurd (List.mem_map.mpr ⟨_, listed found', same.symm⟩) (outside x)
  | some y =>
      cases found' : table.lookup x' with
      | none =>
          rw [found, found'] at same
          exact absurd (List.mem_map.mpr ⟨_, listed found, same⟩) (outside x')
      | some y' =>
          rw [found, found'] at same
          exact (Prod.mk.inj
            (List.inj_on_of_nodup_map distinct (listed found) (listed found') same)).1

theorem unary_injective {n n' : Nat} {rest rest' : Bytes}
    (same : Demo.block 1 n ++ 0 :: rest = Demo.block 1 n' ++ 0 :: rest') :
    n = n' ∧ rest = rest' := by
  induction n generalizing n' with
  | zero =>
      cases n' with
      | zero => exact ⟨rfl, List.cons.inj same |>.2⟩
      | succ n' => simp [Demo.block, List.replicate_succ] at same
  | succ n inductionHypothesis =>
      cases n' with
      | zero => simp [Demo.block, List.replicate_succ] at same
      | succ n' =>
          have shorter : Demo.block 1 n ++ 0 :: rest = Demo.block 1 n' ++ 0 :: rest' := by
            simpa [Demo.block, List.replicate_succ] using same
          obtain ⟨rfl, rests⟩ := inductionHypothesis shorter
          exact ⟨rfl, rests⟩

theorem Demo.hmac_injective (key message key' message' : Bytes)
    (same : Demo.hashes.hmac key message = Demo.hashes.hmac key' message') :
    key = key' ∧ message = message' := by
  have injective : Function.Injective fun x : Bytes × Bytes =>
      (Demo.macs.lookup x).getD
        (Demo.block 0 33 ++ Demo.block 1 x.1.length ++ 0 :: (x.1 ++ x.2)) := by
    apply lookup_getD_injective
    · decide +kernel
    · rintro ⟨key, message⟩ ⟨key', message'⟩ same
      simp only [List.append_assoc, List.append_cancel_left_eq] at same
      obtain ⟨length, rest⟩ := unary_injective same
      obtain ⟨rfl, rfl⟩ := List.append_inj rest length
      rfl
    · intro x listed
      have sizes : ∀ mac ∈ Demo.macs.map Prod.snd, mac.length = 32 := by decide +kernel
      have size := sizes _ listed
      simp [Demo.block] at size
  exact Prod.mk.inj (@injective (key, message) (key', message') same)

theorem challengeRules_of_run_login :
    ∃ cfg, (server Demo.startup).Reaches neverRepeats (start Demo.startup Demo.file {}) cfg ∧
      ChallengeRules Demo.startup cfg.shared ∧
      cfg.shared.trace.filterMap Event.compares = [toHex (Demo.block 1 32)] := by
  obtain ⟨cfg, run, compared⟩ := Program.exists_reaches_of_play (server Demo.startup)
    neverRepeats (Demo.connects 1 ++ Demo.hello 1 1 ++ Demo.proves 1 1 ++ Demo.enters 1 1)
    (start Demo.startup Demo.file {})
    (fun cfg => cfg.shared.trace.filterMap Event.compares = [toHex (Demo.block 1 32)])
    (by decide +kernel)
  exact ⟨cfg, run, challengeRules_of_run Demo.hmac_injective run, of_decide_eq_true compared⟩

end OnlineChat
