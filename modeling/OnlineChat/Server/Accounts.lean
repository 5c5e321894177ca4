import OnlineChat.Server.Events

/-!
# Accounts

The row of a user never changes once it is there, and it holds the key with which the
user registered: unblinding the stored value gives back exactly that key.
-/

namespace OnlineChat

open Library ChatServer PwdHash

variable {st : Startup} {s : ChatServer} {c : ConnId} {e : Ext} {w w' : World} {t : Thread}
  {k : Cmd} {new : List Cmd} {File : Type} {file : Database File} {b : BootExt}
  {cfg cfg' : Config Thread Cmd World}
  {When : Config Thread Cmd World → Thread → Ext → Bool}

/-! ## The rows of the users -/

/-- The first row of a user, which is the one that `find_user` returns. -/
def Database.userRow {Call : Type} (db : Database Call) (name : Bytes) : Option UserRow :=
  (db.users.rows.find? fun row => row.2.username = cStr name).map Prod.snd

theorem findUser_eq {Call : Type} {db : Database Call} {name : Bytes} {out : SqlOutcome}
    {row : UserRow} (found : db.findUser name out = some row) : db.userRow name = some row := by
  unfold Database.findUser at found
  split at found
  · exact found
  · cases found

/-- A row is found again when other rows have been added. -/
theorem Database.userRow_of_grown {Call Call' : Type} {db : Database Call} {db' : Database Call'}
    {name : Bytes} {row : UserRow} (more : db.users.rows <+: db'.users.rows)
    (found : db.userRow name = some row) : db'.userRow name = some row := by
  obtain ⟨rest, grown⟩ := more
  obtain ⟨entry, first, rfl⟩ := Option.map_eq_some_iff.mp found
  rw [Database.userRow, ← grown, List.find?_append, first]
  rfl

theorem Database.createUser_cases {Call : Type} (db : Database Call) (name salt pwdHash : Bytes)
    (ts : Int) (out : SqlOutcome) :
    (∃ failure, failure ≠ .inserted ∧ db.createUser name salt pwdHash ts out = (failure, db)) ∨
    (db.userRow name = none ∧ ∃ row : UserRow, row.username = cStr name ∧ row.salt = cStr salt ∧
      row.pwdHash = cStr pwdHash ∧ db.createUser name salt pwdHash ts out =
        (.inserted, { db with users := db.users.insert row })) := by
  unfold Database.createUser
  split
  · exact .inl ⟨.failed, by simp, rfl⟩
  · split
    · refine .inl ⟨_, ?_, rfl⟩
      split <;> simp
    next absent =>
      split
      · exact .inl ⟨.failed, by simp, rfl⟩
      · refine .inr ⟨?_, _, rfl, rfl, rfl, rfl⟩
        simpa [Database.userRow, List.find?_eq_none, List.any_eq_true] using absent

theorem Updates.users {k : DbCmd} {db : Database Origin} (updates : Updates s c e k db)
    (others : ∀ name derived saltHex stored since,
      k ≠ .createUser name derived saltHex stored since) : db.users = s.db.users := by
  cases updates with
  | reads => rfl
  | createUser name derived saltHex stored since => exact absurd rfl (others _ _ _ _ _)
  | createRoom room ts since =>
      obtain ⟨rooms, state⟩ := s.db.createRoom_rooms room (s.sess.username c) ts e.sql
      rw [state]
  | advances call advanced => exact (Database.tables_advance advanced).1
  | insertOffline m target since =>
      unfold Database.insertOffline
      split <;> rfl
  | markDelivered name id rest since =>
      unfold Database.markDelivered
      split <;> rfl

/-- A section of the database leaves the users alone, or it registers a new one. -/
theorem users_runDb {k : DbCmd} {r : Effect (Database Origin) DbEvent}
    (ran : runDb st s c e k = some r) :
    (r.state.users = s.db.users ∧ ∀ user key saltHex, .registered user key saltHex ∉ r.events) ∨
    ∃ name derived saltHex stored since row, k = .createUser name derived saltHex stored since ∧
      s.db.userRow name = none ∧ row.username = cStr name ∧ row.salt = cStr saltHex ∧
      row.pwdHash = cStr stored ∧ r.state.users = s.db.users.insert row ∧
      r.events = [.registered name derived saltHex] := by
  have silent (others : ∀ name derived saltHex stored since,
      k ≠ .createUser name derived saltHex stored since) (user key saltHex : Bytes) :
      .registered user key saltHex ∉ r.events := by
    intro registered
    obtain ⟨stored, since, shape⟩ := (emitted_runDb ran).2 _ registered
    exact others _ _ _ _ _ (Cmd.db.inj shape)
  have updates := state_runDb ran
  cases k with
  | createUser name derived saltHex stored since =>
      rcases next_whenTxIdle ran with rfl | ⟨n, rfl⟩
      · rcases s.db.createUser_cases name saltHex stored (e.nowTs 0) e.sql with
          ⟨failure, failed, step⟩ | ⟨absent, row, username, salt, pwdHash, step⟩
        · refine .inl ?_
          rw [step]
          cases failure <;> simp_all
        · refine .inr ⟨name, derived, saltHex, stored, since, row, rfl, absent, username, salt,
            pwdHash, ?_⟩
          rw [step]
          exact ⟨rfl, rfl⟩
      · exact .inl ⟨rfl, by simp⟩
  | _ =>
      refine .inl ⟨?_, silent (by simp)⟩
      exact updates.users (by simp)

/-- Rows of users are only added. -/
theorem users_run (ran : w.run st c e k = some (w', new)) :
    w.server.db.users.rows <+: w'.server.db.users.rows := by
  cases k with
  | db k =>
      obtain ⟨r, step, result⟩ := Option.map_eq_some_iff.mp ran
      obtain ⟨rfl, -⟩ := Prod.mk.inj result
      rcases users_runDb step with ⟨same, -⟩ | ⟨_, _, _, _, _, row, -, -, -, -, -, inserted, -⟩
      · rw [same]
      · rw [inserted]
        exact List.prefix_append ..
  | _ => rw [db_run ran (by simp)]

/-! ## The challenge slots -/

theorem takeChallenge_eq_some {chal ch : Challenge} {user : Bytes} {isRegister : Bool} {now : Int}
    (taken : (takeChallenge chal user isRegister now).1 = some ch) :
    ch = chal ∧ chal.active = true ∧ chal.isRegister = isRegister ∧ chal.user = user ∧
      now ≤ chal.expMs := by
  unfold takeChallenge at taken
  split at taken
  next live =>
    obtain ⟨active, kind, owner, notExpired⟩ := live
    exact ⟨(Option.some.inj taken).symm, active, kind, owner, Int.not_lt.mp notExpired⟩
  next => cases taken

/-- A command of a connection leaves its challenge slot alone, puts a fresh challenge into
it, or empties it. -/
theorem runOwn_cases (st : Startup) (s : ChatServer) (c : ConnId) (e : Ext) (k : OwnCmd) :
    ((runOwn st s c e k).state.chal = (s.clients c).chal ∧ (runOwn st s c e k).events = []) ∨
    (∃ user saltHex isRegister, k = .sendChallenge user saltHex isRegister ∧
      (runOwn st s c e k).state.chal = {
        active := true, isRegister, user
        saltHex := if isRegister then e.randomHex 0 16 else saltHex
        nonceHex := e.randomHex 1 32
        expMs := e.clock 1 + kChallengeTtlMs } ∧
      (runOwn st s c e k).events =
        [.issued c isRegister user (e.randomHex 1 32) (e.clock 1)]) ∨
    ((runOwn st s c e k).state.chal.active = false ∧ ((runOwn st s c e k).events = [] ∨
      ∃ user isRegister ch,
        (takeChallenge (s.clients c).chal user isRegister (e.clock 0)).1 = some ch ∧
        ((runOwn st s c e k).events = [.taken c isRegister user ch.nonceHex (e.clock 0)] ∨
          (runOwn st s c e k).events = [.taken c isRegister user ch.nonceHex (e.clock 0),
            .compared c user ch.nonceHex]))) := by
  cases k with
  | recvLoop =>
      refine .inl ?_
      simp only [runOwn, recvLoop]
      repeat' split
      all_goals exact ⟨rfl, rfl⟩
  | frames =>
      refine .inl ?_
      simp only [runOwn, frames]
      split <;> exact ⟨rfl, rfl⟩
  | sendChallenge user saltHex isRegister =>
      simp only [runOwn, sendChallenge]
      split
      · exact .inl ⟨rfl, rfl⟩
      · exact .inr (.inl ⟨user, saltHex, isRegister, rfl, rfl, rfl⟩)
  | doRegister obj =>
      simp only [runOwn, doRegister]
      split
      · exact .inl ⟨rfl, rfl⟩
      · split
        · exact .inr (.inr ⟨rfl, .inl rfl⟩)
        next ch taken =>
          refine .inr (.inr ⟨?_, .inr ⟨_, true, ch, taken, ?_⟩⟩)
          · repeat' split
            all_goals rfl
          · repeat' split
            all_goals first
              | exact .inl rfl
              | exact .inr rfl
  | doLogin obj =>
      simp only [runOwn, doLogin]
      split
      · exact .inl ⟨rfl, rfl⟩
      · split
        · exact .inr (.inr ⟨rfl, .inl rfl⟩)
        next ch taken =>
          refine .inr (.inr ⟨?_, .inr ⟨_, false, ch, taken, .inl ?_⟩⟩)
          · repeat' split
            all_goals rfl
          · repeat' split
            all_goals rfl
  | doCreate obj => exact .inl ⟨rfl, rfl⟩

/-- A command of a connection leaves the other clients alone. -/
theorem own_run {k : OwnCmd} (ran : w.run st c e (.own k) = some (w', new)) :
    w'.trace = w.trace ++ (runOwn st w.server c e k).events.map .own ∧
      w'.server.clients c = (runOwn st w.server c e k).state ∧
      ∀ v, v ≠ c → w'.server.clients v = w.server.clients v := by
  obtain ⟨rfl, -⟩ := Prod.mk.inj (Option.some.inj ran)
  exact ⟨rfl, Function.update_self .., fun v other => Function.update_of_ne other ..⟩

/-! ## The registered keys -/

/-- What is known of the users: who registered with a key has a row that holds it, and a
proof was compared with the proof of the key in the row.  The salt of a registration goes
through SQLite unchanged. -/
structure Accounts (st : Startup) (w : World) : Prop where
  registered : ∀ user key saltHex, .db (.registered user key saltHex) ∈ w.trace →
    key ≠ [] ∧ ∃ row, w.server.db.userRow user = some row ∧ keyOf st user row = key
  compared : ∀ c user nonceHex key proof passed,
    .db (.compared c user nonceHex key proof passed) ∈ w.trace →
    ∃ row, w.server.db.userRow user = some row ∧ keyOf st user row = key
  salted : ∀ c, (w.server.clients c).chal.active = true →
    (w.server.clients c).chal.isRegister = true →
    cStr (w.server.clients c).chal.saltHex = (w.server.clients c).chal.saltHex

/-- A registration on its way has passed all checks. -/
def Registering (st : Startup) (_ : Thread) (k : Cmd) (_ : World) : Prop :=
  ∀ name derived saltHex stored since, k = .db (.createUser name derived saltHex stored since) →
    validUsername name = true ∧ cStr saltHex = saltHex ∧
    stored = applyPepper st.hashes derived st.pepperHex name saltHex ∧ stored ≠ []

theorem applyPepper_nil (hashes : Hashes) (pepperHex user saltHex : Bytes) :
    applyPepper hashes [] pepperHex user saltHex = [] := by
  unfold applyPepper
  cases fromHex pepperHex <;> simp [fromHex, kHashBytes]

theorem cStr_applyPepper (hashes : Hashes) (keyHex pepperHex user saltHex : Bytes) :
    cStr (applyPepper hashes keyHex pepperHex user saltHex) =
      applyPepper hashes keyHex pepperHex user saltHex := by
  unfold applyPepper
  split
  · split
    · exact cStr_toHex _
    · rfl
  · rfl

/-- The row that a registration leaves holds its key. -/
theorem keyOf_registered {name derived saltHex : Bytes} {row : UserRow}
    (salted : cStr saltHex = saltHex)
    (blinded : applyPepper st.hashes derived st.pepperHex name saltHex ≠ [])
    (salt : row.salt = cStr saltHex)
    (pwdHash : row.pwdHash = cStr (applyPepper st.hashes derived st.pepperHex name saltHex)) :
    keyOf st name row = derived := by
  rw [keyOf, salt, pwdHash, salted, cStr_applyPepper]
  exact applyPepper_applyPepper blinded

/-- What is known of the users survives new rows. -/
theorem Accounts.grow (accounts : Accounts st w)
    (users : w.server.db.users.rows <+: w'.server.db.users.rows)
    {events : List Event} (trace : w'.trace = w.trace ++ events)
    (registered : ∀ user key saltHex, .db (.registered user key saltHex) ∈ events →
      key ≠ [] ∧ ∃ row, w'.server.db.userRow user = some row ∧ keyOf st user row = key)
    (compared : ∀ c user nonceHex key proof passed,
      .db (.compared c user nonceHex key proof passed) ∈ events →
      ∃ row, w'.server.db.userRow user = some row ∧ keyOf st user row = key)
    (salted : ∀ c, (w'.server.clients c).chal.active = true →
      (w'.server.clients c).chal.isRegister = true →
      cStr (w'.server.clients c).chal.saltHex = (w'.server.clients c).chal.saltHex) :
    Accounts st w' := by
  refine ⟨?_, ?_, salted⟩
  · intro user key saltHex there
    rcases List.mem_append.mp (trace ▸ there) with old | new
    · obtain ⟨nonempty, row, found, holds⟩ := accounts.registered user key saltHex old
      exact ⟨nonempty, row, Database.userRow_of_grown users found, holds⟩
    · exact registered user key saltHex new
  · intro c user nonceHex key proof passed there
    rcases List.mem_append.mp (trace ▸ there) with old | new
    · obtain ⟨row, found, holds⟩ := accounts.compared c user nonceHex key proof passed old
      exact ⟨row, Database.userRow_of_grown users found, holds⟩
    · exact compared c user nonceHex key proof passed new

/-- The comparison in `doLogin` is with the key in the row. -/
theorem compared_runDb {k : DbCmd} {r : Effect (Database Origin) DbEvent}
    (ran : runDb st s c e k = some r) {c' : ConnId} {user nonceHex key proof : Bytes}
    {passed : Bool} (compared : .compared c' user nonceHex key proof passed ∈ r.events) :
    k = .findLogin user proof nonceHex ∧ c' = c ∧ r.state = s.db ∧
      passed = proofMatches st key user nonceHex proof ∧
      r.events = [.compared c user nonceHex key proof passed] ∧
      ∃ row, s.db.userRow user = some row ∧ keyOf st user row = key := by
  obtain ⟨rfl, shape⟩ := (emitted_runDb ran).2 _ compared
  obtain rfl := Cmd.db.inj shape
  obtain rfl := Option.some.inj ran
  unfold findLogin at compared ⊢
  cases found : s.db.findUser user e.sql with
  | none => simp [found] at compared
  | some row =>
      simp only [found] at compared ⊢
      by_cases broken : keyOf st user row = []
      · simp [broken] at compared
      · simp only [broken, if_false, List.mem_singleton, DbEvent.compared.injEq, true_and] at compared ⊢
        obtain ⟨rfl, rfl⟩ := compared
        simp [findUser_eq found]

theorem accounts_run (accounts : Accounts st w) (registering : Registering st t k w)
    (ran : w.run st t.conn e k = some (w', new)) : Accounts st w' := by
  have users := users_run ran
  cases k with
  | own k =>
      obtain ⟨trace, mine, others⟩ := own_run ran
      refine accounts.grow users trace (by simp) (by simp) ?_
      intro c active isRegister
      by_cases own : c = t.conn
      · subst own
        rw [mine] at active isRegister ⊢
        rcases runOwn_cases st w.server t.conn e k with ⟨chal, -⟩ |
          ⟨user, saltHex, isRegister', rfl, chal, -⟩ | ⟨inactive, -⟩
        · rw [chal] at active isRegister ⊢
          exact accounts.salted t.conn active isRegister
        · rw [chal] at isRegister ⊢
          dsimp only at isRegister ⊢
          rw [isRegister]
          exact cStr_toHex _
        · simp [inactive] at active
      · rw [others c own] at active isRegister ⊢
        exact accounts.salted c active isRegister
  | db k =>
      obtain ⟨r, step, result⟩ := Option.map_eq_some_iff.mp ran
      obtain ⟨rfl, -⟩ := Prod.mk.inj result
      refine accounts.grow users rfl ?_ ?_ accounts.salted
      · intro user key saltHex registered
        obtain ⟨event, membership, same⟩ := List.mem_map.mp registered
        obtain rfl : event = .registered user key saltHex := by simpa using same
        rcases users_runDb step with ⟨-, none⟩ |
          ⟨name, derived, saltHex', stored, since, row, rfl, absent, username, salt, pwdHash,
            inserted, events⟩
        · exact absurd membership (none user key saltHex)
        · obtain ⟨rfl, rfl, rfl⟩ : user = name ∧ key = derived ∧ saltHex = saltHex' := by
            simpa [events] using membership
          obtain ⟨-, salted, rfl, blinded⟩ := registering user key saltHex stored since rfl
          have nonempty : key ≠ [] := by
            rintro rfl
            exact blinded (applyPepper_nil st.hashes st.pepperHex user saltHex)
          refine ⟨nonempty, row, ?_, keyOf_registered salted blinded salt pwdHash⟩
          have absent : (w.server.db.users.rows.find? fun row => row.2.username = cStr user) =
              none := by simpa [Database.userRow] using absent
          simp [Database.userRow, inserted, List.find?_append, absent, username]
      · intro c user nonceHex key proof passed compared
        obtain ⟨event, membership, same⟩ := List.mem_map.mp compared
        obtain rfl : event = .compared c user nonceHex key proof passed := by simpa using same
        obtain ⟨-, -, state, -, -, row, found, holds⟩ := compared_runDb step membership
        exact ⟨row, by rw [state]; exact found, holds⟩
  | _ =>
      obtain ⟨events, trace, emitted, -⟩ := trace_run ran
      refine accounts.grow users trace ?_ ?_ ?_
      · intro user key saltHex there
        simpa [EmittedBy] using emitted _ there
      · intro c user nonceHex key proof passed there
        simpa [EmittedBy] using emitted _ there
      · rw [clients_run ran (by simp)]
        exact accounts.salted

theorem accounts_of_run (run : (server st).Reaches When (start st file b) cfg) :
    Outlined Above (Accounts st) (Registering st) cfg := by
  refine run.outlined (respects st) ?_ ?_ ?_
  · refine ⟨⟨by simp [start], by simp [start], by simp [start, boot]⟩, ?_, ?_⟩
    · intro t
      cases t <;> simp [start]
    · intro t k waiting
      cases t <;> simp_all [start, Registering]
  · intro cfg t e k rest w new reached outlined _ stack ran
    have registering := outlined.pending t k (by simp [stack])
    obtain ⟨-, ran⟩ := exec_eq_some_iff.mp ran
    refine ⟨accounts_run outlined.inv registering ran, ?_⟩
    rintro n membership name derived saltHex stored since rfl
    rcases calledBy_run ran _ membership with
      ⟨obj, ch, rfl, taken, rfl, valid, -, blinds, blinded⟩ | ⟨since', rfl⟩
    · obtain ⟨rfl, active, isRegister, -⟩ := takeChallenge_eq_some taken
      exact ⟨valid, outlined.inv.salted t.conn active isRegister, blinds, blinded⟩
    · exact registering name derived saltHex stored since' rfl
  · intro cfg t e k rest w new _ _ _ _ _ t' k' _ _ registering
    exact registering

/-! ## Later states, and restarts -/

/-- A server and the state of its threads. -/
structure Life where
  st : Startup
  cfg : Config Thread Cmd World

/-- A step of the server, or a restart under the same pepper on the database that the
server leaves behind. -/
inductive Life.Next : Life → Life → Prop where
  | step (life : Life) (cfg' : Config Thread Cmd World) :
      (server life.st).Step Program.always life.cfg cfg' → Next life ⟨life.st, cfg'⟩
  | restart (life : Life) (st' : Startup) (b : BootExt) :
      st'.pepperHex = life.st.pepperHex → st'.hashes = life.st.hashes →
      Next life ⟨st', start st' life.cfg.shared.server.db b⟩

/-- Any number of steps and restarts. -/
def Life.Later : Life → Life → Prop := Relation.ReflTransGen Life.Next

theorem Life.Later.keeps {life life' : Life} (later : life.Later life') :
    life.cfg.shared.server.db.users.rows <+: life'.cfg.shared.server.db.users.rows ∧
      life'.st.pepperHex = life.st.pepperHex ∧ life'.st.hashes = life.st.hashes := by
  induction later with
  | refl => exact ⟨List.prefix_refl _, rfl, rfl⟩
  | @tail life₁ life₂ _ next inductionHypothesis =>
      obtain ⟨grown, pepper, hashes⟩ := inductionHypothesis
      cases next with
      | step _ step =>
          obtain ⟨t, e, -, fired⟩ := step
          obtain ⟨k, rest, w, new, -, ran, rfl⟩ := (server _).fire_eq_some_iff.mp fired
          exact ⟨grown.trans (users_run (exec_eq_some_iff.mp ran).2), pepper, hashes⟩
      | restart st' b pepper' hashes' =>
          refine ⟨?_, pepper'.trans pepper, hashes'.trans hashes⟩
          obtain ⟨rooms, db⟩ := db_boot st' life₁.cfg.shared.server.db b
          simp only [start, db]
          exact grown

/-- The check of `doLogin` against a row that holds a key. -/
theorem findLogin_passes {user key nonceHex proof : Bytes} {row : UserRow}
    (found : s.db.userRow user = some row) (holds : keyOf st user row = key) (nonempty : key ≠ [])
    (prepares : e.sql.prepares = true) (steps : e.sql.steps = true) :
    (findLogin st s c e user proof nonceHex).next = [.sess (.checkLogin user)] ↔
      proof = challengeProof st.hashes key (bytes "LOGIN") user nonceHex := by
  have lookup : s.db.findUser user e.sql = some row := by
    unfold Database.findUser
    rw [if_pos ⟨prepares, steps⟩]
    exact found
  unfold findLogin
  rw [lookup]
  simp only [holds, nonempty, if_false]
  by_cases passed : proofMatches st key user nonceHex proof = true
  · have same := constantTimeEq_iff.mp passed
    simp [passed, same]
  · have differ : proof ≠ challengeProof st.hashes key (bytes "LOGIN") user nonceHex := by
      intro same
      exact passed (constantTimeEq_iff.mpr same.symm)
    simp [passed, differ, sendErr]

/-- Once a REGISTER has been answered REGISTER_OK, the row of the user stays as it is in
every later state under the same pepper, unblinding gives back the registered key, and a
login passes the proof check exactly with the proof of that key. -/
theorem key_of_registered {user key saltHex : Bytes} {life : Life}
    (run : (server st).Reaches Program.always (start st file b) cfg)
    (registered : .db (.registered user key saltHex) ∈ cfg.shared.trace)
    (later : Life.Later ⟨st, cfg⟩ life) :
    ∃ row, cfg.shared.server.db.userRow user = some row ∧
      life.cfg.shared.server.db.userRow user = some row ∧ keyOf life.st user row = key ∧
      ∀ c e nonceHex proof, e.sql.prepares = true → e.sql.steps = true →
        ((findLogin life.st life.cfg.shared.server c e user proof nonceHex).next =
            [.sess (.checkLogin user)] ↔
          proof = challengeProof life.st.hashes key (bytes "LOGIN") user nonceHex) := by
  obtain ⟨nonempty, row, found, holds⟩ := (accounts_of_run run).inv.registered _ _ _ registered
  obtain ⟨grown, pepper, hashes⟩ := later.keeps
  have still : life.cfg.shared.server.db.userRow user = some row :=
    Database.userRow_of_grown grown found
  have key : keyOf life.st user row = key := by
    rw [← holds, keyOf, keyOf, pepper, hashes]
  refine ⟨row, found, still, key, ?_⟩
  intro c e nonceHex proof prepares steps
  exact findLogin_passes still key nonempty prepares steps

open Demo in
/-- The registration of bob on connection 1. -/
def registersBob : Schedule :=
  connects 1 ++ receives 1 (request "REGISTER_HELLO" [("from", .str (bytes "bob"))]) ++
    steps (.client 1) 2 ++ draws 1 3 ++ steps (.client 1) 2 ++
    receives 1 (request "REGISTER" [("from", .str (bytes "bob")),
      ("content", .str (toHex bobKey)),
      ("hmac", .str (toHex (hashes.hmac bobKey
        (bytes "REGISTER" ++ bytes "bob" ++ block 3 32))))]) ++
    steps (.client 1) 3

theorem key_of_registered_bob :
    ∃ cfg, (server Demo.startup).Reaches Program.always (start Demo.startup Demo.file {}) cfg ∧
      ∃ row, cfg.shared.server.db.userRow (bytes "bob") = some row ∧
        keyOf Demo.startup (bytes "bob") row = toHex Demo.bobKey := by
  obtain ⟨cfg, run, registered⟩ := Program.exists_reaches_of_play (server Demo.startup)
    Program.always registersBob (start Demo.startup Demo.file {})
    (fun cfg => .db (.registered (bytes "bob") (toHex Demo.bobKey) (toHex (Demo.block 3 16))) ∈
      cfg.shared.trace) (by decide +kernel)
  obtain ⟨row, found, -, holds, -⟩ := key_of_registered run (of_decide_eq_true registered) .refl
  exact ⟨cfg, run, row, found, holds⟩

end OnlineChat
