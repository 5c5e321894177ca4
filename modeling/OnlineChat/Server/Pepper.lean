import OnlineChat.Server.Accounts

/-!
# The pepper and the database

What `start` does before the server listens: the gate of the storage format, the pepper
file, and the gate that compares the pepper with the one to which the database is bound.
A machine keeps its files and its database from one start to the next.
-/

namespace OnlineChat

open Library ChatServer PwdHash

/-! ## The pepper file -/

/-- The regular files by their paths. -/
abbrev Files := Bytes → Option Bytes

/-- The text of 32 bytes. -/
abbrev PepperHex := { hex : Bytes // (fromHex hex).map List.length = some kHashBytes }

/-- What the system answers to the calls of `load_or_create_pepper`. -/
structure PepperExt where
  /-- `stat` succeeds on a file that is there. -/
  stats : Bool := true
  /-- `fopen(path, "rb")` succeeds. -/
  opensRead : Bool := true
  /-- How many bytes `fread` gets at most. -/
  reads : Nat := 64
  /-- There is a random source. -/
  draws : Bool := true
  random : Nat → UInt8 := fun _ => 0
  /-- `fopen(path, "wb")` succeeds. -/
  opensWrite : Bool := true
  /-- How many bytes `fwrite` and `fclose` bring into the file at most. -/
  writes : Nat := 64

/-- `random_hex(32)`. -/
def PepperExt.randomHex (e : PepperExt) : PepperHex :=
  ⟨toHex ((List.range kHashBytes).map e.random), by simp⟩

/-- The file as `stat` sees it. -/
def PepperExt.existing (e : PepperExt) (files : Files) (path : Bytes) : Option Bytes :=
  if e.stats then files path else none

/-- `none` is `std::abort`.  The results of `fwrite` and `fclose` are not looked at. -/
def loadOrCreatePepper (files : Files) (path : Bytes) (e : PepperExt) :
    Option PepperHex × Files :=
  if path = [] then (none, files)
  else
    match e.existing files path with
    | some content =>
        if ¬ e.opensRead then (none, files)
        else
          let hex := (content.take e.reads).take 64
          if hex.length ≠ 64 then (none, files)
          else if valid : (fromHex hex).map List.length = some kHashBytes then
            (some ⟨hex, valid⟩, files)
          else (none, files)
    | none =>
        if ¬ e.draws then (none, files)
        else if ¬ e.opensWrite then (none, files)
        else
          let hex := e.randomHex
          (some hex, Function.update files path (some ((hex.1.take 64).take e.writes)))

theorem length_pepperHex (pepper : PepperHex) : pepper.1.length = 64 := by
  obtain ⟨raw, decoded, size⟩ := Option.map_eq_some_iff.mp pepper.2
  rw [length_of_fromHex decoded, size]
  rfl

/-- A pepper comes from the first 64 bytes of a file, or it is new and its file is written. -/
theorem loadOrCreatePepper_eq_some {files files' : Files} {path : Bytes} {e : PepperExt}
    {pepper : PepperHex} (loaded : loadOrCreatePepper files path e = (some pepper, files')) :
    (∃ content, e.existing files path = some content ∧ content.take 64 = pepper.1 ∧
      files' = files) ∨
    (e.existing files path = none ∧ pepper = e.randomHex ∧
      files' = Function.update files path (some (pepper.1.take e.writes))) := by
  unfold loadOrCreatePepper at loaded
  split at loaded
  · simp at loaded
  · split at loaded
    next content found =>
      refine .inl ⟨content, found, ?_⟩
      dsimp only at loaded
      split at loaded
      · simp at loaded
      · split at loaded
        · simp at loaded
        next whole =>
          split at loaded
          · simp only [Prod.mk.injEq, Option.some.injEq] at loaded
            obtain ⟨rfl, rfl⟩ := loaded
            refine ⟨?_, rfl⟩
            have long : 64 ≤ e.reads := by
              have length := Decidable.not_not.mp whole
              simp only [List.length_take] at length
              omega
            dsimp only
            rw [List.take_take, Nat.min_eq_left long]
          · simp at loaded
    next absent =>
      refine .inr ⟨absent, ?_⟩
      dsimp only at loaded
      split at loaded
      · simp at loaded
      · split at loaded
        · simp at loaded
        · simp only [Prod.mk.injEq, Option.some.injEq] at loaded
          obtain ⟨rfl, rfl⟩ := loaded
          refine ⟨rfl, ?_⟩
          rw [List.take_of_length_le (length_pepperHex _).le]

/-! ## The entries of `meta` -/

/-- The table `meta`. -/
abbrev MetaTable := Bytes → Option Bytes

namespace Database

/-- A statement succeeds. -/
def succeeds (out : SqlOutcome) : Bool := out.prepares && out.steps

/-- An empty text also when the query fails. -/
def metaGet (entries : MetaTable) (k : Bytes) (out : SqlOutcome) : Bytes :=
  if succeeds out then cStr ((entries (cStr k)).getD []) else []

def metaSet (entries : MetaTable) (k v : Bytes) (out : SqlOutcome) : Bool × MetaTable :=
  if succeeds out then (true, Function.update entries (cStr k) (some (cStr v)))
  else (false, entries)

/-- 0 also when the query fails. -/
def countUsers {Call : Type} (db : Database Call) (out : SqlOutcome) : Nat :=
  if succeeds out then db.users.rows.length else 0

/-- What SQLite answers while the database is opened. -/
structure OpenExt where
  /-- `sqlite3_open_v2` succeeds. -/
  opens : Bool := true
  /-- The tables are there, or they are created. -/
  schema : Bool := true
  readsVer : SqlOutcome := {}
  counts : SqlOutcome := {}
  setsVer : SqlOutcome := {}

/-- `Database::open`, with the gate of the storage format. -/
def openDb {Call : Type} (db : Database Call) (entries : MetaTable) (e : OpenExt) :
    Bool × MetaTable :=
  if ¬ e.opens then (false, entries)
  else if ¬ e.schema then (false, entries)
  else
    let ver := metaGet entries (bytes "schema_ver") e.readsVer
    if ver = [] then
      if db.countUsers e.counts > 0 then (false, entries)
      else metaSet entries (bytes "schema_ver") (bytes "2") e.setsVer
    else if ver ≠ bytes "2" then (false, entries)
    else (true, entries)

end Database

/-! ## Machines -/

/-- A registration: whose row was blinded with which pepper. -/
structure Blinding where
  pepperHex : Bytes
  username : Bytes
  key : Bytes
  saltHex : Bytes

/-- The row is the one that this registration has left. -/
def Blinding.Made (hashes : Hashes) (b : Blinding) (row : UserRow) : Prop :=
  row.username = b.username ∧ row.salt = b.saltHex ∧
    row.pwdHash = applyPepper hashes b.key b.pepperHex b.username b.saltHex

/-- The registration that an event reports. -/
def blinding? (st : Startup) : Event → Option Blinding
  | .db (.registered user key saltHex) => some ⟨st.pepperHex, user, key, saltHex⟩
  | _ => none

/-- A server that listens, started with that path. -/
structure Running where
  path : Bytes
  st : Startup
  cfg : Config Thread Cmd World

/-- The registrations since the server was started. -/
def Running.blindings (r : Running) : List Blinding :=
  r.cfg.shared.trace.filterMap (blinding? r.st)

/-- The files, the database with its table `meta`, and the server if there is one. -/
structure Machine where
  files : Files
  entries : MetaTable := fun _ => none
  /-- The database that the last server left behind. -/
  db : Database Origin := {}
  running : Option Running := none
  /-- The registrations of all servers before.  Not part of the source. -/
  past : List Blinding := []

namespace Machine

def users (m : Machine) : Table UserRow :=
  match m.running with
  | none => m.db.users
  | some r => r.cfg.shared.server.db.users

/-- All registrations so far. -/
def blindings (m : Machine) : List Blinding :=
  match m.running with
  | none => m.past
  | some r => m.past ++ r.blindings

/-- How a start ends. -/
inductive Started where
  | listening
  | refused
  | aborted
  deriving DecidableEq

/-- What the world answers to one start. -/
structure StartExt where
  db : Database.OpenExt := {}
  pepper : PepperExt := {}
  readsId : SqlOutcome := {}
  setsId : SqlOutcome := {}
  /-- The certificate and its key can be loaded. -/
  tlsInits : Bool := true
  boot : BootExt := {}
  /-- `startListen` succeeds. -/
  listens : Bool := true

variable (hashes : Hashes) (cfg : ServerConfig) (words : WordFilter) (path : Bytes) (e : StartExt)

/-- `start` behind the gates. -/
def enter (m : Machine) (pepper : PepperHex) : Started × Machine :=
  if cfg.tls ∧ ¬ e.tlsInits then (.refused, m)
  else
    let st : Startup := { cfg, hashes, pepperHex := pepper.1, pepper := pepper.2, words }
    let threads := OnlineChat.start st m.db e.boot
    if ¬ e.listens then (.refused, { m with db := threads.shared.server.db })
    else (.listening, { m with running := some { path, st, cfg := threads } })

/-- `ChatServer::start` with that path of the pepper. -/
def start (m : Machine) : Started × Machine :=
  let opened := m.db.openDb m.entries e.db
  let m := { m with entries := opened.2 }
  if ¬ opened.1 then (.refused, m)
  else
    match loadOrCreatePepper m.files path e.pepper with
    | (none, files) => (.aborted, { m with files })
    | (some pepper, files) =>
        let m := { m with files }
        if pepper.1.length ≠ 64 then (.aborted, m)
        else
          let pidNow := pepperId hashes pepper.1
          let pidDb := Database.metaGet m.entries (bytes "pepper_id") e.readsId
          if pidDb = [] then
            -- the result of `meta_set` is not looked at
            let entries := (Database.metaSet m.entries (bytes "pepper_id") pidNow e.setsId).2
            { m with entries }.enter hashes cfg words path e pepper
          else if pidDb ≠ pidNow then (.refused, m)
          else m.enter hashes cfg words path e pepper

/-- The server ends, or its process is killed. -/
def stop (m : Machine) : Machine :=
  match m.running with
  | none => m
  | some r =>
      { m with
        running := none
        db := r.cfg.shared.server.db
        past := m.past ++ r.blindings }

/-- A start while no server runs and `When` allows it, a step of the server, or its end. -/
inductive Next (When : Machine → Bytes → StartExt → Prop) : Machine → Machine → Prop where
  | start (m : Machine) (cfg : ServerConfig) (words : WordFilter) (path : Bytes) (e : StartExt) :
      m.running = none → When m path e → Next When m (m.start hashes cfg words path e).2
  | step (m : Machine) (r : Running) (cfg' : Config Thread Cmd World) :
      m.running = some r → (server r.st).Step Program.always r.cfg cfg' →
      Next When m { m with running := some { r with cfg := cfg' } }
  | stop (m : Machine) : Next When m m.stop

/-- Any number of starts, steps and ends. -/
def Reaches (When : Machine → Bytes → StartExt → Prop) : Machine → Machine → Prop :=
  Relation.ReflTransGen (Next hashes When)

/-- The pepper in use stands in the file, and it has the id of the peppers with which the
rows of the users were blinded. -/
def Sound (m : Machine) : Prop :=
  ∀ r, m.running = some r →
    m.files r.path = some r.st.pepperHex ∧ r.st.pepperHex.length = 64 ∧
    (∀ b ∈ m.blindings, pepperId hashes b.pepperHex = pepperId hashes r.st.pepperHex) ∧
    ∀ row ∈ m.users.rows, ∃ b ∈ m.blindings, b.Made hashes row.2

/-- Nothing goes wrong that `start` does not notice: a new pepper file is written completely,
the file of a pepper holds nothing else, the id of the pepper can be read if there is one,
and it can be stored if there is none. -/
structure Noticed (m : Machine) (path : Bytes) (e : StartExt) : Prop where
  writes : e.pepper.existing m.files path = none → 64 ≤ e.pepper.writes
  alone : ∀ content, e.pepper.existing m.files path = some content →
    (fromHex (content.take 64)).isSome → content.length ≤ 64
  reads : m.entries (bytes "pepper_id") ≠ none → Database.succeeds e.readsId = true
  stores : m.entries (bytes "pepper_id") = none → Database.succeeds e.setsId = true

/-! ## One step -/

/-- What is known of a machine.  A database with users is bound to their pepper, and a
server runs under the pepper of its file and of its database. -/
structure Bound (m : Machine) : Prop where
  peppers : ∀ b ∈ m.blindings,
    m.entries (bytes "pepper_id") = some (pepperId hashes b.pepperHex)
  rows : ∀ row ∈ m.users.rows, ∃ b ∈ m.blindings, b.Made hashes row.2
  entry : ∀ v, m.entries (bytes "pepper_id") = some v → v ≠ [] ∧ cStr v = v
  running : ∀ r, m.running = some r →
    m.files r.path = some r.st.pepperHex ∧
    m.entries (bytes "pepper_id") = some (pepperId hashes r.st.pepperHex) ∧
    r.st.hashes = hashes ∧
    ∃ b, (server r.st).Reaches Program.always (OnlineChat.start r.st m.db b) r.cfg

variable {hashes cfg words path e} {m : Machine}

theorem openDb_entries {Call : Type} (db : Database Call) (entries : MetaTable)
    (out : Database.OpenExt) :
    (db.openDb entries out).2 (bytes "pepper_id") = entries (bytes "pepper_id") := by
  unfold Database.openDb Database.metaSet
  dsimp only
  repeat' split
  all_goals rfl

/-- Without a server, only the entry of the pepper and the rows of the users matter. -/
theorem Bound.of_idle {m' : Machine} (bound : Bound hashes m) (idle : m.running = none)
    (idle' : m'.running = none) (past : m'.past = m.past) (users : m'.db.users = m.db.users)
    (entry : m'.entries (bytes "pepper_id") = m.entries (bytes "pepper_id")) :
    Bound hashes m' := by
  have blindings : m'.blindings = m.blindings := by
    simp only [Machine.blindings, idle, idle', past]
  have rows : m'.users = m.users := by
    simp only [Machine.users, idle, idle', users]
  refine ⟨?_, ?_, ?_, ?_⟩
  · rw [blindings, entry]
    exact bound.peppers
  · rw [blindings, rows]
    exact bound.rows
  · rw [entry]
    exact bound.entry
  · intro r running
    rw [idle'] at running
    cases running

theorem users_start {File : Type} (st : Startup) (file : Database File) (b : BootExt) :
    (OnlineChat.start st file b).shared.server.db.users = file.users := by
  obtain ⟨rooms, db⟩ := db_boot st file b
  simp only [OnlineChat.start, db]
  rfl

/-- Behind the gates, a start keeps what is known. -/
theorem bound_enter {pepper : PepperHex} (bound : Bound hashes m) (idle : m.running = none)
    (file : m.files path = some pepper.1)
    (entry : m.entries (bytes "pepper_id") = some (pepperId hashes pepper.1)) :
    Bound hashes (m.enter hashes cfg words path e pepper).2 := by
  unfold enter
  split
  · exact bound
  · dsimp only
    split
    · refine bound.of_idle idle idle rfl ?_ rfl
      dsimp only
      rw [users_start]
    · have past : m.blindings = m.past := by simp only [Machine.blindings, idle]
      have users : m.users = m.db.users := by simp only [Machine.users, idle]
      refine ⟨?_, ?_, bound.entry, ?_⟩
      · intro b membership
        exact bound.peppers b (past ▸ (by simpa [Machine.blindings, Running.blindings,
          OnlineChat.start] using membership))
      · intro row there
        dsimp only [Machine.users] at there
        rw [users_start, ← users] at there
        obtain ⟨b, membership, made⟩ := bound.rows row there
        refine ⟨b, ?_, made⟩
        exact List.mem_append_left _ (past ▸ membership)
      · intro r running
        obtain rfl := Option.some.inj running
        exact ⟨file, entry, rfl, e.boot, .refl⟩

/-- The pepper that is loaded stands in its file. -/
theorem file_of_loaded {files : Files} {pepper : PepperHex} (noticed : Noticed m path e)
    (loaded : loadOrCreatePepper m.files path e.pepper = (some pepper, files)) :
    files path = some pepper.1 := by
  rcases loadOrCreatePepper_eq_some loaded with ⟨content, found, first, rfl⟩ | ⟨absent, -, rfl⟩
  · have there : m.files path = some content := by
      unfold PepperExt.existing at found
      split at found
      · exact found
      · cases found
    obtain ⟨raw, decoded, -⟩ := Option.map_eq_some_iff.mp pepper.2
    have short := noticed.alone content found (by rw [first, decoded]; rfl)
    rw [there, ← first, List.take_of_length_le short]
  · rw [Function.update_self, List.take_of_length_le]
    rw [length_pepperHex]
    exact noticed.writes absent

theorem bound_start (digest : ∀ key message, hashes.hmac key message ≠ [])
    (bound : Bound hashes m) (idle : m.running = none) (noticed : Noticed m path e) :
    Bound hashes (m.start hashes cfg words path e).2 := by
  have opened := openDb_entries m.db m.entries e.db
  have name : cStr (bytes "pepper_id") = bytes "pepper_id" := by decide
  unfold start
  generalize m.db.openDb m.entries e.db = o at opened
  obtain ⟨ok, entries⟩ := o
  dsimp only at opened ⊢
  split
  · exact bound.of_idle idle idle rfl rfl opened
  · cases loaded : loadOrCreatePepper m.files path e.pepper with
    | mk pepper? files =>
      cases pepper? with
      | none => exact bound.of_idle idle idle rfl rfl opened
      | some pepper =>
          have file := file_of_loaded noticed loaded
          have known : Bound hashes { m with entries, files } :=
            bound.of_idle idle idle rfl rfl opened
          have nonempty := pepperId_ne_nil digest pepper.2
          dsimp only
          split
          · exact known
          · split
            next unread =>
              -- an id that is there would have been read
              have unbound : m.entries (bytes "pepper_id") = none := by
                by_contra there
                obtain ⟨v, stored⟩ := Option.ne_none_iff_exists'.mp there
                obtain ⟨positive, clean⟩ := bound.entry v stored
                have read := noticed.reads there
                simp only [Database.metaGet, read, if_true, name, opened, stored,
                  Option.getD_some, clean] at unread
                exact positive unread
              have stores := noticed.stores unbound
              have stored : (Database.metaSet entries (bytes "pepper_id")
                  (pepperId hashes pepper.1) e.setsId).2 (bytes "pepper_id") =
                  some (pepperId hashes pepper.1) := by
                simp only [Database.metaSet, stores, if_true, name, Function.update_self,
                  cStr_pepperId]
              have nobody : m.past = [] := by
                refine List.eq_nil_iff_forall_not_mem.mpr fun b membership => ?_
                have bound := bound.peppers b (by simpa only [Machine.blindings, idle])
                rw [unbound] at bound
                cases bound
              refine bound_enter ⟨?_, known.rows, ?_, ?_⟩ idle file stored
              · intro b membership
                simp only [Machine.blindings, idle, nobody] at membership
                cases membership
              · intro v there
                obtain rfl := Option.some.inj (stored.symm.trans there)
                exact ⟨nonempty, cStr_pepperId pepper.1⟩
              · intro r running
                rw [idle] at running
                cases running
            next there =>
              split
              · exact known
              next same =>
                have same := Decidable.not_not.mp same
                refine bound_enter known idle file ?_
                have succeeds : Database.succeeds e.readsId = true := by
                  by_contra fails
                  simp [Database.metaGet, fails] at there
                simp only [Database.metaGet, succeeds, if_true, name] at there same
                cases stored : entries (bytes "pepper_id") with
                | none => simp [stored, cStr] at there
                | some v =>
                    obtain ⟨-, clean⟩ := known.entry v stored
                    rw [stored, Option.getD_some, clean] at same
                    exact stored.trans (congrArg some same)

/-- A row that a section of the server adds is that of a registration. -/
theorem rows_run {st : Startup} {w w' : World} {t : Thread} {out : Ext} {k : Cmd} {new : List Cmd}
    (registering : Registering st t k w) (ran : w.run st t.conn out k = some (w', new)) :
    (∃ events, w'.trace = w.trace ++ events) ∧
    ∀ row ∈ w'.server.db.users.rows, row ∈ w.server.db.users.rows ∨
      ∃ b ∈ w'.trace.filterMap (blinding? st), b.Made st.hashes row.2 := by
  obtain ⟨events, trace, -⟩ := trace_run ran
  refine ⟨⟨events, trace⟩, ?_⟩
  cases k with
  | db k =>
      obtain ⟨r, step, result⟩ := Option.map_eq_some_iff.mp ran
      obtain ⟨rfl, -⟩ := Prod.mk.inj result
      rcases users_runDb step with ⟨same, -⟩ |
        ⟨name, derived, saltHex, stored, since, row, rfl, -, username, salt, pwdHash, inserted,
          registered⟩
      · intro row there
        exact .inl (same ▸ there)
      · obtain ⟨valid, salted, rfl, -⟩ := registering _ _ _ _ _ rfl
        rw [cStr_of_validName valid] at username
        rw [salted] at salt
        rw [cStr_applyPepper] at pwdHash
        intro row' there
        rcases List.mem_append.mp (inserted ▸ there) with old | fresh
        · exact .inl old
        · obtain rfl := List.mem_singleton.mp fresh
          refine .inr ⟨⟨st.pepperHex, name, derived, saltHex⟩, ?_, username, salt, pwdHash⟩
          refine List.mem_filterMap.mpr ⟨.db (.registered name derived saltHex), ?_, rfl⟩
          simp [registered]
  | _ =>
      intro row there
      rw [db_run ran (by simp)] at there
      exact .inl there

theorem pepper_of_blinding {st : Startup} {events : List Event} {b : Blinding}
    (membership : b ∈ events.filterMap (blinding? st)) : b.pepperHex = st.pepperHex := by
  obtain ⟨event, -, reported⟩ := List.mem_filterMap.mp membership
  unfold blinding? at reported
  split at reported
  · obtain rfl := Option.some.inj reported
    rfl
  · cases reported

theorem bound_step {r : Running} {threads : Config Thread Cmd World} (bound : Bound hashes m)
    (running : m.running = some r)
    (step : (server r.st).Step Program.always r.cfg threads) :
    Bound hashes { m with running := some { r with cfg := threads } } := by
  obtain ⟨file, entry, same, b, reached⟩ := bound.running r running
  have later := reached.tail step
  obtain ⟨t, out, -, fired⟩ := step
  obtain ⟨k, rest, w, new, stack, ran, rfl⟩ := (server r.st).fire_eq_some_iff.mp fired
  have registering := (accounts_of_run reached).pending t k (by simp [stack])
  obtain ⟨⟨events, trace⟩, rows⟩ := rows_run registering (exec_eq_some_iff.mp ran).2
  have before : m.blindings = m.past ++ r.blindings := by
    simp only [Machine.blindings, running]
  have users : m.users = r.cfg.shared.server.db.users := by
    simp only [Machine.users, running]
  refine ⟨?_, ?_, bound.entry, ?_⟩
  · intro b membership
    rcases List.mem_append.mp membership with old | own
    · exact bound.peppers b (before ▸ List.mem_append_left _ old)
    · rw [pepper_of_blinding own]
      exact entry
  · intro row there
    rcases rows row there with old | ⟨b, membership, made⟩
    · obtain ⟨b, membership, made⟩ := bound.rows row (users ▸ old)
      refine ⟨b, ?_, made⟩
      rcases List.mem_append.mp (before ▸ membership) with past | own
      · exact List.mem_append_left _ past
      · refine List.mem_append_right _ ?_
        dsimp only [Running.blindings]
        rw [trace, List.filterMap_append]
        exact List.mem_append_left _ own
    · exact ⟨b, List.mem_append_right _ membership, same ▸ made⟩
  · intro r' running'
    obtain rfl := Option.some.inj running'
    exact ⟨file, entry, same, b, later⟩

theorem bound_stop (bound : Bound hashes m) : Bound hashes m.stop := by
  unfold stop
  cases running : m.running with
  | none => exact bound
  | some r =>
      have blindings : m.blindings = m.past ++ r.blindings := by
        simp only [Machine.blindings, running]
      have users : m.users = r.cfg.shared.server.db.users := by
        simp only [Machine.users, running]
      dsimp only
      refine ⟨?_, ?_, bound.entry, ?_⟩
      · intro b membership
        exact bound.peppers b (blindings ▸ membership)
      · intro row there
        obtain ⟨b, membership, made⟩ := bound.rows row (users ▸ there)
        exact ⟨b, blindings ▸ membership, made⟩
      · intro r' running'
        cases running'

/-! ## Whole lives -/

/-- A machine on which nobody has registered yet. -/
def fresh (files : Files) : Machine := { files }

theorem bound_fresh (files : Files) : Bound hashes (fresh files) := by
  refine ⟨List.forall_mem_nil _, List.forall_mem_nil _, ?_, ?_⟩
  · intro v stored
    cases stored
  · intro r running
    cases running

theorem bound_of_reaches (digest : ∀ key message, hashes.hmac key message ≠ []) {files : Files}
    (reached : Reaches hashes Noticed (fresh files) m) : Bound hashes m := by
  induction reached with
  | refl => exact bound_fresh files
  | tail _ next inductionHypothesis =>
      cases next with
      | start cfg words path e idle noticed =>
          exact bound_start digest inductionHypothesis idle noticed
      | step r threads running step => exact bound_step inductionHypothesis running step
      | stop => exact bound_stop inductionHypothesis

/-- As long as no start misses a failure, whatever server listens has its pepper in its
file, and all users of the database were blinded with a pepper of that id. -/
theorem sound_of_noticed (digest : ∀ key message, hashes.hmac key message ≠ []) {files : Files}
    (reached : Reaches hashes Noticed (fresh files) m) : m.Sound hashes := by
  intro r running
  have bound := bound_of_reaches digest reached
  obtain ⟨file, entry, -⟩ := bound.running r running
  refine ⟨file, length_pepperHex ⟨r.st.pepperHex, r.st.pepper⟩, ?_, bound.rows⟩
  intro b membership
  exact Option.some.inj ((bound.peppers b membership).symm.trans entry)

/-- The server may take any number of steps. -/
theorem reaches_of_serves {When : Machine → Bytes → StartExt → Prop} {r : Running}
    {threads : Config Thread Cmd World} (running : m.running = some r)
    (served : (server r.st).Reaches Program.always r.cfg threads) :
    Reaches hashes When m { m with running := some { r with cfg := threads } } := by
  induction served with
  | refl =>
      rw [← running]
      exact .refl
  | @tail middle _ _ step inductionHypothesis =>
      exact inductionHypothesis.tail (.step _ { r with cfg := middle } _ rfl step)

end Machine

/-! ## A start that cannot store the id -/

namespace Demo

open Machine

def otherPepper : Bytes := block 0x88 32

/-- The digests with those of the two peppers. -/
def pepperHashes : Hashes :=
  { hashes with
    hmac := fun key message =>
      if message = bytes "pepper-id" ∧ key = pepper then
        unhex "aed8771a53162ef1f5eeab6e39831589f0c293d6f082fc38e8d693e323f51967"
      else if message = bytes "pepper-id" ∧ key = otherPepper then
        unhex "6388023c599f6fc7d6bd06e5b9796336fdb72e7172a0a582f76ecad8f9d6946c"
      else hashes.hmac key message }

/-- Two files with a pepper each. -/
def peppers : Files := fun path =>
  if path = bytes "a.key" then some (toHex pepper)
  else if path = bytes "b.key" then some (toHex otherPepper)
  else none

/-- A start with one of the two files. -/
def opens (path : String) (e : StartExt) (m : Machine) : Machine :=
  (m.start pepperHashes { connRate := 0, msgRate := 0 } {} (bytes path) e).2

/-- Bob registers at the server that runs. -/
def registers (m : Machine) : Option Machine :=
  m.running.bind fun r =>
    ((server r.st).play Program.always registersBob r.cfg).map fun threads =>
      { m with running := some { r with cfg := threads } }

theorem reaches_registers {When : Machine → Bytes → StartExt → Prop} {m m' : Machine}
    (registered : registers m = some m') : Reaches pepperHashes When m m' := by
  obtain ⟨r, running, served⟩ := Option.bind_eq_some_iff.mp registered
  obtain ⟨threads, played, rfl⟩ := Option.map_eq_some_iff.mp served
  exact reaches_of_serves running (Program.reaches_of_play played)

theorem digest_pepperHashes (key message : Bytes) : pepperHashes.hmac key message ≠ [] := by
  have entries : ∀ entry ∈ macs, entry.2 ≠ [] := by decide
  simp only [pepperHashes]
  split
  · decide
  · split
    · decide
    · simp only [hashes]
      cases found : macs.lookup (key, message) with
      | none => simp [block]
      | some mac =>
          obtain ⟨before, after, listed, -⟩ := List.lookup_eq_some_iff.mp found
          exact entries ((key, message), mac) (by simp [listed])

/-- The first start binds the database, bob registers, and everything is as it should be. -/
theorem sound_of_noticed_bob :
    ∃ m, registers (opens "a.key" {} (fresh peppers)) = some m ∧ m.users.rows ≠ [] ∧
      m.Sound pepperHashes := by
  have run : (registers (opens "a.key" {} (fresh peppers))).map
      (fun m => decide (m.users.rows.length = 1)) = some true := by decide +kernel
  obtain ⟨m, registered, rows⟩ := Option.map_eq_some_iff.mp run
  refine ⟨m, registered, ?_, ?_⟩
  · intro none
    simp [none] at rows
  · have noticed : Noticed (fresh peppers) (bytes "a.key") {} := by
      refine ⟨nofun, ?_, ?_, ?_⟩
      · intro content found _
        obtain rfl : toHex pepper = content := Option.some.inj found
        simp [pepper, block]
      · intro bound
        exact absurd rfl bound
      · intro _
        rfl
    have started : Reaches pepperHashes Noticed (fresh peppers)
        (opens "a.key" {} (fresh peppers)) :=
      .single (.start (fresh peppers) _ _ (bytes "a.key") {} rfl noticed)
    exact sound_of_noticed digest_pepperHashes (started.trans (reaches_registers registered))

/-- When the first start cannot store the id and nobody notices, a server with another
pepper comes to listen on the same users. -/
theorem rebound :
    ¬ ∀ m, Reaches pepperHashes (fun _ _ _ => True) (fresh peppers) m → m.Sound pepperHashes := by
  intro sound
  let first := opens "a.key" { setsId := { steps := false } } (fresh peppers)
  have run : ((registers first).bind fun m =>
      (opens "b.key" {} m.stop).running.map fun r =>
        (opens "b.key" {} m.stop).blindings.any fun b =>
          decide (pepperId pepperHashes b.pepperHex ≠ pepperId pepperHashes r.st.pepperHex)) =
      some true := by decide +kernel
  obtain ⟨m, registered, second⟩ := Option.bind_eq_some_iff.mp run
  obtain ⟨r, running, differs⟩ := Option.map_eq_some_iff.mp second
  obtain ⟨b, membership, differs⟩ := List.any_eq_true.mp differs
  have stopped : m.stop.running = none := by
    unfold stop
    split
    next idle => exact idle
    next => rfl
  have reached : Reaches pepperHashes (fun _ _ _ => True) (fresh peppers)
      (opens "b.key" {} m.stop) := by
    refine .tail (.tail (.trans (.single ?_) (reaches_registers registered)) (.stop m)) ?_
    · exact .start (fresh peppers) _ _ (bytes "a.key") _ rfl trivial
    · exact .start m.stop _ _ (bytes "b.key") {} stopped trivial
  obtain ⟨-, -, peppers, -⟩ := sound _ reached r running
  exact of_decide_eq_true differs (peppers b membership)

end Demo

end OnlineChat
