import OnlineChat.Client.Registration
import OnlineChat.Library.Alone
import OnlineChat.Server.Accounts

/-!
# A connection that is let in

What the thread of a connection does with the frames of a registration and of a login when
nobody interferes: each section succeeds, up to the row of the account and up to the session.
-/

namespace OnlineChat

open Library MiniJson ChatServer PwdHash

variable {st : Startup} {s : ChatServer} {c : ConnId} {e : Ext} {w : World} {v : View}
  {name : Bytes} {obj : Object} {body : Bytes} {row : UserRow}

/-! ## Sections of one thread -/

/-- What the handlers of an account look at. -/
structure View where
  sess : Sessions
  db : Database Origin
  limit : KeyedRateLimiter
  chal : Challenge
  reader : FrameReader

def World.view (w : World) (c : ConnId) : View :=
  ⟨w.server.sess, w.server.db, w.server.connLimit, (w.server.clients c).chal,
    (w.server.clients c).reader⟩

theorem exec_own (st : Startup) (c : ConnId) (e : Ext) (w : World) (k : OwnCmd) :
    ∃ w', (server st).exec (.client c) e (.own k) w = some (w', (runOwn st w.server c e k).next) ∧
      w'.view c = { w.view c with
        chal := (runOwn st w.server c e k).state.chal
        reader := (runOwn st w.server c e k).state.reader } := by
  have here : Cmd.runsOn (.own k) (.client c) = true := by cases k <;> rfl
  refine ⟨_, exec_eq_some_iff.mpr ⟨here, rfl⟩, ?_⟩
  simp only [World.view, Thread.conn, Function.update_self]

theorem exec_limit (st : Startup) (c : ConnId) (e : Ext) (w : World) {k : LimitCmd}
    (here : Cmd.runsOn (.limit k) (.client c) = true) :
    ∃ w' limit, (server st).exec (.client c) e (.limit k) w =
        some (w', (runLimit st w.server c e k).next) ∧ w'.view c = { w.view c with limit } :=
  ⟨_, _, exec_eq_some_iff.mpr ⟨here, rfl⟩, rfl⟩

theorem exec_token (st : Startup) (c : ConnId) (e : Ext) (w : World) (k : TokenCmd) :
    ∃ w', (server st).exec (.client c) e (.token k) w =
        some (w', (runToken st w.server c e k).next) ∧ w'.view c = w.view c := by
  have here : Cmd.runsOn (.token k) (.client c) = true := by cases k <;> rfl
  exact ⟨_, exec_eq_some_iff.mpr ⟨here, rfl⟩, rfl⟩

theorem exec_sess (st : Startup) (c : ConnId) (e : Ext) (w : World) {k : SessCmd}
    (here : Cmd.runsOn (.sess k) (.client c) = true) :
    ∃ w', (server st).exec (.client c) e (.sess k) w =
        some (w', (runSess st w.server c e k).next) ∧
      w'.view c = { w.view c with sess := (runSess st w.server c e k).state.1 } :=
  ⟨_, exec_eq_some_iff.mpr ⟨here, rfl⟩, rfl⟩

theorem exec_router (st : Startup) (c : ConnId) (e : Ext) (w : World) (k : RouterCmd) :
    ∃ w', (server st).exec (.client c) e (.router k) w =
        some (w', (runRouter w.server c e k).next) ∧ w'.view c = w.view c := by
  have here : Cmd.runsOn (.router k) (.client c) = true := by cases k <;> rfl
  exact ⟨_, exec_eq_some_iff.mpr ⟨here, rfl⟩, rfl⟩

theorem exec_db {k : DbCmd} {r : Effect (Database Origin) DbEvent}
    (ran : runDb st w.server c e k = some r) :
    ∃ w', (server st).exec (.client c) e (.db k) w = some (w', r.next) ∧
      w'.view c = { w.view c with db := r.state } := by
  have here : Cmd.runsOn (.db k) (.client c) = true := by cases k <;> rfl
  refine ⟨⟨{ w.server with db := r.state }, w.trace ++ r.events.map .db⟩, ?_, rfl⟩
  refine exec_eq_some_iff.mpr ⟨here, ?_⟩
  change (runDb st w.server c e k).map _ = _
  rw [ran]
  rfl

/-- A connection is sent a frame. -/
theorem exec_sendFrame (st : Startup) (c : ConnId) (e : Ext) (w : World) (v : ConnId)
    (obj : Object) :
    ∃ w', (server st).exec (.client c) e (.io (.sendFrame v obj)) w = some (w', []) ∧
      w'.view c = w.view c := by
  obtain ⟨sides, ran⟩ := exists_sides_of_sendFrame st c e w v obj
  exact ⟨_, ran, rfl⟩

/-! ## Frames -/

/-- A frame that has arrived is taken out and handled. -/
theorem exec_frames {k : Cmd} (reader : (w.view c).reader = { buf := makeWireFrame body })
    (short : body.length ≤ kMaxFrame) (one : handleBody w.server c e body = ([k], false)) :
    ∃ w', (server st).exec (.client c) e (.own .frames) w = some (w', [k, .own .frames]) ∧
      w'.view c = { w.view c with reader := {} } := by
  have fits : body.length < 2 ^ 32 := Nat.lt_of_le_of_lt short (by decide)
  have taken : (w.server.clients c).reader.next = (some body, {}) := by
    change (w.server.clients c).reader = { buf := makeWireFrame body } at reader
    rw [reader]
    exact FrameReader.next_frame rfl (List.append_nil _).symm short fits
  obtain ⟨w', ran, view⟩ := exec_own st c e w .frames
  have run : runOwn st w.server c e .frames =
      { state := { w.server.clients c with reader := {} }, next := [k, .own .frames] } := by
    simp [runOwn, frames, taken, one]
  rw [run] at ran view
  exact ⟨w', ran, view⟩

/-- When no frame is left the thread receives again. -/
theorem exec_frames_none (st : Startup) (e : Ext) (reader : (w.view c).reader = {}) :
    ∃ w', (server st).exec (.client c) e (.own .frames) w = some (w', [.own .recvLoop]) ∧
      w'.view c = w.view c := by
  have none : (w.server.clients c).reader.next = (none, {}) := by
    change (w.server.clients c).reader = {} at reader
    rw [reader]
    rfl
  obtain ⟨w', ran, view⟩ := exec_own st c e w .frames
  have run : runOwn st w.server c e .frames =
      { state := { w.server.clients c with reader := {} }, next := [.own .recvLoop] } := by
    simp [runOwn, frames, none]
  rw [run] at ran view
  refine ⟨w', ran, view.trans ?_⟩
  rw [← reader]
  rfl

/-! ## `*_HELLO` -/

/-- The name of the frame that asks for a challenge. -/
def helloType (isRegister : Bool) : Bytes :=
  if isRegister then bytes "REGISTER_HELLO" else bytes "LOGIN_HELLO"

/-- Its handler. -/
def helloCmd (isRegister : Bool) (obj : Object) : LimitCmd :=
  if isRegister then .doRegisterHello obj else .doLoginHello obj

theorem handleBody_hello (isRegister : Bool) (parsed : parse body = .ok obj)
    (type : obj.getStr (bytes "type") = helloType isRegister) :
    handleBody s c e body = ([.limit (helloCmd isRegister obj)], false) := by
  unfold handleBody
  rw [parsed]
  cases isRegister <;> simp [type, helloType, helloCmd, Client.bytes_inj]

/-- The limit of the address lets a hello through at that reading of the clock. -/
def Admits (st : Startup) (v : View) (c : ConnId) (e : Ext) : Prop :=
  0 < st.cfg.connRate →
    (v.limit.allow ((v.sess.arrival c).peer.takeWhile (· ≠ 58)) (e.nowSec 0)).1 = true

/-- The statement finds what is there. -/
def Finds (e : Ext) : Prop := e.sql.prepares = true ∧ e.sql.steps = true

theorem next_hello (isRegister : Bool) (out : (w.view c).sess.authed c = false)
    (admits : Admits st (w.view c) c e) (named : obj.getStr (bytes "from") = name)
    (valid : validUsername name = true) :
    (runLimit st w.server c e (helloCmd isRegister obj)).next =
      [.db (.findHello name isRegister)] := by
  change w.server.sess.authed c = false at out
  have handler : (runLimit st w.server c e (helloCmd isRegister obj)).next =
      [.db (.findHello (obj.getStr (bytes "from")) isRegister)] := by
    cases isRegister
    all_goals
      simp only [helloCmd, if_false, if_true, Bool.false_eq_true, runLimit, doLoginHello,
        doRegisterHello, doHello, out]
      by_cases limited : 0 < st.cfg.connRate
      · have allowed := admits limited
        dsimp only [World.view] at allowed
        simp only [limited, if_true, allowed, not_true_eq_false, if_false, named, valid]
      · simp only [limited, if_false, not_true_eq_false, named, valid]
  rw [handler, named]

/-- The challenge that `sendChallenge` puts into an empty slot. -/
def freshChallenge (e : Ext) (isRegister : Bool) (name salt : Bytes) : Challenge where
  active := true
  isRegister := isRegister
  user := name
  saltHex := if isRegister then e.randomHex 0 16 else salt
  nonceHex := e.randomHex 1 32
  expMs := e.clock 1 + kChallengeTtlMs

/-- A login wants the account, and its salt; a registration wants it to be absent. -/
def Welcomes (db : Database Origin) (name salt : Bytes) (isRegister : Bool) : Prop :=
  if isRegister then db.userRow name = none ∧ salt = []
  else ∃ row, db.userRow name = some row ∧ row.salt = salt

theorem next_findHello {isRegister : Bool} {salt : Bytes} (finds : Finds e)
    (welcomes : Welcomes s.db name salt isRegister) :
    findHello s c e name isRegister =
      { state := s.db, next := [.own (.sendChallenge name salt isRegister)] } := by
  have lookup : s.db.findUser name e.sql = s.db.userRow name := if_pos finds
  unfold findHello
  rw [lookup]
  cases isRegister with
  | false =>
      obtain ⟨row, found, rfl⟩ := welcomes
      rw [found]
  | true =>
      obtain ⟨absent, rfl⟩ := welcomes
      rw [absent]

/-- A hello on a connection that is not authenticated and has no challenge out is answered
with a fresh one. -/
theorem hello_alone {isRegister : Bool} {salt : Bytes} {taken limited found drawn : Ext}
    (reader : (w.view c).reader = { buf := makeWireFrame body }) (short : body.length ≤ kMaxFrame)
    (parsed : parse body = .ok obj) (type : obj.getStr (bytes "type") = helloType isRegister)
    (named : obj.getStr (bytes "from") = name) (valid : validUsername name = true)
    (out : (w.view c).sess.authed c = false) (empty : (w.view c).chal.active = false)
    (admits : Admits st (w.view c) c limited) (finds : Finds found)
    (welcomes : Welcomes (w.view c).db name salt isRegister) :
    let chal := freshChallenge drawn isRegister name salt
    ∃ w' limit, (server st).Alone (.client c) [taken, limited, found, drawn] [.own .frames] w
        [.io (.sendFrame c (challengeFrame name chal.nonceHex chal.saltHex (drawn.nowTs 2))),
          .own .frames] w' ∧
      w'.view c = { w.view c with chal, limit, reader := {} } := by
  intro chal
  have handled := @handleBody_hello w.server c taken obj body isRegister parsed type
  obtain ⟨w₁, ran₁, view₁⟩ := @exec_frames st _ _ _ _ _ reader short handled
  have here : Cmd.runsOn (.limit (helloCmd isRegister obj)) (.client c) = true := by
    cases isRegister <;> rfl
  obtain ⟨w₂, limit, ran₂, view₂⟩ := exec_limit st c limited w₁ here
  rw [next_hello isRegister (view₁ ▸ out) (view₁ ▸ admits) named valid] at ran₂
  have db₂ : w₂.server.db = w.server.db :=
    (congrArg View.db view₂).trans (congrArg View.db view₁)
  have looked : runDb st w₂.server c found (.findHello name isRegister) =
      some { state := w₂.server.db, next := [.own (.sendChallenge name salt isRegister)] } :=
    congrArg some (next_findHello finds (db₂.symm ▸ welcomes))
  obtain ⟨w₃, ran₃, view₃⟩ := exec_db (c := c) looked
  have same : (w₃.view c).chal = (w.view c).chal := by rw [view₃, view₂, view₁]
  have empty₃ : (w₃.server.clients c).chal.active = false :=
    (congrArg Challenge.active same).trans empty
  obtain ⟨w₄, ran₄, view₄⟩ := exec_own st c drawn w₃ (.sendChallenge name salt isRegister)
  have issued : runOwn st w₃.server c drawn (.sendChallenge name salt isRegister) =
      { state := { w₃.server.clients c with chal }
        events := [.issued c isRegister name chal.nonceHex (drawn.clock 1)]
        next := [.io (.sendFrame c
          (challengeFrame name chal.nonceHex chal.saltHex (drawn.nowTs 2)))] } := by
    unfold runOwn sendChallenge
    dsimp only
    rw [if_neg (by simp [empty₃])]
    rfl
  rw [issued] at ran₄ view₄
  refine ⟨w₄, limit, .step ran₁ (.step ran₂ (.step ran₃ (.single ran₄))), ?_⟩
  rw [view₄]
  change { w₃.view c with chal, reader := (w₃.view c).reader } = _
  rw [view₃]
  change { w₂.view c with chal } = _
  rw [view₂, view₁]

/-- Between two frames: the answer is sent, and nothing else has arrived. -/
theorem answered_alone {answer drained : Ext} {frame : Object} {v : ConnId}
    (reader : (w.view c).reader = {}) :
    ∃ w', (server st).Alone (.client c) [answer, drained]
        [.io (.sendFrame v frame), .own .frames] w [.own .recvLoop] w' ∧
      w'.view c = w.view c := by
  obtain ⟨w₁, ran₁, view₁⟩ := exec_sendFrame st c answer w v frame
  obtain ⟨w₂, ran₂, view₂⟩ := exec_frames_none (w := w₁) st drained (view₁ ▸ reader)
  exact ⟨w₂, .step ran₁ (.single ran₂), view₂.trans view₁⟩

/-! ## Arrival -/

/-- The chunks arrive in order; between two of them the frame is not complete. -/
inductive Brings : List Bytes → List Ext → Prop where
  | last {chunk : Bytes} {e : Ext} : e.received = .data chunk → Brings [chunk] [e]
  | cons {chunk : Bytes} {chunks : List Bytes} {e looked : Ext} {answers : List Ext} :
      e.received = .data chunk → Brings chunks answers →
      Brings (chunk :: chunks) (e :: looked :: answers)

/-- A chunk is what one `recv` can return. -/
def Chunk (chunk : Bytes) : Prop := chunk ≠ [] ∧ chunk.length ≤ 4096

theorem exec_recvLoop {chunk : Bytes} {r : FrameReader} (st : Startup)
    (received : e.received = .data chunk) (fits : Chunk chunk) (reader : (w.view c).reader = r) :
    ∃ w', (server st).exec (.client c) e (.own .recvLoop) w = some (w', [.own .frames]) ∧
      w'.view c = { w.view c with reader := r.feed chunk } := by
  obtain ⟨w', ran, view⟩ := exec_own st c e w .recvLoop
  have run : runOwn st w.server c e .recvLoop =
      { state := { w.server.clients c with lastActive := some (e.clock 0), reader := r.feed chunk }
        next := [.own .frames] } := by
    subst reader
    simp only [runOwn, recvLoop, received]
    rw [if_neg fits.1, List.take_of_length_le fits.2]
    rfl
  rw [run] at ran view
  exact ⟨w', ran, view⟩

/-- However a frame is cut on the way, it is in the buffer when its last byte has arrived. -/
theorem arrival_alone {chunks : List Bytes} {answers : List Ext} (brings : Brings chunks answers)
    (fits : ∀ chunk ∈ chunks, Chunk chunk) (short : body.length ≤ kMaxFrame) {got : Bytes}
    (reader : (w.view c).reader = { buf := got }) (cut : got ++ chunks.flatten = makeWireFrame body) :
    ∃ w', (server st).Alone (.client c) answers [.own .recvLoop] w [.own .frames] w' ∧
      w'.view c = { w.view c with reader := { buf := makeWireFrame body } } := by
  induction brings generalizing w got with
  | @last chunk e received =>
      obtain ⟨w', ran, view⟩ := exec_recvLoop st received (fits chunk List.mem_cons_self) reader
      refine ⟨w', .single ran, ?_⟩
      rw [view, ← cut, List.flatten_singleton]
      rfl
  | @cons chunk chunks e looked answers received later inductionHypothesis =>
      obtain ⟨first, rest⟩ := List.forall_mem_cons.mp fits
      obtain ⟨w₁, ran₁, view₁⟩ := exec_recvLoop st received first reader
      have buffered : (w₁.view c).reader = { buf := got ++ chunk } := by
        rw [view₁]
        rfl
      have cut' : got ++ chunk ++ chunks.flatten = makeWireFrame body := by
        rw [List.append_assoc]
        exact cut
      have missing : chunks.flatten ≠ [] := by
        cases later with
        | last _ | cons _ _ =>
            obtain ⟨nonempty, -⟩ := rest _ List.mem_cons_self
            simp [nonempty]
      have waits : (w₁.server.clients c).reader.next = (none, { buf := got ++ chunk }) := by
        change (w₁.server.clients c).reader = _ at buffered
        rw [buffered]
        exact FrameReader.next_partial rfl cut' missing short
          (Nat.lt_of_le_of_lt short (by decide))
      obtain ⟨w₂, ran₂, view₂⟩ := exec_own st c looked w₁ .frames
      have run : runOwn st w₁.server c looked .frames =
          { state := { w₁.server.clients c with reader := { buf := got ++ chunk } }
            next := [.own .recvLoop] } := by
        simp [runOwn, frames, waits]
      rw [run] at ran₂ view₂
      have buffered₂ : (w₂.view c).reader = { buf := got ++ chunk } := by rw [view₂]
      obtain ⟨w', onward, view⟩ := inductionHypothesis rest buffered₂ cut'
      refine ⟨w', .step ran₁ (.step ran₂ onward), ?_⟩
      rw [view, view₂]
      change { w₁.view c with reader := { buf := makeWireFrame body } } = _
      rw [view₁]

/-! ## `REGISTER` -/

theorem handleBody_register (parsed : parse body = .ok obj)
    (type : obj.getStr (bytes "type") = bytes "REGISTER") :
    handleBody s c e body = ([.own (.doRegister obj)], false) := by
  unfold handleBody
  rw [parsed]
  simp [type, Client.bytes_inj]

theorem handleBody_login (parsed : parse body = .ok obj)
    (type : obj.getStr (bytes "type") = bytes "LOGIN") :
    handleBody s c e body = ([.own (.doLogin obj)], false) := by
  unfold handleBody
  rw [parsed]
  simp [type, Client.bytes_inj]

/-- The text of 32 bytes. -/
def Digits (hex : Bytes) : Prop := ∃ data, fromHex hex = some data ∧ data.length = kHashBytes

theorem Digits.length {hex : Bytes} (digits : Digits hex) : hex.length = 64 := by
  obtain ⟨data, decoded, size⟩ := digits
  rw [length_of_fromHex decoded, size]
  rfl

theorem Digits.decodes {hex : Bytes} (digits : Digits hex) : decodes hex = true := by
  obtain ⟨data, decoded, size⟩ := digits
  simp [ChatServer.decodes, decoded, size]

/-- A challenge of that user and kind that has not expired. -/
structure Live (chal : Challenge) (name : Bytes) (isRegister : Bool) (now : Int) : Prop where
  active : chal.active = true
  kind : chal.isRegister = isRegister
  user : chal.user = name
  fresh : now ≤ chal.expMs

theorem takeChallenge_live {chal : Challenge} {isRegister : Bool} {now : Int}
    (live : Live chal name isRegister now) :
    takeChallenge chal name isRegister now =
      (some chal, { chal with active := false, nonceHex := [] }) := by
  unfold takeChallenge
  rw [if_pos ⟨live.active, live.kind, live.user, Int.not_lt.mpr live.fresh⟩]

/-- A key of 32 bytes is blinded, since the pepper has 32 bytes. -/
theorem applyPepper_ne_nil {key salt : Bytes} (digits : Digits key) :
    applyPepper st.hashes key st.pepperHex name salt ≠ [] := by
  obtain ⟨data, decoded, size⟩ := digits
  obtain ⟨pepper, peppered, width⟩ := Option.map_eq_some_iff.mp st.pepper
  unfold applyPepper
  rw [decoded, peppered]
  dsimp only
  rw [if_pos ⟨size, width⟩]
  intro empty
  have none := congrArg List.length empty
  rw [length_toHex, xorMask, List.length_mapIdx, size] at none
  cases none

/-- The checks of `doRegister` on the proof for a live challenge. -/
theorem next_doRegister {derived : Bytes} (out : s.sess.authed c = false)
    (named : obj.getStr (bytes "from") = name) (valid : validUsername name = true)
    (key : obj.getStr (bytes "content") = derived) (digits : Digits derived)
    (proof : obj.getStr (bytes "hmac") =
      challengeProof st.hashes derived (bytes "REGISTER") name (s.clients c).chal.nonceHex)
    (proofDigits : Digits (obj.getStr (bytes "hmac")))
    (live : Live (s.clients c).chal name true (e.clock 0)) :
    (runOwn st s c e (.doRegister obj)).state = { s.clients c with
        chal := { (s.clients c).chal with active := false, nonceHex := [] } } ∧
      (runOwn st s c e (.doRegister obj)).next = [.db (.createUser name derived
        (s.clients c).chal.saltHex (applyPepper st.hashes derived st.pepperHex name
          (s.clients c).chal.saltHex) none)] := by
  have sizes : ¬ (¬ validUsername name ∨ derived.length ≠ 64 ∨
      (obj.getStr (bytes "hmac")).length ≠ 64) := by
    simp [valid, digits.length, proofDigits.length]
  have digital : ¬ (¬ decodes derived ∨ ¬ decodes (obj.getStr (bytes "hmac"))) := by
    simp [digits.decodes, proofDigits.decodes]
  have same := constantTimeEq_iff.mpr proof.symm
  unfold runOwn doRegister
  dsimp only
  rw [if_neg (by simp [out]), named, key, takeChallenge_live live]
  dsimp only
  rw [if_neg sizes, if_neg digital, if_neg (not_not.mpr same), if_neg (applyPepper_ne_nil digits)]
  exact ⟨rfl, rfl⟩

/-- `create_user` on an idle database that does not have the account. -/
theorem createUser_absent {derived saltHex : Bytes} (absent : s.db.userRow name = none)
    (idle : s.db.inTx = false) (finds : Finds e) (digits : Digits derived)
    (salted : cStr saltHex = saltHex) :
    ∃ row r, createUser s c e name derived saltHex
        (applyPepper st.hashes derived st.pepperHex name saltHex) none = some r ∧
      r.state = { s.db with users := s.db.users.insert row } ∧
      r.next = [.io (.sendFrame c (registerOkFrame name (e.nowTs 1)))] ∧
      r.state.userRow name = some row ∧ row.salt = saltHex ∧ keyOf st name row = derived := by
  have door : s.db.waitTxIdle none e.sql.spurious = .passes := by
    unfold Database.waitTxIdle
    rw [if_neg (by simp), if_neg (by simp [idle])]
  unfold createUser whenTxIdle
  rw [door]
  let row : UserRow :=
    { username := cStr name, salt := cStr saltHex
      pwdHash := cStr (applyPepper st.hashes derived st.pepperHex name saltHex)
      createdAt := e.nowTs 0 }
  have unused : s.db.users.rows.find? (fun row => row.2.username = cStr name) = none := by
    simpa [Database.userRow] using absent
  have fresh : ¬ (s.db.users.rows.any fun row => row.2.username = cStr name) = true := by
    simpa [List.find?_eq_none] using unused
  have created : s.db.createUser name saltHex
      (applyPepper st.hashes derived st.pepperHex name saltHex) (e.nowTs 0) e.sql =
        (.inserted, { s.db with users := s.db.users.insert row }) := by
    unfold Database.createUser
    rw [if_neg (not_not.mpr finds.1), if_neg fresh, if_neg (not_not.mpr finds.2)]
  rw [created]
  refine ⟨row, _, rfl, rfl, rfl, ?_, salted, ?_⟩
  · simp [Database.userRow, Table.insert, List.find?_append, unused, row]
  · exact keyOf_registered salted (applyPepper_ne_nil digits) rfl rfl

/-- A REGISTER with the proof for the live challenge leaves the row of the account. -/
theorem register_alone {derived : Bytes} {taken compared inserted : Ext}
    (reader : (w.view c).reader = { buf := makeWireFrame body }) (short : body.length ≤ kMaxFrame)
    (parsed : parse body = .ok obj) (type : obj.getStr (bytes "type") = bytes "REGISTER")
    (named : obj.getStr (bytes "from") = name) (valid : validUsername name = true)
    (key : obj.getStr (bytes "content") = derived) (digits : Digits derived)
    (proof : obj.getStr (bytes "hmac") =
      challengeProof st.hashes derived (bytes "REGISTER") name (w.view c).chal.nonceHex)
    (proofDigits : Digits (obj.getStr (bytes "hmac")))
    (salted : cStr (w.view c).chal.saltHex = (w.view c).chal.saltHex)
    (out : (w.view c).sess.authed c = false)
    (live : Live (w.view c).chal name true (compared.clock 0))
    (absent : (w.view c).db.userRow name = none) (idle : (w.view c).db.inTx = false)
    (finds : Finds inserted) :
    ∃ w' row, (server st).Alone (.client c) [taken, compared, inserted] [.own .frames] w
        [.io (.sendFrame c (registerOkFrame name (inserted.nowTs 1))), .own .frames] w' ∧
      w'.view c = { w.view c with
        db := { (w.view c).db with users := (w.view c).db.users.insert row }
        chal := { (w.view c).chal with active := false, nonceHex := [] }
        reader := {} } ∧
      (w'.view c).db.userRow name = some row ∧ row.salt = (w.view c).chal.saltHex ∧
      keyOf st name row = derived := by
  have handled := @handleBody_register w.server c taken obj body parsed type
  obtain ⟨w₁, ran₁, view₁⟩ := @exec_frames st _ _ _ _ _ reader short handled
  have sess₁ : w₁.server.sess = w.server.sess := congrArg View.sess view₁
  have chal₁ : (w₁.server.clients c).chal = (w.server.clients c).chal := congrArg View.chal view₁
  have reader₁ : (w₁.server.clients c).reader = {} := congrArg View.reader view₁
  have db₁ : w₁.server.db = w.server.db := congrArg View.db view₁
  obtain ⟨w₂, ran₂, view₂⟩ := exec_own st c compared w₁ (.doRegister obj)
  obtain ⟨state₂, next₂⟩ := @next_doRegister st w₁.server c compared name obj derived
    (sess₁ ▸ out) named valid key digits (chal₁ ▸ proof) proofDigits (chal₁ ▸ live)
  rw [next₂, chal₁] at ran₂
  rw [state₂] at view₂
  have db₂ : w₂.server.db = w.server.db := (congrArg View.db view₂).trans db₁
  obtain ⟨row, r, created, state, next, found, holds⟩ := @createUser_absent st w₂.server c inserted
    name derived (w.server.clients c).chal.saltHex (db₂ ▸ absent) (db₂ ▸ idle) finds digits salted
  obtain ⟨w₃, ran₃, view₃⟩ := @exec_db st c inserted w₂
    (.createUser name derived (w.server.clients c).chal.saltHex _ none) r created
  rw [next] at ran₃
  refine ⟨w₃, row, .step ran₁ (.step ran₂ (.single ran₃)), ?_, ?_, holds⟩
  · rw [view₃, state, db₂, view₂]
    dsimp only
    rw [chal₁, reader₁, view₁]
    rfl
  · rw [view₃]
    exact found

/-! ## `LOGIN` -/

/-- The checks of `doLogin` on the proof for a live challenge. -/
theorem next_doLogin {proof : Bytes} (out : s.sess.authed c = false)
    (named : obj.getStr (bytes "from") = name) (valid : validUsername name = true)
    (content : obj.getStr (bytes "content") = proof) (digits : Digits proof)
    (live : Live (s.clients c).chal name false (e.clock 0)) :
    (runOwn st s c e (.doLogin obj)).state = { s.clients c with
        chal := { (s.clients c).chal with active := false, nonceHex := [] } } ∧
      (runOwn st s c e (.doLogin obj)).next =
        [.db (.findLogin name proof (s.clients c).chal.nonceHex)] := by
  have sizes : ¬ (¬ validUsername name ∨ proof.length ≠ 64) := by simp [valid, digits.length]
  have digital : ¬ ¬ decodes proof := not_not.mpr digits.decodes
  unfold runOwn doLogin
  dsimp only
  rw [if_neg (by simp [out]), named, content, takeChallenge_live live]
  dsimp only
  rw [if_neg sizes, if_neg digital]
  exact ⟨rfl, rfl⟩

/-- `find_user` and the proof check. -/
theorem findLogin_proof {key nonceHex proof : Bytes} (found : s.db.userRow name = some row)
    (holds : keyOf st name row = key) (nonempty : key ≠ []) (finds : Finds e)
    (proved : proof = challengeProof st.hashes key (bytes "LOGIN") name nonceHex) :
    (findLogin st s c e name proof nonceHex).next = [.sess (.checkLogin name)] :=
  (findLogin_passes found holds nonempty finds.1 finds.2).mpr proved

/-- The session is on the connection. -/
structure Seated (sess : Sessions) (name : Bytes) (c : ConnId) : Prop where
  authed : sess.authed c = true
  username : sess.username c = name
  online : sess.online name = some c

theorem seated_install (s : ChatServer) (c : ConnId) (name : Bytes) :
    Seated (install s c name) name c := by
  constructor <;> exact Function.update_self ..

/-- A LOGIN with the proof of the key in the row puts the session on the connection. -/
theorem login_alone {key proof : Bytes} {taken compared looked checked issued installed finished : Ext}
    (reader : (w.view c).reader = { buf := makeWireFrame body }) (short : body.length ≤ kMaxFrame)
    (parsed : parse body = .ok obj) (type : obj.getStr (bytes "type") = bytes "LOGIN")
    (named : obj.getStr (bytes "from") = name) (valid : validUsername name = true)
    (content : obj.getStr (bytes "content") = proof) (digits : Digits proof)
    (out : (w.view c).sess.authed c = false) (offline : (w.view c).sess.online name = none)
    (live : Live (w.view c).chal name false (compared.clock 0))
    (found : (w.view c).db.userRow name = some row) (holds : keyOf st name row = key)
    (nonempty : key ≠ []) (finds : Finds looked)
    (proved : proof = challengeProof st.hashes key (bytes "LOGIN") name (w.view c).chal.nonceHex) :
    ∃ w' room exp,
      (server st).Alone (.client c) [taken, compared, looked, checked, issued, installed, finished]
        [.own .frames] w
        [.io (.sendFrame c (authOkFrame name room (issued.randomHex 0 32) exp (finished.nowTs 0))),
          .db (.pushOffline name), .router (.finishRoom name none), .own .frames] w' ∧
      Seated w'.server.sess name c := by
  have handled := @handleBody_login w.server c taken obj body parsed type
  obtain ⟨w₁, ran₁, view₁⟩ := @exec_frames st _ _ _ _ _ reader short handled
  have sess₁ : w₁.server.sess = w.server.sess := congrArg View.sess view₁
  have chal₁ : (w₁.server.clients c).chal = (w.server.clients c).chal := congrArg View.chal view₁
  have db₁ : w₁.server.db = w.server.db := congrArg View.db view₁
  obtain ⟨w₂, ran₂, view₂⟩ := exec_own st c compared w₁ (.doLogin obj)
  obtain ⟨-, next₂⟩ := @next_doLogin st w₁.server c compared name obj proof (sess₁ ▸ out) named valid
    content digits (chal₁ ▸ live)
  rw [next₂, chal₁] at ran₂
  have sess₂ : w₂.server.sess = w.server.sess := (congrArg View.sess view₂).trans sess₁
  have db₂ : w₂.server.db = w.server.db := (congrArg View.db view₂).trans db₁
  obtain ⟨w₃, ran₃, view₃⟩ := @exec_db st c looked w₂
    (.findLogin name proof (w.server.clients c).chal.nonceHex) _ rfl
  have next₃ : (findLogin st w₂.server c looked name proof
      (w.server.clients c).chal.nonceHex).next = [.sess (.checkLogin name)] :=
    findLogin_proof (db₂.symm ▸ found) holds nonempty finds proved
  rw [next₃] at ran₃
  have sess₃ : w₃.server.sess = w.server.sess := (congrArg View.sess view₃).trans sess₂
  obtain ⟨w₄, ran₄, view₄⟩ := exec_sess st c checked w₃ (k := .checkLogin name) rfl
  have offline₃ : w₃.server.sess.online name = none := sess₃ ▸ offline
  have next₄ : (runSess st w₃.server c checked (.checkLogin name)).next =
      [.token (.issueLogin name)] := by
    simp [runSess, checkLogin, offline₃]
  rw [next₄] at ran₄
  obtain ⟨w₅, ran₅, -⟩ := exec_token st c issued w₄ (.issueLogin name)
  obtain ⟨w₆, ran₆, view₆⟩ := exec_sess st c installed w₅
    (k := .installLogin name (issued.randomHex 0 32) (issue st w₄.server issued name).2.1) rfl
  obtain ⟨w₇, ran₇, view₇⟩ := exec_router st c finished w₆
    (.finishAuth name (issued.randomHex 0 32) (issue st w₄.server issued name).2.1 none)
  refine ⟨w₇, w₆.server.router.userRoom name, (issue st w₄.server issued name).2.1,
    .step ran₁ (.step ran₂ (.step ran₃ (.step ran₄ (.step ran₅ (.step ran₆ (.single ran₇)))))), ?_⟩
  have sess₆ : w₆.server.sess = install w₅.server c name := congrArg View.sess view₆
  have sess₇ : w₇.server.sess = install w₅.server c name :=
    (congrArg View.sess view₇).trans sess₆
  rw [sess₇]
  exact seated_install w₅.server c name

end OnlineChat
