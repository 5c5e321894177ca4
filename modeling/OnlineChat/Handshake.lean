import OnlineChat.Client.Registration
import OnlineChat.Server.Admission

/-!
# Registration and login

A client and the thread of its connection, each with the frames of the other one.  A
registration leaves a row with the key of the password; from then on, also after restarts
under the same pepper, a session with that password logs in.  Between two frames of the
client the other threads go on as they like.
-/

namespace OnlineChat

open Library MiniJson ChatServer PwdHash
open Client (FloatText Hashlib Settings Socket Numbered asFrame derivedKey)

variable {st : Startup} {c : ConnId} {name body nonce salt : Bytes} {row : UserRow} {w : World}
  {cfg cfg' : Config Thread Cmd World} {lib : Hashlib} {answers : List Ext}
  {limited found drawn : Ext} {reply : Object} {after after' : Config Thread Cmd World → Prop}

/-! ## One frame from the client -/

/-- With these answers the frame arrives, in pieces. -/
def Transports (body : Bytes) (answers : List Ext) : Prop :=
  body.length ≤ kMaxFrame ∧ ∃ chunks, Brings chunks answers ∧ (∀ chunk ∈ chunks, Chunk chunk) ∧
    chunks.flatten = makeWireFrame body

/-- The thread of the connection goes from one state to another with these answers. -/
def Moves (st : Startup) (c : ConnId) (answers : List Ext)
    (cfg cfg' : Config Thread Cmd World) : Prop :=
  (server st).Alone (.client c) answers (cfg.stack (.client c)) cfg.shared
      (cfg'.stack (.client c)) cfg'.shared ∧
    (server st).Reaches Program.always cfg cfg'

/-- It waits for a frame. -/
def Listens (c : ConnId) (cfg : Config Thread Cmd World) : Prop :=
  cfg.stack (.client c) = [.own .recvLoop] ∧ (cfg.shared.view c).reader = {}

/-- It receives the frame and handles it with these answers. -/
def Attends (st : Startup) (c : ConnId) (cfg : Config Thread Cmd World) (body : Bytes)
    (answers : List Ext) (after : Config Thread Cmd World → Prop) : Prop :=
  ∀ brought, Transports body brought → ∃ cfg', Moves st c (brought ++ answers) cfg cfg' ∧ after cfg'

/-- It sends the reply and waits for the next frame. -/
def Responds (st : Startup) (c : ConnId) (reply : Object)
    (after : Config Thread Cmd World → Prop) (cfg : Config Thread Cmd World) : Prop :=
  cfg.stack (.client c) = [.io (.sendFrame c reply), .own .frames] ∧
    ∀ sent drained, ∃ cfg', Moves st c [sent, drained] cfg cfg' ∧ Listens c cfg' ∧ after cfg'

theorem Responds.mono (responds : Responds st c reply after cfg)
    (weaker : ∀ cfg', Listens c cfg' → after cfg' → after' cfg') :
    Responds st c reply after' cfg := by
  refine ⟨responds.1, ?_⟩
  intro sent drained
  obtain ⟨cfg', moves, listens, holds⟩ := responds.2 sent drained
  exact ⟨cfg', moves, listens, weaker cfg' listens holds⟩

theorem Attends.mono (attends : Attends st c cfg body answers after)
    (weaker : ∀ cfg', after cfg' → after' cfg') : Attends st c cfg body answers after' := by
  intro brought transports
  obtain ⟨cfg', moves, holds⟩ := attends brought transports
  exact ⟨cfg', moves, weaker cfg' holds⟩

theorem moves_of_alone {top : List Cmd}
    (alone : (server st).Alone (.client c) answers (cfg.stack (.client c)) cfg.shared top w) :
    Moves st c answers cfg ⟨w, Function.update cfg.stack (.client c) top⟩ := by
  refine ⟨?_, alone.reaches⟩
  dsimp only
  rwa [Function.update_self]

/-- Only the view of the connection matters for what it does with the frame. -/
theorem attends_of_frames (listens : Listens c cfg)
    (handled : ∀ w₁, w₁.view c = { cfg.shared.view c with reader := { buf := makeWireFrame body } } →
      body.length ≤ kMaxFrame → ∃ top w', (server st).Alone (.client c) answers [.own .frames] w₁
        top w' ∧ after ⟨w', Function.update cfg.stack (.client c) top⟩) :
    Attends st c cfg body answers after := by
  rintro brought ⟨short, chunks, brings, fits, whole⟩
  obtain ⟨w₁, arrived, view₁⟩ := @arrival_alone st c cfg.shared body chunks brought brings fits short [] listens.2
    whole
  obtain ⟨top, w', later, holds⟩ := handled w₁ view₁ short
  have alone := arrived.trans later
  rw [← listens.1] at alone
  exact ⟨_, moves_of_alone alone, holds⟩

theorem responds_of_view (stack : cfg.stack (.client c) = [.io (.sendFrame c reply), .own .frames])
    (reader : (cfg.shared.view c).reader = {})
    (holds : ∀ cfg', Listens c cfg' → cfg'.shared.view c = cfg.shared.view c → after cfg') :
    Responds st c reply after cfg := by
  refine ⟨stack, ?_⟩
  intro sent drained
  obtain ⟨w, answered, view⟩ := @answered_alone st c cfg.shared sent drained reply c reader
  rw [← stack] at answered
  have listens : Listens c ⟨w, Function.update cfg.stack (.client c) [.own .recvLoop]⟩ :=
    ⟨Function.update_self .., view ▸ reader⟩
  exact ⟨_, moves_of_alone answered, listens, holds _ listens view⟩

/-! ## The other threads in between -/

def others (c : ConnId) (_ : Config Thread Cmd World) (t : Thread) (_ : Ext) : Bool :=
  t ≠ .client c

/-- They leave the buffer and the challenge of the connection as they are, and nobody is logged in
on it. -/
structure Spared (c : ConnId) (cfg cfg' : Config Thread Cmd World) : Prop where
  stack : cfg'.stack (.client c) = cfg.stack (.client c)
  own : cfg'.shared.server.clients c = cfg.shared.server.clients c
  out : cfg'.shared.server.sess.authed c = false
  users : cfg.shared.server.db.users.rows <+: cfg'.shared.server.db.users.rows

/-- A section of another connection. -/
theorem Spared.step {t : Thread} {e : Ext} {k : Cmd} {rest new : List Cmd} (spared : Spared c cfg cfg')
    (other : t ≠ .client c) (ran : (server st).exec t e k cfg'.shared = some (w, new)) :
    Spared c cfg ⟨w, Function.update cfg'.stack t (new ++ rest)⟩ := by
  obtain ⟨here, run⟩ := exec_eq_some_iff.mp ran
  have apart (client : t.isClient = true) : c ≠ t.conn := by
    intro same
    exact other (Thread.eq_of_conn client rfl same.symm)
  refine ⟨?_, ?_, ?_, spared.users.trans (users_run run)⟩
  · rw [← spared.stack]
    exact Function.update_of_ne other.symm ..
  · rw [← spared.own]
    by_cases own : ∃ k', k = .own k'
    · obtain ⟨k, rfl⟩ := own
      rw [← (Prod.mk.inj (Option.some.inj run)).1]
      exact Function.update_of_ne (apart (by cases k <;> exact here)) ..
    · rw [clients_run run]
      rintro k' rfl
      exact own ⟨k', rfl⟩
  · have out := spared.out
    by_cases sess : ∃ k', k = .sess k'
    · obtain ⟨k, rfl⟩ := sess
      rw [← (Prod.mk.inj (Option.some.inj run)).1]
      dsimp only
      rcases runSess_cases st cfg'.shared.server t.conn e k with
        ⟨same, -⟩ | ⟨ip, port, arrival, -, same, -⟩ | ⟨name, token, exp, rfl, same, -⟩ |
        ⟨name, rfl, same, -⟩ | ⟨v, notifyRoom, -, -, same, -⟩
      all_goals rw [same]
      · exact out
      · exact out
      · exact (Function.update_of_ne (apart here) ..).trans out
      · exact (Function.update_of_ne (apart here) ..).trans out
      · by_cases dropped : c = v
        · subst dropped
          exact Function.update_self ..
        · exact (Function.update_of_ne dropped ..).trans out
    · rw [sess_run run]
      · exact out
      rintro k' rfl
      exact sess ⟨k', rfl⟩

theorem spared_of_others (run : (server st).Reaches (others c) cfg cfg')
    (out : cfg.shared.server.sess.authed c = false) : Spared c cfg cfg' := by
  apply run.invariant ⟨rfl, rfl, out, List.prefix_refl _⟩
  intro cfg₁ t e k rest w new _ spared allowed _ ran
  exact spared.step (of_decide_eq_true allowed) ran

theorem Spared.listens (spared : Spared c cfg cfg') (listens : Listens c cfg) : Listens c cfg' :=
  ⟨spared.stack.trans listens.1, (congrArg Client.reader spared.own).trans listens.2⟩

/-! ## The challenge -/

/-- The connection of a client that has not logged in and has not asked for a challenge. -/
structure Vacant (c : ConnId) (cfg : Config Thread Cmd World) : Prop where
  listens : Listens c cfg
  out : cfg.shared.server.sess.authed c = false
  slot : (cfg.shared.server.clients c).chal.active = false

/-- The text that a challenge takes from the random source. -/
structure Draws (e : Ext) (nonce : Bytes) : Prop where
  text : e.randomHex 1 32 = toHex nonce
  size : nonce.length = kHashBytes

/-- The connection waits for the proof. -/
structure Challenged (c : ConnId) (chal : Challenge) (cfg cfg' : Config Thread Cmd World) : Prop where
  listens : Listens c cfg'
  out : cfg'.shared.server.sess.authed c = false
  slot : (cfg'.shared.server.clients c).chal = chal
  users : cfg.shared.server.db.users.rows <+: cfg'.shared.server.db.users.rows

theorem Challenged.kept {chal : Challenge} {cfg₁ cfg₂ : Config Thread Cmd World}
    (challenged : Challenged c chal cfg cfg₁) (run : (server st).Reaches (others c) cfg₁ cfg₂) :
    Challenged c chal cfg cfg₂ := by
  have spared := spared_of_others run challenged.out
  exact
    { listens := spared.listens challenged.listens
      out := spared.out
      slot := (congrArg Client.chal spared.own).trans challenged.slot
      users := challenged.users.trans spared.users }

/-- A hello is answered with a fresh challenge. -/
theorem attends_hello {isRegister : Bool} {obj : Object} {saltHex : Bytes} {taken : Ext}
    (vacant : Vacant c cfg) (parsed : parse body = .ok obj)
    (type : obj.getStr (bytes "type") = helloType isRegister)
    (named : obj.getStr (bytes "from") = name) (valid : validUsername name = true)
    (admits : Admits st (cfg.shared.view c) c limited) (finds : Finds found)
    (welcomes : Welcomes cfg.shared.server.db name saltHex isRegister) :
    let chal := freshChallenge drawn isRegister name saltHex
    Attends st c cfg body [taken, limited, found, drawn]
      (Responds st c (challengeFrame name chal.nonceHex chal.saltHex (drawn.nowTs 2))
        (Challenged c chal cfg)) := by
  intro chal
  apply attends_of_frames vacant.listens
  intro w₁ view₁ short
  have admits₁ : Admits st (w₁.view c) c limited := by
    rw [view₁]
    exact admits
  have welcomes₁ : Welcomes (w₁.view c).db name saltHex isRegister := by
    rw [view₁]
    exact welcomes
  obtain ⟨w', limit, alone, view'⟩ := @hello_alone st c w₁ name obj body isRegister saltHex taken
    limited found drawn (view₁ ▸ rfl) short parsed type named valid (view₁ ▸ vacant.out)
    (view₁ ▸ vacant.slot) admits₁ finds welcomes₁
  refine ⟨_, w', alone, responds_of_view (Function.update_self ..) (view' ▸ rfl) ?_⟩
  intro cfg₂ listens view₂
  have view : cfg₂.shared.view c = _ := view₂.trans view'
  rw [view₁] at view
  have db : cfg₂.shared.server.db = cfg.shared.server.db := congrArg View.db view
  refine ⟨listens, (congrArg (·.sess.authed c) view).trans vacant.out, congrArg View.chal view, ?_⟩
  rw [db]

/-- The digits of the proof for a challenge. -/
theorem digits_challengeProof (password op : Bytes) (size : nonce.length = kHashBytes) :
    Digits (challengeProof builtin (toHex (derivedKey password salt)) op name (toHex nonce)) :=
  ⟨_, Client.length_challengeProof op size⟩

theorem digits_derivedKey (password salt : Bytes) : Digits (toHex (derivedKey password salt)) :=
  ⟨_, fromHex_toHex _, length_derivedKey password salt 100000⟩

/-! ## Registration -/

/-- The account has the key of that password. -/
def Registered (st : Startup) (name password salt : Bytes) (db : Database Origin) : Prop :=
  ∃ row, db.userRow name = some row ∧ row.salt = toHex salt ∧
    keyOf st name row = toHex (derivedKey password salt)

/-- The proof of a client for its challenge is accepted. -/
theorem attends_register {obj : Object} {derived saltHex nonceHex : Bytes} {exp : Int}
    {cfg₂ : Config Thread Cmd World} {taken compared inserted : Ext}
    (challenged : Challenged c ⟨true, true, name, saltHex, nonceHex, exp⟩ cfg cfg₂)
    (parsed : parse body = .ok obj) (asks : Client.Asks "REGISTER" name derived obj)
    (valid : validUsername name = true) (digits : Digits derived)
    (proof : obj.getStr (bytes "hmac") =
      challengeProof st.hashes derived (bytes "REGISTER") name nonceHex)
    (proofDigits : Digits (obj.getStr (bytes "hmac"))) (salted : cStr saltHex = saltHex)
    (fresh : compared.clock 0 ≤ exp) (absent : cfg₂.shared.server.db.userRow name = none)
    (idle : cfg₂.shared.server.db.inTx = false) (finds : Finds inserted) :
    Attends st c cfg₂ body [taken, compared, inserted]
      (Responds st c (registerOkFrame name (inserted.nowTs 1)) fun cfg₃ =>
        ∃ row, cfg₃.shared.server.db.userRow name = some row ∧ row.salt = saltHex ∧
          keyOf st name row = derived) := by
  apply attends_of_frames challenged.listens
  intro w₁ view₁ short
  have chal₁ : (w₁.view c).chal = ⟨true, true, name, saltHex, nonceHex, exp⟩ :=
    (congrArg View.chal view₁).trans challenged.slot
  have db₁ : (w₁.view c).db = cfg₂.shared.server.db := congrArg View.db view₁
  have sess₁ : (w₁.view c).sess = cfg₂.shared.server.sess := congrArg View.sess view₁
  have live : Live (w₁.view c).chal name true (compared.clock 0) := by
    rw [chal₁]
    exact ⟨rfl, rfl, rfl, fresh⟩
  obtain ⟨w₃, row, alone, view₃, found, salt, holds⟩ := @register_alone st c w₁ name obj body derived
    taken compared inserted (congrArg View.reader view₁) short parsed asks.type asks.sender valid
    asks.content digits (chal₁.symm ▸ proof) proofDigits (chal₁.symm ▸ salted)
    (sess₁.symm ▸ challenged.out) live (db₁.symm ▸ absent) (db₁.symm ▸ idle) finds
  refine ⟨_, w₃, alone, responds_of_view (Function.update_self ..) (congrArg View.reader view₃) ?_⟩
  intro cfg₄ _ view₄
  have db₄ : cfg₄.shared.server.db = (w₃.view c).db := congrArg View.db view₄
  refine ⟨row, db₄ ▸ found, ?_, holds⟩
  rw [salt, chal₁]

/-- What the client returns when the account exists. -/
theorem registerResult_ok {o : Object} {ts : Int} (numbered : Numbered (registerOkFrame name ts) o) :
    Client.registerResult (asFrame o) = .ok (.answered true 0 (.str (bytes "注册成功，请登录"))) := by
  have named : (asFrame o).get "type" (.str []) = .str (bytes "REGISTER_OK") := by
    rw [numbered.get (by decide)]
    simp [registerOkFrame, textFrame, header]
  have kind : (asFrame o).kind = .registerOk := Client.kind_of_type "REGISTER_OK" named
  have content : (asFrame o).get "content" (.str (bytes "注册成功")) =
      .str (bytes "注册成功，请登录") := by
    rw [numbered.get (by decide)]
    simp [registerOkFrame, textFrame, header]
  rw [Client.registerResult, if_pos kind, content]
  rfl

/-- The challenge of a hello, with the texts that it draws. -/
theorem freshChallenge_eq {isRegister : Bool} {saltHex : Bytes} (draws : Draws drawn nonce)
    (salted : (if isRegister then drawn.randomHex 0 16 else saltHex) = toHex salt) :
    freshChallenge drawn isRegister name saltHex = ⟨true, isRegister, name, toHex salt, toHex nonce,
      drawn.clock 1 + kChallengeTtlMs⟩ := by
  rw [freshChallenge, draws.text, salted]

/-- A registration succeeds when nobody else takes the name in between: the client answers the
challenge that it gets, the row gets the key of the password, and the client is told so. -/
theorem registers_of_hello (standard : FollowsStandards lib) (hashes : st.hashes = builtin)
    (floats : FloatText) (password : Bytes) (vacant : Vacant c cfg)
    (valid : validUsername name = true) (absent : cfg.shared.server.db.userRow name = none)
    (admits : Admits st (cfg.shared.view c) c limited) (finds : Finds found)
    (draws : Draws drawn nonce) (salted : drawn.randomHex 0 16 = toHex salt) (taken : Ext)
    (now now' : Rat) :
    let challenge := challengeFrame name (toHex nonce) (toHex salt) (drawn.nowTs 2)
    Attends st c cfg (Client.dumps floats (.dict (Client.registerHello name now)))
      [taken, limited, found, drawn] <| Responds st c challenge fun cfg₁ =>
        ∀ o, Numbered challenge o → ∃ proof,
          Client.registerAnswer lib name password now' (asFrame o) = .ok (.inl proof) ∧
          ∀ cfg₂ taken' compared inserted, (server st).Reaches (others c) cfg₁ cfg₂ →
            cfg₂.shared.server.db.userRow name = none → cfg₂.shared.server.db.inTx = false →
            compared.clock 0 ≤ drawn.clock 1 + kChallengeTtlMs → Finds inserted →
            let done := registerOkFrame name (inserted.nowTs 1)
            Attends st c cfg₂ (Client.dumps floats (.dict proof)) [taken', compared, inserted] <|
              Responds st c done fun cfg₃ =>
                Registered st name password salt cfg₃.shared.server.db ∧
                ∀ o', Numbered done o' → Client.registerResult (asFrame o') =
                  .ok (.answered true 0 (.str (bytes "注册成功，请登录"))) := by
  intro challenge
  obtain ⟨obj, parsed, asks⟩ := Client.parse_registerHello floats name now
  have hello := @attends_hello st c name _ cfg limited found drawn true obj [] taken vacant parsed
    asks.type asks.sender valid admits finds ⟨absent, rfl⟩
  rw [@freshChallenge_eq name nonce salt drawn true [] draws salted] at hello
  refine hello.mono fun _ responds => responds.mono ?_
  intro cfg₁ _ challenged o numbered
  refine ⟨_, Client.registerAnswer_eq standard draws.size (Client.challenges_of_numbered numbered)
    now', ?_⟩
  intro cfg₂ taken' compared inserted run absent' idle fresh finds' done
  obtain ⟨obj', parsed', asks', hmac⟩ := Client.parse_register floats name
    (toHex (derivedKey password salt)) (challengeProof builtin (toHex (derivedKey password salt))
      (bytes "REGISTER") name (toHex nonce)) now'
  have proofDigits := @digits_challengeProof name nonce salt password (bytes "REGISTER") draws.size
  have answered := @attends_register st c name _ cfg obj' _ _ _ _ cfg₂ taken' compared inserted
    (challenged.kept run) parsed' asks' valid (digits_derivedKey password salt) (hashes ▸ hmac)
    (hmac ▸ proofDigits) (cStr_toHex salt) fresh absent' idle finds'
  refine answered.mono fun _ responds => responds.mono ?_
  intro cfg₃ _ row
  exact ⟨row, fun _ numbered' => registerResult_ok numbered'⟩

/-- The start of a server with the digest functions of the program. -/
def Demo.standard : Startup := { Demo.startup with hashes := builtin }

/-- The thread of a connection waits for its first frame. -/
def Demo.listens (cfg : Config Thread Cmd World) (c : ConnId) : Bool :=
  match cfg.stack (.client c), (cfg.shared.server.clients c).reader with
  | [.own .recvLoop], ⟨[], 1048576, false⟩ =>
      !cfg.shared.server.sess.authed c && !(cfg.shared.server.clients c).chal.active
  | _, _ => false

theorem Demo.vacant_of_listens (listens : Demo.listens cfg c = true) : Vacant c cfg := by
  unfold Demo.listens at listens
  split at listens
  next stack reader =>
    obtain ⟨out, slot⟩ := (Bool.and_eq_true _ _).mp listens
    exact ⟨⟨stack, reader⟩, (Bool.not_eq_true' _).mp out, (Bool.not_eq_true' _).mp slot⟩
  next => cases listens

/-- A frame that comes in one piece. -/
theorem transports_whole (fits : (makeWireFrame body).length ≤ 4096) :
    Transports body [{ received := .data (makeWireFrame body) }] := by
  have short : body.length ≤ kMaxFrame := by
    rw [makeWireFrame, List.length_append] at fits
    unfold kMaxFrame
    omega
  refine ⟨short, [makeWireFrame body], .last rfl, ?_, List.flatten_singleton⟩
  intro chunk there
  obtain rfl := List.mem_singleton.mp there
  exact ⟨List.cons_ne_nil _ _, fits⟩

theorem Demo.admits (v : View) (c : ConnId) (e : Ext) : Admits Demo.standard v c e := by
  intro limited
  cases Rat.lt_irrefl limited

/-- The library of a client. -/
def Demo.hashlib : Hashlib where
  pbkdf2Hmac := pbkdf2 (Library.hmac Fips180.sha256 64) 32
  hmac := Library.hmac Fips180.sha256 64

theorem Demo.standard_hashlib : FollowsStandards Demo.hashlib := ⟨fun _ _ => rfl, fun _ _ _ _ _ _ => rfl⟩

/-- The first frame of the registration of bob. -/
def Demo.bobHello : Bytes :=
  Client.dumps Client.Demo.noFloats (.dict (Client.registerHello (bytes "bob") 0))

theorem registers_of_hello_bob :
    ∃ cfg cfg', (server Demo.standard).Reaches Program.always (start Demo.standard Demo.file {}) cfg ∧
      (server Demo.standard).Reaches Program.always cfg cfg' ∧
      cfg'.stack (.client 1) = [.io (.sendFrame 1 (challengeFrame (bytes "bob")
        (toHex (Demo.block 3 32)) (toHex (Demo.block 3 16)) 0)), .own .frames] := by
  obtain ⟨cfg, run, ready⟩ := Program.exists_reaches_of_play (server Demo.standard) Program.always
    (Demo.connects 1) (start Demo.standard Demo.file {})
    (fun cfg => Demo.listens cfg 1 && decide (cfg.shared.server.db.userRow (bytes "bob") = none))
    (by decide +kernel)
  obtain ⟨listens, absent⟩ := (Bool.and_eq_true _ _).mp ready
  have draws : Draws { random := fun _ _ => 3 } (Demo.block 3 32) := ⟨by decide, by decide⟩
  have registers := @registers_of_hello Demo.standard 1 (bytes "bob") (Demo.block 3 32)
    (Demo.block 3 16) cfg Demo.hashlib {} {} { random := fun _ _ => 3 } Demo.standard_hashlib rfl
    Client.Demo.noFloats (bytes "pw") (Demo.vacant_of_listens listens) (by decide +kernel)
    (of_decide_eq_true absent) (Demo.admits _ _ _) ⟨rfl, rfl⟩ draws (by decide) {} 0 0
  have arrives : Transports Demo.bobHello [{ received := .data (makeWireFrame Demo.bobHello) }] :=
    transports_whole (by decide +kernel)
  obtain ⟨cfg', moves, stack, -⟩ := registers _ arrives
  exact ⟨cfg, cfg', run, moves.2, stack⟩

/-! ## Login -/

/-- The proof of a session for its challenge puts the session on the connection. -/
theorem attends_login {key saltHex nonceHex proof : Bytes} {exp : Int}
    {cfg₂ : Config Thread Cmd World} {taken compared looked checked issued installed finished : Ext}
    {obj : Object}
    (challenged : Challenged c ⟨true, false, name, saltHex, nonceHex, exp⟩ cfg cfg₂)
    (parsed : parse body = .ok obj) (type : obj.getStr (bytes "type") = bytes "LOGIN")
    (named : obj.getStr (bytes "from") = name) (content : obj.getStr (bytes "content") = proof)
    (valid : validUsername name = true) (digits : Digits proof)
    (found : cfg.shared.server.db.userRow name = some row) (holds : keyOf st name row = key)
    (nonempty : key ≠ [])
    (proved : proof = challengeProof st.hashes key (bytes "LOGIN") name nonceHex)
    (fresh : compared.clock 0 ≤ exp) (offline : cfg₂.shared.server.sess.online name = none)
    (finds : Finds looked) :
    Attends st c cfg₂ body [taken, compared, looked, checked, issued, installed, finished]
      fun cfg₃ => ∃ room exp, Seated cfg₃.shared.server.sess name c ∧
        cfg₃.stack (.client c) = [.io (.sendFrame c
            (authOkFrame name room (issued.randomHex 0 32) exp (finished.nowTs 0))),
          .db (.pushOffline name), .router (.finishRoom name none), .own .frames] := by
  apply attends_of_frames challenged.listens
  intro w₁ view₁ short
  have chal₁ : (w₁.view c).chal = ⟨true, false, name, saltHex, nonceHex, exp⟩ :=
    (congrArg View.chal view₁).trans challenged.slot
  have db₁ : (w₁.view c).db = cfg₂.shared.server.db := congrArg View.db view₁
  have sess₁ : (w₁.view c).sess = cfg₂.shared.server.sess := congrArg View.sess view₁
  have live : Live (w₁.view c).chal name false (compared.clock 0) := by
    rw [chal₁]
    exact ⟨rfl, rfl, rfl, fresh⟩
  have found₂ := Database.userRow_of_grown challenged.users found
  obtain ⟨w₃, room, exp', alone, seated⟩ := @login_alone st c w₁ name obj body row key proof taken
    compared looked checked issued installed finished (congrArg View.reader view₁) short parsed type
    named valid content digits (sess₁.symm ▸ challenged.out) (sess₁.symm ▸ offline) live
    (db₁.symm ▸ found₂) holds nonempty finds (chal₁.symm ▸ proved)
  exact ⟨_, w₃, alone, room, exp', seated, Function.update_self ..⟩

/-- What the session makes of AUTH_OK. -/
theorem dispatch_authOk {set : Settings} {session : Client.ChatSession} {sock : Socket}
    {room token : Bytes} {exp ts : Int} {o : Object}
    (numbered : Numbered (authOkFrame name room token exp ts) o) :
    (session.dispatch set sock (asFrame o)).1 =
        { session with authed := true, tokens := { token := .str token, tokenExp := exp } } ∧
      (session.dispatch set sock (asFrame o)).2 =
        [.flushPending, .restoreRoom (.str room), .recvLoop sock] := by
  have named : (asFrame o).get "type" (.str []) = .str (bytes "AUTH_OK") := by
    rw [numbered.get (by decide)]
    simp [authOkFrame, header]
  have kind : (asFrame o).kind = .authOk := Client.kind_of_type "AUTH_OK" named
  have content : (asFrame o).get "content" (.str []) = .str token := by
    rw [numbered.get (by decide)]
    simp [authOkFrame, header]
  have expires : (asFrame o).get "exp" (.int 0) = .int exp := by
    rw [numbered.get (by decide)]
    simp [authOkFrame, header]
  have room : (asFrame o).get "room" (.str []) = .str room := by
    rw [numbered.get (by decide)]
    simp [authOkFrame, header]
  unfold Client.ChatSession.dispatch
  rw [kind, content, expires, room]
  exact ⟨rfl, rfl⟩

/-- In every later life the row of a registered account is as it was. -/
theorem Registered.later {password : Bytes} {life life' : Life}
    (registered : Registered life.st name password salt life.cfg.shared.server.db)
    (later : life.Later life') :
    Registered life'.st name password salt life'.cfg.shared.server.db := by
  obtain ⟨row, found, salted, holds⟩ := registered
  obtain ⟨grown, pepper, hashes⟩ := later.keeps
  refine ⟨row, Database.userRow_of_grown grown found, salted, ?_⟩
  rw [← holds, keyOf, keyOf, pepper, hashes]

/-- The server reads the requests of a login. -/
theorem parse_loginHello (set : Settings) (e : Client.Ext) (seq : Int) (sock : Socket)
    (floats : FloatText) :
    ∃ o, parse ((Client.ChatSession.requestMsg set e seq (.loginHello sock)).body floats) = .ok o ∧
      Client.Asks "LOGIN_HELLO" set.username [] o := by
  obtain ⟨o, parsed, reads⟩ := @Client.parse_body floats
    (Client.ChatSession.requestMsg set e seq (.loginHello sock)) rfl
  exact ⟨o, parsed, reads.type, reads.sender, reads.content⟩

theorem parse_login (set : Settings) (e : Client.Ext) (seq : Int) (sock : Socket) (proof : Bytes)
    (floats : FloatText) :
    ∃ o, parse ((Client.ChatSession.requestMsg set e seq (.login sock proof)).body floats) = .ok o ∧
      Client.Asks "LOGIN" set.username proof o := by
  obtain ⟨o, parsed, reads⟩ := @Client.parse_body floats
    (Client.ChatSession.requestMsg set e seq (.login sock proof)) rfl
  exact ⟨o, parsed, reads.type, reads.sender, reads.content⟩

/-- Once an account is registered, a session with its password logs in, in every later life and
whatever the other threads do in between, unless the user is online by then. -/
theorem logs_in_of_registered {set : Settings} {life life' : Life}
    (registered : Registered life.st set.username set.password salt life.cfg.shared.server.db)
    (later : life.Later life') (standard : FollowsStandards set.lib)
    (hashes : life.st.hashes = builtin) (floats : FloatText) (password : set.password ≠ [])
    (valid : validUsername set.username = true) (vacant : Vacant c life'.cfg)
    (admits : Admits life'.st (life'.cfg.shared.view c) c limited) (finds : Finds found)
    (draws : Draws drawn nonce) (taken : Ext) (e : Client.Ext) (seq : Int) (sock : Socket) :
    let challenge := challengeFrame set.username (toHex nonce) (toHex salt) (drawn.nowTs 2)
    Attends life'.st c life'.cfg
      ((Client.ChatSession.requestMsg set e seq (.loginHello sock)).body floats)
      [taken, limited, found, drawn] <| Responds life'.st c challenge fun cfg₁ =>
        ∀ o, Numbered challenge o → ∃ proof,
          Client.ChatSession.answerChallenge set sock (asFrame o) = [.request (.login sock proof)] ∧
          ∀ e' seq' cfg₂ taken' compared looked checked issued installed finished,
            (server life'.st).Reaches (others c) cfg₁ cfg₂ →
            cfg₂.shared.server.sess.online set.username = none →
            compared.clock 0 ≤ drawn.clock 1 + kChallengeTtlMs → Finds looked →
            Attends life'.st c cfg₂
              ((Client.ChatSession.requestMsg set e' seq' (.login sock proof)).body floats)
              [taken', compared, looked, checked, issued, installed, finished] fun cfg₃ =>
                ∃ room exp, Seated cfg₃.shared.server.sess set.username c ∧
                  (let done := authOkFrame set.username room (issued.randomHex 0 32) exp
                    (finished.nowTs 0)
                  (cfg₃.stack (.client c)).head? = some (.io (.sendFrame c done)) ∧
                  ∀ session o', Numbered done o' →
                    (Client.ChatSession.dispatch set session sock (asFrame o')).1 = { session with
                      authed := true
                      tokens := { token := .str (issued.randomHex 0 32), tokenExp := exp } }) := by
  intro challenge
  have standing := registered.later later
  obtain ⟨row, there, salted, holds⟩ := standing
  have builtin' : life'.st.hashes = builtin := later.keeps.2.2.trans hashes
  obtain ⟨obj, parsed, asks⟩ := parse_loginHello set e seq sock floats
  have hello := @attends_hello life'.st c set.username _ life'.cfg limited found drawn false obj
    (toHex salt) taken vacant parsed asks.type asks.sender valid admits finds ⟨row, there, salted⟩
  rw [@freshChallenge_eq set.username nonce salt drawn false (toHex salt) draws rfl] at hello
  refine hello.mono fun _ responds => responds.mono ?_
  intro cfg₁ _ challenged o numbered
  refine ⟨_, Client.answerChallenge_eq standard password draws.size
    (Client.challenges_of_numbered numbered) sock, ?_⟩
  intro e' seq' cfg₂ taken' compared looked checked issued installed finished run offline fresh finds'
  generalize proved : challengeProof builtin (toHex (derivedKey set.password salt)) (bytes "LOGIN")
    set.username (toHex nonce) = proof
  obtain ⟨obj', parsed', asks'⟩ := parse_login set e' seq' sock proof floats
  have digits := @digits_challengeProof set.username nonce salt set.password (bytes "LOGIN") draws.size
  have nonempty : toHex (derivedKey set.password salt) ≠ [] := by
    intro empty
    have length := (digits_derivedKey set.password salt).length
    rw [empty] at length
    cases length
  have answered := @attends_login life'.st c set.username _ row life'.cfg _ _ (toHex nonce) proof _
    cfg₂ taken' compared looked checked issued installed finished obj' (challenged.kept run) parsed'
    asks'.type asks'.sender asks'.content valid (proved ▸ digits) there holds nonempty
    (builtin' ▸ proved.symm) fresh offline finds'
  refine answered.mono ?_
  rintro cfg₃ ⟨room, exp, seated, stack⟩
  refine ⟨room, exp, seated, ?_, fun _ _ numbered' => (dispatch_authOk numbered').1⟩
  rw [stack]
  rfl

/-- The row that the registration of a key leaves. -/
def blindedRow (st : Startup) (name key saltHex : Bytes) : UserRow :=
  { username := cStr name
    salt := cStr saltHex
    pwdHash := cStr (applyPepper st.hashes key st.pepperHex name saltHex)
    createdAt := 0 }

theorem keyOf_blindedRow {key saltHex : Bytes} (digits : Digits key) (salted : cStr saltHex = saltHex) :
    keyOf st name (blindedRow st name key saltHex) = key :=
  keyOf_registered salted (applyPepper_ne_nil digits) rfl rfl

/-- A file with one account. -/
def fileOf (row : UserRow) : Database Unit := { users := Table.insert ∅ row }

theorem userRow_start {row : UserRow} (named : row.username = cStr name) :
    (start st (fileOf row) {}).shared.server.db.userRow name = some row := by
  obtain ⟨rooms, db⟩ := db_boot st (fileOf row) {}
  have there : (fileOf row).userRow name = some row := by
    simp [Database.userRow, fileOf, Table.insert, named]
  refine Database.userRow_of_grown ?_ there
  simp only [start, db]
  exact List.prefix_refl _

/-- Alice, whose password is `pw`. -/
def Demo.alice : Settings :=
  { username := bytes "alice", password := bytes "pw", lib := Demo.hashlib }

def Demo.aliceFile : Database Unit :=
  fileOf (blindedRow Demo.standard (bytes "alice")
    (toHex (derivedKey (bytes "pw") (Demo.block 0x5a 16))) (toHex (Demo.block 0x5a 16)))

theorem Demo.registered_alice :
    Registered Demo.standard (bytes "alice") (bytes "pw") (Demo.block 0x5a 16)
      (start Demo.standard Demo.aliceFile {}).shared.server.db :=
  ⟨_, userRow_start rfl, cStr_toHex _, keyOf_blindedRow (digits_derivedKey _ _) (cStr_toHex _)⟩

/-- The first frame of the login of alice. -/
def Demo.aliceHello : Bytes :=
  (Client.ChatSession.requestMsg Demo.alice {} 1 (.loginHello 1)).body Client.Demo.noFloats

theorem logs_in_of_registered_alice :
    ∃ cfg cfg', (server Demo.standard).Reaches Program.always
        (start Demo.standard Demo.aliceFile {}) cfg ∧
      (server Demo.standard).Reaches Program.always cfg cfg' ∧
      cfg'.stack (.client 1) = [.io (.sendFrame 1 (challengeFrame (bytes "alice")
        (toHex (Demo.block 3 32)) (toHex (Demo.block 0x5a 16)) 0)), .own .frames] := by
  obtain ⟨cfg, run, listens⟩ := Program.exists_reaches_of_play (server Demo.standard) Program.always
    (Demo.connects 1) (start Demo.standard Demo.aliceFile {}) (Demo.listens · 1)
    (by decide +kernel)
  have later : Life.Later ⟨Demo.standard, start Demo.standard Demo.aliceFile {}⟩
      ⟨Demo.standard, cfg⟩ := run.lift (Life.mk Demo.standard) fun cfg cfg' => .step ⟨_, cfg⟩ cfg'
  have draws : Draws { random := fun _ _ => 3 } (Demo.block 3 32) := ⟨by decide, by decide⟩
  have logsIn := @logs_in_of_registered 1 (Demo.block 3 32) (Demo.block 0x5a 16) {} {}
    { random := fun _ _ => 3 } Demo.alice _ _ Demo.registered_alice later Demo.standard_hashlib rfl
    Client.Demo.noFloats (by decide) (by decide +kernel) (Demo.vacant_of_listens listens)
    (Demo.admits _ _ _) ⟨rfl, rfl⟩ draws {} {} 1 1
  have arrives : Transports Demo.aliceHello [{ received := .data (makeWireFrame Demo.aliceHello) }] :=
    transports_whole (by decide +kernel)
  obtain ⟨cfg', moves, stack, -⟩ := logsIn _ arrives
  exact ⟨cfg, cfg', run, moves.2, stack⟩

end OnlineChat
