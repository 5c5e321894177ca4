import OnlineChat.Client.Reception
import OnlineChat.Client.Wire
import OnlineChat.KeyDerivation

/-!
# The registration of an account

`register_account`: a request on a connection of its own, with two frames and their replies.
The password stays with the client; the server gets the key that it derives, and the proof
that binds the key to the challenge.
-/

namespace OnlineChat.Client

open Library MiniJson PwdHash

/-! ## The frames -/

/-- `make_msg` for a frame to the server with the number 0. -/
def accountFrame (type : String) (username content : Bytes) (now : Rat) : Frame :=
  [(bytes "ver", .int 1), (bytes "type", .str (bytes type)), (bytes "from", .str username),
    (bytes "to", .str (bytes "SERVER")), (bytes "room", .str []), (bytes "content", .str content),
    (bytes "ts", .int (pyTrunc now)), (bytes "seq", .int 0)]

def registerHello (username : Bytes) (now : Rat) : Frame :=
  accountFrame "REGISTER_HELLO" username [] now

/-- What `register_account` returns: whether it succeeded, the code and the text. -/
inductive Registered where
  | answered (ok : Bool) (code : Int) (text : PyValue)
  /-- It failed with code 0, and the text shows the type of the reply. -/
  | unexpected (type : PyValue)

/-- A reply that does not go on. -/
def registerFailed (reply : Frame) : Except PyError Registered :=
  if reply.kind = .err then do
    let code ← (reply.get "code" (.int 0)).toInt
    return .answered false code (reply.get "content" (.str (bytes "注册失败")))
  else return .unexpected (reply.get "type" .none)

/-- The second frame, or the end, after the reply to the first one. -/
def registerAnswer (lib : Hashlib) (username password : Bytes) (now : Rat) (reply : Frame) :
    Except PyError (Frame ⊕ Registered) :=
  if reply.kind = .challenge then do
    let derived ← deriveKey lib password (reply.get "salt" (.str []))
    let proof ← challengeProof lib derived (bytes "REGISTER") username
      (reply.get "content" (.str []))
    return .inl (accountFrame "REGISTER" username (toHex derived) now ++
      [(bytes "hmac", .str proof)])
  else .inr <$> registerFailed reply

def registerResult (reply : Frame) : Except PyError Registered :=
  if reply.kind = .registerOk then
    return .answered true 0 (reply.get "content" (.str (bytes "注册成功")))
  else registerFailed reply

/-! ## What the server reads -/

variable {floats : FloatText}

/-- The parser reads the members of a `dict` that has no key twice. -/
theorem parse_dict {fields : Frame} {members : List (Bytes × Value)}
    (reads : readFields fields = some members) (apart : (members.map Prod.fst).Nodup) :
    parse (dumps floats (.dict fields)) = .ok (Object.mk members).wrapped := by
  have object : readValue (.dict fields) = some (.obj members) := by
    rw [readValue, reads, Option.map_some, collect_of_nodup apart]
  have denotes : Denotes (dumps floats (.dict fields)) (.obj (Object.mk members).fields) :=
    denotes_dumps _ object
  have none : Blank [] := List.forall_mem_nil _
  have document := Document.object none denotes none
  rw [List.nil_append, List.append_nil] at document
  exact parse_of_document document

/-- A request about an account, as the server sees it. -/
structure Asks (type : String) (username content : Bytes) (o : Object) : Prop where
  type : o.getStr (bytes "type") = bytes type
  sender : o.getStr (bytes "from") = username
  content : o.getStr (bytes "content") = content

/-- Only numbers are wrapped. -/
theorem getStr_wrapped (o : Object) (k : Bytes) : o.wrapped.getStr k = o.getStr k := by
  obtain ⟨fields⟩ := o
  induction fields with
  | nil => rfl
  | cons field fields inductionHypothesis =>
      obtain ⟨k', v⟩ := field
      cases v with
      | str s =>
          by_cases same : k' = k
          · simp [Object.wrapped, Object.getStr, wrappedFields, Value.wrapped, same]
          · simpa [Object.wrapped, Object.getStr, wrappedFields, Value.wrapped, same]
              using inductionHypothesis
      | _ => exact inductionHypothesis

/-- The members of the frame, and of a field behind it. -/
def accountMembers (type : String) (username content : Bytes) (now : Rat)
    (more : List (Bytes × Value)) : List (Bytes × Value) :=
  [(bytes "ver", .num 1), (bytes "type", .str (bytes type)), (bytes "from", .str username),
    (bytes "to", .str (bytes "SERVER")), (bytes "room", .str []), (bytes "content", .str content),
    (bytes "ts", .num (pyTrunc now)), (bytes "seq", .num 0)] ++ more

theorem asks_accountMembers {type : String} {username content : Bytes} {now : Rat}
    {more : List (Bytes × Value)}
    (apart : ((accountMembers type username content now more).map Prod.fst).Nodup) :
    Asks type username content (Object.mk (accountMembers type username content now more)).wrapped := by
  generalize whole : Object.mk (accountMembers type username content now more) = o
  have str {k s : Bytes} (there : (k, .str s) ∈ accountMembers type username content now more) :
      o.wrapped.getStr k = s := by
    subst whole
    exact (getStr_wrapped _ k).trans (Object.getStr_of_mem apart there)
  exact
    { type := str (by simp [accountMembers])
      sender := str (by simp [accountMembers])
      content := str (by simp [accountMembers]) }

/-- The server reads REGISTER_HELLO. -/
theorem parse_registerHello (floats : FloatText) (username : Bytes) (now : Rat) :
    ∃ o, parse (dumps floats (.dict (registerHello username now))) = .ok o ∧
      Asks "REGISTER_HELLO" username [] o := by
  have apart : ((accountMembers "REGISTER_HELLO" username [] now []).map Prod.fst).Nodup := by
    rw [accountMembers, List.append_nil]
    exact names_distinct
  exact ⟨_, parse_dict rfl apart, asks_accountMembers apart⟩

theorem hmac_notMem : bytes "hmac" ∉ ([bytes "ver", bytes "type", bytes "from", bytes "to",
    bytes "room", bytes "content", bytes "ts", bytes "seq"] : List Bytes) := by
  decide +kernel

/-- The server reads REGISTER, with the proof behind the other fields. -/
theorem parse_register (floats : FloatText) (username content proof : Bytes) (now : Rat) :
    ∃ o, parse (dumps floats (.dict (accountFrame "REGISTER" username content now ++
        [(bytes "hmac", .str proof)]))) = .ok o ∧
      Asks "REGISTER" username content o ∧ o.getStr (bytes "hmac") = proof := by
  have apart : ((accountMembers "REGISTER" username content now
      [(bytes "hmac", .str proof)]).map Prod.fst).Nodup := by
    rw [accountMembers, List.map_append]
    refine List.nodup_append.mpr ⟨names_distinct, List.nodup_singleton _, ?_⟩
    intro k there k' last
    obtain rfl := List.mem_singleton.mp last
    rintro rfl
    exact hmac_notMem there
  refine ⟨_, parse_dict rfl apart, asks_accountMembers apart, ?_⟩
  rw [getStr_wrapped]
  exact Object.getStr_of_mem apart (List.mem_append_right _ List.mem_cons_self)

/-! ## The answers to a challenge -/

/-- The key of a password under a salt. -/
def derivedKey (password salt : Bytes) : Bytes :=
  pbkdf2 (hmac Sha256.digest 64) 32 password salt 100000 32

variable {lib : Hashlib} {username password salt nonce : Bytes} {reply : Frame}

theorem fromHexValue_toHex (data : Bytes) : fromHexValue (.str (toHex data)) = .ok data :=
  fromHexValue_of_fromHex (fromHex_toHex data)

/-- A library that follows the standards derives that key. -/
theorem deriveKey_toHex (standard : FollowsStandards lib) :
    deriveKey lib password (.str (toHex salt)) = .ok (derivedKey password salt) := by
  rw [deriveKey, fromHexValue_toHex, derivedKey, digest_eq_sha256,
    ← standard.pbkdf2 password salt 100000 32 (by omega) (by omega)]
  rfl

/-- It computes the proof that the server expects. -/
theorem challengeProof_toHex (standard : FollowsStandards lib) (op : Bytes)
    (size : nonce.length = kHashBytes) :
    challengeProof lib (derivedKey password salt) op username (.str (toHex nonce)) =
      .ok (PwdHash.challengeProof builtin (toHex (derivedKey password salt)) op username
        (toHex nonce)) := by
  have sizes := And.intro (length_derivedKey password salt 100000) size
  unfold derivedKey
  generalize pbkdf2 (hmac Sha256.digest 64) 32 password salt 100000 32 = K at sizes ⊢
  rw [challengeProof, fromHexValue_toHex, PwdHash.challengeProof, fromHex_toHex, fromHex_toHex]
  dsimp only
  rw [if_pos sizes, builtin_hmac, digest_eq_sha256, ← standard.hmac]
  rfl

/-- A proof is a text of 64 digits. -/
theorem length_challengeProof (op : Bytes) (size : nonce.length = kHashBytes) :
    fromHex (PwdHash.challengeProof builtin (toHex (derivedKey password salt)) op username
        (toHex nonce)) =
      some (builtin.hmac (derivedKey password salt) (op ++ username ++ nonce)) ∧
    (builtin.hmac (derivedKey password salt) (op ++ username ++ nonce)).length = kHashBytes := by
  have sizes := And.intro (length_derivedKey password salt 100000) size
  constructor
  · rw [PwdHash.challengeProof, fromHex_toHex, fromHex_toHex]
    dsimp only
    rw [derivedKey, if_pos sizes, fromHex_toHex]
  · rw [builtin_hmac, length_hmac]
    rfl

/-- The fields of a CHALLENGE. -/
structure Challenges (nonce salt : Bytes) (f : Frame) : Prop where
  kind : f.kind = .challenge
  nonce : f.get "content" (.str []) = .str (toHex nonce)
  salt : f.get "salt" (.str []) = .str (toHex salt)

theorem challenges_of_numbered {o : Object} {ts : Int}
    (numbered : Numbered (challengeFrame username (toHex nonce) (toHex salt) ts) o) :
    Challenges nonce salt (asFrame o) := by
  have named : (asFrame o).get "type" (.str []) = .str (bytes "CHALLENGE") := by
    rw [numbered.get (by decide)]
    simp [challengeFrame, header]
  constructor
  · exact kind_of_type "CHALLENGE" named
  · rw [numbered.get (by decide)]
    simp [challengeFrame]
  · rw [numbered.get (by decide)]
    simp [challengeFrame]

/-- `register_account` answers it with the key and a proof. -/
theorem registerAnswer_eq (standard : FollowsStandards lib) (size : nonce.length = kHashBytes)
    (asked : Challenges nonce salt reply) (now : Rat) :
    registerAnswer lib username password now reply =
      .ok (.inl (accountFrame "REGISTER" username (toHex (derivedKey password salt)) now ++
        [(bytes "hmac", .str (PwdHash.challengeProof builtin (toHex (derivedKey password salt))
          (bytes "REGISTER") username (toHex nonce)))])) := by
  rw [registerAnswer, if_pos asked.kind, asked.salt, asked.nonce, deriveKey_toHex standard]
  simp only [bind, Except.bind]
  rw [challengeProof_toHex standard _ size]
  rfl

/-- A session answers it with a proof. -/
theorem answerChallenge_eq {st : Settings} (standard : FollowsStandards st.lib)
    (password : st.password ≠ []) (size : nonce.length = kHashBytes)
    (asked : Challenges nonce salt reply) (sock : Socket) :
    ChatSession.answerChallenge st sock reply =
      [.request (.login sock (PwdHash.challengeProof builtin
        (toHex (derivedKey st.password salt)) (bytes "LOGIN") st.username (toHex nonce)))] := by
  rw [ChatSession.answerChallenge, if_neg password, asked.salt, asked.nonce,
    deriveKey_toHex standard]
  simp only [bind, Except.bind]
  rw [challengeProof_toHex standard _ size]

end OnlineChat.Client
