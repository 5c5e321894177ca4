import OnlineChat.Server.State

/-!
# Registration and login

The challenge slot, the handlers of `*_HELLO`, `REGISTER`, `LOGIN` and `AUTH`, and
`finishAuth`.  Each handler is cut where it takes or gives back a lock.
-/

namespace OnlineChat.ChatServer

open MiniJson PwdHash

variable (st : Startup) (s : ChatServer) (c : ConnId) (e : Ext)

/-! ## Challenges -/

/-- `kChallengeTtlMs`. -/
def kChallengeTtlMs : Int := 60000

/-- A live challenge of that user and kind is sent again as it is. -/
def sendChallenge (user saltHex : Bytes) (isRegister : Bool) : Effect Client OwnEvent :=
  let client := s.clients c
  let chal := client.chal
  if chal.active ∧ chal.isRegister = isRegister ∧ chal.user = user ∧ e.clock 0 < chal.expMs then
    { state := client
      next := [.io (.sendFrame c (challengeFrame user chal.nonceHex chal.saltHex (e.nowTs 2)))] }
  else
    let fresh : Challenge :=
      { active := true, isRegister, user
        saltHex := if isRegister then e.randomHex 0 16 else saltHex
        nonceHex := e.randomHex 1 32
        expMs := e.clock 1 + kChallengeTtlMs }
    { state := { client with chal := fresh }
      events := [.issued c isRegister user fresh.nonceHex (e.clock 1)]
      next := [.io (.sendFrame c (challengeFrame user fresh.nonceHex fresh.saltHex (e.nowTs 2)))] }

/-- The challenge, when it is one of that user and kind and has not expired, and the
slot after its consumption. -/
def takeChallenge (chal : Challenge) (user : Bytes) (isRegister : Bool) (now : Int) :
    Option Challenge × Challenge :=
  (if chal.active ∧ chal.isRegister = isRegister ∧ chal.user = user ∧ ¬ chal.expMs < now then
      some chal
    else none,
    { chal with active := false, nonceHex := [] })

/-- Before the user is looked up: `already` and `badName` are the texts of the errors. -/
def doHello (isRegister : Bool) (already badName : String) (obj : Object) :
    Effect (KeyedRateLimiter × KeyedRateLimiter) Empty :=
  if s.sess.authed c then
    { state := (s.connLimit, s.msgLimit)
      next := [s.sendErr c .alreadyAuth already (e.nowTs 0)] }
  else
    let ip := (s.sess.arrival c).peer.takeWhile (· ≠ 58)
    let (ok, limit) :=
      if 0 < st.cfg.connRate then s.connLimit.allow ip (e.nowSec 0) else (true, s.connLimit)
    { state := (limit, s.msgLimit)
      next :=
        if ¬ ok then [s.sendErr c .connRate "认证请求过于频繁：请稍后再试" (e.nowTs 1)]
        else
          let name := obj.getStr (bytes "from")
          if ¬ validUsername name then [s.sendErr c .badCredFmt badName (e.nowTs 1)]
          else [.db (.findHello name isRegister)] }

def doRegisterHello : Object → Effect (KeyedRateLimiter × KeyedRateLimiter) Empty :=
  doHello st s c e true "本连接已登录，请勿重复登录/注册" "用户名格式非法（1-32 字符，非保留字）"

def doLoginHello : Object → Effect (KeyedRateLimiter × KeyedRateLimiter) Empty :=
  doHello st s c e false "本连接已登录，请勿重复登录" "用户名格式非法"

/-- `find_user` in `doRegisterHello` and `doLoginHello`. -/
def findHello (name : Bytes) (isRegister : Bool) : Effect (Database Origin) DbEvent :=
  { state := s.db
    next :=
      match isRegister, s.db.findUser name e.sql with
      | true, some _ =>
          [s.sendErr c .dupUser "注册失败：用户名已存在，请更换用户名" (e.nowTs 0)]
      | true, none => [.own (.sendChallenge name [] true)]
      | false, some row => [.own (.sendChallenge name row.salt false)]
      | false, none =>
          [s.sendErr c .noSuchUser "登录失败：用户不存在，请先注册" (e.nowTs 0)] }

/-! ## Registration -/

/-- `from_hex` succeeds with 32 bytes. -/
def decodes (hex : Bytes) : Bool := (fromHex hex).map List.length = some kHashBytes

def doRegister (obj : Object) : Effect Client OwnEvent :=
  let client := s.clients c
  if s.sess.authed c then
    { state := client
      next := [s.sendErr c .alreadyAuth "本连接已登录，请勿重复登录/注册" (e.nowTs 0)] }
  else
    let name := obj.getStr (bytes "from")
    let derived := obj.getStr (bytes "content")
    let proof := obj.getStr (bytes "hmac")
    let taken := takeChallenge client.chal name true (e.clock 0)
    let client := { client with chal := taken.2 }
    match taken.1 with
    | none =>
        { state := client
          next := [s.sendErr c .badChallenge
            "注册挑战缺失/已过期/不匹配，请重新 REGISTER_HELLO" (e.nowTs 1)] }
    | some ch =>
        let events : List OwnEvent := [.taken c true name ch.nonceHex (e.clock 0)]
        if ¬ validUsername name ∨ derived.length ≠ 64 ∨ proof.length ≠ 64 then
          { state := client, events
            next := [s.sendErr c .badCredFmt
              "用户名或注册证明格式非法（派生密钥/HMAC 应为 64 hex）" (e.nowTs 1)] }
        else if ¬ decodes derived ∨ ¬ decodes proof then
          { state := client, events
            next := [s.sendErr c .badCredFmt
              "注册证明格式非法（派生密钥/HMAC 应为 64 hex）" (e.nowTs 1)] }
        else
          let events := events ++ [.compared c name ch.nonceHex]
          if ¬ constantTimeEq
              (challengeProof st.hashes derived (bytes "REGISTER") name ch.nonceHex) proof then
            { state := client, events
              next := [s.sendErr c .badChallenge
                "注册证明校验失败（挑战不匹配），请重新 REGISTER_HELLO" (e.nowTs 1)] }
          else
            let stored := applyPepper st.hashes derived st.pepperHex name ch.saltHex
            if stored = [] then
              { state := client, events
                next := [s.sendErr c .db "口令盲化失败（pepper 配置异常）" (e.nowTs 1)] }
            else
              { state := client, events
                next := [.db (.createUser name derived ch.saltHex stored none)] }

def createUser (name derived saltHex stored : Bytes) (since : Option Nat) :
    Option (Effect (Database Origin) DbEvent) :=
  s.whenTxIdle e since (.createUser name derived saltHex stored)
    (match s.db.createUser name saltHex stored (e.nowTs 0) e.sql with
    | (.duplicate, db) =>
        { state := db
          next := [s.sendErr c .dupUser "注册失败：用户名已存在，请更换用户名" (e.nowTs 1)] }
    | (.failed, db) =>
        { state := db, next := [s.sendErr c .db "注册失败：数据库错误" (e.nowTs 1)] }
    | (.inserted, db) =>
        { state := db, events := [.registered name derived saltHex]
          next := [.io (.sendFrame c (registerOkFrame name (e.nowTs 1)))] })

/-! ## Login by proof -/

def doLogin (obj : Object) : Effect Client OwnEvent :=
  let client := s.clients c
  if s.sess.authed c then
    { state := client
      next := [s.sendErr c .alreadyAuth "本连接已登录，请勿重复登录" (e.nowTs 0)] }
  else
    let name := obj.getStr (bytes "from")
    let proof := obj.getStr (bytes "content")
    let taken := takeChallenge client.chal name false (e.clock 0)
    let client := { client with chal := taken.2 }
    match taken.1 with
    | none =>
        { state := client
          next := [s.sendErr c .badChallenge
            "登录挑战缺失/已过期/不匹配，请重新 LOGIN_HELLO" (e.nowTs 1)] }
    | some ch =>
        let events : List OwnEvent := [.taken c false name ch.nonceHex (e.clock 0)]
        if ¬ validUsername name ∨ proof.length ≠ 64 then
          { state := client, events
            next := [s.sendErr c .badCredFmt
              "用户名或登录证明格式非法（HMAC 应为 64 hex）" (e.nowTs 1)] }
        else if ¬ decodes proof then
          { state := client, events
            next := [s.sendErr c .badCredFmt "登录证明格式非法（HMAC 应为 64 hex）" (e.nowTs 1)] }
        else { state := client, events, next := [.db (.findLogin name proof ch.nonceHex)] }

/-- The key that the row of a user holds under the pepper. -/
def keyOf (name : Bytes) (row : UserRow) : Bytes :=
  applyPepper st.hashes row.pwdHash st.pepperHex name row.salt

/-- The comparison in `doLogin`. -/
def proofMatches (keyHex name nonceHex proof : Bytes) : Bool :=
  constantTimeEq (challengeProof st.hashes keyHex (bytes "LOGIN") name nonceHex) proof

/-- `find_user` and the proof check of `doLogin`. -/
def findLogin (name proof nonceHex : Bytes) : Effect (Database Origin) DbEvent :=
  match s.db.findUser name e.sql with
  | none =>
      { state := s.db
        next := [s.sendErr c .noSuchUser "登录失败：用户不存在，请先注册" (e.nowTs 0)] }
  | some row =>
      let badPass := s.sendErr c .badPass "登录失败：密码错误，请重新输入" (e.nowTs 0)
      let key := keyOf st name row
      if key = [] then { state := s.db, next := [badPass] }
      else
        let passed := proofMatches st key name nonceHex proof
        { state := s.db
          events := [.compared c name nonceHex key proof passed]
          next := if passed then [.sess (.checkLogin name)] else [badPass] }

/-- The online check of `doLogin`. -/
def checkLogin (name : Bytes) : Effect (Sessions × RoomRouter) SessEvent :=
  { state := (s.sess, s.router)
    next :=
      match s.sess.online name with
      | some _ => [s.sendErr c .dupLogin
          "重复登录：该账号已在线，不允许重复登录（断线重连请走 Token/AUTH 免密恢复）" (e.nowTs 0)]
      | none => [.token (.issueLogin name)] }

/-- `tokens_.issue` with a token drawn from the random source. -/
def issue (name : Bytes) : Bytes × Int × TokenBook :=
  let token := e.randomHex 0 32
  let (exp, tokens) := s.tokens.issue st.hashes name token (e.nowTs 0) (e.nowTs 1)
  (token, exp, tokens)

def issueLogin (name : Bytes) : Effect TokenBook Empty :=
  let (token, exp, tokens) := issue st s e name
  { state := tokens, next := [.sess (.installLogin name token exp)] }

/-- The session of `name` is on connection `c`. -/
def install (name : Bytes) : Sessions :=
  { s.sess with
    username := Function.update s.sess.username c name
    authed := Function.update s.sess.authed c true
    online := Function.update s.sess.online name (some c) }

def installLogin (name token : Bytes) (exp : Int) : Effect (Sessions × RoomRouter) SessEvent :=
  { state := (install s c name, s.router)
    events := [.loggedIn c name (s.sess.online name)]
    next := [.router (.finishAuth name token exp none)] }

/-! ## Login by token -/

def doAuth (obj : Object) : Effect TokenBook Empty :=
  if s.sess.authed c then
    { state := s.tokens
      next := [s.sendErr c .alreadyAuth "本连接已登录，请勿重复认证" (e.nowTs 1)] }
  else
    let token := obj.getStr (bytes "content")
    match s.tokens.validate st.hashes token (e.nowTs 0) with
    | (none, tokens) =>
        { state := tokens
          next := [s.sendErr c .badToken "Token 无效或已过期，请重新登录" (e.nowTs 1)] }
    | (some name, tokens) => { state := tokens, next := [.sess (.installAuth name)] }

def installAuth (name : Bytes) : Effect (Sessions × RoomRouter) SessEvent :=
  { state := (install s c name, s.router)
    events := [.resumed c name]
    next := [.token (.issueAuth name ((s.sess.online name).filter (· ≠ c)))] }

def issueAuth (name : Bytes) (old : Option ConnId) : Effect TokenBook Empty :=
  let (token, exp, tokens) := issue st s e name
  { state := tokens, next := [.router (.finishAuth name token exp old)] }

/-! ## The session starts -/

def finishAuth (name token : Bytes) (exp : Int) (old : Option ConnId) : Effect RoomRouter Empty :=
  { state := s.router
    next := [.io (.sendFrame c (authOkFrame name (s.router.userRoom name) token exp (e.nowTs 0))),
      .db (.pushOffline name), .router (.finishRoom name old)] }

/-- The part of `finishAuth` behind `pushOffline`. -/
def finishRoom (name : Bytes) (old : Option ConnId) : Effect RoomRouter Empty :=
  let room := s.router.userRoom name
  let joinState : List Cmd := if room ≠ [] then [.router (.sendJoinState room)] else []
  { state := s.router
    next :=
      match old with
      | some old =>
          .io (.sendFrame old (systemFrame name room
            (bytes "该账号已在其他连接恢复会话（Token 重连顶号），本连接即将关闭") (e.nowTs 0))) ::
          .sess (.dropConn old false) :: joinState
      | none => joinState }

end OnlineChat.ChatServer
