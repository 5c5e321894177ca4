import OnlineChat.Client.Values
import OnlineChat.Library.KeyedHash
import OnlineChat.Library.Memory
import OnlineChat.PwdHash
import OnlineChat.Sha256

/-!
# Derived keys

`hmac_sha256` and `pbkdf2_hmac_sha256` of `pwd_hash.h` work on buffers that are handed in by
pointer, and the iteration overwrites one buffer with the HMAC of itself. They compute the
functions of RFC 2104 and RFC 8018, so that the client derives the key that the server keeps.
-/

namespace OnlineChat.PwdHash

open Library

/-! ## The code -/

section Hmac

variable {ι : Type} [DecidableEq ι]

def hmacSha256 (mem : Memory ι) (key : Pointer ι) (keylen : Nat) (msg : Pointer ι) (msglen : Nat)
    (out : Pointer ι) : Memory ι :=
  let zeros := List.replicate 64 0
  let k :=
    if keylen > 64 then Sha256.digest (mem.read key keylen) ++ zeros.drop 32
    else mem.read key keylen ++ zeros.drop keylen
  let ipad := k.map (· ^^^ 0x36)
  let opad := k.map (· ^^^ 0x5c)
  let c := Sha256.init default
  let c := Sha256.update c ipad
  let c := Sha256.update c (mem.read msg msglen)
  let (c, inner) := Sha256.final c
  let c := Sha256.init c
  let c := Sha256.update c opad
  let c := Sha256.update c inner
  mem.write out (Sha256.final c).2

end Hmac

/-- The buffers of a derivation: those of the caller and two local ones. -/
inductive Buffer where
  | pwd
  | salt
  | out
  | msg
  | u
  deriving DecidableEq

/-- The iteration from `U2` on. -/
def iterateBlock (pwdlen : Nat) (state : Memory Buffer × Bytes) : Memory Buffer × Bytes :=
  let mem := hmacSha256 state.1 (.pwd, 0) pwdlen (.u, 0) 32 (.u, 0)
  (mem, xorBytes state.2 (mem.read (.u, 0) 32))

/-- One round of the outer loop, with `t` for the block. -/
def deriveBlock (mem : Memory Buffer) (pwdlen saltlen : Nat) (iters : Int) (blockIndex : UInt32) :
    Memory Buffer × Bytes :=
  let msg := mem.read (.salt, 0) saltlen ++
    [((blockIndex >>> 24) &&& 0xFF).toUInt8, ((blockIndex >>> 16) &&& 0xFF).toUInt8,
      ((blockIndex >>> 8) &&& 0xFF).toUInt8, (blockIndex &&& 0xFF).toUInt8]
  let mem := mem.write (.msg, 0) msg
  let mem := hmacSha256 mem (.pwd, 0) pwdlen (.msg, 0) msg.length (.u, 0)
  (List.range (iters - 1).toNat).foldl (fun state _ => iterateBlock pwdlen state)
    (mem, mem.read (.u, 0) 32)

/-- `while (done < outlen)` -/
def deriveLoop (mem : Memory Buffer) (pwdlen saltlen : Nat) (iters : Int) (outlen : Nat)
    (blockIndex : UInt32) (done : Nat) : Memory Buffer :=
  if done < outlen then
    let (mem, t) := deriveBlock mem pwdlen saltlen iters blockIndex
    let take := if outlen - done < 32 then outlen - done else 32
    let mem := mem.write (.out, done) (t.take take)
    deriveLoop mem pwdlen saltlen iters outlen (blockIndex + 1) (done + take)
  else mem
termination_by outlen - done
decreasing_by split <;> omega

def pbkdf2HmacSha256 (mem : Memory Buffer) (pwdlen saltlen : Nat) (iters : Int) (outlen : Nat) :
    Memory Buffer :=
  deriveLoop mem pwdlen saltlen iters outlen 1 0

def kIters : Int := 100000

/-- `hash_password` with the built-in functions. -/
def hashPassword (pwd saltHex : Bytes) : Bytes :=
  match fromHex saltHex with
  | some (b :: salt) =>
      let mem : Memory Buffer := .ofTexts fun
        | .pwd => pwd
        | .salt => b :: salt
        | _ => []
      toHex ((pbkdf2HmacSha256 mem pwd.length (b :: salt).length kIters kHashBytes).read (.out, 0)
        kHashBytes)
  | _ => []

/-- The built-in functions; `hmac_sha256` gets a buffer for each argument. -/
def builtin : Hashes where
  sha256 := Sha256.digest
  hmac key msg :=
    let mem : Memory Buffer := .ofTexts fun
      | .pwd => key
      | .msg => msg
      | _ => []
    (hmacSha256 mem (.pwd, 0) key.length (.msg, 0) msg.length (.out, 0)).read (.out, 0) kHashBytes

/-! ## HMAC -/

variable {ι : Type} [DecidableEq ι]

theorem final_two (c : Sha256.Ctx) (x y : Bytes) :
    (Sha256.final (Sha256.update (Sha256.update (Sha256.init c) x) y)).2 =
      Sha256.digest (x ++ y) := by
  rw [Sha256.digest_eq]
  exact (((Sha256.absorbed_init c).update x).update y).final

/-- The result is written when everything has been read, so that the buffers may be the same. -/
theorem hmacSha256_eq (mem : Memory ι) (key : Pointer ι) (keylen : Nat) (msg : Pointer ι)
    (msglen : Nat) (out : Pointer ι) :
    hmacSha256 mem key keylen msg msglen out =
      mem.write out (hmac Sha256.digest 64 (mem.read key keylen) (mem.read msg msglen)) := by
  have padded : (if keylen > 64 then
        Sha256.digest (mem.read key keylen) ++ (List.replicate 64 (0 : UInt8)).drop 32
      else mem.read key keylen ++ (List.replicate 64 (0 : UInt8)).drop keylen) =
      (let K := if 64 < (mem.read key keylen).length then Sha256.digest (mem.read key keylen)
        else mem.read key keylen
      K ++ List.replicate (64 - K.length) 0) := by
    rw [Memory.length_read]
    dsimp only
    split
    next long => rw [Sha256.digest_eq, Fips180.length_sha256, List.drop_replicate]
    next => rw [Memory.length_read, List.drop_replicate]
  unfold hmacSha256 hmac
  dsimp only
  rw [padded, final_two, final_two]

theorem length_hmac (key text : Bytes) : (hmac Sha256.digest 64 key text).length = 32 := by
  rw [hmac, Sha256.digest_eq, Fips180.length_sha256]

theorem read_hmacSha256 (mem : Memory ι) (key : Pointer ι) (keylen : Nat) (msg : Pointer ι)
    (msglen : Nat) (out : Pointer ι) :
    (hmacSha256 mem key keylen msg msglen out).read out 32 =
      hmac Sha256.digest 64 (mem.read key keylen) (mem.read msg msglen) := by
  rw [hmacSha256_eq, ← length_hmac (mem.read key keylen) (mem.read msg msglen),
    Memory.read_write_self]

theorem length_iterated (P S : Bytes) (i n : Nat) :
    (iterated (hmac Sha256.digest 64) P S i n).length = 32 := by
  cases n <;> exact length_hmac ..

theorem length_derivedBlock (P S : Bytes) (c i : Nat) :
    (derivedBlock (hmac Sha256.digest 64) 32 P S c i).length = 32 := by
  induction c with
  | zero => exact List.length_replicate
  | succ c inductionHypothesis =>
      rw [derivedBlock_succ, length_xorBytes, inductionHypothesis, length_iterated, min_self]

/-! ## One block -/

/-- The buffers of the caller hold what they held. -/
structure Unchanged (mem mem' : Memory Buffer) : Prop where
  pwd : mem' .pwd = mem .pwd
  salt : mem' .salt = mem .salt
  out : mem' .out = mem .out

variable {mem mem' : Memory Buffer} {pwdlen saltlen outlen : Nat} {iters : Int} {P S : Bytes}
  {i n : Nat}

theorem Unchanged.trans {mem'' : Memory Buffer} (first : Unchanged mem mem')
    (second : Unchanged mem' mem'') : Unchanged mem mem'' :=
  ⟨second.pwd.trans first.pwd, second.salt.trans first.salt, second.out.trans first.out⟩

theorem unchanged_write {o : Buffer} {a : Nat} {text : Bytes} (differs : o = .msg ∨ o = .u) :
    Unchanged mem (mem.write (o, a) text) := by
  refine ⟨?_, ?_, ?_⟩ <;> apply Memory.write_of_ne <;> rcases differs with rfl | rfl <;> nofun

theorem unchanged_hmacSha256 (mem : Memory Buffer) (key : Pointer Buffer) (keylen : Nat)
    (msg : Pointer Buffer) (msglen a : Nat) :
    Unchanged mem (hmacSha256 mem key keylen msg msglen (.u, a)) := by
  rw [hmacSha256_eq]
  exact unchanged_write (.inr rfl)

/-- The iteration in place: the buffer holds the last `U`, and `t` the exclusive or of all. -/
structure Iterated (pwdlen : Nat) (P S : Bytes) (i n : Nat) (mem : Memory Buffer)
    (state : Memory Buffer × Bytes) : Prop where
  unchanged : Unchanged mem state.1
  password : state.1.read (.pwd, 0) pwdlen = P
  last : state.1.read (.u, 0) 32 = iterated (hmac Sha256.digest 64) P S i n
  sum : state.2 = derivedBlock (hmac Sha256.digest 64) 32 P S (n + 1) i

theorem Iterated.iterateBlock {state : Memory Buffer × Bytes}
    (iterated : Iterated pwdlen P S i n mem state) :
    Iterated pwdlen P S i (n + 1) mem (iterateBlock pwdlen state) := by
  have step := unchanged_hmacSha256 state.1 (.pwd, 0) pwdlen (.u, 0) 32 0
  have next := read_hmacSha256 state.1 (.pwd, 0) pwdlen (.u, 0) 32 (.u, 0)
  rw [iterated.password, iterated.last] at next
  refine ⟨iterated.unchanged.trans step, ?_, next, ?_⟩
  · exact (Memory.read_congr step.pwd pwdlen).trans iterated.password
  · rw [derivedBlock_succ, ← iterated.sum]
    exact congrArg (xorBytes state.2) next

theorem Iterated.loop {state : Memory Buffer × Bytes}
    (iterated : Iterated pwdlen P S i 0 mem state) (n : Nat) :
    Iterated pwdlen P S i n mem
      ((List.range n).foldl (fun state _ => PwdHash.iterateBlock pwdlen state) state) := by
  induction n with
  | zero => exact iterated
  | succ n inductionHypothesis =>
      rw [List.range_succ, List.foldl_concat]
      exact inductionHypothesis.iterateBlock

/-- The number of a block as it is appended to the salt. -/
theorem blockIndex_eq (x : UInt32) :
    [((x >>> 24) &&& 0xFF).toUInt8, ((x >>> 16) &&& 0xFF).toUInt8, ((x >>> 8) &&& 0xFF).toUInt8,
      (x &&& 0xFF).toUInt8] = bigEndian 4 x.toNat := by
  have lowest (y : UInt32) : (y &&& 0xFF).toUInt8 = y.toUInt8 := by
    apply UInt8.toNat_inj.mp
    rw [UInt32.toNat_toUInt8, UInt32.toNat_toUInt8, UInt32.toNat_and]
    exact (congrArg (· % 2 ^ 8) (Nat.and_two_pow_sub_one_eq_mod _ 8)).trans (Nat.mod_mod ..)
  simp only [lowest]
  exact Sha256.storeWord_eq x

theorem deriveBlock_eq (mem : Memory Buffer) (pwdlen saltlen : Nat) (positive : 1 ≤ iters)
    (blockIndex : UInt32) :
    Unchanged mem (deriveBlock mem pwdlen saltlen iters blockIndex).1 ∧
      (deriveBlock mem pwdlen saltlen iters blockIndex).2 =
        derivedBlock (hmac Sha256.digest 64) 32 (mem.read (.pwd, 0) pwdlen)
          (mem.read (.salt, 0) saltlen) iters.toNat blockIndex.toNat := by
  have count : iters.toNat = (iters - 1).toNat + 1 := by omega
  unfold deriveBlock
  dsimp only
  rw [blockIndex_eq, count]
  generalize text : mem.read (.salt, 0) saltlen ++ bigEndian 4 blockIndex.toNat = msg
  have copied : Unchanged mem (mem.write (.msg, 0) msg) := unchanged_write (.inl rfl)
  have password : (mem.write (.msg, 0) msg).read (.pwd, 0) pwdlen = mem.read (.pwd, 0) pwdlen :=
    Memory.read_congr copied.pwd pwdlen
  have message : (mem.write (.msg, 0) msg).read (.msg, 0) msg.length = msg :=
    Memory.read_write_self ..
  have hashed := unchanged_hmacSha256 (mem.write (.msg, 0) msg) (.pwd, 0) pwdlen (.msg, 0)
    msg.length 0
  have first := read_hmacSha256 (mem.write (.msg, 0) msg) (.pwd, 0) pwdlen (.msg, 0) msg.length
    (.u, 0)
  generalize hmacSha256 (mem.write (.msg, 0) msg) (.pwd, 0) pwdlen (.msg, 0) msg.length (.u, 0) =
    mem' at hashed first ⊢
  rw [password, message, ← text] at first
  have start : Iterated pwdlen (mem.read (.pwd, 0) pwdlen) (mem.read (.salt, 0) saltlen)
      blockIndex.toNat 0 mem (mem', mem'.read (.u, 0) 32) := by
    refine ⟨copied.trans hashed, ?_, first, ?_⟩
    · exact (Memory.read_congr hashed.pwd pwdlen).trans password
    · rw [derivedBlock_one (length_iterated ..)]
      exact first
  have ended := start.loop (iters - 1).toNat
  exact ⟨ended.unchanged, ended.sum⟩

/-! ## The blocks -/

/-- The rest of the blocks goes behind what has been written. -/
theorem read_deriveLoop (pwdlen saltlen : Nat) (positive : 1 ≤ iters) (n j : Nat)
    (mem : Memory Buffer) (start : 32 * j ≤ outlen) (few : outlen ≤ 32 * (2 ^ 32 - 1))
    (left : n = (outlen - 32 * j + 31) / 32) :
    (deriveLoop mem pwdlen saltlen iters outlen (UInt32.ofNat (j + 1)) (32 * j)).read (.out, 0)
        outlen =
      mem.read (.out, 0) (32 * j) ++ ((List.range' (j + 1) n).flatMap
        (derivedBlock (hmac Sha256.digest 64) 32 (mem.read (.pwd, 0) pwdlen)
          (mem.read (.salt, 0) saltlen) iters.toNat)).take (outlen - 32 * j) := by
  induction n generalizing j mem with
  | zero =>
      have done : 32 * j = outlen := by omega
      rw [deriveLoop, if_neg (by omega), done]
      simp
  | succ n inductionHypothesis =>
      have index : (UInt32.ofNat (j + 1)).toNat = j + 1 := by
        rw [UInt32.toNat_ofNat']
        omega
      obtain ⟨unchanged, block⟩ := deriveBlock_eq mem pwdlen saltlen positive
        (UInt32.ofNat (j + 1))
      rw [index] at block
      rw [deriveLoop, if_pos (by omega)]
      generalize deriveBlock mem pwdlen saltlen iters (UInt32.ofNat (j + 1)) = derived
        at unchanged block
      obtain ⟨mem', t⟩ := derived
      dsimp only at unchanged block ⊢
      have size : t.length = 32 := by rw [block, length_derivedBlock]
      have written (text : Bytes) :
          (mem'.write (.out, 32 * j) text).read (.out, 0) (32 * j + text.length) =
            mem.read (.out, 0) (32 * j) ++ text := by
        have behind := Memory.read_write_behind mem' .out 0 (32 * j) text
        rw [Nat.zero_add] at behind
        rw [behind]
        exact congrArg (· ++ text) (Memory.read_congr unchanged.out (32 * j))
      rw [List.range'_succ, List.flatMap_cons, ← block]
      split
      next last =>
        -- the last block is cut
        have done : 32 * j + (outlen - 32 * j) = outlen := by omega
        have none : n = 0 := by omega
        have cut := written (t.take (outlen - 32 * j))
        rw [List.length_take, size, Nat.min_eq_left (by omega), done] at cut
        rw [done, deriveLoop, if_neg (by omega), cut, none]
        simp
      next whole =>
        have next : UInt32.ofNat (j + 1) + 1 = UInt32.ofNat (j + 1 + 1) :=
          (UInt32.ofNat_add (j + 1) 1).symm
        have filled := written t
        rw [size] at filled
        have rest := inductionHypothesis (j + 1) (mem'.write (.out, 32 * j) t) (by omega)
          (by omega)
        have kept (b : Buffer) (differs : b ≠ .out) : mem'.write (.out, 32 * j) t b = mem' b :=
          Memory.write_of_ne differs
        have password : (mem'.write (.out, 32 * j) t).read (.pwd, 0) pwdlen =
            mem.read (.pwd, 0) pwdlen :=
          Memory.read_congr ((kept .pwd nofun).trans unchanged.pwd) pwdlen
        have salt : (mem'.write (.out, 32 * j) t).read (.salt, 0) saltlen =
            mem.read (.salt, 0) saltlen :=
          Memory.read_congr ((kept .salt nofun).trans unchanged.salt) saltlen
        rw [password, salt, Nat.mul_succ, filled] at rest
        rw [next, List.take_of_length_le size.le, rest, List.take_append, size,
          List.take_of_length_le (by omega : t.length ≤ outlen - 32 * j), List.append_assoc,
          Nat.sub_sub]

theorem pbkdf2HmacSha256_eq (mem : Memory Buffer) (pwdlen saltlen : Nat) (positive : 1 ≤ iters)
    (few : outlen ≤ 32 * (2 ^ 32 - 1)) :
    (pbkdf2HmacSha256 mem pwdlen saltlen iters outlen).read (.out, 0) outlen =
      pbkdf2 (hmac Sha256.digest 64) 32 (mem.read (.pwd, 0) pwdlen) (mem.read (.salt, 0) saltlen)
        iters.toNat outlen := by
  have loop := read_deriveLoop pwdlen saltlen positive ((outlen + 31) / 32) 0 mem (Nat.zero_le _)
    few rfl
  rw [Nat.zero_add, Nat.mul_zero, List.range'_eq_map_range, List.flatMap_map] at loop
  simp only [Nat.add_comm 1] at loop
  exact loop

/-! ## The client -/

/-- `hashlib.pbkdf2_hmac` and `hmac.new` with SHA-256 follow RFC 8018, RFC 2104 and
FIPS 180-4. -/
structure FollowsStandards (lib : Client.Hashlib) : Prop where
  hmac : ∀ key text, lib.hmac key text = hmac Fips180.sha256 64 key text
  pbkdf2 : ∀ password salt iterations dklen, 1 ≤ iterations → 1 ≤ dklen →
    lib.pbkdf2Hmac password salt iterations dklen =
      pbkdf2 (Library.hmac Fips180.sha256 64) 32 password salt iterations dklen

theorem pyHexValue_hexChar : ∀ d < 16,
    Client.isAsciiSpace (hexChar d) = false ∧ Client.pyHexValue (hexChar d) = some d := by
  decide

theorem pyFromHex_toHex (data : Bytes) : Client.pyFromHex (toHex data) = some data := by
  induction data with
  | nil => rfl
  | cons b data inductionHypothesis =>
      have small := b.toNat_lt
      obtain ⟨solid, hi⟩ := pyHexValue_hexChar (b.toNat / 16) (by omega)
      obtain ⟨-, lo⟩ := pyHexValue_hexChar (b.toNat % 16) (by omega)
      have byte : hexByte (b.toNat / 16) (b.toNat % 16) = b := by
        refine UInt8.toNat_inj.mp ?_
        rw [toNat_hexByte (by omega) (by omega)]
        omega
      simp only [toHex, List.flatMap_cons] at inductionHypothesis ⊢
      simp [Client.pyFromHex, solid, hi, lo, inductionHypothesis, byte]

/-- `bytes.fromhex` reads what `from_hex` reads. -/
theorem fromHexValue_of_fromHex {hex data : Bytes} (decoded : fromHex hex = some data) :
    Client.fromHexValue (.str hex) = .ok data := by
  rw [← toHex_of_fromHex decoded, Client.fromHexValue, pyFromHex_toHex]

theorem digest_eq_sha256 : Sha256.digest = Fips180.sha256 := funext Sha256.digest_eq

theorem builtin_hmac (key text : Bytes) :
    builtin.hmac key text = hmac Sha256.digest 64 key text := by
  unfold builtin kHashBytes
  dsimp only
  rw [read_hmacSha256]
  congr 1
  · exact Memory.read_ofTexts _ Buffer.pwd
  · exact Memory.read_ofTexts _ Buffer.msg

theorem hashPassword_eq {saltHex salt : Bytes} (pwd : Bytes)
    (decoded : fromHex saltHex = some salt) (nonempty : salt ≠ []) :
    hashPassword pwd saltHex = toHex (pbkdf2 (hmac Sha256.digest 64) 32 pwd salt 100000 32) := by
  obtain ⟨b, salt, rfl⟩ := List.exists_cons_of_ne_nil nonempty
  unfold hashPassword kIters kHashBytes
  rw [decoded]
  dsimp only
  rw [pbkdf2HmacSha256_eq _ _ _ (by omega) (by omega)]
  congr 2
  · exact Memory.read_ofTexts _ Buffer.pwd
  · exact Memory.read_ofTexts _ Buffer.salt

theorem length_derivedKey (P S : Bytes) (c : Nat) :
    (pbkdf2 (hmac Sha256.digest 64) 32 P S c 32).length = kHashBytes := by
  have one : (32 + 32 - 1) / 32 = 1 := rfl
  rw [pbkdf2, one, List.range_one, List.flatMap_singleton, List.length_take, length_derivedBlock]
  rfl

/-- The key that the client derives is the one that the server would compute, and so are the
proofs under it. -/
theorem keys_and_proofs_agree {lib : Client.Hashlib} (standard : FollowsStandards lib) :
    (∀ {ι : Type} [DecidableEq ι] (mem : Memory ι) (key : Pointer ι) (keylen : Nat)
      (msg : Pointer ι) (msglen : Nat) (out : Pointer ι),
      hmacSha256 mem key keylen msg msglen out =
        mem.write out (hmac Sha256.digest 64 (mem.read key keylen) (mem.read msg msglen))) ∧
    (∀ (mem : Memory Buffer) (pwdlen saltlen : Nat) (iters : Int) (outlen : Nat), 1 ≤ iters →
      outlen < 32 * (2 ^ 32 - 1) →
      (pbkdf2HmacSha256 mem pwdlen saltlen iters outlen).read (.out, 0) outlen =
        pbkdf2 (hmac Sha256.digest 64) 32 (mem.read (.pwd, 0) pwdlen)
          (mem.read (.salt, 0) saltlen) iters.toNat outlen) ∧
    ∀ pwd saltHex salt, fromHex saltHex = some salt → salt ≠ [] →
      ∃ K, Client.deriveKey lib pwd (.str saltHex) = .ok K ∧ hashPassword pwd saltHex = toHex K ∧
        ∀ op user nonceHex nonce, fromHex nonceHex = some nonce → nonce.length = kHashBytes →
          Client.challengeProof lib K op user (.str nonceHex) =
            .ok (challengeProof builtin (toHex K) op user nonceHex) := by
  refine ⟨hmacSha256_eq, ?_, ?_⟩
  · intro mem pwdlen saltlen iters outlen positive few
    exact pbkdf2HmacSha256_eq mem pwdlen saltlen positive few.le
  · intro pwd saltHex salt decoded nonempty
    refine ⟨pbkdf2 (hmac Sha256.digest 64) 32 pwd salt 100000 32, ?_, ?_, ?_⟩
    · rw [Client.deriveKey, fromHexValue_of_fromHex decoded, digest_eq_sha256,
        ← standard.pbkdf2 pwd salt 100000 32 (by omega) (by omega)]
      rfl
    · exact hashPassword_eq pwd decoded nonempty
    · intro op user nonceHex nonce decodedNonce size
      have sizes := And.intro (length_derivedKey pwd salt 100000) size
      generalize pbkdf2 (hmac Sha256.digest 64) 32 pwd salt 100000 32 = K at sizes ⊢
      rw [Client.challengeProof, fromHexValue_of_fromHex decodedNonce, challengeProof,
        fromHex_toHex, decodedNonce]
      dsimp only
      rw [if_pos sizes, builtin_hmac, digest_eq_sha256, ← standard.hmac]
      rfl

/-- A library of the standards themselves. -/
theorem keys_and_proofs_agree_standard :
    let lib : Client.Hashlib :=
      { pbkdf2Hmac := Library.pbkdf2 (Library.hmac Fips180.sha256 64) 32
        hmac := Library.hmac Fips180.sha256 64 }
    ∃ K, Client.deriveKey lib (bytes "pwd") (.str (bytes "00ff")) = .ok K ∧
      hashPassword (bytes "pwd") (bytes "00ff") = toHex K :=
  let lib : Client.Hashlib :=
    { pbkdf2Hmac := Library.pbkdf2 (Library.hmac Fips180.sha256 64) 32
      hmac := Library.hmac Fips180.sha256 64 }
  have standard : FollowsStandards lib := ⟨fun _ _ => rfl, fun _ _ _ _ _ _ => rfl⟩
  have agreed := (keys_and_proofs_agree standard).2.2 (bytes "pwd") (bytes "00ff") [0, 255]
    (by decide) (by decide)
  agreed.imp fun _ both => ⟨both.1, both.2.1⟩

end OnlineChat.PwdHash
