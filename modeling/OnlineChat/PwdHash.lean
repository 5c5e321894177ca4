import Mathlib.Tactic.IntervalCases
import OnlineChat.Bytes

/-!
# Credentials

The hexadecimal codec, the comparison of proofs, the challenge proof and the
blinding of a derived key with the pepper.  The digest functions are parameters.
-/

namespace OnlineChat.PwdHash

/-- The digest functions: `sha256::digest` and `hmac_sha256` of a key and a message. -/
structure Hashes where
  sha256 : Bytes → Bytes
  hmac : Bytes → Bytes → Bytes

/-- `kHashBytes`. -/
def kHashBytes : Nat := 32

/-! ## Hexadecimal text -/

/-- `"0123456789abcdef"[d]`. -/
def hexChar (d : Nat) : UInt8 := if d < 10 then UInt8.ofNat (48 + d) else UInt8.ofNat (87 + d)

/-- The position of a byte in `"0123456789abcdef"`. -/
def hexValue (h : UInt8) : Option Nat :=
  if 48 ≤ h.toNat ∧ h.toNat ≤ 57 then some (h.toNat - 48)
  else if 97 ≤ h.toNat ∧ h.toNat ≤ 102 then some (h.toNat - 87)
  else none

/-- `(unsigned char)((hi << 4) | lo)`. -/
def hexByte (hi lo : Nat) : UInt8 := UInt8.ofNat (hi * 16 + lo)

theorem toNat_hexByte {hi lo : Nat} (hiSmall : hi < 16) (loSmall : lo < 16) :
    (hexByte hi lo).toNat = hi * 16 + lo := by
  simp only [hexByte, UInt8.toNat_ofNat']
  omega

def toHex (data : Bytes) : Bytes :=
  data.flatMap fun b => [hexChar (b.toNat / 16), hexChar (b.toNat % 16)]

def fromHex : Bytes → Option Bytes
  | [] => some []
  | [_] => none
  | h :: l :: hex => do
      let hi ← hexValue h
      let lo ← hexValue l
      let out ← fromHex hex
      return hexByte hi lo :: out

theorem hexValue_hexChar {d : Nat} (small : d < 16) : hexValue (hexChar d) = some d := by
  unfold hexChar hexValue
  split
  · have value : (UInt8.ofNat (48 + d)).toNat = 48 + d := by simp; omega
    rw [value, if_pos (by omega)]
    simp
  · have value : (UInt8.ofNat (87 + d)).toNat = 87 + d := by simp; omega
    rw [value, if_neg (by omega), if_pos (by omega)]
    simp

theorem hexChar_of_hexValue {h : UInt8} {d : Nat} (value : hexValue h = some d) :
    d < 16 ∧ hexChar d = h := by
  unfold hexValue at value
  split at value
  next digit =>
    obtain rfl : h.toNat - 48 = d := by simpa using value
    refine ⟨by omega, UInt8.toNat_inj.mp ?_⟩
    rw [hexChar, if_pos (by omega)]
    simp
    omega
  next =>
    split at value
    next letter =>
      obtain rfl : h.toNat - 87 = d := by simpa using value
      refine ⟨by omega, UInt8.toNat_inj.mp ?_⟩
      rw [hexChar, if_neg (by omega)]
      simp
      omega
    next => simp at value

@[simp]
theorem length_toHex (data : Bytes) : (toHex data).length = 2 * data.length := by
  induction data with
  | nil => rfl
  | cons b data inductionHypothesis =>
      simp only [toHex, List.flatMap_cons] at inductionHypothesis ⊢
      simp [inductionHypothesis]
      omega

@[simp]
theorem fromHex_toHex (data : Bytes) : fromHex (toHex data) = some data := by
  induction data with
  | nil => rfl
  | cons b data inductionHypothesis =>
      have small := b.toNat_lt
      have hi := hexValue_hexChar (d := b.toNat / 16) (by omega)
      have lo := hexValue_hexChar (d := b.toNat % 16) (by omega)
      have byte : hexByte (b.toNat / 16) (b.toNat % 16) = b := by
        refine UInt8.toNat_inj.mp ?_
        rw [toNat_hexByte (by omega) (by omega)]
        omega
      simp only [toHex, List.flatMap_cons] at inductionHypothesis ⊢
      simp [fromHex, hi, lo, inductionHypothesis, byte]

theorem toHex_injective : Function.Injective toHex := by
  intro data data' same
  have decoded := congrArg fromHex same
  simpa using decoded

/-- Hexadecimal text goes through SQLite unchanged. -/
@[simp]
theorem cStr_toHex (data : Bytes) : cStr (toHex data) = toHex data := by
  have digit (d : Nat) : hexChar (d % 16) ≠ 0 := by
    have small : d % 16 < 16 := Nat.mod_lt d (by decide)
    revert small
    generalize d % 16 = d'
    intro small
    interval_cases d' <;> decide
  apply cStr_eq_self
  intro b membership
  obtain ⟨x, -, half⟩ := List.mem_flatMap.mp membership
  have high : x.toNat / 16 % 16 = x.toNat / 16 := by
    have small := x.toNat_lt
    omega
  rcases List.mem_cons.mp half with rfl | low
  · exact high ▸ digit (x.toNat / 16)
  · obtain rfl := List.mem_singleton.mp low
    exact digit x.toNat

/-- Whatever decodes was the lower-case text of its bytes. -/
theorem toHex_of_fromHex {hex data : Bytes} (decoded : fromHex hex = some data) :
    toHex data = hex := by
  induction hex using fromHex.induct generalizing data with
  | case1 =>
      obtain rfl : [] = data := by simpa [fromHex] using decoded
      rfl
  | case2 => simp [fromHex] at decoded
  | case3 h l hex inductionHypothesis =>
      simp only [fromHex, Option.bind_eq_bind, Option.bind_eq_some_iff, Option.pure_def,
        Option.some.injEq] at decoded
      obtain ⟨hi, hiValue, lo, loValue, out, rest, rfl⟩ := decoded
      obtain ⟨hiSmall, rfl⟩ := hexChar_of_hexValue hiValue
      obtain ⟨loSmall, rfl⟩ := hexChar_of_hexValue loValue
      have value := toNat_hexByte hiSmall loSmall
      have high : (hexByte hi lo).toNat / 16 = hi := by omega
      have low : (hexByte hi lo).toNat % 16 = lo := by omega
      have recovered := inductionHypothesis rest
      simp only [toHex, List.flatMap_cons] at recovered ⊢
      simp [high, low, recovered]

theorem length_of_fromHex {hex data : Bytes} (decoded : fromHex hex = some data) :
    hex.length = 2 * data.length := by
  rw [← toHex_of_fromHex decoded, length_toHex]

theorem fromHex_injective {hex hex' data : Bytes} (decoded : fromHex hex = some data)
    (decoded' : fromHex hex' = some data) : hex = hex' :=
  (toHex_of_fromHex decoded).symm.trans (toHex_of_fromHex decoded')

/-! ## Comparison -/

/-- `constant_time_eq`: the bytes' differences are collected by OR. -/
def constantTimeEq (a b : Bytes) : Bool :=
  if a.length ≠ b.length then false
  else (List.zipWith (· ^^^ ·) a b).foldl (· ||| ·) 0 = 0

theorem foldl_or_eq_zero {diffs : Bytes} {acc : UInt8} :
    diffs.foldl (· ||| ·) acc = 0 ↔ acc = 0 ∧ ∀ d ∈ diffs, d = 0 := by
  induction diffs generalizing acc with
  | nil => simp
  | cons d diffs inductionHypothesis =>
      have either : acc ||| d = 0 ↔ acc = 0 ∧ d = 0 := by
        simp only [← UInt8.toBitVec_inj]
        simp
      simp [inductionHypothesis, either, and_assoc]

theorem zipWith_xor_eq_zero {a b : Bytes} (same : a.length = b.length) :
    (∀ d ∈ List.zipWith (· ^^^ ·) a b, d = 0) ↔ a = b := by
  induction a generalizing b with
  | nil =>
      cases b with
      | nil => simp
      | cons => simp at same
  | cons x a inductionHypothesis =>
      cases b with
      | nil => simp at same
      | cons y b =>
          have tail := inductionHypothesis (b := b) (by simpa using same)
          simp [tail]

@[simp]
theorem constantTimeEq_iff {a b : Bytes} : constantTimeEq a b = true ↔ a = b := by
  unfold constantTimeEq
  split
  next differ =>
    simp only [Bool.false_eq_true, false_iff]
    rintro rfl
    exact differ rfl
  next same =>
    simp only [decide_eq_true_eq, foldl_or_eq_zero, true_and]
    exact zipWith_xor_eq_zero (by omega)

/-! ## Proofs and blinding -/

variable (hashes : Hashes)

/-- `challenge_proof`: the HMAC over `op ‖ user ‖ nonce`, or an empty text when key
or nonce is not the text of 32 bytes. -/
def challengeProof (keyHex op user nonceHex : Bytes) : Bytes :=
  match fromHex keyHex, fromHex nonceHex with
  | some key, some nonce =>
      if key.length = kHashBytes ∧ nonce.length = kHashBytes then
        toHex (hashes.hmac key (op ++ user ++ nonce))
      else []
  | _, _ => []

/-- A proof that is not empty is the HMAC under 32 bytes, with a nonce of 32 bytes. -/
theorem challengeProof_of_ne_nil {keyHex op user nonceHex : Bytes}
    (nonempty : challengeProof hashes keyHex op user nonceHex ≠ []) :
    ∃ key nonce, fromHex keyHex = some key ∧ fromHex nonceHex = some nonce ∧
      nonce.length = kHashBytes ∧
      challengeProof hashes keyHex op user nonceHex =
        toHex (hashes.hmac key (op ++ user ++ nonce)) := by
  unfold challengeProof at nonempty ⊢
  split at nonempty
  next key nonce keyDecoded nonceDecoded =>
    split at nonempty
    next sizes => exact ⟨key, nonce, keyDecoded, nonceDecoded, sizes.2, by simp [sizes]⟩
    next => exact absurd rfl nonempty
  next => exact absurd rfl nonempty

/-- When the HMAC is injective, a proof determines the key, the nonce, and the text in
front of the nonce. -/
theorem challengeProof_inj
    (injective : ∀ key message key' message',
      hashes.hmac key message = hashes.hmac key' message' → key = key' ∧ message = message')
    {keyHex op user nonceHex keyHex' op' user' nonceHex' : Bytes}
    (nonempty : challengeProof hashes keyHex op user nonceHex ≠ [])
    (same : challengeProof hashes keyHex op user nonceHex =
      challengeProof hashes keyHex' op' user' nonceHex') :
    keyHex = keyHex' ∧ op ++ user = op' ++ user' ∧ nonceHex = nonceHex' := by
  obtain ⟨key, nonce, decoded, nonceDecoded, size, proof⟩ :=
    challengeProof_of_ne_nil hashes nonempty
  obtain ⟨key', nonce', decoded', nonceDecoded', size', proof'⟩ :=
    challengeProof_of_ne_nil hashes (same ▸ nonempty)
  obtain ⟨rfl, messages⟩ := injective _ _ _ _ (toHex_injective (proof.symm.trans (same.trans proof')))
  obtain ⟨context, rfl⟩ := List.append_inj' messages (size.trans size'.symm)
  exact ⟨fromHex_injective decoded decoded', context,
    fromHex_injective nonceDecoded nonceDecoded'⟩

/-- `out[i] = key[i] ^ mask[i]` over the bytes of the key. -/
def xorMask (key mask : Bytes) : Bytes :=
  key.mapIdx fun i b => b ^^^ mask.getD i 0

@[simp]
theorem xorMask_xorMask (key mask : Bytes) : xorMask (xorMask key mask) mask = key := by
  refine List.ext_getElem? fun i => ?_
  simp only [xorMask, List.getElem?_mapIdx, Option.map_map]
  cases key[i]? with
  | none => rfl
  | some b => simp [UInt8.xor_assoc]

/-- `apply_pepper`: the key XOR the HMAC of user and salt under the pepper. -/
def applyPepper (keyHex pepperHex user saltHex : Bytes) : Bytes :=
  match fromHex keyHex, fromHex pepperHex with
  | some key, some pepper =>
      if key.length = kHashBytes ∧ pepper.length = kHashBytes then
        toHex (xorMask key (hashes.hmac pepper (user ++ saltHex)))
      else []
  | _, _ => []

/-- `pepper_id`: 8 digits by which a pepper is recognized. -/
def pepperId (pepperHex : Bytes) : Bytes :=
  match fromHex pepperHex with
  | some pepper =>
      if pepper.length = kHashBytes then
        (toHex (hashes.hmac pepper (bytes "pepper-id"))).take 8
      else []
  | none => []

variable {hashes}

/-- Blinding and unblinding are the same function. -/
theorem applyPepper_applyPepper {keyHex pepperHex user saltHex : Bytes}
    (blinded : applyPepper hashes keyHex pepperHex user saltHex ≠ []) :
    applyPepper hashes (applyPepper hashes keyHex pepperHex user saltHex) pepperHex user saltHex
      = keyHex := by
  unfold applyPepper at blinded ⊢
  split at blinded
  next key pepper keyDecoded pepperDecoded =>
    split at blinded
    next sizes =>
      have size : (xorMask key (hashes.hmac pepper (user ++ saltHex))).length = kHashBytes := by
        simpa [xorMask] using sizes.1
      simp [pepperDecoded, sizes, size, toHex_of_fromHex keyDecoded]
    next => exact absurd rfl blinded
  next => exact absurd rfl blinded

/-- The id of a pepper is not empty, since no digest is. -/
theorem pepperId_ne_nil (digest : ∀ key message, hashes.hmac key message ≠ []) {pepperHex : Bytes}
    (valid : (fromHex pepperHex).map List.length = some kHashBytes) :
    pepperId hashes pepperHex ≠ [] := by
  obtain ⟨pepper, decoded, size⟩ := Option.map_eq_some_iff.mp valid
  intro empty
  rw [pepperId, decoded] at empty
  dsimp only at empty
  rw [if_pos size, List.take_eq_nil_iff] at empty
  have length := length_toHex (hashes.hmac pepper (bytes "pepper-id"))
  have positive := List.length_pos_iff.mpr (digest pepper (bytes "pepper-id"))
  rw [empty.resolve_left (by decide), List.length_nil] at length
  omega

/-- Its digits go through SQLite unchanged. -/
theorem cStr_pepperId (pepperHex : Bytes) :
    cStr (pepperId hashes pepperHex) = pepperId hashes pepperHex := by
  unfold pepperId
  split
  next pepper decoded =>
    split
    · apply cStr_eq_self
      intro b membership
      apply ne_zero_of_mem_cStr (s := toHex (hashes.hmac pepper (bytes "pepper-id")))
      rw [cStr_toHex]
      exact List.mem_of_mem_take membership
    · rfl
  · rfl

end OnlineChat.PwdHash
