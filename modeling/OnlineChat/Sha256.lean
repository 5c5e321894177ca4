import OnlineChat.Bytes
import OnlineChat.Library.Fips180

/-!
# The built-in SHA-256

`pwd_hash.h` hashes a message that comes in pieces. Every piece goes byte by byte through a
buffer of one block, the padding too, and a full buffer is compressed. However the message is
cut, the result is the digest of the standard.
-/

namespace OnlineChat.PwdHash.Sha256

open Library

/-! ## The code -/

structure Ctx where
  h : Vector UInt32 8
  bitlen : UInt64
  block : Vector UInt8 64
  blocklen : Nat
  lt : blocklen < 64

/-- What a context holds before `init` does not matter. -/
instance : Inhabited Ctx := ⟨.replicate 8 0, 0, .replicate 64 0, 0, by decide⟩

def rotr (x : UInt32) (n : Nat) : UInt32 := x >>> UInt32.ofNat n ||| x <<< UInt32.ofNat (32 - n)

def iv : Vector UInt32 8 :=
  #v[0x6a09e667, 0xbb67ae85, 0x3c6ef372, 0xa54ff53a, 0x510e527f, 0x9b05688c, 0x1f83d9ab,
    0x5be0cd19]

def init (c : Ctx) : Ctx := { c with h := iv, bitlen := 0, blocklen := 0, lt := by decide }

def k : Vector UInt32 64 :=
  #v[0x428a2f98, 0x71374491, 0xb5c0fbcf, 0xe9b5dba5, 0x3956c25b, 0x59f111f1,
    0x923f82a4, 0xab1c5ed5, 0xd807aa98, 0x12835b01, 0x243185be, 0x550c7dc3,
    0x72be5d74, 0x80deb1fe, 0x9bdc06a7, 0xc19bf174, 0xe49b69c1, 0xefbe4786,
    0x0fc19dc6, 0x240ca1cc, 0x2de92c6f, 0x4a7484aa, 0x5cb0a9dc, 0x76f988da,
    0x983e5152, 0xa831c66d, 0xb00327c8, 0xbf597fc7, 0xc6e00bf3, 0xd5a79147,
    0x06ca6351, 0x14292967, 0x27b70a85, 0x2e1b2138, 0x4d2c6dfc, 0x53380d13,
    0x650a7354, 0x766a0abb, 0x81c2c92e, 0x92722c85, 0xa2bfe8a1, 0xa81a664b,
    0xc24b8b70, 0xc76c51a3, 0xd192e819, 0xd6990624, 0xf40e3585, 0x106aa070,
    0x19a4c116, 0x1e376c08, 0x2748774c, 0x34b0bcb5, 0x391c0cb3, 0x4ed8aa4a,
    0x5b9cca4f, 0x682e6ff3, 0x748f82ee, 0x78a5636f, 0x84c87814, 0x8cc70208,
    0x90befffa, 0xa4506ceb, 0xbef9a3f7, 0xc67178f2]

/-- The first loop of `compress`. -/
def loadWord (p : Vector UInt8 64) (w : Array UInt32) (i : Nat) : Array UInt32 :=
  w.set! i (p[i * 4]!.toUInt32 <<< 24 ||| p[i * 4 + 1]!.toUInt32 <<< 16 |||
    p[i * 4 + 2]!.toUInt32 <<< 8 ||| p[i * 4 + 3]!.toUInt32)

/-- The second loop of `compress`. -/
def extendWord (w : Array UInt32) (i : Nat) : Array UInt32 :=
  let s0 := rotr w[i - 15]! 7 ^^^ rotr w[i - 15]! 18 ^^^ (w[i - 15]! >>> 3)
  let s1 := rotr w[i - 2]! 17 ^^^ rotr w[i - 2]! 19 ^^^ (w[i - 2]! >>> 10)
  w.set! i (w[i - 16]! + s0 + w[i - 7]! + s1)

/-- The local variables of `compress`. -/
structure Locals where
  a : UInt32
  b : UInt32
  cc : UInt32
  d : UInt32
  e : UInt32
  f : UInt32
  g : UInt32
  h : UInt32

/-- The third loop of `compress`. -/
def roundStep (w : Array UInt32) (v : Locals) (i : Nat) : Locals :=
  let s1 := rotr v.e 6 ^^^ rotr v.e 11 ^^^ rotr v.e 25
  let ch := (v.e &&& v.f) ^^^ (~~~v.e &&& v.g)
  let t1 := v.h + s1 + ch + k[i]! + w[i]!
  let s0 := rotr v.a 2 ^^^ rotr v.a 13 ^^^ rotr v.a 22
  let maj := (v.a &&& v.b) ^^^ (v.a &&& v.cc) ^^^ (v.b &&& v.cc)
  let t2 := s0 + maj
  { h := v.g, g := v.f, f := v.e, e := v.d + t1, d := v.cc, cc := v.b, b := v.a, a := t1 + t2 }

def compress (c : Ctx) (p : Vector UInt8 64) : Ctx :=
  let w := (List.range 16).foldl (loadWord p) (.replicate 64 0)
  let w := (List.range' 16 48).foldl extendWord w
  let v := (List.range 64).foldl (roundStep w)
    ⟨c.h[0], c.h[1], c.h[2], c.h[3], c.h[4], c.h[5], c.h[6], c.h[7]⟩
  { c with h := #v[c.h[0] + v.a, c.h[1] + v.b, c.h[2] + v.cc, c.h[3] + v.d, c.h[4] + v.e,
    c.h[5] + v.f, c.h[6] + v.g, c.h[7] + v.h] }

/-- The loop of `update`, for one byte. -/
def updateByte (c : Ctx) (b : UInt8) : Ctx :=
  let block := c.block.set c.blocklen b c.lt
  if full : c.blocklen + 1 = 64 then
    { compress { c with block } block with
      bitlen := c.bitlen + 512, blocklen := 0, lt := by decide }
  else { c with block, blocklen := c.blocklen + 1, lt := by have := c.lt; omega }

def update (c : Ctx) (data : Bytes) : Ctx := data.foldl updateByte c

theorem blocklen_updateByte (c : Ctx) (b : UInt8) :
    (updateByte c b).blocklen = if c.blocklen + 1 = 64 then 0 else c.blocklen + 1 := by
  unfold updateByte
  split <;> rfl

/-- `while (c.blocklen != 56) update(c, &zero, 1);` -/
def updateZeros (c : Ctx) : Ctx :=
  if c.blocklen = 56 then c else updateZeros (update c [0])
termination_by (120 - c.blocklen) % 64
decreasing_by
  have inside := c.lt
  rw [update, List.foldl_cons, List.foldl_nil, blocklen_updateByte]
  split <;> omega

/-- The bytes `out[i * 4]` to `out[i * 4 + 3]`. -/
def storeWord (x : UInt32) : Bytes :=
  [(x >>> 24).toUInt8, (x >>> 16).toUInt8, (x >>> 8).toUInt8, x.toUInt8]

def final (c : Ctx) : Ctx × Bytes :=
  let total := c.bitlen + UInt64.ofNat c.blocklen * 8
  let c := update c [0x80]
  let c := updateZeros c
  let lenb := (List.range 8).map fun i =>
    ((total >>> UInt64.ofNat (56 - i * 8)) &&& 0xFF).toUInt8
  let c := update c lenb
  (c, (List.finRange 8).flatMap fun i => storeWord c.h[i])

def digest (data : Bytes) : Bytes := (final (update (init default) data)).2

/-- The text that is hashed in the tests of the source. -/
example : digest (bytes "abc") =
    [0xba, 0x78, 0x16, 0xbf, 0x8f, 0x01, 0xcf, 0xea, 0x41, 0x41, 0x40, 0xde, 0x5d, 0xae, 0x22,
      0x23, 0xb0, 0x03, 0x61, 0xa3, 0x96, 0x17, 0x7a, 0x9c, 0xb4, 0x10, 0xff, 0x61, 0xf2, 0x00,
      0x15, 0xad] := by
  decide +kernel

/-! ## Words -/

theorem toBitVec_rotr (x : UInt32) {n : Nat} (positive : 0 < n) (small : n < 32) :
    (rotr x n).toBitVec = x.toBitVec.rotateRight n := by
  have amount {m : Nat} (small : m < 32) : ((UInt32.ofNat m).toBitVec % 32#32).toNat = m := by
    rw [BitVec.toNat_umod, UInt32.toNat_toBitVec, UInt32.toNat_ofNat', BitVec.toNat_ofNat,
      Nat.mod_eq_of_lt (by omega : m < 2 ^ 32)]
    exact Nat.mod_eq_of_lt small
  have right : x.toBitVec >>> ((UInt32.ofNat n).toBitVec % 32#32) = x.toBitVec >>> n :=
    congrArg (x.toBitVec >>> ·) (amount small)
  have left : x.toBitVec <<< ((UInt32.ofNat (32 - n)).toBitVec % 32#32) =
      x.toBitVec <<< (32 - n) :=
    congrArg (x.toBitVec <<< ·) (amount (by omega))
  rw [BitVec.rotateRight_eq_rotateRightAux_of_lt small, BitVec.rotateRightAux]
  exact congrArg₂ (· ||| ·) right left

theorem smallSigma0_eq (x : UInt32) :
    (rotr x 7 ^^^ rotr x 18 ^^^ (x >>> 3)).toBitVec = Fips180.smallSigma0 x.toBitVec := by
  simp (disch := decide) only [UInt32.toBitVec_xor, toBitVec_rotr]
  rfl

theorem smallSigma1_eq (x : UInt32) :
    (rotr x 17 ^^^ rotr x 19 ^^^ (x >>> 10)).toBitVec = Fips180.smallSigma1 x.toBitVec := by
  simp (disch := decide) only [UInt32.toBitVec_xor, toBitVec_rotr]
  rfl

theorem bigSigma0_eq (x : UInt32) :
    (rotr x 2 ^^^ rotr x 13 ^^^ rotr x 22).toBitVec = Fips180.bigSigma0 x.toBitVec := by
  simp (disch := decide) only [UInt32.toBitVec_xor, toBitVec_rotr]
  rfl

theorem bigSigma1_eq (x : UInt32) :
    (rotr x 6 ^^^ rotr x 11 ^^^ rotr x 25).toBitVec = Fips180.bigSigma1 x.toBitVec := by
  simp (disch := decide) only [UInt32.toBitVec_xor, toBitVec_rotr]
  rfl

/-- Another byte behind a number. -/
theorem shiftLeft_or_byte (n : Nat) (b : UInt8) : n <<< 8 ||| b.toNat = n * 256 + b.toNat := by
  rw [← Nat.shiftLeft_add_eq_or_of_lt b.toNat_lt, Nat.shiftLeft_eq]

theorem toNat_shiftLeft_byte (b : UInt8) {m : UInt32} (small : m.toNat ≤ 24) :
    (b.toUInt32 <<< m).toNat = b.toNat <<< m.toNat := by
  have inside : b.toNat * 2 ^ m.toNat < 2 ^ 8 * 2 ^ 24 :=
    Nat.mul_lt_mul_of_lt_of_le b.toNat_lt (Nat.pow_le_pow_right (by decide) small) (by decide)
  rw [UInt32.toNat_shiftLeft, UInt8.toNat_toUInt32, Nat.mod_eq_of_lt (by omega : m.toNat < 32),
    Nat.shiftLeft_eq, Nat.mod_eq_of_lt (by omega)]

theorem toBitVec_join (b0 b1 b2 b3 : UInt8) :
    (b0.toUInt32 <<< 24 ||| b1.toUInt32 <<< 16 ||| b2.toUInt32 <<< 8 ||| b3.toUInt32).toBitVec =
      BitVec.ofNat 32 (ofBigEndian [b0, b1, b2, b3]) := by
  have joined : b0.toNat <<< 24 ||| b1.toNat <<< 16 ||| b2.toNat <<< 8 ||| b3.toNat =
      ((b0.toNat * 256 + b1.toNat) * 256 + b2.toNat) * 256 + b3.toNat := by
    simp only [← shiftLeft_or_byte, Nat.shiftLeft_or_distrib, ← Nat.shiftLeft_add]
  have small : ((b0.toNat * 256 + b1.toNat) * 256 + b2.toNat) * 256 + b3.toNat < 2 ^ 32 := by
    have lt0 := b0.toNat_lt
    have lt1 := b1.toNat_lt
    have lt2 := b2.toNat_lt
    have lt3 := b3.toNat_lt
    omega
  apply BitVec.eq_of_toNat_eq
  rw [UInt32.toNat_toBitVec, BitVec.toNat_ofNat]
  simp only [UInt32.toNat_or, ofBigEndian, List.foldl_cons, List.foldl_nil, Nat.zero_mul,
    Nat.zero_add]
  rw [Nat.mod_eq_of_lt small, ← joined, toNat_shiftLeft_byte b0 (by decide),
    toNat_shiftLeft_byte b1 (by decide), toNat_shiftLeft_byte b2 (by decide),
    UInt8.toNat_toUInt32]
  rfl

/-- The root of a constant in figures; the integer part of the root is small. -/
def RootOf (k p : Nat) (x : UInt32) : Prop :=
  ∃ q < 32, (q * 2 ^ 32 + x.toNat) ^ k ≤ p * 2 ^ (32 * k) ∧
    p * 2 ^ (32 * k) < (q * 2 ^ 32 + x.toNat + 1) ^ k

instance (k p : Nat) (x : UInt32) : Decidable (RootOf k p x) :=
  inferInstanceAs (Decidable (∃ q < 32, _))

theorem RootOf.eq {k p : Nat} {x : UInt32} (root : RootOf k p x) (positive : 0 < k) :
    x.toBitVec = Fips180.rootBits k p := by
  obtain ⟨q, -, low, high⟩ := root
  rw [Fips180.rootBits_eq positive low high]
  apply BitVec.eq_of_toNat_eq
  rw [UInt32.toNat_toBitVec, BitVec.toNat_ofNat]
  have small := x.toNat_lt
  omega

theorem rootOf_k : ∀ t < 64, RootOf 3 (Fips180.primes.getD t 0) k[t]! := by
  rw [Fips180.primes_eq]
  decide +kernel

theorem rootOf_iv : ∀ j < 8, RootOf 2 (Fips180.primes.getD j 0) iv[j]! := by
  rw [Fips180.primes_eq]
  decide +kernel

/-! ## Compression -/

variable {c : Ctx} {p : Vector UInt8 64} {w : Array UInt32} {n : Nat}

/-- The first words of the array are those of the message schedule. -/
structure Filled (block : Bytes) (n : Nat) (w : Array UInt32) : Prop where
  size_eq : w.size = 64
  word : ∀ t < n, w[t]!.toBitVec = Fips180.schedule block t

theorem Filled.set {block : Bytes} {x : UInt32} (filled : Filled block n w) (room : n < 64)
    (next : x.toBitVec = Fips180.schedule block n) : Filled block (n + 1) (w.set! n x) := by
  refine ⟨by simp [filled.size_eq], fun t before => ?_⟩
  by_cases last : n = t
  · subst last
    rw [Array.getElem!_set!_self _ _ _ (by rw [filled.size_eq]; exact room)]
    exact next
  · rw [Array.getElem!_set!_ne _ _ _ _ last]
    exact filled.word t (by omega)

theorem word_eq {t : Nat} (first : t < 16) : (p[t * 4]!.toUInt32 <<< 24 |||
    p[t * 4 + 1]!.toUInt32 <<< 16 ||| p[t * 4 + 2]!.toUInt32 <<< 8 |||
    p[t * 4 + 3]!.toUInt32).toBitVec = Fips180.word p.toList t := by
  have here (j : Nat) (inside : j < 64) :
      p.toList.drop j = p[j]! :: p.toList.drop (j + 1) := by
    rw [List.drop_eq_getElem_cons (by simpa using inside), getElem!_pos p j inside,
      Vector.getElem_toList]
  rw [toBitVec_join, Fips180.word, Nat.mul_comm 4 t, here _ (by omega), here _ (by omega),
    here _ (by omega), here _ (by omega)]
  rfl

theorem Filled.loadWord (filled : Filled p.toList n w) (first : n < 16) :
    Filled p.toList (n + 1) (loadWord p w n) := by
  refine filled.set (by omega) ?_
  rw [word_eq first, Fips180.schedule, if_pos first]

theorem Filled.extendWord {block : Bytes} (filled : Filled block n w) (behind : 16 ≤ n)
    (room : n < 64) : Filled block (n + 1) (extendWord w n) := by
  refine filled.set room ?_
  rw [Fips180.schedule, if_neg (by omega), ← filled.word (n - 2) (by omega),
    ← filled.word (n - 7) (by omega), ← filled.word (n - 15) (by omega),
    ← filled.word (n - 16) (by omega), ← smallSigma0_eq, ← smallSigma1_eq]
  simp only [UInt32.toBitVec_add]
  ac_rfl

theorem filled_load (p : Vector UInt8 64) (few : n ≤ 16) :
    Filled p.toList n ((List.range n).foldl (Sha256.loadWord p) (.replicate 64 0)) := by
  induction n with
  | zero => exact ⟨Array.size_replicate, fun t before => absurd before (by omega)⟩
  | succ n inductionHypothesis =>
      rw [List.range_succ, List.foldl_concat]
      exact (inductionHypothesis (by omega)).loadWord (by omega)

theorem Filled.extend {block : Bytes} {m : Nat} (filled : Filled block 16 w) (few : m ≤ 48) :
    Filled block (16 + m) ((List.range' 16 m).foldl Sha256.extendWord w) := by
  induction m with
  | zero => exact filled
  | succ m inductionHypothesis =>
      rw [List.range'_1_concat, List.foldl_concat]
      exact (inductionHypothesis (by omega)).extendWord (by omega) (by omega)

/-- The words of the standard in the local variables. -/
def Locals.registers (v : Locals) : Fips180.Registers where
  a := v.a.toBitVec
  b := v.b.toBitVec
  c := v.cc.toBitVec
  d := v.d.toBitVec
  e := v.e.toBitVec
  f := v.f.toBitVec
  g := v.g.toBitVec
  h := v.h.toBitVec

def registers (h : Vector UInt32 8) : Fips180.Registers :=
  Locals.registers ⟨h[0], h[1], h[2], h[3], h[4], h[5], h[6], h[7]⟩

theorem registers_iv : registers iv = Fips180.initial := by
  have root (j : Nat) (inside : j < 8) := (rootOf_iv j inside).eq (by decide)
  unfold registers Locals.registers Fips180.initial
  rw [← root 0 (by decide), ← root 1 (by decide), ← root 2 (by decide), ← root 3 (by decide),
    ← root 4 (by decide), ← root 5 (by decide), ← root 6 (by decide), ← root 7 (by decide)]
  rfl

theorem registers_roundStep {block : Bytes} (filled : Filled block 64 w) (v : Locals)
    {t : Nat} (inside : t < 64) :
    (roundStep w v t).registers = Fips180.round block v.registers t := by
  have constant : k[t]!.toBitVec = Fips180.constant t := (rootOf_k t inside).eq (by decide)
  have scheduled := filled.word t inside
  unfold roundStep Locals.registers Fips180.round
  simp only [UInt32.toBitVec_add, bigSigma0_eq, bigSigma1_eq, constant, scheduled]
  rfl

theorem registers_rounds {block : Bytes} (filled : Filled block 64 w) (v : Locals)
    (few : n ≤ 64) : ((List.range n).foldl (roundStep w) v).registers =
      (List.range n).foldl (Fips180.round block) v.registers := by
  induction n with
  | zero => rfl
  | succ n inductionHypothesis =>
      rw [List.range_succ, List.foldl_concat, List.foldl_concat,
        registers_roundStep filled _ (by omega), inductionHypothesis (by omega)]

/-- The compression of the standard. -/
theorem registers_compress (c : Ctx) (p : Vector UInt8 64) :
    registers (compress c p).h = Fips180.compress (registers c.h) p.toList := by
  have filled := (filled_load p le_rfl).extend le_rfl
  have rounds : _ = (List.range 64).foldl (Fips180.round p.toList) (registers c.h) :=
    registers_rounds filled
      ⟨c.h[0], c.h[1], c.h[2], c.h[3], c.h[4], c.h[5], c.h[6], c.h[7]⟩ le_rfl
  unfold compress Fips180.compress
  dsimp only
  rw [← rounds]
  rfl

/-! ## Messages in pieces -/

/-- What the context holds when it has absorbed the message since `init`. -/
structure Absorbed (m : Bytes) (c : Ctx) : Prop where
  hashed : registers c.h = (blocks 64 m).foldl Fips180.compress Fips180.initial
  counted : c.bitlen = UInt64.ofNat (512 * (m.length / 64))
  blocklen : c.blocklen = m.length % 64
  buffered : c.block.toList.take c.blocklen = remainder 64 m

theorem absorbed_init (c : Ctx) : Absorbed [] (init c) := by
  refine ⟨?_, ?_, rfl, ?_⟩
  · rw [blocks_nil]
    exact registers_iv
  · rfl
  · rfl

theorem take_set_succ {l : Bytes} {i : Nat} (inside : i < l.length) (b : UInt8) :
    (l.set i b).take (i + 1) = l.take i ++ [b] := by
  rw [List.take_succ_eq_append_getElem (by simpa using inside), List.getElem_set_self,
    List.take_set_of_le le_rfl]

theorem Absorbed.updateByte {m : Bytes} (absorbed : Absorbed m c) (b : UInt8) :
    Absorbed (m ++ [b]) (updateByte c b) := by
  have here := absorbed.blocklen
  have written : (c.block.set c.blocklen b c.lt).toList.take (c.blocklen + 1) =
      remainder 64 m ++ [b] := by
    rw [Vector.toList_set, take_set_succ (by simpa using c.lt), absorbed.buffered]
  unfold Sha256.updateByte
  dsimp only
  split
  next full =>
    obtain ⟨last, empty⟩ := blocks_concat_of_full (x := b) (here ▸ full)
    obtain ⟨count, whole⟩ := succ_div_mod_of_full (here ▸ full)
    have block : (c.block.set c.blocklen b c.lt).toList = remainder 64 m ++ [b] := by
      rw [← written, full, List.take_of_length_le]
      simp
    refine ⟨?_, ?_, ?_, ?_⟩
    · have compressed := registers_compress { c with block := c.block.set c.blocklen b c.lt }
        (c.block.set c.blocklen b c.lt)
      dsimp only at compressed ⊢
      rw [last, List.foldl_concat, ← absorbed.hashed, ← block, compressed]
    · rw [List.length_append, List.length_singleton, count, Nat.mul_succ, UInt64.ofNat_add,
        ← absorbed.counted]
      rfl
    · rw [List.length_append, List.length_singleton, whole]
    · rw [empty]
      rfl
  next room =>
    have short : m.length % 64 + 1 < 64 := by
      have := c.lt
      omega
    obtain ⟨same, longer⟩ := blocks_concat_of_lt (x := b) short
    obtain ⟨count, next⟩ := succ_div_mod_of_lt short
    refine ⟨?_, ?_, ?_, ?_⟩
    · rw [same]
      exact absorbed.hashed
    · rw [List.length_append, List.length_singleton, count]
      exact absorbed.counted
    · rw [List.length_append, List.length_singleton, next, ← here]
    · rw [longer]
      exact written

theorem Absorbed.update {m : Bytes} (absorbed : Absorbed m c) (data : Bytes) :
    Absorbed (m ++ data) (update c data) := by
  induction data generalizing m c with
  | nil =>
      rw [List.append_nil]
      exact absorbed
  | cons b data inductionHypothesis =>
      rw [List.append_cons]
      exact inductionHypothesis (absorbed.updateByte b)

/-- The loop of the padding writes the zeros of the standard. -/
theorem Absorbed.updateZeros {m : Bytes} {n : Nat} (absorbed : Absorbed m c)
    (marked : m.length = n + 1) :
    Absorbed (m ++ List.replicate (Fips180.zeros n) 0) (updateZeros c) := by
  induction c using Sha256.updateZeros.induct generalizing m n with
  | case1 c complete =>
      rw [absorbed.blocklen, marked] at complete
      rw [Sha256.updateZeros, if_pos (by rw [absorbed.blocklen, marked, complete]),
        Fips180.zeros_eq_zero complete, List.replicate_zero, List.append_nil]
      exact absorbed
  | case2 c short inductionHypothesis =>
      have open' : (n + 1) % 64 ≠ 56 := by
        rwa [absorbed.blocklen, marked] at short
      have next := inductionHypothesis (absorbed.update [0]) (n := n + 1) (by simp [marked])
      rw [Sha256.updateZeros, if_neg short, Fips180.zeros_eq_succ open', List.replicate_succ,
        List.append_cons]
      exact next

theorem toUInt8_shiftRight (n : Nat) {s : Nat} (inside : s + 8 ≤ 64) :
    ((UInt64.ofNat n >>> UInt64.ofNat s) &&& 0xFF).toUInt8 = UInt8.ofNat (n / 2 ^ s) := by
  have amount : s % 2 ^ 64 % 64 = s := by omega
  have split : 2 ^ 64 = 2 ^ s * 2 ^ (64 - s) := by
    rw [← Nat.pow_add]
    congr 1
    omega
  have lowest : n % 2 ^ 64 / 2 ^ s % 2 ^ 8 = n / 2 ^ s % 2 ^ 8 := by
    rw [split, Nat.mod_mul_right_div_self]
    exact Nat.mod_mod_of_dvd _ (Nat.pow_dvd_pow 2 (by omega))
  apply UInt8.toNat_inj.mp
  rw [UInt64.toNat_toUInt8, UInt64.toNat_and, UInt64.toNat_shiftRight, UInt64.toNat_ofNat',
    UInt64.toNat_ofNat', UInt8.toNat_ofNat', amount, Nat.shiftRight_eq_div_pow]
  exact (congrArg (· % 2 ^ 8) (Nat.and_two_pow_sub_one_eq_mod _ 8)).trans
    ((Nat.mod_mod ..).trans lowest)

/-- `lenb`. -/
theorem lenb_eq (n : Nat) :
    ((List.range 8).map fun i =>
      ((UInt64.ofNat n >>> UInt64.ofNat (56 - i * 8)) &&& 0xFF).toUInt8) = bigEndian 8 n := by
  apply List.map_congr_left
  intro i membership
  have small := List.mem_range.mp membership
  have power : 256 ^ (8 - 1 - i) = 2 ^ (56 - i * 8) := by
    rw [show 256 = 2 ^ 8 from rfl, ← Nat.pow_mul]
    congr 1
    omega
  rw [toUInt8_shiftRight n (by omega), power]

theorem storeWord_eq (x : UInt32) : storeWord x = bigEndian 4 x.toBitVec.toNat := by
  have shifted (n : UInt32) : (x >>> n).toUInt8 = UInt8.ofNat (x.toNat >>> (n.toNat % 32)) := by
    apply UInt8.toNat_inj.mp
    rw [UInt32.toNat_toUInt8, UInt32.toNat_shiftRight, UInt8.toNat_ofNat']
  have lowest : x.toUInt8 = UInt8.ofNat (x.toNat / 256 ^ 0) := by
    apply UInt8.toNat_inj.mp
    rw [UInt32.toNat_toUInt8, UInt8.toNat_ofNat', Nat.pow_zero, Nat.div_one]
  simp only [storeWord, shifted, lowest, Nat.shiftRight_eq_div_pow]
  rfl

theorem output_registers (h : Vector UInt32 8) :
    ((List.finRange 8).flatMap fun i => storeWord h[i]) = Fips180.output (registers h) := by
  simp only [storeWord_eq]
  rfl

/-- The digest of what the context has absorbed. -/
theorem Absorbed.final {m : Bytes} (absorbed : Absorbed m c) :
    (final c).2 = Fips180.sha256 m := by
  have total : c.bitlen + UInt64.ofNat c.blocklen * 8 = UInt64.ofNat (8 * m.length) := by
    have bits : 8 * m.length = 512 * (m.length / 64) + m.length % 64 * 8 := by omega
    rw [absorbed.counted, absorbed.blocklen, bits, UInt64.ofNat_add,
      UInt64.ofNat_mul (m.length % 64)]
    rfl
  have padded := ((absorbed.update [0x80]).updateZeros (n := m.length) (by simp)).update
    (bigEndian 8 (8 * m.length))
  unfold Sha256.final
  dsimp only
  rw [total, lenb_eq]
  rw [List.append_assoc, List.append_assoc] at padded
  rw [output_registers, padded.hashed]
  rfl

theorem absorbed_updates (c : Ctx) (pieces : List Bytes) :
    Absorbed pieces.flatten (pieces.foldl Sha256.update (init c)) := by
  induction pieces using List.reverseRecOn with
  | nil => exact absorbed_init c
  | append_singleton pieces piece inductionHypothesis =>
      rw [List.foldl_concat, List.flatten_append, List.flatten_singleton]
      exact inductionHypothesis.update piece

theorem digest_eq (data : Bytes) : digest data = Fips180.sha256 data :=
  ((absorbed_init default).update data).final

/-- However a message is cut into pieces, and whatever the context held before, the result is
the digest of the whole message. -/
theorem final_updates (c : Ctx) (m : Bytes) (pieces : List Bytes) (cut : pieces.flatten = m) :
    (final (pieces.foldl update (init c))).2 = Fips180.sha256 m :=
  cut ▸ (absorbed_updates c pieces).final

/-- The same text in three pieces, one of them empty. -/
theorem final_updates_abc :
    (final (([[97], [], [98, 99]] : List Bytes).foldl update (init default))).2 =
      Fips180.sha256 [97, 98, 99] :=
  final_updates default [97, 98, 99] [[97], [], [98, 99]] rfl

end OnlineChat.PwdHash.Sha256
