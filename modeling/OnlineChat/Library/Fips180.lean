import Mathlib.Data.Nat.Find
import Mathlib.Data.Nat.Prime.Basic
import OnlineChat.Library.Blocks

/-!
# SHA-256

The hash function of FIPS 180-4: the functions on words, the constants as the roots of primes
that they are, the message schedule, the compression of a block and the padding of a message.
-/

namespace OnlineChat.Library.Fips180

abbrev Word := BitVec 32

/-! ## Functions on words -/

def ch (x y z : Word) : Word := (x &&& y) ^^^ (~~~x &&& z)

def maj (x y z : Word) : Word := (x &&& y) ^^^ (x &&& z) ^^^ (y &&& z)

def bigSigma0 (x : Word) : Word := x.rotateRight 2 ^^^ x.rotateRight 13 ^^^ x.rotateRight 22

def bigSigma1 (x : Word) : Word := x.rotateRight 6 ^^^ x.rotateRight 11 ^^^ x.rotateRight 25

def smallSigma0 (x : Word) : Word := x.rotateRight 7 ^^^ x.rotateRight 18 ^^^ (x >>> 3)

def smallSigma1 (x : Word) : Word := x.rotateRight 17 ^^^ x.rotateRight 19 ^^^ (x >>> 10)

/-! ## Constants -/

/-- The first sixty-four primes. -/
def primes : List Nat := (List.range 312).filter Nat.Prime

/-- The first thirty-two bits of the fractional part of the `k`-th root of `p`. -/
def rootBits (k p : Nat) : Word :=
  BitVec.ofNat 32 (Nat.findGreatest (fun r => r ^ k ≤ p * 2 ^ (32 * k)) (p * 2 ^ (32 * k)))

/-- The constant of a round comes from the cube root of a prime. -/
def constant (t : Nat) : Word := rootBits 3 (primes.getD t 0)

/-- The eight words of a hash value, and the working variables of a round. -/
structure Registers where
  a : Word
  b : Word
  c : Word
  d : Word
  e : Word
  f : Word
  g : Word
  h : Word

/-- The initial hash value comes from the square roots of the first eight primes. -/
def initial : Registers where
  a := rootBits 2 (primes.getD 0 0)
  b := rootBits 2 (primes.getD 1 0)
  c := rootBits 2 (primes.getD 2 0)
  d := rootBits 2 (primes.getD 3 0)
  e := rootBits 2 (primes.getD 4 0)
  f := rootBits 2 (primes.getD 5 0)
  g := rootBits 2 (primes.getD 6 0)
  h := rootBits 2 (primes.getD 7 0)

/-! ## Compression -/

/-- The word at that place of a block. -/
def word (block : List UInt8) (t : Nat) : Word :=
  BitVec.ofNat 32 (ofBigEndian ((block.drop (4 * t)).take 4))

/-- The message schedule. -/
def schedule (block : List UInt8) (t : Nat) : Word :=
  if t < 16 then word block t
  else smallSigma1 (schedule block (t - 2)) + schedule block (t - 7) +
    smallSigma0 (schedule block (t - 15)) + schedule block (t - 16)

def round (block : List UInt8) (v : Registers) (t : Nat) : Registers :=
  let t1 := v.h + bigSigma1 v.e + ch v.e v.f v.g + constant t + schedule block t
  let t2 := bigSigma0 v.a + maj v.a v.b v.c
  { a := t1 + t2, b := v.a, c := v.b, d := v.c, e := v.d + t1, f := v.e, g := v.f, h := v.g }

/-- The hash value behind a block. -/
def compress (v : Registers) (block : List UInt8) : Registers :=
  let v' := (List.range 64).foldl (round block) v
  { a := v.a + v'.a, b := v.b + v'.b, c := v.c + v'.c, d := v.d + v'.d
    e := v.e + v'.e, f := v.f + v'.f, g := v.g + v'.g, h := v.h + v'.h }

/-! ## Messages -/

theorem exists_zeros (n : Nat) : ∃ z, (n + 1 + z) % 64 = 56 :=
  ⟨119 - n % 64, by omega⟩

/-- The least number of zero bytes after which eight bytes complete a block. -/
def zeros (n : Nat) : Nat := Nat.find (exists_zeros n)

/-- The message, a one bit, zeros and the length in bits (modulo `2 ^ 64`, since the standard
allows no longer message). -/
def pad (m : List UInt8) : List UInt8 :=
  m ++ 0x80 :: (List.replicate (zeros m.length) 0 ++ bigEndian 8 (8 * m.length))

def output (v : Registers) : List UInt8 :=
  [v.a, v.b, v.c, v.d, v.e, v.f, v.g, v.h].flatMap fun w => bigEndian 4 w.toNat

def sha256 (m : List UInt8) : List UInt8 := output ((blocks 64 (pad m)).foldl compress initial)

@[simp]
theorem length_sha256 (m : List UInt8) : (sha256 m).length = 32 := by
  simp [sha256, output]

theorem zeros_eq_zero {n : Nat} (complete : (n + 1) % 64 = 56) : zeros n = 0 :=
  (Nat.find_eq_zero (exists_zeros n)).mpr complete

/-- One zero byte is one step towards the place of the length. -/
theorem zeros_eq_succ {n : Nat} (open' : (n + 1) % 64 ≠ 56) : zeros n = zeros (n + 1) + 1 := by
  have later : ∃ z, (n + 1 + (z + 1)) % 64 = 56 := by
    obtain ⟨z, complete⟩ := exists_zeros (n + 1)
    exact ⟨z, by omega⟩
  rw [zeros, Nat.find_comp_succ (exists_zeros n) later open', zeros]
  congr 1
  apply Nat.find_congr'
  intro z
  omega

/-! ## The constants in figures -/

/-- A root that is known to the bit. -/
theorem rootBits_eq {k p r : Nat} (positive : 0 < k) (low : r ^ k ≤ p * 2 ^ (32 * k))
    (high : p * 2 ^ (32 * k) < (r + 1) ^ k) : rootBits k p = BitVec.ofNat 32 r := by
  have root : Nat.findGreatest (fun r => r ^ k ≤ p * 2 ^ (32 * k)) (p * 2 ^ (32 * k)) = r := by
    rw [Nat.findGreatest_eq_iff]
    refine ⟨(Nat.le_self_pow positive.ne' r).trans low, fun _ => low, ?_⟩
    intro n above _ root
    have step : (r + 1) ^ k ≤ n ^ k := Nat.pow_le_pow_left above k
    omega
  rw [rootBits, root]

theorem primes_eq : primes =
    [2, 3, 5, 7, 11, 13, 17, 19, 23, 29, 31, 37, 41, 43, 47, 53, 59, 61, 67, 71, 73, 79, 83, 89,
      97, 101, 103, 107, 109, 113, 127, 131, 137, 139, 149, 151, 157, 163, 167, 173, 179, 181,
      191, 193, 197, 199, 211, 223, 227, 229, 233, 239, 241, 251, 257, 263, 269, 271, 277, 281,
      283, 293, 307, 311] := by
  decide +kernel

end OnlineChat.Library.Fips180
