import OnlineChat.Library.Blocks

/-!
# Keyed hashes and derived keys

HMAC of RFC 2104 over any hash function, and PBKDF2 of RFC 8018 over any pseudorandom function.
-/

namespace OnlineChat.Library

def xorBytes (x y : List UInt8) : List UInt8 := List.zipWith (· ^^^ ·) x y

@[simp]
theorem length_xorBytes (x y : List UInt8) :
    (xorBytes x y).length = min x.length y.length := by
  simp [xorBytes]

theorem xorBytes_zeros (x : List UInt8) : xorBytes (List.replicate x.length 0) x = x := by
  apply List.ext_getElem (by simp)
  intro i _ inside
  simp [xorBytes]

/-- The HMAC of a text over a hash function `H` with blocks of `B` bytes. -/
def hmac (H : List UInt8 → List UInt8) (B : Nat) (key text : List UInt8) : List UInt8 :=
  let K := if B < key.length then H key else key
  let K := K ++ List.replicate (B - K.length) 0
  H (K.map (· ^^^ 0x5c) ++ H (K.map (· ^^^ 0x36) ++ text))

section Pbkdf2

variable (prf : List UInt8 → List UInt8 → List UInt8) (hLen : Nat) (P S : List UInt8)

/-- `U_1`, `U_2` and so on for the block of that number. -/
def iterated (i : Nat) : Nat → List UInt8
  | 0 => prf P (S ++ bigEndian 4 i)
  | j + 1 => prf P (iterated i j)

/-- The function `F`: the exclusive or of the first `c` of them. -/
def derivedBlock (c i : Nat) : List UInt8 :=
  ((List.range c).map (iterated prf P S i)).foldl xorBytes (List.replicate hLen 0)

/-- The blocks `T_1`, `T_2` and so on, cut to `dkLen` bytes. -/
def pbkdf2 (c dkLen : Nat) : List UInt8 :=
  ((List.range ((dkLen + hLen - 1) / hLen)).flatMap fun i =>
    derivedBlock prf hLen P S c (i + 1)).take dkLen

variable {prf hLen P S}

theorem derivedBlock_one {i : Nat} (digest : (iterated prf P S i 0).length = hLen) :
    derivedBlock prf hLen P S 1 i = iterated prf P S i 0 := by
  rw [← digest]
  exact xorBytes_zeros _

theorem derivedBlock_succ (c i : Nat) : derivedBlock prf hLen P S (c + 1) i =
    xorBytes (derivedBlock prf hLen P S c i) (iterated prf P S i c) := by
  rw [derivedBlock, List.range_succ, List.map_append, List.map_singleton, List.foldl_concat]
  rfl

end Pbkdf2

end OnlineChat.Library
