import RequestAuth.Error
import RequestAuth.Rsa.Key

/-!
# Signatures

The hash of a message is put at the end of a block that is as long as the modulus, and the block,
as a number, is raised to the private exponent. Raising the result to the public exponent gives the
block back; `PrivateKey.sign` makes sure of that, and `PublicKey.accepts` checks signatures so.
-/

namespace RequestAuth.Rsa

/-! ## Arithmetic -/

/-- The power `base ^ exponent` modulo `modulus`. -/
def powMod (base exponent modulus : Nat) : Nat :=
  if exponent = 0 then 1 % modulus
  else
    let half := powMod (base * base % modulus) (exponent / 2) modulus
    if exponent % 2 = 1 then base * half % modulus else half
termination_by exponent

/-- Continues the division of `r₀` by `r₁`, which are multiples of a number `a` modulo another, by
`t₀` and `t₁`: the factor that their greatest common divisor is a multiple by. -/
def divideOn (r₀ r₁ : Nat) (t₀ t₁ : Int) : Int :=
  if r₁ = 0 then t₀ else divideOn r₁ (r₀ % r₁) t₁ (t₀ - r₀ / r₁ * t₁)
termination_by r₁
decreasing_by exact Nat.mod_lt _ (by omega)

/-- The number below `modulus` by which `a` is 1 modulo `modulus`, if there is one. -/
def inverse? (a modulus : Nat) : Option Nat :=
  let x := (divideOn modulus (a % modulus) 0 1 % modulus).toNat
  if a * x % modulus = 1 % modulus then some x else none

/-! ## Blocks -/

/-- What precedes a hash in a block: the name of the hash function, and the length of the hash. -/
def hashHeader : Bytes := [
  0x30, 0x31, 0x30, 0x0D, 0x06, 0x09, 0x60, 0x86, 0x48, 0x01, 0x65, 0x03, 0x04, 0x02, 0x01, 0x05,
  0x00, 0x04, 0x20]

/-- The least number of bytes of a block that precede the header of the hash. -/
def minPadding : Nat := 11

/-- The block of the given length for a message. -/
def block? (size : Nat) (message : Bytes) : Option Bytes :=
  let hashed := hashHeader ++ Sha2.sha256.digest message
  if size < hashed.length + minPadding then none
  else some (0 :: 1 :: (List.replicate (size - hashed.length - 3) 0xFF ++ 0 :: hashed))

/-! ## Signing and checking -/

/-- Raises to the private exponent modulo each factor on its own, and puts the results together with
an inverse of the second factor modulo the first. -/
def PrivateKey.raiseByFactors (key : PrivateKey) (coefficient n : Nat) : Nat :=
  let p := key.factor₁
  let q := key.factor₂
  let root₁ := powMod n (key.privateExponent % (p - 1)) p
  let root₂ := powMod n (key.privateExponent % (q - 1)) q
  (root₁ + (p - root₂ % p)) * coefficient % p * q + root₂

/-- Raises to the private exponent, modulo each factor on its own where the second factor has an
inverse modulo the first. -/
def PrivateKey.raise (key : PrivateKey) (n : Nat) : Nat :=
  match inverse? key.factor₂ key.factor₁ with
  | none => powMod n key.privateExponent key.modulus
  | some coefficient => key.raiseByFactors coefficient n

/-- The signature of a message. -/
def PrivateKey.sign (key : PrivateKey) (message : Bytes) : Except Error Bytes :=
  match block? key.publicKey.size message with
  | none => .error .shortModulus
  | some block =>
    let root := key.raise (Bytes.toNat block)
    if powMod root key.publicExponent key.modulus = Bytes.toNat block then
      .ok (Bytes.ofNatWidth key.publicKey.size root)
    else .error .wrongSignature

/-- Whether a byte string is the signature of a message. -/
def PublicKey.accepts (key : PublicKey) (message signature : Bytes) : Bool :=
  signature.length = key.size ∧ Bytes.toNat signature < key.modulus ∧
    (block? key.size message).map Bytes.toNat =
      some (powMod (Bytes.toNat signature) key.exponent key.modulus)

end RequestAuth.Rsa
