import RequestAuth.Digest.Sha2

/-!
# Keys for signing

A private key is made of a modulus, a public and a private exponent, and two factors of the modulus.
Raising to one exponent and then to the other changes nothing modulo a factor that is prime; that
the numbers of a key agree in this way is part of its type. That the factors are prime is not: a
signature is checked before it is used.
-/

namespace RequestAuth.Rsa

/-! ## Public keys -/

/-- What is needed to check a signature. -/
structure PublicKey where
  /-- The number that results are reduced by. -/
  modulus : Nat
  /-- The number that signatures are raised to. -/
  exponent : Nat
  deriving DecidableEq, Repr

/-- The number of bits of a number. -/
def bitLength (n : Nat) : Nat :=
  if n = 0 then 0 else n.log2 + 1

/-- The number of bytes of the modulus, and of signatures. -/
def PublicKey.size (key : PublicKey) : Nat :=
  (bitLength key.modulus + 7) / 8

/-- The first eight bytes of the hash of the modulus, by which people tell keys apart. -/
def PublicKey.fingerprint (key : PublicKey) : String :=
  Bytes.hex ((Sha2.sha256.digest (Bytes.ofNat key.modulus)).take 8)

/-! ## Private keys -/

/-- The numbers that a private key is made of. -/
structure KeyNumbers where
  /-- The number that results are reduced by. -/
  modulus : Nat
  /-- The number that signatures are raised to. -/
  publicExponent : Nat
  /-- The number that messages are raised to. -/
  privateExponent : Nat
  /-- The first factor of the modulus. -/
  factor₁ : Nat
  /-- The second factor of the modulus. -/
  factor₂ : Nat
  deriving DecidableEq, Repr

/-- The greatest number of bits of a modulus. The limit of 4096 is one of bytes, not of bits: it is
the length of the modulus in bytes that is compared with it. -/
def maxModulusBits : Nat := 8 * 4096

/-- The greatest public exponent. -/
def maxPublicExponent : Nat := Nat.pow 2 33 - 1

namespace KeyNumbers

/-- The public numbers of a key: an odd modulus, and a smaller odd exponent above 1, neither of
which is too large. -/
def IsPublic (k : KeyNumbers) : Prop :=
  bitLength k.modulus ≤ maxModulusBits ∧ k.modulus % 2 = 1 ∧ k.publicExponent < k.modulus ∧
    k.publicExponent % 2 = 1 ∧ 2 ≤ k.publicExponent ∧ k.publicExponent ≤ maxPublicExponent

/-- Whether the exponents undo each other modulo a prime number. -/
def Inverts (k : KeyNumbers) (prime : Nat) : Prop :=
  k.publicExponent * k.privateExponent % (prime - 1) = 1

/-- The numbers of a key agree with each other. -/
def IsKey (k : KeyNumbers) : Prop :=
  k.IsPublic ∧ k.factor₁ * k.factor₂ = k.modulus ∧ k.Inverts k.factor₁ ∧ k.Inverts k.factor₂

instance (k : KeyNumbers) : Decidable k.IsKey := by
  unfold IsKey IsPublic Inverts; infer_instance

end KeyNumbers

/-- A private key: numbers that agree with each other. -/
structure PrivateKey extends KeyNumbers where
  isKey : toKeyNumbers.IsKey
  deriving DecidableEq

namespace PrivateKey

/-- The private key with the given numbers, if they agree. -/
def ofNumbers? (numbers : KeyNumbers) : Option PrivateKey :=
  if h : numbers.IsKey then some ⟨numbers, h⟩ else none

/-- The public part of a private key. -/
def publicKey (key : PrivateKey) : PublicKey := ⟨key.modulus, key.publicExponent⟩

end PrivateKey

end RequestAuth.Rsa
