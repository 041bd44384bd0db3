import RequestAuth.Cipher.Aes
import RequestAuth.Encoding.Der
import RequestAuth.KeyDerivation.Scrypt

/-!
# Encryption under a password

An encrypted document is a sequence of a scheme and of the encrypted bytes. The scheme tells how the
key is derived from the password, and how long it is. `Password.decrypt?` reads such a document and
decrypts it.
-/

namespace RequestAuth.Password

open Der

/-! ## Schemes -/

/-- How a key is derived from a password. -/
inductive Derivation where
  /-- By repeated hashing. -/
  | hashing (variant : Sha2) (salt : Bytes) (iterations : Nat)
  /-- By memory-hard mixing. -/
  | mixing (cost : Scrypt.Cost) (salt : Bytes)
  deriving DecidableEq, Repr

/-- The key of the given length for a password. -/
def Derivation.key (derivation : Derivation) (password : Bytes) (length : Nat) : Bytes :=
  match derivation with
  | hashing variant salt iterations => Pbkdf2.key variant password salt iterations length
  | mixing cost salt => Scrypt.key cost password salt length

/-- How a document is encrypted. -/
structure Scheme where
  /-- How the key is derived. -/
  derivation : Derivation
  /-- The length of the key. -/
  keyLength : Nat
  /-- What the first block is chained to. -/
  iv : Bytes
  deriving DecidableEq, Repr

/-- Decrypts bytes that are whole blocks. -/
def Scheme.decrypt? (scheme : Scheme) (password ciphertext : Bytes) : Option Bytes := do
  guard (ciphertext.length % 16 = 0)
  let key := scheme.derivation.key password scheme.keyLength
  Aes.unpad? (Aes.decryptChain key scheme.iv ciphertext)

/-! ## Registered names -/

/-- The name of a scheme that is made of a derivation and a cipher. -/
def schemeName : Bytes := [0x2A, 0x86, 0x48, 0x86, 0xF7, 0x0D, 0x01, 0x05, 0x0D]

/-- The name of derivation by repeated hashing. -/
def hashingName : Bytes := [0x2A, 0x86, 0x48, 0x86, 0xF7, 0x0D, 0x01, 0x05, 0x0C]

/-- The name of derivation by memory-hard mixing. -/
def mixingName : Bytes := [0x2B, 0x06, 0x01, 0x04, 0x01, 0xDA, 0x47, 0x04, 0x0B]

/-- The names of keyed hashes. -/
def hashNames : List (Bytes × Sha2) := [
  ([0x2A, 0x86, 0x48, 0x86, 0xF7, 0x0D, 0x02, 0x08], .sha224),
  ([0x2A, 0x86, 0x48, 0x86, 0xF7, 0x0D, 0x02, 0x09], .sha256),
  ([0x2A, 0x86, 0x48, 0x86, 0xF7, 0x0D, 0x02, 0x0A], .sha384),
  ([0x2A, 0x86, 0x48, 0x86, 0xF7, 0x0D, 0x02, 0x0B], .sha512)]

/-- The names of ciphers with chained blocks, and the lengths of their keys. -/
def cipherNames : List (Bytes × Nat) := [
  ([0x60, 0x86, 0x48, 0x01, 0x65, 0x03, 0x04, 0x01, 0x02], 16),
  ([0x60, 0x86, 0x48, 0x01, 0x65, 0x03, 0x04, 0x01, 0x16], 24),
  ([0x60, 0x86, 0x48, 0x01, 0x65, 0x03, 0x04, 0x01, 0x2A], 32)]

/-- Takes a named algorithm off the start of a byte string: its name, its parameters, and the
rest. -/
def takeNamed? (bytes : Bytes) : Option (Bytes × Bytes × Bytes) := do
  let (contents, rest) ← take? sequenceTag bytes
  let (name, parameters) ← take? identifierTag contents
  return (name, parameters, rest)

/-! ## Reading a scheme -/

/-- The greatest number of times that derivation by repeated hashing may hash. -/
def iterationLimit : Nat := 100000000

/-- The parameters of derivation by repeated hashing, and the length of the key if they tell it. -/
def hashing? (parameters : Bytes) : Option (Derivation × Option Nat) := do
  let (salt, rest) ← take? octetStringTag (← whole? sequenceTag parameters)
  let (iterations, rest) ← takeNatBelow? (Nat.pow 2 32) rest
  let (length, rest) ← takeOptionalNatBelow? (Nat.pow 2 16) rest
  let (name, nothing, rest) ← takeNamed? rest
  guard ((← whole? nullTag nothing).isEmpty ∧ rest.isEmpty ∧ iterations ≤ iterationLimit)
  return (.hashing (← hashNames.lookup name) salt iterations, length)

/-- Whether a derivation by mixing has a cost that can be met. The size of the table in bytes is a
number of 64 bits. -/
def isCost (cost : Scrypt.Cost) : Bool :=
  cost.states ≠ 0 ∧ Nat.pow 2 cost.states.log2 = cost.states ∧ cost.width ≠ 0 ∧ cost.blocks ≠ 0 ∧
    cost.states.log2 < 16 * cost.width ∧ cost.width * cost.blocks < Nat.pow 2 30 ∧
    128 * cost.width * cost.states < Nat.pow 2 64

/-- The parameters of derivation by mixing, and the length of the key if they tell it. -/
def mixing? (parameters : Bytes) : Option (Derivation × Option Nat) := do
  let (salt, rest) ← take? octetStringTag (← whole? sequenceTag parameters)
  let (states, rest) ← takeNatBelow? (Nat.pow 2 64) rest
  let (width, rest) ← takeNatBelow? (Nat.pow 2 16) rest
  let (blocks, rest) ← takeNatBelow? (Nat.pow 2 16) rest
  let (length, rest) ← takeOptionalNatBelow? (Nat.pow 2 16) rest
  guard (rest.isEmpty ∧ isCost ⟨states, width, blocks⟩)
  return (.mixing ⟨states, width, blocks⟩ salt, length)

/-- Takes a scheme off the start of a byte string. -/
def takeScheme? (bytes : Bytes) : Option (Scheme × Bytes) := do
  let (name, parameters, rest) ← takeNamed? bytes
  guard (name = schemeName)
  let (derivationName, derivationParameters, cipher) ←
    takeNamed? (← whole? sequenceTag parameters)
  let (cipherName, cipherParameters, nothing) ← takeNamed? cipher
  let iv ← whole? octetStringTag cipherParameters
  let keyLength ← cipherNames.lookup cipherName
  let (derivation, length) ←
    if derivationName = hashingName then hashing? derivationParameters
    else if derivationName = mixingName then mixing? derivationParameters
    else failure
  guard (nothing.isEmpty ∧ iv.length = 16 ∧ length.getD keyLength = keyLength)
  return (⟨derivation, keyLength, iv⟩, rest)

/-- Decrypts an encrypted document with a password. -/
def decrypt? (password document : Bytes) : Option Bytes := do
  let (scheme, rest) ← takeScheme? (← whole? sequenceTag document)
  scheme.decrypt? password (← whole? octetStringTag rest)

end RequestAuth.Password
