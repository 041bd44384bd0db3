import Mathlib.NumberTheory.LucasLehmer
import RequestAuth.Proofs.Rsa.Factors
import RequestAuth.Signing

/-!
# Genuine keys always sign

A key is not asked whether its factors are prime when it is read. Where they are, every request is
signed, whatever the host, the key id and the time: the check that follows the computation never
fails, and the way of the factors leads to the same signature as the private exponent alone
(`signs_of_isGenuine`). A modulus that a hash does not fit never signs anything.
-/

namespace RequestAuth.Signing

variable {host keyId : String} {key : Rsa.PrivateKey} {time : DateTime}

/-- The block that is raised for a host and a point in time. -/
def block (host : String) (key : Rsa.PrivateKey) (time : DateTime) : Bytes :=
  Rsa.paddedHash key.publicKey.size (Utf8.bytes (content host (HttpDate.render time)))

/-- Requests are signed, and the signature is what it should be. -/
structure Signs (host keyId : String) (key : Rsa.PrivateKey) (time : DateTime)
    (signature : Bytes) : Prop where
  entry : sign host keyId key time = .ok ⟨header keyId signature, HttpDate.render time⟩
  length : signature.length = key.publicKey.size
  /-- The public exponent takes the signature back to the block. -/
  opens : Bytes.toNat signature ^ key.publicExponent % key.modulus =
    Bytes.toNat (block host key time)
  /-- The signature is the block raised to the private exponent. -/
  plain : Bytes.toNat signature =
    Bytes.toNat (block host key time) ^ key.privateExponent % key.modulus
  /-- It was computed modulo each factor. -/
  byFactors : ∃ coefficient, Rsa.inverse? key.factor₂ key.factor₁ = some coefficient ∧
    key.raiseByFactors coefficient (Bytes.toNat (block host key time)) = Bytes.toNat signature

theorem sign_of_isGenuine (genuine : key.IsGenuine) (long : Rsa.minSize ≤ key.publicKey.size) :
    sign host keyId key time = .ok ⟨header keyId (Bytes.ofNatWidth key.publicKey.size
      (key.raise (Bytes.toNat (block host key time)))), HttpDate.render time⟩ := by
  rw [sign, Rsa.PrivateKey.sign_of_isGenuine genuine long]
  rfl

theorem sign_of_lt (short : key.publicKey.size < Rsa.minSize) :
    sign host keyId key time = .error .shortModulus := by
  rw [sign, Rsa.PrivateKey.sign_of_lt short]

theorem signs_of_isGenuine (host keyId : String) (key : Rsa.PrivateKey) (time : DateTime) :
    (key.IsGenuine → Rsa.minSize ≤ key.publicKey.size →
      ∃ signature, Signs host keyId key time signature) ∧
    (key.publicKey.size < Rsa.minSize →
      ∃ e, sign host keyId key time = .error e ∧ e.kind = .signingFailed) := by
  constructor
  · intro genuine long
    have fits : Bytes.toNat (block host key time) < key.modulus :=
      Rsa.PrivateKey.toNat_paddedHash_lt long _
    have value := key.toNat_ofNatWidth_raise (Bytes.toNat (block host key time))
    have plain := Rsa.PrivateKey.raise_eq_powMod genuine (Bytes.toNat (block host key time))
    obtain ⟨coefficient, inverse⟩ := Rsa.PrivateKey.exists_coefficient genuine
    refine ⟨_, sign_of_isGenuine genuine long, Bytes.length_ofNatWidth _ _, ?_, ?_, coefficient,
      inverse, ?_⟩
    · rw [← Rsa.powMod_eq, value]
      exact Rsa.PrivateKey.powMod_raise genuine fits
    · rw [← Rsa.powMod_eq, value, plain]
    · rw [value, plain]
      exact Rsa.PrivateKey.raiseByFactors_eq genuine inverse _
  · intro short
    exact ⟨_, sign_of_lt short, rfl⟩

/-! ## Two keys -/

/-- The start of 1970. -/
def epoch : DateTime := (DateTime.ofUnix? 0 0).get (by decide)

/-- The numbers of a key whose factors are prime numbers of Mersenne. -/
def mersenneNumbers : Rsa.KeyNumbers where
  modulus := mersenne 127 * mersenne 521
  publicExponent := 65537
  privateExponent :=
    0x2a7fd5802a7fd5802a7fd5802a7fd57f80807f7f80807f7f80807f7f80807f7f80807f7f80807f7f80 * 2 ^ 320 +
      0x807f7f80807f7f80807f7f80807f7f80807f7f80807f7f8055ffaa0055ffaa0055ffaa0055ffaa01
  factor₁ := mersenne 127
  factor₂ := mersenne 521

/-- The key with those numbers. -/
def mersenneKey : Rsa.PrivateKey := ⟨mersenneNumbers, by decide +kernel⟩

theorem isGenuine_mersenneKey : mersenneKey.IsGenuine where
  prime₁ := lucas_lehmer_sufficiency 127 (by norm_num) (by norm_num)
  prime₂ := lucas_lehmer_sufficiency 521 (by norm_num) (by norm_num)
  distinct := by decide +kernel

/-- A key with a modulus of one byte. -/
def tinyKey : Rsa.PrivateKey := ⟨⟨15, 3, 3, 3, 5⟩, by decide⟩

theorem signs_mersenneKey :
    (mersenneKey.IsGenuine ∧ Rsa.minSize ≤ mersenneKey.publicKey.size ∧
      ∃ signature, Signs "host" "id" mersenneKey epoch signature) ∧
    tinyKey.publicKey.size < Rsa.minSize ∧
      ∃ e, sign "host" "id" tinyKey epoch = .error e ∧ e.kind = .signingFailed := by
  have long : Rsa.minSize ≤ mersenneKey.publicKey.size := by decide +kernel
  have short : tinyKey.publicKey.size < Rsa.minSize := by decide +kernel
  exact ⟨⟨isGenuine_mersenneKey, long,
    (signs_of_isGenuine "host" "id" mersenneKey epoch).1 isGenuine_mersenneKey long⟩, short,
    (signs_of_isGenuine "host" "id" tinyKey epoch).2 short⟩

end RequestAuth.Signing
