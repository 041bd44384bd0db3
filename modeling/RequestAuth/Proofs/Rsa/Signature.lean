import Mathlib.Algebra.Order.Group.Nat
import RequestAuth.Proofs.Bytes
import RequestAuth.Rsa.Signature

/-!
# Signatures that are made are accepted

`PrivateKey.sign` raises a block to the private exponent and lets the result pass only if raising it
to the public exponent gives the block back. The result is below the modulus, so that its bytes, as
many as the modulus has, are that number again, and whoever has the public key accepts them
(`PrivateKey.accepts_of_sign`).
-/

namespace RequestAuth.Rsa

variable {key : PrivateKey} {message signature : Bytes}

/-! ## Arithmetic -/

theorem powMod_eq (base exponent modulus : Nat) :
    powMod base exponent modulus = base ^ exponent % modulus := by
  fun_induction powMod base exponent modulus with
  | case1 base => rw [Nat.pow_zero]
  | case2 base exponent h half odd ih =>
    have split : exponent = 2 * (exponent / 2) + 1 := by omega
    have square : half = (base * base) ^ (exponent / 2) % modulus := by
      rw [show half = _ from ih, ← Nat.pow_mod]
    calc base * half % modulus = base * (base * base) ^ (exponent / 2) % modulus := by
          rw [square, Nat.mul_mod_mod]
      _ = base ^ (2 * (exponent / 2) + 1) % modulus := by
          rw [Nat.pow_succ, Nat.pow_mul, Nat.pow_two, Nat.mul_comm]
      _ = base ^ exponent % modulus := by rw [← split]
  | case3 base exponent h half even ih =>
    have split : exponent = 2 * (exponent / 2) := by omega
    calc half = (base * base) ^ (exponent / 2) % modulus := by
          rw [show half = _ from ih, ← Nat.pow_mod]
      _ = base ^ (2 * (exponent / 2)) % modulus := by rw [Nat.pow_mul, Nat.pow_two]
      _ = base ^ exponent % modulus := by rw [← split]

theorem powMod_lt (base exponent : Nat) {modulus : Nat} (h : 0 < modulus) :
    powMod base exponent modulus < modulus := by
  rw [powMod_eq]
  exact Nat.mod_lt _ h

theorem lt_two_pow_bitLength (n : Nat) : n < 2 ^ bitLength n := by
  unfold bitLength
  split
  · next h => simp [h]
  · exact Nat.lt_log2_self

theorem PublicKey.modulus_lt (key : PublicKey) : key.modulus < 256 ^ key.size := by
  have hb : bitLength key.modulus ≤ 8 * key.size := by
    unfold PublicKey.size
    omega
  calc key.modulus < 2 ^ bitLength key.modulus := lt_two_pow_bitLength _
    _ ≤ 2 ^ (8 * key.size) := Nat.pow_le_pow_right (by decide) hb
    _ = 256 ^ key.size := by rw [Nat.pow_mul]

/-! ## Signing and checking -/

theorem PrivateKey.modulus_pos (key : PrivateKey) : 0 < key.modulus := by
  obtain ⟨⟨-, odd, -⟩, -⟩ := key.isKey
  omega

/-- A result that is put together from what it is modulo either factor. -/
theorem combine_lt {p q x y : Nat} (hx : x < p) (hy : y < q) : x * q + y < p * q :=
  calc x * q + y < x * q + q := Nat.add_lt_add_left hy _
    _ = (x + 1) * q := by rw [Nat.add_one_mul]
    _ ≤ p * q := Nat.mul_le_mul_right q hx

theorem PrivateKey.raise_lt (key : PrivateKey) (n : Nat) : key.raise n < key.modulus := by
  unfold raise
  split
  · exact powMod_lt _ _ key.modulus_pos
  · next coefficient _ =>
    obtain ⟨-, product, -⟩ := key.isKey
    have pos : 0 < key.factor₁ * key.factor₂ := product ▸ key.modulus_pos
    have hp : 0 < key.factor₁ := Nat.pos_of_mul_pos_right pos
    have hq : 0 < key.factor₂ := Nat.pos_of_mul_pos_left pos
    rw [raiseByFactors, ← product]
    exact combine_lt (Nat.mod_lt _ hp) (powMod_lt _ _ hq)

theorem PrivateKey.sign_eq_ok (h : key.sign message = .ok signature) :
    ∃ block, block? key.publicKey.size message = some block ∧
      powMod (key.raise (Bytes.toNat block)) key.publicExponent key.modulus = Bytes.toNat block ∧
      signature = Bytes.ofNatWidth key.publicKey.size (key.raise (Bytes.toNat block)) := by
  unfold sign at h
  split at h
  · cases h
  · next block hb =>
    dsimp only at h
    split at h
    · next back =>
      cases h
      exact ⟨block, hb, back, rfl⟩
    · cases h

theorem PrivateKey.accepts_of_sign (h : key.sign message = .ok signature) :
    key.publicKey.accepts message signature = true := by
  obtain ⟨block, hb, back, rfl⟩ := sign_eq_ok h
  have hlt : key.raise (Bytes.toNat block) < key.modulus := key.raise_lt _
  have whole : Bytes.toNat (Bytes.ofNatWidth key.publicKey.size (key.raise (Bytes.toNat block))) =
      key.raise (Bytes.toNat block) := by
    rw [Bytes.toNat_ofNatWidth]
    exact Nat.mod_eq_of_lt (hlt.trans key.publicKey.modulus_lt)
  refine decide_eq_true ⟨Bytes.length_ofNatWidth _ _, ?_, ?_⟩
  · rw [whole]
    exact hlt
  · rw [whole, hb, Option.map_some]
    exact congrArg some back.symm

end RequestAuth.Rsa
