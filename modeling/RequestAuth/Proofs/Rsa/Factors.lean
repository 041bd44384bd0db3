import Mathlib.FieldTheory.Finite.Basic
import RequestAuth.Proofs.Digest.Sha2
import RequestAuth.Proofs.Rsa.Signature

/-!
# Keys whose factors are prime

Nothing in a private key says that its two factors are prime. Where they are, and are not the same
(`KeyNumbers.IsGenuine`), raising modulo each factor gives what raising modulo the whole modulus
gives (`PrivateKey.raise_eq_powMod`), and raising to the public exponent undoes it
(`PrivateKey.powMod_raise`). A block is below the modulus (`toNat_paddedHash_lt`), so that signing
succeeds whatever the message is (`PrivateKey.sign_of_isGenuine`).
-/

namespace RequestAuth.Rsa

variable {key : PrivateKey} {a m n p q x coefficient : Nat}

/-! ## Inverses -/

/-- The numbers that are divided stay multiples of `a` modulo `m`, by the factors beside them. -/
theorem divideOn_modEq {r₀ r₁ : Nat} {t₀ t₁ : Int} (h₀ : t₀ * a ≡ r₀ [ZMOD m])
    (h₁ : t₁ * a ≡ r₁ [ZMOD m]) : divideOn r₀ r₁ t₀ t₁ * a ≡ Nat.gcd r₀ r₁ [ZMOD m] := by
  fun_induction divideOn r₀ r₁ t₀ t₁ with
  | case1 r₀ t₀ t₁ => rwa [Nat.gcd_zero_right]
  | case2 r₀ r₁ t₀ t₁ h ih =>
    have rest : (t₀ - r₀ / r₁ * t₁) * a ≡ (r₀ % r₁ : Nat) [ZMOD m] := by
      have left : ((r₀ % r₁ : Nat) : Int) = r₀ - r₀ / r₁ * r₁ := by
        rw [Int.natCast_mod, Int.emod_def, mul_comm]
      rw [left, sub_mul, mul_assoc]
      exact h₀.sub (h₁.mul_left _)
    rw [Nat.gcd_comm, Nat.gcd_rec, Nat.gcd_comm]
    exact ih h₁ rest

theorem exists_inverse (hm : 0 < m) (h : a.Coprime m) : ∃ x, inverse? a m = some x := by
  have start₀ : (0 : Int) * a ≡ m [ZMOD m] := by
    rw [zero_mul]
    exact (Int.modEq_zero_iff_dvd.2 dvd_rfl).symm
  have start₁ : (1 : Int) * a ≡ (a % m : Nat) [ZMOD m] := by
    rw [one_mul, Int.natCast_mod]
    exact (Int.mod_modEq _ _).symm
  have gcd : Nat.gcd m (a % m) = 1 := by
    rw [Nat.gcd_comm, ← Nat.gcd_rec]
    exact h.symm
  have multiple := divideOn_modEq start₀ start₁
  rw [gcd] at multiple
  have found : a * (divideOn m (a % m) 0 1 % m).toNat ≡ 1 [MOD m] := by
    have pos : (0 : Int) ≤ divideOn m (a % m) 0 1 % m := Int.emod_nonneg _ (by omega)
    rw [← Int.natCast_modEq_iff]
    push_cast
    rw [Int.toNat_of_nonneg pos, mul_comm]
    exact ((Int.mod_modEq _ _).mul_right _).trans multiple
  exact ⟨_, if_pos found⟩

theorem mul_inverse_modEq (h : inverse? a m = some x) : a * x ≡ 1 [MOD m] := by
  unfold inverse? at h
  dsimp only at h
  split at h
  · next one =>
    cases h
    exact one
  · cases h

/-! ## Powers -/

/-- Modulo a prime number an exponent counts up to multiples of that number less one. -/
theorem pow_modEq_pow (hp : p.Prime) {a b : Nat} (ha : a ≠ 0) (hb : b ≠ 0)
    (h : a ≡ b [MOD p - 1]) (n : Nat) : n ^ a ≡ n ^ b [MOD p] := by
  by_cases hn : p ∣ n
  · have zero (k : Nat) (hk : k ≠ 0) : n ^ k ≡ 0 [MOD p] :=
      Nat.modEq_zero_iff_dvd.2 (dvd_pow hn hk)
    exact (zero a ha).trans (zero b hb).symm
  · have one : n ^ (p - 1) ≡ 1 [MOD p] :=
      Nat.ModEq.pow_card_sub_one_eq_one hp (hp.coprime_iff_not_dvd.2 hn).symm
    have reduce (k : Nat) : n ^ k ≡ n ^ (k % (p - 1)) [MOD p] := by
      calc n ^ k = (n ^ (p - 1)) ^ (k / (p - 1)) * n ^ (k % (p - 1)) := by
            rw [← pow_mul, ← pow_add, Nat.div_add_mod]
        _ ≡ 1 ^ (k / (p - 1)) * n ^ (k % (p - 1)) [MOD p] := (one.pow _).mul_right _
        _ = n ^ (k % (p - 1)) := by rw [one_pow, one_mul]
    exact (reduce a).trans (h ▸ (reduce b).symm)

theorem powMod_modEq (base exponent modulus : Nat) :
    powMod base exponent modulus ≡ base ^ exponent [MOD modulus] := by
  rw [powMod_eq]
  exact Nat.mod_modEq _ _

/-- The two factors of the modulus are different prime numbers. -/
structure KeyNumbers.IsGenuine (k : KeyNumbers) : Prop where
  prime₁ : k.factor₁.Prime
  prime₂ : k.factor₂.Prime
  distinct : k.factor₁ ≠ k.factor₂

namespace KeyNumbers

variable {k : KeyNumbers}

theorem IsGenuine.coprime (h : k.IsGenuine) : k.factor₁.Coprime k.factor₂ :=
  (Nat.coprime_primes h.prime₁ h.prime₂).2 h.distinct

theorem Inverts.mod_ne_zero (h : k.Inverts p) : k.privateExponent % (p - 1) ≠ 0 := by
  intro zero
  have : k.publicExponent * k.privateExponent % (p - 1) = 0 := by
    rw [Nat.mul_mod, zero, Nat.mul_zero, Nat.zero_mod]
  rw [h] at this
  cases this

/-- Raising to one exponent and then to the other changes nothing. -/
theorem Inverts.pow_modEq (h : k.Inverts p) (hp : p.Prime) (n : Nat) :
    n ^ (k.publicExponent * k.privateExponent) ≡ n [MOD p] := by
  have one : k.publicExponent * k.privateExponent ≡ 1 [MOD p - 1] := by
    have back : k.publicExponent * k.privateExponent % (p - 1) = 1 := h
    calc k.publicExponent * k.privateExponent
        ≡ k.publicExponent * k.privateExponent % (p - 1) [MOD p - 1] := (Nat.mod_modEq _ _).symm
      _ = 1 := back
  have positive : k.publicExponent * k.privateExponent ≠ 0 := by
    intro zero
    unfold Inverts at h
    rw [zero, Nat.zero_mod] at h
    cases h
  simpa using pow_modEq_pow hp positive one_ne_zero one n

theorem Inverts.powMod_modEq (h : k.Inverts p) (hp : p.Prime) (n : Nat) :
    powMod n (k.privateExponent % (p - 1)) p ≡ n ^ k.privateExponent [MOD p] := by
  have positive : k.privateExponent ≠ 0 := fun zero => h.mod_ne_zero (by rw [zero, Nat.zero_mod])
  exact (Rsa.powMod_modEq _ _ _).trans
    (pow_modEq_pow hp h.mod_ne_zero positive (Nat.mod_modEq _ _) n)

end KeyNumbers

/-- Two numbers below the modulus are the same if they agree modulo each factor. -/
theorem PrivateKey.eq_of_modEq (genuine : key.IsGenuine) {x y : Nat} (hx : x < key.modulus)
    (hy : y < key.modulus) (h₁ : x ≡ y [MOD key.factor₁]) (h₂ : x ≡ y [MOD key.factor₂]) :
    x = y := by
  obtain ⟨-, product, -⟩ := key.isKey
  have whole : x ≡ y [MOD key.modulus] := by
    rw [← product]
    exact (Nat.modEq_and_modEq_iff_modEq_mul genuine.coprime).1 ⟨h₁, h₂⟩
  exact whole.eq_of_lt_of_lt hx hy

/-- What is put together from two results is each of them modulo its factor. -/
theorem combine_modEq (hp : 0 < p) (h : q * coefficient ≡ 1 [MOD p]) (x y : Nat) :
    (x + (p - y % p)) * coefficient % p * q + y ≡ x [MOD p] := by
  have le : y % p ≤ p := (Nat.mod_lt _ hp).le
  calc (x + (p - y % p)) * coefficient % p * q + y
      ≡ (x + (p - y % p)) * coefficient * q + y [MOD p] :=
        ((Nat.mod_modEq _ _).mul_right _).add_right _
    _ = (x + (p - y % p)) * (q * coefficient) + y := by ring
    _ ≡ (x + (p - y % p)) * 1 + y % p [MOD p] :=
        (h.mul_left _).add (Nat.mod_modEq _ _).symm
    _ = x + p := by omega
    _ ≡ x [MOD p] := Nat.add_modulus_modEq_iff.2 rfl

theorem PrivateKey.raiseByFactors_eq (genuine : key.IsGenuine)
    (h : inverse? key.factor₂ key.factor₁ = some coefficient) (n : Nat) :
    key.raiseByFactors coefficient n = powMod n key.privateExponent key.modulus := by
  obtain ⟨-, product, inverts₁, inverts₂⟩ := key.isKey
  have raised (p : Nat) (hp : p ∣ key.modulus) :
      powMod n key.privateExponent key.modulus ≡ n ^ key.privateExponent [MOD p] :=
    (powMod_modEq _ _ _).of_dvd hp
  refine eq_of_modEq genuine ?_ (powMod_lt _ _ key.modulus_pos) ?_ ?_
  · rw [← product]
    exact combine_lt (Nat.mod_lt _ genuine.prime₁.pos) (powMod_lt _ _ genuine.prime₂.pos)
  · calc key.raiseByFactors coefficient n
        ≡ powMod n (key.privateExponent % (key.factor₁ - 1)) key.factor₁ [MOD key.factor₁] :=
          combine_modEq genuine.prime₁.pos (mul_inverse_modEq h) _ _
      _ ≡ n ^ key.privateExponent [MOD key.factor₁] := inverts₁.powMod_modEq genuine.prime₁ n
      _ ≡ _ [MOD key.factor₁] := (raised _ (product ▸ Nat.dvd_mul_right _ _)).symm
  · calc key.raiseByFactors coefficient n
        ≡ powMod n (key.privateExponent % (key.factor₂ - 1)) key.factor₂ [MOD key.factor₂] :=
          Nat.ModEq.symm (by simp [raiseByFactors, Nat.ModEq])
      _ ≡ n ^ key.privateExponent [MOD key.factor₂] := inverts₂.powMod_modEq genuine.prime₂ n
      _ ≡ _ [MOD key.factor₂] := (raised _ (product ▸ Nat.dvd_mul_left _ _)).symm

theorem PrivateKey.exists_coefficient (genuine : key.IsGenuine) :
    ∃ coefficient, inverse? key.factor₂ key.factor₁ = some coefficient :=
  exists_inverse genuine.prime₁.pos genuine.coprime.symm

theorem PrivateKey.raise_eq_powMod (genuine : key.IsGenuine) (n : Nat) :
    key.raise n = powMod n key.privateExponent key.modulus := by
  obtain ⟨coefficient, h⟩ := exists_coefficient genuine
  rw [raise, h]
  exact raiseByFactors_eq genuine h n

theorem PrivateKey.powMod_raise (genuine : key.IsGenuine) (h : n < key.modulus) :
    powMod (key.raise n) key.publicExponent key.modulus = n := by
  obtain ⟨-, product, inverts₁, inverts₂⟩ := key.isKey
  have back : powMod (key.raise n) key.publicExponent key.modulus ≡
      n ^ (key.publicExponent * key.privateExponent) [MOD key.modulus] := by
    rw [raise_eq_powMod genuine, Nat.mul_comm, pow_mul]
    exact (powMod_modEq _ _ _).trans ((powMod_modEq _ _ _).pow _)
  refine eq_of_modEq genuine (powMod_lt _ _ key.modulus_pos) h ?_ ?_
  · exact (back.of_dvd (product ▸ Nat.dvd_mul_right _ _)).trans
      (inverts₁.pow_modEq genuine.prime₁ n)
  · exact (back.of_dvd (product ▸ Nat.dvd_mul_left _ _)).trans
      (inverts₂.pow_modEq genuine.prime₂ n)

/-! ## Blocks -/

/-- The least number of bytes of a modulus that a hash fits. -/
def minSize : Nat := 62

/-- A hash filled up to the given number of bytes: two bytes that mark the block, ones, a zero, and
the header of the hash before the hash itself. -/
def paddedHash (size : Nat) (message : Bytes) : Bytes :=
  [0, 1] ++ List.replicate (size - 54) 0xFF ++ [0] ++ hashHeader ++ Sha2.sha256.digest message

theorem block?_eq (size : Nat) (message : Bytes) :
    block? size message = if size < minSize then none else some (paddedHash size message) := by
  have length : (hashHeader ++ Sha2.sha256.digest message).length = 51 := by
    rw [List.length_append, Sha2.length_digest]
    rfl
  have fill : size - 51 - 3 = size - 54 := by omega
  unfold block? paddedHash
  simp only [length, fill, minPadding, minSize, List.append_assoc, List.cons_append,
    List.nil_append]

theorem length_paddedHash {size : Nat} (h : minSize ≤ size) (message : Bytes) :
    (paddedHash size message).length = size := by
  have enough : 62 ≤ size := h
  simp only [paddedHash, List.length_append, List.length_replicate, Sha2.length_digest, Sha2.size,
    hashHeader, List.length_cons, List.length_nil]
  omega

theorem PublicKey.le_modulus {key : PublicKey} (h : key.modulus ≠ 0) :
    256 ^ (key.size - 1) ≤ key.modulus := by
  have bits : 8 * (key.size - 1) ≤ key.modulus.log2 := by
    unfold size bitLength
    rw [if_neg h]
    omega
  calc 256 ^ (key.size - 1) = 2 ^ (8 * (key.size - 1)) := (pow_mul 2 8 _).symm
    _ ≤ 2 ^ key.modulus.log2 := Nat.pow_le_pow_right (by decide) bits
    _ ≤ key.modulus := Nat.log2_self_le h

/-- A block begins with a zero, and so is below a modulus of as many bytes. -/
theorem PrivateKey.toNat_paddedHash_lt (h : minSize ≤ key.publicKey.size) (message : Bytes) :
    Bytes.toNat (paddedHash key.publicKey.size message) < key.modulus := by
  obtain ⟨rest, hr⟩ : ∃ rest, paddedHash key.publicKey.size message = 0 :: rest := ⟨_, rfl⟩
  have length := length_paddedHash h message
  rw [hr, List.length_cons] at length
  have fits : rest.length = key.publicKey.size - 1 := by omega
  calc Bytes.toNat (paddedHash key.publicKey.size message) = Bytes.toNat rest := by
        rw [hr, Bytes.toNat_cons]
        simp
    _ < 256 ^ rest.length := Bytes.toNat_lt rest
    _ = 256 ^ (key.publicKey.size - 1) := by rw [fits]
    _ ≤ key.modulus := PublicKey.le_modulus key.modulus_pos.ne'

/-! ## Signing -/

theorem PrivateKey.sign_of_lt (h : key.publicKey.size < minSize) (message : Bytes) :
    key.sign message = .error .shortModulus := by
  rw [sign, block?_eq, if_pos h]

theorem PrivateKey.sign_of_isGenuine (genuine : key.IsGenuine) (h : minSize ≤ key.publicKey.size)
    (message : Bytes) :
    key.sign message = .ok (Bytes.ofNatWidth key.publicKey.size
      (key.raise (Bytes.toNat (paddedHash key.publicKey.size message)))) := by
  rw [sign, block?_eq, if_neg (Nat.not_lt.2 h)]
  exact if_pos (powMod_raise genuine (toNat_paddedHash_lt h message))

theorem PrivateKey.toNat_ofNatWidth_raise (key : PrivateKey) (n : Nat) :
    Bytes.toNat (Bytes.ofNatWidth key.publicKey.size (key.raise n)) = key.raise n := by
  rw [Bytes.toNat_ofNatWidth]
  exact Nat.mod_eq_of_lt ((key.raise_lt n).trans key.publicKey.modulus_lt)

end RequestAuth.Rsa
