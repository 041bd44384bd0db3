import RequestAuth.Proofs.Encoding.Der
import RequestAuth.Proofs.Rsa.Signature
import RequestAuth.Rsa.KeyDocument

/-!
# Keys that are read from what was written

The sequence of the numbers of a key is read as that key, whatever the numbers are that can be
computed from it (`PrivateKey.ofSequence?_write`), and so is its wrapping
(`PrivateKey.ofWrapped?_write`). All that is asked is that the length of the encoding can be
written, which holds if none of the numbers is above the modulus (`PrivateKey.length_wrapped_le`).
-/

namespace RequestAuth.Rsa

open Der

variable {sequence : Bytes}

/-! ## The sequence of numbers -/

theorem takeNats?_flatMap (numbers : List Nat)
    (h : (numbers.flatMap writeNat).length ≤ maxLength) (rest : Bytes) :
    takeNats? numbers.length (numbers.flatMap writeNat ++ rest) = some (numbers, rest) := by
  induction numbers with
  | nil => rfl
  | cons n numbers ih =>
    rw [List.flatMap_cons, List.length_append] at h
    have first := takeNat?_writeNat (n := n) (by omega) (numbers.flatMap writeNat ++ rest)
    have later := ih (by omega)
    rw [List.flatMap_cons, List.append_assoc, List.length_cons, takeNats?, first]
    simp only [Option.bind_eq_bind, Option.bind_some, later]
    rfl

namespace KeyNumbers

/-- The numbers in the encoding of a key, in order. -/
def listed (k : KeyNumbers) (exponent₁ exponent₂ coefficient : Nat) : List Nat :=
  [0, k.modulus, k.publicExponent, k.privateExponent, k.factor₁, k.factor₂, exponent₁, exponent₂,
    coefficient]

theorem ofSequence?_write (k : KeyNumbers) (exponent₁ exponent₂ coefficient : Nat)
    (h : (k.write exponent₁ exponent₂ coefficient).length ≤ maxLength) :
    ofSequence? (k.write exponent₁ exponent₂ coefficient) = some k := by
  let numbers := k.listed exponent₁ exponent₂ coefficient
  have short : (numbers.flatMap writeNat).length ≤ maxLength :=
    (Element.length_contents_le ⟨sequenceTag, numbers.flatMap writeNat⟩).trans h
  have whole : whole? sequenceTag (k.write exponent₁ exponent₂ coefficient) =
      some (numbers.flatMap writeNat) := whole?_write rfl short
  have all := takeNats?_flatMap numbers short []
  rw [List.append_nil] at all
  rw [ofSequence?, whole, Option.bind_eq_bind, Option.bind_some,
    show 9 = numbers.length from rfl, all]
  rfl

end KeyNumbers

namespace PrivateKey

theorem ofNumbers?_self (key : PrivateKey) : ofNumbers? key.toKeyNumbers = some key :=
  dif_pos key.isKey

theorem ofSequence?_write (key : PrivateKey) (exponent₁ exponent₂ coefficient : Nat)
    (h : (key.write exponent₁ exponent₂ coefficient).length ≤ maxLength) :
    ofSequence? (key.write exponent₁ exponent₂ coefficient) = some key := by
  rw [ofSequence?, KeyNumbers.ofSequence?_write _ _ _ _ h, Option.bind_eq_bind, Option.bind_some,
    ofNumbers?_self]

end PrivateKey

/-! ## The wrapped sequence -/

theorem length_le_writeWrapped (sequence : Bytes) :
    sequence.length ≤ (writeWrapped sequence).length := by
  have inner := Element.length_contents_le ⟨octetStringTag, sequence⟩
  have outer := Element.length_contents_le ⟨sequenceTag,
    writeNat 0 ++ writeSequence algorithm ++ Element.write ⟨octetStringTag, sequence⟩⟩
  rw [List.length_append] at outer
  exact inner.trans ((Nat.le_add_left _ _).trans outer)

theorem unwrap?_writeWrapped (h : (writeWrapped sequence).length ≤ maxLength) :
    unwrap? (writeWrapped sequence) = some sequence := by
  have short := (length_le_writeWrapped sequence).trans h
  have whole : whole? sequenceTag (writeWrapped sequence) = some (writeNat 0 ++
      writeSequence algorithm ++ Element.write ⟨octetStringTag, sequence⟩) :=
    whole?_write rfl ((Element.length_contents_le ⟨sequenceTag, _⟩).trans h)
  have short₀ : (writeNat 0).length ≤ maxLength :=
    (length_writeNat_le (k := 0) Nat.one_pos (by decide)).trans (by decide)
  have version (rest : Bytes) : takeNatBelow? 2 (writeNat 0 ++ rest) = some (0, rest) := by
    simp [takeNatBelow?, takeNat?_writeNat short₀, guard]
  have named (rest : Bytes) : take? sequenceTag (writeSequence algorithm ++ rest) =
      some (algorithm, rest) := take?_write rfl (by decide) rest
  have last : take? octetStringTag (Element.write ⟨octetStringTag, sequence⟩) =
      some (sequence, []) := by
    have taken : take? octetStringTag (Element.write ⟨octetStringTag, sequence⟩ ++ []) =
      some (sequence, []) := take?_write rfl short []
    rwa [List.append_nil] at taken
  rw [unwrap?, whole]
  simp only [Option.bind_eq_bind, Option.bind_some, List.append_assoc, version, named, last]
  rfl

namespace PrivateKey

theorem ofWrapped?_write (key : PrivateKey) (exponent₁ exponent₂ coefficient : Nat)
    (h : (writeWrapped (key.write exponent₁ exponent₂ coefficient)).length ≤ maxLength) :
    ofWrapped? (writeWrapped (key.write exponent₁ exponent₂ coefficient)) = some key := by
  rw [ofWrapped?, unwrap?_writeWrapped h, Option.bind_eq_bind, Option.bind_some]
  exact key.ofSequence?_write _ _ _ ((length_le_writeWrapped _).trans h)

end PrivateKey

/-! ## How long the encodings are -/

/-- The greatest number of bytes of a modulus. -/
def maxModulusBytes : Nat := maxModulusBits / 8

theorem length_flatMap_writeNat_le {numbers : List Nat}
    (h : ∀ n ∈ numbers, n < 256 ^ maxModulusBytes) :
    (numbers.flatMap writeNat).length ≤ numbers.length * (maxModulusBytes + 7) := by
  induction numbers with
  | nil => exact Nat.zero_le _
  | cons n numbers ih =>
    have first := length_writeNat_le (h n List.mem_cons_self) (by decide)
    have later := ih fun m hm => h m (List.mem_cons_of_mem _ hm)
    rw [List.flatMap_cons, List.length_append, List.length_cons, Nat.add_one_mul]
    omega

namespace PrivateKey

theorem modulus_lt_pow (key : PrivateKey) : key.modulus < 256 ^ maxModulusBytes := by
  obtain ⟨⟨bits, -⟩, -⟩ := key.isKey
  calc key.modulus < 2 ^ bitLength key.modulus := lt_two_pow_bitLength _
    _ ≤ 2 ^ maxModulusBits := Nat.pow_le_pow_right (by decide) bits
    _ = 256 ^ maxModulusBytes := by
      rw [show maxModulusBits = 8 * maxModulusBytes by decide, Nat.pow_mul]

/-- The wrapping of a key is not long if no number in it is above the modulus. -/
theorem length_wrapped_le (key : PrivateKey) {exponent₁ exponent₂ coefficient : Nat}
    (hd : key.privateExponent ≤ key.modulus) (h₁ : exponent₁ ≤ key.modulus)
    (h₂ : exponent₂ ≤ key.modulus) (hc : coefficient ≤ key.modulus) :
    (writeWrapped (key.write exponent₁ exponent₂ coefficient)).length ≤
      9 * (maxModulusBytes + 7) + 40 := by
  have pos := key.modulus_pos
  obtain ⟨⟨-, -, he, -⟩, product, -⟩ := key.isKey
  have hp : key.factor₁ ≤ key.modulus := Nat.le_of_dvd pos (Dvd.intro _ product)
  have hq : key.factor₂ ≤ key.modulus := Nat.le_of_dvd pos (Dvd.intro_left _ product)
  have small : ∀ n ∈ key.listed exponent₁ exponent₂ coefficient, n < 256 ^ maxModulusBytes := by
    intro n hn
    apply lt_of_le_of_lt _ key.modulus_lt_pow
    simp only [KeyNumbers.listed, List.mem_cons, List.not_mem_nil, or_false] at hn
    omega
  -- each wrapping adds a few bytes to the nine numbers
  have numbers : ((key.listed exponent₁ exponent₂ coefficient).flatMap writeNat).length ≤
      9 * (maxModulusBytes + 7) := length_flatMap_writeNat_le small
  have sequence : (key.write exponent₁ exponent₂ coefficient).length ≤
      9 * (maxModulusBytes + 7) + 6 := Element.length_write_le numbers (by decide)
  have inner : (Element.write ⟨octetStringTag, key.write exponent₁ exponent₂ coefficient⟩).length ≤
      9 * (maxModulusBytes + 7) + 12 := Element.length_write_le sequence (by decide)
  have version : (writeNat 0).length ≤ 7 := length_writeNat_le (k := 0) Nat.one_pos (by decide)
  have named : (writeSequence algorithm).length = 15 := by decide
  have contents : (writeNat 0 ++ writeSequence algorithm ++ Element.write ⟨octetStringTag,
      key.write exponent₁ exponent₂ coefficient⟩).length ≤ 9 * (maxModulusBytes + 7) + 34 := by
    rw [List.length_append, List.length_append]
    omega
  exact Element.length_write_le contents (by decide)

end PrivateKey

end RequestAuth.Rsa
