import RequestAuth.Cipher.Password
import RequestAuth.Proofs.Cipher.Aes
import RequestAuth.Proofs.Encoding.Der

/-!
# Encrypted documents for all byte strings

An encrypted document whose key is derived by repeated hashing is read as the scheme it was written
for (`Password.takeScheme?_write`). So each byte string has, under every password and by each such
scheme, a document that decrypts to it (`Password.exists_document`).
-/

namespace RequestAuth

/-! ## The length of a derived key -/

namespace Pbkdf2

variable {variant : Sha2} {last total : Bytes}

theorem length_chain (password : Bytes) (more : Nat) (h : total.length = variant.size) :
    (chain (.ofKey variant password) more last total).length = variant.size := by
  induction more generalizing last total with
  | zero => exact h
  | succ more ih =>
    apply ih
    rw [Bytes.length_xor, h, Hmac.length_code, Nat.min_self]

theorem length_block (password salt : Bytes) (iterations number : Nat) :
    (block (.ofKey variant password) salt iterations number).length = variant.size :=
  length_chain password _ (Hmac.length_code _ _ _)

theorem length_key (variant : Sha2) (password salt : Bytes) (iterations length : Nat) :
    (key variant password salt iterations length).length = length := by
  have enough : length ≤ (length + variant.size - 1) / variant.size * variant.size := by
    cases variant <;> simp only [Sha2.size] <;> omega
  simpa [key, length_block] using enough

end Pbkdf2

namespace Password

open Der

variable {hash : Bytes × Sha2} {cipher : Bytes × Nat} {name parameters salt iv plain : Bytes}
  {iterations : Nat}

/-! ## Writing a scheme -/

/-- The encoding of a named algorithm. -/
def writeNamed (name parameters : Bytes) : Bytes :=
  writeSequence (Element.write ⟨identifierTag, name⟩ ++ parameters)

/-- The encoding of the parameters of derivation by repeated hashing. -/
def writeHashing (hash : Bytes × Sha2) (salt : Bytes) (iterations : Nat) : Bytes :=
  writeSequence (Element.write ⟨octetStringTag, salt⟩ ++ (writeNat iterations ++
    writeNamed hash.1 (Element.write ⟨nullTag, []⟩)))

/-- The encoding of a scheme that derives the key by repeated hashing. -/
def writeScheme (hash : Bytes × Sha2) (cipher : Bytes × Nat) (salt : Bytes) (iterations : Nat)
    (iv : Bytes) : Bytes :=
  writeNamed schemeName (writeSequence (
    writeNamed hashingName (writeHashing hash salt iterations) ++
      writeNamed cipher.1 (Element.write ⟨octetStringTag, iv⟩)))

/-- The encoding of an encrypted document. -/
def writeDocument (scheme ciphertext : Bytes) : Bytes :=
  writeSequence (scheme ++ Element.write ⟨octetStringTag, ciphertext⟩)

/-! ## Reading it back -/

theorem length_parameters_le (name parameters : Bytes) :
    parameters.length ≤ (writeNamed name parameters).length := by
  have outer := Element.length_contents_le
    ⟨sequenceTag, Element.write ⟨identifierTag, name⟩ ++ parameters⟩
  rw [List.length_append] at outer
  exact (Nat.le_add_left _ _).trans outer

theorem takeNamed?_write (h : (writeNamed name parameters).length ≤ maxLength) (rest : Bytes) :
    takeNamed? (writeNamed name parameters ++ rest) = some (name, parameters, rest) := by
  have whole : (Element.write ⟨identifierTag, name⟩ ++ parameters).length ≤ maxLength :=
    (Element.length_contents_le ⟨sequenceTag, _⟩).trans h
  have outer : take? sequenceTag (writeNamed name parameters ++ rest) =
      some (Element.write ⟨identifierTag, name⟩ ++ parameters, rest) := take?_write rfl whole rest
  have short : name.length ≤ maxLength := by
    have : name.length ≤ _ := Element.length_contents_le ⟨identifierTag, name⟩
    rw [List.length_append] at whole
    omega
  have inner : take? identifierTag (Element.write ⟨identifierTag, name⟩ ++ parameters) =
      some (name, parameters) := take?_write rfl short parameters
  simp only [takeNamed?, outer, inner, Option.bind_eq_bind, Option.bind_some]
  rfl

theorem takeNamed?_write_nil (h : (writeNamed name parameters).length ≤ maxLength) :
    takeNamed? (writeNamed name parameters) = some (name, parameters, []) := by
  simpa using takeNamed?_write h []

theorem hashing?_write (hh : hash ∈ hashNames) (few : iterations ≤ iterationLimit)
    (h : (writeHashing hash salt iterations).length ≤ maxLength) :
    hashing? (writeHashing hash salt iterations) =
      some (.hashing hash.2 salt iterations, none) := by
  let function := writeNamed hash.1 (Element.write ⟨nullTag, []⟩)
  have fits : (Element.write ⟨octetStringTag, salt⟩ ++ (writeNat iterations ++ function)).length ≤
      maxLength := (Element.length_contents_le ⟨sequenceTag, _⟩).trans h
  have whole : whole? sequenceTag (writeHashing hash salt iterations) =
      some (Element.write ⟨octetStringTag, salt⟩ ++ (writeNat iterations ++ function)) :=
    whole?_write rfl fits
  rw [List.length_append, List.length_append] at fits
  have salted (rest : Bytes) : take? octetStringTag (Element.write ⟨octetStringTag, salt⟩ ++ rest) =
      some (salt, rest) := by
    have : salt.length ≤ _ := Element.length_contents_le ⟨octetStringTag, salt⟩
    exact take?_write rfl (by omega) rest
  have below : iterations < 4294967296 := few.trans_lt (by decide)
  have counted (rest : Bytes) : takeNatBelow? (Nat.pow 2 32) (writeNat iterations ++ rest) =
      some (iterations, rest) := by
    simp [takeNatBelow?, takeNat?_writeNat (show (writeNat iterations).length ≤ _ by omega), guard,
      below]
  have unlimited : takeOptionalNatBelow? (Nat.pow 2 16) function = some (none, function) :=
    if_neg (by decide : some sequenceTag ≠ some integerTag)
  have named : takeNamed? function = some (hash.1, Element.write ⟨nullTag, []⟩, []) :=
    takeNamed?_write_nil (show function.length ≤ _ by omega)
  have nothing : whole? nullTag (Element.write ⟨nullTag, []⟩) = some [] := by decide
  have found : hashNames.lookup hash.1 = some hash.2 :=
    (by decide : ∀ hash ∈ hashNames, hashNames.lookup hash.1 = some hash.2) hash hh
  simp [hashing?, whole, salted, counted, unlimited, named, nothing, found, few, guard]

theorem takeScheme?_write (hh : hash ∈ hashNames) (hc : cipher ∈ cipherNames)
    (few : iterations ≤ iterationLimit) (block : iv.length = 16)
    (h : (writeScheme hash cipher salt iterations iv).length ≤ maxLength) (rest : Bytes) :
    takeScheme? (writeScheme hash cipher salt iterations iv ++ rest) =
      some (⟨.hashing hash.2 salt iterations, cipher.2, iv⟩, rest) := by
  let derivation := writeNamed hashingName (writeHashing hash salt iterations)
  let encryption := writeNamed cipher.1 (Element.write ⟨octetStringTag, iv⟩)
  have named : takeNamed? (writeScheme hash cipher salt iterations iv ++ rest) =
      some (schemeName, writeSequence (derivation ++ encryption), rest) := takeNamed?_write h rest
  have fits : (derivation ++ encryption).length ≤ maxLength :=
    (Element.length_contents_le ⟨sequenceTag, _⟩).trans ((length_parameters_le _ _).trans h)
  have whole : whole? sequenceTag (writeSequence (derivation ++ encryption)) =
      some (derivation ++ encryption) := whole?_write rfl fits
  rw [List.length_append] at fits
  have derived : takeNamed? (derivation ++ encryption) =
      some (hashingName, writeHashing hash salt iterations, encryption) :=
    takeNamed?_write (show derivation.length ≤ _ by omega) encryption
  have encrypted : takeNamed? encryption =
      some (cipher.1, Element.write ⟨octetStringTag, iv⟩, []) :=
    takeNamed?_write_nil (show encryption.length ≤ _ by omega)
  have chained : whole? octetStringTag (Element.write ⟨octetStringTag, iv⟩) = some iv :=
    whole?_write rfl (by rw [block]; decide)
  have parameters : hashing? (writeHashing hash salt iterations) =
      some (.hashing hash.2 salt iterations, none) :=
    hashing?_write hh few ((length_parameters_le hashingName _).trans
      (show derivation.length ≤ _ by omega))
  have found : cipherNames.lookup cipher.1 = some cipher.2 :=
    (by decide : ∀ cipher ∈ cipherNames, cipherNames.lookup cipher.1 = some cipher.2) cipher hc
  simp [takeScheme?, named, whole, derived, encrypted, chained, parameters, found, block, guard]

/-! ## Documents for all byte strings -/

theorem decrypt?_write {scheme : Bytes} {read : Scheme} {ciphertext : Bytes}
    (h : (writeDocument scheme ciphertext).length ≤ maxLength)
    (taken : ∀ rest, takeScheme? (scheme ++ rest) = some (read, rest)) (password : Bytes) :
    decrypt? password (writeDocument scheme ciphertext) = read.decrypt? password ciphertext := by
  have fits : (scheme ++ Element.write ⟨octetStringTag, ciphertext⟩).length ≤ maxLength :=
    (Element.length_contents_le ⟨sequenceTag, _⟩).trans h
  have whole : whole? sequenceTag (writeDocument scheme ciphertext) =
      some (scheme ++ Element.write ⟨octetStringTag, ciphertext⟩) := whole?_write rfl fits
  have last : whole? octetStringTag (Element.write ⟨octetStringTag, ciphertext⟩) =
      some ciphertext := by
    have : ciphertext.length ≤ _ := Element.length_contents_le ⟨octetStringTag, ciphertext⟩
    rw [List.length_append] at fits
    exact whole?_write rfl (by omega)
  simp [decrypt?, whole, taken, last]

theorem length_writeNamed_le {k : Nat} (hn : name.length ≤ 9) (hp : parameters.length ≤ k)
    (hk : k + 15 ≤ maxLength) : (writeNamed name parameters).length ≤ k + 21 := by
  have named : (Element.write ⟨identifierTag, name⟩).length ≤ 9 + 6 :=
    Element.length_write_le hn (by decide)
  refine Element.length_write_le (k := k + 15) ?_ hk
  rw [List.length_append]
  omega

theorem length_writeHashing_le (hh : hash ∈ hashNames) (few : iterations ≤ iterationLimit)
    (room : salt.length + 40 ≤ maxLength) :
    (writeHashing hash salt iterations).length ≤ salt.length + 46 := by
  have name : hash.1.length ≤ 9 :=
    (by decide : ∀ hash ∈ hashNames, hash.1.length ≤ 9) hash hh
  have function : (writeNamed hash.1 (Element.write ⟨nullTag, []⟩)).length ≤ 2 + 21 :=
    length_writeNamed_le name (by decide) (by decide)
  have salted : (Element.write ⟨octetStringTag, salt⟩).length ≤ salt.length + 6 :=
    Element.length_write_le le_rfl (by omega)
  have counted : (writeNat iterations).length ≤ 4 + 7 :=
    length_writeNat_le (few.trans_lt (by decide)) (by decide)
  refine Element.length_write_le (k := salt.length + 40) ?_ room
  rw [List.length_append, List.length_append]
  omega

theorem length_writeScheme_le (hh : hash ∈ hashNames) (hc : cipher ∈ cipherNames)
    (few : iterations ≤ iterationLimit) (block : iv.length = 16)
    (room : salt.length + 131 ≤ maxLength) :
    (writeScheme hash cipher salt iterations iv).length ≤ salt.length + 137 := by
  have name : cipher.1.length ≤ 9 :=
    (by decide : ∀ cipher ∈ cipherNames, cipher.1.length ≤ 9) cipher hc
  have hashing : (writeHashing hash salt iterations).length ≤ salt.length + 46 :=
    length_writeHashing_le hh few (by omega)
  have derivation : (writeNamed hashingName (writeHashing hash salt iterations)).length ≤
      salt.length + 67 := length_writeNamed_le (by decide) hashing (by omega)
  have chained : (Element.write ⟨octetStringTag, iv⟩).length ≤ 16 + 6 :=
    Element.length_write_le block.le (by decide)
  have encryption := length_writeNamed_le name chained (by decide)
  refine length_writeNamed_le (by decide) (k := salt.length + 116) ?_ (by omega)
  refine Element.length_write_le (k := salt.length + 110) ?_ (by omega)
  rw [List.length_append]
  omega

/-- By every scheme that derives the key by repeated hashing, and under every password, there is a
document that decrypts to a given byte string. -/
theorem exists_document (hh : hash ∈ hashNames) (hc : cipher ∈ cipherNames)
    (few : iterations ≤ iterationLimit) (room : salt.length + plain.length + 165 ≤ maxLength)
    (password : Bytes) :
    ∃ iv ciphertext, decrypt? password
      (writeDocument (writeScheme hash cipher salt iterations iv) ciphertext) = some plain := by
  let key := Pbkdf2.key hash.2 password salt iterations cipher.2
  have size : key.length = cipher.2 := Pbkdf2.length_key _ _ _ _ _
  have words : cipher.2 ≠ 0 ∧ 4 ∣ cipher.2 :=
    (by decide : ∀ cipher ∈ cipherNames, cipher.2 ≠ 0 ∧ 4 ∣ cipher.2) cipher hc
  have full : key ≠ [] := by
    rw [← List.length_pos_iff, size]
    exact Nat.pos_of_ne_zero words.1
  obtain ⟨iv, ciphertext, block, long, filled⟩ :=
    Aes.unpad?_decryptChain full (size.symm ▸ words.2) plain
  have scheme : (writeScheme hash cipher salt iterations iv).length ≤ salt.length + 137 :=
    length_writeScheme_le hh hc few block (by omega)
  have blocks : 16 ∣ ciphertext.length := long ▸ Aes.dvd_length_pad plain
  have short : ciphertext.length ≤ plain.length + 16 := by
    rw [long, Aes.pad, List.length_append, List.length_replicate]
    omega
  have last : (Element.write ⟨octetStringTag, ciphertext⟩).length ≤ plain.length + 16 + 6 :=
    Element.length_write_le short (by omega)
  have contents : (writeScheme hash cipher salt iterations iv ++
      Element.write ⟨octetStringTag, ciphertext⟩).length ≤ salt.length + plain.length + 159 := by
    rw [List.length_append]
    omega
  have fits : (writeDocument (writeScheme hash cipher salt iterations iv) ciphertext).length ≤
      maxLength := (Element.length_write_le contents (by omega)).trans room
  refine ⟨iv, ciphertext, ?_⟩
  rw [decrypt?_write fits (takeScheme?_write hh hc few block (by omega)), Scheme.decrypt?]
  simpa [Derivation.key, Nat.mod_eq_zero_of_dvd blocks, guard] using filled

end Password

end RequestAuth
