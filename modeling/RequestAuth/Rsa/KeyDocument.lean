import RequestAuth.Encoding.Der
import RequestAuth.Rsa.Key

/-!
# Private keys as byte strings

The numbers of a key are written as a sequence, which also holds what can be computed from them.
Such a sequence may stand inside another that names the kind of the key. `KeyNumbers.write` and
`KeyNumbers.writeWrapped` write the two forms, and `PrivateKey.ofSequence?` and
`PrivateKey.ofWrapped?` read them.
-/

namespace RequestAuth.Rsa

open Der

/-! ## The sequence of numbers -/

/-- The encoding of the numbers of a key and of three more, which are not used. -/
def KeyNumbers.write (k : KeyNumbers) (exponent₁ exponent₂ coefficient : Nat) : Bytes :=
  writeSequence <| [0, k.modulus, k.publicExponent, k.privateExponent, k.factor₁, k.factor₂,
    exponent₁, exponent₂, coefficient].flatMap writeNat

/-- Takes the given number of natural numbers off a byte string. -/
def takeNats? : Nat → Bytes → Option (List Nat × Bytes)
  | 0, bytes => some ([], bytes)
  | count + 1, bytes => do
    let (n, rest) ← takeNat? bytes
    let (ns, rest) ← takeNats? count rest
    return (n :: ns, rest)

/-- The numbers of a key from their encoding. -/
def KeyNumbers.ofSequence? (bytes : Bytes) : Option KeyNumbers := do
  let (numbers, rest) ← takeNats? 9 (← whole? sequenceTag bytes)
  guard rest.isEmpty
  match numbers with
  | [0, modulus, publicExponent, privateExponent, factor₁, factor₂, _, _, _] =>
    some { modulus, publicExponent, privateExponent, factor₁, factor₂ }
  | _ => none

/-- The private key whose numbers have the given encoding. -/
def PrivateKey.ofSequence? (bytes : Bytes) : Option PrivateKey :=
  KeyNumbers.ofSequence? bytes >>= PrivateKey.ofNumbers?

/-! ## The wrapped sequence -/

/-- The encoding of the absence of a value. -/
def nothing : Bytes := Element.write ⟨nullTag, []⟩

/-- The contents of the element that names this kind of key. -/
def algorithm : Bytes :=
  Element.write ⟨identifierTag, [0x2A, 0x86, 0x48, 0x86, 0xF7, 0x0D, 0x01, 0x01, 0x01]⟩ ++ nothing

/-- The wrapping of the sequence of numbers of a key. -/
def writeWrapped (sequence : Bytes) : Bytes :=
  writeSequence
    (writeNat 0 ++ writeSequence algorithm ++ Element.write ⟨octetStringTag, sequence⟩)

/-- The tag of a public key that follows a private key. -/
def publicKeyTag : UInt8 := 0x81

/-- Skips what may precede a public key, which is any element that has a number below its own. -/
def skipFirst? : Nat → Bytes → Option Bytes
  | 0, bytes => some bytes
  | most + 1, bytes =>
    match bytes.head? with
    | some 0x80 | some 0xA0 => do
      let (_, rest) ← read? bytes
      skipFirst? most rest
    | _ => some bytes

/-- Takes a public key off the start of a byte string that begins with one: whether there was one,
and the rest. -/
def takePublicKey? (bytes : Bytes) : Option (Bool × Bytes) :=
  match bytes.head? with
  | some 0xA1 => none
  | some 0x81 => do
    let (contents, rest) ← take? publicKeyTag bytes
    guard (contents.head? = some 0)
    return (true, rest)
  | _ => some (false, bytes)

/-- Whether a byte string is made of elements that each have a number of their own and hold one
element. -/
def isExtensions : Nat → Bytes → Bool
  | _, [] => true
  | 0, _ => false
  | most + 1, bytes =>
    match read? bytes with
    | none => false
    | some (element, rest) =>
      isContextTag element.tag && isConstructedTag element.tag &&
        (match read? element.contents with
          | some (_, []) => true
          | _ => false) &&
        isExtensions most rest

/-- The wrapped sequence of the numbers of a key. There may be a public key after it, as the version
says, and extensions, which are not used. -/
def unwrap? (bytes : Bytes) : Option Bytes := do
  let (version, rest) ← takeNatBelow? 2 (← whole? sequenceTag bytes)
  let (named, rest) ← take? sequenceTag rest
  guard (named = algorithm)
  let (sequence, rest) ← take? octetStringTag rest
  let rest ← skipFirst? rest.length rest
  let (hasPublicKey, rest) ← takePublicKey? rest
  guard (hasPublicKey = (version = 1))
  guard (isExtensions rest.length rest)
  return sequence

/-- The private key whose wrapping has the given encoding. -/
def PrivateKey.ofWrapped? (bytes : Bytes) : Option PrivateKey :=
  unwrap? bytes >>= PrivateKey.ofSequence?

end RequestAuth.Rsa
