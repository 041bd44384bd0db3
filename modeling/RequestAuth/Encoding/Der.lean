import RequestAuth.Bytes

/-!
# Distinguished encoding

An element is a tag, the length of its contents, and the contents. Each element has only one
encoding: `Der.write` writes it, and `Der.read?` takes it off the start of a byte string and refuses
any other. Numbers are written in as few bytes as possible, the first of which is below 128.
-/

namespace RequestAuth.Der

/-! ## Tags -/

/-- The tag of a whole number. -/
def integerTag : UInt8 := 0x02

/-- The tag of a string of bytes. -/
def octetStringTag : UInt8 := 0x04

/-- The tag of the absence of a value. -/
def nullTag : UInt8 := 0x05

/-- The tag of a registered name. -/
def identifierTag : UInt8 := 0x06

/-- The tag of a sequence of elements. -/
def sequenceTag : UInt8 := 0x30

/-- The tags of the universal types. -/
def universalTags : List UInt8 := [
  0x01, 0x02, 0x03, 0x04, 0x05, 0x06, 0x09, 0x0A, 0x0C, 0x12, 0x13, 0x14, 0x15, 0x16, 0x17, 0x18,
  0x1A, 0x1E, 0x30, 0x31]

/-- Whether a byte is a tag. One with a number above 30, which needs more bytes, is none. -/
def isTag (b : UInt8) : Bool :=
  b ∈ universalTags ∨ (0x40 ≤ b ∧ b % 0x20 ≠ 0x1F)

/-- Whether a tag has its meaning from the sequence that it stands in. -/
def isContextTag (b : UInt8) : Bool :=
  b / 0x40 = 2

/-- Whether the contents of an element with this tag are elements. -/
def isConstructedTag (b : UInt8) : Bool :=
  b / 0x20 % 2 = 1

/-! ## Elements -/

/-- An element: its tag and its contents. -/
structure Element where
  /-- The tag. -/
  tag : UInt8
  /-- The contents. -/
  contents : Bytes
  deriving DecidableEq, Repr

/-- The greatest length of contents. -/
def maxLength : Nat := 0xFFFFFFF

/-- The encoding of a length: the length itself below 128, else the number of its bytes and the
bytes. -/
def writeLength (n : Nat) : Bytes :=
  if n < 0x80 then [UInt8.ofNat n]
  else UInt8.ofNat (0x80 + (Bytes.ofNat n).length) :: Bytes.ofNat n

/-- Takes a length off the start of a byte string. -/
def readLength? : Bytes → Option (Nat × Bytes)
  | [] => none
  | first :: rest =>
    if first < 0x80 then some (first.toNat, rest)
    else
      let count := first.toNat - 0x80
      let n := Bytes.toNat (rest.take count)
      if writeLength n = first :: rest.take count ∧ n ≤ maxLength then some (n, rest.drop count)
      else none

/-- The encoding of an element. -/
def Element.write (element : Element) : Bytes :=
  element.tag :: (writeLength element.contents.length ++ element.contents)

/-- Takes an element off the start of a byte string. -/
def read? : Bytes → Option (Element × Bytes)
  | [] => none
  | tag :: rest => do
    guard (isTag tag)
    let (length, rest) ← readLength? rest
    guard (length ≤ rest.length)
    return (⟨tag, rest.take length⟩, rest.drop length)

/-- Takes an element with the given tag off the start of a byte string, and gives its contents. -/
def take? (tag : UInt8) (bytes : Bytes) : Option (Bytes × Bytes) := do
  let (element, rest) ← read? bytes
  guard (element.tag = tag)
  return (element.contents, rest)

/-- The contents of an element with the given tag that is the whole of a byte string. -/
def whole? (tag : UInt8) (bytes : Bytes) : Option Bytes := do
  let (contents, rest) ← take? tag bytes
  guard rest.isEmpty
  return contents

/-- The encoding of a sequence of elements that are encoded already. -/
def writeSequence (contents : Bytes) : Bytes :=
  Element.write ⟨sequenceTag, contents⟩

/-! ## Numbers -/

/-- The contents of a natural number: its bytes, after a zero byte where the first is not below
128, or where there is none. -/
def natContents (n : Nat) : Bytes :=
  match Bytes.ofNat n with
  | [] => [0]
  | first :: rest => if first < 0x80 then first :: rest else 0 :: first :: rest

/-- The encoding of a natural number. -/
def writeNat (n : Nat) : Bytes :=
  Element.write ⟨integerTag, natContents n⟩

/-- Takes a natural number off the start of a byte string. -/
def takeNat? (bytes : Bytes) : Option (Nat × Bytes) := do
  let (contents, rest) ← take? integerTag bytes
  let n := Bytes.toNat contents
  guard (contents = natContents n)
  return (n, rest)

/-- Takes a natural number below the given one off the start of a byte string. -/
def takeNatBelow? (bound : Nat) (bytes : Bytes) : Option (Nat × Bytes) := do
  let (n, rest) ← takeNat? bytes
  guard (n < bound)
  return (n, rest)

/-- Takes a natural number below the given one off the start of a byte string that begins with a
number, and nothing off any other. -/
def takeOptionalNatBelow? (bound : Nat) (bytes : Bytes) : Option (Option Nat × Bytes) :=
  if bytes.head? = some integerTag then
    (takeNatBelow? bound bytes).map fun (n, rest) => (some n, rest)
  else some (none, bytes)

end RequestAuth.Der
