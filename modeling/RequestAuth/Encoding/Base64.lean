import RequestAuth.Bytes

/-!
# Base64

Three bytes are written as four digits of six bits. `Base64.encode` is the standard form, padded
to whole groups of four, and `Base64.encodeUrl` the form for URLs, without padding. Decoding is
strict: it accepts exactly what encoding produces, so a digit's unused bits are zero, the padding is
complete, and nothing else stands between the digits. `Base64.decodeUrl?` also drops any number
of padding characters from the end of its text.
-/

namespace RequestAuth.Base64

/-! ## Groups of six bits -/

/-- The bits of the bytes in groups of six; the last group is filled up with zero bits. -/
def sextets : Bytes → List Nat
  | [] => []
  | [a] => [a.toNat / 4, a.toNat % 4 * 16]
  | [a, b] => [a.toNat / 4, a.toNat % 4 * 16 + b.toNat / 16, b.toNat % 16 * 4]
  | a :: b :: c :: rest =>
    a.toNat / 4 :: (a.toNat % 4 * 16 + b.toNat / 16) :: (b.toNat % 16 * 4 + c.toNat / 64) ::
      c.toNat % 64 :: sextets rest

/-- The bytes whose bits are the given groups; nothing if a byte is incomplete or a filling bit is
set. -/
def ofSextets? : List Nat → Option Bytes
  | [] => some []
  | [_] => none
  | [p, q] => if q % 16 = 0 then some [UInt8.ofNat (p * 4 + q / 16)] else none
  | [p, q, r] =>
    if r % 4 = 0 then
      some [UInt8.ofNat (p * 4 + q / 16), UInt8.ofNat (q % 16 * 16 + r / 4)]
    else none
  | p :: q :: r :: s :: rest =>
    (ofSextets? rest).map fun bytes =>
      UInt8.ofNat (p * 4 + q / 16) :: UInt8.ofNat (q % 16 * 16 + r / 4) ::
        UInt8.ofNat (r % 4 * 64 + s) :: bytes

/-! ## Alphabets -/

/-- The digits are the upper-case letters, the lower-case letters, the decimal digits and two
characters in which alphabets differ. -/
structure Alphabet where
  /-- The digit of value 62. -/
  last₂ : Char
  /-- The digit of value 63. -/
  last₁ : Char
  deriving DecidableEq, Repr

/-- The alphabet of the standard form. -/
def standard : Alphabet := ⟨'+', '/'⟩

/-- The alphabet of the form for URLs. -/
def urlSafe : Alphabet := ⟨'-', '_'⟩

namespace Alphabet

/-- The digit of a value below 64. -/
def digit (alphabet : Alphabet) (n : Nat) : Char :=
  if n < 26 then Char.ofNat (0x41 + n)
  else if n < 52 then Char.ofNat (0x61 + (n - 26))
  else if n < 62 then Char.ofNat (0x30 + (n - 52))
  else if n = 62 then alphabet.last₂
  else alphabet.last₁

/-- The value of a digit. -/
def value? (alphabet : Alphabet) (c : Char) : Option Nat :=
  if 'A' ≤ c ∧ c ≤ 'Z' then some (c.toNat - 0x41)
  else if 'a' ≤ c ∧ c ≤ 'z' then some (c.toNat - 0x61 + 26)
  else if '0' ≤ c ∧ c ≤ '9' then some (c.toNat - 0x30 + 52)
  else if c = alphabet.last₂ then some 62
  else if c = alphabet.last₁ then some 63
  else none

/-- Writes bytes in digits, without padding. -/
def write (alphabet : Alphabet) (bytes : Bytes) : List Char :=
  (sextets bytes).map alphabet.digit

/-- Reads digits without padding. -/
def read? (alphabet : Alphabet) (digits : List Char) : Option Bytes :=
  digits.mapM alphabet.value? >>= ofSextets?

end Alphabet

/-! ## The two forms -/

/-- The padding that completes a group of four after `n` digits. -/
def padding (n : Nat) : List Char :=
  List.replicate ((4 - n % 4) % 4) '='

/-- The digits of the bytes in the standard alphabet with their padding. -/
def encodeChars (bytes : Bytes) : List Char :=
  let digits := standard.write bytes
  digits ++ padding digits.length

/-- Reads digits of the standard alphabet with their padding. -/
def decodeChars? (text : List Char) : Option Bytes :=
  let digits := text.takeWhile (· ≠ '=')
  if text.dropWhile (· ≠ '=') = padding digits.length then standard.read? digits else none

/-- The standard form of the bytes. -/
def encode (bytes : Bytes) : String :=
  String.ofList (encodeChars bytes)

/-- The bytes whose standard form is the given text. -/
def decode? (text : String) : Option Bytes :=
  decodeChars? text.toList

/-- The form of the bytes for URLs. -/
def encodeUrl (bytes : Bytes) : String :=
  String.ofList (urlSafe.write bytes)

/-- The text without the padding characters at its end. -/
def dropPadding (text : List Char) : List Char :=
  (text.reverse.dropWhile (· = '=')).reverse

/-- The bytes whose form for URLs is the given text, apart from padding at its end. -/
def decodeUrl? (text : String) : Option Bytes :=
  urlSafe.read? (dropPadding text.toList)

end RequestAuth.Base64
