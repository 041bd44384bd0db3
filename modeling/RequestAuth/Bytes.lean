/-!
# Byte strings

A byte string is a list of bytes, the most significant one first where it stands for a number.
`Bytes.ofNat` and `Bytes.toNat` pass between byte strings and natural numbers, `Bytes.xor` adds two
byte strings bit by bit, and `Bytes.hex` writes one with two lower-case digits for each byte.
-/

namespace RequestAuth

/-- A finite sequence of bytes. -/
abbrev Bytes := List UInt8

namespace Bytes

/-! ## Numbers -/

/-- The number written by the bytes in base 256, most significant byte first. -/
def toNat (bytes : Bytes) : Nat :=
  bytes.foldl (fun n b => n * 256 + b.toNat) 0

/-- The bytes of `n` in base 256, put before `rest`. -/
def ofNatOnto (n : Nat) (rest : Bytes) : Bytes :=
  if n = 0 then rest else ofNatOnto (n / 256) (UInt8.ofNat (n % 256) :: rest)

/-- The shortest byte string that writes `n`; zero is the empty one. -/
def ofNat (n : Nat) : Bytes :=
  ofNatOnto n []

/-- The byte string of exactly `width` bytes that writes `n` modulo `256 ^ width`. -/
def ofNatWidth : Nat → Nat → Bytes
  | 0, _ => []
  | width + 1, n => UInt8.ofNat (n >>> (8 * width)) :: ofNatWidth width n

theorem byte_eq {n : Nat} {b : UInt8} (h : n = b.toNat) : UInt8.ofNat n = b := by
  rw [h, UInt8.ofNat_toNat]

/-! ## Sums -/

/-- The bitwise sum of two byte strings, as long as the shorter one. -/
def xor (a b : Bytes) : Bytes := List.zipWith (· ^^^ ·) a b

/-! ## Hexadecimal text -/

/-- The lower-case hexadecimal digit of a number below 16. -/
def hexDigit (n : Nat) : Char :=
  if n < 10 then Char.ofNat (0x30 + n) else Char.ofNat (0x57 + n)

/-- The value of a hexadecimal digit of either case. -/
def hexValue? (c : Char) : Option Nat :=
  if '0' ≤ c ∧ c ≤ '9' then some (c.toNat - 0x30)
  else if 'a' ≤ c ∧ c ≤ 'f' then some (c.toNat - 0x57)
  else if 'A' ≤ c ∧ c ≤ 'F' then some (c.toNat - 0x37)
  else none

/-- Two lower-case hexadecimal digits for each byte. -/
def hex (bytes : Bytes) : String :=
  String.ofList (bytes.flatMap fun b => [hexDigit (b.toNat / 16), hexDigit (b.toNat % 16)])

/-- Reads two hexadecimal digits for each byte. -/
def ofHexDigits? : List Char → Option Bytes
  | [] => some []
  | [_] => none
  | c :: d :: rest => do
    let high ← hexValue? c
    let low ← hexValue? d
    return UInt8.ofNat (16 * high + low) :: (← ofHexDigits? rest)

/-- The byte string that a hexadecimal text stands for. -/
def ofHex? (text : String) : Option Bytes :=
  ofHexDigits? text.toList

/-- The hexadecimal text of a number without leading zeros; zero is `0`. -/
def hexOfNat (n : Nat) : String :=
  String.ofList (Nat.toDigits 16 n)

/-- The number that hexadecimal digits stand for. -/
def natOfHex? (text : String) : Option Nat :=
  text.toList.foldlM (fun n c => return 16 * n + (← hexValue? c)) 0

end Bytes

end RequestAuth
