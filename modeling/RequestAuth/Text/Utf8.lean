import RequestAuth.Bytes

/-!
# UTF-8

`Utf8.encode` writes characters as bytes. `Utf8.pieces` cuts any byte string into characters and
ill-formed stretches, each stretch being a longest start of a character that the next byte
breaks off. The strict reading `Utf8.decode?` refuses ill-formed stretches, and the lossy reading
`Utf8.lossy` puts a replacement character in the place of each.
-/

namespace RequestAuth.Utf8

/-- The bytes of the characters. -/
def encode (cs : List Char) : Bytes :=
  cs.flatMap String.utf8EncodeChar

/-- The bytes of a text. -/
def bytes (text : String) : Bytes :=
  encode text.toList

/-! ## Cutting a byte string into characters -/

/-- What a stretch of a byte string is. -/
inductive Piece where
  /-- A well-formed character. -/
  | scalar (c : Char)
  /-- The given number of bytes that start a character but cannot go on as it does. -/
  | broken (length : Nat)
  /-- The given number of bytes that start a character at the end of the byte string. -/
  | cut (length : Nat)
  deriving DecidableEq, Repr

/-- A character that is being read. -/
structure Pending where
  /-- How many bytes are still to come, less one. -/
  more : Nat
  /-- The least value of the next byte. -/
  low : UInt8
  /-- The greatest value of the next byte. -/
  high : UInt8
  /-- The value of the bits read. -/
  value : Nat
  /-- How many bytes have been read. -/
  taken : Nat
  deriving DecidableEq, Repr

/-- What the first byte of a character announces, if it is one of a longer character. The ranges of
the second byte leave out overlong forms, surrogates and values past the last character. -/
def Pending.ofLead? (b : UInt8) : Option Pending :=
  let n := b.toNat
  if 0xC2 ≤ n ∧ n ≤ 0xDF then some ⟨0, 0x80, 0xBF, n % 0x20, 1⟩
  else if n = 0xE0 then some ⟨1, 0xA0, 0xBF, 0, 1⟩
  else if n = 0xED then some ⟨1, 0x80, 0x9F, 0xD, 1⟩
  else if 0xE1 ≤ n ∧ n ≤ 0xEF then some ⟨1, 0x80, 0xBF, n % 0x10, 1⟩
  else if n = 0xF0 then some ⟨2, 0x90, 0xBF, 0, 1⟩
  else if 0xF1 ≤ n ∧ n ≤ 0xF3 then some ⟨2, 0x80, 0xBF, n % 8, 1⟩
  else if n = 0xF4 then some ⟨2, 0x80, 0x8F, 4, 1⟩
  else none

/-- Reads a byte between two characters. -/
def start (b : UInt8) : List Piece × Option Pending :=
  if b < 0x80 then ([.scalar (Char.ofNat b.toNat)], none)
  else match Pending.ofLead? b with
    | some p => ([], some p)
    | none => ([.broken 1], none)

/-- Reads a byte, within a character or between two. -/
def step : Option Pending → UInt8 → List Piece × Option Pending
  | none, b => start b
  | some p, b =>
    if p.low ≤ b ∧ b ≤ p.high then
      let value := p.value * 0x40 + b.toNat % 0x40
      match p.more with
      | 0 => ([.scalar (Char.ofNat value)], none)
      | more + 1 => ([], some ⟨more, 0x80, 0xBF, value, p.taken + 1⟩)
    else
      let (found, next) := start b
      (.broken p.taken :: found, next)

/-- The pieces of a byte string, given what is pending before it. -/
def piecesFrom : Option Pending → Bytes → List Piece
  | none, [] => []
  | some p, [] => [.cut p.taken]
  | p, b :: rest => (step p b).1 ++ piecesFrom (step p b).2 rest

/-- The characters and ill-formed stretches of a byte string, in order. -/
def pieces (bytes : Bytes) : List Piece :=
  piecesFrom none bytes

/-! ## Readings -/

/-- The character of a piece, if it is one. -/
def Piece.char? : Piece → Option Char
  | .scalar c => some c
  | _ => none

/-- How many bytes a piece takes. -/
def Piece.size : Piece → Nat
  | .scalar c => c.utf8Size
  | .broken n => n
  | .cut n => n

/-- The characters of a well-formed byte string. -/
def decode? (bytes : Bytes) : Option (List Char) :=
  (pieces bytes).mapM Piece.char?

/-- The characters of a byte string, with a replacement character for each ill-formed stretch. -/
def lossy (bytes : Bytes) : List Char :=
  (pieces bytes).map fun piece => piece.char?.getD '\uFFFD'

/-- The text of a byte string, with a replacement character for each ill-formed stretch. -/
def lossyText (bytes : Bytes) : String :=
  String.ofList (lossy bytes)

/-- Where a byte string stops being UTF-8. -/
structure Fault where
  /-- The bytes of whole characters before the fault. -/
  index : Nat
  /-- The length of the ill-formed stretch, or nothing if the byte string ends within a
  character. -/
  length : Option Nat
  deriving DecidableEq, Repr

/-- The first fault among the pieces, the first of which begins at `index`. -/
def faultFrom? (index : Nat) : List Piece → Option Fault
  | [] => none
  | .broken n :: _ => some ⟨index, some n⟩
  | .cut _ :: _ => some ⟨index, none⟩
  | piece :: rest => faultFrom? (index + piece.size) rest

/-- The first fault of a byte string; nothing if it is UTF-8. -/
def fault? (bytes : Bytes) : Option Fault :=
  faultFrom? 0 (pieces bytes)

end RequestAuth.Utf8
