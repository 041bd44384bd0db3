import RequestAuth.Decimal.Shortest
import RequestAuth.Json.Value

/-!
# Writing JSON

`JsonValue.compact` writes a value without blanks. A number of double precision is written as the
shortest decimal that rounds to it: with a point where that takes no more than five zeros before
the digits or sixteen places before the point, else with an exponent.
-/

namespace RequestAuth.JsonValue

/-! ## Numbers -/

/-- The places before the point up to which a number is written without exponent. -/
def mostPlaces : Int := 16

/-- The power of ten of the first digit, less one, down to which a number is written without
exponent. -/
def leastPlace : Int := -4

/-- The characters of a shortest decimal. -/
def decimalChars (x : Shortest.Decimal) : List Char :=
  let digits := Nat.toDigits 10 x.digits
  let point := x.exponent + digits.length
  if 0 ≤ x.exponent ∧ point ≤ mostPlaces then
    digits ++ List.replicate x.exponent.toNat '0' ++ ['.', '0']
  else if 0 < point ∧ point ≤ mostPlaces then
    digits.take point.toNat ++ '.' :: digits.drop point.toNat
  else if leastPlace ≤ point ∧ point ≤ 0 then
    ['0', '.'] ++ List.replicate point.natAbs '0' ++ digits
  else
    let power := point - 1
    let fraction := match digits.tail with
      | [] => []
      | tail => '.' :: tail
    digits.take 1 ++ fraction ++ 'e' :: (if power < 0 then '-' else '+') ::
      Nat.toDigits 10 power.natAbs

/-- The characters of a whole number. -/
def integerChars (n : Int) : List Char :=
  if n < 0 then '-' :: Nat.toDigits 10 n.natAbs else Nat.toDigits 10 n.toNat

/-! ## Strings -/

/-- How a character is written in a string. -/
def escapeChar (c : Char) : List Char :=
  match c with
  | '"' => ['\\', '"']
  | '\\' => ['\\', '\\']
  | '\x08' => ['\\', 'b']
  | '\x0c' => ['\\', 'f']
  | '\n' => ['\\', 'n']
  | '\r' => ['\\', 'r']
  | '\t' => ['\\', 't']
  | c =>
    if c < ' ' then
      ['\\', 'u', '0', '0', Nat.digitChar (c.toNat / 16), Nat.digitChar (c.toNat % 16)]
    else [c]

/-- The characters of a string within its quotes. -/
def stringChars (text : String) : List Char :=
  '"' :: text.toList.flatMap escapeChar ++ ['"']

/-! ## Values -/

mutual

/-- The characters of a value, without blanks. -/
def compactChars : JsonValue → List Char
  | .null => "null".toList
  | .bool true => "true".toList
  | .bool false => "false".toList
  | .integer n => integerChars n
  | .decimal negative size =>
    let chars := decimalChars (Shortest.ofBinary size)
    if negative then '-' :: chars else chars
  | .string text => stringChars text
  | .array items => '[' :: itemsChars items ++ [']']
  | .object members => '\x7b' :: membersChars members ++ ['\x7d']

/-- The characters of items with commas between them. -/
def itemsChars : List JsonValue → List Char
  | [] => []
  | [item] => compactChars item
  | item :: rest => compactChars item ++ ',' :: itemsChars rest

/-- The characters of members with commas between them. -/
def membersChars : List (String × JsonValue) → List Char
  | [] => []
  | [(name, value)] => stringChars name ++ ':' :: compactChars value
  | (name, value) :: rest =>
    stringChars name ++ ':' :: compactChars value ++ ',' :: membersChars rest

end

/-- A value without blanks. -/
def compact (value : JsonValue) : String :=
  String.ofList (compactChars value)

end RequestAuth.JsonValue
