import RequestAuth.Bytes
import RequestAuth.Json.Number
import RequestAuth.Text.Part

/-!
# Reading JSON

`JsonValue.read?` reads a whole text as one value. Of the members of an object with the same name
the last one counts. Arrays and objects may be nested up to a given depth.
-/

namespace RequestAuth.JsonValue

/-- A text without the blanks at its start. -/
def skipBlanks (text : List Char) : List Char :=
  text.dropWhile fun c => c = ' ' ∨ c = '\t' ∨ c = '\n' ∨ c = '\r'

/-! ## Strings -/

/-- The value of four hexadecimal digits at the start of a text, and what follows them. -/
def readUnit? : List Char → Option (Nat × List Char)
  | a :: b :: c :: d :: rest => do
    let a ← Bytes.hexValue? a
    let b ← Bytes.hexValue? b
    let c ← Bytes.hexValue? c
    let d ← Bytes.hexValue? d
    return (((a * 16 + b) * 16 + c) * 16 + d, rest)
  | _ => none

/-- The character that the unit after `\u` begins, and what follows it. A character past the first
plane takes a second unit. -/
def readEscapedUnit? (text : List Char) : Option (Char × List Char) := do
  let (n, rest) ← readUnit? text
  if n < 0xD800 ∨ 0xE000 ≤ n then return (Char.ofNat n, rest)
  if 0xDC00 ≤ n then failure
  match rest with
  | '\\' :: 'u' :: rest =>
    let (m, rest) ← readUnit? rest
    if m < 0xDC00 ∨ 0xE000 ≤ m then failure
    return (Char.ofNat (0x10000 + (n - 0xD800) * 0x400 + (m - 0xDC00)), rest)
  | _ => failure

/-- The character that a string shows at the start of the text, and what follows it. -/
def readChar? : List Char → Option (Char × List Char)
  | '\\' :: 'u' :: rest => readEscapedUnit? rest
  | '\\' :: '"' :: rest => some ('"', rest)
  | '\\' :: '\\' :: rest => some ('\\', rest)
  | '\\' :: '/' :: rest => some ('/', rest)
  | '\\' :: 'b' :: rest => some ('\x08', rest)
  | '\\' :: 'f' :: rest => some ('\x0c', rest)
  | '\\' :: 'n' :: rest => some ('\n', rest)
  | '\\' :: 'r' :: rest => some ('\r', rest)
  | '\\' :: 't' :: rest => some ('\t', rest)
  | '\\' :: _ => none
  | c :: rest => if c < ' ' then none else some (c, rest)
  | [] => none

/-- The characters up to the closing quote of a string, and what follows it. The fuel bounds the
number of characters. -/
def readString? : Nat → List Char → Option (List Char × List Char)
  | 0, _ => none
  | _ + 1, '"' :: rest => some ([], rest)
  | fuel + 1, text => do
    let (c, rest) ← readChar? text
    let (cs, rest) ← readString? fuel rest
    return (c :: cs, rest)

/-! ## Values -/

mutual

/-- The value at the start of a text, and what follows it. The fuel bounds the number of steps, and
`depth` the arrays and objects within one another. -/
def readValue? : Nat → Nat → List Char → Option (JsonValue × List Char)
  | 0, _, _ => none
  | fuel + 1, depth, text =>
    match skipBlanks text with
    | 'n' :: rest => (Text.after? "ull".toList rest).map (.null, ·)
    | 't' :: rest => (Text.after? "rue".toList rest).map (.bool true, ·)
    | 'f' :: rest => (Text.after? "alse".toList rest).map (.bool false, ·)
    | '"' :: rest =>
      (readString? fuel rest).map fun (cs, rest) => (.string (String.ofList cs), rest)
    | '[' :: rest =>
      match depth with
      | 0 => none
      | depth + 1 => match skipBlanks rest with
        | ']' :: rest => some (.array [], rest)
        | _ => (readItems? fuel depth rest).map fun (items, rest) => (.array items, rest)
    | '\x7b' :: rest =>
      match depth with
      | 0 => none
      | depth + 1 => match skipBlanks rest with
        | '\x7d' :: rest => some (.object [], rest)
        | _ => (readMembers? fuel depth rest).map fun (members, rest) =>
          (.object (sortMembers members), rest)
    | rest => readNumber? rest

/-- The items of an array up to its closing bracket, and what follows it. -/
def readItems? : Nat → Nat → List Char → Option (List JsonValue × List Char)
  | 0, _, _ => none
  | fuel + 1, depth, text => do
    let (item, rest) ← readValue? fuel depth text
    match skipBlanks rest with
    | ',' :: rest =>
      let (items, rest) ← readItems? fuel depth rest
      return (item :: items, rest)
    | ']' :: rest => return ([item], rest)
    | _ => failure

/-- The members of an object up to its closing brace, and what follows it. -/
def readMembers? : Nat → Nat → List Char → Option (List (String × JsonValue) × List Char)
  | 0, _, _ => none
  | fuel + 1, depth, text => do
    let '"' :: rest := skipBlanks text | failure
    let (name, rest) ← readString? fuel rest
    let ':' :: rest := skipBlanks rest | failure
    let (value, rest) ← readValue? fuel depth rest
    match skipBlanks rest with
    | ',' :: rest =>
      let (members, rest) ← readMembers? fuel depth rest
      return ((String.ofList name, value) :: members, rest)
    | '\x7d' :: rest => return ([(String.ofList name, value)], rest)
    | _ => failure

end

/-- The value that a whole text is, with arrays and objects nested at most `depth` deep. -/
def read? (depth : Nat) (text : List Char) : Option JsonValue := do
  let (value, rest) ← readValue? (text.length + 1) depth text
  guard (skipBlanks rest = [])
  return value

end RequestAuth.JsonValue
