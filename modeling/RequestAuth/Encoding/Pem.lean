import RequestAuth.Encoding.Base64
import RequestAuth.Text.Part

/-!
# Labelled text documents

A byte string is written in base64, on lines of 64 characters, between two lines that hold a label.
`Pem.write` writes such a document. `Pem.read?` reads one strictly: it takes text before the
document, any of the usual line ends, and an empty line before the last one, but no other line
lengths and nothing after the document.
-/

namespace RequestAuth.Pem

/-! ## Lines -/

/-- What follows the end of a line. -/
def afterLineEnd? : List Char → Option (List Char)
  | '\r' :: '\n' :: rest => some rest
  | '\r' :: rest => some rest
  | '\n' :: rest => some rest
  | _ => none

/-- What precedes the end of the last line. -/
def beforeLineEnd? (text : List Char) : Option (List Char) :=
  match text.reverse with
  | '\n' :: '\r' :: rest => some rest.reverse
  | '\r' :: rest => some rest.reverse
  | '\n' :: rest => some rest.reverse
  | _ => none

/-- The number of characters of a line. -/
def lineWidth : Nat := 64

/-- The characters of lines without the line ends, given how many more characters the line that the
text begins in has to have before it may end. -/
def unwrapFrom? : Nat → List Char → Option (List Char)
  | _, [] => some []
  | left + 1, c :: rest => (unwrapFrom? left rest).map (c :: ·)
  | 0, '\r' :: '\n' :: rest => unwrapFrom? lineWidth rest
  | 0, '\r' :: rest => unwrapFrom? lineWidth rest
  | 0, '\n' :: rest => unwrapFrom? lineWidth rest
  | 0, _ => none

/-- The characters of lines, all but the last of which are full, without the line ends. -/
def unwrap? (text : List Char) : Option (List Char) :=
  unwrapFrom? lineWidth text

/-- The characters on lines, given how many more characters there is room for on the first. -/
def wrapFrom : Nat → List Char → List Char
  | _, [] => []
  | left + 1, c :: rest => c :: wrapFrom left rest
  | 0, c :: rest => '\n' :: c :: wrapFrom (lineWidth - 1) rest

/-- The characters on full lines, the last of which may be shorter and has no line end. -/
def wrap (text : List Char) : List Char :=
  wrapFrom lineWidth text

/-! ## Documents -/

/-- What the first line of a document begins with. -/
def opening : List Char := "-----BEGIN ".toList

/-- What the last line of a document begins with. -/
def closing : List Char := "-----END ".toList

/-- What both lines end with. -/
def dashes : List Char := "-----".toList

/-- What follows the beginning of a document that starts at a later line. -/
def afterOpeningLine? : List Char → Option (List Char)
  | [] => none
  | c :: rest =>
    if c = '\x00' then none
    else if c = '\n' then (Text.after? opening rest).or (afterOpeningLine? rest)
    else afterOpeningLine? rest

/-- What follows the beginning of a document that starts at some line of a text. Before the document
may stand any characters but the null character. -/
def afterOpening? (text : List Char) : Option (List Char) :=
  (Text.after? opening text).or (afterOpeningLine? text)

/-- What stands between the first and the last line of a document with the given label. -/
def body? (label text : List Char) : Option (List Char) := do
  let rest ← afterOpening? text
  let rest ← afterLineEnd? (← Text.after? (label ++ dashes) rest)
  let rest := (beforeLineEnd? rest).getD rest
  beforeLineEnd? (← Text.before? (closing ++ label ++ dashes) rest)

/-- The digits on the lines of a body. An empty line may follow them, except after a full line that
ends in padding. -/
def digits? (body : List Char) : Option (List Char) := do
  let lines := (beforeLineEnd? body).getD body
  let digits ← unwrap? lines
  guard ((beforeLineEnd? lines).isNone ∨ digits.getLast? ≠ some '=')
  return digits

/-- The bytes of a document with the given label. -/
def read? (label : String) (text : List Char) : Option Bytes := do
  Base64.decodeChars? (← digits? (← body? label.toList text))

/-- The document with the given label and bytes. -/
def write (label : String) (bytes : Bytes) : List Char :=
  opening ++ label.toList ++ dashes ++ ['\n'] ++ wrap (Base64.encodeChars bytes) ++ ['\n'] ++
    closing ++ label.toList ++ dashes ++ ['\n']

end RequestAuth.Pem
