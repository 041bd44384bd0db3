/-!
# Parts of a text

`Text.after?` and `Text.before?` take given characters off the start and off the end of a text,
`Text.afterAnyCase?` does the first whatever the case of the letters, `Text.contains` looks for
given characters anywhere, and `Text.splitLast?` cuts a text where they stand last.
-/

namespace RequestAuth.Text

/-- What follows the given characters at the start of a text. -/
def after? : List Char → List Char → Option (List Char)
  | [], text => some text
  | _ :: _, [] => none
  | e :: expected, c :: text => if c = e then after? expected text else none

/-- What follows the given characters, their letters in any case, at the start of a text. -/
def afterAnyCase? : List Char → List Char → Option (List Char)
  | [], text => some text
  | _ :: _, [] => none
  | e :: expected, c :: text =>
    if c.toLower = e.toLower then afterAnyCase? expected text else none

/-- What precedes the given characters at the end of a text. -/
def before? (expected text : List Char) : Option (List Char) :=
  (after? expected.reverse text.reverse).map List.reverse

/-- Whether the given characters stand one after the other anywhere in a text. -/
def contains (part : List Char) : List Char → Bool
  | [] => part.isEmpty
  | c :: text => (after? part (c :: text)).isSome || contains part text

/-- What precedes and what follows the last place where the given characters stand one after the
other. -/
def splitLast? (part : List Char) : List Char → Option (List Char × List Char)
  | [] => if part.isEmpty then some ([], []) else none
  | c :: text =>
    match splitLast? part text with
    | some (before, rest) => some (c :: before, rest)
    | none => (after? part (c :: text)).map fun rest => ([], rest)

end RequestAuth.Text
