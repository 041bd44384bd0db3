import RequestAuth.Bytes

/-!
# Redacted secrets

A secret is shown so that two long ones can be told apart and nothing else is given away: the empty
one as `EMPTY`, a long one by the three bytes at either end, and any other as asterisks.
-/

namespace RequestAuth.Text

/-- Cuts a text after exactly `n` bytes of its UTF-8 form; nothing if that is no place between two
characters. -/
def splitAtByte? : Nat → List Char → Option (List Char × List Char)
  | 0, cs => some ([], cs)
  | _ + 1, [] => none
  | n + 1, c :: cs =>
    if c.utf8Size ≤ n + 1 then
      (splitAtByte? (n + 1 - c.utf8Size) cs).map fun (before, after) => (c :: before, after)
    else none

/-- How a secret is shown. A secret of at least twelve bytes keeps its first and last three bytes,
unless one of the cuts would fall within a character. -/
def redacted (secret : String) : String :=
  let size := secret.utf8ByteSize
  if size = 0 then "EMPTY"
  else if size < 12 then "***"
  else match splitAtByte? 3 secret.toList, splitAtByte? (size - 3) secret.toList with
    | some (first, _), some (_, last) => String.ofList first ++ "***" ++ String.ofList last
    | _, _ => "***"

end RequestAuth.Text
