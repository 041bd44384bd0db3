import RequestAuth.Text.Utf8

/-!
# Headers

The headers of a request are a list of names and values in which a name may come several times.
`Headers.set` puts one value in the place of all those of a name and leaves the others as they
are.
-/

namespace RequestAuth.Http

/-! ## Names and values -/

/-- The bytes of header names, beside letters and digits. -/
def namePunctuation : List Char :=
  ['!', '#', '$', '%', '&', '\'', '*', '+', '-', '.', '^', '_', '\x60', '|', '~']

/-- Whether a byte may stand in a header name. -/
def isNameByte (b : UInt8) : Bool :=
  let c := Char.ofNat b.toNat
  ('0' ≤ c ∧ c ≤ '9') ∨ ('A' ≤ c ∧ c ≤ 'Z') ∨ ('a' ≤ c ∧ c ≤ 'z') ∨ c ∈ namePunctuation

/-- The greatest length of a header name. -/
def maxNameLength : Nat := 65535

/-- The header name that a byte string spells, in lower case. -/
def name? (bytes : Bytes) : Option String :=
  if bytes ≠ [] ∧ bytes.length ≤ maxNameLength ∧ bytes.all isNameByte then
    some (String.ofList (bytes.map fun b => (Char.ofNat b.toNat).toLower))
  else none

/-- Whether a byte may stand in a header value: any but the controls, of which the tab is taken. -/
def isValueByte (b : UInt8) : Bool :=
  b = 9 ∨ (32 ≤ b ∧ b ≠ 127)

/-- The header value that a byte string is. -/
def value? (bytes : Bytes) : Option Bytes :=
  if bytes.all isValueByte then some bytes else none

/-! ## Headers of a request -/

/-- Names in lower case and their values, in order. -/
abbrev Headers := List (String × Bytes)

namespace Headers

/-- The values of a name, in order. -/
def values (headers : Headers) (name : String) : List Bytes :=
  headers.filterMap fun (n, value) => if n = name then some value else none

/-- The headers without those of a name. -/
def erase (headers : Headers) (name : String) : Headers :=
  headers.filter fun (n, _) => n ≠ name

/-- The headers with one value for a name, in the place of all others. -/
def set (headers : Headers) (name : String) (value : Bytes) : Headers :=
  headers.erase name ++ [(name, value)]

/-- The headers with each of the given ones set. -/
def setAll (headers : Headers) (more : Headers) : Headers :=
  more.foldl (fun headers (name, value) => headers.set name value) headers

end Headers

end RequestAuth.Http
