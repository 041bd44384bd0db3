import RequestAuth.Text.Part

/-!
# Service URLs

`ServiceUrl.host?` finds the host that a service URL names. A URL is a bare authority, such as
`localhost:8080`, or a scheme, an authority, and a path with a query; a path alone names no host.
The authority may hold user information before an `@` and a port after a colon, neither of which
belongs to the host, and a host in brackets may hold colons.
-/

namespace RequestAuth.ServiceUrl

/-- Why a text is not a URL. -/
inductive Fault where
  | empty
  | tooLong
  | invalidChar
  | invalidAuthority
  | invalidFormat
  | schemeTooLong
  deriving DecidableEq, Repr

/-- The wording of a fault. -/
def Fault.message : Fault → String
  | .empty => "empty string"
  | .tooLong => "uri too long"
  | .invalidChar => "invalid uri character"
  | .invalidAuthority => "invalid authority"
  | .invalidFormat => "invalid format"
  | .schemeTooLong => "scheme too long"

/-- The greatest length of a URL in bytes. -/
def maxLength : Nat := 65534

/-- The greatest length of a scheme other than the two usual ones. -/
def maxSchemeLength : Nat := 64

/-- The greatest number of colons without a bracket or an `@` after them. -/
def maxColons : Nat := 8

/-! ## Characters -/

/-- Letters and digits of ASCII. -/
def isAlphanumeric (c : Char) : Bool :=
  ('0' ≤ c ∧ c ≤ '9') ∨ ('A' ≤ c ∧ c ≤ 'Z') ∨ ('a' ≤ c ∧ c ≤ 'z')

/-- The characters of a scheme. -/
def isSchemeChar (c : Char) : Bool :=
  isAlphanumeric c ∨ c ∈ ['+', '-', '.', '~']

/-- The characters of an authority that have no meaning of their own there. -/
def isAuthorityChar (c : Char) : Bool :=
  isAlphanumeric c ∨
    c ∈ ['!', '$', '&', '\'', '(', ')', '*', '+', ',', '-', '.', ';', '=', '_', '~']

/-- The characters of a path. -/
def isPathChar (c : Char) : Bool :=
  isAlphanumeric c ∨ 0x80 ≤ c.toNat ∨
    c ∈ ['!', '"', '$', '%', '&', '\'', '(', ')', '*', '+', ',', '-', '.', '/', ':', ';', '=', '@',
      '[', '\\', ']', '^', '_', '\x7b', '|', '\x7d', '~']

/-- The characters of a query. -/
def isQueryChar (c : Char) : Bool :=
  0x80 ≤ c.toNat ∨ c = '!' ∨ ('$' ≤ c ∧ c ≤ ';') ∨ c = '=' ∨ ('?' ≤ c ∧ c ≤ '~')

/-- The characters that end an authority. -/
def endsAuthority (c : Char) : Bool :=
  c = '/' ∨ c = '?' ∨ c = '#'

/-! ## Scheme -/

/-- What follows a scheme at the start of the text, if there is one. -/
inductive Scheme where
  /-- The text has no scheme. -/
  | absent
  /-- The text has a scheme, and this follows its `://`. -/
  | before (rest : List Char)
  deriving DecidableEq, Repr

/-- Looks for the end of a scheme of which `length` characters have been read. -/
def schemeFrom (length : Nat) : List Char → Except Fault Scheme
  | ':' :: '/' :: '/' :: rest =>
    if length ≤ maxSchemeLength then .ok (.before rest) else .error .schemeTooLong
  | c :: rest => if isSchemeChar c then schemeFrom (length + 1) rest else .ok .absent
  | [] => .ok .absent

/-- The scheme of a text. -/
def scheme (text : List Char) : Except Fault Scheme :=
  match Text.afterAnyCase? "http://".toList text with
  | some rest => .ok (.before rest)
  | none => match Text.afterAnyCase? "https://".toList text with
    | some rest => .ok (.before rest)
    | none => if text.length ≤ 3 then .ok .absent else schemeFrom 0 text

/-! ## Authority -/

/-- What has been seen of an authority. -/
structure Seen where
  /-- The colons since the last `@` or closing bracket. -/
  colons : Nat := 0
  /-- Whether a bracket has been opened. -/
  opened : Bool := false
  /-- Whether the bracket has been closed. -/
  closed : Bool := false
  /-- Whether a percent sign has been seen since the last `@` or closing bracket. -/
  percent : Bool := false
  /-- Whether the last character was an `@`. -/
  atSign : Bool := false
  deriving DecidableEq, Repr

/-- Reads one character of an authority. -/
def Seen.next (seen : Seen) (c : Char) : Except Fault Seen :=
  let seen := { seen with atSign := false }
  if c = ':' then
    if maxColons ≤ seen.colons then .error .invalidAuthority
    else .ok { seen with colons := seen.colons + 1 }
  else if c = '[' then
    if seen.percent ∨ seen.opened then .error .invalidAuthority
    else .ok { seen with opened := true }
  else if c = ']' then
    if ¬ seen.opened ∨ seen.closed then .error .invalidAuthority
    else .ok { seen with closed := true, colons := 0, percent := false }
  else if c = '@' then .ok { seen with colons := 0, percent := false, atSign := true }
  else if c = '%' then .ok { seen with percent := true }
  else if isAuthorityChar c then .ok seen
  else .error .invalidChar

/-- Whether an authority may end here. -/
def Seen.mayEnd (seen : Seen) : Bool :=
  seen.opened = seen.closed ∧ seen.colons ≤ 1 ∧ ¬ seen.atSign ∧ ¬ seen.percent

/-- Splits a text after its authority, of which `seen` has been read. -/
def splitAuthorityFrom (seen : Seen) : List Char → Except Fault (List Char × List Char)
  | [] => if seen.mayEnd then .ok ([], []) else .error .invalidAuthority
  | c :: rest =>
    if endsAuthority c then
      if seen.mayEnd then .ok ([], c :: rest) else .error .invalidAuthority
    else do
      let (authority, after) ← splitAuthorityFrom (← seen.next c) rest
      return (c :: authority, after)

/-- Splits a text after its authority. -/
def splitAuthority (text : List Char) : Except Fault (List Char × List Char) :=
  splitAuthorityFrom {} text

/-- What stands after the last `@` of an authority. -/
def afterUserInfo (authority : List Char) : List Char :=
  (authority.reverse.takeWhile (· ≠ '@')).reverse

/-- The host of an authority: up to a closing bracket if it begins with a bracket, else up to the
first colon. -/
def hostOf (authority : List Char) : List Char :=
  match afterUserInfo authority with
  | '[' :: rest => '[' :: rest.takeWhile (· ≠ ']') ++ [']']
  | host => host.takeWhile (· ≠ ':')

/-! ## Path and query -/

/-- Whether a text is a query, up to a fragment. -/
def isQuery : List Char → Bool
  | [] => true
  | '#' :: _ => true
  | c :: rest => isQueryChar c && isQuery rest

/-- Whether a text is a path with a query, up to a fragment. -/
def isPathAndQuery : List Char → Bool
  | [] => true
  | '#' :: _ => true
  | '?' :: rest => isQuery rest
  | c :: rest => isPathChar c && isPathAndQuery rest

/-! ## The host of a URL -/

/-- The host in a text that does not begin with a slash; it may be empty. -/
def hostOfAbsolute (text : List Char) : Except Fault (List Char) := do
  match ← scheme text with
  | .absent =>
    let (authority, after) ← splitAuthority text
    if after ≠ [] then throw .invalidFormat
    return hostOf authority
  | .before [] => throw .empty
  | .before rest =>
    let (authority, after) ← splitAuthority rest
    if authority = [] then throw .invalidFormat
    if ¬ isPathAndQuery after then throw .invalidChar
    return hostOf authority

/-- The host in a text; it is empty if the text names none. -/
def hostChars (text : List Char) : Except Fault (List Char) :=
  match text with
  | [] => .error .empty
  | ['/'] | ['*'] => .ok []
  | [c] => do
    let (authority, after) ← splitAuthority [c]
    if after ≠ [] then throw .invalidChar
    return hostOf authority
  | '/' :: _ => if isPathAndQuery text then .ok [] else .error .invalidChar
  | _ => hostOfAbsolute text

/-- The host that a URL names, in lower case; nothing if it names none. -/
def host? (url : String) : Except Fault (Option String) := do
  if maxLength < url.utf8ByteSize then throw .tooLong
  match ← hostChars url.toList with
  | [] => return none
  | host => return some (String.ofList (host.map Char.toLower))

end RequestAuth.ServiceUrl
