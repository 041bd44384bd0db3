import RequestAuth.Date.HttpDate
import RequestAuth.Encoding.Base64
import RequestAuth.Rsa.Signature
import RequestAuth.Text.Part

/-!
# Signing requests

All requests are posts to one path of a host, so that the text to sign depends on the host and the
date only. A signature is sent in a header together with the id of the key that made it, and is good
for requests that carry the same date. `Signing.sign` makes one, and `Signing.cut?` finds it in a
header again.
-/

namespace RequestAuth

/-- A signature as it is sent, and the date that it covers. -/
structure DatedSignature where
  /-- The value of the authorization header. -/
  headerValue : String
  /-- The value of the date header. -/
  date : String
  deriving DecidableEq, Repr

namespace Signing

/-! ## What is signed -/

/-- The path that requests are posted to. -/
def path : String := "V0/nosql/data"

/-- The name of the part of a request that is its method and path. -/
def targetName : String := "(request-target)"

/-- The text to sign for a host and a date. -/
def content (host date : String) : String :=
  targetName ++ ": post /" ++ path ++ "\nhost: " ++ host ++ "\ndate: " ++ date

/-! ## How it is sent -/

/-- The parts of a request that are signed. -/
def signedParts : String := targetName ++ " host date"

/-- The name of the way of signing. -/
def algorithm : String := "rsa-sha256"

/-- The version of the header. -/
def version : String := "1"

/-- What stands right before the signature. -/
def signatureMark : String := "signature=\""

/-- The value of the authorization header. -/
def header (keyId : String) (signature : Bytes) : String :=
  "Signature headers=\"" ++ signedParts ++ "\",keyId=\"" ++ keyId ++ "\",algorithm=\"" ++
    algorithm ++ "\"," ++ signatureMark ++ Base64.encode signature ++ "\",version=\"" ++ version ++
    "\""

/-- The value of an authorization header, cut at the last signature in it: what precedes it, the
signature, and what follows from its closing quote on. -/
def cut? (header : String) : Option (String × String × String) := do
  let (before, rest) ← Text.splitLast? signatureMark.toList header.toList
  let signature := rest.takeWhile (· ≠ '"')
  let after := rest.dropWhile (· ≠ '"')
  guard (after ≠ [])
  return (String.ofList before ++ signatureMark, String.ofList signature, String.ofList after)

/-- Signs requests to a host at a point in time. -/
def sign (host keyId : String) (key : Rsa.PrivateKey) (time : DateTime) :
    Except Error DatedSignature :=
  let date := HttpDate.render time
  match key.sign (Utf8.bytes (content host date)) with
  | .ok signature => .ok ⟨header keyId signature, date⟩
  | .error e => .error e

end Signing

end RequestAuth
