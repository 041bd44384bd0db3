import RequestAuth.Encoding.Base64
import RequestAuth.Json.Reader
import RequestAuth.Json.Writer
import RequestAuth.Provider.Basic
import RequestAuth.Text.Blank

/-!
# Resource principals

A function or another resource finds its session token and its private key in variables of the
environment, each of which holds the value itself or the absolute path of a file with it. Files
are read each time, so that a new token is found as soon as it is there. The claims of the
token, the middle one of its three parts, are decoded and not verified.
-/

namespace RequestAuth.Provider

variable {σ : Type}

/-! ## Token claims -/

/-- How many arrays and objects of the claims may stand within one another. -/
def claimsDepth : Nat := 127

/-- The text of a claim: a string as it is, any other value as compact JSON. -/
def claimText : JsonValue → String
  | .string text => text
  | value => value.compact

/-- The claims in the middle part of a session token. -/
def readClaims (payload : String) : Except Error (List (String × String)) :=
  match Base64.decodeUrl? payload with
  | none => .error .undecodableToken
  | some bytes => match (Utf8.decode? bytes).bind (JsonValue.read? claimsDepth) with
    | some (.object members) => .ok (members.map fun (name, value) => (name, claimText value))
    | _ => .error .malformedClaims

/-- The claims of a session token, which has three parts between dots. -/
def tokenClaims (token : String) : Except Error (List (String × String)) :=
  match token.toList.splitOn '.' with
  | [_, payload, _] => readClaims (String.ofList payload)
  | _ => .error .malformedToken

/-! ## Values and files -/

/-- The version of the variables. -/
def resourceVersion : String := "2.2"

/-- The value of a variable that must be there. -/
def requiredVariable (context : Context) (name : String) : Except Error String :=
  match context.var? name with
  | some value => .ok value
  | none => .error (.missingPrincipalVariable name)

/-- The contents of the file that an absolute path names, without blanks at their ends; any other
text stands for itself. -/
def valueOrFile (context : Context) (value : String) : Except Error String :=
  match value.toList with
  | '/' :: _ => match context.fileText value with
    | .ok text => .ok (String.ofList (Text.trim text.toList))
    | .error _ => .error (.unreadablePrincipalFile value)
  | _ => .ok value

/-- The value of a variable or of the file that it names, if there is such a variable. -/
def optionalValueOrFile (context : Context) (value : Option String) :
    Except Error (Option String) :=
  match value with
  | none => .ok none
  | some value => (valueOrFile context value).map some

/-- The credential of the resource that the environment describes, if it describes one. -/
def findResource (context : Context) : Except Error (Option Credential) := do
  let some version := context.var? "OCI_RESOURCE_PRINCIPAL_VERSION" | return none
  if version ≠ resourceVersion then throw (.unknownPrincipalVersion version)
  let rpst ← requiredVariable context "OCI_RESOURCE_PRINCIPAL_RPST"
  let pem ← requiredVariable context "OCI_RESOURCE_PRINCIPAL_PRIVATE_PEM"
  let token ← valueOrFile context rpst
  let privateKey ← valueOrFile context pem
  let passphrase ← optionalValueOrFile context
    (context.var? "OCI_RESOURCE_PRINCIPAL_PRIVATE_PEM_PASSPHRASE")
  let claims ← tokenClaims token
  return some {
    kind := .resourcePrincipal
    keyId := Credential.tokenKeyId token
    privateKey, passphrase
    region := context.var? "OCI_RESOURCE_PRINCIPAL_REGION"
    claims }

/-- The resource that the environment describes. -/
def resource : Provider σ := .ofContext findResource

end RequestAuth.Provider
