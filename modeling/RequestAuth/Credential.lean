import RequestAuth.Text.Quoted
import RequestAuth.Text.Redacted

/-!
# Credentials

A credential is what a principal signs with: the key id that requests carry, the private key, and
what is known about the principal. Only user principals name a compartment of their own, and only
their key material stays the same from one load to the next. The text shown when debugging gives
no secret away.
-/

namespace RequestAuth

/-- The kind of principal that a credential was issued for. -/
inductive CredentialKind where
  /-- A user, known by tenancy, user and key fingerprint. -/
  | user
  /-- A compute instance, signing with a session token issued to it. -/
  | instancePrincipal
  /-- A function or other resource, signing with a resource principal session token. -/
  | resourcePrincipal
  deriving DecidableEq, Repr, Inhabited

namespace CredentialKind

/-- The name of a kind. -/
def name : CredentialKind → String
  | .user => "User"
  | .instancePrincipal => "InstancePrincipal"
  | .resourcePrincipal => "ResourcePrincipal"

/-- Whether each load may bring other key material. -/
def isRotating (kind : CredentialKind) : Bool :=
  kind ≠ .user

end CredentialKind

/-- A signing identity and its private key. -/
structure Credential where
  /-- The kind of principal. -/
  kind : CredentialKind := .user
  /-- The key id that authorization headers carry. -/
  keyId : String
  /-- The private key document. -/
  privateKey : String
  /-- The passphrase of the private key, if it is encrypted. -/
  passphrase : Option String := none
  /-- The tenancy, known for users only. -/
  tenancy : Option String := none
  /-- The region of the principal. -/
  region : Option String := none
  /-- The claims of the session token, under distinct names. -/
  claims : List (String × String) := []
  deriving DecidableEq, Repr

namespace Credential

/-- The key id of a user. -/
def userKeyId (tenancy user fingerprint : String) : String :=
  tenancy ++ "/" ++ user ++ "/" ++ fingerprint

/-- The key id of a principal that signs with a session token. -/
def tokenKeyId (token : String) : String :=
  "ST$" ++ token

/-- Whether a credential can be signed with at all. -/
def isUsable (credential : Credential) : Bool :=
  credential.keyId ≠ "" ∧ credential.privateKey ≠ ""

/-- The compartment that stands in for a missing one: a user's tenancy is the root compartment. -/
def defaultCompartment (credential : Credential) : Option String :=
  match credential.kind with
  | .user => credential.tenancy
  | .instancePrincipal | .resourcePrincipal => none

/-- The value of a claim of the session token. -/
def claim? (credential : Credential) (name : String) : Option String :=
  credential.claims.lookup name

/-- The text shown when debugging, with every secret redacted. -/
def debugText (credential : Credential) : String :=
  Text.record "Credential" [
    ("kind", credential.kind.name),
    ("key_id", Text.redacted credential.keyId),
    ("private_key", Text.redacted credential.privateKey),
    ("passphrase", Text.redacted (credential.passphrase.getD "")),
    ("tenancy", Text.quotedOption credential.tenancy),
    ("region", Text.quotedOption credential.region),
    ("claims", Text.quotedList (credential.claims.map Prod.fst))]

end Credential

/-- A security token issued to a compute instance, with the private key that it is bound to. -/
structure SessionToken where
  /-- The security token. -/
  token : String
  /-- The private key document. -/
  privateKey : String
  /-- The passphrase of the private key, if it is encrypted. -/
  passphrase : Option String := none
  deriving DecidableEq, Repr

/-- The text shown when debugging, with every secret redacted. -/
def SessionToken.debugText (session : SessionToken) : String :=
  Text.record "SessionToken" [
    ("token", Text.redacted session.token),
    ("private_key", Text.redacted session.privateKey),
    ("passphrase", Text.redacted (session.passphrase.getD ""))]

end RequestAuth
