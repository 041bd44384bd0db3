import RequestAuth.Provider.Basic

/-!
# Instance principals

A compute instance signs with a session token that a federation client gives out for its identity.
The client is asked before every signature and keeps the token fresh.
-/

namespace RequestAuth

/-- What gives out session tokens to a compute instance. -/
abbrev FederationClient (σ : Type) := Routine (World σ) (Except Error SessionToken)

namespace Provider

variable {σ : Type}

/-- The credential of an instance with a session token. -/
def instanceCredential (region : Option String) (session : SessionToken) :
    Except Error Credential :=
  if session.token = "" then .error .emptySessionToken
  else .ok {
    kind := .instancePrincipal
    keyId := Credential.tokenKeyId session.token
    privateKey := session.privateKey
    passphrase := session.passphrase
    region }

/-- The instance that a federation client knows. -/
def ofInstance (client : FederationClient σ) (region : Option String) : Provider σ :=
  client.bind fun answer =>
    .done (answer.bind fun session => (instanceCredential region session).map some)

end Provider

end RequestAuth
