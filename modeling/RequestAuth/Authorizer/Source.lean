import RequestAuth.Provider.Basic
import RequestAuth.Rsa.KeyText
import RequestAuth.Signing

/-!
# The source of signatures

A signature is made with a credential and its private key, both of which are kept once a provider
has given them. A user's are used again for later signatures; those of other principals change, so
that the provider is asked each time. A load that fails leaves what is kept as it is.
-/

namespace RequestAuth

/-- What signatures are made from. -/
structure Source (σ : Type) where
  /-- What the provider finds. -/
  world : World σ
  /-- The credential that was loaded last. -/
  credential : Option Credential := none
  /-- The private key of that credential. -/
  holder : Rsa.KeyHolder := {}
  /-- How often the provider has been asked. -/
  loads : Nat := 0
  /-- The credentials that the provider has given, the latest first. -/
  received : List Credential := []

namespace Source

variable {σ : Type}

/-- A credential and its private key. -/
abbrev Identity := Credential × Rsa.PrivateKey

/-- Takes a credential that the provider has given. -/
def accept (credential : Credential) (source : Source σ) : Except Error Identity × Source σ :=
  let source := { source with received := credential :: source.received }
  if credential.isUsable then
    match source.holder.reload credential.privateKey credential.passphrase with
    | (.ok key, holder) =>
      (.ok (credential, key), { source with holder, credential := some credential })
    | (.error e, holder) => (.error e, { source with holder })
  else (.error .incompleteCredential, source)

/-- Asks the provider. -/
def ask (provider : Provider σ) : Routine (Source σ) (Except Error (Option Credential)) :=
  .act (fun source => { source with loads := source.loads + 1 }) fun _ =>
    provider.onPart (·.world) fun world source => { source with world }

/-- Loads a credential and its private key. -/
def load (provider : Provider σ) : Routine (Source σ) (Except Error Identity) :=
  (ask provider).bind fun answer => match answer with
    | .error e => .done (.error e)
    | .ok none => .done (.error .noCredential)
    | .ok (some credential) => .act (fun source => (source.accept credential).2)
      fun source => .done (source.accept credential).1

/-- The credential and the private key that are kept, if they may be used for another signature. -/
def reusable? (source : Source σ) : Option Identity :=
  match source.credential, source.holder.current with
  | some credential, some key =>
    if credential.kind.isRotating then none else some (credential, key)
  | _, _ => none

/-- The credential and the private key for a signature. -/
def identity (provider : Provider σ) : Routine (Source σ) (Except Error Identity) :=
  .act id fun source => match source.reusable? with
    | some identity => .done (.ok identity)
    | none => load provider

/-- Computes a signature for a host; `dateAt` tells what date it is at each instant. -/
def compute (provider : Provider σ) (dateAt : Nat → DateTime) (host : Option String) :
    Routine (Source σ) (Except Error DatedSignature) :=
  match host with
  | none => .done (.error .noHost)
  | some host => (identity provider).bind fun answer => match answer with
    | .error e => .done (.error e)
    | .ok (credential, key) =>
      .clock fun now => .done (Signing.sign host credential.keyId key (dateAt now))

end Source

end RequestAuth
