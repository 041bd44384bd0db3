import RequestAuth.Authorizer.Source
import RequestAuth.Http.Header
import RequestAuth.Provider.User
import RequestAuth.SignatureCache.Action

/-!
# Authorizers

An authorizer gives requests the three headers that the service asks for: the signature, the date
that it covers, and the compartment that the request is about. Signatures come from a cache. A
signature that cannot be computed this time is no error: the request is left as it is, to be tried
again.
-/

namespace RequestAuth

/-- What does not change about an authorizer. -/
structure Authorizer (σ : Type) where
  /-- Where credentials come from. -/
  provider : Provider σ
  /-- What date it is at each instant. -/
  dateAt : Nat → DateTime
  /-- How long signatures are used, and the host that they are made for. -/
  settings : Settings
  isValid : settings.validate = .ok ()

namespace Authorizer

variable {σ : Type}

/-- An authorizer with the given settings, if they can be used. -/
def create (provider : Provider σ) (dateAt : Nat → DateTime) (settings : Settings) :
    Except Error (Authorizer σ) :=
  match h : settings.validate with
  | .ok () => .ok ⟨provider, dateAt, settings, h⟩
  | .error e => .error e

/-- An authorizer for the service at a URL, with the usual settings and sources of credentials. -/
def forService (url : String) (dateAt : Nat → DateTime) : Except Error (Authorizer σ) :=
  Settings.default.withServiceUrl url >>= create (Provider.standard {}) dateAt

/-- The host that signatures are made for. -/
def host (authorizer : Authorizer σ) : Option String := authorizer.settings.serviceHost

/-- The cache of signatures. -/
def cache (authorizer : Authorizer σ) : SignatureCache (Source σ) where
  compute := Source.compute authorizer.provider authorizer.dateAt authorizer.host
  maxLifetime := authorizer.settings.maxLifetime
  refreshInterval := authorizer.settings.maxLifetime - authorizer.settings.leadTime
  background := true
  maxLifetime_le := Settings.maxLifetime_le_of_validate authorizer.isValid

/-- The state of an authorizer. -/
abbrev State (σ : Type) := SignatureCache.State (Source σ)

/-! ## Signatures -/

/-- Makes a signature that could not be computed no signature. -/
def tolerate : Outcome → Except Error (Option DatedSignature)
  | .ok entry => .ok (some entry)
  | .error e => if e.kind = .signingFailed then .ok none else .error e

/-- The signature for requests, if there is one this time. -/
def signature (authorizer : Authorizer σ) (s : State σ) :
    Except Error (Option DatedSignature) × State σ :=
  match authorizer.host with
  | none => (.error .noHost, s)
  | some _ =>
    let (outcome, s) := authorizer.cache.fetch s
    (tolerate outcome, s)

/-- The value of the authorization header, if there is a signature this time. -/
def authorization (authorizer : Authorizer σ) (s : State σ) :
    Except Error (Option String) × State σ :=
  let (answer, s) := authorizer.signature s
  (answer.map (Option.map DatedSignature.headerValue), s)

/-- Sends a call for the value of the authorization header off under a number. -/
def start (authorizer : Authorizer σ) (id : Nat) (s : State σ) : State σ :=
  match authorizer.host with
  | none => { s with answers := (id, some (.error .noHost)) :: s.answers }
  | some _ => authorizer.cache.start id s

/-- What has come of a call that was sent off. -/
def collect (authorizer : Authorizer σ) (id : Nat) (s : State σ) :
    Option (Option (Except Error (Option String))) × State σ :=
  let (answer, s) := authorizer.cache.collect id s
  (answer.map (Option.map fun outcome =>
    (tolerate outcome).map (Option.map DatedSignature.headerValue)), s)

/-! ## Headers -/

/-- The name of the header for the compartment. -/
def compartmentHeader : String := "x-nosql-compartment-id"

/-- A text as the value of a header. -/
def headerValue (text : String) : Except Error Bytes :=
  match Http.value? (Utf8.bytes text) with
  | some value => .ok value
  | none => .error .malformedHeaderValue

/-- The headers for a signature and a compartment. -/
def headers (entry : DatedSignature) (compartment : String) : Except Error Http.Headers := do
  let authorization ← headerValue entry.headerValue
  let date ← headerValue entry.date
  let compartment ← headerValue compartment
  return [("authorization", authorization), ("date", date), (compartmentHeader, compartment)]

/-- The compartment to use: the one given, else the one that the principal has of its own. -/
def chooseCompartment (compartment : Option String) (s : State σ) : Except Error String :=
  match compartment <|> s.outside.credential.bind Credential.defaultCompartment with
  | some compartment => .ok compartment
  | none => .error .noCompartment

/-- The headers for a request, if there is a signature this time. -/
def authorize (authorizer : Authorizer σ) (compartment : Option String) (s : State σ) :
    Except Error (Option Http.Headers) × State σ :=
  match authorizer.signature s with
  | (.error e, s) => (.error e, s)
  | (.ok none, s) => (.ok none, s)
  | (.ok (some entry), s) =>
    (chooseCompartment compartment s >>= fun compartment =>
      (headers entry compartment).map some, s)

/-- Sets the headers of a request. Without a signature, or upon an error, they stay as they are. -/
def sign (authorizer : Authorizer σ) (request : Http.Headers) (compartment : Option String)
    (s : State σ) : (Except Error Unit × Http.Headers) × State σ :=
  match authorizer.authorize compartment s with
  | (.error e, s) => ((.error e, request), s)
  | (.ok none, s) => ((.ok (), request), s)
  | (.ok (some more), s) => ((.ok (), request.setAll more), s)

/-! ## The principal -/

/-- The region of the credential that was loaded last. -/
def region (s : State σ) : Option String :=
  s.outside.credential.bind Credential.region

/-- The credential that was loaded last, or one that is loaded now. -/
def someCredential (authorizer : Authorizer σ) (s : State σ) : Except Error Credential × State σ :=
  match s.outside.credential with
  | some credential => (.ok credential, s)
  | none =>
    let (answer, s) := s.complete authorizer.cache (Source.load authorizer.provider)
    (answer.map Prod.fst, s)

/-- A claim of the session token of a resource principal. -/
def claim (authorizer : Authorizer σ) (name : String) (s : State σ) :
    Except Error (Option String) × State σ :=
  match authorizer.someCredential s with
  | (.error e, s) => (.error e, s)
  | (.ok credential, s) =>
    if credential.kind = .resourcePrincipal then (.ok (credential.claim? name), s)
    else (.error (.noClaims credential.kind), s)

/-! ## Texts -/

/-- The line that is logged for an event, if one is: an error or a warning, and nothing that is
logged for debugging. -/
def logLine? : SignatureCache.Event → Option String
  | .ended _ .miss (.error e) =>
    if e.kind = .signingFailed then
      some ("ERROR: failed to compute request signature: " ++ e.text)
    else none
  | event => event.logLine?

end Authorizer

end RequestAuth
