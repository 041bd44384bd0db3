import RequestAuth.Error

/-!
# Settings

How long a signature is used, how long before its end it is replaced, and the host that it is made
for. The service accepts a signature for five minutes, so none is used for longer.
-/

namespace RequestAuth

/-- The settings of an authorizer. -/
structure Settings where
  /-- How long one signature is used. -/
  maxLifetime : Nat
  /-- How long before its end a signature is replaced in the background. -/
  leadTime : Nat
  /-- The host of the service. -/
  serviceHost : Option String
  deriving DecidableEq, Repr

namespace Settings

/-- The longest time for which a signature may be used. -/
def lifetimeLimit : Nat := Duration.ofSeconds 300

/-- A signature is used for as long as the service allows and replaced ten seconds before. -/
def default : Settings where
  maxLifetime := lifetimeLimit
  leadTime := Duration.ofSeconds 10
  serviceHost := none

/-- Takes the service host from a URL. -/
def withServiceUrl (settings : Settings) (url : String) : Except Error Settings :=
  match ServiceUrl.host? url with
  | .error fault => .error (.malformedUrl fault)
  | .ok none => .error (.urlWithoutHost url)
  | .ok (some host) => .ok { settings with serviceHost := some host }

/-- Refuses settings that cannot be used. -/
def validate (settings : Settings) : Except Error Unit :=
  if lifetimeLimit < settings.maxLifetime then
    .error (.longLifetime settings.maxLifetime lifetimeLimit)
  else if settings.serviceHost = some "" then .error .emptyHost
  else .ok ()

theorem maxLifetime_le_of_validate {settings : Settings} (h : settings.validate = .ok ()) :
    settings.maxLifetime ≤ lifetimeLimit := by
  refine Nat.le_of_not_lt fun hlt => ?_
  simp [validate, hlt] at h

end Settings

end RequestAuth
