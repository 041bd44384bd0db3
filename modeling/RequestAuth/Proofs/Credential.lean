import Mathlib.Data.Bool.AllAny
import RequestAuth.Credential
import RequestAuth.Proofs.Text.Redacted

/-!
# What credentials show

The text that is shown of a credential or of a session token when debugging depends on what is no
secret, and on what is seen of each secret. Two that differ in nothing else are shown alike, so that
the text gives away neither the lengths of long secrets, nor what is between their ends, nor the
values of claims (`debugText_hides_secrets`).
-/

namespace RequestAuth

/-- The credentials have the same kind, tenancy, region and at most one claim, of the same name, and
secrets that look the same. -/
structure Credential.LooksLike (credential other : Credential) : Prop where
  kind : credential.kind = other.kind
  tenancy : credential.tenancy = other.tenancy
  region : credential.region = other.region
  names : (credential.claims.map Prod.fst).Perm (other.claims.map Prod.fst)
  single : credential.claims.length ≤ 1
  keyId : Text.LooksLike credential.keyId other.keyId
  privateKey : Text.LooksLike credential.privateKey other.privateKey
  passphrase : Text.LooksLike (credential.passphrase.getD "") (other.passphrase.getD "")

/-- The session tokens have secrets that look the same. -/
structure SessionToken.LooksLike (session other : SessionToken) : Prop where
  token : Text.LooksLike session.token other.token
  privateKey : Text.LooksLike session.privateKey other.privateKey
  passphrase : Text.LooksLike (session.passphrase.getD "") (other.passphrase.getD "")

/-- One name or none is in no other order. -/
theorem eq_of_perm_of_length_le_one {α : Type} {xs ys : List α} (h : xs.Perm ys)
    (single : xs.length ≤ 1) : xs = ys := by
  match xs with
  | [] => exact (List.nil_perm.1 h).symm
  | [x] => exact (List.singleton_perm.1 h)

theorem Credential.LooksLike.debugText_eq {credential other : Credential}
    (h : credential.LooksLike other) : credential.debugText = other.debugText := by
  have names := eq_of_perm_of_length_le_one h.names (by rw [List.length_map]; exact h.single)
  rw [Credential.debugText, Credential.debugText, h.kind, h.tenancy, h.region, names,
    Text.redacted_of_looksLike h.keyId, Text.redacted_of_looksLike h.privateKey,
    Text.redacted_of_looksLike h.passphrase]

theorem SessionToken.LooksLike.debugText_eq {session other : SessionToken}
    (h : session.LooksLike other) : session.debugText = other.debugText := by
  rw [SessionToken.debugText, SessionToken.debugText, Text.redacted_of_looksLike h.token,
    Text.redacted_of_looksLike h.privateKey, Text.redacted_of_looksLike h.passphrase]

/-- A secret shows at most its ends, and what looks the same is shown as the same text. -/
theorem debugText_hides_secrets :
    (∀ secret, Text.IsShown secret (Text.redacted secret)) ∧
    (∀ credential other : Credential, credential.LooksLike other →
      credential.debugText = other.debugText) ∧
    ∀ session other : SessionToken, session.LooksLike other →
      session.debugText = other.debugText :=
  ⟨Text.isShown_redacted, fun _ _ h => h.debugText_eq, fun _ _ h => h.debugText_eq⟩

/-- A credential with the given secrets and the given claim. -/
def sampleShown (token privateKey claim : String) (passphrase : Option String) : Credential where
  kind := .resourcePrincipal
  keyId := Credential.tokenKeyId token
  privateKey := privateKey
  passphrase := passphrase
  region := some "us-ashburn-1"
  claims := [("claim", claim)]

theorem debugText_hides_secrets_sample :
    (sampleShown "first ☃ token" "pem" "1" none).debugText =
      (sampleShown "another, longer one, no token" "document" "2" (some "")).debugText ∧
    (SessionToken.mk "tokens are long" "pem" (some "12")).debugText =
      (SessionToken.mk "tok-------------ong" "document" (some "passphrase")).debugText := by
  obtain ⟨-, credentials, sessions⟩ := debugText_hides_secrets
  refine ⟨credentials _ _ ⟨rfl, rfl, rfl, .refl _, Nat.le_refl 1, ?_, ?_, ?_⟩,
    sessions _ _ ⟨?_, ?_, ?_⟩⟩
  · exact .long (by decide) (by decide) (by decide) (by decide) (List.all_iff_forall_prop.1 rfl)
  · exact .short (by decide) (by decide) (by decide) (by decide)
  · exact .empty
  · exact .long (by decide) (by decide) (by decide) (by decide) (List.all_iff_forall_prop.1 rfl)
  · exact .short (by decide) (by decide) (by decide) (by decide)
  · exact .short (by decide) (by decide) (by decide) (by decide)

end RequestAuth
