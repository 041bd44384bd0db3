import RequestAuth.Credential
import RequestAuth.Duration
import RequestAuth.ServiceUrl
import RequestAuth.Text.Utf8

/-!
# Errors

An `Error` is the cause of a failure. Its kind, its wording and whether it stands for the failure
of something underneath are functions of the cause. Collaborators, such as a federation client,
report errors of their own with `Error.reported`.
-/

namespace RequestAuth

/-- What a failure is about. -/
inductive ErrorKind where
  /-- Credentials are missing, malformed or cannot be read. -/
  | credentialInvalid
  /-- A setting is missing or out of range. -/
  | configInvalid
  /-- A signature cannot be computed. -/
  | signingFailed
  /-- The source of credentials does not support the request. -/
  | unsupported
  /-- Headers cannot be built. -/
  | requestInvalid
  /-- Anything else, such as a file that cannot be read. -/
  | unexpected
  deriving DecidableEq, Repr

/-- The wording of a kind. -/
def ErrorKind.text : ErrorKind → String
  | .credentialInvalid => "invalid credentials"
  | .configInvalid => "invalid configuration"
  | .signingFailed => "signing failed"
  | .unsupported => "unsupported operation"
  | .requestInvalid => "invalid request"
  | .unexpected => "unexpected error"

/-- The cause of a failure. -/
inductive Error where
  /-- An error that a collaborator reports, and whether it stands for one underneath. -/
  | reported (kind : ErrorKind) (message : String) (sourced : Bool)
  /-- A value cannot be formatted. -/
  | unformattable
  /-- A byte string is not UTF-8. -/
  | malformedUtf8 (fault : Utf8.Fault)
  /-- A text is not standard base64. -/
  | malformedBase64
  /-- A text is not base64 for URLs. -/
  | malformedBase64Url
  /-- A text is no HTTP date. -/
  | malformedDate (text : String)
  /-- A byte string is no header value. -/
  | malformedHeaderValue
  /-- A byte string is no header name. -/
  | malformedHeaderName
  /-- Files cannot be read at all. -/
  | noFileReader
  /-- A file cannot be read. -/
  | unreadableFile (path : String) (sourced : Bool)
  /-- A path begins at a home directory that is not known. -/
  | unknownHome
  /-- A private key file cannot be read. -/
  | unreadableKeyFile (path : String)
  /-- A profile file cannot be understood. -/
  | malformedProfiles (path : String)
  /-- A resource principal has a version that is not known. -/
  | unknownPrincipalVersion (version : String)
  /-- A resource principal lacks a variable. -/
  | missingPrincipalVariable (name : String)
  /-- A file of a resource principal cannot be read. -/
  | unreadablePrincipalFile (path : String)
  /-- A session token has not three parts. -/
  | malformedToken
  /-- The claims of a session token are not base64. -/
  | undecodableToken
  /-- The claims of a session token are no JSON object. -/
  | malformedClaims
  /-- A federation client gave an empty session token. -/
  | emptySessionToken
  /-- No source has a credential. -/
  | noCredential
  /-- A credential lacks its key id or its private key. -/
  | incompleteCredential
  /-- A private key is encrypted and there is no passphrase. -/
  | missingPassphrase
  /-- A private key is encrypted in the legacy way. -/
  | legacyEncryption
  /-- An encrypted private key cannot be read with the passphrase. -/
  | undecryptableKey
  /-- A private key cannot be read. -/
  | unreadableKey
  /-- The modulus of a key is too short to sign with. -/
  | shortModulus
  /-- A computed signature does not belong to its message. -/
  | wrongSignature
  /-- A signature is to be kept longer than the service allows. -/
  | longLifetime (lifetime limit : Nat)
  /-- A cache is to keep its entries longer than the service allows. -/
  | longEntryLifetime (limit : Nat)
  /-- The service host is the empty text. -/
  | emptyHost
  /-- The service URL is no URL. -/
  | malformedUrl (fault : ServiceUrl.Fault)
  /-- The service URL names no host. -/
  | urlWithoutHost (url : String)
  /-- There is no service host. -/
  | noHost
  /-- There is no compartment and the principal has none of its own. -/
  | noCompartment
  /-- The principal has no session token claims. -/
  | noClaims (kind : CredentialKind)
  deriving DecidableEq, Repr

namespace Error

/-- What a failure is about. -/
def kind : Error → ErrorKind
  | reported kind _ _ => kind
  | unformattable | malformedUtf8 _ | malformedBase64 | malformedBase64Url | malformedDate _
  | noFileReader | unreadableFile _ _ | unknownHome => .unexpected
  | malformedHeaderValue | malformedHeaderName => .requestInvalid
  | unreadableKeyFile _ | unreadablePrincipalFile _ | malformedToken | undecodableToken
  | malformedClaims | emptySessionToken | noCredential | incompleteCredential | missingPassphrase
  | legacyEncryption | undecryptableKey | unreadableKey => .credentialInvalid
  | unknownPrincipalVersion _ | noClaims _ => .unsupported
  | shortModulus | wrongSignature => .signingFailed
  | malformedProfiles _ | missingPrincipalVariable _ | longLifetime _ _ | longEntryLifetime _
  | emptyHost | malformedUrl _ | urlWithoutHost _ | noHost | noCompartment => .configInvalid

/-- The wording of a cause, without its kind. Why a private key cannot be read or decrypted is worded
by what decodes documents; `malformed document` stands for any of its wordings. -/
def message : Error → String
  | reported _ message _ => message
  | unformattable => "an error occurred when formatting an argument"
  | malformedUtf8 ⟨index, some length⟩ =>
    "invalid utf-8 sequence of " ++ toString length ++ " bytes from index " ++ toString index
  | malformedUtf8 ⟨index, none⟩ =>
    "incomplete utf-8 byte sequence from index " ++ toString index
  | malformedBase64 => "base64 decode failed"
  | malformedBase64Url => "base64url decode failed"
  | malformedDate text => "invalid http date: " ++ text
  | malformedHeaderValue => "failed to parse header value"
  | malformedHeaderName => "invalid HTTP header name"
  | noFileReader => "file reading not supported: no file reader configured"
  | unreadableFile path _ => "failed to read file " ++ path
  | unknownHome => "failed to expand home directory"
  | unreadableKeyFile path => "failed to read private key file " ++ path
  | malformedProfiles path => "failed to parse config file " ++ path
  | unknownPrincipalVersion version =>
    "resource principal version " ++ version ++ " is not supported"
  | missingPrincipalVariable name => name ++ " is required for resource principal"
  | unreadablePrincipalFile path => "failed to read resource principal file " ++ path
  | malformedToken => "resource principal session token is not a valid JWT"
  | undecodableToken => "failed to decode resource principal session token"
  | malformedClaims => "failed to parse resource principal session token claims"
  | emptySessionToken => "federation client returned an empty session token"
  | noCredential => "no valid credential found"
  | incompleteCredential => "credential has no key id or private key"
  | missingPassphrase => "private key is encrypted but no passphrase is provided"
  | legacyEncryption =>
    "legacy encrypted PKCS#1 keys are not supported, convert the key to PKCS#8"
  | undecryptableKey => "failed to decrypt private key: malformed document or wrong passphrase"
  | unreadableKey => "failed to read private key: malformed document"
  | shortModulus => "failed to sign request: signature error: message too long"
  | wrongSignature => "failed to sign request: signature error: internal error"
  | longLifetime lifetime limit =>
    "max_lifetime " ++ Duration.text lifetime ++ " exceeds the limit of " ++ Duration.text limit
  | longEntryLifetime limit =>
    "signature cannot be cached longer than " ++ toString (limit / Duration.second) ++ " seconds"
  | emptyHost => "service_host must not be empty"
  | malformedUrl fault => fault.message
  | urlWithoutHost url => "service url " ++ url ++ " has no host"
  | noHost => "service host is not configured"
  | noCompartment => "compartment is required for this kind of principal"
  | noClaims kind => kind.name ++ " credential has no resource principal claims"

/-- Whether an error stands for the failure of something underneath. -/
def hasSource : Error → Bool
  | reported _ _ sourced | unreadableFile _ sourced => sourced
  | unformattable | malformedUtf8 _ | malformedBase64 | malformedBase64Url | malformedDate _
  | malformedHeaderValue | malformedHeaderName | unreadableKeyFile _ | malformedProfiles _
  | unreadablePrincipalFile _ | undecodableToken | malformedClaims | malformedUrl _ => true
  | _ => false

/-- The whole wording of an error: what it is about, and its cause. -/
def text (error : Error) : String :=
  error.kind.text ++ ": " ++ error.message

end Error

end RequestAuth
