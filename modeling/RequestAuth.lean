import RequestAuth.Authorizer.Action
import RequestAuth.Authorizer.Basic
import RequestAuth.Authorizer.Source
import RequestAuth.Bytes
import RequestAuth.Cipher.Aes
import RequestAuth.Cipher.Password
import RequestAuth.Context
import RequestAuth.Credential
import RequestAuth.Date.Calendar
import RequestAuth.Date.DateTime
import RequestAuth.Date.HttpDate
import RequestAuth.Decimal.Binary64
import RequestAuth.Decimal.Shortest
import RequestAuth.Digest.Hmac
import RequestAuth.Digest.Sha2
import RequestAuth.Directory
import RequestAuth.Duration
import RequestAuth.Encoding.Base64
import RequestAuth.Encoding.Der
import RequestAuth.Encoding.Pem
import RequestAuth.Error
import RequestAuth.Http.Header
import RequestAuth.Json.Number
import RequestAuth.Json.Reader
import RequestAuth.Json.Value
import RequestAuth.Json.Writer
import RequestAuth.KeyDerivation.Pbkdf2
import RequestAuth.KeyDerivation.Scrypt
import RequestAuth.Profiles
import RequestAuth.Proofs.Alike
import RequestAuth.Proofs.Authorizer.Accounts
import RequestAuth.Proofs.Authorizer.Backing
import RequestAuth.Proofs.Authorizer.Compartment
import RequestAuth.Proofs.Authorizer.Hostless
import RequestAuth.Proofs.Authorizer.Loading
import RequestAuth.Proofs.Authorizer.Overtaking
import RequestAuth.Proofs.Authorizer.Source
import RequestAuth.Proofs.Authorizer.Steps
import RequestAuth.Proofs.Authorizer.Turn
import RequestAuth.Proofs.Authorizer.Verifiable
import RequestAuth.Proofs.Authorizer.Whole
import RequestAuth.Proofs.Bytes
import RequestAuth.Proofs.Cipher.Aes
import RequestAuth.Proofs.Cipher.Password
import RequestAuth.Proofs.Credential
import RequestAuth.Proofs.Date.Calendar
import RequestAuth.Proofs.Date.HttpDate
import RequestAuth.Proofs.Date.RoundTrip
import RequestAuth.Proofs.Digest.Sha2
import RequestAuth.Proofs.Encoding.Base64
import RequestAuth.Proofs.Encoding.Base64Form
import RequestAuth.Proofs.Encoding.Der
import RequestAuth.Proofs.Encoding.Pem
import RequestAuth.Proofs.Ensures
import RequestAuth.Proofs.Http.Header
import RequestAuth.Proofs.Json.Grammar
import RequestAuth.Proofs.Json.ReadBack
import RequestAuth.Proofs.Json.Sorted
import RequestAuth.Proofs.Profiles.ReadBack
import RequestAuth.Proofs.Provider.Chain
import RequestAuth.Proofs.Provider.ResourceValues
import RequestAuth.Proofs.Provider.TokenClaims
import RequestAuth.Proofs.Provider.UserSources
import RequestAuth.Proofs.Rsa.Factors
import RequestAuth.Proofs.Rsa.KeyDocument
import RequestAuth.Proofs.Rsa.KeyText
import RequestAuth.Proofs.Rsa.Signature
import RequestAuth.Proofs.ServiceUrl.Host
import RequestAuth.Proofs.ServiceUrl.Parts
import RequestAuth.Proofs.SignatureCache.Acts
import RequestAuth.Proofs.SignatureCache.Ahead
import RequestAuth.Proofs.SignatureCache.Calls
import RequestAuth.Proofs.SignatureCache.Cancelled
import RequestAuth.Proofs.SignatureCache.CloseBarrier
import RequestAuth.Proofs.SignatureCache.Failures
import RequestAuth.Proofs.SignatureCache.Faithful
import RequestAuth.Proofs.SignatureCache.Frame
import RequestAuth.Proofs.SignatureCache.Growth
import RequestAuth.Proofs.SignatureCache.Journal
import RequestAuth.Proofs.SignatureCache.LastHandle
import RequestAuth.Proofs.SignatureCache.Laws
import RequestAuth.Proofs.SignatureCache.LiveRefresh
import RequestAuth.Proofs.SignatureCache.Mirror
import RequestAuth.Proofs.SignatureCache.NewestEntry
import RequestAuth.Proofs.SignatureCache.Pacing
import RequestAuth.Proofs.SignatureCache.Reached
import RequestAuth.Proofs.SignatureCache.Steps
import RequestAuth.Proofs.SignatureCache.Turn
import RequestAuth.Proofs.SignatureCache.Upkeep
import RequestAuth.Proofs.SignatureCache.Warmth
import RequestAuth.Proofs.Signing.Genuine
import RequestAuth.Proofs.Signing.ServiceHost
import RequestAuth.Proofs.Signing.Unambiguous
import RequestAuth.Proofs.Signing.Verification
import RequestAuth.Proofs.Text.Blank
import RequestAuth.Proofs.Text.Part
import RequestAuth.Proofs.Text.Redacted
import RequestAuth.Proofs.Text.Utf8
import RequestAuth.Provider.Basic
import RequestAuth.Provider.Instance
import RequestAuth.Provider.Resource
import RequestAuth.Provider.User
import RequestAuth.Routine
import RequestAuth.Rsa.Key
import RequestAuth.Rsa.KeyDocument
import RequestAuth.Rsa.KeyText
import RequestAuth.Rsa.Signature
import RequestAuth.ServiceUrl
import RequestAuth.Settings
import RequestAuth.SignatureCache.Action
import RequestAuth.SignatureCache.Basic
import RequestAuth.SignatureCache.Timeline
import RequestAuth.Signing
import RequestAuth.Text.Blank
import RequestAuth.Text.Part
import RequestAuth.Text.Quoted
import RequestAuth.Text.Redacted
import RequestAuth.Text.Shown
import RequestAuth.Text.Utf8
