import RequestAuth.Profiles
import RequestAuth.Provider.Basic

/-!
# User principals

A user's credential is given outright, in variables of the environment, or in a profile of the
configuration file. The private key is given as its document or in a file, which is read each time.
-/

namespace RequestAuth.Provider

variable {σ : Type}

/-! ## Names that users know -/

/-- The configuration file, unless another is named. -/
def defaultConfigFile : String := "~/.oci/config"

/-- The profile, unless another is named. -/
def defaultProfile : String := "DEFAULT"

/-! ## A credential given outright -/

/-- Where a private key document is. -/
inductive KeySource where
  /-- The document itself. -/
  | document (text : String)
  /-- The path of a file that holds the document. -/
  | file (path : String)
  deriving DecidableEq, Repr

/-- The identity of a user and the user's private key. -/
structure UserPrincipal where
  /-- The tenancy of the user. -/
  tenancy : String
  /-- The name of the user. -/
  user : String
  /-- The fingerprint of the public key. -/
  fingerprint : String
  /-- The private key. -/
  key : KeySource
  /-- The passphrase of the private key, if it is encrypted. -/
  passphrase : Option String := none
  /-- The region of the user. -/
  region : Option String := none
  deriving DecidableEq, Repr

/-- The private key document in a file. -/
def fileKey (context : Context) (path : String) : Except Error String :=
  match context.expandHome? path with
  | none => .error .unknownHome
  | some path => match context.fileText path with
    | .ok text => .ok text
    | .error _ => .error (.unreadableKeyFile path)

/-- The private key document that a source names. -/
def KeySource.load (source : KeySource) (context : Context) : Except Error String :=
  match source with
  | .document text => .ok text
  | .file path => fileKey context path

/-- The credential of a user. -/
def UserPrincipal.credential (principal : UserPrincipal) (context : Context) :
    Except Error Credential :=
  (principal.key.load context).map fun privateKey =>
    { kind := .user
      keyId := Credential.userKeyId principal.tenancy principal.user principal.fingerprint
      privateKey
      passphrase := principal.passphrase
      tenancy := some principal.tenancy
      region := principal.region }

/-- A user given outright. -/
def ofUser (principal : UserPrincipal) : Provider σ :=
  .ofContext fun context => (principal.credential context).map some

/-! ## A credential in the environment -/

/-- The user that variables of the environment name, if they name one. -/
def environmentUser? (context : Context) : Option UserPrincipal := do
  let tenancy ← context.var? "OCI_TENANCY"
  let user ← context.var? "OCI_USER"
  let fingerprint ← context.var? "OCI_FINGERPRINT"
  let keyFile ← context.var? "OCI_KEY_FILE"
  return {
    tenancy, user, fingerprint
    key := .file keyFile
    passphrase := context.var? "OCI_PASS_PHRASE"
    region := context.var? "OCI_REGION" }

/-- The credential that variables of the environment name, if they name one. -/
def findInEnvironment (context : Context) : Except Error (Option Credential) :=
  match environmentUser? context with
  | none => .ok none
  | some principal => (principal.credential context).map some

/-- A user named by variables of the environment. -/
def environment : Provider σ := .ofContext findInEnvironment

/-! ## A credential in the configuration file -/

/-- The configuration file and the profile to use in the place of the usual ones. -/
structure ConfigFile where
  /-- The path of the configuration file. -/
  path : Option String := none
  /-- The name of the profile. -/
  profile : Option String := none
  deriving DecidableEq, Repr

/-- The path of the configuration file: the one given, else the one in the environment, else the
usual one. -/
def ConfigFile.resolvePath (file : ConfigFile) (context : Context) : String :=
  (file.path <|> context.var? "OCI_CONFIG_FILE").getD defaultConfigFile

/-- The name of the profile: the one given, else the one in the environment, else the usual one. -/
def ConfigFile.resolveProfile (file : ConfigFile) (context : Context) : String :=
  (file.profile <|> context.var? "OCI_PROFILE").getD defaultProfile

/-- The user that a profile names, if it names one. -/
def profileUser? (profile : Profile) : Option UserPrincipal := do
  let tenancy ← profile.value? "tenancy"
  let user ← profile.value? "user"
  let fingerprint ← profile.value? "fingerprint"
  let keyFile ← profile.value? "key_file"
  return {
    tenancy, user, fingerprint
    key := .file keyFile
    passphrase := profile.value? "pass_phrase"
    region := profile.value? "region" }

/-- The credential that a profile of the configuration file names, if there are such a file and such
a profile. -/
def ConfigFile.find (file : ConfigFile) (context : Context) : Except Error (Option Credential) :=
  match context.expandHome? (file.resolvePath context) with
  | none => .ok none
  | some path => match context.fileText path with
    | .error _ => .ok none
    | .ok text => match Profiles.read? text with
      | none => .error (.malformedProfiles path)
      | some profiles =>
        match (profiles.profile? (file.resolveProfile context)).bind profileUser? with
        | none => .ok none
        | some principal => (principal.credential context).map some

/-- A user named by a profile of the configuration file. -/
def configFile (file : ConfigFile) : Provider σ := .ofContext file.find

/-! ## The usual sources -/

/-- A user named by the environment, or else by a profile of the configuration file. -/
def standard (file : ConfigFile) : Provider σ :=
  chain [environment, configFile file]

end RequestAuth.Provider
