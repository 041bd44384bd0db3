import RequestAuth.Proofs.Profiles.ReadBack
import RequestAuth.Proofs.Text.Utf8
import RequestAuth.Provider.User

/-!
# Three sources of one user

A user is named by four values, and two more may be known (`Provider.userOf?`). A profile of a file
that was written from plain profiles, and the variables of an environment, name a user in the same
way, and what names the same user gives the same credential or the same error as the user given
outright (`Provider.user_sources_agree`).
-/

namespace RequestAuth

/-- The value of a key in the profile of the given name. -/
def PlainProfile.value? (profiles : List PlainProfile) (name key : String) : Option String :=
  (profiles.find? fun profile => profile.name = name).bind fun profile =>
    profile.entries.lookup key

namespace Provider

variable {σ : Type} {context other : Context} {file : ConfigFile} {path : String}
  {profiles : List PlainProfile} {value? : String → Option String}

/-! ## Users from values -/

/-- The keys without whose values no user is named. -/
def neededKeys : List String := ["tenancy", "user", "fingerprint", "key_file"]

/-- The variables that stand for the keys of a profile. -/
def userVariables : List (String × String) := [
  ("OCI_TENANCY", "tenancy"), ("OCI_USER", "user"), ("OCI_FINGERPRINT", "fingerprint"),
  ("OCI_KEY_FILE", "key_file"), ("OCI_PASS_PHRASE", "pass_phrase"), ("OCI_REGION", "region")]

/-- The user that values name, if they name one. -/
def userOf? (value? : String → Option String) : Option UserPrincipal := do
  let tenancy ← value? "tenancy"
  let user ← value? "user"
  let fingerprint ← value? "fingerprint"
  let keyFile ← value? "key_file"
  return {
    tenancy, user, fingerprint
    key := .file keyFile
    passphrase := value? "pass_phrase"
    region := value? "region" }

/-- The credential of the user that values name, if they name one. -/
def findUser (value? : String → Option String) (context : Context) :
    Except Error (Option Credential) :=
  match userOf? value? with
  | none => .ok none
  | some principal => (principal.credential context).map some

theorem userOf?_eq_none_iff : userOf? value? = none ↔ ∃ key ∈ neededKeys, value? key = none := by
  simp only [neededKeys, List.mem_cons, List.not_mem_nil, or_false, exists_eq_or_imp,
    exists_eq_left]
  cases ht : value? "tenancy" with
  | none => simp [userOf?, ht]
  | some tenancy =>
  cases hu : value? "user" with
  | none => simp [userOf?, hu]
  | some user =>
  cases hf : value? "fingerprint" with
  | none => simp [userOf?, hf]
  | some fingerprint =>
  cases hk : value? "key_file" with
  | none => simp [userOf?, hk]
  | some keyFile => simp [userOf?, ht, hu, hf, hk]

theorem findUser_eq_none_iff :
    findUser value? context = .ok none ↔ ∃ key ∈ neededKeys, value? key = none := by
  rw [← userOf?_eq_none_iff, findUser]
  cases userOf? value? with
  | none => simp
  | some principal => cases h : principal.credential context <;> simp [h, Except.map]

/-! ## A profile -/

theorem profile?_toProfile (profiles : List PlainProfile) (name : String) :
    Profiles.profile? (profiles.map PlainProfile.toProfile) name =
      (profiles.find? fun profile => profile.name = name).map PlainProfile.toProfile := by
  have same : (fun profile : Profile => decide (profile.name = some name)) ∘
      PlainProfile.toProfile = fun profile => decide (profile.name = name) :=
    funext fun profile => by simp [PlainProfile.toProfile]
  rw [Profiles.profile?, List.find?_map, same]

theorem profileUser?_toProfile (profiles : List PlainProfile) (name : String) :
    (Profiles.profile? (profiles.map PlainProfile.toProfile) name).bind profileUser? =
      userOf? (PlainProfile.value? profiles name) := by
  rw [profile?_toProfile]
  unfold PlainProfile.value?
  cases profiles.find? fun profile => profile.name = name with
  | none => rfl
  | some profile => rfl

/-- The contents of a file that was written in UTF-8. -/
theorem fileText_of_bytes {text : String} (h : context.fileBytes path = .ok (Utf8.bytes text)) :
    context.fileText path = .ok text := by
  rw [Context.fileText, h, Except.map, Utf8.lossyText_bytes]

theorem find_eq_findUser (hp : context.expandHome? (file.resolvePath context) = some path)
    (stored : context.fileBytes path = .ok (Utf8.bytes (Profiles.render profiles))) :
    file.find context =
      findUser (PlainProfile.value? profiles (file.resolveProfile context)) context := by
  rw [ConfigFile.find, hp]
  simp only [fileText_of_bytes stored, Profiles.read?_render, profileUser?_toProfile]
  rfl

/-! ## The environment -/

theorem environmentUser?_eq (h : ∀ pair ∈ userVariables, context.var? pair.1 = value? pair.2) :
    environmentUser? context = userOf? value? := by
  simp only [userVariables, List.forall_mem_cons] at h
  obtain ⟨tenancy, user, fingerprint, keyFile, passphrase, region, -⟩ := h
  rw [environmentUser?, tenancy, user, fingerprint, keyFile, passphrase, region]
  rfl

theorem findInEnvironment_eq (h : ∀ pair ∈ userVariables, context.var? pair.1 = value? pair.2) :
    findInEnvironment context = findUser value? context := by
  rw [findInEnvironment, environmentUser?_eq h]
  rfl

/-- A credential depends on the files and the home directory only. -/
theorem credential_congr (files : other.files = context.files) (home : other.home? = context.home?)
    (principal : UserPrincipal) : principal.credential other = principal.credential context := by
  have expanded (path : String) : other.expandHome? path = context.expandHome? path := by
    rw [Context.expandHome?, Context.expandHome?, home]
  have text (path : String) : other.fileText path = context.fileText path := by
    rw [Context.fileText, Context.fileText, Context.fileBytes, Context.fileBytes, files]
  unfold UserPrincipal.credential KeySource.load
  cases principal.key with
  | document text => rfl
  | file path => simp only [fileKey, expanded, text]

theorem findUser_congr (files : other.files = context.files) (home : other.home? = context.home?)
    (value? : String → Option String) : findUser value? other = findUser value? context := by
  unfold findUser
  cases userOf? value? with
  | none => rfl
  | some principal => simp only [credential_congr files home]

/-! ## The three sources -/

theorem run_ofContext (find : Context → Except Error (Option Credential)) (now : Nat)
    (world : World σ) :
    (ofContext find).run now world = (.finished (find world.context), world) := rfl

/-- A user in a profile, a user given outright and a user in the environment who have the same
values have the same credential, or cause the same error; a profile that lacks a value names no
user, and neither do variables that lack it. -/
theorem user_sources_agree (file : ConfigFile) (context : Context) (profiles : List PlainProfile)
    (path : String) (hp : context.expandHome? (file.resolvePath context) = some path)
    (stored : context.fileBytes path = .ok (Utf8.bytes (Profiles.render profiles))) :
    let value? := PlainProfile.value? profiles (file.resolveProfile context)
    (file.find context = .ok none ↔ ∃ key ∈ neededKeys, value? key = none) ∧
    (∀ tenancy user fingerprint keyFile, value? "tenancy" = some tenancy →
      value? "user" = some user → value? "fingerprint" = some fingerprint →
      value? "key_file" = some keyFile →
      ∀ now (outside : σ), (configFile file).run now ⟨context, outside⟩ =
        (ofUser {
          tenancy, user, fingerprint
          key := .file keyFile
          passphrase := value? "pass_phrase"
          region := value? "region" }).run now ⟨context, outside⟩) ∧
    ∀ other : Context, other.files = context.files → other.home? = context.home? →
      (∀ pair ∈ userVariables, other.var? pair.1 = value? pair.2) →
      ∀ now (outside : σ), (environment.run now ⟨other, outside⟩).1 =
        ((configFile file).run now ⟨context, outside⟩).1 := by
  intro value?
  have found : file.find context = findUser value? context := find_eq_findUser hp stored
  refine ⟨?_, ?_, ?_⟩
  · rw [found]
    exact findUser_eq_none_iff
  · intro tenancy user fingerprint keyFile ht hu hf hk now outside
    have named : userOf? value? = some {
        tenancy, user, fingerprint
        key := .file keyFile
        passphrase := value? "pass_phrase"
        region := value? "region" } := by
      simp [userOf?, ht, hu, hf, hk]
    rw [configFile, ofUser, run_ofContext, run_ofContext, found, findUser, named]
  · intro other files home same now outside
    rw [environment, configFile, run_ofContext, run_ofContext, found,
      findInEnvironment_eq same, findUser_congr files home]

/-- A profile with marks in a value that mean something elsewhere. -/
def sampleProfile : PlainProfile where
  name := "DEFAULT"
  entries := [("user", "bob"), ("tenancy", "acme"), ("fingerprint", "aa:[b]=#;c"),
    ("key_file", "~/key.pem"), ("region", "us-ashburn-1")]
  isName := by decide
  isEntry := by decide

/-- A home directory with the profile and with no key file. -/
def sampleContext : Context where
  files := .ofFiles [("/home/.oci/config", Utf8.bytes (Profiles.render [sampleProfile]))]
  environment := { label := "Sample", entries := [], home := some (Utf8.bytes "/home") }

/-- The same with the values in variables. -/
def sampleVariables : Context where
  files := sampleContext.files
  environment := {
    sampleContext.environment with
    entries := [("OCI_TENANCY", "acme"), ("OCI_USER", "bob"), ("OCI_FINGERPRINT", "aa:[b]=#;c"),
      ("OCI_KEY_FILE", "~/key.pem"), ("OCI_REGION", "us-ashburn-1")] }

theorem user_sources_agree_sample :
    ConfigFile.find {} sampleContext ≠ .ok none ∧
    (configFile {}).run 0 ⟨sampleContext, ()⟩ =
      (ofUser {
        tenancy := "acme"
        user := "bob"
        fingerprint := "aa:[b]=#;c"
        key := .file "~/key.pem"
        region := some "us-ashburn-1" }).run 0 ⟨sampleContext, ()⟩ ∧
    (environment.run 0 ⟨sampleVariables, ()⟩).1 =
      ((configFile {}).run 0 ⟨sampleContext, ()⟩).1 := by
  obtain ⟨lacking, outright, named⟩ := @user_sources_agree Unit {} sampleContext
    [sampleProfile] "/home/.oci/config" (by decide) rfl
  exact ⟨fun h => absurd (lacking.1 h) (by decide),
    outright _ _ _ _ rfl rfl rfl rfl 0 (),
    named sampleVariables rfl rfl (by decide) 0 ()⟩

end Provider

end RequestAuth
