import RequestAuth.Proofs.Ensures
import RequestAuth.Proofs.Provider.UserSources
import RequestAuth.Proofs.Text.Blank
import RequestAuth.Provider.Resource

/-!
# Values in variables and values in files

The token, the private key and the passphrase of a resource are each in a variable, or in a file
with blanks around it that the variable names (`Provider.Delivers`). Where they are makes no
difference: what the provider finds depends on the values only (`Provider.findResource_of_offered`).
It keeps nothing from one time to the next, so that it finds what the files hold each time
(`Provider.values_interchangeable`).
-/

namespace RequestAuth.Provider

variable {σ : Type} {context : Context} {given value : String}

/-! ## One value -/

/-- A text with no blank at either end, and which is no absolute path. -/
structure IsPlainValue (text : String) : Prop where
  /-- The first character is no blank. -/
  first : ∀ c ∈ text.toList.head?, ¬ Text.isBlank c
  /-- The last character is no blank. -/
  last : ∀ c ∈ text.toList.getLast?, ¬ Text.isBlank c
  /-- The first character is no slash. -/
  relative : ∀ c ∈ text.toList.head?, c ≠ '/'

instance (text : String) : Decidable (IsPlainValue text) :=
  decidable_of_iff (text.toList.head?.all (fun c => ¬ Text.isBlank c ∧ c ≠ '/') ∧
    text.toList.getLast?.all (fun c => ¬ Text.isBlank c)) <| by
    simp only [Option.all_eq_true, decide_eq_true_eq]
    exact ⟨fun h => ⟨fun c hc => (h.1 c hc).1, h.2, fun c hc => (h.1 c hc).2⟩,
      fun h => ⟨fun c hc => ⟨h.first c hc, h.relative c hc⟩, h.last⟩⟩

/-- A text delivers a value: it is the value, or the absolute path of a file with the value between
blanks. -/
inductive Delivers (context : Context) : String → String → Prop
  | inline (value : String) : Delivers context value value
  | file {path value : String} (before after : String) (absolute : path.toList.head? = some '/')
    (blank : ∀ c ∈ (before ++ after).toList, Text.isBlank c)
    (stored : context.fileBytes path = .ok (Utf8.bytes (before ++ value ++ after))) :
    Delivers context path value

theorem valueOrFile_of_relative (h : ∀ c ∈ given.toList.head?, c ≠ '/') :
    valueOrFile context given = .ok given := by
  unfold valueOrFile
  split
  · rename_i rest absolute
    exact absurd rfl (h '/' (by rw [absolute]; rfl))
  · rfl

theorem valueOrFile_of_absolute (h : given.toList.head? = some '/') {text : String}
    (stored : context.fileText given = .ok text) :
    valueOrFile context given = .ok (String.ofList (Text.trim text.toList)) := by
  unfold valueOrFile
  split
  · rw [stored]
  · rename_i relative
    obtain ⟨rest, absolute⟩ := List.head?_eq_some_iff.1 h
    exact absurd absolute (relative rest)

/-- What is delivered is found. -/
theorem valueOrFile_of_delivers (h : Delivers context given value) (plain : IsPlainValue value) :
    valueOrFile context given = .ok value := by
  cases h with
  | inline => exact valueOrFile_of_relative plain.relative
  | file before after absolute blank stored =>
    rw [String.toList_append, List.forall_mem_append] at blank
    rw [valueOrFile_of_absolute absolute (fileText_of_bytes stored), String.toList_append,
      String.toList_append, Text.trim_append blank.1 blank.2 plain.first plain.last,
      String.ofList_toList]

/-! ## All values -/

/-- What a resource signs with. -/
structure ResourceValues where
  /-- The session token. -/
  token : String
  /-- The private key document. -/
  privateKey : String
  /-- The passphrase of the private key, if it is encrypted. -/
  passphrase : Option String
  /-- The region of the resource. -/
  region : Option String

namespace ResourceValues

variable {values : ResourceValues}

/-- The credential with the values, or an error if the token has no claims that can be read. -/
def answer (values : ResourceValues) : Except Error (Option Credential) :=
  (tokenClaims values.token).map fun claims => some {
    kind := .resourcePrincipal
    keyId := Credential.tokenKeyId values.token
    privateKey := values.privateKey
    passphrase := values.passphrase
    region := values.region
    claims }

/-- All values are plain but the region, which is never in a file. -/
structure IsPlain (values : ResourceValues) : Prop where
  token : IsPlainValue values.token
  privateKey : IsPlainValue values.privateKey
  passphrase : ∀ text ∈ values.passphrase, IsPlainValue text

/-- The variables of the environment deliver the values, each in one of both ways. -/
structure Offered (values : ResourceValues) (context : Context) : Prop where
  version : context.var? "OCI_RESOURCE_PRINCIPAL_VERSION" = some resourceVersion
  token : ∃ given, context.var? "OCI_RESOURCE_PRINCIPAL_RPST" = some given ∧
    Delivers context given values.token
  privateKey : ∃ given, context.var? "OCI_RESOURCE_PRINCIPAL_PRIVATE_PEM" = some given ∧
    Delivers context given values.privateKey
  passphrase : Option.Rel (Delivers context)
    (context.var? "OCI_RESOURCE_PRINCIPAL_PRIVATE_PEM_PASSPHRASE") values.passphrase
  region : context.var? "OCI_RESOURCE_PRINCIPAL_REGION" = values.region

/-- The variables of the environment are the values. -/
structure Inline (values : ResourceValues) (context : Context) : Prop where
  version : context.var? "OCI_RESOURCE_PRINCIPAL_VERSION" = some resourceVersion
  token : context.var? "OCI_RESOURCE_PRINCIPAL_RPST" = some values.token
  privateKey : context.var? "OCI_RESOURCE_PRINCIPAL_PRIVATE_PEM" = some values.privateKey
  passphrase : context.var? "OCI_RESOURCE_PRINCIPAL_PRIVATE_PEM_PASSPHRASE" = values.passphrase
  region : context.var? "OCI_RESOURCE_PRINCIPAL_REGION" = values.region

theorem Inline.offered (h : values.Inline context) : values.Offered context where
  version := h.version
  token := ⟨_, h.token, .inline _⟩
  privateKey := ⟨_, h.privateKey, .inline _⟩
  passphrase := by
    rw [h.passphrase]
    cases values.passphrase with
    | none => exact .none
    | some text => exact .some (.inline text)
  region := h.region

end ResourceValues

theorem optionalValueOrFile_of_delivers {given value : Option String}
    (h : Option.Rel (Delivers context) given value) (plain : ∀ text ∈ value, IsPlainValue text) :
    optionalValueOrFile context given = .ok value := by
  cases h with
  | none => rfl
  | some h => rw [optionalValueOrFile, valueOrFile_of_delivers h (plain _ rfl), Except.map]

/-- What is found depends on the values only. -/
theorem findResource_of_offered {values : ResourceValues} (h : values.Offered context)
    (plain : values.IsPlain) : findResource context = values.answer := by
  obtain ⟨rpst, token, ht⟩ := h.token
  obtain ⟨pem, privateKey, hk⟩ := h.privateKey
  have passphrase := optionalValueOrFile_of_delivers h.passphrase plain.passphrase
  have version : ¬ resourceVersion ≠ resourceVersion := fun differ => differ rfl
  simp only [findResource, h.version, if_neg version, requiredVariable, token, privateKey, h.region,
    passphrase, bind, Except.bind, valueOrFile_of_delivers ht plain.token,
    valueOrFile_of_delivers hk plain.privateKey]
  rw [ResourceValues.answer]
  cases tokenClaims values.token with
  | error e => rfl
  | ok claims => rfl

/-! ## Files that change -/

/-- Asks for the resource after each change of the files. -/
def rereads : List FileReader → Routine (World σ) (List (Except Error (Option Credential)))
  | [] => .done []
  | files :: changes => .act (fun world => { world with context.files := files }) fun _ =>
    resource.bind fun answer => (rereads changes).bind fun answers => .done (answer :: answers)

/-- Each time that is found which is there. -/
theorem complete_rereads (changes : List FileReader) (now : Nat) (context : Context) (outside : σ) :
    ((rereads changes).complete now ⟨context, outside⟩).1 =
      changes.map fun files => findResource { context with files } := by
  induction changes generalizing context with
  | nil => rfl
  | cons files changes ih =>
    have first : ((rereads (files :: changes)).complete now ⟨context, outside⟩).1 =
        findResource { context with files } ::
          ((rereads changes).complete now ⟨{ context with files }, outside⟩).1 := by
      rw [rereads, Routine.complete, Routine.complete_bind, Routine.complete_bind]
      rfl
    rw [first, ih, List.map_cons]

/-- A resource is found in the same way wherever its values are, with all of them or with what is
wrong with the token; and of files that change those count that are there at the time. -/
theorem values_interchangeable :
    (∀ (values : ResourceValues) (context inline : Context), values.IsPlain →
      values.Offered context → values.Inline inline → ∀ now (outside : σ),
      (resource.run now ⟨context, outside⟩).1 = (resource.run now ⟨inline, outside⟩).1 ∧
      resource.run now ⟨context, outside⟩ = (.finished values.answer, ⟨context, outside⟩)) ∧
    ∀ (context : Context) (changes : List FileReader) (i : Nat) (files : FileReader)
      (values : ResourceValues), changes[i]? = some files → values.IsPlain →
      values.Offered { context with files } → ∀ now (outside : σ),
      ((rereads changes).complete now ⟨context, outside⟩).1[i]? = some values.answer := by
  constructor
  · intro values context inline plain offered given now outside
    have found := findResource_of_offered offered plain
    have same := findResource_of_offered given.offered plain
    rw [resource, run_ofContext, run_ofContext, found, same]
    exact ⟨rfl, rfl⟩
  · intro context changes i files values there plain offered now outside
    rw [complete_rereads, List.getElem?_map, there, Option.map_some,
      findResource_of_offered offered plain]

/-- Values of a resource with the given token. -/
def sampleValues (token : String) : ResourceValues :=
  ⟨token, "key", some "\"pass word\"", some "us-ashburn-1"⟩

theorem isPlain_sampleValues {token : String} (h : IsPlainValue token) :
    (sampleValues token).IsPlain where
  token := h
  privateKey := show IsPlainValue "key" by decide
  passphrase := by
    rintro text ⟨⟩
    decide

/-- Files with a token and a passphrase between blanks. -/
def sampleFiles (token : String) : FileReader :=
  .ofFiles [("/rpst", Utf8.bytes ("\n\u3000" ++ token ++ "\r\n")),
    ("/secret", Utf8.bytes "\t\"pass word\"\u2028")]

/-- Variables two of which name those files. -/
def samplePaths : Environment where
  label := "Sample"
  entries := [("OCI_RESOURCE_PRINCIPAL_VERSION", "2.2"), ("OCI_RESOURCE_PRINCIPAL_RPST", "/rpst"),
    ("OCI_RESOURCE_PRINCIPAL_PRIVATE_PEM", "key"),
    ("OCI_RESOURCE_PRINCIPAL_PRIVATE_PEM_PASSPHRASE", "/secret"),
    ("OCI_RESOURCE_PRINCIPAL_REGION", "us-ashburn-1")]
  home := none

theorem offered_samplePaths (token : String) :
    (sampleValues token).Offered ⟨sampleFiles token, samplePaths⟩ where
  version := rfl
  token := ⟨"/rpst", rfl, .file "\n\u3000" "\r\n" rfl (List.all_eq_true.1 rfl) rfl⟩
  privateKey := ⟨"key", rfl, .inline "key"⟩
  passphrase := .some (.file "\t" "\u2028" rfl (List.all_eq_true.1 rfl) rfl)
  region := rfl

/-- Variables with the values themselves. -/
def inlineEnvironment : Environment where
  label := "Sample"
  entries := [("OCI_RESOURCE_PRINCIPAL_VERSION", "2.2"),
    ("OCI_RESOURCE_PRINCIPAL_RPST", "h.e30.s"), ("OCI_RESOURCE_PRINCIPAL_PRIVATE_PEM", "key"),
    ("OCI_RESOURCE_PRINCIPAL_PRIVATE_PEM_PASSPHRASE", "\"pass word\""),
    ("OCI_RESOURCE_PRINCIPAL_REGION", "us-ashburn-1")]
  home := none

theorem values_interchangeable_sample :
    (resource.run 0 ⟨⟨sampleFiles "h.e30.s", samplePaths⟩, ()⟩).1 =
      (resource.run 0 ⟨⟨.none, inlineEnvironment⟩, ()⟩).1 ∧
    ((rereads [sampleFiles "h.e30.s", sampleFiles "h.e30"]).complete 0
      ⟨⟨.none, samplePaths⟩, ()⟩).1[1]? = some (sampleValues "h.e30").answer := by
  obtain ⟨inline, changed⟩ := @values_interchangeable Unit
  have same := inline (sampleValues "h.e30.s") ⟨sampleFiles "h.e30.s", samplePaths⟩
    ⟨.none, inlineEnvironment⟩
    (isPlain_sampleValues (by decide)) (offered_samplePaths "h.e30.s")
    ⟨rfl, rfl, rfl, rfl, rfl⟩ 0 ()
  exact ⟨same.1, changed ⟨.none, samplePaths⟩ [sampleFiles "h.e30.s", sampleFiles "h.e30"] 1
    (sampleFiles "h.e30") (sampleValues "h.e30") rfl
    (isPlain_sampleValues (by decide)) (offered_samplePaths "h.e30") 0 ()⟩

example : (sampleValues "h.e30.s").answer = .ok (some {
    kind := .resourcePrincipal, keyId := "ST$h.e30.s", privateKey := "key"
    passphrase := some "\"pass word\"", region := some "us-ashburn-1" }) := by
  cbv

example : (sampleValues "h.e30").answer = .error .malformedToken := rfl

end RequestAuth.Provider
