import RequestAuth.Proofs.Authorizer.Backing
import RequestAuth.Proofs.Authorizer.Overtaking
import RequestAuth.Proofs.Signing.Verification

/-!
# What an authorizer hands out can be verified

The service finds the key id and the signature in the authorization header, and the host and the
date beside it. With the public part of the private key of one credential that the provider gave,
it can verify that signature (`Verifies`). This holds of everything that an authorizer hands out,
whoever computed it and whatever was loaded in the meantime (`verifiable_of_reachable`). A signature
never keeps headers from being made: its text is printable (`headers_of_sign`).
-/

namespace RequestAuth

namespace Authorizer

open Source (Makes)

variable {σ : Type} {authorizer : Authorizer σ} {host : String} {dateAt : Nat → DateTime}
  {received : List Credential} {c : Scene σ}

/-- The header value names the key of the credential, and has a signature for the host and the date
that the public key verifies. -/
def Verifies (credential : Credential) (host value date : String) : Prop :=
  ∃ key text signature,
    Rsa.PrivateKey.ofText credential.privateKey credential.passphrase = .ok key ∧
      value = Signing.layout credential.keyId text ∧
        Signing.IsSignature key.publicKey host date text signature

theorem verifies_of_makes {credential : Credential} {entry : DatedSignature}
    (h : Makes dateAt host credential entry) :
    Verifies credential host entry.headerValue entry.date := by
  obtain ⟨key, now, hk, hs⟩ := h
  obtain ⟨signature, signed, he⟩ := Signing.sign_eq_ok hs
  refine ⟨key, Base64.encode signature, signature, credential.ofText_of_key? hk, ?_,
    Signing.isSignature_of_sign signed⟩
  rw [he]
  exact Signing.header_eq credential.keyId signature

theorem date_of_makes {credential : Credential} {entry : DatedSignature}
    (h : Makes dateAt host credential entry) :
    ∃ now, entry.date = HttpDate.render (dateAt now) := by
  obtain ⟨key, now, -, hs⟩ := h
  obtain ⟨signature, -, he⟩ := Signing.sign_eq_ok hs
  exact ⟨now, by rw [he]⟩

/-! ## Headers -/

theorem headerValue_eq_ok {text : String} {value : Bytes} (h : headerValue text = .ok value) :
    value = Utf8.bytes text := by
  unfold headerValue Http.value? at h
  split at h
  · next hv =>
    split at hv
    · cases hv
      cases h
      rfl
    · cases hv
  · cases h

theorem eq_ok_of_bind {ε α β : Type} {x : Except ε α} {f : α → Except ε β} {b : β}
    (h : x >>= f = .ok b) : ∃ a, x = .ok a ∧ f a = .ok b := by
  cases x with
  | error => cases h
  | ok a => exact ⟨a, rfl, h⟩

theorem headers_eq_ok {entry : DatedSignature} {compartment : String} {more : Http.Headers}
    (h : headers entry compartment = .ok more) :
    more = [("authorization", Utf8.bytes entry.headerValue), ("date", Utf8.bytes entry.date),
      (compartmentHeader, Utf8.bytes compartment)] := by
  obtain ⟨value, hv, h⟩ := eq_ok_of_bind h
  obtain ⟨date, hd, h⟩ := eq_ok_of_bind h
  obtain ⟨chosen, hc, h⟩ := eq_ok_of_bind h
  cases h
  rw [headerValue_eq_ok hv, headerValue_eq_ok hd, headerValue_eq_ok hc]

/-- A text of printable characters, which may stand in a header. -/
def IsPrintable (text : String) : Prop :=
  ∀ c ∈ text.toList, ' ' ≤ c ∧ c ≤ '~'

instance (text : String) : Decidable (IsPrintable text) :=
  List.decidableBAll _ _

theorem IsPrintable.append {a b : String} (ha : IsPrintable a) (hb : IsPrintable b) :
    IsPrintable (a ++ b) := by
  intro c hc
  rw [String.toList_append, List.mem_append] at hc
  exact hc.elim (ha c) (hb c)

theorem isValueByte_of_printable {c : Char} (h : ' ' ≤ c ∧ c ≤ '~') {b : UInt8}
    (hb : b ∈ String.utf8EncodeChar c) : Http.isValueByte b = true := by
  have low : 32 ≤ c.toNat := h.1
  have high : c.toNat ≤ 126 := h.2
  have single : String.utf8EncodeChar c = [UInt8.ofNat c.toNat] := if_pos (high.trans (by decide))
  rw [single, List.mem_singleton] at hb
  have value : b.toNat = c.toNat := by
    rw [hb, UInt8.toNat_ofNat']
    omega
  have blank : 32 ≤ b := UInt8.le_iff_toNat_le.2 (value ▸ low)
  have noDelete : b ≠ 127 := by
    rintro rfl
    have : 127 = c.toNat := value
    omega
  exact decide_eq_true (.inr ⟨blank, noDelete⟩)

theorem headerValue_of_isPrintable {text : String} (h : IsPrintable text) :
    headerValue text = .ok (Utf8.bytes text) := by
  have all : (Utf8.bytes text).all Http.isValueByte = true := by
    rw [Utf8.bytes, Utf8.encode, List.all_eq_true]
    intro b hb
    obtain ⟨c, hc, hb⟩ := List.mem_flatMap.1 hb
    exact isValueByte_of_printable (h c hc) hb
  have value : Http.value? (Utf8.bytes text) = some (Utf8.bytes text) := if_pos all
  rw [headerValue, value]

theorem isPrintable_encode (signature : Bytes) : IsPrintable (Base64.encode signature) := by
  have digits : ∀ n < 64, ' ' ≤ Base64.standard.digit n ∧ Base64.standard.digit n ≤ '~' := by
    decide
  intro c hc
  obtain rfl | ⟨n, hn, rfl⟩ := Base64.mem_encode hc
  · decide
  · exact digits n hn

theorem isPrintable_header {keyId : String} (h : IsPrintable keyId) (signature : Bytes) :
    IsPrintable (Signing.header keyId signature) := by
  have start : IsPrintable Signing.opening := by decide
  have named : IsPrintable _ :=
    (((start.append h).append (by decide : IsPrintable "\",algorithm=\"")).append
      (by decide : IsPrintable Signing.algorithm)).append (by decide : IsPrintable "\",")
  exact ((((named.append (by decide : IsPrintable Signing.signatureMark)).append
    (isPrintable_encode signature)).append (by decide : IsPrintable "\",version=\"")).append
      (by decide : IsPrintable Signing.version)).append (by decide : IsPrintable "\"")

/-- There are headers for each signature that is made, if the texts around it are printable. -/
theorem headers_of_sign {host keyId compartment : String} {key : Rsa.PrivateKey} {time : DateTime}
    {entry : DatedSignature} (h : Signing.sign host keyId key time = .ok entry)
    (hk : IsPrintable keyId) (hd : IsPrintable (HttpDate.render time))
    (hc : IsPrintable compartment) : ∃ more, headers entry compartment = .ok more := by
  obtain ⟨signature, -, rfl⟩ := Signing.sign_eq_ok h
  rw [headers, headerValue_of_isPrintable (isPrintable_header hk signature),
    headerValue_of_isPrintable hd, headerValue_of_isPrintable hc]
  exact ⟨_, rfl⟩

/-- The headers are those of a signature that one of the credentials verifies, of the date that it
covers, which is that of some instant, and of a compartment. -/
def VerifiableHeaders (dateAt : Nat → DateTime) (host : String) (received : List Credential)
    (more : Http.Headers) : Prop :=
  ∃ credential ∈ received, ∃ value now compartment,
    Verifies credential host value (HttpDate.render (dateAt now)) ∧
      more = [("authorization", Utf8.bytes value),
        ("date", Utf8.bytes (HttpDate.render (dateAt now))),
        (compartmentHeader, Utf8.bytes compartment)]

theorem verifiable_of_backedHeaders {compartment : Option String} {more : Http.Headers}
    (h : BackedHeaders dateAt host received compartment more) :
    VerifiableHeaders dateAt host received more := by
  obtain ⟨entry, chosen, ⟨credential, hc, makes⟩, hm, -⟩ := h
  obtain ⟨now, date⟩ := date_of_makes makes
  refine ⟨credential, hc, entry.headerValue, now, chosen, ?_, ?_⟩
  · rw [← date]
    exact verifies_of_makes makes
  · rw [← date]
    exact headers_eq_ok hm

/-! ## Runs -/

/-- Whatever was handed out can be verified, and what is kept belongs together. -/
structure Verifiable (authorizer : Authorizer σ) (host : String) (c : Scene σ) : Prop where
  value : ∀ r ∈ c.told, ∀ value, r.answer = .authorization (.ok (some value)) ∨
    r.answer = .collected (some (some (.ok (some value)))) →
      ∃ credential ∈ r.received, ∃ now,
        Verifies credential host value (HttpDate.render (authorizer.dateAt now))
  headers : ∀ r ∈ c.told, ∀ more, r.answer = .headers (.ok (some more)) →
    VerifiableHeaders authorizer.dateAt host r.received more
  signed : ∀ r ∈ c.told, ∀ request, r.answer = .signed (.ok ()) request →
    request = r.action.request ∨ ∃ more, request = r.action.request.setAll more ∧
      VerifiableHeaders authorizer.dateAt host r.received more
  /-- The credentials that were received when an answer was given are among those by now. -/
  earlier : ∀ r ∈ c.told, r.received <:+ c.state.outside.received
  loaded : c.state.outside.holder.current.isSome = c.state.outside.credential.isSome
  key : ∀ credential key, c.state.outside.credential = some credential →
    c.state.outside.holder.current = some key →
      Rsa.PrivateKey.ofText credential.privateKey credential.passphrase = .ok key
  /-- A load that fails leaves the credential and the key as they are. -/
  failed : ∀ now e source',
    (Source.load authorizer.provider).complete now c.state.outside = (.error e, source') →
      Source.kept source' = Source.kept c.state.outside
  /-- Also among others, no load changes them but by a credential that can be signed with. -/
  upToDate : c.state.outside.UpToDate

theorem verifiable_of_reachable (hh : authorizer.host = some host)
    (h : Reachable authorizer c) : Verifiable authorizer host c := by
  have sound := sound_of_reachable hh h
  have fresh := sound.upToDate
  refine ⟨fun r hr value hv => ?_, fun r hr more hm => ?_, fun r hr request hq => ?_,
    fun r hr => (sound.told r hr).2, fresh.isSome_eq, fun credential key hc hk => ?_,
    fun now e source' => Source.load_error, fresh⟩
  · obtain ⟨entry, ⟨credential, hc, makes⟩, rfl⟩ := (sound.told r hr).1.value value hv
    obtain ⟨now, date⟩ := date_of_makes makes
    exact ⟨credential, hc, now, date ▸ verifies_of_makes makes⟩
  · exact verifiable_of_backedHeaders ((sound.told r hr).1.headers more hm)
  · exact ((sound.told r hr).1.signed request hq).imp_right fun ⟨more, he, backed⟩ =>
      ⟨more, he, verifiable_of_backedHeaders backed⟩
  · rw [fresh.key, hc] at hk
    exact credential.ofText_of_key? hk

/-! ## A small authorizer -/

/-- The numbers of a key with a modulus of 512 bits. -/
def sampleNumbers : Rsa.KeyNumbers :=
  let p := 0xd86b3d390e50d70b1d1517855d31a6f5aaecb71028aaf9a436f33beac02ebd0d
  let q := 0xf222ddf705b80ebcf56b6949f84e3363418f118a862f4909efd1c3e27f2a01b9
  { modulus := p * q
    publicExponent := 65537
    privateExponent :=
      0x4caac80900886a24e4aece55e4986ac3c4cb32934c4848be6b7c3755a90097c4 * 2 ^ 256 +
        0xdbb893808b5c8d4c37ec701a0f8e066b40359a89d42b8e2fd44346e91a774541
    factor₁ := p
    factor₂ := q }

/-- The key with those numbers. -/
def sampleKey : Rsa.PrivateKey := ⟨sampleNumbers, by decide +kernel⟩

/-- The text of that key. -/
def sampleText : String := String.ofList (Pem.write Rsa.sequenceLabel (sampleNumbers.write 0 0 0))

theorem ofText_sampleText : (Rsa.PrivateKey.ofText sampleText none).toOption = some sampleKey := by
  rw [sampleText, Rsa.PrivateKey.ofText, String.toList_ofList]
  decide +kernel

/-- A user with that key. -/
def sampleUser : Credential where
  keyId := Credential.userKeyId "tenancy" "user" "fingerprint"
  privateKey := sampleText
  tenancy := some "tenancy"

/-- An instance with the same key. -/
def sampleInstance : Credential where
  kind := .instancePrincipal
  keyId := Credential.tokenKeyId "token"
  privateKey := sampleText

theorem key?_of_sampleText {credential : Credential} (named : credential.keyId ≠ "")
    (text : credential.privateKey = sampleText) (plain : credential.passphrase = none) :
    credential.key? = some sampleKey := by
  have full : sampleText ≠ "" := by
    intro he
    have read := ofText_sampleText
    rw [he] at read
    revert read
    decide
  have usable : credential.isUsable = true := by simp [Credential.isUsable, named, text, full]
  rw [Credential.key?, usable, text, plain]
  exact ofText_sampleText

/-- What the time always is. -/
def sampleTime : DateTime := (DateTime.ofUnix? 1 0).get (by decide)

/-- An authorizer whose provider takes ten seconds to give the user the first time, and gives the
instance at once after that. -/
def sample : Authorizer Bool where
  provider := .act (fun world => { world with outside := true }) fun world =>
    if world.outside then .done (.ok (some sampleInstance))
    else .wait (Duration.ofSeconds 10) (.done (.ok (some sampleUser)))
  dateAt _ := sampleTime
  settings := { Settings.default with serviceHost := some "host" }
  isValid := by decide

theorem sign_sampleInstance :
    ∃ entry, Signing.sign "host" sampleInstance.keyId sampleKey sampleTime = .ok entry := by
  have signed : (Signing.sign "host" sampleInstance.keyId sampleKey sampleTime).toBool = true := by
    decide +kernel
  cases hs : Signing.sign "host" sampleInstance.keyId sampleKey sampleTime with
  | ok entry => exact ⟨entry, rfl⟩
  | error e =>
    rw [hs] at signed
    cases signed

/-- The user's load ends when the signature of the instance has been stored. -/
theorem exists_sampleHeaders :
    ∃ c entry more, Reachable sample c ∧ Makes sample.dateAt "host" sampleInstance entry ∧
      headers entry "tenancy" = .ok more ∧
      ⟨.authorize none, .headers (.ok (some more)), [sampleUser, sampleInstance]⟩ ∈ c.told := by
  have hk : sampleInstance.key? = some sampleKey := key?_of_sampleText (by decide) rfl rfl
  have hk' : sampleUser.key? = some sampleKey := key?_of_sampleText (by decide) rfl rfl
  obtain ⟨entry, signed⟩ := sign_sampleInstance
  obtain ⟨more, hm⟩ : ∃ more, headers entry "tenancy" = .ok more :=
    headers_of_sign signed (by decide) (by decide +kernel) (by decide)
  obtain ⟨c, reached, told⟩ := @exists_mixedHeaders _ sample "host" _ _ _ _ entry ⟨{}, false⟩ _ _ _
    _ _ "tenancy" rfl rfl (by decide) rfl hk signed rfl hk' rfl
  rw [hm] at told
  exact ⟨c, entry, more, reached, ⟨sampleKey, 0, hk, signed⟩, hm, told⟩

/-- Headers are handed out after two loads have overtaken each other. -/
theorem verifiable_sample :
    ∃ c : Scene Bool, (∃ r ∈ c.told, ∃ more, r.answer = .headers (.ok (some more))) ∧
      Verifiable sample "host" c := by
  obtain ⟨c, -, more, reached, -, -, told⟩ := exists_sampleHeaders
  exact ⟨c, ⟨_, told, more, rfl⟩, verifiable_of_reachable rfl reached⟩

end Authorizer

end RequestAuth
