import RequestAuth.Proofs.Authorizer.Verifiable
import RequestAuth.Proofs.Text.Utf8

/-!
# Whose compartment a request is about

Without a compartment of its own, a request is about that of the principal. The signature comes from
the cache, though, and the compartment from the credential that is kept, which is the latest that
can be signed with; a load whose signature is not stored changes the one and not the other. So the
compartment is the tenancy of a user in any case, and that of the user who signed if no other
credential has been accepted since (`defaultCompartments_of_reachable`). If one has been, headers
may have the signature of an instance and the tenancy of a user (`exists_headers_not_ofOneUser`).
-/

namespace RequestAuth.Authorizer

open Source (latest?)

variable {σ : Type} {authorizer : Authorizer σ} {host : String} {dateAt : Nat → DateTime}
  {received newer older : List Credential} {credential : Credential} {c : Scene σ}

theorem defaultCompartment_eq_some {compartment : String}
    (h : credential.defaultCompartment = some compartment) :
    credential.kind = .user ∧ credential.tenancy = some compartment := by
  unfold Credential.defaultCompartment at h
  split at h
  · next hk => exact ⟨hk, h⟩
  · cases h
  · cases h

/-- Behind credentials that cannot be signed with, the latest is the next one. -/
theorem latest?_append (unusable : ∀ other ∈ newer, other.key? = none)
    (usable : credential.key? ≠ none) :
    latest? (newer ++ credential :: older) = some credential := by
  have skip : newer.find? (·.key?.isSome) = none := by
    simpa [List.find?_eq_none] using unusable
  have take : credential.key?.isSome = true := Option.isSome_iff_ne_none.2 usable
  rw [latest?, List.find?_append, skip, Option.none_or]
  exact List.find?_cons_of_pos take

/-- The headers are about the tenancy of the latest credential that can be signed with, which is a
user's, and is the one that signed if that is the latest. -/
def AboutTenancy (host : String) (received : List Credential) (more : Http.Headers) : Prop :=
  ∃ newer credential older latest value date tenancy,
    received = newer ++ credential :: older ∧ Verifies credential host value date ∧
      more = [("authorization", Utf8.bytes value), ("date", Utf8.bytes date),
        (compartmentHeader, Utf8.bytes tenancy)] ∧
      latest? received = some latest ∧ latest.kind = .user ∧ latest.tenancy = some tenancy ∧
      ((∀ other ∈ newer, other.key? = none) → latest = credential)

theorem aboutTenancy_of_backedHeaders {more : Http.Headers}
    (h : BackedHeaders dateAt host received none more) : AboutTenancy host received more := by
  obtain ⟨entry, tenancy, ⟨credential, hc, makes⟩, hm, chosen⟩ := h
  obtain ⟨newer, older, rfl⟩ := List.append_of_mem hc
  obtain ⟨latest, hl, hd⟩ := Option.bind_eq_some_iff.1 chosen
  obtain ⟨user, ht⟩ := defaultCompartment_eq_some hd
  refine ⟨newer, credential, older, latest, entry.headerValue, entry.date, tenancy, rfl,
    verifies_of_makes makes, headers_eq_ok hm, hl, user, ht, fun unusable => ?_⟩
  obtain ⟨key, -, hk, -⟩ := makes
  have usable : credential.key? ≠ none := by simp [hk]
  exact Option.some.inj (hl.symm.trans (latest?_append unusable usable))

/-- Whatever headers are handed out for a request without a compartment. -/
structure DefaultCompartments (host : String) (c : Scene σ) : Prop where
  headers : ∀ r ∈ c.told, r.action.compartment = none → ∀ more,
    r.answer = .headers (.ok (some more)) → AboutTenancy host r.received more
  signed : ∀ r ∈ c.told, r.action.compartment = none → ∀ request,
    r.answer = .signed (.ok ()) request →
      request = r.action.request ∨ ∃ more, request = r.action.request.setAll more ∧
        AboutTenancy host r.received more

theorem defaultCompartments_of_reachable (hh : authorizer.host = some host)
    (h : Reachable authorizer c) : DefaultCompartments host c := by
  have sound := sound_of_reachable hh h
  refine ⟨fun r hr hc more hm => ?_, fun r hr hc request hq => ?_⟩
  · have backed := (sound.told r hr).1.headers more hm
    rw [hc] at backed
    exact aboutTenancy_of_backedHeaders backed
  · have backed := (sound.told r hr).1.signed request hq
    rw [hc] at backed
    exact backed.imp_right fun ⟨more, he, backed⟩ =>
      ⟨more, he, aboutTenancy_of_backedHeaders backed⟩

/-- Headers are handed out after two loads have overtaken each other. -/
theorem defaultCompartments_sample :
    ∃ c : Scene Bool, (∃ r ∈ c.told, r.action.compartment = none ∧
        ∃ more, r.answer = .headers (.ok (some more))) ∧
      DefaultCompartments "host" c := by
  obtain ⟨c, -, more, reached, -, -, told⟩ := exists_sampleHeaders
  exact ⟨c, ⟨_, told, rfl, more, rfl⟩, defaultCompartments_of_reachable rfl reached⟩

/-! ## Headers of two principals -/

/-- The headers have the signature and the tenancy of one user. -/
def OfOneUser (host : String) (received : List Credential) (more : Http.Headers) : Prop :=
  ∃ user ∈ received, ∃ value date tenancy, Verifies user host value date ∧
    more = [("authorization", Utf8.bytes value), ("date", Utf8.bytes date),
      (compartmentHeader, Utf8.bytes tenancy)] ∧ user.kind = .user ∧ user.tenancy = some tenancy

theorem layout_sampleInstance_ne (text text' : String) :
    Signing.layout sampleInstance.keyId text ≠ Signing.layout sampleUser.keyId text' := by
  intro he
  obtain ⟨rest, hs⟩ := Signing.opening_prefix_layout sampleInstance.keyId text
  obtain ⟨rest', ht⟩ := Signing.opening_prefix_layout sampleUser.keyId text'
  rw [he, ← ht, List.append_assoc, List.append_assoc] at hs
  have keyIds := List.append_cancel_left hs
  have first : sampleInstance.keyId.toList = 'S' :: "T$token".toList := by decide
  have first' : sampleUser.keyId.toList = 't' :: "enancy/user/fingerprint".toList := by decide
  rw [first, first'] at keyIds
  cases keyIds

/-- The instance has signed, and the tenancy is that of the user. -/
theorem exists_headers_not_ofOneUser :
    ∃ c, Reachable sample c ∧ ∃ r ∈ c.told, r.action.compartment = none ∧
      ∃ more, r.answer = .headers (.ok (some more)) ∧ ¬ OfOneUser "host" r.received more := by
  obtain ⟨c, entry, more, reached, makes, hm, told⟩ := exists_sampleHeaders
  refine ⟨c, reached, _, told, rfl, more, rfl, ?_⟩
  rintro ⟨user, hu, value, date, tenancy, ⟨key, text, signature, -, rfl, -⟩, he, kind, -⟩
  obtain ⟨-, text', -, -, layout, -⟩ := verifies_of_makes makes
  rw [headers_eq_ok hm, layout] at he
  have same := Utf8.bytes_injective (Prod.mk.inj (List.cons.inj he).1).2
  -- the user has another key id than the one that is sent, and the instance is no user
  obtain rfl | rfl := List.mem_pair.1 hu
  · exact layout_sampleInstance_ne _ _ same
  · cases kind

end RequestAuth.Authorizer
