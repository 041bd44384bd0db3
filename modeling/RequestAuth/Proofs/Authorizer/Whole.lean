import RequestAuth.Proofs.Authorizer.Hostless
import RequestAuth.Proofs.Authorizer.Verifiable
import RequestAuth.Proofs.Date.HttpDate
import RequestAuth.Proofs.Http.Header
import RequestAuth.Proofs.SignatureCache.Ahead

/-!
# Requests are signed whole or not at all

Headers are made for a signature and a compartment one after the other, and are set only once all of
them are there. So a request that is not signed stays as it is, and one that is signed has each of
the three headers once, whatever it had before (`Carries`). Where there is a signature, headers
cannot be made for want of a compartment, or because the key id or the compartment has a byte that
no header may have; the date of a signature is always printable (`Settled`).
-/

namespace RequestAuth.Authorizer

open Source (Makes Vouched UpToDate)

variable {σ : Type} {authorizer : Authorizer σ} {host : String} {dateAt : Nat → DateTime}
  {s s' : State σ} {c c' : Scene σ} {entry : DatedSignature} {compartment : Option String}

/-! ## Texts that may be values of headers -/

/-- Each byte of the text may stand in the value of a header. -/
def IsHeaderText (text : String) : Prop :=
  ∀ b ∈ Utf8.bytes text, Http.isValueByte b = true

instance (text : String) : Decidable (IsHeaderText text) :=
  List.decidableBAll _ _

theorem IsPrintable.isHeaderText {text : String} (h : IsPrintable text) : IsHeaderText text := by
  intro b hb
  obtain ⟨c, hc, hb⟩ := List.mem_flatMap.1 hb
  exact isValueByte_of_printable (h c hc) hb

theorem isHeaderText_append (a b : String) :
    IsHeaderText (a ++ b) ↔ IsHeaderText a ∧ IsHeaderText b := by
  have bytes : Utf8.bytes (a ++ b) = Utf8.bytes a ++ Utf8.bytes b := by
    simp [Utf8.bytes, Utf8.encode]
  unfold IsHeaderText
  rw [bytes]
  exact List.forall_mem_append

theorem headerValue_eq (text : String) :
    headerValue text =
      if IsHeaderText text then .ok (Utf8.bytes text) else .error .malformedHeaderValue := by
  unfold headerValue Http.value?
  by_cases h : IsHeaderText text
  · have all : (Utf8.bytes text).all Http.isValueByte = true := List.all_eq_true.2 h
    rw [if_pos h, if_pos all]
  · have some : ¬ (Utf8.bytes text).all Http.isValueByte = true := mt List.all_eq_true.1 h
    rw [if_neg h, if_neg some]

/-- All that stands around the key id in an authorization header is printable. -/
theorem isHeaderText_header (keyId : String) (signature : Bytes) :
    IsHeaderText (Signing.header keyId signature) ↔ IsHeaderText keyId := by
  have text {a : String} (h : IsPrintable a) : IsHeaderText a := h.isHeaderText
  have encoded : IsHeaderText (Base64.encode signature) := text (isPrintable_encode signature)
  have opening : IsHeaderText Signing.opening := text (by decide)
  have algorithm : IsHeaderText "\",algorithm=\"" := text (by decide)
  have algorithm' : IsHeaderText Signing.algorithm := text (by decide)
  have comma : IsHeaderText "\"," := text (by decide)
  have mark : IsHeaderText Signing.signatureMark := text (by decide)
  have version : IsHeaderText "\",version=\"" := text (by decide)
  have version' : IsHeaderText Signing.version := text (by decide)
  have quote : IsHeaderText "\"" := text (by decide)
  change IsHeaderText (Signing.opening ++ keyId ++ _ ++ _ ++ _ ++ _ ++ _ ++ _ ++ _ ++ _) ↔ _
  simp only [isHeaderText_append, opening, algorithm, algorithm', comma, mark, encoded, version,
    version', quote, true_and, and_true]

/-! ## Headers for a signature -/

/-- The three headers, each with its whole value. -/
def headersFor (entry : DatedSignature) (chosen : String) : Http.Headers :=
  [("authorization", Utf8.bytes entry.headerValue), ("date", Utf8.bytes entry.date),
    (compartmentHeader, Utf8.bytes chosen)]

theorem headers_eq (date : IsHeaderText entry.date) (chosen : String) :
    headers entry chosen =
      if IsHeaderText entry.headerValue ∧ IsHeaderText chosen then .ok (headersFor entry chosen)
      else .error .malformedHeaderValue := by
  unfold headers
  rw [headerValue_eq, headerValue_eq, headerValue_eq, if_pos date]
  by_cases value : IsHeaderText entry.headerValue
  · by_cases about : IsHeaderText chosen
    · rw [if_pos value, if_pos about, if_pos ⟨value, about⟩]
      rfl
    · rw [if_pos value, if_neg about, if_neg fun h => about h.2]
      rfl
  · rw [if_neg value, if_neg (mt And.left value)]
    rfl

/-- The compartment of a request: the one given, else the one that the credential kept has. -/
def compartmentFor (compartment : Option String) (s : State σ) : Option String :=
  compartment <|> s.outside.credential.bind Credential.defaultCompartment

theorem chooseCompartment_eq (compartment : Option String) (s : State σ) :
    chooseCompartment compartment s = match compartmentFor compartment s with
      | some chosen => .ok chosen
      | none => .error .noCompartment :=
  rfl

/-- The request has the three headers of the signature and the compartment, each of them once, and
is otherwise as it was. -/
structure Carries (entry : DatedSignature) (chosen : String) (request request' : Http.Headers) :
    Prop where
  authorization : request'.values "authorization" = [Utf8.bytes entry.headerValue]
  date : request'.values "date" = [Utf8.bytes entry.date]
  compartment : request'.values compartmentHeader = [Utf8.bytes chosen]
  others : ∀ name, name ≠ "authorization" → name ≠ "date" → name ≠ compartmentHeader →
    request'.values name = request.values name

theorem carries_setAll (entry : DatedSignature) (chosen : String) (request : Http.Headers) :
    Carries entry chosen request (request.setAll (headersFor entry chosen)) := by
  have distinct : ((headersFor entry chosen).map Prod.fst).Nodup := by
    simp [headersFor, compartmentHeader]
  refine ⟨?_, ?_, ?_, fun name authorization date compartment => ?_⟩
  · exact Http.Headers.values_setAll_of_mem distinct (by simp [headersFor])
  · exact Http.Headers.values_setAll_of_mem distinct (by simp [headersFor])
  · exact Http.Headers.values_setAll_of_mem distinct (by simp [headersFor])
  · apply Http.Headers.values_setAll_of_ne
    simp [headersFor, authorization, date, compartment]

/-! ## Setting them -/

/-- What becomes of a request, given the headers that there are for it. -/
def settle (request : Http.Headers) :
    Except Error (Option Http.Headers) → Except Error Unit × Http.Headers
  | .error e => (.error e, request)
  | .ok none => (.ok (), request)
  | .ok (some more) => (.ok (), request.setAll more)

theorem settle_eq_error {request : Http.Headers} {answer : Except Error (Option Http.Headers)}
    {e : Error} : (settle request answer).1 = .error e ↔ answer = .error e := by
  cases answer with
  | error e' => simp [settle]
  | ok found => cases found <;> simp [settle]

theorem sign_eq (request : Http.Headers) (compartment : Option String) (s : State σ) :
    authorizer.sign request compartment s =
      (settle request (authorizer.authorize compartment s).1,
        (authorizer.authorize compartment s).2) := by
  unfold sign
  generalize authorizer.authorize compartment s = authorized
  obtain ⟨answer, s'⟩ := authorized
  cases answer with
  | error e => rfl
  | ok found => cases found <;> rfl

theorem answer_sign_eq (outcome : Outcome) (s : State σ) (request : Http.Headers)
    (compartment : Option String) :
    Wish.answer outcome s (.sign request compartment) =
      .signed (settle request (headersOf compartment outcome s)).1
        (settle request (headersOf compartment outcome s)).2 := by
  simp only [Wish.answer]
  cases headersOf compartment outcome s with
  | error e => rfl
  | ok found => cases found <;> rfl

/-- What comes of trying to give a request the headers for a signature that is there, given the
state in which they are made. -/
structure Attempt (entry : DatedSignature) (s : State σ) (compartment : Option String)
    (request : Http.Headers) (answer : Except Error Unit) (request' : Http.Headers) : Prop where
  /-- The signature names the key of a credential that was received, and its date may be sent. -/
  keyId : ∃ credential ∈ s.outside.received, ∃ bytes,
    entry.headerValue = Signing.header credential.keyId bytes
  date : IsHeaderText entry.date
  signed : answer = .ok () →
    ∃ chosen, compartmentFor compartment s = some chosen ∧ Carries entry chosen request request'
  failed : ∀ e, answer = .error e → request' = request
  /-- There are two ways to fail, the second where the first does not apply. -/
  fails_iff : ∀ keyId bytes, entry.headerValue = Signing.header keyId bytes → ∀ e,
    answer = .error e ↔
      (compartmentFor compartment s = none ∧ e = .noCompartment ∧ e.kind = .configInvalid) ∨
      ∃ chosen, compartmentFor compartment s = some chosen ∧
        ¬ (IsHeaderText keyId ∧ IsHeaderText chosen) ∧
        e = .malformedHeaderValue ∧ e.kind = .requestInvalid

/-- What comes of signing a request, given the signature that there is this time. -/
def Settled (s : State σ) (compartment : Option String) (request : Http.Headers)
    (answer : Except Error Unit) (request' : Http.Headers) :
    Except Error (Option DatedSignature) → Prop
  | .error e => answer = .error e ∧ request' = request
  | .ok none => answer = .ok () ∧ request' = request
  | .ok (some entry) => Attempt entry s compartment request answer request'

/-- The headers for a signature that is there. -/
theorem headersOf_eq {outcome : Outcome} (available : tolerate outcome = .ok (some entry))
    (date : IsHeaderText entry.date) (compartment : Option String) (s : State σ) :
    headersOf compartment outcome s = match compartmentFor compartment s with
      | none => .error .noCompartment
      | some chosen =>
        if IsHeaderText entry.headerValue ∧ IsHeaderText chosen then
          .ok (some (headersFor entry chosen))
        else .error .malformedHeaderValue := by
  simp only [headersOf, available, chooseCompartment_eq]
  cases compartmentFor compartment s with
  | none => rfl
  | some chosen =>
    simp only [bind, Except.bind, headers_eq date]
    split <;> rfl

theorem keyId_of_makes {credential : Credential} (h : Makes dateAt host credential entry) :
    ∃ bytes, entry.headerValue = Signing.header credential.keyId bytes := by
  obtain ⟨key, now, -, signed⟩ := h
  obtain ⟨bytes, -, rfl⟩ := Signing.sign_eq_ok signed
  exact ⟨bytes, rfl⟩

theorem isHeaderText_date {credential : Credential} (h : Makes dateAt host credential entry) :
    IsHeaderText entry.date := by
  obtain ⟨now, date⟩ := date_of_makes h
  rw [date]
  exact IsPrintable.isHeaderText (HttpDate.printable_render (dateAt now))

theorem attempt_of_makes {outcome : Outcome} {credential : Credential}
    (available : tolerate outcome = .ok (some entry)) (received : credential ∈ s.outside.received)
    (makes : Makes dateAt host credential entry) (request : Http.Headers)
    (compartment : Option String) :
    Attempt entry s compartment request (settle request (headersOf compartment outcome s)).1
      (settle request (headersOf compartment outcome s)).2 := by
  have date := isHeaderText_date makes
  have keyId := keyId_of_makes makes
  rw [headersOf_eq available date]
  cases about : compartmentFor compartment s with
  | none =>
    refine ⟨⟨credential, received, keyId⟩, date, nofun, fun _ _ => rfl, fun keyId bytes _ e => ?_⟩
    constructor
    · rintro ⟨⟩
      exact .inl ⟨about, rfl, rfl⟩
    · rintro (⟨-, rfl, -⟩ | ⟨chosen, he, -⟩)
      · rfl
      · rw [about] at he
        cases he
  | some chosen =>
    dsimp only
    by_cases texts : IsHeaderText entry.headerValue ∧ IsHeaderText chosen
    · rw [if_pos texts]
      refine ⟨⟨credential, received, keyId⟩, date, fun _ => ⟨chosen, about, ?_⟩, nofun,
        fun keyId bytes he e => ⟨nofun, ?_⟩⟩
      · exact carries_setAll entry chosen request
      · rw [he, isHeaderText_header] at texts
        rintro (⟨hn, -⟩ | ⟨other, ho, malformed, -⟩)
        · rw [about] at hn
          cases hn
        · obtain rfl : chosen = other := Option.some.inj (about.symm.trans ho)
          exact absurd texts malformed
    · rw [if_neg texts]
      refine ⟨⟨credential, received, keyId⟩, date, nofun, fun _ _ => rfl,
        fun keyId bytes he e => ⟨?_, ?_⟩⟩
      · rintro ⟨⟩
        rw [he, isHeaderText_header] at texts
        exact .inr ⟨chosen, about, texts, rfl, rfl⟩
      · rintro (⟨hn, -⟩ | ⟨other, -, -, rfl, -⟩)
        · rw [about] at hn
          cases hn
        · rfl

theorem settled_of_vouched {outcome : Outcome} (vouched : Vouched dateAt host outcome s.outside)
    (request : Http.Headers) (compartment : Option String) :
    Settled s compartment request (settle request (headersOf compartment outcome s)).1
      (settle request (headersOf compartment outcome s)).2 (tolerate outcome) := by
  cases available : tolerate outcome with
  | error e => simp [Settled, headersOf, available, settle]
  | ok found =>
    cases found with
    | none => simp [Settled, headersOf, available, settle]
    | some entry =>
      obtain ⟨credential, received, makes⟩ := vouched entry (eq_of_tolerate available)
      exact attempt_of_makes available received makes request compartment

/-! ## Runs -/

theorem Steps.sound (hh : authorizer.host = some host) (steps : Steps authorizer c c')
    (h : Sound authorizer.dateAt host c) : Sound authorizer.dateAt host c' := by
  induction steps with
  | refl => exact h
  | tail _ step ih => exact step.sound hh ih

/-- The signature that a caller gets is vouched for in the state that it leaves. -/
theorem Sound.signature (hh : authorizer.host = some host)
    (h : Sound authorizer.dateAt host ⟨s, [], []⟩) (handle : s.handles ≠ 0) :
    ∃ outcome s', authorizer.signature s = (tolerate outcome, s') ∧
      Vouched authorizer.dateAt host outcome s'.outside := by
  have known : authorizer.host ≠ none := by simp [hh]
  cases served : authorizer.cache.served? s with
  | some entry => exact ⟨.ok entry, s, signature_of_served known served, h.upheld.served served⟩
  | none =>
    let begun := (s.begin .miss).2
    let completed := begun.complete authorizer.cache authorizer.cache.compute
    -- as a caller who waits alone, it comes to the end of its computation
    have began : Step authorizer ⟨s, [], []⟩
        ⟨begun, [.signature .authorization s.epoch s.begun authorizer.cache.compute], []⟩ :=
      .begin .authorization nofun handle known served
    have waited : Steps authorizer _
        ⟨completed.2, [.signature .authorization s.epoch s.begun (.done completed.1)], []⟩ :=
      steps_complete (fun _ _ _ => rfl) authorizer.cache.compute begun []
    have ended := Steps.sound hh (.head began waited) h
    have vouched : Vouched authorizer.dateAt host completed.1 completed.2.outside :=
      ended.callers _ (List.mem_singleton_self _) _ le_rfl
    refine ⟨completed.1,
      completed.2.finishMiss authorizer.cache s.epoch s.begun completed.1, ?_, ?_⟩
    · rw [signature_of_host known, SignatureCache.fetch, served]
      rfl
    · simpa using vouched

/-- What the three ways of asking for a signature have in common. -/
structure Agree (authorizer : Authorizer σ) (s : State σ) (request : Http.Headers)
    (compartment : Option String) : Prop where
  state : (authorizer.sign request compartment s).2 = (authorizer.authorize compartment s).2 ∧
    (authorizer.authorize compartment s).2 = (authorizer.authorization s).2
  error : ∀ e, (authorizer.sign request compartment s).1.1 = .error e ↔
    (authorizer.authorize compartment s).1 = .error e
  unavailable : ∀ e, (authorizer.authorization s).1 = .error e →
    (authorizer.authorize compartment s).1 = .error e
  unsigned : (authorizer.authorization s).1 = .ok none ↔
    (authorizer.authorize compartment s).1 = .ok none
  /-- What is authorized is what is set, with the value that is handed out on its own. -/
  signed : ∀ more, (authorizer.authorize compartment s).1 = .ok (some more) →
    (authorizer.sign request compartment s).1 = (.ok (), request.setAll more) ∧
      ∃ value, (authorizer.authorization s).1 = .ok (some value) ∧
        more.values "authorization" = [Utf8.bytes value]

theorem exists_headersFor {found : Option Http.Headers}
    (h : (chooseCompartment compartment s >>= fun chosen => (headers entry chosen).map some) =
      .ok found) : ∃ chosen, found = some (headersFor entry chosen) := by
  obtain ⟨chosen, -, made⟩ := eq_ok_of_bind h
  cases hm : headers entry chosen with
  | error e =>
    rw [hm] at made
    cases made
  | ok more =>
    rw [hm] at made
    cases made
    exact ⟨chosen, congrArg some (headers_eq_ok hm)⟩

theorem agree (authorizer : Authorizer σ) (s : State σ) (request : Http.Headers)
    (compartment : Option String) : Agree authorizer s request compartment := by
  have signed := @sign_eq _ authorizer request compartment s
  rcases hs : authorizer.signature s with ⟨signature, s'⟩
  have value : authorizer.authorization s =
      (signature.map (Option.map DatedSignature.headerValue), s') := by
    rw [authorization, hs]
  cases signature with
  | error e =>
    have authorized : authorizer.authorize compartment s = (.error e, s') := by rw [authorize, hs]
    refine ⟨?_, ?_, ?_, ?_, ?_⟩ <;> simp [signed, authorized, value, settle, Except.map]
  | ok found =>
    cases found with
    | none =>
      have authorized : authorizer.authorize compartment s = (.ok none, s') := by rw [authorize, hs]
      refine ⟨?_, ?_, ?_, ?_, ?_⟩ <;> simp [signed, authorized, value, settle, Except.map]
    | some entry =>
      have authorized : authorizer.authorize compartment s =
          (chooseCompartment compartment s' >>= fun chosen => (headers entry chosen).map some,
            s') := by rw [authorize, hs]
      have made {found : Option Http.Headers}
          (h : (authorizer.authorize compartment s).1 = .ok found) :
          ∃ chosen, found = some (headersFor entry chosen) := by
        rw [authorized] at h
        exact exists_headersFor h
      refine ⟨⟨by rw [signed], by rw [authorized, value]⟩, fun e => ?_, ?_, ⟨?_, fun h => ?_⟩,
        fun more h => ?_⟩
      · rw [signed]
        exact settle_eq_error
      · simp [value, Except.map]
      · simp [value, Except.map]
      · obtain ⟨chosen, he⟩ := made h
        cases he
      · obtain ⟨chosen, rfl⟩ : ∃ chosen, more = headersFor entry chosen := by
          simpa using made h
        refine ⟨by rw [signed, h]; rfl, entry.headerValue, by rw [value]; rfl, ?_⟩
        simp [Http.Headers.values, headersFor, compartmentHeader]

/-- However an authorizer came to where it is, it signs a request whole or not at all. -/
structure SignsWhole (authorizer : Authorizer σ) (c : Scene σ) : Prop where
  now : ∀ request compartment,
    Settled (authorizer.signature c.state).2 compartment request
      (authorizer.sign request compartment c.state).1.1
      (authorizer.sign request compartment c.state).1.2 (authorizer.signature c.state).1
  agree : ∀ request compartment, Agree authorizer c.state request compartment
  /-- So does it for a caller who has waited among others, in the state that its call leaves. -/
  waited : ∀ request compartment epoch number outcome,
    .signature (.sign request compartment) epoch number (.done outcome) ∈ c.callers →
      ∃ answer request',
        Wish.answer outcome (c.state.finishMiss authorizer.cache epoch number outcome)
            (.sign request compartment) = .signed answer request' ∧
          Settled (c.state.finishMiss authorizer.cache epoch number outcome) compartment request
            answer request' (tolerate outcome)

theorem signsWhole_of_reachable (h : Reachable authorizer c) (handle : c.state.handles ≠ 0) :
    SignsWhole authorizer c := by
  refine ⟨fun request compartment => ?_, agree authorizer c.state,
    fun request compartment epoch number outcome waiting => ?_⟩
  · cases hh : authorizer.host with
    | none =>
      have unsigned := signature_of_hostless hh c.state
      rw [sign_eq, authorize, unsigned]
      exact ⟨rfl, rfl⟩
    | some host =>
      have sound := sound_of_reachable hh h
      have alone : Sound authorizer.dateAt host ⟨c.state, [], []⟩ :=
        ⟨sound.upToDate, sound.upheld, by simp, by simp⟩
      obtain ⟨outcome, s', hs, vouched⟩ := alone.signature hh handle
      rw [sign_eq, authorize_eq compartment hs, hs]
      exact settled_of_vouched vouched request compartment
  · cases hh : authorizer.host with
    | none =>
      obtain ⟨name, rest, he⟩ := (h.unused hh).callers _ waiting
      cases he
    | some host =>
      have vouched : Vouched authorizer.dateAt host outcome c.state.outside :=
        (sound_of_reachable hh h).callers _ waiting _ le_rfl
      have told := answer_sign_eq outcome
        (c.state.finishMiss authorizer.cache epoch number outcome) request compartment
      have later : Vouched authorizer.dateAt host outcome
          (c.state.finishMiss authorizer.cache epoch number outcome).outside := by
        simpa using vouched
      exact ⟨_, _, told, settled_of_vouched later request compartment⟩

/-- There is a signature if the provider gives a credential at once. -/
theorem signature_of_gives {credential : Credential} {key : Rsa.PrivateKey} {world : World σ}
    (hh : authorizer.host = some host) (new : s.outside.credential = none)
    (miss : authorizer.cache.served? s = none) (idle : s.tasks = [])
    (gives : authorizer.provider.run s.clock s.outside.world =
      (.finished (.ok (some credential)), world))
    (hk : credential.key? = some key)
    (signed : Signing.sign host credential.keyId key (authorizer.dateAt s.clock) = .ok entry) :
    (authorizer.signature s).1 = .ok (some entry) := by
  have known : authorizer.host ≠ none := by simp [hh]
  have computed := run_compute_of_finished hh new gives hk signed
  have later : ∀ task ∈ (s.begin .miss).2.tasks, (s.begin .miss).2.clock < task.due := by
    intro task hm
    change task ∈ s.tasks at hm
    simp [idle] at hm
  have completed : (s.begin .miss).2.complete authorizer.cache authorizer.cache.compute = _ :=
    SignatureCache.complete_of_finished later computed
  have fetched : (authorizer.cache.fetch s).1 = .ok entry := by
    simp only [SignatureCache.fetch, miss]
    rw [completed]
  rw [signature_of_host known, fetched]
  rfl

/-- A new authorizer whose provider gives an instance at once can sign. -/
theorem signsWhole_sample :
    ∃ c : Scene Bool, (∃ entry, (sample.signature c.state).1 = .ok (some entry)) ∧
      SignsWhole sample c := by
  have hk : sampleInstance.key? = some sampleKey := key?_of_sampleText (by decide) rfl rfl
  obtain ⟨entry, signed⟩ := sign_sampleInstance
  have available := @signature_of_gives _ sample "host"
    { outside := { world := ⟨{}, true⟩ } } entry _ _ _ rfl rfl rfl rfl rfl hk signed
  exact ⟨⟨_, [], []⟩, ⟨entry, available⟩,
    signsWhole_of_reachable (Reachable.initial sample ⟨{}, true⟩) (by decide)⟩

end RequestAuth.Authorizer
