import Mathlib.Data.List.Infix
import RequestAuth.Authorizer.Source
import RequestAuth.Proofs.Ensures

/-!
# What the source of signatures keeps

The credential and the private key that are kept stand in two places, which are written one after
the other, but what they hold is a function of the credentials that the provider has given: the
latest of those that can be signed with, and its private key (`UpToDate`). So a load that fails
leaves both as they are, and what one signature is made from comes from one credential
(`Source.compute_ensures`), however many loads are under way at a time.
-/

namespace RequestAuth

/-- The private key of a credential, if it can be signed with. -/
def Credential.key? (credential : Credential) : Option Rsa.PrivateKey :=
  if credential.isUsable then
    (Rsa.PrivateKey.ofText credential.privateKey credential.passphrase).toOption
  else none

theorem Credential.ofText_of_key? {credential : Credential} {key : Rsa.PrivateKey}
    (h : credential.key? = some key) :
    Rsa.PrivateKey.ofText credential.privateKey credential.passphrase = .ok key := by
  unfold key? at h
  split at h
  · cases ho : Rsa.PrivateKey.ofText credential.privateKey credential.passphrase with
    | error => simp [ho, Except.toOption] at h
    | ok => simpa [ho, Except.toOption] using h
  · cases h

namespace Source

variable {σ : Type} {provider : Provider σ} {source : Source σ} {credential : Credential}

/-- The latest of the credentials received that can be signed with. -/
def latest? (received : List Credential) : Option Credential :=
  received.find? (·.key?.isSome)

/-- What is kept is the latest credential that can be signed with, and its private key. -/
structure UpToDate (source : Source σ) : Prop where
  credential : source.credential = latest? source.received
  key : source.holder.current = source.credential.bind Credential.key?

/-- A key is kept just if a credential is. -/
theorem UpToDate.isSome_eq (h : UpToDate source) :
    source.holder.current.isSome = source.credential.isSome := by
  rw [h.key]
  cases hc : source.credential with
  | none => rfl
  | some credential =>
    have found : latest? source.received = some credential := h.credential.symm.trans hc
    have usable : credential.key?.isSome = true := by simpa using List.find?_some found
    rw [Option.bind_some, usable, Option.isSome_some]

theorem UpToDate.mem_received (h : UpToDate source) (hc : source.credential = some credential) :
    credential ∈ source.received :=
  List.mem_of_find?_eq_some (h.credential.symm.trans hc)

/-- Sources come one after another as the provider gives credentials. -/
instance : Preorder (Source σ) where
  le source source' :=
    source.received <:+ source'.received ∧ (UpToDate source → UpToDate source')
  le_refl source := ⟨List.suffix_refl _, id⟩
  le_trans _ _ _ h h' := ⟨h.1.trans h'.1, h'.2 ∘ h.2⟩

theorem upToDate_new (world : World σ) : UpToDate { world } := ⟨rfl, rfl⟩

theorem le_of_eq {source' : Source σ} (received : source'.received = source.received)
    (credential : source'.credential = source.credential)
    (holder : source'.holder = source.holder) : source ≤ source' := by
  refine ⟨received ▸ List.suffix_refl _, fun h => ⟨?_, ?_⟩⟩
  · rw [credential, received, h.credential]
  · rw [credential, holder, h.key]

/-! ## Loading -/

/-- A credential is accepted with its private key, or is of no use. -/
theorem accept_cases (credential : Credential) (source : Source σ) :
    (∃ key, credential.key? = some key ∧
      source.accept credential = (.ok (credential, key),
        { source with
          received := credential :: source.received, holder := ⟨some key⟩,
          credential := some credential })) ∨
    (credential.key? = none ∧ ∃ e, source.accept credential =
      (.error e, { source with received := credential :: source.received })) := by
  unfold accept Credential.key? Rsa.KeyHolder.reload
  split
  · cases Rsa.PrivateKey.ofText credential.privateKey credential.passphrase with
    | ok key => exact .inl ⟨key, rfl, rfl⟩
    | error e => exact .inr ⟨rfl, e, rfl⟩
  · exact .inr ⟨rfl, _, rfl⟩

theorem le_accept (credential : Credential) (source : Source σ) :
    source ≤ (source.accept credential).2 := by
  obtain ⟨key, hk, he⟩ | ⟨hk, e, he⟩ := accept_cases credential source
  · rw [he]
    exact ⟨List.suffix_cons _ _, fun _ => ⟨by simp [latest?, hk], by simp [hk]⟩⟩
  · -- what cannot be signed with is received, but is not the latest that can
    rw [he]
    exact ⟨List.suffix_cons _ _, fun h => ⟨by simpa [latest?, hk] using h.credential, h.key⟩⟩

/-- The answer to a load is a credential that was received, and its private key. -/
def Known (answer : Except Error Identity) (source : Source σ) : Prop :=
  ∀ credential key, answer = .ok (credential, key) →
    credential ∈ source.received ∧ credential.key? = some key

theorem known_error (e : Error) (source : Source σ) : Known (.error e) source := nofun

theorem known_accept (credential : Credential) (source : Source σ) :
    Known (source.accept credential).1 (source.accept credential).2 := by
  obtain ⟨key, hk, he⟩ | ⟨hk, e, he⟩ := accept_cases credential source
  · rw [he]
    rintro _ _ ⟨⟩
    exact ⟨List.mem_cons_self, hk⟩
  · rw [he]
    exact known_error e _

theorem Known.later {answer : Except Error Identity} {source' : Source σ} (h : Known answer source)
    (on : source ≤ source') : Known answer source' := fun c key ha =>
  ⟨on.1.subset (h c key ha).1, (h c key ha).2⟩

theorem ask_ensures (provider : Provider σ) (source : Source σ) :
    (ask provider).Ensures (fun _ _ => True) source := by
  intro source' _
  refine ⟨le_of_eq rfl rfl rfl, Routine.ensures_onPart (fun _ source => ?_) provider _⟩
  exact le_of_eq rfl rfl rfl

theorem load_ensures (provider : Provider σ) (source : Source σ) :
    (load provider).Ensures Known source := by
  refine (ask_ensures provider source).bind fun answer source' _ _ => ?_
  cases answer with
  | error e => exact fun source'' _ => known_error e source''
  | ok found =>
    cases found with
    | none => exact fun source'' _ => known_error _ source''
    | some credential =>
      refine fun source'' _ => ⟨le_accept credential source'', ?_⟩
      exact fun _ on => (known_accept credential source'').later on

theorem reusable?_eq_some {key : Rsa.PrivateKey}
    (h : source.reusable? = some (credential, key)) :
    source.credential = some credential ∧ source.holder.current = some key := by
  unfold reusable? at h
  split at h
  · next hc hk =>
    split at h
    · cases h
    · cases h
      exact ⟨hc, hk⟩
  · cases h

theorem UpToDate.known_reusable (h : UpToDate source) {identity : Identity}
    (hr : source.reusable? = some identity) : Known (.ok identity) source := by
  rintro c key ⟨⟩
  obtain ⟨hc, hk⟩ := reusable?_eq_some hr
  refine ⟨h.mem_received hc, ?_⟩
  rwa [h.key, hc] at hk

theorem identity_ensures (h : UpToDate source) : (identity provider).Ensures Known source := by
  intro source' on
  refine ⟨le_rfl, ?_⟩
  cases hr : source'.reusable? with
  | none =>
    simp only [hr]
    exact load_ensures provider source'
  | some identity =>
    simp only [hr]
    exact fun _ on' => ((on.2 h).known_reusable hr).later on'

/-! ## Computing signatures -/

/-- The entry is a signature that is made with the credential for the host at some instant. -/
def Makes (dateAt : Nat → DateTime) (host : String) (credential : Credential)
    (entry : DatedSignature) : Prop :=
  ∃ key now, credential.key? = some key ∧
    Signing.sign host credential.keyId key (dateAt now) = .ok entry

/-- A signature that was computed is made with one of the credentials received. -/
def Vouched (dateAt : Nat → DateTime) (host : String) (outcome : Except Error DatedSignature)
    (source : Source σ) : Prop :=
  ∀ entry, outcome = .ok entry → ∃ credential ∈ source.received, Makes dateAt host credential entry

variable {dateAt : Nat → DateTime} {host : String}

theorem vouched_monotone (outcome : Except Error DatedSignature) :
    Monotone (Vouched dateAt host outcome : Source σ → Prop) := by
  intro source source' on h entry he
  obtain ⟨credential, hc, makes⟩ := h entry he
  exact ⟨credential, on.1.subset hc, makes⟩

theorem compute_ensures (h : UpToDate source) :
    (compute provider dateAt (some host)).Ensures (Vouched dateAt host) source := by
  refine (identity_ensures h).bind fun answer source' _ known => ?_
  cases answer with
  | error e => exact fun _ _ => nofun
  | ok identity =>
    obtain ⟨credential, key⟩ := identity
    obtain ⟨received, hk⟩ := known credential key rfl
    intro now source'' on entry he
    exact ⟨credential, on.1.subset received, key, now, hk, he⟩

/-! ## At an instant -/

variable {key : Rsa.PrivateKey} {world : World σ} {now : Nat}

/-- The source after a credential that can be signed with was given. -/
def taken (source : Source σ) (credential : Credential) (key : Rsa.PrivateKey) : Source σ :=
  { source with
    received := credential :: source.received, holder := ⟨some key⟩, credential := some credential }

theorem accept_of_key? (hk : credential.key? = some key) (source : Source σ) :
    source.accept credential = (.ok (credential, key), source.taken credential key) := by
  obtain ⟨key', hk', he⟩ | ⟨hn, -⟩ := accept_cases credential source
  · obtain rfl : key' = key := Option.some.inj (hk'.symm.trans hk)
    exact he
  · rw [hk] at hn
    cases hn

theorem run_onWorld (r : Provider σ) (now : Nat) (source : Source σ) :
    (r.onPart Source.world fun world source => { source with world }).run now source =
      ((r.run now source.world).1.onPart Source.world fun world source => { source with world },
        { source with world := (r.run now source.world).2 }) :=
  @Routine.run_onPart _ _ _ Source.world (fun world source => { source with world })
    (fun _ _ => rfl) (fun _ => rfl) (fun _ _ _ => rfl) r now source

/-- The provider gives a credential at once. -/
theorem run_load_of_finished
    (gives : provider.run now source.world = (.finished (.ok (some credential)), world))
    (hk : credential.key? = some key) :
    (load provider).run now source = (.finished (.ok (credential, key)),
      { source with world, loads := source.loads + 1 }.taken credential key) := by
  have asked : (ask provider).run now source = (.finished (.ok (some credential)),
      { source with world, loads := source.loads + 1 }) := by
    have onWorld := run_onWorld provider now { source with loads := source.loads + 1 }
    rwa [gives] at onWorld
  refine (Routine.run_bind_of_finished asked).trans ?_
  simp only [Routine.run, accept_of_key? hk]

/-- The provider takes its time, and gives a credential then. -/
theorem run_load_of_waiting {d : Nat} {rest : Provider σ}
    (waits : provider.run now source.world = (.waiting d rest, world)) :
    ∃ rest', (load provider).run now source =
        (.waiting d rest', { source with world, loads := source.loads + 1 }) ∧
      ∀ now source' world' credential key,
        rest.run now source'.world = (.finished (.ok (some credential)), world') →
          credential.key? = some key →
            rest'.run now source' = (.finished (.ok (credential, key)),
              { source' with world := world' }.taken credential key) := by
  have asked : (ask provider).run now source =
      (.waiting d (rest.onPart Source.world fun world source => { source with world }),
        { source with world, loads := source.loads + 1 }) := by
    have onWorld := run_onWorld provider now { source with loads := source.loads + 1 }
    rwa [waits] at onWorld
  refine ⟨_, Routine.run_bind_of_waiting asked, ?_⟩
  intro now source' world' credential key gives hk
  have onWorld := run_onWorld rest now source'
  rw [gives] at onWorld
  refine (Routine.run_bind_of_finished onWorld).trans ?_
  simp only [Routine.run, accept_of_key? hk]

/-- A signature is computed with a credential that the provider gives at once. -/
theorem run_compute_of_finished (new : source.credential = none)
    (gives : provider.run now source.world = (.finished (.ok (some credential)), world))
    (hk : credential.key? = some key) :
    (compute provider dateAt (some host)).run now source =
      (.finished (Signing.sign host credential.keyId key (dateAt now)),
        { source with world, loads := source.loads + 1 }.taken credential key) := by
  have identified : (identity provider).run now source = (.finished (.ok (credential, key)),
      { source with world, loads := source.loads + 1 }.taken credential key) := by
    have none_kept : source.reusable? = none := by simp [reusable?, new]
    simp only [identity, Routine.run, none_kept, id]
    exact run_load_of_finished gives hk
  exact Routine.run_bind_of_finished identified

/-! ## Loads that fail -/

/-- What is kept for later signatures. -/
def kept (source : Source σ) : Option Credential × Rsa.KeyHolder :=
  (source.credential, source.holder)

theorem kept_ask (provider : Provider σ) (now : Nat) (source : Source σ) :
    kept ((ask provider).complete now source).2 = kept source := by
  have world : ∀ (w : World σ) (s : Source σ), kept { s with world := w } = kept s := fun _ _ => rfl
  exact Routine.complete_onPart kept world provider now { source with loads := source.loads + 1 }

/-- A load that fails leaves what is kept as it is. -/
theorem load_error {now : Nat} {e : Error} {source' : Source σ}
    (h : (load provider).complete now source = (.error e, source')) :
    kept source' = kept source := by
  have asked := kept_ask provider now source
  rw [load, Routine.complete_bind] at h
  generalize (ask provider).complete now source = answered at h asked
  obtain ⟨answer, source₁⟩ := answered
  cases answer with
  | error =>
    cases h
    exact asked
  | ok found =>
    cases found with
    | none =>
      cases h
      exact asked
    | some credential =>
      obtain ⟨hf, hs⟩ := Prod.mk.inj h
      have hs : (source₁.accept credential).2 = source' := hs
      obtain ⟨key, hk, he⟩ | ⟨hk, e', he⟩ := accept_cases credential source₁
      · rw [he] at hf
        cases hf
      · rw [he] at hs
        rw [← hs, ← asked]
        rfl

end Source

end RequestAuth
