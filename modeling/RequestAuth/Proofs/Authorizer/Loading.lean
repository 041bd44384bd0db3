import RequestAuth.Proofs.Authorizer.Source

/-!
# A provider at work

A load asks the provider at once, and then has nothing to do until the provider has an answer. So
what is left of a load at any wait is what is left of the provider (`loading`), and so it is with
the computation of a signature (`computing`), which needs no more time once it has its credential.

A computation asks the provider or not as it begins (`run_compute_of_none`,
`run_compute_of_reusable`). If it does, then whatever happens to the source while it waits, its
signature is made with the one credential that it is given (`comes_compute`).
-/

namespace RequestAuth.Source

variable {σ : Type} {provider rest : Provider σ} {source source' : Source σ}
  {dateAt : Nat → DateTime} {host : String} {now : Nat}

/-- What is made of the provider's answer. -/
def take : Except Error (Option Credential) → Routine (Source σ) (Except Error Identity)
  | .error e => .done (.error e)
  | .ok none => .done (.error .noCredential)
  | .ok (some credential) => .act (fun source => (source.accept credential).2)
      fun source => .done (source.accept credential).1

/-- What is left of a load while the provider is at work. -/
def loading (rest : Provider σ) : Routine (Source σ) (Except Error Identity) :=
  (rest.onPart (·.world) fun world source => { source with world }).bind take

/-- What is made of a credential and its private key. -/
def signWith (dateAt : Nat → DateTime) (host : String) :
    Except Error Identity → Routine (Source σ) (Except Error DatedSignature)
  | .error e => .done (.error e)
  | .ok (credential, key) =>
    .clock fun now => .done (Signing.sign host credential.keyId key (dateAt now))

/-- What is left of a computation while the provider is at work. -/
def computing (dateAt : Nat → DateTime) (host : String) (rest : Provider σ) :
    Routine (Source σ) (Except Error DatedSignature) :=
  (loading rest).bind (signWith dateAt host)

/-! ## How far they get -/

/-- A load has come to its end: it has changed nothing but what is kept, and if it has a credential,
the provider has just given that. -/
structure Loaded (answer : Except Error Identity) (source source' : Source σ) : Prop where
  loads : source'.loads = source.loads
  own : ∀ credential key, answer = .ok (credential, key) →
    source'.received = credential :: source.received ∧ credential.key? = some key

theorem loaded_error (e : Error) (loads : source'.loads = source.loads) :
    Loaded (.error e) source source' where
  loads := loads
  own credential key he := by cases he

theorem run_take (answer : Except Error (Option Credential)) (now : Nat) (source : Source σ) :
    ∃ found source', (take answer).run now source = (.finished found, source') ∧
      Loaded found source source' := by
  cases answer with
  | error e => exact ⟨_, _, rfl, loaded_error e rfl⟩
  | ok given =>
    cases given with
    | none => exact ⟨_, _, rfl, loaded_error _ rfl⟩
    | some credential =>
      refine ⟨(source.accept credential).1, (source.accept credential).2, rfl, ?_⟩
      obtain ⟨key, hk, he⟩ | ⟨-, e, he⟩ := accept_cases credential source
      · rw [he]
        refine ⟨rfl, fun credential' key' same => ?_⟩
        cases same
        exact ⟨rfl, hk⟩
      · rw [he]
        exact loaded_error e rfl

/-- The provider has been waited for, and goes on. -/
structure Waited (source source' : Source σ) : Prop where
  loads : source'.loads = source.loads
  received : source'.received = source.received

theorem run_loading (rest : Provider σ) (now : Nat) (source : Source σ) :
    (∃ d rest' source', (loading rest).run now source = (.waiting d (loading rest'), source') ∧
      Waited source source') ∨
    ∃ found source', (loading rest).run now source = (.finished found, source') ∧
      Loaded found source source' := by
  have onWorld := run_onWorld rest now source
  rcases hr : rest.run now source.world with ⟨progress, world⟩
  rw [hr] at onWorld
  cases progress with
  | waiting d rest' =>
    exact .inl ⟨d, rest', _, Routine.run_bind_of_waiting onWorld, rfl, rfl⟩
  | finished answer =>
    obtain ⟨found, source', taken, loaded⟩ := run_take answer now { source with world }
    exact .inr ⟨found, source', (Routine.run_bind_of_finished onWorld).trans taken,
      loaded.loads, loaded.own⟩

/-- A computation has come to its end, and if it has a signature, that is made with a credential
that the provider has just given. -/
structure Computed (dateAt : Nat → DateTime) (host : String)
    (outcome : Except Error DatedSignature) (source source' : Source σ) : Prop where
  loads : source'.loads = source.loads
  own : ∀ entry, outcome = .ok entry → ∃ credential,
    source'.received = credential :: source.received ∧ Makes dateAt host credential entry

theorem run_computing (dateAt : Nat → DateTime) (host : String) (rest : Provider σ) (now : Nat)
    (source : Source σ) :
    (∃ d rest' source', (computing dateAt host rest).run now source =
      (.waiting d (computing dateAt host rest'), source') ∧ Waited source source') ∨
    ∃ outcome source', (computing dateAt host rest).run now source =
      (.finished outcome, source') ∧ Computed dateAt host outcome source source' := by
  rcases run_loading rest now source with
    ⟨d, rest', source', waiting, waited⟩ | ⟨found, source', finished, loaded⟩
  · exact .inl ⟨d, rest', source', Routine.run_bind_of_waiting waiting, waited⟩
  · have ended := @Routine.run_bind_of_finished _ _ _ _ (signWith dateAt host) _ _ _ _ finished
    cases found with
    | error e => exact .inr ⟨_, _, ended, loaded.loads, nofun⟩
    | ok identity =>
      obtain ⟨credential, key⟩ := identity
      obtain ⟨received, hk⟩ := loaded.own credential key rfl
      refine .inr ⟨_, _, ended, loaded.loads, fun entry he => ⟨credential, received, ?_⟩⟩
      exact ⟨key, now, hk, he⟩

/-! ## Beginning -/

/-- Whether a signature needs a load: there is no credential, or one that may not be used again. -/
def wanting (source : Source σ) : Bool := source.credential.all (·.kind.isRotating)

theorem UpToDate.reusable?_isNone (h : UpToDate source) :
    source.reusable?.isNone = source.wanting := by
  have both := h.isSome_eq
  unfold reusable? wanting
  cases hc : source.credential with
  | none => rfl
  | some credential =>
    rw [hc] at both
    obtain ⟨key, hk⟩ := Option.isSome_iff_exists.1 both
    rw [hk]
    dsimp only
    split <;> simp_all

theorem run_compute_of_reusable {identity : Identity} (h : source.reusable? = some identity)
    (provider : Provider σ) (dateAt : Nat → DateTime) (host : String) (now : Nat) :
    ∃ outcome, (compute provider dateAt (some host)).run now source =
      (.finished outcome, source) := by
  have found : (Source.identity provider).run now source = (.finished (.ok identity), source) := by
    simp only [Source.identity, Routine.run, h, id]
  exact ⟨_, Routine.run_bind_of_finished found⟩

theorem run_compute_of_none (h : source.reusable? = none) (provider : Provider σ)
    (dateAt : Nat → DateTime) (host : String) (now : Nat) :
    (compute provider dateAt (some host)).run now source =
      (computing dateAt host provider).run now { source with loads := source.loads + 1 } := by
  have asked : ((Source.identity provider).bind (signWith dateAt host)).run now source =
      ((load provider).bind (signWith dateAt host)).run now source := by
    simp only [Source.identity, Routine.bind, Routine.run, h, id]
  exact asked

/-! ## Computations as a whole -/

/-- A computation that goes on from a source comes to an outcome, and is given credentials on the
way. Whenever it waits, others may change the source. -/
inductive Comes : Routine (Source σ) (Except Error DatedSignature) → Source σ → List Credential →
    Except Error DatedSignature → Prop where
  | ended {r : Routine (Source σ) (Except Error DatedSignature)} {source source' : Source σ}
      {given : List Credential} {outcome : Except Error DatedSignature} (now : Nat)
      (ran : r.run now source = (.finished outcome, source'))
      (received : source'.received = given ++ source.received) : Comes r source given outcome
  | waited {r rest : Routine (Source σ) (Except Error DatedSignature)}
      {source source' later : Source σ} {given more : List Credential}
      {outcome : Except Error DatedSignature} (now d : Nat)
      (ran : r.run now source = (.waiting d rest, source'))
      (received : source'.received = given ++ source.received)
      (comes : Comes rest later more outcome) : Comes r source (more ++ given) outcome

variable {given : List Credential} {entry : DatedSignature}

/-- What waits for the provider makes its signature with the one credential that it is given. -/
theorem comes_computing (h : Comes (computing dateAt host rest) source given (.ok entry)) :
    ∃ credential, given = [credential] ∧ Makes dateAt host credential entry := by
  generalize hr : computing dateAt host rest = r at h
  generalize ho : (.ok entry : Except Error DatedSignature) = outcome at h
  induction h generalizing rest with
  | @ended r source source' given outcome now ran received =>
    subst hr ho
    obtain ⟨d, rest', source'', waiting, -⟩ | ⟨outcome, source'', finished, computed⟩ :=
      run_computing dateAt host rest now source
    · rw [waiting] at ran
      cases ran
    · rw [finished] at ran
      cases ran
      obtain ⟨credential, own, makes⟩ := computed.own entry rfl
      have same : given ++ source.received = [credential] ++ source.received :=
        received.symm.trans own
      exact ⟨credential, List.append_cancel_right same, makes⟩
  | @waited r rest' source source' later given more outcome now d ran received comes ih =>
    subst hr
    obtain ⟨d, rest', source'', waiting, waited⟩ | ⟨outcome, source'', finished, -⟩ :=
      run_computing dateAt host rest now source
    · rw [waiting] at ran
      cases ran
      have nothing : given = [] :=
        List.append_left_eq_self.1 (received.symm.trans waited.received)
      rw [nothing, List.append_nil]
      exact ih rfl ho
    · rw [finished] at ran
      cases ran

/-- A computation that begins without a credential to be used again asks for one of its own. -/
theorem comes_compute (h : source.reusable? = none)
    (comes : Comes (compute provider dateAt (some host)) source given (.ok entry)) :
    ∃ credential, given = [credential] ∧ Makes dateAt host credential entry := by
  have asks := fun now => run_compute_of_none h provider dateAt host now
  cases comes with
  | ended now ran received =>
    exact comes_computing (.ended now ((asks now).symm.trans ran) received)
  | waited now d ran received comes =>
    exact comes_computing (.waited now d ((asks now).symm.trans ran) received comes)

end RequestAuth.Source
