import RequestAuth.Proofs.Authorizer.Source
import RequestAuth.Proofs.Authorizer.Steps
import RequestAuth.Proofs.SignatureCache.Acts

/-!
# Loads that overtake each other

Callers may load credentials at the same time, and the load that began first may end last. So what
is kept in the end need not be what the signature in the cache was made with, and the headers of a
request may have the signature of one principal and the tenancy of another
(`exists_mixedHeaders`).
-/

namespace RequestAuth.Authorizer

open SignatureCache.State (finishMiss)

variable {σ : Type} {authorizer : Authorizer σ} {host : String} {user credential : Credential}
  {key key' : Rsa.PrivateKey} {entry : DatedSignature} {s : State σ} {callers : List (Caller σ)}
  {told : List (Reply σ)} {world world₁ world₂ world₃ : World σ} {rest : Provider σ} {d : Nat}
  {tenancy : String}

/-- A query of a claim comes as far as to a wait of the provider, and to an end some time later. -/
theorem steps_claim_of_waiting (name : String) (handle : s.handles ≠ 0)
    (new : s.outside.credential = none)
    (waits : authorizer.provider.run s.clock s.outside.world = (.waiting d rest, world)) :
    ∃ rest',
      Steps authorizer ⟨s, callers, told⟩
        ⟨{ s with outside := { s.outside with world, loads := s.outside.loads + 1 } },
          .claim name rest' :: callers, told⟩ ∧
      ∀ (s' : State σ) told' world' credential key,
        rest.run s'.clock s'.outside.world = (.finished (.ok (some credential)), world') →
          credential.key? = some key →
            Steps authorizer ⟨s', .claim name rest' :: callers, told'⟩
              ⟨{ s' with outside := { s'.outside with world := world' }.taken credential key },
                .claim name (.done (.ok (credential, key))) :: callers, told'⟩ := by
  obtain ⟨rest', loading, loaded⟩ := Source.run_load_of_waiting waits
  refine ⟨rest', ?_, fun s' told' world' credential key gives hk => ?_⟩
  · have run : Steps authorizer _ _ :=
      steps_run (.claim name) [] callers (fun _ _ _ => rfl) (Source.load authorizer.provider) s told
    rw [loading] at run
    exact .head (.load name handle new) run
  · have run : Steps authorizer _ _ :=
      steps_run (.claim name) [] callers (fun _ _ _ => rfl) rest' s' told'
    rw [loaded s'.clock s'.outside world' credential key gives hk] at run
    exact run

/-- A signature is computed with a credential that the provider gives at once. -/
theorem run_compute_of_finished (hh : authorizer.host = some host)
    (new : s.outside.credential = none)
    (gives : authorizer.provider.run s.clock s.outside.world =
      (.finished (.ok (some credential)), world))
    (hk : credential.key? = some key)
    (signed : Signing.sign host credential.keyId key (authorizer.dateAt s.clock) = .ok entry) :
    authorizer.cache.compute.run (s.begin .miss).2.clock (s.begin .miss).2.outside =
      (.finished (.ok entry),
        { s.outside with world, loads := s.outside.loads + 1 }.taken credential key) := by
  change (Source.compute authorizer.provider authorizer.dateAt authorizer.host).run s.clock
    s.outside = _
  rw [hh, Source.run_compute_of_finished new gives hk, signed]

/-- The first signature is made with a credential that the provider gives at once. -/
theorem steps_authorization_of_finished (hh : authorizer.host = some host)
    (ahead : authorizer.cache.looksAhead = true) (handle : s.handles ≠ 0)
    (new : s.outside.credential = none) (empty : s.slot = none) (idle : s.tasks = [])
    (gives : authorizer.provider.run s.clock s.outside.world =
      (.finished (.ok (some credential)), world))
    (hk : credential.key? = some key)
    (signed : Signing.sign host credential.keyId key (authorizer.dateAt s.clock) = .ok entry) :
    ∃ s' told', Steps authorizer ⟨s, callers, told⟩ ⟨s', callers, told'⟩ ∧
      s'.outside =
        { s.outside with world, loads := s.outside.loads + 1 }.taken credential key ∧
      s'.slot = some ⟨entry, s.clock⟩ ∧ s'.clock = s.clock ∧ s'.handles = s.handles ∧
      ∀ task ∈ s'.tasks, task.due = s.clock + authorizer.cache.refreshInterval := by
  have known : authorizer.host ≠ none := by simp [hh]
  have miss : authorizer.cache.served? s = none := by simp [SignatureCache.served?, empty]
  have computed := run_compute_of_finished hh new gives hk signed
  have run : Steps authorizer _ _ :=
    steps_run (.signature .authorization s.epoch s.begun) [] callers (fun _ _ _ => rfl)
      authorizer.cache.compute (s.begin .miss).2 told
  rw [computed] at run
  let ended : State σ := { (s.begin .miss).2 with
    outside := { s.outside with world, loads := s.outside.loads + 1 }.taken credential key }
  have stored : finishMiss authorizer.cache s.epoch s.begun (.ok entry) ended = _ :=
    @SignatureCache.finishMiss_of_idle _ _ ended ahead idle s.begun entry
  have finish : Step authorizer ⟨ended, _, told⟩ _ :=
    @Step.finish _ _ ended _ [] callers told .authorization s.epoch s.begun (.ok entry) stored.symm
  refine ⟨_, _, .head (.begin .authorization nofun handle known miss) (run.tail finish),
    rfl, rfl, rfl, rfl, List.forall_mem_singleton.2 rfl⟩

/-- The signature is there, and the compartment is that of the credential that is kept. -/
theorem Reachable.authorize_of_served (h : Reachable authorizer ⟨s, callers, told⟩)
    (hh : authorizer.host = some host) (handle : s.handles ≠ 0)
    (served : authorizer.cache.served? s = some entry)
    (kept : s.outside.credential = some user) (own : user.defaultCompartment = some tenancy) :
    ∃ c, Reachable authorizer c ∧
      ⟨.authorize none, .headers ((headers entry tenancy).map some), s.outside.received⟩ ∈
        c.told := by
  obtain ⟨world, steps⟩ := h
  have known : authorizer.host ≠ none := by simp [hh]
  have atOnce : AtOnce authorizer s (.authorize none) := .inr (.inr (by simp [served]))
  refine ⟨_, ⟨world, steps.tail (.act (.authorize none) atOnce)⟩, ?_⟩
  have performed : authorizer.perform (.authorize none) s =
      (.headers (headersOf none (.ok entry) s), s) :=
    @perform_of_signature _ _ _ _ _ (.authorize none) nofun handle
      (signature_of_served known served)
  have mixed : headersOf none (.ok entry) s = (headers entry tenancy).map some := by
    simp only [headersOf, tolerate, chooseCompartment, kept, own, Option.orElse_eq_orElse,
      Option.orElse_eq_or, Option.none_or, Option.bind_some]
    rfl
  rw [performed, mixed]
  exact List.mem_cons_self

/-- The headers may have the signature of one principal and the tenancy of another: a claim is asked
for, and while the provider takes its time, it gives another caller a credential at once. The
signature that is made with that is stored; then the claim's load comes to an end. -/
theorem exists_mixedHeaders (hh : authorizer.host = some host)
    (waits : authorizer.provider.run 0 world = (.waiting d rest, world₁))
    (ahead : d < authorizer.cache.refreshInterval)
    (gives : authorizer.provider.run 0 world₁ = (.finished (.ok (some credential)), world₂))
    (hk : credential.key? = some key)
    (signed : Signing.sign host credential.keyId key (authorizer.dateAt 0) = .ok entry)
    (givesLater : rest.run d world₂ = (.finished (.ok (some user)), world₃))
    (hk' : user.key? = some key') (own : user.defaultCompartment = some tenancy) :
    ∃ c, Reachable authorizer c ∧
      ⟨.authorize none, .headers ((headers entry tenancy).map some), [user, credential]⟩ ∈
        c.told := by
  have looksAhead : authorizer.cache.looksAhead = true := by
    have nonzero : authorizer.cache.refreshInterval ≠ 0 := Nat.ne_zero_of_lt ahead
    have background : authorizer.cache.background = true := rfl
    simp [SignatureCache.looksAhead, nonzero, background]
  -- the load that began first comes to a wait, and another load gives what is signed with
  obtain ⟨rest', loading, loaded⟩ := @steps_claim_of_waiting _ authorizer { outside := { world } }
    [] [] _ _ _ "sub" (Nat.succ_ne_zero 0) rfl waits
  obtain ⟨s, told, stored, outside, slot, clock, handles, due⟩ :=
    @steps_authorization_of_finished _ authorizer host credential key entry
      { outside := { world := world₁, loads := 1 } } [.claim "sub" rest'] [] world₂ hh looksAhead
      (Nat.succ_ne_zero 0) rfl rfl rfl gives hk signed
  -- the wait is over before the signature is replaced in the background
  have later : max s.clock d = d := by simp [clock]
  have passed : Step authorizer ⟨s, [.claim "sub" rest'], told⟩ _ :=
    .pass d fun task hm => by simpa [due task hm] using ahead
  have gives' : rest.run (max s.clock d) s.outside.world =
      (.finished (.ok (some user)), world₃) := by
    rw [later, outside]
    exact givesLater
  have changed := loaded { s with clock := max s.clock d } told world₃ user key' gives' hk'
  have served : authorizer.cache.served? { s with
      clock := max s.clock d
      outside := { s.outside with world := world₃ }.taken user key' } = some entry := by
    have young : d < authorizer.cache.maxLifetime := ahead.trans_le (Nat.sub_le _ _)
    simp [SignatureCache.served?, slot, later, young]
  have reached : Reachable authorizer _ :=
    ⟨world, (loading.trans stored).trans (.head passed changed)⟩
  have handle : s.handles ≠ 0 := by simp [handles]
  have received : user :: s.outside.received = [user, credential] := by rw [outside]; rfl
  rw [← received]
  exact reached.authorize_of_served hh handle served rfl own

end RequestAuth.Authorizer
