import RequestAuth.Proofs.Authorizer.Hostless
import RequestAuth.Proofs.Authorizer.Loading
import RequestAuth.Proofs.Authorizer.Turn
import RequestAuth.Proofs.Authorizer.Verifiable

/-!
# How often the provider is asked

A `Ledger` is kept of the turns in which the provider has to be asked: those in which a signature
begins to be computed, or a claim is asked for, while what is kept is of no use. Such a ledger is
kept of whatever callers do (`audited_performAll`). The number of loads is its sum
(`accounted_of_audited`), whoever waits for the provider in the meantime, since all that is under
way has asked already (`Working`).

So with a user's credential the provider is never asked again once nobody waits for it
(`Turn.calm`), and with one that rotates each signature is made with a credential that was given for
just that signature.
-/

namespace RequestAuth.Authorizer

open Source (UpToDate Makes Comes computing loading)

variable {σ : Type} {authorizer : Authorizer σ} {s s' : State σ} {c c' : Scene σ} {asked : Nat}

/-! ## The ledger -/

/-- What loads are accounted for by. -/
structure Ledger where
  /-- Computations that began while there was no credential that might be used again. -/
  computations : Nat := 0
  /-- Claims that were asked for while there was no credential. -/
  claims : Nat := 0

/-- How many computations have begun in a turn, if there was no credential that might be used
again. -/
def needy (s s' : State σ) : Nat := if s.outside.wanting then s'.begun - s.begun else 0

/-- The scenes that a new authorizer may come to, and the ledger that was kept on the way. -/
inductive Audited (authorizer : Authorizer σ) : Scene σ → Ledger → Prop where
  | new (world : World σ) : Audited authorizer ⟨{ outside := { world } }, [], []⟩ {}
  | turn {c c' : Scene σ} {ledger : Ledger} {claims : Nat} (before : Audited authorizer c ledger)
      (turn : Turn authorizer claims c c') :
      Audited authorizer c' ⟨ledger.computations + needy c.state c'.state, ledger.claims + claims⟩

theorem Audited.reachable {ledger : Ledger} (h : Audited authorizer c ledger) :
    Reachable authorizer c := by
  induction h with
  | new world => exact .initial authorizer world
  | turn before turn ih => exact turn.reachable ih

theorem Audited.turns {ledger : Ledger} (h : Audited authorizer c ledger)
    (turns : Turns authorizer c c') : ∃ ledger', Audited authorizer c' ledger' := by
  induction turns with
  | refl => exact ⟨ledger, h⟩
  | tail _ turn ih =>
    obtain ⟨ledger', audited⟩ := ih
    obtain ⟨claims, turn⟩ := turn
    exact ⟨_, audited.turn turn⟩

/-- Of whatever callers do, a ledger is kept. -/
theorem audited_performAll (world : World σ) (actions : List (Action σ)) :
    ∃ replies ledger,
      Audited authorizer ⟨(authorizer.performAll actions { outside := { world } }).2, [], replies⟩
        ledger ∧
      replies.reverse.map Reply.action = actions ∧
      replies.reverse.map Reply.answer =
        (authorizer.performAll actions { outside := { world } }).1 := by
  have idle : SignatureCache.Ahead ({ outside := { world } } : State σ) := nofun
  obtain ⟨replies, turns, ha, hr⟩ := turns_performAll actions _ idle []
  rw [List.append_nil] at turns
  obtain ⟨ledger, audited⟩ := (Audited.new world).turns turns
  exact ⟨replies, ledger, audited, ha, hr⟩

/-! ## What is under way -/

/-- Of computations of signatures that are under way the one holds, and of loads for claims the
other. -/
structure Scene.All (signing : Routine (Source σ) Outcome → Prop)
    (claiming : Routine (Source σ) (Except Error Source.Identity) → Prop) (c : Scene σ) :
    Prop where
  signing : ∀ r, c.Signing r → signing r
  claiming : ∀ r, c.Claiming r → claiming r

section All

variable {signing : Routine (Source σ) Outcome → Prop}
  {claiming : Routine (Source σ) (Except Error Source.Identity) → Prop} {now : Nat}

theorem Scene.All.new (world : World σ) :
    Scene.All signing claiming ⟨{ outside := { world } }, [], []⟩ where
  signing r hr := by
    obtain task | ⟨wish, epoch, number, caller⟩ := hr
    · cases task
    · cases caller
  claiming r hr := by
    obtain ⟨name, caller⟩ := hr
    cases caller

theorem Scene.All.less (h : c.All signing claiming) (fewer : ∀ q, c'.Signing q → c.Signing q)
    (fewer' : ∀ q, c'.Claiming q → c.Claiming q) : c'.All signing claiming :=
  ⟨fun q hq => h.signing q (fewer q hq), fun q hq => h.claiming q (fewer' q hq)⟩

theorem Scene.All.signs {r : Routine (Source σ) Outcome} (h : c.All signing claiming)
    (signs : Signs now r c c') (rest : signing (r.run now c.state.outside).1.rest) :
    c'.All signing claiming where
  signing q hq := by
    obtain old | rfl := signs.signing q hq
    · exact h.signing q old
    · exact rest
  claiming q hq := h.claiming q (signs.claiming q hq)

theorem Scene.All.claims {r : Routine (Source σ) (Except Error Source.Identity)}
    (h : c.All signing claiming) (claims : Claims now r c c')
    (rest : claiming (r.run now c.state.outside).1.rest) : c'.All signing claiming where
  signing q hq := h.signing q (claims.signing q hq)
  claiming q hq := by
    obtain old | rfl := claims.claiming q hq
    · exact h.claiming q old
    · exact rest

end All

/-! ## Whoever waits has asked already -/

/-- Nothing is left to do. -/
def IsDone {α : Type} (r : Routine (Source σ) α) : Prop := ∃ a, r = .done a

/-- A computation is at its end, or the provider is at work for it. -/
def Pending (authorizer : Authorizer σ) (r : Routine (Source σ) Outcome) : Prop :=
  IsDone r ∨ ∃ host rest, authorizer.host = some host ∧ r = computing authorizer.dateAt host rest

/-- A load is at its end, or the provider is at work for it. -/
def PendingLoad (r : Routine (Source σ) (Except Error Source.Identity)) : Prop :=
  IsDone r ∨ ∃ rest, r = loading rest

variable {now : Nat} {source : Source σ} {host : String}

theorem Pending.run {r : Routine (Source σ) Outcome} (h : Pending authorizer r) (now : Nat)
    (source : Source σ) : (r.run now source).2.loads = source.loads ∧
      Pending authorizer (r.run now source).1.rest := by
  obtain ⟨outcome, rfl⟩ | ⟨host, rest, hh, rfl⟩ := h
  · exact ⟨rfl, .inl ⟨outcome, rfl⟩⟩
  · obtain ⟨d, rest', source', ran, waited⟩ | ⟨outcome, source', ran, computed⟩ :=
      Source.run_computing authorizer.dateAt host rest now source
    · rw [ran]
      exact ⟨waited.loads, .inr ⟨host, rest', hh, rfl⟩⟩
    · rw [ran]
      exact ⟨computed.loads, .inl ⟨outcome, rfl⟩⟩

theorem PendingLoad.run {r : Routine (Source σ) (Except Error Source.Identity)}
    (h : PendingLoad r) (now : Nat) (source : Source σ) :
    (r.run now source).2.loads = source.loads ∧ PendingLoad (r.run now source).1.rest := by
  obtain ⟨answer, rfl⟩ | ⟨rest, rfl⟩ := h
  · exact ⟨rfl, .inl ⟨answer, rfl⟩⟩
  · obtain ⟨d, rest', source', ran, waited⟩ | ⟨answer, source', ran, loaded⟩ :=
      Source.run_loading rest now source
    · rw [ran]
      exact ⟨waited.loads, .inr ⟨rest', rfl⟩⟩
    · rw [ran]
      exact ⟨loaded.loads, .inl ⟨answer, rfl⟩⟩

theorem compute_eq (hh : authorizer.host = some host) : authorizer.cache.compute =
    Source.compute authorizer.provider authorizer.dateAt (some host) := by
  rw [← hh]
  rfl

/-- A computation asks the provider as it begins, if there is no credential to be used again. -/
theorem run_compute (hh : authorizer.host = some host) (fresh : UpToDate source) (now : Nat) :
    (authorizer.cache.compute.run now source).2.loads =
        source.loads + (if source.wanting then 1 else 0) ∧
      Pending authorizer (authorizer.cache.compute.run now source).1.rest := by
  have wanting := fresh.reusable?_isNone
  rw [compute_eq hh]
  cases hr : source.reusable? with
  | none =>
    rw [hr] at wanting
    rw [Source.run_compute_of_none hr, ← wanting]
    exact Pending.run (.inr ⟨host, authorizer.provider, hh, rfl⟩) now _
  | some identity =>
    rw [hr] at wanting
    obtain ⟨outcome, ran⟩ :=
      Source.run_compute_of_reusable hr authorizer.provider authorizer.dateAt host now
    rw [ran, ← wanting]
    exact ⟨rfl, .inl ⟨outcome, rfl⟩⟩

/-- A load for a claim asks the provider as it begins. -/
theorem run_load (provider : Provider σ) (now : Nat) (source : Source σ) :
    ((Source.load provider).run now source).2.loads = source.loads + 1 ∧
      PendingLoad ((Source.load provider).run now source).1.rest :=
  PendingLoad.run (.inr ⟨provider, rfl⟩) now { source with loads := source.loads + 1 }

/-! ## Accounts -/

/-- Whatever is under way has nothing to ask for any more. -/
abbrev Working (authorizer : Authorizer σ) : Scene σ → Prop :=
  Scene.All (Pending authorizer) PendingLoad

/-- In one turn the provider is asked as the ledger says. -/
theorem Turn.accounts (reachable : Reachable authorizer c) (turn : Turn authorizer asked c c')
    (working : Working authorizer c) :
    c'.state.outside.loads = c.state.outside.loads + (needy c.state c'.state + asked) ∧
      Working authorizer c' := by
  have quiet (begun : c'.state.begun = c.state.begun) : needy c.state c'.state = 0 := by
    simp [needy, begun]
  cases turn.effect with
  | idle world outside begun signing claiming =>
    rw [quiet begun, outside]
    exact ⟨rfl, working.less signing claiming⟩
  | signing now under_way begun signs =>
    obtain ⟨loads, rest⟩ := (working.signing _ under_way).run now c.state.outside
    rw [quiet begun, signs.outside]
    exact ⟨loads, working.signs signs rest⟩
  | began now begun signs =>
    cases hh : authorizer.host with
    | none =>
      -- without a host no computation ever begins
      have never := ((turn.reachable reachable).unused hh).begun
      rw [begun] at never
      cases never
    | some host =>
      obtain ⟨loads, rest⟩ := run_compute hh (sound_of_reachable hh reachable).upToDate now
      rw [needy, begun, signs.outside, Nat.add_sub_cancel_left, Nat.add_zero]
      exact ⟨loads, working.signs signs rest⟩
  | claiming now under_way begun claims =>
    obtain ⟨loads, rest⟩ := (working.claiming _ under_way).run now c.state.outside
    rw [quiet begun, claims.outside]
    exact ⟨loads, working.claims claims rest⟩
  | asked now new begun claims =>
    obtain ⟨loads, rest⟩ := run_load authorizer.provider now c.state.outside
    rw [quiet begun, claims.outside]
    exact ⟨loads, working.claims claims rest⟩

theorem Audited.accounts {ledger : Ledger} (h : Audited authorizer c ledger) :
    c.state.outside.loads = ledger.computations + ledger.claims ∧ Working authorizer c := by
  induction h with
  | new world => exact ⟨rfl, .new world⟩
  | turn before turn ih =>
    obtain ⟨loads, working⟩ := ih
    obtain ⟨loads', working'⟩ := turn.accounts before.reachable working
    refine ⟨?_, working'⟩
    dsimp only
    omega

/-- Without a host nothing is put down to computations. -/
theorem Audited.computations_eq_zero {ledger : Ledger} (hh : authorizer.host = none)
    (h : Audited authorizer c ledger) : ledger.computations = 0 := by
  induction h with
  | new world => rfl
  | @turn c c' ledger claims before turn ih =>
    have begun := ((turn.reachable before.reachable).unused hh).begun
    simp only [needy, ih, begun, Nat.zero_sub, ite_self, Nat.add_zero]

/-! ## Credentials that are used again -/

/-- Nobody waits for the provider. -/
abbrev Scene.Calm : Scene σ → Prop := Scene.All IsDone IsDone

/-- A computation that may use the credential that is kept is at its end at once. -/
theorem run_compute_of_kept (reachable : Reachable authorizer c)
    (kept : c.state.outside.wanting = false) (now : Nat) :
    ∃ outcome, authorizer.cache.compute.run now c.state.outside =
      (.finished outcome, c.state.outside) := by
  cases hh : authorizer.host with
  | none =>
    have compute : authorizer.cache.compute = .done (.error .noHost) := by
      change Source.compute _ _ authorizer.host = _
      rw [hh]
      rfl
    rw [compute]
    exact ⟨_, rfl⟩
  | some host =>
    have reusable := (sound_of_reachable hh reachable).upToDate.reusable?_isNone
    rw [kept] at reusable
    obtain ⟨identity, hr⟩ := Option.isSome_iff_exists.1 (Option.isNone_eq_false_iff.1 reusable)
    rw [compute_eq hh]
    exact Source.run_compute_of_reusable hr authorizer.provider authorizer.dateAt host now

/-- The provider has nothing to do, and is not asked in the next turn. -/
theorem Turn.calm (reachable : Reachable authorizer c) (turn : Turn authorizer asked c c')
    (calm : c.Calm) (kept : c.state.outside.wanting = false) :
    c'.Calm ∧ c'.state.outside.wanting = false ∧
      c'.state.outside.loads = c.state.outside.loads := by
  cases turn.effect with
  | idle world outside begun signing claiming =>
    rw [outside]
    exact ⟨calm.less signing claiming, kept, rfl⟩
  | signing now under_way begun signs =>
    obtain ⟨outcome, rfl⟩ := calm.signing _ under_way
    rw [signs.outside]
    exact ⟨calm.signs signs ⟨outcome, rfl⟩, kept, rfl⟩
  | began now begun signs =>
    obtain ⟨outcome, ran⟩ := run_compute_of_kept reachable kept now
    rw [signs.outside, ran]
    refine ⟨calm.signs signs ⟨outcome, ?_⟩, kept, rfl⟩
    rw [ran]
    rfl
  | claiming now under_way begun claims =>
    obtain ⟨answer, rfl⟩ := calm.claiming _ under_way
    rw [claims.outside]
    exact ⟨calm.claims claims ⟨answer, rfl⟩, kept, rfl⟩
  | asked now new begun claims =>
    rw [Source.wanting, new] at kept
    cases kept

theorem Turns.calm (reachable : Reachable authorizer c) (turns : Turns authorizer c c')
    (calm : c.Calm) (kept : c.state.outside.wanting = false) :
    c'.Calm ∧ c'.state.outside.wanting = false ∧
      c'.state.outside.loads = c.state.outside.loads ∧ Reachable authorizer c' := by
  induction turns with
  | refl => exact ⟨calm, kept, rfl, reachable⟩
  | tail _ turn ih =>
    obtain ⟨claims, turn⟩ := turn
    obtain ⟨calm', kept', loads, reachable'⟩ := ih
    obtain ⟨calm'', kept'', same⟩ := turn.calm reachable' calm' kept'
    exact ⟨calm'', kept'', same.trans loads, turn.reachable reachable'⟩

/-! ## Signatures that are kept -/

/-- What finds a signature leaves the authorizer as it is. -/
theorem perform_wish_of_served {wish : Wish} {entry : DatedSignature}
    (new : ∀ id, wish ≠ .collect id) (served : authorizer.cache.served? s = some entry) :
    (authorizer.perform wish.action s).2 = s := by
  by_cases handle : s.handles = 0
  · have needs : (wish.action : Action σ).needsHandle = true := by
      cases wish with
      | collect id => exact absurd rfl (new id)
      | authorization | authorize | sign => rfl
    rw [perform.eq_def, if_pos ⟨needs, handle⟩]
  · rw [perform_wish new handle]
    by_cases hh : authorizer.host = none
    · rw [signature_of_hostless hh]
    · rw [signature_of_served hh served]

theorem idle_start_of_served {entry : DatedSignature} (id : Nat)
    (served : authorizer.cache.served? s = some entry) :
    SignatureCache.Idle s (authorizer.perform (.start id) s).2 := by
  by_cases noHandle : (Action.start id : Action σ).needsHandle = true ∧ s.handles = 0
  · rw [perform.eq_def, if_pos noHandle]
    exact .refl s
  · rw [perform.eq_def, if_neg noHandle]
    simp only [start, SignatureCache.start, served]
    split <;> exact ⟨rfl, rfl, List.Subset.refl _⟩

/-! ## All together -/

/-- The loads are those that the ledger has, and are asked for as credentials are of use. -/
structure Accounted (authorizer : Authorizer σ) (c : Scene σ) (ledger : Ledger) : Prop where
  loads : c.state.outside.loads = ledger.computations + ledger.claims
  hostless : authorizer.host = none → ledger.computations = 0
  /-- With the credential of a user, nothing makes the provider be asked again. -/
  once : ∀ user, c.state.outside.credential = some user → user.kind = .user → c.Calm →
    ∀ c', Turns authorizer c c' → c'.state.outside.loads = c.state.outside.loads
  /-- Without a credential that may be used again, a computation that begins makes its signature
  with one that it is given itself. -/
  own : ∀ host, authorizer.host = some host → c.state.outside.wanting = true →
    ∀ given entry, Comes authorizer.cache.compute c.state.outside given (.ok entry) →
      ∃ credential, given = [credential] ∧ Makes authorizer.dateAt host credential entry
  /-- So does whatever computation is under way. -/
  own_later : ∀ host, authorizer.host = some host → ∀ r, c.Signing r → ¬ IsDone r →
    ∀ source given entry, Comes r source given (.ok entry) →
      ∃ credential, given = [credential] ∧ Makes authorizer.dateAt host credential entry
  /-- Nothing is loaded, or begins, for what finds a signature. -/
  hit : ∀ entry, authorizer.cache.served? c.state = some entry →
    (∀ wish : Wish, (∀ id, wish ≠ .collect id) →
      (authorizer.perform wish.action c.state).2 = c.state) ∧
    ∀ id, SignatureCache.Idle c.state (authorizer.perform (.start id) c.state).2

/-- The provider is asked exactly when a signature begins to be computed, or a claim is asked for,
for which no credential can be used. -/
theorem accounted_of_audited {ledger : Ledger} (h : Audited authorizer c ledger) :
    Accounted authorizer c ledger := by
  obtain ⟨loads, working⟩ := h.accounts
  refine ⟨loads, fun hh => h.computations_eq_zero hh, ?_, ?_, ?_, ?_⟩
  · intro user kept kind calm c' turns
    have reused : c.state.outside.wanting = false := by
      simp [Source.wanting, kept, CredentialKind.isRotating, kind]
    exact (Turns.calm h.reachable turns calm reused).2.2.1
  · intro host hh wanting given entry comes
    have reusable := (sound_of_reachable hh h.reachable).upToDate.reusable?_isNone
    rw [wanting] at reusable
    rw [compute_eq hh] at comes
    exact Source.comes_compute (Option.isNone_iff_eq_none.1 reusable) comes
  · intro host hh r under_way waits source given entry comes
    obtain done | ⟨host', rest, hh', rfl⟩ := working.signing r under_way
    · exact absurd done waits
    · obtain rfl : host' = host := Option.some.inj (hh'.symm.trans hh)
      exact Source.comes_computing comes
  · intro entry served
    exact ⟨fun wish new => perform_wish_of_served new served,
      fun id => idle_start_of_served id served⟩

/-- A signature begins to be computed while the provider takes its time over a claim: the provider
is asked twice. -/
theorem accounted_sample :
    ∃ c, Audited sample c ⟨1, 1⟩ ∧ c.callers.length = 2 ∧ Accounted sample c ⟨1, 1⟩ := by
  obtain ⟨s, callers, told, claimed, handle, miss, wanting, one⟩ : ∃ s callers told,
      Audited sample ⟨s, callers, told⟩ ⟨0, 1⟩ ∧ s.handles ≠ 0 ∧ sample.cache.served? s = none ∧
        s.outside.wanting = true ∧ callers.length = 1 := by
    have asked : Turn sample 1 _ _ := @Turn.load Bool sample
      { outside := { world := ⟨{}, false⟩ } } [] [] _ "sub" (by decide) rfl rfl
    exact ⟨_, _, _, (Audited.new ⟨{}, false⟩).turn asked, by decide, rfl, rfl, rfl⟩
  have begun : Turn sample 0 ⟨s, callers, told⟩ _ :=
    .begin .authorization nofun handle (by decide) miss rfl
  have needed : ∀ s' : State Bool, s'.begun = s.begun + 1 → needy s s' = 1 := by
    intro s' one_more
    simp [needy, wanting, one_more]
  have both : Audited sample _ ⟨0 + needy s _, 1 + 0⟩ := claimed.turn begun
  rw [needed _ rfl] at both
  exact ⟨_, both, by simp [one], accounted_of_audited both⟩

end RequestAuth.Authorizer
