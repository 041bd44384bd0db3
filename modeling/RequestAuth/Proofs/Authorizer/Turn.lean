import RequestAuth.Proofs.Alike
import RequestAuth.Proofs.Authorizer.Steps
import RequestAuth.Proofs.SignatureCache.Ahead
import RequestAuth.Proofs.SignatureCache.Turn

/-!
# Turns of an authorizer

Where one thread serves everybody, whoever goes on does so up to the next wait, and nobody comes in
between. `Turn` is the relation between an authorizer before and after one such turn, so that a
caller who begins to compute a signature has asked the provider, or not, by the end of the turn.
`Turn.effect` says once for all of them what a turn may have carried out: nothing, or one routine,
which was under way or has begun with it.

What a single caller does is done in turns (`turns_performAll`).
-/

namespace RequestAuth.Authorizer

open SignatureCache (takeAnswer? takeCall? Call restsOf Idle Ahead)

variable {σ : Type} {authorizer : Authorizer σ} {s s' : State σ} {c c' : Scene σ}
  {callers callers' : List (Caller σ)} {told told' : List (Reply σ)} {claims : Nat}

/-- A caller goes on up to its next wait, or to its end. -/
def Caller.run (now : Nat) (source : Source σ) : Caller σ → Caller σ × Source σ
  | signature wish epoch number rest =>
    (.signature wish epoch number (rest.run now source).1.rest, (rest.run now source).2)
  | claim name rest => (.claim name (rest.run now source).1.rest, (rest.run now source).2)

/-- The turns of an authorizer. The number is that of claims that are asked for while there is no
credential. -/
inductive Turn (authorizer : Authorizer σ) : Nat → Scene σ → Scene σ → Prop where
  /-- A step in which no caller goes on, or comes. -/
  | step {c c' : Scene σ} (step : Step authorizer c c') (others : c'.callers.Sublist c.callers) :
      Turn authorizer 0 c c'
  | await {s : State σ} {callers : List (Caller σ)} {told : List (Reply σ)} {id : Nat}
      {call : Call (Source σ)} {tasks : List (SignatureCache.Task (Source σ))}
      (found : takeCall? id s.tasks = some (call, tasks)) :
      Turn authorizer 0 ⟨s, callers, told⟩
        ⟨{ s with tasks, handles := s.handles + 1 },
          .signature (.collect id) call.epoch call.number call.rest :: callers, told⟩
  | begin {s : State σ} {callers : List (Caller σ)} {told : List (Reply σ)} {caller : Caller σ}
      (wish : Wish) (new : ∀ id, wish ≠ .collect id) (handle : s.handles ≠ 0)
      (host : authorizer.host ≠ none) (miss : authorizer.cache.served? s = none)
      (starts : caller = .signature wish s.epoch s.begun authorizer.cache.compute) :
      Turn authorizer 0 ⟨s, callers, told⟩
        ⟨{ (s.begin .miss).2 with outside := (caller.run s.clock s.outside).2 },
          (caller.run s.clock s.outside).1 :: callers, told⟩
  | load {s : State σ} {callers : List (Caller σ)} {told : List (Reply σ)} {caller : Caller σ}
      (name : String) (handle : s.handles ≠ 0) (new : s.outside.credential = none)
      (starts : caller = .claim name (Source.load authorizer.provider)) :
      Turn authorizer 1 ⟨s, callers, told⟩
        ⟨{ s with outside := (caller.run s.clock s.outside).2 },
          (caller.run s.clock s.outside).1 :: callers, told⟩
  | go {s : State σ} {before after : List (Caller σ)} {told : List (Reply σ)}
      (caller : Caller σ) :
      Turn authorizer 0 ⟨s, before ++ caller :: after, told⟩
        ⟨{ s with outside := (caller.run s.clock s.outside).2 },
          before ++ (caller.run s.clock s.outside).1 :: after, told⟩

theorem steps_caller_run (caller : Caller σ) (before after : List (Caller σ)) (s : State σ)
    (told : List (Reply σ)) :
    Steps authorizer ⟨s, before ++ caller :: after, told⟩
      ⟨{ s with outside := (caller.run s.clock s.outside).2 },
        before ++ (caller.run s.clock s.outside).1 :: after, told⟩ := by
  cases caller with
  | signature wish epoch number rest =>
    exact steps_run (.signature wish epoch number) before after (fun _ _ _ => rfl) rest s told
  | claim name rest => exact steps_run (.claim name) before after (fun _ _ _ => rfl) rest s told

theorem Turn.steps (turn : Turn authorizer claims c c') : Steps authorizer c c' := by
  cases turn with
  | step step => exact .single step
  | await found => exact .single (.await found)
  | @begin s callers told caller wish new handle host miss starts =>
    have run : Steps authorizer _ _ := steps_caller_run caller [] callers (s.begin .miss).2 told
    subst starts
    exact .head (.begin wish new handle host miss) run
  | @load s callers told caller name handle new starts =>
    have run : Steps authorizer _ _ := steps_caller_run caller [] callers s told
    subst starts
    exact .head (.load name handle new) run
  | @go s before after told caller => exact steps_caller_run caller before after s told

theorem Turn.reachable (turn : Turn authorizer claims c c') (h : Reachable authorizer c) :
    Reachable authorizer c' := by
  obtain ⟨world, steps⟩ := h
  exact ⟨world, steps.trans turn.steps⟩

/-! ## What a turn carries out -/

/-- The rest of the computation of a signature is under way, or its outcome is to be told. -/
def Scene.Signing (c : Scene σ) (r : Routine (Source σ) Outcome) : Prop :=
  r ∈ restsOf c.state.tasks ∨
    ∃ wish epoch number, Caller.signature wish epoch number r ∈ c.callers

/-- The rest of a load for a claim is under way, or what it has come to is to be told. -/
def Scene.Claiming (c : Scene σ) (r : Routine (Source σ) (Except Error Source.Identity)) : Prop :=
  ∃ name, Caller.claim name r ∈ c.callers

/-- A computation of a signature is carried out up to a wait or to its end. -/
structure Signs (now : Nat) (r : Routine (Source σ) Outcome) (c c' : Scene σ) : Prop where
  outside : c'.state.outside = (r.run now c.state.outside).2
  signing : ∀ q, c'.Signing q → c.Signing q ∨ q = (r.run now c.state.outside).1.rest
  claiming : ∀ q, c'.Claiming q → c.Claiming q

/-- A load for a claim is carried out up to a wait or to its end. -/
structure Claims (now : Nat) (r : Routine (Source σ) (Except Error Source.Identity))
    (c c' : Scene σ) : Prop where
  outside : c'.state.outside = (r.run now c.state.outside).2
  signing : ∀ q, c'.Signing q → c.Signing q
  claiming : ∀ q, c'.Claiming q → c.Claiming q ∨ q = (r.run now c.state.outside).1.rest

/-- What a turn may have carried out. -/
inductive Effect (authorizer : Authorizer σ) (c c' : Scene σ) : Nat → Prop where
  /-- Nothing, though what the provider finds may have changed. -/
  | idle (world : World σ) (outside : c'.state.outside = { c.state.outside with world })
      (begun : c'.state.begun = c.state.begun) (signing : ∀ q, c'.Signing q → c.Signing q)
      (claiming : ∀ q, c'.Claiming q → c.Claiming q) : Effect authorizer c c' 0
  | signing (now : Nat) {r : Routine (Source σ) Outcome} (under_way : c.Signing r)
      (begun : c'.state.begun = c.state.begun) (signs : Signs now r c c') :
      Effect authorizer c c' 0
  | began (now : Nat) (begun : c'.state.begun = c.state.begun + 1)
      (signs : Signs now authorizer.cache.compute c c') : Effect authorizer c c' 0
  | claiming (now : Nat) {r : Routine (Source σ) (Except Error Source.Identity)}
      (under_way : c.Claiming r) (begun : c'.state.begun = c.state.begun)
      (claims : Claims now r c c') : Effect authorizer c c' 0
  | asked (now : Nat) (new : c.state.outside.credential = none)
      (begun : c'.state.begun = c.state.begun)
      (claims : Claims now (Source.load authorizer.provider) c c') : Effect authorizer c c' 1

theorem Scene.Signing.mono {q : Routine (Source σ) Outcome}
    (h : Scene.Signing ⟨s', callers', told'⟩ q) (tasks : restsOf s'.tasks ⊆ restsOf s.tasks)
    (others : callers' ⊆ callers) : Scene.Signing ⟨s, callers, told⟩ q := by
  obtain task | ⟨wish, epoch, number, caller⟩ := h
  · exact .inl (tasks task)
  · exact .inr ⟨wish, epoch, number, others caller⟩

theorem Scene.Claiming.mono {q : Routine (Source σ) (Except Error Source.Identity)}
    (h : Scene.Claiming ⟨s', callers', told'⟩ q) (others : callers' ⊆ callers) :
    Scene.Claiming ⟨s, callers, told⟩ q := by
  obtain ⟨name, caller⟩ := h
  exact ⟨name, others caller⟩

theorem effect_of_idle (idle : Idle s s') (others : callers' ⊆ callers) :
    Effect authorizer ⟨s, callers, told⟩ ⟨s', callers', told'⟩ 0 := by
  refine .idle s.outside.world idle.outside idle.begun (fun q hq => ?_) (fun q hq => ?_)
  · exact hq.mono idle.rests others
  · exact hq.mono others

theorem signs_of_carried {now : Nat} {r : Routine (Source σ) Outcome} {s₀ : State σ}
    (h : SignatureCache.Carried now r s₀ s') (outside : s₀.outside = s.outside)
    (tasks : s₀.tasks = s.tasks) (others : callers' ⊆ callers) :
    Signs now r ⟨s, callers, told⟩ ⟨s', callers', told'⟩ := by
  refine ⟨outside ▸ h.outside, fun q hq => ?_, fun q hq => hq.mono others⟩
  obtain task | ⟨wish, epoch, number, caller⟩ := hq
  · obtain held | ⟨d, waiting⟩ := h.rests q task
    · exact .inl (.inl (tasks ▸ held))
    · rw [outside] at waiting
      right
      rw [waiting]
      rfl
  · exact .inl (.inr ⟨wish, epoch, number, others caller⟩)

theorem effect_of_turn (turn : SignatureCache.Turn authorizer.cache s s')
    (others : callers' ⊆ callers) :
    Effect authorizer ⟨s, callers, told⟩ ⟨s', callers', told'⟩ 0 := by
  cases turn with
  | idle h => exact effect_of_idle h others
  | resumed now under_way h =>
    exact .signing now (.inl under_way) h.begun (signs_of_carried h rfl rfl others)
  | began now h => exact .began now h.begun (signs_of_carried h rfl rfl others)

/-! ## Steps in which no caller goes on -/

/-- A wish for a signature leaves the authorizer as computing one does. -/
theorem perform_wish {wish : Wish} (new : ∀ id, wish ≠ .collect id) (handle : s.handles ≠ 0) :
    (authorizer.perform wish.action s).2 = (authorizer.signature s).2 := by
  have signed : ∃ outcome, authorizer.signature s =
      (tolerate outcome, (authorizer.signature s).2) := by
    by_cases host : authorizer.host = none
    · refine ⟨.error .noHost, ?_⟩
      simp only [signature, host]
      rfl
    · rw [signature_of_host host]
      exact ⟨_, rfl⟩
  obtain ⟨outcome, signed⟩ := signed
  rw [perform_of_signature new handle signed]

/-- A signature that needs no computation leaves the authorizer as it is. -/
theorem signature_atOnce {wish : Wish} (new : ∀ id, wish ≠ .collect id) (handle : s.handles ≠ 0)
    (atOnce : AtOnce authorizer s wish.action) : (authorizer.signature s).2 = s := by
  have served : authorizer.host = none ∨ authorizer.cache.served? s ≠ none := by
    cases wish with
    | collect id => exact absurd rfl (new id)
    | authorization | authorize | sign => exact atOnce.resolve_left handle
  by_cases host : authorizer.host = none
  · simp only [signature, host]
  · obtain ⟨entry, found⟩ := Option.ne_none_iff_exists'.1 (served.resolve_left host)
    rw [signature_of_served host found]

/-- What is done at once changes what the provider finds, or is an act of the cache. -/
theorem turn_perform {action : Action σ} (atOnce : AtOnce authorizer s action) :
    (∃ world, (authorizer.perform action s).2 =
      { s with outside := { s.outside with world } }) ∨
    SignatureCache.Turn authorizer.cache s (authorizer.perform action s).2 := by
  by_cases noHandle : action.needsHandle = true ∧ s.handles = 0
  · right
    rw [perform.eq_def, if_pos noHandle]
    exact .idle (.refl s)
  have handle : action.needsHandle = true → s.handles ≠ 0 := fun needs no => noHandle ⟨needs, no⟩
  have wished (wish : Wish) (new : ∀ id, wish ≠ .collect id) (same : wish.action = action)
      (needs : action.needsHandle = true) :
      SignatureCache.Turn authorizer.cache s (authorizer.perform action s).2 := by
    subst same
    rw [perform_wish new (handle needs), signature_atOnce new (handle needs) atOnce]
    exact .idle (.refl s)
  have performed : authorizer.perform action s = _ := (perform.eq_def ..).trans (if_neg noHandle)
  cases action with
  | authorization => exact .inr (wished .authorization nofun rfl rfl)
  | authorize compartment => exact .inr (wished (.authorize compartment) nofun rfl rfl)
  | sign request compartment => exact .inr (wished (.sign request compartment) nofun rfl rfl)
  | sleep d => exact atOnce.elim
  | change f => exact .inl ⟨_, rfl⟩
  | region | acquire =>
    right
    rw [performed]
    exact .idle ⟨rfl, rfl, List.Subset.refl _⟩
  | claim name =>
    obtain ⟨credential, hc⟩ := Option.ne_none_iff_exists'.1 (atOnce.resolve_left (handle rfl))
    right
    rw [performed]
    simp only [claim, someCredential, hc]
    split <;> exact .idle (.refl s)
  | close =>
    right
    rw [performed]
    exact .idle (.close s)
  | release => exact .inr (.idle (.release s))
  | start id =>
    right
    rw [performed]
    simp only [start]
    split
    · exact .idle ⟨rfl, rfl, List.Subset.refl _⟩
    · exact SignatureCache.turn_start id s
  | collect id =>
    right
    simp only [perform, Action.needsHandle, Bool.false_eq_true, false_and, if_false, collect,
      SignatureCache.collect]
    split
    · exact .idle ⟨rfl, rfl, List.Subset.refl _⟩
    · next pending =>
      have unknown : takeCall? id s.tasks = none := atOnce.resolve_left (not_not.2 pending)
      rw [unknown]
      exact .idle (.refl s)

theorem Caller.ne_of_step? {caller caller' : Caller σ} {now : Nat} {source source' : Source σ}
    (h : caller.step? now source = some (caller', source')) : caller' ≠ caller := by
  intro same
  subst same
  cases caller' with
  | signature wish epoch number rest | claim name rest =>
    obtain ⟨⟨rest', outside⟩, on, he⟩ := Option.map_eq_some_iff.1 h
    cases he
    exact Routine.ne_of_step? on rfl

theorem idle_release (wish : Wish) (s : State σ) : Idle s (wish.release s) := by
  cases wish with
  | collect id => exact .release s
  | authorization | authorize | sign => exact .refl s

theorem Step.effect (step : Step authorizer c c') (others : c'.callers.Sublist c.callers) :
    Effect authorizer c c' 0 := by
  -- no caller comes, and none goes on, since the rest would be another one
  have fewer := others.length_le
  cases step with
  | act action atOnce =>
    obtain ⟨world, same⟩ | turn := turn_perform atOnce
    · rw [same]
      refine .idle world rfl rfl (fun q hq => ?_) (fun q hq => hq)
      exact hq.mono (List.Subset.refl _) (List.Subset.refl _)
    · exact effect_of_turn turn (List.Subset.refl _)
  | pass t early => exact effect_of_idle ⟨rfl, rfl, List.Subset.refl _⟩ (List.Subset.refl _)
  | wake d => exact effect_of_idle (.refl _) (List.Subset.refl _)
  | fire held first => exact effect_of_turn (SignatureCache.turn_fire held) (List.Subset.refl _)
  | begin | await | load => exact absurd fewer (Nat.not_succ_le_self _)
  | @go s before after told caller caller' outside on =>
    have same := others.eq_of_length (by simp)
    exact absurd (by simpa using same) (Caller.ne_of_step? on)
  | @finish s s' before after told wish epoch number outcome done =>
    subst done
    have ended : Idle s (s.finishMiss authorizer.cache epoch number outcome) :=
      .finish (.miss epoch number) outcome s
    exact effect_of_idle (ended.trans (idle_release wish _)) others.subset
  | tell => exact effect_of_idle (.refl _) others.subset
  | @leave s before after told caller =>
    refine effect_of_idle ?_ others.subset
    cases caller with
    | signature wish epoch number rest => exact idle_release wish s
    | claim name rest => exact .refl s

/-! ## Turns -/

theorem eq_or_mem_of_mem {α : Type} {x y : α} {before after all : List α}
    (h : x ∈ before ++ y :: after) (others : before ++ after ⊆ all) : x = y ∨ x ∈ all := by
  obtain first | same | last : x ∈ before ∨ x = y ∨ x ∈ after := by simpa using h
  · exact .inr (others (List.mem_append_left _ first))
  · exact .inl same
  · exact .inr (others (List.mem_append_right _ last))

theorem signs_of_run {now : Nat} {r : Routine (Source σ) Outcome} {before after : List (Caller σ)}
    (wish : Wish) (epoch number : Nat) (outside : s'.outside = (r.run now s.outside).2)
    (tasks : s'.tasks = s.tasks) (others : before ++ after ⊆ callers) :
    Signs now r ⟨s, callers, told⟩ ⟨s',
      before ++ .signature wish epoch number (r.run now s.outside).1.rest :: after, told'⟩ := by
  refine ⟨outside, fun q hq => ?_, fun q hq => ?_⟩
  · obtain task | ⟨wish', epoch', number', caller⟩ := hq
    · exact .inl (.inl (tasks ▸ task))
    · obtain same | other := eq_or_mem_of_mem caller others
      · cases same
        exact .inr rfl
      · exact .inl (.inr ⟨wish', epoch', number', other⟩)
  · obtain ⟨name, caller⟩ := hq
    exact ⟨name, (eq_or_mem_of_mem caller others).resolve_left nofun⟩

theorem claims_of_run {now : Nat} {r : Routine (Source σ) (Except Error Source.Identity)}
    {before after : List (Caller σ)} (name : String)
    (outside : s'.outside = (r.run now s.outside).2) (tasks : s'.tasks = s.tasks)
    (others : before ++ after ⊆ callers) :
    Claims now r ⟨s, callers, told⟩
      ⟨s', before ++ .claim name (r.run now s.outside).1.rest :: after, told'⟩ := by
  refine ⟨outside, fun q hq => ?_, fun q hq => ?_⟩
  · obtain task | ⟨wish, epoch, number, caller⟩ := hq
    · exact .inl (tasks ▸ task)
    · exact .inr ⟨wish, epoch, number, (eq_or_mem_of_mem caller others).resolve_left nofun⟩
  · obtain ⟨name', caller⟩ := hq
    obtain same | other := eq_or_mem_of_mem caller others
    · cases same
      exact .inr rfl
    · exact .inl ⟨name', other⟩

theorem Turn.effect (turn : Turn authorizer claims c c') : Effect authorizer c c' claims := by
  cases turn with
  | step step others => exact step.effect others
  | @await s callers told id call tasks found =>
    obtain ⟨before, after, held, rfl⟩ := SignatureCache.takeCall?_eq_some found
    have fewer : before ++ after ⊆ s.tasks := fun other ho =>
      held ▸ SignatureCache.mem_of_mem_others ho
    refine .idle s.outside.world rfl rfl (fun q hq => ?_) (fun q hq => ?_)
    · obtain task | ⟨wish, epoch, number, caller⟩ := hq
      · exact .inl (SignatureCache.restsOf_subset fewer task)
      · obtain same | other := List.mem_cons.1 caller
        · -- the call was under way as a task before
          cases same
          have task : ⟨call.due, .calling id call.epoch call.number call.rest⟩ ∈ s.tasks := by
            simp [held]
          exact .inl (List.mem_filterMap.2 ⟨_, task, rfl⟩)
        · exact .inr ⟨wish, epoch, number, other⟩
    · obtain ⟨name, caller⟩ := hq
      exact ⟨name, (List.mem_cons.1 caller).resolve_left nofun⟩
  | @begin s callers told caller wish new handle host miss starts =>
    subst starts
    refine .began s.clock rfl ?_
    exact @signs_of_run σ s _ callers told told s.clock _ [] callers wish s.epoch s.begun rfl rfl
      (List.Subset.refl _)
  | @load s callers told caller name handle new starts =>
    subst starts
    refine .asked s.clock new rfl ?_
    exact @claims_of_run σ s _ callers told told s.clock _ [] callers name rfl rfl
      (List.Subset.refl _)
  | @go s before after told caller =>
    have others : before ++ after ⊆ before ++ caller :: after := fun _ ho =>
      SignatureCache.mem_of_mem_others ho
    cases caller with
    | signature wish epoch number rest =>
      have under_way : Scene.Signing ⟨s, before ++ .signature wish epoch number rest :: after, told⟩
          rest := .inr ⟨wish, epoch, number, by simp⟩
      exact .signing s.clock under_way rfl (signs_of_run wish epoch number rfl rfl others)
    | claim name rest =>
      have under_way : Scene.Claiming ⟨s, before ++ .claim name rest :: after, told⟩ rest :=
        ⟨name, by simp⟩
      exact .claiming s.clock under_way rfl (claims_of_run name rfl rfl others)

/-! ## Actions are turns -/

/-- Any number of turns. -/
abbrev Turns (authorizer : Authorizer σ) : Scene σ → Scene σ → Prop :=
  Relation.ReflTransGen fun c c' => ∃ claims, Turn authorizer claims c c'

theorem turns_advanceTo (t : Nat) (s : State σ) (callers : List (Caller σ))
    (told : List (Reply σ)) :
    Turns authorizer ⟨s, callers, told⟩ ⟨s.advanceTo authorizer.cache t, callers, told⟩ := by
  apply SignatureCache.advanceTo_induct
    (P := fun s' => Turns authorizer ⟨s, callers, told⟩ ⟨s', callers, told⟩) t
  case fire => exact fun _ _ _ _ held first h => h.tail ⟨0, .step (.fire held first) (.refl _)⟩
  case pass => exact fun _ early h => h.tail ⟨0, .step (.pass t early) (.refl _)⟩
  case h => exact .refl

theorem Turn.go_only {α : Type} (hold : Routine (Source σ) α → Caller σ)
    (on : ∀ now source rest, (hold rest).run now source =
      (hold (rest.run now source).1.rest, (rest.run now source).2))
    (r : Routine (Source σ) α) (s : State σ) (told : List (Reply σ)) :
    Turn authorizer 0 ⟨s, [hold r], told⟩ ⟨{ s with outside := (r.run s.clock s.outside).2 },
      [hold (r.run s.clock s.outside).1.rest], told⟩ := by
  have goes : Turn authorizer 0 ⟨s, [] ++ hold r :: [], told⟩ _ := .go (hold r)
  rwa [on] at goes

/-- The only caller, who has come to a wait or to the end, goes on to the end. -/
theorem turns_complete {α : Type} {hold : Routine (Source σ) α → Caller σ}
    (on : ∀ now source rest, (hold rest).run now source =
      (hold (rest.run now source).1.rest, (rest.run now source).2))
    (r : Routine (Source σ) α) (s : State σ) (ahead : Ahead s) (told : List (Reply σ)) :
    Turns authorizer
      ⟨{ s with outside := (r.run s.clock s.outside).2 },
        [hold (r.run s.clock s.outside).1.rest], told⟩
      ⟨(s.complete authorizer.cache r).2, [hold (.done (s.complete authorizer.cache r).1)],
        told⟩ := by
  induction r using Routine.run_induct generalizing s with
  | h r ih =>
    rcases hr : r.run s.clock s.outside with ⟨progress, outside⟩
    cases progress with
    | finished a =>
      rw [SignatureCache.complete_of_finished ahead hr]
      exact .refl
    | waiting d rest =>
      rw [SignatureCache.complete_of_waiting ahead hr]
      have passes : Turns authorizer ⟨{ s with outside }, [hold rest], told⟩ _ :=
        turns_advanceTo (s.clock + d) { s with outside } [hold rest] told
      have due : Ahead ({ s with outside }.advance authorizer.cache d) :=
        SignatureCache.ahead_advanceTo (Nat.le_add_right _ _)
      exact (passes.tail ⟨0, .go_only hold on rest _ told⟩).trans (ih _ _ _ _ _ hr _ due)

/-- The only caller waits for a signature to the end. -/
theorem turns_wait (wish : Wish) (epoch number : Nat) (r : Routine (Source σ) Outcome)
    (s : State σ) (ahead : Ahead s) (told : List (Reply σ)) :
    let s' := wish.release ((s.complete authorizer.cache r).2.finishMiss authorizer.cache epoch
      number (s.complete authorizer.cache r).1)
    Turns authorizer
      ⟨{ s with outside := (r.run s.clock s.outside).2 },
        [.signature wish epoch number (r.run s.clock s.outside).1.rest], told⟩
      ⟨s', [], reply wish.action (wish.answer (s.complete authorizer.cache r).1 s') s' :: told⟩ :=
  (turns_complete (fun _ _ _ => rfl) r s ahead told).tail
    ⟨0, .step (.finish_only wish epoch number _ _ told) (List.nil_sublist _)⟩

theorem turns_wish (wish : Wish) (new : ∀ id, wish ≠ .collect id) (s : State σ) (ahead : Ahead s)
    (told : List (Reply σ)) :
    Turns authorizer ⟨s, [], told⟩ ⟨(authorizer.perform wish.action s).2, [],
      reply wish.action (authorizer.perform wish.action s).1
        (authorizer.perform wish.action s).2 :: told⟩ := by
  by_cases atOnce : AtOnce authorizer s wish.action
  · exact .single ⟨0, .step (.act _ atOnce) (.refl _)⟩
  · obtain ⟨handle, host, miss⟩ := not_atOnce new atOnce
    have begun : Ahead (s.begin .miss).2 := ahead
    have waited : Turns authorizer _ _ :=
      turns_wait wish s.epoch s.begun authorizer.cache.compute (s.begin .miss).2 begun told
    rw [Wish.release_of_new new] at waited
    rw [perform_of_signature new handle (signature_of_host host), fetch_of_miss miss]
    exact .head ⟨0, .begin wish new handle host miss rfl⟩ waited

theorem turns_collect (id : Nat) (s : State σ) (ahead : Ahead s) (told : List (Reply σ)) :
    Turns authorizer ⟨s, [], told⟩ ⟨(authorizer.perform (.collect id) s).2, [],
      reply (.collect id) (authorizer.perform (.collect id) s).1
        (authorizer.perform (.collect id) s).2 :: told⟩ := by
  by_cases atOnce : AtOnce authorizer s (.collect id)
  · exact .single ⟨0, .step (.act _ atOnce) (.refl _)⟩
  · obtain ⟨pending, known⟩ : takeAnswer? id s.answers = none ∧ takeCall? id s.tasks ≠ none := by
      simpa [AtOnce] using atOnce
    obtain ⟨⟨call, tasks⟩, found⟩ := Option.ne_none_iff_exists'.1 known
    obtain ⟨before, after, held, -⟩ := SignatureCache.takeCall?_eq_some found
    have due : s.clock ≤ call.due := by
      apply Nat.le_of_lt
      exact ahead ⟨call.due, .calling id call.epoch call.number call.rest⟩ (by simp [held])
    -- the call is due only later, and goes on then
    have passes : Turns authorizer _ _ := turns_advanceTo call.due
      { s with tasks, handles := s.handles + 1 }
      [.signature (.collect id) call.epoch call.number call.rest] told
    have reached : Ahead ({ s with tasks, handles := s.handles + 1 }.advanceTo authorizer.cache
        call.due) := SignatureCache.ahead_advanceTo due
    have goes : Turn authorizer 0 _ _ := .go_only
      (.signature (.collect id) call.epoch call.number) (fun _ _ _ => rfl) call.rest
      ({ s with tasks, handles := s.handles + 1 }.advanceTo authorizer.cache call.due) told
    have waited : Turns authorizer _ _ :=
      turns_wait (.collect id) call.epoch call.number call.rest _ reached told
    rw [perform_collect pending found]
    exact .head ⟨0, .await found⟩ ((passes.tail ⟨0, goes⟩).trans waited)

theorem turns_claim (name : String) (s : State σ) (ahead : Ahead s) (told : List (Reply σ)) :
    Turns authorizer ⟨s, [], told⟩ ⟨(authorizer.perform (.claim name) s).2, [],
      reply (.claim name) (authorizer.perform (.claim name) s).1
        (authorizer.perform (.claim name) s).2 :: told⟩ := by
  by_cases atOnce : AtOnce authorizer s (.claim name)
  · exact .single ⟨0, .step (.act _ atOnce) (.refl _)⟩
  · obtain ⟨handle, new⟩ : s.handles ≠ 0 ∧ s.outside.credential = none := by
      simpa [AtOnce] using atOnce
    have waited : Turns authorizer _ ⟨_, [.claim name _], told⟩ :=
      turns_complete (fun _ _ _ => rfl) (Source.load authorizer.provider) s ahead told
    have loaded : Step authorizer _ _ := @Step.tell σ authorizer
      (s.complete authorizer.cache (Source.load authorizer.provider)).2 [] [] told name
      (s.complete authorizer.cache (Source.load authorizer.provider)).1
    rw [perform_claim handle new]
    exact .head ⟨1, .load name handle new rfl⟩
      (waited.tail ⟨0, .step loaded (List.nil_sublist _)⟩)

theorem turns_perform (action : Action σ) (s : State σ) (ahead : Ahead s)
    (told : List (Reply σ)) :
    Turns authorizer ⟨s, [], told⟩ ⟨(authorizer.perform action s).2, [],
      reply action (authorizer.perform action s).1 (authorizer.perform action s).2 :: told⟩ := by
  cases action with
  | authorization => exact turns_wish .authorization nofun s ahead told
  | authorize compartment => exact turns_wish (.authorize compartment) nofun s ahead told
  | sign request compartment => exact turns_wish (.sign request compartment) nofun s ahead told
  | collect id => exact turns_collect id s ahead told
  | claim name => exact turns_claim name s ahead told
  | sleep d => exact (turns_advanceTo _ s [] told).tail ⟨0, .step (.wake d) (.refl _)⟩
  | region | close | acquire | release | start | change =>
    exact .single ⟨0, .step (.act _ trivial) (.refl _)⟩

/-! ## Ahead of time -/

theorem ahead_signature (ahead : Ahead s) : Ahead (authorizer.signature s).2 := by
  unfold signature
  split
  · exact ahead
  · exact ahead.fetch

theorem ahead_wish {wish : Wish} (new : ∀ id, wish ≠ .collect id) (handle : s.handles ≠ 0)
    (ahead : Ahead s) : Ahead (authorizer.perform wish.action s).2 := by
  rw [perform_wish new handle]
  exact ahead_signature ahead

theorem ahead_perform (action : Action σ) (ahead : Ahead s) :
    Ahead (authorizer.perform action s).2 := by
  by_cases noHandle : action.needsHandle = true ∧ s.handles = 0
  · rw [perform.eq_def, if_pos noHandle]
    exact ahead
  have handle : action.needsHandle = true → s.handles ≠ 0 := fun needs no => noHandle ⟨needs, no⟩
  have performed : authorizer.perform action s = _ := (perform.eq_def ..).trans (if_neg noHandle)
  cases action with
  | authorization => exact @ahead_wish _ _ _ .authorization nofun (handle rfl) ahead
  | authorize compartment =>
    exact @ahead_wish _ _ _ (.authorize compartment) nofun (handle rfl) ahead
  | sign request compartment =>
    exact @ahead_wish _ _ _ (.sign request compartment) nofun (handle rfl) ahead
  | claim name =>
    by_cases new : s.outside.credential = none
    · rw [perform_claim (handle rfl) new]
      exact SignatureCache.ahead_complete _ ahead
    · obtain ⟨credential, hc⟩ := Option.ne_none_iff_exists'.1 new
      rw [performed]
      simp only [claim, someCredential, hc]
      split <;> exact ahead
  | collect id => exact ahead.collect
  | sleep d => exact SignatureCache.ahead_advanceTo (Nat.le_add_right _ _)
  | close =>
    rw [performed]
    exact ahead.unschedule
  | release =>
    have fewer : Ahead { s with handles := s.handles - 1 } := ahead
    exact fewer.abandon
  | start id =>
    rw [performed]
    simp only [start]
    split
    · exact ahead
    · exact ahead.start
  | region | acquire | change =>
    rw [performed]
    exact ahead

/-- Whatever a caller does is done in turns, in which the caller is told the answers. -/
theorem turns_performAll (actions : List (Action σ)) (s : State σ) (ahead : Ahead s)
    (told : List (Reply σ)) :
    ∃ replies, Turns authorizer ⟨s, [], told⟩
        ⟨(authorizer.performAll actions s).2, [], replies ++ told⟩ ∧
      replies.reverse.map Reply.action = actions ∧
      replies.reverse.map Reply.answer = (authorizer.performAll actions s).1 := by
  induction actions generalizing s told with
  | nil => exact ⟨[], .refl, rfl, rfl⟩
  | cons action actions ih =>
    obtain ⟨replies, turns, ha, hr⟩ := ih (authorizer.perform action s).2
      (ahead_perform action ahead)
      (reply action (authorizer.perform action s).1 (authorizer.perform action s).2 :: told)
    refine ⟨replies ++ [reply action (authorizer.perform action s).1
      (authorizer.perform action s).2], ?_, ?_, ?_⟩
    · rw [List.append_assoc]
      exact (turns_perform action s ahead told).trans turns
    · simp [ha, reply]
    · simp [hr, reply, performAll]

end RequestAuth.Authorizer
