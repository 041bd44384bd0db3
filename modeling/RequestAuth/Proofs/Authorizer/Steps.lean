import Mathlib.Logic.Relation
import RequestAuth.Authorizer.Action
import RequestAuth.Proofs.Ensures
import RequestAuth.Proofs.SignatureCache.Steps

/-!
# The steps of an authorizer

`Step` is the relation between an authorizer at work before and after one act: of a caller, of a
task of the cache, or of the clock. Any number of callers may wait at a time, for a signature, for a
call that was sent off, or for a credential. Each of them goes on by single acts of what it waits
for, in any order with those of the others, and waits as long as it happens to. `Scene.told` is what
callers were answered, each time with the credentials that the provider had given by then.

`Reachable.performAll` says that the actions of one caller, in any order, lead through reachable
scenes, and that what is told there is what the actions are answered by.
-/

namespace RequestAuth.Authorizer

open SignatureCache (takeAnswer? takeCall? Call)

variable {σ : Type} {authorizer : Authorizer σ} {s : State σ}

/-! ## Callers -/

/-- What a caller asks for that needs a signature. -/
inductive Wish where
  /-- The value of the authorization header. -/
  | authorization
  /-- The headers of a request about a compartment. -/
  | authorize (compartment : Option String)
  /-- To have the headers of a request about a compartment set. -/
  | sign (request : Http.Headers) (compartment : Option String)
  /-- What comes of the call with the given number. -/
  | collect (id : Nat)

/-- The action of a caller. -/
def Wish.action : Wish → Action σ
  | authorization => .authorization
  | authorize compartment => .authorize compartment
  | sign request compartment => .sign request compartment
  | collect id => .collect id

/-- The value of the authorization header, given what comes of computing a signature. -/
def valueOf (outcome : Outcome) : Except Error (Option String) :=
  (tolerate outcome).map (Option.map DatedSignature.headerValue)

/-- The headers of a request, given what comes of computing a signature. -/
def headersOf (compartment : Option String) (outcome : Outcome) (s : State σ) :
    Except Error (Option Http.Headers) :=
  match tolerate outcome with
  | .error e => .error e
  | .ok none => .ok none
  | .ok (some entry) =>
    chooseCompartment compartment s >>= fun compartment => (headers entry compartment).map some

/-- What a caller is told once a signature has been computed. -/
def Wish.answer (outcome : Outcome) (s : State σ) : Wish → Answer
  | authorization => .authorization (valueOf outcome)
  | authorize compartment => .headers (headersOf compartment outcome s)
  | sign request compartment =>
    match headersOf compartment outcome s with
    | .error e => .signed (.error e) request
    | .ok none => .signed (.ok ()) request
    | .ok (some more) => .signed (.ok ()) (request.setAll more)
  | collect _ => .collected (some (some (valueOf outcome)))

/-- Somebody who is waiting. -/
inductive Caller (σ : Type) where
  /-- For a signature. -/
  | signature (wish : Wish) (epoch number : Nat) (rest : Routine (Source σ) Outcome)
  /-- For a credential, to be told a claim. -/
  | claim (name : String) (rest : Routine (Source σ) (Except Error Source.Identity))

/-- A caller goes on with what it waits for, where `now` is the present time. -/
def Caller.step? (now : Nat) (source : Source σ) : Caller σ → Option (Caller σ × Source σ)
  | signature wish epoch number rest =>
    (rest.step? now source).map fun (rest, source) => (.signature wish epoch number rest, source)
  | claim name rest => (rest.step? now source).map fun (rest, source) => (.claim name rest, source)

/-- A caller that took over a call gives its handle up. -/
def Wish.release (s : State σ) : Wish → State σ
  | collect _ => { s with handles := s.handles - 1 }.abandon
  | authorization | authorize _ | sign .. => s

/-- What a caller leaves when it stops waiting. -/
def Caller.release (s : State σ) : Caller σ → State σ
  | signature wish .. => wish.release s
  | claim .. => s

/-- The claim of a credential that was loaded. -/
def claimOf (name : String) (answer : Except Error Credential) : Except Error (Option String) :=
  match answer with
  | .error e => .error e
  | .ok credential =>
    if credential.kind = .resourcePrincipal then .ok (credential.claim? name)
    else .error (.noClaims credential.kind)

/-! ## Scenes -/

/-- An action and its answer. -/
structure Reply (σ : Type) where
  /-- What was done. -/
  action : Action σ
  /-- What it was answered by. -/
  answer : Answer
  /-- The credentials that the provider had given by then, the latest first. -/
  received : List Credential

/-- The answer to an action, given in a state. -/
def reply (action : Action σ) (answer : Answer) (s : State σ) : Reply σ :=
  ⟨action, answer, s.outside.received⟩

/-- An authorizer at work. -/
structure Scene (σ : Type) where
  /-- Its state. -/
  state : State σ
  /-- Who is waiting. -/
  callers : List (Caller σ) := []
  /-- What callers were told, the latest first. -/
  told : List (Reply σ) := []

/-- Whether an action is answered at once. -/
def AtOnce (authorizer : Authorizer σ) (s : State σ) : Action σ → Prop
  | .authorization | .authorize _ | .sign .. =>
    s.handles = 0 ∨ authorizer.host = none ∨ authorizer.cache.served? s ≠ none
  | .claim _ => s.handles = 0 ∨ s.outside.credential ≠ none
  | .collect id => takeAnswer? id s.answers ≠ none ∨ takeCall? id s.tasks = none
  | .sleep _ => False
  | .region | .close | .acquire | .release | .start _ | .change _ => True

/-- What may happen next. -/
inductive Step (authorizer : Authorizer σ) : Scene σ → Scene σ → Prop where
  /-- An action is done that takes no time. -/
  | act {s : State σ} {callers : List (Caller σ)} {told : List (Reply σ)} (action : Action σ)
      (atOnce : AtOnce authorizer s action) :
      Step authorizer ⟨s, callers, told⟩ ⟨(authorizer.perform action s).2, callers,
        reply action (authorizer.perform action s).1 (authorizer.perform action s).2 :: told⟩
  /-- Time passes while nothing is due. -/
  | pass {s : State σ} {callers : List (Caller σ)} {told : List (Reply σ)} (t : Nat)
      (early : ∀ task ∈ s.tasks, t < task.due) :
      Step authorizer ⟨s, callers, told⟩ ⟨{ s with clock := max s.clock t }, callers, told⟩
  /-- A caller has let time pass. -/
  | wake {s : State σ} {callers : List (Caller σ)} {told : List (Reply σ)} (d : Nat) :
      Step authorizer ⟨s, callers, told⟩ ⟨s, callers, reply (.sleep d) .done s :: told⟩
  /-- A task that no other precedes is carried out. -/
  | fire {s : State σ} {callers : List (Caller σ)} {told : List (Reply σ)}
      {task : SignatureCache.Task (Source σ)} {before after : List (SignatureCache.Task (Source σ))}
      (held : s.tasks = before ++ task :: after)
      (first : ∀ other ∈ before ++ after, task.due ≤ other.due) :
      Step authorizer ⟨s, callers, told⟩
        ⟨s.fire authorizer.cache task (before ++ after), callers, told⟩
  /-- A caller who finds no signature begins to compute one. -/
  | begin {s : State σ} {callers : List (Caller σ)} {told : List (Reply σ)} (wish : Wish)
      (new : ∀ id, wish ≠ .collect id) (handle : s.handles ≠ 0) (host : authorizer.host ≠ none)
      (miss : authorizer.cache.served? s = none) :
      Step authorizer ⟨s, callers, told⟩
        ⟨(s.begin .miss).2, .signature wish s.epoch s.begun authorizer.cache.compute :: callers,
          told⟩
  /-- A caller begins to wait for a call that was sent off. -/
  | await {s : State σ} {callers : List (Caller σ)} {told : List (Reply σ)} {id : Nat}
      {call : Call (Source σ)} {tasks : List (SignatureCache.Task (Source σ))}
      (found : takeCall? id s.tasks = some (call, tasks)) :
      Step authorizer ⟨s, callers, told⟩
        ⟨{ s with tasks, handles := s.handles + 1 },
          .signature (.collect id) call.epoch call.number call.rest :: callers, told⟩
  /-- A caller who asks for a claim, and finds no credential, begins to load one. -/
  | load {s : State σ} {callers : List (Caller σ)} {told : List (Reply σ)} (name : String)
      (handle : s.handles ≠ 0) (new : s.outside.credential = none) :
      Step authorizer ⟨s, callers, told⟩
        ⟨s, .claim name (Source.load authorizer.provider) :: callers, told⟩
  /-- A caller goes on. -/
  | go {s : State σ} {before after : List (Caller σ)} {told : List (Reply σ)}
      {caller caller' : Caller σ} {outside : Source σ}
      (on : caller.step? s.clock s.outside = some (caller', outside)) :
      Step authorizer ⟨s, before ++ caller :: after, told⟩
        ⟨{ s with outside }, before ++ caller' :: after, told⟩
  /-- A caller has waited for a signature. -/
  | finish {s s' : State σ} {before after : List (Caller σ)} {told : List (Reply σ)} {wish : Wish}
      {epoch number : Nat} {outcome : Outcome}
      (done : s' = wish.release (s.finishMiss authorizer.cache epoch number outcome)) :
      Step authorizer ⟨s, before ++ .signature wish epoch number (.done outcome) :: after, told⟩
        ⟨s', before ++ after, reply wish.action (wish.answer outcome s') s' :: told⟩
  /-- A caller has waited for a credential. -/
  | tell {s : State σ} {before after : List (Caller σ)} {told : List (Reply σ)} {name : String}
      {answer : Except Error Source.Identity} :
      Step authorizer ⟨s, before ++ .claim name (.done answer) :: after, told⟩
        ⟨s, before ++ after,
          reply (.claim name) (.claim (claimOf name (answer.map Prod.fst))) s :: told⟩
  /-- A caller stops waiting. -/
  | leave {s : State σ} {before after : List (Caller σ)} {told : List (Reply σ)}
      {caller : Caller σ} :
      Step authorizer ⟨s, before ++ caller :: after, told⟩
        ⟨caller.release s, before ++ after, told⟩

/-- Any number of steps. -/
abbrev Steps (authorizer : Authorizer σ) : Scene σ → Scene σ → Prop :=
  Relation.ReflTransGen (Step authorizer)

/-- The scenes that a new authorizer may come to. -/
def Reachable (authorizer : Authorizer σ) (c : Scene σ) : Prop :=
  ∃ world, Steps authorizer ⟨{ outside := { world } }, [], []⟩ c

/-! ## Waiting -/

variable {callers : List (Caller σ)} {told : List (Reply σ)}

theorem steps_advanceTo (t : Nat) (s : State σ) (callers : List (Caller σ))
    (told : List (Reply σ)) :
    Steps authorizer ⟨s, callers, told⟩ ⟨s.advanceTo authorizer.cache t, callers, told⟩ := by
  apply SignatureCache.advanceTo_induct
    (P := fun s' => Steps authorizer ⟨s, callers, told⟩ ⟨s', callers, told⟩) t
  case fire => exact fun _ _ _ _ held first h => h.tail (.fire held first)
  case pass => exact fun _ early h => h.tail (.pass t early)
  case h => exact .refl

section Carrying

variable {α : Type} {hold : Routine (Source σ) α → Caller σ}

/-- A caller is at one act of what it waits for. -/
theorem Step.go_of_step? (before after : List (Caller σ)) {r r' : Routine (Source σ) α}
    {outside : Source σ}
    (on : ∀ now source rest, (hold rest).step? now source =
      (rest.step? now source).map fun (rest, source) => (hold rest, source))
    (h : r.step? s.clock s.outside = some (r', outside)) :
    Step authorizer ⟨s, before ++ hold r :: after, told⟩
      ⟨{ s with outside }, before ++ hold r' :: after, told⟩ := by
  apply Step.go
  rw [on, h]
  rfl

/-- The only caller goes on to the end of what it waits for. -/
theorem steps_complete
    (on : ∀ now source rest, (hold rest).step? now source =
      (rest.step? now source).map fun (rest, source) => (hold rest, source))
    (r : Routine (Source σ) α) (s : State σ) (told : List (Reply σ)) :
    Steps authorizer ⟨s, [hold r], told⟩ ⟨(s.complete authorizer.cache r).2,
      [hold (.done (s.complete authorizer.cache r).1)], told⟩ := by
  have go {r r' : Routine (Source σ) α} {s : State σ} {outside : Source σ}
      (h : r.step? s.clock s.outside = some (r', outside)) :
      Step authorizer ⟨s, [hold r], told⟩ ⟨{ s with outside }, [hold r'], told⟩ :=
    Step.go_of_step? [] [] on h
  induction r generalizing s with
  | done => exact .refl
  | act change next ih => exact .head (go rfl) (ih _ _)
  | clock next ih => exact .head (go rfl) (ih _ _)
  | wait d next ih =>
    -- what is due in the meantime is carried out before the caller goes on
    exact ((steps_advanceTo _ s _ _).tail (go rfl)).trans (ih _)

/-- One of the callers goes on while nothing else happens. -/
theorem steps_run (hold : Routine (Source σ) α → Caller σ) (before after : List (Caller σ))
    (on : ∀ now source rest, (hold rest).step? now source =
      (rest.step? now source).map fun (rest, source) => (hold rest, source))
    (r : Routine (Source σ) α) (s : State σ) (told : List (Reply σ)) :
    Steps authorizer ⟨s, before ++ hold r :: after, told⟩
      ⟨{ s with outside := (r.run s.clock s.outside).2 },
        before ++ hold (r.run s.clock s.outside).1.rest :: after, told⟩ := by
  induction r generalizing s with
  | done => exact .refl
  | act change next ih => exact .head (.go_of_step? before after on rfl) (ih _ _)
  | clock next ih => exact .head (.go_of_step? before after on rfl) (ih _ _)
  | wait d next ih =>
    simp only [Routine.run]
    split
    · exact .head (.go_of_step? before after on rfl) (ih s)
    · exact .single (.go_of_step? before after on rfl)

end Carrying

/-! ## Actions are steps -/

theorem authorize_eq {s' : State σ} {outcome : Outcome} (compartment : Option String)
    (h : authorizer.signature s = (tolerate outcome, s')) :
    authorizer.authorize compartment s = (headersOf compartment outcome s', s') := by
  unfold authorize headersOf
  rw [h]
  split <;> simp_all

/-- Callers who ask for a signature are told what the wish for it is answered by. -/
theorem perform_of_signature {s' : State σ} {outcome : Outcome} {wish : Wish}
    (new : ∀ id, wish ≠ .collect id) (handle : s.handles ≠ 0)
    (h : authorizer.signature s = (tolerate outcome, s')) :
    authorizer.perform wish.action s = (wish.answer outcome s', s') := by
  cases wish with
  | authorization => simp [perform, Wish.action, Wish.answer, handle, authorization, h, valueOf]
  | authorize compartment =>
    simp [perform, Wish.action, Wish.answer, handle, authorize_eq compartment h]
  | sign request compartment =>
    have ha := authorize_eq compartment h
    simp only [perform, Wish.action, Wish.answer, handle, and_false, if_false, sign, ha]
    cases headersOf compartment outcome s' with
    | error => rfl
    | ok more => cases more <;> rfl
  | collect id => exact absurd rfl (new id)

theorem signature_of_served {entry : DatedSignature} (host : authorizer.host ≠ none)
    (h : authorizer.cache.served? s = some entry) :
    authorizer.signature s = (tolerate (.ok entry), s) := by
  obtain ⟨name, hn⟩ := Option.ne_none_iff_exists'.1 host
  simp [signature, hn, SignatureCache.fetch, h]

theorem signature_of_host (host : authorizer.host ≠ none) :
    authorizer.signature s =
      (tolerate (authorizer.cache.fetch s).1, (authorizer.cache.fetch s).2) := by
  obtain ⟨name, hn⟩ := Option.ne_none_iff_exists'.1 host
  simp [signature, hn]

theorem fetch_of_miss (miss : authorizer.cache.served? s = none) :
    let ended := (s.begin .miss).2.complete authorizer.cache authorizer.cache.compute
    authorizer.cache.fetch s =
      (ended.1, ended.2.finishMiss authorizer.cache s.epoch s.begun ended.1) := by
  simp [SignatureCache.fetch, miss, SignatureCache.State.begin]

theorem not_atOnce {wish : Wish} (new : ∀ id, wish ≠ .collect id)
    (h : ¬ AtOnce authorizer s wish.action) :
    s.handles ≠ 0 ∧ authorizer.host ≠ none ∧ authorizer.cache.served? s = none := by
  cases wish with
  | collect id => exact absurd rfl (new id)
  | authorization | authorize | sign => simpa [AtOnce, Wish.action] using h

theorem Wish.release_of_new {wish : Wish} (new : ∀ id, wish ≠ .collect id) (s : State σ) :
    wish.release s = s := by
  cases wish with
  | collect id => exact absurd rfl (new id)
  | authorization | authorize | sign => rfl

/-- The only caller has waited for a signature. -/
theorem Step.finish_only (wish : Wish) (epoch number : Nat) (outcome : Outcome) (s : State σ)
    (told : List (Reply σ)) :
    let s' := wish.release (s.finishMiss authorizer.cache epoch number outcome)
    Step authorizer ⟨s, [.signature wish epoch number (.done outcome)], told⟩
      ⟨s', [], reply wish.action (wish.answer outcome s') s' :: told⟩ :=
  @Step.finish σ authorizer s _ [] [] told wish epoch number outcome rfl

/-- A caller waits for a signature to the end. -/
theorem steps_wait (wish : Wish) (epoch number : Nat) (r : Routine (Source σ) Outcome)
    (s : State σ) (told : List (Reply σ)) :
    let s' := wish.release ((s.complete authorizer.cache r).2.finishMiss authorizer.cache epoch
      number (s.complete authorizer.cache r).1)
    Steps authorizer ⟨s, [.signature wish epoch number r], told⟩ ⟨s', [],
      reply wish.action (wish.answer (s.complete authorizer.cache r).1 s') s' :: told⟩ :=
  (steps_complete (fun _ _ _ => rfl) r s told).tail (.finish_only wish epoch number _ _ told)

theorem steps_wish (wish : Wish) (new : ∀ id, wish ≠ .collect id) (s : State σ)
    (told : List (Reply σ)) :
    Steps authorizer ⟨s, [], told⟩ ⟨(authorizer.perform wish.action s).2, [],
      reply wish.action (authorizer.perform wish.action s).1
        (authorizer.perform wish.action s).2 :: told⟩ := by
  by_cases atOnce : AtOnce authorizer s wish.action
  · exact .single (.act _ atOnce)
  · obtain ⟨handle, host, miss⟩ := not_atOnce new atOnce
    rw [perform_of_signature new handle (signature_of_host host)]
    have waited : Steps authorizer _ _ :=
      steps_wait wish s.epoch s.begun authorizer.cache.compute (s.begin .miss).2 told
    rw [Wish.release_of_new new] at waited
    rw [fetch_of_miss miss]
    exact .head (.begin wish new handle host miss) waited

/-- A call is waited for. -/
theorem perform_collect {id : Nat} {call : Call (Source σ)}
    {tasks : List (SignatureCache.Task (Source σ))} (pending : takeAnswer? id s.answers = none)
    (found : takeCall? id s.tasks = some (call, tasks)) :
    let due := { s with tasks, handles := s.handles + 1 }.advanceTo authorizer.cache call.due
    let ended := due.complete authorizer.cache call.rest
    let s' := Wish.release
      (ended.2.finishMiss authorizer.cache call.epoch call.number ended.1) (.collect id)
    authorizer.perform (.collect id) s = (Wish.answer ended.1 s' (.collect id), s') := by
  simp only [perform, Action.needsHandle, Bool.false_eq_true, false_and, if_false, collect,
    SignatureCache.collect, pending, found]
  rfl

theorem steps_collect (id : Nat) (s : State σ) (told : List (Reply σ)) :
    Steps authorizer ⟨s, [], told⟩ ⟨(authorizer.perform (.collect id) s).2, [],
      reply (.collect id) (authorizer.perform (.collect id) s).1
        (authorizer.perform (.collect id) s).2 :: told⟩ := by
  by_cases atOnce : AtOnce authorizer s (.collect id)
  · exact .single (.act _ atOnce)
  · obtain ⟨pending, known⟩ : takeAnswer? id s.answers = none ∧ takeCall? id s.tasks ≠ none := by
      simpa [AtOnce] using atOnce
    obtain ⟨⟨call, tasks⟩, found⟩ := Option.ne_none_iff_exists'.1 known
    have waited : Steps authorizer _ _ :=
      steps_wait (.collect id) call.epoch call.number call.rest
        ({ s with tasks, handles := s.handles + 1 }.advanceTo authorizer.cache call.due) told
    rw [perform_collect pending found]
    exact .head (.await found) ((steps_advanceTo call.due _ _ told).trans waited)

/-- A credential is loaded for a claim. -/
theorem perform_claim {name : String} (handle : s.handles ≠ 0)
    (new : s.outside.credential = none) :
    let loaded := s.complete authorizer.cache (Source.load authorizer.provider)
    authorizer.perform (.claim name) s =
      (.claim (claimOf name (loaded.1.map Prod.fst)), loaded.2) := by
  simp only [perform, handle, and_false, if_false, claim, someCredential, new]
  generalize s.complete authorizer.cache (Source.load authorizer.provider) = loaded
  obtain ⟨answer, s'⟩ := loaded
  cases answer with
  | error => rfl
  | ok identity =>
    simp only [Except.map, claimOf]
    split <;> rfl

theorem steps_claim (name : String) (s : State σ) (told : List (Reply σ)) :
    Steps authorizer ⟨s, [], told⟩ ⟨(authorizer.perform (.claim name) s).2, [],
      reply (.claim name) (authorizer.perform (.claim name) s).1
        (authorizer.perform (.claim name) s).2 :: told⟩ := by
  by_cases atOnce : AtOnce authorizer s (.claim name)
  · exact .single (.act _ atOnce)
  · obtain ⟨handle, new⟩ : s.handles ≠ 0 ∧ s.outside.credential = none := by
      simpa [AtOnce] using atOnce
    have waited : Steps authorizer ⟨s, [.claim name (Source.load authorizer.provider)], told⟩ _ :=
      steps_complete (fun _ _ _ => rfl) (Source.load authorizer.provider) s told
    have loaded : Step authorizer _ _ := @Step.tell σ authorizer
      (s.complete authorizer.cache (Source.load authorizer.provider)).2 [] [] told name
      (s.complete authorizer.cache (Source.load authorizer.provider)).1
    rw [perform_claim handle new]
    exact .head (.load name handle new) (waited.tail loaded)

theorem steps_perform (action : Action σ) (s : State σ) (told : List (Reply σ)) :
    Steps authorizer ⟨s, [], told⟩ ⟨(authorizer.perform action s).2, [],
      reply action (authorizer.perform action s).1 (authorizer.perform action s).2 :: told⟩ := by
  cases action with
  | authorization => exact steps_wish .authorization nofun s told
  | authorize compartment => exact steps_wish (.authorize compartment) nofun s told
  | sign request compartment => exact steps_wish (.sign request compartment) nofun s told
  | collect id => exact steps_collect id s told
  | claim name => exact steps_claim name s told
  | sleep d => exact (steps_advanceTo _ s [] told).tail (.wake d)
  | region | close | acquire | release | start | change => exact .single (.act _ trivial)

theorem steps_performAll (actions : List (Action σ)) (s : State σ) (told : List (Reply σ)) :
    ∃ replies, Steps authorizer ⟨s, [], told⟩
        ⟨(authorizer.performAll actions s).2, [], replies ++ told⟩ ∧
      replies.reverse.map Reply.action = actions ∧
      replies.reverse.map Reply.answer = (authorizer.performAll actions s).1 := by
  induction actions generalizing s told with
  | nil => exact ⟨[], .refl, rfl, rfl⟩
  | cons action actions ih =>
    obtain ⟨replies, steps, ha, hr⟩ := ih (authorizer.perform action s).2
      (reply action (authorizer.perform action s).1 (authorizer.perform action s).2 :: told)
    refine ⟨replies ++ [reply action (authorizer.perform action s).1
      (authorizer.perform action s).2], ?_, ?_, ?_⟩
    · rw [List.append_assoc]
      exact (steps_perform action s told).trans steps
    · simp [ha, reply]
    · simp [hr, reply, performAll]

/-- Whatever a caller does, the authorizer stays in reachable scenes, where the caller was told the
answers. -/
theorem Reachable.performAll {told : List (Reply σ)} (h : Reachable authorizer ⟨s, [], told⟩)
    (actions : List (Action σ)) :
    ∃ replies, Reachable authorizer ⟨(authorizer.performAll actions s).2, [], replies ++ told⟩ ∧
      replies.reverse.map Reply.action = actions ∧
      replies.reverse.map Reply.answer = (authorizer.performAll actions s).1 := by
  obtain ⟨world, reached⟩ := h
  obtain ⟨replies, steps, ha, hr⟩ := steps_performAll actions s told
  exact ⟨replies, ⟨world, reached.trans steps⟩, ha, hr⟩

theorem Reachable.initial (authorizer : Authorizer σ) (world : World σ) :
    Reachable authorizer ⟨{ outside := { world } }, [], []⟩ :=
  ⟨world, .refl⟩

end RequestAuth.Authorizer
