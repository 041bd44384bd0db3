import RequestAuth.SignatureCache.Timeline

/-!
# What callers do with a cache

A caller asks for the entry, and may have one computed if there is none. A call may also be sent off
on its own under a number: its outcome is asked for later, or it is cancelled. `perform` does any
one action, and `performAll` any number of them in order.
-/

namespace RequestAuth.SignatureCache

variable {σ : Type}

/-! ## Calls -/

/-- The entry, or one that is computed and stored now. -/
def fetch (cache : SignatureCache σ) (s : State σ) : Outcome × State σ :=
  match cache.served? s with
  | some entry => (.ok entry, s)
  | none =>
    let epoch := s.epoch
    let (number, s) := s.begin .miss
    let (outcome, s) := s.complete cache cache.compute
    (outcome, s.finishMiss cache epoch number outcome)

/-- Sends a call for the entry off under a number. -/
def start (cache : SignatureCache σ) (id : Nat) (s : State σ) : State σ :=
  match cache.served? s with
  | some entry => { s with answers := (id, some (.ok entry)) :: s.answers }
  | none =>
    let epoch := s.epoch
    let (number, s) := s.begin .miss
    s.carryCall cache id epoch number cache.compute

/-- Takes what has come of the call with the given number out of a list. -/
def takeAnswer? (id : Nat) :
    List (Nat × Option Outcome) → Option (Option Outcome × List (Nat × Option Outcome))
  | [] => none
  | (i, answer) :: answers =>
    if i = id then some (answer, answers)
    else (takeAnswer? id answers).map fun (found, rest) => (found, (i, answer) :: rest)

/-- A call that is under way. -/
structure Call (σ : Type) where
  /-- When it goes on. -/
  due : Nat
  /-- The epoch in which it found no entry. -/
  epoch : Nat
  /-- The number of its computation. -/
  number : Nat
  /-- What it has to do. -/
  rest : Routine σ Outcome

/-- Takes the call with the given number out of a list of tasks. -/
def takeCall? (id : Nat) : List (Task σ) → Option (Call σ × List (Task σ))
  | [] => none
  | task :: tasks =>
    let later := (takeCall? id tasks).map fun (found, rest) => (found, task :: rest)
    match task.job with
    | .calling i epoch number rest =>
      if i = id then some (⟨task.due, epoch, number, rest⟩, tasks) else later
    | _ => later

/-- What has come of a call that was sent off, once it has ended; `none` if there is no such call,
and `some none` if it was cancelled. -/
def collect (cache : SignatureCache σ) (id : Nat) (s : State σ) :
    Option (Option Outcome) × State σ :=
  match takeAnswer? id s.answers with
  | some (answer, answers) => (some answer, { s with answers })
  | none =>
    match takeCall? id s.tasks with
    | none => (none, s)
    | some (call, tasks) =>
      let s := { s with tasks, handles := s.handles + 1 }.advanceTo cache call.due
      let (outcome, s) := s.complete cache call.rest
      let s := s.finishMiss cache call.epoch call.number outcome
      (some (some outcome), { s with handles := s.handles - 1 }.abandon)

/-- Cancels a call that was sent off, and tells whether there is one that nobody has asked about. -/
def cancel (id : Nat) (s : State σ) : Bool × State σ :=
  match takeAnswer? id s.answers with
  | some _ => (true, s)
  | none =>
    match takeCall? id s.tasks with
    | none => (false, s)
    | some (_, tasks) => (true, { s with tasks, answers := (id, none) :: s.answers }.abandon)

/-! ## Actions -/

/-- What a caller does. -/
inductive Action (σ : Type) where
  /-- Asks for the entry. -/
  | peek
  /-- Asks for the entry, and waits until one is computed if there is none. -/
  | fetch
  /-- Sends a call for the entry off under a number. -/
  | start (id : Nat)
  /-- Waits for what comes of a call that was sent off. -/
  | collect (id : Nat)
  /-- Cancels a call that was sent off. -/
  | cancel (id : Nat)
  /-- Closes the cache. -/
  | close
  /-- Lets time pass. -/
  | sleep (d : Nat)
  /-- Makes one more handle. -/
  | acquire
  /-- Gives a handle up. -/
  | release
  /-- Changes the state that signatures are computed from. -/
  | change (f : σ → σ)

/-- Whether an action needs a handle of the cache. -/
def Action.needsHandle : Action σ → Bool
  | .peek | .fetch | .start _ | .close | .acquire => true
  | .collect _ | .cancel _ | .sleep _ | .release | .change _ => false

/-- What an action is answered by. -/
inductive Answer where
  /-- Nothing. -/
  | done
  /-- The entry, if there is one. -/
  | entry (found : Option DatedSignature)
  /-- The outcome of a call. -/
  | outcome (outcome : Outcome)
  /-- What has come of a call that was sent off. -/
  | collected (answer : Option (Option Outcome))
  /-- Whether there is such a call. -/
  | known (isKnown : Bool)
  /-- There is no handle. -/
  | noHandle

/-- Does an action. -/
def perform (cache : SignatureCache σ) (action : Action σ) (s : State σ) : Answer × State σ :=
  if action.needsHandle ∧ s.handles = 0 then (.noHandle, s)
  else match action with
    | .peek => (.entry (cache.served? s), s)
    | .fetch =>
      let (outcome, s) := cache.fetch s
      (.outcome outcome, s)
    | .start id => (.done, cache.start id s)
    | .collect id =>
      let (answer, s) := cache.collect id s
      (.collected answer, s)
    | .cancel id =>
      let (isKnown, s) := SignatureCache.cancel id s
      (.known isKnown, s)
    | .close => (.done, s.close)
    | .sleep d => (.done, s.advance cache d)
    | .acquire => (.done, { s with handles := s.handles + 1 })
    | .release => (.done, { s with handles := s.handles - 1 }.abandon)
    | .change f => (.done, { s with outside := f s.outside })

/-- Does actions in order. -/
def performAll (cache : SignatureCache σ) : List (Action σ) → State σ → List Answer × State σ
  | [], s => ([], s)
  | action :: actions, s =>
    let (answer, s) := cache.perform action s
    let (answers, s) := performAll cache actions s
    (answer :: answers, s)

/-! ## Texts -/

/-- The line that is logged for an event, if one is. Only warnings are lines here; what is logged
for debugging, of a miss or of a result that is not stored, is not among them. -/
def Event.logLine? : Event → Option String
  | .refreshFailed error =>
    some ("WARN: unable to refresh cached request signature: " ++ error.text)
  | .noBackground =>
    some "WARN: no tokio runtime available, background signature refresh is disabled"
  | _ => none

/-- The text shown for a cache when debugging, given the one for what computes signatures. -/
def debugText (cache : SignatureCache σ) (compute : String) (s : State σ) : String :=
  Text.record "SignatureCache" [
    ("compute", compute), ("max_lifetime", Duration.text cache.maxLifetime),
    ("refresh_interval", Duration.text cache.refreshInterval),
    ("cached", toString (cache.served? s).isSome)]

end RequestAuth.SignatureCache
