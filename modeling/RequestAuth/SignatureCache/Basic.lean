import RequestAuth.Routine
import RequestAuth.Settings
import RequestAuth.Signing

/-!
# The signature cache

All requests share one signature. The cache keeps the one that was computed last, serves it for a
limited time, and plans to replace it in the background a while before. A computation that a caller
waits for stores its result only if the cache was not closed in the meantime; one in the background
does only while it is the one that is planned.

This module has the state of a cache and the steps that take no time. What happens as time passes is
in `RequestAuth.SignatureCache.Timeline`, and what callers do in
`RequestAuth.SignatureCache.Action`.
-/

namespace RequestAuth

/-- What comes of computing a signature. -/
abbrev Outcome := Except Error DatedSignature

/-- What does not change about a cache: how signatures are computed, and how long they are kept. -/
structure SignatureCache (σ : Type) where
  /-- Computes a signature. -/
  compute : Routine σ Outcome
  /-- How long a signature is served after it was stored. -/
  maxLifetime : Nat
  /-- How long after it was stored a signature is replaced in the background, or zero if it is
  not. -/
  refreshInterval : Nat
  /-- Whether anything can be done in the background. That takes a runtime, which is looked for
  anew at every store; here either all stores of a cache find one, or none does. -/
  background : Bool
  maxLifetime_le : maxLifetime ≤ Settings.lifetimeLimit

namespace SignatureCache

variable {σ : Type}

/-- A cache that replaces signatures the given time before their end. -/
def create (compute : Routine σ Outcome) (maxLifetime leadTime : Nat) (background : Bool) :
    Except Error (SignatureCache σ) :=
  if h : maxLifetime ≤ Settings.lifetimeLimit then
    .ok ⟨compute, maxLifetime, maxLifetime - leadTime, background, h⟩
  else .error (.longEntryLifetime Settings.lifetimeLimit)

/-! ## Events -/

/-- Why a signature is computed. -/
inductive Cause where
  /-- For a caller who found none. -/
  | miss
  /-- In the background. -/
  | refresh
  deriving DecidableEq, Repr

/-- What happens to a cache. Computations are numbered in the order in which they begin. -/
inductive Event where
  /-- A computation begins. -/
  | began (number : Nat) (cause : Cause)
  /-- A computation ends. -/
  | ended (number : Nat) (cause : Cause) (outcome : Outcome)
  /-- The result of a computation is stored. -/
  | stored (number : Nat) (entry : DatedSignature)
  /-- The computation in the background that was planned has failed. -/
  | refreshFailed (error : Error)
  /-- A computation in the background cannot be planned. -/
  | noBackground
  /-- The cache is closed. -/
  | closed

/-! ## States -/

/-- An entry of the cache. -/
structure Stored where
  /-- The signature. -/
  entry : DatedSignature
  /-- When it was stored. -/
  storedAt : Nat
  deriving DecidableEq, Repr

/-- What a task does next. -/
inductive Job (σ : Type) where
  /-- Begins a computation in the background. -/
  | waiting (generation : Nat)
  /-- Goes on with a computation in the background. -/
  | refreshing (generation number : Nat) (rest : Routine σ Outcome)
  /-- Goes on with a computation for a caller who found no entry in the given epoch. -/
  | calling (id epoch number : Nat) (rest : Routine σ Outcome)

/-- Something that is due at a point in time. -/
structure Task (σ : Type) where
  /-- When it is due. -/
  due : Nat
  /-- What is to be done. -/
  job : Job σ

/-- Whether a task is the wait for the computation in the background of a generation. -/
def Task.waitsFor (task : Task σ) (generation : Nat) : Bool :=
  match task.job with
  | .waiting g => g = generation
  | _ => false

/-- Whether a task is the wait for a computation in the background. -/
def Task.isWaiting (task : Task σ) : Bool :=
  match task.job with
  | .waiting _ => true
  | _ => false

/-- Whether a task belongs to the computation in the background of a generation. -/
def Task.refreshes (task : Task σ) (generation : Nat) : Bool :=
  match task.job with
  | .waiting g | .refreshing g _ _ => g = generation
  | .calling .. => false

/-- The state of a cache and of what uses it. -/
structure State (σ : Type) where
  /-- The state that signatures are computed from. -/
  outside : σ
  /-- The present time. -/
  clock : Nat := 0
  /-- The entry, which may be too old to be served. One that is too old stays until the next store
  or until the cache is closed, although asking for it could take it away: nothing but the age of an
  entry tells whether it is served. -/
  slot : Option Stored := none
  /-- The generation of the computation in the background that is planned. -/
  scheduled : Option Nat := none
  /-- How many generations there have been. -/
  generation : Nat := 0
  /-- How often the cache has been closed. -/
  epoch : Nat := 0
  /-- What is due later. -/
  tasks : List (Task σ) := []
  /-- What has come of calls that nobody has asked about, which is nothing if they were
  cancelled. -/
  answers : List (Nat × Option Outcome) := []
  /-- How many handles of the cache there are. -/
  handles : Nat := 1
  /-- How many computations have begun. -/
  begun : Nat := 0
  /-- What has happened, and when, the latest first. -/
  journal : List (Nat × Event) := []

/-- The entry, if it is recent enough to be served. -/
def served? (cache : SignatureCache σ) (s : State σ) : Option DatedSignature :=
  match s.slot with
  | none => none
  | some stored =>
    if s.clock - stored.storedAt < cache.maxLifetime then some stored.entry else none

namespace State

/-- Whether a computation in the background is planned or under way that may still store. -/
def isScheduled (s : State σ) : Bool :=
  s.scheduled.any fun generation => s.tasks.any (·.refreshes generation)

/-! ## Steps that take no time -/

/-- Writes an event into the journal. -/
def note (s : State σ) (event : Event) : State σ :=
  { s with journal := (s.clock, event) :: s.journal }

/-- Begins a computation, and gives its number. -/
def begin (s : State σ) (cause : Cause) : Nat × State σ :=
  (s.begun, { s with begun := s.begun + 1 }.note (.began s.begun cause))

/-- Stores the result of a computation. -/
def put (s : State σ) (number : Nat) (entry : DatedSignature) : State σ :=
  { s with slot := some ⟨entry, s.clock⟩ }.note (.stored number entry)

/-- Stops the computation in the background that is planned, unless it has begun. -/
def unschedule (s : State σ) : State σ :=
  match s.scheduled with
  | none => s
  | some generation => { s with tasks := s.tasks.filter fun task => !task.waitsFor generation }

/-- Plans a computation in the background, in the place of the one that is planned. -/
def schedule (cache : SignatureCache σ) (s : State σ) : State σ :=
  if cache.refreshInterval = 0 then s
  else if cache.background then
    let generation := s.generation + 1
    let task : Task σ := ⟨s.clock + cache.refreshInterval, .waiting generation⟩
    { s.unschedule with
      generation, scheduled := some generation, tasks := s.unschedule.tasks ++ [task] }
  else { s.unschedule with scheduled := none }.note .noBackground

/-- Ends a computation for a caller who found no entry in the given epoch. -/
def finishMiss (cache : SignatureCache σ) (epoch number : Nat) (outcome : Outcome) (s : State σ) :
    State σ :=
  let s := s.note (.ended number .miss outcome)
  match outcome with
  | .error _ => s
  | .ok entry => if s.epoch = epoch then (s.put number entry).schedule cache else s

/-- Ends the computation in the background of a generation. -/
def finishRefresh (cache : SignatureCache σ) (generation number : Nat) (outcome : Outcome)
    (s : State σ) : State σ :=
  let s := s.note (.ended number .refresh outcome)
  if s.scheduled = some generation then
    match outcome with
    | .error e => { s with scheduled := none }.note (.refreshFailed e)
    | .ok entry => (s.put number entry).schedule cache
  else s

/-- Closes the cache. -/
def close (s : State σ) : State σ :=
  { s.unschedule with
    epoch := s.epoch + 1, generation := s.generation + 1, scheduled := none, slot := none }.note
    .closed

/-- Ends the waits for computations in the background once nobody has the cache any more: neither a
handle nor a computation that is under way. -/
def abandon (s : State σ) : State σ :=
  if s.handles = 0 ∧ s.tasks.all Task.isWaiting then { s with tasks := [], scheduled := none }
  else s

end State

end SignatureCache

end RequestAuth
