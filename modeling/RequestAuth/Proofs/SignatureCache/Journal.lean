import Mathlib.Data.List.Permutation
import RequestAuth.SignatureCache.Basic

/-!
# What a journal tells

The journal of a cache determines what the cache holds and plans. This module reads that off: the
entry (`entry?`), what is planned in the background (`plan`), how often the cache was closed
(`closes`), and which computations have begun, ended, and been stored (`begins`, `completed`,
`stores`). Computations are numbered as they begin, so that number `n` began before the journal was
`j` just if `n < begins j`.

`Legal` says which journals a cache may have: each of its constructors is what one act of the cache
writes, under the conditions in which it does. The laws of legal journals are in
`RequestAuth.Proofs.SignatureCache.Laws`.
-/

namespace RequestAuth.SignatureCache

variable {σ : Type}

/-- What has happened to a cache and when, the latest first. -/
abbrev Journal := List (Nat × Event)

/-- Whether a cache replaces signatures in the background at all. -/
def looksAhead (cache : SignatureCache σ) : Bool :=
  cache.refreshInterval ≠ 0 && cache.background

/-- What is planned in the background. -/
inductive Plan where
  /-- Nothing. -/
  | idle
  /-- To replace the entry that was stored at the given time. -/
  | waiting (since : Nat)
  /-- To store the result of the computation with the given number. -/
  | signing (number : Nat)
  deriving DecidableEq

namespace Journal

/-! ## Reading a journal -/

/-- The entry, which may be too old to be served. -/
def entry? : Journal → Option Stored
  | [] => none
  | (t, event) :: j =>
    match event with
    | .stored _ entry => some ⟨entry, t⟩
    | .closed => none
    | _ => entry? j

/-- When a result was stored last. -/
def lastStore? : Journal → Option Nat
  | [] => none
  | (t, event) :: j =>
    match event with
    | .stored .. => some t
    | _ => lastStore? j

/-- What is planned in the background. -/
def plan (cache : SignatureCache σ) : Journal → Plan
  | [] => .idle
  | (t, event) :: j =>
    match event with
    | .stored .. => if cache.looksAhead then .waiting t else .idle
    | .began n .refresh => .signing n
    | .refreshFailed _ | .closed => .idle
    | _ => plan cache j

/-- How often the cache was closed. -/
def closes : Journal → Nat
  | [] => 0
  | (_, event) :: j =>
    match event with
    | .closed => closes j + 1
    | _ => closes j

/-- How many computations have begun. -/
def begins : Journal → Nat
  | [] => 0
  | (_, event) :: j =>
    match event with
    | .began .. => begins j + 1
    | _ => begins j

/-- The numbers of the computations that have ended, the latest first. -/
def completed : Journal → List Nat
  | [] => []
  | (_, event) :: j =>
    match event with
    | .ended n .. => n :: completed j
    | _ => completed j

/-- The numbers of the computations whose results were stored, the latest first. -/
def stores : Journal → List Nat
  | [] => []
  | (_, event) :: j =>
    match event with
    | .stored n _ => n :: stores j
    | _ => stores j

/-- Whether the cache was closed after the computation with the given number began. -/
def ClosedSince (n : Nat) : Journal → Prop
  | [] => False
  | (_, event) :: j =>
    match event with
    | .closed => n < begins j ∨ ClosedSince n j
    | _ => ClosedSince n j

/-- Whether a computation has begun and has not ended. -/
structure Running (j : Journal) (n : Nat) (cause : Cause) : Prop where
  began : ∃ t, (t, Event.began n cause) ∈ j
  not_completed : n ∉ completed j

/-- Whether something may happen at a time: nothing has happened later, and no computation that is
planned should have begun before. -/
structure OnTime (cache : SignatureCache σ) (j : Journal) (t : Nat) : Prop where
  upto : ∀ x ∈ j, x.1 ≤ t
  due : ∀ since, plan cache j = .waiting since → t ≤ since + cache.refreshInterval

/-- Whether a computation may begin at a time: for a caller who finds no entry, or once the entry
has been kept for as long as it is to be. -/
def MayBegin (cache : SignatureCache σ) (j : Journal) (t : Nat) : Cause → Prop
  | .miss => ∀ stored, entry? j = some stored → stored.storedAt + cache.maxLifetime ≤ t
  | .refresh => ∃ since, plan cache j = .waiting since ∧ t = since + cache.refreshInterval

/-- Whether the result of a computation is still wanted in the cache. -/
def Wanted (cache : SignatureCache σ) (j : Journal) (n : Nat) : Cause → Prop
  | .miss => ¬ ClosedSince n j
  | .refresh => plan cache j = .signing n

/-! ## Legal journals -/

/-- The journals that a cache may have. -/
inductive Legal (cache : SignatureCache σ) : Journal → Prop where
  | nil : Legal cache []
  | began {j : Journal} {t : Nat} {cause : Cause} (h : Legal cache j) (time : OnTime cache j t)
      (may : MayBegin cache j t cause) : Legal cache ((t, .began (begins j) cause) :: j)
  | stored {j : Journal} {t n : Nat} {cause : Cause} {entry : DatedSignature} (h : Legal cache j)
      (time : OnTime cache j t) (run : Running j n cause) (wanted : Wanted cache j n cause) :
      Legal cache ((t, .stored n entry) :: (t, .ended n cause (.ok entry)) :: j)
  /-- The computation that was planned in the background has failed. -/
  | refreshFailed {j : Journal} {t n : Nat} {e : Error} (h : Legal cache j)
      (time : OnTime cache j t) (run : Running j n .refresh)
      (wanted : Wanted cache j n .refresh) :
      Legal cache ((t, .refreshFailed e) :: (t, .ended n .refresh (.error e)) :: j)
  /-- A computation for a caller has failed, or the result of any is not wanted any more. -/
  | ended {j : Journal} {t n : Nat} {cause : Cause} {outcome : Outcome} (h : Legal cache j)
      (time : OnTime cache j t) (run : Running j n cause)
      (spent : Wanted cache j n cause → cause = .miss ∧ ∃ e, outcome = .error e) :
      Legal cache ((t, .ended n cause outcome) :: j)
  | noBackground {j : Journal} {t : Nat} (h : Legal cache j) (time : OnTime cache j t)
      (alone : cache.background = false) : Legal cache ((t, .noBackground) :: j)
  | closed {j : Journal} {t : Nat} (h : Legal cache j) (time : OnTime cache j t) :
      Legal cache ((t, .closed) :: j)

end Journal

end RequestAuth.SignatureCache
