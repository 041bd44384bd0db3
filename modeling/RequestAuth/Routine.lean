/-!
# Routines

A routine acts on a state that it shares with others, reads a clock, and may wait. Between two waits
nothing else acts on the state: `Routine.run` carries a routine out up to its first wait, or to its
end. `Routine.onPart` lets a routine act on a part of a larger state. The clock counts nanoseconds.
-/

namespace RequestAuth

/-- A computation that acts on a state of type `σ`, may wait, and ends with a result. -/
inductive Routine (σ α : Type) where
  /-- Ends with a result. -/
  | done (result : α)
  /-- Changes the state and goes on, given the state before the change. -/
  | act (change : σ → σ) (next : σ → Routine σ α)
  /-- Reads the clock. -/
  | clock (next : Nat → Routine σ α)
  /-- Waits. -/
  | wait (d : Nat) (next : Routine σ α)

namespace Routine

variable {σ τ α β : Type}

/-- Goes on with another routine, given the result of the first. -/
def bind : Routine σ α → (α → Routine σ β) → Routine σ β
  | done a, f => f a
  | act change next, f => act change fun s => (next s).bind f
  | clock next, f => clock fun now => (next now).bind f
  | wait d next, f => wait d (next.bind f)

instance : Monad (Routine σ) where
  pure := done
  bind := bind

/-- Reads the state. -/
def read : Routine σ σ := act id done

/-- Changes the state. -/
def modify (change : σ → σ) : Routine σ Unit := act change fun _ => done ()

/-- The time on the clock. -/
def now : Routine σ Nat := clock done

/-- Waits for the given time. -/
def sleep (d : Nat) : Routine σ Unit := wait d (done ())

/-- Acts on a part of a larger state. -/
def onPart (get : τ → σ) (set : σ → τ → τ) : Routine σ α → Routine τ α
  | done a => done a
  | act change next => act (fun t => set (change (get t)) t) fun t => (next (get t)).onPart get set
  | clock next => clock fun now => (next now).onPart get set
  | wait d next => wait d (next.onPart get set)

/-! ## Carrying out -/

/-- How far a routine got. -/
inductive Progress (σ α : Type) where
  /-- It ended with a result. -/
  | finished (result : α)
  /-- It waits for the given time, which is not zero, before it goes on. -/
  | waiting (d : Nat) (rest : Routine σ α)

/-- Carries a routine out at an instant, up to its first wait or to its end. -/
def run (now : Nat) : Routine σ α → σ → Progress σ α × σ
  | done a, s => (.finished a, s)
  | act change next, s => run now (next s) (change s)
  | clock next, s => run now (next now) s
  | wait d next, s => if d = 0 then run now next s else (.waiting d next, s)

theorem run_waiting_ne_zero {now : Nat} {r rest : Routine σ α} {s s' : σ} {d : Nat}
    (h : r.run now s = (.waiting d rest, s')) : d ≠ 0 := by
  induction r generalizing s with
  | done => simp [run] at h
  | act change next ih => exact ih _ h
  | clock next ih => exact ih _ h
  | wait e next ih =>
    simp only [run] at h
    split at h
    · exact ih h
    · simp_all

/-- Carries a routine out to its end, for a caller that does not look at the clock in between. -/
def complete (now : Nat) : Routine σ α → σ → α × σ
  | done a, s => (a, s)
  | act change next, s => complete now (next s) (change s)
  | clock next, s => complete now (next now) s
  | wait d next, s => complete (now + d) next s

end Routine

end RequestAuth
