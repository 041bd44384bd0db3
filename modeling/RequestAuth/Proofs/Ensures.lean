import Mathlib.Order.Monotone.Defs
import RequestAuth.Routine

/-!
# What routines ensure while others act

Before any act of a routine others may have changed the state. `r.Ensures post s` is about a state
that all of them only move on, in a preorder: begun in `s` or later, `r` too moves the state on
with every act, and whenever it ends, its result and the state then satisfy `post`. Routines that
are put together ensure what their parts do (`Ensures.bind`), and what a routine ensures is ensured
by what is left of it after one act (`Ensures.step?`) or after a run up to a wait (`Ensures.run`).

The first sections say how far routines that are put together get, given how far their parts do.
-/

namespace RequestAuth.Routine

variable {σ τ α β : Type}

/-- The first act of a routine, which is not at its end; a wait is over whenever it is. -/
def step? (now : Nat) : Routine σ α → σ → Option (Routine σ α × σ)
  | done _, _ => none
  | act change next, s => some (next s, change s)
  | clock next, s => some (next now, s)
  | wait _ next, s => some (next, s)

/-- An act leaves another routine. -/
theorem ne_of_step? {r r' : Routine σ α} {s s' : σ} {now : Nat}
    (h : r.step? now s = some (r', s')) : r' ≠ r := by
  intro same
  induction r generalizing r' s s' with
  | done => cases h
  | act change next ih =>
    cases h
    exact ih s ((congrArg (·.step? now s) same).trans rfl) rfl
  | clock next ih =>
    cases h
    exact ih now ((congrArg (·.step? now s) same).trans rfl) rfl
  | wait d next ih =>
    cases h
    exact ih ((congrArg (·.step? now s) same).trans rfl) rfl

theorem bind_assoc {γ : Type} (r : Routine σ α) (f : α → Routine σ β) (g : β → Routine σ γ) :
    (r.bind f).bind g = r.bind fun a => (f a).bind g := by
  induction r with
  | done a => rfl
  | act change next ih => exact congrArg (act change) (funext ih)
  | clock next ih => exact congrArg clock (funext ih)
  | wait d next ih => exact congrArg (wait d) ih

/-! ## To the end -/

/-- The time at which a routine has been carried out to its end. -/
def ending (now : Nat) : Routine σ α → σ → Nat
  | done _, _ => now
  | act change next, s => ending now (next s) (change s)
  | clock next, s => ending now (next now) s
  | wait d next, s => ending (now + d) next s

theorem complete_bind (r : Routine σ α) (f : α → Routine σ β) (now : Nat) (s : σ) :
    (r.bind f).complete now s =
      (f (r.complete now s).1).complete (r.ending now s) (r.complete now s).2 := by
  induction r generalizing now s with
  | done a => rfl
  | act change next ih => exact ih s now (change s)
  | clock next ih => exact ih now now s
  | wait d next ih => exact ih (now + d) s

theorem ending_bind (r : Routine σ α) (f : α → Routine σ β) (now : Nat) (s : σ) :
    (r.bind f).ending now s =
      (f (r.complete now s).1).ending (r.ending now s) (r.complete now s).2 := by
  induction r generalizing now s with
  | done a => rfl
  | act change next ih => exact ih s now (change s)
  | clock next ih => exact ih now now s
  | wait d next ih => exact ih (now + d) s

/-- What no change to a part of the state touches stays as it is. -/
theorem complete_onPart {ρ : Type} {get : σ → τ} {set : τ → σ → σ} (rest : σ → ρ)
    (apart : ∀ t s, rest (set t s) = rest s) (r : Routine τ α) (now : Nat) (s : σ) :
    rest ((r.onPart get set).complete now s).2 = rest s := by
  induction r generalizing now s with
  | done => rfl
  | act change next ih => exact (ih _ now _).trans (apart _ s)
  | clock next ih => exact ih now now s
  | wait d next ih => exact ih (now + d) s

/-- On a part that is what was put in its place last, a routine does what it does on its own. -/
theorem complete_onPart_eq {get : σ → τ} {set : τ → σ → σ} (get_set : ∀ t s, get (set t s) = t)
    (set_get : ∀ s, set (get s) s = s) (set_set : ∀ t t' s, set t (set t' s) = set t s)
    (r : Routine τ α) (now : Nat) (s : σ) :
    (r.onPart get set).complete now s =
      ((r.complete now (get s)).1, set (r.complete now (get s)).2 s) := by
  induction r generalizing now s with
  | done a => rw [onPart, complete, complete, set_get]
  | act change next ih =>
    have h := ih (get s) now (set (change (get s)) s)
    rw [get_set, set_set] at h
    exact h
  | clock next ih => exact ih now now s
  | wait d next ih => exact ih (now + d) s

theorem ending_onPart {get : σ → τ} {set : τ → σ → σ} (get_set : ∀ t s, get (set t s) = t)
    (r : Routine τ α) (now : Nat) (s : σ) :
    (r.onPart get set).ending now s = r.ending now (get s) := by
  induction r generalizing now s with
  | done a => rfl
  | act change next ih =>
    have h := ih (get s) now (set (change (get s)) s)
    rw [get_set] at h
    exact h
  | clock next ih => exact ih now now s
  | wait d next ih => exact ih (now + d) s

/-! ## To the first wait -/

/-- What is left to do. -/
def Progress.rest : Progress σ α → Routine σ α
  | finished a => .done a
  | waiting _ rest => rest

theorem run_bind_of_finished {r : Routine σ α} {f : α → Routine σ β} {now : Nat} {s s' : σ} {a : α}
    (h : r.run now s = (.finished a, s')) : (r.bind f).run now s = (f a).run now s' := by
  induction r generalizing s with
  | done b =>
    cases h
    rfl
  | act change next ih => exact ih s h
  | clock next ih => exact ih now h
  | wait d next ih =>
    simp only [run] at h
    split at h
    · next hd => exact (if_pos hd).trans (ih h)
    · cases h

theorem run_bind_of_waiting {r rest : Routine σ α} {f : α → Routine σ β} {now d : Nat} {s s' : σ}
    (h : r.run now s = (.waiting d rest, s')) :
    (r.bind f).run now s = (.waiting d (rest.bind f), s') := by
  induction r generalizing s with
  | done b => cases h
  | act change next ih => exact ih s h
  | clock next ih => exact ih now h
  | wait e next ih =>
    simp only [run] at h
    split at h
    · next hd => exact (if_pos hd).trans (ih h)
    · next hd =>
      cases h
      exact if_neg hd

/-- How far a routine got that acts on a part of a larger state. -/
def Progress.onPart (get : σ → τ) (set : τ → σ → σ) : Progress τ α → Progress σ α
  | finished a => finished a
  | waiting d rest => waiting d (rest.onPart get set)

/-- On a part that is what was put in its place last, a routine gets as far as on its own. -/
theorem run_onPart {get : σ → τ} {set : τ → σ → σ} (get_set : ∀ t s, get (set t s) = t)
    (set_get : ∀ s, set (get s) s = s) (set_set : ∀ t t' s, set t (set t' s) = set t s)
    (r : Routine τ α) (now : Nat) (s : σ) :
    (r.onPart get set).run now s =
      ((r.run now (get s)).1.onPart get set, set (r.run now (get s)).2 s) := by
  induction r generalizing s with
  | done a => simp [onPart, run, Progress.onPart, set_get]
  | act change next ih =>
    have h := ih (get s) (set (change (get s)) s)
    rw [get_set, set_set] at h
    exact h
  | clock next ih => exact ih now s
  | wait d next ih =>
    simp only [onPart, run]
    split
    · exact ih s
    · rw [Progress.onPart, set_get]

/-! ## Acting among others -/

variable [Preorder σ] {r r' : Routine σ α} {post : α → σ → Prop} {s s' : σ} {now : Nat}

/-- Begun in a state or later, the routine moves the state on, and ends as it is to. -/
def Ensures (post : α → σ → Prop) : Routine σ α → σ → Prop
  | done a, s => ∀ s', s ≤ s' → post a s'
  | act change next, s => ∀ s', s ≤ s' → s' ≤ change s' ∧ (next s').Ensures post (change s')
  | clock next, s => ∀ now, (next now).Ensures post s
  | wait _ next, s => next.Ensures post s

theorem Ensures.later (h : r.Ensures post s) (hs : s ≤ s') : r.Ensures post s' := by
  induction r generalizing s with
  | done a => exact fun s'' hs' => h s'' (hs.trans hs')
  | act change next => exact fun s'' hs' => h s'' (hs.trans hs')
  | clock next ih => exact fun now => ih now (h now) hs
  | wait d next ih => exact ih h hs

theorem Ensures.bind {f : α → Routine σ β} {post' : β → σ → Prop} (h : r.Ensures post s)
    (hf : ∀ a s', s ≤ s' → post a s' → (f a).Ensures post' s') : (r.bind f).Ensures post' s := by
  induction r generalizing s with
  | done a => exact hf a s le_rfl (h s le_rfl)
  | act change next ih =>
    intro s' hs
    obtain ⟨on, rest⟩ := h s' hs
    exact ⟨on, ih s' rest fun a s'' hs' => hf a s'' ((hs.trans on).trans hs')⟩
  | clock next ih => exact fun now => ih now (h now) hf
  | wait d next ih => exact ih h hf

/-- A routine that acts on a part of a state moves it on if all changes to that part do. -/
theorem ensures_onPart {get : σ → τ} {set : τ → σ → σ} (on : ∀ t s, s ≤ set t s)
    (r : Routine τ α) (s : σ) : (r.onPart get set).Ensures (fun _ _ => True) s := by
  induction r generalizing s with
  | done => exact fun _ _ => trivial
  | act change next ih => exact fun s' _ => ⟨on _ s', ih _ _⟩
  | clock next ih => exact fun now => ih now s
  | wait d next ih => exact ih s

/-! ## Carrying out -/

theorem Ensures.step? (h : r.Ensures post s) (hr : r.step? now s = some (r', s')) :
    s ≤ s' ∧ r'.Ensures post s' := by
  cases r with
  | done a => cases hr
  | act change next =>
    cases hr
    exact h s le_rfl
  | clock next =>
    cases hr
    exact ⟨le_rfl, h now⟩
  | wait d next =>
    cases hr
    exact ⟨le_rfl, h⟩

/-- What is ensured of how far a routine got. -/
def Progress.Ensures (post : α → σ → Prop) : Progress σ α → σ → Prop
  | finished a, s => post a s
  | waiting _ rest, s => rest.Ensures post s

theorem Ensures.run (h : r.Ensures post s) (now : Nat) :
    s ≤ (r.run now s).2 ∧ (r.run now s).1.Ensures post (r.run now s).2 := by
  induction r generalizing s with
  | done a => exact ⟨le_rfl, h s le_rfl⟩
  | act change next ih =>
    obtain ⟨on, rest⟩ := h s le_rfl
    obtain ⟨on', rest'⟩ := ih s rest
    exact ⟨on.trans on', rest'⟩
  | clock next ih => exact ih now (h now)
  | wait d next ih =>
    unfold Routine.run
    split
    · exact ih h
    · exact ⟨le_rfl, h⟩

end RequestAuth.Routine
