import RequestAuth.Routine

/-!
# Routines of which the same is seen

Let `view` tell what can be seen of a state. Two routines are `Alike` if in states that look the
same they take the same time, come to the same, and leave states that look the same; what they do
besides may differ. A routine is `Quiet` if nothing is seen of it before it ends.
-/

namespace RequestAuth.Routine

variable {σ ρ α : Type} {view : σ → ρ} {r r' rest : Routine σ α} {s s' : σ} {now d : Nat}

/-- Both have ended with one result, or both wait for one time and what is left is related. -/
inductive Progress.Same (related : Routine σ α → Routine σ α → Prop) :
    Progress σ α → Progress σ α → Prop where
  | finished (a : α) : Same related (.finished a) (.finished a)
  | waiting (d : Nat) {r r' : Routine σ α} (h : related r r') :
      Same related (.waiting d r) (.waiting d r')

theorem Progress.Same.mono {related related' : Routine σ α → Routine σ α → Prop}
    {p p' : Progress σ α} (h : p.Same related p')
    (weaken : ∀ r r', related r r' → related' r r') : p.Same related' p' := by
  cases h with
  | finished a => exact .finished a
  | waiting d h => exact .waiting d (weaken _ _ h)

/-- Related routines get equally far in states that look the same, and leave such states. -/
def InStep (view : σ → ρ) (related : Routine σ α → Routine σ α → Prop) : Prop :=
  ∀ r r', related r r' → ∀ now s s', view s = view s' →
    (r.run now s).1.Same related (r'.run now s').1 ∧ view (r.run now s).2 = view (r'.run now s').2

/-- The same is seen of both routines. -/
def Alike (view : σ → ρ) (r r' : Routine σ α) : Prop :=
  ∃ related, InStep view related ∧ related r r'

theorem Alike.run (h : r.Alike view r') (hs : view s = view s') (now : Nat) :
    (r.run now s).1.Same (Alike view) (r'.run now s').1 ∧
      view (r.run now s).2 = view (r'.run now s').2 := by
  obtain ⟨related, inStep, h⟩ := h
  obtain ⟨same, look⟩ := inStep r r' h now s s' hs
  exact ⟨same.mono fun _ _ h => ⟨related, inStep, h⟩, look⟩

theorem Alike.of_run
    (h : ∀ now s s', view s = view s' → (r.run now s).1.Same (Alike view) (r'.run now s').1 ∧
      view (r.run now s).2 = view (r'.run now s').2) : r.Alike view r' := by
  refine ⟨fun q q' => q.Alike view q' ∨ (q = r ∧ q' = r'), ?_, .inr ⟨rfl, rfl⟩⟩
  rintro q q' (hq | ⟨rfl, rfl⟩) now s s' hs
  · obtain ⟨same, look⟩ := hq.run hs now
    exact ⟨same.mono fun _ _ => .inl, look⟩
  · obtain ⟨same, look⟩ := h now s s' hs
    exact ⟨same.mono fun _ _ => .inl, look⟩

theorem Alike.done (a : α) : (done a).Alike view (done a) :=
  .of_run fun _ _ _ hs => ⟨.finished a, hs⟩

theorem Alike.wait (d : Nat) (h : r.Alike view r') : (wait d r).Alike view (wait d r') := by
  refine .of_run fun now s s' hs => ?_
  rw [Routine.run, Routine.run]
  split
  · exact h.run hs now
  · exact ⟨.waiting d h, hs⟩

theorem Alike.act {change change' : σ → σ} {next next' : σ → Routine σ α}
    (look : ∀ s s', view s = view s' → view (change s) = view (change' s'))
    (h : ∀ s s', view s = view s' → (next s).Alike view (next' s')) :
    (act change next).Alike view (act change' next') :=
  .of_run fun now s s' hs => (h s s' hs).run (look s s' hs) now

/-- Where all of a state is seen, a routine is like itself. -/
theorem alike_self (r : Routine σ α) : r.Alike id r := by
  refine ⟨Eq, ?_, rfl⟩
  rintro r _ rfl now s _ rfl
  refine ⟨?_, rfl⟩
  change (r.run now s).1.Same Eq (r.run now s).1
  cases (r.run now s).1 with
  | finished a => exact .finished a
  | waiting d rest => exact .waiting d rfl

/-- Nothing is seen of the routine until it ends. -/
def Quiet (view : σ → ρ) (r : Routine σ α) : Prop :=
  ∃ unseen : Routine σ α → Prop, unseen r ∧ ∀ r, unseen r → ∀ now s d rest s',
    r.run now s = (.waiting d rest, s') → view s' = view s ∧ unseen rest

theorem Quiet.run (h : r.Quiet view) (hr : r.run now s = (.waiting d rest, s')) :
    view s' = view s ∧ rest.Quiet view := by
  obtain ⟨unseen, hu, step⟩ := h
  obtain ⟨look, hu'⟩ := step r hu now s d rest s' hr
  exact ⟨look, unseen, hu', step⟩

theorem Quiet.of_run
    (h : ∀ now s d rest s', r.run now s = (.waiting d rest, s') →
      view s' = view s ∧ rest.Quiet view) : r.Quiet view := by
  refine ⟨fun q => q.Quiet view ∨ q = r, .inr rfl, ?_⟩
  rintro q (hq | rfl) now s d rest s' hr
  · exact (hq.run hr).imp_right .inl
  · exact (h now s d rest s' hr).imp_right .inl

theorem Quiet.done (a : α) : (done a).Quiet view := by
  refine .of_run fun now s d rest s' hr => ?_
  cases hr

theorem Quiet.wait (d : Nat) (h : r.Quiet view) : (wait d r).Quiet view := by
  refine .of_run fun now s e rest s' hr => ?_
  rw [Routine.run] at hr
  split at hr
  · exact h.run hr
  · cases hr
    exact ⟨rfl, h⟩

theorem Quiet.act {change : σ → σ} {next : σ → Routine σ α}
    (look : ∀ s, view (change s) = view s) (h : ∀ s, (next s).Quiet view) :
    (act change next).Quiet view := by
  refine .of_run fun now s d rest s' hr => ?_
  obtain ⟨same, quiet⟩ := (h s).run hr
  exact ⟨same.trans (look s), quiet⟩

/-- Routines by induction from one wait to the next. -/
theorem run_induct {P : Routine σ α → Prop}
    (h : ∀ r, (∀ now s d rest s', r.run now s = (.waiting d rest, s') → P rest) → P r)
    (r : Routine σ α) : P r := by
  have both : P r ∧ ∀ now s d rest s', r.run now s = (.waiting d rest, s') → P rest := by
    induction r with
    | done a =>
      have never : ∀ now s d rest s', (done a).run now s = (.waiting d rest, s') → P rest :=
        fun _ _ _ _ _ => nofun
      exact ⟨h _ never, never⟩
    | act change next ih =>
      have later : ∀ now s d rest s',
          (act change next).run now s = (.waiting d rest, s') → P rest :=
        fun now s d rest s' hr => (ih s).2 now (change s) d rest s' hr
      exact ⟨h _ later, later⟩
    | clock next ih =>
      have later : ∀ now s d rest s', (clock next).run now s = (.waiting d rest, s') → P rest :=
        fun now s d rest s' hr => (ih now).2 now s d rest s' hr
      exact ⟨h _ later, later⟩
    | wait d next ih =>
      have later : ∀ now s e rest s', (wait d next).run now s = (.waiting e rest, s') → P rest := by
        intro now s e rest s' hr
        simp only [run] at hr
        split at hr
        · exact ih.2 now s e rest s' hr
        · cases hr
          exact ih.1
      exact ⟨h _ later, later⟩
  exact both.1

end RequestAuth.Routine
