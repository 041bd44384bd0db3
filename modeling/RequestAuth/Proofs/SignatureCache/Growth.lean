import RequestAuth.Proofs.SignatureCache.Acts

/-!
# What the acts of a cache leave alone

`Onward s s'` says that the journal of `s'` goes on from that of `s`, that generations have only
gone up, and that there are as many handles. Each act leads onward, so that what the journal said
once it says ever after.
-/

namespace RequestAuth.SignatureCache

variable {σ : Type} {cache : SignatureCache σ} {s s' s'' : State σ}

/-- The second state may come of the first without a handle being made or given up. -/
structure Onward (s s' : State σ) : Prop where
  journal : s.journal <:+ s'.journal
  generation : s.generation ≤ s'.generation
  handles : s'.handles = s.handles

namespace Onward

theorem refl (s : State σ) : Onward s s := ⟨List.suffix_refl _, Nat.le_refl _, rfl⟩

theorem note (h : Onward s s') (event : Event) : Onward s (s'.note event) :=
  ⟨h.journal.trans (List.suffix_cons _ _), h.generation, h.handles⟩

theorem unschedule (h : Onward s s') : Onward s s'.unschedule := by
  unfold State.unschedule
  split
  · exact h
  · exact ⟨h.journal, h.generation, h.handles⟩

theorem schedule (h : Onward s s') : Onward s (s'.schedule cache) := by
  unfold State.schedule
  split
  · exact h
  · have hu := h.unschedule
    split
    · exact ⟨hu.journal, Nat.le_succ_of_le h.generation, hu.handles⟩
    · exact ⟨hu.journal.trans (List.suffix_cons _ _), hu.generation, hu.handles⟩

/-- A computation that ends is noted, whatever comes of it. -/
theorem finish (f : Flight) (outcome : Outcome)
    (h : Onward s (s'.note (.ended f.number f.cause outcome))) :
    Onward s (f.finish cache outcome s') := by
  obtain ⟨-, he⟩ | ⟨-, entry, rfl, he⟩ | ⟨-, generation, n, e, rfl, rfl, he⟩ :=
    f.finish_cases cache outcome s'
  · rw [he]
    exact h
  · rw [he]
    exact schedule ⟨h.journal.trans (List.suffix_cons _ _), h.generation, h.handles⟩
  · rw [he]
    exact ⟨h.journal.trans (List.suffix_cons _ _), h.generation, h.handles⟩

theorem carry {rest : Routine σ Outcome} {hold : Routine σ Outcome → Job σ}
    {finish : Outcome → State σ → State σ} (h : Onward s s')
    (hf : ∀ outcome s', Onward s s' → Onward s (finish outcome s')) :
    Onward s (s'.carry rest hold finish) := by
  unfold State.carry
  split
  · exact hf _ _ ⟨h.journal, h.generation, h.handles⟩
  · exact ⟨h.journal, h.generation, h.handles⟩

theorem carryRefresh {generation n : Nat} {rest : Routine σ Outcome} (h : Onward s s') :
    Onward s (s'.carryRefresh cache generation n rest) :=
  h.carry fun outcome _ h => (h.note _).finish (.refresh generation n) outcome

theorem carryCall {id epoch n : Nat} {rest : Routine σ Outcome} (h : Onward s s') :
    Onward s (s'.carryCall cache id epoch n rest) :=
  h.carry fun outcome s' h =>
    have h : Onward s (s'.finishMiss cache epoch n outcome) :=
      (h.note _).finish (.miss epoch n) outcome
    ⟨h.journal, h.generation, h.handles⟩

theorem abandon (h : Onward s s') : Onward s s'.abandon := by
  unfold State.abandon
  split
  · exact ⟨h.journal, h.generation, h.handles⟩
  · exact h

theorem resume (job : Job σ) (h : Onward s s') : Onward s (s'.resume cache job) := by
  unfold State.resume
  split
  · split
    · exact carryRefresh ⟨h.journal.trans (List.suffix_cons _ _), h.generation, h.handles⟩
    · exact h
  · exact h.carryRefresh
  · exact h.carryCall

theorem fire (task : Task σ) (others : List (Task σ)) (h : Onward s s') :
    Onward s (s'.fire cache task others) :=
  abandon (resume _ ⟨h.journal, h.generation, h.handles⟩)

theorem start (id : Nat) (h : Onward s s') : Onward s (cache.start id s') := by
  unfold SignatureCache.start
  split
  · exact ⟨h.journal, h.generation, h.handles⟩
  · exact carryCall ⟨h.journal.trans (List.suffix_cons _ _), h.generation, h.handles⟩

theorem cancel (id : Nat) (h : Onward s s') : Onward s (SignatureCache.cancel id s').2 := by
  unfold SignatureCache.cancel
  split
  · exact h
  · split
    · exact h
    · exact abandon ⟨h.journal, h.generation, h.handles⟩

theorem close (h : Onward s s') : Onward s s'.close :=
  have hu := h.unschedule
  ⟨hu.journal.trans (List.suffix_cons _ _), Nat.le_succ_of_le h.generation, hu.handles⟩

theorem advanceTo (t : Nat) (h : Onward s s') : Onward s (s'.advanceTo cache t) := by
  apply advanceTo_induct (P := fun s' => Onward s s') t
  case fire => exact fun _ task before after _ _ h => h.fire task (before ++ after)
  case pass => exact fun _ _ h => ⟨h.journal, h.generation, h.handles⟩
  case h => exact h

theorem complete {α : Type} (r : Routine σ α) (h : Onward s s') :
    Onward s (s'.complete cache r).2 := by
  induction r generalizing s' with
  | done => exact h
  | act change next ih => exact ih s'.outside ⟨h.journal, h.generation, h.handles⟩
  | clock next ih => exact ih s'.clock h
  | wait d next ih => exact ih (h.advanceTo _)

end Onward

end RequestAuth.SignatureCache
