import RequestAuth.Proofs.SignatureCache.Acts
import RequestAuth.Proofs.SignatureCache.Frame

/-!
# Between two actions nothing is due

Whenever a caller acts, all tasks are due later than now (`Ahead`). So a caller that waits for a
routine gets as far as `Routine.run` carries it, and lets time pass only then
(`complete_of_finished`, `complete_of_waiting`).
-/

namespace RequestAuth.SignatureCache

variable {σ α : Type} {cache : SignatureCache σ} {s : State σ} {t : Nat}

/-- All that is due is due later than now. -/
def Ahead (s : State σ) : Prop := ∀ task ∈ s.tasks, s.clock < task.due

/-! ## Letting time pass -/

theorem popFirst_eq_none {tasks : List (Task σ)} (h : popFirst tasks = none) : tasks = [] := by
  cases tasks with
  | nil => rfl
  | cons => exact (popFirst_cons_ne_none _ _ h).elim

theorem mem_of_popFirst {tasks others : List (Task σ)} {first task : Task σ}
    (h : popFirst tasks = some (first, others)) :
    task ∈ tasks ↔ task = first ∨ task ∈ others := by
  obtain ⟨before, after, rfl, rfl, -⟩ := popFirst_eq_some h
  simp only [List.mem_append, List.mem_cons]
  tauto

theorem later_of_popFirst {tasks others : List (Task σ)} {first : Task σ}
    (h : popFirst tasks = some (first, others)) (hd : t < first.due) :
    ∀ task ∈ tasks, t < task.due := by
  obtain ⟨-, -, -, -, least⟩ := popFirst_eq_some h
  intro task ht
  rcases (mem_of_popFirst h).1 ht with rfl | ht
  · exact hd
  · exact hd.trans_le (least task ht)

/-- What is due later is left alone. -/
theorem advanceTo_of_later (later : ∀ task ∈ s.tasks, t < task.due) :
    s.advanceTo cache t = { s with clock := max s.clock t } := by
  rw [State.advanceTo]
  split
  · rfl
  · next task others hp =>
    exact if_neg (Nat.not_le_of_lt (later task ((mem_of_popFirst hp).2 (.inl rfl))))

theorem advanceTo_of_due {first : Task σ} {others : List (Task σ)}
    (hp : popFirst s.tasks = some (first, others)) (hd : first.due ≤ t) :
    s.advanceTo cache t = (s.fire cache first others).advanceTo cache t := by
  rw [State.advanceTo]
  split
  · next hn =>
    rw [hp] at hn
    cases hn
  · next task rest hs =>
    rw [hp] at hs
    cases hs
    exact if_pos hd

/-- Once it is the given time, all that was due by then has been carried out. -/
theorem advanceTo_spec (h : s.clock ≤ t) :
    (s.advanceTo cache t).clock = t ∧ ∀ task ∈ (s.advanceTo cache t).tasks, t < task.due := by
  fun_induction State.advanceTo cache t s with
  | case1 s hp => exact ⟨Nat.max_eq_right h, by simp [popFirst_eq_none hp]⟩
  | case2 s task others hp hd ih =>
    exact ih (by simpa using ⟨h, hd⟩)
  | case3 s task others hp hd =>
    exact ⟨Nat.max_eq_right h, later_of_popFirst hp (Nat.lt_of_not_le hd)⟩

/-- The time that passes before anything is due does not matter. -/
theorem advanceTo_withClock {now : Nat} (after : s.clock ≤ now)
    (early : ∀ task ∈ s.tasks, now ≤ task.due) (before : now ≤ t) :
    State.advanceTo cache t { s with clock := now } = s.advanceTo cache t := by
  have pass (later : ∀ task ∈ s.tasks, t < task.due) :
      State.advanceTo cache t { s with clock := now } = s.advanceTo cache t := by
    have moved : State.advanceTo cache t { s with clock := now } = { s with clock := max now t } :=
      advanceTo_of_later later
    have same : max now t = max s.clock t := by omega
    rw [moved, advanceTo_of_later later, same]
  cases hp : popFirst s.tasks with
  | none => exact pass (by simp [popFirst_eq_none hp])
  | some found =>
    obtain ⟨first, others⟩ := found
    by_cases hd : first.due ≤ t
    · have due : now ≤ first.due := early first ((mem_of_popFirst hp).2 (.inl rfl))
      have moved : State.advanceTo cache t { s with clock := now } =
          (State.fire cache first others { s with clock := now }).advanceTo cache t :=
        advanceTo_of_due hp hd
      have same : max now first.due = max s.clock first.due := by omega
      rw [moved, advanceTo_of_due hp hd, State.fire, State.fire]
      simp only [same]
    · exact pass (later_of_popFirst hp (Nat.lt_of_not_le hd))

theorem ahead_advanceTo (h : s.clock ≤ t) : Ahead (s.advanceTo cache t) := by
  obtain ⟨clock, later⟩ := @advanceTo_spec _ cache _ _ h
  intro task ht
  rw [clock]
  exact later task ht

/-! ## Waiting for a routine -/

theorem ahead_complete (r : Routine σ α) (h : Ahead s) : Ahead (s.complete cache r).2 := by
  induction r generalizing s with
  | done => exact h
  | act change next ih => exact ih s.outside h
  | clock next ih => exact ih s.clock h
  | wait d next ih => exact ih (ahead_advanceTo (Nat.le_add_right _ _))

theorem advance_zero (h : Ahead s) : s.advance cache 0 = s := by
  unfold State.advance
  rw [Nat.add_zero, advanceTo_of_later h, Nat.max_self]

/-- A routine that ends at once ends as on its own. -/
theorem complete_of_finished {r : Routine σ α} {a : α} {outside : σ} (h : Ahead s)
    (hr : r.run s.clock s.outside = (.finished a, outside)) :
    s.complete cache r = (a, { s with outside }) := by
  induction r generalizing s with
  | done b =>
    cases hr
    rfl
  | act change next ih => exact ih s.outside h hr
  | clock next ih => exact ih s.clock h hr
  | wait d next ih =>
    simp only [Routine.run] at hr
    split at hr
    · next hd =>
      rw [State.complete, hd, advance_zero h]
      exact ih h hr
    · cases hr

/-- A routine that comes to a wait goes on after it. -/
theorem complete_of_waiting {r rest : Routine σ α} {d : Nat} {outside : σ} (h : Ahead s)
    (hr : r.run s.clock s.outside = (.waiting d rest, outside)) :
    s.complete cache r = State.complete cache rest ({ s with outside }.advance cache d) := by
  induction r generalizing s with
  | done b => cases hr
  | act change next ih => exact ih s.outside h hr
  | clock next ih => exact ih s.clock h hr
  | wait e next ih =>
    simp only [Routine.run] at hr
    split at hr
    · next hd =>
      rw [State.complete, hd, advance_zero h]
      exact ih h hr
    · cases hr
      rfl

/-! ## Acts -/

theorem Ahead.of_subset {tasks : List (Task σ)} (h : Ahead s) (ht : tasks ⊆ s.tasks) :
    Ahead { s with tasks } :=
  fun task hm => h task (ht hm)

theorem Ahead.unschedule (h : Ahead s) : Ahead s.unschedule := by
  unfold State.unschedule
  split
  · exact h
  · exact h.of_subset (List.filter_subset_self _)

theorem Ahead.hold {d : Nat} {job : Job σ} (h : Ahead s) (hd : d ≠ 0) :
    Ahead { s with tasks := s.tasks ++ [⟨s.clock + d, job⟩] } := by
  intro task ht
  rcases List.mem_append.1 ht with ht | ht
  · exact h task ht
  · rw [List.mem_singleton.1 ht]
    exact Nat.lt_add_of_pos_right (Nat.pos_of_ne_zero hd)

theorem Ahead.schedule (h : Ahead s) : Ahead (s.schedule cache) := by
  unfold State.schedule
  split
  · exact h
  · next nonzero =>
    split
    · rw [← State.unschedule_clock s]
      exact h.unschedule.hold nonzero
    · exact h.unschedule

theorem Ahead.finish (f : Flight) (outcome : Outcome) (h : Ahead s) :
    Ahead (f.finish cache outcome s) := by
  obtain ⟨-, he⟩ | ⟨-, entry, rfl, he⟩ | ⟨-, generation, m, e, rfl, rfl, he⟩ :=
    f.finish_cases cache outcome s
  · rw [he]
    exact h
  · rw [he]
    have stored : Ahead ((s.note (.ended f.number f.cause (.ok entry))).put f.number entry) := h
    exact stored.schedule
  · rw [he]
    exact h

theorem Ahead.abandon (h : Ahead s) : Ahead s.abandon := by
  unfold State.abandon
  split
  · exact h.of_subset (List.nil_subset _)
  · exact h

theorem Ahead.carryCall {id epoch n : Nat} {rest : Routine σ Outcome} (h : Ahead s) :
    Ahead (s.carryCall cache id epoch n rest) := by
  unfold State.carryCall State.carry
  split
  · next outcome outside hr =>
    have moved : Ahead { s with outside } := h
    exact moved.finish (.miss epoch n) outcome
  · next d rest outside hr =>
    have moved : Ahead { s with outside } := h
    exact moved.hold (Routine.run_waiting_ne_zero hr)

theorem Ahead.start {id : Nat} (h : Ahead s) : Ahead (cache.start id s) := by
  unfold SignatureCache.start
  split
  · exact h
  · have begun : Ahead (s.begin .miss).2 := h
    exact begun.carryCall

theorem Ahead.fetch (h : Ahead s) : Ahead (cache.fetch s).2 := by
  unfold SignatureCache.fetch
  split
  · exact h
  · have begun : Ahead (s.begin .miss).2 := h
    exact (ahead_complete cache.compute begun).finish (.miss s.epoch s.begun) _

theorem Ahead.collect {id : Nat} (h : Ahead s) : Ahead (cache.collect id s).2 := by
  unfold SignatureCache.collect
  split
  · exact h
  · split
    · exact h
    · next call tasks found =>
      obtain ⟨before, after, held, rfl⟩ := takeCall?_eq_some found
      have due : s.clock ≤ call.due := by
        apply Nat.le_of_lt
        exact h ⟨call.due, .calling id call.epoch call.number call.rest⟩ (by simp [held])
      have reached : Ahead (State.advanceTo cache call.due
          { s with tasks := before ++ after, handles := s.handles + 1 }) := ahead_advanceTo due
      have completed : Ahead (State.complete cache call.rest _).2 :=
        ahead_complete call.rest reached
      dsimp only
      generalize State.complete cache call.rest _ = ended at completed ⊢
      have finished : Ahead (ended.2.finishMiss cache call.epoch call.number ended.1) :=
        completed.finish (.miss call.epoch call.number) ended.1
      exact @Ahead.abandon _ { ended.2.finishMiss cache call.epoch call.number ended.1 with
        handles := _ } finished

theorem Ahead.cancel {id : Nat} (h : Ahead s) : Ahead (SignatureCache.cancel id s).2 := by
  unfold SignatureCache.cancel
  split
  · exact h
  · split
    · exact h
    · next call tasks found =>
      obtain ⟨before, after, held, rfl⟩ := takeCall?_eq_some found
      have rest : Ahead { s with tasks := before ++ after } :=
        h.of_subset fun task hm => held ▸ mem_of_mem_others hm
      exact Ahead.abandon rest

theorem Ahead.perform (action : Action σ) (h : Ahead s) : Ahead (cache.perform action s).2 := by
  unfold SignatureCache.perform
  split
  · exact h
  · cases action with
    | peek | change | acquire => exact h
    | fetch => exact h.fetch
    | start id => exact h.start
    | collect id => exact h.collect
    | cancel id => exact h.cancel
    | close => exact h.unschedule
    | sleep d => exact ahead_advanceTo (Nat.le_add_right _ _)
    | release =>
      have fewer : Ahead { s with handles := s.handles - 1 } := h
      exact fewer.abandon

theorem Ahead.performAll (actions : List (Action σ)) (h : Ahead s) :
    Ahead (cache.performAll actions s).2 := by
  induction actions generalizing s with
  | nil => exact h
  | cons action actions ih => exact ih (h.perform action)

end RequestAuth.SignatureCache
