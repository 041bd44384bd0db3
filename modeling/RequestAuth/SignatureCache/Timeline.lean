import RequestAuth.SignatureCache.Basic

/-!
# What happens to a cache as time passes

Tasks are carried out in the order in which they are due. Carrying one out leaves at most one more,
which is due later, so that `State.advanceTo` comes to an end: the `load` of the tasks, which is how
long before the end they are due, becomes less with each. `State.complete` carries out a routine for
a caller who waits for it, while tasks go on.
-/

namespace RequestAuth.SignatureCache

variable {σ α : Type}

/-! ## Carrying out a task -/

namespace State

/-- Carries a computation out up to its first wait, which becomes a task, or to its end. -/
def carry (s : State σ) (rest : Routine σ Outcome) (hold : Routine σ Outcome → Job σ)
    (finish : Outcome → State σ → State σ) : State σ :=
  match rest.run s.clock s.outside with
  | (.finished outcome, outside) => finish outcome { s with outside }
  | (.waiting d rest, outside) =>
    { s with outside, tasks := s.tasks ++ [⟨s.clock + d, hold rest⟩] }

/-- Carries the computation in the background of a generation out. -/
def carryRefresh (cache : SignatureCache σ) (generation number : Nat) (rest : Routine σ Outcome)
    (s : State σ) : State σ :=
  s.carry rest (.refreshing generation number) (finishRefresh cache generation number)

/-- Ends a computation for a caller who has gone on to other things. -/
def finishCall (cache : SignatureCache σ) (id epoch number : Nat) (outcome : Outcome)
    (s : State σ) : State σ :=
  let s := s.finishMiss cache epoch number outcome
  { s with answers := (id, some outcome) :: s.answers }

/-- Carries a computation for a caller out. -/
def carryCall (cache : SignatureCache σ) (id epoch number : Nat) (rest : Routine σ Outcome)
    (s : State σ) : State σ :=
  s.carry rest (.calling id epoch number) (finishCall cache id epoch number)

/-- Does what a task does next. -/
def resume (cache : SignatureCache σ) (job : Job σ) (s : State σ) : State σ :=
  match job with
  | .waiting generation =>
    if s.generation = generation then
      let (number, s) := s.begin .refresh
      s.carryRefresh cache generation number cache.compute
    else s
  | .refreshing generation number rest => s.carryRefresh cache generation number rest
  | .calling id epoch number rest => s.carryCall cache id epoch number rest

/-- Carries out a task at the time at which it is due, and leaves the others. -/
def fire (cache : SignatureCache σ) (task : Task σ) (others : List (Task σ)) (s : State σ) :
    State σ :=
  (resume cache task.job { s with clock := max s.clock task.due, tasks := others }).abandon

end State

/-- Takes the task that is due first, or the first of those, out of a list. -/
def popFirst : List (Task σ) → Option (Task σ × List (Task σ))
  | [] => none
  | task :: tasks =>
    match popFirst tasks with
    | none => some (task, [])
    | some (first, others) =>
      if first.due < task.due then some (first, task :: others) else some (task, tasks)

/-! ## The load of a list of tasks -/

/-- How much time there is between the tasks and the end of the instant `t`. -/
def load (t : Nat) : List (Task σ) → Nat
  | [] => 0
  | task :: tasks => (t + 1 - task.due) + load t tasks

@[simp] theorem load_append (t : Nat) (tasks more : List (Task σ)) :
    load t (tasks ++ more) = load t tasks + load t more := by
  induction tasks with
  | nil => simp [load]
  | cons task tasks ih => simp [load, ih, Nat.add_assoc]

/-- A task that is due later than `now` adds less than one that is due then. -/
theorem load_append_later_le (t : Nat) (tasks : List (Task σ)) (job : Job σ) (now d : Nat)
    (h : d ≠ 0) : load t (tasks ++ [⟨now + d, job⟩]) ≤ load t tasks + (t - now) := by
  simp only [load_append, load]
  omega

theorem load_filter_le (t : Nat) (p : Task σ → Bool) (tasks : List (Task σ)) :
    load t (tasks.filter p) ≤ load t tasks := by
  induction tasks with
  | nil => simp [load]
  | cons task tasks ih =>
    rw [List.filter_cons, load]
    split
    · rw [load]; omega
    · omega

theorem popFirst_cons_ne_none (task : Task σ) (tasks : List (Task σ)) :
    popFirst (task :: tasks) ≠ none := by
  simp only [popFirst]
  split
  · simp
  · split <;> simp

theorem load_popFirst {t : Nat} {tasks : List (Task σ)} {first : Task σ}
    {others : List (Task σ)} (h : popFirst tasks = some (first, others)) :
    load t tasks = (t + 1 - first.due) + load t others := by
  induction tasks generalizing first others with
  | nil => simp [popFirst] at h
  | cons task tasks ih =>
    simp only [popFirst] at h
    split at h
    · next hp =>
      obtain ⟨rfl, rfl⟩ := by simpa using h
      cases tasks with
      | nil => rfl
      | cons => exact (popFirst_cons_ne_none _ _ hp).elim
    · next hp =>
      split at h
      · obtain ⟨rfl, rfl⟩ := by simpa using h
        simp only [load, ih hp]; omega
      · obtain ⟨rfl, rfl⟩ := by simpa using h
        rfl

theorem load_unschedule_le (t : Nat) (s : State σ) :
    load t s.unschedule.tasks ≤ load t s.tasks := by
  unfold State.unschedule
  split
  · exact Nat.le_refl _
  · exact load_filter_le ..

theorem load_schedule_le (cache : SignatureCache σ) (t : Nat) (s : State σ) :
    load t (s.schedule cache).tasks ≤ load t s.tasks + (t - s.clock) := by
  have hc := load_unschedule_le t s
  unfold State.schedule
  split
  · exact Nat.le_add_right ..
  · next hi =>
    split
    · exact Nat.le_trans (load_append_later_le t _ _ _ _ hi) (Nat.add_le_add_right hc _)
    · exact Nat.le_trans hc (Nat.le_add_right ..)

theorem load_finishMiss_le (cache : SignatureCache σ) (epoch number : Nat) (outcome : Outcome)
    (t : Nat) (s : State σ) :
    load t (s.finishMiss cache epoch number outcome).tasks ≤ load t s.tasks + (t - s.clock) := by
  simp only [State.finishMiss]
  split
  · exact Nat.le_add_right ..
  · split
    · exact load_schedule_le cache t _
    · exact Nat.le_add_right ..

theorem load_finishRefresh_le (cache : SignatureCache σ) (generation number : Nat)
    (outcome : Outcome) (t : Nat) (s : State σ) :
    load t (s.finishRefresh cache generation number outcome).tasks ≤
      load t s.tasks + (t - s.clock) := by
  simp only [State.finishRefresh]
  split
  · split
    · exact Nat.le_add_right ..
    · exact load_schedule_le cache t _
  · exact Nat.le_add_right ..

theorem load_carry_le (t : Nat) (s : State σ) (rest : Routine σ Outcome)
    (hold : Routine σ Outcome → Job σ) (finish : Outcome → State σ → State σ)
    (h : ∀ outcome s, load t (finish outcome s).tasks ≤ load t s.tasks + (t - s.clock)) :
    load t (s.carry rest hold finish).tasks ≤ load t s.tasks + (t - s.clock) := by
  unfold State.carry
  split
  · exact h _ _
  · next hr =>
    exact load_append_later_le t _ _ _ _ (Routine.run_waiting_ne_zero hr)

theorem load_resume_le (cache : SignatureCache σ) (job : Job σ) (t : Nat) (s : State σ) :
    load t (s.resume cache job).tasks ≤ load t s.tasks + (t - s.clock) := by
  unfold State.resume
  split
  · split
    · exact load_carry_le _ _ _ _ _ (fun _ _ => load_finishRefresh_le ..)
    · exact Nat.le_add_right ..
  · exact load_carry_le _ _ _ _ _ (fun _ _ => load_finishRefresh_le ..)
  · exact load_carry_le _ _ _ _ _ (fun _ _ => load_finishMiss_le ..)

theorem load_fire_lt (cache : SignatureCache σ) {t : Nat} (task : Task σ)
    (others : List (Task σ)) (s : State σ) (h : task.due ≤ t) :
    load t (s.fire cache task others).tasks < (t + 1 - task.due) + load t others := by
  have hc : t - max s.clock task.due ≤ t - task.due := Nat.sub_le_sub_left (Nat.le_max_right ..) t
  calc load t (s.fire cache task others).tasks
      ≤ load t (State.resume cache task.job
          { s with clock := max s.clock task.due, tasks := others }).tasks := by
        unfold State.fire State.abandon
        split
        · exact Nat.zero_le _
        · exact Nat.le_refl _
    _ ≤ load t others + (t - max s.clock task.due) := load_resume_le cache task.job t _
    _ ≤ load t others + (t - task.due) := Nat.add_le_add_left hc _
    _ < (t + 1 - task.due) + load t others := by omega

/-! ## Time -/

namespace State

/-- Carries out what is due up to an instant, which becomes the present. -/
def advanceTo (cache : SignatureCache σ) (t : Nat) (s : State σ) : State σ :=
  match _ : popFirst s.tasks with
  | none => { s with clock := max s.clock t }
  | some (task, others) =>
    if task.due ≤ t then advanceTo cache t (s.fire cache task others)
    else { s with clock := max s.clock t }
termination_by load t s.tasks
decreasing_by
  rename_i hp hd
  rw [load_popFirst hp]
  exact load_fire_lt cache task others s hd

/-- Lets time pass. -/
def advance (cache : SignatureCache σ) (d : Nat) (s : State σ) : State σ :=
  s.advanceTo cache (s.clock + d)

/-- Carries out a routine to its end while time passes. -/
def complete (cache : SignatureCache σ) : Routine σ α → State σ → α × State σ
  | .done result, s => (result, s)
  | .act change next, s => complete cache (next s.outside) { s with outside := change s.outside }
  | .clock next, s => complete cache (next s.clock) s
  | .wait d next, s => complete cache next (s.advance cache d)

end State

end RequestAuth.SignatureCache
