import RequestAuth.SignatureCache.Timeline

/-!
# What the steps of a cache leave as it is

Of the steps that take no time none moves the clock or touches the state outside, and planning a
computation, or giving one up, tells nobody anything. Carrying out a task takes the clock to when
the task was due.
-/

namespace RequestAuth.SignatureCache.State

variable {σ : Type} {cache : SignatureCache σ}

/-! ## The clock -/

@[simp] theorem note_clock (s : State σ) (event : Event) : (s.note event).clock = s.clock := rfl

@[simp] theorem put_clock (s : State σ) (n : Nat) (entry : DatedSignature) :
    (s.put n entry).clock = s.clock := rfl

@[simp] theorem begin_clock (s : State σ) (cause : Cause) : (s.begin cause).2.clock = s.clock := rfl

@[simp] theorem unschedule_clock (s : State σ) : s.unschedule.clock = s.clock := by
  unfold unschedule
  split <;> rfl

@[simp] theorem schedule_clock (s : State σ) : (s.schedule cache).clock = s.clock := by
  unfold schedule
  split
  · rfl
  · split <;> simp

@[simp] theorem finishMiss_clock (s : State σ) (epoch n : Nat) (outcome : Outcome) :
    (s.finishMiss cache epoch n outcome).clock = s.clock := by
  cases outcome with
  | error => rfl
  | ok entry =>
    simp only [finishMiss]
    split <;> simp

@[simp] theorem finishRefresh_clock (s : State σ) (generation n : Nat) (outcome : Outcome) :
    (s.finishRefresh cache generation n outcome).clock = s.clock := by
  simp only [finishRefresh]
  split
  · cases outcome <;> simp
  · rfl

@[simp] theorem finishCall_clock (s : State σ) (id epoch n : Nat) (outcome : Outcome) :
    (s.finishCall cache id epoch n outcome).clock = s.clock :=
  finishMiss_clock s epoch n outcome

@[simp] theorem abandon_clock (s : State σ) : s.abandon.clock = s.clock := by
  unfold abandon
  split <;> rfl

theorem carry_clock {rest : Routine σ Outcome} {hold : Routine σ Outcome → Job σ}
    {finish : Outcome → State σ → State σ}
    (hf : ∀ outcome s, (finish outcome s).clock = s.clock) (s : State σ) :
    (s.carry rest hold finish).clock = s.clock := by
  unfold carry
  split
  · exact hf _ _
  · rfl

@[simp] theorem resume_clock (s : State σ) (job : Job σ) :
    (s.resume cache job).clock = s.clock := by
  have refreshed (generation n : Nat) (rest : Routine σ Outcome) (s : State σ) :
      (s.carryRefresh cache generation n rest).clock = s.clock :=
    carry_clock (fun outcome s => finishRefresh_clock s generation n outcome) s
  cases job with
  | waiting generation =>
    simp only [resume]
    split
    · rw [refreshed, begin_clock]
    · rfl
  | refreshing generation n rest => exact refreshed generation n rest s
  | calling id epoch n rest =>
    exact carry_clock (fun outcome s => finishCall_clock s id epoch n outcome) s

@[simp] theorem fire_clock (s : State σ) (task : Task σ) (others : List (Task σ)) :
    (s.fire cache task others).clock = max s.clock task.due := by
  simp [fire]

/-! ## The state outside -/

@[simp] theorem note_outside (s : State σ) (event : Event) : (s.note event).outside = s.outside :=
  rfl

@[simp] theorem put_outside (s : State σ) (n : Nat) (entry : DatedSignature) :
    (s.put n entry).outside = s.outside := rfl

@[simp] theorem unschedule_outside (s : State σ) : s.unschedule.outside = s.outside := by
  unfold unschedule
  split <;> rfl

@[simp] theorem schedule_outside (s : State σ) : (s.schedule cache).outside = s.outside := by
  unfold schedule
  split
  · rfl
  · split <;> simp

@[simp] theorem finishMiss_outside (s : State σ) (epoch n : Nat) (outcome : Outcome) :
    (s.finishMiss cache epoch n outcome).outside = s.outside := by
  cases outcome with
  | error => rfl
  | ok entry =>
    simp only [finishMiss]
    split <;> simp

/-! ## The journal -/

@[simp] theorem abandon_journal (s : State σ) : s.abandon.journal = s.journal := by
  unfold abandon
  split <;> rfl

end RequestAuth.SignatureCache.State
