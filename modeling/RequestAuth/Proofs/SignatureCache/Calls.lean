import RequestAuth.Proofs.SignatureCache.Frame
import RequestAuth.Proofs.SignatureCache.Reached

/-!
# A call is told what its own computation comes to

A call that was sent off under a number is carried out by a task until it ends, and then has an
answer. `Owed id n` says that computation `n` is the one for the call, and that the call either is
under way and has no answer, or has the outcome of that computation as its answer. Nothing that
happens to other calls, to the cache, or in the background changes this (`Steps.owed`), and whoever
asks for the call is told that outcome (`Owed.collect`).
-/

namespace RequestAuth.SignatureCache

variable {σ : Type} {cache : SignatureCache σ} {id n : Nat} {s s' : State σ} {c c' : Scene σ}

/-! ## Calls and answers -/

/-- The computation that a job goes on with for a call of the given number. -/
def Job.callFor? (id : Nat) : Job σ → Option Nat
  | .calling i _ n _ => if i = id then some n else none
  | .waiting _ | .refreshing .. => none

/-- The computations that are under way for calls of the given number. -/
def callsOf (id : Nat) (tasks : List (Task σ)) : List Nat := tasks.filterMap (·.job.callFor? id)

@[simp] theorem callsOf_nil (id : Nat) : callsOf id ([] : List (Task σ)) = [] := rfl

@[simp] theorem callsOf_append (id : Nat) (tasks more : List (Task σ)) :
    callsOf id (tasks ++ more) = callsOf id tasks ++ callsOf id more :=
  List.filterMap_append

@[simp] theorem callsOf_cons_of_none {task : Task σ} (h : task.job.callFor? id = none)
    (tasks : List (Task σ)) : callsOf id (task :: tasks) = callsOf id tasks :=
  List.filterMap_cons_none h

theorem callsOf_cons_of_some {task : Task σ} (h : task.job.callFor? id = some n)
    (tasks : List (Task σ)) : callsOf id (task :: tasks) = n :: callsOf id tasks :=
  List.filterMap_cons_some h

theorem callFor?_eq_some_iff {job : Job σ} :
    job.callFor? id = some n ↔ ∃ epoch rest, job = .calling id epoch n rest := by
  cases job <;> simp [Job.callFor?]

@[simp] theorem callFor?_calling_self (epoch : Nat) (rest : Routine σ Outcome) :
    (Job.calling id epoch n rest).callFor? id = some n :=
  if_pos rfl

@[simp] theorem callFor?_calling_of_ne {i epoch : Nat} {rest : Routine σ Outcome} (hi : i ≠ id) :
    (Job.calling i epoch n rest).callFor? id = none :=
  if_neg hi

theorem callsOf_filter {p : Task σ → Bool}
    (h : ∀ task : Task σ, p task = false → task.job.callFor? id = none) (tasks : List (Task σ)) :
    callsOf id (tasks.filter p) = callsOf id tasks := by
  induction tasks with
  | nil => rfl
  | cons task tasks ih =>
    cases hp : p task with
    | false => rw [List.filter_cons_of_neg (by simp [hp]), callsOf_cons_of_none (h task hp), ih]
    | true =>
      rw [List.filter_cons_of_pos hp]
      cases hj : task.job.callFor? id with
      | none => rw [callsOf_cons_of_none hj, callsOf_cons_of_none hj, ih]
      | some m => rw [callsOf_cons_of_some hj, callsOf_cons_of_some hj, ih]

/-- A wait for a computation in the background is not a call. -/
theorem callFor?_of_isWaiting {task : Task σ} (h : task.isWaiting = true) :
    task.job.callFor? id = none := by
  obtain ⟨generation, hj⟩ := isWaiting_iff.1 h
  rw [hj]
  rfl

theorem callsOf_eq_nil {tasks : List (Task σ)} (h : tasks.all Task.isWaiting = true) :
    callsOf id tasks = [] :=
  List.filterMap_eq_nil_iff.2 fun task ht => callFor?_of_isWaiting (List.all_eq_true.1 h task ht)

theorem takeCall?_number (id : Nat) (tasks : List (Task σ)) :
    (takeCall? id tasks).map (·.1.number) = (callsOf id tasks).head? := by
  induction tasks with
  | nil => rfl
  | cons task tasks ih =>
    obtain ⟨due, job⟩ := task
    cases job with
    | waiting | refreshing =>
      rw [callsOf_cons_of_none rfl, ← ih]
      simp [takeCall?, Function.comp_def]
    | calling i epoch m rest =>
      by_cases hi : i = id
      · subst hi
        rw [callsOf_cons_of_some (callFor?_calling_self epoch rest)]
        simp [takeCall?]
      · rw [callsOf_cons_of_none (callFor?_calling_of_ne hi), ← ih]
        simp [takeCall?, hi, Function.comp_def]

theorem takeAnswer?_answer (id : Nat) (answers : List (Nat × Option Outcome)) :
    (takeAnswer? id answers).map Prod.fst = answers.lookup id := by
  induction answers with
  | nil => rfl
  | cons x answers ih =>
    obtain ⟨i, answer⟩ := x
    by_cases hi : i = id
    · simp [takeAnswer?, hi]
    · have hne : (id == i) = false := by simpa using Ne.symm hi
      simpa [takeAnswer?, hi, List.lookup_cons, hne, Function.comp_def] using ih

theorem lookup_of_takeAnswer? {i : Nat} {answer : Option Outcome}
    {answers rest : List (Nat × Option Outcome)} (hi : i ≠ id)
    (h : takeAnswer? i answers = some (answer, rest)) : rest.lookup id = answers.lookup id := by
  induction answers generalizing rest with
  | nil => cases h
  | cons x answers ih =>
    obtain ⟨k, a⟩ := x
    by_cases hk : k = i
    · obtain ⟨-, rfl⟩ : a = answer ∧ answers = rest := by simpa [takeAnswer?, hk] using h
      have hne : (id == k) = false := by simpa [hk] using Ne.symm hi
      rw [List.lookup_cons, hne]
    · simp only [takeAnswer?, if_neg hk, Option.map_eq_some_iff] at h
      obtain ⟨⟨found, rest'⟩, hf, he⟩ := h
      cases he
      rw [List.lookup_cons, List.lookup_cons, ih hf]

/-! ## What leaves a call alone -/

/-- The calls of a number, and what has come of them, are the same in two states. -/
structure Apart (id : Nat) (s s' : State σ) : Prop where
  calls : callsOf id s'.tasks = callsOf id s.tasks
  answer : s'.answers.lookup id = s.answers.lookup id

namespace Apart

theorem refl (id : Nat) (s : State σ) : Apart id s s := ⟨rfl, rfl⟩

theorem unschedule (h : Apart id s s') : Apart id s s'.unschedule := by
  unfold State.unschedule
  split
  · exact h
  · next generation =>
    refine ⟨.trans (callsOf_filter (fun task ht => callFor?_of_isWaiting ?_) _) h.calls, h.answer⟩
    unfold Task.waitsFor at ht
    unfold Task.isWaiting
    cases hj : task.job <;> simp_all

theorem schedule (h : Apart id s s') : Apart id s (s'.schedule cache) := by
  unfold State.schedule
  split
  · exact h
  · split
    · refine ⟨?_, h.unschedule.answer⟩
      rw [callsOf_append, callsOf_cons_of_none rfl]
      simpa using h.unschedule.calls
    · exact ⟨h.unschedule.calls, h.unschedule.answer⟩

theorem finish (f : Flight) (outcome : Outcome) (h : Apart id s s') :
    Apart id s (f.finish cache outcome s') := by
  obtain ⟨-, he⟩ | ⟨-, entry, rfl, he⟩ | ⟨-, generation, m, e, rfl, rfl, he⟩ :=
    f.finish_cases cache outcome s'
  · rw [he]
    exact ⟨h.calls, h.answer⟩
  · rw [he]
    exact schedule ⟨h.calls, h.answer⟩
  · rw [he]
    exact ⟨h.calls, h.answer⟩

theorem carry {rest : Routine σ Outcome} {hold : Routine σ Outcome → Job σ}
    {finish : Outcome → State σ → State σ} (h : Apart id s s')
    (hh : ∀ rest, (hold rest).callFor? id = none)
    (hf : ∀ outcome s', Apart id s s' → Apart id s (finish outcome s')) :
    Apart id s (s'.carry rest hold finish) := by
  unfold State.carry
  split
  · exact hf _ _ ⟨h.calls, h.answer⟩
  · refine ⟨?_, h.answer⟩
    simpa [hh] using h.calls

theorem carryRefresh {generation m : Nat} {rest : Routine σ Outcome} (h : Apart id s s') :
    Apart id s (s'.carryRefresh cache generation m rest) :=
  h.carry (fun _ => rfl) fun outcome _ h => h.finish (.refresh generation m) outcome

theorem answered {i : Nat} (hi : i ≠ id) (answer : Option Outcome) (h : Apart id s s') :
    Apart id s { s' with answers := (i, answer) :: s'.answers } := by
  refine ⟨h.calls, ?_⟩
  have hne : (id == i) = false := by simpa using Ne.symm hi
  rw [List.lookup_cons, hne]
  exact h.answer

theorem carryCall {i epoch m : Nat} {rest : Routine σ Outcome} (hi : i ≠ id)
    (h : Apart id s s') : Apart id s (s'.carryCall cache i epoch m rest) :=
  h.carry (fun _ => callFor?_calling_of_ne hi) fun outcome _ h =>
    (h.finish (.miss epoch m) outcome).answered hi _

theorem abandon (h : Apart id s s') : Apart id s s'.abandon := by
  unfold State.abandon
  split
  · next hc => exact ⟨(callsOf_eq_nil hc.2).symm.trans h.calls, h.answer⟩
  · exact h

theorem resume {job : Job σ} (hj : job.callFor? id = none) (h : Apart id s s') :
    Apart id s (s'.resume cache job) := by
  cases job with
  | waiting generation =>
    unfold State.resume
    dsimp only
    split
    · exact carryRefresh ⟨h.calls, h.answer⟩
    · exact h
  | refreshing => exact h.carryRefresh
  | calling i epoch m rest => exact h.carryCall fun hi => by simp [Job.callFor?, hi] at hj

theorem fire {before after : List (Task σ)} {task : Task σ} (hj : task.job.callFor? id = none)
    (ht : s.tasks = before ++ task :: after) :
    Apart id s (s.fire cache task (before ++ after)) := by
  refine abandon (resume hj ⟨?_, rfl⟩)
  simp [ht, hj]

theorem start {i : Nat} (hi : i ≠ id) (h : Apart id s s') : Apart id s (cache.start i s') := by
  unfold SignatureCache.start
  split
  · exact h.answered hi _
  · exact carryCall hi ⟨h.calls, h.answer⟩

theorem close (h : Apart id s s') : Apart id s s'.close :=
  ⟨h.unschedule.calls, h.unschedule.answer⟩

/-- Another call is taken out. -/
theorem take {i : Nat} {call : Call σ} {tasks : List (Task σ)} (hi : i ≠ id)
    (ht : takeCall? i s.tasks = some (call, tasks)) : Apart id s { s with tasks } := by
  obtain ⟨before, after, he, rfl⟩ := takeCall?_eq_some ht
  refine ⟨?_, rfl⟩
  simp [he, hi]

theorem cancel {i : Nat} (hi : i ≠ id) : Apart id s (SignatureCache.cancel i s).2 := by
  unfold SignatureCache.cancel
  split
  · exact .refl id s
  · split
    · exact .refl id s
    · next ht => exact ((take hi ht).answered hi none).abandon

end Apart

/-! ## Calls that have ended -/

/-- A call that is not under way is left alone by what happens to others. -/
theorem Step.apart {c c' : Scene σ} (step : Step cache (· ≠ id) c c')
    (gone : callsOf id c.state.tasks = []) : Apart id c.state c'.state := by
  have same := Apart.refl id c.state
  cases step with
  | fire held first =>
    exact .fire (List.filterMap_eq_nil_iff.1 gone _ (by simp [held])) held
  | change | pass | begin | leave | acquire => exact ⟨same.calls, same.answer⟩
  | finish outcome => exact same.finish _ outcome
  | start name handle => exact same.start name
  | await name found =>
    have taken := Apart.take name found
    exact ⟨taken.calls, taken.answer⟩
  | tell name found => exact ⟨rfl, lookup_of_takeAnswer? name found⟩
  | cancel name => exact .cancel name
  | close handle => exact same.close
  | release free => exact .abandon ⟨same.calls, same.answer⟩

theorem Steps.apart {c c' : Scene σ} (steps : Steps cache (· ≠ id) c c')
    (gone : callsOf id c.state.tasks = []) : Apart id c.state c'.state := by
  induction steps with
  | refl => exact .refl id c.state
  | tail _ step ih =>
    have further := step.apart (ih.calls.trans gone)
    exact ⟨further.calls.trans ih.calls, further.answer.trans ih.answer⟩

theorem Steps.gone {c c' : Scene σ} (steps : Steps cache (· ≠ id) c c')
    (gone : callsOf id c.state.tasks = []) : callsOf id c'.state.tasks = [] :=
  (steps.apart gone).calls.trans gone

theorem callsOf_finishMiss (id epoch n : Nat) (outcome : Outcome) (s : State σ) :
    callsOf id (s.finishMiss cache epoch n outcome).tasks = callsOf id s.tasks :=
  (Apart.finish (.miss epoch n) outcome (.refl id s)).calls

theorem callsOf_abandon (id : Nat) (s : State σ) :
    callsOf id s.abandon.tasks = callsOf id s.tasks :=
  (Apart.refl id s).abandon.calls

theorem gone_advanceTo (t : Nat) (gone : callsOf id s.tasks = []) :
    callsOf id (s.advanceTo cache t).tasks = [] :=
  have steps : Steps cache (· ≠ id) ⟨s, []⟩ ⟨s.advanceTo cache t, []⟩ := steps_advanceTo t s []
  steps.gone gone

theorem gone_complete (r : Routine σ α) (gone : callsOf id s.tasks = []) :
    callsOf id (s.complete cache r).2.tasks = [] :=
  have steps : Steps cache (· ≠ id) ⟨s, []⟩ ⟨(s.complete cache r).2, []⟩ := steps_complete r s []
  steps.gone gone

/-! ## What a call is owed -/

/-- Computation `n` is the one for the call of a number: it is under way, or its outcome is the
answer. -/
def Owed (id n : Nat) (s : State σ) : Prop :=
  (callsOf id s.tasks = [n] ∧ s.answers.lookup id = none) ∨
  (callsOf id s.tasks = [] ∧ ∃ outcome t, s.answers.lookup id = some (some outcome) ∧
    (t, .ended n .miss outcome) ∈ s.journal)

theorem Owed.apart (h : Owed id n s) (apart : Apart id s s') (later : Later s s') :
    Owed id n s' := by
  obtain ⟨calls, answer⟩ := apart
  rcases h with ⟨hc, ha⟩ | ⟨hc, outcome, t, ha, he⟩
  · exact .inl ⟨calls.trans hc, answer.trans ha⟩
  · exact .inr ⟨calls.trans hc, outcome, t, answer.trans ha, later.journal.mem he⟩

theorem mem_journal_finishMiss (epoch : Nat) (outcome : Outcome) (s : State σ) :
    (s.clock, .ended n .miss outcome) ∈ (s.finishMiss cache epoch n outcome).journal :=
  ((Onward.refl _).finish (.miss epoch n) outcome).journal.mem List.mem_cons_self

/-- The call itself goes on. -/
theorem Owed.carryCall {epoch : Nat} {rest : Routine σ Outcome}
    (hc : callsOf id s.tasks = []) (ha : s.answers.lookup id = none) :
    Owed id n (s.carryCall cache id epoch n rest) := by
  unfold State.carryCall State.carry
  split
  · next outcome outside hr =>
    have apart : Apart id s (State.finishMiss cache epoch n outcome { s with outside }) :=
      Apart.finish (.miss epoch n) outcome ⟨rfl, rfl⟩
    refine .inr ⟨apart.calls.trans hc, outcome, s.clock, ?_, mem_journal_finishMiss ..⟩
    simp [State.finishCall]
  · refine .inl ⟨?_, ha⟩
    rw [callsOf_append, hc, callsOf_cons_of_some (callFor?_calling_self epoch _)]
    rfl

/-- A call that finds no entry is sent off. -/
theorem Owed.start (miss : cache.served? s = none) (hc : callsOf id s.tasks = [])
    (ha : s.answers.lookup id = none) : Owed id s.begun (cache.start id s) := by
  unfold SignatureCache.start
  rw [miss]
  exact carryCall hc ha

/-- The call itself is taken up by a task of its own. -/
theorem Owed.taken {before after : List (Task σ)} {task : Task σ} {m : Nat} (h : Owed id n s)
    (ht : s.tasks = before ++ task :: after) (hj : task.job.callFor? id = some m) :
    m = n ∧ callsOf id (before ++ after) = [] ∧ s.answers.lookup id = none := by
  have hc := callsOf_append id before (task :: after)
  rw [callsOf_cons_of_some hj, ← ht] at hc
  rcases h with ⟨hn, ha⟩ | ⟨hn, -⟩
  · rw [hn, eq_comm, List.append_eq_singleton_iff] at hc
    obtain ⟨hb, hm⟩ : callsOf id before = [] ∧ m :: callsOf id after = [n] := by simpa using hc
    obtain ⟨rfl, hf⟩ : m = n ∧ callsOf id after = [] := by simpa using hm
    exact ⟨rfl, by simp [hb, hf], ha⟩
  · rw [hn] at hc
    simp at hc

theorem Owed.fire {before after : List (Task σ)} {task : Task σ} (h : Owed id n s)
    (ht : s.tasks = before ++ task :: after) :
    Owed id n (s.fire cache task (before ++ after)) := by
  cases hj : task.job.callFor? id with
  | none => exact h.apart (.fire hj ht) ((Onward.refl s).fire task _).later
  | some m =>
    obtain ⟨rfl, hc, ha⟩ := h.taken ht hj
    obtain ⟨epoch, rest, hk⟩ := callFor?_eq_some_iff.1 hj
    have carried : Owed id m (State.resume cache task.job
        { s with clock := max s.clock task.due, tasks := before ++ after }) := by
      rw [hk]
      exact .carryCall hc ha
    exact carried.apart (Apart.refl id _).abandon (Onward.refl _).abandon.later

theorem Step.owed (step : Step cache (· ≠ id) c c') (h : Owed id n c.state) :
    Owed id n c'.state := by
  have same := Apart.refl id c.state
  have later := step.later
  cases step with
  | fire held first => exact h.fire held
  | change | pass | begin | leave | acquire => exact h.apart ⟨same.calls, same.answer⟩ later
  | finish outcome => exact h.apart (same.finish _ outcome) later
  | start name handle => exact h.apart (same.start name) later
  | await name found =>
    have := Apart.take name found
    exact h.apart ⟨this.calls, this.answer⟩ later
  | tell name found => exact h.apart ⟨rfl, lookup_of_takeAnswer? name found⟩ later
  | cancel name => exact h.apart (.cancel name) later
  | close handle => exact h.apart same.close later
  | release free => exact h.apart (.abandon ⟨same.calls, same.answer⟩) later

/-- Whatever happens to others, a call stays owed the outcome of its own computation. -/
theorem Steps.owed (steps : Steps cache (· ≠ id) c c') (h : Owed id n c.state) :
    Owed id n c'.state := by
  induction steps with
  | refl => exact h
  | tail _ step ih => exact step.owed ih

/-- Whoever asks for a call is told the outcome of its own computation. -/
theorem Owed.collect (h : Owed id n s) :
    ∃ outcome t, (cache.collect id s).1 = some (some outcome) ∧
      (t, .ended n .miss outcome) ∈ (cache.collect id s).2.journal := by
  unfold SignatureCache.collect
  rcases h with ⟨hc, ha⟩ | ⟨-, outcome, t, ha, he⟩
  · have hn : takeAnswer? id s.answers = none := by
      rwa [← takeAnswer?_answer, Option.map_eq_none_iff] at ha
    have hm := takeCall?_number id s.tasks
    rw [hc, List.head?_cons, Option.map_eq_some_iff] at hm
    obtain ⟨⟨call, tasks⟩, ht, rfl⟩ := hm
    simp only [hn, ht]
    generalize State.complete cache call.rest _ = result
    refine ⟨result.1, result.2.clock, rfl, ?_⟩
    simpa using mem_journal_finishMiss call.epoch result.1 result.2
  · rw [← takeAnswer?_answer, Option.map_eq_some_iff] at ha
    obtain ⟨⟨answer, answers⟩, hs, rfl⟩ := ha
    simp only [hs]
    exact ⟨outcome, t, rfl, he⟩

/-- Whoever waits for a computation on the spot is told its outcome as well. -/
theorem fetch_outcome (miss : cache.served? s = none) :
    ∃ t, (t, .ended s.begun .miss (cache.fetch s).1) ∈ (cache.fetch s).2.journal := by
  unfold SignatureCache.fetch
  simp only [miss]
  generalize State.complete cache cache.compute _ = result
  exact ⟨result.2.clock, mem_journal_finishMiss s.epoch result.1 result.2⟩

end RequestAuth.SignatureCache
