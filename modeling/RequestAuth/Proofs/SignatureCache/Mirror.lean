import RequestAuth.Proofs.Alike
import RequestAuth.Proofs.SignatureCache.Ahead
import RequestAuth.Proofs.SignatureCache.Calls

/-!
# Two caches that differ by one call

`Mirrors view id hidden more s s'` compares two caches at work. The second does all that the first
does but for the call `id`, which in the first is under way if `hidden` says so, and of which
nothing is seen by `view`; and in the first so many `more` computations have begun. The two serve
the same, plan the same, log the same and answer all other calls alike. Each act that is done in
both keeps this up (`Mirrors.resume`), and so does what the call does on its own, unless it comes to
its end (`Mirrors.fireHidden`).
-/

namespace RequestAuth.SignatureCache

variable {σ ρ α : Type} {cache : SignatureCache σ} {view : σ → ρ} {id more : Nat} {hidden : Bool}
  {s s' : State σ} {tasks tasks' : List (Task σ)}

/-! ## What is logged and counted -/

/-- Whether a computation has come to a signature. -/
def Event.isSigned : Event → Bool
  | .ended _ _ (.ok _) => true
  | _ => false

namespace Journal

/-- The lines that were logged and when, the latest first. -/
def lines (j : Journal) : List (Nat × String) :=
  j.filterMap fun (t, event) => event.logLine?.map (t, ·)

/-- How many computations have come to a signature. -/
def signed (j : Journal) : Nat := j.countP (·.2.isSigned)

end Journal

/-! ## Tasks -/

/-- Two jobs are the same but for the numbers of computations, and none is for the call `id`. -/
inductive Job.Mirrors (view : σ → ρ) (id : Nat) : Job σ → Job σ → Prop where
  | waiting (generation : Nat) : Mirrors view id (.waiting generation) (.waiting generation)
  | refreshing (generation : Nat) {n n' : Nat} {rest rest' : Routine σ Outcome}
      (alike : rest.Alike view rest') :
      Mirrors view id (.refreshing generation n rest) (.refreshing generation n' rest')
  | calling {i : Nat} (other : i ≠ id) (epoch : Nat) {n n' : Nat} {rest rest' : Routine σ Outcome}
      (alike : rest.Alike view rest') :
      Mirrors view id (.calling i epoch n rest) (.calling i epoch n' rest')

/-- The second list has the tasks of the first but for the one of call `id`, if that is hidden. -/
inductive TasksMirror (view : σ → ρ) (id : Nat) : Bool → List (Task σ) → List (Task σ) → Prop where
  | nil : TasksMirror view id false [] []
  | seen {hidden : Bool} (due : Nat) {job job' : Job σ} {tasks tasks' : List (Task σ)}
      (job_mirrors : job.Mirrors view id job') (rest : TasksMirror view id hidden tasks tasks') :
      TasksMirror view id hidden (⟨due, job⟩ :: tasks) (⟨due, job'⟩ :: tasks')
  | hide (due epoch n : Nat) {r : Routine σ Outcome} {tasks tasks' : List (Task σ)}
      (quiet : r.Quiet view) (rest : TasksMirror view id false tasks tasks') :
      TasksMirror view id true (⟨due, .calling id epoch n r⟩ :: tasks) tasks'

theorem popFirst_cons {task first : Task σ} {others : List (Task σ)}
    (h : popFirst (task :: tasks) = some (first, others)) :
    (∃ rest, popFirst tasks = some (first, rest) ∧ first.due < task.due ∧ others = task :: rest) ∨
      (first = task ∧ others = tasks ∧ ∀ other ∈ tasks, task.due ≤ other.due) := by
  simp only [popFirst] at h
  split at h
  · next hp =>
    cases tasks with
    | nil =>
      cases h
      exact .inr ⟨rfl, rfl, by simp⟩
    | cons => exact (popFirst_cons_ne_none _ _ hp).elim
  · next least rest hp =>
    split at h
    · next hd =>
      cases h
      exact .inl ⟨rest, hp, hd, rfl⟩
    · next hd =>
      cases h
      obtain ⟨before, after, held, rfl, all⟩ := popFirst_eq_some hp
      refine .inr ⟨rfl, rfl, fun other ho => ?_⟩
      rw [held, List.mem_append, List.mem_cons] at ho
      rcases ho with ho | rfl | ho
      · exact (Nat.le_of_not_lt hd).trans (all other (List.mem_append_left _ ho))
      · exact Nat.le_of_not_lt hd
      · exact (Nat.le_of_not_lt hd).trans (all other (List.mem_append_right _ ho))

theorem popFirst_cons_of_lt {task first : Task σ} {rest : List (Task σ)}
    (h : popFirst tasks = some (first, rest)) (hd : first.due < task.due) :
    popFirst (task :: tasks) = some (first, task :: rest) := by
  simp only [popFirst, h]
  exact if_pos hd

theorem popFirst_cons_of_le {task : Task σ} (h : ∀ other ∈ tasks, task.due ≤ other.due) :
    popFirst (task :: tasks) = some (task, tasks) := by
  cases hp : popFirst (task :: tasks) with
  | none => exact (popFirst_cons_ne_none _ _ hp).elim
  | some found =>
    obtain ⟨first, others⟩ := found
    rcases popFirst_cons hp with ⟨rest, hr, hd, -⟩ | ⟨rfl, rfl, -⟩
    · obtain ⟨before, after, held, -⟩ := popFirst_eq_some hr
      exact absurd hd (Nat.not_lt_of_le (h first (by simp [held])))
    · rfl

theorem takeCall?_cons_of_none {i due : Nat} {job : Job σ} (h : job.callFor? i = none) :
    takeCall? i (⟨due, job⟩ :: tasks) =
      (takeCall? i tasks).map fun (found, rest) => (found, ⟨due, job⟩ :: rest) := by
  cases job with
  | waiting | refreshing => rfl
  | calling j epoch n rest =>
    have hne : j ≠ i := by
      rintro rfl
      simp [Job.callFor?] at h
    exact if_neg hne

namespace TasksMirror

theorem append {tasks₁ tasks₁' : List (Task σ)} (h : TasksMirror view id hidden tasks tasks')
    (h₁ : TasksMirror view id false tasks₁ tasks₁') :
    TasksMirror view id hidden (tasks ++ tasks₁) (tasks' ++ tasks₁') := by
  induction h with
  | nil => exact h₁
  | seen due job_mirrors rest ih => exact .seen due job_mirrors ih
  | hide due epoch n quiet rest ih => exact .hide due epoch n quiet ih

theorem hold (h : TasksMirror view id hidden tasks tasks') (due : Nat) {job job' : Job σ}
    (hj : job.Mirrors view id job') :
    TasksMirror view id hidden (tasks ++ [⟨due, job⟩]) (tasks' ++ [⟨due, job'⟩]) :=
  h.append (.seen due hj .nil)

/-- The task of the call is put among the others. -/
theorem holdHidden (h : TasksMirror view id false tasks tasks') (due epoch n : Nat)
    {r : Routine σ Outcome} (quiet : r.Quiet view) :
    TasksMirror view id true (tasks ++ [⟨due, .calling id epoch n r⟩]) tasks' := by
  generalize hb : false = hidden at h
  induction h with
  | nil => exact .hide due epoch n quiet .nil
  | seen due' job_mirrors rest ih => exact .seen due' job_mirrors (ih hb)
  | hide => cases hb

theorem filter {p : Task σ → Bool} (h : TasksMirror view id hidden tasks tasks')
    (same : ∀ due job job', job.Mirrors view id job' → p ⟨due, job⟩ = p ⟨due, job'⟩)
    (keep : ∀ due epoch n r, p ⟨due, .calling id epoch n r⟩ = true) :
    TasksMirror view id hidden (tasks.filter p) (tasks'.filter p) := by
  induction h with
  | nil => exact .nil
  | @seen hidden due job job' tasks tasks' job_mirrors rest ih =>
    have alike := same due job job' job_mirrors
    cases hp : p ⟨due, job⟩ with
    | true =>
      rw [List.filter_cons_of_pos hp, List.filter_cons_of_pos (alike ▸ hp)]
      exact .seen due job_mirrors ih
    | false =>
      rw [List.filter_cons_of_neg (by simp [hp]), List.filter_cons_of_neg (by simp [← alike, hp])]
      exact ih
  | @hide due epoch n r tasks tasks' quiet rest ih =>
    rw [List.filter_cons_of_pos (keep due epoch n r)]
    exact .hide due epoch n quiet ih

theorem any {p : Task σ → Bool} (h : TasksMirror view id hidden tasks tasks')
    (same : ∀ due job job', job.Mirrors view id job' → p ⟨due, job⟩ = p ⟨due, job'⟩)
    (skip : ∀ due epoch n r, p ⟨due, .calling id epoch n r⟩ = false) :
    tasks.any p = tasks'.any p := by
  induction h with
  | nil => rfl
  | seen due job_mirrors rest ih => rw [List.any_cons, List.any_cons, same _ _ _ job_mirrors, ih]
  | hide due epoch n quiet rest ih => rw [List.any_cons, skip, Bool.false_or, ih]

theorem all_isWaiting (h : TasksMirror view id false tasks tasks') :
    tasks.all Task.isWaiting = tasks'.all Task.isWaiting := by
  generalize hb : false = hidden at h
  induction h with
  | nil => rfl
  | seen due job_mirrors rest ih =>
    rw [List.all_cons, List.all_cons, ih hb]
    cases job_mirrors <;> rfl
  | hide => cases hb

/-- What is in the second list is due when something in the first is. -/
theorem exists_due (h : TasksMirror view id hidden tasks tasks') {task' : Task σ}
    (ht : task' ∈ tasks') : ∃ task ∈ tasks, task.due = task'.due := by
  induction h with
  | nil => cases ht
  | @seen hidden due job job' tasks tasks' job_mirrors rest ih =>
    rcases List.mem_cons.1 ht with rfl | ht
    · exact ⟨⟨due, job⟩, List.mem_cons_self, rfl⟩
    · obtain ⟨task, hm, hd⟩ := ih ht
      exact ⟨task, .tail _ hm, hd⟩
  | hide due epoch n quiet rest ih =>
    obtain ⟨task, hm, hd⟩ := ih ht
    exact ⟨task, .tail _ hm, hd⟩

theorem later {t : Nat} (h : TasksMirror view id hidden tasks tasks')
    (hl : ∀ task ∈ tasks, t < task.due) : ∀ task' ∈ tasks', t < task'.due := by
  intro task' ht
  obtain ⟨task, hm, hd⟩ := h.exists_due ht
  rw [← hd]
  exact hl task hm

theorem callsOf_eq (h : TasksMirror view id false tasks tasks') : callsOf id tasks = [] := by
  generalize hb : false = hidden at h
  induction h with
  | nil => rfl
  | seen due job_mirrors rest ih =>
    rw [callsOf_cons_of_none, ih hb]
    cases job_mirrors with
    | waiting | refreshing => rfl
    | calling other => exact callFor?_calling_of_ne other
  | hide => cases hb

/-- The task that is first is the one of the call, or is first in both lists. -/
theorem popFirst (h : TasksMirror view id hidden tasks tasks') {first : Task σ}
    {others : List (Task σ)} (hp : popFirst tasks = some (first, others)) :
    (hidden = true ∧ ∃ due epoch n r, first = ⟨due, .calling id epoch n r⟩ ∧ r.Quiet view ∧
      TasksMirror view id false others tasks') ∨
    ∃ job' others', SignatureCache.popFirst tasks' = some (⟨first.due, job'⟩, others') ∧
      first.job.Mirrors view id job' ∧ TasksMirror view id hidden others others' := by
  induction h generalizing first others with
  | nil => cases hp
  | @seen hidden due job job' tasks tasks' job_mirrors rest ih =>
    rcases popFirst_cons hp with ⟨others, hr, hd, rfl⟩ | ⟨rfl, rfl, least⟩
    · obtain ⟨hh, due', epoch, n, r, hf, quiet, more⟩ | ⟨job₁, others', hp', hj, more⟩ := ih hr
      · exact .inl ⟨hh, due', epoch, n, r, hf, quiet, .seen due job_mirrors more⟩
      · exact .inr ⟨job₁, _, popFirst_cons_of_lt hp' hd, hj, .seen due job_mirrors more⟩
    · refine .inr ⟨job', tasks', popFirst_cons_of_le fun other ho => ?_, job_mirrors, rest⟩
      obtain ⟨task, hm, hd⟩ := rest.exists_due ho
      rw [← hd]
      exact least task hm
  | @hide due epoch n r tasks tasks' quiet rest ih =>
    rcases popFirst_cons hp with ⟨others, hr, hd, rfl⟩ | ⟨rfl, rfl, -⟩
    · obtain ⟨hh, -⟩ | ⟨job₁, others', hp', hj, more⟩ := ih hr
      · cases hh
      · exact .inr ⟨job₁, others', hp', hj, .hide due epoch n quiet more⟩
    · exact .inl ⟨rfl, due, epoch, n, r, rfl, quiet, rest⟩

/-- A call of another number is taken out of both lists. -/
theorem takeCall? {i : Nat} (h : TasksMirror view id hidden tasks tasks') (hi : i ≠ id) :
    (takeCall? i tasks = none ∧ SignatureCache.takeCall? i tasks' = none) ∨
    ∃ call n' rest' others others', SignatureCache.takeCall? i tasks = some (call, others) ∧
      SignatureCache.takeCall? i tasks' = some (⟨call.due, call.epoch, n', rest'⟩, others') ∧
      call.rest.Alike view rest' ∧ TasksMirror view id hidden others others' := by
  induction h with
  | nil => exact .inl ⟨rfl, rfl⟩
  | @seen hidden due job job' tasks tasks' job_mirrors rest ih =>
    by_cases hj : job.callFor? i = none
    · have hj' : job'.callFor? i = none := by
        cases job_mirrors with
        | waiting | refreshing => rfl
        | calling => simpa [Job.callFor?] using hj
      rw [takeCall?_cons_of_none hj, takeCall?_cons_of_none hj']
      rcases ih with ⟨hn, hn'⟩ | ⟨call, n', rest', others, others', hs, hs', alike, more⟩
      · exact .inl ⟨by rw [hn]; rfl, by rw [hn']; rfl⟩
      · exact .inr ⟨call, n', rest', _, _, by rw [hs]; rfl, by rw [hs']; rfl, alike,
          .seen due job_mirrors more⟩
    · -- the call is first in both lists
      cases job_mirrors with
      | waiting | refreshing => exact absurd rfl hj
      | @calling j other epoch n n' r r' alike =>
        obtain rfl : j = i := by
          by_contra hne
          exact hj (callFor?_calling_of_ne hne)
        exact .inr ⟨⟨due, epoch, n, r⟩, n', r', tasks, tasks', if_pos rfl, if_pos rfl, alike, rest⟩
  | @hide due epoch n r tasks tasks' quiet rest ih =>
    rw [takeCall?_cons_of_none (callFor?_calling_of_ne hi.symm)]
    rcases ih with ⟨hn, hn'⟩ | ⟨call, n', rest', others, others', hs, hs', alike, more⟩
    · exact .inl ⟨by rw [hn]; rfl, hn'⟩
    · exact .inr ⟨call, n', rest', _, _, by rw [hs]; rfl, hs', alike,
        .hide due epoch n quiet more⟩

/-- The call itself is taken out of the first list. -/
theorem takeHidden (h : TasksMirror view id true tasks tasks') :
    ∃ call others, SignatureCache.takeCall? id tasks = some (call, others) ∧
      TasksMirror view id false others tasks' := by
  generalize hb : true = hidden at h
  induction h with
  | nil => cases hb
  | @seen hidden due job job' tasks tasks' job_mirrors rest ih =>
    obtain ⟨call, others, hs, more⟩ := ih hb
    have hj : job.callFor? id = none := by
      cases job_mirrors with
      | waiting | refreshing => rfl
      | calling other => exact callFor?_calling_of_ne other
    rw [takeCall?_cons_of_none hj, hs]
    exact ⟨call, _, rfl, .seen due job_mirrors more⟩
  | @hide due epoch n r tasks tasks' quiet rest ih =>
    exact ⟨⟨due, epoch, n, r⟩, tasks, if_pos rfl, rest⟩

end TasksMirror

/-! ## Acts, case by case -/

theorem unschedule_of_none (h : s.scheduled = none) : s.unschedule = s := by
  rw [State.unschedule, h]

theorem unschedule_of_some {generation : Nat} (h : s.scheduled = some generation) :
    s.unschedule =
      { s with tasks := s.tasks.filter fun task => !task.waitsFor generation } := by
  rw [State.unschedule, h]

section Carrying

variable {rest next : Routine σ Outcome} {hold : Routine σ Outcome → Job σ}
  {finish : Outcome → State σ → State σ} {outside : σ}

theorem carry_of_finished {outcome : Outcome}
    (h : rest.run s.clock s.outside = (.finished outcome, outside)) :
    s.carry rest hold finish = finish outcome { s with outside } := by
  rw [State.carry, h]

theorem carry_of_waiting {d : Nat}
    (h : rest.run s.clock s.outside = (.waiting d next, outside)) :
    s.carry rest hold finish =
      { s with outside, tasks := s.tasks ++ [⟨s.clock + d, hold next⟩] } := by
  rw [State.carry, h]

end Carrying

/-! ## States -/

/-- What is seen of the second state is what is seen of the first, but for the call. -/
structure Mirrors (view : σ → ρ) (id : Nat) (hidden : Bool) (more : Nat) (s s' : State σ) :
    Prop where
  outside : view s'.outside = view s.outside
  clock : s'.clock = s.clock
  slot : s'.slot = s.slot
  scheduled : s'.scheduled = s.scheduled
  generation : s'.generation = s.generation
  epoch : s'.epoch = s.epoch
  tasks : TasksMirror view id hidden s.tasks s'.tasks
  answers : s'.answers = s.answers.filter (·.1 ≠ id)
  handles : s'.handles = s.handles
  begun : s.begun = s'.begun + more
  lines : Journal.lines s'.journal = Journal.lines s.journal
  signed : Journal.signed s'.journal = Journal.signed s.journal
  /-- Somebody other than the call has the cache. -/
  held : hidden = true → s.handles ≠ 0
  due : ∀ task ∈ s.tasks, s.clock ≤ task.due

namespace Mirrors

theorem served? (h : Mirrors view id hidden more s s') : cache.served? s' = cache.served? s := by
  unfold SignatureCache.served?
  rw [h.slot, h.clock]

theorem isScheduled (h : Mirrors view id hidden more s s') : s'.isScheduled = s.isScheduled := by
  unfold State.isScheduled
  rw [h.scheduled]
  cases s.scheduled with
  | none => rfl
  | some generation =>
    refine (h.tasks.any (fun due job job' hj => ?_) fun _ _ _ _ => rfl).symm
    cases hj <;> rfl

theorem note (event event' : Event) (h : Mirrors view id hidden more s s')
    (line : event'.logLine? = event.logLine?) (signed : event'.isSigned = event.isSigned) :
    Mirrors view id hidden more (s.note event) (s'.note event') := by
  refine { h with lines := ?_, signed := ?_ }
  · simp only [State.note, Journal.lines, List.filterMap_cons, line, h.clock]
    have same := h.lines
    unfold Journal.lines at same
    rw [same]
  · simp only [State.note, Journal.signed, List.countP_cons, signed]
    have same := h.signed
    unfold Journal.signed at same
    rw [same]

theorem begin (h : Mirrors view id hidden more s s') (cause : Cause) :
    Mirrors view id hidden more (s.begin cause).2 (s'.begin cause).2 := by
  have counted : Mirrors view id hidden more { s with begun := s.begun + 1 }
      { s' with begun := s'.begun + 1 } := by
    refine { h with begun := ?_ }
    change s.begun + 1 = s'.begun + 1 + more
    rw [h.begun]
    omega
  exact counted.note _ _ rfl rfl

theorem put (h : Mirrors view id hidden more s s') (n n' : Nat) (entry : DatedSignature) :
    Mirrors view id hidden more (s.put n entry) (s'.put n' entry) := by
  have kept : Mirrors view id hidden more { s with slot := some ⟨entry, s.clock⟩ }
      { s' with slot := some ⟨entry, s'.clock⟩ } := by
    refine { h with slot := ?_ }
    change some (Stored.mk entry s'.clock) = some ⟨entry, s.clock⟩
    rw [h.clock]
  exact kept.note _ _ rfl rfl

theorem withTasks (h : Mirrors view id hidden more s s')
    (ht : TasksMirror view id hidden tasks tasks') (due : ∀ task ∈ tasks, s.clock ≤ task.due) :
    Mirrors view id hidden more { s with tasks } { s' with tasks := tasks' } :=
  { h with tasks := ht, due := due }

theorem unschedule (h : Mirrors view id hidden more s s') :
    Mirrors view id hidden more s.unschedule s'.unschedule := by
  cases planned : s.scheduled with
  | none =>
    rw [unschedule_of_none planned, unschedule_of_none (h.scheduled.trans planned)]
    exact h
  | some generation =>
    rw [unschedule_of_some planned, unschedule_of_some (h.scheduled.trans planned)]
    have kept := h.tasks.filter (p := fun task => !task.waitsFor generation)
      (fun due job job' hj => by cases hj <;> rfl) fun _ _ _ _ => rfl
    exact h.withTasks kept fun task ht => h.due task (List.mem_filter.1 ht).1

theorem schedule (h : Mirrors view id hidden more s s') :
    Mirrors view id hidden more (s.schedule cache) (s'.schedule cache) := by
  have hu := h.unschedule
  unfold State.schedule
  split
  · exact h
  · split
    · rw [h.generation, h.clock]
      refine { hu with
        generation := rfl, scheduled := rfl, tasks := hu.tasks.hold _ (.waiting _), due := ?_ }
      intro task ht
      rcases List.mem_append.1 ht with ht | ht
      · exact hu.due task ht
      · rw [List.mem_singleton.1 ht]
        simp
    · have stopped : Mirrors view id hidden more { s.unschedule with scheduled := none }
          { s'.unschedule with scheduled := none } := { hu with scheduled := rfl }
      exact stopped.note _ _ rfl rfl

theorem finishMiss (cache : SignatureCache σ) (h : Mirrors view id hidden more s s')
    (epoch n n' : Nat) (outcome : Outcome) :
    Mirrors view id hidden more (s.finishMiss cache epoch n outcome)
      (s'.finishMiss cache epoch n' outcome) := by
  cases outcome with
  | error e => exact h.note _ _ rfl rfl
  | ok entry =>
    have noted := h.note (.ended n .miss (.ok entry)) (.ended n' .miss (.ok entry)) rfl rfl
    simp only [State.finishMiss]
    by_cases current : s.epoch = epoch
    · have current' : s'.epoch = epoch := h.epoch.trans current
      rw [if_pos (show (s.note _).epoch = epoch from current),
        if_pos (show (s'.note _).epoch = epoch from current')]
      exact (noted.put n n' entry).schedule
    · have current' : s'.epoch ≠ epoch := fun he => current (h.epoch.symm.trans he)
      rw [if_neg (show (s.note _).epoch ≠ epoch from current),
        if_neg (show (s'.note _).epoch ≠ epoch from current')]
      exact noted

theorem finishRefresh (h : Mirrors view id hidden more s s') (generation n n' : Nat)
    (outcome : Outcome) :
    Mirrors view id hidden more (s.finishRefresh cache generation n outcome)
      (s'.finishRefresh cache generation n' outcome) := by
  have noted := h.note (.ended n .refresh outcome) (.ended n' .refresh outcome) rfl
    (by cases outcome <;> rfl)
  simp only [State.finishRefresh]
  by_cases current : s.scheduled = some generation
  · have current' : s'.scheduled = some generation := h.scheduled.trans current
    rw [if_pos (show (s.note _).scheduled = some generation from current),
      if_pos (show (s'.note _).scheduled = some generation from current')]
    cases outcome with
    | error e =>
      have stopped : Mirrors view id hidden more
          { s.note (.ended n .refresh (.error e)) with scheduled := none }
          { s'.note (.ended n' .refresh (.error e)) with scheduled := none } :=
        { noted with scheduled := rfl }
      exact stopped.note _ _ rfl rfl
    | ok entry => exact (noted.put n n' entry).schedule
  · have current' : s'.scheduled ≠ some generation := fun he => current (h.scheduled.symm.trans he)
    rw [if_neg (show (s.note _).scheduled ≠ some generation from current),
      if_neg (show (s'.note _).scheduled ≠ some generation from current')]
    exact noted

theorem moveOn {outside outside' : σ} (h : Mirrors view id hidden more s s')
    (look : view outside' = view outside) :
    Mirrors view id hidden more { s with outside } { s' with outside := outside' } :=
  { h with outside := look }

theorem answer {i : Nat} (hi : i ≠ id) (outcome : Option Outcome)
    (h : Mirrors view id hidden more s s') :
    Mirrors view id hidden more { s with answers := (i, outcome) :: s.answers }
      { s' with answers := (i, outcome) :: s'.answers } := by
  refine { h with answers := ?_ }
  change (i, outcome) :: s'.answers = ((i, outcome) :: s.answers).filter _
  rw [List.filter_cons_of_pos (by simpa using hi), h.answers]

/-- The cache is given up in both, unless the call is under way and somebody has the cache. -/
theorem abandon (h : Mirrors view id hidden more s s') :
    Mirrors view id hidden more s.abandon s'.abandon := by
  unfold State.abandon
  rw [h.handles]
  cases hidden with
  | true =>
    have held := h.held rfl
    rw [if_neg fun hc => held hc.1, if_neg fun hc => held hc.1]
    exact h
  | false =>
    rw [h.tasks.all_isWaiting]
    split
    · exact { h with
        scheduled := rfl, tasks := .nil, handles := rfl, held := nofun, due := by simp }
    · exact h

theorem close (h : Mirrors view id hidden more s s') :
    Mirrors view id hidden more s.close s'.close := by
  have hu := h.unschedule
  unfold State.close
  rw [h.epoch, h.generation]
  have closed : Mirrors view id hidden more
      { s.unschedule with
        epoch := s.epoch + 1, generation := s.generation + 1, scheduled := none, slot := none }
      { s'.unschedule with
        epoch := s.epoch + 1, generation := s.generation + 1, scheduled := none, slot := none } :=
    { hu with epoch := rfl, generation := rfl, scheduled := rfl, slot := rfl }
  exact closed.note _ _ rfl rfl

/-! ## Carrying computations out -/

theorem carry {rest rest' : Routine σ Outcome} {hold hold' : Routine σ Outcome → Job σ}
    {finish finish' : Outcome → State σ → State σ} (h : Mirrors view id hidden more s s')
    (alike : rest.Alike view rest')
    (hh : ∀ r r', r.Alike view r' → (hold r).Mirrors view id (hold' r'))
    (hf : ∀ outcome s s', Mirrors view id hidden more s s' →
      Mirrors view id hidden more (finish outcome s) (finish' outcome s')) :
    Mirrors view id hidden more (s.carry rest hold finish) (s'.carry rest' hold' finish') := by
  obtain ⟨same, look⟩ := alike.run h.outside.symm s.clock
  have moved := h.moveOn look.symm
  rcases hr : rest.run s.clock s.outside with ⟨progress, outside⟩
  rcases hr' : rest'.run s.clock s'.outside with ⟨progress', outside'⟩
  rw [hr, hr'] at same moved
  rw [← h.clock] at hr'
  cases same with
  | finished outcome =>
    rw [carry_of_finished hr, carry_of_finished hr']
    exact hf outcome _ _ moved
  | waiting d next =>
    have due : s'.clock + d = s.clock + d := congrArg (· + d) h.clock
    rw [carry_of_waiting hr, carry_of_waiting hr', due]
    refine { moved with tasks := h.tasks.hold _ (hh _ _ next), due := fun task ht => ?_ }
    rcases List.mem_append.1 ht with ht | ht
    · exact h.due task ht
    · rw [List.mem_singleton.1 ht]
      exact Nat.le_add_right _ _

theorem carryRefresh {rest rest' : Routine σ Outcome} (h : Mirrors view id hidden more s s')
    (generation n n' : Nat) (alike : rest.Alike view rest') :
    Mirrors view id hidden more (s.carryRefresh cache generation n rest)
      (s'.carryRefresh cache generation n' rest') :=
  h.carry alike (fun _ _ => .refreshing generation) fun outcome _ _ h =>
    h.finishRefresh generation n n' outcome

theorem carryCall {i : Nat} {rest rest' : Routine σ Outcome} (h : Mirrors view id hidden more s s')
    (other : i ≠ id) (epoch n n' : Nat) (alike : rest.Alike view rest') :
    Mirrors view id hidden more (s.carryCall cache i epoch n rest)
      (s'.carryCall cache i epoch n' rest') :=
  h.carry alike (fun _ _ => .calling other epoch) fun outcome _ _ h =>
    (h.finishMiss cache epoch n n' outcome).answer other _

theorem resume {job job' : Job σ} (h : Mirrors view id hidden more s s')
    (compute : cache.compute.Alike view cache.compute) (hj : job.Mirrors view id job') :
    Mirrors view id hidden more (s.resume cache job) (s'.resume cache job') := by
  cases hj with
  | waiting generation =>
    simp only [State.resume]
    by_cases current : s.generation = generation
    · rw [if_pos current, if_pos (h.generation.trans current)]
      exact (h.begin .refresh).carryRefresh generation _ _ compute
    · rw [if_neg current, if_neg fun he => current (h.generation.symm.trans he)]
      exact h
  | refreshing generation alike => exact h.carryRefresh generation _ _ alike
  | calling other epoch alike => exact h.carryCall other epoch _ _ alike

/-- A task that is due moves the clock, and is taken out. -/
theorem atDue {first : Task σ} {others others' : List (Task σ)} {hidden' : Bool}
    (h : Mirrors view id hidden more s s') (hp : popFirst s.tasks = some (first, others))
    (hh : hidden' = true → hidden = true) (ht : TasksMirror view id hidden' others others') :
    Mirrors view id hidden' more { s with clock := max s.clock first.due, tasks := others }
      { s' with clock := max s.clock first.due, tasks := others' } := by
  obtain ⟨-, -, -, -, least⟩ := popFirst_eq_some hp
  refine { h with
    clock := rfl, tasks := ht, held := fun hd => h.held (hh hd), due := fun task hm => ?_ }
  exact Nat.max_le.2 ⟨h.due task ((mem_of_popFirst hp).2 (.inr hm)), least task hm⟩

theorem fire {first : Task σ} {job' : Job σ} {others others' : List (Task σ)}
    (h : Mirrors view id hidden more s s') (compute : cache.compute.Alike view cache.compute)
    (hp : popFirst s.tasks = some (first, others)) (hj : first.job.Mirrors view id job')
    (ht : TasksMirror view id hidden others others') :
    Mirrors view id hidden more (s.fire cache first others)
      (s'.fire cache ⟨first.due, job'⟩ others') := by
  have resumed := (h.atDue hp (fun hh => hh) ht).resume compute hj
  rw [← h.clock] at resumed
  unfold State.fire
  rw [← h.clock]
  exact resumed.abandon

/-! ## The call itself -/

theorem carryHidden {rest : Routine σ Outcome} (cache : SignatureCache σ)
    (h : Mirrors view id false more s s') (epoch n : Nat) (held : s.handles ≠ 0)
    (quiet : rest.Quiet view) :
    Mirrors view id true more (s.carryCall cache id epoch n rest) s' ∨
      callsOf id (s.carryCall cache id epoch n rest).tasks = [] := by
  rcases hr : rest.run s.clock s.outside with ⟨progress, outside⟩
  cases progress with
  | finished outcome =>
    right
    rw [State.carryCall, carry_of_finished hr]
    exact (callsOf_finishMiss id epoch n outcome _).trans h.tasks.callsOf_eq
  | waiting d next =>
    left
    obtain ⟨look, quiet'⟩ := quiet.run hr
    rw [State.carryCall, carry_of_waiting hr]
    refine { h with
      outside := h.outside.trans look.symm, tasks := h.tasks.holdHidden _ epoch n quiet'
      held := fun _ => held
      due := fun task ht => ?_ }
    rcases List.mem_append.1 ht with ht | ht
    · exact h.due task ht
    · rw [List.mem_singleton.1 ht]
      exact Nat.le_add_right _ _

/-- The call goes on unseen, unless it comes to its end. -/
theorem fireHidden {due epoch n : Nat} {rest : Routine σ Outcome} {others : List (Task σ)}
    (cache : SignatureCache σ) (h : Mirrors view id true more s s')
    (hp : popFirst s.tasks = some (⟨due, .calling id epoch n rest⟩, others))
    (quiet : rest.Quiet view) (ht : TasksMirror view id false others s'.tasks) :
    Mirrors view id true more (s.fire cache ⟨due, .calling id epoch n rest⟩ others)
        { s' with clock := max s.clock due } ∨
      callsOf id (s.fire cache ⟨due, .calling id epoch n rest⟩ others).tasks = [] := by
  have carried := (h.atDue hp (fun _ => rfl) ht).carryHidden cache epoch n (h.held rfl) quiet
  unfold State.fire State.resume
  refine carried.imp (fun m => ?_) fun gone => ?_
  · have kept : State.abandon _ = _ := if_neg fun hc => m.held rfl hc.1
    rw [kept]
    exact m
  · exact (callsOf_abandon id _).trans gone

end Mirrors

end RequestAuth.SignatureCache
