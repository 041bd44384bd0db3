import RequestAuth.Proofs.SignatureCache.Laws
import RequestAuth.Proofs.SignatureCache.Steps

/-!
# The state of a cache agrees with its journal

`Faithful` says that the state of a cache is the one that its journal tells, and that the journal is
legal: the slot, the counters and the record of what is planned are what `Journal.entry?`,
`Journal.closes`, `Journal.begins` and `Journal.plan` read off it, and each computation under way is
running and would be stored just if its result is still wanted.

Here are the acts that leave the journal as it is. Those that write into it are in
`RequestAuth.Proofs.SignatureCache.Acts`, and `Reachable.atWork`, in
`RequestAuth.Proofs.SignatureCache.Reached`, says that every reachable scene is in agreement.
-/

namespace RequestAuth.SignatureCache

open Journal

variable {σ : Type} {cache : SignatureCache σ} {hands : List Flight} {s : State σ} {f : Flight}

/-! ## What is planned, in the state -/

/-- The generation that is on record while something is planned. -/
def Plan.record? (generation : Nat) : Plan → Option Nat
  | .idle => none
  | .waiting _ | .signing _ => some generation

/-- The tasks that wait for what is planned. -/
def Plan.waits (cache : SignatureCache σ) (generation : Nat) : Plan → List (Task σ)
  | .waiting since => [⟨since + cache.refreshInterval, .waiting generation⟩]
  | .idle | .signing _ => []

/-- Whether a computation would be stored if it ended well now. -/
def Flight.Current (s : State σ) : Flight → Prop
  | .miss epoch _ => s.epoch = epoch
  | .refresh generation _ => s.scheduled = some generation

/-- Whether a computation belongs to an epoch or a generation that there has been. -/
def Flight.Past (s : State σ) : Flight → Prop
  | .miss epoch _ => epoch ≤ s.epoch
  | .refresh generation _ => generation ≤ s.generation

/-- The state knows a computation under way. -/
structure Flight.Known (cache : SignatureCache σ) (s : State σ) (f : Flight) : Prop where
  running : Running s.journal f.number f.cause
  past : f.Past s
  current : f.Current s ↔ Wanted cache s.journal f.number f.cause

/-- The state has what the journal says is planned. `hands` are the computations under way that no
task goes on with. -/
structure Planned (cache : SignatureCache σ) (hands : List Flight) (s : State σ) : Prop where
  record : s.scheduled = (plan cache s.journal).record? s.generation
  waits : s.tasks.filter Task.isWaiting = (plan cache s.journal).waits cache s.generation
  signing : ∀ n, plan cache s.journal = .signing n →
    .refresh s.generation n ∈ hands ++ flightsOf s.tasks

/-- Nothing is left of the cache. -/
structure Dropped (hands : List Flight) (s : State σ) : Prop where
  handles : s.handles = 0
  hands : hands = []
  tasks : s.tasks = []
  scheduled : s.scheduled = none

/-- The state agrees with its journal. -/
structure Faithful (cache : SignatureCache σ) (hands : List Flight) (s : State σ) : Prop where
  legal : Legal cache s.journal
  upto : ∀ x ∈ s.journal, x.1 ≤ s.clock
  due : ∀ task ∈ s.tasks, s.clock ≤ task.due
  slot : s.slot = entry? s.journal
  epoch : s.epoch = closes s.journal
  begun : s.begun = begins s.journal
  distinct : ((hands ++ flightsOf s.tasks).map Flight.number).Nodup
  known : ∀ f ∈ hands ++ flightsOf s.tasks, f.Known cache s
  planned : Dropped hands s ∨ Planned cache hands s

/-! ## Lists of tasks -/

@[simp] theorem flightsOf_nil : flightsOf ([] : List (Task σ)) = [] := rfl

@[simp] theorem flightsOf_append (tasks more : List (Task σ)) :
    flightsOf (tasks ++ more) = flightsOf tasks ++ flightsOf more :=
  List.filterMap_append

@[simp] theorem flightsOf_cons (task : Task σ) (tasks : List (Task σ)) :
    flightsOf (task :: tasks) = task.job.flight?.toList ++ flightsOf tasks := by
  cases h : task.job.flight? <;> simp [flightsOf, h]

theorem isWaiting_iff {task : Task σ} :
    task.isWaiting = true ↔ ∃ generation, task.job = .waiting generation := by
  unfold Task.isWaiting
  cases task.job <;> simp

theorem flight?_eq_none_iff {task : Task σ} :
    task.job.flight? = none ↔ task.isWaiting = true := by
  unfold Task.isWaiting
  cases task.job <;> simp [Job.flight?]

@[simp] theorem flightsOf_filter_not_waiting (tasks : List (Task σ)) :
    flightsOf (tasks.filter fun task => !task.isWaiting) = flightsOf tasks := by
  induction tasks with
  | nil => rfl
  | cons task tasks ih =>
    rw [List.filter_cons, flightsOf_cons]
    cases hw : task.isWaiting with
    | false => simp [ih]
    | true => simp [flight?_eq_none_iff.2 hw, ih]

theorem flightsOf_eq_nil {tasks : List (Task σ)} (h : tasks.all Task.isWaiting = true) :
    flightsOf tasks = [] := by
  rw [← flightsOf_filter_not_waiting, List.filter_eq_nil_iff.2]
  · rfl
  · simpa using h

theorem mem_of_mem_others {τ : Type} {x y : τ} {before after : List τ} (hy : y ∈ before ++ after) :
    y ∈ before ++ x :: after :=
  List.mem_append.2 ((List.mem_append.1 hy).imp_right (List.mem_cons_of_mem x))

/-! ## Stopping a wait -/

theorem unschedule_eq (h : ∀ task ∈ s.tasks, ∀ generation, task.job = .waiting generation →
    s.scheduled = some generation) :
    s.unschedule = { s with tasks := s.tasks.filter fun task => !task.isWaiting } := by
  unfold State.unschedule
  split
  · next hs =>
    have hn : ∀ task ∈ s.tasks, (!task.isWaiting) = true := by
      intro task ht
      cases hw : task.isWaiting with
      | false => rfl
      | true =>
        obtain ⟨generation, hj⟩ := isWaiting_iff.1 hw
        rw [h task ht generation hj] at hs
        cases hs
    rw [List.filter_eq_self.2 hn]
  · next generation hs =>
    congr 1
    refine List.filter_congr fun task ht => congrArg _ ?_
    unfold Task.waitsFor Task.isWaiting
    cases hj : task.job with
    | waiting g =>
      have := h task ht g hj
      simp_all
    | _ => rfl

theorem Planned.scheduled_of_waiting (h : Planned cache hands s) :
    ∀ task ∈ s.tasks, ∀ generation, task.job = .waiting generation →
      s.scheduled = some generation := by
  intro task ht generation hj
  have hm : task ∈ s.tasks.filter Task.isWaiting :=
    List.mem_filter.2 ⟨ht, isWaiting_iff.2 ⟨generation, hj⟩⟩
  rw [h.waits] at hm
  rw [h.record]
  cases hp : plan cache s.journal with
  | idle | signing => simp [hp, Plan.waits] at hm
  | waiting since =>
    simp only [hp, Plan.waits, List.mem_singleton] at hm
    subst hm
    cases hj
    rfl

/-! ## Acts that leave the journal -/

theorem Flight.Known.congr {s' : State σ} (h : f.Known cache s) (journal : s'.journal = s.journal)
    (epoch : s'.epoch = s.epoch) (generation : s'.generation = s.generation)
    (scheduled : s'.scheduled = s.scheduled) : f.Known cache s' := by
  obtain ⟨running, past, current⟩ := h
  rw [← journal] at running current
  cases f with
  | miss => exact ⟨running, by rwa [Flight.Past, epoch], by rwa [Flight.Current, epoch]⟩
  | refresh =>
    exact ⟨running, by rwa [Flight.Past, generation], by rwa [Flight.Current, scheduled]⟩

theorem Faithful.not_dropped (h : Faithful cache (f :: hands) s) :
    Planned cache (f :: hands) s := by
  rcases h.planned with hd | hp
  · exact absurd hd.hands (List.cons_ne_nil _ _)
  · exact hp

/-- Computations are taken up from tasks, or left to tasks. -/
theorem Faithful.rearrange {hands' : List Flight} {tasks : List (Task σ)}
    (h : Faithful cache hands s) (hf : f ∈ hands ++ flightsOf s.tasks)
    (perm : (hands' ++ flightsOf tasks).Perm (hands ++ flightsOf s.tasks))
    (waits : tasks.filter Task.isWaiting = s.tasks.filter Task.isWaiting)
    (due : ∀ task ∈ tasks, s.clock ≤ task.due) :
    Faithful cache hands' { s with tasks } where
  legal := h.legal
  upto := h.upto
  due := due
  slot := h.slot
  epoch := h.epoch
  begun := h.begun
  distinct := (perm.map _).nodup_iff.2 h.distinct
  known g hg := (h.known g (perm.mem_iff.1 hg)).congr rfl rfl rfl rfl
  planned := by
    rcases h.planned with hd | hp
    · simp [hd.hands, hd.tasks] at hf
    · exact .inr ⟨hp.record, waits.trans hp.waits,
        fun n hn => perm.mem_iff.2 (hp.signing n hn)⟩

theorem Faithful.take {before after : List (Task σ)} {task : Task σ}
    (h : Faithful cache hands s) (ht : s.tasks = before ++ task :: after)
    (hf : task.job.flight? = some f) :
    Faithful cache (f :: hands) { s with tasks := before ++ after } := by
  have hw : task.isWaiting = false := by
    rw [← Bool.not_eq_true, ← flight?_eq_none_iff, hf]; simp
  have hp : (f :: hands ++ flightsOf (before ++ after)).Perm (hands ++ flightsOf s.tasks) := by
    rw [ht, flightsOf_append, flightsOf_append, flightsOf_cons, hf]
    simp only [Option.toList_some, List.cons_append, List.nil_append, ← List.append_assoc]
    exact List.perm_middle.symm
  refine h.rearrange (hp.mem_iff.1 List.mem_cons_self) hp ?_ fun t hm => ?_
  · simp [ht, List.filter_append, hw]
  · exact h.due t (ht ▸ mem_of_mem_others hm)

theorem Faithful.hold {due : Nat} {job : Job σ} (h : Faithful cache (f :: hands) s)
    (hf : job.flight? = some f) (hd : s.clock ≤ due) :
    Faithful cache hands { s with tasks := s.tasks ++ [⟨due, job⟩] } := by
  have hw : (⟨due, job⟩ : Task σ).isWaiting = false := by
    rw [← Bool.not_eq_true, ← flight?_eq_none_iff, hf]; simp
  refine h.rearrange (List.mem_cons_self (a := f)) ?_ ?_ fun t hm => ?_
  · rw [flightsOf_append, flightsOf_cons, hf, ← List.append_assoc]
    exact List.perm_append_singleton _ _
  · simp [List.filter_append, hw]
  · rcases List.mem_append.1 hm with hm | hm
    · exact h.due t hm
    · rw [List.mem_singleton.1 hm]; exact hd

/-- A call is given up. -/
theorem Faithful.discard {epoch n : Nat} (h : Faithful cache (.miss epoch n :: hands) s) :
    Faithful cache hands s where
  legal := h.legal
  upto := h.upto
  due := h.due
  slot := h.slot
  epoch := h.epoch
  begun := h.begun
  distinct := (List.nodup_cons.1 h.distinct).2
  known g hg := h.known g (.tail _ hg)
  planned := by
    have hp := h.not_dropped
    refine .inr ⟨hp.record, hp.waits, fun m hm => ?_⟩
    rcases List.mem_cons.1 (hp.signing m hm) with hc | hc
    · cases hc
    · exact hc

/-- The journal tells nothing of what callers see, and of the time only what is due. -/
theorem Faithful.update {outside : σ} {clock handles : Nat} {answers : List (Nat × Option Outcome)}
    (h : Faithful cache hands s) (later : s.clock ≤ clock)
    (early : ∀ task ∈ s.tasks, clock ≤ task.due) (alive : handles = 0 ∨ Planned cache hands s) :
    Faithful cache hands { s with outside, clock, answers, handles } where
  legal := h.legal
  upto x hx := Nat.le_trans (h.upto x hx) later
  due := early
  slot := h.slot
  epoch := h.epoch
  begun := h.begun
  distinct := h.distinct
  known g hg := (h.known g hg).congr rfl rfl rfl rfl
  planned := by
    rcases h.planned with hd | hp
    · refine alive.imp (fun h0 => ⟨h0, hd.hands, hd.tasks, hd.scheduled⟩) fun hp => ?_
      exact ⟨hp.record, hp.waits, hp.signing⟩
    · exact .inr ⟨hp.record, hp.waits, hp.signing⟩

theorem Faithful.alive (h : Faithful cache hands s) : s.handles = 0 ∨ Planned cache hands s :=
  h.planned.imp_left Dropped.handles

theorem Faithful.pass {t : Nat} (h : Faithful cache hands s)
    (early : ∀ task ∈ s.tasks, t ≤ task.due) :
    Faithful cache hands { s with clock := max s.clock t } :=
  h.update (Nat.le_max_left _ _) (fun task ht => Nat.max_le.2 ⟨h.due task ht, early task ht⟩)
    h.alive

theorem Faithful.change (h : Faithful cache hands s) (outside : σ)
    (answers : List (Nat × Option Outcome)) :
    Faithful cache hands { s with outside, answers } :=
  h.update (Nat.le_refl _) h.due h.alive

theorem Faithful.withHandles (h : Faithful cache hands s) (handles : Nat)
    (alive : handles = 0 ∨ Planned cache hands s) : Faithful cache hands { s with handles } :=
  h.update (Nat.le_refl _) h.due alive

theorem Faithful.abandon (h : Faithful cache hands s) (hh : s.handles = 0 → hands = []) :
    Faithful cache hands s.abandon := by
  unfold State.abandon
  split
  · next hc =>
    obtain ⟨h0, hall⟩ := hc
    have hf := flightsOf_eq_nil hall
    refine ⟨h.legal, h.upto, by simp, h.slot, h.epoch, h.begun, ?_, fun g hg => ?_,
      .inl ⟨h0, hh h0, rfl, rfl⟩⟩
    · simp [hh h0]
    · simp [hh h0] at hg
  · exact h

end RequestAuth.SignatureCache
