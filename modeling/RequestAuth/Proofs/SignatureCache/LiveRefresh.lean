import RequestAuth.Proofs.SignatureCache.Reached

/-!
# There is one computation in the background that may store

While something is on record, exactly one task belongs to it: the wait for the computation in the
background, or the computation itself, which began when the wait was over. Every other task in the
background goes on with a computation that was `Superseded` while it was under way, by a result that
a caller had computed or by a close, and whose end changes nothing. What is on record is only lost
to a close or a failure. `oneRefresh_of_reachable` puts this together.
-/

namespace RequestAuth.SignatureCache

open Journal

variable {σ : Type} {cache : SignatureCache σ} {j newer older : Journal} {t n : Nat} {s : State σ}
  {c c' : Scene σ}

/-! ## What supersedes a computation in the background -/

namespace Journal

/-- A computation was the one that is planned in the background, and was under way, when a result
that a caller had computed was stored or the cache was closed. -/
def Superseded (cache : SignatureCache σ) (j : Journal) (n : Nat) : Prop :=
  ∃ newer t event older, j = newer ++ (t, event) :: older ∧ plan cache older = .signing n ∧
    Running older n .refresh ∧
    (event = .closed ∨ ∃ m entry tb, event = .stored m entry ∧ (tb, .began m .miss) ∈ older)

theorem Superseded.append (newer : Journal) (h : Superseded cache j n) :
    Superseded cache (newer ++ j) n := by
  obtain ⟨between, t, event, older, rfl, hp, run, he⟩ := h
  exact ⟨newer ++ between, t, event, older, (List.append_assoc ..).symm, hp, run, he⟩

theorem Running.of_cons {cause : Cause} {event : Event} (run : Running ((t, event) :: j) n cause)
    (hb : event ≠ .began n cause) : Running j n cause := by
  obtain ⟨⟨tb, hm⟩, hc⟩ := run
  refine ⟨⟨tb, ?_⟩, fun hn => hc ?_⟩
  · rcases List.mem_cons.1 hm with he | hm
    · cases he
      exact absurd rfl hb
    · exact hm
  · cases event <;> simp_all [completed]

theorem Running.ne_of_ended {cause cause' : Cause} {m : Nat} {outcome : Outcome}
    (run : Running ((t, .ended m cause' outcome) :: j) n cause) : n ≠ m :=
  fun he => run.not_completed (by simp [completed, he])

/-- What is under way in the background and not planned any more was superseded. -/
theorem Legal.superseded (h : Legal cache j) (run : Running j n .refresh)
    (hp : plan cache j ≠ .signing n) : Superseded cache j n := by
  induction h with
  | nil =>
    obtain ⟨tb, hb⟩ := run.began
    cases hb
  | @began j t cause h time may ih =>
    cases cause with
    | miss => exact (ih (run.of_cons (by simp)) hp).append [_]
    | refresh =>
      obtain ⟨since, hw, -⟩ := may
      have hn : begins j ≠ n := fun he => hp (congrArg Plan.signing he)
      exact (ih (run.of_cons (by simp [hn])) (by simp [hw])).append [_]
  | @stored j t m cause entry h time run' wanted ih =>
    have ended := run.of_cons (by simp)
    by_cases hs : plan cache j = .signing n
    · cases cause with
      | miss =>
        obtain ⟨tb, hb⟩ := run'.began
        exact ⟨[], t, _, _, rfl, hs, ended, .inr ⟨m, entry, tb, rfl, .tail _ hb⟩⟩
      | refresh =>
        -- its own result, then, which is stored when it ends
        have hm : Plan.signing m = .signing n := wanted.symm.trans hs
        cases hm
        exact absurd rfl ended.ne_of_ended
    · exact (ih (ended.of_cons (by simp)) hs).append [_, _]
  | @refreshFailed j t m e h time run' wanted ih =>
    have ended := run.of_cons (by simp)
    refine (ih (ended.of_cons (by simp)) fun hs => ?_).append [_, _]
    have hm : Plan.signing m = .signing n := wanted.symm.trans hs
    cases hm
    exact ended.ne_of_ended rfl
  | ended _ _ _ _ ih | noBackground _ _ _ ih => exact (ih (run.of_cons (by simp)) hp).append [_]
  | @closed j t h time ih =>
    have running := run.of_cons (by simp)
    by_cases hs : plan cache j = .signing n
    · exact ⟨[], t, _, _, rfl, hs, running, .inl rfl⟩
    · exact (ih running hs).append [_]

theorem begins_le_append (newer older : Journal) : begins older ≤ begins (newer ++ older) := by
  induction newer with
  | nil => exact Nat.le_refl _
  | cons x newer ih =>
    obtain ⟨t, event⟩ := x
    cases event with
    | began => exact Nat.le_succ_of_le ih
    | _ => exact ih

/-- What is not planned any more is not planned again. -/
theorem Legal.plan_ne_signing_append (h : Legal cache j) (hs : newer ++ older <:+ j)
    (hn : n < begins older) (hp : plan cache older ≠ .signing n) :
    plan cache (newer ++ older) ≠ .signing n := by
  induction newer with
  | nil => exact hp
  | cons x newer ih =>
    obtain ⟨t, event⟩ := x
    have ih := ih ((List.suffix_cons _ _).trans hs)
    cases event with
    | began m cause =>
      cases cause with
      | miss => exact ih
      | refresh =>
        intro he
        cases he
        obtain ⟨-, -, hm, -⟩ := h.of_began hs
        exact Nat.not_le_of_lt hn (hm ▸ begins_le_append newer older)
    | stored =>
      simp only [List.cons_append, plan]
      split <;> simp
    | refreshFailed | closed => simp [plan]
    | _ => exact ih

/-- What was superseded is not planned any more. -/
theorem Superseded.plan_ne (h : Superseded cache j n) (legal : Legal cache j) :
    plan cache j ≠ .signing n := by
  obtain ⟨newer, t, event, older, rfl, hp, run, he⟩ := h
  refine legal.plan_ne_signing_append (List.suffix_refl _) ?_ ?_
  · rcases he with rfl | ⟨m, entry, tb, rfl, hb⟩
    · exact run.lt_begins (legal.of_closed (List.suffix_append _ _))
    · obtain ⟨cause, rest, rfl, legal', -⟩ := legal.of_stored (List.suffix_append _ _)
      exact (run.of_cons (by simp)).lt_begins legal'
  · rcases he with rfl | ⟨m, entry, tb, rfl, hb⟩
    · simp [plan]
    · simp only [plan]
      split <;> simp

theorem lastStore?_of_entry? {stored : Stored} (h : entry? j = some stored) :
    lastStore? j = some stored.storedAt := by
  induction j with
  | nil => cases h
  | cons x j ih =>
    obtain ⟨t, event⟩ := x
    cases event with
    | stored => cases h; rfl
    | closed => cases h
    | _ => exact ih h

end Journal

/-! ## Tasks and computations -/

theorem length_filter_flight? (f : Flight) (tasks : List (Task σ)) :
    (tasks.filter fun task => task.job.flight? = some f).length = (flightsOf tasks).count f := by
  induction tasks with
  | nil => rfl
  | cons task tasks ih =>
    rw [List.filter_cons, flightsOf_cons, List.count_append, ← ih]
    cases hf : task.job.flight? with
    | none => simp
    | some g =>
      by_cases hg : g = f
      · simp [hg, Nat.add_comm]
      · simp [hg]

/-- A computation under way belongs to one task. -/
theorem filter_flight?_eq_singleton {f : Flight} {tasks : List (Task σ)}
    (hn : (flightsOf tasks).Nodup) (hf : f ∈ flightsOf tasks) :
    ∃ task, (tasks.filter fun task => task.job.flight? = some f) = [task] := by
  refine List.length_eq_one_iff.1 ?_
  rw [length_filter_flight?, List.count_eq_one_of_mem hn hf]

theorem refreshes_iff {task : Task σ} {generation : Nat} :
    task.refreshes generation = true ↔
      task.job = .waiting generation ∨ ∃ n, task.job.flight? = some (.refresh generation n) := by
  unfold Task.refreshes
  cases task.job <;> simp [Job.flight?]

theorem mem_flightsOf {task : Task σ} {tasks : List (Task σ)} {f : Flight} (ht : task ∈ tasks)
    (hf : task.job.flight? = some f) : f ∈ flightsOf tasks :=
  List.mem_filterMap.2 ⟨task, ht, hf⟩

theorem flight?_eq_refresh_iff {job : Job σ} {generation : Nat} :
    job.flight? = some (.refresh generation n) ↔ ∃ rest, job = .refreshing generation n rest := by
  cases job <;> simp [Job.flight?]

/-! ## One computation in the background -/

/-- A task is the one for what is on record: it is due, or its computation began, when the entry
that was stored last is to be replaced. -/
def Live (cache : SignatureCache σ) (s : State σ) (task : Task σ) : Prop :=
  ∃ since, lastStore? s.journal = some since ∧
    (task.job = .waiting s.generation ∧ task.due = since + cache.refreshInterval ∨
      ∃ n rest, task.job = .refreshing s.generation n rest ∧
        (since + cache.refreshInterval, .began n .refresh) ∈ s.journal)

/-- There is never more than one computation in the background that may change the cache. -/
structure OneRefresh (cache : SignatureCache σ) (c : Scene σ) : Prop where
  one_waiting : (c.state.tasks.filter Task.isWaiting).length ≤ 1
  /-- What is on record has the latest generation, and one task. -/
  live : ∀ generation, c.state.scheduled = some generation → generation = c.state.generation ∧
    ∃ task, c.state.tasks.filter (·.refreshes generation) = [task] ∧ Live cache c.state task
  isScheduled : c.state.isScheduled = c.state.scheduled.isSome
  /-- Another task in the background goes on with a computation that was superseded, and that will
  change nothing but the journal when it ends. -/
  superseded : ∀ task ∈ c.state.tasks, ∀ generation, task.refreshes generation = true →
    c.state.scheduled ≠ some generation → ∃ n rest, task.job = .refreshing generation n rest ∧
      Superseded cache c.state.journal n ∧
      ∀ named c', Steps cache named c c' → .refresh generation n ∈ c'.flights →
        ∀ outcome clock outside tasks,
          State.finishRefresh cache generation n outcome
              { c'.state with clock, outside, tasks } =
            { c'.state with clock, outside, tasks }.note (.ended n .refresh outcome)
  /-- Nothing is lost before the cache is closed, or what is on record fails, or nobody has the
  cache any more. -/
  kept : cache.background = true → cache.refreshInterval ≠ 0 →
    (c.state.handles ≠ 0 ∨ c.state.tasks ≠ []) →
    ∀ newer t n entry older, c.state.journal = newer ++ (t, .stored n entry) :: older →
      (∀ t', (t', Event.closed) ∉ newer) → (∀ t' e, (t', Event.refreshFailed e) ∉ newer) →
      c.state.scheduled.isSome = true

theorem AtWork.nodup (h : AtWork cache c) : (flightsOf c.state.tasks).Nodup := by
  have hd := h.faithful.distinct
  rw [List.map_append] at hd
  exact (List.Nodup.of_append_right hd).of_map

theorem AtWork.refresh_mem (h : AtWork cache c) {generation : Nat}
    (hf : .refresh generation n ∈ c.flights) : .refresh generation n ∈ flightsOf c.state.tasks := by
  rcases List.mem_append.1 hf with hf | hf
  · cases h.misses _ hf
  · exact hf

theorem Planned.one_waiting {hands : List Flight} (h : Planned cache hands s) :
    (s.tasks.filter Task.isWaiting).length ≤ 1 := by
  rw [h.waits]
  cases plan cache s.journal <;> simp [Plan.waits]

/-- While a computation is waited for, one task waits for it. -/
theorem AtWork.live_of_waiting {since : Nat} (h : AtWork cache c)
    (hp : Planned cache c.awaited c.state) (hw : plan cache c.state.journal = .waiting since) :
    ∃ task, c.state.tasks.filter (·.refreshes c.state.generation) = [task] ∧
      Live cache c.state task := by
  have hf := hp.waits
  have hr := hp.record
  rw [hw] at hf hr
  obtain ⟨entry, he⟩ := entry?_of_waiting hw
  refine ⟨_, .trans (List.filter_congr fun task ht => ?_) hf, since, lastStore?_of_entry? he,
    .inl ⟨rfl, rfl⟩⟩
  rw [Bool.eq_iff_iff, refreshes_iff, isWaiting_iff]
  constructor
  · rintro (hj | ⟨n, hj⟩)
    · exact ⟨_, hj⟩
    · have hk := h.faithful.known _ (List.mem_append_right _ (mem_flightsOf ht hj))
      have : plan cache c.state.journal = .signing n := hk.current.1 hr
      rw [hw] at this
      cases this
  · rintro ⟨generation, hj⟩
    have hg := hp.scheduled_of_waiting task ht generation hj
    rw [hr] at hg
    cases hg
    exact .inl hj

/-- While a computation is under way that is on record, one task goes on with it. -/
theorem AtWork.live_of_signing (h : AtWork cache c) (hp : Planned cache c.awaited c.state)
    (hs : plan cache c.state.journal = .signing n) :
    ∃ task, c.state.tasks.filter (·.refreshes c.state.generation) = [task] ∧
      Live cache c.state task := by
  have hf := hp.waits
  have hr := hp.record
  rw [hs] at hf hr
  obtain ⟨stored, he, hb⟩ := (h.faithful.legal.signing hs).on_time
  obtain ⟨task, ht⟩ := filter_flight?_eq_singleton h.nodup (h.refresh_mem (hp.signing n hs))
  have hm : task ∈ [task] := List.mem_singleton.2 rfl
  rw [← ht, List.mem_filter] at hm
  obtain ⟨rest, hj⟩ := flight?_eq_refresh_iff.1 (of_decide_eq_true hm.2)
  refine ⟨task, .trans (List.filter_congr fun other ho => ?_) ht, _, lastStore?_of_entry? he,
    .inr ⟨n, rest, hj, hb⟩⟩
  rw [Bool.eq_iff_iff, refreshes_iff, decide_eq_true_iff]
  constructor
  · rintro (hw | ⟨m, hm⟩)
    · have hmem := List.mem_filter.2 ⟨ho, isWaiting_iff.2 ⟨_, hw⟩⟩
      rw [hf] at hmem
      cases hmem
    · have hk := h.faithful.known _ (List.mem_append_right _ (mem_flightsOf ho hm))
      have : plan cache c.state.journal = .signing m := hk.current.1 hr
      rw [hs] at this
      cases this
      exact hm
  · exact fun hm => .inr ⟨n, hm⟩

theorem AtWork.live (h : AtWork cache c) {generation : Nat}
    (hs : c.state.scheduled = some generation) : generation = c.state.generation ∧
      ∃ task, c.state.tasks.filter (·.refreshes generation) = [task] ∧ Live cache c.state task := by
  rcases h.faithful.planned with hd | hp
  · rw [hd.scheduled] at hs
    cases hs
  · have hr := hp.record
    rw [hs] at hr
    cases hpl : plan cache c.state.journal with
    | idle => rw [hpl] at hr; cases hr
    | waiting since =>
      rw [hpl] at hr
      cases hr
      exact ⟨rfl, h.live_of_waiting hp hpl⟩
    | signing n =>
      rw [hpl] at hr
      cases hr
      exact ⟨rfl, h.live_of_signing hp hpl⟩

theorem AtWork.isScheduled_eq (h : AtWork cache c) :
    c.state.isScheduled = c.state.scheduled.isSome := by
  unfold State.isScheduled
  cases hs : c.state.scheduled with
  | none => rfl
  | some generation =>
    obtain ⟨-, task, ht, -⟩ := h.live hs
    have hm : task ∈ [task] := List.mem_singleton.2 rfl
    rw [← ht, List.mem_filter] at hm
    exact List.any_eq_true.2 ⟨task, hm⟩

/-- The end of a computation that is not planned any more changes nothing, whenever it comes. -/
theorem AtWork.finishRefresh_eq {generation : Nat} (h' : AtWork cache c')
    (later : Later c.state c'.state) (run : Running c.state.journal n .refresh)
    (legal : Legal cache c.state.journal) (hp : plan cache c.state.journal ≠ .signing n)
    (hf : .refresh generation n ∈ c'.flights) (outcome : Outcome) (clock : Nat) (outside : σ)
    (tasks : List (Task σ)) :
    State.finishRefresh cache generation n outcome { c'.state with clock, outside, tasks } =
      { c'.state with clock, outside, tasks }.note (.ended n .refresh outcome) := by
  refine Flight.finish_of_not_current (f := .refresh generation n) fun hc => ?_
  have wanted : plan cache c'.state.journal = .signing n := (h'.faithful.known _ hf).current.1 hc
  obtain ⟨newer, hj⟩ := later.journal
  have legal' := h'.faithful.legal
  rw [← hj] at wanted legal'
  exact legal'.plan_ne_signing_append (List.suffix_refl _) (run.lt_begins legal) hp wanted

theorem oneRefresh_of_reachable (h : Reachable cache c) : OneRefresh cache c := by
  have work := h.atWork
  have faithful := work.faithful
  refine ⟨?_, fun generation hs => work.live hs, work.isScheduled_eq, ?_, ?_⟩
  · rcases faithful.planned with hd | hp
    · simp [hd.tasks]
    · exact hp.one_waiting
  · intro task ht generation hg hs
    rcases refreshes_iff.1 hg with hw | ⟨n, hf⟩
    · rcases faithful.planned with hd | hp
      · simp [hd.tasks] at ht
      · exact absurd (hp.scheduled_of_waiting task ht generation hw) hs
    · obtain ⟨rest, hj⟩ := flight?_eq_refresh_iff.1 hf
      obtain ⟨run, -, current⟩ := faithful.known _ (List.mem_append_right _ (mem_flightsOf ht hf))
      have hp : plan cache c.state.journal ≠ .signing n := fun hp => hs (current.2 hp)
      exact ⟨n, rest, hj, faithful.legal.superseded run hp, fun named c' steps hf' =>
        (h.steps steps).atWork.finishRefresh_eq (Steps.later steps) run faithful.legal hp hf'⟩
  · intro hb hi alive newer t n entry older hj hc hf
    have hp : Planned cache c.awaited c.state :=
      faithful.planned.resolve_left fun hd => alive.elim (absurd hd.handles) (absurd hd.tasks)
    have hn : plan cache c.state.journal ≠ .idle := by
      rw [hj]
      exact plan_ne_idle_append (by simp [looksAhead, hi, hb]) hc hf
    rw [hp.record]
    cases hpl : plan cache c.state.journal with
    | idle => exact absurd hpl hn
    | waiting | signing => rfl

/-- The cache is closed while a computation in the background is under way. -/
theorem oneRefresh_sample :
    (sample.performAll [.start 0, .sleep 8, .close] { outside := () }).2.tasks.any
        (·.refreshes 1) = true ∧
      OneRefresh sample
        ⟨(sample.performAll [.start 0, .sleep 8, .close] { outside := () }).2, []⟩ :=
  ⟨by cbv, oneRefresh_of_reachable ((Reachable.initial sample ()).performAll _)⟩

end RequestAuth.SignatureCache
