import RequestAuth.Proofs.SignatureCache.LiveRefresh

/-!
# What a cache does that nobody has any more

A cache is `Deserted` once its last handle is gone and no call for its entry is under way. What is
planned then ends with it (`State.abandon`), unless a computation in the background is still under
way, which keeps the cache. If that is the one that is planned, it is the last:
nothing begins any more. If it was superseded, though, then what is planned in its place may begin
while it is under way, and so may what is planned after that. `windsDown_of_deserted` says that this
is the only way in which a computation begins, and `begins_after_release` that it is one.
-/

namespace RequestAuth.SignatureCache

open Journal

variable {σ : Type} {cache : SignatureCache σ} {named : Nat → Prop} {s s' : State σ}
  {c c' c'' : Scene σ} {generation n : Nat}

/-! ## Waits alone do not keep a cache -/

/-- A cache without a handle has more to do than to wait, or nothing. -/
def KeptByWork (s : State σ) : Prop :=
  s.handles = 0 → s.tasks.all Task.isWaiting = true → s.tasks = []

theorem keptByWork_abandon (s : State σ) : KeptByWork s.abandon := by
  unfold State.abandon
  split
  · intro _ _
    rfl
  · next hn =>
    intro h0 hall
    exact absurd ⟨h0, hall⟩ hn

theorem keptByWork_of_handles (hh : s.handles ≠ 0) : KeptByWork s :=
  fun h0 => absurd h0 hh

theorem Step.keptByWork (step : Step cache named c c') (work : AtWork cache c)
    (h : KeptByWork c.state) : KeptByWork c'.state := by
  have same := Onward.refl c.state
  cases step with
  | change | pass | leave | tell => exact h
  | fire | release => exact keptByWork_abandon _
  | begin handle miss => exact keptByWork_of_handles (Nat.ne_of_gt (Nat.zero_lt_of_lt handle))
  | @finish s f before after outcome =>
    apply keptByWork_of_handles
    have hl := work.handles
    simp only [List.length_append, List.length_cons] at hl
    rw [((same.note _).finish f outcome).handles]
    change s.handles ≠ 0
    omega
  | @start s awaited id name handle =>
    apply keptByWork_of_handles
    rw [(same.start id).handles]
    exact handle
  | await => exact keptByWork_of_handles (Nat.succ_ne_zero _)
  | cancel =>
    unfold SignatureCache.cancel
    split
    · exact h
    · split
      · exact h
      · exact keptByWork_abandon _
  | close handle =>
    apply keptByWork_of_handles
    rw [same.close.handles]
    exact handle
  | acquire => exact keptByWork_of_handles (Nat.succ_ne_zero _)

theorem Reachable.keptByWork (h : Reachable cache c) : KeptByWork c.state := by
  obtain ⟨outside, steps⟩ := h
  induction steps with
  | refl => exact fun _ _ => rfl
  | tail steps step ih =>
    exact step.keptByWork (Steps.atWork steps (atWork_initial cache outside)) ih

/-! ## What goes on without a caller -/

/-- What may be written when a computation in the background ends. -/
def Event.IsEndOf (n : Nat) : Event → Prop
  | .ended m cause _ => m = n ∧ cause = .refresh
  | .stored m _ => m = n
  | .refreshFailed _ | .noBackground => True
  | .began .. | .closed => False

/-- The second state comes of the first by going on with computations in the background. `hands` are
those that no task of the first state goes on with. -/
structure Unattended (hands : List Flight) (s s' : State σ) : Prop where
  journal : ∃ more, s'.journal = more ++ s.journal ∧
    ∀ x ∈ more, ∃ f ∈ hands ++ flightsOf s.tasks, x.2.IsEndOf f.number
  handles : s'.handles = s.handles
  flights : ∀ f ∈ flightsOf s'.tasks, f ∈ hands ++ flightsOf s.tasks
  idle : s.scheduled = none → s'.scheduled = none

theorem mem_flightsOf_filter {f : Flight} {p : Task σ → Bool} {tasks : List (Task σ)}
    (hf : f ∈ flightsOf (tasks.filter p)) : f ∈ flightsOf tasks :=
  (List.filter_sublist.filterMap _).subset hf

namespace Unattended

variable {hands : List Flight}

theorem refl (hands : List Flight) (s : State σ) : Unattended hands s s :=
  ⟨⟨[], rfl, by simp⟩, rfl, fun _ hf => List.mem_append_right _ hf, id⟩

theorem note {event : Event} {f : Flight} (hf : f ∈ hands) (he : event.IsEndOf f.number)
    (h : Unattended hands s s') : Unattended hands s (s'.note event) := by
  obtain ⟨⟨more, hj, hm⟩, handles, flights, idle⟩ := h
  have here : ∃ g ∈ hands ++ flightsOf s.tasks, event.IsEndOf g.number :=
    ⟨f, List.mem_append_left _ hf, he⟩
  refine ⟨⟨(s'.clock, event) :: more, ?_, List.forall_mem_cons.2 ⟨here, hm⟩⟩, handles, flights,
    idle⟩
  simp [State.note, hj]

theorem unschedule (h : Unattended hands s s') : Unattended hands s s'.unschedule := by
  unfold State.unschedule
  split
  · exact h
  · exact ⟨h.journal, h.handles, fun f hf => h.flights f (mem_flightsOf_filter hf), h.idle⟩

theorem schedule {f : Flight} (hf : f ∈ hands) (h : Unattended hands s s')
    (hs : s.scheduled ≠ none) : Unattended hands s (s'.schedule cache) := by
  have hu := h.unschedule
  unfold State.schedule
  split
  · exact h
  · split
    · refine ⟨hu.journal, hu.handles, fun g hg => hu.flights g ?_, fun h0 => absurd h0 hs⟩
      simpa [Job.flight?] using hg
    · have hn : Unattended hands s { s'.unschedule with scheduled := none } :=
        ⟨hu.journal, hu.handles, hu.flights, fun _ => rfl⟩
      exact hn.note hf trivial

theorem finish {f : Flight} (hf : f ∈ hands) (hc : f.cause = .refresh) (outcome : Outcome)
    (h : Unattended hands s s') : Unattended hands s (f.finish cache outcome s') := by
  have ended : Unattended hands s (s'.note (.ended f.number f.cause outcome)) :=
    h.note hf ⟨rfl, hc⟩
  obtain ⟨-, he⟩ | ⟨current, entry, rfl, he⟩ | ⟨-, generation, n, e, rfl, rfl, he⟩ :=
    f.finish_cases cache outcome s'
  · rw [he]
    exact ended
  · rw [he]
    have hn : Unattended hands s
        { s'.note (.ended f.number f.cause (.ok entry)) with slot := some ⟨entry, s'.clock⟩ } :=
      ⟨ended.journal, ended.handles, ended.flights, ended.idle⟩
    have kept : Unattended hands s (s'.keep f entry) := hn.note hf rfl
    refine kept.schedule hf fun h0 => ?_
    -- only what is planned is stored
    cases f with
    | miss => cases hc
    | refresh =>
      have hn := h.idle h0
      rw [show s'.scheduled = some _ from current] at hn
      cases hn
  · rw [he]
    have hn : Unattended hands s
        { s'.note (.ended n .refresh (.error e)) with scheduled := none } :=
      ⟨ended.journal, ended.handles, ended.flights, fun _ => rfl⟩
    exact hn.note hf trivial

theorem carryRefresh {rest : Routine σ Outcome} (hf : .refresh generation n ∈ hands)
    (h : Unattended hands s s') :
    Unattended hands s (s'.carryRefresh cache generation n rest) := by
  unfold State.carryRefresh State.carry
  split
  · next outcome outside hr =>
    exact finish (f := .refresh generation n) hf rfl outcome
      ⟨h.journal, h.handles, h.flights, h.idle⟩
  · refine ⟨h.journal, h.handles, fun f hm => ?_, h.idle⟩
    rw [flightsOf_append] at hm
    rcases List.mem_append.1 hm with hm | hm
    · exact h.flights f hm
    · rw [show f = .refresh generation n by simpa [Job.flight?] using hm]
      exact List.mem_append_left _ hf

theorem abandon (h : Unattended hands s s') : Unattended hands s s'.abandon := by
  unfold State.abandon
  split
  · exact ⟨h.journal, h.handles, by simp, fun _ => rfl⟩
  · exact h

/-- Tasks went on with the computations in hand before. -/
theorem from_tasks {before : State σ} (h : Unattended hands s s')
    (known : ∀ f ∈ hands ++ flightsOf s.tasks, f ∈ flightsOf before.tasks)
    (journal : s.journal = before.journal) (handles : s.handles = before.handles)
    (scheduled : s.scheduled = before.scheduled) : Unattended [] before s' := by
  obtain ⟨⟨more, hj, hm⟩, hh, flights, idle⟩ := h
  refine ⟨⟨more, hj.trans (by rw [journal]), fun x hx => ?_⟩, hh.trans handles,
    fun f hf => known f (flights f hf), fun h0 => idle (scheduled.trans h0)⟩
  obtain ⟨f, hf, he⟩ := hm x hx
  exact ⟨f, known f hf, he⟩

end Unattended

/-! ## A deserted cache -/

/-- Nobody has a handle of the cache, and no call for its entry is under way. -/
structure Deserted (c : Scene σ) : Prop where
  handles : c.state.handles = 0
  awaited : c.awaited = []
  calls : ∀ f ∈ flightsOf c.state.tasks, f.cause = .refresh

theorem Deserted.takeCall?_eq_none (h : Deserted c) (id : Nat) :
    takeCall? id c.state.tasks = none := by
  cases ht : takeCall? id c.state.tasks with
  | none => rfl
  | some found =>
    obtain ⟨call, others⟩ := found
    obtain ⟨before, after, he, -⟩ := takeCall?_eq_some ht
    have hf : Flight.miss call.epoch call.number ∈ flightsOf c.state.tasks := by
      simp [he, Job.flight?]
    cases h.calls _ hf

/-- A wait for a computation in the background is over, and the computation begins. -/
structure BeginsAlone (s s' : State σ) : Prop where
  waiting : ∃ task ∈ s.tasks, task.isWaiting = true
  begun : ∃ t generation more, s'.journal = more ++ (t, .began s.begun .refresh) :: s.journal ∧
    (∀ x ∈ more, ∃ f ∈ .refresh generation s.begun :: flightsOf s.tasks, x.2.IsEndOf f.number) ∧
    ∀ f ∈ flightsOf s'.tasks, f ∈ .refresh generation s.begun :: flightsOf s.tasks
  handles : s'.handles = s.handles
  idle : s.scheduled = none → s'.scheduled = none

theorem flightsOf_remove_subset {before after : List (Task σ)} {task : Task σ} {f : Flight}
    (hf : f ∈ flightsOf (before ++ after)) : f ∈ flightsOf (before ++ task :: after) := by
  simp only [flightsOf_append, flightsOf_cons, List.mem_append] at hf ⊢
  exact hf.imp_right .inr

/-- A task of a deserted cache is carried out. -/
theorem Deserted.fire {before after : List (Task σ)} {task : Task σ} (h : Deserted ⟨s, []⟩)
    (ht : s.tasks = before ++ task :: after) :
    Unattended [] s (s.fire cache task (before ++ after)) ∨
      BeginsAlone s (s.fire cache task (before ++ after)) := by
  have hmem : task ∈ s.tasks := by simp [ht]
  have hfl : ∀ f ∈ flightsOf (before ++ after), f ∈ flightsOf s.tasks := by
    intro f hf
    rw [ht]
    exact flightsOf_remove_subset hf
  obtain ⟨due, job⟩ := task
  cases job with
  | waiting generation =>
    by_cases hg : s.generation = generation
    · right
      have base := Unattended.refl [.refresh generation s.begun]
        ({ s with clock := max s.clock due, tasks := before ++ after }.begin .refresh).2
      have carried : Unattended [.refresh generation s.begun] _
          (State.carryRefresh cache generation s.begun cache.compute _) :=
        base.carryRefresh List.mem_cons_self
      obtain ⟨⟨more, hj, hm⟩, handles, flights, idle⟩ := carried.abandon
      have he : s.fire cache ⟨due, .waiting generation⟩ (before ++ after) =
          (State.carryRefresh cache generation s.begun cache.compute
            ({ s with clock := max s.clock due, tasks := before ++ after }.begin
              .refresh).2).abandon := by
        unfold State.fire State.resume
        exact congrArg State.abandon (if_pos hg)
      have known : ∀ f ∈ [Flight.refresh generation s.begun] ++ flightsOf (before ++ after),
          f ∈ .refresh generation s.begun :: flightsOf s.tasks := by
        intro f hf
        rcases List.mem_cons.1 hf with rfl | hf
        · exact List.mem_cons_self
        · exact .tail _ (hfl f hf)
      rw [he]
      refine ⟨⟨_, hmem, rfl⟩, ⟨max s.clock due, generation, more, hj, fun x hx => ?_,
        fun f hf => known f (flights f hf)⟩, handles, idle⟩
      obtain ⟨f, hf, hx⟩ := hm x hx
      exact ⟨f, known f hf, hx⟩
    · left
      have he : s.fire cache ⟨due, .waiting generation⟩ (before ++ after) =
          { s with clock := max s.clock due, tasks := before ++ after }.abandon := by
        unfold State.fire State.resume
        exact congrArg State.abandon (if_neg hg)
      rw [he]
      exact (Unattended.refl [] _).abandon.from_tasks hfl rfl rfl rfl
  | refreshing generation n rest =>
    left
    have hf : .refresh generation n ∈ flightsOf s.tasks := mem_flightsOf hmem rfl
    have base := Unattended.refl [.refresh generation n]
      { s with clock := max s.clock due, tasks := before ++ after }
    have carried : Unattended [.refresh generation n] _
        (State.carryRefresh cache generation n rest _) := base.carryRefresh List.mem_cons_self
    refine carried.abandon.from_tasks (fun f hm => ?_) rfl rfl rfl
    rcases List.mem_cons.1 hm with rfl | hm
    · exact hf
    · exact hfl f hm
  | calling id epoch n rest => cases h.calls (.miss epoch n) (mem_flightsOf hmem rfl)

theorem Step.unattended (step : Step cache named c c') (h : Deserted c) :
    c'.awaited = [] ∧ (Unattended [] c.state c'.state ∨ BeginsAlone c.state c'.state) := by
  have same := Unattended.refl [] c.state
  have hh := h.handles
  have ha := h.awaited
  cases step with
  | change | pass | tell =>
    exact ⟨ha, .inl ⟨same.journal, same.handles, same.flights, same.idle⟩⟩
  | @fire s awaited task before after held first =>
    cases ha
    exact ⟨rfl, h.fire held⟩
  | @begin s awaited handle miss =>
    rw [show s.handles = 0 from hh] at handle
    exact absurd handle (Nat.not_lt_zero _)
  | leave | finish => simp at ha
  | start name handle | close handle | acquire handle => exact absurd hh handle
  | await name found =>
    rw [h.takeCall?_eq_none] at found
    cases found
  | @cancel s awaited id name =>
    refine ⟨ha, .inl ?_⟩
    unfold SignatureCache.cancel
    split
    · exact same
    · rw [h.takeCall?_eq_none id]
      exact same
  | @release s awaited free =>
    have hs : Unattended [] s { s with handles := s.handles - 1 } :=
      ⟨same.journal, by simp [show s.handles = 0 from hh], same.flights, same.idle⟩
    exact ⟨ha, .inl hs.abandon⟩

/-! ## Since a cache was deserted -/

namespace Journal

variable {j more newer older : Journal} {t : Nat} {event : Event}

/-- An event that needs no caller, where the journal is `j`. -/
def NeedsNoCaller (j : Journal) : Event → Prop
  | .began _ cause => cause = .refresh
  | .stored n _ => ∃ t, (t, Event.began n .refresh) ∈ j
  | .ended .. | .refreshFailed _ | .noBackground => True
  | .closed => False

theorem NeedsNoCaller.append (h : NeedsNoCaller j event) (more : Journal) :
    NeedsNoCaller (more ++ j) event := by
  cases event with
  | stored =>
    obtain ⟨t, hb⟩ := h
    exact ⟨t, List.mem_append_right _ hb⟩
  | _ => exact h

/-- What was superseded was so before callers were gone. -/
theorem Superseded.of_append (h : Superseded cache (more ++ j) n) (legal : Legal cache (more ++ j))
    (alone : ∀ x ∈ more, NeedsNoCaller (more ++ j) x.2) : Superseded cache j n := by
  obtain ⟨newer, t, event, older, hj, hp, run, he⟩ := h
  have hn : (t, event) ∉ more := by
    intro hm
    have hk := alone _ hm
    rcases he with rfl | ⟨m, entry, tb, rfl, hb⟩
    · exact hk
    · obtain ⟨tb', hb'⟩ := hk
      have hb : (tb, .began m .miss) ∈ more ++ j := by simp [hj, hb]
      cases (legal.began_unique hb hb').2
  rcases List.append_eq_append_iff.1 hj with ⟨a, rfl, hr⟩ | ⟨a, rfl, hr⟩
  · exact ⟨a, t, event, older, hr, hp, run, he⟩
  · cases a with
    | nil => exact ⟨[], t, event, older, hr.symm, hp, run, he⟩
    | cons x a =>
      cases hr
      exact absurd (by simp) hn

/-- Where an event stands that is not among the latest ones. -/
theorem exists_of_append_eq {x : Nat × Event} (h : newer ++ x :: older = more ++ j)
    (hx : x ∉ more) : ∃ a, j = a ++ x :: older := by
  rcases List.append_eq_append_iff.1 h.symm with ⟨a, -, hj⟩ | ⟨a, rfl, hj⟩
  · exact ⟨a, hj⟩
  · cases a with
    | nil => exact ⟨[], hj.symm⟩
    | cons y a =>
      cases hj
      exact absurd (by simp) hx

theorem Superseded.lt_begins (h : Superseded cache j n) (legal : Legal cache j) :
    n < begins j := by
  obtain ⟨newer, t, event, older, rfl, -, run, -⟩ := h
  obtain ⟨tb, hb⟩ := run.began
  exact legal.lt_begins (List.mem_append_right newer (.tail _ hb))

end Journal

/-- What holds of a cache, `c'`, that was deserted before, as `c`. -/
structure Since (cache : SignatureCache σ) (c c' : Scene σ) : Prop where
  deserted : Deserted c'
  journal : ∃ more, c'.state.journal = more ++ c.state.journal ∧
    ∀ x ∈ more, NeedsNoCaller c'.state.journal x.2
  flights : ∀ f ∈ flightsOf c'.state.tasks, f ∈ flightsOf c.state.tasks ∨ c.state.begun ≤ f.number
  idle : c.state.scheduled = none → c'.state.scheduled = none

theorem Since.refl (h : Deserted c) : Since cache c c :=
  ⟨h, ⟨[], rfl, by simp⟩, fun _ hf => .inl hf, id⟩

theorem exists_flight_of_keptByWork {task : Task σ} (kept : KeptByWork s) (h0 : s.handles = 0)
    (ht : task ∈ s.tasks) : ∃ f, f ∈ flightsOf s.tasks := by
  have hn : s.tasks.all Task.isWaiting ≠ true := fun hall => by
    rw [kept h0 hall] at ht
    cases ht
  obtain ⟨other, ho, hw⟩ : ∃ other ∈ s.tasks, other.isWaiting = false := by simpa using hn
  cases hf : other.job.flight? with
  | none =>
    rw [flight?_eq_none_iff.1 hf] at hw
    cases hw
  | some f => exact ⟨f, mem_flightsOf ho hf⟩

/-- Where a deserted cache waits, a computation is under way that was superseded before it was
deserted. -/
theorem Since.exists_superseded {task : Task σ} (since : Since cache c c') (work : AtWork cache c)
    (work' : AtWork cache c') (kept : KeptByWork c'.state) (ht : task ∈ c'.state.tasks)
    (hw : task.isWaiting = true) :
    c.state.scheduled ≠ none ∧ ∃ f ∈ flightsOf c.state.tasks, ¬ f.Current c.state ∧
      Running c'.state.journal f.number .refresh := by
  obtain ⟨deserted, ⟨more, hj, alone⟩, flights, idle⟩ := since
  have planned : Planned cache c'.awaited c'.state :=
    work'.faithful.planned.resolve_left fun hd => by simp [hd.tasks] at ht
  obtain ⟨generation, hg⟩ := isWaiting_iff.1 hw
  obtain ⟨started, waiting, -⟩ := planned.of_waiting ht hg
  have hs := planned.scheduled_of_waiting task ht generation hg
  refine ⟨fun h0 => by simp [idle h0] at hs, ?_⟩
  obtain ⟨f, hf⟩ := exists_flight_of_keptByWork kept deserted.handles ht
  have running := (work'.faithful.known f (List.mem_append_right _ hf)).running
  have hc := deserted.calls f hf
  rw [hc] at running
  have superseded : Superseded cache c'.state.journal f.number :=
    work'.faithful.legal.superseded running (by simp [waiting])
  rw [hj] at superseded alone
  have legal := work.faithful.legal
  have before := superseded.of_append (hj ▸ work'.faithful.legal) alone
  have hlt := before.lt_begins legal
  rw [← work.faithful.begun] at hlt
  have hf := (flights f hf).resolve_right (Nat.not_le_of_lt hlt)
  refine ⟨f, hf, fun current => before.plan_ne legal ?_, running⟩
  have wanted := (work.faithful.known f (List.mem_append_right _ hf)).current.1 current
  rwa [hc] at wanted

theorem Event.IsEndOf.needsNoCaller {event : Event} {j : Journal} {t : Nat}
    (h : event.IsEndOf n) (hb : (t, .began n .refresh) ∈ j) : NeedsNoCaller j event := by
  cases event with
  | stored m entry =>
    cases h
    exact ⟨t, hb⟩
  | began | closed => exact h.elim
  | ended | refreshFailed | noBackground => trivial

theorem Since.begun_le (since : Since cache c c') (work : AtWork cache c)
    (work' : AtWork cache c') : c.state.begun ≤ c'.state.begun := by
  obtain ⟨more, hj, -⟩ := since.journal
  rw [work.faithful.begun, work'.faithful.begun, hj]
  exact begins_le_append more c.state.journal

theorem Deserted.exists_began (h : Deserted c) (work : AtWork cache c) {f : Flight}
    (hf : f ∈ flightsOf c.state.tasks) : ∃ t, (t, .began f.number .refresh) ∈ c.state.journal := by
  have began := (work.faithful.known f (List.mem_append_right _ hf)).running.began
  rwa [h.calls f hf] at began

theorem Since.step (since : Since cache c c') (work : AtWork cache c) (work' : AtWork cache c')
    (step : Step cache named c' c'') : Since cache c c'' := by
  have hle := since.begun_le work work'
  obtain ⟨deserted, ⟨older, hj, alone⟩, flights, idle⟩ := since
  obtain ⟨ha, h | h⟩ := step.unattended deserted
  · obtain ⟨⟨more, hm, ends⟩, handles, sub, idle'⟩ := h
    refine ⟨⟨handles.trans deserted.handles, ha, fun f hf => deserted.calls f (sub f hf)⟩,
      ⟨more ++ older, by rw [hm, hj, List.append_assoc], fun x hx => ?_⟩,
      fun f hf => flights f (sub f hf), fun h0 => idle' (idle h0)⟩
    rw [hm]
    rcases List.mem_append.1 hx with hx | hx
    · obtain ⟨f, hf, he⟩ := ends x hx
      obtain ⟨t, hb⟩ := deserted.exists_began work' hf
      exact he.needsNoCaller (List.mem_append_right more hb)
    · exact (alone x hx).append more
  · obtain ⟨-, ⟨t, generation, more, hm, ends, sub⟩, handles, idle'⟩ := h
    have hb : (t, .began c'.state.begun .refresh) ∈ c''.state.journal := by simp [hm]
    refine ⟨⟨handles.trans deserted.handles, ha, fun f hf => ?_⟩,
      ⟨more ++ (t, .began c'.state.begun .refresh) :: older, by rw [hm, hj]; simp, fun x hx => ?_⟩,
      fun f hf => ?_, fun h0 => idle' (idle h0)⟩
    · rcases List.mem_cons.1 (sub f hf) with rfl | hf
      · rfl
      · exact deserted.calls f hf
    · rcases List.mem_append.1 hx with hx | hx
      · obtain ⟨f, hf, he⟩ := ends x hx
        rcases List.mem_cons.1 hf with rfl | hf
        · exact he.needsNoCaller hb
        · obtain ⟨t', hb'⟩ := deserted.exists_began work' hf
          have hb' : (t', .began f.number .refresh) ∈ c''.state.journal := by simp [hm, hb']
          exact he.needsNoCaller hb'
      · rcases List.mem_cons.1 hx with rfl | hx
        · rfl
        · rw [hm, List.append_cons]
          exact (alone x hx).append _
    · rcases List.mem_cons.1 (sub f hf) with rfl | hf
      · exact .inr hle
      · exact flights f hf

/-! ## What begins -/

theorem Journal.begins_append_of_not_began {j more : Journal}
    (hn : ∀ t m cause, (t, Event.began m cause) ∉ more) : begins (more ++ j) = begins j := by
  induction more with
  | nil => rfl
  | cons x more ih =>
    obtain ⟨t, event⟩ := x
    have ih := ih fun t m cause hm => hn t m cause (.tail _ hm)
    cases event with
    | began m cause => exact absurd List.mem_cons_self (hn t m cause)
    | _ => exact ih

theorem Event.not_isEndOf_began {m : Nat} {cause : Cause} : ¬ (Event.began m cause).IsEndOf n :=
  id

/-- A computation that begins when the journal is `older` does so in the background, in the place of
what was planned in the scene `c`, and while one is still under way that was superseded in it. -/
structure InPlace (c : Scene σ) (cause : Cause) (older : Journal) : Prop where
  refresh : cause = .refresh
  planned : c.state.scheduled ≠ none
  running : ∃ f ∈ c.flights, ¬ f.Current c.state ∧ Running older f.number .refresh

theorem Since.inPlace_of_step {newer older : Journal} {t m : Nat} {cause : Cause}
    (since : Since cache c c') (work : AtWork cache c) (work' : AtWork cache c')
    (kept : KeptByWork c'.state) (step : Step cache named c' c'')
    (hj : c''.state.journal = newer ++ (t, .began m cause) :: older) :
    (∃ a, c'.state.journal = a ++ (t, .began m cause) :: older) ∨ InPlace c cause older := by
  obtain ⟨-, h | h⟩ := step.unattended since.deserted
  · left
    obtain ⟨more, hm, ends⟩ := h.journal
    refine exists_of_append_eq (hj.symm.trans hm) fun hx => ?_
    obtain ⟨f, -, he⟩ := ends _ hx
    exact Event.not_isEndOf_began he
  · obtain ⟨⟨task, ht, hw⟩, ⟨t', generation, more, hm, ends, -⟩, -⟩ := h
    obtain ⟨a, ha⟩ := exists_of_append_eq (hj.symm.trans hm) fun hx => by
      obtain ⟨f, -, he⟩ := ends _ hx
      exact Event.not_isEndOf_began he
    cases a with
    | nil =>
      right
      cases ha
      obtain ⟨planned, f, hf, superseded, running⟩ :=
        since.exists_superseded work work' kept ht hw
      exact ⟨rfl, planned, f, List.mem_append_right _ hf, superseded, running⟩
    | cons x a =>
      left
      exact ⟨a, (List.cons.inj ha).2⟩

/-- What a deserted cache still does. -/
structure WindsDown (c c' : Scene σ) : Prop where
  /-- Unless something was planned while a superseded computation was under way, no computation
  begins any more. -/
  begun_eq : (c.state.scheduled = none ∨ ∀ f ∈ c.flights, f.Current c.state) →
    c'.state.begun = c.state.begun
  /-- Whatever begins. -/
  inPlace : ∀ newer t m cause older, c'.state.journal = newer ++ (t, .began m cause) :: older →
    c.state.journal <:+ older → InPlace c cause older

theorem windsDown_of_deserted (h : Reachable cache c) (gone : Deserted c)
    (steps : Steps cache named c c') : WindsDown c c' := by
  have work := h.atWork
  -- a computation is looked at in the step at which it begins; `Since` says what that starts from
  have run : Since cache c c' ∧ ∀ newer t m cause older,
      c'.state.journal = newer ++ (t, .began m cause) :: older →
        c.state.journal <:+ older → InPlace c cause older := by
    induction steps with
    | refl =>
      refine ⟨.refl gone, fun newer t m cause older hj hs => ?_⟩
      have hl := hs.length_le
      rw [hj] at hl
      simp at hl
      omega
    | @tail c' c'' steps step ih =>
      obtain ⟨since, ih⟩ := ih
      have reached := h.steps steps
      refine ⟨since.step work reached.atWork step, fun newer t m cause older hj hs => ?_⟩
      obtain ⟨a, ha⟩ | here :=
        since.inPlace_of_step work reached.atWork reached.keptByWork step hj
      · exact ih a t m cause older ha hs
      · exact here
  obtain ⟨since, inPlace⟩ := run
  refine ⟨fun settled => ?_, inPlace⟩
  obtain ⟨more, hj, -⟩ := since.journal
  rw [(h.steps steps).atWork.faithful.begun, work.faithful.begun, hj]
  refine begins_append_of_not_began fun t m cause hm => ?_
  obtain ⟨newer, older, rfl⟩ := List.append_of_mem hm
  have here : InPlace c cause (older ++ c.state.journal) :=
    inPlace newer t m cause _ (by simp [hj]) (List.suffix_append _ _)
  obtain ⟨f, hf, superseded, -⟩ := here.running
  exact settled.elim here.planned fun current => superseded (current f hf)

/-- The last handle is given up while the computation that was planned is under way. -/
def duringRefresh : State Unit :=
  (sample.performAll [.fetch, .sleep 6, .release] { outside := () }).2

theorem windsDown_sample :
    WindsDown ⟨duringRefresh, []⟩ ⟨(sample.performAll [.sleep 20] duringRefresh).2, []⟩ := by
  have hf : flightsOf duringRefresh.tasks = [.refresh 1 1] := by cbv
  have steps : Steps sample (fun _ => True) ⟨duringRefresh, []⟩ _ :=
    steps_performAll [.sleep 20] (fun _ _ _ _ => trivial) duringRefresh
  exact windsDown_of_deserted ((Reachable.initial sample ()).performAll _)
    ⟨by cbv, rfl, by simp [hf, Flight.cause]⟩ steps

/-- A cache that computes a signature in as much time as it is told to take. -/
def obedient : SignatureCache Nat where
  compute := .act id fun d => .wait d (.done (.ok ⟨"signature", "date"⟩))
  maxLifetime := 10
  refreshInterval := 5
  background := true
  maxLifetime_le := sample.maxLifetime_le

/-- A replacement takes so long that the entry comes to its end, and a caller has another one
computed, after which a replacement is planned anew. Then the last handle is given up. -/
def afterSlowRefresh : State Nat :=
  (obedient.performAll [.fetch, .change fun _ => 60, .sleep 6, .change fun _ => 0, .sleep 5,
    .fetch, .release] { outside := 0 }).2

theorem begins_after_release :
    Reachable obedient ⟨afterSlowRefresh, []⟩ ∧ Deserted ⟨afterSlowRefresh, []⟩ ∧
      ¬ ∀ c', Steps obedient (fun _ => True) ⟨afterSlowRefresh, []⟩ c' →
        c'.state.begun = afterSlowRefresh.begun := by
  have hf : flightsOf afterSlowRefresh.tasks = [.refresh 1 1] := by cbv
  refine ⟨(Reachable.initial obedient 0).performAll _,
    ⟨by cbv, rfl, by simp [hf, Flight.cause]⟩, fun hn => ?_⟩
  have he := hn _ (steps_performAll [.sleep 6] (fun _ _ _ _ => trivial) afterSlowRefresh)
  have ha : (obedient.performAll [.sleep 6] afterSlowRefresh).2.begun = 4 := by cbv
  have hb : afterSlowRefresh.begun = 3 := by cbv
  simp [ha, hb] at he

end RequestAuth.SignatureCache
