import Mathlib.Data.Fintype.EquivFin
import RequestAuth.Proofs.SignatureCache.Cancelled
import RequestAuth.Proofs.SignatureCache.CloseBarrier
import RequestAuth.Proofs.SignatureCache.LiveRefresh

/-!
# What a failure leaves behind

A computation may fail at any time, for a caller or in the background. `Intact` lists what this does
to a cache and what not, for every computation under way and for every failure in the past.

Whoever waits for a computation is told that it has failed, and nobody else ever notices (`AsOne`):
but for the journal the cache is as it was, so that it `Mirrors` the one without the failure. A
failure in the background is logged if the computation was the one that was planned, and then
nothing is planned until a result is stored that a caller had computed (`Aftermath`).
-/

namespace RequestAuth.SignatureCache

open Journal

variable {σ : Type} {cache : SignatureCache σ} {j newer older : Journal} {t n id : Nat}
  {s s' : State σ} {c c' : Scene σ}

/-! ## What follows a failure in the background -/

namespace Journal

/-- A result that a caller had computed was stored in the given part of a journal. -/
def MissStored (j newer : Journal) : Prop :=
  ∃ ts m entry tb, (ts, Event.stored m entry) ∈ newer ∧ (tb, Event.began m .miss) ∈ j

/-- Once nothing is planned, nothing is until a result is stored that a caller had computed. -/
theorem Legal.idle_append {e : Error} (h : Legal cache j)
    (hs : newer ++ (t, .refreshFailed e) :: older <:+ j) (nothing : ¬ MissStored j newer) :
    plan cache (newer ++ (t, .refreshFailed e) :: older) = .idle ∧
      (∀ ts m entry, (ts, .stored m entry) ∉ newer) ∧
      ∀ tb m, (tb, .began m .refresh) ∉ newer := by
  induction newer with
  | nil => exact ⟨rfl, by simp, by simp⟩
  | cons x newer ih =>
    obtain ⟨tx, event⟩ := x
    have before : ¬ MissStored j newer := by
      rintro ⟨ts, m, entry, tb, hm, hb⟩
      exact nothing ⟨ts, m, entry, tb, .tail _ hm, hb⟩
    rw [List.cons_append] at hs
    obtain ⟨idle, stored, began⟩ := ih ((List.suffix_cons _ _).trans hs) before
    cases event with
    | began m cause =>
      cases cause with
      | miss => exact ⟨idle, by simpa using stored, by simpa using began⟩
      | refresh =>
        obtain ⟨-, -, -, since, waiting, -⟩ := h.of_began hs
        cases idle.symm.trans waiting
    | stored m entry =>
      obtain ⟨cause, rest, ended, -, -, run, wanted⟩ := h.of_stored hs
      cases cause with
      | miss =>
        obtain ⟨tb, hb⟩ := run.began
        have mem : (tb, Event.began m .miss) ∈ j := hs.subset (by simp [ended, hb])
        exact absurd ⟨tx, m, entry, tb, List.mem_cons_self, mem⟩ nothing
      | refresh =>
        rw [ended] at idle
        cases idle.symm.trans wanted
    | refreshFailed | closed => exact ⟨rfl, by simpa using stored, by simpa using began⟩
    | ended | noBackground => exact ⟨idle, by simpa using stored, by simpa using began⟩

end Journal

/-- What holds after a computation in the background has failed that was planned. -/
structure Aftermath (cache : SignatureCache σ) (newer older : Journal) (c : Scene σ) : Prop where
  /-- The entry is served until it is too old, if no other is stored and the cache is not closed. -/
  kept : ¬ MissStored c.state.journal newer → (∀ tc, (tc, Event.closed) ∉ newer) →
    ∃ stored, entry? older = some stored ∧ cache.served? c.state =
      if c.state.clock - stored.storedAt < cache.maxLifetime then some stored.entry else none
  /-- Nothing is planned before a result is stored that a caller had computed, -/
  idle : ¬ MissStored c.state.journal newer → c.state.scheduled = none ∧
    c.state.isScheduled = false ∧ c.state.tasks.filter Task.isWaiting = []
  /-- and nothing begins in the background. -/
  quiet : ∀ after tb m before, newer = after ++ (tb, .began m .refresh) :: before →
    MissStored c.state.journal before
  /-- Storing a result starts over. -/
  anew : cache.looksAhead = true → (c.state.handles ≠ 0 ∨ c.state.tasks ≠ []) →
    ∀ after ts m entry before, newer = after ++ (ts, .stored m entry) :: before →
      (∀ tc, (tc, Event.closed) ∉ after) → (∀ tf e, (tf, Event.refreshFailed e) ∉ after) →
      ∃ task, c.state.tasks.filter (·.refreshes c.state.generation) = [task] ∧
        Live cache c.state task

theorem Faithful.idle {hands : List Flight} (h : Faithful cache hands s)
    (hp : plan cache s.journal = .idle) : s.scheduled = none ∧
      s.isScheduled = false ∧ s.tasks.filter Task.isWaiting = [] := by
  rcases h.planned with hd | planned
  · exact ⟨hd.scheduled, isScheduled_eq_false hd.scheduled, by simp [hd.tasks]⟩
  · have record := planned.record
    have waits := planned.waits
    rw [hp] at record waits
    exact ⟨record, isScheduled_eq_false record, waits⟩

theorem AtWork.aftermath {e : Error} (h : AtWork cache c)
    (hj : c.state.journal = newer ++ (t, .refreshFailed e) :: older) :
    Aftermath cache newer older c := by
  have faithful := h.faithful
  have legal := faithful.legal
  have whole : newer ++ (t, .refreshFailed e) :: older <:+ c.state.journal := hj ▸ List.suffix_rfl
  obtain ⟨n, rest, rfl, legal', wanted⟩ := legal.of_refreshFailed (hj ▸ List.suffix_append _ _)
  refine ⟨fun nothing opened => ?kept, fun nothing => ?idle, ?quiet, ?anew⟩
  case kept =>
    obtain ⟨stored, entry, -⟩ := (legal'.signing wanted).on_time
    refine ⟨stored, entry, ?_⟩
    have slot : c.state.slot = some stored := by
      rw [faithful.slot, hj, entry?_append (legal.idle_append whole nothing).2.1 opened]
      exact entry
    unfold served?
    rw [slot]
  case idle =>
    apply faithful.idle
    rw [hj]
    exact (legal.idle_append whole nothing).1
  case quiet =>
    rintro after tb m before rfl
    by_contra nothing
    rw [List.append_assoc] at whole
    have before_whole := (List.suffix_append after _).trans whole
    obtain ⟨-, -, -, since, waiting, -⟩ := legal.of_began before_whole
    have idle := (legal.idle_append ((List.suffix_cons _ _).trans before_whole) nothing).1
    cases idle.symm.trans waiting
  case anew =>
    rintro looks alive after ts m entry before rfl opened unfailed
    have hn : plan cache c.state.journal ≠ .idle := by
      rw [hj, List.append_assoc]
      exact plan_ne_idle_append looks opened unfailed
    have planned := faithful.planned.resolve_left
      fun hd => alive.elim (absurd hd.handles) (absurd hd.tasks)
    cases hp : plan cache c.state.journal with
    | idle => exact absurd hp hn
    | waiting since => exact h.live_of_waiting planned hp
    | signing n => exact h.live_of_signing planned hp

/-! ## What follows a failure that a caller is told -/

/-- The same is seen of two caches, now and whatever is done to both, if callers name only calls of
the given kind. -/
def AsOne (cache : SignatureCache σ) (named : Nat → Prop) (s s' : State σ) : Prop :=
  ∀ t, s.clock ≤ t → ∀ run : List (Action σ),
    (∀ action ∈ run, ∀ i, action.named? = some i → named i) →
    let (answers, now) := cache.performAll run (s.advanceTo cache t)
    let (answers', now') := cache.performAll run (s'.advanceTo cache t)
    answers = answers' ∧ cache.sight now = cache.sight now' ∧ now.begun = now'.begun

theorem without_eq_self {run : List (Action σ)} (h : ∀ action ∈ run, action.named? ≠ some id) :
    without id run = run :=
  List.filter_eq_self.2 (by simpa using h)

theorem answersWithout_eq_self {run : List (Action σ)} {answers : List Answer}
    (h : ∀ action ∈ run, action.named? ≠ some id) (hl : answers.length = run.length) :
    answersWithout id run answers = answers := by
  have all : ∀ step ∈ run.zip answers, decide (step.1.named? ≠ some id) = true :=
    fun step hm => decide_eq_true (h step.1 (List.of_mem_zip hm).1)
  rw [answersWithout, List.filter_eq_self.2 all, List.map_snd_zip (Nat.le_of_eq hl)]

theorem Mirrors.asOne (h : Mirrors (fun outside : σ => outside) id false 0 s s') :
    AsOne cache (· ≠ id) s s' := by
  intro t ht run named
  have others : ∀ action ∈ run, action.named? ≠ some id :=
    fun action ha hi => named action ha id hi rfl
  have orderly : Orderly (fun outside : σ => outside) run := fun f _ outside outside' he =>
    congrArg f he
  have alike := Routine.alike_self cache.compute
  have passes : Mirrors _ id false 0 (s.advanceTo cache t) (s'.advanceTo cache t) ∨ _ :=
    h.advanceTo alike ht
  rcases passes with passed | ⟨hh, -⟩
  · rcases passed.performAll (ahead_advanceTo ht) alike orderly nofun
      fun action ha hi => absurd hi (others action ha) with same | ⟨hh, -⟩
    · obtain ⟨answers, mirrors⟩ := same
      rw [without_eq_self others] at answers mirrors
      rw [answersWithout_eq_self others (length_performAll run _)] at answers
      exact ⟨answers, mirrors.sight, mirrors.begun⟩
    · cases hh
  · cases hh

theorem TasksMirror.self {tasks : List (Task σ)} (gone : callsOf id tasks = []) :
    TasksMirror (fun outside : σ => outside) id false tasks tasks := by
  induction tasks with
  | nil => exact .nil
  | cons task tasks ih =>
    obtain ⟨due, job⟩ := task
    cases hj : job.callFor? id with
    | some n =>
      rw [callsOf_cons_of_some hj] at gone
      cases gone
    | none =>
      rw [callsOf_cons_of_none hj] at gone
      refine .seen due ?_ (ih gone)
      cases job with
      | waiting generation => exact .waiting generation
      | refreshing generation n rest => exact .refreshing generation (Routine.alike_self rest)
      | calling i epoch n rest =>
        have other : i ≠ id := by
          rintro rfl
          simp [Job.callFor?] at hj
        exact .calling other epoch (Routine.alike_self rest)

/-- A cache is as it was before a failure was noted that a caller is told. -/
theorem mirrors_of_ended {e : Error} {answers : List (Nat × Option Outcome)}
    (gone : callsOf id s.tasks = []) (due : ∀ task ∈ s.tasks, s.clock ≤ task.due)
    (told : s.answers = answers.filter (·.1 ≠ id)) :
    Mirrors (fun outside : σ => outside) id false 0
      { s with answers, journal := (s.clock, .ended n .miss (.error e)) :: s.journal } s where
  outside := rfl
  clock := rfl
  slot := rfl
  scheduled := rfl
  generation := rfl
  epoch := rfl
  tasks := .self gone
  answers := told
  handles := rfl
  begun := rfl
  lines := rfl
  signed := rfl
  held := nofun
  due := due

theorem exists_callers (tasks : List (Task σ)) :
    ∃ ids : List Nat, ∀ id, id ∉ ids → callsOf id tasks = [] := by
  induction tasks with
  | nil => exact ⟨[], fun _ _ => rfl⟩
  | cons task rest ih =>
    obtain ⟨ids, h⟩ := ih
    cases hj : task.job with
    | waiting | refreshing =>
      exact ⟨ids, fun id hid => (callsOf_cons_of_none (by rw [hj]; rfl) rest).trans (h id hid)⟩
    | calling i epoch n routine =>
      refine ⟨i :: ids, fun id hid => ?_⟩
      obtain ⟨other, hid⟩ := not_or.1 (mt List.mem_cons.2 hid)
      have uncalled : task.job.callFor? id = none := by
        rw [hj]
        exact callFor?_calling_of_ne (Ne.symm other)
      exact (callsOf_cons_of_none uncalled rest).trans (h id hid)

theorem exists_unnamed (s : State σ) (run : List (Action σ)) : ∃ id,
    callsOf id s.tasks = [] ∧ (∀ x ∈ s.answers, x.1 ≠ id) ∧
      ∀ action ∈ run, action.named? ≠ some id := by
  obtain ⟨callers, uncalled_of_notMem⟩ := exists_callers s.tasks
  obtain ⟨id, fresh⟩ := Infinite.exists_notMem_finset
    (callers ++ s.answers.map Prod.fst ++ run.filterMap Action.named?).toFinset
  rw [List.mem_toFinset, List.mem_append, List.mem_append, not_or, not_or] at fresh
  obtain ⟨⟨uncalled, unanswered⟩, unnamed⟩ := fresh
  refine ⟨id, uncalled_of_notMem id uncalled, fun x hx he => ?_, fun action ha he => ?_⟩
  · exact unanswered (List.mem_map.2 ⟨x, hx, he⟩)
  · exact unnamed (List.mem_filterMap.2 ⟨action, ha, he⟩)

/-- It makes no difference to anybody that a failure was noted. -/
theorem asOne_of_ended {e : Error} (due : ∀ task ∈ s.tasks, s.clock ≤ task.due) :
    AsOne cache (fun _ => True) (s.note (.ended n .miss (.error e))) s := by
  intro t ht run _
  obtain ⟨id, gone, unanswered, unnamed⟩ := exists_unnamed s run
  have told : s.answers = s.answers.filter (·.1 ≠ id) :=
    (List.filter_eq_self.2 (by simpa using unanswered)).symm
  have same : AsOne cache (· ≠ id) (s.note (.ended n .miss (.error e))) s :=
    (mirrors_of_ended gone due told).asOne
  exact same t ht run fun action ha i hi he => unnamed action ha (he ▸ hi)

/-- What a call does that fails: `s` is the state without the call, and `s'` the one after it. -/
structure CallFails (cache : SignatureCache σ) (id n : Nat) (e : Error) (s s' : State σ) :
    Prop where
  eq : s' =
    { s with
      answers := (id, some (.error e)) :: s.answers
      journal := (s.clock, .ended n .miss (.error e)) :: s.journal }
  /-- To all others it is as if there had been no call. -/
  asOne : AsOne cache (· ≠ id) s' s
  /-- Whoever asks for the call is told. -/
  told : ∀ awaited c', Steps cache (· ≠ id) ⟨s', awaited⟩ c' →
    (cache.collect id c'.state).1 = some (some (.error e))

theorem abandon_told {answers : List (Nat × Option Outcome)} {journal : Journal} :
    State.abandon { s with answers, journal } = { s.abandon with answers, journal } := by
  unfold State.abandon
  dsimp only
  split <;> rfl

theorem collect_of_lookup {outcome : Outcome} (h : s.answers.lookup id = some (some outcome)) :
    (cache.collect id s).1 = some (some outcome) := by
  rw [← takeAnswer?_answer, Option.map_eq_some_iff] at h
  obtain ⟨⟨answer, answers⟩, found, rfl⟩ := h
  unfold SignatureCache.collect
  rw [found]

theorem filter_of_lookup_eq_none {answers : List (Nat × Option Outcome)}
    (h : answers.lookup id = none) : answers.filter (·.1 ≠ id) = answers := by
  refine List.filter_eq_self.2 fun x hx => ?_
  have other : x.1 ≠ id := by
    intro he
    have ne := List.lookup_eq_none_iff.1 h x hx
    simp [he] at ne
  simpa using other

theorem CallFails.of_gone {e : Error} (gone : callsOf id s.tasks = [])
    (untold : s.answers.lookup id = none) (due : ∀ task ∈ s.tasks, s.clock ≤ task.due) :
    CallFails cache id n e s.abandon
      (State.abandon { s with
        answers := (id, some (.error e)) :: s.answers
        journal := (s.clock, .ended n .miss (.error e)) :: s.journal }) := by
  have told : s.answers = ((id, some (.error e)) :: s.answers).filter (·.1 ≠ id) := by
    rw [List.filter_cons_of_neg (by simp), filter_of_lookup_eq_none untold]
  refine ⟨?_, (mirrors_of_ended gone due told).abandon.asOne, fun awaited c' steps => ?_⟩
  · rw [abandon_told]
    unfold State.abandon
    split <;> rfl
  · refine collect_of_lookup ?_
    have ended := (Steps.apart steps ((callsOf_abandon id _).trans gone)).answer
    rw [ended, abandon_told]
    exact List.lookup_cons_self

theorem callFails_fire {due epoch : Nat} {rest : Routine σ Outcome} {before after : List (Task σ)}
    {e : Error} {outside : σ} (held : s.tasks = before ++ ⟨due, .calling id epoch n rest⟩ :: after)
    (first : ∀ other ∈ before ++ after, due ≤ other.due)
    (early : ∀ task ∈ s.tasks, s.clock ≤ task.due) (alone : callsOf id s.tasks = [n])
    (untold : s.answers.lookup id = none)
    (fails : rest.run (max s.clock due) s.outside = (.finished (.error e), outside)) :
    CallFails cache id n e
      (State.abandon { s with clock := max s.clock due, outside, tasks := before ++ after })
      (s.fire cache ⟨due, .calling id epoch n rest⟩ (before ++ after)) := by
  have owed : Owed id n s := .inl ⟨alone, untold⟩
  obtain ⟨-, gone, -⟩ := owed.taken held (callFor?_calling_self epoch rest)
  have due' : ∀ task ∈ before ++ after, max s.clock due ≤ task.due := fun task ht =>
    Nat.max_le.2 ⟨early task (held ▸ mem_of_mem_others ht), first task ht⟩
  have carried : State.resume cache (.calling id epoch n rest)
      { s with clock := max s.clock due, tasks := before ++ after } = _ :=
    carry_of_finished fails
  unfold State.fire
  rw [carried]
  exact .of_gone gone untold due'

/-- What a computation in the background does that fails: `s` is the state before, and `s'` the one
after it. -/
structure RefreshFails (superseded : Prop) (n : Nat) (e : Error) (s s' : State σ) : Prop where
  /-- One that is planned is not any more, and this is logged. -/
  planned : ¬ superseded → s' =
      { s with
        scheduled := none
        journal := (s.clock, .refreshFailed e) :: (s.clock, .ended n .refresh (.error e)) ::
          s.journal } ∧
    lines s'.journal = (s.clock, "WARN: unable to refresh cached request signature: " ++ e.text) ::
      lines s.journal
  /-- Another changes nothing. -/
  superseded : superseded →
    s' = s.note (.ended n .refresh (.error e)) ∧ lines s'.journal = lines s.journal

theorem AtWork.refreshFails {generation : Nat} (h : AtWork cache c)
    (hf : .refresh generation n ∈ c.flights) (e : Error) (clock : Nat) (outside : σ)
    (tasks : List (Task σ)) :
    RefreshFails (Superseded cache c.state.journal n) n e { c.state with clock, outside, tasks }
      (State.finishRefresh cache generation n (.error e)
        { c.state with clock, outside, tasks }) := by
  have legal := h.faithful.legal
  obtain ⟨run, -, current⟩ := h.faithful.known _ hf
  constructor
  · intro alone
    have wanted : plan cache c.state.journal = .signing n := by
      by_contra unwanted
      exact alone (legal.superseded run unwanted)
    have scheduled : c.state.scheduled = some generation := current.2 wanted
    have failed : State.finishRefresh cache generation n (.error e)
        { c.state with clock, outside, tasks } = _ := if_pos scheduled
    rw [failed]
    exact ⟨rfl, rfl⟩
  · intro superseded
    have stale : c.state.scheduled ≠ some generation :=
      fun planned => superseded.plan_ne legal (current.1 planned)
    have failed : State.finishRefresh cache generation n (.error e)
        { c.state with clock, outside, tasks } = _ := if_neg stale
    rw [failed]
    exact ⟨rfl, rfl⟩

/-! ## All failures -/

/-- What failures do to a cache at work, and what they have done. -/
structure Intact (cache : SignatureCache σ) (c : Scene σ) : Prop where
  /-- Whoever waits for a computation on the spot is told that it fails, and that is all. -/
  fetch : ∀ s e s', cache.served? s = none →
    (s.begin .miss).2.complete cache cache.compute = (.error e, s') →
    cache.fetch s = (.error e, s'.note (.ended s.begun .miss (.error e)))
  /-- Whoever asks for a call under way is told what its own computation comes to. -/
  told : ∀ id n, callsOf id c.state.tasks = [n] → c.state.answers.lookup id = none →
    ∀ c', Steps cache (· ≠ id) c c' → ∃ outcome te,
      (cache.collect id c'.state).1 = some (some outcome) ∧
      (te, .ended n .miss outcome) ∈ (cache.collect id c'.state).2.journal
  /-- It makes no difference to others that a computation fails which somebody waits for, -/
  awaited : ∀ epoch n, .miss epoch n ∈ c.awaited → ∀ e,
    (Flight.miss epoch n).finish cache (.error e) c.state =
        c.state.note (.ended n .miss (.error e)) ∧
      AsOne cache (fun _ => True) (c.state.note (.ended n .miss (.error e))) c.state
  /-- or one for a call that was sent off. -/
  call : ∀ id due epoch n rest before after e outside,
    c.state.tasks = before ++ ⟨due, .calling id epoch n rest⟩ :: after →
    (∀ other ∈ before ++ after, due ≤ other.due) →
    callsOf id c.state.tasks = [n] → c.state.answers.lookup id = none →
    rest.run (max c.state.clock due) c.state.outside = (.finished (.error e), outside) →
    CallFails cache id n e
      (State.abandon
        { c.state with clock := max c.state.clock due, outside, tasks := before ++ after })
      (c.state.fire cache ⟨due, .calling id epoch n rest⟩ (before ++ after))
  /-- A computation in the background fails. -/
  refresh : ∀ generation n, .refresh generation n ∈ c.flights → ∀ e clock outside tasks,
    RefreshFails (Superseded cache c.state.journal n) n e { c.state with clock, outside, tasks }
      (State.finishRefresh cache generation n (.error e) { c.state with clock, outside, tasks })
  /-- One that was planned has failed before. -/
  aftermath : ∀ newer t e older, c.state.journal = newer ++ (t, .refreshFailed e) :: older →
    Aftermath cache newer older c

theorem intact_of_reachable (h : Reachable cache c) : Intact cache c := by
  have work := h.atWork
  have faithful := work.faithful
  refine ⟨fun s e s' miss failed => ?fetch,
    fun id n calls untold c' steps => (Steps.owed steps (.inl ⟨calls, untold⟩)).collect,
    fun epoch n _ e => ⟨rfl, asOne_of_ended faithful.due⟩,
    fun id due epoch n rest before after e outside held first alone untold fails =>
      callFails_fire held first faithful.due alone untold fails,
    fun generation n hf => work.refreshFails hf, fun newer t e older hj => work.aftermath hj⟩
  case fetch =>
    unfold SignatureCache.fetch
    rw [miss]
    dsimp only
    rw [failed]
    rfl

/-- The small cache, where the second computation fails. -/
def unreliable : SignatureCache Nat where
  compute := .act (· + 1) fun k =>
    .wait 2 (.done (if k = 1 then .error .noCredential else .ok ⟨"signature", "date"⟩))
  maxLifetime := 10
  refreshInterval := 5
  background := true
  maxLifetime_le := sample.maxLifetime_le

/-- The computation in the background has failed, and a call has been sent off after the entry had
become too old. -/
theorem intact_sample :
    (unreliable.performAll [.start 0, .sleep 13, .start 1] { outside := 0 }).2.journal =
        [(13, .began 2 .miss), (9, .refreshFailed .noCredential),
          (9, .ended 1 .refresh (.error .noCredential)), (7, .began 1 .refresh),
          (2, .stored 0 ⟨"signature", "date"⟩),
          (2, .ended 0 .miss (.ok ⟨"signature", "date"⟩)), (0, .began 0 .miss)] ∧
      Intact unreliable
        ⟨(unreliable.performAll [.start 0, .sleep 13, .start 1] { outside := 0 }).2, []⟩ :=
  ⟨by cbv, intact_of_reachable ((Reachable.initial unreliable 0).performAll _)⟩

end RequestAuth.SignatureCache
