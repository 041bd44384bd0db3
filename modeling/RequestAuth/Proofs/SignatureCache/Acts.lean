import RequestAuth.Proofs.SignatureCache.Faithful
import RequestAuth.Proofs.SignatureCache.Frame

/-!
# What the acts of a cache write into its journal

Each act that writes into the journal keeps the state in agreement with it: a computation begins
(`Faithful.beginMiss`, `Faithful.beginRefresh`), one ends (`Faithful.finish`), or the cache is
closed (`Faithful.close`). `Flight.finish_cases` says all that the end of a computation may do.
-/

namespace RequestAuth.SignatureCache

open Journal

variable {σ : Type} {cache : SignatureCache σ} {hands : List Flight} {s : State σ} {f : Flight}

/-! ## Beginning a computation -/

theorem Faithful.onTime (h : Faithful cache hands s) (hp : Planned cache hands s) :
    OnTime cache s.journal s.clock := by
  refine ⟨h.upto, fun since hw => ?_⟩
  have hm : (⟨since + cache.refreshInterval, .waiting s.generation⟩ : Task σ) ∈
      s.tasks.filter Task.isWaiting := by
    simp [hp.waits, hw, Plan.waits]
  exact h.due _ (List.mem_filter.1 hm).1

theorem Faithful.number_ne (h : Faithful cache (f :: hands) s) {g : Flight}
    (hg : g ∈ hands ++ flightsOf s.tasks) : g.number ≠ f.number := by
  intro he
  refine (List.nodup_cons.1 h.distinct).1 ?_
  rw [← he]
  exact List.mem_map_of_mem hg

/-- The computations under way have begun. -/
theorem Faithful.number_lt (h : Faithful cache hands s) {g : Flight}
    (hg : g ∈ hands ++ flightsOf s.tasks) : g.number < s.begun := by
  rw [h.begun]
  exact (h.known g hg).running.lt_begins h.legal

theorem Faithful.begun_not_mem (h : Faithful cache hands s) :
    s.begun ∉ (hands ++ flightsOf s.tasks).map Flight.number := by
  intro hm
  obtain ⟨g, hg, he⟩ := List.mem_map.1 hm
  exact Nat.ne_of_lt (h.number_lt hg) he

theorem upto_cons {j : Journal} {t : Nat} {event : Event} (h : ∀ x ∈ j, x.1 ≤ t) :
    ∀ x ∈ (t, event) :: j, x.1 ≤ t := by
  intro x hx
  rcases List.mem_cons.1 hx with rfl | hx
  · exact Nat.le_refl _
  · exact h x hx

theorem not_lt_served {stored : Stored} (h : Faithful cache hands s)
    (miss : cache.served? s = none) (he : entry? s.journal = some stored) :
    stored.storedAt + cache.maxLifetime ≤ s.clock := by
  obtain ⟨n, newer, older, hj, -⟩ := exists_of_entry? he
  have ht : stored.storedAt ≤ s.clock := h.upto (_, .stored n stored.entry) (by simp [hj])
  unfold served? at miss
  rw [h.slot, he] at miss
  simp only [ite_eq_right_iff, reduceCtorEq, imp_false] at miss
  omega

theorem Faithful.beginMiss (h : Faithful cache hands s) (hp : Planned cache hands s)
    (miss : cache.served? s = none) :
    Faithful cache (.miss s.epoch s.begun :: hands) (s.begin .miss).2 where
  legal := by
    have may : MayBegin cache s.journal s.clock .miss := fun _ he => not_lt_served h miss he
    have := h.legal.began (h.onTime hp) may
    rwa [← h.begun] at this
  upto := upto_cons h.upto
  due := h.due
  slot := h.slot
  epoch := h.epoch
  begun := congrArg (· + 1) h.begun
  distinct := List.nodup_cons.2 ⟨h.begun_not_mem, h.distinct⟩
  known g hg := by
    rcases List.mem_cons.1 hg with rfl | hg
    · have running := h.legal.running_began s.clock .miss
      have opened := not_closedSince_began s.journal s.clock .miss
      rw [← h.begun] at running opened
      exact ⟨running, Nat.le_refl _, iff_of_true rfl opened⟩
    · obtain ⟨running, past, current⟩ := h.known g hg
      have running := running.append [(s.clock, .began s.begun .miss)] (by simp [completed])
      cases g <;> exact ⟨running, past, current⟩
  planned := .inr ⟨hp.record, hp.waits, fun n hn => .tail _ (hp.signing n hn)⟩

/-- The wait for what is planned is for the generation that there is now. -/
theorem Planned.of_waiting {task : Task σ} {generation : Nat} (hp : Planned cache hands s)
    (ht : task ∈ s.tasks) (hj : task.job = .waiting generation) :
    ∃ since, plan cache s.journal = .waiting since ∧ task.due = since + cache.refreshInterval ∧
      s.generation = generation ∧ s.tasks.filter Task.isWaiting = [task] := by
  have hm : task ∈ s.tasks.filter Task.isWaiting :=
    List.mem_filter.2 ⟨ht, isWaiting_iff.2 ⟨generation, hj⟩⟩
  have hw := hp.waits
  rw [hw] at hm
  cases hpl : plan cache s.journal with
  | idle | signing => simp [hpl, Plan.waits] at hm
  | waiting since =>
    simp only [hpl, Plan.waits, List.mem_singleton] at hm
    rw [hpl, Plan.waits, ← hm] at hw
    subst hm
    cases hj
    exact ⟨since, rfl, rfl, rfl, hw⟩

/-- The computation that is planned begins when the wait for it is over. -/
theorem Faithful.beginRefresh {before after : List (Task σ)} {task : Task σ} {generation : Nat}
    (h : Faithful cache hands s) (hp : Planned cache hands s)
    (ht : s.tasks = before ++ task :: after) (hj : task.job = .waiting generation)
    (hc : s.clock = task.due) :
    Faithful cache (.refresh generation s.begun :: hands)
      ({ s with tasks := before ++ after }.begin .refresh).2 := by
  have hmem : task ∈ s.tasks := by simp [ht]
  obtain ⟨since, hw, hd, rfl, hf⟩ := hp.of_waiting hmem hj
  have hfl : flightsOf (before ++ after) = flightsOf s.tasks := by
    simp [ht, hj, Job.flight?]
  have hall : (before ++ after).filter Task.isWaiting = [] := by
    have hk : task.isWaiting = true := isWaiting_iff.2 ⟨_, hj⟩
    rw [ht, List.filter_append, List.filter_cons_of_pos hk] at hf
    have := congrArg List.length hf
    simp only [List.length_append, List.length_cons, List.length_nil] at this
    rw [List.filter_append, ← List.length_eq_zero_iff, List.length_append]
    omega
  have hrec := hp.record
  rw [hw] at hrec
  refine
    { legal := ?legal
      upto := upto_cons h.upto
      due := fun t hm => h.due t (ht ▸ mem_of_mem_others hm)
      slot := h.slot
      epoch := h.epoch
      begun := congrArg (· + 1) h.begun
      distinct := List.nodup_cons.2 ⟨hfl ▸ h.begun_not_mem, hfl ▸ h.distinct⟩
      known := fun g hg => ?known
      planned := .inr ⟨hrec, hall, fun n hn => ?signing⟩ }
  case legal =>
    have may : MayBegin cache s.journal s.clock .refresh := ⟨since, hw, by rw [hc, hd]⟩
    have := h.legal.began (h.onTime hp) may
    rwa [← h.begun] at this
  case known =>
    rcases List.mem_cons.1 hg with rfl | hg
    · have running := h.legal.running_began s.clock .refresh
      rw [← h.begun] at running
      exact ⟨running, Nat.le_refl _, iff_of_true hrec rfl⟩
    · replace hg : g ∈ hands ++ flightsOf s.tasks := hfl ▸ hg
      obtain ⟨running, past, current⟩ := h.known g hg
      have hr := running.append [(s.clock, .began s.begun .refresh)] (by simp [completed])
      cases g with
      | miss => exact ⟨hr, past, current⟩
      | refresh generation n =>
        refine ⟨hr, past, iff_of_false (fun hs => ?_) fun hs => ?_⟩
        · have := current.1 hs
          rw [Flight.cause, Wanted, hw] at this
          cases this
        · cases hs
          exact Nat.lt_irrefl _ (h.number_lt hg)
  case signing =>
    cases hn
    exact List.mem_cons_self

/-! ## Ending a computation without a result -/

/-- A computation ends whose result is not wanted, or that a caller sees fail. -/
theorem Faithful.spent {outcome : Outcome} (h : Faithful cache (f :: hands) s)
    (hs : f.Current s → f.cause = .miss ∧ ∃ e, outcome = .error e) :
    Faithful cache hands (s.note (.ended f.number f.cause outcome)) where
  legal := by
    have hk := h.known f List.mem_cons_self
    exact h.legal.ended (h.onTime h.not_dropped) hk.running fun hw => hs (hk.current.2 hw)
  upto := upto_cons h.upto
  due := h.due
  slot := h.slot
  epoch := h.epoch
  begun := h.begun
  distinct := (List.nodup_cons.1 h.distinct).2
  known g hg := by
    obtain ⟨running, past, current⟩ := h.known g (.tail _ hg)
    have running := running.append [(s.clock, .ended f.number f.cause outcome)]
      (by simpa [completed] using h.number_ne hg)
    cases g <;> exact ⟨running, past, current⟩
  planned := by
    have hp := h.not_dropped
    refine .inr ⟨hp.record, hp.waits, fun n hn => ?_⟩
    rcases List.mem_cons.1 (hp.signing n hn) with hf | hf
    -- the computation that is planned does not end so
    · subst hf
      have hc : Flight.Current s (.refresh s.generation n) := by
        rw [Flight.Current, hp.record, show plan cache s.journal = .signing n from hn]
        rfl
      cases (hs hc).1
    · exact hf

/-- The other computations go on when the one in the background is not wanted any more. -/
theorem Flight.Known.unplanned {s' : State σ} (h : f.Known cache s)
    (running : Running s'.journal f.number f.cause) (epoch : s'.epoch = s.epoch)
    (generation : s.generation ≤ s'.generation)
    (closed : ∀ n, ClosedSince n s'.journal ↔ ClosedSince n s.journal)
    (scheduled : ∀ g ≤ s.generation, s'.scheduled ≠ some g)
    (unplanned : ∀ n, plan cache s'.journal ≠ .signing n) : f.Known cache s' := by
  obtain ⟨-, past, current⟩ := h
  cases f with
  | miss e n =>
    refine ⟨running, by rwa [Flight.Past, epoch], ?_⟩
    rw [Flight.Current, epoch]
    exact current.trans (not_congr (closed n)).symm
  | refresh g n =>
    exact ⟨running, Nat.le_trans past generation,
      iff_of_false (scheduled g past) (unplanned n)⟩

/-- The computation that is planned fails. -/
theorem Faithful.refreshFailed {generation n : Nat} {e : Error}
    (h : Faithful cache (.refresh generation n :: hands) s)
    (hs : s.scheduled = some generation) :
    Faithful cache hands
      ({ s.note (.ended n .refresh (.error e)) with scheduled := none }.note
        (.refreshFailed e)) := by
  have hp := h.not_dropped
  obtain ⟨running, -, current⟩ := h.known _ List.mem_cons_self
  have hw : plan cache s.journal = .signing n := current.1 hs
  have waits := hp.waits
  rw [hw] at waits
  refine
    { legal := h.legal.refreshFailed (h.onTime hp) running hw
      upto := upto_cons (upto_cons h.upto)
      due := h.due
      slot := h.slot
      epoch := h.epoch
      begun := h.begun
      distinct := (List.nodup_cons.1 h.distinct).2
      known := fun g hg => ?known
      planned := .inr ⟨rfl, waits, fun n hn => by cases hn⟩ }
  case known =>
    have hk := h.known g (.tail _ hg)
    have hne : g.number ≠ n := h.number_ne hg
    refine hk.unplanned ?_ rfl (Nat.le_refl _) (fun _ => Iff.rfl) (fun _ _ h => by cases h)
      (fun _ h => by cases h)
    exact hk.running.append
      [(s.clock, .refreshFailed e), (s.clock, .ended n .refresh (.error e))]
      (by simpa [completed] using hne)

/-! ## Storing a result -/

theorem schedule_of_not_looksAhead (ha : cache.looksAhead = false) (hs : s.scheduled = none) :
    s.schedule cache = if cache.refreshInterval = 0 then s else s.note .noBackground := by
  have hu : s.unschedule = s := by unfold State.unschedule; rw [hs]
  unfold State.schedule
  split
  · rfl
  · next hi =>
    have hb : cache.background = false := by simpa [looksAhead, hi] using ha
    have he : { s with scheduled := none } = s := by rw [← hs]
    rw [hu, he, hb]
    rfl

theorem schedule_of_looksAhead (ha : cache.looksAhead = true)
    (hw : ∀ task ∈ s.tasks, ∀ generation, task.job = .waiting generation →
      s.scheduled = some generation) :
    s.schedule cache =
      { s with
        generation := s.generation + 1
        scheduled := some (s.generation + 1)
        tasks := (s.tasks.filter fun task => !task.isWaiting) ++
          [⟨s.clock + cache.refreshInterval, .waiting (s.generation + 1)⟩] } := by
  simp only [looksAhead, ne_eq, decide_not, Bool.and_eq_true, Bool.not_eq_eq_eq_not, Bool.not_true,
    decide_eq_false_iff_not] at ha
  unfold State.schedule
  rw [if_neg ha.1, if_pos ha.2, unschedule_eq hw]

/-- The result is stored for a caller while nothing is due, and a replacement is planned. -/
theorem finishMiss_of_idle (ha : cache.looksAhead = true) (idle : s.tasks = []) (n : Nat)
    (entry : DatedSignature) :
    s.finishMiss cache s.epoch n (.ok entry) =
      { (s.note (.ended n .miss (.ok entry))).put n entry with
        generation := s.generation + 1
        scheduled := some (s.generation + 1)
        tasks := [⟨s.clock + cache.refreshInterval, .waiting (s.generation + 1)⟩] } := by
  have stored : s.finishMiss cache s.epoch n (.ok entry) =
      ((s.note (.ended n .miss (.ok entry))).put n entry).schedule cache := if_pos rfl
  have none : ((s.note (.ended n .miss (.ok entry))).put n entry).tasks = [] := idle
  rw [stored, schedule_of_looksAhead ha (by simp [none]), none]
  rfl

theorem Faithful.noBackground (h : Faithful cache hands s) (ha : cache.looksAhead = false)
    (hb : cache.background = false) : Faithful cache hands (s.note .noBackground) where
  legal := by
    refine h.legal.noBackground ⟨h.upto, fun since hw => ?_⟩ hb
    rw [h.legal.plan_eq_idle ha] at hw
    cases hw
  upto := upto_cons h.upto
  due := h.due
  slot := h.slot
  epoch := h.epoch
  begun := h.begun
  distinct := h.distinct
  known g hg := by
    obtain ⟨running, past, current⟩ := h.known g hg
    have running := running.append [(s.clock, .noBackground)] (by simp [completed])
    cases g <;> exact ⟨running, past, current⟩
  planned := h.planned.imp (fun ⟨hh, he, ht, hs⟩ => ⟨hh, he, ht, hs⟩)
    fun ⟨hr, hw, hg⟩ => ⟨hr, hw, hg⟩

section Store

variable {entry : DatedSignature}

/-- The state in which the result of a computation has been stored. -/
abbrev State.keep (s : State σ) (f : Flight) (entry : DatedSignature) : State σ :=
  (s.note (.ended f.number f.cause (.ok entry))).put f.number entry

theorem Faithful.legal_store (h : Faithful cache (f :: hands) s) (hf : f.Current s) :
    Legal cache (s.keep f entry).journal := by
  have hk := h.known f List.mem_cons_self
  exact h.legal.stored (h.onTime h.not_dropped) hk.running (hk.current.1 hf)

theorem Faithful.running_store (h : Faithful cache (f :: hands) s) {g : Flight}
    (hg : g ∈ hands ++ flightsOf s.tasks) :
    Running (s.keep f entry).journal g.number g.cause :=
  (h.known g (.tail _ hg)).running.append
    [(s.clock, .stored f.number entry), (s.clock, .ended f.number f.cause (.ok entry))]
    (by simpa [completed] using h.number_ne hg)

theorem Faithful.store_of_not_looksAhead (h : Faithful cache (f :: hands) s) (hf : f.Current s)
    (ha : cache.looksAhead = false) : Faithful cache hands (s.keep f entry) := by
  have hp := h.not_dropped
  have hi := h.legal.plan_eq_idle ha
  have hr : s.scheduled = none := by rw [hp.record, hi]; rfl
  have hi' : plan cache (s.keep f entry).journal = .idle := (h.legal_store hf).plan_eq_idle ha
  have waits := hp.waits
  rw [hi, ← hi'] at waits
  refine
    { legal := h.legal_store hf
      upto := upto_cons (upto_cons h.upto)
      due := h.due
      slot := rfl
      epoch := h.epoch
      begun := h.begun
      distinct := (List.nodup_cons.1 h.distinct).2
      known := fun g hg => ?known
      planned := .inr ⟨hi' ▸ hr, waits, fun n hn => by cases hi'.symm.trans hn⟩ }
  case known =>
    refine (h.known g (.tail _ hg)).unplanned (h.running_store hg) rfl (Nat.le_refl _)
      (fun _ => Iff.rfl) (fun _ _ hs => ?_) (fun _ hn => ?_)
    · cases hr.symm.trans hs
    · cases hi'.symm.trans hn

theorem Faithful.store_of_looksAhead (h : Faithful cache (f :: hands) s) (hf : f.Current s)
    (ha : cache.looksAhead = true) :
    Faithful cache hands ((s.keep f entry).schedule cache) := by
  have hp := h.not_dropped
  have hpl : plan cache (s.keep f entry).journal = .waiting s.clock := if_pos ha
  have hfl : flightsOf ((s.tasks.filter fun task => !task.isWaiting) ++
      [⟨s.clock + cache.refreshInterval, .waiting (s.generation + 1)⟩]) = flightsOf s.tasks := by
    simp [Job.flight?]
  rw [schedule_of_looksAhead (s := s.keep f entry) ha hp.scheduled_of_waiting]
  refine
    { legal := h.legal_store hf
      upto := upto_cons (upto_cons h.upto)
      due := fun task ht => ?due
      slot := rfl
      epoch := h.epoch
      begun := h.begun
      distinct := hfl ▸ (List.nodup_cons.1 h.distinct).2
      known := fun g hg => ?known
      planned := .inr ⟨?record, ?waits, fun n hn => by cases hpl.symm.trans hn⟩ }
  case due =>
    rcases List.mem_append.1 ht with ht | ht
    · exact h.due task (List.mem_filter.1 ht).1
    · rw [List.mem_singleton.1 ht]
      exact Nat.le_add_right _ _
  case known =>
    replace hg : g ∈ hands ++ flightsOf s.tasks := hfl ▸ hg
    refine (h.known g (.tail _ hg)).unplanned (h.running_store hg) rfl (Nat.le_succ _)
      (fun _ => Iff.rfl) (fun k hk hs => ?_) (fun _ hn => ?_)
    · cases hs
      exact Nat.lt_irrefl _ hk
    · cases hpl.symm.trans hn
  case record =>
    rw [hpl]
    rfl
  case waits =>
    rw [hpl]
    simp only [List.filter_append, List.filter_filter]
    simp [Task.isWaiting, Plan.waits]

/-- The result of a computation is stored, and what is planned is planned anew. -/
theorem Faithful.store (h : Faithful cache (f :: hands) s) (hf : f.Current s) :
    Faithful cache hands ((s.keep f entry).schedule cache) := by
  cases ha : cache.looksAhead with
  | true => exact h.store_of_looksAhead hf ha
  | false =>
    have hs : Faithful cache hands (s.keep f entry) := h.store_of_not_looksAhead hf ha
    have hr : (s.keep f entry).scheduled = none := by
      have := h.not_dropped.record
      rwa [h.legal.plan_eq_idle ha] at this
    rw [schedule_of_not_looksAhead ha hr]
    split
    · exact hs
    · next hz => exact hs.noBackground ha (by simpa [looksAhead, hz] using ha)

end Store

/-! ## All ends of a computation, and closing -/

/-- A computation whose result is not wanted changes nothing by its end. -/
theorem Flight.finish_of_not_current {outcome : Outcome} (h : ¬ f.Current s) :
    f.finish cache outcome s = s.note (.ended f.number f.cause outcome) := by
  cases f with
  | miss epoch n =>
    cases outcome with
    | error => rfl
    | ok => exact if_neg h
  | refresh generation n => exact if_neg h

/-- The end of a computation is noted, and if it is current, its result is stored, or its failure
noted if it is in the background. -/
theorem Flight.finish_cases (cache : SignatureCache σ) (f : Flight) (outcome : Outcome)
    (s : State σ) :
    ((f.Current s → f.cause = .miss ∧ ∃ e, outcome = .error e) ∧
      f.finish cache outcome s = s.note (.ended f.number f.cause outcome)) ∨
    (f.Current s ∧ ∃ entry, outcome = .ok entry ∧
      f.finish cache outcome s = (s.keep f entry).schedule cache) ∨
    (f.Current s ∧ ∃ generation n e, f = .refresh generation n ∧ outcome = .error e ∧
      f.finish cache outcome s =
        { s.note (.ended n .refresh (.error e)) with scheduled := none }.note
          (.refreshFailed e)) := by
  by_cases hf : f.Current s
  · cases outcome with
    | ok entry =>
      refine .inr (.inl ⟨hf, entry, rfl, ?_⟩)
      cases f with
      | miss | refresh => exact if_pos hf
    | error e =>
      cases f with
      | miss epoch n => exact .inl ⟨fun _ => ⟨rfl, e, rfl⟩, rfl⟩
      | refresh generation n =>
        exact .inr (.inr ⟨hf, generation, n, e, rfl, rfl, if_pos hf⟩)
  · exact .inl ⟨fun hc => absurd hc hf, Flight.finish_of_not_current hf⟩

theorem Faithful.finish (h : Faithful cache (f :: hands) s) (outcome : Outcome) :
    Faithful cache hands (f.finish cache outcome s) := by
  obtain ⟨hs, he⟩ | ⟨hf, entry, -, he⟩ | ⟨hf, generation, n, e, rfl, -, he⟩ :=
    f.finish_cases cache outcome s
  · rw [he]
    exact h.spent hs
  · rw [he]
    exact h.store hf
  · rw [he]
    exact h.refreshFailed hf

theorem Faithful.close (h : Faithful cache hands s) (hp : Planned cache hands s) :
    Faithful cache hands s.close := by
  unfold State.close
  rw [unschedule_eq hp.scheduled_of_waiting]
  have hfl := flightsOf_filter_not_waiting s.tasks
  refine
    { legal := h.legal.closed (h.onTime hp)
      upto := upto_cons h.upto
      due := fun task ht => h.due task (List.mem_filter.1 ht).1
      slot := rfl
      epoch := congrArg (· + 1) h.epoch
      begun := h.begun
      distinct := hfl ▸ h.distinct
      known := fun g hg => ?known
      planned := .inr ⟨rfl, ?waits, fun n hn => by cases hn⟩ }
  case known =>
    obtain ⟨running, past, -⟩ := h.known g (hfl ▸ hg)
    have hr := running.append [(s.clock, .closed)] (by simp [completed])
    cases g with
    | miss epoch n =>
      refine ⟨hr, Nat.le_succ_of_le past, iff_of_false (fun hc => ?_) fun hw => ?_⟩
      · rw [Flight.Past, ← show s.epoch + 1 = epoch from hc] at past
        exact Nat.not_succ_le_self _ past
      · exact hw (.inl (running.lt_begins h.legal))
    | refresh generation n =>
      refine ⟨hr, Nat.le_succ_of_le past, iff_of_false (fun hc => ?_) fun hw => ?_⟩
      · cases hc
      · cases hw
  case waits =>
    simp only [State.note, List.filter_filter]
    simp [plan, Plan.waits]

end RequestAuth.SignatureCache
