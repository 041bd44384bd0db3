import RequestAuth.Proofs.SignatureCache.Calls

/-!
# Closing a cache is a barrier

`barrier_of_closed` is about any close in the past of a cache, however many computations were under
way at it and whatever has happened since, other closes included. `Barrier` lists what such a close
keeps out: computations that began before it are not stored, their ends change nothing, and the
cache serves nothing and plans nothing until a caller's computation that began after it ends well.
Callers are told what their computations come to all the same.
-/

namespace RequestAuth.SignatureCache

open Journal

variable {σ : Type} {cache : SignatureCache σ} {newer older : Journal} {t : Nat} {s : State σ}
  {c : Scene σ}

/-- A close separates what had happened to a cache, `older`, from what has happened since,
`newer`. -/
structure Barrier (cache : SignatureCache σ) (newer older : Journal) (c : Scene σ) : Prop where
  /-- No computation that began before is stored after. -/
  not_stored : ∀ tb n cause, (tb, Event.began n cause) ∈ older →
    ∀ ts entry, (ts, .stored n entry) ∉ newer
  /-- When a computation that began before ends, whenever that is and whatever comes of it, nothing
  is changed but the journal: nothing is stored, and nothing planned. -/
  finish_eq : ∀ f ∈ c.flights, (∃ tb, (tb, .began f.number f.cause) ∈ older) →
    ∀ outcome clock outside tasks, f.finish cache outcome { c.state with clock, outside, tasks } =
      { c.state with clock, outside, tasks }.note (.ended f.number f.cause outcome)
  /-- Nothing is served or planned until a caller's computation that began after has ended well. -/
  shut : (∀ tb n te entry, (tb, Event.began n .miss) ∈ newer →
      (te, .ended n .miss (.ok entry)) ∉ newer) →
    cache.served? c.state = none ∧ c.state.isScheduled = false
  /-- A caller who waits for a computation is told its outcome. -/
  told_now : ∀ s, cache.served? s = none →
    ∃ te, (te, .ended s.begun .miss (cache.fetch s).1) ∈ (cache.fetch s).2.journal
  /-- A call under way is told the outcome of its own computation, whatever others do until it is
  asked for. -/
  told_later : ∀ id n, callsOf id c.state.tasks = [n] → c.state.answers.lookup id = none →
    ∀ c', Steps cache (· ≠ id) c c' → ∃ outcome te,
      (cache.collect id c'.state).1 = some (some outcome) ∧
      (te, .ended n .miss outcome) ∈ (cache.collect id c'.state).2.journal

theorem served?_eq_none (h : s.slot = none) : cache.served? s = none := by
  unfold served?
  rw [h]

theorem isScheduled_eq_false (h : s.scheduled = none) : s.isScheduled = false := by
  unfold State.isScheduled
  rw [h]
  rfl

theorem Faithful.shut {hands : List Flight} (h : Faithful cache hands s)
    (he : entry? s.journal = none) : cache.served? s = none ∧ s.isScheduled = false := by
  refine ⟨served?_eq_none (h.slot.trans he), isScheduled_eq_false ?_⟩
  rcases h.planned with hd | hp
  · exact hd.scheduled
  · rw [hp.record, h.legal.plan_eq_idle_of_entry? he]
    rfl

/-- A computation that began before the cache was closed is not current. -/
theorem Faithful.not_current {f : Flight} {tb : Nat} (h : Faithful cache c.awaited c.state)
    (hj : c.state.journal = newer ++ (t, .closed) :: older) (hf : f ∈ c.flights)
    (hb : (tb, .began f.number f.cause) ∈ older) : ¬ f.Current c.state := by
  have legal := h.legal
  rw [hj] at legal
  intro hc
  have wanted := (h.known f hf).current.1 hc
  rw [hj] at wanted
  have hn := (legal.of_closed (List.suffix_append _ _)).lt_begins hb
  exact wanted.not_closedSince legal (closedSince_append_closed newer hn)

theorem barrier_of_closed (h : Reachable cache c)
    (hj : c.state.journal = newer ++ (t, .closed) :: older) : Barrier cache newer older c := by
  have faithful := h.atWork.faithful
  have legal := faithful.legal
  rw [hj] at legal
  refine ⟨fun tb n cause hb ts entry => legal.not_stored_after_closed hb, ?_, fun hn => ?_,
    fun s miss => fetch_outcome miss, ?_⟩
  · rintro f hf ⟨tb, hb⟩ outcome clock outside tasks
    have hc := faithful.not_current hj hf hb
    refine f.finish_of_not_current ?_
    cases f <;> exact hc
  · refine faithful.shut ?_
    rw [hj]
    refine entry?_append_closed fun ts m entry hs => ?_
    obtain ⟨n, tb, te, entry', hb, he⟩ := legal.reopened hs
    exact hn tb n te entry' hb he
  · intro id n calls answer c' steps
    exact (Steps.owed steps (.inl ⟨calls, answer⟩)).collect

/-- A call is under way when the cache is closed, and the cache is closed again. -/
theorem barrier_sample :
    Barrier sample [(0, .closed)] [(0, .began 0 .miss)]
      ⟨(sample.performAll [.start 0, .close, .close] { outside := () }).2, []⟩ :=
  barrier_of_closed (t := 0) ((Reachable.initial sample ()).performAll _) rfl

end RequestAuth.SignatureCache
