import RequestAuth.Proofs.Ensures
import RequestAuth.Proofs.SignatureCache.Faithful
import RequestAuth.Proofs.SignatureCache.Frame

/-!
# What holds of whatever a cache holds

Let computing a signature ensure `post` of its outcome, which stays so as the state outside moves on
(`Contract`). Then `post` is `Upheld`: it holds of the entry and of what calls are answered by, and
whatever is under way ensures it. Each act of a cache keeps this up, also where others act on the
state outside in between.
-/

namespace RequestAuth.SignatureCache

variable {σ : Type} {cache : SignatureCache σ} {s : State σ}

theorem takeAnswer?_eq_some {id : Nat} {answer : Option Outcome}
    {answers rest : List (Nat × Option Outcome)}
    (h : takeAnswer? id answers = some (answer, rest)) :
    (id, answer) ∈ answers ∧ rest ⊆ answers := by
  induction answers generalizing rest with
  | nil => cases h
  | cons x answers ih =>
    obtain ⟨i, a⟩ := x
    by_cases hi : i = id
    · obtain ⟨rfl, rfl⟩ : a = answer ∧ answers = rest := by simpa [takeAnswer?, hi] using h
      exact ⟨hi ▸ List.mem_cons_self, List.subset_cons_self _ _⟩
    · simp only [takeAnswer?, if_neg hi, Option.map_eq_some_iff] at h
      obtain ⟨⟨found, others⟩, hf, he⟩ := h
      cases he
      obtain ⟨hm, hs⟩ := ih hf
      exact ⟨.tail _ hm, List.cons_subset_cons _ hs⟩

variable [Preorder σ] {post : Outcome → σ → Prop} {first : σ}

/-- What the computation of signatures ensures from a state on. -/
structure Contract (cache : SignatureCache σ) (post : Outcome → σ → Prop) (first : σ) : Prop where
  later : ∀ outcome, Monotone (post outcome)
  compute : cache.compute.Ensures post first

/-- What a job goes on with ensures this. -/
def Job.Ensures (post : Outcome → σ → Prop) (outside : σ) : Job σ → Prop
  | .waiting _ => True
  | .refreshing _ _ rest | .calling _ _ _ rest => rest.Ensures post outside

/-- The state holds nothing else, and goes on with nothing else. -/
structure Upheld (post : Outcome → σ → Prop) (first : σ) (s : State σ) : Prop where
  outside : first ≤ s.outside
  slot : ∀ stored, s.slot = some stored → post (.ok stored.entry) s.outside
  answers : ∀ id outcome, (id, some outcome) ∈ s.answers → post outcome s.outside
  tasks : ∀ task ∈ s.tasks, task.job.Ensures post s.outside

theorem Job.Ensures.later {job : Job σ} {outside outside' : σ} (h : job.Ensures post outside)
    (on : outside ≤ outside') : job.Ensures post outside' := by
  cases job with
  | waiting => exact h
  | refreshing | calling => exact Routine.Ensures.later h on

namespace Upheld

theorem initial (post : Outcome → σ → Prop) (first : σ) :
    Upheld post first { outside := first } :=
  ⟨le_rfl, nofun, by simp, by simp⟩

theorem moveOn {outside : σ} (h : Upheld post first s) (contract : Contract cache post first)
    (on : s.outside ≤ outside) : Upheld post first { s with outside } where
  outside := h.outside.trans on
  slot stored hs := contract.later _ on (h.slot stored hs)
  answers id outcome ha := contract.later _ on (h.answers id outcome ha)
  tasks task ht := (h.tasks task ht).later on

theorem withTasks {tasks : List (Task σ)} (h : Upheld post first s)
    (ht : ∀ task ∈ tasks, task ∈ s.tasks ∨ task.job.Ensures post s.outside) :
    Upheld post first { s with tasks } where
  outside := h.outside
  slot := h.slot
  answers := h.answers
  tasks task hm := (ht task hm).elim (h.tasks task) id

theorem answer {id : Nat} {outcome : Option Outcome} (h : Upheld post first s)
    (hp : ∀ o, outcome = some o → post o s.outside) :
    Upheld post first { s with answers := (id, outcome) :: s.answers } where
  outside := h.outside
  slot := h.slot
  tasks := h.tasks
  answers i o ha := by
    rcases List.mem_cons.1 ha with he | ha
    · cases he
      exact hp o rfl
    · exact h.answers i o ha

theorem note (h : Upheld post first s) (event : Event) : Upheld post first (s.note event) :=
  ⟨h.outside, h.slot, h.answers, h.tasks⟩

theorem unschedule (h : Upheld post first s) : Upheld post first s.unschedule := by
  unfold State.unschedule
  split
  · exact h
  · exact h.withTasks fun task ht => .inl (List.mem_filter.1 ht).1

theorem schedule (h : Upheld post first s) : Upheld post first (s.schedule cache) := by
  have hu := h.unschedule
  unfold State.schedule
  split
  · exact h
  · split
    · refine ⟨hu.outside, hu.slot, hu.answers, fun task ht => ?_⟩
      rcases List.mem_append.1 ht with ht | ht
      · exact hu.tasks task ht
      · rw [List.mem_singleton.1 ht]
        exact trivial
    · exact ⟨hu.outside, hu.slot, hu.answers, hu.tasks⟩

theorem put {n : Nat} {entry : DatedSignature} (h : Upheld post first s)
    (hp : post (.ok entry) s.outside) : Upheld post first (s.put n entry) where
  outside := h.outside
  slot stored hs := by
    cases hs
    exact hp
  answers := h.answers
  tasks := h.tasks

theorem finishMiss {epoch n : Nat} {outcome : Outcome} (h : Upheld post first s)
    (hp : post outcome s.outside) : Upheld post first (s.finishMiss cache epoch n outcome) := by
  have hn := h.note (.ended n .miss outcome)
  cases outcome with
  | error => exact hn
  | ok entry =>
    simp only [State.finishMiss]
    split
    · exact (hn.put hp).schedule
    · exact hn

theorem finishRefresh {generation n : Nat} {outcome : Outcome} (h : Upheld post first s)
    (hp : post outcome s.outside) :
    Upheld post first (s.finishRefresh cache generation n outcome) := by
  have hn := h.note (.ended n .refresh outcome)
  simp only [State.finishRefresh]
  split
  · split
    · exact ⟨hn.outside, hn.slot, hn.answers, hn.tasks⟩
    · exact (hn.put hp).schedule
  · exact hn

/-! ## Computations -/

theorem begin (h : Upheld post first s) (cause : Cause) : Upheld post first (s.begin cause).2 :=
  ⟨h.outside, h.slot, h.answers, h.tasks⟩

theorem carry {rest : Routine σ Outcome} {hold : Routine σ Outcome → Job σ}
    {finish : Outcome → State σ → State σ} (h : Upheld post first s)
    (contract : Contract cache post first) (hr : rest.Ensures post s.outside)
    (hh : ∀ rest outside, rest.Ensures post outside → (hold rest).Ensures post outside)
    (hf : ∀ outcome s, Upheld post first s → post outcome s.outside →
      Upheld post first (finish outcome s)) :
    Upheld post first (s.carry rest hold finish) := by
  -- the computation moves the state outside on, whether it ends or waits
  obtain ⟨on, hp⟩ : s.outside ≤ _ ∧ _ := hr.run s.clock
  have hm := h.moveOn contract on
  unfold State.carry
  split
  · next outcome outside he =>
    simp only [he] at hp hm
    exact hf outcome _ hm hp
  · next d rest outside he =>
    simp only [he] at hp hm
    refine hm.withTasks fun task ht => ?_
    rcases List.mem_append.1 ht with ht | ht
    · exact .inl ht
    · rw [List.mem_singleton.1 ht]
      exact .inr (hh rest outside hp)

theorem carryRefresh {generation n : Nat} {rest : Routine σ Outcome} (h : Upheld post first s)
    (contract : Contract cache post first) (hr : rest.Ensures post s.outside) :
    Upheld post first (s.carryRefresh cache generation n rest) :=
  h.carry contract hr (fun _ _ hr => hr) fun _ _ h hp => h.finishRefresh hp

theorem carryCall {id epoch n : Nat} {rest : Routine σ Outcome} (h : Upheld post first s)
    (contract : Contract cache post first) (hr : rest.Ensures post s.outside) :
    Upheld post first (s.carryCall cache id epoch n rest) := by
  refine h.carry contract hr (fun _ _ hr => hr) fun outcome s h hp => ?_
  have hf : Upheld post first (s.finishMiss cache epoch n outcome) := h.finishMiss hp
  refine hf.answer fun o ho => ?_
  cases ho
  simpa using hp

theorem abandon (h : Upheld post first s) : Upheld post first s.abandon := by
  unfold State.abandon
  split
  · exact ⟨h.outside, h.slot, h.answers, by simp⟩
  · exact h

theorem resume {job : Job σ} (h : Upheld post first s) (contract : Contract cache post first)
    (hj : job.Ensures post s.outside) : Upheld post first (s.resume cache job) := by
  cases job with
  | waiting generation =>
    by_cases hg : s.generation = generation
    · have hb : Upheld post first (s.begin .refresh).2 := h.begin .refresh
      have he : s.resume cache (.waiting generation) =
          State.carryRefresh cache generation s.begun cache.compute (s.begin .refresh).2 :=
        if_pos hg
      rw [he]
      exact hb.carryRefresh contract (contract.compute.later hb.outside)
    · have he : s.resume cache (.waiting generation) = s := if_neg hg
      rwa [he]
  | refreshing => exact h.carryRefresh contract hj
  | calling => exact h.carryCall contract hj

theorem fire {before after : List (Task σ)} {task : Task σ} (h : Upheld post first s)
    (contract : Contract cache post first) (held : s.tasks = before ++ task :: after) :
    Upheld post first (s.fire cache task (before ++ after)) := by
  have hj : task.job.Ensures post s.outside := h.tasks task (by simp [held])
  have ht : Upheld post first { s with tasks := before ++ after } :=
    h.withTasks fun other ho => .inl (held ▸ mem_of_mem_others ho)
  have hs : Upheld post first { s with clock := max s.clock task.due, tasks := before ++ after } :=
    ⟨ht.outside, ht.slot, ht.answers, ht.tasks⟩
  exact (hs.resume contract hj).abandon

/-! ## Acts of callers -/

theorem served {entry : DatedSignature} (h : Upheld post first s)
    (hs : cache.served? s = some entry) : post (.ok entry) s.outside := by
  unfold served? at hs
  split at hs
  · cases hs
  · next stored hslot =>
    split at hs
    · cases hs
      exact h.slot stored hslot
    · cases hs

theorem start {id : Nat} (h : Upheld post first s) (contract : Contract cache post first) :
    Upheld post first (cache.start id s) := by
  unfold SignatureCache.start
  split
  · next entry he =>
    refine h.answer fun o ho => ?_
    cases ho
    exact h.served he
  · exact (h.begin .miss).carryCall contract (contract.compute.later h.outside)

theorem close (h : Upheld post first s) : Upheld post first s.close :=
  have hu := h.unschedule
  ⟨hu.outside, nofun, hu.answers, hu.tasks⟩

theorem takeCall {id : Nat} {call : Call σ} {tasks : List (Task σ)} (h : Upheld post first s)
    (found : takeCall? id s.tasks = some (call, tasks)) :
    Upheld post first { s with tasks } ∧ call.rest.Ensures post s.outside := by
  obtain ⟨before, after, held, rfl⟩ := takeCall?_eq_some found
  refine ⟨h.withTasks fun other ho => .inl (held ▸ mem_of_mem_others ho), ?_⟩
  exact h.tasks ⟨call.due, .calling id call.epoch call.number call.rest⟩ (by simp [held])

theorem takeAnswer {id : Nat} {answer : Option Outcome} {answers : List (Nat × Option Outcome)}
    (h : Upheld post first s) (found : takeAnswer? id s.answers = some (answer, answers)) :
    Upheld post first { s with answers } ∧ ∀ o, answer = some o → post o s.outside := by
  obtain ⟨told, sub⟩ := takeAnswer?_eq_some found
  refine ⟨⟨h.outside, h.slot, fun i o ho => h.answers i o (sub ho), h.tasks⟩, fun o ho => ?_⟩
  exact h.answers id o (ho ▸ told)

theorem withHandles (h : Upheld post first s) (handles : Nat) :
    Upheld post first { s with handles } :=
  ⟨h.outside, h.slot, h.answers, h.tasks⟩

end Upheld

end RequestAuth.SignatureCache
