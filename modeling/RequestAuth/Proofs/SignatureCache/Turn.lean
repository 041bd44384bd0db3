import RequestAuth.Proofs.SignatureCache.Acts

/-!
# What one act of a cache carries out

The state outside is only changed by routines, and an act of a cache carries at most one of them
out, up to its next wait: one that has been under way, or a computation that begins. `Turn` says
which it was, and what is under way then.
-/

namespace RequestAuth.SignatureCache

variable {σ : Type} {cache : SignatureCache σ} {s s' s'' : State σ} {r : Routine σ Outcome}

/-- What a job has yet to carry out. -/
def Job.rest? : Job σ → Option (Routine σ Outcome)
  | .waiting _ => none
  | .refreshing _ _ rest | .calling _ _ _ rest => some rest

/-- What tasks have yet to carry out. -/
def restsOf (tasks : List (Task σ)) : List (Routine σ Outcome) := tasks.filterMap (·.job.rest?)

@[simp] theorem restsOf_append (tasks more : List (Task σ)) :
    restsOf (tasks ++ more) = restsOf tasks ++ restsOf more :=
  List.filterMap_append

theorem restsOf_subset {tasks tasks' : List (Task σ)} (h : tasks ⊆ tasks') :
    restsOf tasks ⊆ restsOf tasks' := by
  intro r hr
  obtain ⟨task, ht, hj⟩ := List.mem_filterMap.1 hr
  exact List.mem_filterMap.2 ⟨task, h ht, hj⟩

/-! ## Acts that carry nothing out -/

/-- Nothing has been carried out, or has begun. -/
structure Idle (s s' : State σ) : Prop where
  outside : s'.outside = s.outside
  begun : s'.begun = s.begun
  rests : restsOf s'.tasks ⊆ restsOf s.tasks

namespace Idle

theorem refl (s : State σ) : Idle s s := ⟨rfl, rfl, List.Subset.refl _⟩

theorem trans (h : Idle s s') (h' : Idle s' s'') : Idle s s'' :=
  ⟨h'.outside.trans h.outside, h'.begun.trans h.begun, fun _ hr => h.rests (h'.rests hr)⟩

theorem withTasks {tasks : List (Task σ)} (h : tasks ⊆ s.tasks) : Idle s { s with tasks } :=
  ⟨rfl, rfl, restsOf_subset h⟩

theorem unschedule (s : State σ) : Idle s s.unschedule := by
  unfold State.unschedule
  split
  · exact .refl s
  · exact .withTasks (List.filter_subset_self _)

theorem schedule (s : State σ) : Idle s (s.schedule cache) := by
  have h := Idle.unschedule s
  unfold State.schedule
  split
  · exact .refl s
  · split
    · refine ⟨h.outside, h.begun, ?_⟩
      rw [restsOf_append]
      exact List.append_subset.2 ⟨h.rests, List.nil_subset _⟩
    · exact ⟨h.outside, h.begun, h.rests⟩

theorem finish (f : Flight) (outcome : Outcome) (s : State σ) :
    Idle s (f.finish cache outcome s) := by
  obtain ⟨-, he⟩ | ⟨-, entry, rfl, he⟩ | ⟨-, generation, m, e, rfl, rfl, he⟩ :=
    f.finish_cases cache outcome s
  · rw [he]
    exact ⟨rfl, rfl, List.Subset.refl _⟩
  · rw [he]
    have kept : Idle s (s.keep f entry) := ⟨rfl, rfl, List.Subset.refl _⟩
    exact kept.trans (.schedule _)
  · rw [he]
    exact ⟨rfl, rfl, List.Subset.refl _⟩

theorem abandon (s : State σ) : Idle s s.abandon := by
  unfold State.abandon
  split
  · exact ⟨rfl, rfl, List.nil_subset _⟩
  · exact .refl s

theorem release (s : State σ) : Idle s { s with handles := s.handles - 1 }.abandon :=
  have fewer : Idle s { s with handles := s.handles - 1 } := ⟨rfl, rfl, List.Subset.refl _⟩
  fewer.trans (.abandon _)

theorem close (s : State σ) : Idle s s.close :=
  have h := Idle.unschedule s
  ⟨h.outside, h.begun, h.rests⟩

end Idle

/-! ## Carrying a routine out -/

/-- The second state comes of the first by carrying a routine out up to a wait or to its end. -/
structure Carried (now : Nat) (r : Routine σ Outcome) (s s' : State σ) : Prop where
  outside : s'.outside = (r.run now s.outside).2
  begun : s'.begun = s.begun
  rests : ∀ q ∈ restsOf s'.tasks, q ∈ restsOf s.tasks ∨ ∃ d, (r.run now s.outside).1 = .waiting d q

theorem Carried.idle {now : Nat} (h : Carried now r s s') (h' : Idle s' s'') :
    Carried now r s s'' :=
  ⟨h'.outside.trans h.outside, h'.begun.trans h.begun, fun q hq => h.rests q (h'.rests hq)⟩

theorem carried_carry {hold : Routine σ Outcome → Job σ} {finish : Outcome → State σ → State σ}
    (hh : ∀ rest, (hold rest).rest? = some rest) (hf : ∀ outcome s, Idle s (finish outcome s))
    (s : State σ) : Carried s.clock r s (s.carry r hold finish) := by
  unfold State.carry
  split
  · next outcome outside hr =>
    have ended : Carried s.clock r s { s with outside } := by
      refine ⟨?_, rfl, fun q hq => .inl hq⟩
      rw [hr]
    exact ended.idle (hf outcome _)
  · next d rest outside hr =>
    refine ⟨?_, rfl, fun q hq => ?_⟩
    · rw [hr]
    · rw [restsOf_append] at hq
      refine (List.mem_append.1 hq).imp_right fun hq => ⟨d, ?_⟩
      obtain ⟨task, ht, hj⟩ := List.mem_filterMap.1 hq
      rw [List.mem_singleton.1 ht, hh] at hj
      cases hj
      rw [hr]

theorem carried_carryRefresh (generation n : Nat) (s : State σ) :
    Carried s.clock r s (s.carryRefresh cache generation n r) :=
  carried_carry (fun _ => rfl) (fun outcome s => .finish (.refresh generation n) outcome s) s

theorem carried_carryCall (id epoch n : Nat) (s : State σ) :
    Carried s.clock r s (s.carryCall cache id epoch n r) := by
  refine carried_carry (fun _ => rfl) (fun outcome s => ?_) s
  have ended : Idle s (s.finishMiss cache epoch n outcome) := .finish (.miss epoch n) outcome s
  exact ⟨ended.outside, ended.begun, ended.rests⟩

/-! ## Acts -/

/-- What an act of a cache has carried out. -/
inductive Turn (cache : SignatureCache σ) (s s' : State σ) : Prop where
  | idle (h : Idle s s')
  /-- A routine has gone on that was under way. -/
  | resumed (now : Nat) {r : Routine σ Outcome} (under_way : r ∈ restsOf s.tasks)
      (h : Carried now r s s')
  /-- A computation has begun. -/
  | began (now : Nat) (h : Carried now cache.compute { s with begun := s.begun + 1 } s')

theorem turn_start (id : Nat) (s : State σ) : Turn cache s (cache.start id s) := by
  unfold SignatureCache.start
  split
  · exact .idle ⟨rfl, rfl, List.Subset.refl _⟩
  · have carried : Carried s.clock cache.compute (s.begin .miss).2
        (State.carryCall cache id s.epoch s.begun cache.compute (s.begin .miss).2) :=
      carried_carryCall id s.epoch s.begun (s.begin .miss).2
    exact .began s.clock ⟨carried.outside, carried.begun, carried.rests⟩

theorem turn_fire {before after : List (Task σ)} {task : Task σ}
    (held : s.tasks = before ++ task :: after) :
    Turn cache s (s.fire cache task (before ++ after)) := by
  have fewer : before ++ after ⊆ s.tasks := fun other ho => held ▸ mem_of_mem_others ho
  have rests := restsOf_subset fewer
  have mem : ∀ r, task.job.rest? = some r → r ∈ restsOf s.tasks := fun r hr =>
    List.mem_filterMap.2 ⟨task, by simp [held], hr⟩
  have resumed {r : Routine σ Outcome} {now : Nat} {s' : State σ} (hr : task.job.rest? = some r)
      (h : Carried now r { s with clock := max s.clock task.due, tasks := before ++ after } s') :
      Turn cache s s'.abandon := by
    refine .resumed now (mem r hr) (Carried.idle ?_ (.abandon s'))
    exact ⟨h.outside, h.begun, fun q hq => (h.rests q hq).imp_left fun hq => rests hq⟩
  unfold State.fire
  obtain ⟨due, job⟩ := task
  cases job with
  | waiting generation =>
    unfold State.resume
    dsimp only
    split
    · have carried : Carried (max s.clock due) cache.compute
          ({ s with clock := max s.clock due, tasks := before ++ after }.begin .refresh).2
          (State.carryRefresh cache generation s.begun cache.compute _) :=
        carried_carryRefresh generation s.begun
          ({ s with clock := max s.clock due, tasks := before ++ after }.begin .refresh).2
      refine .began (max s.clock due) (Carried.idle ?_ (.abandon _))
      exact ⟨carried.outside, carried.begun,
        fun q hq => (carried.rests q hq).imp_left fun hq => rests hq⟩
    · have waited : Idle s { s with clock := max s.clock due, tasks := before ++ after } :=
        ⟨rfl, rfl, rests⟩
      exact .idle (waited.trans (.abandon _))
  | refreshing generation n rest => exact resumed rfl (carried_carryRefresh generation n _)
  | calling id epoch n rest => exact resumed rfl (carried_carryCall id epoch n _)

end RequestAuth.SignatureCache
