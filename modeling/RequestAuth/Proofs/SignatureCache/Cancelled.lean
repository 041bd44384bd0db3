import RequestAuth.Proofs.SignatureCache.Mirror

/-!
# Nobody notices a call that was cancelled

A run in which a call is sent off, and is cancelled before it has come to its end, is compared with
the same run without the call. While the call is under way it is hidden in the sense of `Mirrors`,
which every action of others keeps up (`Mirrors.perform`) and so does the time that passes
(`Mirrors.advanceTo`); cancelling it leaves no trace but the number of computations that have begun
(`Mirrors.cancelHidden`). So at every step there is the same to be seen, and whatever else is done
is answered alike (`unseen_of_cancelled`).

What a computation comes to may depend on what is seen of the outside state, and on the time, but
not on what is hidden there, such as how many computations have begun. Nor may anything be seen of a
computation before it ends.
-/

namespace RequestAuth.SignatureCache

variable {σ ρ α : Type} {cache : SignatureCache σ} {view : σ → ρ} {id more : Nat} {hidden : Bool}
  {s s' : State σ}

/-! ## Letting time pass -/

namespace Mirrors

theorem advanceTo {t : Nat} (h : Mirrors view id hidden more s s')
    (compute : cache.compute.Alike view cache.compute) (ht : s.clock ≤ t) :
    Mirrors view id hidden more (s.advanceTo cache t) (s'.advanceTo cache t) ∨
      (hidden = true ∧ callsOf id (s.advanceTo cache t).tasks = []) := by
  have pass {s s' : State σ} (h : Mirrors view id hidden more s s')
      (later : ∀ task ∈ s.tasks, t < task.due) :
      Mirrors view id hidden more { s with clock := max s.clock t } (s'.advanceTo cache t) := by
    rw [advanceTo_of_later (h.tasks.later later), h.clock]
    refine { h with clock := rfl, due := fun task hm => ?_ }
    exact Nat.max_le.2 ⟨h.due task hm, Nat.le_of_lt (later task hm)⟩
  fun_induction State.advanceTo cache t s generalizing s' with
  | case1 s hp => exact .inl (pass h (by simp [popFirst_eq_none hp]))
  | case3 s first others hp hd => exact .inl (pass h (later_of_popFirst hp (Nat.lt_of_not_le hd)))
  | case2 s first others hp hd ih =>
    have on : (s.fire cache first others).clock ≤ t := by simpa using ⟨ht, hd⟩
    obtain ⟨rfl, due, epoch, n, r, rfl, quiet, rest⟩ | ⟨job', others', hp', hj, rest⟩ :=
      h.tasks.popFirst hp
    · rcases h.fireHidden cache hp quiet rest with fired | gone
      · -- the clock of the other cache catches up once something else is due
        have caught_up : State.advanceTo cache t { s' with clock := max s.clock due } =
            s'.advanceTo cache t := by
          apply advanceTo_withClock
          · rw [h.clock]
            exact Nat.le_max_left _ _
          · intro task' hm
            obtain ⟨task, hm, he⟩ := rest.exists_due hm
            rw [← he]
            exact (h.atDue hp (fun _ => rfl) rest).due task hm
          · exact Nat.max_le.2 ⟨ht, hd⟩
        rw [← caught_up]
        exact ih fired on
      · exact .inr ⟨rfl, gone_advanceTo t gone⟩
    · rw [advanceTo_of_due hp' hd]
      exact ih (h.fire compute hp hj rest) on

/-- A caller waits for a routine. -/
theorem complete {r r' : Routine σ α} (h : Mirrors view id hidden more s s') (ahead : Ahead s)
    (compute : cache.compute.Alike view cache.compute) (alike : r.Alike view r') :
    ((s.complete cache r).1 = (s'.complete cache r').1 ∧
        Mirrors view id hidden more (s.complete cache r).2 (s'.complete cache r').2) ∨
      (hidden = true ∧ callsOf id (s.complete cache r).2.tasks = []) := by
  induction r using Routine.run_induct generalizing s s' r' with
  | h r ih =>
    obtain ⟨same, look⟩ := alike.run h.outside.symm s.clock
    have moved := h.moveOn look.symm
    have ahead' : Ahead s' := by
      intro task' ht
      rw [h.clock]
      exact h.tasks.later ahead task' ht
    rcases hr : r.run s.clock s.outside with ⟨progress, outside⟩
    rcases hr' : r'.run s.clock s'.outside with ⟨progress', outside'⟩
    rw [hr, hr'] at same moved
    rw [← h.clock] at hr'
    cases same with
    | finished a =>
      rw [complete_of_finished ahead hr, complete_of_finished ahead' hr']
      exact .inl ⟨rfl, moved⟩
    | @waiting d next next' alike' =>
      rw [complete_of_waiting ahead hr, complete_of_waiting ahead' hr']
      have later : s.clock ≤ s.clock + d := Nat.le_add_right _ _
      have due : s'.clock + d = s.clock + d := congrArg (· + d) h.clock
      have passed := moved.advanceTo compute later
      unfold State.advance
      dsimp only
      rw [due]
      rcases passed with passed | ⟨hh, gone⟩
      · exact ih _ _ _ _ _ hr passed (ahead_advanceTo later) alike'
      · exact .inr ⟨hh, gone_complete next gone⟩

/-! ## Acts of callers -/

theorem fetch (h : Mirrors view id hidden more s s') (ahead : Ahead s)
    (compute : cache.compute.Alike view cache.compute) :
    ((cache.fetch s).1 = (cache.fetch s').1 ∧
        Mirrors view id hidden more (cache.fetch s).2 (cache.fetch s').2) ∨
      (hidden = true ∧ callsOf id (cache.fetch s).2.tasks = []) := by
  unfold SignatureCache.fetch
  rw [h.served?, h.epoch]
  cases cache.served? s with
  | some entry => exact .inl ⟨rfl, h⟩
  | none =>
    have begun : Ahead (s.begin .miss).2 := ahead
    rcases (h.begin .miss).complete begun compute compute with ⟨same, ended⟩ | ⟨hh, gone⟩
    · dsimp only
      rw [← same]
      exact .inl ⟨rfl, ended.finishMiss cache _ _ _ _⟩
    · exact .inr ⟨hh, (callsOf_finishMiss id _ _ _ _).trans gone⟩

theorem start {i : Nat} (h : Mirrors view id hidden more s s') (hi : i ≠ id)
    (compute : cache.compute.Alike view cache.compute) :
    Mirrors view id hidden more (cache.start i s) (cache.start i s') := by
  unfold SignatureCache.start
  cases found : cache.served? s with
  | some entry =>
    rw [h.served?.trans found]
    exact h.answer hi _
  | none =>
    rw [h.served?.trans found]
    dsimp only
    rw [h.epoch]
    exact (h.begin .miss).carryCall hi s.epoch _ _ compute

theorem takeAnswer_filter {i : Nat} (hi : i ≠ id) (answers : List (Nat × Option Outcome)) :
    takeAnswer? i (answers.filter (·.1 ≠ id)) = (takeAnswer? i answers).map fun (answer, rest) =>
      (answer, rest.filter (·.1 ≠ id)) := by
  induction answers with
  | nil => rfl
  | cons x answers ih =>
    obtain ⟨j, answer⟩ := x
    by_cases hj : j = id
    · have hne : j ≠ i := fun he => hi (he.symm.trans hj)
      rw [List.filter_cons_of_neg (by simpa using hj), ih, takeAnswer?, if_neg hne]
      cases takeAnswer? i answers with
      | none => rfl
      | some found => simp [hj]
    · rw [List.filter_cons_of_pos (by simpa using hj), takeAnswer?, takeAnswer?]
      split
      · rfl
      · rw [ih]
        cases takeAnswer? i answers with
        | none => rfl
        | some found => simp [hj]

theorem collect {i : Nat} (h : Mirrors view id hidden more s s') (hi : i ≠ id)
    (compute : cache.compute.Alike view cache.compute) :
    ((cache.collect i s).1 = (cache.collect i s').1 ∧
        Mirrors view id hidden more (cache.collect i s).2 (cache.collect i s').2) ∨
      (hidden = true ∧ callsOf id (cache.collect i s).2.tasks = []) := by
  have answers := takeAnswer_filter hi s.answers
  rw [← h.answers] at answers
  unfold SignatureCache.collect
  cases told : takeAnswer? i s.answers with
  | some found =>
    rw [answers, told]
    exact .inl ⟨rfl, { h with answers := rfl }⟩
  | none =>
    rw [answers, told]
    dsimp only [Option.map_none]
    rcases h.tasks.takeCall? hi with ⟨hn, hn'⟩ |
      ⟨call, n', rest', others, others', hs, hs', alike, rest⟩
    · rw [hn, hn']
      exact .inl ⟨rfl, h⟩
    · rw [hs, hs']
      have listed : ∀ task ∈ others, task ∈ s.tasks := by
        obtain ⟨before, after, held, rfl⟩ := takeCall?_eq_some hs
        exact fun task hm => held ▸ mem_of_mem_others hm
      have due : s.clock ≤ call.due := by
        obtain ⟨before, after, held, -⟩ := takeCall?_eq_some hs
        exact h.due ⟨call.due, .calling i call.epoch call.number call.rest⟩ (by simp [held])
      have taken : Mirrors view id hidden more
          { s with tasks := others, handles := s.handles + 1 }
          { s' with tasks := others', handles := s'.handles + 1 } :=
        { h with
          tasks := rest, handles := congrArg (· + 1) h.handles
          held := fun _ => Nat.succ_ne_zero _
          due := fun task hm => h.due task (listed task hm) }
      dsimp only
      rcases taken.advanceTo compute due with reached | ⟨hh, gone⟩
      · have onward : Onward { s with tasks := others, handles := s.handles + 1 }
            (State.complete cache call.rest (State.advanceTo cache call.due
              { s with tasks := others, handles := s.handles + 1 })).2 :=
          ((Onward.refl _).advanceTo call.due).complete call.rest
        rcases reached.complete (ahead_advanceTo due) compute alike with ⟨same, ended⟩ | ⟨hh, gone⟩
        · rw [← same]
          generalize State.complete cache call.rest _ = e at onward ended ⊢
          generalize State.complete cache rest' _ = e' at ended ⊢
          have finished := ended.finishMiss cache call.epoch call.number n' e.1
          have kept : (e.2.finishMiss cache call.epoch call.number e.1).handles = s.handles + 1 :=
            ((onward.note _).finish (.miss call.epoch call.number) e.1).handles
          refine .inl ⟨rfl, abandon ?_⟩
          exact
            { finished with
              handles := congrArg (· - 1) finished.handles
              held := fun hh => by rw [kept]; exact h.held hh }
        · exact .inr ⟨hh, (callsOf_abandon id _).trans ((callsOf_finishMiss id _ _ _ _).trans gone)⟩
      · exact .inr ⟨hh, (callsOf_abandon id _).trans
          ((callsOf_finishMiss id _ _ _ _).trans (gone_complete call.rest gone))⟩

theorem cancel {i : Nat} (h : Mirrors view id hidden more s s') (hi : i ≠ id) :
    (SignatureCache.cancel i s).1 = (SignatureCache.cancel i s').1 ∧
      Mirrors view id hidden more (SignatureCache.cancel i s).2 (SignatureCache.cancel i s').2 := by
  have answers := takeAnswer_filter hi s.answers
  rw [← h.answers] at answers
  unfold SignatureCache.cancel
  cases told : takeAnswer? i s.answers with
  | some found =>
    rw [answers, told]
    exact ⟨rfl, h⟩
  | none =>
    rw [answers, told]
    dsimp only [Option.map_none]
    rcases h.tasks.takeCall? hi with ⟨hn, hn'⟩ |
      ⟨call, n', rest', others, others', hs, hs', alike, rest⟩
    · rw [hn, hn']
      exact ⟨rfl, h⟩
    · rw [hs, hs']
      obtain ⟨before, after, held, rfl⟩ := takeCall?_eq_some hs
      have taken := h.withTasks rest fun task hm => h.due task (held ▸ mem_of_mem_others hm)
      exact ⟨rfl, (taken.answer hi none).abandon⟩

end Mirrors

/-- What is seen after the change depends on what was seen before. -/
def Respects (view : σ → ρ) (f : σ → σ) : Prop :=
  ∀ outside outside', view outside' = view outside → view (f outside') = view (f outside)

/-- An action that has nothing to do with the call is answered alike. -/
theorem Mirrors.perform {action : Action σ} (h : Mirrors view id hidden more s s')
    (ahead : Ahead s) (compute : cache.compute.Alike view cache.compute)
    (other : action.named? ≠ some id) (kept : hidden = true → action ≠ .release)
    (respects : ∀ f, action = .change f → Respects view f) :
    ((cache.perform action s).1 = (cache.perform action s').1 ∧
        Mirrors view id hidden more (cache.perform action s).2 (cache.perform action s').2) ∨
      (hidden = true ∧ callsOf id (cache.perform action s).2.tasks = []) := by
  unfold SignatureCache.perform
  by_cases refused : action.needsHandle ∧ s.handles = 0
  · rw [if_pos refused, if_pos ⟨refused.1, h.handles.trans refused.2⟩]
    exact .inl ⟨rfl, h⟩
  rw [if_neg refused, if_neg fun hc => refused ⟨hc.1, h.handles.symm.trans hc.2⟩]
  cases action with
  | peek => exact .inl ⟨congrArg Answer.entry h.served?.symm, h⟩
  | fetch =>
    exact (h.fetch ahead compute).imp_left fun ⟨same, m⟩ => ⟨congrArg Answer.outcome same, m⟩
  | start i => exact .inl ⟨rfl, h.start (fun hi => other (congrArg some hi)) compute⟩
  | collect i =>
    have hi : i ≠ id := fun hi => other (congrArg some hi)
    exact (h.collect hi compute).imp_left fun ⟨same, m⟩ => ⟨congrArg Answer.collected same, m⟩
  | cancel i =>
    obtain ⟨same, m⟩ := h.cancel fun hi => other (congrArg some hi)
    exact .inl ⟨congrArg Answer.known same, m⟩
  | close => exact .inl ⟨rfl, h.close⟩
  | sleep d =>
    have passed := h.advanceTo compute (Nat.le_add_right s.clock d)
    unfold State.advance
    rw [h.clock]
    exact passed.imp_left fun m => ⟨rfl, m⟩
  | acquire =>
    exact .inl ⟨rfl, { h with
      handles := congrArg (· + 1) h.handles, held := fun _ => Nat.succ_ne_zero _ }⟩
  | release =>
    have fewer : Mirrors view id hidden more { s with handles := s.handles - 1 }
        { s' with handles := s'.handles - 1 } :=
      { h with
        handles := congrArg (· - 1) h.handles, held := fun hh => absurd rfl (kept hh) }
    exact .inl ⟨rfl, fewer.abandon⟩
  | change f => exact .inl ⟨rfl, h.moveOn (respects f rfl _ _ h.outside)⟩

/-! ## What the caller does -/

namespace Mirrors

/-- The call is sent off. -/
theorem startHidden (h : Mirrors view id false 0 s s') (quiet : cache.compute.Quiet view) :
    Mirrors view id true 1 (cache.perform (.start id) s).2 s' ∨
      callsOf id (cache.perform (.start id) s).2.tasks = [] := by
  unfold SignatureCache.perform
  split
  · exact .inr h.tasks.callsOf_eq
  · next handle =>
    have held : s.handles ≠ 0 := fun he => handle ⟨rfl, he⟩
    dsimp only
    unfold SignatureCache.start
    split
    · exact .inr h.tasks.callsOf_eq
    · have begun : Mirrors view id false 1 (s.begin .miss).2 s' :=
        { h with begun := congrArg (· + 1) h.begun }
      exact begun.carryHidden cache s.epoch s.begun held quiet

/-- The call is cancelled while it is under way. -/
theorem cancelHidden (h : Mirrors view id true more s s')
    (unasked : takeAnswer? id s.answers = none) :
    Mirrors view id false more (SignatureCache.cancel id s).2 s' := by
  obtain ⟨call, others, found, rest⟩ := h.tasks.takeHidden
  obtain ⟨before, after, held, rfl⟩ := takeCall?_eq_some found
  unfold SignatureCache.cancel
  rw [unasked, found]
  have kept : State.abandon
      { s with tasks := before ++ after, answers := (id, none) :: s.answers } = _ :=
    if_neg fun hc => h.held rfl hc.1
  dsimp only
  rw [kept]
  refine { h with tasks := rest, answers := ?_, held := nofun, due := fun task hm => ?_ }
  · rw [List.filter_cons_of_neg (by simp)]
    exact h.answers
  · exact h.due task (held ▸ mem_of_mem_others hm)

theorem filter_of_takeAnswer? {answers rest : List (Nat × Option Outcome)}
    {answer : Option Outcome} (h : takeAnswer? id answers = some (answer, rest)) :
    rest.filter (·.1 ≠ id) = answers.filter (·.1 ≠ id) := by
  induction answers generalizing rest with
  | nil => cases h
  | cons x answers ih =>
    obtain ⟨i, a⟩ := x
    rw [takeAnswer?] at h
    split at h
    · next hi =>
      cases h
      rw [List.filter_cons_of_neg (by simp [hi])]
    · next hi =>
      rw [Option.map_eq_some_iff] at h
      obtain ⟨⟨found, others⟩, hf, he⟩ := h
      cases he
      rw [List.filter_cons, List.filter_cons, ih hf]

/-- The call is asked for, or cancelled again, after it was cancelled. -/
theorem performHidden {action : Action σ} (cache : SignatureCache σ)
    (h : Mirrors view id false more s s') (own : action.named? = some id)
    (again : action ≠ .start id) :
    Mirrors view id false more (cache.perform action s).2 s' := by
  have unknown : takeCall? id s.tasks = none := by
    have found := takeCall?_number id s.tasks
    rw [h.tasks.callsOf_eq] at found
    exact Option.map_eq_none_iff.1 found
  unfold SignatureCache.perform
  split
  · exact h
  cases action with
  | start i =>
    cases own
    exact absurd rfl again
  | collect i =>
    cases own
    dsimp only
    unfold SignatureCache.collect
    cases told : takeAnswer? id s.answers with
    | none =>
      rw [unknown]
      exact h
    | some found => exact { h with answers := h.answers.trans (filter_of_takeAnswer? told).symm }
  | cancel i =>
    cases own
    dsimp only
    unfold SignatureCache.cancel
    cases takeAnswer? id s.answers with
    | none =>
      rw [unknown]
      exact h
    | some found => exact h
  | peek | fetch | close | sleep | acquire | release | change => cases own

end Mirrors

/-! ## Runs -/

/-- The actions of a run that have nothing to do with a call. -/
def without (id : Nat) (run : List (Action σ)) : List (Action σ) :=
  run.filter (·.named? ≠ some id)

/-- The answers to the actions of a run that have nothing to do with a call. -/
def answersWithout (id : Nat) (run : List (Action σ)) (answers : List Answer) : List Answer :=
  ((run.zip answers).filter (·.1.named? ≠ some id)).map Prod.snd

theorem performAll_cons (action : Action σ) (run : List (Action σ)) (s : State σ) :
    cache.performAll (action :: run) s =
      ((cache.perform action s).1 :: (cache.performAll run (cache.perform action s).2).1,
        (cache.performAll run (cache.perform action s).2).2) :=
  rfl

theorem performAll_append (run more : List (Action σ)) (s : State σ) :
    cache.performAll (run ++ more) s =
      ((cache.performAll run s).1 ++ (cache.performAll more (cache.performAll run s).2).1,
        (cache.performAll more (cache.performAll run s).2).2) := by
  induction run generalizing s with
  | nil => rfl
  | cons action run ih =>
    rw [List.cons_append, performAll_cons, performAll_cons, ih]
    rfl

theorem length_performAll (run : List (Action σ)) (s : State σ) :
    (cache.performAll run s).1.length = run.length := by
  induction run generalizing s with
  | nil => rfl
  | cons action run ih => exact congrArg (· + 1) (ih _)

theorem without_append (id : Nat) (run more : List (Action σ)) :
    without id (run ++ more) = without id run ++ without id more :=
  List.filter_append ..

theorem answersWithout_append {run : List (Action σ)} {answers : List Answer}
    (h : answers.length = run.length) (id : Nat) (run' : List (Action σ)) (answers' : List Answer) :
    answersWithout id (run ++ run') (answers ++ answers') =
      answersWithout id run answers ++ answersWithout id run' answers' := by
  unfold answersWithout
  rw [List.zip_append h.symm, List.filter_append, List.map_append]

theorem without_cons_of_own {action : Action σ} (own : action.named? = some id)
    (run : List (Action σ)) : without id (action :: run) = without id run :=
  List.filter_cons_of_neg (by simp [own])

theorem without_cons_of_other {action : Action σ} (other : action.named? ≠ some id)
    (run : List (Action σ)) : without id (action :: run) = action :: without id run :=
  List.filter_cons_of_pos (by simpa using other)

theorem answersWithout_cons_of_own {action : Action σ} (own : action.named? = some id)
    (run : List (Action σ)) (answer : Answer) (answers : List Answer) :
    answersWithout id (action :: run) (answer :: answers) = answersWithout id run answers :=
  congrArg (List.map Prod.snd) (List.filter_cons_of_neg (by simp [own]))

theorem answersWithout_cons_of_other {action : Action σ} (other : action.named? ≠ some id)
    (run : List (Action σ)) (answer : Answer) (answers : List Answer) :
    answersWithout id (action :: run) (answer :: answers) =
      answer :: answersWithout id run answers :=
  congrArg (List.map Prod.snd) (List.filter_cons_of_pos (by simpa using other))

/-- What is changed in a run is seen alike where all was alike before. -/
def Orderly (view : σ → ρ) (run : List (Action σ)) : Prop :=
  ∀ f, .change f ∈ run → Respects view f

theorem Orderly.of_subset {run part : List (Action σ)} (h : Orderly view run) (hp : part ⊆ run) :
    Orderly view part :=
  fun f hm => h f (hp hm)

/-- A run is answered as it is without the call, and again the call is all that differs. -/
structure Unnoticed (cache : SignatureCache σ) (view : σ → ρ) (id : Nat) (hidden : Bool)
    (more : Nat) (run : List (Action σ)) (s s' : State σ) : Prop where
  answers : answersWithout id run (cache.performAll run s).1 =
    (cache.performAll (without id run) s').1
  mirrors : Mirrors view id hidden more (cache.performAll run s).2
    (cache.performAll (without id run) s').2

theorem Unnoticed.append {run run' : List (Action σ)} {hidden' : Bool} {more' : Nat}
    (h : Unnoticed cache view id hidden more run s s')
    (h' : Unnoticed cache view id hidden' more' run' (cache.performAll run s).2
      (cache.performAll (without id run) s').2) :
    Unnoticed cache view id hidden' more' (run ++ run') s s' := by
  refine ⟨?_, ?_⟩
  · rw [without_append, performAll_append, performAll_append,
      answersWithout_append (length_performAll run s), h.answers, h'.answers]
  · rw [without_append, performAll_append, performAll_append]
    exact h'.mirrors

/-- Until the call comes to its end, nobody notices it; and nobody does once it was cancelled. -/
theorem Mirrors.performAll {run : List (Action σ)} (h : Mirrors view id hidden more s s')
    (ahead : Ahead s) (compute : cache.compute.Alike view cache.compute)
    (orderly : Orderly view run) (kept : hidden = true → .release ∉ run)
    (own : ∀ action ∈ run, action.named? = some id → hidden = false ∧ action ≠ .start id) :
    Unnoticed cache view id hidden more run s s' ∨
      (hidden = true ∧ callsOf id (cache.performAll run s).2.tasks = []) := by
  induction run generalizing s s' with
  | nil => exact .inl ⟨rfl, h⟩
  | cons action run ih =>
    have orderly' := orderly.of_subset (List.subset_cons_self action run)
    have kept' : hidden = true → .release ∉ run := fun hh hm => kept hh (.tail _ hm)
    have own' := fun a (ha : a ∈ run) => own a (.tail _ ha)
    by_cases named : action.named? = some id
    · obtain ⟨rfl, again⟩ := own action List.mem_cons_self named
      have left := h.performHidden cache named again
      refine (ih left (ahead.perform action) orderly' kept' own').imp_left fun rest => ⟨?_, ?_⟩
      · rw [without_cons_of_own named, performAll_cons, answersWithout_cons_of_own named]
        exact rest.answers
      · rw [without_cons_of_own named]
        exact rest.mirrors
    · have held : hidden = true → action ≠ .release :=
        fun hh he => kept hh (he ▸ List.mem_cons_self)
      have respects : ∀ f, action = .change f → Respects view f :=
        fun f he => orderly f (he ▸ List.mem_cons_self)
      rcases h.perform ahead compute named held respects with ⟨same, left⟩ | ⟨hh, gone⟩
      · refine (ih left (ahead.perform action) orderly' kept' own').imp_left fun rest => ⟨?_, ?_⟩
        · rw [without_cons_of_other named, performAll_cons, performAll_cons, ← same,
            answersWithout_cons_of_other named, rest.answers]
        · rw [without_cons_of_other named]
          exact rest.mirrors
      · refine .inr ⟨hh, ?_⟩
        have others : ∀ a ∈ run, ∀ i, a.named? = some i → i ≠ id := by
          intro a ha i hi he
          have never := (own' a ha (hi.trans (congrArg some he))).1
          rw [hh] at never
          cases never
        exact (steps_performAll run others _).gone gone

/-! ## The call is cancelled -/

/-- What there is to be seen of a cache. -/
structure Sight where
  /-- The present time. -/
  clock : Nat
  /-- The entry and when it was stored, even if it is not served any more. Callers see less: they
  are served the entry or not. -/
  slot : Option Stored
  /-- The entry that is served. -/
  entry : Option DatedSignature
  /-- Whether a computation in the background is planned or under way. -/
  isScheduled : Bool
  /-- How many computations have come to a signature. -/
  signed : Nat
  /-- The warnings and errors that were logged and when, the latest first. -/
  lines : List (Nat × String)

def sight (cache : SignatureCache σ) (s : State σ) : Sight where
  clock := s.clock
  slot := s.slot
  entry := cache.served? s
  isScheduled := s.isScheduled
  signed := Journal.signed s.journal
  lines := Journal.lines s.journal

theorem Mirrors.sight (h : Mirrors view id hidden more s s') : cache.sight s = cache.sight s' := by
  unfold SignatureCache.sight
  rw [h.clock, h.slot, h.served?, h.isScheduled, h.signed, h.lines]

/-- In a run the call `id` is sent off after `before`, and is still under way when it is cancelled
after `middle`. -/
structure Cancels (cache : SignatureCache σ) (view : σ → ρ) (outside : σ) (id : Nat)
    (before middle after : List (Action σ)) : Prop where
  orderly : Orderly view (before ++ .start id :: (middle ++ .cancel id :: after))
  kept : .release ∉ middle
  aside : ∀ action ∈ before ++ middle, action.named? ≠ some id
  once : .start id ∉ after
  underWay : callsOf id (cache.performAll (before ++ .start id :: middle) { outside }).2.tasks ≠ []

/-- A run is the same as without the call, but for one computation that has begun in it. -/
structure Unseen (cache : SignatureCache σ) (outside : σ) (id : Nat) (run : List (Action σ)) :
    Prop where
  answers : answersWithout id run (cache.performAll run { outside }).1 =
    (cache.performAll (without id run) { outside }).1
  sight : cache.sight (cache.performAll run { outside }).2 =
    cache.sight (cache.performAll (without id run) { outside }).2
  begun : (cache.performAll run { outside }).2.begun =
    (cache.performAll (without id run) { outside }).2.begun + 1

theorem Unnoticed.of_own {action : Action σ} (own : action.named? = some id)
    (h : Mirrors view id hidden more (cache.perform action s).2 s') :
    Unnoticed cache view id hidden more [action] s s' := by
  refine ⟨?_, ?_⟩
  · rw [without_cons_of_own own, performAll_cons, answersWithout_cons_of_own own]
    rfl
  · rw [without_cons_of_own own]
    exact h

theorem Unnoticed.unseen {outside : σ} {run : List (Action σ)}
    (h : Unnoticed cache view id hidden 1 run { outside } { outside }) :
    Unseen cache outside id run :=
  ⟨h.answers, h.mirrors.sight, h.mirrors.begun⟩

theorem mirrors_initial (view : σ → ρ) (id : Nat) (outside : σ) :
    Mirrors view id false 0 { outside } { outside } where
  outside := rfl
  clock := rfl
  slot := rfl
  scheduled := rfl
  generation := rfl
  epoch := rfl
  tasks := .nil
  answers := rfl
  handles := rfl
  begun := rfl
  lines := rfl
  signed := rfl
  held := nofun
  due := by simp

namespace Cancels

variable {outside : σ} {before middle after : List (Action σ)}

theorem others {run : List (Action σ)} (h : Cancels cache view outside id before middle after)
    (hr : run ⊆ before ++ middle) : ∀ action ∈ run, ∀ i, action.named? = some i → i ≠ id := by
  rintro action ha i hi rfl
  exact h.aside action (hr ha) hi

/-- The call is under way all the time from when it was sent off. -/
theorem stays {past : List (Action σ)} (h : Cancels cache view outside id before middle after)
    (hp : past <+: middle) :
    callsOf id (cache.performAll (before ++ .start id :: past) { outside }).2.tasks ≠ [] := by
  obtain ⟨rest, rfl⟩ := hp
  intro gone
  have aside : ∀ action ∈ rest, ∀ i, action.named? = some i → i ≠ id :=
    h.others fun action ha => by simp [ha]
  have further : Steps cache (· ≠ id) _ _ :=
    steps_performAll rest aside (cache.performAll (before ++ .start id :: past) { outside }).2
  have split : before ++ .start id :: (past ++ rest) = before ++ .start id :: past ++ rest := by
    simp
  have underWay := h.underWay
  rw [split, performAll_append] at underWay
  exact underWay (further.gone gone)

/-- The call is not answered before it is cancelled. -/
theorem unasked (h : Cancels cache view outside id before middle after) :
    takeAnswer? id (cache.performAll (before ++ .start id :: middle) { outside }).2.answers =
      none := by
  have first : Steps cache (· ≠ id) _ _ :=
    steps_performAll before (h.others (List.subset_append_left _ _)) { outside }
  obtain ⟨calls, answer⟩ := first.apart rfl
  have started := h.stays List.nil_prefix
  have underWay := h.underWay
  rw [performAll_append] at started underWay ⊢
  dsimp only at calls answer
  generalize (cache.performAll before { outside }).2 = s at *
  have owed : Owed id s.begun (cache.perform (.start id) s).2 := by
    have started : callsOf id (cache.perform (.start id) s).2.tasks ≠ [] := started
    unfold SignatureCache.perform at started ⊢
    split at started
    · exact absurd calls started
    · next handle =>
      rw [if_neg handle]
      cases miss : cache.served? s with
      | none => exact .start miss calls answer
      | some entry =>
        have at_once : (cache.start id s).tasks = s.tasks := by
          unfold SignatureCache.start
          rw [miss]
        exact absurd ((congrArg _ at_once).trans calls) started
  have rest : Steps cache (· ≠ id) ⟨(cache.perform (.start id) s).2, []⟩ _ :=
    steps_performAll middle (h.others (List.subset_append_right _ _)) _
  rcases rest.owed owed with ⟨-, none_yet⟩ | ⟨gone, -⟩
  · rw [← takeAnswer?_answer, Option.map_eq_none_iff] at none_yet
    exact none_yet
  · exact absurd gone underWay

theorem part {run : List (Action σ)} (h : Cancels cache view outside id before middle after)
    (hr : run ⊆ before ++ middle) (hidden : Bool) : Orderly view run ∧
      ∀ action ∈ run, action.named? = some id → hidden = false ∧ action ≠ .start id := by
  refine ⟨h.orderly.of_subset fun action ha => ?_, fun action ha named => ?_⟩
  · have mem := hr ha
    simp only [List.mem_append, List.mem_cons] at mem ⊢
    tauto
  · exact absurd named (h.aside action (hr ha))

theorem sent_off (compute : cache.compute.Alike view cache.compute)
    (quiet : cache.compute.Quiet view) (h : Cancels cache view outside id before middle after) :
    Unnoticed cache view id true 1 (before ++ [.start id]) { outside } { outside } := by
  obtain ⟨orderly, own⟩ := h.part (List.subset_append_left before middle) false
  have ahead : Ahead (σ := σ) { outside } := by simp [Ahead]
  rcases (mirrors_initial view id outside).performAll ahead compute orderly nofun own with
    first | ⟨hh, -⟩
  · have stays := h.stays List.nil_prefix
    rw [performAll_append] at stays
    rcases first.mirrors.startHidden quiet with started | gone
    · exact first.append (.of_own rfl started)
    · exact absurd gone stays
  · cases hh

theorem while_underWay {past : List (Action σ)} (compute : cache.compute.Alike view cache.compute)
    (quiet : cache.compute.Quiet view) (h : Cancels cache view outside id before middle after)
    (hp : past <+: middle) :
    Unnoticed cache view id true 1 (before ++ .start id :: past) { outside } { outside } := by
  have started := h.sent_off compute quiet
  have ahead : Ahead (σ := σ) { outside } := by simp [Ahead]
  have inner : past ⊆ before ++ middle := List.subset_append_of_subset_right _ hp.subset
  obtain ⟨orderly, own⟩ := h.part inner true
  have stays := h.stays hp
  rw [List.append_cons] at stays ⊢
  have kept : true = true → .release ∉ past := fun _ hm => h.kept (hp.subset hm)
  rcases started.mirrors.performAll (ahead.performAll _) compute orderly kept own with
    rest | ⟨-, gone⟩
  · exact started.append rest
  · rw [performAll_append] at stays
    exact absurd gone stays

theorem once_cancelled {past : List (Action σ)} (compute : cache.compute.Alike view cache.compute)
    (quiet : cache.compute.Quiet view) (h : Cancels cache view outside id before middle after)
    (hp : past <+: after) :
    Unnoticed cache view id false 1 (before ++ .start id :: (middle ++ .cancel id :: past))
      { outside } { outside } := by
  have underWay := h.while_underWay compute quiet (List.prefix_refl middle)
  have ahead : Ahead (σ := σ) { outside } := by simp [Ahead]
  have cancelled : Unnoticed cache view id false 1 (before ++ .start id :: middle ++ [.cancel id])
      { outside } { outside } :=
    underWay.append (.of_own rfl (underWay.mirrors.cancelHidden h.unasked))
  have orderly : Orderly view past := h.orderly.of_subset fun action ha => by
    simp [hp.subset ha]
  have again : ∀ action ∈ past, action.named? = some id → false = false ∧ action ≠ .start id :=
    fun action ha _ => ⟨rfl, fun he => h.once (he ▸ hp.subset ha)⟩
  rcases cancelled.mirrors.performAll (ahead.performAll _) compute orderly nofun again with
    rest | ⟨hh, -⟩
  · have all := cancelled.append rest
    simpa using all
  · cases hh

end Cancels

/-- Nobody notices a call that was sent off and was cancelled before it came to its end, neither
while it is under way nor later. -/
theorem unseen_of_cancelled {outside : σ} {before middle after past : List (Action σ)}
    (compute : cache.compute.Alike view cache.compute) (quiet : cache.compute.Quiet view)
    (h : Cancels cache view outside id before middle after)
    (hp : past <+: middle ++ .cancel id :: after) :
    Unseen cache outside id (before ++ .start id :: past) := by
  rcases List.prefix_or_prefix_of_prefix hp (List.prefix_append middle _) with early | ⟨rest, rfl⟩
  · exact (h.while_underWay compute quiet early).unseen
  · rw [List.prefix_append_right_inj, List.prefix_cons_iff] at hp
    obtain rfl | ⟨past, rfl, late⟩ := hp
    · rw [List.append_nil]
      exact (h.while_underWay compute quiet (List.prefix_refl middle)).unseen
    · exact (h.once_cancelled compute quiet late).unseen

/-! ## A cache that counts its computations -/

/-- The small cache, where each computation that begins is counted, and nothing else is kept. -/
def counting : SignatureCache Nat where
  compute := .act (· + 1) fun _ => .wait 2 (.done (.ok ⟨"signature", "date"⟩))
  maxLifetime := 10
  refreshInterval := 5
  background := true
  maxLifetime_le := sample.maxLifetime_le

theorem counting_alike : counting.compute.Alike (fun _ => ()) counting.compute :=
  .act (fun _ _ _ => rfl) fun _ _ _ => .wait 2 (.done _)

theorem counting_quiet : counting.compute.Quiet fun _ => () :=
  .act (fun _ => rfl) fun _ => .wait 2 (.done _)

/-- A call is cancelled while another goes on, and is asked for later. -/
theorem unseen_sample :
    Unseen counting 0 0
      [.start 1, .start 0, .peek, .cancel 0, .sleep 7, .collect 1, .collect 0] := by
  have cancels : Cancels counting (fun _ => ()) 0 0 [.start 1] [.peek]
      [.sleep 7, .collect 1, .collect 0] :=
    { orderly := by simp [Orderly]
      kept := by simp
      aside := by decide
      once := by simp
      underWay := by
        change [1] ≠ []
        simp }
  exact unseen_of_cancelled counting_alike counting_quiet cancels (List.prefix_refl _)

end RequestAuth.SignatureCache
