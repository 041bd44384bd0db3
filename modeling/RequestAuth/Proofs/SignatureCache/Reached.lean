import RequestAuth.Proofs.SignatureCache.Growth

/-!
# Reachable scenes agree with their journals

Each step keeps the state of a cache in agreement with its journal (`Step.atWork`), so that this
holds in every reachable scene (`Reachable.atWork`). Journals only grow, and generations only go up
(`Steps.later`).
-/

namespace RequestAuth.SignatureCache

open Journal

variable {σ : Type} {cache : SignatureCache σ} {named : Nat → Prop} {hands : List Flight}
  {s s' : State σ} {f : Flight} {c c' : Scene σ}

/-! ## Carrying out tasks -/

theorem Faithful.carry {rest : Routine σ Outcome} {hold : Routine σ Outcome → Job σ}
    {finish : Outcome → State σ → State σ} (h : Faithful cache (f :: hands) s)
    (hh : ∀ rest, (hold rest).flight? = some f)
    (hf : ∀ outcome (s : State σ), Faithful cache (f :: hands) s →
      Faithful cache hands (finish outcome s)) :
    Faithful cache hands (s.carry rest hold finish) := by
  unfold State.carry
  split
  · exact hf _ _ (h.change _ s.answers)
  · exact (h.change _ s.answers).hold (hh _) (Nat.le_add_right _ _)

theorem Faithful.carryRefresh {generation n : Nat} {rest : Routine σ Outcome}
    (h : Faithful cache (.refresh generation n :: hands) s) :
    Faithful cache hands (s.carryRefresh cache generation n rest) :=
  h.carry (fun _ => rfl) fun outcome _ h => h.finish outcome

theorem Faithful.carryCall {id epoch n : Nat} {rest : Routine σ Outcome}
    (h : Faithful cache (.miss epoch n :: hands) s) :
    Faithful cache hands (s.carryCall cache id epoch n rest) :=
  h.carry (fun _ => rfl) fun outcome _ h => (h.finish outcome).change _ _

theorem Faithful.fire {before after : List (Task σ)} {task : Task σ}
    (h : Faithful cache hands s) (hh : hands.length ≤ s.handles)
    (ht : s.tasks = before ++ task :: after)
    (first : ∀ other ∈ before ++ after, task.due ≤ other.due) :
    Faithful cache hands (s.fire cache task (before ++ after)) := by
  have hp : Planned cache hands s := by
    rcases h.planned with hd | hp
    · simp [hd.tasks] at ht
    · exact hp
  have hmem : task ∈ s.tasks := by simp [ht]
  have h₁ : Faithful cache hands { s with clock := max s.clock task.due } := by
    refine h.pass fun other ho => ?_
    rw [ht, List.mem_append, List.mem_cons] at ho
    rcases ho with ho | rfl | ho
    · exact first other (List.mem_append_left _ ho)
    · exact Nat.le_refl _
    · exact first other (List.mem_append_right _ ho)
  have resumed : Faithful cache hands (State.resume cache task.job
      { s with clock := max s.clock task.due, tasks := before ++ after }) := by
    cases hj : task.job with
    | waiting generation =>
      obtain ⟨since, -, -, hg, -⟩ := hp.of_waiting hmem hj
      have hb := h₁.beginRefresh ⟨hp.record, hp.waits, hp.signing⟩ ht hj
        (Nat.max_eq_right (h.due task hmem))
      rw [State.resume, if_pos hg]
      exact hb.carryRefresh
    | refreshing generation n rest => exact (h₁.take ht (by rw [hj]; rfl)).carryRefresh
    | calling id epoch n rest => exact (h₁.take ht (by rw [hj]; rfl)).carryCall
  refine resumed.abandon fun h0 => List.length_eq_zero_iff.1 ?_
  have hk : (State.resume cache task.job
      { s with clock := max s.clock task.due, tasks := before ++ after }).handles = s.handles :=
    ((Onward.refl _).resume task.job).handles
  rw [← hk, h0] at hh
  exact Nat.le_zero.1 hh

/-! ## Calls -/

theorem Faithful.planned_of_handles (h : Faithful cache hands s)
    (hh : s.handles ≠ 0) : Planned cache hands s :=
  h.planned.resolve_left fun hd => hh hd.handles

theorem Faithful.start {id : Nat} (h : Faithful cache hands s)
    (hh : s.handles ≠ 0) : Faithful cache hands (cache.start id s) := by
  unfold SignatureCache.start
  split
  · exact h.change s.outside _
  · next miss => exact (h.beginMiss (h.planned_of_handles hh) miss).carryCall

/-- A call that is waited for is a computation in hand. -/
theorem Faithful.await {id : Nat} {call : Call σ} {tasks : List (Task σ)}
    (h : Faithful cache hands s) (ht : takeCall? id s.tasks = some (call, tasks)) :
    Faithful cache (.miss call.epoch call.number :: hands) { s with tasks } := by
  obtain ⟨before, after, he, rfl⟩ := takeCall?_eq_some ht
  exact h.take he rfl

theorem Faithful.cancel {id : Nat} (h : Faithful cache hands s)
    (hh : hands.length ≤ s.handles) : Faithful cache hands (SignatureCache.cancel id s).2 := by
  unfold SignatureCache.cancel
  split
  · exact h
  · split
    · exact h
    · next call tasks ht =>
      refine ((h.await ht).discard.change s.outside _).abandon fun h0 => ?_
      have h0 : s.handles = 0 := h0
      exact List.length_eq_zero_iff.1 (by omega)

/-- The order of the computations in hand does not matter. -/
theorem Faithful.front {before after : List Flight} {f : Flight}
    (h : Faithful cache (before ++ f :: after) s) : Faithful cache (f :: (before ++ after)) s := by
  have hp : (f :: (before ++ after)).Perm (before ++ f :: after) := List.perm_middle.symm
  exact h.rearrange (f := f) (by simp) (hp.append_right _) rfl h.due

/-! ## Steps -/

/-- What holds of every reachable scene. -/
structure AtWork (cache : SignatureCache σ) (c : Scene σ) : Prop where
  faithful : Faithful cache c.awaited c.state
  handles : c.awaited.length ≤ c.state.handles
  misses : ∀ f ∈ c.awaited, f.cause = .miss

theorem Step.atWork (step : Step cache named c c') (h : AtWork cache c) : AtWork cache c' := by
  obtain ⟨h, hh, hm⟩ := h
  have same := Onward.refl c.state
  cases step with
  | change outside => exact ⟨h.change _ _, hh, hm⟩
  | pass t early => exact ⟨h.pass fun task ht => Nat.le_of_lt (early task ht), hh, hm⟩
  | @fire s awaited task before after held first =>
    refine ⟨h.fire hh held first, ?_, hm⟩
    exact hh.trans_eq (same.fire task (before ++ after)).handles.symm
  | begin handle miss =>
    have hp := h.planned_of_handles (Nat.ne_of_gt (Nat.zero_lt_of_lt handle))
    exact ⟨h.beginMiss hp miss, handle, List.forall_mem_cons.2 ⟨rfl, hm⟩⟩
  | @leave s f before after =>
    have hf : f.cause = .miss := hm f (by simp)
    refine ⟨?_, ?_, fun g hg => hm g (mem_of_mem_others hg)⟩
    · cases f with
      | miss => exact h.front.discard
      | refresh => cases hf
    · simp only [List.length_append, List.length_cons] at hh ⊢
      omega
  | @finish s f before after outcome =>
    refine ⟨h.front.finish outcome, ?_, fun g hg => hm g (mem_of_mem_others hg)⟩
    have hk : (f.finish cache outcome s).handles = s.handles :=
      ((same.note _).finish f outcome).handles
    simp only [List.length_append, List.length_cons] at hh ⊢
    omega
  | @start s awaited id name handle =>
    exact ⟨h.start handle, hh.trans_eq (same.start id).handles.symm, hm⟩
  | await name found =>
    have h := h.await found
    exact ⟨h.withHandles _ (.inr h.not_dropped), Nat.succ_le_succ hh,
      List.forall_mem_cons.2 ⟨rfl, hm⟩⟩
  | tell name found => exact ⟨h.change _ _, hh, hm⟩
  | @cancel s awaited id name =>
    exact ⟨h.cancel hh, hh.trans_eq (same.cancel id).handles.symm, hm⟩
  | close handle =>
    exact ⟨h.close (h.planned_of_handles handle), hh.trans_eq same.close.handles.symm, hm⟩
  | acquire handle =>
    exact ⟨h.withHandles _ (.inr (h.planned_of_handles handle)), Nat.le_succ_of_le hh, hm⟩
  | @release s awaited free =>
    have alive : s.handles - 1 = 0 ∨ Planned cache awaited s :=
      h.planned.imp_left fun hd => by rw [hd.handles]
    refine ⟨(h.withHandles _ alive).abandon fun h0 => ?_, ?_, hm⟩
    · have h0 : s.handles - 1 = 0 := h0
      exact List.length_eq_zero_iff.1 (Nat.le_zero.1 (h0 ▸ free))
    · have onward := (Onward.refl { s with handles := s.handles - 1 }).abandon
      exact free.trans_eq onward.handles.symm

theorem atWork_initial (cache : SignatureCache σ) (outside : σ) :
    AtWork cache ⟨{ outside }, []⟩ where
  faithful :=
    { legal := .nil
      upto := by simp
      due := by simp
      slot := rfl
      epoch := rfl
      begun := rfl
      distinct := .nil
      known := by simp
      planned := .inr ⟨rfl, rfl, by simp [plan]⟩ }
  handles := Nat.zero_le _
  misses := by simp

theorem Steps.atWork (steps : Steps cache named c c') (h : AtWork cache c) : AtWork cache c' := by
  induction steps with
  | refl => exact h
  | tail _ step ih => exact step.atWork ih

theorem Reachable.atWork (h : Reachable cache c) : AtWork cache c := by
  obtain ⟨outside, steps⟩ := h
  exact Steps.atWork steps (atWork_initial cache outside)

/-! ## What only grows -/

/-- The second state may come after the first. -/
structure Later (s s' : State σ) : Prop where
  journal : s.journal <:+ s'.journal
  generation : s.generation ≤ s'.generation

theorem Onward.later (h : Onward s s') : Later s s' := ⟨h.journal, h.generation⟩

theorem Step.later (step : Step cache named c c') : Later c.state c'.state := by
  have same := Onward.refl c.state
  cases step with
  | change | pass | leave | tell | await | acquire => exact ⟨same.journal, same.generation⟩
  | begin handle miss => exact ⟨List.suffix_cons _ _, Nat.le_refl _⟩
  | fire held first => exact (same.fire _ _).later
  | finish outcome => exact ((same.note _).finish _ outcome).later
  | start name handle => exact (same.start _).later
  | cancel name => exact (same.cancel _).later
  | close handle => exact same.close.later
  | @release s awaited free =>
    have onward := (Onward.refl { s with handles := s.handles - 1 }).abandon
    exact ⟨onward.journal, onward.generation⟩

theorem Steps.later (steps : Steps cache named c c') : Later c.state c'.state := by
  induction steps with
  | refl => exact ⟨List.suffix_refl _, Nat.le_refl _⟩
  | tail _ step ih =>
    have later := step.later
    exact ⟨ih.journal.trans later.journal, Nat.le_trans ih.generation later.generation⟩

end RequestAuth.SignatureCache
