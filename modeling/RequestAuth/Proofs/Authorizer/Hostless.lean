import RequestAuth.Proofs.Authorizer.Steps
import RequestAuth.Proofs.SignatureCache.Upkeep

/-!
# Authorizers without a host

An authorizer without a host loads credentials for claims, but never begins to compute a signature:
its cache stays `Unused`, and every call for a signature has the same answer.
-/

namespace RequestAuth.Authorizer

open SignatureCache (takeAnswer? takeCall?)

variable {σ : Type} {authorizer : Authorizer σ} {s s' : State σ} {c c' : Scene σ}

/-- No signature has ever begun to be computed. -/
structure Unused (c : Scene σ) : Prop where
  begun : c.state.begun = 0
  tasks : c.state.tasks = []
  callers : ∀ caller ∈ c.callers, ∃ name rest, caller = .claim name rest

theorem signature_of_hostless (none : authorizer.host = none) (s : State σ) :
    authorizer.signature s = (.error .noHost, s) := by
  simp [signature, none]

/-- What is done at once begins no computation and sends no task off. -/
theorem perform_of_hostless (none : authorizer.host = none) {action : Action σ}
    (atOnce : AtOnce authorizer s action) (idle : s.tasks = []) :
    (authorizer.perform action s).2.begun = s.begun ∧
      (authorizer.perform action s).2.tasks = [] := by
  have unsigned := signature_of_hostless none s
  by_cases noHandle : action.needsHandle = true ∧ s.handles = 0
  · rw [perform.eq_def, if_pos noHandle]
    exact ⟨rfl, idle⟩
  · rw [perform.eq_def, if_neg noHandle]
    cases action with
    | authorization => simp [authorization, unsigned, idle]
    | authorize compartment => simp [authorize, unsigned, idle]
    | sign request compartment => simp [sign, authorize, unsigned, idle]
    | region | acquire | change => exact ⟨rfl, idle⟩
    | claim name =>
      have handle : s.handles ≠ 0 := fun h => noHandle ⟨rfl, h⟩
      obtain ⟨credential, hc⟩ := Option.ne_none_iff_exists'.1 (atOnce.resolve_left handle)
      simp only [claim, someCredential, hc]
      split <;> exact ⟨rfl, idle⟩
    | close =>
      simp only [SignatureCache.State.close, SignatureCache.State.unschedule,
        SignatureCache.State.note]
      cases s.scheduled <;> simp [idle]
    | release =>
      simp only [SignatureCache.State.abandon]
      split <;> simp [idle]
    | start id => simp [start, none, idle]
    | collect id =>
      simp only [collect, SignatureCache.collect, idle, takeCall?]
      cases takeAnswer? id s.answers <;> simp [idle]
    | sleep d => exact atOnce.elim

theorem Step.unused (none : authorizer.host = none) (step : Step authorizer c c')
    (h : Unused c) : Unused c' := by
  obtain ⟨begun, tasks, callers⟩ := h
  cases step with
  | act action atOnce =>
    obtain ⟨same, idle⟩ := perform_of_hostless none atOnce tasks
    exact ⟨same.trans begun, idle, callers⟩
  | pass t early => exact ⟨begun, tasks, callers⟩
  | wake d => exact ⟨begun, tasks, callers⟩
  | fire held first => simp [held] at tasks
  | begin wish new handle host miss => exact absurd none host
  | await found =>
    dsimp only at tasks
    rw [tasks] at found
    cases found
  | load name handle new =>
    exact ⟨begun, tasks, List.forall_mem_cons.2 ⟨⟨name, _, rfl⟩, callers⟩⟩
  | @go s before after told caller caller' outside on =>
    obtain ⟨name, rest, rfl⟩ := callers caller (by simp)
    obtain ⟨⟨rest', outside'⟩, -, he⟩ := Option.map_eq_some_iff.1 on
    cases he
    refine ⟨begun, tasks, fun other ho => ?_⟩
    by_cases same : other = .claim name rest'
    · exact ⟨name, rest', same⟩
    · have rested : other ∈ before ++ after := by simpa [same] using ho
      exact callers other (SignatureCache.mem_of_mem_others rested)
  | @finish s s' before after told wish epoch number outcome done =>
    obtain ⟨name, rest, he⟩ := callers (.signature wish epoch number (.done outcome)) (by simp)
    cases he
  | tell =>
    exact ⟨begun, tasks, fun other ho => callers other (SignatureCache.mem_of_mem_others ho)⟩
  | @leave s before after told caller =>
    obtain ⟨name, rest, rfl⟩ := callers caller (by simp)
    exact ⟨begun, tasks, fun other ho => callers other (SignatureCache.mem_of_mem_others ho)⟩

theorem Reachable.unused (none : authorizer.host = none) (h : Reachable authorizer c) :
    Unused c := by
  obtain ⟨world, steps⟩ := h
  induction steps with
  | refl => exact ⟨rfl, rfl, nofun⟩
  | tail _ step ih => exact step.unused none ih

end RequestAuth.Authorizer
