import Mathlib.Logic.Relation
import RequestAuth.SignatureCache.Action

/-!
# The steps of a cache

`Step` is the relation between a cache at work before and after one uninterrupted act: a task is
carried out, time passes while none is due, a caller begins to wait for a computation, or is done
waiting, or leaves, sends a call off, cancels one, closes the cache, or makes or gives up a handle.
Any number of callers may wait at a time, each with a handle of its own. Which step is next is left
open, and so are which of the tasks that are due at one instant is first, how long a caller waits
for a computation, and what comes of it. What holds in all scenes that are `Reachable` holds
therefore whatever callers do and in whatever order.

`Reachable.performAll` says that the actions of callers, in any order, lead from reachable scenes to
reachable scenes, and `steps_performAll` which calls are named on the way.
-/

namespace RequestAuth.SignatureCache

variable {σ α : Type} {cache : SignatureCache σ} {named : Nat → Prop}

/-! ## Computations under way -/

/-- A computation that is under way. -/
inductive Flight where
  /-- For a caller who found no entry in the given epoch. -/
  | miss (epoch number : Nat)
  /-- In the background, in the given generation. -/
  | refresh (generation number : Nat)
  deriving DecidableEq

/-- The number of a computation. -/
def Flight.number : Flight → Nat
  | .miss _ n | .refresh _ n => n

/-- Why a computation is carried out. -/
def Flight.cause : Flight → Cause
  | .miss .. => .miss
  | .refresh .. => .refresh

/-- Ends a computation. -/
def Flight.finish (cache : SignatureCache σ) (f : Flight) (outcome : Outcome) (s : State σ) :
    State σ :=
  match f with
  | .miss epoch n => s.finishMiss cache epoch n outcome
  | .refresh generation n => s.finishRefresh cache generation n outcome

/-- The computation that a task goes on with. -/
def Job.flight? : Job σ → Option Flight
  | .waiting _ => none
  | .refreshing generation n _ => some (.refresh generation n)
  | .calling _ epoch n _ => some (.miss epoch n)

/-- The computations that tasks go on with. -/
def flightsOf (tasks : List (Task σ)) : List Flight := tasks.filterMap (·.job.flight?)

/-- A cache at work. -/
structure Scene (σ : Type) where
  /-- Its state. -/
  state : State σ
  /-- The computations that callers are waiting for. -/
  awaited : List Flight := []

/-- The computations that are under way. -/
def Scene.flights (c : Scene σ) : List Flight := c.awaited ++ flightsOf c.state.tasks

/-! ## Steps -/

/-- What may happen next, if callers name only calls of the given kind. -/
inductive Step (cache : SignatureCache σ) (named : Nat → Prop) : Scene σ → Scene σ → Prop where
  /-- What signatures are computed from changes. -/
  | change {s : State σ} {awaited : List Flight} (outside : σ) :
      Step cache named ⟨s, awaited⟩ ⟨{ s with outside }, awaited⟩
  /-- Time passes while nothing is due. -/
  | pass {s : State σ} {awaited : List Flight} (t : Nat) (early : ∀ task ∈ s.tasks, t < task.due) :
      Step cache named ⟨s, awaited⟩ ⟨{ s with clock := max s.clock t }, awaited⟩
  /-- A task that no other precedes is carried out. -/
  | fire {s : State σ} {awaited : List Flight} {task : Task σ} {before after : List (Task σ)}
      (held : s.tasks = before ++ task :: after)
      (first : ∀ other ∈ before ++ after, task.due ≤ other.due) :
      Step cache named ⟨s, awaited⟩ ⟨s.fire cache task (before ++ after), awaited⟩
  /-- A caller who finds no entry begins a computation and waits for it. -/
  | begin {s : State σ} {awaited : List Flight} (handle : awaited.length < s.handles)
      (miss : cache.served? s = none) :
      Step cache named ⟨s, awaited⟩ ⟨(s.begin .miss).2, .miss s.epoch s.begun :: awaited⟩
  /-- A caller stops waiting for a computation, which ends with that. -/
  | leave {s : State σ} {f : Flight} {before after : List Flight} :
      Step cache named ⟨s, before ++ f :: after⟩ ⟨s, before ++ after⟩
  /-- A computation that a caller waits for ends. -/
  | finish {s : State σ} {f : Flight} {before after : List Flight} (outcome : Outcome) :
      Step cache named ⟨s, before ++ f :: after⟩ ⟨f.finish cache outcome s, before ++ after⟩
  /-- A call is sent off. -/
  | start {s : State σ} {awaited : List Flight} {id : Nat} (name : named id)
      (handle : s.handles ≠ 0) : Step cache named ⟨s, awaited⟩ ⟨cache.start id s, awaited⟩
  /-- A caller begins to wait for a call that was sent off. -/
  | await {s : State σ} {awaited : List Flight} {id : Nat} {call : Call σ} {tasks : List (Task σ)}
      (name : named id) (found : takeCall? id s.tasks = some (call, tasks)) :
      Step cache named ⟨s, awaited⟩
        ⟨{ s with tasks, handles := s.handles + 1 }, .miss call.epoch call.number :: awaited⟩
  /-- A caller is told what has come of a call that was sent off. -/
  | tell {s : State σ} {awaited : List Flight} {id : Nat} {answer : Option Outcome}
      {answers : List (Nat × Option Outcome)} (name : named id)
      (found : takeAnswer? id s.answers = some (answer, answers)) :
      Step cache named ⟨s, awaited⟩ ⟨{ s with answers }, awaited⟩
  /-- A call that was sent off is cancelled. -/
  | cancel {s : State σ} {awaited : List Flight} {id : Nat} (name : named id) :
      Step cache named ⟨s, awaited⟩ ⟨(SignatureCache.cancel id s).2, awaited⟩
  | close {s : State σ} {awaited : List Flight} (handle : s.handles ≠ 0) :
      Step cache named ⟨s, awaited⟩ ⟨s.close, awaited⟩
  | acquire {s : State σ} {awaited : List Flight} (handle : s.handles ≠ 0) :
      Step cache named ⟨s, awaited⟩ ⟨{ s with handles := s.handles + 1 }, awaited⟩
  /-- A handle that no caller is waiting with is given up. -/
  | release {s : State σ} {awaited : List Flight} (free : awaited.length ≤ s.handles - 1) :
      Step cache named ⟨s, awaited⟩ ⟨{ s with handles := s.handles - 1 }.abandon, awaited⟩

/-- Any number of steps. -/
abbrev Steps (cache : SignatureCache σ) (named : Nat → Prop) : Scene σ → Scene σ → Prop :=
  Relation.ReflTransGen (Step cache named)

/-- The scenes that a new cache may come to. -/
def Reachable (cache : SignatureCache σ) (c : Scene σ) : Prop :=
  ∃ outside, Steps cache (fun _ => True) ⟨{ outside }, []⟩ c

theorem Step.mono {named' : Nat → Prop} {c c' : Scene σ} (hn : ∀ id, named id → named' id)
    (h : Step cache named c c') : Step cache named' c c' := by
  cases h with
  | change outside => exact .change outside
  | pass t early => exact .pass t early
  | fire held first => exact .fire held first
  | begin handle miss => exact .begin handle miss
  | leave => exact .leave
  | finish outcome => exact .finish outcome
  | start name handle => exact .start (hn _ name) handle
  | await name found => exact .await (hn _ name) found
  | tell name found => exact .tell (hn _ name) found
  | cancel name => exact .cancel (hn _ name)
  | close handle => exact .close handle
  | acquire handle => exact .acquire handle
  | release free => exact .release free

theorem Reachable.steps {c c' : Scene σ} (h : Reachable cache c) (hs : Steps cache named c c') :
    Reachable cache c' := by
  obtain ⟨outside, ho⟩ := h
  have any : Steps cache (fun _ => True) c c' :=
    Relation.ReflTransGen.mono (fun _ _ => Step.mono fun _ _ => trivial) _ _ hs
  exact ⟨outside, ho.trans any⟩

/-! ## Taking tasks out -/

theorem popFirst_eq_some {tasks others : List (Task σ)} {first : Task σ}
    (h : popFirst tasks = some (first, others)) :
    ∃ before after, tasks = before ++ first :: after ∧ others = before ++ after ∧
      ∀ other ∈ others, first.due ≤ other.due := by
  induction tasks generalizing first others with
  | nil => simp [popFirst] at h
  | cons task tasks ih =>
    simp only [popFirst] at h
    split at h
    · next hp =>
      obtain ⟨rfl, rfl⟩ := by simpa using h
      cases tasks with
      | nil => exact ⟨[], [], rfl, rfl, by simp⟩
      | cons => exact (popFirst_cons_ne_none _ _ hp).elim
    · next next rest hp =>
      obtain ⟨before, after, rfl, rfl, hall⟩ := ih hp
      split at h
      · next hlt =>
        obtain ⟨rfl, rfl⟩ := by simpa using h
        refine ⟨task :: before, after, rfl, rfl, fun other ho => ?_⟩
        rcases List.mem_cons.1 ho with rfl | ho
        · exact Nat.le_of_lt hlt
        · exact hall other ho
      · next hle =>
        obtain ⟨rfl, rfl⟩ := by simpa using h
        refine ⟨[], _, rfl, rfl, fun other ho => ?_⟩
        have hle := Nat.le_of_not_lt hle
        rcases List.mem_append.1 ho with ho | ho
        · exact Nat.le_trans hle (hall other (List.mem_append_left _ ho))
        · rcases List.mem_cons.1 ho with rfl | ho
          · exact hle
          · exact Nat.le_trans hle (hall other (List.mem_append_right _ ho))

theorem takeCall?_eq_some {id : Nat} {tasks others : List (Task σ)} {call : Call σ}
    (h : takeCall? id tasks = some (call, others)) :
    ∃ before after, tasks = before ++
        ⟨call.due, .calling id call.epoch call.number call.rest⟩ :: after ∧
      others = before ++ after := by
  induction tasks generalizing others with
  | nil => simp [takeCall?] at h
  | cons task tasks ih =>
    obtain ⟨due, job⟩ := task
    by_cases hj : ∃ epoch n rest, job = .calling id epoch n rest
    · obtain ⟨epoch, n, rest, rfl⟩ := hj
      obtain ⟨rfl, rfl⟩ : ⟨due, epoch, n, rest⟩ = call ∧ tasks = others := by
        simpa [takeCall?] using h
      exact ⟨[], tasks, rfl, rfl⟩
    · have hl : (takeCall? id tasks).map (fun found => (found.1, ⟨due, job⟩ :: found.2)) =
          some (call, others) := by
        cases job with
        | waiting | refreshing => exact h
        | calling i epoch n rest =>
          have hi : i ≠ id := fun hi => hj ⟨epoch, n, rest, by rw [hi]⟩
          simp only [takeCall?, if_neg hi] at h
          exact h
      obtain ⟨⟨found, rest⟩, hf, he⟩ := Option.map_eq_some_iff.1 hl
      cases he
      obtain ⟨before, after, rfl, rfl⟩ := ih hf
      exact ⟨⟨due, job⟩ :: before, after, rfl, rfl⟩

/-! ## Actions are steps -/

/-- What tasks and the clock keep up is kept up as time passes. -/
theorem advanceTo_induct {P : State σ → Prop} (t : Nat)
    (fire : ∀ s task before after, s.tasks = before ++ task :: after →
      (∀ other ∈ before ++ after, task.due ≤ other.due) → P s →
        P (s.fire cache task (before ++ after)))
    (pass : ∀ s, (∀ task ∈ s.tasks, t < task.due) → P s → P { s with clock := max s.clock t })
    (s : State σ) (h : P s) : P (s.advanceTo cache t) := by
  fun_induction State.advanceTo cache t s with
  | case1 s hp =>
    have hn : s.tasks = [] := by
      cases ht : s.tasks with
      | nil => rfl
      | cons => rw [ht] at hp; exact (popFirst_cons_ne_none _ _ hp).elim
    exact pass s (by simp [hn]) h
  | case2 s task others hp hd ih =>
    obtain ⟨before, after, ht, rfl, first⟩ := popFirst_eq_some hp
    exact ih (fire s task before after ht first h)
  | case3 s task others hp hd =>
    obtain ⟨before, after, ht, rfl, first⟩ := popFirst_eq_some hp
    refine pass s (fun other ho => ?_) h
    have hd := Nat.lt_of_not_le hd
    rw [ht, List.mem_append, List.mem_cons] at ho
    rcases ho with ho | rfl | ho
    · exact Nat.lt_of_lt_of_le hd (first other (List.mem_append_left _ ho))
    · exact hd
    · exact Nat.lt_of_lt_of_le hd (first other (List.mem_append_right _ ho))

theorem steps_advanceTo (t : Nat) (s : State σ) (awaited : List Flight) :
    Steps cache named ⟨s, awaited⟩ ⟨s.advanceTo cache t, awaited⟩ := by
  apply advanceTo_induct (P := fun s' => Steps cache named ⟨s, awaited⟩ ⟨s', awaited⟩) t
  case fire => exact fun _ _ _ _ held first h => h.tail (.fire held first)
  case pass => exact fun _ early h => h.tail (.pass t early)
  case h => exact .refl

theorem steps_complete (r : Routine σ α) (s : State σ) (awaited : List Flight) :
    Steps cache named ⟨s, awaited⟩ ⟨(s.complete cache r).2, awaited⟩ := by
  induction r generalizing s with
  | done => exact .refl
  | act change next ih => exact .head (.change _) (ih _ _)
  | clock next ih => exact ih _ _
  | wait d next ih => exact (steps_advanceTo _ s awaited).trans (ih _)

/-- The only computation that a caller waits for ends. -/
theorem Step.finish_only (f : Flight) (outcome : Outcome) (s : State σ) :
    Step cache named ⟨s, [f]⟩ ⟨f.finish cache outcome s, []⟩ :=
  @Step.finish σ cache named s f [] [] outcome

theorem steps_fetch_of_miss {s : State σ} (miss : cache.served? s = none) :
    Steps cache named ⟨(s.begin .miss).2, [.miss s.epoch s.begun]⟩ ⟨(cache.fetch s).2, []⟩ := by
  unfold fetch
  simp only [miss]
  exact (steps_complete cache.compute _ _).tail (.finish_only _ _ _)

theorem steps_fetch (s : State σ) (hh : s.handles ≠ 0) :
    Steps cache named ⟨s, []⟩ ⟨(cache.fetch s).2, []⟩ := by
  cases miss : cache.served? s with
  | none => exact .head (.begin (Nat.pos_of_ne_zero hh) miss) (steps_fetch_of_miss miss)
  | some entry =>
    unfold fetch
    simp only [miss]
    exact .refl

theorem steps_collect (id : Nat) (hn : named id) (s : State σ) :
    Steps cache named ⟨s, []⟩ ⟨(cache.collect id s).2, []⟩ := by
  unfold collect
  split
  · next found => exact .single (.tell hn found)
  · split
    · exact .refl
    · next call tasks found =>
      refine .head (.await hn found) ((steps_advanceTo call.due _ _).trans ?_)
      refine (steps_complete call.rest _ _).trans ?_
      exact .head (.finish_only _ _ _) (.single (.release (Nat.zero_le _)))

/-- The call that an action names. -/
def Action.named? : Action σ → Option Nat
  | .start id | .collect id | .cancel id => some id
  | _ => none

theorem steps_perform (action : Action σ) (hn : ∀ id, action.named? = some id → named id)
    (s : State σ) : Steps cache named ⟨s, []⟩ ⟨(cache.perform action s).2, []⟩ := by
  unfold perform
  split
  · exact .refl
  · next hh =>
    have handle (h : action.needsHandle = true) : s.handles ≠ 0 := fun h0 => hh ⟨h, h0⟩
    cases action with
    | peek => exact .refl
    | fetch => exact steps_fetch s (handle rfl)
    | start id => exact .single (.start (hn id rfl) (handle rfl))
    | collect id => exact steps_collect id (hn id rfl) s
    | cancel id => exact .single (.cancel (hn id rfl))
    | close => exact .single (.close (handle rfl))
    | sleep d => exact steps_advanceTo _ s []
    | acquire => exact .single (.acquire (handle rfl))
    | release => exact .single (.release (Nat.zero_le _))
    | change f => exact .single (.change _)

theorem steps_performAll (actions : List (Action σ))
    (hn : ∀ action ∈ actions, ∀ id, action.named? = some id → named id) (s : State σ) :
    Steps cache named ⟨s, []⟩ ⟨(cache.performAll actions s).2, []⟩ := by
  induction actions generalizing s with
  | nil => exact .refl
  | cons action actions ih =>
    have ha := hn action List.mem_cons_self
    exact (steps_perform action ha s).trans (ih (fun a h => hn a (.tail _ h)) _)

/-- Whatever callers do, the cache stays in reachable scenes. -/
theorem Reachable.performAll {s : State σ} (h : Reachable cache ⟨s, []⟩)
    (actions : List (Action σ)) : Reachable cache ⟨(cache.performAll actions s).2, []⟩ :=
  h.steps (steps_performAll actions (fun _ _ _ _ => trivial) s : Steps cache (fun _ => True) _ _)

theorem Reachable.initial (cache : SignatureCache σ) (outside : σ) :
    Reachable cache ⟨{ outside }, []⟩ :=
  ⟨outside, .refl⟩

/-! ## A small cache -/

/-- A cache that computes a signature in two units of time, serves it for ten, and replaces it after
five. -/
def sample : SignatureCache Unit where
  compute := .wait 2 (.done (.ok ⟨"signature", "date"⟩))
  maxLifetime := 10
  refreshInterval := 5
  background := true
  maxLifetime_le := by decide

end RequestAuth.SignatureCache
