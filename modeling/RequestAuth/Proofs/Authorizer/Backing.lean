import RequestAuth.Proofs.Authorizer.Source
import RequestAuth.Proofs.Authorizer.Steps
import RequestAuth.Proofs.SignatureCache.Upkeep

/-!
# What backs the answers of an authorizer

A signature may be computed in the background, for one caller or for another, and may be stored or
not; credentials are loaded for any of these and for claims. Whatever is handed out of this is
`Backed`: it was made with one of the credentials that the provider had given by then, and the
compartment beside it is the one that was asked for, or that of the latest credential that can be
signed with. `Sound` scenes are those where this holds of all that was told and is held, and ensured
by all that is under way; no step leads out of them.
-/

namespace RequestAuth.Authorizer

open SignatureCache (Upheld Contract takeAnswer? takeCall?)
open Source (Makes Vouched UpToDate latest?)

variable {σ : Type} {authorizer : Authorizer σ} {host : String} {s s' : State σ}
  {callers : List (Caller σ)} {told : List (Reply σ)} {c c' : Scene σ}

/-! ## Answers -/

/-- The signature is made with one of the credentials received. -/
def Backed (dateAt : Nat → DateTime) (host : String) (received : List Credential)
    (entry : DatedSignature) : Prop :=
  ∃ credential ∈ received, Makes dateAt host credential entry

/-- The headers are for such a signature, and for the compartment that was asked for or else that of
the latest credential that can be signed with. -/
def BackedHeaders (dateAt : Nat → DateTime) (host : String) (received : List Credential)
    (compartment : Option String) (more : Http.Headers) : Prop :=
  ∃ entry chosen, Backed dateAt host received entry ∧ headers entry chosen = .ok more ∧
    (compartment <|> (latest? received).bind Credential.defaultCompartment) = some chosen

/-- The compartment that an action asks for. -/
def Action.compartment : Action σ → Option String
  | .authorize compartment | .sign _ compartment => compartment
  | _ => none

/-- The headers of the request that an action is about, before it. -/
def Action.request : Action σ → Http.Headers
  | .sign request _ => request
  | _ => []

/-- Signatures and headers in the answer are backed by the credentials received by then. -/
structure Reply.Backed (dateAt : Nat → DateTime) (host : String) (r : Reply σ) : Prop where
  value : ∀ value, r.answer = .authorization (.ok (some value)) ∨
    r.answer = .collected (some (some (.ok (some value)))) →
      ∃ entry, Authorizer.Backed dateAt host r.received entry ∧ value = entry.headerValue
  headers : ∀ more, r.answer = .headers (.ok (some more)) →
    BackedHeaders dateAt host r.received r.action.compartment more
  signed : ∀ request, r.answer = .signed (.ok ()) request →
    request = r.action.request ∨ ∃ more, request = r.action.request.setAll more ∧
      BackedHeaders dateAt host r.received r.action.compartment more

/-- An answer that hands nothing out. -/
def Answer.IsPlain : Answer → Prop
  | .authorization _ | .headers _ | .signed .. | .collected (some (some _)) => False
  | .done | .region _ | .claim _ | .noHandle | .collected none | .collected (some none) => True

section Replies

variable {dateAt : Nat → DateTime} {r : Reply σ}

theorem Reply.backed_of_isPlain (h : r.answer.IsPlain) : r.Backed dateAt host := by
  refine ⟨fun value hv => ?_, fun more hm => ?_, fun request hr => ?_⟩
  · obtain hv | hv := hv <;> simp [hv, Answer.IsPlain] at h
  · simp [hm, Answer.IsPlain] at h
  · simp [hr, Answer.IsPlain] at h

theorem Reply.backed_of_value {answer : Except Error (Option String)}
    (hr : r.answer = .authorization answer ∨ r.answer = .collected (some (some answer)))
    (h : ∀ value, answer = .ok (some value) →
      ∃ entry, Authorizer.Backed dateAt host r.received entry ∧ value = entry.headerValue) :
    r.Backed dateAt host := by
  refine ⟨fun value hv => h value ?_, fun more hm => ?_, fun request hq => ?_⟩
  · obtain hr | hr := hr <;> simpa [hr] using hv
  · obtain hr | hr := hr <;> simp [hr] at hm
  · obtain hr | hr := hr <;> simp [hr] at hq

theorem Reply.backed_of_headers {answer : Except Error (Option Http.Headers)}
    (hr : r.answer = .headers answer)
    (h : ∀ more, answer = .ok (some more) →
      BackedHeaders dateAt host r.received r.action.compartment more) : r.Backed dateAt host := by
  refine ⟨fun value hv => ?_, fun more hm => h more ?_, fun request hq => ?_⟩
  · simp [hr] at hv
  · simpa [hr] using hm
  · simp [hr] at hq

theorem Reply.backed_of_signed {answer : Except Error Unit} {request : Http.Headers}
    (hr : r.answer = .signed answer request)
    (h : answer = .ok () → request = r.action.request ∨
      ∃ more, request = r.action.request.setAll more ∧
        BackedHeaders dateAt host r.received r.action.compartment more) :
    r.Backed dateAt host := by
  refine ⟨fun value hv => ?_, fun more hm => ?_, fun request' hq => ?_⟩
  · simp [hr] at hv
  · simp [hr] at hm
  · obtain ⟨ho, rfl⟩ : answer = .ok () ∧ request = request' := by simpa [hr] using hq
    exact h ho

end Replies

theorem eq_of_tolerate {outcome : Outcome} {entry : DatedSignature}
    (h : tolerate outcome = .ok (some entry)) : outcome = .ok entry := by
  cases outcome with
  | ok => simpa [tolerate] using h
  | error e =>
    simp only [tolerate] at h
    split at h <;> simp at h

theorem valueOf_eq_some {outcome : Outcome} {value : String}
    (h : valueOf outcome = .ok (some value)) :
    ∃ entry, outcome = .ok entry ∧ value = entry.headerValue := by
  unfold valueOf at h
  cases ht : tolerate outcome with
  | error e => simp [ht, Except.map] at h
  | ok found =>
    cases found with
    | none => simp [ht, Except.map] at h
    | some entry =>
      refine ⟨entry, eq_of_tolerate ht, ?_⟩
      simpa [ht, Except.map, eq_comm] using h

theorem chooseCompartment_eq_ok {compartment : Option String} {chosen : String}
    (h : chooseCompartment compartment s = .ok chosen) :
    (compartment <|> s.outside.credential.bind Credential.defaultCompartment) = some chosen := by
  unfold chooseCompartment at h
  split at h
  · next he =>
    cases h
    exact he
  · cases h

theorem headersOf_eq_some {compartment : Option String} {outcome : Outcome}
    {more : Http.Headers} (h : headersOf compartment outcome s = .ok (some more)) :
    ∃ entry chosen, outcome = .ok entry ∧ headers entry chosen = .ok more ∧
      (compartment <|> s.outside.credential.bind Credential.defaultCompartment) = some chosen := by
  unfold headersOf at h
  split at h
  · cases h
  · cases h
  · next entry ht =>
    cases hc : chooseCompartment compartment s with
    | error => simp [hc, bind, Except.bind] at h
    | ok chosen =>
      refine ⟨entry, chosen, eq_of_tolerate ht, ?_, chooseCompartment_eq_ok hc⟩
      cases hm : headers entry chosen with
      | error => simp [hc, hm, bind, Except.bind, Except.map] at h
      | ok => simpa [hc, hm, bind, Except.bind, Except.map] using h

variable {dateAt : Nat → DateTime}

theorem backedHeaders_of_headersOf {compartment : Option String} {outcome : Outcome}
    {more : Http.Headers} (fresh : UpToDate s.outside)
    (vouched : Vouched dateAt host outcome s.outside)
    (h : headersOf compartment outcome s = .ok (some more)) :
    BackedHeaders dateAt host s.outside.received compartment more := by
  obtain ⟨entry, chosen, ho, hm, hc⟩ := headersOf_eq_some h
  rw [fresh.credential] at hc
  exact ⟨entry, chosen, vouched entry ho, hm, hc⟩

theorem backed_answer {outcome : Outcome} (fresh : UpToDate s.outside)
    (vouched : Vouched dateAt host outcome s.outside) (wish : Wish) :
    (reply (wish.action : Action σ) (wish.answer outcome s) s).Backed dateAt host := by
  have value {v : String} (h : valueOf outcome = .ok (some v)) :
      ∃ entry, Authorizer.Backed dateAt host s.outside.received entry ∧ v = entry.headerValue := by
    obtain ⟨entry, ho, hv⟩ := valueOf_eq_some h
    exact ⟨entry, vouched entry ho, hv⟩
  cases wish with
  | authorization => exact Reply.backed_of_value (.inl rfl) fun _ hv => value hv
  | collect id => exact Reply.backed_of_value (.inr rfl) fun _ hv => value hv
  | authorize compartment =>
    exact Reply.backed_of_headers rfl fun _ hm => backedHeaders_of_headersOf fresh vouched hm
  | sign request compartment =>
    simp only [reply, Wish.answer]
    cases hh : headersOf compartment outcome s with
    | error e => exact @Reply.backed_of_signed _ _ _ _ (.error e) request rfl fun h => by cases h
    | ok found =>
      cases found with
      | none => exact Reply.backed_of_signed rfl fun _ => .inl rfl
      | some more =>
        refine Reply.backed_of_signed rfl fun _ => .inr ⟨more, rfl, ?_⟩
        exact backedHeaders_of_headersOf fresh vouched hh

/-! ## Scenes -/

/-- What a caller waits for ensures that it is backed. -/
def Caller.Ensures (dateAt : Nat → DateTime) (host : String) (source : Source σ) :
    Caller σ → Prop
  | signature _ _ _ rest => rest.Ensures (Vouched dateAt host) source
  | claim _ rest => rest.Ensures Source.Known source

theorem Caller.Ensures.later {source source' : Source σ} {caller : Caller σ}
    (h : caller.Ensures dateAt host source) (on : source ≤ source') :
    caller.Ensures dateAt host source' := by
  cases caller <;> exact Routine.Ensures.later h on

theorem Caller.Ensures.step? {source source' : Source σ} {caller caller' : Caller σ} {now : Nat}
    (h : caller.Ensures dateAt host source)
    (hs : caller.step? now source = some (caller', source')) :
    source ≤ source' ∧ caller'.Ensures dateAt host source' := by
  cases caller with
  | signature wish epoch number rest =>
    obtain ⟨⟨rest', source''⟩, hr, he⟩ := Option.map_eq_some_iff.1 hs
    cases he
    exact Routine.Ensures.step? h hr
  | claim name rest =>
    obtain ⟨⟨rest', source''⟩, hr, he⟩ := Option.map_eq_some_iff.1 hs
    cases he
    exact Routine.Ensures.step? h hr

/-- All that was told is backed, and so is all that is held or comes of what is under way. -/
structure Sound (dateAt : Nat → DateTime) (host : String) (c : Scene σ) : Prop where
  upToDate : UpToDate c.state.outside
  upheld : Upheld (Vouched dateAt host) c.state.outside c.state
  callers : ∀ caller ∈ c.callers, caller.Ensures dateAt host c.state.outside
  told : ∀ r ∈ c.told, r.Backed dateAt host ∧ r.received <:+ c.state.outside.received

theorem contract (hh : authorizer.host = some host) {source : Source σ} (h : UpToDate source) :
    Contract authorizer.cache (Vouched authorizer.dateAt host) source := by
  refine ⟨Source.vouched_monotone, ?_⟩
  change (Source.compute authorizer.provider authorizer.dateAt authorizer.host).Ensures _ source
  rw [hh]
  exact Source.compute_ensures h

namespace Sound

variable {before after : List (Caller σ)} {caller : Caller σ} {r : Reply σ}

/-- The state moves on and keeps up what it holds. -/
theorem moveOn (h : Sound dateAt host ⟨s, callers, told⟩)
    (upheld : Upheld (Vouched dateAt host) s.outside s') :
    Sound dateAt host ⟨s', callers, told⟩ where
  upToDate := upheld.outside.2 h.upToDate
  upheld := ⟨le_rfl, upheld.slot, upheld.answers, upheld.tasks⟩
  callers caller hm := (h.callers caller hm).later upheld.outside
  told r hm := (h.told r hm).imp_right fun hs => hs.trans upheld.outside.1

theorem withCaller (h : Sound dateAt host ⟨s, before ++ after, told⟩)
    (ensures : caller.Ensures dateAt host s.outside) :
    Sound dateAt host ⟨s, before ++ caller :: after, told⟩ where
  upToDate := h.upToDate
  upheld := h.upheld
  told := h.told
  callers other hm := by
    by_cases he : other = caller
    · exact he ▸ ensures
    · exact h.callers other (by simpa [he] using hm)

theorem withoutCaller (h : Sound dateAt host ⟨s, before ++ caller :: after, told⟩) :
    Sound dateAt host ⟨s, before ++ after, told⟩ :=
  ⟨h.upToDate, h.upheld, fun other hm => h.callers other (SignatureCache.mem_of_mem_others hm),
    h.told⟩

theorem withReply (h : Sound dateAt host ⟨s, callers, told⟩) (backed : r.Backed dateAt host)
    (hr : r.received = s.outside.received) : Sound dateAt host ⟨s, callers, r :: told⟩ :=
  ⟨h.upToDate, h.upheld, h.callers,
    List.forall_mem_cons.2 ⟨⟨backed, hr ▸ List.suffix_refl _⟩, h.told⟩⟩

end Sound

theorem Wish.upheld_release {post : Outcome → Source σ → Prop} {first : Source σ}
    (h : Upheld post first s) (wish : Wish) : Upheld post first (wish.release s) := by
  cases wish with
  | collect id => exact (h.withHandles _).abandon
  | authorization | authorize | sign => exact h

/-- A call is asked for that has ended, or that is not known. -/
theorem Sound.collect (h : Sound authorizer.dateAt host ⟨s, callers, told⟩) {id : Nat}
    (atOnce : AtOnce authorizer s (.collect id)) :
    Upheld (Vouched authorizer.dateAt host) s.outside (authorizer.perform (.collect id) s).2 ∧
      (reply (.collect id) (authorizer.perform (.collect id) s).1
        (authorizer.perform (.collect id) s).2).Backed authorizer.dateAt host := by
  cases pending : takeAnswer? id s.answers with
  | some found =>
    obtain ⟨answer, answers⟩ := found
    obtain ⟨taken, vouched⟩ := h.upheld.takeAnswer pending
    have he : authorizer.perform (.collect id) s =
        (.collected (some (answer.map valueOf)), { s with answers }) := by
      simp only [Authorizer.perform, Action.needsHandle, Bool.false_eq_true, false_and, if_false,
        Authorizer.collect, SignatureCache.collect, pending]
      rfl
    rw [he]
    refine ⟨taken, ?_⟩
    cases answer with
    | none => exact Reply.backed_of_isPlain trivial
    | some outcome =>
      exact backed_answer (s := { s with answers }) h.upToDate (vouched outcome rfl) (.collect id)
  | none =>
    have unknown : takeCall? id s.tasks = none := atOnce.resolve_left (absurd pending)
    have he : authorizer.perform (.collect id) s = (.collected none, s) := by
      simp [Authorizer.perform, Action.needsHandle, Authorizer.collect, SignatureCache.collect,
        pending, unknown]
    rw [he]
    exact ⟨h.upheld, Reply.backed_of_isPlain trivial⟩

/-- A signature is asked for that is there. -/
theorem Sound.wish (hh : authorizer.host = some host)
    (h : Sound authorizer.dateAt host ⟨s, callers, told⟩) (wish : Wish)
    (new : ∀ id, wish ≠ .collect id) (handle : s.handles ≠ 0)
    (atOnce : s.handles = 0 ∨ authorizer.host = none ∨ authorizer.cache.served? s ≠ none) :
    Upheld (Vouched authorizer.dateAt host) s.outside (authorizer.perform wish.action s).2 ∧
      (reply wish.action (authorizer.perform wish.action s).1
        (authorizer.perform wish.action s).2).Backed authorizer.dateAt host := by
  have known : authorizer.host ≠ none := by simp [hh]
  have served := (atOnce.resolve_left handle).resolve_left known
  obtain ⟨entry, he⟩ := Option.ne_none_iff_exists'.1 served
  rw [perform_of_signature new handle (signature_of_served known he)]
  exact ⟨h.upheld, backed_answer h.upToDate (h.upheld.served he) wish⟩

/-- What is answered at once. -/
theorem Sound.perform (hh : authorizer.host = some host)
    (h : Sound authorizer.dateAt host ⟨s, callers, told⟩) {action : Action σ}
    (atOnce : AtOnce authorizer s action) :
    Upheld (Vouched authorizer.dateAt host) s.outside (authorizer.perform action s).2 ∧
      (reply action (authorizer.perform action s).1 (authorizer.perform action s).2).Backed
        authorizer.dateAt host := by
  have contract := contract hh h.upToDate
  have upheld : Upheld (Vouched authorizer.dateAt host) s.outside s := h.upheld
  have plain {answer : Answer} {s' : State σ} (he : authorizer.perform action s = (answer, s'))
      (hp : answer.IsPlain) (hu : Upheld (Vouched authorizer.dateAt host) s.outside s') :
      Upheld (Vouched authorizer.dateAt host) s.outside (authorizer.perform action s).2 ∧
        (reply action (authorizer.perform action s).1 (authorizer.perform action s).2).Backed
          authorizer.dateAt host := by
    rw [he]
    exact ⟨hu, Reply.backed_of_isPlain hp⟩
  by_cases noHandle : action.needsHandle = true ∧ s.handles = 0
  · exact plain (if_pos noHandle) trivial upheld
  · have handle (needs : action.needsHandle = true) : s.handles ≠ 0 := fun h0 =>
      noHandle ⟨needs, h0⟩
    cases action with
    | authorization => exact h.wish hh .authorization nofun (handle rfl) atOnce
    | authorize compartment => exact h.wish hh (.authorize compartment) nofun (handle rfl) atOnce
    | sign request compartment =>
      exact h.wish hh (.sign request compartment) nofun (handle rfl) atOnce
    | collect id => exact h.collect atOnce
    | claim name =>
      obtain ⟨credential, hc⟩ := Option.ne_none_iff_exists'.1 (atOnce.resolve_left (handle rfl))
      have he : authorizer.perform (.claim name) s =
          (.claim (claimOf name (.ok credential)), s) := by
        simp only [Authorizer.perform, noHandle, if_false, claim, someCredential, hc, claimOf]
        split <;> rfl
      exact plain he trivial upheld
    | sleep d => exact atOnce.elim
    | region => exact plain (if_neg noHandle) trivial upheld
    | close => exact plain (if_neg noHandle) trivial upheld.close
    | acquire => exact plain (if_neg noHandle) trivial (upheld.withHandles _)
    | release => exact plain (if_neg noHandle) trivial (upheld.withHandles _).abandon
    | start id =>
      have hs : authorizer.start id s = authorizer.cache.start id s := by simp [start, hh]
      have he : authorizer.perform (.start id) s = (.done, authorizer.start id s) := if_neg noHandle
      rw [hs] at he
      exact plain he trivial (upheld.start contract)
    | change f =>
      exact plain (if_neg noHandle) trivial (upheld.moveOn contract (Source.le_of_eq rfl rfl rfl))

theorem Step.sound (hh : authorizer.host = some host) (step : Step authorizer c c')
    (h : Sound authorizer.dateAt host c) : Sound authorizer.dateAt host c' := by
  have contract := contract hh h.upToDate
  have upheld := h.upheld
  cases step with
  | act action atOnce =>
    obtain ⟨upheld, backed⟩ := h.perform hh atOnce
    exact (h.moveOn upheld).withReply backed rfl
  | pass t early => exact h.moveOn ⟨upheld.outside, upheld.slot, upheld.answers, upheld.tasks⟩
  | wake d => exact h.withReply (Reply.backed_of_isPlain trivial) rfl
  | fire held first => exact h.moveOn (upheld.fire contract held)
  | @begin s callers told wish new handle known miss =>
    have begun : Sound authorizer.dateAt host ⟨(s.begin .miss).2, [] ++ callers, told⟩ :=
      h.moveOn (upheld.begin .miss)
    exact begun.withCaller contract.compute
  | @await s callers told id call tasks found =>
    obtain ⟨taken, rest⟩ := upheld.takeCall found
    have moved : Sound authorizer.dateAt host
        ⟨{ s with tasks, handles := s.handles + 1 }, [] ++ callers, told⟩ :=
      h.moveOn (taken.withHandles _)
    exact moved.withCaller rest
  | @load s callers told name handle new =>
    have h : Sound authorizer.dateAt host ⟨s, [] ++ callers, told⟩ := h
    exact h.withCaller (Source.load_ensures _ _)
  | @go s before after told caller caller' outside on =>
    obtain ⟨later, ensures⟩ := (h.callers caller (by simp)).step? on
    exact (h.withoutCaller.moveOn (upheld.moveOn contract later)).withCaller ensures
  | @finish s s' before after told wish epoch number outcome done =>
    have vouched : Vouched authorizer.dateAt host outcome s.outside :=
      h.callers (.signature wish epoch number (.done outcome)) (by simp) s.outside le_rfl
    have finished : Upheld (Vouched authorizer.dateAt host) s.outside s' :=
      done ▸ wish.upheld_release (upheld.finishMiss vouched)
    -- the caller is told in the state that its call leaves, where the outcome is still vouched for
    have next := h.withoutCaller.moveOn finished
    have vouched' := Source.vouched_monotone outcome finished.outside vouched
    exact next.withReply (backed_answer next.upToDate vouched' wish) rfl
  | tell => exact h.withoutCaller.withReply (Reply.backed_of_isPlain trivial) rfl
  | @leave s before after told caller =>
    have released : Upheld (Vouched authorizer.dateAt host) s.outside (caller.release s) := by
      cases caller with
      | signature wish => exact wish.upheld_release upheld
      | claim => exact upheld
    exact h.withoutCaller.moveOn released

theorem sound_new (world : World σ) : Sound dateAt host ⟨{ outside := { world } }, [], []⟩ where
  upToDate := Source.upToDate_new world
  upheld := .initial _ _
  callers := by simp
  told := by simp

theorem sound_of_reachable (hh : authorizer.host = some host) (h : Reachable authorizer c) :
    Sound authorizer.dateAt host c := by
  obtain ⟨world, steps⟩ := h
  induction steps with
  | refl => exact sound_new world
  | tail _ step ih => exact step.sound hh ih

end RequestAuth.Authorizer
