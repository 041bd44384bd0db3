import RequestAuth.Proofs.SignatureCache.Reached

/-!
# A cache stays warm

If computations in the background succeed, and take no longer than is left of the lifetime of an
entry when they begin, then a cache that has stored an entry serves one ever after: callers compute
nothing any more, and each computation in the background begins one refresh interval after the end
of the one whose result was stored before (`warm_of_prompt`). What callers' computations come to,
and when, does not matter. The argument is about the journal alone (`Journal.Legal.fresh`): what is
planned is either due, or has begun, before the entry that it replaces is too old. Where nothing can
be done in the background nothing is planned, and a cache gets cold (`not_warm_withoutBackground`).
-/

namespace RequestAuth.SignatureCache

open Journal

variable {σ : Type} {cache : SignatureCache σ} {j newer older : Journal} {t n d now : Nat}
  {s : State σ} {c : Scene σ}

namespace Journal

/-- Every computation in the background succeeds, and takes no longer than `d`, as far as can be
told at the time `now`. -/
structure Prompt (d now : Nat) (j : Journal) : Prop where
  succeeds : ∀ t n outcome, (t, Event.ended n .refresh outcome) ∈ j → ∃ entry, outcome = .ok entry
  ends : ∀ tb n, (tb, Event.began n .refresh) ∈ j →
    now ≤ tb + d ∨ ∃ te outcome, te ≤ tb + d ∧ (te, .ended n .refresh outcome) ∈ j

/-- What could be told before. -/
theorem Prompt.of_append (prompt : Prompt d now (newer ++ older)) (hn : ∀ x ∈ newer, t ≤ x.1)
    (ht : t ≤ now) : Prompt d t older where
  succeeds t n outcome he := prompt.succeeds t n outcome (List.mem_append_right _ he)
  ends tb n hb := by
    rcases prompt.ends tb n (List.mem_append_right _ hb) with hl | ⟨te, outcome, hl, he⟩
    · exact .inl (Nat.le_trans ht hl)
    · rcases List.mem_append.1 he with he | he
      · exact .inl (Nat.le_trans (hn _ he) hl)
      · exact .inr ⟨te, outcome, hl, he⟩

theorem Legal.plan_ne_idle (h : Legal cache j) (ha : cache.looksAhead = true)
    (prompt : Prompt d now j) (hc : ∀ t, (t, Event.closed) ∉ j)
    (hs : ∃ t n entry, (t, Event.stored n entry) ∈ j) : plan cache j ≠ .idle := by
  obtain ⟨t, n, entry, hs⟩ := hs
  have hf : ∀ t e, (t, Event.refreshFailed e) ∉ j := fun t e hf => by
    obtain ⟨newer, older, rfl⟩ := List.append_of_mem hf
    obtain ⟨m, rest, rfl, -⟩ := h.of_refreshFailed (List.suffix_append _ _)
    obtain ⟨entry, he⟩ := prompt.succeeds t m (.error e) (by simp)
    cases he
  obtain ⟨newer, older, rfl⟩ := List.append_of_mem hs
  exact plan_ne_idle_append ha (fun t ht => hc t (List.mem_append_left _ ht))
    fun t e ht => hf t e (List.mem_append_left _ ht)

/-- What is planned replaces the entry before it is too old. -/
theorem Legal.fresh (h : Legal cache j) (ha : cache.looksAhead = true) (time : OnTime cache j t)
    (prompt : Prompt d t j) (hc : ∀ t, (t, Event.closed) ∉ j)
    (hs : ∃ t n entry, (t, Event.stored n entry) ∈ j)
    (hd : cache.refreshInterval + d < cache.maxLifetime) :
    ∃ stored, entry? j = some stored ∧ t < stored.storedAt + cache.maxLifetime := by
  cases hp : plan cache j with
  | idle => exact absurd hp (h.plan_ne_idle ha prompt hc hs)
  | waiting since =>
    obtain ⟨entry, he⟩ := entry?_of_waiting hp
    refine ⟨_, he, ?_⟩
    calc t ≤ since + cache.refreshInterval := time.due since hp
      _ < since + cache.maxLifetime := by omega
  | signing n =>
    obtain ⟨run, -, stored, he, hb⟩ := h.signing hp
    refine ⟨stored, he, ?_⟩
    rcases prompt.ends _ n hb with hl | ⟨te, outcome, -, hm⟩
    · calc t ≤ stored.storedAt + cache.refreshInterval + d := hl
        _ < stored.storedAt + cache.maxLifetime := by omega
    · exact absurd (mem_completed_iff.2 ⟨te, _, outcome, hm⟩) run.not_completed

/-- When a computation began, it could be told as much of the time before. -/
theorem Legal.prompt_of_began {cause : Cause} {tb : Nat} (h : Legal cache j)
    (hj : j = newer ++ (tb, .began n cause) :: older) (upto : ∀ x ∈ j, x.1 ≤ now)
    (prompt : Prompt d now j) : Prompt d tb older := by
  have sorted := h.sorted
  rw [hj] at sorted
  have hn := (List.pairwise_append.1 sorted).2.2
  rw [hj, List.append_cons] at prompt
  refine prompt.of_append (fun x hx => ?_) (upto (tb, .began n cause) (by simp [hj]))
  rcases List.mem_append.1 hx with hx | hx
  · exact hn x hx _ List.mem_cons_self
  · exact Nat.le_of_eq (congrArg Prod.fst (List.mem_singleton.1 hx)).symm

/-- A caller's computation begins only while nothing has been stored. -/
theorem Legal.not_stored_before_miss {tb : Nat} (h : Legal cache j)
    (ha : cache.looksAhead = true) (hj : j = newer ++ (tb, .began n .miss) :: older)
    (upto : ∀ x ∈ j, x.1 ≤ now) (prompt : Prompt d now j) (hc : ∀ t, (t, Event.closed) ∉ j)
    (hd : cache.refreshInterval + d < cache.maxLifetime) {m : Nat} {entry : DatedSignature} :
    (t, Event.stored m entry) ∉ older := by
  intro hs
  obtain ⟨legal, time, -, may⟩ := h.of_began (hj ▸ List.suffix_append _ _)
  obtain ⟨stored, he, hl⟩ := legal.fresh ha time (h.prompt_of_began hj upto prompt)
    (fun t ht => hc t (by simp [hj, ht])) ⟨t, m, entry, hs⟩ hd
  exact Nat.not_le_of_lt hl (may stored he)

/-- A computation in the background begins one refresh interval after the last store. -/
theorem Legal.in_turn {tb : Nat} (h : Legal cache j)
    (hj : j = newer ++ (tb, .began n .refresh) :: older) :
    ∃ between since m cause entry rest,
      older = between ++ (since, .stored m entry) :: (since, .ended m cause (.ok entry)) :: rest ∧
      (∀ t' k entry', (t', Event.stored k entry') ∉ between) ∧
      tb = since + cache.refreshInterval := by
  obtain ⟨legal, -, -, since, hw, ht⟩ := h.of_began (hj ▸ List.suffix_append _ _)
  obtain ⟨entry, he⟩ := entry?_of_waiting hw
  obtain ⟨m, between, rest, ho, hs, -⟩ := exists_of_entry? he
  obtain ⟨cause, rest, rfl, -⟩ := legal.of_stored ⟨between, ho.symm⟩
  exact ⟨between, since, m, cause, entry, rest, ho, hs, ht⟩

end Journal

/-- A cache that has stored an entry once serves one ever after. -/
structure Warm (cache : SignatureCache σ) (c : Scene σ) : Prop where
  served : (∃ t n entry, (t, Event.stored n entry) ∈ c.state.journal) →
    (cache.served? c.state).isSome = true
  /-- No computation that a caller began found an entry stored before. -/
  no_miss : ∀ newer t n older, c.state.journal = newer ++ (t, .began n .miss) :: older →
    ∀ t' m entry, (t', Event.stored m entry) ∉ older
  /-- A computation in the background begins one refresh interval after the end of the one whose
  result was stored before. -/
  in_turn : ∀ newer t n older, c.state.journal = newer ++ (t, .began n .refresh) :: older →
    ∃ between since m cause entry rest,
      older = between ++ (since, .stored m entry) :: (since, .ended m cause (.ok entry)) :: rest ∧
      (∀ t' k entry', (t', Event.stored k entry') ∉ between) ∧ t = since + cache.refreshInterval

theorem Faithful.served?_isSome {hands : List Flight} {stored : Stored}
    (h : Faithful cache hands s) (he : entry? s.journal = some stored)
    (hl : s.clock < stored.storedAt + cache.maxLifetime) (hp : 0 < cache.maxLifetime) :
    (cache.served? s).isSome = true := by
  unfold served?
  rw [h.slot, he]
  have : s.clock - stored.storedAt < cache.maxLifetime := by omega
  simp [this]

theorem warm_of_prompt (h : Reachable cache c) (hi : cache.refreshInterval ≠ 0)
    (hd : cache.refreshInterval + d < cache.maxLifetime) (hb : cache.background = true)
    (hc : ∀ t, (t, Event.closed) ∉ c.state.journal)
    (alive : c.state.handles ≠ 0 ∨ c.state.tasks ≠ [])
    (prompt : Prompt d c.state.clock c.state.journal) : Warm cache c := by
  have faithful := h.atWork.faithful
  have legal := faithful.legal
  have ha : cache.looksAhead = true := by simp [looksAhead, hi, hb]
  have hp : Planned cache c.awaited c.state :=
    faithful.planned.resolve_left fun hd => alive.elim (absurd hd.handles) (absurd hd.tasks)
  refine ⟨fun hs => ?_, fun newer t n older hj t' m entry => ?_, fun newer t n older hj => ?_⟩
  · obtain ⟨stored, he, hl⟩ := legal.fresh ha (faithful.onTime hp) prompt hc hs hd
    exact faithful.served?_isSome he hl (by omega)
  · exact legal.not_stored_before_miss ha hj faithful.upto prompt hc hd
  · exact legal.in_turn hj

/-- A call has an entry stored that is too old after twelve units of time, and has been replaced by
then. -/
theorem warm_sample :
    Warm sample ⟨(sample.performAll [.start 0, .sleep 12] { outside := () }).2, []⟩ := by
  have hj : (sample.performAll [.start 0, .sleep 12] { outside := () }).2.journal =
      [(9, .stored 1 ⟨"signature", "date"⟩), (9, .ended 1 .refresh (.ok ⟨"signature", "date"⟩)),
        (7, .began 1 .refresh), (2, .stored 0 ⟨"signature", "date"⟩),
        (2, .ended 0 .miss (.ok ⟨"signature", "date"⟩)), (0, .began 0 .miss)] := by cbv
  refine warm_of_prompt (d := 2) ((Reachable.initial sample ()).performAll _) (by decide)
    (by decide) rfl ?_ (.inl (by cbv)) ⟨?_, ?_⟩
  · simp [hj]
  · intro t n outcome he
    obtain ⟨-, -, rfl⟩ : t = 9 ∧ n = 1 ∧ outcome = .ok ⟨"signature", "date"⟩ := by
      simpa [hj] using he
    exact ⟨_, rfl⟩
  · simp [hj]

/-- A cache like the sample that cannot do anything in the background. -/
def withoutBackground : SignatureCache Unit := { sample with background := false }

/-- An entry was stored, and ten units of time have passed since. -/
def coldScene : Scene Unit :=
  ⟨(withoutBackground.performAll [.start 0, .sleep 12] { outside := () }).2, []⟩

theorem journal_coldScene : coldScene.state.journal =
    [(2, .noBackground), (2, .stored 0 ⟨"signature", "date"⟩),
      (2, .ended 0 .miss (.ok ⟨"signature", "date"⟩)), (0, .began 0 .miss)] := by
  cbv

/-- Where nothing can be done in the background a cache does not stay warm, although all else is as
it has to be. -/
theorem not_warm_withoutBackground :
    Reachable withoutBackground coldScene ∧ withoutBackground.refreshInterval ≠ 0 ∧
      withoutBackground.refreshInterval + 2 < withoutBackground.maxLifetime ∧
      (∀ t, (t, Event.closed) ∉ coldScene.state.journal) ∧ coldScene.state.handles ≠ 0 ∧
      Prompt 2 coldScene.state.clock coldScene.state.journal ∧
      ¬ Warm withoutBackground coldScene := by
  have stored : (2, Event.stored 0 ⟨"signature", "date"⟩) ∈ coldScene.state.journal := by
    simp [journal_coldScene]
  have cold : withoutBackground.served? coldScene.state = none := by cbv
  refine ⟨(Reachable.initial withoutBackground ()).performAll _, by decide, by decide, ?_, by cbv,
    ⟨?_, ?_⟩, fun warm => ?_⟩
  · simp [journal_coldScene]
  · simp [journal_coldScene]
  · simp [journal_coldScene]
  · have served := warm.served ⟨2, 0, _, stored⟩
    rw [cold] at served
    cases served

end RequestAuth.SignatureCache
