import RequestAuth.Proofs.SignatureCache.Reached

/-!
# A cache serves the newest entry while it lives

An entry is `Newest` if its computation is the one that was stored last, that was within the
lifetime of entries, and the cache was not closed since. `servesNewest_of_reachable` says that every
way of asking a cache is answered by that entry and by no other, that what is stored was computed
just then, and that results are stored in the order in which their computations end, so that who
asks later is not given an older entry.
-/

namespace RequestAuth.SignatureCache

open Journal

variable {σ : Type} {cache : SignatureCache σ} {j newer older : Journal} {t n : Nat}
  {entry : DatedSignature} {s : State σ} {c : Scene σ}

/-! ## The newest entry -/

/-- The entry of a computation was stored last, not too long ago, and the cache was not closed
since. -/
def Newest (cache : SignatureCache σ) (s : State σ) (n : Nat) (entry : DatedSignature) : Prop :=
  ∃ newer t older, s.journal = newer ++ (t, .stored n entry) :: older ∧
    (∀ t' m entry', (t', Event.stored m entry') ∉ newer) ∧ (∀ t', (t', Event.closed) ∉ newer) ∧
    t ≤ s.clock ∧ s.clock - t < cache.maxLifetime

/-- A cache serves the newest entry and nothing else. -/
structure ServesNewest (cache : SignatureCache σ) (c : Scene σ) : Prop where
  peek : ∀ entry, cache.served? c.state = some entry ↔ ∃ n, Newest cache c.state n entry
  /-- A caller who waits is answered without a computation. -/
  fetch : ∀ entry, cache.fetch c.state = (.ok entry, c.state) ↔ ∃ n, Newest cache c.state n entry
  /-- A call that is sent off is answered without a computation. -/
  start : ∀ id entry, cache.start id c.state =
      { c.state with answers := (id, some (.ok entry)) :: c.state.answers } ↔
    ∃ n, Newest cache c.state n entry
  lifetime : cache.maxLifetime ≤ Duration.ofSeconds 300
  /-- What is stored is what a computation comes to at that instant. -/
  stored : ∀ newer t n entry older, c.state.journal = newer ++ (t, .stored n entry) :: older →
    ∃ cause rest, older = (t, .ended n cause (.ok entry)) :: rest
  /-- Results are stored in the order in which computations end, each at most once. -/
  order : (stores c.state.journal).Sublist (completed c.state.journal) ∧
    (completed c.state.journal).Nodup
  /-- An entry that is served later is the same, or its computation ended later. -/
  later : ∀ named c', Steps cache named c c' → ∀ n entry n' entry', Newest cache c.state n entry →
    Newest cache c'.state n' entry' → n' = n ∨ [n', n].Sublist (completed c'.state.journal)

theorem Faithful.served?_eq_some_iff {hands : List Flight} (h : Faithful cache hands s) :
    cache.served? s = some entry ↔ ∃ n, Newest cache s n entry := by
  unfold served?
  rw [h.slot]
  constructor
  · intro hs
    split at hs
    · cases hs
    · next stored he =>
      split at hs
      · next hl =>
        cases hs
        obtain ⟨n, newer, older, hj, hn, hc⟩ := exists_of_entry? he
        have hm : (stored.storedAt, Event.stored n stored.entry) ∈ s.journal := by simp [hj]
        exact ⟨n, newer, _, older, hj, hn, hc, h.upto _ hm, hl⟩
      · cases hs
  · rintro ⟨n, newer, t, older, hj, hn, hc, -, hl⟩
    rw [hj, entry?_append_stored hn hc]
    exact if_pos hl

theorem later_fetch (miss : cache.served? s = none) :
    Later (s.begin .miss).2 (cache.fetch s).2 :=
  Steps.later (steps_fetch_of_miss miss : Steps cache (fun _ => True) _ _)

theorem later_start (id : Nat) (miss : cache.served? s = none) :
    Later (s.begin .miss).2 (cache.start id s) := by
  unfold SignatureCache.start
  simp only [miss]
  exact (Onward.refl _).carryCall.later

/-- Where a computation has begun, the journal is not what it was. -/
theorem Later.journal_ne {s' : State σ} (h : Later (s.begin .miss).2 s') :
    s'.journal ≠ s.journal := by
  intro he
  have hl := h.journal.length_le
  rw [he] at hl
  exact Nat.not_succ_le_self _ hl

theorem fetch_eq_iff : cache.fetch s = (.ok entry, s) ↔ cache.served? s = some entry := by
  constructor
  · intro h
    cases hs : cache.served? s with
    | none => exact absurd (congrArg (·.2.journal) h) (later_fetch hs).journal_ne
    | some found =>
      unfold SignatureCache.fetch at h
      rw [hs] at h
      cases h
      rfl
  · intro h
    unfold SignatureCache.fetch
    rw [h]

theorem start_eq_iff {id : Nat} :
    cache.start id s = { s with answers := (id, some (.ok entry)) :: s.answers } ↔
      cache.served? s = some entry := by
  constructor
  · intro h
    cases hs : cache.served? s with
    | none => exact absurd (congrArg (·.journal) h) (later_start id hs).journal_ne
    | some found =>
      unfold SignatureCache.start at h
      rw [hs] at h
      have ha := congrArg (·.answers) h
      cases ha
      rfl
  · intro h
    unfold SignatureCache.start
    rw [h]

theorem Newest.stores (h : Newest cache s n entry) :
    ∃ rest, stores s.journal = n :: rest := by
  obtain ⟨newer, t, older, hj, hn, -, -, -⟩ := h
  refine ⟨Journal.stores older, ?_⟩
  simp [hj, stores_eq_nil hn, Journal.stores]

theorem Newest.later {s' : State σ} {n' : Nat} {entry' : DatedSignature}
    (legal : Legal cache s'.journal) (later : Later s s') (h : Newest cache s n entry)
    (h' : Newest cache s' n' entry') : n' = n ∨ [n', n].Sublist (completed s'.journal) := by
  obtain ⟨more, hm⟩ := later.journal
  obtain ⟨rest, hr⟩ := h.stores
  obtain ⟨rest', hr'⟩ := h'.stores
  rw [← hm, stores_append, hr] at hr'
  cases ha : Journal.stores more with
  | nil =>
    rw [ha] at hr'
    cases hr'
    exact .inl rfl
  | cons m middle =>
    rw [ha] at hr'
    cases hr'
    refine .inr (List.Sublist.trans ?_ legal.stores_sublist)
    rw [← hm, stores_append, hr, ha]
    exact .cons_cons _ (List.singleton_sublist.2 (by simp))

theorem servesNewest_of_reachable (h : Reachable cache c) : ServesNewest cache c := by
  have faithful := h.atWork.faithful
  have legal := faithful.legal
  refine ⟨fun entry => faithful.served?_eq_some_iff,
    fun entry => fetch_eq_iff.trans faithful.served?_eq_some_iff,
    fun id entry => start_eq_iff.trans faithful.served?_eq_some_iff, cache.maxLifetime_le, ?_,
    ⟨legal.stores_sublist, legal.completed_nodup⟩, ?_⟩
  · intro newer t n entry older hj
    obtain ⟨cause, rest, ho, -⟩ := legal.of_stored ⟨newer, hj.symm⟩
    exact ⟨cause, rest, ho⟩
  · intro named c' steps n entry n' entry' hn hn'
    exact hn.later (h.steps steps).atWork.faithful.legal (Steps.later steps) hn'

/-- A call has an entry computed and stored, which is served from then on. -/
theorem servesNewest_sample :
    sample.served? (sample.performAll [.start 0, .sleep 3] { outside := () }).2 =
        some ⟨"signature", "date"⟩ ∧
      ServesNewest sample ⟨(sample.performAll [.start 0, .sleep 3] { outside := () }).2, []⟩ :=
  ⟨by cbv, servesNewest_of_reachable ((Reachable.initial sample ()).performAll _)⟩

end RequestAuth.SignatureCache
