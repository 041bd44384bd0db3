import RequestAuth.Proofs.SignatureCache.Reached

/-!
# Computations in the background keep their distance

A computation in the background begins one refresh interval after the store that it was planned at,
and that store came after every computation that had begun in the background before
(`Journal.le_of_waiting`). So any two of them begin at least one interval apart, however many are
under way at a time, and none begins within one interval of the first store
(`paced_of_reachable`).
-/

namespace RequestAuth.SignatureCache

open Journal

variable {σ : Type} {cache : SignatureCache σ} {j older newer : Journal} {t : Nat} {c : Scene σ}

namespace Journal

/-- When computations in the background began, the latest first. -/
def starts : Journal → List Nat
  | [] => []
  | (t, event) :: j =>
    match event with
    | .began _ .refresh => t :: starts j
    | _ => starts j

theorem mem_starts_iff : t ∈ starts j ↔ ∃ n, (t, .began n .refresh) ∈ j := by
  induction j with
  | nil => simp [starts]
  | cons x j ih =>
    obtain ⟨t', event⟩ := x
    cases event with
    | began n cause => cases cause <;> simp [starts, ih, exists_or]
    | _ => simp [starts, ih]

/-! ## Distances -/

/-- The wait for a replacement begins after all computations in the background that there were. -/
theorem le_of_waiting {since : Nat} (sorted : j.Pairwise fun x y => y.1 ≤ x.1)
    (hp : plan cache j = .waiting since) (ht : t ∈ starts j) : t ≤ since := by
  induction j with
  | nil => cases ht
  | cons x j ih =>
    obtain ⟨t', event⟩ := x
    obtain ⟨upto, sorted⟩ := List.pairwise_cons.1 sorted
    have ih := ih sorted
    cases event with
    | stored m entry =>
      simp only [plan] at hp
      split at hp
      · cases hp
        obtain ⟨n, hb⟩ := mem_starts_iff.1 ht
        exact upto (t, .began n .refresh) (by simpa using hb)
      · cases hp
    | began m cause =>
      cases cause with
      | miss => exact ih hp ht
      | refresh => cases hp
    | refreshFailed | closed => cases hp
    | ended | noBackground => exact ih hp ht

theorem Legal.starts_pairwise (h : Legal cache j) :
    (starts j).Pairwise fun later earlier => earlier + cache.refreshInterval ≤ later := by
  induction h with
  | nil => exact .nil
  | @began j t cause h time may ih =>
    cases cause with
    | miss => exact ih
    | refresh =>
      obtain ⟨since, hw, rfl⟩ := may
      -- all that began before did so before the plan that ends now was made
      refine .cons (fun t' ht' => ?_) ih
      have hl : t' ≤ since := le_of_waiting h.sorted hw ht'
      omega
  | stored _ _ _ _ ih | refreshFailed _ _ _ _ ih | ended _ _ _ _ ih | noBackground _ _ _ ih
  | closed _ _ ih => exact ih

/-- A computation in the background begins one interval after a store. -/
theorem Legal.stored_of_mem_starts (h : Legal cache j) (ht : t ∈ starts j) :
    ∃ since m entry, (since, .stored m entry) ∈ j ∧ t = since + cache.refreshInterval := by
  obtain ⟨n, hb⟩ := mem_starts_iff.1 ht
  obtain ⟨newer, older, rfl⟩ := List.append_of_mem hb
  obtain ⟨-, -, -, since, hw, ht⟩ := h.of_began (List.suffix_append _ _)
  obtain ⟨entry, he⟩ := entry?_of_waiting hw
  obtain ⟨m, between, rest, ho, -⟩ := exists_of_entry? he
  exact ⟨since, m, entry, by simp [ho], ht⟩

/-- Where nothing is planned nothing begins. -/
theorem Legal.starts_eq_nil (h : Legal cache j) (ha : cache.looksAhead = false) :
    starts j = [] := by
  induction h with
  | nil => rfl
  | @began j t cause h time may ih =>
    cases cause with
    | miss => exact ih
    | refresh =>
      obtain ⟨since, hw, -⟩ := may
      rw [h.plan_eq_idle ha] at hw
      cases hw
  | stored _ _ _ _ ih | refreshFailed _ _ _ _ ih | ended _ _ _ _ ih | noBackground _ _ _ ih
  | closed _ _ ih => exact ih

/-! ## The first store -/

/-- Where something was stored, something was stored first. -/
theorem exists_first_store {m : Nat} {entry : DatedSignature} (hs : (t, .stored m entry) ∈ j) :
    ∃ newer t₀ m₀ entry₀ older, j = newer ++ (t₀, .stored m₀ entry₀) :: older ∧
      ∀ t' m' entry', (t', Event.stored m' entry') ∉ older := by
  induction j generalizing t m entry with
  | nil => cases hs
  | cons x j ih =>
    by_cases hj : ∃ t' m' entry', (t', Event.stored m' entry') ∈ j
    · obtain ⟨t', m', entry', hm⟩ := hj
      obtain ⟨newer, t₀, m₀, entry₀, older, rfl, none_before⟩ := ih hm
      exact ⟨x :: newer, t₀, m₀, entry₀, older, rfl, none_before⟩
    · simp only [not_exists] at hj
      rcases List.mem_cons.1 hs with rfl | hs
      · exact ⟨[], t, m, entry, j, rfl, hj⟩
      · exact absurd hs (hj t m entry)

theorem first_store_le {t₀ m₀ m : Nat} {entry₀ entry : DatedSignature}
    (sorted : j.Pairwise fun x y => y.1 ≤ x.1) (hj : j = newer ++ (t₀, .stored m₀ entry₀) :: older)
    (none_before : ∀ t' m' entry', (t', Event.stored m' entry') ∉ older)
    (hs : (t, .stored m entry) ∈ j) : t₀ ≤ t := by
  subst hj
  obtain ⟨-, -, le⟩ := List.pairwise_append.1 sorted
  rcases List.mem_append.1 hs with hs | hs
  · exact le _ hs _ List.mem_cons_self
  · rcases List.mem_cons.1 hs with he | hs
    · cases he
      exact Nat.le_refl _
    · exact absurd hs (none_before t m entry)

end Journal

/-- Computations in the background begin no more often than once in a refresh interval. -/
structure Paced (cache : SignatureCache σ) (c : Scene σ) : Prop where
  /-- The times at which any two of them began, the later one first. -/
  apart : (starts c.state.journal).Pairwise fun later earlier =>
    earlier + cache.refreshInterval ≤ later
  /-- None begins within a refresh interval of the first store. -/
  after_first_store : ∀ t ∈ starts c.state.journal, ∃ newer t₀ m entry older,
    c.state.journal = newer ++ (t₀, .stored m entry) :: older ∧
      (∀ t' m' entry', (t', Event.stored m' entry') ∉ older) ∧ t₀ + cache.refreshInterval ≤ t
  never : cache.refreshInterval = 0 → starts c.state.journal = []

theorem paced_of_reachable (h : Reachable cache c) : Paced cache c := by
  have legal := h.atWork.faithful.legal
  refine ⟨legal.starts_pairwise, fun t ht => ?_, fun hi => ?_⟩
  · obtain ⟨since, m, entry, hs, rfl⟩ := legal.stored_of_mem_starts ht
    obtain ⟨newer, t₀, m₀, entry₀, older, hj, none_before⟩ := exists_first_store hs
    have hl : t₀ ≤ since := first_store_le legal.sorted hj none_before hs
    exact ⟨newer, t₀, m₀, entry₀, older, hj, none_before, Nat.add_le_add_right hl _⟩
  · exact legal.starts_eq_nil (by simp [looksAhead, hi])

/-- The first store is at two units of time, and two computations begin in the background after. -/
theorem paced_sample :
    starts (sample.performAll [.fetch, .sleep 15] { outside := () }).2.journal = [14, 7] ∧
      Paced sample ⟨(sample.performAll [.fetch, .sleep 15] { outside := () }).2, []⟩ :=
  ⟨by cbv, paced_of_reachable ((Reachable.initial sample ()).performAll _)⟩

end RequestAuth.SignatureCache
