import RequestAuth.Proofs.SignatureCache.Journal

/-!
# The laws of legal journals

What holds of every journal that a cache may have: computations have numbers of their own and end at
most once (`Legal.completed_nodup`), what is planned replaces the entry that there is
(`Legal.signing`), times do not decrease (`Legal.sorted`), and a journal was legal at every earlier
act (`Legal.of_suffix`). The first result that is stored after a close is one for a caller whose
computation began after it (`Legal.reopened`).
-/

namespace RequestAuth.SignatureCache.Journal

variable {σ : Type} {cache : SignatureCache σ} {j newer older : Journal} {t n : Nat}

/-! ## Numbers -/

theorem Legal.lt_begins {cause : Cause} (h : Legal cache j) (hb : (t, .began n cause) ∈ j) :
    n < begins j := by
  induction h with
  | began h time may ih =>
    rcases List.mem_cons.1 hb with hb | hb
    · cases hb; simp [begins]
    · have := ih hb; simp only [begins]; omega
  | _ => simp_all [begins]

/-- A number belongs to one computation. -/
theorem Legal.began_unique {t' : Nat} {cause cause' : Cause} (h : Legal cache j)
    (hb : (t, .began n cause) ∈ j) (hb' : (t', .began n cause') ∈ j) : t = t' ∧ cause = cause' := by
  induction h with
  | began h time may ih =>
    rcases List.mem_cons.1 hb with hb | hj <;> rcases List.mem_cons.1 hb' with hb' | hj'
    · cases hb; cases hb'; exact ⟨rfl, rfl⟩
    · cases hb; exact absurd (h.lt_begins hj') (Nat.lt_irrefl _)
    · cases hb'; exact absurd (h.lt_begins hj) (Nat.lt_irrefl _)
    · exact ih hj hj'
  | _ => simp_all

theorem Running.lt_begins {cause : Cause} (run : Running j n cause) (h : Legal cache j) :
    n < begins j := by
  obtain ⟨t, hb⟩ := run.began
  exact h.lt_begins hb

theorem Legal.lt_begins_of_completed (h : Legal cache j) (hc : n ∈ completed j) :
    n < begins j := by
  induction h with
  | stored h _ run _ ih | refreshFailed h _ run _ ih | ended h _ run _ ih =>
    rcases List.mem_cons.1 hc with rfl | hc
    · exact run.lt_begins h
    · exact ih hc
  | began _ _ _ ih => exact Nat.lt_succ_of_lt (ih hc)
  | _ => simp_all [completed, begins]

/-- A computation that begins is running. -/
theorem Legal.running_began (h : Legal cache j) (t : Nat) (cause : Cause) :
    Running ((t, .began (begins j) cause) :: j) (begins j) cause where
  began := ⟨t, List.mem_cons_self⟩
  not_completed hc := Nat.lt_irrefl _ (h.lt_begins_of_completed hc)

theorem Legal.completed_nodup (h : Legal cache j) : (completed j).Nodup := by
  induction h with
  | stored _ _ run _ ih | refreshFailed _ _ run _ ih | ended _ _ run _ ih =>
    exact List.nodup_cons.2 ⟨run.not_completed, ih⟩
  | _ => simp_all [completed]

theorem Legal.stores_sublist (h : Legal cache j) : (stores j).Sublist (completed j) := by
  induction h with
  | stored _ _ _ _ ih => exact ih.cons_cons _
  | refreshFailed _ _ _ _ ih | ended _ _ _ _ ih => exact ih.cons _
  | _ => simp_all [completed, stores]

theorem mem_stores_iff : n ∈ stores j ↔ ∃ t entry, (t, .stored n entry) ∈ j := by
  induction j with
  | nil => simp [stores]
  | cons x j ih =>
    obtain ⟨t, event⟩ := x
    cases event <;> simp [stores, ih, exists_or]

theorem mem_completed_iff :
    n ∈ completed j ↔ ∃ t cause outcome, (t, .ended n cause outcome) ∈ j := by
  induction j with
  | nil => simp [completed]
  | cons x j ih =>
    obtain ⟨t, event⟩ := x
    cases event <;> simp [completed, ih, exists_or]

theorem Running.append {cause : Cause} (run : Running j n cause) (more : Journal)
    (hm : n ∉ completed more) : Running (more ++ j) n cause := by
  obtain ⟨⟨t, hb⟩, hc⟩ := run
  refine ⟨⟨t, List.mem_append_right _ hb⟩, fun hn => ?_⟩
  rw [mem_completed_iff] at hm hn hc
  obtain ⟨t', cause', outcome, he⟩ := hn
  rcases List.mem_append.1 he with he | he
  · exact hm ⟨t', cause', outcome, he⟩
  · exact hc ⟨t', cause', outcome, he⟩

/-! ## The entry in the journal -/

theorem entry?_append (hs : ∀ t m entry, (t, Event.stored m entry) ∉ newer)
    (hc : ∀ t, (t, Event.closed) ∉ newer) : entry? (newer ++ older) = entry? older := by
  induction newer with
  | nil => rfl
  | cons x newer ih =>
    obtain ⟨t', event⟩ := x
    have ih := ih (fun t m entry hx => hs t m entry (.tail _ hx)) fun t hx => hc t (.tail _ hx)
    cases event with
    | stored m entry => exact absurd List.mem_cons_self (hs t' m entry)
    | closed => exact absurd List.mem_cons_self (hc t')
    | _ => exact ih

theorem entry?_append_stored (hs : ∀ t m entry, (t, Event.stored m entry) ∉ newer)
    (hc : ∀ t, (t, Event.closed) ∉ newer) :
    entry? (newer ++ (t, .stored n entry) :: older) = some ⟨entry, t⟩ :=
  entry?_append hs hc

theorem exists_of_entry? {stored : Stored} (h : entry? j = some stored) :
    ∃ n newer older, j = newer ++ (stored.storedAt, .stored n stored.entry) :: older ∧
      (∀ t m entry, (t, Event.stored m entry) ∉ newer) ∧ ∀ t, (t, Event.closed) ∉ newer := by
  induction j with
  | nil => cases h
  | cons x j ih =>
    obtain ⟨t, event⟩ := x
    cases event with
    | stored n entry => cases h; exact ⟨n, [], j, rfl, by simp, by simp⟩
    | closed => cases h
    | _ =>
      obtain ⟨n, newer, older, rfl, hs, hc⟩ := ih h
      exact ⟨n, _ :: newer, older, rfl, by simpa using hs, by simpa using hc⟩

@[simp] theorem stores_append (j j' : Journal) : stores (j ++ j') = stores j ++ stores j' := by
  induction j with
  | nil => rfl
  | cons x j ih =>
    obtain ⟨t, event⟩ := x
    cases event <;> simp [stores, ih]

theorem stores_eq_nil (h : ∀ t m entry, (t, Event.stored m entry) ∉ j) : stores j = [] := by
  refine List.eq_nil_iff_forall_not_mem.2 fun m hm => ?_
  obtain ⟨t, entry, hs⟩ := mem_stores_iff.1 hm
  exact h t m entry hs

/-! ## Closing -/

theorem ClosedSince.lt_begins (h : ClosedSince n j) : n < begins j := by
  induction j with
  | nil => exact h.elim
  | cons x j ih =>
    obtain ⟨t, event⟩ := x
    cases event with
    | began => exact Nat.lt_succ_of_lt (ih h)
    | closed => exact h.elim id ih
    | _ => exact ih h

theorem ClosedSince.append (newer : Journal) (h : ClosedSince n j) :
    ClosedSince n (newer ++ j) := by
  induction newer with
  | nil => exact h
  | cons x newer ih =>
    obtain ⟨t, event⟩ := x
    cases event with
    | closed => exact .inr ih
    | _ => exact ih

theorem not_closedSince_began (j : Journal) (t : Nat) (cause : Cause) :
    ¬ ClosedSince (begins j) ((t, .began (begins j) cause) :: j) :=
  fun hc => Nat.lt_irrefl _ (ClosedSince.lt_begins (j := j) hc)

/-- The cache was closed after the computations of the time before had begun. -/
theorem closedSince_append_closed (newer : Journal) (h : n < begins older) :
    ClosedSince n (newer ++ (t, .closed) :: older) :=
  ClosedSince.append newer (.inl h)

theorem entry?_append_closed (hn : ∀ t n entry, (t, Event.stored n entry) ∉ newer) :
    entry? (newer ++ (t, .closed) :: older) = none := by
  induction newer with
  | nil => rfl
  | cons x newer ih =>
    obtain ⟨t', event⟩ := x
    have ih := ih fun t n entry hx => hn t n entry (List.mem_cons_of_mem _ hx)
    cases event with
    | stored m entry => exact absurd List.mem_cons_self (hn t' m entry)
    | closed => rfl
    | _ => exact ih

/-! ## What is planned -/

theorem Legal.plan_eq_idle (h : Legal cache j) (ha : cache.looksAhead = false) :
    plan cache j = .idle := by
  induction h with
  | @began j t cause h time may ih =>
    cases cause with
    | miss => exact ih
    | refresh =>
      obtain ⟨since, hw, -⟩ := may
      rw [ih] at hw
      cases hw
  | _ => simp_all [plan]

/-- Whoever waits replaces the entry. -/
theorem entry?_of_waiting {since : Nat} (h : plan cache j = .waiting since) :
    ∃ entry, entry? j = some ⟨entry, since⟩ := by
  induction j with
  | nil => cases h
  | cons x j ih =>
    obtain ⟨t, event⟩ := x
    cases event with
    | began n cause =>
      cases cause with
      | miss => exact ih h
      | refresh => cases h
    | stored n entry =>
      simp only [plan] at h
      split at h
      · cases h; exact ⟨entry, rfl⟩
      · cases h
    | closed | refreshFailed => cases h
    | _ => exact ih h

/-- The computation that is planned in the background began when the wait for it was over, and goes
on. -/
structure Signing (cache : SignatureCache σ) (j : Journal) (n : Nat) : Prop where
  running : Running j n .refresh
  open_since : ¬ ClosedSince n j
  on_time : ∃ stored, entry? j = some stored ∧
    (stored.storedAt + cache.refreshInterval, .began n .refresh) ∈ j

theorem Signing.cons_began {m : Nat} {cause : Cause} (h : Signing cache j n) :
    Signing cache ((t, .began m cause) :: j) n := by
  obtain ⟨⟨⟨tb, hb⟩, hc⟩, ho, stored, he, ht⟩ := h
  exact ⟨⟨⟨tb, .tail _ hb⟩, hc⟩, ho, stored, he, .tail _ ht⟩

theorem Legal.signing (h : Legal cache j) (hp : plan cache j = .signing n) :
    Signing cache j n := by
  induction h with
  | nil => cases hp
  | @began j t cause h time may ih =>
    cases cause with
    | miss => exact (ih hp).cons_began
    | refresh =>
      cases hp
      obtain ⟨since, hw, rfl⟩ := may
      obtain ⟨entry, he⟩ := entry?_of_waiting hw
      exact ⟨h.running_began _ _, not_closedSince_began _ _ _, _, he, List.mem_cons_self⟩
  | stored => simp only [plan] at hp; split at hp <;> cases hp
  | refreshFailed | closed => cases hp
  | ended h time run spent ih =>
    obtain ⟨⟨⟨tb, hb⟩, hc⟩, ho, stored, he, ht⟩ := ih hp
    refine ⟨⟨⟨tb, .tail _ hb⟩, fun hm => ?_⟩, ho, stored, he, .tail _ ht⟩
    rcases List.mem_cons.1 hm with rfl | hm
    -- an end that stores nothing is not that of the computation that is planned
    · obtain ⟨t', hb'⟩ := run.began
      obtain ⟨-, rfl⟩ := h.began_unique hb hb'
      exact absurd (spent hp).1 (by decide)
    · exact hc hm
  | noBackground h time alone ih =>
    obtain ⟨⟨⟨tb, hb⟩, hc⟩, ho, stored, he, ht⟩ := ih hp
    exact ⟨⟨⟨tb, .tail _ hb⟩, hc⟩, ho, stored, he, .tail _ ht⟩

theorem Legal.plan_eq_idle_of_entry? (h : Legal cache j) (he : entry? j = none) :
    plan cache j = .idle := by
  cases hp : plan cache j with
  | idle => rfl
  | waiting since =>
    obtain ⟨entry, hs⟩ := entry?_of_waiting hp
    rw [he] at hs; cases hs
  | signing n =>
    obtain ⟨stored, hs, -⟩ := (h.signing hp).on_time
    rw [he] at hs; cases hs

theorem plan_ne_idle_append {entry : DatedSignature} (ha : cache.looksAhead = true)
    (hc : ∀ t, (t, Event.closed) ∉ newer) (hf : ∀ t e, (t, Event.refreshFailed e) ∉ newer) :
    plan cache (newer ++ (t, .stored n entry) :: older) ≠ .idle := by
  induction newer with
  | nil => simp [plan, ha]
  | cons x newer ih =>
    obtain ⟨t', event⟩ := x
    have ih := ih (fun t hx => hc t (.tail _ hx)) (fun t e hx => hf t e (.tail _ hx))
    cases event with
    | began n cause =>
      cases cause with
      | miss => exact ih
      | refresh => simp [plan]
    | stored => simp [plan, ha]
    | closed => exact absurd List.mem_cons_self (hc t')
    | refreshFailed e => exact absurd List.mem_cons_self (hf t' e)
    | _ => exact ih

theorem Wanted.not_closedSince {cause : Cause} (h : Legal cache j)
    (wanted : Wanted cache j n cause) : ¬ ClosedSince n j := by
  cases cause with
  | miss => exact wanted
  | refresh => exact (h.signing wanted).open_since

/-! ## Times -/

theorem Legal.sorted (h : Legal cache j) : j.Pairwise fun x y => y.1 ≤ x.1 := by
  induction h with
  | nil => exact .nil
  | stored _ time _ _ ih | refreshFailed _ time _ _ ih =>
    refine .cons (fun y hy => ?_) (.cons time.upto ih)
    rcases List.mem_cons.1 hy with rfl | hy
    · exact Nat.le_refl _
    · exact time.upto y hy
  | began _ time _ ih | ended _ time _ _ ih | noBackground _ time _ ih | closed _ time ih =>
    exact .cons time.upto ih

/-! ## What was so before -/

/-- What came before an act of the cache was legal, and so was what the act wrote. The end of a
computation alone may be the lesser part of an act. -/
theorem Legal.of_suffix {j' : Journal} (h : Legal cache j) (hs : j' <:+ j)
    (whole : ∀ t n cause outcome rest, j' ≠ (t, .ended n cause outcome) :: rest) :
    Legal cache j' := by
  induction h with
  | nil =>
    rw [List.suffix_nil.1 hs]
    exact .nil
  | began h time may ih =>
    rcases List.suffix_cons_iff.1 hs with rfl | hs
    · exact h.began time may
    · exact ih hs
  | stored h time run wanted ih =>
    rcases List.suffix_cons_iff.1 hs with rfl | hs
    · exact h.stored time run wanted
    · rcases List.suffix_cons_iff.1 hs with rfl | hs
      · exact absurd rfl (whole _ _ _ _ _)
      · exact ih hs
  | refreshFailed h time run wanted ih =>
    rcases List.suffix_cons_iff.1 hs with rfl | hs
    · exact h.refreshFailed time run wanted
    · rcases List.suffix_cons_iff.1 hs with rfl | hs
      · exact absurd rfl (whole _ _ _ _ _)
      · exact ih hs
  | ended h time run spent ih =>
    rcases List.suffix_cons_iff.1 hs with rfl | hs
    · exact absurd rfl (whole _ _ _ _ _)
    · exact ih hs
  | noBackground h time alone ih =>
    rcases List.suffix_cons_iff.1 hs with rfl | hs
    · exact h.noBackground time alone
    · exact ih hs
  | closed h time ih =>
    rcases List.suffix_cons_iff.1 hs with rfl | hs
    · exact h.closed time
    · exact ih hs

/-- When a computation began, the journal was legal and it was time for it. -/
theorem Legal.of_began {cause : Cause} (h : Legal cache j)
    (hs : ((t, .began n cause) :: older) <:+ j) :
    Legal cache older ∧ OnTime cache older t ∧ n = begins older ∧ MayBegin cache older t cause := by
  cases h.of_suffix hs (by simp) with
  | began h time may => exact ⟨h, time, rfl, may⟩

/-- A result is stored when its computation ends, and only while it is wanted. -/
theorem Legal.of_stored {entry : DatedSignature} (h : Legal cache j)
    (hs : ((t, .stored n entry) :: older) <:+ j) :
    ∃ cause rest, older = (t, .ended n cause (.ok entry)) :: rest ∧ Legal cache rest ∧
      OnTime cache rest t ∧ Running rest n cause ∧ Wanted cache rest n cause := by
  cases h.of_suffix hs (by simp) with
  | stored h time run wanted => exact ⟨_, _, rfl, h, time, run, wanted⟩

/-- A failure is noted when the computation that is planned ends. -/
theorem Legal.of_refreshFailed {e : Error} (h : Legal cache j)
    (hs : ((t, .refreshFailed e) :: older) <:+ j) :
    ∃ n rest, older = (t, .ended n .refresh (.error e)) :: rest ∧ Legal cache rest ∧
      Wanted cache rest n .refresh := by
  cases h.of_suffix hs (by simp) with
  | refreshFailed h time run wanted => exact ⟨_, _, rfl, h, wanted⟩

theorem Legal.of_closed (h : Legal cache j) (hs : ((t, .closed) :: older) <:+ j) :
    Legal cache older := by
  cases h.of_suffix hs (by simp) with
  | closed h => exact h

/-! ## After a close -/

/-- What was stored after the cache was closed was wanted then. -/
theorem Legal.stored_after_closed {ts m : Nat} {entry : DatedSignature}
    (h : Legal cache (newer ++ (t, .closed) :: older)) (hs : (ts, .stored m entry) ∈ newer) :
    ∃ cause a b, newer = a ++ (ts, .stored m entry) :: (ts, .ended m cause (.ok entry)) :: b ∧
      Legal cache (b ++ (t, .closed) :: older) ∧
      Running (b ++ (t, .closed) :: older) m cause ∧
      Wanted cache (b ++ (t, .closed) :: older) m cause := by
  obtain ⟨a, b, rfl⟩ := List.append_of_mem hs
  have hs : ((ts, .stored m entry) :: (b ++ (t, .closed) :: older)) <:+
      (a ++ (ts, .stored m entry) :: b) ++ (t, .closed) :: older := ⟨a, by simp⟩
  obtain ⟨cause, rest, he, legal, -, run, wanted⟩ := h.of_stored hs
  cases b with
  | nil => cases he
  | cons x b => cases he; exact ⟨cause, a, b, rfl, legal, run, wanted⟩

/-- No computation that began before the cache was closed is stored after. -/
theorem Legal.not_stored_after_closed {tb ts : Nat} {cause : Cause} {entry : DatedSignature}
    (h : Legal cache (newer ++ (t, .closed) :: older)) (hb : (tb, .began n cause) ∈ older) :
    (ts, .stored n entry) ∉ newer := by
  intro hs
  obtain ⟨cause', a, b, -, legal, -, wanted⟩ := h.stored_after_closed hs
  have hn : n < begins older := (h.of_closed (List.suffix_append _ _)).lt_begins hb
  exact wanted.not_closedSince legal (closedSince_append_closed b hn)

/-- The first result that is stored after the cache was closed is one for a caller, whose
computation began after. -/
theorem Legal.reopened {ts m : Nat} {entry : DatedSignature}
    (h : Legal cache (newer ++ (t, .closed) :: older)) (hs : (ts, .stored m entry) ∈ newer) :
    ∃ n tb te entry, (tb, .began n .miss) ∈ newer ∧ (te, .ended n .miss (.ok entry)) ∈ newer := by
  induction hl : newer.length using Nat.strongRecOn generalizing newer ts m entry with
  | ind length ih =>
    obtain ⟨cause, a, b, rfl, legal, run, wanted⟩ := h.stored_after_closed hs
    cases cause with
    | miss =>
      obtain ⟨tb, hb⟩ := run.began
      rcases List.mem_append.1 hb with hb | hb
      · exact ⟨m, tb, ts, entry, by simp [hb], by simp⟩
      · rcases List.mem_cons.1 hb with hb | hb
        · cases hb
        · exact absurd hs (h.not_stored_after_closed hb)
    | refresh =>
      -- what a refresh replaces was itself stored after the close
      obtain ⟨stored, he, -⟩ := (legal.signing wanted).on_time
      by_cases hn : ∃ t n entry, (t, Event.stored n entry) ∈ b
      · obtain ⟨ts', m', entry', hs'⟩ := hn
        obtain ⟨n, tb, te, entry'', hb, he⟩ := ih b.length (by simp [← hl]; omega) legal hs' rfl
        exact ⟨n, tb, te, entry'', by simp [hb], by simp [he]⟩
      · rw [entry?_append_closed (by simpa using hn)] at he
        cases he

end RequestAuth.SignatureCache.Journal
