import Mathlib.Data.List.Basic
import RequestAuth.Text.Part

/-!
# Where a text is cut

A text that is cut at a separator can be put together in one way only, if the separator does not
occur in what follows it (`Text.eq_of_append_cons_eq`). `Text.contains` tells whether a part has a
place in a text (`Text.contains_iff`). `Text.splitLast?` finds the last place of a part, if there is
one (`Text.splitLast?_append`), and `Text.afterAnyCase?` a part at the start, whatever the case of
its letters (`Text.afterAnyCase?_append`).
-/

namespace RequestAuth.Text

variable {α : Type} {q : α} {a b c d u v : List α} {part text rest : List Char}

/-- What holds of each character of a text is seen by going through the text. -/
theorem forall_of_all {P : Char → Prop} [DecidablePred P] (h : text.all fun c => P c) :
    ∀ c ∈ text, P c :=
  fun c hc => of_decide_eq_true (List.all_eq_true.1 h c hc)

/-! ## Separators -/

/-- Of two places of a separator, one is the other or comes after it. -/
theorem eq_or_exists_of_append_cons_eq (h : u ++ q :: c = v ++ q :: d) (hv : q ∉ v) :
    u = v ∧ c = d ∨ ∃ later, u = v ++ q :: later ∧ later ++ q :: c = d := by
  obtain ⟨k, rfl, hk⟩ | ⟨k, rfl, hk⟩ := List.append_eq_append_iff.1 h
  · cases k with
    | nil =>
      rw [List.nil_append] at hk
      exact .inl ⟨(List.append_nil u).symm, (List.cons.inj hk).2⟩
    | cons x k =>
      -- the first separator would stand in `v`
      obtain ⟨rfl, -⟩ := List.cons.inj hk
      exact absurd (List.mem_append_right u List.mem_cons_self) hv
  · cases k with
    | nil =>
      rw [List.nil_append] at hk
      exact .inl ⟨List.append_nil v, (List.cons.inj hk).2.symm⟩
    | cons x k =>
      obtain ⟨rfl, later⟩ := List.cons.inj hk
      exact .inr ⟨k, rfl, later.symm⟩

/-- A text is cut at the last place of a separator in one way only. -/
theorem eq_of_append_cons_eq (h : a ++ q :: c = b ++ q :: d) (hc : q ∉ c) (hd : q ∉ d) :
    a = b ∧ c = d := by
  obtain ⟨k, rfl, hk⟩ | ⟨k, rfl, hk⟩ := List.append_eq_append_iff.1 h
  · cases k with
    | nil => exact ⟨(List.append_nil a).symm, (List.cons.inj hk).2⟩
    | cons x k =>
      obtain ⟨-, rfl⟩ := List.cons.inj hk
      exact absurd (List.mem_append_right k List.mem_cons_self) hc
  · cases k with
    | nil => exact ⟨List.append_nil b, (List.cons.inj hk).2.symm⟩
    | cons x k =>
      obtain ⟨-, rfl⟩ := List.cons.inj hk
      exact absurd (List.mem_append_right k List.mem_cons_self) hd

/-- What ends a text and has no separator ends what follows the separator. -/
theorem suffix_of_suffix_append_cons (h : u <:+ a ++ q :: b) (hu : q ∉ u) : u <:+ b := by
  obtain hs | hs := List.suffix_or_suffix_of_suffix h (List.suffix_append a (q :: b))
  · obtain hs | hs := List.suffix_cons_iff.1 hs
    · exact absurd (hs ▸ List.mem_cons_self) hu
    · exact hs
  · exact absurd (hs.subset List.mem_cons_self) hu

/-- Each separator cuts one more part off. -/
theorem length_splitOn (q : Char) (text : List Char) :
    (text.splitOn q).length = text.count q + 1 := by
  induction text with
  | nil => rw [List.splitOn_nil, List.count_nil, List.length_singleton]
  | cons c text ih =>
    rw [List.splitOn_cons_eq_if_modifyHead, List.count_cons]
    split
    · rw [List.length_cons, ih]
    · rw [List.length_modifyHead, ih, Nat.add_zero]

/-! ## Places of a part -/

@[simp] theorem after?_append (part rest : List Char) : after? part (part ++ rest) = some rest := by
  induction part with
  | nil => rfl
  | cons e part ih => rw [List.cons_append, after?, if_pos rfl, ih]

theorem eq_append_of_after? (h : after? part text = some rest) : text = part ++ rest := by
  fun_induction after? part text with
  | case1 text => exact Option.some.inj h
  | case2 => cases h
  | case3 part c text ih => rw [ih h, List.cons_append]
  | case4 => cases h

theorem isSome_after?_iff : (after? part text).isSome ↔ part <+: text := by
  constructor
  · intro h
    obtain ⟨rest, hr⟩ := Option.isSome_iff_exists.1 h
    exact ⟨rest, (eq_append_of_after? hr).symm⟩
  · rintro ⟨rest, rfl⟩
    rw [after?_append]
    rfl

theorem contains_iff : contains part text ↔ part <:+: text := by
  induction text with
  | nil => rw [contains, List.isEmpty_iff, List.infix_nil]
  | cons c text ih =>
    rw [contains, Bool.or_eq_true, isSome_after?_iff, ih, List.infix_cons_iff]

theorem before?_append (rest part : List Char) : before? part (rest ++ part) = some rest := by
  rw [before?, List.reverse_append, after?_append, Option.map_some, List.reverse_reverse]

/-! ## The last place of a part -/

theorem splitLast?_eq_none (h : ∀ before rest, text ≠ before ++ part ++ rest) :
    splitLast? part text = none := by
  induction text with
  | nil =>
    have full : part.isEmpty = false := by
      cases part with
      | nil => exact absurd rfl (h [] [])
      | cons e part => rfl
    rw [splitLast?, full]
    rfl
  | cons c text ih =>
    have none_later := ih fun before rest he => h (c :: before) rest (by rw [he]; rfl)
    have none_here : after? part (c :: text) = none := by
      cases ha : after? part (c :: text) with
      | none => rfl
      | some rest => exact absurd (eq_append_of_after? ha) (h [] rest)
    rw [splitLast?, none_later, none_here]
    rfl

/-- The part stands at the start of the text, and nowhere after it. -/
theorem splitLast?_start (hp : part ≠ [])
    (last : ∀ before rest', part ++ rest = before ++ part ++ rest' → before = []) :
    splitLast? part (part ++ rest) = some ([], rest) := by
  cases part with
  | nil => exact absurd rfl hp
  | cons e part =>
    have none_later : splitLast? (e :: part) (part ++ rest) = none :=
      splitLast?_eq_none fun before rest' he => by
        have longer := last (e :: before) rest' (by rw [List.cons_append, he]; rfl)
        cases longer
    rw [List.cons_append, splitLast?, none_later, ← List.cons_append, after?_append]
    rfl

theorem splitLast?_append (before : List Char) (hp : part ≠ [])
    (last : ∀ before rest', part ++ rest = before ++ part ++ rest' → before = []) :
    splitLast? part (before ++ (part ++ rest)) = some (before, rest) := by
  induction before with
  | nil => exact splitLast?_start hp last
  | cons c before ih => rw [List.cons_append, splitLast?, ih]

/-- No place of the part is farther on than the last one. -/
theorem length_le_of_last {before before' rest' : List Char}
    (last : ∀ before rest', part ++ rest = before ++ part ++ rest' → before = [])
    (h : before ++ (part ++ rest) = before' ++ part ++ rest') : before'.length ≤ before.length := by
  rw [List.append_assoc] at h
  obtain ⟨k, rfl, hk⟩ | ⟨k, rfl, -⟩ := List.append_eq_append_iff.1 h
  · rw [← List.append_assoc] at hk
    simp [last k rest' hk]
  · rw [List.length_append]
    exact Nat.le_add_right _ _

/-! ## Letters in any case -/

theorem afterAnyCase?_append (expected more : List Char)
    (h : part.map Char.toLower = expected.map Char.toLower) :
    afterAnyCase? (expected ++ more) (part ++ text) = afterAnyCase? more text := by
  induction expected generalizing part with
  | nil =>
    obtain rfl := List.map_eq_nil_iff.1 h
    rfl
  | cons e expected ih =>
    obtain ⟨c, part, rfl, hc, hp⟩ := List.map_eq_cons_iff.1 h
    rw [List.cons_append, List.cons_append, afterAnyCase?, if_pos hc, ih hp]

/-- A text without a character of its kind does not begin with the given ones. -/
theorem afterAnyCase?_eq_none {expected : List Char} {e : Char} (he : e ∈ expected)
    (h : ∀ c ∈ text, c.toLower ≠ e.toLower) : afterAnyCase? expected text = none := by
  fun_induction afterAnyCase? expected text with
  | case1 => cases he
  | case2 => rfl
  | case3 d expected c text same ih =>
    obtain ⟨hc, ht⟩ := List.forall_mem_cons.1 h
    obtain rfl | he := List.mem_cons.1 he
    · exact absurd same hc
    · exact ih he ht
  | case4 => rfl

end RequestAuth.Text
