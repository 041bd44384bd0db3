import RequestAuth.Text.Blank

/-!
# Blanks around a text

A text that neither begins nor ends in a blank is what is left of it when any blanks stand around it
(`Text.trim_append`).
-/

namespace RequestAuth.Text

variable {before text after : List Char}

theorem trimStart_append (hb : ∀ c ∈ before, isBlank c) (h : ∀ c ∈ text.head?, ¬ isBlank c) :
    trimStart (before ++ text) = text := by
  rw [trimStart, List.dropWhile_append_of_pos hb]
  cases text with
  | nil => rfl
  | cons c text => exact List.dropWhile_cons_of_neg (h c rfl)

theorem trimEnd_append (ha : ∀ c ∈ after, isBlank c) (h : ∀ c ∈ text.getLast?, ¬ isBlank c) :
    trimEnd (text ++ after) = text := by
  have start : trimStart (after.reverse ++ text.reverse) = text.reverse := by
    apply trimStart_append
    · simpa using ha
    · simpa using h
  rw [trimEnd, List.reverse_append, ← trimStart, start, List.reverse_reverse]

theorem trim_eq_self (first : ∀ c ∈ text.head?, ¬ isBlank c)
    (last : ∀ c ∈ text.getLast?, ¬ isBlank c) : trim text = text := by
  have start : trimStart ([] ++ text) = text := trimStart_append (by simp) first
  have ending : trimEnd (text ++ []) = text := trimEnd_append (by simp) last
  rw [List.nil_append] at start
  rw [List.append_nil] at ending
  rw [trim, start, ending]

theorem trim_of_forall (h : ∀ c ∈ text, ¬ isBlank c) : trim text = text :=
  trim_eq_self (fun c hc => h c (List.mem_of_mem_head? hc))
    fun c hc => h c (List.mem_of_mem_getLast? hc)

theorem trim_of_isBlank (h : ∀ c ∈ text, isBlank c) : trim text = [] := by
  have start : trimStart (text ++ []) = [] := trimStart_append h (by simp)
  rw [List.append_nil] at start
  rw [trim, start]
  rfl

theorem trim_append (hb : ∀ c ∈ before, isBlank c) (ha : ∀ c ∈ after, isBlank c)
    (first : ∀ c ∈ text.head?, ¬ isBlank c) (last : ∀ c ∈ text.getLast?, ¬ isBlank c) :
    trim (before ++ text ++ after) = text := by
  by_cases full : text = []
  · subst full
    rw [List.append_nil]
    exact trim_of_isBlank (List.forall_mem_append.2 ⟨hb, ha⟩)
  · have start : ∀ c ∈ (text ++ after).head?, ¬ isBlank c := by
      obtain ⟨c, text, rfl⟩ := List.exists_cons_of_ne_nil full
      exact first
    rw [trim, List.append_assoc, trimStart_append hb start, trimEnd_append ha last]

end RequestAuth.Text
