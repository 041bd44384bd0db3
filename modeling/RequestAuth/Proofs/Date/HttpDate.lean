import RequestAuth.Date.HttpDate

/-!
# The characters of an HTTP date

An HTTP date is made of names of days and months, digits, signs and a few marks, whatever the point
in time is: all of it is printable ASCII (`HttpDate.printable_render`).
-/

namespace RequestAuth.HttpDate

/-- Whether a character is one of printable ASCII. -/
def isPrintable (c : Char) : Bool := ' ' ≤ c ∧ c ≤ '~'

theorem printable_of_isDigit {c : Char} (h : c.isDigit) : isPrintable c := by
  simp only [Char.isDigit, Bool.and_eq_true, decide_eq_true_eq] at h
  have low : 48 ≤ c.toNat := h.1
  have high : c.toNat ≤ 57 := h.2
  have blank : 32 ≤ c.toNat := by omega
  have tilde : c.toNat ≤ 126 := by omega
  exact decide_eq_true ⟨blank, tilde⟩

@[simp] theorem printable_padded (width n : Nat) : (padded width n).all isPrintable := by
  unfold padded
  rw [List.all_append, Bool.and_eq_true, List.all_eq_true, List.all_eq_true]
  constructor
  · intro c hc
    rw [List.eq_of_mem_replicate hc]
    decide
  · intro c hc
    exact printable_of_isDigit (Nat.isDigit_of_mem_toDigits (b := 10) (by decide) (by decide) hc)

theorem printable_renderYear (year : Int) : (renderYear year).all isPrintable := by
  unfold renderYear
  split
  · rw [List.all_cons, printable_padded]
    decide
  · split
    · exact printable_padded _ _
    · rw [List.all_cons, printable_padded]
      decide

/-- A name out of a list, or nothing where the list has none. -/
theorem printable_getD {names : List String} (h : ∀ name ∈ names, name.toList.all isPrintable)
    (i : Nat) : (names[i]?.getD "").toList.all isPrintable := by
  cases hi : names[i]? with
  | none => rfl
  | some name => exact h name (List.mem_of_getElem? hi)

theorem printable_renderChars (t : DateTime) : (renderChars t).all isPrintable := by
  have day : ∀ name ∈ weekdays, name.toList.all isPrintable := by decide
  have month : ∀ name ∈ months, name.toList.all isPrintable := by decide
  have weekday := printable_getD day (Calendar.weekday t.dayNumber)
  have month := printable_getD month ((Calendar.ofDay t.dayNumber).month - 1)
  simp only [renderChars, List.all_append, weekday, month, printable_padded, printable_renderYear]
  decide

theorem printable_render (t : DateTime) : ∀ c ∈ (render t).toList, ' ' ≤ c ∧ c ≤ '~' := by
  intro c hc
  rw [render, String.toList_ofList] at hc
  exact of_decide_eq_true (List.all_eq_true.1 (printable_renderChars t) c hc)

end RequestAuth.HttpDate
