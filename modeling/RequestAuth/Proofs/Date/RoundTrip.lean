import RequestAuth.Proofs.Date.Calendar
import RequestAuth.Proofs.Date.HttpDate

/-!
# Reading HTTP dates that were written

A date that was written is read back as the second that it was written for, which for a leap second
at the end of a minute is second 60, and for any other leap second the one after it
(`DateTime.datedSecond`); with another day of the week it is refused (`HttpDate.render_roundTrip`).
So two points in time share a date exactly if they share that second
(`HttpDate.render_eq_render_iff`). What is written is a
row of fields, and every field ends where its reading ends: numbers before what is no digit, names
after their three letters. The fields make up the second again since a day has the number of its
date (`Calendar.toDay_ofDay`).
-/

namespace RequestAuth

/-- The start of the second that a point in time lies in. A leap second is one of its own. -/
def DateTime.wholeSecond (t : DateTime) : DateTime where
  unix := t.unix
  nanos := if t.isLeapSecond then 1000000000 else 0
  first_le := t.first_le
  le_last := t.le_last
  nanos_lt := by split <;> decide

/-- The start of the second that a point in time is dated by: its own, but the next one for a leap
second that does not continue the last second of a minute. -/
def DateTime.datedSecond (t : DateTime) : DateTime :=
  if h : t.isLeapSecond ∧ t.unix % 60 ≠ 59 then
    { unix := t.unix + 1
      nanos := 0
      first_le := by have := t.first_le; omega
      -- the last second of all is the last one of its minute
      le_last := by have := t.le_last; have := h.2; omega
      nanos_lt := by decide }
  else t.wholeSecond

namespace DateTime

variable {t u : DateTime}

theorem secondOfDay_mod (t : DateTime) : (t.secondOfDay % 60 : Nat) = t.unix % 60 := by
  unfold secondOfDay
  omega

/-- What the second that a point in time is dated by can be. -/
theorem datedSecond_cases (t : DateTime) :
    (t.isLeapSecond = false ∧ t.datedSecond.unix = t.unix ∧ t.datedSecond.nanos = 0) ∨
    (t.isLeapSecond = true ∧ t.unix % 60 = 59 ∧ t.datedSecond.unix = t.unix ∧
      t.datedSecond.nanos = 1000000000) ∨
    (t.isLeapSecond = true ∧ t.unix % 60 ≠ 59 ∧ t.datedSecond.unix = t.unix + 1 ∧
      t.datedSecond.nanos = 0) := by
  by_cases inside : t.isLeapSecond ∧ t.unix % 60 ≠ 59
  · rw [datedSecond, dif_pos inside]
    exact .inr (.inr ⟨inside.1, inside.2, rfl, rfl⟩)
  rw [datedSecond, dif_neg inside]
  cases leap : t.isLeapSecond with
  | false => exact .inl ⟨rfl, rfl, by simp [wholeSecond, leap]⟩
  | true =>
    have last : t.unix % 60 = 59 := not_not.1 fun ne => inside ⟨leap, ne⟩
    exact .inr (.inl ⟨rfl, last, rfl, by simp [wholeSecond, leap]⟩)

/-- A point in time outside leap seconds, or in one at the end of a minute, can be made. -/
theorem ofUnix?_self (h : 1000000000 ≤ t.nanos → t.unix % 60 = 59) :
    ofUnix? t.unix t.nanos = some t := by
  rw [ofUnix?, dif_pos t.first_le, dif_pos t.le_last, dif_pos t.nanos_lt, if_pos h]

theorem ofUnix?_datedSecond (t : DateTime) :
    ofUnix? t.datedSecond.unix t.datedSecond.nanos = some t.datedSecond := by
  apply ofUnix?_self
  obtain ⟨-, -, nanos⟩ | ⟨-, last, unix, -⟩ | ⟨-, -, -, nanos⟩ := t.datedSecond_cases
  · omega
  · omega
  · omega

/-- A point in time has the day, the hour and the minute of the second that it is dated by, and the
number of that second. -/
theorem fields_datedSecond (t : DateTime) :
    t.datedSecond.dayNumber = t.dayNumber ∧
    t.datedSecond.secondOfDay / 3600 = t.secondOfDay / 3600 ∧
    t.datedSecond.secondOfDay / 60 % 60 = t.secondOfDay / 60 % 60 ∧
    (t.datedSecond.secondOfDay % 60 + if t.datedSecond.isLeapSecond then 1 else 0) =
      t.secondOfDay % 60 + if t.isLeapSecond then 1 else 0 := by
  unfold dayNumber secondOfDay
  obtain ⟨leap, unix, nanos⟩ | ⟨leap, -, unix, nanos⟩ | ⟨leap, last, unix, nanos⟩ :=
    t.datedSecond_cases
  · have same : t.datedSecond.isLeapSecond = false := by simp [isLeapSecond, nanos]
    simp only [unix, leap, same, and_self]
  · have same : t.datedSecond.isLeapSecond = true := by simp [isLeapSecond, nanos]
    simp only [unix, leap, same, and_self]
  · have other : t.datedSecond.isLeapSecond = false := by simp [isLeapSecond, nanos]
    simp only [unix, leap, other, if_true, Bool.false_eq_true, if_false]
    omega

end DateTime

namespace Text

variable {c : Char} {text : List Char}

theorem not_isBlank_of_isDigit (h : c.isDigit) : isBlank c = false := by
  simp only [Char.isDigit, Bool.and_eq_true, decide_eq_true_eq] at h
  have low : 48 ≤ c.toNat := h.1
  have high : c.toNat ≤ 57 := h.2
  simp only [isBlank, decide_eq_false_iff_not]
  omega

theorem trimStart_cons (h : isBlank c = false) : trimStart (c :: text) = c :: text :=
  List.dropWhile_cons_of_neg (by simp [h])

theorem trimStart_space (text : List Char) : trimStart (' ' :: text) = trimStart text :=
  List.dropWhile_cons_of_pos (by decide)

end Text

namespace HttpDate

variable {c : Char} {rest : List Char} {width n : Nat}

/-! ## Numbers -/

theorem isDigit_of_mem_padded (h : c ∈ padded width n) : c.isDigit := by
  rcases List.mem_append.1 h with h | h
  · rw [List.eq_of_mem_replicate h]
    decide
  · exact Nat.isDigit_of_mem_toDigits (b := 10) (by decide) (by decide) h

theorem exists_padded_eq_cons (width n : Nat) : ∃ d ds, padded width n = d :: ds ∧ d.isDigit := by
  cases hp : padded width n with
  | nil => exact absurd (List.append_eq_nil_iff.1 hp).2 Nat.toDigits_ne_nil
  | cons d ds => exact ⟨d, ds, rfl, isDigit_of_mem_padded (hp ▸ List.mem_cons_self)⟩

theorem length_padded (hw : 0 < width) (h : n < 10 ^ width) : (padded width n).length = width := by
  have := (Nat.length_toDigits_le_iff (by decide) hw).2 h
  simp only [padded, List.length_append, List.length_replicate]
  omega

theorem valueOf_padded (width n : Nat) : valueOf (padded width n) = n := by
  have digits : valueOf (padded width n) = Nat.ofDigitChars 10 (padded width n) 0 := rfl
  rw [digits, padded, Nat.ofDigitChars_append, Nat.ofDigitChars_replicate_zero, Nat.mul_zero,
    Nat.ofDigitChars_ten_toDigits]

theorem digits_append {most : Nat} {found : List Char} (hf : ∀ d ∈ found, d.isDigit)
    (hm : found.length ≤ most) (hc : c.isDigit = false) :
    digits most (found ++ c :: rest) = (found, c :: rest) := by
  induction found generalizing most with
  | nil =>
    cases most with
    | zero => rfl
    | succ most => simp [digits, hc]
  | cons d found ih =>
    obtain ⟨hd, hf⟩ := List.forall_mem_cons.1 hf
    cases most with
    | zero => cases hm
    | succ most =>
      have := ih hf (Nat.le_of_succ_le_succ hm)
      simp [digits, hd, this]

/-- A number that was written is read back, if what follows is no digit. -/
theorem number?_padded {most : Nat} (hm : (padded width n).length ≤ most)
    (hc : c.isDigit = false) :
    number? most (padded width n ++ c :: rest) = some (n, c :: rest) := by
  have found : digits most (padded width n ++ c :: rest) = (padded width n, c :: rest) :=
    digits_append (fun _ => isDigit_of_mem_padded) hm hc
  obtain ⟨d, ds, hp, -⟩ := exists_padded_eq_cons width n
  rw [number?, found, hp]
  dsimp only
  rw [← hp, valueOf_padded]

theorem trimStart_padded (width n : Nat) (rest : List Char) :
    Text.trimStart (padded width n ++ rest) = padded width n ++ rest := by
  obtain ⟨d, ds, hp, hd⟩ := exists_padded_eq_cons width n
  rw [hp]
  exact Text.trimStart_cons (Text.not_isBlank_of_isDigit hd)

theorem field?_padded (h : n < 100) (hc : c.isDigit = false) :
    field? (padded 2 n ++ c :: rest) = some (n, c :: rest) := by
  rw [field?, trimStart_padded]
  exact number?_padded (length_padded (by decide) h).le hc

theorem year?_minus (text : List Char) :
    year? ('-' :: text) = (number? text.length text).map fun read => (-(read.1 : Int), read.2) :=
  rfl

theorem year?_plus (text : List Char) :
    year? ('+' :: text) = (number? text.length text).map fun read => ((read.1 : Int), read.2) :=
  rfl

theorem year?_padded (width n : Nat) (rest : List Char) :
    year? (padded width n ++ rest) =
      (number? 4 (padded width n ++ rest)).map fun read => ((read.1 : Int), read.2) := by
  have unsigned {sign : Char} (hs : sign.isDigit = false) (text : List Char) :
      padded width n ++ rest ≠ sign :: text := by
    obtain ⟨d, ds, hp, hd⟩ := exists_padded_eq_cons width n
    rw [hp]
    rintro ⟨⟩
    rw [hs] at hd
    cases hd
  rw [year?, trimStart_padded]
  split
  · next h => exact absurd h (unsigned (by decide) _)
  · next h => exact absurd h (unsigned (by decide) _)
  · rfl

theorem year?_renderYear (year : Int) (hc : c.isDigit = false) :
    year? (renderYear year ++ c :: rest) = some (year, c :: rest) := by
  have all (n : Nat) : number? (padded 4 n ++ c :: rest).length (padded 4 n ++ c :: rest) =
      some (n, c :: rest) := number?_padded (by simp) hc
  unfold renderYear
  split
  · next negative =>
    have value : -(year.natAbs : Int) = year := by omega
    rw [List.cons_append, year?_minus, all, Option.map_some, value]
  · next nonnegative =>
    have value : (year.toNat : Int) = year := by omega
    split
    · next le =>
      have four : number? 4 (padded 4 year.toNat ++ c :: rest) = some (year.toNat, c :: rest) :=
        number?_padded (length_padded (by decide) (by omega)).le hc
      rw [year?_padded, four, Option.map_some, value]
    · rw [List.cons_append, year?_plus, all, Option.map_some, value]

/-! ## Names -/

/-- The name of a day of the week; Sunday is day 0. -/
def weekdayName (weekday : Nat) : List Char := (weekdays[weekday]?.getD "").toList

/-- The name of a month; January is month 1. -/
def monthName (month : Nat) : List Char := (months[month - 1]?.getD "").toList

theorem name?_weekdayName {weekday : Nat} (h : weekday < 7) (rest : List Char) :
    name? weekdays (weekdayName weekday ++ rest) = some (weekday, rest) := by
  interval_cases weekday <;> rfl

theorem name?_monthName {month : Nat} (h₁ : 1 ≤ month) (h₂ : month ≤ 12) (rest : List Char) :
    name? months (monthName month ++ rest) = some (month - 1, rest) := by
  interval_cases month <;> rfl

theorem trimStart_monthName {month : Nat} (h₁ : 1 ≤ month) (h₂ : month ≤ 12) (rest : List Char) :
    Text.trimStart (monthName month ++ rest) = monthName month ++ rest := by
  interval_cases month <;> rfl

theorem trimStart_renderYear (year : Int) (rest : List Char) :
    Text.trimStart (renderYear year ++ rest) = renderYear year ++ rest := by
  unfold renderYear
  split
  · exact Text.trimStart_cons (by decide)
  · split
    · exact trimStart_padded _ _ _
    · exact Text.trimStart_cons (by decide)

/-! ## Whole dates -/

/-- The characters of an HTTP date with the given fields. -/
def written (weekday : Nat) (date : Calendar) (hour minute second : Nat) : List Char :=
  weekdayName weekday ++ [',', ' '] ++ padded 2 date.day ++ [' '] ++ monthName date.month ++
    [' '] ++ renderYear date.year ++ [' '] ++ padded 2 hour ++ [':'] ++ padded 2 minute ++ [':'] ++
    padded 2 second ++ " GMT".toList

theorem readChars?_written {weekday hour minute second : Nat} {date : Calendar}
    (hw : weekday < 7) (hm₁ : 1 ≤ date.month) (hm₂ : date.month ≤ 12) (hd : date.day < 100)
    (hh : hour < 100) (hn : minute < 100) (hs : second < 100) :
    readChars? (written weekday date hour minute second) =
      assemble? weekday date hour minute second := by
  have blank : (' ' : Char).isDigit = false := by decide
  have colon : (':' : Char).isDigit = false := by decide
  have month : date.month - 1 + 1 = date.month := by omega
  have zone : Text.after? "GMT".toList (Text.trimStart " GMT".toList) = some [] := by decide
  have space : " GMT".toList = ' ' :: "GMT".toList := rfl
  unfold readChars? written
  simp only [List.append_assoc, List.cons_append, List.nil_append, name?_weekdayName hw,
    Option.bind_eq_bind, Option.bind_some, Text.after?, if_true, Text.trimStart_space,
    trimStart_padded, field?_padded hd blank, trimStart_monthName hm₁ hm₂, name?_monthName hm₁ hm₂,
    trimStart_renderYear, year?_renderYear _ blank, field?_padded hh colon, field?_padded hn colon]
  rw [space, field?_padded hs blank, Option.bind_some, ← space, zone, Option.bind_some, month]
  rfl

/-- The characters of the HTTP date of a point in time, with the given day of the week. -/
def writtenOn (t : DateTime) (weekday : Nat) : List Char :=
  written weekday (Calendar.ofDay t.dayNumber) (t.secondOfDay / 3600) (t.secondOfDay / 60 % 60)
    (t.secondOfDay % 60 + if t.isLeapSecond then 1 else 0)

theorem renderChars_eq (t : DateTime) :
    renderChars t = writtenOn t (Calendar.weekday t.dayNumber) :=
  rfl

theorem weekday_lt (day : Int) : Calendar.weekday day < 7 := by
  unfold Calendar.weekday
  omega

theorem sum_fields (t : DateTime) :
    t.dayNumber * 86400 + (t.secondOfDay / 3600 : Nat) * 3600 +
      (t.secondOfDay / 60 % 60 : Nat) * 60 + (t.secondOfDay % 60 : Nat) = t.unix := by
  unfold DateTime.dayNumber DateTime.secondOfDay
  omega

/-- The fields of a point in time are put together as the second that it is dated by, if the day of
the week is the right one. -/
theorem assemble?_fields (t : DateTime) (weekday : Nat) :
    assemble? weekday (Calendar.ofDay t.dayNumber) (t.secondOfDay / 3600) (t.secondOfDay / 60 % 60)
      (t.secondOfDay % 60 + if t.isLeapSecond then 1 else 0) =
        if Calendar.weekday t.dayNumber = weekday then some t.datedSecond else none := by
  have hour : t.secondOfDay / 3600 < 24 := by
    unfold DateTime.secondOfDay
    omega
  have minute : t.secondOfDay / 60 % 60 < 60 := Nat.mod_lt _ (by decide)
  have second : t.secondOfDay % 60 + (if t.isLeapSecond then 1 else 0) ≤ 60 := by split <;> omega
  have number := t.secondOfDay_mod
  have sum := sum_fields t
  have made := t.ofUnix?_datedSecond
  simp only [assemble?, Calendar.exists_ofDay, Calendar.toDay_ofDay, hour, minute, second,
    true_and, and_true]
  congr 1
  obtain ⟨leap, unix, nanos⟩ | ⟨leap, last, unix, nanos⟩ | ⟨leap, inside, unix, nanos⟩ :=
    t.datedSecond_cases
  · have other : t.secondOfDay % 60 ≠ 60 := by omega
    simp only [leap, Bool.false_eq_true, if_false, Nat.add_zero, other, sum]
    rw [← made, unix, nanos]
  · have sixty : t.secondOfDay % 60 + 1 = 60 := by omega
    have first : t.dayNumber * 86400 + (t.secondOfDay / 3600 : Nat) * 3600 +
        (t.secondOfDay / 60 % 60 : Nat) * 60 + 59 = t.unix := by omega
    simp only [leap, if_true, sixty, first]
    rw [← made, unix, nanos]
  · have other : t.secondOfDay % 60 + 1 ≠ 60 := by omega
    have next : t.dayNumber * 86400 + (t.secondOfDay / 3600 : Nat) * 3600 +
        (t.secondOfDay / 60 % 60 : Nat) * 60 + (t.secondOfDay % 60 + 1 : Nat) = t.unix + 1 := by
      omega
    simp only [leap, if_true, other, if_false, next]
    rw [← made, unix, nanos]

theorem readChars?_writtenOn (t : DateTime) {weekday : Nat} (h : weekday < 7) :
    readChars? (writtenOn t weekday) =
      if Calendar.weekday t.dayNumber = weekday then some t.datedSecond else none := by
  obtain ⟨month_ge, month_le, -, -⟩ := Calendar.exists_ofDay t.dayNumber
  have day_le := (Calendar.exists_ofDay t.dayNumber).day_le
  have hour : t.secondOfDay / 3600 < 100 := by
    unfold DateTime.secondOfDay
    omega
  have second : t.secondOfDay % 60 + (if t.isLeapSecond then 1 else 0) < 100 := by
    split <;> omega
  rw [writtenOn, readChars?_written h month_ge month_le (by omega) hour (by omega) second,
    assemble?_fields]

theorem readChars?_renderChars (t : DateTime) :
    readChars? (renderChars t) = some t.datedSecond := by
  rw [renderChars_eq, readChars?_writtenOn t (weekday_lt _), if_pos rfl]

/-- A date is read back as the second that it names. -/
theorem read?_render (t : DateTime) : read? (render t) = some t.datedSecond := by
  rw [read?, render, String.toList_ofList, readChars?_renderChars]

theorem renderChars_datedSecond (t : DateTime) : renderChars t.datedSecond = renderChars t := by
  obtain ⟨day, hour, minute, second⟩ := t.fields_datedSecond
  simp only [renderChars, day, hour, minute, second]

/-- Two points in time have the same date if they are dated by the same second. -/
theorem render_eq_render_iff {t u : DateTime} :
    render t = render u ↔ t.datedSecond = u.datedSecond := by
  constructor
  · intro h
    apply Option.some.inj
    rw [← read?_render, h, read?_render]
  · intro same
    rw [render, render, ← renderChars_datedSecond t, same, renderChars_datedSecond]

/-- The last field of a date is 60 in leap seconds at the end of a minute, and in no others. -/
theorem sixty_suffix_iff (t : DateTime) :
    ":60 GMT".toList <:+ (render t).toList ↔ t.isLeapSecond = true ∧ t.unix % 60 = 59 := by
  have number := t.secondOfDay_mod
  obtain ⟨second, hs⟩ : ∃ second,
      second = t.secondOfDay % 60 + if t.isLeapSecond then 1 else 0 := ⟨_, rfl⟩
  obtain ⟨before, hb⟩ : ∃ before,
      (render t).toList = before ++ ([':'] ++ padded 2 second ++ " GMT".toList) :=
    ⟨_, by rw [render, String.toList_ofList, renderChars_eq, writtenOn, written, ← hs,
      List.append_assoc, List.append_assoc, ← List.append_assoc [':']]⟩
  have two : (padded 2 second).length = 2 := length_padded (by decide) (by split at hs <;> omega)
  rw [hb]
  constructor
  · rintro ⟨text, h⟩
    have last : [':'] ++ ['6', '0'] ++ " GMT".toList =
        [':'] ++ padded 2 second ++ " GMT".toList := List.append_inj_right' h (by simp [two])
    have digits : [':'] ++ ['6', '0'] = [':'] ++ padded 2 second := List.append_cancel_right last
    have sixty : second = 60 := by
      rw [← valueOf_padded 2 second, ← List.append_cancel_left digits]
      rfl
    split at hs
    · next leap => exact ⟨leap, by omega⟩
    · omega
  · rintro ⟨leap, last⟩
    have sixty : second = 60 := by
      rw [leap, if_pos rfl] at hs
      omega
    rw [sixty]
    exact List.suffix_append before _

/-- What follows the name of the day of the week. -/
def afterWeekday (t : DateTime) : List Char :=
  (writtenOn t 0).drop 3

theorem writtenOn_eq (t : DateTime) (weekday : Nat) :
    writtenOn t weekday = weekdayName weekday ++ afterWeekday t := by
  unfold afterWeekday writtenOn written
  simp only [List.append_assoc]
  rfl

theorem exists_weekday {name : String} (h : name ∈ weekdays) :
    ∃ weekday < 7, name.toList = weekdayName weekday := by
  obtain ⟨weekday, hw, rfl⟩ := List.mem_iff_getElem.1 h
  exact ⟨weekday, hw, by rw [weekdayName, List.getElem?_eq_getElem hw, Option.getD_some]⟩

theorem weekdayName_mem {weekday : Nat} (h : weekday < 7) :
    String.ofList (weekdayName weekday) ∈ weekdays := by
  interval_cases weekday <;> decide

theorem render_roundTrip (t : DateTime) :
    read? (render t) = some t.datedSecond ∧
      (∀ u, render t = render u ↔ t.datedSecond = u.datedSecond) ∧
      (":60 GMT".toList <:+ (render t).toList ↔ t.isLeapSecond = true ∧ t.unix % 60 = 59) ∧
      ∃ name ∈ weekdays, ∃ rest, render t = name ++ rest ∧
        ∀ other ∈ weekdays, other ≠ name → read? (other ++ rest) = none := by
  have seven := weekday_lt t.dayNumber
  refine ⟨read?_render t, fun u => render_eq_render_iff, sixty_suffix_iff t,
    String.ofList (weekdayName (Calendar.weekday t.dayNumber)), weekdayName_mem seven,
    String.ofList (afterWeekday t), ?_, ?_⟩
  · rw [render, renderChars_eq, writtenOn_eq, String.ofList_append]
  · intro other hother hne
    obtain ⟨weekday, hw, name⟩ := exists_weekday hother
    have wrong : Calendar.weekday t.dayNumber ≠ weekday := by
      rintro rfl
      exact hne (by rw [← name, String.ofList_toList])
    rw [read?, String.toList_append, String.toList_ofList, name, ← writtenOn_eq,
      readChars?_writtenOn t hw, if_neg wrong]

/-- Half a second into the leap second at the end of 2016. -/
def leapSecond : DateTime := ⟨1483228799, 1500000000, by decide, by decide, by decide⟩

theorem render_roundTrip_leapSecond :
    read? (render leapSecond) = some leapSecond.wholeSecond ∧ leapSecond.isLeapSecond = true ∧
      ∃ name ∈ weekdays, ∃ rest, render leapSecond = name ++ rest ∧
        "Sun" ∈ weekdays ∧ "Sun" ≠ name ∧ read? ("Sun" ++ rest) = none := by
  obtain ⟨back, -, -, name, hn, rest, written, wrong⟩ := render_roundTrip leapSecond
  have saturday : (render leapSecond).toList.take 3 = "Sat".toList := by decide +kernel
  have sunday : "Sun" ∈ weekdays := by decide
  have ne : "Sun" ≠ name := by
    rintro rfl
    rw [written, String.toList_append, List.take_append_of_le_length (by decide)] at saturday
    revert saturday
    decide
  exact ⟨back, rfl, name, hn, rest, written, sunday, ne, wrong "Sun" sunday ne⟩

/-- Half a second into a leap second after second 4 of 1970. -/
def insideMinute : DateTime := ⟨4, 1500000000, by decide, by decide, by decide⟩

/-- The first five seconds of 1970 have passed. -/
def fifthSecond : DateTime := (DateTime.ofUnix? 5 0).get (by decide)

/-- A leap second inside a minute has the date of the second after it, and is read back as that. It
is neither read back as the leap second that it is nor shown as second 60. -/
theorem insideMinute_misread :
    insideMinute.isLeapSecond = true ∧ render insideMinute = render fifthSecond ∧
      insideMinute.wholeSecond ≠ fifthSecond.wholeSecond ∧
      read? (render insideMinute) = some fifthSecond ∧ fifthSecond ≠ insideMinute.wholeSecond ∧
      ¬ ":60 GMT".toList <:+ (render insideMinute).toList := by
  have next : insideMinute.datedSecond = fifthSecond := by decide
  refine ⟨rfl, render_eq_render_iff.2 (by decide), by decide, next ▸ read?_render insideMinute,
    by decide, ?_⟩
  rw [sixty_suffix_iff]
  decide

end HttpDate

end RequestAuth
