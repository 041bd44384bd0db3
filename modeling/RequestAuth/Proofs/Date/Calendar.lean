import Mathlib.Tactic.IntervalCases
import RequestAuth.Date.Calendar

/-!
# Days and dates

The date of a day exists (`Calendar.exists_ofDay`) and has that day's number
(`Calendar.toDay_ofDay`), in all years. An era of four hundred years is made of centuries, these of
groups of four years, and these of single years; only the last year of each of them may be longer
than the others, as `Calendar.Parts` says.
-/

namespace RequestAuth.Calendar

/-! ## The years of an era -/

/-- The year within its era that a day of the era is in. -/
def yearOfEra (dayOfEra : Nat) : Nat :=
  (dayOfEra - dayOfEra / 1460 + dayOfEra / 36524 - dayOfEra / 146096) / 365

/-- A day of an era is the `day`th, from zero, of the `year`th year of the `group`th four years of
the `century`th century. -/
structure Parts (dayOfEra century group year day : Nat) : Prop where
  century_le : century ≤ 3
  group_le : group ≤ 24
  year_le : year ≤ 3
  day_le : day ≤ 365
  /-- Only the last of four years has another day, and not always at the end of a century. -/
  leap : day = 365 → year = 3 ∧ (group = 24 → century = 3)
  sum : dayOfEra = 36524 * century + 1461 * group + 365 * year + day

theorem exists_parts {dayOfEra : Nat} (h : dayOfEra < daysOfEra) :
    ∃ century group year day, Parts dayOfEra century group year day := by
  unfold daysOfEra at h
  -- the last century, and the last year of four, take what is left
  obtain ⟨century, hc⟩ : ∃ century, century = min (dayOfEra / 36524) 3 := ⟨_, rfl⟩
  obtain ⟨ofCentury, ho⟩ : ∃ ofCentury, dayOfEra = 36524 * century + ofCentury :=
    ⟨dayOfEra - 36524 * century, by omega⟩
  obtain ⟨group, hg⟩ : ∃ group, group = ofCentury / 1461 := ⟨_, rfl⟩
  obtain ⟨ofGroup, hr⟩ : ∃ ofGroup, ofCentury = 1461 * group + ofGroup :=
    ⟨ofCentury - 1461 * group, by omega⟩
  obtain ⟨year, hy⟩ : ∃ year, year = min (ofGroup / 365) 3 := ⟨_, rfl⟩
  have century_le : century ≤ 3 := by omega
  have ofCentury_le : ofCentury ≤ 36524 := by omega
  have ofCentury_lt : century < 3 → ofCentury < 36524 := by omega
  have ofGroup_lt : ofGroup < 1461 := by omega
  refine ⟨century, group, year, ofGroup - 365 * year, ⟨century_le, ?_, ?_, ?_, ?_, ?_⟩⟩ <;> omega

namespace Parts

variable {dayOfEra century group year day : Nat}

theorem yearOfEra_eq (h : Parts dayOfEra century group year day) :
    yearOfEra dayOfEra = 100 * century + 4 * group + year := by
  obtain ⟨hc, hg, hy, hd, leap, sum⟩ := h
  have centuries : dayOfEra / 36524 - dayOfEra / 146096 = century := by omega
  have ge : dayOfEra / 146096 ≤ dayOfEra / 36524 := by omega
  -- how many of the groups' leap days are over
  obtain ⟨extra, he⟩ : ∃ extra, dayOfEra / 1460 = 25 * century + group + extra :=
    ⟨dayOfEra / 1460 - (25 * century + group), by omega⟩
  have extra_le : extra ≤ day := by omega
  have day_lt : day < extra + 365 := by omega
  unfold yearOfEra
  omega

theorem daysBeforeYear_eq (h : Parts dayOfEra century group year day) :
    daysBeforeYear (100 * century + 4 * group + year) =
      36524 * century + 1461 * group + 365 * year := by
  obtain ⟨hc, hg, hy, -, -, -⟩ := h
  unfold daysBeforeYear
  omega

end Parts

theorem yearOfEra_lt {dayOfEra : Nat} (h : dayOfEra < daysOfEra) : yearOfEra dayOfEra < 400 := by
  obtain ⟨century, group, year, day, parts⟩ := exists_parts h
  have := parts.century_le
  have := parts.group_le
  have := parts.year_le
  rw [parts.yearOfEra_eq]
  omega

theorem daysBeforeYear_yearOfEra_le {dayOfEra : Nat} (h : dayOfEra < daysOfEra) :
    daysBeforeYear (yearOfEra dayOfEra) ≤ dayOfEra := by
  obtain ⟨century, group, year, day, parts⟩ := exists_parts h
  have := parts.sum
  rw [parts.yearOfEra_eq, parts.daysBeforeYear_eq]
  omega

/-- A year has 365 days, and one more if a leap day ends it. -/
theorem sub_daysBeforeYear {dayOfEra : Nat} (h : dayOfEra < daysOfEra) :
    dayOfEra - daysBeforeYear (yearOfEra dayOfEra) < 365 ∨
      dayOfEra - daysBeforeYear (yearOfEra dayOfEra) = 365 ∧
        (yearOfEra dayOfEra + 1) % 4 = 0 ∧
          ((yearOfEra dayOfEra + 1) % 100 ≠ 0 ∨ (yearOfEra dayOfEra + 1) % 400 = 0) := by
  obtain ⟨century, group, year, day, parts⟩ := exists_parts h
  rw [parts.yearOfEra_eq, parts.daysBeforeYear_eq]
  obtain ⟨hc, hg, hy, hd, leap, sum⟩ := parts
  omega

/-! ## The months of a year -/

/-- The month, counted from March as month 0, that a day of a year is in. -/
def monthFromMarch (dayOfYear : Nat) : Nat :=
  (5 * dayOfYear + 2) / 153

theorem monthFromMarch_lt {dayOfYear : Nat} (h : dayOfYear ≤ 365) :
    monthFromMarch dayOfYear < 12 := by
  unfold monthFromMarch
  omega

theorem daysBeforeMonth_le (dayOfYear : Nat) :
    daysBeforeMonth (monthFromMarch dayOfYear) ≤ dayOfYear := by
  unfold daysBeforeMonth monthFromMarch
  omega

theorem lt_daysBeforeMonth (dayOfYear : Nat) :
    dayOfYear < daysBeforeMonth (monthFromMarch dayOfYear + 1) := by
  unfold daysBeforeMonth monthFromMarch
  omega

/-! ## Dates of days -/

/-- A date by its era, its year in the era, its month from March and its day from zero. -/
def ofFields (era : Int) (year month day : Nat) : Calendar :=
  let monthOfYear := if month < 10 then month + 3 else month - 9
  { year := 400 * era + year + (if monthOfYear ≤ 2 then 1 else 0)
    month := monthOfYear
    day := day + 1 }

theorem ofDay_eq (day : Int) :
    ofDay day =
      let dayOfEra := ((day + epochOffset) % daysOfEra).toNat
      let dayOfYear := dayOfEra - daysBeforeYear (yearOfEra dayOfEra)
      ofFields ((day + epochOffset) / daysOfEra) (yearOfEra dayOfEra) (monthFromMarch dayOfYear)
        (dayOfYear - daysBeforeMonth (monthFromMarch dayOfYear)) :=
  rfl

theorem toDay_ofFields (era : Int) {year month : Nat} (day : Nat) (hy : year < 400)
    (hm : month < 12) :
    (ofFields era year month day).toDay =
      era * daysOfEra + daysBeforeYear year + daysBeforeMonth month + day - epochOffset := by
  have back : (if (ofFields era year month day).month ≤ 2 then
      (ofFields era year month day).year - 1 else (ofFields era year month day).year) =
        400 * era + year := by
    simp only [ofFields]
    split <;> omega
  have months : ((ofFields era year month day).month + 9) % 12 = month := by
    simp only [ofFields]
    split <;> omega
  have eras : (400 * era + year) / 400 = era := by omega
  have years : ((400 * era + year) % 400).toNat = year := by omega
  simp only [toDay, back, months, eras, years]
  simp only [ofFields]
  push_cast
  omega

theorem dayOfEra_lt (day : Int) : ((day + epochOffset) % daysOfEra).toNat < daysOfEra := by
  unfold daysOfEra epochOffset
  omega

theorem toDay_ofDay (day : Int) : (ofDay day).toDay = day := by
  have hd := dayOfEra_lt day
  have year_lt := yearOfEra_lt hd
  have year_le := daysBeforeYear_yearOfEra_le hd
  have days := sub_daysBeforeYear hd
  have eras : (day + epochOffset) / daysOfEra * daysOfEra +
      ((day + epochOffset) % daysOfEra).toNat = day + epochOffset := by
    unfold daysOfEra epochOffset
    omega
  rw [ofDay_eq]
  generalize ((day + epochOffset) % daysOfEra).toNat = dayOfEra at *
  generalize (day + epochOffset) / daysOfEra = era at *
  dsimp only
  have month_le := daysBeforeMonth_le (dayOfEra - daysBeforeYear (yearOfEra dayOfEra))
  rw [toDay_ofFields era _ year_lt (monthFromMarch_lt (by omega))]
  omega

/-- The months but February are as long in all years. -/
theorem daysInMonth_of_lt (year : Int) {month : Nat} (h : month < 11) :
    daysInMonth year (if month < 10 then month + 3 else month - 9) =
      daysBeforeMonth (month + 1) - daysBeforeMonth month := by
  interval_cases month <;> rfl

theorem exists_ofFields (era : Int) {year month day : Nat} (hm : month < 12)
    (hd : day < daysBeforeMonth (month + 1) - daysBeforeMonth month)
    (hf : month = 11 → day < 28 ∨ day = 28 ∧ (year + 1) % 4 = 0 ∧
      ((year + 1) % 100 ≠ 0 ∨ (year + 1) % 400 = 0)) :
    (ofFields era year month day).Exists := by
  refine ⟨?_, ?_, Nat.le_add_left 1 day, ?_⟩
  · simp only [ofFields]
    split <;> omega
  · simp only [ofFields]
    split <;> omega
  · obtain h | rfl : month < 11 ∨ month = 11 := by omega
    · change day + 1 ≤ daysInMonth _ (if month < 10 then month + 3 else month - 9)
      rw [daysInMonth_of_lt _ h]
      exact hd
    · change day + 1 ≤ if isLeap (400 * era + year + 1) then 29 else 28
      obtain short | ⟨rfl, four, century⟩ := hf rfl
      · split <;> omega
      · have leap : isLeap (400 * era + year + 1) = true :=
          decide_eq_true ⟨by omega, by omega⟩
        rw [if_pos leap]

theorem exists_ofDay (day : Int) : (ofDay day).Exists := by
  have hd := dayOfEra_lt day
  have days := sub_daysBeforeYear hd
  rw [ofDay_eq]
  generalize ((day + epochOffset) % daysOfEra).toNat = dayOfEra at *
  dsimp only
  generalize hday : dayOfEra - daysBeforeYear (yearOfEra dayOfEra) = dayOfYear at *
  have month_le := daysBeforeMonth_le dayOfYear
  have month_lt := lt_daysBeforeMonth dayOfYear
  refine exists_ofFields _ (monthFromMarch_lt (by omega)) (by omega) fun last => ?_
  have february : daysBeforeMonth (monthFromMarch dayOfYear) = 337 := by
    rw [last]
    rfl
  omega

theorem Exists.day_le {date : Calendar} (h : date.Exists) : date.day ≤ 31 := by
  obtain ⟨-, -, -, le⟩ := h
  unfold daysInMonth at le
  split_ifs at le <;> omega

end RequestAuth.Calendar
