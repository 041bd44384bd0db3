import Mathlib.Data.List.Basic
import RequestAuth.Http.Header

/-!
# Setting headers

Setting headers gives each name that is set its one new value (`Headers.values_setAll_of_mem`), and
leaves the values of all other names as they are, in their order (`Headers.values_setAll_of_ne`).
-/

namespace RequestAuth.Http.Headers

variable {headers more : Headers} {name other : String} {value : Bytes}

@[simp] theorem values_append (headers more : Headers) (name : String) :
    values (headers ++ more) name = headers.values name ++ more.values name := by
  unfold values
  rw [List.filterMap_append]

@[simp] theorem values_erase_self (headers : Headers) (name : String) :
    (headers.erase name).values name = [] := by
  unfold values erase
  rw [List.filterMap_eq_nil_iff]
  rintro ⟨n, value⟩ h
  have hn : n ≠ name := by simpa using (List.mem_filter.1 h).2
  exact if_neg hn

@[simp] theorem values_erase_of_ne (h : other ≠ name) :
    (headers.erase name).values other = headers.values other := by
  unfold values erase
  rw [List.filterMap_filter]
  congr 1
  funext ⟨n, value⟩
  by_cases hn : n = name
  · -- what is left out is of the name, and so not of the other
    rw [hn]
    simp [h.symm]
  · simp [hn]

@[simp] theorem values_set_self (headers : Headers) (name : String) (value : Bytes) :
    (headers.set name value).values name = [value] := by
  have one : values [(name, value)] name = [value] := by simp [values]
  simp [set, one]

@[simp] theorem values_set_of_ne (h : other ≠ name) :
    (headers.set name value).values other = headers.values other := by
  have none : values [(name, value)] other = [] := by simp [values, h.symm]
  simp [set, none, h]

theorem values_setAll_of_ne (h : ∀ header ∈ more, name ≠ header.1) :
    (headers.setAll more).values name = headers.values name := by
  induction more generalizing headers with
  | nil => rfl
  | cons first more ih =>
    calc (headers.setAll (first :: more)).values name
        = (headers.set first.1 first.2).values name :=
          ih fun header hm => h header (.tail _ hm)
      _ = headers.values name := values_set_of_ne (h first List.mem_cons_self)

/-- Among distinct names each has the value that it was set to. -/
theorem values_setAll_of_mem (distinct : (more.map Prod.fst).Nodup) (h : (name, value) ∈ more) :
    (headers.setAll more).values name = [value] := by
  induction more generalizing headers with
  | nil => cases h
  | cons first more ih =>
    obtain ⟨new, distinct⟩ := List.nodup_cons.1 distinct
    rcases List.mem_cons.1 h with rfl | h
    · have later : ∀ header ∈ more, name ≠ header.1 := fun header hm he =>
        new (List.mem_map.2 ⟨header, hm, he.symm⟩)
      calc (headers.setAll ((name, value) :: more)).values name
          = (headers.set name value).values name := values_setAll_of_ne later
        _ = [value] := values_set_self headers name value
    · exact ih distinct h

end RequestAuth.Http.Headers
