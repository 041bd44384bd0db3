import Mathlib.Data.List.Nodup
import RequestAuth.Json.Value

/-!
# Values with their members in order

`sortMembers` puts members in ascending order of their names, and loses none of them if no two have
the same name (`sortMembers_perm`). `JsonValue.sorted` does so in all objects of a value, those
within others too. It is the same value as the one before, up to the order of members
(`JsonValue.same_sorted`), and there is nothing to do where the members are in order already
(`JsonValue.sorted_of_isSorted`).
-/

namespace RequestAuth.JsonValue

/-! ## Members -/

section Members

variable {α : Type} {name : String} {value : α} {member : String × α}
  {members members' ahead : List (String × α)}

/-- Members in strictly ascending order of their names. -/
def Ascending (members : List (String × α)) : Prop :=
  members.Pairwise (·.1 < ·.1)

theorem Ascending.names_nodup (h : Ascending members) : (members.map Prod.fst).Nodup :=
  List.pairwise_map.2 (h.imp fun {a b} lt (he : a.1 = b.1) => String.lt_irrefl b.1 (he ▸ lt))

theorem lt_of_not_lt {name' : String} (h : ¬ name < name') (hne : name ≠ name') : name' < name :=
  Std.lt_of_le_of_ne (String.not_lt.1 h) hne.symm

theorem mem_insertMember (h : member ∈ insertMember name value members) :
    member = (name, value) ∨ member ∈ members := by
  fun_induction insertMember name value members with
  | case1 => exact .inl (List.mem_singleton.1 h)
  | case2 n v rest lt => exact List.mem_cons.1 h
  | case3 v rest =>
    obtain rfl | later := List.mem_cons.1 h
    · exact .inl rfl
    · exact .inr (List.mem_cons_of_mem _ later)
  | case4 n v rest lt ne ih =>
    obtain rfl | later := List.mem_cons.1 h
    · exact .inr List.mem_cons_self
    · exact (ih later).imp_right (List.mem_cons_of_mem _)

theorem Ascending.insertMember (h : Ascending members) :
    Ascending (insertMember name value members) := by
  fun_induction JsonValue.insertMember name value members with
  | case1 => exact List.pairwise_singleton _ _
  | case2 n v rest lt =>
    refine List.Pairwise.cons (fun member hm => ?_) h
    obtain rfl | later := List.mem_cons.1 hm
    · exact lt
    · exact String.lt_trans lt (List.rel_of_pairwise_cons h later)
  | case3 v rest =>
    exact List.Pairwise.cons (fun member hm => List.rel_of_pairwise_cons h hm) h.of_cons
  | case4 n v rest lt ne ih =>
    refine List.Pairwise.cons (fun member hm => ?_) (ih h.of_cons)
    obtain rfl | later := mem_insertMember hm
    · exact lt_of_not_lt lt ne
    · exact List.rel_of_pairwise_cons h later

/-- A member of a new name is added. -/
theorem insertMember_perm (h : name ∉ members.map Prod.fst) :
    (insertMember name value members).Perm ((name, value) :: members) := by
  fun_induction insertMember name value members with
  | case1 => exact .refl _
  | case2 n v rest lt => exact .refl _
  | case3 v rest => exact absurd List.mem_cons_self h
  | case4 n v rest lt ne ih =>
    exact ((ih fun hm => h (List.mem_cons_of_mem _ hm)).cons _).trans (.swap _ _ _)

theorem ascending_foldl_insertMember (h : Ascending ahead) :
    Ascending
      (members.foldl (fun sorted (name, value) => insertMember name value sorted) ahead) := by
  induction members generalizing ahead with
  | nil => exact h
  | cons member members ih => exact ih h.insertMember

theorem ascending_sortMembers (members : List (String × α)) : Ascending (sortMembers members) :=
  ascending_foldl_insertMember .nil

theorem foldl_insertMember_perm (h : ((members ++ ahead).map Prod.fst).Nodup) :
    (members.foldl (fun sorted (name, value) => insertMember name value sorted) ahead).Perm
      (members ++ ahead) := by
  induction members generalizing ahead with
  | nil => exact .refl _
  | cons member members ih =>
    obtain ⟨name, value⟩ := member
    have fresh : name ∉ ahead.map Prod.fst := fun hm =>
      (List.nodup_cons.1 h).1 (by simp [hm])
    have moved : (members ++ insertMember name value ahead).Perm
        ((name, value) :: (members ++ ahead)) :=
      ((insertMember_perm fresh).append_left members).trans List.perm_middle
    exact (ih ((moved.map Prod.fst).nodup_iff.2 h)).trans moved

theorem sortMembers_perm (h : (members.map Prod.fst).Nodup) :
    (sortMembers members).Perm members := by
  have distinct : ((members ++ []).map Prod.fst).Nodup := by rwa [List.append_nil]
  have perm := foldl_insertMember_perm distinct
  rwa [List.append_nil] at perm

theorem sortMembers_of_ascending (h : Ascending members) : sortMembers members = members := by
  refine List.Perm.eq_of_pairwise (fun a b _ _ hab hba => ?_) (ascending_sortMembers members) h
    (sortMembers_perm h.names_nodup)
  exact absurd hba (String.lt_asymm hab)

end Members

/-! ## Values -/

mutual

/-- A value with the members of all its objects in ascending order. -/
def sorted : JsonValue → JsonValue
  | .array items => .array (sortedItems items)
  | .object members => .object (sortMembers (sortedMembers members))
  | value => value

/-- Items with the members of all their objects in ascending order. -/
def sortedItems : List JsonValue → List JsonValue
  | [] => []
  | item :: rest => item.sorted :: sortedItems rest

/-- Members with the members of all the objects within them in ascending order. -/
def sortedMembers : List (String × JsonValue) → List (String × JsonValue)
  | [] => []
  | (name, value) :: rest => (name, value.sorted) :: sortedMembers rest

end

/-- The members of all objects are in ascending order. -/
inductive IsSorted : JsonValue → Prop
  | null : IsSorted .null
  | bool (value : Bool) : IsSorted (.bool value)
  | integer (value : Int) : IsSorted (.integer value)
  | decimal (negative : Bool) (size : Binary64) : IsSorted (.decimal negative size)
  | string (text : String) : IsSorted (.string text)
  | array {items : List JsonValue} (h : ∀ item ∈ items, IsSorted item) : IsSorted (.array items)
  | object {members : List (String × JsonValue)} (names : Ascending members)
    (h : ∀ member ∈ members, IsSorted member.2) : IsSorted (.object members)

/-- The same value, up to the order of the members of objects. -/
inductive Same : JsonValue → JsonValue → Prop
  | refl (value : JsonValue) : Same value value
  | array {items items' : List JsonValue} (length : items.length = items'.length)
    (h : ∀ pair ∈ items.zip items', Same pair.1 pair.2) : Same (.array items) (.array items')
  | object {members members' : List (String × JsonValue)}
    (names : (members.map Prod.fst).Perm (members'.map Prod.fst))
    (h : ∀ member ∈ members, ∀ member' ∈ members', member.1 = member'.1 →
      Same member.2 member'.2) : Same (.object members) (.object members')

/-- A value without numbers of double precision, whose whole numbers fit 64 bits, whose objects
have no two members of the same name, and in which at most `depth` arrays and objects stand within
one another. -/
inductive IsPlain : Nat → JsonValue → Prop
  | null {depth : Nat} : IsPlain depth .null
  | bool {depth : Nat} (value : Bool) : IsPlain depth (.bool value)
  | integer {depth : Nat} {n : Int} (h : -Int.pow 2 63 ≤ n ∧ n < Int.pow 2 64) :
    IsPlain depth (.integer n)
  | string {depth : Nat} (text : String) : IsPlain depth (.string text)
  | array {depth : Nat} {items : List JsonValue} (h : ∀ item ∈ items, IsPlain depth item) :
    IsPlain (depth + 1) (.array items)
  | object {depth : Nat} {members : List (String × JsonValue)}
    (names : (members.map Prod.fst).Nodup) (h : ∀ member ∈ members, IsPlain depth member.2) :
    IsPlain (depth + 1) (.object members)

variable {depth depth' : Nat} {value : JsonValue}

theorem sortedItems_eq_map (items : List JsonValue) : sortedItems items = items.map sorted := by
  induction items with
  | nil => rfl
  | cons item rest ih => rw [sortedItems, ih, List.map_cons]

theorem sortedMembers_eq_map (members : List (String × JsonValue)) :
    sortedMembers members = members.map fun member => (member.1, member.2.sorted) := by
  induction members with
  | nil => rfl
  | cons member rest ih => rw [sortedMembers, ih, List.map_cons]

theorem names_sortedMembers (members : List (String × JsonValue)) :
    (sortedMembers members).map Prod.fst = members.map Prod.fst := by
  rw [sortedMembers_eq_map, List.map_map]
  rfl

theorem mem_sortedMembers {member : String × JsonValue} {members : List (String × JsonValue)} :
    member ∈ sortedMembers members ↔ ∃ before ∈ members, (before.1, before.2.sorted) = member := by
  rw [sortedMembers_eq_map, List.mem_map]

theorem sortedMembers_perm {members : List (String × JsonValue)}
    (names : (members.map Prod.fst).Nodup) :
    (sortMembers (sortedMembers members)).Perm (sortedMembers members) :=
  sortMembers_perm (by rwa [names_sortedMembers])

theorem IsPlain.mono (h : IsPlain depth value) (hd : depth ≤ depth') : IsPlain depth' value := by
  induction h generalizing depth' with
  | null => exact .null
  | bool value => exact .bool value
  | integer h => exact .integer h
  | string text => exact .string text
  | array h ih =>
    cases depth' with
    | zero => cases hd
    | succ depth' => exact .array fun item hi => ih item hi (Nat.le_of_succ_le_succ hd)
  | object names h ih =>
    cases depth' with
    | zero => cases hd
    | succ depth' => exact .object names fun member hm => ih member hm (Nat.le_of_succ_le_succ hd)

theorem IsPlain.sorted (h : IsPlain depth value) : IsPlain depth value.sorted := by
  induction h with
  | null => exact .null
  | bool value => exact .bool value
  | integer h => exact .integer h
  | string text => exact .string text
  | @array depth items h ih =>
    rw [JsonValue.sorted, sortedItems_eq_map]
    exact .array (List.forall_mem_map.2 ih)
  | @object depth members names h ih =>
    have perm := sortedMembers_perm names
    refine .object ?_ fun member hm => ?_
    · rwa [(perm.map Prod.fst).nodup_iff, names_sortedMembers]
    · obtain ⟨before, hb, rfl⟩ := mem_sortedMembers.1 (perm.mem_iff.1 hm)
      exact ih before hb

theorem isSorted_sorted (h : IsPlain depth value) : value.sorted.IsSorted := by
  induction h with
  | null => exact .null
  | bool value => exact .bool value
  | integer h => exact .integer _
  | string text => exact .string text
  | @array depth items h ih =>
    rw [sorted, sortedItems_eq_map]
    exact .array (List.forall_mem_map.2 ih)
  | @object depth members names h ih =>
    refine .object (ascending_sortMembers _) fun member hm => ?_
    obtain ⟨before, hb, rfl⟩ := mem_sortedMembers.1 ((sortedMembers_perm names).mem_iff.1 hm)
    exact ih before hb

theorem sorted_of_isSorted (h : value.IsSorted) : value.sorted = value := by
  induction h with
  | null => rfl
  | bool value => rfl
  | integer value => rfl
  | decimal negative size => rfl
  | string text => rfl
  | @array items h ih =>
    have same : items.map sorted = items.map id := List.map_congr_left ih
    rw [sorted, sortedItems_eq_map, same, List.map_id]
  | @object members names h ih =>
    have same : members.map (fun member => (member.1, member.2.sorted)) = members.map id :=
      List.map_congr_left fun member hm => by rw [ih member hm, id]
    rw [sorted, sortedMembers_eq_map, same, List.map_id, sortMembers_of_ascending names]

theorem same_sorted (h : IsPlain depth value) : value.Same value.sorted := by
  induction h with
  | null => exact .refl _
  | bool value => exact .refl _
  | integer h => exact .refl _
  | string text => exact .refl _
  | @array depth items h ih =>
    rw [sorted, sortedItems_eq_map]
    have pairs : items.zip (items.map sorted) = items.map fun item => (item, item.sorted) := by
      simpa using List.zip_map' (f := id) (g := sorted) (l := items)
    exact .array (List.length_map _).symm (pairs ▸ List.forall_mem_map.2 ih)
  | @object depth members names h ih =>
    have perm := sortedMembers_perm names
    refine .object ?_ fun member hm member' hm' he => ?_
    · have same := perm.map Prod.fst
      rw [names_sortedMembers] at same
      exact same.symm
    · obtain ⟨before, hb, rfl⟩ := mem_sortedMembers.1 (perm.mem_iff.1 hm')
      obtain rfl := List.inj_on_of_nodup_map names hm hb he
      exact ih member hm

end RequestAuth.JsonValue
