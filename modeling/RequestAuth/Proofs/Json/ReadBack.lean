import RequestAuth.Json.Reader
import RequestAuth.Json.Writer
import RequestAuth.Proofs.Json.Sorted

/-!
# Reading what was written in JSON

A plain value that is written without blanks is read back as the same value with its members in
order (`JsonValue.read?_compactChars`), at any depth that has room for it. A character of a string
is read from its escape, the digits of a number up to what follows them, and an array or object item
by item up to its closing bracket.
-/

namespace RequestAuth.JsonValue

variable {fuel depth n : Nat} {c : Char} {cs digits rest : List Char} {value : JsonValue}

/-! ## Strings -/

theorem readChar?_of_ne (hs : c ≠ '\\') (hc : ¬ c < ' ') :
    readChar? (c :: rest) = some (c, rest) := by
  unfold readChar?
  split
  case h_11 he =>
    cases he
    exact if_neg hc
  case h_12 he => cases he
  -- the other cases are those of escapes
  all_goals
    rename_i he
    cases he
    exact absurd rfl hs

theorem hexValue?_digitChar (h : n < 16) : Bytes.hexValue? (Nat.digitChar n) = some n := by
  revert n
  decide

theorem readUnit?_control (h : c.toNat < 0x20) :
    readUnit? ('0' :: '0' :: Nat.digitChar (c.toNat / 16) :: Nat.digitChar (c.toNat % 16) :: rest) =
      some (c.toNat, rest) := by
  have zero : Bytes.hexValue? '0' = some 0 := rfl
  have value : ((0 * 16 + 0) * 16 + c.toNat / 16) * 16 + c.toNat % 16 = c.toNat := by omega
  rw [readUnit?, zero, hexValue?_digitChar (by omega), hexValue?_digitChar (by omega)]
  exact congrArg (fun n => some (n, rest)) value

theorem readEscapedUnit?_control (h : c.toNat < 0x20) :
    readEscapedUnit? ('0' :: '0' :: Nat.digitChar (c.toNat / 16) ::
      Nat.digitChar (c.toNat % 16) :: rest) = some (c, rest) := by
  have small : c.toNat < 0xD800 ∨ 0xE000 ≤ c.toNat := by omega
  rw [readEscapedUnit?, readUnit?_control h]
  simp only [Option.bind_eq_bind, Option.bind_some, if_pos small, Char.ofNat_toNat]
  rfl

theorem readChar?_escapeChar (c : Char) (rest : List Char) :
    readChar? (escapeChar c ++ rest) = some (c, rest) := by
  unfold escapeChar
  split
  case h_8 quote backslash _ _ _ _ _ =>
    split
    · rename_i control
      exact readEscapedUnit?_control control
    · rename_i printed
      exact readChar?_of_ne backslash printed
  all_goals rfl

/-- No character of a string is written with a quote at its start. -/
theorem exists_escapeChar (c : Char) :
    ∃ first later, escapeChar c = first :: later ∧ first ≠ '"' := by
  unfold escapeChar
  split
  case h_8 quote backslash _ _ _ _ _ =>
    split
    · exact ⟨_, _, rfl, by decide⟩
    · exact ⟨_, _, rfl, quote⟩
  all_goals exact ⟨_, _, rfl, by decide⟩

theorem readString?_escapeChar (c : Char) (rest : List Char) :
    readString? (fuel + 1) (escapeChar c ++ rest) =
      (readString? fuel rest).map fun (cs, rest) => (c :: cs, rest) := by
  have read := readChar?_escapeChar c rest
  obtain ⟨first, later, written, hf⟩ := exists_escapeChar c
  rw [written, List.cons_append] at read ⊢
  rw [readString?, read]
  · simp only [Option.bind_eq_bind, Option.bind_some]
    cases readString? fuel rest with
    | none => rfl
    | some found => rfl
  · intro rest he
    exact hf (List.cons.inj he).1

theorem readString?_flatMap (h : cs.length < fuel) :
    readString? fuel (cs.flatMap escapeChar ++ '"' :: rest) = some (cs, rest) := by
  induction cs generalizing fuel with
  | nil =>
    cases fuel with
    | zero => cases h
    | succ fuel => rfl
  | cons c cs ih =>
    cases fuel with
    | zero => cases h
    | succ fuel =>
      rw [List.flatMap_cons, List.append_assoc, readString?_escapeChar,
        ih (Nat.lt_of_succ_lt_succ h)]
      rfl

theorem length_le_flatMap_escapeChar (cs : List Char) :
    cs.length ≤ (cs.flatMap escapeChar).length := by
  induction cs with
  | nil => exact Nat.le_refl 0
  | cons c cs ih =>
    obtain ⟨first, later, written, -⟩ := exists_escapeChar c
    rw [List.flatMap_cons, written, List.length_append, List.length_cons, List.length_cons]
    omega

theorem stringChars_append (text : String) (rest : List Char) :
    stringChars text ++ rest = '"' :: (text.toList.flatMap escapeChar ++ '"' :: rest) := by
  rw [stringChars, List.cons_append, List.cons_append, List.append_assoc, List.singleton_append]

theorem readString?_stringChars {text : String} (h : (stringChars text).length ≤ fuel) :
    readString? fuel (text.toList.flatMap escapeChar ++ '"' :: rest) =
      some (text.toList, rest) := by
  have := length_le_flatMap_escapeChar text.toList
  apply readString?_flatMap
  rw [stringChars, List.length_append, List.length_cons, List.length_singleton] at h
  omega

/-! ## Whole numbers -/

/-- What can follow a value. -/
def IsEnd : List Char → Prop
  | [] => True
  | c :: _ => c = ',' ∨ c = ']' ∨ c = '\x7d'

theorem isEnd_comma : IsEnd (',' :: rest) :=
  .inl rfl

theorem isEnd_bracket : IsEnd (']' :: rest) :=
  .inr (.inl rfl)

theorem isEnd_brace : IsEnd ('\x7d' :: rest) :=
  .inr (.inr rfl)

theorem IsEnd.takeWhile_isDigit (h : IsEnd rest) : rest.takeWhile Char.isDigit = [] := by
  cases rest with
  | nil => rfl
  | cons c rest => obtain rfl | rfl | rfl := h <;> rfl

theorem IsEnd.dropWhile_isDigit (h : IsEnd rest) : rest.dropWhile Char.isDigit = rest := by
  cases rest with
  | nil => rfl
  | cons c rest => obtain rfl | rfl | rfl := h <;> rfl

theorem IsEnd.not_isFractional (h : IsEnd rest) : ¬ isFractional rest := by
  cases rest with
  | nil => exact Bool.false_ne_true
  | cons c rest => obtain rfl | rfl | rfl := h <;> exact Bool.false_ne_true

theorem digitsOf_append (hd : ∀ c ∈ digits, c.isDigit) (h : IsEnd rest) :
    digitsOf (digits ++ rest) = (digits, rest) := by
  rw [digitsOf, List.takeWhile_append_of_pos hd, List.dropWhile_append_of_pos hd,
    h.takeWhile_isDigit, h.dropWhile_isDigit, List.append_nil]

theorem le_ofDigitChars (digits : List Char) (n : Nat) : n ≤ Nat.ofDigitChars 10 digits n := by
  induction digits generalizing n with
  | nil => exact Nat.le_refl n
  | cons c digits ih =>
    rw [Nat.ofDigitChars_cons]
    exact Nat.le_trans (by omega) (ih _)

/-- Digits of a number of 64 bits are all taken into it. -/
theorem absorb_eq (h : Nat.ofDigitChars 10 digits n < wordBound) :
    absorb n digits = (Nat.ofDigitChars 10 digits n, []) := by
  induction digits generalizing n with
  | nil => rfl
  | cons c digits ih =>
    rw [Nat.ofDigitChars_cons] at h ⊢
    have next : 10 * n + (c.toNat - 0x30) < wordBound := Nat.lt_of_le_of_lt (le_ofDigitChars _ _) h
    rw [absorb, if_pos next]
    exact ih h

/-- A positive number is written without zeros at its start. -/
theorem exists_toDigits (h : 0 < n) : ∃ c cs, Nat.toDigits 10 n = c :: cs ∧ c ≠ '0' := by
  have digit : ∀ n < 10, 0 < n → Nat.digitChar n ≠ '0' := by decide
  induction n using Nat.strongRecOn with
  | ind n ih =>
    by_cases one : n < 10
    · exact ⟨_, [], Nat.toDigits_of_lt_base one, digit n one h⟩
    · obtain ⟨c, cs, first, hc⟩ := ih (n / 10) (by omega) (by omega)
      have split : Nat.toDigits 10 n = Nat.toDigits 10 (n / 10) ++ Nat.toDigits 10 (n % 10) := by
        rw [Nat.toDigits_append_toDigits (by decide) (by omega) (by omega), Nat.div_add_mod]
      exact ⟨c, cs ++ Nat.toDigits 10 (n % 10), by rw [split, first, List.cons_append], hc⟩

theorem isDigit_of_mem_toDigits (hc : c ∈ Nat.toDigits 10 n) : c.isDigit :=
  Nat.isDigit_of_mem_toDigits (by decide) (by decide) hc

theorem numberOf?_toDigits {negative : Bool} {k : Int} (hn : n < wordBound)
    (hk : -Int.pow 2 63 ≤ k) (value : k = if negative then -(n : Int) else n)
    (nonzero : ¬ (negative ∧ n = 0)) (h : IsEnd rest) :
    numberOf? negative (Nat.toDigits 10 n) rest = some (.integer k, rest) := by
  have written : Nat.ofDigitChars 10 (Nat.toDigits 10 n) 0 = n :=
    Nat.ofDigitChars_toDigits (by decide) (by decide)
  have absorbed : absorb 0 (Nat.toDigits 10 n) = (n, []) := by
    rw [absorb_eq (written.symm ▸ hn), written]
  rw [value] at hk ⊢
  rw [numberOf?, absorbed]
  exact if_pos ⟨rfl, h.not_isFractional, hk, nonzero⟩

/-- The only number that is written with a zero at its start is zero. -/
theorem exists_cons_toDigits (n : Nat) :
    ∃ c cs, Nat.toDigits 10 n = c :: cs ∧ (c = '0' → cs = []) := by
  cases n with
  | zero => exact ⟨'0', [], rfl, fun _ => rfl⟩
  | succ n =>
    obtain ⟨c, cs, written, hc⟩ := exists_toDigits n.succ_pos
    exact ⟨c, cs, written, fun he => absurd he hc⟩

theorem digitsOf_toDigits (h : IsEnd rest) :
    digitsOf (Nat.toDigits 10 n ++ rest) = (Nat.toDigits 10 n, rest) :=
  digitsOf_append (fun _ hc => isDigit_of_mem_toDigits hc) h

/-- Digits that a number is written with are not refused. -/
theorem readUnsigned?_toDigits {negative : Bool} (h : IsEnd rest) :
    readUnsigned? negative (Nat.toDigits 10 n ++ rest) =
      numberOf? negative (Nat.toDigits 10 n) rest := by
  obtain ⟨c, cs, written, hc⟩ := exists_cons_toDigits n
  have found := digitsOf_toDigits (n := n) h
  rw [written] at found ⊢
  unfold readUnsigned?
  rw [found]
  split
  · rename_i he
    cases he
  · rename_i he
    cases he
    cases hc rfl
  · rename_i he
    cases he
    rfl

theorem readNumber?_toDigits (h : IsEnd rest) :
    readNumber? (Nat.toDigits 10 n ++ rest) = numberOf? false (Nat.toDigits 10 n) rest := by
  rw [← readUnsigned?_toDigits h]
  obtain ⟨c, cs, written, -⟩ := exists_cons_toDigits n
  have digit : c.isDigit := isDigit_of_mem_toDigits (n := n) (written ▸ List.mem_cons_self)
  rw [written, List.cons_append, readNumber?]
  intro rest he
  cases he
  exact absurd digit (by decide)

theorem readNumber?_integerChars {k : Int} (hk : -Int.pow 2 63 ≤ k ∧ k < Int.pow 2 64)
    (h : IsEnd rest) :
    readNumber? (integerChars k ++ rest) = some (.integer k, rest) := by
  have bound : (wordBound : Int) = Int.pow 2 64 := by decide
  have wider : Int.pow 2 63 < Int.pow 2 64 := by decide
  unfold integerChars
  split
  · rename_i negative
    rw [List.cons_append, readNumber?, readUnsigned?_toDigits h]
    refine numberOf?_toDigits (by omega) hk.1 ?_ (by omega) h
    rw [if_pos rfl]
    omega
  · rename_i positive
    rw [readNumber?_toDigits h]
    refine numberOf?_toDigits (by omega) hk.1 ?_ (fun hn => Bool.false_ne_true hn.1) h
    rw [if_neg Bool.false_ne_true]
    omega

/-! ## Values -/

theorem skipBlanks_cons (h : ¬ (c = ' ' ∨ c = '\t' ∨ c = '\n' ∨ c = '\r')) :
    skipBlanks (c :: rest) = c :: rest :=
  List.dropWhile_cons_of_neg (by simpa using h)

theorem readValue?_bracket : readValue? (fuel + 1) (depth + 1) ('[' :: rest) =
    match skipBlanks rest with
    | ']' :: rest => some (.array [], rest)
    | _ => (readItems? fuel depth rest).map fun (items, rest) => (.array items, rest) :=
  rfl

theorem readValue?_array (h : ∀ later, skipBlanks rest ≠ ']' :: later) :
    readValue? (fuel + 1) (depth + 1) ('[' :: rest) =
      (readItems? fuel depth rest).map fun (items, rest) => (.array items, rest) := by
  rw [readValue?_bracket]
  split
  · rename_i later he
    exact absurd he (h later)
  · rfl

theorem readValue?_brace : readValue? (fuel + 1) (depth + 1) ('\x7b' :: rest) =
    match skipBlanks rest with
    | '\x7d' :: rest => some (.object [], rest)
    | _ => (readMembers? fuel depth rest).map fun (members, rest) =>
      (.object (sortMembers members), rest) :=
  rfl

theorem readValue?_object (h : ∀ later, skipBlanks rest ≠ '\x7d' :: later) :
    readValue? (fuel + 1) (depth + 1) ('\x7b' :: rest) =
      (readMembers? fuel depth rest).map fun (members, rest) =>
        (.object (sortMembers members), rest) := by
  rw [readValue?_brace]
  split
  · rename_i later he
    exact absurd he (h later)
  · rfl

theorem readValue?_number (h : c.isDigit ∨ c = '-') :
    readValue? (fuel + 1) depth (c :: rest) = readNumber? (c :: rest) := by
  have same : skipBlanks (c :: rest) = c :: rest := by
    apply skipBlanks_cons
    rintro (rfl | rfl | rfl | rfl) <;> exact absurd h (by decide)
  rw [readValue?, same]
  split
  case h_7 => rfl
  all_goals
    rename_i he
    cases he
    exact absurd h (by decide)

theorem exists_integerChars (k : Int) :
    ∃ first later, integerChars k = first :: later ∧ (first.isDigit ∨ first = '-') := by
  unfold integerChars
  split
  · exact ⟨'-', _, rfl, .inr rfl⟩
  · obtain ⟨c, cs, written, -⟩ := exists_cons_toDigits k.toNat
    exact ⟨c, cs, written, .inl (isDigit_of_mem_toDigits (n := k.toNat) (by simp [written]))⟩

/-- A value starts with a character that is neither a blank nor the end of an array. -/
theorem IsPlain.skipBlanks_compactChars (h : IsPlain depth value) :
    ∃ first later, skipBlanks (compactChars value ++ rest) = first :: later ∧ first ≠ ']' := by
  cases h with
  | null => exact ⟨'n', _, rfl, by decide⟩
  | bool b => cases b with
    | false => exact ⟨'f', _, rfl, by decide⟩
    | true => exact ⟨'t', _, rfl, by decide⟩
  | string text => exact ⟨'"', _, rfl, by decide⟩
  | array h => exact ⟨'[', _, rfl, by decide⟩
  | object names h => exact ⟨'\x7b', _, rfl, by decide⟩
  | @integer _ k h =>
    obtain ⟨first, later, written, hf⟩ := exists_integerChars k
    refine ⟨first, later ++ rest, ?_, ?_⟩
    · rw [compactChars, written]
      apply skipBlanks_cons
      rintro (rfl | rfl | rfl | rfl) <;> exact absurd hf (by decide)
    · rintro rfl
      exact absurd hf (by decide)

/-- A value that is written without blanks is read back with its members in order, where the depth
and enough fuel are left. -/
def ReadsBack (depth : Nat) (value : JsonValue) : Prop :=
  ∀ fuel rest, (compactChars value).length ≤ fuel → IsEnd rest →
    readValue? (fuel + 1) depth (compactChars value ++ rest) = some (value.sorted, rest)

theorem ReadsBack.of_lt (h : ReadsBack depth value) (hf : (compactChars value).length < fuel)
    (hr : IsEnd rest) :
    readValue? fuel depth (compactChars value ++ rest) = some (value.sorted, rest) := by
  cases fuel with
  | zero => cases hf
  | succ fuel => exact h fuel rest (Nat.le_of_lt_succ hf) hr

theorem readsBack_string (depth : Nat) (text : String) : ReadsBack depth (.string text) := by
  intro fuel rest hf _
  have step (rest : List Char) : readValue? (fuel + 1) depth ('"' :: rest) =
      (readString? fuel rest).map fun (cs, rest) => (.string (String.ofList cs), rest) := rfl
  rw [compactChars, stringChars_append, step, readString?_stringChars hf, Option.map_some]
  simp only [String.ofList_toList]
  rfl

/-! ## Items and members -/

variable {item : JsonValue} {items : List JsonValue} {name : String}
  {members : List (String × JsonValue)}

theorem itemsChars_cons (item : JsonValue) (h : items ≠ []) :
    itemsChars (item :: items) = compactChars item ++ ',' :: itemsChars items := by
  rw [itemsChars]
  exact h

theorem membersChars_cons (name : String) (value : JsonValue) (h : members ≠ []) :
    membersChars ((name, value) :: members) =
      stringChars name ++ ':' :: compactChars value ++ ',' :: membersChars members := by
  rw [membersChars]
  exact h

theorem readItems?_item (h : ReadsBack depth item) (hf : (compactChars item).length < fuel)
    (hr : IsEnd rest) :
    readItems? (fuel + 1) depth (compactChars item ++ rest) = match skipBlanks rest with
      | ',' :: rest => do
        let (items, rest) ← readItems? fuel depth rest
        return (item.sorted :: items, rest)
      | ']' :: rest => return ([item.sorted], rest)
      | _ => failure := by
  rw [readItems?, h.of_lt hf hr]
  rfl

theorem readItems?_itemsChars (hi : items ≠ []) (h : ∀ item ∈ items, ReadsBack depth item)
    (hf : (itemsChars items).length + 1 < fuel) :
    readItems? fuel depth (itemsChars items ++ ']' :: rest) = some (sortedItems items, rest) := by
  induction items generalizing fuel with
  | nil => exact absurd rfl hi
  | cons item items ih =>
    obtain ⟨first, later⟩ := List.forall_mem_cons.1 h
    cases fuel with
    | zero => cases hf
    | succ fuel =>
      by_cases last : items = []
      · subst last
        rw [itemsChars] at hf ⊢
        exact readItems?_item first (by omega) isEnd_bracket
      · rw [itemsChars_cons item last, List.length_append, List.length_cons] at hf
        rw [itemsChars_cons item last, List.append_assoc, List.cons_append,
          readItems?_item first (by omega) isEnd_comma]
        have comma (rest : List Char) : skipBlanks (',' :: rest) = ',' :: rest := rfl
        have enough : (itemsChars items).length + 1 < fuel := by omega
        simp only [comma, ih last later enough]
        rfl

theorem readMembers?_member (h : ReadsBack depth value)
    (hf : (stringChars name).length + (compactChars value).length < fuel) (hr : IsEnd rest) :
    readMembers? (fuel + 1) depth (stringChars name ++ ':' :: compactChars value ++ rest) =
      match skipBlanks rest with
      | ',' :: rest => do
        let (members, rest) ← readMembers? fuel depth rest
        return ((name, value.sorted) :: members, rest)
      | '\x7d' :: rest => return ([(name, value.sorted)], rest)
      | _ => failure := by
  have quote (rest : List Char) : skipBlanks ('"' :: rest) = '"' :: rest := rfl
  have named : (stringChars name).length ≤ fuel := by omega
  have small : (compactChars value).length < fuel := by omega
  rw [List.append_assoc, List.cons_append, stringChars_append, readMembers?, quote]
  change (readString? fuel _ >>= _) = _
  rw [readString?_stringChars named]
  change (readValue? fuel depth (compactChars value ++ rest) >>= _) = _
  rw [h.of_lt small hr, String.ofList_toList]
  rfl

theorem readMembers?_membersChars (hm : members ≠ [])
    (h : ∀ member ∈ members, ReadsBack depth member.2)
    (hf : (membersChars members).length + 1 < fuel) :
    readMembers? fuel depth (membersChars members ++ '\x7d' :: rest) =
      some (sortedMembers members, rest) := by
  induction members generalizing fuel with
  | nil => exact absurd rfl hm
  | cons member members ih =>
    obtain ⟨name, value⟩ := member
    have first : ReadsBack depth value := h (name, value) List.mem_cons_self
    have later := (List.forall_mem_cons.1 h).2
    cases fuel with
    | zero => cases hf
    | succ fuel =>
      by_cases last : members = []
      · subst last
        rw [membersChars] at hf ⊢
        rw [List.length_append, List.length_cons] at hf
        exact readMembers?_member first (by omega) isEnd_brace
      · rw [membersChars_cons name value last, List.length_append, List.length_append,
          List.length_cons, List.length_cons] at hf
        rw [membersChars_cons name value last, List.append_assoc, List.cons_append,
          readMembers?_member first (by omega) isEnd_comma]
        have comma (rest : List Char) : skipBlanks (',' :: rest) = ',' :: rest := rfl
        have enough : (membersChars members).length + 1 < fuel := by omega
        simp only [comma, ih last later enough]
        rfl

/-! ## Plain values -/

theorem exists_itemsChars_eq (item : JsonValue) (items : List JsonValue) :
    ∃ more, itemsChars (item :: items) = compactChars item ++ more := by
  by_cases last : items = []
  · exact ⟨[], by rw [last, itemsChars, List.append_nil]⟩
  · exact ⟨_, itemsChars_cons item last⟩

theorem exists_membersChars_eq (member : String × JsonValue)
    (members : List (String × JsonValue)) :
    ∃ more, membersChars (member :: members) = stringChars member.1 ++ more := by
  obtain ⟨name, value⟩ := member
  by_cases last : members = []
  · exact ⟨_, by rw [last, membersChars]⟩
  · exact ⟨_, (membersChars_cons name value last).trans (List.append_assoc ..)⟩

theorem readsBack_array (plain : ∀ item ∈ items, IsPlain depth item)
    (h : ∀ item ∈ items, ReadsBack depth item) : ReadsBack (depth + 1) (.array items) := by
  intro fuel rest hf _
  rw [compactChars, List.length_append, List.length_cons, List.length_singleton] at hf
  rw [compactChars, List.cons_append, List.cons_append, List.append_assoc, List.singleton_append]
  cases items with
  | nil => rfl
  | cons item items =>
    have filled : item :: items ≠ [] := List.cons_ne_nil item items
    rw [readValue?_array, readItems?_itemsChars filled h hf]
    · rfl
    · intro later he
      obtain ⟨more, written⟩ := exists_itemsChars_eq item items
      rw [written, List.append_assoc] at he
      obtain ⟨first, _, start, hne⟩ := (plain item List.mem_cons_self).skipBlanks_compactChars
      exact hne (List.cons.inj (start.symm.trans he)).1

theorem readsBack_object (h : ∀ member ∈ members, ReadsBack depth member.2) :
    ReadsBack (depth + 1) (.object members) := by
  intro fuel rest hf _
  rw [compactChars, List.length_append, List.length_cons, List.length_singleton] at hf
  rw [compactChars, List.cons_append, List.cons_append, List.append_assoc, List.singleton_append]
  cases members with
  | nil => rfl
  | cons member members =>
    have filled : member :: members ≠ [] := List.cons_ne_nil member members
    rw [readValue?_object, readMembers?_membersChars filled h hf]
    · rfl
    · intro later he
      obtain ⟨more, written⟩ := exists_membersChars_eq member members
      rw [written, List.append_assoc, stringChars_append] at he
      cases he

theorem IsPlain.readsBack (h : IsPlain depth value) : ReadsBack depth value := by
  induction h with
  | null => exact fun fuel rest _ _ => rfl
  | bool b => exact fun fuel rest _ _ => by cases b <;> rfl
  | @integer depth k h =>
    intro fuel rest _ hr
    obtain ⟨first, later, written, hd⟩ := exists_integerChars k
    have read := readNumber?_integerChars h hr
    rw [written] at read
    rw [compactChars, written]
    exact (readValue?_number hd).trans read
  | string text => exact readsBack_string _ text
  | array plain ih => exact readsBack_array plain ih
  | object names plain ih => exact readsBack_object ih

theorem read?_compactChars (h : IsPlain depth value) :
    read? depth (compactChars value) = some value.sorted := by
  have read := h.readsBack (compactChars value).length [] (Nat.le_refl _) trivial
  rw [List.append_nil] at read
  rw [read?, read]
  rfl

end RequestAuth.JsonValue
