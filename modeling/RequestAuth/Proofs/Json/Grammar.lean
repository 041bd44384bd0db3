import RequestAuth.Json.Reader
import RequestAuth.Proofs.Text.Part

/-!
# The grammar of JSON

What a JSON text is, apart from what it means. Each relation `JsonText.R text rest` says that
`text` begins with an `R` and that `rest` follows it. Whatever `JsonValue.read?` reads is a text of
this grammar, and a text that it reads as an object is one (`JsonText.isObject_of_read?`).
-/

namespace RequestAuth.JsonText

/-! ## Blanks, numbers and strings -/

/-- Any number of spaces, tabs and line breaks. -/
inductive Blanks : List Char → List Char → Prop
  | none (rest : List Char) : Blanks rest rest
  | more {c : Char} {text rest : List Char} (h : c = ' ' ∨ c = '\t' ∨ c = '\n' ∨ c = '\r')
    (later : Blanks text rest) : Blanks (c :: text) rest

/-- One digit or more. -/
inductive Digits : List Char → List Char → Prop
  | last {c : Char} {rest : List Char} (h : c.isDigit) : Digits (c :: rest) rest
  | more {c : Char} {text rest : List Char} (h : c.isDigit) (later : Digits text rest) :
    Digits (c :: text) rest

/-- The digits before the point: a zero, or digits that do not start with one. -/
inductive Whole : List Char → List Char → Prop
  | zero (rest : List Char) : Whole ('0' :: rest) rest
  | digits {c : Char} {text rest : List Char} (h : c ≠ '0') (digits : Digits (c :: text) rest) :
    Whole (c :: text) rest

/-- A point and digits, or nothing. -/
inductive Fraction : List Char → List Char → Prop
  | none (rest : List Char) : Fraction rest rest
  | digits {text rest : List Char} (digits : Digits text rest) : Fraction ('.' :: text) rest

/-- A power of ten with or without a sign, or nothing. -/
inductive Exponent : List Char → List Char → Prop
  | none (rest : List Char) : Exponent rest rest
  | digits {e : Char} {text rest : List Char} (h : e = 'e' ∨ e = 'E') (digits : Digits text rest) :
    Exponent (e :: text) rest
  | signed {e sign : Char} {text rest : List Char} (h : e = 'e' ∨ e = 'E')
    (hs : sign = '+' ∨ sign = '-') (digits : Digits text rest) : Exponent (e :: sign :: text) rest

/-- A number without sign. -/
inductive Unsigned : List Char → List Char → Prop
  | mk {text t₁ t₂ rest : List Char} (whole : Whole text t₁) (fraction : Fraction t₁ t₂)
    (exponent : Exponent t₂ rest) : Unsigned text rest

/-- A number. -/
inductive Number : List Char → List Char → Prop
  | positive {text rest : List Char} (h : Unsigned text rest) : Number text rest
  | negative {text rest : List Char} (h : Unsigned text rest) : Number ('-' :: text) rest

/-- The characters of a string and the quote that closes it. -/
inductive StringEnd : List Char → List Char → Prop
  | close (rest : List Char) : StringEnd ('"' :: rest) rest
  | plain {c : Char} {text rest : List Char} (hc : ¬ c < ' ') (hq : c ≠ '"') (hb : c ≠ '\\')
    (later : StringEnd text rest) : StringEnd (c :: text) rest
  | escape {c : Char} {text rest : List Char}
    (h : c ∈ ['"', '\\', '/', 'b', 'f', 'n', 'r', 't']) (later : StringEnd text rest) :
    StringEnd ('\\' :: c :: text) rest
  | unit {a b c d : Char} {text rest : List Char}
    (h : ∀ digit ∈ [a, b, c, d], (Bytes.hexValue? digit).isSome) (later : StringEnd text rest) :
    StringEnd ('\\' :: 'u' :: a :: b :: c :: d :: text) rest

/-! ## Values -/

mutual

/-- A value. -/
inductive Value : List Char → List Char → Prop
  | null (rest : List Char) : Value ("null".toList ++ rest) rest
  | true (rest : List Char) : Value ("true".toList ++ rest) rest
  | false (rest : List Char) : Value ("false".toList ++ rest) rest
  | number {text rest : List Char} (h : Number text rest) : Value text rest
  | string {text rest : List Char} (h : StringEnd text rest) : Value ('"' :: text) rest
  | emptyArray {text rest : List Char} (h : Blanks text (']' :: rest)) : Value ('[' :: text) rest
  | array {text rest : List Char} (h : ItemsEnd text rest) : Value ('[' :: text) rest
  | object {text rest : List Char} (h : Object text rest) : Value text rest

/-- The items of an array and the bracket that closes it. -/
inductive ItemsEnd : List Char → List Char → Prop
  | last {text t₁ t₂ rest : List Char} (before : Blanks text t₁) (item : Value t₁ t₂)
    (close : Blanks t₂ (']' :: rest)) : ItemsEnd text rest
  | more {text t₁ t₂ t₃ rest : List Char} (before : Blanks text t₁) (item : Value t₁ t₂)
    (comma : Blanks t₂ (',' :: t₃)) (later : ItemsEnd t₃ rest) : ItemsEnd text rest

/-- A member of an object, with the blanks before it. -/
inductive Member : List Char → List Char → Prop
  | mk {text t₁ t₂ t₃ t₄ rest : List Char} (quote : Blanks text ('"' :: t₁))
    (name : StringEnd t₁ t₂) (colon : Blanks t₂ (':' :: t₃)) (before : Blanks t₃ t₄)
    (value : Value t₄ rest) : Member text rest

/-- The members of an object and the brace that closes it. -/
inductive MembersEnd : List Char → List Char → Prop
  | last {text t₁ rest : List Char} (member : Member text t₁) (close : Blanks t₁ ('\x7d' :: rest)) :
    MembersEnd text rest
  | more {text t₁ t₂ rest : List Char} (member : Member text t₁) (comma : Blanks t₁ (',' :: t₂))
    (later : MembersEnd t₂ rest) : MembersEnd text rest

/-- An object. -/
inductive Object : List Char → List Char → Prop
  | empty {text rest : List Char} (h : Blanks text ('\x7d' :: rest)) : Object ('\x7b' :: text) rest
  | members {text rest : List Char} (h : MembersEnd text rest) : Object ('\x7b' :: text) rest

end

/-- A whole text that is an object. -/
def IsObject (text : List Char) : Prop :=
  ∃ t₁ t₂, Blanks text t₁ ∧ Object t₁ t₂ ∧ Blanks t₂ []

/-! ## What is read -/

open JsonValue

variable {fuel depth n : Nat} {c : Char} {cs digits rest text : List Char}
  {negative : Bool} {value : JsonValue}

theorem blanks_skipBlanks (text : List Char) : Blanks text (skipBlanks text) := by
  induction text with
  | nil => exact .none []
  | cons c text ih =>
    by_cases h : c = ' ' ∨ c = '\t' ∨ c = '\n' ∨ c = '\r'
    · rw [skipBlanks, List.dropWhile_cons_of_pos (by simpa using h)]
      exact .more h ih
    · rw [skipBlanks, List.dropWhile_cons_of_neg (by simpa using h)]
      exact .none _

theorem Blanks.of_skipBlanks (h : skipBlanks text = rest) : Blanks text rest :=
  h ▸ blanks_skipBlanks text

/-! ## Numbers -/

theorem digits_dropWhile (h : c.isDigit) :
    Digits (c :: text) ((c :: text).dropWhile Char.isDigit) := by
  rw [List.dropWhile_cons_of_pos h]
  induction text generalizing c with
  | nil => exact .last h
  | cons d text ih =>
    by_cases hd : d.isDigit
    · rw [List.dropWhile_cons_of_pos hd]
      exact .more h (ih hd)
    · rw [List.dropWhile_cons_of_neg hd]
      exact .last h

theorem digits_of_digitsOf (h : digitsOf text = (digits, rest)) (hd : digits ≠ []) :
    Digits text rest := by
  obtain ⟨rfl, rfl⟩ := Prod.mk.inj h
  cases text with
  | nil => exact absurd rfl hd
  | cons c text =>
    by_cases hc : c.isDigit
    · exact digits_dropWhile hc
    · exact absurd (List.takeWhile_cons_of_neg hc) hd

theorem eq_append_of_digitsOf (h : digitsOf text = (digits, rest)) : text = digits ++ rest := by
  obtain ⟨rfl, rfl⟩ := Prod.mk.inj h
  exact List.takeWhile_append_dropWhile.symm

theorem fraction_of_readFraction? {fraction : Int} {m skipped : Nat}
    (h : readFraction? n skipped text = some (m, fraction, rest)) : Fraction text rest := by
  unfold readFraction? at h
  split at h
  · split at h
    · cases h
    · rename_i digits later hne found
      cases h
      exact .digits (digits_of_digitsOf found hne)
  · cases h
    exact .none _

theorem readSign_cases (text : List Char) :
    (readSign text).2 = text ∨
      ∃ sign, (sign = '+' ∨ sign = '-') ∧ text = sign :: (readSign text).2 := by
  unfold readSign
  split
  · exact .inr ⟨'-', .inr rfl, rfl⟩
  · exact .inr ⟨'+', .inl rfl, rfl⟩
  · exact .inl rfl

theorem digits_of_readPower? {power : Int} (h : readPower? text = some (power, rest)) :
    Digits (readSign text).2 rest := by
  unfold readPower? at h
  dsimp only at h
  split at h
  · cases h
  · rename_i digits later hne found
    cases h
    exact digits_of_digitsOf found hne

theorem exponent_of_readPower? {e : Char} {power : Int} (he : e = 'e' ∨ e = 'E')
    (h : readPower? text = some (power, rest)) : Exponent (e :: text) rest := by
  have digits := digits_of_readPower? h
  obtain same | ⟨sign, hs, signed⟩ := readSign_cases text
  · exact .digits he (same ▸ digits)
  · rw [signed]
    exact .signed he hs digits

theorem exponent_of_readExponent? {exponent : Int}
    (h : readExponent? text = some (exponent, rest)) : Exponent text rest := by
  unfold readExponent? at h
  split at h
  · exact exponent_of_readPower? (.inl rfl) h
  · exact exponent_of_readPower? (.inr rfl) h
  · cases h
    exact .none _

/-- What follows the digits of a number, if anything does, is a fraction and an exponent. -/
theorem exists_of_numberOf? (h : numberOf? negative digits text = some (value, rest)) :
    (∃ t, Fraction text t ∧ Exponent t rest) ∧ ∀ members, value ≠ .object members := by
  unfold numberOf? at h
  dsimp only at h
  generalize (if negative then -((absorb 0 digits).1 : Int) else (absorb 0 digits).1) = whole at h
  split at h
  · cases h
    exact ⟨⟨_, .none _, .none _⟩, fun members he => nomatch he⟩
  · obtain ⟨⟨m, fraction, t⟩, hf, h⟩ := Option.bind_eq_some_iff.1 h
    obtain ⟨⟨exponent, t'⟩, he, h⟩ := Option.bind_eq_some_iff.1 h
    obtain ⟨size, -, h⟩ := Option.bind_eq_some_iff.1 h
    cases h
    exact ⟨⟨t, fraction_of_readFraction? hf, exponent_of_readExponent? he⟩,
      fun members he => nomatch he⟩

theorem unsigned_of_readUnsigned? (h : readUnsigned? negative text = some (value, rest)) :
    Unsigned text rest ∧ ∀ members, value ≠ .object members := by
  unfold readUnsigned? at h
  split at h
  · cases h
  · cases h
  · rename_i digits later hne hz found
    obtain ⟨⟨t, fraction, exponent⟩, none_object⟩ := exists_of_numberOf? h
    refine ⟨⟨?_, fraction, exponent⟩, none_object⟩
    have read := eq_append_of_digitsOf found
    cases digits with
    | nil => exact absurd rfl hne
    | cons c digits =>
      by_cases zero : c = '0'
      · subst zero
        cases digits with
        | nil => exact read ▸ .zero _
        | cons d digits => exact absurd rfl (hz d digits)
      · have all := digits_of_digitsOf found hne
        rw [read] at all ⊢
        exact .digits zero all

theorem number_of_readNumber? (h : readNumber? text = some (value, rest)) :
    Number text rest ∧ ∀ members, value ≠ .object members := by
  unfold readNumber? at h
  split at h
  · exact (unsigned_of_readUnsigned? h).imp_left .negative
  · exact (unsigned_of_readUnsigned? h).imp_left .positive

/-! ## Strings -/

theorem exists_of_readUnit? (h : readUnit? text = some (n, rest)) :
    ∃ a b c d, text = a :: b :: c :: d :: rest ∧
      ∀ digit ∈ [a, b, c, d], (Bytes.hexValue? digit).isSome := by
  unfold readUnit? at h
  split at h
  · rename_i a b c d later
    obtain ⟨na, ha, h⟩ := Option.bind_eq_some_iff.1 h
    obtain ⟨nb, hb, h⟩ := Option.bind_eq_some_iff.1 h
    obtain ⟨nc, hc, h⟩ := Option.bind_eq_some_iff.1 h
    obtain ⟨nd, hd, h⟩ := Option.bind_eq_some_iff.1 h
    cases h
    refine ⟨a, b, c, d, rfl, ?_⟩
    simp only [List.forall_mem_cons, ha, hb, hc, hd, Option.isSome_some, true_and]
    exact fun digit hm => nomatch hm
  · cases h

theorem StringEnd.of_readUnit? {t : List Char} (h : readUnit? text = some (n, t))
    (later : StringEnd t rest) : StringEnd ('\\' :: 'u' :: text) rest := by
  obtain ⟨a, b, c, d, rfl, digits⟩ := exists_of_readUnit? h
  exact .unit digits later

theorem StringEnd.of_readEscapedUnit? {t : List Char} (h : readEscapedUnit? text = some (c, t))
    (later : StringEnd t rest) : StringEnd ('\\' :: 'u' :: text) rest := by
  unfold readEscapedUnit? at h
  obtain ⟨⟨n, t'⟩, first, h⟩ := Option.bind_eq_some_iff.1 h
  dsimp only at h
  split at h
  · cases h
    exact .of_readUnit? first later
  split at h
  · cases h
  split at h
  · -- a unit that takes a second one is written as two
    obtain ⟨⟨m, t''⟩, second, h⟩ := Option.bind_eq_some_iff.1 h
    dsimp only at h
    split at h
    · cases h
    · obtain ⟨-, rfl⟩ := Prod.mk.inj (Option.some.inj h)
      exact .of_readUnit? first (.of_readUnit? second later)
  · cases h

theorem StringEnd.of_readChar? {t : List Char} (h : readChar? text = some (c, t))
    (hq : ∀ later, text ≠ '"' :: later) (later : StringEnd t rest) : StringEnd text rest := by
  unfold readChar? at h
  split at h
  case h_1 => exact .of_readEscapedUnit? h later
  case h_10 => cases h
  case h_11 d _ _ _ _ _ _ _ _ _ _ backslash =>
    split at h
    · cases h
    · rename_i printed
      cases h
      exact .plain printed (fun he => hq _ (by rw [he])) backslash later
  case h_12 => cases h
  all_goals
    cases h
    exact .escape (by decide) later

theorem stringEnd_of_readString? (h : readString? fuel text = some (cs, rest)) :
    StringEnd text rest := by
  induction fuel generalizing text cs with
  | zero => cases h
  | succ fuel ih =>
    unfold readString? at h
    split at h
    · cases h
    · cases h
      exact .close _
    · rename_i he hq
      cases he
      obtain ⟨⟨c, t⟩, first, h⟩ := Option.bind_eq_some_iff.1 h
      obtain ⟨⟨later, t'⟩, found, h⟩ := Option.bind_eq_some_iff.1 h
      cases h
      exact .of_readChar? first hq (ih found)

/-! ## Values -/

/-- What is read as a value, with the given fuel, is one, and an object if it is read as one. -/
def ReadsValues (fuel : Nat) : Prop :=
  ∀ depth text value rest, readValue? fuel depth text = some (value, rest) →
    ∃ t, Blanks text t ∧ Value t rest ∧ ∀ members, value = .object members → Object t rest

/-- What is read as the items of an array, with the given fuel, is items. -/
def ReadsItems (fuel : Nat) : Prop :=
  ∀ depth text items rest, readItems? fuel depth text = some (items, rest) → ItemsEnd text rest

/-- What is read as the members of an object, with the given fuel, is members. -/
def ReadsMembers (fuel : Nat) : Prop :=
  ∀ depth text members rest, readMembers? fuel depth text = some (members, rest) →
    MembersEnd text rest

theorem eq_of_word {word t : List Char} {known : JsonValue}
    (h : (Text.after? word t).map (known, ·) = some (value, rest)) :
    t = word ++ rest ∧ value = known := by
  obtain ⟨later, found, h⟩ := Option.map_eq_some_iff.1 h
  cases h
  exact ⟨Text.eq_append_of_after? found, rfl⟩

theorem ReadsItems.step (values : ReadsValues fuel) (items : ReadsItems fuel) :
    ReadsItems (fuel + 1) := by
  intro depth text found rest h
  rw [readItems?] at h
  obtain ⟨⟨item, t₂⟩, read, h⟩ := Option.bind_eq_some_iff.1 h
  obtain ⟨t₁, before, value, -⟩ := values depth text item t₂ read
  dsimp only at h
  split at h
  · rename_i t₃ comma
    obtain ⟨⟨others, rest'⟩, read, h⟩ := Option.bind_eq_some_iff.1 h
    cases h
    exact .more before value (.of_skipBlanks comma) (items depth t₃ others _ read)
  · rename_i rest' close
    cases h
    exact .last before value (.of_skipBlanks close)
  · cases h

theorem ReadsMembers.step (values : ReadsValues fuel) (members : ReadsMembers fuel) :
    ReadsMembers (fuel + 1) := by
  intro depth text found rest h
  rw [readMembers?] at h
  split at h
  · rename_i t₁ quote
    obtain ⟨⟨name, t₂⟩, name_read, h⟩ := Option.bind_eq_some_iff.1 h
    dsimp only at h
    split at h
    · rename_i t₃ colon
      obtain ⟨⟨value, t₄⟩, read, h⟩ := Option.bind_eq_some_iff.1 h
      obtain ⟨t, before, value, -⟩ := values depth t₃ value t₄ read
      have member : Member text t₄ := .mk (.of_skipBlanks quote)
        (stringEnd_of_readString? name_read) (.of_skipBlanks colon) before value
      dsimp only at h
      split at h
      · rename_i t₅ comma
        obtain ⟨⟨others, rest'⟩, read, h⟩ := Option.bind_eq_some_iff.1 h
        cases h
        exact .more member (.of_skipBlanks comma) (members depth t₅ others _ read)
      · rename_i rest' close
        cases h
        exact .last member (.of_skipBlanks close)
      · cases h
    · cases h
  · cases h

theorem ReadsValues.step (items : ReadsItems fuel) (members : ReadsMembers fuel) :
    ReadsValues (fuel + 1) := by
  intro depth text value rest h
  refine ⟨skipBlanks text, blanks_skipBlanks text, ?_⟩
  rw [readValue?] at h
  split at h
  case h_1 t start =>
    obtain ⟨rfl, rfl⟩ := eq_of_word h
    rw [start]
    exact ⟨.null _, fun members he => nomatch he⟩
  case h_2 t start =>
    obtain ⟨rfl, rfl⟩ := eq_of_word h
    rw [start]
    exact ⟨.true _, fun members he => nomatch he⟩
  case h_3 t start =>
    obtain ⟨rfl, rfl⟩ := eq_of_word h
    rw [start]
    exact ⟨.false _, fun members he => nomatch he⟩
  case h_4 t start =>
    obtain ⟨⟨cs, later⟩, found, h⟩ := Option.map_eq_some_iff.1 h
    cases h
    rw [start]
    exact ⟨.string (stringEnd_of_readString? found), fun members he => nomatch he⟩
  case h_5 t start =>
    rw [start]
    split at h
    · cases h
    split at h
    · rename_i later close
      cases h
      exact ⟨.emptyArray (.of_skipBlanks close), fun members he => nomatch he⟩
    · rename_i depth _ _
      obtain ⟨⟨found, later⟩, read, h⟩ := Option.map_eq_some_iff.1 h
      cases h
      exact ⟨.array (items depth t found _ read), fun members he => nomatch he⟩
  case h_6 t start =>
    rw [start]
    split at h
    · cases h
    split at h
    · rename_i later close
      cases h
      have object : Object ('\x7b' :: t) rest := .empty (.of_skipBlanks close)
      exact ⟨.object object, fun _ _ => object⟩
    · rename_i depth _ _
      obtain ⟨⟨found, later⟩, read, h⟩ := Option.map_eq_some_iff.1 h
      cases h
      have object : Object ('\x7b' :: t) rest := .members (members depth t found _ read)
      exact ⟨.object object, fun _ _ => object⟩
  case h_7 =>
    obtain ⟨number, none_object⟩ := number_of_readNumber? h
    exact ⟨.number number, fun members he => absurd he (none_object members)⟩

theorem reads (fuel : Nat) : ReadsValues fuel ∧ ReadsItems fuel ∧ ReadsMembers fuel := by
  induction fuel with
  | zero =>
    refine ⟨?_, ?_, ?_⟩
    · intro depth text value rest h
      cases h
    · intro depth text items rest h
      cases h
    · intro depth text members rest h
      cases h
  | succ fuel ih =>
    obtain ⟨values, items, members⟩ := ih
    exact ⟨.step items members, .step values items, .step values members⟩

theorem isObject_of_read? {members : List (String × JsonValue)}
    (h : read? depth text = some (.object members)) : IsObject text := by
  obtain ⟨⟨value, t₂⟩, read, h⟩ := Option.bind_eq_some_iff.1 h
  obtain ⟨_, whole, h⟩ := Option.bind_eq_some_iff.1 h
  cases h
  obtain ⟨t₁, before, -, object⟩ := (reads _).1 depth text _ t₂ read
  have after : skipBlanks t₂ = [] := by simpa [guard] using whole
  exact ⟨t₁, t₂, before, object members rfl, .of_skipBlanks after⟩

end RequestAuth.JsonText
