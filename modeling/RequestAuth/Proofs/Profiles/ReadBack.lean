import RequestAuth.Profiles
import RequestAuth.Proofs.Text.Blank

/-!
# Profile files that are read back

A profile whose name, keys and values have no characters with a meaning of their own is plain
(`PlainProfile`). A file that is written from plain profiles, a heading for each and a line for each
key (`Profiles.render`), is read as these profiles (`Profiles.read?_render`). The values may hold
equals signs, colons, brackets and the marks of comments, since by then the line has been parted.
-/

namespace RequestAuth

/-! ## Plain profiles -/

namespace Profiles

/-- A name can stand in brackets as it is. Letters, digits, dashes and underscores can. -/
def IsName (name : String) : Prop :=
  ∀ c ∈ name.toList, c ≠ ']' ∧ c ≠ '\\' ∧ ¬ Text.isBlank c

/-- The characters that a key cannot hold, since they mark something else. -/
def marks : List Char := ['=', ':', '[', ';', '#', '\\']

/-- A key can stand before an equals sign as it is. Letters and underscores can. -/
def IsKey (key : String) : Prop :=
  key.toList ≠ [] ∧ ∀ c ∈ key.toList, c ∉ marks ∧ ¬ Text.isBlank c

/-- A value can stand at the end of a line as it is. Printable characters other than backslashes
and quotes can, if there are no blanks at the ends. -/
structure IsValue (value : String) : Prop where
  /-- It is on one line, and has no escapes. -/
  inLine : ∀ c ∈ value.toList, c ≠ '\\' ∧ ¬ endsLine c
  /-- It begins with no blank and no quote. -/
  first : ∀ c ∈ value.toList.head?, ¬ Text.isBlank c ∧ c ≠ '"' ∧ c ≠ '\''
  /-- It ends with no blank. -/
  last : ∀ c ∈ value.toList.getLast?, ¬ Text.isBlank c

instance (name : String) : Decidable (IsName name) :=
  List.decidableBAll (fun c => c ≠ ']' ∧ c ≠ '\\' ∧ ¬ Text.isBlank c) name.toList

instance (key : String) : Decidable (IsKey key) :=
  have := List.decidableBAll (fun c => c ∉ marks ∧ ¬ Text.isBlank c) key.toList
  inferInstanceAs (Decidable (_ ∧ _))

instance (value : String) : Decidable (IsValue value) :=
  decidable_of_iff (value.toList.all (fun c => c ≠ '\\' ∧ ¬ endsLine c) ∧
    value.toList.head?.all (fun c => ¬ Text.isBlank c ∧ c ≠ '"' ∧ c ≠ '\'') ∧
    value.toList.getLast?.all (fun c => ¬ Text.isBlank c)) <| by
    simp only [List.all_eq_true, Option.all_eq_true, decide_eq_true_eq]
    exact ⟨fun h => ⟨h.1, h.2.1, h.2.2⟩, fun h => ⟨h.inLine, h.first, h.last⟩⟩

end Profiles

/-- A profile that can be written as it is. -/
structure PlainProfile where
  /-- The name. -/
  name : String
  /-- The keys and values, in order. -/
  entries : List (String × String)
  isName : Profiles.IsName name
  isEntry : ∀ entry ∈ entries, Profiles.IsKey entry.1 ∧ Profiles.IsValue entry.2

namespace PlainProfile

/-- The profile as one of a profile file. -/
def toProfile (profile : PlainProfile) : Profile := ⟨some profile.name, profile.entries⟩

/-- The line of an entry. -/
def entryLine (entry : String × String) : List Char :=
  entry.1.toList ++ '=' :: (entry.2.toList ++ ['\n'])

/-- The lines of a profile. -/
def lines (profile : PlainProfile) : List Char :=
  '[' :: (profile.name.toList ++ ']' :: '\n' :: profile.entries.flatMap entryLine)

end PlainProfile

namespace Profiles

/-- The file with the given profiles. -/
def render (profiles : List PlainProfile) : String :=
  String.ofList (profiles.flatMap PlainProfile.lines)

variable {c : Char} {draft : Draft} {rest text : List Char} {stop : Char → Bool}

/-! ## Looking for a character -/

theorem scan_cons (hc : c ≠ '\\') (rest : List Char) :
    scan stop (c :: rest) = if stop c then .found [] (c :: rest) else (scan stop rest).cons c := by
  rw [scan]
  all_goals simp [hc]

/-- Plain characters are passed over up to the one that is looked for. -/
theorem scan_append (h : ∀ d ∈ text, d ≠ '\\' ∧ ¬ stop d) (hc : c ≠ '\\') (hs : stop c)
    (rest : List Char) : scan stop (text ++ c :: rest) = .found text (c :: rest) := by
  induction text with
  | nil => rw [List.nil_append, scan_cons hc, if_pos hs]
  | cons d text ih =>
    obtain ⟨⟨hd, passed⟩, later⟩ := List.forall_mem_cons.1 h
    rw [List.cons_append, scan_cons hd, if_neg passed, ih later]
    rfl

theorem scan?_append (h : ∀ d ∈ text, d ≠ '\\' ∧ ¬ stop d) (hc : c ≠ '\\') (hs : stop c)
    (rest : List Char) : scan? stop (text ++ c :: rest) = some (text, c :: rest) := by
  rw [scan?, scan_append h hc hs]
  rfl

/-! ## Lines -/

theorem isBlank_of_endsLine (h : endsLine c) : Text.isBlank c := by
  obtain rfl | rfl : c = '\n' ∨ c = '\r' := of_decide_eq_true h
  · decide
  · decide

theorem isBlank_of_indents (h : indents c) : Text.isBlank c := by
  obtain rfl | rfl : c = ' ' ∨ c = '\t' := of_decide_eq_true h
  · decide
  · decide

/-- What stands at the start of a line, if anything does, is no blank. -/
def BeginsLine (text : List Char) : Prop :=
  ∀ c ∈ text.head?, ¬ Text.isBlank c

/-- After the end of a line the next one begins in the first column. -/
theorem skipBlanks_newline (h : BeginsLine rest) :
    skipBlanks false ('\n' :: rest) = (true, rest) := by
  cases rest with
  | nil => rfl
  | cons c rest =>
    have hb : ¬ Text.isBlank c := h c rfl
    have hi : ¬ isIndented (c :: rest) := fun hc => hb (isBlank_of_indents hc)
    have he : ¬ endsLine c := fun hc => hb (isBlank_of_endsLine hc)
    rw [skipBlanks, if_pos (by decide), if_neg hi, skipBlanks, if_neg he, if_neg hb]
    rfl

theorem heading?_append {name : String} (h : IsName name) (rest : List Char) :
    heading? (name.toList ++ ']' :: rest) = some (name.toList, rest) := by
  have found : scan? (· = ']') (name.toList ++ ']' :: rest) = some (name.toList, ']' :: rest) :=
    scan?_append (fun c hc => ⟨(h c hc).2.1, by simpa using (h c hc).1⟩) (by decide) (by decide) _
  rw [heading?, found]
  simp only [Text.trim_of_forall fun c hc => (h c hc).2.2]

theorem value?_cons (hd : c ≠ '"') (hs : c ≠ '\'') (rest : List Char) :
    value? true (c :: rest) =
      (scan? endsLine (c :: rest)).map fun (found, rest) => (Text.trim found, rest) := by
  have other : ¬ (c = '"' ∨ c = '\'') := not_or.2 ⟨hd, hs⟩
  rw [value?, if_neg other]
  rfl

theorem value?_append {value : String} (h : IsValue value) (rest : List Char) :
    value? true (skipInLine (value.toList ++ '\n' :: rest)) =
      some (value.toList, '\n' :: rest) := by
  have found : scan? endsLine (value.toList ++ '\n' :: rest) = some (value.toList, '\n' :: rest) :=
    scan?_append h.inLine (by decide) (by decide) rest
  have trimmed : Text.trim value.toList = value.toList :=
    Text.trim_eq_self (fun c hc => (h.first c hc).1) h.last
  -- an empty value has the end of its line for its first character
  obtain ⟨c, later, split, begins, hd, hs⟩ : ∃ c later, value.toList ++ '\n' :: rest = c :: later ∧
      (Text.isBlank c → endsLine c) ∧ c ≠ '"' ∧ c ≠ '\'' := by
    cases hv : value.toList with
    | nil => exact ⟨'\n', rest, rfl, fun _ => by decide, by decide, by decide⟩
    | cons c more =>
      obtain ⟨hb, hd, hs⟩ := h.first c (by rw [hv]; rfl)
      exact ⟨c, _, rfl, fun blank => absurd blank hb, hd, hs⟩
  have kept : skipInLine (c :: later) = c :: later :=
    List.dropWhile_cons_of_neg (by simpa using begins)
  rw [split] at found ⊢
  rw [kept, value?_cons hd hs, found]
  simp only [Option.map_some, trimmed]

theorem assignment?_append {key value : String} (hk : IsKey key) (hv : IsValue value)
    (rest : List Char) :
    assignment? (key.toList ++ '=' :: (value.toList ++ '\n' :: rest)) =
      some (key.toList, value.toList, '\n' :: rest) := by
  have plain : ∀ c ∈ key.toList, c ≠ '\\' ∧ ¬ partsEntry c := by
    intro c hc
    have := (hk.2 c hc).1
    simp_all [marks, partsEntry]
  have found : scan? partsEntry (key.toList ++ '=' :: (value.toList ++ '\n' :: rest)) =
      some (key.toList, '=' :: (value.toList ++ '\n' :: rest)) :=
    scan?_append plain (by decide) (by decide) _
  have trimmed : Text.trim key.toList = key.toList := Text.trim_of_forall fun c hc => (hk.2 c hc).2
  rw [assignment?, found]
  simp only [trimmed, if_neg hk.1, value?_append hv, Option.map_some]

/-! ## Reading the lines -/

theorem readFrom?_heading {name : String} (h : IsName name) (hr : BeginsLine rest) :
    readFrom? draft true ('[' :: (name.toList ++ ']' :: '\n' :: rest)) =
      readFrom? (⟨some name, []⟩ :: draft) true rest := by
  have first : ¬ endsLine '[' ∧ ¬ ('[' = ';' ∨ '[' = '#') := by decide
  rw [readFrom?, if_neg first.1, if_neg first.2, if_pos rfl]
  split
  · next read =>
    obtain ⟨rfl, rfl⟩ := by simpa [heading?_append h] using read
    simp only [skipBlanks_newline hr, Draft.enter, String.ofList_toList]
  · next read =>
    rw [heading?_append h] at read
    cases read

theorem readFrom?_entryLine {name : Option String} {entries : List (String × String)}
    {entry : String × String} (hk : IsKey entry.1) (hv : IsValue entry.2) (hr : BeginsLine rest) :
    readFrom? (⟨name, entries⟩ :: draft) true (PlainProfile.entryLine entry ++ rest) =
      readFrom? (⟨name, entry :: entries⟩ :: draft) true rest := by
  obtain ⟨c, more, first⟩ := List.exists_cons_of_ne_nil hk.1
  have line : PlainProfile.entryLine entry ++ rest =
      c :: (more ++ '=' :: (entry.2.toList ++ '\n' :: rest)) := by
    simp [PlainProfile.entryLine, first]
  obtain ⟨mark, blank⟩ := hk.2 c (by rw [first]; exact List.mem_cons_self)
  have ending : ¬ endsLine c := fun hc => blank (isBlank_of_endsLine hc)
  have indent : ¬ indents c := fun hc => blank (isBlank_of_indents hc)
  have comment : ¬ (c = ';' ∨ c = '#') := by rintro (rfl | rfl) <;> exact mark (by decide)
  have heading : ¬ c = '[' := by rintro rfl; exact mark (by decide)
  have entered := assignment?_append hk hv rest
  rw [first, List.cons_append] at entered
  rw [line, readFrom?, if_neg ending, if_neg comment, if_neg heading, if_neg indent]
  split
  · next read =>
    rw [entered] at read
    obtain ⟨rfl, rfl, rfl⟩ := by simpa using read
    simp only [skipBlanks_newline hr, Draft.add, ← first, String.ofList_toList]
  · next read =>
    rw [entered] at read
    cases read

theorem beginsLine_lines (profiles : List PlainProfile) :
    BeginsLine (profiles.flatMap PlainProfile.lines) := by
  cases profiles with
  | nil => exact fun c hc => nomatch hc
  | cons profile profiles =>
    rintro c ⟨⟩
    decide

theorem beginsLine_entryLines {entries : List (String × String)}
    (h : ∀ entry ∈ entries, IsKey entry.1) (hr : BeginsLine rest) :
    BeginsLine (entries.flatMap PlainProfile.entryLine ++ rest) := by
  cases entries with
  | nil => exact hr
  | cons entry entries =>
    obtain ⟨full, plain⟩ := h entry List.mem_cons_self
    obtain ⟨c, more, first⟩ := List.exists_cons_of_ne_nil full
    have blank := (plain c (by rw [first]; exact List.mem_cons_self)).2
    simpa [PlainProfile.entryLine, first, BeginsLine] using blank

theorem readFrom?_entryLines {name : Option String} {entries : List (String × String)}
    (h : ∀ entry ∈ entries, IsKey entry.1 ∧ IsValue entry.2) (before : List (String × String))
    (hr : BeginsLine rest) :
    readFrom? (⟨name, before⟩ :: draft) true (entries.flatMap PlainProfile.entryLine ++ rest) =
      readFrom? (⟨name, entries.reverse ++ before⟩ :: draft) true rest := by
  induction entries generalizing before with
  | nil => rfl
  | cons entry entries ih =>
    obtain ⟨⟨hk, hv⟩, later⟩ := List.forall_mem_cons.1 h
    have next := beginsLine_entryLines (fun entry he => (later entry he).1) hr
    rw [List.flatMap_cons, List.append_assoc, readFrom?_entryLine hk hv next, ih later,
      List.reverse_cons, List.append_assoc, List.singleton_append]

/-- A profile as it stands in a draft, its last entry first. -/
def drafted (profile : PlainProfile) : Profile :=
  ⟨some profile.name, profile.entries.reverse⟩

theorem readFrom?_lines (profiles : List PlainProfile) (draft : Draft) :
    readFrom? draft true (profiles.flatMap PlainProfile.lines) =
      some ((profiles.map drafted).reverse ++ draft) := by
  induction profiles generalizing draft with
  | nil => rw [List.flatMap_nil, readFrom?]; rfl
  | cons profile profiles ih =>
    have after := beginsLine_lines profiles
    have entries := beginsLine_entryLines (fun entry he => (profile.isEntry entry he).1) after
    have heading : (profile :: profiles).flatMap PlainProfile.lines =
        '[' :: (profile.name.toList ++ ']' :: '\n' ::
          (profile.entries.flatMap PlainProfile.entryLine ++
            profiles.flatMap PlainProfile.lines)) := by
      simp [PlainProfile.lines]
    rw [heading, readFrom?_heading profile.isName entries,
      readFrom?_entryLines profile.isEntry [] after, ih, List.append_nil, List.map_cons,
      List.reverse_cons, List.append_assoc]
    rfl

theorem finish_drafted (profiles : List PlainProfile) :
    Draft.finish (profiles.map drafted).reverse = profiles.map PlainProfile.toProfile := by
  simp [Draft.finish, drafted, PlainProfile.toProfile]

/-- A file that is written from plain profiles is read as these profiles. -/
theorem read?_render (profiles : List PlainProfile) :
    read? (render profiles) = some (profiles.map PlainProfile.toProfile) := by
  rw [read?, render, String.toList_ofList, readChars?, readFrom?_lines, List.append_nil,
    Option.map_some, finish_drafted]

end Profiles

end RequestAuth
