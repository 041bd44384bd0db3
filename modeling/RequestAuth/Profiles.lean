import RequestAuth.Bytes
import RequestAuth.Text.Blank

/-!
# Profile files

A profile file has sections, each headed by its name in brackets, with a key and a value on each
line, parted by an equals sign or a colon. A line that begins with a semicolon or a hash sign is a
comment. A backslash takes away the meaning of the next character, or gives one to a few of them,
and joins two lines at the end of one; a value may stand in quotes. Lines may be indented, but not
comments.

`Profiles.read?` reads such a file. Of sections with the same name, and of keys with the same name
in a section, the first one counts.
-/

namespace RequestAuth

/-- A section of a profile file. -/
structure Profile where
  /-- The name in brackets; nothing for what stands before the first name. -/
  name : Option String
  /-- The keys and values, in order. -/
  entries : List (String × String)
  deriving DecidableEq, Repr

/-- The value of a key of a profile. -/
def Profile.value? (profile : Profile) (key : String) : Option String :=
  profile.entries.lookup key

/-- The sections of a profile file, in order. -/
abbrev Profiles := List Profile

namespace Profiles

/-- The profile of the given name. -/
def profile? (profiles : Profiles) (name : String) : Option Profile :=
  profiles.find? fun profile => profile.name = some name

/-! ## Escapes -/

/-- The character that a letter stands for after a backslash. -/
def unescaped (c : Char) : Char :=
  match c with
  | '0' => '\x00'
  | 'a' => '\x07'
  | 'b' => '\x08'
  | 't' => '\t'
  | 'r' => '\r'
  | 'n' => '\n'
  | c => c

/-- The number that hexadecimal digits write, which may have a plus sign before them. -/
def hexNumber? (digits : List Char) : Option Nat :=
  match digits with
  | '+' :: digits => go digits
  | _ => go digits
where
  /-- The number that hexadecimal digits write. -/
  go (digits : List Char) : Option Nat :=
    digits.foldlM (fun n c => return 16 * n + (← Bytes.hexValue? c)) 0

/-- The character whose number four hexadecimal digits write. -/
def numbered? (a b c d : Char) : Option Char := do
  let n ← hexNumber? [a, b, c, d]
  if n.isValidChar then some (Char.ofNat n) else none

/-- What comes of looking for a character. -/
inductive Scan where
  /-- The characters before it, escapes replaced, and what follows them: nothing, or the character
  and the rest of the text. -/
  | found (text rest : List Char)
  /-- There is an escape before it that stands for no character. The rest of the text begins where
  that is seen, which may be in the first column. -/
  | broken (firstColumn : Bool) (rest : List Char)
  deriving DecidableEq, Repr

namespace Scan

/-- What follows the characters that were looked at. -/
def rest : Scan → List Char
  | found _ rest => rest
  | broken _ rest => rest

/-- The outcome for a text that has one more character at its start. -/
def cons (c : Char) : Scan → Scan
  | found text rest => found (c :: text) rest
  | broken firstColumn rest => broken firstColumn rest

@[simp] theorem rest_found (text rest : List Char) : (found text rest).rest = rest := rfl

@[simp] theorem rest_broken (firstColumn : Bool) (rest : List Char) :
    (broken firstColumn rest).rest = rest := rfl

@[simp] theorem rest_cons (c : Char) (s : Scan) : (s.cons c).rest = s.rest := by
  cases s <;> rfl

/-- The characters found and what follows them. -/
def result? : Scan → Option (List Char × List Char)
  | found text rest => some (text, rest)
  | broken _ _ => none

theorem rest_of_result? {s : Scan} {text rest : List Char} (h : s.result? = some (text, rest)) :
    s.rest = rest := by
  cases s <;> simp_all [result?]

/-- The outcome for an escape whose digits write no number, given the text that its digits begin.
The rest begins after the given number of characters, or right after a backslash that joins no two
lines. -/
def ofDigits (count : Nat) (firstColumn : Bool) (text : List Char) : Scan :=
  match count, text with
  | _, [] => broken false []
  | 0, '\\' :: rest => broken false rest
  | 0, c :: rest => broken firstColumn (c :: rest)
  | count + 1, '\\' :: '\n' :: rest => ofDigits count true rest
  | _ + 1, '\\' :: rest => broken false rest
  | count + 1, c :: rest => ofDigits count (c = '\n') rest

theorem length_rest_ofDigits_le (count : Nat) (firstColumn : Bool) (text : List Char) :
    (ofDigits count firstColumn text).rest.length ≤ text.length := by
  fun_induction ofDigits count firstColumn text <;> simp_all <;> omega

end Scan

/-- Looks for the first character that `stop` holds of. -/
def scan (stop : Char → Bool) : List Char → Scan
  | [] => .found [] []
  | ['\\'] => .found ['\\'] []
  | '\\' :: '\n' :: rest => scan stop rest
  | '\\' :: 'x' :: a :: b :: c :: d :: rest =>
    match numbered? a b c d with
    | some e => (scan stop rest).cons e
    | none => .ofDigits 3 false (a :: b :: c :: d :: rest)
  | '\\' :: 'x' :: rest => .ofDigits 3 false rest
  | '\\' :: c :: rest => (scan stop rest).cons (unescaped c)
  | c :: rest => if stop c then .found [] (c :: rest) else (scan stop rest).cons c

theorem length_rest_scan_le (stop : Char → Bool) (text : List Char) :
    (scan stop text).rest.length ≤ text.length := by
  fun_induction scan stop text with
  | case5 a b c d rest =>
    have := Scan.length_rest_ofDigits_le 3 false (a :: b :: c :: d :: rest)
    simp only [List.length_cons] at *
    omega
  | case6 rest =>
    have := Scan.length_rest_ofDigits_le 3 false rest
    simp only [List.length_cons]
    omega
  | _ => simp <;> omega

theorem length_le_of_scan {stop : Char → Bool} {text : List Char} {s : Scan}
    (h : scan stop text = s) : s.rest.length ≤ text.length :=
  h ▸ length_rest_scan_le stop text

/-- The characters up to the first that `stop` holds of, escapes replaced, and what follows them;
that is nothing, or begins with that character. -/
def scan? (stop : Char → Bool) (text : List Char) : Option (List Char × List Char) :=
  (scan stop text).result?

theorem length_le_of_scan? {stop : Char → Bool} {text found rest : List Char}
    (h : scan? stop text = some (found, rest)) : rest.length ≤ text.length :=
  Scan.rest_of_result? h ▸ length_rest_scan_le stop text

/-! ## Values -/

/-- Whether a character ends a line. -/
def endsLine (c : Char) : Bool :=
  c = '\n' ∨ c = '\r'

/-- A text without the blanks before the end of its first line. -/
def skipInLine (text : List Char) : List Char :=
  text.dropWhile fun c => Text.isBlank c ∧ ¬ endsLine c

/-- The value at the start of a text, and what follows it: any number of texts in quotes, one right
after the other, and then all up to the end of the line, without the blanks at its ends. -/
def value? (atStart : Bool) (text : List Char) : Option (List Char × List Char) :=
  match text with
  | [] => some ([], [])
  | c :: rest =>
    if c = '"' ∨ c = '\'' then
      match _h : scan? (· = c) rest with
      | some (quoted, _ :: rest) =>
        (value? false rest).map fun (more, rest) => (quoted ++ more, rest)
      | _ => none
    else
      (scan? endsLine text).map fun (found, rest) =>
        (if atStart then Text.trim found else Text.trimEnd found, rest)
termination_by text.length
decreasing_by
  have := length_le_of_scan? _h
  simp only [List.length_cons] at *
  omega

theorem length_le_of_value? {atStart : Bool} {text found rest : List Char}
    (h : value? atStart text = some (found, rest)) : rest.length ≤ text.length := by
  fun_induction value? atStart text generalizing found rest with
  | case1 => simp_all
  | case2 atStart c text hc quoted d after hs ih =>
    obtain ⟨⟨more, last⟩, hv, he⟩ := Option.map_eq_some_iff.1 h
    simp only [Prod.mk.injEq] at he
    obtain ⟨-, rfl⟩ := he
    have := length_le_of_scan? hs
    have := ih hv
    simp only [List.length_cons] at *
    omega
  | case3 => simp at h
  | case4 atStart c text hc =>
    obtain ⟨⟨more, last⟩, hs, he⟩ := Option.map_eq_some_iff.1 h
    simp only [Prod.mk.injEq] at he
    obtain ⟨-, rfl⟩ := he
    exact length_le_of_scan? hs

/-! ## Sections and entries -/

/-- Whether a character parts a key from its value. -/
def partsEntry (c : Char) : Bool :=
  c = '=' ∨ c = ':'

/-- The key and the value at the start of a text, and what follows them. -/
def assignment? (text : List Char) : Option (List Char × List Char × List Char) :=
  match scan? partsEntry text with
  | some (key, _ :: rest) =>
    if Text.trim key = [] then none
    else (value? true (skipInLine rest)).map fun (value, rest) => (Text.trim key, value, rest)
  | _ => none

theorem length_lt_of_assignment? {text key found rest : List Char}
    (h : assignment? text = some (key, found, rest)) : rest.length < text.length := by
  unfold assignment? at h
  split at h
  · rename_i name c after hs
    split at h
    · simp at h
    · obtain ⟨⟨value, last⟩, hv, he⟩ := Option.map_eq_some_iff.1 h
      simp only [Prod.mk.injEq] at he
      obtain ⟨-, -, rfl⟩ := he
      have h₁ := length_le_of_scan? hs
      have h₂ := length_le_of_value? hv
      have h₃ := (List.dropWhile_sublist (l := after) fun c =>
        Text.isBlank c ∧ ¬ endsLine c).length_le
      simp only [skipInLine, List.length_cons] at *
      omega
  · simp at h

/-- The name of a section after its opening bracket, and what follows its closing one. -/
def heading? (text : List Char) : Option (List Char × List Char) :=
  match scan? (· = ']') text with
  | some (name, _ :: rest) => some (Text.trim name, rest)
  | _ => none

theorem length_lt_of_heading? {text name rest : List Char}
    (h : heading? text = some (name, rest)) : rest.length < text.length := by
  unfold heading? at h
  split at h
  · rename_i found c after hs
    obtain ⟨-, rfl⟩ := by simpa using h
    exact length_le_of_scan? hs
  · simp at h

/-- A profile file of which a part has been read, the last section and the last entry first. -/
abbrev Draft := List Profile

namespace Draft

/-- Begins a section. -/
def enter (draft : Draft) (name : List Char) : Draft :=
  ⟨some (String.ofList name), []⟩ :: draft

/-- Adds an entry to the last section. -/
def add (draft : Draft) (key value : List Char) : Draft :=
  match draft with
  | [] => [⟨none, [(String.ofList key, String.ofList value)]⟩]
  | ⟨name, entries⟩ :: rest =>
    ⟨name, (String.ofList key, String.ofList value) :: entries⟩ :: rest

/-- The sections in the order of the file. -/
def finish (draft : Draft) : Profiles :=
  (draft.map fun ⟨name, entries⟩ => ⟨name, entries.reverse⟩).reverse

end Draft

/-! ## The file -/

/-- Whether a character may indent a line. -/
def indents (c : Char) : Bool :=
  c = ' ' ∨ c = '\t'

/-- Whether a text begins with a character that may indent a line. -/
def isIndented : List Char → Bool
  | c :: _ => indents c
  | [] => false

/-- A text without the blanks at its start, up to an indented line, and whether what is left begins
in the first column. -/
def skipBlanks (firstColumn : Bool) : List Char → Bool × List Char
  | [] => (firstColumn, [])
  | c :: rest =>
    if endsLine c then
      if isIndented rest then (c = '\n', rest) else skipBlanks (c = '\n') rest
    else if Text.isBlank c then skipBlanks false rest
    else (firstColumn, c :: rest)

theorem length_skipBlanks_le (firstColumn : Bool) (text : List Char) :
    (skipBlanks firstColumn text).2.length ≤ text.length := by
  fun_induction skipBlanks firstColumn text <;> simp_all <;> omega

theorem length_skipBlanks_lt {firstColumn : Bool} {text : List Char} {n : Nat}
    (h : text.length < n) : (skipBlanks firstColumn text).2.length < n :=
  Nat.lt_of_le_of_lt (length_skipBlanks_le firstColumn text) h

theorem length_le_of_dropWhile {p : Char → Bool} {text rest : List Char}
    (h : text.dropWhile p = rest) : rest.length ≤ text.length :=
  h ▸ (List.dropWhile_sublist p).length_le

/-- What follows a comment. -/
def skipComment (text : List Char) : List Char :=
  (text.dropWhile (· ≠ '\n')).tail

theorem length_skipComment_le (text : List Char) : (skipComment text).length ≤ text.length := by
  have := (List.dropWhile_sublist (l := text) (· ≠ '\n')).length_le
  simp only [skipComment, List.length_tail]
  omega

/-- Reads the rest of a file. An indented line holds a section, an entry, or nothing; there, a key
without a value ends the file, and an escape in a key that stands for no character is skipped with
what precedes it. -/
def readFrom? (draft : Draft) (firstColumn : Bool) (text : List Char) : Option Draft :=
  match text with
  | [] => some draft
  | c :: rest =>
    if endsLine c then
      let next := skipBlanks (c = '\n') rest
      readFrom? draft next.1 next.2
    else if c = ';' ∨ c = '#' then
      if firstColumn then
        let next := skipBlanks true (skipComment rest)
        readFrom? draft next.1 next.2
      else none
    else if c = '[' then
      match _h : heading? rest with
      | some (name, rest) =>
        let next := skipBlanks false rest
        readFrom? (draft.enter name) next.1 next.2
      | none => none
    else if indents c then
      match _h : rest.dropWhile indents with
      | [] => some draft
      | '[' :: rest => readFrom? draft false ('[' :: rest)
      | d :: rest =>
        if endsLine d then readFrom? draft (d = '\n') rest
        else match _hs : scan partsEntry (d :: rest) with
          | .found _ [] => some draft
          | .broken firstColumn rest =>
            let next := skipBlanks firstColumn rest
            readFrom? draft next.1 next.2
          | .found _ (_ :: _) => match _he : assignment? (d :: rest) with
            | some (key, value, rest) =>
              let next := skipBlanks false rest
              readFrom? (draft.add key value) next.1 next.2
            | none => none
    else
      match _h : assignment? (c :: rest) with
      | some (key, value, rest) =>
        let next := skipBlanks false rest
        readFrom? (draft.add key value) next.1 next.2
      | none => none
termination_by text.length
decreasing_by
  · exact length_skipBlanks_lt (Nat.lt_succ_self rest.length)
  · exact length_skipBlanks_lt (Nat.lt_succ_of_le (length_skipComment_le rest))
  · exact length_skipBlanks_lt (Nat.lt_succ_of_lt (length_lt_of_heading? _h))
  · exact Nat.lt_succ_of_le (length_le_of_dropWhile _h)
  · exact Nat.lt_succ_of_lt (length_le_of_dropWhile _h)
  · exact length_skipBlanks_lt
      (Nat.lt_succ_of_le (Nat.le_trans (length_le_of_scan _hs) (length_le_of_dropWhile _h)))
  · exact length_skipBlanks_lt (Nat.lt_trans (length_lt_of_assignment? _he)
      (Nat.lt_succ_of_le (length_le_of_dropWhile _h)))
  · exact length_skipBlanks_lt (length_lt_of_assignment? _h)

/-- The profiles of a file. -/
def readChars? (text : List Char) : Option Profiles :=
  (readFrom? [] true text).map Draft.finish

/-- The profiles of a file. -/
def read? (text : String) : Option Profiles :=
  readChars? text.toList

end Profiles

end RequestAuth
