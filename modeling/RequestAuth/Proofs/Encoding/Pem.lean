import RequestAuth.Encoding.Pem
import RequestAuth.Proofs.Encoding.Base64
import RequestAuth.Proofs.Text.Blank
import RequestAuth.Proofs.Text.Part

/-!
# What labelled text documents look like

A document holds the digits of its bytes on lines of 64, between a line that begins it and one that
ends it (`Pem.IsDocument`). Any of three line ends may stand after each line. A text that is such a
document with any blanks around it (`Pem.Writes`) is read as its bytes once the blanks are off
(`Pem.read?_of_writes`), and what `Pem.write` gives is one of those texts (`Pem.writes_write`).
-/

namespace RequestAuth.Pem

/-! ## Lines -/

/-- What may end a line. -/
inductive LineEnd where
  /-- A line feed. -/
  | feed
  /-- A carriage return. -/
  | carriage
  /-- A carriage return and a line feed. -/
  | both

/-- The characters of a line end. -/
def LineEnd.chars : LineEnd → List Char
  | feed => ['\n']
  | carriage => ['\r']
  | both => ['\r', '\n']

/-- The text is the digits on lines. All lines but the last are full, and the last has no end. -/
inductive Lines : List Char → List Char → Prop
  | last {line : List Char} (hne : line ≠ []) (hl : line.length ≤ lineWidth) : Lines line line
  | more {line digits text : List Char} (hl : line.length = lineWidth) (e : LineEnd)
    (rest : Lines digits text) : Lines (line ++ digits) (line ++ e.chars ++ text)

/-- The characters that occur in no line end. -/
def IsInLine (c : Char) : Prop :=
  c ≠ '\n' ∧ c ≠ '\r'

variable {bytes : Bytes} {c : Char} {digits document line rest text : List Char} {e : LineEnd}
  {label : String}

theorem LineEnd.eq_of_mem (h : c ∈ e.chars) : c = '\n' ∨ c = '\r' := by
  cases e with
  | feed => exact .inl (List.mem_singleton.1 h)
  | carriage => exact .inr (List.mem_singleton.1 h)
  | both => simpa [LineEnd.chars, or_comm] using h

theorem Lines.mem (h : Lines digits text) (hc : c ∈ text) : c ∈ digits ∨ c = '\n' ∨ c = '\r' := by
  induction h with
  | last => exact .inl hc
  | more hl e rest ih =>
    simp only [List.mem_append] at hc ⊢
    obtain (hc | hc) | hc := hc
    · exact .inl (.inl hc)
    · exact .inr (LineEnd.eq_of_mem hc)
    · exact (ih hc).imp_left .inr

theorem Lines.exists_head (h : Lines digits text) : ∃ c more, text = c :: more ∧ c ∈ digits := by
  have begins {line : List Char} (hne : line ≠ []) (more digits : List Char) :
      ∃ c later, line ++ more = c :: later ∧ c ∈ line ++ digits := by
    obtain ⟨c, line, rfl⟩ := List.exists_cons_of_ne_nil hne
    exact ⟨c, line ++ more, rfl, List.mem_append_left _ List.mem_cons_self⟩
  cases h with
  | last hne =>
    have := begins hne [] []
    rwa [List.append_nil] at this
  | more hl e rest =>
    rw [List.append_assoc]
    exact begins (List.ne_nil_of_length_eq_add_one hl) _ _

theorem Lines.exists_last (h : Lines digits text) : ∃ more c, text = more ++ [c] ∧ c ∈ digits := by
  induction h with
  | last hne =>
    exact ⟨_, _, (List.dropLast_append_getLast hne).symm, List.getLast_mem hne⟩
  | more hl e rest ih =>
    obtain ⟨more, c, rfl, hc⟩ := ih
    exact ⟨_, c, (List.append_assoc _ _ _).symm, List.mem_append_right _ hc⟩

/-! ## Line ends -/

theorem afterLineEnd?_append (h : c ≠ '\n') (rest : List Char) :
    afterLineEnd? (e.chars ++ c :: rest) = some (c :: rest) := by
  cases e with
  | feed => rfl
  | carriage => simp [LineEnd.chars, afterLineEnd?, h]
  | both => rfl

theorem beforeLineEnd?_append (h : c ≠ '\r') (text : List Char) :
    beforeLineEnd? (text ++ [c] ++ e.chars) = some (text ++ [c]) := by
  cases e with
  | feed => simp [LineEnd.chars, beforeLineEnd?, h]
  | carriage => simp [LineEnd.chars, beforeLineEnd?]
  | both => simp [LineEnd.chars, beforeLineEnd?]

theorem beforeLineEnd?_eq_none (h : IsInLine c) (text : List Char) :
    beforeLineEnd? (text ++ [c]) = none := by
  simp [beforeLineEnd?, h.1, h.2]

/-! ## Lines that are read back -/

theorem unwrapFrom?_append (line rest : List Char) (left : Nat) :
    unwrapFrom? (line.length + left) (line ++ rest) =
      (unwrapFrom? left rest).map (line ++ ·) := by
  induction line with
  | nil => simp
  | cons c line ih =>
    rw [List.length_cons, Nat.add_right_comm, List.cons_append, unwrapFrom?, ih, Option.map_map]
    rfl

theorem unwrapFrom?_lineEnd (h : c ≠ '\n') (rest : List Char) :
    unwrapFrom? 0 (e.chars ++ c :: rest) = unwrapFrom? lineWidth (c :: rest) := by
  cases e with
  | feed => rfl
  | carriage => simp [LineEnd.chars, unwrapFrom?, h]
  | both => rfl

/-- Lines are read back as the digits on them. -/
theorem unwrap?_of_lines (h : Lines digits text) (hd : '\n' ∉ digits) :
    unwrap? text = some digits := by
  induction h with
  | @last line hne hl =>
    obtain ⟨left, hleft⟩ := Nat.exists_eq_add_of_le hl
    have all := unwrapFrom?_append line [] left
    rw [List.append_nil] at all
    cases left with
    | zero => simpa [unwrap?, hleft, unwrapFrom?] using all
    | succ left => simpa [unwrap?, hleft, unwrapFrom?] using all
  | @more line digits text hl e rest ih =>
    obtain ⟨c, more, rfl, hc⟩ := rest.exists_head
    have hne : c ≠ '\n' := fun he => hd (List.mem_append_right _ (he ▸ hc))
    have first := unwrapFrom?_append line (e.chars ++ c :: more) 0
    have later : unwrapFrom? lineWidth (c :: more) = some digits :=
      ih fun hm => hd (List.mem_append_right _ hm)
    rw [unwrapFrom?_lineEnd hne, later, Nat.add_zero, hl, ← List.append_assoc] at first
    exact first

theorem digits?_of_lines (h : Lines digits text) (hd : ∀ c ∈ digits, IsInLine c) :
    digits? text = some digits := by
  have read := unwrap?_of_lines h fun hm => (hd _ hm).1 rfl
  obtain ⟨more, c, rfl, hc⟩ := h.exists_last
  simp [digits?, beforeLineEnd?_eq_none (hd c hc), read, guard]

/-! ## Documents -/

/-- The line that begins a document with the given label. -/
def firstLine (label : String) : List Char := opening ++ label.toList ++ dashes

/-- The line that ends a document with the given label. -/
def lastLine (label : String) : List Char := closing ++ label.toList ++ dashes

/-- The text is a document with the given label and bytes, up to the end of its last line. -/
inductive IsDocument (label : String) (bytes : Bytes) : List Char → Prop
  | mk {lines : List Char} (first last : LineEnd) (h : Lines (Base64.encodeChars bytes) lines) :
    IsDocument label bytes
      (firstLine label ++ (first.chars ++ lines ++ last.chars) ++ lastLine label)

/-- The text is a document with the given label and bytes, with any blanks around it. -/
def Writes (label : String) (bytes : Bytes) (text : List Char) : Prop :=
  ∃ before document after, text = before ++ document ++ after ∧ IsDocument label bytes document ∧
    (∀ c ∈ before, Text.isBlank c) ∧ ∀ c ∈ after, Text.isBlank c

theorem not_mem_encodeChars (hc : Base64.standard.value? c = none) (hp : c ≠ '=') :
    c ∉ Base64.encodeChars bytes := by
  have absent : c ∉ (Base64.encode bytes).toList := Base64.not_mem_encode hc hp
  rwa [Base64.encode, String.toList_ofList] at absent

theorem isInLine_of_mem (h : c ∈ Base64.encodeChars bytes) : IsInLine c :=
  ⟨fun he => not_mem_encodeChars (by rw [he]; decide) (by rw [he]; decide) h,
    fun he => not_mem_encodeChars (by rw [he]; decide) (by rw [he]; decide) h⟩

theorem afterOpening?_append (rest : List Char) : afterOpening? (opening ++ rest) = some rest := by
  rw [afterOpening?, Text.after?_append, Option.some_or]

theorem append_dashes (rest : List Char) : rest ++ dashes = rest ++ "----".toList ++ ['-'] := by
  rw [List.append_assoc]
  rfl

theorem beforeLineEnd?_lastLine (rest : List Char) (label : String) :
    beforeLineEnd? (rest ++ lastLine label) = none := by
  rw [lastLine, ← List.append_assoc, append_dashes]
  exact beforeLineEnd?_eq_none ⟨by decide, by decide⟩ _

theorem body?_of_lines (first last : LineEnd) (h : Lines digits text)
    (hd : ∀ c ∈ digits, IsInLine c) (label : String) :
    body? label.toList (firstLine label ++ (first.chars ++ text ++ last.chars) ++ lastLine label) =
      some text := by
  have entered : afterLineEnd? (first.chars ++ (text ++ last.chars ++ lastLine label)) =
      some (text ++ last.chars ++ lastLine label) := by
    obtain ⟨c, more, rfl, hc⟩ := h.exists_head
    exact afterLineEnd?_append (hd c hc).1 _
  have left : beforeLineEnd? (text ++ last.chars) = some text := by
    obtain ⟨more, c, rfl, hc⟩ := h.exists_last
    exact beforeLineEnd?_append (hd c hc).2 _
  have whole : firstLine label ++ (first.chars ++ text ++ last.chars) ++ lastLine label =
      opening ++ (label.toList ++ dashes ++
        (first.chars ++ (text ++ last.chars ++ lastLine label))) := by
    simp only [firstLine, List.append_assoc]
  have cut : Text.before? (closing ++ label.toList ++ dashes)
      (text ++ last.chars ++ lastLine label) = some (text ++ last.chars) := Text.before?_append _ _
  rw [whole, body?, afterOpening?_append]
  simp only [Option.bind_eq_bind, Option.bind_some, Text.after?_append, entered,
    beforeLineEnd?_lastLine, Option.getD_none, cut, left]

/-- A document is read as its bytes. -/
theorem read?_of_isDocument (h : IsDocument label bytes document) :
    read? label document = some bytes := by
  obtain ⟨first, last, lines⟩ := h
  have inLine : ∀ c ∈ Base64.encodeChars bytes, IsInLine c := fun _ => isInLine_of_mem
  rw [read?, body?_of_lines first last lines inLine, Option.bind_eq_bind, Option.bind_some,
    digits?_of_lines lines inLine, Option.bind_some, Base64.decodeChars?_encodeChars]

theorem IsDocument.eq_cons (h : IsDocument label bytes document) :
    ∃ more, document = '-' :: more := by
  obtain ⟨first, last, lines⟩ := h
  exact ⟨_, rfl⟩

theorem IsDocument.eq_append (h : IsDocument label bytes document) :
    ∃ more, document = more ++ ['-'] := by
  obtain ⟨first, last, lines⟩ := h
  rw [lastLine, ← List.append_assoc, append_dashes]
  exact ⟨_, rfl⟩

/-- Between the first and the last line of a document are digits, padding and line ends only. -/
theorem IsDocument.exists_body (h : IsDocument label bytes document) :
    ∃ body, document = firstLine label ++ body ++ lastLine label ∧ ∀ c,
      Base64.standard.value? c = none → c ∉ ['=', '\n', '\r'] → c ∉ body := by
  obtain ⟨first, last, lines⟩ := h
  refine ⟨_, rfl, fun c hc other hm => ?_⟩
  simp only [List.mem_cons, List.not_mem_nil, or_false, not_or] at other
  obtain ⟨padding, feed, carriage⟩ := other
  have no_end {e : LineEnd} (he : c ∈ e.chars) : False :=
    (LineEnd.eq_of_mem he).elim feed carriage
  simp only [List.mem_append] at hm
  obtain (hm | hm) | hm := hm
  · exact no_end hm
  · obtain digit | eol := lines.mem hm
    · exact not_mem_encodeChars hc padding digit
    · exact eol.elim feed carriage
  · exact no_end hm

/-- Trimming a text that holds a document gives that document. -/
theorem isDocument_trim (h : Writes label bytes text) :
    IsDocument label bytes (Text.trim text) := by
  obtain ⟨before, document, after, rfl, isDocument, hb, ha⟩ := h
  have first : ∀ c ∈ document.head?, ¬ Text.isBlank c := by
    obtain ⟨more, rfl⟩ := isDocument.eq_cons
    simp [show Text.isBlank '-' = false by decide]
  have last : ∀ c ∈ document.getLast?, ¬ Text.isBlank c := by
    obtain ⟨more, rfl⟩ := isDocument.eq_append
    simp [show Text.isBlank '-' = false by decide]
  rwa [Text.trim_append hb ha first last]

/-! ## Documents that are written -/

theorem wrapFrom_append (line rest : List Char) (left : Nat) :
    wrapFrom (line.length + left) (line ++ rest) = line ++ wrapFrom left rest := by
  induction line with
  | nil => simp
  | cons c line ih => rw [List.length_cons, Nat.add_right_comm, List.cons_append, wrapFrom, ih]; rfl

theorem wrapFrom_zero (h : rest ≠ []) : wrapFrom 0 rest = '\n' :: wrap rest := by
  obtain ⟨c, rest, rfl⟩ := List.exists_cons_of_ne_nil h
  rfl

theorem lines_wrap (h : digits ≠ []) : Lines digits (wrap digits) := by
  induction hn : digits.length using Nat.strongRecOn generalizing digits with
  | _ n ih =>
  by_cases short : digits.length ≤ lineWidth
  · obtain ⟨left, hleft⟩ := Nat.exists_eq_add_of_le short
    have same : wrap digits = digits := by
      have all := wrapFrom_append digits [] left
      rwa [List.append_nil, ← hleft, show wrapFrom left [] = [] by cases left <;> rfl,
        List.append_nil] at all
    rw [same]
    exact .last h short
  · have full : (digits.take lineWidth).length = lineWidth := by
      rw [List.length_take]
      omega
    have later : digits.drop lineWidth ≠ [] := by
      rw [Ne, List.drop_eq_nil_iff]
      exact short
    have fewer : (digits.drop lineWidth).length < n := by
      rw [List.length_drop, ← hn]
      exact Nat.sub_lt (by omega) (by decide)
    have split : wrap digits = digits.take lineWidth ++ LineEnd.feed.chars ++
        wrap (digits.drop lineWidth) := by
      have all := wrapFrom_append (digits.take lineWidth) (digits.drop lineWidth) 0
      rw [full, Nat.add_zero, List.take_append_drop, wrapFrom_zero later] at all
      rw [wrap, all, List.append_assoc]
      rfl
    have lines := Lines.more full .feed (ih _ fewer later rfl)
    rwa [List.take_append_drop, ← split] at lines

theorem writes_write (label : String) (h : bytes ≠ []) :
    Writes label bytes (write label bytes) := by
  have digits : Base64.encodeChars bytes ≠ [] := by
    intro none
    have back := Base64.decodeChars?_encodeChars bytes
    rw [none] at back
    exact h (Option.some.inj back).symm
  refine ⟨[], _, ['\n'], ?_, .mk .feed .feed (lines_wrap digits), ?_, ?_⟩
  · simp [write, firstLine, lastLine, LineEnd.chars]
  · simp
  · simp [Text.isBlank]

end RequestAuth.Pem
