import RequestAuth.Text.Utf8

/-!
# Reading what was written in UTF-8

`Utf8.decode?` accepts the bytes that `Utf8.encode` writes and no others
(`Utf8.decode?_eq_some_iff`), and `Utf8.lossy` reads them in the same way (`Utf8.lossy_encode`).
Between the two stand the forms of one to four bytes that a character can have (`Utf8.Form`): each
character is written in one of them, and the first two bytes of a form are what the reading checks.

A text can be cut before each byte that does not continue a character
(`Utf8.exists_append_of_not_isTail`).
-/

namespace RequestAuth.Utf8

/-! ## The forms of a character -/

/-- A byte that continues a character. -/
def IsTail (b : UInt8) : Prop :=
  0x80 ≤ b.toNat ∧ b.toNat ≤ 0xBF

/-- What the first two bytes of three stand for: no shorter form has it, and it is no surrogate. -/
def IsThree (n : Nat) : Prop :=
  0x20 ≤ n ∧ ¬ (0x360 ≤ n ∧ n < 0x380)

/-- What the first two bytes of four stand for: no shorter form has it, and there is such a
character. -/
def IsFour (n : Nat) : Prop :=
  0x10 ≤ n ∧ n < 0x110

/-- The bytes of a character. -/
inductive Form : Char → Bytes → Prop
  | one {b : UInt8} (h : b.toNat < 0x80) : Form (Char.ofNat b.toNat) [b]
  | two {b₁ b₂ : UInt8} (h : 0xC2 ≤ b₁.toNat ∧ b₁.toNat ≤ 0xDF) (h₂ : IsTail b₂) :
    Form (Char.ofNat (b₁.toNat % 0x20 * 0x40 + b₂.toNat % 0x40)) [b₁, b₂]
  | three {b₁ b₂ b₃ : UInt8} (h : 0xE0 ≤ b₁.toNat ∧ b₁.toNat ≤ 0xEF) (h₂ : IsTail b₂)
    (h₁₂ : IsThree (b₁.toNat % 0x10 * 0x40 + b₂.toNat % 0x40)) (h₃ : IsTail b₃) :
    Form (Char.ofNat ((b₁.toNat % 0x10 * 0x40 + b₂.toNat % 0x40) * 0x40 + b₃.toNat % 0x40))
      [b₁, b₂, b₃]
  | four {b₁ b₂ b₃ b₄ : UInt8} (h : 0xF0 ≤ b₁.toNat ∧ b₁.toNat ≤ 0xF4) (h₂ : IsTail b₂)
    (h₁₂ : IsFour (b₁.toNat % 8 * 0x40 + b₂.toNat % 0x40)) (h₃ : IsTail b₃) (h₄ : IsTail b₄) :
    Form (Char.ofNat (((b₁.toNat % 8 * 0x40 + b₂.toNat % 0x40) * 0x40 + b₃.toNat % 0x40) * 0x40 +
      b₄.toNat % 0x40)) [b₁, b₂, b₃, b₄]

/-! ## Writing -/

variable {b b₁ : UInt8} {bytes rest : Bytes} {c : Char} {cs : List Char} {n : Nat}

theorem toNat_val_ofNat (h : n.isValidChar) : (Char.ofNat n).val.toNat = n := by
  rw [Char.ofNat, dif_pos h]
  rfl

theorem encodeChar_of_form (h : Form c bytes) : String.utf8EncodeChar c = bytes := by
  cases h with
  | @one b h =>
    have valid : b.toNat.isValidChar := .inl (by omega)
    have small : b.toNat ≤ 127 := by omega
    rw [String.utf8EncodeChar, toNat_val_ofNat valid]
    simp only [if_pos small, UInt8.ofNat_toNat]
  | @two b₁ b₂ h h₂ =>
    obtain ⟨_, _⟩ := h₂
    generalize hv : b₁.toNat % 0x20 * 0x40 + b₂.toNat % 0x40 = v
    have valid : v.isValidChar := .inl (by omega)
    have large : ¬ v ≤ 127 := by omega
    have small : v ≤ 2047 := by omega
    have e₁ : UInt8.ofNat (v / 64 % 32 + 192) = b₁ := Bytes.byte_eq (by omega)
    have e₂ : UInt8.ofNat (v % 64 + 128) = b₂ := Bytes.byte_eq (by omega)
    rw [String.utf8EncodeChar, toNat_val_ofNat valid]
    simp only [if_neg large, if_pos small, e₁, e₂]
  | @three b₁ b₂ b₃ h h₂ h₁₂ h₃ =>
    obtain ⟨_, _⟩ := h₂
    obtain ⟨_, _⟩ := h₁₂
    obtain ⟨_, _⟩ := h₃
    generalize hv : (b₁.toNat % 0x10 * 0x40 + b₂.toNat % 0x40) * 0x40 + b₃.toNat % 0x40 = v
    have valid : v.isValidChar := by
      unfold Nat.isValidChar
      omega
    have large : ¬ v ≤ 127 := by omega
    have larger : ¬ v ≤ 2047 := by omega
    have small : v ≤ 65535 := by omega
    have e₁ : UInt8.ofNat (v / 4096 % 16 + 224) = b₁ := Bytes.byte_eq (by omega)
    have e₂ : UInt8.ofNat (v / 64 % 64 + 128) = b₂ := Bytes.byte_eq (by omega)
    have e₃ : UInt8.ofNat (v % 64 + 128) = b₃ := Bytes.byte_eq (by omega)
    rw [String.utf8EncodeChar, toNat_val_ofNat valid]
    simp only [if_neg large, if_neg larger, if_pos small, e₁, e₂, e₃]
  | @four b₁ b₂ b₃ b₄ h h₂ h₁₂ h₃ h₄ =>
    obtain ⟨_, _⟩ := h₂
    obtain ⟨_, _⟩ := h₁₂
    obtain ⟨_, _⟩ := h₃
    obtain ⟨_, _⟩ := h₄
    generalize hv : ((b₁.toNat % 8 * 0x40 + b₂.toNat % 0x40) * 0x40 + b₃.toNat % 0x40) * 0x40 +
      b₄.toNat % 0x40 = v
    have valid : v.isValidChar := .inr (by omega)
    have large : ¬ v ≤ 127 := by omega
    have larger : ¬ v ≤ 2047 := by omega
    have largest : ¬ v ≤ 65535 := by omega
    have e₁ : UInt8.ofNat (v / 262144 % 8 + 240) = b₁ := Bytes.byte_eq (by omega)
    have e₂ : UInt8.ofNat (v / 4096 % 64 + 128) = b₂ := Bytes.byte_eq (by omega)
    have e₃ : UInt8.ofNat (v / 64 % 64 + 128) = b₃ := Bytes.byte_eq (by omega)
    have e₄ : UInt8.ofNat (v % 64 + 128) = b₄ := Bytes.byte_eq (by omega)
    rw [String.utf8EncodeChar, toNat_val_ofNat valid]
    simp only [if_neg large, if_neg larger, if_neg largest, e₁, e₂, e₃, e₄]

theorem ofNat_eq_of_toNat_eq (h : n = c.toNat) : Char.ofNat n = c := by
  rw [h, Char.ofNat_toNat]

theorem form_encodeChar (c : Char) : Form c (String.utf8EncodeChar c) := by
  have valid : c.toNat < 0xD800 ∨ 0xDFFF < c.toNat ∧ c.toNat < 0x110000 := c.valid
  have byte {n : Nat} (h : n < 256) : (UInt8.ofNat n).toNat = n := UInt8.toNat_ofNat_of_lt' h
  generalize hv : c.toNat = v at valid
  have hc : c.val.toNat = v := hv
  rw [String.utf8EncodeChar, hc]
  by_cases one : v ≤ 127
  · have e₁ := byte (n := v) (by omega)
    have form : Form _ [UInt8.ofNat v] := .one (by omega)
    rw [if_pos one]
    rwa [ofNat_eq_of_toNat_eq (c := c) (by omega)] at form
  by_cases two : v ≤ 2047
  · have e₁ := byte (n := v / 64 % 32 + 192) (by omega)
    have e₂ := byte (n := v % 64 + 128) (by omega)
    have form : Form _ [UInt8.ofNat (v / 64 % 32 + 192), UInt8.ofNat (v % 64 + 128)] :=
      .two (by omega) ⟨by omega, by omega⟩
    rw [if_neg one, if_pos two]
    rwa [ofNat_eq_of_toNat_eq (c := c) (by omega)] at form
  by_cases three : v ≤ 65535
  · have e₁ := byte (n := v / 4096 % 16 + 224) (by omega)
    have e₂ := byte (n := v / 64 % 64 + 128) (by omega)
    have e₃ := byte (n := v % 64 + 128) (by omega)
    have form : Form _ [UInt8.ofNat (v / 4096 % 16 + 224), UInt8.ofNat (v / 64 % 64 + 128),
        UInt8.ofNat (v % 64 + 128)] :=
      .three (by omega) ⟨by omega, by omega⟩ ⟨by omega, by omega⟩ ⟨by omega, by omega⟩
    rw [if_neg one, if_neg two, if_pos three]
    rwa [ofNat_eq_of_toNat_eq (c := c) (by omega)] at form
  · have e₁ := byte (n := v / 262144 % 8 + 240) (by omega)
    have e₂ := byte (n := v / 4096 % 64 + 128) (by omega)
    have e₃ := byte (n := v / 64 % 64 + 128) (by omega)
    have e₄ := byte (n := v % 64 + 128) (by omega)
    have form : Form _ [UInt8.ofNat (v / 262144 % 8 + 240), UInt8.ofNat (v / 4096 % 64 + 128),
        UInt8.ofNat (v / 64 % 64 + 128), UInt8.ofNat (v % 64 + 128)] :=
      .four (by omega) ⟨by omega, by omega⟩ ⟨by omega, by omega⟩ ⟨by omega, by omega⟩
        ⟨by omega, by omega⟩
    rw [if_neg one, if_neg two, if_neg three]
    rwa [ofNat_eq_of_toNat_eq (c := c) (by omega)] at form

/-! ## Reading -/

theorem range_iff {low high : UInt8} (first last : Nat) (hf : low.toNat = first)
    (hl : high.toNat = last) : low ≤ b ∧ b ≤ high ↔ first ≤ b.toNat ∧ b.toNat ≤ last := by
  rw [UInt8.le_iff_toNat_le, UInt8.le_iff_toNat_le, hf, hl]

theorem isTail_iff : 0x80 ≤ b ∧ b ≤ 0xBF ↔ IsTail b :=
  range_iff 0x80 0xBF rfl rfl

theorem ofLead?_two (h : 0xC2 ≤ b.toNat ∧ b.toNat ≤ 0xDF) :
    Pending.ofLead? b = some ⟨0, 0x80, 0xBF, b.toNat % 0x20, 1⟩ := by
  simp only [Pending.ofLead?, if_pos h]

/-- The range of the second byte of three. -/
theorem exists_ofLead?_three (h : 0xE0 ≤ b₁.toNat ∧ b₁.toNat ≤ 0xEF) :
    ∃ low high, Pending.ofLead? b₁ = some ⟨1, low, high, b₁.toNat % 0x10, 1⟩ ∧
      ∀ b₂ : UInt8, low ≤ b₂ ∧ b₂ ≤ high ↔
        IsTail b₂ ∧ IsThree (b₁.toNat % 0x10 * 0x40 + b₂.toNat % 0x40) := by
  have two : ¬ (0xC2 ≤ b₁.toNat ∧ b₁.toNat ≤ 0xDF) := by omega
  unfold Pending.ofLead?
  simp only [if_neg two, IsTail, IsThree]
  by_cases first : b₁.toNat = 0xE0
  · rw [if_pos first]
    refine ⟨0xA0, 0xBF, by rw [first], fun b₂ => (range_iff 0xA0 0xBF rfl rfl).trans ?_⟩
    omega
  by_cases surrogates : b₁.toNat = 0xED
  · rw [if_neg first, if_pos surrogates]
    refine ⟨0x80, 0x9F, by rw [surrogates], fun b₂ => (range_iff 0x80 0x9F rfl rfl).trans ?_⟩
    omega
  · have other : 0xE1 ≤ b₁.toNat ∧ b₁.toNat ≤ 0xEF := by omega
    rw [if_neg first, if_neg surrogates, if_pos other]
    refine ⟨0x80, 0xBF, rfl, fun b₂ => (range_iff 0x80 0xBF rfl rfl).trans ?_⟩
    omega

/-- The range of the second byte of four. -/
theorem exists_ofLead?_four (h : 0xF0 ≤ b₁.toNat ∧ b₁.toNat ≤ 0xF4) :
    ∃ low high, Pending.ofLead? b₁ = some ⟨2, low, high, b₁.toNat % 8, 1⟩ ∧
      ∀ b₂ : UInt8, low ≤ b₂ ∧ b₂ ≤ high ↔
        IsTail b₂ ∧ IsFour (b₁.toNat % 8 * 0x40 + b₂.toNat % 0x40) := by
  have two : ¬ (0xC2 ≤ b₁.toNat ∧ b₁.toNat ≤ 0xDF) := by omega
  have three : ¬ (0xE1 ≤ b₁.toNat ∧ b₁.toNat ≤ 0xEF) := by omega
  have first_three : ¬ b₁.toNat = 0xE0 := by omega
  have surrogates : ¬ b₁.toNat = 0xED := by omega
  unfold Pending.ofLead?
  simp only [if_neg two, if_neg three, if_neg first_three, if_neg surrogates, IsTail, IsFour]
  by_cases first : b₁.toNat = 0xF0
  · rw [if_pos first]
    refine ⟨0x90, 0xBF, by rw [first], fun b₂ => (range_iff 0x90 0xBF rfl rfl).trans ?_⟩
    omega
  by_cases middle : 0xF1 ≤ b₁.toNat ∧ b₁.toNat ≤ 0xF3
  · rw [if_neg first, if_pos middle]
    refine ⟨0x80, 0xBF, rfl, fun b₂ => (range_iff 0x80 0xBF rfl rfl).trans ?_⟩
    omega
  · have last : b₁.toNat = 0xF4 := by omega
    rw [if_neg first, if_neg middle, if_pos last]
    refine ⟨0x80, 0x8F, by rw [last], fun b₂ => (range_iff 0x80 0x8F rfl rfl).trans ?_⟩
    omega

theorem ofLead?_eq_none (h : b.toNat < 0xC2 ∨ 0xF4 < b.toNat) : Pending.ofLead? b = none := by
  have two : ¬ (0xC2 ≤ b.toNat ∧ b.toNat ≤ 0xDF) := by omega
  have three : ¬ (0xE1 ≤ b.toNat ∧ b.toNat ≤ 0xEF) := by omega
  have first_three : ¬ b.toNat = 0xE0 := by omega
  have surrogates : ¬ b.toNat = 0xED := by omega
  have first_four : ¬ b.toNat = 0xF0 := by omega
  have four : ¬ (0xF1 ≤ b.toNat ∧ b.toNat ≤ 0xF3) := by omega
  have last : ¬ b.toNat = 0xF4 := by omega
  simp only [Pending.ofLead?, if_neg two, if_neg three, if_neg first_three, if_neg surrogates,
    if_neg first_four, if_neg four, if_neg last]

/-- The characters of well-formed bytes, given what is pending before them. -/
def decodeFrom? (p : Option Pending) (bytes : Bytes) : Option (List Char) :=
  (piecesFrom p bytes).mapM Piece.char?

theorem mapM_char?_scalar (c : Char) (pieces : List Piece) :
    (Piece.scalar c :: pieces).mapM Piece.char? = (pieces.mapM Piece.char?).map (c :: ·) := by
  rw [List.mapM_cons]
  cases pieces.mapM Piece.char? with
  | none => rfl
  | some cs => rfl

theorem decodeFrom?_small (h : b.toNat < 0x80) :
    decodeFrom? none (b :: rest) = (decodeFrom? none rest).map (Char.ofNat b.toNat :: ·) := by
  have small : b < 0x80 := UInt8.lt_iff_toNat_lt.2 h
  rw [decodeFrom?, piecesFrom, step, start, if_pos small]
  exact mapM_char?_scalar _ _

theorem decodeFrom?_lead (h : ¬ b.toNat < 0x80) :
    decodeFrom? none (b :: rest) = (Pending.ofLead? b).bind fun p => decodeFrom? (some p) rest := by
  have large : ¬ b < 0x80 := fun small => h (UInt8.lt_iff_toNat_lt.1 small)
  rw [decodeFrom?, piecesFrom, step, start, if_neg large]
  cases Pending.ofLead? b with
  | none => rfl
  | some p => rfl

theorem decodeFrom?_last {low high : UInt8} {value taken : Nat} :
    decodeFrom? (some ⟨0, low, high, value, taken⟩) (b :: rest) =
      if low ≤ b ∧ b ≤ high then
        (decodeFrom? none rest).map (Char.ofNat (value * 0x40 + b.toNat % 0x40) :: ·)
      else none := by
  rw [decodeFrom?, piecesFrom, step]
  split
  · exact mapM_char?_scalar _ _
  · rfl

theorem decodeFrom?_more {low high : UInt8} {more value taken : Nat} :
    decodeFrom? (some ⟨more + 1, low, high, value, taken⟩) (b :: rest) =
      if low ≤ b ∧ b ≤ high then
        decodeFrom? (some ⟨more, 0x80, 0xBF, value * 0x40 + b.toNat % 0x40, taken + 1⟩) rest
      else none := by
  rw [decodeFrom?, piecesFrom, step]
  split
  · rfl
  · rfl

theorem decodeFrom?_form (h : Form c bytes) :
    decodeFrom? none (bytes ++ rest) = (decodeFrom? none rest).map (c :: ·) := by
  cases h with
  | one h => exact decodeFrom?_small h
  | two h h₂ =>
    rw [List.cons_append, decodeFrom?_lead (by omega), ofLead?_two h, Option.bind_some,
      List.cons_append, decodeFrom?_last, if_pos (isTail_iff.2 h₂)]
    rfl
  | three h h₂ h₁₂ h₃ =>
    obtain ⟨low, high, lead, second⟩ := exists_ofLead?_three h
    rw [List.cons_append, decodeFrom?_lead (by omega), lead, Option.bind_some,
      List.cons_append, decodeFrom?_more, if_pos ((second _).2 ⟨h₂, h₁₂⟩),
      List.cons_append, decodeFrom?_last, if_pos (isTail_iff.2 h₃)]
    rfl
  | four h h₂ h₁₂ h₃ h₄ =>
    obtain ⟨low, high, lead, second⟩ := exists_ofLead?_four h
    rw [List.cons_append, decodeFrom?_lead (by omega), lead, Option.bind_some,
      List.cons_append, decodeFrom?_more, if_pos ((second _).2 ⟨h₂, h₁₂⟩),
      List.cons_append, decodeFrom?_more, if_pos (isTail_iff.2 h₃),
      List.cons_append, decodeFrom?_last, if_pos (isTail_iff.2 h₄)]
    rfl

theorem decode?_encode (cs : List Char) : decode? (encode cs) = some cs := by
  induction cs with
  | nil => rfl
  | cons c cs ih =>
    have ih : decodeFrom? none (encode cs) = some cs := ih
    have first : decodeFrom? none (encode (c :: cs)) =
        (decodeFrom? none (encode cs)).map (c :: ·) := decodeFrom?_form (form_encodeChar c)
    rwa [ih] at first

/-- Where every piece is a character the lossy reading is the strict one. -/
theorem map_getD_of_mapM {pieces : List Piece} (h : pieces.mapM Piece.char? = some cs) :
    pieces.map (fun piece => piece.char?.getD '\uFFFD') = cs := by
  induction pieces generalizing cs with
  | nil =>
    cases h
    rfl
  | cons piece pieces ih =>
    rw [List.mapM_cons] at h
    obtain ⟨c, hc, h⟩ := Option.bind_eq_some_iff.1 h
    obtain ⟨later, read, h⟩ := Option.bind_eq_some_iff.1 h
    cases h
    rw [List.map_cons, ih read, hc, Option.getD_some]

theorem lossy_encode (cs : List Char) : lossy (encode cs) = cs :=
  map_getD_of_mapM (decode?_encode cs)

theorem lossyText_bytes (text : String) : lossyText (Utf8.bytes text) = text := by
  rw [lossyText, Utf8.bytes, lossy_encode, String.ofList_toList]

/-! ## Nothing else is read -/

theorem exists_of_decodeFrom?_last {low high : UInt8} {value taken : Nat}
    (h : decodeFrom? (some ⟨0, low, high, value, taken⟩) bytes = some cs) :
    ∃ b rest later, bytes = b :: rest ∧ (low ≤ b ∧ b ≤ high) ∧
      cs = Char.ofNat (value * 0x40 + b.toNat % 0x40) :: later ∧
      decodeFrom? none rest = some later := by
  cases bytes with
  | nil => cases h
  | cons b rest =>
    rw [decodeFrom?_last] at h
    split at h
    · rename_i range
      obtain ⟨later, read, rfl⟩ := Option.map_eq_some_iff.1 h
      exact ⟨b, rest, later, rfl, range, rfl, read⟩
    · cases h

theorem exists_of_decodeFrom?_more {low high : UInt8} {more value taken : Nat}
    (h : decodeFrom? (some ⟨more + 1, low, high, value, taken⟩) bytes = some cs) :
    ∃ b rest, bytes = b :: rest ∧ (low ≤ b ∧ b ≤ high) ∧
      decodeFrom? (some ⟨more, 0x80, 0xBF, value * 0x40 + b.toNat % 0x40, taken + 1⟩) rest =
        some cs := by
  cases bytes with
  | nil => cases h
  | cons b rest =>
    rw [decodeFrom?_more] at h
    split at h
    · rename_i range
      exact ⟨b, rest, rfl, range, h⟩
    · cases h

/-- Well-formed bytes begin with a form of their first character. -/
theorem exists_form_of_decodeFrom? (h : decodeFrom? none (b :: bytes) = some cs) :
    ∃ c form rest later, Form c form ∧ b :: bytes = form ++ rest ∧ cs = c :: later ∧
      decodeFrom? none rest = some later := by
  by_cases one : b.toNat < 0x80
  · rw [decodeFrom?_small one] at h
    obtain ⟨later, read, rfl⟩ := Option.map_eq_some_iff.1 h
    exact ⟨_, [b], bytes, later, .one one, rfl, rfl, read⟩
  rw [decodeFrom?_lead one] at h
  by_cases two : 0xC2 ≤ b.toNat ∧ b.toNat ≤ 0xDF
  · rw [ofLead?_two two, Option.bind_some] at h
    obtain ⟨b₂, rest, later, rfl, h₂, rfl, read⟩ := exists_of_decodeFrom?_last h
    exact ⟨_, [b, b₂], rest, later, .two two (isTail_iff.1 h₂), rfl, rfl, read⟩
  by_cases three : 0xE0 ≤ b.toNat ∧ b.toNat ≤ 0xEF
  · obtain ⟨low, high, lead, second⟩ := exists_ofLead?_three three
    rw [lead, Option.bind_some] at h
    obtain ⟨b₂, rest, rfl, range, h⟩ := exists_of_decodeFrom?_more h
    obtain ⟨b₃, rest, later, rfl, h₃, rfl, read⟩ := exists_of_decodeFrom?_last h
    obtain ⟨h₂, h₁₂⟩ := (second b₂).1 range
    exact ⟨_, [b, b₂, b₃], rest, later, .three three h₂ h₁₂ (isTail_iff.1 h₃), rfl, rfl, read⟩
  by_cases four : 0xF0 ≤ b.toNat ∧ b.toNat ≤ 0xF4
  · obtain ⟨low, high, lead, second⟩ := exists_ofLead?_four four
    rw [lead, Option.bind_some] at h
    obtain ⟨b₂, rest, rfl, range, h⟩ := exists_of_decodeFrom?_more h
    obtain ⟨b₃, rest, rfl, h₃, h⟩ := exists_of_decodeFrom?_more h
    obtain ⟨b₄, rest, later, rfl, h₄, rfl, read⟩ := exists_of_decodeFrom?_last h
    obtain ⟨h₂, h₁₂⟩ := (second b₂).1 range
    exact ⟨_, [b, b₂, b₃, b₄], rest, later,
      .four four h₂ h₁₂ (isTail_iff.1 h₃) (isTail_iff.1 h₄), rfl, rfl, read⟩
  · rw [ofLead?_eq_none (by omega)] at h
    cases h

theorem encode_of_decode? (h : decode? bytes = some cs) : encode cs = bytes := by
  change decodeFrom? none bytes = some cs at h
  induction cs generalizing bytes with
  | nil =>
    cases bytes with
    | nil => rfl
    | cons b bytes =>
      obtain ⟨c, form, rest, later, -, -, he, -⟩ := exists_form_of_decodeFrom? h
      cases he
  | cons c cs ih =>
    cases bytes with
    | nil => cases h
    | cons b bytes =>
      obtain ⟨c, form, rest, later, first, split, he, read⟩ := exists_form_of_decodeFrom? h
      obtain ⟨rfl, rfl⟩ := List.cons.inj he
      rw [split, ← encodeChar_of_form first, ← ih read]
      rfl

theorem decode?_eq_some_iff : decode? bytes = some cs ↔ encode cs = bytes :=
  ⟨encode_of_decode?, fun h => h ▸ decode?_encode cs⟩

theorem bytes_injective : Function.Injective Utf8.bytes := by
  intro a b h
  rw [← lossyText_bytes a, h, lossyText_bytes]

/-! ## Between two characters -/

@[simp] theorem encode_cons (c : Char) (cs : List Char) :
    encode (c :: cs) = String.utf8EncodeChar c ++ encode cs := rfl

@[simp] theorem encode_append (cs ds : List Char) : encode (cs ++ ds) = encode cs ++ encode ds :=
  List.flatMap_append

@[simp] theorem bytes_append (s t : String) :
    Utf8.bytes (s ++ t) = Utf8.bytes s ++ Utf8.bytes t := by
  simp [Utf8.bytes]

theorem length_bytes (text : String) : (Utf8.bytes text).length = text.utf8ByteSize := by
  rw [← String.size_toByteArray, ← @String.ofList_toList text, String.toByteArray_ofList,
    List.utf8Encode]
  simp [Utf8.bytes, encode]

/-- All bytes of a character but the first one continue it. -/
theorem Form.isTail (h : Form c bytes) (hn : n ≠ 0) (hb : bytes[n]? = some b) : IsTail b := by
  obtain ⟨n, rfl⟩ := Nat.exists_eq_succ_of_ne_zero hn
  have hm : b ∈ bytes.tail := List.mem_of_getElem? (List.getElem?_tail.trans hb)
  cases h with
  | one => cases hm
  | two _ h₂ =>
    obtain rfl := List.mem_singleton.1 hm
    exact h₂
  | three _ h₂ _ h₃ =>
    simp only [List.tail_cons, List.mem_cons, List.not_mem_nil, or_false] at hm
    obtain rfl | rfl := hm
    · exact h₂
    · exact h₃
  | four _ h₂ _ h₃ h₄ =>
    simp only [List.tail_cons, List.mem_cons, List.not_mem_nil, or_false] at hm
    obtain rfl | rfl | rfl := hm
    · exact h₂
    · exact h₃
    · exact h₄

/-- A character that begins with a byte of ASCII has no other byte. -/
theorem Form.length_of_small (h : Form c bytes) (hb : bytes[0]? = some b) (small : b.toNat < 0x80) :
    bytes.length = 1 := by
  cases h with
  | one => rfl
  | two h | three h | four h =>
    obtain rfl := Option.some.inj hb
    omega

theorem exists_append_of_not_isTail (hb : (encode cs)[n]? = some b) (head : ¬ IsTail b) :
    ∃ before after, cs = before ++ after ∧ (encode before).length = n := by
  induction cs generalizing n with
  | nil => cases hb
  | cons c cs ih =>
    by_cases first : n = 0
    · exact ⟨[], c :: cs, rfl, first.symm⟩
    · rw [encode_cons] at hb
      by_cases within : n < (String.utf8EncodeChar c).length
      · rw [List.getElem?_append_left within] at hb
        exact absurd ((form_encodeChar c).isTail first hb) head
      · rw [List.getElem?_append_right (Nat.not_lt.1 within)] at hb
        obtain ⟨before, after, rfl, length⟩ := ih hb
        refine ⟨c :: before, after, rfl, ?_⟩
        rw [encode_cons, List.length_append, length]
        omega

/-- A text can also be cut behind a byte of ASCII. -/
theorem exists_append_succ (hb : (encode cs)[n]? = some b) (small : b.toNat < 0x80) :
    ∃ before after, cs = before ++ after ∧ (encode before).length = n + 1 := by
  have head : ¬ IsTail b := fun tail => absurd tail.1 (Nat.not_le.2 small)
  obtain ⟨before, after, rfl, rfl⟩ := exists_append_of_not_isTail hb head
  rw [encode_append, List.getElem?_append_right (Nat.le_refl _), Nat.sub_self] at hb
  cases after with
  | nil => cases hb
  | cons c after =>
    have form := form_encodeChar c
    have full : 0 < (String.utf8EncodeChar c).length := by
      rw [String.length_utf8EncodeChar]
      exact c.utf8Size_pos
    rw [encode_cons, List.getElem?_append_left full] at hb
    refine ⟨before ++ [c], after, by simp, ?_⟩
    rw [encode_append, encode_cons, List.length_append, List.length_append,
      form.length_of_small hb small]
    rfl

end RequestAuth.Utf8
