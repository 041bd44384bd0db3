import Mathlib.Data.List.Basic
import RequestAuth.Proofs.Text.Utf8
import RequestAuth.Text.Redacted

/-!
# What is seen of a secret

A secret of twelve bytes or more with characters that end after its first three bytes and begin
before its last three is shown by these ends (`Text.Ends`), any other by asterisks, and the empty one
by a word of its own (`Text.isShown_redacted`). So two secrets look the same if both are empty, or
both are shorter, or both are long and have the same ASCII characters at their ends
(`Text.redacted_of_looksLike`).
-/

namespace RequestAuth.Text

variable {secret other first last : String} {cs before after : List Char} {n : Nat}

/-! ## Cuts -/

theorem splitAtByte?_zero (cs : List Char) : splitAtByte? 0 cs = some ([], cs) := by
  cases cs <;> rfl

theorem splitAtByte?_cons (c : Char) (cs : List Char) (n : Nat) :
    splitAtByte? (c.utf8Size + n) (c :: cs) =
      (splitAtByte? n cs).map fun (before, after) => (c :: before, after) := by
  obtain ⟨k, hk⟩ := Nat.exists_eq_succ_of_ne_zero (Nat.pos_iff_ne_zero.1 c.utf8Size_pos)
  have size : c.utf8Size + n = k + n + 1 := by omega
  have fits : c.utf8Size ≤ k + n + 1 := by omega
  have left : k + n + 1 - c.utf8Size = n := by omega
  rw [size, splitAtByte?, if_pos fits, left]

theorem splitAtByte?_append (before after : List Char) :
    splitAtByte? (Utf8.encode before).length (before ++ after) = some (before, after) := by
  induction before with
  | nil => exact splitAtByte?_zero after
  | cons c before ih =>
    rw [Utf8.encode_cons, List.length_append, String.length_utf8EncodeChar, List.cons_append,
      splitAtByte?_cons, ih, Option.map_some]

theorem of_splitAtByte? (h : splitAtByte? n cs = some (before, after)) :
    cs = before ++ after ∧ (Utf8.encode before).length = n := by
  fun_induction splitAtByte? n cs generalizing before after with
  | case1 cs =>
    cases h
    exact ⟨rfl, rfl⟩
  | case2 => cases h
  | case3 n c cs fits ih =>
    obtain ⟨⟨start, rest⟩, found, he⟩ := Option.map_eq_some_iff.1 h
    cases he
    obtain ⟨rfl, length⟩ := ih found
    refine ⟨rfl, ?_⟩
    rw [Utf8.encode_cons, List.length_append, length, String.length_utf8EncodeChar]
    omega
  | case4 => cases h

/-! ## How a secret is shown -/

/-- The first and the last three bytes of a secret of at least twelve, between which it is cut into
whole characters. -/
structure Ends (secret first last : String) : Prop where
  long : 12 ≤ (Utf8.bytes secret).length
  split : ∃ middle, secret = first ++ middle ++ last
  first : (Utf8.bytes first).length = 3
  last : (Utf8.bytes last).length = 3

theorem Ends.bytes_first (h : Ends secret first last) :
    Utf8.bytes first = (Utf8.bytes secret).take 3 := by
  obtain ⟨middle, rfl⟩ := h.split
  rw [Utf8.bytes_append, Utf8.bytes_append, List.append_assoc, ← h.first, List.take_left]

theorem Ends.length_start {middle : String} (h : Ends secret first last)
    (split : secret = first ++ middle ++ last) :
    (Utf8.bytes (first ++ middle)).length = (Utf8.bytes secret).length - 3 := by
  rw [split, Utf8.bytes_append (first ++ middle), List.length_append, h.last, Nat.add_sub_cancel]

theorem Ends.bytes_last (h : Ends secret first last) :
    Utf8.bytes last = (Utf8.bytes secret).drop ((Utf8.bytes secret).length - 3) := by
  obtain ⟨middle, split⟩ := h.split
  rw [← h.length_start split, split, Utf8.bytes_append (first ++ middle), List.drop_left]

/-- A secret with ends is cut behind the first and before the last of them. -/
theorem Ends.splitAtByte? (h : Ends secret first last) :
    (∃ rest, splitAtByte? 3 secret.toList = some (first.toList, rest)) ∧
      ∃ start, splitAtByte? ((Utf8.bytes secret).length - 3) secret.toList =
        some (start, last.toList) := by
  obtain ⟨middle, split⟩ := h.split
  constructor
  · have cut := splitAtByte?_append first.toList (middle ++ last).toList
    rw [← Utf8.bytes, h.first, ← String.toList_append, ← String.append_assoc, ← split] at cut
    exact ⟨_, cut⟩
  · have cut := splitAtByte?_append (first ++ middle).toList last.toList
    rw [← Utf8.bytes, h.length_start split, ← String.toList_append, ← split] at cut
    exact ⟨_, cut⟩

/-- A long secret that can be cut behind its first three bytes and before its last three has ends. -/
theorem exists_ends {rest start : List Char} (long : 12 ≤ (Utf8.bytes secret).length)
    (hf : secret.toList = before ++ rest) (before_length : (Utf8.encode before).length = 3)
    (hl : secret.toList = start ++ after)
    (start_length : (Utf8.encode start).length = (Utf8.bytes secret).length - 3) :
    Ends secret (String.ofList before) (String.ofList after) := by
  have total : (Utf8.encode start).length + (Utf8.encode after).length =
      (Utf8.bytes secret).length := by
    rw [← List.length_append, ← Utf8.encode_append, ← hl, Utf8.bytes]
  obtain ⟨middle, rfl, -⟩ | ⟨overlap, rfl, -⟩ := List.append_eq_append_iff.1 (hf.symm.trans hl)
  · refine ⟨long, ⟨String.ofList middle, ?_⟩, ?_, ?_⟩
    · rw [← @String.ofList_toList secret, hl, String.ofList_append, String.ofList_append]
    · rwa [Utf8.bytes, String.toList_ofList]
    · rw [Utf8.bytes, String.toList_ofList]
      omega
  · -- the last three bytes would begin within the first three
    rw [Utf8.encode_append, List.length_append] at before_length
    omega

/-- How a secret is shown. -/
inductive IsShown (secret : String) : String → Prop
  | empty (h : secret = "") : IsShown secret "EMPTY"
  | hidden (full : secret ≠ "") (h : ∀ first last, ¬ Ends secret first last) : IsShown secret "***"
  | ends {first last : String} (h : Ends secret first last) :
    IsShown secret (first ++ "***" ++ last)

theorem redacted_empty : redacted "" = "EMPTY" := rfl

theorem redacted_short (full : secret ≠ "") (short : (Utf8.bytes secret).length < 12) :
    redacted secret = "***" := by
  rw [Utf8.length_bytes] at short
  have size : secret.utf8ByteSize ≠ 0 := fun h => full (String.utf8ByteSize_eq_zero_iff.1 h)
  rw [redacted]
  simp only [if_neg size, if_pos short]

theorem redacted_long (long : 12 ≤ (Utf8.bytes secret).length) :
    redacted secret = match splitAtByte? 3 secret.toList,
        splitAtByte? ((Utf8.bytes secret).length - 3) secret.toList with
      | some (before, _), some (_, after) => String.ofList before ++ "***" ++ String.ofList after
      | _, _ => "***" := by
  rw [Utf8.length_bytes] at long ⊢
  have size : secret.utf8ByteSize ≠ 0 := by omega
  have short : ¬ secret.utf8ByteSize < 12 := by omega
  exact (if_neg size).trans (if_neg short)

theorem redacted_of_ends (h : Ends secret first last) :
    redacted secret = first ++ "***" ++ last := by
  obtain ⟨⟨rest, hf⟩, start, hl⟩ := h.splitAtByte?
  rw [redacted_long h.long, hf, hl]
  simp only [String.ofList_toList]

theorem isShown_redacted (secret : String) : IsShown secret (redacted secret) := by
  by_cases empty : secret = ""
  · rw [empty, redacted_empty]
    exact .empty rfl
  by_cases short : (Utf8.bytes secret).length < 12
  · rw [redacted_short empty short]
    exact .hidden empty fun first last h => Nat.not_le.2 short h.long
  have long := Nat.not_lt.1 short
  cases hf : splitAtByte? 3 secret.toList with
  | none =>
    rw [redacted_long long, hf]
    refine .hidden empty fun first last h => ?_
    obtain ⟨⟨rest, cut⟩, -⟩ := h.splitAtByte?
    cases hf.symm.trans cut
  | some front =>
  cases hl : splitAtByte? ((Utf8.bytes secret).length - 3) secret.toList with
  | none =>
    rw [redacted_long long, hf, hl]
    refine .hidden empty fun first last h => ?_
    obtain ⟨-, start, cut⟩ := h.splitAtByte?
    cases hl.symm.trans cut
  | some back =>
    obtain ⟨before, length⟩ := of_splitAtByte? hf
    obtain ⟨after, length'⟩ := of_splitAtByte? hl
    rw [redacted_long long, hf, hl]
    exact .ends (exists_ends long before length after length')

/-! ## Secrets that look the same -/

/-- Nothing distinguishes the secrets but what is between their ends: both are empty, both are
shorter than twelve bytes, or both are longer and have the same ASCII characters at their ends. -/
inductive LooksLike : String → String → Prop
  | empty : LooksLike "" ""
  | short {secret other : String} (full : secret ≠ "") (full' : other ≠ "")
    (h : (Utf8.bytes secret).length < 12) (h' : (Utf8.bytes other).length < 12) :
    LooksLike secret other
  | long {secret other : String} (h : 12 ≤ (Utf8.bytes secret).length)
    (h' : 12 ≤ (Utf8.bytes other).length)
    (first : (Utf8.bytes secret).take 3 = (Utf8.bytes other).take 3)
    (last : (Utf8.bytes secret).drop ((Utf8.bytes secret).length - 3) =
      (Utf8.bytes other).drop ((Utf8.bytes other).length - 3))
    (ascii : ∀ b ∈ (Utf8.bytes secret).take 3 ++
      (Utf8.bytes secret).drop ((Utf8.bytes secret).length - 3), b.toNat < 0x80) :
    LooksLike secret other

/-- A long secret with ASCII at both ends shows them. -/
theorem exists_ends_of_ascii (long : 12 ≤ (Utf8.bytes secret).length)
    (ascii : ∀ b ∈ (Utf8.bytes secret).take 3 ++
      (Utf8.bytes secret).drop ((Utf8.bytes secret).length - 3), b.toNat < 0x80) :
    ∃ first last, Ends secret first last := by
  have here : 2 < (Utf8.bytes secret).length := by omega
  have there : (Utf8.bytes secret).length - 3 < (Utf8.bytes secret).length := by omega
  have third := List.getElem?_eq_getElem here
  have late := List.getElem?_eq_getElem there
  have third_small : (Utf8.bytes secret)[2].toNat < 0x80 :=
    ascii _ (List.mem_append_left _ (List.mem_take_iff_getElem.2 ⟨2, by omega, rfl⟩))
  have late_small : (Utf8.bytes secret)[(Utf8.bytes secret).length - 3].toNat < 0x80 :=
    ascii _ (List.mem_append_right _ (List.mem_drop_iff_getElem.2 ⟨0, by omega, rfl⟩))
  obtain ⟨before, rest, split, length⟩ := Utf8.exists_append_succ third third_small
  obtain ⟨start, after, split', length'⟩ := Utf8.exists_append_of_not_isTail late
    fun tail => absurd tail.1 (Nat.not_le.2 late_small)
  exact ⟨_, _, exists_ends long split length split' length'⟩

theorem redacted_of_looksLike (h : LooksLike secret other) : redacted secret = redacted other := by
  cases h with
  | empty => rfl
  | short full full' h h' => rw [redacted_short full h, redacted_short full' h']
  | long h h' same same' ascii =>
    obtain ⟨first, last, ends⟩ := exists_ends_of_ascii h ascii
    rw [same, same'] at ascii
    obtain ⟨first', last', ends'⟩ := exists_ends_of_ascii h' ascii
    have first_eq : first = first' :=
      Utf8.bytes_injective (by rw [ends.bytes_first, ends'.bytes_first, same])
    have last_eq : last = last' :=
      Utf8.bytes_injective (by rw [ends.bytes_last, ends'.bytes_last, same'])
    rw [redacted_of_ends ends, redacted_of_ends ends', first_eq, last_eq]

end RequestAuth.Text
