import Mathlib.Algebra.Order.Group.Nat
import Mathlib.Data.List.Basic
import RequestAuth.Digest.Hmac

/-!
# Lengths of pieces and of hashes

What is put together from pieces of one length is cut into those pieces again
(`Sha2.pieces_flatten`). The state of a hash function is eight words, and a hash is as many of their
bytes as its name says (`Sha2.length_digest`), with a key as well (`Hmac.length_code`).
-/

namespace RequestAuth.Sha2

/-! ## Pieces -/

section Pieces

variable {α : Type} {length : Nat} {parts : List (List α)} {xs : List α}

theorem length_flatten (h : ∀ part ∈ parts, part.length = length) :
    parts.flatten.length = length * parts.length := by
  rw [List.length_flatten, List.map_congr_left h, List.map_const', List.sum_replicate_nat,
    Nat.mul_comm]

theorem go_flatten (pos : 0 < length) (h : ∀ part ∈ parts, part.length = length) {most : Nat}
    (enough : parts.length ≤ most) : pieces.go length most parts.flatten = parts := by
  induction parts generalizing most with
  | nil => cases most <;> rfl
  | cons part parts ih =>
    obtain ⟨most, rfl⟩ := Nat.exists_eq_add_of_le' (Nat.zero_lt_of_lt enough)
    have first : part.length = length := h part List.mem_cons_self
    have full : part ++ parts.flatten ≠ [] := by
      rw [← List.length_pos_iff, List.length_append]
      omega
    have later := ih (fun other ho => h other (.tail _ ho)) (Nat.le_of_succ_le_succ enough)
    rw [List.flatten_cons, pieces.go.eq_3 _ _ _ full, ← first, List.take_left, List.drop_left,
      first, later]

theorem pieces_flatten (pos : 0 < length) (h : ∀ part ∈ parts, part.length = length) :
    pieces length parts.flatten = parts := by
  apply go_flatten pos h
  rw [length_flatten h]
  exact Nat.le_mul_of_pos_left _ pos

/-- What is a whole number of pieces long is put together from pieces. -/
theorem exists_flatten (h : length ∣ xs.length) :
    ∃ parts : List (List α), (∀ part ∈ parts, part.length = length) ∧ parts.flatten = xs := by
  obtain ⟨count, hc⟩ := h
  induction count generalizing xs with
  | zero => exact ⟨[], by simp, by simpa [eq_comm] using hc⟩
  | succ count ih =>
    rw [Nat.mul_succ] at hc
    have rest : (xs.drop length).length = length * count := by
      rw [List.length_drop]
      omega
    obtain ⟨parts, hp, he⟩ := ih rest
    refine ⟨xs.take length :: parts, List.forall_mem_cons.2 ⟨?_, hp⟩, ?_⟩
    · rw [List.length_take]
      omega
    · rw [List.flatten_cons, he, List.take_append_drop]

end Pieces

/-! ## Hashes -/

/-- A word is as many bytes as it is wide. -/
theorem length_bytesOnto32 (x : UInt32) (rest : Bytes) :
    (Word.bytesOnto x rest).length = 4 + rest.length := by
  simp only [Word.bytesOnto, List.length_cons]
  omega

theorem length_bytesOnto64 (x : UInt64) (rest : Bytes) :
    (Word.bytesOnto x rest).length = 8 + rest.length := by
  simp only [Word.bytesOnto, List.length_cons]
  omega

theorem length_bytes {ω : Type} [Word ω] {width : Nat}
    (h : ∀ (x : ω) rest, (Word.bytesOnto x rest).length = width + rest.length) (s : State ω) :
    s.bytes.length = 8 * width := by
  simp only [State.bytes, State.words, List.foldr_cons, List.foldr_nil, h, List.length_nil]
  omega

theorem length_bytes_narrow (blocks : List Bytes) (state : State UInt32) :
    (blocks.foldl Carry.absorb (.narrow state)).bytes.length = 32 := by
  induction blocks generalizing state with
  | nil => exact length_bytes length_bytesOnto32 state
  | cons block blocks ih => exact ih _

theorem length_bytes_wide (blocks : List Bytes) (state : State UInt64) :
    (blocks.foldl Carry.absorb (.wide state)).bytes.length = 64 := by
  induction blocks generalizing state with
  | nil => exact length_bytes length_bytesOnto64 state
  | cons block blocks ih => exact ih _

theorem size_le_length_bytes (variant : Sha2) (blocks : List Bytes) :
    variant.size ≤ (blocks.foldl Carry.absorb variant.start).bytes.length := by
  cases variant with
  | sha224 | sha256 =>
    rw [start, length_bytes_narrow]
    decide
  | sha384 | sha512 =>
    rw [start, length_bytes_wide]
    decide

theorem length_digest (variant : Sha2) (message : Bytes) :
    (variant.digest message).length = variant.size := by
  rw [digest, finish, List.length_take]
  exact Nat.min_eq_left (variant.size_le_length_bytes [_])

end RequestAuth.Sha2

namespace RequestAuth.Hmac

theorem length_code (variant : Sha2) (key message : Bytes) :
    ((ofKey variant key).code message).length = variant.size := by
  rw [code, Sha2.finish, List.length_take]
  exact Nat.min_eq_left (variant.size_le_length_bytes [_, _])

end RequestAuth.Hmac
