import RequestAuth.Encoding.Der
import RequestAuth.Proofs.Bytes

/-!
# Reading elements that were written

What `Der.writeLength`, `Element.write` and `Der.writeNat` write is taken off the start of any byte
string that begins with it (`Der.readLength?_writeLength`, `Der.read?_write`,
`Der.takeNat?_writeNat`), as long as its length can be written at all. An element is longer than its
contents, by a few bytes (`Element.length_contents_le`, `Element.length_write_le`).
-/

namespace RequestAuth.Der

variable {contents : Bytes} {n : Nat} {tag : UInt8}

/-! ## Lengths -/

theorem length_ofNat_le_four (h : n ≤ maxLength) : (Bytes.ofNat n).length ≤ 4 := by
  apply Bytes.length_ofNat_le
  unfold maxLength at h
  omega

/-- A length takes at most one byte more than its number. -/
theorem length_writeLength_le (h : n ≤ maxLength) : (writeLength n).length ≤ 5 := by
  have short := length_ofNat_le_four h
  unfold writeLength
  split
  · exact (by decide : 1 ≤ 5)
  · rw [List.length_cons]
    omega

theorem readLength?_writeLength (h : n ≤ maxLength) (rest : Bytes) :
    readLength? (writeLength n ++ rest) = some (n, rest) := by
  by_cases small : n < 0x80
  · have byte : (UInt8.ofNat n).toNat = n := UInt8.toNat_ofNat_of_lt' (small.trans (by decide))
    have first : UInt8.ofNat n < 0x80 := UInt8.lt_iff_toNat_lt.2 (by rw [byte]; exact small)
    rw [writeLength, if_pos small, List.singleton_append, readLength?, if_pos first, byte]
  · have short := length_ofNat_le_four h
    have byte : (UInt8.ofNat (0x80 + (Bytes.ofNat n).length)).toNat =
        0x80 + (Bytes.ofNat n).length :=
      UInt8.toNat_ofNat_of_lt' (show _ < 256 by omega)
    have first : ¬ UInt8.ofNat (0x80 + (Bytes.ofNat n).length) < 0x80 := by
      intro less
      have := UInt8.lt_iff_toNat_lt.1 less
      rw [byte] at this
      exact absurd this (Nat.not_lt.2 (Nat.le_add_right _ _))
    have written : writeLength n =
        UInt8.ofNat (0x80 + (Bytes.ofNat n).length) :: Bytes.ofNat n := if_neg small
    rw [written, List.cons_append, readLength?, if_neg first]
    simp only [byte, Nat.add_sub_cancel_left, List.take_left, List.drop_left, Bytes.toNat_ofNat,
      written, h, and_self, if_true]

/-! ## Elements -/

namespace Element

theorem length_contents_le (element : Element) :
    element.contents.length ≤ element.write.length := by
  rw [write, List.length_cons, List.length_append]
  omega

theorem length_write_le {element : Element} {k : Nat} (h : element.contents.length ≤ k)
    (hk : k ≤ maxLength) : element.write.length ≤ k + 6 := by
  have := length_writeLength_le (h.trans hk)
  rw [write, List.length_cons, List.length_append]
  omega

end Element

theorem read?_write (element : Element) (ht : isTag element.tag)
    (h : element.contents.length ≤ maxLength) (rest : Bytes) :
    read? (element.write ++ rest) = some (element, rest) := by
  rw [Element.write, List.cons_append, List.append_assoc, read?, readLength?_writeLength h]
  simp [ht, guard]

theorem take?_write (ht : isTag tag) (h : contents.length ≤ maxLength) (rest : Bytes) :
    take? tag (Element.write ⟨tag, contents⟩ ++ rest) = some (contents, rest) := by
  simp [take?, read?_write ⟨tag, contents⟩ ht h, guard]

theorem whole?_write (ht : isTag tag) (h : contents.length ≤ maxLength) :
    whole? tag (Element.write ⟨tag, contents⟩) = some contents := by
  have taken := take?_write ht h []
  rw [List.append_nil] at taken
  simp [whole?, taken, guard]

/-! ## Numbers -/

theorem toNat_natContents (n : Nat) : Bytes.toNat (natContents n) = n := by
  have back := Bytes.toNat_ofNat n
  unfold natContents
  split
  · next h =>
    rw [h] at back
    exact back
  · next first later h =>
    rw [h] at back
    split
    · exact back
    · rw [Bytes.toNat_cons, back]
      simp

theorem length_natContents_le {k : Nat} (h : n < 256 ^ k) : (natContents n).length ≤ k + 1 := by
  have short := Bytes.length_ofNat_le h
  unfold natContents
  split
  · exact Nat.le_add_left _ _
  · next first later he =>
    rw [he] at short
    split
    · exact Nat.le_succ_of_le short
    · exact Nat.succ_le_succ short

theorem length_writeNat_le {k : Nat} (h : n < 256 ^ k) (hk : k < maxLength) :
    (writeNat n).length ≤ k + 7 :=
  Element.length_write_le (length_natContents_le h) hk

/-- A number can be taken off the start of a byte string if its encoding is not too long. -/
theorem takeNat?_writeNat (h : (writeNat n).length ≤ maxLength) (rest : Bytes) :
    takeNat? (writeNat n ++ rest) = some (n, rest) := by
  have short : (natContents n).length ≤ maxLength :=
    (Element.length_contents_le ⟨integerTag, natContents n⟩).trans h
  have taken : take? integerTag (writeNat n ++ rest) = some (natContents n, rest) :=
    take?_write rfl short rest
  simp [takeNat?, taken, toNat_natContents, guard]

end RequestAuth.Der
