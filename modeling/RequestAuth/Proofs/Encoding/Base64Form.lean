import RequestAuth.Proofs.Encoding.Base64

/-!
# What base64 looks like

Each group of four digits writes the number that three bytes write, and a last group of two or three
digits that of one or two bytes, moved to the left by the bits that are left over
(`Base64.Writes`). A text is read as bytes if it writes them in this way, and if encoding gives it
(`Base64.decoding_canonical`): decoding undoes encoding, and takes no other text.
-/

namespace RequestAuth.Base64

/-- The text writes the bytes in the digits of an alphabet. After a last group that lacks `n` digits
stands `fill n`. -/
inductive Writes (alphabet : Alphabet) (fill : Nat → List Char) : List Char → Bytes → Prop
  | nil : Writes alphabet fill [] []
  | one {c d : Char} {p q : Nat} {a : UInt8} (hc : alphabet.value? c = some p)
    (hd : alphabet.value? d = some q) (bits : p * 64 + q = a.toNat * 16) :
    Writes alphabet fill (c :: d :: fill 2) [a]
  | two {c d e : Char} {p q r : Nat} {a b : UInt8} (hc : alphabet.value? c = some p)
    (hd : alphabet.value? d = some q) (he : alphabet.value? e = some r)
    (bits : (p * 64 + q) * 64 + r = (a.toNat * 256 + b.toNat) * 4) :
    Writes alphabet fill (c :: d :: e :: fill 1) [a, b]
  | three {c d e f : Char} {p q r s : Nat} {a b x : UInt8} {text : List Char} {bytes : Bytes}
    (hc : alphabet.value? c = some p) (hd : alphabet.value? d = some q)
    (he : alphabet.value? e = some r) (hf : alphabet.value? f = some s)
    (bits : ((p * 64 + q) * 64 + r) * 64 + s = (a.toNat * 256 + b.toNat) * 256 + x.toNat)
    (rest : Writes alphabet fill text bytes) :
    Writes alphabet fill (c :: d :: e :: f :: text) (a :: b :: x :: bytes)

/-! ## How the bytes are written -/

namespace Alphabet

variable {alphabet : Alphabet} {fill : Nat → List Char} {text : List Char} {bytes : Bytes}

/-- The digits of the bytes, and what fills up the last group. -/
def writeFilled (alphabet : Alphabet) (fill : Nat → List Char) (bytes : Bytes) : List Char :=
  alphabet.write bytes ++ fill ((4 - (alphabet.write bytes).length % 4) % 4)

theorem writeFilled_cons (a b x : UInt8) (bytes : Bytes) :
    alphabet.writeFilled fill (a :: b :: x :: bytes) =
      alphabet.digit (a.toNat / 4) :: alphabet.digit (a.toNat % 4 * 16 + b.toNat / 16) ::
        alphabet.digit (b.toNat % 16 * 4 + x.toNat / 64) :: alphabet.digit (x.toNat % 64) ::
          alphabet.writeFilled fill bytes := by
  have whole (n : Nat) : (n + 1 + 1 + 1 + 1) % 4 = n % 4 := by omega
  simp only [writeFilled, write, sextets, List.map_cons, List.length_cons, List.cons_append, whole]

theorem writeFilled_nil (hf : fill 0 = []) : alphabet.writeFilled fill [] = [] := by
  simpa [writeFilled, write, sextets] using hf

theorem writes_writeFilled (h : alphabet.IsReadable) (hf : fill 0 = []) (bytes : Bytes) :
    Writes alphabet fill (alphabet.writeFilled fill bytes) bytes := by
  fun_induction sextets bytes with
  | case1 =>
    rw [writeFilled_nil hf]
    exact .nil
  | case2 a =>
    have := a.toNat_lt
    exact .one (h _ (by omega)) (h _ (by omega)) (by omega)
  | case3 a b =>
    have := a.toNat_lt
    have := b.toNat_lt
    exact .two (h _ (by omega)) (h _ (by omega)) (h _ (by omega)) (by omega)
  | case4 a b x rest ih =>
    have := a.toNat_lt
    have := b.toNat_lt
    have := x.toNat_lt
    rw [writeFilled_cons]
    exact .three (h _ (by omega)) (h _ (by omega)) (h _ (by omega)) (h _ (by omega)) (by omega) ih

/-- A digit is the one of its value. -/
theorem eq_digit {c : Char} {n m : Nat} (h : alphabet.value? c = some n) (hn : n = m) :
    c = alphabet.digit m :=
  hn ▸ (digit_of_value? h).1.symm

theorem eq_writeFilled_of_writes (hf : fill 0 = []) (h : Writes alphabet fill text bytes) :
    text = alphabet.writeFilled fill bytes := by
  induction h with
  | nil => exact (writeFilled_nil hf).symm
  | @one c d p q a hc hd bits =>
    have := (digit_of_value? hd).2
    have first : p = a.toNat / 4 := by omega
    have second : q = a.toNat % 4 * 16 := by omega
    rw [eq_digit hc first, eq_digit hd second]
    rfl
  | @two c d e p q r a b hc hd he bits =>
    have := (digit_of_value? hd).2
    have := (digit_of_value? he).2
    have := b.toNat_lt
    have first : p = a.toNat / 4 := by omega
    have second : q = a.toNat % 4 * 16 + b.toNat / 16 := by omega
    have third : r = b.toNat % 16 * 4 := by omega
    rw [eq_digit hc first, eq_digit hd second, eq_digit he third]
    rfl
  | @three c d e f p q r s a b x text bytes hc hd he hf bits _ ih =>
    have := (digit_of_value? hd).2
    have := (digit_of_value? he).2
    have := (digit_of_value? hf).2
    have := b.toNat_lt
    have := x.toNat_lt
    have first : p = a.toNat / 4 := by omega
    have second : q = a.toNat % 4 * 16 + b.toNat / 16 := by omega
    have third : r = b.toNat % 16 * 4 + x.toNat / 64 := by omega
    have fourth : s = x.toNat % 64 := by omega
    rw [writeFilled_cons, ← ih, eq_digit hc first, eq_digit hd second, eq_digit he third,
      eq_digit hf fourth]

theorem writes_iff (h : alphabet.IsReadable) (hf : fill 0 = []) :
    Writes alphabet fill text bytes ↔ text = alphabet.writeFilled fill bytes := by
  constructor
  · exact eq_writeFilled_of_writes hf
  · rintro rfl
    exact writes_writeFilled h hf bytes

end Alphabet

/-! ## The two forms -/

variable {text : String} {bytes : Bytes}

/-- Padding up to a whole group. -/
def padded (n : Nat) : List Char := List.replicate n '='

/-- No padding. -/
def unpadded (_ : Nat) : List Char := []

theorem eq_encode_iff : text = encode bytes ↔ Writes standard padded text.toList bytes := by
  rw [Alphabet.writes_iff Alphabet.isReadable_standard rfl, ← String.toList_inj, encode,
    String.toList_ofList]
  rfl

theorem eq_encodeUrl_iff : text = encodeUrl bytes ↔ Writes urlSafe unpadded text.toList bytes := by
  rw [Alphabet.writes_iff Alphabet.isReadable_urlSafe rfl, ← String.toList_inj, encodeUrl,
    String.toList_ofList, Alphabet.writeFilled, unpadded, List.append_nil]

/-- Decoding takes exactly what encoding gives, which is what writes the bytes group by group; the
form for URLs may be padded in any way. -/
theorem decoding_canonical (text : String) (bytes : Bytes) :
    (decode? text = some bytes ↔ text = encode bytes) ∧
    (text = encode bytes ↔ Writes standard padded text.toList bytes) ∧
    (decodeUrl? text = some bytes ↔
      ∃ k, text.toList = (encodeUrl bytes).toList ++ List.replicate k '=') ∧
    (text = encodeUrl bytes ↔ Writes urlSafe unpadded text.toList bytes) :=
  ⟨decode?_eq_some_iff, eq_encode_iff, decodeUrl?_eq_some_iff, eq_encodeUrl_iff⟩

-- a bit after the last byte, a lacking padding character, and a line end
example : decode? "bm9zcWx=" = none ∧ decode? "bm9zcWw" = none ∧ decode? "bm9z\ncWw=" = none := by
  decide

end RequestAuth.Base64
