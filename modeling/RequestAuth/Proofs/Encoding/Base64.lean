import Mathlib.Data.List.DropRight
import RequestAuth.Encoding.Base64

/-!
# Reading what was written in base64

Each step of reading undoes one of writing: groups of six bits give the bytes back, digits their
values, and the padding shows where the digits end. Nothing else is read: in the form for URLs, a
text that has bytes is what they are written as, and any padding after it
(`Base64.decodeUrl?_eq_some_iff`).
-/

namespace RequestAuth.Base64

variable {bytes : Bytes} {alphabet : Alphabet} {c : Char} {n : Nat}

/-! ## Groups of six bits -/

theorem lt_of_mem_sextets (hn : n ∈ sextets bytes) : n < 64 := by
  fun_induction sextets bytes with
  | case1 => cases hn
  | case2 a =>
    have := a.toNat_lt
    simp only [List.mem_cons, List.not_mem_nil, or_false] at hn
    omega
  | case3 a b =>
    have := a.toNat_lt
    have := b.toNat_lt
    simp only [List.mem_cons, List.not_mem_nil, or_false] at hn
    omega
  | case4 a b c rest ih =>
    have := a.toNat_lt
    have := b.toNat_lt
    have := c.toNat_lt
    simp only [List.mem_cons] at hn
    rcases hn with hn | hn | hn | hn | hn
    · omega
    · omega
    · omega
    · omega
    · exact ih hn

theorem ofSextets?_sextets (bytes : Bytes) : ofSextets? (sextets bytes) = some bytes := by
  fun_induction sextets bytes with
  | case1 => rfl
  | case2 a =>
    have ha : UInt8.ofNat (a.toNat / 4 * 4 + a.toNat % 4 * 16 / 16) = a := Bytes.byte_eq (by omega)
    have fill : a.toNat % 4 * 16 % 16 = 0 := by omega
    rw [ofSextets?, if_pos fill, ha]
  | case3 a b =>
    have := b.toNat_lt
    have ha : UInt8.ofNat (a.toNat / 4 * 4 + (a.toNat % 4 * 16 + b.toNat / 16) / 16) = a :=
      Bytes.byte_eq (by omega)
    have hb : UInt8.ofNat ((a.toNat % 4 * 16 + b.toNat / 16) % 16 * 16 + b.toNat % 16 * 4 / 4) =
        b := Bytes.byte_eq (by omega)
    have fill : b.toNat % 16 * 4 % 4 = 0 := by omega
    rw [ofSextets?, if_pos fill, ha, hb]
  | case4 a b c rest ih =>
    have := b.toNat_lt
    have := c.toNat_lt
    have ha : UInt8.ofNat (a.toNat / 4 * 4 + (a.toNat % 4 * 16 + b.toNat / 16) / 16) = a :=
      Bytes.byte_eq (by omega)
    have hb : UInt8.ofNat ((a.toNat % 4 * 16 + b.toNat / 16) % 16 * 16 +
        (b.toNat % 16 * 4 + c.toNat / 64) / 4) = b := Bytes.byte_eq (by omega)
    have hc : UInt8.ofNat ((b.toNat % 16 * 4 + c.toNat / 64) % 4 * 64 + c.toNat % 64) = c :=
      Bytes.byte_eq (by omega)
    rw [ofSextets?, ih, Option.map_some, ha, hb, hc]

theorem sextets_of_ofSextets? {values : List Nat} (hv : ∀ n ∈ values, n < 64)
    (h : ofSextets? values = some bytes) : sextets bytes = values := by
  have byte {n : Nat} (h : n < 256) : (UInt8.ofNat n).toNat = n := UInt8.toNat_ofNat_of_lt' h
  fun_induction ofSextets? values generalizing bytes with
  | case1 =>
    cases h
    rfl
  | case2 => cases h
  | case3 p q fill =>
    obtain ⟨hp, hq, -⟩ := by simpa only [List.forall_mem_cons] using hv
    cases h
    have first : (p * 4 + q / 16) / 4 = p := by omega
    have second : (p * 4 + q / 16) % 4 * 16 = q := by omega
    rw [sextets, byte (by omega), first, second]
  | case4 => cases h
  | case5 p q r fill =>
    obtain ⟨hp, hq, hr, -⟩ := by simpa only [List.forall_mem_cons] using hv
    cases h
    have first : (p * 4 + q / 16) / 4 = p := by omega
    have second : (p * 4 + q / 16) % 4 * 16 + (q % 16 * 16 + r / 4) / 16 = q := by omega
    have third : (q % 16 * 16 + r / 4) % 16 * 4 = r := by omega
    rw [sextets, byte (by omega), byte (by omega), first, second, third]
  | case6 => cases h
  | case7 p q r s rest ih =>
    obtain ⟨hp, hq, hr, hs, hrest⟩ := by simpa only [List.forall_mem_cons] using hv
    obtain ⟨bytes, read, rfl⟩ := Option.map_eq_some_iff.1 h
    have first : (p * 4 + q / 16) / 4 = p := by omega
    have second : (p * 4 + q / 16) % 4 * 16 + (q % 16 * 16 + r / 4) / 16 = q := by omega
    have third : (q % 16 * 16 + r / 4) % 16 * 4 + (r % 4 * 64 + s) / 64 = r := by omega
    have fourth : (r % 4 * 64 + s) % 64 = s := by omega
    rw [sextets, byte (by omega), byte (by omega), byte (by omega), ih hrest read, first, second,
      third, fourth]

/-! ## Digits -/

namespace Alphabet

/-- Digits have the values that they are written for. -/
def IsReadable (alphabet : Alphabet) : Prop :=
  ∀ n < 64, alphabet.value? (alphabet.digit n) = some n

theorem isReadable_standard : standard.IsReadable := by
  unfold IsReadable
  decide

theorem isReadable_urlSafe : urlSafe.IsReadable := by
  unfold IsReadable
  decide

/-- What has no value is no digit. -/
theorem IsReadable.not_mem_write (h : alphabet.IsReadable) (hc : alphabet.value? c = none) :
    c ∉ alphabet.write bytes := by
  intro hm
  obtain ⟨n, hn, rfl⟩ := List.mem_map.1 hm
  rw [h n (lt_of_mem_sextets hn)] at hc
  cases hc

theorem IsReadable.mapM_value? (h : alphabet.IsReadable) {values : List Nat}
    (hv : ∀ n ∈ values, n < 64) :
    (values.map alphabet.digit).mapM alphabet.value? = some values := by
  induction values with
  | nil => rfl
  | cons n values ih =>
    obtain ⟨hn, hv⟩ := List.forall_mem_cons.1 hv
    rw [List.map_cons, List.mapM_cons, h n hn, ih hv]
    rfl

theorem IsReadable.read?_write (h : alphabet.IsReadable) (bytes : Bytes) :
    alphabet.read? (alphabet.write bytes) = some bytes := by
  have hv : ∀ n ∈ sextets bytes, n < 64 := fun _ => lt_of_mem_sextets
  rw [read?, write, h.mapM_value? hv]
  exact ofSextets?_sextets bytes

theorem digit_of_value? (h : alphabet.value? c = some n) : alphabet.digit n = c ∧ n < 64 := by
  unfold value? at h
  simp only [Char.le_def, UInt32.le_iff_toNat_le] at h
  have toNat : c.val.toNat = c.toNat := rfl
  have back (k : Nat) (hk : k = c.toNat) : Char.ofNat k = c := by rw [hk, Char.ofNat_toNat]
  have upper : 'A'.val.toNat = 0x41 ∧ 'Z'.val.toNat = 0x5A := ⟨rfl, rfl⟩
  have lower : 'a'.val.toNat = 0x61 ∧ 'z'.val.toNat = 0x7A := ⟨rfl, rfl⟩
  have decimal : '0'.val.toNat = 0x30 ∧ '9'.val.toNat = 0x39 := ⟨rfl, rfl⟩
  split at h
  · cases h
    have first : c.toNat - 0x41 < 26 := by omega
    rw [digit, if_pos first, back _ (by omega)]
    exact ⟨rfl, by omega⟩
  split at h
  · cases h
    have later : ¬ c.toNat - 0x61 + 26 < 26 := by omega
    have second : c.toNat - 0x61 + 26 < 52 := by omega
    rw [digit, if_neg later, if_pos second, back _ (by omega)]
    exact ⟨rfl, by omega⟩
  split at h
  · cases h
    have later : ¬ c.toNat - 0x30 + 52 < 26 := by omega
    have latest : ¬ c.toNat - 0x30 + 52 < 52 := by omega
    have third : c.toNat - 0x30 + 52 < 62 := by omega
    rw [digit, if_neg later, if_neg latest, if_pos third, back _ (by omega)]
    exact ⟨rfl, by omega⟩
  split at h
  · rename_i last
    cases h
    exact ⟨last.symm, by decide⟩
  split at h
  · rename_i last
    cases h
    exact ⟨last.symm, by decide⟩
  · cases h

theorem map_digit_of_mapM_value? {digits : List Char} {values : List Nat}
    (h : digits.mapM alphabet.value? = some values) :
    values.map alphabet.digit = digits ∧ ∀ n ∈ values, n < 64 := by
  induction digits generalizing values with
  | nil =>
    cases h
    exact ⟨rfl, fun n hn => nomatch hn⟩
  | cons c digits ih =>
    rw [List.mapM_cons] at h
    obtain ⟨n, hn, h⟩ := Option.bind_eq_some_iff.1 h
    obtain ⟨later, read, h⟩ := Option.bind_eq_some_iff.1 h
    cases h
    obtain ⟨same, small⟩ := digit_of_value? hn
    obtain ⟨rfl, smalls⟩ := ih read
    exact ⟨by rw [List.map_cons, same], List.forall_mem_cons.2 ⟨small, smalls⟩⟩

theorem write_of_read? {digits : List Char} (h : alphabet.read? digits = some bytes) :
    alphabet.write bytes = digits := by
  obtain ⟨values, read, h⟩ := Option.bind_eq_some_iff.1 h
  obtain ⟨written, small⟩ := map_digit_of_mapM_value? read
  rw [write, sextets_of_ofSextets? small h, written]

end Alphabet

/-! ## The standard form -/

theorem mem_encode (hc : c ∈ (encode bytes).toList) :
    c = '=' ∨ ∃ n < 64, c = standard.digit n := by
  rw [encode, String.toList_ofList, encodeChars, List.mem_append, padding, List.mem_replicate] at hc
  obtain hd | ⟨-, rfl⟩ := hc
  · obtain ⟨n, hn, rfl⟩ := List.mem_map.1 hd
    exact .inr ⟨n, lt_of_mem_sextets hn, rfl⟩
  · exact .inl rfl

theorem not_mem_encode (hc : standard.value? c = none) (hp : c ≠ '=') :
    c ∉ (encode bytes).toList := by
  intro hm
  obtain rfl | ⟨n, hn, rfl⟩ := mem_encode hm
  · exact hp rfl
  · rw [Alphabet.isReadable_standard n hn] at hc
    cases hc

theorem encodeChars_cons (a b c : UInt8) (rest : Bytes) :
    encodeChars (a :: b :: c :: rest) =
      [a.toNat / 4, a.toNat % 4 * 16 + b.toNat / 16, b.toNat % 16 * 4 + c.toNat / 64,
        c.toNat % 64].map standard.digit ++ encodeChars rest := by
  have filled (n : Nat) : padding (n + 1 + 1 + 1 + 1) = padding n := by
    have whole : (n + 1 + 1 + 1 + 1) % 4 = n % 4 := by omega
    rw [padding, padding, whole]
  simp only [encodeChars, Alphabet.write, sextets, List.map_cons, List.map_nil, List.length_cons,
    List.cons_append, List.nil_append, filled]

theorem length_encodeChars_mod (bytes : Bytes) : (encodeChars bytes).length % 4 = 0 := by
  simp only [encodeChars, padding, List.length_append, List.length_replicate]
  omega

theorem eq_of_pair_suffix {a b x y : Char} (before : List Char)
    (h : [a, b] <:+ before ++ [x, y]) : a = x ∧ b = y := by
  obtain ⟨front, h⟩ := h
  have same : [a, b] = [x, y] := List.append_inj_right' h rfl
  simpa using same

/-- The digit before a single padding character stands for four bits and two zeros. -/
theorem exists_of_suffix_encodeChars {digit : Char} (hd : digit ≠ '=')
    (h : [digit, '='] <:+ encodeChars bytes) : ∃ k < 16, digit = standard.digit (k * 4) := by
  have no_padding : ∀ n < 64, '=' ≠ standard.digit n := by decide
  fun_induction sextets bytes with
  | case1 => cases List.eq_nil_of_suffix_nil h
  | case2 a =>
    have written : encodeChars [a] = [standard.digit (a.toNat / 4),
        standard.digit (a.toNat % 4 * 16)] ++ ['=', '='] := rfl
    exact absurd (eq_of_pair_suffix _ (written ▸ h)).1 hd
  | case3 a b =>
    have written : encodeChars [a, b] = [standard.digit (a.toNat / 4),
        standard.digit (a.toNat % 4 * 16 + b.toNat / 16)] ++
          [standard.digit (b.toNat % 16 * 4), '='] := rfl
    exact ⟨b.toNat % 16, Nat.mod_lt _ (by decide), (eq_of_pair_suffix _ (written ▸ h)).1⟩
  | case4 a b c rest ih =>
    rw [encodeChars_cons] at h
    obtain later | short := List.suffix_or_suffix_of_suffix h (List.suffix_append _ _)
    · exact ih later
    · -- what follows the first group is empty, so that the group has to end in padding
      have two := short.length_le
      have fours := length_encodeChars_mod rest
      have empty : encodeChars rest = [] := by
        apply List.eq_nil_of_length_eq_zero
        simp only [List.length_cons, List.length_nil] at two
        omega
      rw [empty, List.append_nil] at h
      have last := (eq_of_pair_suffix (List.map standard.digit [_, _]) h).2
      exact absurd last (no_padding _ (Nat.mod_lt _ (by decide)))

theorem decodeChars?_encodeChars (bytes : Bytes) :
    decodeChars? (encodeChars bytes) = some bytes := by
  have digits : ∀ c ∈ standard.write bytes, decide (c ≠ '=') = true := fun c hc => by
    have hne : '=' ∉ standard.write bytes :=
      Alphabet.isReadable_standard.not_mem_write (by decide)
    exact decide_eq_true fun he => hne (he ▸ hc)
  have filled (k : Nat) : (padding k).takeWhile (· ≠ '=') = [] ∧
      (padding k).dropWhile (· ≠ '=') = padding k := by
    unfold padding
    cases (4 - k % 4) % 4 <;> simp [List.replicate_succ]
  rw [decodeChars?, encodeChars]
  simp only [List.takeWhile_append_of_pos digits, List.dropWhile_append_of_pos digits, filled,
    List.append_nil, if_true]
  exact Alphabet.isReadable_standard.read?_write bytes

theorem decode?_encode (bytes : Bytes) : decode? (encode bytes) = some bytes := by
  rw [encode, decode?, String.toList_ofList, decodeChars?_encodeChars]

theorem encodeChars_of_decodeChars? {text : List Char} (h : decodeChars? text = some bytes) :
    encodeChars bytes = text := by
  unfold decodeChars? at h
  dsimp only at h
  split at h
  · rename_i padded
    rw [encodeChars, Alphabet.write_of_read? h, ← padded, List.takeWhile_append_dropWhile]
  · cases h

/-- What is read as bytes is their standard form. -/
theorem decode?_eq_some_iff {text : String} : decode? text = some bytes ↔ text = encode bytes := by
  constructor
  · intro h
    rw [encode, encodeChars_of_decodeChars? h, String.ofList_toList]
  · rintro rfl
    exact decode?_encode bytes

theorem encode_injective {bytes' : Bytes} (h : encode bytes = encode bytes') : bytes = bytes' := by
  apply Option.some.inj
  rw [← decode?_encode, h, decode?_encode]

/-! ## The form for URLs -/

theorem not_mem_encodeUrl (hc : urlSafe.value? c = none) : c ∉ (encodeUrl bytes).toList := by
  rw [encodeUrl, String.toList_ofList]
  exact Alphabet.isReadable_urlSafe.not_mem_write hc

theorem dropPadding_append {digits : List Char} (h : '=' ∉ digits) (k : Nat) :
    dropPadding (digits ++ List.replicate k '=') = digits := by
  have all : ∀ c ∈ List.replicate k '=', decide (c = '=') = true := fun c hc =>
    decide_eq_true (List.eq_of_mem_replicate hc)
  have none_left : digits.rdropWhile (· = '=') = digits := by
    rw [List.rdropWhile_eq_self_iff]
    intro hl he
    exact h (of_decide_eq_true he ▸ List.getLast_mem hl)
  rw [dropPadding, List.reverse_append, List.reverse_replicate, List.dropWhile_append_of_pos all]
  exact none_left

theorem exists_eq_dropPadding_append (text : List Char) :
    ∃ k, text = dropPadding text ++ List.replicate k '=' := by
  have all : text.rtakeWhile (· = '=') = List.replicate (text.rtakeWhile (· = '=')).length '=' :=
    List.eq_replicate_of_mem fun c hc => by simpa using List.mem_rtakeWhile_imp hc
  refine ⟨(text.rtakeWhile (· = '=')).length, ?_⟩
  rw [← all]
  exact List.rdropWhile_append_rtakeWhile.symm

/-- What is read as bytes is their form for URLs and any padding. -/
theorem decodeUrl?_eq_some_iff {text : String} :
    decodeUrl? text = some bytes ↔
      ∃ k, text.toList = (encodeUrl bytes).toList ++ List.replicate k '=' := by
  rw [encodeUrl, String.toList_ofList, decodeUrl?]
  constructor
  · intro h
    obtain ⟨k, padded⟩ := exists_eq_dropPadding_append text.toList
    exact ⟨k, by rw [Alphabet.write_of_read? h, ← padded]⟩
  · rintro ⟨k, padded⟩
    rw [padded, dropPadding_append (Alphabet.isReadable_urlSafe.not_mem_write (by decide))]
    exact Alphabet.isReadable_urlSafe.read?_write bytes

end RequestAuth.Base64
