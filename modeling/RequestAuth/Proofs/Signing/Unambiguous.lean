import RequestAuth.Proofs.Date.RoundTrip
import RequestAuth.Proofs.Signing.Genuine
import RequestAuth.Proofs.Signing.Verification
import RequestAuth.Proofs.Text.Part

/-!
# What is signed and what is sent can be read in one way only

Nothing is escaped in the text that is signed, nor in the header, and both the host and the key id
may be any text. Still the text that is signed tells the host and the second that it is dated by,
since a date has no line end, and the header tells the key id and the signature, since base64 has no
quote (`unambiguous`). The last mark of the header is the one before the signature: base64 that ends
in `signature=` would have a bit set that has to be zero. What no text tells from the second after
it is a leap second inside a minute (`content_insideMinute`).
-/

namespace RequestAuth.Signing

/-! ## The text that is signed -/

theorem content_eq (host date : String) :
    (content host date).toList =
      (targetName ++ ": post /" ++ path ++ "\nhost: ").toList ++ host.toList ++
        '\n' :: ("date: ".toList ++ date.toList) := by
  simp only [content, String.toList_append, List.append_assoc]
  rfl

theorem not_mem_date (t : DateTime) : '\n' ∉ "date: ".toList ++ (HttpDate.render t).toList := by
  intro h
  rcases List.mem_append.1 h with h | h
  · revert h
    decide
  · exact absurd (HttpDate.printable_render t _ h).1 (by decide)

theorem eq_of_content_eq {host host' : String} {t u : DateTime}
    (h : content host (HttpDate.render t) = content host' (HttpDate.render u)) :
    host = host' ∧ HttpDate.render t = HttpDate.render u := by
  have lists := congrArg String.toList h
  rw [content_eq, content_eq] at lists
  obtain ⟨hosts, dates⟩ := Text.eq_of_append_cons_eq lists (not_mem_date t) (not_mem_date u)
  exact ⟨String.toList_injective (List.append_cancel_left hosts),
    String.toList_injective (List.append_cancel_left dates)⟩

/-! ## The header -/

/-- What stands before the mark of the signature. -/
def beforeMark (keyId : String) : String :=
  opening ++ keyId ++ "\",algorithm=\"" ++ algorithm ++ "\","

/-- What stands behind the quote after the signature. -/
def closing : String := ",version=\"" ++ version ++ "\""

theorem header_eq_append (keyId : String) (signature : Bytes) :
    (header keyId signature).toList = (beforeMark keyId).toList ++
      (signatureMark.toList ++ ((Base64.encode signature).toList ++ '"' :: closing.toList)) := by
  have quote : "\",version=\"".toList = '"' :: ",version=\"".toList := by decide
  unfold header beforeMark opening closing
  simp only [String.toList_append, List.append_assoc]
  rw [quote, List.cons_append]

theorem not_mem_encode (signature : Bytes) : '"' ∉ (Base64.encode signature).toList :=
  Base64.not_mem_encode (by decide) (by decide)

/-- The mark without its quote. -/
def markName : List Char := "signature=".toList

theorem signatureMark_eq (rest : List Char) :
    signatureMark.toList ++ rest = markName ++ '"' :: rest := by
  rfl

theorem not_suffix_encode (signature : Bytes) :
    ¬ markName <:+ (Base64.encode signature).toList := by
  intro h
  have pair : ['e', '='] <:+ Base64.encodeChars signature := by
    rw [Base64.encode, String.toList_ofList] at h
    exact List.IsSuffix.trans ⟨"signatur".toList, rfl⟩ h
  obtain ⟨k, hk, digit⟩ := Base64.exists_of_suffix_encodeChars (by decide) pair
  have other : ∀ k < 16, 'e' ≠ Base64.standard.digit (k * 4) := by decide
  exact other k hk digit

/-- From the mark of the signature on there is no other mark: each quote that follows stands behind
something else. -/
theorem eq_nil_of_mark {signature : Bytes} {before rest : List Char}
    (h : signatureMark.toList ++ ((Base64.encode signature).toList ++ '"' :: closing.toList) =
      before ++ signatureMark.toList ++ rest) : before = [] := by
  have unquoted : '"' ∉ markName := by decide
  have name : closing.toList = ",version=".toList ++ '"' :: ("1".toList ++ '"' :: []) := rfl
  rw [List.append_assoc, signatureMark_eq, signatureMark_eq, ← List.append_assoc, name] at h
  obtain ⟨first, -⟩ | ⟨u₁, hu₁, h₁⟩ := Text.eq_or_exists_of_append_cons_eq h.symm unquoted
  · simpa using first
  have ends₁ : markName <:+ u₁ := Text.suffix_of_suffix_append_cons ⟨before, hu₁⟩ unquoted
  obtain ⟨rfl, -⟩ | ⟨u₂, rfl, h₂⟩ :=
    Text.eq_or_exists_of_append_cons_eq h₁ (not_mem_encode signature)
  · exact absurd ends₁ (not_suffix_encode signature)
  have ends₂ : markName <:+ u₂ := Text.suffix_of_suffix_append_cons ends₁ unquoted
  obtain ⟨rfl, -⟩ | ⟨u₃, rfl, h₃⟩ := Text.eq_or_exists_of_append_cons_eq h₂ (by decide)
  · exact absurd ends₂ (by decide)
  have ends₃ : markName <:+ u₃ := Text.suffix_of_suffix_append_cons ends₂ unquoted
  obtain ⟨rfl, -⟩ | ⟨u₄, -, h₄⟩ := Text.eq_or_exists_of_append_cons_eq h₃ (by decide)
  · exact absurd ends₃ (by decide)
  · exact absurd h₄ (by simp)

/-- The signature stands between the last mark of a header and the next quote. -/
theorem cut?_header (keyId : String) (signature : Bytes) :
    cut? (header keyId signature) =
      some (beforeMark keyId ++ signatureMark, Base64.encode signature, "\"" ++ closing) := by
  have mark : signatureMark.toList ≠ [] := by decide
  have digits : ∀ c ∈ (Base64.encode signature).toList, decide (c ≠ '"') = true :=
    fun c hc => decide_eq_true fun he => not_mem_encode signature (he ▸ hc)
  have quote : decide ('"' ≠ '"') = false := by decide
  have after : String.ofList ('"' :: closing.toList) = "\"" ++ closing := by decide
  rw [cut?, header_eq_append, Text.splitLast?_append _ mark fun before rest => eq_nil_of_mark]
  simp only [Option.bind_eq_bind, Option.bind_some, List.takeWhile_append_of_pos digits,
    List.dropWhile_append_of_pos digits, List.takeWhile_cons, List.dropWhile_cons, quote]
  simp [after]

/-- The characters stand between the last mark of a text and the next quote. -/
def ShowsLast (text shown : List Char) : Prop :=
  ∃ before after, text = before ++ signatureMark.toList ++ shown ++ '"' :: after ∧ '"' ∉ shown ∧
    ∀ before' rest, text = before' ++ signatureMark.toList ++ rest →
      before'.length ≤ before.length

theorem showsLast_header (keyId : String) (signature : Bytes) :
    ShowsLast (header keyId signature).toList (Base64.encode signature).toList := by
  refine ⟨(beforeMark keyId).toList, closing.toList, ?_, not_mem_encode signature, ?_⟩
  · rw [header_eq_append, List.append_assoc, List.append_assoc]
  · intro before' rest h
    rw [header_eq_append] at h
    exact Text.length_le_of_last (fun before rest => eq_nil_of_mark) h

theorem eq_of_beforeMark_eq {keyId keyId' : String}
    (h : beforeMark keyId ++ signatureMark = beforeMark keyId' ++ signatureMark) :
    keyId = keyId' := by
  have lists := congrArg String.toList h
  unfold beforeMark at lists
  simp only [String.toList_append, List.append_assoc] at lists
  exact String.toList_injective (List.append_cancel_right (List.append_cancel_left lists))

theorem eq_of_header_eq {keyId keyId' : String} {signature signature' : Bytes}
    (h : header keyId signature = header keyId' signature') :
    keyId = keyId' ∧ signature = signature' := by
  have cuts := cut?_header keyId signature
  rw [h, cut?_header, Option.some.injEq, Prod.mk.injEq, Prod.mk.injEq] at cuts
  exact ⟨(eq_of_beforeMark_eq cuts.1).symm, (Base64.encode_injective cuts.2.1).symm⟩

/-- Two points in time with the same date are signed alike. -/
theorem sign_congr (host keyId : String) (key : Rsa.PrivateKey) {t u : DateTime}
    (h : HttpDate.render t = HttpDate.render u) :
    sign host keyId key t = sign host keyId key u := by
  rw [sign, sign, h]

theorem unambiguous :
    (∀ host host' t u, content host (HttpDate.render t) = content host' (HttpDate.render u) →
      host = host' ∧ t.datedSecond = u.datedSecond) ∧
    ∀ host keyId key time entry, sign host keyId key time = .ok entry →
      ∃ signature, key.sign (Utf8.bytes (content host entry.date)) = .ok signature ∧
        (∃ before after,
          cut? entry.headerValue = some (before, Base64.encode signature, after)) ∧
        ShowsLast entry.headerValue.toList (Base64.encode signature).toList ∧
        ∀ host' keyId' key' time' entry', sign host' keyId' key' time' = .ok entry' →
          entry'.headerValue = entry.headerValue →
            keyId' = keyId ∧
              key'.sign (Utf8.bytes (content host' entry'.date)) = .ok signature := by
  constructor
  · intro host host' t u h
    obtain ⟨hosts, dates⟩ := eq_of_content_eq h
    exact ⟨hosts, HttpDate.render_eq_render_iff.1 dates⟩
  · intro host keyId key time entry h
    obtain ⟨signature, signed, rfl⟩ := sign_eq_ok h
    refine ⟨signature, signed, ⟨_, _, cut?_header keyId signature⟩,
      showsLast_header keyId signature, fun host' keyId' key' time' entry' h' same => ?_⟩
    obtain ⟨signature', signed', rfl⟩ := sign_eq_ok h'
    obtain ⟨rfl, rfl⟩ := eq_of_header_eq same
    exact ⟨rfl, signed'⟩

/-! ## A host and a key id that look like more -/

/-- Half a second after the start of 1970. -/
def halfSecond : DateTime := (DateTime.ofUnix? 0 500000000).get (by decide)

theorem unambiguous_sample :
    content "a\ndate: b" (HttpDate.render epoch) =
      content "a\ndate: b" (HttpDate.render halfSecond) ∧
    epoch.datedSecond = halfSecond.datedSecond ∧
    ∃ entry signature, sign "host" "id\",signature=\"" mersenneKey epoch = .ok entry ∧
      sign "host" "id\",signature=\"" mersenneKey halfSecond = .ok entry ∧
      ShowsLast entry.headerValue.toList (Base64.encode signature).toList ∧
      mersenneKey.sign (Utf8.bytes (content "host" entry.date)) = .ok signature := by
  have dates : HttpDate.render epoch = HttpDate.render halfSecond :=
    HttpDate.render_eq_render_iff.2 (by decide)
  have same : content "a\ndate: b" (HttpDate.render epoch) =
      content "a\ndate: b" (HttpDate.render halfSecond) := by rw [dates]
  have long : Rsa.minSize ≤ mersenneKey.publicKey.size := by decide +kernel
  obtain ⟨entry, signed⟩ :
      ∃ entry, sign "host" "id\",signature=\"" mersenneKey epoch = .ok entry :=
    ⟨_, sign_of_isGenuine isGenuine_mersenneKey long⟩
  have again := sign_congr "host" "id\",signature=\"" mersenneKey dates ▸ signed
  obtain ⟨signature, -, -, shown, others⟩ := unambiguous.2 _ _ _ _ _ signed
  exact ⟨same, (unambiguous.1 _ _ _ _ same).2, entry, signature, signed, again, shown,
    (others _ _ _ _ _ again rfl).2⟩

/-- A signature for a leap second inside a minute is one for the second after it. -/
theorem content_insideMinute :
    content "host" (HttpDate.render HttpDate.insideMinute) =
      content "host" (HttpDate.render HttpDate.fifthSecond) ∧
    HttpDate.insideMinute.unix ≠ HttpDate.fifthSecond.unix ∧
    HttpDate.insideMinute.wholeSecond ≠ HttpDate.fifthSecond.wholeSecond := by
  have dates : HttpDate.render HttpDate.insideMinute = HttpDate.render HttpDate.fifthSecond :=
    HttpDate.render_eq_render_iff.2 (by decide)
  exact ⟨by rw [dates], by decide, by decide⟩

end RequestAuth.Signing
