import RequestAuth.Proofs.Encoding.Base64
import RequestAuth.Proofs.Json.Grammar
import RequestAuth.Proofs.Json.ReadBack
import RequestAuth.Proofs.Text.Utf8
import RequestAuth.Provider.Resource

/-!
# What a session token claims

A token whose middle part is the base64 form of a JSON object has exactly the members of the object
for claims: strings as they are, and other values in a text that is read back as the same value.
A token with more parts or fewer, or whose middle part is no such form or no object, has no claims,
and its credential is invalid (`Provider.tokenClaims_lossless`).
-/

namespace RequestAuth.Provider

open JsonValue

variable {token header payload signature : String} {bytes : Bytes} {depth k : Nat}
  {value : JsonValue} {members : List (String × JsonValue)} {claims : List (String × String)}

/-! ## Tokens and claims -/

/-- A token of three parts. -/
def tokenOf (header payload signature : String) : String :=
  header ++ "." ++ payload ++ "." ++ signature

/-- The form of the bytes for URLs, with any number of padding characters. -/
def payloadOf (bytes : Bytes) (k : Nat) : String :=
  Base64.encodeUrl bytes ++ String.ofList (List.replicate k '=')

/-- The text of a claim tells its value: that of a string is the string, and that of any other value
is its JSON without blanks, with the names in order, which is read back as the same value. -/
inductive Tells : JsonValue → String → Prop
  | string (text : String) : Tells (.string text) text
  | json {value written : JsonValue} (other : ∀ text, value ≠ .string text)
    (same : value.Same written) (sorted : written.IsSorted)
    (back : JsonValue.read? claimsDepth written.compact.toList = some written) :
    Tells value written.compact

/-- The claims are those of the members: one for each name, with a text that tells its value. -/
structure ClaimsOf (members : List (String × JsonValue)) (claims : List (String × String)) :
    Prop where
  /-- There is one claim for each name. -/
  names : (claims.map Prod.fst).Perm (members.map Prod.fst)
  /-- Each claim tells the value of its name. -/
  texts : ∀ member ∈ members, ∃ text, (member.1, text) ∈ claims ∧ Tells member.2 text

/-- A token without claims: with more parts than three or fewer, with a payload that is not in
base64, or with one that is not a JSON object. -/
inductive IsUnreadable : String → Prop
  | parts {token : String} (h : token.toList.count '.' ≠ 2) : IsUnreadable token
  | payload {payload : String} (header signature : String)
    (h : ∀ bytes k, payload ≠ payloadOf bytes k) : IsUnreadable (tokenOf header payload signature)
  | object {bytes : Bytes} (header signature : String) (k : Nat)
    (h : ∀ text, JsonText.IsObject text → bytes ≠ Utf8.encode text) :
    IsUnreadable (tokenOf header (payloadOf bytes k) signature)

/-! ## Parts -/

theorem toList_tokenOf (header payload signature : String) :
    (tokenOf header payload signature).toList =
      header.toList ++ '.' :: (payload.toList ++ '.' :: signature.toList) := by
  simp [tokenOf, String.toList_append]

theorem tokenClaims_tokenOf (hh : '.' ∉ header.toList) (hp : '.' ∉ payload.toList)
    (hs : '.' ∉ signature.toList) :
    tokenClaims (tokenOf header payload signature) = readClaims payload := by
  rw [tokenClaims, toList_tokenOf, List.splitOn_append_cons_self_of_not_mem hh,
    List.splitOn_append_cons_self_of_not_mem hp, List.splitOn_eq_singleton hs]
  exact congrArg readClaims String.ofList_toList

theorem tokenClaims_of_count (h : token.toList.count '.' ≠ 2) :
    tokenClaims token = .error .malformedToken := by
  unfold tokenClaims
  split
  · rename_i parts
    have three := Text.length_splitOn '.' token.toList
    rw [parts] at three
    exact absurd (Nat.succ.inj three).symm h
  · rfl

/-- A payload without claims is refused, or its token is refused for its parts before. -/
theorem tokenClaims_of_readClaims (header signature : String) {e : Error}
    (h : readClaims payload = .error e) (he : e.kind = .credentialInvalid) :
    ∃ e, tokenClaims (tokenOf header payload signature) = .error e ∧
      e.kind = .credentialInvalid := by
  by_cases two : (tokenOf header payload signature).toList.count '.' = 2
  · have dots := two
    rw [toList_tokenOf, List.count_append, List.count_cons_self, List.count_append,
      List.count_cons_self] at dots
    have hh : header.toList.count '.' = 0 := by omega
    have hp : payload.toList.count '.' = 0 := by omega
    have hs : signature.toList.count '.' = 0 := by omega
    rw [List.count_eq_zero] at hh hp hs
    exact ⟨e, (tokenClaims_tokenOf hh hp hs).trans h, he⟩
  · exact ⟨_, tokenClaims_of_count two, rfl⟩

/-! ## Payloads -/

theorem toList_payloadOf (bytes : Bytes) (k : Nat) :
    (payloadOf bytes k).toList = (Base64.encodeUrl bytes).toList ++ List.replicate k '=' := by
  rw [payloadOf, String.toList_append, String.toList_ofList]

theorem decodeUrl?_payloadOf (bytes : Bytes) (k : Nat) :
    Base64.decodeUrl? (payloadOf bytes k) = some bytes :=
  Base64.decodeUrl?_eq_some_iff.2 ⟨k, toList_payloadOf bytes k⟩

theorem not_mem_payloadOf (bytes : Bytes) (k : Nat) : '.' ∉ (payloadOf bytes k).toList := by
  rw [toList_payloadOf, List.mem_append, not_or]
  refine ⟨Base64.not_mem_encodeUrl (by decide), fun hm => ?_⟩
  exact absurd (List.eq_of_mem_replicate hm) (by decide)

theorem readClaims_of_ne (h : ∀ bytes k, payload ≠ payloadOf bytes k) :
    readClaims payload = .error .undecodableToken := by
  unfold readClaims
  split
  · rfl
  · rename_i bytes read
    obtain ⟨k, written⟩ := Base64.decodeUrl?_eq_some_iff.1 read
    have same : payload = payloadOf bytes k := by
      rw [← String.toList_inj, written, toList_payloadOf]
    exact absurd same (h bytes k)

theorem readClaims_of_not_isObject (h : ∀ text, JsonText.IsObject text → bytes ≠ Utf8.encode text) :
    readClaims (payloadOf bytes k) = .error .malformedClaims := by
  rw [readClaims, decodeUrl?_payloadOf]
  dsimp only
  split
  · rename_i members read
    obtain ⟨text, decoded, object⟩ := Option.bind_eq_some_iff.1 read
    have written := (Utf8.decode?_eq_some_iff.1 decoded).symm
    exact absurd written (h text (JsonText.isObject_of_read? object))
  · rfl

theorem tokenClaims_of_isUnreadable (h : IsUnreadable token) :
    ∃ e, tokenClaims token = .error e ∧ e.kind = .credentialInvalid := by
  cases h with
  | parts h => exact ⟨_, tokenClaims_of_count h, rfl⟩
  | payload header signature h =>
    exact tokenClaims_of_readClaims header signature (readClaims_of_ne h) rfl
  | object header signature k h =>
    exact tokenClaims_of_readClaims header signature (readClaims_of_not_isObject h) rfl

/-! ## Objects -/

theorem tells_claimText (h : value.IsPlain depth) (hd : depth ≤ claimsDepth) :
    Tells value (claimText value.sorted) := by
  have plain := (h.mono hd).sorted
  have sorted := isSorted_sorted h
  have back : JsonValue.read? claimsDepth value.sorted.compact.toList = some value.sorted := by
    rw [compact, String.toList_ofList, read?_compactChars plain, sorted_of_isSorted sorted]
  have same := same_sorted h
  cases h with
  | string text => exact .string text
  | null | bool | integer | array | object =>
    exact .json (fun _ he => nomatch he) same sorted back

theorem readClaims_payloadOf (h : (JsonValue.object members).IsPlain depth)
    (hd : depth ≤ claimsDepth) :
    readClaims (payloadOf (Utf8.bytes (JsonValue.object members).compact) k) =
      .ok ((sortMembers (sortedMembers members)).map fun (name, value) =>
        (name, claimText value)) := by
  have read : JsonValue.read? claimsDepth (compactChars (.object members)) =
      some (.object (sortMembers (sortedMembers members))) := read?_compactChars (h.mono hd)
  rw [readClaims, decodeUrl?_payloadOf, Utf8.bytes, compact, String.toList_ofList]
  dsimp only
  rw [Utf8.decode?_encode, Option.bind_some, read]

theorem claimsOf_sorted (h : (JsonValue.object members).IsPlain depth) (hd : depth ≤ claimsDepth) :
    ClaimsOf members
      ((sortMembers (sortedMembers members)).map fun (name, value) => (name, claimText value)) := by
  cases h with
  | object names plain =>
    have perm := sortedMembers_perm names
    constructor
    · have same := perm.map Prod.fst
      rw [names_sortedMembers] at same
      rwa [List.map_map]
    · intro member hm
      refine ⟨claimText member.2.sorted, List.mem_map.2 ⟨(member.1, member.2.sorted), ?_, rfl⟩, ?_⟩
      · exact perm.mem_iff.2 (mem_sortedMembers.2 ⟨member, hm, rfl⟩)
      · exact tells_claimText (plain member hm) (Nat.le_of_succ_le hd)

/-- The claims of a token tell the whole object in it, and a token without an object is refused. -/
theorem tokenClaims_lossless :
    (∀ depth members header signature k, depth ≤ claimsDepth →
      (JsonValue.object members).IsPlain depth → '.' ∉ header.toList → '.' ∉ signature.toList →
      ∃ claims, tokenClaims (tokenOf header
        (payloadOf (Utf8.bytes (JsonValue.object members).compact) k) signature) = .ok claims ∧
        ClaimsOf members claims) ∧
    ∀ token, IsUnreadable token →
      ∃ e, tokenClaims token = .error e ∧ e.kind = .credentialInvalid := by
  refine ⟨fun depth members header signature k hd plain hh hs => ?_,
    fun token h => tokenClaims_of_isUnreadable h⟩
  refine ⟨_, ?_, claimsOf_sorted plain hd⟩
  rw [tokenClaims_tokenOf hh (not_mem_payloadOf _ _) hs, readClaims_payloadOf plain hd]

/-- Members of several kinds, out of order. -/
def nestedMembers : List (String × JsonValue) :=
  [("ü", .array [.null, .object [("y", .integer (-1)), ("x", .bool true)]]),
    ("a", .string "\"\n")]

theorem isPlain_nestedMembers : (JsonValue.object nestedMembers).IsPlain 3 := by
  have object : (JsonValue.object [("y", .integer (-1)), ("x", .bool true)]).IsPlain 1 := by
    refine .object (by decide) fun member hm => ?_
    obtain rfl | rfl := List.mem_pair.1 hm
    · exact .integer (by decide)
    · exact .bool true
  refine .object (by decide) fun member hm => ?_
  obtain rfl | rfl := List.mem_pair.1 hm
  · refine .array fun item hi => ?_
    obtain rfl | rfl := List.mem_pair.1 hi
    · exact .null
    · exact object
  · exact .string _

theorem tokenClaims_lossless_nested :
    (∃ claims, tokenClaims (tokenOf "h"
      (payloadOf (Utf8.bytes (JsonValue.object nestedMembers).compact) 2) "") = .ok claims ∧
      ClaimsOf nestedMembers claims) ∧
    ∃ e, tokenClaims "a.b.c.d" = .error e ∧ e.kind = .credentialInvalid :=
  ⟨tokenClaims_lossless.1 3 nestedMembers "h" "" 2 (by decide) isPlain_nestedMembers (by decide)
      (by decide),
    tokenClaims_lossless.2 "a.b.c.d" (.parts (by decide))⟩

example : tokenClaims (tokenOf "h"
    (payloadOf (Utf8.bytes (JsonValue.object nestedMembers).compact) 2) "") =
      .ok [("a", "\"\n"), ("ü", "[null,\x7b\"x\":true,\"y\":-1\x7d]")] := by
  rw [tokenClaims_tokenOf (by decide) (not_mem_payloadOf _ _) (by decide),
    readClaims_payloadOf isPlain_nestedMembers (by decide)]
  rfl

end RequestAuth.Provider
