import RequestAuth.Proofs.Encoding.Base64
import RequestAuth.Proofs.Rsa.Signature
import RequestAuth.Signing

/-!
# Verifying one signature

Whoever has the public key, the host and the date can verify the text of a signature in a header
(`Signing.IsSignature`): whatever a private key signs can be verified so
(`Signing.isSignature_of_sign`).
-/

namespace RequestAuth.Signing

/-- The value of the authorization header, around the text of a signature. -/
def layout (keyId text : String) : String :=
  "Signature headers=\"" ++ signedParts ++ "\",keyId=\"" ++ keyId ++ "\",algorithm=\"" ++
    algorithm ++ "\"," ++ signatureMark ++ text ++ "\",version=\"" ++ version ++ "\""

theorem header_eq (keyId : String) (signature : Bytes) :
    header keyId signature = layout keyId (Base64.encode signature) :=
  rfl

/-- What stands before the key id. -/
def opening : String := "Signature headers=\"" ++ signedParts ++ "\",keyId=\""

theorem opening_prefix_layout (keyId text : String) :
    opening.toList ++ keyId.toList <+: (layout keyId text).toList := by
  have more {a : String} (b : String) (h : opening.toList ++ keyId.toList <+: a.toList) :
      opening.toList ++ keyId.toList <+: (a ++ b).toList := by
    rw [String.toList_append]
    exact h.trans (List.prefix_append _ _)
  -- eight parts follow the key id
  refine more _ (more _ (more _ (more _ (more _ (more _ (more _ (more _ ?_)))))))
  change _ <+: (opening ++ keyId).toList
  exact ⟨[], by rw [List.append_nil, String.toList_append]⟩

/-- The text stands for a signature that the key can be used to verify. -/
structure IsSignature (key : Rsa.PublicKey) (host date text : String) (signature : Bytes) :
    Prop where
  /-- The text ends at the quote after it. -/
  unquoted : '"' ∉ text.toList
  decoded : Base64.decode? text = some signature
  length : signature.length = key.size
  accepted : key.accepts (Utf8.bytes (content host date)) signature = true

theorem isSignature_of_sign {key : Rsa.PrivateKey} {host date : String} {signature : Bytes}
    (h : key.sign (Utf8.bytes (content host date)) = .ok signature) :
    IsSignature key.publicKey host date (Base64.encode signature) signature := by
  have accepted := Rsa.PrivateKey.accepts_of_sign h
  refine ⟨Base64.not_mem_encode (by decide) (by decide), Base64.decode?_encode signature, ?_,
    accepted⟩
  simp only [Rsa.PublicKey.accepts, decide_eq_true_eq] at accepted
  exact accepted.1

theorem sign_eq_ok {host keyId : String} {key : Rsa.PrivateKey} {time : DateTime}
    {entry : DatedSignature} (h : sign host keyId key time = .ok entry) :
    ∃ signature, key.sign (Utf8.bytes (content host entry.date)) = .ok signature ∧
      entry = ⟨header keyId signature, HttpDate.render time⟩ := by
  unfold sign at h
  dsimp only at h
  split at h
  · next signature hs =>
    cases h
    exact ⟨signature, hs, rfl⟩
  · cases h

end RequestAuth.Signing
