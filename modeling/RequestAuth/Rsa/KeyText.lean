import RequestAuth.Cipher.Password
import RequestAuth.Encoding.Pem
import RequestAuth.Error
import RequestAuth.Rsa.KeyDocument
import RequestAuth.Text.Blank

/-!
# Private keys as text

A private key is given as a labelled text document, whose label tells its form: the numbers alone,
the numbers wrapped, or the wrapped numbers encrypted under a passphrase. `PrivateKey.ofText` reads
any of the three, and `KeyHolder` keeps the key that was read last.
-/

namespace RequestAuth.Rsa

/-! ## Labels -/

/-- The label of the numbers of a key. -/
def sequenceLabel : String := "RSA PRIVATE KEY"

/-- The label of the wrapped numbers of a key. -/
def wrappedLabel : String := "PRIVATE KEY"

/-- The label of the encrypted wrapping. -/
def encryptedLabel : String := "ENCRYPTED PRIVATE KEY"

/-- What a text contains if it holds a document with the given label. -/
def labelLine (label : String) : List Char :=
  Pem.opening ++ label.toList ++ Pem.dashes

/-- What a text contains if its numbers are encrypted in the legacy way. -/
def legacyMark : List Char := "Proc-Type: 4,ENCRYPTED".toList

/-! ## Reading -/

namespace PrivateKey

/-- The private key in a document that is encrypted under a passphrase. -/
def ofEncrypted? (passphrase : String) (text : List Char) : Option PrivateKey := do
  ofWrapped? (← Password.decrypt? (Utf8.bytes passphrase) (← Pem.read? encryptedLabel text))

/-- The private key in a text; blanks around it do not count. -/
def ofText (text : String) (passphrase : Option String) : Except Error PrivateKey :=
  let text := Text.trim text.toList
  if Text.contains (labelLine encryptedLabel) text then
    match passphrase with
    | none => .error .missingPassphrase
    | some passphrase => match ofEncrypted? passphrase text with
      | some key => .ok key
      | none => .error .undecryptableKey
  else if Text.contains (labelLine sequenceLabel) text then
    if Text.contains legacyMark text then .error .legacyEncryption
    else match Pem.read? sequenceLabel text >>= ofSequence? with
      | some key => .ok key
      | none => .error .unreadableKey
  else match Pem.read? wrappedLabel text >>= ofWrapped? with
    | some key => .ok key
    | none => .error .unreadableKey

end PrivateKey

/-! ## The current key -/

/-- The private key that was read last, if one was. -/
structure KeyHolder where
  /-- The key. -/
  current : Option PrivateKey := none

namespace KeyHolder

/-- Reads a private key and makes it the current one; if it cannot be read, nothing changes. -/
def reload (holder : KeyHolder) (text : String) (passphrase : Option String) :
    Except Error PrivateKey × KeyHolder :=
  match PrivateKey.ofText text passphrase with
  | .ok key => (.ok key, ⟨some key⟩)
  | .error e => (.error e, holder)

/-- The text shown for a key holder when debugging. -/
def debugText (holder : KeyHolder) : String :=
  Text.record "KeyMaterial" [("loaded", toString holder.current.isSome)]

end KeyHolder

end RequestAuth.Rsa
