import RequestAuth.Digest.Sha2

/-!
# Keyed hashes

`Hmac.code` is the code by which a message is known to come from someone who has the key: the hash
of the key and of the hash of the key and the message, with the key masked in two ways. Of the key
only the states count that its two masks lead to, so that many messages can share them.
-/

namespace RequestAuth

/-- A key for hashing. -/
structure Hmac where
  /-- The hash function. -/
  variant : Sha2
  /-- The state after the key, masked for the message. -/
  inner : Sha2.Carry
  /-- The state after the key, masked for the hash of the message. -/
  outer : Sha2.Carry

namespace Hmac

/-- The key as a whole block: its hash if it is longer, filled up with zeros. -/
def blockKey (variant : Sha2) (key : Bytes) : Bytes :=
  let key := if variant.blockSize < key.length then variant.digest key else key
  key ++ List.replicate (variant.blockSize - key.length) 0

/-- The key that bytes stand for. -/
def ofKey (variant : Sha2) (key : Bytes) : Hmac :=
  let key := blockKey variant key
  { variant
    inner := variant.start.absorb (key.map (· ^^^ 0x36))
    outer := variant.start.absorb (key.map (· ^^^ 0x5C)) }

/-- The code of a message. -/
def code (hmac : Hmac) (message : Bytes) : Bytes :=
  let size := hmac.variant.blockSize
  hmac.variant.finish hmac.outer size (hmac.variant.finish hmac.inner size message)

end Hmac

end RequestAuth
