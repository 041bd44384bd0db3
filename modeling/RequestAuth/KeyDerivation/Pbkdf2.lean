import RequestAuth.Digest.Hmac

/-!
# Keys from passwords by repeated hashing

Each block of the key is the sum, bit by bit, of a chain of keyed hashes that begins with the salt
and the number of the block.
-/

namespace RequestAuth.Pbkdf2

/-- The sum of the given number of further hashes in a chain, after `last`. -/
def chain (password : Hmac) : Nat → Bytes → Bytes → Bytes
  | 0, _, total => total
  | more + 1, last, total =>
    let next := password.code last
    chain password more next (Bytes.xor total next)

/-- A block of the key. -/
def block (password : Hmac) (salt : Bytes) (iterations number : Nat) : Bytes :=
  let first := password.code (salt ++ Bytes.ofNatWidth 4 number)
  chain password (iterations - 1) first first

/-- The key of the given length for a password and a salt. -/
def key (variant : Sha2) (password salt : Bytes) (iterations length : Nat) : Bytes :=
  let blocks := (length + variant.size - 1) / variant.size
  let password := Hmac.ofKey variant password
  ((List.range blocks).flatMap fun i => block password salt iterations (i + 1)).take length

end RequestAuth.Pbkdf2
