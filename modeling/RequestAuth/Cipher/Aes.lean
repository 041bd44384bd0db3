import RequestAuth.Digest.Sha2

/-!
# The AES cipher

`Aes.decryptChain` decrypts a byte string whose blocks were chained, each to the one before it and
the first to an initial vector, under a key of 16, 24 or 32 bytes. `Aes.unpad?` takes off the bytes
that filled up the last block, each of which holds their number.
-/

namespace RequestAuth.Aes

/-! ## Bytes as polynomials -/

/-- A byte times the polynomial `x`. -/
def double (b : UInt8) : UInt8 :=
  if b < 0x80 then b <<< 1 else (b <<< 1) ^^^ 0x1B

/-- The product of two bytes, from the given number of bits of the second. -/
def mulBits : Nat → UInt8 → UInt8 → UInt8
  | 0, _, _ => 0
  | bits + 1, a, b => (if b % 2 = 1 then a else 0) ^^^ mulBits bits (double a) (b >>> 1)

/-- The product of two bytes. -/
def mul (a b : UInt8) : UInt8 := mulBits 8 a b

/-- The inverse of a byte, zero for zero. -/
def inverse (b : UInt8) : UInt8 :=
  (List.range 7).foldl (fun (x : UInt8 × UInt8) _ =>
    let square := mul x.1 x.1
    (square, mul x.2 square)) (b, 1) |>.2

/-- A byte rotated to the left. -/
def rotate (b : UInt8) (n : UInt8) : UInt8 := (b <<< n) ||| (b >>> (8 - n))

/-! ## Substitution -/

/-- What a byte is substituted by. -/
def substitute (b : UInt8) : UInt8 :=
  let i := inverse b
  i ^^^ rotate i 1 ^^^ rotate i 2 ^^^ rotate i 3 ^^^ rotate i 4 ^^^ 0x63

/-- What each byte is substituted by. -/
def box : Array UInt8 := (Array.range 256).map fun n => substitute (UInt8.ofNat n)

/-- Which byte each byte substitutes. -/
def inverseBox : Array UInt8 :=
  (List.range 256).foldl (fun table n => table.setIfInBounds (box.getD n 0).toNat (UInt8.ofNat n))
    (Array.replicate 256 0)

/-- A byte of a table. -/
def look (table : Array UInt8) (b : UInt8) : UInt8 := table.getD b.toNat 0

/-! ## Key schedule -/

/-- The powers of `x` that the key schedule adds, in order. -/
def roundConstants : Nat → UInt8 → List UInt8
  | 0, _ => []
  | more + 1, c => c :: roundConstants more (double c)

/-- The words of the key schedule, each of four bytes; `size` is the number of words of the key. -/
def expand (size : Nat) : Nat → Array Bytes → Array Bytes
  | 0, words => words
  | more + 1, words =>
    let i := words.size
    let last := words.getD (i - 1) []
    let changed :=
      if i % size = 0 then
        let constant := (roundConstants 15 1)[i / size - 1]?.getD 0
        match (last.drop 1 ++ last.take 1).map (look box) with
        | b :: rest => (b ^^^ constant) :: rest
        | [] => []
      else if 6 < size ∧ i % size = 4 then last.map (look box)
      else last
    expand size more (words.push (Bytes.xor (words.getD (i - size) []) changed))

/-- The keys of the rounds, from the first. -/
def roundKeys (key : Bytes) : List Bytes :=
  let size := key.length / 4
  let words := expand size (4 * (size + 7) - size) (Sha2.pieces 4 key).toArray
  (Sha2.pieces 4 words.toList).map List.flatten

/-! ## Decrypting a block -/

/-- Moves the rows of a block back to their places. -/
def unshift (block : Bytes) : Bytes :=
  let bytes := block.toArray
  (List.range 16).map fun i => bytes.getD ((i + 16 - 4 * (i % 4)) % 16) 0

/-- Undoes the mixing of a column. -/
def unmixColumn : Bytes → Bytes
  | [a, b, c, d] => [
      mul a 14 ^^^ mul b 11 ^^^ mul c 13 ^^^ mul d 9,
      mul a 9 ^^^ mul b 14 ^^^ mul c 11 ^^^ mul d 13,
      mul a 13 ^^^ mul b 9 ^^^ mul c 14 ^^^ mul d 11,
      mul a 11 ^^^ mul b 13 ^^^ mul c 9 ^^^ mul d 14]
  | column => column

/-- Undoes the mixing of the columns of a block. -/
def unmix (block : Bytes) : Bytes := (Sha2.pieces 4 block).flatMap unmixColumn

/-- Undoes the rounds with the given keys, the last round's key first. -/
def unround (block : Bytes) : List Bytes → Bytes
  | [] => block
  | [key] => Bytes.xor ((unshift block).map (look inverseBox)) key
  | key :: rest => unround (unmix (Bytes.xor ((unshift block).map (look inverseBox)) key)) rest

/-- The block that a block was encrypted from, given the keys of the rounds, the last one first. -/
def decryptBlock (keys : List Bytes) (block : Bytes) : Bytes :=
  match keys with
  | [] => block
  | key :: rest => unround (Bytes.xor block key) rest

/-! ## Decrypting a chain -/

/-- The byte string that chained blocks were encrypted from. -/
def decryptChain (key iv ciphertext : Bytes) : Bytes :=
  let keys := (roundKeys key).reverse
  let blocks := Sha2.pieces 16 ciphertext
  (List.zipWith (fun before block => Bytes.xor (decryptBlock keys block) before) (iv :: blocks)
    blocks).flatten

/-- A byte string without the bytes that filled up its last block. -/
def unpad? (bytes : Bytes) : Option Bytes :=
  match bytes.getLast? with
  | none => none
  | some last =>
    let n := last.toNat
    let kept := bytes.length - n
    if 1 ≤ n ∧ n ≤ 16 ∧ n ≤ bytes.length ∧ (bytes.drop kept).all (· = last) then
      some (bytes.take kept)
    else none

end RequestAuth.Aes
