import RequestAuth.Bytes

/-!
# The SHA-2 family

Four hash functions share one construction, over words of 32 or of 64 bits. Their constants are the
first bits of the fractional parts of the square and cube roots of the first primes.
`Sha2.digest` hashes a message with any of the four.
-/

namespace RequestAuth

/-- A member of the family, named for the number of bits of its hashes. -/
inductive Sha2 where
  | sha224
  | sha256
  | sha384
  | sha512
  deriving DecidableEq, Repr

namespace Sha2

/-! ## Constants -/

/-- Whether a number above 1 has no divisor but 1 and itself. -/
def isPrime (n : Nat) : Bool :=
  2 ≤ n ∧ (List.range n).all fun d => d < 2 ∨ n % d ≠ 0

/-- The first eighty primes. -/
def primes : List Nat := (List.range 410).filter isPrime

/-- The greatest number, with `r` for its bits above the given number of bits, whose `k`th power is
at most `n`. -/
def rootFrom (k n : Nat) : Nat → Nat → Nat
  | 0, r => r
  | bits + 1, r =>
    let candidate := r + Nat.pow 2 bits
    rootFrom k n bits (if Nat.pow candidate k ≤ n then candidate else r)

/-- The first 64 bits of the fractional part of the `k`th root of `n`. -/
def fractionOfRoot (k n : Nat) : Nat :=
  rootFrom k (n * Nat.pow 2 (64 * k)) 80 0 % Nat.pow 2 64

/-- The first bits of the cube roots of the first eighty primes. -/
def cubeRoots : List Nat := primes.map (fractionOfRoot 3)

/-- The first bits of the square roots of the first sixteen primes. -/
def squareRoots : List Nat := (primes.take 16).map (fractionOfRoot 2)

/-! ## Words -/

/-- The words that a hash function computes with, and the amounts that it rotates and shifts them
by. -/
class Word (ω : Type) where
  /-- The number of bytes of a word. -/
  width : Nat
  /-- The number of rounds for a block. -/
  rounds : Nat
  /-- The word without ones. -/
  zero : ω
  /-- The words that bytes write, each with its most significant byte first. -/
  ofBytes : Bytes → List ω
  /-- The bytes of a word, the most significant one first, put before others. -/
  bytesOnto : ω → Bytes → Bytes
  /-- The sum, modulo the range of words. -/
  add : ω → ω → ω
  /-- Selects bits of the second word where the first has ones, and of the third elsewhere. -/
  choose : ω → ω → ω → ω
  /-- The bits that two of three words have. -/
  majority : ω → ω → ω → ω
  /-- The first mixing of a round, of the last word but three. -/
  mixLow : ω → ω
  /-- The second mixing of a round, of the first word. -/
  mixHigh : ω → ω
  /-- The mixing of the schedule's word fifteen places back. -/
  spreadFar : ω → ω
  /-- The mixing of the schedule's word two places back. -/
  spreadNear : ω → ω

/-- A word of 32 bits, rotated to the right. -/
@[inline] def rotate32 (x : UInt32) (n : UInt32) : UInt32 := (x >>> n) ||| (x <<< (32 - n))

/-- A word of 64 bits, rotated to the right. -/
@[inline] def rotate64 (x : UInt64) (n : UInt64) : UInt64 := (x >>> n) ||| (x <<< (64 - n))

/-- The words of 32 bits that bytes write. -/
def words32 : Bytes → List UInt32
  | a :: b :: c :: d :: rest =>
    (a.toUInt32 <<< 24 ||| b.toUInt32 <<< 16 ||| c.toUInt32 <<< 8 ||| d.toUInt32) :: words32 rest
  | _ => []

/-- The words of 64 bits that bytes write. -/
def words64 : Bytes → List UInt64
  | a :: b :: c :: d :: e :: f :: g :: h :: rest =>
    (a.toUInt64 <<< 56 ||| b.toUInt64 <<< 48 ||| c.toUInt64 <<< 40 ||| d.toUInt64 <<< 32 |||
      e.toUInt64 <<< 24 ||| f.toUInt64 <<< 16 ||| g.toUInt64 <<< 8 ||| h.toUInt64) :: words64 rest
  | _ => []

instance : Word UInt32 where
  width := 4
  rounds := 64
  zero := 0
  ofBytes := words32
  bytesOnto x rest :=
    (x >>> 24).toUInt8 :: (x >>> 16).toUInt8 :: (x >>> 8).toUInt8 :: x.toUInt8 :: rest
  add := (· + ·)
  choose x y z := (x &&& y) ^^^ (~~~x &&& z)
  majority x y z := (x &&& y) ^^^ (x &&& z) ^^^ (y &&& z)
  mixLow x := rotate32 x 6 ^^^ rotate32 x 11 ^^^ rotate32 x 25
  mixHigh x := rotate32 x 2 ^^^ rotate32 x 13 ^^^ rotate32 x 22
  spreadFar x := rotate32 x 7 ^^^ rotate32 x 18 ^^^ (x >>> 3)
  spreadNear x := rotate32 x 17 ^^^ rotate32 x 19 ^^^ (x >>> 10)

instance : Word UInt64 where
  width := 8
  rounds := 80
  zero := 0
  ofBytes := words64
  bytesOnto x rest :=
    (x >>> 56).toUInt8 :: (x >>> 48).toUInt8 :: (x >>> 40).toUInt8 :: (x >>> 32).toUInt8 ::
      (x >>> 24).toUInt8 :: (x >>> 16).toUInt8 :: (x >>> 8).toUInt8 :: x.toUInt8 :: rest
  add := (· + ·)
  choose x y z := (x &&& y) ^^^ (~~~x &&& z)
  majority x y z := (x &&& y) ^^^ (x &&& z) ^^^ (y &&& z)
  mixLow x := rotate64 x 14 ^^^ rotate64 x 18 ^^^ rotate64 x 41
  mixHigh x := rotate64 x 28 ^^^ rotate64 x 34 ^^^ rotate64 x 39
  spreadFar x := rotate64 x 1 ^^^ rotate64 x 8 ^^^ (x >>> 7)
  spreadNear x := rotate64 x 19 ^^^ rotate64 x 61 ^^^ (x >>> 6)

/-- The constants of the rounds, cut down to words of 32 bits. -/
def constants32 : List UInt32 := (cubeRoots.take 64).map fun n => UInt32.ofNat (n / Nat.pow 2 32)

/-- The constants of the rounds. -/
def constants64 : List UInt64 := cubeRoots.map UInt64.ofNat

/-! ## Blocks -/

/-- The eight words that a hash function carries from block to block. -/
structure State (ω : Type) where
  a : ω
  b : ω
  c : ω
  d : ω
  e : ω
  f : ω
  g : ω
  h : ω

variable {ω : Type}

/-- The state with the given words; `zero` stands for one that is missing. -/
def State.ofWords (zero : ω) (words : List ω) : State ω :=
  let word (i : Nat) : ω := words[i]?.getD zero
  ⟨word 0, word 1, word 2, word 3, word 4, word 5, word 6, word 7⟩

/-- The words of a state, in order. -/
def State.words (s : State ω) : List ω := [s.a, s.b, s.c, s.d, s.e, s.f, s.g, s.h]

/-- The word by word sum of two states. -/
@[specialize] def State.add [Word ω] (s t : State ω) : State ω where
  a := Word.add s.a t.a
  b := Word.add s.b t.b
  c := Word.add s.c t.c
  d := Word.add s.d t.d
  e := Word.add s.e t.e
  f := Word.add s.f t.f
  g := Word.add s.g t.g
  h := Word.add s.h t.h

/-- A schedule with the given number of words more. -/
@[specialize] def extend [Word ω] : Nat → Array ω → Array ω
  | 0, schedule => schedule
  | more + 1, schedule =>
    let back (i : Nat) : ω := schedule.getD (schedule.size - i) Word.zero
    let near := Word.add (Word.spreadNear (back 2)) (back 7)
    let far := Word.add (Word.spreadFar (back 15)) (back 16)
    extend more (schedule.push (Word.add near far))

/-- The state after the rounds with the given constants and the words of a schedule from the `i`th
on, given the words of the state before them. -/
@[specialize] def rounds [Word ω] (schedule : Array ω) :
    List ω → Nat → ω → ω → ω → ω → ω → ω → ω → ω → State ω
  | [], _, a, b, c, d, e, f, g, h => ⟨a, b, c, d, e, f, g, h⟩
  | constant :: rest, i, a, b, c, d, e, f, g, h =>
    let mixed := Word.add (Word.add h (Word.mixLow e)) (Word.add (Word.choose e f g) constant)
    let t := Word.add mixed (schedule.getD i Word.zero)
    rounds schedule rest (i + 1)
      (Word.add t (Word.add (Word.mixHigh a) (Word.majority a b c))) a b c (Word.add d t) e f g

/-- The state after a block of sixteen words. -/
@[specialize] def compress [Word ω] (constants : List ω) (s : State ω) (block : List ω) : State ω :=
  let schedule := extend (Word.rounds ω - 16) block.toArray
  (rounds schedule constants 0 s.a s.b s.c s.d s.e s.f s.g s.h).add s

/-! ## Messages -/

/-- A list cut into pieces of the given length, the last of which may be shorter. -/
def pieces (length : Nat) (xs : List α) : List (List α) :=
  go xs.length xs
where
  /-- At most the given number of pieces. -/
  go : Nat → List α → List (List α)
    | 0, _ => []
    | _, [] => []
    | most + 1, xs => xs.take length :: go most (xs.drop length)

/-- The state after bytes that fill whole blocks. -/
@[specialize] def absorb [Word ω] (constants : List ω) (start : State ω) (blocks : Bytes) :
    State ω :=
  (pieces 16 (Word.ofBytes blocks : List ω)).foldl (compress constants) start

/-- The bytes of a state. -/
@[specialize] def State.bytes [Word ω] (s : State ω) : Bytes := s.words.foldr Word.bytesOnto []

/-- A message that comes after the given number of bytes in whole blocks, followed by a one bit,
zero bits and the length of all in bits, so that it fills whole blocks. -/
def padded (block before : Nat) (message : Bytes) : Bytes :=
  let width := block / 8
  let zeros := (block - (message.length + 1 + width) % block) % block
  message ++ 0x80 :: (List.replicate zeros 0 ++
    Bytes.ofNatWidth width (8 * (before + message.length)))

/-! ## The four functions -/

/-- The state before the first block, over words of 32 bits. -/
def start32 (words : List Nat) : State UInt32 := .ofWords 0 (words.map UInt32.ofNat)

/-- The state before the first block, over words of 64 bits. -/
def start64 (words : List Nat) : State UInt64 := .ofWords 0 (words.map UInt64.ofNat)

/-- The start of SHA-224. -/
def start224 : State UInt32 := start32 ((squareRoots.drop 8).map (· % Nat.pow 2 32))

/-- The start of SHA-256. -/
def start256 : State UInt32 := start32 ((squareRoots.take 8).map (· / Nat.pow 2 32))

/-- The start of SHA-384. -/
def start384 : State UInt64 := start64 (squareRoots.drop 8)

/-- The start of SHA-512. -/
def start512 : State UInt64 := start64 (squareRoots.take 8)

/-- The number of bytes of a hash. -/
def size : Sha2 → Nat
  | .sha224 => 28
  | .sha256 => 32
  | .sha384 => 48
  | .sha512 => 64

/-- The number of bytes of a block. -/
def blockSize : Sha2 → Nat
  | .sha224 | .sha256 => 64
  | .sha384 | .sha512 => 128

/-- The state of a hash function, over words of either size. -/
inductive Carry where
  | narrow (state : State UInt32)
  | wide (state : State UInt64)

/-- The state after bytes that fill whole blocks. -/
def Carry.absorb : Carry → Bytes → Carry
  | narrow state, blocks => narrow (Sha2.absorb constants32 state blocks)
  | wide state, blocks => wide (Sha2.absorb constants64 state blocks)

/-- The bytes of a state. -/
def Carry.bytes : Carry → Bytes
  | narrow state => state.bytes
  | wide state => state.bytes

/-- The state before the first block. -/
def start : Sha2 → Carry
  | .sha224 => .narrow start224
  | .sha256 => .narrow start256
  | .sha384 => .wide start384
  | .sha512 => .wide start512

/-- The hash of a message, given its end and the state after what comes before that, which is the
given number of bytes in whole blocks. -/
def finish (variant : Sha2) (carry : Carry) (before : Nat) (message : Bytes) : Bytes :=
  (carry.absorb (padded variant.blockSize before message)).bytes.take variant.size

/-- The hash of a message. -/
def digest (variant : Sha2) (message : Bytes) : Bytes :=
  variant.finish variant.start 0 message

end Sha2

end RequestAuth
