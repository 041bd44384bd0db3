import Mathlib.Algebra.Order.Group.Nat
import Mathlib.Tactic.Ring
import RequestAuth.Bytes

/-!
# Numbers as bytes

The first byte of a byte string counts most (`Bytes.toNat_cons`), and a byte string writes a number
below a power of 256 (`Bytes.toNat_lt`). The bytes of a number write that number, modulo such a
power if their count is given (`Bytes.toNat_ofNatWidth`) and exactly if it is not
(`Bytes.toNat_ofNat`).
-/

namespace RequestAuth.Bytes

theorem toNat_cons (b : UInt8) (bytes : Bytes) :
    toNat (b :: bytes) = b.toNat * 256 ^ bytes.length + toNat bytes := by
  have fold (bytes : Bytes) (n : Nat) :
      bytes.foldl (fun n b => n * 256 + b.toNat) n = n * 256 ^ bytes.length + toNat bytes := by
    induction bytes generalizing n with
    | nil => simp [toNat]
    | cons b bytes ih =>
      rw [toNat, List.foldl_cons, List.foldl_cons, ih, ih (0 * 256 + b.toNat), List.length_cons,
        Nat.pow_succ]
      ring
  rw [toNat, List.foldl_cons, fold, Nat.zero_mul, Nat.zero_add]

theorem toNat_lt (bytes : Bytes) : bytes.toNat < 256 ^ bytes.length := by
  induction bytes with
  | nil => decide
  | cons b bytes ih =>
    have := b.toNat_lt
    calc toNat (b :: bytes) = b.toNat * 256 ^ bytes.length + toNat bytes := toNat_cons b bytes
      _ < b.toNat * 256 ^ bytes.length + 256 ^ bytes.length := Nat.add_lt_add_left ih _
      _ = (b.toNat + 1) * 256 ^ bytes.length := by ring
      _ ≤ 256 * 256 ^ bytes.length := Nat.mul_le_mul_right _ (by omega)
      _ = 256 ^ (bytes.length + 1) := by ring

/-! ## Sums -/

@[simp] theorem length_xor (a b : Bytes) : (xor a b).length = min a.length b.length :=
  List.length_zipWith

/-- What is added twice cancels out. -/
theorem xor_xor {a b : Bytes} (h : b.length ≤ a.length) : xor a (xor a b) = b := by
  induction a generalizing b with
  | nil =>
    rw [List.length_eq_zero_iff.1 (Nat.le_zero.1 h)]
    rfl
  | cons x a ih =>
    cases b with
    | nil => rfl
    | cons y b =>
      have first : x ^^^ (x ^^^ y) = y := by rw [← UInt8.xor_assoc, UInt8.xor_self, UInt8.zero_xor]
      have later : xor a (xor a b) = b := ih (Nat.le_of_succ_le_succ h)
      simp only [xor, List.zipWith_cons_cons, first] at later ⊢
      rw [later]

/-! ## A given count of bytes -/

@[simp] theorem length_ofNatWidth (width n : Nat) : (ofNatWidth width n).length = width := by
  induction width with
  | zero => rfl
  | succ width ih => rw [ofNatWidth, List.length_cons, ih]

@[simp] theorem toNat_ofNatWidth (width n : Nat) :
    toNat (ofNatWidth width n) = n % 256 ^ width := by
  induction width with
  | zero => simp [ofNatWidth, toNat, Nat.mod_one]
  | succ width ih =>
    have shift : n >>> (8 * width) = n / 256 ^ width := by
      rw [Nat.shiftRight_eq_div_pow, Nat.pow_mul]
    have digit : (UInt8.ofNat (n / 256 ^ width)).toNat = n / 256 ^ width % 256 :=
      UInt8.toNat_ofNat'
    rw [ofNatWidth, toNat_cons, length_ofNatWidth, ih, shift, digit, Nat.pow_succ, Nat.mod_mul,
      Nat.mul_comm, Nat.add_comm]

/-! ## As few bytes as possible -/

theorem toNat_ofNatOnto (n : Nat) (rest : Bytes) :
    toNat (ofNatOnto n rest) = n * 256 ^ rest.length + toNat rest := by
  fun_induction ofNatOnto n rest with
  | case1 rest => rw [Nat.zero_mul, Nat.zero_add]
  | case2 n rest hn ih =>
    have digit : (UInt8.ofNat (n % 256)).toNat = n % 256 :=
      UInt8.toNat_ofNat_of_lt' (Nat.mod_lt _ (by decide))
    calc toNat (ofNatOnto (n / 256) (UInt8.ofNat (n % 256) :: rest))
        = n / 256 * 256 ^ (rest.length + 1) + (n % 256 * 256 ^ rest.length + toNat rest) := by
          rw [ih, toNat_cons, digit, List.length_cons]
      _ = (256 * (n / 256) + n % 256) * 256 ^ rest.length + toNat rest := by ring
      _ = n * 256 ^ rest.length + toNat rest := by rw [Nat.div_add_mod]

@[simp] theorem toNat_ofNat (n : Nat) : toNat (ofNat n) = n := by
  rw [ofNat, toNat_ofNatOnto]
  simp [toNat]

theorem length_ofNatOnto_le {k n : Nat} (h : n < 256 ^ k) (rest : Bytes) :
    (ofNatOnto n rest).length ≤ k + rest.length := by
  induction k generalizing n rest with
  | zero =>
    have zero : n = 0 := by simpa using h
    rw [zero, ofNatOnto, if_pos rfl, Nat.zero_add]
  | succ k ih =>
    rw [ofNatOnto]
    split
    · exact Nat.le_add_left _ _
    · have shorter : n / 256 < 256 ^ k := by
        rw [Nat.pow_succ'] at h
        exact Nat.div_lt_of_lt_mul h
      have later := ih shorter (UInt8.ofNat (n % 256) :: rest)
      rw [List.length_cons] at later
      omega

theorem length_ofNat_le {k n : Nat} (h : n < 256 ^ k) : (ofNat n).length ≤ k :=
  length_ofNatOnto_le h []

end RequestAuth.Bytes
