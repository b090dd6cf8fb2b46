import Mathlib.Algebra.Group.Nat.Defs
import Mathlib.Data.List.Basic
import Mathlib.Tactic.Common

/-!
# The encodings of RFC 4648

Bytes are written down as one string of bits, the highest bit of a byte first.  Zeros are added
until the string can be cut into digits of `w` bits; every digit is a character of an alphabet; and
the text is filled up with a padding character until it consists of whole quanta of `q` characters.
Base64 has `w = 6` and `q = 4`.

The rule behind every implementation is `encode_append`: a stretch of bytes that fills a quantum is
encoded on its own.  What such a stretch gives is a matter of `digits_bitsOf`, which reads the
digits off the number that the bits stand for.
-/

set_option autoImplicit false

namespace Rfc4648

/-! ## Bits -/

/-- The `w` lowest bits of a number, the highest first. -/
def bitsOf : ℕ → ℕ → List Bool
  | 0, _ => []
  | w + 1, x => x.testBit w :: bitsOf w x

/-- The number that bits stand for, the highest first. -/
def valueOf : List Bool → ℕ
  | [] => 0
  | b :: bits => b.toNat * 2 ^ bits.length + valueOf bits

@[simp] theorem length_bitsOf (w x : ℕ) : (bitsOf w x).length = w := by
  induction w with
  | zero => rfl
  | succ w ih => rw [bitsOf, List.length_cons, ih]

/-- The number is read back, up to the bits that were left out. -/
theorem valueOf_bitsOf (w x : ℕ) : valueOf (bitsOf w x) = x % 2 ^ w := by
  induction w with
  | zero => rw [bitsOf, valueOf, Nat.pow_zero, Nat.mod_one]
  | succ w ih =>
    rw [bitsOf, valueOf, length_bitsOf, ih, Nat.mod_pow_succ, Nat.toNat_testBit, Nat.mul_comm,
      Nat.add_comm]

theorem bitsOf_add (v w x : ℕ) : bitsOf (v + w) x = bitsOf v (x / 2 ^ w) ++ bitsOf w x := by
  induction v with
  | zero => rw [Nat.zero_add, bitsOf, List.nil_append]
  | succ v ih =>
    rw [Nat.add_right_comm, bitsOf, ih, bitsOf, Nat.testBit_div_two_pow, List.cons_append]

theorem bitsOf_mod {v w : ℕ} (h : v ≤ w) (x : ℕ) : bitsOf v (x % 2 ^ w) = bitsOf v x := by
  induction v with
  | zero => rfl
  | succ v ih =>
    rw [bitsOf, bitsOf, ih (Nat.le_of_succ_le h), Nat.testBit_mod_two_pow,
      decide_eq_true (Nat.lt_of_succ_le h), Bool.true_and]

theorem bitsOf_append (v : ℕ) {w : ℕ} (x : ℕ) {y : ℕ} (hy : y < 2 ^ w) :
    bitsOf v x ++ bitsOf w y = bitsOf (v + w) (x * 2 ^ w + y) := by
  have hdiv : (x * 2 ^ w + y) / 2 ^ w = x := by
    rw [Nat.mul_comm, Nat.mul_add_div (Nat.two_pow_pos w), Nat.div_eq_of_lt hy, Nat.add_zero]
  have hmod : (x * 2 ^ w + y) % 2 ^ w = y := by
    rw [Nat.mul_comm, Nat.mul_add_mod, Nat.mod_eq_of_lt hy]
  rw [bitsOf_add, hdiv, ← bitsOf_mod (Nat.le_refl w) (x * 2 ^ w + y), hmod]

theorem replicate_false (k : ℕ) : List.replicate k false = bitsOf k 0 := by
  induction k with
  | zero => rfl
  | succ k ih => rw [List.replicate_succ, ih, bitsOf, Nat.zero_testBit]

/-! ## Digits -/

/-- The first `n` digits of `w` bits. -/
def digits (w : ℕ) : ℕ → List Bool → List ℕ
  | 0, _ => []
  | n + 1, bits => valueOf (bits.take w) :: digits w n (bits.drop w)

@[simp] theorem length_digits (w n : ℕ) (bits : List Bool) : (digits w n bits).length = n := by
  induction n generalizing bits with
  | zero => rfl
  | succ n ih => rw [digits, List.length_cons, ih]

theorem digits_append {w n : ℕ} {bits : List Bool} (h : bits.length = w * n) (m : ℕ)
    (rest : List Bool) : digits w (n + m) (bits ++ rest) = digits w n bits ++ digits w m rest := by
  induction n generalizing bits with
  | zero =>
    obtain rfl : bits = [] := List.length_eq_zero_iff.mp h
    rw [Nat.zero_add, digits, List.nil_append, List.nil_append]
  | succ n ih =>
    have hw : w ≤ bits.length := by rw [h, Nat.mul_succ]; exact Nat.le_add_left _ _
    have hdrop : (bits.drop w).length = w * n := by
      rw [List.length_drop, h, Nat.mul_succ, Nat.add_sub_cancel]
    rw [Nat.add_right_comm, digits, digits, List.take_append_of_le_length hw,
      List.drop_append_of_le_length hw, ih hdrop, List.cons_append]

theorem digits_bitsOf (w n x : ℕ) :
    digits w (n + 1) (bitsOf (w * (n + 1)) x) =
      x / 2 ^ (w * n) % 2 ^ w :: digits w n (bitsOf (w * n) x) := by
  have hsplit := bitsOf_add w (w * n) x
  rw [Nat.add_comm, ← Nat.mul_succ] at hsplit
  have hlength := length_bitsOf w (x / 2 ^ (w * n))
  rw [digits, hsplit, List.take_left' hlength, List.drop_left' hlength, valueOf_bitsOf]

theorem digits_add (w n m x : ℕ) {y : ℕ} (hy : y < 2 ^ (w * m)) :
    digits w (n + m) (bitsOf (w * (n + m)) (x * 2 ^ (w * m) + y)) =
      digits w n (bitsOf (w * n) x) ++ digits w m (bitsOf (w * m) y) := by
  rw [Nat.mul_add, ← bitsOf_append _ _ hy, digits_append (length_bitsOf _ _)]

theorem digits_last (w n x : ℕ) :
    digits w (n + 1) (bitsOf (w * (n + 1)) x) =
      digits w n (bitsOf (w * n) (x / 2 ^ w)) ++ [x % 2 ^ w] := by
  have hlast := digits_bitsOf w 0 x
  rw [Nat.mul_zero, Nat.pow_zero, Nat.div_one, digits, Nat.mul_one] at hlast
  have hadd := digits_add w n 1 (x / 2 ^ w) (y := x % 2 ^ w)
    (by rw [Nat.mul_one]; exact Nat.mod_lt x (Nat.two_pow_pos w))
  rw [Nat.mul_one, Nat.div_add_mod', bitsOf_mod (Nat.le_refl w), hlast] at hadd
  exact hadd

/-! ## Encoding -/

/-- What is missing from `n` to a multiple of `k`. -/
def missing (k n : ℕ) : ℕ := (k - n % k) % k

theorem missing_mul_add (k m n : ℕ) : missing k (k * m + n) = missing k n := by
  rw [missing, missing, Nat.mul_add_mod]

variable {α : Type}

/-- The bits of some bytes. -/
def bitString (data : List UInt8) : List Bool := data.flatMap fun b ↦ bitsOf 8 b.toNat

theorem length_bitString (data : List UInt8) : (bitString data).length = 8 * data.length := by
  rw [bitString, List.length_flatMap, Nat.mul_comm]
  simp

/-- The number that some bytes stand for, the highest first. -/
def numberOf : List UInt8 → ℕ
  | [] => 0
  | b :: data => b.toNat * 2 ^ (8 * data.length) + numberOf data

theorem numberOf_lt (data : List UInt8) : numberOf data < 2 ^ (8 * data.length) := by
  induction data with
  | nil => exact Nat.one_pos
  | cons b data ih =>
    have hb : (b.toNat + 1) * 2 ^ (8 * data.length) ≤ 2 ^ 8 * 2 ^ (8 * data.length) :=
      Nat.mul_le_mul_right _ b.toNat_lt
    rw [numberOf, List.length_cons, Nat.mul_succ, Nat.add_comm (8 * data.length), Nat.pow_add]
    rw [Nat.succ_mul] at hb
    omega

theorem bitString_eq (data : List UInt8) :
    bitString data = bitsOf (8 * data.length) (numberOf data) := by
  induction data with
  | nil => rfl
  | cons b data ih =>
    have hcons : bitString (b :: data) = bitsOf 8 b.toNat ++ bitString data := List.flatMap_cons
    rw [hcons, ih, bitsOf_append 8 b.toNat (numberOf_lt data), numberOf, List.length_cons,
      Nat.mul_succ, Nat.add_comm 8]

/-- The digits of some bytes, the last one filled up with zeros. -/
def digitsOf (w : ℕ) (data : List UInt8) : List ℕ :=
  let bits := bitString data ++ List.replicate (missing w (bitString data).length) false
  digits w (bits.length / w) bits

/-- The encoding of some bytes. -/
def encode (w q : ℕ) (alphabet : ℕ → α) (pad : α) (data : List UInt8) : List α :=
  let chars := (digitsOf w data).map alphabet
  chars ++ List.replicate (missing q chars.length) pad

/-- The digits of some bytes are those of their number, moved to the left to make room for the
zeros. -/
theorem digitsOf_eq {w n k : ℕ} (hw : 0 < w) {data : List UInt8}
    (hk : missing w (8 * data.length) = k) (hn : 8 * data.length + k = w * n) :
    digitsOf w data = digits w n (bitsOf (w * n) (numberOf data * 2 ^ k)) := by
  have hbits : bitString data ++ List.replicate (missing w (bitString data).length) false =
      bitsOf (w * n) (numberOf data * 2 ^ k) := by
    rw [length_bitString, hk, bitString_eq, replicate_false,
      bitsOf_append _ _ (Nat.two_pow_pos k), hn, Nat.add_zero]
  simp only [digitsOf]
  rw [hbits, length_bitsOf, Nat.mul_div_cancel_left n hw]

/-- Bytes that fill a quantum are taken on their own. -/
theorem digitsOf_append {w q : ℕ} (hw : 0 < w) {front : List UInt8} (h : 8 * front.length = w * q)
    (data : List UInt8) :
    digitsOf w (front ++ data) = digits w q (bitString front) ++ digitsOf w data := by
  have hlength : (bitString front).length = w * q := (length_bitString front).trans h
  have hbits : bitString (front ++ data) = bitString front ++ bitString data := List.flatMap_append
  have hmissing : missing w (bitString front ++ bitString data).length =
      missing w (bitString data).length := by
    rw [List.length_append, hlength, missing_mul_add]
  simp only [digitsOf]
  rw [hbits, hmissing, List.append_assoc, List.length_append, hlength, Nat.mul_add_div hw,
    digits_append hlength]

/-- **Whole quanta are encoded on their own.** -/
theorem encode_append {w q : ℕ} (hw : 0 < w) {front : List UInt8} (h : 8 * front.length = w * q)
    (alphabet : ℕ → α) (pad : α) (data : List UInt8) :
    encode w q alphabet pad (front ++ data) =
      (digits w q (bitString front)).map alphabet ++ encode w q alphabet pad data := by
  have hmissing := missing_mul_add q 1
  rw [Nat.mul_one] at hmissing
  simp only [encode, digitsOf_append hw h, List.map_append, List.length_append, List.length_map,
    length_digits, hmissing, List.append_assoc]

/-! ## Base64 -/

/-- The Base64 alphabet: the letters, the digits, `+` and `/`. -/
def base64Alphabet (i : ℕ) : UInt8 :=
  if i < 26 then 65 + i.toUInt8
  else if i < 52 then 97 + (i - 26).toUInt8
  else if i < 62 then 48 + (i - 52).toUInt8
  else if i = 62 then 43 else 47

/-- Base64, with `=` for what is missing. -/
def base64 (data : List UInt8) : List UInt8 := encode 6 4 base64Alphabet 61 data

end Rfc4648
