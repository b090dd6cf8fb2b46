import Mathlib.Logic.Function.Iterate
import Mathlib.Tactic.Common

/-!
# Cyclic redundancy checks

A checksum that a register of `w` bits is left with when words of `w` bits have gone through it, the
highest bit first.  `p` is what is added to the register when a bit leaves it.

The register is linear, so whether a checksum notices an error depends on the bits that are wrong
and on nothing else (`crc_eq_iff`).  Two kinds of errors are always noticed.

* `crc_ne_of_burst`: the wrong bits are no more than `w` places apart.
* `crc_ne_of_odd`: the number of wrong bits is odd, if `p` has an odd number of bits.
-/

set_option autoImplicit false

namespace Crc

variable {w : ℕ} (p : BitVec w)

/-! ## The register -/

/-- The register moves up by one bit. -/
def round (c : BitVec w) : BitVec w := c <<< 1 ^^^ if c.msb then p else 0#w

/-- A word goes through the register. -/
def step (c b : BitVec w) : BitVec w := (round p)^[w] (c ^^^ b)

/-- The register behind some words. -/
def crc (c : BitVec w) (data : List (BitVec w)) : BitVec w := data.foldl (step p) c

/-- The bits of a word, the highest one first. -/
def bits (x : BitVec w) : List Bool := List.ofFn fun i : Fin w ↦ x.getMsbD i

/-- The bits of some words. -/
def stream (data : List (BitVec w)) : List Bool := data.flatMap bits

/-- The highest bit of a word, and no other. -/
def top (b : Bool) : BitVec w := if b then BitVec.twoPow w (w - 1) else 0#w

/-- A single bit goes through the register. -/
def feed (c : BitVec w) (b : Bool) : BitVec w := round p (c ^^^ top b)

@[simp] theorem length_bits (x : BitVec w) : (bits x).length = w := List.length_ofFn

theorem length_stream (data : List (BitVec w)) : (stream data).length = data.length * w := by
  induction data with
  | nil => simp [stream]
  | cons x data ih =>
    rw [stream, List.flatMap_cons, List.length_append, length_bits, List.length_cons, Nat.succ_mul,
      Nat.add_comm]
    exact congrArg (· + w) ih

@[simp] theorem getElem_bits (x : BitVec w) {i : ℕ} (hi : i < (bits x).length) :
    (bits x)[i] = x.getMsbD i := by
  simp [bits]

theorem getD_bits (x : BitVec w) (i : ℕ) : (bits x).getD i false = x.getMsbD i := by
  rw [bits, List.getD_eq_getElem?_getD, List.getElem?_ofFn]
  by_cases hi : i < w
  · simp [hi]
  · simp [hi, BitVec.getMsbD_of_ge x i (Nat.le_of_not_lt hi)]

theorem getMsbD_top {b : Bool} {i : ℕ} (hi : i < w) :
    (top b : BitVec w).getMsbD i = (decide (i = 0) && b) := by
  cases b with
  | false => simp [top]
  | true =>
    rw [top, if_pos rfl, BitVec.getMsbD_twoPow]
    rw [Bool.and_true, ← Bool.decide_and, decide_eq_decide]
    omega

/-! ## Linearity -/

theorem xor_cancel (a b : BitVec w) : a ^^^ p ^^^ (b ^^^ p) = a ^^^ b := by
  rw [BitVec.xor_assoc, BitVec.xor_comm b, ← BitVec.xor_assoc p, BitVec.xor_self, BitVec.zero_xor]

theorem round_xor (x y : BitVec w) : round p (x ^^^ y) = round p x ^^^ round p y := by
  rw [round, round, round, BitVec.shiftLeft_xor_distrib, BitVec.msb_xor]
  cases x.msb <;> cases y.msb
  · simp
  · simp [BitVec.xor_assoc]
  · simp only [Bool.xor_false, if_true, Bool.false_eq_true, if_false]
    rw [BitVec.xor_zero, BitVec.xor_assoc, BitVec.xor_assoc, BitVec.xor_comm p]
  · simpa using (xor_cancel p (x <<< 1) (y <<< 1)).symm

theorem round_zero : round p 0#w = 0#w := by
  simp [round]

theorem top_xor (a b : Bool) : (top (a ^^ b) : BitVec w) = top a ^^^ top b := by
  cases a <;> cases b <;> simp [top]

theorem feed_xor (x y : BitVec w) (a b : Bool) :
    feed p (x ^^^ y) (a ^^ b) = feed p x a ^^^ feed p y b := by
  rw [feed, feed, feed, ← round_xor, top_xor]
  congr 1
  rw [BitVec.xor_assoc, BitVec.xor_assoc, ← BitVec.xor_assoc y, BitVec.xor_comm y,
    BitVec.xor_assoc]

/-- What differs behind two streams comes from what differs in them. -/
theorem foldl_feed_xor {as bs : List Bool} (h : as.length = bs.length) (x y : BitVec w) :
    (List.zipWith xor as bs).foldl (feed p) (x ^^^ y) =
      as.foldl (feed p) x ^^^ bs.foldl (feed p) y := by
  induction as generalizing bs x y with
  | nil =>
    rw [List.length_eq_zero_iff.mp h.symm]
    rfl
  | cons a as ih =>
    cases bs with
    | nil => exact absurd h (Nat.succ_ne_zero _)
    | cons b bs =>
      rw [List.zipWith_cons_cons, List.foldl_cons, List.foldl_cons, List.foldl_cons, feed_xor]
      exact ih (Nat.succ.inj h) _ _

/-! ## A word, bit by bit -/

/-- The word that begins with some bits. -/
def front : List Bool → BitVec w
  | [] => 0#w
  | b :: bs => top b ^^^ front bs >>> 1

theorem getMsbD_front (bs : List Bool) {i : ℕ} (hi : i < w) :
    (front bs : BitVec w).getMsbD i = bs.getD i false := by
  induction bs generalizing i with
  | nil => simp [front]
  | cons b bs ih =>
    rw [front, BitVec.getMsbD_xor, getMsbD_top hi, BitVec.getMsbD_ushiftRight]
    cases i with
    | zero => simp [hi]
    | succ i => simpa [hi] using ih (Nat.lt_of_succ_lt hi)

theorem front_bits (x : BitVec w) : front (bits x) = x :=
  BitVec.eq_of_getMsbD_eq fun i hi ↦ by rw [getMsbD_front _ hi, getD_bits]

/-- As long as there is room at the end, a word that moves down moves up again. -/
theorem round_front {bs : List Bool} (h : bs.length < w) :
    round p (front bs >>> 1) = front bs := by
  have hmsb : (front bs >>> 1 : BitVec w).msb = false := by
    rw [BitVec.msb_eq_getMsbD_zero, BitVec.getMsbD_ushiftRight]
    simp
  rw [round, hmsb, if_neg Bool.false_ne_true, BitVec.xor_zero]
  refine BitVec.eq_of_getMsbD_eq fun i hi ↦ ?_
  rw [BitVec.getMsbD_shiftLeft, BitVec.getMsbD_ushiftRight]
  by_cases hlast : i + 1 < w
  · simp [hlast]
  · have hout : bs.length ≤ i := by omega
    rw [getMsbD_front bs hi]
    simp [hlast, List.getElem?_eq_none hout]

/-- No more bits than the register has go through it one by one, or at once. -/
theorem foldl_feed {bs : List Bool} (h : bs.length ≤ w) (c : BitVec w) :
    bs.foldl (feed p) c = (round p)^[bs.length] (c ^^^ front bs) := by
  induction bs generalizing c with
  | nil => simp [front]
  | cons b bs ih =>
    rw [List.foldl_cons, ih (Nat.le_of_succ_le h), List.length_cons, Function.iterate_succ_apply,
      feed, front, ← BitVec.xor_assoc, round_xor p (c ^^^ top b), round_front p h]

theorem step_eq_foldl (c x : BitVec w) : step p c x = (bits x).foldl (feed p) c := by
  rw [foldl_feed p (Nat.le_of_eq (length_bits x)), front_bits, length_bits, step]

theorem crc_eq_foldl (c : BitVec w) (data : List (BitVec w)) :
    crc p c data = (stream data).foldl (feed p) c := by
  induction data generalizing c with
  | nil => rfl
  | cons x data ih =>
    rw [stream, List.flatMap_cons, List.foldl_append, ← step_eq_foldl]
    exact ih _

/-- **What a checksum sees of an error** are the bits that are wrong. -/
theorem crc_eq_iff (c : BitVec w) {xs ys : List (BitVec w)} (h : xs.length = ys.length) :
    crc p c xs = crc p c ys ↔
      (List.zipWith xor (stream xs) (stream ys)).foldl (feed p) 0#w = 0#w := by
  have hlen : (stream xs).length = (stream ys).length := by
    rw [length_stream, length_stream, h]
  have hxor := foldl_feed_xor p hlen c c
  rw [BitVec.xor_self] at hxor
  rw [crc_eq_foldl, crc_eq_foldl]
  exact BitVec.xor_eq_zero_iff.symm.trans (by rw [← hxor])

/-! ## Errors that are close together -/

/-- Something is wrong, and everything that is wrong is in one stretch of at most `n` bits. -/
def Burst (n : ℕ) (bs : List Bool) : Prop :=
  ∃ before mid after, bs = List.replicate before false ++ mid ++ List.replicate after false ∧
    mid.length ≤ n ∧ true ∈ mid

variable {p}

/-- The register does not forget anything if `p` has the lowest bit. -/
theorem round_injective (hp : p.getLsbD 0 = true) : Function.Injective (round p) := by
  have hzero : ∀ x, round p x = 0#w → x = 0#w := by
    intro x hx
    have hw : 0 < w := Nat.pos_of_ne_zero fun h ↦ by
      subst h
      simp at hp
    have hmsb : x.msb = false := by
      have hlow := congrArg (fun y : BitVec w ↦ y.getLsbD 0) hx
      cases hm : x.msb with
      | false => rfl
      | true => simp [round, hm, hp] at hlow
    rw [round, hmsb, if_neg Bool.false_ne_true, BitVec.xor_zero] at hx
    refine BitVec.eq_of_getMsbD_eq fun i hi ↦ ?_
    cases i with
    | zero => rw [← BitVec.msb_eq_getMsbD_zero, hmsb, BitVec.getMsbD_zero]
    | succ i =>
      have hi' := congrArg (fun y : BitVec w ↦ y.getMsbD i) hx
      simpa [hi] using hi'
  intro x y hxy
  refine BitVec.xor_eq_zero_iff.mp (hzero _ ?_)
  rw [round_xor, hxy, BitVec.xor_self]

theorem iterate_round_zero (n : ℕ) : (round p)^[n] 0#w = 0#w :=
  Function.iterate_fixed (round_zero p) n

theorem foldl_feed_false (n : ℕ) (c : BitVec w) :
    (List.replicate n false).foldl (feed p) c = (round p)^[n] c := by
  induction n generalizing c with
  | zero => rfl
  | succ n ih =>
    rw [List.replicate_succ, List.foldl_cons, ih, Function.iterate_succ_apply, feed, top,
      if_neg Bool.false_ne_true, BitVec.xor_zero]

theorem foldl_feed_ne_zero_of_burst (hp : p.getLsbD 0 = true) {bs : List Bool} (h : Burst w bs) :
    bs.foldl (feed p) 0#w ≠ 0#w := by
  obtain ⟨before, mid, after, rfl, hlen, hmem⟩ := h
  have hfront : (front mid : BitVec w) ≠ 0#w := by
    obtain ⟨i, hi, htrue⟩ := List.getElem_of_mem hmem
    intro hzero
    have hbit := getMsbD_front mid (Nat.lt_of_lt_of_le hi hlen)
    rw [hzero, BitVec.getMsbD_zero] at hbit
    simp [hi, htrue] at hbit
  intro hzero
  rw [List.foldl_append, List.foldl_append, foldl_feed_false before, iterate_round_zero,
    foldl_feed p hlen, BitVec.zero_xor, foldl_feed_false after,
    ← Function.iterate_add_apply] at hzero
  exact hfront (((round_injective hp).iterate _) (hzero.trans (iterate_round_zero _).symm))

/-- **Errors that are no more than `w` places apart are noticed.** -/
theorem crc_ne_of_burst (hp : p.getLsbD 0 = true) (c : BitVec w) {xs ys : List (BitVec w)}
    (h : xs.length = ys.length) (hburst : Burst w (List.zipWith xor (stream xs) (stream ys))) :
    crc p c xs ≠ crc p c ys :=
  fun heq ↦ foldl_feed_ne_zero_of_burst hp hburst ((crc_eq_iff p c h).mp heq)

/-! ## An odd number of errors -/

/-- The number of bits that are set is odd. -/
def parity (bs : List Bool) : Bool := bs.foldr xor false

theorem parity_eq_count (bs : List Bool) : parity bs = decide (bs.count true % 2 = 1) := by
  induction bs with
  | nil => rfl
  | cons b bs ih =>
    change (b ^^ parity bs) = _
    rw [ih]
    cases b with
    | false => simp
    | true =>
      rw [List.count_cons_self, Bool.true_xor, ← decide_not, decide_eq_decide]
      omega

theorem parity_append (as bs : List Bool) : parity (as ++ bs) = (parity as ^^ parity bs) := by
  induction as with
  | nil => simp [parity]
  | cons a as ih =>
    change (a ^^ parity (as ++ bs)) = ((a ^^ parity as) ^^ parity bs)
    rw [ih, Bool.xor_assoc]

theorem parity_zipWith {as bs : List Bool} (h : as.length = bs.length) :
    parity (List.zipWith xor as bs) = (parity as ^^ parity bs) := by
  induction as generalizing bs with
  | nil =>
    rw [List.length_eq_zero_iff.mp h.symm]
    rfl
  | cons a as ih =>
    cases bs with
    | nil => exact absurd h (Nat.succ_ne_zero _)
    | cons b bs =>
      change ((a ^^ b) ^^ parity (List.zipWith xor as bs)) = ((a ^^ parity as) ^^ (b ^^ parity bs))
      rw [ih (Nat.succ.inj h)]
      cases a <;> cases b <;> simp

theorem bits_xor (x y : BitVec w) : bits (x ^^^ y) = List.zipWith xor (bits x) (bits y) := by
  refine List.ext_getElem (by simp) fun i hi hi' ↦ ?_
  simp [bits]

theorem parity_xor (x y : BitVec w) :
    parity (bits (x ^^^ y)) = (parity (bits x) ^^ parity (bits y)) := by
  rw [bits_xor, parity_zipWith (by simp)]

theorem parity_zero : parity (bits 0#w) = false := by
  have h := parity_xor 0#w 0#w
  rwa [BitVec.xor_self, Bool.xor_self] at h

/-- The bits that are left when the highest one leaves the register. -/
theorem parity_shiftLeft (x : BitVec w) : parity (bits (x <<< 1)) = (x.msb ^^ parity (bits x)) := by
  cases w with
  | zero => simp [bits, parity, BitVec.msb_eq_getMsbD_zero]
  | succ n =>
    have hshift : bits (x <<< 1) = (bits x).tail ++ [false] := by
      refine List.ext_getElem (by simp) fun i hi hi' ↦ ?_
      have hlt : i < n + 1 := by simpa using hi
      rw [getElem_bits, BitVec.getMsbD_shiftLeft]
      by_cases hlast : i < n
      · rw [List.getElem_append_left (by simpa using hlast), List.getElem_tail, getElem_bits]
      · rw [List.getElem_append_right (by simpa using Nat.le_of_not_lt hlast)]
        simpa using BitVec.getMsbD_of_ge x (i + 1) (by omega)
    have hbits : bits x = x.msb :: (bits x).tail := by
      rw [bits, List.ofFn_succ, List.tail_cons, BitVec.msb_eq_getMsbD_zero]
      rfl
    rw [hshift, parity_append]
    conv_rhs => rw [hbits]
    change (parity (bits x).tail ^^ (false ^^ false)) = (x.msb ^^ (x.msb ^^ parity (bits x).tail))
    cases x.msb <;> simp

theorem parity_top (hw : 0 < w) (b : Bool) : parity (bits (top b : BitVec w)) = b := by
  cases b with
  | false => exact parity_zero
  | true =>
    have hbits : bits (top true : BitVec w) = true :: List.replicate (w - 1) false := by
      refine List.ext_getElem (by simp; omega) fun i hi hi' ↦ ?_
      have hlt : i < w := by simpa using hi
      rw [getElem_bits, getMsbD_top hlt, Bool.and_true]
      cases i <;> simp
    rw [hbits, parity_eq_count, List.count_cons_self, List.count_replicate]
    rfl

/-- A `p` with an odd number of bits makes up for the bit that leaves the register. -/
theorem parity_feed (hp : parity (bits p) = true) (c : BitVec w) (b : Bool) :
    parity (bits (feed p c b)) = (parity (bits c) ^^ b) := by
  have hw : 0 < w := Nat.pos_of_ne_zero fun h ↦ by
    subst h
    simp [bits, parity] at hp
  have hround : ∀ x, parity (bits (round p x)) = parity (bits x) := by
    intro x
    rw [round, parity_xor, parity_shiftLeft]
    cases x.msb with
    | false => simp [parity_zero]
    | true => simp [hp]
  rw [feed, hround, parity_xor, parity_top hw]

theorem parity_foldl_feed (hp : parity (bits p) = true) (bs : List Bool) (c : BitVec w) :
    parity (bits (bs.foldl (feed p) c)) = (parity (bits c) ^^ parity bs) := by
  induction bs generalizing c with
  | nil => simp [parity]
  | cons b bs ih =>
    rw [List.foldl_cons, ih, parity_feed hp, Bool.xor_assoc]
    rfl

/-- **An odd number of errors is noticed**, wherever they are. -/
theorem crc_ne_of_odd (hp : parity (bits p) = true) (c : BitVec w) {xs ys : List (BitVec w)}
    (h : xs.length = ys.length)
    (hodd : (List.zipWith xor (stream xs) (stream ys)).count true % 2 = 1) :
    crc p c xs ≠ crc p c ys := by
  intro heq
  have hparity := parity_foldl_feed hp (List.zipWith xor (stream xs) (stream ys)) 0#w
  rw [(crc_eq_iff p c h).mp heq, parity_zero, Bool.false_xor, parity_eq_count, hodd] at hparity
  exact absurd hparity (by decide)

end Crc
