import CoapCpp.Message
import Mathlib.Algebra.Group.Nat.Defs

/-!
# Block options

The codec of `Blockwise`: `encode_block_option`, `decode_block_option`, `decode_size_option` and
`size_to_sizeoption`, as `src/blockwise.cc` has them.

A block option is a number in one to three bytes: the block number, and below it four bits for
"more" and the block size.  `encode_block_option` has three layouts for block numbers of 4, 12 and
20 bits; on a little-endian host the first two are the number itself (`blockNumber_little`), and the
third one has its bytes rotated.

`Blockwise.acceptsExactly_iff` is the main result here: which states are sent as what they are.
-/

set_option autoImplicit false

namespace Coap

/-! ## The code -/

/-- `BLOCK_SZX_MASK` -/
@[simp] abbrev blockSzxMask : ℕ := 0x7

/-- `BLOCK_M_BIT` -/
@[simp] abbrev blockMBit : ℕ := 3

/-- `BLOCK_NUM_SHIFT` -/
@[simp] abbrev blockNumShift : ℕ := 4

/-- `BLOCK_MAX_SIZE` -/
@[simp] abbrev blockMaxSize : ℕ := 1024

/-- `BLOCK_SIZE_DEFAULT` -/
@[simp] abbrev blockSizeDefault : UInt16 := 1024

/-- `MAX_BLOCKS` -/
@[simp] abbrev maxBlocks : ℕ := 1048576

/-- `BLOCK_OPT_MIN_LEN` -/
@[simp] abbrev blockOptMinLen : ℕ := 1

/-- `BLOCK_OPT_MAX_LEN` -/
@[simp] abbrev blockOptMaxLen : ℕ := 3

/-- `Blocksize` -/
inductive Blocksize where
  /-- `BLOCK_SIZE_16` -/
  | size16
  /-- `BLOCK_SIZE_32` -/
  | size32
  /-- `BLOCK_SIZE_64` -/
  | size64
  /-- `BLOCK_SIZE_128` -/
  | size128
  /-- `BLOCK_SIZE_256` -/
  | size256
  /-- `BLOCK_SIZE_512` -/
  | size512
  /-- `BLOCK_SIZE_1024` -/
  | size1024
deriving DecidableEq, Repr

/-- The value of a `Blocksize`. -/
def Blocksize.value : Blocksize → ℕ
  | size16 => 0
  | size32 => 1
  | size64 => 2
  | size128 => 3
  | size256 => 4
  | size512 => 5
  | size1024 => 6

/-- The table of `size_to_sizeoption`, with the `Blocksize` its index is cast to. -/
def sizeOptions : List (ℕ × Blocksize) :=
  [(16, .size16), (32, .size32), (64, .size64), (128, .size128), (256, .size256), (512, .size512),
    (1024, .size1024)]

/-- `size_to_sizeoption` -/
def sizeToSizeoption (size : ℕ) : Blocksize := (sizeOptions.lookup size).getD .size64

/-- `Blockwise`, which is the same class for `Block1` and `Block2`. -/
structure Blockwise where
  /-- `m_number` -/
  number : UInt32 := 0
  /-- `m_offset` -/
  offset : UInt32 := 0
  /-- `m_size` -/
  size : UInt16 := 0
  /-- `m_total` -/
  total : UInt32 := 0
  /-- `m_more` -/
  more : Bool := false
  /-- `m_littleEndian` -/
  littleEndian : Bool
deriving DecidableEq, Repr

/-- `is_block_option_length_correct`, whose argument is a `uint8_t`. -/
def isBlockOptionLengthCorrect (length : ℕ) : Bool :=
  !(length % 256 < blockOptMinLen || length % 256 > blockOptMaxLen)

namespace Blockwise

/-- The bytes `encode_block_option` pushes for the block number, and what it leaves in `tmp`; none
for a number that is too large. -/
def blockNumber (littleEndian : Bool) (number : ℕ) : Option (List UInt8 × UInt8) :=
  if number < 16 then
    some ([], UInt8.ofNat (number <<< blockNumShift))
  else if number < 4096 then
    if littleEndian then
      let tmp := UInt8.ofNat ((number &&& 0xFF) >>> blockNumShift)
      let tmp := tmp ||| UInt8.ofNat (((number >>> 8) &&& 0xFF) <<< blockNumShift)
      some ([tmp], UInt8.ofNat ((number &&& 0xF) <<< blockNumShift))
    else
      let tmp := UInt8.ofNat (((number >>> 24) &&& 0xFF) >>> blockNumShift)
      let tmp := tmp ||| UInt8.ofNat (((number >>> 16) &&& 0xFF) <<< blockNumShift)
      some ([tmp], UInt8.ofNat (((number >>> 24) &&& 0xF) <<< blockNumShift))
  else if number < maxBlocks then
    if littleEndian then
      let first := UInt8.ofNat (number &&& 0xFF)
      let tmp := UInt8.ofNat (((number >>> 8) &&& 0xFF) >>> blockNumShift)
      let tmp := tmp ||| UInt8.ofNat (((number >>> 16) &&& 0xFF) <<< blockNumShift)
      some ([first, tmp], UInt8.ofNat (((number >>> 8) &&& 0xF) <<< blockNumShift))
    else
      let first := UInt8.ofNat ((number >>> 24) &&& 0xFF)
      let tmp := UInt8.ofNat (((number >>> 16) &&& 0xFF) >>> blockNumShift)
      let tmp := tmp ||| UInt8.ofNat (((number >>> 8) &&& 0xFF) <<< blockNumShift)
      some ([first, tmp], UInt8.ofNat (((number >>> 16) &&& 0xF) <<< blockNumShift))
  else none

/-- `encode_block_option` -/
def encodeBlockOption (b : Blockwise) (opt : CoapOption) : CoapOption × Bool :=
  if opt.number.toNat ≠ block1 ∧ opt.number.toNat ≠ block2 then (opt, false)
  else if b.size.toNat % 16 ≠ 0 ∨ b.size.toNat > blockMaxSize then (opt, false)
  else
    let sizeOpt := sizeToSizeoption b.size.toNat
    match blockNumber b.littleEndian b.number.toNat with
    | none => (opt, false)
    | some (pushed, tmp) =>
      let tmp := tmp ||| UInt8.ofNat (sizeOpt.value &&& blockSzxMask)
      let tmp := if b.more then tmp ||| UInt8.ofNat (1 <<< blockMBit)
        else tmp &&& ~~~UInt8.ofNat (1 <<< blockMBit)
      ({ opt with value := opt.value ++ pushed ++ [tmp] }, true)

/-- The block number `decode_block_option` reads from a value of the right length. -/
def decodedNumber (littleEndian : Bool) (value : List UInt8) : ℕ :=
  let optLen := value.length
  let byte := fun i ↦ (value.getD i 0).toNat
  if optLen = 1 then byte 0 >>> blockNumShift
  else if littleEndian then
    byte (optLen - 1) >>> blockNumShift ||| byte (optLen - 2) <<< blockNumShift |||
      if optLen = 3 then byte 0 <<< (blockNumShift + 8) else 0
  else
    byte (optLen - 1) <<< blockNumShift ||| byte (optLen - 2) >>> blockNumShift |||
      if optLen = 3 then byte 0 >>> (blockNumShift + 8) else 0

/-- `decode_block_option` -/
def decodeBlockOption (b : Blockwise) (opt : CoapOption) : Blockwise × Bool :=
  if opt.number.toNat ≠ block1 ∧ opt.number.toNat ≠ block2 then (b, false)
  else
    let optLen := opt.value.length
    if !isBlockOptionLengthCorrect optLen then (b, false)
    else
      let last := (opt.value.getD (optLen - 1) 0).toNat
      let szx := last &&& blockSzxMask
      ({ b with
          size := UInt16.ofNat (2 ^ (szx + 4))
          more := last &&& 1 <<< blockMBit ≠ 0
          number := UInt32.ofNat (decodedNumber b.littleEndian opt.value) }, true)

/-- The total size `decode_size_option` reads from a value of the right length. -/
def decodedTotal (littleEndian : Bool) (value : List UInt8) : ℕ :=
  let optLen := value.length
  let byte := fun i ↦ (value.getD i 0).toNat
  if optLen = 1 then byte 0
  else if littleEndian then
    byte (optLen - 2) <<< 8 ||| byte (optLen - 1) |||
      (if optLen ≥ 3 then byte (optLen - 3) <<< 16 else 0) |||
      if optLen = 4 then byte 0 <<< 24 else 0
  else
    byte (optLen - 2) >>> 8 ||| byte (optLen - 1) |||
      (if optLen ≥ 3 then byte (optLen - 3) >>> 16 else 0) |||
      if optLen = 4 then byte 0 >>> 24 else 0

/-- `decode_size_option`, which checks the length with `is_block_option_length_correct`. -/
def decodeSizeOption (b : Blockwise) (opt : CoapOption) : Blockwise × Bool :=
  if opt.number.toNat ≠ size1 ∧ opt.number.toNat ≠ size2 then (b, false)
  else
    let optLen := opt.value.length
    if !isBlockOptionLengthCorrect optLen then (b, false)
    else ({ b with total := UInt32.ofNat (decodedTotal b.littleEndian opt.value) }, true)

end Blockwise

/-! ## The block size -/

/-- The block sizes of the format: those of the table. -/
def IsBlockSize (size : ℕ) : Prop := ∃ s, (size, s) ∈ sizeOptions

instance (size : ℕ) : Decidable (IsBlockSize size) :=
  decidable_of_iff (size ∈ sizeOptions.map Prod.fst) (by simp [IsBlockSize])

/-- The size of a block of this kind. -/
def Blocksize.size (s : Blocksize) : ℕ := 2 ^ (s.value + 4)

theorem isBlockSize_iff {size : ℕ} : IsBlockSize size ↔ ∃ s : Blocksize, s.size = size := by
  constructor
  · rintro ⟨s, h⟩
    refine ⟨s, ?_⟩
    have hall : ∀ p ∈ sizeOptions, p.2.size = p.1 := by decide
    exact hall (size, s) h
  · rintro ⟨s, rfl⟩
    exact ⟨s, by cases s <;> decide⟩

theorem IsBlockSize.multiple {size : ℕ} (h : IsBlockSize size) :
    size % 16 = 0 ∧ size ≤ blockMaxSize := by
  obtain ⟨s, rfl⟩ := isBlockSize_iff.mp h
  cases s <;> decide

theorem sizeToSizeoption_size (s : Blocksize) : sizeToSizeoption s.size = s := by
  cases s <;> decide

/-! ## The block number -/

theorem and_255 (n : ℕ) : n &&& 0xFF = n % 256 := Nat.and_two_pow_sub_one_eq_mod n 8

theorem and_15 (n : ℕ) : n &&& 0xF = n % 16 := Nat.and_two_pow_sub_one_eq_mod n 4

theorem ofNat_shiftLeft_four (n : ℕ) : UInt8.ofNat (n <<< 4) = UInt8.ofNat (16 * (n % 16)) := by
  rw [← UInt8.toNat_inj, UInt8.toNat_ofNat', UInt8.toNat_ofNat', Nat.shiftLeft_eq]
  omega

theorem or_nibbles (lo hi : ℕ) (h : lo < 16) :
    UInt8.ofNat lo ||| UInt8.ofNat (hi <<< 4) = UInt8.ofNat (16 * (hi % 16) + lo) := by
  have hall : ∀ lo < 16, ∀ hi < 16,
      UInt8.ofNat lo ||| UInt8.ofNat (16 * hi) = UInt8.ofNat (16 * hi + lo) := by decide
  rw [ofNat_shiftLeft_four, hall lo h _ (Nat.mod_lt _ (by decide))]

namespace Blockwise

theorem blockNumber_little {n : ℕ} (h : n < maxBlocks) :
    blockNumber true n = some
      (if n < 16 then ([], UInt8.ofNat (16 * n))
       else if n < 4096 then ([UInt8.ofNat (n / 16)], UInt8.ofNat (16 * (n % 16)))
       else ([UInt8.ofNat (n % 256), UInt8.ofNat (n / 4096)],
         UInt8.ofNat (16 * (n / 256 % 16)))) := by
  simp only [blockNumber, blockNumShift, and_255, and_15, Nat.shiftRight_eq_div_pow, if_true,
    Nat.reducePow]
  by_cases h16 : n < 16
  · rw [if_pos h16, if_pos h16, ofNat_shiftLeft_four, Nat.mod_eq_of_lt h16]
  rw [if_neg h16, if_neg h16]
  by_cases h4096 : n < 4096
  · rw [if_pos h4096, if_pos h4096, or_nibbles _ _ (by omega), ofNat_shiftLeft_four,
      show 16 * (n / 256 % 256 % 16) + n % 256 / 16 = n / 16 by omega,
      show n % 16 % 16 = n % 16 by omega]
  · rw [maxBlocks] at h
    rw [if_neg h4096, if_neg h4096, if_pos h, or_nibbles _ _ (by omega), ofNat_shiftLeft_four,
      show 16 * (n / 65536 % 256 % 16) + n / 256 % 256 / 16 = n / 4096 by omega,
      show n / 256 % 16 % 16 = n / 256 % 16 by omega]

theorem blockNumber_big {n : ℕ} (h : n < maxBlocks) :
    blockNumber false n = some
      (if n < 16 then ([], UInt8.ofNat (16 * n))
       else if n < 4096 then ([0], 0)
       else ([0, UInt8.ofNat (16 * (n / 256 % 16))], UInt8.ofNat (16 * (n / 65536)))) := by
  rw [maxBlocks] at h
  simp only [blockNumber, blockNumShift, maxBlocks, and_255, and_15, Nat.shiftRight_eq_div_pow,
    Nat.reducePow, Bool.false_eq_true, if_false]
  by_cases h16 : n < 16
  · rw [if_pos h16, if_pos h16, ofNat_shiftLeft_four, Nat.mod_eq_of_lt h16]
  rw [if_neg h16, if_neg h16]
  have hhigh : n / 16777216 = 0 := by omega
  by_cases h4096 : n < 4096
  · have hmid : n / 65536 = 0 := by omega
    rw [if_pos h4096, if_pos h4096, hhigh, hmid]
    rfl
  · rw [if_neg h4096, if_neg h4096, if_pos h, hhigh, or_nibbles _ _ (by omega),
      ofNat_shiftLeft_four,
      show 16 * (n / 256 % 256 % 16) + n / 65536 % 256 / 16 = 16 * (n / 256 % 16) by omega,
      show n / 65536 % 16 % 16 = n / 65536 by omega]
    rfl

theorem blockNumber_of_le (littleEndian : Bool) {n : ℕ} (h : maxBlocks ≤ n) :
    blockNumber littleEndian n = none := by
  rw [maxBlocks] at h
  rw [blockNumber, if_neg (by omega), if_neg (by omega), if_neg (by rw [maxBlocks]; omega)]

/-- At most two bytes are pushed, and four bits are left free for the rest of the option. -/
theorem exists_blockNumber (littleEndian : Bool) {n : ℕ} (h : n < maxBlocks) :
    ∃ pushed : List UInt8, pushed.length ≤ 2 ∧
      ∃ k < 16, blockNumber littleEndian n = some (pushed, UInt8.ofNat (16 * k)) := by
  have hsmall : n / 65536 < 16 := by rw [maxBlocks] at h; omega
  cases littleEndian
  · rw [blockNumber_big h]
    by_cases h16 : n < 16
    · exact ⟨[], Nat.zero_le _, n, h16, by rw [if_pos h16]⟩
    by_cases h4096 : n < 4096
    · exact ⟨[0], Nat.le_succ 1, 0, by decide, by rw [if_neg h16, if_pos h4096]; rfl⟩
    · exact ⟨[0, _], Nat.le_refl 2, _, hsmall, by rw [if_neg h16, if_neg h4096]⟩
  · rw [blockNumber_little h]
    by_cases h16 : n < 16
    · exact ⟨[], Nat.zero_le _, n, h16, by rw [if_pos h16]⟩
    by_cases h4096 : n < 4096
    · exact ⟨[_], Nat.le_succ 1, n % 16, Nat.mod_lt _ (by decide),
        by rw [if_neg h16, if_pos h4096]⟩
    · exact ⟨[_, _], Nat.le_refl 2, n / 256 % 16, Nat.mod_lt _ (by decide),
        by rw [if_neg h16, if_neg h4096]⟩

/-! ## The option -/

/-- The options a block option can be written to. -/
def IsBlockOption (opt : CoapOption) : Prop :=
  opt.number.toNat = block1 ∨ opt.number.toNat = block2

instance (opt : CoapOption) : Decidable (IsBlockOption opt) := inferInstanceAs (Decidable (_ ∨ _))

theorem last_byte : ∀ k < 16, ∀ (s : Blocksize) (more : Bool),
    (if more then (UInt8.ofNat (16 * k) ||| UInt8.ofNat (s.value &&& blockSzxMask)) |||
        UInt8.ofNat (1 <<< blockMBit)
      else (UInt8.ofNat (16 * k) ||| UInt8.ofNat (s.value &&& blockSzxMask)) &&&
        ~~~UInt8.ofNat (1 <<< blockMBit)) =
      UInt8.ofNat (16 * k + (if more then 8 else 0) + s.value) := by
  intro k hk s more
  have hall : ∀ k < 16, ∀ v < 7,
      (UInt8.ofNat (16 * k) ||| UInt8.ofNat (v &&& 0x7)) ||| UInt8.ofNat (1 <<< 3) =
          UInt8.ofNat (16 * k + 8 + v) ∧
        (UInt8.ofNat (16 * k) ||| UInt8.ofNat (v &&& 0x7)) &&& ~~~UInt8.ofNat (1 <<< 3) =
          UInt8.ofNat (16 * k + 0 + v) := by decide
  have hv : s.value < 7 := by cases s <;> decide
  cases more
  · exact (hall k hk s.value hv).2
  · exact (hall k hk s.value hv).1

/-- What is refused is left as it was. -/
theorem encodeBlockOption_of_not (b : Blockwise) (opt : CoapOption)
    (h : ¬ (IsBlockOption opt ∧ b.size.toNat % 16 = 0 ∧ b.size.toNat ≤ blockMaxSize ∧
      b.number.toNat < maxBlocks)) : b.encodeBlockOption opt = (opt, false) := by
  rw [encodeBlockOption]
  split
  · rfl
  rename_i hoption
  split
  · rfl
  rename_i hsize
  have hnumber : maxBlocks ≤ b.number.toNat := by
    by_contra hlt
    refine h ⟨?_, ?_, ?_, by omega⟩
    · rw [IsBlockOption]; omega
    · omega
    · omega
  rw [blockNumber_of_le _ hnumber]

/-- What is accepted gets the block number, "more" and the size appended to its value. -/
theorem encodeBlockOption_eq {b : Blockwise} {opt : CoapOption} {pushed : List UInt8} {k : ℕ}
    (hoption : IsBlockOption opt) (hsize : b.size.toNat % 16 = 0 ∧ b.size.toNat ≤ blockMaxSize)
    (hk : k < 16)
    (h : blockNumber b.littleEndian b.number.toNat = some (pushed, UInt8.ofNat (16 * k))) :
    b.encodeBlockOption opt =
      ({ opt with value := opt.value ++ pushed ++ [UInt8.ofNat
        (16 * k + (if b.more then 8 else 0) + (sizeToSizeoption b.size.toNat).value)] }, true) := by
  rw [IsBlockOption] at hoption
  rw [encodeBlockOption, if_neg (by omega), if_neg (by omega), h]
  simp only [last_byte k hk]

/-! ## Reading the number back -/

theorem or_shiftLeft {x i : ℕ} (h : x < 2 ^ i) (y : ℕ) : x ||| y <<< i = y * 2 ^ i + x := by
  rw [Nat.or_comm, ← Nat.shiftLeft_add_eq_or_of_lt h, Nat.shiftLeft_eq]

theorem decodedNumber_one (littleEndian : Bool) (a : UInt8) :
    decodedNumber littleEndian [a] = a.toNat / 16 := by
  simp [decodedNumber, Nat.shiftRight_eq_div_pow]

theorem decodedNumber_two (a b : UInt8) :
    decodedNumber true [a, b] = 16 * a.toNat + b.toNat / 16 := by
  have hb := b.toNat_lt
  have hor := or_shiftLeft (i := 4) (show b.toNat / 16 < 2 ^ 4 by omega) a.toNat
  simp only [decodedNumber, List.length_cons, List.length_nil, Nat.reduceAdd, Nat.reduceSub,
    List.getD_cons_succ, List.getD_cons_zero, blockNumShift, Nat.shiftRight_eq_div_pow,
    Nat.reducePow, Nat.reduceEqDiff, if_false, if_true, Nat.or_zero]
  omega

theorem decodedNumber_three (a b c : UInt8) :
    decodedNumber true [a, b, c] = 4096 * a.toNat + 16 * b.toNat + c.toNat / 16 := by
  have hb := b.toNat_lt
  have hc := c.toNat_lt
  have hlow := or_shiftLeft (i := 4) (show c.toNat / 16 < 2 ^ 4 by omega) b.toNat
  have hor := or_shiftLeft (i := 12) (show b.toNat * 16 + c.toNat / 16 < 2 ^ 12 by omega) a.toNat
  simp only [decodedNumber, List.length_cons, List.length_nil, Nat.reduceAdd, Nat.reduceSub,
    List.getD_cons_succ, List.getD_cons_zero, blockNumShift, Nat.shiftRight_eq_div_pow,
    Nat.reducePow, Nat.reduceEqDiff, if_false, if_true, hlow, hor]
  omega

/-- **The block number the receiver reads**: from 4096 on, its lowest byte has become the highest
one. -/
theorem decodedNumber_blockNumber {n k f : ℕ} {pushed : List UInt8} (h : n < maxBlocks)
    (hk : k < 16) (hf : f < 16)
    (hnumber : blockNumber true n = some (pushed, UInt8.ofNat (16 * k))) :
    decodedNumber true (pushed ++ [UInt8.ofNat (16 * k + f)]) =
      if n < 4096 then n else n % 256 * 4096 + n / 256 := by
  have hlast : (UInt8.ofNat (16 * k + f)).toNat = 16 * k + f := by
    rw [UInt8.toNat_ofNat']; omega
  have hbyte : ∀ j < 16, UInt8.ofNat (16 * j) = UInt8.ofNat (16 * k) → j = k := by
    intro j hj heq
    have := congrArg UInt8.toNat heq
    rw [UInt8.toNat_ofNat', UInt8.toNat_ofNat'] at this
    omega
  rw [maxBlocks] at h
  rw [blockNumber_little h, Option.some.injEq] at hnumber
  by_cases h16 : n < 16
  · rw [if_pos h16, Prod.mk.injEq] at hnumber
    obtain ⟨rfl, hnibble⟩ := hnumber
    obtain rfl := hbyte n h16 hnibble
    rw [List.nil_append, decodedNumber_one, hlast, if_pos (by omega)]
    omega
  rw [if_neg h16] at hnumber
  by_cases h4096 : n < 4096
  · rw [if_pos h4096, Prod.mk.injEq] at hnumber
    obtain ⟨rfl, hnibble⟩ := hnumber
    have hfirst : (UInt8.ofNat (n / 16)).toNat = n / 16 := by rw [UInt8.toNat_ofNat']; omega
    have hlow := hbyte _ (Nat.mod_lt _ (by decide)) hnibble
    rw [List.singleton_append, decodedNumber_two, hlast, hfirst, if_pos h4096]
    omega
  · rw [if_neg h4096, Prod.mk.injEq] at hnumber
    obtain ⟨rfl, hnibble⟩ := hnumber
    have hfirst : (UInt8.ofNat (n % 256)).toNat = n % 256 := by rw [UInt8.toNat_ofNat']; omega
    have hsecond : (UInt8.ofNat (n / 4096)).toNat = n / 4096 := by
      rw [UInt8.toNat_ofNat']; omega
    have hlow := hbyte _ (Nat.mod_lt _ (by decide)) hnibble
    rw [List.cons_append, List.singleton_append, decodedNumber_three, hlast, hfirst, hsecond,
      if_neg h4096]
    omega

/-- The block numbers from 4096 on that are read back as they were sent. -/
theorem rotated_eq_iff {n : ℕ} (h : n < maxBlocks) :
    n % 256 * 4096 + n / 256 = n ↔ 69905 ∣ n := by
  rw [maxBlocks] at h
  constructor
  · intro heq
    exact Nat.dvd_of_mod_eq_zero (by omega)
  · rintro ⟨c, rfl⟩
    omega

theorem decodeBlockOption_eq {b : Blockwise} {opt : CoapOption} {k : ℕ} {pushed : List UInt8}
    {s : Blocksize} {more : Bool} (hoption : IsBlockOption opt) (hk : k < 16)
    (hpushed : pushed.length ≤ 2)
    (hvalue : opt.value =
      pushed ++ [UInt8.ofNat (16 * k + (if more then 8 else 0) + s.value)]) :
    b.decodeBlockOption opt =
      ({ b with
          size := UInt16.ofNat s.size
          more := more
          number := UInt32.ofNat (decodedNumber b.littleEndian opt.value) }, true) := by
  have hlast : opt.value.getD (opt.value.length - 1) 0 =
      UInt8.ofNat (16 * k + (if more then 8 else 0) + s.value) := by
    rw [hvalue, List.length_append, List.length_singleton, Nat.add_sub_cancel, List.getD,
      List.getElem?_append_right (Nat.le_refl _), Nat.sub_self]
    rfl
  have hlength : isBlockOptionLengthCorrect opt.value.length = true := by
    rw [hvalue, List.length_append, List.length_singleton, isBlockOptionLengthCorrect]
    simp only [blockOptMinLen, blockOptMaxLen, Bool.not_eq_true', Bool.or_eq_false_iff,
      decide_eq_false_iff_not]
    omega
  have hbits : ∀ k < 16, ∀ v < 7, ∀ more : Bool,
      (UInt8.ofNat (16 * k + (if more then 8 else 0) + v)).toNat &&& 0x7 = v ∧
        decide ((UInt8.ofNat (16 * k + (if more then 8 else 0) + v)).toNat &&& 8 ≠ 0) = more := by
    decide
  obtain ⟨hsize, hmore⟩ := hbits k hk s.value (by cases s <;> decide) more
  rw [IsBlockOption] at hoption
  rw [decodeBlockOption, if_neg (by omega)]
  simp only [hlength, Bool.not_true, Bool.false_eq_true, if_false, hlast, blockSzxMask, hsize,
    blockMBit, Nat.reduceShiftLeft, hmore, Blocksize.size]

/-! ## What is accepted -/

/-- `encode_block_option` accepts the states it can represent, and no others. -/
structure AcceptsExactly (b : Blockwise) (opt : CoapOption) : Prop where
  /-- It accepts what fits a block option. -/
  accepts : (b.encodeBlockOption opt).2 = true ↔
    IsBlockOption opt ∧ IsBlockSize b.size.toNat ∧ b.number.toNat < maxBlocks
  /-- What it accepts is sent with its block size and its "more" bit. -/
  lastByte : (b.encodeBlockOption opt).2 = true → ∃ (pushed : List UInt8) (last : UInt8),
    (b.encodeBlockOption opt).1 = { opt with value := opt.value ++ pushed ++ [last] } ∧
      b.size.toNat = 2 ^ (last.toNat % 8 + 4) ∧ (last.toNat / 8 % 2 = 1 ↔ b.more = true)
  /-- What it refuses is left as it was. -/
  unchanged : (b.encodeBlockOption opt).2 = false → (b.encodeBlockOption opt).1 = opt

/-- A state with a block size of the format is treated as it should be. -/
theorem acceptsExactly_of_isBlockSize {b : Blockwise} {opt : CoapOption}
    (h : IsBlockSize b.size.toNat) : AcceptsExactly b opt := by
  by_cases hfits : IsBlockOption opt ∧ b.number.toNat < maxBlocks
  swap
  · have hrefuse := encodeBlockOption_of_not b opt fun hall ↦
      hfits ⟨hall.1, hall.2.2.2⟩
    refine ⟨?_, ?_, ?_⟩
    · rw [hrefuse]
      exact iff_of_false Bool.false_ne_true fun hall ↦ hfits ⟨hall.1, hall.2.2⟩
    · rw [hrefuse]
      exact fun hret ↦ absurd hret Bool.false_ne_true
    · rw [hrefuse]
      exact fun _ ↦ rfl
  obtain ⟨pushed, -, k, hk, hnumber⟩ := exists_blockNumber b.littleEndian hfits.2
  have haccept := encodeBlockOption_eq hfits.1 h.multiple hk hnumber
  refine ⟨?_, fun _ ↦ ?_, ?_⟩
  · rw [haccept]
    exact iff_of_true rfl ⟨hfits.1, h, hfits.2⟩
  · obtain ⟨s, hs⟩ := isBlockSize_iff.mp h
    rw [haccept]
    refine ⟨pushed, _, rfl, ?_, ?_⟩
    all_goals
      have hv : s.value < 7 := by cases s <;> decide
      rw [← hs, sizeToSizeoption_size, UInt8.toNat_ofNat']
    · rw [Blocksize.size]
      congr 2
      split <;> omega
    · cases b.more <;> simp <;> omega
  · rw [haccept]
    exact fun hret ↦ absurd hret.symm Bool.false_ne_true

/-- **When `encode_block_option` accepts exactly what it can represent.**  It does unless all its
checks pass and the size is a multiple of 16 that is no block size: such a block is announced as a
block of 64 bytes. -/
theorem acceptsExactly_iff (b : Blockwise) (opt : CoapOption) :
    AcceptsExactly b opt ↔ ¬ (IsBlockOption opt ∧ b.number.toNat < maxBlocks ∧
      b.size.toNat % 16 = 0 ∧ b.size.toNat ≤ blockMaxSize ∧ ¬ IsBlockSize b.size.toNat) := by
  constructor
  · rintro hexact ⟨hoption, hlt, hmod, hle, hsize⟩
    obtain ⟨pushed, -, k, hk, hnumber⟩ := exists_blockNumber b.littleEndian hlt
    have haccept := encodeBlockOption_eq hoption ⟨hmod, hle⟩ hk hnumber
    exact hsize (hexact.accepts.mp (by rw [haccept])).2.1
  · intro h
    by_cases hsize : IsBlockSize b.size.toNat
    · exact acceptsExactly_of_isBlockSize hsize
    · have hrefuse := encodeBlockOption_of_not b opt fun hall ↦
        h ⟨hall.1, hall.2.2.2, hall.2.1, hall.2.2.1, hsize⟩
      refine ⟨?_, ?_, ?_⟩
      · rw [hrefuse]
        exact iff_of_false Bool.false_ne_true fun hall ↦ hsize hall.2.1
      · rw [hrefuse]
        exact fun hret ↦ absurd hret Bool.false_ne_true
      · rw [hrefuse]
        exact fun _ ↦ rfl

/-- A last block of 976 bytes is announced as a block of 64. -/
theorem not_acceptsExactly :
    ¬ AcceptsExactly { number := 1, size := 976, littleEndian := true } { number := 27 } := by
  intro h
  have haccept : (encodeBlockOption { number := 1, size := 976, littleEndian := true }
      { number := 27 }).2 = true := by decide
  exact absurd (h.accepts.mp haccept).2.1 (by decide)

end Blockwise

end Coap
