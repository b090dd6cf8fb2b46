import CoapCpp.BlockHeader

/-!
# Reading block and size options

What `decode_block_option` and `decode_size_option` accept, and what they make of it on a
little-endian host.  Both compare the length of the value as an 8-bit number, and both of them with
the bounds of a block option.

* `decodesExactly_iff`: when `decode_block_option` accepts the block options of the format and
  nothing else.
* `readsEverySize_iff`: the same for `decode_size_option` and sizes of up to four bytes.
-/

set_option autoImplicit false

namespace Coap

/-! ## The format -/

/-- `SIZE_OPT_MIN_LEN` -/
@[simp] abbrev sizeOptMinLen : ℕ := 1

/-- `SIZE_OPT_MAX_LEN` -/
@[simp] abbrev sizeOptMaxLen : ℕ := 4

/-- The number a value stands for, in network byte order. -/
def bigEndian (value : List UInt8) : ℕ := value.foldl (fun n b ↦ 256 * n + b.toNat) 0

/-- The size field of a block option: the low three bits of its last byte. -/
def szx (value : List UInt8) : ℕ := (value.getLastD 0).toNat % 8

theorem szx_lt (value : List UInt8) : szx value < 8 := Nat.mod_lt _ (by decide)

theorem exists_bytes {value : List UInt8} (h : 1 ≤ value.length ∧ value.length ≤ 3) :
    (∃ a, value = [a]) ∨ (∃ a b, value = [a, b]) ∨ ∃ a b c, value = [a, b, c] := by
  match value, h with
  | [a], _ => exact .inl ⟨a, rfl⟩
  | [a, b], _ => exact .inr (.inl ⟨a, b, rfl⟩)
  | [a, b, c], _ => exact .inr (.inr ⟨a, b, c, rfl⟩)

/-- The check of the length says yes to one, two and three bytes, and again 256 bytes later. -/
theorem isBlockOptionLengthCorrect_iff {length : ℕ} :
    isBlockOptionLengthCorrect length = true ↔ 1 ≤ length % 256 ∧ length % 256 ≤ 3 := by
  simp only [isBlockOptionLengthCorrect, blockOptMinLen, blockOptMaxLen, Bool.not_eq_true',
    Bool.or_eq_false_iff, decide_eq_false_iff_not, not_lt, gt_iff_lt]

namespace Blockwise

/-! ## Block options -/

/-- What `decode_block_option` refuses leaves the object as it was. -/
theorem decodeBlockOption_of_not {b : Blockwise} {opt : CoapOption}
    (h : ¬ (IsBlockOption opt ∧ isBlockOptionLengthCorrect opt.value.length = true)) :
    b.decodeBlockOption opt = (b, false) := by
  by_cases hoption : IsBlockOption opt
  · have hlength : isBlockOptionLengthCorrect opt.value.length = false :=
      Bool.eq_false_iff.mpr fun hcorrect ↦ h ⟨hoption, hcorrect⟩
    rw [IsBlockOption] at hoption
    rw [decodeBlockOption, if_neg (by omega)]
    simp only [hlength, Bool.not_false, if_true]
  · rw [IsBlockOption] at hoption
    rw [decodeBlockOption, if_pos (by omega)]

theorem decodeBlockOption_snd {b : Blockwise} {opt : CoapOption} :
    (b.decodeBlockOption opt).2 = true ↔
      IsBlockOption opt ∧ isBlockOptionLengthCorrect opt.value.length = true := by
  constructor
  · intro hret
    by_contra h
    rw [decodeBlockOption_of_not h] at hret
    exact Bool.false_ne_true hret
  · rintro ⟨hoption, hlength⟩
    rw [IsBlockOption] at hoption
    rw [decodeBlockOption, if_neg (by omega)]
    simp only [hlength, Bool.not_true, Bool.false_eq_true, if_false]

theorem decodeBlockOption_of_false {b : Blockwise} {opt : CoapOption}
    (h : (b.decodeBlockOption opt).2 = false) : (b.decodeBlockOption opt).1 = b := by
  rw [decodeBlockOption_of_not]
  intro haccept
  rw [decodeBlockOption_snd.mpr haccept] at h
  cases h

theorem decodedNumber_eq {value : List UInt8} (h : 1 ≤ value.length ∧ value.length ≤ 3) :
    decodedNumber true value = bigEndian value / 16 := by
  obtain ⟨a, rfl⟩ | ⟨a, b, rfl⟩ | ⟨a, b, c, rfl⟩ := exists_bytes h
  · simp only [decodedNumber_one, bigEndian, List.foldl_cons, List.foldl_nil]
    omega
  · simp only [decodedNumber_two, bigEndian, List.foldl_cons, List.foldl_nil]
    omega
  · simp only [decodedNumber_three, bigEndian, List.foldl_cons, List.foldl_nil]
    omega

theorem bigEndian_mod {value : List UInt8} (h : 1 ≤ value.length ∧ value.length ≤ 3) :
    bigEndian value % 256 = (value.getLastD 0).toNat := by
  obtain ⟨a, rfl⟩ | ⟨a, b, rfl⟩ | ⟨a, b, c, rfl⟩ := exists_bytes h
  · have := a.toNat_lt
    simp only [bigEndian, List.foldl_cons, List.foldl_nil, List.getLastD_cons, List.getLastD_nil]
    omega
  · have := b.toNat_lt
    simp only [bigEndian, List.foldl_cons, List.foldl_nil, List.getLastD_cons, List.getLastD_nil]
    omega
  · have := c.toNat_lt
    simp only [bigEndian, List.foldl_cons, List.foldl_nil, List.getLastD_cons, List.getLastD_nil]
    omega

theorem bigEndian_lt {value : List UInt8} (h : 1 ≤ value.length ∧ value.length ≤ 3) :
    bigEndian value < 2 ^ 24 := by
  obtain ⟨a, rfl⟩ | ⟨a, b, rfl⟩ | ⟨a, b, c, rfl⟩ := exists_bytes h
  · have := a.toNat_lt
    simp only [bigEndian, List.foldl_cons, List.foldl_nil]
    omega
  · have := a.toNat_lt
    have := b.toNat_lt
    simp only [bigEndian, List.foldl_cons, List.foldl_nil]
    omega
  · have := a.toNat_lt
    have := b.toNat_lt
    have := c.toNat_lt
    simp only [bigEndian, List.foldl_cons, List.foldl_nil]
    omega

theorem decodeBlockOption_value {b : Blockwise} {opt : CoapOption} (hle : b.littleEndian = true)
    (hoption : IsBlockOption opt) (hlength : 1 ≤ opt.value.length ∧ opt.value.length ≤ 3) :
    (b.decodeBlockOption opt).1 =
      { b with
          size := UInt16.ofNat (2 ^ (szx opt.value + 4))
          more := decide (bigEndian opt.value / 8 % 2 = 1)
          number := UInt32.ofNat (bigEndian opt.value / 16) } := by
  have hlast : opt.value.getD (opt.value.length - 1) 0 = opt.value.getLastD 0 := by
    rw [List.getLastD_eq_getLast?, List.getLast?_eq_getElem?, List.getD_eq_getElem?_getD]
  have hcorrect : isBlockOptionLengthCorrect opt.value.length = true :=
    isBlockOptionLengthCorrect_iff.mpr (by omega)
  have hbits : ∀ n < 256, n &&& 7 = n % 8 ∧ decide (n &&& 8 ≠ 0) = decide (n / 8 % 2 = 1) := by
    decide +kernel
  obtain ⟨hsize, hmore⟩ := hbits _ (opt.value.getLastD 0).toNat_lt
  have hbit : (opt.value.getLastD 0).toNat / 8 % 2 = bigEndian opt.value / 8 % 2 := by
    rw [← bigEndian_mod hlength]
    omega
  rw [IsBlockOption] at hoption
  rw [decodeBlockOption, if_neg (by omega)]
  simp only [hcorrect, Bool.not_true, Bool.false_eq_true, if_false, hlast, blockSzxMask, hsize,
    blockMBit, Nat.reduceShiftLeft, hmore, hbit, hle, decodedNumber_eq hlength, szx]

/-- `get_header` leaves the object as it was if it returns false. -/
theorem getHeader_of_false {S : StdSort} {obj : Blockwise} {isBlock1 : Bool} {pack : Packet}
    (h : (obj.getHeader S isBlock1 pack).2.2 = false) :
    (obj.getHeader S isBlock1 pack).1 = obj := by
  simp only [getHeader] at h ⊢
  split at h
  · rename_i hnone
    rw [if_pos hnone]
  · rename_i hsome
    rw [if_neg hsome]
    split at h
    · rename_i hmany
      rw [if_pos hmany]
    · rename_i hone
      rw [if_neg hone]
      exact decodeBlockOption_of_false h

/-- `decode_block_option` accepts the block options of the format, and no others. -/
structure DecodesExactly (b : Blockwise) (opt : CoapOption) : Prop where
  /-- It accepts block options of one to three bytes, unless their size is the reserved one. -/
  accepts : (b.decodeBlockOption opt).2 = true ↔ IsBlockOption opt ∧ blockOptMinLen ≤
    opt.value.length ∧ opt.value.length ≤ blockOptMaxLen ∧ szx opt.value ≠ 7
  /-- The block number is the value without its four lowest bits. -/
  number : (b.decodeBlockOption opt).2 = true →
    (b.decodeBlockOption opt).1.number.toNat = bigEndian opt.value / 16
  /-- "More" is bit 3. -/
  more : (b.decodeBlockOption opt).2 = true →
    ((b.decodeBlockOption opt).1.more = true ↔ bigEndian opt.value / 8 % 2 = 1)
  /-- The size is what its field says. -/
  size : (b.decodeBlockOption opt).2 = true →
    (b.decodeBlockOption opt).1.size.toNat = 2 ^ (szx opt.value + 4) ∧
      16 ≤ (b.decodeBlockOption opt).1.size.toNat ∧
      (b.decodeBlockOption opt).1.size.toNat ≤ blockMaxSize
  /-- What it refuses leaves the object as it was. -/
  unchanged : (b.decodeBlockOption opt).2 = false → (b.decodeBlockOption opt).1 = b
  /-- And so does what `get_header` refuses. -/
  header : ∀ (S : StdSort) (isBlock1 : Bool) (pack : Packet),
    (b.getHeader S isBlock1 pack).2.2 = false → (b.getHeader S isBlock1 pack).1 = b

/-- **When `decode_block_option` accepts exactly the block options of the format.**  It does unless
the value is longer than three bytes and passes the check for its length, or the size is the
reserved one. -/
theorem decodesExactly_iff (b : Blockwise) (opt : CoapOption) (hle : b.littleEndian = true) :
    DecodesExactly b opt ↔
      (IsBlockOption opt → isBlockOptionLengthCorrect opt.value.length = true →
        opt.value.length ≤ blockOptMaxLen ∧ szx opt.value ≠ 7) := by
  constructor
  · intro hexact hoption hcorrect
    exact (hexact.accepts.mp (decodeBlockOption_snd.mpr ⟨hoption, hcorrect⟩)).2.2
  intro h
  have haccepts : (b.decodeBlockOption opt).2 = true ↔ IsBlockOption opt ∧ blockOptMinLen ≤
      opt.value.length ∧ opt.value.length ≤ blockOptMaxLen ∧ szx opt.value ≠ 7 := by
    rw [decodeBlockOption_snd]
    constructor
    · rintro ⟨hoption, hcorrect⟩
      obtain ⟨hshort, hszx⟩ := h hoption hcorrect
      rw [isBlockOptionLengthCorrect_iff] at hcorrect
      exact ⟨hoption, by rw [blockOptMinLen]; omega, hshort, hszx⟩
    · rintro ⟨hoption, hmin, hmax, -⟩
      rw [blockOptMinLen] at hmin
      rw [blockOptMaxLen] at hmax
      exact ⟨hoption, isBlockOptionLengthCorrect_iff.mpr (by omega)⟩
  have hvalue : (b.decodeBlockOption opt).2 = true → (b.decodeBlockOption opt).1 =
      { b with
          size := UInt16.ofNat (2 ^ (szx opt.value + 4))
          more := decide (bigEndian opt.value / 8 % 2 = 1)
          number := UInt32.ofNat (bigEndian opt.value / 16) } := by
    intro hret
    obtain ⟨hoption, hmin, hmax, -⟩ := haccepts.mp hret
    exact decodeBlockOption_value hle hoption ⟨hmin, hmax⟩
  refine ⟨haccepts, fun hret ↦ ?_, fun hret ↦ ?_, fun hret ↦ ?_, decodeBlockOption_of_false,
    fun _ _ _ ↦ getHeader_of_false⟩
  · obtain ⟨-, hmin, hmax, -⟩ := haccepts.mp hret
    have hlt := bigEndian_lt ⟨hmin, hmax⟩
    rw [hvalue hret]
    exact UInt32.toNat_ofNat_of_lt' (by rw [UInt32.size]; omega)
  · rw [hvalue hret]
    exact decide_eq_true_iff
  · obtain ⟨-, -, -, hszx⟩ := haccepts.mp hret
    have hlt := szx_lt opt.value
    have hsizes : ∀ n < 7, (UInt16.ofNat (2 ^ (n + 4))).toNat = 2 ^ (n + 4) ∧
        16 ≤ (UInt16.ofNat (2 ^ (n + 4))).toNat ∧
        (UInt16.ofNat (2 ^ (n + 4))).toNat ≤ 1024 := by decide
    rw [hvalue hret]
    exact hsizes _ (by omega)

/-- The second block of 64 bytes, with more to come. -/
theorem decodesExactly_second :
    DecodesExactly { littleEndian := true } { number := 27, value := [0x1A] } :=
  (decodesExactly_iff { littleEndian := true } { number := 27, value := [0x1A] } rfl).mpr
    (by decide)

/-- The reserved size is accepted, and so is a value of 257 bytes. -/
theorem not_decodesExactly :
    ¬ DecodesExactly { littleEndian := true } { number := 27, value := [0x07] } ∧
      ¬ DecodesExactly { littleEndian := true }
        { number := 27, value := List.replicate 257 0 } := by
  refine ⟨fun h ↦ ?_, fun h ↦ ?_⟩
  · exact absurd (h.accepts.mp (by decide)).2.2.2 (by decide)
  · have haccept : (decodeBlockOption { littleEndian := true }
        { number := 27, value := List.replicate 257 0 }).2 = true :=
      decodeBlockOption_snd.mpr ⟨by decide, by rw [List.length_replicate]; rfl⟩
    have hshort := (h.accepts.mp haccept).2.2.1
    rw [List.length_replicate] at hshort
    exact absurd hshort (by decide)

/-! ## Size options -/

/-- The options a size option can be read from. -/
def IsSizeOption (opt : CoapOption) : Prop :=
  opt.number.toNat = size1 ∨ opt.number.toNat = size2

instance (opt : CoapOption) : Decidable (IsSizeOption opt) := inferInstanceAs (Decidable (_ ∨ _))

/-- What `decode_size_option` refuses leaves the object as it was. -/
theorem decodeSizeOption_of_not {b : Blockwise} {opt : CoapOption}
    (h : ¬ (IsSizeOption opt ∧ isBlockOptionLengthCorrect opt.value.length = true)) :
    b.decodeSizeOption opt = (b, false) := by
  by_cases hoption : IsSizeOption opt
  · have hlength : isBlockOptionLengthCorrect opt.value.length = false :=
      Bool.eq_false_iff.mpr fun hcorrect ↦ h ⟨hoption, hcorrect⟩
    rw [IsSizeOption] at hoption
    rw [decodeSizeOption, if_neg (by omega)]
    simp only [hlength, Bool.not_false, if_true]
  · rw [IsSizeOption] at hoption
    rw [decodeSizeOption, if_pos (by omega)]

theorem decodeSizeOption_eq {b : Blockwise} {opt : CoapOption} (hoption : IsSizeOption opt)
    (hlength : isBlockOptionLengthCorrect opt.value.length = true) :
    b.decodeSizeOption opt =
      ({ b with total := UInt32.ofNat (decodedTotal b.littleEndian opt.value) }, true) := by
  rw [IsSizeOption] at hoption
  rw [decodeSizeOption, if_neg (by omega)]
  simp only [hlength, Bool.not_true, Bool.false_eq_true, if_false]

theorem decodeSizeOption_snd {b : Blockwise} {opt : CoapOption} :
    (b.decodeSizeOption opt).2 = true ↔
      IsSizeOption opt ∧ isBlockOptionLengthCorrect opt.value.length = true := by
  constructor
  · intro hret
    by_contra h
    rw [decodeSizeOption_of_not h] at hret
    exact Bool.false_ne_true hret
  · rintro ⟨hoption, hlength⟩
    rw [decodeSizeOption_eq hoption hlength]

/-- The total size is the value. -/
theorem decodedTotal_eq {value : List UInt8} (h : 1 ≤ value.length ∧ value.length ≤ 3) :
    decodedTotal true value = bigEndian value := by
  obtain ⟨a, rfl⟩ | ⟨a, b, rfl⟩ | ⟨a, b, c, rfl⟩ := exists_bytes h
  · simp [decodedTotal, bigEndian]
  · have hor := or_shiftLeft (i := 8) b.toNat_lt a.toNat
    rw [Nat.or_comm] at hor
    simp [decodedTotal, bigEndian, hor]
    omega
  · have hb := b.toNat_lt
    have hc := c.toNat_lt
    have hlow := or_shiftLeft (i := 8) hc b.toNat
    rw [Nat.or_comm] at hlow
    have hor := or_shiftLeft (i := 16) (show b.toNat * 2 ^ 8 + c.toNat < 2 ^ 16 by omega) a.toNat
    simp only [decodedTotal, bigEndian, List.length_cons, List.length_nil, Nat.reduceAdd,
      Nat.reduceSub, List.getD_cons_succ, List.getD_cons_zero, Nat.reduceEqDiff, if_false, if_true,
      ge_iff_le, Nat.le_refl, hlow, hor, Nat.or_zero, List.foldl_cons, List.foldl_nil]
    omega

/-- `decode_size_option` reads the sizes of the format, and nothing else. -/
structure ReadsEverySize (b : Blockwise) (opt : CoapOption) : Prop where
  /-- It accepts size options of one to four bytes. -/
  accepts : (b.decodeSizeOption opt).2 = true ↔ IsSizeOption opt ∧ sizeOptMinLen ≤
    opt.value.length ∧ opt.value.length ≤ sizeOptMaxLen
  /-- The total size is all of the value. -/
  total : (b.decodeSizeOption opt).2 = true →
    (b.decodeSizeOption opt).1.total.toNat = bigEndian opt.value
  /-- What it refuses leaves the total size as it was. -/
  unchanged : (b.decodeSizeOption opt).2 = false → (b.decodeSizeOption opt).1.total = b.total

/-- **When `decode_size_option` reads what it should.**  It does unless the value has four bytes,
which are too many for a block option, or more than four bytes, and passes the check for its
length. -/
theorem readsEverySize_iff (b : Blockwise) (opt : CoapOption) (hle : b.littleEndian = true) :
    ReadsEverySize b opt ↔
      (IsSizeOption opt → opt.value.length ≠ sizeOptMaxLen ∧
        (isBlockOptionLengthCorrect opt.value.length = true →
          opt.value.length ≤ blockOptMaxLen)) := by
  constructor
  · intro hreads hoption
    refine ⟨fun hfour ↦ ?_, fun hcorrect ↦ ?_⟩
    · have hret := hreads.accepts.mpr ⟨hoption, by rw [hfour]; decide, hfour.le⟩
      rw [decodeSizeOption_snd, hfour] at hret
      exact absurd hret.2 (by decide)
    · obtain ⟨-, hmin, hmax⟩ := hreads.accepts.mp (decodeSizeOption_snd.mpr ⟨hoption, hcorrect⟩)
      rw [isBlockOptionLengthCorrect_iff] at hcorrect
      simp only [sizeOptMinLen, sizeOptMaxLen, blockOptMaxLen] at hmin hmax ⊢
      omega
  · intro h
    refine ⟨?_, fun hret ↦ ?_, fun hret ↦ ?_⟩
    · rw [decodeSizeOption_snd, isBlockOptionLengthCorrect_iff]
      refine and_congr_right fun hoption ↦ ?_
      obtain ⟨hfour, hshort⟩ := h hoption
      simp only [isBlockOptionLengthCorrect_iff, sizeOptMinLen, sizeOptMaxLen,
        blockOptMaxLen] at hfour hshort ⊢
      omega
    · obtain ⟨hoption, hcorrect⟩ := decodeSizeOption_snd.mp hret
      have hlength : 1 ≤ opt.value.length ∧ opt.value.length ≤ 3 := by
        have hshort := (h hoption).2 hcorrect
        rw [isBlockOptionLengthCorrect_iff] at hcorrect
        exact ⟨by omega, hshort⟩
      have hlt := bigEndian_lt hlength
      rw [decodeSizeOption_eq hoption hcorrect, hle, decodedTotal_eq hlength]
      exact UInt32.toNat_ofNat_of_lt' (by rw [UInt32.size]; omega)
    · rw [decodeSizeOption_of_not]
      intro haccept
      rw [decodeSizeOption_snd.mpr haccept] at hret
      cases hret

/-- A size option says that a transfer has 1000 bytes. -/
theorem readsEverySize_1000 :
    ReadsEverySize { littleEndian := true } { number := 60, value := [0x03, 0xE8] } :=
  (readsEverySize_iff { littleEndian := true } { number := 60, value := [0x03, 0xE8] } rfl).mpr
    (by decide)

/-- A transfer of 16777216 bytes is not understood. -/
theorem not_readsEverySize :
    ¬ ReadsEverySize { littleEndian := true } { number := 60, value := [1, 0, 0, 0] } := by
  intro h
  exact absurd (h.accepts.mpr (by decide)) (by decide)

end Blockwise

end Coap
