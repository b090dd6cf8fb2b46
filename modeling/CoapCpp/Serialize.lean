import CoapCpp.Message
import CoapCpp.Rfc7252

/-!
# Serializing a packet

`Packet::serialize` and its helpers, as `src/packet.cc` has them.  The function has two modes: it
either writes into a buffer of `size` bytes, or only counts the bytes it would write
(`checkBufferSizeOnly`).  In both modes `size` comes back as the number of bytes.

Every error of `serialize` is reported behind an `assert(0)`, so in a build that keeps its asserts
it never returns with `ec` set; the error codes are in the model where the source has them.

The second half of the file says what the bytes are.  `Packet.bytes` is the message as a list,
`serialize_countOnly` says that counting counts it, and `serialize_write` says what becomes of
writing it into a buffer of any size: it goes through, it is caught by a failed assert, or it runs
over the end of the buffer.  Which of the three it is depends on where the buffer ends.
-/

set_option autoImplicit false

namespace Coap

open Memory

/-! ## The code -/

/-- A subtraction of two values of type `size_t`, which has 64 bits. -/
def sizeSub (a b : ℕ) : ℕ := (UInt64.ofNat a - UInt64.ofNat b).toNat

/-- `get_option_nibble` -/
def getOptionNibble (value : ℕ) : ℕ :=
  if value < minusThirteenOptValue then value &&& 0xFF
  else if value ≤ 0xFF + minusThirteenOptValue then minusThirteen
  else if value ≤ 0xFFFF + minusTwoHundredSixtyNineOptValue then minusTwoHundredSixtyNine
  else 0

/-- `make_option`: the buffer, the offset and `ec`. -/
def makeOption (buffer : Option (Cells UInt8)) (size offset firstParsing secondParsing : ℕ)
    (checkBufferSizeOnly : Bool) :
    Except Fault (Option (Cells UInt8) × ℕ × Option ErrorCode) := do
  if !checkBufferSizeOnly && buffer.isNone then
    return (buffer, offset, some (.system .efault))
  let (buffer, offset) ←
    if firstParsing = minusThirteen then
      if checkBufferSizeOnly then
        pure (buffer, offset + 1)
      else do
        let buffer ← storeAt buffer offset
          (UInt8.ofNat (sizeSub secondParsing minusThirteenOptValue))
        pure (buffer, offset + 1)
    else if firstParsing = minusTwoHundredSixtyNine then
      if checkBufferSizeOnly then
        pure (buffer, offset + 2)
      else do
        let buffer ← storeAt buffer offset
          (UInt8.ofNat (sizeSub secondParsing minusTwoHundredSixtyNineOptValue >>> 8))
        let buffer ← storeAt buffer (offset + 1)
          (UInt8.ofNat (sizeSub secondParsing minusTwoHundredSixtyNineOptValue &&& 0xFF))
        pure (buffer, offset + 1 + 1)
    else
      pure (buffer, offset)
  if !checkBufferSizeOnly && offset ≥ size then
    return (buffer, offset, some (.coap .bufferSize))
  return (buffer, offset, none)

/-- `exit_if_buffer_overflow`: the error `serialize` is to return with, if any. -/
def exitIfBufferOverflow (o s : ℕ) (f : Bool) : Except Fault (Option ErrorCode) := do
  if !f && o > s then
    assert false
    return some (.coap .bufferSize)
  return none

/-- The loop of `serialize` over the options, with the number of the option before. -/
def serializeOptions (size : ℕ) (checkBufferSizeOnly : Bool) :
    List CoapOption → Option (Cells UInt8) → ℕ → ℕ →
      Except Fault (Option ErrorCode × Option (Cells UInt8) × ℕ)
  | [], buf, offset, _ => return (none, buf, offset)
  | opt :: options, buf, offset, optNumDelta => do
    if let some e ← exitIfBufferOverflow offset size checkBufferSizeOnly then
      return (some e, buf, offset)
    let optDelta := sizeSub opt.number.toNat optNumDelta
    let deltaNibble := getOptionNibble optDelta
    let lengthNibble := getOptionNibble opt.value.length
    let buf ←
      if checkBufferSizeOnly then pure buf
      else storeAt buf offset (UInt8.ofNat ((deltaNibble <<< 4 ||| lengthNibble) &&& 0xFF))
    let offset := offset + 1
    if let some e ← exitIfBufferOverflow offset size checkBufferSizeOnly then
      return (some e, buf, offset)
    let (buf, offset, ec) ← makeOption buf size offset deltaNibble optDelta checkBufferSizeOnly
    if ec.isSome then
      assert false
      return (ec, buf, offset)
    let (buf, offset, ec) ←
      makeOption buf size offset lengthNibble opt.value.length checkBufferSizeOnly
    if ec.isSome then
      assert false
      return (ec, buf, offset)
    let buf ← if checkBufferSizeOnly then pure buf else blitAt buf offset opt.value
    let offset := offset + opt.value.length
    if let some e ← exitIfBufferOverflow offset size checkBufferSizeOnly then
      return (some e, buf, offset)
    serializeOptions size checkBufferSizeOnly options buf offset opt.number.toNat

/-- What `serialize` leaves behind when it returns: `ec`, the buffer, and `size`. -/
structure Serialized where
  /-- `ec` -/
  ec : Option ErrorCode
  /-- The block `buffer` points to. -/
  buffer : Option (Cells UInt8)
  /-- `size`, which is passed by reference. -/
  size : ℕ
deriving DecidableEq

namespace Packet

/-- The part of `serialize` that writes the first four bytes. -/
def serializeHeader (p : Packet) (buf : Option (Cells UInt8)) (checkBufferSizeOnly : Bool) :
    Except Fault (Option (Cells UInt8)) := do
  let offset := messageIdOffset
  if checkBufferSizeOnly then
    return buf
  else
    let buf ← storeAt buf headerOffset p.header
    let buf ← storeAt buf codeOffset p.code
    if p.littleEndian then
      let buf ← storeAt buf offset (UInt8.ofNat (p.identity.toNat >>> 8 &&& 0xFF))
      storeAt buf (offset + 1) (UInt8.ofNat (p.identity.toNat &&& 0xFF))
    else
      let buf ← storeAt buf offset (UInt8.ofNat (p.identity.toNat &&& 0xFF))
      storeAt buf (offset + 1) (UInt8.ofNat (p.identity.toNat >>> 8 &&& 0xFF))

/-- The part of `serialize` that writes the token. -/
def serializeToken (p : Packet) (buf : Option (Cells UInt8)) (checkBufferSizeOnly : Bool) :
    Except Fault (Option (Cells UInt8)) :=
  if p.tokenLength ≠ 0 ∧ ¬ checkBufferSizeOnly then
    blitAt buf tokenOffset (p.token.bytes.take p.tokenLength)
  else
    return buf

/-- The part of `serialize` behind the option loop. -/
def serializePayload (p : Packet) (buf : Option (Cells UInt8)) (size offset : ℕ)
    (checkBufferSizeOnly : Bool) : Except Fault Serialized := do
  if p.payload.length ≠ 0 then
    if let some e ← exitIfBufferOverflow offset size checkBufferSizeOnly then
      return ⟨some e, buf, size⟩
    let buf ← if checkBufferSizeOnly then pure buf else storeAt buf offset payloadMarker
    let offset := offset + 1
    if let some e ← exitIfBufferOverflow offset size checkBufferSizeOnly then
      return ⟨some e, buf, size⟩
    if let some e ← exitIfBufferOverflow (offset + p.payload.length) size checkBufferSizeOnly then
      return ⟨some e, buf, size⟩
    let buf ← if checkBufferSizeOnly then pure buf else blitAt buf offset p.payload
    return ⟨none, buf, offset + p.payload.length⟩
  else
    return ⟨none, buf, offset⟩

/-- `serialize` -/
def serialize (p : Packet) (buffer : Option (Cells UInt8)) (size : ℕ)
    (checkBufferSizeOnly : Bool) : Except Fault Serialized := do
  if !checkBufferSizeOnly && buffer.isNone then
    assert false
    return ⟨some (.system .efault), buffer, size⟩
  if !checkBufferSizeOnly && size < packetMinLength + p.tokenLength then
    assert false
    return ⟨some (.system .einval), buffer, size⟩
  let buf ← p.serializeHeader buffer checkBufferSizeOnly
  if p.tokenLength > tokenMaxLength then
    assert false
    return ⟨some (.coap .tokenLength), buf, size⟩
  let buf ← p.serializeToken buf checkBufferSizeOnly
  let offset := tokenOffset + p.tokenLength
  if let some e ← exitIfBufferOverflow offset size checkBufferSizeOnly then
    return ⟨some e, buf, size⟩
  let (ec, buf, offset) ← serializeOptions size checkBufferSizeOnly p.options buf offset 0
  if ec.isSome then
    return ⟨ec, buf, size⟩
  p.serializePayload buf size offset checkBufferSizeOnly

end Packet

/-! ## The bytes -/

/-- The bytes `make_option` adds for a field: none for a value no field can carry. -/
def fieldBytes (n : ℕ) : List UInt8 := if n ≤ Rfc7252.maxField then Rfc7252.extension n else []

/-- The header byte of an option, behind an option of number `prev`. -/
def optionHeader (prev : ℕ) (o : CoapOption) : UInt8 :=
  UInt8.ofNat ((getOptionNibble (sizeSub o.number.toNat prev) <<< 4 |||
    getOptionNibble o.value.length) &&& 0xFF)

/-- The bytes of an option, behind an option of number `prev`. -/
def optionBytes (prev : ℕ) (o : CoapOption) : List UInt8 :=
  optionHeader prev o ::
    (fieldBytes (sizeSub o.number.toNat prev) ++ fieldBytes o.value.length ++ o.value)

/-- The bytes of the options, behind an option of number `prev`. -/
def optionsBytes : ℕ → List CoapOption → List UInt8
  | _, [] => []
  | prev, o :: os => optionBytes prev o ++ optionsBytes o.number.toNat os

/-- The two bytes of the message id. -/
def identityBytes (littleEndian : Bool) (identity : UInt16) : List UInt8 :=
  let hi := UInt8.ofNat (identity.toNat >>> 8 &&& 0xFF)
  let lo := UInt8.ofNat (identity.toNat &&& 0xFF)
  if littleEndian then [hi, lo] else [lo, hi]

/-- The first four bytes of a message, and its token. -/
def Packet.headBytes (p : Packet) : List UInt8 :=
  p.header :: p.code :: (identityBytes p.littleEndian p.identity ++ p.tokenBytes)

/-- The message `serialize` writes. -/
def Packet.bytes (p : Packet) : List UInt8 :=
  p.headBytes ++ (optionsBytes 0 p.options ++ Rfc7252.encodePayload p.payload)

/-- Where the fields of the options end, behind an option of number `prev`: behind the delta and
behind the length of every option. -/
def fieldEnds : ℕ → List CoapOption → List ℕ
  | _, [] => []
  | prev, o :: os =>
    (1 + (fieldBytes (sizeSub o.number.toNat prev)).length) ::
      (1 + (fieldBytes (sizeSub o.number.toNat prev)).length +
        (fieldBytes o.value.length).length) ::
      (fieldEnds o.number.toNat os).map ((optionBytes prev o).length + ·)

/-! ## One field -/

theorem getOptionNibble_eq (n : ℕ) :
    getOptionNibble n = if n ≤ Rfc7252.maxField then Rfc7252.nibble n else 0 := by
  simp only [getOptionNibble, Rfc7252.nibble, Rfc7252.maxField, minusThirteenOptValue,
    minusThirteen, minusTwoHundredSixtyNineOptValue, minusTwoHundredSixtyNine]
  have hand : ∀ m < 13, m &&& 0xFF = m := by decide
  by_cases h13 : n < 13
  · simp [h13, hand n h13, show n ≤ 65804 by omega]
  · by_cases h269 : n < 269
    · simp [h13, h269, show n ≤ 268 by omega, show n ≤ 65804 by omega]
    · simp [h13, h269, show ¬ n ≤ 268 by omega]

theorem getOptionNibble_lt (n : ℕ) : getOptionNibble n < 15 := by
  rw [getOptionNibble_eq]
  split
  · exact Rfc7252.nibble_lt n
  · decide

theorem sizeSub_of_le {a b : ℕ} (hab : b ≤ a) (ha : a < 2 ^ 64) : sizeSub a b = a - b := by
  rw [sizeSub, UInt64.toNat_sub, UInt64.toNat_ofNat', UInt64.toNat_ofNat']
  omega

theorem makeOption_countOnly (buf : Option (Cells UInt8)) (size offset n : ℕ) :
    makeOption buf size offset (getOptionNibble n) n true =
      .ok (buf, offset + (fieldBytes n).length, none) := by
  simp only [makeOption, Bool.not_true, Bool.false_and, Bool.false_eq_true, if_false, if_true,
    pure_eq_ok, ok_bind, minusThirteen, minusTwoHundredSixtyNine, getOptionNibble_eq, fieldBytes,
    Rfc7252.nibble, Rfc7252.extension, Rfc7252.maxField]
  by_cases hmax : n ≤ 65804
  · by_cases h13 : n < 13
    · simp [h13, hmax, show n ≠ 13 by omega, show n ≠ 14 by omega]
    · by_cases h269 : n < 269
      · simp [h13, h269, hmax]
      · simp [h13, h269, hmax]
  · simp [hmax]

/-- `make_option` at the front of the buffer: the bytes of the field are written, and the buffer
must not end right behind them. -/
theorem makeOption_write {done : List UInt8} {todo : Cells UInt8} {size : ℕ}
    (hsize : size = done.length + todo.length) (n : ℕ) :
    makeOption (some (front done todo)) size done.length (getOptionNibble n) n false =
      if (fieldBytes n).length ≤ todo.length then
        .ok (some (front (done ++ fieldBytes n) (todo.drop (fieldBytes n).length)),
          done.length + (fieldBytes n).length,
          if todo.length = (fieldBytes n).length then some (.coap .bufferSize) else none)
      else .error (.outOfBounds size) := by
  simp only [makeOption, Bool.not_false, Bool.true_and, Option.isNone_some, Bool.false_eq_true,
    if_false, pure_eq_ok, minusThirteen, minusTwoHundredSixtyNine, getOptionNibble_eq, fieldBytes,
    Rfc7252.nibble, Rfc7252.extension, Rfc7252.maxField, storeAt_front, hsize]
  by_cases hmax : n ≤ 65804
  · by_cases h13 : n < 13
    · simp [h13, hmax, show n ≠ 13 by omega, show n ≠ 14 by omega]
      split <;> rfl
    · by_cases h269 : n < 269
      · have hbyte : UInt8.ofNat (sizeSub n 13) = UInt8.ofNat (n - 13) := by
          rw [sizeSub_of_le (by omega) (by omega)]
        cases todo with
        | nil => simp [h13, h269, hmax]
        | cons c todo =>
          simp [h13, h269, hmax, hbyte]
          split <;> rfl
      · have hhi : UInt8.ofNat (sizeSub n 269 >>> 8) = UInt8.ofNat ((n - 269) / 256) := by
          rw [sizeSub_of_le (by omega) (by omega), Nat.shiftRight_eq_div_pow]
        have hlo : UInt8.ofNat (sizeSub n 269 &&& 0xFF) = UInt8.ofNat ((n - 269) % 256) := by
          rw [sizeSub_of_le (by omega) (by omega)]
          exact congrArg UInt8.ofNat (Nat.and_two_pow_sub_one_eq_mod (n - 269) 8)
        have hsecond := fun (x : UInt8) (t : Cells UInt8) (y : UInt8) ↦
          storeAt_front (done ++ [x]) t y
        simp only [List.length_append, List.length_cons, List.length_nil] at hsecond
        cases todo with
        | nil => simp [h13, h269, hmax]
        | cons c todo =>
          cases todo with
          | nil => simp [h13, h269, hmax, hsecond]
          | cons c' todo =>
            have hend : done.length + (todo.length + 1 + 1) ≤ done.length + 1 + 1 ↔ todo = [] := by
              rw [← List.length_eq_zero_iff]; omega
            simp [h13, h269, hmax, hsecond, hhi, hlo, hend]
            split <;> rfl
  · simp [hmax]
    split <;> rfl

/-! ## One option -/

theorem exitIfBufferOverflow_countOnly (o s : ℕ) : exitIfBufferOverflow o s true = .ok none := by
  simp [exitIfBufferOverflow]

theorem exitIfBufferOverflow_of_le {o s : ℕ} (h : o ≤ s) :
    exitIfBufferOverflow o s false = .ok none := by
  simp [exitIfBufferOverflow, show ¬ s < o by omega]

theorem exitIfBufferOverflow_of_lt {o s : ℕ} (h : s < o) :
    exitIfBufferOverflow o s false = .error .assertion := by
  simp [exitIfBufferOverflow, h]

theorem optionBytes_eq (prev : ℕ) (o : CoapOption) :
    optionBytes prev o = [optionHeader prev o] ++
      (fieldBytes (sizeSub o.number.toNat prev) ++ fieldBytes o.value.length ++ o.value) := rfl

theorem length_optionBytes (prev : ℕ) (o : CoapOption) :
    (optionBytes prev o).length = 1 + (fieldBytes (sizeSub o.number.toNat prev)).length +
      (fieldBytes o.value.length).length + o.value.length := by
  rw [optionBytes, List.length_cons, List.length_append, List.length_append, Nat.add_comm,
    Nat.add_assoc, Nat.add_assoc, Nat.add_assoc]

theorem mem_fieldEnds_cons {r prev : ℕ} {o : CoapOption} {os : List CoapOption} :
    r ∈ fieldEnds prev (o :: os) ↔
      r = 1 + (fieldBytes (sizeSub o.number.toNat prev)).length ∨
      r = 1 + (fieldBytes (sizeSub o.number.toNat prev)).length +
        (fieldBytes o.value.length).length ∨
      (optionBytes prev o).length ≤ r ∧
        r - (optionBytes prev o).length ∈ fieldEnds o.number.toNat os := by
  have hmap : r ∈ (fieldEnds o.number.toNat os).map ((optionBytes prev o).length + ·) ↔
      (optionBytes prev o).length ≤ r ∧
        r - (optionBytes prev o).length ∈ fieldEnds o.number.toNat os := by
    rw [List.mem_map]
    constructor
    · rintro ⟨k, hk, rfl⟩
      exact ⟨Nat.le_add_right _ _, by rwa [Nat.add_sub_cancel_left]⟩
    · rintro ⟨hle, hk⟩
      exact ⟨_, hk, by omega⟩
  simp only [fieldEnds, List.mem_cons, hmap]

theorem serializeOptions_countOnly_cons (size : ℕ) (o : CoapOption) (os : List CoapOption)
    (buf : Option (Cells UInt8)) (offset prev : ℕ) :
    serializeOptions size true (o :: os) buf offset prev =
      serializeOptions size true os buf (offset + (optionBytes prev o).length)
        o.number.toNat := by
  simp only [serializeOptions, exitIfBufferOverflow_countOnly, ok_bind, makeOption_countOnly,
    if_true, pure_eq_ok, Option.isSome_none, Bool.false_eq_true, if_false, length_optionBytes,
    Nat.add_assoc]

/-- **One turn of the option loop at the front of the buffer.**  An option that fits is written,
unless the buffer ends right behind one of its two fields; otherwise the loop runs over the end. -/
theorem serializeOptions_write_cons {done : List UInt8} {todo : Cells UInt8} {size : ℕ}
    (hsize : size = done.length + todo.length) (o : CoapOption) (os : List CoapOption) (prev : ℕ) :
    serializeOptions size false (o :: os) (some (front done todo)) done.length prev =
      if todo.length = 1 + (fieldBytes (sizeSub o.number.toNat prev)).length ∨
          todo.length = 1 + (fieldBytes (sizeSub o.number.toNat prev)).length +
            (fieldBytes o.value.length).length then .error .assertion
      else if (optionBytes prev o).length ≤ todo.length then
        serializeOptions size false os
          (some (front (done ++ optionBytes prev o) (todo.drop (optionBytes prev o).length)))
          (done ++ optionBytes prev o).length o.number.toNat
      else .error (.outOfBounds size) := by
  have hlen := length_optionBytes prev o
  have hbytes : done ++ optionBytes prev o = done ++ [optionHeader prev o] ++
      fieldBytes (sizeSub o.number.toNat prev) ++ fieldBytes o.value.length ++ o.value := by
    rw [optionBytes_eq, ← List.append_assoc, ← List.append_assoc, ← List.append_assoc]
  have hdelta := fun (done : List UInt8) (todo : Cells UInt8)
    (h : size = done.length + todo.length) ↦ makeOption_write h (sizeSub o.number.toNat prev)
  have hlength := fun (done : List UInt8) (todo : Cells UInt8)
    (h : size = done.length + todo.length) ↦ makeOption_write h o.value.length
  simp only [serializeOptions, ← optionHeader.eq_1]
  generalize sizeSub o.number.toNat prev = delta at *
  generalize fieldBytes delta = d at *
  generalize fieldBytes o.value.length = l at *
  generalize optionBytes prev o = bytes at *
  generalize optionHeader prev o = header at *
  rw [exitIfBufferOverflow_of_le (by omega), ok_bind]
  simp only [Bool.false_eq_true, if_false, storeAt_front]
  cases todo with
  | nil =>
    simp only [List.length_nil, Nat.add_zero] at hsize ⊢
    rw [if_pos trivial, error_bind, if_neg (by omega), if_neg (by omega), hsize]
  | cons c todo =>
    simp only [List.length_cons] at hsize ⊢
    rw [if_neg (List.cons_ne_nil c todo), ok_bind, exitIfBufferOverflow_of_le (by omega), ok_bind]
    have hdelta := hdelta (done ++ [header]) todo (by simp; omega)
    rw [List.length_append, List.length_singleton] at hdelta
    simp only [List.tail_cons, hdelta]
    by_cases hfit : d.length ≤ todo.length
    swap
    · rw [if_neg hfit, error_bind, if_neg (by omega), if_neg (by omega)]
    rw [if_pos hfit, ok_bind]
    by_cases hexact : todo.length = d.length
    · simp only [hexact, if_true, Option.isSome_some, assert_false, error_bind]
      rw [if_pos (by omega)]
    simp only [if_neg hexact, Option.isSome_none, Bool.false_eq_true, if_false]
    have hsize' : size = (done ++ [header] ++ d).length + (todo.drop d.length).length := by
      simp only [List.length_append, List.length_drop, List.length_cons, List.length_nil]
      omega
    have hlength := hlength (done ++ [header] ++ d) (todo.drop d.length) hsize'
    rw [List.length_append, List.length_append, List.length_singleton] at hlength
    simp only [hlength]
    by_cases hfit' : l.length ≤ (todo.drop d.length).length
    swap
    · rw [if_neg hfit', error_bind]
      rw [List.length_drop] at hfit'
      rw [if_neg (by omega), if_neg (by omega)]
    rw [if_pos hfit', ok_bind]
    by_cases hexact' : (todo.drop d.length).length = l.length
    · simp only [hexact', if_true, Option.isSome_some, assert_false, error_bind]
      rw [List.length_drop] at hexact'
      rw [if_pos (by omega)]
    simp only [if_neg hexact', Option.isSome_none, Bool.false_eq_true, if_false]
    have hvalue := blitAt_front (done ++ [header] ++ d ++ l) o.value
      ((todo.drop d.length).drop l.length)
    rw [List.length_drop] at hfit' hexact'
    simp only [List.length_append, List.length_singleton, List.drop_drop, List.length_drop]
      at hvalue ⊢
    by_cases hroom : o.value.length ≤ todo.length - (d.length + l.length)
    · have hdrop : List.drop bytes.length (c :: todo) =
          todo.drop (d.length + l.length + o.value.length) := by
        rw [show bytes.length = d.length + l.length + o.value.length + 1 by omega,
          List.drop_succ_cons]
      have hend : done.length + 1 + d.length + l.length + o.value.length =
          done.length + bytes.length := by omega
      rw [hvalue, if_pos hroom, ok_bind, exitIfBufferOverflow_of_le (by omega), ok_bind,
        if_neg (by omega), if_pos (by omega), hbytes, hdrop, hend]
    · rw [hvalue, if_neg hroom, error_bind, if_neg (by omega), if_neg (by omega)]
      congr 2
      omega

/-! ## All options -/

/-- Counting the options counts their bytes. -/
theorem serializeOptions_countOnly (size : ℕ) (os : List CoapOption) (buf : Option (Cells UInt8))
    (offset prev : ℕ) :
    serializeOptions size true os buf offset prev =
      .ok (none, buf, offset + (optionsBytes prev os).length) := by
  induction os generalizing offset prev with
  | nil => rfl
  | cons o os ih =>
    rw [serializeOptions_countOnly_cons, ih, optionsBytes, List.length_append, Nat.add_assoc]

/-- **Writing the options at the front of the buffer.**  The loop fails an assert if the buffer ends
right behind a field; otherwise it writes the options if they fit, and runs over the end of the
buffer if they do not. -/
theorem serializeOptions_write (os : List CoapOption) {done : List UInt8} {todo : Cells UInt8}
    {size : ℕ} (hsize : size = done.length + todo.length) (prev : ℕ) :
    serializeOptions size false os (some (front done todo)) done.length prev =
      if todo.length ∈ fieldEnds prev os then .error .assertion
      else if (optionsBytes prev os).length ≤ todo.length then
        .ok (none, some (front (done ++ optionsBytes prev os)
          (todo.drop (optionsBytes prev os).length)), (done ++ optionsBytes prev os).length)
      else .error (.outOfBounds size) := by
  induction os generalizing done todo prev with
  | nil =>
    rw [if_neg (by simp [fieldEnds]), if_pos (by simp [optionsBytes]), optionsBytes,
      List.append_nil, List.length_nil, List.drop_zero]
    rfl
  | cons o os ih =>
    rw [serializeOptions_write_cons hsize]
    have hmem := @mem_fieldEnds_cons todo.length prev o os
    have hlen := length_optionBytes prev o
    have hih := fun hle : (optionBytes prev o).length ≤ todo.length ↦
      @ih (done ++ optionBytes prev o) (todo.drop (optionBytes prev o).length)
        (by rw [List.length_append, List.length_drop, hsize]
            generalize (optionBytes prev o).length = n at *
            omega) o.number.toNat
    simp only [optionsBytes, List.length_append, List.length_drop, List.append_assoc,
      List.drop_drop] at hih ⊢
    generalize fieldBytes (sizeSub o.number.toNat prev) = d at *
    generalize fieldBytes o.value.length = l at *
    generalize optionBytes prev o = bytes at *
    generalize optionsBytes o.number.toNat os = rest at *
    generalize fieldEnds prev (o :: os) = ends at *
    generalize fieldEnds o.number.toNat os = restEnds at *
    by_cases hfield : todo.length = 1 + d.length ∨ todo.length = 1 + d.length + l.length
    · rw [if_pos hfield, if_pos (hmem.mpr (by omega))]
    rw [if_neg hfield]
    have hmem : todo.length ∈ ends ↔
        bytes.length ≤ todo.length ∧ todo.length - bytes.length ∈ restEnds := by
      rw [hmem]; tauto
    by_cases hfit : bytes.length ≤ todo.length
    · rw [if_pos hfit, hih hfit]
      simp only [hmem, hfit, true_and]
      by_cases hrest : rest.length ≤ todo.length - bytes.length
      · rw [if_pos hrest, if_pos (show bytes.length + rest.length ≤ todo.length by omega)]
      · rw [if_neg hrest, if_neg (show ¬ bytes.length + rest.length ≤ todo.length by omega)]
    · rw [if_neg hfit, if_neg fun h ↦ hfit (hmem.mp h).1, if_neg (by omega)]

/-! ## The message -/

theorem Packet.headBytes_length (p : Packet) (h : p.tokenLength ≤ tokenMaxLength) :
    p.headBytes.length = 4 + p.tokenLength := by
  have hid : (identityBytes p.littleEndian p.identity).length = 2 := by
    rw [identityBytes]; split <;> rfl
  rw [headBytes, List.length_cons, List.length_cons, List.length_append, hid,
    p.tokenBytes_length h]
  omega

theorem Packet.serializePayload_countOnly (p : Packet) (buf : Option (Cells UInt8))
    (size offset : ℕ) :
    p.serializePayload buf size offset true =
      .ok ⟨none, buf, offset + (Rfc7252.encodePayload p.payload).length⟩ := by
  by_cases hpayload : p.payload = []
  · simp [serializePayload, hpayload, Rfc7252.encodePayload]
  · simp only [serializePayload, exitIfBufferOverflow_countOnly, ok_bind, if_true, pure_eq_ok,
      Rfc7252.encodePayload, if_neg hpayload, List.length_cons]
    rw [if_pos (by simpa using hpayload)]
    congr 2
    omega

/-- **Counting counts the bytes of the message.** -/
theorem Packet.serialize_countOnly (p : Packet) (buf : Option (Cells UInt8)) (size : ℕ) :
    p.serialize buf size true =
      if p.tokenLength ≤ tokenMaxLength then .ok ⟨none, buf, p.bytes.length⟩
      else .error .assertion := by
  simp only [serialize, serializeHeader, serializeToken, Bool.not_true, Bool.false_and,
    Bool.false_eq_true, if_false, if_true, pure_eq_ok, ok_bind, gt_iff_lt, not_true_eq_false,
    and_false, exitIfBufferOverflow_countOnly, serializeOptions_countOnly, Option.isSome_none,
    tokenOffset, serializePayload_countOnly]
  by_cases h8 : p.tokenLength ≤ tokenMaxLength
  · rw [if_neg (by omega), if_pos h8, bytes, List.length_append, List.length_append,
      p.headBytes_length h8, Nat.add_assoc (4 + p.tokenLength)]
  · rw [if_pos (by omega), if_neg h8, assert_false, error_bind]

/-! ## Writing the message -/

/-- Buffers that `serialize` refuses with a failed assert: too small for header and token, ending
right behind a field of an option, or with room for the options but not for marker and payload. A
token length above eight is refused for every buffer. -/
def Packet.Refuses (p : Packet) (s : ℕ) : Prop :=
  s < 4 + p.tokenLength ∨ tokenMaxLength < p.tokenLength ∨
    s - (4 + p.tokenLength) ∈ fieldEnds 0 p.options ∨
    (4 + p.tokenLength + (optionsBytes 0 p.options).length < s ∧ s < p.bytes.length)

instance (p : Packet) (s : ℕ) : Decidable (p.Refuses s) := inferInstanceAs (Decidable (_ ∨ _))

/-- The first four bytes, written into a block that has room for them. -/
theorem Packet.serializeHeader_write (p : Packet) (c₀ c₁ c₂ c₃ : Option UInt8)
    (todo : Cells UInt8) :
    p.serializeHeader (some (c₀ :: c₁ :: c₂ :: c₃ :: todo)) false =
      .ok (some (front (p.header :: p.code :: identityBytes p.littleEndian p.identity) todo)) := by
  cases hle : p.littleEndian <;>
    simp [serializeHeader, hle, storeAt, store, identityBytes, front, Except.map]

theorem Packet.serializeToken_write (p : Packet) {todo : Cells UInt8}
    (h8 : p.tokenLength ≤ tokenMaxLength) (hroom : p.tokenLength ≤ todo.length) :
    p.serializeToken
        (some (front (p.header :: p.code :: identityBytes p.littleEndian p.identity) todo)) false =
      .ok (some (front p.headBytes (todo.drop p.tokenLength))) := by
  have hfour : (p.header :: p.code :: identityBytes p.littleEndian p.identity).length = 4 := by
    rw [List.length_cons, List.length_cons, identityBytes]; split <;> rfl
  have hblit := blitAt_front (p.header :: p.code :: identityBytes p.littleEndian p.identity)
    p.tokenBytes todo
  rw [hfour, p.tokenBytes_length h8, if_pos hroom] at hblit
  rw [serializeToken]
  by_cases h0 : p.tokenLength = 0
  · simp [h0, headBytes, tokenBytes]
  · rw [if_pos ⟨h0, Bool.false_ne_true⟩]
    exact hblit

theorem Packet.serializePayload_write (p : Packet) {done : List UInt8} {todo : Cells UInt8}
    {size : ℕ} (hsize : size = done.length + todo.length) :
    p.serializePayload (some (front done todo)) size done.length false =
      if todo ≠ [] ∧ todo.length < (Rfc7252.encodePayload p.payload).length then .error .assertion
      else if (Rfc7252.encodePayload p.payload).length ≤ todo.length then
        .ok ⟨none, some (front (done ++ Rfc7252.encodePayload p.payload)
            (todo.drop (Rfc7252.encodePayload p.payload).length)),
          (done ++ Rfc7252.encodePayload p.payload).length⟩
      else .error (.outOfBounds size) := by
  by_cases hpayload : p.payload = []
  · simp [serializePayload, hpayload, Rfc7252.encodePayload]
  simp only [serializePayload, Rfc7252.encodePayload, if_neg hpayload, List.length_append,
    List.length_cons, Bool.false_eq_true, if_false]
  rw [if_pos (by simpa using hpayload), exitIfBufferOverflow_of_le (by omega), ok_bind]
  simp only [storeAt_front]
  cases todo with
  | nil => simp [hsize]
  | cons c todo =>
    rw [List.length_cons] at hsize
    rw [if_neg (List.cons_ne_nil c todo), ok_bind, exitIfBufferOverflow_of_le (by omega), ok_bind]
    simp only [List.tail_cons, List.length_cons]
    by_cases hfit : todo.length < p.payload.length
    · rw [exitIfBufferOverflow_of_lt (by omega), error_bind, if_pos ⟨by simp, by omega⟩]
    · have hblit := blitAt_front (done ++ [payloadMarker]) p.payload todo
      rw [List.length_append, List.length_singleton, if_pos (by omega)] at hblit
      rw [exitIfBufferOverflow_of_le (by omega), ok_bind, if_neg (by omega), if_pos (by omega)]
      simp only [hblit, ok_bind, pure_eq_ok, List.append_assoc, List.singleton_append,
        List.drop_succ_cons]
      congr 2
      omega

/-- **Writing a message into a buffer.**  Unless the buffer is refused, the message is written if
it fits, and otherwise `serialize` writes over the end of the buffer. -/
theorem Packet.serialize_write (p : Packet) (buf : Cells UInt8) :
    p.serialize (some buf) buf.length false =
      if p.Refuses buf.length then .error .assertion
      else if p.bytes.length ≤ buf.length then
        .ok ⟨none, some (front p.bytes (buf.drop p.bytes.length)), p.bytes.length⟩
      else .error (.outOfBounds buf.length) := by
  by_cases hsmall : buf.length < 4 + p.tokenLength
  · rw [if_pos (.inl hsmall)]
    simp [serialize, hsmall]
  obtain ⟨c₀, c₁, c₂, c₃, todo, rfl⟩ : ∃ c₀ c₁ c₂ c₃ todo, buf = c₀ :: c₁ :: c₂ :: c₃ :: todo := by
    match buf, show 4 ≤ buf.length by omega with
    | c₀ :: c₁ :: c₂ :: c₃ :: todo, _ => exact ⟨c₀, c₁, c₂, c₃, todo, rfl⟩
  simp only [serialize, Bool.not_false, Option.isNone_some, Bool.false_eq_true, if_false,
    packetMinLength, packetHeaderSize, hsmall, Bool.true_and, decide_false,
    p.serializeHeader_write, ok_bind]
  by_cases h8 : tokenMaxLength < p.tokenLength
  · have hrefuses : p.Refuses (c₀ :: c₁ :: c₂ :: c₃ :: todo).length := .inr (.inl h8)
    rw [if_pos h8, assert_false, error_bind, if_pos hrefuses]
  simp only [List.length_cons] at hsmall ⊢
  have hhead := p.headBytes_length (by omega)
  rw [if_neg h8, p.serializeToken_write (by omega) (by omega), ok_bind,
    exitIfBufferOverflow_of_le (by simp only [tokenOffset]; omega), ok_bind]
  have hsize : todo.length + 1 + 1 + 1 + 1 = p.headBytes.length +
      (todo.drop p.tokenLength).length := by rw [hhead, List.length_drop]; omega
  have hoptions := serializeOptions_write p.options hsize 0
  rw [show tokenOffset + p.tokenLength = p.headBytes.length from hhead.symm, hoptions]
  have hleft : (todo.drop p.tokenLength).length =
      todo.length + 1 + 1 + 1 + 1 - (4 + p.tokenLength) := by rw [List.length_drop]; omega
  have hrefuses : p.Refuses (todo.length + 1 + 1 + 1 + 1) ↔
      (todo.drop p.tokenLength).length ∈ fieldEnds 0 p.options ∨
        (4 + p.tokenLength + (optionsBytes 0 p.options).length < todo.length + 1 + 1 + 1 + 1 ∧
          todo.length + 1 + 1 + 1 + 1 < p.bytes.length) := by
    rw [Packet.Refuses, ← hleft]
    tauto
  have hbytes : p.bytes = p.headBytes ++ optionsBytes 0 p.options ++
      Rfc7252.encodePayload p.payload := by rw [Packet.bytes, List.append_assoc]
  have hpayload := @p.serializePayload_write (p.headBytes ++ optionsBytes 0 p.options)
    ((todo.drop p.tokenLength).drop (optionsBytes 0 p.options).length)
    (todo.length + 1 + 1 + 1 + 1)
  simp only [hrefuses, hbytes, List.length_append, List.length_drop, hhead, List.drop_drop]
    at hpayload hleft ⊢
  generalize optionsBytes 0 p.options = options at *
  generalize Rfc7252.encodePayload p.payload = payload at *
  generalize fieldEnds 0 p.options = ends at *
  by_cases hmem : todo.length - p.tokenLength ∈ ends
  · rw [if_pos hmem, if_pos (.inl hmem), error_bind]
  rw [if_neg hmem]
  by_cases hfit : options.length ≤ todo.length - p.tokenLength
  · have hpayload := hpayload (by omega)
    rw [if_pos hfit, ok_bind]
    simp only [Option.isSome_none, Bool.false_eq_true, if_false, hpayload]
    have hne : List.drop (p.tokenLength + options.length) todo ≠ [] ↔
        4 + p.tokenLength + options.length < todo.length + 1 + 1 + 1 + 1 := by
      rw [Ne, List.drop_eq_nil_iff]; omega
    have hdrop : List.drop (4 + p.tokenLength + options.length + payload.length)
        (c₀ :: c₁ :: c₂ :: c₃ :: todo) =
        todo.drop (p.tokenLength + options.length + payload.length) := by
      rw [show 4 + p.tokenLength + options.length + payload.length =
        p.tokenLength + options.length + payload.length + 1 + 1 + 1 + 1 by omega]
      rfl
    simp only [hmem, false_or, hne, hdrop]
    by_cases hpay : payload.length ≤ todo.length - (p.tokenLength + options.length)
    · rw [if_neg (by omega), if_pos hpay, if_neg (by omega), if_pos (by omega)]
    · rw [if_neg hpay, if_neg (show ¬ 4 + p.tokenLength + options.length + payload.length ≤
        todo.length + 1 + 1 + 1 + 1 by omega)]
      congr 1
      rw [eq_iff_iff]
      omega
  · have hover : ¬ p.headBytes.length + options.length + payload.length ≤
        todo.length + 1 + 1 + 1 + 1 := by omega
    rw [if_neg hfit, error_bind, if_neg (by rw [not_or]; exact ⟨hmem, by omega⟩),
      if_neg (by rw [← hhead]; exact hover)]

end Coap
