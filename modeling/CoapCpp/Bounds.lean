import CoapCpp.Parse
import CoapCpp.Serialize

/-!
# Memory safety at the ends of a buffer

`parse` is given a datagram and `serialize` a buffer, each with its length, and neither may touch a
byte behind it.  Both do, for some inputs, and this file says for which.

* `serialize` checks its offset behind most writes instead of before them.  It stays inside a
  buffer of `s` bytes exactly if the message fits, or if one of the checks happens to stop it
  (`serialize_inBounds_iff`).
* One of these checks is too strict: `make_option` refuses a buffer that ends right behind a field,
  although nothing may follow.  A message that ends with an empty option does not fit a buffer of
  exactly its own size (`Packet.exactFit_iff`).
* The option loop of `parse` reads a byte before it compares the offset with the size, and an
  extension that lacks its last byte is read all the same (`parse_inBounds_iff`).
-/

set_option autoImplicit false

namespace Coap

open Memory

/-! ## Where fields end -/

theorem le_of_mem_fieldEnds {os : List CoapOption} {r prev : ℕ} (h : r ∈ fieldEnds prev os) :
    r ≤ (optionsBytes prev os).length := by
  induction os generalizing r prev with
  | nil => simp [fieldEnds] at h
  | cons o os ih =>
    rw [mem_fieldEnds_cons] at h
    rw [optionsBytes, List.length_append]
    have hlen := length_optionBytes prev o
    have htail := @ih (r - (optionBytes prev o).length) o.number.toNat
    generalize optionBytes prev o = bytes at *
    generalize optionsBytes o.number.toNat os = rest at *
    rcases h with h | h | ⟨hle, h⟩
    · omega
    · omega
    · have := htail h
      omega

theorem length_optionsBytes_pos (prev : ℕ) (o : CoapOption) (os : List CoapOption) :
    0 < (optionsBytes prev (o :: os)).length := by
  simp [optionsBytes, optionBytes]

/-- The options end with a field if the last value is empty. -/
theorem length_mem_fieldEnds {prev : ℕ} {os : List CoapOption} :
    (optionsBytes prev os).length ∈ fieldEnds prev os ↔
      ∃ o, os.getLast? = some o ∧ o.value = [] := by
  induction os generalizing prev with
  | nil => simp [fieldEnds]
  | cons o os ih =>
    rw [mem_fieldEnds_cons, optionsBytes, List.length_append, Nat.add_sub_cancel_left, ih,
      length_optionBytes]
    cases os with
    | nil =>
      simp only [optionsBytes, List.length_nil, List.getLast?_singleton, Option.some.injEq,
        exists_eq_left', ← List.length_eq_zero_iff]
      generalize fieldBytes (sizeSub o.number.toNat prev) = d
      generalize fieldBytes o.value.length = l
      simp only [Nat.add_zero, and_false, exists_false, or_false, List.getLast?_nil, reduceCtorEq,
        false_and]
      omega
    | cons o' os =>
      have hpos := length_optionsBytes_pos o.number.toNat o' os
      rw [List.getLast?_cons_cons]
      generalize fieldBytes (sizeSub o.number.toNat prev) = d
      generalize fieldBytes o.value.length = l
      generalize optionsBytes o.number.toNat (o' :: os) = rest at *
      constructor
      · rintro (h | h | ⟨-, h⟩)
        · omega
        · omega
        · exact h
      · exact fun h ↦ .inr (.inr ⟨by omega, h⟩)

/-! ## Writing -/

/-- A call that stops with an error: by a failed assert, or with `ec` set. -/
def StopsWithError (r : Except Fault Serialized) : Prop :=
  r = .error .assertion ∨ ∃ out, r = .ok out ∧ out.ec ≠ none

namespace Packet

/-- **When `serialize` stays inside the buffer.**  It writes no byte behind a buffer of `s` bytes,
and stops with an error if the message is longer, exactly if the message fits, or the buffer is too
small for header and token, or the token length is above eight, or the buffer ends right behind a
field of an option, or it has room for all options but not for marker and payload. -/
theorem serialize_inBounds_iff (p : Packet) (buf : Cells UInt8) :
    ((∀ i, p.serialize (some buf) buf.length false ≠ .error (.outOfBounds i)) ∧
        (buf.length < p.bytes.length →
          StopsWithError (p.serialize (some buf) buf.length false))) ↔
      p.bytes.length ≤ buf.length ∨ buf.length < 4 + p.tokenLength ∨ 8 < p.tokenLength ∨
        buf.length - (4 + p.tokenLength) ∈ fieldEnds 0 p.options ∨
        4 + p.tokenLength + (optionsBytes 0 p.options).length < buf.length := by
  rw [p.serialize_write buf]
  by_cases hrefuses : p.Refuses buf.length
  · rw [if_pos hrefuses]
    refine iff_of_true ⟨fun i h ↦ (by cases h), fun _ ↦ .inl rfl⟩ ?_
    rcases hrefuses with h | h | h | ⟨h, -⟩
    · exact .inr (.inl h)
    · exact .inr (.inr (.inl h))
    · exact .inr (.inr (.inr (.inl h)))
    · exact .inr (.inr (.inr (.inr h)))
  rw [if_neg hrefuses]
  by_cases hfit : p.bytes.length ≤ buf.length
  · rw [if_pos hfit]
    exact iff_of_true ⟨fun i h ↦ (by cases h), fun h ↦ absurd hfit (by omega)⟩ (.inl hfit)
  · rw [if_neg hfit]
    refine iff_of_false (fun h ↦ h.1 _ rfl) ?_
    rintro (h | h | h | h | h)
    · exact hfit h
    · exact hrefuses (.inl h)
    · exact hrefuses (.inr (.inl h))
    · exact hrefuses (.inr (.inr (.inl h)))
    · exact hrefuses (.inr (.inr (.inr ⟨h, by omega⟩)))

/-- One option and four bytes: the header of the option goes behind the buffer. -/
theorem serialize_outOfBounds :
    Packet.serialize
        { Packet.fresh true with header := 0x40, options := [{ number := 11, value := [97] }] }
        (some (List.replicate 4 none)) 4 false = .error (.outOfBounds 4) := by
  decide

/-! ## The two passes -/

/-- What a caller does: ask for the size, and write into a buffer of exactly that size, of which
every cell is then written. -/
def ExactFit (p : Packet) : Prop :=
  ∀ (ptr : Option (Cells UInt8)) (s : ℕ) (out : Serialized),
    p.serialize ptr s true = .ok out → out.ec = none →
      ∃ bytes : List UInt8, bytes.length = out.size ∧
        p.serialize (some (List.replicate out.size none)) out.size false =
          .ok ⟨none, some (bytes.map some), out.size⟩

/-- A buffer of exactly the size of the message is refused only by `make_option`, for a message
that ends with an empty option. -/
theorem refuses_exactFit (p : Packet) (h8 : p.tokenLength ≤ tokenMaxLength) :
    p.Refuses p.bytes.length ↔
      p.payload = [] ∧ ∃ o, p.options.getLast? = some o ∧ o.value = [] := by
  have hhead := p.headBytes_length h8
  have hlen : p.bytes.length - (4 + p.tokenLength) =
      (optionsBytes 0 p.options).length + (Rfc7252.encodePayload p.payload).length := by
    rw [bytes, List.length_append, List.length_append, hhead, Nat.add_sub_cancel_left]
  have hle : 4 + p.tokenLength ≤ p.bytes.length := by
    rw [bytes, List.length_append, hhead]; omega
  rw [Refuses, hlen]
  constructor
  · rintro (h | h | h | ⟨-, h⟩)
    · omega
    · omega
    · have hend := le_of_mem_fieldEnds h
      have hnil : (Rfc7252.encodePayload p.payload).length = 0 := by omega
      rw [hnil, Nat.add_zero, length_mem_fieldEnds] at h
      refine ⟨?_, h⟩
      by_contra hne
      simp [Rfc7252.encodePayload, hne] at hnil
    · omega
  · rintro ⟨hpayload, hlast⟩
    refine .inr (.inr (.inl ?_))
    rw [hpayload, show (Rfc7252.encodePayload []).length = 0 from rfl, Nat.add_zero,
      length_mem_fieldEnds]
    exact hlast

theorem serialize_exactFit (p : Packet) :
    p.serialize (some (List.replicate p.bytes.length none)) p.bytes.length false =
      if p.Refuses p.bytes.length then .error .assertion
      else .ok ⟨none, some (p.bytes.map some), p.bytes.length⟩ := by
  have h := p.serialize_write (List.replicate p.bytes.length none)
  rw [List.length_replicate, if_pos (Nat.le_refl _), List.drop_of_length_le (by simp)] at h
  rw [h, front, List.append_nil]

/-- **When the two passes agree.**  A buffer of exactly the size that the counting pass returns is
filled by the writing pass, unless the message has no payload and ends with an empty option. -/
theorem exactFit_iff (p : Packet) (h8 : p.tokenLength ≤ 8) :
    p.ExactFit ↔ ¬ (p.payload = [] ∧ ∃ o, p.options.getLast? = some o ∧ o.value = []) := by
  rw [← p.refuses_exactFit h8, ExactFit]
  constructor
  · intro h hrefuses
    obtain ⟨bytes, -, hwrite⟩ := h none 0 ⟨none, none, p.bytes.length⟩
      (by rw [p.serialize_countOnly, if_pos h8]) rfl
    rw [p.serialize_exactFit, if_pos hrefuses] at hwrite
    cases hwrite
  · intro hfits ptr s out hout _
    rw [p.serialize_countOnly, if_pos h8] at hout
    cases hout
    exact ⟨p.bytes, rfl, by rw [p.serialize_exactFit, if_neg hfits]⟩

/-- A request with the path "a" fits. -/
theorem exactFit_of_value : ExactFit
    { fresh true with header := 0x40, options := [{ number := 11, value := [97] }] } :=
  (exactFit_iff _ (by decide)).mpr (by decide)

/-- An empty last option makes the exactly fitting buffer fail an assert. -/
theorem not_exactFit_of_empty : ¬ ExactFit
    { fresh true with header := 0x40, options := [{ number := 11, value := [] }] } := by
  intro h
  obtain ⟨bytes, -, hwrite⟩ := h none 0 ⟨none, none, 5⟩ (by decide) rfl
  have hassert : serialize
      { fresh true with header := 0x40, options := [{ number := 11, value := [] }] }
      (some (List.replicate 5 none)) 5 false = .error .assertion := by decide
  rw [hassert] at hwrite
  cases hwrite

/-! ## Reading -/

/-- **When `parse` stays inside the datagram.**  It ends without a read behind the datagram exactly
if header and token are rejected, or the options end at a payload marker or at a malformed option
other than one whose extension lacks just its last byte. -/
theorem parse_inBounds_iff (p : Packet) (b₀ b₁ b₂ b₃ : UInt8) (l : List UInt8) :
    (p.parse (some (b₀ :: b₁ :: b₂ :: b₃ :: l)) (l.length + 4) ≠ .error .outOfFuel ∧
        ∀ i, p.parse (some (b₀ :: b₁ :: b₂ :: b₃ :: l)) (l.length + 4) ≠
          .error (.outOfBounds i)) ↔
      b₀.toNat / 64 ≠ 1 ∨ 8 < b₀.toNat % 16 ∨ l.length < b₀.toNat % 16 ∨
        (∃ payload, (hostWalk p.littleEndian (l.drop (b₀.toNat % 16))).2 = .marker payload) ∨
        ∃ why, (hostWalk p.littleEndian (l.drop (b₀.toNat % 16))).2 = .malformed why ∧
          why ≠ .shortDelta 1 ∧ why ≠ .shortLength 1 := by
  have hparse := p.parse_eq b₀ b₁ b₂ b₃ l []
  rw [List.append_nil] at hparse
  rw [hparse]
  by_cases hv : b₀.toNat / 64 ≠ 1
  · simp [hv]
  rw [if_neg hv]
  by_cases h8 : 8 < b₀.toNat % 16
  · simp [h8]
  rw [if_neg h8]
  by_cases hlt : l.length < b₀.toNat % 16
  · simp [hlt]
  rw [if_neg hlt]
  simp only [hv, h8, hlt, false_or]
  rcases hostWalk p.littleEndian (l.drop (b₀.toNat % 16)) with ⟨raws, e⟩
  cases e with
  | finished => simp [parseEnding]
  | marker payload => simp [parseEnding]
  | malformed why =>
    have hover : overreads why = true ↔ why = .shortDelta 1 ∨ why = .shortLength 1 := by
      cases why <;> simp [overreads]
    simp only [parseEnding, true_and, hover, reduceCtorEq, exists_false, false_or,
      Rfc7252.Ending.malformed.injEq, exists_eq_left']
    by_cases h : why = .shortDelta 1 ∨ why = .shortLength 1
    · rw [if_pos h]
      simp
      tauto
    · rw [if_neg h]
      simp
      tauto

/-- A message without options and payload is read beyond its end. -/
theorem parse_outOfBounds :
    (fresh true).parse (some [0x40, 1, 0, 0]) 4 = .error (.outOfBounds 4) := by
  decide

end Packet

end Coap
