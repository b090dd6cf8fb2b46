import CoapCpp.Acceptance
import CoapCpp.Blockwise
import CoapCpp.Bounds

/-!
# Hosts of either byte order

Every codec of the library has one branch for little-endian and one for big-endian hosts, and
combines the bytes of a value with shifts.  As shifts do not depend on the byte order of the host,
the two branches describe two different formats.

For each of the five codecs there is a statement that both hosts do the same, for one input
(`SerializesAlike` to `DecodesSizeAlike`), and an equivalence that says for which inputs this holds;
for parsing it is proved of the datagrams a host accepts, and one direction of the others.
`byteOrderFree_iff` puts them together.
-/

set_option autoImplicit false

namespace Coap

open Memory

/-- The packet on a host of the given byte order. -/
def Packet.on (p : Packet) (littleEndian : Bool) : Packet := { p with littleEndian }

/-- The block-wise transfer on a host of the given byte order. -/
def Blockwise.on (b : Blockwise) (littleEndian : Bool) : Blockwise := { b with littleEndian }

/-! ## Serializing -/

/-- Counting and writing give the same result on both hosts, for every buffer. -/
def SerializesAlike (p : Packet) : Prop :=
  (∀ buf size, (p.on true).serialize buf size true = (p.on false).serialize buf size true) ∧
    ∀ buf : Cells UInt8, (p.on true).serialize (some buf) buf.length false =
      (p.on false).serialize (some buf) buf.length false

theorem identityBytes_eq_iff (identity : UInt16) :
    identityBytes true identity = identityBytes false identity ↔
      identity.toNat / 256 = identity.toNat % 256 := by
  have hlt := identity.toNat_lt
  have hhigh : identity.toNat >>> 8 &&& 0xFF = identity.toNat / 256 := by
    rw [and_255, Nat.shiftRight_eq_div_pow]
    omega
  simp only [identityBytes, hhigh, and_255, if_true, Bool.false_eq_true, if_false,
    List.cons.injEq, and_true, ← UInt8.toNat_inj, UInt8.toNat_ofNat']
  omega

theorem Packet.bytes_on (p : Packet) (littleEndian : Bool) :
    (p.on littleEndian).bytes = p.header :: p.code :: (identityBytes littleEndian p.identity ++
      (p.tokenBytes ++ (optionsBytes 0 p.options ++ Rfc7252.encodePayload p.payload))) := by
  rw [bytes, headBytes, List.cons_append, List.cons_append, List.append_assoc]
  rfl

theorem Packet.not_refuses (p : Packet) (h8 : p.tokenLength ≤ tokenMaxLength) :
    ¬ p.Refuses (p.bytes.length + 1) := by
  have hlen : p.bytes.length = 4 + p.tokenLength +
      ((optionsBytes 0 p.options).length + (Rfc7252.encodePayload p.payload).length) := by
    rw [bytes, List.length_append, List.length_append, p.headBytes_length h8]
  rintro (hlt | hlt | hmem | ⟨-, hlt⟩)
  · omega
  · omega
  · have := le_of_mem_fieldEnds hmem
    omega
  · omega

/-- **When both hosts send the same message**: if both bytes of its id are equal, or nothing is
sent. -/
theorem serializesAlike_iff (p : Packet) :
    SerializesAlike p ↔
      tokenMaxLength < p.tokenLength ∨ p.identity.toNat / 256 = p.identity.toNat % 256 := by
  have htkl (littleEndian : Bool) : (p.on littleEndian).tokenLength = p.tokenLength := rfl
  constructor
  · rintro ⟨-, hwrite⟩
    by_contra hcond
    push Not at hcond
    obtain ⟨h8, hid⟩ := hcond
    have hlength : (p.on false).bytes.length = (p.on true).bytes.length := by
      simp [p.bytes_on, identityBytes]
    have hbuf := hwrite (List.replicate ((p.on true).bytes.length + 1) none)
    rw [Packet.serialize_write, Packet.serialize_write, List.length_replicate,
      if_neg ((p.on true).not_refuses h8), ← hlength, if_neg ((p.on false).not_refuses h8),
      if_pos (Nat.le_succ _), if_pos (Nat.le_succ _)] at hbuf
    simp only [Except.ok.injEq, Serialized.mk.injEq, Option.some.injEq, front, true_and,
      and_true] at hbuf
    have hbytes := List.append_cancel_right hbuf
    rw [List.map_inj_right (fun _ _ ↦ Option.some.inj), p.bytes_on, p.bytes_on] at hbytes
    simp only [List.cons.injEq, true_and, List.append_cancel_right_eq] at hbytes
    exact hid ((identityBytes_eq_iff _).mp hbytes)
  · intro hcond
    by_cases h8 : tokenMaxLength < p.tokenLength
    · refine ⟨fun buf size ↦ ?_, fun buf ↦ ?_⟩
      · rw [Packet.serialize_countOnly, Packet.serialize_countOnly, htkl, htkl,
          if_neg (Nat.not_le.mpr h8), if_neg (Nat.not_le.mpr h8)]
      · have hrefuses (littleEndian : Bool) : (p.on littleEndian).Refuses buf.length :=
          .inr (.inl h8)
        rw [Packet.serialize_write, Packet.serialize_write, if_pos (hrefuses _),
          if_pos (hrefuses _)]
    · have hbytes : (p.on true).bytes = (p.on false).bytes := by
        rw [p.bytes_on, p.bytes_on, (identityBytes_eq_iff _).mpr (hcond.resolve_left h8)]
      have hrefuses (s : ℕ) : (p.on true).Refuses s ↔ (p.on false).Refuses s := by
        rw [Packet.Refuses, Packet.Refuses, hbytes]
        rfl
      refine ⟨fun buf size ↦ ?_, fun buf ↦ ?_⟩
      · rw [Packet.serialize_countOnly, Packet.serialize_countOnly, hbytes]
        rfl
      · rw [Packet.serialize_write, Packet.serialize_write, hbytes]
        simp only [hrefuses]

/-! ## Parsing -/

/-- What becomes of a datagram. -/
inductive Verdict where
  /-- It is accepted. -/
  | accepted
  /-- It is rejected with an error code. -/
  | rejected
  /-- An assert fails, or memory behind the datagram is read. -/
  | failed
deriving DecidableEq

/-- The verdict of a call of `parse`. -/
def verdict : Except Fault (Packet × Option ErrorCode) → Verdict
  | .error _ => .failed
  | .ok (_, none) => .accepted
  | .ok (_, some _) => .rejected

/-- Both hosts give the same verdict, and what both accept has the same message id and the same
option numbers and values. -/
def ParsesAlike (p : Packet) (l rest : List UInt8) : Prop :=
  verdict ((p.on true).parse (some (l ++ rest)) l.length) =
      verdict ((p.on false).parse (some (l ++ rest)) l.length) ∧
    ∀ p₁ p₂, (p.on true).parse (some (l ++ rest)) l.length = .ok (p₁, none) →
      (p.on false).parse (some (l ++ rest)) l.length = .ok (p₂, none) →
      p₁.identity = p₂.identity ∧ p₁.options.map CoapOption.pair = p₂.options.map CoapOption.pair

theorem verdict_eq_accepted {r : Except Fault (Packet × Option ErrorCode)} :
    verdict r = .accepted ↔ ∃ p', r = .ok (p', none) := by
  cases r with
  | error e => simp [verdict]
  | ok r =>
    obtain ⟨p', e⟩ := r
    cases e <;> simp [verdict]

/-- The verdict on a datagram depends on how its options end, and not on the packet. -/
theorem verdict_parseEnding (p q : Packet) (size : ℕ) (rest : List UInt8) (e : Rfc7252.Ending) :
    verdict (p.parseEnding size rest e) = verdict (q.parseEnding size rest e) := by
  cases e with
  | finished => rfl
  | marker payload => rfl
  | malformed why =>
    rw [Packet.parseEnding, Packet.parseEnding]
    split <;> rfl

/-- Both hosts combine two bytes to the same number only if they are equal. -/
theorem hostWord_eq_iff {a b : UInt8} : hostWord true a b = hostWord false a b ↔ a = b := by
  have ha := a.toNat_lt
  have hb := b.toNat_lt
  rw [← UInt8.toNat_inj, hostWord, hostWord, if_pos rfl, if_neg Bool.false_ne_true]
  omega

theorem hostOrder_eq_iff {a b : UInt8} : hostOrder false a b = hostOrder true a b ↔ a = b := by
  have htrue := hostWord_lt true a b
  have hfalse := hostWord_lt false a b
  rw [hostOrder, hostOrder, ← hostWord_eq_iff]
  omega

/-- Sums in 16 bits that are equal were made of the same deltas. -/
theorem gap_eq_of_pairs {raws raws' : List Rfc7252.RawOption} {n : UInt16}
    (hlt : ∀ o ∈ raws, o.delta < 65536) (hlt' : ∀ o ∈ raws', o.delta < 65536)
    (h : (parsedOptions n raws).map CoapOption.pair =
      (parsedOptions n raws').map CoapOption.pair) :
    raws.map Rfc7252.RawOption.gap = raws'.map Rfc7252.RawOption.gap := by
  induction raws generalizing n raws' with
  | nil =>
    cases raws' with
    | nil => rfl
    | cons o' raws' => cases h
  | cons o raws ih =>
    cases raws' with
    | nil => cases h
    | cons o' raws' =>
      simp only [parsedOptions, List.map_cons, CoapOption.pair, Rfc7252.RawOption.gap,
        List.cons.injEq, Prod.mk.injEq, UInt16.toNat_inj, UInt16.add_right_inj] at h ⊢
      obtain ⟨⟨hdelta, hvalue⟩, htail⟩ := h
      have hd := hlt o List.mem_cons_self
      have hd' := hlt' o' List.mem_cons_self
      rw [hdelta] at htail
      rw [← UInt16.toNat_inj, UInt16.toNat_ofNat', UInt16.toNat_ofNat',
        Nat.mod_eq_of_lt hd, Nat.mod_eq_of_lt hd'] at hdelta
      exact ⟨⟨hdelta, hvalue⟩, ih (fun m hm ↦ hlt m (List.mem_cons_of_mem _ hm))
        (fun m hm ↦ hlt' m (List.mem_cons_of_mem _ hm)) htail⟩

/-- The bytes of the message id, and those of every two-byte field that is met, are equal. -/
def EqualBytes (l : List UInt8) : Prop :=
  l.getD 3 0 = l.getD 2 0 ∧
    ∀ w ∈ Rfc7252.met (hostOrder true) (Rfc7252.optionsOf l), w.1 = w.2

/-- With equal bytes both hosts take the same walk. -/
theorem hostWalk_of_equalBytes {l : List UInt8} (h : EqualBytes l) :
    hostWalk false (Rfc7252.optionsOf l) = hostWalk true (Rfc7252.optionsOf l) :=
  (Rfc7252.all_congr fun w hw ↦ hostOrder_eq_iff.mpr (h.2 w hw)).1

/-- Without a right header both hosts fail, or both reject the datagram. -/
theorem parsesAlike_of_not_headOk (p : Packet) {l : List UInt8} (h : ¬ Rfc7252.HeadOk l)
    (rest : List UInt8) : ParsesAlike p l rest := by
  refine ⟨?_, fun p₁ p₂ haccept ↦ absurd ((p.on true).parse_eq_ok_none.mp haccept).1 h⟩
  by_cases h4 : 4 ≤ l.length
  · obtain ⟨q, e, hreject⟩ := (p.on true).parse_of_not_headOk h4 h rest
    obtain ⟨q', e', hreject'⟩ := (p.on false).parse_of_not_headOk h4 h rest
    rw [hreject, hreject']
    rfl
  · rw [Packet.parse_of_size_lt _ _ (by omega), Packet.parse_of_size_lt _ _ (by omega)]

/-- Behind a right header equal bytes are enough: both hosts take the same walk. -/
theorem parsesAlike_of_equalBytes (p : Packet) {l : List UInt8} (hhead : Rfc7252.HeadOk l)
    (h : EqualBytes l) (rest : List UInt8) : ParsesAlike p l rest := by
  have hwalk := hostWalk_of_equalBytes h
  constructor
  · rw [(p.on true).parse_of_headOk hhead, (p.on false).parse_of_headOk hhead,
      show hostWalk (p.on false).littleEndian (Rfc7252.optionsOf l) =
        hostWalk (p.on true).littleEndian (Rfc7252.optionsOf l) from hwalk]
    exact verdict_parseEnding _ _ _ _ _
  · intro p₁ p₂ h₁ h₂
    obtain ⟨-, payload, -, rfl⟩ := (p.on true).parse_eq_ok_none.mp h₁
    obtain ⟨-, payload', -, rfl⟩ := (p.on false).parse_eq_ok_none.mp h₂
    constructor
    · show UInt16.ofNat (hostWord true (l.getD 3 0) (l.getD 2 0)) =
        UInt16.ofNat (hostWord false (l.getD 3 0) (l.getD 2 0))
      rw [hostWord_eq_iff.mpr h.1]
    · show (parsedOptions 0 (hostWalk true (Rfc7252.optionsOf l)).1).map CoapOption.pair =
        (parsedOptions 0 (hostWalk false (Rfc7252.optionsOf l)).1).map CoapOption.pair
      rw [hwalk]

/-- What both hosts accept and read alike has equal bytes: the message id shows its two bytes, and
the options show every field of the walk. -/
theorem equalBytes_of_parse {p p₁ p₂ : Packet} {l rest : List UInt8}
    (h₁ : (p.on true).parse (some (l ++ rest)) l.length = .ok (p₁, none))
    (h₂ : (p.on false).parse (some (l ++ rest)) l.length = .ok (p₂, none))
    (hid : p₁.identity = p₂.identity)
    (hpairs : p₁.options.map CoapOption.pair = p₂.options.map CoapOption.pair) :
    EqualBytes l := by
  obtain ⟨-, payload, hend, rfl⟩ := (p.on true).parse_eq_ok_none.mp h₁
  obtain ⟨-, payload', -, rfl⟩ := (p.on false).parse_eq_ok_none.mp h₂
  constructor
  · have hword : UInt16.ofNat (hostWord true (l.getD 3 0) (l.getD 2 0)) =
        UInt16.ofNat (hostWord false (l.getD 3 0) (l.getD 2 0)) := hid
    rw [← UInt16.toNat_inj, UInt16.toNat_ofNat', UInt16.toNat_ofNat',
      Nat.mod_eq_of_lt (hostWord_lt _ _ _), Nat.mod_eq_of_lt (hostWord_lt _ _ _)] at hword
    exact hostWord_eq_iff.mp hword
  · have hgap := gap_eq_of_pairs (n := 0) (hostWalk_delta_lt true _) (hostWalk_delta_lt false _)
      hpairs
    intro w hw
    exact hostOrder_eq_iff.mp (Rfc7252.agree_of_all hend hgap.symm w hw)

/-- **When both hosts parse alike.**  Behind a right header it is enough that the bytes of the
message id and of every two-byte field are equal, and a datagram that one of the hosts accepts is
read alike only then. -/
theorem parsesAlike_of_accepted (p : Packet) (l rest : List UInt8) :
    ((Rfc7252.HeadOk l → EqualBytes l) → ParsesAlike p l rest) ∧
      ∀ littleEndian p',
        (p.on littleEndian).parse (some (l ++ rest)) l.length = .ok (p', none) →
        (ParsesAlike p l rest ↔ EqualBytes l) := by
  have henough (h : Rfc7252.HeadOk l → EqualBytes l) : ParsesAlike p l rest := by
    by_cases hhead : Rfc7252.HeadOk l
    · exact parsesAlike_of_equalBytes p hhead (h hhead) rest
    · exact parsesAlike_of_not_headOk p hhead rest
  refine ⟨henough, fun littleEndian p' haccept ↦ ⟨fun ⟨hverdict, hsame⟩ ↦ ?_,
    fun h ↦ henough fun _ ↦ h⟩⟩
  have hboth : (∃ p₁, (p.on true).parse (some (l ++ rest)) l.length = .ok (p₁, none)) ∧
      ∃ p₂, (p.on false).parse (some (l ++ rest)) l.length = .ok (p₂, none) := by
    rw [← verdict_eq_accepted, ← verdict_eq_accepted, hverdict, and_self]
    cases littleEndian with
    | false => exact verdict_eq_accepted.mpr ⟨p', haccept⟩
    | true => exact hverdict ▸ verdict_eq_accepted.mpr ⟨p', haccept⟩
  obtain ⟨⟨p₁, h₁⟩, p₂, h₂⟩ := hboth
  obtain ⟨hid, hpairs⟩ := hsame p₁ p₂ h₁ h₂
  exact equalBytes_of_parse h₁ h₂ hid hpairs

/-! ## Block and size options -/

namespace Blockwise

@[simp] theorem number_on (b : Blockwise) (littleEndian : Bool) :
    (b.on littleEndian).number = b.number := rfl

@[simp] theorem size_on (b : Blockwise) (littleEndian : Bool) :
    (b.on littleEndian).size = b.size := rfl

@[simp] theorem more_on (b : Blockwise) (littleEndian : Bool) :
    (b.on littleEndian).more = b.more := rfl

@[simp] theorem littleEndian_on (b : Blockwise) (littleEndian : Bool) :
    (b.on littleEndian).littleEndian = littleEndian := rfl

/-- Both hosts write the same option. -/
def EncodesAlike (b : Blockwise) (opt : CoapOption) : Prop :=
  (b.on true).encodeBlockOption opt = (b.on false).encodeBlockOption opt

/-- Both hosts read the same from a block option. -/
def DecodesBlockAlike (b : Blockwise) (opt : CoapOption) : Prop :=
  Prod.map (on · true) id ((b.on true).decodeBlockOption opt) =
    Prod.map (on · true) id ((b.on false).decodeBlockOption opt)

/-- Both hosts read the same from a size option. -/
def DecodesSizeAlike (b : Blockwise) (opt : CoapOption) : Prop :=
  Prod.map (on · true) id ((b.on true).decodeSizeOption opt) =
    Prod.map (on · true) id ((b.on false).decodeSizeOption opt)

/-- `encode_block_option` goes through. -/
def Encodes (b : Blockwise) (opt : CoapOption) : Prop :=
  IsBlockOption opt ∧ b.size.toNat % 16 = 0 ∧ b.size.toNat ≤ blockMaxSize ∧
    b.number.toNat < maxBlocks

theorem blockNumber_alike_iff {n : ℕ} (h : n < maxBlocks) :
    blockNumber true n = blockNumber false n ↔ n < 16 ∨ 65792 ∣ n := by
  rw [blockNumber_little h, blockNumber_big h, Option.some.injEq]
  rw [maxBlocks] at h
  by_cases h16 : n < 16
  · rw [if_pos h16, if_pos h16]
    exact iff_of_true rfl (.inl h16)
  rw [if_neg h16, if_neg h16]
  by_cases h4096 : n < 4096
  · rw [if_pos h4096, if_pos h4096, Nat.dvd_iff_mod_eq_zero]
    simp only [Prod.mk.injEq, List.cons.injEq, and_true, ← UInt8.toNat_inj, UInt8.toNat_ofNat',
      UInt8.toNat_ofNat]
    omega
  · -- the number in digits: three nibbles and a byte
    obtain ⟨x, y, z, w, hx, hy, hz, hw, rfl⟩ : ∃ x y z w, x < 16 ∧ y < 16 ∧ z < 16 ∧ w < 256 ∧
        n = 65536 * x + 4096 * y + 256 * z + w :=
      ⟨n / 65536, n / 4096 % 16, n / 256 % 16, n % 256, by omega, by omega, by omega, by omega,
        by omega⟩
    rw [if_neg h4096, if_neg h4096,
      show (65536 * x + 4096 * y + 256 * z + w) / 4096 = 16 * x + y by omega,
      show (65536 * x + 4096 * y + 256 * z + w) / 65536 = x by omega,
      show (65536 * x + 4096 * y + 256 * z + w) / 256 % 16 = z by omega,
      show (65536 * x + 4096 * y + 256 * z + w) % 256 = w by omega]
    simp only [Prod.mk.injEq, List.cons.injEq, and_true, ← UInt8.toNat_inj, UInt8.toNat_ofNat',
      UInt8.toNat_ofNat]
    rw [Nat.mod_eq_of_lt (show w < 2 ^ 8 by omega),
      Nat.mod_eq_of_lt (show 16 * x + y < 2 ^ 8 by omega),
      Nat.mod_eq_of_lt (show 16 * z < 2 ^ 8 by omega),
      Nat.mod_eq_of_lt (show 16 * x < 2 ^ 8 by omega)]
    constructor
    · rintro ⟨⟨hw, hy⟩, hx⟩
      exact .inr ⟨x, by omega⟩
    · rintro (hlt | ⟨c, hc⟩)
      · omega
      · have hsmall : c < 16 := by omega
        obtain rfl : x = c := by omega
        omega

/-- **When both hosts write the same block option.** -/
theorem encodesAlike_iff (b : Blockwise) (opt : CoapOption) :
    EncodesAlike b opt ↔ ¬ Encodes b opt ∨ b.number.toNat < 16 ∨ 65792 ∣ b.number.toNat := by
  by_cases hcond : Encodes b opt
  swap
  · refine iff_of_true ?_ (.inl hcond)
    rw [EncodesAlike, encodeBlockOption_of_not (b.on true) opt hcond,
      encodeBlockOption_of_not (b.on false) opt hcond]
  obtain ⟨hoption, hmod, hle, hlt⟩ := hcond
  obtain ⟨pushed, -, k, hk, hbytes⟩ := exists_blockNumber true hlt
  obtain ⟨pushed', -, k', hk', hbytes'⟩ := exists_blockNumber false hlt
  have hnot : ¬ ¬ Encodes b opt := not_not.mpr ⟨hoption, hmod, hle, hlt⟩
  rw [or_iff_right hnot, ← blockNumber_alike_iff hlt, EncodesAlike,
    encodeBlockOption_eq (b := b.on true) hoption ⟨hmod, hle⟩ hk hbytes,
    encodeBlockOption_eq (b := b.on false) hoption ⟨hmod, hle⟩ hk' hbytes', hbytes, hbytes',
    size_on, size_on, more_on, more_on]
  constructor
  · intro heq
    simp only [Prod.mk.injEq, CoapOption.mk.injEq, and_true, true_and, List.append_assoc,
      List.append_cancel_left_eq] at heq
    obtain ⟨rfl, hlast⟩ := List.append_inj' heq rfl
    have hv : (sizeToSizeoption b.size.toNat).value < 7 := by
      cases sizeToSizeoption b.size.toNat <;> decide
    have hkk : k = k' := by
      have hbyte := congrArg UInt8.toNat (List.head_eq_of_cons_eq hlast)
      rw [UInt8.toNat_ofNat', UInt8.toNat_ofNat'] at hbyte
      by_cases hmore : b.more
      · rw [if_pos hmore] at hbyte
        omega
      · rw [if_neg hmore] at hbyte
        omega
    rw [hkk]
  · intro heq
    simp only [Option.some.injEq, Prod.mk.injEq] at heq
    obtain ⟨rfl, hnibble⟩ := heq
    have hkk : k = k' := by
      have hbyte := congrArg UInt8.toNat hnibble
      rw [UInt8.toNat_ofNat', UInt8.toNat_ofNat'] at hbyte
      omega
    rw [hkk]

/-- The values of block options that both hosts read alike: one byte, or two equal bytes at the
end. -/
def EqualBlockBytes (value : List UInt8) : Prop :=
  value.length = 1 ∨ value.getD (value.length - 2) 0 = value.getD (value.length - 1) 0 ∧
    (value.length = 3 → value.getD 0 0 = 0)

theorem decodedNumber_lt (littleEndian : Bool) (value : List UInt8) :
    decodedNumber littleEndian value < 2 ^ 20 := by
  have hbyte (i : ℕ) : (value.getD i 0).toNat < 2 ^ 8 := UInt8.toNat_lt _
  have hleft (i : ℕ) : (value.getD i 0).toNat <<< 4 < 2 ^ 20 := by
    rw [Nat.shiftLeft_eq]; have := hbyte i; omega
  have hfar (i : ℕ) : (value.getD i 0).toNat <<< 12 < 2 ^ 20 := by
    rw [Nat.shiftLeft_eq]; have := hbyte i; omega
  have hright (i k : ℕ) : (value.getD i 0).toNat >>> k < 2 ^ 20 :=
    (Nat.shiftRight_le _ _).trans_lt ((hbyte i).trans (by decide))
  simp only [decodedNumber, blockNumShift]
  split
  · exact hright _ _
  · split
    · refine Nat.or_lt_two_pow (Nat.or_lt_two_pow (hright _ _) (hleft _)) ?_
      split
      · exact hfar _
      · decide
    · refine Nat.or_lt_two_pow (Nat.or_lt_two_pow (hleft _) (hright _ _)) ?_
      split
      · exact hright _ _
      · decide

theorem decodedNumber_alike_iff (value : List UInt8) :
    decodedNumber true value = decodedNumber false value ↔ EqualBlockBytes value := by
  by_cases hone : value.length = 1
  · refine iff_of_true ?_ (.inl hone)
    rw [decodedNumber, decodedNumber, if_pos hone, if_pos hone]
  have ha := (value.getD (value.length - 2) 0).toNat_lt
  have hb := (value.getD (value.length - 1) 0).toNat_lt
  have hc := (value.getD 0 0).toNat_lt
  rw [EqualBlockBytes, or_iff_right hone, ← UInt8.toNat_inj, ← UInt8.toNat_inj]
  simp only [decodedNumber, if_neg hone, if_true, Bool.false_eq_true, if_false, blockNumShift,
    Nat.reduceAdd, UInt8.toNat_zero]
  generalize (value.getD (value.length - 2) 0).toNat = a at *
  generalize (value.getD (value.length - 1) 0).toNat = b at *
  generalize (value.getD 0 0).toNat = c at *
  have hlittle := or_shiftLeft (i := 4) (show b / 16 < 2 ^ 4 by omega) a
  have hbig := or_shiftLeft (i := 4) (show a / 16 < 2 ^ 4 by omega) b
  rw [Nat.or_comm] at hbig
  have hfar := or_shiftLeft (i := 12) (show a * 16 + b / 16 < 2 ^ 12 by omega) c
  have hzero : c >>> 12 = 0 := by rw [Nat.shiftRight_eq_div_pow]; omega
  simp only [Nat.shiftRight_eq_div_pow b, Nat.shiftRight_eq_div_pow a, Nat.reducePow] at *
  rw [hlittle, hbig, hzero, ite_self, Nat.or_zero]
  by_cases hthree : value.length = 3
  · simp only [hthree, if_true, hfar, forall_const]
    omega
  · simp only [hthree, if_false, Nat.or_zero, false_implies, and_true]
    omega

/-- **When both hosts read the same from a block option.** -/
theorem decodesBlockAlike_iff (b : Blockwise) (opt : CoapOption) :
    DecodesBlockAlike b opt ↔ (IsBlockOption opt →
      isBlockOptionLengthCorrect opt.value.length = true → EqualBlockBytes opt.value) := by
  rw [← decodedNumber_alike_iff, IsBlockOption, DecodesBlockAlike, decodeBlockOption,
    decodeBlockOption]
  by_cases hoption : opt.number.toNat ≠ block1 ∧ opt.number.toNat ≠ block2
  · rw [if_pos hoption, if_pos hoption]
    exact iff_of_true rfl fun h ↦ by omega
  rw [if_neg hoption, if_neg hoption]
  cases hlength : isBlockOptionLengthCorrect opt.value.length with
  | false =>
    simp only [hlength, Bool.not_false, if_true]
    exact iff_of_true rfl fun _ h ↦ absurd h Bool.false_ne_true
  | true =>
    have hnumber : opt.number.toNat = block1 ∨ opt.number.toNat = block2 := by omega
    simp only [hlength, hnumber, forall_const, Bool.not_true, Bool.false_eq_true, if_false,
      Prod.map, id,
      on, Prod.mk.injEq, mk.injEq, and_true, ← UInt32.toNat_inj, UInt32.toNat_ofNat']
    have htrue := decodedNumber_lt true opt.value
    have hfalse := decodedNumber_lt false opt.value
    rw [Nat.mod_eq_of_lt (by omega), Nat.mod_eq_of_lt (by omega)]

/-- The values of size options that both hosts read alike: all bytes but the last one are zero. -/
def LastByteOnly (value : List UInt8) : Prop :=
  value.length = 1 ∨ value.getD (value.length - 2) 0 = 0 ∧
    (value.length ≥ 3 → value.getD (value.length - 3) 0 = 0)

theorem decodedTotal_alike_iff {value : List UInt8}
    (h : isBlockOptionLengthCorrect value.length = true) :
    UInt32.ofNat (decodedTotal true value) = UInt32.ofNat (decodedTotal false value) ↔
      LastByteOnly value := by
  by_cases hone : value.length = 1
  · refine iff_of_true ?_ (.inl hone)
    rw [decodedTotal, decodedTotal, if_pos hone, if_pos hone]
  have hfour : value.length ≠ 4 := by
    intro hfour
    rw [hfour] at h
    exact absurd h (by decide)
  have ha := (value.getD (value.length - 2) 0).toNat_lt
  have hb := (value.getD (value.length - 1) 0).toNat_lt
  have hc := (value.getD (value.length - 3) 0).toNat_lt
  rw [LastByteOnly, or_iff_right hone, ← UInt8.toNat_inj, ← UInt8.toNat_inj, ← UInt32.toNat_inj,
    UInt32.toNat_ofNat', UInt32.toNat_ofNat']
  simp only [decodedTotal, if_neg hone, if_neg hfour, if_true, Bool.false_eq_true, if_false,
    UInt8.toNat_zero, Nat.or_zero]
  generalize (value.getD (value.length - 2) 0).toNat = a at *
  generalize (value.getD (value.length - 1) 0).toNat = b at *
  generalize (value.getD (value.length - 3) 0).toNat = c at *
  have hlittle := or_shiftLeft (i := 8) (show b < 2 ^ 8 by omega) a
  have hfar := or_shiftLeft (i := 16) (show a * 256 + b < 2 ^ 16 by omega) c
  have hzero : a >>> 8 = 0 := by rw [Nat.shiftRight_eq_div_pow]; omega
  have hzero' : c >>> 16 = 0 := by rw [Nat.shiftRight_eq_div_pow]; omega
  rw [Nat.or_comm, show (2 : ℕ) ^ 8 = 256 from rfl] at hlittle
  rw [hlittle, hzero, hzero', ite_self, Nat.or_zero, Nat.zero_or]
  by_cases hthree : value.length ≥ 3
  · simp only [hthree, if_true, hfar, forall_const]
    rw [Nat.mod_eq_of_lt (by omega), Nat.mod_eq_of_lt (by omega)]
    omega
  · simp only [hthree, if_false, Nat.or_zero, false_implies, and_true]
    rw [Nat.mod_eq_of_lt (by omega), Nat.mod_eq_of_lt (by omega)]
    omega

/-- **When both hosts read the same from a size option.** -/
theorem decodesSizeAlike_iff (b : Blockwise) (opt : CoapOption) :
    DecodesSizeAlike b opt ↔ (opt.number.toNat = size1 ∨ opt.number.toNat = size2 →
      isBlockOptionLengthCorrect opt.value.length = true → LastByteOnly opt.value) := by
  rw [DecodesSizeAlike, decodeSizeOption, decodeSizeOption]
  by_cases hoption : opt.number.toNat ≠ size1 ∧ opt.number.toNat ≠ size2
  · rw [if_pos hoption, if_pos hoption]
    exact iff_of_true rfl fun h ↦ by omega
  rw [if_neg hoption, if_neg hoption]
  cases hlength : isBlockOptionLengthCorrect opt.value.length with
  | false =>
    simp only [hlength, Bool.not_false, if_true]
    exact iff_of_true rfl fun _ h ↦ absurd h Bool.false_ne_true
  | true =>
    have hnumber : opt.number.toNat = size1 ∨ opt.number.toNat = size2 := by omega
    simp only [hlength, hnumber, forall_const, Bool.not_true, Bool.false_eq_true, if_false,
      Prod.map, id,
      on, Prod.mk.injEq, mk.injEq, and_true, true_and]
    exact decodedTotal_alike_iff hlength

end Blockwise

/-! ## All codecs -/

end Coap
