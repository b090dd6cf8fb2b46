import CoapCpp.Message
import CoapCpp.Rfc7252

/-!
# Parsing a datagram

`Packet::parse` and the four passes it consists of, as `src/packet.cc` has them: `parseHeader`,
`parseToken`, `parseOptions` and `parsePayload`.

The buffer is the block of memory the pointer points to, and the datagram is its first `size`
bytes.  The two are kept apart because the code does read behind the datagram: what happens then
depends on whether the block ends there.  A block with nothing behind the datagram makes every
such read a `Memory.Fault.outOfBounds`.

The second half of the file replaces the index arithmetic by a walk.  `parseOptionsLoop_eq` says
that the loop over `offset` is the walk of `Rfc7252.optionPeeler` over the bytes of the datagram,
with the two-byte extensions read in `hostOrder`, the reading of the host; and `parse_eq` is the
one lemma about `parse` that everything else uses.
-/

set_option autoImplicit false

namespace Coap

open Memory

/-! ## One field of an option -/

/-- `parse_option`: the value of a field and the offset of its last byte, or `none` for `false`. -/
def parseOption (buffer : List UInt8) (size parsing : ℕ) (modifying : UInt16) (offset : ℕ)
    (littleEndian : Bool) : Except Fault (Option (UInt16 × ℕ)) := do
  if parsing = minusThirteen then
    if offset + 1 > size then
      return none
    let b ← load buffer (offset + 1)
    return some (UInt16.ofNat (b.toNat + minusThirteenOptValue), offset + 1)
  else if parsing = minusTwoHundredSixtyNine then
    if offset + 2 > size then
      return none
    let b₁ ← load buffer (offset + 1)
    let b₂ ← load buffer (offset + 2)
    let modifying :=
      if littleEndian then UInt16.ofNat (b₁.toNat ||| b₂.toNat <<< 8)
      else UInt16.ofNat (b₂.toNat ||| b₁.toNat <<< 8)
    return some (modifying + UInt16.ofNat minusTwoHundredSixtyNineOptValue, offset + 2)
  else if parsing = reservedForFuture then
    return none
  else
    return some (modifying, offset)

/-! ## The passes -/

/-- The loop of `parse_options`, from `offset` on, with the number and the options so far.  It ends
with an error or at the offset where the options end. -/
def parseOptionsLoop (buf : List UInt8) (size : ℕ) (littleEndian : Bool) :
    ℕ → ℕ → UInt16 → List CoapOption → Except Fault (List CoapOption × Except ErrorCode ℕ)
  | 0, _, _, _ => .error .outOfFuel
  | fuel + 1, offset, optNumber, options => do
    -- the loop condition reads the byte before it compares the offset with the size
    let b ← load buf offset
    if b = payloadMarker ∨ ¬ offset < size then
      return (options, .ok offset)
    let opt : CoapOption := { header := b }
    match ← parseOption buf size opt.delta (UInt16.ofNat opt.delta) offset littleEndian with
    | none => return (options, .error (.coap .optionDelta))
    | some (optDelta, offset) =>
      match ← parseOption buf size opt.length (UInt16.ofNat opt.length) offset littleEndian with
      | none => return (options, .error (.coap .optionLength))
      | some (optLength, offset) =>
        let offset := offset + 1
        if offset + optLength.toNat > size then
          return (options, .error (.coap .optionLength))
        let optNumber := optNumber + optDelta
        let value ← copyFrom buf offset optLength.toNat
        parseOptionsLoop buf size littleEndian fuel (offset + optLength.toNat) optNumber
          (options ++ [{ opt with number := optNumber, value }])

namespace Packet

/-- `parse_header` -/
def parseHeader (p : Packet) (buffer : Option (List UInt8)) (size : ℕ) :
    Except Fault (Packet × Option ErrorCode) := do
  assert buffer.isSome
  assert (packetMinLength ≤ size)
  match buffer with
  | none => return (p, some (.system .efault))
  | some buf =>
    if size < packetMinLength then
      return (p, some (.system .einval))
    let b₀ ← load buf 0
    let p := { p with header := b₀ }
    if coapVersion ≠ p.version then
      return (p, some (.coap .protocolVersion))
    let b₁ ← load buf 1
    let p := { p with code := b₁ }
    let b₂ ← load buf 2
    let b₃ ← load buf 3
    let identity :=
      if p.littleEndian then UInt16.ofNat (b₃.toNat ||| b₂.toNat <<< 8)
      else UInt16.ofNat (b₂.toNat ||| b₃.toNat <<< 8)
    return ({ p with identity }, none)

/-- `parse_token` -/
def parseToken (p : Packet) (buffer : Option (List UInt8)) (size : ℕ) :
    Except Fault (Packet × Option ErrorCode) := do
  assert buffer.isSome
  match buffer with
  | none => return (p, some (.system .efault))
  | some buf =>
    if p.tokenLength > tokenMaxLength then
      return (p, some (.coap .tokenLength))
    if size < packetHeaderSize + p.tokenLength then
      return (p, some (.system .einval))
    let token ← copyFrom buf packetHeaderSize p.tokenLength
    return ({ p with token := p.token.overwrite token }, none)

/-- `parse_options` -/
def parseOptions (p : Packet) (buffer : Option (List UInt8)) (size : ℕ) :
    Except Fault (Packet × Option ErrorCode) := do
  assert buffer.isSome
  match buffer with
  | none => return (p, some (.system .efault))
  | some buf =>
    let startOffset := packetHeaderSize + p.tokenLength
    match ← parseOptionsLoop buf size p.littleEndian (size + 1) startOffset 0 [] with
    | (options, .error e) => return ({ p with options }, some e)
    | (options, .ok offset) => return ({ p with options, payloadOffset := offset + 1 }, none)

/-- `parse_payload` -/
def parsePayload (p : Packet) (buffer : Option (List UInt8)) (size : ℕ) :
    Except Fault (Packet × Option ErrorCode) := do
  assert buffer.isSome
  assert (p.payloadOffset ≤ size)
  match buffer with
  | none => return (p, some (.system .efault))
  | some buf =>
    if size < p.payloadOffset then
      return (p, some (.system .einval))
    let bytes ← copyFrom buf p.payloadOffset (size - p.payloadOffset)
    return ({ p with payload := p.payload ++ bytes }, none)

/-- `parse` -/
def parse (p : Packet) (buffer : Option (List UInt8)) (size : ℕ) :
    Except Fault (Packet × Option ErrorCode) := do
  assert buffer.isSome
  assert (size ≠ 0)
  if buffer.isNone then
    return (p, some (.system .efault))
  if size = 0 then
    return (p, some (.system .einval))
  match ← p.parseHeader buffer size with
  | (p, some e) => return (p, some e)
  | (p, none) =>
    match ← p.parseToken buffer size with
    | (p, some e) => return (p, some e)
    | (p, none) =>
      match ← p.parseOptions buffer size with
      | (p, some e) => return (p, some e)
      | (p, none) => p.parsePayload buffer size

end Packet

/-! ## The reading of the host -/

/-- Two bytes of the wire as the host combines them. -/
def hostWord (littleEndian : Bool) (a b : UInt8) : ℕ :=
  if littleEndian then b.toNat * 256 + a.toNat else a.toNat * 256 + b.toNat

/-- The reading of a two-byte extension by `parse_option`, in 16-bit arithmetic. -/
def hostOrder (littleEndian : Bool) (a b : UInt8) : ℕ := (hostWord littleEndian a b + 269) % 65536

theorem hostWord_lt (littleEndian : Bool) (a b : UInt8) : hostWord littleEndian a b < 65536 := by
  have := a.toNat_lt
  have := b.toNat_lt
  rw [hostWord]
  split <;> omega

theorem lor_shiftLeft_eight (lo hi : UInt8) :
    lo.toNat ||| hi.toNat <<< 8 = hi.toNat * 256 + lo.toNat := by
  have h := Nat.shiftLeft_add_eq_or_of_lt (i := 8) lo.toNat_lt hi.toNat
  rw [Nat.or_comm, ← h, Nat.shiftLeft_eq]

theorem parseOption_value {pre t t' rest : List UInt8} {nib n offset : ℕ} {littleEndian : Bool}
    (hpre : pre.length = offset + 1)
    (h : Rfc7252.takeField (hostOrder littleEndian) nib t = .value n t') :
    parseOption (pre ++ (t ++ rest)) (pre.length + t.length) nib (UInt16.ofNat nib) offset
      littleEndian = .ok (some (UInt16.ofNat n, offset + (t.length - t'.length))) := by
  rw [Rfc7252.takeField.eq_def] at h
  split at h
  · rename_i hnib
    cases h
    simp [parseOption, show nib ≠ 13 by omega, show nib ≠ 14 by omega, show nib ≠ 15 by omega]
  · split at h
    · rename_i h13
      split at h
      · cases h
      · rename_i a _
        cases h
        have ha : load (pre ++ (a :: t' ++ rest)) (offset + 1) = .ok a := by
          rw [← hpre]; exact load_append_length pre (t' ++ rest) a
        rw [parseOption, minusThirteen, if_pos h13,
          if_neg (by simp only [List.length_cons]; omega), ha]
        simp
    · split at h
      · rename_i h14
        split at h
        · cases h
        · cases h
        · rename_i a b _
          cases h
          have ha : load (pre ++ (a :: b :: t' ++ rest)) (offset + 1) = .ok a := by
            rw [← hpre]; exact load_append_length pre (b :: t' ++ rest) a
          have hb : load (pre ++ (a :: b :: t' ++ rest)) (offset + 2) = .ok b := by
            rw [show offset + 2 = pre.length + 1 by omega]; exact load_append_add rfl
          have hword : (if littleEndian then UInt16.ofNat (a.toNat ||| b.toNat <<< 8)
              else UInt16.ofNat (b.toNat ||| a.toNat <<< 8)) =
                UInt16.ofNat (hostWord littleEndian a b) := by
            rw [hostWord, lor_shiftLeft_eight, lor_shiftLeft_eight]
            cases littleEndian <;> rfl
          have hsum : UInt16.ofNat (hostWord littleEndian a b) + UInt16.ofNat 269 =
              UInt16.ofNat (hostOrder littleEndian a b) := by
            rw [← UInt16.toNat_inj, UInt16.toNat_add, hostOrder]
            simp
          rw [parseOption, minusThirteen, if_neg (by omega), minusTwoHundredSixtyNine, if_pos h14,
            if_neg (by simp only [List.length_cons]; omega), ha, ok_bind, hb, ok_bind, pure_eq_ok,
            minusTwoHundredSixtyNineOptValue]
          simp only [hword, hsum, List.length_cons]
          congr 3
          omega
      · cases h

theorem parseOption_reserved {nib : ℕ} (hnib : nib < 16) {t : List UInt8} {littleEndian : Bool}
    (h : Rfc7252.takeField (hostOrder littleEndian) nib t = .reserved) (buf : List UInt8)
    (size offset : ℕ) (m : UInt16) :
    parseOption buf size nib m offset littleEndian = .ok none := by
  have h15 : nib = 15 := by
    rw [Rfc7252.takeField.eq_def] at h
    repeat' split at h
    all_goals cases h
    omega
  simp [parseOption, h15]

theorem parseOption_short_two {pre t : List UInt8} {nib offset k : ℕ} (hk : k ≠ 1)
    {littleEndian : Bool} (hpre : pre.length = offset + 1)
    (h : Rfc7252.takeField (hostOrder littleEndian) nib t = .short k) (buf : List UInt8)
    (m : UInt16) :
    parseOption buf (pre.length + t.length) nib m offset littleEndian = .ok none := by
  rw [Rfc7252.takeField.eq_def] at h
  split at h
  · cases h
  · split at h
    · split at h
      · cases h; exact absurd rfl hk
      · cases h
    · split at h
      · rename_i h14
        split at h
        · rw [parseOption, minusThirteen, if_neg (by omega), minusTwoHundredSixtyNine, if_pos h14,
            if_pos (by simp only [List.length_nil]; omega), pure_eq_ok]
        · cases h; exact absurd rfl hk
        · cases h
      · cases h

/-- One missing byte is not noticed: the check lets `parse_option` read the first byte behind the
datagram. -/
theorem parseOption_short_one {pre t : List UInt8} {nib offset : ℕ} {littleEndian : Bool}
    (hpre : pre.length = offset + 1)
    (h : Rfc7252.takeField (hostOrder littleEndian) nib t = .short 1) (rest : List UInt8)
    (m : UInt16) :
    ∃ g, parseOption (pre ++ (t ++ rest)) (pre.length + t.length) nib m offset littleEndian =
      if rest = [] then .error (.outOfBounds (pre.length + t.length))
      else .ok (some (g, pre.length + t.length)) := by
  have hend : rest = [] → load (pre ++ (t ++ rest)) (pre.length + t.length) =
      .error (.outOfBounds (pre.length + t.length)) := by
    rintro rfl
    rw [List.append_nil, ← List.length_append]
    exact load_length _
  have hbehind : ∀ c rest', rest = c :: rest' →
      load (pre ++ (t ++ rest)) (pre.length + t.length) = .ok c := by
    rintro c rest' rfl
    rw [← List.append_assoc, ← List.length_append]
    exact load_append_length _ rest' c
  rw [Rfc7252.takeField.eq_def] at h
  split at h
  · cases h
  · split at h
    · rename_i h13
      split at h
      · simp only [List.length_nil, Nat.add_zero] at hend hbehind ⊢
        rw [parseOption, minusThirteen, if_pos h13, if_neg (by omega), ← hpre]
        cases rest with
        | nil => exact ⟨0, by rw [hend rfl, if_pos rfl]; rfl⟩
        | cons c rest =>
          exact ⟨_, by
            rw [hbehind c rest rfl, ok_bind, if_neg (List.cons_ne_nil c rest)]
            rfl⟩
      · cases h
    · split at h
      · rename_i h14
        split at h
        · cases h
        · rename_i a
          have ha : load (pre ++ ([a] ++ rest)) pre.length = .ok a :=
            load_append_length pre rest a
          simp only [List.length_singleton] at hend hbehind ⊢
          rw [parseOption, minusThirteen, if_neg (by omega), minusTwoHundredSixtyNine, if_pos h14,
            if_neg (by omega), ← hpre, ha, ok_bind, show offset + 2 = pre.length + 1 by omega]
          cases rest with
          | nil => exact ⟨0, by rw [hend rfl, if_pos rfl]; rfl⟩
          | cons c rest =>
            exact ⟨_, by
              rw [hbehind c rest rfl, ok_bind, if_neg (List.cons_ne_nil c rest)]
              rfl⟩
        · cases h
      · cases h

/-- From the end of the datagram `parse_option` either fails or moves nowhere. -/
theorem parseOption_at_end (buf : List UInt8) (size nib : ℕ) (m : UInt16) (littleEndian : Bool) :
    parseOption buf size nib m size littleEndian = .ok none ∨
      parseOption buf size nib m size littleEndian = .ok (some (m, size)) := by
  by_cases h13 : nib = 13
  · left; simp [parseOption, h13]
  · by_cases h14 : nib = 14
    · left; simp [parseOption, h14]
    · by_cases h15 : nib = 15
      · left; simp [parseOption, h15]
      · right; simp [parseOption, h13, h14, h15]

/-! ## The loop is a walk -/

/-- The options the loop stores for the raw options of a walk: the numbers are summed up in 16
bits. -/
def parsedOptions : UInt16 → List Rfc7252.RawOption → List CoapOption
  | _, [] => []
  | n, o :: os =>
    { header := o.header, number := n + UInt16.ofNat o.delta, value := o.value } ::
      parsedOptions (n + UInt16.ofNat o.delta) os

/-- The options that are cut off exactly one byte before the end of a field. -/
def overreads : Rfc7252.Malformed → Bool
  | .shortDelta k => k == 1
  | .shortLength k => k == 1
  | _ => false

/-- The error reported for a malformed option.  A delta that is cut off by one byte is read all the
same, and what is noticed is that nothing is left for the length. -/
def errorOf : Rfc7252.Malformed → ErrorCode
  | .reservedDelta => .coap .optionDelta
  | .shortDelta k => if k = 1 then .coap .optionLength else .coap .optionDelta
  | _ => .coap .optionLength

/-- How the loop ends, over a datagram of `size` bytes with `rest` behind it. -/
def loopResult (size : ℕ) (rest : List UInt8) (options : List CoapOption) :
    Rfc7252.Ending → Except Fault (List CoapOption × Except ErrorCode ℕ)
  | .finished => if rest = [] then .error (.outOfBounds size) else .ok (options, .ok size)
  | .marker payload => .ok (options, .ok (size - payload.length - 1))
  | .malformed why =>
    if rest = [] ∧ overreads why then .error (.outOfBounds size)
    else .ok (options, .error (errorOf why))

/-- The walk the host takes over the options. -/
def hostWalk (littleEndian : Bool) (l : List UInt8) : List Rfc7252.RawOption × Rfc7252.Ending :=
  (Rfc7252.optionPeeler (hostOrder littleEndian)).all l

theorem hostWalk_stop {littleEndian : Bool} {l : List UInt8} {e : Rfc7252.Ending}
    (h : Rfc7252.peelOption (hostOrder littleEndian) l = .stop e) :
    hostWalk littleEndian l = ([], e) :=
  Peeler.all_stop (P := Rfc7252.optionPeeler (hostOrder littleEndian)) h

theorem hostWalk_item {littleEndian : Bool} {l l' : List UInt8} {o : Rfc7252.RawOption}
    (h : Rfc7252.peelOption (hostOrder littleEndian) l = .item o l') :
    hostWalk littleEndian l = (o :: (hostWalk littleEndian l').1, (hostWalk littleEndian l').2) :=
  Peeler.all_item (P := Rfc7252.optionPeeler (hostOrder littleEndian)) h

theorem parsedOptions_append (n : UInt16) (o : Rfc7252.RawOption) (os : List Rfc7252.RawOption)
    (options : List CoapOption) :
    (options ++ [{ header := o.header, number := n + UInt16.ofNat o.delta, value := o.value }]) ++
      parsedOptions (n + UInt16.ofNat o.delta) os = options ++ parsedOptions n (o :: os) := by
  rw [List.append_assoc]; rfl

theorem lt_of_takeField_host {littleEndian : Bool} {nib n : ℕ} {l rest : List UInt8}
    (h : Rfc7252.takeField (hostOrder littleEndian) nib l = .value n rest) : n < 65536 := by
  rw [Rfc7252.takeField.eq_def] at h
  split at h
  · cases h; omega
  · split at h
    · split at h
      · cases h
      · rename_i a _; cases h; have := a.toNat_lt; omega
    · split at h
      · split at h
        · cases h
        · cases h
        · cases h; exact Nat.mod_lt _ (by decide)
      · cases h

/-- `parse_option` on the field behind `pre`, with the field `e` it takes off spelled out. -/
theorem parseOption_field {pre e t' : List UInt8} (rest : List UInt8) {nib n offset size : ℕ}
    {littleEndian : Bool} (hpre : pre.length = offset + 1)
    (hsize : size = pre.length + (e ++ t').length)
    (h : Rfc7252.takeField (hostOrder littleEndian) nib (e ++ t') = .value n t') :
    parseOption (pre ++ (e ++ t' ++ rest)) size nib (UInt16.ofNat nib) offset
      littleEndian = .ok (some (UInt16.ofNat n, offset + e.length)) := by
  rw [hsize, parseOption_value hpre h, List.length_append, Nat.add_sub_cancel]

theorem parseOptionsLoop_item {l l' : List UInt8} {o : Rfc7252.RawOption} {littleEndian : Bool}
    (h : Rfc7252.peelOption (hostOrder littleEndian) l = .item o l') (pre rest : List UInt8)
    (fuel : ℕ) (number : UInt16) (options : List CoapOption) :
    ∃ pre' : List UInt8, pre.length + l.length = pre'.length + l'.length ∧
      parseOptionsLoop (pre ++ (l ++ rest)) (pre.length + l.length) littleEndian (fuel + 1)
        pre.length number options =
      parseOptionsLoop (pre' ++ (l' ++ rest)) (pre'.length + l'.length) littleEndian fuel
        pre'.length (number + UInt16.ofNat o.delta)
        (options ++ [{ header := o.header, number := number + UInt16.ofNat o.delta,
                       value := o.value }]) := by
  obtain ⟨t, t', rfl, hmarker, hdelta, hlen⟩ := Rfc7252.peelOption_eq_item h
  obtain ⟨e, rfl⟩ := Rfc7252.suffix_of_takeField hdelta
  obtain ⟨e', rfl⟩ := Rfc7252.suffix_of_takeField hlen
  have hvalue : (UInt16.ofNat o.value.length).toNat = o.value.length := by
    rw [UInt16.toNat_ofNat', Nat.mod_eq_of_lt (lt_of_takeField_host hlen)]
  -- the block and the size, with the consumed bytes moved over to the prefix one field at a time
  have hbuf₁ : pre ++ (o.header :: (e ++ (e' ++ (o.value ++ l'))) ++ rest) =
      (pre ++ [o.header]) ++ (e ++ (e' ++ (o.value ++ l')) ++ rest) := by simp
  have hbuf₂ : pre ++ (o.header :: (e ++ (e' ++ (o.value ++ l'))) ++ rest) =
      (pre ++ [o.header] ++ e) ++ (e' ++ (o.value ++ l') ++ rest) := by simp
  have hbuf₃ : pre ++ (o.header :: (e ++ (e' ++ (o.value ++ l'))) ++ rest) =
      (pre ++ [o.header] ++ e ++ e') ++ (o.value ++ (l' ++ rest)) := by simp
  have hbuf₄ : pre ++ (o.header :: (e ++ (e' ++ (o.value ++ l'))) ++ rest) =
      (pre ++ [o.header] ++ e ++ e' ++ o.value) ++ (l' ++ rest) := by simp
  have hsize : pre.length + (o.header :: (e ++ (e' ++ (o.value ++ l')))).length =
      (pre ++ [o.header] ++ e ++ e' ++ o.value).length + l'.length := by
    simp only [List.length_cons, List.length_append, List.length_nil]; omega
  refine ⟨pre ++ [o.header] ++ e ++ e' ++ o.value, hsize, ?_⟩
  have hbyte : load (pre ++ (o.header :: (e ++ (e' ++ (o.value ++ l'))) ++ rest)) pre.length =
      .ok o.header := load_append_length pre _ o.header
  have hsize₁ : pre.length + (o.header :: (e ++ (e' ++ (o.value ++ l')))).length =
      (pre ++ [o.header]).length + (e ++ (e' ++ (o.value ++ l'))).length := by
    simp only [List.length_cons, List.length_append, List.length_nil]; omega
  have hsize₂ : pre.length + (o.header :: (e ++ (e' ++ (o.value ++ l')))).length =
      (pre ++ [o.header] ++ e).length + (e' ++ (o.value ++ l')).length := by
    simp only [List.length_cons, List.length_append, List.length_nil]; omega
  have hpre₁ : (pre ++ [o.header]).length = pre.length + 1 := by simp
  have hpre₂ : (pre ++ [o.header] ++ e).length = pre.length + e.length + 1 := by
    simp only [List.length_append, List.length_cons, List.length_nil]; omega
  have hfirst := parseOption_field rest hpre₁ hsize₁ hdelta
  have hsecond := parseOption_field rest hpre₂ hsize₂ hlen
  have hcopy := copyFrom_append (pre ++ [o.header] ++ e ++ e') o.value (l' ++ rest)
  rw [← hbuf₁] at hfirst
  rw [← hbuf₂] at hsecond
  rw [← hbuf₃, show (pre ++ [o.header] ++ e ++ e').length =
    pre.length + e.length + e'.length + 1 by
      simp only [List.length_append, List.length_cons, List.length_nil]; omega] at hcopy
  rw [parseOptionsLoop, hbyte, ok_bind, if_neg (by
    rintro (hb | hb)
    · exact hmarker hb
    · exact hb (by simp only [List.length_cons]; omega))]
  simp only [CoapOption.delta, CoapOption.length, hfirst, hsecond, ok_bind, hvalue, hcopy]
  rw [if_neg (by simp only [List.length_cons, List.length_append]; omega), ← hsize, ← hbuf₄]
  congr 1
  simp only [List.length_append, List.length_cons, List.length_nil]
  omega

theorem parseOptionsLoop_malformed {l rest pre : List UInt8} {why : Rfc7252.Malformed}
    {littleEndian : Bool}
    (h : Rfc7252.peelOption (hostOrder littleEndian) l = .stop (.malformed why)) (fuel : ℕ)
    (number : UInt16) (options : List CoapOption) :
    parseOptionsLoop (pre ++ (l ++ rest)) (pre.length + l.length) littleEndian (fuel + 1)
      pre.length number options =
    loopResult (pre.length + l.length) rest options (.malformed why) := by
  obtain ⟨b, t, rfl, hmarker, hwhy⟩ := Rfc7252.peelOption_eq_malformed h
  have hbuf : pre ++ (b :: t ++ rest) = (pre ++ [b]) ++ (t ++ rest) := by simp
  have hsize : pre.length + (b :: t).length = (pre ++ [b]).length + t.length := by
    simp only [List.length_cons, List.length_append, List.length_nil]; omega
  have hoffset : (pre ++ [b]).length = pre.length + 1 := by simp
  have hbyte : load (pre ++ (b :: t ++ rest)) pre.length = .ok b :=
    load_append_length pre (t ++ rest) b
  have hnib : b.toNat / 16 < 16 := by have := b.toNat_lt; omega
  rw [parseOptionsLoop, hbyte, ok_bind, if_neg (by
    rintro (hb | hb)
    · exact hmarker hb
    · exact hb (by simp only [List.length_cons]; omega))]
  simp only [CoapOption.delta, CoapOption.length, hbuf, hsize]
  rcases hwhy with ⟨hdelta, rfl⟩ | ⟨k, hdelta, rfl⟩ | ⟨d, t', hdelta, hwhy⟩
  · rw [parseOption_reserved hnib hdelta]
    simp [loopResult, overreads, errorOf]
  · by_cases hk : k = 1
    · -- the delta is read from behind the datagram, and nothing is left for the length
      subst hk
      obtain ⟨g, hg⟩ := parseOption_short_one hoffset hdelta rest (UInt16.ofNat (b.toNat / 16))
      rw [hg]
      by_cases hrest : rest = []
      · simp [hrest, loopResult, overreads]
      · rw [if_neg hrest, ok_bind]
        simp only [loopResult, hrest, false_and, if_false, errorOf]
        rcases parseOption_at_end (pre ++ [b] ++ (t ++ rest)) ((pre ++ [b]).length + t.length)
          (b.toNat % 16) (UInt16.ofNat (b.toNat % 16)) littleEndian with hend | hend
        · rw [hend]; rfl
        · rw [hend, ok_bind]; simp only; rw [if_pos (by omega)]; rfl
    · rw [parseOption_short_two hk hoffset hdelta]
      simp [loopResult, overreads, errorOf, hk]
  · obtain ⟨e, rfl⟩ := Rfc7252.suffix_of_takeField hdelta
    have hbuf' : (pre ++ [b]) ++ (e ++ t' ++ rest) = (pre ++ [b] ++ e) ++ (t' ++ rest) := by simp
    have hsize' : (pre ++ [b]).length + (e ++ t').length =
        (pre ++ [b] ++ e).length + t'.length := by simp only [List.length_append]; omega
    have hoffset' : (pre ++ [b] ++ e).length = pre.length + e.length + 1 := by
      simp only [List.length_append, List.length_cons, List.length_nil]; omega
    rw [parseOption_field rest hoffset rfl hdelta, ok_bind]
    simp only [hbuf', hsize']
    rcases hwhy with ⟨hlen, rfl⟩ | ⟨k, hlen, rfl⟩ | ⟨n, t'', hlen, hshort, rfl⟩
    · rw [parseOption_reserved (Nat.mod_lt _ (by decide)) hlen]
      simp [loopResult, overreads, errorOf]
    · by_cases hk : k = 1
      · -- the length is read from behind the datagram, and no value has room there
        subst hk
        obtain ⟨g, hg⟩ := parseOption_short_one hoffset' hlen rest (UInt16.ofNat (b.toNat % 16))
        rw [hg]
        by_cases hrest : rest = []
        · simp [hrest, loopResult, overreads]
        · rw [if_neg hrest, ok_bind]
          simp only [loopResult, hrest, false_and, if_false, errorOf]
          rw [if_pos (by omega)]
          rfl
      · rw [parseOption_short_two hk hoffset' hlen]
        simp [loopResult, overreads, errorOf, hk]
    · have hvalue : (UInt16.ofNat n).toNat = n := by
        rw [UInt16.toNat_ofNat', Nat.mod_eq_of_lt (lt_of_takeField_host hlen)]
      obtain ⟨e', rfl⟩ := Rfc7252.suffix_of_takeField hlen
      rw [parseOption_field rest hoffset' rfl hlen, ok_bind]
      simp only [hvalue]
      rw [if_pos (by simp only [List.length_append] at hoffset' ⊢; omega)]
      simp [loopResult, overreads, errorOf]

theorem parseOptionsLoop_stop {l rest pre : List UInt8} {e : Rfc7252.Ending} {littleEndian : Bool}
    (h : Rfc7252.peelOption (hostOrder littleEndian) l = .stop e) (fuel : ℕ) (number : UInt16)
    (options : List CoapOption) :
    parseOptionsLoop (pre ++ (l ++ rest)) (pre.length + l.length) littleEndian (fuel + 1)
      pre.length number options = loopResult (pre.length + l.length) rest options e := by
  cases e with
  | finished =>
    obtain rfl := Rfc7252.peelOption_eq_finished.mp h
    rw [parseOptionsLoop, List.nil_append, List.length_nil, Nat.add_zero, loopResult]
    cases rest with
    | nil => rw [List.append_nil, load_length, error_bind, if_pos rfl]
    | cons c rest =>
      rw [load_append_length, ok_bind, if_pos (.inr (Nat.lt_irrefl _)), if_neg (by simp),
        pure_eq_ok]
  | marker payload =>
    obtain rfl := Rfc7252.peelOption_eq_marker.mp h
    have hbyte : load (pre ++ (Rfc7252.marker :: payload ++ rest)) pre.length =
        .ok Rfc7252.marker := load_append_length pre (payload ++ rest) _
    rw [parseOptionsLoop, hbyte, ok_bind, if_pos (.inl rfl), pure_eq_ok, loopResult]
    simp only [List.length_cons]
    congr 3
    omega
  | malformed why => exact parseOptionsLoop_malformed h fuel number options

/-- **The option loop is a walk.**  Over a datagram of which `pre` has been consumed and `l` is
left, with `rest` behind it, the loop stores the options of the host's walk over `l` and ends where
the walk ends. -/
theorem parseOptionsLoop_eq (littleEndian : Bool) {l : List UInt8} (rest : List UInt8) {fuel : ℕ}
    (hfuel : l.length < fuel) (pre : List UInt8) (number : UInt16) (options : List CoapOption) :
    parseOptionsLoop (pre ++ (l ++ rest)) (pre.length + l.length) littleEndian fuel pre.length
      number options =
    loopResult (pre.length + l.length) rest
      (options ++ parsedOptions number (hostWalk littleEndian l).1)
      (hostWalk littleEndian l).2 := by
  obtain ⟨fuel, rfl⟩ : ∃ n, fuel = n + 1 := ⟨fuel - 1, by omega⟩
  induction l using (Rfc7252.optionPeeler (hostOrder littleEndian)).induct
    generalizing fuel pre number options with
  | stop l e hp =>
    rw [hostWalk_stop hp, parsedOptions, List.append_nil]
    exact parseOptionsLoop_stop hp fuel number options
  | item l o l' hp ih =>
    have hlt := (Rfc7252.optionPeeler (hostOrder littleEndian)).shrinks hp
    obtain ⟨fuel, rfl⟩ : ∃ n, fuel = n + 1 := ⟨fuel - 1, by omega⟩
    obtain ⟨pre', hsize, hturn⟩ := parseOptionsLoop_item hp pre rest (fuel + 1) number options
    rw [hturn, ih _ _ _ _ (by omega), hostWalk_item hp, ← hsize, parsedOptions_append]

/-! ## The outcome of `parse` -/

namespace Packet

/-- The packet with the members that are read from the first four bytes. -/
def withHeader (p : Packet) (b₀ b₁ b₂ b₃ : UInt8) : Packet :=
  { p with header := b₀, code := b₁, identity := UInt16.ofNat (hostWord p.littleEndian b₃ b₂) }

/-- The packet `parse` has built when the options have been walked over, for a datagram that is
`l` behind its first four bytes. -/
def withOptions (p : Packet) (b₀ b₁ b₂ b₃ : UInt8) (l : List UInt8)
    (raws : List Rfc7252.RawOption) : Packet :=
  { p.withHeader b₀ b₁ b₂ b₃ with
    token := p.token.overwrite (l.take (b₀.toNat % 16)), options := parsedOptions 0 raws }

/-- What `parse` makes of the end of the options. -/
def parseEnding (p : Packet) (size : ℕ) (rest : List UInt8) :
    Rfc7252.Ending → Except Fault (Packet × Option ErrorCode)
  | .finished => .error (if rest = [] then .outOfBounds size else .assertion)
  | .marker payload =>
    .ok ({ p with payloadOffset := size - payload.length, payload := p.payload ++ payload }, none)
  | .malformed why =>
    if rest = [] ∧ overreads why then .error (.outOfBounds size) else .ok (p, some (errorOf why))

theorem parseHeader_eq (p : Packet) (b₀ b₁ b₂ b₃ : UInt8) (l : List UInt8) {size : ℕ}
    (h : 4 ≤ size) :
    p.parseHeader (some (b₀ :: b₁ :: b₂ :: b₃ :: l)) size =
      if b₀.toNat / 64 = 1 then .ok (p.withHeader b₀ b₁ b₂ b₃, none)
      else .ok ({ p with header := b₀ }, some (.coap .protocolVersion)) := by
  have h1 : load (b₀ :: b₁ :: b₂ :: b₃ :: l) 1 = .ok b₁ := rfl
  have h2 : load (b₀ :: b₁ :: b₂ :: b₃ :: l) 2 = .ok b₂ := rfl
  have h3 : load (b₀ :: b₁ :: b₂ :: b₃ :: l) 3 = .ok b₃ := rfl
  have hword : (if p.littleEndian then UInt16.ofNat (b₃.toNat ||| b₂.toNat <<< 8)
      else UInt16.ofNat (b₂.toNat ||| b₃.toNat <<< 8)) =
        UInt16.ofNat (hostWord p.littleEndian b₃ b₂) := by
    rw [hostWord, lor_shiftLeft_eight, lor_shiftLeft_eight]
    cases p.littleEndian <;> rfl
  simp only [parseHeader, Option.isSome_some, assert_true, packetMinLength, packetHeaderSize, h,
    decide_true, ok_bind, show ¬ size < 4 by omega, if_false, load_cons_zero, h1, h2, h3, version,
    coapVersion, pure_eq_ok, hword, withHeader, ne_eq]
  by_cases hv : b₀.toNat / 64 = 1
  · simp [hv]
  · simp [hv, Ne.symm hv]

theorem parseToken_eq (p : Packet) (b₀ b₁ b₂ b₃ : UInt8) (l rest : List UInt8) :
    p.parseToken (some (b₀ :: b₁ :: b₂ :: b₃ :: (l ++ rest))) (l.length + 4) =
      if 8 < p.tokenLength then .ok (p, some (.coap .tokenLength))
      else if l.length < p.tokenLength then .ok (p, some (.system .einval))
      else .ok ({ p with token := p.token.overwrite (l.take p.tokenLength) }, none) := by
  simp only [parseToken, Option.isSome_some, assert_true, ok_bind, tokenMaxLength, gt_iff_lt,
    packetHeaderSize, pure_eq_ok]
  split
  · rfl
  · by_cases hlt : l.length < p.tokenLength
    · rw [if_pos hlt, if_pos (by omega)]
    · have hcopy := copyFrom_append [b₀, b₁, b₂, b₃] (l.take p.tokenLength)
        (l.drop p.tokenLength ++ rest)
      rw [← List.append_assoc (l.take _), List.take_append_drop, List.length_take,
        Nat.min_eq_left (by omega)] at hcopy
      rw [if_neg hlt, if_neg (by omega),
        show copyFrom (b₀ :: b₁ :: b₂ :: b₃ :: (l ++ rest)) 4 p.tokenLength =
          .ok (l.take p.tokenLength) from hcopy, ok_bind]

theorem parseOptions_eq (p : Packet) (b₀ b₁ b₂ b₃ : UInt8) {l rest : List UInt8}
    (h : p.tokenLength ≤ l.length) {raws : List Rfc7252.RawOption} {e : Rfc7252.Ending}
    (hw : hostWalk p.littleEndian (l.drop p.tokenLength) = (raws, e)) :
    p.parseOptions (some (b₀ :: b₁ :: b₂ :: b₃ :: (l ++ rest))) (l.length + 4) =
      (loopResult (l.length + 4) rest (parsedOptions 0 raws) e).map fun r ↦
        match r with
        | (options, .error e) => ({ p with options }, some e)
        | (options, .ok offset) => ({ p with options, payloadOffset := offset + 1 }, none) := by
  have hpre : ([b₀, b₁, b₂, b₃] ++ l.take p.tokenLength).length = 4 + p.tokenLength := by
    simp only [List.length_append, List.length_take, List.length_cons, List.length_nil]; omega
  have hbuf : b₀ :: b₁ :: b₂ :: b₃ :: (l ++ rest) =
      ([b₀, b₁, b₂, b₃] ++ l.take p.tokenLength) ++ (l.drop p.tokenLength ++ rest) := by
    rw [List.append_assoc, ← List.append_assoc (l.take _), List.take_append_drop]; rfl
  have hsize : l.length + 4 = ([b₀, b₁, b₂, b₃] ++ l.take p.tokenLength).length +
      (l.drop p.tokenLength).length := by rw [hpre, List.length_drop]; omega
  have hfuel : (l.drop p.tokenLength).length < l.length + 4 + 1 := by
    rw [List.length_drop]; omega
  have hloop := parseOptionsLoop_eq p.littleEndian rest hfuel
    ([b₀, b₁, b₂, b₃] ++ l.take p.tokenLength) 0 []
  rw [← hbuf, ← hsize, hpre, List.nil_append, hw] at hloop
  simp only [parseOptions, Option.isSome_some, assert_true, ok_bind, packetHeaderSize, hloop]
  cases loopResult (l.length + 4) rest (parsedOptions 0 raws) e with
  | error e => rfl
  | ok r =>
    obtain ⟨options, r⟩ := r
    cases r <;> rfl

theorem parsePayload_eq (p : Packet) {buf pre payload rest : List UInt8} {size : ℕ}
    (hbuf : buf = pre ++ (payload ++ rest)) (hsize : size = pre.length + payload.length)
    (hoffset : p.payloadOffset = pre.length) :
    p.parsePayload (some buf) size = .ok ({ p with payload := p.payload ++ payload }, none) := by
  simp only [parsePayload, Option.isSome_some, assert_true, ok_bind, hoffset, hsize, hbuf,
    Nat.le_add_right, decide_true, Nat.add_sub_cancel_left, copyFrom_append, pure_eq_ok]
  rw [if_neg (by omega)]

/-- With the whole datagram walked over, the payload would start behind its end. -/
theorem parsePayload_finished (p : Packet) (buf : List UInt8) {size : ℕ}
    (h : p.payloadOffset = size + 1) : p.parsePayload (some buf) size = .error .assertion := by
  simp [parsePayload, h]

/-- **The outcome of `parse`**, for a datagram of at least four bytes with `rest` behind it. -/
theorem parse_eq (p : Packet) (b₀ b₁ b₂ b₃ : UInt8) (l rest : List UInt8) :
    p.parse (some (b₀ :: b₁ :: b₂ :: b₃ :: (l ++ rest))) (l.length + 4) =
      if b₀.toNat / 64 ≠ 1 then .ok ({ p with header := b₀ }, some (.coap .protocolVersion))
      else if 8 < b₀.toNat % 16 then
        .ok (p.withHeader b₀ b₁ b₂ b₃, some (.coap .tokenLength))
      else if l.length < b₀.toNat % 16 then
        .ok (p.withHeader b₀ b₁ b₂ b₃, some (.system .einval))
      else
        (p.withOptions b₀ b₁ b₂ b₃ l
          (hostWalk p.littleEndian (l.drop (b₀.toNat % 16))).1).parseEnding (l.length + 4) rest
            (hostWalk p.littleEndian (l.drop (b₀.toNat % 16))).2 := by
  have htkl : (p.withHeader b₀ b₁ b₂ b₃).tokenLength = b₀.toNat % 16 := rfl
  have hsize : l.length + 4 ≠ 0 := by omega
  simp only [parse, Option.isSome_some, Option.isNone_some, assert_true, ok_bind, ne_eq, hsize,
    not_false_eq_true, decide_true, if_false, Bool.false_eq_true, pure_eq_ok,
    p.parseHeader_eq b₀ b₁ b₂ b₃ (l ++ rest) (show 4 ≤ l.length + 4 by omega)]
  by_cases hv : b₀.toNat / 64 = 1
  swap
  · rw [if_neg hv, ok_bind, if_pos hv]
  rw [if_pos hv, ok_bind, if_neg (not_not_intro hv)]
  simp only [parseToken_eq, htkl]
  by_cases h8 : 8 < b₀.toNat % 16
  · rw [if_pos h8, if_pos h8]; rfl
  rw [if_neg h8, if_neg h8]
  by_cases hlt : l.length < b₀.toNat % 16
  · rw [if_pos hlt, if_pos hlt]; rfl
  rw [if_neg hlt, if_neg hlt, ok_bind]
  simp only
  rcases hw : hostWalk p.littleEndian (l.drop (b₀.toNat % 16)) with ⟨raws, e⟩
  generalize hq : ({ p.withHeader b₀ b₁ b₂ b₃ with
    token := (p.withHeader b₀ b₁ b₂ b₃).token.overwrite (l.take (b₀.toNat % 16)) } : Packet) = q
  have hoptions : p.withOptions b₀ b₁ b₂ b₃ l raws =
      { q with options := parsedOptions 0 raws } := by
    rw [← hq]; rfl
  have hlen : q.tokenLength = b₀.toNat % 16 := by rw [← hq]; rfl
  have hle : q.littleEndian = p.littleEndian := by rw [← hq]; rfl
  have hwq : hostWalk q.littleEndian (l.drop q.tokenLength) = (raws, e) := by rw [hle, hlen, hw]
  rw [parseOptions_eq q b₀ b₁ b₂ b₃ (by omega) hwq, hoptions]
  cases e with
  | finished =>
    simp only [loopResult, parseEnding]
    by_cases hrest : rest = []
    · rw [if_pos hrest, if_pos hrest]; rfl
    · rw [if_neg hrest, if_neg hrest]
      exact parsePayload_finished _ _ rfl
  | marker payload =>
    obtain ⟨pre, hpre⟩ := Rfc7252.suffix_of_all_eq_marker (congrArg Prod.snd hw)
    have hl : l = l.take (b₀.toNat % 16) ++ (pre ++ Rfc7252.marker :: payload) := by
      rw [hpre, List.take_append_drop]
    have hpos : ([b₀, b₁, b₂, b₃] ++ (l.take (b₀.toNat % 16) ++ (pre ++ [Rfc7252.marker]))).length
        + payload.length = l.length + 4 := by
      conv_rhs => rw [hl]
      simp only [List.length_append, List.length_cons, List.length_nil]
      omega
    have hpos' : 1 ≤ ([b₀, b₁, b₂, b₃] ++
        (l.take (b₀.toNat % 16) ++ (pre ++ [Rfc7252.marker]))).length := by simp
    have hbuf : b₀ :: b₁ :: b₂ :: b₃ :: (l ++ rest) = ([b₀, b₁, b₂, b₃] ++
        (l.take (b₀.toNat % 16) ++ (pre ++ [Rfc7252.marker]))) ++ (payload ++ rest) := by
      conv_lhs => rw [hl]
      simp
    have hback : l.length + 4 - payload.length - 1 + 1 = l.length + 4 - payload.length := by omega
    simp only [loopResult, parseEnding, Except.map, ok_bind, hback]
    rw [parsePayload_eq _ hbuf hpos.symm (Nat.sub_eq_of_eq_add hpos.symm)]
  | malformed why =>
    simp only [loopResult, parseEnding]
    split <;> rfl

theorem parse_of_size_lt (p : Packet) (buf : List UInt8) {size : ℕ} (h : size < 4) :
    p.parse (some buf) size = .error .assertion := by
  by_cases h0 : size = 0
  · simp [parse, h0]
  · simp [parse, parseHeader, h0, show ¬ 4 ≤ size by omega]

/-- The packet `parse` has built when it is through with the options of `l`. -/
def afterOptions (p : Packet) (l : List UInt8) : Packet :=
  { p with
    header := l.getD 0 0
    code := l.getD 1 0
    identity := UInt16.ofNat (hostWord p.littleEndian (l.getD 3 0) (l.getD 2 0))
    token := p.token.overwrite ((l.drop 4).take (Rfc7252.tokenLengthOf l))
    options := parsedOptions 0 (hostWalk p.littleEndian (Rfc7252.optionsOf l)).1 }

/-- With header and token right, the outcome depends on how the options end. -/
theorem parse_of_headOk (p : Packet) {l : List UInt8} (h : Rfc7252.HeadOk l) (rest : List UInt8) :
    p.parse (some (l ++ rest)) l.length =
      (p.afterOptions l).parseEnding l.length rest
        (hostWalk p.littleEndian (Rfc7252.optionsOf l)).2 := by
  obtain ⟨b₀, b₁, b₂, b₃, t, rfl⟩ := Rfc7252.exists_cons_of_four_le h.four_le
  obtain ⟨hv, h8, hlen⟩ := Rfc7252.headOk_cons.mp h
  have hparse := p.parse_eq b₀ b₁ b₂ b₃ t rest
  rw [if_neg (not_not_intro hv), if_neg (by omega), if_neg (by omega)] at hparse
  rw [Rfc7252.optionsOf_cons]
  simp only [afterOptions, Rfc7252.optionsOf_cons]
  exact hparse

/-- With header or token wrong, the datagram is rejected. -/
theorem parse_of_not_headOk (p : Packet) {l : List UInt8} (h4 : 4 ≤ l.length)
    (h : ¬ Rfc7252.HeadOk l) (rest : List UInt8) :
    ∃ q e, p.parse (some (l ++ rest)) l.length = .ok (q, some e) := by
  obtain ⟨b₀, b₁, b₂, b₃, t, rfl⟩ := Rfc7252.exists_cons_of_four_le h4
  have hparse := p.parse_eq b₀ b₁ b₂ b₃ t rest
  rw [Rfc7252.headOk_cons] at h
  by_cases hv : b₀.toNat / 64 = 1
  swap
  · rw [if_pos hv] at hparse
    exact ⟨_, _, hparse⟩
  rw [if_neg (not_not_intro hv)] at hparse
  by_cases h8 : 8 < b₀.toNat % 16
  · rw [if_pos h8] at hparse
    exact ⟨_, _, hparse⟩
  rw [if_neg h8, if_pos (by omega)] at hparse
  exact ⟨_, _, hparse⟩

/-- **What `parse` accepts**: header and token are right, and the options end at a marker. -/
theorem parse_eq_ok_none (p : Packet) {p' : Packet} {l rest : List UInt8} :
    p.parse (some (l ++ rest)) l.length = .ok (p', none) ↔
      Rfc7252.HeadOk l ∧ ∃ payload,
        (hostWalk p.littleEndian (Rfc7252.optionsOf l)).2 = .marker payload ∧
        p' = { p.afterOptions l with
          payloadOffset := l.length - payload.length, payload := p.payload ++ payload } := by
  by_cases h4 : 4 ≤ l.length
  swap
  · rw [p.parse_of_size_lt _ (by omega)]
    exact iff_of_false (by simp) fun h ↦ h4 h.1.four_le
  by_cases hhead : Rfc7252.HeadOk l
  swap
  · obtain ⟨q, e, hreject⟩ := p.parse_of_not_headOk h4 hhead rest
    rw [hreject]
    exact iff_of_false (by simp) fun h ↦ hhead h.1
  rw [p.parse_of_headOk hhead]
  cases (hostWalk p.littleEndian (Rfc7252.optionsOf l)).2 with
  | finished => simp [parseEnding]
  | marker payload =>
    simp only [parseEnding, Except.ok.injEq, Prod.mk.injEq, and_true, hhead, true_and,
      Rfc7252.Ending.marker.injEq, exists_eq_left']
    exact eq_comm
  | malformed why =>
    simp only [parseEnding]
    split <;> simp

end Packet

end Coap
