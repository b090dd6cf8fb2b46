import CoapCpp.Acceptance
import CoapCpp.Bounds

/-!
# The bytes `serialize` writes, read back

`optionsBytes_eq` connects the list of bytes `serialize` writes with the format: it is the encoding
of the *gaps* of the option numbers, with a subtraction that truncates where `serialize` wraps.  So
the bytes always decode, but not always to the options of the packet.

* `carries_iff`: they do exactly if the numbers ascend and no value is too long.  Every other
  packet is sent as a different message, without an error.
* `reencodes_iff`: a packet that was parsed is written back as the bytes it was parsed from exactly
  if nothing wrapped while it was parsed, and the host read every two-byte extension as it was
  written.
-/

set_option autoImplicit false

namespace Coap

open Memory

/-! ## The bytes of the options -/

theorem optionHeader_eq (prev : ℕ) (o : CoapOption) :
    optionHeader prev o = UInt8.ofNat (16 * getOptionNibble (sizeSub o.number.toNat prev) +
      getOptionNibble o.value.length) := by
  have hbits : ∀ a < 15, ∀ b < 15, (a <<< 4 ||| b) &&& 0xFF = 16 * a + b := by decide
  rw [optionHeader, hbits _ (getOptionNibble_lt _) _ (getOptionNibble_lt _)]

/-- The subtraction of a delta field wraps where the truncated one truncates. -/
theorem delta_field (a b : UInt16) :
    getOptionNibble (sizeSub a.toNat b.toNat) = Rfc7252.nibble (a.toNat - b.toNat) ∧
      fieldBytes (sizeSub a.toNat b.toNat) = Rfc7252.extension (a.toNat - b.toNat) := by
  have ha := a.toNat_lt
  have hb := b.toNat_lt
  rw [getOptionNibble_eq, fieldBytes, Rfc7252.maxField]
  by_cases hle : b.toNat ≤ a.toNat
  · rw [sizeSub_of_le hle (by omega), if_pos (by omega), if_pos (by omega)]
    exact ⟨rfl, rfl⟩
  · have hwrap : sizeSub a.toNat b.toNat = 2 ^ 64 - (b.toNat - a.toNat) := by
      rw [sizeSub, UInt64.toNat_sub, UInt64.toNat_ofNat', UInt64.toNat_ofNat']
      omega
    rw [hwrap, if_neg (by omega), if_neg (by omega), Nat.sub_eq_zero_of_le (by omega)]
    exact ⟨rfl, rfl⟩

theorem optionBytes_eq_encodeOption (prev : UInt16) {o : CoapOption}
    (h : o.value.length ≤ Rfc7252.maxField) :
    optionBytes prev.toNat o =
      Rfc7252.encodeOption (o.number.toNat - prev.toNat, o.value) := by
  obtain ⟨hnibble, hbytes⟩ := delta_field o.number prev
  rw [optionBytes, optionHeader_eq, hnibble, hbytes, getOptionNibble_eq, fieldBytes, if_pos h,
    if_pos h, Rfc7252.encodeOption]

/-- **What `serialize` writes for the options** is the encoding of their gaps, if every value fits
a length field. -/
theorem optionsBytes_eq {os : List CoapOption} (prev : UInt16)
    (h : ∀ o ∈ os, o.value.length ≤ Rfc7252.maxField) :
    optionsBytes prev.toNat os =
      (RunningSum.gaps prev.toNat (os.map CoapOption.pair)).flatMap Rfc7252.encodeOption := by
  induction os generalizing prev with
  | nil => rfl
  | cons o os ih =>
    rw [optionsBytes, optionBytes_eq_encodeOption prev (h o List.mem_cons_self),
      ih o.number fun m hm ↦ h m (List.mem_cons_of_mem _ hm)]
    rfl

theorem optionsBytes_zero {os : List CoapOption}
    (h : ∀ o ∈ os, o.value.length ≤ Rfc7252.maxField) :
    optionsBytes 0 os =
      (RunningSum.gaps 0 (os.map CoapOption.pair)).flatMap Rfc7252.encodeOption :=
  optionsBytes_eq 0 h

/-- The gaps of 16-bit numbers fit a delta field, whatever their order. -/
theorem fieldsFit_gaps {os : List CoapOption} (n : ℕ)
    (h : ∀ o ∈ os, o.value.length ≤ Rfc7252.maxField) :
    ∀ g ∈ RunningSum.gaps n (os.map CoapOption.pair), Rfc7252.FieldsFit g := by
  intro g hg
  have hnumber : ∀ o ∈ os.map CoapOption.pair, o.1 ≤ 65535 := by
    intro o ho
    obtain ⟨m, -, rfl⟩ := List.mem_map.mp ho
    exact Nat.le_of_lt_succ m.number.toNat_lt
  obtain ⟨o, ho, hv⟩ := Rfc7252.value_of_mem_gaps hg
  obtain ⟨m, hm, rfl⟩ := List.mem_map.mp ho
  refine ⟨(Rfc7252.gap_le_of_ascending hnumber g hg).trans (by decide), ?_⟩
  rw [← hv]
  exact h m hm

theorem decodeOptions_optionsBytes {os : List CoapOption}
    (h : ∀ o ∈ os, o.value.length ≤ Rfc7252.maxField) (payload : List UInt8) :
    Rfc7252.decodeOptions (optionsBytes 0 os ++ Rfc7252.encodePayload payload) =
      some ((RunningSum.gaps 0 (os.map CoapOption.pair)).map Rfc7252.rawOf, payload) := by
  rw [optionsBytes_zero h]
  exact Rfc7252.decodeOptions_encode (fieldsFit_gaps 0 h) payload

/-! ## What is sent -/

/-- The bytes that were written decode to the options of the packet, in whatever order, and to its
payload. -/
def Carries (out : Serialized) (p : Packet) : Prop :=
  ∃ bytes rest raws, out.buffer = some (front bytes rest) ∧ bytes.length = out.size ∧
    Rfc7252.decodeOptions (bytes.drop (4 + p.tokenLength)) = some (raws, p.payload) ∧
    (RunningSum.sums 0 (raws.map Rfc7252.RawOption.gap)).Perm (p.options.map CoapOption.pair)

/-- A call that returns has written the message. -/
theorem eq_of_serialize {p : Packet} {buf : Cells UInt8} {out : Serialized}
    (h : p.serialize (some buf) buf.length false = .ok out) :
    out = ⟨none, some (front p.bytes (buf.drop p.bytes.length)), p.bytes.length⟩ ∧
      p.bytes.drop (4 + p.tokenLength) =
        optionsBytes 0 p.options ++ Rfc7252.encodePayload p.payload := by
  rw [p.serialize_write buf] at h
  split at h
  · cases h
  · rename_i hrefuses
    split at h
    · cases h
      have h8 : p.tokenLength ≤ tokenMaxLength := by
        by_contra hlt
        exact hrefuses (.inr (.inl (by omega)))
      exact ⟨rfl, by rw [Packet.bytes, List.drop_left' (p.headBytes_length h8)]⟩
    · cases h

theorem front_inj {α : Type} {done done' : List α} {todo todo' : Cells α}
    (h : front done todo = front done' todo') (hlen : done.length = done'.length) :
    done = done' := by
  have hmap := List.append_inj_left h (by simpa using hlen)
  exact List.map_injective_iff.mpr (Option.some_injective α) hmap

/-- **When a message is sent as it is.**  If `serialize` returns at all, what it has written carries
the options and the payload of the packet exactly if the option numbers are in ascending order and
no value is longer than 65804 bytes. -/
theorem carries_iff {p : Packet} {buf : Cells UInt8} {out : Serialized}
    (h : p.serialize (some buf) buf.length false = .ok out) :
    Carries out p ↔ RunningSum.Ascending 0 (p.options.map CoapOption.pair) ∧
      ∀ o ∈ p.options, o.value.length ≤ Rfc7252.maxField := by
  obtain ⟨rfl, hdrop⟩ := eq_of_serialize h
  constructor
  · rintro ⟨bytes, rest, raws, hbuf, hlen, hdecode, hperm⟩
    obtain rfl := front_inj (Option.some.inj hbuf).symm hlen
    rw [hdrop] at hdecode
    have hfit := (Rfc7252.eq_of_decodeOptions hdecode).2
    have hvalue : ∀ o ∈ p.options, o.value.length ≤ Rfc7252.maxField := by
      intro o ho
      obtain ⟨g, hg, hv⟩ := Rfc7252.value_of_mem_sums
        (hperm.mem_iff.mpr (List.mem_map_of_mem ho))
      obtain ⟨raw, hraw, rfl⟩ := List.mem_map.mp hg
      rw [show o.value = raw.value from hv.symm]
      exact (hfit raw hraw).2
    refine ⟨?_, hvalue⟩
    rw [decodeOptions_optionsBytes hvalue, Option.some.injEq, Prod.mk.injEq] at hdecode
    rw [← hdecode.1, Rfc7252.map_gap_rawOf] at hperm
    exact RunningSum.ascending_of_perm hperm
  · rintro ⟨hascending, hvalue⟩
    refine ⟨p.bytes, _, _, rfl, rfl, by rw [hdrop, decodeOptions_optionsBytes hvalue], ?_⟩
    rw [Rfc7252.map_gap_rawOf, RunningSum.sums_gaps hascending]

/-- Two options in ascending order are carried. -/
theorem carries_of_ascending :
    ∃ out, Packet.serialize { Packet.fresh true with
        header := 0x40, options := [{ number := 3 }, { number := 5, value := [1] }],
        payload := [7] }
      (some (List.replicate 9 none)) 9 false = .ok out ∧
      Carries out { Packet.fresh true with
        header := 0x40, options := [{ number := 3 }, { number := 5, value := [1] }],
        payload := [7] } := by
  have hwrite : Packet.serialize { Packet.fresh true with
        header := 0x40, options := [{ number := 3 }, { number := 5, value := [1] }],
        payload := [7] }
      (some (List.replicate 9 none)) (List.replicate 9 (none : Option UInt8)).length false =
      .ok ⟨none, some ([0x40, 0, 0, 0, 0x30, 0x21, 1, 0xFF, 7].map some), 9⟩ := by decide
  exact ⟨_, hwrite, (carries_iff hwrite).mpr (by decide)⟩

/-- Options in descending order are sent as two options with the same number. -/
theorem not_carries_of_descending :
    ∃ out, Packet.serialize { Packet.fresh true with
        header := 0x40, options := [{ number := 5 }, { number := 3 }], payload := [7] }
      (some (List.replicate 8 none)) 8 false = .ok out ∧ out.ec = none ∧
      ¬ Carries out { Packet.fresh true with
        header := 0x40, options := [{ number := 5 }, { number := 3 }], payload := [7] } := by
  refine ⟨⟨none, some (front [0x40, 0, 0, 0, 0x50, 0, 0xFF, 7] []), 8⟩, by decide, rfl, ?_⟩
  rintro ⟨bytes, rest, raws, hbuf, hlen, hdecode, hperm⟩
  obtain rfl := front_inj (Option.some.inj hbuf).symm hlen
  have hraws : Rfc7252.decodeOptions [0x50, 0, 0xFF, 7] =
      some ([⟨0x50, 5, []⟩, ⟨0, 0, []⟩], [7]) := by decide
  have hdrop : ([0x40, 0, 0, 0, 0x50, 0, 0xFF, 7] : List UInt8).drop (4 +
      Packet.tokenLength { Packet.fresh true with
        header := 0x40, options := [{ number := 5 }, { number := 3 }], payload := [7] }) =
      [0x50, 0, 0xFF, 7] := by decide
  rw [hdrop, hraws] at hdecode
  cases hdecode
  exact absurd hperm (by decide)

/-! ## What is received, sent again -/

/-- The two passes of `serialize` reproduce the bytes `l`. -/
def Reencodes (p : Packet) (l : List UInt8) : Prop :=
  (∀ ptr s, p.serialize ptr s true = .ok ⟨none, ptr, l.length⟩) ∧
    p.serialize (some (List.replicate l.length none)) l.length false =
      .ok ⟨none, some (l.map some), l.length⟩

/-- A packet with a payload reproduces the bytes of its message, and no others. -/
theorem reencodes_iff_bytes {p : Packet} (h8 : p.tokenLength ≤ tokenMaxLength)
    (hpayload : p.payload ≠ []) (l : List UInt8) : Reencodes p l ↔ p.bytes = l := by
  have hfits : ¬ p.Refuses p.bytes.length := fun h ↦
    hpayload ((p.refuses_exactFit h8).mp h).1
  constructor
  · rintro ⟨hcount, hwrite⟩
    have hlen := hcount none 0
    rw [p.serialize_countOnly, if_pos h8] at hlen
    have hlen : p.bytes.length = l.length := (Serialized.mk.inj (Except.ok.inj hlen)).2.2
    rw [← hlen, p.serialize_exactFit, if_neg hfits] at hwrite
    have hbuf := Option.some.inj (Serialized.mk.inj (Except.ok.inj hwrite)).2.1
    exact List.map_injective_iff.mpr (Option.some_injective UInt8) hbuf
  · rintro rfl
    exact ⟨fun ptr s ↦ by rw [p.serialize_countOnly, if_pos h8],
      by rw [p.serialize_exactFit, if_neg hfits]⟩

/-- The bytes of a message id, read from the wire and written back. -/
theorem identityBytes_hostWord (littleEndian : Bool) (a b : UInt8) :
    identityBytes littleEndian (UInt16.ofNat (hostWord littleEndian b a)) = [a, b] := by
  have ha := a.toNat_lt
  have hb := b.toNat_lt
  have hword := hostWord_lt littleEndian b a
  have hand : ∀ n, n &&& 0xFF = n % 256 := fun n ↦ Nat.and_two_pow_sub_one_eq_mod n 8
  rw [identityBytes, UInt16.toNat_ofNat', Nat.mod_eq_of_lt hword]
  simp only [hand, Nat.shiftRight_eq_div_pow, Nat.reducePow, hostWord]
  cases littleEndian
  · simp [show (b.toNat * 256 + a.toNat) / 256 % 256 = b.toNat by omega,
      show (b.toNat * 256 + a.toNat) % 256 = a.toNat by omega]
  · simp [show (a.toNat * 256 + b.toNat) / 256 % 256 = a.toNat by omega,
      show (a.toNat * 256 + b.toNat) % 256 = b.toNat by omega]

theorem headBytes_afterOptions (p : Packet) {l : List UInt8} (h : Rfc7252.HeadOk l) :
    (p.afterOptions l).headBytes = l.take (4 + Rfc7252.tokenLengthOf l) := by
  have htoken := p.tokenBytes_afterOptions h
  obtain ⟨b₀, b₁, b₂, b₃, t, rfl⟩ := Rfc7252.exists_cons_of_four_le h.four_le
  have hid : identityBytes (p.afterOptions (b₀ :: b₁ :: b₂ :: b₃ :: t)).littleEndian
      (p.afterOptions (b₀ :: b₁ :: b₂ :: b₃ :: t)).identity = [b₂, b₃] :=
    identityBytes_hostWord p.littleEndian b₂ b₃
  rw [Packet.headBytes, hid, htoken, Nat.add_comm 4]
  rfl

/-- The values of the options that were parsed fit a length field. -/
theorem value_length_parsedOptions {littleEndian : Bool} {l : List UInt8} {n : UInt16} :
    ∀ o ∈ parsedOptions n (hostWalk littleEndian l).1, o.value.length ≤ Rfc7252.maxField := by
  have hraw : ∀ o ∈ (hostWalk littleEndian l).1, o.value.length < 65536 := by
    refine Peeler.forall_mem_all (P := Rfc7252.optionPeeler (hostOrder littleEndian))
      (Q := fun o ↦ o.value.length < 65536) (fun {_ o _} hp ↦ ?_) l
    obtain ⟨t, t', -, -, -, hlen⟩ := Rfc7252.peelOption_eq_item hp
    exact lt_of_takeField_host hlen
  generalize (hostWalk littleEndian l).1 = raws at hraw
  induction raws generalizing n with
  | nil => simp [parsedOptions]
  | cons raw raws ih =>
    intro o ho
    rcases List.mem_cons.mp ho with rfl | ho
    · have := hraw raw List.mem_cons_self
      exact Nat.le_trans (Nat.le_of_lt this) (by decide)
    · exact ih (fun m hm ↦ hraw m (List.mem_cons_of_mem _ hm)) o ho

/-- **Gaps that read back were never wrapped.**  If the format reads, behind number `n`, the gaps of
the numbers the host has summed up, then it reads the deltas the host has read, and the sums are
exact.  A sum that wraps is a number that gets smaller; its gap truncates to 0, but only the nibble
0 is read as the delta 0, and that one does not wrap. -/
theorem gap_eq_of_gaps {littleEndian : Bool} {l : List UInt8} {n : UInt16}
    (h : ((Rfc7252.optionPeeler Rfc7252.networkOrder).all l).1.map Rfc7252.RawOption.gap =
      RunningSum.gaps n.toNat
        ((parsedOptions n (hostWalk littleEndian l).1).map CoapOption.pair)) :
    ((Rfc7252.optionPeeler Rfc7252.networkOrder).all l).1.map Rfc7252.RawOption.gap =
        (hostWalk littleEndian l).1.map Rfc7252.RawOption.gap ∧
      (parsedOptions n (hostWalk littleEndian l).1).map CoapOption.pair =
        RunningSum.sums n.toNat
          ((hostWalk littleEndian l).1.map Rfc7252.RawOption.gap) := by
  induction l using (Rfc7252.optionPeeler (hostOrder littleEndian)).induct generalizing n with
  | stop l e hp =>
    rw [hostWalk_stop hp] at h ⊢
    exact ⟨h, rfl⟩
  | item l o rest hp ih =>
    rw [hostWalk_item hp] at h ⊢
    cases hp' : (Rfc7252.optionPeeler Rfc7252.networkOrder).peel l with
    | stop e =>
      rw [Peeler.all_stop hp'] at h
      cases h
    | item o' rest' =>
      rw [Peeler.all_item hp'] at h ⊢
      simp only [List.map_cons, parsedOptions, RunningSum.gaps, CoapOption.pair,
        List.cons.injEq, RunningSum.sums] at h ⊢
      obtain ⟨hgap, htail⟩ := h
      obtain ⟨hdelta', hvalue⟩ := Prod.mk.inj hgap
      have hpeel : Rfc7252.peelOption (hostOrder littleEndian) l = .item o rest := hp
      have hpeel' : Rfc7252.peelOption Rfc7252.networkOrder l = .item o' rest' := hp'
      obtain ⟨t, t₁, rfl, -, hdelta, -⟩ := Rfc7252.peelOption_eq_item hpeel
      obtain ⟨t', t₁', hl', -, hnetwork, -⟩ := Rfc7252.peelOption_eq_item hpeel'
      obtain ⟨hheader, rfl⟩ := List.cons.inj hl'
      rw [← hheader] at hnetwork
      have hlt := lt_of_takeField_host hdelta
      have hn := n.toNat_lt
      have hsum : (n + UInt16.ofNat o.delta).toNat = (n.toNat + o.delta) % 65536 := by
        rw [UInt16.toNat_add, UInt16.toNat_ofNat']
        omega
      have hexact : (n + UInt16.ofNat o.delta).toNat = n.toNat + o.delta := by
        by_contra hwrap
        have hzero : o'.delta = 0 := by omega
        have hnib := (Rfc7252.eq_of_takeField hnetwork).1
        rw [hzero, show Rfc7252.nibble 0 = 0 from rfl] at hnib
        rw [hnib, Rfc7252.takeField.eq_def, if_pos (by decide)] at hdelta
        have : o.delta = 0 := (Rfc7252.Field.value.inj hdelta).1.symm
        omega
      have hgap : o'.gap = o.gap :=
        Prod.ext (hdelta'.trans (by rw [hexact, Nat.add_sub_cancel_left]; rfl)) hvalue
      have hrest := (Rfc7252.agree_of_peelOption hpeel hpeel' hgap).2
      subst hrest
      obtain ⟨hgaps, hsums⟩ := ih htail
      refine ⟨⟨hgap, hgaps⟩, ⟨?_, ?_⟩⟩
      · rw [hexact]; rfl
      · rw [hsums, hexact]; rfl

/-- **When a message is reproduced.**  A packet that was parsed from `l`, with a payload, is written
back as `l` exactly if nothing wrapped and every two-byte extension was read as the format has
it. -/
theorem reencodes_iff {littleEndian : Bool} {l rest : List UInt8} {p : Packet}
    (h : (Packet.fresh littleEndian).parse (some (l ++ rest)) l.length = .ok (p, none))
    (hpayload : p.payload ≠ []) :
    Reencodes p l ↔ NothingWraps Rfc7252.networkOrder littleEndian l := by
  obtain ⟨hhead, payload, hend, hp⟩ := (Packet.fresh littleEndian).parse_eq_ok_none.mp h
  have hoptions : p.options =
      parsedOptions 0 (hostWalk littleEndian (Rfc7252.optionsOf l)).1 := by rw [hp]; rfl
  have hpay : p.payload = payload := by rw [hp]; rfl
  have hhost : (hostWalk littleEndian (Rfc7252.optionsOf l)).2 = .marker payload := hend
  have hhead' : p.headBytes = l.take (4 + Rfc7252.tokenLengthOf l) := by
    rw [hp]; exact headBytes_afterOptions (Packet.fresh littleEndian) hhead
  have htkl : p.tokenLength = Rfc7252.tokenLengthOf l := by
    obtain ⟨b₀, b₁, b₂, b₃, t, rfl⟩ := Rfc7252.exists_cons_of_four_le hhead.four_le
    rw [hp]; rfl
  have hbytes : p.bytes = l ↔
      optionsBytes 0 p.options ++ Rfc7252.encodePayload payload = Rfc7252.optionsOf l := by
    rw [Packet.bytes, hhead', hpay, Rfc7252.optionsOf]
    conv_lhs => rhs; rw [← List.take_append_drop (4 + Rfc7252.tokenLengthOf l) l]
    exact List.append_right_inj _
  have hvalue : ∀ o ∈ p.options, o.value.length ≤ Rfc7252.maxField := by
    rw [hoptions]; exact value_length_parsedOptions
  rw [reencodes_iff_bytes (le_of_eq_of_le htkl hhead.token_le) hpayload, hbytes]
  constructor
  · intro hreproduced
    have hdecode := decodeOptions_optionsBytes hvalue payload
    rw [hreproduced] at hdecode
    have hgap := congrArg (List.map Rfc7252.RawOption.gap) (Rfc7252.all_of_decodeOptions hdecode)
    rw [Rfc7252.map_gap_rawOf, hoptions] at hgap
    obtain ⟨hgaps, hsums⟩ := gap_eq_of_gaps (n := 0) hgap
    have hagree := Rfc7252.agree_of_all hhost hgaps
    have hmet := (Rfc7252.all_congr hagree).2
    refine ⟨fun w hw ↦ hagree w (hmet ▸ hw), fun o ho ↦ ?_⟩
    rw [hgaps, show (0 : ℕ) = (0 : UInt16).toNat from rfl, ← hsums] at ho
    obtain ⟨m, -, rfl⟩ := List.mem_map.mp ho
    exact Nat.le_of_lt_succ m.number.toNat_lt
  · rintro ⟨hagree, hle⟩
    have hwalk : hostWalk littleEndian (Rfc7252.optionsOf l) =
        (Rfc7252.optionPeeler Rfc7252.networkOrder).all (Rfc7252.optionsOf l) :=
      (Rfc7252.all_congr fun w hw ↦ (hagree w hw).symm).1
    rw [hwalk] at hhost hoptions
    have hpairs := map_pair_parsedOptions (n := 0) hle
    rw [← hoptions] at hpairs
    have hwritten := (Rfc7252.eq_of_decodeOptions
      (Rfc7252.decodeOptions_of_all hhost (hpay ▸ hpayload))).1
    rw [optionsBytes_zero hvalue, hpairs, UInt16.toNat_zero, RunningSum.gaps_sums, ← hwritten]

/-- A message with a single option is reproduced. -/
theorem reencodes_of_narrow :
    ∃ p, (Packet.fresh true).parse (some [0x40, 1, 0, 0, 0xB1, 97, 0xFF, 7]) 8 = .ok (p, none) ∧
      Reencodes p [0x40, 1, 0, 0, 0xB1, 97, 0xFF, 7] := by
  have haccept : (Packet.fresh true).parse (some ([0x40, 1, 0, 0, 0xB1, 97, 0xFF, 7] ++ []))
      ([0x40, 1, 0, 0, 0xB1, 97, 0xFF, 7] : List UInt8).length =
      .ok ({ Packet.fresh true with
        header := 0x40, code := 1, options := [⟨0xB1, 11, [97]⟩], payloadOffset := 7,
        payload := [7] }, none) := by decide
  have hmet : Rfc7252.met Rfc7252.networkOrder
      (Rfc7252.optionsOf [0x40, 1, 0, 0, 0xB1, 97, 0xFF, 7]) = [] := by decide
  refine ⟨_, haccept, (reencodes_iff haccept (by decide)).mpr ⟨fun w hw ↦ ?_, by decide⟩⟩
  rw [hmet] at hw
  cases hw

/-- An option with a delta of 270 is sent again with a delta of 525. -/
theorem not_reencodes_of_wide :
    ∃ p, (Packet.fresh true).parse (some [0x40, 1, 0, 0, 0xE0, 0, 1, 0xFF, 7]) 9 =
        .ok (p, none) ∧ p.payload ≠ [] ∧
      ¬ Reencodes p [0x40, 1, 0, 0, 0xE0, 0, 1, 0xFF, 7] := by
  refine ⟨{ Packet.fresh true with
    header := 0x40, code := 1, options := [⟨0xE0, 525, []⟩], payloadOffset := 8, payload := [7] },
    by decide, by decide, ?_⟩
  rintro ⟨-, hwrite⟩
  exact absurd hwrite (by decide)

end Coap
