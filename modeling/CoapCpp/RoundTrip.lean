import CoapCpp.Faithful
import CoapCpp.Options

/-!
# From sender to receiver

What arrives of a packet that was built with `add_option` and `make_request`.

Option numbers up to `OPTION_MAX_NUMBER` and values up to `OPTION_MAX_LENGTH` bytes never need a
two-byte extension, so it does not matter how the receiver reads one, and `hostWalk_optionsBytes`
says that the receiver walks over the options exactly as the sender wrote them.

* `parse_bytes`: such a packet is received as it was sent.  `parse_makeRequest` is this statement
  for the packets a caller can build.
* `keepsOrder_iff`: options that share a number keep the order in which they were added exactly if
  they are all the same, since `std::sort` may order them as it likes.
-/

set_option autoImplicit false

namespace Coap

open Memory

/-! ## The walk of the receiver -/

/-- The host reads the bytes of a message id as they were written. -/
theorem hostWord_identityBytes (littleEndian : Bool) (identity : UInt16) :
    ∃ a b, identityBytes littleEndian identity = [a, b] ∧
      UInt16.ofNat (hostWord littleEndian b a) = identity := by
  have hlt := identity.toNat_lt
  have hand : ∀ n, n &&& 0xFF = n % 256 := fun n ↦ Nat.and_two_pow_sub_one_eq_mod n 8
  cases littleEndian
  · refine ⟨_, _, rfl, ?_⟩
    rw [← UInt16.toNat_inj, UInt16.toNat_ofNat', hostWord, if_neg Bool.false_ne_true, hand, hand,
      Nat.shiftRight_eq_div_pow, UInt8.toNat_ofNat', UInt8.toNat_ofNat']
    omega
  · refine ⟨_, _, rfl, ?_⟩
    rw [← UInt16.toNat_inj, UInt16.toNat_ofNat', hostWord, if_pos rfl, hand, hand,
      Nat.shiftRight_eq_div_pow, UInt8.toNat_ofNat', UInt8.toNat_ofNat']
    omega

/-- **The receiver walks over the options as the sender wrote them**, whatever its byte order, as
long as no field needs two bytes. -/
theorem hostWalk_optionsBytes (littleEndian : Bool) {os : List CoapOption}
    (hnumber : ∀ o ∈ os, o.number.toNat < 269) (hvalue : ∀ o ∈ os, o.value.length < 269)
    {payload : List UInt8} (hpayload : payload ≠ []) :
    hostWalk littleEndian (optionsBytes 0 os ++ Rfc7252.encodePayload payload) =
      ((RunningSum.gaps 0 (os.map CoapOption.pair)).map Rfc7252.rawOf, .marker payload) := by
  have hmax : ∀ o ∈ os, o.value.length ≤ Rfc7252.maxField := fun o ho ↦
    (Nat.le_of_lt (hvalue o ho)).trans (by decide)
  have hpeel : ∀ g ∈ RunningSum.gaps 0 (os.map CoapOption.pair), ∀ rest,
      Rfc7252.peelOption (hostOrder littleEndian) (Rfc7252.encodeOption g ++ rest) =
        .item (Rfc7252.rawOf g) rest := by
    intro g hg rest
    have hdelta : g.1 ≤ 268 := by
      refine Rfc7252.gap_le_of_ascending (fun o ho ↦ ?_) g hg
      obtain ⟨m, hm, rfl⟩ := List.mem_map.mp ho
      exact Nat.le_of_lt_succ (hnumber m hm)
    have hlength : g.2.length < 269 := by
      obtain ⟨o, ho, hv⟩ := Rfc7252.value_of_mem_gaps hg
      obtain ⟨m, hm, rfl⟩ := List.mem_map.mp ho
      exact hv ▸ hvalue m hm
    exact Rfc7252.peelOption_encodeOption_of
      (Rfc7252.takeField_extension_of_lt _ (Nat.lt_succ_of_le hdelta))
      (Rfc7252.takeField_extension_of_lt _ hlength) rest
  rw [optionsBytes_zero hmax, hostWalk, Rfc7252.all_encodeOption hpeel, Rfc7252.all_encodePayload,
    if_neg hpayload, List.append_nil]

theorem map_pair_parsedOptions_gaps {os : List CoapOption}
    (h : RunningSum.Ascending 0 (os.map CoapOption.pair)) :
    (parsedOptions 0 ((RunningSum.gaps 0 (os.map CoapOption.pair)).map Rfc7252.rawOf)).map
      CoapOption.pair = os.map CoapOption.pair := by
  have hsums : RunningSum.sums (0 : UInt16).toNat
      (((RunningSum.gaps 0 (os.map CoapOption.pair)).map Rfc7252.rawOf).map
        Rfc7252.RawOption.gap) = os.map CoapOption.pair := by
    rw [Rfc7252.map_gap_rawOf]
    exact RunningSum.sums_gaps h
  rw [map_pair_parsedOptions, hsums]
  rw [hsums]
  intro o ho
  obtain ⟨m, -, rfl⟩ := List.mem_map.mp ho
  exact Nat.le_of_lt_succ m.number.toNat_lt

/-! ## The round trip -/

/-- A packet that is received as it is sent. -/
structure Sendable (p : Packet) : Prop where
  /-- The version is the one that is accepted. -/
  version : p.version = 1
  /-- The token fits. -/
  token_le : p.tokenLength ≤ 8
  /-- The option numbers ascend. -/
  ascending : RunningSum.Ascending 0 (p.options.map CoapOption.pair)
  /-- No delta needs a two-byte extension. -/
  number_lt : ∀ o ∈ p.options, o.number.toNat < 269
  /-- No length needs a two-byte extension. -/
  value_lt : ∀ o ∈ p.options, o.value.length < 269
  /-- There is a payload. -/
  payload_ne : p.payload ≠ []

/-- `p` holds the message that `q` was sent as. -/
structure Received (p q : Packet) : Prop where
  version : p.version = q.version
  type : p.type = q.type
  code : p.code = q.code
  identity : p.identity = q.identity
  tokenLength : p.tokenLength = q.tokenLength
  tokenBytes : p.tokenBytes = q.tokenBytes
  options : p.options.map CoapOption.pair = q.options.map CoapOption.pair
  payload : p.payload = q.payload

/-- **What is sent is received.** -/
theorem parse_bytes {q : Packet} (h : Sendable q) (rest : List UInt8) :
    ∃ p, (Packet.fresh q.littleEndian).parse (some (q.bytes ++ rest)) q.bytes.length =
        .ok (p, none) ∧ Received p q := by
  obtain ⟨a, b, hid, hword⟩ := hostWord_identityBytes q.littleEndian q.identity
  have htoken := q.tokenBytes_length h.token_le
  have hbytes : q.bytes = q.header :: q.code :: a :: b ::
      (q.tokenBytes ++ (optionsBytes 0 q.options ++ Rfc7252.encodePayload q.payload)) := by
    rw [Packet.bytes, Packet.headBytes, hid]
    simp
  have hhead : Rfc7252.HeadOk q.bytes := by
    rw [hbytes, Rfc7252.headOk_cons]
    refine ⟨h.version, h.token_le, ?_⟩
    rw [List.length_append, htoken]
    exact Nat.le_add_right _ _
  have hoptions : Rfc7252.optionsOf q.bytes =
      optionsBytes 0 q.options ++ Rfc7252.encodePayload q.payload := by
    rw [hbytes, Rfc7252.optionsOf_cons]
    exact List.drop_left' htoken
  have hwalk := hostWalk_optionsBytes q.littleEndian h.number_lt h.value_lt h.payload_ne
  rw [← hoptions] at hwalk
  refine ⟨_, (Packet.fresh q.littleEndian).parse_eq_ok_none.mpr
    ⟨hhead, q.payload, congrArg Prod.snd hwalk, rfl⟩, ?_⟩
  have hheader : q.bytes.getD 0 0 = q.header := by rw [hbytes]; rfl
  have htkl : Rfc7252.tokenLengthOf q.bytes = q.tokenLength := by rw [hbytes]; rfl
  refine ⟨?_, ?_, ?_, ?_, ?_, ?_, ?_, rfl⟩
  · exact congrArg (fun b : UInt8 ↦ b.toNat / 64) hheader
  · exact congrArg (fun b : UInt8 ↦ b.toNat / 16 % 4) hheader
  · show q.bytes.getD 1 0 = q.code
    rw [hbytes]; rfl
  · show UInt16.ofNat (hostWord q.littleEndian (q.bytes.getD 3 0) (q.bytes.getD 2 0)) = q.identity
    rw [hbytes]
    exact hword
  · exact congrArg (fun b : UInt8 ↦ b.toNat % 16) hheader
  · refine ((Packet.fresh q.littleEndian).tokenBytes_afterOptions hhead).trans ?_
    rw [htkl, hbytes]
    exact List.take_left' htoken
  · show (parsedOptions 0 (hostWalk q.littleEndian (Rfc7252.optionsOf q.bytes)).1).map
      CoapOption.pair = _
    rw [hwalk]
    exact map_pair_parsedOptions_gaps h.ascending

theorem makeRequest_eq_ok {rand : ℕ → ℕ} {q p : Packet} {type : MessageType} {code : UInt8}
    {id : UInt16} {payload : Option (List UInt8)} {payloadSize tokenLength : ℕ}
    (h : q.makeRequest rand type code id payload payloadSize tokenLength = .ok (p, none)) :
    p.version = 1 ∧ p.tokenLength ≤ 8 ∧ p.options = q.options ∧ p.payload.length = payloadSize := by
  rw [Packet.makeRequest] at h
  obtain ⟨_, -, h⟩ := bind_eq_ok.mp h
  obtain ⟨_, htoken, h⟩ := bind_eq_ok.mp h
  have htoken : tokenLength ≤ tokenMaxLength := of_decide_eq_true (assert_eq_ok.mp htoken)
  split at h
  · cases h
  simp only [Packet.generateToken, gt_iff_lt, if_neg (Nat.not_lt.mpr htoken)] at h
  obtain ⟨data, hdata, h⟩ := bind_eq_ok.mp h
  cases h
  refine ⟨?_, ?_, rfl, length_of_copyFrom hdata⟩
  · show Packet.version (Packet.setTokenLength _ tokenLength) = 1
    rw [Packet.version_setTokenLength]
    show Packet.version (Packet.setType _ type.value) = 1
    rw [Packet.version_setType, Packet.version_setVersion]
    rfl
  · show Packet.tokenLength (Packet.setTokenLength _ tokenLength) ≤ 8
    rw [Packet.tokenLength_setTokenLength]
    exact (Nat.mod_le _ _).trans htoken

theorem lt_of_mem_addedOptions {calls : List OptionCall} (h : ∀ c ∈ calls, c.Valid)
    {o : CoapOption} (ho : o ∈ addedOptions calls) :
    o.number.toNat < 269 ∧ o.value.length < 269 := by
  obtain ⟨c, hc, ho⟩ := List.mem_flatMap.mp ho
  have hvalid := h c hc
  cases c with
  | find number rOptions => cases ho
  | add number value length =>
    obtain ⟨hnumber, hlength, -⟩ := hvalid
    obtain rfl := List.mem_singleton.mp ho
    constructor
    · exact (Nat.mod_le _ _).trans_lt (hnumber.trans_lt (by decide))
    · exact (List.length_take_le _ _).trans_lt (hlength.trans_lt (by decide))

theorem ascending_of_keysAscend {os : List CoapOption} (h : KeysAscend optionKey os) :
    RunningSum.Ascending 0 (os.map CoapOption.pair) := by
  refine List.pairwise_cons.mpr ⟨fun _ _ ↦ Nat.zero_le _, ?_⟩
  rw [List.map_map]
  exact List.pairwise_map.mpr h

/-- **The round trip.**  Whatever options were added to a packet, if `make_request` then succeeds
with a payload, both passes of `serialize` succeed, and their bytes are parsed to the same
message. -/
theorem parse_makeRequest {rand : ℕ → ℕ} {q p₀ p : Packet} (hempty : q.options = [])
    {calls : List (StdSort × OptionCall)} (hcalls : ∀ c ∈ calls, c.2.Valid)
    (hrun : runCalls q calls = .ok p₀) {type : MessageType} {code : UInt8} {id : UInt16}
    {payload : Option (List UInt8)} {payloadSize tokenLength : ℕ} (hsize : payloadSize ≠ 0)
    (hrequest : p₀.makeRequest rand type code id payload payloadSize tokenLength =
      .ok (p, none)) :
    ∃ bytes, Reencodes p bytes ∧ ∀ rest, ∃ p',
      (Packet.fresh p.littleEndian).parse (some (bytes ++ rest)) bytes.length = .ok (p', none) ∧
        Received p' p := by
  obtain ⟨p₁, hrun', hholds⟩ := runCalls_spec (holds_self hempty) hcalls
  obtain rfl : p₀ = p₁ := Except.ok.inj (hrun.symm.trans hrun')
  obtain ⟨hversion, htoken, hoptions, hlength⟩ := makeRequest_eq_ok hrequest
  have hsmall : ∀ o ∈ p.options, o.number.toNat < 269 ∧ o.value.length < 269 := by
    intro o ho
    rw [hoptions, hholds.perm.mem_iff, List.nil_append] at ho
    refine lt_of_mem_addedOptions (fun c hc ↦ ?_) ho
    obtain ⟨call, hcall, rfl⟩ := List.mem_map.mp hc
    exact hcalls call hcall
  have hsend : Sendable p := by
    refine ⟨hversion, htoken, ?_, fun o ho ↦ (hsmall o ho).1, fun o ho ↦ (hsmall o ho).2, ?_⟩
    · rw [hoptions]
      exact ascending_of_keysAscend hholds.ascend
    · rintro hnil
      rw [hnil] at hlength
      exact hsize hlength.symm
  exact ⟨p.bytes, (reencodes_iff_bytes htoken hsend.payload_ne _).mpr rfl, parse_bytes hsend⟩

/-- A request with a path and a payload of one byte. -/
theorem parse_makeRequest_path :
    ∃ p bytes, Reencodes p bytes ∧ ∃ p',
      (Packet.fresh true).parse (some (bytes ++ [])) bytes.length = .ok (p', none) ∧
        Received p' p := by
  have hvalid : ∀ c ∈ ([(.stable _, .add 11 [97] 1)] : List (StdSort × OptionCall)),
      c.2.Valid := by simp [OptionCall.Valid]
  obtain ⟨p₀, hrun, hholds⟩ := runCalls_spec (holds_self (q := Packet.fresh true) rfl) hvalid
  obtain ⟨p, hrequest⟩ : ∃ p, p₀.makeRequest (fun i ↦ i) .confirmable 1 258 (some [7]) 1 2 =
      .ok (p, none) := ⟨_, rfl⟩
  obtain ⟨bytes, hreencodes, hparse⟩ := parse_makeRequest rfl hvalid hrun one_ne_zero hrequest
  have hle : p.littleEndian = true := by
    cases hrequest
    rw [hholds.frame]
    rfl
  rw [hle] at hparse
  exact ⟨p, bytes, hreencodes, hparse []⟩

/-! ## The order of repeated options -/

/-- The bytes that were written decode to the payload of the packet and to the options `os`. -/
def Transmits (out : Serialized) (p : Packet) (os : List (ℕ × List UInt8)) : Prop :=
  ∃ bytes rest raws, out.buffer = some (front bytes rest) ∧ bytes.length = out.size ∧
    Rfc7252.decodeOptions (bytes.drop (4 + p.tokenLength)) = some (raws, p.payload) ∧
    RunningSum.sums 0 (raws.map Rfc7252.RawOption.gap) = os

/-- A packet whose option numbers ascend is sent with its options in their order. -/
theorem transmits_of_serialize {p : Packet} {buf : Cells UInt8} {out : Serialized}
    (h : p.serialize (some buf) buf.length false = .ok out)
    (hascend : KeysAscend optionKey p.options)
    (hvalue : ∀ o ∈ p.options, o.value.length ≤ Rfc7252.maxField) :
    Transmits out p (p.options.map CoapOption.pair) := by
  obtain ⟨rfl, hdrop⟩ := eq_of_serialize h
  refine ⟨p.bytes, _, _, rfl, rfl, by rw [hdrop, decodeOptions_optionsBytes hvalue], ?_⟩
  rw [Rfc7252.map_gap_rawOf, RunningSum.sums_gaps (ascending_of_keysAscend hascend)]

/-- The options of `p` with the number `number` are in the order of `added`: where they are stored,
in what a search returns, and in what is sent of a packet with these options. -/
structure InOrder (added : List CoapOption) (number : UInt16) (p : Packet) : Prop where
  stored : (p.options.filter fun o ↦ o.number = number) =
    added.filter fun o ↦ o.number = number
  found : ∀ (S : StdSort) (r : List ℕ),
    (p.findOption S number r).2.2.map (fun i ↦ (p.findOption S number r).1.options[i]?) =
      (added.filter fun o ↦ o.number = number).map some
  sent : ∀ (q : Packet) (buf : Cells UInt8) (out : Serialized), q.options = p.options →
    q.serialize (some buf) buf.length false = .ok out →
      ∃ os, Transmits out q os ∧ (os.filter fun o ↦ o.1 = number.toNat) =
        (added.filter fun o ↦ o.number = number).map CoapOption.pair

/-- However `std::sort` orders equal numbers, at every call: the options of each number keep the
order in which they were added. -/
def KeepsOrder (littleEndian : Bool) (calls : List OptionCall) : Prop :=
  ∀ (run : List (StdSort × OptionCall)) (p : Packet), run.map Prod.snd = calls →
    runCalls (Packet.fresh littleEndian) run = .ok p →
      ∀ number, InOrder (addedOptions calls) number p

theorem filter_number_eq (number : UInt16) (os : List CoapOption) :
    (os.filter fun o ↦ o.number = number) = os.filter fun o ↦ optionKey o = number.toNat := by
  refine List.filter_congr fun o _ ↦ ?_
  rw [decide_eq_decide]
  exact UInt16.toNat_inj.symm

theorem eq_of_mem_addedOptions {calls : List OptionCall} {a b : CoapOption}
    (ha : a ∈ addedOptions calls) (hb : b ∈ addedOptions calls) (hnumber : a.number = b.number)
    (hvalue : a.value = b.value) : a = b := by
  have hheader : ∀ o ∈ addedOptions calls, o.header = 0 := by
    intro o ho
    obtain ⟨c, -, ho⟩ := List.mem_flatMap.mp ho
    cases c with
    | find number rOptions => cases ho
    | add number value length => obtain rfl := List.mem_singleton.mp ho; rfl
  cases a
  cases b
  obtain rfl : _ = _ := (hheader _ ha).trans (hheader _ hb).symm
  obtain rfl : _ = _ := hnumber
  obtain rfl : _ = _ := hvalue
  rfl

theorem keepsOrder_of_same {littleEndian : Bool} {calls : List OptionCall}
    (hcalls : ∀ c ∈ calls, c.Valid)
    (hsame : ∀ a ∈ addedOptions calls, ∀ b ∈ addedOptions calls, a.number = b.number →
      a.value = b.value) : KeepsOrder littleEndian calls := by
  rintro run p rfl hrun number
  have hvalid : ∀ c ∈ run, c.2.Valid := fun c hc ↦ hcalls c.2 (List.mem_map_of_mem hc)
  obtain ⟨p', hrun', hholds⟩ :=
    runCalls_spec (holds_self (q := Packet.fresh littleEndian) rfl) hvalid
  obtain rfl : p = p' := Except.ok.inj (hrun.symm.trans hrun')
  have hperm := hholds.perm
  rw [List.nil_append] at hperm
  have hfilter : ∀ os : List CoapOption, os.Perm (addedOptions (run.map Prod.snd)) →
      (os.filter fun o ↦ o.number = number) =
        (addedOptions (run.map Prod.snd)).filter fun o ↦ o.number = number := by
    intro os hos
    rw [filter_number_eq, filter_number_eq]
    refine filter_eq_of_perm (fun a ha b hb hkey ↦ ?_) hos _
    have hnumber : a.number = b.number := UInt16.toNat_inj.mp hkey
    exact eq_of_mem_addedOptions ha hb hnumber (hsame a ha b hb hnumber)
  refine ⟨hfilter _ hperm, fun S r ↦ ?_, fun q buf out hq hout ↦ ?_⟩
  · rw [map_findOption, hfilter _ ((S.perm _).trans hperm)]
  · have hvalue : ∀ o ∈ q.options, o.value.length ≤ Rfc7252.maxField := by
      intro o ho
      rw [hq, hperm.mem_iff] at ho
      exact (Nat.le_of_lt (lt_of_mem_addedOptions hcalls ho).2).trans (by decide)
    refine ⟨_, transmits_of_serialize hout (hq ▸ hholds.ascend) hvalue, ?_⟩
    rw [hq, ← hfilter _ hperm, List.filter_map]
    congr 1
    refine List.filter_congr fun o _ ↦ ?_
    rw [Function.comp_apply, decide_eq_decide]
    exact UInt16.toNat_inj

/-- Options of one number with different values can be found in another order. -/
theorem not_keepsOrder_of_ne {littleEndian : Bool} {calls : List OptionCall}
    (hcalls : ∀ c ∈ calls, c.Valid) {a b : CoapOption} (ha : a ∈ addedOptions calls)
    (hb : b ∈ addedOptions calls) (hnumber : a.number = b.number) (hvalue : a.value ≠ b.value) :
    ¬ KeepsOrder littleEndian calls := by
  intro hkeeps
  have hrun : (calls.map fun c ↦ ((KeySort.stable optionKey : StdSort), c)).map Prod.snd =
      calls := by
    rw [List.map_map]
    exact List.map_id _
  have hvalid : ∀ c ∈ calls.map fun c ↦ ((KeySort.stable optionKey : StdSort), c),
      c.2.Valid := by
    intro c hc
    obtain ⟨call, hcall, rfl⟩ := List.mem_map.mp hc
    exact hcalls call hcall
  obtain ⟨p, hp, hholds⟩ := runCalls_spec (holds_self (q := Packet.fresh littleEndian) rfl) hvalid
  have hperm := hholds.perm
  rw [hrun, List.nil_append] at hperm
  obtain ⟨target, hascend, htarget, hne⟩ := exists_filter_ne ha hb
    (show optionKey a = optionKey b from congrArg UInt16.toNat hnumber)
    fun h ↦ hvalue (congrArg CoapOption.value h)
  have hfound := (hkeeps _ p hrun hp a.number).found (KeySort.toward optionKey hascend) []
  rw [map_findOption, KeySort.toward_sort hascend (hperm.trans htarget), filter_number_eq,
    filter_number_eq] at hfound
  exact hne (List.map_injective_iff.mpr (Option.some_injective _) hfound)

/-- **When repeated options keep their order.**  They do, wherever the options can be seen, exactly
if options with the same number have the same value: `std::sort` compares the number only. -/
theorem keepsOrder_iff (littleEndian : Bool) {calls : List OptionCall}
    (hcalls : ∀ c ∈ calls, c.Valid) :
    KeepsOrder littleEndian calls ↔ ∀ a ∈ addedOptions calls, ∀ b ∈ addedOptions calls,
      a.number = b.number → a.value = b.value := by
  constructor
  · intro hkeeps a ha b hb hnumber
    by_contra hvalue
    exact not_keepsOrder_of_ne hcalls ha hb hnumber hvalue hkeeps
  · exact keepsOrder_of_same hcalls

/-- The segments of the path `/a/a` are equal, and there is a port between them. -/
theorem keepsOrder_of_segment :
    KeepsOrder true [.add 11 [97] 1, .add 7 [22, 51] 2, .add 11 [97] 1] := by
  refine (keepsOrder_iff true (by simp [OptionCall.Valid])).mpr ?_
  simp [addedOptions, OptionCall.added, addedOption]

/-- The segments of the path `/a/b` can arrive as `/b/a`. -/
theorem not_keepsOrder_of_path : ¬ KeepsOrder true [.add 11 [97] 1, .add 11 [98] 1] := by
  have ha : addedOption 11 [97] ∈ addedOptions [.add 11 [97] 1, .add 11 [98] 1] :=
    List.mem_cons_self
  have hb : addedOption 11 [98] ∈ addedOptions [.add 11 [97] 1, .add 11 [98] 1] :=
    List.mem_cons_of_mem _ List.mem_cons_self
  exact not_keepsOrder_of_ne (by simp [OptionCall.Valid]) ha hb rfl (by decide)

end Coap
