import CoapCpp.Parse

/-!
# What `parse` accepts

The format of RFC 7252 on one side, `parse` on the other.

* `parsesAsFormat_iff` compares the two.  They agree where the host reads the two-byte extensions as
  the format has them and the options end well: not with the last option (`parse` runs on to a
  failed assert), not at a marker with nothing behind it, and with no number above 65535.  Where
  the host misreads an extension, the two walks part, and nothing is said.
* `exactArithmetic_iff` is about the 16-bit arithmetic alone: what is stored is the exact sum of
  the deltas as long as nothing exceeds 65535, and a datagram without a right header never gets
  that far.
* `parse_same_iff` compares two packets that parse the same datagram.  Everything they hold
  afterwards is the same, except for a payload they held before.

All three are statements about two walks over the same bytes, and use `Rfc7252.all_congr` for one
direction and `Rfc7252.agree_of_all` for the other.
-/

set_option autoImplicit false

namespace Coap

open Memory

/-! ## The two readings -/

/-- The host reads a two-byte extension as the format has it if nothing wraps, and if the order of
the bytes does not matter. -/
theorem hostOrder_eq_networkOrder_iff {littleEndian : Bool} {a b : UInt8} :
    hostOrder littleEndian a b = Rfc7252.networkOrder a b ↔
      Rfc7252.networkOrder a b ≤ 65535 ∧ (littleEndian = true → a = b) := by
  have ha := a.toNat_lt
  have hb := b.toNat_lt
  rw [hostOrder, hostWord, Rfc7252.networkOrder, ← UInt8.toNat_inj]
  cases littleEndian <;> simp <;> omega

/-- The numbers and values of the options a walk stores, as sums in 16 bits. -/
theorem map_pair_parsedOptions {raws : List Rfc7252.RawOption} {n : UInt16}
    (h : ∀ o ∈ RunningSum.sums n.toNat (raws.map Rfc7252.RawOption.gap), o.1 ≤ 65535) :
    (parsedOptions n raws).map CoapOption.pair =
      RunningSum.sums n.toNat (raws.map Rfc7252.RawOption.gap) := by
  induction raws generalizing n with
  | nil => rfl
  | cons o raws ih =>
    simp only [List.map_cons, Rfc7252.RawOption.gap, RunningSum.sums] at h ⊢
    have hle : n.toNat + o.delta ≤ 65535 := h _ List.mem_cons_self
    have hsum : (n + UInt16.ofNat o.delta).toNat = n.toNat + o.delta := by
      rw [UInt16.toNat_add, UInt16.toNat_ofNat']
      omega
    have htail := ih (n := n + UInt16.ofNat o.delta)
      (by rw [hsum]; exact fun m hm ↦ h m (List.mem_cons_of_mem _ hm))
    rw [parsedOptions, List.map_cons, htail, hsum, CoapOption.pair, hsum]

/-! ## The format -/

/-- `parse` accepts the bytes if they are a message, and otherwise returns with an error.  Behind
the datagram there are the bytes `rest`. -/
def ParsesAsFormat (littleEndian : Bool) (l rest : List UInt8) : Prop :=
  (Rfc7252.IsMessage l →
    ∃ p, (Packet.fresh littleEndian).parse (some (l ++ rest)) l.length = .ok (p, none)) ∧
  (¬ Rfc7252.IsMessage l →
    ∃ p e, (Packet.fresh littleEndian).parse (some (l ++ rest)) l.length = .ok (p, some e))

/-- How the options of a message may end for `parse` to agree with the format: with a malformed
option, or with a marker, a payload, and no number above 65535. -/
def EndsWell (rest : List UInt8) (walk : List Rfc7252.RawOption × Rfc7252.Ending) : Prop :=
  (∃ why, walk.2 = .malformed why ∧ ¬ (rest = [] ∧ overreads why)) ∨
    ∃ payload, walk.2 = .marker payload ∧ payload ≠ [] ∧
      ∀ o ∈ RunningSum.sums 0 (walk.1.map Rfc7252.RawOption.gap), o.1 ≤ Rfc7252.maxNumber

/-- A datagram with a right header is parsed as the format has it exactly if the walk of the host
ends at a marker for a message, and at a malformed option for everything else. -/
theorem parsesAsFormat_of_headOk {littleEndian : Bool} {l rest : List UInt8}
    (h : Rfc7252.HeadOk l) :
    ParsesAsFormat littleEndian l rest ↔
      (Rfc7252.IsMessage l ∧
          ∃ payload, (hostWalk littleEndian (Rfc7252.optionsOf l)).2 = .marker payload) ∨
        (¬ Rfc7252.IsMessage l ∧
          ∃ why, (hostWalk littleEndian (Rfc7252.optionsOf l)).2 = .malformed why ∧
            ¬ (rest = [] ∧ overreads why)) := by
  rw [ParsesAsFormat, (Packet.fresh littleEndian).parse_of_headOk h,
    show (Packet.fresh littleEndian).littleEndian = littleEndian from rfl]
  by_cases hmsg : Rfc7252.IsMessage l
  · cases (hostWalk littleEndian (Rfc7252.optionsOf l)).2 with
    | finished => simp [hmsg, Packet.parseEnding]
    | marker payload => simp [hmsg, Packet.parseEnding]
    | malformed why =>
      simp only [hmsg, Packet.parseEnding]
      split <;> simp
  · cases (hostWalk littleEndian (Rfc7252.optionsOf l)).2 with
    | finished => simp [hmsg, Packet.parseEnding]
    | marker payload => simp [hmsg, Packet.parseEnding]
    | malformed why =>
      simp only [hmsg, Packet.parseEnding]
      split <;> simp_all

/-- Where both walks agree, the end of the options decides. -/
theorem parsesAsFormat_of_walk {littleEndian : Bool} {l rest : List UInt8}
    (h : Rfc7252.HeadOk l)
    (hwalk : hostWalk littleEndian (Rfc7252.optionsOf l) =
      (Rfc7252.optionPeeler Rfc7252.networkOrder).all (Rfc7252.optionsOf l)) :
    ParsesAsFormat littleEndian l rest ↔
      EndsWell rest
        ((Rfc7252.optionPeeler Rfc7252.networkOrder).all (Rfc7252.optionsOf l)) := by
  rw [parsesAsFormat_of_headOk h, hwalk, Rfc7252.isMessage_iff_parts, Rfc7252.decodeOptions,
    EndsWell]
  rcases (Rfc7252.optionPeeler Rfc7252.networkOrder).all (Rfc7252.optionsOf l) with ⟨raws, e⟩
  cases e with
  | finished => simp
  | malformed why => simp
  | marker payload =>
    by_cases hp : payload = []
    · simp [hp]
    · simp [hp, h]

/-- The host reads every two-byte extension of the options as the format has it: its value fits
16 bits, and on a little-endian host its bytes are equal. -/
def ExtensionsAlike (littleEndian : Bool) (l : List UInt8) : Prop :=
  ∀ w ∈ Rfc7252.met Rfc7252.networkOrder (Rfc7252.optionsOf l),
    Rfc7252.networkOrder w.1 w.2 ≤ 65535 ∧ (littleEndian = true → w.1 = w.2)

/-- With such extensions the host takes the walk of the format. -/
theorem hostWalk_of_extensionsAlike {littleEndian : Bool} {l : List UInt8}
    (h : ExtensionsAlike littleEndian l) :
    hostWalk littleEndian (Rfc7252.optionsOf l) =
      (Rfc7252.optionPeeler Rfc7252.networkOrder).all (Rfc7252.optionsOf l) :=
  (Rfc7252.all_congr fun w hw ↦ hostOrder_eq_networkOrder_iff.mpr (h w hw)).1

theorem not_parsesAsFormat_of_length_lt {littleEndian : Bool} {l rest : List UInt8}
    (h : l.length < 4) : ¬ ParsesAsFormat littleEndian l rest := by
  rintro ⟨-, hreject⟩
  obtain ⟨p, e, hp⟩ := hreject fun hmsg ↦
    absurd (Rfc7252.isMessage_iff_parts.mp hmsg).1.four_le (by omega)
  rw [Packet.parse_of_size_lt _ _ h] at hp
  cases hp

theorem parsesAsFormat_of_not_headOk {littleEndian : Bool} {l : List UInt8} (h4 : 4 ≤ l.length)
    (h : ¬ Rfc7252.HeadOk l) (rest : List UInt8) : ParsesAsFormat littleEndian l rest :=
  ⟨fun hmsg ↦ absurd (Rfc7252.isMessage_iff_parts.mp hmsg).1 h,
    fun _ ↦ Packet.parse_of_not_headOk _ h4 h rest⟩

theorem hostWalk_delta_lt (littleEndian : Bool) (l : List UInt8) :
    ∀ o ∈ (hostWalk littleEndian l).1, o.delta < 65536 := by
  refine Peeler.forall_mem_all (P := Rfc7252.optionPeeler (hostOrder littleEndian))
    (Q := fun o ↦ o.delta < 65536) (fun {_ o _} hp ↦ ?_) l
  obtain ⟨t, t', -, -, hdelta, -⟩ := Rfc7252.peelOption_eq_item hp
  exact lt_of_takeField_host hdelta

/-- Sums in 16 bits that come out exact were made of these very deltas. -/
theorem gap_eq_of_parsedOptions {raws raws' : List Rfc7252.RawOption} {n : UInt16}
    (hlt : ∀ o ∈ raws, o.delta < 65536)
    (h : (parsedOptions n raws).map CoapOption.pair =
      RunningSum.sums n.toNat (raws'.map Rfc7252.RawOption.gap)) :
    raws.map Rfc7252.RawOption.gap = raws'.map Rfc7252.RawOption.gap := by
  induction raws generalizing n raws' with
  | nil =>
    cases raws' with
    | nil => rfl
    | cons o' raws' => cases h
  | cons o raws ih =>
    cases raws' with
    | nil => cases h
    | cons o' raws' =>
      simp only [parsedOptions, List.map_cons, RunningSum.sums, CoapOption.pair,
        Rfc7252.RawOption.gap, List.cons.injEq, Prod.mk.injEq] at h ⊢
      obtain ⟨⟨hnumber, hvalue⟩, htail⟩ := h
      have hd := hlt o List.mem_cons_self
      have hn := n.toNat_lt
      have hsum := hnumber
      rw [UInt16.toNat_add, UInt16.toNat_ofNat'] at hsum
      refine ⟨⟨by omega, hvalue⟩, ?_⟩
      rw [← hnumber] at htail
      exact ih (fun m hm ↦ hlt m (List.mem_cons_of_mem _ hm)) htail

/-- The options of `p` are the options of the datagram `l`: every number is the sum of the deltas
up to it, every value has the length its option declares, and the numbers ascend.  Two-byte
extensions are read by `two`, and nothing is reduced. -/
def StoredExactly (two : UInt8 → UInt8 → ℕ) (l : List UInt8) (p : Packet) : Prop :=
  p.options.map CoapOption.pair = RunningSum.sums 0
      (((Rfc7252.optionPeeler two).all (Rfc7252.optionsOf l)).1.map Rfc7252.RawOption.gap) ∧
    RunningSum.Ascending 0 (p.options.map CoapOption.pair)

/-- An option number above 65535, or a value that is longer than what is left. -/
def Exceeds (two : UInt8 → UInt8 → ℕ) (l : List UInt8) : Prop :=
  (∃ o ∈ RunningSum.sums 0
      (((Rfc7252.optionPeeler two).all (Rfc7252.optionsOf l)).1.map Rfc7252.RawOption.gap),
    65535 < o.1) ∨
  ((Rfc7252.optionPeeler two).all (Rfc7252.optionsOf l)).2 = .malformed .shortValue

/-- What is accepted is stored exactly, and what exceeds a limit is rejected. -/
def ExactArithmetic (two : UInt8 → UInt8 → ℕ) (p : Packet) (l rest : List UInt8) : Prop :=
  (∀ p', p.parse (some (l ++ rest)) l.length = .ok (p', none) → StoredExactly two l p') ∧
    (Exceeds two l → ∃ q e, p.parse (some (l ++ rest)) l.length = .ok (q, some e))

/-- Nothing wraps: the host reads every two-byte extension as `two` does, and no number exceeds
65535. -/
def NothingWraps (two : UInt8 → UInt8 → ℕ) (littleEndian : Bool) (l : List UInt8) : Prop :=
  (∀ w ∈ Rfc7252.met two (Rfc7252.optionsOf l), two w.1 w.2 = hostOrder littleEndian w.1 w.2) ∧
    ∀ o ∈ RunningSum.sums 0
      (((Rfc7252.optionPeeler two).all (Rfc7252.optionsOf l)).1.map Rfc7252.RawOption.gap),
      o.1 ≤ 65535

theorem optionsOf_of_length_lt {l : List UInt8} (h : l.length < 4) : Rfc7252.optionsOf l = [] := by
  rw [Rfc7252.optionsOf, List.drop_eq_nil_iff]
  omega

/-- Behind a right header the host takes the walk of `two` if nothing wraps. -/
theorem exactArithmetic_of_nothingWraps {two : UInt8 → UInt8 → ℕ} {p : Packet}
    {l : List UInt8} (hhead : Rfc7252.HeadOk l) (h : NothingWraps two p.littleEndian l)
    (rest : List UInt8) : ExactArithmetic two p l rest := by
  obtain ⟨hagree, hle⟩ := h
  have hwalk : hostWalk p.littleEndian (Rfc7252.optionsOf l) =
      (Rfc7252.optionPeeler two).all (Rfc7252.optionsOf l) :=
    (Rfc7252.all_congr fun w hw ↦ (hagree w hw).symm).1
  refine ⟨fun p' haccept ↦ ?_, ?_⟩
  · obtain ⟨-, payload, -, rfl⟩ := p.parse_eq_ok_none.mp haccept
    have hpairs : (p.afterOptions l).options.map CoapOption.pair = RunningSum.sums 0
        (((Rfc7252.optionPeeler two).all (Rfc7252.optionsOf l)).1.map Rfc7252.RawOption.gap) := by
      rw [Packet.afterOptions, hwalk]
      exact map_pair_parsedOptions (n := 0) hle
    refine ⟨hpairs, ?_⟩
    change RunningSum.Ascending 0 ((p.afterOptions l).options.map CoapOption.pair)
    rw [hpairs]
    exact RunningSum.ascending_sums 0 _
  · rintro (⟨o, ho, hgt⟩ | hshort)
    · exact absurd (hle o ho) (by omega)
    · rw [p.parse_of_headOk hhead, hwalk, hshort]
      exact ⟨_, _, if_neg (by simp [overreads])⟩

theorem four_le_of_exceeds {two : UInt8 → UInt8 → ℕ} {l : List UInt8} (h : Exceeds two l) :
    4 ≤ l.length := by
  by_contra hlt
  rw [Exceeds, optionsOf_of_length_lt (by omega)] at h
  obtain ⟨o, ho, -⟩ | hshort := h
  · cases ho
  · cases hshort

/-- Without a right header nothing is added up, and nothing is accepted. -/
theorem exactArithmetic_of_not_headOk {two : UInt8 → UInt8 → ℕ} {p : Packet} {l : List UInt8}
    (h : ¬ Rfc7252.HeadOk l) (rest : List UInt8) : ExactArithmetic two p l rest :=
  ⟨fun _ haccept ↦ absurd (p.parse_eq_ok_none.mp haccept).1 h,
    fun hexceeds ↦ p.parse_of_not_headOk (four_le_of_exceeds hexceeds) h rest⟩

/-- Two packets hold the same message. -/
structure SameMessage (p q : Packet) : Prop where
  version : p.version = q.version
  type : p.type = q.type
  code : p.code = q.code
  identity : p.identity = q.identity
  tokenLength : p.tokenLength = q.tokenLength
  tokenBytes : p.tokenBytes = q.tokenBytes
  options : p.options = q.options
  payloadOffset : p.payloadOffset = q.payloadOffset
  payload : p.payload = q.payload

theorem Packet.tokenBytes_afterOptions (p : Packet) {l : List UInt8} (h : Rfc7252.HeadOk l) :
    (p.afterOptions l).tokenBytes = (l.drop 4).take (Rfc7252.tokenLengthOf l) := by
  have hlen : ((l.drop 4).take (Rfc7252.tokenLengthOf l)).length = Rfc7252.tokenLengthOf l := by
    have := h.token_complete
    rw [List.length_take, List.length_drop]
    omega
  have htkl : (p.afterOptions l).tokenLength = Rfc7252.tokenLengthOf l := by
    obtain ⟨b₀, b₁, b₂, b₃, t, rfl⟩ := Rfc7252.exists_cons_of_four_le h.four_le
    rfl
  have htake := p.token.take_overwrite ((l.drop 4).take (Rfc7252.tokenLengthOf l))
    (by rw [hlen]; exact h.token_le)
  rw [hlen] at htake
  rw [tokenBytes, htkl]
  exact htake

/-- **What a packet holds after parsing.**  A datagram accepted by one packet is accepted by every
other packet on the same host, and both hold the same message if and only if they held the same
payload before. -/
theorem parse_same_iff {p q p' : Packet} {l rest : List UInt8}
    (hle : p.littleEndian = q.littleEndian)
    (h : p.parse (some (l ++ rest)) l.length = .ok (p', none)) :
    ∃ q', q.parse (some (l ++ rest)) l.length = .ok (q', none) ∧
      (SameMessage p' q' ↔ p.payload = q.payload) := by
  obtain ⟨hhead, payload, hend, rfl⟩ := p.parse_eq_ok_none.mp h
  refine ⟨_, q.parse_eq_ok_none.mpr ⟨hhead, payload, hle ▸ hend, rfl⟩, ?_, ?_⟩
  · intro hsame
    exact List.append_cancel_right hsame.payload
  · intro hpayload
    have htoken := (p.tokenBytes_afterOptions hhead).trans (q.tokenBytes_afterOptions hhead).symm
    refine ⟨rfl, rfl, rfl, ?_, rfl, htoken, ?_, rfl, ?_⟩
    · simp only [Packet.afterOptions, hle]
    · simp only [Packet.afterOptions, hle]
    · simp only [hpayload]

/-- A message with a token and the payload 7, parsed by two packets that held no payload. -/
theorem parse_same_of_fresh :
    ∃ p' q', (Packet.fresh true).parse (some [0x41, 1, 0, 0, 9, 0xFF, 7]) 7 = .ok (p', none) ∧
      ({ Packet.fresh true with code := 5 } : Packet).parse (some [0x41, 1, 0, 0, 9, 0xFF, 7]) 7 =
        .ok (q', none) ∧ SameMessage p' q' := by
  have haccept : (Packet.fresh true).parse (some ([0x41, 1, 0, 0, 9, 0xFF, 7] ++ []))
      ([0x41, 1, 0, 0, 9, 0xFF, 7] : List UInt8).length =
      .ok ({ Packet.fresh true with
        header := 0x41, code := 1, token := ⟨[9, 0, 0, 0, 0, 0, 0, 0], rfl⟩, payloadOffset := 6,
        payload := [7] }, none) := by decide
  obtain ⟨q', hq, hsame⟩ := parse_same_iff (q := { Packet.fresh true with code := 5 }) rfl haccept
  exact ⟨_, q', haccept, hq, hsame.mpr rfl⟩

/-- A packet that is used again still holds the payload of the message before. -/
theorem parse_not_same :
    ∃ p' q', (Packet.fresh true).parse (some [0x40, 1, 0, 0, 0xFF, 7]) 6 = .ok (p', none) ∧
      ({ Packet.fresh true with payload := [1] } : Packet).parse
        (some [0x40, 1, 0, 0, 0xFF, 7]) 6 = .ok (q', none) ∧ ¬ SameMessage p' q' := by
  refine ⟨{ Packet.fresh true with
    header := 0x40, code := 1, payloadOffset := 5, payload := [7] },
    { Packet.fresh true with header := 0x40, code := 1, payloadOffset := 5, payload := [1, 7] },
    by decide, by decide, fun h ↦ ?_⟩
  exact absurd h.payload (by decide)

end Coap
