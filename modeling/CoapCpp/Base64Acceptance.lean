import CoapCpp.Base64RoundTrip

/-!
# What `decode` accepts

`decode` checks that the length is a multiple of four and nothing else.  It looks at the last two
characters of an empty array, it looks up any character from 128 on outside its table, and it takes
every other character that is not in the alphabet for a zero.

`canonical` is the check it would have to make: `canonical_iff` says that the texts that pass it are
those that the encoder gives, and `decodesSafely_iff` that `decode` is right about them and about
texts of any other length, and about nothing else.
-/

set_option autoImplicit false

namespace Coap.Base64

open CString Memory Rfc4648

/-! ## Canonical texts -/

/-- Whole groups of characters of the alphabet; at the end, one or two of them may be `=`, and then
the bits of the last character that belong to no octet are zero. -/
def canonical (data : Text) : Bool :=
  let body := data.takeWhile (· ≠ 61)
  let pad := data.dropWhile (· ≠ 61)
  data.length % 4 = 0 && pad.length ≤ 2 && pad.all (· = 61) && body.all (· ∈ encodingTable) &&
    encodingTable.idxOf (body.getLastD 65) % 4 ^ pad.length = 0

theorem canonical_append {body : Text} (p : ℕ) (hbody : 61 ∉ body) :
    canonical (body ++ List.replicate p 61) = true ↔
      (body.length + p) % 4 = 0 ∧ p ≤ 2 ∧ (∀ c ∈ body, c ∈ encodingTable) ∧
        encodingTable.idxOf (body.getLastD 65) % 4 ^ p = 0 := by
  have hne : ∀ c ∈ body, decide (c ≠ 61) = true := fun c hc ↦
    decide_eq_true fun h ↦ hbody (h ▸ hc)
  have htake : (List.replicate p (61 : UInt8)).takeWhile (fun c ↦ decide (c ≠ 61)) = [] := by
    cases p <;> rfl
  have hdrop : (List.replicate p (61 : UInt8)).dropWhile (fun c ↦ decide (c ≠ 61)) =
      List.replicate p 61 := by
    cases p <;> rfl
  simp only [canonical, List.takeWhile_append_of_pos hne, List.dropWhile_append_of_pos hne, htake,
    hdrop, List.append_nil]
  simp [and_assoc]

theorem eq_append_of_canonical {data : Text} (h : canonical data = true) :
    ∃ body p, 61 ∉ body ∧ data = body ++ List.replicate p 61 := by
  refine ⟨data.takeWhile (· ≠ 61), (data.dropWhile (· ≠ 61)).length, fun hmem ↦ ?_, ?_⟩
  · simpa using List.mem_takeWhile_imp hmem
  · simp only [canonical, Bool.and_eq_true, List.all_eq_true, decide_eq_true_eq] at h
    rw [← List.eq_replicate_of_mem h.1.1.2, List.takeWhile_append_dropWhile]

/-! ## Texts that were encoded -/

theorem idxOf_alphabet {i : ℕ} (hi : i < 64) : encodingTable.idxOf (base64Alphabet i) = i := by
  have hall : ∀ i < 64, encodingTable.idxOf (base64Alphabet i) = i := by decide +kernel
  exact hall i hi

theorem exists_digit {c : UInt8} (h : c ∈ encodingTable) : ∃ i < 64, c = base64Alphabet i := by
  obtain ⟨i, hi, rfl⟩ := List.getElem_of_mem h
  refine ⟨i, hi, ?_⟩
  rw [← encodingTable_getD hi, List.getD_eq_getElem _ _ hi]

/-- The zeros that fill up the last digit are the bits that belong to no octet. -/
theorem lastDigit_mod (data : List UInt8) :
    encodingTable.idxOf (((digitsOf 6 data).map base64Alphabet).getLastD 65) %
      4 ^ padding data.length = 0 := by
  have hlast {n k : ℕ} (hk : missing 6 (8 * data.length) = k)
      (hn : 8 * data.length + k = 6 * (n + 1)) :
      encodingTable.idxOf (((digitsOf 6 data).map base64Alphabet).getLastD 65) =
        numberOf data * 2 ^ k % 64 := by
    rw [digitsOf_eq (by decide) hk hn, digits_last, List.map_append, List.map_singleton,
      List.getLastD_concat]
    exact idxOf_alphabet (Nat.mod_lt _ (by decide))
  obtain ⟨q, hq | hq | hq⟩ :
      ∃ q, data.length = 3 * q ∨ data.length = 3 * q + 1 ∨ data.length = 3 * q + 2 :=
    ⟨data.length / 3, by omega⟩
  · have hpadding : padding data.length = 0 := by rw [padding]; omega
    rw [hpadding, Nat.pow_zero, Nat.mod_one]
  · have hpadding : padding data.length = 2 := by rw [padding]; omega
    rw [hpadding, hlast (n := 4 * q + 1) (k := 4) (by rw [missing]; omega) (by omega)]
    omega
  · have hpadding : padding data.length = 1 := by rw [padding]; omega
    rw [hpadding, hlast (n := 4 * q + 2) (k := 2) (by rw [missing]; omega) (by omega)]
    omega

/-- What the encoder gives passes the check. -/
theorem canonical_encode (data : List UInt8) : canonical (encode data) = true := by
  have hlength := length_encode data
  rw [encode_eq_digits, List.length_append, List.length_replicate] at hlength
  rw [encode_eq_digits, canonical_append _ (pad_notMem_digits _)]
  refine ⟨by rw [hlength, Nat.mul_mod_right], by rw [padding]; omega, fun c hc ↦ ?_,
    lastDigit_mod data⟩
  obtain ⟨i, -, rfl⟩ := List.mem_map.mp hc
  exact base64Alphabet_mem i

/-! ## The octets of a canonical text -/

theorem exists_quad {i j k l : ℕ} (hi : i < 64) (hj : j < 64) (hk : k < 64) (hl : l < 64) :
    ∃ a b c, numberOf [a, b, c] = i * 262144 + j * 4096 + k * 64 + l ∧
      quad a b c = [base64Alphabet i, base64Alphabet j, base64Alphabet k, base64Alphabet l] := by
  obtain ⟨n, hn⟩ : ∃ n, n = i * 262144 + j * 4096 + k * 64 + l := ⟨_, rfl⟩
  have hnumber : numberOf [(n / 65536).toUInt8, (n / 256).toUInt8, n.toUInt8] = n := by
    rw [numberOf_triple]
    simp
    omega
  refine ⟨(n / 65536).toUInt8, (n / 256).toUInt8, n.toUInt8, hnumber.trans hn, ?_⟩
  rw [quad_chars, hnumber]
  congr <;> omega

theorem exists_encode_one {i j : ℕ} (hi : i < 64) (hj : j < 64) (hmod : j % 16 = 0) :
    ∃ a, encode [a] = [base64Alphabet i, base64Alphabet j, 61, 61] := by
  obtain ⟨a, b, c, hnumber, hquad⟩ := exists_quad hi hj (k := 0) (l := 0) (by decide) (by decide)
  have hb := b.toNat_lt
  have hc := c.toNat_lt
  rw [numberOf_triple] at hnumber
  obtain rfl : b = 0 := UInt8.toNat_inj.mp (by rw [UInt8.toNat_zero]; omega)
  obtain rfl : c = 0 := UInt8.toNat_inj.mp (by rw [UInt8.toNat_zero]; omega)
  refine ⟨a, ?_⟩
  rw [encode_one, hquad]
  rfl

theorem exists_encode_two {i j k : ℕ} (hi : i < 64) (hj : j < 64) (hk : k < 64)
    (hmod : k % 4 = 0) :
    ∃ a b, encode [a, b] = [base64Alphabet i, base64Alphabet j, base64Alphabet k, 61] := by
  obtain ⟨a, b, c, hnumber, hquad⟩ := exists_quad hi hj hk (l := 0) (by decide)
  have hc := c.toNat_lt
  rw [numberOf_triple] at hnumber
  obtain rfl : c = 0 := UInt8.toNat_inj.mp (by rw [UInt8.toNat_zero]; omega)
  refine ⟨a, b, ?_⟩
  rw [encode_two, hquad]
  rfl

/-- A text that passes the check, in front of its padding, is given by the encoder: it is taken
apart group by group, and the zeros in its last character are the octets that are missing. -/
theorem exists_encode {body : Text} {p : ℕ} (hmod : (body.length + p) % 4 = 0) (hp : p ≤ 2)
    (hbody : ∀ c ∈ body, c ∈ encodingTable)
    (hlast : encodingTable.idxOf (body.getLastD 65) % 4 ^ p = 0) :
    ∃ data, encode data = body ++ List.replicate p 61 := by
  induction body using octetsOf.induct with
  | case1 a b c d rest ih =>
    simp only [List.forall_mem_cons] at hbody
    obtain ⟨ha, hb, hc, hd, hrest⟩ := hbody
    obtain ⟨i, hi, rfl⟩ := exists_digit ha
    obtain ⟨j, hj, rfl⟩ := exists_digit hb
    obtain ⟨k, hk, rfl⟩ := exists_digit hc
    obtain ⟨l, hl, rfl⟩ := exists_digit hd
    simp only [List.length_cons] at hmod
    have hlast' : encodingTable.idxOf (rest.getLastD 65) % 4 ^ p = 0 := by
      cases rest with
      | nil =>
        obtain rfl : p = 0 := by simp only [List.length_nil] at hmod; omega
        rw [Nat.pow_zero, Nat.mod_one]
      | cons x rest => exact hlast
    obtain ⟨data, hdata⟩ := ih (by omega) hrest hlast'
    obtain ⟨x, y, z, -, hquad⟩ := exists_quad hi hj hk hl
    refine ⟨x :: y :: z :: data, ?_⟩
    rw [encode_cons, hquad, hdata]
    rfl
  | case2 body hshort =>
    rcases body with _ | ⟨a, _ | ⟨b, _ | ⟨c, _ | ⟨d, rest⟩⟩⟩⟩
    · obtain rfl : p = 0 := by simp only [List.length_nil] at hmod; omega
      exact ⟨[], rfl⟩
    · simp only [List.length_cons, List.length_nil] at hmod
      omega
    · obtain rfl : p = 2 := by simp only [List.length_cons, List.length_nil] at hmod; omega
      obtain ⟨i, hi, rfl⟩ := exists_digit (hbody a List.mem_cons_self)
      obtain ⟨j, hj, rfl⟩ := exists_digit (hbody b (List.mem_cons_of_mem _ List.mem_cons_self))
      rw [List.getLastD_cons, List.getLastD_cons, List.getLastD_nil, idxOf_alphabet hj] at hlast
      obtain ⟨x, hx⟩ := exists_encode_one hi hj hlast
      exact ⟨[x], hx⟩
    · obtain rfl : p = 1 := by simp only [List.length_cons, List.length_nil] at hmod; omega
      simp only [List.forall_mem_cons] at hbody
      obtain ⟨ha, hb, hc, -⟩ := hbody
      obtain ⟨i, hi, rfl⟩ := exists_digit ha
      obtain ⟨j, hj, rfl⟩ := exists_digit hb
      obtain ⟨k, hk, rfl⟩ := exists_digit hc
      rw [List.getLastD_cons, List.getLastD_cons, List.getLastD_cons, List.getLastD_nil,
        idxOf_alphabet hk] at hlast
      obtain ⟨x, y, hxy⟩ := exists_encode_two hi hj hk hlast
      exact ⟨[x, y], hxy⟩
    · exact (hshort a b c d rest rfl).elim

/-- **The check is exact**: the texts that pass it are those that the encoder gives. -/
theorem canonical_iff (data : Text) : canonical data = true ↔ ∃ bytes, encode bytes = data := by
  constructor
  · intro h
    obtain ⟨body, p, hpad, rfl⟩ := eq_append_of_canonical h
    obtain ⟨hmod, hp, hbody, hlast⟩ := (canonical_append p hpad).mp h
    exact exists_encode hmod hp hbody hlast
  · rintro ⟨bytes, rfl⟩
    exact canonical_encode bytes

/-! ## What the decoder accepts -/

/-- `decode` is safe and exact on an array. -/
structure DecodesSafely (t : Tables) (e : Base64Encoder) (data : Text) : Prop where
  /-- It returns, and reads neither outside the array nor outside its table. -/
  inside : ∃ r, e.decode t data none = .ok r
  /-- It reports no error if and only if the array is the encoding of some octets. -/
  accepts : ∀ e' ec, e.decode t data none = .ok (e', ec) →
    (ec = none ↔ ∃ bytes, encode bytes = data)
  /-- Then encoding what it gives leads back to the array. -/
  inverse : ∀ e', e.decode t data none = .ok (e', none) →
    ∃ bytes : List UInt8, e'.decodedData = some (bytes.map some) ∧
      e'.decodedSize = bytes.length ∧ encode bytes = data

/-- **When `decode` is safe and exact.**  The length is no multiple of four, which is reported, or
the array is not empty and canonical. -/
theorem decodesSafely_iff (n : ℕ) (e : Base64Encoder) (data : Text) :
    DecodesSafely (Tables.after (n + 1)) e data ↔
      data.length % 4 ≠ 0 ∨ data ≠ [] ∧ canonical data = true := by
  by_cases hmod : data.length % 4 = 0
  swap
  · have hdecode : e.decode (Tables.after (n + 1)) data none = .ok (e, some (.system .einval)) := by
      rw [Base64Encoder.decode, if_pos hmod]
      rfl
    have hnone : ¬ ∃ bytes, encode bytes = data := by
      rintro ⟨bytes, rfl⟩
      exact hmod (by rw [length_encode, Nat.mul_mod_right])
    refine iff_of_true ⟨⟨_, hdecode⟩, fun e' ec h ↦ ?_, fun e' h ↦ ?_⟩ (.inl hmod)
    · rw [hdecode] at h
      cases h
      exact iff_of_false (Option.some_ne_none _) hnone
    · rw [hdecode] at h
      cases h
  rw [or_iff_right (not_not.mpr hmod), canonical_iff]
  constructor
  · intro hsafe
    have hne : data ≠ [] := by
      rintro rfl
      obtain ⟨r, hr⟩ := hsafe.inside
      rw [decode_nil] at hr
      cases hr
    have hlt : ∀ c ∈ data, c.toNat < 128 := by
      by_contra hge
      obtain ⟨index, hindex⟩ := decode_of_ge n e none hmod hge
      obtain ⟨r, hr⟩ := hsafe.inside
      rw [hindex] at hr
      cases hr
    exact ⟨hne, (hsafe.accepts _ _ (decode_of_lt n e none hmod hne hlt)).mp rfl⟩
  · rintro ⟨hne, bytes, rfl⟩
    have hdecode := decode_encode n e none (encode_eq_nil_iff.not.mp hne)
    refine ⟨⟨_, hdecode⟩, fun e' ec h ↦ ?_, fun e' h ↦ ?_⟩
    · rw [hdecode] at h
      cases h
      exact iff_of_true rfl ⟨bytes, rfl⟩
    · rw [hdecode] at h
      cases h
      exact ⟨bytes, rfl, rfl, rfl⟩

/-- The empty array, a character from 128 on, nothing but `=`, and nothing of the alphabet. -/
theorem not_decodesSafely :
    ¬ DecodesSafely (Tables.after 1) {} [] ∧
      ¬ DecodesSafely (Tables.after 1) {} [65, 65, 65, 200] ∧
      ¬ DecodesSafely (Tables.after 1) {} [61, 61, 61, 61] ∧
      ¬ DecodesSafely (Tables.after 1) {} [33, 33, 33, 33] := by
  have hwrong (data : Text) (hmod : data.length % 4 = 0) (hne : data ≠ [])
      (hlt : ∀ c ∈ data, c.toNat < 128) (hcanonical : canonical data = false) :
      ¬ DecodesSafely (Tables.after 1) {} data := by
    intro h
    have hbytes := (h.accepts _ _ (decode_of_lt 0 {} none hmod hne hlt)).mp rfl
    rw [← canonical_iff, hcanonical] at hbytes
    cases hbytes
  refine ⟨fun h ↦ ?_, fun h ↦ ?_,
    hwrong _ (by decide) (by decide) (by decide +kernel) (by decide +kernel),
    hwrong _ (by decide) (by decide) (by decide +kernel) (by decide +kernel)⟩
  · obtain ⟨r, hr⟩ := h.inside
    rw [decode_nil] at hr
    cases hr
  · obtain ⟨index, hindex⟩ :=
      @decode_of_ge 0 {} [65, 65, 65, 200] none (by decide) (by decide +kernel)
    obtain ⟨r, hr⟩ := h.inside
    rw [hindex] at hr
    cases hr

end Coap.Base64
