import CoapCpp.Base64
import CoapCpp.Rfc4648
import Mathlib.Algebra.Order.Floor.Div
import Mathlib.GroupTheory.GroupAction.Ring

/-!
# Base64, there and back

Three octets and the four characters for them stand for the same number of 24 bits, read in base 256
by one side and in base 64 by the other.  `quad_eq` and `octetsOf_quad` say so, and everything else
is about the end of the data: `encode_eq_base64` shows that overwriting the end with `=` gives what
RFC 4648 prescribes, and `octetsOf_encode` that the zeros for what is missing come back as zeros,
for which the block of `decode` has no room.
-/

set_option autoImplicit false

namespace Coap.Base64

open CString Memory Rfc4648

/-! ## One turn of the encoder -/

theorem encodingTable_getD {i : ℕ} (hi : i < 64) : encodingTable.getD i 0 = base64Alphabet i := by
  have hall : ∀ i < 64, encodingTable.getD i 0 = base64Alphabet i := by decide
  exact hall i hi

theorem sextet_eq (triple : UInt32) {shift : UInt32} (h : shift.toNat < 32) :
    sextet triple shift = base64Alphabet (triple.toNat / 2 ^ shift.toNat % 64) := by
  have hdigit : ((triple >>> shift) &&& 0x3F).toNat = triple.toNat / 2 ^ shift.toNat % 64 := by
    rw [UInt32.toNat_and, UInt32.toNat_shiftRight, Nat.mod_eq_of_lt h, Nat.shiftRight_eq_div_pow]
    exact Nat.and_two_pow_sub_one_eq_mod _ 6
  rw [sextet, hdigit, encodingTable_getD (Nat.mod_lt _ (by decide))]

theorem numberOf_triple (a b c : UInt8) :
    numberOf [a, b, c] = a.toNat * 65536 + b.toNat * 256 + c.toNat := by
  simp [numberOf, Nat.add_assoc]

theorem toNat_triple (a b c : UInt8) :
    ((a.toUInt32 <<< 0x10) + (b.toUInt32 <<< 0x08) + c.toUInt32).toNat = numberOf [a, b, c] := by
  have ha := a.toNat_lt
  have hb := b.toNat_lt
  have hc := c.toNat_lt
  rw [numberOf_triple]
  simp only [UInt32.toNat_add, UInt32.toNat_shiftLeft, UInt8.toNat_toUInt32, Nat.shiftLeft_eq]
  simp
  omega

theorem digits_four (n : ℕ) :
    digits 6 4 (bitsOf 24 n) = [n / 262144 % 64, n / 4096 % 64, n / 64 % 64, n % 64] := by
  have h₃ := digits_bitsOf 6 3 n
  have h₂ := digits_bitsOf 6 2 n
  have h₁ := digits_bitsOf 6 1 n
  have h₀ := digits_bitsOf 6 0 n
  simp only [Nat.reduceMul, Nat.reduceAdd, Nat.reducePow, Nat.div_one] at h₃ h₂ h₁ h₀
  rw [h₃, h₂, h₁, h₀, digits]

/-- **One turn of the loop** gives the digits of the number. -/
theorem quad_eq (a b c : UInt8) :
    quad a b c = (digits 6 4 (bitsOf 24 (numberOf [a, b, c]))).map base64Alphabet := by
  simp only [quad, sextet_eq _ (show (18 : UInt32).toNat < 32 by decide),
    sextet_eq _ (show (12 : UInt32).toNat < 32 by decide),
    sextet_eq _ (show (6 : UInt32).toNat < 32 by decide),
    sextet_eq _ (show (0 : UInt32).toNat < 32 by decide), toNat_triple, digits_four]
  simp

/-! ## The end of the data -/

theorem foldl_set_end (s : Text) {p : ℕ} (hp : p ≤ s.length) :
    (List.range p).foldl (fun chars i ↦ chars.set (s.length - 1 - i) 61) s =
      s.take (s.length - p) ++ List.replicate p 61 := by
  induction p with
  | zero => simp
  | succ p ih =>
    rw [List.range_succ, List.foldl_append, ih (Nat.le_of_succ_le hp), List.foldl_cons,
      List.foldl_nil, List.set_append_left _ _ (by rw [List.length_take]; omega)]
    have hlast : (s.take (s.length - p)).set (s.length - 1 - p) 61 =
        s.take (s.length - (p + 1)) ++ [61] := by
      have hpos : s.length - p = s.length - (p + 1) + 1 := by omega
      have hindex : s.length - 1 - p = s.length - (p + 1) := by omega
      rw [hpos, hindex, List.take_add_one, List.getElem?_eq_getElem (by omega), Option.toList_some,
        List.set_append_right _ _ (by rw [List.length_take]; omega), List.length_take,
        Nat.min_eq_left (by omega), Nat.sub_self, List.set_cons_zero]
    rw [hlast, List.append_assoc, List.singleton_append, List.replicate_succ]

/-- The number of characters without an octet of their own behind `n` octets. -/
def padding (n : ℕ) : ℕ := (3 - n % 3) % 3

theorem padding_add_three (n : ℕ) : padding (n + 3) = padding n := by
  rw [padding, Nat.add_mod_right, padding]

theorem modTable_getD (n : ℕ) : modTable.getD (n % 3) 0 = padding n := by
  have hall : ∀ r < 3, modTable.getD r 0 = (3 - r) % 3 := by decide
  exact hall _ (Nat.mod_lt n (by decide))

theorem padding_le (data : List UInt8) : padding data.length ≤ (encodeLoop data).length := by
  rw [length_encodeLoop, padding]
  omega

theorem encode_eq_take (data : List UInt8) :
    encode data = (encodeLoop data).take ((encodeLoop data).length - padding data.length) ++
      List.replicate (padding data.length) 61 := by
  have hend := foldl_set_end (encodeLoop data) (padding_le data)
  rw [← modTable_getD] at hend ⊢
  rw [length_encodeLoop] at hend ⊢
  exact hend

theorem encode_one (a : UInt8) : encode [a] = (quad a 0 0).take 2 ++ [61, 61] :=
  encode_eq_take [a]

theorem encode_two (a b : UInt8) : encode [a, b] = (quad a b 0).take 3 ++ [61] :=
  encode_eq_take [a, b]

/-- Nothing is overwritten before the last triple. -/
theorem encode_cons (a b c : UInt8) (data : List UInt8) :
    encode (a :: b :: c :: data) = quad a b c ++ encode data := by
  have hpadding : padding (a :: b :: c :: data).length = padding data.length := padding_add_three _
  have htake : (encodeLoop (a :: b :: c :: data)).length - padding data.length =
      (quad a b c).length + ((encodeLoop data).length - padding data.length) := by
    rw [encodeLoop, List.length_append, Nat.add_sub_assoc (padding_le data)]
  rw [encode_eq_take, hpadding, htake, encodeLoop, List.take_length_add_append, List.append_assoc,
    ← encode_eq_take]

/-- **The encoder follows RFC 4648.**  At the end of the data, the zeros for the octets that are
missing contain the zeros that fill up the last digit. -/
theorem encode_eq_base64 (data : List UInt8) : encode data = base64 data := by
  induction data using encodeLoop.induct with
  | case1 => rfl
  | case2 a =>
    have hdigits : digitsOf 6 [a] = digits 6 2 (bitsOf 12 (numberOf [a] * 2 ^ 4)) :=
      digitsOf_eq (by decide) (show missing 6 8 = 4 by decide) rfl
    have hnumber : numberOf [a, 0, 0] = numberOf [a] * 2 ^ 4 * 2 ^ (6 * 2) + 0 := by
      rw [numberOf_triple]
      simp [numberOf, Nat.mul_assoc]
    have hquad := digits_add 6 2 2 (numberOf [a] * 2 ^ 4) (Nat.two_pow_pos (6 * 2))
    rw [← hnumber] at hquad
    rw [encode_one, quad_eq, hquad, base64, Rfc4648.encode, hdigits]
    rfl
  | case3 a b =>
    have hdigits : digitsOf 6 [a, b] = digits 6 3 (bitsOf 18 (numberOf [a, b] * 2 ^ 2)) :=
      digitsOf_eq (by decide) (show missing 6 16 = 2 by decide) rfl
    have hnumber : numberOf [a, b, 0] = numberOf [a, b] * 2 ^ 2 * 2 ^ (6 * 1) + 0 := by
      rw [numberOf_triple]
      simp [numberOf, Nat.mul_assoc, Nat.add_mul]
    have hquad := digits_add 6 3 1 (numberOf [a, b] * 2 ^ 2) (Nat.two_pow_pos (6 * 1))
    rw [← hnumber] at hquad
    rw [encode_two, quad_eq, hquad, base64, Rfc4648.encode, hdigits]
    rfl
  | case4 a b c data ih =>
    have happend := encode_append (show 0 < 6 by decide)
      (show 8 * [a, b, c].length = 6 * 4 from rfl) base64Alphabet 61 data
    rw [bitString_eq] at happend
    rw [encode_cons, ih, base64, base64, quad_eq]
    exact happend.symm

/-! ## The table of the decoder -/

/-- `s_decodingTable` when it has been filled in. -/
def decodingTable : List UInt8 := ({} : Tables).decodingTableInit.decodingTable

/-- The first object fills in the table, and no other object changes it. -/
theorem decodingTable_after (n : ℕ) : (Tables.after (n + 1)).decodingTable = decodingTable := by
  have hafter : Tables.after (n + 1) = { decTableInited := true, decodingTable } := by
    induction n with
    | zero => rfl
    | succ n ih =>
      rw [Tables.after, ih]
      rfl
  rw [hafter]

/-- What has been filled in: `+`, `/`, the digits, and the letters. -/
theorem decodingTable_eq :
    decodingTable =
      List.replicate 43 0 ++ 62 :: List.replicate 3 0 ++ 63 ::
        (List.range' 52 10).map Nat.toUInt8 ++ List.replicate 7 0 ++
          (List.range' 0 26).map Nat.toUInt8 ++ List.replicate 6 0 ++
            (List.range' 26 26).map Nat.toUInt8 ++ List.replicate 133 0 := by
  decide +kernel

theorem length_decodingTable : decodingTable.length = 256 := by
  rw [decodingTable_eq]
  simp only [List.length_append, List.length_cons, List.length_replicate, List.length_map,
    List.length_range']

/-- What the table has for a character. -/
def digitValue (c : UInt8) : ℕ := (decodingTable.getD c.toNat 0).toNat

theorem digitValue_lt (c : UInt8) : digitValue c < 64 := by
  have hall : ∀ x ∈ decodingTable, x.toNat < 64 := by
    rw [decodingTable_eq]
    decide +kernel
  have hlt : c.toNat < decodingTable.length := length_decodingTable ▸ c.toNat_lt
  rw [digitValue, List.getD_eq_getElem _ _ hlt]
  exact hall _ (List.getElem_mem hlt)

/-- The table is the inverse of the alphabet. -/
theorem digitValue_alphabet {i : ℕ} (hi : i < 64) : digitValue (base64Alphabet i) = i := by
  have hall : ∀ i < 64, (decodingTable.getD (base64Alphabet i).toNat 0).toNat = i := by
    rw [decodingTable_eq]
    decide +kernel
  exact hall i hi

/-- `=` is not in the alphabet, so the table has a zero for it. -/
theorem digitValue_pad : digitValue 61 = 0 := by
  rw [digitValue, decodingTable_eq]
  rfl

theorem toInt_toInt8 (c : UInt8) :
    c.toInt8.toInt = if c.toNat < 128 then (c.toNat : ℤ) else c.toNat - 256 := by
  have hc := c.toNat_lt
  show c.toBitVec.toInt = _
  rw [BitVec.toInt_eq_toNat_cond]
  split <;> split <;> simp at * <;> omega

theorem lookup_of_lt {c : UInt8} (hc : c.toNat < 128) :
    lookup decodingTable c = .ok (digitValue c).toUInt32 := by
  have hindex : c.toInt8.toInt = c.toNat := by rw [toInt_toInt8, if_pos hc]
  have hlt : c.toNat < decodingTable.length := length_decodingTable ▸ c.toNat_lt
  simp only [lookup, hindex, Int.toNat_natCast, load_eq_getD hlt 0]
  rw [if_neg (by omega), digitValue]
  exact congrArg Except.ok (UInt32.toNat_inj.mp (by simp))

theorem lookup_of_ge {c : UInt8} (hc : 128 ≤ c.toNat) :
    ∃ index, lookup decodingTable c = .error (.outOfBounds index) := by
  have hlt := c.toNat_lt
  have hindex : c.toInt8.toInt = c.toNat - 256 := by rw [toInt_toInt8, if_neg (by omega)]
  simp only [lookup, hindex]
  rw [if_pos (by omega)]
  exact ⟨_, rfl⟩

/-- What is read for a character below 128; the zero for `=` is also in the table. -/
theorem readSextet_of_lt {data : Text} {i : ℕ} {c : UInt8} (hload : load data i = .ok c)
    (hc : c.toNat < 128) :
    readSextet decodingTable data i = .ok ((digitValue c).toUInt32, i + 1) := by
  rw [readSextet, hload, ok_bind]
  split
  · next hpad =>
    rw [hpad, digitValue_pad]
    rfl
  · rw [lookup_of_lt hc]
    rfl

theorem readSextet_of_ge {data : Text} {i : ℕ} {c : UInt8} (hload : load data i = .ok c)
    (hc : 128 ≤ c.toNat) :
    ∃ index, readSextet decodingTable data i = .error (.outOfBounds index) := by
  have hpad : c ≠ 61 := by
    rintro rfl
    exact absurd hc (by decide)
  obtain ⟨index, hindex⟩ := lookup_of_ge hc
  rw [readSextet, hload, ok_bind, if_neg hpad, hindex]
  exact ⟨index, rfl⟩

/-! ## One turn of the decoder -/

/-- The number of four characters. -/
def quadNumber (a b c d : UInt8) : ℕ :=
  digitValue a * 262144 + digitValue b * 4096 + digitValue c * 64 + digitValue d

/-- The three octets for four characters. -/
def octets (a b c d : UInt8) : List UInt8 :=
  let n := quadNumber a b c d
  [(n / 65536).toUInt8, (n / 256).toUInt8, n.toUInt8]

/-- All octets for a text, group by group. -/
def octetsOf : Text → List UInt8
  | a :: b :: c :: d :: data => octets a b c d ++ octetsOf data
  | _ => []

/-- The state of the block when `done` has been put into it. -/
def blockOf (size : ℕ) (done : List UInt8) : Cells UInt8 × ℕ :=
  (front (done.take size) (List.replicate (size - done.length) none), min size done.length)

theorem blockOf_of_le {size : ℕ} {done : List UInt8} (h : done.length ≤ size) :
    blockOf size done = (front done (List.replicate (size - done.length) none), done.length) := by
  rw [blockOf, List.take_of_length_le h, Nat.min_eq_right h]

theorem blockOf_of_ge {size : ℕ} {done : List UInt8} (h : size ≤ done.length) :
    blockOf size done = (front (done.take size) [], size) := by
  rw [blockOf, Nat.sub_eq_zero_of_le h, Nat.min_eq_left h, List.replicate_zero]

theorem putOctet_blockOf (size : ℕ) (done : List UInt8) (octet : UInt8) :
    putOctet size (blockOf size done) octet = .ok (blockOf size (done ++ [octet])) := by
  have hlength : (done ++ [octet]).length = done.length + 1 := List.length_append
  rcases Nat.lt_or_ge done.length size with hlt | hge
  · have hroom : size - done.length = size - (done.length + 1) + 1 := by omega
    rw [putOctet, blockOf_of_le (Nat.le_of_lt hlt), if_pos hlt, hroom, List.replicate_succ,
      store_front, ok_bind, blockOf_of_le (hlength ▸ hlt), hlength]
    rfl
  · have hge' : size ≤ (done ++ [octet]).length := hlength ▸ Nat.le_succ_of_le hge
    rw [putOctet, blockOf_of_ge hge, if_neg (Nat.lt_irrefl size), blockOf_of_ge hge',
      List.take_append_of_le_length hge]
    rfl

theorem octet_eq (triple : UInt32) {shift : UInt32} (h : shift.toNat < 32) :
    ((triple >>> shift) &&& 0xFF).toUInt8 = (triple.toNat / 2 ^ shift.toNat).toUInt8 := by
  refine UInt8.toNat_inj.mp ?_
  have hmask : (triple.toNat / 2 ^ shift.toNat) &&& 255 = triple.toNat / 2 ^ shift.toNat % 256 :=
    Nat.and_two_pow_sub_one_eq_mod _ 8
  rw [UInt32.toNat_toUInt8, UInt32.toNat_and, UInt32.toNat_shiftRight, Nat.mod_eq_of_lt h,
    Nat.shiftRight_eq_div_pow]
  show (triple.toNat / 2 ^ shift.toNat &&& 255) % 256 = _
  rw [hmask, Nat.mod_mod]
  rfl

theorem toNat_quad (a b c d : UInt8) :
    (((digitValue a).toUInt32 <<< 18) + ((digitValue b).toUInt32 <<< 12) +
      ((digitValue c).toUInt32 <<< 6) + ((digitValue d).toUInt32 <<< 0)).toNat =
      quadNumber a b c d := by
  have ha := digitValue_lt a
  have hb := digitValue_lt b
  have hc := digitValue_lt c
  have hd := digitValue_lt d
  simp only [quadNumber, UInt32.toNat_add, UInt32.toNat_shiftLeft, Nat.toUInt32_eq,
    UInt32.toNat_ofNat', Nat.shiftLeft_eq]
  simp
  omega

theorem readSextet_append (pre : Text) {s : Text} (k : ℕ) {c : UInt8} (hc : s[k]? = some c)
    (hlt : c.toNat < 128) :
    readSextet decodingTable (pre ++ s) (pre.length + k) =
      .ok ((digitValue c).toUInt32, pre.length + (k + 1)) :=
  readSextet_of_lt (load_append_add hc) hlt

/-- **One turn of the loop** of `decode`. -/
theorem decodeLoop_quad (pre : Text) {a b c d : UInt8} (rest : Text) (size fuel : ℕ)
    (done : List UInt8) (ha : a.toNat < 128) (hb : b.toNat < 128) (hc : c.toNat < 128)
    (hd : d.toNat < 128) :
    decodeLoop decodingTable (pre ++ a :: b :: c :: d :: rest) size (fuel + 1) pre.length
        (blockOf size done) =
      decodeLoop decodingTable (pre ++ a :: b :: c :: d :: rest) size fuel (pre.length + 4)
        (blockOf size (done ++ octets a b c d)) := by
  have hlt : pre.length < (pre ++ a :: b :: c :: d :: rest).length := by simp
  have hreada := readSextet_append pre (s := a :: b :: c :: d :: rest) 0 rfl ha
  have hreadb := readSextet_append pre (s := a :: b :: c :: d :: rest) 1 rfl hb
  have hreadc := readSextet_append pre (s := a :: b :: c :: d :: rest) 2 rfl hc
  have hreadd := readSextet_append pre (s := a :: b :: c :: d :: rest) 3 rfl hd
  rw [Nat.add_zero] at hreada
  rw [decodeLoop, if_pos hlt]
  simp only [hreada, hreadb, hreadc, hreadd, ok_bind, Nat.reduceAdd,
    octet_eq _ (show (16 : UInt32).toNat < 32 by decide),
    octet_eq _ (show (8 : UInt32).toNat < 32 by decide),
    octet_eq _ (show (0 : UInt32).toNat < 32 by decide), toNat_quad, putOctet_blockOf,
    List.append_assoc, UInt32.reduceToNat, Nat.reducePow, Nat.div_one]
  rfl

/-- The loop stops with an access outside the table when it comes to a character from 128 on. -/
theorem decodeLoop_quad_error (pre : Text) {a b c d : UInt8} (rest : Text) (size fuel : ℕ)
    (block : Cells UInt8 × ℕ)
    (h : 128 ≤ a.toNat ∨ 128 ≤ b.toNat ∨ 128 ≤ c.toNat ∨ 128 ≤ d.toNat) :
    ∃ index, decodeLoop decodingTable (pre ++ a :: b :: c :: d :: rest) size (fuel + 1) pre.length
      block = .error (.outOfBounds index) := by
  have hlt : pre.length < (pre ++ a :: b :: c :: d :: rest).length := by simp
  have hread (k : ℕ) {x : UInt8} (hx : (a :: b :: c :: d :: rest)[k]? = some x) :
      x.toNat < 128 ∧ readSextet decodingTable (pre ++ a :: b :: c :: d :: rest) (pre.length + k) =
          .ok ((digitValue x).toUInt32, pre.length + (k + 1)) ∨
      ∃ index, readSextet decodingTable (pre ++ a :: b :: c :: d :: rest) (pre.length + k) =
        .error (.outOfBounds index) := by
    rcases Nat.lt_or_ge x.toNat 128 with hx' | hx'
    · exact .inl ⟨hx', readSextet_append pre k hx hx'⟩
    · exact .inr (readSextet_of_ge (load_append_add hx) hx')
  have hreada := hread 0 rfl
  rw [Nat.add_zero] at hreada
  rw [decodeLoop, if_pos hlt]
  obtain ⟨ha, hreada⟩ | ⟨index, he⟩ := hreada
  swap
  · exact ⟨index, by rw [he, error_bind]⟩
  obtain ⟨hb, hreadb⟩ | ⟨index, he⟩ := hread 1 rfl
  swap
  · exact ⟨index, by simp only [hreada, he, ok_bind, error_bind, Nat.reduceAdd]⟩
  obtain ⟨hc, hreadc⟩ | ⟨index, he⟩ := hread 2 rfl
  swap
  · exact ⟨index, by simp only [hreada, hreadb, he, ok_bind, error_bind, Nat.reduceAdd]⟩
  obtain ⟨hd, hreadd⟩ | ⟨index, he⟩ := hread 3 rfl
  swap
  · exact ⟨index, by simp only [hreada, hreadb, hreadc, he, ok_bind, error_bind, Nat.reduceAdd]⟩
  omega

/-! ## The loop of the decoder -/

theorem eq_nil_of_length {s : Text} (h : s.length % 4 = 0)
    (hs : ∀ a b c d rest, s = a :: b :: c :: d :: rest → False) : s = [] := by
  rcases s with _ | ⟨a, _ | ⟨b, _ | ⟨c, _ | ⟨d, rest⟩⟩⟩⟩
  · rfl
  · exact absurd h (show ¬ 1 % 4 = 0 by decide)
  · exact absurd h (show ¬ 2 % 4 = 0 by decide)
  · exact absurd h (show ¬ 3 % 4 = 0 by decide)
  · exact (hs a b c d rest rfl).elim

theorem length_mod_of_quad {a b c d : UInt8} {rest : Text}
    (h : (a :: b :: c :: d :: rest).length % 4 = 0) : rest.length % 4 = 0 := by
  simpa only [List.length_cons, Nat.add_assoc, Nat.reduceAdd, Nat.add_mod_right] using h

/-- **The run of the loop** over a text with characters below 128. -/
theorem decodeLoop_of_lt (size : ℕ) {s : Text} (hmod : s.length % 4 = 0)
    (hs : ∀ c ∈ s, c.toNat < 128) (pre : Text) (done : List UInt8) {fuel : ℕ}
    (hfuel : s.length < fuel) :
    decodeLoop decodingTable (pre ++ s) size fuel pre.length (blockOf size done) =
      .ok (blockOf size (done ++ octetsOf s)).1 := by
  obtain ⟨fuel, rfl⟩ := Nat.exists_eq_succ_of_ne_zero (Nat.ne_zero_of_lt hfuel)
  induction s using octetsOf.induct generalizing pre done fuel with
  | case1 a b c d rest ih =>
    simp only [List.forall_mem_cons] at hs
    obtain ⟨ha, hb, hc, hd, hrest⟩ := hs
    obtain ⟨fuel, rfl⟩ : ∃ n, fuel = n + 1 := Nat.exists_eq_succ_of_ne_zero <| by
      simp only [List.length_cons] at hfuel
      omega
    have hnext := ih (length_mod_of_quad hmod) hrest (pre ++ [a, b, c, d]) (done ++ octets a b c d)
      fuel (by simp only [List.length_cons] at hfuel; omega)
    rw [List.append_assoc, List.length_append] at hnext
    rw [decodeLoop_quad pre rest size _ done ha hb hc hd, octetsOf, ← List.append_assoc]
    exact hnext
  | case2 s hnil =>
    obtain rfl := eq_nil_of_length hmod hnil
    have hoctets : octetsOf [] = [] := rfl
    rw [decodeLoop, List.append_nil, if_neg (Nat.lt_irrefl _), hoctets, List.append_nil]
    rfl

theorem decodeLoop_of_ge (size : ℕ) {s : Text} (hmod : s.length % 4 = 0)
    (hs : ¬ ∀ c ∈ s, c.toNat < 128) (pre : Text) (done : List UInt8) {fuel : ℕ}
    (hfuel : s.length < fuel) :
    ∃ index, decodeLoop decodingTable (pre ++ s) size fuel pre.length (blockOf size done) =
      .error (.outOfBounds index) := by
  obtain ⟨fuel, rfl⟩ := Nat.exists_eq_succ_of_ne_zero (Nat.ne_zero_of_lt hfuel)
  induction s using octetsOf.induct generalizing pre done fuel with
  | case1 a b c d rest ih =>
    by_cases hquad : 128 ≤ a.toNat ∨ 128 ≤ b.toNat ∨ 128 ≤ c.toNat ∨ 128 ≤ d.toNat
    · exact decodeLoop_quad_error pre rest size fuel _ hquad
    simp only [not_or, Nat.not_le] at hquad
    obtain ⟨ha, hb, hc, hd⟩ := hquad
    have hrest : ¬ ∀ x ∈ rest, x.toNat < 128 := fun hrest ↦ hs <| by
      simp only [List.forall_mem_cons]
      exact ⟨ha, hb, hc, hd, hrest⟩
    obtain ⟨fuel, rfl⟩ : ∃ n, fuel = n + 1 := Nat.exists_eq_succ_of_ne_zero <| by
      simp only [List.length_cons] at hfuel
      omega
    have hnext := ih (length_mod_of_quad hmod) hrest (pre ++ [a, b, c, d]) (done ++ octets a b c d)
      fuel (by simp only [List.length_cons] at hfuel; omega)
    rw [List.append_assoc, List.length_append] at hnext
    rw [decodeLoop_quad pre rest size _ done ha hb hc hd]
    exact hnext
  | case2 s hnil =>
    obtain rfl := eq_nil_of_length hmod hnil
    exact absurd (fun c hc ↦ absurd hc List.not_mem_nil) hs

/-! ## Decoding -/

/-- The size that `decode` takes from the last two characters. -/
def decodedSizeOf (data : Text) : ℕ :=
  let size := data.length / 4 * 3
  let size := if data.getD (data.length - 1) 0 = 61 then size - 1 else size
  if data.getD (data.length - 2) 0 = 61 then size - 1 else size

theorem load_fromEnd {data : Text} {k : ℕ} (hk : 0 < k) (hle : k ≤ data.length) :
    load data (fromEnd data.length k) = .ok (data.getD (data.length - k) 0) := by
  rw [fromEnd, if_pos hle, load_eq_getD (Nat.sub_lt (Nat.lt_of_lt_of_le hk hle) hk)]

theorem decode_eq (n : ℕ) (e : Base64Encoder) {data : Text} (ec : Option ErrorCode)
    (hmod : data.length % 4 = 0) (hne : data ≠ []) :
    e.decode (Tables.after (n + 1)) data ec =
      decodeLoop decodingTable data (decodedSizeOf data) (data.length + 1) 0
          (blockOf (decodedSizeOf data) []) >>=
        fun cells ↦
          .ok ({ e with decodedSize := decodedSizeOf data, decodedData := some cells }, ec) := by
  have hpos : 0 < data.length := List.length_pos_iff.mpr hne
  rw [Base64Encoder.decode, if_neg (not_not.mpr hmod), load_fromEnd (k := 1) (by decide) hpos,
    load_fromEnd (k := 2) (by decide) (by omega), decodingTable_after]
  simp only [ok_bind, pure_eq_ok]
  rw [blockOf_of_le (Nat.zero_le _), front_nil]
  rfl

theorem decode_nil (t : Tables) (e : Base64Encoder) (ec : Option ErrorCode) :
    e.decode t [] ec = .error (.outOfBounds (2 ^ 64 - 1)) := rfl

/-- Whole groups with characters below 128 are all accepted, whatever they are. -/
theorem decode_of_lt (n : ℕ) (e : Base64Encoder) {data : Text} (ec : Option ErrorCode)
    (hmod : data.length % 4 = 0) (hne : data ≠ []) (hlt : ∀ c ∈ data, c.toNat < 128) :
    e.decode (Tables.after (n + 1)) data ec =
      .ok ({ e with
        decodedSize := decodedSizeOf data
        decodedData := some (blockOf (decodedSizeOf data) (octetsOf data)).1 }, ec) := by
  have hloop := decodeLoop_of_lt (decodedSizeOf data) hmod hlt [] [] (Nat.lt_succ_self _)
  rw [List.nil_append, List.nil_append] at hloop
  rw [decode_eq n e ec hmod hne]
  exact congrArg (· >>= _) hloop

theorem decode_of_ge (n : ℕ) (e : Base64Encoder) {data : Text} (ec : Option ErrorCode)
    (hmod : data.length % 4 = 0) (hge : ¬ ∀ c ∈ data, c.toNat < 128) :
    ∃ index, e.decode (Tables.after (n + 1)) data ec = .error (.outOfBounds index) := by
  have hne : data ≠ [] := by
    rintro rfl
    exact hge fun c hc ↦ absurd hc List.not_mem_nil
  obtain ⟨index, hindex⟩ :=
    decodeLoop_of_ge (decodedSizeOf data) hmod hge [] [] (Nat.lt_succ_self _)
  rw [List.nil_append] at hindex
  refine ⟨index, ?_⟩
  rw [decode_eq n e ec hmod hne]
  exact congrArg (· >>= _) hindex

/-! ## There and back -/

theorem base64Alphabet_mem (i : ℕ) : base64Alphabet i ∈ encodingTable := by
  rcases Nat.lt_or_ge i 64 with hlt | hge
  · rw [← encodingTable_getD hlt, List.getD_eq_getElem _ _ hlt]
    exact List.getElem_mem hlt
  · rw [base64Alphabet, if_neg (by omega), if_neg (by omega), if_neg (by omega), if_neg (by omega)]
    decide

/-- `=` is not in the alphabet. -/
theorem pad_notMem_digits (digits : List ℕ) : 61 ∉ digits.map base64Alphabet := by
  intro h
  obtain ⟨i, -, hi⟩ := List.mem_map.mp h
  exact absurd (hi ▸ base64Alphabet_mem i) (by decide)

theorem encode_eq_digits (data : List UInt8) :
    encode data = (digitsOf 6 data).map base64Alphabet ++
      List.replicate (padding data.length) 61 := by
  have hlength : (digitsOf 6 data).length =
      (8 * data.length + missing 6 (8 * data.length)) / 6 := by
    simp only [digitsOf, length_digits, List.length_append, List.length_replicate,
      length_bitString]
  have hpadding : missing 4 (digitsOf 6 data).length = padding data.length := by
    rw [hlength, missing, missing, padding]
    generalize data.length = n
    obtain ⟨q, rfl | rfl | rfl⟩ : ∃ q, n = 3 * q ∨ n = 3 * q + 1 ∨ n = 3 * q + 2 :=
      ⟨n / 3, by omega⟩
    · omega
    · omega
    · omega
  rw [encode_eq_base64, base64, Rfc4648.encode, List.length_map, hpadding]

theorem octets_of_number {w x y z a b c : UInt8} (h : quadNumber w x y z = numberOf [a, b, c]) :
    octets w x y z = [a, b, c] := by
  have ha := a.toNat_lt
  have hb := b.toNat_lt
  have hc := c.toNat_lt
  rw [numberOf_triple] at h
  simp only [octets, h, List.cons.injEq, and_true]
  refine ⟨?_, ?_, ?_⟩ <;> refine UInt8.toNat_inj.mp ?_ <;> simp <;> omega

theorem quad_chars (a b c : UInt8) :
    quad a b c =
      [base64Alphabet (numberOf [a, b, c] / 262144 % 64),
        base64Alphabet (numberOf [a, b, c] / 4096 % 64),
        base64Alphabet (numberOf [a, b, c] / 64 % 64),
        base64Alphabet (numberOf [a, b, c] % 64)] := by
  rw [quad_eq, digits_four]
  rfl

theorem digitValue_digit (n : ℕ) : digitValue (base64Alphabet (n % 64)) = n % 64 :=
  digitValue_alphabet (Nat.mod_lt n (by decide))

/-- The characters of a turn of the encoder have its number. -/
theorem octetsOf_quad (a b c : UInt8) (rest : Text) :
    octetsOf (quad a b c ++ rest) = [a, b, c] ++ octetsOf rest := by
  have ha := a.toNat_lt
  have hb := b.toNat_lt
  have hc := c.toNat_lt
  rw [quad_chars]
  refine congrArg (· ++ octetsOf rest) (octets_of_number ?_)
  simp only [quadNumber, digitValue_digit, numberOf_triple]
  omega

/-- **Decoding what was encoded** gives the octets and a zero for each that is missing. -/
theorem octetsOf_encode (data : List UInt8) :
    octetsOf (encode data) = data ++ List.replicate (padding data.length) 0 := by
  induction data using encodeLoop.induct with
  | case1 => rfl
  | case2 a =>
    have ha := a.toNat_lt
    rw [encode_one, quad_chars]
    refine octets_of_number (a := a) (b := 0) (c := 0) ?_
    simp only [quadNumber, digitValue_digit, digitValue_pad, numberOf_triple, UInt8.toNat_zero]
    omega
  | case3 a b =>
    have ha := a.toNat_lt
    have hb := b.toNat_lt
    rw [encode_two, quad_chars]
    refine octets_of_number (a := a) (b := b) (c := 0) ?_
    simp only [quadNumber, digitValue_digit, digitValue_pad, numberOf_triple, UInt8.toNat_zero]
    omega
  | case4 a b c data ih =>
    have hpadding : padding (a :: b :: c :: data).length = padding data.length :=
      padding_add_three _
    rw [encode_cons, octetsOf_quad, ih, hpadding]
    rfl

theorem getD_append_pad {body : Text} (hbody : 61 ∉ body) {p k : ℕ} (hk : 0 < k)
    (hlength : k ≤ body.length) :
    (body ++ List.replicate p 61).getD ((body ++ List.replicate p 61).length - k) 0 = 61 ↔
      k ≤ p := by
  rw [List.length_append, List.length_replicate, List.getD_eq_getElem?_getD]
  constructor
  · intro h
    by_contra hlt
    rw [List.getElem?_append_left (by omega), List.getElem?_eq_getElem (by omega),
      Option.getD_some] at h
    exact hbody (h ▸ List.getElem_mem _)
  · intro h
    rw [List.getElem?_append_right (by omega), List.getElem?_replicate_of_lt (by omega),
      Option.getD_some]

/-- The size is what is left without the padding. -/
theorem decodedSizeOf_append {body : Text} {p : ℕ} (hbody : 61 ∉ body) (hp : p ≤ 2)
    (hlength : 2 ≤ body.length) :
    decodedSizeOf (body ++ List.replicate p 61) = (body.length + p) / 4 * 3 - p := by
  simp only [decodedSizeOf, getD_append_pad hbody Nat.one_pos (Nat.le_of_succ_le hlength),
    getD_append_pad hbody Nat.two_pos hlength]
  rw [List.length_append, List.length_replicate]
  split <;> split <;> omega

/-- **Decoding is the inverse of encoding.** -/
theorem decode_encode (n : ℕ) (e : Base64Encoder) {data : List UInt8} (ec : Option ErrorCode)
    (hne : data ≠ []) :
    e.decode (Tables.after (n + 1)) (encode data) ec =
      .ok ({ e with
        decodedSize := data.length
        decodedData := some (data.map some) }, ec) := by
  have hpos : 0 < data.length := List.length_pos_iff.mpr hne
  have hlength := length_encode data
  have hmod : (encode data).length % 4 = 0 := by rw [hlength, Nat.mul_mod_right]
  have hlt : ∀ c ∈ encode data, c.toNat < 128 := by
    have hall : ∀ c ∈ encodingTable, c.toNat < 128 := by decide +kernel
    rw [encode_eq_digits]
    intro c hc
    rcases List.mem_append.mp hc with hc | hc
    · obtain ⟨i, -, rfl⟩ := List.mem_map.mp hc
      exact hall _ (base64Alphabet_mem i)
    · rw [List.eq_of_mem_replicate hc]
      decide
  have hsize : decodedSizeOf (encode data) = data.length := by
    rw [encode_eq_digits, List.length_append, List.length_replicate] at hlength
    rw [encode_eq_digits, decodedSizeOf_append (pad_notMem_digits _) (by rw [padding]; omega)
      (by rw [padding] at hlength; omega), hlength, padding]
    omega
  have hblock : (blockOf data.length (octetsOf (encode data))).1 = data.map some := by
    rw [octetsOf_encode, blockOf_of_ge (by rw [List.length_append]; omega), List.take_left, front,
      List.append_nil]
  rw [decode_of_lt n e ec hmod (encode_eq_nil_iff.not.mpr hne) hlt, hsize, hblock]

/-- **Base64 there and back.**  Whatever the object held before, the text has four characters for
every three octets that have begun: the alphabet, then `=` for each octet that is missing, just as
in RFC 4648.  Any object decodes it to the octets and their number. -/
theorem base64_inverse (n : ℕ) (e e' : Base64Encoder) (data : List UInt8)
    (ec ec' : Option ErrorCode) (hne : data ≠ []) :
    ∃ chars : Text,
      e.encode data ec =
        ({ e with encodedSize := chars.length, encodedData := some (chars ++ [0]) }, ec) ∧
      chars.length = 4 * (data.length ⌈/⌉ 3) ∧
      (∃ body, chars = body ++ List.replicate ((3 - data.length % 3) % 3) 61 ∧
        ∀ c ∈ body, c ∈ encodingTable) ∧
      chars = base64 data ∧
      e'.decode (Tables.after (n + 1)) chars ec' =
        .ok ({ e' with
          decodedSize := data.length
          decodedData := some (data.map some) }, ec') := by
  refine ⟨encode data, ?_, ?_, ⟨_, encode_eq_digits data, fun c hc ↦ ?_⟩, encode_eq_base64 data,
    decode_encode n e' ec' hne⟩
  · rw [Base64Encoder.encode, length_encode]
  · rw [length_encode, Nat.ceilDiv_eq_add_pred_div]
    rfl
  · obtain ⟨i, -, rfl⟩ := List.mem_map.mp hc
    exact base64Alphabet_mem i

/-- The octets of `coap` come back. -/
theorem base64_inverse_coap :
    ∃ chars : Text,
      ({} : Base64Encoder).encode [99, 111, 97, 112] none =
        ({ encodedSize := chars.length, encodedData := some (chars ++ [0]) }, none) ∧
      chars.length = 8 ∧
      (∃ body, chars = body ++ List.replicate 2 61 ∧ ∀ c ∈ body, c ∈ encodingTable) ∧
      chars = base64 [99, 111, 97, 112] ∧
      ({} : Base64Encoder).decode (Tables.after 1) chars none =
        .ok ({ decodedSize := 4, decodedData := some ([99, 111, 97, 112].map some) }, none) :=
  base64_inverse 0 {} {} [99, 111, 97, 112] none none (by decide)

end Coap.Base64
