import CoapCpp.CString
import CoapCpp.Message

/-!
# Base64

The class `Base64Encoder` of `src/base64.cc`.  To encode, every three octets give four characters,
and what is missing at the end is read as zeros and then overwritten with `=`.  To decode, every
four characters give three octets; the block for them is shorter by one for each of the last two
characters that is `=`, and what does not fit into it is dropped.

The table for decoding is filled in by the first object that is constructed.
-/

set_option autoImplicit false

namespace Coap.Base64

open CString Memory

/-- `s_modTable` -/
def modTable : List ℕ := [0, 2, 1]

/-- `s_encodingTable`: `A` to `Z`, `a` to `z`, `0` to `9`, `+` and `/`. -/
def encodingTable : List UInt8 :=
  [65, 66, 67, 68, 69, 70, 71, 72, 73, 74, 75, 76, 77, 78, 79, 80,
    81, 82, 83, 84, 85, 86, 87, 88, 89, 90, 97, 98, 99, 100, 101, 102,
    103, 104, 105, 106, 107, 108, 109, 110, 111, 112, 113, 114, 115, 116, 117, 118,
    119, 120, 121, 122, 48, 49, 50, 51, 52, 53, 54, 55, 56, 57, 43, 47]

/-- The character for the six bits of `triple` above bit `shift`. -/
def sextet (triple : UInt32) (shift : UInt32) : UInt8 :=
  encodingTable.getD ((triple >>> shift) &&& 0x3F).toNat 0

/-- One turn of the loop of `encode`. -/
def quad (a b c : UInt8) : Text :=
  let triple := (a.toUInt32 <<< 0x10) + (b.toUInt32 <<< 0x08) + c.toUInt32
  [sextet triple 18, sextet triple 12, sextet triple 6, sextet triple 0]

/-- The loop of `encode`. -/
def encodeLoop : List UInt8 → Text
  | [] => []
  | [a] => quad a 0 0
  | [a, b] => quad a b 0
  | a :: b :: c :: data => quad a b c ++ encodeLoop data

/-- `encode` -/
def encode (data : List UInt8) : Text :=
  let encodedSize := 4 * ((data.length + 2) / 3)
  (List.range (modTable.getD (data.length % 3) 0)).foldl
    (fun chars i ↦ chars.set (encodedSize - 1 - i) 61) (encodeLoop data)

theorem length_encodeLoop (data : List UInt8) :
    (encodeLoop data).length = 4 * ((data.length + 2) / 3) := by
  induction data using encodeLoop.induct with
  | case1 => rfl
  | case2 a => simp [encodeLoop, quad]
  | case3 a b => simp [encodeLoop, quad]
  | case4 a b c data ih =>
    rw [encodeLoop, List.length_append, ih]
    simp only [quad, List.length_cons, List.length_nil]
    omega

theorem length_foldl_set (s : Text) (is : List ℕ) (f : ℕ → ℕ) :
    (is.foldl (fun chars i ↦ chars.set (f i) 61) s).length = s.length := by
  induction is generalizing s with
  | nil => rfl
  | cons i is ih => rw [List.foldl_cons, ih, List.length_set]

theorem length_encode (data : List UInt8) :
    (encode data).length = 4 * ((data.length + 2) / 3) := by
  rw [encode, length_foldl_set, length_encodeLoop]

/-- Only the empty sequence is encoded as the empty text. -/
theorem encode_eq_nil_iff {data : List UInt8} : encode data = [] ↔ data = [] := by
  rw [← List.length_eq_zero_iff, length_encode, ← List.length_eq_zero_iff]
  omega

theorem sextet_ne_zero (triple shift : UInt32) : sextet triple shift ≠ 0 := by
  have hlt : ((triple >>> shift) &&& 0x3F).toNat < 64 := by
    rw [UInt32.toNat_and]
    exact Nat.lt_of_le_of_lt Nat.and_le_right (by decide)
  have hall : ∀ i < 64, encodingTable.getD i 0 ≠ 0 := by decide
  exact hall _ hlt

theorem zero_notMem_encodeLoop (data : List UInt8) : 0 ∉ encodeLoop data := by
  have hquad (a b c : UInt8) : 0 ∉ quad a b c := by
    simp only [quad, List.mem_cons, List.not_mem_nil, or_false, not_or]
    exact ⟨(sextet_ne_zero _ _).symm, (sextet_ne_zero _ _).symm, (sextet_ne_zero _ _).symm,
      (sextet_ne_zero _ _).symm⟩
  induction data using encodeLoop.induct with
  | case1 => exact List.not_mem_nil
  | case2 a => exact hquad a 0 0
  | case3 a b => exact hquad a b 0
  | case4 a b c data ih =>
    rw [encodeLoop, List.mem_append, not_or]
    exact ⟨hquad a b c, ih⟩

theorem zero_notMem_encode (data : List UInt8) : 0 ∉ encode data := by
  have hset (s : Text) (is : List ℕ) (f : ℕ → ℕ) (h : 0 ∉ s) :
      0 ∉ is.foldl (fun chars i ↦ chars.set (f i) 61) s := by
    induction is generalizing s with
    | nil => exact h
    | cons i is ih =>
      refine ih _ fun hmem ↦ ?_
      rcases List.mem_or_eq_of_mem_set hmem with hmem | heq
      · exact h hmem
      · exact absurd heq (by decide)
  exact hset _ _ _ (zero_notMem_encodeLoop data)

/-! ## Decoding -/

/-- The static members that change. -/
structure Tables where
  decTableInited : Bool := false
  /-- `s_decodingTable` -/
  decodingTable : List UInt8 := List.replicate 256 0
deriving DecidableEq, Repr

/-- `decoding_table_init` -/
def Tables.decodingTableInit (t : Tables) : Tables :=
  { t with
    decodingTable := (List.range 64).foldl
      (fun table i ↦ table.set (encodingTable.getD i 0).toNat i.toUInt8) t.decodingTable }

/-- `Base64Encoder`; a block that was not allocated is `none`. -/
structure Base64Encoder where
  encodedSize : ℕ := 0
  decodedSize : ℕ := 0
  encodedData : Option Text := none
  decodedData : Option (Cells UInt8) := none
deriving DecidableEq, Repr

/-- `Base64Encoder()` -/
def construct (t : Tables) : Base64Encoder × Tables :=
  if !t.decTableInited then ({}, { t.decodingTableInit with decTableInited := true }) else ({}, t)

/-- The static members when `n` objects have been constructed. -/
def Tables.after : ℕ → Tables
  | 0 => {}
  | n + 1 => (construct (after n)).2

/-- `s_decodingTable[c]` for a `char`, which is signed; behind a negative index is no cell. -/
def lookup (table : List UInt8) (c : UInt8) : Except Fault UInt32 :=
  let index := c.toInt8.toInt
  if index < 0 then .error (.outOfBounds (2 ^ 64 + index).toNat)
  else (load table index.toNat).map UInt8.toUInt32

/-- `data[i] == '=' ? 0 & i++ : s_decodingTable[data[i++]]`: what it gives, and `i`. -/
def readSextet (table : List UInt8) (data : Text) (i : ℕ) : Except Fault (UInt32 × ℕ) := do
  let c ← load data i
  if c = 61 then return (0, i + 1)
  else
    let x ← lookup table c
    return (x, i + 1)

/-- `if (j < m_decodedSize) m_decodedData[j++] = octet`: the block, and `j`. -/
def putOctet (size : ℕ) (block : Cells UInt8 × ℕ) (octet : UInt8) :
    Except Fault (Cells UInt8 × ℕ) := do
  if block.2 < size then
    let cells ← store block.1 block.2 octet
    return (cells, block.2 + 1)
  else return block

/-- The loop of `decode`. -/
def decodeLoop (table : List UInt8) (data : Text) (size : ℕ) :
    ℕ → ℕ → Cells UInt8 × ℕ → Except Fault (Cells UInt8)
  | 0, _, _ => .error .outOfFuel
  | fuel + 1, i, block => do
    if i < data.length then
      let (a, i) ← readSextet table data i
      let (b, i) ← readSextet table data i
      let (c, i) ← readSextet table data i
      let (d, i) ← readSextet table data i
      let triple := (a <<< 18) + (b <<< 12) + (c <<< 6) + (d <<< 0)
      let block ← putOctet size block ((triple >>> 16) &&& 0xFF).toUInt8
      let block ← putOctet size block ((triple >>> 8) &&& 0xFF).toUInt8
      let block ← putOctet size block ((triple >>> 0) &&& 0xFF).toUInt8
      decodeLoop table data size fuel i block
    else return block.1

/-- `length - k`, which wraps around for a length below `k`. -/
def fromEnd (length k : ℕ) : ℕ := if k ≤ length then length - k else 2 ^ 64 - (k - length)

namespace Base64Encoder

/-- The member function `encode`; the text has its terminator behind it. -/
def encode (e : Base64Encoder) (data : List UInt8) (ec : Option ErrorCode) :
    Base64Encoder × Option ErrorCode :=
  ({ e with
    encodedSize := 4 * ((data.length + 2) / 3)
    encodedData := some (Base64.encode data ++ [0]) }, ec)

/-- The member function `decode`. -/
def decode (t : Tables) (e : Base64Encoder) (data : Text) (ec : Option ErrorCode) :
    Except Fault (Base64Encoder × Option ErrorCode) := do
  if data.length % 4 ≠ 0 then return (e, some (.system .einval))
  else
    let size := data.length / 4 * 3
    let last ← load data (fromEnd data.length 1)
    let size := if last = 61 then size - 1 else size
    let previous ← load data (fromEnd data.length 2)
    let size := if previous = 61 then size - 1 else size
    let cells ← decodeLoop t.decodingTable data size (data.length + 1) 0
      (List.replicate size none, 0)
    return ({ e with decodedSize := size, decodedData := some cells }, ec)

end Base64Encoder

end Coap.Base64
