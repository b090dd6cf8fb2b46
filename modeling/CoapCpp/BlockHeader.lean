import CoapCpp.Blockwise
import CoapCpp.Options
import CoapCpp.Uri

/-!
# The header of a block-wise request

`set_header` and `get_header` of `Block1` and `Block2`, which differ in the number of their option
only.  `set_header` replaces the options of a packet by a port, a path and a block option;
`setHeader_spec` says so as an instance of the option store (`Holds`).

* `survives_iff`: which block numbers reach the other side.
* `addressesResource_iff`: for which paths the packet addresses the resource it was given.
-/

set_option autoImplicit false

namespace Coap

open CString Memory

/-! ## The code -/

/-- The two bytes of `htons(port)`, which are in network byte order on every host. -/
def htons (port : UInt16) : List UInt8 :=
  [UInt8.ofNat (port.toNat / 256), UInt8.ofNat (port.toNat % 256)]

/-- The loop of `set_header` over the segments of the path, which gets the sorts from number `i`
on. -/
def addUriPath (S : ℕ → StdSort) : ℕ → List Text → Packet → Except Fault (Packet × Bool)
  | _, [], pack => return (pack, true)
  | i, opt :: opts, pack => do
    let (pack, ec) ← pack.addOption (S i) uriPath (some opt) opt.length
    if ec.isSome then
      return (pack, false)
    addUriPath S (i + 1) opts pack

/-- The number of the block option of `Block1` and of `Block2`. -/
def blockOptionNumber (isBlock1 : Bool) : ℕ := if isBlock1 then block1 else block2

namespace Blockwise

/-- What `set_header` does for the first block. -/
def firstBlock (obj : Blockwise) : Blockwise :=
  if obj.number = 0 then
    { obj with size := if obj.size = 0 then blockSizeDefault else obj.size, offset := 0 }
  else obj

/-- `set_header`, with the sorts its calls of `add_option` use. -/
def setHeader (S : ℕ → StdSort) (obj : Blockwise) (isBlock1 : Bool) (port : UInt16)
    (path : UriPath) (pack : Packet) : Except Fault (Blockwise × Packet × Bool) := do
  let pack := { pack with options := [] }
  let (pack, ec) ← pack.addOption (S 0) uriPort (some (htons port)) 2
  if ec.isSome then
    return (obj, pack, false)
  let (pack, ok) ← addUriPath S 1 path.uri.asString pack
  if !ok then
    return (obj, pack, false)
  let obj := obj.firstBlock
  let (opt, ok) :=
    obj.encodeBlockOption { number := UInt16.ofNat (blockOptionNumber isBlock1) }
  if !ok then
    return (obj, pack, false)
  let (pack, ec) ← pack.addOption (S (path.uri.asString.length + 1)) opt.number.toNat
    (some opt.value) opt.value.length
  if ec.isSome then
    return (obj, pack, false)
  return (obj, pack, true)

/-- `get_header`: the object, the packet, whose options are sorted, and the result. -/
def getHeader (S : StdSort) (obj : Blockwise) (isBlock1 : Bool) (pack : Packet) :
    Blockwise × Packet × Bool :=
  let (pack, quantity, options) :=
    pack.findOption S (UInt16.ofNat (blockOptionNumber isBlock1)) []
  if quantity = 0 then (obj, pack, false)
  else if options.length > 1 then (obj, pack, false)
  else
    let opt := pack.options.getD (options.headD 0) {}
    let (obj, ok) := obj.decodeBlockOption opt
    (obj, pack, ok)

end Blockwise

/-! ## Filling the packet -/

/-- A valid call of `add_option` adds to what the packet holds. -/
theorem holds_addOption {q p : Packet} {added : List CoapOption} (h : Holds q added p)
    (S : StdSort) {number : ℕ} {value : List UInt8} (hnumber : number ≤ optionMaxNumber)
    (hlength : value.length ≤ optionMaxLength) :
    ∃ p', p.addOption S number (some value) value.length = .ok (p', none) ∧
      p'.options = S.sort (p.options ++ [addedOption number value]) ∧
      Holds q (added ++ [addedOption number value]) p' := by
  have hcall := p.addOption_eq S hnumber hlength (Nat.le_refl _)
  rw [List.take_length] at hcall
  refine ⟨_, hcall, rfl, S.ascend _, (S.perm _).trans (h.perm.append_right _), ?_⟩
  rw [h.frame]

theorem uriPath_le : uriPath ≤ optionMaxNumber := by decide

/-- The loop over the segments adds one option for each of them. -/
theorem holds_addUriPath {q p : Packet} {added : List CoapOption} (h : Holds q added p)
    (S : ℕ → StdSort) (i : ℕ) {opts : List Text}
    (hlength : ∀ opt ∈ opts, opt.length ≤ optionMaxLength) :
    ∃ p', addUriPath S i opts p = .ok (p', true) ∧
      Holds q (added ++ opts.map (addedOption uriPath)) p' := by
  induction opts generalizing i p added with
  | nil => exact ⟨p, rfl, by simpa using h⟩
  | cons opt opts ih =>
    obtain ⟨p₁, hcall, -, h₁⟩ := holds_addOption h (S i) uriPath_le
      (hlength opt List.mem_cons_self)
    obtain ⟨p₂, hrest, h₂⟩ := ih h₁ (i + 1) fun o ho ↦ hlength o (List.mem_cons_of_mem _ ho)
    refine ⟨p₂, ?_, ?_⟩
    · rw [addUriPath, hcall, ok_bind]
      exact hrest
    · rw [List.map_cons, ← List.singleton_append, ← List.append_assoc]
      exact h₂

theorem addUriPath_of_lt (S : ℕ → StdSort) (i : ℕ) {q p : Packet} {added : List CoapOption}
    (h : Holds q added p) {opts : List Text} (hlong : ∃ opt ∈ opts, optionMaxLength < opt.length) :
    addUriPath S i opts p = .error .assertion := by
  induction opts generalizing i p added with
  | nil => simp at hlong
  | cons opt opts ih =>
    by_cases hlength : opt.length ≤ optionMaxLength
    · obtain ⟨p₁, hcall, -, h₁⟩ := holds_addOption h (S i) uriPath_le hlength
      obtain ⟨o, ho, hlt⟩ := hlong
      have hmem : o ∈ opts := by
        rcases List.mem_cons.mp ho with rfl | ho
        · omega
        · exact ho
      rw [addUriPath, hcall, ok_bind]
      exact ih (i + 1) h₁ ⟨o, hmem, hlt⟩
    · rw [addUriPath, Packet.addOption]
      simp [decide_eq_false hlength]

/-- The options of a block-wise request: port, path and block option. -/
def headerOptions (isBlock1 : Bool) (port : UInt16) (path : List Text) (value : List UInt8) :
    List CoapOption :=
  addedOption uriPort (htons port) :: (path.map (addedOption uriPath) ++
    [addedOption (blockOptionNumber isBlock1) value])

/-- The option `set_header` hands to `encode_block_option`. -/
def emptyBlockOption (isBlock1 : Bool) : CoapOption :=
  { number := UInt16.ofNat (blockOptionNumber isBlock1) }

theorem isBlockOption_empty (isBlock1 : Bool) :
    Blockwise.IsBlockOption (emptyBlockOption isBlock1) := by
  cases isBlock1 <;> decide

namespace Blockwise

/-- **What `set_header` does.**  With segments that fit an option it returns what
`encode_block_option` returns, and if that is true the packet holds port, path and block option, as
the last sort leaves them. -/
theorem setHeader_spec (S : ℕ → StdSort) (obj : Blockwise) (isBlock1 : Bool) (port : UInt16)
    {path : UriPath} (pack : Packet)
    (hshort : ∀ opt ∈ path.uri.asString, opt.length ≤ optionMaxLength) :
    ∃ p', setHeader S obj isBlock1 port path pack = .ok
        (obj.firstBlock, p', (obj.firstBlock.encodeBlockOption (emptyBlockOption isBlock1)).2) ∧
      ((obj.firstBlock.encodeBlockOption (emptyBlockOption isBlock1)).2 = true →
        Holds { pack with options := [] } (headerOptions isBlock1 port path.uri.asString
            (obj.firstBlock.encodeBlockOption (emptyBlockOption isBlock1)).1.value) p' ∧
          ∃ l, p'.options = (S (path.uri.asString.length + 1)).sort l) := by
  have hport : uriPort ≤ optionMaxNumber := by decide
  have htwo : (htons port).length ≤ optionMaxLength := Nat.le_of_ble_eq_true rfl
  obtain ⟨p₁, hcall₁, -, h₁⟩ :=
    holds_addOption (holds_self (q := { pack with options := [] }) rfl) (S 0) hport htwo
  obtain ⟨p₂, hcall₂, h₂⟩ := holds_addUriPath h₁ S 1 hshort
  rw [show (htons port).length = 2 from rfl] at hcall₁
  simp only [setHeader, hcall₁, ok_bind, Option.isSome_none, Bool.false_eq_true, if_false, hcall₂,
    Bool.not_true]
  by_cases hfits : obj.firstBlock.size.toNat % 16 = 0 ∧
      obj.firstBlock.size.toNat ≤ blockMaxSize ∧ obj.firstBlock.number.toNat < maxBlocks
  swap
  · have hrefuse := encodeBlockOption_of_not obj.firstBlock
      (emptyBlockOption isBlock1) fun hall ↦ hfits hall.2
    refine ⟨p₂, ?_, fun hret ↦ ?_⟩
    · rw [← emptyBlockOption, hrefuse]
      rfl
    · rw [hrefuse] at hret
      cases hret
  obtain ⟨hmod, hle, hlt⟩ := hfits
  obtain ⟨pushed, hpushed, k, hk, hnumber⟩ := exists_blockNumber obj.firstBlock.littleEndian hlt
  have haccept := encodeBlockOption_eq (isBlockOption_empty isBlock1) ⟨hmod, hle⟩ hk hnumber
  have hblock : blockOptionNumber isBlock1 ≤ optionMaxNumber := by cases isBlock1 <;> decide
  have hnum : (emptyBlockOption isBlock1).number.toNat = blockOptionNumber isBlock1 := by
    cases isBlock1 <;> rfl
  have hvalue : ∀ last : UInt8, ((emptyBlockOption isBlock1).value ++ pushed ++ [last]).length ≤
      optionMaxLength := by
    intro last
    simp only [emptyBlockOption, List.nil_append, List.length_append, List.length_singleton]
    exact (Nat.succ_le_succ hpushed).trans (by decide)
  rw [← emptyBlockOption, haccept]
  obtain ⟨p₃, hcall₃, hsorted, h₃⟩ :=
    holds_addOption h₂ (S (path.uri.asString.length + 1)) hblock (hvalue _)
  refine ⟨p₃, ?_, fun _ ↦ ?_⟩
  · simp only [Bool.not_true, Bool.false_eq_true, if_false, hnum]
    rw [hcall₃]
    rfl
  · rw [List.nil_append, List.append_assoc] at h₃
    exact ⟨h₃, _, hsorted⟩

theorem setHeader_of_lt (S : ℕ → StdSort) (obj : Blockwise) (isBlock1 : Bool) (port : UInt16)
    {path : UriPath} (pack : Packet)
    (hlong : ∃ opt ∈ path.uri.asString, optionMaxLength < opt.length) :
    setHeader S obj isBlock1 port path pack = .error .assertion := by
  have hport : uriPort ≤ optionMaxNumber := by decide
  have htwo : (htons port).length ≤ optionMaxLength := Nat.le_of_ble_eq_true rfl
  obtain ⟨p₁, hcall₁, -, h₁⟩ :=
    holds_addOption (holds_self (q := { pack with options := [] }) rfl) (S 0) hport htwo
  rw [show (htons port).length = 2 from rfl] at hcall₁
  simp only [setHeader, hcall₁, ok_bind, Option.isSome_none, Bool.false_eq_true, if_false,
    addUriPath_of_lt S 1 h₁ hlong, error_bind]

/-! ## Reading it back -/

theorem filter_headerOptions (isBlock1 : Bool) (port : UInt16) (path : List Text)
    (value : List UInt8) :
    ((headerOptions isBlock1 port path value).filter fun o ↦
      o.number = UInt16.ofNat (blockOptionNumber isBlock1)) =
      [addedOption (blockOptionNumber isBlock1) value] := by
  have hport : (addedOption uriPort (htons port)).number ≠
      UInt16.ofNat (blockOptionNumber isBlock1) := by
    show UInt16.ofNat uriPort ≠ _
    cases isBlock1 <;> decide
  have hpath : ∀ o ∈ path.map (addedOption uriPath), o.number ≠
      UInt16.ofNat (blockOptionNumber isBlock1) := by
    intro o ho
    obtain ⟨s, -, rfl⟩ := List.mem_map.mp ho
    show UInt16.ofNat uriPath ≠ _
    cases isBlock1 <;> decide
  have hnone : ((path.map (addedOption uriPath)).filter fun o ↦
      o.number = UInt16.ofNat (blockOptionNumber isBlock1)) = [] :=
    List.filter_eq_nil_iff.mpr fun o ho ↦ by simpa using hpath o ho
  rw [headerOptions, List.filter_cons_of_neg (by simpa using hport), List.filter_append, hnone,
    List.nil_append]
  exact List.filter_cons_of_pos (decide_eq_true rfl)

/-- **What `get_header` does** with a packet that has one option of its number: it decodes this
option. -/
theorem getHeader_of_filter (T : StdSort) (obj : Blockwise) {isBlock1 : Bool} {p : Packet}
    {o : CoapOption}
    (h : (p.options.filter fun o ↦ o.number = UInt16.ofNat (blockOptionNumber isBlock1)) = [o]) :
    (obj.getHeader T isBlock1 p).1 = (obj.decodeBlockOption o).1 ∧
      (obj.getHeader T isBlock1 p).2.2 = (obj.decodeBlockOption o).2 := by
  have hfilter : ((T.sort p.options).filter fun o ↦
      o.number = UInt16.ofNat (blockOptionNumber isBlock1)) = [o] := by
    have hperm := (T.perm p.options).filter fun o ↦
      decide (o.number = UInt16.ofNat (blockOptionNumber isBlock1))
    rw [h] at hperm
    exact List.perm_singleton.mp hperm
  have hfound := found_spec (UInt16.ofNat (blockOptionNumber isBlock1)) (T.ascend p.options)
  have hquantity : (p.findOption T (UInt16.ofNat (blockOptionNumber isBlock1)) []).2.1 = 1 := by
    refine hfound.quantity.trans ?_
    rw [List.countP_eq_length_filter, hfilter]
    rfl
  have hrefs := map_findOption T p (UInt16.ofNat (blockOptionNumber isBlock1)) []
  rw [hfilter] at hrefs
  have hlength :
      (p.findOption T (UInt16.ofNat (blockOptionNumber isBlock1)) []).2.2.length = 1 := by
    have := congrArg List.length hrefs
    rwa [List.length_map, List.length_map] at this
  obtain ⟨i, hi⟩ := List.length_eq_one_iff.mp hlength
  rw [hi, List.map_singleton, List.map_singleton] at hrefs
  have hopt := List.head_eq_of_cons_eq hrefs
  simp only [getHeader, hquantity, hi, List.length_singleton, List.headD_cons, List.getD, hopt]
  exact ⟨rfl, rfl⟩

theorem filter_of_holds {isBlock1 : Bool} {q p : Packet} {port : UInt16} {path : List Text}
    {value : List UInt8} (h : Holds q (headerOptions isBlock1 port path value) p) :
    (p.options.filter fun o ↦ o.number = UInt16.ofNat (blockOptionNumber isBlock1)) =
      [addedOption (blockOptionNumber isBlock1) value] := by
  have hperm := h.perm.filter fun o ↦
    decide (o.number = UInt16.ofNat (blockOptionNumber isBlock1))
  rw [filter_headerOptions] at hperm
  exact List.perm_singleton.mp hperm

theorem getHeader_spec (T : StdSort) (obj : Blockwise) {isBlock1 : Bool} {q p : Packet}
    {port : UInt16} {path : List Text} {value : List UInt8}
    (h : Holds q (headerOptions isBlock1 port path value) p) :
    (obj.getHeader T isBlock1 p).1 =
        (obj.decodeBlockOption (addedOption (blockOptionNumber isBlock1) value)).1 ∧
      (obj.getHeader T isBlock1 p).2.2 =
        (obj.decodeBlockOption (addedOption (blockOptionNumber isBlock1) value)).2 :=
  obj.getHeader_of_filter T (filter_of_holds h)

/-! ## What reaches the other side -/

/-- A block header that is set by `sender` reaches every receiver. -/
def Survives (sender : Blockwise) (isBlock1 : Bool) (port : UInt16) (path : UriPath)
    (pack : Packet) : Prop :=
  ∀ (S : ℕ → StdSort) (T : StdSort) (receiver : Blockwise), receiver.littleEndian = true →
    ∃ sender' p', sender.setHeader S isBlock1 port path pack = .ok (sender', p', true) ∧
      (receiver.getHeader T isBlock1 p').2.2 = true ∧
      (receiver.getHeader T isBlock1 p').1.number = sender.number ∧
      (receiver.getHeader T isBlock1 p').1.size = sender.size ∧
      (receiver.getHeader T isBlock1 p').1.more = sender.more

theorem firstBlock_eq {obj : Blockwise} (h : IsBlockSize obj.size.toNat) :
    obj.firstBlock = { obj with offset := if obj.number = 0 then 0 else obj.offset } := by
  have hne : obj.size ≠ 0 := by
    intro h0
    rw [h0] at h
    exact absurd h (by decide)
  by_cases h0 : obj.number = 0
  · simp [firstBlock, h0, hne]
  · simp [firstBlock, h0]

/-- The block number that arrives on a little-endian host. -/
def arrivingNumber (n : ℕ) : ℕ := if n < 4096 then n else n % 256 * 4096 + n / 256

theorem arrivingNumber_lt {n : ℕ} (h : n < maxBlocks) : arrivingNumber n < 2 ^ 32 := by
  rw [maxBlocks] at h
  rw [arrivingNumber]
  split <;> omega

theorem getHeader_setHeader {sender : Blockwise} (hle : sender.littleEndian = true)
    (hnumber : sender.number.toNat < maxBlocks) (hsize : IsBlockSize sender.size.toNat)
    {path : UriPath} (hshort : ∀ opt ∈ path.uri.asString, opt.length ≤ optionMaxLength)
    (isBlock1 : Bool) (port : UInt16) (pack : Packet) (S : ℕ → StdSort) (T : StdSort)
    {receiver : Blockwise} (hreceiver : receiver.littleEndian = true) :
    ∃ sender' p', sender.setHeader S isBlock1 port path pack = .ok (sender', p', true) ∧
      (receiver.getHeader T isBlock1 p').2.2 = true ∧
      (receiver.getHeader T isBlock1 p').1.number =
        UInt32.ofNat (arrivingNumber sender.number.toNat) ∧
      (receiver.getHeader T isBlock1 p').1.size = sender.size ∧
      (receiver.getHeader T isBlock1 p').1.more = sender.more := by
  have hfirst := firstBlock_eq hsize
  obtain ⟨pushed, hpushed, k, hk, hbytes⟩ := exists_blockNumber true hnumber
  obtain ⟨s, hs⟩ := isBlockSize_iff.mp hsize
  have haccept := encodeBlockOption_eq (b := sender.firstBlock) (isBlockOption_empty isBlock1)
    (by rw [hfirst]; exact hsize.multiple) hk (by rw [hfirst, hle]; exact hbytes)
  obtain ⟨p', hset, hholds⟩ := sender.setHeader_spec S isBlock1 port pack hshort
  rw [haccept] at hset hholds
  obtain ⟨hstate, hret⟩ := receiver.getHeader_spec T (hholds rfl).1
  have hoption : IsBlockOption (addedOption (blockOptionNumber isBlock1)
      (pushed ++ [UInt8.ofNat (16 * k + (if sender.more then 8 else 0) + s.value)])) := by
    cases isBlock1
    · exact .inr rfl
    · exact .inl rfl
  have hdecode := receiver.decodeBlockOption_eq hoption hk hpushed rfl
  have hvalue : (emptyBlockOption isBlock1).value ++ pushed ++ [UInt8.ofNat (16 * k +
      (if sender.firstBlock.more then 8 else 0) +
        (sizeToSizeoption sender.firstBlock.size.toNat).value)] =
      pushed ++ [UInt8.ofNat (16 * k + (if sender.more then 8 else 0) + s.value)] := by
    rw [hfirst]
    show [] ++ pushed ++ _ = _
    rw [List.nil_append, ← hs, sizeToSizeoption_size]
  rw [hvalue, hdecode] at hstate hret
  have hf : (if sender.more then 8 else 0) + s.value < 16 := by
    have hv : s.value < 7 := by cases s <;> decide
    split <;> omega
  have harrive := decodedNumber_blockNumber hnumber hk hf hbytes
  refine ⟨_, p', hset, hret, ?_, ?_, ?_⟩
  · rw [hstate, hreceiver]
    show UInt32.ofNat (decodedNumber true (pushed ++ [_])) = _
    rw [Nat.add_assoc, harrive, arrivingNumber]
  · rw [hstate]
    show UInt16.ofNat s.size = _
    rw [hs, UInt16.ofNat_toNat]
  · rw [hstate]

/-- A header that reaches the other side arrives with its number. -/
theorem arrivingNumber_of_survives {sender : Blockwise} (hle : sender.littleEndian = true)
    (hnumber : sender.number.toNat < maxBlocks) (hsize : IsBlockSize sender.size.toNat)
    {path : UriPath} (hshort : ∀ opt ∈ path.uri.asString, opt.length ≤ optionMaxLength)
    {isBlock1 : Bool} {port : UInt16} {pack : Packet}
    (h : Survives sender isBlock1 port path pack) :
    UInt32.ofNat (arrivingNumber sender.number.toNat) = sender.number := by
  have hreceiver : ({ littleEndian := true } : Blockwise).littleEndian = true := rfl
  obtain ⟨_, p', hset, -, hnum, -⟩ := h (fun _ ↦ .stable _) (.stable _) _ hreceiver
  obtain ⟨_, p'', hset', -, hnum', -⟩ := getHeader_setHeader hle hnumber hsize hshort isBlock1
    port pack (fun _ ↦ .stable _) (.stable _) hreceiver
  rw [hset] at hset'
  cases hset'
  rw [← hnum', hnum]

/-- **Which block headers reach the other side.**  On little-endian hosts, those with a block number
below 4096 or one of the 16 numbers whose bytes may be rotated, if the segments of the path fit an
option. -/
theorem survives_iff {sender : Blockwise} (hle : sender.littleEndian = true)
    (hnumber : sender.number.toNat < maxBlocks) (hsize : IsBlockSize sender.size.toNat)
    (isBlock1 : Bool) (port : UInt16) (path : UriPath) (pack : Packet) :
    Survives sender isBlock1 port path pack ↔
      (∀ opt ∈ path.uri.asString, opt.length ≤ optionMaxLength) ∧
        (sender.number.toNat < 4096 ∨ 69905 ∣ sender.number.toNat) := by
  by_cases hshort : ∀ opt ∈ path.uri.asString, opt.length ≤ optionMaxLength
  swap
  · refine iff_of_false (fun h ↦ ?_) fun h ↦ hshort h.1
    push Not at hshort
    obtain ⟨sender', p', hset, -⟩ :=
      h (fun _ ↦ .stable _) (.stable _) { littleEndian := true } rfl
    rw [setHeader_of_lt _ _ _ _ _ hshort] at hset
    cases hset
  have harrive : UInt32.ofNat (arrivingNumber sender.number.toNat) = sender.number ↔
      sender.number.toNat < 4096 ∨ 69905 ∣ sender.number.toNat := by
    rw [← UInt32.toNat_inj, UInt32.toNat_ofNat', Nat.mod_eq_of_lt (arrivingNumber_lt hnumber),
      arrivingNumber, ← rotated_eq_iff hnumber]
    split
    · simp [*]
    · simp [*]
  rw [← harrive]
  constructor
  · exact fun h ↦ ⟨hshort, arrivingNumber_of_survives hle hnumber hsize hshort h⟩
  · rintro ⟨-, hnum⟩ S T receiver hreceiver
    obtain ⟨sender', p', hset, hret, hn, hs, hm⟩ := getHeader_setHeader hle hnumber hsize hshort
      isBlock1 port pack S T hreceiver
    exact ⟨sender', p', hset, hret, hn.trans hnum, hs, hm⟩

/-- Block 5 of a transfer to the path `/a` arrives. -/
theorem survives_five : Survives { number := 5, size := 64, more := true, littleEndian := true }
    true 5683 { uri := { type := .string, asString := [[97]] } } (Packet.fresh true) := by
  refine (survives_iff rfl (by decide) (by decide) _ _ _ _).mpr ⟨?_, .inl (by decide)⟩
  simp

/-- Block 4096 arrives as block 16. -/
theorem not_survives_4096 : ¬ Survives { number := 4096, size := 64, littleEndian := true }
    true 5683 { uri := { type := .string, asString := [[97]] } } (Packet.fresh true) := by
  intro h
  exact absurd (arrivingNumber_of_survives rfl (by decide) (by decide) (by simp) h) (by decide)

/-! ## Addressing a resource -/

/-- Every block-wise request that is built for `u` addresses the resource `path`: its options are
the port, the segments of the path in order, and the block option. -/
def AddressesResource (path : Text) (u : UriPath) : Prop :=
  ∀ (S : ℕ → StdSort) (obj : Blockwise) (isBlock1 : Bool) (port : UInt16) (pack : Packet)
    (obj' : Blockwise) (p' : Packet), obj.setHeader S isBlock1 port u pack = .ok (obj', p', true) →
    ∃ value, p'.options = headerOptions isBlock1 port (segments path) value

/-- The options of a request are in ascending order as they stand. -/
theorem keysAscend_headerOptions (isBlock1 : Bool) (port : UInt16) (path : List Text)
    (value : List UInt8) : KeysAscend optionKey (headerOptions isBlock1 port path value) := by
  have hblock : uriPath ≤ optionKey (addedOption (blockOptionNumber isBlock1) value) := by
    cases isBlock1 <;> exact Nat.le_of_ble_eq_true rfl
  have hport : optionKey (addedOption uriPort (htons port)) ≤ uriPath :=
    Nat.le_of_ble_eq_true rfl
  have hpath : ∀ o ∈ path.map (addedOption uriPath), optionKey o = uriPath := by
    intro o ho
    obtain ⟨s, -, rfl⟩ := List.mem_map.mp ho
    rfl
  refine List.pairwise_cons.mpr ⟨fun o ho ↦ ?_, List.pairwise_append.mpr ⟨?_, ?_, ?_⟩⟩
  · rcases List.mem_append.mp ho with ho | ho
    · exact hport.trans (hpath o ho).ge
    · rw [List.mem_singleton.mp ho]
      exact hport.trans hblock
  · exact List.pairwise_of_forall_mem_list fun a ha b hb ↦ ((hpath a ha).trans (hpath b hb).symm).le
  · exact List.pairwise_singleton _ _
  · intro a ha b hb
    rw [List.mem_singleton.mp hb]
    exact (hpath a ha).trans_le hblock

/-- The segments of the path are the options with its number. -/
theorem filter_uriPath_headerOptions (isBlock1 : Bool) (port : UInt16) (path : List Text)
    (value : List UInt8) :
    (headerOptions isBlock1 port path value).filter (fun o ↦ optionKey o = uriPath) =
      path.map (addedOption uriPath) := by
  have hport : optionKey (addedOption uriPort (htons port)) ≠ uriPath :=
    Nat.ne_of_beq_eq_false rfl
  have hblock : optionKey (addedOption (blockOptionNumber isBlock1) value) ≠ uriPath := by
    cases isBlock1 <;> exact Nat.ne_of_beq_eq_false rfl
  have hpath : (path.map (addedOption uriPath)).filter (fun o ↦ optionKey o = uriPath) =
      path.map (addedOption uriPath) := by
    refine List.filter_eq_self.mpr fun o ho ↦ ?_
    obtain ⟨s, -, rfl⟩ := List.mem_map.mp ho
    rfl
  rw [headerOptions, List.filter_cons_of_neg (by simpa using hport), List.filter_append, hpath,
    List.filter_cons_of_neg (by simpa using hblock), List.filter_nil, List.append_nil]

/-- If the segments are all alike, the options with one number are. -/
theorem eq_of_mem_headerOptions {isBlock1 : Bool} {port : UInt16} {path : List Text}
    {value : List UInt8} (h : ∀ s ∈ path, ∀ t ∈ path, s = t) :
    ∀ a ∈ headerOptions isBlock1 port path value, ∀ b ∈ headerOptions isBlock1 port path value,
      optionKey a = optionKey b → a = b := by
  intro a ha b hb hkey
  simp only [headerOptions, List.mem_cons, List.mem_append, List.mem_map, List.not_mem_nil,
    or_false] at ha hb
  have hports : uriPort ≠ blockOptionNumber isBlock1 ∧ uriPath ≠ blockOptionNumber isBlock1 := by
    cases isBlock1 <;> decide
  have hnumber (v : List UInt8) :
      optionKey (addedOption (blockOptionNumber isBlock1) v) = blockOptionNumber isBlock1 := by
    cases isBlock1 <;> rfl
  have huriPort : optionKey (addedOption uriPort (htons port)) = uriPort := rfl
  have huriPath (s : Text) : optionKey (addedOption uriPath s) = uriPath := rfl
  have hdiffer : uriPort ≠ uriPath := by decide
  rcases ha with rfl | ⟨s, hs, rfl⟩ | rfl <;> rcases hb with rfl | ⟨t, ht, rfl⟩ | rfl <;>
    simp only [hnumber, huriPort, huriPath] at hkey
  · rfl
  · exact absurd hkey hdiffer
  · exact absurd hkey hports.1
  · exact absurd hkey.symm hdiffer
  · rw [h s hs t ht]
  · exact absurd hkey hports.2
  · exact absurd hkey.symm hports.1
  · exact absurd hkey.symm hports.2
  · rfl

/-- A request may be built with its options in any sorted order. -/
theorem exists_setHeader {u : UriPath}
    (hshort : ∀ opt ∈ u.uri.asString, opt.length ≤ optionMaxLength) :
    ∃ value, ∀ target, KeysAscend optionKey target →
      (headerOptions true 5683 u.uri.asString value).Perm target →
      ∃ (S : ℕ → StdSort) (obj' : Blockwise) (p' : Packet),
        setHeader S { littleEndian := true } true 5683 u (Packet.fresh true) =
          .ok (obj', p', true) ∧ p'.options = target := by
  refine ⟨((firstBlock { littleEndian := true }).encodeBlockOption
    (emptyBlockOption true)).1.value, fun target htarget hperm ↦ ?_⟩
  obtain ⟨p', hset, hholds⟩ := setHeader_spec (fun _ ↦ KeySort.toward optionKey htarget)
    { littleEndian := true } true 5683 (Packet.fresh true) hshort
  have hencode : ((firstBlock { littleEndian := true }).encodeBlockOption
      (emptyBlockOption true)).2 = true := by decide
  obtain ⟨hp', l, hl⟩ := hholds hencode
  rw [hencode] at hset
  refine ⟨_, _, p', hset, ?_⟩
  have hsorted : l.Perm target := by
    have hlp := (KeySort.toward optionKey htarget).perm l
    rw [← hl] at hlp
    exact (hlp.symm.trans hp'.perm).trans hperm
  rw [hl, KeySort.toward_sort htarget hsorted]

/-- **Which resources a block-wise request addresses.**  Those whose path starts with no digit, nor
any other character from `0` to `?`, and consists of one segment, or of the same segment several
times. -/
theorem addressesResource_iff {path : Text} {ec : Option ErrorCode} {u : UriPath}
    (h : UriPath.ofPath path ec = (u, none)) :
    AddressesResource (cstr path) u ↔
      (((segments (cstr path)).headD []).headD 0).toNat / 16 ≠ 3 ∧
        ∀ s ∈ segments (cstr path), ∀ t ∈ segments (cstr path), s = t := by
  obtain ⟨hne, hlen, hstored⟩ := UriPath.ofPath_spec h
  have hshort : ∀ opt ∈ u.uri.asString, opt.length ≤ optionMaxLength := by
    intro opt hopt
    rw [hstored, storedSegments] at hopt
    split at hopt
    · exact (length_lt_of_mem_segments hlen hopt).le
    · cases hopt
  rw [← typeOf_eq_string_iff]
  constructor
  · intro haddress
    obtain ⟨value, hrun⟩ := exists_setHeader hshort
    have hpath : storedSegments (cstr path) = segments (cstr path) := by
      obtain ⟨S, obj', p', hset, hoptions⟩ := hrun _ (keysAscend_headerOptions _ _ _ _) (.refl _)
      obtain ⟨value', hvalue⟩ := haddress S _ _ _ _ obj' p' hset
      have hfilter := congrArg (List.filter fun o ↦ optionKey o = uriPath)
        (hoptions.symm.trans hvalue)
      rw [filter_uriPath_headerOptions, filter_uriPath_headerOptions, hstored] at hfilter
      exact List.map_injective_iff.mpr (fun s t hst ↦ congrArg CoapOption.value hst) hfilter
    have htype : typeOf ((segments (cstr path)).headD []) = .string := by
      by_contra htype
      rw [storedSegments, if_neg htype] at hpath
      exact hne hpath.symm
    refine ⟨htype, fun s hs t ht ↦ ?_⟩
    by_contra hst
    have hmem : ∀ r ∈ segments (cstr path), addedOption uriPath r ∈
        headerOptions true 5683 u.uri.asString value := by
      intro r hr
      rw [hstored, hpath]
      exact List.mem_cons_of_mem _ (List.mem_append_left _ (List.mem_map_of_mem hr))
    obtain ⟨target, htarget, hperm, hdiffer⟩ := exists_filter_ne (hmem s hs) (hmem t ht)
      (show optionKey _ = optionKey _ from rfl) fun heq ↦ hst (congrArg CoapOption.value heq)
    obtain ⟨S, obj', p', hset, rfl⟩ := hrun target htarget hperm
    obtain ⟨value', hvalue⟩ := haddress S _ _ _ _ obj' p' hset
    refine hdiffer ?_
    show List.filter (fun o ↦ optionKey o = uriPath) _ =
      List.filter (fun o ↦ optionKey o = uriPath) _
    rw [hvalue, filter_uriPath_headerOptions, filter_uriPath_headerOptions, hstored, hpath]
  · rintro ⟨htype, halike⟩ S obj isBlock1 port pack obj' p' hset
    have hpath : u.uri.asString = segments (cstr path) := by
      rw [hstored, storedSegments, if_pos htype]
    obtain ⟨p'', hset', hholds⟩ := setHeader_spec S obj isBlock1 port pack hshort
    rw [hset] at hset'
    simp only [Except.ok.injEq, Prod.mk.injEq] at hset'
    obtain ⟨-, rfl, hret⟩ := hset'
    obtain ⟨hp', -⟩ := hholds hret.symm
    rw [hpath] at hp'
    exact ⟨_, eq_of_perm_of_keysAscend (eq_of_mem_headerOptions halike) hp'.perm hp'.ascend
      (keysAscend_headerOptions _ _ _ _)⟩

/-- The path `/a` arrives. -/
theorem addressesResource_a :
    AddressesResource (cstr [47, 97]) (UriPath.ofPath [47, 97] none).1 := by
  have hsegments : segments (cstr [47, 97]) = [[97]] := by decide
  have hiff := @addressesResource_iff [47, 97] none _ rfl
  refine hiff.mpr ?_
  rw [hsegments]
  exact ⟨by decide, by simp⟩

/-- A request for `/1` names no segment. -/
theorem not_addressesResource_1 :
    ¬ AddressesResource (cstr [47, 49]) (UriPath.ofPath [47, 49] none).1 := by
  intro haddress
  obtain ⟨value, hrun⟩ := exists_setHeader (u := (UriPath.ofPath [47, 49] none).1) (by decide)
  obtain ⟨S, obj', p', hset, hoptions⟩ := hrun _ (keysAscend_headerOptions _ _ _ _) (.refl _)
  obtain ⟨value', hvalue⟩ := haddress S _ _ _ _ obj' p' hset
  have hlength := congrArg List.length (hoptions.symm.trans hvalue)
  have hsegments : segments (cstr [47, 49]) = [[49]] := by decide
  have hstored : (UriPath.ofPath [47, 49] none).1.uri.asString = [] := by decide
  rw [hsegments, hstored] at hlength
  exact absurd hlength (by simp [headerOptions])

end Blockwise

end Coap
