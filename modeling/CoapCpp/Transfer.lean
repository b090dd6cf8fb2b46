import CoapCpp.BlockHeader
import CoapCpp.Exchange

/-!
# A file in blocks

A file that is too large for one message is sent in blocks, as the tests of `Block1` do it: for each
block the number and the "more" bit are set, `set_header` fills the options of the packet,
`make_request` puts the part of the file into it, and the packet is serialized.  The other side
parses the datagram, takes the place of the block from `get_header` and the bytes from the payload.

* `run_blocks`: what arrives of any blocks.
* `file_arrives_iff`: the files that arrive are the ones of at most 4096 blocks.  Of the others all
  the bytes arrive too, but some of them with the number of another block.
-/

set_option autoImplicit false

namespace Coap

open CString Memory Blockwise

/-! ## The code -/

/-- A block of a file. -/
@[ext]
structure Block where
  /-- `number()` -/
  number : ℕ
  /-- `size()` -/
  size : ℕ
  /-- `more()` -/
  more : Bool
  /-- The bytes. -/
  data : List UInt8

/-- What the two sides of a transfer are given. -/
structure Transfer where
  /-- Whether the header is that of a `Block1` or of a `Block2`. -/
  isBlock1 : Bool
  /-- The port of the resource. -/
  port : UInt16
  /-- The path of the resource. -/
  path : UriPath
  /-- The type of the requests. -/
  type : MessageType
  /-- The code of the requests. -/
  code : UInt8
  /-- The block size. -/
  size : UInt16
  /-- The length of the tokens. -/
  tokenLength : ℕ
  /-- The message id of each block. -/
  ids : ℕ → UInt16
  /-- The values of `rand` for the token of each block. -/
  rand : ℕ → ℕ → ℕ
  /-- The sorts that `set_header` uses for each block. -/
  addSort : ℕ → ℕ → StdSort
  /-- The sort that `get_header` uses for each block. -/
  findSort : ℕ → StdSort

namespace Transfer

/-- The side that sends: the object, the packet and the datagram. -/
def sendBlock (t : Transfer) (obj : Blockwise) (pack : Packet) (b : Block) :
    Except Fault (Option (Blockwise × Packet × List UInt8)) := do
  let obj := { obj with number := UInt32.ofNat b.number, size := t.size, more := b.more }
  let (obj, pack, ok) ← obj.setHeader (t.addSort b.number) t.isBlock1 t.port t.path pack
  if !ok then
    return none
  let (pack, ec) ← pack.makeRequest (t.rand b.number) t.type t.code (t.ids b.number) (some b.data)
    b.data.length t.tokenLength
  if ec.isSome then
    return none
  let some bytes ← pack.send | return none
  return some (obj, pack, bytes)

/-- The side that receives, with a new packet for each datagram: the object and the block. -/
def receiveBlock (t : Transfer) (obj : Blockwise) (k : ℕ) (bytes : List UInt8) :
    Except Fault (Option (Blockwise × Block)) := do
  let (pack, ec) ← (Packet.fresh true).parse (some bytes) bytes.length
  if ec.isSome then
    return none
  let (obj, pack, ok) := obj.getHeader (t.findSort k) t.isBlock1 pack
  if !ok then
    return none
  return some (obj, ⟨obj.number.toNat, obj.size.toNat, obj.more, pack.payload⟩)

/-- The blocks are sent one after the other. -/
def run (t : Transfer) : List Block → Blockwise → Packet → Blockwise →
    Except Fault (Option (List Block))
  | [], _, _, _ => return some []
  | b :: blocks, sender, pack, receiver => do
    let some (sender, pack, bytes) ← t.sendBlock sender pack b | return none
    let some (receiver, arrived) ← t.receiveBlock receiver b.number bytes | return none
    let some rest ← t.run blocks sender pack receiver | return none
    return some (arrived :: rest)

end Transfer

/-- The blocks of a file. -/
def blocksOf (size : ℕ) (file : List UInt8) : List Block :=
  (List.range ((file.length + size - 1) / size)).map fun k ↦
    ⟨k, size, (k + 1) * size < file.length, (file.drop (k * size)).take size⟩

/-! ## The packet of a block -/

theorem length_encodeBlockOption (obj : Blockwise) (isBlock1 : Bool) :
    (obj.encodeBlockOption (emptyBlockOption isBlock1)).1.value.length ≤ 3 := by
  by_cases hfits : IsBlockOption (emptyBlockOption isBlock1) ∧ obj.size.toNat % 16 = 0 ∧
      obj.size.toNat ≤ blockMaxSize ∧ obj.number.toNat < maxBlocks
  · obtain ⟨hoption, hmod, hle, hlt⟩ := hfits
    obtain ⟨pushed, hpushed, k, hk, hnumber⟩ := exists_blockNumber obj.littleEndian hlt
    rw [encodeBlockOption_eq hoption ⟨hmod, hle⟩ hk hnumber, emptyBlockOption]
    dsimp only
    rw [List.nil_append, List.length_append, List.length_singleton]
    exact Nat.add_le_add_right hpushed 1
  · rw [encodeBlockOption_of_not _ _ hfits]
    exact Nat.zero_le _

theorem lt_of_mem_headerOptions {isBlock1 : Bool} {port : UInt16} {path : List Text}
    {value : List UInt8} (hshort : ∀ opt ∈ path, opt.length ≤ optionMaxLength)
    (hvalue : value.length ≤ 3) {o : CoapOption}
    (ho : o ∈ headerOptions isBlock1 port path value) :
    o.number.toNat < 269 ∧ o.value.length < 269 := by
  simp only [headerOptions, List.mem_cons, List.mem_append, List.mem_map, List.not_mem_nil,
    or_false] at ho
  have hnumber : (UInt16.ofNat uriPort).toNat < 269 ∧ (UInt16.ofNat uriPath).toNat < 269 ∧
      (UInt16.ofNat (blockOptionNumber isBlock1)).toNat < 269 := by
    cases isBlock1 <;> decide
  rcases ho with rfl | ⟨s, hs, rfl⟩ | rfl
  · exact ⟨hnumber.1, Nat.le_of_ble_eq_true rfl⟩
  · have hlength := hshort s hs
    rw [optionMaxLength] at hlength
    exact ⟨hnumber.2.1, Nat.lt_of_le_of_lt hlength (by decide)⟩
  · exact ⟨hnumber.2.2, Nat.lt_of_le_of_lt hvalue (by decide)⟩

/-- What a caller may choose. -/
structure Transfer.Valid (t : Transfer) : Prop where
  /-- The block size is one of the format. -/
  size : IsBlockSize t.size.toNat
  /-- The segments of the path fit an option. -/
  path : ∀ opt ∈ t.path.uri.asString, opt.length ≤ optionMaxLength
  /-- The token fits. -/
  token_le : t.tokenLength ≤ tokenMaxLength

/-- `get_header` reads the same from a packet with the same options, if only one is a block
option. -/
theorem getHeader_congr (T : StdSort) (obj : Blockwise) {isBlock1 : Bool} {p p' : Packet}
    {o' : CoapOption} (hpairs : p.options.map CoapOption.pair = p'.options.map CoapOption.pair)
    (h' : (p'.options.filter fun o ↦ o.number = UInt16.ofNat (blockOptionNumber isBlock1)) =
      [o']) :
    (obj.getHeader T isBlock1 p).1 = (obj.getHeader T isBlock1 p').1 ∧
      (obj.getHeader T isBlock1 p).2.2 = (obj.getHeader T isBlock1 p').2.2 := by
  have hfilter (os : List CoapOption) :
      (os.filter fun o ↦ o.number = UInt16.ofNat (blockOptionNumber isBlock1)).map
        CoapOption.pair = (os.map CoapOption.pair).filter fun o ↦
          o.1 = (UInt16.ofNat (blockOptionNumber isBlock1)).toNat := by
    rw [List.filter_map]
    congr 1
    refine List.filter_congr fun o _ ↦ ?_
    exact decide_eq_decide.mpr UInt16.toNat_inj.symm
  have hone := hfilter p.options
  rw [hpairs, ← hfilter, h', List.map_singleton] at hone
  obtain ⟨o, ho, hpair⟩ := List.map_eq_singleton_iff.mp hone
  have hnumber : o.number = o'.number := UInt16.toNat_inj.mp (congrArg Prod.fst hpair)
  have hvalue : o.value = o'.value := congrArg Prod.snd hpair
  have hdecode : obj.decodeBlockOption o = obj.decodeBlockOption o' := by
    rw [decodeBlockOption, decodeBlockOption, hnumber, hvalue]
  rw [(obj.getHeader_of_filter T ho).1, (obj.getHeader_of_filter T ho).2,
    (obj.getHeader_of_filter T h').1, (obj.getHeader_of_filter T h').2, hdecode]
  exact ⟨rfl, rfl⟩

theorem littleEndian_firstBlock (obj : Blockwise) :
    obj.firstBlock.littleEndian = obj.littleEndian := by
  rw [firstBlock]
  split <;> rfl

/-- What `get_header` returns for a block. -/
structure Shows (t : Transfer) (b : Block) (got : Blockwise × Packet × Bool) : Prop where
  ret : got.2.2 = true
  number : got.1.number = UInt32.ofNat (arrivingNumber b.number)
  size : got.1.size = t.size
  more : got.1.more = b.more

/-- Every receiver reads the block from the packet. -/
def Reads (t : Transfer) (b : Block) (p : Packet) : Prop :=
  ∀ (T : StdSort) (receiver : Blockwise), receiver.littleEndian = true →
    Shows t b (receiver.getHeader T t.isBlock1 p)

theorem Shows.congr {t : Transfer} {b : Block} {got got' : Blockwise × Packet × Bool}
    (h : Shows t b got') (hfirst : got.1 = got'.1) (hsecond : got.2.2 = got'.2.2) :
    Shows t b got := by
  constructor
  · rw [hsecond, h.ret]
  · rw [hfirst, h.number]
  · rw [hfirst, h.size]
  · rw [hfirst, h.more]

/-- The packet that `set_header` fills for a block, from which `get_header` reads. -/
theorem setHeader_reads {t : Transfer} (ht : t.Valid) (obj : Blockwise) {b : Block}
    (hle : obj.littleEndian = true) (hnumber : obj.number.toNat = b.number)
    (hsize : obj.size = t.size) (hmore : obj.more = b.more) (hlt : b.number < maxBlocks)
    (pack : Packet) (S : ℕ → StdSort) :
    ∃ p value, obj.setHeader S t.isBlock1 t.port t.path pack = .ok (obj.firstBlock, p, true) ∧
      value.length ≤ 3 ∧
      Holds { pack with options := [] } (headerOptions t.isBlock1 t.port t.path.uri.asString value)
        p ∧ Reads t b p := by
  have hblock : IsBlockSize obj.size.toNat := by
    rw [hsize]
    exact ht.size
  rw [← hnumber] at hlt
  obtain ⟨p, hset, hholds⟩ := obj.setHeader_spec S t.isBlock1 t.port pack ht.path
  -- every receiver reads from the same packet
  have hget (T : StdSort) (receiver : Blockwise) (hreceiver : receiver.littleEndian = true) :
      (obj.firstBlock.encodeBlockOption (emptyBlockOption t.isBlock1)).2 = true ∧
        Shows t b (receiver.getHeader T t.isBlock1 p) := by
    obtain ⟨obj', p', hcall, hret, hnum, hsz, hmr⟩ := getHeader_setHeader hle hlt hblock ht.path
      t.isBlock1 t.port pack S T hreceiver
    rw [hset] at hcall
    simp only [Except.ok.injEq, Prod.mk.injEq] at hcall
    obtain ⟨-, rfl, hencode⟩ := hcall
    rw [hnumber] at hnum
    exact ⟨hencode, hret, hnum, hsz.trans hsize, hmr.trans hmore⟩
  obtain ⟨hret, -⟩ := hget (.stable _) obj hle
  obtain ⟨hp, -⟩ := hholds hret
  rw [hret] at hset
  exact ⟨p, _, hset, length_encodeBlockOption _ _, hp,
    fun T receiver hreceiver ↦ (hget T receiver hreceiver).2⟩

/-- **The datagram of a block** carries its header and its bytes. -/
theorem sendBlock_eq {t : Transfer} (ht : t.Valid) {obj : Blockwise}
    (hobj : obj.littleEndian = true) {pack : Packet} (hpack : pack.littleEndian = true) {b : Block}
    (hnumber : b.number < maxBlocks) (hdata : b.data ≠ []) :
    ∃ obj' q o, t.sendBlock obj pack b = .ok (some (obj', q, q.bytes)) ∧
      obj'.littleEndian = true ∧ q.littleEndian = true ∧ Sendable q ∧ q.payload = b.data ∧
      (q.options.filter fun o ↦ o.number = UInt16.ofNat (blockOptionNumber t.isBlock1)) = [o] ∧
      Reads t b q := by
  have hmod : (UInt32.ofNat b.number).toNat = b.number :=
    UInt32.toNat_ofNat_of_lt' (hnumber.trans (by decide))
  obtain ⟨p, value, hset, hvalue, hp, hreads⟩ := setHeader_reads ht { obj with
    number := UInt32.ofNat b.number
    size := t.size
    more := b.more } hobj hmod rfl rfl hnumber pack (t.addSort b.number)
  obtain ⟨q, hrequest, hq, htoken⟩ := prepared_makeRequest (t.rand b.number) p t.type t.code
    (t.ids b.number) hdata ht.token_le
  have hsmall : ∀ o ∈ q.options, o.number.toNat < 269 ∧ o.value.length < 269 := by
    intro o ho
    rw [hq.options, hp.perm.mem_iff] at ho
    exact lt_of_mem_headerOptions ht.path hvalue ho
  have hsend : Sendable q := by
    refine ⟨hq.version, ?_, ?_, fun o ho ↦ (hsmall o ho).1, fun o ho ↦ (hsmall o ho).2, ?_⟩
    · rw [htoken]
      exact ht.token_le
    · rw [hq.options]
      exact ascending_of_keysAscend hp.ascend
    · rw [hq.payload]
      exact hdata
  have hone := filter_of_holds hp
  refine ⟨firstBlock { obj with
    number := UInt32.ofNat b.number
    size := t.size
    more := b.more }, q, _, ?_, ?_, ?_, hsend, hq.payload, hq.options ▸ hone,
      fun T receiver hreceiver ↦ ?_⟩
  · simp only [Transfer.sendBlock, hset, ok_bind, hrequest, Packet.send_eq hsend]
    rfl
  · exact (littleEndian_firstBlock _).trans hobj
  · rw [hq.littleEndian, hp.frame]
    exact hpack
  · obtain ⟨hfirst, hsecond⟩ := getHeader_congr T receiver
      (congrArg (List.map CoapOption.pair) hq.options) hone
    exact (hreads T receiver hreceiver).congr hfirst hsecond

/-! ## Blocks that arrive -/

/-- A block with the number it arrives with. -/
def Block.arriving (b : Block) : Block := { b with number := arrivingNumber b.number }

theorem littleEndian_getHeader (T : StdSort) (obj : Blockwise) (isBlock1 : Bool) (p : Packet) :
    (obj.getHeader T isBlock1 p).1.littleEndian = obj.littleEndian := by
  have hdecode (o : CoapOption) : (obj.decodeBlockOption o).1.littleEndian = obj.littleEndian := by
    unfold decodeBlockOption
    split_ifs
    · rfl
    · dsimp only
      split_ifs <;> rfl
  unfold getHeader
  dsimp only
  split_ifs
  · rfl
  · rfl
  · exact hdecode _

theorem payload_getHeader (T : StdSort) (obj : Blockwise) (isBlock1 : Bool) (p : Packet) :
    (obj.getHeader T isBlock1 p).2.1.payload = p.payload := by
  unfold getHeader
  dsimp only
  split_ifs <;> rfl

/-- **A datagram is received** as the block it was sent for, but for the number. -/
theorem receiveBlock_eq {t : Transfer} {b : Block} {q : Packet} {o : CoapOption}
    (hnumber : b.number < maxBlocks) (hsize : b.size = t.size.toNat) (hq : Sendable q)
    (hle : q.littleEndian = true) (hpayload : q.payload = b.data)
    (hone : (q.options.filter fun o ↦
      o.number = UInt16.ofNat (blockOptionNumber t.isBlock1)) = [o]) (hreads : Reads t b q)
    {receiver : Blockwise} (hreceiver : receiver.littleEndian = true) (k : ℕ) :
    ∃ receiver', t.receiveBlock receiver k q.bytes = .ok (some (receiver', b.arriving)) ∧
      receiver'.littleEndian = true := by
  obtain ⟨p, hparse, hp⟩ := parse_bytes hq []
  rw [List.append_nil, hle] at hparse
  obtain ⟨hfirst, hsecond⟩ := getHeader_congr (t.findSort k) receiver hp.options hone
  obtain ⟨hret, hnum, hsz, hmore⟩ :=
    (hreads (t.findSort k) receiver hreceiver).congr hfirst hsecond
  refine ⟨(receiver.getHeader (t.findSort k) t.isBlock1 p).1, ?_, ?_⟩
  · have hblock : (⟨(receiver.getHeader (t.findSort k) t.isBlock1 p).1.number.toNat,
        (receiver.getHeader (t.findSort k) t.isBlock1 p).1.size.toNat,
        (receiver.getHeader (t.findSort k) t.isBlock1 p).1.more,
        (receiver.getHeader (t.findSort k) t.isBlock1 p).2.1.payload⟩ : Block) = b.arriving := by
      rw [hnum, hsz, hmore, payload_getHeader, hp.payload, hpayload, ← hsize,
        UInt32.toNat_ofNat_of_lt' (arrivingNumber_lt hnumber)]
      rfl
    rw [Transfer.receiveBlock, hparse, ok_bind]
    simp [hret, hblock]
  · rw [littleEndian_getHeader]
    exact hreceiver

/-- **What arrives of any blocks**: all of them, with the numbers they arrive with. -/
theorem run_blocks {t : Transfer} (ht : t.Valid) {blocks : List Block}
    (hblocks : ∀ b ∈ blocks, b.number < maxBlocks ∧ b.size = t.size.toNat ∧ b.data ≠ [])
    {sender receiver : Blockwise} {pack : Packet} (hsender : sender.littleEndian = true)
    (hreceiver : receiver.littleEndian = true) (hpack : pack.littleEndian = true) :
    t.run blocks sender pack receiver = .ok (some (blocks.map Block.arriving)) := by
  induction blocks generalizing sender receiver pack with
  | nil => rfl
  | cons b blocks ih =>
    obtain ⟨hnumber, hsize, hdata⟩ := hblocks b List.mem_cons_self
    obtain ⟨sender', q, o, hsend, hsender', hq, hsendable, hpayload, hone, hreads⟩ :=
      sendBlock_eq ht hsender hpack hnumber hdata
    obtain ⟨receiver', hreceive, hreceiver'⟩ := receiveBlock_eq hnumber hsize hsendable hq hpayload
      hone hreads hreceiver b.number
    have hrest := ih (fun b hb ↦ hblocks b (List.mem_cons_of_mem _ hb)) hsender' hreceiver' hq
    simp only [Transfer.run, hsend, ok_bind, hreceive, hrest]
    rfl

/-! ## Files that arrive -/

/-- The blocks of a file have its bytes. -/
theorem flatten_blocksOf {size : ℕ} (hsize : 0 < size) (file : List UInt8) :
    ((blocksOf size file).map Block.data).flatten = file := by
  have hprefix (n : ℕ) :
      ((List.range n).map fun k ↦ (file.drop (k * size)).take size).flatten =
        file.take (n * size) := by
    induction n with
    | zero => simp
    | succ n ih =>
      rw [List.range_succ, List.map_append, List.flatten_append, ih, List.map_singleton,
        List.flatten_singleton, Nat.succ_mul, List.take_add]
  have hmap : (blocksOf size file).map Block.data =
      (List.range ((file.length + size - 1) / size)).map fun k ↦
        (file.drop (k * size)).take size := by
    rw [blocksOf, List.map_map]
    rfl
  rw [hmap, hprefix, List.take_of_length_le]
  have hdiv := Nat.div_add_mod (file.length + size - 1) size
  have hmod := Nat.mod_lt (file.length + size - 1) hsize
  rw [Nat.mul_comm] at hdiv
  omega

theorem lt_div_of_mul_lt {size length k : ℕ} (hsize : 0 < size) :
    k < (length + size - 1) / size ↔ k * size < length := by
  rw [Nat.lt_iff_add_one_le, Nat.le_div_iff_mul_le hsize, Nat.succ_mul]
  omega

/-- The number of a block says where its bytes are. -/
theorem mem_blocksOf {size : ℕ} (hsize : 0 < size) {file : List UInt8} {b : Block} :
    b ∈ blocksOf size file ↔ b.number * size < file.length ∧
      b = ⟨b.number, size, (b.number + 1) * size < file.length,
        (file.drop (b.number * size)).take size⟩ := by
  simp only [blocksOf, List.mem_map, List.mem_range, lt_div_of_mul_lt hsize]
  constructor
  · rintro ⟨k, hk, rfl⟩
    exact ⟨hk, rfl⟩
  · rintro ⟨hk, hb⟩
    exact ⟨b.number, hk, hb.symm⟩

/-- **Which files arrive.**  The bytes of every file arrive, and in order.  But the receiver is told
where each of them belongs exactly if the file has at most 4096 blocks: the block with number 4096
arrives as number 16. -/
theorem file_arrives_iff {t : Transfer} (ht : t.Valid) {file : List UInt8}
    (hfile : file.length ≤ maxBlocks * t.size.toNat) {sender receiver : Blockwise} {pack : Packet}
    (hsender : sender.littleEndian = true) (hreceiver : receiver.littleEndian = true)
    (hpack : pack.littleEndian = true) :
    ∃ arrived, t.run (blocksOf t.size.toNat file) sender pack receiver = .ok (some arrived) ∧
      (arrived.map Block.data).flatten = file ∧
      (arrived = blocksOf t.size.toNat file ↔ file.length ≤ 4096 * t.size.toNat) := by
  have hsize : 0 < t.size.toNat := by
    obtain ⟨s, hs⟩ := isBlockSize_iff.mp ht.size
    rw [← hs]
    exact Nat.two_pow_pos _
  refine ⟨_, run_blocks ht (fun b hb ↦ ?_) hsender hreceiver hpack, ?_, ?_⟩
  · obtain ⟨hlt, hb⟩ := (mem_blocksOf hsize).mp hb
    refine ⟨Nat.lt_of_mul_lt_mul_right (hlt.trans_le hfile), by rw [hb], ?_⟩
    rw [hb]
    simp only [ne_eq, List.take_eq_nil_iff, List.drop_eq_nil_iff]
    omega
  · rw [List.map_map]
    exact flatten_blocksOf hsize file
  · have harriving : (blocksOf t.size.toNat file).map Block.arriving =
        blocksOf t.size.toNat file ↔
        ∀ b ∈ blocksOf t.size.toNat file, arrivingNumber b.number = b.number := by
      conv_lhs => rw [← List.map_id (blocksOf t.size.toNat file)]
      rw [List.map_map, List.map_inj_left]
      refine forall₂_congr fun b _ ↦ ?_
      simp [Block.arriving, Block.ext_iff]
    rw [harriving]
    constructor
    · intro h
      by_contra hlong
      have hmem : (⟨4096, t.size.toNat, 4097 * t.size.toNat < file.length,
          (file.drop (4096 * t.size.toNat)).take t.size.toNat⟩ : Block) ∈
          blocksOf t.size.toNat file :=
        (mem_blocksOf hsize).mpr ⟨Nat.lt_of_not_le hlong, rfl⟩
      exact (show arrivingNumber 4096 ≠ 4096 by decide) (h _ hmem)
    · intro hshort b hb
      have hlt := ((mem_blocksOf hsize).mp hb).1
      exact if_pos (Nat.lt_of_mul_lt_mul_right (hlt.trans_le hshort))

/-- A file of two blocks is sent to the path `/a`. -/
theorem file_arrives_two :
    ∃ arrived, Transfer.run ⟨true, 5683, { uri := { type := .string, asString := [[97]] } },
        .confirmable, 3, 16, 2, fun _ ↦ 7, fun _ i ↦ i, fun _ _ ↦ .stable _, fun _ ↦ .stable _⟩
        (blocksOf 16 (List.replicate 20 1)) { littleEndian := true } (Packet.fresh true)
        { littleEndian := true } = .ok (some arrived) ∧
      arrived = blocksOf 16 (List.replicate 20 1) := by
  obtain ⟨arrived, hrun, -, hiff⟩ := file_arrives_iff (t := ⟨true, 5683,
      { uri := { type := .string, asString := [[97]] } }, .confirmable, 3, 16, 2, fun _ ↦ 7,
      fun _ i ↦ i, fun _ _ ↦ .stable _, fun _ ↦ .stable _⟩)
    ⟨by decide, by simp, by decide⟩
    (by decide : (List.replicate 20 (1 : UInt8)).length ≤ maxBlocks * (16 : UInt16).toNat)
    (rfl : ({ littleEndian := true } : Blockwise).littleEndian = true)
    (rfl : ({ littleEndian := true } : Blockwise).littleEndian = true)
    (rfl : (Packet.fresh true).littleEndian = true)
  exact ⟨arrived, hrun, hiff.mpr (by decide)⟩

end Coap
