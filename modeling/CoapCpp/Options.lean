import CoapCpp.KeySort
import CoapCpp.Message

/-!
# The options of a packet

`Packet::add_option`, `Packet::find_option` and `Message::sort_options`, and the two functions that
prepare a packet for sending, `make_request` and `prepare_answer`.

Options are sorted with `std::sort` by their number, after every `add_option` and before every
search.  Every call is given its own `KeySort`, so that nothing is assumed about how one call orders
options with the same number, or that two calls order them alike.

A history is a list of calls, `runCalls` runs it, and `runCalls_spec` is the invariant: the options
are the added ones, in ascending order.  `found_spec` says what a search finds in such a list; the
references it hands out are modelled by the indices they point to.
-/

set_option autoImplicit false

namespace Coap

open Memory

/-- The key of `operator<`. -/
def optionKey (o : CoapOption) : ℕ := o.number.toNat

/-- What `std::sort` may be on a list of options. -/
abbrev StdSort := KeySort optionKey

/-! ## The code -/

/-- The `do` loop of `find_option` over the options from `index` on: the quantity, and the
references. -/
def findRun (number : UInt16) : List CoapOption → ℕ → ℕ → List ℕ → ℕ × List ℕ
  | [], _, quantity, rOptions => (quantity, rOptions)
  | o :: options, index, quantity, rOptions =>
    if o.number = number then
      findRun number options (index + 1) (quantity + 1) (rOptions ++ [index])
    else (quantity, rOptions)

/-- The `while` loop of `find_option` over the options from `index` on. -/
def findLoop (number : UInt16) : List CoapOption → ℕ → List ℕ → ℕ × List ℕ
  | [], _, rOptions => (0, rOptions)
  | o :: options, index, rOptions =>
    if o.number = number then findRun number options (index + 1) 1 (rOptions ++ [index])
    else findLoop number options (index + 1) rOptions

namespace Packet

/-- `sort_options` -/
def sortOptions (S : StdSort) (p : Packet) : Packet := { p with options := S.sort p.options }

/-- `add_option` -/
def addOption (S : StdSort) (p : Packet) (number : ℕ) (value : Option (List UInt8))
    (length : ℕ) : Except Fault (Packet × Option ErrorCode) := do
  assert value.isSome
  assert (number ≤ optionMaxNumber)
  assert (length ≤ optionMaxLength)
  match value with
  | none => return (p, some (.system .efault))
  | some val =>
    if number > optionMaxNumber then
      return (p, some (.coap .optionNumber))
    if length > optionMaxLength then
      return (p, some (.coap .optionNumber))
    let value ← copyFrom val 0 length
    -- the number is cast to `uint8_t` on its way
    let opt : CoapOption := { header := 0, number := UInt16.ofNat (number % 256), value }
    return (({ p with options := p.options ++ [opt] } : Packet).sortOptions S, none)

/-- `find_option`: the packet, whose options are sorted, the quantity, and `rOptions`. -/
def findOption (S : StdSort) (p : Packet) (number : UInt16) (_rOptions : List ℕ) :
    Packet × ℕ × List ℕ :=
  let p := p.sortOptions S
  (p, findLoop number p.options 0 [])

/-- `generate_token`, with the values `rand` returns. -/
def generateToken (rand : ℕ → ℕ) (p : Packet) (len : ℕ) : Packet × Bool :=
  if len > tokenMaxLength then (p, false)
  else
    let token := (List.range len).map fun i ↦ UInt8.ofNat (rand i % 256)
    (({ p with token := p.token.overwrite token } : Packet).setTokenLength len, true)

/-- `make_request` -/
def makeRequest (rand : ℕ → ℕ) (p : Packet) (type : MessageType) (code : UInt8) (id : UInt16)
    (payload : Option (List UInt8)) (payloadSize tokenLength : ℕ) :
    Except Fault (Packet × Option ErrorCode) := do
  assert ((payloadSize = 0 ∧ payload.isNone) ∨ (payloadSize ≠ 0 ∧ payload.isSome))
  assert (tokenLength ≤ tokenMaxLength)
  if (payloadSize ≠ 0 ∧ payload.isNone) ∨ (payloadSize = 0 ∧ payload.isSome) then
    return (p, some (.system .efault))
  if tokenLength > tokenMaxLength then
    return (p, some (.system .einval))
  let p := p.setVersion coapVersion
  let p := p.setType type.value
  let p := { p with identity := id, code }
  let (p, _) := p.generateToken rand tokenLength
  let data ← copyFrom (payload.getD []) 0 payloadSize
  return ({ p with payload := data }, none)

/-- `prepare_answer` -/
def prepareAnswer (p : Packet) (type : MessageType) (code : UInt8) (id : UInt16)
    (payload : Option (List UInt8)) (payloadSize : ℕ) :
    Except Fault (Packet × Option ErrorCode) := do
  assert ((payloadSize = 0 ∧ payload.isNone) ∨ (payloadSize ≠ 0 ∧ payload.isSome))
  let p := p.setVersion coapVersion
  let p := p.setType type.value
  let data ← copyFrom (payload.getD []) 0 payloadSize
  return ({ p with identity := id, code, payload := data }, none)

end Packet

/-! ## Adding -/

theorem copyFrom_zero {α : Type} (l : List α) {n : ℕ} (h : n ≤ l.length) :
    copyFrom l 0 n = .ok (l.take n) := by
  have hcopy := copyFrom_append [] (l.take n) (l.drop n)
  rw [List.nil_append, List.take_append_drop, List.length_take, Nat.min_eq_left h] at hcopy
  exact hcopy

/-- The option a call of `add_option` adds. -/
def addedOption (number : ℕ) (value : List UInt8) : CoapOption :=
  { header := 0, number := UInt16.ofNat number, value }

/-- **A valid call of `add_option`** adds its option and sorts. -/
theorem Packet.addOption_eq (S : StdSort) (p : Packet) {number : ℕ} {val : List UInt8}
    {length : ℕ} (hnumber : number ≤ optionMaxNumber) (hlength : length ≤ optionMaxLength)
    (hval : length ≤ val.length) :
    p.addOption S number (some val) length =
      .ok ({ p with options := S.sort (p.options ++ [addedOption number (val.take length)]) },
        none) := by
  have hmod : number % 256 = number := Nat.mod_eq_of_lt (by simp at hnumber; omega)
  simp only [addOption, Option.isSome_some, assert_true, ok_bind, decide_eq_true hnumber,
    decide_eq_true hlength, if_neg (Nat.not_lt.mpr hnumber), if_neg (Nat.not_lt.mpr hlength),
    gt_iff_lt, copyFrom_zero val hval, pure_eq_ok, hmod]
  rfl

/-! ## Searching -/

theorem findRun_eq {number : UInt16} {os : List CoapOption} (h : KeysAscend optionKey os)
    (hle : ∀ o ∈ os, number.toNat ≤ o.number.toNat) (index quantity : ℕ) (r : List ℕ) :
    findRun number os index quantity r =
      (quantity + os.countP (fun o ↦ o.number = number),
        r ++ os.findIdxs (fun o ↦ o.number = number) index) := by
  induction os generalizing index quantity r with
  | nil => simp [findRun]
  | cons o os ih =>
    obtain ⟨hfirst, htail⟩ := List.pairwise_cons.mp h
    by_cases ho : o.number = number
    · rw [findRun, if_pos ho, ih htail fun m hm ↦ hle m (List.mem_cons_of_mem _ hm)]
      simp only [List.countP_cons, ho, decide_true, if_true, List.findIdxs_cons, List.append_assoc,
        List.singleton_append, Prod.mk.injEq, and_true]
      omega
    · -- the numbers ascend, so the search is over
      have hgt : ∀ m ∈ o :: os, ¬ m.number = number := by
        intro m hm hmn
        have hn : number.toNat < o.number.toNat :=
          Nat.lt_of_le_of_ne (hle o List.mem_cons_self) fun h ↦ ho (UInt16.toNat_inj.mp h.symm)
        rcases List.mem_cons.mp hm with rfl | hm
        · exact ho hmn
        · have := hfirst m hm
          rw [optionKey, optionKey, hmn] at this
          omega
      rw [findRun, if_neg ho, List.countP_eq_zero.mpr (by simpa using hgt),
        List.findIdxs_eq_nil_iff.mpr (by simpa using hgt), List.append_nil, Nat.add_zero]

/-- **What `find_option` finds** in a list in ascending order: all options with the number. -/
theorem findLoop_eq {number : UInt16} {os : List CoapOption} (h : KeysAscend optionKey os)
    (index : ℕ) (r : List ℕ) :
    findLoop number os index r =
      (os.countP (fun o ↦ o.number = number),
        r ++ os.findIdxs (fun o ↦ o.number = number) index) := by
  induction os generalizing index r with
  | nil => simp [findLoop]
  | cons o os ih =>
    obtain ⟨hfirst, htail⟩ := List.pairwise_cons.mp h
    by_cases ho : o.number = number
    · have hle : ∀ m ∈ os, number.toNat ≤ m.number.toNat := fun m hm ↦ ho ▸ hfirst m hm
      rw [findLoop, if_pos ho, findRun_eq htail hle]
      simp only [List.countP_cons, ho, decide_true, if_true, List.findIdxs_cons, List.append_assoc,
        List.singleton_append, Prod.mk.injEq, and_true]
      omega
    · rw [findLoop, if_neg ho, ih htail]
      simp [ho]

/-- What a search returns for `number`: the number of such options, and references to all of them,
in order. -/
structure Found (number : UInt16) (options : List CoapOption) (r : ℕ × List ℕ) : Prop where
  /-- The quantity is the number of options with the number. -/
  quantity : r.1 = options.countP fun o ↦ o.number = number
  /-- There are as many references. -/
  length : r.2.length = r.1
  /-- No reference occurs twice, and they are in the order of the options. -/
  ascend : r.2.Pairwise (· < ·)
  /-- The references point to exactly the options with the number. -/
  mem : ∀ i, i ∈ r.2 ↔ ∃ o, options[i]? = some o ∧ o.number = number

theorem found_spec (number : UInt16) {os : List CoapOption} (h : KeysAscend optionKey os) :
    Found number os (findLoop number os 0 []) := by
  rw [findLoop_eq h, List.nil_append]
  refine ⟨rfl, List.length_findIdxs, List.pairwise_findIdxs, fun i ↦ ?_⟩
  rw [List.mem_findIdxs_iff_exists_getElem_pos]
  constructor
  · rintro ⟨hi, ho⟩
    exact ⟨os[i], List.getElem?_eq_getElem hi, by simpa using ho⟩
  · rintro ⟨o, ho, hn⟩
    obtain ⟨hi, rfl⟩ := List.getElem?_eq_some_iff.mp ho
    exact ⟨hi, by simpa using hn⟩

theorem map_getElem?_findIdxs {α : Type} (q : α → Bool) (pre l : List α) :
    (l.findIdxs q pre.length).map (fun i ↦ (pre ++ l)[i]?) = (l.filter q).map some := by
  induction l generalizing pre with
  | nil => rfl
  | cons a l ih =>
    have htail := ih (pre ++ [a])
    rw [List.append_assoc, List.length_append] at htail
    by_cases ha : q a
    · rw [List.findIdxs_cons, if_pos ha, List.filter_cons_of_pos ha, List.map_cons, List.map_cons]
      refine List.cons_eq_cons.mpr ⟨?_, htail⟩
      rw [List.getElem?_append_right (Nat.le_refl _), Nat.sub_self]
      rfl
    · rw [List.findIdxs_cons, if_neg ha, List.filter_cons_of_neg ha]
      exact htail

/-- A search refers to the options with the number, in the order they are in. -/
theorem map_findOption (S : StdSort) (p : Packet) (number : UInt16) (r : List ℕ) :
    (p.findOption S number r).2.2.map (fun i ↦ (p.findOption S number r).1.options[i]?) =
      ((S.sort p.options).filter fun o ↦ o.number = number).map some := by
  have hfound : (p.findOption S number r).2.2 =
      (S.sort p.options).findIdxs fun o ↦ o.number = number :=
    congrArg Prod.snd (findLoop_eq (S.ascend p.options) 0 [])
  rw [hfound]
  exact map_getElem?_findIdxs (fun o : CoapOption ↦ o.number = number) [] (S.sort p.options)

/-! ## Histories -/

/-- A call on the options of a packet. -/
inductive OptionCall where
  /-- `add_option`, with a value of `length` bytes in the block `value`. -/
  | add (number : ℕ) (value : List UInt8) (length : ℕ)
  /-- `find_option`, with what `rOptions` holds before. -/
  | find (number : UInt16) (rOptions : List ℕ)

namespace OptionCall

/-- The arguments are within their limits. -/
def Valid : OptionCall → Prop
  | add number value length =>
    number ≤ optionMaxNumber ∧ length ≤ optionMaxLength ∧ length ≤ value.length
  | find _ _ => True

instance (c : OptionCall) : Decidable c.Valid := by
  cases c <;> unfold Valid <;> infer_instance

/-- The option a call adds. -/
def added : OptionCall → List CoapOption
  | add number value length => [addedOption number (value.take length)]
  | find _ _ => []

/-- Run one call; one that reports an error leaves the packet as it is. -/
def run (S : StdSort) (p : Packet) : OptionCall → Except Fault Packet
  | add number value length => do
    let (p, _) ← p.addOption S number (some value) length
    return p
  | find number rOptions => return (p.findOption S number rOptions).1

end OptionCall

/-- The options that are added, in order. -/
def addedOptions (calls : List OptionCall) : List CoapOption := calls.flatMap OptionCall.added

/-- Run a history, with the sort every call uses. -/
def runCalls : Packet → List (StdSort × OptionCall) → Except Fault Packet
  | p, [] => return p
  | p, (S, c) :: calls => do
    let p ← c.run S p
    runCalls p calls

/-- The packet is `q`, up to its options, which are `added` in ascending order. -/
structure Holds (q : Packet) (added : List CoapOption) (p : Packet) : Prop where
  /-- The numbers ascend. -/
  ascend : KeysAscend optionKey p.options
  /-- None of the options is lost, duplicated or altered. -/
  perm : p.options.Perm added
  /-- Nothing else changes. -/
  frame : p = { q with options := p.options }

/-- A call adds its option, and keeps what the packet holds. -/
theorem holds_run {q p : Packet} {added : List CoapOption} (h : Holds q added p) (S : StdSort)
    {c : OptionCall} (hc : c.Valid) :
    ∃ p', c.run S p = .ok p' ∧ Holds q (added ++ c.added) p' := by
  have hframe := h.frame
  cases c with
  | add number value length =>
    obtain ⟨hnumber, hlength, hvalue⟩ := hc
    refine ⟨_, by rw [OptionCall.run, p.addOption_eq S hnumber hlength hvalue]; rfl,
      S.ascend _, (S.perm _).trans (h.perm.append_right _), ?_⟩
    rw [hframe]
  | find number rOptions =>
    refine ⟨_, rfl, S.ascend _, ?_, ?_⟩
    · rw [OptionCall.added, List.append_nil]
      exact (S.perm _).trans h.perm
    · conv_lhs => rw [hframe]
      rfl

/-- **The invariant of the option store**: valid calls never fail, and the packet holds what was
added. -/
theorem runCalls_spec {q p : Packet} {added : List CoapOption} (h : Holds q added p)
    {calls : List (StdSort × OptionCall)} (hcalls : ∀ c ∈ calls, c.2.Valid) :
    ∃ p', runCalls p calls = .ok p' ∧ Holds q (added ++ addedOptions (calls.map Prod.snd)) p' := by
  induction calls generalizing p added with
  | nil => exact ⟨p, rfl, by simpa [addedOptions] using h⟩
  | cons c calls ih =>
    obtain ⟨S, c⟩ := c
    obtain ⟨p₁, hrun, h₁⟩ := holds_run h S (hcalls (S, c) List.mem_cons_self)
    obtain ⟨p₂, hrest, h₂⟩ := ih h₁ fun c hc ↦ hcalls c (List.mem_cons_of_mem _ hc)
    refine ⟨p₂, by rw [runCalls, hrun, ok_bind, hrest], ?_⟩
    rw [List.map_cons, addedOptions, List.flatMap_cons, ← List.append_assoc]
    exact h₂

theorem holds_self {q : Packet} (h : q.options = []) : Holds q [] q :=
  ⟨by rw [h]; exact List.Pairwise.nil, by rw [h], rfl⟩

/-- **The option store.**  Whatever valid calls were made on a fresh packet, and however `std::sort`
orders equal numbers: the options are the added ones in ascending order, and a search for any
number returns all options with this number, each once. -/
theorem runCalls_fresh (littleEndian : Bool) {calls : List (StdSort × OptionCall)}
    (hcalls : ∀ c ∈ calls, c.2.Valid) :
    ∃ p, runCalls (Packet.fresh littleEndian) calls = .ok p ∧
      KeysAscend optionKey p.options ∧
      p.options.Perm (addedOptions (calls.map Prod.snd)) ∧
      ∀ (S : StdSort) (number : UInt16) (rOptions : List ℕ),
        KeysAscend optionKey (p.findOption S number rOptions).1.options ∧
        (p.findOption S number rOptions).1.options.Perm (addedOptions (calls.map Prod.snd)) ∧
        Found number (p.findOption S number rOptions).1.options
          (p.findOption S number rOptions).2 := by
  obtain ⟨p, hrun, hp⟩ := runCalls_spec (holds_self (q := Packet.fresh littleEndian) rfl) hcalls
  refine ⟨p, hrun, hp.ascend, hp.perm, fun S number rOptions ↦ ?_⟩
  exact ⟨S.ascend _, (S.perm _).trans hp.perm, found_spec number (S.ascend _)⟩

/-- A segment of a path, a search for it, and a port. -/
theorem runCalls_fresh_port :
    ∃ p, runCalls (Packet.fresh true)
        [(.stable _, .add 11 [97] 1), (.stable _, .find 11 []), (.stable _, .add 7 [22, 51] 2)] =
        .ok p ∧ KeysAscend optionKey p.options := by
  have hvalid : ∀ c ∈ ([(.stable _, .add 11 [97] 1), (.stable _, .find 11 []),
      (.stable _, .add 7 [22, 51] 2)] : List (StdSort × OptionCall)), c.2.Valid := by
    simp [OptionCall.Valid]
  obtain ⟨p, hrun, hascend, -⟩ := runCalls_fresh true hvalid
  exact ⟨p, hrun, hascend⟩

end Coap
