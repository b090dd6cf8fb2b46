import CoapCpp.Base64
import CoapCpp.Message
import Mathlib.Data.List.Forall2
import Mathlib.Tactic.FinCases

/-!
# SenML documents

`SenmlJson` as `src/senml_json.cc` has it.  `create_json` builds a JSON tree from a list of records
and prints it; `parse_json` has a document parsed and reads the records from the tree.

cJSON is not part of the repository: `Cjson` is what is used of it, with the facts that its lookups
are exact.  Numbers are values of any type, of which `Cjson` knows the integer parts.

The parser goes through the labels a record may have, and looks each of them up in the element.
What it finds is an `Entry`; `parseJson_eq` says what becomes of a document in terms of the entries
in front of the first one that is not `legible`.  Two of them go wrong (`Entry.fault`): the text of
a `vd` entry is copied to where an empty vector begins, and the number of a `bver` entry is
converted to an `int` that may not hold it.
-/

set_option autoImplicit false

namespace Coap

open CString Memory

variable {ν : Type}

/-! ## Trees -/

/-- A JSON tree, as cJSON has it; the numbers are opaque. -/
inductive Json (ν : Type) where
  /-- `null` -/
  | null
  /-- `true` or `false` -/
  | bool (b : Bool)
  /-- A number. -/
  | number (x : ν)
  /-- A string. -/
  | string (text : Text)
  /-- An array. -/
  | array (items : List (Json ν))
  /-- An object, with its members in the order they were added in. -/
  | object (members : List (Text × Json ν))

/-- The nodes below an array or an object. -/
def Json.children : Json ν → List (Json ν)
  | .array items => items
  | .object members => members.map Prod.snd
  | _ => []

/-- The first member of an object with that name.  The nodes below an array have no name. -/
def Json.lookup : Json ν → Text → Option (Json ν)
  | .object members, label => (members.find? fun m ↦ cstr m.1 = label).map Prod.snd
  | _, _ => none

/-- The values of an `int`. -/
abbrev CInt : Type := {n : ℤ // FitsInt n}

instance : Zero CInt := ⟨⟨0, by decide⟩⟩

/-- What is outside the repository: cJSON, and the numbers. -/
structure Cjson (ν : Type) where
  /-- `cJSON_Print`; `none` is `NULL`. -/
  print : Json ν → Option Text
  /-- `cJSON_Parse`; `none` is `NULL`. -/
  parse : Text → Option (Json ν)
  /-- `cJSON_GetObjectItemCaseSensitive`; `none` is `NULL`. -/
  getObjectItem : Json ν → Text → Option (Json ν)
  /-- `cJSON_GetArraySize` -/
  getArraySize : Json ν → ℕ
  /-- `cJSON_GetArrayItem`; `none` is `NULL`. -/
  getArrayItem : Json ν → ℕ → Option (Json ν)
  /-- The integer part of a number.  Infinities and what is not a number have none. -/
  truncate : ν → Option ℤ
  /-- The conversion of an `int` to a `double`. -/
  ofInt : CInt → ν
  /-- A member is looked up by its name. -/
  getObjectItem_eq : ∀ node label, getObjectItem node label = node.lookup label
  /-- The nodes below a node are counted. -/
  getArraySize_eq : ∀ node, getArraySize node = node.children.length
  /-- They are found by their index. -/
  getArrayItem_eq : ∀ node i, getArrayItem node i = node.children[i]?
  /-- The conversion of an `int` is exact. -/
  truncate_ofInt : ∀ n, truncate (ofInt n) = some n.val

namespace Cjson

/-- The conversion of a `double` to an `int`: the integer part, if an `int` can hold it. -/
def toInt (J : Cjson ν) (x : ν) : Option CInt :=
  match J.truncate x with
  | some n => if h : FitsInt n then some ⟨n, h⟩ else none
  | none => none

theorem toInt_ofInt (J : Cjson ν) (n : CInt) : J.toInt (J.ofInt n) = some n := by
  rw [toInt, J.truncate_ofInt n]
  exact dif_pos n.property

/-- A printer and a parser, with exact lookups and integers for numbers. -/
def exact (print : Json ℤ → Option Text) (parse : Text → Option (Json ℤ)) : Cjson ℤ where
  print := print
  parse := parse
  getObjectItem := Json.lookup
  getArraySize node := node.children.length
  getArrayItem node i := node.children[i]?
  truncate := some
  ofInt n := n.val
  getObjectItem_eq _ _ := rfl
  getArraySize_eq _ := rfl
  getArrayItem_eq _ _ := rfl
  truncate_ofInt _ := rfl

end Cjson

/-- The tree survives being printed and parsed. -/
def Cjson.Preserves (J : Cjson ν) (tree : Json ν) : Prop :=
  ∃ text, J.print tree = some text ∧ J.parse text = some tree

/-! ## The records -/

/-- `SenmlJsonType::ValueType` -/
inductive SenmlValueType where
  /-- `NUMBER` -/
  | number
  /-- `STRING` -/
  | string
  /-- `BOOLEAN` -/
  | boolean
  /-- `DATA` -/
  | data
deriving DecidableEq, Repr

/-- `SenmlJsonType::Value` -/
structure SenmlValue (ν : Type) [Zero ν] where
  /-- `type` -/
  type : SenmlValueType := .number
  /-- `asNumber` -/
  asNumber : ν := 0
  /-- `asString` -/
  asString : Text := []
  /-- `asBoolean` -/
  asBoolean : Bool := false
  /-- `asData` -/
  asData : List UInt8 := []

/-- `SenmlJsonType` -/
structure SenmlJsonType (ν : Type) [Zero ν] where
  /-- `name` -/
  name : Text := []
  /-- `unit` -/
  unit : Text := []
  /-- `value` -/
  value : SenmlValue ν := {}
  /-- `sum` -/
  sum : ν := 0
  /-- `time` -/
  time : ν := 0
  /-- `updateTime` -/
  updateTime : ν := 0

/-- The members of `SenmlJson` whose names start with `m_base`. -/
structure SenmlBase (ν : Type) [Zero ν] where
  /-- `m_baseName` -/
  name : Text := []
  /-- `m_baseUnit` -/
  unit : Text := []
  /-- `m_baseTime` -/
  time : ν := 0
  /-- `m_baseValue` -/
  value : ν := 0
  /-- `m_baseSum` -/
  sum : ν := 0
  /-- `m_baseVersion` -/
  version : CInt := 0

/-- `SenmlJson` -/
structure SenmlJson (ν : Type) [Zero ν] where
  /-- `m_payload` -/
  payload : List (SenmlJsonType ν) := []
  /-- `m_json` -/
  json : Option Text := none
  /-- The base fields. -/
  base : SenmlBase ν := {}

variable [Zero ν]

/-- `clear`, which resets every member. -/
def SenmlJson.clear (_ : SenmlJson ν) : SenmlJson ν where
  payload := []
  json := none
  base := {}

/-! ## The labels -/

namespace Label

/-- `bn` -/
abbrev bn : Text := [98, 110]

/-- `bt` -/
abbrev bt : Text := [98, 116]

/-- `bu` -/
abbrev bu : Text := [98, 117]

/-- `bv` -/
abbrev bv : Text := [98, 118]

/-- `bs` -/
abbrev bs : Text := [98, 115]

/-- `bver` -/
abbrev bver : Text := [98, 118, 101, 114]

/-- `n` -/
abbrev n : Text := [110]

/-- `u` -/
abbrev u : Text := [117]

/-- `v` -/
abbrev v : Text := [118]

/-- `vs` -/
abbrev vs : Text := [118, 115]

/-- `vb` -/
abbrev vb : Text := [118, 98]

/-- `vd` -/
abbrev vd : Text := [118, 100]

/-- `s` -/
abbrev s : Text := [115]

/-- `t` -/
abbrev t : Text := [116]

/-- `ut` -/
abbrev ut : Text := [117, 116]

end Label

/-- `labels` -/
def labels : List Text :=
  [Label.bn, Label.bt, Label.bu, Label.bv, Label.bs, Label.bver, Label.n, Label.u, Label.v,
    Label.vs, Label.vb, Label.vd, Label.s, Label.t, Label.ut]

/-- `strncmp(label, s, strlen(label)) == 0` -/
def startsWith (s label : Text) : Bool := label.isPrefixOf s

/-! ## Writing -/

/-- Which of the calls that `create_json` makes for a record succeed. -/
structure RecordOutcomes where
  /-- `cJSON_CreateObject` -/
  object : Bool := true
  /-- `cJSON_CreateString` for the name. -/
  name : Bool := true
  /-- `cJSON_CreateString` for the unit. -/
  unit : Bool := true
  /-- `cJSON_CreateNumber` for the time. -/
  time : Bool := true
  /-- The memory for the encoded data. -/
  encode : Bool := true
  /-- The call that creates the value. -/
  value : Bool := true

/-- Which of the calls that `create_json` makes succeed. -/
structure Outcomes where
  /-- `cJSON_CreateArray` -/
  array : Bool := true
  /-- The calls for the record at an index. -/
  record : ℕ → RecordOutcomes := fun _ ↦ {}

/-- The member that `create_json` adds for a value. -/
def SenmlValue.toMember (value : SenmlValue ν) : Text × Json ν :=
  match value.type with
  | .number => (Label.v, .number value.asNumber)
  | .string => (Label.vs, .string (cstr value.asString))
  | .boolean => (Label.vb, .bool value.asBoolean)
  | .data => (Label.vd, .string (Base64.encode value.asData))

/-- The object that `create_json` builds from a record. -/
def SenmlJsonType.toTree (record : SenmlJsonType ν) : Json ν :=
  .object [(Label.n, .string (cstr record.name)), (Label.u, .string (cstr record.unit)),
    (Label.t, .number record.time), record.value.toMember]

/-- The `switch` of `create_json`: whether the value is there, and `ec`. -/
def createValue (o : RecordOutcomes) (type : SenmlValueType) (ec : Option ErrorCode) :
    Bool × Option ErrorCode :=
  match type with
  | .number | .string | .boolean => (o.value, ec)
  | .data => if o.encode then (o.value, none) else (false, some (.coap .memoryAllocate))

/-- The loop of `create_json`, from the record at index `i` on; `none` if it goes to
`forced_exit`. -/
def createRecords (o : Outcomes) :
    ℕ → List (SenmlJsonType ν) → Option ErrorCode → Option (List (Json ν)) × Option ErrorCode
  | _, [], ec => (some [], ec)
  | i, record :: records, ec =>
    let calls := o.record i
    if !calls.object || !calls.name || !calls.unit || !calls.time then (none, ec)
    else
      let (created, ec) := createValue calls record.value.type ec
      if !created then (none, ec)
      else
        let (trees, ec) := createRecords o (i + 1) records ec
        (trees.map (record.toTree :: ·), ec)

/-- `create_json` -/
def createJson (J : Cjson ν) (o : Outcomes) (s : SenmlJson ν) : SenmlJson ν × Option ErrorCode :=
  if s.payload.isEmpty then (s, some (.coap .noPayload))
  else
    let ec : Option ErrorCode := some (.coap .createJson)
    if !o.array then (s, ec)
    else
      match createRecords o 0 s.payload ec with
      | (none, ec) => (s, ec)
      | (some trees, _) => ({ s with json := J.print (.array trees) }, none)

/-! ## Reading -/

/-- `copy` to where a vector begins, which must have room. -/
def copyInto (vector source : List UInt8) : Except Fault (List UInt8) :=
  if vector.length < source.length then .error (.outOfBounds vector.length)
  else .ok (source ++ vector.drop source.length)

/-- The part of `parse_record` for strings; `none` if it returns. -/
def parseString (label value : Text) (base : SenmlBase ν) (record : SenmlJsonType ν) :
    Except Fault (Option (SenmlBase ν × SenmlJsonType ν)) :=
  if startsWith Label.bn label then return some ({ base with name := value }, record)
  else if startsWith Label.bu label then return some ({ base with unit := value }, record)
  else if startsWith Label.n label then return some (base, { record with name := value })
  else if startsWith Label.u label then return some (base, { record with unit := value })
  else if startsWith Label.vs label then
    let value := { record.value with type := .string, asString := value }
    return some (base, { record with value })
  else if startsWith Label.vd label then do
    let asData ← copyInto record.value.asData value
    let value := { record.value with type := .data, asData }
    return some (base, { record with value })
  else return none

/-- The part of `parse_record` for numbers; `none` if it returns. -/
def parseNumber (J : Cjson ν) (label : Text) (value : ν) (base : SenmlBase ν)
    (record : SenmlJsonType ν) : Except Fault (Option (SenmlBase ν × SenmlJsonType ν)) :=
  if startsWith Label.bt label then return some ({ base with time := value }, record)
  else if startsWith Label.bv label then return some ({ base with value }, record)
  else if startsWith Label.bs label then return some ({ base with sum := value }, record)
  else if startsWith Label.bver label then
    match J.toInt value with
    | some version => return some ({ base with version }, record)
    | none => throw .conversion
  else if startsWith Label.v label then
    let value := { record.value with type := .number, asNumber := value }
    return some (base, { record with value })
  else if startsWith Label.s label then return some (base, { record with sum := value })
  else if startsWith Label.t label then return some (base, { record with time := value })
  else if startsWith Label.ut label then return some (base, { record with updateTime := value })
  else return none

/-- One turn of the loop of `parse_record` for a label that was found; `none` if it returns. -/
def parseItem (J : Cjson ν) (label : Text) (item : Json ν) (base : SenmlBase ν)
    (record : SenmlJsonType ν) : Except Fault (Option (SenmlBase ν × SenmlJsonType ν)) :=
  match item with
  | .string text => parseString label (cstr text) base record
  | .number x => parseNumber J label x base record
  | .bool b =>
    if startsWith Label.vb label then
      let value := { record.value with type := .boolean, asBoolean := b }
      return some (base, { record with value })
    else return some (base, record)
  | _ => return some (base, record)

/-- The loop of `parse_record` over the labels: the base fields, and the record unless the function
returned early. -/
def parseItems (J : Cjson ν) (node : Json ν) :
    List Text → SenmlBase ν → SenmlJsonType ν →
      Except Fault (SenmlBase ν × Option (SenmlJsonType ν))
  | [], base, record => return (base, some record)
  | label :: rest, base, record =>
    match J.getObjectItem node label with
    | none => parseItems J node rest base record
    | some item => do
      match ← parseItem J label item base record with
      | none => return (base, none)
      | some (base, record) => parseItems J node rest base record

/-- `parse_record` -/
def parseSenmlRecord (J : Cjson ν) (s : SenmlJson ν) (node : Json ν) :
    Except Fault (SenmlJson ν × Option ErrorCode) := do
  match ← parseItems J node labels s.base {} with
  | (base, none) => return ({ s with base }, some (.coap .parseJson))
  | (base, some record) => return ({ s with base, payload := s.payload ++ [record] }, none)

/-- The loop of `parse_json` from the element at index `i` on, with `count` elements left. -/
def parseElements (J : Cjson ν) (root : Json ν) :
    ℕ → ℕ → SenmlJson ν → Option ErrorCode → Except Fault (SenmlJson ν × Option ErrorCode)
  | 0, _, s, _ => return (s, none)
  | count + 1, i, s, ec =>
    match J.getArrayItem root i with
    | none => return (s, ec)
    | some element => do
      let (s, ec) ← parseSenmlRecord J s element
      if ec.isSome then
        return (s, ec)
      parseElements J root count (i + 1) s ec

/-- `parse_json` -/
def parseJson (J : Cjson ν) (s : SenmlJson ν) (json : Option Text) :
    Except Fault (SenmlJson ν × Option ErrorCode) :=
  match json with
  | none => return (s, some (.system .efault))
  | some text =>
    let s := s.clear
    let ec := some (.coap .parseJson)
    match J.parse text with
    | none => return (s, ec)
    | some root =>
      let size := J.getArraySize root
      if size = 0 then return (s, ec)
      else parseElements J root size 0 s ec

/-! ## What is read from a tree -/

/-- A label of an element, and what stands under it. -/
structure Entry (ν : Type) where
  /-- The label. -/
  label : Text
  /-- What stands under it. -/
  item : Json ν

/-- The entries of an element under some of the labels. -/
def Json.entriesUnder (element : Json ν) (ls : List Text) : List (Entry ν) :=
  ls.filterMap fun label ↦ (element.lookup label).map fun item ↦ ⟨label, item⟩

/-- The entries of an element. -/
def Json.entries (element : Json ν) : List (Entry ν) := element.entriesUnder labels

/-- The labels a string may stand under. -/
def stringLabels : List Text :=
  [Label.bn, Label.bu, Label.n, Label.u, Label.v, Label.vs, Label.vd]

/-- The labels a number may stand under. -/
def numberLabels : List Text :=
  [Label.bt, Label.bv, Label.bs, Label.bver, Label.u, Label.v, Label.s, Label.t, Label.ut]

namespace Entry

/-- What stands under the label may stand there. -/
def legible (e : Entry ν) : Bool :=
  match e.item with
  | .string _ => e.label ∈ stringLabels
  | .number _ => e.label ∈ numberLabels
  | _ => true

/-- What goes wrong with an entry that may stand there: data that is not empty, or a base version
that is no `int`. -/
def fault (J : Cjson ν) (e : Entry ν) : Option Fault :=
  match e.item with
  | .string text => if e.label = Label.vd ∧ cstr text ≠ [] then some (.outOfBounds 0) else none
  | .number x => if e.label = Label.bver ∧ J.toInt x = none then some .conversion else none
  | _ => none

/-- The base fields behind an entry. -/
def note (J : Cjson ν) (base : SenmlBase ν) (e : Entry ν) : SenmlBase ν :=
  match e.item with
  | .string text =>
    if e.label = Label.bn then { base with name := cstr text }
    else if e.label = Label.bu then { base with unit := cstr text }
    else base
  | .number x =>
    if e.label = Label.bt then { base with time := x }
    else if e.label = Label.bv then { base with value := x }
    else if e.label = Label.bs then { base with sum := x }
    else if e.label = Label.bver then
      { base with version := (J.toInt x).getD base.version }
    else base
  | _ => base

/-- The record behind an entry, as far as it is not data. -/
def fill (record : SenmlJsonType ν) (e : Entry ν) : SenmlJsonType ν :=
  match e.item with
  | .string text =>
    if e.label = Label.n then { record with name := cstr text }
    else if e.label = Label.u then { record with unit := cstr text }
    -- the comparison takes `v` for the beginning of `vs`
    else if e.label = Label.v ∨ e.label = Label.vs then
      { record with value := { record.value with type := .string, asString := cstr text } }
    else if e.label = Label.vd then
      { record with value := { record.value with type := .data } }
    else record
  | .number x =>
    if e.label = Label.v then
      { record with value := { record.value with type := .number, asNumber := x } }
    else if e.label = Label.s then { record with sum := x }
    else if e.label = Label.t then { record with time := x }
    -- and `u` for the beginning of `ut`
    else if e.label = Label.u ∨ e.label = Label.ut then { record with updateTime := x }
    else record
  | .bool b =>
    if e.label = Label.v ∨ e.label = Label.vb then
      { record with value := { record.value with type := .boolean, asBoolean := b } }
    else record
  | _ => record

@[simp] theorem asData_fill (record : SenmlJsonType ν) (e : Entry ν) :
    (e.fill record).value.asData = record.value.asData := by
  unfold fill
  cases e.item <;> dsimp only <;> split_ifs <;> rfl

theorem copyInto_nil (source : List UInt8) :
    copyInto [] source = if source = [] then .ok [] else .error (.outOfBounds 0) := by
  cases source with
  | nil => rfl
  | cons b source => rfl

omit [Zero ν] in
theorem fault_vd (J : Cjson ν) (text : Text) :
    fault J ⟨Label.vd, .string text⟩ = if cstr text = [] then none else some (.outOfBounds 0) := by
  by_cases htext : cstr text = []
  · rw [if_pos htext]
    exact if_neg fun h ↦ h.2 htext
  · rw [if_neg htext]
    exact if_pos ⟨rfl, htext⟩

/-- The text of a `vd` entry is copied to where an empty vector begins. -/
theorem parseItem_vd (J : Cjson ν) (text : Text) (base : SenmlBase ν) {record : SenmlJsonType ν}
    (hdata : record.value.asData = []) :
    parseItem J Label.vd (.string text) base record =
      match fault J ⟨Label.vd, .string text⟩ with
      | some f => .error f
      | none => .ok (some (base, fill record ⟨Label.vd, .string text⟩)) := by
  have hcopy : parseItem J Label.vd (.string text) base record = (do
      let asData ← copyInto record.value.asData (cstr text)
      let value := { record.value with type := .data, asData }
      return some (base, { record with value })) := rfl
  rw [hcopy, hdata, copyInto_nil, fault_vd]
  by_cases htext : cstr text = []
  · simp only [if_pos htext, ok_bind]
    rw [← hdata]
    rfl
  · simp only [if_neg htext, error_bind]

omit [Zero ν] in
theorem fault_bver (J : Cjson ν) (x : ν) :
    fault J ⟨Label.bver, .number x⟩ =
      match J.toInt x with
      | some _ => none
      | none => some .conversion := by
  cases hint : J.toInt x with
  | none => exact if_pos ⟨rfl, hint⟩
  | some version => exact if_neg fun h ↦ by simp [hint] at h

theorem parseItem_bver (J : Cjson ν) (x : ν) (base : SenmlBase ν) (record : SenmlJsonType ν) :
    parseItem J Label.bver (.number x) base record =
      match fault J ⟨Label.bver, .number x⟩ with
      | some f => .error f
      | none => .ok (some (note J base ⟨Label.bver, .number x⟩, record)) := by
  have hconvert : parseItem J Label.bver (.number x) base record =
      match J.toInt x with
      | some version => .ok (some ({ base with version }, record))
      | none => .error .conversion := rfl
  have hnote : note J base ⟨Label.bver, .number x⟩ =
      { base with version := (J.toInt x).getD base.version } := rfl
  rw [hconvert, hnote, fault_bver]
  cases J.toInt x with
  | none => rfl
  | some version => rfl

/-- **One turn of the loop** over the labels, for a record that has no data yet. -/
theorem parseItem_eq (J : Cjson ν) {e : Entry ν} (he : e.label ∈ labels) (base : SenmlBase ν)
    {record : SenmlJsonType ν} (hdata : record.value.asData = []) :
    parseItem J e.label e.item base record =
      match e.fault J with
      | some f => .error f
      | none => .ok (if e.legible then some (e.note J base, e.fill record) else none) := by
  obtain ⟨label, item⟩ := e
  dsimp only at he ⊢
  cases item with
  | null | array _ | object _ => rfl
  | bool b => fin_cases he <;> rfl
  | number x =>
    by_cases hbver : label = Label.bver
    · subst hbver
      exact parseItem_bver J x base record
    · have hnone : (⟨label, .number x⟩ : Entry ν).fault J = none := if_neg fun h ↦ hbver h.1
      rw [hnone]
      fin_cases he <;> first | rfl | exact absurd rfl hbver
  | string text =>
    by_cases hvd : label = Label.vd
    · subst hvd
      exact parseItem_vd J text base hdata
    · have hnone : (⟨label, .string text⟩ : Entry ν).fault J = none := if_neg fun h ↦ hvd h.1
      rw [hnone]
      fin_cases he <;> first | rfl | exact absurd rfl hvd

@[simp] theorem asData_foldl_fill (es : List (Entry ν)) (record : SenmlJsonType ν) :
    (es.foldl fill record).value.asData = record.value.asData := by
  induction es generalizing record with
  | nil => rfl
  | cons e es ih => rw [List.foldl_cons, ih, asData_fill]

end Entry

omit [Zero ν] in
/-- What is not legible is refused before anything goes wrong with it. -/
theorem Entry.fault_of_not_legible (J : Cjson ν) {e : Entry ν} (h : ¬ e.legible) :
    e.fault J = none := by
  obtain ⟨label, item⟩ := e
  cases item with
  | string text =>
    refine if_neg fun hfault ↦ h ?_
    obtain rfl : label = Label.vd := hfault.1
    rfl
  | number x =>
    refine if_neg fun hfault ↦ h ?_
    obtain rfl : label = Label.bver := hfault.1
    rfl
  | _ => rfl

/-- Everything in the element is legible. -/
def Json.legible (element : Json ν) : Bool := element.entries.all Entry.legible

/-- The record that is read from an element. -/
def Json.record (element : Json ν) : SenmlJsonType ν := element.entries.foldl Entry.fill {}

/-- The entries in front of the first one that is not legible. -/
def legibleFront (es : List (Entry ν)) : List (Entry ν) := es.takeWhile Entry.legible

/-- The first thing that goes wrong in front of the first entry that is not legible. -/
def frontFault (J : Cjson ν) (es : List (Entry ν)) : Option Fault :=
  (legibleFront es).findSome? (Entry.fault J)

omit [Zero ν] in
theorem legibleFront_cons (e : Entry ν) (es : List (Entry ν)) :
    legibleFront (e :: es) = if e.legible then e :: legibleFront es else [] := List.takeWhile_cons

omit [Zero ν] in
theorem frontFault_eq_none {J : Cjson ν} {es : List (Entry ν)} :
    frontFault J es = none ↔ ∀ e ∈ legibleFront es, e.fault J = none := by
  rw [frontFault, List.findSome?_eq_none_iff]

omit [Zero ν] in
theorem frontFault_cons_of_fault {J : Cjson ν} {e : Entry ν} {f : Fault} (h : e.fault J = some f)
    (es : List (Entry ν)) : frontFault J (e :: es) = some f := by
  have hlegible : e.legible := by
    by_contra hnot
    rw [Entry.fault_of_not_legible J hnot] at h
    cases h
  rw [frontFault, legibleFront_cons, if_pos hlegible,
    List.findSome?_cons_of_isSome (by simp [h]), h]

omit [Zero ν] in
theorem frontFault_cons_of_none {J : Cjson ν} {e : Entry ν} (h : e.fault J = none)
    (es : List (Entry ν)) :
    frontFault J (e :: es) = if e.legible then frontFault J es else none := by
  rw [frontFault, legibleFront_cons]
  split
  · rw [List.findSome?_cons_of_isNone (by simp [h]), frontFault]
  · rfl

omit [Zero ν] in
theorem legibleFront_append_of_all {es : List (Entry ν)} (h : es.all Entry.legible)
    (rest : List (Entry ν)) :
    legibleFront (es ++ rest) = es ++ legibleFront rest :=
  List.takeWhile_append_of_pos (List.all_eq_true.mp h)

omit [Zero ν] in
theorem legibleFront_of_all {es : List (Entry ν)} (h : es.all Entry.legible) :
    legibleFront es = es :=
  List.takeWhile_eq_self_iff.mpr (List.all_eq_true.mp h)

omit [Zero ν] in
theorem legibleFront_append_of_not_all {es : List (Entry ν)} (h : ¬ es.all Entry.legible)
    (rest : List (Entry ν)) : legibleFront (es ++ rest) = legibleFront es := by
  induction es with
  | nil => exact absurd rfl h
  | cons e es ih =>
    rw [List.cons_append, legibleFront_cons, legibleFront_cons]
    split
    · rename_i he
      rw [List.all_cons, he, Bool.true_and] at h
      rw [ih h]
    · rfl

omit [Zero ν] in
theorem Json.entriesUnder_cons_none {element : Json ν} {label : Text}
    (h : element.lookup label = none) (ls : List Text) :
    element.entriesUnder (label :: ls) = element.entriesUnder ls := by
  simp [entriesUnder, h]

omit [Zero ν] in
theorem Json.entriesUnder_cons_some {element item : Json ν} {label : Text}
    (h : element.lookup label = some item) (ls : List Text) :
    element.entriesUnder (label :: ls) = ⟨label, item⟩ :: element.entriesUnder ls := by
  simp [entriesUnder, h]

/-- **The loop over the labels** of an element. -/
theorem parseItems_eq (J : Cjson ν) (node : Json ν) {ls : List Text} (hls : ls ⊆ labels)
    (base : SenmlBase ν) {record : SenmlJsonType ν} (hdata : record.value.asData = []) :
    parseItems J node ls base record =
      match frontFault J (node.entriesUnder ls) with
      | some f => .error f
      | none => .ok ((legibleFront (node.entriesUnder ls)).foldl (Entry.note J) base,
          if (node.entriesUnder ls).all Entry.legible then
            some ((node.entriesUnder ls).foldl Entry.fill record)
          else none) := by
  induction ls generalizing base record with
  | nil => rfl
  | cons label rest ih =>
    have hrest : rest ⊆ labels := fun l hl ↦ hls (List.mem_cons_of_mem _ hl)
    rw [parseItems, J.getObjectItem_eq]
    cases hitem : node.lookup label with
    | none =>
      rw [Json.entriesUnder_cons_none hitem]
      exact ih hrest base hdata
    | some item =>
      have he : (⟨label, item⟩ : Entry ν).label ∈ labels := hls List.mem_cons_self
      have hparse := Entry.parseItem_eq J he base hdata
      rw [Json.entriesUnder_cons_some hitem]
      dsimp only at hparse ⊢
      rw [hparse]
      generalize (⟨label, item⟩ : Entry ν) = e
      cases hfault : e.fault J with
      | some f => rw [frontFault_cons_of_fault hfault, error_bind]
      | none =>
        rw [frontFault_cons_of_none hfault, legibleFront_cons, ok_bind, List.all_cons]
        by_cases hlegible : e.legible
        · rw [if_pos hlegible, if_pos hlegible, if_pos hlegible, hlegible, Bool.true_and]
          exact ih hrest _ (by rw [Entry.asData_fill, hdata])
        · rw [if_neg hlegible, if_neg hlegible, if_neg hlegible,
            Bool.not_eq_true _ |>.mp hlegible]
          rfl

/-- **What `parse_record` does** with an element. -/
theorem parseSenmlRecord_eq (J : Cjson ν) (s : SenmlJson ν) (element : Json ν) :
    parseSenmlRecord J s element =
      match frontFault J element.entries with
      | some f => .error f
      | none =>
        let base := (legibleFront element.entries).foldl (Entry.note J) s.base
        .ok (if element.legible then
            ({ s with base, payload := s.payload ++ [element.record] }, none)
          else ({ s with base }, some (.coap .parseJson))) := by
  rw [parseSenmlRecord, parseItems_eq J element (List.Subset.refl _) s.base rfl,
    ← Json.entries, ← Json.legible]
  cases frontFault J element.entries with
  | some f => rfl
  | none =>
    rw [ok_bind]
    dsimp only
    by_cases hlegible : element.legible
    · rw [if_pos hlegible, if_pos hlegible]
      rfl
    · rw [if_neg hlegible, if_neg hlegible]
      rfl

omit [Zero ν] in
/-- Behind legible entries it goes on with the next ones. -/
theorem frontFault_append_of_all (J : Cjson ν) {es : List (Entry ν)} (h : es.all Entry.legible)
    (rest : List (Entry ν)) :
    frontFault J (es ++ rest) = (frontFault J es).or (frontFault J rest) := by
  rw [frontFault, legibleFront_append_of_all h, List.findSome?_append, frontFault,
    legibleFront_of_all h, frontFault]

omit [Zero ν] in
theorem frontFault_append_of_not_all (J : Cjson ν) {es : List (Entry ν)}
    (h : ¬ es.all Entry.legible) (rest : List (Entry ν)) :
    frontFault J (es ++ rest) = frontFault J es := by
  rw [frontFault, legibleFront_append_of_not_all h, frontFault]

/-- **The loop over the elements** of a document, from the index `i` on. -/
theorem parseElements_eq (J : Cjson ν) (root : Json ν) {i : ℕ} {elements : List (Json ν)}
    (h : root.children.drop i = elements) (s : SenmlJson ν) (ec : Option ErrorCode) :
    parseElements J root elements.length i s ec =
      match frontFault J (elements.flatMap Json.entries) with
      | some f => .error f
      | none =>
        .ok ({ s with
          base := (legibleFront (elements.flatMap Json.entries)).foldl (Entry.note J) s.base
          payload := s.payload ++ (elements.takeWhile Json.legible).map Json.record },
          if elements.all Json.legible then none else some (.coap .parseJson)) := by
  induction elements generalizing i s ec with
  | nil => simp [parseElements, legibleFront, frontFault]
  | cons element rest ih =>
    have hitem : J.getArrayItem root i = some element := by
      rw [J.getArrayItem_eq, ← List.head?_drop, h, List.head?_cons]
    have hrest : root.children.drop (i + 1) = rest := by
      rw [← List.tail_drop, h, List.tail_cons]
    rw [List.length_cons, parseElements, hitem]
    dsimp only
    rw [parseSenmlRecord_eq, List.flatMap_cons, List.takeWhile_cons, List.all_cons]
    by_cases hlegible : element.legible
    · have hall : element.entries.all Entry.legible := hlegible
      rw [legibleFront_append_of_all hall, legibleFront_of_all hall,
        frontFault_append_of_all J hall, if_pos hlegible]
      cases frontFault J element.entries with
      | some f => rfl
      | none =>
        rw [ok_bind, Option.none_or, hlegible, Bool.true_and]
        rw [if_pos rfl, Option.isSome_none, if_neg Bool.false_ne_true, ih hrest,
          List.foldl_append, List.map_cons]
        dsimp only
        rw [List.append_assoc]
        rfl
    · have hnot : ¬ element.entries.all Entry.legible := hlegible
      rw [legibleFront_append_of_not_all hnot, frontFault_append_of_not_all J hnot,
        if_neg hlegible, Bool.not_eq_true _ |>.mp hlegible, List.map_nil, List.append_nil,
        Bool.false_and]
      cases frontFault J element.entries with
      | some f => rfl
      | none => rfl

/-- The elements of the tree that a document is parsed as. -/
def Cjson.elements (J : Cjson ν) (document : Text) : List (Json ν) :=
  match J.parse document with
  | none => []
  | some root => root.children

/-- **What `parse_json` does** with a document, whatever the object held before. -/
theorem parseJson_eq (J : Cjson ν) (s : SenmlJson ν) (document : Text) :
    parseJson J s (some document) =
      match frontFault J ((J.elements document).flatMap Json.entries) with
      | some f => .error f
      | none =>
        .ok ({
          base :=
            (legibleFront ((J.elements document).flatMap Json.entries)).foldl (Entry.note J) {}
          payload := ((J.elements document).takeWhile Json.legible).map Json.record },
          if J.elements document ≠ [] ∧ (J.elements document).all Json.legible then none
          else some (.coap .parseJson)) := by
  rw [parseJson]
  cases hparse : J.parse document with
  | none =>
    have helements : J.elements document = [] := by rw [Cjson.elements, hparse]
    rw [helements]
    rfl
  | some root =>
    have helements : J.elements document = root.children := by rw [Cjson.elements, hparse]
    have hspec := parseElements_eq J root (List.drop_zero (l := root.children)) s.clear
      (some (.coap .parseJson))
    rw [helements]
    dsimp only
    rw [J.getArraySize_eq]
    generalize root.children = elements at *
    cases elements with
    | nil => rfl
    | cons element rest =>
      rw [if_neg (by simp), hspec]
      simp only [ne_eq, reduceCtorEq, not_false_eq_true, true_and, SenmlJson.clear,
        List.nil_append]

end Coap
