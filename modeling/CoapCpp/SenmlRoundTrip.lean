import CoapCpp.SenmlJson
import Mathlib.Algebra.Ring.Int.Defs

/-!
# SenML documents, there and back

What `create_json` writes, read by `parse_json`.  Every record comes back, whatever the kind of its
value, as long as no record has data: the reader never decodes the Base64 text, it copies it to
where an empty vector begins.  `survivesJson_iff` says that this is the only thing that goes wrong.
-/

set_option autoImplicit false

namespace Coap

open CString Memory

variable {ν : Type} [Zero ν]

/-! ## What a record says -/

/-- A value together with its kind. -/
inductive SenmlContent (ν : Type) where
  /-- A number. -/
  | number (x : ν)
  /-- A text. -/
  | string (text : Text)
  /-- A truth value. -/
  | boolean (b : Bool)
  /-- Any bytes. -/
  | data (bytes : List UInt8)

/-- What a value says. -/
def SenmlValue.content (value : SenmlValue ν) : SenmlContent ν :=
  match value.type with
  | .number => .number value.asNumber
  | .string => .string value.asString
  | .boolean => .boolean value.asBoolean
  | .data => .data value.asData

/-- The records have the same name, unit, time and value. -/
structure SenmlJsonType.SaysAs (r s : SenmlJsonType ν) : Prop where
  /-- The name. -/
  name : s.name = r.name
  /-- The unit. -/
  unit : s.unit = r.unit
  /-- The time. -/
  time : s.time = r.time
  /-- The kind of the value, and the value. -/
  value : s.value.content = r.value.content

/-- The texts of a record have no NUL in them. -/
structure SenmlJsonType.Printable (r : SenmlJsonType ν) : Prop where
  /-- The name. -/
  name : 0 ∉ r.name
  /-- The unit. -/
  unit : 0 ∉ r.unit
  /-- The value, if it is a text. -/
  string : r.value.type = .string → 0 ∉ r.value.asString

/-- The tree `create_json` prints. -/
def SenmlJson.tree (s : SenmlJson ν) : Json ν := .array (s.payload.map SenmlJsonType.toTree)

/-- The records of `sender` reach an object that has just been made. -/
def SurvivesJson (J : Cjson ν) (sender : SenmlJson ν) : Prop :=
  ∃ sender' text receiver, createJson J {} sender = (sender', none) ∧ sender'.json = some text ∧
    parseJson J {} (some text) = .ok (receiver, none) ∧
    List.Forall₂ SenmlJsonType.SaysAs sender.payload receiver.payload

/-! ## The sender -/

theorem createRecords_succeed (i : ℕ) (records : List (SenmlJsonType ν)) (ec : Option ErrorCode) :
    (createRecords {} i records ec).1 = some (records.map SenmlJsonType.toTree) := by
  induction records generalizing i ec with
  | nil => rfl
  | cons record records ih =>
    cases htype : record.value.type <;>
      simp [createRecords, createValue, htype, ih]

theorem createJson_succeed (J : Cjson ν) {s : SenmlJson ν} (hne : s.payload ≠ []) :
    createJson J {} s = ({ s with json := J.print s.tree }, none) := by
  have hrecords := createRecords_succeed 0 s.payload (some (.coap .createJson))
  rw [createJson, if_neg (by simpa using hne)]
  simp only [Bool.not_true, Bool.false_eq_true, if_false]
  generalize createRecords {} 0 s.payload (some (.coap .createJson)) = created at hrecords
  obtain ⟨trees, ec⟩ := created
  cases hrecords
  rfl

/-! ## The receiver -/

theorem entries_toTree (r : SenmlJsonType ν) :
    r.toTree.entries = [⟨Label.n, .string (cstr r.name)⟩, ⟨Label.u, .string (cstr r.unit)⟩,
      ⟨r.value.toMember.1, r.value.toMember.2⟩, ⟨Label.t, .number r.time⟩] := by
  cases htype : r.value.type <;>
    rw [SenmlJsonType.toTree, SenmlValue.toMember, htype] <;> rfl

theorem legible_toTree (r : SenmlJsonType ν) : r.toTree.legible := by
  rw [Json.legible, entries_toTree, SenmlValue.toMember]
  cases r.value.type <;> rfl

/-- Something goes wrong with the object only if it is built from data. -/
theorem fault_toTree (J : Cjson ν) (r : SenmlJsonType ν) :
    (∀ e ∈ r.toTree.entries, e.fault J = none) ↔
      (r.value.type = .data → r.value.asData = []) := by
  have hvd : (⟨Label.vd, .string (Base64.encode r.value.asData)⟩ : Entry ν).fault J = none ↔
      r.value.asData = [] := by
    rw [Entry.fault_vd, ite_eq_left_iff, cstr_of_notMem (Base64.zero_notMem_encode _),
      Base64.encode_eq_nil_iff]
    simp
  rw [entries_toTree, SenmlValue.toMember]
  simp only [List.forall_mem_cons]
  cases r.value.type with
  | data => exact ⟨fun h _ ↦ hvd.mp h.2.2.1, fun h ↦ ⟨rfl, rfl, hvd.mpr (h rfl), rfl, by simp⟩⟩
  | _ => exact iff_of_true ⟨rfl, rfl, rfl, rfl, by simp⟩ fun h ↦ by cases h

/-- What a value is read back as. -/
def SenmlValue.readBack (value : SenmlValue ν) : SenmlValue ν :=
  match value.type with
  | .number => { asNumber := value.asNumber }
  | .string => { type := .string, asString := cstr value.asString }
  | .boolean => { type := .boolean, asBoolean := value.asBoolean }
  | .data => { type := .data }

theorem record_toTree (r : SenmlJsonType ν) :
    r.toTree.record =
      { name := cstr r.name
        unit := cstr r.unit
        time := r.time
        value := r.value.readBack } := by
  rw [Json.record, entries_toTree, SenmlValue.toMember, SenmlValue.readBack]
  cases r.value.type <;> simp [Entry.fill]

theorem content_readBack {value : SenmlValue ν}
    (hstring : value.type = .string → 0 ∉ value.asString)
    (hdata : value.type = .data → value.asData = []) : value.readBack.content = value.content := by
  rw [SenmlValue.readBack, SenmlValue.content.eq_1 value]
  cases htype : value.type with
  | number => rfl
  | string => exact congrArg SenmlContent.string (cstr_of_notMem (hstring htype))
  | boolean => rfl
  | data => exact congrArg SenmlContent.data (hdata htype).symm

/-- The object is read as what it was built from. -/
theorem saysAs_record_toTree {r : SenmlJsonType ν} (h : r.Printable)
    (hdata : r.value.type = .data → r.value.asData = []) : r.SaysAs r.toTree.record := by
  rw [record_toTree]
  exact ⟨cstr_of_notMem h.name, cstr_of_notMem h.unit, rfl, content_readBack h.string hdata⟩

/-- **The round trip** succeeds exactly if no record has data in it.

The tree of the records survives being printed and parsed. -/
theorem survivesJson_iff (J : Cjson ν) {sender : SenmlJson ν} (hne : sender.payload ≠ [])
    (hprintable : ∀ r ∈ sender.payload, r.Printable) (hJ : J.Preserves sender.tree) :
    SurvivesJson J sender ↔ ∀ r ∈ sender.payload, r.value.type = .data → r.value.asData = [] := by
  obtain ⟨text, hprint, hparse⟩ := hJ
  have helements : J.elements text = sender.payload.map SenmlJsonType.toTree := by
    rw [Cjson.elements, hparse]
    rfl
  have hlegible : ∀ element ∈ J.elements text, element.legible = true := by
    rw [helements, List.forall_mem_map]
    exact fun r _ ↦ legible_toTree r
  have hfront : legibleFront ((J.elements text).flatMap Json.entries) =
      (J.elements text).flatMap Json.entries := by
    refine List.takeWhile_eq_self_iff.mpr fun e he ↦ ?_
    obtain ⟨element, helement, he⟩ := List.mem_flatMap.mp he
    exact List.all_eq_true.mp (hlegible element helement) e he
  have hfault : frontFault J ((J.elements text).flatMap Json.entries) = none ↔
      ∀ r ∈ sender.payload, r.value.type = .data → r.value.asData = [] := by
    rw [frontFault_eq_none, hfront, helements, List.forall_mem_flatMap, List.forall_mem_map]
    exact forall_congr' fun r ↦ imp_congr_right fun _ ↦ fault_toTree J r
  have hread := parseJson_eq J {} text
  rw [← hfault]
  cases hfirst : frontFault J ((J.elements text).flatMap Json.entries) with
  | some f =>
    refine iff_of_false ?_ (Option.some_ne_none f)
    rintro ⟨_, text', receiver, hcreate, hjson, hreceive, -⟩
    rw [createJson_succeed J hne] at hcreate
    cases hcreate
    obtain rfl : text = text' := Option.some.inj (hprint.symm.trans hjson)
    rw [hread, hfirst] at hreceive
    cases hreceive
  | none =>
    refine iff_of_true ?_ rfl
    rw [hfirst] at hread
    dsimp only at hread
    rw [if_pos ⟨by rw [helements]; simpa using hne, List.all_eq_true.mpr hlegible⟩] at hread
    refine ⟨_, text, _, createJson_succeed J hne, hprint, hread, ?_⟩
    dsimp only
    rw [List.takeWhile_eq_self_iff.mpr hlegible, helements, List.map_map,
      List.forall₂_map_right_iff, List.forall₂_same]
    exact fun r hr ↦ saysAs_record_toTree (hprintable r hr) (hfault.mp hfirst r hr)

/-- A record `a` in `m` at time 0. -/
def recordOf (value : SenmlValue ℤ) : SenmlJsonType ℤ where
  name := [97]
  unit := [109]
  value := value

/-- An object that has been given one record. -/
def senderOf (value : SenmlValue ℤ) : SenmlJson ℤ where
  payload := [recordOf value]

/-- A cJSON of which one document is known. -/
def cjsonOf (tree : Json ℤ) (document : Text) : Cjson ℤ :=
  .exact (fun _ ↦ some document) fun text ↦ if text = document then some tree else none

theorem preserves_cjsonOf (tree : Json ℤ) (document : Text) :
    (cjsonOf tree document).Preserves tree :=
  ⟨document, rfl, if_pos rfl⟩

/-- What is printed for the text `b`. -/
def stringDocument : Text :=
  [91, 123, 10, 9, 9, 34, 110, 34, 58, 9, 34, 97, 34, 44, 10, 9, 9, 34, 117, 34, 58, 9, 34, 109,
    34, 44, 10, 9, 9, 34, 116, 34, 58, 9, 48, 44, 10, 9, 9, 34, 118, 115, 34, 58, 9, 34, 98, 34,
    10, 9, 125, 93]

theorem survivesJson_string :
    SurvivesJson (cjsonOf (senderOf { type := .string, asString := [98] }).tree stringDocument)
      (senderOf { type := .string, asString := [98] }) := by
  refine (survivesJson_iff _ (List.cons_ne_nil _ _) ?_ (preserves_cjsonOf _ _)).mpr ?_
  · intro r hr
    obtain rfl := List.mem_singleton.mp hr
    exact ⟨by decide, by decide, fun _ ↦ by decide⟩
  · intro r hr htype
    obtain rfl := List.mem_singleton.mp hr
    cases htype

/-- What is printed for the byte 65. -/
def dataDocument : Text :=
  [91, 123, 10, 9, 9, 34, 110, 34, 58, 9, 34, 97, 34, 44, 10, 9, 9, 34, 117, 34, 58, 9, 34, 109,
    34, 44, 10, 9, 9, 34, 116, 34, 58, 9, 48, 44, 10, 9, 9, 34, 118, 100, 34, 58, 9, 34, 81, 81,
    61, 61, 34, 10, 9, 125, 93]

/-- The text `QQ==` is copied to where an empty vector begins. -/
theorem not_survivesJson_data :
    (recordOf { type := .data, asData := [65] }).Printable ∧
    (cjsonOf (senderOf { type := .data, asData := [65] }).tree dataDocument).Preserves
      (senderOf { type := .data, asData := [65] }).tree ∧
    ¬ SurvivesJson (cjsonOf (senderOf { type := .data, asData := [65] }).tree dataDocument)
      (senderOf { type := .data, asData := [65] }) := by
  refine ⟨⟨by decide, by decide, fun h ↦ by cases h⟩, preserves_cjsonOf _ _, ?_⟩
  rintro ⟨sender', text, receiver, hcreate, hjson, hparse, -⟩
  cases hcreate
  cases hjson
  cases hparse

end Coap
