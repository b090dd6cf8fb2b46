import CoapCpp.SenmlRoundTrip
import Mathlib.Data.List.Infix

/-!
# What `create_json` reports

`create_json` sets `ec` before it starts and clears it at the end, and every call that fails jumps
behind the end.  But it also clears `ec` whenever it comes to data, for the sake of the encoder, and
it prints the document when `ec` is already clear.

`reportsTruthfully_iff` says which failures are not reported: those behind the first data, and that
of the printer.
-/

set_option autoImplicit false

namespace Coap

open CString Memory

variable {ν : Type} [Zero ν]

/-! ## The calls for a record -/

namespace RecordOutcomes

/-- The calls in front of the value succeed. -/
def begins (calls : RecordOutcomes) : Bool := calls.object && calls.name && calls.unit && calls.time

/-- All calls for a record with a value of this kind succeed. -/
def succeeds (calls : RecordOutcomes) (type : SenmlValueType) : Bool :=
  calls.begins && (type ≠ .data || calls.encode) && calls.value

/-- Data is encoded, which leaves `ec` clear. -/
def encodes (calls : RecordOutcomes) (type : SenmlValueType) : Bool :=
  calls.begins && type = .data && calls.encode

/-- The encoder fails, which sets `ec`. -/
def encodeFails (calls : RecordOutcomes) (type : SenmlValueType) : Bool :=
  calls.begins && type = .data && !calls.encode

end RecordOutcomes

/-- All calls for a record at an index succeed. -/
def Outcomes.succeeds (o : Outcomes) (p : SenmlJsonType ν × ℕ) : Bool :=
  (o.record p.2).succeeds p.1.value.type

/-- A failure among the records that leaves `ec` clear: its record is data that was encoded, or it
is not the encoder that fails, and `ec` was clear before or has been cleared for data. -/
def Outcomes.Hides (o : Outcomes) (cleared : Prop) (records : List (SenmlJsonType ν × ℕ)) : Prop :=
  ∃ before p after, records = before ++ p :: after ∧ (∀ q ∈ before, o.succeeds q = true) ∧
    o.succeeds p = false ∧
    ((o.record p.2).encodes p.1.value.type = true ∨
      (o.record p.2).encodeFails p.1.value.type = false ∧
        (cleared ∨ ∃ q ∈ before, q.1.value.type = .data))

/-! ## The loop -/

theorem Outcomes.hides_cons (o : Outcomes) (cleared : Prop) (p : SenmlJsonType ν × ℕ)
    (records : List (SenmlJsonType ν × ℕ)) :
    o.Hides cleared (p :: records) ↔
      o.succeeds p = false ∧ ((o.record p.2).encodes p.1.value.type = true ∨
        (o.record p.2).encodeFails p.1.value.type = false ∧ cleared) ∨
      o.succeeds p = true ∧ o.Hides (cleared ∨ p.1.value.type = .data) records := by
  constructor
  · rintro ⟨before, q, after, heq, hbefore, hfails, hhidden⟩
    cases before with
    | nil =>
      rw [List.nil_append, List.cons.injEq] at heq
      obtain ⟨rfl, rfl⟩ := heq
      simp only [List.not_mem_nil, false_and, exists_false, or_false] at hhidden
      exact .inl ⟨hfails, hhidden⟩
    | cons first before =>
      rw [List.cons_append, List.cons.injEq] at heq
      obtain ⟨rfl, rfl⟩ := heq
      rw [List.forall_mem_cons] at hbefore
      rw [List.exists_mem_cons_iff, ← or_assoc] at hhidden
      exact .inr ⟨hbefore.1, before, q, after, rfl, hbefore.2, hfails, hhidden⟩
  · rintro (⟨hfails, hhidden⟩ | ⟨hsucceeds, before, q, after, rfl, hbefore, hfails, hhidden⟩)
    · refine ⟨[], p, records, rfl, fun q hq ↦ absurd hq List.not_mem_nil, hfails, ?_⟩
      simpa only [List.not_mem_nil, false_and, exists_false, or_false] using hhidden
    · refine ⟨p :: before, q, after, rfl, List.forall_mem_cons.mpr ⟨hsucceeds, hbefore⟩, hfails, ?_⟩
      rwa [List.exists_mem_cons_iff, ← or_assoc]

theorem createRecords_cons (o : Outcomes) (i : ℕ) (record : SenmlJsonType ν)
    (records : List (SenmlJsonType ν)) (ec : Option ErrorCode) :
    createRecords o i (record :: records) ec =
      if o.succeeds (record, i) then
        let r := createRecords o (i + 1) records (if record.value.type = .data then none else ec)
        (r.1.map (record.toTree :: ·), r.2)
      else (none,
        if (o.record i).encodes record.value.type then none
        else if (o.record i).encodeFails record.value.type then some (.coap .memoryAllocate)
        else ec) := by
  rw [createRecords, Outcomes.succeeds]
  generalize o.record i = calls
  obtain ⟨object, name, unit, time, encode, value⟩ := calls
  generalize record.value.type = type
  -- one case for each kind of value and each pattern of success
  cases type <;> cases object <;> cases name <;> cases unit <;> cases time <;> cases encode <;>
    cases value <;> rfl

/-- **What the loop reports**: it gets to its end if every call succeeds, and otherwise `ec` is
clear behind it if the failure is hidden. -/
theorem createRecords_spec (o : Outcomes) (i : ℕ) (records : List (SenmlJsonType ν))
    (ec : Option ErrorCode) :
    ((∀ p ∈ records.zipIdx i, o.succeeds p = true) →
      (createRecords o i records ec).1 = some (records.map SenmlJsonType.toTree)) ∧
    ((∃ p ∈ records.zipIdx i, o.succeeds p = false) →
      (createRecords o i records ec).1 = none ∧
        ((createRecords o i records ec).2 = none ↔ o.Hides (ec = none) (records.zipIdx i))) := by
  induction records generalizing i ec with
  | nil => exact ⟨fun _ ↦ rfl, fun ⟨p, hp, _⟩ ↦ absurd hp List.not_mem_nil⟩
  | cons record records ih =>
    obtain ⟨ihall, ihsome⟩ := ih (i + 1) (if record.value.type = .data then none else ec)
    have hcleared : (if record.value.type = .data then none else ec) = none ↔
        ec = none ∨ record.value.type = .data := by
      split <;> simp [*]
    rw [List.zipIdx_cons, List.forall_mem_cons, List.exists_mem_cons_iff, Outcomes.hides_cons,
      createRecords_cons]
    cases hfirst : o.succeeds (record, i) with
    | true =>
      simp only [if_true, Bool.true_eq_false, false_or, false_and, true_and]
      refine ⟨fun hall ↦ ?_, fun hsome ↦ ?_⟩
      · rw [ihall hall]
        rfl
      · obtain ⟨hnone, hhides⟩ := ihsome hsome
        rw [hnone, hhides, hcleared]
        exact ⟨rfl, Iff.rfl⟩
    | false =>
      simp only [Bool.false_eq_true, if_false, false_and, or_false, true_and, true_or,
        true_implies, false_implies]
      cases (o.record i).encodes record.value.type <;>
        cases (o.record i).encodeFails record.value.type <;> simp

/-! ## The report -/

/-- Every call of `create_json` in front of the printer succeeds. -/
def Outcomes.Complete (o : Outcomes) (payload : List (SenmlJsonType ν)) : Prop :=
  o.array = true ∧ ∀ p ∈ payload.zipIdx, o.succeeds p = true

/-- `create_json` reports a failure if and only if there is one. -/
structure ReportsTruthfully (J : Cjson ν) (o : Outcomes) (s : SenmlJson ν) : Prop where
  /-- `ec` is clear if the document of all the records was made and is there now. -/
  clear : (createJson J o s).2 = none ↔ o.Complete s.payload ∧
    ∃ text, J.print s.tree = some text ∧ (createJson J o s).1.json = some text
  /-- If a call fails, `ec` is set and the document is the one that was there before. -/
  failed : ¬ (o.Complete s.payload ∧ (J.print s.tree).isSome = true) →
    (createJson J o s).2 ≠ none ∧ (createJson J o s).1.json = s.json

theorem createJson_of_not_complete (J : Cjson ν) {o : Outcomes} {s : SenmlJson ν}
    (hne : s.payload ≠ []) (h : ¬ o.Complete s.payload) :
    (createJson J o s).1 = s ∧
      ((createJson J o s).2 = none ↔ o.array = true ∧ o.Hides False s.payload.zipIdx) := by
  rw [createJson, if_neg (by simpa using hne)]
  cases harray : o.array with
  | false => simp
  | true =>
    have hsome : ∃ p ∈ s.payload.zipIdx, o.succeeds p = false := by
      by_contra hnone
      exact h ⟨harray, fun p hp ↦ by
        by_contra hp'
        exact hnone ⟨p, hp, Bool.eq_false_iff.mpr hp'⟩⟩
    obtain ⟨hfst, hsnd⟩ :=
      (createRecords_spec o 0 s.payload (some (.coap .createJson))).2 hsome
    rw [eq_false (Option.some_ne_none _)] at hsnd
    simp only [Bool.not_true, Bool.false_eq_true, if_false, true_and]
    generalize createRecords o 0 s.payload (some (.coap .createJson)) = created at hfst hsnd
    obtain ⟨trees, ec⟩ := created
    obtain rfl : trees = none := hfst
    exact ⟨rfl, hsnd⟩

theorem createJson_of_complete (J : Cjson ν) {o : Outcomes} {s : SenmlJson ν}
    (hne : s.payload ≠ []) (h : o.Complete s.payload) :
    createJson J o s = ({ s with json := J.print s.tree }, none) := by
  have hfst := (createRecords_spec o 0 s.payload (some (.coap .createJson))).1 h.2
  rw [createJson, if_neg (by simpa using hne)]
  simp only [h.1, Bool.not_true, Bool.false_eq_true, if_false]
  generalize createRecords o 0 s.payload (some (.coap .createJson)) = created at hfst
  obtain ⟨trees, ec⟩ := created
  obtain rfl : trees = some (s.payload.map SenmlJsonType.toTree) := hfst
  rfl

/-- **When `create_json` reports truthfully.**  The array is not created; or no failure among the
records is hidden, and the printer does not fail if it is called. -/
theorem reportsTruthfully_iff (J : Cjson ν) (o : Outcomes) (s : SenmlJson ν)
    (hne : s.payload ≠ []) :
    ReportsTruthfully J o s ↔
      (o.array = true → ¬ o.Hides False s.payload.zipIdx) ∧
        (o.Complete s.payload → (J.print s.tree).isSome = true) := by
  by_cases hcomplete : o.Complete s.payload
  · have hcreate := createJson_of_complete J hne hcomplete
    have hhides : ¬ o.Hides False s.payload.zipIdx := by
      rintro ⟨before, p, after, heq, -, hfails, -⟩
      have hp : p ∈ s.payload.zipIdx := heq ▸ List.mem_append_right _ List.mem_cons_self
      rw [hcomplete.2 p hp] at hfails
      cases hfails
    constructor
    · intro htruthful
      obtain ⟨-, text, hprint, -⟩ := htruthful.clear.mp (by rw [hcreate])
      exact ⟨fun _ ↦ hhides, fun _ ↦ by rw [hprint]; rfl⟩
    · rintro ⟨-, hprint⟩
      obtain ⟨text, htext⟩ := Option.isSome_iff_exists.mp (hprint hcomplete)
      refine ⟨?_, fun h ↦ absurd ⟨hcomplete, hprint hcomplete⟩ h⟩
      rw [hcreate]
      exact iff_of_true rfl ⟨hcomplete, text, htext, htext⟩
  · obtain ⟨hfst, hsnd⟩ := createJson_of_not_complete J hne hcomplete
    constructor
    · intro htruthful
      refine ⟨fun harray hhides ↦ ?_, fun h ↦ absurd h hcomplete⟩
      exact (htruthful.failed fun h ↦ hcomplete h.1).1 (hsnd.mpr ⟨harray, hhides⟩)
    · rintro ⟨hhides, -⟩
      have hset : (createJson J o s).2 ≠ none := fun h ↦
        hhides (hsnd.mp h).1 (hsnd.mp h).2
      refine ⟨iff_of_false hset fun h ↦ hcomplete h.1, fun _ ↦ ⟨hset, ?_⟩⟩
      rw [hfst]

/-- Two records with numbers.  The object for the second one is not created, and this is reported
as an error that leaves the document as it was. -/
theorem reportsTruthfully_number :
    ReportsTruthfully (.exact (fun _ ↦ some [91, 93]) fun _ ↦ none)
        { record := fun i ↦ { object := i = 0 } }
        { payload := [recordOf {}, recordOf { asNumber := 20 }], json := some [91] } ∧
      (createJson (.exact (fun _ ↦ some [91, 93]) fun _ ↦ none)
        { record := fun i ↦ { object := i = 0 } }
        { payload := [recordOf {}, recordOf { asNumber := 20 }], json := some [91] }).2 =
          some (.coap .createJson) := by
  have hnumber : ∀ q ∈ [recordOf {}, recordOf { asNumber := 20 }].zipIdx,
      q.1.value.type = .number := by
    simp [List.zipIdx, recordOf]
  refine ⟨(reportsTruthfully_iff _ _ _ (List.cons_ne_nil _ _)).mpr ⟨fun _ ↦ ?_, fun _ ↦ rfl⟩, rfl⟩
  rintro ⟨before, p, after, heq, -, -, hhidden⟩
  dsimp only at heq
  rw [heq] at hnumber
  have hp := hnumber p (List.mem_append_right _ List.mem_cons_self)
  rcases hhidden with hencodes | ⟨-, hfalse | ⟨q, hq, hdata⟩⟩
  · simp [RecordOutcomes.encodes, hp] at hencodes
  · exact hfalse
  · rw [hnumber q (List.mem_append_left _ hq)] at hdata
    cases hdata

/-- A failure behind data is not reported, and neither is one of the printer. -/
theorem not_reportsTruthfully :
    ¬ ReportsTruthfully (.exact (fun _ ↦ some [91, 93]) fun _ ↦ none)
        { record := fun i ↦ { object := i = 0 } }
        ({ payload := [recordOf { type := .data, asData := [65] }, recordOf {}] } : SenmlJson ℤ) ∧
      ¬ ReportsTruthfully (.exact (fun _ ↦ none) fun _ ↦ none) {}
        (senderOf { asNumber := 20 }) := by
  constructor
  · intro h
    refine (h.failed fun hall ↦ ?_).1 rfl
    exact absurd (hall.1.2 (recordOf {}, 1) (by simp [List.zipIdx])) (by decide)
  · intro h
    exact (h.failed fun hall ↦ absurd hall.2 (by decide)).1 rfl

end Coap
