import CoapCpp.SenmlJson
import Mathlib.Algebra.Ring.Int.Defs

/-!
# The fields of a SenML record

What `parse_record` stores where.  Every label of a record has a type and a field of its own.  The
code compares a label with the beginning of another one, and does not look at what is neither a
string nor a number, so it takes some labels for others and overlooks what stands under some.  The
base version is an `int`, and a number that is not keeps its integer part at best.

`neverConfused_iff` says for which objects this makes no difference.
-/

set_option autoImplicit false

namespace Coap

open CString Memory

variable {ν : Type}

/-! ## The labels and their fields -/

/-- The type of what stands under the label is the one the label has. -/
def Entry.wellTyped (e : Entry ν) : Bool :=
  match e.item with
  | .string _ => [Label.bn, Label.bu, Label.n, Label.u, Label.vs, Label.vd].contains e.label
  | .number _ =>
    [Label.bt, Label.bv, Label.bs, Label.bver, Label.v, Label.s, Label.t, Label.ut].contains e.label
  | .bool _ => e.label = Label.vb
  | _ => false

namespace Json

/-- A string, or else `default`. -/
def textOr (default : Text) : Json ν → Text
  | .string text => cstr text
  | _ => default

/-- A number, or else `default`. -/
def numberOr (default : ν) : Json ν → ν
  | .number x => x
  | _ => default

/-- A truth value, or else `default`. -/
def boolOr (default : Bool) : Json ν → Bool
  | .bool b => b
  | _ => default

/-- The string under a label. -/
def textUnder (node : Json ν) (label : Text) (default : Text) : Text :=
  (node.lookup label).elim default (textOr default)

/-- The number under a label. -/
def numberUnder (node : Json ν) (label : Text) (default : ν) : ν :=
  (node.lookup label).elim default (numberOr default)

/-- The truth value under a label. -/
def boolUnder (node : Json ν) (label : Text) (default : Bool) : Bool :=
  (node.lookup label).elim default (boolOr default)

end Json

/-- The kind of value a label is for. -/
def valueType (label : Text) : Option SenmlValueType :=
  if label = Label.v then some .number
  else if label = Label.vs then some .string
  else if label = Label.vb then some .boolean
  else if label = Label.vd then some .data
  else none

variable [Zero ν]

/-- Every field of the record holds what stands under its own label. -/
structure SenmlJsonType.Holds (r : SenmlJsonType ν) (node : Json ν) : Prop where
  /-- `n` -/
  name : r.name = node.textUnder Label.n []
  /-- `u` -/
  unit : r.unit = node.textUnder Label.u []
  /-- `v` -/
  asNumber : r.value.asNumber = node.numberUnder Label.v 0
  /-- `vs` -/
  asString : r.value.asString = node.textUnder Label.vs []
  /-- `vb` -/
  asBoolean : r.value.asBoolean = node.boolUnder Label.vb false
  /-- `vd` -/
  asData : r.value.asData = node.textUnder Label.vd []
  /-- The kind is that of a value that is there, or the default one. -/
  type : (∃ e ∈ node.entries, valueType e.label = some r.value.type) ∨
    r.value.type = .number ∧ ∀ e ∈ node.entries, valueType e.label = none
  /-- `s` -/
  sum : r.sum = node.numberUnder Label.s 0
  /-- `t` -/
  time : r.time = node.numberUnder Label.t 0
  /-- `ut` -/
  updateTime : r.updateTime = node.numberUnder Label.ut 0

/-- Every base field holds what stands under its own label, or what it held before. -/
structure SenmlBase.Holds (J : Cjson ν) (old new : SenmlBase ν) (node : Json ν) : Prop where
  /-- `bn` -/
  name : new.name = node.textUnder Label.bn old.name
  /-- `bu` -/
  unit : new.unit = node.textUnder Label.bu old.unit
  /-- `bt` -/
  time : new.time = node.numberUnder Label.bt old.time
  /-- `bv` -/
  value : new.value = node.numberUnder Label.bv old.value
  /-- `bs` -/
  sum : new.sum = node.numberUnder Label.bs old.sum
  /-- `bver` -/
  version : match node.lookup Label.bver with
    | some (.number x) => J.ofInt new.version = x
    | _ => new.version = old.version

/-! ## One entry -/

/-- What an entry of the right type changes in a record. -/
def SenmlJsonType.store (r : SenmlJsonType ν) (e : Entry ν) : SenmlJsonType ν where
  name := if e.label = Label.n then e.item.textOr r.name else r.name
  unit := if e.label = Label.u then e.item.textOr r.unit else r.unit
  value :=
    { type := (valueType e.label).getD r.value.type
      asNumber := if e.label = Label.v then e.item.numberOr r.value.asNumber else r.value.asNumber
      asString := if e.label = Label.vs then e.item.textOr r.value.asString else r.value.asString
      asBoolean := if e.label = Label.vb then e.item.boolOr r.value.asBoolean
        else r.value.asBoolean
      asData := r.value.asData }
  sum := if e.label = Label.s then e.item.numberOr r.sum else r.sum
  time := if e.label = Label.t then e.item.numberOr r.time else r.time
  updateTime := if e.label = Label.ut then e.item.numberOr r.updateTime else r.updateTime

/-- What an entry of the right type changes in the base fields. -/
def SenmlBase.store (J : Cjson ν) (base : SenmlBase ν) (e : Entry ν) : SenmlBase ν where
  name := if e.label = Label.bn then e.item.textOr base.name else base.name
  unit := if e.label = Label.bu then e.item.textOr base.unit else base.unit
  time := if e.label = Label.bt then e.item.numberOr base.time else base.time
  value := if e.label = Label.bv then e.item.numberOr base.value else base.value
  sum := if e.label = Label.bs then e.item.numberOr base.sum else base.sum
  version := if e.label = Label.bver then
      match e.item with
      | .number x => (J.toInt x).getD base.version
      | _ => base.version
    else base.version

namespace Entry

omit [Zero ν] in
/-- What has to be shown about an entry of the right type. -/
theorem wellTyped_elim {P : Entry ν → Prop}
    (hstring : ∀ label ∈ [Label.bn, Label.bu, Label.n, Label.u, Label.vs, Label.vd],
      ∀ text, P ⟨label, .string text⟩)
    (hnumber : ∀ label ∈ [Label.bt, Label.bv, Label.bs, Label.bver, Label.v, Label.s, Label.t,
      Label.ut], ∀ x, P ⟨label, .number x⟩)
    (hbool : ∀ b, P ⟨Label.vb, .bool b⟩) {e : Entry ν} (h : e.wellTyped) : P e := by
  obtain ⟨label, item⟩ := e
  cases item with
  | string text => exact hstring label (List.contains_iff_mem.mp h) text
  | number x => exact hnumber label (List.contains_iff_mem.mp h) x
  | bool b =>
    obtain rfl : label = Label.vb := of_decide_eq_true h
    exact hbool b
  | _ => cases h

omit [Zero ν] in
theorem legible_of_wellTyped {e : Entry ν} (h : e.wellTyped) : e.legible := by
  refine wellTyped_elim (P := fun e ↦ e.legible) (fun label hlabel text ↦ ?_)
    (fun label hlabel x ↦ ?_) (fun b ↦ rfl) h
  · fin_cases hlabel <;> rfl
  · fin_cases hlabel <;> rfl

/-- An entry of the right type goes to its own field of the record. -/
theorem fill_of_wellTyped {e : Entry ν} (h : e.wellTyped) (r : SenmlJsonType ν) :
    e.fill r = r.store e := by
  refine wellTyped_elim (P := fun e ↦ e.fill r = r.store e) (fun label hlabel text ↦ ?_)
    (fun label hlabel x ↦ ?_) (fun b ↦ rfl) h
  · fin_cases hlabel <;> rfl
  · fin_cases hlabel <;> rfl

theorem note_of_wellTyped (J : Cjson ν) {e : Entry ν} (h : e.wellTyped) (base : SenmlBase ν) :
    e.note J base = base.store J e := by
  refine wellTyped_elim (P := fun e ↦ e.note J base = base.store J e) (fun label hlabel text ↦ ?_)
    (fun label hlabel x ↦ ?_) (fun b ↦ rfl) h
  · fin_cases hlabel <;> rfl
  · fin_cases hlabel <;> rfl

end Entry

/-! ## All entries -/

omit [Zero ν] in
/-- A field that only the entry under its own label changes holds what stands there. -/
theorem Json.foldl_entriesUnder {σ α : Type} (element : Json ν) (step : σ → Entry ν → σ) (f : σ → α)
    (label : Text) (g : α → Json ν → α)
    (h : ∀ s e, f (step s e) = if e.label = label then g (f s) e.item else f s)
    {ls : List Text} (hls : ls.Nodup) (s : σ) :
    f ((element.entriesUnder ls).foldl step s) =
      if label ∈ ls then (element.lookup label).elim (f s) (g (f s)) else f s := by
  induction ls generalizing s with
  | nil => rfl
  | cons l ls ih =>
    obtain ⟨hl, hls⟩ := List.nodup_cons.mp hls
    cases hitem : element.lookup l with
    | none =>
      rw [entriesUnder_cons_none hitem, ih hls]
      by_cases heq : label = l
      · subst heq
        rw [if_neg hl, if_pos List.mem_cons_self, hitem]
        rfl
      · simp only [List.mem_cons, heq, false_or]
    | some item =>
      rw [entriesUnder_cons_some hitem, List.foldl_cons, ih hls, h]
      by_cases heq : label = l
      · subst heq
        rw [if_neg hl, if_pos List.mem_cons_self, if_pos rfl, hitem]
        rfl
      · simp only [List.mem_cons, heq, Ne.symm heq, false_or, if_false]

omit [Zero ν] in
theorem nodup_labels : labels.Nodup := by decide

omit [Zero ν] in
theorem Json.foldl_entries {σ α : Type} (node : Json ν) (step : σ → Entry ν → σ) (f : σ → α)
    (label : Text) (g : α → Json ν → α) (hlabel : label ∈ labels)
    (h : ∀ s e, f (step s e) = if e.label = label then g (f s) e.item else f s) (s : σ) :
    f (node.entries.foldl step s) = (node.lookup label).elim (f s) (g (f s)) := by
  rw [entries, foldl_entriesUnder node step f label g h nodup_labels, if_pos hlabel]

/-- The kind is that of a value among the entries, or the one it was before. -/
theorem type_foldl_store (es : List (Entry ν)) (r : SenmlJsonType ν) :
    (∃ e ∈ es, valueType e.label = some (es.foldl SenmlJsonType.store r).value.type) ∨
      (es.foldl SenmlJsonType.store r).value.type = r.value.type ∧
        ∀ e ∈ es, valueType e.label = none := by
  induction es generalizing r with
  | nil => exact .inr ⟨rfl, fun e he ↦ absurd he List.not_mem_nil⟩
  | cons e es ih =>
    rw [List.foldl_cons]
    rcases ih (r.store e) with ⟨e', he', htype⟩ | ⟨htype, hnone⟩
    · exact .inl ⟨e', List.mem_cons_of_mem _ he', htype⟩
    · rw [htype]
      cases hvalue : valueType e.label with
      | none =>
        refine .inr ⟨by simp only [SenmlJsonType.store, hvalue, Option.getD_none],
          fun e' he' ↦ ?_⟩
        rcases List.mem_cons.mp he' with rfl | he'
        · exact hvalue
        · exact hnone e' he'
      | some type =>
        refine .inl ⟨e, List.mem_cons_self, ?_⟩
        simp only [SenmlJsonType.store, hvalue, Option.getD_some]

omit [Zero ν] in
theorem Json.mem_entries {node item : Json ν} {label : Text} (hlabel : label ∈ labels)
    (h : node.lookup label = some item) : ⟨label, item⟩ ∈ node.entries :=
  List.mem_filterMap.mpr ⟨label, hlabel, by rw [h]; rfl⟩

theorem Json.record_holds {node : Json ν} (hwell : ∀ e ∈ node.entries, e.wellTyped = true)
    {J : Cjson ν} (hfault : ∀ e ∈ node.entries, e.fault J = none) : node.record.Holds node := by
  have hstore : node.record = node.entries.foldl SenmlJsonType.store {} := by
    rw [record]
    exact List.foldl_ext _ _ _ fun r e he ↦ Entry.fill_of_wellTyped (hwell e he) r
  have hvd : node.textUnder Label.vd [] = [] := by
    rw [textUnder]
    cases hitem : node.lookup Label.vd with
    | none => rfl
    | some item =>
      have hnone := hfault _ (mem_entries (by decide) hitem)
      cases item with
      | string text => simpa [Entry.fault_vd, textOr] using hnone
      | _ => rfl
  rw [hstore]
  refine ⟨?_, ?_, ?_, ?_, ?_, ?_, type_foldl_store _ _, ?_, ?_, ?_⟩
  · exact node.foldl_entries SenmlJsonType.store (fun r ↦ r.name) Label.n textOr
      (by decide) (fun _ _ ↦ rfl) {}
  · exact node.foldl_entries SenmlJsonType.store (fun r ↦ r.unit) Label.u textOr
      (by decide) (fun _ _ ↦ rfl) {}
  · exact node.foldl_entries SenmlJsonType.store (fun r ↦ r.value.asNumber) Label.v numberOr
      (by decide) (fun _ _ ↦ rfl) {}
  · exact node.foldl_entries SenmlJsonType.store (fun r ↦ r.value.asString) Label.vs textOr
      (by decide) (fun _ _ ↦ rfl) {}
  · exact node.foldl_entries SenmlJsonType.store (fun r ↦ r.value.asBoolean) Label.vb boolOr
      (by decide) (fun _ _ ↦ rfl) {}
  · rw [← hstore, hvd, record, Entry.asData_foldl_fill]
  · exact node.foldl_entries SenmlJsonType.store (fun r ↦ r.sum) Label.s numberOr
      (by decide) (fun _ _ ↦ rfl) {}
  · exact node.foldl_entries SenmlJsonType.store (fun r ↦ r.time) Label.t numberOr
      (by decide) (fun _ _ ↦ rfl) {}
  · exact node.foldl_entries SenmlJsonType.store (fun r ↦ r.updateTime) Label.ut numberOr
      (by decide) (fun _ _ ↦ rfl) {}

/-- The base version is an `int`. -/
def Json.IntVersion (J : Cjson ν) (node : Json ν) : Prop :=
  ∀ x, node.lookup Label.bver = some (.number x) → ∃ n, J.ofInt n = x

/-- The base fields that are read from entries of the right types. -/
theorem SenmlBase.holds_foldl_note {J : Cjson ν} {node : Json ν}
    (hwell : ∀ e ∈ node.entries, e.wellTyped = true) (hint : node.IntVersion J)
    (base : SenmlBase ν) :
    SenmlBase.Holds J base (node.entries.foldl (Entry.note J) base) node := by
  have hstore : node.entries.foldl (Entry.note J) base =
      node.entries.foldl (SenmlBase.store J) base :=
    List.foldl_ext _ _ _ fun b e he ↦ Entry.note_of_wellTyped J (hwell e he) b
  rw [hstore]
  refine ⟨?_, ?_, ?_, ?_, ?_, ?_⟩
  · exact node.foldl_entries (SenmlBase.store J) (fun b ↦ b.name) Label.bn Json.textOr
      (by decide) (fun _ _ ↦ rfl) base
  · exact node.foldl_entries (SenmlBase.store J) (fun b ↦ b.unit) Label.bu Json.textOr
      (by decide) (fun _ _ ↦ rfl) base
  · exact node.foldl_entries (SenmlBase.store J) (fun b ↦ b.time) Label.bt Json.numberOr
      (by decide) (fun _ _ ↦ rfl) base
  · exact node.foldl_entries (SenmlBase.store J) (fun b ↦ b.value) Label.bv Json.numberOr
      (by decide) (fun _ _ ↦ rfl) base
  · exact node.foldl_entries (SenmlBase.store J) (fun b ↦ b.sum) Label.bs Json.numberOr
      (by decide) (fun _ _ ↦ rfl) base
  · have hversion := node.foldl_entries (SenmlBase.store J) (fun b ↦ b.version) Label.bver
      (fun version item ↦ match item with
        | .number x => (J.toInt x).getD version
        | _ => version) (by decide) (fun _ _ ↦ rfl) base
    rw [hversion]
    cases hitem : node.lookup Label.bver with
    | none => rfl
    | some item =>
      cases item with
      | number x =>
        obtain ⟨n, rfl⟩ := hint x hitem
        simp only [Option.elim_some, J.toInt_ofInt, Option.getD_some]
      | _ => rfl

/-! ## What is confused -/

/-- `parse_record` stores the fields of a record where they belong, or reports an error. -/
structure NeverConfused (J : Cjson ν) (s : SenmlJson ν) (node : Json ν) : Prop where
  /-- It returns. -/
  returns : ∃ r, parseSenmlRecord J s node = .ok r
  /-- It succeeds if every label has a value of its own type. -/
  accepts : ∀ s' ec, parseSenmlRecord J s node = .ok (s', ec) →
    (ec = none ↔ ∀ e ∈ node.entries, e.wellTyped = true)
  /-- Then it appends one record, and every value goes to the field of its label. -/
  stores : ∀ s', parseSenmlRecord J s node = .ok (s', none) →
    ∃ r : SenmlJsonType ν, s'.payload = s.payload ++ [r] ∧ r.Holds node ∧
      SenmlBase.Holds J s.base s'.base node
  /-- Otherwise it appends no record. -/
  fails : ∀ s' ec, parseSenmlRecord J s node = .ok (s', some ec) → s'.payload = s.payload

/-- **When `parse_record` never confuses the fields of an object.**  Nothing may go wrong with an
entry in front of the first one that is refused; and if none is refused, every entry must have the
right type, and the base version must be an `int`. -/
theorem neverConfused_iff (J : Cjson ν) (s : SenmlJson ν) (members : List (Text × Json ν)) :
    NeverConfused J s (.object members) ↔
      (∀ e ∈ legibleFront (Json.object members).entries, e.fault J = none) ∧
      ((∀ e ∈ (Json.object members).entries, e.legible = true) →
        (∀ e ∈ (Json.object members).entries, e.wellTyped = true) ∧
          (Json.object members).IntVersion J) := by
  have hspec := parseSenmlRecord_eq J s (.object members)
  generalize Json.object members = node at hspec ⊢
  rw [← frontFault_eq_none]
  cases hfirst : frontFault J node.entries with
  | some f =>
    rw [hfirst] at hspec
    refine iff_of_false (fun hnever ↦ ?_) fun h ↦ by cases h.1
    obtain ⟨r, hr⟩ := hnever.returns
    rw [hspec] at hr
    cases hr
  | none =>
    rw [hfirst] at hspec
    dsimp only at hspec
    by_cases hlegible : ∀ e ∈ node.entries, e.legible = true
    · have hall : node.legible = true := List.all_eq_true.mpr hlegible
      rw [frontFault_eq_none, legibleFront_of_all hall] at hfirst
      rw [legibleFront_of_all hall, if_pos hall] at hspec
      constructor
      · intro hnever
        refine ⟨rfl, fun _ ↦ ⟨(hnever.accepts _ _ hspec).mp rfl, fun x hx ↦ ?_⟩⟩
        obtain ⟨-, -, -, hbase⟩ := hnever.stores _ hspec
        have hversion := hbase.version
        rw [hx] at hversion
        exact ⟨_, hversion⟩
      · rintro ⟨-, h⟩
        obtain ⟨hwell, hint⟩ := h hlegible
        refine ⟨⟨_, hspec⟩, fun s' ec h ↦ ?_, fun s' h ↦ ?_, fun s' ec h ↦ ?_⟩
        all_goals
          rw [hspec] at h
          cases h
        · exact iff_of_true rfl hwell
        · exact ⟨node.record, rfl, Json.record_holds hwell hfirst,
            SenmlBase.holds_foldl_note hwell hint s.base⟩
    · have hall : ¬ node.legible = true := fun h ↦ hlegible (List.all_eq_true.mp h)
      rw [if_neg hall] at hspec
      refine iff_of_true ⟨⟨_, hspec⟩, fun s' ec h ↦ ?_, fun s' h ↦ ?_, fun s' ec h ↦ ?_⟩
        ⟨rfl, fun h ↦ absurd h hlegible⟩
      all_goals
        rw [hspec] at h
        cases h
      · exact iff_of_false (Option.some_ne_none _) fun hwell ↦
          hlegible fun e he ↦ Entry.legible_of_wellTyped (hwell e he)
      · rfl

/-- In `{"v":"x"}` the label `v` is taken for `vs`. -/
theorem not_neverConfused :
    ¬ NeverConfused (.exact (fun _ ↦ none) fun _ ↦ none) {}
      (Json.object [(Label.v, .string [120])] : Json ℤ) := by
  intro h
  have hparse : parseSenmlRecord (.exact (fun _ ↦ none) fun _ ↦ none) {}
      (Json.object [(Label.v, .string [120])] : Json ℤ) =
      .ok ({ payload := [{ value := { type := .string, asString := [120] } }] }, none) := rfl
  have hwell := (h.accepts _ _ hparse).mp rfl ⟨Label.v, .string [120]⟩
    (Json.mem_entries (by decide) rfl)
  exact absurd hwell (by decide)

end Coap
