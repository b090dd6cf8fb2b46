import CoapCpp.CoreLinkMemory
import CoapCpp.SenmlJson
import Mathlib.Algebra.Ring.Int.Defs

/-!
# What an object holds after a document was read into it

A reader that fails should leave the object as it was, and one that succeeds should leave what the
document says and nothing else.  Neither reader of the library is like that.

* `parse_core_link` appends to the payload record by record.  It never takes a record back, and it
  never starts from an empty payload; and if it is not stopped by a malformed record, it leaves its
  copy of the document.
* `parse_json` starts from an empty object, whether the document turns out to be legible or not.

`readers_allOrNothing_iff` says for both when the law holds nevertheless.  For `parse_json` and a
document with something in front of its first fault nothing is said: whether the object is left as
it was depends on whether it happened to hold just this.
-/

set_option autoImplicit false

namespace Coap

open CString Memory

/-! ## CoRE Link documents -/

/-- What a call of `parse_core_link` has to do: if it fails, it leaves the payload as it was, and if
it succeeds, it leaves the records of the document. -/
def CoreLink.Lawful (A : Atoi) (c : CoreLink) (document : Option Text)
    (result : Except Fault (CoreLink × Option ErrorCode)) : Prop :=
  ∃ c' ec', result = .ok (c', ec') ∧
    (ec'.isSome → c'.payload = c.payload) ∧
    (ec' = none → ∃ text, document = some text ∧
      List.Forall₂ (fun line r ↦ readRecord A line = some r) (documentTokens text) c'.payload)

/-- The law for `parse_core_link`. -/
def CoreLink.AllOrNothing (A : Atoi) (c : CoreLink) (document : Option Text) : Prop :=
  ∀ ec, c.Lawful A document (parseCoreLinkIn A c document ec)

/-- A malformed record with a separator behind it comes before every other record. -/
def FailsFirst (text : Text) : Prop :=
  ∃ lead record rest, text = lead ++ (record ++ recordSeparator :: rest) ∧
    (∀ c ∈ lead, c = recordSeparator) ∧ record ≠ [] ∧ recordSeparator ∉ record ∧ ¬ Legible record

theorem stops_of_failsFirst {text : Text} (h : FailsFirst text) : Stops text := by
  obtain ⟨lead, record, rest, rfl, hlead, hne, hsep, hbad⟩ := h
  rw [stops_append hlead, stops_item hsep hne]
  exact .inl hbad

/-- The loop ends early at one of its tokens. -/
theorem exists_mem_tokens_of_stops {text : Text} (h : Stops text) :
    ∃ token ∈ tokens recordSeparator text, ¬ Legible token := by
  obtain ⟨piece, hpiece, hne, hbad⟩ := h
  refine ⟨piece, ?_, hbad⟩
  rw [tokens_eq_splitOn]
  exact List.mem_filter.mpr ⟨List.dropLast_subset _ hpiece, by simpa using hne⟩

theorem tokens_append_of_forall {sep : UInt8} {lead : Text} (h : ∀ c ∈ lead, c = sep) (s : Text) :
    tokens sep (lead ++ s) = tokens sep s := by
  rw [tokens_eq_splitOn, tokens_eq_splitOn, filter_splitOn_append h]

/-- If the loop ends early, a malformed first token has a separator behind it. -/
theorem failsFirst_iff {text : Text} (h : Stops text) :
    FailsFirst text ↔ ∃ token ∈ (tokens recordSeparator text).head?, ¬ Legible token := by
  constructor
  · rintro ⟨lead, record, rest, rfl, hlead, hne, hsep, hbad⟩
    refine ⟨record, ?_, hbad⟩
    rw [tokens_append_of_forall hlead, tokens_append_sep, tokens_of_notMem hsep hne]
    rfl
  · rintro ⟨token, htoken, hbad⟩
    cases hstrtok : strtok recordSeparator text with
    | none =>
      have hpeel : (tokenPeeler recordSeparator).peel text = .stop () := by
        simp [tokenPeeler, hstrtok]
      rw [tokens, Peeler.all_stop hpeel] at htoken
      cases htoken
    | some r =>
      obtain ⟨record, rest⟩ := r
      have hpeel : (tokenPeeler recordSeparator).peel text = .item record rest := by
        simp [tokenPeeler, hstrtok]
      rw [tokens, Peeler.all_item hpeel] at htoken
      obtain rfl : record = token := Option.some.inj htoken
      obtain ⟨lead, hlead, hne, hsep, ⟨rfl, -⟩ | rfl⟩ := strtok_eq_some hstrtok
      · rw [stops_append hlead] at h
        exact absurd h (stops_of_notMem hsep)
      · exact ⟨lead, record, rest, rfl, hlead, hne, hsep, hbad⟩

/-- The loop over the tokens of a document does what it has to do if there is nothing to take back,
or nothing that was there before. -/
theorem CoreLink.lawful_parseTokens_iff {A : Atoi} {c : CoreLink} {text : Text} :
    (∀ ec, c.Lawful A (some text) (parseTokens A (documentTokens text) c ec)) ↔
      (∃ line ∈ (documentTokens text).head?, ¬ Legible line) ∨
      (c.payload = [] ∧ ∀ line ∈ documentTokens text, Legible line) := by
  simp only [parseTokens_eq, Lawful]
  constructor
  · intro h
    obtain ⟨c', ec', hresult, herror, hsuccess⟩ := h none
    rw [ite_self] at hresult
    cases hresult
    by_cases hread : (readTokens A (documentTokens text)).2 = true
    · obtain ⟨text', htext, hrecords⟩ := hsuccess (if_pos hread)
      cases htext
      refine .inr ⟨?_, readTokens_snd.mp hread⟩
      have halone := (readTokens_eq_true (A := A)).mp (Prod.ext rfl hread)
      have hlength := hrecords.length_eq.symm.trans halone.length_eq
      rw [List.length_append, Nat.add_eq_right] at hlength
      exact List.eq_nil_of_length_eq_zero hlength
    · have hnone := herror (by rw [if_neg hread]; rfl)
      left
      generalize documentTokens text = ts at *
      cases ts with
      | nil => exact absurd rfl hread
      | cons t ts => exact ⟨t, rfl, readTokens_fst.mp (List.append_right_eq_self.mp hnone)⟩
  · intro h ec
    refine ⟨_, _, rfl, ?_, ?_⟩
    · intro hsome
      refine List.append_right_eq_self.mpr ?_
      rcases h with ⟨t, ht, hbad⟩ | ⟨-, hall⟩
      · obtain ⟨ts, hts⟩ := List.head?_eq_some_iff.mp ht
        rw [hts]
        exact readTokens_fst.mpr hbad
      · rw [if_pos (readTokens_snd.mpr hall)] at hsome
        by_cases hts : documentTokens text = []
        · rw [hts]
          rfl
        · rw [if_neg hts] at hsome
          cases hsome
    · intro hnone
      have hread : (readTokens A (documentTokens text)).2 = true := by
        by_contra hbad
        rw [if_neg hbad] at hnone
        cases hnone
      rcases h with ⟨t, ht, hbad⟩ | ⟨hempty, -⟩
      · exact absurd (readTokens_snd.mp hread t (List.mem_of_mem_head? ht)) hbad
      · refine ⟨text, rfl, ?_⟩
        dsimp only
        rw [hempty, List.nil_append]
        exact readTokens_eq_true.mp (Prod.ext rfl hread)

/-- **All or nothing for CoRE Link documents**: the first record is malformed and has a separator
behind it, so that nothing was read and `strtok` is not called again. -/
theorem CoreLink.allOrNothing_iff {A : Atoi} {c : CoreLink} {document : Option Text} :
    c.AllOrNothing A document ↔ ∀ text, document = some text → FailsFirst (cstr text) := by
  cases document with
  | none => exact iff_of_true (fun ec ↦ ⟨c, _, rfl, fun _ ↦ rfl, fun h ↦ by cases h⟩) (by simp)
  | some text =>
    simp only [Option.some.injEq, forall_eq']
    by_cases hstops : Stops (cstr text)
    · have hcall (ec : Option ErrorCode) := (parseCoreLinkIn_eq A c text ec).1 hstops
      obtain ⟨token, htoken, hbad⟩ := exists_mem_tokens_of_stops hstops
      simp only [AllOrNothing, hcall]
      rw [lawful_parseTokens_iff, failsFirst_iff hstops]
      exact or_iff_left fun h ↦ hbad (h.2 token htoken)
    · refine iff_of_false (fun h ↦ ?_) fun h ↦ hstops (stops_of_failsFirst h)
      obtain ⟨c', ec', hresult, -⟩ := h none
      rw [(parseCoreLinkIn_eq A c text none).2 hstops] at hresult
      cases hresult

/-- Even with a NUL behind the copy, the first record has to be malformed, or the payload has to be
empty and no record malformed. -/
theorem CoreLink.lawful_terminated_iff {A : Atoi} {c : CoreLink} {text : Text} :
    (∀ ec, c.Lawful A (some text)
        (parseTokensIn A ((cstr text).length + 1) c (cstr text ++ [0]) 0 ec)) ↔
      (∃ line ∈ (documentTokens text).head?, ¬ Legible line) ∨
      (c.payload = [] ∧ ∀ line ∈ documentTokens text, Legible line) := by
  simp only [parseTokensIn_terminated]
  exact lawful_parseTokens_iff

/-! ## SenML documents -/

variable {ν : Type} [Zero ν]

/-- The law for `parse_json`: a failed call leaves the payload and the base fields as they were, and
one that succeeds leaves the records of the document. -/
def SenmlJson.AllOrNothing (J : Cjson ν) (s : SenmlJson ν) (document : Option Text) : Prop :=
  ∃ s' ec, parseJson J s document = .ok (s', ec) ∧
    (ec.isSome → s'.payload = s.payload ∧ s'.base = s.base) ∧
    (ec = none → ∃ text, document = some text ∧ s'.payload = (J.elements text).map Json.record)

/-- The object holds no record, and its base fields have their initial values. -/
structure SenmlJson.IsClear (s : SenmlJson ν) : Prop where
  /-- There is no record. -/
  payload : s.payload = []
  /-- The base fields are those of a new object. -/
  base : s.base = {}

/-- The entry is one of the base fields. -/
def Entry.isBase (e : Entry ν) : Bool :=
  match e.item with
  | .string _ => [Label.bn, Label.bu].contains e.label
  | .number _ => [Label.bt, Label.bv, Label.bs, Label.bver].contains e.label
  | _ => false

theorem Entry.note_of_not_isBase (J : Cjson ν) {e : Entry ν} (h : e.isBase = false)
    (base : SenmlBase ν) : e.note J base = base := by
  obtain ⟨label, item⟩ := e
  cases item <;> simp_all [Entry.isBase, Entry.note]

omit [Zero ν] in
/-- The document has elements, and everything in them is legible. -/
def Cjson.Readable (J : Cjson ν) (text : Text) : Prop :=
  J.elements text ≠ [] ∧ ∀ element ∈ J.elements text, element.legible = true

omit [Zero ν] in
/-- The document has no legible element, or its first one is at fault; and no base field stands in
front of the fault. -/
structure Cjson.FailsAtOnce (J : Cjson ν) (text : Text) : Prop where
  /-- The first element is at fault. -/
  element : ∀ element ∈ (J.elements text).head?, element.legible = false
  /-- There is no base field in front of the fault. -/
  base : ∀ e ∈ legibleFront ((J.elements text).flatMap Json.entries), e.isBase = false

omit [Zero ν] in
/-- Nothing goes wrong with an entry in front of the first fault. -/
def Cjson.Unharmed (J : Cjson ν) (text : Text) : Prop :=
  ∀ e ∈ legibleFront ((J.elements text).flatMap Json.entries), e.fault J = none

theorem foldl_note_of_not_isBase (J : Cjson ν) {es : List (Entry ν)}
    (h : ∀ e ∈ es, e.isBase = false) (base : SenmlBase ν) :
    es.foldl (Entry.note J) base = base := by
  induction es with
  | nil => rfl
  | cons e es ih =>
    rw [List.foldl_cons, Entry.note_of_not_isBase J (h e List.mem_cons_self),
      ih fun e' he ↦ h e' (List.mem_cons_of_mem _ he)]

/-- A call during which something goes wrong does not return. -/
theorem SenmlJson.unharmed_of_allOrNothing {J : Cjson ν} {s : SenmlJson ν} {text : Text}
    (h : s.AllOrNothing J (some text)) : J.Unharmed text := by
  obtain ⟨s', ec, hresult, -⟩ := h
  rw [parseJson_eq] at hresult
  rw [Cjson.Unharmed, ← frontFault_eq_none]
  cases hfault : frontFault J ((J.elements text).flatMap Json.entries) with
  | none => rfl
  | some f =>
    rw [hfault] at hresult
    cases hresult

/-- A call that reads the whole document leaves its records. -/
theorem parseJson_of_readable {J : Cjson ν} {text : Text} (h : J.Readable text)
    (hunharmed : J.Unharmed text) (s : SenmlJson ν) :
    ∃ s', parseJson J s (some text) = .ok (s', none) ∧
      s'.payload = (J.elements text).map Json.record := by
  have hspec := parseJson_eq J s text
  rw [frontFault_eq_none.mpr hunharmed] at hspec
  dsimp only at hspec
  rw [if_pos ⟨h.1, List.all_eq_true.mpr h.2⟩] at hspec
  exact ⟨_, hspec, congrArg (List.map Json.record) (List.takeWhile_eq_self_iff.mpr h.2)⟩

/-- A call that fails at once leaves an object that is clear. -/
theorem parseJson_of_failsAtOnce {J : Cjson ν} {text : Text} (h : J.FailsAtOnce text)
    (hunharmed : J.Unharmed text) (s : SenmlJson ν) :
    parseJson J s (some text) = .ok ({}, some (.coap .parseJson)) := by
  have hspec := parseJson_eq J s text
  rw [frontFault_eq_none.mpr hunharmed, foldl_note_of_not_isBase J h.base] at hspec
  dsimp only at hspec
  obtain ⟨helement, -⟩ := h
  generalize J.elements text = elements at *
  cases elements with
  | nil => exact hspec
  | cons element rest =>
    have hbad := helement element rfl
    rw [if_neg (by simp [hbad]), List.takeWhile_cons_of_neg (by simp [hbad])] at hspec
    exact hspec

/-- **All or nothing for SenML documents.**  It is enough that the document is read to its end, or
fails at once for an object that is clear; and a document that fails at once leaves no other object
as it was. -/
theorem SenmlJson.allOrNothing_iff {J : Cjson ν} {s : SenmlJson ν} {document : Option Text} :
    ((∀ text, document = some text →
        J.Unharmed text ∧ (J.Readable text ∨ J.FailsAtOnce text ∧ s.IsClear)) →
      s.AllOrNothing J document) ∧
    ((∀ text, document = some text → J.Readable text ∨ J.FailsAtOnce text) →
      (s.AllOrNothing J document ↔ ∀ text, document = some text →
        J.Unharmed text ∧ (J.Readable text ∨ s.IsClear))) := by
  cases document with
  | none =>
    have hnull : s.AllOrNothing J none := ⟨s, _, rfl, fun _ ↦ ⟨rfl, rfl⟩, fun h ↦ by cases h⟩
    exact ⟨fun _ ↦ hnull, fun _ ↦ iff_of_true hnull (by simp)⟩
  | some text =>
    simp only [Option.some.injEq, forall_eq']
    have henough (h : J.Unharmed text ∧ (J.Readable text ∨ J.FailsAtOnce text ∧ s.IsClear)) :
        s.AllOrNothing J (some text) := by
      obtain ⟨hunharmed, hread | ⟨hfails, hclear⟩⟩ := h
      · obtain ⟨s', hparse, hpayload⟩ := parseJson_of_readable hread hunharmed s
        exact ⟨s', none, hparse, (by simp), fun _ ↦ ⟨text, rfl, hpayload⟩⟩
      · exact ⟨{}, _, parseJson_of_failsAtOnce hfails hunharmed s,
          fun _ ↦ ⟨hclear.payload.symm, hclear.base.symm⟩, fun h ↦ by cases h⟩
    refine ⟨henough, fun hkind ↦ ⟨fun hlaw ↦ ?_, fun h ↦ henough ⟨h.1, ?_⟩⟩⟩
    · have hunharmed := unharmed_of_allOrNothing hlaw
      refine ⟨hunharmed, hkind.imp_right fun hfails ↦ ?_⟩
      obtain ⟨s', ec, hresult, herror, -⟩ := hlaw
      rw [parseJson_of_failsAtOnce hfails hunharmed s] at hresult
      cases hresult
      obtain ⟨hpayload, hbase⟩ := herror rfl
      exact ⟨hpayload.symm, hbase.symm⟩
    · rcases h.2 with hread | hclear
      · exact .inl hread
      · exact hkind.imp_right fun hfails ↦ ⟨hfails, hclear⟩

/-! ## Both readers -/

/-- **When a call is all or nothing**, for both readers. -/
theorem readers_allOrNothing_iff (A : Atoi) (J : Cjson ν) (c : CoreLink) (s : SenmlJson ν)
    (document : Option Text) :
    (c.AllOrNothing A document ↔ ∀ text, document = some text → FailsFirst (cstr text)) ∧
    ((∀ text, document = some text →
        J.Unharmed text ∧ (J.Readable text ∨ J.FailsAtOnce text ∧ s.IsClear)) →
      s.AllOrNothing J document) ∧
    ((∀ text, document = some text → J.Readable text ∨ J.FailsAtOnce text) →
      (s.AllOrNothing J document ↔ ∀ text, document = some text →
        J.Unharmed text ∧ (J.Readable text ∨ s.IsClear))) :=
  ⟨c.allOrNothing_iff, s.allOrNothing_iff⟩

/-- The record in front of a malformed one stays in the payload, and a text that is not JSON takes
away what the object held. -/
theorem not_allOrNothing :
    ¬ CoreLink.AllOrNothing .orZero {} (some [60, 47, 97, 62, 44, 98, 44]) ∧
    ¬ ({ payload := [{}] } : SenmlJson ℤ).AllOrNothing (.exact (fun _ ↦ none) fun _ ↦ none)
      (some [91]) := by
  constructor
  · intro h
    obtain ⟨c, ec, hparse, herror, -⟩ := h none
    have hread : (parseCoreLinkIn .orZero {} (some [60, 47, 97, 62, 44, 98, 44]) none).map
        (fun r ↦ (r.1.payload.length, r.2)) = .ok (1, some (.coap .parseCoreLink)) := by
      decide +kernel
    rw [hparse] at hread
    obtain ⟨hone, hec⟩ := Prod.mk.inj (Except.ok.inj hread)
    dsimp only at hone hec
    rw [herror (by rw [hec]; rfl)] at hone
    cases hone
  · rintro ⟨s, ec, hparse, herror, -⟩
    cases hparse
    cases (herror rfl).1

end Coap
