import CoapCpp.LinkFormat

/-!
# CoRE Link documents, there and back

What `create_core_link` writes, read by `parse_core_link`.

A record is written as a link of the format (`CoreLinkType.text_eq`), so `readLink_iff` says when it
is read back.  What is left is about the list as a whole: a comma inside a record gives more tokens
than there are records, and a NUL ends the document.  `roundTrips_iff` is the condition that comes
out.
-/

set_option autoImplicit false

namespace Coap

open CString Memory

/-! ## Records as links -/

/-- A parameter as an attribute. -/
def CoreLinkParameter.toAttribute (p : CoreLinkParameter) : Attribute :=
  match p.value.type with
  | .number => .number p.name (decimal p.value.asNumber.toNat)
  | .string => .quoted p.name p.value.asString

/-- A record as a link. -/
def CoreLinkType.toLink (r : CoreLinkType) : Link where
  target := 47 :: r.uri.path
  attributes := r.parameters.map CoreLinkParameter.toAttribute

/-- What a record says. -/
def CoreLinkType.content (r : CoreLinkType) : Text × List (Text × Content) :=
  (r.uri.path, r.parameters.map fun p ↦ (p.name, p.value.content))

theorem CoreLinkParameter.text_eq (p : CoreLinkParameter) :
    p.text = parameterSeparator :: p.toAttribute.text := by
  rw [text, toAttribute]
  cases p.value.type <;> rfl

theorem CoreLinkType.text_eq (r : CoreLinkType) : r.text = r.toLink.text := by
  have hattributes : r.parameters.flatMap CoreLinkParameter.text =
      attributesText (r.parameters.map CoreLinkParameter.toAttribute) := by
    rw [attributesText, List.flatMap_map]
    exact List.flatMap_congr fun p _ ↦ p.text_eq
  rw [text, hattributes, toLink, Link.text]
  simp

/-- **What `create_core_link` writes** is a document. -/
theorem recordsText_eq (records : List CoreLinkType) :
    recordsText records = documentText (records.map CoreLinkType.toLink) := by
  induction records with
  | nil => simp [recordsText, documentText]
  | cons r records ih =>
    cases records with
    | nil => simp [recordsText, documentText, r.text_eq]
    | cons s records =>
      rw [recordsText, ih, r.text_eq]
      simp only [documentText, List.map_cons, List.intercalate_cons_cons, List.append_assoc,
        List.singleton_append]

theorem says_toAttribute {p q : CoreLinkParameter} :
    p.toAttribute.Says q ↔ (p.name, p.value.content) = (q.name, q.value.content) := by
  rw [CoreLinkParameter.toAttribute, Prod.mk.injEq, eq_comm (a := p.name),
    eq_comm (a := p.value.content)]
  cases htype : p.value.type with
  | number =>
    rw [Value.content.eq_def p.value, htype]
    simp [Attribute.Says, Attribute.name, digitsValue_decimal]
  | string =>
    rw [Value.content.eq_def p.value, htype]
    simp [Attribute.Says, Attribute.name]

theorem says_toLink {r s : CoreLinkType} : r.toLink.Says s ↔ r.content = s.content := by
  have hparameters : List.Forall₂ Attribute.Says r.toLink.attributes s.parameters ↔
      (r.parameters.map fun p ↦ (p.name, p.value.content)) =
        s.parameters.map fun p ↦ (p.name, p.value.content) := by
    rw [CoreLinkType.toLink, List.forall₂_map_left_iff, ← List.forall₂_eq_eq_eq,
      List.forall₂_map_left_iff, List.forall₂_map_right_iff]
    simp only [says_toAttribute]
  have hpath : 47 :: s.uri.path = r.toLink.target ↔ r.uri.path = s.uri.path := by
    rw [CoreLinkType.toLink, List.cons.injEq, eq_comm (a := s.uri.path)]
    exact and_iff_right rfl
  rw [Link.Says, hparameters, hpath, CoreLinkType.content, CoreLinkType.content, Prod.mk.injEq]

/-! ## What should survive, and what does -/

/-- A record that should survive being written and read. -/
structure Writable (r : CoreLinkType) : Prop where
  /-- The path is not empty. -/
  path_ne : r.uri.path ≠ []
  /-- The path has no `>` and no comma. -/
  path : ∀ c ∈ [62, recordSeparator], c ∉ r.uri.path
  /-- The names of the parameters have no separators. -/
  name : ∀ p ∈ r.parameters, p.name ≠ [] ∧
    ∀ c ∈ [equal, parameterSeparator, recordSeparator, quote, 0], c ∉ p.name
  /-- Numbers fit an `int`. -/
  number : ∀ p ∈ r.parameters, ∀ n, p.value.content = .number n → n ≤ 2147483647
  /-- Strings have no quotation mark and no NUL. -/
  string : ∀ p ∈ r.parameters, ∀ s, p.value.content = .string s → quote ∉ s ∧ 0 ∉ s

/-- Whatever was written before, the records are written and read back as they were. -/
def RoundTrips (records : List CoreLinkType) : Prop :=
  ∀ (A : Atoi) (old : Text), ∃ c,
    createCoreLink { payload := records, coreLink := old } none = (c, none) ∧
    ∃ c', parseCoreLink A {} (some c.coreLink) none = .ok (c', none) ∧
      c'.payload.map CoreLinkType.content = records.map CoreLinkType.content

theorem roundTrips_iff_readsAs {records : List CoreLinkType} (hne : records ≠ []) :
    RoundTrips records ↔ ∀ A, ReadsAs A (documentText (records.map CoreLinkType.toLink))
      (records.map CoreLinkType.toLink) := by
  have hcreate (old : Text) : createCoreLink { payload := records, coreLink := old } none =
      ({ payload := records, coreLink := recordsText records }, none) := if_neg hne
  have hsaid (payload : List CoreLinkType) :
      List.Forall₂ Link.Says (records.map CoreLinkType.toLink) payload ↔
        payload.map CoreLinkType.content = records.map CoreLinkType.content := by
    rw [eq_comm, List.forall₂_map_left_iff, ← List.forall₂_eq_eq_eq, List.forall₂_map_left_iff,
      List.forall₂_map_right_iff]
    simp only [says_toLink]
  simp only [RoundTrips, hcreate, Prod.mk.injEq, and_true, exists_eq_left', recordsText_eq,
    forall_const, ReadsAs, hsaid]

/-- The records that survive: no NUL in the path, and no string that is empty or has a comma or a
semicolon. -/
structure Survives (r : CoreLinkType) : Prop where
  /-- The path has no NUL. -/
  path : 0 ∉ r.uri.path
  /-- The strings are read to their ends. -/
  string : ∀ p ∈ r.parameters, ∀ s, p.value.content = .string s →
    s ≠ [] ∧ recordSeparator ∉ s ∧ parameterSeparator ∉ s

/-! ## One record -/

section
variable {r : CoreLinkType} (h : Writable r) {p : CoreLinkParameter} (hp : p ∈ r.parameters)
include h hp

theorem Writable.separated : p.toAttribute.Separated := by
  have hname := (h.name p hp).2 equal (by simp)
  have hstring := h.string p hp
  rw [CoreLinkParameter.toAttribute, Value.content] at *
  cases htype : p.value.type with
  | number => exact ⟨hname, decimal_ne_nil _, isDigit_decimal _⟩
  | string =>
    rw [htype] at hstring
    exact ⟨hname, fun hhead ↦ (hstring _ rfl).1 (List.mem_of_mem_head? hhead)⟩

theorem Writable.readBy_iff (A : Atoi) :
    p.toAttribute.ReadBy A ↔ ∀ s, p.value.content = .string s → s ≠ [] := by
  have hnumber := h.number p hp
  have hstring := h.string p hp
  rw [CoreLinkParameter.toAttribute, Value.content] at *
  cases htype : p.value.type with
  | number =>
    rw [htype] at hnumber
    have hle := hnumber _ rfl
    have hinteger := leadingInteger_decimal p.value.asNumber.toNat
    have hspec := A.spec (decimal p.value.asNumber.toNat) (by rw [hinteger]; omega)
      (by rw [hinteger]; omega)
    refine iff_of_true ?_ (by simp)
    rw [Attribute.ReadBy, hspec, hinteger, digitsValue_decimal]
    omega
  | string =>
    rw [htype] at hstring
    simp only [Attribute.ReadBy, Content.string.injEq, forall_eq', and_iff_left_iff_imp]
    exact fun _ ↦ (hstring _ rfl).1

/-- A separator in the text of a parameter is one in its string. -/
theorem Writable.notMem_text_iff {c : UInt8} (hc : c ∈ [parameterSeparator, recordSeparator, 0]) :
    c ∉ p.toAttribute.text ↔ ∀ s, p.value.content = .string s → c ∉ s := by
  have hname := (h.name p hp).2 c (by
    simp only [List.mem_cons, List.not_mem_nil, or_false] at hc ⊢
    tauto)
  obtain ⟨hequal, hquote, hdigit⟩ := separator_ne hc
  rw [CoreLinkParameter.toAttribute, Value.content]
  cases p.value.type with
  | number =>
    have hnot := notMem_of_isDigit (isDigit_decimal p.value.asNumber.toNat) hdigit
    simp [Attribute.text, hname, hequal, hnot]
  | string => simp [Attribute.text, hname, hequal, hquote]

end

theorem notMem_toLink_text {r : CoreLinkType} {c : UInt8}
    (hc : c ∉ [60, 47, 62, parameterSeparator]) (hpath : c ∉ r.uri.path)
    (hparameters : ∀ p ∈ r.parameters, c ∉ p.toAttribute.text) : c ∉ r.toLink.text := by
  simp only [List.mem_cons, List.not_mem_nil, or_false, not_or] at hc
  have hattributes : c ∉ attributesText (r.parameters.map CoreLinkParameter.toAttribute) := by
    intro hmem
    obtain ⟨a, ha, hca⟩ := List.mem_flatMap.mp hmem
    obtain ⟨p, hp, rfl⟩ := List.mem_map.mp ha
    rcases List.mem_cons.mp hca with hca | hca
    · exact hc.2.2.2 hca
    · exact hparameters p hp hca
  simp only [Link.text, CoreLinkType.toLink, List.mem_cons, List.mem_append, not_or]
  exact ⟨hc.1, ⟨hc.2.1, hpath⟩, hc.2.2.1, hattributes⟩

/-! ## What does not come back -/

/-- The path of a record that was cut off at a NUL cannot be read. -/
theorem exists_unread (A : Atoi) {records : List CoreLinkType} (h : ∀ r ∈ records, Writable r)
    (hzero : ∃ r ∈ records, 0 ∈ r.uri.path) :
    ∃ t ∈ documentTokens (recordsText records), readRecord A t = none := by
  induction records with
  | nil => simp at hzero
  | cons r records ih =>
    by_cases hpath : 0 ∈ r.uri.path
    · obtain ⟨x, y, hsplit, hx⟩ := List.eq_append_cons_of_mem hpath
      have hwritable := (h r List.mem_cons_self).path
      rw [hsplit] at hwritable
      have hclosing : 62 ∉ beginUri ++ x := by
        have := hwritable 62 (by simp)
        simp only [List.mem_append, not_or] at this
        simp [this.1]
      have hcomma : recordSeparator ∉ beginUri ++ x := by
        have := hwritable recordSeparator (by simp)
        simp only [List.mem_append, not_or] at this
        simp [this.1]
      obtain ⟨rest, hrest⟩ : ∃ rest, recordsText (r :: records) = (beginUri ++ x) ++ 0 :: rest := by
        cases records with
        | nil => exact ⟨_, by rw [recordsText, CoreLinkType.text, hsplit]; simp; rfl⟩
        | cons s records => exact ⟨_, by rw [recordsText, CoreLinkType.text, hsplit]; simp; rfl⟩
      have htokens : documentTokens (recordsText (r :: records)) = [beginUri ++ x] := by
        rw [documentTokens, hrest, cstr_append_zero (by simp [hx]),
          tokens_of_notMem hcomma (by simp)]
      refine ⟨beginUri ++ x, by rw [htokens]; exact List.mem_singleton_self _, ?_⟩
      have hopen : cut [60] (beginUri ++ x) = some ([], 47 :: x) :=
        cut_append (a := []) List.not_mem_nil _
      have hnone : cut endUri (47 :: x) = none :=
        cut_of_notMem fun hmem ↦ hclosing (List.mem_cons_of_mem _ hmem)
      rw [readRecord, hopen, Option.bind_eq_bind, Option.bind_some]
      simp only [hnone]
      rfl
    · obtain ⟨t, ht, hread⟩ := ih (fun s hs ↦ h s (List.mem_cons_of_mem _ hs)) <| by
        obtain ⟨s, hs, h0⟩ := hzero
        rcases List.mem_cons.mp hs with rfl | hs
        · exact absurd h0 hpath
        · exact ⟨s, hs, h0⟩
      refine ⟨t, ?_, hread⟩
      have htext : 0 ∉ r.text := by
        rw [r.text_eq]
        have hwritable := h r List.mem_cons_self
        exact notMem_toLink_text (by decide) hpath fun p hp ↦
          (hwritable.notMem_text_iff hp (by decide)).mpr fun s hs ↦ (hwritable.string p hp s hs).2
      cases records with
      | nil => simp [documentTokens, recordsText, cstr, tokens_eq_splitOn] at ht
      | cons s records =>
        rw [documentTokens, recordsText, cstr_append htext, cstr, List.takeWhile_cons,
          if_pos (by decide), ← cstr, tokens_append_sep]
        exact List.mem_append_right _ ht

/-- There is a semicolon for every attribute, and for every semicolon in one. -/
theorem count_attributesText (as : List Attribute) :
    (attributesText as).count parameterSeparator =
      as.length + (as.map fun a ↦ a.text.count parameterSeparator).sum := by
  induction as with
  | nil => rfl
  | cons a as ih =>
    rw [attributesText_cons, List.count_cons_self, List.count_append, ih, List.map_cons,
      List.sum_cons, List.length_cons]
    omega

/-- If a link is read as what it says, there is no semicolon inside an attribute. -/
theorem semicolon_notMem_of_says {A : Atoi} {link : Link} (hclosing : 62 ∉ link.target)
    {r : CoreLinkType} (hread : readRecord A link.text = some r) (hsaid : link.Says r) :
    ∀ a ∈ link.attributes, parameterSeparator ∉ a.text := by
  rw [readRecord_text A hclosing] at hread
  obtain ⟨ps, hps, rfl⟩ := Option.map_eq_some_iff.mp hread
  have hlength := (forall₂_of_mapM hps).length_eq
  rw [length_behindEach, count_attributesText, ← hsaid.2.length_eq] at hlength
  intro a ha hmem
  have hcount := List.count_pos_iff.mpr hmem
  have hle := List.single_le_sum (l := link.attributes.map fun a ↦
    a.text.count parameterSeparator) (fun _ _ ↦ Nat.zero_le _) _ (List.mem_map_of_mem ha)
  omega

/-- A written record with a comma in a string is cut there. -/
theorem exists_comma {r : CoreLinkType} {p : CoreLinkParameter} (hp : p ∈ r.parameters) {s : Text}
    (hs : p.value.content = .string s) (hcomma : recordSeparator ∈ s) :
    ∃ a b, r.toLink.text = a ++ recordSeparator :: b ∧ 60 ∈ a ∧ quote ∈ b := by
  obtain ⟨x, y, rfl⟩ := List.append_of_mem hcomma
  have hattribute : p.toAttribute.text =
      p.name ++ equal :: quote :: (x ++ recordSeparator :: (y ++ [quote])) := by
    rw [Value.content] at hs
    rw [CoreLinkParameter.toAttribute]
    cases htype : p.value.type with
    | number =>
      rw [htype] at hs
      cases hs
    | string =>
      rw [htype] at hs
      simp only [Content.string.injEq] at hs
      simp [Attribute.text, hs]
  obtain ⟨ps, ps', hsplit⟩ := List.append_of_mem hp
  refine ⟨60 :: 47 :: (r.uri.path ++ 62 ::
    (attributesText (ps.map CoreLinkParameter.toAttribute) ++
      parameterSeparator :: (p.name ++ equal :: quote :: x))),
    y ++ quote :: attributesText (ps'.map CoreLinkParameter.toAttribute), ?_,
    List.mem_cons_self, by simp⟩
  simp [Link.text, CoreLinkType.toLink, hsplit, attributesText, hattribute]

/-! ## The round trip -/

theorem Writable.zero_notMem_text {r : CoreLinkType} (h : Writable r) (hpath : 0 ∉ r.uri.path) :
    0 ∉ r.toLink.text :=
  notMem_toLink_text (by decide) hpath fun p hp ↦
    (h.notMem_text_iff hp (by decide)).mpr fun s hs ↦ (h.string p hp s hs).2

/-- Nothing else than the semicolons stands in the way of finding the parts of a record. -/
theorem Writable.toLink_separated {r : CoreLinkType} (h : Writable r) (hpath : 0 ∉ r.uri.path)
    (hsemicolon : ∀ a ∈ r.toLink.attributes, parameterSeparator ∉ a.text) :
    r.toLink.Separated where
  closing := by
    have hclosing := h.path 62 (by simp)
    simp [CoreLinkType.toLink, hclosing]
  attributes a ha := by
    obtain ⟨p, hp, rfl⟩ := List.mem_map.mp ha
    exact h.separated hp
  semicolon := hsemicolon
  zero := h.zero_notMem_text hpath

/-- **Which records survive being written and read.** -/
theorem roundTrips_iff {records : List CoreLinkType} (hne : records ≠ [])
    (h : ∀ r ∈ records, Writable r) : RoundTrips records ↔ ∀ r ∈ records, Survives r := by
  rw [roundTrips_iff_readsAs hne]
  constructor
  · intro hreads
    obtain ⟨rs, hread, hsaid⟩ := readsAs_iff.mp (hreads .orZero)
    have hpath : ∀ r ∈ records, 0 ∉ r.uri.path := by
      by_contra hbad
      push Not at hbad
      obtain ⟨t, ht, hnone⟩ := exists_unread .orZero h hbad
      rw [← recordsText_eq] at hread
      obtain ⟨r, hr, -⟩ := exists_forall₂_iff.mp ⟨rs, hread, hread⟩ t ht
      rw [hnone] at hr
      cases hr
    have hzero : ∀ link ∈ records.map CoreLinkType.toLink, 0 ∉ link.text := by
      intro link hlink
      obtain ⟨r, hr, rfl⟩ := List.mem_map.mp hlink
      exact (h r hr).zero_notMem_text (hpath r hr)
    have hcomma : ∀ r ∈ records, ∀ p ∈ r.parameters, ∀ s, p.value.content = .string s →
        recordSeparator ∉ s := by
      intro r hr p hp s hs hmem
      obtain ⟨a, b, htext, ha, hb⟩ := exists_comma hp hs hmem
      exact not_readsAs_of_comma hzero (List.mem_map_of_mem hr) htext ⟨60, ha, by decide⟩
        ⟨quote, hb, by decide⟩ (hreads .orZero)
    have htext : ∀ link ∈ records.map CoreLinkType.toLink, recordSeparator ∉ link.text := by
      intro link hlink
      obtain ⟨r, hr, rfl⟩ := List.mem_map.mp hlink
      exact notMem_toLink_text (by decide) ((h r hr).path _ (by simp)) fun p hp ↦
        ((h r hr).notMem_text_iff hp (by decide)).mpr (hcomma r hr p hp)
    intro r hr
    obtain ⟨s, hs, hsaid⟩ := (readsAs_documentText_iff hzero htext).mp (hreads .orZero) _
      (List.mem_map_of_mem hr)
    have hclosing : 62 ∉ r.toLink.target := by
      have := (h r hr).path 62 (by simp)
      simp [CoreLinkType.toLink, this]
    have hsemicolon := semicolon_notMem_of_says hclosing hs hsaid
    obtain ⟨hreadBy, -⟩ :=
      (readLink_iff ((h r hr).toLink_separated (hpath r hr) hsemicolon)).mp ⟨s, hs, hsaid⟩
    refine ⟨hpath r hr, fun p hp s hs ↦ ⟨?_, hcomma r hr p hp s hs, ?_⟩⟩
    · exact ((h r hr).readBy_iff hp .orZero).mp (hreadBy _ (List.mem_map_of_mem hp)) s hs
    · exact ((h r hr).notMem_text_iff hp (by decide)).mp
        (hsemicolon _ (List.mem_map_of_mem hp)) s hs
  · intro hsurvives A
    have htext (c : UInt8) (hc : c = parameterSeparator ∨ c = recordSeparator) : ∀ r ∈ records,
        ∀ p ∈ r.parameters, c ∉ p.toAttribute.text := by
      intro r hr p hp
      refine ((h r hr).notMem_text_iff hp (by rcases hc with rfl | rfl <;> decide)).mpr ?_
      intro s hs
      obtain ⟨-, hcomma, hsemicolon⟩ := (hsurvives r hr).string p hp s hs
      rcases hc with rfl | rfl
      · exact hsemicolon
      · exact hcomma
    refine (readsAs_documentText_iff ?_ ?_).mpr ?_
    · intro link hlink
      obtain ⟨r, hr, rfl⟩ := List.mem_map.mp hlink
      exact (h r hr).zero_notMem_text (hsurvives r hr).path
    · intro link hlink
      obtain ⟨r, hr, rfl⟩ := List.mem_map.mp hlink
      exact notMem_toLink_text (by decide) ((h r hr).path _ (by simp))
        (htext _ (.inr rfl) r hr)
    · intro link hlink
      obtain ⟨r, hr, rfl⟩ := List.mem_map.mp hlink
      have hseparated := (h r hr).toLink_separated (hsurvives r hr).path fun a ha ↦ by
        obtain ⟨p, hp, rfl⟩ := List.mem_map.mp ha
        exact htext _ (.inl rfl) r hr p hp
      refine (readLink_iff hseparated).mpr ⟨fun a ha ↦ ?_, rfl⟩
      obtain ⟨p, hp, rfl⟩ := List.mem_map.mp ha
      exact ((h r hr).readBy_iff hp A).mpr fun s hs ↦ ((hsurvives r hr).string p hp s hs).1

/-- The record `</a>;ct=40;t="b"`. -/
def sensorRecord (string : Text) : CoreLinkType where
  uri := { path := [97] }
  parameters := [{ name := [99, 116], value := { asNumber := 40 } },
    { name := [116], value := { type := .string, asString := string } }]

theorem writable_sensorRecord {string : Text} (h : quote ∉ string ∧ 0 ∉ string) :
    Writable (sensorRecord string) := by
  have hpath : ∀ c ∈ [62, recordSeparator], c ∉ ([97] : Text) := by decide +kernel
  have hname : ∀ c ∈ [equal, parameterSeparator, recordSeparator, quote, 0],
      c ∉ ([116] : Text) := by decide +kernel
  refine ⟨List.cons_ne_nil _ _, hpath, ?_, ?_, ?_⟩
  · intro p hp
    simp only [sensorRecord, List.mem_cons, List.not_mem_nil, or_false] at hp
    rcases hp with rfl | rfl
    · exact ⟨by decide +kernel, by decide +kernel⟩
    · exact ⟨List.cons_ne_nil _ _, hname⟩
  · intro p hp n hn
    simp only [sensorRecord, List.mem_cons, List.not_mem_nil, or_false] at hp
    rcases hp with rfl | rfl
    · cases hn
      decide +kernel
    · cases hn
  · intro p hp s hs
    simp only [sensorRecord, List.mem_cons, List.not_mem_nil, or_false] at hp
    rcases hp with rfl | rfl
    · cases hs
    · cases hs
      exact h

theorem roundTrips_sensor : RoundTrips [sensorRecord [98]] := by
  refine (roundTrips_iff (List.cons_ne_nil _ _) fun r hr ↦ ?_).mpr fun r hr ↦ ?_
  · rw [List.mem_singleton.mp hr]
    exact writable_sensorRecord (by decide)
  · rw [List.mem_singleton.mp hr]
    refine ⟨by decide, fun p hp s hs ↦ ?_⟩
    simp only [sensorRecord, List.mem_cons, List.not_mem_nil, or_false] at hp
    rcases hp with rfl | rfl
    · cases hs
    · cases hs
      decide +kernel

/-- An empty string is read as a quotation mark. -/
theorem not_roundTrips_empty : Writable (sensorRecord []) ∧ ¬ RoundTrips [sensorRecord []] := by
  refine ⟨writable_sensorRecord (by decide), fun hround ↦ ?_⟩
  obtain ⟨c, hc, c', hparse, hcontent⟩ := hround .orZero []
  have hread : (parseCoreLink .orZero {} (some (recordsText [sensorRecord []])) none).toOption.map
      (fun r ↦ r.1.payload.map CoreLinkType.content) =
        some [([97], [([99, 116], .number 40), ([116], .string [34])])] := by decide +kernel
  cases hc
  rw [hparse] at hread
  have := hcontent.symm.trans (Option.some.inj hread)
  exact absurd this (by decide)

end Coap
