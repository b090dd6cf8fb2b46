import CoapCpp.CoreLink
import Mathlib.Algebra.Ring.Nat

/-!
# The link format

The format of CoRE Link documents on one side, `CoreLink` on the other.

A document is a list of links, and a link is a target with attributes.  An attribute has one of four
forms: a name alone, a name with a token, with a number, or with a quoted string.

* `readAttribute_iff` is about one attribute, with anything behind it: numbers that fit an `int`
  and strings that are not empty are read, and nothing else is.
* `readLink_iff` is about one link, whose target has to start with a slash.
* `understood_iff` is about the documents of the format.

A record holds a path without its leading slash, and is written back with one.  So a record says
that the target is a slash and the path; the records of `<a>` and `</a>` are the same, and the first
one is not understood.

The parser does not know whether it is inside a quoted string.  A comma there ends the record, and
a semicolon starts a parameter.
-/

set_option autoImplicit false

namespace Coap

open CString Memory

/-! ## The format -/

/-- An attribute of a link. -/
inductive Attribute where
  /-- `;obs` -/
  | flag (name : Text)
  /-- `;if=core.s` -/
  | token (name value : Text)
  /-- `;ct=40` -/
  | number (name digits : Text)
  /-- `;title="Sensor Index"`, with what is between the quotation marks. -/
  | quoted (name string : Text)
deriving DecidableEq

/-- A link. -/
structure Link where
  /-- The URI between the brackets. -/
  target : Text
  /-- The attributes. -/
  attributes : List Attribute
deriving DecidableEq

namespace Attribute

/-- The name of an attribute. -/
def name : Attribute → Text
  | flag name | token name _ | number name _ | quoted name _ => name

/-- An attribute as a text. -/
def text : Attribute → Text
  | flag name => name
  | token name value => name ++ equal :: value
  | number name digits => name ++ equal :: digits
  | quoted name string => name ++ equal :: quote :: (string ++ [quote])

end Attribute

/-- The attributes of a link, each behind a semicolon. -/
def attributesText (as : List Attribute) : Text := as.flatMap fun a ↦ parameterSeparator :: a.text

/-- A link as a text. -/
def Link.text (link : Link) : Text := 60 :: (link.target ++ 62 :: attributesText link.attributes)

/-- A document as a text. -/
def documentText (links : List Link) : Text := [recordSeparator].intercalate (links.map Link.text)

/-- Between quotation marks, quotation marks and backslashes are written with a backslash. -/
def escaped : Text → Bool
  | [] => true
  | [c] => c ≠ quote && c ≠ 92
  | c :: d :: s => if c = 92 then escaped s else c ≠ quote && escaped (d :: s)

/-- The characters a name may not have: `=`, `;`, `,`, `"`, `<`, `>` and NUL. -/
def nameExcluded : List UInt8 := [equal, parameterSeparator, recordSeparator, quote, 60, 62, 0]

/-- An attribute of the format in which no quoted string contains a comma or a semicolon. -/
def Attribute.WellFormed (a : Attribute) : Prop :=
  (a.name ≠ [] ∧ ∀ c ∈ nameExcluded, c ∉ a.name) ∧
    match a with
    | flag _ => True
    | token _ value => value ≠ [] ∧ (∃ c ∈ value, isDigit c = false) ∧
        ∀ c ∈ [parameterSeparator, recordSeparator, quote, 0], c ∉ value
    | number _ digits => digits ≠ [] ∧ ∀ c ∈ digits, isDigit c = true
    | quoted _ string => escaped string = true ∧
        ∀ c ∈ [parameterSeparator, recordSeparator, 0], c ∉ string

/-- A link of the format. -/
structure Link.WellFormed (link : Link) : Prop where
  /-- A URI has no brackets and no quotation marks. -/
  target : ∀ c ∈ [60, 62, quote, 0], c ∉ link.target
  /-- The attributes are of the format. -/
  attributes : ∀ a ∈ link.attributes, a.WellFormed

/-! ## What it says -/

/-- The value of a parameter: a number or a string. -/
inductive Content where
  /-- A number. -/
  | number (n : ℕ)
  /-- A string. -/
  | string (s : Text)
deriving DecidableEq

/-- What a value says. -/
def Value.content (v : Value) : Content :=
  match v.type with
  | .number => .number v.asNumber.toNat
  | .string => .string v.asString

/-- A parameter has the name of the attribute, and its value, if it has one. -/
def Attribute.Says (a : Attribute) (p : CoreLinkParameter) : Prop :=
  p.name = a.name ∧
    match a with
    | flag _ => True
    | token _ value => p.value.content = .string value
    | number _ digits => p.value.content = .number (digitsValue digits 0)
    | quoted _ string => p.value.content = .string string

/-- A record has the target of the link and all its attributes.  The path of a record stands for
the target that has a slash in front of it, as `beginUri` contains it. -/
def Link.Says (link : Link) (r : CoreLinkType) : Prop :=
  47 :: r.uri.path = link.target ∧ List.Forall₂ Attribute.Says link.attributes r.parameters

/-! ## One attribute -/

/-- What is needed of an attribute to find its name and its value. -/
def Attribute.Separated (a : Attribute) : Prop :=
  equal ∉ a.name ∧
    match a with
    | flag _ => True
    | token _ value => value ≠ [] ∧ value.head? ≠ some quote
    | number _ digits => digits ≠ [] ∧ ∀ c ∈ digits, isDigit c = true
    | quoted _ string => string.head? ≠ some quote

/-- The attributes that are read as they should be, with this `atoi`. -/
def Attribute.ReadBy (A : Atoi) : Attribute → Prop
  | flag _ | token _ _ => False
  | number _ digits => (A.fn digits % 2 ^ 32).toNat = digitsValue digits 0
  | quoted _ string => string ≠ [] ∧ quote ∉ string

/-- Behind an attribute there is nothing, or another one. -/
def Continues (rest : Text) : Prop := rest = [] ∨ rest.head? = some parameterSeparator

theorem continues_attributesText (as : List Attribute) : Continues (attributesText as) := by
  cases as with
  | nil => exact .inl rfl
  | cons a as => exact .inr rfl

theorem notMem_of_isDigit {s : Text} (h : ∀ c ∈ s, isDigit c = true) {c : UInt8}
    (hc : isDigit c = false) : c ∉ s := fun hmem ↦ by
  rw [h c hmem] at hc
  cases hc

theorem takeWhile_continues {s rest : Text} (h : parameterSeparator ∉ s) (hrest : Continues rest) :
    (s ++ rest).takeWhile (· ≠ parameterSeparator) = s := by
  rcases hrest with rfl | hrest
  · rw [List.append_nil, takeWhile_of_notMem h]
  · obtain ⟨rest, rfl⟩ := List.head?_eq_some_iff.mp hrest
    exact takeWhile_append_cons h rest

theorem content_number (A : Atoi) (s : Text) :
    Value.content { type := .number, asNumber := UInt32.ofNat (A.fn s % 2 ^ 32).toNat } =
      .number (A.fn s % 2 ^ 32).toNat := by
  have hlt := Int.emod_lt_of_pos (A.fn s) (show (0 : ℤ) < 2 ^ 32 by decide)
  rw [Value.content, UInt32.toNat_ofNat', Nat.mod_eq_of_lt (by omega)]

/-- The value of a string starts at its first character, whatever that is. -/
theorem readValue_quote (A : Atoi) (c : UInt8) (s rest : Text) :
    (readValue A (quote :: (c :: s ++ rest))).content =
      .string (c :: (s ++ rest).takeWhile (· ≠ quote)) := rfl

theorem readValue_number (A : Atoi) {v : Text} (h : v.head? ≠ some quote) :
    (readValue A v).content =
      .number (A.fn (cstr (v.takeWhile (· ≠ parameterSeparator))) % 2 ^ 32).toNat := by
  rw [readValue, if_neg h, content_number]

theorem readParameter_append (A : Atoi) {name : Text} (h : equal ∉ name) (v : Text) :
    readParameter A (name ++ equal :: v) = some { name, value := readValue A v } := by
  rw [readParameter, cut_append h]
  rfl

/-- A name that has no value of its own is read together with what follows it. -/
theorem name_ne_of_readParameter {A : Atoi} {name rest : Text} {p : CoreLinkParameter}
    (h : equal ∉ name) (hrest : Continues rest)
    (hread : readParameter A (name ++ rest) = some p) : p.name ≠ name := by
  rw [readParameter, cut_append_of_notMem h] at hread
  cases hcut : cut [equal] rest with
  | none =>
    rw [hcut] at hread
    cases hread
  | some r =>
    obtain ⟨x, y⟩ := r
    rw [hcut] at hread
    cases hread
    intro hp
    have hx : x = [] := by
      have hlength := congrArg List.length hp
      simp only [List.length_append] at hlength
      exact List.length_eq_zero_iff.mp (by omega)
    -- the text would go on with an `=`
    have hrest' := eq_of_cut hcut
    rw [hx] at hrest'
    rw [hrest'] at hrest
    rcases hrest with hrest | hrest
    · cases hrest
    · exact absurd (Option.some.inj hrest) (by decide)

/-- A string is read as it is if it is neither empty nor ends before its end. -/
theorem readValue_string_iff (A : Atoi) {string : Text} (h : string.head? ≠ some quote)
    (rest : Text) :
    (readValue A (quote :: (string ++ [quote] ++ rest))).content = .string string ↔
      string ≠ [] ∧ quote ∉ string := by
  cases string with
  | nil =>
    rw [List.nil_append]
    refine iff_of_false (fun hcontent ↦ ?_) fun h ↦ h.1 rfl
    have := readValue_quote A quote [] rest
    rw [List.cons_append, List.nil_append] at this
    rw [List.cons_append, List.nil_append, this] at hcontent
    cases hcontent
  | cons c s =>
    have hc : c ≠ quote := fun hc ↦ h (congrArg some hc)
    have hcontent := readValue_quote A c s (quote :: rest)
    rw [List.append_assoc, List.singleton_append, hcontent, Content.string.injEq, List.cons.injEq]
    simp only [true_and, ne_eq, reduceCtorEq, not_false_eq_true, List.mem_cons, not_or,
      Ne.symm hc]
    constructor
    · intro heq hmem
      rw [← heq] at hmem
      have := List.mem_takeWhile_imp hmem
      simp at this
    · exact fun hnot ↦ takeWhile_append_cons hnot rest

/-- **Which attributes are read**, whatever comes behind them. -/
theorem readAttribute_iff {A : Atoi} {a : Attribute} (h : a.Separated) {rest : Text}
    (hrest : Continues rest) :
    (∃ p, readParameter A (a.text ++ rest) = some p ∧ a.Says p) ↔ a.ReadBy A := by
  obtain ⟨hname, hvalue⟩ := h
  cases a with
  | flag name =>
    refine iff_of_false ?_ id
    rintro ⟨p, hread, hp, -⟩
    exact name_ne_of_readParameter hname hrest hread hp
  | token name value =>
    change equal ∉ name at hname
    refine iff_of_false ?_ id
    rintro ⟨p, hread, -, hp⟩
    have hhead : (value ++ rest).head? ≠ some quote := by
      obtain ⟨c, w, rfl⟩ := List.exists_cons_of_ne_nil hvalue.1
      exact hvalue.2
    rw [Attribute.text, List.append_assoc, List.cons_append, readParameter_append A hname] at hread
    cases hread
    rw [readValue_number A hhead] at hp
    cases hp
  | number name digits =>
    change equal ∉ name at hname
    obtain ⟨hne, hdigits⟩ := hvalue
    have hhead : (digits ++ rest).head? ≠ some quote := by
      obtain ⟨c, w, rfl⟩ := List.exists_cons_of_ne_nil hne
      intro hc
      exact notMem_of_isDigit hdigits (c := quote) (by decide)
        (Option.some.inj hc ▸ List.mem_cons_self)
    have hread := readParameter_append A hname (digits ++ rest)
    have hsemicolon := notMem_of_isDigit hdigits (c := parameterSeparator) (by decide)
    have hzero := notMem_of_isDigit hdigits (c := 0) (by decide)
    have hcontent := readValue_number A hhead
    rw [takeWhile_continues hsemicolon hrest, cstr_of_notMem hzero] at hcontent
    rw [Attribute.text, List.append_assoc, List.cons_append, hread]
    simp only [Option.some.injEq, exists_eq_left', Attribute.Says, Attribute.name, hcontent,
      Content.number.injEq, true_and, Attribute.ReadBy]
  | quoted name string =>
    change equal ∉ name at hname
    have hread := readParameter_append A hname (quote :: (string ++ [quote] ++ rest))
    rw [Attribute.text, List.append_assoc, List.cons_append, List.cons_append, hread]
    simp only [Option.some.injEq, exists_eq_left', Attribute.Says, Attribute.name, true_and,
      Attribute.ReadBy]
    exact readValue_string_iff A hvalue rest

/-! ## The attributes of a link -/

theorem attributesText_cons (a : Attribute) (as : List Attribute) :
    attributesText (a :: as) = parameterSeparator :: (a.text ++ attributesText as) := rfl

/-- The texts the parameters are read from: every attribute, with all that comes behind it. -/
theorem behindEach_attributesText {a : Attribute} (h : parameterSeparator ∉ a.text)
    (as : List Attribute) :
    behindEach parameterSeparator (attributesText (a :: as)) =
      (a.text ++ attributesText as) :: behindEach parameterSeparator (attributesText as) := by
  rw [attributesText_cons, behindEach_cons_self, behindEach_append h]

/-- **Which lists of attributes are read.** -/
theorem readAttributes_iff {A : Atoi} {as : List Attribute} (h : ∀ a ∈ as, a.Separated)
    (hsemicolon : ∀ a ∈ as, parameterSeparator ∉ a.text) :
    (∃ ps, (behindEach parameterSeparator (attributesText as)).mapM (readParameter A) = some ps ∧
      List.Forall₂ Attribute.Says as ps) ↔ ∀ a ∈ as, a.ReadBy A := by
  induction as with
  | nil =>
    refine iff_of_true ⟨[], rfl, .nil⟩ ?_
    simp
  | cons a as ih =>
    have ih := ih (fun b hb ↦ h b (List.mem_cons_of_mem _ hb))
      fun b hb ↦ hsemicolon b (List.mem_cons_of_mem _ hb)
    rw [behindEach_attributesText (hsemicolon a List.mem_cons_self), List.forall_mem_cons, ← ih,
      ← readAttribute_iff (h a List.mem_cons_self) (continues_attributesText as), List.mapM_cons]
    constructor
    · rintro ⟨ps, hread, hsaid⟩
      obtain ⟨p, hp, hread⟩ := Option.bind_eq_some_iff.mp hread
      obtain ⟨ps', hps', hread⟩ := Option.bind_eq_some_iff.mp hread
      cases hread
      obtain ⟨hfirst, hrest⟩ := List.forall₂_cons.mp hsaid
      exact ⟨⟨p, hp, hfirst⟩, ps', hps', hrest⟩
    · rintro ⟨⟨p, hp, hfirst⟩, ps, hps, hrest⟩
      refine ⟨p :: ps, ?_, .cons hfirst hrest⟩
      rw [hp, hps]
      rfl

/-! ## One link -/

theorem readPath_slash (t rest : Text) : readPath (47 :: t) rest = t := rfl

theorem readRecord_text (A : Atoi) {link : Link} (h : 62 ∉ link.target) :
    readRecord A link.text =
      ((behindEach parameterSeparator (attributesText link.attributes)).mapM
        (readParameter A)).map fun parameters ↦
          { uri := { path := cstr (readPath link.target (attributesText link.attributes)) },
            parameters } := by
  have hopen : cut [60] link.text =
      some ([], link.target ++ 62 :: attributesText link.attributes) :=
    cut_append (a := []) List.not_mem_nil _
  rw [readRecord, hopen, Option.bind_eq_bind, Option.bind_some]
  simp only [endUri, cut_append h, Option.bind_eq_bind, Option.bind_some]
  cases (behindEach parameterSeparator (attributesText link.attributes)).mapM (readParameter A)
  · rfl
  · rfl

/-- What is needed of a link to find its parts. -/
structure Link.Separated (link : Link) : Prop where
  /-- The target ends at the first `>`. -/
  closing : 62 ∉ link.target
  /-- Every attribute has a name and a value. -/
  attributes : ∀ a ∈ link.attributes, a.Separated
  /-- Every attribute ends at a semicolon. -/
  semicolon : ∀ a ∈ link.attributes, parameterSeparator ∉ a.text
  /-- There is no NUL. -/
  zero : 0 ∉ link.text

/-- **Which links are read.** -/
theorem readLink_iff {A : Atoi} {link : Link} (h : link.Separated) :
    (∃ r, readRecord A link.text = some r ∧ link.Says r) ↔
      (∀ a ∈ link.attributes, a.ReadBy A) ∧ link.target.head? = some 47 := by
  have hzero : 0 ∉ link.target := fun hmem ↦
    h.zero (List.mem_cons_of_mem _ (List.mem_append_left _ hmem))
  -- the path is what is behind the slash
  have hpath : 47 :: cstr (readPath link.target (attributesText link.attributes)) = link.target ↔
      link.target.head? = some 47 := by
    constructor
    · intro heq
      rw [← heq]
      rfl
    · intro hslash
      obtain ⟨t, ht⟩ := List.head?_eq_some_iff.mp hslash
      have hfree : 0 ∉ t := fun hmem ↦ hzero (ht ▸ List.mem_cons_of_mem _ hmem)
      rw [ht, readPath_slash, cstr_of_notMem hfree]
  rw [readRecord_text A h.closing, ← readAttributes_iff h.attributes h.semicolon]
  simp only [Option.map_eq_some_iff, exists_exists_and_eq_and, Link.Says, hpath]
  constructor
  · rintro ⟨ps, hps, hslash, hsaid⟩
    exact ⟨⟨ps, hps, hsaid⟩, hslash⟩
  · rintro ⟨⟨ps, hps, hsaid⟩, hslash⟩
    exact ⟨ps, hps, hslash, hsaid⟩

/-! ## Documents -/

theorem exists_forall₂_iff {α β : Type} {R S : α → β → Prop} {l : List α} :
    (∃ l', List.Forall₂ R l l' ∧ List.Forall₂ S l l') ↔ ∀ a ∈ l, ∃ b, R a b ∧ S a b := by
  induction l with
  | nil => exact iff_of_true ⟨[], .nil, .nil⟩ (by simp)
  | cons a l ih =>
    rw [List.forall_mem_cons, ← ih]
    constructor
    · rintro ⟨_, hR, hS⟩
      obtain ⟨b, l', hab, hl', rfl⟩ := List.forall₂_cons_left_iff.mp hR
      obtain ⟨hab', hl''⟩ := List.forall₂_cons.mp hS
      exact ⟨⟨b, hab, hab'⟩, l', hl', hl''⟩
    · rintro ⟨⟨b, hR, hS⟩, l', hRl, hSl⟩
      exact ⟨b :: l', .cons hR hRl, .cons hS hSl⟩

theorem forall₂_of_mapM {α β : Type} {f : α → Option β} {l : List α} {l' : List β}
    (h : l.mapM f = some l') : List.Forall₂ (fun a b ↦ f a = some b) l l' := by
  induction l generalizing l' with
  | nil =>
    cases h
    exact .nil
  | cons a l ih =>
    rw [List.mapM_cons] at h
    obtain ⟨b, hb, h⟩ := Option.bind_eq_some_iff.mp h
    obtain ⟨l'', hl, h⟩ := Option.bind_eq_some_iff.mp h
    cases h
    exact .cons hb (ih hl)

/-- The document is read without an error, and as what it says. -/
def ReadsAs (A : Atoi) (text : Text) (links : List Link) : Prop :=
  ∃ c, parseCoreLink A {} (some text) none = .ok (c, none) ∧
    List.Forall₂ Link.Says links c.payload

theorem readsAs_iff {A : Atoi} {text : Text} {links : List Link} :
    ReadsAs A text links ↔ ∃ rs,
      List.Forall₂ (fun t r ↦ readRecord A t = some r) (documentTokens text) rs ∧
        List.Forall₂ Link.Says links rs := by
  simp only [ReadsAs, parseCoreLink_eq, List.nil_append, Except.ok.injEq, Prod.mk.injEq,
    ← readTokens_eq_true]
  constructor
  · rintro ⟨c, ⟨rfl, hok⟩, hsaid⟩
    refine ⟨_, Prod.ext rfl ?_, hsaid⟩
    by_contra hbad
    rw [if_neg hbad] at hok
    cases hok
  · rintro ⟨rs, hread, hsaid⟩
    rw [hread]
    exact ⟨_, ⟨rfl, if_pos rfl⟩, hsaid⟩

theorem Link.exists_mem_text (link : Link) : ∃ c ∈ link.text, c ≠ recordSeparator :=
  ⟨60, List.mem_cons_self, by decide⟩

theorem zero_notMem_documentText {links : List Link} (h : ∀ link ∈ links, 0 ∉ link.text) :
    0 ∉ documentText links := by
  refine notMem_intercalate (by decide) fun s hs ↦ ?_
  obtain ⟨link, hlink, rfl⟩ := List.mem_map.mp hs
  exact h link hlink

/-- **Documents whose links have no comma** are read if every link is. -/
theorem readsAs_documentText_iff {A : Atoi} {links : List Link}
    (hzero : ∀ link ∈ links, 0 ∉ link.text) (hcomma : ∀ link ∈ links, recordSeparator ∉ link.text) :
    ReadsAs A (documentText links) links ↔
      ∀ link ∈ links, ∃ r, readRecord A link.text = some r ∧ link.Says r := by
  have htokens : documentTokens (documentText links) = links.map Link.text := by
    rw [documentTokens, cstr_of_notMem (zero_notMem_documentText hzero), documentText]
    refine tokens_intercalate_of_notMem ?_ ?_
    · intro s hs
      obtain ⟨link, hlink, rfl⟩ := List.mem_map.mp hs
      exact hcomma link hlink
    · intro s hs
      obtain ⟨link, -, rfl⟩ := List.mem_map.mp hs
      exact List.cons_ne_nil _ _
  rw [readsAs_iff, htokens]
  simp only [List.forall₂_map_left_iff]
  exact exists_forall₂_iff

/-- A comma inside a link ends the record. -/
theorem not_readsAs_of_comma {A : Atoi} {links : List Link}
    (hzero : ∀ link ∈ links, 0 ∉ link.text) {link : Link} (hlink : link ∈ links) {a b : Text}
    (htext : link.text = a ++ recordSeparator :: b) (ha : ∃ c ∈ a, c ≠ recordSeparator)
    (hb : ∃ c ∈ b, c ≠ recordSeparator) : ¬ ReadsAs A (documentText links) links := by
  intro hreads
  obtain ⟨rs, hread, hsaid⟩ := readsAs_iff.mp hreads
  have hlength := hread.length_eq.trans hsaid.length_eq.symm
  rw [documentTokens, cstr_of_notMem (zero_notMem_documentText hzero), documentText] at hlength
  have hpieces : ∀ s ∈ links.map Link.text, ∃ c ∈ s, c ≠ recordSeparator := by
    intro s hs
    obtain ⟨link, -, rfl⟩ := List.mem_map.mp hs
    exact link.exists_mem_text
  have hlt := length_lt_tokens_intercalate hpieces (htext ▸ List.mem_map_of_mem hlink) ha hb
  rw [List.length_map] at hlt
  omega

/-! ## Documents of the format -/

/-- The attributes that are read as they should be. -/
def Attribute.Plain : Attribute → Prop
  | flag _ | token _ _ => False
  | number _ digits => digitsValue digits 0 < 2 ^ 31
  | quoted _ string => string ≠ [] ∧ quote ∉ string

theorem head?_ne_quote_of_escaped {s : Text} (h : escaped s = true) : s.head? ≠ some quote := by
  rintro hhead
  obtain ⟨t, rfl⟩ := List.head?_eq_some_iff.mp hhead
  cases t with
  | nil => exact absurd h (by decide)
  | cons d t => simp [escaped] at h

theorem Attribute.WellFormed.separated {a : Attribute} (h : a.WellFormed) : a.Separated := by
  obtain ⟨⟨-, hname⟩, hvalue⟩ := h
  refine ⟨hname equal (by simp [nameExcluded]), ?_⟩
  cases a with
  | flag name => trivial
  | token name value =>
    refine ⟨hvalue.1, fun hhead ↦ ?_⟩
    exact hvalue.2.2 quote (by simp) (List.mem_of_mem_head? hhead)
  | number name digits => exact hvalue
  | quoted name string => exact head?_ne_quote_of_escaped hvalue.1

theorem separator_ne {c : UInt8} (hc : c ∈ [parameterSeparator, recordSeparator, 0]) :
    c ≠ equal ∧ c ≠ quote ∧ isDigit c = false := by
  simp only [List.mem_cons, List.not_mem_nil, or_false] at hc
  rcases hc with rfl | rfl | rfl <;> decide

theorem Attribute.WellFormed.notMem_text {a : Attribute} (h : a.WellFormed) {c : UInt8}
    (hc : c ∈ [parameterSeparator, recordSeparator, 0]) : c ∉ a.text := by
  obtain ⟨⟨-, hname⟩, hvalue⟩ := h
  have hexcluded : c ∈ nameExcluded := by
    simp only [List.mem_cons, List.not_mem_nil, or_false] at hc
    rcases hc with rfl | rfl | rfl <;> decide
  obtain ⟨hequal, hquote, hdigit⟩ := separator_ne hc
  have hname := hname c hexcluded
  cases a with
  | flag name => exact hname
  | token name value =>
    have hnot : c ∉ value := hvalue.2.2 c <| by
      simp only [List.mem_cons, List.not_mem_nil, or_false] at hc ⊢
      tauto
    change c ∉ name at hname
    simp [Attribute.text, hname, hnot, hequal]
  | number name digits =>
    have hnot := notMem_of_isDigit hvalue.2 hdigit
    change c ∉ name at hname
    simp [Attribute.text, hname, hnot, hequal]
  | quoted name string =>
    have hnot := hvalue.2 c hc
    change c ∉ name at hname
    simp [Attribute.text, hname, hnot, hequal, hquote]

theorem Link.WellFormed.notMem_attributesText {link : Link} (h : link.WellFormed) {c : UInt8}
    (hc : c ∈ [recordSeparator, 0]) : c ∉ attributesText link.attributes := by
  intro hmem
  obtain ⟨a, ha, hca⟩ := List.mem_flatMap.mp hmem
  rcases List.mem_cons.mp hca with rfl | hca
  · exact absurd hc (by decide)
  · exact (h.attributes a ha).notMem_text (List.mem_cons_of_mem _ hc) hca

theorem Link.WellFormed.zero_notMem {link : Link} (h : link.WellFormed) : 0 ∉ link.text := by
  have htarget := h.target 0 (by simp)
  have hattributes := h.notMem_attributesText (c := 0) (by decide)
  simp [Link.text, htarget, hattributes]

theorem Link.WellFormed.separated {link : Link} (h : link.WellFormed) : link.Separated where
  closing := h.target 62 (by simp)
  attributes a ha := (h.attributes a ha).separated
  semicolon a ha := (h.attributes a ha).notMem_text List.mem_cons_self
  zero := h.zero_notMem

/-- Numbers up to 2147483647 are read by every `atoi`. -/
theorem readBy_iff {a : Attribute} (h : a.Separated) : (∀ A, a.ReadBy A) ↔ a.Plain := by
  cases a with
  | flag name => exact ⟨fun hread ↦ hread .orZero, fun hplain ↦ hplain.elim⟩
  | token name value => exact ⟨fun hread ↦ hread .orZero, fun hplain ↦ hplain.elim⟩
  | quoted name string => exact ⟨fun hread ↦ hread .orZero, fun hplain _ ↦ hplain⟩
  | number name digits =>
    have hinteger := leadingInteger_of_isDigit h.2.2
    constructor
    · intro hread
      by_contra hlarge
      have hzero : Atoi.orZero.fn digits = 0 := by
        rw [Atoi.orZero]
        refine if_neg fun hfits ↦ hlarge ?_
        rw [hinteger] at hfits
        exact_mod_cast hfits.2
      have hread := hread .orZero
      rw [Attribute.ReadBy, hzero] at hread
      rw [Attribute.Plain, ← hread] at hlarge
      exact hlarge (by decide)
    · intro hplain A
      rw [Attribute.Plain] at hplain
      have hspec := A.spec digits (by rw [hinteger]; omega) (by rw [hinteger]; omega)
      rw [Attribute.ReadBy, hspec, hinteger]
      omega

/-- The document is read as what it says, with every `atoi`. -/
def Understood (links : List Link) : Prop := ∀ A, ReadsAs A (documentText links) links

/-- **Which documents of the format are understood.**  Those whose targets start with a slash and
have no comma, and whose attributes are numbers that fit an `int` and strings that are neither empty
nor contain a quotation mark. -/
theorem understood_iff {links : List Link} (h : ∀ link ∈ links, link.WellFormed) :
    Understood links ↔ ∀ link ∈ links, link.target.head? = some 47 ∧
      recordSeparator ∉ link.target ∧ ∀ a ∈ link.attributes, a.Plain := by
  have hzero : ∀ link ∈ links, 0 ∉ link.text := fun link hlink ↦ (h link hlink).zero_notMem
  by_cases hcomma : ∀ link ∈ links, recordSeparator ∉ link.target
  · have htext : ∀ link ∈ links, recordSeparator ∉ link.text := by
      intro link hlink
      have hattributes := (h link hlink).notMem_attributesText (c := recordSeparator) (by decide)
      have htarget := hcomma link hlink
      simp [Link.text, htarget, hattributes]
    constructor
    · intro hunderstood link hlink
      have hread (A : Atoi) := (readLink_iff (h link hlink).separated).mp
        ((readsAs_documentText_iff hzero htext).mp (hunderstood A) link hlink)
      refine ⟨(hread .orZero).2, hcomma link hlink, fun a ha ↦ ?_⟩
      exact (readBy_iff ((h link hlink).attributes a ha).separated).mp fun A ↦ (hread A).1 a ha
    · intro hplain A
      refine (readsAs_documentText_iff hzero htext).mpr fun link hlink ↦ ?_
      obtain ⟨htarget, -, hattributes⟩ := hplain link hlink
      exact (readLink_iff (h link hlink).separated).mpr ⟨fun a ha ↦
        (readBy_iff ((h link hlink).attributes a ha).separated).mpr (hattributes a ha) A, htarget⟩
  · refine iff_of_false (fun hunderstood ↦ ?_) fun hplain ↦
      hcomma fun link hlink ↦ (hplain link hlink).2.1
    push Not at hcomma
    obtain ⟨link, hlink, hmem⟩ := hcomma
    obtain ⟨a, b, htarget⟩ := List.append_of_mem hmem
    have htext : link.text =
        (60 :: a) ++ recordSeparator :: (b ++ 62 :: attributesText link.attributes) := by
      simp [Link.text, htarget]
    exact not_readsAs_of_comma hzero hlink htext ⟨60, List.mem_cons_self, by decide⟩
      ⟨62, by simp, by decide⟩ (hunderstood .orZero)

/-- `</a>;ct=40;t="b"` -/
theorem understood_sensor : Understood
    [{ target := [47, 97],
       attributes := [.number [99, 116] [52, 48], .quoted [116] [98]] }] := by
  refine (understood_iff fun link hlink ↦ ?_).mpr fun link hlink ↦ ?_
  · rw [List.mem_singleton.mp hlink]
    refine ⟨by decide +kernel, fun a ha ↦ ?_⟩
    simp only [List.mem_cons, List.not_mem_nil, or_false] at ha
    rcases ha with rfl | rfl
    · exact ⟨⟨by decide +kernel, by decide +kernel⟩, by decide +kernel, by decide +kernel⟩
    · exact ⟨⟨by decide +kernel, by decide +kernel⟩, by decide +kernel, by decide +kernel⟩
  · rw [List.mem_singleton.mp hlink]
    refine ⟨rfl, by decide +kernel, fun a ha ↦ ?_⟩
    simp only [List.mem_cons, List.not_mem_nil, or_false] at ha
    rcases ha with rfl | rfl
    · show digitsValue [52, 48] 0 < 2 ^ 31
      decide
    · exact ⟨by decide +kernel, by decide +kernel⟩

/-- `</a>;obs` is rejected. -/
theorem not_understood_obs :
    ¬ Understood [{ target := [47, 97], attributes := [.flag [111, 98, 115]] }] := by
  intro hunderstood
  obtain ⟨c, hparse, -⟩ := hunderstood .orZero
  have hreject : (parseCoreLink .orZero {} (some (documentText
      [{ target := [47, 97], attributes := [.flag [111, 98, 115]] }])) none).toOption.map
        Prod.snd = some (some (.coap .parseCoreLink)) := by decide
  rw [hparse] at hreject
  cases hreject

end Coap
