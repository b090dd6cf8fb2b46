import CoapCpp.Uri
import Mathlib.Data.List.Forall2

/-!
# CoRE Link documents

`CoreLink` as `src/core_link.cc` has it: `create_core_link` writes a list of records as a text, and
`parse_core_link` reads one.

The parser works with positions.  It looks for `<`, `>` and `</` in a record, and then for one `;`
after the other; behind each of them it looks for the next `=`, wherever that is.
`parseRecord_eq` replaces the positions by parts of the text: `readRecord` cuts the record at the
brackets, and reads a parameter from what is behind each `;`.  It is a total function, so no call of
`substr` ever fails.
-/

set_option autoImplicit false

namespace Coap

open CString Memory

/-! ## The records -/

/-- `CoreLinkParameter::ValueType` -/
inductive ValueType where
  /-- `NUMBER` -/
  | number
  /-- `STRING` -/
  | string
deriving DecidableEq, Repr

/-- `CoreLinkParameter::Value` -/
structure Value where
  /-- `type` -/
  type : ValueType := .number
  /-- `asNumber` -/
  asNumber : UInt32 := 0
  /-- `asString` -/
  asString : Text := []
deriving DecidableEq

/-- `CoreLinkParameter` -/
structure CoreLinkParameter where
  /-- `name` -/
  name : Text := []
  /-- `value` -/
  value : Value := {}
deriving DecidableEq

/-- `CoreLinkType` -/
structure CoreLinkType where
  /-- `uri` -/
  uri : UriPath := {}
  /-- `parameters` -/
  parameters : List CoreLinkParameter := []
deriving DecidableEq

/-- `CoreLink` -/
structure CoreLink where
  /-- `m_payload` -/
  payload : List CoreLinkType := []
  /-- `m_coreLink` -/
  coreLink : Text := []
deriving DecidableEq

/-! ## The separators -/

/-- `beginUri`, which is `</`. -/
@[simp] abbrev beginUri : Text := [60, 47]

/-- `endUri`, which is `>`. -/
@[simp] abbrev endUri : Text := [62]

/-- `recordSeparator`, which is `,`. -/
@[simp] abbrev recordSeparator : UInt8 := 44

/-- `parameterSeparator`, which is `;`. -/
@[simp] abbrev parameterSeparator : UInt8 := 59

/-- `equal`, which is `=`. -/
@[simp] abbrev equal : UInt8 := 61

/-- `quote`, which is `"`. -/
@[simp] abbrev quote : UInt8 := 34

/-! ## Writing -/

/-- What `create_core_link` appends for a parameter. -/
def CoreLinkParameter.text (p : CoreLinkParameter) : Text :=
  let value := match p.value.type with
    | .number => decimal p.value.asNumber.toNat
    | .string => quote :: (p.value.asString ++ [quote])
  parameterSeparator :: (p.name ++ equal :: value)

/-- What `create_core_link` appends for a record. -/
def CoreLinkType.text (r : CoreLinkType) : Text :=
  beginUri ++ r.uri.path ++ endUri ++ r.parameters.flatMap CoreLinkParameter.text

/-- The loop of `create_core_link` over the records. -/
def recordsText : List CoreLinkType → Text
  | [] => []
  | [r] => r.text
  | r :: s :: records => r.text ++ recordSeparator :: recordsText (s :: records)

/-- `create_core_link` -/
def createCoreLink (c : CoreLink) (ec : Option ErrorCode) : CoreLink × Option ErrorCode :=
  if c.payload = [] then (c, some (.coap .noPayload))
  else ({ c with coreLink := recordsText c.payload }, ec)

/-! ## Reading -/

/-- The loop of `parse_record` from `offset` on, with the parameters so far; `none` if it returns
early. -/
def parseParameters (A : Atoi) (line : Text) :
    ℕ → ℕ → List CoreLinkParameter → Except Fault (Option (List CoreLinkParameter))
  | 0, _, _ => .error .outOfFuel
  | fuel + 1, offset, parameters => do
    match find line [parameterSeparator] (offset + 1) with
    | none => return some parameters
    | some offset =>
      match find line [equal] (offset + 1) with
      | none => return none
      | some separator =>
        let name ← substrTo line (offset + 1) (some separator)
        let first ← substrTo line (separator + 1) (some (separator + 2))
        if (cstr first).head? = some quote then
          let stop := find line [quote] (separator + 3)
          let asString ← substrTo line (separator + 2) stop
          let value : Value := { type := .string, asString }
          parseParameters A line fuel offset (parameters ++ [{ name, value }])
        else
          let stop := find line [parameterSeparator] (separator + 1)
          let number ← substrTo line (separator + 1) stop
          let value : Value :=
            { type := .number, asNumber := UInt32.ofNat (A.fn (cstr number) % 2 ^ 32).toNat }
          parseParameters A line fuel offset (parameters ++ [{ name, value }])

/-- The part of `parse_record` that reads the path. -/
def parsePath (line : Text) (offset closingBracket : ℕ) : Except Fault Text :=
  match find line beginUri 0 with
  | some slash => substrTo line (slash + 2) (some closingBracket)
  | none => substrTo line (offset + 1) (some closingBracket)

/-- `parse_record` -/
def parseRecord (A : Atoi) (c : CoreLink) (line : Text) :
    Except Fault (CoreLink × Option ErrorCode) := do
  let ec := some (.coap .parseCoreLink)
  match find line [60] 0 with
  | none => return (c, ec)
  | some offset =>
    match find line endUri (offset + 1) with
    | none => return (c, ec)
    | some closingBracket =>
      let path ← parsePath line offset closingBracket
      match ← parseParameters A line (line.length + 1) closingBracket [] with
      | none => return (c, ec)
      | some parameters =>
        let record : CoreLinkType := { uri := { path := cstr path }, parameters }
        return ({ c with payload := c.payload ++ [record] }, none)

/-- The loop of `parse_core_link` over the tokens. -/
def parseTokens (A : Atoi) :
    List Text → CoreLink → Option ErrorCode → Except Fault (CoreLink × Option ErrorCode)
  | [], c, ec => return (c, ec)
  | token :: rest, c, _ => do
    let (c, ec) ← parseRecord A c token
    if ec.isSome then
      return (c, ec)
    parseTokens A rest c ec

/-- `parse_core_link`, whose copy of the text ends with a NUL. -/
def parseCoreLink (A : Atoi) (c : CoreLink) (coreLink : Option Text) (ec : Option ErrorCode) :
    Except Fault (CoreLink × Option ErrorCode) :=
  match coreLink with
  | none => return (c, some (.system .efault))
  | some text => parseTokens A (tokens recordSeparator (cstr text)) c ec

/-! ## What a record is read as -/

/-- The value that is read behind the `=`. -/
def readValue (A : Atoi) (v : Text) : Value :=
  if v.head? = some quote then
    -- the search for the second quotation mark skips one character
    { type := .string, asString := v.tail.take 1 ++ (v.tail.drop 1).takeWhile (· ≠ quote) }
  else
    { type := .number,
      asNumber := UInt32.ofNat
        (A.fn (cstr (v.takeWhile (· ≠ parameterSeparator))) % 2 ^ 32).toNat }

/-- The parameter that is read from what is behind a `;`. -/
def readParameter (A : Atoi) (s : Text) : Option CoreLinkParameter :=
  (cut [equal] s).map fun r ↦ { name := r.1, value := readValue A r.2 }

/-- The path that is read from a record with `target` between its brackets and `rest` behind
them. -/
def readPath (target rest : Text) : Text :=
  match cut beginUri (60 :: target) with
  | some r => r.2
  | none =>
    match cut beginUri rest with
    | some r => r.2
    | none => target

/-- The record that is read from a line. -/
def readRecord (A : Atoi) (line : Text) : Option CoreLinkType := do
  let (_, s) ← cut [60] line
  let (target, rest) ← cut endUri s
  let parameters ← (behindEach parameterSeparator rest).mapM (readParameter A)
  return { uri := { path := cstr (readPath target rest) }, parameters }

theorem head?_cstr_take_one (v : Text) : (cstr (v.take 1)).head? = some quote ↔
    v.head? = some quote := by
  cases v with
  | nil => rfl
  | cons c w =>
    by_cases hc : c = 0
    · simp [cstr, hc]
    · simp [cstr, hc]

/-- The three stretches behind an `=` in a line. -/
structure ValueStretches (line : Text) (separator : ℕ) (v : Text) : Prop where
  /-- The character that decides about the type. -/
  first : substrTo line (separator + 1) (some (separator + 2)) = .ok (v.take 1)
  /-- A string. -/
  string : v.head? = some quote →
    substrTo line (separator + 2) (find line [quote] (separator + 3)) =
      .ok (v.tail.take 1 ++ (v.tail.drop 1).takeWhile (· ≠ quote))
  /-- A number. -/
  number : substrTo line (separator + 1) (find line [parameterSeparator] (separator + 1)) =
    .ok (v.takeWhile (· ≠ parameterSeparator))

theorem substrTo_value (pre name v : Text) :
    ValueStretches (pre ++ (name ++ equal :: v)) (pre.length + name.length) v := by
  have hline : pre ++ (name ++ equal :: v) = (pre ++ name ++ [equal]) ++ v := by simp
  have hlength : pre.length + name.length + 1 = (pre ++ name ++ [equal]).length := by
    simp [Nat.add_assoc]
  rw [hline]
  refine ⟨?_, fun hquote ↦ ?_, ?_⟩
  · rw [show pre.length + name.length + 2 = (pre ++ name ++ [equal]).length + 1 by rw [← hlength],
      hlength]
    exact substrTo_append _ v 1
  · obtain ⟨w, rfl⟩ := List.head?_eq_some_iff.mp hquote
    have hlong : pre.length + name.length + 2 = (pre ++ name ++ [equal, quote]).length := by
      simp [Nat.add_assoc]
    have hline' : (pre ++ name ++ [equal]) ++ quote :: w =
        (pre ++ name ++ [equal, quote]) ++ w := by simp
    rw [hline', show pre.length + name.length + 3 = (pre ++ name ++ [equal, quote]).length + 1 by
      rw [← hlong], hlong]
    exact substrTo_find _ w quote 1
  · rw [hlength]
    have hfind := substrTo_find (pre ++ name ++ [equal]) v parameterSeparator 0
    rw [Nat.add_zero] at hfind
    exact hfind

/-- **The loop over the parameters** reads one parameter behind each `;`. -/
theorem parseParameters_eq (A : Atoi) (pre s : Text) {offset fuel : ℕ}
    (hpre : pre.length = offset + 1) (hfuel : s.length < fuel)
    (parameters : List CoreLinkParameter) :
    parseParameters A (pre ++ s) fuel offset parameters =
      .ok (((behindEach parameterSeparator s).mapM (readParameter A)).map (parameters ++ ·)) := by
  induction fuel generalizing pre s offset parameters with
  | zero => omega
  | succ fuel ih =>
    rw [parseParameters, ← hpre, find_eq_cut]
    cases hcut : cut [parameterSeparator] s with
    | none =>
      rw [behindEach_of_notMem (cut_singleton_eq_none hcut)]
      simp
    | some r =>
      obtain ⟨a, t⟩ := r
      obtain rfl : s = a ++ parameterSeparator :: t := eq_of_cut hcut
      have hline : pre ++ (a ++ parameterSeparator :: t) =
          (pre ++ a ++ [parameterSeparator]) ++ t := by simp
      have hlength : (pre ++ a ++ [parameterSeparator]).length = pre.length + a.length + 1 := by
        simp [Nat.add_assoc]
      have hshort : t.length < fuel := by
        simp only [List.length_append, List.length_cons] at hfuel
        omega
      rw [behindEach_append (notMem_of_cut hcut), behindEach_cons_self, List.mapM_cons, hline]
      generalize pre ++ a ++ [parameterSeparator] = pre at *
      simp only [Option.map_some, ← hlength, find_eq_cut, readParameter]
      cases hequal : cut [equal] t with
      | none => rfl
      | some r =>
        obtain ⟨name, v⟩ := r
        obtain rfl : t = name ++ equal :: v := eq_of_cut hequal
        have hname : substrTo (pre ++ (name ++ equal :: v)) pre.length
            (some (pre.length + name.length)) = .ok name := by
          rw [substrTo_append, List.take_left' rfl]
        have hvalue := substrTo_value pre name v
        simp only [Option.map_some, hname, ok_bind, hvalue.first, head?_cstr_take_one,
          readValue]
        by_cases hquote : v.head? = some quote
        · simp only [if_pos hquote, hvalue.string hquote, ok_bind]
          rw [ih pre _ hlength hshort]
          cases (behindEach parameterSeparator (name ++ equal :: v)).mapM (readParameter A) with
          | none => rfl
          | some ps => simp
        · simp only [if_neg hquote, hvalue.number, ok_bind]
          rw [ih pre _ hlength hshort]
          cases (behindEach parameterSeparator (name ++ equal :: v)).mapM (readParameter A) with
          | none => rfl
          | some ps => simp

theorem parsePath_eq {front : Text} (hfront : 60 ∉ front) (target rest : Text) :
    parsePath (front ++ 60 :: (target ++ 62 :: rest)) front.length
      (front.length + 1 + target.length) = .ok (readPath target rest) := by
  have hclosing : (62 : UInt8) ∉ beginUri := by decide
  have hcut := cut_append_cons hclosing (60 :: target) rest
  rw [parsePath, find_zero, cut_append_of_notMem hfront, ← List.cons_append, hcut, readPath]
  cases htarget : cut beginUri (60 :: target) with
  | some r =>
    obtain ⟨a, b⟩ := r
    have hline : front ++ (60 :: target ++ 62 :: rest) =
        (front ++ a ++ [60, 47]) ++ (b ++ 62 :: rest) := by
      rw [eq_of_cut htarget]
      simp
    have hlength : front.length + 1 + target.length =
        (front ++ a ++ [60, 47]).length + b.length := by
      have := congrArg List.length (eq_of_cut htarget)
      simp only [List.length_cons, List.length_append, List.length_nil] at this ⊢
      omega
    simp only [Option.map_some, List.length_append]
    rw [hline, hlength, show front.length + a.length + 2 = (front ++ a ++ [60, 47]).length by
      simp [Nat.add_assoc], substrTo_append, List.take_left' rfl]
  | none =>
    cases hrest : cut beginUri rest with
    | some r =>
      obtain ⟨a, b⟩ := r
      have hline : front ++ (60 :: target ++ 62 :: rest) =
          (front ++ 60 :: target ++ 62 :: a ++ [60, 47]) ++ b := by
        rw [eq_of_cut hrest]
        simp
      simp only [Option.map_some]
      rw [hline, show (front ++ (60 :: target ++ 62 :: a)).length + 2 =
        (front ++ 60 :: target ++ 62 :: a ++ [60, 47]).length by simp [Nat.add_assoc]]
      refine substrTo_of_lt _ _ ?_
      simp only [List.length_append, List.length_cons]
      omega
    | none =>
      have hline : front ++ (60 :: target ++ 62 :: rest) =
          (front ++ [60]) ++ (target ++ 62 :: rest) := by simp
      have hlength : front.length + 1 = (front ++ [60]).length := by simp
      simp only [Option.map_none]
      rw [hline, hlength, substrTo_append, List.take_left' rfl]

/-- **What `parse_record` does** with a line: it adds the record that is read from it, or reports
an error. -/
theorem parseRecord_eq (A : Atoi) (c : CoreLink) (line : Text) :
    parseRecord A c line = .ok (match readRecord A line with
      | none => (c, some (.coap .parseCoreLink))
      | some r => ({ c with payload := c.payload ++ [r] }, none)) := by
  rw [parseRecord, readRecord, find_zero]
  cases hfront : cut [60] line with
  | none => rfl
  | some r =>
    obtain ⟨front, s⟩ := r
    obtain rfl : line = front ++ 60 :: s := eq_of_cut hfront
    have hfind := find_eq_cut (front ++ [60]) s endUri
    rw [List.append_assoc, List.singleton_append, List.length_append, List.length_singleton]
      at hfind
    simp only [Option.map_some, hfind]
    cases htarget : cut endUri s with
    | none => simp [htarget]
    | some r =>
      obtain ⟨target, rest⟩ := r
      obtain rfl : s = target ++ 62 :: rest := eq_of_cut htarget
      have hpath := parsePath_eq (notMem_of_cut hfront) target rest
      have hline : front ++ 60 :: (target ++ 62 :: rest) =
          (front ++ 60 :: target ++ [62]) ++ rest := by simp
      have hlength : (front ++ 60 :: target ++ [62]).length =
          front.length + 1 + target.length + 1 := by
        simp only [List.length_append, List.length_cons, List.length_nil]
        omega
      have hshort : rest.length < (front ++ 60 :: (target ++ 62 :: rest)).length + 1 := by
        simp only [List.length_append, List.length_cons]
        omega
      have hparameters := parseParameters_eq A (front ++ 60 :: target ++ [62]) rest hlength
        hshort []
      rw [← hline] at hparameters
      simp only [Option.map_some, hpath, ok_bind, hparameters]
      cases hread : (behindEach parameterSeparator rest).mapM (readParameter A) with
      | none => simp [htarget, hread]
      | some parameters => simp [htarget, hread]

/-! ## What a document is read as -/

/-- The records that are read from a row of tokens up to the first one that is malformed, and
whether there is none such. -/
def readTokens (A : Atoi) : List Text → List CoreLinkType × Bool
  | [] => ([], true)
  | token :: rest =>
    match readRecord A token with
    | none => ([], false)
    | some r => (r :: (readTokens A rest).1, (readTokens A rest).2)

/-- The tokens of a document, which is a `const char *`. -/
def documentTokens (text : Text) : List Text := tokens recordSeparator (cstr text)

theorem parseTokens_eq (A : Atoi) (ts : List Text) (c : CoreLink) (ec : Option ErrorCode) :
    parseTokens A ts c ec = .ok ({ c with payload := c.payload ++ (readTokens A ts).1 },
      if (readTokens A ts).2 then (if ts = [] then ec else none)
      else some (.coap .parseCoreLink)) := by
  induction ts generalizing c ec with
  | nil => simp [parseTokens, readTokens]
  | cons token rest ih =>
    rw [parseTokens, parseRecord_eq, ok_bind, readTokens]
    cases readRecord A token with
    | none => simp
    | some r => simp [ih]

/-- **What `parse_core_link` does** with a document: it appends the records in front of the first
malformed one, and reports whether there was one. -/
theorem parseCoreLink_eq (A : Atoi) (c : CoreLink) (text : Text) :
    parseCoreLink A c (some text) none =
      .ok ({ c with payload := c.payload ++ (readTokens A (documentTokens text)).1 },
        if (readTokens A (documentTokens text)).2 then none
        else some (.coap .parseCoreLink)) := by
  rw [parseCoreLink, parseTokens_eq, ite_self, documentTokens]

/-- All tokens are read if each of them is. -/
theorem readTokens_eq_true {A : Atoi} {ts : List Text} {rs : List CoreLinkType} :
    readTokens A ts = (rs, true) ↔ List.Forall₂ (fun t r ↦ readRecord A t = some r) ts rs := by
  induction ts generalizing rs with
  | nil =>
    rw [List.forall₂_nil_left_iff, readTokens, Prod.mk.injEq]
    exact ⟨fun h ↦ h.1.symm, fun h ↦ ⟨h.symm, rfl⟩⟩
  | cons token rest ih =>
    rw [readTokens, List.forall₂_cons_left_iff]
    cases hread : readRecord A token with
    | none => simp
    | some r =>
      simp only [Option.some.injEq, Prod.mk.injEq, ← ih]
      constructor
      · rintro ⟨rfl, hrest⟩
        exact ⟨r, _, rfl, Prod.ext rfl hrest, rfl⟩
      · rintro ⟨_, rest', rfl, hrest, rfl⟩
        rw [hrest]
        exact ⟨rfl, rfl⟩

/-! ## Which records are read -/

/-- A record that `parse_record` takes: a target between brackets, and an equals sign behind every
semicolon. -/
def Legible (line : Text) : Prop :=
  ∃ lead target rest, line = lead ++ 60 :: (target ++ 62 :: rest) ∧ 60 ∉ lead ∧ 62 ∉ target ∧
    ∀ s ∈ behindEach parameterSeparator rest, equal ∈ s

theorem readParameter_isSome {A : Atoi} {s : Text} : (readParameter A s).isSome ↔ equal ∈ s := by
  rw [readParameter, Option.isSome_map]
  constructor
  · intro h
    obtain ⟨⟨a, b⟩, hcut⟩ := Option.isSome_iff_exists.mp h
    rw [eq_of_cut hcut]
    simp
  · intro hmem
    cases hcut : cut [equal] s with
    | none => exact absurd hmem (cut_singleton_eq_none hcut)
    | some r => rfl

theorem mapM_isSome {α β : Type} {f : α → Option β} {l : List α} :
    (l.mapM f).isSome ↔ ∀ a ∈ l, (f a).isSome := by
  induction l with
  | nil => simp
  | cons a l ih =>
    rw [List.mapM_cons, List.forall_mem_cons, ← ih]
    cases f a with
    | none => simp
    | some b =>
      cases l.mapM f with
      | none => simp
      | some bs => simp

/-- Whether a line is taken does not depend on how numbers are read. -/
theorem readRecord_isSome {A : Atoi} {line : Text} : (readRecord A line).isSome ↔ Legible line := by
  constructor
  · intro h
    obtain ⟨r, hr⟩ := Option.isSome_iff_exists.mp h
    obtain ⟨⟨lead, s⟩, hlead, hr⟩ := Option.bind_eq_some_iff.mp hr
    obtain ⟨⟨target, rest⟩, htarget, hr⟩ := Option.bind_eq_some_iff.mp hr
    obtain ⟨parameters, hparameters, -⟩ := Option.bind_eq_some_iff.mp hr
    have hall := mapM_isSome.mp (Option.isSome_iff_exists.mpr ⟨parameters, hparameters⟩)
    refine ⟨lead, target, rest, ?_, notMem_of_cut hlead, notMem_of_cut htarget,
      fun s hs ↦ readParameter_isSome.mp (hall s hs)⟩
    rw [eq_of_cut hlead, eq_of_cut htarget]
    rfl
  · rintro ⟨lead, target, rest, rfl, hlead, htarget, hrest⟩
    have hall := mapM_isSome.mpr fun s hs ↦ (readParameter_isSome (A := A)).mpr (hrest s hs)
    obtain ⟨parameters, hparameters⟩ := Option.isSome_iff_exists.mp hall
    simp [readRecord, cut_append hlead, cut_append htarget, hparameters]

/-- Everything is read if every token is legible. -/
theorem readTokens_snd {A : Atoi} {ts : List Text} :
    (readTokens A ts).2 = true ↔ ∀ t ∈ ts, Legible t := by
  induction ts with
  | nil => simp [readTokens]
  | cons t ts ih =>
    rw [readTokens, List.forall_mem_cons, ← readRecord_isSome (A := A), ← ih]
    cases readRecord A t with
    | none => simp
    | some r => simp

/-- Nothing is read if the first token is not legible. -/
theorem readTokens_fst {A : Atoi} {t : Text} {ts : List Text} :
    (readTokens A (t :: ts)).1 = [] ↔ ¬ Legible t := by
  rw [readTokens, ← readRecord_isSome (A := A)]
  cases readRecord A t with
  | none => simp
  | some r => simp

end Coap
