import CoapCpp.Uri

/-!
# From a path to its segments and back

`uri_to_path` puts together what `path_to_uri` takes apart.  The two disagree about numbers: which
of the two lists a path goes to depends on the first character of its first segment, and a segment
that goes to the list of numbers comes back as the text of the number that `strtol` reads.

`uri_inverse_iff` says for which paths and for which lists nothing is lost.
-/

set_option autoImplicit false

namespace Coap

open CString

/-! ## The code -/

/-- `std::to_string` of a `long`. -/
def longText (z : ℤ) : Text := if z < 0 then 45 :: decimal z.natAbs else decimal z.natAbs

/-- `uri_to_path` -/
def UriPath.uriToPath (p : UriPath) : UriPath :=
  match p.uri.type with
  | .string =>
    { p with path := p.uri.asString.foldl (fun path s ↦ path ++ [47] ++ s) p.path }
  | .integer =>
    { p with path := p.uri.asInteger.foldl (fun path z ↦ path ++ [47] ++ longText z) p.path }

/-- The constructor of `UriPath` from a `Uri`. -/
def UriPath.ofUri (uri : Uri) : UriPath := UriPath.uriToPath { uri }

/-! ## Numbers as texts -/

/-- The values of a `long`. -/
def IsLong (z : ℤ) : Prop := -2 ^ 63 ≤ z ∧ z ≤ 2 ^ 63 - 1

theorem isLong_strtol (s : Text) : IsLong (strtol s) := by
  rw [IsLong, strtol]
  omega

theorem leadingInteger_longText (z : ℤ) : leadingInteger (longText z) = z := by
  by_cases hneg : z < 0
  · have hdigits : (decimal z.natAbs).takeWhile isDigit = decimal z.natAbs :=
      List.takeWhile_eq_self_iff.mpr (isDigit_decimal _)
    have hspace : isSpace 45 = false := by decide
    rw [longText, if_pos hneg, leadingInteger, List.dropWhile_cons,
      if_neg (by rw [hspace]; exact Bool.false_ne_true)]
    simp only [if_true, hdigits, digitsValue_decimal]
    omega
  · rw [longText, if_neg hneg, leadingInteger_decimal]
    omega

/-- A `long` that was written is read back. -/
theorem strtol_longText {z : ℤ} (h : IsLong z) : strtol (longText z) = z := by
  rw [IsLong] at h
  rw [strtol, leadingInteger_longText]
  omega

/-- The segments that stay what they are when they are read as numbers. -/
theorem longText_strtol_iff {s : Text} :
    longText (strtol s) = s ↔ ∃ z, IsLong z ∧ s = longText z := by
  constructor
  · intro h
    exact ⟨strtol s, isLong_strtol s, h.symm⟩
  · rintro ⟨z, hz, rfl⟩
    rw [strtol_longText hz]

/-- The text of a number consists of digits, and maybe a sign. -/
theorem mem_longText {z : ℤ} {b : UInt8} (h : b ∈ longText z) : b = 45 ∨ isDigit b = true := by
  rw [longText] at h
  split at h
  · rcases List.mem_cons.mp h with rfl | h
    · exact .inl rfl
    · exact .inr (isDigit_decimal _ b h)
  · exact .inr (isDigit_decimal _ b h)

theorem longText_ne_nil (z : ℤ) : longText z ≠ [] := by
  rw [longText]
  split
  · exact List.cons_ne_nil _ _
  · exact decimal_ne_nil _

theorem notMem_longText {c : UInt8} (hsign : c ≠ 45) (hdigit : isDigit c = false) (z : ℤ) :
    c ∉ longText z := by
  intro hmem
  rcases mem_longText hmem with rfl | h
  · exact hsign rfl
  · rw [hdigit] at h
    cases h

/-- A number is taken for a number unless it has a sign. -/
theorem typeOf_longText (z : ℤ) : typeOf (longText z) = .integer ↔ 0 ≤ z := by
  have hhead : typeOf (longText z) = .string ↔ z < 0 := by
    rw [typeOf_eq_string_iff]
    by_cases hneg : z < 0
    · rw [longText, if_pos hneg]
      exact iff_of_true (by rw [List.headD_cons]; decide) hneg
    · rw [longText, if_neg hneg]
      refine iff_of_false (not_not.mpr ?_) hneg
      obtain ⟨c, t, hct⟩ := List.exists_cons_of_ne_nil (decimal_ne_nil z.natAbs)
      have hc := isDigit_decimal z.natAbs c (by rw [hct]; exact List.mem_cons_self)
      simp only [isDigit, Bool.and_eq_true, decide_eq_true_eq, UInt8.le_iff_toNat_le,
        UInt8.reduceToNat] at hc
      rw [hct, List.headD_cons]
      omega
  cases htype : typeOf (longText z) with
  | string => exact iff_of_false (fun h ↦ by cases h) (not_le.mpr (hhead.mp htype))
  | integer =>
    refine iff_of_true rfl (not_lt.mp fun hneg ↦ ?_)
    rw [hhead.mpr hneg] at htype
    cases htype

/-! ## Segments as a path -/

/-- The path with these segments. -/
def joined (pieces : List Text) : Text := pieces.flatMap (47 :: ·)

theorem joined_eq_intercalate (s : Text) (pieces : List Text) :
    s ++ joined pieces = [47].intercalate (s :: pieces) := by
  induction pieces generalizing s with
  | nil => simp [joined]
  | cons t pieces ih =>
    rw [List.intercalate_cons_cons, ← ih t, joined, List.flatMap_cons, ← joined]
    simp

/-- The segments of a path are what it was made from. -/
theorem segments_joined {pieces : List Text} (h : ∀ s ∈ pieces, s ≠ [] ∧ 47 ∉ s) :
    segments (joined pieces) = pieces := by
  have hpath := joined_eq_intercalate [] pieces
  rw [List.nil_append] at hpath
  rw [segments, hpath, ← tokens_eq_splitOn, tokens_intercalate, List.flatMap_cons,
    ← tokens_intercalate, tokens_intercalate_of_notMem (fun s hs ↦ (h s hs).2)
    fun s hs ↦ (h s hs).1]
  rfl

/-- The segments of a path are not empty and have no slash in them. -/
theorem of_mem_segments {path s : Text} (h : s ∈ segments path) : s ≠ [] ∧ 47 ∉ s := by
  rw [segments, ← tokens_eq_splitOn] at h
  refine (tokenPeeler 47).forall_mem_all (Q := fun t ↦ t ≠ [] ∧ 47 ∉ t) (fun hpeel ↦ ?_) path s h
  simp only [tokenPeeler] at hpeel
  split at hpeel
  · cases hpeel
  · rename_i hsome
    cases hpeel
    obtain ⟨-, -, hne, hsep, -⟩ := strtok_eq_some hsome
    exact ⟨hne, hsep⟩

theorem zero_notMem_joined {pieces : List Text} (h : ∀ s ∈ pieces, 0 ∉ s) : 0 ∉ joined pieces := by
  rw [joined, List.mem_flatMap]
  rintro ⟨s, hs, hzero⟩
  rcases List.mem_cons.mp hzero with heq | hzero
  · exact absurd heq (by decide)
  · exact h s hs hzero

/-! ## What the two functions do -/

/-- The list a path with these segments goes to. -/
def uriOf (pieces : List Text) : Uri :=
  match typeOf (pieces.headD []) with
  | .string => { type := .string, asString := pieces }
  | .integer => { type := .integer, asInteger := pieces.map strtol }

theorem foldl_push (tokens : List Text) (uri : Uri) : tokens.foldl Uri.push uri =
    match uri.type with
    | .string => { uri with asString := uri.asString ++ tokens }
    | .integer => { uri with asInteger := uri.asInteger ++ tokens.map strtol } := by
  induction tokens generalizing uri with
  | nil =>
    obtain ⟨type, asString, asInteger⟩ := uri
    cases type <;> simp
  | cons token tokens ih =>
    rw [List.foldl_cons, ih, Uri.type_push]
    obtain ⟨type, asString, asInteger⟩ := uri
    cases type <;> simp [Uri.push]

/-- A path that is short enough and has a segment is accepted. -/
theorem UriPath.ofPath_eq {path : Text} (ec : Option ErrorCode)
    (hlength : (cstr path).length < uriPathMaxLength) (hne : segments (cstr path) ≠ []) :
    UriPath.ofPath path ec = ({ path := cstr path, uri := uriOf (segments (cstr path)) }, ec) := by
  obtain ⟨token, rest, hsegments⟩ := List.exists_cons_of_ne_nil hne
  have htokens : tokens 47 (cstr path) = token :: rest := by
    rw [tokens_eq_splitOn, ← hsegments, segments]
  rw [ofPath, pathToUri, if_neg (not_le.mpr hlength), cstr_cstr, htokens, hsegments]
  simp only [foldl_push, uriOf, List.headD_cons, if_true]
  cases typeOf token <;> rfl

theorem UriPath.ofUri_path (uri : Uri) : (UriPath.ofUri uri).path =
    match uri.type with
    | .string => joined uri.asString
    | .integer => joined (uri.asInteger.map longText) := by
  have hfoldl {α : Type} (f : α → Text) (l : List α) (path : Text) :
      l.foldl (fun path a ↦ path ++ [47] ++ f a) path = path ++ joined (l.map f) := by
    induction l generalizing path with
    | nil => simp [joined]
    | cons a l ih =>
      rw [List.foldl_cons, ih, List.map_cons, joined, joined, List.flatMap_cons]
      simp
  rw [ofUri, uriToPath]
  cases uri.type with
  | string => simpa using hfoldl id uri.asString []
  | integer => simpa using hfoldl longText uri.asInteger []

/-! ## What is lost -/

theorem map_eq_self_iff {α : Type} {f : α → α} {l : List α} :
    l.map f = l ↔ ∀ a ∈ l, f a = a := by
  have h := List.map_inj_left (f := f) (g := id) (l := l)
  rwa [List.map_id] at h

/-- A path comes back with the segments it had. -/
def PathSurvives (path : Text) : Prop :=
  (cstr path).length < uriPathMaxLength → segments (cstr path) ≠ [] →
    ∀ ec : Option ErrorCode, (UriPath.ofPath path ec).2 = ec ∧
      (UriPath.ofUri (UriPath.ofPath path ec).1.uri).path = joined (segments (cstr path))

/-- The list for the type of a `Uri` is one that a path may have: it is not empty, texts are not
empty and have neither a slash nor a NUL in them, and numbers are what a `long` may be. -/
structure Uri.Proper (uri : Uri) : Prop where
  /-- The list of texts. -/
  strings : uri.type = .string →
    uri.asString ≠ [] ∧ ∀ s ∈ uri.asString, s ≠ [] ∧ 47 ∉ s ∧ 0 ∉ s
  /-- The list of numbers. -/
  integers : uri.type = .integer → uri.asInteger ≠ [] ∧ ∀ z ∈ uri.asInteger, IsLong z

/-- A `Uri` comes back with the type and the list it had. -/
def UriSurvives (uri : Uri) : Prop :=
  uri.Proper → (UriPath.ofUri uri).path.length < uriPathMaxLength →
    ∀ ec : Option ErrorCode, (UriPath.ofPath (UriPath.ofUri uri).path ec).2 = ec ∧
      (UriPath.ofPath (UriPath.ofUri uri).path ec).1.uri.type = uri.type ∧
      (uri.type = .string →
        (UriPath.ofPath (UriPath.ofUri uri).path ec).1.uri.asString = uri.asString) ∧
      (uri.type = .integer →
        (UriPath.ofPath (UriPath.ofUri uri).path ec).1.uri.asInteger = uri.asInteger)

theorem pathSurvives_iff (path : Text) :
    PathSurvives path ↔
      ((cstr path).length < uriPathMaxLength → segments (cstr path) ≠ [] →
        (((segments (cstr path)).headD []).headD 0).toNat / 16 ≠ 3 ∨
          ∀ s ∈ segments (cstr path), ∃ z, IsLong z ∧ s = longText z) := by
  refine forall_congr' fun hlength ↦ forall_congr' fun hne ↦ ?_
  rw [← typeOf_eq_string_iff]
  simp only [UriPath.ofPath_eq _ hlength hne, UriPath.ofUri_path, true_and, forall_const]
  rw [uriOf]
  cases typeOf ((segments (cstr path)).headD []) with
  | string => exact iff_of_true rfl (.inl rfl)
  | integer =>
    have hpieces : ∀ s ∈ ((segments (cstr path)).map strtol).map longText, s ≠ [] ∧ 47 ∉ s := by
      intro s hs
      obtain ⟨z, -, rfl⟩ := List.mem_map.mp hs
      exact ⟨longText_ne_nil z, notMem_longText (by decide) (by decide) z⟩
    constructor
    · intro hjoined
      refine .inr fun s hs ↦ longText_strtol_iff.mp ?_
      have hmap := congrArg segments hjoined
      rw [segments_joined hpieces, segments_joined fun s hs ↦ of_mem_segments hs,
        List.map_map] at hmap
      exact map_eq_self_iff.mp hmap s hs
    · rintro (h | hall)
      · cases h
      · rw [List.map_map]
        exact congrArg joined
          (map_eq_self_iff.mpr fun s hs ↦ longText_strtol_iff.mpr (hall s hs))

theorem uriSurvives_iff (uri : Uri) :
    UriSurvives uri ↔
      (uri.Proper → (UriPath.ofUri uri).path.length < uriPathMaxLength →
        (uri.type = .string → ((uri.asString.headD []).headD 0).toNat / 16 ≠ 3) ∧
          (uri.type = .integer → 0 ≤ uri.asInteger.headD 0)) := by
  refine forall_congr' fun hproper ↦ forall_congr' fun hlength ↦ ?_
  rw [← typeOf_eq_string_iff]
  obtain ⟨type, asString, asInteger⟩ := uri
  have hpath := UriPath.ofUri_path ⟨type, asString, asInteger⟩
  cases type with
  | string =>
    obtain ⟨hne, hall⟩ := hproper.strings rfl
    simp only at hpath hne hall
    have hcstr := cstr_of_notMem (zero_notMem_joined fun s hs ↦ (hall s hs).2.2)
    have hsegments := segments_joined fun s hs ↦ ⟨(hall s hs).1, (hall s hs).2.1⟩
    rw [hpath] at hlength ⊢
    rw [← hcstr] at hlength
    rw [← hsegments, ← hcstr] at hne
    simp only [UriPath.ofPath_eq _ hlength hne, hcstr, hsegments, uriOf, true_and,
      reduceCtorEq, false_implies, and_true, forall_const]
    cases typeOf (asString.headD []) <;> simp
  | integer =>
    obtain ⟨hne, hall⟩ := hproper.integers rfl
    have hmem : ∀ s ∈ asInteger.map longText, s ≠ [] ∧ 47 ∉ s ∧ 0 ∉ s := by
      intro s hs
      obtain ⟨z, -, rfl⟩ := List.mem_map.mp hs
      exact ⟨longText_ne_nil z, notMem_longText (by decide) (by decide) z,
        notMem_longText (by decide) (by decide) z⟩
    have hcstr := cstr_of_notMem (zero_notMem_joined fun s hs ↦ (hmem s hs).2.2)
    have hsegments := segments_joined fun s hs ↦ ⟨(hmem s hs).1, (hmem s hs).2.1⟩
    have hnumbers : (asInteger.map longText).map strtol = asInteger := by
      rw [List.map_map]
      exact map_eq_self_iff.mpr fun z hz ↦ strtol_longText (hall z hz)
    have hhead : typeOf ((asInteger.map longText).headD []) = .integer ↔
        0 ≤ asInteger.headD 0 := by
      obtain ⟨z, rest, rfl⟩ := List.exists_cons_of_ne_nil hne
      exact typeOf_longText z
    have hmapne : asInteger.map longText ≠ [] := by simpa using hne
    simp only at hpath
    rw [hpath] at hlength ⊢
    rw [← hcstr] at hlength
    rw [← hsegments, ← hcstr] at hmapne
    simp only [UriPath.ofPath_eq _ hlength hmapne, hcstr, hsegments, uriOf, true_and, reduceCtorEq,
      false_implies, forall_const, ← hhead]
    cases typeOf ((asInteger.map longText).headD []) <;> simp [hnumbers]

/-- **When `path_to_uri` and `uri_to_path` are inverse.**  A path whose first segment starts with
none of the characters from `0` to `?` survives, and so does one whose segments all are numbers as
they are written.  A list of texts survives under the same condition on its first one, and a list of
numbers if the first one is not negative. -/
theorem uri_inverse_iff (path : Text) (uri : Uri) :
    (PathSurvives path ↔
      ((cstr path).length < uriPathMaxLength → segments (cstr path) ≠ [] →
        (((segments (cstr path)).headD []).headD 0).toNat / 16 ≠ 3 ∨
          ∀ s ∈ segments (cstr path), ∃ z, IsLong z ∧ s = longText z)) ∧
    (UriSurvives uri ↔
      (uri.Proper → (UriPath.ofUri uri).path.length < uriPathMaxLength →
        (uri.type = .string → ((uri.asString.headD []).headD 0).toNat / 16 ≠ 3) ∧
          (uri.type = .integer → 0 ≤ uri.asInteger.headD 0))) :=
  ⟨pathSurvives_iff path, uriSurvives_iff uri⟩

/-- `/1a/b` comes back as `/1/0`, and the list of the number -5 as the list of the text `-5`. -/
theorem not_uri_inverse :
    ¬ PathSurvives [47, 49, 97, 47, 98] ∧
      ¬ UriSurvives { type := .integer, asInteger := [-5] } := by
  constructor
  · intro h
    exact absurd (h (by decide) (by decide) none).2 (by decide +kernel)
  · intro h
    have hproper : Uri.Proper { type := .integer, asInteger := [-5] } :=
      ⟨nofun, fun _ ↦ ⟨List.cons_ne_nil _ _, by simp [IsLong]⟩⟩
    exact absurd (h hproper (by decide +kernel) none).2.1 (by decide +kernel)

end Coap
