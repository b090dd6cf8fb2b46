import CoapCpp.CString
import CoapCpp.Message

/-!
# URI paths

`Uri` and `UriPath`, as `src/uri.cc` has them, as far as constructing a `UriPath` from a text goes.

`path_to_uri` splits the path with `strtok`, and stores the segments as texts or as numbers: the
first character of the first segment decides for all of them.  `segments` says what a path means,
and `ofPath_spec` which of the two lists they end up in.
-/

set_option autoImplicit false

namespace Coap

open CString

/-- `URI_PATH_MAX_LENGTH` -/
@[simp] abbrev uriPathMaxLength : ℕ := 256

/-- `UriType` -/
inductive UriType where
  /-- `URI_TYPE_INTEGER` -/
  | integer
  /-- `URI_TYPE_STRING` -/
  | string
deriving DecidableEq, Repr

/-- `Uri` -/
structure Uri where
  /-- `m_type` -/
  type : UriType := .integer
  /-- `m_asString` -/
  asString : List Text := []
  /-- `m_asInteger` -/
  asInteger : List ℤ := []
deriving DecidableEq

/-- `UriPath` -/
structure UriPath where
  /-- `m_path` -/
  path : Text := []
  /-- `m_uri` -/
  uri : Uri := {}
deriving DecidableEq

/-- `strtol`, whose result is a `long` of 64 bits. -/
def strtol (s : Text) : ℤ := max (-2 ^ 63) (min (2 ^ 63 - 1) (leadingInteger s))

/-- What the loop of `path_to_uri` does with one token. -/
def Uri.push (uri : Uri) (token : Text) : Uri :=
  match uri.type with
  | .string => { uri with asString := uri.asString ++ [token] }
  | .integer => { uri with asInteger := uri.asInteger ++ [strtol token] }

/-- The type `path_to_uri` gives a path whose first token is `token`. -/
def typeOf (token : Text) : UriType :=
  if token.headD 0 &&& 0xF0 ^^^ 0x30 = 0 then .integer else .string

/-- `path_to_uri` -/
def UriPath.pathToUri (p : UriPath) : UriPath × Bool :=
  if p.path.length ≥ uriPathMaxLength then (p, false)
  else
    match tokens 47 (cstr p.path) with
    | [] => (p, false)
    | token :: rest =>
      ({ p with uri := (token :: rest).foldl Uri.push { p.uri with type := typeOf token } }, true)

/-- The constructor of `UriPath` from a `const char *`. -/
def UriPath.ofPath (path : Text) (ec : Option ErrorCode) : UriPath × Option ErrorCode :=
  let (p, ok) := UriPath.pathToUri { path := cstr path }
  if ok then (p, ec) else (p, some (.coap .uriPath))

/-! ## The segments of a path -/

/-- The non-empty segments of a path, between the slashes. -/
def segments (path : Text) : List Text := (path.splitOn 47).filter (· ≠ [])

@[simp] theorem Uri.type_push (uri : Uri) (token : Text) : (uri.push token).type = uri.type := by
  rw [push]
  split <;> rfl

theorem asString_foldl_push (tokens : List Text) (uri : Uri) :
    (tokens.foldl Uri.push uri).asString =
      uri.asString ++ if uri.type = .string then tokens else [] := by
  induction tokens generalizing uri with
  | nil => simp
  | cons token tokens ih =>
    rw [List.foldl_cons, ih, Uri.type_push]
    cases htype : uri.type with
    | string => simp [Uri.push, htype]
    | integer => simp [Uri.push, htype]

/-- The texts a path that was accepted is split into: its segments, unless the first of them starts
like a number. -/
def storedSegments (path : Text) : List Text :=
  if typeOf ((segments path).headD []) = .string then segments path else []

/-- The type of a path depends on the upper half of its first byte. -/
theorem typeOf_eq_string_iff (token : Text) :
    typeOf token = .string ↔ (token.headD 0).toNat / 16 ≠ 3 := by
  have hbyte : ∀ c : UInt8, (c &&& 0xF0 ^^^ 0x30 = 0) ↔ c.toNat / 16 = 3 := by
    intro c
    have hall : ∀ n < 256, (UInt8.ofNat n &&& 0xF0 ^^^ 0x30 = 0) ↔ n / 16 = 3 := by
      decide +kernel
    have hc := hall c.toNat c.toNat_lt
    rwa [UInt8.ofNat_toNat] at hc
  by_cases h : token.headD 0 &&& 0xF0 ^^^ 0x30 = 0
  · rw [typeOf, if_pos h]
    exact iff_of_false nofun (not_not.mpr ((hbyte _).mp h))
  · rw [typeOf, if_neg h]
    exact iff_of_true rfl fun h' ↦ h ((hbyte _).mpr h')

/-- **What constructing a `UriPath` does.**  It succeeds exactly for a path of less than 256 bytes
with at least one segment. -/
theorem UriPath.ofPath_spec {path : Text} {ec : Option ErrorCode} {p : UriPath}
    (h : UriPath.ofPath path ec = (p, none)) :
    segments (cstr path) ≠ [] ∧ (cstr path).length < uriPathMaxLength ∧
      p.uri.asString = storedSegments (cstr path) := by
  have hcstr : cstr (cstr path) = cstr path := cstr_of_notMem (zero_notMem_cstr path)
  rw [ofPath, pathToUri] at h
  simp only [hcstr, tokens_eq_splitOn, ge_iff_le] at h
  by_cases hlen : uriPathMaxLength ≤ (cstr path).length
  · rw [if_pos hlen] at h
    cases h
  rw [if_neg hlen] at h
  rw [storedSegments, segments]
  cases hsegments : ((cstr path).splitOn 47).filter (· ≠ []) with
  | nil =>
    rw [hsegments] at h
    cases h
  | cons token rest =>
    rw [hsegments] at h
    simp only [if_true, Prod.mk.injEq] at h
    obtain ⟨rfl, -⟩ := h
    refine ⟨List.cons_ne_nil _ _, Nat.lt_of_not_le hlen, ?_⟩
    rw [asString_foldl_push, List.nil_append, List.headD_cons]

theorem length_le_of_mem_splitOn {sep : UInt8} {s piece : Text} (h : piece ∈ s.splitOn sep) :
    piece.length ≤ s.length := by
  induction s generalizing piece with
  | nil =>
    obtain rfl : piece = [] := by simpa using h
    exact Nat.le_refl _
  | cons c s ih =>
    rw [List.splitOn_cons_eq_if_modifyHead] at h
    split at h
    · rcases List.mem_cons.mp h with rfl | h
      · exact Nat.zero_le _
      · exact (ih h).trans (Nat.le_succ _)
    · obtain ⟨first, rest, hsplit⟩ := List.exists_cons_of_ne_nil (List.splitOn_ne_nil sep s)
      rw [hsplit] at h ih
      rcases List.mem_cons.mp h with rfl | h
      · exact Nat.succ_le_succ (ih List.mem_cons_self)
      · exact (ih (List.mem_cons_of_mem _ h)).trans (Nat.le_succ _)

/-- The segments of a path that was accepted are short enough for an option. -/
theorem length_lt_of_mem_segments {path s : Text} (hlen : path.length < uriPathMaxLength)
    (h : s ∈ segments path) : s.length < uriPathMaxLength :=
  (length_le_of_mem_splitOn (List.mem_of_mem_filter h)).trans_lt hlen

end Coap
