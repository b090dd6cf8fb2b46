import CoapCpp.CString
import CoapCpp.Message

/-!
# What a URI says about its endpoint

`uri2connection_type` and `uri2hostname` of `src/utils.cc`, which take the transport, the host name
and the port from a URI, and `create_client_connection`, which relies on the first of them.

Both look for their separators with `strstr` and `find`.  The first one does not care where in the
URI it finds a scheme (`decidesTransport_iff`), and the second one takes the `npos` of a port that
is not there for a position (`splitsSafely_iff`).
-/

set_option autoImplicit false

namespace Coap

open CString Memory

/-! ## The code -/

/-- `ConnectionType` -/
inductive ConnectionType where
  /-- `TCP` -/
  | tcp
  /-- `UDP` -/
  | udp
  /-- `TLS` -/
  | tls
  /-- `DTLS` -/
  | dtls
deriving DecidableEq, Repr

/-- `strstr`: the text from the first occurrence of `pat` on. -/
def strstr (s pat : Text) : Option Text := (cut pat s).map fun r ↦ pat ++ r.2

/-- The conversion of a `size_t` to an `int`. -/
def toInt (n : ℕ) : ℤ := Int.bmod n (2 ^ 32)

/-- `titles`, with the `ConnectionType` their index is cast to: `coap+tcp://`, `coap://`,
`coaps+tcp://` and `coaps://`. -/
def titles : List (Text × ConnectionType) :=
  [([99, 111, 97, 112, 43, 116, 99, 112, 58, 47, 47], .tcp),
    ([99, 111, 97, 112, 58, 47, 47], .udp),
    ([99, 111, 97, 112, 115, 43, 116, 99, 112, 58, 47, 47], .tls),
    ([99, 111, 97, 112, 115, 58, 47, 47], .dtls)]

/-- The loop of `uri2connection_type`. -/
def findTitle (uri : Text) : List (Text × ConnectionType) → Option ConnectionType
  | [] => none
  | (title, type) :: rest => if (strstr uri title).isSome then some type else findTitle uri rest

/-- `uri2connection_type`; a `uri` of `none` is `NULL`. -/
def uri2connectionType (uri : Option Text) (type : ConnectionType) : ConnectionType × Bool :=
  match uri with
  | none => (type, false)
  | some uri =>
    let length := toInt (cstr uri).length
    if length ≤ 0 then (type, false)
    else
      match findTitle (cstr uri) titles with
      | some type => (type, true)
      | none => (type, false)

/-- `create_client_connection`: the type of the connection that is opened, and `ec`.  The variable
`type` is not initialised. -/
def createClientConnection (uri : Option Text) (type : ConnectionType) (ec : Option ErrorCode) :
    Option ConnectionType × Option ErrorCode :=
  let (type, ok) := uri2connectionType uri type
  if !ok then (none, some (.system .einval))
  else
    match type with
    | .udp => (some .udp, ec)
    | .dtls => (some .dtls, ec)
    | .tcp | .tls => (none, some (.coap .notImplemented))

/-- `begin4`, which is `://`. -/
@[simp] abbrev begin4 : Text := [58, 47, 47]

/-- `begin6`, which is `[`. -/
@[simp] abbrev begin6 : Text := [91]

/-- `end4`, which is `:`. -/
@[simp] abbrev end4 : Text := [58]

/-- `end6`, which is `]:`. -/
@[simp] abbrev end6 : Text := [93, 58]

/-- `n + position` for what `find` has returned and an `n` that is not 0; `npos` wraps around. -/
def offsetBehind (n : ℕ) : Option ℕ → ℕ
  | some position => n + position
  | none => n - 1

/-- `s.resize(position)` for what `find` has returned.  No text has a length of `npos`: it throws,
which is an access out of bounds here. -/
def resizeTo (s : Text) : Option ℕ → Except Fault Text
  | some position => .ok (s.take position)
  | none => .error (.outOfBounds (2 ^ 64 - 1))

/-- `uri2hostname`: the host name, the port and the result. -/
def uri2hostname (A : Atoi) (uri : Option Text) (hostname : Text) (port : ℤ) (uri4 : Bool) :
    Except Fault (Text × ℤ × Bool) := do
  match uri with
  | none => return (hostname, port, false)
  | some uri =>
    let length := toInt (cstr uri).length
    if length ≤ 0 then
      return (hostname, port, false)
    match strstr (cstr uri) (if uri4 then begin4 else begin6) with
    | none => return (hostname, port, false)
    | some start =>
      if uri4 ∧ start.getD begin4.length 0 = begin6.headD 0 then
        return (hostname, port, false)
      let hostname := start.drop (if uri4 then begin4.length else begin6.length)
      let position := find hostname (if uri4 then end4 else end6) 0
      if position ≠ some 0 then
        let offset := offsetBehind (if uri4 then end4.length else end6.length) position
        let number ← substrTo hostname offset none
        let port := A.fn (cstr number)
        let hostname ← resizeTo hostname position
        return (hostname, port, true)
      return (hostname, port, false)

/-! ## The transport -/

namespace ConnectionType

/-- The value of a `ConnectionType`. -/
def value : ConnectionType → ℕ
  | tcp => 0
  | udp => 1
  | tls => 2
  | dtls => 3

/-- The scheme that stands for a transport. -/
def scheme : ConnectionType → Text
  | tcp => [99, 111, 97, 112, 43, 116, 99, 112, 58, 47, 47]
  | udp => [99, 111, 97, 112, 58, 47, 47]
  | tls => [99, 111, 97, 112, 115, 43, 116, 99, 112, 58, 47, 47]
  | dtls => [99, 111, 97, 112, 115, 58, 47, 47]

/-- A text begins with at most one scheme. -/
theorem eq_of_scheme_prefix {s : Text} {t t' : ConnectionType} (h : t.scheme <+: s)
    (h' : t'.scheme <+: s) : t = t' := by
  have hall : ∀ {t t' : ConnectionType}, t.scheme <+: t'.scheme → t = t' := by
    intro t t' hprefix
    rw [← List.isPrefixOf_iff_prefix] at hprefix
    cases t <;> cases t' <;> first | rfl | exact absurd hprefix (by decide)
  rcases List.prefix_or_prefix_of_prefix h h' with hle | hle
  · exact hall hle
  · exact (hall hle).symm

end ConnectionType

open ConnectionType

theorem isSome_strstr_iff {s : Text} {p : UInt8} {pat : Text} :
    (strstr s (p :: pat)).isSome = true ↔ (p :: pat) <:+: s := by
  rw [strstr, Option.isSome_map, Option.isSome_iff_ne_none, Ne, cut_eq_none_iff, not_not]

/-- What the loop finds is in the table and in the URI, and so is nothing with a smaller value. -/
theorem findTitle_eq_some {uri : Text} {table : List (Text × ConnectionType)} {t : ConnectionType}
    (htable : table.Pairwise fun p q ↦ p.2.value < q.2.value) (h : findTitle uri table = some t) :
    (∃ title, (title, t) ∈ table ∧ (strstr uri title).isSome = true) ∧
      ∀ p ∈ table, (strstr uri p.1).isSome = true → t.value ≤ p.2.value := by
  induction table with
  | nil => cases h
  | cons p table ih =>
    obtain ⟨hfirst, hrest⟩ := List.pairwise_cons.mp htable
    rw [findTitle] at h
    by_cases hfound : (strstr uri p.1).isSome = true
    · rw [if_pos hfound] at h
      cases h
      refine ⟨⟨p.1, List.mem_cons_self, hfound⟩, fun q hq _ ↦ ?_⟩
      rcases List.mem_cons.mp hq with rfl | hq
      · exact Nat.le_refl _
      · exact (hfirst q hq).le
    · rw [if_neg hfound] at h
      obtain ⟨⟨title, hmem, hin⟩, hleast⟩ := ih hrest h
      refine ⟨⟨title, List.mem_cons_of_mem _ hmem, hin⟩, fun q hq hq' ↦ ?_⟩
      rcases List.mem_cons.mp hq with rfl | hq
      · exact absurd hq' hfound
      · exact hleast q hq hq'

theorem findTitle_eq_none {uri : Text} {table : List (Text × ConnectionType)}
    (h : findTitle uri table = none) : ∀ p ∈ table, ¬ (strstr uri p.1).isSome = true := by
  induction table with
  | nil => exact fun p hp ↦ absurd hp List.not_mem_nil
  | cons p table ih =>
    rw [findTitle] at h
    split at h
    · cases h
    · rename_i hfound
      intro q hq
      rcases List.mem_cons.mp hq with rfl | hq
      · exact hfound
      · exact ih h q hq

/-- The table has the scheme of each transport, in the order of their values. -/
theorem mem_titles_iff {title : Text} {t : ConnectionType} :
    (title, t) ∈ titles ↔ title = t.scheme := by
  cases t <;> simp [titles, scheme]

theorem pairwise_titles : titles.Pairwise fun p q ↦ p.2.value < q.2.value := by decide

theorem isSome_strstr_scheme {s : Text} {t : ConnectionType} :
    (strstr s t.scheme).isSome = true ↔ t.scheme <:+: s := by
  cases t <;> exact isSome_strstr_iff

/-- What `uri2connection_type` finds is the first scheme of the table that is anywhere in the
URI. -/
theorem findTitle_titles {uri : Text} {t : ConnectionType} (h : findTitle uri titles = some t) :
    t.scheme <:+: uri ∧ ∀ t' : ConnectionType, t'.scheme <:+: uri → t.value ≤ t'.value := by
  obtain ⟨⟨title, hmem, hin⟩, hleast⟩ := findTitle_eq_some pairwise_titles h
  obtain rfl := mem_titles_iff.mp hmem
  exact ⟨isSome_strstr_scheme.mp hin, fun t' ht' ↦
    hleast (t'.scheme, t') (mem_titles_iff.mpr rfl) (isSome_strstr_scheme.mpr ht')⟩

theorem findTitle_titles_none {uri : Text} (h : findTitle uri titles = none)
    (t : ConnectionType) : ¬ t.scheme <:+: uri := fun ht ↦
  findTitle_eq_none h (t.scheme, t) (mem_titles_iff.mpr rfl) (isSome_strstr_scheme.mpr ht)

/-- The scheme of a URI decides how it is connected to. -/
structure DecidesTransport (uri : Text) : Prop where
  /-- `uri2connection_type` accepts what begins with a scheme. -/
  accepts : ∀ type, (uri2connectionType (some uri) type).2 = true ↔
    ∃ t : ConnectionType, t.scheme <+: cstr uri
  /-- It returns the transport of the scheme. -/
  transport : ∀ (type t : ConnectionType), t.scheme <+: cstr uri →
    uri2connectionType (some uri) type = (t, true)
  /-- A URI that begins with `coaps://` is never connected to without DTLS. -/
  secure : dtls.scheme <+: cstr uri → ∀ type ec t,
    (createClientConnection (some uri) type ec).1 = some t → t = dtls

/-- **When the scheme decides the transport.**  The length of the URI must not turn negative, and a
scheme that is anywhere in the URI must not come before the one it begins with in the table. -/
theorem decidesTransport_iff (uri : Text) :
    DecidesTransport uri ↔
      ((∃ t : ConnectionType, t.scheme <+: cstr uri) → 0 < toInt (cstr uri).length) ∧
      (0 < toInt (cstr uri).length → ∀ t : ConnectionType, t.scheme <:+: cstr uri →
        ∃ t' : ConnectionType, t'.scheme <+: cstr uri ∧ t'.value ≤ t.value) := by
  by_cases hlength : toInt (cstr uri).length ≤ 0
  · have hret (type : ConnectionType) : uri2connectionType (some uri) type = (type, false) := by
      simp only [uri2connectionType, if_pos hlength]
    constructor
    · intro hdecides
      refine ⟨fun hbegins ↦ ?_, fun hpos ↦ absurd hlength (not_le.mpr hpos)⟩
      have haccept := (hdecides.accepts tcp).mpr hbegins
      rw [hret] at haccept
      cases haccept
    · rintro ⟨hbegins, -⟩
      have hnone (t : ConnectionType) : ¬ t.scheme <+: cstr uri :=
        fun ht ↦ absurd hlength (not_le.mpr (hbegins ⟨t, ht⟩))
      refine ⟨fun type ↦ ?_, fun type t ht ↦ absurd ht (hnone t),
        fun ht ↦ absurd ht (hnone dtls)⟩
      rw [hret]
      exact iff_of_false Bool.false_ne_true fun ⟨t, ht⟩ ↦ hnone t ht
  have hpos : 0 < toInt (cstr uri).length := not_le.mp hlength
  cases hfind : findTitle (cstr uri) titles with
  | none =>
    have hret (type : ConnectionType) : uri2connectionType (some uri) type = (type, false) := by
      simp only [uri2connectionType, if_neg hlength, hfind]
    have hnone (t : ConnectionType) : ¬ t.scheme <+: cstr uri :=
      fun ht ↦ findTitle_titles_none hfind t ht.isInfix
    refine iff_of_true ⟨fun type ↦ ?_, fun type t ht ↦ absurd ht (hnone t),
      fun ht ↦ absurd ht (hnone dtls)⟩ ⟨fun _ ↦ hpos, fun _ t ht ↦ ?_⟩
    · rw [hret]
      exact iff_of_false Bool.false_ne_true fun ⟨t, ht⟩ ↦ hnone t ht
    · exact absurd ht (findTitle_titles_none hfind t)
  | some first =>
    obtain ⟨hfirst, hleast⟩ := findTitle_titles hfind
    have hret (type : ConnectionType) : uri2connectionType (some uri) type = (first, true) := by
      simp only [uri2connectionType, if_neg hlength, hfind]
    constructor
    · intro hdecides
      refine ⟨fun _ ↦ hpos, fun _ t ht ↦ ?_⟩
      obtain ⟨t', ht'⟩ := (hdecides.accepts tcp).mp (by rw [hret])
      have htype := hdecides.transport tcp t' ht'
      rw [hret, Prod.mk.injEq] at htype
      obtain ⟨rfl, -⟩ := htype
      exact ⟨first, ht', hleast t ht⟩
    · rintro ⟨-, hearlier⟩
      obtain ⟨t', ht', hle⟩ := hearlier hpos first hfirst
      have hsame : t'.value = first.value := le_antisymm hle (hleast t' ht'.isInfix)
      obtain rfl : t' = first := by
        cases t' <;> cases first <;> first | rfl | exact absurd hsame (by decide)
      refine ⟨fun type ↦ ?_, fun type t ht ↦ ?_, fun ht type ec t hopen ↦ ?_⟩
      · rw [hret]
        exact iff_of_true rfl ⟨t', ht'⟩
      · rw [hret, eq_of_scheme_prefix ht ht']
      · obtain rfl := eq_of_scheme_prefix ht ht'
        rw [createClientConnection, hret] at hopen
        cases hopen
        rfl

/-- `coaps://a/coap://b` is connected to without DTLS. -/
theorem not_decidesTransport : ¬ DecidesTransport
    [99, 111, 97, 112, 115, 58, 47, 47, 97, 47, 99, 111, 97, 112, 58, 47, 47, 98] := by
  intro h
  exact absurd (h.secure (by decide) tcp none udp (by decide)) (by decide)

/-! ## The host name and the port -/

/-- The text a host name may stand in: what follows `://` and does not begin with `[`, or what
follows the first `[`. -/
def hostText (uri4 : Bool) (uri : Text) : Option Text :=
  if uri4 then ((cut begin4 uri).map Prod.snd).filter fun s ↦ s.headD 0 ≠ 91
  else (cut begin6 uri).map Prod.snd

/-- What ends a host name. -/
def terminator (uri4 : Bool) : Text := if uri4 then end4 else end6

/-- The URI has this host name, which is not empty, and this text where its port should be. -/
def HasPort (uri4 : Bool) (uri host number : Text) : Prop :=
  ∃ text, hostText uri4 uri = some text ∧ cut (terminator uri4) text = some (host, number) ∧
    host ≠ []

theorem hostText_suffix {uri4 : Bool} {uri text : Text} (h : hostText uri4 uri = some text) :
    text <:+ uri := by
  have hcut {pat : Text} (h : (cut pat uri).map Prod.snd = some text) : text <:+ uri := by
    obtain ⟨⟨a, b⟩, hr, rfl⟩ := Option.map_eq_some_iff.mp h
    rw [eq_of_cut hr, ← List.append_assoc]
    exact List.suffix_append _ _
  cases uri4 with
  | true => exact hcut (Option.filter_eq_some_iff.mp h).1
  | false => exact hcut h

theorem uri2hostname_eq (A : Atoi) {uri : Text} (hostname : Text) (port : ℤ) (uri4 : Bool)
    (hlength : 0 < toInt (cstr uri).length) :
    uri2hostname A (some uri) hostname port uri4 =
      match hostText uri4 (cstr uri) with
      | none => .ok (hostname, port, false)
      | some text =>
        if find text (terminator uri4) 0 ≠ some 0 then do
          let number ← substrTo text
            (offsetBehind (terminator uri4).length (find text (terminator uri4) 0)) none
          let hostname ← resizeTo text (find text (terminator uri4) 0)
          return (hostname, A.fn (cstr number), true)
        else .ok (text, port, false) := by
  rw [uri2hostname]
  simp only [if_neg (not_le.mpr hlength)]
  cases uri4 with
  | false =>
    cases hcut : cut begin6 (cstr uri) with
    | none => simp [hostText, strstr, hcut]
    | some r => simp [hostText, strstr, hcut, terminator]
  | true =>
    cases hcut : cut begin4 (cstr uri) with
    | none => simp [hostText, strstr, hcut]
    | some r =>
      obtain ⟨before, text⟩ := r
      cases text with
      | nil => simp [hostText, strstr, hcut, Option.filter, terminator]
      | cons c text =>
        by_cases hbracket : c = 91
        · simp [hostText, strstr, hcut, hbracket, Option.filter]
        · simp [hostText, strstr, hcut, hbracket, Option.filter, terminator]

/-- A terminator that is found gives a host name and a port. -/
theorem uri2hostname_of_cut (A : Atoi) {uri text host number : Text} (hostname : Text) (port : ℤ)
    {uri4 : Bool} (hlength : 0 < toInt (cstr uri).length)
    (htext : hostText uri4 (cstr uri) = some text)
    (hcut : cut (terminator uri4) text = some (host, number)) :
    uri2hostname A (some uri) hostname port uri4 =
      .ok (if host = [] then (text, port, false) else (host, A.fn number, true)) := by
  have heq := eq_of_cut hcut
  have hfind : find text (terminator uri4) 0 = some host.length := by
    rw [find_zero, hcut, Option.map_some]
  have hnumber : cstr number = number := by
    refine cstr_of_notMem fun hzero ↦ zero_notMem_cstr uri ((hostText_suffix htext).subset ?_)
    rw [heq]
    exact List.mem_append_right _ (List.mem_append_right _ hzero)
  have hsubstr : substrTo text ((terminator uri4).length + host.length) none = .ok number := by
    rw [Nat.add_comm, ← List.length_append, heq, ← List.append_assoc]
    exact substrTo_none _ _
  rw [uri2hostname_eq A hostname port uri4 hlength, htext]
  simp only [hfind, offsetBehind, hsubstr, resizeTo, ok_bind, hnumber]
  by_cases hhost : host = []
  · rw [if_pos hhost, if_neg (by simp [hhost])]
  · rw [if_neg hhost, if_pos (by simpa using hhost), heq, List.take_left' rfl]
    rfl

/-- A terminator that is not found makes `uri2hostname` throw. -/
theorem uri2hostname_of_npos (A : Atoi) {uri text : Text} (hostname : Text) (port : ℤ)
    {uri4 : Bool} (hlength : 0 < toInt (cstr uri).length)
    (htext : hostText uri4 (cstr uri) = some text) (hcut : cut (terminator uri4) text = none) :
    ∃ e, uri2hostname A (some uri) hostname port uri4 = .error e := by
  have hfind : find text (terminator uri4) 0 = none := by
    rw [find_zero, hcut, Option.map_none]
  rw [uri2hostname_eq A hostname port uri4 hlength, htext]
  simp only [hfind, offsetBehind, resizeTo, error_bind]
  cases substrTo text ((terminator uri4).length - 1) none with
  | error e => exact ⟨e, rfl⟩
  | ok number => exact ⟨_, rfl⟩

/-- `uri2hostname` takes a URI apart without throwing. -/
structure SplitsSafely (A : Atoi) (uri : Text) (uri4 : Bool) : Prop where
  /-- It returns. -/
  returns : ∀ hostname port, ∃ r, uri2hostname A (some uri) hostname port uri4 = .ok r
  /-- It returns true if there is a host name with a port. -/
  accepts : ∀ hostname port r, uri2hostname A (some uri) hostname port uri4 = .ok r →
    (r.2.2 = true ↔ ∃ host number, HasPort uri4 (cstr uri) host number)
  /-- It returns this host name and the number of the port. -/
  parts : ∀ hostname port r, uri2hostname A (some uri) hostname port uri4 = .ok r →
    ∀ host number, HasPort uri4 (cstr uri) host number →
      r.1 = host ∧ r.2.1 = leadingInteger number
  /-- The port keeps its value if it returns false. -/
  unchanged : ∀ hostname port r, uri2hostname A (some uri) hostname port uri4 = .ok r →
    r.2.2 = false → r.2.1 = port

theorem atoi_eq_iff (A : Atoi) (s : Text) :
    A.fn s = leadingInteger s ↔ FitsInt (leadingInteger s) :=
  ⟨fun h ↦ h ▸ A.range s, fun h ↦ A.spec s h.1 h.2⟩

/-- A call that returns false and changes nothing is right if there is no host name with a port. -/
theorem splitsSafely_of_refuses {A : Atoi} {uri : Text} {uri4 : Bool}
    (hret : ∀ hostname port,
      uri2hostname A (some uri) hostname port uri4 = .ok (hostname, port, false)) :
    SplitsSafely A uri uri4 ↔ ∀ host number, ¬ HasPort uri4 (cstr uri) host number := by
  constructor
  · intro hsafe host number hport
    have haccept := (hsafe.accepts [] 0 _ (hret [] 0)).mpr ⟨host, number, hport⟩
    cases haccept
  · intro hnone
    refine ⟨fun hostname port ↦ ⟨_, hret hostname port⟩, fun hostname port r hr ↦ ?_,
      fun hostname port r hr host number hport ↦ absurd hport (hnone host number),
      fun hostname port r hr _ ↦ ?_⟩
    all_goals
      rw [hret, Except.ok.injEq] at hr
      subst hr
    · exact iff_of_false Bool.false_ne_true fun ⟨host, number, hport⟩ ↦ hnone host number hport
    · rfl

/-- A call that finds the terminator is right if it is right about the number. -/
theorem splitsSafely_of_cut {A : Atoi} {uri text host number : Text} {uri4 : Bool}
    (hlength : 0 < toInt (cstr uri).length) (htext : hostText uri4 (cstr uri) = some text)
    (hcut : cut (terminator uri4) text = some (host, number)) :
    SplitsSafely A uri uri4 ↔ (host ≠ [] → FitsInt (leadingInteger number)) := by
  have hret (hostname : Text) (port : ℤ) :=
    uri2hostname_of_cut A hostname port hlength htext hcut
  have hport {host' number' : Text} (h : HasPort uri4 (cstr uri) host' number') :
      host' = host ∧ number' = number ∧ host ≠ [] := by
    obtain ⟨text', htext', hcut', hne⟩ := h
    rw [htext, Option.some.injEq] at htext'
    subst htext'
    rw [hcut, Option.some.injEq, Prod.mk.injEq] at hcut'
    obtain ⟨rfl, rfl⟩ := hcut'
    exact ⟨rfl, rfl, hne⟩
  constructor
  · intro hsafe hne
    have hparts := (hsafe.parts [] 0 _ (hret [] 0) host number ⟨text, htext, hcut, hne⟩).2
    rw [if_neg hne] at hparts
    exact (atoi_eq_iff A number).mp hparts
  · intro hfits
    refine ⟨fun hostname port ↦ ⟨_, hret hostname port⟩, fun hostname port r hr ↦ ?_,
      fun hostname port r hr host' number' h ↦ ?_, fun hostname port r hr hfalse ↦ ?_⟩
    all_goals
      rw [hret, Except.ok.injEq] at hr
      subst hr
    · by_cases hne : host = []
      · rw [if_pos hne]
        exact iff_of_false Bool.false_ne_true fun ⟨_, _, h⟩ ↦ (hport h).2.2 hne
      · rw [if_neg hne]
        exact iff_of_true rfl ⟨host, number, text, htext, hcut, hne⟩
    · obtain ⟨rfl, rfl, hne⟩ := hport h
      rw [if_neg hne]
      exact ⟨rfl, (atoi_eq_iff A number').mpr (hfits hne)⟩
    · by_cases hne : host = []
      · rw [if_pos hne]
      · rw [if_neg hne] at hfalse
        cases hfalse

/-- **When `uri2hostname` takes a URI apart as it should.**  The length of the URI must not turn
negative, a terminator must follow where a host name may stand, and the number behind it must be an
`int`. -/
theorem splitsSafely_iff (A : Atoi) (uri : Text) (uri4 : Bool) :
    SplitsSafely A uri uri4 ↔
      (toInt (cstr uri).length ≤ 0 → ∀ host number, ¬ HasPort uri4 (cstr uri) host number) ∧
      (0 < toInt (cstr uri).length → ∀ text, hostText uri4 (cstr uri) = some text →
        ∃ host number, cut (terminator uri4) text = some (host, number) ∧
          (host ≠ [] → FitsInt (leadingInteger number))) := by
  by_cases hlength : toInt (cstr uri).length ≤ 0
  · have hret (hostname : Text) (port : ℤ) :
        uri2hostname A (some uri) hostname port uri4 = .ok (hostname, port, false) := by
      simp only [uri2hostname, if_pos hlength, pure_eq_ok]
    rw [splitsSafely_of_refuses hret]
    exact ⟨fun h ↦ ⟨fun _ ↦ h, fun hpos ↦ absurd hlength (not_le.mpr hpos)⟩, fun h ↦ h.1 hlength⟩
  have hpos : 0 < toInt (cstr uri).length := not_le.mp hlength
  cases htext : hostText uri4 (cstr uri) with
  | none =>
    have hret (hostname : Text) (port : ℤ) :
        uri2hostname A (some uri) hostname port uri4 = .ok (hostname, port, false) := by
      rw [uri2hostname_eq A hostname port uri4 hpos, htext]
    have hnone (host number : Text) : ¬ HasPort uri4 (cstr uri) host number := by
      rintro ⟨text, h, -⟩
      rw [htext] at h
      cases h
    exact iff_of_true ((splitsSafely_of_refuses hret).mpr hnone)
      ⟨fun hle ↦ absurd hle hlength, fun _ text h ↦ nomatch h⟩
  | some text =>
    cases hcut : cut (terminator uri4) text with
    | none =>
      refine iff_of_false (fun hsafe ↦ ?_) fun h ↦ ?_
      · obtain ⟨r, hr⟩ := hsafe.returns [] 0
        obtain ⟨e, he⟩ := uri2hostname_of_npos A [] 0 hpos htext hcut
        rw [hr] at he
        cases he
      · obtain ⟨host, number, h, -⟩ := h.2 hpos text rfl
        rw [hcut] at h
        cases h
    | some p =>
      obtain ⟨host, number⟩ := p
      rw [splitsSafely_of_cut hpos htext hcut]
      constructor
      · intro hfits
        refine ⟨fun hle ↦ absurd hle hlength, fun _ text' h ↦ ?_⟩
        cases h
        exact ⟨host, number, hcut, hfits⟩
      · rintro ⟨-, h⟩
        obtain ⟨host', number', hcut', hfits⟩ := h hpos text rfl
        rw [hcut, Option.some.injEq, Prod.mk.injEq] at hcut'
        obtain ⟨rfl, rfl⟩ := hcut'
        exact hfits

/-- `coap://localhost` makes it throw. -/
theorem not_splitsSafely : ¬ SplitsSafely Atoi.orZero
    [99, 111, 97, 112, 58, 47, 47, 108, 111, 99, 97, 108, 104, 111, 115, 116] true := by
  intro h
  obtain ⟨r, hr⟩ := h.returns [] 0
  obtain ⟨e, he⟩ := @uri2hostname_of_npos Atoi.orZero
    [99, 111, 97, 112, 58, 47, 47, 108, 111, 99, 97, 108, 104, 111, 115, 116]
    [108, 111, 99, 97, 108, 104, 111, 115, 116] [] 0 true (by decide) (by decide) (by decide)
  rw [hr] at he
  cases he

end Coap
