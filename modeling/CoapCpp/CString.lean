import CoapCpp.Memory
import CoapCpp.Peel
import Mathlib.Algebra.Order.BigOperators.Group.List
import Mathlib.Algebra.Order.Group.Nat
import Mathlib.Data.List.TakeWhile

/-!
# Text functions of the C and C++ libraries

A text is the list of its bytes.  This file has the functions a hand-written parser is made of:
`find` and `substr` of `std::string`, `strtok`, `atoi` and `strtol`, and `std::to_string`.

* `find` and `substrTo` work with positions, like the originals.  `find_eq_cut` and
  `substrTo_append` are about a text of which a prefix has been dealt with, which is the only
  situation a parser that goes from left to right is in: a search cuts the rest in two.
* `tokens` is what a loop over `strtok` sees, and `tokens_eq_splitOn` says what that is: the
  non-empty pieces between the separators.
* `leadingInteger_decimal`: a number that was written is read back.
-/

set_option autoImplicit false

namespace CString

open Memory

/-- The bytes of a text. -/
abbrev Text := List UInt8

/-- What a function that is given a `const char *` sees of a text: it ends at the first NUL. -/
def cstr (s : Text) : Text := s.takeWhile (· ≠ 0)

theorem zero_notMem_cstr (s : Text) : 0 ∉ cstr s := by
  intro h
  have := List.mem_takeWhile_imp h
  simp at this

theorem cstr_of_notMem {s : Text} (h : 0 ∉ s) : cstr s = s := by
  refine List.takeWhile_eq_self_iff.mpr fun b hb ↦ ?_
  simpa using fun h0 : b = 0 ↦ h (h0 ▸ hb)

@[simp] theorem cstr_cstr (s : Text) : cstr (cstr s) = cstr s := cstr_of_notMem (zero_notMem_cstr s)

theorem cstr_append {s : Text} (h : 0 ∉ s) (t : Text) : cstr (s ++ t) = s ++ cstr t :=
  List.takeWhile_append_of_pos fun b hb ↦ by simpa using fun h0 : b = 0 ↦ h (h0 ▸ hb)

theorem cstr_append_zero {s : Text} (h : 0 ∉ s) (t : Text) : cstr (s ++ 0 :: t) = s := by
  rw [cstr_append h]
  simp [cstr]

/-! ## Positions -/

/-- Search for `pat` in a text that starts at index `i`. -/
def findFrom (pat : Text) : ℕ → Text → Option ℕ
  | _, [] => none
  | i, c :: s => if pat.isPrefixOf (c :: s) then some i else findFrom pat (i + 1) s

/-- `s.find(pat, pos)` for a pattern that is not empty; `none` is `npos`. -/
def find (s pat : Text) (pos : ℕ) : Option ℕ := findFrom pat pos (s.drop pos)

/-- `s.substr(pos, stop - pos)`.  A start behind the end of the text throws, which is an access out
of bounds here.  A length that wraps around, as for `npos`, is larger than that of any text. -/
def substrTo (s : Text) (pos : ℕ) (stop : Option ℕ) : Except Fault Text :=
  if s.length < pos then .error (.outOfBounds pos)
  else
    match stop with
    | none => .ok (s.drop pos)
    | some e => if pos ≤ e then .ok ((s.drop pos).take (e - pos)) else .ok (s.drop pos)

/-- The text in front of the first occurrence of `pat`, and the text behind it. -/
def cut (pat : Text) : Text → Option (Text × Text)
  | [] => none
  | c :: s =>
    if pat.isPrefixOf (c :: s) then some ([], (c :: s).drop pat.length)
    else (cut pat s).map fun r ↦ (c :: r.1, r.2)

theorem findFrom_eq_cut (pat : Text) (i : ℕ) (s : Text) :
    findFrom pat i s = (cut pat s).map fun r ↦ i + r.1.length := by
  induction s generalizing i with
  | nil => rfl
  | cons c s ih =>
    rw [findFrom, cut]
    split
    · rfl
    · rw [ih, Option.map_map]
      congr 1
      funext r
      rw [Function.comp, List.length_cons]
      omega

/-- **A search behind a prefix** returns where the text behind the prefix is cut. -/
theorem find_eq_cut (pre s pat : Text) :
    find (pre ++ s) pat pre.length = (cut pat s).map fun r ↦ pre.length + r.1.length := by
  rw [find, List.drop_left' rfl, findFrom_eq_cut]

theorem find_zero (s pat : Text) : find s pat 0 = (cut pat s).map fun r ↦ r.1.length := by
  have h := find_eq_cut [] s pat
  simp only [List.length_nil, Nat.zero_add] at h
  exact h

theorem eq_of_cut {pat s a b : Text} (h : cut pat s = some (a, b)) : s = a ++ (pat ++ b) := by
  induction s generalizing a b with
  | nil => cases h
  | cons c s ih =>
    rw [cut] at h
    split at h
    · rename_i hprefix
      obtain ⟨t, ht⟩ := List.isPrefixOf_iff_prefix.mp hprefix
      cases h
      rw [← ht, List.drop_left' rfl, List.nil_append]
    · obtain ⟨⟨a', b'⟩, hr, heq⟩ := Option.map_eq_some_iff.mp h
      cases heq
      rw [ih hr]
      rfl

theorem isPrefixOf_singleton {c b : UInt8} {s : Text} : [c].isPrefixOf (b :: s) = (c == b) := by
  simp [List.isPrefixOf_cons_cons]

theorem notMem_of_cut {c : UInt8} {s a b : Text} (h : cut [c] s = some (a, b)) : c ∉ a := by
  induction s generalizing a b with
  | nil => cases h
  | cons d s ih =>
    rw [cut, isPrefixOf_singleton] at h
    split at h
    · cases h
      exact List.not_mem_nil
    · rename_i hne
      obtain ⟨⟨a', b'⟩, hr, heq⟩ := Option.map_eq_some_iff.mp h
      cases heq
      rw [List.mem_cons, not_or]
      exact ⟨by simpa using hne, ih hr⟩

theorem cut_append {c : UInt8} {a : Text} (h : c ∉ a) (b : Text) :
    cut [c] (a ++ c :: b) = some (a, b) := by
  induction a with
  | nil => simp [cut]
  | cons d a ih =>
    rw [List.mem_cons, not_or] at h
    rw [List.cons_append, cut, isPrefixOf_singleton, if_neg (by simpa using h.1), ih h.2]
    rfl

/-- A text is not cut if the pattern is not in it. -/
theorem cut_eq_none_iff {p : UInt8} {pat s : Text} :
    cut (p :: pat) s = none ↔ ¬ (p :: pat) <:+: s := by
  induction s with
  | nil => simp [cut]
  | cons c s ih =>
    rw [cut, List.infix_cons_iff, ← List.isPrefixOf_iff_prefix]
    split
    · rename_i hstarts
      simp [hstarts]
    · rename_i hstarts
      rw [Option.map_eq_none_iff, ih]
      simp [hstarts]

theorem cut_of_notMem {p : UInt8} {pat s : Text} (h : p ∉ s) : cut (p :: pat) s = none :=
  cut_eq_none_iff.mpr fun hin ↦ h (hin.subset List.mem_cons_self)

theorem isPrefixOf_append_cons {c : UInt8} {pat : Text} (h : c ∉ pat) (s t : Text) :
    pat.isPrefixOf (s ++ c :: t) = pat.isPrefixOf s := by
  induction pat generalizing s with
  | nil => rw [List.isPrefixOf_nil_left, List.isPrefixOf_nil_left]
  | cons p pat ih =>
    rw [List.mem_cons, not_or] at h
    cases s with
    | nil =>
      have hne : (p == c) = false := by simpa using Ne.symm h.1
      rw [List.nil_append, List.isPrefixOf_cons_cons, hne]
      rfl
    | cons d s =>
      rw [List.cons_append, List.isPrefixOf_cons_cons, List.isPrefixOf_cons_cons, ih h.2]

/-- A character that is not in the pattern keeps the two sides of it apart. -/
theorem cut_append_cons {c p : UInt8} {pat : Text} (h : c ∉ p :: pat) (s t : Text) :
    cut (p :: pat) (s ++ c :: t) =
      match cut (p :: pat) s with
      | some (a, b) => some (a, b ++ c :: t)
      | none => (cut (p :: pat) t).map fun r ↦ (s ++ c :: r.1, r.2) := by
  induction s with
  | nil =>
    have hprefix := isPrefixOf_append_cons h [] t
    rw [List.nil_append] at hprefix
    simp only [List.nil_append, cut, hprefix]
    rfl
  | cons d s ih =>
    rw [List.cons_append, cut, cut, ← List.cons_append, isPrefixOf_append_cons h, ih]
    by_cases hprefix : (p :: pat).isPrefixOf (d :: s)
    · rw [if_pos hprefix, if_pos hprefix]
      have hlength := (List.isPrefixOf_iff_prefix.mp hprefix).length_le
      simp only [List.drop_append_of_le_length hlength]
    · rw [if_neg hprefix, if_neg hprefix]
      cases cut (p :: pat) s with
      | some r => rfl
      | none =>
        simp only [Option.map_none, Option.map_map]
        rfl

/-- A pattern does not start in a text that lacks its first character. -/
theorem cut_append_of_notMem {p : UInt8} {pat a : Text} (h : p ∉ a) (s : Text) :
    cut (p :: pat) (a ++ s) = (cut (p :: pat) s).map fun r ↦ (a ++ r.1, r.2) := by
  induction a with
  | nil => simp
  | cons d a ih =>
    rw [List.mem_cons, not_or] at h
    have hne : (p == d) = false := by simpa using h.1
    rw [List.cons_append, cut, List.isPrefixOf_cons_cons, hne, Bool.false_and,
      if_neg Bool.false_ne_true, ih h.2, Option.map_map]
    rfl

theorem cut_singleton_eq_none {c : UInt8} {s : Text} (h : cut [c] s = none) : c ∉ s := by
  intro hmem
  obtain ⟨a, b, rfl⟩ := List.append_of_mem hmem
  exact cut_eq_none_iff.mp h ⟨a, b, by simp⟩

/-- What is behind each `sep`. -/
def behindEach (sep : UInt8) : Text → List Text
  | [] => []
  | c :: s => if c = sep then s :: behindEach sep s else behindEach sep s

theorem behindEach_of_notMem {sep : UInt8} {s : Text} (h : sep ∉ s) : behindEach sep s = [] := by
  induction s with
  | nil => rfl
  | cons c s ih =>
    rw [List.mem_cons, not_or] at h
    rw [behindEach, if_neg (Ne.symm h.1), ih h.2]

theorem behindEach_append {sep : UInt8} {a : Text} (h : sep ∉ a) (b : Text) :
    behindEach sep (a ++ b) = behindEach sep b := by
  induction a with
  | nil => rfl
  | cons c a ih =>
    rw [List.mem_cons, not_or] at h
    rw [List.cons_append, behindEach, if_neg (Ne.symm h.1), ih h.2]

theorem behindEach_cons_self (sep : UInt8) (b : Text) :
    behindEach sep (sep :: b) = b :: behindEach sep b := by
  rw [behindEach, if_pos rfl]

theorem length_behindEach (sep : UInt8) (s : Text) : (behindEach sep s).length = s.count sep := by
  induction s with
  | nil => rfl
  | cons c s ih =>
    rw [behindEach, List.count_cons]
    by_cases h : c = sep
    · rw [if_pos h, List.length_cons, ih, if_pos (by simpa using h)]
    · rw [if_neg h, ih, if_neg (by simpa using h), Nat.add_zero]

theorem substrTo_append (pre s : Text) (n : ℕ) :
    substrTo (pre ++ s) pre.length (some (pre.length + n)) = .ok (s.take n) := by
  rw [substrTo, if_neg (by rw [List.length_append]; omega)]
  simp

theorem substrTo_none (pre s : Text) : substrTo (pre ++ s) pre.length none = .ok s := by
  rw [substrTo, if_neg (by rw [List.length_append]; omega)]
  simp

/-- A stretch that ends before it starts is all that is behind the prefix. -/
theorem substrTo_of_lt (pre s : Text) {e : ℕ} (h : e < pre.length) :
    substrTo (pre ++ s) pre.length (some e) = .ok s := by
  rw [substrTo, if_neg (by rw [List.length_append]; omega)]
  simp [show ¬ pre.length ≤ e by omega]

theorem takeWhile_of_notMem {sep : UInt8} {s : Text} (h : sep ∉ s) : s.takeWhile (· ≠ sep) = s :=
  List.takeWhile_eq_self_iff.mpr fun c hc ↦ by simpa using fun heq : c = sep ↦ h (heq ▸ hc)

theorem takeWhile_append_cons {sep : UInt8} {a : Text} (h : sep ∉ a) (b : Text) :
    (a ++ sep :: b).takeWhile (· ≠ sep) = a := by
  rw [List.takeWhile_append_of_pos fun c hc ↦ by simpa using fun heq : c = sep ↦ h (heq ▸ hc)]
  simp

/-- **A stretch up to the next separator**, or to the end of the text, if the search for it skips
`k` characters. -/
theorem substrTo_find (pre s : Text) (sep : UInt8) (k : ℕ) :
    substrTo (pre ++ s) pre.length (find (pre ++ s) [sep] (pre.length + k)) =
      .ok (s.take k ++ (s.drop k).takeWhile (· ≠ sep)) := by
  by_cases hk : k ≤ s.length
  swap
  · have hbehind : find (pre ++ s) [sep] (pre.length + k) = none := by
      rw [find, List.drop_eq_nil_of_le (by rw [List.length_append]; omega)]
      rfl
    rw [hbehind, substrTo_none, List.take_of_length_le (by omega),
      List.drop_eq_nil_of_le (by omega)]
    simp
  have hfind := find_eq_cut (pre ++ s.take k) (s.drop k) [sep]
  rw [List.append_assoc, List.take_append_drop, List.length_append, List.length_take,
    Nat.min_eq_left hk] at hfind
  rw [hfind]
  cases hcut : cut [sep] (s.drop k) with
  | none =>
    rw [takeWhile_of_notMem (cut_singleton_eq_none hcut), List.take_append_drop]
    exact substrTo_none pre s
  | some r =>
    obtain ⟨a, b⟩ := r
    have hdrop := eq_of_cut hcut
    rw [Option.map_some, Nat.add_assoc, substrTo_append, List.take_add, hdrop,
      List.take_left' rfl]
    exact congrArg (fun t ↦ Except.ok (s.take k ++ t))
      (takeWhile_append_cons (notMem_of_cut hcut) b).symm

/-! ## Tokens -/

/-- `strtok` on what the calls before have left: the token, and what is left behind it. -/
def strtok (sep : UInt8) (s : Text) : Option (Text × Text) :=
  match s.dropWhile (· = sep) with
  | [] => none
  | c :: t => some ((c :: t).takeWhile (· ≠ sep), ((c :: t).dropWhile (· ≠ sep)).tail)

/-- No token is left if only separators are. -/
theorem strtok_eq_none {sep : UInt8} {s : Text} (h : strtok sep s = none) : ∀ c ∈ s, c = sep := by
  rw [strtok] at h
  split at h
  · rename_i hnil
    simpa using hnil
  · cases h

/-- The token is not empty, there are only separators in front of it, and either nothing or a
separator behind it. -/
theorem strtok_eq_some {sep : UInt8} {s token rest : Text} (h : strtok sep s = some (token, rest)) :
    ∃ lead, (∀ c ∈ lead, c = sep) ∧ token ≠ [] ∧ sep ∉ token ∧
      (s = lead ++ token ∧ rest = [] ∨ s = lead ++ (token ++ sep :: rest)) := by
  rw [strtok] at h
  split at h
  · cases h
  rename_i c t hct
  have hlead := List.takeWhile_append_dropWhile (p := fun b ↦ decide (b = sep)) (l := s)
  have htoken := List.takeWhile_append_dropWhile (p := fun b ↦ decide (b ≠ sep)) (l := c :: t)
  have hc : c ≠ sep := by
    have hhead := List.head?_dropWhile_not (fun b ↦ decide (b = sep)) s
    rw [hct] at hhead
    simpa using hhead
  cases h
  refine ⟨s.takeWhile (· = sep), fun b hb ↦ by simpa using List.mem_takeWhile_imp hb, ?_, ?_, ?_⟩
  · rw [List.takeWhile_cons, if_pos (by simpa using hc)]
    exact List.cons_ne_nil _ _
  · intro hmem
    have := List.mem_takeWhile_imp hmem
    simp at this
  · rw [hct] at hlead
    cases hrest : (c :: t).dropWhile (· ≠ sep) with
    | nil =>
      rw [hrest, List.append_nil] at htoken
      exact .inl ⟨by rw [htoken]; exact hlead.symm, rfl⟩
    | cons b rest =>
      have hb : b = sep := by
        have hhead := List.head?_dropWhile_not (fun b ↦ decide (b ≠ sep)) (c :: t)
        rw [hrest] at hhead
        simpa using hhead
      rw [hrest, hb] at htoken
      exact .inr (by rw [List.tail_cons, htoken]; exact hlead.symm)

/-- One call of `strtok`. -/
def tokenPeeler (sep : UInt8) : Peeler UInt8 Text Unit where
  peel s :=
    match strtok sep s with
    | none => .stop ()
    | some (token, rest) => .item token rest
  shrinks := by
    intro s token rest h
    split at h
    · cases h
    rename_i token' rest' hsome
    cases h
    obtain ⟨lead, -, hne, -, ⟨rfl, rfl⟩ | rfl⟩ := strtok_eq_some hsome
    · have := List.length_pos_iff.mpr hne
      simp only [List.length_append, List.length_nil]
      omega
    · simp only [List.length_append, List.length_cons]
      omega

/-- The tokens a loop over `strtok` sees. -/
def tokens (sep : UInt8) (s : Text) : List Text := ((tokenPeeler sep).all s).1

theorem filter_splitOn_cons (sep : UInt8) (s : Text) :
    ((sep :: s).splitOn sep).filter (· ≠ []) = (s.splitOn sep).filter (· ≠ []) := by
  rw [← List.nil_append (sep :: s), List.splitOn_append_cons_self]
  simp

theorem filter_splitOn_append {sep : UInt8} {lead : Text} (h : ∀ c ∈ lead, c = sep) (s : Text) :
    ((lead ++ s).splitOn sep).filter (· ≠ []) = (s.splitOn sep).filter (· ≠ []) := by
  induction lead with
  | nil => rfl
  | cons c lead ih =>
    obtain rfl := h c List.mem_cons_self
    rw [List.cons_append, filter_splitOn_cons, ih fun b hb ↦ h b (List.mem_cons_of_mem _ hb)]

/-- **A loop over `strtok` sees the non-empty pieces between the separators.** -/
theorem tokens_eq_splitOn (sep : UInt8) (s : Text) :
    tokens sep s = (s.splitOn sep).filter (· ≠ []) := by
  rw [tokens]
  induction s using (tokenPeeler sep).induct with
  | stop s e hp =>
    rw [Peeler.all_stop hp]
    have hnone : strtok sep s = none := by
      cases hs : strtok sep s with
      | none => rfl
      | some r => simp [tokenPeeler, hs] at hp
    have hfilter := filter_splitOn_append (strtok_eq_none hnone) []
    rw [List.append_nil] at hfilter
    rw [hfilter]
    simp
  | item s token rest hp ih =>
    rw [Peeler.all_item hp, ih]
    have hsome : strtok sep s = some (token, rest) := by
      cases hs : strtok sep s with
      | none => simp [tokenPeeler, hs] at hp
      | some r => simpa [tokenPeeler, hs, Prod.ext_iff] using hp
    obtain ⟨lead, hlead, hne, hsep, ⟨rfl, rfl⟩ | rfl⟩ := strtok_eq_some hsome
    · rw [filter_splitOn_append hlead, List.splitOn_eq_singleton hsep]
      simp [hne]
    · rw [filter_splitOn_append hlead, List.splitOn_append_cons_self_of_not_mem hsep]
      simp [hne]

theorem tokens_append_sep (sep : UInt8) (s t : Text) :
    tokens sep (s ++ sep :: t) = tokens sep s ++ tokens sep t := by
  rw [tokens_eq_splitOn, tokens_eq_splitOn, tokens_eq_splitOn, List.splitOn_append_cons_self,
    List.filter_append]

theorem tokens_of_notMem {sep : UInt8} {s : Text} (h : sep ∉ s) (hne : s ≠ []) :
    tokens sep s = [s] := by
  rw [tokens_eq_splitOn, List.splitOn_eq_singleton h]
  simp [hne]

/-- A text that was joined from pieces falls apart into their tokens. -/
theorem tokens_intercalate (sep : UInt8) (pieces : List Text) :
    tokens sep ([sep].intercalate pieces) = pieces.flatMap (tokens sep) := by
  induction pieces with
  | nil => simp [tokens_eq_splitOn]
  | cons s pieces ih =>
    cases pieces with
    | nil => simp
    | cons t pieces =>
      rw [List.intercalate_cons_cons, List.append_assoc, List.singleton_append,
        tokens_append_sep, ih]
      rfl

theorem notMem_intercalate {c sep : UInt8} (hne : c ≠ sep) {pieces : List Text}
    (h : ∀ s ∈ pieces, c ∉ s) : c ∉ [sep].intercalate pieces := by
  induction pieces with
  | nil => simp
  | cons s pieces ih =>
    have hs := h s List.mem_cons_self
    cases pieces with
    | nil => simpa using hs
    | cons t pieces =>
      have hrest := ih fun u hu ↦ h u (List.mem_cons_of_mem _ hu)
      rw [List.intercalate_cons_cons]
      simp only [List.mem_append, List.mem_singleton, not_or]
      exact ⟨⟨hs, hne⟩, hrest⟩

theorem tokens_intercalate_of_notMem {sep : UInt8} {pieces : List Text}
    (h : ∀ s ∈ pieces, sep ∉ s) (hne : ∀ s ∈ pieces, s ≠ []) :
    tokens sep ([sep].intercalate pieces) = pieces := by
  rw [tokens_intercalate]
  induction pieces with
  | nil => rfl
  | cons s pieces ih =>
    rw [List.flatMap_cons, tokens_of_notMem (h s List.mem_cons_self) (hne s List.mem_cons_self),
      ih (fun t ht ↦ h t (List.mem_cons_of_mem _ ht))
        fun t ht ↦ hne t (List.mem_cons_of_mem _ ht)]
    rfl

theorem length_tokens_pos {sep c : UInt8} {s : Text} (h : c ∈ s) (hne : c ≠ sep) :
    0 < (tokens sep s).length := by
  rw [List.length_pos_iff]
  intro hnil
  rw [tokens] at hnil
  cases hs : strtok sep s with
  | none => exact hne (strtok_eq_none hs c h)
  | some r =>
    have hpeel : (tokenPeeler sep).peel s = .item r.1 r.2 := by simp [tokenPeeler, hs]
    rw [Peeler.all_item hpeel] at hnil
    cases hnil

/-- A separator in one of the pieces gives more tokens than pieces. -/
theorem length_lt_tokens_intercalate {sep : UInt8} {pieces : List Text}
    (h : ∀ s ∈ pieces, ∃ c ∈ s, c ≠ sep) {a b : Text} (hmem : a ++ sep :: b ∈ pieces)
    (ha : ∃ c ∈ a, c ≠ sep) (hb : ∃ c ∈ b, c ≠ sep) :
    pieces.length < (tokens sep ([sep].intercalate pieces)).length := by
  have hone : ∀ s ∈ pieces, 1 ≤ (tokens sep s).length := by
    intro s hs
    obtain ⟨c, hc, hne⟩ := h s hs
    exact length_tokens_pos hc hne
  have htwo : 1 < (tokens sep (a ++ sep :: b)).length := by
    obtain ⟨c, hc, hcne⟩ := ha
    obtain ⟨d, hd, hdne⟩ := hb
    have hfirst := length_tokens_pos hc hcne
    have hsecond := length_tokens_pos hd hdne
    rw [tokens_append_sep, List.length_append]
    omega
  rw [tokens_intercalate, List.length_flatMap]
  calc pieces.length = (pieces.map fun _ ↦ 1).sum := by simp
    _ < (pieces.map fun s ↦ (tokens sep s).length).sum :=
      List.sum_lt_sum _ _ hone ⟨_, hmem, htwo⟩

/-! ## Numbers -/

/-- `isspace` in the C locale. -/
def isSpace (b : UInt8) : Bool := b == 32 || (9 ≤ b && b ≤ 13)

/-- `isdigit` -/
def isDigit (b : UInt8) : Bool := 48 ≤ b && b ≤ 57

/-- The value of a row of digits, behind digits of value `n`. -/
def digitsValue (s : Text) (n : ℕ) : ℕ := s.foldl (fun n b ↦ 10 * n + (b.toNat - 48)) n

/-- The integer a text starts with, behind white space and a sign; 0 if there is none. -/
def leadingInteger (s : Text) : ℤ :=
  match s.dropWhile isSpace with
  | [] => 0
  | c :: t =>
    if c = 45 then -(digitsValue (t.takeWhile isDigit) 0 : ℤ)
    else if c = 43 then digitsValue (t.takeWhile isDigit) 0
    else digitsValue ((c :: t).takeWhile isDigit) 0

/-- The number is an `int`. -/
def FitsInt (x : ℤ) : Prop := -2 ^ 31 ≤ x ∧ x < 2 ^ 31

instance (x : ℤ) : Decidable (FitsInt x) := inferInstanceAs (Decidable (_ ∧ _))

/-- What `atoi` may be: an `int` in any case, and the integer the text starts with if it fits. -/
structure Atoi where
  /-- The function. -/
  fn : Text → ℤ
  /-- It returns an `int`. -/
  range : ∀ s, -2 ^ 31 ≤ fn s ∧ fn s < 2 ^ 31
  /-- What fits is read as it is. -/
  spec : ∀ s, -2 ^ 31 ≤ leadingInteger s → leadingInteger s < 2 ^ 31 → fn s = leadingInteger s

/-- An `atoi` that returns 0 for what does not fit. -/
def Atoi.orZero : Atoi where
  fn s := if -2 ^ 31 ≤ leadingInteger s ∧ leadingInteger s < 2 ^ 31 then leadingInteger s else 0
  range s := by
    split
    · assumption
    · decide
  spec s hle hlt := if_pos ⟨hle, hlt⟩

/-- `std::to_string` -/
def decimal (n : ℕ) : Text := (Nat.toDigits 10 n).map fun c ↦ UInt8.ofNat c.toNat

theorem isDigit_decimal (n : ℕ) : ∀ b ∈ decimal n, isDigit b = true := by
  intro b hb
  obtain ⟨c, hc, rfl⟩ := List.mem_map.mp hb
  have hdigit := Nat.isDigit_of_mem_toDigits (by decide) (by decide) hc
  rw [Char.isDigit_iff_toNat, show '0'.toNat = 48 from rfl, show '9'.toNat = 57 from rfl] at hdigit
  simp only [isDigit, Bool.and_eq_true, decide_eq_true_eq, UInt8.le_iff_toNat_le,
    UInt8.toNat_ofNat', UInt8.reduceToNat]
  omega

theorem decimal_ne_nil (n : ℕ) : decimal n ≠ [] := by
  simp [decimal, Nat.toDigits_ne_nil]

theorem digitsValue_map {cs : List Char} (h : ∀ c ∈ cs, c.isDigit) (n : ℕ) :
    digitsValue (cs.map fun c ↦ UInt8.ofNat c.toNat) n = Nat.ofDigitChars 10 cs n := by
  induction cs generalizing n with
  | nil => rfl
  | cons c cs ih =>
    have hc := h c List.mem_cons_self
    rw [Char.isDigit_iff_toNat, show '0'.toNat = 48 from rfl, show '9'.toNat = 57 from rfl] at hc
    have hbyte : (UInt8.ofNat c.toNat).toNat = c.toNat := by
      rw [UInt8.toNat_ofNat']
      omega
    rw [Nat.ofDigitChars_cons, ← ih fun d hd ↦ h d (List.mem_cons_of_mem _ hd), digitsValue,
      List.map_cons, List.foldl_cons, hbyte]
    rfl

theorem digitsValue_decimal (n : ℕ) : digitsValue (decimal n) 0 = n := by
  rw [decimal, digitsValue_map fun c hc ↦ Nat.isDigit_of_mem_toDigits (by decide) (by decide) hc,
    Nat.ofDigitChars_ten_toDigits]

theorem leadingInteger_of_isDigit {s : Text} (h : ∀ b ∈ s, isDigit b = true) :
    leadingInteger s = digitsValue s 0 := by
  cases s with
  | nil => rfl
  | cons c t =>
    have hc := h c List.mem_cons_self
    simp only [isDigit, Bool.and_eq_true, decide_eq_true_eq, UInt8.le_iff_toNat_le] at hc
    have hspace : isSpace c = false := by
      simp only [isSpace, Bool.or_eq_false_iff, Bool.and_eq_false_iff, beq_eq_false_iff_ne,
        decide_eq_false_iff_not, UInt8.le_iff_toNat_le, Ne, ← UInt8.toNat_inj]
      simp only [UInt8.reduceToNat] at hc ⊢
      omega
    have hminus : c ≠ 45 := by rintro rfl; simp at hc
    have hplus : c ≠ 43 := by rintro rfl; simp at hc
    rw [leadingInteger, List.dropWhile_cons, if_neg (by rw [hspace]; exact Bool.false_ne_true)]
    simp only [if_neg hminus, if_neg hplus]
    rw [List.takeWhile_eq_self_iff.mpr h]

/-- **A number that was written is read back.** -/
theorem leadingInteger_decimal (n : ℕ) : leadingInteger (decimal n) = n := by
  rw [leadingInteger_of_isDigit (isDigit_decimal n), digitsValue_decimal]

end CString
