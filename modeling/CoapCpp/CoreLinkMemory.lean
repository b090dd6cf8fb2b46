import CoapCpp.CoreLink
import CoapCpp.Strtok

/-!
# The copy of a CoRE Link document

`parse_core_link` copies its argument to a block it has allocated, because `strtok` writes to what
it takes apart.  The block has as many bytes as the text, so there is no room for the NUL at which
`strtok` stops.

`parseTokensIn_spec` compares the loop over this block with the loop over the tokens.  With a NUL
behind the text they are the same.  Without it they are the same as long as the loop ends early, at
a record that is malformed, and otherwise the last call of `strtok` leaves the block.  So this is
when the parser stays inside its memory (`staysInside_iff`).
-/

set_option autoImplicit false

namespace Coap

open CString Memory

/-! ## The code -/

/-- The loop of `parse_core_link` over the tokens of its block, from `pos` on. -/
def parseTokensIn (A : Atoi) : ℕ → CoreLink → Text → ℕ → Option ErrorCode →
    Except Fault (CoreLink × Option ErrorCode)
  | 0, _, _, _, _ => .error .outOfFuel
  | fuel + 1, c, buffer, pos, ec => do
    match ← strtokAt recordSeparator buffer pos with
    | none => return (c, ec)
    | some (start, next, buffer) =>
      let record ← stringAt buffer start
      let (c, ec) ← parseRecord A c record
      if ec.isSome then
        return (c, ec)
      parseTokensIn A fuel c buffer next ec

/-- `parse_core_link`, with a block of `strlen(coreLink)` bytes. -/
def parseCoreLinkIn (A : Atoi) (c : CoreLink) (coreLink : Option Text) (ec : Option ErrorCode) :
    Except Fault (CoreLink × Option ErrorCode) :=
  match coreLink with
  | none => return (c, some (.system .efault))
  | some coreLink =>
    let buffer := cstr coreLink
    parseTokensIn A (buffer.length + 1) c buffer 0 ec

/-! ## Where the loop ends early -/

/-- One of the records with a separator behind them is malformed. -/
def Stops (s : Text) : Prop :=
  ∃ piece ∈ (s.splitOn recordSeparator).dropLast, piece ≠ [] ∧ ¬ Legible piece

theorem stops_of_notMem {s : Text} (h : recordSeparator ∉ s) : ¬ Stops s := by
  rw [Stops, List.splitOn_eq_singleton h]
  rintro ⟨piece, hpiece, -⟩
  exact List.not_mem_nil hpiece

theorem stops_append {lead : Text} (h : ∀ c ∈ lead, c = recordSeparator) (s : Text) :
    Stops (lead ++ s) ↔ Stops s := by
  induction lead with
  | nil => rfl
  | cons c lead ih =>
    obtain rfl := h c List.mem_cons_self
    have hne := List.splitOn_ne_nil recordSeparator (lead ++ s)
    rw [← ih fun b hb ↦ h b (List.mem_cons_of_mem _ hb), Stops, Stops, List.cons_append,
      ← List.nil_append (recordSeparator :: (lead ++ s)), List.splitOn_append_cons_self,
      List.dropLast_append_of_ne_nil hne]
    simp

theorem stops_item {token : Text} (hsep : recordSeparator ∉ token) (hne : token ≠ [])
    (rest : Text) : Stops (token ++ recordSeparator :: rest) ↔ ¬ Legible token ∨ Stops rest := by
  have hrest := List.splitOn_ne_nil recordSeparator rest
  rw [Stops, Stops, List.splitOn_append_cons_self_of_not_mem hsep,
    List.dropLast_cons_of_ne_nil hrest]
  simp [hne]

/-! ## The loop -/

theorem parseRecord_of_not_legible {A : Atoi} {c : CoreLink} {line : Text} (h : ¬ Legible line) :
    parseRecord A c line = .ok (c, some (.coap .parseCoreLink)) := by
  have hnone : readRecord A line = none := by
    rw [← Option.not_isSome_iff_eq_none, readRecord_isSome]
    exact h
  rw [parseRecord_eq, hnone]

theorem parseRecord_of_legible {A : Atoi} {c : CoreLink} {line : Text} (h : Legible line) :
    ∃ c', parseRecord A c line = .ok (c', none) := by
  obtain ⟨r, hr⟩ := Option.isSome_iff_exists.mp (readRecord_isSome (A := A).mpr h)
  exact ⟨_, by rw [parseRecord_eq, hr]⟩

/-- **The loop in memory**, on a text that stands behind a prefix: it is the loop over the tokens if
there is a NUL or if it ends early, and leaves the block otherwise. -/
theorem parseTokensIn_spec (A : Atoi) (terminated : Bool) {s : Text} (hzero : 0 ∉ s) {fuel : ℕ}
    (hfuel : s.length < fuel) (pre : Text) (c : CoreLink) (ec : Option ErrorCode) :
    (terminated = true ∨ Stops s →
      parseTokensIn A fuel c (pre ++ (s ++ tailOf terminated)) pre.length ec =
        parseTokens A (tokens recordSeparator s) c ec) ∧
    (terminated = false → ¬ Stops s →
      parseTokensIn A fuel c (pre ++ (s ++ tailOf terminated)) pre.length ec =
        .error (.outOfBounds (pre ++ s).length)) := by
  have hsep : recordSeparator ≠ 0 := by decide
  induction s using (tokenPeeler recordSeparator).induct generalizing fuel pre c ec with
  | stop s e hpeel =>
    obtain ⟨fuel, rfl⟩ := Nat.exists_eq_succ_of_ne_zero (Nat.ne_of_gt (Nat.zero_lt_of_lt hfuel))
    have hnone : strtok recordSeparator s = none := by
      cases hs : strtok recordSeparator s with
      | none => rfl
      | some r => simp [tokenPeeler, hs] at hpeel
    have hall := strtok_eq_none hnone
    have hstops : ¬ Stops s := by
      rw [← List.append_nil s, stops_append hall]
      exact stops_of_notMem List.not_mem_nil
    have htokens : tokens recordSeparator s = [] := by rw [tokens, Peeler.all_stop hpeel]
    rw [parseTokensIn, strtokAt_none hsep pre terminated hall, htokens]
    refine ⟨fun h ↦ ?_, fun h _ ↦ ?_⟩
    · rw [h.resolve_right hstops, if_pos rfl]
      rfl
    · rw [h, if_neg Bool.false_ne_true, error_bind]
  | item s token rest hpeel ih =>
    obtain ⟨fuel, rfl⟩ := Nat.exists_eq_succ_of_ne_zero (Nat.ne_of_gt (Nat.zero_lt_of_lt hfuel))
    have hsome : strtok recordSeparator s = some (token, rest) := by
      cases hs : strtok recordSeparator s with
      | none => simp [tokenPeeler, hs] at hpeel
      | some r => simpa [tokenPeeler, hs, Prod.ext_iff] using hpeel
    have htokens : tokens recordSeparator s = token :: tokens recordSeparator rest := by
      rw [tokens, Peeler.all_item hpeel, tokens]
    have hshort := (tokenPeeler recordSeparator).shrinks hpeel
    obtain ⟨lead, hlead, hne, htoken, ⟨rfl, rfl⟩ | rfl⟩ := strtok_eq_some hsome
    · -- the last token: behind it is the NUL, or nothing
      have hstops : ¬ Stops (lead ++ token) := by
        rw [stops_append hlead]
        exact stops_of_notMem htoken
      have hz : 0 ∉ token := fun h ↦ hzero (List.mem_append_right _ h)
      rw [List.append_assoc, parseTokensIn,
        strtokAt_last pre terminated hlead hne htoken hz, htokens]
      refine ⟨fun h ↦ ?_, fun h _ ↦ ?_⟩
      · obtain rfl := h.resolve_right hstops
        have hstring := stringAt_append (pre ++ lead) [] hz
        rw [List.append_assoc] at hstring
        rw [if_pos rfl, ok_bind]
        simp only [hstring, ok_bind]
        rw [parseTokens]
        by_cases hlegible : Legible token
        · obtain ⟨c', hc'⟩ := parseRecord_of_legible (A := A) (c := c) hlegible
          have hempty : ([] : Text).length < fuel := by omega
          have hrest := (ih List.not_mem_nil hempty (pre ++ lead ++ token) c' none).1 (.inl rfl)
          rw [List.nil_append, List.append_assoc, List.append_assoc] at hrest
          rw [hc', ok_bind, ok_bind]
          exact hrest
        · rw [parseRecord_of_not_legible hlegible, ok_bind, ok_bind]
          rfl
      · rw [h, if_neg Bool.false_ne_true, error_bind, List.append_assoc]
    · -- a token with a separator behind it, which becomes a NUL
      have hz : 0 ∉ token := fun h ↦
        hzero (List.mem_append_right _ (List.mem_append_left _ h))
      have hzrest : 0 ∉ rest := fun h ↦
        hzero (List.mem_append_right _ (List.mem_append_right _ (List.mem_cons_of_mem _ h)))
      have hbuf (d : UInt8) : pre ++ (lead ++ (token ++ d :: rest) ++ tailOf terminated) =
          pre ++ (lead ++ (token ++ d :: (rest ++ tailOf terminated))) := by simp
      have hstring := stringAt_append (pre ++ lead) (rest ++ tailOf terminated) hz
      rw [List.append_assoc] at hstring
      rw [hbuf, parseTokensIn,
        strtokAt_item hsep pre (rest ++ tailOf terminated) hlead hne htoken hz, ok_bind, htokens,
        parseTokens, stops_append hlead, stops_item htoken hne]
      simp only [hstring, ok_bind]
      by_cases hlegible : Legible token
      · obtain ⟨c', hc'⟩ := parseRecord_of_legible (A := A) (c := c) hlegible
        have hfits : rest.length < fuel := by omega
        have hrest := ih hzrest hfits (pre ++ lead ++ token ++ [0]) c' none
        have hnext : pre ++ lead ++ token ++ [0] ++ (rest ++ tailOf terminated) =
            pre ++ (lead ++ (token ++ 0 :: (rest ++ tailOf terminated))) := by simp
        have hend : (pre ++ lead ++ token ++ [0] ++ rest).length =
            (pre ++ (lead ++ (token ++ recordSeparator :: rest))).length := by simp
        rw [hnext, hend] at hrest
        simpa [hc', hlegible] using hrest
      · rw [parseRecord_of_not_legible hlegible, ok_bind]
        exact ⟨fun _ ↦ rfl, fun _ h ↦ absurd (.inl hlegible) h⟩

/-- With a NUL behind the block, `parse_core_link` is the loop over the tokens. -/
theorem parseTokensIn_terminated (A : Atoi) (c : CoreLink) (text : Text) (ec : Option ErrorCode) :
    parseTokensIn A ((cstr text).length + 1) c (cstr text ++ [0]) 0 ec =
      parseTokens A (documentTokens text) c ec :=
  (parseTokensIn_spec A true (zero_notMem_cstr text) (Nat.lt_succ_self _) [] c ec).1 (.inl rfl)

/-- Without one it is this loop if it ends early, and otherwise `strtok` leaves the block. -/
theorem parseCoreLinkIn_eq (A : Atoi) (c : CoreLink) (text : Text) (ec : Option ErrorCode) :
    (Stops (cstr text) →
      parseCoreLinkIn A c (some text) ec = parseTokens A (documentTokens text) c ec) ∧
    (¬ Stops (cstr text) →
      parseCoreLinkIn A c (some text) ec = .error (.outOfBounds (cstr text).length)) := by
  have hspec := parseTokensIn_spec A false (zero_notMem_cstr text) (Nat.lt_succ_self _) [] c ec
  simp only [tailOf, Bool.false_eq_true, if_false, List.append_nil, List.nil_append,
    List.length_nil, false_or, true_implies] at hspec
  exact hspec

/-! ## The memory of the parser -/

/-- Parsing a document stays inside the memory of the parser. -/
structure StaysInside (A : Atoi) (c : CoreLink) (coreLink : Text) : Prop where
  /-- `parse_core_link` returns, and accesses nothing outside its block. -/
  document : ∀ ec, ∃ r, parseCoreLinkIn A c (some coreLink) ec = .ok r
  /-- `parse_record` returns, and gives no position behind the end of its line to `substr`. -/
  records : ∀ line, ∃ r, parseRecord A c line = .ok r

/-- **When `parse_core_link` stays inside its memory.**  It does if it comes to a malformed record
that has a separator behind it. -/
theorem staysInside_iff (A : Atoi) (c : CoreLink) (coreLink : Text) :
    StaysInside A c coreLink ↔
      ∃ piece ∈ ((cstr coreLink).splitOn recordSeparator).dropLast,
        piece ≠ [] ∧ ¬ Legible piece := by
  constructor
  · intro hinside
    by_contra hstops
    obtain ⟨r, hr⟩ := hinside.document none
    rw [(parseCoreLinkIn_eq A c coreLink none).2 hstops] at hr
    cases hr
  · intro hstops
    refine ⟨fun ec ↦ ?_, fun line ↦ ⟨_, parseRecord_eq A c line⟩⟩
    exact ⟨_, ((parseCoreLinkIn_eq A c coreLink ec).1 hstops).trans (parseTokens_eq A _ c ec)⟩

/-- The document `</a>` makes `strtok` read behind the copy. -/
theorem not_staysInside : ¬ StaysInside Atoi.orZero {} [60, 47, 97, 62] := by
  intro h
  obtain ⟨r, hr⟩ := h.document none
  have herror : parseCoreLinkIn Atoi.orZero {} (some [60, 47, 97, 62]) none =
      .error (.outOfBounds 4) := by rfl
  rw [herror] at hr
  cases hr

end Coap
