import CoapCpp.CString

/-!
# `strtok` in memory

`CString.strtok` is about a text.  The function of the C library is about a block of memory: it
walks over the block until it meets a separator or a NUL, and it overwrites the separator behind a
token.  Nothing tells it where the block ends.

The text here stands behind a prefix, and a NUL may follow it or not.  The lemmas say what a call
makes of it.

* `strtokAt_item`: a token with a separator behind it is found either way, and cut off.
* `strtokAt_last` and `strtokAt_none`: what comes to the end of the text without meeting a separator
  needs the NUL.
-/

set_option autoImplicit false

namespace CString

open Memory

/-! ## The functions -/

/-- The first position from `i` on whose byte is not one of those to walk over. -/
def scan (passed : UInt8 → Bool) (buf : Text) : ℕ → ℕ → Except Fault ℕ
  | 0, _ => .error .outOfFuel
  | fuel + 1, i => do
    let c ← load buf i
    if passed c then scan passed buf fuel (i + 1) else return i

/-- Overwrite cell `i` with a NUL. -/
def terminate (buf : Text) (i : ℕ) : Except Fault Text :=
  if i < buf.length then .ok (buf.set i 0) else .error (.outOfBounds i)

/-- `strtok` on a block, from where the call before has stopped: where the token starts, where the
next call starts, and the block. -/
def strtokAt (sep : UInt8) (buf : Text) (pos : ℕ) : Except Fault (Option (ℕ × ℕ × Text)) := do
  let start ← scan (fun c ↦ c = sep) buf (buf.length + 1) pos
  let first ← load buf start
  if first = 0 then
    return none
  let stop ← scan (fun c ↦ c ≠ sep ∧ c ≠ 0) buf (buf.length + 1) start
  let last ← load buf stop
  if last = 0 then
    return some (start, stop, buf)
  let buf ← terminate buf stop
  return some (start, stop + 1, buf)

/-- The text a pointer to `pos` stands for. -/
def stringAt (buf : Text) (pos : ℕ) : Except Fault Text := do
  let stop ← scan (fun c ↦ c ≠ 0) buf (buf.length + 1) pos
  copyFrom buf pos (stop - pos)

/-! ## Walking -/

/-- What follows a text in memory, if it does. -/
def tailOf (terminated : Bool) : Text := if terminated then [0] else []

theorem scan_behind {passed : UInt8 → Bool} (pre : Text) {s : Text} (rest : Text) (fuel : ℕ)
    (hs : ∀ b ∈ s, passed b = true) :
    scan passed (pre ++ (s ++ rest)) (s.length + fuel) pre.length =
      scan passed (pre ++ (s ++ rest)) fuel (pre ++ s).length := by
  induction s generalizing pre with
  | nil => rw [List.length_nil, Nat.zero_add, List.append_nil]
  | cons b s ih =>
    have hrest := ih (pre ++ [b]) fun d hd ↦ hs d (List.mem_cons_of_mem _ hd)
    rw [List.append_assoc, List.singleton_append, List.length_append, List.length_singleton,
      List.append_assoc, List.singleton_append] at hrest
    rw [List.length_cons, Nat.add_right_comm, List.cons_append, scan, load_append_length, ok_bind,
      hs b List.mem_cons_self, if_pos rfl, hrest]

theorem scan_append {passed : UInt8 → Bool} (pre : Text) {s : Text} {c : UInt8} (post : Text)
    {fuel : ℕ} (hs : ∀ b ∈ s, passed b = true) (hc : passed c = false) (hfuel : s.length < fuel) :
    scan passed (pre ++ (s ++ c :: post)) fuel pre.length = .ok (pre.length + s.length) := by
  obtain ⟨fuel, rfl⟩ := Nat.exists_eq_add_of_lt hfuel
  rw [Nat.add_assoc, scan_behind pre _ _ hs, ← List.append_assoc, scan, load_append_length, ok_bind,
    hc, List.length_append]
  rfl

theorem scan_end {passed : UInt8 → Bool} (pre : Text) {s : Text} {fuel : ℕ}
    (hs : ∀ b ∈ s, passed b = true) (hfuel : s.length < fuel) :
    scan passed (pre ++ s) fuel pre.length = .error (.outOfBounds (pre ++ s).length) := by
  obtain ⟨fuel, rfl⟩ := Nat.exists_eq_add_of_lt hfuel
  have hbehind := scan_behind pre [] (fuel + 1) hs
  rw [List.append_nil, ← Nat.add_assoc] at hbehind
  rw [hbehind, scan, load_length, error_bind]

/-- Whether a walk that a NUL stops comes to an end depends on the NUL. -/
theorem scan_tailOf {passed : UInt8 → Bool} (pre : Text) {s : Text} (terminated : Bool) {fuel : ℕ}
    (hs : ∀ b ∈ s, passed b = true) (hzero : passed 0 = false) (hfuel : s.length < fuel) :
    scan passed (pre ++ (s ++ tailOf terminated)) fuel pre.length =
      if terminated then .ok (pre.length + s.length)
      else .error (.outOfBounds (pre.length + s.length)) := by
  cases terminated with
  | true => exact scan_append pre [] hs hzero hfuel
  | false =>
    rw [tailOf, if_neg Bool.false_ne_true, List.append_nil, ← List.length_append]
    exact scan_end pre hs hfuel

/-! ## Tokens -/

theorem stringAt_append (pre : Text) {s : Text} (post : Text) (hs : 0 ∉ s) :
    stringAt (pre ++ (s ++ 0 :: post)) pre.length = .ok s := by
  have hscan : scan (fun c ↦ c ≠ 0) (pre ++ (s ++ 0 :: post))
      ((pre ++ (s ++ 0 :: post)).length + 1) pre.length = .ok (pre.length + s.length) := by
    refine scan_append pre post (fun b hb ↦ ?_) (by decide) ?_
    · simpa using fun h0 : b = 0 ↦ hs (h0 ▸ hb)
    · simp only [List.length_append, List.length_cons]
      omega
  rw [stringAt, hscan, ok_bind, Nat.add_sub_cancel_left]
  exact copyFrom_append pre s (0 :: post)

/-- A call that finds the beginning and the end of a token. -/
theorem strtokAt_eq {sep c d : UInt8} {buf : Text} {pos start stop : ℕ}
    (hstart : scan (fun c ↦ c = sep) buf (buf.length + 1) pos = .ok start)
    (hfirst : load buf start = .ok c) (hc : c ≠ 0)
    (hstop : scan (fun c ↦ c ≠ sep ∧ c ≠ 0) buf (buf.length + 1) start = .ok stop)
    (hlast : load buf stop = .ok d) :
    strtokAt sep buf pos =
      if d = 0 then .ok (some (start, stop, buf))
      else terminate buf stop >>= fun buf ↦ .ok (some (start, stop + 1, buf)) := by
  simp only [strtokAt, hstart, hfirst, hstop, hlast, ok_bind, if_neg hc, pure_eq_ok]

/-- What `strtok` walks over in front of a token and in it. -/
theorem scan_token {sep : UInt8} (pre : Text) {lead token : Text} (tail : Text)
    (hlead : ∀ c ∈ lead, c = sep) (hne : token ≠ []) (htoken : sep ∉ token) (hzero : 0 ∉ token) :
    scan (fun c ↦ c = sep) (pre ++ (lead ++ (token ++ tail)))
        ((pre ++ (lead ++ (token ++ tail))).length + 1) pre.length = .ok (pre ++ lead).length ∧
      (∃ c, c ≠ 0 ∧ load (pre ++ (lead ++ (token ++ tail))) (pre ++ lead).length = .ok c) ∧
      ∀ b ∈ token, decide (b ≠ sep ∧ b ≠ 0) = true := by
  obtain ⟨c, t, rfl⟩ := List.exists_cons_of_ne_nil hne
  have hc : c ≠ sep ∧ c ≠ 0 :=
    ⟨fun h ↦ htoken (h ▸ List.mem_cons_self), fun h ↦ hzero (h ▸ List.mem_cons_self)⟩
  refine ⟨?_, ⟨c, hc.2, ?_⟩, fun b hb ↦
    decide_eq_true ⟨fun h ↦ htoken (h ▸ hb), fun h ↦ hzero (h ▸ hb)⟩⟩
  · rw [@List.length_append _ pre lead]
    exact scan_append pre (t ++ tail) (fun b hb ↦ decide_eq_true (hlead b hb))
      (decide_eq_false hc.1) (by simp only [List.length_append]; omega)
  · rw [← List.append_assoc]
    exact load_append_length (pre ++ lead) (t ++ tail) c

/-- A token with a separator behind it: it is cut off, and the next call starts behind the
separator. -/
theorem strtokAt_item {sep : UInt8} (hsep : sep ≠ 0) (pre : Text) {lead token : Text} (rest : Text)
    (hlead : ∀ c ∈ lead, c = sep) (hne : token ≠ []) (htoken : sep ∉ token) (hzero : 0 ∉ token) :
    strtokAt sep (pre ++ (lead ++ (token ++ sep :: rest))) pre.length =
      .ok (some ((pre ++ lead).length, (pre ++ lead ++ token ++ [0]).length,
        pre ++ (lead ++ (token ++ 0 :: rest)))) := by
  obtain ⟨hstart, ⟨c, hc, hfirst⟩, hover⟩ :=
    scan_token pre (sep :: rest) hlead hne htoken hzero
  have hbuf (d : UInt8) : pre ++ (lead ++ (token ++ d :: rest)) =
      (pre ++ lead ++ token) ++ d :: rest := by simp
  have hstop : scan (fun c ↦ c ≠ sep ∧ c ≠ 0) (pre ++ (lead ++ (token ++ sep :: rest)))
      ((pre ++ (lead ++ (token ++ sep :: rest))).length + 1) (pre ++ lead).length =
      .ok (pre ++ lead ++ token).length := by
    rw [← List.append_assoc pre, @List.length_append _ (pre ++ lead) token]
    exact scan_append (pre ++ lead) rest hover (by simp) (by simp only [List.length_append]; omega)
  have hlast : load (pre ++ (lead ++ (token ++ sep :: rest))) (pre ++ lead ++ token).length =
      .ok sep := by
    rw [hbuf]
    exact load_append_length _ rest sep
  rw [strtokAt_eq hstart hfirst hc hstop hlast, if_neg hsep, hbuf sep, terminate,
    if_pos (by simp), List.set_append_right _ _ (Nat.le_refl _), Nat.sub_self, List.set_cons_zero,
    ok_bind, ← hbuf 0, @List.length_append _ (pre ++ lead ++ token) [0]]
  rfl

theorem strtokAt_last {sep : UInt8} (pre : Text) {lead token : Text} (terminated : Bool)
    (hlead : ∀ c ∈ lead, c = sep) (hne : token ≠ []) (htoken : sep ∉ token) (hzero : 0 ∉ token) :
    strtokAt sep (pre ++ (lead ++ (token ++ tailOf terminated))) pre.length =
      if terminated then .ok (some ((pre ++ lead).length, (pre ++ lead ++ token).length,
        pre ++ (lead ++ (token ++ [0]))))
      else .error (.outOfBounds (pre ++ lead ++ token).length) := by
  obtain ⟨hstart, ⟨c, hc, hfirst⟩, hover⟩ :=
    scan_token pre (tailOf terminated) hlead hne htoken hzero
  have hstop : scan (fun c ↦ c ≠ sep ∧ c ≠ 0) (pre ++ (lead ++ (token ++ tailOf terminated)))
      ((pre ++ (lead ++ (token ++ tailOf terminated))).length + 1) (pre ++ lead).length =
      if terminated then .ok (pre ++ lead ++ token).length
      else .error (.outOfBounds (pre ++ lead ++ token).length) := by
    rw [← List.append_assoc pre, @List.length_append _ (pre ++ lead) token]
    exact scan_tailOf (pre ++ lead) terminated hover (by simp)
      (by simp only [List.length_append]; omega)
  cases terminated with
  | false =>
    rw [if_neg Bool.false_ne_true] at hstop ⊢
    rw [strtokAt, hstart, ok_bind, hfirst, ok_bind, if_neg hc, hstop, error_bind]
  | true =>
    have hlast : load (pre ++ (lead ++ (token ++ [0]))) (pre ++ lead ++ token).length = .ok 0 := by
      have hload := load_append_length (pre ++ lead ++ token) [] 0
      rwa [List.append_assoc, List.append_assoc] at hload
    exact strtokAt_eq hstart hfirst hc hstop hlast

theorem strtokAt_none {sep : UInt8} (hsep : sep ≠ 0) (pre : Text) {s : Text} (terminated : Bool)
    (hs : ∀ c ∈ s, c = sep) :
    strtokAt sep (pre ++ (s ++ tailOf terminated)) pre.length =
      if terminated then .ok none else .error (.outOfBounds (pre ++ s).length) := by
  have hstart : scan (fun c ↦ c = sep) (pre ++ (s ++ tailOf terminated))
      ((pre ++ (s ++ tailOf terminated)).length + 1) pre.length =
      if terminated then .ok (pre ++ s).length
      else .error (.outOfBounds (pre ++ s).length) := by
    rw [@List.length_append _ pre s]
    exact scan_tailOf pre terminated (fun b hb ↦ decide_eq_true (hs b hb))
      (decide_eq_false hsep.symm) (by simp only [List.length_append]; omega)
  cases terminated with
  | false =>
    rw [if_neg Bool.false_ne_true] at hstart ⊢
    rw [strtokAt, hstart, error_bind]
  | true =>
    have hfirst : load (pre ++ (s ++ [0])) (pre ++ s).length = .ok 0 := by
      rw [← List.append_assoc]
      exact load_append_length (pre ++ s) [] 0
    rw [if_pos rfl] at hstart ⊢
    rw [strtokAt, hstart, ok_bind, tailOf, if_pos rfl, hfirst, ok_bind, if_pos rfl, pure_eq_ok]

end CString
