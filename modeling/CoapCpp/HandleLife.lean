import Mathlib.Data.List.Basic
import Mathlib.Logic.Function.Basic
import Mathlib.Tactic.Common

/-!
# The life of a handle

A program that uses a C library is given handles, passes them on, and has to give every one of them
back: once, and not to use it any more after that.  `Orderly` says this of a list of events.

The programs here keep their handles in a fixed set of variables, which are overwritten when a new
handle is created and keep their value when it is freed.  Whether such a program is orderly can be
seen without looking at the handles at all: it is enough to know of every variable whether it is
null, live or freed.

* `Store.step` is the program with its handles, `Action.after` what it does to the statuses of its
  variables, and `Action.Allowed` what may be done in them.
* `notAfterFree_run_iff`: no freed handle is used exactly if every step is safe.
* `orderly_run_iff`: a run is orderly exactly if everything in it is allowed, and nothing is live
  at the end.
-/

set_option autoImplicit false

namespace HandleLife

/-! ## Orderly runs -/

/-- What happens to a handle. -/
inductive Event where
  /-- The library returns a handle. -/
  | created (h : ℕ)
  /-- A handle is passed to the library. -/
  | used (h : ℕ)
  /-- A handle is passed to the function that frees it. -/
  | freed (h : ℕ)
deriving DecidableEq

/-- The handle an event is about. -/
def Event.handle : Event → ℕ
  | .created h | .used h | .freed h => h

/-- The library gets the handle. -/
def Event.Passes (h : ℕ) : Event → Prop
  | .created _ => False
  | .used h' | .freed h' => h' = h

instance (h : ℕ) (e : Event) : Decidable (e.Passes h) := by
  cases e <;> unfold Event.Passes <;> infer_instance

/-- No handle is passed to the library behind the event that frees it. -/
def NotAfterFree (trace : List Event) : Prop :=
  trace.Pairwise fun e e' ↦ ∀ h, e = .freed h → ¬ e'.Passes h

/-- Every handle that was created is freed once, and not used any more after that. -/
structure Orderly (trace : List Event) : Prop where
  /-- No handle is lost, and none is freed twice. -/
  freedOnce : ∀ h, .created h ∈ trace → trace.count (.freed h) = 1
  /-- No handle is used after it was freed. -/
  notAfterFree : NotAfterFree trace

theorem notAfterFree_append_singleton {trace : List Event} {e : Event} :
    NotAfterFree (trace ++ [e]) ↔
      NotAfterFree trace ∧ ∀ h, .freed h ∈ trace → ¬ e.Passes h := by
  rw [NotAfterFree, List.pairwise_append, NotAfterFree]
  refine and_congr_right fun _ ↦ ⟨fun h k hk ↦ ?_, fun h ↦ ⟨List.pairwise_singleton _ _, ?_⟩⟩
  · exact h.2 _ hk e (List.mem_singleton_self e) k rfl
  · rintro _ hmem e' he' k rfl
    rw [List.mem_singleton.mp he']
    exact h k hmem

theorem notAfterFree_append_of_passes {trace : List Event} {e : Event} {h : ℕ}
    (he : ∀ k, e.Passes k ↔ h = k) :
    NotAfterFree (trace ++ [e]) ↔ NotAfterFree trace ∧ .freed h ∉ trace := by
  rw [notAfterFree_append_singleton]
  refine and_congr_right fun _ ↦ ⟨fun hall hmem ↦ hall h hmem ((he h).mpr rfl), ?_⟩
  intro hnot k hk hpasses
  exact hnot ((he k).mp hpasses ▸ hk)

/-- No handle is freed twice. -/
theorem NotAfterFree.count_freed_le {trace : List Event} (h : NotAfterFree trace) (handle : ℕ) :
    trace.count (.freed handle) ≤ 1 := by
  induction trace with
  | nil => exact Nat.zero_le _
  | cons e trace ih =>
    obtain ⟨hfirst, hrest⟩ := List.pairwise_cons.mp h
    by_cases he : e = .freed handle
    · have hnot : .freed handle ∉ trace := fun hmem ↦ hfirst _ hmem handle he rfl
      have hzero := List.count_eq_zero_of_not_mem hnot
      rw [he, List.count_cons_self]
      omega
    · rw [List.count_cons_of_ne he]
      exact ih hrest

/-! ## Handles in variables -/

/-- The variables, the number of the next handle, and what has happened. -/
@[ext]
structure Store (S : Type) where
  /-- The variables. -/
  slots : S → Option ℕ
  /-- The next handle. -/
  next : ℕ
  /-- The events so far. -/
  trace : List Event

variable {S : Type} {σ : Store S}

/-- Nothing has happened yet. -/
def Store.empty : Store S where
  slots _ := none
  next := 0
  trace := []

/-- What is known of a variable. -/
inductive Status where
  /-- It is null. -/
  | null
  /-- Its handle is not freed. -/
  | live
  /-- Its handle is freed. -/
  | freed
deriving DecidableEq

/-- The status of a variable behind a call that frees its handle. -/
def Status.free : Status → Status
  | .null => .null
  | .live | .freed => .freed

/-- The status of a variable. -/
def Store.status (σ : Store S) (slot : S) : Status :=
  match σ.slots slot with
  | none => .null
  | some h => if .freed h ∈ σ.trace then .freed else .live

theorem Store.status_of_none {slot : S} (h : σ.slots slot = none) : σ.status slot = .null := by
  rw [status, h]

theorem Store.status_of_some {slot : S} {h : ℕ} (hh : σ.slots slot = some h) :
    σ.status slot = if .freed h ∈ σ.trace then .freed else .live := by
  rw [status, hh]

theorem Store.status_eq_freed {slot : S} {h : ℕ} (hh : σ.slots slot = some h) :
    σ.status slot = .freed ↔ .freed h ∈ σ.trace := by
  rw [status_of_some hh]
  split <;> simp_all

theorem Store.status_eq_live {slot : S} :
    σ.status slot = .live ↔ ∃ h, σ.slots slot = some h ∧ .freed h ∉ σ.trace := by
  cases hh : σ.slots slot with
  | none => simp [status_of_none hh]
  | some h =>
    rw [status_of_some hh]
    split <;> simp_all

/-- Only the event that frees a handle changes a status. -/
theorem Store.status_append {slot : S} {e : Event}
    (he : ∀ h, σ.slots slot = some h → e ≠ .freed h) :
    ({ σ with trace := σ.trace ++ [e] } : Store S).status slot = σ.status slot := by
  have hmem (h : ℕ) (hh : σ.slots slot = some h) :
      .freed h ∈ σ.trace ++ [e] ↔ .freed h ∈ σ.trace := by
    simp [(he h hh).symm]
  unfold status
  dsimp only
  cases hh : σ.slots slot with
  | none => rfl
  | some h => simp only [hmem h hh]

/-- The handles that are known were created, and no two variables have the same one. -/
structure WellFormed (σ : Store S) : Prop where
  /-- The next handle is a new one. -/
  fresh : ∀ e ∈ σ.trace, e.handle < σ.next
  /-- What a variable holds was created. -/
  held : ∀ slot h, σ.slots slot = some h → .created h ∈ σ.trace
  /-- No handle is in two variables. -/
  distinct : ∀ slot slot' h, σ.slots slot = some h → σ.slots slot' = some h → slot = slot'

theorem wellFormed_empty : WellFormed (Store.empty : Store S) where
  fresh _ h := absurd h List.not_mem_nil
  held _ _ h := by cases h
  distinct _ _ _ h := by cases h

theorem WellFormed.lt_next (hσ : WellFormed σ) {slot : S} {h : ℕ} (hh : σ.slots slot = some h) :
    h < σ.next := hσ.fresh _ (hσ.held slot h hh)

theorem WellFormed.append (hσ : WellFormed σ) {slot : S} {e : Event}
    (he : σ.slots slot = some e.handle) : WellFormed { σ with trace := σ.trace ++ [e] } where
  fresh e' he' := by
    rcases List.mem_append.mp he' with he' | he'
    · exact hσ.fresh e' he'
    · rw [List.mem_singleton.mp he']
      exact hσ.lt_next he
  held slot' h hh := List.mem_append_left _ (hσ.held slot' h hh)
  distinct := hσ.distinct

theorem WellFormed.created (hσ : WellFormed σ) :
    WellFormed { σ with next := σ.next + 1, trace := σ.trace ++ [.created σ.next] } where
  fresh e he := by
    rcases List.mem_append.mp he with he | he
    · exact Nat.lt_succ_of_lt (hσ.fresh e he)
    · rw [List.mem_singleton.mp he]
      exact Nat.lt_succ_self _
  held slot h hh := List.mem_append_left _ (hσ.held slot h hh)
  distinct := hσ.distinct

/-! ## Tidy states -/

/-- Every handle that was created was freed once or is in a variable, and no freed one was used. -/
structure Tidy (σ : Store S) : Prop where
  /-- No handle is lost, and none was freed twice. -/
  kept : ∀ h, .created h ∈ σ.trace → σ.trace.count (.freed h) = 1 ∨
    .freed h ∉ σ.trace ∧ ∃ slot, σ.slots slot = some h
  /-- No handle was used after it was freed. -/
  notAfterFree : NotAfterFree σ.trace

theorem tidy_empty : Tidy (Store.empty : Store S) where
  kept _ h := absurd h List.not_mem_nil
  notAfterFree := List.Pairwise.nil

/-- Passing a handle on is fine as long as it is not freed. -/
theorem tidy_used {h : ℕ} :
    Tidy { σ with trace := σ.trace ++ [.used h] } ↔ Tidy σ ∧ .freed h ∉ σ.trace := by
  have hpasses : NotAfterFree (σ.trace ++ [.used h]) ↔ _ :=
    notAfterFree_append_of_passes fun _ ↦ Iff.rfl
  constructor
  · rintro ⟨hkept, hafter⟩
    obtain ⟨hafter, hnot⟩ := hpasses.mp hafter
    refine ⟨⟨fun k hk ↦ ?_, hafter⟩, hnot⟩
    simpa using hkept k (List.mem_append_left _ hk)
  · rintro ⟨⟨hkept, hafter⟩, hnot⟩
    refine ⟨fun k hk ↦ ?_, hpasses.mpr ⟨hafter, hnot⟩⟩
    simpa using hkept k (by simpa using hk)

/-- Freeing the handle of a variable is fine as long as it is not freed. -/
theorem tidy_freed {slot : S} {h : ℕ} (hslot : σ.slots slot = some h) :
    Tidy { σ with trace := σ.trace ++ [.freed h] } ↔ Tidy σ ∧ .freed h ∉ σ.trace := by
  have hpasses : NotAfterFree (σ.trace ++ [.freed h]) ↔ _ :=
    notAfterFree_append_of_passes fun _ ↦ Iff.rfl
  have hother {k : ℕ} (hk : k ≠ h) :
      (σ.trace ++ [Event.freed h]).count (.freed k) = σ.trace.count (.freed k) ∧
      (.freed k ∈ σ.trace ++ [Event.freed h] ↔ .freed k ∈ σ.trace) := by
    simp [List.count_append, hk, Ne.symm hk]
  constructor
  · rintro ⟨hkept, hafter⟩
    obtain ⟨hafter, hnot⟩ := hpasses.mp hafter
    refine ⟨⟨fun k hk ↦ ?_, hafter⟩, hnot⟩
    by_cases hkh : k = h
    · subst hkh
      exact .inr ⟨hnot, slot, hslot⟩
    · have := hkept k (List.mem_append_left _ hk)
      dsimp only at this
      rwa [(hother hkh).1, (hother hkh).2] at this
  · rintro ⟨⟨hkept, hafter⟩, hnot⟩
    refine ⟨fun k hk ↦ ?_, hpasses.mpr ⟨hafter, hnot⟩⟩
    dsimp only at hk ⊢
    by_cases hkh : k = h
    · subst hkh
      exact .inl (by simp [List.count_append, List.count_eq_zero_of_not_mem hnot])
    · rw [(hother hkh).1, (hother hkh).2]
      exact hkept k (by simpa using hk)

theorem tidy_created {slot : S} {h next : ℕ} (hslot : σ.slots slot = some h)
    (hfresh : .freed h ∉ σ.trace) :
    Tidy { σ with next := next, trace := σ.trace ++ [.created h] } ↔ Tidy σ := by
  have hafter : NotAfterFree (σ.trace ++ [.created h]) ↔ NotAfterFree σ.trace :=
    notAfterFree_append_singleton.trans (and_iff_left fun _ _ hpasses ↦ hpasses)
  constructor
  · rintro ⟨hkept, h'⟩
    refine ⟨fun k hk ↦ ?_, hafter.mp h'⟩
    simpa using hkept k (List.mem_append_left _ hk)
  · rintro ⟨hkept, h'⟩
    refine ⟨fun k hk ↦ ?_, hafter.mpr h'⟩
    rcases List.mem_append.mp hk with hk | hk
    · simpa using hkept k hk
    · cases List.mem_singleton.mp hk
      exact .inr ⟨by simpa using hfresh, slot, hslot⟩

/-- At the end of a tidy run nothing is live. -/
theorem orderly_iff (hσ : WellFormed σ) :
    Orderly σ.trace ↔ Tidy σ ∧ ∀ slot, σ.status slot ≠ .live := by
  constructor
  · rintro ⟨hfreed, hafter⟩
    refine ⟨⟨fun h hh ↦ .inl (hfreed h hh), hafter⟩, fun slot hlive ↦ ?_⟩
    obtain ⟨h, hslot, hnot⟩ := Store.status_eq_live.mp hlive
    have hone := hfreed h (hσ.held slot h hslot)
    rw [List.count_eq_zero_of_not_mem hnot] at hone
    cases hone
  · rintro ⟨⟨hkept, hafter⟩, hlive⟩
    refine ⟨fun h hh ↦ ?_, hafter⟩
    rcases hkept h hh with hone | ⟨hnot, slot, hslot⟩
    · exact hone
    · exact absurd (Store.status_eq_live.mpr ⟨h, hslot, hnot⟩) (hlive slot)

/-! ## Programs -/

/-- What a program does with its variables. -/
inductive Action (S : Type) where
  /-- A variable is set to a new handle, or to null if there is none. -/
  | create (slot : S) (ok : Bool)
  /-- The value of a variable is passed to the library. -/
  | use (slot : S)
  /-- The value of a variable is passed to the function that frees it. -/
  | free (slot : S)

variable [DecidableEq S]

/-- One action.  Passing null has no effect. -/
def Store.step (σ : Store S) : Action S → Store S
  | .create slot true =>
    { slots := Function.update σ.slots slot (some σ.next)
      next := σ.next + 1
      trace := σ.trace ++ [.created σ.next] }
  | .create slot false => { σ with slots := Function.update σ.slots slot none }
  | .use slot => { σ with trace := σ.trace ++ (σ.slots slot).toList.map .used }
  | .free slot => { σ with trace := σ.trace ++ (σ.slots slot).toList.map .freed }

/-- A row of actions. -/
def Store.run (σ : Store S) (actions : List (Action S)) : Store S := actions.foldl Store.step σ

theorem Store.run_append (σ : Store S) (as bs : List (Action S)) :
    σ.run (as ++ bs) = (σ.run as).run bs := List.foldl_append

/-- What is free to be done: no live handle is overwritten, and no freed one is passed on. -/
def Action.Allowed (st : S → Status) : Action S → Prop
  | .create slot _ => st slot ≠ .live
  | .use slot | .free slot => st slot ≠ .freed

/-- The statuses behind an action. -/
def Action.after (st : S → Status) : Action S → S → Status
  | .create slot ok => Function.update st slot (if ok then .live else .null)
  | .use _ => st
  | .free slot => Function.update st slot (st slot).free

/-- All actions of a row are allowed, one after the other. -/
def AllAllowed : List (Action S) → (S → Status) → Prop
  | [], _ => True
  | a :: actions, st => a.Allowed st ∧ AllAllowed actions (a.after st)

/-- The statuses behind a row of actions. -/
def afterAll (actions : List (Action S)) (st : S → Status) : S → Status :=
  actions.foldl Action.after st

theorem afterAll_append (as bs : List (Action S)) (st : S → Status) :
    afterAll (as ++ bs) st = afterAll bs (afterAll as st) := List.foldl_append

theorem allAllowed_append {as bs : List (Action S)} {st : S → Status} :
    AllAllowed (as ++ bs) st ↔ AllAllowed as st ∧ AllAllowed bs (afterAll as st) := by
  induction as generalizing st with
  | nil => exact (and_iff_right trivial).symm
  | cons a as ih =>
    rw [List.cons_append, AllAllowed, AllAllowed, ih, and_assoc]
    rfl

/-! ## Steps -/

theorem WellFormed.overwrite (hσ : WellFormed σ) {slot : S} {value : Option ℕ}
    (hcreated : ∀ h, value = some h → .created h ∈ σ.trace)
    (hnew : ∀ slot' h, value = some h → σ.slots slot' ≠ some h) :
    WellFormed { σ with slots := Function.update σ.slots slot value } where
  fresh := hσ.fresh
  held slot' h hh := by
    dsimp only at hh
    rw [Function.update_apply] at hh
    split at hh
    · exact hcreated h hh
    · exact hσ.held slot' h hh
  distinct s s' h hs hs' := by
    dsimp only at hs hs'
    rw [Function.update_apply] at hs hs'
    split at hs <;> split at hs'
    · rename_i h1 h2
      exact h1.trans h2.symm
    · exact absurd hs' (hnew s' h hs)
    · exact absurd hs (hnew s h hs')
    · exact hσ.distinct s s' h hs hs'

theorem wellFormed_step (hσ : WellFormed σ) (a : Action S) : WellFormed (σ.step a) := by
  cases a with
  | create slot ok =>
    cases ok with
    | true =>
      refine hσ.created.overwrite (fun h hh ↦ ?_) fun slot' h hh hslot ↦ ?_
      · cases hh
        exact List.mem_append_right _ (List.mem_singleton_self _)
      · cases hh
        exact Nat.lt_irrefl _ (hσ.lt_next hslot)
    | false => exact hσ.overwrite (fun h hh ↦ by cases hh) fun slot' h hh ↦ by cases hh
  | use slot =>
    cases hslot : σ.slots slot with
    | none => simpa [Store.step, hslot] using hσ
    | some h => simpa [Store.step, hslot] using hσ.append (e := .used h) hslot
  | free slot =>
    cases hslot : σ.slots slot with
    | none => simpa [Store.step, hslot] using hσ
    | some h => simpa [Store.step, hslot] using hσ.append (e := .freed h) hslot

/-- **The statuses are enough** to know the statuses behind an action. -/
theorem status_step (hσ : WellFormed σ) (a : Action S) :
    (σ.step a).status = a.after σ.status := by
  funext slot'
  cases a with
  | create slot ok =>
    rw [Action.after, Function.update_apply]
    by_cases heq : slot' = slot
    · rw [if_pos heq]
      cases ok with
      | true =>
        have hslots : (σ.step (.create slot true)).slots slot' = some σ.next := by
          rw [heq]
          exact Function.update_self _ _ _
        have hnext : .freed σ.next ∉ (σ.step (.create slot true)).trace := by
          have : .freed σ.next ∉ σ.trace := fun h ↦ Nat.lt_irrefl _ (hσ.fresh _ h)
          simp [Store.step, this]
        rw [Store.status_of_some hslots, if_neg hnext]
        rfl
      | false =>
        refine Store.status_of_none ?_
        rw [heq]
        exact Function.update_self _ _ _
    · rw [if_neg heq]
      cases ok with
      | true =>
        have happend : _ = σ.status slot' :=
          Store.status_append (e := .created σ.next) fun _ _ h ↦ by cases h
        rw [← happend, Store.status, Store.status, Store.step]
        dsimp only
        rw [Function.update_of_ne heq]
      | false =>
        rw [Store.status, Store.status, Store.step]
        dsimp only
        rw [Function.update_of_ne heq]
  | use slot =>
    cases hslot : σ.slots slot with
    | none => simp [Store.step, Action.after, hslot]
    | some h =>
      rw [Store.step, hslot]
      exact Store.status_append fun _ _ h ↦ by cases h
  | free slot =>
    rw [Action.after, Function.update_apply, Store.step]
    cases hslot : σ.slots slot with
    | none =>
      rw [Store.status_of_none hslot, Option.toList_none, List.map_nil, List.append_nil]
      split
      · rename_i heq
        rw [heq, Store.status_of_none hslot]
        rfl
      · rfl
    | some h =>
      have hfree : (σ.status slot).free = .freed := by
        rw [Store.status_of_some hslot]
        split <;> rfl
      rw [hfree]
      split
      · rename_i heq
        subst heq
        refine (Store.status_eq_freed (h := h) ?_).mpr ?_
        · exact hslot
        · exact List.mem_append_right _ (List.mem_singleton_self _)
      · rename_i heq
        refine Store.status_append fun h' hh' hfreed ↦ heq ?_
        cases hfreed
        exact hσ.distinct _ _ h hh' hslot

/-- Overwriting a variable is fine as long as its handle is not live. -/
theorem tidy_overwrite (hσ : WellFormed σ) {slot : S} {value : Option ℕ}
    (hvalue : ∀ h, value = some h → .created h ∉ σ.trace) :
    Tidy { σ with slots := Function.update σ.slots slot value } ↔
      Tidy σ ∧ σ.status slot ≠ .live := by
  constructor
  · rintro ⟨hkept, hafter⟩
    dsimp only at hkept
    refine ⟨⟨fun h hh ↦ ?_, hafter⟩, fun hlive ↦ ?_⟩
    · refine (hkept h hh).imp_right (And.imp_right ?_)
      rintro ⟨slot', hslot'⟩
      rw [Function.update_apply] at hslot'
      split at hslot'
      · exact absurd hh (hvalue h hslot')
      · exact ⟨slot', hslot'⟩
    · obtain ⟨h, hslot, hnot⟩ := Store.status_eq_live.mp hlive
      rcases hkept h (hσ.held slot h hslot) with hone | ⟨-, slot', hslot'⟩
      · rw [List.count_eq_zero_of_not_mem hnot] at hone
        cases hone
      · rw [Function.update_apply] at hslot'
        split at hslot'
        · exact hvalue h hslot' (hσ.held slot h hslot)
        · rename_i hne
          exact hne (hσ.distinct _ _ h hslot' hslot)
  · rintro ⟨⟨hkept, hafter⟩, hlive⟩
    refine ⟨fun h hh ↦ ?_, hafter⟩
    rcases hkept h hh with hone | ⟨hnot, slot', hslot'⟩
    · exact .inl hone
    · refine .inr ⟨hnot, slot', ?_⟩
      have hne : slot' ≠ slot := fun heq ↦ hlive (Store.status_eq_live.mpr ⟨h, heq ▸ hslot', hnot⟩)
      dsimp only
      rw [Function.update_of_ne hne, hslot']

/-- **What is allowed is what keeps the program tidy.** -/
theorem tidy_step_iff (hσ : WellFormed σ) (a : Action S) :
    Tidy (σ.step a) ↔ Tidy σ ∧ a.Allowed σ.status := by
  have hnew (e : Event) (he : e.handle = σ.next) : e ∉ σ.trace :=
    fun hmem ↦ absurd (hσ.fresh e hmem) (by omega)
  cases a with
  | create slot ok =>
    cases ok with
    | true =>
      let τ : Store S := { σ with slots := Function.update σ.slots slot (some σ.next) }
      have hoverwrite : Tidy τ ↔ Tidy σ ∧ σ.status slot ≠ .live :=
        tidy_overwrite hσ fun h heq ↦ hnew _ (Option.some.inj heq).symm
      have hslot : τ.slots slot = some σ.next := Function.update_self _ _ _
      exact (tidy_created hslot (hnew _ rfl)).trans hoverwrite
    | false => exact tidy_overwrite hσ fun h heq ↦ by cases heq
  | use slot =>
    cases hslot : σ.slots slot with
    | none => simp [Store.step, hslot, Action.Allowed, Store.status_of_none hslot]
    | some h =>
      rw [Store.step, hslot, Action.Allowed, Ne, Store.status_eq_freed hslot]
      exact tidy_used
  | free slot =>
    cases hslot : σ.slots slot with
    | none => simp [Store.step, hslot, Action.Allowed, Store.status_of_none hslot]
    | some h =>
      rw [Store.step, hslot, Action.Allowed, Ne, Store.status_eq_freed hslot]
      exact tidy_freed hslot

/-! ## Runs -/

theorem status_run (hσ : WellFormed σ) (actions : List (Action S)) :
    (σ.run actions).status = afterAll actions σ.status := by
  induction actions generalizing σ with
  | nil => rfl
  | cons a actions ih =>
    rw [afterAll, List.foldl_cons, ← status_step hσ]
    exact ih (wellFormed_step hσ a)

theorem wellFormed_run (hσ : WellFormed σ) (actions : List (Action S)) :
    WellFormed (σ.run actions) := by
  induction actions generalizing σ with
  | nil => exact hσ
  | cons a actions ih => exact ih (wellFormed_step hσ a)

theorem tidy_run_iff (hσ : WellFormed σ) (actions : List (Action S)) :
    Tidy (σ.run actions) ↔ Tidy σ ∧ AllAllowed actions σ.status := by
  induction actions generalizing σ with
  | nil => exact (and_iff_left trivial).symm
  | cons a actions ih =>
    rw [AllAllowed, ← and_assoc, ← tidy_step_iff hσ, ← status_step hσ]
    exact ih (wellFormed_step hσ a)

/-- What is safe to be done: a freed handle is not passed on, but a live one may be lost. -/
def Action.Safe (st : S → Status) : Action S → Prop
  | .create _ _ => True
  | .use slot | .free slot => st slot ≠ .freed

/-- All actions of a row are safe, one after the other. -/
def AllSafe : List (Action S) → (S → Status) → Prop
  | [], _ => True
  | a :: actions, st => a.Safe st ∧ AllSafe actions (a.after st)

theorem allSafe_append {as bs : List (Action S)} {st : S → Status} :
    AllSafe (as ++ bs) st ↔ AllSafe as st ∧ AllSafe bs (afterAll as st) := by
  induction as generalizing st with
  | nil => exact (and_iff_right trivial).symm
  | cons a as ih =>
    rw [List.cons_append, AllSafe, AllSafe, ih, and_assoc]
    rfl

theorem notAfterFree_step_iff (σ : Store S) (a : Action S) :
    NotAfterFree (σ.step a).trace ↔ NotAfterFree σ.trace ∧ a.Safe σ.status := by
  cases a with
  | create slot ok =>
    cases ok with
    | true =>
      refine notAfterFree_append_singleton.trans (and_congr_right fun _ ↦ ?_)
      exact iff_of_true (fun _ _ hpasses ↦ hpasses) trivial
    | false => exact (and_iff_left trivial).symm
  | use slot | free slot =>
    cases hslot : σ.slots slot with
    | none => simp [Store.step, hslot, Action.Safe, Store.status_of_none hslot]
    | some h =>
      rw [Store.step, hslot, Action.Safe, Ne, Store.status_eq_freed hslot]
      exact notAfterFree_append_of_passes fun _ ↦ Iff.rfl

/-- **What is safe is what uses no freed handle.** -/
theorem notAfterFree_run_iff (hσ : WellFormed σ) (actions : List (Action S)) :
    NotAfterFree (σ.run actions).trace ↔ NotAfterFree σ.trace ∧ AllSafe actions σ.status := by
  induction actions generalizing σ with
  | nil => exact (and_iff_left trivial).symm
  | cons a actions ih =>
    rw [AllSafe, ← and_assoc, ← notAfterFree_step_iff σ, ← status_step hσ]
    exact ih (wellFormed_step hσ a)

/-- **Orderly runs**: everything is allowed, and nothing is live at the end. -/
theorem orderly_run_iff (actions : List (Action S)) :
    Orderly (Store.empty.run actions).trace ↔
      AllAllowed actions (fun _ ↦ .null) ∧
      ∀ slot, afterAll actions (fun _ ↦ .null) slot ≠ .live := by
  have hempty : WellFormed (Store.empty : Store S) := wellFormed_empty
  have hstatus : (Store.empty : Store S).status = fun _ ↦ .null := rfl
  rw [orderly_iff (wellFormed_run hempty actions), tidy_run_iff hempty, status_run hempty, hstatus,
    and_iff_right tidy_empty]

end HandleLife
