import Mathlib.Data.List.Sort
import Mathlib.Order.Nat

/-!
# Sorting by a key, with no promise about equal keys

What the specification of an unstable sort gives: some permutation, in ascending order of a key.  A
`KeySort` is any function with these two properties, and a statement about a program that sorts is
a statement about all of them.

* `KeySort.stable` and `KeySort.toward` are two of them.  The second one returns a given sorted list
  whenever it can, so that nothing about the order of equal keys survives it.
* `filter_eq_of_perm` and `exists_filter_ne` say when the elements of one key keep their order under
  every sort: exactly if there is nothing to tell them apart.  Then the whole result is determined
  (`eq_of_perm_of_keysAscend`).
-/

set_option autoImplicit false

universe u v

variable {α : Type u} {κ : Type v} [LinearOrder κ]

/-- The keys of a list ascend. -/
def KeysAscend (key : α → κ) (l : List α) : Prop := l.Pairwise fun a b ↦ key a ≤ key b

/-- A function that sorts by `key`. -/
structure KeySort (key : α → κ) where
  /-- The function. -/
  sort : List α → List α
  /-- It permutes the elements. -/
  perm : ∀ l, (sort l).Perm l
  /-- The keys of the result ascend. -/
  ascend : ∀ l, KeysAscend key (sort l)

namespace KeySort

variable (key : α → κ)

/-- Insertion sort, which keeps the order of equal keys. -/
def stable : KeySort key where
  sort := List.insertionSort fun a b ↦ key a ≤ key b
  perm := List.perm_insertionSort _
  ascend l := by
    have : Std.Total fun a b : α ↦ key a ≤ key b := ⟨fun a b ↦ le_total (key a) (key b)⟩
    have : IsTrans α fun a b : α ↦ key a ≤ key b := ⟨fun _ _ _ ↦ le_trans⟩
    exact List.pairwise_insertionSort _ l

/-- The sort that returns `target` for every permutation of it. -/
def toward [DecidableEq α] {target : List α} (h : KeysAscend key target) : KeySort key where
  sort l := if l.Perm target then target else (stable key).sort l
  perm l := by
    split
    · rename_i hl; exact hl.symm
    · exact (stable key).perm l
  ascend l := by
    split
    · exact h
    · exact (stable key).ascend l

variable {key}

theorem toward_sort [DecidableEq α] {target l : List α} (h : KeysAscend key target)
    (hl : l.Perm target) : (toward key h).sort l = target := if_pos hl

/-- Insertion puts an element in front of those with the same key. -/
theorem filter_orderedInsert (a : α) (l : List α) :
    (l.orderedInsert (fun a b ↦ key a ≤ key b) a).filter (fun b ↦ key b = key a) =
      a :: l.filter fun b ↦ key b = key a := by
  induction l with
  | nil => simp
  | cons c l ih =>
    rw [List.orderedInsert_cons]
    split
    · simp
    · rename_i hlt
      have hne : ¬ key c = key a := fun h ↦ hlt h.ge
      simp [hne, ih]

variable (key) in
theorem exists_filter_eq_cons [DecidableEq α] {l : List α} {a : α} (h : a ∈ l) :
    ∃ target rest, KeysAscend key target ∧ l.Perm target ∧
      target.filter (fun b ↦ key b = key a) = a :: rest := by
  refine ⟨(stable key).sort (a :: l.erase a), _, (stable key).ascend _, ?_,
    filter_orderedInsert a _⟩
  exact (List.perm_cons_erase h).trans ((stable key).perm _).symm

end KeySort

variable {key : α → κ}

/-- If elements with the same key are equal, no permutation shows in their order. -/
theorem filter_eq_of_perm {l l' : List α} (h : ∀ a ∈ l, ∀ b ∈ l, key a = key b → a = b)
    (hperm : l'.Perm l) (k : κ) :
    l'.filter (fun a ↦ key a = k) = l.filter fun a ↦ key a = k := by
  have hfilter := hperm.filter fun a ↦ decide (key a = k)
  have hconst : ∀ a ∈ l.filter (fun a ↦ key a = k), ∀ b ∈ l.filter (fun a ↦ key a = k), a = b := by
    intro a ha b hb
    simp only [List.mem_filter, decide_eq_true_eq] at ha hb
    exact h a ha.1 b hb.1 (ha.2.trans hb.2.symm)
  cases hl : l.filter (fun a ↦ key a = k) with
  | nil =>
    rw [hl] at hfilter
    exact hfilter.eq_nil
  | cons a rest =>
    rw [hl] at hfilter hconst
    have hrep : a :: rest = List.replicate (rest.length + 1) a :=
      List.eq_replicate_iff.mpr ⟨by simp, fun b hb ↦ hconst b hb a List.mem_cons_self⟩
    rw [hrep] at hfilter ⊢
    exact List.perm_replicate.mp hfilter

/-- If elements with the same key are equal, there is one sorted permutation only. -/
theorem eq_of_perm_of_keysAscend {l l' : List α}
    (h : ∀ a ∈ l, ∀ b ∈ l, key a = key b → a = b) (hperm : l'.Perm l)
    (hl' : KeysAscend key l') (hl : KeysAscend key l) : l' = l := by
  refine hperm.eq_of_pairwise (fun a b ha hb hab hba ↦ ?_) hl' hl
  exact h a (hperm.mem_iff.mp ha) b hb (le_antisymm hab hba)

/-- **If two elements with the same key differ, some sort changes their order.** -/
theorem exists_filter_ne [DecidableEq α] {l : List α} {a b : α} (ha : a ∈ l) (hb : b ∈ l)
    (hkey : key a = key b) (hne : a ≠ b) :
    ∃ target, KeysAscend key target ∧ l.Perm target ∧
      target.filter (fun c ↦ key c = key a) ≠ l.filter fun c ↦ key c = key a := by
  obtain ⟨ta, ra, hta, hpa, hfa⟩ := KeySort.exists_filter_eq_cons key ha
  obtain ⟨tb, rb, htb, hpb, hfb⟩ := KeySort.exists_filter_eq_cons key hb
  rw [← hkey] at hfb
  by_cases h : ta.filter (fun c ↦ key c = key a) = l.filter fun c ↦ key c = key a
  · refine ⟨tb, htb, hpb, fun h' ↦ hne ?_⟩
    exact (List.cons.inj (hfa.symm.trans (h.trans (h'.symm.trans hfb)))).1
  · exact ⟨ta, hta, hpa, h⟩
