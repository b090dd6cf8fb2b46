import Mathlib.Algebra.Order.Sub.Basic
import Mathlib.Algebra.Order.BigOperators.Group.List
import Mathlib.Data.List.Perm.Basic
import Mathlib.Tactic.Common

/-!
# Coding an ascending list by its gaps

A list of keys in ascending order can be written as the list of the differences between
neighbours, and read back by summing them up.  `RunningSum.gaps` and `RunningSum.sums` are the two
directions, for keys in any ordered monoid with truncated subtraction, and with a value attached
to every key that is carried along.

* `sums_gaps` and `gaps_sums`: on ascending lists, and on lists of gaps, they are inverse.
* `sum_le_sum_sums_gaps`: on a list that is *not* ascending the subtraction truncates, and every key
  reads back at least as large as it was.  Hence `ascending_of_perm`: the keys can only read back as
  the same multiset if they read back as the same list, and then the list was ascending.
-/

set_option autoImplicit false

namespace RunningSum

universe u v

variable {M : Type u} {β : Type v}

section Defs

variable [Add M] [Sub M]

/-- Sum up a list of gaps, starting from `n`. -/
def sums : M → List (M × β) → List (M × β)
  | _, [] => []
  | n, (d, b) :: l => (n + d, b) :: sums (n + d) l

/-- The differences between neighbouring keys, starting from `n`. -/
def gaps : M → List (M × β) → List (M × β)
  | _, [] => []
  | n, (k, b) :: l => (k - n, b) :: gaps k l

/-- The keys are in ascending order, and none is below `n`. -/
def Ascending [LE M] (n : M) (l : List (M × β)) : Prop :=
  (n :: l.map Prod.fst).Pairwise (· ≤ ·)

instance [LE M] [DecidableLE M] (n : M) (l : List (M × β)) : Decidable (Ascending n l) :=
  inferInstanceAs (Decidable (List.Pairwise _ _))

end Defs

section Order

variable [LinearOrder M]

theorem ascending_nil (n : M) : Ascending n ([] : List (M × β)) := List.pairwise_singleton ..

/-- One key at a time: the order is transitive, so only neighbours have to be compared. -/
theorem ascending_cons {n k : M} {b : β} {l : List (M × β)} :
    Ascending n ((k, b) :: l) ↔ n ≤ k ∧ Ascending k l := by
  simp only [Ascending, List.map_cons, List.pairwise_cons, List.mem_cons, forall_eq_or_imp]
  constructor
  · rintro ⟨⟨hnk, -⟩, hk, hl⟩
    exact ⟨hnk, hk, hl⟩
  · rintro ⟨hnk, hk, hl⟩
    exact ⟨⟨hnk, fun m hm ↦ hnk.trans (hk m hm)⟩, hk, hl⟩

end Order

variable [AddCommMonoid M] [LinearOrder M]

section Canonical

variable [CanonicallyOrderedAdd M]

/-- What is summed up is ascending. -/
theorem ascending_sums (n : M) (l : List (M × β)) : Ascending n (sums n l) := by
  induction l generalizing n with
  | nil => exact ascending_nil n
  | cons p l ih =>
    obtain ⟨d, b⟩ := p
    exact ascending_cons.mpr ⟨le_self_add, ih (n + d)⟩

/-- **Summing up the gaps of an ascending list gives it back.** -/
theorem sums_gaps [Sub M] [OrderedSub M] {n : M} {l : List (M × β)} (h : Ascending n l) :
    sums n (gaps n l) = l := by
  induction l generalizing n with
  | nil => rfl
  | cons p l ih =>
    obtain ⟨k, b⟩ := p
    obtain ⟨hnk, hl⟩ := ascending_cons.mp h
    rw [gaps, sums, add_tsub_cancel_of_le hnk, ih hl]

end Canonical

variable [Sub M] [OrderedSub M] [IsOrderedCancelAddMonoid M]

/-- **The gaps of what was summed up are the gaps it was summed up from.** -/
theorem gaps_sums (n : M) (l : List (M × β)) : gaps n (sums n l) = l := by
  induction l generalizing n with
  | nil => rfl
  | cons p l ih =>
    obtain ⟨d, b⟩ := p
    rw [sums, gaps, add_tsub_cancel_left, ih]

/-- A subtraction that truncates is made up for by a sum that is too large: read back from a start
that is not below the one they were taken from, no key gets smaller. -/
theorem sum_le_sum_sums_gaps {m n : M} (hnm : n ≤ m) (l : List (M × β)) :
    (l.map Prod.fst).sum ≤ ((sums m (gaps n l)).map Prod.fst).sum := by
  induction l generalizing m n with
  | nil => exact le_rfl
  | cons p l ih =>
    obtain ⟨k, b⟩ := p
    have hk : k ≤ m + (k - n) := le_add_tsub.trans (add_le_add_left hnm _)
    simp only [gaps, sums, List.map_cons, List.sum_cons]
    exact add_le_add hk (ih hk)

/-- If the sum of the keys is right, every key is. -/
theorem sums_gaps_of_sum_eq {m n : M} (hnm : n ≤ m) {l : List (M × β)}
    (h : ((sums m (gaps n l)).map Prod.fst).sum = (l.map Prod.fst).sum) :
    sums m (gaps n l) = l := by
  induction l generalizing m n with
  | nil => rfl
  | cons p l ih =>
    obtain ⟨k, b⟩ := p
    have hk : k ≤ m + (k - n) := le_add_tsub.trans (add_le_add_left hnm _)
    have htail := sum_le_sum_sums_gaps hk l
    simp only [gaps, sums, List.map_cons, List.sum_cons] at h ⊢
    have hhead : m + (k - n) = k := by
      refine le_antisymm (le_of_not_gt fun hlt ↦ ?_) hk
      exact absurd h (add_lt_add_of_lt_of_le hlt htail).ne'
    rw [hhead] at h ⊢
    rw [ih le_rfl (add_left_cancel h)]

/-- **Only an ascending list reads back as the same multiset of keys and values.** -/
theorem ascending_of_perm [CanonicallyOrderedAdd M] {n : M} {l : List (M × β)}
    (h : (sums n (gaps n l)).Perm l) : Ascending n l := by
  have heq := sums_gaps_of_sum_eq le_rfl (h.map Prod.fst).sum_eq
  rw [← heq]
  exact ascending_sums n _

end RunningSum
