import Mathlib.Data.List.Basic
import Mathlib.Tactic.Common

/-!
# Reading a list from its front, one item at a time

Most byte formats are read the same way: look at the front of what is left, either take an item
off it or stop, and go on behind the item.  A `Peeler` is one such look, together with the one fact
that makes the walk end — an item takes at least one element off the list.

* `Peeler.all` is the walk: the items taken, and the reason it stopped.  `Peeler.all_stop` and
  `Peeler.all_item` unfold one step of it, and `Peeler.induct` is the induction that follows it.
* `Peeler.positions` lists what the walk looked at.  Two peelers that agree on the positions of a
  walk take the same walk (`Peeler.all_congr`), which is how two readings of one format are
  compared: it is enough to compare them where the walk actually goes.
* `Peeler.all_append` runs a walk over a list that was *written* item by item, and
  `Peeler.eq_flatMap_all_append` goes back from a walk to the list it was taken over.
-/

set_option autoImplicit false

universe u

/-- What a look at the front of a list finds: an item with the rest of the list behind it, or a
reason to stop. -/
inductive Peel (α β ε : Type u) where
  /-- An item, and what is behind it. -/
  | item (b : β) (rest : List α)
  /-- The walk ends here. -/
  | stop (e : ε)
deriving DecidableEq

/-- One look at the front of a list.  Every item takes something off the list. -/
structure Peeler (α β ε : Type u) where
  /-- The look. -/
  peel : List α → Peel α β ε
  /-- An item is not empty. -/
  shrinks : ∀ {l : List α} {b : β} {rest : List α}, peel l = .item b rest → rest.length < l.length

namespace Peeler

variable {α β ε : Type u} (P : Peeler α β ε)

/-- The walk, on a list of at most `n` elements. -/
def go : (n : ℕ) → (l : List α) → l.length ≤ n → List β × ε
  | n, l, hl =>
    match hp : P.peel l with
    | .stop e => ([], e)
    | .item b rest =>
      match n, hl with
      | 0, hl => absurd (P.shrinks hp) (by omega)
      | n + 1, hl =>
        let r := go n rest (by have := P.shrinks hp; omega)
        (b :: r.1, r.2)

/-- The items of a list, and the reason the walk stopped. -/
def all (l : List α) : List β × ε := P.go l.length l (Nat.le_refl _)

theorem go_stop {n : ℕ} {l : List α} (hl : l.length ≤ n) {e : ε} (h : P.peel l = .stop e) :
    P.go n l hl = ([], e) := by
  rw [go]
  split
  · rename_i e' he; rw [h] at he; cases he; rfl
  · rename_i b rest he; rw [h] at he; cases he

theorem go_item {n : ℕ} {l : List α} (hl : l.length ≤ n + 1) {b : β} {rest : List α}
    (h : P.peel l = .item b rest) (hr : rest.length ≤ n) :
    P.go (n + 1) l hl = (b :: (P.go n rest hr).1, (P.go n rest hr).2) := by
  rw [go]
  split
  · rename_i e he; rw [h] at he; cases he
  · rename_i b' rest' he; rw [h] at he; cases he; rfl

/-- The walk does not depend on the bound it is given. -/
theorem go_eq_go {n m : ℕ} {l : List α} (hn : l.length ≤ n) (hm : l.length ≤ m) :
    P.go n l hn = P.go m l hm := by
  induction n generalizing m l with
  | zero =>
    cases hp : P.peel l with
    | stop e => rw [P.go_stop hn hp, P.go_stop hm hp]
    | item b rest => exact absurd (P.shrinks hp) (by omega)
  | succ n ih =>
    cases hp : P.peel l with
    | stop e => rw [P.go_stop hn hp, P.go_stop hm hp]
    | item b rest =>
      have hlt := P.shrinks hp
      cases m with
      | zero => omega
      | succ m =>
        rw [P.go_item hn hp (by omega), P.go_item hm hp (by omega),
          ih (by omega) (show rest.length ≤ m by omega)]

/-! ## One step of the walk -/

variable {P}

theorem all_stop {l : List α} {e : ε} (h : P.peel l = .stop e) : P.all l = ([], e) :=
  P.go_stop _ h

theorem all_item {l : List α} {b : β} {rest : List α} (h : P.peel l = .item b rest) :
    P.all l = (b :: (P.all rest).1, (P.all rest).2) := by
  have hlt := P.shrinks h
  obtain ⟨n, hn⟩ : ∃ n, l.length = n + 1 := ⟨l.length - 1, by omega⟩
  rw [all, P.go_eq_go (Nat.le_refl _) (show l.length ≤ n + 1 by omega),
    P.go_item _ h (by omega), all, P.go_eq_go (Nat.le_refl _) (show rest.length ≤ n by omega)]

/-- The induction that follows a walk. -/
theorem induct {motive : List α → Prop}
    (stop : ∀ l e, P.peel l = .stop e → motive l)
    (item : ∀ l b rest, P.peel l = .item b rest → motive rest → motive l) (l : List α) :
    motive l := by
  induction hn : l.length using Nat.strongRecOn generalizing l with
  | ind n ih =>
    cases hp : P.peel l with
    | stop e => exact stop l e hp
    | item b rest =>
      exact item l b rest hp (ih rest.length (by have := P.shrinks hp; omega) rest rfl)

/-! ## Where a walk goes -/

/-- The peeler that hands out the list it looks at, and stops with it. -/
def trail (P : Peeler α β ε) : Peeler α (List α) (List α) where
  peel l :=
    match P.peel l with
    | .item _ rest => .item l rest
    | .stop _ => .stop l
  shrinks := by
    intro l b rest h
    split at h
    · rename_i hp; cases h; exact P.shrinks hp
    · cases h

/-- The lists a walk looks at: the list itself, and what is left behind each of its items. -/
def positions (P : Peeler α β ε) (l : List α) : List (List α) :=
  (P.trail.all l).1 ++ [(P.trail.all l).2]

theorem positions_stop {l : List α} {e : ε} (h : P.peel l = .stop e) : P.positions l = [l] := by
  rw [positions, all_stop (P := P.trail) (e := l) (by simp [trail, h]), List.nil_append]

theorem positions_item {l : List α} {b : β} {rest : List α} (h : P.peel l = .item b rest) :
    P.positions l = l :: P.positions rest := by
  have htrail : P.trail.peel l = .item l rest := by simp [trail, h]
  rw [positions, all_item htrail, positions, List.cons_append]

theorem mem_positions_self (l : List α) : l ∈ P.positions l := by
  cases hp : P.peel l with
  | stop e => simp [positions_stop hp]
  | item b rest => simp [positions_item hp]

/-- **Two readings that agree along a walk take the same walk.** -/
theorem all_congr {Q : Peeler α β ε} {l : List α}
    (h : ∀ m ∈ P.positions l, Q.peel m = P.peel m) :
    Q.all l = P.all l ∧ Q.positions l = P.positions l := by
  induction l using P.induct with
  | stop l e hp =>
    have hq : Q.peel l = .stop e := by rw [h l (mem_positions_self l), hp]
    rw [all_stop hp, all_stop hq, positions_stop hp, positions_stop hq]
    exact ⟨rfl, rfl⟩
  | item l b rest hp ih =>
    have hq : Q.peel l = .item b rest := by rw [h l (mem_positions_self l), hp]
    rw [positions_item hp] at h
    obtain ⟨ihall, ihpos⟩ := ih fun m hm ↦ h m (List.mem_cons_of_mem _ hm)
    rw [all_item hp, all_item hq, positions_item hp, positions_item hq, ihall, ihpos]
    exact ⟨rfl, rfl⟩

/-! ## Walking over what was written item by item -/

/-- **A walk over written items.**  If every item reads back from the front of whatever is behind
it, the walk over a list of written items takes exactly these items and goes on behind them. -/
theorem all_append {w : β → List α} {items : List β}
    (h : ∀ b ∈ items, ∀ rest, P.peel (w b ++ rest) = .item b rest) (tail : List α) :
    P.all (items.flatMap w ++ tail) = (items ++ (P.all tail).1, (P.all tail).2) := by
  induction items with
  | nil => simp
  | cons b items ih =>
    have hb := h b List.mem_cons_self (items.flatMap w ++ tail)
    rw [List.flatMap_cons, List.append_assoc, all_item hb,
      ih fun c hc ↦ h c (List.mem_cons_of_mem _ hc)]
    rfl

/-- **A walk reassembles its list**, when every item is what it was written as: the items, and
then the tail it stopped at. -/
theorem eq_flatMap_all_append {w : β → List α}
    (h : ∀ {l b rest}, P.peel l = .item b rest → l = w b ++ rest) (l : List α) :
    ∃ tail, l = (P.all l).1.flatMap w ++ tail ∧ P.peel tail = .stop (P.all l).2 := by
  induction l using P.induct with
  | stop l e hp => exact ⟨l, by simp [all_stop hp], by rw [hp, all_stop hp]⟩
  | item l b rest hp ih =>
    obtain ⟨tail, hrest, htail⟩ := ih
    refine ⟨tail, ?_, by rw [htail, all_item hp]⟩
    rw [all_item hp, List.flatMap_cons, List.append_assoc, ← hrest]
    exact h hp

/-- A walk over a list ends at one of its tails, if every item is taken off the front. -/
theorem exists_tail (h : ∀ {l b rest}, P.peel l = .item b rest → rest <:+ l) (l : List α) :
    ∃ tail, tail <:+ l ∧ P.peel tail = .stop (P.all l).2 := by
  induction l using P.induct with
  | stop l e hp => exact ⟨l, List.suffix_rfl, by rw [hp, all_stop hp]⟩
  | item l b rest hp ih =>
    obtain ⟨tail, htail, hstop⟩ := ih
    exact ⟨tail, htail.trans (h hp), by rw [hstop, all_item hp]⟩

/-- What holds of every item that can be peeled holds of every item of a walk. -/
theorem forall_mem_all {Q : β → Prop} (h : ∀ {l b rest}, P.peel l = .item b rest → Q b)
    (l : List α) : ∀ b ∈ (P.all l).1, Q b := by
  induction l using P.induct with
  | stop l e hp => simp [all_stop hp]
  | item l b rest hp ih =>
    rw [all_item hp]
    intro c hc
    rcases List.mem_cons.mp hc with rfl | hc
    · exact h hp
    · exact ih c hc

end Peeler
