import Mathlib.Data.List.GetD
import Mathlib.Tactic.Common

/-!
# Checked memory

A program that is given a pointer and a length can go wrong in ways its own error codes never
mention: it can read or write a cell the block does not have, or run into a failed `assert`.  This
file is the small vocabulary in which such a program is modelled.

* `Memory.Fault` lists the ways of stopping without returning, and every function that touches
  memory lives in `Except Fault`.
* `Memory.load` and `Memory.copyFrom` read a block of initialised cells, a `List α`.
* `Memory.store` and `Memory.blit` write into a `Memory.Cells α`, whose cells are `none` until
  something has been written to them.  Which indices a program has written is therefore visible in
  the block it leaves behind.

The lemmas are about the two situations every sequential reader and writer is in: reading behind a
prefix that has been consumed (`load_append_add`), and writing at the *front* between the cells
already written and the ones still untouched (`store_front`, `blit_front`).
-/

set_option autoImplicit false

namespace Memory

/-- The ways a run can stop without returning. -/
inductive Fault where
  /-- An access to a cell the block does not have. -/
  | outOfBounds (index : ℕ)
  /-- An access through a null pointer. -/
  | nullPointer
  /-- A failed `assert`. -/
  | assertion
  /-- A conversion to a type that does not have the value. -/
  | conversion
  /-- The bound on the number of steps was used up. -/
  | outOfFuel
deriving DecidableEq, Repr

/-- `assert(c)` in a build that keeps its asserts. -/
def assert (c : Bool) : Except Fault Unit := if c then .ok () else .error .assertion

@[simp] theorem assert_true : assert true = .ok () := rfl

@[simp] theorem assert_false : assert false = .error .assertion := rfl

theorem assert_eq_ok {c : Bool} {u : Unit} : assert c = .ok u ↔ c = true := by
  cases c <;> simp

universe u

variable {α β : Type u}

@[simp] theorem ok_bind (a : α) (f : α → Except Fault β) : (Except.ok a >>= f) = f a := rfl

@[simp] theorem error_bind (e : Fault) (f : α → Except Fault β) :
    (Except.error e >>= f) = .error e := rfl

@[simp] theorem pure_eq_ok (a : α) : (pure a : Except Fault α) = .ok a := rfl

theorem bind_eq_ok {x : Except Fault α} {f : α → Except Fault β} {b : β} :
    (x >>= f) = .ok b ↔ ∃ a, x = .ok a ∧ f a = .ok b := by
  cases x with
  | error e => simp
  | ok a => simp

/-! ## Reading -/

/-- Read cell `i`. -/
def load (buf : List α) (i : ℕ) : Except Fault α :=
  match buf[i]? with
  | some a => .ok a
  | none => .error (.outOfBounds i)

/-- Read the `n` cells from `i` on, in order. -/
def copyFrom (buf : List α) : ℕ → ℕ → Except Fault (List α)
  | _, 0 => .ok []
  | i, n + 1 => do
    let a ← load buf i
    let as ← copyFrom buf (i + 1) n
    return a :: as

@[simp] theorem load_cons_zero (a : α) (l : List α) : load (a :: l) 0 = .ok a := rfl

theorem load_eq_getD {l : List α} {i : ℕ} (h : i < l.length) (a : α) :
    load l i = .ok (l.getD i a) := by
  rw [load, List.getElem?_eq_getElem h, List.getD_eq_getElem _ _ h]

theorem load_append_add {pre l : List α} {k : ℕ} {a : α} (h : l[k]? = some a) :
    load (pre ++ l) (pre.length + k) = .ok a := by
  rw [load, List.getElem?_append_right (by omega), Nat.add_sub_cancel_left, h]

theorem load_append_length (pre l : List α) (a : α) :
    load (pre ++ a :: l) pre.length = .ok a := by
  simpa using load_append_add (l := a :: l) (k := 0) (a := a) rfl

theorem load_length (l : List α) : load l l.length = .error (.outOfBounds l.length) := by
  rw [load, List.getElem?_eq_none (Nat.le_refl _)]

theorem copyFrom_append (pre mid post : List α) :
    copyFrom (pre ++ (mid ++ post)) pre.length mid.length = .ok mid := by
  induction mid generalizing pre with
  | nil => rfl
  | cons a mid ih =>
    have htail := ih (pre ++ [a])
    rw [List.append_assoc, List.length_append] at htail
    rw [List.length_cons, copyFrom, List.cons_append, load_append_length, ok_bind]
    simp only [List.cons_append, List.nil_append, List.length_cons, List.length_nil] at htail
    rw [htail, ok_bind, pure_eq_ok]

theorem length_of_copyFrom {buf as : List α} {i n : ℕ} (h : copyFrom buf i n = .ok as) :
    as.length = n := by
  induction n generalizing i as with
  | zero => cases h; rfl
  | succ n ih =>
    rw [copyFrom] at h
    obtain ⟨a, -, h⟩ := bind_eq_ok.mp h
    obtain ⟨as', htail, h⟩ := bind_eq_ok.mp h
    cases h
    rw [List.length_cons, ih htail]

/-! ## Writing -/

/-- A block that is being written: a cell holds `none` until it is written for the first time. -/
abbrev Cells (α : Type u) := List (Option α)

/-- Write cell `i`. -/
def store (buf : Cells α) (i : ℕ) (a : α) : Except Fault (Cells α) :=
  if i < buf.length then .ok (buf.set i (some a)) else .error (.outOfBounds i)

/-- Write the cells from `i` on, in order: `memcpy`. -/
def blit (buf : Cells α) : ℕ → List α → Except Fault (Cells α)
  | _, [] => .ok buf
  | i, a :: as => do
    let buf ← store buf i a
    blit buf (i + 1) as

/-- Write cell `i` of the block a pointer points to. -/
def storeAt (ptr : Option (Cells α)) (i : ℕ) (a : α) : Except Fault (Option (Cells α)) :=
  match ptr with
  | none => .error .nullPointer
  | some buf => (store buf i a).map some

/-- `memcpy` into the block a pointer points to. -/
def blitAt (ptr : Option (Cells α)) (i : ℕ) (as : List α) : Except Fault (Option (Cells α)) :=
  match ptr with
  | none => .error .nullPointer
  | some buf => (blit buf i as).map some

/-- The block in which `done` has been written from the start on, and `todo` is untouched. -/
def front (done : List α) (todo : Cells α) : Cells α := done.map some ++ todo

theorem front_length (done : List α) (todo : Cells α) :
    (front done todo).length = done.length + todo.length := by
  simp [front]

@[simp] theorem front_nil (todo : Cells α) : front [] todo = todo := rfl

theorem store_front (done : List α) (c : Option α) (todo : Cells α) (a : α) :
    store (front done (c :: todo)) done.length a = .ok (front (done ++ [a]) todo) := by
  rw [store, if_pos (by rw [front_length, List.length_cons]; omega), front, front,
    List.set_append_right _ _ (by simp)]
  simp

/-- With no cell left, a write at the front is out of bounds. -/
theorem store_front_nil (done : List α) (a : α) :
    store (front done []) done.length a = .error (.outOfBounds done.length) := by
  rw [store, if_neg (by rw [front_length]; simp)]

/-- A `memcpy` at the front: it goes through when there is room, and otherwise fails at the first
cell the block does not have. -/
theorem blit_front (done src : List α) (todo : Cells α) :
    blit (front done todo) done.length src =
      if src.length ≤ todo.length then .ok (front (done ++ src) (todo.drop src.length))
      else .error (.outOfBounds (done.length + todo.length)) := by
  induction src generalizing done todo with
  | nil => simp [blit]
  | cons a src ih =>
    cases todo with
    | nil => rw [blit, store_front_nil]; rfl
    | cons c todo =>
      have hstep := ih (done ++ [a]) todo
      simp only [List.length_append, List.length_cons, List.length_nil, List.append_assoc,
        List.cons_append, List.nil_append] at hstep
      rw [blit, store_front, ok_bind, hstep]
      simp only [List.length_cons, Nat.add_le_add_iff_right, List.drop_succ_cons]
      congr 3
      omega

theorem storeAt_front (done : List α) (todo : Cells α) (a : α) :
    storeAt (some (front done todo)) done.length a =
      if todo = [] then .error (.outOfBounds done.length)
      else .ok (some (front (done ++ [a]) todo.tail)) := by
  cases todo with
  | nil => rw [storeAt, store_front_nil]; rfl
  | cons c todo => rw [storeAt, store_front]; rfl

theorem blitAt_front (done src : List α) (todo : Cells α) :
    blitAt (some (front done todo)) done.length src =
      if src.length ≤ todo.length then .ok (some (front (done ++ src) (todo.drop src.length)))
      else .error (.outOfBounds (done.length + todo.length)) := by
  rw [blitAt, blit_front]
  split <;> rfl

end Memory
