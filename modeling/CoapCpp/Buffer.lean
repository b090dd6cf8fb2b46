import CoapCpp.HandleLife

/-!
# Buffers

`Buffer` of `api/buffer.h`, which owns an array, and the programs that declare, copy, move, assign
and use buffers.

The move operations take the array over but leave `m_data` of the other buffer as it is, so that two
buffers delete it.

* `buffers_iff`: the arrays are deleted once, and not used after that, exactly if the program does
  not move a buffer.
* `buffers_are_values`: a program that does not move a buffer does not see the arrays.  Its buffers
  behave as values.
-/

set_option autoImplicit false

namespace Coap

open HandleLife

/-- `Buffer` -/
structure Buffer where
  /-- `m_length` -/
  length : ℕ
  /-- `m_offset` -/
  offset : ℕ
  /-- `m_data`, the array. -/
  data : ℕ

/-- What a program does with its buffers. -/
inductive Statement (V : Type) where
  /-- `Buffer v(length);` -/
  | new (v : V) (length : ℕ)
  /-- `Buffer v(w);` -/
  | copyNew (v w : V)
  /-- `Buffer v(std::move(w));` -/
  | moveNew (v w : V)
  /-- `v = w;` -/
  | copy (v w : V)
  /-- `v = std::move(w);` -/
  | move (v w : V)
  /-- `v.data()[i] = byte;` -/
  | write (v : V) (i : ℕ) (byte : UInt8)
  /-- `v.offset(value);` -/
  | offset (v : V) (value : ℕ)
  /-- `v.clear();` -/
  | clear (v : V)
  /-- `v` goes out of scope. -/
  | destroy (v : V)

/-- The buffers that are in scope, the arrays, and what has happened to them. -/
structure Buffers (V : Type) where
  /-- The buffers. -/
  vars : V → Option Buffer
  /-- What is in the arrays. -/
  arrays : ℕ → List UInt8
  /-- The next array. -/
  next : ℕ
  /-- What has happened. -/
  trace : List Event

namespace Buffers

variable {V : Type} [DecidableEq V]

/-- Nothing has been declared. -/
def empty : Buffers V where
  vars _ := none
  arrays _ := []
  next := 0
  trace := []

/-- `Buffer(length)` -/
def construct (s : Buffers V) (v : V) (length : ℕ) : Buffers V where
  vars := Function.update s.vars v (some ⟨length, 0, s.next⟩)
  arrays := Function.update s.arrays s.next (List.replicate length 0)
  next := s.next + 1
  trace := s.trace ++ [.created s.next, .used s.next]

/-- `operator=(const Buffer &)` with another buffer; `old` is `m_data`. -/
def assign (s : Buffers V) (v : V) (old : Option ℕ) (other : Buffer) : Buffers V where
  vars := Function.update s.vars v (some ⟨other.length, other.offset, s.next⟩)
  arrays := Function.update s.arrays s.next ((s.arrays other.data).take other.length)
  next := s.next + 1
  trace := s.trace ++ (old.toList.map .freed ++ [.created s.next, .used s.next, .used other.data])

/-- `operator=(Buffer &&)` with another buffer, which keeps its `m_data`. -/
def assignMove (s : Buffers V) (v : V) (old : Option ℕ) (w : V) (other : Buffer) : Buffers V :=
  { s with
    vars := Function.update (Function.update s.vars w (some ⟨0, 0, other.data⟩)) v (some other)
    trace := s.trace ++ old.toList.map .freed }

/-- One statement.  There is no result if it does not fit the scopes, or writes outside of a
buffer. -/
def step (s : Buffers V) : Statement V → Option (Buffers V)
  | .new v length =>
    match s.vars v with
    | none => some (s.construct v length)
    | some _ => none
  | .copyNew v w =>
    match s.vars v, s.vars w with
    | none, some other => some (s.assign v none other)
    | _, _ => none
  | .moveNew v w =>
    match s.vars v, s.vars w with
    | none, some other => some (s.assignMove v none w other)
    | _, _ => none
  | .copy v w =>
    match s.vars v, s.vars w with
    | some b, some other => some (if v = w then s else s.assign v (some b.data) other)
    | _, _ => none
  | .move v w =>
    match s.vars v, s.vars w with
    | some b, some other => some (if v = w then s else s.assignMove v (some b.data) w other)
    | _, _ => none
  | .write v i byte =>
    match s.vars v with
    | none => none
    | some b =>
      if i < b.length then
        some { s with
          arrays := Function.update s.arrays b.data ((s.arrays b.data).set i byte)
          trace := s.trace ++ [.used b.data] }
      else none
  | .offset v value =>
    match s.vars v with
    | none => none
    | some b => some { s with vars := Function.update s.vars v (some { b with offset := value }) }
  | .clear v =>
    match s.vars v with
    | none => none
    | some b =>
      some { s with
        vars := Function.update s.vars v (some { b with offset := 0 })
        arrays := Function.update s.arrays b.data
          (List.replicate b.length 0 ++ (s.arrays b.data).drop b.length)
        trace := s.trace ++ [.used b.data] }
  | .destroy v =>
    match s.vars v with
    | none => none
    | some b =>
      some { s with
        vars := Function.update s.vars v none
        trace := s.trace ++ [.freed b.data] }

/-- One statement after the other. -/
def run (s : Buffers V) : List (Statement V) → Option (Buffers V)
  | [] => some s
  | statement :: rest => (s.step statement).bind fun s ↦ s.run rest

end Buffers

/-- A buffer is moved to another one. -/
def Statement.Moves {V : Type} : Statement V → Prop
  | .moveNew _ _ => True
  | .move v w => v ≠ w
  | .new _ _ | .copyNew _ _ | .copy _ _ | .write _ _ _ | .offset _ _ | .clear _
  | .destroy _ => False

/-- The buffer that a statement is about. -/
def Statement.target {V : Type} : Statement V → V
  | .new v _ | .copyNew v _ | .moveNew v _ | .copy v _ | .move v _ | .write v _ _ | .offset v _
  | .clear v | .destroy v => v

/-! ## Buffers as values -/

/-- What a program knows of a buffer. -/
structure BufferValue where
  /-- The bytes in it. -/
  bytes : List UInt8
  /-- `offset()` -/
  offset : ℕ
deriving DecidableEq

/-- What the program sees of its buffers: `length()` bytes from `data()` on, and `offset()`. -/
def Buffers.values {V : Type} (s : Buffers V) (v : V) : Option BufferValue :=
  (s.vars v).map fun b ↦ ⟨(s.arrays b.data).take b.length, b.offset⟩

/-- One statement, for buffers that are values. -/
def valueStep {V : Type} [DecidableEq V] (σ : V → Option BufferValue) :
    Statement V → Option (V → Option BufferValue)
  | .new v length =>
    match σ v with
    | none => some (Function.update σ v (some ⟨List.replicate length 0, 0⟩))
    | some _ => none
  | .copyNew v w =>
    match σ v, σ w with
    | none, some other => some (Function.update σ v (some other))
    | _, _ => none
  | .moveNew v w =>
    match σ v, σ w with
    | none, some other =>
      some (Function.update (Function.update σ w (some ⟨[], 0⟩)) v (some other))
    | _, _ => none
  | .copy v w =>
    match σ v, σ w with
    | some _, some other => some (Function.update σ v (some other))
    | _, _ => none
  | .move v w =>
    match σ v, σ w with
    | some _, some other =>
      some (if v = w then σ
        else Function.update (Function.update σ w (some ⟨[], 0⟩)) v (some other))
    | _, _ => none
  | .write v i byte =>
    match σ v with
    | none => none
    | some x =>
      if i < x.bytes.length then
        some (Function.update σ v (some { x with bytes := x.bytes.set i byte }))
      else none
  | .offset v value =>
    match σ v with
    | none => none
    | some x => some (Function.update σ v (some { x with offset := value }))
  | .clear v =>
    match σ v with
    | none => none
    | some x => some (Function.update σ v (some ⟨List.replicate x.bytes.length 0, 0⟩))
  | .destroy v =>
    match σ v with
    | none => none
    | some _ => some (Function.update σ v none)

/-- One statement after the other. -/
def valueRun {V : Type} [DecidableEq V] (σ : V → Option BufferValue) :
    List (Statement V) → Option (V → Option BufferValue)
  | [] => some σ
  | statement :: rest => (valueStep σ statement).bind fun σ ↦ valueRun σ rest

/-! ## Steps -/

namespace Buffers

variable {V : Type} [DecidableEq V] {s s' : Buffers V} {statement : Statement V}

/-- What a statement can do. -/
inductive Does (s : Buffers V) : Statement V → Buffers V → Prop where
  | new {v : V} {length : ℕ} (hv : s.vars v = none) : Does s (.new v length) (s.construct v length)
  | copyNew {v w : V} {other : Buffer} (hv : s.vars v = none) (hw : s.vars w = some other) :
      Does s (.copyNew v w) (s.assign v none other)
  | moveNew {v w : V} {other : Buffer} (hv : s.vars v = none) (hw : s.vars w = some other) :
      Does s (.moveNew v w) (s.assignMove v none w other)
  | copySelf {v : V} {b : Buffer} (hv : s.vars v = some b) : Does s (.copy v v) s
  | copy {v w : V} {b other : Buffer} (hne : v ≠ w) (hv : s.vars v = some b)
      (hw : s.vars w = some other) : Does s (.copy v w) (s.assign v (some b.data) other)
  | moveSelf {v : V} {b : Buffer} (hv : s.vars v = some b) : Does s (.move v v) s
  | move {v w : V} {b other : Buffer} (hne : v ≠ w) (hv : s.vars v = some b)
      (hw : s.vars w = some other) : Does s (.move v w) (s.assignMove v (some b.data) w other)
  | write {v : V} {i : ℕ} {byte : UInt8} {b : Buffer} (hv : s.vars v = some b) (hi : i < b.length) :
      Does s (.write v i byte) { s with
        arrays := Function.update s.arrays b.data ((s.arrays b.data).set i byte)
        trace := s.trace ++ [.used b.data] }
  | offset {v : V} {value : ℕ} {b : Buffer} (hv : s.vars v = some b) :
      Does s (.offset v value)
        { s with vars := Function.update s.vars v (some { b with offset := value }) }
  | clear {v : V} {b : Buffer} (hv : s.vars v = some b) :
      Does s (.clear v) { s with
        vars := Function.update s.vars v (some { b with offset := 0 })
        arrays := Function.update s.arrays b.data
          (List.replicate b.length 0 ++ (s.arrays b.data).drop b.length)
        trace := s.trace ++ [.used b.data] }
  | destroy {v : V} {b : Buffer} (hv : s.vars v = some b) :
      Does s (.destroy v) { s with
        vars := Function.update s.vars v none
        trace := s.trace ++ [.freed b.data] }

theorem does_of_step (h : s.step statement = some s') : Does s statement s' := by
  cases statement with
  | new v length =>
    cases hv : s.vars v <;> rw [step, hv] at h <;> cases h
    exact .new hv
  | copyNew v w =>
    cases hv : s.vars v <;> cases hw : s.vars w <;> rw [step, hv, hw] at h <;> cases h
    exact .copyNew hv hw
  | moveNew v w =>
    cases hv : s.vars v <;> cases hw : s.vars w <;> rw [step, hv, hw] at h <;> cases h
    exact .moveNew hv hw
  | copy v w =>
    cases hv : s.vars v <;> cases hw : s.vars w <;> rw [step, hv, hw] at h <;> cases h
    split_ifs with heq
    · rw [heq]
      exact .copySelf hw
    · exact .copy heq hv hw
  | move v w =>
    cases hv : s.vars v <;> cases hw : s.vars w <;> rw [step, hv, hw] at h <;> cases h
    split_ifs with heq
    · rw [heq]
      exact .moveSelf hw
    · exact .move heq hv hw
  | write v i byte =>
    cases hv : s.vars v with
    | none =>
      rw [step, hv] at h
      cases h
    | some b =>
      rw [step, hv] at h
      dsimp only at h
      split_ifs at h with hi
      cases h
      exact .write hv hi
  | offset v value =>
    cases hv : s.vars v <;> rw [step, hv] at h <;> cases h
    exact .offset hv
  | clear v =>
    cases hv : s.vars v <;> rw [step, hv] at h <;> cases h
    exact .clear hv
  | destroy v =>
    cases hv : s.vars v <;> rw [step, hv] at h <;> cases h
    exact .destroy hv

omit [DecidableEq V] in
/-- A buffer that is declared is not one that is in scope. -/
theorem ne_of_none {v w : V} {b : Buffer} (hv : s.vars v = none) (hw : s.vars w = some b) :
    w ≠ v := by
  rintro rfl
  rw [hv] at hw
  cases hw

/-! ## Programs that do not move -/

/-- The buffers as variables that hold arrays. -/
def toStore (s : Buffers V) : Store V where
  slots v := (s.vars v).map Buffer.data
  next := s.next
  trace := s.trace

/-- What a statement does with the arrays. -/
def actions : Statement V → List (Action V)
  | .new v _ => [.create v true, .use v]
  | .copyNew v w => [.create v true, .use v, .use w]
  | .copy v w => if v = w then [] else [.free v, .create v true, .use v, .use w]
  | .write v _ _ | .clear v => [.use v]
  | .destroy v => [.free v, .create v false]
  | .offset _ _ | .moveNew _ _ | .move _ _ => []

/-- The arrays of the buffers in scope are live. -/
def statuses (s : Buffers V) (v : V) : Status := if (s.vars v).isSome then .live else .null

theorem slots_update {v : V} {b : Buffer} (hv : s.vars v = some b) (b' : Buffer)
    (hdata : b'.data = b.data) (u : V) : (Function.update s.vars v (some b') u).map Buffer.data =
      (s.vars u).map Buffer.data := by
  rw [Function.update_apply]
  split
  · rename_i heq
    rw [heq, hv, Option.map_some, Option.map_some, hdata]
  · rfl

/-- **What a statement does** with the arrays, unless it moves a buffer. -/
theorem toStore_step (h : s.step statement = some s') (hmoves : ¬ statement.Moves) :
    s'.toStore = s.toStore.run (actions statement) := by
  cases does_of_step h with
  | @new v length hv =>
    refine Store.ext (funext fun u ↦ ?_) rfl (by
      simp [toStore, construct, actions, Store.run, Store.step])
    simp only [toStore, construct, actions, Store.run, List.foldl, Store.step,
      Function.update_apply]
    split <;> rfl
  | @copyNew v w other hv hw =>
    have hne := ne_of_none hv hw
    refine Store.ext (funext fun u ↦ ?_) rfl (by
      simp [toStore, assign, actions, Store.run, Store.step, hw, Function.update_of_ne hne])
    simp only [toStore, assign, actions, Store.run, List.foldl, Store.step, Function.update_apply]
    split <;> rfl
  | moveNew hv hw => exact absurd trivial hmoves
  | copySelf hv =>
    rw [actions, if_pos rfl]
    rfl
  | @copy v w b other hne hv hw =>
    rw [actions, if_neg hne]
    refine Store.ext (funext fun u ↦ ?_) rfl (by
      simp [toStore, assign, Store.run, Store.step, hv, hw, Function.update_of_ne hne.symm])
    simp only [toStore, assign, Store.run, List.foldl, Store.step, Function.update_apply]
    split <;> rfl
  | moveSelf hv => rfl
  | move hne hv hw => exact absurd hne hmoves
  | write hv hi =>
    exact Store.ext rfl rfl (by simp [toStore, actions, Store.run, Store.step, hv])
  | @offset v value b hv =>
    exact Store.ext (funext (slots_update hv { b with offset := value } rfl)) rfl rfl
  | @clear v b hv =>
    exact Store.ext (funext (slots_update hv { b with offset := 0 } rfl)) rfl
      (by simp [toStore, actions, Store.run, Store.step, hv])
  | @destroy v b hv =>
    refine Store.ext (funext fun u ↦ ?_) rfl (by
      simp [toStore, actions, Store.run, Store.step, hv])
    simp only [toStore, actions, Store.run, List.foldl, Store.step, Function.update_apply]
    split <;> rfl

omit [DecidableEq V] in
theorem statuses_of_some {v : V} {b : Buffer} (hv : s.vars v = some b) : s.statuses v = .live := by
  rw [statuses, hv]
  rfl

omit [DecidableEq V] in
theorem statuses_of_none {v : V} (hv : s.vars v = none) : s.statuses v = .null := by
  rw [statuses, hv]
  rfl

theorem statuses_update_some {v : V} {b : Buffer}
    (hvars : s'.vars = Function.update s.vars v (some b)) :
    s'.statuses = Function.update s.statuses v .live := by
  funext u
  rw [statuses, hvars, Function.update_apply, Function.update_apply]
  split <;> rfl

theorem statuses_update_none {v : V} (hvars : s'.vars = Function.update s.vars v none) :
    s'.statuses = Function.update s.statuses v .null := by
  funext u
  rw [statuses, hvars, Function.update_apply, Function.update_apply]
  split <;> rfl

theorem statuses_construct (v : V) (length : ℕ) :
    (s.construct v length).statuses = Function.update s.statuses v .live :=
  statuses_update_some rfl

theorem statuses_assign (v : V) (old : Option ℕ) (other : Buffer) :
    (s.assign v old other).statuses = Function.update s.statuses v .live :=
  statuses_update_some rfl

theorem statuses_same {v : V} {b b' : Buffer} (hv : s.vars v = some b)
    (hvars : s'.vars = Function.update s.vars v (some b')) : s'.statuses = s.statuses := by
  rw [statuses_update_some hvars, ← statuses_of_some hv]
  exact Function.update_eq_self v s.statuses

/-- **A statement fits the statuses** of the arrays, unless it moves a buffer. -/
theorem allowed_step (h : s.step statement = some s') (hmoves : ¬ statement.Moves) :
    AllAllowed (actions statement) s.statuses ∧
      afterAll (actions statement) s.statuses = s'.statuses := by
  have hlive {v : V} {b : Buffer} (hv : s.vars v = some b) := statuses_of_some hv
  have hnull {v : V} (hv : s.vars v = none) := statuses_of_none hv
  cases does_of_step h with
  | @new v length hv =>
    refine ⟨?_, (statuses_construct v length).symm⟩
    simp [AllAllowed, actions, Action.Allowed, Action.after, hnull hv]
  | @copyNew v w other hv hw =>
    have hne := ne_of_none hv hw
    refine ⟨?_, (statuses_assign v none other).symm⟩
    simp [AllAllowed, actions, Action.Allowed, Action.after, hnull hv, hlive hw,
      Function.update_of_ne hne]
  | moveNew hv hw => exact absurd trivial hmoves
  | copySelf hv =>
    rw [actions, if_pos rfl]
    exact ⟨trivial, rfl⟩
  | @copy v w b other hne hv hw =>
    rw [actions, if_neg hne]
    refine ⟨?_, ?_⟩
    · simp [AllAllowed, Action.Allowed, Action.after, hlive hv, hlive hw, Status.free,
        Function.update_of_ne hne.symm]
    · rw [statuses_assign]
      simp [afterAll, Action.after]
  | moveSelf hv => exact ⟨trivial, rfl⟩
  | move hne hv hw => exact absurd hne hmoves
  | write hv hi =>
    refine ⟨?_, rfl⟩
    simp [AllAllowed, actions, Action.Allowed, hlive hv]
  | offset hv => exact ⟨trivial, (statuses_same hv rfl).symm⟩
  | clear hv =>
    refine ⟨?_, (statuses_same hv rfl).symm⟩
    simp [AllAllowed, actions, Action.Allowed, hlive hv]
  | @destroy v b hv =>
    refine ⟨?_, ?_⟩
    · simp [AllAllowed, actions, Action.Allowed, Action.after, hlive hv, Status.free]
    · refine Eq.trans ?_ (statuses_update_none (s := s) (v := v) rfl).symm
      simp [afterAll, actions, Action.after]

theorem toStore_run {statements : List (Statement V)} (h : s.run statements = some s')
    (hmoves : ∀ statement ∈ statements, ¬ statement.Moves) :
    s'.toStore = s.toStore.run (statements.flatMap actions) ∧
      AllAllowed (statements.flatMap actions) s.statuses ∧
      afterAll (statements.flatMap actions) s.statuses = s'.statuses := by
  induction statements generalizing s with
  | nil =>
    cases h
    exact ⟨rfl, trivial, rfl⟩
  | cons statement rest ih =>
    rw [run] at h
    obtain ⟨s₁, hstep, hrest⟩ := Option.bind_eq_some_iff.mp h
    obtain ⟨hmove, hmoves⟩ := List.forall_mem_cons.mp hmoves
    obtain ⟨hstore, hallowed, hafter⟩ := ih hrest hmoves
    obtain ⟨hfirst, hstatuses⟩ := allowed_step hstep hmove
    rw [List.flatMap_cons, Store.run_append, ← toStore_step hstep hmove, allAllowed_append,
      afterAll_append, hstatuses]
    exact ⟨hstore, ⟨hfirst, hallowed⟩, hafter⟩

/-! ## Programs that move -/

/-- Whoever holds an array deletes it: it is deleted twice now, or it will be. -/
def Doomed (array : ℕ) (s : Buffers V) : Prop :=
  2 ≤ s.trace.count (.freed array) ∨
    (1 ≤ s.trace.count (.freed array) ∧ ∃ v, s.toStore.slots v = some array) ∨
    ∃ v w, v ≠ w ∧ s.toStore.slots v = some array ∧ s.toStore.slots w = some array

omit [DecidableEq V] in
theorem slots_of_some {v : V} {b : Buffer} (hv : s.vars v = some b) :
    s.toStore.slots v = some b.data := congrArg (Option.map Buffer.data) hv

omit [DecidableEq V] in
theorem slots_of_none {v : V} (hv : s.vars v = none) : s.toStore.slots v = none :=
  congrArg (Option.map Buffer.data) hv

theorem slots_of_ne {u v : V} {b : Option Buffer} (hvars : s'.vars = Function.update s.vars v b)
    (hne : u ≠ v) : s'.toStore.slots u = s.toStore.slots u := by
  refine congrArg (Option.map Buffer.data) ?_
  rw [hvars, Function.update_of_ne hne]

/-- The other buffer keeps its array when it is moved. -/
theorem slots_assignMove {u v w : V} {old : Option ℕ} {other : Buffer}
    (hw : s.vars w = some other) (hne : u ≠ v) :
    (s.assignMove v old w other).toStore.slots u = s.toStore.slots u := by
  refine (congrArg (Option.map Buffer.data) (Function.update_of_ne hne _ _)).trans ?_
  exact slots_update hw ⟨0, 0, other.data⟩ rfl u

/-- **A buffer that stops holding an array deletes it**, and a statement is about one buffer. -/
theorem deletes_step (h : s.step statement = some s') (array : ℕ) :
    s.trace.count (.freed array) ≤ s'.trace.count (.freed array) ∧
    ∃ v, (∀ u, u ≠ v → s'.toStore.slots u = s.toStore.slots u) ∧
      (s.toStore.slots v = some array → s'.toStore.slots v ≠ some array →
        s.trace.count (.freed array) < s'.trace.count (.freed array)) := by
  have hnone {v : V} (hv : s.vars v = none) : s.toStore.slots v ≠ some array := by
    rw [slots_of_none hv]
    exact Option.some_ne_none array |>.symm
  have hfreed {v : V} {b : Buffer} (hv : s.vars v = some b) (hslot : s.toStore.slots v = some array)
      (more : List Event) : s.trace.count (.freed array) <
        (s.trace ++ .freed b.data :: more).count (.freed array) := by
    rw [slots_of_some hv] at hslot
    rw [Option.some.inj hslot, List.count_append, List.count_cons_self]
    omega
  have hmore (more : List Event) :
      s.trace.count (.freed array) ≤ (s.trace ++ more).count (.freed array) := by
    rw [List.count_append]
    exact Nat.le_add_right _ _
  cases does_of_step h with
  | @new v length hv =>
    exact ⟨hmore _, v, fun u ↦ slots_of_ne rfl, fun hslot ↦ absurd hslot (hnone hv)⟩
  | @copyNew v w other hv hw =>
    exact ⟨hmore _, v, fun u ↦ slots_of_ne rfl, fun hslot ↦ absurd hslot (hnone hv)⟩
  | @moveNew v w other hv hw =>
    exact ⟨hmore _, v, fun u ↦ slots_assignMove hw, fun hslot ↦ absurd hslot (hnone hv)⟩
  | @copySelf v b hv | @moveSelf v b hv =>
    exact ⟨Nat.le_refl _, v, fun u _ ↦ rfl, fun hslot hother ↦ absurd hslot hother⟩
  | @copy v w b other hne hv hw =>
    exact ⟨hmore _, v, fun u ↦ slots_of_ne rfl, fun hslot _ ↦ hfreed hv hslot _⟩
  | @move v w b other hne hv hw =>
    exact ⟨hmore _, v, fun u ↦ slots_assignMove hw, fun hslot _ ↦ hfreed hv hslot _⟩
  | @write v i byte b hv hi =>
    exact ⟨hmore _, v, fun u _ ↦ rfl, fun hslot hother ↦ absurd hslot hother⟩
  | @offset v value b hv =>
    have hsame := slots_update hv { b with offset := value } rfl v
    exact ⟨Nat.le_refl _, v, fun u ↦ slots_of_ne rfl,
      fun hslot hother ↦ absurd (hsame.trans hslot) hother⟩
  | @clear v b hv =>
    have hsame := slots_update hv { b with offset := 0 } rfl v
    exact ⟨hmore _, v, fun u ↦ slots_of_ne rfl,
      fun hslot hother ↦ absurd (hsame.trans hslot) hother⟩
  | @destroy v b hv =>
    exact ⟨hmore _, v, fun u ↦ slots_of_ne rfl, fun hslot _ ↦ hfreed hv hslot _⟩

theorem doomed_step {array : ℕ} (h : s.step statement = some s') (hs : s.Doomed array) :
    s'.Doomed array := by
  obtain ⟨hcount, v, hothers, hdeletes⟩ := deletes_step h array
  rcases hs with htwo | ⟨hone, u, hu⟩ | ⟨u, w, hne, hu, hw⟩
  · exact .inl (Nat.le_trans htwo hcount)
  · by_cases hkeeps : s'.toStore.slots u = some array
    · exact .inr (.inl ⟨Nat.le_trans hone hcount, u, hkeeps⟩)
    · have huv : u = v := by
        by_contra huv
        exact hkeeps ((hothers u huv).trans hu)
      subst huv
      exact .inl (Nat.lt_of_le_of_lt hone (hdeletes hu hkeeps))
  · by_cases huv : u = v
    · subst huv
      have hw' := (hothers w hne.symm).trans hw
      by_cases hkeeps : s'.toStore.slots u = some array
      · exact .inr (.inr ⟨u, w, hne, hkeeps, hw'⟩)
      · exact .inr (.inl ⟨Nat.lt_of_le_of_lt (Nat.zero_le _) (hdeletes hu hkeeps), w, hw'⟩)
    · have hu' := (hothers u huv).trans hu
      by_cases hkeeps : s'.toStore.slots w = some array
      · exact .inr (.inr ⟨u, w, hne, hu', hkeeps⟩)
      · have hwv : w = v := by
          by_contra hwv
          exact hkeeps ((hothers w hwv).trans hw)
        subst hwv
        exact .inr (.inl ⟨Nat.lt_of_le_of_lt (Nat.zero_le _) (hdeletes hw hkeeps), u, hu'⟩)

theorem doomed_run {array : ℕ} {statements : List (Statement V)} (h : s.run statements = some s')
    (hs : s.Doomed array) : s'.Doomed array := by
  induction statements generalizing s with
  | nil =>
    cases h
    exact hs
  | cons statement rest ih =>
    rw [run] at h
    obtain ⟨s₁, hstep, hrest⟩ := Option.bind_eq_some_iff.mp h
    exact ih hrest (doomed_step hstep hs)

/-- **A move dooms an array.** -/
theorem doomed_of_moves (h : s.step statement = some s') (hmoves : statement.Moves) :
    ∃ array, s'.Doomed array := by
  have hboth {v w : V} {old : Option ℕ} {other : Buffer} (hne : v ≠ w)
      (hw : s.vars w = some other) : (s.assignMove v old w other).Doomed other.data := by
    refine .inr (.inr ⟨v, w, hne, ?_, ?_⟩)
    · have hv : (s.assignMove v old w other).vars v = some other := by simp [assignMove]
      exact slots_of_some hv
    · exact (slots_assignMove hw hne.symm).trans (slots_of_some hw)
  cases does_of_step h with
  | @moveNew v w other hv hw =>
    exact ⟨_, hboth (ne_of_none hv hw).symm hw⟩
  | moveSelf hv => exact absurd rfl hmoves
  | move hne hv hw => exact ⟨_, hboth hne hw⟩
  | new _ | copyNew _ _ | copySelf _ | copy _ _ _ | write _ _ | offset _ | clear _ | destroy _ =>
    exact hmoves.elim

theorem doomed_of_run {statements : List (Statement V)} (h : s.run statements = some s')
    {statement : Statement V} (hmem : statement ∈ statements) (hmoves : statement.Moves) :
    ∃ array, s'.Doomed array := by
  induction statements generalizing s with
  | nil => cases hmem
  | cons first rest ih =>
    rw [run] at h
    obtain ⟨s₁, hstep, hrest⟩ := Option.bind_eq_some_iff.mp h
    rcases List.mem_cons.mp hmem with rfl | hmem
    · obtain ⟨array, hdoomed⟩ := doomed_of_moves hstep hmoves
      exact ⟨array, doomed_run hrest hdoomed⟩
    · exact ih hrest hmem

end Buffers

/-- **The arrays of a program** whose buffers have all gone out of scope: they are deleted once, and
not used after that, exactly if no buffer was moved.  If one was, it is not only that an array is
lost: one is passed on after it was deleted. -/
theorem buffers_iff {V : Type} [DecidableEq V] {statements : List (Statement V)} {s : Buffers V}
    (h : Buffers.empty.run statements = some s) (hscope : ∀ v, s.vars v = none) :
    (Orderly s.trace ↔ ∀ statement ∈ statements, ¬ statement.Moves) ∧
    (NotAfterFree s.trace ↔ ∀ statement ∈ statements, ¬ statement.Moves) := by
  have hkeeps (hmoves : ∀ statement ∈ statements, ¬ statement.Moves) : Orderly s.trace := by
    obtain ⟨hstore, hallowed, hafter⟩ := Buffers.toStore_run h hmoves
    have htrace : s.trace = (Store.empty.run (statements.flatMap Buffers.actions)).trace :=
      congrArg Store.trace hstore
    rw [htrace, orderly_run_iff]
    refine ⟨hallowed, fun v ↦ ?_⟩
    have hnull := congrFun hafter v
    rw [Buffers.statuses_of_none (hscope v)] at hnull
    intro hlive
    exact Status.noConfusion (hnull.symm.trans hlive)
  have hmoves (hafter : NotAfterFree s.trace) :
      ∀ statement ∈ statements, ¬ statement.Moves := by
    intro statement hmem hmoves
    obtain ⟨array, htwo | ⟨-, v, hv⟩ | ⟨v, w, -, hv, -⟩⟩ := Buffers.doomed_of_run h hmem hmoves
    · exact absurd (hafter.count_freed_le array) (Nat.not_le_of_lt htwo)
    · rw [Buffers.slots_of_none (hscope v)] at hv
      cases hv
    · rw [Buffers.slots_of_none (hscope v)] at hv
      cases hv
  exact ⟨⟨fun horderly ↦ hmoves horderly.notAfterFree, hkeeps⟩,
    ⟨hmoves, fun hmoves ↦ (hkeeps hmoves).notAfterFree⟩⟩

/-- A buffer is copied, and both go out of scope. -/
theorem buffers_copy : ∃ s : Buffers Bool,
    Buffers.empty.run [.new true 2, .copyNew false true, .write false 1 7, .copy true false,
      .destroy false, .destroy true] = some s ∧ Orderly s.trace := by
  have hrun : Buffers.empty.run [.new true 2, .copyNew false true, .write false 1 7,
    .copy true false, .destroy false, .destroy true] = some _ := rfl
  refine ⟨_, hrun, (buffers_iff hrun ?_).1.mpr ?_⟩
  · exact fun v ↦ by cases v <;> rfl
  · simp [Statement.Moves]

/-! ## Values -/

namespace Buffers

variable {V : Type} [DecidableEq V] {s s' : Buffers V} {statement : Statement V}

/-- Every buffer has an array of its own, which is as long as it should be. -/
structure Own (s : Buffers V) : Prop where
  /-- No array is held twice. -/
  held : WellFormed s.toStore
  /-- The arrays are as long as the buffers. -/
  filled : ∀ v b, s.vars v = some b → (s.arrays b.data).length = b.length

omit [DecidableEq V] in
theorem values_of_none {v : V} (hv : s.vars v = none) : s.values v = none := by
  rw [values, hv]
  rfl

omit [DecidableEq V] in
theorem Own.values_of_some (hs : s.Own) {v : V} {b : Buffer} (hv : s.vars v = some b) :
    s.values v = some ⟨s.arrays b.data, b.offset⟩ := by
  rw [values, hv, Option.map_some, ← hs.filled v b hv, List.take_length]

omit [DecidableEq V] in
theorem Own.data_ne_next (hs : s.Own) {v : V} {b : Buffer} (hv : s.vars v = some b) :
    b.data ≠ s.next :=
  Nat.ne_of_lt (hs.held.lt_next (slots_of_some hv))

omit [DecidableEq V] in
theorem Own.data_ne (hs : s.Own) {u v : V} {b c : Buffer} (hu : s.vars u = some b)
    (hv : s.vars v = some c) (hne : u ≠ v) : b.data ≠ c.data := by
  intro heq
  refine hne (hs.held.distinct u v c.data ?_ (slots_of_some hv))
  rw [← heq]
  exact slots_of_some hu

/-- A buffer whose array and members are not touched keeps its value. -/
theorem values_update {v : V} {x : Option BufferValue} (hv : s'.values v = x)
    (hothers : ∀ u, u ≠ v → s'.vars u = s.vars u ∧
      ∀ b, s.vars u = some b → s'.arrays b.data = s.arrays b.data) :
    s'.values = Function.update s.values v x := by
  funext u
  rw [Function.update_apply]
  split_ifs with heq
  · rw [heq, hv]
  · obtain ⟨hvars, harrays⟩ := hothers u heq
    rw [values, values, hvars]
    cases hu : s.vars u with
    | none => rfl
    | some b => rw [Option.map_some, Option.map_some, harrays b hu]

omit [DecidableEq V] in
theorem Own.filled_update (hs : s.Own) {v : V}
    (hv : ∀ b, s'.vars v = some b → (s'.arrays b.data).length = b.length)
    (hothers : ∀ u, u ≠ v → s'.vars u = s.vars u ∧
      ∀ b, s.vars u = some b → s'.arrays b.data = s.arrays b.data) :
    ∀ u b, s'.vars u = some b → (s'.arrays b.data).length = b.length := by
  intro u b hu
  by_cases heq : u = v
  · subst heq
    exact hv b hu
  · obtain ⟨hvars, harrays⟩ := hothers u heq
    rw [hvars] at hu
    rw [harrays b hu]
    exact hs.filled u b hu

/-- What a statement leaves alone: all the other buffers, and their arrays. -/
theorem Own.others_step (hs : s.Own) (h : s.step statement = some s')
    (hmoves : ¬ statement.Moves) (u : V) (hne : u ≠ statement.target) :
    s'.vars u = s.vars u ∧ ∀ b, s.vars u = some b → s'.arrays b.data = s.arrays b.data := by
  cases does_of_step h with
  | new hv | copyNew hv hw | copy hvw hv hw =>
    exact ⟨Function.update_of_ne hne _ _,
      fun b hu ↦ Function.update_of_ne (hs.data_ne_next hu) _ _⟩
  | moveNew hv hw => exact absurd trivial hmoves
  | copySelf hv | moveSelf hv => exact ⟨rfl, fun b _ ↦ rfl⟩
  | move hvw hv hw => exact absurd hvw hmoves
  | write hv hi => exact ⟨rfl, fun c hu ↦ Function.update_of_ne (hs.data_ne hu hv hne) _ _⟩
  | offset hv | destroy hv => exact ⟨Function.update_of_ne hne _ _, fun c hu ↦ rfl⟩
  | clear hv =>
    exact ⟨Function.update_of_ne hne _ _,
      fun c hu ↦ Function.update_of_ne (hs.data_ne hu hv hne) _ _⟩

/-- **Every buffer keeps an array of its own**, unless one is moved. -/
theorem Own.step (hs : s.Own) (h : s.step statement = some s') (hmoves : ¬ statement.Moves) :
    s'.Own where
  held := by
    rw [toStore_step h hmoves]
    exact wellFormed_run hs.held _
  filled := by
    refine hs.filled_update (fun b hb ↦ ?_) (hs.others_step h hmoves)
    cases does_of_step h with
    | new hv =>
      simp only [construct, Statement.target, Function.update_self] at hb ⊢
      cases hb
      simp
    | @copyNew v w other hv hw | @copy v w _ other _ _ hw =>
      simp only [assign, Statement.target, Function.update_self] at hb ⊢
      cases hb
      have hlength := hs.filled w other hw
      simp [hlength]
    | moveNew hv hw => exact absurd trivial hmoves
    | copySelf hv | moveSelf hv => exact hs.filled _ b hb
    | move hvw hv hw => exact absurd hvw hmoves
    | @write v i byte c hv hi =>
      have hlength := hs.filled v c hv
      simp only [Statement.target, hv] at hb ⊢
      cases hb
      simp [hlength]
    | @offset v value c hv =>
      have hlength := hs.filled v c hv
      simp only [Statement.target, Function.update_self] at hb ⊢
      cases hb
      exact hlength
    | @clear v c hv =>
      have hlength := hs.filled v c hv
      simp only [Statement.target, Function.update_self] at hb ⊢
      cases hb
      simp [hlength]
    | destroy hv =>
      simp only [Statement.target, Function.update_self] at hb
      cases hb

/-- A copy has the value of the other buffer. -/
theorem values_assign {v w : V} (old : Option ℕ) {other : Buffer} (hw : s.vars w = some other) :
    (s.assign v old other).values v = s.values w := by
  simp [values, assign, hw, List.take_take]

/-- **A statement does to the values what it should**, unless it moves a buffer. -/
theorem Own.valueStep_eq (hs : s.Own) (h : s.step statement = some s')
    (hmoves : ¬ statement.Moves) : valueStep s.values statement = some s'.values := by
  have hs' := hs.step h hmoves
  rw [values_update (s := s) rfl (hs.others_step h hmoves)]
  cases does_of_step h with
  | @new v length hv =>
    have hvalue : (s.construct v length).values v = some ⟨List.replicate length 0, 0⟩ := by
      simp [values, construct]
    simp only [valueStep, values_of_none hv, Statement.target, hvalue]
  | @copyNew v w other hv hw =>
    have hvalue := values_assign (v := v) none hw
    rw [hs.values_of_some hw] at hvalue
    simp only [valueStep, values_of_none hv, hs.values_of_some hw, Statement.target, hvalue]
  | moveNew hv hw => exact absurd trivial hmoves
  | @copySelf v b hv =>
    simp only [valueStep, hs.values_of_some hv, Statement.target]
  | @copy v w b other hvw hv hw =>
    have hvalue := values_assign (v := v) (some b.data) hw
    rw [hs.values_of_some hw] at hvalue
    simp only [valueStep, hs.values_of_some hv, hs.values_of_some hw, Statement.target, hvalue]
  | @moveSelf v b hv =>
    simp only [valueStep, hs.values_of_some hv, Statement.target, if_true]
    rw [← hs.values_of_some hv, Function.update_eq_self]
  | move hvw hv hw => exact absurd hvw hmoves
  | @write v i byte b hv hi =>
    have hvalue := hs'.values_of_some hv
    rw [← hs.filled v b hv] at hi
    simp only [valueStep, hs.values_of_some hv, if_pos hi, Statement.target, hvalue,
      Function.update_self]
  | @offset v value b hv =>
    have hvalue := hs'.values_of_some (Function.update_self v _ s.vars)
    simp only [valueStep, hs.values_of_some hv, Statement.target, hvalue]
  | @clear v b hv =>
    have hvalue := hs'.values_of_some (Function.update_self v _ s.vars)
    have hdrop : (s.arrays b.data).drop b.length = [] := by
      rw [← hs.filled v b hv, List.drop_length]
    simp only [valueStep, hs.values_of_some hv, Statement.target, hvalue]
    simp [hdrop, hs.filled v b hv]
  | @destroy v b hv =>
    have hvalue := values_of_none (s := { s with
      vars := Function.update s.vars v none
      trace := s.trace ++ [.freed b.data] }) (Function.update_self v none s.vars)
    simp only [valueStep, hs.values_of_some hv, Statement.target, hvalue]

/-- What does not fit the scopes does not fit them for values. -/
theorem Own.valueStep_none (hs : s.Own) (h : s.step statement = none)
    (hmoves : ¬ statement.Moves) : valueStep s.values statement = none := by
  have hnone {v : V} (hv : s.vars v = none) := values_of_none hv
  have hsome {v : V} {b : Buffer} (hv : s.vars v = some b) := hs.values_of_some hv
  cases statement with
  | new v length =>
    cases hv : s.vars v with
    | none => simp [Buffers.step, hv] at h
    | some b => rw [valueStep, hsome hv]
  | copyNew v w =>
    cases hv : s.vars v with
    | some b => rw [valueStep, hsome hv]
    | none =>
      cases hw : s.vars w with
      | none => rw [valueStep, hnone hv, hnone hw]
      | some other => simp [Buffers.step, hv, hw] at h
  | moveNew v w => exact absurd trivial hmoves
  | copy v w | move v w =>
    cases hv : s.vars v with
    | none => rw [valueStep, hnone hv]
    | some b =>
      cases hw : s.vars w with
      | none => rw [valueStep, hsome hv, hnone hw]
      | some other => simp [Buffers.step, hv, hw] at h
  | write v i byte =>
    cases hv : s.vars v with
    | none => rw [valueStep, hnone hv]
    | some b =>
      simp only [Buffers.step, hv] at h
      rw [valueStep, hsome hv]
      dsimp only
      rw [hs.filled v b hv]
      split_ifs at h ⊢ with hi
      rfl
  | offset v value | clear v | destroy v =>
    cases hv : s.vars v with
    | none => rw [valueStep, hnone hv]
    | some b => simp [Buffers.step, hv] at h

theorem Own.values_run (hs : s.Own) {statements : List (Statement V)}
    (hmoves : ∀ statement ∈ statements, ¬ statement.Moves) :
    (s.run statements).map values = valueRun s.values statements := by
  induction statements generalizing s with
  | nil => rfl
  | cons statement rest ih =>
    obtain ⟨hmove, hrest⟩ := List.forall_mem_cons.mp hmoves
    rw [run, valueRun]
    cases hstep : s.step statement with
    | none =>
      rw [hs.valueStep_none hstep hmove]
      rfl
    | some s₁ =>
      rw [hs.valueStep_eq hstep hmove, Option.bind_some, Option.bind_some]
      exact ih (hs.step hstep hmove) hrest

end Buffers

/-- **Buffers are values** for programs that do not move them: these see of their buffers exactly
what they would see if there were no arrays behind them. -/
theorem buffers_are_values {V : Type} [DecidableEq V] {statements : List (Statement V)}
    (hmoves : ∀ statement ∈ statements, ¬ statement.Moves) :
    (Buffers.empty.run statements).map Buffers.values = valueRun (fun _ ↦ none) statements := by
  have hempty : (Buffers.empty : Buffers V).Own :=
    ⟨wellFormed_empty, fun v b hv ↦ by cases hv⟩
  exact hempty.values_run hmoves

/-- A copy is not changed when the other buffer is. -/
theorem buffers_are_values_copy :
    (Buffers.empty.run [.new true 2, .copyNew false true, .write true 1 7]).map Buffers.values =
      some fun v : Bool ↦ some (if v then ⟨[0, 7], 0⟩ else ⟨[0, 0], 0⟩) := by
  refine (buffers_are_values (by simp [Statement.Moves])).trans (congrArg some ?_)
  funext v
  cases v <;> rfl

end Coap
