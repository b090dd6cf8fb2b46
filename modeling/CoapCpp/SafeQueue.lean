import CoapCpp.Interleaving
import Mathlib.Logic.Function.Basic

/-!
# The queue between two threads

`SafeQueue<T *>` of `src/unix/unix_safe_queue.h`: a `std::queue` of pointers behind a mutex, and a
condition variable for the threads that wait until there is something in it.

Threads call the methods of one queue.  What a thread does inside a method is cut at the places
where another thread can come in between: at the mutex, when it falls asleep on the condition
variable, and between `unlock` and `notify_one`.

* `linearizable`: every run of the threads is a run of a plain queue, in which every method takes
  effect at once, somewhere between its call and its return.
* `stuck_iff`: if at most one thread waits, nobody waits for anything but a value; a wake-up is
  never lost.
-/

set_option autoImplicit false

namespace Coap

open Interleaving

namespace SafeQueue

variable {τ α : Type*}

/-! ## The methods -/

/-- A method that is called, with its argument. -/
inductive Call (α : Type*) where
  /-- `push`, of a pointer that may be null -/
  | push (value : Option α)
  /-- `pop` -/
  | pop
  /-- `front` -/
  | front
  /-- `empty` -/
  | empty
  /-- `size` -/
  | size
  /-- `wait_wail_empty` -/
  | waitWailEmpty
  /-- `wait_wail_empty_for` -/
  | waitWailEmptyFor
deriving DecidableEq

/-- What a method gives back. -/
inductive Reply (α : Type*) where
  /-- Nothing, and no error. -/
  | void
  /-- `ec` is set to `EFAULT`. -/
  | efault
  /-- A pointer, which may be null. -/
  | pointer (value : Option α)
  /-- A truth value. -/
  | bool (state : Bool)
  /-- A number. -/
  | size (size : ℕ)
deriving DecidableEq

/-- The method waits for a value. -/
def Call.Waits : Call α → Prop
  | .waitWailEmpty | .waitWailEmptyFor => True
  | _ => False

instance : DecidablePred (Call.Waits (α := α)) := fun c ↦ by
  cases c <;> unfold Call.Waits <;> infer_instance

/-- What a method does to `m_queue` while it has the mutex, or nothing if it has to wait. -/
def critical (queue : List α) : Call α → Option (List α × Reply α)
  | .push none => some (queue, .efault)
  | .push (some value) => some (queue ++ [value], .void)
  | .pop =>
    match queue with
    | [] => some ([], .pointer none)
    | value :: queue => some (queue, .pointer (some value))
  | .front =>
    match queue with
    | [] => some ([], .pointer none)
    | value :: rest => some (value :: rest, .pointer (some value))
  | .empty => some (queue, .bool queue.isEmpty)
  | .size => some (queue, .size queue.length)
  | .waitWailEmpty | .waitWailEmptyFor => if queue.isEmpty then none else some (queue, .void)

/-! ## The threads -/

/-- Where a thread is. -/
inductive Pc (α : Type*) where
  /-- In no method. -/
  | idle
  /-- At the beginning of a method. -/
  | entered (c : Call α)
  /-- It has the mutex.  `wait_for` may have run out of time. -/
  | locked (c : Call α) (expired : Bool)
  /-- It sleeps in `m_cv.wait`. -/
  | asleep (c : Call α)
  /-- It was woken, and needs the mutex again. -/
  | woken (c : Call α) (expired : Bool)
  /-- It has done its work, and still has the mutex. -/
  | finished (c : Call α) (r : Reply α)
  /-- It has given the mutex back, in front of `m_cv.notify_one`. -/
  | notifying (c : Call α) (r : Reply α)
  /-- At the end of a method. -/
  | returning (c : Call α) (r : Reply α)

/-- What a thread that has the mutex does when it gives it back. -/
def Pc.unlocked (c : Call α) (r : Reply α) : Pc α :=
  match c with
  | .push _ => .notifying c r
  | _ => .returning c r

/-- The queue, and the threads that use it. -/
structure State (τ α : Type*) where
  /-- `m_queue` -/
  queue : List α
  /-- The thread that has `m_mutex`. -/
  owner : Option τ
  /-- Where the threads are. -/
  pc : τ → Pc α

/-- A new queue. -/
def State.start : State τ α where
  queue := []
  owner := none
  pc _ := .idle

/-- What a thread may do. -/
inductive Event (τ α : Type*) where
  /-- It calls a method. -/
  | call (t : τ) (c : Call α)
  /-- It takes the mutex. -/
  | lock (t : τ)
  /-- It does what the method is for. -/
  | effect (t : τ) (c : Call α) (r : Reply α)
  /-- It falls asleep, and gives the mutex back. -/
  | sleep (t : τ)
  /-- It wakes up although nobody has notified it, perhaps because its time has expired. -/
  | wake (t : τ) (expired : Bool)
  /-- It gives the mutex back. -/
  | unlock (t : τ)
  /-- It notifies the condition variable, which wakes a thread if one sleeps. -/
  | notify (t : τ) (u : Option τ)
  /-- The method returns. -/
  | ret (t : τ) (c : Call α) (r : Reply α)

variable [DecidableEq τ]

/-- A thread is somewhere else. -/
def State.goto (s : State τ α) (t : τ) (pc : Pc α) : State τ α :=
  { s with pc := Function.update s.pc t pc }

/-- The steps of the threads. -/
inductive Step : Event τ α → State τ α → State τ α → Prop
  | call {s : State τ α} {t : τ} {c : Call α} (here : s.pc t = .idle) :
      Step (.call t c) s (s.goto t (.entered c))
  /-- `push` does not take the mutex for a null pointer. -/
  | refuse {s : State τ α} {t : τ} (here : s.pc t = .entered (.push none)) :
      Step (.effect t (.push none) .efault) s (s.goto t (.returning (.push none) .efault))
  | lock {s : State τ α} {t : τ} {c : Call α} (here : s.pc t = .entered c)
      (value : c ≠ .push none) (unlocked : s.owner = none) :
      Step (.lock t) s { s.goto t (.locked c false) with owner := some t }
  | relock {s : State τ α} {t : τ} {c : Call α} {expired : Bool}
      (here : s.pc t = .woken c expired) (unlocked : s.owner = none) :
      Step (.lock t) s { s.goto t (.locked c expired) with owner := some t }
  | effect {s : State τ α} {t : τ} {c : Call α} {expired : Bool} {queue : List α} {r : Reply α}
      (here : s.pc t = .locked c expired) (done : critical s.queue c = some (queue, r)) :
      Step (.effect t c r) s { s.goto t (.finished c r) with queue := queue }
  /-- `wait_for` ends when its time has expired, whatever the queue is. -/
  | expire {s : State τ α} {t : τ} (here : s.pc t = .locked .waitWailEmptyFor true)
      (must : critical s.queue .waitWailEmptyFor = none) :
      Step (.effect t .waitWailEmptyFor .void) s (s.goto t (.finished .waitWailEmptyFor .void))
  | sleep {s : State τ α} {t : τ} {c : Call α} (here : s.pc t = .locked c false)
      (must : critical s.queue c = none) :
      Step (.sleep t) s { s.goto t (.asleep c) with owner := none }
  | wake {s : State τ α} {t : τ} {c : Call α} {expired : Bool} (here : s.pc t = .asleep c)
      (time : expired = true → c = .waitWailEmptyFor) :
      Step (.wake t expired) s (s.goto t (.woken c expired))
  | unlock {s : State τ α} {t : τ} {c : Call α} {r : Reply α} (here : s.pc t = .finished c r) :
      Step (.unlock t) s { s.goto t (.unlocked c r) with owner := none }
  | notifyOne {s : State τ α} {t u : τ} {c c' : Call α} {r : Reply α}
      (here : s.pc t = .notifying c r) (sleeper : s.pc u = .asleep c') :
      Step (.notify t (some u)) s ((s.goto t (.returning c r)).goto u (.woken c' false))
  | notifyNone {s : State τ α} {t : τ} {c : Call α} {r : Reply α}
      (here : s.pc t = .notifying c r) (nobody : ∀ u c', s.pc u ≠ .asleep c') :
      Step (.notify t none) s (s.goto t (.returning c r))
  | ret {s : State τ α} {t : τ} {c : Call α} {r : Reply α} (here : s.pc t = .returning c r) :
      Step (.ret t c r) s (s.goto t .idle)

@[simp] theorem goto_queue (s : State τ α) (t : τ) (pc : Pc α) :
    (s.goto t pc).queue = s.queue := rfl

@[simp] theorem goto_owner (s : State τ α) (t : τ) (pc : Pc α) :
    (s.goto t pc).owner = s.owner := rfl

@[simp] theorem goto_pc_self (s : State τ α) (t : τ) (pc : Pc α) : (s.goto t pc).pc t = pc :=
  Function.update_self ..

theorem goto_pc_of_ne (s : State τ α) {t u : τ} (pc : Pc α) (h : u ≠ t) :
    (s.goto t pc).pc u = s.pc u := Function.update_of_ne h ..

theorem goto_pc (s : State τ α) (t u : τ) (pc : Pc α) :
    (s.goto t pc).pc u = if u = t then pc else s.pc u := Function.update_apply ..

/-! ## A plain queue -/

/-- What the queue is for, as if there were no threads. -/
inductive Fifo : Call α × Reply α → List α → List α → Prop
  | push (value : α) (queue : List α) :
      Fifo (.push (some value), .void) queue (queue ++ [value])
  | refuse (queue : List α) : Fifo (.push none, .efault) queue queue
  | pop (value : α) (queue : List α) : Fifo (.pop, .pointer (some value)) (value :: queue) queue
  | popEmpty : Fifo (.pop, .pointer none) [] []
  | front (queue : List α) : Fifo (.front, .pointer queue.head?) queue queue
  | empty (queue : List α) : Fifo (.empty, .bool queue.isEmpty) queue queue
  | size (queue : List α) : Fifo (.size, .size queue.length) queue queue
  /-- One can only wait for a value. -/
  | waitWailEmpty {queue : List α} (some : queue ≠ []) : Fifo (.waitWailEmpty, .void) queue queue
  /-- With a time limit one cannot rely on it. -/
  | waitWailEmptyFor (queue : List α) : Fifo (.waitWailEmptyFor, .void) queue queue

/-- The values that are put into a queue. -/
def pushed : Call α × Reply α → List α
  | (.push (some value), .void) => [value]
  | _ => []

/-- The values that are taken out of a queue. -/
def popped : Call α × Reply α → List α
  | (.pop, .pointer (some value)) => [value]
  | _ => []

/-- **A plain queue keeps the order**: what was put in is what was taken out and what is left. -/
theorem fifo_order {ops : List (Call α × Reply α)} {queue queue' : List α}
    (h : Run Fifo queue ops queue') :
    queue ++ ops.flatMap pushed = ops.flatMap popped ++ queue' := by
  induction h with
  | start => simp
  | next _ one ih =>
    rw [List.flatMap_append, List.flatMap_append, ← List.append_assoc, ih]
    cases one <;> simp [pushed, popped]

theorem fifo_of_critical {queue queue' : List α} {c : Call α} {r : Reply α}
    (h : critical queue c = some (queue', r)) : Fifo (c, r) queue queue' := by
  cases c with
  | push value =>
    cases value <;> cases h
    · exact .refuse queue
    · exact .push _ queue
  | pop =>
    cases queue <;> cases h
    · exact .popEmpty
    · exact .pop _ _
  | front =>
    cases queue <;> cases h
    · exact .front []
    · exact .front (_ :: _)
  | empty => cases h; exact .empty queue
  | size => cases h; exact .size queue
  | waitWailEmpty =>
    cases queue <;> cases h
    exact .waitWailEmpty (List.cons_ne_nil _ _)
  | waitWailEmptyFor =>
    cases queue <;> cases h
    exact .waitWailEmptyFor _

/-! ## Every method takes effect at once -/

/-- The effect of an event on the queue. -/
def Event.effects : Event τ α → List (Call α × Reply α)
  | .effect _ c r => [(c, r)]
  | _ => []

/-- What can be seen of a method. -/
inductive Visible (α : Type*) where
  /-- Its call. -/
  | call (c : Call α)
  /-- Its effect. -/
  | effect (c : Call α) (r : Reply α)
  /-- Its return. -/
  | ret (c : Call α) (r : Reply α)

/-- What can be seen of the methods that a thread calls. -/
def Event.visible (t : τ) : Event τ α → List (Visible α)
  | .call u c => if u = t then [.call c] else []
  | .effect u c r => if u = t then [.effect c r] else []
  | .ret u c r => if u = t then [.ret c r] else []
  | _ => []

/-- A method from its call to its return. -/
def whole (p : Call α × Reply α) : List (Visible α) :=
  [.call p.1, .effect p.1 p.2, .ret p.1 p.2]

/-- What can be seen of the method that a thread is in. -/
def Pc.pending : Pc α → List (Visible α)
  | .idle => []
  | .entered c | .locked c _ | .asleep c | .woken c _ => [.call c]
  | .finished c r | .notifying c r | .returning c r => [.call c, .effect c r]

theorem pending_unlocked (c : Call α) (r : Reply α) :
    (Pc.unlocked c r).pending = [.call c, .effect c r] := by
  cases c <;> rfl

/-- A step goes on with the method that the thread is in, or ends it. -/
theorem pending_step {e : Event τ α} {s s' : State τ α} (h : Step e s s') (t : τ) :
    (s'.pc t).pending = (s.pc t).pending ++ e.visible t ∨
      (s'.pc t).pending = [] ∧ ∃ p, (s.pc t).pending ++ e.visible t = whole p := by
  cases h with
  | @ret _ u c r here =>
    by_cases htu : t = u
    · subst htu
      exact .inr ⟨by simp [Pc.pending], (c, r), by simp [here, Pc.pending, Event.visible, whole]⟩
    · exact .inl (by simp [goto_pc_of_ne _ _ htu, Event.visible, Ne.symm htu])
  | @notifyOne _ u v c c' r here sleeper =>
    refine .inl ?_
    rw [goto_pc, goto_pc]
    split
    · simp [*, Pc.pending, Event.visible]
    · split <;> simp [*, Pc.pending, Event.visible]
  | @unlock _ u c r here =>
    by_cases htu : t = u
    · subst htu
      refine .inl ?_
      change ((s.goto t (Pc.unlocked c r)).pc t).pending = _
      rw [goto_pc_self, pending_unlocked, here]
      rfl
    · simp [goto_pc_of_ne _ _ htu, Event.visible]
  | @call _ u _ here | @refuse _ u here | @lock _ u _ here | @relock _ u _ _ here
  | @effect _ u _ _ _ _ here | @expire _ u here | @sleep _ u _ here | @wake _ u _ _ here
  | @notifyNone _ u _ _ here =>
    by_cases htu : t = u
    · subst htu
      simp [here, Pc.pending, Event.visible]
    · simp [goto_pc_of_ne _ _ htu, Event.visible, Ne.symm htu]

/-- A step has its effect on the queue, and no other one. -/
theorem queue_step {e : Event τ α} {s s' : State τ α} (h : Step e s s') :
    Run Fifo s.queue e.effects s'.queue := by
  cases h with
  | effect _ done => exact Run.one (fifo_of_critical done)
  | refuse => exact Run.one (.refuse _)
  | expire => exact Run.one (.waitWailEmptyFor _)
  | call | lock | relock | sleep | wake | unlock | notifyOne | notifyNone | ret => exact .start

theorem simulation :
    Simulation (Step (τ := τ)) Fifo Event.effects fun s (queue : List α) ↦ s.queue = queue where
  follow := by
    rintro e s s' _ rfl h
    exact ⟨s'.queue, queue_step h, rfl⟩

/-- **The queue is linearizable.**  Whatever the threads do, and in whatever order they come, what
they get is what a plain queue gives, every method of a thread takes effect once, between its call
and its return, and no value is lost, doubled or overtaken. -/
theorem linearizable {es : List (Event τ α)} {s : State τ α} (h : Run Step State.start es s) :
    Run Fifo [] (es.flatMap Event.effects) s.queue ∧
    (∀ t, ∃ methods : List (Call α × Reply α),
      es.flatMap (Event.visible t) = methods.flatMap whole ++ (s.pc t).pending) ∧
    (es.flatMap Event.effects).flatMap pushed =
      (es.flatMap Event.effects).flatMap popped ++ s.queue := by
  have hfifo : Run Fifo [] (es.flatMap Event.effects) s.queue := by
    obtain ⟨queue, hrun, rfl⟩ := simulation.run rfl h
    exact hrun
  refine ⟨hfifo, fun t ↦ ?_, by simpa using fifo_order hfifo⟩
  refine h.invariant (I := fun es s ↦ ∃ methods : List (Call α × Reply α),
    es.flatMap (Event.visible t) = methods.flatMap whole ++ (s.pc t).pending) ⟨[], rfl⟩ ?_
  rintro es e s s' - ⟨methods, hmethods⟩ hstep
  rw [List.flatMap_append, List.flatMap_singleton, hmethods, List.append_assoc]
  rcases pending_step hstep t with hgoes | ⟨hends, p, hp⟩
  · exact ⟨methods, by rw [hgoes]⟩
  · exact ⟨methods ++ [p], by rw [hp, hends]; simp⟩

/-- Thread 0 puts a value in, and thread 1 takes it out in front of the `notify_one` of
thread 0. -/
theorem linearizable_push_pop : ∃ s : State ℕ ℕ,
    Run Fifo [] [(.push (some 7), .void), (.pop, .pointer (some 7))] s.queue ∧ s.queue = [] := by
  have h0 : Run Step (State.start : State ℕ ℕ) [] _ := Run.start
  have h1 := h0.next (.call (t := 0) (c := .push (some 7)) rfl)
  have h2 := h1.next (.lock (t := 0) (c := .push (some 7)) rfl (by decide) rfl)
  have h3 := h2.next (.effect (t := 0) (c := .push (some 7)) (r := .void) rfl rfl)
  have h4 := h3.next (.call (t := 1) (c := .pop) rfl)
  have h5 := h4.next (.unlock (t := 0) (c := .push (some 7)) (r := .void) rfl)
  have h6 := h5.next (.lock (t := 1) (c := .pop) rfl (by decide) rfl)
  have h7 := h6.next (.effect (t := 1) (c := .pop) (r := .pointer (some 7)) rfl rfl)
  exact ⟨_, (linearizable h7).1, rfl⟩

/-! ## No wake-up is lost -/

/-- The thread has the mutex. -/
def Pc.Holds : Pc α → Prop
  | .locked _ _ | .finished _ _ => True
  | _ => False

/-- The thread is going to notify the condition variable. -/
def Pc.Notifies : Pc α → Prop
  | .finished (.push _) _ | .notifying _ _ => True
  | _ => False

/-- The method that a thread is in, as long as it may still have to wait. -/
def Pc.method : Pc α → Option (Call α)
  | .entered c | .locked c _ | .asleep c | .woken c _ => some c
  | _ => none

/-- The thread is in a method whose time has expired. -/
def Pc.Expired (c : Call α) : Pc α → Prop
  | .locked c' true | .woken c' true => c' = c
  | _ => False

/-- The mutex belongs to the thread that says so. -/
def Exclusive (s : State τ α) : Prop := ∀ t, s.owner = some t ↔ (s.pc t).Holds

/-- A thread that goes to another place, where it has the mutex if it had it before. -/
theorem Exclusive.goto {s : State τ α} (h : Exclusive s) {t : τ} {pc : Pc α}
    (hpc : (s.pc t).Holds ↔ pc.Holds) : Exclusive (s.goto t pc) := by
  intro u
  rw [goto_owner, goto_pc]
  split
  · subst u
    exact (h t).trans hpc
  · exact h u

theorem Exclusive.take {s : State τ α} (h : Exclusive s) (hnone : s.owner = none) {t : τ}
    {pc : Pc α} (hpc : pc.Holds) : Exclusive { s.goto t pc with owner := some t } := by
  intro u
  change some t = some u ↔ ((s.goto t pc).pc u).Holds
  rw [goto_pc]
  split
  · subst u
    exact iff_of_true rfl hpc
  · next hut =>
    refine iff_of_false (fun htu ↦ hut (Option.some.inj htu).symm) fun hu ↦ ?_
    rw [← h u, hnone] at hu
    cases hu

theorem Exclusive.give {s : State τ α} (h : Exclusive s) {t : τ} (ht : (s.pc t).Holds) {pc : Pc α}
    (hpc : ¬ pc.Holds) : Exclusive { s.goto t pc with owner := none } := by
  intro u
  change none = some u ↔ ((s.goto t pc).pc u).Holds
  rw [goto_pc]
  split
  · exact iff_of_false nofun hpc
  · next hut =>
    refine iff_of_false nofun fun hu ↦ hut ?_
    exact Option.some.inj (((h u).mpr hu).symm.trans ((h t).mpr ht))

theorem holds_unlocked (c : Call α) (r : Reply α) : ¬ (Pc.unlocked c r).Holds := by
  cases c <;> exact id

/-- **Mutual exclusion** is kept by every step. -/
theorem exclusive_step {e : Event τ α} {s s' : State τ α} (h : Step e s s') (hs : Exclusive s) :
    Exclusive s' := by
  cases h with
  | lock _ _ unlocked | relock _ unlocked => exact hs.take unlocked trivial
  | sleep here => exact hs.give (by rw [here]; trivial) id
  | unlock here => exact hs.give (by rw [here]; trivial) (holds_unlocked _ _)
  | effect here | expire here => exact hs.goto (by rw [here]; exact iff_of_true trivial trivial)
  | notifyOne here sleeper =>
    refine (hs.goto (by rw [here]; exact Iff.rfl)).goto ?_
    rw [goto_pc]
    split
    · exact Iff.rfl
    · rw [sleeper]
      exact Iff.rfl
  | call here | refuse here | wake here | notifyNone here | ret here =>
    exact hs.goto (by rw [here]; exact Iff.rfl)

/-- Only the thread `w` calls a method that waits. -/
def OnlyWaiter (w : τ) (es : List (Event τ α)) : Prop :=
  ∀ t c, .call t c ∈ es → c.Waits → t = w

/-- What is known of the threads if only `w` waits. -/
structure Inv (w : τ) (s : State τ α) : Prop where
  /-- The mutex belongs to the thread that says so. -/
  exclusive : Exclusive s
  /-- A thread sleeps in a method that waits. -/
  sleeps : ∀ t c, s.pc t = .asleep c → c.Waits
  /-- Only `wait_for` has a time limit. -/
  expired : ∀ t c, (s.pc t).Expired c → c = .waitWailEmptyFor
  /-- A method that waits was called by `w`. -/
  waiter : ∀ t c, (s.pc t).method = some c → c.Waits → t = w
  /-- If `w` sleeps although there is a value, somebody is going to wake it up. -/
  awake : ∀ c, s.pc w = .asleep c → s.queue ≠ [] → ∃ t, (s.pc t).Notifies

omit [DecidableEq τ] in
theorem inv_start (w : τ) : Inv w (State.start : State τ α) where
  exclusive _ := iff_of_false nofun id
  sleeps _ _ h := by cases h
  expired _ _ h := h.elim
  waiter _ _ h := by cases h
  awake _ h := by cases h

/-- What a step does to where a thread is, as far as waiting goes. -/
theorem method_step {e : Event τ α} {s s' : State τ α} (h : Step e s s') (t : τ) :
    (∀ c, (s'.pc t).method = some c → (s.pc t).method = some c ∨ e = .call t c) ∧
    (∀ c, (s'.pc t).Expired c → (s.pc t).Expired c ∨ c = .waitWailEmptyFor) := by
  cases h with
  | @notifyOne _ u v c c' r here sleeper =>
    rw [goto_pc, goto_pc]
    split
    · subst t
      rw [sleeper]
      exact ⟨fun _ h ↦ .inl h, fun _ h ↦ h.elim⟩
    · split
      · exact ⟨nofun, fun _ h ↦ h.elim⟩
      · exact ⟨fun _ h ↦ .inl h, fun _ h ↦ .inl h⟩
  | @call _ u c here =>
    rw [goto_pc]
    split
    · subst t
      exact ⟨fun c' h ↦ .inr (by rw [Option.some.inj h]), fun _ h ↦ h.elim⟩
    · exact ⟨fun _ h ↦ .inl h, fun _ h ↦ .inl h⟩
  | @wake _ u c expired here time =>
    rw [goto_pc]
    split
    · subst t
      rw [here]
      refine ⟨fun _ h ↦ .inl h, fun c' h ↦ .inr ?_⟩
      cases expired
      · exact h.elim
      · rw [← show c = c' from h]
        exact time rfl
    · exact ⟨fun _ h ↦ .inl h, fun _ h ↦ .inl h⟩
  | @unlock _ u c r here =>
    change (∀ c', ((s.goto u (Pc.unlocked c r)).pc t).method = _ → _) ∧
      ∀ c', ((s.goto u (Pc.unlocked c r)).pc t).Expired c' → _
    rw [goto_pc]
    split
    · cases c <;> exact ⟨nofun, fun _ h ↦ h.elim⟩
    · exact ⟨fun _ h ↦ .inl h, fun _ h ↦ .inl h⟩
  | @relock _ u c expired here =>
    change (∀ c', ((s.goto u _).pc t).method = _ → _) ∧ ∀ c', ((s.goto u _).pc t).Expired c' → _
    rw [goto_pc]
    split
    · subst t
      rw [here]
      exact ⟨fun _ h ↦ .inl h, fun _ h ↦ .inl (by cases expired <;> exact h)⟩
    · exact ⟨fun _ h ↦ .inl h, fun _ h ↦ .inl h⟩
  | @lock _ u _ here | @sleep _ u _ here =>
    change (∀ c', ((s.goto u _).pc t).method = _ → _) ∧ ∀ c', ((s.goto u _).pc t).Expired c' → _
    rw [goto_pc]
    split
    · subst t
      rw [here]
      exact ⟨fun _ h ↦ .inl h, fun _ h ↦ .inl h⟩
    · exact ⟨fun _ h ↦ .inl h, fun _ h ↦ .inl h⟩
  | @refuse _ u here | @effect _ u _ _ _ _ here | @expire _ u here | @notifyNone _ u _ _ here
  | @ret _ u _ _ here =>
    change (∀ c', ((s.goto u _).pc t).method = _ → _) ∧ ∀ c', ((s.goto u _).pc t).Expired c' → _
    rw [goto_pc]
    split
    · exact ⟨nofun, fun _ h ↦ h.elim⟩
    · exact ⟨fun _ h ↦ .inl h, fun _ h ↦ .inl h⟩

theorem critical_eq_none {queue : List α} {c : Call α} (h : critical queue c = none) :
    queue = [] ∧ c.Waits := by
  cases c with
  | push value => cases value <;> cases h
  | pop | front => cases queue <;> cases h
  | empty | size => cases h
  | waitWailEmpty | waitWailEmptyFor =>
    cases queue
    · exact ⟨rfl, trivial⟩
    · cases h

/-- Only `push` makes an empty queue one that has a value. -/
theorem ne_nil_of_critical {queue queue' : List α} {c : Call α} {r : Reply α}
    (h : critical queue c = some (queue', r)) (hne : queue' ≠ []) :
    queue ≠ [] ∨ ∃ value, c = .push value := by
  cases c with
  | push value => exact .inr ⟨value, rfl⟩
  | pop | front | empty | size | waitWailEmpty | waitWailEmptyFor =>
    refine .inl ?_
    rintro rfl
    cases h
    all_goals exact hne rfl

/-- A thread that goes to another place takes nothing away from a sleeper that is going to be
notified. -/
theorem Inv.awake_goto {w : τ} {s : State τ α} (hs : Inv w s) {t : τ} {pc : Pc α}
    (hpc : ∀ c, pc ≠ .asleep c) (hnotifies : (s.pc t).Notifies → pc.Notifies) {queue : List α}
    (hqueue : queue ≠ [] → s.queue ≠ []) (c : Call α) (hc : (s.goto t pc).pc w = .asleep c)
    (hne : queue ≠ []) : ∃ u, ((s.goto t pc).pc u).Notifies := by
  have hwt : w ≠ t := by
    rintro rfl
    exact hpc c ((goto_pc_self s w pc).symm.trans hc)
  rw [goto_pc_of_ne _ _ hwt] at hc
  obtain ⟨u, hu⟩ := hs.awake c hc (hqueue hne)
  refine ⟨u, ?_⟩
  rw [goto_pc]
  split
  · subst u
    exact hnotifies hu
  · exact hu

/-- **A sleeper is never forgotten**: this is kept by every step. -/
theorem awake_step {w : τ} {e : Event τ α} {s s' : State τ α} (h : Step e s s') (hs : Inv w s)
    (c : Call α) (hc : s'.pc w = .asleep c) (hne : s'.queue ≠ []) :
    ∃ t, (s'.pc t).Notifies := by
  cases h with
  | @effect _ t c' _ queue r here done =>
    by_cases hpush : ∃ value, c' = .push value
    · obtain ⟨value, rfl⟩ := hpush
      refine ⟨t, ?_⟩
      change ((s.goto t _).pc t).Notifies
      rw [goto_pc_self]
      trivial
    · exact hs.awake_goto nofun (by rw [here]; exact False.elim)
        (fun h ↦ (ne_nil_of_critical done h).resolve_right hpush) c hc hne
  | sleep _ must => exact absurd (critical_eq_none must).1 hne
  | @unlock _ t c' r here =>
    refine hs.awake_goto (fun c'' ↦ ?_) (fun hn ↦ ?_) id c hc hne
    · cases c' <;> nofun
    · rw [here] at hn
      cases c' with
      | push => trivial
      | pop | front | empty | size | waitWailEmpty | waitWailEmptyFor => exact hn.elim
  | @notifyOne _ t u c' c'' r here sleeper =>
    -- the one that sleeps is `w`, and now it does not sleep any more
    have huw : u = w := hs.waiter u c'' (by rw [sleeper]; rfl) (hs.sleeps u c'' sleeper)
    subst huw
    rw [goto_pc_self] at hc
    cases hc
  | @notifyNone _ t _ r here nobody =>
    rw [goto_pc] at hc
    split at hc
    · cases hc
    · exact absurd hc (nobody w c)
  | call here | refuse here | lock here | relock here | expire here | wake here | ret here =>
    exact hs.awake_goto nofun (by rw [here]; exact id) id c hc hne

theorem sleeps_step {e : Event τ α} {s s' : State τ α} (h : Step e s s')
    (hs : ∀ t c, s.pc t = .asleep c → c.Waits) (t : τ) (c : Call α)
    (hc : s'.pc t = .asleep c) : c.Waits := by
  cases h with
  | @sleep _ u c' here must =>
    change (s.goto u (.asleep c')).pc t = _ at hc
    rw [goto_pc] at hc
    split at hc
    · cases hc
      exact (critical_eq_none must).2
    · exact hs t c hc
  | @notifyOne _ u v c' c'' r here sleeper =>
    rw [goto_pc, goto_pc] at hc
    split at hc
    · cases hc
    · split at hc
      · cases hc
      · exact hs t c hc
  | @unlock _ u c' r here =>
    change (s.goto u (Pc.unlocked c' r)).pc t = _ at hc
    rw [goto_pc] at hc
    split at hc
    · cases c' <;> cases hc
    · exact hs t c hc
  | @call _ u | @refuse _ u | @lock _ u | @relock _ u | @effect _ u | @expire _ u | @wake _ u
  | @notifyNone _ u | @ret _ u =>
    change (s.goto u _).pc t = _ at hc
    rw [goto_pc] at hc
    split at hc
    · cases hc
    · exact hs t c hc

theorem inv_step {w : τ} {e : Event τ α} {s s' : State τ α} (h : Step e s s')
    (he : ∀ t c, e = .call t c → c.Waits → t = w) (hs : Inv w s) : Inv w s' where
  exclusive := exclusive_step h hs.exclusive
  sleeps := sleeps_step h hs.sleeps
  expired t c hc := ((method_step h t).2 c hc).elim (hs.expired t c) id
  waiter t c hc hwaits := ((method_step h t).1 c hc).elim (fun hm ↦ hs.waiter t c hm hwaits)
    fun hcall ↦ he t c hcall hwaits
  awake := awake_step h hs

theorem inv_run {w : τ} {es : List (Event τ α)} {s : State τ α} (h : Run Step State.start es s)
    (hes : OnlyWaiter w es) : Inv w s := by
  refine h.invariant (I := fun es s ↦ OnlyWaiter w es → Inv w s) (fun _ ↦ inv_start w) ?_ hes
  intro es e s s' _ ih hstep honly
  have hbefore : OnlyWaiter w es := fun t c hc ↦ honly t c (List.mem_append_left _ hc)
  refine inv_step hstep (fun t c he ↦ ?_) (ih hbefore)
  exact honly t c (List.mem_append_right _ (List.mem_singleton.mpr he.symm))

/-! ### Where the threads can stop -/

/-- What the threads do by themselves: nobody counts on another call, on a wake-up out of nothing or
on a time limit. -/
def Event.Internal : Event τ α → Prop
  | .call _ _ | .wake _ _ => False
  | _ => True

/-- In a state that is stuck nobody has the mutex. -/
theorem Inv.owner_of_stuck {w : τ} {s : State τ α} (hs : Inv w s)
    (hstuck : Stuck Step Event.Internal s) : s.owner = none := by
  have hno {e : Event τ α} {s' : State τ α} (h : Step e s s') (he : e.Internal) : False :=
    hstuck e s' he h
  rw [Option.eq_none_iff_forall_ne_some]
  intro u hu
  have hholds := (hs.exclusive u).mp hu
  cases hpc : s.pc u with
  | locked c expired =>
    cases hcrit : critical s.queue c with
    | some p =>
      have hcrit : critical s.queue c = some (p.1, p.2) := hcrit
      exact hno (.effect hpc hcrit) trivial
    | none =>
      cases expired with
      | false => exact hno (.sleep hpc hcrit) trivial
      | true =>
        have hc : c = .waitWailEmptyFor := hs.expired u c (by rw [hpc]; rfl)
        subst hc
        exact hno (.expire hpc hcrit) trivial
  | finished c r => exact hno (.unlock hpc) trivial
  | idle | entered | asleep | woken | notifying | returning =>
    rw [hpc] at hholds
    exact hholds

/-- In a state that is stuck a thread is in no method, or it sleeps. -/
theorem Inv.rest_of_stuck {w : τ} {s : State τ α} (hs : Inv w s)
    (hstuck : Stuck Step Event.Internal s) (t : τ) :
    s.pc t = .idle ∨ ∃ c, s.pc t = .asleep c := by
  have hno {e : Event τ α} {s' : State τ α} (h : Step e s s') (he : e.Internal) : False :=
    hstuck e s' he h
  have hfree := hs.owner_of_stuck hstuck
  have hnot (hholds : (s.pc t).Holds) : False := by
    have := (hs.exclusive t).mpr hholds
    rw [hfree] at this
    cases this
  cases hpc : s.pc t with
  | idle => exact .inl rfl
  | asleep c => exact .inr ⟨c, rfl⟩
  | entered c =>
    by_cases hc : c = .push none
    · subst hc
      exact (hno (.refuse hpc) trivial).elim
    · exact (hno (.lock hpc hc hfree) trivial).elim
  | locked c expired | finished c r => exact (hnot (by rw [hpc]; trivial)).elim
  | woken c expired => exact (hno (.relock hpc hfree) trivial).elim
  | notifying c r =>
    by_cases hsleeper : ∃ u c', s.pc u = .asleep c'
    · obtain ⟨u, c', hu⟩ := hsleeper
      exact (hno (.notifyOne hpc hu) trivial).elim
    · exact (hno (.notifyNone hpc fun u c' hu ↦ hsleeper ⟨u, c', hu⟩) trivial).elim
  | returning c r => exact (hno (.ret hpc) trivial).elim

/-- Threads that are in no method or sleep do nothing by themselves. -/
theorem stuck_of_rest {s : State τ α} (h : ∀ t, s.pc t = .idle ∨ ∃ c, s.pc t = .asleep c) :
    Stuck Step Event.Internal s := by
  intro e s' hkind hstep
  cases hstep with
  | call | wake => exact hkind
  | @refuse _ t here | @lock _ t _ here | @relock _ t _ _ here | @effect _ t _ _ _ _ here
  | @expire _ t here | @sleep _ t _ here | @unlock _ t _ _ here | @notifyOne _ t _ _ _ _ here
  | @notifyNone _ t _ _ here | @ret _ t _ _ here =>
    rcases h t with h | ⟨c, h⟩ <;> rw [h] at here <;> cases here

/-- **No wake-up is lost.**  If only one thread ever waits, then the threads come to a stop only
when none of them is in a method, except that this one thread sleeps because there is no value. -/
theorem stuck_iff {w : τ} {es : List (Event τ α)} {s : State τ α} (h : Run Step State.start es s)
    (hes : OnlyWaiter w es) :
    Stuck Step Event.Internal s ↔
      (∀ t, t ≠ w → s.pc t = .idle) ∧
        (s.pc w = .idle ∨ (∃ c, s.pc w = .asleep c) ∧ s.queue = []) := by
  have hs := inv_run h hes
  constructor
  · intro hstuck
    have hrest (t : τ) := hs.rest_of_stuck hstuck t
    refine ⟨fun t htw ↦ (hrest t).resolve_right ?_, (hrest w).imp_right fun hw ↦ ⟨hw, ?_⟩⟩
    · rintro ⟨c, hc⟩
      exact htw (hs.waiter t c (by rw [hc]; rfl) (hs.sleeps t c hc))
    · by_contra hne
      obtain ⟨c, hc⟩ := hw
      obtain ⟨t, ht⟩ := hs.awake c hc hne
      rcases hrest t with hidle | ⟨c', hasleep⟩
      · rw [hidle] at ht
        exact ht
      · rw [hasleep] at ht
        exact ht
  · rintro ⟨hothers, hw⟩
    refine stuck_of_rest fun t ↦ ?_
    by_cases htw : t = w
    · rw [htw]
      exact hw.imp_right And.left
    · exact .inl (hothers t htw)

/-- One thread waits, and has to go on waiting. -/
theorem stuck_sleeping : ∃ s : State ℕ ℕ, s.pc 1 = .asleep .waitWailEmpty ∧
    Stuck Step Event.Internal s := by
  have h0 : Run Step (State.start : State ℕ ℕ) [] _ := Run.start
  have h1 := h0.next (.call (t := 1) (c := .waitWailEmpty) rfl)
  have h2 := h1.next (.lock (t := 1) (c := .waitWailEmpty) rfl (by decide) rfl)
  have h3 := h2.next (.sleep (t := 1) (c := .waitWailEmpty) rfl rfl)
  refine ⟨_, rfl, (stuck_iff (w := 1) h3 ?_).mpr ⟨fun t ht ↦ ?_, .inr ⟨⟨_, rfl⟩, rfl⟩⟩⟩
  · intro t c hc _
    simp at hc
    exact hc.1
  · simp [State.goto, State.start, ht]

/-- With a second thread that waits it is different: `notify_one` may wake the thread that leaves
the value where it is, and the other one sleeps on. -/
theorem stuck_with_value : ∃ es, ∃ s : State ℕ ℕ, Run Step State.start es s ∧
    Stuck Step Event.Internal s ∧ s.queue = [7] ∧ s.pc 2 = .asleep .waitWailEmpty := by
  have h0 : Run Step (State.start : State ℕ ℕ) [] _ := Run.start
  have h1 := h0.next (.call (t := 1) (c := .waitWailEmpty) rfl)
  have h2 := h1.next (.lock (t := 1) (c := .waitWailEmpty) rfl (by decide) rfl)
  have h3 := h2.next (.sleep (t := 1) (c := .waitWailEmpty) rfl rfl)
  have h4 := h3.next (.call (t := 2) (c := .waitWailEmpty) rfl)
  have h5 := h4.next (.lock (t := 2) (c := .waitWailEmpty) rfl (by decide) rfl)
  have h6 := h5.next (.sleep (t := 2) (c := .waitWailEmpty) rfl rfl)
  have h7 := h6.next (.call (t := 0) (c := .push (some 7)) rfl)
  have h8 := h7.next (.lock (t := 0) (c := .push (some 7)) rfl (by decide) rfl)
  have h9 := h8.next (.effect (t := 0) (c := .push (some 7)) (r := .void) rfl rfl)
  have h10 := h9.next (.unlock (t := 0) (c := .push (some 7)) (r := .void) rfl)
  have h11 := h10.next (.notifyOne (t := 0) (u := 1) (c := .push (some 7)) (r := .void) rfl rfl)
  have h12 := h11.next (.ret (t := 0) (c := .push (some 7)) (r := .void) rfl)
  have h13 := h12.next (.relock (t := 1) (c := .waitWailEmpty) rfl rfl)
  have h14 := h13.next (.effect (t := 1) (c := .waitWailEmpty) (r := .void) rfl rfl)
  have h15 := h14.next (.unlock (t := 1) (c := .waitWailEmpty) (r := .void) rfl)
  have h16 := h15.next (.ret (t := 1) (c := .waitWailEmpty) (r := .void) rfl)
  refine ⟨_, _, h16, stuck_of_rest fun t ↦ ?_, rfl, rfl⟩
  simp only [goto_pc]
  split_ifs <;> simp [State.start]

end SafeQueue
end Coap
