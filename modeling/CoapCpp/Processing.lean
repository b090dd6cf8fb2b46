import CoapCpp.HandleLife
import CoapCpp.SafeQueue
import Mathlib.Data.List.Nodup

/-!
# The thread behind a connection of the echo server

`examples/POSIX/common/udp_server.cc` gives every client an `Incomming`: a queue of payloads, and a
thread that runs `processing`.  The thread of the server puts what it receives into the queue, and
later it takes the connection down with `remove_connection`; the other thread hands one payload
after the other to the callback, which is `udp_echo_server_packet_handler` of
`examples/POSIX/udp-echo-server`.

The two threads are interleaved at their accesses to what they share.  A step calls the methods of
the queue as if it were a plain one (`methods_step`); that is what `SafeQueue` allows.

* `payloads_iff`: the memory of the payloads.  Every one is freed once and not used afterwards,
  unless a `sendto` has failed: then the thread loses every payload it takes from then on.
* `join_bounded`: the thread that is told to stop does stop.
* `sent_prefix`: what is sent back is what was received, in the same order.
-/

set_option autoImplicit false

namespace Coap

open Interleaving

namespace UdpServer

/-! ## The two threads -/

/-- `Payload`, of which only the address and the size matter here. -/
structure Payload where
  /-- Which one it is. -/
  handle : ℕ
  /-- `size` -/
  size : ℕ
deriving DecidableEq

/-- Where the thread is that runs `processing`. -/
inductive Worker where
  /-- At the condition of the loop. -/
  | test
  /-- In `wait_wail_empty`. -/
  | wait
  /-- In front of `front`. -/
  | peek
  /-- Behind `front`, which has returned this. -/
  | check (payload : Option Payload)
  /-- In the callback, in front of `udpserver::receive`. -/
  | receive
  /-- In the callback, in front of `udpserver::send`. -/
  | send (payload : Payload)
  /-- The thread has finished. -/
  | done
deriving DecidableEq

/-- Where the thread of the server is. -/
inductive Main where
  /-- It accepts messages. -/
  | serving
  /-- In `remove_connection`, behind `m_processing = false`. -/
  | signalled
  /-- Behind the `push_payload` of an empty message. -/
  | kicked
  /-- Behind `join`, in `clear_receive_queue`. -/
  | joined
  /-- The connection is deleted. -/
  | gone
deriving DecidableEq

/-- `Incomming`, and the threads that use it. -/
structure State where
  /-- `m_receiveQueue` -/
  queue : List Payload
  /-- `m_processing` -/
  processing : Bool
  /-- The `ec` of `processing` is set. -/
  ec : Bool
  /-- The address of the next payload. -/
  next : ℕ
  /-- The thread that runs `processing`. -/
  worker : Worker
  /-- The thread of the server. -/
  main : Main

/-- The thread has been started. -/
def State.start : State where
  queue := []
  processing := true
  ec := false
  next := 0
  worker := .test
  main := .serving

/-- What the threads do. -/
inductive Event where
  /-- `accept` pushes a message. -/
  | accept (payload : Payload)
  /-- `m_processing = false` -/
  | signal
  /-- `remove_connection` pushes the empty message. -/
  | kick (payload : Payload)
  /-- `join` returns. -/
  | join
  /-- `clear_receive_queue` deletes a payload. -/
  | clear (payload : Payload)
  /-- `delete connection` -/
  | delete
  /-- The condition of the loop is evaluated. -/
  | test
  /-- `wait_wail_empty` returns. -/
  | wait
  /-- `front` returns. -/
  | peek
  /-- The thread decides whether to go on: it has seen `m_processing`, and whether the connection is
  timed out. -/
  | check (payload : Option Payload) (processing timedOut : Bool)
  /-- `udpserver::receive` returns a payload, which is then sent. -/
  | receive (payload : Payload)
  /-- `udpserver::receive` returns a payload, but `ec` is set. -/
  | lose (payload : Payload)
  /-- `udpserver::receive` finds nothing. -/
  | noPayload
  /-- `udpserver::send`, which deletes the payload. -/
  | send (payload : Payload) (ok : Bool)
deriving DecidableEq

/-- The thread goes on with the payload that `front` has returned. -/
def GoesOn (payload : Option Payload) (processing timedOut : Bool) : Prop :=
  processing = true ∧ (∀ p, payload = some p → p.size ≠ 0) ∧ timedOut = false

/-- The steps of the two threads. -/
inductive Step : Event → State → State → Prop
  | accept {s : State} {size : ℕ} (serving : s.main = .serving) (some : 0 < size) :
      Step (.accept ⟨s.next, size⟩) s
        { s with queue := s.queue ++ [⟨s.next, size⟩], next := s.next + 1 }
  | signal {s : State} (serving : s.main = .serving) :
      Step .signal s { s with processing := false, main := .signalled }
  | kick {s : State} (signalled : s.main = .signalled) :
      Step (.kick ⟨s.next, 0⟩) s
        { s with queue := s.queue ++ [⟨s.next, 0⟩], next := s.next + 1, main := .kicked }
  | join {s : State} (kicked : s.main = .kicked) (done : s.worker = .done) :
      Step .join s { s with main := .joined }
  | clear {s : State} {p : Payload} {queue : List Payload} (joined : s.main = .joined)
      (first : s.queue = p :: queue) : Step (.clear p) s { s with queue := queue }
  | delete {s : State} (joined : s.main = .joined) (empty : s.queue = []) :
      Step .delete s { s with main := .gone }
  | test {s : State} (here : s.worker = .test) :
      Step .test s { s with worker := if s.processing then .wait else .done }
  | wait {s : State} (here : s.worker = .wait) (some : s.queue ≠ []) :
      Step .wait s { s with worker := .peek }
  | peek {s : State} (here : s.worker = .peek) :
      Step .peek s { s with worker := .check s.queue.head? }
  | stop {s : State} {payload : Option Payload} {timedOut : Bool}
      (here : s.worker = .check payload) (stops : ¬ GoesOn payload s.processing timedOut) :
      Step (.check payload s.processing timedOut) s
        { s with processing := false, worker := .test }
  | goOn {s : State} {payload : Option Payload} {timedOut : Bool}
      (here : s.worker = .check payload) (goesOn : GoesOn payload s.processing timedOut) :
      Step (.check payload s.processing timedOut) s { s with worker := .receive }
  | noPayload {s : State} (here : s.worker = .receive) (empty : s.queue = []) :
      Step .noPayload s { s with ec := true, worker := .test }
  | receive {s : State} {p : Payload} {queue : List Payload} (here : s.worker = .receive)
      (first : s.queue = p :: queue) (noError : s.ec = false) :
      Step (.receive p) s { s with queue := queue, worker := .send p }
  | lose {s : State} {p : Payload} {queue : List Payload} (here : s.worker = .receive)
      (first : s.queue = p :: queue) (error : s.ec = true) :
      Step (.lose p) s { s with queue := queue, worker := .test }
  | send {s : State} {p : Payload} {ok : Bool} (here : s.worker = .send p) :
      Step (.send p ok) s { s with ec := !ok, worker := .test }

/-- The methods of the queue that are called in a step, and what they return. -/
def Event.methods (queue : List Payload) :
    Event → List (SafeQueue.Call Payload × SafeQueue.Reply Payload)
  | .accept p | .kick p => [(.push (some p), .void)]
  | .clear p => [(.empty, .bool false), (.pop, .pointer (some p))]
  | .delete => [(.empty, .bool true)]
  | .wait => [(.waitWailEmpty, .void)]
  | .peek => [(.front, .pointer queue.head?)]
  | .receive p | .lose p => [(.pop, .pointer (some p))]
  | .noPayload => [(.pop, .pointer none)]
  | .signal | .join | .test | .check _ _ _ | .send _ _ => []

/-- **The queue is used by its methods**, and they do what those of a plain queue do. -/
theorem methods_step {e : Event} {s s' : State} (h : Step e s s') :
    Run SafeQueue.Fifo s.queue (e.methods s.queue) s'.queue := by
  cases h with
  | accept | kick => exact Run.one (.push _ _)
  | @clear _ p queue joined first =>
    dsimp only
    rw [first]
    exact (Run.one (.empty (p :: queue))).next (.pop p queue)
  | delete joined empty =>
    dsimp only
    rw [empty]
    exact Run.one (.empty [])
  | wait here some => exact Run.one (.waitWailEmpty some)
  | peek here => exact Run.one (.front _)
  | receive here first | lose here first =>
    dsimp only
    rw [first]
    exact Run.one (.pop _ _)
  | noPayload here empty =>
    dsimp only
    rw [empty]
    exact Run.one .popEmpty
  | signal | join | test | stop | goOn | send => exact .start

/-! ## Where the threads can be -/

/-- What is known of the two threads. -/
structure Inv (s : State) : Prop where
  /-- The queue is not empty when `front` is called. -/
  peek : s.worker = .peek → s.queue ≠ []
  /-- `front` has returned the payload that is still the first one. -/
  check : ∀ payload, s.worker = .check payload → s.queue ≠ [] ∧ payload = s.queue.head?
  /-- The callback is called for a message that is not the empty one. -/
  receive : s.worker = .receive → ∃ p queue, s.queue = p :: queue ∧ p.size ≠ 0
  /-- The flag is down when the connection is taken down. -/
  flag : s.main ≠ .serving → s.processing = false
  /-- The empty message stays in the queue until `clear_receive_queue`. -/
  kicked : s.main = .kicked → ∃ p ∈ s.queue, p.size = 0
  /-- `join` waits for the thread. -/
  joined : s.main = .joined ∨ s.main = .gone → s.worker = .done
  /-- `clear_receive_queue` leaves nothing. -/
  gone : s.main = .gone → s.queue = []

theorem inv_start : Inv State.start where
  peek h := by cases h
  check _ h := by cases h
  receive h := by cases h
  flag h := (h rfl).elim
  kicked h := by cases h
  joined h := by rcases h with h | h <;> cases h
  gone h := by cases h

/-- Another payload behind the ones that are there does not bother `processing`. -/
theorem Inv.push {s : State} (hs : Inv s) (p : Payload) {next : ℕ} {main : Main}
    (hflag : main ≠ .serving → s.processing = false) (hkicked : main = .kicked → p.size = 0)
    (hmain : main ≠ .joined ∧ main ≠ .gone) :
    Inv { s with queue := s.queue ++ [p], next := next, main := main } where
  peek _ := List.append_ne_nil_of_right_ne_nil _ (List.cons_ne_nil _ _)
  check payload h := by
    obtain ⟨hne, rfl⟩ := hs.check payload h
    exact ⟨List.append_ne_nil_of_left_ne_nil hne _, (List.head?_append_of_ne_nil _ hne).symm⟩
  receive h := by
    obtain ⟨q, queue, hqueue, hsize⟩ := hs.receive h
    exact ⟨q, queue ++ [p], by rw [hqueue]; rfl, hsize⟩
  flag := hflag
  kicked h := ⟨p, by simp, hkicked h⟩
  joined h := (h.elim hmain.1 hmain.2).elim
  gone h := (hmain.2 h).elim

/-- The thread goes to a place where it needs nothing of the queue. -/
theorem Inv.leave {s : State} (hs : Inv s) {worker : Worker} {processing ec : Bool}
    (hworker : worker = .test ∨ worker = .wait ∨ worker = .done ∨ ∃ p, worker = .send p)
    (hrunning : s.worker ≠ .done) (hflag : s.processing = false → processing = false) :
    Inv { s with processing := processing, ec := ec, worker := worker } where
  peek h := by rcases hworker with rfl | rfl | rfl | ⟨p, rfl⟩ <;> cases h
  check _ h := by rcases hworker with rfl | rfl | rfl | ⟨p, rfl⟩ <;> cases h
  receive h := by rcases hworker with rfl | rfl | rfl | ⟨p, rfl⟩ <;> cases h
  flag h := hflag (hs.flag h)
  kicked := hs.kicked
  joined h := (hrunning (hs.joined h)).elim
  gone := hs.gone

/-- The thread takes the first payload, which is not the empty message. -/
theorem Inv.take {s : State} (hs : Inv s) {p : Payload} {queue : List Payload}
    (here : s.worker = .receive) (first : s.queue = p :: queue) {worker : Worker}
    (hworker : worker = .test ∨ worker = .send p) :
    Inv { s with queue := queue, worker := worker } where
  peek h := by rcases hworker with rfl | rfl <;> cases h
  check _ h := by rcases hworker with rfl | rfl <;> cases h
  receive h := by rcases hworker with rfl | rfl <;> cases h
  flag := hs.flag
  kicked h := by
    obtain ⟨q, hq, hempty⟩ := hs.kicked h
    obtain ⟨p', queue', hqueue, hsize⟩ := hs.receive here
    rw [first] at hq hqueue
    obtain ⟨rfl, rfl⟩ := List.cons.inj hqueue
    rcases List.mem_cons.mp hq with rfl | hq
    · exact absurd hempty hsize
    · exact ⟨q, hq, hempty⟩
  joined h := by
    have hdone := hs.joined h
    rw [here] at hdone
    cases hdone
  gone h := by
    have hnil := hs.gone h
    rw [first] at hnil
    cases hnil

theorem inv_step {e : Event} {s s' : State} (h : Step e s s') (hs : Inv s) : Inv s' := by
  have hne {w : Worker} (here : s.worker = w) (hw : w ≠ .done) : s.worker ≠ .done := here ▸ hw
  cases h with
  | accept serving => exact serving ▸ hs.push _ (fun h ↦ (h rfl).elim) nofun (by decide)
  | kick signalled =>
    have hflag := hs.flag (by rw [signalled]; decide)
    exact hs.push _ (fun _ ↦ hflag) (fun _ ↦ rfl) (by decide)
  | signal serving =>
    exact { hs with flag := fun _ ↦ rfl, kicked := nofun, joined := nofun, gone := nofun }
  | join kicked done =>
    have hflag := hs.flag (by rw [kicked]; decide)
    exact { hs with flag := fun _ ↦ hflag, kicked := nofun, joined := fun _ ↦ done, gone := nofun }
  | clear joined first =>
    have hdone := hs.joined (.inl joined)
    refine { hs with peek := ?_, check := ?_, receive := ?_, kicked := ?_, gone := ?_ }
    · exact fun h ↦ by rw [hdone] at h; cases h
    · exact fun _ h ↦ by rw [hdone] at h; cases h
    · exact fun h ↦ by rw [hdone] at h; cases h
    · exact fun h ↦ by rw [joined] at h; cases h
    · exact fun h ↦ by rw [joined] at h; cases h
  | delete joined empty =>
    have hdone := hs.joined (.inl joined)
    have hflag := hs.flag (by rw [joined]; decide)
    exact { hs with
      flag := fun _ ↦ hflag, kicked := nofun, joined := fun _ ↦ hdone, gone := fun _ ↦ empty }
  | test here =>
    refine hs.leave ?_ (hne here nofun) id
    split
    · exact .inr (.inl rfl)
    · exact .inr (.inr (.inl rfl))
  | wait here some =>
    exact { hs with
      peek := fun _ ↦ some, check := nofun, receive := nofun,
      joined := fun h ↦ (hne here nofun (hs.joined h)).elim }
  | peek here =>
    refine { hs with peek := nofun, check := fun payload h ↦ ?_, receive := nofun, joined := ?_ }
    · exact ⟨hs.peek here, (Worker.check.inj h).symm⟩
    · exact fun h ↦ (hne here nofun (hs.joined h)).elim
  | stop here stops => exact hs.leave (.inl rfl) (hne here nofun) fun _ ↦ rfl
  | @goOn _ payload timedOut here goesOn =>
    obtain ⟨hqueue, rfl⟩ := hs.check _ here
    refine { hs with
      peek := nofun, check := nofun, receive := fun _ ↦ ?_,
      joined := fun h ↦ (hne here nofun (hs.joined h)).elim }
    obtain ⟨p, queue, hcons⟩ := List.exists_cons_of_ne_nil hqueue
    exact ⟨p, queue, hcons, goesOn.2.1 p (by rw [hcons]; rfl)⟩
  | noPayload here => exact hs.leave (.inl rfl) (hne here nofun) id
  | receive here first => exact hs.take here first (.inr rfl)
  | lose here first => exact hs.take here first (.inl rfl)
  | send here => exact hs.leave (.inl rfl) (hne here nofun) id

theorem inv_run {es : List Event} {s : State} (h : Run Step State.start es s) : Inv s :=
  h.keeps inv_start fun _ _ _ hs hstep ↦ inv_step hstep hs

/-- One message comes, it is sent back, and the connection is taken down as far as the `join`. -/
theorem run_echo (ok : Bool) : Run Step State.start
    [.accept ⟨0, 5⟩, .test, .wait, .peek, .check (some ⟨0, 5⟩) true false, .receive ⟨0, 5⟩,
      .send ⟨0, 5⟩ ok, .signal, .kick ⟨1, 0⟩]
    ⟨[⟨1, 0⟩], false, !ok, 2, .test, .kicked⟩ := by
  have h0 : Run Step State.start [.accept ⟨0, 5⟩]
      ⟨[⟨0, 5⟩], true, false, 1, .test, .serving⟩ :=
    Run.one (.accept (s := State.start) rfl (by decide))
  have h1 : Run Step ⟨[⟨0, 5⟩], true, false, 1, .test, .serving⟩ [.test, .wait, .peek]
      ⟨[⟨0, 5⟩], true, false, 1, .check (some ⟨0, 5⟩), .serving⟩ :=
    ((Run.one (.test rfl)).next (.wait rfl (List.cons_ne_nil _ _))).next (.peek rfl)
  have hgoes : GoesOn (some ⟨0, 5⟩) true false := ⟨rfl, by simp, rfl⟩
  have h2 : Run Step ⟨[⟨0, 5⟩], true, false, 1, .check (some ⟨0, 5⟩), .serving⟩
      [.check (some ⟨0, 5⟩) true false, .receive ⟨0, 5⟩]
      ⟨[], true, false, 1, .send ⟨0, 5⟩, .serving⟩ :=
    (Run.one (.goOn (s := ⟨_, true, false, 1, _, _⟩) rfl hgoes)).next (.receive rfl rfl rfl)
  have h3 : Run Step ⟨[], true, false, 1, .send ⟨0, 5⟩, .serving⟩
      [.send ⟨0, 5⟩ ok, .signal, .kick ⟨1, 0⟩] ⟨[⟨1, 0⟩], false, !ok, 2, .test, .kicked⟩ :=
    ((Run.one (.send rfl)).next (.signal rfl)).next
      (.kick (s := ⟨[], false, !ok, 1, .test, .signalled⟩) rfl)
  exact ((h0.append h1).append h2).append h3

theorem run_end (ok : Bool) : Run Step ⟨[⟨1, 0⟩], false, !ok, 2, .test, .kicked⟩
    [.test, .join, .clear ⟨1, 0⟩, .delete] ⟨[], false, !ok, 2, .done, .gone⟩ :=
  (((Run.one (.test rfl)).next (.join rfl rfl)).next (.clear rfl rfl)).next (.delete rfl rfl)

/-! ## The memory of the payloads -/

open HandleLife (Orderly NotAfterFree notAfterFree_append_singleton)

/-- What happens to the memory of the payloads. -/
def Event.handles : Event → List HandleLife.Event
  | .accept p | .kick p => [.created p.handle]
  -- `payload->size` is not read if `m_processing` is down
  | .check (some p) true _ => [.used p.handle]
  | .send p _ => [.used p.handle, .freed p.handle]
  | .clear p => [.freed p.handle]
  | _ => []

/-- The payloads that are allocated. -/
def Event.created : Event → List ℕ
  | .accept p | .kick p => [p.handle]
  | _ => []

/-- The payloads that are deleted. -/
def Event.freed : Event → List ℕ
  | .send p _ | .clear p => [p.handle]
  | _ => []

/-- The payloads that nobody has any more. -/
def Event.lost : Event → List ℕ
  | .lose p => [p.handle]
  | _ => []

/-- The payload that the thread has taken out of the queue and is going to send. -/
def Worker.sending : Worker → List Payload
  | .send p => [p]
  | _ => []

theorem created_mem_handles {es : List Event} {h : ℕ} :
    .created h ∈ es.flatMap Event.handles ↔ h ∈ es.flatMap Event.created := by
  simp only [List.mem_flatMap]
  refine exists_congr fun e ↦ and_congr_right fun _ ↦ ?_
  cases e with
  | check payload processing timedOut =>
    cases payload <;> cases processing <;> simp [Event.handles, Event.created]
  | _ => simp [Event.handles, Event.created]

theorem count_freed_handles {es : List Event} {h : ℕ} :
    (es.flatMap Event.handles).count (.freed h) = (es.flatMap Event.freed).count h := by
  induction es with
  | nil => rfl
  | cons e es ih =>
    rw [List.flatMap_cons, List.flatMap_cons, List.count_append, List.count_append, ih]
    congr 1
    cases e with
    | check payload processing timedOut => cases payload <;> cases processing <;> rfl
    | send p ok | clear p => simp [Event.handles, Event.freed, List.count_cons]
    | _ => simp [Event.handles, Event.freed]

/-- The balance of the payloads: every one is allocated once, and then it is in the queue, taken
out of it, deleted, or lost. -/
structure Balance (es : List Event) (s : State) : Prop where
  /-- They are allocated one after the other. -/
  created : es.flatMap Event.created = List.range s.next
  /-- Everyone is at one place. -/
  balance : ∀ h, (es.flatMap Event.created).count h =
    (s.queue.map Payload.handle).count h + (s.worker.sending.map Payload.handle).count h +
      ((es.flatMap Event.freed).count h + (es.flatMap Event.lost).count h)

theorem balance_start : Balance [] State.start where
  created := rfl
  balance _ := rfl

theorem balance_step {es : List Event} {e : Event} {s s' : State} (h : Step e s s')
    (hes : Balance es s) : Balance (es ++ [e]) s' := by
  obtain ⟨hcreated, hbalance⟩ := hes
  constructor
  · rw [List.flatMap_append, List.flatMap_singleton, hcreated]
    cases h with
    | accept | kick => exact List.range_succ.symm
    | _ => exact List.append_nil _
  · intro h'
    have hh := hbalance h'
    simp only [List.flatMap_append, List.flatMap_singleton, List.count_append] at hh ⊢
    cases h with
    | test here =>
      rw [here] at hh
      split <;> simpa [Event.created, Event.freed, Event.lost, Worker.sending] using hh
    | _ =>
      simp_all [Event.created, Event.freed, Event.lost, Worker.sending, List.count_cons]
      try omega

theorem balance_run {es : List Event} {s : State} (h : Run Step State.start es s) :
    Balance es s :=
  h.invariant balance_start fun _ _ _ _ _ hes hstep ↦ balance_step hstep hes

/-- A payload that is in the queue or taken out of it is not deleted. -/
theorem Balance.not_freed {es : List Event} {s : State} (hes : Balance es s) {h : ℕ}
    (hh : h ∈ s.queue.map Payload.handle ∨ h ∈ s.worker.sending.map Payload.handle) :
    h ∉ es.flatMap Event.freed := by
  intro hfreed
  have hle : (es.flatMap Event.created).count h ≤ 1 := by
    rw [hes.created]
    exact List.nodup_iff_count_le_one.mp List.nodup_range h
  have hbalance := hes.balance h
  have hpos := List.count_pos_iff.mpr hfreed
  rcases hh with hh | hh
  · have := List.count_pos_iff.mpr hh
    omega
  · have := List.count_pos_iff.mpr hh
    omega

theorem freed_mem_handles {es : List Event} {h : ℕ} :
    .freed h ∈ es.flatMap Event.handles ↔ h ∈ es.flatMap Event.freed := by
  rw [← List.count_pos_iff, count_freed_handles, List.count_pos_iff]

theorem notAfterFree_append {es : List Event} {e : Event}
    (hes : NotAfterFree (es.flatMap Event.handles))
    (he : e.handles.Pairwise fun a b ↦ ∀ h, a = .freed h → ¬ b.Passes h)
    (hlive : ∀ h, ∀ a ∈ e.handles, a.Passes h → h ∉ es.flatMap Event.freed) :
    NotAfterFree ((es ++ [e]).flatMap Event.handles) := by
  rw [List.flatMap_append, List.flatMap_singleton, NotAfterFree, List.pairwise_append]
  refine ⟨hes, he, ?_⟩
  rintro a ha b hb h rfl hpasses
  exact hlive h b hb hpasses (freed_mem_handles.mp ha)

/-- **No payload is used after it is deleted**, whatever the two threads do. -/
theorem notAfterFree_run {es : List Event} {s : State} (h : Run Step State.start es s) :
    NotAfterFree (es.flatMap Event.handles) := by
  refine h.invariant (I := fun es _ ↦ NotAfterFree (es.flatMap Event.handles)) .nil ?_
  intro es e s s' hrun ih hstep
  have hs := inv_run hrun
  have hes := balance_run hrun
  cases hstep with
  | accept | kick =>
    refine notAfterFree_append ih (List.pairwise_singleton _ _) fun h a ha hpasses ↦ ?_
    rw [List.mem_singleton.mp ha] at hpasses
    exact hpasses.elim
  | clear joined first =>
    refine notAfterFree_append ih (List.pairwise_singleton _ _) fun h a ha hpasses ↦ ?_
    rw [List.mem_singleton.mp ha] at hpasses
    exact hes.not_freed (.inl (by rw [first, ← hpasses]; exact List.mem_cons_self))
  | @send _ p ok here =>
    refine notAfterFree_append ih ?_ fun h a ha hpasses ↦ ?_
    · simp [Event.handles, HandleLife.Event.Passes]
    · have hh : h = p.handle := by
        rcases List.mem_cons.mp ha with rfl | ha
        · exact hpasses.symm
        · rw [List.mem_singleton.mp ha] at hpasses
          exact hpasses.symm
      exact hes.not_freed (.inr (by rw [here, hh]; exact List.mem_singleton_self _))
  | @stop _ payload timedOut here _ | @goOn _ payload timedOut here _ =>
    obtain ⟨hne, hhead⟩ := hs.check payload here
    refine notAfterFree_append ih ?_ fun h a ha hpasses ↦ ?_
    · cases payload <;> cases s.processing <;> simp [Event.handles]
    · cases payload with
      | none => cases ha
      | some p =>
        cases hprocessing : s.processing <;> rw [hprocessing] at ha
        · cases ha
        · rw [List.mem_singleton.mp ha] at hpasses
          refine hes.not_freed (.inl (List.mem_map.mpr ⟨p, ?_, hpasses⟩))
          exact List.mem_of_head? hhead.symm
  | signal | join | delete | test | wait | peek | noPayload | receive | lose =>
    exact notAfterFree_append ih .nil fun h a ha _ ↦ absurd ha List.not_mem_nil

/-- A `sendto` that fails. -/
def Event.Fails : Event → Prop
  | .send _ false => True
  | _ => False

/-- The callback takes a payload out of the queue. -/
def Event.Takes : Event → Prop
  | .receive _ | .lose _ => True
  | _ => False

/-- The callback loses what it takes after a failure, and nothing else. -/
structure Failures (es : List Event) (s : State) : Prop where
  /-- `ec` stays set. -/
  ec : s.ec = true ↔ ∃ e ∈ es, e.Fails
  /-- Nothing is sent when it is set. -/
  send : ∀ p, s.worker = .send p → s.ec = false
  /-- What is taken after that is lost. -/
  lost : es.flatMap Event.lost = [] ↔ es.Pairwise fun e e' ↦ e.Fails → ¬ e'.Takes

theorem Failures.append {es : List Event} {e : Event} {s s' : State} (hes : Failures es s)
    (hec : s'.ec = s.ec) (hsend : ∀ p, s'.worker = .send p → s.worker = .send p)
    (hfails : ¬ e.Fails) (htakes : ¬ e.Takes) : Failures (es ++ [e]) s' where
  ec := by simp [hec, hes.ec, hfails, or_and_right, exists_or]
  send p h := hec ▸ hes.send p (hsend p h)
  lost := by
    have hlost : e.lost = [] := by
      cases e with
      | lose => exact (htakes trivial).elim
      | _ => rfl
    rw [List.flatMap_append, List.flatMap_singleton, hlost, List.append_nil, hes.lost,
      List.pairwise_append]
    simp [htakes]

theorem failures_run {es : List Event} {s : State} (h : Run Step State.start es s) :
    Failures es s := by
  refine h.invariant (I := Failures) ⟨by simp [State.start], nofun, by simp⟩ ?_
  intro es e s s' hrun hes hstep
  cases hstep with
  | noPayload here empty =>
    obtain ⟨p, queue, hqueue, -⟩ := (inv_run hrun).receive here
    rw [empty] at hqueue
    cases hqueue
  | @receive _ p queue here first noError =>
    have hno (a : Event) (ha : a ∈ es) (hfails : a.Fails) : False := by
      rw [hes.ec.mpr ⟨a, ha, hfails⟩] at noError
      cases noError
    refine ⟨?_, fun _ _ ↦ noError, ?_⟩
    · simpa [Event.Fails, or_and_right, exists_or] using hes.ec
    · rw [List.flatMap_append, List.pairwise_append]
      simp only [List.flatMap_singleton, Event.lost, List.append_nil, hes.lost]
      refine (and_iff_left ⟨List.pairwise_singleton _ _, ?_⟩).symm
      exact fun a ha b _ hfails ↦ (hno a ha hfails).elim
  | @lose _ p queue here first error =>
    obtain ⟨e, he, hfails⟩ := hes.ec.mp error
    refine ⟨?_, nofun, ?_⟩
    · exact iff_of_true error ⟨e, List.mem_append_left _ he, hfails⟩
    · refine iff_of_false (by simp [Event.lost]) fun hpairwise ↦ ?_
      have hcross := (List.pairwise_append.mp hpairwise).2.2
      exact hcross e he _ (List.mem_singleton_self _) hfails trivial
  | @send _ p ok here =>
    have hno : ¬ ∃ e ∈ es, e.Fails := by
      rw [← hes.ec, hes.send p here]
      decide
    refine ⟨?_, nofun, ?_⟩
    · cases ok
      · exact iff_of_true rfl ⟨_, List.mem_append_right _ (List.mem_singleton_self _), trivial⟩
      · refine iff_of_false (by simp) ?_
        simpa [Event.Fails, or_and_right, exists_or] using hno
    · rw [List.flatMap_append, List.pairwise_append]
      simp [Event.lost, hes.lost, Event.Takes]
  | test =>
    refine hes.append rfl (fun p h ↦ ?_) id id
    dsimp only at h
    split at h <;> cases h
  | wait | peek | stop | goOn => exact hes.append rfl nofun id id
  | accept | signal | kick | join | clear | delete => exact hes.append rfl (fun _ h ↦ h) id id

/-- **The memory of the payloads.**  Whatever the two threads do, no payload is used after it is
deleted.  Behind `remove_connection` every payload has been deleted once, provided that the callback
has taken nothing out of the queue behind a `sendto` that failed: all that it takes from then on is
lost. -/
theorem payloads_iff {es : List Event} {s : State} (h : Run Step State.start es s) :
    NotAfterFree (es.flatMap Event.handles) ∧
    (s.main = .gone →
      (Orderly (es.flatMap Event.handles) ↔ es.Pairwise fun e e' ↦ e.Fails → ¬ e'.Takes)) := by
  have hafter := notAfterFree_run h
  have hes := balance_run h
  have hs := inv_run h
  refine ⟨hafter, fun hgone ↦ ?_⟩
  have hone (k : ℕ) : (es.flatMap Event.created).count k ≤ 1 := by
    rw [hes.created]
    exact List.nodup_iff_count_le_one.mp List.nodup_range k
  -- at the end a payload is deleted or lost
  have hend (k : ℕ) : (es.flatMap Event.created).count k =
      (es.flatMap Event.freed).count k + (es.flatMap Event.lost).count k := by
    have := hes.balance k
    rw [hs.gone hgone, hs.joined (.inr hgone)] at this
    simpa [Worker.sending] using this
  rw [← (failures_run h).lost]
  constructor
  · rintro ⟨hfreed, -⟩
    refine List.eq_nil_iff_forall_not_mem.mpr fun k hk ↦ ?_
    have hlost := List.count_pos_iff.mpr hk
    have hcreated : .created k ∈ es.flatMap Event.handles := by
      rw [created_mem_handles, ← List.count_pos_iff]
      have := hend k
      omega
    have hfree := hfreed k hcreated
    rw [count_freed_handles] at hfree
    have := hend k
    have := hone k
    omega
  · intro hnone
    refine ⟨fun k hk ↦ ?_, hafter⟩
    rw [count_freed_handles]
    have hpos := List.count_pos_iff.mpr (created_mem_handles.mp hk)
    have := hend k
    have := hone k
    rw [hnone, List.count_nil] at *
    omega

/-- The message and the empty message are both freed. -/
theorem payloads_echo : Orderly [.created 0, .used 0, .used 0, .freed 0, .created 1, .freed 1] :=
  ((payloads_iff ((run_echo true).append (run_end true))).2 rfl).mpr (by
    simp [Event.Fails, Event.Takes])

/-! ## The thread can be stopped -/

/-- The event is one of the thread that runs `processing`. -/
def Event.works : Event → Bool
  | .test | .wait | .peek | .check _ _ _ | .receive _ | .lose _ | .noPayload | .send _ _ => true
  | _ => false

/-- How many steps the thread takes to its end when `m_processing` is down. -/
def Worker.rank : Worker → ℕ
  | .wait => 4
  | .peek | .receive => 3
  | .check _ | .send _ => 2
  | .test => 1
  | .done => 0

/-- When the flag is down it stays down, and every step of the thread brings it closer to the
end. -/
theorem rank_step {e : Event} {s s' : State} (h : Step e s s') (hflag : s.processing = false) :
    s'.processing = false ∧ s'.worker.rank + (if e.works then 1 else 0) ≤ s.worker.rank := by
  cases h with
  | accept | kick | join | clear | delete => exact ⟨hflag, Nat.le_refl _⟩
  | signal => exact ⟨rfl, Nat.le_refl _⟩
  | test here =>
    rw [here, hflag]
    exact ⟨rfl, Nat.le_refl _⟩
  | goOn here goesOn =>
    rw [hflag] at goesOn
    exact nomatch goesOn.1
  | stop here =>
    rw [here]
    exact ⟨rfl, Nat.le_refl _⟩
  | wait here | peek here | noPayload here | receive here | lose here | send here =>
    rw [here]
    exact ⟨hflag, by simp [Worker.rank, Event.works]⟩

theorem rank_le (w : Worker) : w.rank ≤ 4 := by cases w <;> simp [Worker.rank]

/-- When the empty message is in the queue nothing keeps the thread from going on. -/
theorem works_of_kicked {s : State} (hs : Inv s) (hkicked : s.main = .kicked) :
    s.worker = .done ∨ ∃ e s', e.works = true ∧ Step e s s' := by
  obtain ⟨p, hp, -⟩ := hs.kicked hkicked
  cases hworker : s.worker with
  | done => exact .inl rfl
  | test => exact .inr ⟨_, _, rfl, .test hworker⟩
  | wait => exact .inr ⟨_, _, rfl, .wait hworker (List.ne_nil_of_mem hp)⟩
  | peek => exact .inr ⟨_, _, rfl, .peek hworker⟩
  | check payload =>
    by_cases hgoes : GoesOn payload s.processing false
    · exact .inr ⟨_, _, rfl, .goOn hworker hgoes⟩
    · exact .inr ⟨_, _, rfl, .stop hworker hgoes⟩
  | receive =>
    obtain ⟨q, queue, hqueue, -⟩ := hs.receive hworker
    cases hec : s.ec with
    | false => exact .inr ⟨_, _, rfl, .receive hworker hqueue hec⟩
    | true => exact .inr ⟨_, _, rfl, .lose hworker hqueue hec⟩
  | send q => exact .inr ⟨.send q true, _, rfl, .send hworker⟩

/-- **`join` returns.**  When `remove_connection` has pushed its empty message, the thread that runs
`processing` is never blocked any more, and takes at most four steps to its end, wherever it is and
whatever is in the queue. -/
theorem join_bounded {es : List Event} {s : State} (h : Run Step State.start es s)
    (hkicked : s.main = .kicked) :
    (s.worker = .done ∨ ∃ e s', e.works = true ∧ Step e s s') ∧
    ∀ es' s', Run Step s es' s' → es'.countP Event.works ≤ 4 := by
  have hs := inv_run h
  refine ⟨works_of_kicked hs hkicked, fun es' s' hrun ↦ ?_⟩
  have hflag := hs.flag (by rw [hkicked]; decide)
  have := (hrun.rank_le (I := fun s ↦ s.processing = false) (fun s ↦ s.worker.rank) Event.works
    hflag fun _ _ _ _ hflag hstep ↦ rank_step hstep hflag).2
  have := rank_le s.worker
  omega

/-- The thread is told to stop at the beginning of its loop, and ends. -/
theorem join_echo : [Event.test, .join, .clear ⟨1, 0⟩, .delete].countP Event.works ≤ 4 :=
  (join_bounded (run_echo true) rfl).2 _ _ (run_end true)

/-! ## What is sent back -/

/-- The messages that `accept` puts into the queue. -/
def Event.accepted : Event → List Payload
  | .accept p => [p]
  | _ => []

/-- The empty message. -/
def Event.kicks : Event → List Payload
  | .kick p => [p]
  | _ => []

/-- The payloads that the callback gets and is going to send. -/
def Event.received : Event → List Payload
  | .receive p => [p]
  | _ => []

/-- The payloads that are taken out of the queue otherwise. -/
def Event.dropped : Event → List Payload
  | .lose p | .clear p => [p]
  | _ => []

/-- The payloads that are passed to `sendto`. -/
def Event.sent : Event → List Payload
  | .send p _ => [p]
  | _ => []

/-- What has become of the messages. -/
structure Order (es : List Event) (s : State) : Prop where
  /-- They leave the queue in the order in which they came. -/
  order : es.flatMap Event.accepted ++ es.flatMap Event.kicks =
    es.flatMap Event.received ++ es.flatMap Event.dropped ++ s.queue
  /-- Messages are not empty. -/
  some : ∀ p ∈ es.flatMap Event.received, p.size ≠ 0
  /-- The empty message is. -/
  empty : ∀ p ∈ es.flatMap Event.kicks, p.size = 0
  /-- Nothing is accepted behind the empty message. -/
  last : s.main = .serving ∨ s.main = .signalled → es.flatMap Event.kicks = []
  /-- Nothing is sent when something was dropped. -/
  dropped : s.worker ≠ .done → s.ec = false → es.flatMap Event.dropped = []
  /-- What was received was sent, or is about to be. -/
  sent : es.flatMap Event.received = es.flatMap Event.sent ++ s.worker.sending

theorem order_start : Order [] State.start where
  order := rfl
  some _ h := absurd h List.not_mem_nil
  empty _ h := absurd h List.not_mem_nil
  last _ := rfl
  dropped _ _ := rfl
  sent := rfl

theorem Order.append {es : List Event} {e : Event} {s s' : State} (hes : Order es s)
    (he : e.accepted = [] ∧ e.kicks = [] ∧ e.received = [] ∧ e.dropped = [] ∧ e.sent = [])
    (hqueue : s'.queue = s.queue)
    (hmain : s'.main = .serving ∨ s'.main = .signalled → s.main = .serving ∨ s.main = .signalled)
    (hdropped : s'.worker ≠ .done → s'.ec = false → s.worker ≠ .done ∧ s.ec = false)
    (hsending : s'.worker.sending = s.worker.sending) : Order (es ++ [e]) s' := by
  obtain ⟨haccepted, hkicks, hreceived, hdrops, hsent⟩ := he
  constructor <;> simp only [List.flatMap_append, List.flatMap_singleton, haccepted, hkicks,
    hreceived, hdrops, hsent, List.append_nil, hqueue, hsending]
  · exact hes.order
  · exact hes.some
  · exact hes.empty
  · exact fun h ↦ hes.last (hmain h)
  · exact fun h h' ↦ hes.dropped (hdropped h h').1 (hdropped h h').2
  · exact hes.sent

theorem Order.push {es : List Event} {e : Event} {s s' : State} (hes : Order es s) {p : Payload}
    (he : e.accepted ++ e.kicks = [p] ∧ e.received = [] ∧ e.dropped = [] ∧ e.sent = [])
    (hempty : ∀ q ∈ e.kicks, q.size = 0) (hlast : es.flatMap Event.kicks = [])
    (hmain : s'.main = .serving ∨ s'.main = .signalled → e.kicks = [])
    (hs : s'.queue = s.queue ++ [p] ∧ s'.worker = s.worker ∧ s'.ec = s.ec) :
    Order (es ++ [e]) s' := by
  obtain ⟨hp, hreceived, hdrops, hsent⟩ := he
  obtain ⟨hqueue, hworker, hec⟩ := hs
  have horder := hes.order
  rw [hlast, List.append_nil] at horder
  constructor <;> simp only [List.flatMap_append, List.flatMap_singleton, hlast, hreceived, hdrops,
    hsent, List.append_nil, List.nil_append, hqueue, hworker, hec]
  · rw [List.append_assoc, hp, horder, List.append_assoc]
  · exact hes.some
  · exact hempty
  · exact hmain
  · exact hes.dropped
  · exact hes.sent

theorem order_step {es : List Event} {e : Event} {s s' : State} (hs : Inv s)
    (hfailures : Failures es s) (hstep : Step e s s') (hes : Order es s) :
    Order (es ++ [e]) s' := by
  cases hstep with
  | accept serving =>
    exact hes.push ⟨rfl, rfl, rfl, rfl⟩ (fun _ h ↦ absurd h List.not_mem_nil)
      (hes.last (.inl serving)) (fun _ ↦ rfl) ⟨rfl, rfl, rfl⟩
  | kick signalled =>
    refine hes.push ⟨rfl, rfl, rfl, rfl⟩ (fun q h ↦ ?_) (hes.last (.inr signalled)) (fun h ↦ ?_)
      ⟨rfl, rfl, rfl⟩
    · rw [List.mem_singleton.mp h]
    · rcases h with h | h <;> cases h
  | clear joined first =>
    have horder := hes.order
    rw [first] at horder
    constructor <;> simp only [List.flatMap_append, List.flatMap_singleton, Event.accepted,
      Event.kicks, Event.received, Event.dropped, Event.sent, List.append_nil, horder]
    · simp
    · exact hes.some
    · exact hes.empty
    · exact fun h ↦ by rw [joined] at h; rcases h with h | h <;> cases h
    · exact fun h ↦ (h (hs.joined (.inl joined))).elim
    · exact hes.sent
  | @receive _ p queue here first noError =>
    have hdropped := hes.dropped (by rw [here]; decide) noError
    have horder := hes.order
    have hsent := hes.sent
    obtain ⟨q, queue', hqueue, hsize⟩ := hs.receive here
    rw [first] at hqueue
    obtain ⟨rfl, rfl⟩ := List.cons.inj hqueue
    rw [first, hdropped] at horder
    rw [here] at hsent
    constructor <;> simp only [List.flatMap_append, List.flatMap_singleton, Event.accepted,
      Event.kicks, Event.received, Event.dropped, Event.sent, List.append_nil, hdropped, horder]
    · simp
    · intro q hq
      rcases List.mem_append.mp hq with hq | hq
      · exact hes.some q hq
      · rw [List.mem_singleton.mp hq]
        exact hsize
    · exact hes.empty
    · exact hes.last
    · exact fun _ _ ↦ trivial
    · rw [hsent]
      simp [Worker.sending]
  | lose here first error =>
    have horder := hes.order
    have hsent := hes.sent
    rw [first] at horder
    rw [here] at hsent
    constructor <;> simp only [List.flatMap_append, List.flatMap_singleton, Event.accepted,
      Event.kicks, Event.received, Event.dropped, Event.sent, List.append_nil, horder]
    · simp
    · exact hes.some
    · exact hes.empty
    · exact hes.last
    · exact fun _ h ↦ by rw [error] at h; cases h
    · rw [hsent]
      simp [Worker.sending]
  | @send _ p ok here =>
    have hsent := hes.sent
    rw [here] at hsent
    constructor <;> simp only [List.flatMap_append, List.flatMap_singleton, Event.accepted,
      Event.kicks, Event.received, Event.dropped, Event.sent, List.append_nil]
    · exact hes.order
    · exact hes.some
    · exact hes.empty
    · exact hes.last
    · exact fun _ _ ↦ hes.dropped (by rw [here]; exact nofun) (hfailures.send _ here)
    · rw [hsent]
      simp [Worker.sending]
  | noPayload here empty =>
    obtain ⟨p, queue, hqueue, -⟩ := hs.receive here
    rw [empty] at hqueue
    cases hqueue
  | signal serving =>
    exact hes.append ⟨rfl, rfl, rfl, rfl, rfl⟩ rfl (fun _ ↦ .inl serving) (fun h h' ↦ ⟨h, h'⟩) rfl
  | join | delete =>
    refine hes.append ⟨rfl, rfl, rfl, rfl, rfl⟩ rfl (fun h ↦ ?_) (fun h h' ↦ ⟨h, h'⟩) rfl
    rcases h with h | h <;> cases h
  | test here =>
    refine hes.append ⟨rfl, rfl, rfl, rfl, rfl⟩ rfl id (fun _ h ↦ ⟨by rw [here]; decide, h⟩) ?_
    rw [here]
    dsimp only
    split <;> rfl
  | wait here | peek here | stop here | goOn here =>
    exact hes.append ⟨rfl, rfl, rfl, rfl, rfl⟩ rfl id (fun _ h ↦ ⟨by rw [here]; exact nofun, h⟩)
      (by rw [here]; rfl)

theorem order_run {es : List Event} {s : State} (h : Run Step State.start es s) : Order es s :=
  h.invariant order_start fun _ _ _ _ hrun hes hstep ↦
    order_step (inv_run hrun) (failures_run hrun) hstep hes

/-- **The echo**: what is passed to `sendto` is an initial part of the messages that were accepted,
in the order in which they came; no message is sent twice, none is passed over, and the empty
message that stops the thread is not sent. -/
theorem sent_prefix {es : List Event} {s : State} (h : Run Step State.start es s) :
    es.flatMap Event.sent <+: es.flatMap Event.accepted := by
  have hes := order_run h
  have hsent : es.flatMap Event.sent <+: es.flatMap Event.received := ⟨_, hes.sent.symm⟩
  refine hsent.trans ?_
  have horder := hes.order
  rw [List.append_assoc, List.append_eq_append_iff] at horder
  rcases horder with ⟨more, hreceived, hkicks⟩ | ⟨rest, haccepted, -⟩
  · -- what is received behind the messages would be the empty message
    cases more with
    | nil =>
      rw [List.append_nil] at hreceived
      exact ⟨[], by rw [List.append_nil, hreceived]⟩
    | cons p more =>
      refine absurd (hes.empty p ?_) (hes.some p ?_)
      · rw [hkicks]
        exact List.mem_append_left _ List.mem_cons_self
      · rw [hreceived]
        exact List.mem_append_right _ List.mem_cons_self
  · exact ⟨rest, haccepted.symm⟩

/-- The message that was accepted is sent back, although `sendto` fails. -/
theorem sent_echo : [(⟨0, 5⟩ : Payload)] <+: [⟨0, 5⟩] :=
  sent_prefix (run_echo false)

end UdpServer
end Coap
