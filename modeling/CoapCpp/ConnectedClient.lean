import CoapCpp.Interleaving
import Mathlib.Data.List.Count

/-!
# The thread behind a client of the CoAP server

`examples/POSIX/coap-server` gives every client a `ConnectedClient`, which is a `ServerEndpoint` of
`src/unix/unix_endpoint.cc`, and a thread that runs `processing`.  The thread of the server puts a
message into the queue of the client and sets a flag; the other thread finds the flag, clears it
and starts the state machine of the endpoint, which it takes one step further each time.

The threads are interleaved at their accesses to what they share.

* `handled_when_left_alone`: the flag is not overlooked.  Whenever it is up, a request is handled
  once the thread gets a few steps for itself.
* `starves`: it has to get them.  A client that sends often enough is never handled.
* `stops`: the thread that is told to stop does stop.
* `keeps_all`: nothing is ever taken out of the queue, and nothing is sent.
-/

set_option autoImplicit false

namespace Coap

open Interleaving

namespace CoapServer

/-! ## The endpoint -/

/-- `ServerEndpoint::State` -/
inductive EndpointState where
  /-- `IDLE` -/
  | idle
  /-- `RECEIVE_REQUEST` -/
  | receiveRequest
  /-- `HANDLE_REQUEST` -/
  | handleRequest
  /-- `ERROR` -/
  | error
  /-- `COMPLETE` -/
  | complete
deriving DecidableEq

/-- `ServerEndpoint`, as far as its thread uses it alone.  Its `m_ec` is never set. -/
structure ServerEndpoint where
  /-- `m_currentState` -/
  currentState : EndpointState
  /-- `m_nextState` -/
  nextState : EndpointState
  /-- `m_receiving` -/
  receiving : Bool
  /-- `m_sending` -/
  sending : Bool

/-- The constructor. -/
def ServerEndpoint.new : ServerEndpoint := ⟨.idle, .idle, false, false⟩

/-- `start` -/
def ServerEndpoint.start (ep : ServerEndpoint) : ServerEndpoint :=
  { ep with nextState := .receiveRequest }

/-- The handler of a state. -/
def ServerEndpoint.handler (ep : ServerEndpoint) : EndpointState → ServerEndpoint
  | .idle => { ep with receiving := false, sending := false, nextState := .idle }
  | .receiveRequest => { ep with receiving := true, sending := false, nextState := .handleRequest }
  | .handleRequest => { ep with receiving := false, sending := false, nextState := .complete }
  | .error => { ep with nextState := .idle }
  | .complete => { ep with nextState := .idle }

/-- `transaction_step` -/
def ServerEndpoint.transactionStep (ep : ServerEndpoint) : ServerEndpoint :=
  let ep := { ep with currentState := ep.nextState }
  ep.handler ep.currentState

/-! ## The threads -/

/-- Where the thread is that runs `processing`. -/
inductive Worker where
  /-- At the condition of the loop. -/
  | loop
  /-- At the condition of the first `if`. -/
  | check
  /-- In front of `m_processing = false`. -/
  | expire
  /-- In front of `received()`. -/
  | load
  /-- In front of `received(false)`. -/
  | clear
  /-- In front of `start()`. -/
  | start
  /-- In front of `transaction_step`. -/
  | step
  /-- The thread has finished. -/
  | done
deriving DecidableEq

/-- `ConnectedClient`, and the threads that use it. -/
structure State where
  /-- The endpoint. -/
  endpoint : ServerEndpoint
  /-- `m_receiveQueue` -/
  receiveQueue : List (List UInt8)
  /-- `m_received` -/
  received : Bool
  /-- `m_processing` -/
  processing : Bool
  /-- The thread of the server is in front of `received(true)`. -/
  flagging : Bool
  /-- The thread that runs `processing`. -/
  worker : Worker

/-- The thread has been started. -/
def State.start : State := ⟨.new, [], false, true, false, .loop⟩

/-- What the threads do. -/
inductive Event where
  /-- `receiveQueue().push` -/
  | push (message : List UInt8)
  /-- `received(true)` -/
  | flag
  /-- `remove_connected_client` sets `m_processing` to `false`. -/
  | stop
  /-- The condition of the loop is evaluated. -/
  | loop
  /-- The condition of the first `if` is evaluated. -/
  | check (timedOut : Bool)
  /-- `m_processing = false` -/
  | expire
  /-- `received()` -/
  | load
  /-- `received(false)` -/
  | clear
  /-- `start()` -/
  | start
  /-- `transaction_step`, with the state it handles. -/
  | transaction (state : EndpointState)
deriving DecidableEq

/-- The steps of the threads. -/
inductive Step : Event → State → State → Prop
  | push {s : State} {message : List UInt8} (here : s.flagging = false) :
      Step (.push message) s
        { s with receiveQueue := s.receiveQueue ++ [message], flagging := true }
  | flag {s : State} (here : s.flagging = true) :
      Step .flag s { s with received := true, flagging := false }
  | stop {s : State} : Step .stop s { s with processing := false }
  | loop {s : State} (here : s.worker = .loop) :
      Step .loop s { s with worker := if s.processing then .check else .done }
  | check {s : State} {timedOut : Bool} (here : s.worker = .check) :
      Step (.check timedOut) s
        { s with worker := if s.processing = false ∨ timedOut = true then .expire else .load }
  | expire {s : State} (here : s.worker = .expire) :
      Step .expire s { s with processing := false, worker := .loop }
  | load {s : State} (here : s.worker = .load) :
      Step .load s { s with worker := if s.received then .clear else .step }
  | clear {s : State} (here : s.worker = .clear) :
      Step .clear s { s with received := false, worker := .start }
  | start {s : State} (here : s.worker = .start) :
      Step .start s { s with endpoint := s.endpoint.start, worker := .step }
  | transaction {s : State} (here : s.worker = .step) :
      Step (.transaction s.endpoint.nextState) s
        { s with endpoint := s.endpoint.transactionStep, worker := .loop }

/-- The thread that runs `processing` makes the step. -/
def Event.works : Event → Bool
  | .push _ | .flag | .stop => false
  | _ => true

/-! ## The flag is not overlooked -/

/-- The thread has found the flag, and has not started the endpoint yet. -/
def Worker.told : Worker → Bool
  | .clear | .start => true
  | _ => false

/-- The endpoint has been started, and has not handled the request yet. -/
def EndpointState.pending : EndpointState → Bool
  | .receiveRequest | .handleRequest => true
  | _ => false

/-- The flag is up, or it was found and the request has not been handled yet. -/
def State.Busy (s : State) : Prop :=
  s.received = true ∨ s.worker.told = true ∨ s.endpoint.nextState.pending = true

/-- There is something to do until a request is handled. -/
theorem busy_step {e : Event} {s s' : State} (h : Step e s s') (hs : s.Busy) :
    s'.Busy ∨ e = .transaction .handleRequest := by
  cases h with
  | push | stop => exact .inl hs
  | flag => exact .inl (.inl rfl)
  | clear => exact .inl (.inr (.inl rfl))
  | start => exact .inl (.inr (.inr rfl))
  | loop here | check here | expire here =>
    rw [State.Busy, here] at hs
    exact .inl (hs.imp_right fun h ↦ .inr (h.resolve_left nofun))
  | load here =>
    rw [State.Busy, here] at hs
    left
    rcases hs with h | h | h
    · exact .inl h
    · cases h
    · exact .inr (.inr h)
  | transaction here =>
    rw [State.Busy, here] at hs
    rcases hs with h | h | h
    · exact .inl (.inl h)
    · cases h
    · cases hnext : s.endpoint.nextState with
      | receiveRequest =>
        left
        right
        right
        simp [ServerEndpoint.transactionStep, ServerEndpoint.handler, hnext,
          EndpointState.pending]
      | handleRequest => exact .inr rfl
      | idle | error | complete =>
        rw [hnext] at h
        cases h

/-- When the flag has been set there is something to do until a request is handled. -/
theorem busy_run {es bs : List Event} {s : State} (h : Run Step State.start (es ++ .flag :: bs) s) :
    s.Busy ∨ .transaction .handleRequest ∈ bs := by
  rw [List.append_cons] at h
  obtain ⟨s₁, hes, hbs⟩ := run_append.mp h
  obtain ⟨s₀, -, hflag⟩ := run_append_singleton.mp hes
  have hbusy : s₁.Busy := by
    cases hflag
    exact .inl rfl
  refine hbs.invariant (I := fun bs s ↦ s.Busy ∨ .transaction .handleRequest ∈ bs) (.inl hbusy) ?_
  rintro bs e s s' - (hs | hs) hstep
  · rcases busy_step hstep hs with hs' | rfl
    · exact .inl hs'
    · exact .inr (List.mem_append_right _ List.mem_cons_self)
  · exact .inr (List.mem_append_left _ hs)

/-- The thread goes on, and its client has not timed out. -/
def Event.Alone (e : Event) : Prop := e.works = true ∧ e ≠ .check true

/-- The thread has been told nothing, and its client has not timed out. -/
structure State.Alive (s : State) : Prop where
  /-- `m_processing` is up. -/
  processing : s.processing = true
  /-- It is not about to be taken down. -/
  expire : s.worker ≠ .expire
  /-- The thread has not finished. -/
  done : s.worker ≠ .done

theorem alive_step {e : Event} {s s' : State} (h : Step e s s') (he : e.Alone) (hs : s.Alive) :
    s'.Alive := by
  obtain ⟨hprocessing, hexpire, -⟩ := hs
  cases h with
  | push | flag | stop => exact absurd he.1 nofun
  | expire here => exact absurd here hexpire
  | loop =>
    rw [if_pos hprocessing]
    exact ⟨hprocessing, nofun, nofun⟩
  | @check _ timedOut =>
    have htime : ¬ (s.processing = false ∨ timedOut = true) := by
      rintro (h | rfl)
      · rw [hprocessing] at h
        cases h
      · exact he.2 rfl
    rw [if_neg htime]
    exact ⟨hprocessing, nofun, nofun⟩
  | load => refine ⟨hprocessing, ?_, ?_⟩ <;> dsimp only <;> split <;> exact nofun
  | clear | start | transaction => exact ⟨hprocessing, nofun, nofun⟩

theorem alone_step {s : State} (hs : s.Alive) : ∃ e s', e.Alone ∧ Step e s s' := by
  cases hworker : s.worker with
  | loop => exact ⟨.loop, _, ⟨rfl, nofun⟩, .loop hworker⟩
  | check => exact ⟨.check false, _, ⟨rfl, nofun⟩, .check hworker⟩
  | load => exact ⟨.load, _, ⟨rfl, nofun⟩, .load hworker⟩
  | clear => exact ⟨.clear, _, ⟨rfl, nofun⟩, .clear hworker⟩
  | start => exact ⟨.start, _, ⟨rfl, nofun⟩, .start hworker⟩
  | step => exact ⟨.transaction _, _, ⟨rfl, Event.noConfusion⟩, .transaction hworker⟩
  | expire => exact absurd hworker hs.expire
  | done => exact absurd hworker hs.done

theorem alone_run {s : State} (hs : s.Alive) (n : ℕ) :
    ∃ cs s', Run Step s cs s' ∧ (∀ e ∈ cs, e.Alone) ∧ cs.length = n ∧ s'.Alive := by
  induction n with
  | zero => exact ⟨[], s, .start, nofun, rfl, hs⟩
  | succ n ih =>
    obtain ⟨cs, s₁, hrun, hcs, hlen, hs₁⟩ := ih
    obtain ⟨e, s', he, hstep⟩ := alone_step hs₁
    refine ⟨cs ++ [e], s', hrun.next hstep, fun e' he' ↦ ?_, ?_, alive_step hstep he hs₁⟩
    · rcases List.mem_append.mp he' with he' | he'
      · exact hcs e' he'
      · rw [List.mem_singleton.mp he']
        exact he
    · rw [List.length_append, List.length_singleton, hlen]

/-- How many steps the thread takes to the point where it clears the flag, if the flag is up. -/
def Worker.toClear : Worker → ℕ
  | .start => 5
  | .step => 4
  | .loop => 3
  | .check => 2
  | .load => 1
  | _ => 0

/-- How many steps the thread takes to the end of the next `transaction_step`, if the flag is
down. -/
def Worker.toTransaction : Worker → ℕ
  | .loop => 4
  | .check => 3
  | .load => 2
  | .step => 1
  | _ => 0

/-- How many steps the thread takes to handle a request, when it is alone. -/
def State.rank (s : State) : ℕ :=
  if s.worker = .clear ∨ s.received = true then 7 + s.worker.toClear
  else if s.worker = .start then 6
  else match s.endpoint.nextState with
    | .receiveRequest => 4 + s.worker.toTransaction
    | .handleRequest => s.worker.toTransaction
    | _ => 0

theorem rank_le (s : State) : s.rank ≤ 12 := by
  have hclear : s.worker.toClear ≤ 5 := by cases s.worker <;> simp [Worker.toClear]
  have htransaction : s.worker.toTransaction ≤ 4 := by
    cases s.worker <;> simp [Worker.toTransaction]
  unfold State.rank
  split
  · omega
  · split
    · omega
    · split <;> omega

theorem toTransaction_pos {w : Worker} (htold : w.told = false) (hexpire : w ≠ .expire)
    (hdone : w ≠ .done) : 0 < w.toTransaction := by
  cases w with
  | clear | start => cases htold
  | expire => exact absurd rfl hexpire
  | done => exact absurd rfl hdone
  | loop | check | load | step => exact Nat.succ_pos _

/-- A thread that has something to do is not at its end. -/
theorem rank_pos {s : State} (hs : s.Alive) (hbusy : s.Busy) : 0 < s.rank := by
  unfold State.rank
  split
  · omega
  · rename_i hclear
    split
    · omega
    · rename_i hstart
      have htold : s.worker.told = false := by
        cases hworker : s.worker with
        | clear => exact absurd (.inl hworker) hclear
        | start => exact absurd hworker hstart
        | loop | check | expire | load | step | done => rfl
      have hround := toTransaction_pos htold hs.expire hs.done
      rcases hbusy with h | h | h
      · exact absurd (.inr h) hclear
      · rw [htold] at h
        cases h
      · cases hnext : s.endpoint.nextState with
        | receiveRequest => exact Nat.lt_of_lt_of_le hround (Nat.le_add_left _ _)
        | handleRequest => exact hround
        | idle | error | complete =>
          rw [hnext] at h
          cases h

/-- Every step takes the thread closer to handling the request. -/
theorem rank_step {e : Event} {s s' : State} (h : Step e s s') (he : e.Alone)
    (hhandle : e ≠ .transaction .handleRequest) (hs : s.Alive) (hbusy : s.Busy) :
    s'.rank + 1 ≤ s.rank := by
  have hpos := rank_pos hs hbusy
  have hs' := alive_step h he hs
  cases h with
  | push | flag | stop => exact absurd he.1 nofun
  | expire here => exact absurd here hs.expire
  | loop here =>
    rw [if_pos hs.processing]
    cases hreceived : s.received <;> cases hnext : s.endpoint.nextState <;>
      simp [State.rank, here, hreceived, hnext, Worker.toClear, Worker.toTransaction] at hpos ⊢
  | check here =>
    rw [if_neg fun h ↦ hs'.expire (if_pos h)]
    cases hreceived : s.received <;> cases hnext : s.endpoint.nextState <;>
      simp [State.rank, here, hreceived, hnext, Worker.toClear, Worker.toTransaction] at hpos ⊢
  | load here =>
    cases hreceived : s.received <;> cases hnext : s.endpoint.nextState <;>
      simp [State.rank, here, hreceived, hnext, Worker.toClear, Worker.toTransaction] at hpos ⊢
  | clear here => simp [State.rank, here, Worker.toClear]
  | start here =>
    cases hreceived : s.received <;>
      simp [State.rank, here, hreceived, ServerEndpoint.start, Worker.toClear,
        Worker.toTransaction]
  | transaction here =>
    cases hreceived : s.received <;> cases hnext : s.endpoint.nextState <;>
      simp [State.rank, here, hreceived, hnext, ServerEndpoint.transactionStep,
        ServerEndpoint.handler, Worker.toClear, Worker.toTransaction] at hpos hhandle ⊢

/-- **The flag is not overlooked.**  When the flag is up, or was found and its request has not been
handled yet, and the thread, wherever it is, takes twelve steps while its client sends nothing more,
has not timed out and is not removed, then one of these steps handles a request; and the thread can
always take them.  Behind a flag this goes for every state up to the next request that is
handled. -/
theorem handled_when_left_alone {s : State} (hs : s.Alive) :
    (s.Busy → ∀ cs s', Run Step s cs s' → (∀ e ∈ cs, e.Alone) → 12 ≤ cs.length →
      .transaction .handleRequest ∈ cs) ∧
    (∀ n, ∃ cs s', Run Step s cs s' ∧ (∀ e ∈ cs, e.Alone) ∧ cs.length = n) ∧
    ∀ es bs, Run Step State.start (es ++ .flag :: bs) s → .transaction .handleRequest ∉ bs →
      s.Busy := by
  refine ⟨fun hbusy cs s' hrun hcs hlen ↦ ?_, fun n ↦ ?_, fun es bs hrun hbs ↦
    (busy_run hrun).resolve_right hbs⟩
  · by_contra hhandle
    have hrank := hrun.rank_le (I := fun s ↦ s.Alive ∧ s.Busy) State.rank (fun _ ↦ true)
      ⟨hs, hbusy⟩ ?_
    · obtain ⟨⟨hs', hbusy'⟩, hle⟩ := hrank
      have := rank_pos hs' hbusy'
      have := rank_le s
      rw [List.countP_true] at hle
      omega
    · rintro e s₁ s₂ he ⟨hs₁, hbusy₁⟩ hstep
      have hne : e ≠ .transaction .handleRequest := by
        rintro rfl
        exact hhandle he
      exact ⟨⟨alive_step hstep (hcs e he) hs₁, (busy_step hstep hbusy₁).resolve_right hne⟩,
        rank_step hstep (hcs e he) hne hs₁ hbusy₁⟩
  · obtain ⟨cs, s', hrun, hcs, hlen, -⟩ := alone_run hs n
    exact ⟨cs, s', hrun, hcs, hlen⟩

/-- The first message arrives before the thread has made a step. -/
theorem handled_first : ∃ cs s', Run Step ⟨.new, [[64]], true, true, false, .loop⟩ cs s' ∧
    .transaction .handleRequest ∈ cs := by
  obtain ⟨hhandled, hsteps, -⟩ :=
    @handled_when_left_alone ⟨.new, [[64]], true, true, false, .loop⟩ ⟨rfl, nofun, nofun⟩
  obtain ⟨cs, s', hrun, halone, hlength⟩ := hsteps 12
  exact ⟨cs, s', hrun, hhandled (.inl rfl) cs s' hrun halone (Nat.le_of_eq hlength.symm)⟩

/-! ## The thread has to be left alone -/

/-- A message arrives, and the thread finds the flag in its next round. -/
def round (message : List UInt8) : List Event :=
  [.push message, .flag, .loop, .check false, .load, .clear, .start, .transaction .receiveRequest]

theorem round_run (endpoint : ServerEndpoint) (queue : List (List UInt8)) (message : List UInt8) :
    Run Step ⟨endpoint, queue, false, true, false, .loop⟩ (round message)
      ⟨endpoint.start.transactionStep, queue ++ [message], false, true, false, .loop⟩ := by
  have hpush : Run Step ⟨endpoint, queue, false, true, false, .loop⟩ [.push message, .flag]
      ⟨endpoint, queue ++ [message], true, true, false, .loop⟩ :=
    (Run.one (.push rfl)).next (.flag rfl)
  have hfind : Run Step ⟨endpoint, queue ++ [message], true, true, false, .loop⟩
      [.loop, .check false, .load, .clear]
      ⟨endpoint, queue ++ [message], false, true, false, .start⟩ :=
    (((Run.one (.loop rfl)).next (.check rfl)).next (.load rfl)).next (.clear rfl)
  have hstart : Run Step ⟨endpoint, queue ++ [message], false, true, false, .start⟩ [.start]
      ⟨endpoint.start, queue ++ [message], false, true, false, .step⟩ := Run.one (.start rfl)
  have hreceive : Step (.transaction .receiveRequest)
      ⟨endpoint.start, queue ++ [message], false, true, false, .step⟩
      ⟨endpoint.start.transactionStep, queue ++ [message], false, true, false, .loop⟩ :=
    .transaction (s := ⟨endpoint.start, queue ++ [message], false, true, false, .step⟩) rfl
  exact (hpush.append hfind).append (hstart.next hreceive)

/-- **A client that sends often enough is never handled.**  Whatever it sends, the thread may be
given all the steps it wants, find the flag of every message, and receive a request each time,
without ever handling one: each message makes it start again. -/
theorem starves (messages : List (List UInt8)) :
    ∃ es s, Run Step State.start es s ∧ s.receiveQueue = messages ∧
      es.count (.transaction .receiveRequest) = messages.length ∧
      .transaction .handleRequest ∉ es := by
  suffices h : ∃ endpoint, Run Step State.start (messages.flatMap round)
      ⟨endpoint, messages, false, true, false, .loop⟩ by
    obtain ⟨endpoint, hrun⟩ := h
    refine ⟨_, _, hrun, rfl, ?_, ?_⟩
    · clear hrun
      induction messages with
      | nil => rfl
      | cons message messages ih =>
        rw [List.flatMap_cons, List.count_append, ih, List.length_cons, Nat.add_comm]
        simp [round]
    · simp [round]
  induction messages using List.reverseRecOn with
  | nil => exact ⟨_, .start⟩
  | append_singleton messages message ih =>
    obtain ⟨endpoint, hrun⟩ := ih
    rw [List.flatMap_append, List.flatMap_singleton]
    exact ⟨_, hrun.append (round_run endpoint messages message)⟩

/-! ## The thread can be stopped -/

/-- How many steps the thread takes to its end when `m_processing` is down. -/
def Worker.toDone : Worker → ℕ
  | .load => 5
  | .clear => 4
  | .start | .check => 3
  | .step | .expire => 2
  | .loop => 1
  | .done => 0

/-- When the flag is down it stays down, and every step of the thread brings it closer to the
end. -/
theorem toDone_step {e : Event} {s s' : State} (h : Step e s s') (hflag : s.processing = false) :
    s'.processing = false ∧ s'.worker.toDone + (if e.works then 1 else 0) ≤ s.worker.toDone := by
  cases h with
  | push | flag => exact ⟨hflag, Nat.le_refl _⟩
  | stop => exact ⟨rfl, Nat.le_refl _⟩
  | loop here =>
    rw [here, hflag]
    exact ⟨rfl, Nat.le_refl _⟩
  | check here =>
    rw [here, if_pos (.inl hflag)]
    exact ⟨hflag, Nat.le_refl _⟩
  | expire here =>
    rw [here]
    exact ⟨rfl, Nat.le_refl _⟩
  | load here =>
    rw [here]
    refine ⟨hflag, ?_⟩
    dsimp only
    split <;> simp [Worker.toDone, Event.works]
  | clear here | start here | transaction here =>
    rw [here]
    exact ⟨hflag, Nat.le_refl _⟩

theorem toDone_le (w : Worker) : w.toDone ≤ 5 := by cases w <;> simp [Worker.toDone]

theorem works_of_not_done {s : State} (h : s.worker ≠ .done) :
    ∃ e s', e.works = true ∧ Step e s s' := by
  cases hworker : s.worker with
  | loop => exact ⟨_, _, rfl, .loop hworker⟩
  | check => exact ⟨.check true, _, rfl, .check hworker⟩
  | expire => exact ⟨_, _, rfl, .expire hworker⟩
  | load => exact ⟨_, _, rfl, .load hworker⟩
  | clear => exact ⟨_, _, rfl, .clear hworker⟩
  | start => exact ⟨_, _, rfl, .start hworker⟩
  | step => exact ⟨_, _, rfl, .transaction hworker⟩
  | done => exact absurd hworker h

theorem stopped_run {es : List Event} {s : State} (h : Run Step State.start es s)
    (hstop : .stop ∈ es ∨ .expire ∈ es) : s.processing = false := by
  refine h.invariant (I := fun es s ↦ .stop ∈ es ∨ .expire ∈ es → s.processing = false) ?_ ?_ hstop
  · rintro (h | h) <;> cases h
  · intro es e s s' _ ih hstep hstop
    by_cases hes : .stop ∈ es ∨ .expire ∈ es
    · exact (toDone_step hstep (ih hes)).1
    · have he : e = .stop ∨ e = .expire := by
        rcases hstop with h | h <;> rcases List.mem_append.mp h with h | h
        · exact absurd (.inl h) hes
        · exact .inl (List.mem_singleton.mp h).symm
        · exact absurd (.inr h) hes
        · exact .inr (List.mem_singleton.mp h).symm
      rcases he with rfl | rfl <;> cases hstep <;> rfl

/-- **`join` returns.**  When `m_processing` has been taken down, by `remove_connected_client` or
because the client has timed out, the thread takes at most five more steps to its end, whatever
arrives meanwhile, and is not blocked before. -/
theorem stops {es : List Event} {s : State} (h : Run Step State.start es s)
    (hstop : .stop ∈ es ∨ .expire ∈ es) :
    (s.worker = .done ∨ ∃ e s', e.works = true ∧ Step e s s') ∧
    ∀ es' s', Run Step s es' s' → es'.countP Event.works ≤ 5 := by
  have hflag := stopped_run h hstop
  constructor
  · by_cases hdone : s.worker = .done
    · exact .inl hdone
    · exact .inr (works_of_not_done hdone)
  · intro es' s' hrun
    have := (hrun.rank_le (I := fun s ↦ s.processing = false) (fun s ↦ s.worker.toDone)
      Event.works hflag fun _ _ _ _ hflag hstep ↦ toDone_step hstep hflag).2
    have := toDone_le s.worker
    omega

/-- The client is removed when the thread is about to look for its first message. -/
theorem stops_first :
    [Event.load, .clear, .start, .transaction .receiveRequest, .loop].countP Event.works ≤ 5 := by
  have hstop : Run Step State.start [.push [64], .flag, .loop, .check false, .stop]
      ⟨.new, [[64]], true, false, false, .load⟩ :=
    ((((Run.one (.push rfl)).next (.flag rfl)).next (.loop rfl)).next (.check rfl)).next .stop
  have hfind : Run Step ⟨.new, [[64]], true, false, false, .load⟩ [.load, .clear, .start]
      ⟨ServerEndpoint.new.start, [[64]], false, false, false, .step⟩ :=
    ((Run.one (.load rfl)).next (.clear rfl)).next (.start rfl)
  have hend : Run Step ⟨ServerEndpoint.new.start, [[64]], false, false, false, .step⟩
      [.transaction .receiveRequest, .loop]
      ⟨ServerEndpoint.new.start.transactionStep, [[64]], false, false, false, .done⟩ :=
    (Run.one (Step.transaction (s := ⟨ServerEndpoint.new.start, _, _, _, _, _⟩) rfl)).next
      (.loop rfl)
  exact (stops hstop (.inl (by simp))).2 _ _ (hfind.append hend)

/-! ## What is left behind -/

/-- The message that is put into the queue. -/
def Event.pushed : Event → List (List UInt8)
  | .push message => [message]
  | _ => []

/-- What the endpoint has done. -/
structure Handling (es : List Event) (s : State) : Prop where
  /-- Nothing is to be sent. -/
  sending : s.endpoint.sending = false
  /-- The endpoint does not go wrong. -/
  next : s.endpoint.nextState ≠ .error
  /-- It has not gone wrong. -/
  error : .transaction .error ∉ es
  /-- A request is received before it is handled. -/
  handled : es.count (.transaction .handleRequest) +
    (if s.endpoint.nextState = .handleRequest then 1 else 0) ≤
      es.count (.transaction .receiveRequest)
  /-- The endpoint is started before it receives. -/
  received : es.count (.transaction .receiveRequest) +
    (if s.endpoint.nextState = .receiveRequest then 1 else 0) ≤ es.count .start

theorem count_append_of_ne {es : List Event} {e e' : Event} (h : e ≠ e') :
    (es ++ [e]).count e' = es.count e' := by
  rw [List.count_append, List.count_eq_zero_of_not_mem (l := [e]), Nat.add_zero]
  exact fun h' ↦ h (List.mem_singleton.mp h').symm

theorem Handling.append {es : List Event} {e : Event} {s s' : State} (hes : Handling es s)
    (htransaction : ∀ state, e ≠ .transaction state) (hstart : e ≠ .start)
    (hendpoint : s'.endpoint = s.endpoint) : Handling (es ++ [e]) s' where
  sending := by rw [hendpoint, hes.sending]
  next := by
    rw [hendpoint]
    exact hes.next
  error h := by
    rcases List.mem_append.mp h with h | h
    · exact hes.error h
    · exact htransaction _ (List.mem_singleton.mp h).symm
  handled := by
    rw [hendpoint, count_append_of_ne (htransaction _), count_append_of_ne (htransaction _)]
    exact hes.handled
  received := by
    rw [hendpoint, count_append_of_ne (htransaction _), count_append_of_ne hstart]
    exact hes.received

theorem handling_step {es : List Event} {e : Event} {s s' : State} (hes : Handling es s)
    (h : Step e s s') : Handling (es ++ [e]) s' := by
  have hhandled := hes.handled
  have hreceived := hes.received
  cases h with
  | push | flag | stop | loop | check | expire | load | clear =>
    exact hes.append nofun nofun rfl
  | start =>
    have herror := hes.error
    constructor <;>
      simp [ServerEndpoint.start, hes.sending, herror, List.count_append] at hhandled hreceived ⊢
    · omega
    · omega
  | transaction =>
    have herror := hes.error
    have hnext := hes.next
    cases hstate : s.endpoint.nextState with
    | error => exact absurd hstate hnext
    | idle | receiveRequest | handleRequest | complete =>
      rw [hstate] at hhandled hreceived
      constructor <;>
        simp [ServerEndpoint.transactionStep, ServerEndpoint.handler, hstate, hes.sending,
          herror, List.count_append] at hhandled hreceived ⊢ <;> omega

/-- What the thread and its queue have done. -/
structure Flagging (es : List Event) (s : State) : Prop where
  /-- The flag is cleared before the endpoint is started. -/
  started : es.count .start + (if s.worker = .start then 1 else 0) = es.count .clear
  /-- The flag is up before it is cleared. -/
  cleared : es.count .clear + (if s.received = true then 1 else 0) ≤ es.count .flag
  /-- The thread clears the flag only when it is up. -/
  up : s.worker = .clear → s.received = true
  /-- A message is in the queue before the flag is set. -/
  flagged : es.count .flag + (if s.flagging = true then 1 else 0) = s.receiveQueue.length
  /-- The queue is never emptied. -/
  queue : s.receiveQueue = es.flatMap Event.pushed

theorem Flagging.append {es : List Event} {e : Event} {s s' : State} (hes : Flagging es s)
    (he : e.works = true ∧ e ≠ .clear ∧ e ≠ .start) (hworker : s.worker ≠ .start)
    (hworker' : s'.worker ≠ .start) (hup : s'.worker = .clear → s'.received = true)
    (hreceived : s'.received = s.received) (hflagging : s'.flagging = s.flagging)
    (hqueue : s'.receiveQueue = s.receiveQueue) : Flagging (es ++ [e]) s' := by
  obtain ⟨hworks, hclear, hstart⟩ := he
  have hflag : e ≠ .flag := by
    rintro rfl
    cases hworks
  have hpushed : e.pushed = [] := by
    cases e with
    | push => cases hworks
    | _ => rfl
  obtain ⟨hstarted, hcleared, -, hflagged, hpushes⟩ := hes
  refine ⟨?_, ?_, hup, ?_, ?_⟩
  · rwa [count_append_of_ne hstart, count_append_of_ne hclear, if_neg hworker',
      ← if_neg (t := 1) (e := 0) hworker]
  · rwa [count_append_of_ne hclear, count_append_of_ne hflag, hreceived]
  · rwa [count_append_of_ne hflag, hflagging, hqueue]
  · rw [hqueue, hpushes, List.flatMap_append, List.flatMap_singleton, hpushed, List.append_nil]

theorem flagging_step {es : List Event} {e : Event} {s s' : State} (hes : Flagging es s)
    (h : Step e s s') : Flagging (es ++ [e]) s' := by
  have hup := hes.up
  have hstarted := hes.started
  have hcleared := hes.cleared
  have hflagged := hes.flagged
  have hqueue := hes.queue
  have hlength := congrArg List.length hqueue
  cases h with
  | push here | flag here =>
    rw [here] at hflagged
    constructor <;> simp [Event.pushed, List.count_append] at * <;> omega
  | stop =>
    constructor <;> simpa [Event.pushed, List.count_append]
  | clear here =>
    rw [hup here] at hcleared
    rw [here] at hstarted
    constructor <;>
      simp [Event.pushed, List.count_append] at hstarted hcleared hflagged hqueue ⊢ <;>
      assumption
  | start here =>
    rw [here] at hstarted
    constructor <;>
      simp [Event.pushed, List.count_append] at hstarted hcleared hflagged hqueue ⊢ <;>
      assumption
  | loop here | check here =>
    refine hes.append ⟨rfl, Event.noConfusion, Event.noConfusion⟩ (by rw [here]; exact nofun) ?_ ?_
      rfl rfl rfl <;> dsimp only <;> split <;> exact nofun
  | load here =>
    refine hes.append ⟨rfl, nofun, nofun⟩ (by rw [here]; exact nofun) ?_ ?_ rfl rfl rfl
    · dsimp only
      split <;> exact nofun
    · intro hclear
      by_contra hreceived
      rw [if_neg hreceived] at hclear
      cases hclear
  | expire here | transaction here =>
    exact hes.append ⟨rfl, Event.noConfusion, Event.noConfusion⟩ (by rw [here]; exact nofun) nofun
      nofun rfl rfl rfl

/-- **Nothing is lost, and nothing is done with it.**  The queue holds every message that has
arrived, in the order of arrival: it is never read.  Nothing is sent and the endpoint never goes
wrong.  No request is handled that was not received before, and none is received without the flag,
so that there are no more requests than messages. -/
theorem keeps_all {es : List Event} {s : State} (h : Run Step State.start es s) :
    s.receiveQueue = es.flatMap Event.pushed ∧ s.endpoint.sending = false ∧
    .transaction .error ∉ es ∧
    es.count (.transaction .handleRequest) ≤ es.count (.transaction .receiveRequest) ∧
    es.count (.transaction .receiveRequest) ≤ es.count .flag ∧
    es.count .flag ≤ s.receiveQueue.length := by
  have hhandling : Handling es s := h.invariant (I := Handling)
    (by constructor <;> simp [State.start, ServerEndpoint.new]) fun _ _ _ _ _ ↦ handling_step
  have hflagging : Flagging es s := h.invariant (I := Flagging)
    (by constructor <;> simp [State.start]) fun _ _ _ _ _ ↦ flagging_step
  have := hhandling.handled
  have := hhandling.received
  have := hflagging.started
  have := hflagging.cleared
  have := hflagging.flagged
  exact ⟨hflagging.queue, hhandling.sending, hhandling.error, by omega, by omega, by omega⟩

/-- A message that a request was received for is still in the queue. -/
theorem keeps_first : [[64]] = (round [64]).flatMap Event.pushed :=
  (keeps_all (round_run .new [] [64])).1

end CoapServer
end Coap
