import CoapCpp.HandleLife
import CoapCpp.Memory

/-!
# Connections

Two of the connections in `src/unix`, as far as the handles they keep go: the contexts and sessions
of wolfSSL in a `DtlsClientConnection`, and the socket of a `UdpServerConnection`.

wolfSSL is not part of the repository.  What is written down here is the trace of the calls that it
gets, and a call that creates something returns a handle it has not returned before, or `NULL`.

`close` frees the context and the session, but leaves `m_ctx` and `m_ssl` as they are, and
`connect` overwrites them whatever they are.  So the life cycle is respected only by programs that
go to and fro between the two; `handles_iff` says which ones those are, and what a program must not
do with the socket of a server.
-/

set_option autoImplicit false

namespace Coap

open Memory HandleLife

/-! ## The DTLS client -/

/-- The calls of wolfSSL functions, with the handles they are given and the handle they return. -/
inductive WolfCall where
  /-- `wolfSSL_Init` -/
  | init
  /-- `wolfSSL_Debugging_ON` -/
  | debuggingOn
  /-- `wolfSSL_CTX_new` -/
  | ctxNew (result : Option ℕ)
  /-- `wolfSSL_CTX_load_verify_locations` -/
  | ctxLoadVerifyLocations (ctx : Option ℕ)
  /-- `wolfSSL_new` -/
  | new (ctx result : Option ℕ)
  /-- `wolfSSL_dtls_set_peer` -/
  | dtlsSetPeer (ssl : Option ℕ)
  /-- `wolfSSL_set_fd` -/
  | setFd (ssl : Option ℕ)
  /-- `wolfSSL_get_error` -/
  | getError (ssl : Option ℕ)
  /-- `wolfSSL_write` -/
  | write (ssl : Option ℕ)
  /-- `wolfSSL_read` -/
  | read (ssl : Option ℕ)
  /-- `wolfSSL_shutdown` -/
  | shutdown (ssl : Option ℕ)
  /-- `wolfSSL_free` -/
  | free (ssl : Option ℕ)
  /-- `wolfSSL_CTX_free` -/
  | ctxFree (ctx : Option ℕ)
  /-- `wolfSSL_Cleanup` -/
  | cleanup
deriving DecidableEq

/-- What a call means for the handles. -/
def WolfCall.events : WolfCall → List Event
  | .init | .debuggingOn | .cleanup => []
  | .ctxNew result => result.toList.map .created
  | .new ctx result => ctx.toList.map .used ++ result.toList.map .created
  | .ctxLoadVerifyLocations h | .dtlsSetPeer h | .setFd h | .getError h | .write h | .read h
  | .shutdown h => h.toList.map .used
  | .free h | .ctxFree h => h.toList.map .freed

/-- `DtlsClientConnection` -/
structure DtlsClientConnection where
  /-- `m_socket` is not null. -/
  socket : Bool := true
  /-- `m_sockAddr` is not null. -/
  sockAddr : Bool := false
  /-- `m_ctx` -/
  ctx : Option ℕ := none
  /-- `m_ssl` -/
  ssl : Option ℕ := none
  /-- The handle wolfSSL creates next. -/
  next : ℕ := 0
  /-- The calls so far. -/
  trace : List WolfCall := []
deriving DecidableEq

/-- Where `connect` ends. -/
inductive ConnectEnd where
  /-- `hostname2address` fails. -/
  | hostname2address
  /-- `create_socket_address` fails. -/
  | createSocketAddress
  /-- `create_socket` fails. -/
  | createSocket
  /-- `wolfSSL_Init` fails. -/
  | init
  /-- `wolfSSL_CTX_new` fails. -/
  | ctxNew
  /-- `wolfSSL_CTX_load_verify_locations` fails. -/
  | loadVerifyLocations
  /-- `wolfSSL_new` fails. -/
  | new
  /-- `wolfSSL_set_fd` fails. -/
  | setFd
  /-- Nothing fails. -/
  | connected
deriving DecidableEq

/-- The methods that a program calls. -/
inductive DtlsCall where
  /-- `connect` -/
  | connect (stop : ConnectEnd)
  /-- `send` -/
  | send
  /-- `receive` -/
  | receive
  /-- `close` -/
  | close
deriving DecidableEq

namespace DtlsClientConnection

/-- A call that creates nothing. -/
def call (s : DtlsClientConnection) (c : WolfCall) : DtlsClientConnection :=
  { s with trace := s.trace ++ [c] }

/-- `m_ctx = wolfSSL_CTX_new(..)` -/
def createCtx (s : DtlsClientConnection) (ok : Bool) : DtlsClientConnection :=
  let result := if ok then some s.next else none
  { s with
    ctx := result
    next := if ok then s.next + 1 else s.next
    trace := s.trace ++ [.ctxNew result] }

/-- `m_ssl = wolfSSL_new(m_ctx)` -/
def createSsl (s : DtlsClientConnection) (ok : Bool) : DtlsClientConnection :=
  let result := if ok then some s.next else none
  { s with
    ssl := result
    next := if ok then s.next + 1 else s.next
    trace := s.trace ++ [.new s.ctx result] }

/-- `handshake` -/
def handshake (s : DtlsClientConnection) (stop : ConnectEnd) : DtlsClientConnection :=
  let s := s.call .init
  if stop = .init then s.call (.getError s.ssl)
  else
    let s := s.call .debuggingOn
    let s := s.createCtx (stop ≠ .ctxNew)
    if s.ctx = none then s.call (.getError s.ssl)
    else
      let s := s.call (.ctxLoadVerifyLocations s.ctx)
      if stop = .loadVerifyLocations then s.call (.getError s.ssl)
      else
        let s := s.createSsl (stop ≠ .new)
        if s.ssl = none then s.call (.getError s.ssl)
        else
          let s := s.call (.dtlsSetPeer s.ssl)
          let s := s.call (.setFd s.ssl)
          if stop = .setFd then s.call (.getError s.ssl) else s

/-- `connect` -/
def connect (s : DtlsClientConnection) (stop : ConnectEnd) : DtlsClientConnection :=
  if stop = .hostname2address then s
  else if stop = .createSocketAddress then { s with sockAddr := false }
  else
    let s := { s with socket := true, sockAddr := true }
    if stop = .createSocket then { s with sockAddr := false }
    else s.handshake stop

/-- `close` -/
def close (s : DtlsClientConnection) : DtlsClientConnection :=
  let s := s.call (.shutdown s.ssl)
  let s := s.call (.free s.ssl)
  let s := { s with socket := false, sockAddr := false }
  let s := s.call (.ctxFree s.ctx)
  s.call .cleanup

/-- `send` -/
def send (s : DtlsClientConnection) : DtlsClientConnection := s.call (.write s.ssl)

/-- `receive` -/
def receive (s : DtlsClientConnection) : DtlsClientConnection := s.call (.read s.ssl)

/-- One method. -/
def step (s : DtlsClientConnection) : DtlsCall → DtlsClientConnection
  | .connect stop => s.connect stop
  | .send => s.send
  | .receive => s.receive
  | .close => s.close

/-- The object is made, its methods are called, and it is destroyed, which closes it. -/
def live (calls : List DtlsCall) : DtlsClientConnection :=
  (calls.foldl step {}).close

end DtlsClientConnection

/-! ### As a program with two variables -/

/-- The members that hold handles. -/
inductive Slot where
  /-- `m_ctx` -/
  | ctx
  /-- `m_ssl` -/
  | ssl
deriving DecidableEq

/-- The members, and what has happened to the handles. -/
def DtlsClientConnection.toStore (s : DtlsClientConnection) : Store Slot where
  slots
    | .ctx => s.ctx
    | .ssl => s.ssl
  next := s.next
  trace := s.trace.flatMap WolfCall.events

/-- What a method does with the members. -/
def DtlsCall.actions : DtlsCall → List (Action Slot)
  | .send | .receive => [.use .ssl]
  | .close => [.use .ssl, .free .ssl, .free .ctx]
  | .connect .hostname2address | .connect .createSocketAddress | .connect .createSocket => []
  | .connect .init => [.use .ssl]
  | .connect .ctxNew => [.create .ctx false, .use .ssl]
  | .connect .loadVerifyLocations => [.create .ctx true, .use .ctx, .use .ssl]
  | .connect .new =>
    [.create .ctx true, .use .ctx, .use .ctx, .create .ssl false, .use .ssl]
  | .connect .setFd =>
    [.create .ctx true, .use .ctx, .use .ctx, .create .ssl true, .use .ssl, .use .ssl, .use .ssl]
  | .connect .connected =>
    [.create .ctx true, .use .ctx, .use .ctx, .create .ssl true, .use .ssl, .use .ssl]

/-- **The methods do what is said of them** with the members. -/
theorem toStore_step (s : DtlsClientConnection) (c : DtlsCall) :
    (s.step c).toStore = s.toStore.run c.actions := by
  cases c with
  | connect stop =>
    refine Store.ext (funext fun slot ↦ ?_) ?_ ?_
    · cases stop <;> cases slot <;> rfl
    · cases stop <;> rfl
    · cases stop <;> simp [DtlsClientConnection.toStore, DtlsClientConnection.step,
        DtlsClientConnection.connect, DtlsClientConnection.handshake, DtlsClientConnection.call,
        DtlsClientConnection.createCtx, DtlsClientConnection.createSsl, WolfCall.events,
        DtlsCall.actions, Store.run, Store.step]
  | send | receive | close =>
    refine Store.ext (funext fun slot ↦ by cases slot <;> rfl) rfl ?_
    simp [DtlsClientConnection.toStore, DtlsClientConnection.step, DtlsClientConnection.send,
      DtlsClientConnection.receive, DtlsClientConnection.close, DtlsClientConnection.call,
      WolfCall.events, DtlsCall.actions, Store.run, Store.step]

theorem toStore_foldl_step (s : DtlsClientConnection) (calls : List DtlsCall) :
    (calls.foldl DtlsClientConnection.step s).toStore =
      s.toStore.run (calls.flatMap DtlsCall.actions) := by
  induction calls generalizing s with
  | nil => rfl
  | cons c calls ih =>
    rw [List.foldl_cons, ih, toStore_step, List.flatMap_cons, Store.run_append]

/-! ### What may be called when -/

/-- A method may be called when `m_ctx` and `m_ssl` have these statuses. -/
def DtlsCall.Allowed (ctx ssl : Status) : DtlsCall → Prop
  | .send | .receive => ssl ≠ .freed
  | .close => ssl ≠ .freed ∧ ctx ≠ .freed
  | .connect .hostname2address | .connect .createSocketAddress | .connect .createSocket => True
  | .connect .init => ssl ≠ .freed
  | .connect .ctxNew | .connect .loadVerifyLocations => ctx ≠ .live ∧ ssl ≠ .freed
  | .connect .new | .connect .setFd | .connect .connected => ctx ≠ .live ∧ ssl ≠ .live

/-- The statuses of `m_ctx` and `m_ssl` behind a method. -/
def DtlsCall.after (ctx ssl : Status) : DtlsCall → Status × Status
  | .send | .receive => (ctx, ssl)
  | .close => (ctx.free, ssl.free)
  | .connect .hostname2address | .connect .createSocketAddress | .connect .createSocket
  | .connect .init => (ctx, ssl)
  | .connect .ctxNew => (.null, ssl)
  | .connect .loadVerifyLocations => (.live, ssl)
  | .connect .new => (.live, .null)
  | .connect .setFd | .connect .connected => (.live, .live)

/-- Every method is called when it may be, and so is the `close` of the destructor. -/
def AllowedCalls : List DtlsCall → Status → Status → Prop
  | [], ctx, ssl => DtlsCall.close.Allowed ctx ssl
  | c :: calls, ctx, ssl =>
    c.Allowed ctx ssl ∧ AllowedCalls calls (c.after ctx ssl).1 (c.after ctx ssl).2

/-- The statuses of the members. -/
def statuses (ctx ssl : Status) : Slot → Status
  | .ctx => ctx
  | .ssl => ssl

theorem afterAll_actions (c : DtlsCall) (ctx ssl : Status) :
    afterAll c.actions (statuses ctx ssl) = statuses (c.after ctx ssl).1 (c.after ctx ssl).2 := by
  funext slot
  cases c with
  | connect stop => cases stop <;> cases slot <;> rfl
  | send | receive | close => cases slot <;> rfl

theorem allAllowed_actions (c : DtlsCall) (ctx ssl : Status) :
    AllAllowed c.actions (statuses ctx ssl) ↔ c.Allowed ctx ssl := by
  cases c with
  | connect stop =>
    cases stop <;> simp [AllAllowed, DtlsCall.actions, DtlsCall.Allowed, Action.Allowed,
      Action.after, statuses]
  | send | receive | close =>
    simp [AllAllowed, DtlsCall.actions, DtlsCall.Allowed, Action.Allowed, Action.after, statuses]

theorem allAllowed_calls (calls : List DtlsCall) (ctx ssl : Status) :
    AllAllowed (calls.flatMap DtlsCall.actions ++ DtlsCall.close.actions) (statuses ctx ssl) ↔
      AllowedCalls calls ctx ssl := by
  induction calls generalizing ctx ssl with
  | nil => exact allAllowed_actions .close ctx ssl
  | cons c calls ih =>
    rw [List.flatMap_cons, List.append_assoc, allAllowed_append, allAllowed_actions,
      afterAll_actions, ih, AllowedCalls]

/-- **The life cycle of contexts and sessions**: it is respected if every method is called when it
may be. -/
theorem orderly_live_iff (calls : List DtlsCall) :
    Orderly ((DtlsClientConnection.live calls).trace.flatMap WolfCall.events) ↔
      AllowedCalls calls .null .null := by
  have hlive : (DtlsClientConnection.live calls).toStore =
      Store.empty.run (calls.flatMap DtlsCall.actions ++ DtlsCall.close.actions) := by
    have hnew : DtlsClientConnection.toStore {} = Store.empty :=
      Store.ext (funext fun slot ↦ by cases slot <;> rfl) rfl rfl
    rw [Store.run_append, ← hnew, ← toStore_foldl_step]
    exact toStore_step _ .close
  have hnull : (fun _ ↦ .null : Slot → Status) = statuses .null .null := by
    funext slot
    cases slot <;> rfl
  have hfree (status : Status) : status.free ≠ .live := by cases status <;> decide
  have htrace := congrArg Store.trace hlive
  change (DtlsClientConnection.live calls).trace.flatMap WolfCall.events = _ at htrace
  rw [htrace, orderly_run_iff, hnull, allAllowed_calls]
  refine and_iff_left fun slot ↦ ?_
  rw [afterAll_append]
  cases slot with
  | ctx => exact hfree _
  | ssl => exact hfree _

/-! ## The UDP server -/

/-- `UdpServerConnection` -/
structure UdpServerConnection where
  /-- `m_bound` -/
  bound : Bool := false
  /-- `m_socket` is not null. -/
  socket : Bool := true
  /-- `m_address` is not null. -/
  address : Bool := true
deriving DecidableEq

/-- The methods that a program calls. -/
inductive UdpCall where
  /-- `bind`, and whether the socket can be bound. -/
  | bind (ok : Bool)
  /-- `send` -/
  | send
  /-- `receive`, with a timeout or without one, and whether it can be set. -/
  | receive (seconds : ℕ) (timeoutSet : Bool)
  /-- `close` -/
  | close
deriving DecidableEq

namespace UdpServerConnection

/-- `m_socket->` -/
def derefSocket (s : UdpServerConnection) : Except Fault Unit :=
  if s.socket then return () else .error .nullPointer

/-- `bind` -/
def bind (s : UdpServerConnection) (ok : Bool) : Except Fault UdpServerConnection := do
  s.derefSocket
  return { s with bound := if ok then true else s.bound }

/-- `send` -/
def send (s : UdpServerConnection) : Except Fault UdpServerConnection := do
  if !s.bound then return s
  s.derefSocket
  return s

/-- `receive` -/
def receive (s : UdpServerConnection) (seconds : ℕ) (timeoutSet : Bool) :
    Except Fault UdpServerConnection := do
  if !s.bound then return s
  if seconds ≠ 0 then
    s.derefSocket
    if !timeoutSet then return s
  s.derefSocket
  return s

/-- `close` -/
def close (_ : UdpServerConnection) : UdpServerConnection where
  bound := false
  socket := false
  address := false

/-- One method. -/
def step (s : UdpServerConnection) : UdpCall → Except Fault UdpServerConnection
  | .bind ok => s.bind ok
  | .send => s.send
  | .receive seconds timeoutSet => s.receive seconds timeoutSet
  | .close => return s.close

end UdpServerConnection

/-- The methods are called one after the other. -/
def UdpServerConnection.run (calls : List UdpCall) : Except Fault UdpServerConnection :=
  calls.foldlM UdpServerConnection.step {}

/-- The call is a `bind`. -/
def UdpCall.isBind : UdpCall → Bool
  | .bind _ => true
  | .send | .receive _ _ | .close => false

/-- A socket that is bound is there. -/
def UdpServerConnection.Bound (s : UdpServerConnection) : Prop := s.bound = true → s.socket = true

/-- A `bind` without a socket dereferences the null pointer. -/
theorem UdpServerConnection.step_of_isBind {s : UdpServerConnection} {c : UdpCall}
    (hs : s.socket = false) (hc : c.isBind = true) : s.step c = .error .nullPointer := by
  cases c with
  | bind ok =>
    rw [step, bind, derefSocket, hs]
    rfl
  | send | receive _ _ | close => cases hc

/-- **One method**: nothing else does, and only `close` takes the socket away. -/
theorem UdpServerConnection.step_ok {s : UdpServerConnection} (hs : s.Bound) {c : UdpCall}
    (hc : s.socket = false → c.isBind = false) :
    ∃ s', s.step c = .ok s' ∧ s'.Bound ∧
      (s'.socket = false ↔ s.socket = false ∨ c = .close) := by
  cases c with
  | close => exact ⟨s.close, rfl, (fun h ↦ by cases h), iff_of_true rfl (.inr rfl)⟩
  | bind ok =>
    have hsocket : s.socket = true := by
      by_contra h
      cases hc (Bool.not_eq_true _ |>.mp h)
    refine ⟨{ s with bound := if ok then true else s.bound }, ?_, fun _ ↦ hsocket, by simp⟩
    rw [step, bind, derefSocket, hsocket]
    rfl
  | send =>
    refine ⟨s, ?_, hs, by simp⟩
    cases hbound : s.bound with
    | false => simp [step, send, hbound]
    | true => simp [step, send, derefSocket, hbound, hs hbound]
  | receive seconds timeoutSet =>
    refine ⟨s, ?_, hs, by simp⟩
    cases hbound : s.bound with
    | false => simp [step, receive, hbound]
    | true =>
      have hderef : s.derefSocket = .ok () := by rw [derefSocket, hs hbound]; rfl
      simp only [step, receive, hbound, hderef]
      by_cases hseconds : seconds ≠ 0
      · rw [if_pos hseconds]
        cases timeoutSet <;> rfl
      · rw [if_neg hseconds]
        rfl

/-- **The socket of a server** is dereferenced while it is null only by a `bind` behind a
`close`. -/
theorem UdpServerConnection.foldlM_step_iff {s : UdpServerConnection} (hs : s.Bound)
    (calls : List UdpCall) :
    (∃ s', calls.foldlM step s = .ok s') ↔
      (s.socket = false → ∀ c ∈ calls, c.isBind = false) ∧
      calls.Pairwise fun c c' ↦ c = .close → c'.isBind = false := by
  induction calls generalizing s with
  | nil => exact iff_of_true ⟨s, rfl⟩ ⟨fun _ _ h ↦ absurd h List.not_mem_nil, .nil⟩
  | cons c calls ih =>
    rw [List.foldlM_cons, List.forall_mem_cons, List.pairwise_cons]
    by_cases hc : s.socket = false → c.isBind = false
    · obtain ⟨s', hstep, hs', hsocket⟩ := step_ok hs hc
      rw [hstep, ok_bind, ih hs', hsocket]
      constructor
      · rintro ⟨hnone, hrest⟩
        exact ⟨fun h ↦ ⟨hc h, hnone (.inl h)⟩, fun c' hc' hclose ↦ hnone (.inr hclose) c' hc',
          hrest⟩
      · rintro ⟨hnone, hclose, hrest⟩
        exact ⟨fun h ↦ h.elim (fun h ↦ (hnone h).2) fun h c' hc' ↦ hclose c' hc' h, hrest⟩
    · obtain ⟨hsocket, hbind⟩ := Classical.not_imp.mp hc
      rw [step_of_isBind hsocket (Bool.not_eq_false _ |>.mp hbind)]
      refine iff_of_false ?_ fun h ↦ hbind (h.1 hsocket).1
      rintro ⟨s', hs'⟩
      cases hs'

/-! ## Both connections -/

/-- **The life cycle of the handles** is respected if every method of the client is called when it
may be, and no server is bound after it was closed. -/
theorem handles_iff (dtlsCalls : List DtlsCall) (udpCalls : List UdpCall) :
    (Orderly ((DtlsClientConnection.live dtlsCalls).trace.flatMap WolfCall.events) ↔
      AllowedCalls dtlsCalls .null .null) ∧
    ((∃ s, UdpServerConnection.run udpCalls = .ok s) ↔
      udpCalls.Pairwise fun c c' ↦ c = .close → c'.isBind = false) := by
  refine ⟨orderly_live_iff dtlsCalls, ?_⟩
  refine (UdpServerConnection.foldlM_step_iff (fun _ ↦ rfl) udpCalls).trans (and_iff_right ?_)
  intro h
  cases h

/-- A client that was closed frees its handles again when it is destroyed, and a server that is
bound after it was closed has no socket. -/
theorem not_handles :
    ¬ Orderly ((DtlsClientConnection.live [.connect .connected, .close]).trace.flatMap
      WolfCall.events) ∧
    ¬ ∃ s, UdpServerConnection.run [.close, .bind true] = .ok s := by
  constructor
  · intro h
    exact absurd (h.freedOnce 0 (by decide)) (by decide)
  · rintro ⟨s, hs⟩
    cases hs

end Coap
