import CoapCpp.Endpoint
import CoapCpp.HandleLife

/-!
# The UDP client

`UnixDnsResolver`, which finds the address of a host, and `UdpClientConnection`, which connects to
it.  What the system answers is not known here: `inet_pton` is a parameter, and `getaddrinfo` and
`socket` may succeed or fail at every call.

* `address_run`: which address the resolver uses after any number of lookups.  The newest one, but
  an IPv6 address that was found once is preferred to all IPv4 addresses that are found later.
* `client_life_iff`: the connection never uses a socket or an address that it has deleted, and loses
  none of its sockets.  It loses an address if it is connected twice in a row.
-/

set_option autoImplicit false

namespace Coap

open CString Memory HandleLife

/-! ## The resolver -/

/-- The families of addresses. -/
inductive Family where
  /-- `AF_INET` -/
  | inet
  /-- `AF_INET6` -/
  | inet6
deriving DecidableEq

/-- What the resolver reports. -/
inductive DnsError where
  /-- `COAP_ERR_EMPTY_HOSTNAME` -/
  | emptyHostname
  /-- `COAP_ERR_PORT_NUMBER` -/
  | portNumber
  /-- `COAP_ERR_RESOLVE_ADDRESS` -/
  | resolveAddress
  /-- `COAP_ERR_EMPTY_ADDRESS` -/
  | emptyAddress
deriving DecidableEq

/-- The addresses `getaddrinfo` finds, as texts, or none if it fails. -/
abbrev Resolved := Option (List (Family × Text))

/-- `UnixDnsResolver` -/
structure UnixDnsResolver where
  /-- `m_uri` -/
  uri : Text
  /-- `m_address4` -/
  address4 : Text := []
  /-- `m_address6` -/
  address6 : Text := []
  /-- `m_port` -/
  port : ℤ

namespace UnixDnsResolver

/-- The host name in the URI, or the whole of it, and the port. -/
def host (A : Atoi) (uri : Text) (port : ℤ) : Except Fault (Text × ℤ) := do
  let (hostname, port, ok) ← uri2hostname A (some uri) [] port true
  if ok then
    return (hostname, port)
  let (hostname, port, ok) ← uri2hostname A (some uri) hostname port false
  if ok then
    return (hostname, port)
  return (uri, port)

/-- One of the addresses that were found. -/
def take (s : UnixDnsResolver) : Family × Text → UnixDnsResolver
  | (.inet6, address) => { s with address6 := address }
  | (.inet, address) => { s with address4 := address }

/-- `hostname2address` -/
def hostname2address (A : Atoi) (pton : Family → Text → Bool) (s : UnixDnsResolver)
    (found : Resolved) : Except Fault (UnixDnsResolver × Option DnsError) := do
  if s.uri = [] then
    return (s, some .emptyHostname)
  let (hostname, port) ← host A s.uri s.port
  let s := { s with port }
  if pton .inet6 (cstr hostname) then
    return ({ s with address6 := cstr hostname }, none)
  if pton .inet (cstr hostname) then
    return ({ s with address4 := cstr hostname }, none)
  if s.port = -1 then
    return (s, some .portNumber)
  match found with
  | none => return (s, some .resolveAddress)
  | some addresses => return (addresses.foldl take s, none)

/-- `create_socket_address`: the family, the address and the port, which is cast to 16 bits. -/
def createSocketAddress (s : UnixDnsResolver) : Except DnsError (Family × Text × UInt16) :=
  if s.port = -1 then .error .portNumber
  else if s.address6 ≠ [] then .ok (.inet6, s.address6, UInt16.ofInt s.port)
  else if s.address4 ≠ [] then .ok (.inet, s.address4, UInt16.ofInt s.port)
  else .error .emptyAddress

/-- One lookup after the other, whatever they report. -/
def lookups (A : Atoi) (pton : Family → Text → Bool) :
    UnixDnsResolver → List Resolved → Except Fault UnixDnsResolver
  | s, [] => return s
  | s, found :: rest => do
    let (s, _) ← s.hostname2address A pton found
    s.lookups A pton rest

end UnixDnsResolver

/-- The newest address of a family. -/
def newest (family : Family) (addresses : List (Family × Text)) : Option Text :=
  ((addresses.filter fun a ↦ a.1 = family).getLast?).map Prod.snd

/-- What a lookup finds: a host that is an address itself is found at once, and a host without a
port is not looked for. -/
def answer (pton : Family → Text → Bool) (hostname : Text) (port : ℤ) (found : Resolved) :
    List (Family × Text) :=
  if pton .inet6 hostname then [(.inet6, hostname)]
  else if pton .inet hostname then [(.inet, hostname)]
  else if port = -1 then []
  else found.getD []

/-- What the resolver uses of all that it has found. -/
def chosen (addresses : List (Family × Text)) (port : ℤ) :
    Except DnsError (Family × Text × UInt16) :=
  if port = -1 then .error .portNumber
  else match newest .inet6 addresses, newest .inet addresses with
    | some address, _ => .ok (.inet6, address, UInt16.ofInt port)
    | none, some address => .ok (.inet, address, UInt16.ofInt port)
    | none, none => .error .emptyAddress

/-! ## Lookups -/

theorem uri2hostname_port (A : Atoi) (uri : Option Text) (hostname : Text) (port port' : ℤ)
    (uri4 : Bool) :
    uri2hostname A uri hostname port' uri4 = (uri2hostname A uri hostname port uri4).map fun r ↦
      (r.1, if r.2.2 then r.2.1 else port', r.2.2) := by
  cases uri with
  | none => rfl
  | some uri =>
    rw [uri2hostname, uri2hostname]
    dsimp only
    generalize (if uri4 then begin4.length else begin6.length) = behind
    generalize (if uri4 then end4 else end6) = terminator
    generalize (if uri4 then end4.length else end6.length) = length
    split
    · rfl
    split
    · rfl
    split
    · rfl
    split
    · generalize substrTo _ _ _ = number
      generalize resizeTo _ _ = name
      cases number <;> cases name <;> rfl
    · rfl

theorem host_again {A : Atoi} {uri hostname : Text} {port₀ port : ℤ}
    (h : UnixDnsResolver.host A uri port₀ = .ok (hostname, port)) :
    UnixDnsResolver.host A uri port = .ok (hostname, port) := by
  rw [UnixDnsResolver.host] at h ⊢
  obtain ⟨⟨name, number, ok⟩, hfirst, h⟩ := bind_eq_ok.mp h
  rw [uri2hostname_port A _ _ port₀ port, hfirst, Except.map, ok_bind]
  cases ok with
  | true =>
    simp only [if_true] at h ⊢
    cases h
    rfl
  | false =>
    simp only [Bool.false_eq_true, if_false] at h ⊢
    obtain ⟨⟨name', number', ok'⟩, hsecond, h⟩ := bind_eq_ok.mp h
    rw [uri2hostname_port A _ _ number port, hsecond, Except.map, ok_bind]
    cases ok' with
    | true =>
      simp only [if_true] at h ⊢
      cases h
      rfl
    | false =>
      simp only [Bool.false_eq_true, if_false] at h ⊢
      cases h
      rfl

theorem newest_append (family : Family) (l l' : List (Family × Text)) :
    newest family (l ++ l') = (newest family l').or (newest family l) := by
  rw [newest, newest, newest, List.filter_append, List.getLast?_append]
  cases (l'.filter fun a ↦ a.1 = family).getLast? <;> simp

theorem newest_ne_nil {family : Family} {l : List (Family × Text)} {address : Text}
    (hl : ∀ a ∈ l, a.2 ≠ []) (h : newest family l = some address) : address ≠ [] := by
  obtain ⟨a, ha, rfl⟩ := Option.map_eq_some_iff.mp h
  exact hl a (List.mem_of_mem_filter (List.mem_of_getLast? ha))

namespace UnixDnsResolver

/-- Of all the addresses that are found the resolver keeps the newest ones. -/
theorem foldl_take (s : UnixDnsResolver) (l : List (Family × Text)) :
    l.foldl take s = { s with
      address4 := (newest .inet l).getD s.address4
      address6 := (newest .inet6 l).getD s.address6 } := by
  induction l generalizing s with
  | nil => rfl
  | cons a l ih =>
    rw [List.foldl_cons, ih, ← List.singleton_append, newest_append, newest_append]
    obtain ⟨family, address⟩ := a
    cases family with
    | inet => cases newest .inet l <;> cases newest .inet6 l <;> rfl
    | inet6 => cases newest .inet l <;> cases newest .inet6 l <;> rfl

theorem hostname2address_eq {A : Atoi} (pton : Family → Text → Bool) {s : UnixDnsResolver}
    {hostname : Text} {port : ℤ} (huri : s.uri ≠ [])
    (hhost : host A s.uri s.port = .ok (hostname, port)) (found : Resolved) :
    ∃ e, s.hostname2address A pton found =
      .ok ((answer pton (cstr hostname) port found).foldl take { s with port }, e) := by
  rw [hostname2address, if_neg huri, hhost, ok_bind, answer]
  dsimp only
  split
  · exact ⟨_, rfl⟩
  split
  · exact ⟨_, rfl⟩
  split
  · exact ⟨_, rfl⟩
  cases found with
  | none => exact ⟨_, rfl⟩
  | some addresses => exact ⟨_, rfl⟩

/-- A row of lookups: what the first one finds is kept by the others. -/
theorem lookups_eq {A : Atoi} (pton : Family → Text → Bool) {s : UnixDnsResolver}
    {hostname : Text} {port : ℤ} (huri : s.uri ≠ [])
    (hhost : host A s.uri s.port = .ok (hostname, port)) {found : List Resolved}
    (hfound : found ≠ []) :
    s.lookups A pton found =
      .ok ((found.flatMap (answer pton (cstr hostname) port)).foldl take { s with port }) := by
  induction found generalizing s with
  | nil => exact absurd rfl hfound
  | cons first rest ih =>
    obtain ⟨e, hfirst⟩ := hostname2address_eq pton huri hhost first
    rw [lookups, hfirst, ok_bind, List.flatMap_cons, List.foldl_append]
    dsimp only
    cases rest with
    | nil => rfl
    | cons second rest =>
      rw [ih _ _ (List.cons_ne_nil _ _), foldl_take { s with port }]
      · rw [foldl_take]
        exact huri
      · rw [foldl_take]
        exact host_again hhost

end UnixDnsResolver

/-- **Stale addresses.**  However often a host is looked up, the resolver uses the newest IPv6
address that it has ever found, and an IPv4 address only if there never was an IPv6 one. -/
theorem address_run {A : Atoi} {pton : Family → Text → Bool} {uri hostname : Text} {port₀ port : ℤ}
    {found : List Resolved} (huri : uri ≠ []) (hfound : found ≠ [])
    (hhost : UnixDnsResolver.host A uri port₀ = .ok (hostname, port))
    (hpton : ∀ family, pton family [] = false)
    (htexts : ∀ addresses, some addresses ∈ found → ∀ a ∈ addresses, a.2 ≠ []) :
    ∃ s, UnixDnsResolver.lookups A pton { uri, port := port₀ } found = .ok s ∧
      s.createSocketAddress = chosen (found.flatMap (answer pton (cstr hostname) port)) port := by
  have hlookups := UnixDnsResolver.lookups_eq pton (s := { uri, port := port₀ }) huri hhost hfound
  refine ⟨_, hlookups, ?_⟩
  have hne : ∀ a ∈ found.flatMap (answer pton (cstr hostname) port), a.2 ≠ [] := by
    intro a ha
    obtain ⟨answered, hmem, ha⟩ := List.mem_flatMap.mp ha
    rw [answer] at ha
    have hliteral (family : Family) (h : pton family (cstr hostname) = true) :
        cstr hostname ≠ [] := by
      intro hnil
      rw [hnil, hpton] at h
      exact Bool.false_ne_true h
    split at ha
    · rw [List.mem_singleton.mp ha]
      exact hliteral _ ‹_›
    split at ha
    · rw [List.mem_singleton.mp ha]
      exact hliteral _ ‹_›
    split at ha
    · exact absurd ha List.not_mem_nil
    cases answered with
    | none => exact absurd ha List.not_mem_nil
    | some addresses => exact htexts addresses hmem a ha
  rw [UnixDnsResolver.foldl_take, UnixDnsResolver.createSocketAddress, chosen]
  dsimp only
  refine if_congr Iff.rfl rfl ?_
  have hnil : ¬ ([] : Text) ≠ [] := fun h ↦ h rfl
  cases h6 : newest .inet6 (found.flatMap (answer pton (cstr hostname) port)) with
  | some address => rw [Option.getD_some, if_pos (newest_ne_nil hne h6)]
  | none =>
    rw [Option.getD_none, if_neg hnil]
    cases h4 : newest .inet (found.flatMap (answer pton (cstr hostname) port)) with
    | some address => rw [Option.getD_some, if_pos (newest_ne_nil hne h4)]
    | none => rw [Option.getD_none, if_neg hnil]

/-- `host` is found with an IPv6 address first and with an IPv4 address after that. -/
theorem address_host :
    ∃ s, UnixDnsResolver.lookups .orZero (fun _ _ ↦ false)
        { uri := [104, 111, 115, 116], port := 5683 }
        [some [(.inet6, [58, 58, 49])], none, some [(.inet, [49, 46, 49])]] = .ok s ∧
      s.createSocketAddress = .ok (.inet6, [58, 58, 49], 5683) := by
  have hhost : UnixDnsResolver.host .orZero [104, 111, 115, 116] 5683 =
      .ok ([104, 111, 115, 116], 5683) := by decide
  exact address_run (by decide) (by decide) hhost (fun _ ↦ rfl) (by simp)

/-! ## The connection -/

/-- Where `connect` ends. -/
inductive UdpConnectEnd where
  /-- `hostname2address` fails. -/
  | hostname2address
  /-- `create_socket_address` fails. -/
  | createSocketAddress
  /-- `create_socket` fails. -/
  | createSocket
  /-- Nothing fails. -/
  | connected
deriving DecidableEq

/-- The methods that a program calls. -/
inductive UdpClientCall where
  /-- `connect` -/
  | connect (stop : UdpConnectEnd)
  /-- `send` to the address of the connection. -/
  | send
  /-- `send` to another address. -/
  | sendTo
  /-- `receive`, with a timeout or without one, and whether it can be set. -/
  | receive (seconds : ℕ) (timeoutSet : Bool)
  /-- `close` -/
  | close
deriving DecidableEq

/-- `UdpClientConnection`: its socket and its address, which are objects on the heap. -/
structure UdpClientConnection where
  /-- `m_socket` -/
  socket : Option ℕ := none
  /-- `m_address` -/
  address : Option ℕ := none
  /-- The object that is made next. -/
  next : ℕ := 0
  /-- What has happened to the objects. -/
  trace : List Event := []
deriving DecidableEq

namespace UdpClientConnection

/-- A pointer is followed, unless it is null. -/
def use (s : UdpClientConnection) (object : Option ℕ) : UdpClientConnection :=
  { s with trace := s.trace ++ object.toList.map .used }

/-- `m_socket = new UnixSocket(..)`, which makes an object even if there is no socket for it. -/
def newSocket (s : UdpClientConnection) : UdpClientConnection :=
  { s with socket := some s.next, next := s.next + 1, trace := s.trace ++ [.created s.next] }

/-- `m_address = m_dns->create_socket_address(ec)` -/
def createSocketAddress (s : UdpClientConnection) (ok : Bool) : UdpClientConnection :=
  if ok then
    { s with address := some s.next, next := s.next + 1, trace := s.trace ++ [.created s.next] }
  else { s with address := none }

/-- `if (m_socket) { delete m_socket; m_socket = nullptr; }` -/
def deleteSocket (s : UdpClientConnection) : UdpClientConnection :=
  match s.socket with
  | none => s
  | some object => { s with socket := none, trace := s.trace ++ [.freed object] }

/-- `if (m_address) { delete m_address; m_address = nullptr; }` -/
def deleteAddress (s : UdpClientConnection) : UdpClientConnection :=
  match s.address with
  | none => s
  | some object => { s with address := none, trace := s.trace ++ [.freed object] }

/-- `connect` -/
def connect (s : UdpClientConnection) (stop : UdpConnectEnd) : UdpClientConnection :=
  if stop = .hostname2address then s
  else
    let s := s.createSocketAddress (stop ≠ .createSocketAddress)
    if stop = .createSocketAddress then s
    else
      let s := s.deleteSocket.newSocket
      if stop = .createSocket then s.deleteAddress else s

/-- `send` to the address of the connection. -/
def send (s : UdpClientConnection) : UdpClientConnection :=
  if s.socket = none then s else (s.use s.socket).use s.address

/-- `send` to another address. -/
def sendTo (s : UdpClientConnection) : UdpClientConnection :=
  if s.socket = none then s else s.use s.socket

/-- `receive` -/
def receive (s : UdpClientConnection) (seconds : ℕ) (timeoutSet : Bool) : UdpClientConnection :=
  if s.socket = none then s
  else if seconds = 0 then s.use s.socket
  else
    let s := s.use s.socket
    if timeoutSet then s.use s.socket else s

/-- `close` -/
def close (s : UdpClientConnection) : UdpClientConnection := s.deleteSocket.deleteAddress

/-- One method. -/
def step (s : UdpClientConnection) : UdpClientCall → UdpClientConnection
  | .connect stop => s.connect stop
  | .send => s.send
  | .sendTo => s.sendTo
  | .receive seconds timeoutSet => s.receive seconds timeoutSet
  | .close => s.close

/-- The object is made, its methods are called, and it is destroyed, which closes it. -/
def live (calls : List UdpClientCall) : UdpClientConnection :=
  (calls.foldl step (newSocket {})).close

end UdpClientConnection

/-! ### As a program with two variables -/

/-- The members that hold objects. -/
inductive UdpSlot where
  /-- `m_socket` -/
  | socket
  /-- `m_address` -/
  | address
deriving DecidableEq

/-- The members, and what has happened to the objects. -/
def UdpClientConnection.toStore (s : UdpClientConnection) : Store UdpSlot where
  slots
    | .socket => s.socket
    | .address => s.address
  next := s.next
  trace := s.trace

/-- What a method does with the members. -/
def UdpClientCall.actions : UdpClientCall → List (Action UdpSlot)
  | .connect .hostname2address => []
  | .connect .createSocketAddress => [.create .address false]
  | .connect .createSocket => [.create .address true, .free .socket, .create .socket true,
    .free .address, .create .address false]
  | .connect .connected => [.create .address true, .free .socket, .create .socket true]
  | .send => [.use .socket, .use .address]
  | .sendTo => [.use .socket]
  | .receive seconds timeoutSet =>
    if seconds = 0 ∨ timeoutSet = false then [.use .socket] else [.use .socket, .use .socket]
  | .close => [.free .socket, .create .socket false, .free .address, .create .address false]

/-- There is no address without a socket. -/
def UdpClientConnection.Joined (s : UdpClientConnection) : Prop :=
  s.socket = none → s.address = none

/-- Methods that only follow pointers leave the members as they are. -/
theorem UdpClientConnection.members_step (s : UdpClientConnection) {c : UdpClientCall}
    (hconnect : ∀ stop, c ≠ .connect stop) (hclose : c ≠ .close) :
    (s.step c).socket = s.socket ∧ (s.step c).address = s.address ∧ (s.step c).next = s.next := by
  cases c with
  | connect stop => exact absurd rfl (hconnect stop)
  | close => exact absurd rfl hclose
  | send =>
    rw [step, send]
    split <;> exact ⟨rfl, rfl, rfl⟩
  | sendTo =>
    rw [step, sendTo]
    split <;> exact ⟨rfl, rfl, rfl⟩
  | receive seconds timeoutSet =>
    rw [step, receive]
    split
    · exact ⟨rfl, rfl, rfl⟩
    split
    · exact ⟨rfl, rfl, rfl⟩
    cases timeoutSet <;> exact ⟨rfl, rfl, rfl⟩

theorem UdpClientConnection.joined_step {s : UdpClientConnection} (hs : s.Joined)
    (c : UdpClientCall) : (s.step c).Joined := by
  have hmembers (hconnect : ∀ stop, c ≠ .connect stop) (hclose : c ≠ .close) :
      (s.step c).Joined := by
    obtain ⟨hsocket, haddress, -⟩ := s.members_step hconnect hclose
    rw [Joined, hsocket, haddress]
    exact hs
  cases c with
  | connect stop =>
    cases stop with
    | hostname2address => exact hs
    | createSocketAddress => exact fun _ ↦ rfl
    | createSocket =>
      obtain ⟨socket, address, next, trace⟩ := s
      cases socket <;> exact fun _ ↦ rfl
    | connected => exact fun hsocket ↦ by cases hsocket
  | close =>
    obtain ⟨socket, address, next, trace⟩ := s
    cases socket <;> cases address <;> exact fun _ ↦ rfl
  | send | sendTo | receive seconds timeoutSet => exact hmembers (by simp) (by simp)

/-- **The methods do what is said of them** with the members. -/
theorem UdpClientConnection.toStore_step {s : UdpClientConnection} (hs : s.Joined)
    (c : UdpClientCall) : (s.step c).toStore = s.toStore.run c.actions := by
  obtain ⟨socket, address, next, trace⟩ := s
  have hnone : socket = none → address = none := hs
  refine Store.ext (funext fun slot ↦ ?_) ?_ ?_
  · cases c with
    | connect stop => cases stop <;> cases socket <;> cases address <;> cases slot <;> rfl
    | close => cases socket <;> cases address <;> cases slot <;> rfl
    | send | sendTo => cases socket <;> cases slot <;> rfl
    | receive seconds timeoutSet =>
      cases socket <;> cases seconds <;> cases timeoutSet <;> cases slot <;> rfl
  · cases c with
    | connect stop => cases stop <;> cases socket <;> rfl
    | close => cases socket <;> cases address <;> rfl
    | send | sendTo => cases socket <;> rfl
    | receive seconds timeoutSet => cases socket <;> cases seconds <;> cases timeoutSet <;> rfl
  · cases c with
    | connect stop =>
      cases stop <;> cases socket <;> simp [toStore, step, connect, createSocketAddress,
        deleteSocket, newSocket, deleteAddress, UdpClientCall.actions, Store.run, Store.step]
    | close =>
      cases socket <;> cases address <;> simp [toStore, step, close, deleteSocket, deleteAddress,
        UdpClientCall.actions, Store.run, Store.step]
    | send =>
      cases socket with
      | none => simp [toStore, step, send, UdpClientCall.actions, Store.run, Store.step, hnone rfl]
      | some object => simp [toStore, step, send, use, UdpClientCall.actions, Store.run, Store.step]
    | sendTo =>
      cases socket <;> simp [toStore, step, sendTo, use, UdpClientCall.actions, Store.run,
        Store.step]
    | receive seconds timeoutSet =>
      cases socket <;> cases seconds <;> cases timeoutSet <;> simp [toStore, step, receive, use,
        UdpClientCall.actions, Store.run, Store.step]

theorem UdpClientConnection.toStore_foldl_step {s : UdpClientConnection} (hs : s.Joined)
    (calls : List UdpClientCall) :
    (calls.foldl step s).toStore = s.toStore.run (calls.flatMap UdpClientCall.actions) := by
  induction calls generalizing s with
  | nil => rfl
  | cons c calls ih =>
    rw [List.foldl_cons, ih (joined_step hs c), toStore_step hs, List.flatMap_cons,
      Store.run_append]

theorem UdpClientConnection.joined_foldl_step {s : UdpClientConnection} (hs : s.Joined)
    (calls : List UdpClientCall) : (calls.foldl step s).Joined := by
  induction calls generalizing s with
  | nil => exact hs
  | cons c calls ih => exact ih (joined_step hs c)

/-- The whole life as a row of actions. -/
def lifeActions (calls : List UdpClientCall) : List (Action UdpSlot) :=
  .create .socket true :: (calls.flatMap UdpClientCall.actions ++ UdpClientCall.close.actions)

theorem UdpClientConnection.toStore_live (calls : List UdpClientCall) :
    (live calls).toStore = Store.empty.run (lifeActions calls) := by
  have hnew : (newSocket {}).toStore = Store.empty.run [.create .socket true] :=
    Store.ext (funext fun slot ↦ by cases slot <;> rfl) rfl rfl
  have hjoined : (newSocket {}).Joined := fun _ ↦ rfl
  change (step _ .close).toStore = _
  rw [toStore_step (joined_foldl_step hjoined calls), toStore_foldl_step hjoined,
    hnew, ← Store.run_append, ← Store.run_append]
  rfl

/-! ### What may be called when -/

/-- The members are null or live, and never freed. -/
def heldStatuses (socket address : Bool) : UdpSlot → Status
  | .socket => if socket then .live else .null
  | .address => if address then .live else .null

/-- Whether the members are live behind a method. -/
def UdpClientCall.after (socket address : Bool) : UdpClientCall → Bool × Bool
  | .connect .hostname2address | .send | .sendTo | .receive _ _ => (socket, address)
  | .connect .createSocketAddress => (socket, false)
  | .connect .createSocket => (true, false)
  | .connect .connected => (true, true)
  | .close => (false, false)

/-- `connect` gets as far as `m_address`, which it overwrites. -/
def UdpClientCall.Overwrites : UdpClientCall → Prop
  | .connect stop => stop ≠ .hostname2address
  | .send | .sendTo | .receive _ _ | .close => False

theorem UdpClientCall.afterAll_actions (c : UdpClientCall) (socket address : Bool) :
    afterAll c.actions (heldStatuses socket address) =
      heldStatuses (c.after socket address).1 (c.after socket address).2 := by
  funext slot
  cases c with
  | connect stop => cases stop <;> cases slot <;> cases socket <;> cases address <;> rfl
  | send | sendTo | close => cases slot <;> cases socket <;> cases address <;> rfl
  | receive seconds timeoutSet => cases seconds <;> cases timeoutSet <;> cases slot <;> rfl

theorem UdpClientCall.allSafe_actions (c : UdpClientCall) (socket address : Bool) :
    AllSafe c.actions (heldStatuses socket address) := by
  cases c with
  | connect stop =>
    cases stop <;> cases socket <;> cases address <;> simp [AllSafe, actions, Action.Safe,
      Action.after, heldStatuses]
  | send | sendTo | close =>
    cases socket <;> cases address <;> simp [AllSafe, actions, Action.Safe, Action.after,
      heldStatuses]
  | receive seconds timeoutSet =>
    cases seconds <;> cases timeoutSet <;> cases socket <;> simp [AllSafe, actions, Action.Safe,
      Action.after, heldStatuses]

theorem UdpClientCall.allAllowed_actions (c : UdpClientCall) (socket address : Bool) :
    AllAllowed c.actions (heldStatuses socket address) ↔ (address = true → ¬ c.Overwrites) := by
  cases c with
  | connect stop =>
    cases stop <;> cases socket <;> cases address <;> simp [AllAllowed, actions, Action.Allowed,
      Action.after, heldStatuses, Overwrites, Status.free]
  | send | sendTo | close =>
    cases socket <;> cases address <;> simp [AllAllowed, actions, Action.Allowed, Action.after,
      heldStatuses, Overwrites, Status.free]
  | receive seconds timeoutSet =>
    cases seconds <;> cases timeoutSet <;> cases socket <;> simp [AllAllowed, actions,
      Action.Allowed, Action.after, heldStatuses, Overwrites]

/-- Before an address is overwritten the connection is closed. -/
def ClosedFirst (calls : List UdpClientCall) : Prop :=
  ∀ bs c cs, calls = bs ++ c :: cs → c.Overwrites → .close ∈ bs

/-- Behind every `connect` that succeeds the connection is closed before its address is
overwritten. -/
def ClosedBetween (calls : List UdpClientCall) : Prop :=
  ∀ as rest, calls = as ++ .connect .connected :: rest → ClosedFirst rest

theorem closedFirst_cons {c : UdpClientCall} {calls : List UdpClientCall} :
    ClosedFirst (c :: calls) ↔ ¬ c.Overwrites ∧ (c = .close ∨ ClosedFirst calls) := by
  constructor
  · intro h
    refine ⟨fun hc ↦ absurd (h [] c calls rfl hc) List.not_mem_nil, ?_⟩
    refine or_iff_not_imp_left.mpr fun hclose bs c' cs hcalls hc' ↦ ?_
    have hmem := h (c :: bs) c' cs (by rw [hcalls]; rfl) hc'
    exact (List.mem_cons.mp hmem).resolve_left (Ne.symm hclose)
  · rintro ⟨hc, h⟩ bs c' cs hcalls hc'
    cases bs with
    | nil =>
      cases hcalls
      exact absurd hc' hc
    | cons b bs =>
      cases hcalls
      rcases h with rfl | h
      · exact List.mem_cons_self
      · exact List.mem_cons_of_mem _ (h bs c' cs rfl hc')

theorem closedBetween_cons {c : UdpClientCall} {calls : List UdpClientCall} :
    ClosedBetween (c :: calls) ↔
      (c = .connect .connected → ClosedFirst calls) ∧ ClosedBetween calls := by
  constructor
  · intro h
    refine ⟨fun hc ↦ h [] calls (by rw [hc]; rfl), fun as rest hcalls ↦ ?_⟩
    exact h (c :: as) rest (by rw [hcalls]; rfl)
  · rintro ⟨hfirst, h⟩ as rest hcalls
    cases as with
    | nil =>
      cases hcalls
      exact hfirst rfl
    | cons a as =>
      cases hcalls
      exact h as rest rfl

/-- No member is ever freed and kept. -/
theorem afterAll_flatMap (calls : List UdpClientCall) (socket address : Bool) :
    ∃ socket' address', afterAll (calls.flatMap UdpClientCall.actions)
      (heldStatuses socket address) = heldStatuses socket' address' := by
  induction calls generalizing socket address with
  | nil => exact ⟨socket, address, rfl⟩
  | cons c calls ih =>
    rw [List.flatMap_cons, afterAll_append, UdpClientCall.afterAll_actions]
    exact ih _ _

/-- **When no address is lost**, from a state whose address is live or not. -/
theorem allAllowed_flatMap (calls : List UdpClientCall) (socket address : Bool) :
    AllAllowed (calls.flatMap UdpClientCall.actions) (heldStatuses socket address) ↔
      (address = true → ClosedFirst calls) ∧ ClosedBetween calls := by
  induction calls generalizing socket address with
  | nil =>
    refine iff_of_true trivial ⟨fun _ bs c cs h ↦ ?_, fun as rest h ↦ ?_⟩
    · cases bs <;> cases h
    · cases as <;> cases h
  | cons c calls ih =>
    rw [List.flatMap_cons, allAllowed_append, UdpClientCall.allAllowed_actions,
      UdpClientCall.afterAll_actions, ih, closedFirst_cons, closedBetween_cons]
    cases c with
    | connect stop =>
      cases stop <;> simp [UdpClientCall.after, UdpClientCall.Overwrites]
    | send | sendTo | receive _ _ | close =>
      simp [UdpClientCall.after, UdpClientCall.Overwrites]

theorem allSafe_flatMap (calls : List UdpClientCall) (socket address : Bool) :
    AllSafe (calls.flatMap UdpClientCall.actions) (heldStatuses socket address) := by
  induction calls generalizing socket address with
  | nil => trivial
  | cons c calls ih =>
    rw [List.flatMap_cons, allSafe_append, UdpClientCall.afterAll_actions]
    exact ⟨c.allSafe_actions socket address, ih _ _⟩

/-- **The life of a client.**  It never uses or deletes an object that it has deleted.  It deletes
every object that it makes exactly if it is closed after every `connect` that succeeds, before the
next one gets as far as the address. -/
theorem client_life_iff (calls : List UdpClientCall) :
    NotAfterFree (UdpClientConnection.live calls).trace ∧
    (Orderly (UdpClientConnection.live calls).trace ↔ ClosedBetween calls) := by
  have hempty : WellFormed (Store.empty : Store UdpSlot) := wellFormed_empty
  have htrace : (UdpClientConnection.live calls).trace =
      (Store.empty.run (lifeActions calls)).trace :=
    congrArg Store.trace (UdpClientConnection.toStore_live calls)
  have hstart : (Action.create UdpSlot.socket true).after (fun _ ↦ .null) =
      heldStatuses true false := by
    funext slot
    cases slot <;> rfl
  obtain ⟨socket, address, hafter⟩ := afterAll_flatMap calls true false
  rw [htrace, lifeActions]
  constructor
  · refine (notAfterFree_run_iff hempty _).mpr ⟨.nil, trivial, ?_⟩
    change AllSafe _ ((Action.create UdpSlot.socket true).after fun _ ↦ .null)
    rw [hstart, allSafe_append, hafter]
    exact ⟨allSafe_flatMap calls true false, UdpClientCall.allSafe_actions _ _ _⟩
  · have hend (slot : UdpSlot) : afterAll (.create .socket true ::
        (calls.flatMap UdpClientCall.actions ++ UdpClientCall.close.actions)) (fun _ ↦ .null)
        slot ≠ .live := by
      rw [afterAll, List.foldl_cons, hstart]
      change afterAll _ _ _ ≠ _
      rw [afterAll_append, hafter, UdpClientCall.afterAll_actions]
      cases slot <;> exact Status.noConfusion
    have hclose : AllAllowed UdpClientCall.close.actions (heldStatuses socket address) := by
      rw [UdpClientCall.allAllowed_actions]
      exact fun _ h ↦ h
    have hallowed : (Action.create UdpSlot.socket true).Allowed fun _ ↦ .null :=
      Status.noConfusion
    rw [orderly_run_iff, and_iff_left hend, AllAllowed, and_iff_right hallowed, hstart,
      allAllowed_append, hafter, and_iff_left hclose, allAllowed_flatMap]
    exact and_iff_right Bool.noConfusion

end Coap
