import CoapCpp.HandleLife
import Mathlib.Data.List.Induction
import Mathlib.Data.List.Nodup

/-!
# The clients of a server

`CoapServer` of `examples/POSIX/coap-server` and `UdpServer` of `examples/POSIX/common` keep a pool
of the clients they have heard of, with a thread for each of them.  What they do with a message that
arrives is the same in both: find its client, or take in a new one as long as there is room, and put
the message into the queue of the client.

This is about the thread that receives the messages, as long as no other one touches the pool.
The constructor of a server also starts a thread that removes clients that are timed out; it ends at
once if it does not see the server running, and while it lives it works on the pool without the
mutex.  It is not modelled, and neither are `shutdown` and the threads of the clients, which read
the addresses on their own when they answer.

The pool is a row of pointers.  A client remembers where its address is, and that is the variable
that the message was received with.  What a comparison with such an address gives is left open here,
and so is whether a connection is timed out.

* `pool_run`: there are never too many clients, every client has its own thread, and the receiving
  thread loses no client, frees none twice and uses none afterwards.
* `served_run`: the `ec` of a server is never cleared.  The first message that is refused is the end
  of the service.
* `addresses_iff`: the receiving thread of a server that gets two messages reads an address that
  does not exist any more.
-/

set_option autoImplicit false

namespace Coap

open HandleLife

namespace ServerPool

/-! ## The code -/

/-- What the `ec` of a server is set to. -/
inductive ServerError where
  /-- The error of `recvfrom`. -/
  | recvfrom
  /-- `EINVAL` -/
  | einval
  /-- `COAP_ERR_CONNECTIONS_EXCEEDED` -/
  | connectionsExceeded
  /-- `COAP_ERR_PARSE_CORE_LINK` -/
  | parseCoreLink
deriving DecidableEq

/-- `ConnectedClient` and `Incomming`. -/
structure Client where
  /-- Its own address. -/
  handle : ℕ
  /-- `m_clientAddress` -/
  address : ℕ
  /-- `m_threadId` -/
  threadId : ℕ
deriving DecidableEq

/-- What is different in the two servers. -/
structure Config where
  /-- `m_maxClients` and `CLIENT_MAX_CONNECTIONS` -/
  maxClients : ℕ
  /-- What the constructor of a client sets `ec` to. -/
  newClient : Option ServerError
  /-- A message without bytes is refused. -/
  refusesEmpty : Bool
  /-- The address of the client is read once more in the end. -/
  printsAddress : Bool

/-- A server, and what has happened. -/
structure Server where
  /-- `m_clients` and `m_connections` -/
  clients : List Client
  /-- `m_threads`, of which only the identifiers matter. -/
  threads : List ℕ
  /-- The `ec` of `main` and of `listening`. -/
  ec : Option ServerError
  /-- The next client and its thread. -/
  next : ℕ
  /-- The next variable for an address. -/
  nextAddress : ℕ
  /-- The messages that were put into the queues of the clients. -/
  pushed : List (ℕ × List UInt8)
  /-- What has happened to the clients. -/
  objects : List Event
  /-- What has happened to the addresses. -/
  addresses : List Event

/-- A server that has just been made. -/
def Server.start : Server where
  clients := []
  threads := []
  ec := none
  next := 0
  nextAddress := 0
  pushed := []
  objects := []
  addresses := []

/-- A message that arrives. -/
structure Arrival where
  /-- What is received, or nothing if `recvfrom` fails. -/
  received : Option (List UInt8)
  /-- How the comparison of the addresses comes out. -/
  same : Client → Bool
  /-- `is_client_connection_timed_out` and `is_connection_timed_out` -/
  timedOut : Client → Bool

/-- `remove_connected_client` and `remove_connection` -/
def Server.remove (s : Server) (c : Client) : Bool × Server :=
  if c.threadId ∈ s.threads then
    (true, { s with
      threads := s.threads.erase c.threadId
      clients := s.clients.eraseP fun c' ↦ c'.handle = c.handle
      objects := s.objects ++ [Event.used c.handle, Event.freed c.handle] })
  else (false, { s with objects := s.objects ++ [Event.used c.handle] })

/-- The clients whose addresses are compared. -/
def visited (same : Client → Bool) : List Client → List Client
  | [] => []
  | c :: clients => if same c then [c] else c :: visited same clients

/-- The comparisons in the loop of `find_connected_client`. -/
def Server.compare (s : Server) (same : Client → Bool) : Server :=
  let seen := visited same s.clients
  { s with
    objects := s.objects ++ seen.map fun c ↦ Event.used c.handle
    addresses := s.addresses ++ seen.map fun c ↦ Event.used c.address }

/-- `find_connected_client` and `find_connection` -/
def Server.find (s : Server) (a : Arrival) : Option Client × Server :=
  let s := s.compare a.same
  match s.clients.find? a.same with
  | none => (none, s)
  | some c => if a.timedOut c then (none, (s.remove c).2) else (some c, s)

/-- A new client, and its thread. -/
def Server.takeIn (cfg : Config) (s : Server) (address : ℕ) : Option Client × Server :=
  if cfg.maxClients ≤ s.clients.length then (none, { s with ec := some .connectionsExceeded })
  else
    let c : Client := ⟨s.next, address, s.next⟩
    let s := { s with next := s.next + 1, objects := s.objects ++ [Event.created c.handle] }
    match cfg.newClient with
    | some e => (none, { s with ec := some e })
    | none =>
      (some c, { s with clients := s.clients ++ [c], threads := s.threads ++ [c.threadId] })

/-- The message is put into the queue of a client. -/
def Server.push (cfg : Config) (s : Server) (c : Client) (data : List UInt8) : Server :=
  { s with
    pushed := s.pushed ++ [(c.handle, data)]
    objects := s.objects ++ [Event.used c.handle]
    addresses := s.addresses ++ if cfg.printsAddress then [Event.used c.address] else [] }

/-- What is done with a message, whose sender's address is in a variable. -/
def Server.handle (cfg : Config) (s : Server) (a : Arrival) (address : ℕ) : Server :=
  match a.received with
  | none => { s with ec := some .recvfrom }
  | some data =>
    -- an error of an earlier message is still there
    if s.ec ≠ none then s
    else if data = [] ∧ cfg.refusesEmpty then { s with ec := some .einval }
    else
      match s.find a with
      | (some c, s) => s.push cfg c data
      | (none, s) =>
        match s.takeIn cfg address with
        | (none, s) => s
        | (some c, s) => s.push cfg c data

/-- `receive`, and an iteration of `listening`: the address of the sender is a local variable. -/
def Server.receive (cfg : Config) (s : Server) (a : Arrival) : Server :=
  let address := s.nextAddress
  let s := { s with
    nextAddress := s.nextAddress + 1
    addresses := s.addresses ++ [Event.created address] }
  let s := s.handle cfg a address
  { s with addresses := s.addresses ++ [Event.freed address] }

/-- The loop of `main` and of `listening`. -/
def run (cfg : Config) (arrivals : List Arrival) : Server :=
  arrivals.foldl (Server.receive cfg) .start

/-- `CoapServer` as `main` makes it; the resources of its clients may not be parsed. -/
def coapServer (coreLink : Option ServerError) : Config where
  maxClients := 8
  newClient := coreLink
  refusesEmpty := false
  printsAddress := true

/-- `UdpServer` -/
def udpServer : Config where
  maxClients := 10
  newClient := none
  refusesEmpty := true
  printsAddress := false

theorem run_append_singleton (cfg : Config) (as : List Arrival) (a : Arrival) :
    run cfg (as ++ [a]) = (run cfg as).receive cfg a := by
  rw [run, List.foldl_append]
  rfl

/-! ## The error that stays -/

/-- The server is what it was, as far as its clients can tell. -/
structure Frozen (s s' : Server) : Prop where
  /-- The clients are the same. -/
  clients : s'.clients = s.clients
  /-- So are the threads. -/
  threads : s'.threads = s.threads
  /-- No message was put into a queue. -/
  pushed : s'.pushed = s.pushed
  /-- Nothing has happened to a client. -/
  objects : s'.objects = s.objects

theorem frozen_refl (s : Server) : Frozen s s := ⟨rfl, rfl, rfl, rfl⟩

theorem Frozen.trans {s s' s'' : Server} (h : Frozen s s') (h' : Frozen s' s'') : Frozen s s'' :=
  ⟨h'.clients.trans h.clients, h'.threads.trans h.threads, h'.pushed.trans h.pushed,
    h'.objects.trans h.objects⟩

theorem receive_of_error (cfg : Config) {s : Server} (hs : s.ec ≠ none) (a : Arrival) :
    (s.receive cfg a).ec ≠ none ∧ Frozen s (s.receive cfg a) := by
  rw [Server.receive, Server.handle]
  cases a.received with
  | none => exact ⟨nofun, rfl, rfl, rfl, rfl⟩
  | some data =>
    dsimp only
    rw [if_pos hs]
    exact ⟨hs, rfl, rfl, rfl, rfl⟩

/-- **The first error is the last thing that happens.**  The error of a message is never cleared,
and from then on a server drops everything that arrives: no client gets a message any more, none is
taken in and none is removed. -/
theorem stays_dead (cfg : Config) (as bs : List Arrival) (h : (run cfg as).ec ≠ none) :
    (run cfg (as ++ bs)).ec ≠ none ∧ Frozen (run cfg as) (run cfg (as ++ bs)) := by
  induction bs using List.reverseRecOn with
  | nil =>
    rw [List.append_nil]
    exact ⟨h, frozen_refl _⟩
  | append_singleton bs b ih =>
    rw [← List.append_assoc, run_append_singleton]
    obtain ⟨hec, hfrozen⟩ := receive_of_error cfg ih.1 b
    exact ⟨hec, ih.2.trans hfrozen⟩

/-! ## The pool -/

/-- What is true of the pool, of the threads and of what has happened to the clients. -/
structure Pool (max : ℕ) (clients : List Client) (threads : List ℕ) (next : ℕ)
    (objects : List Event) : Prop where
  /-- There are not too many clients. -/
  bound : clients.length ≤ max
  /-- Every client has its thread. -/
  threads : threads = clients.map Client.threadId
  /-- No client is there twice. -/
  handles : (clients.map Client.handle).Nodup
  /-- No two clients have the same thread. -/
  threadIds : (clients.map Client.threadId).Nodup
  /-- The next client is a new one. -/
  fresh : ∀ e ∈ objects, e.handle < next
  /-- So is its thread. -/
  freshThread : ∀ c ∈ clients, c.threadId < next
  /-- The clients of the pool exist. -/
  live : ∀ c ∈ clients, .created c.handle ∈ objects ∧ .freed c.handle ∉ objects
  /-- A client that is not in the pool any more was freed once. -/
  kept : ∀ h, .created h ∈ objects → objects.count (.freed h) = 1 ∨ ∃ c ∈ clients, c.handle = h
  /-- It was not used after that. -/
  notAfterFree : NotAfterFree objects

section

variable {max next : ℕ} {clients : List Client} {threads : List ℕ} {objects : List Event}

theorem Pool.use (h : Pool max clients threads next objects) {c : Client} (hc : c ∈ clients) :
    Pool max clients threads next (objects ++ [.used c.handle]) where
  bound := h.bound
  threads := h.threads
  handles := h.handles
  threadIds := h.threadIds
  fresh e he := by
    rcases List.mem_append.mp he with he | he
    · exact h.fresh e he
    · rw [List.mem_singleton.mp he]
      exact h.fresh (.created c.handle) (h.live c hc).1
  freshThread := h.freshThread
  live c' hc' := by simpa using h.live c' hc'
  kept k hk := by simpa using h.kept k (by simpa using hk)
  notAfterFree := by
    rw [notAfterFree_append_of_passes fun _ ↦ Iff.rfl]
    exact ⟨h.notAfterFree, (h.live c hc).2⟩

theorem Pool.uses (h : Pool max clients threads next objects) {cs : List Client}
    (hcs : ∀ c ∈ cs, c ∈ clients) :
    Pool max clients threads next (objects ++ cs.map fun c ↦ Event.used c.handle) := by
  induction cs generalizing objects with
  | nil => rwa [List.map_nil, List.append_nil]
  | cons c cs ih =>
    rw [List.map_cons, List.append_cons]
    exact ih (h.use (hcs c List.mem_cons_self)) fun c' hc' ↦ hcs c' (List.mem_cons_of_mem _ hc')

theorem Pool.create (h : Pool max clients threads next objects) (hroom : clients.length < max)
    (address : ℕ) :
    Pool max (clients ++ [⟨next, address, next⟩]) (threads ++ [next]) (next + 1)
      (objects ++ [.created next]) where
  bound := by
    rw [List.length_append, List.length_singleton]
    exact hroom
  threads := by rw [h.threads, List.map_append, List.map_singleton]
  handles := by
    rw [List.map_append, List.nodup_append]
    refine ⟨h.handles, List.nodup_singleton _, fun k hk k' hk' heq ↦ ?_⟩
    obtain ⟨c, hc, rfl⟩ := List.mem_map.mp hk
    rw [List.mem_singleton.mp hk'] at heq
    exact absurd (h.fresh _ (h.live c hc).1) (by rw [Event.handle, heq]; exact Nat.lt_irrefl _)
  threadIds := by
    rw [List.map_append, List.nodup_append]
    refine ⟨h.threadIds, List.nodup_singleton _, fun k hk k' hk' heq ↦ ?_⟩
    obtain ⟨c, hc, rfl⟩ := List.mem_map.mp hk
    rw [List.mem_singleton.mp hk'] at heq
    exact absurd (h.freshThread c hc) (by rw [heq]; exact Nat.lt_irrefl _)
  fresh e he := by
    rcases List.mem_append.mp he with he | he
    · exact Nat.lt_succ_of_lt (h.fresh e he)
    · rw [List.mem_singleton.mp he]
      exact Nat.lt_succ_self _
  freshThread c hc := by
    rcases List.mem_append.mp hc with hc | hc
    · exact Nat.lt_succ_of_lt (h.freshThread c hc)
    · rw [List.mem_singleton.mp hc]
      exact Nat.lt_succ_self _
  live c hc := by
    rcases List.mem_append.mp hc with hc | hc
    · simpa using (h.live c hc).imp_left Or.inl
    · rw [List.mem_singleton.mp hc]
      have hnew : Event.freed next ∉ objects := fun hmem ↦ Nat.lt_irrefl _ (h.fresh _ hmem)
      simpa using hnew
  kept k hk := by
    rcases List.mem_append.mp hk with hk | hk
    · refine (h.kept k hk).imp (fun hone ↦ by simpa using hone) ?_
      exact fun ⟨c, hc, hck⟩ ↦ ⟨c, List.mem_append_left _ hc, hck⟩
    · cases List.mem_singleton.mp hk
      exact .inr ⟨_, List.mem_append_right _ (List.mem_singleton_self _), rfl⟩
  notAfterFree := by
    rw [notAfterFree_append_singleton]
    exact ⟨h.notAfterFree, fun _ _ ↦ id⟩

theorem Pool.free {left right : List Client} {c : Client}
    (h : Pool max (left ++ c :: right) threads next objects) :
    Pool max (left ++ right) ((left ++ right).map Client.threadId) next
      (objects ++ [.freed c.handle]) := by
  have hc : c ∈ left ++ c :: right := List.mem_append_right _ List.mem_cons_self
  have hsub : (left ++ right).Sublist (left ++ c :: right) :=
    List.Sublist.append (List.Sublist.refl _) (List.sublist_cons_self _ _)
  have hne (c' : Client) (hc' : c' ∈ left ++ right) : c'.handle ≠ c.handle := by
    have hnodup := h.handles
    rw [List.map_append, List.map_cons, List.nodup_middle, ← List.map_append,
      List.nodup_cons] at hnodup
    exact fun heq ↦ hnodup.1 (heq ▸ List.mem_map_of_mem hc')
  refine ⟨?_, rfl, h.handles.sublist (hsub.map _), h.threadIds.sublist (hsub.map _), ?_, ?_, ?_,
    ?_, ?_⟩
  · exact Nat.le_trans hsub.length_le h.bound
  · intro e he
    rcases List.mem_append.mp he with he | he
    · exact h.fresh e he
    · rw [List.mem_singleton.mp he]
      exact h.fresh (.created c.handle) (h.live c hc).1
  · exact fun c' hc' ↦ h.freshThread c' (hsub.subset hc')
  · intro c' hc'
    have := h.live c' (hsub.subset hc')
    simpa [hne c' hc'] using this
  · intro k hk
    have hk : .created k ∈ objects := by simpa using hk
    by_cases hkc : k = c.handle
    · subst hkc
      have hnone := List.count_eq_zero_of_not_mem (h.live c hc).2
      exact .inl (by simp [List.count_append, hnone])
    · refine (h.kept k hk).imp (fun hone ↦ ?_) ?_
      · simpa [List.count_append, Ne.symm hkc] using hone
      · rintro ⟨c', hc', rfl⟩
        refine ⟨c', ?_, rfl⟩
        rw [List.mem_append, List.mem_cons] at hc'
        rcases hc' with hc' | rfl | hc'
        · exact List.mem_append_left _ hc'
        · exact (hkc rfl).elim
        · exact List.mem_append_right _ hc'
  · rw [notAfterFree_append_of_passes fun _ ↦ Iff.rfl]
    exact ⟨h.notAfterFree, (h.live c hc).2⟩

end

/-- The pool of a server. -/
def Server.Good (cfg : Config) (s : Server) : Prop :=
  Pool cfg.maxClients s.clients s.threads s.next s.objects

/-- **A client of the pool can be removed**, together with its thread. -/
theorem good_remove {cfg : Config} {s : Server} (hs : s.Good cfg) {c : Client}
    (hc : c ∈ s.clients) : (s.remove c).1 = true ∧ (s.remove c).2.Good cfg := by
  have hused := Pool.use hs hc
  obtain ⟨left, right, hclients⟩ := List.append_of_mem hc
  have hmem : c.threadId ∈ s.threads := by
    rw [hs.threads]
    exact List.mem_map_of_mem hc
  have hhandles := hs.handles
  have hthreadIds := hs.threadIds
  rw [hclients, List.map_append, List.map_cons, List.nodup_middle, List.nodup_cons,
    List.mem_append] at hhandles hthreadIds
  have hleft (c' : Client) (hc' : c' ∈ left) : ¬ decide (c'.handle = c.handle) = true := by
    rw [decide_eq_true_eq]
    exact fun heq ↦ hhandles.1 (.inl (heq ▸ List.mem_map_of_mem hc'))
  have herase : s.clients.eraseP (fun c' ↦ decide (c'.handle = c.handle)) = left ++ right := by
    rw [hclients, List.eraseP_append_right _ hleft, List.eraseP_cons_of_pos (by simp)]
  have hthread : s.threads.erase c.threadId = (left ++ right).map Client.threadId := by
    have hnot : c.threadId ∉ left.map Client.threadId := fun h ↦ hthreadIds.1 (.inl h)
    rw [hs.threads, hclients, List.map_append, List.map_cons, List.erase_append_right _ hnot,
      List.erase_cons_head, List.map_append]
  rw [Server.remove, if_pos hmem]
  refine ⟨rfl, ?_⟩
  rw [hclients] at hused
  have hfree := hused.free
  rw [List.append_assoc] at hfree
  change Pool _ (s.clients.eraseP _) (s.threads.erase _) _ _
  rw [herase, hthread]
  exact hfree

theorem visited_subset {same : Client → Bool} {clients : List Client} :
    ∀ c ∈ visited same clients, c ∈ clients := by
  induction clients with
  | nil => exact fun _ h ↦ h
  | cons c clients ih =>
    intro c' hc'
    rw [visited] at hc'
    split at hc'
    · rw [List.mem_singleton.mp hc']
      exact List.mem_cons_self
    · rcases List.mem_cons.mp hc' with rfl | hc'
      · exact List.mem_cons_self
      · exact List.mem_cons_of_mem _ (ih c' hc')

/-- What is found is in the pool, and what is timed out is not. -/
theorem good_find {cfg : Config} {s : Server} (hs : s.Good cfg) (a : Arrival) :
    (s.find a).2.Good cfg ∧ ∀ c, (s.find a).1 = some c → c ∈ (s.find a).2.clients := by
  have hseen : (s.compare a.same).Good cfg := Pool.uses hs visited_subset
  rw [Server.find]
  cases hfind : (s.compare a.same).clients.find? a.same with
  | none => exact ⟨hseen, nofun⟩
  | some c =>
    have hc := List.mem_of_find?_eq_some hfind
    dsimp only
    split
    · exact ⟨(good_remove hseen hc).2, nofun⟩
    · refine ⟨hseen, fun c' hc' ↦ ?_⟩
      rw [← Option.some.inj hc']
      exact hc

/-- A client is taken in only if there is room for it. -/
theorem good_takeIn {cfg : Config} {s : Server} (hs : s.Good cfg) (hnew : cfg.newClient = none)
    (address : ℕ) : (s.takeIn cfg address).2.Good cfg ∧
      ∀ c, (s.takeIn cfg address).1 = some c → c ∈ (s.takeIn cfg address).2.clients := by
  rw [Server.takeIn]
  split
  · exact ⟨hs, nofun⟩
  · next hroom =>
    rw [hnew]
    refine ⟨Pool.create hs (Nat.lt_of_not_le hroom) address, fun c hc ↦ ?_⟩
    rw [← Option.some.inj hc]
    exact List.mem_append_right _ (List.mem_singleton_self _)

theorem good_receive {cfg : Config} {s : Server} (hs : s.Good cfg) (hnew : cfg.newClient = none)
    (a : Arrival) : (s.receive cfg a).Good cfg := by
  let s₀ : Server := { s with
    nextAddress := s.nextAddress + 1
    addresses := s.addresses ++ [Event.created s.nextAddress] }
  have hs₀ : s₀.Good cfg := hs
  change (s₀.handle cfg a s.nextAddress).Good cfg
  rw [Server.handle]
  cases a.received with
  | none => exact hs₀
  | some data =>
    dsimp only
    split_ifs
    · exact hs₀
    · exact hs₀
    · obtain ⟨hfound, hmem⟩ := good_find hs₀ a
      rcases hfind : s₀.find a with ⟨found, s₁⟩
      rw [hfind] at hfound hmem
      cases found with
      | some c => exact Pool.use hfound (hmem c rfl)
      | none =>
        obtain ⟨htaken, hmem⟩ := good_takeIn hfound hnew s.nextAddress
        rcases htake : s₁.takeIn cfg s.nextAddress with ⟨taken, s₂⟩
        rw [htake] at htaken hmem
        dsimp only
        rw [htake]
        cases taken with
        | none => exact htaken
        | some c => exact Pool.use htaken (hmem c rfl)

theorem good_start (cfg : Config) : Server.start.Good cfg where
  bound := Nat.zero_le _
  threads := rfl
  handles := List.nodup_nil
  threadIds := List.nodup_nil
  fresh _ h := absurd h List.not_mem_nil
  freshThread _ h := absurd h List.not_mem_nil
  live _ h := absurd h List.not_mem_nil
  kept _ h := absurd h List.not_mem_nil
  notAfterFree := List.Pairwise.nil

theorem good_run (cfg : Config) (hnew : cfg.newClient = none) (arrivals : List Arrival) :
    (run cfg arrivals).Good cfg := by
  induction arrivals using List.reverseRecOn with
  | nil => exact good_start cfg
  | append_singleton as a ih =>
    rw [run_append_singleton]
    exact good_receive ih hnew a

/-- **The pool of a server**, in the hands of the receiving thread alone.  Whatever messages arrive,
whatever the comparisons of the addresses give and whichever connections are timed out: there are
never more clients than there may be, every client has a thread of its own and there are no other
threads, a client that was taken in is in the pool or was freed once, and none is used after it was
freed.  What `remove_connected_client` is asked to remove it does remove. -/
theorem pool_run (cfg : Config) (hnew : cfg.newClient = none) (arrivals : List Arrival) :
    (run cfg arrivals).Good cfg ∧
      ∀ c ∈ (run cfg arrivals).clients, ((run cfg arrivals).remove c).1 = true := by
  have hgood := good_run cfg hnew arrivals
  exact ⟨hgood, fun c hc ↦ (good_remove hgood hc).1⟩

/-- The echo server gets one message. -/
theorem pool_udpServer :
    (run udpServer [⟨some [1], fun _ ↦ true, fun _ ↦ false⟩]).clients.length ≤ 10 :=
  (pool_run udpServer rfl _).1.bound

/-! ## The messages that reach a client -/

/-- The message is one that a client is looked for. -/
def Arrival.Arrives (cfg : Config) (a : Arrival) : Prop :=
  ∃ data, a.received = some data ∧ ¬ (data = [] ∧ cfg.refusesEmpty = true)

/-- The message is refused: it is none, or its sender is not known and there is no room. -/
def Refused (cfg : Config) (s : Server) (a : Arrival) : Prop :=
  ¬ a.Arrives cfg ∨ s.clients.find? a.same = none ∧ cfg.maxClients ≤ s.clients.length

theorem handle_of_not_arrives {cfg : Config} {s : Server} {a : Arrival} (ha : ¬ a.Arrives cfg)
    (address : ℕ) : ∃ e, s.handle cfg a address = { s with ec := some e } := by
  rw [Server.handle]
  cases hreceived : a.received with
  | none => exact ⟨_, rfl⟩
  | some data =>
    have hempty : data = [] ∧ cfg.refusesEmpty = true := by
      by_contra hne
      exact ha ⟨data, hreceived, hne⟩
    dsimp only
    cases hec : s.ec with
    | none => exact ⟨_, by rw [if_neg (by simp), if_pos hempty]⟩
    | some e =>
      refine ⟨e, ?_⟩
      rw [if_pos (by simp)]
      exact congrArg (fun ec ↦ ({ s with ec := ec } : Server)) hec

theorem handle_of_arrives {cfg : Config} {s : Server} {a : Arrival} {data : List UInt8}
    (hec : s.ec = none) (hreceived : a.received = some data)
    (hdata : ¬ (data = [] ∧ cfg.refusesEmpty = true)) (address : ℕ) :
    s.handle cfg a address =
      match s.find a with
      | (some c, s) => s.push cfg c data
      | (none, s) =>
        match s.takeIn cfg address with
        | (none, s) => s
        | (some c, s) => s.push cfg c data := by
  rw [Server.handle, hreceived]
  dsimp only
  rw [if_neg (by simp [hec]), if_neg hdata]

/-- A client that is known, and one that is taken in, gets the message. -/
theorem handle_of_not_refused {cfg : Config} {s : Server} (hs : s.Good cfg)
    (hnew : cfg.newClient = none) (hec : s.ec = none) {a : Arrival} (ha : ¬ Refused cfg s a)
    (address : ℕ) : ∃ c data, a.received = some data ∧
      (s.handle cfg a address).ec = none ∧
      (s.handle cfg a address).pushed = s.pushed ++ [(c, data)] := by
  rw [Refused, not_or, not_not] at ha
  obtain ⟨⟨data, hreceived, hdata⟩, hroom⟩ := ha
  rw [handle_of_arrives hec hreceived hdata, Server.find]
  cases hfind : (s.compare a.same).clients.find? a.same with
  | none =>
    have hlt : ¬ cfg.maxClients ≤ (s.compare a.same).clients.length :=
      fun hfull ↦ hroom ⟨hfind, hfull⟩
    dsimp only
    rw [Server.takeIn, if_neg hlt, hnew]
    exact ⟨_, data, hreceived, hec, rfl⟩
  | some c =>
    have hc : c ∈ s.clients := List.mem_of_find?_eq_some hfind
    have hthread : c.threadId ∈ (s.compare a.same).threads := by
      change c.threadId ∈ s.threads
      rw [hs.threads]
      exact List.mem_map_of_mem hc
    dsimp only
    by_cases htimed : a.timedOut c = true
    · -- the client that is removed makes room for the new one
      have hlt : ¬ cfg.maxClients ≤ ((s.compare a.same).remove c).2.clients.length := by
        have hbound : s.clients.length ≤ cfg.maxClients := hs.bound
        have herase : (s.clients.eraseP fun c' ↦ c'.handle = c.handle).length = _ :=
          List.length_eraseP_of_mem hc (by simp)
        have hpos := List.length_pos_of_mem hc
        rw [Server.remove, if_pos hthread]
        change ¬ cfg.maxClients ≤ (s.clients.eraseP _).length
        omega
      rw [if_pos htimed]
      dsimp only
      rw [Server.takeIn, if_neg hlt, hnew, Server.remove, if_pos hthread]
      exact ⟨_, data, hreceived, hec, rfl⟩
    · rw [if_neg htimed]
      exact ⟨_, data, hreceived, hec, rfl⟩

/-- A message that is refused leaves an error, and no other trace with the clients. -/
theorem handle_of_refused {cfg : Config} {s : Server} (hec : s.ec = none) {a : Arrival}
    (ha : Refused cfg s a) (address : ℕ) :
    (s.handle cfg a address).ec ≠ none ∧ (s.handle cfg a address).pushed = s.pushed ∧
      (s.handle cfg a address).clients = s.clients := by
  by_cases harrives : a.Arrives cfg
  · obtain ⟨hfind, hfull⟩ := ha.resolve_left (not_not.mpr harrives)
    obtain ⟨data, hreceived, hdata⟩ := harrives
    have hfind' : (s.compare a.same).clients.find? a.same = none := hfind
    have hfull' : cfg.maxClients ≤ (s.compare a.same).clients.length := hfull
    rw [handle_of_arrives hec hreceived hdata, Server.find, hfind']
    dsimp only
    rw [Server.takeIn, if_pos hfull']
    exact ⟨nofun, rfl, rfl⟩
  · obtain ⟨e, he⟩ := handle_of_not_arrives (s := s) harrives address
    rw [he]
    exact ⟨nofun, rfl, rfl⟩

/-- **Which messages reach a client.**  As long as no message is refused, all of them do, in the
order in which they arrive.  The first one that is refused is the end of the service: from then on
no message reaches a client, whoever it comes from, and the receiving thread leaves the pool as it
is. -/
theorem served_run (cfg : Config) (hnew : cfg.newClient = none) (arrivals : List Arrival) :
    ((∀ as a bs, arrivals = as ++ a :: bs → ¬ Refused cfg (run cfg as) a) →
      (run cfg arrivals).ec = none ∧
      (run cfg arrivals).pushed.map Prod.snd = arrivals.filterMap Arrival.received) ∧
    ∀ as a bs, arrivals = as ++ a :: bs → Refused cfg (run cfg as) a →
      (run cfg arrivals).ec ≠ none ∧ (run cfg arrivals).pushed = (run cfg as).pushed ∧
      (run cfg arrivals).clients = (run cfg as).clients := by
  constructor
  · intro hserved
    induction arrivals using List.reverseRecOn with
    | nil => exact ⟨rfl, rfl⟩
    | append_singleton as a ih =>
      have hbefore := ih fun as' a' bs' heq ↦ hserved as' a' (bs' ++ [a]) (by rw [heq]; simp)
      have hgood := good_run cfg hnew as
      obtain ⟨c, data, hreceived, hec, hpushed⟩ := handle_of_not_refused (s := { run cfg as with
        nextAddress := (run cfg as).nextAddress + 1
        addresses := (run cfg as).addresses ++ [Event.created (run cfg as).nextAddress] })
        hgood hnew hbefore.1 (hserved as a [] rfl) (run cfg as).nextAddress
      rw [run_append_singleton]
      refine ⟨hec, ?_⟩
      change (Server.handle _ _ _ _).pushed.map Prod.snd = _
      rw [hpushed]
      simp [hbefore.2, hreceived]
  · rintro as a bs rfl hrefused
    have hsplit : as ++ a :: bs = (as ++ [a]) ++ bs := by simp
    rw [hsplit]
    by_cases hec : (run cfg as).ec = none
    · obtain ⟨hec', hpushed, hclients⟩ := handle_of_refused (s := { run cfg as with
        nextAddress := (run cfg as).nextAddress + 1
        addresses := (run cfg as).addresses ++ [Event.created (run cfg as).nextAddress] })
        hec hrefused (run cfg as).nextAddress
      have hone := run_append_singleton cfg as a
      obtain ⟨hdead, hfrozen⟩ := stays_dead cfg (as ++ [a]) bs (by rw [hone]; exact hec')
      refine ⟨hdead, hfrozen.pushed.trans ?_, hfrozen.clients.trans ?_⟩
      · rw [hone]
        exact hpushed
      · rw [hone]
        exact hclients
    · obtain ⟨hdead, hfrozen⟩ := stays_dead cfg as ([a] ++ bs) hec
      rw [← List.append_assoc] at hdead hfrozen
      exact ⟨hdead, hfrozen.pushed, hfrozen.clients⟩

/-- An empty message comes between two other ones, and the second one reaches nobody. -/
theorem served_empty :
    (run udpServer [⟨some [1], fun _ ↦ true, fun _ ↦ false⟩,
      ⟨some [], fun _ ↦ true, fun _ ↦ false⟩, ⟨some [2], fun _ ↦ true, fun _ ↦ false⟩]).pushed =
      (run udpServer [⟨some [1], fun _ ↦ true, fun _ ↦ false⟩]).pushed :=
  ((served_run udpServer rfl _).2 [_] ⟨some [], fun _ ↦ true, fun _ ↦ false⟩ [_] rfl (.inl (by
    rintro ⟨data, hdata, hne⟩
    cases hdata
    exact hne ⟨rfl, rfl⟩))).2.1

/-! ## The addresses of the clients -/

theorem find_addresses (s : Server) (a : Arrival) :
    (s.find a).2.addresses =
      s.addresses ++ (visited a.same s.clients).map fun c ↦ Event.used c.address := by
  rw [Server.find]
  split
  · rfl
  · split
    · rw [Server.remove]
      split <;> rfl
    · rfl

theorem takeIn_addresses (cfg : Config) (s : Server) (address : ℕ) :
    (s.takeIn cfg address).2.addresses = s.addresses := by
  rw [Server.takeIn]
  split
  · rfl
  · cases cfg.newClient <;> rfl

theorem find_nextAddress (s : Server) (a : Arrival) :
    (s.find a).2.nextAddress = s.nextAddress := by
  rw [Server.find]
  split
  · rfl
  · split
    · rw [Server.remove]
      split <;> rfl
    · rfl

theorem takeIn_nextAddress (cfg : Config) (s : Server) (address : ℕ) :
    (s.takeIn cfg address).2.nextAddress = s.nextAddress := by
  rw [Server.takeIn]
  split
  · rfl
  · cases cfg.newClient <;> rfl

/-- What is looked at when a client is looked for stays known. -/
theorem addresses_find {cfg : Config} {s : Server} {a : Arrival} (hec : s.ec = none)
    (ha : a.Arrives cfg) (address : ℕ) :
    (s.find a).2.addresses <+: (s.handle cfg a address).addresses := by
  obtain ⟨data, hreceived, hdata⟩ := ha
  rw [handle_of_arrives hec hreceived hdata]
  rcases s.find a with ⟨found, s₁⟩
  cases found with
  | some c => exact List.prefix_append _ _
  | none =>
    have htake := takeIn_addresses cfg s₁ address
    dsimp only
    rcases htaken : s₁.takeIn cfg address with ⟨taken, s₂⟩
    rw [htaken] at htake
    cases taken with
    | some c =>
      rw [← htake]
      exact List.prefix_append _ _
    | none => exact ⟨[], by rw [List.append_nil]; exact htake.symm⟩

/-- A message that no client is looked for does not touch the addresses of other messages. -/
theorem receive_of_not_looked {cfg : Config} {s : Server} {a : Arrival}
    (h : s.ec ≠ none ∨ ¬ a.Arrives cfg) : (s.receive cfg a).ec ≠ none ∧
      (s.receive cfg a).addresses =
        s.addresses ++ [.created s.nextAddress, .freed s.nextAddress] := by
  let s₀ : Server := { s with
    nextAddress := s.nextAddress + 1
    addresses := s.addresses ++ [Event.created s.nextAddress] }
  change (s₀.handle cfg a s.nextAddress).ec ≠ none ∧
    (s₀.handle cfg a s.nextAddress).addresses ++ _ = _
  by_cases ha : a.Arrives cfg
  · have hec : s₀.ec ≠ none := h.resolve_right (not_not.mpr ha)
    obtain ⟨data, hreceived, -⟩ := ha
    rw [Server.handle, hreceived]
    dsimp only
    rw [if_pos hec]
    exact ⟨hec, List.append_assoc _ _ _⟩
  · obtain ⟨e, he⟩ := handle_of_not_arrives (s := s₀) ha s.nextAddress
    rw [he]
    exact ⟨nofun, List.append_assoc _ _ _⟩

/-- The addresses so far are no trouble, and the next one is a new one. -/
structure Addresses (s : Server) : Prop where
  /-- No address is read that does not exist any more. -/
  notAfterFree : NotAfterFree s.addresses
  /-- The next one is a new one. -/
  fresh : ∀ e ∈ s.addresses, e.handle < s.nextAddress

theorem receive_nextAddress (cfg : Config) (s : Server) (a : Arrival) :
    (s.receive cfg a).nextAddress = s.nextAddress + 1 := by
  let s₀ : Server := { s with
    nextAddress := s.nextAddress + 1
    addresses := s.addresses ++ [Event.created s.nextAddress] }
  change (s₀.handle cfg a s.nextAddress).nextAddress = s₀.nextAddress
  by_cases ha : a.Arrives cfg
  · obtain ⟨data, hreceived, hdata⟩ := ha
    by_cases hec : s₀.ec = none
    · rw [handle_of_arrives hec hreceived hdata]
      have hfind := find_nextAddress s₀ a
      rcases hfound : s₀.find a with ⟨found, s₁⟩
      rw [hfound] at hfind
      cases found with
      | some c => exact hfind
      | none =>
        have htake := takeIn_nextAddress cfg s₁ s.nextAddress
        dsimp only
        rcases htaken : s₁.takeIn cfg s.nextAddress with ⟨taken, s₂⟩
        rw [htaken] at htake
        cases taken <;> exact htake.trans hfind
    · rw [Server.handle, hreceived]
      dsimp only
      rw [if_pos hec]
  · obtain ⟨e, he⟩ := handle_of_not_arrives (s := s₀) ha s.nextAddress
    rw [he]

theorem addresses_of_not_looked {cfg : Config} {s : Server} {a : Arrival} (hs : Addresses s)
    (h : s.ec ≠ none ∨ ¬ a.Arrives cfg) : Addresses (s.receive cfg a) := by
  have hnew : Event.freed s.nextAddress ∉ s.addresses :=
    fun hmem ↦ Nat.lt_irrefl _ (hs.fresh _ hmem)
  have hadd := (receive_of_not_looked h).2
  constructor
  · rw [hadd, List.append_cons, notAfterFree_append_of_passes fun _ ↦ Iff.rfl,
      notAfterFree_append_singleton]
    exact ⟨⟨hs.notAfterFree, fun _ _ hpasses ↦ hpasses⟩, by simpa using hnew⟩
  · intro e he
    rw [hadd, List.mem_append] at he
    rw [receive_nextAddress]
    rcases he with he | he
    · exact Nat.lt_succ_of_lt (hs.fresh e he)
    · rcases List.mem_pair.mp he with rfl | rfl <;> exact Nat.lt_succ_self _

theorem addresses_dead (cfg : Config) (as bs : List Arrival) (hec : (run cfg as).ec ≠ none)
    (has : Addresses (run cfg as)) : Addresses (run cfg (as ++ bs)) := by
  induction bs using List.reverseRecOn with
  | nil => rwa [List.append_nil]
  | append_singleton bs b ih =>
    rw [← List.append_assoc, run_append_singleton]
    exact addresses_of_not_looked ih (.inl (stays_dead cfg as bs hec).1)

/-- The first message that a client is looked for makes one, with an address that is gone. -/
theorem receive_first {cfg : Config} (hroom : 0 < cfg.maxClients) (hnew : cfg.newClient = none)
    {a : Arrival} (ha : a.Arrives cfg) :
    (Server.start.receive cfg a).ec = none ∧
      (Server.start.receive cfg a).clients = [⟨0, 0, 0⟩] ∧
      Event.freed 0 ∈ (Server.start.receive cfg a).addresses ∧
      Addresses (Server.start.receive cfg a) := by
  obtain ⟨data, hreceived, hdata⟩ := ha
  let s₀ : Server := { Server.start with nextAddress := 1, addresses := [.created 0] }
  have hhandle : s₀.handle cfg a 0 = { s₀ with
      clients := [⟨0, 0, 0⟩]
      threads := [0]
      next := 1
      pushed := [(0, data)]
      objects := [.created 0, .used 0]
      addresses := [.created 0] ++ if cfg.printsAddress then [.used 0] else [] } := by
    rw [handle_of_arrives rfl hreceived hdata]
    change (match Server.takeIn cfg s₀ 0 with
      | (none, s) => s
      | (some c, s) => s.push cfg c data) = _
    have hfree : ¬ cfg.maxClients ≤ s₀.clients.length := Nat.not_le_of_lt hroom
    rw [Server.takeIn, if_neg hfree, hnew]
    rfl
  have hreceive : Server.start.receive cfg a = { s₀.handle cfg a 0 with
      addresses := (s₀.handle cfg a 0).addresses ++ [.freed 0] } := rfl
  rw [hreceive, hhandle]
  refine ⟨rfl, rfl, List.mem_append_right _ (List.mem_singleton_self _), ?_, fun e he ↦ ?_⟩
  · cases cfg.printsAddress <;> simp [NotAfterFree]
  · have hzero : e.handle = 0 := by
      cases hprints : cfg.printsAddress <;> simp [hprints] at he <;>
        (rcases he with rfl | rfl | rfl) <;> rfl
    rw [hzero]
    exact Nat.zero_lt_one

theorem addresses_receive (cfg : Config) (s : Server) (a : Arrival) :
    s.addresses <+: (s.receive cfg a).addresses := by
  by_cases hlooked : s.ec = none ∧ a.Arrives cfg
  · let s₀ : Server := { s with
      nextAddress := s.nextAddress + 1
      addresses := s.addresses ++ [Event.created s.nextAddress] }
    have hfind : s₀.addresses <+: (s₀.find a).2.addresses := by
      rw [find_addresses]
      exact List.prefix_append _ _
    exact (List.prefix_append _ _).trans <| hfind.trans <|
      (addresses_find (s := s₀) hlooked.1 hlooked.2 s.nextAddress).trans (List.prefix_append _ _)
  · rw [not_and_or] at hlooked
    rw [(receive_of_not_looked hlooked).2]
    exact List.prefix_append _ _

theorem addresses_run_append (cfg : Config) (as bs : List Arrival) :
    (run cfg as).addresses <+: (run cfg (as ++ bs)).addresses := by
  induction bs using List.reverseRecOn with
  | nil => exact ⟨[], by rw [List.append_nil, List.append_nil]⟩
  | append_singleton bs b ih =>
    rw [← List.append_assoc, run_append_singleton]
    exact ih.trans (addresses_receive cfg _ b)

/-- **Two messages are one too many.**  The receiving thread reads the address of a message that was
dealt with long ago exactly if both of the first two messages are ones that a client is looked for:
the client that the first one makes remembers an address that is gone when the second one is
compared with it.  So a server that stays clear of it has served one message at most. -/
theorem addresses_iff (cfg : Config) (hroom : 0 < cfg.maxClients) (hnew : cfg.newClient = none)
    (arrivals : List Arrival) :
    NotAfterFree (run cfg arrivals).addresses ↔
      ∀ a b cs, arrivals = a :: b :: cs → a.Arrives cfg → ¬ b.Arrives cfg := by
  constructor
  · rintro hsafe a b cs rfl ha hb
    obtain ⟨hec, hclients, hgone, -⟩ := receive_first hroom hnew ha
    let s₁ : Server := { run cfg [a] with
      nextAddress := (run cfg [a]).nextAddress + 1
      addresses := (run cfg [a]).addresses ++ [Event.created (run cfg [a]).nextAddress] }
    have hseen : visited b.same s₁.clients = [⟨0, 0, 0⟩] := by
      change visited b.same (Server.start.receive cfg a).clients = _
      rw [hclients, visited]
      split <;> rfl
    -- the second message is compared with the first client
    have hread : s₁.addresses ++ [.used 0] <+: (run cfg ([a, b] ++ cs)).addresses := by
      have hfind := find_addresses s₁ b
      rw [hseen] at hfind
      rw [show [Event.used 0] = [(⟨0, 0, 0⟩ : Client)].map fun c ↦ Event.used c.address from rfl,
        ← hfind]
      have hadd : (s₁.handle cfg b (run cfg [a]).nextAddress).addresses <+:
          (run cfg [a, b]).addresses :=
        List.prefix_append _ [Event.freed (run cfg [a]).nextAddress]
      exact (addresses_find (s := s₁) hec hb _).trans <| hadd.trans <|
        addresses_run_append cfg [a, b] cs
    have hbad : NotAfterFree (s₁.addresses ++ [.used 0]) := hsafe.sublist hread.sublist
    rw [notAfterFree_append_of_passes fun _ ↦ Iff.rfl] at hbad
    exact hbad.2 (List.mem_append_left _ hgone)
  · intro hsafe
    have hstart : Addresses (run cfg []) := ⟨List.Pairwise.nil, fun _ h ↦ absurd h List.not_mem_nil⟩
    cases arrivals with
    | nil => exact hstart.notAfterFree
    | cons a bs =>
      by_cases ha : a.Arrives cfg
      · obtain ⟨-, -, -, hfirst⟩ := receive_first hroom hnew ha
        cases bs with
        | nil => exact hfirst.notAfterFree
        | cons b cs =>
          have hb := hsafe a b cs rfl ha
          have hsecond := addresses_of_not_looked (s := run cfg [a]) hfirst (.inr hb)
          exact (addresses_dead cfg [a, b] cs (receive_of_not_looked (.inr hb)).1
            hsecond).notAfterFree
      · have hfirst := addresses_of_not_looked hstart (.inr ha)
        exact (addresses_dead cfg [a] bs (receive_of_not_looked (.inr ha)).1 hfirst).notAfterFree

/-- The CoAP server gets two messages. -/
theorem addresses_coapServer :
    ¬ NotAfterFree (run (coapServer none) [⟨some [1], fun _ ↦ true, fun _ ↦ false⟩,
      ⟨some [2], fun _ ↦ true, fun _ ↦ false⟩]).addresses := fun hsafe ↦
  (addresses_iff (coapServer none) (by decide) rfl _).mp hsafe _ _ _ rfl
    ⟨[1], rfl, fun h ↦ nomatch h.2⟩ ⟨[2], rfl, fun h ↦ nomatch h.2⟩

end ServerPool
end Coap
