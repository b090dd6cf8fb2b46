import CoapCpp.CString
import Mathlib.Data.List.Induction

/-!
# A session with the CoAP client

`coap-client` of `examples/POSIX`: it reads requests from its standard input and has them carried
out by a `ClientEndpoint` of `src/unix/unix_endpoint.cc`, whose state machine goes one step further
whenever something happens, or nothing for a while.

* `session_run`: what the endpoint has gone through and what request it was given, behind any
  session.  The requests pile up in one `Request`.
* `ignores_server`: nothing that the server sends makes a difference.
-/

set_option autoImplicit false

namespace Coap

open CString

namespace ClientSession

/-! ## Requests -/

/-- The members of `MethodCode` that a request may have. -/
inductive MethodCode where
  /-- `METHOD_GET` -/
  | get
  /-- `METHOD_PUT` -/
  | put
  /-- `METHOD_POST` -/
  | post
deriving DecidableEq

/-- The name of a method: `GET`, `PUT` and `POST`. -/
def MethodCode.name : MethodCode → Text
  | .get => [71, 69, 84]
  | .put => [80, 85, 84]
  | .post => [80, 79, 83, 84]

/-- `Request`, whose code is not set in the beginning. -/
structure Request where
  /-- `code` -/
  code : Option MethodCode
  /-- `url` -/
  url : Text
  /-- `value` -/
  value : Text
deriving DecidableEq

/-- A `Request` that was not given a request yet. -/
def Request.start : Request := ⟨none, [], []⟩

/-- The method whose name is found in a line, and where it is found. -/
def findMethod (req : Text) : List MethodCode → Option (MethodCode × ℕ)
  | [] => none
  | code :: codes =>
    match find req code.name 0 with
    | some offset => some (code, offset)
    | none => findMethod req codes

/-- The methods, in the order in which their names are looked for. -/
def methods : List MethodCode := [.get, .put, .post]

/-- `s.substr(pos, count)` of a position in the text. -/
def substr (s : Text) (pos count : ℕ) : Text := (s.drop pos).take count

/-- `parse_request`: the result, and what becomes of `out`. -/
def parseRequest (req : Text) (out : Request) : Bool × Request :=
  match findMethod req methods with
  | none => (false, out)
  | some (code, offset) =>
    let out := { out with code := some code }
    if offset ≠ 0 then (false, out)
    else
      match find req [32] 0 with
      | none => (false, out)
      | some offset =>
        match find req [32] (offset + 1) with
        | none =>
          if code = .put ∨ code = .post then (false, out)
          else
            (true, { out with url := out.url ++ substr req (offset + 1) (req.length - offset) })
        | some last =>
          (true, { out with
            url := out.url ++ substr req (offset + 1) (last - offset)
            value := out.value ++ substr req (last + 1) (req.length - last) })

/-! ## The endpoint -/

/-- `ClientEndpoint::State` -/
inductive State where
  /-- `IDLE` -/
  | idle
  /-- `MAKE_REQUEST` -/
  | makeRequest
  /-- `SEND_REQUEST` -/
  | sendRequest
  /-- `RECEIVE_ANSWER` -/
  | receiveAnswer
  /-- `HANDLE_ANSWER` -/
  | handleAnswer
  /-- `ERROR` -/
  | error
  /-- `COMPLETE` -/
  | complete
deriving DecidableEq

/-- `ClientEndpoint`.  Its `m_ec` is never set. -/
structure ClientEndpoint where
  /-- `m_currentState` -/
  currentState : State
  /-- `m_nextState` -/
  nextState : State
  /-- `m_timeout` -/
  timeout : ℕ
  /-- `m_received` -/
  received : Bool
deriving DecidableEq

/-- The constructor. -/
def ClientEndpoint.new : ClientEndpoint := ⟨.idle, .idle, 10, false⟩

/-- `start` -/
def ClientEndpoint.start (ep : ClientEndpoint) : ClientEndpoint :=
  { ep with nextState := .makeRequest }

/-- The handler of a state. -/
def ClientEndpoint.handler (ep : ClientEndpoint) : State → ClientEndpoint
  | .idle => { ep with nextState := .idle, currentState := .idle }
  | .makeRequest => { ep with timeout := 10, nextState := .sendRequest }
  | .sendRequest => { ep with nextState := .receiveAnswer }
  | .receiveAnswer => { ep with nextState := .handleAnswer }
  | .handleAnswer => { ep with nextState := .complete }
  | .error => { ep with nextState := .idle }
  | .complete => { ep with nextState := .idle }

/-- `transaction_step` -/
def ClientEndpoint.transactionStep (ep : ClientEndpoint) : ClientEndpoint :=
  let ep := { ep with currentState := ep.nextState }
  ep.handler ep.currentState

/-! ## The client -/

/-- What `select` has found. -/
structure Ready where
  /-- Something comes from the server. -/
  socket : Bool
  /-- A line is there on the standard input, which may be at its end. -/
  stdin : Option (Option Text)

/-- The variables of `main`, and what has happened. -/
structure Client where
  /-- `client` -/
  endpoint : ClientEndpoint
  /-- `req` -/
  req : Request
  /-- `listenToStdin` -/
  listenToStdin : Bool
  /-- The states that were handled. -/
  handled : List State
  /-- The requests that were accepted. -/
  accepted : List Text

/-- The client in its interactive mode. -/
def Client.interactive : Client := ⟨.new, .start, true, [], []⟩

/-- The client that is given its first request as an argument, if it is one. -/
def Client.ofRequest (request : Text) : Option Client :=
  match parseRequest request .start with
  | (true, req) => some ⟨ClientEndpoint.new.start, req, false, [], [request]⟩
  | (false, _) => none

/-- The end of an iteration. -/
def Client.step (c : Client) : Client :=
  let endpoint := c.endpoint.transactionStep
  { c with
    endpoint := endpoint
    handled := c.handled ++ [endpoint.currentState]
    listenToStdin := c.listenToStdin ||
      endpoint.currentState == .complete || endpoint.currentState == .error }

/-- A line is read. -/
def Client.read (c : Client) (text : Text) : Client :=
  match parseRequest text c.req with
  | (false, req) => { c with req := req }
  | (true, req) =>
    Client.step { c with
      req := req
      listenToStdin := false
      endpoint := c.endpoint.start
      accepted := c.accepted ++ [text] }

/-- An iteration of the loop of `main`. -/
def Client.iteration (c : Client) (ready : Ready) : Client :=
  if ready.socket then Client.step { c with endpoint := { c.endpoint with received := true } }
  else
    match ready.stdin with
    | some (some text) => if c.listenToStdin then c.read text else c.step
    | _ => c.step

/-- The loop of `main`. -/
def Client.run (c : Client) (events : List Ready) : Client := events.foldl Client.iteration c

theorem run_append_singleton (c : Client) (events : List Ready) (ready : Ready) :
    c.run (events ++ [ready]) = (c.run events).iteration ready := by
  rw [Client.run, List.foldl_append]
  rfl

/-! ## Which lines are requests -/

/-- A line begins with the name of a method, and no name that is looked for before it is anywhere in
the line. -/
def BeginsWith (code : MethodCode) (req : Text) : Prop :=
  code.name <+: req ∧ ∀ code' ∈ methods.takeWhile (· ≠ code), ¬ code'.name <:+: req

theorem find_eq_none_iff (code : MethodCode) (req : Text) :
    find req code.name 0 = none ↔ ¬ code.name <:+: req := by
  rw [find_zero, Option.map_eq_none_iff]
  cases code <;> exact cut_eq_none_iff

theorem find_eq_zero_iff (code : MethodCode) (req : Text) :
    find req code.name 0 = some 0 ↔ code.name <+: req := by
  rw [find_zero, Option.map_eq_some_iff]
  constructor
  · rintro ⟨⟨a, b⟩, hcut, hlen⟩
    have ha : a = [] := List.length_eq_zero_iff.mp hlen
    rw [eq_of_cut hcut, ha]
    exact ⟨b, rfl⟩
  · intro hprefix
    cases req with
    | nil =>
      have hempty := List.prefix_nil.mp hprefix
      cases code <;> cases hempty
    | cons c req =>
      rw [cut, if_pos (List.isPrefixOf_iff_prefix.mpr hprefix)]
      exact ⟨_, rfl, rfl⟩

/-- The first name that is in a line is at its beginning. -/
theorem findMethod_eq_zero_iff (req : Text) (code : MethodCode) (codes : List MethodCode) :
    findMethod req codes = some (code, 0) ↔ code ∈ codes ∧ code.name <+: req ∧
      ∀ code' ∈ codes.takeWhile (· ≠ code), ¬ code'.name <:+: req := by
  induction codes with
  | nil => simp [findMethod]
  | cons c codes ih =>
    rw [findMethod]
    by_cases hc : c = code
    · subst hc
      have hzero := find_eq_zero_iff c req
      rw [List.takeWhile_cons_of_neg (by simp)]
      cases hfind : find req c.name 0 with
      | none =>
        have hnot := (find_eq_none_iff c req).mp hfind
        dsimp only
        rw [ih]
        exact ⟨fun h ↦ absurd h.2.1.isInfix hnot, fun h ↦ absurd h.2.1.isInfix hnot⟩
      | some offset =>
        rw [hfind] at hzero
        simpa using hzero
    · rw [List.takeWhile_cons_of_pos (by simpa using hc), List.forall_mem_cons, List.mem_cons,
        or_iff_right (Ne.symm hc), ← find_eq_none_iff]
      cases hfind : find req c.name 0 with
      | none => simpa using ih
      | some offset => simp [hc]

theorem findMethod_of_beginsWith {code : MethodCode} {req : Text} (h : BeginsWith code req) :
    findMethod req methods = some (code, 0) :=
  (findMethod_eq_zero_iff req code methods).mpr ⟨by cases code <;> decide, h⟩

theorem parseRequest_of_not_beginsWith {req : Text} (h : ∀ code, ¬ BeginsWith code req)
    (out : Request) : ∃ code, parseRequest req out = (false, { out with code := code }) := by
  rw [parseRequest]
  cases hmethod : findMethod req methods with
  | none => exact ⟨out.code, rfl⟩
  | some r =>
    obtain ⟨code, offset⟩ := r
    have hoffset : offset ≠ 0 := by
      rintro rfl
      exact h code ((findMethod_eq_zero_iff req code methods).mp hmethod).2
    dsimp only
    rw [if_pos hoffset]
    exact ⟨some code, rfl⟩

theorem parseRequest_of_notMem {req : Text} {code : MethodCode} (h : BeginsWith code req)
    (hspace : 32 ∉ req) (out : Request) :
    parseRequest req out = (false, { out with code := some code }) := by
  rw [parseRequest, findMethod_of_beginsWith h]
  dsimp only
  rw [if_neg (not_not.mpr rfl), find_zero, cut_of_notMem hspace]
  rfl

theorem parseRequest_append {code : MethodCode} {a b : Text} (h : BeginsWith code (a ++ 32 :: b))
    (ha : 32 ∉ a) (out : Request) :
    parseRequest (a ++ 32 :: b) out =
      match cut [32] b with
      | none =>
        if code = .put ∨ code = .post then (false, { out with code := some code })
        else (true, { out with code := some code, url := out.url ++ b })
      | some (u, v) =>
        (true, ⟨some code, out.url ++ (u ++ [32]), out.value ++ v⟩) := by
  have hreq : a ++ 32 :: b = (a ++ [32]) ++ b := by simp
  have hlen : (a ++ [32]).length = a.length + 1 := by simp
  have hdrop : (a ++ 32 :: b).drop (a.length + 1) = b := by
    rw [hreq]
    exact List.drop_left' hlen
  have hfind : find (a ++ 32 :: b) [32] (a.length + 1) =
      (cut [32] b).map fun r ↦ a.length + 1 + r.1.length := by
    rw [← hlen, hreq, find_eq_cut]
  rw [parseRequest, findMethod_of_beginsWith h]
  dsimp only
  rw [if_neg (not_not.mpr rfl), find_zero, cut_append ha]
  dsimp only [Option.map]
  rw [hfind]
  cases hcut : cut [32] b with
  | none =>
    dsimp only [Option.map]
    rw [substr, hdrop, List.take_of_length_le (by simp)]
  | some r =>
    obtain ⟨u, v⟩ := r
    have hb : b = (u ++ [32]) ++ v := by simpa using eq_of_cut hcut
    have hfront : (a ++ 32 :: b).drop (a.length + 1 + u.length + 1) = v := by
      have hlast : a.length + 1 + u.length + 1 = a.length + 1 + (u ++ [32]).length := by
        simp [Nat.add_assoc]
      rw [hlast, ← List.drop_drop, hdrop, hb]
      exact List.drop_left' rfl
    dsimp only [Option.map]
    rw [substr, hdrop, substr, hfront, List.take_of_length_le (l := v) (by simp [hb]; omega)]
    rw [show a.length + 1 + u.length - a.length = (u ++ [32]).length by simp; omega]
    nth_rewrite 1 [hb]
    rw [List.take_left]

/-- **Which lines are requests**, and what they add to a `Request`.  The space behind the URL is
part of the URL if a value follows. -/
theorem parseRequest_iff (req : Text) (out out' : Request) :
    parseRequest req out = (true, out') ↔
      ∃ code url value, out' = ⟨some code, out.url ++ url, out.value ++ value⟩ ∧
        BeginsWith code req ∧ ∃ a b, req = a ++ 32 :: b ∧ 32 ∉ a ∧
          ((code = .get ∧ 32 ∉ b ∧ url = b ∧ value = []) ∨
            ∃ u v, b = u ++ 32 :: v ∧ 32 ∉ u ∧ url = u ++ [32] ∧ value = v) := by
  constructor
  · intro h
    by_cases hbegin : ∃ code, BeginsWith code req
    · obtain ⟨code, hcode⟩ := hbegin
      by_cases hspace : 32 ∈ req
      · obtain ⟨a, b, rfl, ha⟩ := List.eq_append_cons_of_mem hspace
        rw [parseRequest_append hcode ha] at h
        cases hcut : cut [32] b with
        | none =>
          rw [hcut] at h
          dsimp only at h
          split_ifs at h with hvalue
          · cases h
          · cases h
            have hget : code = .get := by
              cases code
              · rfl
              · exact absurd (.inl rfl) hvalue
              · exact absurd (.inr rfl) hvalue
            exact ⟨code, b, [], by rw [List.append_nil], hcode, a, b, rfl, ha,
              .inl ⟨hget, cut_singleton_eq_none hcut, rfl, rfl⟩⟩
        | some r =>
          obtain ⟨u, v⟩ := r
          rw [hcut] at h
          cases h
          exact ⟨code, u ++ [32], v, rfl, hcode, a, b, rfl, ha,
            .inr ⟨u, v, eq_of_cut hcut, notMem_of_cut hcut, rfl, rfl⟩⟩
      · rw [parseRequest_of_notMem hcode hspace] at h
        cases h
    · obtain ⟨code', hrequest⟩ :=
        parseRequest_of_not_beginsWith (fun code hcode ↦ hbegin ⟨code, hcode⟩) out
      rw [hrequest] at h
      cases h
  · rintro ⟨code, url, value, rfl, hcode, a, b, rfl, ha, ⟨rfl, hb, rfl, rfl⟩ |
      ⟨u, v, rfl, hu, rfl, rfl⟩⟩
    · rw [parseRequest_append hcode ha, cut_of_notMem hb, List.append_nil]
      rfl
    · rw [parseRequest_append hcode ha, cut_append hu]

theorem parseRequest_eq_false {req : Text} {out out' : Request}
    (h : parseRequest req out = (false, out')) : ∃ code, out' = { out with code := code } := by
  by_cases hbegin : ∃ code, BeginsWith code req
  · obtain ⟨code, hcode⟩ := hbegin
    by_cases hspace : 32 ∈ req
    · obtain ⟨a, b, rfl, ha⟩ := List.eq_append_cons_of_mem hspace
      rw [parseRequest_append hcode ha] at h
      cases hcut : cut [32] b with
      | none =>
        rw [hcut] at h
        dsimp only at h
        split_ifs at h
        · exact ⟨some code, (Prod.mk.inj h).2.symm⟩
        · cases (Prod.mk.inj h).1
      | some r =>
        rw [hcut] at h
        cases (Prod.mk.inj h).1
    · rw [parseRequest_of_notMem hcode hspace] at h
      exact ⟨some code, (Prod.mk.inj h).2.symm⟩
  · obtain ⟨code, hrequest⟩ :=
      parseRequest_of_not_beginsWith (fun code hcode ↦ hbegin ⟨code, hcode⟩) out
    rw [hrequest] at h
    exact ⟨code, (Prod.mk.inj h).2.symm⟩

/-- What is in a `Request` before a line is read does not matter to it. -/
theorem parseRequest_eq (req : Text) (out : Request) :
    parseRequest req out = ((parseRequest req .start).1,
      ⟨(parseRequest req .start).2.code.or out.code, out.url ++ (parseRequest req .start).2.url,
        out.value ++ (parseRequest req .start).2.value⟩) := by
  rw [parseRequest, parseRequest]
  cases findMethod req methods with
  | none => simp [Request.start]
  | some r =>
    obtain ⟨code, offset⟩ := r
    dsimp only
    by_cases hoffset : offset = 0
    · rw [if_neg (not_not.mpr hoffset), if_neg (not_not.mpr hoffset)]
      cases find req [32] 0 with
      | none => simp [Request.start]
      | some offset =>
        dsimp only
        cases find req [32] (offset + 1) with
        | none =>
          dsimp only
          split_ifs <;> simp [Request.start]
        | some last => simp [Request.start]
    · rw [if_pos hoffset, if_pos hoffset]
      simp [Request.start]

/-! ## Sessions -/

/-- What the endpoint goes through for a request. -/
def transaction : List State :=
  [.makeRequest, .sendRequest, .receiveAnswer, .handleAnswer, .complete]

/-- What is true behind a session.  `n` requests are done, and `k` states of another one. -/
structure Session (c : Client) (n k : ℕ) : Prop where
  /-- Apart from pauses, the endpoint goes from one transaction to the next one. -/
  handled : c.handled.filter (· ≠ .idle) =
    (List.replicate n transaction).flatten ++ transaction.take k
  /-- The client listens between the transactions, and not within one. -/
  listens : if c.listenToStdin then k = 0 ∧ c.accepted.length = n ∧ c.endpoint.nextState = .idle
    else c.accepted.length = n + 1 ∧ transaction[k]? = some c.endpoint.nextState
  /-- The URLs of all the requests. -/
  url : c.req.url = c.accepted.flatMap fun text ↦ (parseRequest text .start).2.url
  /-- The values of all the requests. -/
  value : c.req.value = c.accepted.flatMap fun text ↦ (parseRequest text .start).2.value

/-- The state behind a state. -/
def State.following : State → State
  | .idle => .idle
  | .makeRequest => .sendRequest
  | .sendRequest => .receiveAnswer
  | .receiveAnswer => .handleAnswer
  | .handleAnswer => .complete
  | .error => .idle
  | .complete => .idle

theorem transactionStep_states (ep : ClientEndpoint) :
    ep.transactionStep.currentState = ep.nextState ∧
      ep.transactionStep.nextState = ep.nextState.following := by
  rw [ClientEndpoint.transactionStep]
  cases ep.nextState <;> exact ⟨rfl, rfl⟩

theorem following_of_getElem? {state : State} {k : ℕ} (hk : transaction[k]? = some state)
    (hlast : k ≠ 4) : (state == .complete || state == .error) = false ∧
      transaction[k + 1]? = some state.following := by
  rcases k with _ | _ | _ | _ | _ | k
  · cases hk
    decide
  · cases hk
    decide
  · cases hk
    decide
  · cases hk
    decide
  · exact absurd rfl hlast
  · exact absurd hk (by simp [transaction])

theorem session_step {c : Client} {n k : ℕ} (h : Session c n k) :
    ∃ n' k', Session c.step n' k' := by
  obtain ⟨hcurrent, hnext⟩ := transactionStep_states c.endpoint
  have hlistens := h.listens
  have hhandled : c.step.handled = c.handled ++ [c.endpoint.nextState] := by
    rw [← hcurrent]
    rfl
  have hlisten' : c.step.listenToStdin = (c.listenToStdin ||
      c.endpoint.nextState == .complete || c.endpoint.nextState == .error) := by
    rw [← hcurrent]
    rfl
  cases hlisten : c.listenToStdin with
  | true =>
    rw [hlisten, if_pos rfl] at hlistens
    obtain ⟨hk, hn, hidle⟩ := hlistens
    refine ⟨n, k, ?_, ?_, h.url, h.value⟩
    · rw [hhandled, List.filter_append, h.handled, hidle]
      exact List.append_nil _
    · rw [hlisten', hlisten, Bool.true_or, Bool.true_or, if_pos rfl]
      exact ⟨hk, hn, hnext.trans (by rw [hidle]; rfl)⟩
  | false =>
    rw [hlisten, if_neg Bool.false_ne_true] at hlistens
    obtain ⟨hn, hk⟩ := hlistens
    have hbusy : c.endpoint.nextState ≠ .idle := by
      intro hidle
      rw [hidle] at hk
      exact absurd (List.mem_of_getElem? hk) (by decide)
    have hfilter : c.step.handled.filter (· ≠ .idle) =
        (List.replicate n transaction).flatten ++ transaction.take (k + 1) := by
      rw [hhandled, List.filter_append, h.handled, List.take_add_one, hk, List.append_assoc]
      simp [hbusy]
    by_cases hlast : k = 4
    · subst hlast
      have hcomplete : c.endpoint.nextState = .complete := (Option.some.inj hk).symm
      refine ⟨n + 1, 0, ?_, ?_, h.url, h.value⟩
      · rw [hfilter, List.replicate_succ', List.flatten_append]
        simp [transaction]
      · rw [hlisten', hcomplete, if_pos (by simp)]
        exact ⟨rfl, hn, hnext.trans (by rw [hcomplete]; rfl)⟩
    · obtain ⟨hgoes, hfollows⟩ := following_of_getElem? hk hlast
      refine ⟨n, k + 1, hfilter, ?_, h.url, h.value⟩
      rw [hlisten', hlisten, Bool.false_or, hgoes, if_neg Bool.false_ne_true]
      exact ⟨hn, hfollows.trans (congrArg some hnext.symm)⟩

theorem session_read {c : Client} {n k : ℕ} (h : Session c n k) (hlisten : c.listenToStdin = true)
    (text : Text) : ∃ n' k', Session (c.read text) n' k' := by
  have hlistens := h.listens
  rw [hlisten, if_pos rfl] at hlistens
  obtain ⟨rfl, hn, -⟩ := hlistens
  rw [Client.read]
  rcases hparse : parseRequest text c.req with ⟨accepted, req⟩
  cases accepted with
  | false =>
    obtain ⟨code, rfl⟩ := parseRequest_eq_false hparse
    exact ⟨n, 0, h.handled, h.listens, h.url, h.value⟩
  | true =>
    have heq := (Prod.mk.inj ((parseRequest_eq text c.req).symm.trans hparse)).2
    refine session_step (n := n) (k := 0) ⟨h.handled, ?_, ?_, ?_⟩
    · rw [if_neg Bool.false_ne_true, List.length_append, hn]
      exact ⟨rfl, rfl⟩
    · rw [List.flatMap_append, ← h.url, ← heq, List.flatMap_singleton]
    · rw [List.flatMap_append, ← h.value, ← heq, List.flatMap_singleton]

theorem session_iteration {c : Client} {n k : ℕ} (h : Session c n k) (ready : Ready) :
    ∃ n' k', Session (c.iteration ready) n' k' := by
  rw [Client.iteration]
  split
  · exact session_step (n := n) (k := k) ⟨h.handled, h.listens, h.url, h.value⟩
  · split
    · split
      · next hlisten => exact session_read h hlisten _
      · exact session_step h
    · exact session_step h

/-- The client, as it is started. -/
def Started (c : Client) : Prop :=
  c = .interactive ∨ ∃ request, Client.ofRequest request = some c

theorem session_started {c : Client} (h : Started c) : Session c 0 0 := by
  rcases h with rfl | ⟨request, hrequest⟩
  · exact ⟨rfl, (if_pos rfl).mpr ⟨rfl, rfl, rfl⟩, rfl, rfl⟩
  · rw [Client.ofRequest] at hrequest
    rcases hparse : parseRequest request .start with ⟨accepted, req⟩
    rw [hparse] at hrequest
    cases accepted with
    | false => cases hrequest
    | true =>
      cases hrequest
      refine ⟨rfl, ?_, ?_, ?_⟩
      · rw [if_neg Bool.false_ne_true]
        exact ⟨rfl, rfl⟩
      · rw [List.flatMap_singleton, hparse]
      · rw [List.flatMap_singleton, hparse]

/-- **A session.**  Whatever happens: every request the client accepts is gone through in five
states, one after another and without an error, and no line is read in between.  All requests are
put into the same `Request`, so its URL and its value are those of all of them. -/
theorem session_run {c : Client} (hstart : Started c) (events : List Ready) :
    ∃ n k, Session (c.run events) n k := by
  induction events using List.reverseRecOn with
  | nil => exact ⟨0, 0, session_started hstart⟩
  | append_singleton events ready ih =>
    obtain ⟨n, k, hsession⟩ := ih
    rw [run_append_singleton]
    exact session_iteration hsession ready

/-- Two lines are read, and there is time for the first one to be done. -/
theorem session_two : ∃ n k, Session (Client.interactive.run
    ([⟨false, some (some [71, 69, 84, 32, 97])⟩] ++ List.replicate 4 ⟨false, none⟩ ++
      [⟨false, some (some [71, 69, 84, 32, 98])⟩])) n k :=
  session_run (.inl rfl) _

/-! ## The server -/

/-- The same without the server. -/
def Ready.quiet (ready : Ready) : Ready :=
  if ready.socket then ⟨false, none⟩ else ready

/-- The same, apart from `m_received`. -/
def Client.forget (c : Client) : Client :=
  { c with endpoint := { c.endpoint with received := false } }

theorem forget_step (c : Client) : c.step.forget = c.forget.step := by
  have hstep : ∀ ep : ClientEndpoint, { ep.transactionStep with received := false } =
      ({ ep with received := false } : ClientEndpoint).transactionStep := by
    intro ep
    rw [ClientEndpoint.transactionStep, ClientEndpoint.transactionStep]
    cases ep.nextState <;> rfl
  rw [Client.step, Client.forget, Client.step, Client.forget]
  dsimp only
  rw [← hstep]

theorem forget_read (c : Client) (text : Text) : (c.read text).forget = c.forget.read text := by
  rw [Client.read, Client.read]
  change _ = match parseRequest text c.req with
    | (false, req) => _
    | (true, req) => _
  rcases parseRequest text c.req with ⟨accepted, req⟩
  cases accepted with
  | false => rfl
  | true => exact forget_step _

theorem forget_iteration (c : Client) (ready : Ready) :
    (c.iteration ready).forget = c.forget.iteration ready.quiet := by
  rw [Client.iteration, Client.iteration, Ready.quiet]
  cases hsocket : ready.socket with
  | true => exact forget_step _
  | false =>
    rw [if_neg Bool.false_ne_true, if_neg Bool.false_ne_true, hsocket, if_neg Bool.false_ne_true]
    rcases ready.stdin with _ | _ | text
    · exact forget_step c
    · exact forget_step c
    · change (if c.listenToStdin then c.read text else c.step).forget =
        if c.listenToStdin then c.forget.read text else c.forget.step
      split
      · exact forget_read c text
      · exact forget_step c

/-- **The server makes no difference.**  A client that gets messages goes through the same states as
one that gets none, and has the same request in the end. -/
theorem ignores_server (c : Client) (events : List Ready) :
    (c.run events).forget = c.forget.run (events.map Ready.quiet) := by
  induction events generalizing c with
  | nil => rfl
  | cons ready events ih =>
    rw [Client.run, List.foldl_cons, List.map_cons, Client.run, List.foldl_cons, ← forget_iteration]
    exact ih _

end ClientSession
end Coap
