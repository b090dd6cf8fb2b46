import CoapCpp.RoundTrip

/-!
# Requests and answers

A client sends a request and a server answers it, again and again.  Each of them has one packet for
everything it sends and receives, as a `ClientEndpoint` has its `m_packet`: the client parses the
answer into the packet it has sent the request from, and the server prepares the answer in the
packet it has parsed the request into.  That is how the token gets into the answer, as
`prepare_answer` leaves token and options as they are.

`exchange_run` says what the two see of each other in a row of exchanges of any length.  Every
answer has the token of its request, and its options too.  But `parse` puts the payload of a message
behind the payload the packet has already, so that the client sees every answer behind its own
request, and the server sees every request behind its own last answer.
-/

set_option autoImplicit false

namespace Coap

open Memory

/-! ## The code -/

/-- Both passes of `serialize`; the second one gets a buffer of the size that the first one has
counted. -/
def Packet.send (p : Packet) : Except Fault (Option (List UInt8)) := do
  let counted ← p.serialize none 0 true
  if counted.ec.isSome then
    return none
  let written ← p.serialize (some (List.replicate counted.size none)) counted.size false
  if written.ec.isSome then
    return none
  return (written.buffer.getD []).mapM id

/-- What the two sides say in one exchange. -/
structure Turn where
  /-- The options of the request, as they are added and searched. -/
  calls : List (StdSort × OptionCall)
  /-- The values of `rand` for the token. -/
  rand : ℕ → ℕ
  /-- The length of the token. -/
  tokenLength : ℕ
  /-- The type of the request. -/
  requestType : MessageType
  /-- The code of the request. -/
  requestCode : UInt8
  /-- The message id of the request. -/
  requestId : UInt16
  /-- The payload of the request. -/
  request : List UInt8
  /-- The type of the answer. -/
  answerType : MessageType
  /-- The code of the answer. -/
  answerCode : UInt8
  /-- The message id of the answer. -/
  answerId : UInt16
  /-- The payload of the answer. -/
  answer : List UInt8

/-- The packets of one exchange. -/
structure View where
  /-- The request, as it was sent. -/
  sent : Packet
  /-- The request, as the server sees it. -/
  seen : Packet
  /-- The answer, as it was sent. -/
  answered : Packet
  /-- The answer, as the client sees it. -/
  got : Packet

namespace Turn

/-- The client clears its options, adds those of the request and calls `make_request`. -/
def ask (t : Turn) (client : Packet) : Except Fault (Packet × Option ErrorCode) := do
  let client ← runCalls { client with options := [] } t.calls
  client.makeRequest t.rand t.requestType t.requestCode t.requestId (some t.request)
    t.request.length t.tokenLength

/-- One exchange.  It ends early when something reports an error. -/
def run (t : Turn) (client server : Packet) : Except Fault (Option View) := do
  let (sent, ec) ← t.ask client
  if ec.isSome then
    return none
  let some bytes ← sent.send | return none
  let (seen, ec) ← server.parse (some bytes) bytes.length
  if ec.isSome then
    return none
  let (answered, ec) ← seen.prepareAnswer t.answerType t.answerCode t.answerId (some t.answer)
    t.answer.length
  if ec.isSome then
    return none
  let some bytes ← answered.send | return none
  let (got, ec) ← sent.parse (some bytes) bytes.length
  if ec.isSome then
    return none
  return some ⟨sent, seen, answered, got⟩

end Turn

/-- A row of exchanges. -/
def exchange : List Turn → Packet → Packet → Except Fault (Option (List View))
  | [], _, _ => return some []
  | t :: turns, client, server => do
    let some v ← t.run client server | return none
    let some vs ← exchange turns v.got v.answered | return none
    return some (v :: vs)

/-! ## Sending and receiving -/

theorem mapM_id_map_some {α : Type} (l : List α) : (l.map some).mapM id = some l := by
  induction l with
  | nil => rfl
  | cons a l ih => rw [List.map_cons, List.mapM_cons, ih]; rfl

/-- A packet that can be sent is sent as the bytes of its message. -/
theorem Packet.send_eq {p : Packet} (h : Sendable p) : p.send = .ok (some p.bytes) := by
  obtain ⟨hcount, hwrite⟩ := (reencodes_iff_bytes h.token_le h.payload_ne p.bytes).mpr rfl
  rw [Packet.send, hcount, ok_bind, if_neg (by simp), hwrite, ok_bind, if_neg (by simp),
    Option.getD_some, mapM_id_map_some]
  rfl

/-- **What is sent is received**, with its payload behind the one that is there already. -/
theorem parse_bytes_of {p q : Packet} (h : Sendable q) (hle : p.littleEndian = q.littleEndian) :
    ∃ p', p.parse (some q.bytes) q.bytes.length = .ok (p', none) ∧
      Received p' { q with payload := p.payload ++ q.payload } ∧
      p'.littleEndian = p.littleEndian := by
  obtain ⟨p₀, hparse, hreceived⟩ := parse_bytes h []
  obtain ⟨hhead, payload, hend, rfl⟩ := (Packet.fresh q.littleEndian).parse_eq_ok_none.mp hparse
  have hend' : (hostWalk p.littleEndian (Rfc7252.optionsOf q.bytes)).2 = .marker payload := by
    rw [hle]
    exact hend
  have hparse' : p.parse (some (q.bytes ++ [])) q.bytes.length =
      .ok ({ p.afterOptions q.bytes with
        payloadOffset := q.bytes.length - payload.length
        payload := p.payload ++ payload }, none) :=
    p.parse_eq_ok_none.mpr ⟨hhead, payload, hend', rfl⟩
  have htoken := (p.tokenBytes_afterOptions hhead).trans
    ((Packet.fresh q.littleEndian).tokenBytes_afterOptions hhead).symm
  have hpayload : payload = q.payload := hreceived.payload
  rw [List.append_nil] at hparse'
  refine ⟨_, hparse', ⟨hreceived.version, hreceived.type, hreceived.code, ?_,
    hreceived.tokenLength, htoken.trans hreceived.tokenBytes, ?_, ?_⟩, rfl⟩
  · refine Eq.trans ?_ hreceived.identity
    simp only [Packet.afterOptions, hle]
    rfl
  · refine Eq.trans ?_ hreceived.options
    simp only [Packet.afterOptions, hle]
    rfl
  · rw [hpayload]

/-! ## Preparing a packet -/

/-- `q` is `p`, prepared for sending, whatever its token is. -/
structure Prepared (type : MessageType) (code : UInt8) (id : UInt16) (payload : List UInt8)
    (p q : Packet) : Prop where
  version : q.version = 1
  type : q.type = type.value
  code : q.code = code
  identity : q.identity = id
  options : q.options = p.options
  payload : q.payload = payload
  littleEndian : q.littleEndian = p.littleEndian

theorem Packet.tokenLength_setType (p : Packet) (value : ℕ) :
    (p.setType value).tokenLength = p.tokenLength := by
  have := p.version_lt
  have := p.tokenLength_lt
  simp only [tokenLength, setType, UInt8.toNat_ofNat'] at *
  omega

theorem Packet.tokenLength_setVersion (p : Packet) (value : ℕ) :
    (p.setVersion value).tokenLength = p.tokenLength := by
  have := p.header.toNat_lt
  simp only [tokenLength, setVersion, UInt8.toNat_ofNat']
  omega

theorem value_mod_four (type : MessageType) : type.value % 4 = type.value := by
  cases type <;> rfl

theorem prepared_makeRequest (rand : ℕ → ℕ) (p : Packet) (type : MessageType) (code : UInt8)
    (id : UInt16) {payload : List UInt8} (hpayload : payload ≠ []) {tokenLength : ℕ}
    (htoken : tokenLength ≤ tokenMaxLength) :
    ∃ q, p.makeRequest rand type code id (some payload) payload.length tokenLength =
      .ok (q, none) ∧ Prepared type code id payload p q ∧ q.tokenLength = tokenLength := by
  refine ⟨{ (({ (p.setVersion coapVersion).setType type.value with
    identity := id
    code } : Packet).generateToken rand tokenLength).1 with payload }, ?_, ?_⟩
  · simp [Packet.makeRequest, hpayload, htoken, copyFrom_zero payload (Nat.le_refl _)]
  · rw [Packet.generateToken, if_neg (Nat.not_lt.mpr htoken)]
    refine ⟨⟨?_, ?_, rfl, rfl, rfl, rfl, rfl⟩, ?_⟩
    · show Packet.version (Packet.setTokenLength _ tokenLength) = 1
      rw [Packet.version_setTokenLength]
      exact (Packet.version_setType _ _).trans (Packet.version_setVersion _ _)
    · show Packet.type (Packet.setTokenLength _ tokenLength) = type.value
      rw [Packet.type_setTokenLength]
      exact (Packet.type_setType _ _).trans (value_mod_four type)
    · show Packet.tokenLength (Packet.setTokenLength _ tokenLength) = tokenLength
      rw [Packet.tokenLength_setTokenLength]
      exact Nat.mod_eq_of_lt (htoken.trans_lt (by decide))

theorem prepared_prepareAnswer (p : Packet) (type : MessageType) (code : UInt8) (id : UInt16)
    {payload : List UInt8} (hpayload : payload ≠ []) :
    ∃ q, p.prepareAnswer type code id (some payload) payload.length = .ok (q, none) ∧
      Prepared type code id payload p q ∧ q.tokenLength = p.tokenLength ∧
      q.tokenBytes = p.tokenBytes := by
  have htokenLength : ((p.setVersion coapVersion).setType type.value).tokenLength =
      p.tokenLength := by
    rw [Packet.tokenLength_setType, Packet.tokenLength_setVersion]
  refine ⟨{ (p.setVersion coapVersion).setType type.value with identity := id, code, payload },
    ?_, ⟨?_, ?_, rfl, rfl, rfl, rfl, rfl⟩, htokenLength, ?_⟩
  · simp [Packet.prepareAnswer, hpayload, copyFrom_zero payload (Nat.le_refl _)]
  · exact (Packet.version_setType _ _).trans (Packet.version_setVersion _ _)
  · exact (Packet.type_setType _ _).trans (value_mod_four type)
  · exact congrArg (List.take · p.token.bytes) htokenLength

/-! ## One exchange -/

/-- What a caller may pass: options within their bounds, a token that fits, and payloads. -/
structure Turn.Valid (t : Turn) : Prop where
  /-- The options are within their bounds. -/
  calls : ∀ c ∈ t.calls, c.2.Valid
  /-- The token fits. -/
  token_le : t.tokenLength ≤ tokenMaxLength
  /-- The request has a payload. -/
  request_ne : t.request ≠ []
  /-- The answer has a payload. -/
  answer_ne : t.answer ≠ []

/-- What is seen of one exchange, by a server that holds the payload `before`. -/
structure Turn.Exchanged (t : Turn) (before : List UInt8) (v : View) : Prop where
  /-- The request is the one that the client has asked for. -/
  asked : v.sent.type = t.requestType.value ∧ v.sent.code = t.requestCode ∧
    v.sent.identity = t.requestId ∧ v.sent.tokenLength = t.tokenLength ∧
    v.sent.options.Perm (addedOptions (t.calls.map Prod.snd))
  /-- The server sees the request, behind what it holds. -/
  seen : Received v.seen { v.sent with payload := before ++ t.request }
  /-- The client sees the answer of the server. -/
  got : v.got.type = t.answerType.value ∧ v.got.code = t.answerCode ∧
    v.got.identity = t.answerId
  /-- The answer has the token of the request. -/
  token : v.got.tokenBytes = v.sent.tokenBytes
  /-- The answer has the options of the request. -/
  options : v.got.options.map CoapOption.pair = v.sent.options.map CoapOption.pair
  /-- The client sees the answer behind its request. -/
  payload : v.got.payload = t.request ++ t.answer

theorem ask_eq {t : Turn} (ht : t.Valid) (client : Packet) :
    ∃ sent, t.ask client = .ok (sent, none) ∧ Sendable sent ∧
      sent.littleEndian = client.littleEndian ∧ sent.payload = t.request ∧
      sent.type = t.requestType.value ∧ sent.code = t.requestCode ∧
      sent.identity = t.requestId ∧ sent.tokenLength = t.tokenLength ∧
      sent.options.Perm (addedOptions (t.calls.map Prod.snd)) := by
  obtain ⟨p₀, hrun, hholds⟩ :=
    runCalls_spec (holds_self (q := { client with options := [] }) rfl) ht.calls
  rw [List.nil_append] at hholds
  obtain ⟨sent, hask, hsent, htoken⟩ := prepared_makeRequest t.rand p₀ t.requestType t.requestCode
    t.requestId ht.request_ne ht.token_le
  have hsmall : ∀ o ∈ sent.options, o.number.toNat < 269 ∧ o.value.length < 269 := by
    intro o ho
    rw [hsent.options, hholds.perm.mem_iff] at ho
    refine lt_of_mem_addedOptions (fun c hc ↦ ?_) ho
    obtain ⟨call, hcall, rfl⟩ := List.mem_map.mp hc
    exact ht.calls call hcall
  refine ⟨sent, ?_, ⟨hsent.version, ?_, ?_, fun o ho ↦ (hsmall o ho).1, fun o ho ↦ (hsmall o ho).2,
    ?_⟩, ?_, hsent.payload, hsent.type, hsent.code, hsent.identity, htoken, ?_⟩
  · rw [Turn.ask, hrun, ok_bind, hask]
  · rw [htoken]
    exact ht.token_le
  · rw [hsent.options]
    exact ascending_of_keysAscend hholds.ascend
  · rw [hsent.payload]
    exact ht.request_ne
  · rw [hsent.littleEndian, hholds.frame]
  · rw [hsent.options]
    exact hholds.perm

theorem sendable_of_received {type : MessageType} {code : UInt8} {id : UInt16}
    {payload : List UInt8} {sent seen answered : Packet} (hsent : Sendable sent)
    (hoptions : seen.options.map CoapOption.pair = sent.options.map CoapOption.pair)
    (htoken : answered.tokenLength = sent.tokenLength)
    (hanswer : Prepared type code id payload seen answered) (hpayload : payload ≠ []) :
    Sendable answered := by
  have hmem : ∀ o ∈ answered.options, ∃ o' ∈ sent.options, o'.pair = o.pair := by
    intro o ho
    rw [hanswer.options] at ho
    have hpair := List.mem_map_of_mem (f := CoapOption.pair) ho
    rw [hoptions] at hpair
    exact List.mem_map.mp hpair
  refine ⟨hanswer.version, ?_, ?_, fun o ho ↦ ?_, fun o ho ↦ ?_, ?_⟩
  · rw [htoken]
    exact hsent.token_le
  · rw [hanswer.options, hoptions]
    exact hsent.ascending
  · obtain ⟨o', ho', hpair⟩ := hmem o ho
    have hnumber : o'.number.toNat = o.number.toNat := congrArg Prod.fst hpair
    exact hnumber ▸ hsent.number_lt o' ho'
  · obtain ⟨o', ho', hpair⟩ := hmem o ho
    have hvalue : o'.value = o.value := congrArg Prod.snd hpair
    exact hvalue ▸ hsent.value_lt o' ho'
  · rw [hanswer.payload]
    exact hpayload

/-- **One exchange**, between packets in any state. -/
theorem exchanged_run {t : Turn} (ht : t.Valid) {client server : Packet}
    (hle : server.littleEndian = client.littleEndian) :
    ∃ v, t.run client server = .ok (some v) ∧ t.Exchanged server.payload v ∧
      v.answered.payload = t.answer ∧ v.answered.littleEndian = v.got.littleEndian := by
  obtain ⟨sent, hask, hsent, hle₁, hpayload, hasked⟩ := ask_eq ht client
  obtain ⟨seen, hparse, hseen, hle₂⟩ := parse_bytes_of hsent (hle.trans hle₁.symm)
  obtain ⟨answered, hprepare, hanswer, htokenLength, htoken⟩ := prepared_prepareAnswer seen
    t.answerType t.answerCode t.answerId ht.answer_ne
  have hanswered : Sendable answered := sendable_of_received hsent hseen.options
    (htokenLength.trans hseen.tokenLength) hanswer ht.answer_ne
  have hle₃ : sent.littleEndian = answered.littleEndian := by
    rw [hanswer.littleEndian, hle₂, hle, hle₁]
  obtain ⟨got, hparse', hgot, hle₄⟩ := parse_bytes_of hanswered hle₃
  rw [hpayload] at hseen
  refine ⟨⟨sent, seen, answered, got⟩, ?_, ⟨hasked, hseen, ?_, ?_, ?_, ?_⟩, hanswer.payload, ?_⟩
  · simp [Turn.run, hask, Packet.send_eq hsent, hparse, hprepare, Packet.send_eq hanswered,
      hparse']
  · exact ⟨hgot.type.trans hanswer.type, hgot.code.trans hanswer.code,
      hgot.identity.trans hanswer.identity⟩
  · exact hgot.tokenBytes.trans (htoken.trans hseen.tokenBytes)
  · refine hgot.options.trans ?_
    show answered.options.map CoapOption.pair = _
    rw [hanswer.options]
    exact hseen.options
  · refine hgot.payload.trans ?_
    show sent.payload ++ answered.payload = _
    rw [hpayload, hanswer.payload]
  · rw [hle₄, hle₃]

/-! ## A row of exchanges -/

/-- What is seen of a row of exchanges: what the server holds before a request is its own answer to
the one before. -/
def Exchanges : List UInt8 → List Turn → List View → Prop
  | _, [], [] => True
  | before, t :: turns, v :: views => t.Exchanged before v ∧ Exchanges t.answer turns views
  | _, _, _ => False

/-- **Requests and answers**, between hosts of the same byte order.  The client clears its options
in front of every request.  Whatever else the packets of the two held before: every request is
received, and is answered with its own token and its own options; the server sees each request
behind its own last answer, and the client sees each answer behind its own request. -/
theorem exchange_run (turns : List Turn) (hturns : ∀ t ∈ turns, t.Valid) (client server : Packet)
    (hle : server.littleEndian = client.littleEndian) :
    ∃ views, exchange turns client server = .ok (some views) ∧
      Exchanges server.payload turns views := by
  induction turns generalizing client server with
  | nil => exact ⟨[], rfl, trivial⟩
  | cons t turns ih =>
    obtain ⟨v, hrun, hv, hpayload, hle'⟩ := exchanged_run (hturns t List.mem_cons_self) hle
    obtain ⟨views, hrest, hviews⟩ := ih (fun t ht ↦ hturns t (List.mem_cons_of_mem _ ht)) v.got
      v.answered hle'
    rw [hpayload] at hviews
    exact ⟨v :: views, by simp [exchange, hrun, hrest], hv, hviews⟩

/-- The same request is sent three times. -/
theorem exchange_thrice : ∃ views,
    exchange (List.replicate 3 ⟨[(.stable _, .add 11 [97] 1)], id, 2, .confirmable, 1, 258, [7],
      .acknowledgement, 69, 258, [8]⟩) (Packet.fresh true) (Packet.fresh true) =
        .ok (some views) ∧
      Exchanges [] (List.replicate 3 ⟨[(.stable _, .add 11 [97] 1)], id, 2, .confirmable, 1, 258,
        [7], .acknowledgement, 69, 258, [8]⟩) views := by
  refine exchange_run _ (fun t ht ↦ ?_) (Packet.fresh true) (Packet.fresh true) rfl
  rw [(List.mem_replicate.mp ht).2]
  constructor <;> simp [OptionCall.Valid]

end Coap
