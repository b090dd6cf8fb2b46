import CoapCpp.PicoProtocol

/-!
# A server and its sensor board

The two ends of the protocol are connected, and a server is put in front of them: the UDP server of
`examples/RASPBERRY-PI/udp-server`, which hands every datagram to `Pico::transfer` and sends back
what it gets.

The wire is not part of the sources.  What comes in at one end of what the other one has sent is a
hypothesis: `Delivers`, if nothing goes wrong, and `Hears`, if data is damaged or comes too late.

* `transfer_delivered`: the answer to a request, if nothing goes wrong.
* `never_wrong`: damage that a checksum notices does not lead to a wrong answer.
* `echoes_first`: the server answers every datagram with what it has answered to the first one.
-/

set_option autoImplicit false

namespace Coap

open CString Memory

namespace Pico

/-! ## What comes in -/

/-- The header of a package. -/
def header (data : List UInt8) : List UInt8 :=
  signature ++ [UInt8.ofNat data.length, calculateCrc data]

theorem take_header (data : List UInt8) : (header data).take 2 = signature := rfl

theorem toNat_length {data : List UInt8} (hlen : data.length ≤ dataMaxLength) :
    (UInt8.ofNat data.length).toNat = data.length := by
  rw [UInt8.toNat_ofNat']
  exact Nat.mod_eq_of_lt (Nat.lt_of_le_of_lt hlen (by decide))

/-- Data comes in as it was sent, or damaged in a way that a checksum cannot miss. -/
def Harmless (sent received : List UInt8) : Prop := received = sent ∨ Noticed sent received

section

variable {τ : Type} (read : τ → ℕ → Option (List UInt8 × τ))

/-- The package that was sent comes in, in time and as it is.  If there is none, then no signature
comes in. -/
def Delivers (t : τ) : Option (List UInt8) → Prop
  | none => ∃ h t', read t headerLength = some (h, t') ∧ h.take 2 ≠ signature
  | some data => ∃ t' t'', read t headerLength = some (header data, t') ∧
      read t' data.length = some (data, t'')

/-- A signature that comes in belongs to the package that was sent, whose header is as it was and
whose data may be damaged. -/
def Hears (t : τ) (sent : Option (List UInt8)) : Prop :=
  ∀ h t', read t headerLength = some (h, t') → h.take 2 = signature →
    ∃ data ∈ sent, h = header data ∧
      ∀ received t'', read t' data.length = some (received, t'') → Harmless data received

end

section

variable {ω : Type} {S : SpiInst ω}

/-- The answer that the Raspberry Pi Pico is going to send, if there is one. -/
def said (S : SpiInst ω) (callback : Option Callback) (w : ω) : Option Text :=
  match heard S callback w with
  | some (.ok answer, _) => some answer
  | _ => none

theorem said_of_heard {callback : Option Callback} {w w' : ω} {r : Except PicoError Text}
    (h : heard S callback w = some (r, w')) : said S callback w = r.toOption := by
  rw [said, h]
  cases r <;> rfl

theorem mem_said {callback : Option Callback} {w : ω} {answer : Text} :
    answer ∈ said S callback w ↔ ∃ w', heard S callback w = some (.ok answer, w') := by
  rw [said]
  rcases heard S callback w with _ | ⟨e | answer', w'⟩ <;> simp

/-- The request is answered if it is delivered. -/
theorem heard_of_delivers (callback : Option Callback) {w : ω} {request : Text}
    (hlen : request.length ≤ dataMaxLength) (h : Delivers S.read w (some request)) :
    ∃ w', heard S callback w = some (answerTo callback request, w') := by
  obtain ⟨w', w'', hheader, hdata⟩ := h
  refine ⟨w'', ?_⟩
  rw [heard, hheader]
  dsimp only
  rw [if_neg (not_not.mpr (take_header request))]
  change heardData S callback (UInt8.ofNat request.length) (calculateCrc request) w' = _
  rw [heardData, toNat_length hlen, if_neg (Nat.not_lt_of_le hlen), hdata]
  exact if_neg (not_not.mpr rfl)

/-- What is answered is the request, whatever may happen to it on the way. -/
theorem answerTo_of_hears {callback : Option Callback} {w : ω} {request answer : Text}
    (hlen : request.length ≤ dataMaxLength) (h : Hears S.read w (some request))
    (hsaid : answer ∈ said S callback w) : answerTo callback request = .ok answer := by
  obtain ⟨w', hheard⟩ := mem_said.mp hsaid
  rw [heard] at hheard
  rcases hread : S.read w headerLength with _ | ⟨hd, w₁⟩
  · rw [hread] at hheard
    cases hheard
  rw [hread] at hheard
  dsimp only at hheard
  by_cases hsignature : hd.take 2 ≠ signature
  · rw [if_pos hsignature] at hheard
    cases hheard
  obtain ⟨data, hsent, rfl, hdata⟩ := h hd w₁ hread (not_not.mp hsignature)
  cases hsent
  rw [if_neg hsignature] at hheard
  change heardData S callback (UInt8.ofNat request.length) (calculateCrc request) w₁ = _ at hheard
  rw [heardData, toNat_length hlen, if_neg (Nat.not_lt_of_le hlen)] at hheard
  rcases hread' : S.read w₁ request.length with _ | ⟨received, w₂⟩
  · rw [hread'] at hheard
    cases hheard
  rw [hread'] at hheard
  dsimp only at hheard
  rcases hdata received w₂ hread' with rfl | hnoticed
  · rw [if_neg (not_not.mpr rfl)] at hheard
    exact congrArg Prod.fst (Option.some.inj hheard)
  · rw [if_pos (calculateCrc_ne hnoticed).symm] at hheard
    cases hheard

end

section

variable {σ : Type} {D : Driver σ}

/-- The bytes that come in while zeros go out. -/
def Driver.read (D : Driver σ) (s : σ) (length : ℕ) : Option (List UInt8 × σ) :=
  match D.message s (List.replicate length 0) with
  | (.error _, _) => none
  | (.ok bytes, s) => some (bytes, s)

theorem message_of_read {s s' : σ} {length : ℕ} {bytes : List UInt8}
    (h : D.read s length = some (bytes, s')) :
    D.message s (List.replicate length 0) = (.ok bytes, s') := by
  rw [Driver.read] at h
  rcases hmessage : D.message s (List.replicate length 0) with ⟨e | bytes', s''⟩
  · rw [hmessage] at h
    cases h
  · rw [hmessage] at h
    cases h
    rfl

theorem receivedAnswer_of_silence {s : σ} (h : Delivers D.read s none) (room : ℕ) :
    (receivedAnswer D s room).1 = .error .eproto := by
  obtain ⟨hd, s', hread, hsignature⟩ := h
  rw [receivedAnswer, message_of_read hread]
  dsimp only
  rw [if_pos hsignature]

/-- An answer that is delivered is used up to its first NUL, if there is room for it. -/
theorem receivedAnswer_of_delivers {s : σ} {answer : Text} (hlen : answer.length ≤ dataMaxLength)
    (h : Delivers D.read s (some answer)) (room : ℕ) :
    (receivedAnswer D s room).1 =
      if answer = [] ∨ room < answer.length then .error .einval else .ok (cstr answer) := by
  obtain ⟨s', s'', hheader, hdata⟩ := h
  have hempty : answer.length = 0 ↔ answer = [] := List.length_eq_zero_iff
  rw [receivedAnswer, message_of_read hheader]
  dsimp only
  rw [if_neg (not_not.mpr (take_header answer))]
  change (receivedData D s' (UInt8.ofNat answer.length) (calculateCrc answer) room).1 = _
  rw [receivedData, toNat_length hlen, if_neg (Nat.not_lt_of_le hlen), message_of_read hdata]
  dsimp only
  rw [if_neg (not_not.mpr rfl)]
  simp only [hempty]
  split_ifs <;> rfl

/-- What is taken for an answer is one. -/
theorem cstr_of_hears {s : σ} {sent : Option (List UInt8)} {room : ℕ} {text : Text}
    (hlen : ∀ data ∈ sent, data.length ≤ dataMaxLength) (h : Hears D.read s sent)
    (hanswer : (receivedAnswer D s room).1 = .ok text) : ∃ data ∈ sent, text = cstr data := by
  rw [receivedAnswer] at hanswer
  rcases hmessage : D.message s (List.replicate headerLength 0) with ⟨e | hd, s₁⟩
  · rw [hmessage] at hanswer
    cases hanswer
  have hread : D.read s headerLength = some (hd, s₁) := by
    rw [Driver.read, hmessage]
  rw [hmessage] at hanswer
  dsimp only at hanswer
  by_cases hsignature : hd.take 2 ≠ signature
  · rw [if_pos hsignature] at hanswer
    cases hanswer
  obtain ⟨data, hsent, rfl, hdata⟩ := h hd s₁ hread (not_not.mp hsignature)
  refine ⟨data, hsent, ?_⟩
  rw [if_neg hsignature] at hanswer
  change (receivedData D s₁ (UInt8.ofNat data.length) (calculateCrc data) room).1 = _ at hanswer
  rw [receivedData, toNat_length (hlen data hsent), if_neg (Nat.not_lt_of_le (hlen data hsent))]
    at hanswer
  by_cases hroom : data.length = 0 ∨ room < data.length
  · rw [if_pos hroom] at hanswer
    cases hanswer
  rw [if_neg hroom] at hanswer
  rcases hmessage' : D.message s₁ (List.replicate data.length 0) with ⟨e | received, s₂⟩
  · rw [hmessage'] at hanswer
    cases hanswer
  have hread' : D.read s₁ data.length = some (received, s₂) := by
    rw [Driver.read, hmessage']
  rw [hmessage'] at hanswer
  dsimp only at hanswer
  rcases hdata received s₂ hread' with rfl | hnoticed
  · rw [if_neg (not_not.mpr rfl)] at hanswer
    cases hanswer
    rfl
  · rw [if_pos (calculateCrc_ne hnoticed).symm] at hanswer
    cases hanswer

end

/-! ## One exchange -/

/-- The answer to a request, if nothing goes wrong. -/
def answered (callback : Option Callback) (request : Text) : Except PicoError Text :=
  if dataMaxLength < request.length then .error .emsgsize
  else
    match answerOf callback (cstr request) with
    | (_, some _) => .error .eproto
    | (answer, none) =>
      if dataMaxLength < answer.length then .error .eproto
      else if answer = [] ∨ headerLength + request.length < answer.length then .error .einval
      else .ok (cstr answer)

section

variable {σ ω : Type}

/-- Nothing goes wrong between the two ends: what one of them reads is what the other one has sent.
The Raspberry Pi 400 reads right behind its own package, so the answer has to be there by then. -/
structure Undamaged (D : Driver σ) (S : SpiInst ω) (callback : Option Callback) (s : σ) (w : ω)
    (request : Text) : Prop where
  /-- The package of the request goes out, and what comes in behind it is the answer. -/
  down : ∃ s₁ s₂ received, D.init s = (none, s₁) ∧
    D.message s₁ (package request) = (.ok received, s₂) ∧ Delivers D.read s₂ (said S callback w)
  /-- The request comes in. -/
  up : Delivers S.read w (some request)
  /-- The answer can be printed. -/
  prints : ∀ answer ∈ said S callback w, ¬ Overprinted answer

/-- If nothing goes wrong, the exchange ends with the answer to the request. -/
theorem exchange_of_undamaged {D : Driver σ} {S : SpiInst ω} {callback : Option Callback} {s : σ}
    {w : ω} {request : Text} (hlen : request.length ≤ dataMaxLength)
    (h : Undamaged D S callback s w request) :
    (exchange D s request).1 = answered callback request := by
  obtain ⟨s₁, s₂, received, hinit, hsent, hdown⟩ := h.down
  obtain ⟨w', hheard⟩ := heard_of_delivers callback hlen h.up
  rw [exchange, answered, if_neg (Nat.not_lt_of_le hlen), if_neg (Nat.not_lt_of_le hlen), hinit]
  dsimp only
  rw [hsent]
  change (receivedAnswer D s₂ (headerLength + request.length)).1 = _
  rw [said_of_heard hheard, answerTo] at hdown
  rcases hanswer : answerOf callback (cstr request) with ⟨answer, e⟩
  rw [hanswer] at hdown
  cases e with
  | some e => exact receivedAnswer_of_silence hdown _
  | none =>
    dsimp only at hdown ⊢
    by_cases hlong : dataMaxLength < answer.length
    · rw [if_pos hlong] at hdown ⊢
      exact receivedAnswer_of_silence hdown _
    · rw [if_neg hlong] at hdown ⊢
      exact receivedAnswer_of_delivers (Nat.le_of_not_lt hlong) hdown _

/-- **The answer to the first request**, if nothing goes wrong on the way.  The callback gets the
request up to its first NUL.  Its answer is cut in the same way, and it is lost if it is empty or
more than four bytes longer than the request. -/
theorem transfer_delivered (D : Driver σ) (S : SpiInst ω) (callback : Option Callback) (s : σ)
    (w : ω) (request : Text)
    (h : request.length ≤ dataMaxLength → Undamaged D S callback s w request) :
    (∃ m s', (Master.start none).transfer D s request = .ok (m, s') ∧
      m.Outcome [] (answered callback request)) ∧
    (request.length ≤ dataMaxLength →
      (Slave.start callback).process S w = .error .waits ∨
        ∃ p w', (Slave.start callback).process S w = .ok (p, w') ∧
          p.Outcome (answerTo callback request)) := by
  constructor
  · obtain ⟨m, htransfer, houtcome⟩ := transfer_idle (D := D) s request
    refine ⟨m, _, htransfer, ?_⟩
    by_cases hlong : dataMaxLength < request.length
    · rw [answered, if_pos hlong]
      rwa [exchange, if_pos hlong] at houtcome
    · have hlen := Nat.le_of_not_lt hlong
      rwa [exchange_of_undamaged hlen (h hlen)] at houtcome
  · intro hlen
    obtain ⟨w', hheard⟩ := heard_of_delivers callback hlen (h hlen).up
    have hends := Slave.process_idle (S := S) callback w
    rw [serve, hheard] at hends
    cases hanswer : answerTo callback request with
    | error e =>
      rw [hanswer] at hends
      obtain ⟨p, hp, houtcome⟩ := hends
      exact .inr ⟨p, w', hp, houtcome⟩
    | ok answer =>
      rw [hanswer] at hheard hends
      have hprint := (h hlen).prints answer (mem_said.mpr ⟨w', hheard⟩)
      rw [reply, say, if_neg hprint] at hends
      cases hwrite : S.writeBlocking w' (package answer) with
      | none =>
        rw [hwrite] at hends
        exact .inl hends
      | some r =>
        rw [hwrite] at hends
        obtain ⟨p, hp, houtcome⟩ := hends
        exact .inr ⟨p, r.2, hp, houtcome⟩

/-- **Damage does not lead to a wrong answer.**  Whenever the two ends read: if a signature that
comes in is that of a package that was sent, whose header gets through and whose data gets through
or is damaged in bits that are close together or whose number is odd, then the first request is
answered with what the callback gives for it, or there is an error. -/
theorem never_wrong (D : Driver σ) (S : SpiInst ω) (callback : Option Callback) (s : σ) (w : ω)
    {request : Text} (hlen : request.length ≤ dataMaxLength) (hup : Hears S.read w (some request))
    (hdown : ∀ s₁ s₂ received, D.init s = (none, s₁) →
      D.message s₁ (package request) = (.ok received, s₂) →
      Hears D.read s₂ (said S callback w)) :
    ∃ m s', (Master.start none).transfer D s request = .ok (m, s') ∧
      ((∃ answer, answerOf callback (cstr request) = (answer, none) ∧
        m.Outcome [] (.ok (cstr answer))) ∨ ∃ e, m.Outcome [] (.error e)) := by
  obtain ⟨m, htransfer, houtcome⟩ := transfer_idle (D := D) s request
  refine ⟨m, _, htransfer, ?_⟩
  cases hresult : (exchange D s request).1 with
  | error e =>
    rw [hresult] at houtcome
    exact .inr ⟨e, houtcome⟩
  | ok text =>
    rw [hresult] at houtcome
    rw [exchange, if_neg (Nat.not_lt_of_le hlen)] at hresult
    rcases hinit : D.init s with ⟨_ | e, s₁⟩
    · rw [hinit] at hresult
      dsimp only at hresult
      rcases hsent : D.message s₁ (package request) with ⟨e | received, s₂⟩
      · rw [hsent] at hresult
        cases hresult
      · rw [hsent] at hresult
        -- both ends have taken what they read for the package that was sent
        have hsaid : ∀ data ∈ said S callback w, answerTo callback request = .ok data :=
          fun data hdata ↦ answerTo_of_hears hlen hup hdata
        obtain ⟨answer, hanswer, rfl⟩ := cstr_of_hears
          (fun data hdata ↦ (answerOf_of_answerTo (hsaid data hdata)).2)
          (hdown s₁ s₂ received hinit hsent) hresult
        exact .inl ⟨answer, (answerOf_of_answerTo (hsaid answer hanswer)).1, houtcome⟩
    · rw [hinit] at hresult
      cases hresult

end

/-! ## Scripts -/

/-- A driver to which it was said what comes in. -/
def Driver.script : Driver (List (List UInt8)) where
  init s := (none, s)
  message s sent := (.ok ((s.headD [] ++ List.replicate sent.length 0).take sent.length), s.tail)
  length_message s sent received s' h := by
    cases h
    rw [List.length_take, List.length_append, List.length_replicate]
    exact Nat.min_eq_left (Nat.le_add_left _ _)

/-- An SPI to which it was said what comes in. -/
def SpiInst.script : SpiInst (List UInt8) where
  readBlocking w length :=
    if w.length < length then none else some ((length, w.take length), w.drop length)
  writeBlocking w src := some (src.length, w)
  readBlocking_length w length received data w' h := by
    by_cases hshort : w.length < length
    · rw [if_pos hshort] at h
      cases h
    · rw [if_neg hshort] at h
      cases h
      exact ⟨rfl, List.length_take_of_le (Nat.le_of_not_lt hshort)⟩
  writeBlocking_length w src transmitted w' h := by
    cases h
    rfl

/-- A request with a NUL for a board that gives back what it gets. -/
theorem transfer_delivered_nul :
    (∃ m s', (Master.start none).transfer .script [[], header [104], [104]] [104, 0, 105] =
        .ok (m, s') ∧ m.Outcome [] (answered none [104, 0, 105])) ∧
    ([104, 0, 105].length ≤ dataMaxLength →
      (Slave.start none).process .script (package [104, 0, 105]) = .error .waits ∨
        ∃ p w', (Slave.start none).process .script (package [104, 0, 105]) = .ok (p, w') ∧
          p.Outcome (answerTo none [104, 0, 105])) := by
  refine transfer_delivered .script .script none _ _ _ fun _ ↦ ?_
  have hsaid : said .script none (package [104, 0, 105]) = some [104] := by decide +kernel
  refine ⟨⟨_, _, _, rfl, rfl, ?_⟩, ⟨_, _, rfl, rfl⟩, ?_⟩
  · rw [hsaid]
    exact ⟨_, _, rfl, rfl⟩
  · rw [hsaid]
    rintro answer ⟨⟩ hprint
    exact absurd hprint.1 (by decide)

/-- A bit of the answer is damaged on the way. -/
theorem never_wrong_bit :
    ∃ m s', (Master.start none).transfer .script [[], header [104], [105]] [104] = .ok (m, s') ∧
      ((∃ answer, answerOf none (cstr [104]) = (answer, none) ∧ m.Outcome [] (.ok (cstr answer))) ∨
        ∃ e, m.Outcome [] (.error e)) := by
  refine never_wrong .script .script none _ (package [104]) (by decide) ?_ ?_
  · intro h w' hread hsignature
    cases hread
    refine ⟨_, rfl, rfl, fun received w'' hread ↦ ?_⟩
    cases hread
    exact .inl rfl
  · intro s₁ s₂ received hinit hsent h s' hread hsignature
    cases hinit
    cases hsent
    cases hread
    refine ⟨[104], rfl, rfl, fun received s'' hread ↦ ?_⟩
    cases hread
    exact .inr ⟨rfl, .inr (by decide)⟩

/-! ## The server in front of the board -/

section

variable {σ : Type} (D : Driver σ)

/-- The `static` variable of `Pico::transfer`. -/
structure Static where
  /-- `m_constructed` -/
  constructed : Bool
  /-- The rest of the `PicoProtocol`. -/
  proto : Master

/-- `Pico::transfer`, with an `answer` and no error: the two of them behind it.  The first call
makes the `PicoProtocol`, and `opened` is what comes of opening the device. -/
def transfer (opened : Option PicoError) (static : Option Static) (s : σ)
    (request answer : Text) : Except Fault ((Text × Option PicoError) × Static × σ) :=
  let proto := static.getD ⟨opened.isNone, Master.start opened⟩
  if static.isNone ∧ opened.isSome then .ok ((answer, opened), proto, s)
  else if ¬ proto.constructed then .ok ((answer, proto.proto.ec), proto, s)
  else do
    let (m, s) ← proto.proto.transfer D s request
    .ok ((m.answer, m.ec), { proto with proto := m }, s)

/-- `BUFFER_SIZE` -/
def serverBufferSize : ℕ := 1600

/-- A datagram that arrives. -/
structure Datagram where
  /-- What `receive` gives. -/
  received : Except PicoError (List UInt8)
  /-- What goes wrong when the answer is sent. -/
  sending : Option PicoError

/-- `Unix::UdpServer` -/
structure Server (σ : Type) where
  /-- The `ec` of `process`. -/
  ec : Option PicoError
  /-- The `PicoProtocol`, once it has been made. -/
  static : Option Static
  /-- The driver of the SPI device. -/
  spi : σ
  /-- The answers that were sent. -/
  sent : List Text

/-- A server that has just been started. -/
def Server.start (s : σ) : Server σ := ⟨none, none, s, []⟩

/-- `"Error: "` -/
def errorText : Text := [69, 114, 114, 111, 114, 58, 32]

/-- The text that is sent. -/
def replyText (message : PicoError → Text) : Text × Option PicoError → Text
  | (answer, none) => answer
  | (_, some e) => errorText ++ message e

/-- The request that is made of the received bytes: behind a NUL there are only NULs. -/
def requestText (data : List UInt8) : Text :=
  cstr data ++ List.replicate (data.length - (cstr data).length) 0

/-- `handle_request`; `message` is the text of an error. -/
def Server.handleRequest (opened : Option PicoError) (message : PicoError → Text)
    (server : Server σ) (d : Datagram) : Except Fault (Server σ) :=
  match d.received with
  | .error e => .ok { server with ec := some e }
  | .ok data =>
    -- an error of an earlier datagram is still there
    if server.ec ≠ none then .ok server
    else if serverBufferSize ≤ data.length ∧ 0 ∉ data then .error (.outOfBounds serverBufferSize)
    else do
      let (result, static, s) ← transfer D opened server.static server.spi (requestText data) []
      let server := { server with static := some static, spi := s }
      let reply := replyText message result
      -- `sendto` refuses a datagram without bytes
      if reply = [] then .ok { server with ec := some .einval }
      else
        match d.sending with
        | some e => .ok { server with ec := some e }
        | none => .ok { server with sent := server.sent ++ [reply] }

/-- The loop of `process`. -/
def Server.process (opened : Option PicoError) (message : PicoError → Text) :
    Server σ → List Datagram → Except Fault (Server σ)
  | server, [] => .ok server
  | server, d :: datagrams => do
    let server ← server.handleRequest D opened message d
    Server.process opened message server datagrams

variable {D}

/-- Every call of `Pico::transfer` gives the same. -/
def Static.Gives (static : Static) (result : Text × Option PicoError) : Prop :=
  if static.constructed then
    static.proto.Settled ∧ result = (static.proto.answer, static.proto.ec)
  else result = ([], static.proto.ec)

theorem transfer_of_gives (opened : Option PicoError) {static : Static}
    {result : Text × Option PicoError} (h : static.Gives result) (s : σ) (request : Text) :
    ∃ static', transfer D opened (some static) s request [] = .ok (result, static', s) ∧
      static'.Gives result := by
  rw [transfer, if_neg (by simp), Option.getD_some]
  rw [Static.Gives] at h
  cases hconstructed : static.constructed with
  | false =>
    rw [hconstructed, if_neg Bool.false_ne_true] at h
    refine ⟨static, by rw [if_pos Bool.false_ne_true, h], ?_⟩
    rw [Static.Gives, hconstructed, if_neg Bool.false_ne_true]
    exact h
  | true =>
    rw [hconstructed, if_pos rfl] at h
    rw [if_neg (not_not.mpr rfl), transfer_settled h.1, ok_bind]
    refine ⟨_, by rw [h.2], ?_⟩
    rw [Static.Gives]
    exact ⟨h.1, h.2⟩

/-- What the first call gives. -/
def firstResult (D : Driver σ) (opened : Option PicoError) (s : σ) (request : Text) :
    Text × Option PicoError :=
  match opened with
  | some e => ([], some e)
  | none =>
    match (exchange D s request).1 with
    | .ok answer => (answer, none)
    | .error e => ([], some e)

theorem transfer_first (opened : Option PicoError) (s : σ) (request : Text) :
    ∃ static s', transfer D opened none s request [] =
        .ok (firstResult D opened s request, static, s') ∧
      static.Gives (firstResult D opened s request) := by
  cases opened with
  | some e =>
    refine ⟨⟨false, Master.start (some e)⟩, s, rfl, ?_⟩
    rw [Static.Gives, if_neg Bool.false_ne_true]
    rfl
  | none =>
    obtain ⟨m, htransfer, houtcome⟩ := transfer_idle (D := D) s request
    have hresult : firstResult D none s request = (m.answer, m.ec) := by
      rw [firstResult]
      cases hr : (exchange D s request).1 with
      | ok answer =>
        rw [hr] at houtcome
        rw [houtcome.1, houtcome.2.1]
      | error e =>
        rw [hr] at houtcome
        rw [houtcome.1, houtcome.2.1]
    refine ⟨⟨true, m⟩, (exchange D s request).2, ?_, ?_⟩
    · change ((Master.start none).transfer D s request >>= fun r ↦ _) = _
      rw [htransfer, ok_bind, hresult]
      rfl
    · rw [Static.Gives, if_pos rfl, hresult]
      exact ⟨houtcome.settled, rfl⟩

/-- A datagram that is received, and whose answer is sent. -/
def Datagram.Fine (d : Datagram) : Bool :=
  match d.received, d.sending with
  | .ok _, none => true
  | _, _ => false

/-- A datagram ends within the buffer, or there is a NUL in it. -/
def Datagram.Fits (d : Datagram) : Prop :=
  ∀ data, d.received = .ok data → data.length < serverBufferSize ∨ 0 ∈ data

theorem process_dead (opened : Option PicoError) (message : PicoError → Text) (server : Server σ)
    (hec : server.ec ≠ none) (datagrams : List Datagram) :
    ∃ server', server.process D opened message datagrams = .ok server' ∧
      server'.sent = server.sent := by
  induction datagrams generalizing server with
  | nil => exact ⟨server, rfl, rfl⟩
  | cons d datagrams ih =>
    rw [Server.process, Server.handleRequest]
    cases d.received with
    | error e =>
      exact ih { server with ec := some e } nofun
    | ok data =>
      dsimp only
      rw [if_pos hec]
      exact ih server hec

/-- What is sent for a datagram is decided by the result of `Pico::transfer`. -/
theorem handleRequest_of_transfer {opened : Option PicoError} {message : PicoError → Text}
    {server : Server σ} {d : Datagram} {data : List UInt8} {result : Text × Option PicoError}
    {static : Static} {s : σ} (hec : server.ec = none) (hreceived : d.received = .ok data)
    (hfits : d.Fits) (htransfer : transfer D opened server.static server.spi (requestText data) [] =
      .ok (result, static, s)) :
    server.handleRequest D opened message d =
      .ok (if replyText message result = [] then
          { server with static := some static, spi := s, ec := some .einval }
        else
          match d.sending with
          | some e => { server with static := some static, spi := s, ec := some e }
          | none => { server with
              static := some static
              spi := s
              sent := server.sent ++ [replyText message result] }) := by
  have hlong : ¬ (serverBufferSize ≤ data.length ∧ 0 ∉ data) := fun h ↦
    (hfits data hreceived).elim (Nat.not_lt_of_le h.1) h.2
  rw [Server.handleRequest, hreceived]
  dsimp only
  rw [if_neg (not_not.mpr hec), if_neg hlong, htransfer, ok_bind]
  dsimp only
  split_ifs
  · rfl
  · cases d.sending <;> rfl

theorem process_of_gives (opened : Option PicoError) {message : PicoError → Text}
    (server : Server σ) {static : Static} {result : Text × Option PicoError}
    (hec : server.ec = none) (hstatic : server.static = some static) (hgives : static.Gives result)
    (hreply : replyText message result ≠ []) {datagrams : List Datagram}
    (hfits : ∀ d ∈ datagrams, d.Fits) :
    ∃ server', server.process D opened message datagrams = .ok server' ∧
      server'.sent = server.sent ++
        List.replicate (datagrams.takeWhile Datagram.Fine).length (replyText message result) := by
  induction datagrams generalizing server static with
  | nil => exact ⟨server, rfl, (List.append_nil _).symm⟩
  | cons d datagrams ih =>
    have hrest : ∀ d ∈ datagrams, d.Fits := fun d' hd' ↦ hfits d' (List.mem_cons_of_mem _ hd')
    rw [Server.process]
    cases hreceived : d.received with
    | error e =>
      have hfine : ¬ d.Fine = true := by simp [Datagram.Fine, hreceived]
      rw [Server.handleRequest, hreceived, List.takeWhile_cons_of_neg hfine, List.length_nil,
        List.replicate_zero, List.append_nil]
      exact process_dead opened message { server with ec := some e } nofun datagrams
    | ok data =>
      obtain ⟨static', htransfer, hgives'⟩ :=
        transfer_of_gives (D := D) opened hgives server.spi (requestText data)
      rw [← hstatic] at htransfer
      rw [handleRequest_of_transfer hec hreceived (hfits d List.mem_cons_self) htransfer,
        if_neg hreply, ok_bind]
      cases hsending : d.sending with
      | some e =>
        have hfine : ¬ d.Fine = true := by simp [Datagram.Fine, hreceived, hsending]
        rw [List.takeWhile_cons_of_neg hfine, List.length_nil, List.replicate_zero, List.append_nil]
        exact process_dead opened message
          { server with static := some static', ec := some e } nofun datagrams
      | none =>
        have hfine : d.Fine = true := by simp [Datagram.Fine, hreceived, hsending]
        obtain ⟨server', hprocess, hsent⟩ := ih { server with
          static := some static'
          sent := server.sent ++ [replyText message result] } hec rfl hgives' hrest
        refine ⟨server', hprocess, hsent.trans ?_⟩
        rw [List.takeWhile_cons_of_pos hfine, List.length_cons, List.replicate_succ,
          List.append_assoc]
        rfl

/-- **The server answers every datagram with its first answer.**  Whatever the board does, and even
if its device cannot be opened: what is sent for the first datagram is sent for all the others,
until something goes wrong with the socket.  From then on nothing is sent any more; an answer
without bytes counts as that. -/
theorem echoes_first (D : Driver σ) (opened : Option PicoError) (message : PicoError → Text) (s : σ)
    (data : List UInt8) (sending : Option PicoError) (datagrams : List Datagram)
    (hfits : ∀ d ∈ (⟨.ok data, sending⟩ : Datagram) :: datagrams, d.Fits) :
    ∃ server, (Server.start s).process D opened message (⟨.ok data, sending⟩ :: datagrams) =
        .ok server ∧
      server.sent =
        let reply := replyText message (firstResult D opened s (requestText data))
        if reply = [] then []
        else List.replicate ((⟨.ok data, sending⟩ :: datagrams).takeWhile Datagram.Fine).length
          reply := by
  obtain ⟨static, s', htransfer, hgives⟩ :=
    transfer_first (D := D) opened s (requestText data)
  have hhandle : (Server.start s).handleRequest D opened message ⟨.ok data, sending⟩ = _ :=
    handleRequest_of_transfer rfl rfl (hfits _ List.mem_cons_self) htransfer
  rw [Server.process, hhandle, ok_bind]
  dsimp only
  by_cases hreply : replyText message (firstResult D opened s (requestText data)) = []
  · rw [if_pos hreply, if_pos hreply]
    exact process_dead opened message ⟨some .einval, some static, s', []⟩ nofun datagrams
  rw [if_neg hreply, if_neg hreply]
  cases sending with
  | some e => exact process_dead opened message ⟨some e, some static, s', []⟩ nofun datagrams
  | none =>
    have hrest : ∀ d ∈ datagrams, d.Fits := fun d hd ↦ hfits d (List.mem_cons_of_mem _ hd)
    exact process_of_gives opened ⟨none, some static, s', _⟩ rfl rfl hgives hreply hrest

end

/-- Two datagrams for a board that gives back what it gets. -/
theorem echoes_first_two :
    ∃ server, (Server.start [[], header [104], [104]]).process .script none (fun _ ↦ [])
        [⟨.ok [104, 0, 105], none⟩, ⟨.ok [120], none⟩] = .ok server ∧
      server.sent = [[104], [104]] := by
  obtain ⟨server, hprocess, hsent⟩ := echoes_first .script none (fun _ ↦ [])
    [[], header [104], [104]] [104, 0, 105] none [⟨.ok [120], none⟩] (by
      intro d hd data hdata
      rcases List.mem_pair.mp hd with rfl | rfl <;> cases hdata <;> exact .inl (by decide))
  exact ⟨server, hprocess, hsent.trans (by decide +kernel)⟩

end Pico
end Coap
