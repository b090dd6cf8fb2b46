import CoapCpp.CString
import CoapCpp.Crc
import CoapCpp.Memory

/-!
# The protocol between a server and its sensor board

`examples/RASPBERRY-PI/udp-server`: a Raspberry Pi 400 sends the requests it gets to a Raspberry Pi
Pico and waits for the answers.  The two are connected by SPI and send each other packages of four
bytes, which are a signature, a length and a checksum, and up to 251 bytes of data.

Both ends are state machines that are run by a loop, in `transfer` and in `process`.  The driver of
the one (`Driver`) and the SPI of the other (`SpiInst`) are parameters, with what is documented of
them as fields.

* `transfer_idle` and `process_idle`: what an end does the first time, whatever the other one sends.
* `transfer_settled` and `processTimes_run`: what it does from then on, which is nothing.
* `calculateCrc_ne`: errors in the data that the checksum notices.
-/

set_option autoImplicit false

namespace Coap

open CString Memory

namespace Pico

/-! ## Packages -/

/-- `m_signature` -/
def signature : List UInt8 := [0xA5, 0x5A]

/-- `PICO_PROTOCOL_HEADER_LENGTH` -/
def headerLength : ℕ := 4

/-- `PICO_PROTOCOL_DATA_MAX_LENGTH` -/
def dataMaxLength : ℕ := 0xFF - headerLength

/-- An iteration of the inner loop of `calculate_crc`. -/
def crcBit (crc : UInt8) : UInt8 :=
  if crc &&& 0x80 ≠ 0 then (crc <<< 1) ^^^ 0x31 else crc <<< 1

/-- `calculate_crc`, which both ends have, of all the data. -/
def calculateCrc (data : List UInt8) : UInt8 :=
  data.foldl (fun crc b ↦ crcBit^[8] (crc ^^^ b)) 0xff

/-- The package that both ends make of their data. -/
def package (data : List UInt8) : List UInt8 :=
  signature ++ [UInt8.ofNat data.length, calculateCrc data] ++ data

/-- What `m_ec` is set to. -/
inductive PicoError where
  /-- `EINVAL` -/
  | einval
  /-- `EMSGSIZE` -/
  | emsgsize
  /-- `EPROTO` -/
  | eproto
  /-- `EBADMSG` -/
  | ebadmsg
  /-- Another value of `errno`, or one of the callback. -/
  | errno (number : ℕ)
deriving DecidableEq

/-! ## The Raspberry Pi 400 -/

/-- `Buffer`, whose `m_length` is the length of its data. -/
structure Buffer where
  /-- `m_data` -/
  data : List UInt8
  /-- `m_offset` -/
  offset : ℕ

/-- The constructor of a `Buffer`. -/
def Buffer.ofLength (length : ℕ) : Buffer := ⟨List.replicate length 0, 0⟩

/-- `Buffer::clear` -/
def Buffer.clear (b : Buffer) : Buffer := ⟨List.replicate b.data.length 0, 0⟩

/-- The driver of the SPI device, with its state. -/
structure Driver (σ : Type) where
  /-- The `ioctl`s of `Spi::init`. -/
  init : σ → Option PicoError × σ
  /-- `SPI_IOC_MESSAGE`: while bytes go out, as many come in. -/
  message : σ → List UInt8 → Except PicoError (List UInt8) × σ
  /-- As many bytes come in as go out. -/
  length_message : ∀ s sent received s', message s sent = (.ok received, s') →
    received.length = sent.length

/-- `Spi` -/
structure Spi where
  /-- `m_txBuf` -/
  txBuf : Buffer
  /-- `m_rxBuf` -/
  rxBuf : Buffer

/-- A `Spi` that has just been made: `RPI400_SPI_TX_BUF_SIZE` and `RPI400_SPI_RX_BUF_SIZE`. -/
def Spi.start : Spi := ⟨Buffer.ofLength 256, Buffer.ofLength 256⟩

section

variable {σ : Type} (D : Driver σ)

/-- `Spi::write_read_blocking(ec)` -/
def Spi.writeReadBlocking (spi : Spi) (s : σ) : Except Fault (Option PicoError × Spi × σ) :=
  let spi := { spi with rxBuf := spi.rxBuf.clear }
  let length := spi.txBuf.offset
  if spi.txBuf.data.length < length then .error (.outOfBounds spi.txBuf.data.length)
  else if spi.rxBuf.data.length < length then .error (.outOfBounds spi.rxBuf.data.length)
  else
    match D.message s (spi.txBuf.data.take length) with
    | (.error e, s) => .ok (some e, spi, s)
    | (.ok received, s) =>
      .ok (none, { spi with rxBuf := ⟨received ++ spi.rxBuf.data.drop length, length⟩ }, s)

/-- The check of `Spi::read_blocking` and of `Spi::write_read_blocking`. -/
def Spi.Refuses (spi : Spi) (length : ℕ) : Prop :=
  length = 0 ∨ spi.txBuf.data.length < length ∨ spi.rxBuf.data.length < length

instance (spi : Spi) (length : ℕ) : Decidable (spi.Refuses length) := by
  unfold Spi.Refuses
  infer_instance

/-- `Spi::read_blocking` with a `repeated_tx_data` of 0, which returns `m_rxBuf`. -/
def Spi.readBlocking (spi : Spi) (s : σ) (length : ℕ) :
    Except Fault (Option PicoError × Spi × σ) :=
  if spi.Refuses length then .ok (some .einval, spi, s)
  else
    let tx := ⟨List.replicate length 0 ++ spi.txBuf.data.drop length, length⟩
    Spi.writeReadBlocking D { spi with txBuf := tx } s

/-- `Spi::read_blocking` with a `repeated_tx_data` of 0 and a `dst`, by way of
`Spi::write_read_blocking`: what is in `dst` in the end. -/
def Spi.readBlockingTo (spi : Spi) (s : σ) (length : ℕ) :
    Except Fault ((Option PicoError × List UInt8) × Spi × σ) :=
  if spi.Refuses length then .ok ((some .einval, []), spi, s)
  else do
    let src := List.replicate length 0
    let tx := ⟨src ++ (List.replicate spi.txBuf.data.length 0).drop length, length⟩
    let (ec, spi, s) ← Spi.writeReadBlocking D ⟨tx, spi.rxBuf.clear⟩ s
    match ec with
    | some e => .ok ((some e, []), spi, s)
    | none => .ok ((none, spi.rxBuf.data.take length), spi, s)

/-- `Spi::write_blocking` of a `Buffer`, which is copied with its length. -/
def Spi.writeBlocking (spi : Spi) (s : σ) (src : Buffer) :
    Except Fault (Option PicoError × Spi × σ) :=
  Spi.writeReadBlocking D { spi with txBuf := src } s

end

/-- `PicoProtocol::State` of the Raspberry Pi 400. -/
inductive MasterState where
  /-- `IDLE` -/
  | idle
  /-- `MAKE_REQUEST` -/
  | makeRequest
  /-- `SEND_REQUEST` -/
  | sendRequest
  /-- `RECEIVE_HEADER` -/
  | receiveHeader
  /-- `RECEIVE_DATA` -/
  | receiveData
  /-- `ERROR` -/
  | error
  /-- `COMPLETE` -/
  | complete
deriving DecidableEq

/-- `PicoProtocol` of the Raspberry Pi 400. -/
structure Master where
  /-- `m_spi` -/
  spi : Spi
  /-- `m_currentState` -/
  current : MasterState
  /-- `m_nextState` -/
  next : MasterState
  /-- `m_length` -/
  length : UInt8
  /-- `m_crc` -/
  crc : UInt8
  /-- `m_request` -/
  request : Text
  /-- `m_answer` -/
  answer : Text
  /-- `m_ec` -/
  ec : Option PicoError
  /-- `m_buffer` -/
  buffer : Option Buffer

/-- The constructor, with the `ec` that opening the device has left. -/
def Master.start (ec : Option PicoError) : Master where
  spi := .start
  current := .idle
  next := .idle
  length := 0
  crc := 0
  request := []
  answer := []
  ec := ec
  buffer := none

section

variable {σ : Type} (D : Driver σ)

/-- `make_request` -/
def Master.makeRequest (m : Master) : Master :=
  let m := { m with current := .makeRequest }
  if dataMaxLength < m.request.length then { m with ec := some .emsgsize, next := .error }
  else
    { m with
      buffer := some ⟨package m.request, headerLength + m.request.length⟩
      next := .sendRequest }

/-- `send_request` -/
def Master.sendRequest (m : Master) (s : σ) : Except Fault (Master × σ) :=
  let m := { m with current := .sendRequest }
  match D.init s with
  | (some e, s) => .ok ({ m with ec := some e, next := .error }, s)
  | (none, s) =>
    match m.buffer with
    | none => .error .nullPointer
    | some buffer => do
      let (ec, spi, s) ← m.spi.writeBlocking D s buffer
      let m := { m with spi := spi, buffer := none }
      match ec with
      | some e => .ok ({ m with ec := some e, next := .error }, s)
      | none => .ok ({ m with next := .receiveHeader }, s)

/-- `receive_header` -/
def Master.receiveHeader (m : Master) (s : σ) : Except Fault (Master × σ) := do
  let m := { m with current := .receiveHeader }
  let ((ec, header), spi, s) ← m.spi.readBlockingTo D s headerLength
  let m := { m with spi := spi }
  match ec with
  | some e => .ok ({ m with ec := some e, next := .error }, s)
  | none =>
    if header.take 2 ≠ signature then .ok ({ m with ec := some .eproto, next := .error }, s)
    else
      let length ← load header 2
      let crc ← load header 3
      .ok ({ m with length := length, crc := crc, next := .receiveData }, s)

/-- `receive_data`.  The answer ends at its first NUL. -/
def Master.receiveData (m : Master) (s : σ) : Except Fault (Master × σ) :=
  let m := { m with current := .receiveData }
  if dataMaxLength < m.length.toNat then .ok ({ m with ec := some .ebadmsg, next := .error }, s)
  else do
    let (ec, spi, s) ← m.spi.readBlocking D s m.length.toNat
    let m := { m with spi := spi }
    match ec with
    | some e => .ok ({ m with ec := some e, next := .error }, s)
    | none =>
      let data := m.spi.rxBuf.data
      if calculateCrc (data.take m.length.toNat) ≠ m.crc then
        .ok ({ m with ec := some .ebadmsg, next := .error }, s)
      else if 0 ∉ data then .error (.outOfBounds data.length)
      else .ok ({ m with answer := cstr data, next := .complete }, s)

/-- What the loop of `transfer` does with `m_nextState`. -/
def Master.step (m : Master) (s : σ) : Except Fault (Master × σ) :=
  match m.next with
  | .makeRequest => .ok (m.makeRequest, s)
  | .sendRequest => m.sendRequest D s
  | .receiveHeader => m.receiveHeader D s
  | .receiveData => m.receiveData D s
  | .error => .ok ({ m with current := .error }, s)
  | .complete => .ok ({ m with current := .complete }, s)
  | .idle => .ok (m, s)

/-- The loop of `transfer`, which may go round a number of times. -/
def Master.loop : ℕ → Master → σ → Except Fault (Master × σ)
  | 0, _, _ => .error .outOfFuel
  | n + 1, m, s =>
    if m.current = .complete ∨ m.current = .error then .ok (m, s)
    else do
      let (m, s) ← m.step D s
      Master.loop n m s

/-- `PicoProtocol::transfer`: the answer and `ec` are those of the `PicoProtocol`. -/
def Master.transfer (m : Master) (s : σ) (request : Text) : Except Fault (Master × σ) :=
  Master.loop D 6 { m with request := request, next := .makeRequest } s

end

/-! ## The Raspberry Pi Pico -/

/-- `PicoProtocol::State` of the Raspberry Pi Pico. -/
inductive SlaveState where
  /-- `IDLE` -/
  | idle
  /-- `RECEIVE_HEADER` -/
  | receiveHeader
  /-- `RECEIVE_DATA` -/
  | receiveData
  /-- `HANDLE_REQUEST` -/
  | handleRequest
  /-- `MAKE_ANSWER` -/
  | makeAnswer
  /-- `SEND_ANSWER` -/
  | sendAnswer
  /-- `ERROR` -/
  | error
  /-- `COMPLETE` -/
  | complete
deriving DecidableEq

/-- The SPI of the Raspberry Pi Pico, with its state.  A call may wait for ever. -/
structure SpiInst (ω : Type) where
  /-- `spi_read_blocking` with a `repeated_tx_data` of 0: what it returns, and what is in `dst`. -/
  readBlocking : ω → ℕ → Option ((ℕ × List UInt8) × ω)
  /-- `spi_write_blocking` -/
  writeBlocking : ω → List UInt8 → Option (ℕ × ω)
  /-- All of the bytes are read. -/
  readBlocking_length : ∀ w length received data w',
    readBlocking w length = some ((received, data), w') → received = length ∧ data.length = length
  /-- All of the bytes are written. -/
  writeBlocking_length : ∀ w src transmitted w',
    writeBlocking w src = some (transmitted, w') → transmitted = src.length

/-- `RequestHandlerCallback`: from the request and what the answer is before, the answer and the
error. -/
abbrev Callback := Text → Text → Text × Option PicoError

/-- `PicoProtocol` of the Raspberry Pi Pico. -/
structure Slave where
  /-- `m_callback`, which may be null. -/
  callback : Option Callback
  /-- `m_currentState` -/
  current : SlaveState
  /-- `m_nextState` -/
  next : SlaveState
  /-- `m_length` -/
  length : UInt8
  /-- `m_crc` -/
  crc : UInt8
  /-- `m_answer` -/
  answer : Text
  /-- `m_ec` -/
  ec : Option PicoError
  /-- `m_txBuffer` -/
  txBuffer : List UInt8
  /-- `m_rxBuffer` -/
  rxBuffer : List UInt8

/-- `PICO_PROTOCOL_BUFFER_SIZE` -/
def bufferSize : ℕ := 255

/-- The constructor. -/
def Slave.start (callback : Option Callback) : Slave where
  callback := callback
  current := .idle
  next := .idle
  length := 0
  crc := 0
  answer := []
  ec := none
  txBuffer := List.replicate bufferSize 0
  rxBuffer := List.replicate bufferSize 0

/-- Why a loop has not come to its end. -/
inductive Stop where
  /-- It goes wrong. -/
  | fault (fault : Fault)
  /-- It waits for bytes. -/
  | waits
deriving DecidableEq

/-- The first cells of a buffer are overwritten. -/
def overwrite (buffer data : List UInt8) : Except Stop (List UInt8) :=
  if buffer.length < data.length then .error (.fault (.outOfBounds buffer.length))
  else .ok (data ++ buffer.drop data.length)

section

variable {ω : Type} (S : SpiInst ω)

/-- `receive_header` -/
def Slave.receiveHeader (p : Slave) (w : ω) : Except Stop (Slave × ω) :=
  let p := { p with current := .receiveHeader }
  match S.readBlocking w headerLength with
  | none => .error .waits
  | some ((received, header), w) =>
    if received ≠ headerLength ∨ header.take 2 ≠ signature then
      .ok ({ p with ec := some .eproto, next := .error }, w)
    else
      match header[2]?, header[3]? with
      | some length, some crc =>
        .ok ({ p with length := length, crc := crc, next := .receiveData }, w)
      | _, _ => .error (.fault (.outOfBounds headerLength))

/-- `receive_data` -/
def Slave.receiveData (p : Slave) (w : ω) : Except Stop (Slave × ω) :=
  let p := { p with current := .receiveData }
  if dataMaxLength < p.length.toNat then .ok ({ p with ec := some .ebadmsg, next := .error }, w)
  else
    match S.readBlocking w p.length.toNat with
    | none => .error .waits
    | some ((received, data), w) => do
      let rx ← overwrite (List.replicate bufferSize 0) data
      let p := { p with rxBuffer := rx }
      if received ≠ p.length.toNat then .ok ({ p with ec := some .eproto, next := .error }, w)
      else if calculateCrc (rx.take p.length.toNat) ≠ p.crc then
        .ok ({ p with ec := some .ebadmsg, next := .error }, w)
      else .ok ({ p with next := .handleRequest }, w)

/-- `handle_request`.  The request ends at its first NUL. -/
def Slave.handleRequest (p : Slave) : Except Stop Slave :=
  let p := { p with current := .handleRequest }
  if 0 ∉ p.rxBuffer then .error (.fault (.outOfBounds bufferSize))
  else
    let request := cstr p.rxBuffer
    match p.callback with
    | none => .ok { p with answer := request, next := .makeAnswer }
    | some callback =>
      match callback request p.answer with
      | (answer, some e) => .ok { p with answer := answer, ec := some e, next := .error }
      | (answer, none) => .ok { p with answer := answer, next := .makeAnswer }

/-- `make_answer` -/
def Slave.makeAnswer (p : Slave) : Except Stop Slave :=
  let p := { p with current := .makeAnswer }
  if dataMaxLength < p.answer.length then .ok { p with ec := some .emsgsize, next := .error }
  else do
    let tx ← overwrite (List.replicate bufferSize 0) (package p.answer)
    .ok { p with
      txBuffer := tx
      length := UInt8.ofNat (headerLength + p.answer.length)
      next := .sendAnswer }

/-- `send_answer`, which also prints the package as a text. -/
def Slave.sendAnswer (p : Slave) (w : ω) : Except Stop (Slave × ω) :=
  let p := { p with current := .sendAnswer }
  if (0 : UInt8) ∉ p.txBuffer then .error (.fault (.outOfBounds bufferSize))
  else
    match S.writeBlocking w (p.txBuffer.take p.length.toNat) with
    | none => .error .waits
    | some (transmitted, w) =>
      if transmitted ≠ p.length.toNat then .ok ({ p with ec := some .eproto, next := .error }, w)
      else .ok ({ p with next := .complete }, w)

/-- What the loop of `process` does with `m_nextState`. -/
def Slave.step (p : Slave) (w : ω) : Except Stop (Slave × ω) :=
  match p.next with
  | .receiveHeader => p.receiveHeader S w
  | .receiveData => p.receiveData S w
  | .handleRequest => do .ok (← p.handleRequest, w)
  | .makeAnswer => do .ok (← p.makeAnswer, w)
  | .sendAnswer => p.sendAnswer S w
  | .error => .ok ({ p with current := .error }, w)
  | .complete => .ok ({ p with current := .complete }, w)
  | .idle => .ok (p, w)

/-- The loop of `process`, which may go round a number of times. -/
def Slave.loop : ℕ → Slave → ω → Except Stop (Slave × ω)
  | 0, _, _ => .error (.fault .outOfFuel)
  | n + 1, p, w =>
    if p.current = .complete ∨ p.current = .error then .ok (p, w)
    else do
      let (p, w) ← p.step S w
      Slave.loop n p w

/-- `PicoProtocol::process` -/
def Slave.process (p : Slave) (w : ω) : Except Stop (Slave × ω) :=
  Slave.loop S 7 { p with next := .receiveHeader } w

/-- `process` is called a number of times, as by the loop of `pico_protocol_task`. -/
def Slave.processTimes : ℕ → Slave → ω → Except Stop (Slave × ω)
  | 0, p, w => .ok (p, w)
  | n + 1, p, w => do
    let (p, w) ← p.process S w
    Slave.processTimes n p w

end

/-! ## The checksum -/

theorem crcBit_toBitVec (c : UInt8) : (crcBit c).toBitVec = Crc.round 0x31 c.toBitVec := by
  obtain ⟨x⟩ := c
  revert x
  decide +kernel

theorem crcBit_iterate_toBitVec (n : ℕ) (c : UInt8) :
    (crcBit^[n] c).toBitVec = (Crc.round 0x31)^[n] c.toBitVec := by
  induction n generalizing c with
  | zero => rfl
  | succ n ih =>
    rw [Function.iterate_succ_apply, Function.iterate_succ_apply, ih, crcBit_toBitVec]

/-- `calculate_crc` is a cyclic redundancy check. -/
theorem calculateCrc_toBitVec (data : List UInt8) :
    (calculateCrc data).toBitVec = Crc.crc 0x31 0xff (data.map UInt8.toBitVec) := by
  have h : ∀ c : UInt8, (data.foldl (fun crc b ↦ crcBit^[8] (crc ^^^ b)) c).toBitVec =
      Crc.crc 0x31 c.toBitVec (data.map UInt8.toBitVec) := by
    induction data with
    | nil => exact fun _ ↦ rfl
    | cons b data ih =>
      intro c
      rw [List.foldl_cons, ih, crcBit_iterate_toBitVec, List.map_cons]
      rfl
  exact h 0xff

/-- The bits in which two pieces of data differ. -/
def wrongBits (data data' : List UInt8) : List Bool :=
  List.zipWith xor (Crc.stream (data.map UInt8.toBitVec)) (Crc.stream (data'.map UInt8.toBitVec))

/-- An error that a checksum cannot miss: the wrong bits are close together, or their number is
odd. -/
def Noticed (data data' : List UInt8) : Prop :=
  data.length = data'.length ∧
    (Crc.Burst 8 (wrongBits data data') ∨ (wrongBits data data').count true % 2 = 1)

theorem calculateCrc_ne {data data' : List UInt8} (h : Noticed data data') :
    calculateCrc data ≠ calculateCrc data' := by
  obtain ⟨hlen, hwrong⟩ := h
  have hlen' : (data.map UInt8.toBitVec).length = (data'.map UInt8.toBitVec).length := by
    simpa using hlen
  intro heq
  have hcrc := congrArg UInt8.toBitVec heq
  rw [calculateCrc_toBitVec, calculateCrc_toBitVec] at hcrc
  rcases hwrong with hburst | hodd
  · exact Crc.crc_ne_of_burst (by decide) _ hlen' hburst hcrc
  · exact Crc.crc_ne_of_odd (by decide) _ hlen' hodd hcrc

/-! ## The first request of the Raspberry Pi 400 -/

section

variable {σ : Type} (D : Driver σ)

/-- The data of an answer, for which there is only so much room. -/
def receivedData (s : σ) (length crc : UInt8) (room : ℕ) : Except PicoError Text × σ :=
  if dataMaxLength < length.toNat then (.error .ebadmsg, s)
  else if length.toNat = 0 ∨ room < length.toNat then (.error .einval, s)
  else
    match D.message s (List.replicate length.toNat 0) with
    | (.error e, s) => (.error e, s)
    | (.ok data, s) =>
      if calculateCrc data ≠ crc then (.error .ebadmsg, s) else (.ok (cstr data), s)

/-- The answer. -/
def receivedAnswer (s : σ) (room : ℕ) : Except PicoError Text × σ :=
  match D.message s (List.replicate headerLength 0) with
  | (.error e, s) => (.error e, s)
  | (.ok header, s) =>
    if header.take 2 ≠ signature then (.error .eproto, s)
    else receivedData D s (header.getD 2 0) (header.getD 3 0) room

/-- **What `transfer` does with its first request.**  The answer may be no longer than the package
that the request was sent in. -/
def exchange (s : σ) (request : Text) : Except PicoError Text × σ :=
  if dataMaxLength < request.length then (.error .emsgsize, s)
  else
    match D.init s with
    | (some e, s) => (.error e, s)
    | (none, s) =>
      match D.message s (package request) with
      | (.error e, s) => (.error e, s)
      | (.ok _, s) => receivedAnswer D s (headerLength + request.length)

/-- The loop has come to its end. -/
def Master.Settled (m : Master) : Prop := m.current = .complete ∨ m.current = .error

/-- How the loop has come to its end, with the answer there was before. -/
def Master.Outcome (m : Master) (answer : Text) : Except PicoError Text → Prop
  | .ok text => m.answer = text ∧ m.ec = none ∧ m.current = .complete
  | .error e => m.answer = answer ∧ m.ec = some e ∧ m.current = .error

theorem Master.Outcome.settled {m : Master} {answer : Text} {r : Except PicoError Text}
    (h : m.Outcome answer r) : m.Settled := by
  cases r with
  | ok text => exact .inl h.2.2
  | error e => exact .inr h.2.2

variable {D}

theorem loop_of_settled {m : Master} (h : m.Settled) (n : ℕ) (s : σ) :
    Master.loop D (n + 1) m s = .ok (m, s) := by
  rw [Master.loop]
  exact if_pos h

theorem loop_next {m m' : Master} {s s' : σ} (h : ¬ m.Settled) (hstep : m.step D s = .ok (m', s'))
    (n : ℕ) : Master.loop D (n + 1) m s = Master.loop D n m' s' := by
  rw [Master.loop]
  refine (if_neg h).trans ?_
  rw [hstep]
  rfl

theorem step_error {m : Master} (hnext : m.next = .error) (s : σ) :
    m.step D s = .ok ({ m with current := .error }, s) := by
  cases m
  cases hnext
  rfl

theorem step_complete {m : Master} (hnext : m.next = .complete) (s : σ) :
    m.step D s = .ok ({ m with current := .complete }, s) := by
  cases m
  cases hnext
  rfl

theorem loop_error {m : Master} {answer : Text} {e : PicoError} (h : ¬ m.Settled)
    (hnext : m.next = .error) (hanswer : m.answer = answer) (hec : m.ec = some e) (n : ℕ) (s : σ) :
    ∃ m', Master.loop D (n + 2) m s = .ok (m', s) ∧ m'.Outcome answer (.error e) := by
  refine ⟨{ m with current := .error }, ?_, hanswer, hec, rfl⟩
  rw [loop_next h (step_error hnext s)]
  exact loop_of_settled (.inr rfl) n s

theorem loop_complete {m : Master} {answer text : Text} (h : ¬ m.Settled)
    (hnext : m.next = .complete) (hanswer : m.answer = text) (hec : m.ec = none) (n : ℕ) (s : σ) :
    ∃ m', Master.loop D (n + 2) m s = .ok (m', s) ∧ m'.Outcome answer (.ok text) := by
  refine ⟨{ m with current := .complete }, ?_, hanswer, hec, rfl⟩
  rw [loop_next h (step_complete hnext s)]
  exact loop_of_settled (.inl rfl) n s

theorem step_receiveData {m : Master} (hnext : m.next = .receiveData) (s : σ) :
    m.step D s = m.receiveData D s := by
  rw [Master.step, hnext]

theorem writeReadBlocking_of_le {spi : Spi} (htx : spi.txBuf.offset ≤ spi.txBuf.data.length)
    (hrx : spi.txBuf.offset ≤ spi.rxBuf.data.length) (s : σ) :
    spi.writeReadBlocking D s =
      match D.message s (spi.txBuf.data.take spi.txBuf.offset) with
      | (.error e, s) => .ok (some e, { spi with rxBuf := spi.rxBuf.clear }, s)
      | (.ok received, s) =>
        .ok (none, { spi with rxBuf := ⟨received ++
          List.replicate (spi.rxBuf.data.length - spi.txBuf.offset) 0, spi.txBuf.offset⟩ }, s) := by
  have hclear : spi.rxBuf.clear.data.length = spi.rxBuf.data.length := by simp [Buffer.clear]
  rw [Spi.writeReadBlocking]
  dsimp only
  rw [if_neg (Nat.not_lt_of_le htx), if_neg (by rw [hclear]; exact Nat.not_lt_of_le hrx)]
  simp [Buffer.clear]

theorem not_settled {m : Master} (state : MasterState) (h : m.current = state)
    (hstate : ¬ (state = .complete ∨ state = .error)) : ¬ m.Settled := by
  rwa [Master.Settled, h]

theorem cstr_append_replicate (text : Text) (n : ℕ) :
    cstr (text ++ List.replicate n 0) = cstr text := by
  by_cases h : 0 ∈ text
  · obtain ⟨before, after, rfl, hnot⟩ := List.eq_append_cons_of_mem h
    rw [List.append_assoc, List.cons_append, cstr_append_zero hnot, cstr_append_zero hnot]
  · rw [cstr_append h, cstr_of_notMem h]
    cases n <;> simp [cstr, List.replicate_succ]

theorem loop_receiveData {m : Master} {room : ℕ} (h : ¬ m.Settled) (hnext : m.next = .receiveData)
    (hec : m.ec = none) (htx : m.spi.txBuf.data.length = room)
    (hrx : m.spi.rxBuf.data.length = 256) (n : ℕ) (s : σ) :
    ∃ m', Master.loop D (n + 3) m s = .ok (m', (receivedData D s m.length m.crc room).2) ∧
      m'.Outcome m.answer (receivedData D s m.length m.crc room).1 := by
  have hstep := step_receiveData (D := D) hnext s
  rw [Master.receiveData] at hstep
  rw [receivedData]
  have hnot : ∀ m' : Master, m'.current = .receiveData → ¬ m'.Settled := fun m' hm' ↦
    not_settled _ hm' (by decide)
  by_cases hmax : dataMaxLength < m.length.toNat
  · rw [if_pos hmax] at hstep ⊢
    rw [loop_next h hstep]
    exact loop_error (hnot _ rfl) rfl rfl rfl n s
  rw [if_neg hmax] at hstep ⊢
  rw [Spi.readBlocking] at hstep
  have h251 : m.length.toNat ≤ 251 := Nat.le_of_not_lt hmax
  have hrefuses : m.spi.Refuses m.length.toNat ↔
      m.length.toNat = 0 ∨ room < m.length.toNat := by
    rw [Spi.Refuses, hrx, htx]
    exact or_congr_right (or_iff_left (by omega))
  by_cases hroom : m.length.toNat = 0 ∨ room < m.length.toNat
  · rw [if_pos hroom]
    rw [if_pos (hrefuses.mpr hroom)] at hstep
    rw [loop_next h hstep]
    exact loop_error (hnot _ rfl) rfl rfl rfl n s
  rw [if_neg hroom]
  rw [if_neg (hrefuses.not.mpr hroom), writeReadBlocking_of_le (by simp) (by simp [hrx]; omega)]
    at hstep
  have htake : (List.replicate m.length.toNat (0 : UInt8) ++
      m.spi.txBuf.data.drop m.length.toNat).take m.length.toNat =
        List.replicate m.length.toNat 0 := List.take_left' (List.length_replicate ..)
  dsimp only at hstep
  rw [htake, hrx] at hstep
  rcases hmessage : D.message s (List.replicate m.length.toNat 0) with ⟨received, s'⟩
  rw [hmessage] at hstep
  cases received with
  | error e =>
    rw [loop_next h hstep]
    exact loop_error (hnot _ rfl) rfl rfl rfl n s'
  | ok data =>
    have hlen : data.length = m.length.toNat :=
      (D.length_message _ _ _ _ hmessage).trans (List.length_replicate ..)
    rw [ok_bind] at hstep
    dsimp only at hstep ⊢
    rw [← hlen, List.take_left] at hstep
    by_cases hcrc : calculateCrc data ≠ m.crc
    · rw [if_pos hcrc] at hstep ⊢
      rw [loop_next h hstep]
      exact loop_error (hnot _ rfl) rfl rfl rfl n s'
    · -- there is always a zero behind the data
      have hzero : 0 ∈ List.replicate (256 - data.length) (0 : UInt8) :=
        List.mem_replicate.mpr ⟨by omega, rfl⟩
      rw [if_neg hcrc] at hstep ⊢
      rw [if_neg (not_not.mpr (List.mem_append_right data hzero)),
        cstr_append_replicate] at hstep
      rw [loop_next h hstep]
      refine loop_complete (hnot _ rfl) rfl rfl ?_ n s'
      exact hec

theorem step_receiveHeader {m : Master} (hnext : m.next = .receiveHeader) (s : σ) :
    m.step D s = m.receiveHeader D s := by
  rw [Master.step, hnext]

theorem loop_receiveHeader {m : Master} {room : ℕ} (h : ¬ m.Settled)
    (hnext : m.next = .receiveHeader) (hec : m.ec = none)
    (htx : m.spi.txBuf.data.length = room) (hroom : headerLength ≤ room)
    (hrx : m.spi.rxBuf.data.length = 256) (n : ℕ) (s : σ) :
    ∃ m', Master.loop D (n + 4) m s = .ok (m', (receivedAnswer D s room).2) ∧
      m'.Outcome m.answer (receivedAnswer D s room).1 := by
  have hstep := step_receiveHeader (D := D) hnext s
  have hnot : ∀ m' : Master, m'.current = .receiveHeader → ¬ m'.Settled := fun m' hm' ↦
    not_settled _ hm' (by decide)
  have hrefuses : ¬ m.spi.Refuses headerLength := by
    rw [Spi.Refuses, hrx, htx, headerLength]
    rw [headerLength] at hroom
    omega
  have hclear : m.spi.rxBuf.clear.data.length = 256 := by
    rw [Buffer.clear, List.length_replicate, hrx]
  have htake : ∀ rest : List UInt8,
      (List.replicate headerLength (0 : UInt8) ++ rest).take headerLength =
        List.replicate headerLength 0 := fun rest ↦ List.take_left' (List.length_replicate ..)
  rw [Master.receiveHeader, Spi.readBlockingTo, if_neg hrefuses] at hstep
  dsimp only at hstep
  have h256 : headerLength ≤ 256 := by decide
  rw [writeReadBlocking_of_le (by simp) (by rw [hclear]; exact h256)] at hstep
  dsimp only at hstep
  rw [htake, hclear] at hstep
  rw [receivedAnswer]
  rcases hmessage : D.message s (List.replicate headerLength 0) with ⟨received, s'⟩
  rw [hmessage] at hstep
  cases received with
  | error e =>
    rw [loop_next h hstep]
    exact loop_error (hnot _ rfl) rfl rfl rfl _ s'
  | ok header =>
    have hlen : header.length = 4 := D.length_message _ _ _ _ hmessage
    have hheader : ∀ rest : List UInt8, (header ++ rest).take headerLength = header :=
      fun rest ↦ List.take_left' hlen
    simp only [ok_bind, hheader] at hstep
    dsimp only
    by_cases hsignature : header.take 2 ≠ signature
    · rw [if_pos hsignature] at hstep ⊢
      rw [loop_next h hstep]
      exact loop_error (hnot _ rfl) rfl rfl rfl _ s'
    · rw [if_neg hsignature, load_eq_getD (by omega) 0, load_eq_getD (by omega) 0] at hstep
      simp only [ok_bind] at hstep
      rw [if_neg hsignature, loop_next h hstep]
      refine loop_receiveData (hnot _ rfl) rfl ?_ ?_ ?_ n s'
      · exact hec
      · -- the buffer is as long as it was
        rw [List.length_append, List.length_drop, List.length_replicate, List.length_replicate, htx]
        exact Nat.add_sub_cancel' hroom
      · rw [List.length_append, List.length_replicate, hlen]
        rfl

theorem step_sendRequest {m : Master} (hnext : m.next = .sendRequest) (s : σ) :
    m.step D s = m.sendRequest D s := by
  rw [Master.step, hnext]

@[simp] theorem length_package (data : List UInt8) :
    (package data).length = headerLength + data.length := by
  simp [package, signature, headerLength]
  omega

theorem transfer_of_long (s : σ) {request : Text} (hlong : dataMaxLength < request.length) :
    ∃ m', (Master.start none).transfer D s request = .ok (m', s) ∧
      m'.Outcome [] (.error .emsgsize) := by
  let m : Master := { Master.start none with request := request, next := .makeRequest }
  have hstep : m.step D s = .ok ({ m with
      current := .makeRequest
      ec := some .emsgsize
      next := .error }, s) := by
    change Except.ok (m.makeRequest, s) = _
    rw [Master.makeRequest, if_pos hlong]
  rw [Master.transfer, loop_next (not_settled .idle rfl (by decide)) hstep]
  exact loop_error (not_settled .makeRequest rfl (by decide)) rfl rfl rfl _ s

/-- **The first request.**  It has one outcome, which the loop comes to without going wrong. -/
theorem transfer_idle (s : σ) (request : Text) :
    ∃ m', (Master.start none).transfer D s request = .ok (m', (exchange D s request).2) ∧
      m'.Outcome [] (exchange D s request).1 := by
  rw [exchange]
  by_cases hlong : dataMaxLength < request.length
  · rw [if_pos hlong]
    exact transfer_of_long s hlong
  rw [if_neg hlong]
  let m : Master := { Master.start none with request := request, next := .makeRequest }
  let m₁ : Master := { m with
    current := .makeRequest
    buffer := some ⟨package request, headerLength + request.length⟩
    next := .sendRequest }
  have hstep : m.step D s = .ok (m₁, s) := by
    change Except.ok (m.makeRequest, s) = _
    rw [Master.makeRequest, if_neg hlong]
  have hstep₁ := step_sendRequest (D := D) (m := m₁) rfl s
  have hnot : ∀ m' : Master, m'.current = .sendRequest → ¬ m'.Settled := fun m' hm' ↦
    not_settled _ hm' (by decide)
  have hsettled₁ : ¬ m₁.Settled := not_settled .makeRequest rfl (by decide)
  rw [Master.transfer, loop_next (not_settled .idle rfl (by decide)) hstep]
  rw [Master.sendRequest] at hstep₁
  rcases hinit : D.init s with ⟨e, s'⟩
  rw [hinit] at hstep₁
  cases e with
  | some e =>
    rw [loop_next hsettled₁ hstep₁]
    exact loop_error (hnot _ rfl) rfl rfl rfl _ s'
  | none =>
    have h251 : request.length ≤ 251 := Nat.le_of_not_lt hlong
    have htake : (package request).take (headerLength + request.length) = package request :=
      List.take_of_length_le (Nat.le_of_eq (length_package request))
    have hbuffer : m₁.buffer = some ⟨package request, headerLength + request.length⟩ := rfl
    have hrx : m₁.spi.rxBuf.data.length = 256 := List.length_replicate ..
    dsimp only at hstep₁
    rw [hbuffer] at hstep₁
    dsimp only [Spi.writeBlocking] at hstep₁
    rw [writeReadBlocking_of_le (by simp) (by rw [hrx]; simp [headerLength]; omega)] at hstep₁
    dsimp only at hstep₁ ⊢
    rw [htake, hrx] at hstep₁
    rcases hmessage : D.message s' (package request) with ⟨received, s''⟩
    rw [hmessage] at hstep₁
    cases received with
    | error e =>
      rw [loop_next hsettled₁ hstep₁]
      exact loop_error (hnot _ rfl) rfl rfl rfl _ s''
    | ok received =>
      have hlen : received.length = headerLength + request.length :=
        (D.length_message _ _ _ _ hmessage).trans (length_package request)
      have hrx₂ : (received ++
          List.replicate (256 - (headerLength + request.length)) 0).length = 256 := by
        rw [List.length_append, List.length_replicate, hlen, headerLength]
        omega
      rw [loop_next hsettled₁ hstep₁]
      exact loop_receiveHeader (hnot _ rfl) rfl rfl (length_package request)
        (Nat.le_add_right _ _) hrx₂ 0 s''

/-- **The other requests.**  A loop that has come to its end never starts again. -/
theorem transfer_settled {m : Master} (h : m.Settled) (s : σ) (request : Text) :
    m.transfer D s request = .ok ({ m with request := request, next := .makeRequest }, s) :=
  loop_of_settled (m := { m with request := request, next := .makeRequest }) h 5 s

end

/-! ## The first request of the Raspberry Pi Pico -/

/-- What the callback makes of a request; without one it is the request. -/
def answerOf (callback : Option Callback) (request : Text) : Text × Option PicoError :=
  match callback with
  | none => (request, none)
  | some f => f request []

/-- The answer to some data, which has to fit into a package. -/
def answerTo (callback : Option Callback) (data : List UInt8) : Except PicoError Text :=
  match answerOf callback (cstr data) with
  | (_, some e) => .error e
  | (answer, none) => if dataMaxLength < answer.length then .error .emsgsize else .ok answer

/-- The package of an answer fills the buffer, and there is no NUL in it. -/
def Overprinted (answer : Text) : Prop :=
  answer.length = dataMaxLength ∧ (0 : UInt8) ∉ package answer

instance (answer : Text) : Decidable (Overprinted answer) := by
  unfold Overprinted
  infer_instance

section

variable {ω : Type} (S : SpiInst ω)

/-- The bytes that `spi_read_blocking` reads. -/
def SpiInst.read (w : ω) (length : ℕ) : Option (List UInt8 × ω) :=
  (S.readBlocking w length).map fun r ↦ (r.1.2, r.2)

/-- The data of a request is read: what it is answered with. -/
def heardData (callback : Option Callback) (length crc : UInt8) (w : ω) :
    Option (Except PicoError Text × ω) :=
  if dataMaxLength < length.toNat then some (.error .ebadmsg, w)
  else
    match S.read w length.toNat with
    | none => none
    | some (data, w) =>
      if calculateCrc data ≠ crc then some (.error .ebadmsg, w)
      else some (answerTo callback data, w)

/-- A request is read, unless that waits for ever: what it is answered with. -/
def heard (callback : Option Callback) (w : ω) : Option (Except PicoError Text × ω) :=
  match S.read w headerLength with
  | none => none
  | some (header, w) =>
    if header.take 2 ≠ signature then some (.error .eproto, w)
    else heardData S callback (header.getD 2 0) (header.getD 3 0) w

/-- An answer is printed and sent. -/
def say (answer : Text) (w : ω) : Except Stop ω :=
  if Overprinted answer then .error (.fault (.outOfBounds bufferSize))
  else
    match S.writeBlocking w (package answer) with
    | none => .error .waits
    | some (_, w) => .ok w

/-- What is left to do when a request was read. -/
def reply : Option (Except PicoError Text × ω) → Except Stop (Except PicoError Text × ω)
  | none => .error .waits
  | some (.error e, w) => .ok (.error e, w)
  | some (.ok answer, w) => do .ok (.ok answer, ← say S answer w)

/-- **What `process` does the first time**: it reads a request and sends the answer. -/
def serve (callback : Option Callback) (w : ω) : Except Stop (Except PicoError Text × ω) :=
  reply S (heard S callback w)

end

/-- The loop has come to its end. -/
def Slave.Settled (p : Slave) : Prop := p.current = .complete ∨ p.current = .error

/-- How the loop has come to its end. -/
def Slave.Outcome (p : Slave) : Except PicoError Text → Prop
  | .ok answer => p.answer = answer ∧ p.ec = none ∧ p.current = .complete
  | .error e => p.ec = some e ∧ p.current = .error

theorem Slave.Outcome.settled {p : Slave} {r : Except PicoError Text} (h : p.Outcome r) :
    p.Settled := by
  cases r with
  | ok answer => exact .inl h.2.2
  | error e => exact .inr h.2

namespace Slave

variable {ω : Type} {S : SpiInst ω}

/-- The loop ends in one way, or it stops in the middle. -/
def Ends (x : Except Stop (Slave × ω)) : Except Stop (Except PicoError Text × ω) → Prop
  | .error stop => x = .error stop
  | .ok (r, w) => ∃ p, x = .ok (p, w) ∧ p.Outcome r

theorem loop_of_settled {p : Slave} (h : p.Settled) (n : ℕ) (w : ω) :
    loop S (n + 1) p w = .ok (p, w) := by
  rw [loop]
  exact if_pos h

theorem loop_next {p p' : Slave} {w w' : ω} (h : ¬ p.Settled)
    (hstep : p.step S w = .ok (p', w')) (n : ℕ) : loop S (n + 1) p w = loop S n p' w' := by
  rw [loop]
  refine (if_neg h).trans ?_
  rw [hstep]
  rfl

theorem loop_stop {p : Slave} {w : ω} {stop : Stop} (h : ¬ p.Settled)
    (hstep : p.step S w = .error stop) (n : ℕ) : loop S (n + 1) p w = .error stop := by
  rw [loop]
  refine (if_neg h).trans ?_
  rw [hstep]
  rfl

theorem not_settled {p : Slave} (state : SlaveState) (h : p.current = state)
    (hstate : ¬ (state = .complete ∨ state = .error)) : ¬ p.Settled := by
  rwa [Settled, h]

theorem loop_error {p : Slave} {e : PicoError} (h : ¬ p.Settled) (hnext : p.next = .error)
    (hec : p.ec = some e) (n : ℕ) (w : ω) :
    Ends (loop S (n + 2) p w) (.ok (.error e, w)) := by
  have hstep : p.step S w = .ok ({ p with current := .error }, w) := by
    cases p
    cases hnext
    rfl
  refine ⟨{ p with current := .error }, ?_, hec, rfl⟩
  rw [loop_next h hstep]
  exact loop_of_settled (.inr rfl) n w

theorem loop_complete {p : Slave} {answer : Text} (h : ¬ p.Settled)
    (hnext : p.next = .complete) (hanswer : p.answer = answer) (hec : p.ec = none) (n : ℕ) (w : ω) :
    Ends (loop S (n + 2) p w) (.ok (.ok answer, w)) := by
  have hstep : p.step S w = .ok ({ p with current := .complete }, w) := by
    cases p
    cases hnext
    rfl
  refine ⟨{ p with current := .complete }, ?_, hanswer, hec, rfl⟩
  rw [loop_next h hstep]
  exact loop_of_settled (.inl rfl) n w

/-- There is a NUL behind a package, unless it fills the buffer. -/
theorem overprinted_iff {answer : Text} (hlen : answer.length ≤ dataMaxLength) :
    Overprinted answer ↔
      0 ∉ package answer ++ List.replicate (bufferSize - (package answer).length) 0 := by
  rw [Overprinted, List.mem_append, List.mem_replicate, length_package, headerLength, bufferSize]
  have h251 : answer.length ≤ 251 := hlen
  have hmax : answer.length = dataMaxLength ↔ answer.length = 251 := Iff.rfl
  rw [hmax]
  constructor
  · rintro ⟨hfull, hnot⟩ (hmem | ⟨hroom, -⟩)
    · exact hnot hmem
    · omega
  · intro h
    exact ⟨by_contra fun hroom ↦ h (.inr ⟨by omega, rfl⟩), fun hmem ↦ h (.inl hmem)⟩

theorem loop_sendAnswer {p : Slave} {answer : Text} (h : ¬ p.Settled)
    (hnext : p.next = .sendAnswer) (hec : p.ec = none) (hanswer : p.answer = answer)
    (hlen : answer.length ≤ dataMaxLength)
    (htx : p.txBuffer =
      package answer ++ List.replicate (bufferSize - (package answer).length) 0)
    (hlength : p.length.toNat = (package answer).length) (n : ℕ) (w : ω) :
    Ends (loop S (n + 3) p w) (say S answer w >>= fun w ↦ .ok (.ok answer, w)) := by
  have hstep : p.step S w = p.sendAnswer S w := by
    rw [step, hnext]
  rw [sendAnswer] at hstep
  rw [say]
  by_cases hprint : Overprinted answer
  · rw [htx, if_pos ((overprinted_iff hlen).mp hprint)] at hstep
    rw [if_pos hprint]
    exact loop_stop h hstep _
  rw [htx, if_neg ((overprinted_iff hlen).not.mp hprint), hlength, List.take_left] at hstep
  rw [if_neg hprint]
  cases hwrite : S.writeBlocking w (package answer) with
  | none =>
    rw [hwrite] at hstep
    exact loop_stop h hstep _
  | some r =>
    obtain ⟨transmitted, w'⟩ := r
    rw [hwrite] at hstep
    dsimp only at hstep
    rw [if_neg (not_not.mpr (S.writeBlocking_length _ _ _ _ hwrite))] at hstep
    rw [loop_next h hstep]
    refine loop_complete (not_settled .sendAnswer rfl (by decide)) rfl ?_ ?_ n w'
    · exact hanswer
    · exact hec

theorem loop_makeAnswer {p : Slave} (h : ¬ p.Settled) (hnext : p.next = .makeAnswer)
    (hec : p.ec = none) (n : ℕ) (w : ω) :
    Ends (loop S (n + 4) p w)
      (reply S (some (if dataMaxLength < p.answer.length then .error .emsgsize else .ok p.answer,
        w))) := by
  have hstep : p.step S w = p.makeAnswer >>= fun p ↦ .ok (p, w) := by
    rw [step, hnext]
  rw [makeAnswer] at hstep
  by_cases hlong : dataMaxLength < p.answer.length
  · rw [if_pos hlong] at hstep ⊢
    rw [loop_next h hstep]
    exact loop_error (not_settled .makeAnswer rfl (by decide)) rfl rfl (n + 1) w
  · have hlen := Nat.le_of_not_lt hlong
    have h251 : p.answer.length ≤ 251 := hlen
    have hfits : ¬ (List.replicate bufferSize (0 : UInt8)).length < (package p.answer).length := by
      rw [List.length_replicate, length_package, headerLength, bufferSize]
      omega
    rw [if_neg hlong, overwrite, if_neg hfits, List.drop_replicate] at hstep
    rw [if_neg hlong, loop_next h hstep]
    refine loop_sendAnswer (not_settled .makeAnswer ?_ (by decide)) ?_ ?_ ?_ hlen ?_ ?_ n w
    · rfl
    · rfl
    · exact hec
    · rfl
    · rfl
    · rw [length_package, UInt8.toNat_ofNat', headerLength]
      exact Nat.mod_eq_of_lt (Nat.lt_of_le_of_lt (Nat.add_le_add_left h251 4) (by decide))

theorem step_handleRequest {p : Slave} (hnext : p.next = .handleRequest) (w : ω) :
    p.step S w = p.handleRequest >>= fun p ↦ .ok (p, w) := by
  rw [step, hnext]

theorem loop_handleRequest {p : Slave} {data : List UInt8} {pad : ℕ} (h : ¬ p.Settled)
    (hnext : p.next = .handleRequest) (hec : p.ec = none) (hanswer : p.answer = [])
    (hrx : p.rxBuffer = data ++ List.replicate (pad + 1) 0) (n : ℕ) (w : ω) :
    Ends (loop S (n + 5) p w) (reply S (some (answerTo p.callback data, w))) := by
  have hzero : 0 ∈ p.rxBuffer := by simp [hrx]
  have hstep := step_handleRequest (S := S) hnext w
  rw [handleRequest, if_neg (not_not.mpr hzero), hrx, cstr_append_replicate, hanswer] at hstep
  rw [answerTo]
  dsimp only at hstep
  cases hcallback : p.callback with
  | none =>
    rw [hcallback] at hstep
    rw [loop_next h hstep]
    refine loop_makeAnswer (not_settled .handleRequest rfl (by decide)) rfl ?_ n w
    exact hec
  | some f =>
    rw [hcallback] at hstep
    rw [answerOf]
    dsimp only at hstep ⊢
    rcases hf : f (cstr data) [] with ⟨answer, e⟩
    rw [hf] at hstep
    cases e with
    | some e =>
      rw [loop_next h hstep]
      exact loop_error (not_settled .handleRequest rfl (by decide)) rfl rfl (n + 2) w
    | none =>
      rw [loop_next h hstep]
      refine loop_makeAnswer (not_settled .handleRequest rfl (by decide)) rfl ?_ n w
      exact hec

theorem step_receiveData {p : Slave} (hnext : p.next = .receiveData) (w : ω) :
    p.step S w = p.receiveData S w := by
  rw [step, hnext]

theorem loop_receiveData {p : Slave} (h : ¬ p.Settled) (hnext : p.next = .receiveData)
    (hec : p.ec = none) (hanswer : p.answer = []) (n : ℕ) (w : ω) :
    Ends (loop S (n + 6) p w) (reply S (heardData S p.callback p.length p.crc w)) := by
  have hstep := step_receiveData (S := S) hnext w
  have hnot : ∀ p' : Slave, p'.current = .receiveData → ¬ p'.Settled := fun p' hp' ↦
    not_settled _ hp' (by decide)
  rw [receiveData] at hstep
  rw [heardData]
  by_cases hmax : dataMaxLength < p.length.toNat
  · rw [if_pos hmax] at hstep ⊢
    rw [loop_next h hstep]
    exact loop_error (hnot _ rfl) rfl rfl _ w
  rw [if_neg hmax, SpiInst.read]
  rw [if_neg hmax] at hstep
  cases hread : S.readBlocking w p.length.toNat with
  | none =>
    rw [hread] at hstep
    exact loop_stop h hstep _
  | some r =>
    obtain ⟨⟨received, data⟩, w'⟩ := r
    obtain ⟨hreceived, hlen⟩ := S.readBlocking_length _ _ _ _ _ hread
    have h251 : p.length.toNat ≤ 251 := Nat.le_of_not_lt hmax
    have hfits : ¬ (List.replicate bufferSize (0 : UInt8)).length < data.length := by
      rw [hlen, List.length_replicate, bufferSize]
      omega
    -- there is always a zero behind the data
    obtain ⟨pad, hpad⟩ : ∃ pad, bufferSize - p.length.toNat = pad + 1 :=
      ⟨bufferSize - p.length.toNat - 1, by rw [bufferSize]; omega⟩
    have htake : ∀ rest : List UInt8, (data ++ rest).take p.length.toNat = data := fun rest ↦
      List.take_left' hlen
    rw [hread] at hstep
    dsimp only [Option.map] at hstep ⊢
    rw [overwrite, if_neg hfits, hlen, List.drop_replicate, hpad] at hstep
    change _ = (if received ≠ p.length.toNat then _ else _) at hstep
    rw [if_neg (not_not.mpr hreceived), htake] at hstep
    by_cases hcrc : calculateCrc data ≠ p.crc
    · rw [if_pos hcrc] at hstep ⊢
      rw [loop_next h hstep]
      exact loop_error (hnot _ rfl) rfl rfl _ _
    · rw [if_neg hcrc] at hstep ⊢
      rw [loop_next h hstep]
      refine loop_handleRequest (hnot _ rfl) rfl ?_ ?_ rfl n w'
      · exact hec
      · exact hanswer

theorem step_receiveHeader {p : Slave} (hnext : p.next = .receiveHeader) (w : ω) :
    p.step S w = p.receiveHeader S w := by
  rw [step, hnext]

/-- **The first request.**  It has one outcome, which the loop comes to unless it stops. -/
theorem process_idle (callback : Option Callback) (w : ω) :
    Ends ((start callback).process S w) (serve S callback w) := by
  let p : Slave := { start callback with next := .receiveHeader }
  have hp : ¬ p.Settled := not_settled .idle rfl (by decide)
  have hnot : ∀ p' : Slave, p'.current = .receiveHeader → ¬ p'.Settled := fun p' hp' ↦
    not_settled _ hp' (by decide)
  have hstep := step_receiveHeader (S := S) (p := p) rfl w
  rw [process, serve, heard, SpiInst.read]
  rw [receiveHeader] at hstep
  cases hread : S.readBlocking w headerLength with
  | none =>
    rw [hread] at hstep
    exact loop_stop hp hstep 6
  | some r =>
    obtain ⟨⟨received, header⟩, w'⟩ := r
    obtain ⟨hreceived, hlen⟩ := S.readBlocking_length _ _ _ _ _ hread
    have hlen : header.length = 4 := hlen
    rw [hread] at hstep
    dsimp only [Option.map] at hstep ⊢
    by_cases hsignature : header.take 2 ≠ signature
    · rw [if_pos (.inr hsignature)] at hstep
      rw [if_pos hsignature, loop_next hp hstep]
      exact loop_error (hnot _ rfl) rfl rfl _ _
    · rw [if_neg (not_or.mpr ⟨not_not.mpr hreceived, hsignature⟩)] at hstep
      rw [List.getElem?_eq_getElem (by omega), List.getElem?_eq_getElem (by omega)] at hstep
      rw [if_neg hsignature, List.getD_eq_getElem _ _ (by omega),
        List.getD_eq_getElem _ _ (by omega), loop_next hp hstep]
      exact loop_receiveData (hnot _ rfl) rfl rfl rfl 0 w'

/-- A loop that has come to its end never starts again. -/
theorem process_settled {p : Slave} (h : p.Settled) (w : ω) :
    p.process S w = .ok ({ p with next := .receiveHeader }, w) :=
  loop_of_settled (p := { p with next := .receiveHeader }) h 6 w

theorem processTimes_of_outcome {p : Slave} {r : Except PicoError Text} (h : p.Outcome r) (w : ω)
    (n : ℕ) : ∃ p', processTimes S n p w = .ok (p', w) ∧ p'.Outcome r := by
  induction n generalizing p with
  | zero => exact ⟨p, rfl, h⟩
  | succ n ih =>
    have h' : ({ p with next := .receiveHeader } : Slave).Outcome r := by
      cases r <;> exact h
    obtain ⟨p', htimes, houtcome⟩ := ih h'
    refine ⟨p', ?_, houtcome⟩
    rw [processTimes, process_settled h.settled]
    exact htimes

theorem processTimes_ends {p : Slave} {w : ω} {r : Except Stop (Except PicoError Text × ω)}
    (h : Ends (p.process S w) r) (n : ℕ) : Ends (processTimes S (n + 1) p w) r := by
  rw [processTimes]
  cases r with
  | error stop =>
    rw [Ends] at h
    rw [h]
    rfl
  | ok r =>
    obtain ⟨p', hprocess, houtcome⟩ := h
    obtain ⟨p'', htimes, houtcome'⟩ := processTimes_of_outcome (S := S) houtcome r.2 n
    exact ⟨p'', by rw [hprocess]; exact htimes, houtcome'⟩

end Slave

section

variable {ω : Type} {S : SpiInst ω}

/-- What is answered is an answer of the callback that fits into a package. -/
theorem answerOf_of_answerTo {callback : Option Callback} {data : List UInt8} {answer : Text}
    (h : answerTo callback data = .ok answer) :
    answerOf callback (cstr data) = (answer, none) ∧ answer.length ≤ dataMaxLength := by
  rw [answerTo] at h
  rcases hanswer : answerOf callback (cstr data) with ⟨answer', e⟩
  rw [hanswer] at h
  cases e with
  | some e => cases h
  | none =>
    dsimp only at h
    by_cases hlong : dataMaxLength < answer'.length
    · rw [if_pos hlong] at h
      cases h
    · rw [if_neg hlong] at h
      cases h
      exact ⟨rfl, Nat.le_of_not_lt hlong⟩

/-- **The Raspberry Pi Pico answers one request.**  However often `process` is called, it reads and
sends what it does the first time.  It goes wrong in one place: it prints the package of its answer
as a text, and a package that fills the buffer may have no NUL in it. -/
theorem processTimes_run (S : SpiInst ω) (callback : Option Callback) (w : ω) (n : ℕ) :
    Slave.Ends (Slave.processTimes S (n + 1) (Slave.start callback) w) (serve S callback w) ∧
      ∀ fault, Slave.processTimes S (n + 1) (Slave.start callback) w = .error (.fault fault) ↔
        fault = .outOfBounds bufferSize ∧
          ∃ answer w', heard S callback w = some (.ok answer, w') ∧ Overprinted answer := by
  have hends := Slave.processTimes_ends (Slave.process_idle (S := S) callback w) n
  refine ⟨hends, fun fault ↦ ?_⟩
  have hstop : Slave.processTimes S (n + 1) (Slave.start callback) w = .error (.fault fault) ↔
      serve S callback w = .error (.fault fault) := by
    cases hserve : serve S callback w with
    | error stop =>
      rw [hserve, Slave.Ends] at hends
      rw [hends]
      simp
    | ok r =>
      rw [hserve] at hends
      obtain ⟨p, hp, -⟩ := hends
      rw [hp]
      simp
  rw [hstop, serve]
  rcases hheard : heard S callback w with _ | ⟨e | answer, w'⟩
  · simp [reply]
  · simp [reply]
  · rw [reply, say]
    by_cases hprint : Overprinted answer
    · rw [if_pos hprint]
      constructor
      · rintro h
        cases h
        exact ⟨rfl, answer, w', rfl, hprint⟩
      · rintro ⟨rfl, -⟩
        rfl
    · rw [if_neg hprint]
      constructor
      · intro h
        cases hwrite : S.writeBlocking w' (package answer) with
        | none =>
          rw [hwrite] at h
          cases h
        | some r =>
          rw [hwrite] at h
          cases h
      · rintro ⟨-, answer', w'', heq, hprint'⟩
        cases heq
        exact absurd hprint' hprint

end

end Pico
end Coap
