import CoapCpp.Memory

/-!
# Options, messages and packets

The data model of `api/packet.h` and the constants of `api/consts.h` it is built on: `Option`
(here `CoapOption`), and `Message` with its subclass `Packet`, which are one structure here because
nothing in the library makes a `Message` that is not a `Packet`.

The header of a message and the header of an option are unions of a byte with a bit-field struct.
They are modelled by the byte, with the bit-fields as functions of it, laid out low bits first.

`ec` is an `Option ErrorCode`, and a cleared `ec` is `none`.  A build of the library keeps its
asserts (`remove_definitions(-DNDEBUG)`), so a failed `assert` is `Memory.Fault.assertion`.
-/

set_option autoImplicit false

namespace Coap

/-! ## Constants -/

/-- `COAP_VERSION` -/
@[simp] abbrev coapVersion : ℕ := 1

/-- `PACKET_HEADER_SIZE` -/
@[simp] abbrev packetHeaderSize : ℕ := 4

/-- `PACKET_MIN_LENGTH` -/
@[simp] abbrev packetMinLength : ℕ := packetHeaderSize

/-- `HEADER_OFFSET` -/
@[simp] abbrev headerOffset : ℕ := 0

/-- `CODE_OFFSET` -/
@[simp] abbrev codeOffset : ℕ := 1

/-- `MESSAGE_ID_OFFSET` -/
@[simp] abbrev messageIdOffset : ℕ := 2

/-- `TOKEN_OFFSET` -/
@[simp] abbrev tokenOffset : ℕ := 4

/-- `TOKEN_MAX_LENGTH` -/
@[simp] abbrev tokenMaxLength : ℕ := 8

/-- `MINUS_THIRTEEN_OPT_VALUE` -/
@[simp] abbrev minusThirteenOptValue : ℕ := 13

/-- `MINUS_TWO_HUNDRED_SIXTY_NINE_OPT_VALUE` -/
@[simp] abbrev minusTwoHundredSixtyNineOptValue : ℕ := 269

/-- `OPTION_MAX_LENGTH` -/
@[simp] abbrev optionMaxLength : ℕ := 256

/-- `PAYLOAD_MARKER`, one byte. -/
@[simp] abbrev payloadMarker : UInt8 := 0xFF

/-- `OptionDelta::MINUS_THIRTEEN` -/
@[simp] abbrev minusThirteen : ℕ := 13

/-- `OptionDelta::MINUS_TWO_HUNDRED_SIXTY_NINE` -/
@[simp] abbrev minusTwoHundredSixtyNine : ℕ := 14

/-- `OptionDelta::RESERVED_FOR_FUTURE` -/
@[simp] abbrev reservedForFuture : ℕ := 15

/-- `OptionNumber::URI_PORT` -/
@[simp] abbrev uriPort : ℕ := 7

/-- `OptionNumber::URI_PATH` -/
@[simp] abbrev uriPath : ℕ := 11

/-- `OptionNumber::BLOCK_2` -/
@[simp] abbrev block2 : ℕ := 23

/-- `OptionNumber::BLOCK_1` -/
@[simp] abbrev block1 : ℕ := 27

/-- `OptionNumber::SIZE_2` -/
@[simp] abbrev size2 : ℕ := 28

/-- `OptionNumber::SIZE_1` -/
@[simp] abbrev size1 : ℕ := 60

/-- `OptionNumber::OPTION_MAX_NUMBER` -/
@[simp] abbrev optionMaxNumber : ℕ := size1

/-- `MessageType` -/
inductive MessageType where
  /-- `CONFIRMABLE` -/
  | confirmable
  /-- `NON_CONFIRMABLE` -/
  | nonConfirmable
  /-- `ACKNOWLEDGEMENT` -/
  | acknowledgement
  /-- `RESET` -/
  | reset
deriving DecidableEq, Repr

/-- The value of a `MessageType`. -/
def MessageType.value : MessageType → ℕ
  | confirmable => 0
  | nonConfirmable => 1
  | acknowledgement => 2
  | reset => 3

theorem MessageType.value_lt (t : MessageType) : t.value < 4 := by cases t <;> decide

/-! ## Error codes -/

/-- The system errors that the code in this project reports. -/
inductive Errno where
  /-- A null pointer. -/
  | efault
  /-- An invalid argument. -/
  | einval
deriving DecidableEq, Repr

/-- The members of `CoapStatus` that the code in this project reports. -/
inductive CoapStatus where
  /-- `COAP_ERR_OPTION_NUMBER` -/
  | optionNumber
  /-- `COAP_ERR_PROTOCOL_VERSION` -/
  | protocolVersion
  /-- `COAP_ERR_TOKEN_LENGTH` -/
  | tokenLength
  /-- `COAP_ERR_OPTION_DELTA` -/
  | optionDelta
  /-- `COAP_ERR_OPTION_LENGTH` -/
  | optionLength
  /-- `COAP_ERR_URI_PATH` -/
  | uriPath
  /-- `COAP_ERR_BUFFER_SIZE` -/
  | bufferSize
  /-- `COAP_ERR_MEMORY_ALLOCATE` -/
  | memoryAllocate
  /-- `COAP_ERR_NOT_IMPLEMENTED` -/
  | notImplemented
  /-- `COAP_ERR_NO_PAYLOAD` -/
  | noPayload
  /-- `COAP_ERR_CREATE_JSON` -/
  | createJson
  /-- `COAP_ERR_PARSE_JSON` -/
  | parseJson
  /-- `COAP_ERR_PARSE_CORE_LINK` -/
  | parseCoreLink
deriving DecidableEq, Repr

/-- What `ec` holds when it is set. -/
inductive ErrorCode where
  /-- `make_system_error` -/
  | system (e : Errno)
  /-- `make_error_code` -/
  | coap (s : CoapStatus)
deriving DecidableEq, Repr

/-! ## Options -/

/-- `Option`: the header byte, the number and the value. -/
structure CoapOption where
  /-- `m_header` -/
  header : UInt8 := 0
  /-- `m_number` -/
  number : UInt16 := 0
  /-- `m_value` -/
  value : List UInt8 := []
deriving DecidableEq, Repr

/-- `length`, the low four bits of the header. -/
def CoapOption.length (o : CoapOption) : ℕ := o.header.toNat % 16

/-- `delta`, the high four bits of the header. -/
def CoapOption.delta (o : CoapOption) : ℕ := o.header.toNat / 16

/-- The option as the pair of its number and its value. -/
def CoapOption.pair (o : CoapOption) : ℕ × List UInt8 := (o.number.toNat, o.value)

/-! ## Packets -/

/-- `TokenType`, an array of `TOKEN_MAX_LENGTH` bytes. -/
structure TokenType where
  /-- The bytes of the array. -/
  bytes : List UInt8
  /-- There are always `TOKEN_MAX_LENGTH` of them. -/
  length_eq : bytes.length = tokenMaxLength
deriving DecidableEq

/-- `m_token{0}` -/
def TokenType.zero : TokenType := ⟨List.replicate 8 0, rfl⟩

/-- Overwrite the array from its start on with `src`, of which at most `TOKEN_MAX_LENGTH` bytes
fit. -/
def TokenType.overwrite (t : TokenType) (src : List UInt8) : TokenType where
  bytes := (src ++ t.bytes.drop src.length).take tokenMaxLength
  length_eq := by
    have := t.length_eq
    simp only [List.length_take, List.length_append, List.length_drop, tokenMaxLength] at this ⊢
    omega

theorem TokenType.take_overwrite (t : TokenType) (src : List UInt8)
    (h : src.length ≤ tokenMaxLength) : (t.overwrite src).bytes.take src.length = src := by
  rw [overwrite, List.take_take, Nat.min_eq_left h, List.take_left' rfl]

/-- `Packet` with the members of its base class `Message`. -/
structure Packet where
  /-- `m_header` -/
  header : UInt8
  /-- `m_code` -/
  code : UInt8
  /-- `m_identity` -/
  identity : UInt16
  /-- `m_token` -/
  token : TokenType
  /-- `m_options` -/
  options : List CoapOption
  /-- `m_payloadOffset` -/
  payloadOffset : ℕ
  /-- `m_payload` -/
  payload : List UInt8
  /-- `m_littleEndian`, the byte order of the host. -/
  littleEndian : Bool
deriving DecidableEq

namespace Packet

/-- A freshly constructed packet. -/
def fresh (littleEndian : Bool) : Packet where
  header := 0
  code := 0
  identity := 0
  token := .zero
  options := []
  payloadOffset := 0
  payload := []
  littleEndian := littleEndian

/-- `token_length`, the low four bits of the header. -/
def tokenLength (p : Packet) : ℕ := p.header.toNat % 16

/-- `type`, the two bits above the token length. -/
def type (p : Packet) : ℕ := p.header.toNat / 16 % 4

/-- `version`, the high two bits of the header. -/
def version (p : Packet) : ℕ := p.header.toNat / 64

/-- `token_length(len)` -/
def setTokenLength (p : Packet) (len : ℕ) : Packet :=
  { p with header := UInt8.ofNat (p.header.toNat / 16 * 16 + len % 16) }

/-- `type(value)` -/
def setType (p : Packet) (value : ℕ) : Packet :=
  { p with header := UInt8.ofNat (p.version * 64 + value % 4 * 16 + p.tokenLength) }

/-- `version(value)` -/
def setVersion (p : Packet) (value : ℕ) : Packet :=
  { p with header := UInt8.ofNat (value % 4 * 64 + p.header.toNat % 64) }

/-- The bytes of the token that belong to the message. -/
def tokenBytes (p : Packet) : List UInt8 := p.token.bytes.take p.tokenLength

theorem tokenLength_lt (p : Packet) : p.tokenLength < 16 := Nat.mod_lt _ (by decide)

theorem type_lt (p : Packet) : p.type < 4 := Nat.mod_lt _ (by decide)

theorem version_lt (p : Packet) : p.version < 4 := by
  have := p.header.toNat_lt
  rw [version]
  omega

@[simp] theorem tokenLength_setTokenLength (p : Packet) (len : ℕ) :
    (p.setTokenLength len).tokenLength = len % 16 := by
  have := p.header.toNat_lt
  simp only [tokenLength, setTokenLength, UInt8.toNat_ofNat']
  omega

@[simp] theorem type_setTokenLength (p : Packet) (len : ℕ) :
    (p.setTokenLength len).type = p.type := by
  have := p.header.toNat_lt
  simp only [type, setTokenLength, UInt8.toNat_ofNat']
  omega

@[simp] theorem version_setTokenLength (p : Packet) (len : ℕ) :
    (p.setTokenLength len).version = p.version := by
  have := p.header.toNat_lt
  simp only [version, setTokenLength, UInt8.toNat_ofNat']
  omega

@[simp] theorem type_setType (p : Packet) (value : ℕ) : (p.setType value).type = value % 4 := by
  have := p.version_lt
  have := p.tokenLength_lt
  simp only [type, setType, UInt8.toNat_ofNat']
  omega

@[simp] theorem version_setType (p : Packet) (value : ℕ) :
    (p.setType value).version = p.version := by
  have := p.version_lt
  have := p.tokenLength_lt
  simp only [version, setType, UInt8.toNat_ofNat'] at *
  omega

@[simp] theorem version_setVersion (p : Packet) (value : ℕ) :
    (p.setVersion value).version = value % 4 := by
  have := p.header.toNat_lt
  simp only [version, setVersion, UInt8.toNat_ofNat']
  omega

theorem tokenBytes_length (p : Packet) (h : p.tokenLength ≤ tokenMaxLength) :
    p.tokenBytes.length = p.tokenLength := by
  rw [tokenBytes, List.length_take, p.token.length_eq, Nat.min_eq_left h]

end Packet

end Coap
