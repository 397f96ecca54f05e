import Mathlib.Data.List.Basic
import Mathlib.Logic.Function.Basic
import Mathlib.Algebra.Group.Nat.Basic

/-!
# Wire vocabulary

What `broker.rs` takes from the crate root: frame kinds, operations, QoS levels, error
kinds and the `FrameData` record that a client's queue carries, together with the two
checks the broker applies to raw bytes, `std::str::from_utf8` (`utf8Valid`) and the
decoding of an operation's flags byte (`FrameOp.tryFrom`, `QoS.tryFrom`).

The crate root itself is not among the sources, so its byte constants form a parameter,
`Wire`. The spec fixes `Nop = 0`, op codes below 64 and the two QoS values; nothing else
about the constants is assumed, and every theorem of the development holds for every such
table.

Strings are their UTF-8 bytes: `clients.get(target)` compares bytes, and
`starts_with('.')` on a valid string is a test of its first byte.
-/

namespace Elbus

/-- A byte string: a `Vec<u8>` or `&[u8]`, and a `String` by its UTF-8 bytes. -/
abbrev Bytes := List UInt8

/-- `FrameKind`, the kinds the broker puts on a queue. -/
inductive FrameKind where
  | prepared
  | message
  | broadcast
  | publish
deriving DecidableEq, Repr

/-- `FrameOp`, the operation of a client's frame (low six bits of the flags byte). -/
inductive FrameOp where
  | nop
  | message
  | broadcast
  | publishTopic
  | subscribeTopic
  | unsubscribeTopic
deriving DecidableEq, Repr

/-- Every operation, in the order of the enum. -/
def FrameOp.all : List FrameOp :=
  [.nop, .message, .broadcast, .publishTopic, .subscribeTopic, .unsubscribeTopic]

/-- `QoS`, the two levels of the spec (high two bits of the flags byte). -/
inductive QoS where
  | no
  | processed
deriving DecidableEq, Repr

/-- `ErrorKind`, the kinds the broker's paths produce. -/
inductive ErrorKind where
  | notRegistered
  | notSupported
  | data
  | busy
  | io
  | timeout
  | eof
deriving DecidableEq, Repr

/-- `Error`. Its message only reaches the log, so only the kind is kept. -/
structure Error where
  kind : ErrorKind
deriving DecidableEq, Repr

/-- The byte constants of the crate root: `GREETINGS[0]`, `PROTOCOL_VERSION`,
`RESPONSE_OK`, `ERR_DATA`, `ERR_NOT_SUPPORTED`, `OP_ACK`, the discriminants of `ErrorKind`,
`FrameKind` and `FrameOp`, and the kind of the `Error` that a send on a closed channel turns
into. The spec fixes `Nop = 0` and puts the op code in the lower six bits of the flags byte;
the discriminants of a `#[repr(u8)]` enum are distinct. -/
structure Wire where
  greetings : UInt8
  protocolVersion : UInt16
  responseOk : UInt8
  errData : UInt8
  errNotSupported : UInt8
  opAck : UInt8
  kindCode : ErrorKind → UInt8
  frameKindCode : FrameKind → UInt8
  opCode : FrameOp → UInt8
  sendErrorKind : ErrorKind
  opCode_nop : opCode .nop = 0
  opCode_lt : ∀ op, (opCode op).toNat < 64
  opCode_injective : Function.Injective opCode
  frameKindCode_injective : Function.Injective frameKindCode

/-- `TryFrom<u8> for FrameOp`: the operation with this code.
Modelled from the spec: the crate root is not among the sources; an unknown code is
`ERR_NOT_SUPPORTED` (§7). -/
def FrameOp.tryFrom (W : Wire) (code : UInt8) : Except Error FrameOp :=
  match FrameOp.all.find? (fun op => W.opCode op == code) with
  | some op => .ok op
  | none => .error ⟨.notSupported⟩

/-- `TryFrom<u8> for QoS`.
Modelled from the spec: `No = 0`, `Processed = 1` (§4.3), any other value is malformed. -/
def QoS.tryFrom (code : UInt8) : Except Error QoS :=
  if code = 0 then .ok .no else if code = 1 then .ok .processed else .error ⟨.data⟩

theorem FrameOp.tryFrom_opCode (W : Wire) (op : FrameOp) :
    FrameOp.tryFrom W (W.opCode op) = .ok op := by
  unfold FrameOp.tryFrom
  have hfind : FrameOp.all.find? (fun o => W.opCode o == W.opCode op) = some op := by
    cases op <;> simp [FrameOp.all, W.opCode_injective.eq_iff]
  rw [hfind]

/-- `FrameData`: one frame on a queue. `buf` holds the bytes as received, and the payload
starts at `payloadPos`. -/
structure FrameData where
  kind : FrameKind
  sender : Option Bytes
  topic : Option Bytes
  header : Option Bytes
  buf : Bytes
  payloadPos : Nat
deriving DecidableEq, Repr

/-- `FrameData::payload`, `&buf[payload_pos..]`; `none` where the slice panics. -/
def FrameData.payload (f : FrameData) : Option Bytes :=
  if f.payloadPos ≤ f.buf.length then some (f.buf.drop f.payloadPos) else none

/-! ### UTF-8 -/

/-- Where a UTF-8 decoder stands between two bytes: at a character boundary, or inside a
character, where the next byte must lie in `[lo, hi]` and `more` tail bytes follow it. -/
inductive Utf8State where
  | boundary
  | owing (more : Nat) (lo hi : UInt8)
deriving DecidableEq, Repr

/-- The state after the first byte of a character (RFC 3629 §4, Unicode Table 3-7). -/
def utf8Lead (b : UInt8) : Option Utf8State :=
  if b ≤ 0x7F then some .boundary
  else if 0xC2 ≤ b ∧ b ≤ 0xDF then some (.owing 0 0x80 0xBF)
  else if b = 0xE0 then some (.owing 1 0xA0 0xBF)
  else if b = 0xED then some (.owing 1 0x80 0x9F)
  else if 0xE1 ≤ b ∧ b ≤ 0xEF then some (.owing 1 0x80 0xBF)
  else if b = 0xF0 then some (.owing 2 0x90 0xBF)
  else if b = 0xF4 then some (.owing 2 0x80 0x8F)
  else if 0xF1 ≤ b ∧ b ≤ 0xF3 then some (.owing 2 0x80 0xBF)
  else none

/-- One byte of the decoder; `none` where no UTF-8 text continues so. -/
def utf8Step : Utf8State → UInt8 → Option Utf8State
  | .boundary, b => utf8Lead b
  | .owing 0 lo hi, b => if lo ≤ b ∧ b ≤ hi then some .boundary else none
  | .owing (more + 1) lo hi, b => if lo ≤ b ∧ b ≤ hi then some (.owing more 0x80 0xBF) else none

/-- The decoder after every byte of a sequence. -/
def utf8Run : Utf8State → Bytes → Option Utf8State
  | st, [] => some st
  | st, b :: rest => (utf8Step st b).bind (utf8Run · rest)

/-- `std::str::from_utf8` succeeds: the bytes are a sequence of whole UTF-8 characters. -/
def utf8Valid (bs : Bytes) : Bool := utf8Run .boundary bs = some .boundary

/-! ### Little-endian integers -/

/-- `(n as u16).to_le_bytes()`. -/
def le16 (n : Nat) : Bytes := [UInt8.ofNat n, UInt8.ofNat (n / 256)]

/-- `(n as u32).to_le_bytes()`. -/
def le32 (n : Nat) : Bytes :=
  [UInt8.ofNat n, UInt8.ofNat (n / 256), UInt8.ofNat (n / 256 ^ 2), UInt8.ofNat (n / 256 ^ 3)]

/-- `u16::from_le_bytes` on the first two bytes. -/
def u16le : Bytes → Nat
  | b₀ :: b₁ :: _ => b₀.toNat + 256 * b₁.toNat
  | _ => 0

/-- `u32::from_le_bytes` on the first four bytes. -/
def u32le : Bytes → Nat
  | b₀ :: b₁ :: b₂ :: b₃ :: _ =>
    b₀.toNat + 256 * b₁.toNat + 256 ^ 2 * b₂.toNat + 256 ^ 3 * b₃.toNat
  | _ => 0

@[simp] theorem toNat_uint8_ofNat (n : Nat) : (UInt8.ofNat n).toNat = n % 256 := rfl

/-- The length field keeps the low 32 bits: `as u32` truncates. -/
theorem u32le_le32 (n : Nat) : u32le (le32 n) = n % 2 ^ 32 := by
  simp only [le32, u32le, toNat_uint8_ofNat]
  omega

theorem u16le_le16 (n : Nat) : u16le (le16 n) = n % 2 ^ 16 := by
  simp only [le16, u16le, toNat_uint8_ofNat]
  omega

@[simp] theorem le32_length (n : Nat) : (le32 n).length = 4 := rfl

@[simp] theorem le16_length (n : Nat) : (le16 n).length = 2 := rfl

end Elbus
