import OpenwrtFeed.Crc
import Mathlib.Algebra.GroupWithZero.Nat

/-! # The state of the MicroBCSP engine

`ubcsp.c` keeps one engine in static storage.  `Engine` is `ubcsp_config` together
with the static buffers, and the functions below are the calls of the upper layer
that only set variables.

Pointers.  `send_packet` points to a packet of the upper layer that the engine
only reads, and is its contents here, or `none` when null.  `receive_packet`
points to a packet the engine writes into: `receivePacket` is that packet, and
`receiveArmed` says whether the pointer is non-null.  `send_ptr` and
`next_send_ptr` are walked octet by octet through buffers that are not written
while `send_size` is positive, and are here the octets from the pointer on.
-/
namespace OpenwrtFeed.Ubcsp

/-- `struct ubcsp_packet`; `use_crc` is never read. -/
structure Packet where
  channel : UInt8
  reliable : UInt8
  length : UInt16
  payload : List UInt8
deriving DecidableEq

/-- `enum ubcsp_link_establishment_state`. -/
inductive LinkState
  | uninitialized
  | initialized
  | active
deriving DecidableEq

/-- The number the C enumeration gives the state. -/
def LinkState.toNat : LinkState → Nat
  | .uninitialized => 0
  | .initialized => 1
  | .active => 2

/-- `enum ubcsp_link_establishment_packet`. -/
inductive LePacket
  | sync
  | syncResp
  | conf
  | confResp
  | none
deriving DecidableEq

def LePacket.toNat : LePacket → Nat
  | .sync => 0
  | .syncResp => 1
  | .conf => 2
  | .confResp => 3
  | .none => 4

/-- The flags of the `UBCSP_PACKET_SENT` family that `ubcsp_poll` ORs together. -/
structure Activity where
  sent : Bool
  received : Bool
  peerReset : Bool
  ack : Bool
deriving DecidableEq

namespace Activity

def none : Activity := ⟨false, false, false, false⟩
def packetSent : Activity := ⟨true, false, false, false⟩
def packetReceived : Activity := ⟨false, true, false, false⟩
def packetReceivedAck : Activity := ⟨false, true, false, true⟩
def onPeerReset : Activity := ⟨false, false, true, false⟩

/-- `a | b`. -/
def or (a b : Activity) : Activity :=
  ⟨a.sent || b.sent, a.received || b.received, a.peerReset || b.peerReset, a.ack || b.ack⟩

@[simp] theorem none_or (a : Activity) : none.or a = a := by simp [none, or]
@[simp] theorem or_none (a : Activity) : a.or none = a := by simp [none, or]
@[simp] theorem or_sent (a b : Activity) : (a.or b).sent = (a.sent || b.sent) := rfl
@[simp] theorem or_received (a b : Activity) : (a.or b).received = (a.received || b.received) := rfl
@[simp] theorem or_peerReset (a b : Activity) :
    (a.or b).peerReset = (a.peerReset || b.peerReset) := rfl
@[simp] theorem or_ack (a b : Activity) : (a.or b).ack = (a.ack || b.ack) := rfl

end Activity

/-! ## Constants -/

def slipFrame : UInt8 := 0xC0
def slipEscape : UInt8 := 0xDB
def slipEscapeFrame : UInt8 := 0xDC
def slipEscapeEscape : UInt8 := 0xDD

/-- `sequence_number` and `ack_number` are fields of three bits. -/
instance threeBits : NeZero (8 : Nat) := ⟨Nat.succ_ne_zero 7⟩

/-- `UBCSP_POLL_TIME_DELAY`. -/
def pollTimeDelay : Nat := 25

/-- `ubcsp_le_buffer`. -/
def leBuffer : List (List UInt8) :=
  [[0xDA, 0xDC, 0xED, 0xED],
   [0xAC, 0xAF, 0xEF, 0xEE],
   [0xAD, 0xEF, 0xAC, 0xED],
   [0xDE, 0xAD, 0xD0, 0xD0]]

/-- `ubcsp_send_le_header`, the variant with a CRC. -/
def sendLeHeader : List UInt8 := [0x40, 0x41, 0x00, 0x7E]

/-- `next_le_packet`; the last four entries have no initializer and are zero, which
is `ubcsp_le_sync`. -/
def nextLePacket : List LePacket :=
  [.sync, .conf, .none, .none,
   .syncResp, .syncResp, .none, .none,
   .none, .confResp, .confResp, .none,
   .sync, .sync, .sync, .sync]

/-! ## The engine -/

/-- `ubcsp_config` and the static buffers of `ubcsp.c`. -/
structure Engine where
  linkEstablishmentState : LinkState
  linkEstablishmentResp : Nat
  linkEstablishmentPacket : LePacket
  sequenceNumber : Fin 8
  ackNumber : Fin 8
  sendAck : Bool
  sendPacket : Option Packet
  /-- `receive_packet` is not null. -/
  receiveArmed : Bool
  /-- The packet last given to `ubcsp_receive_packet`. -/
  receivePacket : Packet
  receiveSlipEscape : Bool
  receiveIndex : Int
  /-- `ubcsp_receive_header`. -/
  receiveHeader : List UInt8
  needSendCrc : Bool
  sendCrc : UInt16
  /-- The second octet of an escape still to be sent, or 0. -/
  sendSlipEscape : UInt8
  sendPtr : Option (List UInt8)
  sendSize : Nat
  nextSendPtr : Option (List UInt8)
  nextSendSize : Nat
  delay : Nat

/-- Static storage before any call: every variable is zero. -/
def Engine.zero : Engine where
  linkEstablishmentState := .uninitialized
  linkEstablishmentResp := 0
  linkEstablishmentPacket := .sync
  sequenceNumber := 0
  ackNumber := 0
  sendAck := false
  sendPacket := none
  receiveArmed := false
  receivePacket := ⟨0, 0, 0, []⟩
  receiveSlipEscape := false
  receiveIndex := 0
  receiveHeader := [0, 0, 0, 0]
  needSendCrc := false
  sendCrc := 0
  sendSlipEscape := 0
  sendPtr := none
  sendSize := 0
  nextSendPtr := none
  nextSendSize := 0
  delay := 0

/-- `ubcsp_initialize`. -/
def ubcspInitialize (e : Engine) : Engine :=
  { e with
    ackNumber := 0
    sequenceNumber := 0
    sendPtr := none
    sendSize := 0
    receiveIndex := -4
    delay := 0
    linkEstablishmentState := .uninitialized
    linkEstablishmentPacket := .sync }

/-- `ubcsp_send_packet`. -/
def ubcspSendPacket (p : Packet) (e : Engine) : Engine :=
  { e with sendPacket := some p, sendSize := 0, sendPtr := none }

/-- `ubcsp_receive_packet`. -/
def ubcspReceivePacket (p : Packet) (e : Engine) : Engine :=
  { e with receiveArmed := true, receivePacket := p, receiveIndex := -4 }

end OpenwrtFeed.Ubcsp
