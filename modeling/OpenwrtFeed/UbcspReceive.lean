import OpenwrtFeed.UbcspSend

/-! # The receiving half of `ubcsp_poll`

The octets of the UART are unescaped into the header buffer and the payload of
the receive packet; at a SLIP delimiter the frame is checked and acted on
(`receviedPacket`, in the source's spelling).

`ubcsp_deslip` has two entries and is indexed with whatever octet follows an
escape ("out of range values are not detected").  `stray` is what such a lookup
yields for every other octet; the results hold for every `stray`.
-/
namespace OpenwrtFeed.Ubcsp

/-- `ubcsp_deslip[value - SLIP_ESCAPE_FRAME]`. -/
def deslip (stray : UInt8 → UInt8) (value : UInt8) : UInt8 :=
  if value = slipEscapeFrame then slipFrame
  else if value = slipEscapeEscape then slipEscape
  else stray value

/-- `ubcsp_which_le_payload`: the index of the link-establishment packet that the
first four octets of the buffer spell, or 5. -/
def whichLePayload (payload : List UInt8) : Nat :=
  (leBuffer.findIdx? fun row =>
    (List.range 4).all fun octet => payload.getD octet 0 == row.getD octet 0).getD 5

/-! ## `ubcsp_recevied_packet` -/

/-- The sum of the four header octets, modulo 256. -/
def headerSum (h : List UInt8) : UInt8 := h.getD 0 0 + h.getD 1 0 + h.getD 2 0 + h.getD 3 0

/-- The header fields, as they are decoded. -/
def headerReliable (h : List UInt8) : UInt8 := (h.getD 0 0 &&& 0x80) >>> 7
def headerCrc (h : List UInt8) : UInt8 := (h.getD 0 0 &&& 0x40) >>> 6
def headerAck (h : List UInt8) : UInt8 := (h.getD 0 0 &&& 0x38) >>> 3
def headerSeq (h : List UInt8) : UInt8 := h.getD 0 0 &&& 0x07
def headerChannel (h : List UInt8) : UInt8 := h.getD 1 0 &&& 0x0f
def headerLength (h : List UInt8) : UInt16 :=
  ((h.getD 1 0 &&& 0xf0) >>> 4).toUInt16 ||| ((h.getD 2 0).toUInt16 <<< 4)

/-- The register after the header and the first `n` octets of the payload, as the
two loops of the CRC check compute it. -/
def receiveCrc (h payload : List UInt8) (n : Nat) : UInt16 :=
  (List.range n).foldl (fun crc i => calcCrc (payload.getD i 0) crc)
    ((List.range 4).foldl (fun crc i => calcCrc (h.getD i 0) crc) 0xffff)

/-- The CRC check, with `receive_index` already two lower. -/
def crcMatches (h payload : List UInt8) (index : Nat) : Prop :=
  let crc := crcReverse (receiveCrc h payload index)
  (crc &&& 0xff00) >>> 8 = (payload.getD index 0).toUInt16 ∧
    crc &&& 0xff = (payload.getD (index + 1) 0).toUInt16

instance (h payload : List UInt8) (index : Nat) : Decidable (crcMatches h payload index) :=
  inferInstanceAs (Decidable (_ ∧ _))

/-- The length and CRC checks, and whether they hold.  The octets of a CRC are taken
off `receive_index` on the way, also when the CRC turns out wrong. -/
def checkPayload (e : Engine) : Bool × Engine :=
  let length := headerLength e.receiveHeader
  if headerCrc e.receiveHeader ≠ 0 then
    if (length.toNat : Int) + 2 ≠ e.receiveIndex then (false, e)
    else
      let e := { e with receiveIndex := e.receiveIndex - 2 }
      (decide (crcMatches e.receiveHeader e.receivePacket.payload e.receiveIndex.toNat), e)
  else (decide ((length.toNat : Int) = e.receiveIndex), e)

/-- The acknowledgement in a received header: any value but the current sequence
number acknowledges the reliable packet being sent. -/
def receiveAck (e : Engine) : Activity × Engine :=
  if headerAck e.receiveHeader ≠ UInt8.ofNat e.sequenceNumber then
    match e.sendPacket with
    | some p =>
      if p.reliable ≠ 0 then
        (.packetSent,
          { e with sendPacket := none, sequenceNumber := e.sequenceNumber + 1, delay := 0 })
      else (.none, e)
    | none => (.none, e)
  else (.none, e)

/-- A packet on the link-establishment channel. -/
def receiveLe (activity : Activity) (e : Engine) : Activity × Engine :=
  let e := { e with delay := 0 }
  match whichLePayload e.receivePacket.payload with
  | 0 =>
    if e.linkEstablishmentState ≠ .active then (activity, { e with linkEstablishmentResp := 1 })
    -- a peer reset: the activity collected so far is lost
    else (.onPeerReset, ubcspInitialize e)
  | 1 =>
    if e.linkEstablishmentState = .uninitialized then
      (activity, { e with linkEstablishmentState := .initialized })
    else (activity, e)
  | 2 =>
    if e.linkEstablishmentState ≠ .uninitialized then
      (activity, { e with linkEstablishmentResp := 2 })
    else (activity, e)
  | 3 =>
    if e.linkEstablishmentState ≠ .active then
      (activity.or .packetSent, { e with linkEstablishmentState := .active, sendSize := 0 })
    else (activity, e)
  | _ => (activity, e)

/-- The receive packet is handed to the upper layer. -/
def handOver (e : Engine) : Engine :=
  { e with
    receivePacket := { e.receivePacket with length := headerLength e.receiveHeader }
    receiveArmed := false }

/-- A packet with payload on any other channel. -/
def receiveData (activity : Activity) (e : Engine) : Activity × Engine :=
  if e.linkEstablishmentState = .active then
    if e.receivePacket.reliable ≠ 0 then
      let e := { e with sendAck := true }
      if headerSeq e.receiveHeader = UInt8.ofNat e.ackNumber then
        (activity.or .packetReceivedAck, handOver { e with ackNumber := e.ackNumber + 1 })
      else (activity, e)
    else (activity.or .packetReceived, handOver e)
  else (activity, e)

/-- What is done with a frame that has passed every check. -/
def receiveIntact (e : Engine) : Activity × Engine :=
  let (activity, e) := receiveAck e
  if e.receivePacket.channel = 1 then receiveLe activity e
  else if e.receiveIndex ≠ 0 then receiveData activity e
  else (activity, e)

/-- `ubcsp_recevied_packet`. -/
def receviedPacket (e : Engine) : Activity × Engine :=
  if headerSum e.receiveHeader ≠ 0xff then (.none, { e with sendAck := true })
  else
    let e := { e with
      receivePacket := { e.receivePacket with
        reliable := headerReliable e.receiveHeader
        channel := headerChannel e.receiveHeader } }
    let (intact, e) := checkPayload e
    if intact then receiveIntact e else (.none, { e with sendAck := true })

/-! ## The receive loop and `ubcsp_poll` -/

/-- One octet that is not a delimiter goes into the header or the payload; an
octet beyond the capacity of the receive packet is dropped. -/
def storeOctet (value : UInt8) (e : Engine) : Engine :=
  if e.receiveIndex < 0 then
    { e with
      receiveHeader := e.receiveHeader.set (e.receiveIndex + 4).toNat value
      receiveIndex := e.receiveIndex + 1 }
  else if e.receiveIndex < e.receivePacket.length.toNat then
    { e with
      receivePacket := { e.receivePacket with
        payload := e.receivePacket.payload.set e.receiveIndex.toNat value }
      receiveIndex := e.receiveIndex + 1 }
  else e

/-- The delimiter ends the frame in progress, if it has a full header. -/
def endOfFrame (activity : Activity) (e : Engine) : Activity × Engine :=
  if 0 ≤ e.receiveIndex then
    let (a, e) := receviedPacket e
    let activity := activity.or a
    let e := if activity.ack then { e with delay := 0 } else e
    (activity, { e with receiveIndex := -4 })
  else (activity, { e with receiveIndex := -4 })

/-- One turn of the receive loop, with the octet `get_uart` has returned. -/
def receiveOctet (stray : UInt8 → UInt8) (value : UInt8) (activity : Activity) (e : Engine) :
    Activity × Engine :=
  if e.receiveSlipEscape then
    (activity, storeOctet (deslip stray value) { e with receiveSlipEscape := false })
  else if value = slipFrame then endOfFrame activity e
  else if value = slipEscape then (activity, { e with receiveSlipEscape := true })
  else (activity, storeOctet value e)

/-- The receive loop.  `rx` are the octets the UART yields during the call, and the
second component of the result those it is not asked for, because the receive
packet has been handed over. -/
def receiveLoop (stray : UInt8 → UInt8) :
    List UInt8 → Activity → Engine → Activity × List UInt8 × Engine
  | [], activity, e => (activity, [], e)
  | value :: rx, activity, e =>
    if e.receiveArmed then
      receiveLoop stray rx (receiveOctet stray value activity e).1
        (receiveOctet stray value activity e).2
    else (activity, value :: rx, e)

/-- What a call of `ubcsp_poll` does: the activity, the returned delay, the octets
given to `put_uart`, and the octets left in the UART. -/
structure PollResult where
  activity : Activity
  delay : Nat
  tx : List UInt8
  rest : List UInt8
  engine : Engine

/-- The end of a call: the delay runs down, or the one just decided is taken. -/
def finishPoll (delay : Nat) (e : Engine) : Engine :=
  if 0 < e.delay then { e with delay := e.delay - 1 } else { e with delay := delay }

/-- `ubcsp_poll`, with the octets `rx` the UART yields during the call. -/
def ubcspPoll (stray : UInt8 → UInt8) (rx : List UInt8) (e : Engine) : PollResult :=
  let s := sendHalf e
  if s.returned then ⟨.none, 0, s.tx, rx, s.engine⟩
  else
    let (activity, rest, e) := receiveLoop stray rx s.activity s.engine
    let e := finishPoll s.delay e
    ⟨activity, e.delay, s.tx, rest, e⟩

end OpenwrtFeed.Ubcsp
