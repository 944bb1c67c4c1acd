import OpenwrtFeed.Ubcsp

/-! # The sending half of `ubcsp_poll`

A call of `ubcsp_poll` first gives the UART at most one octet of a frame (two
when the frame ends), or starts a frame, unless the engine is waiting out a
delay.  The call returns early after it has started a link-establishment frame.
-/
namespace OpenwrtFeed.Ubcsp

/-- What the sending half of a call leaves behind: the octets given to `put_uart`,
the activity so far, the local variable `delay`, and whether the call has
returned. -/
structure SendResult where
  tx : List UInt8
  activity : Activity
  delay : Nat
  returned : Bool
  engine : Engine

/-- `ubcsp_put_slip_uart`: one octet of a frame; the second octet of an escape is
left for the next call. -/
def putSlipUart (ch : UInt8) (e : Engine) : List UInt8 × Engine :=
  if ch = slipFrame then ([slipEscape], { e with sendSlipEscape := slipEscapeFrame })
  else if ch = slipEscape then ([slipEscape], { e with sendSlipEscape := slipEscapeEscape })
  else ([ch], e)

/-- The header checksum that `ubcsp_setup_packet` stores in `part1[3]`. -/
def headerChecksum (h0 h1 h2 : UInt8) : UInt8 := ~~~(h0 + h1 + h2)

/-- `ubcsp_setup_packet`, with `part1[3]` already computed; `part2` is null for a
packet that is a header alone. -/
def setupPacket (part1 : List UInt8) (part2 : Option (List UInt8)) (len2 : Nat) (e : Engine) :
    Engine :=
  { e with
    sendPtr := some part1
    sendSize := 4
    nextSendPtr := part2
    nextSendSize := len2
    sendCrc := 0xffff
    needSendCrc := true }

/-- `ubcsp_sent_packet`: an unreliable packet is done once it has been sent. -/
def sentPacket (e : Engine) : Activity × Engine :=
  match e.sendPacket with
  | some p =>
    if p.reliable = 0 then (.packetSent, { e with sendPacket := none }) else (.none, e)
  | none => (.none, e)

/-- The end of a block, header, payload or CRC: the next block is set up, or the
CRC, or the frame is closed. -/
def endOfBlock (e : Engine) : SendResult :=
  let e := { e with
    sendPtr := e.nextSendPtr, sendSize := e.nextSendSize,
    nextSendPtr := none, nextSendSize := 0 }
  match e.sendPtr with
  | some _ => ⟨[], .none, 0, false, e⟩
  | none =>
    if e.needSendCrc then
      ⟨[], .none, 0, false,
        { e with
          needSendCrc := false
          sendCrc := crcReverse e.sendCrc
          sendPtr := some (crcOctets e.sendCrc)
          sendSize := 2 }⟩
    else
      ⟨[slipFrame], (sentPacket e).1, pollTimeDelay, false, (sentPacket e).2⟩

/-- The octet a call sends while `send_size` is positive. -/
def putOctet (e : Engine) : List UInt8 × Engine :=
  if e.sendSlipEscape ≠ 0 then ([e.sendSlipEscape], { e with sendSlipEscape := 0 })
  else
    let value := (e.sendPtr.getD []).headD 0
    putSlipUart value
      { e with sendPtr := some (e.sendPtr.getD []).tail, sendCrc := calcCrc value e.sendCrc }

/-- The branch of `ubcsp_poll` that continues a frame. -/
def sendOctet (e : Engine) : SendResult :=
  let (tx, e) := putOctet e
  -- after the first half of an escape the block counter is held back
  if e.sendSlipEscape ≠ 0 then ⟨tx, .none, 0, false, e⟩
  else
    let e := { e with sendSize := e.sendSize - 1 }
    if e.sendSize = 0 then { endOfBlock e with tx := tx ++ (endOfBlock e).tx }
    else ⟨tx, .none, 0, false, e⟩

/-- The header of a data frame, built in `ubcsp_send_header`. -/
def dataHeader (p : Packet) (ack seq : Fin 8) : List UInt8 :=
  let h0 : UInt8 := (p.reliable <<< 7) ||| (0x40 : UInt8) ||| (UInt8.ofNat ack <<< 3) |||
    UInt8.ofNat seq
  let h1 : UInt8 := (p.channel &&& (0x0f : UInt8)) ||| ((p.length <<< 4) &&& 0xf0).toUInt8
  let h2 : UInt8 := ((p.length >>> 4) &&& 0xff).toUInt8
  [h0, h1, h2, headerChecksum h0 h1 h2]

/-- The header of an ACK frame, built in `ubcsp_send_ack_header`. -/
def ackHeader (ack : Fin 8) : List UInt8 :=
  let h0 : UInt8 := (0x40 : UInt8) ||| (UInt8.ofNat ack <<< 3)
  [h0, 0, 0, headerChecksum h0 0 0]

/-- The link-establishment packet at an index of `ubcsp_le_buffer`. -/
def lePayload (k : LePacket) : List UInt8 := leBuffer.getD k.toNat []

/-- The branch of `ubcsp_poll` taken when no link-establishment packet is due: a
CONF RESP, the packet of the upper layer, an ACK, or nothing. -/
def startFrame (e : Engine) : SendResult :=
  if e.linkEstablishmentResp &&& 2 ≠ 0 then
    ⟨[slipFrame], .none, 0, false,
      { setupPacket sendLeHeader (some (lePayload .confResp)) 4 e with
        linkEstablishmentResp := 0 }⟩
  else match e.sendPacket with
  | some p =>
    ⟨[slipFrame], .none, 0, false,
      { setupPacket (dataHeader p e.ackNumber e.sequenceNumber) (some p.payload)
        p.length.toNat e with
        sendAck := false }⟩
  | none =>
    if e.sendAck then
      ⟨[slipFrame], .none, 0, false,
        { setupPacket (ackHeader e.ackNumber) none 0 e with sendAck := false }⟩
    else ⟨[], .none, pollTimeDelay, false, e⟩

/-- The branch of `ubcsp_poll` that starts a link-establishment frame, works out
the packet after it, and returns. -/
def startLeFrame (e : Engine) : SendResult :=
  ⟨[slipFrame], .none, 0, true,
    { setupPacket sendLeHeader (some (lePayload e.linkEstablishmentPacket)) 4 e with
      delay := 0
      linkEstablishmentPacket :=
        nextLePacket.getD (e.linkEstablishmentState.toNat + e.linkEstablishmentResp * 4) .sync
      linkEstablishmentResp := 0 }⟩

/-- The sending half of `ubcsp_poll`. -/
def sendHalf (e : Engine) : SendResult :=
  if e.delay ≠ 0 then ⟨[], .none, 0, false, e⟩
  else if e.sendSize ≠ 0 then sendOctet e
  else if e.linkEstablishmentPacket = .none then startFrame e
  else startLeFrame e

end OpenwrtFeed.Ubcsp
