import OpenwrtFeed.Observed
import OpenwrtFeed.OneOutstanding

/-! # How the receive buffers are accessed

The receiving half of `ubcsp_poll` again, with the loops of the driver around it.  Recorded
are every use of the pointer `receive_packet`, every write to `ubcsp_receive_header`, every
read and write of `receive_buffer`, and the variables of the input side after each
assignment.

The queue arrays and `send_buffer` have their sizes here.  What a write beyond their ends does
to the variables of the driver depends on the layout of the memory, and is a parameter.  As long
as no write goes beyond, the functions come to what they came to before (`drive_value`).
-/
namespace OpenwrtFeed.Ubcsp

/-- What is recorded. -/
inductive Access
  /-- `receive_packet` is dereferenced; it is not null if it is armed. -/
  | pointer (armed : Bool)
  | headerWrite (i : Int)
  | bufferRead (i : Int)
  | bufferWrite (i : Int)
  /-- A variable of the input side has been assigned. -/
  | assigned (r : Rx)
deriving DecidableEq

namespace Accessed
open Observed (event pure_value bind_value ite_value foldlM_value)

/-! ## Single accesses -/

/-- `*ubcsp_config.receive_packet`. -/
def receivePacket (e : Engine) : Observed Access Packet := do
  event (.pointer e.receiveArmed)
  return e.receivePacket

/-- `payload[i]` of a packet. -/
def payload (p : Packet) (i : Int) : Observed Access UInt8 := do
  event (.bufferRead i)
  return p.payload.getD i.toNat 0

/-- The engine after an assignment. -/
def assign (e : Engine) : Observed Access Engine := do
  event (.assigned e.rx)
  return e

/-! ## `ubcsp_which_le_payload` -/

/-- The inner loop, over the octets of one packet. -/
def matchOctets (p : Packet) (row : List UInt8) : List Nat → Observed Access Bool
  | [] => return true
  | octet :: octets => do
    let c ← payload p octet
    if c ≠ row.getD octet 0 then return false else matchOctets p row octets

/-- The outer loop. -/
def matchRows (p : Packet) : Nat → List (List UInt8) → Observed Access Nat
  | _, [] => return 5
  | loop, row :: rows => do
    let found ← matchOctets p row (List.range 4)
    if found then return loop else matchRows p (loop + 1) rows

/-- `ubcsp_which_le_payload`. -/
def whichLePayload (p : Packet) : Observed Access Nat := matchRows p 0 leBuffer

/-! ## `ubcsp_recevied_packet` -/

/-- The loops of the CRC check. -/
def receiveCrc (e : Engine) : Observed Access UInt16 :=
  (List.range e.receiveIndex.toNat).foldlM
    (fun crc (loop : Nat) => do
      let p ← receivePacket e
      let c ← payload p loop
      return calcCrc c crc)
    ((List.range 4).foldl (fun crc i => calcCrc (e.receiveHeader.getD i 0) crc) 0xffff)

/-- The CRC check, with `receive_index` already two lower. -/
def crcMatches (e : Engine) : Observed Access Bool := do
  let crc ← receiveCrc e
  let crc := crcReverse crc
  let p ← receivePacket e
  let high ← payload p e.receiveIndex
  if (crc &&& 0xff00) >>> 8 ≠ high.toUInt16 then return false
  else do
    let p ← receivePacket e
    let low ← payload p (e.receiveIndex + 1)
    return decide (crc &&& 0xff = low.toUInt16)

/-- The length and CRC checks. -/
def checkPayload (e : Engine) : Observed Access (Bool × Engine) :=
  let length := headerLength e.receiveHeader
  if headerCrc e.receiveHeader ≠ 0 then
    if (length.toNat : Int) + 2 ≠ e.receiveIndex then return (false, e)
    else do
      let e ← assign { e with receiveIndex := e.receiveIndex - 2 }
      let ok ← crcMatches e
      return (ok, e)
  else return (decide ((length.toNat : Int) = e.receiveIndex), e)

/-- A packet on the link-establishment channel. -/
def receiveLe (activity : Activity) (e : Engine) : Observed Access (Activity × Engine) := do
  let e := { e with delay := 0 }
  let p ← receivePacket e
  let k ← whichLePayload p
  match k with
  | 0 =>
    if e.linkEstablishmentState ≠ .active then
      return (activity, { e with linkEstablishmentResp := 1 })
    else do
      let e ← assign (ubcspInitialize e)
      return (.onPeerReset, e)
  | 1 =>
    if e.linkEstablishmentState = .uninitialized then
      return (activity, { e with linkEstablishmentState := .initialized })
    else return (activity, e)
  | 2 =>
    if e.linkEstablishmentState ≠ .uninitialized then
      return (activity, { e with linkEstablishmentResp := 2 })
    else return (activity, e)
  | 3 =>
    if e.linkEstablishmentState ≠ .active then
      return (activity.or .packetSent, { e with linkEstablishmentState := .active, sendSize := 0 })
    else return (activity, e)
  | _ => return (activity, e)

/-- The length is set and the pointer made null; the two count as one assignment. -/
def handOver (e : Engine) : Observed Access Engine := do
  let _ ← receivePacket e
  assign (Ubcsp.handOver e)

/-- A packet with payload on any other channel. -/
def receiveData (activity : Activity) (e : Engine) : Observed Access (Activity × Engine) :=
  if e.linkEstablishmentState = .active then do
    let p ← receivePacket e
    if p.reliable ≠ 0 then
      let e := { e with sendAck := true }
      if headerSeq e.receiveHeader = UInt8.ofNat e.ackNumber then do
        let e ← handOver { e with ackNumber := e.ackNumber + 1 }
        return (activity.or .packetReceivedAck, e)
      else return (activity, e)
    else do
      let e ← handOver e
      return (activity.or .packetReceived, e)
  else return (activity, e)

/-- What is done with a frame that has passed every check. -/
def receiveIntact (e : Engine) : Observed Access (Activity × Engine) := do
  let (activity, e) := receiveAck e
  let p ← receivePacket e
  if p.channel = 1 then receiveLe activity e
  else if e.receiveIndex ≠ 0 then receiveData activity e
  else return (activity, e)

/-- `ubcsp_recevied_packet`. -/
def receviedPacket (e : Engine) : Observed Access (Activity × Engine) :=
  if headerSum e.receiveHeader ≠ 0xff then return (.none, { e with sendAck := true })
  else do
    let p ← receivePacket e
    let e ← assign { e with receivePacket := { p with reliable := headerReliable e.receiveHeader } }
    let p ← receivePacket e
    let e ← assign { e with receivePacket := { p with channel := headerChannel e.receiveHeader } }
    let (intact, e) ← checkPayload e
    if intact then receiveIntact e else return (.none, { e with sendAck := true })

/-! ## The receive loop and `ubcsp_poll` -/

/-- One octet that is not a delimiter. -/
def storeOctet (value : UInt8) (e : Engine) : Observed Access Engine :=
  if e.receiveIndex < 0 then do
    event (.headerWrite (e.receiveIndex + 4))
    assign { e with
      receiveHeader := e.receiveHeader.set (e.receiveIndex + 4).toNat value
      receiveIndex := e.receiveIndex + 1 }
  else do
    let p ← receivePacket e
    if e.receiveIndex < p.length.toNat then do
      let p ← receivePacket e
      event (.bufferWrite e.receiveIndex)
      assign { e with
        receivePacket := { p with payload := p.payload.set e.receiveIndex.toNat value }
        receiveIndex := e.receiveIndex + 1 }
    else return e

/-- The delimiter ends the frame in progress, if it has a full header. -/
def endOfFrame (activity : Activity) (e : Engine) : Observed Access (Activity × Engine) :=
  if 0 ≤ e.receiveIndex then do
    let (a, e) ← receviedPacket e
    let activity := activity.or a
    let e := if activity.ack then { e with delay := 0 } else e
    let e ← assign { e with receiveIndex := -4 }
    return (activity, e)
  else do
    let e ← assign { e with receiveIndex := -4 }
    return (activity, e)

/-- One turn of the receive loop. -/
def receiveOctet (stray : UInt8 → UInt8) (value : UInt8) (activity : Activity) (e : Engine) :
    Observed Access (Activity × Engine) :=
  if e.receiveSlipEscape then do
    let e ← storeOctet (deslip stray value) { e with receiveSlipEscape := false }
    return (activity, e)
  else if value = slipFrame then endOfFrame activity e
  else if value = slipEscape then return (activity, { e with receiveSlipEscape := true })
  else do
    let e ← storeOctet value e
    return (activity, e)

/-- The receive loop. -/
def receiveLoop (stray : UInt8 → UInt8) :
    List UInt8 → Activity → Engine → Observed Access (Activity × List UInt8 × Engine)
  | [], activity, e => return (activity, [], e)
  | value :: rx, activity, e =>
    if e.receiveArmed then do
      let (activity, e) ← receiveOctet stray value activity e
      receiveLoop stray rx activity e
    else return (activity, value :: rx, e)

/-- `ubcsp_poll`. -/
def ubcspPoll (stray : UInt8 → UInt8) (rx : List UInt8) (e : Engine) : Observed Access PollResult :=
  let s := sendHalf e
  if s.returned then return ⟨.none, 0, s.tx, rx, s.engine⟩
  else do
    let (activity, rest, e) ← receiveLoop stray rx s.activity s.engine
    let e := finishPoll s.delay e
    return ⟨activity, e.delay, s.tx, rest, e⟩

/-! ## They come to what they came to -/

@[simp] theorem receivePacket_value (e : Engine) : (receivePacket e).value = e.receivePacket := rfl

@[simp] theorem payload_value (p : Packet) (i : Int) :
    (payload p i).value = p.payload.getD i.toNat 0 := rfl

@[simp] theorem assign_value (e : Engine) : (assign e).value = e := rfl

theorem matchOctets_value (p : Packet) (row : List UInt8) (octets : List Nat) :
    (matchOctets p row octets).value =
      octets.all fun octet => p.payload.getD octet 0 == row.getD octet 0 := by
  induction octets with
  | nil => rfl
  | cons octet octets ih =>
    rw [matchOctets, bind_value, List.all_cons]
    by_cases heq : p.payload.getD octet 0 = row.getD octet 0
    · have hif : (payload p octet).value = row.getD octet 0 := heq
      rw [if_neg (not_not.2 hif), ih, beq_iff_eq.2 heq, Bool.true_and]
    · have hif : (payload p octet).value ≠ row.getD octet 0 := heq
      rw [if_pos hif, beq_eq_false_iff_ne.2 heq, Bool.false_and, pure_value]

theorem matchRows_value (p : Packet) (loop : Nat) (rows : List (List UInt8)) :
    (matchRows p loop rows).value =
      ((rows.findIdx? fun row =>
        (List.range 4).all fun octet => p.payload.getD octet 0 == row.getD octet 0).map
          (· + loop)).getD 5 := by
  induction rows generalizing loop with
  | nil => rfl
  | cons row rows ih =>
    rw [matchRows, bind_value, matchOctets_value, List.findIdx?_cons]
    cases hrow : (List.range 4).all fun octet => p.payload.getD octet 0 == row.getD octet 0 with
    | true => simp
    | false =>
      simp only [Bool.false_eq_true, if_false]
      rw [ih, Option.map_map]
      congr 2
      funext i
      show i + (loop + 1) = i + 1 + loop
      omega

theorem whichLePayload_value (p : Packet) :
    (whichLePayload p).value = Ubcsp.whichLePayload p.payload := by
  rw [whichLePayload, matchRows_value, Ubcsp.whichLePayload]
  simp

theorem receiveCrc_value (e : Engine) : (receiveCrc e).value =
    Ubcsp.receiveCrc e.receiveHeader e.receivePacket.payload e.receiveIndex.toNat := by
  rw [receiveCrc, foldlM_value]
  rfl

theorem crcMatches_value {e : Engine} (hi : 0 ≤ e.receiveIndex) : (crcMatches e).value =
    decide (Ubcsp.crcMatches e.receiveHeader e.receivePacket.payload e.receiveIndex.toNat) := by
  have hnext : (e.receiveIndex + 1).toNat = e.receiveIndex.toNat + 1 := by omega
  rw [crcMatches, bind_value, receiveCrc_value]
  unfold Ubcsp.crcMatches
  rw [bind_value, bind_value, receivePacket_value, payload_value]
  dsimp only
  by_cases hhigh :
      (crcReverse (Ubcsp.receiveCrc e.receiveHeader e.receivePacket.payload
        e.receiveIndex.toNat) &&&
        0xff00) >>> 8 = (e.receivePacket.payload.getD e.receiveIndex.toNat 0).toUInt16
  · rw [if_neg (not_not.2 hhigh), bind_value, bind_value, receivePacket_value, payload_value,
      hnext]
    exact decide_eq_decide.2 (and_iff_right hhigh).symm
  · rw [if_pos hhigh]
    exact (decide_eq_false fun h => hhigh h.1).symm

theorem checkPayload_value (e : Engine) : (checkPayload e).value = Ubcsp.checkPayload e := by
  unfold checkPayload Ubcsp.checkPayload
  dsimp only
  split
  · split
    · rfl
    · rename_i hlength
      refine Prod.ext ?_ rfl
      exact crcMatches_value (by show 0 ≤ e.receiveIndex - 2; omega)
  · rfl

theorem receiveLe_value (a : Activity) (e : Engine) :
    (receiveLe a e).value = Ubcsp.receiveLe a e := by
  unfold receiveLe Ubcsp.receiveLe
  simp only [bind_value, receivePacket_value, whichLePayload_value]
  -- the four messages, each with its condition on the state, and any other payload
  rcases Ubcsp.whichLePayload e.receivePacket.payload with _ | _ | _ | _ | k
  · exact ite_value ..
  · exact ite_value ..
  · exact ite_value ..
  · exact ite_value ..
  · rfl

theorem receiveData_value (a : Activity) (e : Engine) :
    (receiveData a e).value = Ubcsp.receiveData a e := by
  unfold receiveData Ubcsp.receiveData
  rw [ite_value, bind_value, receivePacket_value, ite_value, ite_value]
  rfl

theorem receiveIntact_value (e : Engine) : (receiveIntact e).value = Ubcsp.receiveIntact e := by
  unfold receiveIntact Ubcsp.receiveIntact
  dsimp only
  rw [bind_value, receivePacket_value, ite_value, ite_value, receiveLe_value,
    receiveData_value]
  rfl

theorem receviedPacket_value (e : Engine) : (receviedPacket e).value = Ubcsp.receviedPacket e := by
  unfold receviedPacket Ubcsp.receviedPacket
  rw [ite_value]
  simp only [bind_value, receivePacket_value, assign_value, checkPayload_value]
  rw [ite_value, receiveIntact_value]
  rfl

theorem storeOctet_value (value : UInt8) (e : Engine) :
    (storeOctet value e).value = Ubcsp.storeOctet value e := by
  unfold storeOctet Ubcsp.storeOctet
  rw [ite_value, bind_value, bind_value, receivePacket_value, ite_value]
  rfl

theorem endOfFrame_value (a : Activity) (e : Engine) :
    (endOfFrame a e).value = Ubcsp.endOfFrame a e := by
  unfold endOfFrame Ubcsp.endOfFrame
  rw [ite_value, bind_value, receviedPacket_value]
  rfl

theorem receiveOctet_value (stray : UInt8 → UInt8) (value : UInt8) (a : Activity) (e : Engine) :
    (receiveOctet stray value a e).value = Ubcsp.receiveOctet stray value a e := by
  unfold receiveOctet Ubcsp.receiveOctet
  rw [ite_value, ite_value, ite_value, bind_value, bind_value,
    storeOctet_value, storeOctet_value, endOfFrame_value]
  rfl

theorem receiveLoop_value (stray : UInt8 → UInt8) (rx : List UInt8) (a : Activity) (e : Engine) :
    (receiveLoop stray rx a e).value = Ubcsp.receiveLoop stray rx a e := by
  induction rx generalizing a e with
  | nil => rfl
  | cons value rx ih =>
    unfold receiveLoop Ubcsp.receiveLoop
    rw [ite_value, bind_value, receiveOctet_value, ih]
    rfl

theorem ubcspPoll_value (stray : UInt8 → UInt8) (rx : List UInt8) (e : Engine) :
    (ubcspPoll stray rx e).value = Ubcsp.ubcspPoll stray rx e := by
  unfold ubcspPoll Ubcsp.ubcspPoll
  dsimp only
  rw [ite_value, bind_value, receiveLoop_value]
  rfl

end Accessed
end OpenwrtFeed.Ubcsp

namespace OpenwrtFeed.HciPoll
open Ubcsp HciQueue HciBridge

namespace Accessed
open Ubcsp.Accessed (payload assign ubcspPoll)
open Observed (bind_value ite_value)

/-! ## The loops of the driver -/

/-- `payload[ii]` for every `ii` below the length. -/
def readPayload (p : Packet) : Observed Access PUnit :=
  (List.range p.length.toNat).forM fun (ii : Nat) => do
    let _ ← payload p ii
    return ()

/-- A packet is printed and given to `hci_bridge_send`, whose copy of the payload is
recorded whether or not there is a client. -/
def forward (p : Packet) : Observed Access (Option BridgeSend) :=
  if p.channel = hciEventChannel then do
    readPayload p
    let code ← payload p 0
    if code ≠ hardwareError then do
      readPayload p
      return some ⟨hciEvent, p.payload.take p.length.toNat, p.length⟩
    else return none
  else if p.channel = hciAclChannel then do
    readPayload p
    readPayload p
    return some ⟨hciData, p.payload.take p.length.toNat, p.length⟩
  else return none

/-- The branch on `UBCSP_PACKET_RECEIVED`. -/
def onReceived (a : Activity) (d : Driver) : Observed Access (Driver × List BridgeSend) :=
  if a.received then do
    let sent ← forward d.engine.receivePacket
    let e ← assign (rearm d.engine)
    return ({ d with
        timeout := 0, responseExpected := false, fetchNewCommand := true
        engine := e }, sent.toList)
  else return (d, [])

/-- The number of octets of `send_buffer`. -/
def sendCapacity : Nat := 512

/-- A write beyond the end of an array. -/
inductive Overrun
  /-- An op is queued behind the last entry of the queue arrays. -/
  | queueArrays (op : Op)
  /-- An op with more octets than `send_buffer` is copied. -/
  | sendBuffer (p : Packet)

/-- What the variables of the driver are after such a write. -/
abbrev Layout := Overrun → Driver → Driver

/-- A write beyond the end, which may have assigned to the input side. -/
def overrun (layout : Layout) (o : Overrun) (d : Driver) : Observed Access Driver := do
  let d := layout o d
  let _ ← assign d.engine
  return d

/-- `queue_hci_op`. -/
def queueOp (layout : Layout) (op : Op) (d : Driver) : Observed Access Driver :=
  if d.queue.queueTail < capacity then return { d with queue := queueHciOp op d.queue }
  else overrun layout (.queueArrays op) d

/-- The session thread queues ops. -/
def queueAll (layout : Layout) : List Op → Driver → Observed Access Driver
  | [], d => return d
  | op :: ops, d => do
    let d ← queueOp layout op d
    queueAll layout ops d

/-- The copy of an op into `send_buffer`. -/
def copyIntoSendBuffer (layout : Layout) (p : Packet) (d : Driver) : Observed Access Driver :=
  if p.length.toNat ≤ sendCapacity then return d else overrun layout (.sendBuffer p) d

/-- `dequeueIntoSendPacket`, and the variables that are assigned after it. -/
def dequeue (layout : Layout) (d : Driver) : Observed Access (Driver × List Copy) :=
  if d.queue.queueHead < d.queue.queueTail then do
    let p := headPacket d.queue
    let d ← copyIntoSendBuffer layout p d
    return ({ d with
        engine := ubcspSendPacket p d.engine, queue := dropHead d.queue
        responseExpected := true, fetchNewCommand := false },
      [⟨d.engine.sendPacket, p⟩])
  else return ({ d with responseExpected := true, fetchNewCommand := false }, [])

/-- The next op goes to the engine, if one is wanted and the queue is not empty. -/
def fetch (layout : Layout) (late : List Op) (d : Driver) : Observed Access (Driver × List Copy) :=
  if d.fetchNewCommand && !isQueueEmpty d.queue then do
    let d ← queueAll layout late d
    dequeue layout d
  else do
    let d ← queueAll layout late d
    return (d, [])

/-- The session thread and the loop at the queue. -/
def serve (layout : Layout) (t : Turn) (d : Driver) : Observed Access (Driver × List Copy) := do
  let d ← queueAll layout t.early d
  fetch layout t.late d

/-- One turn of the loop of `hci_do_poll`. -/
def turn (stray : UInt8 → UInt8) (layout : Layout) (t : Turn) (d : Driver) :
    Observed Access (Driver × Log) := do
  let r ← ubcspPoll stray (d.uart ++ t.arrived) d.engine
  let sent := { d with engine := r.engine, uart := r.rest }.onSent r.activity
  let acted ← onReceived r.activity sent
  let served ← serve layout t acted.1
  let last := served.1.onDelay r.delay
  return (last.1, ⟨d.polled stray t.arrived, served.2, acted.2 ++ last.2⟩)

/-- A run of `hci_do_poll`. -/
def run (stray : UInt8 → UInt8) (layout : Layout) :
    List Turn → Driver → Observed Access (Driver × Log)
  | [], d => return (d, .empty)
  | t :: ts, d => do
    let (d, first) ← turn stray layout t d
    let (d, rest) ← run stray layout ts d
    return (d, first.append rest)

/-- The loop of `hci_open_device_internal`. -/
def openLoop (stray : UInt8 → UInt8) :
    List (List UInt8) → Nat → List UInt8 → Engine → Observed Access Opening
  | [], _, _, _ => return .polling
  | arrived :: turns, timeout, uart, e => do
    let r ← ubcspPoll stray (uart ++ arrived) e
    if r.activity.received then return .opened r.rest r.engine
    else if r.delay ≠ 0 then
      if 5000 < timeout then return .timedOut
      else openLoop stray turns (timeout + 1) r.rest r.engine
    else openLoop stray turns timeout r.rest r.engine

/-- `hci_open_device_internal`, the variables before it included. -/
def hciOpenDeviceInternal (stray : UInt8 → UInt8) (turns : List (List UInt8)) :
    Observed Access Opening := do
  let e ← assign .zero
  let e ← assign (ubcspInitialize e)
  let e ← assign (ubcspReceivePacket receivePacket e)
  openLoop stray turns 0 [] e

/-- `hci_do_poll`. -/
def hciDoPoll (stray : UInt8 → UInt8) (layout : Layout) (turns : List Turn) (uart : List UInt8)
    (e : Engine) : Observed Access (Driver × Log) := do
  let d := Driver.start uart e
  let _ ← assign d.engine
  run stray layout turns d

/-- `hci_open_device_internal`, and `hci_do_poll` once that has returned `PG_OK`. -/
def drive (stray : UInt8 → UInt8) (layout : Layout) (opening : List (List UInt8))
    (turns : List Turn) : Observed Access (Option (Driver × Log)) := do
  let opened ← hciOpenDeviceInternal stray opening
  match opened with
  | .opened uart e => do
    let r ← hciDoPoll stray layout turns uart e
    return some r
  | .polling => return none
  | .timedOut => return none

end Accessed

/-! ## The turns that keep to the arrays -/

/-- Every op queued in a turn finds an entry, and an op that is copied fits `send_buffer`; the
driver is the one after the branches on the activity. -/
structure Driver.HasRoom (t : Turn) (d : Driver) : Prop where
  entries : d.queue.queueTail + (t.early.length + t.late.length) ≤ capacity
  octets : d.fetchNewCommand = true → isQueueEmpty (queueAll t.early d.queue) = false →
    (headPacket (queueAll t.late (queueAll t.early d.queue))).length.toNat ≤ Accessed.sendCapacity

/-- No write of a turn goes beyond the queue arrays or `send_buffer`. -/
def Driver.Within (stray : UInt8 → UInt8) (d : Driver) (t : Turn) : Prop :=
  (d.acted stray t).1.HasRoom t

/-- No write of a run of the driver goes beyond the queue arrays or `send_buffer`. -/
def KeepsWithin (stray : UInt8 → UInt8) (opening : List (List UInt8)) (turns : List Turn) : Prop :=
  match hciOpenDeviceInternal stray opening with
  | .opened uart e => (Driver.start uart e).Throughout stray (Driver.Within stray) turns
  | .polling => True
  | .timedOut => True

namespace Accessed
open Ubcsp.Accessed (payload assign ubcspPoll)
open Observed (bind_value ite_value)

/-- Queueing within the entries is the queueing of the model. -/
theorem queueAll_eq {layout : Layout} {ops : List Op} {d : Driver}
    (h : d.queue.queueTail + ops.length ≤ capacity) :
    queueAll layout ops d = pure { d with queue := HciPoll.queueAll ops d.queue } := by
  induction ops generalizing d with
  | nil => rfl
  | cons op ops ih =>
    rw [List.length_cons] at h
    have htail : d.queue.queueTail < capacity := by omega
    have hone : queueOp layout op d = pure { d with queue := queueHciOp op d.queue } := if_pos htail
    have hrest := @ih { d with queue := queueHciOp op d.queue }
      (by show d.queue.queueTail + 1 + ops.length ≤ capacity; omega)
    rw [queueAll, hone]
    exact hrest

/-- So is the copy, if the op fits. -/
theorem dequeue_eq {layout : Layout} {d : Driver}
    (h : (headPacket d.queue).length.toNat ≤ sendCapacity) :
    dequeue layout d = pure (match dequeueIntoSendPacket d.queue with
      | (some p, q) =>
        ({ d with
            engine := ubcspSendPacket p d.engine, queue := q
            responseExpected := true, fetchNewCommand := false },
          [⟨d.engine.sendPacket, p⟩])
      | (none, q) =>
        ({ d with queue := q, responseExpected := true, fetchNewCommand := false }, [])) := by
  have hcopy : copyIntoSendBuffer layout (headPacket d.queue) d = pure d := if_pos h
  unfold dequeue dequeueIntoSendPacket
  split
  · dsimp only
    rw [hcopy]
    rfl
  · rfl

/-- **With room for every op, the queue is served as in the model**, whatever the layout. -/
theorem serve_eq {layout : Layout} {t : Turn} {d : Driver} (h : d.HasRoom t) :
    serve layout t d =
      pure ({ d with queue := HciPoll.queueAll t.early d.queue }.fetch t.late) := by
  have hentries := h.entries
  have hearly : queueAll layout t.early d =
      pure { d with queue := HciPoll.queueAll t.early d.queue } :=
    queueAll_eq (by omega)
  have hlate := @queueAll_eq layout t.late { d with queue := HciPoll.queueAll t.early d.queue }
    (by show (HciPoll.queueAll t.early d.queue).queueTail + t.late.length ≤ capacity
        rw [(queueAll_indices t.early d.queue).2]
        omega)
  unfold serve
  rw [hearly]
  show fetch layout t.late { d with queue := HciPoll.queueAll t.early d.queue } = _
  unfold fetch Driver.fetch
  rw [hlate]
  split
  · rename_i hwant
    obtain ⟨hfetch, hne⟩ := Bool.and_eq_true_iff.1 hwant
    exact dequeue_eq (h.octets hfetch (by simpa using hne))
  · rfl

/-! ## They come to what they came to -/

theorem forward_value (p : Packet) : (forward p).value = HciPoll.forward p := by
  unfold forward HciPoll.forward
  rw [ite_value, ite_value, bind_value, bind_value, ite_value]
  rfl

theorem onReceived_value (a : Activity) (d : Driver) : (onReceived a d).value = d.onReceived a := by
  unfold onReceived Driver.onReceived
  rw [ite_value, bind_value, forward_value]
  rfl

theorem turn_value {stray : UInt8 → UInt8} {layout : Layout} {t : Turn} {d : Driver}
    (h : d.Within stray t) : (turn stray layout t d).value = d.turn stray t := by
  unfold turn
  rw [bind_value, Ubcsp.Accessed.ubcspPoll_value, bind_value, onReceived_value]
  have hserve : serve layout t (d.acted stray t).1 = pure (d.served stray t) := serve_eq h
  exact congrArg (fun served : Observed Access (Driver × List Copy) =>
    ((served.value.1.onDelay (d.poll stray t.arrived).delay).1,
      (⟨d.polled stray t.arrived, served.value.2, (d.acted stray t).2 ++
        (served.value.1.onDelay (d.poll stray t.arrived).delay).2⟩ : Log))) hserve

theorem run_value {stray : UInt8 → UInt8} {layout : Layout} {ts : List Turn} {d : Driver}
    (h : d.Throughout stray (Driver.Within stray) ts) :
    (run stray layout ts d).value = d.run stray ts := by
  induction ts generalizing d with
  | nil => rfl
  | cons t ts ih =>
    unfold run Driver.run
    rw [bind_value, turn_value h.1, bind_value, ih h.2]
    rfl

theorem openLoop_value (stray : UInt8 → UInt8) (turns : List (List UInt8)) (timeout : Nat)
    (uart : List UInt8) (e : Engine) :
    (openLoop stray turns timeout uart e).value = HciPoll.openLoop stray turns timeout uart e := by
  induction turns generalizing timeout uart e with
  | nil => rfl
  | cons arrived turns ih =>
    unfold openLoop HciPoll.openLoop
    rw [bind_value, Ubcsp.Accessed.ubcspPoll_value, ite_value, ite_value,
      ite_value, ih, ih]
    rfl

theorem hciOpenDeviceInternal_value (stray : UInt8 → UInt8) (turns : List (List UInt8)) :
    (hciOpenDeviceInternal stray turns).value = HciPoll.hciOpenDeviceInternal stray turns :=
  openLoop_value stray turns 0 [] _

/-- **What is recorded is the program of the model**, as long as every write keeps to its
array. -/
theorem drive_value {stray : UInt8 → UInt8} {opening : List (List UInt8)} {turns : List Turn}
    (h : KeepsWithin stray opening turns) (layout : Layout) :
    (drive stray layout opening turns).value =
      match HciPoll.hciOpenDeviceInternal stray opening with
      | .opened uart e => some ((Driver.start uart e).run stray turns)
      | .polling => none
      | .timedOut => none := by
  unfold KeepsWithin at h
  unfold drive
  rw [bind_value, hciOpenDeviceInternal_value]
  cases hopen : HciPoll.hciOpenDeviceInternal stray opening with
  | opened uart e =>
    rw [hopen] at h
    exact congrArg some (run_value h)
  | polling => rfl
  | timedOut => rfl

end Accessed
end OpenwrtFeed.HciPoll
