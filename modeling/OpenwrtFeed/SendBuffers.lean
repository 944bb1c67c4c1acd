import OpenwrtFeed.Observed
import OpenwrtFeed.Completion
import OpenwrtFeed.LoopProgress

/-! # Sending in place

`ubcsp_poll` walks `send_ptr` through static buffers: the headers, the link-establishment
packets, the CRC, and `send_buffer`, into which `dequeueIntoSendPacket` copies the next op
with the last one perhaps still under way.  `Engine` keeps the octets from the pointer on
instead, as they were when the frame was started.

Here is the sending half once more with the pointers as they are, every octet read where it
stands at the time of the call, and recorded.  It sends the same octets, and never reads
beyond the end of a buffer (`send_in_bounds`): a buffer is written again only when the frame
that is read from it has been sent or given up.
-/
namespace OpenwrtFeed.Ubcsp

/-- The buffers that the pointers may point into. -/
inductive Block
  | sendHeader
  | sendAckHeader
  | sendLeHeader
  | leBuffer (k : LePacket)
  /-- `send_buffer`, the payload of every packet of the driver. -/
  | payload
  | sendCrc
deriving DecidableEq

/-- The number of octets of a buffer. -/
def Block.size : Block → Nat
  | .sendHeader => 4
  | .sendAckHeader => 4
  | .sendLeHeader => 4
  | .leBuffer k => (lePayload k).length
  | .payload => 512
  | .sendCrc => 2

/-- The buffers that are written. -/
structure SendBuffers where
  sendHeader : List UInt8
  sendAckHeader : List UInt8
  payload : List UInt8
  sendCrc : List UInt8

/-- The octets of a buffer. -/
def SendBuffers.block (b : SendBuffers) : Block → List UInt8
  | .sendHeader => b.sendHeader
  | .sendAckHeader => b.sendAckHeader
  | .sendLeHeader => Ubcsp.sendLeHeader
  | .leBuffer k => lePayload k
  | .payload => b.payload
  | .sendCrc => b.sendCrc

/-- Where `send_ptr` and `next_send_ptr` point to if they are not null, and the buffers. -/
structure Places where
  sendAt : Block × Nat
  nextAt : Block
  buffers : SendBuffers

/-- Static storage before any call. -/
def Places.zero : Places where
  sendAt := (.sendHeader, 0)
  nextAt := .sendHeader
  buffers := ⟨List.replicate 4 0, List.replicate 4 0, List.replicate 512 0, List.replicate 2 0⟩

/-- The driver copies a payload into `send_buffer`. -/
def Places.copied (payload : List UInt8) (m : Places) : Places :=
  { m with buffers := { m.buffers with
    payload := payload ++ m.buffers.payload.drop payload.length } }

/-- A read of `*send_ptr`. -/
structure Read where
  /-- The pointer is not null. -/
  set : Bool
  block : Block
  index : Nat
deriving DecidableEq

/-- The pointer points to an octet of a buffer. -/
def Read.InBounds (r : Read) : Prop := r.set = true ∧ r.index < r.block.size

/-- The engine when of the two pointers only counts whether they are null. -/
def Engine.hollow (e : Engine) : Engine :=
  { e with sendPtr := e.sendPtr.map fun _ => [], nextSendPtr := e.nextSendPtr.map fun _ => [] }

/-! ## The sending half -/

namespace InPlace
open Observed (event)

/-- `*ubcsp_config.send_ptr ++`. -/
def nextOctet (e : Engine) (m : Places) : Observed Read (UInt8 × Places) := do
  event ⟨e.sendPtr.isSome, m.sendAt.1, m.sendAt.2⟩
  return ((m.buffers.block m.sendAt.1).getD m.sendAt.2 0, { m with
    sendAt := (m.sendAt.1, m.sendAt.2 + 1) })

/-- `ubcsp_setup_packet`. -/
def setupPacket (part1 : Block) (part2 : Option Block) (len2 : Nat) (e : Engine) (m : Places) :
    Engine × Places :=
  (Ubcsp.setupPacket [] (part2.map fun _ => []) len2 e,
    { m with sendAt := (part1, 0), nextAt := part2.getD m.nextAt })

/-- The end of a block. -/
def endOfBlock (e : Engine) (m : Places) : SendResult × Places :=
  let e := { e with
    sendPtr := e.nextSendPtr, sendSize := e.nextSendSize,
    nextSendPtr := none, nextSendSize := 0 }
  let m := { m with sendAt := (m.nextAt, 0) }
  match e.sendPtr with
  | some _ => (⟨[], .none, 0, false, e⟩, m)
  | none =>
    if e.needSendCrc then
      let sendCrc := crcReverse e.sendCrc
      (⟨[], .none, 0, false,
          { e with needSendCrc := false, sendCrc := sendCrc, sendPtr := some [], sendSize := 2 }⟩,
        { m with
          sendAt := (.sendCrc, 0)
          buffers := { m.buffers with sendCrc := [(sendCrc >>> 8).toUInt8, sendCrc.toUInt8] } })
    else (⟨[slipFrame], (sentPacket e).1, pollTimeDelay, false, (sentPacket e).2⟩, m)

/-- The octet a call sends while `send_size` is positive. -/
def putOctet (e : Engine) (m : Places) : Observed Read (List UInt8 × Engine × Places) :=
  if e.sendSlipEscape ≠ 0 then return ([e.sendSlipEscape], { e with sendSlipEscape := 0 }, m)
  else do
    let (value, m) ← nextOctet e m
    let (tx, e) := putSlipUart value { e with sendCrc := calcCrc value e.sendCrc }
    return (tx, e, m)

/-- The branch of `ubcsp_poll` that continues a frame. -/
def sendOctet (e : Engine) (m : Places) : Observed Read (SendResult × Places) := do
  let (tx, e, m) ← putOctet e m
  if e.sendSlipEscape ≠ 0 then return (⟨tx, .none, 0, false, e⟩, m)
  else
    let e := { e with sendSize := e.sendSize - 1 }
    if e.sendSize = 0 then
      let (s, m) := endOfBlock e m
      return ({ s with tx := tx ++ s.tx }, m)
    else return (⟨tx, .none, 0, false, e⟩, m)

/-- The branch of `ubcsp_poll` taken when no link-establishment packet is due. -/
def startFrame (e : Engine) (m : Places) : SendResult × Places :=
  if e.linkEstablishmentResp &&& 2 ≠ 0 then
    let (e, m) := setupPacket .sendLeHeader (some (.leBuffer .confResp)) 4 e m
    (⟨[slipFrame], .none, 0, false, { e with linkEstablishmentResp := 0 }⟩, m)
  else match e.sendPacket with
  | some p =>
    let m := { m with buffers := { m.buffers with
      sendHeader := dataHeader p e.ackNumber e.sequenceNumber } }
    let (e, m) := setupPacket .sendHeader (some .payload) p.length.toNat e m
    (⟨[slipFrame], .none, 0, false, { e with sendAck := false }⟩, m)
  | none =>
    if e.sendAck then
      let m := { m with buffers := { m.buffers with sendAckHeader := ackHeader e.ackNumber } }
      let (e, m) := setupPacket .sendAckHeader none 0 e m
      (⟨[slipFrame], .none, 0, false, { e with sendAck := false }⟩, m)
    else (⟨[], .none, pollTimeDelay, false, e⟩, m)

/-- The branch of `ubcsp_poll` that starts a link-establishment frame. -/
def startLeFrame (e : Engine) (m : Places) : SendResult × Places :=
  let (e', m) := setupPacket .sendLeHeader (some (.leBuffer e.linkEstablishmentPacket)) 4 e m
  (⟨[slipFrame], .none, 0, true,
      { e' with
        delay := 0
        linkEstablishmentPacket :=
          nextLePacket.getD (e.linkEstablishmentState.toNat + e.linkEstablishmentResp * 4) .sync
        linkEstablishmentResp := 0 }⟩, m)

/-- The sending half of `ubcsp_poll`. -/
def sendHalf (e : Engine) (m : Places) : Observed Read (SendResult × Places) :=
  if e.delay ≠ 0 then return (⟨[], .none, 0, false, e⟩, m)
  else if e.sendSize ≠ 0 then sendOctet e m
  else if e.linkEstablishmentPacket = .none then return startFrame e m
  else return startLeFrame e m

/-- `ubcsp_poll`. -/
def ubcspPoll (stray : UInt8 → UInt8) (rx : List UInt8) (e : Engine) (m : Places) :
    Observed Read (PollResult × Places) := do
  let (s, m) ← sendHalf e m
  if s.returned then return (⟨.none, 0, s.tx, rx, s.engine⟩, m)
  else
    let (activity, rest, e) := receiveLoop stray rx s.activity s.engine
    let e := finishPoll s.delay e
    return (⟨activity, e.delay, s.tx, rest, e⟩, m)

end InPlace
end OpenwrtFeed.Ubcsp

namespace OpenwrtFeed.HciPoll
open Ubcsp HciQueue HciBridge

/-! ## The loops of the driver -/

/-- The octets that the loop of `hci_open_device_internal` sends. -/
def openTx (stray : UInt8 → UInt8) : List (List UInt8) → Nat → List UInt8 → Engine → List UInt8
  | [], _, _, _ => []
  | arrived :: turns, timeout, uart, e =>
    let r := ubcspPoll stray (uart ++ arrived) e
    r.tx ++
      if r.activity.received then []
      else if r.delay ≠ 0 then
        if 5000 < timeout then [] else openTx stray turns (timeout + 1) r.rest r.engine
      else openTx stray turns timeout r.rest r.engine

/-- The octets that the bridge sends, from the first call of `ubcsp_initialize` on. -/
def driveTx (stray : UInt8 → UInt8) (opening : List (List UInt8)) (turns : List Turn) :
    List UInt8 :=
  openTx stray opening 0 [] (ubcspReceivePacket receivePacket (ubcspInitialize .zero)) ++
    match hciOpenDeviceInternal stray opening with
    | .opened uart e => ((Driver.start uart e).polls stray turns).flatMap PollResult.tx
    | _ => []

namespace InPlace
open Ubcsp.InPlace

/-- The loop of `hci_open_device_internal`. -/
def openLoop (stray : UInt8 → UInt8) :
    List (List UInt8) → Nat → List UInt8 → Engine → Places →
      Observed Read (List UInt8 × Opening × Places)
  | [], _, _, _, m => return ([], .polling, m)
  | arrived :: turns, timeout, uart, e, m => do
    let (r, m) ← ubcspPoll stray (uart ++ arrived) e m
    if r.activity.received then return (r.tx, .opened r.rest r.engine, m)
    else if r.delay ≠ 0 then
      if 5000 < timeout then return (r.tx, .timedOut, m)
      else do
        let (tx, rest) ← openLoop stray turns (timeout + 1) r.rest r.engine m
        return (r.tx ++ tx, rest)
    else do
      let (tx, rest) ← openLoop stray turns timeout r.rest r.engine m
      return (r.tx ++ tx, rest)

/-- The branches on the activity. -/
def act (r : PollResult) (d : Driver) : Driver :=
  (({ d with engine := r.engine, uart := r.rest }.onSent r.activity).onReceived r.activity).1

/-- From the branches on the activity to the look at the queue. -/
def serve (t : Turn) (r : PollResult) (d : Driver) : Driver × List Copy :=
  { act r d with queue := queueAll t.early (act r d).queue }.fetch t.late

/-- One turn of the loop of `hci_do_poll`. -/
def turn (stray : UInt8 → UInt8) (t : Turn) (d : Driver) (m : Places) :
    Observed Read (List UInt8 × Driver × Places) := do
  let (r, m) ← ubcspPoll stray (d.uart ++ t.arrived) d.engine m
  let (d, copied) := serve t r d
  return (r.tx, (d.onDelay r.delay).1, copied.foldl (fun m c => m.copied c.packet.payload) m)

/-- A run of `hci_do_poll`. -/
def run (stray : UInt8 → UInt8) : List Turn → Driver → Places → Observed Read (List UInt8)
  | [], _, _ => return []
  | t :: ts, d, m => do
    let (tx, d, m) ← turn stray t d m
    let rest ← run stray ts d m
    return tx ++ rest

/-- The two loops, one after the other. -/
def drive (stray : UInt8 → UInt8) (opening : List (List UInt8)) (turns : List Turn) :
    Observed Read (List UInt8) := do
  let (tx, opened, m) ← openLoop stray opening 0 []
    (ubcspReceivePacket receivePacket (ubcspInitialize .zero)) .zero
  match opened with
  | .opened uart e => do
    let rest ← run stray turns (.start uart e) m
    return tx ++ rest
  | _ => return tx

end InPlace
end OpenwrtFeed.HciPoll

namespace OpenwrtFeed.Ubcsp

/-! ## Only the sending half reads through the pointers -/

section
variable (e : Engine)

theorem sentPacket_hollow : sentPacket e.hollow = ((sentPacket e).1, (sentPacket e).2.hollow) := by
  unfold sentPacket
  show (match e.sendPacket with | some p => _ | none => _) = _
  cases e.sendPacket with
  | none => rfl
  | some p =>
    dsimp only
    split <;> rfl

theorem storeOctet_hollow (value : UInt8) :
    storeOctet value e.hollow = (storeOctet value e).hollow := by
  rw [storeOctet, storeOctet, apply_ite Engine.hollow, apply_ite Engine.hollow]
  rfl

theorem receiveAck_hollow : receiveAck e.hollow = ((receiveAck e).1, (receiveAck e).2.hollow) := by
  unfold receiveAck
  show (if headerAck e.receiveHeader ≠ UInt8.ofNat e.sequenceNumber then
    (match e.sendPacket with | some p => _ | none => _) else _) = _
  split
  · cases e.sendPacket with
    | none => rfl
    | some p =>
      dsimp only
      split <;> rfl
  · rfl

theorem receiveLe_hollow (a : Activity) :
    receiveLe a e.hollow = ((receiveLe a e).1, (receiveLe a e).2.hollow) := by
  unfold receiveLe
  rw [show e.hollow.receivePacket = e.receivePacket from rfl]
  dsimp only
  rcases whichLePayload e.receivePacket.payload with _ | _ | _ | _ | k
  -- each message, with its condition on the state
  · show (if e.linkEstablishmentState ≠ .active then _ else _) = _
    split <;> rfl
  · show (if e.linkEstablishmentState = .uninitialized then _ else _) = _
    split <;> rfl
  · show (if e.linkEstablishmentState ≠ .uninitialized then _ else _) = _
    split <;> rfl
  · show (if e.linkEstablishmentState ≠ .active then _ else _) = _
    split <;> rfl
  · rfl

theorem receiveData_hollow (a : Activity) :
    receiveData a e.hollow = ((receiveData a e).1, (receiveData a e).2.hollow) := by
  unfold receiveData
  show (if e.linkEstablishmentState = .active then if e.receivePacket.reliable ≠ 0 then
    if headerSeq e.receiveHeader = UInt8.ofNat e.ackNumber then _ else _ else _ else _) = _
  dsimp only
  split
  · split
    · split <;> rfl
    · rfl
  · rfl

theorem receiveIntact_hollow : receiveIntact e.hollow =
    ((receiveIntact e).1, (receiveIntact e).2.hollow) := by
  unfold receiveIntact
  rw [receiveAck_hollow]
  dsimp only
  show (if (receiveAck e).2.receivePacket.channel = 1 then receiveLe _ (receiveAck e).2.hollow else
    if (receiveAck e).2.receiveIndex ≠ 0 then receiveData _ (receiveAck e).2.hollow else _) = _
  rw [receiveLe_hollow, receiveData_hollow]
  split
  · rfl
  · split <;> rfl

theorem checkPayload_hollow : checkPayload e.hollow =
    ((checkPayload e).1, (checkPayload e).2.hollow) := by
  unfold checkPayload
  show (if headerCrc e.receiveHeader ≠ 0 then
    if ((headerLength e.receiveHeader).toNat : Int) + 2 ≠ e.receiveIndex then _ else _ else _) = _
  dsimp only
  split
  · split <;> rfl
  · rfl

theorem receviedPacket_hollow :
    receviedPacket e.hollow = ((receviedPacket e).1, (receviedPacket e).2.hollow) := by
  unfold receviedPacket
  show (if headerSum e.receiveHeader ≠ 0xff then _ else _) = _
  split
  · rfl
  · have hcheck := checkPayload_hollow { e with
      receivePacket := { e.receivePacket with
        reliable := headerReliable e.receiveHeader
        channel := headerChannel e.receiveHeader } }
    dsimp only
    rw [show checkPayload { e.hollow with
      receivePacket := { e.hollow.receivePacket with
        reliable := headerReliable e.hollow.receiveHeader
        channel := headerChannel e.hollow.receiveHeader } } = _ from hcheck]
    dsimp only
    split
    · exact receiveIntact_hollow _
    · rfl

theorem endOfFrame_hollow (a : Activity) :
    endOfFrame a e.hollow = ((endOfFrame a e).1, (endOfFrame a e).2.hollow) := by
  unfold endOfFrame
  rw [receviedPacket_hollow]
  show (if 0 ≤ e.receiveIndex then _ else _) = _
  dsimp only
  split
  · split <;> rfl
  · rfl

theorem receiveOctet_hollow (stray : UInt8 → UInt8) (value : UInt8) (a : Activity) :
    receiveOctet stray value a e.hollow =
      ((receiveOctet stray value a e).1, (receiveOctet stray value a e).2.hollow) := by
  unfold receiveOctet
  rw [endOfFrame_hollow, storeOctet_hollow]
  show (if e.receiveSlipEscape = true then _ else _) = _
  split
  · exact congrArg _ (storeOctet_hollow { e with receiveSlipEscape := false } _)
  · split
    · rfl
    · split <;> rfl

theorem receiveLoop_hollow (stray : UInt8 → UInt8) (rx : List UInt8) (a : Activity) :
    receiveLoop stray rx a e.hollow = ((receiveLoop stray rx a e).1, (receiveLoop stray rx a e).2.1,
      (receiveLoop stray rx a e).2.2.hollow) := by
  induction rx generalizing a e with
  | nil => rfl
  | cons value rx ih =>
    rw [receiveLoop, receiveLoop, receiveOctet_hollow]
    show (if e.receiveArmed = true then _ else _) = _
    split
    · exact ih _ _
    · rfl

theorem finishPoll_hollow (delay : Nat) :
    finishPoll delay e.hollow = (finishPoll delay e).hollow := by
  rw [finishPoll, finishPoll, apply_ite Engine.hollow]
  rfl

end

/-! ## The pointers and what the model keeps instead -/

/-- The octets that a pointer has still to read: the second half of an escape is none. -/
def Engine.unread (e : Engine) : Nat := if e.sendSlipEscape = 0 then e.sendSize else e.sendSize - 1

/-- The next `n` octets are those that the buffer holds where the pointer points to. -/
def Covers (n : Nat) (e : Engine) (m : Places) : Prop :=
  ∃ l, e.sendPtr = some l ∧ n ≤ l.length ∧ l.take n <+: (m.buffers.block m.sendAt.1).drop m.sendAt.2

/-- The octets of the block after this one are those at the head of its buffer. -/
structure CoversNext (e : Engine) (m : Places) : Prop where
  block : ∀ l, e.nextSendPtr = some l →
    e.nextSendSize ≤ l.length ∧ l.take e.nextSendSize <+: m.buffers.block m.nextAt
  last : e.nextSendPtr = none → e.nextSendSize = 0

/-- This block is the last. -/
theorem CoversNext.of_none {e : Engine} {m : Places} (hptr : e.nextSendPtr = none)
    (hsize : e.nextSendSize = 0) :
    CoversNext e m where
  block l hl := absurd (hptr.symm.trans hl) (Option.some_ne_none l).symm
  last _ := hsize

/-- The buffers that are written have their sizes. -/
structure SendBuffers.Sized (b : SendBuffers) : Prop where
  sendHeader : b.sendHeader.length = 4
  sendAckHeader : b.sendAckHeader.length = 4
  payload : b.payload.length = 512
  sendCrc : b.sendCrc.length = 2

/-- So all have. -/
theorem SendBuffers.Sized.block {b : SendBuffers} (h : b.Sized) : ∀ k, (b.block k).length = k.size
  | .sendHeader => h.sendHeader
  | .sendAckHeader => h.sendAckHeader
  | .sendLeHeader => rfl
  | .leBuffer _ => rfl
  | .payload => h.payload
  | .sendCrc => h.sendCrc

/-- The buffers have their sizes, and `send_buffer` holds the payload of the packet to be sent. -/
structure Holds (e : Engine) (m : Places) : Prop where
  sizes : m.buffers.Sized
  packet : ∀ p, e.sendPacket = some p →
    p.payload.length = p.length.toNat ∧ p.payload <+: m.buffers.payload

/-- What is under way is in the buffers. -/
structure Placed (e : Engine) (m : Places) : Prop where
  holds : Holds e m
  current : e.sendSize ≠ 0 → Covers e.unread e m
  next : e.sendSize ≠ 0 → CoversNext e m

/-- The result of the sending half with a hollow engine. -/
def SendResult.hollow (s : SendResult) : SendResult := { s with engine := s.engine.hollow }

def PollResult.hollow (r : PollResult) : PollResult := { r with engine := r.engine.hollow }

namespace Holds
variable {e e' : Engine} {m : Places}

/-- Only the packet matters. -/
theorem of_packet (h : Holds e m) (hp : e'.sendPacket = e.sendPacket ∨ e'.sendPacket = none) :
    Holds e' m where
  sizes := h.sizes
  packet p hsome := by
    rcases hp with hp | hp
    · exact h.packet p (hp ▸ hsome)
    · cases hp.symm.trans hsome

/-- A frame is started. -/
theorem setup (h : Holds e m) {part1 : Block} {head : List UInt8}
    (hhead : m.buffers.block part1 = head) (h4 : head.length = 4) {part2 : Option Block}
    {body : Option (List UInt8)} {n : Nat} (hsome : ∀ l, body = some l → n ≤ l.length ∧
      ∃ b, part2 = some b ∧ l.take n <+: m.buffers.block b)
    (hnone : body = none → n = 0) :
    Placed (setupPacket head body n e) (InPlace.setupPacket part1 part2 n e.hollow m).2 where
  holds := ⟨h.sizes, h.packet⟩
  current _ := by
    have hunread : (setupPacket head body n e).unread ≤ 4 := by
      unfold Engine.unread
      split
      · exact Nat.le_refl 4
      · exact Nat.sub_le 4 1
    refine ⟨head, rfl, by omega, ?_⟩
    show head.take _ <+: (m.buffers.block part1).drop 0
    rw [hhead, List.drop_zero]
    exact List.take_prefix _ _
  next _ := by
    refine ⟨fun l hl => ?_, hnone⟩
    obtain ⟨hle, b, rfl, hpre⟩ := hsome l hl
    exact ⟨hle, hpre⟩

end Holds

namespace Placed
variable {e e' : Engine} {m : Places}

/-- Receiving leaves what is under way alone, or gives it up. -/
theorem of_kept (h : Placed e m) (htx : e.tx.Kept e'.tx)
    (hp : e'.sendPacket = e.sendPacket ∨ e'.sendPacket = none) : Placed e' m := by
  have hsame : e'.sendSize ≠ 0 → e'.tx = e.tx := fun hs => htx.resolve_right fun hzero => hs hzero.1
  refine ⟨h.holds.of_packet hp, fun hs => ?_, fun hs => ?_⟩
  · have hsize : e'.sendSize = e.sendSize := congrArg Tx.sendSize (hsame hs)
    have hptr : e'.sendPtr = e.sendPtr := congrArg Tx.sendPtr (hsame hs)
    have hesc : e'.sendSlipEscape = e.sendSlipEscape := congrArg Tx.sendSlipEscape (hsame hs)
    have hcurrent := h.current (hsize ▸ hs)
    unfold Covers Engine.unread at hcurrent ⊢
    rw [hptr, hesc, hsize]
    exact hcurrent
  · have hsize : e'.sendSize = e.sendSize := congrArg Tx.sendSize (hsame hs)
    have hptr : e'.nextSendPtr = e.nextSendPtr := congrArg Tx.nextSendPtr (hsame hs)
    have hnext : e'.nextSendSize = e.nextSendSize := congrArg Tx.nextSendSize (hsame hs)
    obtain ⟨hblock, hlast⟩ := h.next (hsize ▸ hs)
    constructor
    · rw [hptr, hnext]
      exact hblock
    · rw [hptr, hnext]
      exact hlast

end Placed

namespace InPlace
open Observed (Meets)
variable {e : Engine} {m : Places}

/-- **A read** finds the octet that the model keeps. -/
theorem nextOctet_meets (hsizes : m.buffers.Sized) {n : Nat} (h : Covers (n + 1) e m) :
    Meets Read.InBounds (fun r => r.1 = (e.sendPtr.getD []).headD 0 ∧
        Covers n { e with sendPtr := some (e.sendPtr.getD []).tail } r.2 ∧
        r.2.nextAt = m.nextAt ∧ r.2.buffers = m.buffers) (nextOctet e.hollow m) := by
  obtain ⟨l, hl, hlen, hpre⟩ := h
  obtain ⟨a, l, rfl⟩ : ∃ a l', l = a :: l' := by
    cases l with
    | nil => exact absurd hlen (Nat.not_succ_le_zero n)
    | cons a l => exact ⟨a, l, rfl⟩
  obtain ⟨rest, hrest⟩ := hpre
  rw [List.take_succ_cons, List.cons_append] at hrest
  have hget : (m.buffers.block m.sendAt.1)[m.sendAt.2]? = some a := by
    have hhead := congrArg (·[0]?) hrest
    simpa using hhead.symm
  have hlt : m.sendAt.2 < m.sendAt.1.size := by
    rw [← hsizes.block]
    exact (List.getElem?_eq_some_iff.1 hget).1
  have hset : e.hollow.sendPtr.isSome = true := by
    show (e.sendPtr.map _).isSome = true
    rw [hl]
    rfl
  have hin : Read.InBounds ⟨e.hollow.sendPtr.isSome, m.sendAt.1, m.sendAt.2⟩ := ⟨hset, hlt⟩
  refine .bind (Meets.event hin) fun _ _ =>
    .pure ⟨?_, ⟨l, by rw [hl]; rfl, Nat.le_of_succ_le_succ hlen, ?_⟩, rfl, rfl⟩
  · rw [List.getD_eq_getElem?_getD, hget, hl]
    rfl
  · show l.take n <+: (m.buffers.block m.sendAt.1).drop (m.sendAt.2 + 1)
    rw [← List.drop_drop, ← hrest]
    exact List.prefix_append _ _

/-- What sending an octet leaves, before the block is counted down. -/
structure Put (e : Engine) (m : Places) (r : List UInt8 × Engine × Places) : Prop where
  tx : r.1 = (Ubcsp.putOctet e).1
  engine : r.2.1 = (Ubcsp.putOctet e).2.hollow
  covers : Covers (e.sendSize - 1) (Ubcsp.putOctet e).2 r.2.2
  nextAt : r.2.2.nextAt = m.nextAt
  buffers : r.2.2.buffers = m.buffers

/-- **The octet of a call.** -/
theorem putOctet_meets (h : Placed e m) (hs : e.sendSize ≠ 0) :
    Meets Read.InBounds (Put e m) (putOctet e.hollow m) := by
  have hcurrent := h.current hs
  unfold Engine.unread at hcurrent
  refine .ite (fun hesc => ?_) fun hesc => ?_
  · have hesc' : e.sendSlipEscape ≠ 0 := hesc
    have hput : Ubcsp.putOctet e = ([e.sendSlipEscape], { e with sendSlipEscape := 0 }) :=
      if_pos hesc'
    rw [if_neg hesc'] at hcurrent
    refine .pure ⟨?_, ?_, ?_, rfl, rfl⟩
    · rw [hput]
      rfl
    · rw [hput]
      rfl
    · rw [hput]
      exact hcurrent
  · have hesc' : e.sendSlipEscape = 0 := not_not.1 hesc
    obtain ⟨n, hn⟩ := Nat.exists_eq_succ_of_ne_zero hs
    rw [if_pos hesc', hn] at hcurrent
    have hput : Ubcsp.putOctet e = putSlipUart ((e.sendPtr.getD []).headD 0)
        { e with
          sendPtr := some (e.sendPtr.getD []).tail
          sendCrc := calcCrc ((e.sendPtr.getD []).headD 0) e.sendCrc } := if_neg hesc
    obtain ⟨l, hl, -⟩ := id hcurrent
    refine .bind (nextOctet_meets h.holds.sizes hcurrent) fun r hr => ?_
    obtain ⟨hvalue, hcovers, hnext, hbuffers⟩ := hr
    have hslip : ∀ (value : UInt8) (d : Engine), putSlipUart value d.hollow =
        ((putSlipUart value d).1, (putSlipUart value d).2.hollow) := by
      intro value d
      unfold putSlipUart
      split
      · rfl
      · split <;> rfl
    have hkeeps : ∀ (value : UInt8) (d : Engine), (putSlipUart value d).2.sendPtr = d.sendPtr := by
      intro value d
      unfold putSlipUart
      split
      · rfl
      · split <;> rfl
    have hhollow : { e.hollow with sendCrc := calcCrc r.1 e.hollow.sendCrc } =
      Engine.hollow { e with
        sendPtr := some (e.sendPtr.getD []).tail
        sendCrc := calcCrc ((e.sendPtr.getD []).headD 0) e.sendCrc } := by
      unfold Engine.hollow
      rw [hvalue, hl]
      rfl
    refine .pure ⟨?_, ?_, ?_, hnext, hbuffers⟩
    · show (putSlipUart r.1 { e.hollow with sendCrc := calcCrc r.1 e.hollow.sendCrc }).1 = _
      rw [hhollow, hslip, hput, hvalue]
    · show (putSlipUart r.1 { e.hollow with sendCrc := calcCrc r.1 e.hollow.sendCrc }).2 = _
      rw [hhollow, hslip, hput, hvalue]
    · obtain ⟨l', hl', hlen, hpre⟩ := hcovers
      rw [hput, hn]
      exact ⟨l', (hkeeps _ _).trans hl', hlen, hpre⟩

/-- What a step of the sending half comes to in place. -/
def Does (s : SendResult) (r : SendResult × Places) : Prop := r.1 = s.hollow ∧ Placed s.engine r.2

/-- **The end of a block**, after its last octet. -/
theorem endOfBlock_does (hholds : Holds e m) (hnext : CoversNext e m)
    (hesc : e.sendSlipEscape = 0) :
    Does (Ubcsp.endOfBlock e) (endOfBlock e.hollow m) := by
  unfold endOfBlock Ubcsp.endOfBlock
  dsimp only
  cases hptr : e.nextSendPtr with
  | some l =>
    obtain ⟨hle, hpre⟩ := hnext.block l hptr
    have hhollow : e.hollow.nextSendPtr = some [] := by
      show e.nextSendPtr.map _ = _
      rw [hptr]
      rfl
    rw [hhollow]
    refine ⟨rfl, ⟨hholds.sizes, hholds.packet⟩, fun _ => ⟨l, rfl, ?_, ?_⟩,
      fun _ => .of_none rfl rfl⟩
    · unfold Engine.unread
      rw [if_pos hesc]
      exact hle
    · unfold Engine.unread
      rw [if_pos hesc]
      exact hpre
  | none =>
    have hhollow : e.hollow.nextSendPtr = none := by
      show e.nextSendPtr.map _ = _
      rw [hptr]
      rfl
    rw [hhollow]
    dsimp only
    show Does _ (if e.needSendCrc = true then _ else _)
    split
    · refine ⟨rfl, ⟨{ hholds.sizes with sendCrc := rfl }, hholds.packet⟩,
        fun _ => ⟨crcOctets e.sendCrc, rfl, ?_, ?_⟩, fun _ => .of_none rfl rfl⟩
      · unfold Engine.unread
        rw [if_pos hesc]
        exact Nat.le_refl 2
      · exact List.take_prefix _ _
    · have hlast := hnext.last hptr
      have hsent := sentPacket_hollow { e with
        sendPtr := none, sendSize := e.nextSendSize, nextSendPtr := none, nextSendSize := 0 }
      have hclosed : { e.hollow with
          sendPtr := none, sendSize := e.hollow.nextSendSize, nextSendPtr := none
          nextSendSize := 0 } =
          Engine.hollow { e with
            sendPtr := none, sendSize := e.nextSendSize, nextSendPtr := none
            nextSendSize := 0 } := rfl
      rw [hclosed, hsent]
      rcases sentPacket_eq { e with
          sendPtr := none, sendSize := e.nextSendSize, nextSendPtr := none, nextSendSize := 0 } with
        ⟨heq, -⟩ | ⟨heq, -⟩
      · rw [heq]
        exact ⟨rfl, ⟨hholds.sizes, hholds.packet⟩, fun hs => absurd hlast hs,
          fun hs => absurd hlast hs⟩
      · rw [heq]
        exact ⟨rfl, ⟨hholds.sizes, fun _ hp => absurd hp (Option.some_ne_none _).symm⟩,
          fun hs => absurd hlast hs, fun hs => absurd hlast hs⟩

/-- **The frame goes on.** -/
theorem sendOctet_meets (h : Placed e m) (hs : e.sendSize ≠ 0) :
    Meets Read.InBounds (Does (Ubcsp.sendOctet e)) (sendOctet e.hollow m) := by
  refine .bind (putOctet_meets h hs) fun r hr => ?_
  obtain ⟨tx, e', m'⟩ := r
  obtain ⟨htx, heng, hcovers, hat, hbuffers⟩ := hr
  dsimp only at htx heng hcovers hat hbuffers
  subst htx heng
  obtain ⟨hsize, hptr, hnextSize, -⟩ := putOctet_keeps e
  have hpacket : (Ubcsp.putOctet e).2.sendPacket = e.sendPacket := by rw [putOctet_snd]; rfl
  have hholds : Holds (Ubcsp.putOctet e).2 m' := by
    refine ⟨?_, fun p hp => ?_⟩
    · rw [hbuffers]
      exact h.holds.sizes
    · rw [hbuffers]
      exact h.holds.packet p (hpacket ▸ hp)
  have hnext : CoversNext (Ubcsp.putOctet e).2 m' := by
    obtain ⟨hblock, hlast⟩ := h.next hs
    constructor
    · rw [hptr, hnextSize, hbuffers, hat]
      exact hblock
    · rw [hptr, hnextSize]
      exact hlast
  unfold Ubcsp.sendOctet
  dsimp only
  by_cases hesc : (Ubcsp.putOctet e).2.sendSlipEscape ≠ 0
  · rw [if_pos hesc, if_pos (show (Ubcsp.putOctet e).2.hollow.sendSlipEscape ≠ 0 from hesc)]
    refine .pure ⟨rfl, hholds, fun _ => ?_, fun _ => hnext⟩
    unfold Engine.unread
    rw [if_neg hesc, hsize]
    exact hcovers
  · rw [if_neg hesc, if_neg (show ¬ (Ubcsp.putOctet e).2.hollow.sendSlipEscape ≠ 0 from hesc)]
    have hesc' := not_not.1 hesc
    by_cases hlast : (Ubcsp.putOctet e).2.sendSize - 1 = 0
    · rw [if_pos hlast, if_pos (show (Ubcsp.putOctet e).2.hollow.sendSize - 1 = 0 from hlast)]
      obtain ⟨heq, hplaced⟩ := @endOfBlock_does { (Ubcsp.putOctet e).2 with
        sendSize := (Ubcsp.putOctet e).2.sendSize - 1 } m' ⟨hholds.sizes, hholds.packet⟩
        ⟨hnext.block, hnext.last⟩ hesc'
      refine .pure ⟨?_, hplaced⟩
      exact congrArg (fun s : SendResult => { s with tx := (Ubcsp.putOctet e).1 ++ s.tx }) heq
    · rw [if_neg hlast, if_neg (show ¬ (Ubcsp.putOctet e).2.hollow.sendSize - 1 = 0 from hlast)]
      refine .pure ⟨rfl, ⟨hholds.sizes, hholds.packet⟩, fun _ => ?_,
        fun _ => ⟨hnext.block, hnext.last⟩⟩
      have hunread : Engine.unread { (Ubcsp.putOctet e).2 with
          sendSize := (Ubcsp.putOctet e).2.sendSize - 1 } = e.sendSize - 1 := by
        unfold Engine.unread
        rw [if_pos hesc', hsize]
      show Covers (Engine.unread _) _ _
      rw [hunread]
      exact hcovers

/-- A link-establishment frame. -/
theorem setup_le (h : Holds e m) {k : LePacket} (hk : k ≠ .none) :
    Placed (Ubcsp.setupPacket sendLeHeader (some (lePayload k)) 4 e)
      (setupPacket .sendLeHeader (some (.leBuffer k)) 4 e.hollow m).2 := by
  refine @Holds.setup e m h .sendLeHeader _ rfl rfl (some (.leBuffer k)) _ 4 (fun l hl => ?_)
    fun hn => absurd hn (Option.some_ne_none _)
  obtain rfl := Option.some.inj hl
  refine ⟨?_, _, rfl, List.take_prefix _ _⟩
  cases k with
  | none => exact absurd rfl hk
  | _ => exact Nat.le_refl 4

/-- **A frame is started**, or nothing is sent. -/
theorem startFrame_does (h : Placed e m) : Does (Ubcsp.startFrame e) (startFrame e.hollow m) := by
  unfold startFrame Ubcsp.startFrame
  show Does _ (if e.linkEstablishmentResp &&& 2 ≠ 0 then _ else
      match e.sendPacket with | some p => _ | none => _)
  split
  · have hconf : LePacket.confResp ≠ .none := by decide
    exact ⟨rfl, (setup_le h.holds hconf).of_kept (Or.inl rfl) (Or.inl rfl)⟩
  · cases hp : e.sendPacket with
    | some p =>
      obtain ⟨hlen, hpre⟩ := h.holds.packet p hp
      have hwritten : Holds e { m with buffers := { m.buffers with
          sendHeader := dataHeader p e.ackNumber e.sequenceNumber } } :=
        ⟨{ h.holds.sizes with sendHeader := rfl }, h.holds.packet⟩
      have hbody : ∀ l, some p.payload = some l → p.length.toNat ≤ l.length ∧
          ∃ b, some Block.payload = some b ∧ l.take p.length.toNat <+:
            SendBuffers.block { m.buffers with
              sendHeader := dataHeader p e.ackNumber e.sequenceNumber } b := by
        intro l hl
        obtain rfl := Option.some.inj hl
        exact ⟨Nat.le_of_eq hlen.symm, _, rfl, (List.take_prefix _ _).trans hpre⟩
      have hstarted := @Holds.setup e _ hwritten .sendHeader _ rfl rfl (some .payload) _ _ hbody
        fun hn => absurd hn (Option.some_ne_none _)
      exact ⟨rfl, hstarted.of_kept (Or.inl rfl) (Or.inl rfl)⟩
    | none =>
      dsimp only
      show Does _ (if e.sendAck = true then _ else _)
      split
      · have hwritten :
            Holds e { m with buffers := { m.buffers with
            sendAckHeader := ackHeader e.ackNumber } } :=
          ⟨{ h.holds.sizes with sendAckHeader := rfl }, h.holds.packet⟩
        have hstarted := @Holds.setup e _ hwritten .sendAckHeader _ rfl rfl none none 0
          (fun l hl => absurd hl (Option.some_ne_none l).symm) (fun _ => rfl)
        exact ⟨rfl, hstarted.of_kept (Or.inl rfl) (Or.inl rfl)⟩
      · exact ⟨rfl, h⟩

theorem startLeFrame_does (h : Placed e m) (hle : e.linkEstablishmentPacket ≠ .none) :
    Does (Ubcsp.startLeFrame e) (startLeFrame e.hollow m) := by
  exact ⟨rfl, (setup_le h.holds hle).of_kept (Or.inl rfl) (Or.inl rfl)⟩

theorem sendHalf_meets (h : Placed e m) :
    Meets Read.InBounds (Does (Ubcsp.sendHalf e)) (sendHalf e.hollow m) := by
  rcases sendHalf_cases e with
    ⟨hd, hc⟩ | ⟨hd, hs, hc⟩ | ⟨hd, hs, hp, hc⟩ | ⟨hd, hs, hp, hc⟩ <;> rw [hc] <;>
    unfold sendHalf
  · rw [if_pos (show e.hollow.delay ≠ 0 from hd)]
    exact .pure ⟨rfl, h⟩
  · rw [if_neg (show ¬ e.hollow.delay ≠ 0 from not_not.2 hd),
      if_pos (show e.hollow.sendSize ≠ 0 from hs)]
    exact sendOctet_meets h hs
  · rw [if_neg (show ¬ e.hollow.delay ≠ 0 from not_not.2 hd),
      if_neg (show ¬ e.hollow.sendSize ≠ 0 from not_not.2 hs),
        if_pos (show e.hollow.linkEstablishmentPacket = .none from hp)]
    exact .pure (startFrame_does h)
  · rw [if_neg (show ¬ e.hollow.delay ≠ 0 from not_not.2 hd),
      if_neg (show ¬ e.hollow.sendSize ≠ 0 from not_not.2 hs),
        if_neg (show ¬ e.hollow.linkEstablishmentPacket = .none from hp)]
    exact .pure (startLeFrame_does h hp)

/-- **A call of `ubcsp_poll`.** -/
theorem ubcspPoll_meets (stray : UInt8 → UInt8) (rx : List UInt8) (h : Placed e m) :
    Meets Read.InBounds (fun r => r.1 = (Ubcsp.ubcspPoll stray rx e).hollow ∧
      Placed (Ubcsp.ubcspPoll stray rx e).engine r.2) (ubcspPoll stray rx e.hollow m) := by
  refine .bind (sendHalf_meets h) fun r hr => ?_
  obtain ⟨s, m'⟩ := r
  obtain ⟨heq, hplaced⟩ := hr
  dsimp only at heq hplaced
  subst heq
  unfold Ubcsp.ubcspPoll
  dsimp only
  by_cases hret : (Ubcsp.sendHalf e).returned = true
  · rw [if_pos hret, if_pos (show (Ubcsp.sendHalf e).hollow.returned = true from hret)]
    exact .pure ⟨rfl, hplaced⟩
  · rw [if_neg hret, if_neg (show ¬ (Ubcsp.sendHalf e).hollow.returned = true from hret)]
    have hloop := receiveLoop_hollow (Ubcsp.sendHalf e).engine stray rx (Ubcsp.sendHalf e).activity
    have hheard := receiveLoop_heard stray rx (Ubcsp.sendHalf e).activity (Ubcsp.sendHalf e).engine
    obtain ⟨htx, hpacket⟩ := finishPoll_tx (Ubcsp.sendHalf e).delay
      (receiveLoop stray rx (Ubcsp.sendHalf e).activity (Ubcsp.sendHalf e).engine).2.2
    refine .pure ⟨?_, (hplaced.of_kept hheard.kept hheard.packet).of_kept (Or.inl htx)
      (Or.inl hpacket)⟩
    show PollResult.mk _ _ _ _ _ = _
    rw [show receiveLoop stray rx (Ubcsp.sendHalf e).hollow.activity
      (Ubcsp.sendHalf e).hollow.engine = _ from hloop]
    dsimp only
    rw [show (Ubcsp.sendHalf e).hollow.delay = (Ubcsp.sendHalf e).delay from rfl, finishPoll_hollow]
    rfl

end InPlace
end OpenwrtFeed.Ubcsp

namespace OpenwrtFeed.HciPoll
open Ubcsp HciQueue HciBridge Observed

/-- The driver with a hollow engine. -/
def Driver.hollow (d : Driver) : Driver := { d with engine := d.engine.hollow }

/-- What the opening has come to, with a hollow engine. -/
def Opening.hollow : Opening → Opening
  | .opened uart e => .opened uart e.hollow
  | o => o

/-! ## The driver never looks at the pointers -/

section
variable (d : Driver)

theorem onSent_hollow (a : Activity) : d.hollow.onSent a = (d.onSent a).hollow := by
  unfold Driver.onSent
  split <;> rfl

theorem onReceived_hollow (a : Activity) :
    d.hollow.onReceived a = ((d.onReceived a).1.hollow, (d.onReceived a).2) := by
  unfold Driver.onReceived
  split <;> rfl

theorem fetch_hollow (late : List Op) :
    d.hollow.fetch late = ((d.fetch late).1.hollow, (d.fetch late).2) := by
  unfold Driver.fetch
  rw [show d.hollow.queue = d.queue from rfl, show d.hollow.fetchNewCommand =
    d.fetchNewCommand from rfl]
  split
  · obtain ⟨p, q⟩ := dequeueIntoSendPacket (queueAll late d.queue)
    cases p <;> rfl
  · rfl

theorem act_hollow (r : PollResult) : InPlace.act r.hollow d.hollow = (InPlace.act r d).hollow := by
  show ((Driver.hollow { d with engine := r.engine, uart := r.rest }).onSent r.activity
    |>.onReceived r.activity).1 = _
  rw [onSent_hollow, onReceived_hollow]
  rfl

theorem serve_hollow (t : Turn) (r : PollResult) :
    InPlace.serve t r.hollow d.hollow =
    ((InPlace.serve t r d).1.hollow, (InPlace.serve t r d).2) := by
  unfold InPlace.serve
  rw [act_hollow]
  exact fetch_hollow { InPlace.act r d with queue := queueAll t.early (InPlace.act r d).queue }
    t.late

theorem onDelay_hollow (delay : Nat) :
    d.hollow.onDelay delay = ((d.onDelay delay).1.hollow, (d.onDelay delay).2) := by
  obtain ⟨e, uart, q, timeout, responseExpected, fetchNewCommand⟩ := d
  unfold Driver.onDelay
  split
  · cases fetchNewCommand with
    | true =>
      show (if 10000 ≤ timeout ∧ true = false then _ else _) =
        ((if 10000 ≤ timeout ∧ true = false then _ else _ : Driver × List BridgeSend).1.hollow,
          (if 10000 ≤ timeout ∧ true = false then _ else _ : Driver × List BridgeSend).2)
      split <;> rfl
    | false =>
      show (if 10000 ≤ timeout + 1 ∧ false = false then _ else _) =
        ((if 10000 ≤ timeout + 1 ∧ false = false then _ else _ : Driver × List BridgeSend).1.hollow,
          (if 10000 ≤ timeout + 1 ∧ false = false then _ else _ : Driver × List BridgeSend).2)
      split <;> rfl
  · rfl

end

namespace InPlace
open Ubcsp.InPlace
variable {stray : UInt8 → UInt8}

/-- A copy gives up the frame under way, and with it what may still be read of the payload
before. -/
theorem placed_copied {e : Engine} {m : Places} (h : Placed e m) {op : Op} (hop : op.Sized) :
    Placed (ubcspSendPacket op.packet e) (m.copied op.packet.payload) where
  holds := by
    have hpayload : (op.value ++ m.buffers.payload.drop op.value.length).length = 512 := by
      have hfits := hop.fits
      rw [List.length_append, List.length_drop, h.holds.sizes.payload]
      omega
    refine ⟨{ h.holds.sizes with payload := hpayload }, fun p hp => ?_⟩
    obtain rfl := Option.some.inj hp
    exact ⟨hop.counted, List.prefix_append _ _⟩
  current hs := absurd rfl hs
  next hs := absurd rfl hs

/-- **One turn.** -/
theorem turn_meets {d : Driver} {m : Places} (h : Placed d.engine m)
    (hq : Orderly Op.Sized d.queue) {t : Turn} (ht : ∀ op ∈ t.ops, op.Sized) :
    Meets Read.InBounds (fun r => r.1 = (d.poll stray t.arrived).tx ∧
      r.2.1 = (d.turn stray t).1.hollow ∧
      Placed (d.turn stray t).1.engine r.2.2 ∧ Orderly Op.Sized (d.turn stray t).1.queue)
      (turn stray t d.hollow m) := by
  refine .bind (ubcspPoll_meets stray (d.uart ++ t.arrived) h) fun r hr => ?_
  obtain ⟨r, m'⟩ := r
  obtain ⟨hpoll, hplaced⟩ := hr
  dsimp only at hpoll hplaced
  subst hpoll
  have hacted := (@Driver.acted_eq stray d t).1
  have hserves := @Driver.turn_serves _ stray d (fun _ hop => hop) hq t ht
  have hturn : ((d.served stray t).1.hollow.onDelay (d.poll stray t.arrived).delay).1 =
      (d.turn stray t).1.hollow := by
    rw [onDelay_hollow]
    rfl
  have hrearmed : Placed (d.acted stray t).1.engine m' := by
    rw [hacted]
    split
    · exact hplaced.of_kept (Or.inl rfl) (Or.inl rfl)
    · exact hplaced
  have hserve : serve t (Ubcsp.ubcspPoll stray (d.uart ++ t.arrived) d.engine).hollow d.hollow =
      ((d.served stray t).1.hollow, (d.served stray t).2) :=
        serve_hollow d t (d.poll stray t.arrived)
  show Meets _ _ (pure (_, ((serve t _ d.hollow).1.onDelay _).1,
    (serve t _ d.hollow).2.foldl (fun m c => m.copied c.packet.payload) m'))
  rw [hserve]
  have hleft : Placed (d.turn stray t).1.engine
      ((d.served stray t).2.foldl (fun m c => m.copied c.packet.payload) m') ∧
      Orderly Op.Sized (d.turn stray t).1.queue := by
    show Placed _ ((d.turn stray t).2.copied.foldl _ m') ∧ _
    generalize (d.turn stray t).1 = d', (d.turn stray t).2.copied = copied at hserves
    cases hserves with
    | waits heng hordered => exact ⟨heng ▸ hrearmed, hordered⟩
    | copies heng hordered hop => exact ⟨heng ▸ placed_copied hrearmed hop, hordered⟩
  exact .pure ⟨rfl, hturn, hleft⟩

/-- **A run of the loop.** -/
theorem run_meets {d : Driver} {m : Places} (h : Placed d.engine m) (hq : Orderly Op.Sized d.queue)
    {ts : List Turn} (hts : ∀ t ∈ ts, ∀ op ∈ t.ops, op.Sized) :
    Meets Read.InBounds (fun tx => tx = (d.polls stray ts).flatMap PollResult.tx)
    (run stray ts d.hollow m) := by
  induction ts generalizing d m with
  | nil => exact .pure rfl
  | cons t ts ih =>
    refine .bind (turn_meets h hq (hts t List.mem_cons_self)) fun r hr => ?_
    obtain ⟨tx, d', m'⟩ := r
    obtain ⟨htx, hd, hplaced, hordered⟩ := hr
    dsimp only at htx hd hplaced hordered
    subst htx hd
    refine .bind (ih hplaced hordered fun t ht => hts t (List.mem_cons_of_mem _ ht))
      fun rest hrest => ?_
    subst hrest
    exact .pure rfl

/-- What a run of the loop comes to in place. -/
structure Opens (tx : List UInt8) (o : Opening) (r : List UInt8 × Opening × Places) : Prop where
  tx : r.1 = tx
  opening : r.2.1 = o.hollow
  placed : ∀ uart e, o = .opened uart e → Placed e r.2.2

theorem Opens.prepend {before tx : List UInt8} {o : Opening} {r : List UInt8 × Opening × Places}
    (h : Opens tx o r) : Opens (before ++ tx) o (before ++ r.1, r.2) :=
  ⟨congrArg _ h.tx, h.opening, h.placed⟩

/-- **The opening.** -/
theorem openLoop_meets {e : Engine} {m : Places} (h : Placed e m) (turns : List (List UInt8))
    (timeout : Nat) (uart : List UInt8) :
    Meets Read.InBounds
    (Opens (openTx stray turns timeout uart e) (HciPoll.openLoop stray turns timeout uart e))
      (openLoop stray turns timeout uart e.hollow m) := by
  induction turns generalizing timeout uart e m with
  | nil => exact .pure ⟨rfl, rfl, fun _ _ ho => by cases ho⟩
  | cons arrived turns ih =>
    refine .bind (ubcspPoll_meets stray (uart ++ arrived) h) fun r hr => ?_
    obtain ⟨r, m'⟩ := r
    obtain ⟨hpoll, hplaced⟩ := hr
    dsimp only at hpoll hplaced
    subst hpoll
    unfold HciPoll.openLoop openTx
    dsimp only
    by_cases hreceived : (Ubcsp.ubcspPoll stray (uart ++ arrived) e).activity.received = true
    · rw [if_pos hreceived, if_pos hreceived,
        if_pos (show PollResult.activity (PollResult.hollow _) |>.received from hreceived)]
      refine .pure ⟨(List.append_nil _).symm, rfl, fun uart' e' ho => ?_⟩
      cases ho
      exact hplaced
    · rw [if_neg hreceived, if_neg hreceived,
        if_neg (show ¬ (PollResult.activity (PollResult.hollow _)).received = true from hreceived)]
      by_cases hdelay : (Ubcsp.ubcspPoll stray (uart ++ arrived) e).delay ≠ 0
      · rw [if_pos hdelay, if_pos hdelay,
          if_pos (show PollResult.delay (PollResult.hollow _) ≠ 0 from hdelay)]
        by_cases hlong : 5000 < timeout
        · rw [if_pos hlong, if_pos hlong, if_pos hlong]
          exact .pure ⟨(List.append_nil _).symm, rfl, fun _ _ ho => by cases ho⟩
        · rw [if_neg hlong, if_neg hlong, if_neg hlong]
          exact .bind (ih hplaced _ _) fun r hr => .pure hr.prepend
      · rw [if_neg hdelay, if_neg hdelay,
          if_neg (show ¬ PollResult.delay (PollResult.hollow _) ≠ 0 from hdelay)]
        exact .bind (ih hplaced _ _) fun r hr => .pure hr.prepend

theorem placed_start : Placed (ubcspReceivePacket receivePacket (ubcspInitialize .zero)) .zero where
  holds := ⟨⟨rfl, rfl, List.length_replicate, rfl⟩, fun p hp => by cases hp⟩
  current hs := absurd rfl hs
  next hs := absurd rfl hs

end InPlace

/-- **The driver sends in place what it is to send, and never reads beyond a buffer**: in every
run, whatever arrives and whatever the session thread queues, as long as every op has a payload
of its length that fits into `send_buffer`, and finds room in the queue arrays, which have no end
here. -/
theorem send_in_bounds (stray : UInt8 → UInt8) (opening : List (List UInt8)) (turns : List Turn)
    (hops : ∀ t ∈ turns, ∀ op ∈ t.ops, op.Sized) :
    (InPlace.drive stray opening turns).value = driveTx stray opening turns ∧
      ∀ r ∈ (InPlace.drive stray opening turns).events, r.InBounds := by
  have hmeets : Meets Read.InBounds (fun tx => tx = driveTx stray opening turns)
      (InPlace.drive stray opening turns) := by
    refine .bind (@InPlace.openLoop_meets stray _ _ InPlace.placed_start opening 0 []) fun r hr =>
      ?_
    obtain ⟨tx, o, m⟩ := r
    obtain ⟨htx, hopening, hplaced⟩ := hr
    dsimp only at htx hopening hplaced ⊢
    subst htx hopening
    unfold driveTx hciOpenDeviceInternal
    cases hopened : HciPoll.openLoop stray opening 0 []
      (ubcspReceivePacket receivePacket (ubcspInitialize .zero)) with
    | opened uart e =>
      have hstart : Placed (Driver.start uart e).engine m :=
        (hplaced uart e hopened).of_kept (Or.inl rfl) (Or.inl rfl)
      refine .bind (@InPlace.run_meets stray _ _ hstart Orderly.zero turns hops) fun rest hrest =>
        ?_
      subst hrest
      exact .pure rfl
    | polling => exact .pure (List.append_nil _).symm
    | timedOut => exact .pure (List.append_nil _).symm
  exact ⟨hmeets.value, hmeets.events⟩

/-- A reset command, whose frame is read from three buffers. -/
theorem send_in_bounds_reset :
    let turns := ⟨[], [reset], []⟩ :: List.replicate 30 ⟨[], [], []⟩
    ((InPlace.drive id startUp turns).value = driveTx id startUp turns ∧
      ∀ r ∈ (InPlace.drive id startUp turns).events, r.InBounds) ∧
      ⟨true, .payload, 2⟩ ∈ (InPlace.drive id startUp turns).events :=
  ⟨send_in_bounds id startUp _ (by decide), by decide +kernel⟩

end OpenwrtFeed.HciPoll
