import OpenwrtFeed.FrameAcceptance
import OpenwrtFeed.BridgeSession

/-! # The driver loop

`uart_bcsp_hci.c` drives the engine: `hci_open_device_internal` polls until the
controller has sent its first packet, and `hci_do_poll` then polls for ever, hands
received packets to the client, and gives the engine the next HCI op whenever
`fetchNewCommand` is set.

One turn of the loop is a function of the driver and of what happens meanwhile: the
octets that arrive at the UART, and the ops that the session thread queues before and
after the loop asks whether the queue is empty.  Octets the engine does not ask for
stay in the UART.  `send_buffer` holds an op of any length here, and the queue arrays any number
of ops; what a write beyond their ends can do is a matter of `Accessed.drive`.
-/
namespace OpenwrtFeed.HciPoll
open Ubcsp HciQueue HciBridge

/-! ## Constants -/

def hciEventChannel : UInt8 := 5
def hciAclChannel : UInt8 := 6

/-- The first octet of a hardware error event. -/
def hardwareError : UInt8 := 0x10

/-! ## `hci_open_device_internal` -/

/-- A receive packet of 512 octets, as `receive_packet` and `receive_buffer` are set up. -/
def receivePacket : Packet := ⟨0, 0, 512, List.replicate 512 0⟩

/-- How far `hci_open_device_internal` has come. -/
inductive Opening
  | polling
  | timedOut
  | opened (uart : List UInt8) (engine : Engine)

/-- The loop of `hci_open_device_internal`; the list holds the octets that arrive
during each of its turns. -/
def openLoop (stray : UInt8 → UInt8) : List (List UInt8) → Nat → List UInt8 → Engine → Opening
  | [], _, _, _ => .polling
  | arrived :: turns, timeout, uart, e =>
    let r := ubcspPoll stray (uart ++ arrived) e
    if r.activity.received then .opened r.rest r.engine
    else if r.delay ≠ 0 then
      if 5000 < timeout then .timedOut else openLoop stray turns (timeout + 1) r.rest r.engine
    else openLoop stray turns timeout r.rest r.engine

/-- `hci_open_device_internal`, from the call of `ubcsp_initialize`. -/
def hciOpenDeviceInternal (stray : UInt8 → UInt8) (turns : List (List UInt8)) : Opening :=
  openLoop stray turns 0 [] (ubcspReceivePacket receivePacket (ubcspInitialize .zero))

/-! ## `hci_do_poll` -/

/-- The variables of `hci_do_poll`, with the engine, the queue, and the octets still in
the UART. -/
structure Driver where
  engine : Engine
  uart : List UInt8
  queue : Queue
  timeout : Nat
  responseExpected : Bool
  fetchNewCommand : Bool

/-- `receive_packet` is given to the engine with its full length. -/
def rearm (e : Engine) : Engine := ubcspReceivePacket { e.receivePacket with length := 512 } e

/-- The driver at the head of the loop for the first time. -/
def Driver.start (uart : List UInt8) (e : Engine) : Driver :=
  ⟨rearm e, uart, .zero, 0, false, true⟩

/-- What happens during one turn: the octets that arrive, the ops queued before the loop
asks whether the queue is empty, and those queued between that and the dequeue. -/
structure Turn where
  arrived : List UInt8
  early : List Op
  late : List Op

/-- The session thread queues ops. -/
def queueAll (ops : List Op) (q : Queue) : Queue := ops.foldl (fun q op => queueHciOp op q) q

/-- An op copied into `send_packet`, and the packet the engine held before that. -/
structure Copy where
  held : Option Packet
  packet : Packet
deriving DecidableEq

/-- The call of `hci_bridge_send` for a received packet, if there is one. -/
def forward (p : Packet) : Option BridgeSend :=
  if p.channel = hciEventChannel then
    if p.payload.getD 0 0 ≠ hardwareError then
      some ⟨hciEvent, p.payload.take p.length.toNat, p.length⟩
    else none
  else if p.channel = hciAclChannel then some ⟨hciData, p.payload.take p.length.toNat, p.length⟩
  else none

namespace Driver

/-- The branch on `UBCSP_PACKET_SENT`. -/
def onSent (a : Activity) (d : Driver) : Driver :=
  if a.sent then
    { d with timeout := 0, fetchNewCommand := if d.responseExpected then
      d.fetchNewCommand else true }
  else d

/-- The branch on `UBCSP_PACKET_RECEIVED`. -/
def onReceived (a : Activity) (d : Driver) : Driver × List BridgeSend :=
  if a.received then
    ({ d with
        timeout := 0, responseExpected := false, fetchNewCommand := true
        engine := rearm d.engine },
      (forward d.engine.receivePacket).toList)
  else (d, [])

/-- The next op goes to the engine, if one is wanted and the queue is not empty. -/
def fetch (late : List Op) (d : Driver) : Driver × List Copy :=
  if d.fetchNewCommand && !isQueueEmpty d.queue then
    match dequeueIntoSendPacket (queueAll late d.queue) with
    | (some p, q) =>
      ({ d with
          engine := ubcspSendPacket p d.engine, queue := q
          responseExpected := true, fetchNewCommand := false },
        [⟨d.engine.sendPacket, p⟩])
    | (none, q) =>
      ({ d with queue := q, responseExpected := true, fetchNewCommand := false }, [])
  else ({ d with queue := queueAll late d.queue }, [])

/-- The branch on the delay that `ubcsp_poll` has returned. -/
def onDelay (delay : Nat) (d : Driver) : Driver × List BridgeSend :=
  if delay ≠ 0 then
    let d := if d.fetchNewCommand then d else { d with timeout := d.timeout + 1 }
    if 10000 ≤ d.timeout ∧ d.fetchNewCommand = false then
      ({ d with timeout := 0, fetchNewCommand := true, responseExpected := true },
        [⟨playgroundTimeout, [], 0⟩])
    else (d, [])
  else (d, [])

end Driver

/-- What can be seen of the driver from outside: the octets it takes from the UART, each
with the engine before it, the ops it copies, and the calls of `hci_bridge_send`. -/
structure Log where
  polled : List (Engine × UInt8)
  copied : List Copy
  sent : List BridgeSend

def Log.empty : Log := ⟨[], [], []⟩

def Log.append (l m : Log) : Log := ⟨l.polled ++ m.polled, l.copied ++ m.copied, l.sent ++ m.sent⟩

namespace Driver

/-- The call of `ubcsp_poll` of a turn. -/
def poll (stray : UInt8 → UInt8) (arrived : List UInt8) (d : Driver) : PollResult :=
  ubcspPoll stray (d.uart ++ arrived) d.engine

/-- The octets that this call takes, each with the engine before it. -/
def polled (stray : UInt8 → UInt8) (arrived : List UInt8) (d : Driver) : List (Engine × UInt8) :=
  pollStates stray (d.uart ++ arrived) d.engine

/-- The driver after the call and the branches on its activity. -/
def acted (stray : UInt8 → UInt8) (t : Turn) (d : Driver) : Driver × List BridgeSend :=
  let r := d.poll stray t.arrived
  ({ d with engine := r.engine, uart := r.rest }.onSent r.activity).onReceived r.activity

/-- The driver after it has looked at the queue. -/
def served (stray : UInt8 → UInt8) (t : Turn) (d : Driver) : Driver × List Copy :=
  let d := (d.acted stray t).1
  { d with queue := queueAll t.early d.queue }.fetch t.late

/-- One turn of the loop. -/
def turn (stray : UInt8 → UInt8) (t : Turn) (d : Driver) : Driver × Log :=
  let last := (d.served stray t).1.onDelay (d.poll stray t.arrived).delay
  (last.1, ⟨d.polled stray t.arrived, (d.served stray t).2, (d.acted stray t).2 ++ last.2⟩)

/-- A run of `hci_do_poll`. -/
def run (stray : UInt8 → UInt8) : List Turn → Driver → Driver × Log
  | [], d => (d, .empty)
  | t :: ts, d =>
    let r := run stray ts (d.turn stray t).1
    (r.1, (d.turn stray t).2.append r.2)

/-- Every turn of a run meets a condition on the driver before it. -/
def Throughout (stray : UInt8 → UInt8) (P : Driver → Turn → Prop) : List Turn → Driver → Prop
  | [], _ => True
  | t :: ts, d => P d t ∧ Throughout stray P ts (d.turn stray t).1

instance (stray : UInt8 → UInt8) (P : Driver → Turn → Prop) [∀ d t, Decidable (P d t)] :
    ∀ ts d, Decidable (Throughout stray P ts d)
  | [], _ => inferInstanceAs (Decidable True)
  | t :: ts, d =>
    have := instDecidableThroughout stray P ts (d.turn stray t).1
    inferInstanceAs (Decidable (_ ∧ _))

end Driver

/-! ## What the branches leave alone -/

namespace Driver

theorem onSent_keeps (a : Activity) (d : Driver) :
    (d.onSent a).engine = d.engine ∧ (d.onSent a).uart = d.uart ∧ (d.onSent a).queue = d.queue := by
  unfold onSent
  split <;> exact ⟨rfl, rfl, rfl⟩

theorem onReceived_keeps (a : Activity) (d : Driver) :
    (d.onReceived a).1.engine.sendPacket = d.engine.sendPacket ∧
      (d.onReceived a).1.uart = d.uart ∧ (d.onReceived a).1.queue = d.queue := by
  unfold onReceived
  split <;> exact ⟨rfl, rfl, rfl⟩

theorem fetch_keeps (late : List Op) (d : Driver) :
    (d.fetch late).1.engine.rx = d.engine.rx ∧ (d.fetch late).1.uart = d.uart := by
  unfold fetch
  split
  · split <;> exact ⟨rfl, rfl⟩
  · exact ⟨rfl, rfl⟩

/-- The timeout is all that the delay can lead to. -/
theorem onDelay_keeps (delay : Nat) (d : Driver) :
    (d.onDelay delay).1.engine = d.engine ∧ (d.onDelay delay).1.uart = d.uart ∧
      ∀ b ∈ (d.onDelay delay).2, b = ⟨playgroundTimeout, [], 0⟩ := by
  unfold onDelay
  split
  · dsimp only
    split <;> split <;> exact ⟨rfl, rfl, by simp⟩
  · exact ⟨rfl, rfl, by simp⟩

end Driver

/-! ## What the loop starts from -/

/-- The engine while and after `hci_open_device_internal` polls: in step with the
receiver of the SLIP code, with nothing to send. -/
structure Fresh (p : SlipCode.Partial UInt8) (armed : Bool) (e : Engine) : Prop where
  deframes : Deframes 512 p e
  armed : e.receiveArmed = armed
  room : 512 ≤ e.receivePacket.payload.length
  packet : e.sendPacket = none

theorem fresh_start : Fresh .empty true
    (ubcspReceivePacket receivePacket (ubcspInitialize .zero)) := by
  have hroom : 512 ≤ (List.replicate 512 (0 : UInt8)).length := by rw [List.length_replicate]
  exact ⟨⟨rfl, rfl, fun _ => rfl, fun _ => .empty rfl hroom rfl, fun _ => rfl⟩, rfl, hroom, rfl⟩

/-- One call keeps the engine fresh, and takes the receive packet away when it reports a
packet. -/
theorem Fresh.poll {p : SlipCode.Partial UInt8} {e : Engine} (h : Fresh p true e)
    (stray : UInt8 → UInt8) (rx : List UInt8) :
    ∃ p', Fresh p' (!(ubcspPoll stray rx e).activity.received) (ubcspPoll stray rx e).engine := by
  have hrel : e.SendsReliably := fun q hq => absurd (h.packet.symm.trans hq) (by simp)
  have hy := (ubcspPoll_frames stray h.deframes h.armed rx).2
  refine ⟨_, hy.deframes, hy.armed, hy.room, ?_⟩
  rcases (ubcspPoll_sends stray hrel rx).packet with hp | hp
  · exact hp.trans h.packet
  · exact hp

/-- **What `hci_do_poll` starts from**: nothing to send, and nothing received since the
end of the last frame. -/
theorem opened_fresh {stray : UInt8 → UInt8} {turns : List (List UInt8)} {uart : List UInt8}
    {e : Engine} (h : hciOpenDeviceInternal stray turns = .opened uart e) :
    Fresh .empty false e := by
  have loop : ∀ (turns : List (List UInt8)) (timeout : Nat) (u : List UInt8)
      (p : SlipCode.Partial UInt8)
      (e₀ : Engine), Fresh p true e₀ → openLoop stray turns timeout u e₀ = .opened uart e →
        Fresh .empty false e := by
    intro turns
    induction turns with
    | nil => exact fun _ _ _ _ _ h => nomatch h
    | cons arrived turns ih =>
      intro timeout u p e₀ hf hopen
      obtain ⟨p', hf'⟩ := hf.poll stray (u ++ arrived)
      unfold openLoop at hopen
      dsimp only at hopen
      split at hopen
      · rename_i hrec
        rw [hrec] at hf'
        obtain ⟨-, rfl⟩ := Opening.opened.inj hopen
        exact ⟨hf'.deframes.idle hf'.armed ▸ hf'.deframes, hf'.armed, hf'.room, hf'.packet⟩
      · rename_i hrec
        have hrec' : (ubcspPoll stray (u ++ arrived) e₀).activity.received = false := by
          simpa using hrec
        rw [hrec'] at hf'
        split at hopen
        · split at hopen
          · nomatch hopen
          · exact ih _ _ _ _ hf' hopen
        · exact ih _ _ _ _ hf' hopen
  exact loop turns 0 [] .empty _ fresh_start h

/-! ### A controller -/

/-- A CONF RESP, as a frame without a CRC. -/
def confRespFrame : List UInt8 := [0xC0, 0x00, 0x41, 0x00, 0xBE, 0xDE, 0xAD, 0xD0, 0xD0, 0xC0]

/-- An event of one octet that acknowledges nothing. -/
def eventFrame : List UInt8 := [0x00, 0x15, 0x00, 0xEA, 0x0E, 0xC0]

/-- An event of one octet that acknowledges the first op. -/
def ackingEventFrame : List UInt8 := [0x08, 0x15, 0x00, 0xE2, 0x0E, 0xC0]

/-- The controller answers link establishment and sends its first event. -/
def startUp : List (List UInt8) := [[], confRespFrame ++ eventFrame]

end OpenwrtFeed.HciPoll
