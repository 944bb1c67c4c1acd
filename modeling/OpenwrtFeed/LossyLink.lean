import OpenwrtFeed.MessageFrames

/-! # Two engines on a lossy link

Each station runs one engine.  What its calls of `ubcsp_poll` put on the UART is
gathered into frames; whole frames travel to the other station, in order.  On
the way a frame may be lost, or cut off anywhere.  The octets of a delivered frame
wait in the UART of the other station, whose calls read as many of them as have
come in.

A frame that is cut off in the middle of an escape, and a cut-off piece of a frame
that was damaged when it was started (`WireFrame.damaged`), count as lost: they can
only be dropped.  Until a packet is submitted, no frame contains an escape.

The upper layer of a station submits a packet after a `UBCSP_PACKET_SENT`, and
gives the engine a receive packet when it has none.
-/
namespace OpenwrtFeed.Ubcsp

/-- The order of the link-establishment states, one step at a time. -/
def Advances (s s' : LinkState) : Prop :=
  s' = s ∨ (s = .uninitialized ∧ s' = .initialized) ∨ (s = .initialized ∧ s' = .active)

/-- A frame on the line: the octets between its delimiters, whether the closing
delimiter is there, and whether it was started with half an escape still pending. -/
structure WireFrame where
  octets : List UInt8
  closed : Bool
  damaged : Bool

namespace WireFrame

/-- The octets of the frame on the line. -/
def wire (f : WireFrame) : List UInt8 :=
  slipFrame :: f.octets ++ if f.closed then [slipFrame] else []

/-- The beginning `w` of the frame. -/
def cut (w : List UInt8) (f : WireFrame) : WireFrame := ⟨w, false, f.damaged⟩

/-- What is left of the frame counts as lost. -/
def Lost (f : WireFrame) : Prop :=
  f.closed = false ∧ (f.damaged = true ∨ f.octets.getLast? = some slipEscape)

end WireFrame

/-- A station: the engine, what `ubcsp_deslip` yields beyond its two entries, the upper
layer's record of what has happened, and the outgoing line. -/
structure Station where
  engine : Engine
  stray : UInt8 → UInt8
  /-- `UBCSP_PACKET_SENT` has been reported since the last packet was submitted. -/
  canSend : Bool
  submitted : List Packet
  /-- The packets that were being sent when `UBCSP_PACKET_SENT` was reported. -/
  cleared : List Packet
  /-- The packets reported with `UBCSP_PACKET_RECEIVED`. -/
  received : List Packet
  /-- `UBCSP_PEER_RESET` has been reported. -/
  peerReset : Bool
  /-- The link-establishment states the engine has gone through, octet by octet. -/
  states : List LinkState
  /-- The frame being put on the line. -/
  sending : Option WireFrame
  /-- The frames on their way, oldest first. -/
  flight : List WireFrame
  /-- The octets that have come in and have not been read. -/
  inbox : List UInt8

namespace Station

/-- A station whose engine has been started from zeroed storage. -/
def start (stray : UInt8 → UInt8) : Station where
  engine := ubcspInitialize .zero
  stray := stray
  canSend := false
  submitted := []
  cleared := []
  received := []
  peerReset := false
  states := [.uninitialized]
  sending := none
  flight := []
  inbox := []

/-- The outgoing line after one call has put the octets `tx` on it.  A delimiter outside
a frame starts one; a frame that is still under way then has been abandoned. -/
def line (tx : List UInt8) (x : Station) : List WireFrame × Option WireFrame :=
  if tx = [] then (x.flight, x.sending)
  else if x.engine.sendSize = 0 then
    (x.flight ++ x.sending.toList, some ⟨[], false, decide (x.engine.sendSlipEscape ≠ 0)⟩)
  else if tx.getLast? = some slipFrame then
    (x.flight ++ (x.sending.map fun f => ⟨f.octets ++ tx.dropLast, true, f.damaged⟩).toList, none)
  else (x.flight, x.sending.map fun f => { f with octets := f.octets ++ tx })

/-- The octets `tx` of one call go out. -/
def put (tx : List UInt8) (x : Station) : Station :=
  { x with flight := (x.line tx).1, sending := (x.line tx).2 }

/-- The upper layer takes note of what a call has reported.  `x` is the station before
the call, `visited` the states before each octet that has been read. -/
def report (x : Station) (activity : Activity) (visited : List LinkState) (inbox : List UInt8)
    (e : Engine) : Station :=
  { x with
    engine := e
    canSend := x.canSend || activity.sent
    cleared := if activity.sent then x.cleared ++ x.engine.sendPacket.toList else x.cleared
    received := if activity.received then x.received ++ [e.handedOver] else x.received
    peerReset := x.peerReset || activity.peerReset
    states := x.states ++ visited ++ [e.linkEstablishmentState]
    inbox := inbox }

/-- A call of `ubcsp_poll` when `n` of the octets in the UART have come in. -/
def poll (n : Nat) (x : Station) : Station :=
  let r := ubcspPoll x.stray (x.inbox.take n) x.engine
  (x.put r.tx).report r.activity
    ((pollStates x.stray (x.inbox.take n) x.engine).map fun s => s.1.linkEstablishmentState)
    (r.rest ++ x.inbox.drop n) r.engine

end Station

/-- One step of the station `x`, facing `y`. -/
inductive StationStep : Station → Station → Station → Station → Prop
  | poll {x y : Station} (n : Nat) : StationStep x y (x.poll n) y
  | submit {x y : Station} (p : Packet) : x.canSend = true → p.Sendable → p.reliable = 1 →
      StationStep x y
        { x with
          engine := ubcspSendPacket p x.engine
          submitted := x.submitted ++ [p]
          canSend := false } y
  | rearm {x y : Station} (q : Packet) : x.engine.receiveArmed = false →
      512 ≤ q.length.toNat → q.length.toNat ≤ q.payload.length →
      StationStep x y { x with engine := ubcspReceivePacket q x.engine } y
  | drop {x y : Station} {before after : List WireFrame} {f : WireFrame} :
      x.flight = before ++ f :: after → StationStep x y { x with flight := before ++ after } y
  | cut {x y : Station} {before after : List WireFrame} {f : WireFrame} {w : List UInt8} :
      x.flight = before ++ f :: after → w <+: f.octets →
      StationStep x y { x with flight := before ++ f.cut w :: after } y
  | deliver {x y : Station} {after : List WireFrame} {f : WireFrame} :
      x.flight = f :: after → ¬ f.Lost →
      StationStep x y { x with flight := after } { y with inbox := y.inbox ++ f.wire }

/-- The pairs of stations that can be reached from two engines that have been started. -/
inductive LinkReachable : Station → Station → Prop
  | start (stray stray' : UInt8 → UInt8) : LinkReachable (.start stray) (.start stray')
  | left {x y x' y' : Station} : LinkReachable x y → StationStep x y x' y' → LinkReachable x' y'
  | right {x y x' y' : Station} : LinkReachable x y → StationStep y x y' x' → LinkReachable x' y'

theorem LinkReachable.symm {x y : Station} (h : LinkReachable x y) : LinkReachable y x := by
  induction h with
  | start stray stray' => exact .start stray' stray
  | left _ hstep ih => exact ih.right hstep
  | right _ hstep ih => exact ih.left hstep

end OpenwrtFeed.Ubcsp
