import OpenwrtFeed.ErrorDetection
import OpenwrtFeed.LinkNumbers

/-! # Two engines on a noisy link

A noisy line does more than lose frames: it alters octets on their way, and it lets
octets come in that nobody has sent.  What the header checksum and the CRC detect
(`Altered`) becomes noise, and noise is what a receiver reads between messages anyway.  So
the sides of the link protocol cannot tell a noisy line from a lossy one, and everything
that rests on the protocol alone survives: packets arrive once and in order, the numbers
agree, and the handshake takes its course (`NoisyReachable.undisturbed`).

An altered frame is marked as one that was started with half an escape pending is: a piece
of it counts as lost.
-/
namespace OpenwrtFeed.Ubcsp

/-- A whole frame of the octets `s`, on the line as noise. -/
def WireFrame.noise (s : List UInt8) : WireFrame := ⟨slipStuff s, true, true⟩

/-- One step of the station `x`, facing `y`, or one of the noise on the line from `x`. -/
inductive NoisyStep : Station → Station → Station → Station → Prop
  | step {x y x' y' : Station} : StationStep x y x' y' → NoisyStep x y x' y'
  /-- A whole frame is altered, once its escapes are taken out. -/
  | alter {x y : Station} {before after : List WireFrame} {s s' : List UInt8} :
      x.flight = before ++ ⟨slipStuff s, true, false⟩ :: after → Altered s s' → s' ≠ s →
      NoisyStep x y { x with flight := before ++ .noise s' :: after } y
  /-- A frame comes in that nobody has sent, and that the checks reject. -/
  | stray {x y : Station} {before after : List WireFrame} {s : List UInt8} :
      x.flight = before ++ after → Noise s →
      NoisyStep x y { x with flight := before ++ .noise s :: after } y

/-- The pairs of stations that can be reached from two engines that have been started, over
noisy lines. -/
inductive NoisyReachable : Station → Station → Prop
  | start (stray stray' : UInt8 → UInt8) : NoisyReachable (.start stray) (.start stray')
  | left {x y x' y' : Station} : NoisyReachable x y → NoisyStep x y x' y' → NoisyReachable x' y'
  | right {x y x' y' : Station} : NoisyReachable x y → NoisyStep y x y' x' → NoisyReachable x' y'

theorem NoisyReachable.symm {x y : Station} (h : NoisyReachable x y) : NoisyReachable y x := by
  induction h with
  | start stray stray' => exact .start stray' stray
  | left _ hstep ih => exact ih.right hstep
  | right _ hstep ih => exact ih.left hstep

/-! ## Noise on the line -/

/-- **The frame of a message that has been altered is noise.** -/
theorem Altered.noise {m : Message} (hm : m.Valid) {s : List UInt8} (halt : Altered m.frame s)
    (hne : s ≠ m.frame) : Noise s := by
  intro n hn
  have hcrc : headerCrc m.frame ≠ 0 := by
    have hflag : headerCrc m.frame = 1 :=
      (congrArg Header.crc (Message.header_frame hm)).trans (by cases m <;> rfl)
    rw [hflag]
    decide
  have hlen : s.length = m.frame.length := by
    cases halt with
    | header _ _ h => exact h.1
    | payload _ _ _ _ _ h => exact h.1
    | crc h => exact h.1
  have hroom : s.length ≤ 4 + n := by
    have := Message.length_frame hm
    omega
  rw [clip_of_le hroom]
  exact halt.not_intact (Message.intact_frame hm) hcrc hne

/-- A whole frame on the line that has not been altered is the frame of a message. -/
theorem WireFrame.Brings.message {s : List UInt8} {ms : List Message}
    (h : WireFrame.Brings ⟨slipStuff s, true, false⟩ ms) :
    ∃ m, m.Valid ∧ s = m.frame ∧ ms = [m] := by
  generalize hf : (⟨slipStuff s, true, false⟩ : WireFrame) = f at h
  cases h with
  | whole closed hm =>
    have hs : slipStuff s = slipStuff _ := congrArg WireFrame.octets hf
    exact ⟨_, hm, (ubcspSlip id).stuff_injective hs, rfl⟩
  | piece hm hw hne => exact nomatch congrArg WireFrame.closed hf
  | damaged hs => exact nomatch congrArg WireFrame.damaged hf
  | lost => exact nomatch congrArg WireFrame.damaged hf

/-- A frame of noise among others brings nothing. -/
theorem FlightBrings.insert {before after : List WireFrame} {s : List UInt8} {ms : List Message}
    (hs : Noise s) (h : FlightBrings (before ++ after) ms) :
    FlightBrings (before ++ .noise s :: after) ms := by
  obtain ⟨ms₁, ms₂, rfl, h₁, h₂⟩ := h.split
  exact h₁.append (.cons (.damaged hs) h₂)

/-! ## The protocol goes on -/

/-- A frame that nobody has sent is no step of the protocol. -/
theorem Runs.insert {x y : Station} (h : Runs x y) {before after : List WireFrame} {s : List UInt8}
    (hx : x.flight = before ++ after) (hs : Noise s) :
    Runs { x with flight := before ++ .noise s :: after } y := by
  obtain ⟨a, b, inX, outX, inY, outY, hl⟩ := h
  obtain ⟨ms, ms', hflight, hsending, hout⟩ := hl.left.line
  rw [hx] at hflight
  exact ⟨a, b, inX, outX, inY, outY,
    ⟨hl.left.runs, hl.left.reliable, hl.left.escape, hl.left.canSend, hl.left.submitted,
      hl.left.cleared, hl.left.received, hl.left.peerReset, hl.left.first, hl.left.current,
        hl.left.advances, hl.left.inbox,
      ms, ms', hflight.insert hs, hsending, hout⟩,
    hl.right, hl.lineLeft, hl.lineRight, hl.reachable⟩

/-- **Noise is no worse than loss**: every step over a noisy line is a number of steps of the
protocol. -/
theorem Runs.noisyStep {x y x' y' : Station} (h : Runs x y) (hstep : NoisyStep x y x' y') :
    Runs x' y' := by
  cases hstep with
  | step hstep => exact h.step hstep
  | @alter before after s s' hx halt hne =>
    -- to the protocol the altered frame is lost
    have := h.replace [.noise s'] hx fun ms hf => by
      obtain ⟨m, hm, rfl, rfl⟩ := hf.message
      exact ⟨[], List.nil_sublist _, .cons (.damaged (halt.noise hm hne)) .nil⟩
    rwa [List.append_assoc] at this
  | stray hx hs => exact h.insert hx hs

theorem NoisyReachable.runs {x y : Station} (h : NoisyReachable x y) : Runs x y := by
  induction h with
  | start stray stray' => exact (LinkReachable.start stray stray').runs
  | left _ hstep ih => exact ih.noisyStep hstep
  | right _ hstep ih => exact (ih.symm.noisyStep hstep).symm

/-- What one station can rely on, whatever the noise does. -/
structure Undisturbed (x y : Station) : Prop where
  inOrder : InOrder x y
  numbered : Numbered x y
  /-- The engine takes the states of link establishment in their order. -/
  advances : x.states.IsChain Advances
  /-- When it is active, the other one has been initialized. -/
  ahead : x.engine.linkEstablishmentState = .active →
    y.engine.linkEstablishmentState ≠ .uninitialized
  peerReset : x.peerReset = false

theorem Linked.withstands {x y : Station} {a b : Peer} {inX outX inY outY : List Message}
    (h : Linked x y a b inX outX inY outY) : Undisturbed x y where
  inOrder := h.inOrder
  numbered := h.numbered
  advances := h.left.advances
  ahead hact := by
    obtain ⟨-, hba⟩ := h.reachable.sound
    have hx : x.engine.linkEstablishmentState = a.link.state := congrArg Link.state h.left.runs.link
    have hy : y.engine.linkEstablishmentState = b.link.state :=
      congrArg Link.state h.right.runs.link
    rw [hy]
    exact (hba.ahead (hx.symm.trans hact)).1
  peerReset := h.left.peerReset

/-- **Noise that the checks detect does no harm.**  Whatever is lost, cut off, altered or
added on the way, packets arrive once and in order, the numbers do not drift apart, and no
engine takes noise for a message of link establishment.  A piece of an altered frame, like every
piece that is `Lost`, never arrives. -/
theorem NoisyReachable.undisturbed {x y : Station} (h : NoisyReachable x y) :
    Undisturbed x y ∧ Undisturbed y x := by
  obtain ⟨a, b, inX, outX, inY, outY, hl⟩ := h.runs
  exact ⟨hl.withstands, hl.symm.withstands⟩

/-! ### A SYNC that is altered -/

/-- A station that has sent a SYNC. -/
def syncSent : Station := (Station.poll 0)^[11] (.start id)

/-- The frame of a SYNC with another first octet of its payload. -/
def syncAltered : List UInt8 := (leFrame .sync).set 4 0xDB

/-- The station when the frame has been altered on its way. -/
def syncDisturbed : Station := { syncSent with flight := [.noise syncAltered] }

set_option maxRecDepth 1000 in
theorem syncSent_flight : syncSent.flight = [⟨slipStuff (leFrame .sync), true, false⟩] := rfl

theorem undisturbed_altered :
    Undisturbed syncDisturbed (.start id) ∧ Undisturbed (.start id) syncDisturbed := by
  have hpolls : ∀ n, NoisyReachable ((Station.poll 0)^[n] (.start id)) (.start id) := by
    intro n
    induction n with
    | zero => exact .start id id
    | succ n ih =>
      rw [Function.iterate_succ_apply']
      exact ih.left (.step (.poll 0))
  have halter : NoisyStep syncSent (.start id) syncDisturbed (.start id) :=
    @NoisyStep.alter syncSent (.start id) [] [] _ _ syncSent_flight
      (.payload 4 1 (by decide) (by decide) (by decide) (by decide)) (by decide)
  exact NoisyReachable.undisturbed ((hpolls 11).left halter)

end OpenwrtFeed.Ubcsp
