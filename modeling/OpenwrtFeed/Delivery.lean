import OpenwrtFeed.PlainFrames
import OpenwrtFeed.LinkSchedule

/-! # What two engines on a lossy link guarantee

The results about the link protocol, carried over to the engines: packets arrive
once and in order (`LinkReachable.exactly_once`), and the two sides agree on link
establishment (`LinkReachable.agreement`).
-/
namespace OpenwrtFeed.Ubcsp

/-- What one station has reported, compared with the other. -/
structure InOrder (x y : Station) : Prop where
  /-- What `y` reports received is the beginning of what `x` has submitted. -/
  received : y.received <+: x.submitted
  /-- What `x` reports sent has been received. -/
  cleared : x.cleared <+: y.received
  /-- A packet that the engine of `x` no longer holds has been reported sent. -/
  outstanding : x.submitted = x.cleared ++ x.engine.sendPacket.toList

theorem Linked.inOrder {x y : Station} {a b : Peer} {inX outX inY outY : List Message}
    (h : Linked x y a b inX outX inY outY) : InOrder x y := by
  obtain ⟨hab, -⟩ := h.reachable.sound
  have hprefix := hab.delivered
  refine ⟨?_, ?_, ?_⟩
  · rw [h.right.received, h.left.submitted]
    exact hprefix
  · rw [h.left.cleared, h.right.received, List.prefix_iff_eq_take.mp hprefix]
    exact List.take_prefix_take_left hab.cleared
  · rw [h.left.submitted, h.left.cleared, h.left.runs.sendPacket]
    exact (List.take_of_length_le hab.count).symm.trans a.take_outstanding

/-- **Packets are delivered exactly once and in order.**  Whatever is lost or cut off on
the way, and in whatever order the engines are called, the packets that one station
reports received are a beginning of those the other has submitted, and every packet
that has been reported sent is among them. -/
theorem LinkReachable.exactly_once {x y : Station} (h : LinkReachable x y) :
    InOrder x y ∧ InOrder y x := by
  obtain ⟨a, b, inX, outX, inY, outY, hl⟩ := h.runs
  exact ⟨hl.inOrder, hl.symm.inOrder⟩

/-- A packet whose frame has been lost, and then cut off, has arrived once. -/
theorem exactly_once_exchange :
    let s := linkSchedule id id lossyExchange
    (s.1.submitted = [resetPacket] ∧ s.2.received = [resetPacket] ∧ s.1.cleared = [resetPacket]) ∧
      InOrder s.1 s.2 ∧ InOrder s.2 s.1 := by
  obtain ⟨hsubmitted, hreceived, hcleared, -, -⟩ := lossyExchange_ends
  exact ⟨⟨hsubmitted, hreceived, hcleared⟩,
    LinkReachable.exactly_once (linkSchedule_reachable id id lossyExchange)⟩

/-- The link establishment of one station, compared with the other. -/
structure Agrees (x y : Station) : Prop where
  /-- The engine has gone through the states in their order, one at a time. -/
  first : x.states.head? = some .uninitialized
  current : x.states.getLast? = some x.engine.linkEstablishmentState
  advances : x.states.IsChain Advances
  /-- When the engine is active, the other one has been initialized. -/
  ahead : x.engine.linkEstablishmentState = .active →
    y.engine.linkEstablishmentState ≠ .uninitialized
  peerReset : x.peerReset = false
  /-- Until a packet is submitted, every beginning of a frame may arrive. -/
  truncated : x.submitted = [] → ∀ f ∈ x.flight, ¬ f.Lost

theorem Linked.agrees {x y : Station} {a b : Peer} {inX outX inY outY : List Message}
    (h : Linked x y a b inX outX inY outY)
    (hlost : x.submitted = [] → ∀ f ∈ x.flight, ¬ f.Lost) : Agrees x y := by
  obtain ⟨-, hba⟩ := h.reachable.sound
  refine ⟨h.left.first, h.left.current, h.left.advances, ?_, h.left.peerReset, hlost⟩
  intro ha
  have hx : x.engine.linkEstablishmentState = a.link.state := congrArg Link.state h.left.runs.link
  have hy : y.engine.linkEstablishmentState = b.link.state := congrArg Link.state h.right.runs.link
  rw [hy]
  exact (hba.ahead (hx.symm.trans ha)).1

/-- **The two sides agree on link establishment.**  Each engine goes from uninitialized
to initialized to active and never skips or goes back, an active engine faces one
that is at least initialized, and no engine reports a peer reset. -/
theorem LinkReachable.agreement {x y : Station} (h : LinkReachable x y) :
    Agrees x y ∧ Agrees y x := by
  obtain ⟨a, b, inX, outX, inY, outY, hl⟩ := h.runs
  exact ⟨hl.agrees h.not_lost, hl.symm.agrees h.symm.not_lost⟩

/-- Both engines have become active. -/
theorem agreement_exchange :
    let s := linkSchedule id id lossyExchange
    (s.1.engine.linkEstablishmentState = .active ∧ s.2.engine.linkEstablishmentState = .active) ∧
      Agrees s.1 s.2 ∧ Agrees s.2 s.1 := by
  obtain ⟨-, -, -, hactive, hactive'⟩ := lossyExchange_ends
  exact ⟨⟨hactive, hactive'⟩, LinkReachable.agreement (linkSchedule_reachable id id lossyExchange)⟩

end OpenwrtFeed.Ubcsp
