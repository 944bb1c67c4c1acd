import OpenwrtFeed.Delivery

/-! # Where two linked engines stand

A header has three bits for each of its two numbers, and nothing else tells a new packet
from one that is sent again.  On a lossy link the three bits are enough: what a station
expects next is what the other one is sending, or the packet after it, and which of the two
says whether the packet being sent has arrived (`LinkReachable.numbered`).

An active engine either holds a packet, or its upper layer may submit one
(`LinkReachable.slot`).
-/
namespace OpenwrtFeed.Ubcsp

/-! ## On the side of the protocol -/

/-- What holds of one side besides `Safe`: an active side without the permission to submit
is sending a packet, and a side that has accepted a packet is active. -/
structure Peer.Steady (x : Peer) : Prop where
  busy : x.link.state = .active → x.canSend = false → x.outstanding ≠ none
  opened : x.received ≠ [] → x.link.state = .active

theorem Peer.Steady.start : Peer.start.Steady where
  busy h := nomatch h
  opened h := absurd rfl h

/-- Only a CONF RESP makes a side active. -/
theorem Link.receive_active {l : Link} {k : Nat} (h : (l.receive k).state = .active) :
    l.state = .active ∨ k = 3 := by
  rcases k with _ | _ | _ | _ | k
  · left
    by_contra hna
    rw [Link.receive, if_pos hna] at h
    exact hna h
  · left
    by_contra hna
    rw [Link.receive] at h
    split at h
    · cases h
    · exact hna h
  · left
    rw [Link.receive] at h
    split at h <;> exact h
  · exact Or.inr rfl
  · exact Or.inl h

/-- Only a SYNC ends it. -/
theorem Link.active_receive {l : Link} {k : Nat} (hk : k ≠ 0) (h : l.state = .active) :
    (l.receive k).state = .active := by
  rcases k with _ | _ | _ | _ | k
  · exact absurd rfl hk
  · rw [Link.receive, if_neg (by simp [h])]
    exact h
  · rw [Link.receive, if_pos (by simp [h])]
    exact h
  · rfl
  · exact h

namespace Peer.Steady
variable {x y : Peer}

theorem acknowledge (h : x.Steady) (v : Nat) : (x.acknowledge v).Steady := by
  unfold Peer.acknowledge
  split
  · exact ⟨fun _ hs => (nomatch hs), h.opened⟩
  · exact h

theorem handle (h : x.Steady) {m : Message} {line : List Message} (hsound : Sound x y)
    (hline : y.line = m :: line) : (x.handle m).Steady := by
  cases m with
  | ack a => exact h
  | data a i p =>
    unfold Peer.handle
    dsimp only
    split
    · rename_i hcond
      exact ⟨h.busy, fun _ => hcond.1⟩
    · exact h
  | le k =>
    have hfits := hsound.2.fits _ (hline ▸ List.mem_cons_self)
    refine ⟨fun ha hs => ?_, fun hr => ?_⟩
    · obtain ⟨hcan, hend⟩ := Bool.or_eq_false_iff.1 hs
      refine h.busy ?_ hcan
      rcases Link.receive_active ha with hact | hk
      · exact hact
      · have hk' : k = .confResp := by cases k <;> first | rfl | cases hk
        simpa [hk'] using hend
    · have hact := h.opened hr
      refine Link.active_receive ?_ hact
      intro hk
      have hk' : k = .sync := by cases k <;> first | rfl | cases hk
      subst hk'
      exact hfits.2 hact

theorem step (h : x.Steady) {x' y' : Peer} (hsound : Sound x y) (hstep : PeerStep x y x' y') :
    x'.Steady := by
  cases hstep with
  | sendLe hp => exact ⟨h.busy, h.opened⟩
  | sendConfResp hp hr => exact ⟨h.busy, h.opened⟩
  | sendData hn hr hp => exact ⟨h.busy, h.opened⟩
  | sendAck hn hr hp => exact ⟨h.busy, h.opened⟩
  | submit p hs =>
    refine ⟨fun _ _ hnone => ?_, h.opened⟩
    -- everything before the new packet has been cleared, and nothing beyond it
    have hlen := List.getElem?_eq_none_iff.1 hnone
    have hle := Nat.le_trans hsound.1.cleared hsound.1.delivered.length_le
    rw [List.length_append, List.length_singleton] at hlen
    exact absurd (Nat.le_trans hlen hle) (Nat.not_succ_le_self _)
  | lose hline => exact ⟨h.busy, h.opened⟩
  | receive hline => exact (h.acknowledge _).handle (hsound.acknowledge hline) hline

/-- The other side is left alone but for its line. -/
theorem other (h : y.Steady) {x' y' : Peer} (hstep : PeerStep x y x' y') : y'.Steady := by
  cases hstep with
  | receive hline => exact ⟨h.busy, h.opened⟩
  | _ => exact h

end Peer.Steady

theorem PeersReachable.steady {a b : Peer} (h : PeersReachable a b) : a.Steady ∧ b.Steady := by
  induction h with
  | start => exact ⟨.start, .start⟩
  | left hreach hstep ih => exact ⟨ih.1.step hreach.sound hstep, ih.2.other hstep⟩
  | right hreach hstep ih => exact ⟨ih.1.other hstep, ih.2.step hreach.sound.symm hstep⟩

/-! ## On the stations -/

/-- **An active engine holds a packet exactly when its upper layer may not submit one.** -/
theorem LinkReachable.slot {x y : Station} (h : LinkReachable x y)
    (hact : x.engine.linkEstablishmentState = .active) :
    x.canSend = true ↔ x.engine.sendPacket = none := by
  obtain ⟨a, b, inX, outX, inY, outY, hl⟩ := h.runs
  have hstate : a.link.state = .active := (congrArg Link.state hl.left.runs.link).symm.trans hact
  rw [hl.left.canSend, hl.left.runs.sendPacket]
  constructor
  · exact fun hs => hl.reachable.sound.1.outstanding_eq_none hs
  · intro hnone
    cases hs : a.canSend with
    | true => rfl
    | false => exact absurd hnone (hl.reachable.steady.1.busy hstate hs)

/-- An engine that has reported a packet is active from then on. -/
theorem LinkReachable.opened {x y : Station} (h : LinkReachable x y) (hr : x.received ≠ []) :
    x.engine.linkEstablishmentState = .active := by
  obtain ⟨a, b, inX, outX, inY, outY, hl⟩ := h.runs
  have hstate : a.link.state = .active := hl.reachable.steady.1.opened (hl.left.received ▸ hr)
  exact (congrArg Link.state hl.left.runs.link).trans hstate

/-- The numbers that `x` sends under and that `y` expects. -/
structure Numbered (x y : Station) : Prop where
  /-- Both count packets, modulo 8. -/
  sequence : x.engine.sequenceNumber = seqNumber x.cleared.length
  expected : y.engine.ackNumber = seqNumber y.received.length
  /-- `y` expects the packet being sent exactly when it has received those cleared and no
  other. -/
  waiting : y.engine.ackNumber = x.engine.sequenceNumber ↔ y.received = x.cleared
  /-- Otherwise it has received the packet being sent, and expects the one after it. -/
  arrived : y.engine.ackNumber ≠ x.engine.sequenceNumber →
    y.engine.ackNumber = x.engine.sequenceNumber + 1 ∧
      ∃ p, x.engine.sendPacket = some p ∧ y.received = x.cleared ++ [p]

theorem Linked.numbered {x y : Station} {a b : Peer} {inX outX inY outY : List Message}
    (h : Linked x y a b inX outX inY outY) : Numbered x y := by
  obtain ⟨hab, -⟩ := h.reachable.sound
  have hle : a.cleared ≤ a.submitted.length := Nat.le_trans hab.cleared hab.delivered.length_le
  have hlen : x.cleared.length = a.cleared := by
    rw [h.left.cleared, List.length_take, Nat.min_eq_left hle]
  have hlen' : y.received.length = b.received.length := by rw [h.right.received]
  have hseq : x.engine.sequenceNumber = seqNumber a.cleared := h.left.runs.sequence
  have hack : y.engine.ackNumber = seqNumber b.received.length := h.right.runs.ack
  -- at most one packet has arrived that has not been cleared
  have hcount : b.received.length = a.cleared ∨ b.received.length = a.cleared + 1 := by
    have hlo := hab.cleared
    have hhi := Nat.le_trans hab.delivered.length_le hab.count
    omega
  have hprefix : b.received = a.submitted.take b.received.length :=
    List.prefix_iff_eq_take.1 hab.delivered
  have hsame : y.engine.ackNumber = x.engine.sequenceNumber ↔ b.received.length = a.cleared := by
    rw [hseq, hack, seqNumber_eq_iff]
    omega
  refine ⟨by rw [hlen]; exact hseq, by rw [hlen']; exact hack, ?_, fun hne => ?_⟩
  · rw [hsame, h.right.received, h.left.cleared]
    refine ⟨fun heq => by rw [← heq]; exact hprefix, fun heq => ?_⟩
    have := congrArg List.length heq
    rwa [List.length_take, Nat.min_eq_left hle] at this
  · have hmore : b.received.length = a.cleared + 1 :=
      hcount.resolve_left fun heq => hne (hsame.2 heq)
    refine ⟨by rw [hack, hseq, hmore]; exact seqNumber_succ a.cleared, ?_⟩
    have htake := a.take_outstanding
    rw [← hmore, ← hprefix] at htake
    cases hout : a.outstanding with
    | none =>
      rw [hout, Option.toList_none, List.append_nil] at htake
      have := congrArg List.length htake
      rw [List.length_take, Nat.min_eq_left hle] at this
      omega
    | some p =>
      refine ⟨p, h.left.runs.sendPacket.trans hout, ?_⟩
      rw [h.right.received, h.left.cleared, htake, hout, Option.toList_some]

theorem LinkReachable.numbered {x y : Station} (h : LinkReachable x y) : Numbered x y := by
  obtain ⟨a, b, inX, outX, inY, outY, hl⟩ := h.runs
  exact hl.numbered

/-- **The numbers never drift apart.**  Whatever is lost or cut off on the way, and in
whatever order the engines are called, the three bits that a station expects next are those
of the packet being sent to it or of the one after it, and which of the two says whether
that packet has arrived.  A piece that is `Lost` never arrives. -/
theorem LinkReachable.numbers_agree {x y : Station} (h : LinkReachable x y) :
    Numbered x y ∧ Numbered y x :=
  ⟨h.numbered, h.symm.numbered⟩

/-- The numbers agree when a packet has been sent three times and has arrived once. -/
theorem numbers_agree_exchange :
    let s := linkSchedule id id lossyExchange
    (s.2.received = [resetPacket] ∧ s.1.cleared = [resetPacket]) ∧ Numbered s.1 s.2 ∧
      Numbered s.2 s.1 := by
  obtain ⟨-, hreceived, hcleared, -, -⟩ := lossyExchange_ends
  exact ⟨⟨hreceived, hcleared⟩,
    LinkReachable.numbers_agree (linkSchedule_reachable id id lossyExchange)⟩

/-! ## What a system with other parts needs of the link -/

/-- The outgoing line depends on the engine and on what is on the line. -/
theorem Station.line_congr {x x' : Station} (he : x.engine = x'.engine)
    (hs : x.sending = x'.sending) (hf : x.flight = x'.flight) (tx : List UInt8) :
    x.line tx = x'.line tx := by
  unfold Station.line
  rw [he, hs, hf]

/-- A step that leaves one station alone leaves any other alone. -/
theorem StationStep.alone {y y' z z' : Station} (h : StationStep y z y' z') (hz : z' = z)
    (x : Station) :
    StationStep y x y' x := by
  cases h with
  | poll n => exact .poll n
  | submit p hs hp hr => exact .submit p hs hp hr
  | rearm q hoff hq hroom => exact .rearm q hoff hq hroom
  | drop hf => exact .drop hf
  | cut hf hw => exact .cut hf hw
  | @deliver after f hf hlost =>
    have hlen := congrArg (fun s : Station => s.inbox.length) hz
    simp [WireFrame.wire] at hlen

/-- The packets that a station has submitted can be sent. -/
theorem LinkReachable.submitted_sendable {x y : Station} (h : LinkReachable x y) :
    ∀ p ∈ x.submitted, p.Sendable := by
  obtain ⟨a, b, inX, outX, inY, outY, hl⟩ := h.runs
  intro p hp
  exact (hl.left.reliable p (hl.left.submitted ▸ hp)).1

/-- A packet that has been received can be sent. -/
theorem LinkReachable.received_sendable {x y : Station} (h : LinkReachable x y) :
    ∀ p ∈ x.received, p.Sendable := by
  obtain ⟨a, b, inX, outX, inY, outY, hl⟩ := h.runs
  exact fun p hp => h.symm.submitted_sendable p (hl.symm.inOrder.received.subset hp)

end OpenwrtFeed.Ubcsp
