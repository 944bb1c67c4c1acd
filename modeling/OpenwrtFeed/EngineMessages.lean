import OpenwrtFeed.MessageFrames

/-! # An engine takes a message

`EngineRuns e a` says that the engine `e` is at the side `a` of the link protocol:
the numbers of the engine are those of the side modulo 8.  When the closing
delimiter of a message arrives, the engine does what the side does with the message
(`endOfFrame_message`), and it reports what the upper layer has to know
(`Outcome`).
-/
namespace OpenwrtFeed.Ubcsp

/-- The engine `e` is at the side `a` of the protocol. -/
structure EngineRuns (e : Engine) (a : Peer) : Prop where
  link : e.link = a.link
  sendPacket : e.sendPacket = a.outstanding
  sequence : e.sequenceNumber = seqNumber a.cleared
  ack : e.ackNumber = seqNumber a.received.length

/-- What the engine `e'` has reported with `activity` after the side `a` has become
`a'`. -/
structure Outcome (a a' : Peer) (activity : Activity) (e' : Engine) : Prop where
  runs : EngineRuns e' a'
  peerReset : activity.peerReset = false
  canSend : a'.canSend = (a.canSend || activity.sent)
  submitted : a'.submitted = a.submitted
  cleared : a.submitted.take a'.cleared =
    a.submitted.take a.cleared ++ if activity.sent then a.outstanding.toList else []
  kept : activity.sent = false → a'.cleared = a.cleared
  received : a'.received = if activity.received then a.received ++ [e'.handedOver] else a.received

/-- The packets of a side are reliable. -/
def Peer.Reliable (a : Peer) : Prop := ∀ p ∈ a.submitted, p.Sendable ∧ p.reliable = 1

theorem Peer.Reliable.outstanding {a : Peer} (h : a.Reliable) {p : Packet}
    (hp : a.outstanding = some p) : p.Sendable ∧ p.reliable = 1 :=
  h p (List.mem_of_getElem? hp)

/-- The packets up to the one being sent. -/
theorem Peer.take_outstanding (a : Peer) :
    a.submitted.take (a.cleared + 1) = a.submitted.take a.cleared ++ a.outstanding.toList :=
  List.take_add_one

theorem Safe.outstanding_eq_none {a b : Peer} (h : Safe a b) (hs : a.canSend = true) :
    a.outstanding = none :=
  List.getElem?_eq_none (h.window hs)

/-! ## Acknowledging -/

/-- The acknowledgement of a message clears the packet in the engine when it clears it
on its side, and the engine reports it. -/
theorem receiveAck_message {d : Engine} {a b : Peer} {v : Nat} (hr : EngineRuns d a) (hs : Safe a b)
    (hrel : a.Reliable) (hv : headerAck d.receiveHeader = UInt8.ofNat (seqNumber v)) :
    Outcome a (a.acknowledge v) (receiveAck d).1 (receiveAck d).2 ∧
      (receiveAck d).1.received = false ∧ (receiveAck d).2.tx = d.tx := by
  have hseq : headerAck d.receiveHeader ≠ UInt8.ofNat d.sequenceNumber ↔ v % 8 ≠ a.cleared % 8 := by
    rw [hv, hr.sequence]
    exact not_congr (ofNat_seqNumber_eq_iff v a.cleared)
  by_cases hcond : v % 8 ≠ a.cleared % 8 ∧ a.outstanding.isSome
  · obtain ⟨p, hp⟩ := Option.isSome_iff_exists.mp hcond.2
    have hpr : p.reliable ≠ 0 := by
      rw [(hrel.outstanding hp).2]
      decide
    have hack : receiveAck d = (.packetSent,
        { d with sendPacket := none, sequenceNumber := d.sequenceNumber + 1, delay := 0 }) := by
      simp only [receiveAck, hseq.2 hcond.1, ne_eq, not_false_eq_true, if_true,
        hr.sendPacket.trans hp, hpr]
    have hside : a.acknowledge v = { a with cleared := a.cleared + 1, canSend := true } :=
      if_pos hcond
    rw [hack, hside]
    refine ⟨⟨⟨hr.link, ?_, ?_, hr.ack⟩, rfl, by simp [Activity.packetSent], rfl, ?_, nofun, rfl⟩,
      rfl, rfl⟩
    · exact (List.getElem?_eq_none hs.count).symm
    · rw [hr.sequence]
      exact (seqNumber_succ a.cleared).symm
    · exact a.take_outstanding
  · have hack : receiveAck d = (.none, d) := by
      unfold receiveAck
      split
      · rename_i hne
        cases hp : d.sendPacket with
        | none => rfl
        | some p =>
          refine absurd ⟨hseq.1 hne, ?_⟩ hcond
          rw [← hr.sendPacket, hp]
          rfl
      · rfl
    have hside : a.acknowledge v = a := if_neg hcond
    rw [hack, hside]
    exact ⟨⟨hr, rfl, by simp [Activity.none], rfl, by simp [Activity.none], fun _ => rfl, rfl⟩, rfl,
      rfl⟩

/-! ## Link establishment -/

/-- A payload that begins with the octets of a message is taken for it. -/
theorem whichLePayload_of_take {payload : List UInt8} {k : LePacket} (hk : k ≠ .none)
    (h : payload.take 4 = lePayload k) : whichLePayload payload = k.toNat := by
  have hrow : whichLePayload (lePayload k) = k.toNat ∧ (lePayload k).take 4 = lePayload k := by
    cases k with
    | none => exact absurd rfl hk
    | _ => decide
  rw [← hrow.1]
  exact whichLePayload_congr (h.trans hrow.2.symm)

/-- What a link-establishment packet makes the engine report: a CONF RESP that ends link
establishment is reported as a packet sent. -/
def leActivity (k : LePacket) (state : LinkState) : Activity :=
  if k = .confResp ∧ state ≠ .active then .packetSent else .none

@[simp] theorem leActivity_received (k : LePacket) (s : LinkState) :
    (leActivity k s).received = false := by
  unfold leActivity
  split <;> rfl

@[simp] theorem leActivity_peerReset (k : LePacket) (s : LinkState) :
    (leActivity k s).peerReset = false := by
  unfold leActivity
  split <;> rfl

@[simp] theorem leActivity_sent (k : LePacket) (s : LinkState) :
    (leActivity k s).sent = (decide (k = .confResp) && decide (s ≠ .active)) := by
  unfold leActivity
  by_cases hk : k = .confResp <;> by_cases hs : s = .active <;>
    simp [hk, hs, Activity.packetSent, Activity.none]

/-- A link-establishment packet, other than a SYNC that resets the peer, changes the
link-establishment variables; a CONF RESP is reported when it ends link
establishment, and abandons the frame being sent. -/
theorem receiveLe_of_payload {d : Engine} {k : LePacket} (activity : Activity)
    (hk : whichLePayload d.receivePacket.payload = k.toNat) (hnone : k ≠ .none)
    (hsync : k = .sync → d.linkEstablishmentState ≠ .active) :
    ∃ n, (n = d.sendSize ∨ n = 0) ∧
      receiveLe activity d =
        (activity.or (leActivity k d.linkEstablishmentState),
          { d.withLink (d.link.receive k.toNat) with delay := 0, sendSize := n }) := by
  unfold receiveLe
  dsimp only
  rw [hk]
  cases k with
  | none => exact absurd rfl hnone
  | sync =>
    refine ⟨d.sendSize, Or.inl rfl, ?_⟩
    simp [LePacket.toNat, Link.receive, Engine.withLink, Engine.link, leActivity, hsync rfl]
  | syncResp =>
    refine ⟨d.sendSize, Or.inl rfl, ?_⟩
    by_cases hu : d.linkEstablishmentState = .uninitialized <;>
      simp [LePacket.toNat, Link.receive, Engine.withLink, Engine.link, leActivity, hu]
  | conf =>
    refine ⟨d.sendSize, Or.inl rfl, ?_⟩
    by_cases hu : d.linkEstablishmentState = .uninitialized <;>
      simp [LePacket.toNat, Link.receive, Engine.withLink, Engine.link, leActivity, hu]
  | confResp =>
    by_cases ha : d.linkEstablishmentState = .active
    · refine ⟨d.sendSize, Or.inl rfl, ?_⟩
      simp [LePacket.toNat, Link.receive, Engine.withLink, Engine.link, leActivity, ha]
    · refine ⟨0, Or.inr rfl, ?_⟩
      simp [LePacket.toNat, Link.receive, Engine.withLink, Engine.link, leActivity, ha]

/-! ## A whole message -/

/-- The engine at the end of a message: what it has reported, and that it writes the
output side only to abandon the frame being sent. -/
structure Taken (a a' : Peer) (activity : Activity) (e e' : Engine) : Prop where
  outcome : Outcome a a' activity e'
  disarmed : activity.received = true → e'.receiveArmed = false
  tx : ∃ n, (n = e.sendSize ∨ n = 0) ∧ e'.tx = { e.tx with sendSize := n }

/-- The last two writes of `endOfFrame` concern nothing of this. -/
theorem Taken.finish {a a' : Peer} {activity : Activity} {e e' : Engine}
    (h : Taken a a' activity e e') (d : Nat) (i : Int) :
    Taken a a' activity e { e' with delay := d, receiveIndex := i } :=
  ⟨⟨⟨h.outcome.runs.link, h.outcome.runs.sendPacket, h.outcome.runs.sequence, h.outcome.runs.ack⟩,
    h.outcome.peerReset, h.outcome.canSend, h.outcome.submitted, h.outcome.cleared, h.outcome.kept,
    h.outcome.received⟩, h.disarmed, h.tx⟩

/-- When nothing has been handed over and the output side is untouched, later writes
elsewhere change nothing of what has become of the side. -/
theorem Outcome.taken {a a' : Peer} {activity : Activity} {d e e' : Engine}
    (h : Outcome a a' activity e) (hrec : activity.received = false) (htx : e.tx = d.tx)
    (hlink : e'.link = e.link) (hpacket : e'.sendPacket = e.sendPacket)
    (hseq : e'.sequenceNumber = e.sequenceNumber) (hack : e'.ackNumber = e.ackNumber)
    (htx' : e'.tx = e.tx) : Taken a a' activity d e' := by
  refine ⟨⟨⟨hlink.trans h.runs.link, hpacket.trans h.runs.sendPacket, hseq.trans h.runs.sequence,
    hack.trans h.runs.ack⟩, h.peerReset, h.canSend, h.submitted, h.cleared, h.kept, ?_⟩,
    ?_, d.sendSize, Or.inl rfl, htx'.trans htx⟩
  · rw [h.received, hrec]
    rfl
  · intro hr
    rw [hrec] at hr
    cases hr

section
variable {a b : Peer} {d : Engine} {line : List Message}

/-- An acknowledgement alone. -/
theorem receiveIntact_ack {v : Nat} (hr : EngineRuns d a) (hs : Safe a b) (hrel : a.Reliable)
    (hack : headerAck d.receiveHeader = UInt8.ofNat (seqNumber v))
    (hch : d.receivePacket.channel = 0) (hi : d.receiveIndex = 0) :
    Taken a ((a.acknowledge v).handle (.ack v)) (receiveIntact d).1 d (receiveIntact d).2 := by
  obtain ⟨hout, hrec, htx⟩ := receiveAck_message hr hs hrel hack
  rw [receiveIntact_empty (by rw [hch]; decide) hi]
  exact hout.taken hrec htx rfl rfl rfl rfl rfl

/-- A link-establishment message. -/
theorem receiveIntact_leMessage {k : LePacket} (hr : EngineRuns d a) (hs : Sound a b)
    (hline : b.line = .le k :: line) (hrel : a.Reliable)
    (hack : headerAck d.receiveHeader = UInt8.ofNat (seqNumber 0))
    (hch : d.receivePacket.channel = 1) (hk : whichLePayload d.receivePacket.payload = k.toNat)
    (hnone : k ≠ .none) :
    Taken a ((a.acknowledge 0).handle (.le k)) (receiveIntact d).1 d (receiveIntact d).2 := by
  obtain ⟨hout, hrec, htx⟩ := receiveAck_message hr hs.1 hrel hack
  have hs1 : Sound (a.acknowledge 0) b := hs.acknowledge hline
  have hlink := hout.runs.link
  have hstate : (receiveAck d).2.linkEstablishmentState = (a.acknowledge 0).link.state :=
    congrArg Link.state hlink
  obtain ⟨n, hn, hle⟩ := receiveLe_of_payload (d := (receiveAck d).2) (receiveAck d).1
    (by rw [receiveAck_receivePacket]; exact hk) hnone (fun hsync ha => by
      subst hsync
      exact (hs1.2.fits (.le .sync) (hline ▸ List.mem_cons_self)).2 (hstate.symm.trans ha))
  rw [receiveIntact_le hch, hle]
  have hsend : (receiveAck d).2.sendSize = d.sendSize := congrArg Tx.sendSize htx
  have hlink' : ((receiveAck d).2.link.receive k.toNat) =
      (a.acknowledge 0).link.receive k.toNat := by
    rw [hlink]
  refine ⟨⟨⟨hlink', hout.runs.sendPacket, hout.runs.sequence, hout.runs.ack⟩, ?_, ?_,
    hout.submitted, ?_, ?_, ?_⟩, ?_, n, hsend ▸ hn, ?_⟩
  · simp [hout.peerReset]
  · rw [Activity.or_sent, leActivity_sent, hstate, ← Bool.or_assoc, ← hout.canSend]
    rfl
  · show a.submitted.take (a.acknowledge 0).cleared = _
    rw [hout.cleared, Activity.or_sent, leActivity_sent, hstate]
    by_cases hna : (a.acknowledge 0).link.state = .active
    · simp [hna]
    · -- before link establishment is over nothing has been submitted
      have hnil : a.outstanding = none := by
        have hidle := (hs1.1.idle hna).1
        rw [hout.submitted] at hidle
        simp [Peer.outstanding, hidle]
      simp [hnil]
  · intro hsent
    rw [Activity.or_sent, Bool.or_eq_false_iff] at hsent
    exact hout.kept hsent.1
  · show (a.acknowledge 0).received = _
    rw [hout.received]
    simp [hrec]
  · intro h
    simp [hrec] at h
  · show { (receiveAck d).2.tx with sendSize := n } = _
    rw [htx]

theorem acknowledge_received (v : Nat) (a : Peer) : (a.acknowledge v).received = a.received := by
  unfold Peer.acknowledge
  split <;> rfl

theorem acknowledge_link (v : Nat) (a : Peer) : (a.acknowledge v).link = a.link := by
  unfold Peer.acknowledge
  split <;> rfl

/-- A packet: it is handed over when it is the next one. -/
theorem receiveIntact_dataMessage {v i : Nat} {p : Packet} (hr : EngineRuns d a) (hs : Safe a b)
    (hrel : a.Reliable) (hp : p.Sendable) (hreliable : p.reliable = 1)
    (hhead : header d.receiveHeader = (Message.data v i p).expectedHeader)
    (hpr : d.receivePacket.reliable = p.reliable) (hch : d.receivePacket.channel = p.channel)
    (hidx : d.receiveIndex = p.length.toNat)
    (hpay : d.receivePacket.payload.take p.length.toNat = p.payload) :
    Taken a ((a.acknowledge v).handle (.data v i p)) (receiveIntact d).1 d (receiveIntact d).2 := by
  obtain ⟨hout, hrec, htx⟩ := receiveAck_message hr hs hrel (congrArg Header.ack hhead)
  have hne : d.receivePacket.channel ≠ 1 := hch ▸ hp.channel
  have hne0 : d.receiveIndex ≠ 0 := by
    have := hp.nonempty
    have := hp.encodable.length
    omega
  have hr1 : d.receivePacket.reliable ≠ 0 := by
    rw [hpr, hreliable]
    decide
  have hstate : d.linkEstablishmentState = (a.acknowledge v).link.state := by
    rw [acknowledge_link]
    exact congrArg Link.state hr.link
  have hseq : headerSeq d.receiveHeader = UInt8.ofNat d.ackNumber ↔
      i % 8 = (a.acknowledge v).received.length % 8 := by
    rw [acknowledge_received, hr.ack, ← ofNat_seqNumber_eq_iff]
    exact iff_of_eq (congrArg (· = _) (congrArg Header.seq hhead))
  by_cases ha : d.linkEstablishmentState = .active
  · by_cases hnext : headerSeq d.receiveHeader = UInt8.ofNat d.ackNumber
    · have hside : (a.acknowledge v).handle (.data v i p) =
          { a.acknowledge v with received := (a.acknowledge v).received ++ [p] } :=
        if_pos ⟨hstate ▸ ha, hseq.1 hnext⟩
      rw [receiveIntact_new hne hne0 ha hr1 hnext, hside]
      refine ⟨⟨⟨hout.runs.link, hout.runs.sendPacket, hout.runs.sequence, ?_⟩, ?_, ?_,
        hout.submitted, ?_, ?_, ?_⟩, fun _ => rfl, d.sendSize, Or.inl rfl, htx⟩
      · show d.ackNumber + 1 = _
        rw [List.length_append, List.length_singleton, seqNumber_succ, acknowledge_received, hr.ack]
      · simp [hout.peerReset, Activity.packetReceivedAck]
      · simpa [Activity.packetReceivedAck] using hout.canSend
      · simpa [Activity.packetReceivedAck] using hout.cleared
      · simpa [Activity.packetReceivedAck] using hout.kept
      · have hrecv : ((receiveAck d).1.or .packetReceivedAck).received = true := by
          simp [Activity.packetReceivedAck]
        rw [if_pos hrecv, acknowledge_received]
        have hlen : headerLength d.receiveHeader = p.length := congrArg Header.length hhead
        simp only [Engine.handedOver, handOver, receiveAck_receivePacket,
          receiveAck_receiveHeader, hlen]
        rw [hpay, hch, hpr]
    · have hside : (a.acknowledge v).handle (.data v i p) = a.acknowledge v :=
        if_neg fun h => hnext (hseq.2 h.2)
      rw [receiveIntact_duplicate hne hne0 ha hr1 hnext, hside]
      exact hout.taken hrec htx rfl rfl rfl rfl rfl
  · have hside : (a.acknowledge v).handle (.data v i p) = a.acknowledge v :=
      if_neg fun h => ha (hstate ▸ h.1)
    rw [receiveIntact_inactive hne ha, hside]
    exact hout.taken hrec htx rfl rfl rfl rfl rfl

end

/-- **An engine takes a message** when its closing delimiter arrives: it goes on as its
side of the protocol does. -/
theorem endOfFrame_message {n : Nat} {m : Message} {line : List Message} {a b : Peer} {e : Engine}
    (hdef : Deframes n ⟨false, m.frame⟩ e) (harmed : e.receiveArmed = true) (hn : 512 ≤ n)
    (hm : m.Valid) (hr : EngineRuns e a) (hs : Sound a b) (hline : b.line = m :: line)
    (hrel : a.Reliable) (activity : Activity) :
    ∃ activity', (endOfFrame activity e).1 = activity.or activity' ∧
      Taken a ((a.acknowledge m.ackValue).handle m) activity' e (endOfFrame activity e).2 := by
  have hclip : clip n m.frame = m.frame := clip_of_le (by have := m.length_frame hm; omega)
  obtain ⟨harr, d, hend⟩ := endOfFrame_of_intact hdef harmed
    (by rw [hclip]; exact m.intact_frame hm) activity
  have hhead := m.header_frame hm
  have hdecoded : header (decoded e).receiveHeader = m.expectedHeader := harr.header.trans hhead
  have hr' : EngineRuns (decoded e) a := ⟨hr.link, hr.sendPacket, hr.sequence, hr.ack⟩
  have hpr : (decoded e).receivePacket.reliable = m.expectedHeader.reliable :=
    harr.reliable.trans (congrArg Header.reliable hhead)
  have hch : (decoded e).receivePacket.channel = m.expectedHeader.channel :=
    harr.channel.trans (congrArg Header.channel hhead)
  have hlen : headerLength m.frame = m.expectedHeader.length := congrArg Header.length hhead
  have hidx := harr.index
  have hpay := harr.payload
  rw [hclip, hlen] at hpay
  rw [hlen] at hidx
  rw [hend]
  refine ⟨(receiveIntact (decoded e)).1, rfl, ?_⟩
  -- the decoded engine differs in the receive buffers only
  have taken : Taken a ((a.acknowledge m.ackValue).handle m)
      (receiveIntact (decoded e)).1 (decoded e)
      (receiveIntact (decoded e)).2 := by
    cases m with
    | ack v => exact receiveIntact_ack hr' hs.1 hrel (congrArg Header.ack hdecoded) hch hidx
    | le k =>
      refine receiveIntact_leMessage hr' hs hline hrel (congrArg Header.ack hdecoded) hch
        (whichLePayload_of_take hm ?_) hm
      have hframe : framePayload (leFrame k) = lePayload k := by
        apply framePayload_sealedFrame rfl
        cases k with
        | none => exact absurd rfl hm
        | _ => rfl
      exact hpay.trans hframe
    | data v i p =>
      exact receiveIntact_dataMessage hr' hs.1 hrel hm.1 hm.2 hdecoded hpr hch hidx
        (hpay.trans (framePayload_dataFrame hm.1.encodable _ _))
  obtain ⟨houtcome, hdisarmed, htx⟩ := taken.finish d (-4)
  exact ⟨houtcome, hdisarmed, htx⟩

end OpenwrtFeed.Ubcsp
