import OpenwrtFeed.FrameDelivery
import OpenwrtFeed.FrameEmission
import OpenwrtFeed.LinkState

/-! # One packet over the wire

A sender that has a packet and nothing else to send puts the frame of the packet
on the UART, one octet a call (`transmit_frame`).  A receiver that is fed these
octets, cut up in any way, reports the packet (`feed_delivers`).  Between the two
is the SLIP code: the sender's octets are the stuffing of the frame and the
receiver undoes it, whatever octets the header, the payload and the CRC consist
of (`wire_round_trip`).
-/
namespace OpenwrtFeed.Ubcsp

/-- A packet the engine can carry: encodable, not on the link-establishment channel,
and of 1 to 510 octets, so that it fits with its CRC into a receive packet. -/
structure Packet.Sendable (p : Packet) : Prop where
  encodable : p.Encodable
  channel : p.channel ≠ 1
  nonempty : 1 ≤ p.payload.length
  short : p.payload.length ≤ 510

/-! ## The sender -/

/-- `n` calls of `ubcsp_poll` with nothing to receive: the octets given to the UART,
and the engine afterwards. -/
def transmit (stray : UInt8 → UInt8) : Nat → Engine → List UInt8 × Engine
  | 0, e => ([], e)
  | n + 1, e =>
    let r := ubcspPoll stray [] e
    (r.tx ++ (transmit stray n r.engine).1, (transmit stray n r.engine).2)

/-- A call with nothing to receive, when its sending half does not return. -/
theorem ubcspPoll_nil (stray : UInt8 → UInt8) {e e' : Engine} {w : List UInt8} {a : Activity}
    {d : Nat} (h : sendHalf e = ⟨w, a, d, false, e'⟩) :
    ubcspPoll stray [] e = ⟨a, (finishPoll d e').delay, w, [], finishPoll d e'⟩ := by
  unfold ubcspPoll
  rw [h]
  rfl

/-- The engine keeps sending until the frame under way is closed. -/
theorem transmit_rest (stray : UInt8 → UInt8) {e : Engine} (h : e.tx.Framed) (hs : e.sendSize ≠ 0)
    (hd : e.delay = 0) :
    ∃ n, (transmit stray n e).1 = e.tx.pendingWire ∧ (transmit stray n e).2.sendSize = 0 := by
  generalize hk : e.tx.pendingWire.length = k
  -- by induction on the number of octets left
  induction k using Nat.strong_induction_on generalizing e with
  | _ k ih =>
    have hsend : sendHalf e = sendOctet e := by simp [sendHalf, hd, hs]
    rcases sendOctet_pending h hs with
      ⟨w, t, hcall, hf, hs', -, hw, hrest⟩ | ⟨w, t, hcall, -, hclosed, -, hrest⟩
    · have hpoll := ubcspPoll_nil stray (hsend.trans hcall)
      have hfinish : finishPoll 0 (e.withTx t) = { e.withTx t with delay := 0 } := by
        simp [finishPoll, Engine.withTx, hd]
      rw [hfinish] at hpoll
      have hlen : t.pendingWire.length < k := by
        rw [← hk, ← hrest, List.length_append]
        have := List.length_pos_of_ne_nil hw
        omega
      obtain ⟨n, hn, hend⟩ := ih _ hlen (e := { e.withTx t with delay := 0 }) hf hs' rfl rfl
      refine ⟨n + 1, ?_⟩
      simp only [transmit, hpoll, hn]
      exact ⟨hrest, hend⟩
    · have hpoll := ubcspPoll_nil stray (hsend.trans hcall)
      refine ⟨1, ?_⟩
      simp only [transmit, hpoll, List.append_nil]
      refine ⟨hrest, ?_⟩
      have hsent : (sentPacket (e.withTx t)).2.sendSize = 0 := by
        rcases sentPacket_eq (e.withTx t) with
          ⟨hsent, -⟩ | ⟨hsent, -⟩ <;> rw [hsent] <;> exact hclosed
      unfold finishPoll
      split <;> exact hsent

/-- **The sender puts the frame of its packet on the UART.** -/
theorem transmit_frame (stray : UInt8 → UInt8) {e : Engine} {p : Packet} (hp : p.Sendable)
    (hsend : e.sendPacket = some p) (hsize : e.sendSize = 0) (hesc : e.sendSlipEscape = 0)
    (hle : e.linkEstablishmentPacket = .none) (hresp : e.linkEstablishmentResp = 0)
    (hd : e.delay = 0) :
    ∃ n, (transmit stray n e).1 = slipFrame ::
      (slipStuff (dataFrame p e.ackNumber e.sequenceNumber) ++ [slipFrame]) := by
  have hlen : p.length.toNat = p.payload.length := hp.encodable.length
  let e' : Engine :=
    { setupPacket (dataHeader p e.ackNumber e.sequenceNumber) (some p.payload) p.length.toNat e with
      sendAck := false }
  have hstart : sendHalf e = ⟨[slipFrame], .none, 0, false, e'⟩ := by
    simp [sendHalf, startFrame, hd, hsize, hle, hresp, hsend, e']
  have hfinish : finishPoll 0 e' = e' := by
    simp [finishPoll, e', setupPacket, hd]
  have hpoll := ubcspPoll_nil stray hstart
  rw [hfinish] at hpoll
  have hframed : e'.tx.Framed := framed_setupPacket (Or.inl hesc) rfl (fun h => by cases h)
    (fun l hl => by
      have hl : p.payload = l := Option.some.inj hl
      have := hp.nonempty
      show 0 < p.length.toNat ∧ p.length.toNat ≤ l.length
      exact ⟨by omega, by rw [← hl]; omega⟩)
  have hpending : e'.tx.pendingWire =
      slipStuff (dataFrame p e.ackNumber e.sequenceNumber) ++ [slipFrame] :=
    (pendingWire_setupPacket e rfl hlen).trans (if_pos hesc)
  obtain ⟨n, hn, -⟩ := transmit_rest stray hframed (show (4 : Nat) ≠ 0 by decide)
    (show e'.delay = 0 from hd)
  refine ⟨n + 1, ?_⟩
  simp only [transmit, hpoll]
  rw [hn, hpending]
  rfl

/-! ## The receiver -/

/-- The packet the engine has handed over. -/
def Engine.handedOver (e : Engine) : Packet :=
  { e.receivePacket with payload := e.receivePacket.payload.take e.receivePacket.length.toNat }

/-- The engine waits for a packet, with the sequence number `seq` if it is reliable. -/
structure Awaiting (reliable : UInt8) (seq : Fin 8) (q : SlipCode.Partial UInt8) (e : Engine) :
    Prop where
  deframes : Deframes 512 q e
  armed : e.receiveArmed = true
  active : e.linkEstablishmentState = .active
  number : reliable ≠ 0 → e.ackNumber = seq

/-- The packet has been handed over. -/
def Delivered (p : Packet) (e : Engine) : Prop := e.receiveArmed = false ∧ e.handedOver = p

theorem clip_dataFrame {p : Packet} (hp : p.Sendable) (ack seq : Fin 8) :
    clip 512 (dataFrame p ack seq) = dataFrame p ack seq := by
  have hlen : p.length.toNat = p.payload.length := hp.encodable.length
  have hfield : headerLength (dataFrame p ack seq) = p.length :=
    congrArg Header.length (header_dataFrame hp.encodable ack seq)
  have hl := (dataFrame_intact hp.encodable ack seq).length
  have := hp.short
  apply clip_of_le
  rw [hl, hfield]
  split <;> omega

/-- The frame of a packet is handed over when its closing delimiter arrives. -/
theorem endOfFrame_dataFrame {p : Packet} (hp : p.Sendable) {ack seq : Fin 8} {e : Engine}
    (h : Awaiting p.reliable seq ⟨false, dataFrame p ack seq⟩ e) (a : Activity) :
    (endOfFrame a e).1.received = true ∧ Delivered p (endOfFrame a e).2 := by
  have hlen : p.length.toNat = p.payload.length := hp.encodable.length
  have hhead := header_dataFrame hp.encodable ack seq
  have hclip := clip_dataFrame hp ack seq
  obtain ⟨harr, d, hend⟩ := endOfFrame_of_intact h.deframes h.armed
    (by rw [hclip]; exact dataFrame_intact hp.encodable ack seq) a
  have hrel := harr.reliable
  have hch := harr.channel
  have hidx := harr.index
  have hpay := harr.payload
  rw [show headerReliable (dataFrame p ack seq) = p.reliable from
    congrArg Header.reliable hhead] at hrel
  rw [show headerChannel (dataFrame p ack seq) = p.channel from
    congrArg Header.channel hhead] at hch
  rw [show headerLength (dataFrame p ack seq) = p.length from
    congrArg Header.length hhead] at hidx hpay
  rw [hclip, framePayload_dataFrame hp.encodable] at hpay
  have hne : (decoded e).receivePacket.channel ≠ 1 := hch ▸ hp.channel
  have hne0 : (decoded e).receiveIndex ≠ 0 := by
    have := hp.nonempty
    omega
  have hfield : headerLength (decoded e).receiveHeader = p.length :=
    congrArg Header.length (harr.header.trans hhead)
  -- the packet handed over, whichever of the two kinds it is
  have handed : ∀ e' : Engine, e'.receivePacket = (decoded e).receivePacket →
      e'.receiveHeader = (decoded e).receiveHeader → ∀ d i,
      Delivered p { handOver e' with delay := d, receiveIndex := i } := by
    intro e' hpk hh d i
    refine ⟨rfl, ?_⟩
    simp only [Engine.handedOver, handOver, hpk, hh, hfield]
    rw [hpay, hch, hrel]
  rw [hend]
  by_cases hr : p.reliable = 0
  · rw [receiveIntact_unreliable hne hne0 h.active (hrel.trans hr)]
    exact ⟨by simp [Activity.packetReceived],
      handed _ (receiveAck_receivePacket _) (receiveAck_receiveHeader _) d (-4)⟩
  · have hseq : headerSeq (decoded e).receiveHeader = UInt8.ofNat (decoded e).ackNumber := by
      rw [decoded_ackNumber, h.number hr]
      exact congrArg Header.seq (harr.header.trans hhead)
    rw [receiveIntact_new hne hne0 h.active (hrel ▸ hr) hseq]
    exact ⟨by simp [Activity.packetReceivedAck],
      handed _ (receiveAck_receivePacket _) (receiveAck_receiveHeader _) d (-4)⟩

section
variable {stray : UInt8 → UInt8} {p : Packet} {ack seq : Fin 8}

/-- One octet of the stream is collected, ends a frame that is rejected, or ends the
frame of the packet. -/
theorem receiveOctet_awaiting (hp : p.Sendable) {q : SlipCode.Partial UInt8} {e : Engine}
    (h : Awaiting p.reliable seq q e) (value : UInt8) (a : Activity)
    (hnoise : ∀ s ∈ ((ubcspSlip stray).step q value).2,
      s = dataFrame p ack seq ∨ ¬ FrameIntact (clip 512 s)) :
    ((∀ s ∈ ((ubcspSlip stray).step q value).2, ¬ FrameIntact (clip 512 s)) ∧
        Awaiting p.reliable seq ((ubcspSlip stray).step q value).1
          (receiveOctet stray value a e).2) ∨
      ((receiveOctet stray value a e).1.received = true ∧
        Delivered p (receiveOctet stray value a e).2) := by
  obtain ⟨hdef, ⟨hnone, r, harmed, hoctet⟩ | ⟨s, rfl, -, hstep, hoctet⟩⟩ :=
    h.deframes.octet h.armed value a
  · refine Or.inl ⟨by rw [hnone]; simp, hdef, ?_, ?_, ?_⟩
    all_goals rw [hoctet]
    · exact harmed
    · exact h.active
    · exact h.number
  · rw [hoctet]
    rw [hstep] at hdef hnoise ⊢
    by_cases hs : s = dataFrame p ack seq
    · exact Or.inr (endOfFrame_dataFrame hp (hs ▸ h) a)
    · have hbad : ¬ FrameIntact (clip 512 s) := (hnoise s rfl).resolve_left hs
      obtain ⟨r, ack', d, harmed, hend⟩ := endOfFrame_of_rejected h.deframes h.armed hbad a
      rw [hoctet] at hdef
      refine Or.inl ⟨?_, hdef, ?_, ?_, ?_⟩
      · intro s' hs'
        cases hs'
        exact hbad
      all_goals rw [hend]
      · exact harmed
      · exact h.active
      · exact h.number

/-- The frame of the packet is among the frames that the octets complete, and the
frames before it are rejected. -/
def Carries (stray : UInt8 → UInt8) (q : SlipCode.Partial UInt8) (xs : List UInt8)
    (s : List UInt8) : Prop :=
  ∃ noise, ((ubcspSlip stray).run q xs).2 = noise ++ [s] ∧ ∀ s' ∈ noise, ¬ FrameIntact (clip 512 s')

/-- The first octet completes no frame but noise, or it completes the frame of the
packet. -/
theorem Carries.cons {q : SlipCode.Partial UInt8} {x : UInt8} {xs s : List UInt8}
    (h : Carries stray q (x :: xs) s) :
    (∀ s' ∈ ((ubcspSlip stray).step q x).2, s' = s ∨ ¬ FrameIntact (clip 512 s')) ∧
      ((∀ s' ∈ ((ubcspSlip stray).step q x).2, ¬ FrameIntact (clip 512 s')) →
        FrameIntact (clip 512 s) → Carries stray ((ubcspSlip stray).step q x).1 xs s) := by
  obtain ⟨noise, hrun, hnoise⟩ := h
  rw [SlipCode.run_cons] at hrun
  dsimp only at hrun
  cases hstep : ((ubcspSlip stray).step q x).2 with
  | none =>
    rw [hstep] at hrun
    exact ⟨by simp, fun _ _ => ⟨noise, hrun, hnoise⟩⟩
  | some s' =>
    rw [hstep] at hrun
    cases noise with
    | nil =>
      have heq : s' = s := by simpa using congrArg List.head? hrun
      refine ⟨by simp [heq], fun hbad hok => absurd hok (heq ▸ hbad s' rfl)⟩
    | cons s'' noise =>
      obtain ⟨heq, hrest⟩ : s' = s'' ∧ _ := by simpa using hrun
      refine ⟨?_, fun _ _ => ⟨noise, hrest, fun t ht => hnoise t (List.mem_cons_of_mem _ ht)⟩⟩
      simpa [heq] using Or.inr (hnoise s'' List.mem_cons_self)

/-- The receive loop stops at the packet, or has read everything. -/
theorem receiveLoop_awaiting (hp : p.Sendable) (hok : FrameIntact (clip 512 (dataFrame p ack seq)))
    (future : List UInt8) (rx : List UInt8) {q : SlipCode.Partial UInt8} {e : Engine}
    (h : Awaiting p.reliable seq q e) (a : Activity)
    (hc : Carries stray q (rx ++ future) (dataFrame p ack seq)) :
    ((receiveLoop stray rx a e).2.1 = [] ∧
        ∃ q', Awaiting p.reliable seq q' (receiveLoop stray rx a e).2.2 ∧
          Carries stray q' future (dataFrame p ack seq)) ∨
      ((receiveLoop stray rx a e).1.received = true ∧
        Delivered p (receiveLoop stray rx a e).2.2) := by
  induction rx generalizing q e a with
  | nil => exact Or.inl ⟨rfl, q, h, hc⟩
  | cons value rx ih =>
    obtain ⟨hnoise, hrest⟩ := hc.cons
    simp only [receiveLoop, h.armed, if_true]
    rcases receiveOctet_awaiting hp h value a hnoise with ⟨hbad, hnext⟩ | ⟨hrec, hdel⟩
    · exact ih hnext _ (hrest hbad hok)
    · right
      cases rx with
      | nil => exact ⟨hrec, hdel⟩
      | cons x xs => simpa [receiveLoop, hdel.1] using ⟨hrec, hdel⟩

/-- Writing anything but the receive buffers, the state and the number keeps the
engine waiting. -/
theorem Awaiting.of_rx {q : SlipCode.Partial UInt8} {e e' : Engine}
    (h : Awaiting p.reliable seq q e) (hrx : e'.rx = e.rx)
    (hs : e'.linkEstablishmentState = e.linkEstablishmentState) (ha : e'.ackNumber = e.ackNumber) :
    Awaiting p.reliable seq q e' :=
  ⟨h.deframes.of_rx hrx, (congrArg Rx.receiveArmed hrx).trans h.armed, hs.trans h.active,
    fun hr => ha.trans (h.number hr)⟩

theorem Delivered.of_rx {e e' : Engine} (h : Delivered p e) (hrx : e'.rx = e.rx) :
    Delivered p e' := by
  have hpacket : e'.receivePacket = e.receivePacket := congrArg Rx.receivePacket hrx
  refine ⟨(congrArg Rx.receiveArmed hrx).trans h.1, ?_⟩
  rw [Engine.handedOver, hpacket]
  exact h.2

theorem finishPoll_eq (d : Nat) (e : Engine) : ∃ d', finishPoll d e = { e with delay := d' } := by
  unfold finishPoll
  split <;> exact ⟨_, rfl⟩

/-- A call of `ubcsp_poll` that returns early, which the next call does not, reads
nothing; any other reads everything or up to the packet. -/
theorem ubcspPoll_awaiting (hp : p.Sendable) (hok : FrameIntact (clip 512 (dataFrame p ack seq)))
    {rx future : List UInt8} {q : SlipCode.Partial UInt8} {e : Engine}
    (h : Awaiting p.reliable seq q e) (hc : Carries stray q (rx ++ future) (dataFrame p ack seq)) :
    ((sendHalf e).returned = true ∧ (ubcspPoll stray rx e).rest = rx ∧
        (sendHalf (ubcspPoll stray rx e).engine).returned = false ∧
        Awaiting p.reliable seq q (ubcspPoll stray rx e).engine) ∨
      ((ubcspPoll stray rx e).rest = [] ∧
        ∃ q', Awaiting p.reliable seq q' (ubcspPoll stray rx e).engine ∧
          Carries stray q' future (dataFrame p ack seq)) ∨
      ((ubcspPoll stray rx e).activity.received = true ∧
        Delivered p (ubcspPoll stray rx e).engine) := by
  have hsent : Awaiting p.reliable seq q (sendHalf e).engine :=
    h.of_rx (sendHalf_rx e) (sendHalf_state e) (sendHalf_numbers e).2
  unfold ubcspPoll
  dsimp only
  by_cases hret : (sendHalf e).returned = true
  · rw [if_pos hret]
    exact Or.inl ⟨hret, rfl, sendHalf_returned_next hret, hsent⟩
  · rw [if_neg hret]
    right
    obtain ⟨d, hfinish⟩ := finishPoll_eq (sendHalf e).delay
      (receiveLoop stray rx (sendHalf e).activity (sendHalf e).engine).2.2
    rw [hfinish]
    rcases receiveLoop_awaiting hp hok future rx hsent (sendHalf e).activity hc with
      ⟨hrest, q', hq, hc'⟩ | ⟨hrec, hdel⟩
    · exact Or.inl ⟨hrest, q', hq.of_rx rfl rfl rfl, hc'⟩
    · exact Or.inr ⟨hrec, hdel.of_rx rfl⟩

/-- Calls of `ubcsp_poll`, each with the octets that have come in since the last one:
the activity reported, and the engine afterwards.  `left` are octets that the call
before has not read. -/
def feed (stray : UInt8 → UInt8) : List (List UInt8) → List UInt8 → Engine → Activity × Engine
  | [], _, e => (.none, e)
  | chunk :: chunks, left, e =>
    let r := ubcspPoll stray (left ++ chunk) e
    (r.activity.or (feed stray chunks r.rest r.engine).1, (feed stray chunks r.rest r.engine).2)

/-- A packet that has been handed over is left alone. -/
theorem feed_delivered (chunks : List (List UInt8)) {left : List UInt8} {e : Engine}
    (h : Delivered p e) : Delivered p (feed stray chunks left e).2 := by
  induction chunks generalizing left e with
  | nil => exact h
  | cons chunk chunks ih =>
    apply ih
    have hoff : (sendHalf e).engine.receiveArmed = false :=
      (congrArg Rx.receiveArmed (sendHalf_rx e)).trans h.1
    have hloop : ∀ rx : List UInt8, (receiveLoop stray rx (sendHalf e).activity
        (sendHalf e).engine).2.2 = (sendHalf e).engine := by
      intro rx
      cases rx <;> simp [receiveLoop, hoff]
    apply h.of_rx
    unfold ubcspPoll
    dsimp only
    split
    · exact sendHalf_rx e
    · obtain ⟨d, hfinish⟩ := finishPoll_eq (sendHalf e).delay (sendHalf e).engine
      rw [hloop, hfinish]
      exact sendHalf_rx e

/-- **The receiver reports the packet**, however the octets of its frame are
distributed over the calls.  One more call makes up for an early return. -/
theorem feed_delivers (hp : p.Sendable) (hok : FrameIntact (clip 512 (dataFrame p ack seq)))
    (chunks : List (List UInt8)) {left : List UInt8} {q : SlipCode.Partial UInt8} {e : Engine}
    (h : Awaiting p.reliable seq q e)
    (hleft : left = [] ∨ (sendHalf e).returned = false)
    (hc : Carries stray q (left ++ chunks.flatten) (dataFrame p ack seq)) :
    (feed stray (chunks ++ [[]]) left e).1.received = true ∧
      Delivered p (feed stray (chunks ++ [[]]) left e).2 := by
  induction chunks generalizing left q e with
  | nil =>
    have hc' : Carries stray q ((left ++ []) ++ []) (dataFrame p ack seq) := by simpa using hc
    have hnone : ∀ q', ¬ Carries stray q' [] (dataFrame p ack seq) := by
      rintro q' ⟨noise, hrun, -⟩
      simp at hrun
    simp only [List.nil_append, feed]
    rcases ubcspPoll_awaiting hp hok h hc' with ⟨hret, -⟩ | ⟨-, q', -, hlast⟩ | ⟨hrec, hdel⟩
    · rcases hleft with rfl | hgo
      · exact absurd hc (hnone q)
      · exact absurd (hgo.symm.trans hret) (by simp)
    · exact absurd hlast (hnone q')
    · exact ⟨by rw [Activity.or_received, hrec, Bool.true_or], hdel⟩
  | cons chunk chunks ih =>
    have hc' : Carries stray q ((left ++ chunk) ++ chunks.flatten) (dataFrame p ack seq) := by
      simpa using hc
    simp only [List.cons_append, feed]
    rcases ubcspPoll_awaiting hp hok h hc' with
      ⟨-, hrest, hgo, hq⟩ | ⟨hrest, q', hq, hlast⟩ | ⟨hrec, hdel⟩
    · obtain ⟨hr, hd⟩ := ih hq (Or.inr hgo) hc'
      rw [hrest]
      exact ⟨by simp [hr], hd⟩
    · obtain ⟨hr, hd⟩ := ih hq (Or.inl rfl) hlast
      rw [hrest]
      exact ⟨by simp [hr], hd⟩
    · exact ⟨by simp [hrec], feed_delivered _ hdel⟩

end

/-! ## Sender and receiver together -/

/-- An active engine between two frames, armed with a receive packet of 512 octets,
that expects the sequence number `seq` if a reliable packet is to come. -/
structure ReadyFor (reliable : UInt8) (seq : Fin 8) (r : Engine) : Prop where
  active : r.linkEstablishmentState = .active
  armed : r.receiveArmed = true
  capacity : r.receivePacket.length = 512
  buffer : r.receivePacket.payload.length = 512
  header_length : r.receiveHeader.length = 4
  index : r.receiveIndex = -4
  escape : r.receiveSlipEscape = false
  number : reliable ≠ 0 → r.ackNumber = seq

theorem ReadyFor.awaiting {reliable : UInt8} {seq : Fin 8} {r : Engine}
    (h : ReadyFor reliable seq r) : Awaiting reliable seq .empty r := by
  have hcap : r.receivePacket.length.toNat = 512 := congrArg UInt16.toNat h.capacity
  refine ⟨⟨h.header_length, h.escape, fun _ => hcap, ?_, fun _ => rfl⟩, h.armed, h.active,
    h.number⟩
  intro _
  refine .empty h.header_length ?_ h.index
  show r.receivePacket.length.toNat ≤ r.receivePacket.payload.length
  rw [hcap, h.buffer]

/-- **Wire round trip.**  The octets that the engine `e` puts on the UART for the
packet `p`, from the opening to the closing delimiter, make every engine that is
ready for them report a received packet with the same channel, reliable flag,
length and payload. -/
theorem wire_round_trip (stray : UInt8 → UInt8) {e : Engine} {p : Packet} (hp : p.Sendable)
    (hsend : e.sendPacket = some p) (hsize : e.sendSize = 0) (hesc : e.sendSlipEscape = 0)
    (hle : e.linkEstablishmentPacket = .none) (hresp : e.linkEstablishmentResp = 0)
    (hd : e.delay = 0) :
    ∃ n inside, (transmit stray n e).1 = slipFrame :: (inside ++ [slipFrame]) ∧
      slipFrame ∉ inside ∧
      ∀ (r : Engine) (chunks : List (List UInt8)), ReadyFor p.reliable e.sequenceNumber r →
        chunks.flatten = (transmit stray n e).1 →
          (feed stray (chunks ++ [[]]) [] r).1.received = true ∧
            (feed stray (chunks ++ [[]]) [] r).2.handedOver = p := by
  obtain ⟨n, hn⟩ := transmit_frame stray hp hsend hsize hesc hle hresp hd
  refine ⟨n, _, hn, (ubcspSlip id).frame_notMem_stuff _, ?_⟩
  intro r chunks hr hchunks
  have hok : FrameIntact (clip 512 (dataFrame p e.ackNumber e.sequenceNumber)) := by
    rw [clip_dataFrame hp]
    exact dataFrame_intact hp.encodable _ _
  have hcarries : Carries stray .empty chunks.flatten
      (dataFrame p e.ackNumber e.sequenceNumber) := by
    refine ⟨[[]], ?_, by simpa using not_intact_of_short (by decide)⟩
    rw [hchunks, hn]
    exact congrArg Prod.snd
      ((ubcspSlip stray).run_wire [] (dataFrame p e.ackNumber e.sequenceNumber))
  obtain ⟨hrec, -, hdel⟩ := feed_delivers hp hok chunks hr.awaiting (Or.inl rfl) hcarries
  exact ⟨hrec, hdel⟩

/-- A packet whose channel octet, length and payload need escapes. -/
def escapedPacket : Packet := ⟨5, 1, 3, [0xC0, 0xDB, 0xC0]⟩

/-- An active engine with that packet to send. -/
def escapedSender : Engine :=
  { Engine.zero with
    linkEstablishmentState := .active
    linkEstablishmentPacket := .none
    sendPacket := some escapedPacket }

/-- An active engine with a receive packet. -/
def idleReceiver : Engine :=
  { Engine.zero with
    linkEstablishmentState := .active
    linkEstablishmentPacket := .none
    receiveArmed := true
    receivePacket := ⟨0, 0, 512, List.replicate 512 0⟩
    receiveIndex := -4 }

theorem idleReceiver_ready : ReadyFor 1 0 idleReceiver where
  active := rfl
  armed := rfl
  capacity := rfl
  buffer := List.length_replicate
  header_length := rfl
  index := rfl
  escape := rfl
  number _ := rfl

/-- What the one sends the other receives, in one piece. -/
theorem wire_round_trip_escaped :
    ∃ n inside, (transmit id n escapedSender).1 = slipFrame :: (inside ++ [slipFrame]) ∧
      slipFrame ∉ inside ∧
      (feed id [(transmit id n escapedSender).1, []] [] idleReceiver).1.received = true ∧
        (feed id [(transmit id n escapedSender).1, []] [] idleReceiver).2.handedOver =
          escapedPacket := by
  obtain ⟨n, inside, hsent, hinside, hreceived⟩ := wire_round_trip id
    (e := escapedSender) (p := escapedPacket)
    ⟨⟨Or.inr rfl, by decide, rfl, by decide⟩, by decide, by decide, by decide⟩
    rfl rfl rfl rfl rfl rfl
  exact ⟨n, inside, hsent, hinside,
    hreceived idleReceiver [_] idleReceiver_ready (List.append_nil _)⟩

end OpenwrtFeed.Ubcsp
