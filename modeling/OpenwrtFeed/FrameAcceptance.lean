import OpenwrtFeed.FrameDelivery
import OpenwrtFeed.LinkState

/-! # The frames handed over to the upper layer

A call of `ubcsp_poll` reports `UBCSP_PACKET_RECEIVED` when the delimiter of a
frame finds the engine in a state that accepts it (`Accepts`), and stops receiving
there.  `acceptedFrames` reads the accepted frames off the octets themselves,
through the receiver of the SLIP code; `ubcspPoll_frames` says that one call accepts
at most one of them and leaves it in the receive packet.
-/
namespace OpenwrtFeed.Ubcsp

/-- The frame in progress is handed over if it ends now. -/
def Deliverable (e : Engine) : Prop :=
  0 ≤ e.receiveIndex ∧ Intact e ∧ headerChannel e.receiveHeader ≠ 1 ∧
    headerLength e.receiveHeader ≠ 0 ∧ e.linkEstablishmentState = .active ∧
    (headerReliable e.receiveHeader ≠ 0 → headerSeq e.receiveHeader = UInt8.ofNat e.ackNumber)

instance (e : Engine) : Decidable (Deliverable e) := inferInstanceAs (Decidable (_ ∧ _))

/-- The octet `value` ends a frame that is handed over. -/
def Accepts (e : Engine) (value : UInt8) : Prop :=
  e.receiveSlipEscape = false ∧ value = slipFrame ∧ Deliverable e

instance (e : Engine) (value : UInt8) : Decidable (Accepts e value) :=
  inferInstanceAs (Decidable (_ ∧ _))

/-! ## One frame -/

theorem receiveAck_received (e : Engine) : (receiveAck e).1.received = false := by
  rcases receiveAck_cases e with h | ⟨-, -, h⟩ <;> rw [h] <;> rfl

@[simp] theorem receiveAck_armed (e : Engine) : (receiveAck e).2.receiveArmed = e.receiveArmed :=
  congrArg Rx.receiveArmed (receiveAck_rx e)

/-- A link-establishment packet is never handed over. -/
theorem receiveLe_keeps {a : Activity} (ha : a.received = false) (e : Engine) :
    (receiveLe a e).1.received = false ∧ (receiveLe a e).2.receiveArmed = e.receiveArmed := by
  unfold receiveLe
  dsimp only
  -- the four messages, each with its condition on the state, and any other payload
  split
  · split
    · exact ⟨ha, rfl⟩
    · exact ⟨rfl, rfl⟩
  · split <;> exact ⟨ha, rfl⟩
  · split <;> exact ⟨ha, rfl⟩
  · split
    · exact ⟨by rw [Activity.or_received, ha]; rfl, rfl⟩
    · exact ⟨ha, rfl⟩
  · exact ⟨ha, rfl⟩

/-- The index that the checks leave is the length the header states. -/
theorem decoded_index_of_intact {e : Engine} (h : Intact e) :
    (decoded e).receiveIndex = (headerLength e.receiveHeader).toNat :=
  checkPayload_index ((checkPayload_iff e).1 h.2).1

/-- A frame that is acted on but not handed over leaves the receive packet in place. -/
theorem receiveIntact_of_not_deliverable {e : Engine} (hi : 0 ≤ e.receiveIndex) (hok : Intact e)
    (hnot : ¬ Deliverable e) :
    (receiveIntact (decoded e)).1.received = false ∧
      (receiveIntact (decoded e)).2.receiveArmed = e.receiveArmed := by
  have hack : (receiveAck (decoded e)).1.received = false := receiveAck_received _
  have harm : (receiveAck (decoded e)).2.receiveArmed = e.receiveArmed := receiveAck_armed _
  have hindex := decoded_index_of_intact hok
  by_cases hch : headerChannel e.receiveHeader = 1
  · rw [receiveIntact_le hch]
    obtain ⟨h1, h2⟩ := receiveLe_keeps hack (receiveAck (decoded e)).2
    exact ⟨h1, h2.trans harm⟩
  · by_cases hlen : headerLength e.receiveHeader = 0
    · rw [receiveIntact_empty hch (by rw [hindex, hlen]; rfl)]
      exact ⟨hack, harm⟩
    · by_cases hact : e.linkEstablishmentState = .active
      · have hseq : ¬ (headerReliable e.receiveHeader ≠ 0 →
            headerSeq e.receiveHeader = UInt8.ofNat e.ackNumber) :=
          fun hs => hnot ⟨hi, hok, hch, hlen, hact, hs⟩
        obtain ⟨hrel, hdup⟩ := Classical.not_imp.mp hseq
        have hne : (decoded e).receiveIndex ≠ 0 := by
          rw [hindex]
          intro h0
          exact hlen (UInt16.toNat_inj.1 (by simpa using h0))
        rw [receiveIntact_duplicate hch hne hact hrel hdup]
        exact ⟨hack, harm⟩
      · rw [receiveIntact_inactive (e := decoded e) hch hact]
        exact ⟨hack, harm⟩

/-- **A frame that is not deliverable** reports no packet and leaves the receive packet
in place. -/
theorem endOfFrame_of_not_deliverable {e : Engine} (hnot : ¬ Deliverable e) (a : Activity) :
    (endOfFrame a e).1.received = a.received ∧ (endOfFrame a e).2.receiveArmed =
      e.receiveArmed := by
  unfold endOfFrame
  by_cases hi : 0 ≤ e.receiveIndex
  · rw [if_pos hi]
    by_cases hok : Intact e
    · rw [receviedPacket_of_intact hok]
      obtain ⟨hrec, harm⟩ := receiveIntact_of_not_deliverable hi hok hnot
      dsimp only
      refine ⟨by rw [Activity.or_received, hrec, Bool.or_false], ?_⟩
      split <;> exact harm
    · obtain ⟨r, hr, harm, -⟩ := receviedPacket_of_not_intact hok
      rw [hr]
      dsimp only
      refine ⟨by rw [Activity.or_none], ?_⟩
      split <;> exact harm
  · rw [if_neg hi]
    exact ⟨rfl, rfl⟩

/-- **A deliverable frame** is reported, with the receive packet taken away and
holding its length; what has become of the packet being sent is the business of the
acknowledgement in its header. -/
theorem endOfFrame_of_deliverable {e : Engine} (h : Deliverable e) (a : Activity) :
    (endOfFrame a e).1.received = true ∧ (endOfFrame a e).2.receiveArmed = false ∧
      (endOfFrame a e).2.receivePacket =
        { (decoded e).receivePacket with length := headerLength e.receiveHeader } ∧
      (endOfFrame a e).2.sendPacket = (receiveAck (decoded e)).2.sendPacket := by
  obtain ⟨hi, hok, hch, hlen, hact, hseq⟩ := h
  have hne : (decoded e).receiveIndex ≠ 0 := by
    rw [decoded_index_of_intact hok]
    intro h0
    exact hlen (UInt16.toNat_inj.1 (by simpa using h0))
  have hhand : ∀ x : Engine, x.rx = (decoded e).rx →
      (handOver x).receiveArmed = false ∧ (handOver x).receivePacket =
        { (decoded e).receivePacket with length := headerLength e.receiveHeader } := by
    intro x hx
    have hp : x.receivePacket = (decoded e).receivePacket := congrArg Rx.receivePacket hx
    have hh : x.receiveHeader = e.receiveHeader := congrArg Rx.receiveHeader hx
    exact ⟨rfl, by rw [handOver]; dsimp only; rw [hp, hh]⟩
  have hrx : (receiveAck (decoded e)).2.rx = (decoded e).rx := receiveAck_rx _
  unfold endOfFrame
  rw [if_pos hi, receviedPacket_of_intact hok]
  by_cases hrel : headerReliable e.receiveHeader = 0
  · rw [receiveIntact_unreliable hch hne hact hrel]
    dsimp only
    refine ⟨by simp [Activity.packetReceived], ?_⟩
    obtain ⟨h1, h2⟩ := hhand _ hrx
    split <;> exact ⟨h1, h2, rfl⟩
  · rw [receiveIntact_new hch hne hact hrel (hseq hrel)]
    dsimp only
    refine ⟨by simp [Activity.packetReceivedAck], ?_⟩
    obtain ⟨h1, h2⟩ := hhand { (receiveAck (decoded e)).2 with
      sendAck := true, ackNumber := (decoded e).ackNumber + 1 } hrx
    split <;> exact ⟨h1, h2, rfl⟩

/-! ## One call -/

/-- The frames accepted among received octets, each with the engine before it: the
SLIP coding is taken off the octets, and a frame counts when the engine accepts it. -/
def acceptedFrames (stray : UInt8 → UInt8) :
    SlipCode.Partial UInt8 → List (Engine × UInt8) → List (List UInt8)
  | _, [] => []
  | p, (e, value) :: xs =>
    (if Accepts e value then [p.octets] else []) ++
      acceptedFrames stray ((ubcspSlip stray).step p value).1 xs

/-- The frame in progress after received octets. -/
def frameInProgress (stray : UInt8 → UInt8) (p : SlipCode.Partial UInt8)
    (xs : List (Engine × UInt8)) :
    SlipCode.Partial UInt8 :=
  ((ubcspSlip stray).run p (xs.map Prod.snd)).1

/-- What is left in the receive packet of capacity `n` when the frame `s` has been
handed over. -/
structure Handed (n : Nat) (s : List UInt8) (q : Packet) : Prop where
  intact : FrameIntact (clip n s)
  nonempty : headerLength s ≠ 0
  channel : q.channel = headerChannel s
  length : q.length = headerLength s
  payload : q.payload.take q.length.toNat = framePayload (clip n s)

/-- A call of `ubcsp_poll`, or its receive loop, has read the octets `xs` of `rx`: it has
accepted no frame, and the receive packet is still with the engine; or it has accepted
one, and the receive packet holds it. -/
structure Yields (stray : UInt8 → UInt8) (n : Nat) (p : SlipCode.Partial UInt8)
    (xs : List (Engine × UInt8)) (received : Bool) (e : Engine) : Prop where
  deframes : Deframes n (frameInProgress stray p xs) e
  armed : e.receiveArmed = !received
  room : n ≤ e.receivePacket.payload.length
  frames : (received = false ∧ acceptedFrames stray p xs = []) ∨
    (received = true ∧ ∃ s, acceptedFrames stray p xs = [s] ∧ Handed n s e.receivePacket)

theorem Deframes.room {n : Nat} {p : SlipCode.Partial UInt8} {e : Engine} (h : Deframes n p e)
    (harmed : e.receiveArmed = true) : n ≤ e.receivePacket.payload.length := by
  rw [← h.capacity harmed]
  exact (h.collects harmed).room

/-- Writing anything but the receive buffers changes nothing of it. -/
theorem Yields.of_rx {stray : UInt8 → UInt8} {n : Nat} {p : SlipCode.Partial UInt8}
    {xs : List (Engine × UInt8)} {received : Bool} {e e' : Engine}
    (h : Yields stray n p xs received e) (hrx : e'.rx = e.rx) :
    Yields stray n p xs received e' := by
  have harmed : e'.receiveArmed = e.receiveArmed := congrArg Rx.receiveArmed hrx
  have hpacket : e'.receivePacket = e.receivePacket := congrArg Rx.receivePacket hrx
  exact ⟨h.deframes.of_rx hrx, harmed.trans h.armed, by rw [hpacket]; exact h.room,
    by rw [hpacket]; exact h.frames⟩

/-- The delimiter of a deliverable frame leaves that frame in the receive packet. -/
theorem handed_of_deliverable {n : Nat} {s : List UInt8} {e : Engine}
    (h : Deframes n ⟨false, s⟩ e) (harmed : e.receiveArmed = true) (hd : Deliverable e)
    (a : Activity) : Handed n s (endOfFrame a e).2.receivePacket := by
  obtain ⟨-, -, hpacket, -⟩ := endOfFrame_of_deliverable hd a
  obtain ⟨hi, hok, -, hlen, -, -⟩ := hd
  have hcol := h.collects harmed
  have h4 : 4 ≤ s.length := hcol.index_nonneg.1 hi
  have hclip : FrameIntact (clip n s) := by
    have := (hcol.intact_iff h4).1 hok
    rwa [h.capacity harmed] at this
  have harr := (endOfFrame_of_intact h harmed hclip a).1
  have hfield : headerLength e.receiveHeader = headerLength s := congrArg Header.length harr.header
  rw [hpacket]
  refine ⟨hclip, ?_, harr.channel, hfield, ?_⟩
  · rw [← hfield]
    exact hlen
  · show (decoded e).receivePacket.payload.take (headerLength e.receiveHeader).toNat = _
    rw [hfield]
    exact harr.payload

/-- An octet that ends no accepted frame is read before the others. -/
theorem Yields.cons {stray : UInt8 → UInt8} {n : Nat} {p : SlipCode.Partial UInt8}
    {xs : List (Engine × UInt8)} {received : Bool} {e e' : Engine} {value : UInt8}
    (h : Yields stray n ((ubcspSlip stray).step p value).1 xs received e')
    (hnot : ¬ Accepts e value) :
    Yields stray n p ((e, value) :: xs) received e' := by
  refine ⟨h.deframes, h.armed, h.room, ?_⟩
  simp only [acceptedFrames, if_neg hnot, List.nil_append]
  exact h.frames

/-- Without a receive packet the receive loop does nothing. -/
theorem receiveLoop_off (stray : UInt8 → UInt8) (rx : List UInt8) (a : Activity) {e : Engine}
    (hoff : e.receiveArmed = false) :
    receiveLoop stray rx a e = (a, rx, e) ∧ loopStates stray rx a e = [] := by
  cases rx with
  | nil => exact ⟨rfl, rfl⟩
  | cons value rx =>
    have hne : ¬ e.receiveArmed = true := by simp [hoff]
    exact ⟨by rw [receiveLoop, if_neg hne], by rw [loopStates, if_neg hne]⟩

/-- **The receive loop** accepts at most one frame. -/
theorem receiveLoop_frames (stray : UInt8 → UInt8) {n : Nat} {p : SlipCode.Partial UInt8}
    {e : Engine} (h : Deframes n p e) (harmed : e.receiveArmed = true) (rx : List UInt8)
    {a : Activity} (ha : a.received = false) :
    (loopStates stray rx a e).map Prod.snd ++ (receiveLoop stray rx a e).2.1 = rx ∧
      Yields stray n p (loopStates stray rx a e) (receiveLoop stray rx a e).1.received
        (receiveLoop stray rx a e).2.2 := by
  induction rx generalizing p a e with
  | nil => exact ⟨rfl, h, by simp [receiveLoop, ha, harmed], h.room harmed, Or.inl ⟨ha, rfl⟩⟩
  | cons value rx ih =>
    have hloop : receiveLoop stray (value :: rx) a e =
        receiveLoop stray rx (receiveOctet stray value a e).1 (receiveOctet stray value a e).2 := by
      rw [receiveLoop, if_pos harmed]
    have hstates : loopStates stray (value :: rx) a e = (e, value) ::
        loopStates stray rx (receiveOctet stray value a e).1 (receiveOctet stray value a e).2 := by
      rw [loopStates, if_pos harmed]
    obtain ⟨hnext, hcases⟩ := @Deframes.octet n stray p e h harmed value a
    rw [hloop, hstates, List.map_cons, List.cons_append]
    rcases hcases with ⟨hstep, r, hr, hoctet⟩ | ⟨s, rfl, rfl, hstep, hoctet⟩
    · have hnot : ¬ Accepts e value := by
        rintro ⟨hesc, rfl, -⟩
        have hp : p.escaped = false := h.escaped.symm.trans hesc
        simp [SlipCode.step, hp, ubcspSlip] at hstep
      have hrec : (receiveOctet stray value a e).1.received = false := by rw [hoctet]; exact ha
      obtain ⟨hocts, hy⟩ := ih hnext (by rw [hoctet]; exact hr) hrec
      exact ⟨congrArg (value :: ·) hocts, hy.cons hnot⟩
    · by_cases hd : Deliverable e
      · have hacc : Accepts e slipFrame := ⟨h.escaped, rfl, hd⟩
        obtain ⟨hrec, hoff, -, -⟩ := endOfFrame_of_deliverable hd a
        rw [hoctet] at hnext ⊢
        obtain ⟨hend, hnone⟩ := receiveLoop_off stray rx (endOfFrame a e).1 hoff
        rw [hend, hnone, hrec]
        have hroom : n ≤ (endOfFrame a e).2.receivePacket.payload.length := by
          have hpay : (endOfFrame a e).2.receivePacket.payload = e.receivePacket.payload :=
            (endOfFrame_frees a e).payload
          rw [hpay]
          exact h.room harmed
        refine ⟨rfl, hnext, hoff, hroom, Or.inr ⟨rfl, s, ?_, handed_of_deliverable h harmed hd a⟩⟩
        simp only [acceptedFrames, if_pos hacc, List.append_nil]
      · obtain ⟨hrec, harm⟩ := endOfFrame_of_not_deliverable hd a
        rw [← hoctet] at hrec harm
        obtain ⟨hocts, hy⟩ := ih hnext (harm.trans harmed) (hrec.trans ha)
        exact ⟨congrArg (slipFrame :: ·) hocts, hy.cons fun hacc => hd hacc.2.2⟩

theorem sendHalf_received (e : Engine) : (sendHalf e).activity.received = false := by
  rcases sendHalf_cases e with ⟨-, h⟩ | ⟨-, -, h⟩ | ⟨-, -, -, h⟩ | ⟨-, -, -, h⟩ <;> rw [h]
  · rfl
  · rcases sendOctet_cases e with ⟨tx, t, hc⟩ | ⟨tx, t, hc⟩ <;> rw [hc]
    · rfl
    · rcases sentPacket_eq (e.withTx t) with ⟨hs, -⟩ | ⟨hs, -⟩ <;> rw [hs] <;> rfl
  · rcases startFrame_cases e with ⟨-, hc⟩ | ⟨-, p, -, hc⟩ | ⟨-, -, -, hc⟩ | ⟨-, -, -, hc⟩ <;>
      rw [hc] <;> rfl
  · rfl

/-- **One call of `ubcsp_poll`** reads the octets of the UART in order and accepts at
most one frame. -/
theorem ubcspPoll_frames (stray : UInt8 → UInt8) {n : Nat} {p : SlipCode.Partial UInt8}
    {e : Engine} (h : Deframes n p e) (harmed : e.receiveArmed = true) (rx : List UInt8) :
    (pollStates stray rx e).map Prod.snd ++ (ubcspPoll stray rx e).rest = rx ∧
      Yields stray n p (pollStates stray rx e) (ubcspPoll stray rx e).activity.received
        (ubcspPoll stray rx e).engine := by
  have hrx := sendHalf_rx e
  have hsent : Deframes n p (sendHalf e).engine := h.of_rx hrx
  have harmed' : (sendHalf e).engine.receiveArmed = true :=
    (congrArg Rx.receiveArmed hrx).trans harmed
  unfold ubcspPoll pollStates
  dsimp only
  split
  · exact ⟨rfl, hsent, harmed', hsent.room harmed', Or.inl ⟨rfl, rfl⟩⟩
  · obtain ⟨hocts, hy⟩ := receiveLoop_frames stray hsent harmed' rx (sendHalf_received e)
    refine ⟨hocts, hy.of_rx ?_⟩
    unfold finishPoll
    split <;> rfl

/-! ## The packet being sent -/

/-- The octet `value` ends an intact frame whose header acknowledges the packet being
sent. -/
def Acknowledges (e : Engine) (value : UInt8) : Prop :=
  e.receiveSlipEscape = false ∧ value = slipFrame ∧ 0 ≤ e.receiveIndex ∧ Intact e ∧
    headerAck e.receiveHeader ≠ UInt8.ofNat e.sequenceNumber

instance (e : Engine) (value : UInt8) : Decidable (Acknowledges e value) :=
  inferInstanceAs (Decidable (_ ∧ _))

/-- The upper layer sends reliable packets only. -/
def Engine.SendsReliably (e : Engine) : Prop := ∀ p, e.sendPacket = some p → p.reliable ≠ 0

theorem receiveAck_sendPacket {e : Engine} (hrel : e.SendsReliably) :
    (receiveAck e).2.sendPacket =
      if headerAck e.receiveHeader ≠ UInt8.ofNat e.sequenceNumber then none else e.sendPacket := by
  unfold receiveAck
  split
  · cases hp : e.sendPacket with
    | none => exact hp
    | some p =>
      dsimp only
      rw [if_pos (hrel p hp)]
  · rfl

theorem receiveIntact_sendPacket (e : Engine) :
    (receiveIntact e).2.sendPacket = (receiveAck e).2.sendPacket := by
  rcases receiveIntact_cases e with h | h | h
  all_goals rw [h]
  · rcases receiveLe_cases (receiveAck e).1 (receiveAck e).2 with ⟨l, h⟩ | ⟨l, h⟩ | h
    all_goals exact (congrArg Engine.sendPacket h).trans rfl
  · rcases receiveData_cases (receiveAck e).1 (receiveAck e).2 with h | h | h | h
    all_goals exact (congrArg Engine.sendPacket h).trans rfl

/-- **A reliable packet leaves the engine by an acknowledgement only.** -/
theorem receiveOctet_sendPacket (stray : UInt8 → UInt8) (value : UInt8) (a : Activity) {e : Engine}
    (hrel : e.SendsReliably) :
    (receiveOctet stray value a e).2.sendPacket =
      if Acknowledges e value then none else e.sendPacket := by
  rcases receiveOctet_cases stray value a e with ⟨hend, -, d, h⟩ | ⟨hnot, -, r, ack, d, h⟩
  · obtain ⟨hesc, hv, hi, hok⟩ := hend
    have hiff : Acknowledges e value ↔ headerAck e.receiveHeader ≠ UInt8.ofNat e.sequenceNumber :=
      ⟨fun h => h.2.2.2.2, fun h => ⟨hesc, hv, hi, hok, h⟩⟩
    rw [h]
    show (receiveIntact (decoded e)).2.sendPacket = _
    rw [receiveIntact_sendPacket, receiveAck_sendPacket (e := decoded e) hrel]
    exact (if_congr hiff rfl rfl).symm
  · rw [h, if_neg fun hack => hnot ⟨hack.1, hack.2.1, hack.2.2.1, hack.2.2.2.1⟩]
    rfl

/-- Sending leaves a reliable packet in place. -/
theorem sendHalf_sendPacket {e : Engine} (hrel : e.SendsReliably) :
    (sendHalf e).engine.sendPacket = e.sendPacket := by
  rcases sendHalf_cases e with ⟨-, h⟩ | ⟨-, -, h⟩ | ⟨-, -, -, h⟩ | ⟨-, -, -, h⟩ <;> rw [h]
  · obtain ⟨t, ht | ⟨-, p, hp, hr⟩⟩ := sendOctet_engine e
    · rw [ht]
      rfl
    · exact absurd hr (hrel p hp)
  · rcases startFrame_cases e with ⟨-, h⟩ | ⟨-, p, -, h⟩ | ⟨-, -, -, h⟩ | ⟨-, -, -, h⟩ <;>
      rw [h] <;> rfl
  · rfl

/-- How many packets the engine holds. -/
def Engine.outstanding (e : Engine) : Nat := if e.sendPacket.isSome then 1 else 0

/-- How many packets have been acknowledged among received octets, each with the engine
before it. -/
def acknowledgements (xs : List (Engine × UInt8)) : Nat :=
  xs.countP fun x => x.1.sendPacket.isSome ∧ Acknowledges x.1 x.2

/-- What a call, or its receive loop, makes of the packet being sent: it stays or it is
acknowledged.  After a packet has been reported nothing is left to send exactly when
the frame that was accepted acknowledged what there was. -/
structure Sends (xs : List (Engine × UInt8)) (received : Bool) (e e' : Engine) : Prop where
  armed : e.receiveArmed = true → e'.receiveArmed = !received
  packet : e'.sendPacket = e.sendPacket ∨ e'.sendPacket = none
  count : acknowledgements xs + e'.outstanding = e.outstanding
  quiet : received = false → ∀ x ∈ xs, ¬ Accepts x.1 x.2
  acknowledged : received = true → (e'.sendPacket = none ↔
    ∀ x ∈ xs, x.1.sendPacket ≠ none → Accepts x.1 x.2 → Acknowledges x.1 x.2)

theorem Sends.idle (e : Engine) : Sends [] false e e :=
  ⟨id, Or.inl rfl, by simp [acknowledgements], fun _ _ hx => by simp at hx, fun h => nomatch h⟩

theorem Engine.SendsReliably.of_packet {e e' : Engine} (h : e.SendsReliably)
    (hp : e'.sendPacket = e.sendPacket ∨ e'.sendPacket = none) : e'.SendsReliably := by
  intro p hsome
  rcases hp with hp | hp
  · exact h p (hp.symm.trans hsome)
  · exact absurd (hp.symm.trans hsome) (by simp)

theorem Engine.outstanding_congr {e e' : Engine} (h : e'.sendPacket = e.sendPacket) :
    e'.outstanding = e.outstanding := by
  simp only [Engine.outstanding, h]

/-- One octet reports a packet exactly when the frame it ends is accepted. -/
theorem receiveOctet_received (stray : UInt8 → UInt8) (value : UInt8) {a : Activity}
    (ha : a.received = false) (e : Engine) :
    (receiveOctet stray value a e).1.received = true ↔ Accepts e value := by
  unfold receiveOctet
  by_cases hesc : e.receiveSlipEscape = true
  · rw [if_pos hesc]
    exact ⟨fun h => absurd (ha.symm.trans h) (by simp), fun h => by simp [h.1] at hesc⟩
  · have hesc' : e.receiveSlipEscape = false := by simpa using hesc
    rw [if_neg hesc]
    by_cases hv : value = slipFrame
    · rw [if_pos hv]
      by_cases hd : Deliverable e
      · exact ⟨fun _ => ⟨hesc', hv, hd⟩, fun _ => (endOfFrame_of_deliverable hd a).1⟩
      · refine ⟨?_, fun h => absurd h.2.2 hd⟩
        intro h
        exact absurd ((endOfFrame_of_not_deliverable hd a).1.symm.trans h) (by simp [ha])
    · rw [if_neg hv]
      have hnot : ¬ Accepts e value := fun h => hv h.2.1
      split <;> exact ⟨fun h => absurd (ha.symm.trans h) (by simp), fun h => absurd h hnot⟩

/-- The octet that ends an accepted frame takes the receive packet away. -/
theorem receiveOctet_armed_of_accepts (stray : UInt8 → UInt8) {value : UInt8} {e : Engine}
    (h : Accepts e value) (a : Activity) :
    (receiveOctet stray value a e).2.receiveArmed = false := by
  obtain ⟨hesc, hv, hd⟩ := h
  rw [receiveOctet, if_neg (by simp [hesc]), if_pos hv]
  exact (endOfFrame_of_deliverable hd a).2.1

/-- An octet that ends no accepted frame is read before the others. -/
theorem Sends.cons {xs : List (Engine × UInt8)} {received : Bool} {e e₁ e' : Engine}
    {value : UInt8} (h : Sends xs received e₁ e') (hnot : ¬ Accepts e value)
    (harm : e.receiveArmed = true → e₁.receiveArmed = true)
    (hone : e₁.sendPacket = if Acknowledges e value then none else e.sendPacket) :
    Sends ((e, value) :: xs) received e e' := by
  have hp : e₁.sendPacket = e.sendPacket ∨ e₁.sendPacket = none := by
    rw [hone]
    split
    · exact Or.inr rfl
    · exact Or.inl rfl
  refine ⟨fun ha => h.armed (harm ha), ?_, ?_, ?_, ?_⟩
  · rcases h.packet with hp' | hp'
    · rw [hp']
      exact hp
    · exact Or.inr hp'
  · have hcount := h.count
    by_cases hack : Acknowledges e value
    · rw [if_pos hack] at hone
      have h0 : e₁.outstanding = 0 := by simp [Engine.outstanding, hone]
      simp only [acknowledgements, List.countP_cons, hack, and_true, decide_eq_true_eq,
        Engine.outstanding] at hcount h0 ⊢
      omega
    · rw [if_neg hack] at hone
      simpa [acknowledgements, List.countP_cons, hack, Engine.outstanding_congr hone] using hcount
  · intro hr
    exact List.forall_mem_cons.2 ⟨hnot, h.quiet hr⟩
  · intro hr
    rw [h.acknowledged hr, List.forall_mem_cons]
    exact ⟨fun hall => ⟨fun _ hacc => absurd hacc hnot, hall⟩, fun hall => hall.2⟩

/-- Any other octet leaves the receive packet in place. -/
theorem receiveOctet_armed (stray : UInt8 → UInt8) {value : UInt8} {e : Engine}
    (h : ¬ Accepts e value) (a : Activity) :
    (receiveOctet stray value a e).2.receiveArmed = e.receiveArmed := by
  unfold receiveOctet
  by_cases hesc : e.receiveSlipEscape = true
  · rw [if_pos hesc]
    exact (storeOctet_keeps _ _).1
  · rw [if_neg hesc]
    by_cases hv : value = slipFrame
    · rw [if_pos hv]
      exact (endOfFrame_of_not_deliverable (fun hd => h ⟨by simpa using hesc, hv, hd⟩) a).2
    · rw [if_neg hv]
      split
      · rfl
      · exact (storeOctet_keeps _ _).1

theorem receiveLoop_sends (stray : UInt8 → UInt8) {e : Engine} (hrel : e.SendsReliably)
    (rx : List UInt8) {a : Activity} (ha : a.received = false) :
    Sends (loopStates stray rx a e) (receiveLoop stray rx a e).1.received e
      (receiveLoop stray rx a e).2.2 := by
  induction rx generalizing a e with
  | nil => exact ha ▸ Sends.idle e
  | cons value rx ih =>
    unfold receiveLoop loopStates
    split
    · have hone := receiveOctet_sendPacket stray value a hrel
      have hrec := receiveOctet_received stray value ha e
      by_cases hacc : Accepts e value
      · -- the frame is accepted, and the loop ends here
        have hoff := receiveOctet_armed_of_accepts stray hacc a
        have hend := receiveLoop_off stray rx (receiveOctet stray value a e).1 hoff
        rw [hend.1, hend.2]
        refine ⟨fun _ => by rw [hrec.2 hacc]; exact hoff, ?_, ?_, ?_, ?_⟩
        · rw [hone]
          split
          · exact Or.inr rfl
          · exact Or.inl rfl
        · by_cases hack : Acknowledges e value
          · rw [if_pos hack] at hone
            simp [acknowledgements, Engine.outstanding, hone, hack]
          · rw [if_neg hack] at hone
            simp [acknowledgements, Engine.outstanding, hone, hack]
        · intro hr
          exact absurd (hr.symm.trans (hrec.2 hacc)) (by simp)
        · intro _
          rw [hone]
          by_cases hack : Acknowledges e value
          · simp [hack]
          · simp [hack, hacc]
      · have hrec' : (receiveOctet stray value a e).1.received = false := by simpa [hacc] using hrec
        have hp : (receiveOctet stray value a e).2.sendPacket = e.sendPacket ∨
            (receiveOctet stray value a e).2.sendPacket = none := by
          rw [hone]
          split
          · exact Or.inr rfl
          · exact Or.inl rfl
        exact (ih (hrel.of_packet hp) hrec').cons hacc
          (fun ha => (receiveOctet_armed stray hacc a).trans ha) hone
    · exact ha ▸ Sends.idle e

/-- **What one call of `ubcsp_poll` does to a reliable packet.** -/
theorem ubcspPoll_sends (stray : UInt8 → UInt8) {e : Engine} (hrel : e.SendsReliably)
    (rx : List UInt8) :
    Sends (pollStates stray rx e) (ubcspPoll stray rx e).activity.received e
      (ubcspPoll stray rx e).engine := by
  have hsend := sendHalf_sendPacket hrel
  have hrel' : (sendHalf e).engine.SendsReliably := hrel.of_packet (Or.inl hsend)
  have harm : (sendHalf e).engine.receiveArmed = e.receiveArmed :=
    congrArg Rx.receiveArmed (sendHalf_rx e)
  unfold ubcspPoll pollStates
  dsimp only
  split
  · exact ⟨fun ha => harm.trans ha, Or.inl hsend, by
      simp [acknowledgements, Engine.outstanding_congr hsend], fun _ _ hx => by
        simp at hx, fun h => nomatch h⟩
  · obtain ⟨harmed, hp, hcount, hquiet, hacked⟩ :=
      receiveLoop_sends stray hrel' rx (sendHalf_received e)
    generalize receiveLoop stray rx (sendHalf e).activity (sendHalf e).engine = r at *
    have hfinish : (finishPoll (sendHalf e).delay r.2.2).sendPacket = r.2.2.sendPacket ∧
        (finishPoll (sendHalf e).delay r.2.2).receiveArmed = r.2.2.receiveArmed := by
      unfold finishPoll
      split <;> exact ⟨rfl, rfl⟩
    obtain ⟨hfinish, hfarm⟩ := hfinish
    refine ⟨fun ha => hfarm.trans (harmed (harm.trans ha)), by rw [hfinish, ← hsend]; exact hp, ?_,
      hquiet, ?_⟩
    · rw [Engine.outstanding_congr hfinish, hcount, Engine.outstanding_congr hsend]
    · intro hrec
      rw [hfinish]
      exact hacked hrec

/-- A receive loop that still has its receive packet has read every octet. -/
theorem receiveLoop_rest (stray : UInt8 → UInt8) (rx : List UInt8) {a : Activity} {e : Engine}
    (harmed : (receiveLoop stray rx a e).2.2.receiveArmed = true) :
    (receiveLoop stray rx a e).2.1 = [] := by
  induction rx generalizing a e with
  | nil => rfl
  | cons value rx ih =>
    unfold receiveLoop at harmed ⊢
    split at harmed
    · rename_i ha
      rw [if_pos ha]
      exact ih harmed
    · rename_i ha
      exact absurd harmed ha

/-- So has a call that has not returned early. -/
theorem ubcspPoll_rest_nil {stray : UInt8 → UInt8} {rx : List UInt8} {e : Engine}
    (hret : ¬ (sendHalf e).returned = true)
    (harmed : (ubcspPoll stray rx e).engine.receiveArmed = true) :
    (ubcspPoll stray rx e).rest = [] := by
  unfold ubcspPoll at harmed ⊢
  dsimp only at harmed ⊢
  rw [if_neg hret] at harmed ⊢
  apply receiveLoop_rest stray rx
  unfold finishPoll at harmed
  split at harmed <;> exact harmed

/-- A call that has waited and still has its receive packet has read every octet. -/
theorem ubcspPoll_rest {stray : UInt8 → UInt8} {rx : List UInt8} {e : Engine}
    (hdelay : (ubcspPoll stray rx e).delay ≠ 0)
    (harmed : (ubcspPoll stray rx e).engine.receiveArmed = true) :
    (ubcspPoll stray rx e).rest = [] := by
  refine ubcspPoll_rest_nil (fun hret => hdelay ?_) harmed
  unfold ubcspPoll
  dsimp only
  rw [if_pos hret]

end OpenwrtFeed.Ubcsp
