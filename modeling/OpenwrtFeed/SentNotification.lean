import OpenwrtFeed.FrameAcceptance

/-! # Whether the upper layer hears that a packet is gone

A call of `ubcsp_poll` may take the packet of the upper layer away, and should then report
`UBCSP_PACKET_SENT`.  It does, with one exception: when the frame that acknowledges the
packet is at the same time a SYNC that resets an active engine, `ubcsp_recevied_packet`
returns `UBCSP_PEER_RESET` and drops the report.  Only a CONF RESP in the same call, which
reports `UBCSP_PACKET_SENT` for a reason of its own, makes up for it
(`ubcspPoll_notifies_iff`).
-/
namespace OpenwrtFeed.Ubcsp

/-- The engine holds a reliable packet. -/
def Engine.holdsReliable (e : Engine) : Bool := e.sendPacket.any fun p => p.reliable ≠ 0

/-- The octet `value` ends a frame that acknowledges the reliable packet being sent. -/
def Clears (e : Engine) (value : UInt8) : Prop := Acknowledges e value ∧ e.holdsReliable = true

instance (e : Engine) (value : UInt8) : Decidable (Clears e value) :=
  inferInstanceAs (Decidable (_ ∧ _))

/-- The octet `value` ends a CONF RESP that makes the engine active. -/
def Activates (e : Engine) (value : UInt8) : Prop :=
  receivedLe value e = some 3 ∧ e.linkEstablishmentState ≠ .active

instance (e : Engine) (value : UInt8) : Decidable (Activates e value) :=
  inferInstanceAs (Decidable (_ ∧ _))

/-! ## One frame -/

theorem receiveAck_eq (e : Engine) :
    receiveAck e =
      if headerAck e.receiveHeader ≠ UInt8.ofNat e.sequenceNumber ∧ e.holdsReliable = true then
        (.packetSent,
          { e with sendPacket := none, sequenceNumber := e.sequenceNumber + 1, delay := 0 })
      else (.none, e) := by
  unfold receiveAck Engine.holdsReliable
  by_cases hack : headerAck e.receiveHeader ≠ UInt8.ofNat e.sequenceNumber
  · cases hp : e.sendPacket with
    | none => simp [hack]
    | some p => by_cases hr : p.reliable = 0 <;> simp [hack, hr]
  · simp [hack]

/-- Which link-establishment packet an intact frame is. -/
theorem receivedLe_of_endsFrame {e : Engine} {value : UInt8} (h : EndsFrame e value) :
    receivedLe value e =
      if headerChannel e.receiveHeader = 1 then some (whichLePayload e.receivePacket.payload) else
        none := by
  obtain ⟨hesc, hv, hi, hsum, hcheck⟩ := h
  simp [receivedLe, leMessage, hesc, hv, hi, hsum, hcheck]

theorem receivedLe_of_not_endsFrame {e : Engine} {value : UInt8} (h : ¬ EndsFrame e value) :
    receivedLe value e = none := by
  unfold receivedLe leMessage
  split
  · split
    · rename_i h1 h2
      exact absurd ⟨h1.1, h1.2, h2.1, h2.2.1, h2.2.2.1⟩ h
    · rfl
  · rfl

/-- What a link-establishment packet reports: a SYNC that resets the engine reports nothing
but the reset, and a CONF RESP that makes it active reports that a packet may be sent. -/
theorem receiveLe_sent (a : Activity) (e : Engine) :
    (receiveLe a e).1.sent =
      if whichLePayload e.receivePacket.payload = 0 ∧ e.linkEstablishmentState = .active then false
      else if whichLePayload e.receivePacket.payload = 3 ∧
        e.linkEstablishmentState ≠ .active then true
      else a.sent := by
  unfold receiveLe
  dsimp only
  generalize whichLePayload e.receivePacket.payload = k
  rcases k with _ | _ | _ | _ | k <;>
    cases hs : e.linkEstablishmentState <;>
      simp [Activity.onPeerReset, Activity.packetSent]

theorem receiveData_sent (a : Activity) (e : Engine) : (receiveData a e).1.sent = a.sent := by
  unfold receiveData
  split
  · split
    · dsimp only
      split
      · simp [Activity.packetReceivedAck]
      · rfl
    · simp [Activity.packetReceived]
  · rfl

/-! ## One octet -/

/-- **A packet is taken away by an acknowledgement.** -/
theorem receiveOctet_clears (stray : UInt8 → UInt8) (value : UInt8) (a : Activity) (e : Engine) :
    (receiveOctet stray value a e).2.sendPacket = if Clears e value then none else
      e.sendPacket := by
  rcases receiveOctet_cases stray value a e with ⟨hend, -, d, h⟩ | ⟨hnot, -, r, ack, d, h⟩
  · obtain ⟨hesc, hv, hi, hok⟩ := hend
    have hiff : Clears e value ↔ headerAck (decoded e).receiveHeader ≠
        UInt8.ofNat (decoded e).sequenceNumber ∧ (decoded e).holdsReliable = true :=
      ⟨fun hc => ⟨hc.1.2.2.2.2, hc.2⟩, fun hc => ⟨⟨hesc, hv, hi, hok, hc.1⟩, hc.2⟩⟩
    rw [h]
    show (receiveIntact (decoded e)).2.sendPacket = _
    rw [receiveIntact_sendPacket, receiveAck_eq]
    by_cases hc : Clears e value
    · rw [if_pos hc, if_pos (hiff.1 hc)]
    · rw [if_neg hc, if_neg fun hack => hc (hiff.2 hack)]
      rfl
  · rw [h, if_neg fun hc => hnot ⟨hc.1.1, hc.1.2.1, hc.1.2.2.1, hc.1.2.2.2.1⟩]
    rfl

/-- The octet is reported as `UBCSP_PACKET_SENT`. -/
def Notifies (e : Engine) (value : UInt8) : Prop :=
  Activates e value ∨ (Clears e value ∧ ¬ PeerResets e value)

instance (e : Engine) (value : UInt8) : Decidable (Notifies e value) :=
  inferInstanceAs (Decidable (_ ∨ _))

/-- **An acknowledgement is reported**, unless it comes with a SYNC that resets the engine. -/
theorem receiveOctet_sent (stray : UInt8 → UInt8) (value : UInt8) (a : Activity) (e : Engine) :
    (receiveOctet stray value a e).1.sent = (a.sent || decide (Notifies e value)) := by
  rcases receiveOctet_cases stray value a e with ⟨hend, h, -⟩ | ⟨hnot, h, -⟩
  · have hle := receivedLe_of_endsFrame hend
    obtain ⟨hesc, hv, hi, hok⟩ := hend
    have hack : (receiveAck (decoded e)).1.sent = decide (Clears e value) := by
      rw [receiveAck_eq]
      have hiff : Clears e value ↔ headerAck (decoded e).receiveHeader ≠
          UInt8.ofNat (decoded e).sequenceNumber ∧ (decoded e).holdsReliable = true :=
        ⟨fun hc => ⟨hc.1.2.2.2.2, hc.2⟩, fun hc => ⟨⟨hesc, hv, hi, hok, hc.1⟩, hc.2⟩⟩
      by_cases hc : Clears e value
      · rw [if_pos (hiff.1 hc)]
        simp [hc, Activity.packetSent]
      · rw [if_neg fun hack => hc (hiff.2 hack)]
        simp [hc, Activity.none]
    rw [h, Activity.or_sent]
    congr 1
    by_cases hch : headerChannel e.receiveHeader = 1
    · rw [if_pos hch] at hle
      have hsent : (receiveIntact (decoded e)).1.sent =
          if whichLePayload e.receivePacket.payload = 0 ∧ e.linkEstablishmentState =
            .active then false
          else if whichLePayload e.receivePacket.payload = 3 ∧
            e.linkEstablishmentState ≠ .active then true
          else decide (Clears e value) := by
        rw [receiveIntact_le hch, receiveLe_sent, receiveAck_state, receiveAck_receivePacket, hack]
        rfl
      rw [hsent]
      simp only [Notifies, Activates, PeerResets, hle, Option.some.injEq]
      by_cases h0 : whichLePayload e.receivePacket.payload = 0 ∧ e.linkEstablishmentState = .active
      · simp [h0]
      · by_cases h3 : whichLePayload e.receivePacket.payload = 3 ∧
          e.linkEstablishmentState ≠ .active
        · simp [h3]
        · rw [if_neg h0, if_neg h3]
          simp [h0, h3]
    · rw [if_neg hch] at hle
      have hsent : (receiveIntact (decoded e)).1.sent = (receiveAck (decoded e)).1.sent := by
        unfold receiveIntact
        dsimp only
        rw [if_neg (by rw [receiveAck_receivePacket]; exact hch)]
        split
        · exact receiveData_sent _ _
        · rfl
      rw [hsent, hack]
      simp [Notifies, Activates, PeerResets, hle]
  · have hle := receivedLe_of_not_endsFrame hnot
    have hclears : ¬ Clears e value :=
      fun hc => hnot ⟨hc.1.1, hc.1.2.1, hc.1.2.2.1, hc.1.2.2.2.1⟩
    rw [h]
    simp [Notifies, Activates, hle, hclears]

/-! ## One call -/

/-- The receive loop reports what its octets report. -/
theorem receiveLoop_sent (stray : UInt8 → UInt8) (rx : List UInt8) (a : Activity) (e : Engine) :
    (receiveLoop stray rx a e).1.sent = true ↔
      a.sent = true ∨ ∃ x ∈ loopStates stray rx a e, Notifies x.1 x.2 := by
  induction rx generalizing a e with
  | nil => simp [receiveLoop, loopStates]
  | cons value rx ih =>
    unfold receiveLoop loopStates
    split
    · rw [ih, receiveOctet_sent, Bool.or_eq_true, decide_eq_true_eq,
        List.exists_mem_cons_iff, or_assoc]
    · simp

/-- The receive loop takes the packet away when one of its octets does. -/
theorem receiveLoop_sendPacket (stray : UInt8 → UInt8) (rx : List UInt8) (a : Activity)
    (e : Engine) :
    ((∃ x ∈ loopStates stray rx a e, Clears x.1 x.2) →
      (receiveLoop stray rx a e).2.2.sendPacket = none) ∧
      ((∀ x ∈ loopStates stray rx a e, ¬ Clears x.1 x.2) →
        (receiveLoop stray rx a e).2.2.sendPacket = e.sendPacket) ∧
      (e.sendPacket = none → ∀ x ∈ loopStates stray rx a e, ¬ Clears x.1 x.2) := by
  induction rx generalizing a e with
  | nil => simp [receiveLoop, loopStates]
  | cons value rx ih =>
    have hone := receiveOctet_clears stray value a e
    obtain ⟨ih1, ih2, ih3⟩ := ih (receiveOctet stray value a e).1 (receiveOctet stray value a e).2
    have hnone : e.sendPacket = none → ¬ Clears e value := by
      intro hn hc
      simp [Clears, Engine.holdsReliable, hn] at hc
    unfold receiveLoop loopStates
    split
    · refine ⟨?_, ?_, ?_⟩
      · rw [List.exists_mem_cons_iff]
        rintro (hc | hc)
        · rw [if_pos hc] at hone
          rw [ih2 (ih3 hone), hone]
        · exact ih1 hc
      · rw [List.forall_mem_cons]
        rintro ⟨hc, hrest⟩
        rw [ih2 hrest, hone, if_neg hc]
      · intro hn
        rw [List.forall_mem_cons]
        refine ⟨hnone hn, ih3 ?_⟩
        rw [hone, if_neg (hnone hn), hn]
    · simp

/-- Only one octet of the receive loop takes the packet away. -/
theorem receiveLoop_clears_once (stray : UInt8 → UInt8) (rx : List UInt8) (a : Activity)
    (e : Engine) {x y : Engine × UInt8} (hx : x ∈ loopStates stray rx a e)
    (hy : y ∈ loopStates stray rx a e) (hcx : Clears x.1 x.2) (hcy : Clears y.1 y.2) : x = y := by
  induction rx generalizing a e with
  | nil => simp [loopStates] at hx
  | cons value rx ih =>
    unfold loopStates at hx hy
    split at hx
    · rename_i harmed
      rw [if_pos harmed] at hy
      have hlater : Clears e value → ∀ z ∈ loopStates stray rx (receiveOctet stray value a e).1
          (receiveOctet stray value a e).2, ¬ Clears z.1 z.2 := by
        intro hc
        apply (receiveLoop_sendPacket stray rx _ _).2.2
        rw [receiveOctet_clears, if_pos hc]
      rcases List.mem_cons.1 hx with rfl | hx
      · rcases List.mem_cons.1 hy with rfl | hy
        · rfl
        · exact absurd hcy (hlater hcx y hy)
      · rcases List.mem_cons.1 hy with rfl | hy
        · exact absurd hcx (hlater hcy x hx)
        · exact ih _ _ hx hy
    · simp at hx

/-- The sending half reports the packet that it takes away. -/
theorem sendHalf_sent (e : Engine) :
    ((sendHalf e).activity.sent = false ∧ (sendHalf e).engine.sendPacket = e.sendPacket) ∨
      ((sendHalf e).activity.sent = true ∧ (sendHalf e).engine.sendPacket = none) := by
  rcases sendHalf_cases e with ⟨-, h⟩ | ⟨-, -, h⟩ | ⟨-, -, -, h⟩ | ⟨-, -, -, h⟩ <;> rw [h]
  · exact Or.inl ⟨rfl, rfl⟩
  · rcases sendOctet_cases e with ⟨tx, t, hc⟩ | ⟨tx, t, hc⟩ <;> rw [hc]
    · exact Or.inl ⟨rfl, rfl⟩
    · rcases sentPacket_eq (e.withTx t) with ⟨hs, -⟩ | ⟨hs, -⟩ <;> rw [hs]
      · exact Or.inl ⟨rfl, rfl⟩
      · exact Or.inr ⟨rfl, rfl⟩
  · rcases startFrame_cases e with ⟨-, h⟩ | ⟨-, p, -, h⟩ | ⟨-, -, -, h⟩ | ⟨-, -, -, h⟩ <;>
      rw [h] <;> exact Or.inl ⟨rfl, rfl⟩
  · exact Or.inl ⟨rfl, rfl⟩

/-- The octet `value` ends a SYNC that resets an active engine and acknowledges the reliable
packet being sent. -/
def ResetsAndClears (e : Engine) (value : UInt8) : Prop := PeerResets e value ∧ Clears e value

instance (e : Engine) (value : UInt8) : Decidable (ResetsAndClears e value) :=
  inferInstanceAs (Decidable (_ ∧ _))

/-- **No silent loss of a packet.**  A call of `ubcsp_poll` that takes the packet away
reports `UBCSP_PACKET_SENT` exactly when no SYNC that it receives both resets an active
engine and acknowledges the packet, or a CONF RESP that it receives makes the engine
active. -/
theorem ubcspPoll_notifies_iff (stray : UInt8 → UInt8) (rx : List UInt8) (e : Engine) :
    (e.sendPacket ≠ none → (ubcspPoll stray rx e).engine.sendPacket = none →
        (ubcspPoll stray rx e).activity.sent = true) ↔
      ((∃ x ∈ pollStates stray rx e, ResetsAndClears x.1 x.2) →
        ∃ x ∈ pollStates stray rx e, Activates x.1 x.2) := by
  unfold ubcspPoll pollStates
  dsimp only
  have hhalf := sendHalf_sent e
  split
  · -- the call has returned after it started a link-establishment frame
    rename_i hret
    obtain ⟨hact, -, -⟩ := sendHalf_returned hret
    refine iff_of_true ?_ (by simp)
    intro hheld hnone
    rcases hhalf with ⟨-, hkeep⟩ | ⟨hsent, -⟩
    · exact absurd (hkeep.symm.trans hnone) hheld
    · rw [hact] at hsent
      cases hsent
  · generalize hs : sendHalf e = s at hhalf
    have hfinish : (finishPoll s.delay (receiveLoop stray rx s.activity s.engine).2.2).sendPacket =
        (receiveLoop stray rx s.activity s.engine).2.2.sendPacket := by
      unfold finishPoll
      split <;> rfl
    obtain ⟨hclear, hkeep, hidle⟩ := receiveLoop_sendPacket stray rx s.activity s.engine
    rw [hfinish, receiveLoop_sent]
    constructor
    · rintro h ⟨x, hx, hreset, hc⟩
      -- the packet was still there when the SYNC came, and nothing else takes it away
      have hheld : s.engine.sendPacket ≠ none := fun hn => hidle hn x hx hc
      rcases hhalf with ⟨hquiet, hsame⟩ | ⟨-, hgone⟩
      · rcases h (by rw [← hsame]; exact hheld) (hclear ⟨x, hx, hc⟩) with
          hsent | ⟨y, hy, hact | hy'⟩
        · exact absurd (hquiet.symm.trans hsent) (by simp)
        · exact ⟨y, hy, hact⟩
        · have hxy := receiveLoop_clears_once stray rx s.activity s.engine hx hy hc hy'.1
          rw [hxy] at hreset
          exact absurd hreset hy'.2
      · exact absurd hgone hheld
    · intro h hheld hnone
      rcases hhalf with ⟨-, hsame⟩ | ⟨hsent, -⟩
      · by_cases hc : ∃ x ∈ loopStates stray rx s.activity s.engine, Clears x.1 x.2
        · obtain ⟨x, hx, hc⟩ := hc
          by_cases hreset : PeerResets x.1 x.2
          · obtain ⟨y, hy, hact⟩ := h ⟨x, hx, hreset, hc⟩
            exact Or.inr ⟨y, hy, Or.inl hact⟩
          · exact Or.inr ⟨x, hx, Or.inr ⟨hc, hreset⟩⟩
        · push Not at hc
          rw [hkeep hc, hsame] at hnone
          exact absurd hnone hheld
      · exact Or.inl hsent

/-! ### A packet that is gone without a word -/

/-- A SYNC without a CRC whose header acknowledges sequence number 0. -/
def ackingSync : List UInt8 := [0x08, 0x41, 0x00, 0xB6] ++ lePayload .sync ++ [slipFrame]

/-- A CONF RESP has made the engine active, it has been given a reliable packet, and it has
started the link-establishment frame that is still due. -/
def activeWithPacket : Engine :=
  (ubcspPoll id []
    (ubcspSendPacket ⟨5, 1, 1, [0x03]⟩
      (ubcspPoll id (slipFrame :: plainLeFrame .confResp)
        (ubcspPoll id []
          (ubcspReceivePacket (.blank 512) (ubcspInitialize .zero))).engine).engine)).engine

/-- **A reliable packet is lost in silence**, in a reachable engine that has been given it
after `UBCSP_PACKET_SENT`. -/
theorem exists_silent_loss :
    Reachable id (fun _ _ => True) activeWithPacket ∧ activeWithPacket.sendPacket ≠ none ∧
      (ubcspPoll id ackingSync activeWithPacket).engine.sendPacket = none ∧
      (ubcspPoll id ackingSync activeWithPacket).activity = .onPeerReset :=
  ⟨((((Reachable.start.receive _).poll _ fun _ _ => trivial).poll _ fun _ _ => trivial).send _).poll
    _
      fun _ _ => trivial,
    by decide, by decide, by decide⟩

end OpenwrtFeed.Ubcsp
