import OpenwrtFeed.FrameReception

/-! # What the end of a frame does

`Deframes n p e` says that the receive half of the engine is where the receiver of
the SLIP code is (`p`), with a receive packet of capacity `n`.  One octet keeps
the two together (`Deframes.octet`).  A frame is acted on when a delimiter
completes it: `endOfFrame_of_rejected` for one that is too short or not intact,
`endOfFrame_of_intact` for any other.
-/
namespace OpenwrtFeed.Ubcsp

/-! ## The receive buffers at the end of a frame -/

/-- The buffers `r` become `r'` without an octet being stored: the receive packet
stays as it is, up to the fields decoded from the header, or is handed over. -/
structure Rx.Frees (r r' : Rx) : Prop where
  header : r'.receiveHeader = r.receiveHeader
  payload : r'.receivePacket.payload = r.receivePacket.payload
  escape : r'.receiveSlipEscape = r.receiveSlipEscape
  armed : (r'.receiveArmed = r.receiveArmed ∧ r'.receivePacket.length = r.receivePacket.length) ∨
    r'.receiveArmed = false

theorem Rx.Frees.refl (r : Rx) : r.Frees r := ⟨rfl, rfl, rfl, Or.inl ⟨rfl, rfl⟩⟩

theorem receiveLe_frees (a : Activity) (e : Engine) : e.rx.Frees (receiveLe a e).2.rx := by
  rcases receiveLe_cases a e with ⟨l, h⟩ | ⟨l, h⟩ | h
  all_goals rw [h]
  · exact Rx.Frees.refl _
  · exact Rx.Frees.refl _
  · exact ⟨rfl, rfl, rfl, Or.inl ⟨rfl, rfl⟩⟩

theorem receiveData_frees (a : Activity) (e : Engine) : e.rx.Frees (receiveData a e).2.rx := by
  rcases receiveData_cases a e with h | h | h | h
  all_goals rw [h]
  · exact Rx.Frees.refl _
  · exact Rx.Frees.refl _
  · exact ⟨rfl, rfl, rfl, Or.inr rfl⟩
  · exact ⟨rfl, rfl, rfl, Or.inr rfl⟩

theorem receiveIntact_frees (e : Engine) : e.rx.Frees (receiveIntact e).2.rx := by
  rw [← receiveAck_rx e]
  rcases receiveIntact_cases e with h | h | h
  all_goals rw [h]
  · exact receiveLe_frees _ _
  · exact receiveData_frees _ _
  · exact Rx.Frees.refl _

theorem receviedPacket_frees (e : Engine) : e.rx.Frees (receviedPacket e).2.rx := by
  by_cases h : Intact e
  · rw [receviedPacket_of_intact h]
    have := receiveIntact_frees (decoded e)
    exact ⟨this.header, this.payload, this.escape, this.armed⟩
  · obtain ⟨r, hr, harmed, hlen, hpay, hesc, hhead⟩ := receviedPacket_of_not_intact h
    rw [hr]
    exact ⟨hhead, hpay, hesc, Or.inl ⟨harmed, hlen⟩⟩

theorem endOfFrame_frees (a : Activity) (e : Engine) : e.rx.Frees (endOfFrame a e).2.rx := by
  by_cases hi : 0 ≤ e.receiveIndex
  · obtain ⟨d, hd⟩ := endOfFrame_eq a hi
    have := receviedPacket_frees e
    rw [hd]
    exact ⟨this.header, this.payload, this.escape, this.armed⟩
  · unfold endOfFrame
    rw [if_neg hi]
    exact ⟨rfl, rfl, rfl, Or.inl ⟨rfl, rfl⟩⟩

theorem endOfFrame_receiveIndex (a : Activity) (e : Engine) :
    (endOfFrame a e).2.receiveIndex = -4 := by
  unfold endOfFrame
  split <;> rfl

/-! ## The engine follows the receiver of the SLIP code -/

/-- The receive half of the engine has read what the receiver `p` has read, into a
receive packet of capacity `n`; an engine without a receive packet is between two
frames. -/
structure Deframes (n : Nat) (p : SlipCode.Partial UInt8) (e : Engine) : Prop where
  header_length : e.receiveHeader.length = 4
  escaped : e.receiveSlipEscape = p.escaped
  capacity : e.receiveArmed = true → e.receivePacket.length.toNat = n
  collects : e.receiveArmed = true → Collects p.octets e.rx
  idle : e.receiveArmed = false → p = .empty

/-- Writing anything but the receive buffers keeps the engine in step. -/
theorem Deframes.of_rx {n : Nat} {p : SlipCode.Partial UInt8} {e e' : Engine}
    (h : Deframes n p e) (hrx : e'.rx = e.rx) : Deframes n p e' := by
  obtain ⟨hhl, hesc, hcap, hcol, hidle⟩ := h
  have harmed : e'.receiveArmed = e.receiveArmed := congrArg Rx.receiveArmed hrx
  have hpacket : e'.receivePacket = e.receivePacket := congrArg Rx.receivePacket hrx
  have hheader : e'.receiveHeader = e.receiveHeader := congrArg Rx.receiveHeader hrx
  have hescape : e'.receiveSlipEscape = e.receiveSlipEscape := congrArg Rx.receiveSlipEscape hrx
  refine ⟨by rw [hheader]; exact hhl, by rw [hescape]; exact hesc, ?_, ?_, ?_⟩
  · rw [harmed, hpacket]; exact hcap
  · rw [harmed, hrx]; exact hcol
  · rw [harmed]; exact hidle

/-- A new receive packet is given to an engine between two frames. -/
theorem Deframes.rearm {n : Nat} {e : Engine} (h : Deframes n .empty e) {q : Packet}
    (hq : q.length.toNat ≤ q.payload.length) :
    Deframes q.length.toNat .empty (ubcspReceivePacket q e) :=
  ⟨h.header_length, h.escaped, fun _ => rfl, fun _ => .empty h.header_length hq rfl,
    fun h => nomatch h⟩

/-- At the end of a frame the receive buffers are empty. -/
theorem Deframes.ends {n : Nat} {s : List UInt8} {e : Engine} (h : Deframes n ⟨false, s⟩ e)
    (a : Activity) : Deframes n .empty (endOfFrame a e).2 := by
  have hfree := endOfFrame_frees a e
  have hhl : (endOfFrame a e).2.receiveHeader.length = 4 :=
    (congrArg List.length hfree.header).trans h.header_length
  have hesc : (endOfFrame a e).2.receiveSlipEscape = false := hfree.escape.trans h.escaped
  have hkeep : (endOfFrame a e).2.receiveArmed = true → e.receiveArmed = true ∧
      (endOfFrame a e).2.receivePacket.length = e.receivePacket.length := by
    intro harmed
    rcases hfree.armed with ⟨ha, hl⟩ | hoff
    · exact ⟨ha.symm.trans harmed, hl⟩
    · exact absurd (hoff.symm.trans harmed) (by simp)
  refine ⟨hhl, hesc, ?_, ?_, fun _ => rfl⟩
  · intro harmed
    rw [(hkeep harmed).2]
    exact h.capacity (hkeep harmed).1
  · intro harmed
    obtain ⟨ha, hl⟩ := hkeep harmed
    refine .empty hhl ?_ (endOfFrame_receiveIndex a e)
    have hpay : (endOfFrame a e).2.receivePacket.payload = e.receivePacket.payload := hfree.payload
    show (endOfFrame a e).2.receivePacket.length.toNat ≤
      (endOfFrame a e).2.receivePacket.payload.length
    rw [hl, hpay]
    exact (h.collects ha).room

/-- An octet that is stored changes neither the packet's capacity nor whether there
is one. -/
theorem storeOctet_keeps (value : UInt8) (e : Engine) :
    (storeOctet value e).receiveArmed = e.receiveArmed ∧
      (storeOctet value e).receivePacket.length = e.receivePacket.length ∧
      (storeOctet value e).receiveHeader.length = e.receiveHeader.length ∧
      (storeOctet value e).receiveSlipEscape = e.receiveSlipEscape := by
  unfold storeOctet
  split
  · exact ⟨rfl, rfl, List.length_set, rfl⟩
  · split <;> exact ⟨rfl, rfl, rfl, rfl⟩

theorem Deframes.stores {n : Nat} {s : List UInt8} {e : Engine} (h : Deframes n ⟨false, s⟩ e)
    (harmed : e.receiveArmed = true) (value : UInt8) :
    Deframes n ⟨false, s ++ [value]⟩ (storeOctet value e) := by
  obtain ⟨ha, hl, hhl, hesc⟩ := storeOctet_keeps value e
  refine ⟨hhl.trans h.header_length, hesc.trans h.escaped, ?_, ?_, ?_⟩
  · intro _
    rw [hl]
    exact h.capacity harmed
  · intro _
    exact (h.collects harmed).store value
  · intro hoff
    exact absurd (hoff.symm.trans (ha.trans harmed)) (by simp)

/-- **One octet keeps the engine in step with the receiver.**  An octet that completes
no frame writes the receive buffers only. -/
theorem Deframes.octet {n : Nat} {stray : UInt8 → UInt8} {p : SlipCode.Partial UInt8}
    {e : Engine} (h : Deframes n p e) (harmed : e.receiveArmed = true) (value : UInt8)
    (a : Activity) :
    Deframes n ((ubcspSlip stray).step p value).1 (receiveOctet stray value a e).2 ∧
      ((((ubcspSlip stray).step p value).2 = none ∧
          ∃ r, r.receiveArmed = true ∧ receiveOctet stray value a e = (a, e.withRx r)) ∨
        ∃ s, p = ⟨false, s⟩ ∧ value = slipFrame ∧
          (ubcspSlip stray).step p value = (.empty, some s) ∧
          receiveOctet stray value a e = endOfFrame a e) := by
  obtain ⟨escaped, s⟩ := p
  have hesc : e.receiveSlipEscape = escaped := h.escaped
  have keep : ∀ b, Deframes n ⟨b, s⟩ { e with receiveSlipEscape := b } := fun b =>
    ⟨h.header_length, rfl, h.capacity,
      fun _ => ⟨h.header_length, (h.collects harmed).header_octets, (h.collects harmed).room,
        (h.collects harmed).payload, (h.collects harmed).index⟩,
      fun hoff => absurd (hoff.symm.trans harmed) (by simp)⟩
  cases escaped with
  | true =>
    have hstep : (ubcspSlip stray).step ⟨true, s⟩ value =
        (⟨false, s ++ [deslip stray value]⟩, none) := rfl
    have hoctet : receiveOctet stray value a e =
        (a, storeOctet (deslip stray value) { e with receiveSlipEscape := false }) := by
      simp [receiveOctet, hesc]
    rw [hstep, hoctet]
    refine ⟨(keep false).stores harmed _, Or.inl ⟨rfl, _, ?_, by rw [storeOctet_eq]; rfl⟩⟩
    exact (storeOctet_keeps _ _).1.trans harmed
  | false =>
    by_cases hf : value = slipFrame
    · have hstep : (ubcspSlip stray).step ⟨false, s⟩ value = (.empty, some s) := by
        rw [hf]
        exact (ubcspSlip stray).step_frame s
      have hoctet : receiveOctet stray value a e = endOfFrame a e := by
        simp [receiveOctet, hesc, hf]
      rw [hstep, hoctet]
      exact ⟨h.ends a, Or.inr ⟨s, rfl, hf, rfl, rfl⟩⟩
    · by_cases he : value = slipEscape
      · have hstep : (ubcspSlip stray).step ⟨false, s⟩ value = (⟨true, s⟩, none) := by
          subst he
          rfl
        have hoctet : receiveOctet stray value a e = (a, { e with receiveSlipEscape := true }) := by
          simp only [receiveOctet, hesc, Bool.false_eq_true, if_false, if_neg hf, if_pos he]
        rw [hstep, hoctet]
        exact ⟨keep true, Or.inl ⟨rfl, { e.rx with receiveSlipEscape := true }, harmed, rfl⟩⟩
      · have hstep : (ubcspSlip stray).step ⟨false, s⟩ value = (⟨false, s ++ [value]⟩, none) := by
          have hf' : value ≠ (ubcspSlip stray).frame := hf
          have he' : value ≠ (ubcspSlip stray).escape := he
          simp [SlipCode.step, hf', he']
        have hoctet : receiveOctet stray value a e = (a, storeOctet value e) := by
          simp [receiveOctet, hesc, hf, he]
        rw [hstep, hoctet]
        refine ⟨h.stores harmed value, Or.inl ⟨rfl, _, ?_, by rw [storeOctet_eq]⟩⟩
        exact (storeOctet_keeps _ _).1.trans harmed

/-! ## What is done with a frame -/

theorem not_intact_of_short {n : Nat} {s : List UInt8} (h : s.length < 4) :
    ¬ FrameIntact (clip n s) := by
  intro hi
  have h4 := hi.header
  have := List.length_take_le (4 + n) s
  unfold clip at h4
  rw [List.length_take] at h4
  omega

/-- **A frame that is not intact** makes the engine send an ACK, and does nothing
else. -/
theorem endOfFrame_of_rejected {n : Nat} {s : List UInt8} {e : Engine}
    (h : Deframes n ⟨false, s⟩ e) (harmed : e.receiveArmed = true)
    (hbad : ¬ FrameIntact (clip n s)) (a : Activity) :
    ∃ r ack d, r.receiveArmed = true ∧
      endOfFrame a e = (a, { e.withRx r with sendAck := ack, delay := d }) := by
  have hcol : Collects s e.rx := h.collects harmed
  unfold endOfFrame
  by_cases h4 : 4 ≤ s.length
  · have hnot : ¬ Intact e := by
      rw [hcol.intact_iff h4, h.capacity harmed]
      exact hbad
    have hidx : 0 ≤ e.receiveIndex := hcol.index_nonneg.2 h4
    obtain ⟨r, hr, hra, -⟩ := receviedPacket_of_not_intact hnot
    rw [if_pos hidx, hr]
    dsimp only
    rw [Activity.or_none]
    by_cases hack : a.ack = true
    · exact ⟨{ r with receiveIndex := -4 }, true, 0, hra.trans harmed, by rw [if_pos hack]; rfl⟩
    · exact ⟨{ r with receiveIndex := -4 }, true, e.delay, hra.trans harmed,
        by rw [if_neg hack]; rfl⟩
  · have hidx : ¬ 0 ≤ e.receiveIndex := fun h0 => h4 (hcol.index_nonneg.1 h0)
    rw [if_neg hidx]
    exact ⟨{ e.rx with receiveIndex := -4 }, e.sendAck, e.delay, harmed, rfl⟩

/-- The engine that acts on the intact frame `s`, with a receive packet of capacity
`n`: the fields are those of the header, and `receive_index` is the length. -/
structure Arrived (n : Nat) (s : List UInt8) (e : Engine) : Prop where
  header : Ubcsp.header e.receiveHeader = header s
  reliable : e.receivePacket.reliable = headerReliable s
  channel : e.receivePacket.channel = headerChannel s
  index : e.receiveIndex = (headerLength s).toNat
  payload : e.receivePacket.payload.take (headerLength s).toNat = framePayload (clip n s)

/-- **An intact frame** is acted on by `receiveIntact`. -/
theorem endOfFrame_of_intact {n : Nat} {s : List UInt8} {e : Engine}
    (h : Deframes n ⟨false, s⟩ e) (harmed : e.receiveArmed = true)
    (hok : FrameIntact (clip n s)) (a : Activity) :
    Arrived n s (decoded e) ∧
      ∃ d, endOfFrame a e = (a.or (receiveIntact (decoded e)).1,
        { (receiveIntact (decoded e)).2 with delay := d, receiveIndex := -4 }) := by
  have hcol : Collects s e.rx := h.collects harmed
  have h4 : 4 ≤ s.length := by
    by_contra hshort
    exact not_intact_of_short (by omega) hok
  have hint : Intact e := by
    rw [hcol.intact_iff h4, h.capacity harmed]
    exact hok
  have hhead := hcol.header_buffer h4
  have hlen : headerLength e.receiveHeader = headerLength s := congrArg Header.length hhead
  obtain ⟨hidx, -⟩ := (checkPayload_iff e).1 hint.2
  have hindex := checkPayload_index hidx
  rw [hlen] at hidx hindex
  constructor
  · refine ⟨hhead, congrArg Header.reliable hhead, congrArg Header.channel hhead, hindex, ?_⟩
    have hi : e.receiveIndex = (min s.length (4 + e.receivePacket.length.toNat) : Nat) - 4 :=
      hcol.index
    have hclip := hcol.clip_eq h4
    have hhl : e.receiveHeader.length = 4 := hcol.header_length
    rw [h.capacity harmed] at hi hclip
    have hcliplen : headerLength (clip n s) = headerLength s :=
      congrArg Header.length (header_clip n s)
    rw [framePayload, hcliplen, hclip, ← hhl, List.drop_left, List.take_take,
      Nat.min_eq_left (by omega)]
    rfl
  · have hnn : 0 ≤ e.receiveIndex := hcol.index_nonneg.2 h4
    unfold endOfFrame
    rw [if_pos hnn, receviedPacket_of_intact hint]
    dsimp only
    split
    · exact ⟨0, rfl⟩
    · exact ⟨_, rfl⟩

/-! ## What `receiveIntact` does, frame by frame -/

@[simp] theorem receiveAck_receivePacket (e : Engine) :
    (receiveAck e).2.receivePacket = e.receivePacket := congrArg Rx.receivePacket (receiveAck_rx e)

@[simp] theorem receiveAck_receiveIndex (e : Engine) :
    (receiveAck e).2.receiveIndex = e.receiveIndex := congrArg Rx.receiveIndex (receiveAck_rx e)

@[simp] theorem receiveAck_receiveHeader (e : Engine) :
    (receiveAck e).2.receiveHeader = e.receiveHeader := congrArg Rx.receiveHeader (receiveAck_rx e)

@[simp] theorem receiveAck_ackNumber (e : Engine) : (receiveAck e).2.ackNumber = e.ackNumber := by
  rcases receiveAck_cases e with h | ⟨-, -, h⟩ <;> rw [h]

@[simp] theorem receiveAck_state (e : Engine) :
    (receiveAck e).2.linkEstablishmentState = e.linkEstablishmentState := by
  rcases receiveAck_cases e with h | ⟨-, -, h⟩ <;> rw [h]

section
variable {e : Engine}

theorem receiveIntact_le (hch : e.receivePacket.channel = 1) :
    receiveIntact e = receiveLe (receiveAck e).1 (receiveAck e).2 := by
  simp [receiveIntact, hch]

/-- A frame without a payload is an acknowledgement and nothing else. -/
theorem receiveIntact_empty (hch : e.receivePacket.channel ≠ 1) (hi : e.receiveIndex = 0) :
    receiveIntact e = receiveAck e := by
  simp [receiveIntact, hch, hi]

theorem receiveIntact_inactive (hch : e.receivePacket.channel ≠ 1)
    (ha : e.linkEstablishmentState ≠ .active) : receiveIntact e = receiveAck e := by
  simp [receiveIntact, receiveData, hch, ha]

theorem receiveIntact_unreliable (hch : e.receivePacket.channel ≠ 1) (hi : e.receiveIndex ≠ 0)
    (ha : e.linkEstablishmentState = .active) (hr : e.receivePacket.reliable = 0) :
    receiveIntact e = ((receiveAck e).1.or .packetReceived, handOver (receiveAck e).2) := by
  simp [receiveIntact, receiveData, hch, hi, ha, hr]

theorem receiveIntact_new (hch : e.receivePacket.channel ≠ 1) (hi : e.receiveIndex ≠ 0)
    (ha : e.linkEstablishmentState = .active) (hr : e.receivePacket.reliable ≠ 0)
    (hs : headerSeq e.receiveHeader = UInt8.ofNat e.ackNumber) :
    receiveIntact e = ((receiveAck e).1.or .packetReceivedAck,
      handOver { (receiveAck e).2 with sendAck := true, ackNumber := e.ackNumber + 1 }) := by
  simp [receiveIntact, receiveData, hch, hi, ha, hr, hs]

/-- A repeated packet is only acknowledged. -/
theorem receiveIntact_duplicate (hch : e.receivePacket.channel ≠ 1) (hi : e.receiveIndex ≠ 0)
    (ha : e.linkEstablishmentState = .active) (hr : e.receivePacket.reliable ≠ 0)
    (hs : headerSeq e.receiveHeader ≠ UInt8.ofNat e.ackNumber) :
    receiveIntact e = ((receiveAck e).1, { (receiveAck e).2 with sendAck := true }) := by
  simp [receiveIntact, receiveData, hch, hi, ha, hr, hs]

end

end OpenwrtFeed.Ubcsp
