import OpenwrtFeed.UbcspReceive

/-! # Which part of the engine each step writes

The variables of `ubcsp_config` fall into groups: the output side (`Tx`), the
input side (`Rx`), link establishment (`Link`), and the packets and numbers of the
reliable exchange.  This module states once, for every branch of `ubcsp_poll`,
which groups it writes; later modules use these equations and never unfold the
branches again.
-/
namespace OpenwrtFeed.Ubcsp

/-- The output side. -/
structure Tx where
  needSendCrc : Bool
  sendCrc : UInt16
  sendSlipEscape : UInt8
  sendPtr : Option (List UInt8)
  sendSize : Nat
  nextSendPtr : Option (List UInt8)
  nextSendSize : Nat

/-- The input side. -/
structure Rx where
  receiveArmed : Bool
  receivePacket : Packet
  receiveSlipEscape : Bool
  receiveIndex : Int
  receiveHeader : List UInt8
deriving DecidableEq

/-- The link-establishment variables. -/
structure Link where
  state : LinkState
  resp : Nat
  packet : LePacket
deriving DecidableEq

namespace Engine

def tx (e : Engine) : Tx :=
  ⟨e.needSendCrc, e.sendCrc, e.sendSlipEscape, e.sendPtr, e.sendSize, e.nextSendPtr, e.nextSendSize⟩

def withTx (e : Engine) (t : Tx) : Engine :=
  { e with
    needSendCrc := t.needSendCrc
    sendCrc := t.sendCrc
    sendSlipEscape := t.sendSlipEscape
    sendPtr := t.sendPtr
    sendSize := t.sendSize
    nextSendPtr := t.nextSendPtr
    nextSendSize := t.nextSendSize }

def rx (e : Engine) : Rx :=
  ⟨e.receiveArmed, e.receivePacket, e.receiveSlipEscape, e.receiveIndex, e.receiveHeader⟩

def withRx (e : Engine) (r : Rx) : Engine :=
  { e with
    receiveArmed := r.receiveArmed
    receivePacket := r.receivePacket
    receiveSlipEscape := r.receiveSlipEscape
    receiveIndex := r.receiveIndex
    receiveHeader := r.receiveHeader }

def link (e : Engine) : Link :=
  ⟨e.linkEstablishmentState, e.linkEstablishmentResp, e.linkEstablishmentPacket⟩

def withLink (e : Engine) (l : Link) : Engine :=
  { e with
    linkEstablishmentState := l.state
    linkEstablishmentResp := l.resp
    linkEstablishmentPacket := l.packet }

variable (e : Engine) (t : Tx) (r : Rx) (l : Link)

@[simp] theorem tx_withTx : (e.withTx t).tx = t := rfl
@[simp] theorem rx_withTx : (e.withTx t).rx = e.rx := rfl
@[simp] theorem link_withTx : (e.withTx t).link = e.link := rfl
@[simp] theorem rx_withRx : (e.withRx r).rx = r := rfl
@[simp] theorem tx_withRx : (e.withRx r).tx = e.tx := rfl
@[simp] theorem link_withRx : (e.withRx r).link = e.link := rfl
@[simp] theorem link_withLink : (e.withLink l).link = l := rfl
@[simp] theorem tx_withLink : (e.withLink l).tx = e.tx := rfl
@[simp] theorem rx_withLink : (e.withLink l).rx = e.rx := rfl
@[simp] theorem withTx_tx : e.withTx e.tx = e := rfl
@[simp] theorem tx_sendPtr : e.tx.sendPtr = e.sendPtr := rfl
@[simp] theorem tx_sendSize : e.tx.sendSize = e.sendSize := rfl
@[simp] theorem tx_sendSlipEscape : e.tx.sendSlipEscape = e.sendSlipEscape := rfl

end Engine

/-! ## The sending half -/

theorem putOctet_snd (e : Engine) : (putOctet e).2 = e.withTx (putOctet e).2.tx := by
  unfold putOctet putSlipUart
  split
  · rfl
  · dsimp only
    split
    · rfl
    · split <;> rfl

/-- A finished frame clears an unreliable packet and changes nothing else. -/
theorem sentPacket_eq (e : Engine) :
    (sentPacket e = (.none, e) ∧ ∀ p, e.sendPacket = some p → p.reliable ≠ 0) ∨
      (sentPacket e = (.packetSent, { e with sendPacket := none }) ∧
        ∃ p, e.sendPacket = some p ∧ p.reliable = 0) := by
  unfold sentPacket
  cases hp : e.sendPacket with
  | none => exact Or.inl ⟨rfl, by simp⟩
  | some p =>
    by_cases hr : p.reliable = 0
    · exact Or.inr ⟨by simp [hr], p, rfl, hr⟩
    · exact Or.inl ⟨by simp [hr], by rintro q ⟨⟩; exact hr⟩

/-- The end of a block either sets up the next block, or closes the frame. -/
theorem endOfBlock_cases (e : Engine) :
    (∃ t, endOfBlock e = ⟨[], .none, 0, false, e.withTx t⟩) ∨
      (e.nextSendPtr = none ∧ e.needSendCrc = false ∧
        ∃ t, t.sendSize = e.nextSendSize ∧ t.sendSlipEscape = e.sendSlipEscape ∧
          endOfBlock e = ⟨[slipFrame], (sentPacket (e.withTx t)).1, pollTimeDelay, false,
            (sentPacket (e.withTx t)).2⟩) := by
  unfold endOfBlock
  cases hn : e.nextSendPtr with
  | some l =>
    exact Or.inl ⟨⟨e.needSendCrc, e.sendCrc, e.sendSlipEscape, some l, e.nextSendSize, none, 0⟩,
      rfl⟩
  | none =>
    cases hc : e.needSendCrc with
    | true =>
      exact Or.inl ⟨⟨false, crcReverse e.sendCrc, e.sendSlipEscape, some (crcOctets e.sendCrc), 2,
        none, 0⟩, rfl⟩
    | false =>
      exact Or.inr ⟨rfl, rfl,
        ⟨false, e.sendCrc, e.sendSlipEscape, none, e.nextSendSize, none, 0⟩, rfl, rfl,
        by simp only [Engine.withTx]; rfl⟩

/-- One octet of a frame writes the output side only, and when it is the last one
it may clear an unreliable packet. -/
theorem sendOctet_cases (e : Engine) :
    (∃ tx t, sendOctet e = ⟨tx, .none, 0, false, e.withTx t⟩) ∨
      ∃ tx t, sendOctet e = ⟨tx, (sentPacket (e.withTx t)).1, pollTimeDelay, false,
        (sentPacket (e.withTx t)).2⟩ := by
  unfold sendOctet
  dsimp only
  generalize hput : (putOctet e).1 = tx
  rw [putOctet_snd]
  generalize (putOctet e).2.tx = t
  split
  · exact Or.inl ⟨tx, t, rfl⟩
  · split
    · rcases endOfBlock_cases { e.withTx t with sendSize := (e.withTx t).sendSize - 1 } with
        ⟨t', ht⟩ | ⟨-, -, t', -, -, ht⟩
      · exact Or.inl ⟨tx ++ [], t', by rw [ht]; rfl⟩
      · exact Or.inr ⟨tx ++ [slipFrame], t', by rw [ht]; rfl⟩
    · exact Or.inl ⟨tx, { t with sendSize := t.sendSize - 1 }, rfl⟩

/-- One octet of a frame leaves everything but the output side and the packet. -/
theorem sendOctet_engine (e : Engine) :
    ∃ t, (sendOctet e).engine = e.withTx t ∨
      ((sendOctet e).engine = { e.withTx t with sendPacket := none } ∧
        ∃ p, e.sendPacket = some p ∧ p.reliable = 0) := by
  rcases sendOctet_cases e with ⟨tx, t, h⟩ | ⟨tx, t, h⟩
  · exact ⟨t, Or.inl (by rw [h])⟩
  · rcases sentPacket_eq (e.withTx t) with ⟨hs, -⟩ | ⟨hs, hp⟩
    · exact ⟨t, Or.inl (by rw [h, hs])⟩
    · exact ⟨t, Or.inr ⟨by rw [h, hs], hp⟩⟩

/-- What starting a frame writes besides the output side. -/
theorem startFrame_cases (e : Engine) :
    (e.linkEstablishmentResp &&& 2 ≠ 0 ∧
      startFrame e = ⟨[slipFrame], .none, 0, false,
        { setupPacket sendLeHeader (some (lePayload .confResp)) 4 e with
          linkEstablishmentResp := 0 }⟩) ∨
    (e.linkEstablishmentResp &&& 2 = 0 ∧ ∃ p, e.sendPacket = some p ∧
      startFrame e = ⟨[slipFrame], .none, 0, false,
        { setupPacket (dataHeader p e.ackNumber e.sequenceNumber) (some p.payload)
            p.length.toNat e with sendAck := false }⟩) ∨
    (e.linkEstablishmentResp &&& 2 = 0 ∧ e.sendPacket = none ∧ e.sendAck = true ∧
      startFrame e = ⟨[slipFrame], .none, 0, false,
        { setupPacket (ackHeader e.ackNumber) none 0 e with sendAck := false }⟩) ∨
    (e.linkEstablishmentResp &&& 2 = 0 ∧ e.sendPacket = none ∧ e.sendAck = false ∧
      startFrame e = ⟨[], .none, pollTimeDelay, false, e⟩) := by
  unfold startFrame
  by_cases hr : e.linkEstablishmentResp &&& 2 = 0
  · cases hp : e.sendPacket with
    | some p => exact Or.inr (Or.inl ⟨hr, p, rfl, by simp [hr]⟩)
    | none =>
      cases ha : e.sendAck with
      | true => exact Or.inr (Or.inr (Or.inl ⟨hr, rfl, rfl, by simp [hr]⟩))
      | false => exact Or.inr (Or.inr (Or.inr ⟨hr, rfl, rfl, by simp [hr]⟩))
  · exact Or.inl ⟨hr, by simp [hr]⟩

/-- **What the sending half can do**: wait, continue a frame, start a frame, or
start a link-establishment frame. -/
theorem sendHalf_cases (e : Engine) :
    (e.delay ≠ 0 ∧ sendHalf e = ⟨[], .none, 0, false, e⟩) ∨
    (e.delay = 0 ∧ e.sendSize ≠ 0 ∧ sendHalf e = sendOctet e) ∨
    (e.delay = 0 ∧ e.sendSize = 0 ∧ e.linkEstablishmentPacket = .none ∧
      sendHalf e = startFrame e) ∨
    (e.delay = 0 ∧ e.sendSize = 0 ∧ e.linkEstablishmentPacket ≠ .none ∧
      sendHalf e = startLeFrame e) := by
  unfold sendHalf
  by_cases hd : e.delay = 0
  · by_cases hs : e.sendSize = 0
    · by_cases hp : e.linkEstablishmentPacket = .none
      · exact Or.inr (Or.inr (Or.inl ⟨hd, hs, hp, by simp [hd, hs, hp]⟩))
      · exact Or.inr (Or.inr (Or.inr ⟨hd, hs, hp, by simp [hd, hs, hp]⟩))
    · exact Or.inr (Or.inl ⟨hd, hs, by simp [hd, hs]⟩)
  · exact Or.inl ⟨hd, by simp [hd]⟩

@[simp] theorem sendHalf_rx (e : Engine) : (sendHalf e).engine.rx = e.rx := by
  rcases sendHalf_cases e with ⟨-, h⟩ | ⟨-, -, h⟩ | ⟨-, -, -, h⟩ | ⟨-, -, -, h⟩ <;> rw [h]
  · obtain ⟨t, ht | ⟨ht, -⟩⟩ := sendOctet_engine e <;> rw [ht] <;> rfl
  · rcases startFrame_cases e with ⟨-, h⟩ | ⟨-, p, -, h⟩ | ⟨-, -, -, h⟩ | ⟨-, -, -, h⟩ <;>
      rw [h] <;> rfl
  · rfl

/-- Sending writes neither number of the reliable exchange. -/
theorem sendHalf_numbers (e : Engine) :
    (sendHalf e).engine.sequenceNumber = e.sequenceNumber ∧
      (sendHalf e).engine.ackNumber = e.ackNumber := by
  rcases sendHalf_cases e with ⟨-, h⟩ | ⟨-, -, h⟩ | ⟨-, -, -, h⟩ | ⟨-, -, -, h⟩ <;> rw [h]
  · exact ⟨rfl, rfl⟩
  · obtain ⟨t, ht | ⟨ht, -⟩⟩ := sendOctet_engine e <;> rw [ht] <;> exact ⟨rfl, rfl⟩
  · rcases startFrame_cases e with ⟨-, h⟩ | ⟨-, p, -, h⟩ | ⟨-, -, -, h⟩ | ⟨-, -, -, h⟩ <;>
      rw [h] <;> exact ⟨rfl, rfl⟩
  · exact ⟨rfl, rfl⟩

/-- Sending does not write the link-establishment state. -/
theorem sendHalf_state (e : Engine) :
    (sendHalf e).engine.linkEstablishmentState = e.linkEstablishmentState := by
  rcases sendHalf_cases e with ⟨-, h⟩ | ⟨-, -, h⟩ | ⟨-, -, -, h⟩ | ⟨-, -, -, h⟩ <;> rw [h]
  · obtain ⟨t, ht | ⟨ht, -⟩⟩ := sendOctet_engine e <;> rw [ht] <;> rfl
  · rcases startFrame_cases e with
      ⟨-, h⟩ | ⟨-, p, -, h⟩ | ⟨-, -, -, h⟩ | ⟨-, -, -, h⟩ <;> rw [h] <;> rfl
  · rfl

/-- A call returns early only after it has started a link-establishment frame. -/
theorem sendHalf_returned {e : Engine} (h : (sendHalf e).returned = true) :
    (sendHalf e).activity = .none ∧ (sendHalf e).engine.sendSize = 4 ∧
      (sendHalf e).engine.delay = 0 := by
  rcases sendHalf_cases e with
    ⟨-, hs⟩ | ⟨-, -, hs⟩ | ⟨-, -, -, hs⟩ | ⟨-, -, -, hs⟩ <;> rw [hs] at h ⊢
  · nomatch h
  · rcases sendOctet_cases e with ⟨tx, t, hc⟩ | ⟨tx, t, hc⟩ <;> rw [hc] at h <;> nomatch h
  · rcases startFrame_cases e with ⟨-, hc⟩ | ⟨-, p, -, hc⟩ | ⟨-, -, -, hc⟩ | ⟨-, -, -, hc⟩ <;>
      rw [hc] at h <;> nomatch h
  · exact ⟨rfl, rfl, rfl⟩

/-- Two calls in a row do not both return early. -/
theorem sendHalf_returned_next {e : Engine} (h : (sendHalf e).returned = true) :
    (sendHalf (sendHalf e).engine).returned = false := by
  obtain ⟨-, hsize, -⟩ := sendHalf_returned h
  cases hagain : (sendHalf (sendHalf e).engine).returned with
  | false => rfl
  | true =>
    rcases sendHalf_cases (sendHalf e).engine with ⟨-, hs⟩ | ⟨-, -, hs⟩ | ⟨-, h0, -⟩ | ⟨-, h0, -⟩
    · exact absurd (hs ▸ hagain) (by simp)
    · rcases sendOctet_cases (sendHalf e).engine with ⟨tx, t, hcall⟩ | ⟨tx, t, hcall⟩ <;>
        exact absurd (hcall ▸ hs ▸ hagain) (by simp)
    · exact absurd (hsize.symm.trans h0) (by decide)
    · exact absurd (hsize.symm.trans h0) (by decide)

/-! ## The receiving half -/

/-- An octet that is stored writes the input side only. -/
theorem storeOctet_eq (value : UInt8) (e : Engine) :
    storeOctet value e = e.withRx (storeOctet value e).rx := by
  unfold storeOctet
  split
  · rfl
  · split <;> rfl

/-- The payload checks write `receive_index` only. -/
theorem checkPayload_snd (e : Engine) :
    (checkPayload e).2 = { e with receiveIndex := (checkPayload e).2.receiveIndex } := by
  unfold checkPayload
  dsimp only
  split
  · split <;> rfl
  · rfl

/-- What an acknowledgement does: nothing, or the reliable packet is done. -/
theorem receiveAck_cases (e : Engine) :
    receiveAck e = (.none, e) ∨
      (headerAck e.receiveHeader ≠ UInt8.ofNat e.sequenceNumber ∧
        (∃ p, e.sendPacket = some p ∧ p.reliable ≠ 0) ∧
        receiveAck e = (.packetSent,
          { e with sendPacket := none, sequenceNumber := e.sequenceNumber + 1, delay := 0 })) := by
  unfold receiveAck
  split
  · rename_i hack
    split
    · rename_i p hp
      split
      · exact Or.inr ⟨hack, ⟨p, hp, ‹_›⟩, rfl⟩
      · exact Or.inl rfl
    · exact Or.inl rfl
  · exact Or.inl rfl

theorem receiveAck_rx (e : Engine) : (receiveAck e).2.rx = e.rx := by
  rcases receiveAck_cases e with h | ⟨-, -, h⟩
  all_goals exact congrArg (fun s => s.2.rx) h

/-- The payload is looked at up to its fourth octet. -/
theorem whichLePayload_congr {p p' : List UInt8} (h : p.take 4 = p'.take 4) :
    whichLePayload p = whichLePayload p' := by
  have hget : ∀ i < 4, p.getD i 0 = p'.getD i 0 := by
    intro i hi
    rw [List.getD_eq_getElem?_getD, List.getD_eq_getElem?_getD, ← List.getElem?_take_of_lt hi, h,
      List.getElem?_take_of_lt hi]
  have hrow : ∀ row : List UInt8,
      ((List.range 4).all fun i => p.getD i 0 == row.getD i 0) =
        (List.range 4).all fun i => p'.getD i 0 == row.getD i 0 := by
    intro row
    have h4 : List.range 4 = [0, 1, 2, 3] := rfl
    rw [h4]
    simp only [List.all_cons, List.all_nil, hget 0 (by decide), hget 1 (by decide),
      hget 2 (by decide), hget 3 (by decide)]
  unfold whichLePayload
  simp only [hrow]

/-- What a link-establishment packet can do: write the link, abandon the frame being
sent as well, or start the engine again. -/
theorem receiveLe_cases (a : Activity) (e : Engine) :
    (∃ l, (receiveLe a e).2 = { e.withLink l with delay := 0 }) ∨
      (∃ l, (receiveLe a e).2 = { e.withLink l with delay := 0, sendSize := 0 }) ∨
      (receiveLe a e).2 = ubcspInitialize { e with delay := 0 } := by
  unfold receiveLe
  dsimp only
  -- the four messages, each with its condition on the state, and any other payload
  split
  · split
    · exact Or.inl ⟨{ e.link with resp := 1 }, rfl⟩
    · exact Or.inr (Or.inr rfl)
  · split
    · exact Or.inl ⟨{ e.link with state := .initialized }, rfl⟩
    · exact Or.inl ⟨e.link, rfl⟩
  · split
    · exact Or.inl ⟨{ e.link with resp := 2 }, rfl⟩
    · exact Or.inl ⟨e.link, rfl⟩
  · split
    · exact Or.inr (Or.inl ⟨{ e.link with state := .active }, rfl⟩)
    · exact Or.inl ⟨e.link, rfl⟩
  · exact Or.inl ⟨e.link, rfl⟩

/-- What any other packet can do: nothing, ask for an ACK, or be handed over. -/
theorem receiveData_cases (a : Activity) (e : Engine) :
    (receiveData a e).2 = e ∨ (receiveData a e).2 = { e with sendAck := true } ∨
      (receiveData a e).2 = handOver e ∨
      (receiveData a e).2 = handOver { e with sendAck := true, ackNumber := e.ackNumber + 1 } := by
  unfold receiveData
  split
  · split
    · dsimp only
      split
      · exact Or.inr (Or.inr (Or.inr rfl))
      · exact Or.inr (Or.inl rfl)
    · exact Or.inr (Or.inr (Or.inl rfl))
  · exact Or.inl rfl

/-- What is done with an intact frame, up to its acknowledgement. -/
theorem receiveIntact_cases (e : Engine) :
    (receiveIntact e).2 = (receiveLe (receiveAck e).1 (receiveAck e).2).2 ∨
      (receiveIntact e).2 = (receiveData (receiveAck e).1 (receiveAck e).2).2 ∨
      (receiveIntact e).2 = (receiveAck e).2 := by
  unfold receiveIntact
  dsimp only
  split
  · exact Or.inl rfl
  · split
    · exact Or.inr (Or.inl rfl)
    · exact Or.inr (Or.inr rfl)

/-- The last two writes at the end of a frame. -/
theorem endOfFrame_eq (a : Activity) {e : Engine} (hi : 0 ≤ e.receiveIndex) :
    ∃ d, (endOfFrame a e).2 = { (receviedPacket e).2 with delay := d, receiveIndex := -4 } := by
  unfold endOfFrame
  rw [if_pos hi]
  dsimp only
  split
  · exact ⟨0, rfl⟩
  · exact ⟨(receviedPacket e).2.delay, rfl⟩

/-- The checks do not look at the fields they have just decoded. -/
theorem checkPayload_decoded (e : Engine) (reliable channel : UInt8) :
    checkPayload { e with
        receivePacket := { e.receivePacket with reliable := reliable, channel := channel } } =
      ((checkPayload e).1, { (checkPayload e).2 with
        receivePacket := { e.receivePacket with reliable := reliable, channel := channel } }) := by
  unfold checkPayload
  dsimp only
  split
  · split <;> rfl
  · rfl

/-- The frame in progress passes every check. -/
def Intact (e : Engine) : Prop :=
  headerSum e.receiveHeader = 0xff ∧ (checkPayload e).1 = true

instance (e : Engine) : Decidable (Intact e) := inferInstanceAs (Decidable (_ ∧ _))

/-- The engine once the header has been decoded and the checks have run. -/
def decoded (e : Engine) : Engine :=
  e.withRx {
    receiveArmed := e.receiveArmed
    receivePacket := { e.receivePacket with
      reliable := headerReliable e.receiveHeader
      channel := headerChannel e.receiveHeader }
    receiveSlipEscape := e.receiveSlipEscape
    receiveIndex := (checkPayload e).2.receiveIndex
    receiveHeader := e.receiveHeader }

@[simp] theorem decoded_receiveHeader (e : Engine) : (decoded e).receiveHeader = e.receiveHeader :=
  rfl
@[simp] theorem decoded_receivePacket (e : Engine) :
    (decoded e).receivePacket = { e.receivePacket with
      reliable := headerReliable e.receiveHeader, channel := headerChannel e.receiveHeader } := rfl
@[simp] theorem decoded_receiveIndex (e : Engine) :
    (decoded e).receiveIndex = (checkPayload e).2.receiveIndex := rfl
@[simp] theorem decoded_link (e : Engine) : (decoded e).link = e.link := rfl
@[simp] theorem decoded_tx (e : Engine) : (decoded e).tx = e.tx := rfl
@[simp] theorem decoded_sendPacket (e : Engine) : (decoded e).sendPacket = e.sendPacket := rfl
@[simp] theorem decoded_sequenceNumber (e : Engine) :
    (decoded e).sequenceNumber = e.sequenceNumber := rfl
@[simp] theorem decoded_ackNumber (e : Engine) : (decoded e).ackNumber = e.ackNumber := rfl
@[simp] theorem decoded_linkEstablishmentState (e : Engine) :
    (decoded e).linkEstablishmentState = e.linkEstablishmentState := rfl

/-- **What happens at the end of a frame**: an intact one is acted on, any other only
asks for an ACK. -/
theorem receviedPacket_of_intact {e : Engine} (h : Intact e) :
    receviedPacket e = receiveIntact (decoded e) := by
  obtain ⟨hsum, hc⟩ := h
  simp only [receviedPacket, hsum, ne_eq, not_true_eq_false, if_false, checkPayload_decoded, hc,
    if_true]
  rw [checkPayload_snd]
  rfl

theorem receviedPacket_of_not_intact {e : Engine} (h : ¬ Intact e) :
    ∃ r, receviedPacket e = (.none, { e.withRx r with sendAck := true }) ∧
      r.receiveArmed = e.receiveArmed ∧ r.receivePacket.length = e.receivePacket.length ∧
      r.receivePacket.payload = e.receivePacket.payload ∧
      r.receiveSlipEscape = e.receiveSlipEscape ∧ r.receiveHeader = e.receiveHeader := by
  by_cases hsum : headerSum e.receiveHeader = 0xff
  · have hc : (checkPayload e).1 = false := by
      cases hc : (checkPayload e).1 with
      | false => rfl
      | true => exact absurd ⟨hsum, hc⟩ h
    refine ⟨(decoded e).rx, ?_, rfl, rfl, rfl, rfl, rfl⟩
    simp only [receviedPacket, hsum, ne_eq, not_true_eq_false, if_false, checkPayload_decoded, hc,
      Bool.false_eq_true]
    rw [checkPayload_snd]
    rfl
  · refine ⟨e.rx, ?_, rfl, rfl, rfl, rfl, rfl⟩
    unfold receviedPacket
    rw [if_pos hsum]
    rfl

/-! ## One received octet -/

/-- The octet `value` ends an intact frame. -/
def EndsFrame (e : Engine) (value : UInt8) : Prop :=
  e.receiveSlipEscape = false ∧ value = slipFrame ∧ 0 ≤ e.receiveIndex ∧ Intact e

instance (e : Engine) (value : UInt8) : Decidable (EndsFrame e value) :=
  inferInstanceAs (Decidable (_ ∧ _))

/-- **What one received octet can do**: it ends an intact frame, which is acted on, or it
writes the input side only, up to a request for an ACK. -/
theorem receiveOctet_cases (stray : UInt8 → UInt8) (value : UInt8) (a : Activity) (e : Engine) :
    (EndsFrame e value ∧ (receiveOctet stray value a e).1 = a.or (receiveIntact (decoded e)).1 ∧
        ∃ d, (receiveOctet stray value a e).2 =
          { (receiveIntact (decoded e)).2 with delay := d, receiveIndex := -4 }) ∨
      (¬ EndsFrame e value ∧ (receiveOctet stray value a e).1 = a ∧
        ∃ r ack d, (receiveOctet stray value a e).2 =
          { e.withRx r with sendAck := ack, delay := d }) := by
  unfold receiveOctet
  by_cases hesc : e.receiveSlipEscape = true
  · right
    rw [if_pos hesc]
    refine ⟨fun h => by simp [h.1] at hesc, rfl, ?_⟩
    exact ⟨(storeOctet (deslip stray value) { e with receiveSlipEscape := false }).rx, e.sendAck,
      e.delay, by rw [storeOctet_eq]; rfl⟩
  · have hesc' : e.receiveSlipEscape = false := by simpa using hesc
    rw [if_neg hesc]
    by_cases hv : value = slipFrame
    · rw [if_pos hv]
      by_cases hi : 0 ≤ e.receiveIndex
      · unfold endOfFrame
        rw [if_pos hi]
        by_cases hok : Intact e
        · left
          rw [receviedPacket_of_intact hok]
          refine ⟨⟨hesc', hv, hi, hok⟩, rfl, ?_⟩
          dsimp only
          split
          · exact ⟨0, rfl⟩
          · exact ⟨_, rfl⟩
        · right
          obtain ⟨r, hr, -⟩ := receviedPacket_of_not_intact hok
          rw [hr]
          refine ⟨fun h => hok h.2.2.2, by simp, ?_⟩
          dsimp only
          split
          · exact ⟨{ r with receiveIndex := -4 }, true, 0, rfl⟩
          · exact ⟨{ r with receiveIndex := -4 }, true, e.delay, rfl⟩
      · right
        unfold endOfFrame
        rw [if_neg hi]
        exact ⟨fun h => hi h.2.2.1, rfl, { e.rx with receiveIndex := -4 }, e.sendAck, e.delay, rfl⟩
    · right
      rw [if_neg hv]
      refine ⟨fun h => hv h.2.1, ?_⟩
      split
      · exact ⟨rfl, { e.rx with receiveSlipEscape := true }, e.sendAck, e.delay, rfl⟩
      · exact ⟨rfl, (storeOctet value e).rx, e.sendAck, e.delay, by rw [storeOctet_eq]; rfl⟩

end OpenwrtFeed.Ubcsp
