import OpenwrtFeed.FrameReception

/-! # What the engine still has to send

While a frame is under way, the blocks set up, the running CRC and the pending
half of an escape determine the rest of the frame (`Tx.pendingWire`).  Each call
of `ubcsp_poll` that sends puts the beginning of it on the UART, and the frame
ends when all of it has been sent (`sendOctet_pending`).

A frame may be started while the second half of an escape of an abandoned frame
is still pending.  It then goes out damaged: that octet takes the place of one
header octet (`pendingWire_setupPacket`).
-/
namespace OpenwrtFeed.Ubcsp

/-- Octet stuffing on the UART, the same whatever a stray escape is read as. -/
abbrev slipStuff (xs : List UInt8) : List UInt8 := (ubcspSlip id).stuff xs

namespace Tx
variable (t : Tx)

/-- The second half of an escape holds the block counter back by one. -/
def held : Nat := if t.sendSlipEscape ≠ 0 then 1 else 0

/-- The octets of the current block and of the one after it. -/
def pendingBlocks : List UInt8 :=
  (t.sendPtr.getD []).take (t.sendSize - t.held) ++ (t.nextSendPtr.getD []).take t.nextSendSize

/-- The rest of the frame, with its CRC. -/
def pendingOctets : List UInt8 :=
  if t.needSendCrc then t.pendingBlocks ++ crcOctets (crcFold t.sendCrc t.pendingBlocks)
  else t.pendingBlocks

/-- The rest of the frame on the line, with the closing delimiter. -/
def pendingWire : List UInt8 :=
  (if t.sendSlipEscape ≠ 0 then [t.sendSlipEscape] else []) ++
    slipStuff t.pendingOctets ++ [slipFrame]

/-- The blocks hold as many octets as their counters say, and a payload is followed
by a CRC. -/
structure Framed : Prop where
  escape : t.sendSlipEscape = 0 ∨ t.sendSlipEscape = slipEscapeFrame ∨
    t.sendSlipEscape = slipEscapeEscape
  block : t.sendSize - t.held ≤ (t.sendPtr.getD []).length
  noNext : t.nextSendPtr = none → t.nextSendSize = 0
  next : ∀ l, t.nextSendPtr = some l →
    0 < t.nextSendSize ∧ t.nextSendSize ≤ l.length ∧ t.needSendCrc = true

theorem held_of_escape {t : Tx} (h : t.sendSlipEscape ≠ 0) : t.held = 1 := if_pos h

theorem held_of_no_escape {t : Tx} (h : t.sendSlipEscape = 0) : t.held = 0 := by simp [held, h]

/-- The delimiter occurs at the end only. -/
theorem pendingWire_eq {t : Tx} (h : t.Framed) :
    ∃ w, t.pendingWire = w ++ [slipFrame] ∧ slipFrame ∉ w := by
  refine ⟨_, rfl, ?_⟩
  have hstuff : slipFrame ∉ slipStuff t.pendingOctets := (ubcspSlip id).frame_notMem_stuff _
  have hesc : slipFrame ∉ (if t.sendSlipEscape ≠ 0 then [t.sendSlipEscape] else []) := by
    rcases h.escape with he | he | he <;> rw [he] <;> decide
  simpa using ⟨by simpa using hesc, hstuff⟩

end Tx

/-! ## One octet -/

namespace Tx

/-- Without a pending half of an escape, the line is the stuffing of what is left. -/
theorem pendingWire_of_no_escape {t : Tx} (h : t.sendSlipEscape = 0) :
    t.pendingWire = slipStuff t.pendingOctets ++ [slipFrame] := by
  simp [pendingWire, h]

theorem pendingWire_of_escape {t : Tx} (h : t.sendSlipEscape ≠ 0) :
    t.pendingWire = t.sendSlipEscape :: (slipStuff t.pendingOctets ++ [slipFrame]) := by
  simp [pendingWire, h]

/-- The state after the next octet `value` of the block, with `rest` behind it, has
been taken. -/
def taken (t : Tx) (value : UInt8) (rest : List UInt8) : Tx :=
  { t with sendPtr := some rest, sendCrc := calcCrc value t.sendCrc, sendSize := t.sendSize - 1 }

/-- Taking an octet takes it off the rest of the frame, and runs it through the
CRC. -/
theorem pendingOctets_taken {t : Tx} (he : t.sendSlipEscape = 0) (hs : t.sendSize ≠ 0)
    {value : UInt8} {rest : List UInt8} (hptr : t.sendPtr.getD [] = value :: rest) :
    t.pendingOctets = value :: (t.taken value rest).pendingOctets := by
  obtain ⟨n, hn⟩ : ∃ n, t.sendSize = n + 1 := ⟨t.sendSize - 1, by omega⟩
  have hblocks : t.pendingBlocks = value :: (t.taken value rest).pendingBlocks := by
    simp [pendingBlocks, taken, held, he, hn, hptr]
  have hcrc : (t.taken value rest).needSendCrc = t.needSendCrc := rfl
  unfold pendingOctets
  rw [hblocks, hcrc]
  cases t.needSendCrc with
  | true => simp [taken]
  | false => simp

/-- A pending half of an escape holds the counter back: without it the counter would
be one lower. -/
theorem pendingOctets_held (t : Tx) (c : UInt8) (hc : c ≠ 0) (n : Nat) :
    pendingOctets { t with sendSlipEscape := c, sendSize := n + 1 } =
      pendingOctets { t with sendSlipEscape := 0, sendSize := n } := by
  simp [pendingOctets, pendingBlocks, held, hc]

theorem Framed.taken {t : Tx} (h : t.Framed) (he : t.sendSlipEscape = 0) {value : UInt8}
    {rest : List UInt8} (hptr : t.sendPtr.getD [] = value :: rest) :
    (t.taken value rest).Framed := by
  refine ⟨h.escape, ?_, h.noNext, h.next⟩
  have hblock := h.block
  rw [held_of_no_escape he, hptr, List.length_cons] at hblock
  show t.sendSize - 1 - t.held ≤ rest.length
  omega

end Tx

/-- What one call puts on the UART: the pending half of an escape, or the stuffing of
the next octet, of which a second half stays pending. -/
theorem putOctet_cases (e : Engine) {value : UInt8} {rest : List UInt8}
    (hptr : e.sendSlipEscape = 0 → e.sendPtr.getD [] = value :: rest) :
    (e.sendSlipEscape ≠ 0 ∧
        putOctet e = ([e.sendSlipEscape], e.withTx { e.tx with sendSlipEscape := 0 })) ∨
      (e.sendSlipEscape = 0 ∧ (∃ c, (c = slipEscapeFrame ∨ c = slipEscapeEscape) ∧
        (ubcspSlip id).stuffOctet value = [slipEscape, c] ∧
        putOctet e = ([slipEscape], e.withTx { e.tx.taken value rest with
          sendSlipEscape := c, sendSize := e.sendSize }))) ∨
      (e.sendSlipEscape = 0 ∧ (ubcspSlip id).stuffOctet value = [value] ∧
        putOctet e = ([value], e.withTx { e.tx.taken value rest with
          sendSize := e.sendSize })) := by
  by_cases he : e.sendSlipEscape = 0
  · right
    have hput : putOctet e = putSlipUart value
        { e with sendPtr := some rest, sendCrc := calcCrc value e.sendCrc } := by
      simp [putOctet, he, hptr he]
    rw [hput]
    unfold putSlipUart
    by_cases hf : value = slipFrame
    · exact Or.inl ⟨he, slipEscapeFrame, Or.inl rfl, by rw [hf]; rfl, by rw [if_pos hf]; rfl⟩
    · by_cases hesc : value = slipEscape
      · exact Or.inl ⟨he, slipEscapeEscape, Or.inr rfl, by rw [hesc]; rfl,
          by rw [if_neg hf, if_pos hesc]; rfl⟩
      · exact Or.inr ⟨he, (ubcspSlip id).stuffOctet_of_ne hf hesc,
          by rw [if_neg hf, if_neg hesc]; rfl⟩
  · exact Or.inl ⟨he, by simp only [putOctet, ne_eq, he, not_false_eq_true, if_true]; rfl⟩

/-- **One octet of the block goes out.**  The first half of an escape leaves the
counter as it is; any other octet leaves a block that is one octet shorter. -/
theorem putOctet_pending {e : Engine} (h : e.tx.Framed) (hs : e.sendSize ≠ 0) :
    ∃ t, (putOctet e).2 = e.withTx t ∧
      ((t.sendSlipEscape ≠ 0 ∧ slipEscape ∈ (putOctet e).1 ∧ t.sendSize ≠ 0 ∧ t.Framed ∧
          (putOctet e).1 ++ t.pendingWire = e.tx.pendingWire) ∨
        (t.sendSlipEscape = 0 ∧ t.sendSize ≠ 0 ∧ Tx.Framed { t with sendSize := t.sendSize - 1 } ∧
          (putOctet e).1 ++ Tx.pendingWire { t with sendSize := t.sendSize - 1 } =
            e.tx.pendingWire)) := by
  obtain ⟨n, hn⟩ : ∃ n, e.sendSize = n + 1 := ⟨e.sendSize - 1, by omega⟩
  obtain ⟨value, rest, hptr⟩ : ∃ value rest,
      e.sendSlipEscape = 0 → e.sendPtr.getD [] = value :: rest := by
    cases hp : e.sendPtr.getD [] with
    | nil =>
      refine ⟨0, [], ?_⟩
      intro he
      have hle : e.sendSize - e.tx.held ≤ (e.sendPtr.getD []).length := h.block
      rw [Tx.held_of_no_escape he, hp, List.length_nil] at hle
      omega
    | cons value rest => exact ⟨value, rest, fun _ => rfl⟩
  -- the rest of the frame, when the block has a next octet
  have hwire : e.sendSlipEscape = 0 → e.tx.pendingWire =
      (ubcspSlip id).stuffOctet value ++
        (slipStuff (e.tx.taken value rest).pendingOctets ++ [slipFrame]) := by
    intro he
    rw [Tx.pendingWire_of_no_escape he, Tx.pendingOctets_taken he hs (hptr he), slipStuff,
      SlipCode.stuff_cons, List.append_assoc]
  rcases putOctet_cases e hptr with ⟨he, hput⟩ | ⟨he, c, hc, hstuff, hput⟩ | ⟨he, hstuff, hput⟩
  · refine ⟨_, by rw [hput], Or.inr ⟨rfl, hs, ?_, ?_⟩⟩
    · refine ⟨Or.inl rfl, ?_, h.noNext, h.next⟩
      have hblock : e.sendSize - e.tx.held ≤ (e.sendPtr.getD []).length := h.block
      rw [Tx.held_of_escape he] at hblock
      simpa [Tx.held] using hblock
    · have hheld := Tx.pendingOctets_held e.tx e.sendSlipEscape he n
      have hsize : e.sendSize - 1 = n := by omega
      have hold : e.tx.pendingWire = e.sendSlipEscape ::
          (slipStuff e.tx.pendingOctets ++ [slipFrame]) := Tx.pendingWire_of_escape he
      rw [hput, hold, Tx.pendingWire_of_no_escape rfl]
      dsimp only
      rw [Engine.tx_sendSize, hsize, ← hheld, ← hn]
      rfl
  · have hc0 : c ≠ 0 := by rcases hc with rfl | rfl <;> decide
    have htaken := h.taken he (hptr he)
    refine ⟨_, by rw [hput],
      Or.inl ⟨hc0, by rw [hput]; exact List.mem_singleton_self _, hs, ?_, ?_⟩⟩
    · refine ⟨Or.inr hc, ?_, h.noNext, h.next⟩
      have hblock := htaken.block
      rw [Tx.held_of_no_escape he] at hblock
      simpa [Tx.held, hc0, Tx.taken] using hblock
    · rw [hput, hwire he, hstuff, Tx.pendingWire_of_escape hc0]
      dsimp only
      rw [hn, Tx.pendingOctets_held _ c hc0 n]
      have hsame : (e.tx.taken value rest) =
          { e.tx.taken value rest with sendSlipEscape := 0, sendSize := n } := by
        simp [Tx.taken, Engine.tx, he, hn]
      rw [← hsame]
      rfl
  · have htaken := h.taken he (hptr he)
    refine ⟨_, by rw [hput], Or.inr ⟨he, hs, htaken, ?_⟩⟩
    rw [hput, hwire he, hstuff]
    have hesc : (e.tx.taken value rest).sendSlipEscape = 0 := he
    exact congrArg (value :: ·) (Tx.pendingWire_of_no_escape hesc)

/-! ## The end of a block, and a whole call -/

/-- At the end of a block the next one takes its place, then the CRC; after the CRC
the frame is closed. -/
theorem endOfBlock_pending {e : Engine} (h : e.tx.Framed) (hs : e.sendSize = 0)
    (he : e.sendSlipEscape = 0) :
    (∃ t, endOfBlock e = ⟨[], .none, 0, false, e.withTx t⟩ ∧ t.Framed ∧ t.sendSize ≠ 0 ∧
        t.sendSlipEscape = 0 ∧ t.pendingWire = e.tx.pendingWire) ∨
      ∃ t, endOfBlock e = ⟨[slipFrame], (sentPacket (e.withTx t)).1, pollTimeDelay, false,
          (sentPacket (e.withTx t)).2⟩ ∧
        t.Framed ∧ t.sendSize = 0 ∧ t.sendSlipEscape = 0 ∧ [slipFrame] = e.tx.pendingWire := by
  have hheld : e.tx.held = 0 := Tx.held_of_no_escape he
  cases hn : e.nextSendPtr with
  | some l =>
    obtain ⟨hpos, hle, hcrc⟩ := h.next l hn
    refine Or.inl ⟨⟨e.needSendCrc, e.sendCrc, 0, some l, e.nextSendSize, none, 0⟩, ?_, ?_,
      ?_, rfl, ?_⟩
    · simp only [endOfBlock, hn, Engine.withTx, he]
    · exact ⟨Or.inl rfl, hle, fun _ => rfl, fun _ hl => by cases hl⟩
    · exact Nat.pos_iff_ne_zero.1 hpos
    · rw [Tx.pendingWire_of_no_escape rfl, Tx.pendingWire_of_no_escape he]
      simp [Tx.pendingOctets, Tx.pendingBlocks, Tx.held, Engine.tx, hs, hn]
  | none =>
    have hns : e.nextSendSize = 0 := h.noNext hn
    cases hc : e.needSendCrc with
    | true =>
      refine Or.inl ⟨⟨false, crcReverse e.sendCrc, 0, some (crcOctets e.sendCrc), 2, none, 0⟩,
        ?_, ?_, ?_, rfl, ?_⟩
      · simp only [endOfBlock, hn, hc, Engine.withTx, he, if_true]
      · exact ⟨Or.inl rfl, Nat.le_refl 2, fun _ => rfl, fun _ hl => by cases hl⟩
      · exact Nat.succ_ne_zero 1
      · rw [Tx.pendingWire_of_no_escape rfl, Tx.pendingWire_of_no_escape he]
        simp [Tx.pendingOctets, Tx.pendingBlocks, Tx.held, Engine.tx, hs, hn, hc, crcOctets]
    | false =>
      refine Or.inr ⟨⟨false, e.sendCrc, 0, none, 0, none, 0⟩, ?_, ?_, rfl, rfl, ?_⟩
      · simp [endOfBlock, hn, hc, Engine.withTx, he, hns]
      · exact ⟨Or.inl rfl, Nat.zero_le _, fun _ => rfl, fun _ hl => by cases hl⟩
      · rw [Tx.pendingWire_of_no_escape he]
        simp [Tx.pendingOctets, Tx.pendingBlocks, Engine.tx, hs, hn, hc]

theorem putOctet_ne_nil (e : Engine) : (putOctet e).1 ≠ [] := by
  unfold putOctet putSlipUart
  split
  · exact List.cons_ne_nil _ _
  · dsimp only
    split
    · exact List.cons_ne_nil _ _
    · split <;> exact List.cons_ne_nil _ _

/-- A call that continues a frame, after its octet has been put on the UART. -/
theorem sendOctet_eq {e : Engine} {t : Tx} (hput : (putOctet e).2 = e.withTx t) :
    sendOctet e =
      if t.sendSlipEscape ≠ 0 then ⟨(putOctet e).1, .none, 0, false, e.withTx t⟩
      else if t.sendSize - 1 = 0 then
        { endOfBlock (e.withTx { t with sendSize := t.sendSize - 1 }) with
          tx := (putOctet e).1 ++ (endOfBlock (e.withTx { t with sendSize := t.sendSize - 1 })).tx }
      else ⟨(putOctet e).1, .none, 0, false, e.withTx { t with sendSize := t.sendSize - 1 }⟩ := by
  unfold sendOctet
  dsimp only
  rw [hput]
  rfl

/-- **A call that continues a frame** puts the beginning of the rest of the frame on
the UART, or all of it. -/
theorem sendOctet_pending {e : Engine} (h : e.tx.Framed) (hs : e.sendSize ≠ 0) :
    (∃ w t, sendOctet e = ⟨w, .none, 0, false, e.withTx t⟩ ∧ t.Framed ∧ t.sendSize ≠ 0 ∧
        (t.sendSlipEscape = 0 ∨ slipEscape ∈ w) ∧ w ≠ [] ∧ w ++ t.pendingWire = e.tx.pendingWire) ∨
      ∃ w t, sendOctet e = ⟨w ++ [slipFrame], (sentPacket (e.withTx t)).1, pollTimeDelay, false,
          (sentPacket (e.withTx t)).2⟩ ∧
        t.Framed ∧ t.sendSize = 0 ∧ t.sendSlipEscape = 0 ∧
        w ++ [slipFrame] = e.tx.pendingWire := by
  obtain ⟨t, hput, ⟨he, hmem, hs', hf, hw⟩ | ⟨he, hs', hf, hw⟩⟩ := putOctet_pending h hs
  · refine Or.inl ⟨(putOctet e).1, t, ?_, hf, hs', Or.inr hmem, putOctet_ne_nil e, hw⟩
    rw [sendOctet_eq hput, if_pos he]
  · rw [sendOctet_eq hput, if_neg fun hne => hne he]
    by_cases hlast : t.sendSize - 1 = 0
    · rw [if_pos hlast]
      rcases endOfBlock_pending (e := e.withTx { t with sendSize := t.sendSize - 1 }) hf
        hlast he with
        ⟨t', hend, hf', hs'', he', hw'⟩ | ⟨t', hend, hf', hs'', he', hw'⟩
      · refine Or.inl ⟨(putOctet e).1, t', ?_, hf', hs'', Or.inl he', putOctet_ne_nil e, ?_⟩
        · rw [hend, List.append_nil]
          rfl
        · rw [hw']
          exact hw
      · refine Or.inr ⟨(putOctet e).1, t', ?_, hf', hs'', he', ?_⟩
        · rw [hend]
          rfl
        · rw [hw']
          exact hw
    · rw [if_neg hlast]
      exact Or.inl ⟨(putOctet e).1, _, rfl, hf, hlast, Or.inl he, putOctet_ne_nil e, hw⟩

/-! ## The start of a frame -/

/-- A frame is set up from a header and, unless it is a header alone, a payload. -/
theorem framed_setupPacket {e : Engine}
    (hesc : e.sendSlipEscape = 0 ∨ e.sendSlipEscape = slipEscapeFrame ∨
      e.sendSlipEscape = slipEscapeEscape)
    {head : List UInt8} (h4 : head.length = 4)
    {body : Option (List UInt8)} {n : Nat} (hnone : body = none → n = 0)
    (hsome : ∀ l, body = some l → 0 < n ∧ n ≤ l.length) :
    (setupPacket head body n e).tx.Framed := by
  refine ⟨hesc, ?_, hnone, fun l hl => ⟨(hsome l hl).1, (hsome l hl).2, rfl⟩⟩
  show 4 - Tx.held _ ≤ head.length
  omega

/-- **The rest of a frame that has just been started.**  With no escape pending it is
the whole sealed frame.  A pending half of an escape goes first, and the last
octet of the header is lost. -/
theorem pendingWire_setupPacket (e : Engine) {head : List UInt8} (h4 : head.length = 4)
    {body : Option (List UInt8)} {n : Nat} (hn : n = (body.getD []).length) :
    (setupPacket head body n e).tx.pendingWire =
      if e.sendSlipEscape = 0 then slipStuff (sealedFrame head (body.getD [])) ++ [slipFrame]
      else e.sendSlipEscape ::
        (slipStuff (sealedFrame (head.take 3) (body.getD [])) ++ [slipFrame]) := by
  have hbody : (body.getD []).take n = body.getD [] := List.take_of_length_le (by omega)
  by_cases he : e.sendSlipEscape = 0
  · have hhead : head.take 4 = head := List.take_of_length_le (by omega)
    rw [if_pos he, Tx.pendingWire_of_no_escape he]
    simp [Tx.pendingOctets, Tx.pendingBlocks, Tx.held, Engine.tx, setupPacket, he, hbody, hhead,
      sealedFrame]
  · rw [if_neg he, Tx.pendingWire_of_escape he]
    simp [Tx.pendingOctets, Tx.pendingBlocks, Tx.held, Engine.tx, setupPacket, he, hbody,
      sealedFrame]

end OpenwrtFeed.Ubcsp
