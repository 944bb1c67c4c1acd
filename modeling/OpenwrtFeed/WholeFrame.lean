import OpenwrtFeed.WireRoundTrip
import OpenwrtFeed.PlainFrames

/-! # Whether a packet goes out as one whole frame

When `ubcsp_poll` starts to send the packet of the upper layer and nothing is received,
the following calls should put its frame on the UART and close it.  Two states spoil it:

* half an escape of an abandoned frame may still be pending.  It goes out first, holds
  the block counter back, and the header loses its last octet;
* an empty payload is a block of no octets.  The pointer to it is not null, so that
  neither the CRC nor the closing delimiter follows, and the next call starts the
  frame again.

In every other reachable state the frame is whole (`emitsFrame_iff`).
-/
namespace OpenwrtFeed.Ubcsp

/-- A call starts to send the packet `p` of the upper layer. -/
structure StartsPacket (e : Engine) (p : Packet) : Prop where
  waited : e.delay = 0
  idle : e.sendSize = 0
  established : e.linkEstablishmentPacket = .none
  noResp : e.linkEstablishmentResp &&& 2 = 0
  packet : e.sendPacket = some p

/-- As long as nothing is received, the calls from `e` on put the frame of `p` on the UART,
and nothing else, until it is closed. -/
def EmitsFrame (stray : UInt8 → UInt8) (p : Packet) (e : Engine) : Prop :=
  ∃ n, (transmit stray n e).1 =
      slipFrame :: (slipStuff (dataFrame p e.ackNumber e.sequenceNumber) ++ [slipFrame]) ∧
    (transmit stray n e).2.sendSize = 0

/-! ## The pending half of an escape -/

/-- Nothing, or the second half of an escape. -/
def HalfEscape (c : UInt8) : Prop := c = 0 ∨ c = slipEscapeFrame ∨ c = slipEscapeEscape

theorem putOctet_halfEscape {e : Engine} (h : HalfEscape e.sendSlipEscape) :
    HalfEscape (putOctet e).2.sendSlipEscape := by
  unfold putOctet putSlipUart
  split
  · exact Or.inl rfl
  · dsimp only
    split
    · exact Or.inr (Or.inl rfl)
    · split
      · exact Or.inr (Or.inr rfl)
      · exact h

theorem endOfBlock_escape (e : Engine) :
    (endOfBlock e).engine.sendSlipEscape = e.sendSlipEscape := by
  unfold endOfBlock
  cases e.nextSendPtr with
  | some l => rfl
  | none =>
    dsimp only
    split
    · rfl
    · unfold sentPacket
      split
      · split <;> rfl
      · rfl

theorem sendHalf_halfEscape {e : Engine} (h : HalfEscape e.sendSlipEscape) :
    HalfEscape (sendHalf e).engine.sendSlipEscape := by
  have hput := putOctet_halfEscape h
  rcases sendHalf_cases e with ⟨-, hc⟩ | ⟨-, -, hc⟩ | ⟨-, -, -, hc⟩ | ⟨-, -, -, hc⟩ <;> rw [hc]
  · exact h
  · unfold sendOctet
    dsimp only
    split
    · exact hput
    · split
      · exact (endOfBlock_escape _).symm ▸ hput
      · exact hput
  · rcases startFrame_cases e with ⟨-, hc⟩ | ⟨-, p, -, hc⟩ | ⟨-, -, -, hc⟩ | ⟨-, -, -, hc⟩ <;>
      rw [hc] <;> exact h
  · exact h

theorem Tx.Kept.escape {t t' : Tx} (h : t.Kept t') : t'.sendSlipEscape = t.sendSlipEscape := by
  rcases h with rfl | ⟨-, hesc⟩
  · rfl
  · exact hesc

theorem receiveLoop_kept (stray : UInt8 → UInt8) (rx : List UInt8) (a : Activity) (e : Engine) :
    e.tx.Kept (receiveLoop stray rx a e).2.2.tx := by
  induction rx generalizing a e with
  | nil => exact Or.inl rfl
  | cons value rx ih =>
    unfold receiveLoop
    split
    · rcases ih (receiveOctet stray value a e).1 (receiveOctet stray value a e).2 with
        h | ⟨hz, hesc⟩
      · rw [h]
        exact receiveOctet_kept stray value a e
      · exact Or.inr ⟨hz, hesc.trans (receiveOctet_kept stray value a e).escape⟩
    · exact Or.inl rfl

/-- **What may be pending** in a reachable engine. -/
theorem Reachable.halfEscape {stray : UInt8 → UInt8} {ok : Engine → UInt8 → Prop} {e : Engine}
    (h : Reachable stray ok e) : HalfEscape e.sendSlipEscape := by
  induction h with
  | start => exact Or.inl rfl
  | @poll e rx _ _ ih =>
    have hsend := sendHalf_halfEscape ih
    unfold ubcspPoll
    dsimp only
    split
    · exact hsend
    · have hkept :
          (receiveLoop stray rx (sendHalf e).activity (sendHalf e).engine).2.2.sendSlipEscape =
          (sendHalf e).engine.sendSlipEscape := (receiveLoop_kept stray rx _ _).escape
      obtain ⟨d, hd⟩ := finishPoll_eq (sendHalf e).delay
        (receiveLoop stray rx (sendHalf e).activity (sendHalf e).engine).2.2
      rw [hd]
      exact hkept ▸ hsend
  | send p _ ih => exact ih
  | receive p _ ih => exact ih

/-! ## Calls in a row -/

theorem transmit_add (stray : UInt8 → UInt8) (m n : Nat) (e : Engine) :
    (transmit stray (m + n) e).1 =
      (transmit stray m e).1 ++ (transmit stray n (transmit stray m e).2).1 := by
  induction m generalizing e with
  | zero => simp [transmit]
  | succ m ih => simp only [Nat.succ_add, transmit, ih, List.append_assoc]

/-- What has been put on the UART stays there. -/
theorem transmit_mono (stray : UInt8 → UInt8) {m n : Nat} (h : m ≤ n) (e : Engine) :
    (transmit stray m e).1 <+: (transmit stray n e).1 := by
  obtain ⟨k, rfl⟩ := Nat.exists_eq_add_of_le h
  rw [transmit_add]
  exact List.prefix_append _ _

/-- Two beginnings of a list that end at its first `x`. -/
theorem eq_of_delimited {α : Type} {x : α} {w v z : List α} (hw : x ∉ w) (hv : x ∉ v)
    (hwz : w ++ [x] <+: z) (hvz : v ++ [x] <+: z) : w = v := by
  induction w generalizing v z with
  | nil =>
    cases v with
    | nil => rfl
    | cons b v =>
      obtain ⟨s, rfl⟩ := hwz
      obtain ⟨t, ht⟩ := hvz
      simp only [List.cons_append, List.nil_append, List.cons.injEq] at ht
      exact absurd (ht.1 ▸ List.mem_cons_self) hv
  | cons a w ih =>
    obtain ⟨s, rfl⟩ := hwz
    obtain ⟨t, ht⟩ := hvz
    cases v with
    | nil =>
      simp only [List.cons_append, List.nil_append, List.cons.injEq] at ht
      exact absurd (ht.1 ▸ List.mem_cons_self) hw
    | cons b v =>
      simp only [List.cons_append, List.cons.injEq] at ht
      rw [List.mem_cons, not_or] at hw hv
      rw [ht.1, ih hw.2 hv.2 ⟨s, rfl⟩ ⟨t, ht.2⟩]

/-- **The calls put one thing on the UART**: what stands between the first two delimiters
is the frame, if the frame is emitted. -/
theorem EmitsFrame.eq_of_prefix {stray : UInt8 → UInt8} {p : Packet} {e : Engine}
    (h : EmitsFrame stray p e) {m : Nat} {w : List UInt8} (hw : slipFrame ∉ w)
    (hm : slipFrame :: (w ++ [slipFrame]) <+: (transmit stray m e).1) :
    slipStuff (dataFrame p e.ackNumber e.sequenceNumber) = w := by
  obtain ⟨n, hn, -⟩ := h
  have hleft := transmit_mono stray (Nat.le_max_left n m) e
  have hright := hm.trans (transmit_mono stray (Nat.le_max_right n m) e)
  obtain ⟨z, hz⟩ := hright
  rw [hn, ← hz, List.cons_append, List.prefix_cons_inj] at hleft
  exact eq_of_delimited ((ubcspSlip id).frame_notMem_stuff _) hw hleft (List.prefix_append _ _)

/-! ## The start of the frame -/

/-- The engine once the call has started to send the packet `p`. -/
def started (p : Packet) (e : Engine) : Engine :=
  { setupPacket (dataHeader p e.ackNumber e.sequenceNumber) (some p.payload) p.length.toNat e with
    sendAck := false }

theorem StartsPacket.sendHalf {e : Engine} {p : Packet} (h : StartsPacket e p) :
    sendHalf e = ⟨[slipFrame], .none, 0, false, started p e⟩ := by
  obtain ⟨hd, hs, hle, hresp, hp⟩ := h
  simp [Ubcsp.sendHalf, startFrame, hd, hs, hle, hresp, hp, started]

theorem StartsPacket.transmit {e : Engine} {p : Packet} (h : StartsPacket e p)
    (stray : UInt8 → UInt8) (n : Nat) :
    transmit stray (n + 1) e =
      (slipFrame :: (transmit stray n (started p e)).1, (transmit stray n (started p e)).2) := by
  have hfinish : finishPoll 0 (started p e) = started p e := by
    simp [finishPoll, started, setupPacket, h.waited]
  have hpoll := ubcspPoll_nil stray h.sendHalf
  rw [hfinish] at hpoll
  simp only [Ubcsp.transmit, hpoll]
  rfl

/-- What is still to be sent of the frame: all of it, or, after the half of an escape, a frame
whose header is one octet short. -/
theorem pendingWire_started {e : Engine} {p : Packet} (hlen : p.length.toNat = p.payload.length) :
    (started p e).tx.pendingWire =
      if e.sendSlipEscape = 0 then
        slipStuff (dataFrame p e.ackNumber e.sequenceNumber) ++ [slipFrame]
      else e.sendSlipEscape ::
        (slipStuff (sealedFrame ((dataHeader p e.ackNumber e.sequenceNumber).take 3) p.payload) ++
          [slipFrame]) :=
  @pendingWire_setupPacket e _ (dataHeader_length p e.ackNumber e.sequenceNumber) (some p.payload)
    p.length.toNat hlen

/-- The frame under way when the payload is not empty. -/
theorem started_framed {e : Engine} {p : Packet} (hesc : HalfEscape e.sendSlipEscape)
    (hlen : p.length.toNat = p.payload.length) (hne : p.payload ≠ []) :
    (started p e).tx.Framed := by
  refine framed_setupPacket hesc rfl (fun h => by cases h) ?_
  intro l hl
  obtain rfl := Option.some.inj hl
  exact ⟨hlen ▸ List.length_pos_iff.2 hne, Nat.le_of_eq hlen⟩

/-- Between its delimiters goes out what is pending at the start. -/
theorem StartsPacket.emits_pending {e : Engine} {p : Packet} (h : StartsPacket e p)
    (stray : UInt8 → UInt8) (hesc : HalfEscape e.sendSlipEscape)
    (hlen : p.length.toNat = p.payload.length) (hne : p.payload ≠ []) :
    ∃ n, (Ubcsp.transmit stray n e).1 = slipFrame :: (started p e).tx.pendingWire ∧
      (Ubcsp.transmit stray n e).2.sendSize = 0 := by
  obtain ⟨n, hn, hclosed⟩ := transmit_rest stray (started_framed hesc hlen hne)
    (show (4 : Nat) ≠ 0 by decide) (show (started p e).delay = 0 from h.waited)
  exact ⟨n + 1, by rw [h.transmit, hn], by rw [h.transmit]; exact hclosed⟩

/-- A half escape is sent as it stands. -/
theorem cons_stuff {c : UInt8} (hc : HalfEscape c) (h0 : c ≠ 0) (xs : List UInt8) :
    c :: slipStuff xs = slipStuff (c :: xs) := by
  have hone : (ubcspSlip id).stuffOctet c = [c] := by
    rcases hc with rfl | rfl | rfl
    · exact absurd rfl h0
    · rfl
    · rfl
  rw [slipStuff, slipStuff, SlipCode.stuff_cons, hone]
  rfl

/-- **A header that has moved up by one octet** is not the header. -/
theorem header_not_shifted {p : Packet} {ack seq : Fin 8} {c : UInt8} (hc : HalfEscape c)
    (h0 : c ≠ 0) {xs : List UInt8} :
    dataFrame p ack seq ≠ c :: ((dataHeader p ack seq).take 3 ++ xs) := by
  intro h
  obtain ⟨a0, a1, a2, a3, hhead⟩ : ∃ a0 a1 a2 a3, dataHeader p ack seq = [a0, a1, a2, a3] :=
    ⟨_, _, _, _, rfl⟩
  have hsum := dataHeader_sum p ack seq
  rw [dataFrame, sealedFrame, hhead] at h
  rw [hhead] at hsum
  simp only [List.cons_append, List.nil_append, List.take_succ_cons, List.take_zero,
    List.cons.injEq] at h
  -- every octet of the header would be the half escape
  obtain ⟨rfl, rfl, rfl, rfl, -⟩ := h
  rcases hc with rfl | rfl | rfl
  · exact h0 rfl
  · exact absurd hsum (by decide)
  · exact absurd hsum (by decide)

/-- **With half an escape pending the frame is damaged.** -/
theorem not_emitsFrame_of_escape {e : Engine} {p : Packet} (h : StartsPacket e p)
    (stray : UInt8 → UInt8) (hesc : HalfEscape e.sendSlipEscape)
    (hlen : p.length.toNat = p.payload.length) (hne : p.payload ≠ []) (h0 : e.sendSlipEscape ≠ 0) :
    ¬ EmitsFrame stray p e := by
  intro hemits
  obtain ⟨n, hn, -⟩ := h.emits_pending stray hesc hlen hne
  have hwire : (started p e).tx.pendingWire =
      slipStuff (e.sendSlipEscape ::
        (sealedFrame ((dataHeader p e.ackNumber e.sequenceNumber).take 3) p.payload)) ++
          [slipFrame] := by
    rw [pendingWire_started hlen, if_neg h0, ← cons_stuff hesc h0]
    rfl
  rw [hwire] at hn
  have hsame := hemits.eq_of_prefix ((ubcspSlip id).frame_notMem_stuff _) (m := n) (by rw [hn])
  have hshift : dataFrame p e.ackNumber e.sequenceNumber = e.sendSlipEscape ::
      sealedFrame ((dataHeader p e.ackNumber e.sequenceNumber).take 3) p.payload :=
    (ubcspSlip id).stuff_injective hsame
  rw [sealedFrame, List.append_assoc] at hshift
  exact header_not_shifted hesc h0 hshift

/-! ## An empty payload -/

namespace Tx

/-- The octets `block` are left of the block under way, and an empty block is behind it. -/
structure LastBlock (block : List UInt8) (t : Tx) : Prop where
  escape : HalfEscape t.sendSlipEscape
  octets : (t.sendPtr.getD []).take (t.sendSize - t.held) = block
  size : block.length = t.sendSize - t.held
  next : t.nextSendPtr = some []
  nextSize : t.nextSendSize = 0

/-- What the block still puts on the line. -/
def blockWire (block : List UInt8) (t : Tx) : List UInt8 :=
  (if t.sendSlipEscape ≠ 0 then [t.sendSlipEscape] else []) ++ slipStuff block

end Tx

/-- The empty block takes the place of the one before it, and nothing follows. -/
theorem endOfBlock_of_empty {e : Engine} (hn : e.nextSendPtr = some []) (hs : e.nextSendSize = 0) :
    endOfBlock e = ⟨[], .none, 0, false, e.withTx
      { e.tx with sendPtr := some [], sendSize := 0, nextSendPtr := none, nextSendSize := 0 }⟩ := by
  simp only [endOfBlock, hn, hs]
  rfl

/-- When the octet is not the first half of an escape and the block has `n` more. -/
theorem sendOctet_of_empty {e : Engine} {t : Tx} {w : List UInt8} {n : Nat}
    (hput : putOctet e = (w, e.withTx t)) (he : t.sendSlipEscape = 0) (hs : t.sendSize = n + 1)
    (hn : t.nextSendPtr = some []) (hns : t.nextSendSize = 0) :
    ∃ t', sendOctet e = ⟨w, .none, 0, false, e.withTx t'⟩ ∧ t'.sendSize = n ∧
      (n ≠ 0 → t' = { t with sendSize := n }) := by
  rw [sendOctet_eq (t := t) (by rw [hput]), if_neg (fun hne => hne he), hput, hs,
    Nat.add_sub_cancel]
  by_cases h0 : n = 0
  · rw [if_pos h0, endOfBlock_of_empty (e := e.withTx { t with sendSize := n }) hn hns]
    exact ⟨_, by rw [List.append_nil]; rfl, h0.symm, fun hne => absurd h0 hne⟩
  · rw [if_neg h0]
    exact ⟨_, rfl, rfl, fun _ => rfl⟩

/-- One octet of such a block: it is the last one, and leaves an engine that sends nothing;
or the block goes on. -/
def SendsBlock (block : List UInt8) (e : Engine) : Prop :=
  ∃ w t, sendOctet e = ⟨w, .none, 0, false, e.withTx t⟩ ∧
    ((t.sendSize = 0 ∧ w = e.tx.blockWire block) ∨
      (t.sendSize ≠ 0 ∧ w ≠ [] ∧ ∃ block', t.LastBlock block' ∧
        w ++ t.blockWire block' = e.tx.blockWire block))

/-- An octet that leaves no half of an escape pending, with `rest` behind it. -/
theorem sendsBlock_of_whole {e : Engine} {t : Tx} {w block rest : List UInt8} {n : Nat}
    (hput : putOctet e = (w, e.withTx t)) (hw : w ≠ []) (he : t.sendSlipEscape = 0)
    (hs : t.sendSize = n + 1) (hoctets : (t.sendPtr.getD []).take n = rest)
    (hrest : rest.length = n) (hn : t.nextSendPtr = some []) (hns : t.nextSendSize = 0)
    (hwire : w ++ slipStuff rest = e.tx.blockWire block) : SendsBlock block e := by
  obtain ⟨t', hcall, hsize, ht⟩ := sendOctet_of_empty hput he hs hn hns
  refine ⟨w, t', hcall, ?_⟩
  by_cases h0 : n = 0
  · left
    rw [List.length_eq_zero_iff.1 (hrest.trans h0)] at hwire
    exact ⟨hsize.trans h0, (List.append_nil w).symm.trans hwire⟩
  · right
    obtain rfl := ht h0
    have hheld : Tx.held { t with sendSize := n } = 0 := Tx.held_of_no_escape he
    have hline : Tx.blockWire rest { t with sendSize := n } = slipStuff rest := by
      simp [Tx.blockWire, he]
    refine ⟨h0, hw, rest, ⟨Or.inl he, ?_, ?_, hn, hns⟩, by rw [hline, hwire]⟩
    · rw [hheld]
      exact hoctets
    · rw [hheld]
      exact hrest

/-- The pending half of an escape goes out, and the block is as it was. -/
theorem sendsBlock_of_escape {e : Engine} {block : List UInt8} (h : e.tx.LastBlock block)
    (hs : e.sendSize ≠ 0) (he : e.sendSlipEscape ≠ 0) : SendsBlock block e := by
  obtain ⟨n, hn⟩ : ∃ n, e.sendSize = n + 1 := ⟨e.sendSize - 1, by omega⟩
  have hheld : e.tx.held = 1 := Tx.held_of_escape he
  have hsize := h.size
  have hoctets := h.octets
  rw [hheld, Engine.tx_sendSize, hn, Nat.add_sub_cancel] at hsize hoctets
  have hput : putOctet e = ([e.sendSlipEscape], e.withTx { e.tx with sendSlipEscape := 0 }) := by
    simp only [putOctet, ne_eq, he, not_false_eq_true, if_true]
    rfl
  have hwire : e.tx.blockWire block = e.sendSlipEscape :: slipStuff block := by
    simp [Tx.blockWire, he]
  exact sendsBlock_of_whole hput (List.cons_ne_nil _ _) rfl hn hoctets hsize h.next
    h.nextSize hwire.symm

/-- With no half pending, the next octet of the block goes out, or the first half of its
escape. -/
theorem sendsBlock_of_no_escape {e : Engine} {block : List UInt8} (h : e.tx.LastBlock block)
    (hs : e.sendSize ≠ 0) (he : e.sendSlipEscape = 0) : SendsBlock block e := by
  obtain ⟨n, hn⟩ : ∃ n, e.sendSize = n + 1 := ⟨e.sendSize - 1, by omega⟩
  have hheld : e.tx.held = 0 := Tx.held_of_no_escape he
  have hsize := h.size
  have hoctets := h.octets
  rw [hheld, Nat.sub_zero, Engine.tx_sendSize, hn] at hsize hoctets
  obtain ⟨value, rest, hptr⟩ : ∃ value rest, e.sendPtr.getD [] = value :: rest := by
    cases hp : e.sendPtr.getD [] with
    | nil =>
      rw [Engine.tx_sendPtr, hp, List.take_nil] at hoctets
      rw [← hoctets] at hsize
      cases hsize
    | cons value rest => exact ⟨value, rest, rfl⟩
  rw [Engine.tx_sendPtr, hptr, List.take_succ_cons] at hoctets
  subst hoctets
  have hwire : e.tx.blockWire (value :: rest.take n) =
      (ubcspSlip id).stuffOctet value ++ slipStuff (rest.take n) := by
    simp [Tx.blockWire, he, slipStuff]
  have hrest : (rest.take n).length = n := by simpa using hsize
  rcases putOctet_cases e (fun _ => hptr) with
    ⟨hne, -⟩ | ⟨-, c, hc, hstuff, hput⟩ | ⟨-, hstuff, hput⟩
  · exact absurd he hne
  · have hc0 : c ≠ 0 := by rcases hc with rfl | rfl <;> decide
    have hheld' :
        Tx.held { e.tx.taken value rest with sendSlipEscape := c, sendSize := e.sendSize } = 1 :=
      Tx.held_of_escape hc0
    refine ⟨[slipEscape], { e.tx.taken value rest with
      sendSlipEscape := c
      sendSize := e.sendSize }, by rw [sendOctet_eq (by rw [hput]), if_pos hc0, hput],
        Or.inr ⟨hs, List.cons_ne_nil _ _, rest.take n, ⟨Or.inr hc, ?_, ?_, h.next, h.nextSize⟩, ?_⟩⟩
    · rw [hheld', hn]
      rfl
    · rw [hheld', hn, hrest]
      rfl
    · rw [hwire, hstuff]
      simp [Tx.blockWire, hc0]
  · have hwire' : [value] ++ slipStuff (rest.take n) = e.tx.blockWire (value :: rest.take n) := by
      rw [hwire, hstuff]
    exact sendsBlock_of_whole hput (List.cons_ne_nil _ _) he hn rfl hrest h.next h.nextSize hwire'

theorem sendOctet_lastBlock {e : Engine} {block : List UInt8} (h : e.tx.LastBlock block)
    (hs : e.sendSize ≠ 0) : SendsBlock block e := by
  by_cases he : e.sendSlipEscape = 0
  · exact sendsBlock_of_no_escape h hs he
  · exact sendsBlock_of_escape h hs he

/-- The block is sent to its end, and nothing of the CRC or the delimiter. -/
theorem transmit_lastBlock (stray : UInt8 → UInt8) {e : Engine} {block : List UInt8}
    (h : e.tx.LastBlock block) (hs : e.sendSize ≠ 0) (hd : e.delay = 0) :
    ∃ n t, (transmit stray n e).1 = e.tx.blockWire block ∧ t.sendSize = 0 ∧
      (transmit stray n e).2 = { e.withTx t with delay := 0 } := by
  generalize hk : (e.tx.blockWire block).length = k
  -- by induction on the number of octets left
  induction k using Nat.strong_induction_on generalizing e block with
  | _ k ih =>
    obtain ⟨w, t, hcall, hrest⟩ := sendOctet_lastBlock h hs
    have hsend : sendHalf e = sendOctet e := by simp [sendHalf, hd, hs]
    have hpoll := ubcspPoll_nil stray (hsend.trans hcall)
    have hfinish : finishPoll 0 (e.withTx t) = { e.withTx t with delay := 0 } := by
      simp [finishPoll, Engine.withTx, hd]
    rw [hfinish] at hpoll
    rcases hrest with ⟨hsize, hw⟩ | ⟨hs', hne, block', h', hw⟩
    · refine ⟨1, t, ?_, hsize, ?_⟩
      · simp only [transmit, hpoll, List.append_nil]
        exact hw
      · simp only [transmit, hpoll]
    · have hlen : (t.blockWire block').length < k := by
        rw [← hk, ← hw, List.length_append]
        have := List.length_pos_of_ne_nil hne
        omega
      obtain ⟨n, t', hn, hsize, hend⟩ :=
        ih _ hlen (e := { e.withTx t with delay := 0 }) h' hs' rfl rfl
      refine ⟨n + 1, t', ?_, hsize, ?_⟩
      · simp only [transmit, hpoll, hn]
        exact hw
      · simp only [transmit, hpoll, hend]
        rfl

/-- **An empty payload is never completed.** -/
theorem not_emitsFrame_of_empty {e : Engine} {p : Packet} (h : StartsPacket e p)
    (stray : UInt8 → UInt8) (hesc : HalfEscape e.sendSlipEscape)
    (hlen : p.length.toNat = p.payload.length) (hempty : p.payload = []) :
    ¬ EmitsFrame stray p e := by
  intro hemits
  let head := dataHeader p e.ackNumber e.sequenceNumber
  let held := (started p e).tx.held
  have hblock : (started p e).tx.LastBlock (head.take (4 - held)) := by
    refine ⟨hesc, rfl, ?_, ?_, ?_⟩
    · rw [List.length_take]
      exact Nat.min_eq_left (Nat.sub_le 4 held)
    · show some p.payload = some []
      rw [hempty]
    · show p.length.toNat = 0
      rw [hlen, hempty]
      rfl
  obtain ⟨n, t, hn, hsize, hend⟩ := transmit_lastBlock stray hblock (show (4 : Nat) ≠ 0 by decide)
    (show (started p e).delay = 0 from h.waited)
  -- the next call starts the frame again
  have hagain : StartsPacket (transmit stray n (started p e)).2 p := by
    rw [hend]
    exact ⟨rfl, hsize, h.established, h.noResp, h.packet⟩
  have hprefix : slipFrame :: ((started p e).tx.blockWire (head.take (4 - held)) ++ [slipFrame]) <+:
      (transmit stray (n + 1 + 1) e).1 := by
    rw [h.transmit, transmit_add, hn, hagain.transmit]
    exact List.prefix_refl _
  obtain ⟨ys, hys, hshort⟩ : ∃ ys, (started p e).tx.blockWire (head.take (4 - held)) =
      slipStuff ys ∧
      ys.length ≤ 5 := by
    have htake : (head.take (4 - held)).length ≤ 4 :=
      (List.length_take_le _ _).trans (Nat.sub_le 4 held)
    have hescape : (started p e).tx.sendSlipEscape = e.sendSlipEscape := rfl
    unfold Tx.blockWire
    rw [hescape]
    by_cases h0 : e.sendSlipEscape = 0
    · rw [if_neg fun hne => hne h0]
      exact ⟨_, rfl, by omega⟩
    · rw [if_pos h0]
      exact ⟨_, cons_stuff hesc h0 _, Nat.succ_le_succ htake⟩
  rw [hys] at hprefix
  have hsame := hemits.eq_of_prefix ((ubcspSlip id).frame_notMem_stuff ys) hprefix
  have hframe : dataFrame p e.ackNumber e.sequenceNumber = ys :=
    (ubcspSlip id).stuff_injective hsame
  have hsix : (dataFrame p e.ackNumber e.sequenceNumber).length = 6 := by
    rw [dataFrame, sealedFrame, hempty]
    rfl
  rw [hframe] at hsix
  omega

/-! ## Every reachable engine -/

/-- The engines that can be reached when a packet is submitted only after
`UBCSP_PACKET_SENT`; `may` says that it has been reported since the last submission. -/
inductive Submits (stray : UInt8 → UInt8) : Bool → Engine → Prop
  | start : Submits stray false (ubcspInitialize .zero)
  | poll {may : Bool} {e : Engine} (rx : List UInt8) : Submits stray may e →
      Submits stray (may || (ubcspPoll stray rx e).activity.sent) (ubcspPoll stray rx e).engine
  | send {e : Engine} (p : Packet) : Submits stray true e →
      Submits stray false (ubcspSendPacket p e)
  | receive {may : Bool} {e : Engine} (p : Packet) :
      Submits stray may e → Submits stray may (ubcspReceivePacket p e)

theorem Submits.submit {stray : UInt8 → UInt8} {may : Bool} {e : Engine} (h : Submits stray may e)
    (hmay : may = true) (p : Packet) : Submits stray false (ubcspSendPacket p e) :=
  .send p (hmay ▸ h)

theorem Submits.reachable {stray : UInt8 → UInt8} {may : Bool} {e : Engine}
    (h : Submits stray may e) :
    Reachable stray (fun _ _ => True) e := by
  induction h with
  | start => exact .start
  | poll rx _ ih => exact ih.poll rx fun _ _ => trivial
  | send p _ ih => exact ih.send p
  | receive p _ ih => exact ih.receive p

/-- **Frame emission.**  When a reachable engine starts to send its packet, the calls that
follow put exactly the frame of the packet on the UART and close it, if and only if no
half of an escape is pending at the start and the payload is not empty. -/
theorem emitsFrame_iff {stray : UInt8 → UInt8} {may : Bool} {e : Engine} {p : Packet}
    (hrun : Submits stray may e) (h : StartsPacket e p) (hlen : p.length.toNat = p.payload.length) :
    EmitsFrame stray p e ↔ e.sendSlipEscape = 0 ∧ p.payload ≠ [] := by
  have hesc := hrun.reachable.halfEscape
  constructor
  · intro hemits
    have hne : p.payload ≠ [] :=
      fun hempty => not_emitsFrame_of_empty h stray hesc hlen hempty hemits
    exact ⟨by_contra fun h0 => not_emitsFrame_of_escape h stray hesc hlen hne h0 hemits, hne⟩
  · rintro ⟨h0, hne⟩
    obtain ⟨n, hn, hclosed⟩ := h.emits_pending stray hesc hlen hne
    refine ⟨n, ?_, hclosed⟩
    rw [hn, pendingWire_started hlen, if_pos h0]

/-- A CONF RESP has made the engine active, the link-establishment frame that was still due
has been started, and the packet `p` is submitted. -/
def readyToSend (p : Packet) : Engine :=
  ubcspSendPacket p (ubcspPoll id [] (ubcspPoll id (slipFrame :: plainLeFrame .confResp)
    (ubcspPoll id []
      (ubcspReceivePacket (.blank 512) (ubcspInitialize .zero))).engine).engine).engine

theorem readyToSend_submits (p : Packet) : Submits id false (readyToSend p) := by
  have h : Submits id false (ubcspReceivePacket (.blank 512) (ubcspInitialize .zero)) :=
    .receive _ .start
  exact (((h.poll []).poll (slipFrame :: plainLeFrame .confResp)).poll []).submit (by decide) p

/-- A packet whose payload needs an escape. -/
def escapedPayload : Packet := ⟨5, 1, 2, [0xC0, 0x01]⟩

theorem emitsFrame_iff_escaped : EmitsFrame id escapedPayload (readyToSend escapedPayload) :=
  (emitsFrame_iff (readyToSend_submits escapedPayload)
    ⟨by decide, by decide, by decide, by decide, by decide⟩
    (by decide)).2 ⟨by decide, by decide⟩

/-! ### A frame that goes out damaged -/

/-- An ACK frame without a CRC that acknowledges sequence number 0. -/
def plainAck : List UInt8 := [0x08, 0x00, 0x00, 0xF7, slipFrame]

/-- The acknowledgement of a first packet arrives when the first half of an escape has
been sent, and a second packet is submitted. -/
def cutInEscape : Engine :=
  ubcspSendPacket escapedPayload
    (ubcspPoll id plainAck (ubcspPoll id [] (readyToSend ⟨5, 1, 1, [0x07]⟩)).engine).engine

/-- **The second packet goes out as a damaged frame.** -/
theorem exists_damaged :
    Submits id false cutInEscape ∧ StartsPacket cutInEscape escapedPayload ∧
      ¬ EmitsFrame id escapedPayload cutInEscape := by
  have hstart : StartsPacket cutInEscape escapedPayload :=
    ⟨by decide, by decide, by decide, by decide, by decide⟩
  refine ⟨?_, hstart, not_emitsFrame_of_escape hstart id (Or.inr (Or.inl (by decide))) (by decide)
    (by decide) (by decide)⟩
  exact (((readyToSend_submits ⟨5, 1, 1, [0x07]⟩).poll []).poll plainAck).submit (by decide) _

end OpenwrtFeed.Ubcsp
