import OpenwrtFeed.SentNotification
import OpenwrtFeed.WholeFrame

/-! # When a packet counts as sent

The engine takes the packet of the upper layer away in two places: `ubcsp_sent_packet`
when an unreliable packet is held at the end of a frame, and `ubcsp_recevied_packet` when
a reliable one is held and a frame arrives whose acknowledgement is not the sequence
number.  Neither place knows which frame has been sent, or whether any has.

`Watch` puts beside the engine what has gone out since the last submission.  A packet is
only taken away with its frame on the line when the first place is reached at the end of
a frame of the packet, and the second after one (`TakesCare`, `ubcspPoll_completes`).
-/
namespace OpenwrtFeed.Ubcsp

/-- This call starts a frame of the packet, with nothing pending before it and a payload
that is sent to its end. -/
def StartsOwn (e : Engine) : Prop :=
  e.delay = 0 ∧ e.sendSize = 0 ∧ e.linkEstablishmentPacket = .none ∧
    e.linkEstablishmentResp &&& 2 = 0 ∧ e.sendSlipEscape = 0 ∧
    (e.sendPacket.any fun p => p.payload ≠ []) = true

instance (e : Engine) : Decidable (StartsOwn e) := inferInstanceAs (Decidable (_ ∧ _))

/-- This call sends the last octet of a frame, and with it the closing delimiter. -/
def ClosesFrame (e : Engine) : Prop :=
  e.delay = 0 ∧ e.sendSize = 1 ∧ (putOctet e).2.sendSlipEscape = 0 ∧ e.nextSendPtr = none ∧
    e.needSendCrc = false

instance (e : Engine) : Decidable (ClosesFrame e) := inferInstanceAs (Decidable (_ ∧ _))

/-- The engine and what has happened since the last submission. -/
structure Watch where
  engine : Engine
  /-- `UBCSP_PACKET_SENT` has been reported. -/
  may : Bool
  /-- The octets put on the UART. -/
  line : List UInt8
  /-- The last frame to be started was one of the packet, as `StartsOwn` says. -/
  own : Bool
  /-- Such a frame has been closed. -/
  finished : Bool

namespace Watch

def start : Watch := ⟨ubcspInitialize .zero, false, [], false, false⟩

/-- Whether a frame of the packet has been closed when the sending half of a call is over. -/
def finishes (w : Watch) : Bool := w.finished || (w.own && decide (ClosesFrame w.engine))

/-- A call of `ubcsp_poll`. -/
def poll (stray : UInt8 → UInt8) (rx : List UInt8) (w : Watch) : Watch where
  engine := (ubcspPoll stray rx w.engine).engine
  may := w.may || (ubcspPoll stray rx w.engine).activity.sent
  line := w.line ++ (ubcspPoll stray rx w.engine).tx
  own := if w.engine.delay = 0 ∧ w.engine.sendSize = 0 then decide (StartsOwn w.engine) else w.own
  finished := w.finishes

/-- A call of `ubcsp_send_packet`. -/
def submit (p : Packet) (w : Watch) : Watch := ⟨ubcspSendPacket p w.engine, false, [], false, false⟩

end Watch

/-- The runs in which packets are submitted after `UBCSP_PACKET_SENT`. -/
inductive Watched (stray : UInt8 → UInt8) : Watch → Prop
  | start : Watched stray .start
  | poll {w : Watch} (rx : List UInt8) : Watched stray w → Watched stray (w.poll stray rx)
  | submit {w : Watch} (p : Packet) : p.length.toNat = p.payload.length → w.may = true →
      Watched stray w → Watched stray (w.submit p)
  | receive {w : Watch} (q : Packet) :
      Watched stray w → Watched stray { w with engine := ubcspReceivePacket q w.engine }

/-- A complete frame that carries the packet is on the line. -/
def OnLine (p : Packet) (line : List UInt8) : Prop :=
  ∃ ack seq, slipFrame :: (slipStuff (dataFrame p ack seq) ++ [slipFrame]) <:+: line

theorem OnLine.append {p : Packet} {line : List UInt8} (h : OnLine p line) (w : List UInt8) :
    OnLine p (line ++ w) := by
  obtain ⟨ack, seq, hin⟩ := h
  exact ⟨ack, seq, hin.trans (List.prefix_append line w).isInfix⟩

/-! ## The end of a frame -/

theorem putOctet_keeps (e : Engine) :
    (putOctet e).2.sendSize = e.sendSize ∧ (putOctet e).2.nextSendPtr = e.nextSendPtr ∧
      (putOctet e).2.nextSendSize = e.nextSendSize ∧ (putOctet e).2.needSendCrc =
        e.needSendCrc := by
  unfold putOctet putSlipUart
  split
  · exact ⟨rfl, rfl, rfl, rfl⟩
  · dsimp only
    split
    · exact ⟨rfl, rfl, rfl, rfl⟩
    · split <;> exact ⟨rfl, rfl, rfl, rfl⟩

theorem sentPacket_sendSize (e : Engine) : (sentPacket e).2.sendSize = e.sendSize := by
  rcases sentPacket_eq e with ⟨h, -⟩ | ⟨h, -⟩ <;> rw [h]

/-- **A packet leaves with the sending half** only at the end of a frame, and only when it
is unreliable. -/
theorem sendHalf_clears {e : Engine} {p : Packet} (hp : e.sendPacket = some p)
    (h : (sendHalf e).engine.sendPacket = none) : ClosesFrame e ∧ p.reliable = 0 := by
  have hgone : (sendHalf e).engine.sendPacket ≠ e.sendPacket := by
    rw [h, hp]
    exact (Option.some_ne_none p).symm
  rcases sendHalf_cases e with ⟨-, hc⟩ | ⟨hd, hs, hc⟩ | ⟨-, -, -, hc⟩ | ⟨-, -, -, hc⟩
  · exact absurd (by rw [hc]) hgone
  · obtain ⟨hsize, hptr, -, hcrc⟩ := putOctet_keeps e
    have hcall := sendOctet_eq (putOctet_snd e)
    by_cases hesc : (putOctet e).2.tx.sendSlipEscape = 0
    · rw [if_neg fun hne => hne hesc] at hcall
      by_cases hlast : (putOctet e).2.tx.sendSize - 1 = 0
      · rw [if_pos hlast] at hcall
        rcases endOfBlock_cases (e.withTx { (putOctet e).2.tx with
          sendSize := (putOctet e).2.tx.sendSize - 1 }) with ⟨t, ht⟩ | ⟨hnone, hdone, t, -, -, ht⟩
        · exact absurd (by rw [hc, hcall, ht]; rfl) hgone
        · have hone : e.sendSize = 1 := by
            rw [Engine.tx_sendSize, hsize] at hlast
            omega
          refine ⟨⟨hd, hone, hesc, hptr.symm.trans hnone, hcrc.symm.trans hdone⟩, ?_⟩
          rw [hc, hcall, ht] at h
          rcases sentPacket_eq ((e.withTx { (putOctet e).2.tx with
            sendSize := (putOctet e).2.tx.sendSize - 1 }).withTx t) with ⟨hsent, -⟩ | ⟨-, q, hq, hr⟩
          · rw [hsent] at h
            exact (by cases hp.symm.trans h)
          · obtain rfl := Option.some.inj (hp.symm.trans hq)
            exact hr
      · rw [if_neg hlast] at hcall
        exact absurd (by rw [hc, hcall]; rfl) hgone
    · rw [if_pos hesc] at hcall
      exact absurd (by rw [hc, hcall]; rfl) hgone
  · rcases startFrame_cases e with ⟨-, hs⟩ | ⟨-, q, -, hs⟩ | ⟨-, -, -, hs⟩ | ⟨-, -, -, hs⟩ <;>
      exact absurd ((congrArg (fun s => s.engine.sendPacket) (hc.trans hs)).trans rfl) hgone
  · exact absurd (by rw [hc]; rfl) hgone

/-- A frame that is closed leaves nothing of it to send. -/
theorem sendOctet_closed {e : Engine} (h : ClosesFrame e) (hn : e.nextSendSize = 0) :
    (sendOctet e).engine.sendSize = 0 := by
  obtain ⟨-, hs, hesc, hptr, hcrc⟩ := h
  obtain ⟨hsize, hptr', hnext, hcrc'⟩ := putOctet_keeps e
  have hlast : (putOctet e).2.tx.sendSize - 1 = 0 := by rw [Engine.tx_sendSize, hsize, hs]
  rw [sendOctet_eq (putOctet_snd e), if_neg fun hne => hne hesc, if_pos hlast]
  have hptr'' : (putOctet e).2.tx.nextSendPtr = none := hptr'.trans hptr
  have hcrc'' : (putOctet e).2.tx.needSendCrc = false := hcrc'.trans hcrc
  have hnext'' : (putOctet e).2.tx.nextSendSize = 0 := hnext.trans hn
  unfold endOfBlock
  simp only [Engine.withTx, hptr'', hcrc'', hnext'', Bool.false_eq_true, if_false]
  exact sentPacket_sendSize _

/-! ## The frame under way -/

namespace Watch

/-- What `own` and `finished` say about the line. -/
structure Inv (w : Watch) : Prop where
  escape : HalfEscape w.engine.sendSlipEscape
  length : ∀ p, w.engine.sendPacket = some p → p.length.toNat = p.payload.length
  underWay : w.own = true → w.engine.sendSize ≠ 0 → w.engine.tx.Framed ∧
    ∀ p, w.engine.sendPacket = some p → ∃ ack seq before inside,
      w.line = before ++ slipFrame :: inside ∧
        inside ++ w.engine.tx.pendingWire = slipStuff (dataFrame p ack seq) ++ [slipFrame]
  finished : w.finished = true → ∀ p, w.engine.sendPacket = some p → OnLine p w.line

/-- The watch when the sending half of a call is over. -/
def sent (w : Watch) : Watch where
  engine := (sendHalf w.engine).engine
  may := w.may
  line := w.line ++ (sendHalf w.engine).tx
  own := if w.engine.delay = 0 ∧ w.engine.sendSize = 0 then decide (StartsOwn w.engine) else w.own
  finished := w.finishes

/-- **The frame of the packet is on the line** when it has been closed. -/
theorem Inv.onLine {w : Watch} (h : w.Inv) (hf : w.finishes = true) {p : Packet}
    (hp : w.engine.sendPacket = some p) : OnLine p w.sent.line := by
  unfold finishes at hf
  rw [Bool.or_eq_true, Bool.and_eq_true, decide_eq_true_eq] at hf
  rcases hf with hf | ⟨hown, hcloses⟩
  · exact (h.finished hf p hp).append _
  · -- the call sends the rest of the frame
    have hs : w.engine.sendSize ≠ 0 := by
      rw [hcloses.2.1]
      exact Nat.one_ne_zero
    obtain ⟨hframed, hline⟩ := h.underWay hown hs
    obtain ⟨ack, seq, before, inside, hbefore, hinside⟩ := hline p hp
    have hsend : sendHalf w.engine = sendOctet w.engine := by simp [sendHalf, hcloses.1, hs]
    have hclosed := sendOctet_closed hcloses (hframed.noNext hcloses.2.2.2.1)
    rcases sendOctet_pending hframed hs with ⟨v, t, hcall, -, hne, -⟩ | ⟨v, t, hcall, -, -, -, hw⟩
    · rw [hcall] at hclosed
      exact absurd hclosed hne
    · refine ⟨ack, seq, before, [], ?_⟩
      show _ = w.line ++ (sendHalf w.engine).tx
      rw [hsend, hcall, hw, hbefore, List.append_nil, ← hinside, List.append_assoc,
        List.cons_append]

theorem Inv.sent {w : Watch} (h : w.Inv) : w.sent.Inv := by
  have hpacket : ∀ p, w.sent.engine.sendPacket = some p → w.engine.sendPacket = some p := by
    intro p hp
    rcases sendHalf_sent w.engine with ⟨-, hkeep⟩ | ⟨-, hgone⟩
    · exact hkeep.symm.trans hp
    · cases hgone.symm.trans hp
  refine ⟨sendHalf_halfEscape h.escape, fun p hp => h.length p (hpacket p hp), ?_,
    fun hf p hp => h.onLine hf (hpacket p hp)⟩
  intro hown hs
  by_cases hidle : w.engine.delay = 0 ∧ w.engine.sendSize = 0
  · -- a frame of the packet has just been started
    have hstart : StartsOwn w.engine := by
      simpa only [Watch.sent, if_pos hidle, decide_eq_true_eq] using hown
    obtain ⟨hd, hs0, hle, hresp, hesc, hany⟩ := hstart
    cases hq : w.engine.sendPacket with
    | none => simp [hq] at hany
    | some q =>
      have hne : q.payload ≠ [] := by simpa [hq] using hany
      have hcall := StartsPacket.sendHalf ⟨hd, hs0, hle, hresp, hq⟩
      have hlen := h.length q hq
      have hengine : w.sent.engine = started q w.engine := by rw [Watch.sent, hcall]
      have hline : w.sent.line = w.line ++ [slipFrame] := by rw [Watch.sent, hcall]
      rw [hengine]
      refine ⟨started_framed h.escape hlen hne, ?_⟩
      rintro p hp
      obtain rfl : q = p := Option.some.inj (hq.symm.trans hp)
      refine ⟨w.engine.ackNumber, w.engine.sequenceNumber, w.line, [], hline, ?_⟩
      exact (pendingWire_started hlen).trans (if_pos hesc)
  · -- the frame goes on
    have hown' : w.own = true := by simpa only [Watch.sent, if_neg hidle] using hown
    rcases sendHalf_cases w.engine with ⟨-, hc⟩ | ⟨-, hs0, hc⟩ | ⟨hd, hs0, -, -⟩ | ⟨hd, hs0, -, -⟩
    · have hengine : w.sent.engine = w.engine := by rw [Watch.sent, hc]
      have hline : w.sent.line = w.line := by rw [Watch.sent, hc, List.append_nil]
      rw [hengine] at hs ⊢
      rw [hline]
      exact h.underWay hown' hs
    · obtain ⟨hframed, hline⟩ := h.underWay hown' hs0
      rcases sendOctet_pending hframed hs0 with
        ⟨v, t, hcall, hf, -, -, -, hw⟩ | ⟨v, t, hcall, -, hz, -, -⟩
      · have hengine : w.sent.engine = w.engine.withTx t := by rw [Watch.sent, hc, hcall]
        have hput : w.sent.line = w.line ++ v := by rw [Watch.sent, hc, hcall]
        rw [hengine]
        refine ⟨hf, ?_⟩
        intro p hp
        obtain ⟨ack, seq, before, inside, hbefore, hinside⟩ := hline p hp
        refine ⟨ack, seq, before, inside ++ v, by rw [hput, hbefore]; simp, ?_⟩
        rw [List.append_assoc, Engine.tx_withTx, hw]
        exact hinside
      · refine absurd ?_ hs
        show (sendHalf w.engine).engine.sendSize = 0
        rw [hc, hcall]
        exact (sentPacket_sendSize _).trans hz
    · exact absurd ⟨hd, hs0⟩ hidle
    · exact absurd ⟨hd, hs0⟩ hidle

/-- Receiving abandons the frame under way, or leaves the output side alone; the packet
stays or is taken away. -/
theorem Inv.received {w : Watch} (h : w.Inv) {e : Engine} (hkept : w.engine.tx.Kept e.tx)
    (hpacket : e.sendPacket = w.engine.sendPacket ∨ e.sendPacket = none) :
    ({ w with engine := e } : Watch).Inv := by
  have hsome : ∀ p, e.sendPacket = some p → w.engine.sendPacket = some p := by
    intro p hp
    rcases hpacket with hsame | hnone
    · exact hsame.symm.trans hp
    · cases hnone.symm.trans hp
  have hesc : e.sendSlipEscape = w.engine.sendSlipEscape := hkept.escape
  refine ⟨hesc ▸ h.escape, fun p hp => h.length p (hsome p hp), ?_,
    fun hf p hp => h.finished hf p (hsome p hp)⟩
  intro hown hs
  rcases hkept with hsame | ⟨hz, -⟩
  · have hsize : w.engine.sendSize ≠ 0 := by
      rw [← Engine.tx_sendSize, ← hsame]
      exact hs
    obtain ⟨hframed, hline⟩ := h.underWay hown hsize
    show e.tx.Framed ∧ _
    rw [hsame]
    exact ⟨hframed, fun p hp => hline p (hsome p hp)⟩
  · exact absurd hz hs

end Watch

/-! ## One call -/

/-- What a call makes of the engine that the sending half has left. -/
theorem ubcspPoll_receives (stray : UInt8 → UInt8) (rx : List UInt8) (e : Engine) :
    (ubcspPoll stray rx e).tx = (sendHalf e).tx ∧
      (sendHalf e).engine.tx.Kept (ubcspPoll stray rx e).engine.tx ∧
      ((∀ x ∈ pollStates stray rx e, ¬ Clears x.1 x.2) →
        (ubcspPoll stray rx e).engine.sendPacket = (sendHalf e).engine.sendPacket) ∧
      ((∃ x ∈ pollStates stray rx e, Clears x.1 x.2) →
        (ubcspPoll stray rx e).engine.sendPacket = none) := by
  unfold ubcspPoll pollStates
  dsimp only
  split
  · exact ⟨rfl, Or.inl rfl, fun _ => rfl, fun ⟨_, hx, _⟩ => by simp at hx⟩
  · obtain ⟨hclear, hkeep, -⟩ :=
      receiveLoop_sendPacket stray rx (sendHalf e).activity (sendHalf e).engine
    have hkept := receiveLoop_kept stray rx (sendHalf e).activity (sendHalf e).engine
    obtain ⟨d, hd⟩ := finishPoll_eq (sendHalf e).delay
      (receiveLoop stray rx (sendHalf e).activity (sendHalf e).engine).2.2
    rw [hd]
    exact ⟨rfl, hkept, hkeep, hclear⟩

theorem Watch.Inv.poll {w : Watch} (h : w.Inv) (stray : UInt8 → UInt8) (rx : List UInt8) :
    (w.poll stray rx).Inv := by
  obtain ⟨htx, hkept, hkeep, hclear⟩ := ubcspPoll_receives stray rx w.engine
  have hpacket : (ubcspPoll stray rx w.engine).engine.sendPacket =
      (sendHalf w.engine).engine.sendPacket ∨
      (ubcspPoll stray rx w.engine).engine.sendPacket = none := by
    by_cases hc : ∃ x ∈ pollStates stray rx w.engine, Clears x.1 x.2
    · exact Or.inr (hclear hc)
    · exact Or.inl (hkeep fun x hx hcx => hc ⟨x, hx, hcx⟩)
  have hinv := h.sent.received hkept hpacket
  unfold Watch.sent at hinv
  unfold Watch.poll
  rw [htx]
  exact ⟨hinv.escape, hinv.length, hinv.underWay, hinv.finished⟩

/-- **What the watch records is on the line**, in every run. -/
theorem Watched.inv {stray : UInt8 → UInt8} {w : Watch} (h : Watched stray w) : w.Inv := by
  induction h with
  | start =>
      exact ⟨Or.inl rfl, fun _ hp => (by cases hp), fun ho => (by cases ho),
      fun hf => (by cases hf)⟩
  | poll rx _ ih => exact ih.poll stray rx
  | submit p hlen _ _ ih =>
    refine ⟨ih.escape, ?_, fun ho => (by cases ho), fun hf => (by cases hf)⟩
    intro q hq
    obtain rfl := Option.some.inj hq
    exact hlen
  | receive q _ ih => exact ih.received (Or.inl rfl) (Or.inl rfl)

/-- The two places are reached with the frame of the packet on the line: no other frame
than the packet's ends while an unreliable packet is held, and no acknowledgement of a
reliable packet arrives before a frame of it has been closed. -/
structure TakesCare (stray : UInt8 → UInt8) (w : Watch) (rx : List UInt8) : Prop where
  ends : ClosesFrame w.engine → (∃ p, w.engine.sendPacket = some p ∧ p.reliable = 0) → w.own = true
  acks : (∃ x ∈ pollStates stray rx w.engine, Clears x.1 x.2) → w.finishes = true

/-- **No premature completion.**  In every run, a call that takes care and takes the packet
away has put a complete frame of the packet on the UART, or a call before it has, since
the packet was submitted. -/
theorem ubcspPoll_completes {stray : UInt8 → UInt8} {w : Watch} (h : Watched stray w)
    {rx : List UInt8} (hcare : TakesCare stray w rx) {p : Packet}
    (hp : w.engine.sendPacket = some p) (hgone : (w.poll stray rx).engine.sendPacket = none) :
    OnLine p (w.poll stray rx).line := by
  obtain ⟨htx, -, hkeep, -⟩ := ubcspPoll_receives stray rx w.engine
  have hfinishes : w.finishes = true := by
    by_cases hsent : (sendHalf w.engine).engine.sendPacket = none
    · -- the packet left at the end of a frame
      obtain ⟨hcloses, hrel⟩ := sendHalf_clears hp hsent
      have hown := hcare.ends hcloses ⟨p, hp, hrel⟩
      simp [Watch.finishes, hown, hcloses]
    · -- the packet was acknowledged
      apply hcare.acks
      by_contra hnone
      push Not at hnone
      exact hsent ((hkeep hnone).symm.trans hgone)
  have honline := h.inv.onLine hfinishes hp
  show OnLine p (w.line ++ (ubcspPoll stray rx w.engine).tx)
  rw [htx]
  exact honline

/-- `n` calls with nothing to receive. -/
def Watch.wait (stray : UInt8 → UInt8) : Nat → Watch → Watch
  | 0, w => w
  | n + 1, w => (w.poll stray []).wait stray n

theorem Watched.wait {stray : UInt8 → UInt8} (n : Nat) {w : Watch} (h : Watched stray w) :
    Watched stray (w.wait stray n) := by
  induction n generalizing w with
  | zero => exact h
  | succ n ih => exact ih (h.poll [])

/-- A CONF RESP has made the engine active and reported `UBCSP_PACKET_SENT`. -/
def activated : Watch :=
  ((({ Watch.start with
    engine := ubcspReceivePacket (.blank 512) Watch.start.engine } : Watch).poll id
    []).poll id (slipFrame :: plainLeFrame .confResp))

theorem activated_watched : Watched id activated := ((Watched.start.receive _).poll _).poll _

/-- A short unreliable packet. -/
def unreliablePacket : Packet := ⟨5, 0, 1, [0x07]⟩

/-- The packet has been submitted when the link-establishment frame that was due had been
started, and its own frame is about to be closed. -/
def aboutToClose : Watch := ((activated.wait id 1).submit unreliablePacket).wait id 7

theorem ubcspPoll_completes_own : OnLine unreliablePacket (aboutToClose.poll id []).line :=
  ubcspPoll_completes (w := aboutToClose) (p := unreliablePacket)
    (.wait 7 (.submit _ (by decide) (by decide) (activated_watched.wait 1)))
    ⟨fun _ _ => by decide, fun _ => by decide⟩ (by decide) (by decide)

/-! ### A packet that is taken away before it has gone out -/

/-- A long unreliable packet. -/
def longPacket : Packet := ⟨5, 0, 10, List.replicate 10 0x55⟩

/-- The packet has been submitted while a link-establishment frame is still due, and that
frame is about to be closed. -/
def leAboutToClose : Watch := (activated.submit longPacket).wait id 10

/-- A frame on the line is at least as long as its octets. -/
theorem length_le_stuff (xs : List UInt8) : xs.length ≤ (slipStuff xs).length := by
  induction xs with
  | nil => exact Nat.le_refl 0
  | cons x xs ih =>
    have hone : 1 ≤ ((ubcspSlip id).stuffOctet x).length := by
      unfold SlipCode.stuffOctet
      split
      · simp
      · split <;> simp
    rw [slipStuff, SlipCode.stuff_cons, List.length_append, List.length_cons]
    have ih' : xs.length ≤ ((ubcspSlip id).stuff xs).length := ih
    omega

theorem not_onLine_of_short {p : Packet} {line : List UInt8}
    (h : line.length < p.payload.length + 8) :
    ¬ OnLine p line := by
  rintro ⟨ack, seq, hin⟩
  have hlong := length_le_stuff (dataFrame p ack seq)
  have hframe : (dataFrame p ack seq).length = p.payload.length + 6 := by
    rw [dataFrame, sealedFrame, List.length_append, List.length_append, dataHeader_length,
      length_crcOctets]
    omega
  have hle := hin.length_le
  rw [List.length_cons, List.length_append, List.length_singleton] at hle
  omega

/-- **A packet is reported sent without a frame of it on the line**: the end of a
link-establishment frame takes it away. -/
theorem exists_premature :
    Watched id leAboutToClose ∧ leAboutToClose.engine.sendPacket = some longPacket ∧
      (leAboutToClose.poll id []).engine.sendPacket = none ∧
      (ubcspPoll id [] leAboutToClose.engine).activity = .packetSent ∧
      ¬ OnLine longPacket (leAboutToClose.poll id []).line :=
  ⟨.wait 10 (.submit _ (by decide) (by decide) activated_watched), by decide, by decide, by decide,
    not_onLine_of_short (by decide)⟩

end OpenwrtFeed.Ubcsp
