import OpenwrtFeed.LosslessRuns
import OpenwrtFeed.Rank

/-! # The link never gets stuck

Whatever has been lost or cut off so far, and at whatever moment the losses end: there is a run
without further losses at whose end both engines are active and every packet that has been
submitted on either side has been handed over on the other and acknowledged
(`LinkReachable.recovers`).  A piece that counts as lost is dropped on it, and nothing else is.
An engine by itself can get stuck (`exists_deadlocked`), and so could two of them if they waited
for each other, or if an abandoned frame, half an escape or a frame without its end garbled what
comes after it again and again.

The run is one in which the stations take turns.  A turn delivers a packet or an
acknowledgement, or clears up something that was left over, or else it is a turn of the protocol on
messages (`Turn.next`); and of those there are only so many before link establishment is over, after
which the next packet or acknowledgement does something new.
-/
namespace OpenwrtFeed.Ubcsp

/-! ## An engine hears a frame -/

/-- Octets that complete no frame are collected. -/
theorem receiveLoop_collects {stray : UInt8 → UInt8} {n : Nat} {ws rest : List UInt8} {a : Activity}
    {p : SlipCode.Partial UInt8} {e : Engine} (hdef : Deframes n p e)
    (harmed : e.receiveArmed = true) (hnone : ((ubcspSlip stray).run p ws).2 = []) :
    ∃ r, r.receiveArmed = true ∧ Deframes n ((ubcspSlip stray).run p ws).1 (e.withRx r) ∧
      receiveLoop stray (ws ++ rest) a e = receiveLoop stray rest a (e.withRx r) := by
  induction ws generalizing p e with
  | nil => exact ⟨e.rx, harmed, hdef, rfl⟩
  | cons w ws ih =>
    rw [SlipCode.run_cons] at hnone ⊢
    obtain ⟨hfirst, hmore⟩ := List.append_eq_nil_iff.1 hnone
    obtain ⟨hdef', ⟨-, r, hr, hoctet⟩ | ⟨s, -, -, hstep, -⟩⟩ :=
      @Deframes.octet n stray p e hdef harmed w a
    · rw [hoctet] at hdef'
      obtain ⟨r', hr', hdef'', hloop⟩ := ih hdef' hr hmore
      refine ⟨r', hr', hdef'', ?_⟩
      rw [List.cons_append, receiveLoop, if_pos harmed, hoctet]
      exact hloop
    · rw [hstep] at hfirst
      cases hfirst

/-- **A frame between its delimiters**, to an engine between two frames. -/
theorem receiveLoop_frame {stray : UInt8 → UInt8} {n : Nat} {s : List UInt8} {e : Engine}
    (hdef : Deframes n .empty e) (harmed : e.receiveArmed = true) :
    ∃ r, r.receiveArmed = true ∧ Deframes n ⟨false, s⟩ (e.withRx r) ∧
      receiveLoop stray (slipFrame :: slipStuff s ++ [slipFrame]) .none e =
        ((endOfFrame .none (e.withRx r)).1, [], (endOfFrame .none (e.withRx r)).2) := by
  -- the opening delimiter ends nothing
  have hopen : receiveOctet stray slipFrame .none e =
      (.none, e.withRx { e.rx with receiveIndex := -4 }) := by
    have hesc : e.receiveSlipEscape = false := hdef.escaped
    have hidx : e.receiveIndex = -4 := (hdef.collects harmed).index
    rw [receiveOctet, if_neg (by rw [hesc]; exact Bool.false_ne_true), if_pos rfl, endOfFrame,
      if_neg (by rw [hidx]; decide)]
    rfl
  have hdef₁ := (@Deframes.octet n stray .empty e hdef harmed slipFrame .none).1
  have hempty : (ubcspSlip stray).step .empty slipFrame = (.empty, some []) :=
    (ubcspSlip stray).step_frame []
  rw [hopen, hempty] at hdef₁
  have hrun : (ubcspSlip stray).run .empty (slipStuff s) = (⟨false, s⟩, []) :=
    (ubcspSlip stray).run_stuff [] s
  obtain ⟨r, hr, hdef₂, hloop⟩ :=
    @receiveLoop_collects stray n (slipStuff s) [slipFrame] .none _ _ hdef₁ harmed
    (by rw [hrun])
  rw [hrun] at hdef₂
  refine ⟨r, hr, hdef₂, ?_⟩
  have hclose : receiveOctet stray slipFrame .none (e.withRx r) =
      endOfFrame .none (e.withRx r) := by
    have hesc : r.receiveSlipEscape = false := hdef₂.escaped
    rw [receiveOctet,
      if_neg (by show ¬ r.receiveSlipEscape = true; rw [hesc]; exact Bool.false_ne_true),
        if_pos rfl]
  have hlast : receiveLoop stray [slipFrame] .none (e.withRx r) =
      ((endOfFrame .none (e.withRx r)).1, [], (endOfFrame .none (e.withRx r)).2) := by
    rw [receiveLoop, if_pos (show (e.withRx r).receiveArmed = true from hr), hclose, receiveLoop]
  rw [List.cons_append, receiveLoop, if_pos harmed, hopen, ← hlast]
  exact hloop

/-- The link-establishment packet that a message is. -/
def Message.lePacket : Message → Option LePacket
  | .le k => some k
  | _ => none

/-- What the engine `e`, which has become `e'` and has reported `a`, has made of the message `m`. -/
structure Hears (m : Message) (a : Activity) (e e' : Engine) : Prop where
  link : e'.link = e.link.hear m.lePacket
  acknowledged : m.lePacket = none → seqNumber m.ackValue ≠ e.sequenceNumber →
    ∀ p, e.sendPacket = some p → p.reliable ≠ 0 → a.sent = true
  duplicate : ∀ v i p, m = .data v i p → e.linkEstablishmentState = .active → a.received = false →
    seqNumber i ≠ e.ackNumber ∧ e'.sendAck = true

/-- A packet that is no link-establishment packet leaves the report of its acknowledgement. -/
theorem receiveIntact_sent {e : Engine} (hch : e.receivePacket.channel ≠ 1) :
    (receiveIntact e).1.sent = (receiveAck e).1.sent := by
  unfold receiveIntact
  dsimp only
  rw [receiveAck_receivePacket, if_neg hch]
  split
  · unfold receiveData
    split
    · split
      · dsimp only
        split
        · simp [Activity.packetReceivedAck]
        · rfl
      · simp [Activity.packetReceived]
    · rfl
  · rfl

/-- The acknowledgement of a reliable packet is reported. -/
theorem receiveAck_sent {e : Engine} {v : Nat}
    (hv : headerAck e.receiveHeader = UInt8.ofNat (seqNumber v))
    (hne : seqNumber v ≠ e.sequenceNumber) {p : Packet} (hp : e.sendPacket = some p)
    (hr : p.reliable ≠ 0) :
    (receiveAck e).1.sent = true := by
  have hinj : ∀ i j : Fin 8, UInt8.ofNat i = UInt8.ofNat j → i = j := by decide
  unfold receiveAck
  rw [if_pos (by rw [hv]; exact fun heq => hne (hinj _ _ heq)), hp]
  dsimp only
  rw [if_pos hr]
  rfl

namespace Arrived
variable {n : Nat} {m : Message} {e : Engine}

theorem header_message (h : Arrived n m.frame e) (hm : m.Valid) :
    Ubcsp.header e.receiveHeader = m.expectedHeader := h.header.trans (m.header_frame hm)

theorem channel_message (h : Arrived n m.frame e) (hm : m.Valid) :
    e.receivePacket.channel = m.expectedHeader.channel :=
  h.channel.trans (congrArg Header.channel (m.header_frame hm))

/-- Only link-establishment packets are on channel 1. -/
theorem channel_ne (h : Arrived n m.frame e) (hm : m.Valid) (hnone : m.lePacket = none) :
    e.receivePacket.channel ≠ 1 := by
  rw [h.channel_message hm]
  cases m with
  | le k => cases hnone
  | ack v => exact show (0 : UInt8) ≠ 1 by decide
  | data v i p => exact hm.1.channel

/-- The link establishment hears a link-establishment packet, and nothing else. -/
theorem link (h : Arrived n m.frame e) (hm : m.Valid) (hn : 512 ≤ n) :
    (receiveIntact e).2.link = e.link.hear m.lePacket := by
  rw [receiveIntact_link]
  cases m with
  | le k =>
    have hclip : clip n (leFrame k) = leFrame k := by
      refine clip_of_le ?_
      have := Message.length_frame hm
      exact this.trans (by omega)
    have hframe : framePayload (leFrame k) = lePayload k := by
      apply framePayload_sealedFrame rfl
      rw [length_lePayload hm]
      decide
    have hlength : headerLength (leFrame k) = 4 := congrArg Header.length (Message.header_frame hm)
    have hpay := h.payload
    rw [show (Message.le k).frame = leFrame k from rfl, hlength, hclip, hframe] at hpay
    rw [if_pos (show e.receivePacket.channel = 1 from h.channel_message hm),
      whichLePayload_of_take hm hpay]
    rfl
  | ack v =>
    rw [if_neg (h.channel_ne hm rfl)]
    rfl
  | data v i p =>
    rw [if_neg (h.channel_ne hm rfl)]
    rfl

/-- A message that acknowledges the reliable packet being sent has that reported. -/
theorem acknowledged (h : Arrived n m.frame e) (hm : m.Valid) (hnone : m.lePacket = none)
    (hne : seqNumber m.ackValue ≠ e.sequenceNumber) {p : Packet} (hp : e.sendPacket = some p)
    (hr : p.reliable ≠ 0) : (receiveIntact e).1.sent = true := by
  rw [receiveIntact_sent (h.channel_ne hm hnone)]
  refine @receiveAck_sent e m.ackValue ?_ hne p hp hr
  have hack := congrArg Header.ack (h.header_message hm)
  cases m with
  | le k => cases hnone
  | ack v => exact hack
  | data v i p => exact hack

/-- An active engine that is not handed the packet of a data frame has had it before, and owes
an acknowledgement. -/
theorem duplicate {v i : Nat} {p : Packet} (h : Arrived n (Message.data v i p).frame e)
    (hm : (Message.data v i p).Valid) (hact : e.linkEstablishmentState = .active)
    (hrec : (receiveIntact e).1.received = false) :
    seqNumber i ≠ e.ackNumber ∧ (receiveIntact e).2.sendAck = true := by
  have hhead := Message.header_frame hm
  have hne : e.receivePacket.channel ≠ 1 := h.channel_ne hm rfl
  have hne0 : e.receiveIndex ≠ 0 := by
    have hnonempty := hm.1.nonempty
    have hlength := hm.1.encodable.length
    have hidx : e.receiveIndex = p.length.toNat :=
      h.index.trans (congrArg (fun l : UInt16 => (l.toNat : Int)) (congrArg Header.length hhead))
    omega
  have hr1 : e.receivePacket.reliable ≠ 0 := by
    have hrel : e.receivePacket.reliable = p.reliable :=
      h.reliable.trans (congrArg Header.reliable hhead)
    rw [hrel, hm.2]
    decide
  have hseq : headerSeq e.receiveHeader = UInt8.ofNat (seqNumber i) :=
    congrArg Header.seq (h.header_message hm)
  by_cases hnext : headerSeq e.receiveHeader = UInt8.ofNat e.ackNumber
  · rw [receiveIntact_new hne hne0 hact hr1 hnext] at hrec
    simp [Activity.packetReceivedAck] at hrec
  · rw [receiveIntact_duplicate hne hne0 hact hr1 hnext]
    refine ⟨fun heq => hnext ?_, rfl⟩
    rw [hseq, heq]

end Arrived

/-- **An engine hears a message** that comes in between its two delimiters. -/
theorem endOfFrame_hears {n : Nat} {m : Message} {e : Engine} (hdef : Deframes n ⟨false, m.frame⟩ e)
    (harmed : e.receiveArmed = true) (hn : 512 ≤ n) (hm : m.Valid) :
    Hears m (endOfFrame .none e).1 e (endOfFrame .none e).2 := by
  have hclip : clip n m.frame = m.frame := clip_of_le (by have := m.length_frame hm; omega)
  obtain ⟨harr, d, hend⟩ :=
    endOfFrame_of_intact hdef harmed (by rw [hclip]; exact m.intact_frame hm) .none
  rw [hend, Activity.none_or]
  refine ⟨?_, fun hnone hne p hp hr => harr.acknowledged hm hnone hne hp hr,
    fun v i p hdata hact hrec => ?_⟩
  · show (receiveIntact (decoded e)).2.link = _
    rw [harr.link hm hn, decoded_link]
  · subst hdata
    exact harr.duplicate hm hact hrec

/-! ## Two stations at rest -/

/-- Both stations are at rest, and `y` is next to send. -/
structure Turn (x y : Station) : Prop where
  reachable : LinkReachable x y
  left : x.AtRest
  right : y.AtRest
  delay : x.engine.delay ≠ 0

/-- Both stations are at rest, and one of them is next. -/
def Resting (s : Station × Station) : Prop := Turn s.1 s.2 ∨ Turn s.2 s.1

/-- The station is between two frames as far as its receive half is concerned. -/
def Station.Between (x : Station) : Prop :=
  x.engine.receiveIndex = -4 ∧ x.engine.receiveSlipEscape = false

instance (x : Station) : Decidable x.Between := inferInstanceAs (Decidable (_ ∧ _))

/-- What may still garble a frame: something left behind on the line, and something that has come in
without its end. -/
def Station.leftovers (x : Station) : Nat := (if x.Clean then 0 else 1) + if x.Between then 0 else 1

/-- What is still to be delivered and acknowledged. -/
def undone (s : Station × Station) : Nat :=
  2 * (s.1.submitted.length + s.2.submitted.length) - (s.1.score + s.2.score)

/-- What is still to be done, the leftovers last. -/
def toDo (s : Station × Station) : Nat := 5 * undone s + (s.1.leftovers + s.2.leftovers)

theorem Station.leftovers_le (x : Station) : x.leftovers ≤ 2 := by
  unfold Station.leftovers
  split <;> split <;> decide

theorem Turn.paused {x y : Station} (h : Turn x y) : x.Paused := ⟨h.left.idle, h.delay⟩

theorem Deframes.between_iff {n : Nat} {p : SlipCode.Partial UInt8} {x : Station}
    (h : Deframes n p x.engine) (harmed : x.engine.receiveArmed = true) :
    x.Between ↔ p = .empty := by
  obtain ⟨escaped, s⟩ := p
  have hidx : x.engine.receiveIndex =
      (min s.length (4 + x.engine.receivePacket.length.toNat) : Nat) - 4 :=
    (h.collects harmed).index
  have hesc : x.engine.receiveSlipEscape = escaped := h.escaped
  constructor
  · rintro ⟨hi, he⟩
    rw [hi] at hidx
    have hnil : s = [] := List.length_eq_zero_iff.1 (by omega)
    rw [hnil, ← hesc, he]
    rfl
  · rintro ⟨⟩
    exact ⟨hidx, hesc⟩

namespace LinkReachable
variable {x y : Station}

/-- Nothing more can be delivered or acknowledged than has been submitted. -/
theorem score_le (h : LinkReachable x y) :
    x.score + y.score ≤ 2 * (x.submitted.length + y.submitted.length) := by
  obtain ⟨a, b, inX, outX, inY, outY, hl⟩ := h.runs
  have hxy := hl.inOrder
  have hyx := hl.symm.inOrder
  have h₁ := hxy.received.length_le
  have h₂ := (hxy.cleared.trans hxy.received).length_le
  have h₃ := hyx.received.length_le
  have h₄ := (hyx.cleared.trans hyx.received).length_le
  unfold Station.score
  omega

/-- What the receive half of a station has read. -/
theorem deframes (h : LinkReachable x y) :
    ∃ n p o, 512 ≤ n ∧ Deframes n p x.engine ∧ ((ubcspSlip x.stray).run p x.inbox).1 =
      ⟨false, o⟩ := by
  obtain ⟨a, b, inX, outX, inY, outY, hl⟩ := h.runs
  obtain ⟨n, p, hn, hdef, o, ss, hrun, -⟩ := hl.left.inbox
  exact ⟨n, p, o, hn, hdef, by rw [hrun]⟩

/-- A frame with its end leaves the receiver between two frames. -/
theorem deframes_closed (h : LinkReachable x y) {o : List UInt8} {bad : Bool}
    (hx : x.flight = [⟨o, true, bad⟩]) :
    ∃ n p, 512 ≤ n ∧ Deframes n p y.engine ∧
      ((ubcspSlip y.stray).run p (y.inbox ++ (slipFrame :: o ++ [slipFrame]))).1 = .empty := by
  obtain ⟨a, b, inX, outX, inY, outY, hl⟩ := h.runs
  obtain ⟨ms, ms', hflight, -, -⟩ := hl.left.line
  rw [hx] at hflight
  obtain ⟨n, p, hn, hdef, o', ss, hrun, -⟩ := hl.right.inbox
  cases hflight with
  | cons hf _ =>
    obtain ⟨s, hs, -⟩ := hf.octets (fun hlost => absurd hlost.1 (by simp))
    have hs' : o = slipStuff s := hs
    have hwire : (ubcspSlip y.stray).run ⟨false, o'⟩ (slipFrame :: o ++ [slipFrame]) =
        (.empty, [o', s]) := by
      rw [hs']
      exact (ubcspSlip y.stray).run_wire o' s
    refine ⟨n, p, hn, hdef, ?_⟩
    rw [SlipCode.run_append, hrun]
    dsimp only
    rw [hwire]

end LinkReachable

/-- A run without losses leaves less to be done, if anything has been reported. -/
theorem GoesOn.undone_le {s s' : Station × Station} (h : GoesOn s s')
    (hreach : LinkReachable s.1 s.2) :
    undone s' ≤ undone s ∧
    (s.1.score + s.2.score < s'.1.score + s'.2.score → undone s' < undone s) := by
  obtain ⟨h₁, h₂⟩ := h.grows
  have hle := (h.reachable_pair hreach).score_le
  have hs₁ := h₁.score_le
  have hs₂ := h₂.score_le
  unfold undone
  rw [h₁.submitted, h₂.submitted] at hle ⊢
  omega

/-- A packet that has been handed over on the way. -/
theorem GoesOn.undone_lt {s s' s'' : Station × Station} (h : GoesOn s s') (h' : GoesOn s' s'')
    (hreach : LinkReachable s.1 s.2)
    (hmore : s'.1.received.length + s'.2.received.length <
      s''.1.received.length + s''.2.received.length) :
    undone s'' < undone s := by
  refine ((h.trans h').undone_le hreach).2 ?_
  have hs₁ := h.grows.1.score_le
  have hs₂ := h.grows.2.score_le
  have hc₁ := h'.grows.1.cleared.length_le
  have hc₂ := h'.grows.2.cleared.length_le
  unfold Station.score at hs₁ hs₂ ⊢
  omega

/-! ## Coming to rest -/

theorem Packet.blank_room {n : Nat} (h : n < 2 ^ 16) :
    (Packet.blank n).length.toNat = n ∧ (Packet.blank n).payload.length = n :=
  ⟨(UInt16.toNat_ofNat').trans (Nat.mod_eq_of_lt h), List.length_replicate⟩

/-- A station can be given a receive packet. -/
theorem Station.arms (x y : Station) : ∃ x', GoesOn (x, y)
    (x', y) ∧ x'.engine.receiveArmed = true := by
  cases harmed : x.engine.receiveArmed with
  | true => exact ⟨x, .refl, harmed⟩
  | false =>
    obtain ⟨hlen, hroom⟩ := @Packet.blank_room 512 (by decide)
    exact ⟨_, .of_step
      (.rearm (.blank 512) harmed (Nat.le_of_eq hlen.symm)
      (Nat.le_of_eq (hlen.trans hroom.symm))), rfl⟩

/-- **Two stations come to rest**, or one of them is handed a packet on the way. -/
theorem LinkReachable.rests_or_lowers {x y : Station} (h : LinkReachable x y) :
    ∃ s, GoesOn (x, y) s ∧ (Turn s.1 s.2 ∨ LinkReachable s.1 s.2 ∧ undone s < undone (x, y)) := by
  -- both stations are armed, and pause
  obtain ⟨x₁, hrun₁, harmx⟩ := x.arms y
  obtain ⟨y₁, hrun₂, harmy⟩ := y.arms x₁
  have hrun : GoesOn (x, y) (x₁, y₁) := hrun₁.trans hrun₂.swap
  obtain ⟨x₂, hrun₃, hunread₃, hpause₃⟩ := (hrun.reachable h).pauses
  replace hrun := hrun.trans hrun₃
  obtain ⟨y₂, hrun₄, hunread₄, hpause₄⟩ := (hrun.reachable h).symm.pauses
  replace hrun := hrun.trans hrun₄.swap
  replace harmx : x₂.engine.receiveArmed = true :=
    (congrArg Rx.receiveArmed hunread₃.rx).trans harmx
  replace harmy : y₂.engine.receiveArmed = true :=
    (congrArg Rx.receiveArmed hunread₄.rx).trans harmy
  -- what is on the lines is delivered, and the first station reads
  replace hrun := hrun.trans (@goesOn_deliver x₂.flight [] x₂ y₂ (List.append_nil _).symm)
  replace hrun :=
    hrun.trans (@goesOn_deliver y₂.flight [] { y₂ with inbox := y₂.inbox ++ arrives x₂.flight }
    { x₂ with flight := [] } (List.append_nil _).symm).swap
  generalize hx₃ : ({ ({ x₂ with flight := [] } : Station) with
    inbox := x₂.inbox ++ arrives y₂.flight } : Station) = x₃ at hrun
  generalize hy₃ : ({ ({ y₂ with inbox := y₂.inbox ++ arrives x₂.flight } : Station) with
    flight := [] } : Station) = y₃ at hrun
  have hpausex : x₃.Paused := by subst hx₃; exact ⟨hpause₃.idle, hpause₃.delay⟩
  have hpausey : y₃.Paused := by subst hy₃; exact ⟨hpause₄.idle, hpause₄.delay⟩
  have hflightx : x₃.flight = [] := by subst hx₃; rfl
  have hflighty : y₃.flight = [] := by subst hy₃; rfl
  replace harmx : x₃.engine.receiveArmed = true := by subst hx₃; exact harmx
  replace harmy : y₃.engine.receiveArmed = true := by subst hy₃; exact harmy
  obtain ⟨n, p, o, -, hdef, -⟩ := (hrun.reachable h).deframes
  have hread : GoesOn (x₃, y₃) (x₃.poll x₃.inbox.length, y₃) := .of_step (.poll _)
  rcases hpausex.listens harmx hflightx hdef hpausex.attends with hmore | ⟨-, hrest, -⟩
  · exact ⟨_, hrun.trans hread, Or.inr ⟨(hrun.trans hread).reachable h,
      hrun.undone_lt hread h (Nat.add_lt_add_right hmore _)⟩⟩
  replace hrun := hrun.trans hread
  generalize x₃.poll x₃.inbox.length = x₄ at hrest hrun
  -- it pauses again, and the second station reads
  obtain ⟨x₅, hrun₅, hunread₅, hpause₅⟩ := (hrun.reachable h).pauses
  replace hrun := hrun.trans hrun₅
  replace hrun := hrun.trans (@goesOn_deliver x₅.flight [] x₅ y₃ (List.append_nil _).symm)
  have hrest₅ : Station.AtRest { x₅ with flight := [] } :=
    ⟨hpause₅.idle, rfl, hunread₅.inbox.trans hrest.inbox,
      (congrArg Rx.receiveArmed hunread₅.rx).trans hrest.armed⟩
  generalize hy₆ : ({ y₃ with inbox := y₃.inbox ++ arrives x₅.flight } : Station) = y₆ at hrun
  replace hpausey : y₆.Paused := by subst hy₆; exact ⟨hpausey.idle, hpausey.delay⟩
  replace hflighty : y₆.flight = [] := by subst hy₆; exact hflighty
  replace harmy : y₆.engine.receiveArmed = true := by subst hy₆; exact harmy
  obtain ⟨n, p, o, -, hdef, -⟩ := (hrun.reachable h).symm.deframes
  have hread : GoesOn ({ x₅ with flight := [] }, y₆)
    ({ x₅ with flight := [] }, y₆.poll y₆.inbox.length) :=
    GoesOn.swap (.of_step (.poll _))
  rcases hpausey.listens harmy hflighty hdef hpausey.attends with hmore | ⟨-, hrest₆, -⟩
  · exact ⟨_, hrun.trans hread, Or.inr ⟨(hrun.trans hread).reachable h,
      hrun.undone_lt hread h (Nat.add_lt_add_left hmore _)⟩⟩
  · exact ⟨_, hrun.trans hread,
      Or.inl ⟨(hrun.trans hread).reachable h, hrest₅, hrest₆, hpause₅.delay⟩⟩

/-- **Two stations come to rest** in the end. -/
theorem LinkReachable.rests {x y : Station} (h : LinkReachable x y) :
    ∃ s, GoesOn (x, y) s ∧ Turn s.1 s.2 :=
  @exists_goal_of_lowering (Station × Station) Lossless (fun s => LinkReachable s.1 s.2)
    (fun s => Turn s.1 s.2)
    undone (fun _ hs => hs.rests_or_lowers) (x, y) h

/-! ## One turn -/

/-- There is a way on to a pair at rest of which less is to be done. -/
def Lowers (s : Station × Station) : Prop := ∃ s', GoesOn s s' ∧ Resting s' ∧ toDo s' < toDo s

theorem toDo_swap (s : Station × Station) : toDo s.swap = toDo s := by
  unfold toDo undone
  dsimp only [Prod.swap]
  omega

theorem Resting.swap {s : Station × Station} (h : Resting s) : Resting s.swap := Or.symm h

namespace Lowers
variable {s s' : Station × Station}

theorem of_swap (h : Lowers s.swap) : Lowers s := by
  obtain ⟨s', hrun, hrest, hless⟩ := h
  refine ⟨s'.swap, hrun.symm, hrest.swap, ?_⟩
  rw [toDo_swap, ← toDo_swap s]
  exact hless

theorem of_goesOn (hrun : GoesOn s s') (hle : toDo s' ≤ toDo s) (h : Lowers s') : Lowers s := by
  obtain ⟨s'', hrun', hrest, hless⟩ := h
  exact ⟨s'', hrun.trans hrun', hrest, hless.trans_le hle⟩

/-- It is enough that something has been delivered or acknowledged: leftovers count for less. -/
theorem of_undone (hrun : GoesOn s s') (hreach : LinkReachable s.1 s.2)
    (hless : undone s' < undone s) :
    Lowers s := by
  obtain ⟨s'', hrun', hturn⟩ := (hrun.reachable_pair hreach).rests
  have hle := (hrun'.undone_le (hrun.reachable_pair hreach)).1
  have h₁ := s''.1.leftovers_le
  have h₂ := s''.2.leftovers_le
  refine ⟨s'', hrun.trans hrun', Or.inl hturn, ?_⟩
  have hle' : undone s'' ≤ undone s' := hle
  unfold toDo
  omega

end Lowers

/-- The stations `x` and `y` have become `x'` and `y'`, and the message of `y` has been heard by `x`
without anything new to report. -/
structure TakesTurn (x y x' y' : Station) : Prop where
  goesOn : GoesOn (x, y) (x', y')
  turn : Turn y' x'
  toDo : toDo (x', y') = toDo (x, y)
  scoreLeft : x'.score = x.score
  scoreRight : y'.score = y.score
  link : (x'.engine.link, y'.engine.link) = Ubcsp.turn (y.engine.link, x.engine.link)
  acknowledged : ∀ m, y.next = some m → m.lePacket = none → x.engine.sendPacket ≠ none →
    seqNumber m.ackValue = x.engine.sequenceNumber
  duplicate : ∀ v i p, y.next = some (.data v i p) → x.engine.linkEstablishmentState = .active →
    seqNumber i ≠ x.engine.ackNumber ∧ x'.engine.sendAck = true

/-- A station keeps what it has left over. -/
theorem leftovers_congr {x x' : Station} (hclean : x'.Clean ↔ x.Clean)
    (hbetween : x'.Between ↔ x.Between) :
    x'.leftovers = x.leftovers := by
  unfold Station.leftovers
  simp only [hclean, hbetween]

/-- What was left over on one of the sides is less once nothing is. -/
theorem leftovers_lt {x x' y y' : Station} (hclean : y'.Clean) (hbetween : x'.Between)
    (hx : x'.Clean ↔ x.Clean) (hy : y'.Between ↔ y.Between) (hleft : ¬ (y.Clean ∧ x.Between)) :
    x'.leftovers + y'.leftovers < x.leftovers + y.leftovers := by
  unfold Station.leftovers
  rw [if_pos hbetween, if_pos hclean]
  simp only [hx, hy]
  rcases not_and_or.1 hleft with hnot | hnot
  · rw [if_neg hnot]
    split <;> split <;> split <;> decide
  · rw [if_neg hnot]
    split <;> split <;> split <;> decide

theorem Unread.between_iff {x x' : Station} (h : Unread x x') : x'.Between ↔ x.Between := by
  have hidx : x'.engine.receiveIndex = x.engine.receiveIndex := congrArg Rx.receiveIndex h.rx
  have hesc : x'.engine.receiveSlipEscape = x.engine.receiveSlipEscape :=
    congrArg Rx.receiveSlipEscape h.rx
  unfold Station.Between
  rw [hidx, hesc]

theorem Unread.score {x x' : Station} (h : Unread x x') : x'.score = x.score := by
  unfold Station.score
  rw [h.cleared, h.received]

/-- The link-establishment packet that is sent next is the next message. -/
theorem Station.lePacket_next {x : Station} :
    x.engine.link.next = x.next.bind Message.lePacket := by
  unfold Station.next
  cases x.engine.link.next with
  | some k => rfl
  | none =>
    dsimp only
    cases x.engine.sendPacket with
    | some p => rfl
    | none =>
      dsimp only
      split <;> rfl

/-- A station that has read without being handed anything, and without anything acknowledged, has
heard the message `m`. -/
theorem Attends.hears {x x' : Station} {m : Message} (ha : Attends x x')
    (hbetween : x.Between) {n : Nat} {p : SlipCode.Partial UInt8} (hn : 512 ≤ n)
    (hdef : Deframes n p x.engine) (harmed : x.engine.receiveArmed = true) (hm : m.Valid)
    (hinbox : x.inbox = slipFrame :: slipStuff m.frame ++ [slipFrame]) :
    Hears m (receiveLoop x.stray x.inbox .none x.engine).1 x.engine x'.engine := by
  have hempty := (hdef.between_iff harmed).1 hbetween
  subst hempty
  obtain ⟨r, hr, hdef', hloop⟩ := @receiveLoop_frame x.stray n m.frame x.engine hdef harmed
  have hears := endOfFrame_hears hdef' hr hn hm
  have hengine := ha.engine
  obtain ⟨d, hd⟩ := finishPoll_eq 0 (receiveLoop x.stray x.inbox .none x.engine).2.2
  rw [hd] at hengine
  rw [hinbox, hloop] at hengine ⊢
  rw [hengine]
  exact ⟨hears.link, hears.acknowledged, hears.duplicate⟩

/-- What has been said is delivered, behind what had been abandoned. -/
theorem Turn.delivers {x y y' : Station} (h : Turn x y) (hrun : GoesOn (y, x) (y', x))
    {o : List UInt8} {bad : Bool}
    (hflight : y'.flight = y.flight ++ y.sending.toList ++ [⟨o, true, bad⟩]) :
    ∃ n p, Deframes n p x.engine ∧
      ((ubcspSlip x.stray).run p (arrives y.sending.toList ++ (slipFrame :: o ++ [slipFrame]))).1 =
        .empty ∧
      GoesOn (x, y)
        ({ x with inbox := arrives y.sending.toList ++ (slipFrame :: o ++ [slipFrame]) }, { y' with
          flight := [] }) := by
  rw [h.right.flight, List.nil_append] at hflight
  have hrun₁ := hrun.swap.trans (goesOn_deliver y.sending.toList [⟨o, true, bad⟩] hflight).swap
  obtain ⟨n, p, -, hdef, hread⟩ := (hrun₁.reachable h.reachable).symm.deframes_closed rfl
  have hrun₂ := hrun₁.trans (@goesOn_deliver [⟨o, true, bad⟩] [] { y' with
    flight := [⟨o, true, bad⟩] } _ rfl).swap
  rw [arrives_closed] at hrun₂
  dsimp only at hrun₂ hread
  rw [h.left.inbox, List.nil_append] at hrun₂ hread
  exact ⟨n, p, hdef, hread, hrun₂⟩

/-- What has come in is read, unless a packet is handed over. -/
theorem Turn.reads {x y y' : Station} (h : Turn x y) {inbox : List UInt8}
    (hrun : GoesOn (x, y) ({ x with inbox := inbox }, y')) (hrest : y'.AtRest)
    (hdelay : y'.engine.delay ≠ 0) {n : Nat} {p : SlipCode.Partial UInt8}
    (hdef : Deframes n p x.engine) (hread : ((ubcspSlip x.stray).run p inbox).1 = .empty) :
    Lowers (x, y) ∨ ∃ x', GoesOn (x, y) (x', y') ∧ Attends { x with inbox := inbox } x' ∧
      (receiveLoop x.stray inbox .none x.engine).1.received = false ∧ Turn y' x' ∧ x'.Between ∧
      (x'.Clean ↔ x.Clean) := by
  have hpaused : Station.Paused { x with inbox := inbox } := ⟨h.left.idle, h.delay⟩
  have hattends := hpaused.attends
  have hstep : GoesOn ({ x with inbox := inbox }, y')
    (Station.poll inbox.length { x with inbox := inbox }, y') :=
    .of_step (.poll _)
  dsimp only at hattends
  generalize Station.poll inbox.length { x with inbox := inbox } = x' at hattends hstep
  have hreach := h.reachable
  rcases hpaused.listens h.left.armed h.left.flight hdef hattends with hmore | ⟨hrec, hrest', hdef'⟩
  · refine Or.inl (.of_undone (hrun.trans hstep) hreach (hrun.undone_lt hstep hreach ?_))
    exact Nat.add_lt_add_right hmore _
  · rw [show (ubcspSlip ({ x with inbox := inbox } : Station).stray).run p ({ x with
      inbox := inbox } : Station).inbox =
      (ubcspSlip x.stray).run p inbox from rfl, hread] at hdef'
    refine Or.inr ⟨x', hrun.trans hstep, hattends, hrec,
      ⟨((hrun.trans hstep).reachable hreach).symm, hrest, hrest', hdelay⟩,
        (hdef'.between_iff hrest'.armed).2 rfl, ?_⟩
    have hescape : x'.engine.sendSlipEscape = x.engine.sendSlipEscape := by
      have hkept := (receiveLoop_kept x.stray inbox .none x.engine).escape
      obtain ⟨d, hd⟩ := finishPoll_eq 0 (receiveLoop x.stray inbox .none x.engine).2.2
      rw [hattends.engine, hd]
      exact hkept
    unfold Station.Clean
    rw [hescape, hattends.sending]

/-- **A turn in which something is said.** -/
theorem Turn.said {x y y' : Station} (h : Turn x y) (hrun : GoesOn (y, x) (y', x))
    (hunread : Unread y y') (hpause : y'.Paused) (hlink : y'.engine.link = y.engine.link.sent)
    {m : Message} {o : List UInt8} {bad : Bool} (hnext : y.next = some m) (hm : m.Valid)
    (hclean : y'.Clean) (hflight : y'.flight = y.flight ++ y.sending.toList ++ [⟨o, true, bad⟩])
    (ho : y.engine.sendSlipEscape = 0 → o = slipStuff m.frame) :
    Lowers (x, y) ∨ ∃ x' y', TakesTurn x y x' y' := by
  have hreach := h.reachable
  obtain ⟨n, p, hdef, hread, hrun₁⟩ := h.delivers hrun hflight
  have hrest : Station.AtRest { y' with flight := [] } :=
    ⟨hpause.idle, rfl, hunread.inbox.trans h.right.inbox,
      (congrArg Rx.receiveArmed hunread.rx).trans h.right.armed⟩
  rcases h.reads hrun₁ hrest hpause.delay hdef hread with
    hlower | ⟨x', hrun₂, hattends, hrec, hturn, hbetween', hclean'⟩
  · exact Or.inl hlower
  by_cases hleft : y.Clean ∧ x.Between
  · -- the whole frame comes to a receiver between two frames
    obtain ⟨hcleany, hbetweenx⟩ := hleft
    have hinbox : arrives y.sending.toList ++ (slipFrame :: o ++ [slipFrame]) =
        slipFrame :: slipStuff m.frame ++ [slipFrame] := by
      rw [hcleany.2, ho hcleany.1]
      rfl
    rw [hinbox] at hattends hrec
    obtain ⟨n', p', o', hn', hdef', -⟩ := hreach.deframes
    have hears := hattends.hears hbetweenx hn' hdef' h.left.armed hm rfl
    by_cases hscore : x.score + y.score < x'.score + y'.score
    · exact Or.inl (.of_undone hrun₂ hreach ((hrun₂.undone_le hreach).2 hscore))
    · right
      have hscorey : y'.score = y.score := hunread.score
      have hscorex : x'.score = x.score := by
        have hle := hrun₂.grows.1.score_le
        dsimp only at hle
        omega
      obtain ⟨hcleared, -⟩ := hrun₂.grows.1.eq_of_score (Nat.le_of_eq hscorex)
      refine ⟨x', _, hrun₂, hturn, ?_, hscorex, hscorey, ?_, ?_, ?_⟩
      · have hleftx : x'.leftovers = x.leftovers :=
          leftovers_congr hclean' (iff_of_true hbetween' hbetweenx)
        have hlefty : Station.leftovers { y' with flight := [] } = y.leftovers :=
          leftovers_congr (iff_of_true hclean hcleany) hunread.between_iff
        have hsubx : x'.submitted = x.submitted := hrun₂.grows.1.submitted
        have hscorey' : Station.score { y' with flight := [] } = y.score := hscorey
        unfold toDo undone
        rw [hleftx, hlefty, hsubx, hscorex, hscorey']
        rw [hunread.submitted]
      · rw [hears.link, turn, Station.lePacket_next, hnext]
        exact congrArg _ hlink
      · intro m' hm' hle hpacket
        obtain rfl := Option.some.inj (hnext.symm.trans hm')
        obtain ⟨p, hp⟩ := Option.ne_none_iff_exists'.1 hpacket
        by_contra hne
        -- the packet would have been cleared
        have hsent := hears.acknowledged hle hne p hp (hreach.sendsReliably p hp)
        have hmore := hattends.cleared
        rw [if_pos hsent, hcleared] at hmore
        have hlen := congrArg List.length hmore
        rw [List.length_append, hp] at hlen
        simp at hlen
      · intro v i p hdata hact
        obtain rfl := Option.some.inj (hnext.symm.trans hdata)
        exact hears.duplicate v i p rfl hact hrec
  · -- something was left over, and is not any more
    left
    have hless : x'.leftovers + Station.leftovers { y' with flight := [] } <
      x.leftovers + y.leftovers :=
      leftovers_lt hclean hbetween' hclean' hunread.between_iff hleft
    have hundone := (hrun₂.undone_le hreach).1
    exact ⟨_, hrun₂, Or.inr hturn, Nat.add_lt_add_of_le_of_lt (Nat.mul_le_mul_left 5 hundone) hless⟩

/-- **One turn**: it gets something done, or it is a turn of the protocol on messages. -/
theorem Turn.next {x y : Station} (h : Turn x y) :
    Lowers (x, y) ∨ ∃ x' y', TakesTurn x y x' y' := by
  obtain ⟨y', hrun, hunread, hpause, hlink, hspoken⟩ := h.reachable.symm.speaks h.right.idle
  cases hspoken with
  | said hnext hm hclean hflight ho =>
      exact h.said hrun hunread hpause hlink hnext hm hclean hflight ho
  | silent hnone hflight hsending hescape =>
    have hrest : y'.AtRest :=
      ⟨hpause.idle, hflight.trans h.right.flight, hunread.inbox.trans h.right.inbox,
        (congrArg Rx.receiveArmed hunread.rx).trans h.right.armed⟩
    have hleft : y'.leftovers = y.leftovers := by
      refine leftovers_congr ?_ hunread.between_iff
      unfold Station.Clean
      rw [hescape, hsending]
    refine Or.inr ⟨x, y', hrun.swap,
      ⟨(hrun.swap.reachable h.reachable).symm, hrest, h.left, hpause.delay⟩, ?_, rfl,
        hunread.score, ?_, ?_, ?_⟩
    · unfold toDo undone
      dsimp only
      rw [hleft, hunread.score, hunread.submitted]
    · rw [turn, Station.lePacket_next, hnone, hlink]
      rfl
    · intro m hm
      cases hnone.symm.trans hm
    · intro v i p hm
      cases hnone.symm.trans hm

/-! ## Link establishment -/

/-- Link establishment is over on both sides. -/
def Established (s : Station × Station) : Prop := s.1.engine.link.Over ∧ s.2.engine.link.Over

/-- **Link establishment comes to its end**, or something gets done on the way. -/
theorem Turn.establishes {x y : Station} (h : Turn x y) {n : Nat}
    (hn : OverIn n (y.engine.link, x.engine.link)) :
    Lowers (x, y) ∨ ∃ s, GoesOn (x, y) s ∧ Resting s ∧ toDo s = toDo (x, y) ∧ Established s := by
  induction n generalizing x y with
  | zero => exact Or.inr ⟨_, .refl, Or.inl h, rfl, hn.symm⟩
  | succ n ih =>
    rcases hn with hover | hn
    · exact Or.inr ⟨_, .refl, Or.inl h, rfl, hover.symm⟩
    · rcases h.next with hlower | ⟨x', y', ht⟩
      · exact Or.inl hlower
      · rw [← ht.link] at hn
        have hsame : toDo (y', x') = toDo (x, y) := (toDo_swap (x', y')).trans ht.toDo
        rcases ih ht.turn hn with hlower | ⟨s, hrun, hrest, htodo, hover⟩
        · exact Or.inl (.of_goesOn ht.goesOn (Nat.le_of_eq ht.toDo) (.of_swap hlower))
        · refine Or.inr ⟨s.swap, ht.goesOn.trans hrun.symm, hrest.swap, ?_, hover.symm⟩
          rw [toDo_swap, htodo, hsame]

/-! ## Packets and acknowledgements -/

namespace TakesTurn
variable {x y x' y' : Station}

/-- After link establishment the turns of the protocol change nothing of it. -/
theorem established (h : TakesTurn x y x' y') (hover : Established (x, y)) :
    Established (x', y') := by
  have hlink := h.link
  rw [turn_over hover.symm] at hlink
  obtain ⟨hx, hy⟩ := Prod.mk.inj hlink
  exact ⟨by rw [hx]; exact hover.1, by rw [hy]; exact hover.2⟩

end TakesTurn

/-- What the engine holds has been submitted and not been cleared. -/
theorem LinkReachable.held {x y : Station} (h : LinkReachable x y) :
    x.submitted = x.cleared ++ x.engine.sendPacket.toList := by
  obtain ⟨a, b, inX, outX, inY, outY, hl⟩ := h.runs
  exact hl.inOrder.outstanding

/-- As long as nothing new is reported, the numbers and the packet are the same. -/
theorem LinkReachable.kept {x y x' y' : Station} (h : LinkReachable x y) (h' : LinkReachable x' y')
    (hgrows : Grows x x') (hscore : x'.score = x.score) :
    x'.engine.ackNumber = x.engine.ackNumber ∧ x'.engine.sequenceNumber = x.engine.sequenceNumber ∧
      x'.engine.sendPacket = x.engine.sendPacket := by
  obtain ⟨hcleared, hreceived⟩ := hgrows.eq_of_score (Nat.le_of_eq hscore)
  refine ⟨?_, ?_, ?_⟩
  · rw [h.symm.numbered.expected, h'.symm.numbered.expected, hreceived]
  · rw [h.numbered.sequence, h'.numbered.sequence, hcleared]
  · have hheld := h'.held
    rw [hgrows.submitted, hcleared, h.held] at hheld
    have hlists := congrArg List.head? (List.append_cancel_left hheld)
    rw [Option.head?_toList, Option.head?_toList] at hlists
    exact hlists.symm

/-- After link establishment a station says what it has received, with its packet or without. -/
theorem Station.next_over {x : Station} (hover : x.engine.link.Over)
    (hsay : x.engine.sendPacket ≠ none ∨ x.engine.sendAck = true) :
    ∃ m, x.next = some m ∧ m.lePacket = none ∧ m.ackValue = x.received.length := by
  unfold Station.next
  rw [hover.2]
  dsimp only
  cases hp : x.engine.sendPacket with
  | some p => exact ⟨_, rfl, rfl, rfl⟩
  | none =>
    have hack : x.engine.sendAck = true := hsay.resolve_left fun hne => hne hp
    exact ⟨_, if_pos hack, rfl, rfl⟩

/-- **A packet is handed over or acknowledged** within two turns: the other side takes it, or has it
already and says so. -/
theorem Turn.delivers_packet {x y : Station} (h : Turn x y) (hover : Established (x, y))
    (hpacket : y.engine.sendPacket ≠ none) : Lowers (x, y) := by
  rcases h.next with hlower | ⟨x', y', ht⟩
  · exact hlower
  obtain ⟨p, hp⟩ := Option.ne_none_iff_exists'.1 hpacket
  have hnext : y.next = some (.data y.received.length y.cleared.length p) := by
    unfold Station.next
    rw [hover.2.2, hp]
  obtain ⟨hnew, hack⟩ := ht.duplicate _ _ _ hnext hover.1.1
  obtain ⟨hexpects, -, -⟩ := h.reachable.kept ht.turn.reachable.symm ht.goesOn.grows.1 ht.scoreLeft
  obtain ⟨-, hnumber, hholds⟩ :=
    h.reachable.symm.kept ht.turn.reachable ht.goesOn.grows.2 ht.scoreRight
  -- the other side has the packet, and is next to say so
  rcases ht.turn.next with hlower | ⟨y'', x'', ht'⟩
  · exact .of_goesOn ht.goesOn (Nat.le_of_eq ht.toDo) (.of_swap hlower)
  · obtain ⟨m, hm, hle, hvalue⟩ := Station.next_over (ht.established hover).1 (Or.inr hack)
    have hsame := ht'.acknowledged m hm hle (by rw [hholds]; exact hpacket)
    rw [hvalue, ← ht.turn.reachable.numbered.expected, hexpects, hnumber,
      h.reachable.symm.numbered.sequence] at hsame
    exact absurd hsame.symm hnew

/-- Both engines are active, and neither holds a packet. -/
def Quiet (s : Station × Station) : Prop :=
  Established s ∧ s.1.engine.sendPacket = none ∧ s.2.engine.sendPacket = none

theorem Turn.quiet_or_lowers {x y : Station} (h : Turn x y) (hover : Established (x, y)) :
    Quiet (x, y) ∨ Lowers (x, y) := by
  by_cases hy : y.engine.sendPacket = none
  · by_cases hx : x.engine.sendPacket = none
    · exact Or.inl ⟨hover, hx, hy⟩
    · right
      rcases h.next with hlower | ⟨x', y', ht⟩
      · exact hlower
      · obtain ⟨-, -, hholds⟩ :=
          h.reachable.kept ht.turn.reachable.symm ht.goesOn.grows.1 ht.scoreLeft
        have hlower := ht.turn.delivers_packet (ht.established hover).symm
          (by rw [hholds]; exact hx)
        exact .of_goesOn ht.goesOn (Nat.le_of_eq ht.toDo) (.of_swap hlower)
  · exact Or.inr (h.delivers_packet hover hy)

/-- **From two stations at rest** less can be done, until nothing is left. -/
theorem Resting.quiet_or_lowers {s : Station × Station} (h : Resting s) :
    ∃ s', GoesOn s s' ∧ (Quiet s' ∨ Resting s' ∧ toDo s' < toDo s) := by
  have of_lowers : ∀ {s : Station × Station}, Lowers s →
      ∃ s', GoesOn s s' ∧ (Quiet s' ∨ Resting s' ∧ toDo s' < toDo s) :=
    fun ⟨s', hrun, hlower⟩ => ⟨s', hrun, Or.inr hlower⟩
  have one : ∀ {x y : Station}, Turn x y →
      Lowers (x, y) ∨ ∃ s, GoesOn (x, y) s ∧ toDo s = toDo (x, y) ∧ (Quiet s ∨ Lowers s) := by
    intro x y ht
    rcases ht.establishes (established_of_faces ht.reachable.symm.faces ht.reachable.faces) with
      hlower | ⟨s, hrun, hrest | hrest, htodo, hover⟩
    · exact Or.inl hlower
    · exact Or.inr ⟨s, hrun, htodo, hrest.quiet_or_lowers hover⟩
    · refine Or.inr ⟨s, hrun, htodo, ?_⟩
      rcases hrest.quiet_or_lowers hover.symm with hquiet | hlower
      · exact Or.inl ⟨hover, hquiet.2.2, hquiet.2.1⟩
      · exact Or.inr (.of_swap hlower)
  have both : ∀ {x y : Station}, Turn x y →
      ∃ s', GoesOn (x, y) s' ∧ (Quiet s' ∨ Resting s' ∧ toDo s' < toDo (x, y)) := by
    intro x y ht
    rcases one ht with hlower | ⟨s, hrun, htodo, hquiet | hlower⟩
    · exact of_lowers hlower
    · exact ⟨s, hrun, Or.inl hquiet⟩
    · exact of_lowers (.of_goesOn hrun (Nat.le_of_eq htodo) hlower)
  rcases h with ht | ht
  · exact both ht
  · obtain ⟨s', hrun, hquiet | ⟨hrest, hless⟩⟩ := both ht
    · exact ⟨s'.swap, hrun.symm, Or.inl ⟨hquiet.1.symm, hquiet.2.2, hquiet.2.1⟩⟩
    · refine ⟨s'.swap, hrun.symm, Or.inr ⟨hrest.swap, ?_⟩⟩
      rw [toDo_swap, ← toDo_swap s]
      exact hless

/-! ## The result -/

/-- All that has been submitted to `x` has been handed over by `y` and acknowledged, and `x` may
submit more. -/
structure Settled (x y : Station) : Prop where
  active : x.engine.linkEstablishmentState = .active
  delivered : y.received = x.submitted
  acknowledged : x.cleared = x.submitted
  canSend : x.canSend = true

theorem LinkReachable.settled {x y : Station} (h : LinkReachable x y) (hover : x.engine.link.Over)
    (hnone : x.engine.sendPacket = none) : Settled x y := by
  obtain ⟨a, b, inX, outX, inY, outY, hl⟩ := h.runs
  have horder := hl.inOrder
  have hcleared : x.cleared = x.submitted := by
    rw [horder.outstanding, hnone, Option.toList_none, List.append_nil]
  refine ⟨hover.1, ?_, hcleared, (h.slot hover.1).2 hnone⟩
  have hle : x.submitted.length ≤ y.received.length := hcleared ▸ horder.cleared.length_le
  exact horder.received.eq_of_length_le hle

/-- **The link never gets stuck.**  From every pair of stations that can be reached, whatever has
been lost on the way to it, some run without further losses makes both engines active, hands over
every packet that has been submitted on either side and has it acknowledged.  What is dropped on
it are pieces that are `Lost`. -/
theorem LinkReachable.recovers {x y : Station} (h : LinkReachable x y) :
    ∃ x' y', GoesOn (x, y) (x', y') ∧ (x'.submitted = x.submitted ∧ y'.submitted = y.submitted) ∧
      Settled x' y' ∧ Settled y' x' := by
  obtain ⟨s, hrun, hturn⟩ := h.rests
  obtain ⟨s', hrun', hquiet⟩ :=
    @exists_goal_of_lowering (Station × Station) Lossless Resting Quiet toDo
    (fun _ hs => hs.quiet_or_lowers) s (Or.inl hturn)
  have hall : GoesOn (x, y) s' := hrun.trans hrun'
  have hreach := hall.reachable_pair h
  exact ⟨s'.1, s'.2, hall, ⟨hall.grows.1.submitted, hall.grows.2.submitted⟩,
    hreach.settled hquiet.1.1 hquiet.2.1, hreach.symm.settled hquiet.1.2 hquiet.2.2⟩

/-- A packet whose frame has been lost, and then cut off, arrives in the end. -/
theorem recovers_exchange :
    let s := linkSchedule id id lossyStart
    (s.1.submitted = [resetPacket] ∧ s.1.engine.sendPacket = some resetPacket ∧ s.2.received = []) ∧
      ∃ x' y', GoesOn (s.1, s.2) (x', y') ∧
        (x'.submitted = s.1.submitted ∧ y'.submitted = s.2.submitted) ∧
        Settled x' y' ∧ Settled y' x' :=
  ⟨lossyStart_ends, LinkReachable.recovers (linkSchedule_reachable id id lossyStart)⟩

end OpenwrtFeed.Ubcsp
