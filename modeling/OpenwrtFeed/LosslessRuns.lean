import OpenwrtFeed.LinkNumbers
import OpenwrtFeed.LinkSchedule
import OpenwrtFeed.Pace
import OpenwrtFeed.Handshake
import Mathlib.Logic.Relation

/-! # Runs on which nothing is lost

From some moment on the line may lose nothing more: the frames that are whole arrive, and what
is left of frames that have been cut off is discarded.  This module says what two stations can
do then, in pieces that a run can be put together from.

A station that is only called, with nothing to read, closes the frame it is sending, starts the
next one and closes that too (`LinkReachable.speaks`).  What it has put on the line can be
delivered at once (`goesOn_deliver`).  And a station that is waiting out a delay reads whatever
has come in without sending anything, unless it is handed a packet (`Station.listens`).
-/
namespace OpenwrtFeed.Ubcsp

/-- One step of the station `x`, facing `y`, on which nothing is lost, except a piece that is
`Lost`, and nothing is submitted. -/
inductive LosslessStep : Station → Station → Station → Station → Prop
  | poll {x y : Station} (n : Nat) : LosslessStep x y (x.poll n) y
  | rearm {x y : Station} (q : Packet) : x.engine.receiveArmed = false →
      512 ≤ q.length.toNat → q.length.toNat ≤ q.payload.length →
      LosslessStep x y { x with engine := ubcspReceivePacket q x.engine } y
  | discard {x y : Station} {after : List WireFrame} {f : WireFrame} :
      x.flight = f :: after → f.Lost → LosslessStep x y { x with flight := after } y
  | deliver {x y : Station} {after : List WireFrame} {f : WireFrame} :
      x.flight = f :: after → ¬ f.Lost →
      LosslessStep x y { x with flight := after } { y with inbox := y.inbox ++ f.wire }

theorem LosslessStep.step {x y x' y' : Station} (h : LosslessStep x y x' y') :
    StationStep x y x' y' := by
  cases h with
  | poll n => exact .poll n
  | rearm q hoff hq hroom => exact .rearm q hoff hq hroom
  | @discard after f hx hlost =>
    have hdrop : StationStep x y { x with flight := [] ++ after } y := .drop hx
    exact hdrop
  | deliver hx hlost => exact .deliver hx hlost

/-- A step of one of two stations. -/
def Lossless (s s' : Station × Station) : Prop :=
  LosslessStep s.1 s.2 s'.1 s'.2 ∨ LosslessStep s.2 s.1 s'.2 s'.1

/-- The pairs of stations that a run without losses can lead to. -/
abbrev GoesOn : Station × Station → Station × Station → Prop := Relation.ReflTransGen Lossless

namespace GoesOn
variable {x y x' y' : Station}

theorem of_step (h : LosslessStep x y x' y') : GoesOn (x, y) (x', y') := .single (Or.inl h)

theorem symm {s s' : Station × Station} (h : GoesOn s s') : GoesOn s.swap s'.swap := by
  induction h with
  | refl => exact .refl
  | tail _ hstep ih => exact ih.tail hstep.symm

theorem swap (h : GoesOn (x, y) (x', y')) : GoesOn (y, x) (y', x') := h.symm

theorem trans {s s' s'' : Station × Station} (h : GoesOn s s') (h' : GoesOn s' s'') :
    GoesOn s s'' :=
  Relation.ReflTransGen.trans h h'

theorem reachable_pair {s s' : Station × Station} (h : GoesOn s s')
    (hreach : LinkReachable s.1 s.2) :
    LinkReachable s'.1 s'.2 := by
  induction h with
  | refl => exact hreach
  | tail _ hstep ih => exact hstep.elim (fun h => ih.left h.step) fun h => ih.right h.step

theorem reachable (h : GoesOn (x, y) (x', y')) (hreach : LinkReachable x y) : LinkReachable x' y' :=
  h.reachable_pair hreach

end GoesOn

/-! ## What only grows -/

/-- How much a station has been handed and has had acknowledged. -/
def Station.score (x : Station) : Nat := x.cleared.length + x.received.length

/-- Nothing is submitted, and nothing that has been reported is taken back. -/
structure Grows (x x' : Station) : Prop where
  submitted : x'.submitted = x.submitted
  cleared : x.cleared <+: x'.cleared
  received : x.received <+: x'.received

namespace Grows
variable {x x' x'' : Station}

theorem of_eq (hs : x'.submitted = x.submitted) (hc : x'.cleared = x.cleared)
    (hr : x'.received = x.received) :
    Grows x x' := ⟨hs, hc ▸ List.prefix_rfl, hr ▸ List.prefix_rfl⟩

theorem refl (x : Station) : Grows x x := of_eq rfl rfl rfl

theorem trans (h : Grows x x') (h' : Grows x' x'') : Grows x x'' :=
  ⟨h'.submitted.trans h.submitted, h.cleared.trans h'.cleared, h.received.trans h'.received⟩

theorem score_le (h : Grows x x') : x.score ≤ x'.score :=
  Nat.add_le_add h.cleared.length_le h.received.length_le

theorem eq_of_score (h : Grows x x') (hs : x'.score ≤ x.score) :
    x'.cleared = x.cleared ∧ x'.received = x.received := by
  have hc := h.cleared.length_le
  have hr := h.received.length_le
  unfold Station.score at hs
  exact ⟨(h.cleared.eq_of_length_le (by omega)).symm, (h.received.eq_of_length_le (by omega)).symm⟩

end Grows

theorem LosslessStep.grows {x y x' y' : Station} (h : LosslessStep x y x' y') :
    Grows x x' ∧ Grows y y' := by
  cases h with
  | poll n =>
    refine ⟨⟨rfl, ?_, ?_⟩, .refl y⟩
    · show x.cleared <+: if _ then _ else _
      split
      · exact List.prefix_append _ _
      · exact List.prefix_rfl
    · show x.received <+: if _ then _ else _
      split
      · exact List.prefix_append _ _
      · exact List.prefix_rfl
  | rearm q hoff hq hroom => exact ⟨.of_eq rfl rfl rfl, .refl y⟩
  | discard hx hlost => exact ⟨.of_eq rfl rfl rfl, .refl y⟩
  | deliver hx hlost => exact ⟨.of_eq rfl rfl rfl, .of_eq rfl rfl rfl⟩

theorem GoesOn.grows {s s' : Station × Station} (h : GoesOn s s') :
    Grows s.1 s'.1 ∧ Grows s.2 s'.2 := by
  induction h with
  | refl => exact ⟨.refl _, .refl _⟩
  | tail _ hstep ih =>
    rcases hstep with hstep | hstep
    · exact ⟨ih.1.trans hstep.grows.1, ih.2.trans hstep.grows.2⟩
    · exact ⟨ih.1.trans hstep.grows.2, ih.2.trans hstep.grows.1⟩

/-! ## A station that is only called -/

/-- The calls from `x` to `x'` have read nothing. -/
structure Unread (x x' : Station) : Prop where
  stray : x'.stray = x.stray
  submitted : x'.submitted = x.submitted
  cleared : x'.cleared = x.cleared
  received : x'.received = x.received
  inbox : x'.inbox = x.inbox
  rx : x'.engine.rx = x.engine.rx
  packet : x'.engine.sendPacket = x.engine.sendPacket
  sequence : x'.engine.sequenceNumber = x.engine.sequenceNumber
  ack : x'.engine.ackNumber = x.engine.ackNumber

theorem Unread.refl (x : Station) : Unread x x := ⟨rfl, rfl, rfl, rfl, rfl, rfl, rfl, rfl, rfl⟩

theorem Unread.trans {x x' x'' : Station} (h : Unread x x') (h' : Unread x' x'') : Unread x x'' :=
  ⟨h'.stray.trans h.stray, h'.submitted.trans h.submitted, h'.cleared.trans h.cleared,
    h'.received.trans h.received, h'.inbox.trans h.inbox, h'.rx.trans h.rx,
      h'.packet.trans h.packet,
    h'.sequence.trans h.sequence, h'.ack.trans h.ack⟩

namespace Station

/-- Nothing is left behind on the line: no abandoned frame, and no half of an escape. -/
def Clean (x : Station) : Prop := x.engine.sendSlipEscape = 0 ∧ x.sending = none

instance (x : Station) : Decidable x.Clean := inferInstanceAs (Decidable (_ ∧ _))

/-- The station is between two frames and waits before the next one. -/
structure Paused (x : Station) : Prop where
  idle : x.engine.sendSize = 0
  delay : x.engine.delay ≠ 0

end Station

/-- A call from `x` to `x'` has put the octets `w` on the line and left the engine `e`. -/
structure Called (x : Station) (w : List UInt8) (e : Engine) (x' : Station) : Prop where
  unread : Unread x x'
  engine : x'.engine = e
  flight : x'.flight = (x.line w).1
  sending : x'.sending = (x.line w).2

/-- A call with nothing to read. -/
theorem Station.called {x : Station} (hrel : x.engine.SendsReliably) {w : List UInt8}
    {a : Activity} {d : Nat} {ret : Bool} {e : Engine} (h : sendHalf x.engine = ⟨w, a, d, ret, e⟩) :
    Called x w (if ret then e else finishPoll d e) (x.poll 0) := by
  have hnone : a = .none := by
    have := sendHalf_silent hrel
    rwa [h] at this
  have hpacket := sendHalf_sendPacket hrel
  have hnumbers := sendHalf_numbers x.engine
  have hrx := sendHalf_rx x.engine
  rw [h] at hpacket hnumbers hrx
  have hcall : ∃ d', ubcspPoll x.stray [] x.engine =
      ⟨.none, d', w, [], if ret then e else finishPoll d e⟩ := by
    unfold ubcspPoll
    rw [h, hnone]
    cases ret <;> exact ⟨_, rfl⟩
  obtain ⟨d', hcall⟩ := hcall
  have hkept : Unread x { x with engine := if ret then e else finishPoll d e } := by
    have hsame : ∃ d', (if ret then e else finishPoll d e) = { e with delay := d' } := by
      cases ret with
      | true => exact ⟨e.delay, rfl⟩
      | false => exact finishPoll_eq d e
    obtain ⟨d', hsame⟩ := hsame
    rw [hsame]
    exact ⟨rfl, rfl, rfl, rfl, rfl, hrx, hpacket, hnumbers.1, hnumbers.2⟩
  generalize (if ret then e else finishPoll d e) = e' at hcall hkept ⊢
  have hpoll : x.poll 0 = { x.put w with engine := e', states := (x.poll 0).states } := by
    unfold Station.poll
    dsimp only
    rw [List.take_zero, hcall]
    simp [Station.report, Station.put, Activity.none]
  rw [hpoll]
  exact ⟨⟨rfl, rfl, rfl, rfl, rfl, hkept.rx, hkept.packet, hkept.sequence, hkept.ack⟩,
    rfl, rfl, rfl⟩

/-- A delay is waited out. -/
theorem Station.waits (y : Station) {x : Station} (hrel : x.engine.SendsReliably) :
    ∃ x', GoesOn (x, y) (x', y) ∧ Unread x x' ∧ x'.engine = { x.engine with delay := 0 } ∧
      x'.flight = x.flight ∧ x'.sending = x.sending := by
  generalize hn : x.engine.delay = n
  induction n generalizing x with
  | zero => exact ⟨x, .refl, .refl x, by rw [← hn], rfl, rfl⟩
  | succ n ih =>
    have hsend : sendHalf x.engine = ⟨[], .none, 0, false, x.engine⟩ := by
      rw [sendHalf, if_pos (by rw [hn]; exact Nat.succ_ne_zero n)]
    have hcalled := Station.called hrel hsend
    have hengine : finishPoll 0 x.engine = { x.engine with delay := n } := by
      rw [finishPoll, if_pos (by rw [hn]; exact Nat.succ_pos n), hn]
      rfl
    rw [if_neg Bool.false_ne_true, hengine] at hcalled
    obtain ⟨x', hrun, hunread, hend, hflight, hsending⟩ :=
      @ih (x.poll 0) (by rw [hcalled.engine]; exact hrel) (by rw [hcalled.engine])
    refine ⟨x', (GoesOn.of_step (.poll 0)).trans hrun, hcalled.unread.trans hunread, ?_,
      hflight.trans hcalled.flight, hsending.trans hcalled.sending⟩
    rw [hend, hcalled.engine]

/-- The frame under way has become `f` on the line, and the station waits. -/
structure Closes (x : Station) (f : WireFrame) (x' : Station) : Prop where
  unread : Unread x x'
  flight : x'.flight = x.flight ++ [f]
  clean : x'.Clean
  paused : x'.Paused
  link : x'.engine.link = x.engine.link

/-- **A frame under way is closed** in the end. -/
theorem Station.finishes (y : Station) {x : Station} {v : List UInt8} {bad : Bool}
    (hf : x.engine.tx.Framed) (hs : x.engine.sendSize ≠ 0) (hd : x.engine.delay = 0)
    (hrel : x.engine.SendsReliably) (hx : x.sending = some ⟨v, false, bad⟩) :
    ∃ x' o, GoesOn (x, y) (x', y) ∧ o ++ [slipFrame] = v ++ x.engine.tx.pendingWire ∧
      Closes x ⟨o, true, bad⟩ x' := by
  generalize hk : x.engine.tx.pendingWire.length = k
  -- by induction on the number of octets left
  induction k using Nat.strong_induction_on generalizing x v with
  | _ k ih =>
    have hsend := sendHalf_under_way hd hs
    have hafter : ∀ (d : Nat) (t : Tx), finishPoll d (x.engine.withTx t) =
        { x.engine.withTx t with delay := d } :=
      fun _ _ => finishPoll_of_none hd
    obtain ⟨u, hu, hclean⟩ := Tx.pendingWire_eq hf
    rcases sendOctet_pending hf hs with
      ⟨w, t, hcall, hf', hsize, -, hne, hw⟩ | ⟨w, t, hcall, hf', hsize, hesc, hw⟩
    · have hlast : w.getLast? ≠ some slipFrame := by
        intro hl
        obtain ⟨u', hu', -⟩ := Tx.pendingWire_eq hf'
        rw [hu', hu, ← List.append_assoc] at hw
        rw [← List.append_cancel_right hw] at hclean
        exact hclean (List.mem_append_left _ (List.mem_of_getLast? hl))
      have hline : x.line w = (x.flight, some ⟨v ++ w, false, bad⟩) := by
        simp [Station.line, hne, hs, hlast, hx]
      have hlen : t.pendingWire.length < k := by
        have hpos := List.length_pos_of_ne_nil hne
        rw [← hk, ← hw, List.length_append]
        omega
      have hcalled := Station.called hrel (hsend.trans hcall)
      rw [if_neg Bool.false_ne_true, hafter] at hcalled
      have hengine := hcalled.engine
      obtain ⟨x', o, hrun, ho, hcloses⟩ :=
        @ih _ hlen (x.poll 0) (v ++ w) (by rw [hengine]; exact hf')
        (by rw [hengine]; exact hsize) (by rw [hengine]) (by rw [hengine]; exact hrel)
        (by rw [hcalled.sending, hline]) (by rw [hengine]; rfl)
      refine ⟨x', o, (GoesOn.of_step (.poll 0)).trans hrun, ?_,
        hcalled.unread.trans hcloses.unread, ?_, hcloses.clean, hcloses.paused, ?_⟩
      · rw [ho, hengine, ← hw, List.append_assoc]
        rfl
      · rw [hcloses.flight, hcalled.flight, hline]
      · rw [hcloses.link, hengine]
        rfl
    · rw [sentPacket_of_reliable (show (x.engine.withTx t).SendsReliably from hrel)] at hcall
      have hline : x.line (w ++ [slipFrame]) = (x.flight ++ [⟨v ++ w, true, bad⟩], none) := by
        simp [Station.line, hs, hx]
      have hcalled := Station.called hrel (hsend.trans hcall)
      rw [if_neg Bool.false_ne_true, hafter] at hcalled
      have hengine := hcalled.engine
      refine ⟨x.poll 0, v ++ w, .of_step (.poll 0), by rw [List.append_assoc, hw], hcalled.unread,
        ?_, ⟨?_, ?_⟩, ⟨?_, ?_⟩, ?_⟩
      · rw [hcalled.flight, hline]
      · rw [hengine]
        exact hesc
      · rw [hcalled.sending, hline]
      · rw [hengine]
        exact hsize
      · rw [hengine]
        exact Nat.succ_ne_zero 24
      · rw [hengine]
        rfl

/-! ## What two linked stations are -/

namespace LinkReachable
variable {x y : Station}

theorem sends (h : LinkReachable x y) {p : Packet} (hp : x.engine.sendPacket = some p) :
    p.Sendable ∧ p.reliable = 1 := by
  obtain ⟨a, b, inX, outX, inY, outY, hl⟩ := h.runs
  exact hl.left.reliable.outstanding (hl.left.runs.sendPacket.symm.trans hp)

theorem sendsReliably (h : LinkReachable x y) : x.engine.SendsReliably := by
  intro p hp
  rw [(h.sends hp).2]
  decide

theorem halfEscape (h : LinkReachable x y) : HalfEscape x.engine.sendSlipEscape := by
  obtain ⟨a, b, inX, outX, inY, outY, hl⟩ := h.runs
  exact hl.left.escape

theorem faces (h : LinkReachable x y) : Faces x.engine.link y.engine.link := by
  obtain ⟨a, b, inX, outX, inY, outY, hl⟩ := h.runs
  rw [hl.left.runs.link, hl.right.runs.link]
  exact hl.reachable.sound.1.faces

/-- A frame under way is set up as it should be. -/
theorem underWay (h : LinkReachable x y) (hs : x.engine.sendSize ≠ 0) :
    x.engine.tx.Framed ∧ ∃ v bad, x.sending = some ⟨v, false, bad⟩ := by
  obtain ⟨a, b, inX, outX, inY, outY, hl⟩ := h.runs
  obtain ⟨ms, ms', -, hsending, -⟩ := hl.left.line
  have hs' : x.engine.tx.sendSize ≠ 0 := hs
  generalize x.sending = sending at hsending
  cases hsending with
  | idle h0 => exact absurd h0 hs'
  | abandoned h0 => exact absurd h0 hs'
  | @whole m v _ hf hm hw => exact ⟨hf, v, false, rfl⟩
  | @damaged s v _ hf hn hw => exact ⟨hf, v, true, rfl⟩

end LinkReachable

/-! ## What a station sends next -/

/-- The message whose frame is started next, if there is anything to send. -/
def Station.next (x : Station) : Option Message :=
  match x.engine.link.next with
  | some k => some (.le k)
  | none =>
    match x.engine.sendPacket with
    | some p => some (.data x.received.length x.cleared.length p)
    | none => if x.engine.sendAck then some (.ack x.received.length) else none

/-- The call starts the frame of `m`. -/
structure Starts (x : Station) (m : Message) (e : Engine) : Prop where
  next : x.next = some m
  framed : e.tx.Framed
  size : e.sendSize ≠ 0
  wire : x.engine.sendSlipEscape = 0 → e.tx.pendingWire = slipStuff m.frame ++ [slipFrame]
  link : e.link = x.engine.link.sent
  delay : e.delay = 0
  packet : e.sendPacket = x.engine.sendPacket

/-- A frame that has been set up. -/
theorem setup_starts {x : Station} {m : Message} (hnext : x.next = some m)
    (hesc : HalfEscape x.engine.sendSlipEscape) {body : Option (List UInt8)}
    (hbody : body.getD [] = m.parts.2) (hsome : ∀ l, body = some l → l ≠ []) {e : Engine}
    (htx : e.tx = (setupPacket m.parts.1 body m.parts.2.length x.engine).tx)
    (hlink : e.link = x.engine.link.sent) (hdelay : e.delay = 0)
    (hpacket : e.sendPacket = x.engine.sendPacket) :
    Starts x m e := by
  have hsize : e.sendSize = 4 := congrArg Tx.sendSize htx
  refine ⟨hnext, ?_, by rw [hsize]; decide, fun h0 => ?_, hlink, hdelay, hpacket⟩
  · rw [htx]
    apply framed_setupPacket hesc m.length_header
    · intro hnone
      rw [← hbody, hnone]
      rfl
    · intro l hl
      have hpos := List.length_pos_of_ne_nil (hsome l hl)
      rw [← hbody, hl]
      exact ⟨hpos, Nat.le_refl _⟩
  · rw [htx, pendingWire_setupPacket x.engine m.length_header (by rw [hbody]), if_pos h0, hbody,
      ← m.frame_eq]

/-- The payload of a link-establishment packet. -/
theorem length_lePayload {k : LePacket} (hk : k ≠ .none) : (lePayload k).length = 4 := by
  cases k with
  | none => exact absurd rfl hk
  | _ => rfl

/-- **What a call does between two frames**: it has nothing to send, or it starts the frame of the
next message. -/
theorem LinkReachable.starts {x y : Station} (h : LinkReachable x y) (hs : x.engine.sendSize = 0)
    (hd : x.engine.delay = 0) :
    (x.next = none ∧ x.engine.link.next = none ∧
        sendHalf x.engine = ⟨[], .none, pollTimeDelay, false, x.engine⟩) ∨
      ∃ m ret e, m.Valid ∧ Starts x m e ∧ sendHalf x.engine = ⟨[slipFrame], .none, 0, ret, e⟩ := by
  have hesc := h.halfEscape
  have hsequence := h.numbered.sequence
  have hexpected := h.symm.numbered.expected
  have hle : ∀ k : LePacket, k ≠ .none → ∀ l, some (lePayload k) = some l → l ≠ [] := by
    rintro k hk l ⟨⟩ hnil
    have hlen := length_lePayload hk
    rw [hnil] at hlen
    cases hlen
  rcases sendHalf_cases x.engine with ⟨hdelay, -⟩ | ⟨-, hsize, -⟩ | ⟨-, -, hp, hc⟩ | ⟨-, -, hp, hc⟩
  · exact absurd hd hdelay
  · exact absurd hs hsize
  · have hp' : ¬ x.engine.link.packet ≠ .none := fun hne => hne hp
    rcases startFrame_cases x.engine with
      ⟨hr, hcall⟩ | ⟨hr, p, hsome, hcall⟩ | ⟨hr, hnone, hack, hcall⟩ | ⟨hr, hnone, hack, hcall⟩
    · -- a CONF RESP is owed
      have hr' : x.engine.link.resp &&& 2 ≠ 0 := hr
      have hnext : x.engine.link.next = some .confResp := by
        rw [Link.next, if_neg hp', if_pos hr']
      refine Or.inr ⟨.le .confResp, false, _, by simp [Message.Valid], ?_, hc.trans hcall⟩
      refine @setup_starts x (.le .confResp) ?_ hesc (some (lePayload .confResp)) rfl
        (hle _ (by simp)) _ rfl ?_ hd rfl
      · rw [Station.next, hnext]
      · rw [Link.sent, if_neg hp', if_pos hr']
        rfl
    all_goals
      have hr' : ¬ x.engine.link.resp &&& 2 ≠ 0 := fun hne => hne hr
      have hnext : x.engine.link.next = none := by rw [Link.next, if_neg hp', if_neg hr']
    · -- the packet of the upper layer
      obtain ⟨hsend, hrel⟩ := h.sends hsome
      refine Or.inr ⟨.data x.received.length x.cleared.length p, false, _, ⟨hsend, hrel⟩, ?_,
        hc.trans hcall⟩
      refine @setup_starts x _ ?_ hesc (some p.payload) rfl ?_ _ ?_ ?_ hd rfl
      · rw [Station.next, hnext, hsome]
      · rintro l ⟨⟩ hnil
        have := hsend.nonempty
        simp [hnil] at this
      · rw [hsend.encodable.length, hsequence, hexpected]
        rfl
      · exact (Link.sent_of_next hnext).symm
    · refine Or.inr ⟨.ack x.received.length, false, _, trivial, ?_, hc.trans hcall⟩
      refine @setup_starts x _ ?_ hesc none rfl (by simp) _ ?_ ?_ hd rfl
      · rw [Station.next, hnext, hnone, hack]
        rfl
      · rw [hexpected]
        rfl
      · exact (Link.sent_of_next hnext).symm
    · refine Or.inl ⟨?_, hnext, hc.trans hcall⟩
      rw [Station.next, hnext, hnone, hack]
      rfl
  · have hnext : x.engine.link.next = some x.engine.link.packet := if_pos hp
    refine Or.inr ⟨.le x.engine.link.packet, true, _, hp, ?_, hc⟩
    refine @setup_starts x _ ?_ hesc (some (lePayload x.engine.link.packet)) rfl
      (hle _ hp) _ ?_ ?_ rfl rfl
    · rw [Station.next, hnext]
    · rw [show (Message.le x.engine.link.packet).parts.2.length = 4 from length_lePayload hp]
      rfl
    · exact (if_pos hp).symm

/-- What the station `x` has put on the line when it has become `x'`: nothing, for want of a
message, or the frame of its message behind what it had abandoned.  Without half an escape left over
the frame is whole. -/
inductive Spoken (x x' : Station) : Prop
  | silent : x.next = none → x'.flight = x.flight → x'.sending = x.sending →
      x'.engine.sendSlipEscape = x.engine.sendSlipEscape → Spoken x x'
  | said {m : Message} {o : List UInt8} {bad : Bool} : x.next = some m → m.Valid → x'.Clean →
      x'.flight = x.flight ++ x.sending.toList ++ [⟨o, true, bad⟩] →
      (x.engine.sendSlipEscape = 0 → o = slipStuff m.frame) → Spoken x x'

/-- **A station says what it has to say**, if it is only called. -/
theorem LinkReachable.speaks {x y : Station} (h : LinkReachable x y) (hs : x.engine.sendSize = 0) :
    ∃ x', GoesOn (x, y) (x', y) ∧ Unread x x' ∧ x'.Paused ∧ x'.engine.link = x.engine.link.sent ∧
      Spoken x x' := by
  obtain ⟨x₁, hrun₁, hunread₁, hengine₁, hflight₁, hsending₁⟩ := Station.waits y h.sendsReliably
  have hlink₁ : x₁.engine.link = x.engine.link := by rw [hengine₁]; rfl
  have hesc₁ : x₁.engine.sendSlipEscape = x.engine.sendSlipEscape := by rw [hengine₁]
  have hsize₁ : x₁.engine.sendSize = 0 := by rw [hengine₁]; exact hs
  have hdelay₁ : x₁.engine.delay = 0 := by rw [hengine₁]
  have hnext₁ : x₁.next = x.next := by
    have hack : x₁.engine.sendAck = x.engine.sendAck := by rw [hengine₁]
    unfold Station.next
    rw [hlink₁, hunread₁.packet, hunread₁.received, hunread₁.cleared, hack]
  have h₁ : LinkReachable x₁ y := hrun₁.reachable h
  rcases h₁.starts hsize₁ hdelay₁ with ⟨hnone, hlink, hcall⟩ | ⟨m, ret, e, hm, hstarts, hcall⟩
  · have hcalled := Station.called h₁.sendsReliably hcall
    rw [if_neg Bool.false_ne_true, finishPoll_of_none hdelay₁] at hcalled
    have hengine := hcalled.engine
    refine ⟨x₁.poll 0, hrun₁.trans (GoesOn.of_step (.poll 0)), hunread₁.trans hcalled.unread,
      ⟨?_, ?_⟩, ?_, .silent (hnext₁.symm.trans hnone) (hcalled.flight.trans hflight₁)
        (hcalled.sending.trans hsending₁) ?_⟩
    · rw [hengine]
      exact hsize₁
    · rw [hengine]
      exact Nat.succ_ne_zero 24
    · rw [hengine, ← hlink₁, Link.sent_of_next hlink]
      rfl
    · rw [hengine]
      exact hesc₁
  · have hcalled := Station.called h₁.sendsReliably hcall
    have hsame : (if ret then e else finishPoll 0 e) = e := by
      cases ret with
      | true => rfl
      | false =>
        rw [if_neg Bool.false_ne_true, finishPoll_of_none hstarts.delay, ← hstarts.delay]
    have hline : x₁.line [slipFrame] = (x₁.flight ++ x₁.sending.toList,
        some ⟨[], false, decide (x₁.engine.sendSlipEscape ≠ 0)⟩) := by
      simp [Station.line, hsize₁]
    rw [hsame] at hcalled
    have hengine := hcalled.engine
    obtain ⟨x₂, o, hrun₂, ho, hcloses⟩ :=
      @Station.finishes y (x₁.poll 0) [] (decide (x₁.engine.sendSlipEscape ≠ 0))
      (by rw [hengine]; exact hstarts.framed) (by rw [hengine]; exact hstarts.size)
      (by rw [hengine]; exact hstarts.delay)
      (by
        intro p hp
        rw [hengine, hstarts.packet] at hp
        exact h₁.sendsReliably p hp)
      (by rw [hcalled.sending, hline])
    have hflight₂ : x₂.flight = x.flight ++ x.sending.toList ++
        [⟨o, true, decide (x₁.engine.sendSlipEscape ≠ 0)⟩] := by
      rw [hcloses.flight, hcalled.flight, hline, hflight₁, hsending₁]
    refine ⟨x₂, (hrun₁.trans (GoesOn.of_step (.poll 0))).trans hrun₂,
      (hunread₁.trans hcalled.unread).trans hcloses.unread, hcloses.paused, ?_,
      .said (hnext₁.symm.trans hstarts.next) hm hcloses.clean hflight₂ fun h0 => ?_⟩
    · rw [hcloses.link, hengine, hstarts.link, hlink₁]
    · have hzero : x₁.engine.sendSlipEscape = 0 := hesc₁.trans h0
      rw [hengine, hstarts.wire hzero, List.nil_append] at ho
      exact List.append_cancel_right ho

/-- **A station comes to a pause**, if it is only called. -/
theorem LinkReachable.pauses {x y : Station} (h : LinkReachable x y) :
    ∃ x', GoesOn (x, y) (x', y) ∧ Unread x x' ∧ x'.Paused := by
  by_cases hs : x.engine.sendSize = 0
  · obtain ⟨x', hrun, hunread, hpaused, -⟩ := h.speaks hs
    exact ⟨x', hrun, hunread, hpaused⟩
  · obtain ⟨x₁, hrun₁, hunread₁, hengine₁, -, hsending₁⟩ := Station.waits y h.sendsReliably
    have h₁ : LinkReachable x₁ y := hrun₁.reachable h
    have hsize : x₁.engine.sendSize ≠ 0 := by rw [hengine₁]; exact hs
    obtain ⟨hf, v, bad, hsending⟩ := h₁.underWay hsize
    obtain ⟨x₂, o, hrun₂, -, hcloses⟩ :=
      Station.finishes y hf hsize (by rw [hengine₁]) h₁.sendsReliably hsending
    exact ⟨x₂, hrun₁.trans hrun₂, hunread₁.trans hcloses.unread, hcloses.paused⟩

/-! ## Delivering and reading -/

/-- The octets that arrive when nothing is lost. -/
def arrives (fs : List WireFrame) : List UInt8 := fs.flatMap fun f => if f.Lost then [] else f.wire

theorem arrives_closed (o : List UInt8) (bad : Bool) :
    arrives [⟨o, true, bad⟩] = slipFrame :: o ++ [slipFrame] := by
  simp [arrives, WireFrame.Lost, WireFrame.wire]

/-- **All frames on their way can be delivered.** -/
theorem goesOn_deliver (fs rest : List WireFrame) {x y : Station} (hx : x.flight = fs ++ rest) :
    GoesOn (x, y) ({ x with flight := rest }, { y with inbox := y.inbox ++ arrives fs }) := by
  induction fs generalizing x y with
  | nil =>
    have hsame : arrives [] = [] := rfl
    have hx' : x.flight = rest := hx
    subst hx'
    rw [hsame, List.append_nil]
  | cons f fs ih =>
    have harrives : arrives (f :: fs) = (if f.Lost then [] else f.wire) ++ arrives fs := rfl
    by_cases hlost : f.Lost
    · have hstep := @ih { x with flight := fs ++ rest } y rfl
      rw [harrives, if_pos hlost, List.nil_append]
      exact (GoesOn.of_step (.discard hx hlost)).trans hstep
    · have hstep := @ih { x with flight := fs ++ rest } { y with inbox := y.inbox ++ f.wire } rfl
      rw [harrives, if_neg hlost, ← List.append_assoc]
      exact (GoesOn.of_step (.deliver hx hlost)).trans hstep

/-- The call from `y` to `y'` has only read, and all that has come in. -/
structure Attends (y y' : Station) : Prop where
  engine : y'.engine = finishPoll 0 (receiveLoop y.stray y.inbox .none y.engine).2.2
  cleared : y'.cleared = if (receiveLoop y.stray y.inbox .none y.engine).1.sent then
    y.cleared ++ y.engine.sendPacket.toList else y.cleared
  received : y'.received = if (receiveLoop y.stray y.inbox .none y.engine).1.received then
    y.received ++ [y'.engine.handedOver] else y.received
  inbox : y'.inbox = (receiveLoop y.stray y.inbox .none y.engine).2.1
  flight : y'.flight = y.flight
  sending : y'.sending = y.sending
  stray : y'.stray = y.stray

/-- A station that waits only reads. -/
theorem Station.Paused.attends {y : Station} (h : y.Paused) :
    Attends y (y.poll y.inbox.length) := by
  have hcall : ∃ d, ubcspPoll y.stray y.inbox y.engine =
      ⟨(receiveLoop y.stray y.inbox .none y.engine).1, d, [],
        (receiveLoop y.stray y.inbox .none y.engine).2.1,
          finishPoll 0 (receiveLoop y.stray y.inbox .none y.engine).2.2⟩ := by
    unfold ubcspPoll
    rw [sendHalf, if_pos h.delay]
    exact ⟨_, rfl⟩
  obtain ⟨d, hcall⟩ := hcall
  unfold Station.poll
  dsimp only
  rw [List.take_length, hcall, List.drop_length, List.append_nil]
  exact ⟨rfl, rfl, rfl, rfl, rfl, rfl, rfl⟩

/-- A station at rest: between two frames, with nothing on its way from it and nothing to be read by
it, and with a receive packet. -/
structure Station.AtRest (x : Station) : Prop where
  idle : x.engine.sendSize = 0
  flight : x.flight = []
  inbox : x.inbox = []
  armed : x.engine.receiveArmed = true

/-- **A station that waits reads all that has come in**, or is handed a packet. -/
theorem Station.Paused.listens {y y' : Station} (h : y.Paused)
    (harmed : y.engine.receiveArmed = true) (hflight : y.flight = []) {n : Nat}
    {p : SlipCode.Partial UInt8} (hdef : Deframes n p y.engine) (ha : Attends y y') :
    y.received.length < y'.received.length ∨
      (receiveLoop y.stray y.inbox .none y.engine).1.received = false ∧ y'.AtRest ∧
        Deframes n ((ubcspSlip y.stray).run p y.inbox).1 y'.engine := by
  obtain ⟨hread, hyields⟩ := receiveLoop_frames y.stray hdef harmed y.inbox (a := .none) rfl
  cases hrec : (receiveLoop y.stray y.inbox .none y.engine).1.received with
  | true =>
    left
    rw [ha.received, if_pos hrec, List.length_append]
    exact Nat.lt_succ_self _
  | false =>
    right
    have hkept := receiveLoop_kept y.stray y.inbox .none y.engine
    have hoff := hyields.armed
    rw [hrec] at hoff
    have hrest := receiveLoop_rest y.stray y.inbox hoff
    obtain ⟨d, hd⟩ := finishPoll_eq 0 (receiveLoop y.stray y.inbox .none y.engine).2.2
    have hengine := ha.engine.trans hd
    refine ⟨rfl, ⟨?_, ha.flight.trans hflight, ha.inbox.trans hrest, ?_⟩, ?_⟩
    · rw [hengine]
      rcases hkept with htx | ⟨hsize, -⟩
      · exact (congrArg Tx.sendSize htx).trans h.idle
      · exact hsize
    · rw [hengine]
      exact hoff
    · -- every octet has been read
      have hall : frameInProgress y.stray p (loopStates y.stray y.inbox .none y.engine) =
          ((ubcspSlip y.stray).run p y.inbox).1 := by
        rw [hrest, List.append_nil] at hread
        rw [frameInProgress, hread]
      rw [hengine, ← hall]
      exact hyields.deframes.of_rx rfl

end OpenwrtFeed.Ubcsp
