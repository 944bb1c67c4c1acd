import OpenwrtFeed.LoopProgress

/-! # An op is sent until it is acknowledged

The engine keeps a reliable packet until it is acknowledged, and starts its frame again
whenever it has closed one and waited.  Two things may come first: the link-establishment
packets that are still due, and a CONF RESP for every CONF that comes in.  And a frame that is
started behind half an escape goes out damaged, but only the first one can be.

So a rank (`Engine.wait`) counts the calls up to the next start of a whole frame, and every CONF
may set it back once.  Between two acknowledgements the octets of the frame are put on the
UART over and over, one after the other and with nothing in between (`resends`).
-/
namespace OpenwrtFeed.Ubcsp

/-! ## How long until the frame is started -/

/-- The engine is active and sends the reliable packet `p` under the number `q`. -/
structure Resending (limit : Nat) (p : Packet) (q : Fin 8) (e : Engine) : Prop where
  paced : Paced limit e
  ranged : Ranged e
  active : e.linkEstablishmentState = .active
  packet : e.sendPacket = some p
  reliable : p.reliable ≠ 0
  number : e.sequenceNumber = q

/-- The frame under way and the delay after it, or a frame that will be damaged with its delay. -/
def Tx.wait (limit : Nat) (t : Tx) : Nat :=
  if t.sendSize = 0 then if t.sendSlipEscape = 0 then 0 else frameRoom limit + 27
  else t.pendingWire.length + 26

/-- The frames of link establishment that are due, of 48 calls each with the delay. -/
def Link.wait (l : Link) : Nat := (if l.packet = .none then 0 else 49) + if l.resp =
    2 then 49 else 0

/-- How many calls may come before the start of a whole frame of the packet. -/
def Engine.wait (limit : Nat) (e : Engine) : Nat := e.delay + (e.tx.wait limit + e.link.wait)

theorem Tx.wait_idle {limit : Nat} {t : Tx} (h : t.sendSize = 0) (hesc : t.sendSlipEscape = 0) :
    t.wait limit = 0 := by rw [Tx.wait, if_pos h, if_pos hesc]

theorem Tx.wait_sending {limit : Nat} {t : Tx} (h : t.sendSize ≠ 0) :
    t.wait limit = t.pendingWire.length + 26 := if_neg h

/-- The rank after a call that has not waited. -/
theorem finishPoll_wait {limit : Nat} {e : Engine} (hd : e.delay = 0) (d : Nat) :
    (finishPoll d e).wait limit = d + (e.tx.wait limit + e.link.wait) := by
  rw [finishPoll_of_none hd]
  rfl

/-- Receiving may end the delay that is waited out. -/
theorem finishPoll_wait_le {limit d : Nat} {e e' : Engine} (htx : e'.tx = e.tx)
    (hlink : e'.link.wait = e.link.wait) (hdelay : e'.delay = e.delay ∨ e'.delay = 0)
    (hd : e.delay ≠ 0 → d = 0) :
    (finishPoll d e').wait limit ≤ (finishPoll d e).wait limit := by
  have parts : ∀ e : Engine, (finishPoll d e).wait limit =
      (finishPoll d e).delay + (e.tx.wait limit + e.link.wait) := by
    intro e
    obtain ⟨d', hd'⟩ := finishPoll_eq d e
    rw [hd']
    rfl
  rw [parts, parts, htx, hlink, finishPoll_delay, finishPoll_delay]
  refine Nat.add_le_add_right ?_ _
  rcases hdelay with hsame | hzero
  · rw [hsame]
  · rw [hzero, if_neg (Nat.lt_irrefl 0)]
    by_cases hwait : e.delay = 0
    · rw [hwait, if_neg (Nat.lt_irrefl 0)]
    · rw [hd hwait]
      exact Nat.zero_le _

namespace Resending
variable {limit : Nat} {p : Packet} {q : Fin 8} {e e' : Engine}

theorem sendsReliably (h : Resending limit p q e) : e.SendsReliably := by
  intro p' hp'
  obtain rfl := Option.some.inj (h.packet.symm.trans hp')
  exact h.reliable

/-- The receive packet does not matter. -/
theorem receivePacket (h : Resending limit p q e) (r : Packet) :
    Resending limit p q (ubcspReceivePacket r e) :=
  ⟨h.paced.of_tx rfl (Or.inl rfl), ⟨h.ranged.delay, h.ranged.resp⟩, h.active, h.packet,
    h.reliable, h.number⟩

end Resending

theorem startLe_wire_le (k : LePacket) (e : Engine) :
    (setupPacket sendLeHeader (some (lePayload k)) 4 e).tx.pendingWire.length ≤ 22 :=
  pendingWire_setup_le e _ _ (Nat.le_refl 4)

/-- The packet that is due after a link-establishment packet of an active engine. -/
theorem next_of_active {resp : Nat} (h : resp ≤ 2) :
    nextLePacket.getD (LinkState.active.toNat + resp * 4) .sync = if resp =
      2 then .confResp else .none := by
  interval_cases resp <;> rfl

/-- The next octet of the frame under way lowers the rank. -/
theorem Resending.octet_lowers {limit : Nat} {p : Packet} {q : Fin 8} {e : Engine}
    (h : Resending limit p q e) (hd : e.delay = 0) (hs : e.sendSize ≠ 0) :
    (finishPoll (sendOctet e).delay (sendOctet e).engine).wait limit < e.wait limit := by
  obtain ⟨hframed, -⟩ := h.paced.framed hs
  have hwait : e.wait limit = e.tx.pendingWire.length + 26 + e.link.wait := by
    rw [Engine.wait, hd, Tx.wait_sending hs, Nat.zero_add]
  rcases sendOctet_pending hframed hs with
    ⟨w, t, hcall, -, hsize, -, hne, hw⟩ | ⟨w, t, hcall, -, hsize, hesc, hw⟩
  · have hlen : w.length + t.pendingWire.length = e.tx.pendingWire.length := by
      rw [← List.length_append, hw]
    have hpos := List.length_pos_of_ne_nil hne
    rw [hcall, finishPoll_wait (show (e.withTx t).delay = 0 from hd), hwait]
    show 0 + (t.wait limit + e.link.wait) < _
    rw [Tx.wait_sending hsize]
    omega
  · -- the frame is closed, and a delay follows
    have hlen : w.length + 1 = e.tx.pendingWire.length := by
      rw [← hw, List.length_append, List.length_singleton]
    have hsent := sentPacket_of_reliable (show (e.withTx t).SendsReliably from h.sendsReliably)
    rw [hcall, hsent, finishPoll_wait (show (e.withTx t).delay = 0 from hd), hwait]
    show 25 + (t.wait limit + e.link.wait) < _
    rw [Tx.wait_idle hsize hesc]
    omega

/-- Once the link-establishment packet that was due has been started, fewer are due. -/
theorem Resending.due_startLe {limit : Nat} {p : Packet} {q : Fin 8} {e : Engine}
    (h : Resending limit p q e) (hp : e.linkEstablishmentPacket ≠ .none) :
    Link.wait (startLeFrame e).engine.link + 49 ≤ e.link.wait := by
  have hnext : (startLeFrame e).engine.link.packet =
      if e.linkEstablishmentResp = 2 then .confResp else .none := by
    rw [← next_of_active h.ranged.resp, ← h.active]
    rfl
  have hresp : (startLeFrame e).engine.link.resp = 0 := rfl
  unfold Link.wait
  rw [hnext, hresp, if_neg (show ¬ e.link.packet = .none from hp)]
  by_cases hr : e.linkEstablishmentResp = 2
  · rw [if_pos hr, if_pos (show e.link.resp = 2 from hr)]
    decide
  · rw [if_neg hr, if_neg (show ¬ e.link.resp = 2 from hr)]
    decide

/-- **What the sending half makes of the rank**: it is lower at the end of the call, unless a whole
frame of the packet is started. -/
theorem Resending.sendHalf {limit : Nat} {p : Packet} {q : Fin 8} {e : Engine}
    (h : Resending limit p q e) :
    StartsPacket e p ∧ e.sendSlipEscape = 0 ∨
      (finishPoll (Ubcsp.sendHalf e).delay (Ubcsp.sendHalf e).engine).wait limit <
        e.wait limit := by
  have htwo : e.linkEstablishmentResp &&& 2 ≠ 0 → e.link.resp = 2 := by
    have hle := h.ranged.resp
    show _ → e.linkEstablishmentResp = 2
    generalize e.linkEstablishmentResp = resp at hle
    interval_cases resp <;> decide
  rcases sendHalf_cases e with ⟨hd, hc⟩ | ⟨hd, hs, hc⟩ | ⟨hd, hs, hp, hc⟩ | ⟨hd, hs, hp, hc⟩
  · -- a delay is waited out
    right
    rw [hc, finishPoll, if_pos (Nat.pos_of_ne_zero hd)]
    exact Nat.add_lt_add_right (Nat.sub_lt (Nat.pos_of_ne_zero hd) Nat.one_pos) _
  · -- a frame is under way
    right
    rw [hc]
    exact h.octet_lowers hd hs
  · rcases startFrame_cases e with
      ⟨hr, hstart⟩ | ⟨hr, p', hp', hstart⟩ | ⟨hr, hnone, -⟩ | ⟨hr, hnone, -⟩
    · -- a CONF RESP is started
      right
      have hwire := startLe_wire_le .confResp e
      have hafter : Link.wait ⟨e.linkEstablishmentState, 0, e.linkEstablishmentPacket⟩ = 0 := by
        rw [Link.wait, if_pos hp, if_neg (show ¬ (0 : Nat) = 2 by decide)]
      rw [hc, hstart]
      rw [finishPoll_wait (by exact hd)]
      show 0 + (Tx.wait limit (setupPacket sendLeHeader (some (lePayload .confResp)) 4 e).tx +
        Link.wait ⟨e.linkEstablishmentState, 0, e.linkEstablishmentPacket⟩) <
          e.delay + (_ + Link.wait e.link)
      rw [hafter, Link.wait, if_pos (htwo hr), Tx.wait_sending (show (4 : Nat) ≠ 0 by decide)]
      omega
    · obtain rfl := Option.some.inj (h.packet.symm.trans hp')
      by_cases hesc : e.sendSlipEscape = 0
      · exact Or.inl ⟨⟨hd, hs, hp, hr, h.packet⟩, hesc⟩
      · -- the frame is started behind half an escape
        right
        obtain ⟨hlen, -, hmax⟩ := h.paced.packet p h.packet
        have hwire := pendingWire_setup_le e (dataHeader p e.ackNumber e.sequenceNumber)
          (some p.payload)
          (hlen ▸ hmax)
        have hbefore : e.tx.wait limit = frameRoom limit + 27 := by
          rw [Tx.wait, if_pos (show e.tx.sendSize = 0 from hs),
            if_neg (show ¬ e.tx.sendSlipEscape = 0 from hesc)]
        rw [hc, hstart]
        rw [finishPoll_wait (by exact hd)]
        show 0 +
            (Tx.wait limit (setupPacket (dataHeader p e.ackNumber e.sequenceNumber) (some p.payload)
          p.length.toNat e).tx + e.link.wait) < e.delay + (_ + _)
        rw [hbefore, Tx.wait_sending (show (4 : Nat) ≠ 0 by decide)]
        omega
    · cases h.packet.symm.trans hnone
    · cases h.packet.symm.trans hnone
  · -- a link-establishment packet is started
    right
    have hwire := startLe_wire_le e.linkEstablishmentPacket e
    have hafter := h.due_startLe hp
    rw [hc, finishPoll_wait (show (startLeFrame e).engine.delay = 0 from rfl)]
    show 0 +
        (Tx.wait limit (setupPacket sendLeHeader (some (lePayload e.linkEstablishmentPacket)) 4
        e).tx + _) <
      e.delay + (_ + _)
    rw [Tx.wait_sending (show (4 : Nat) ≠ 0 by decide)]
    omega

/-! ## A whole call -/

/-- The octet ends a CONF. -/
def EndsConf (x : Engine × UInt8) : Prop := receivedLe x.2 x.1 = some 2

instance (x : Engine × UInt8) : Decidable (EndsConf x) := inferInstanceAs (Decidable (_ = _))

/-- An active engine that is not reset owes a CONF RESP for a CONF, and nothing else brings a
response. -/
theorem receiveOctet_resp {stray : UInt8 → UInt8} {value : UInt8} {a : Activity} {e : Engine}
    (hact : e.linkEstablishmentState = .active) (hquiet : (receiveOctet stray value a e).1.Quiet)
    (hconf : ¬ EndsConf (e, value)) :
    (receiveOctet stray value a e).2.linkEstablishmentResp = e.linkEstablishmentResp := by
  have hlink := receiveOctet_link stray value a e
  have hstate : (receiveOctet stray value a e).2.linkEstablishmentState = .active :=
    ((receiveOctet_heard stray value a e).quiet hquiet).2.active hact
  have hresp : (receiveOctet stray value a e).2.linkEstablishmentResp = _ :=
    congrArg Link.resp hlink
  have hafter : (receiveOctet stray value a e).2.linkEstablishmentState = _ :=
    congrArg Link.state hlink
  rw [hresp]
  rw [hstate] at hafter
  unfold EndsConf at hconf
  dsimp only at hconf
  generalize receivedLe value e = k at hconf hafter
  rcases k with _ | _ | _ | _ | _ | k
  · rfl
  · -- a SYNC would have reset the engine
    simp [Link.receive?, Link.receive, Engine.link, hact] at hafter
  · simp [Link.receive?, Link.receive, Engine.link, hact]
  · exact absurd rfl hconf
  · rfl
  · rfl

theorem receiveLoop_keepsResp {stray : UInt8 → UInt8} {rx : List UInt8} {a : Activity} {e : Engine}
    (hact : e.linkEstablishmentState = .active) (hquiet : (receiveLoop stray rx a e).1.Quiet)
    (hconf : ∀ x ∈ loopStates stray rx a e, ¬ EndsConf x) :
    (receiveLoop stray rx a e).2.2.linkEstablishmentResp = e.linkEstablishmentResp := by
  induction rx generalizing a e with
  | nil => rfl
  | cons value rx ih =>
    unfold receiveLoop at hquiet ⊢
    unfold loopStates at hconf
    split
    · rename_i harmed
      rw [if_pos harmed] at hquiet hconf
      obtain ⟨hone, hrest⟩ := List.forall_mem_cons.1 hconf
      have hmid := ((receiveLoop_heard stray rx _ _).quiet hquiet).1
      have hact' := ((receiveOctet_heard stray value a e).quiet hmid).2.active hact
      exact (ih hact' hquiet hrest).trans (receiveOctet_resp hact hmid hone)
    · rfl

/-- **One call**: it receives a CONF, or starts a whole frame of the packet, or lowers the rank. -/
theorem Resending.poll {limit : Nat} (hlimit : 4 ≤ limit) {p : Packet} {q : Fin 8} {e : Engine}
    (h : Resending limit p q e) (stray : UInt8 → UInt8) (rx : List UInt8)
    (hquiet : (ubcspPoll stray rx e).activity.Quiet) :
    Resending limit p q (ubcspPoll stray rx e).engine ∧
      ((∀ x ∈ pollStates stray rx e, ¬ EndsConf x) → StartsPacket e p ∧ e.sendSlipEscape = 0 ∨
        (ubcspPoll stray rx e).engine.wait limit < e.wait limit) := by
  have hpaced := (h.paced.poll hlimit stray rx).1
  have hranged := h.ranged.poll stray rx
  have hpacket := (sendHalf_sendPacket h.sendsReliably).trans h.packet
  have hnumber := (sendHalf_numbers e).1.trans h.number
  have hstate := (sendHalf_state e).trans h.active
  have hrank := h.sendHalf
  unfold ubcspPoll at hquiet hpaced hranged ⊢
  unfold pollStates
  dsimp only at hquiet hpaced hranged ⊢
  by_cases hret : (Ubcsp.sendHalf e).returned = true
  · rw [if_pos hret] at hpaced hranged ⊢
    refine ⟨⟨hpaced, hranged, hstate, hpacket, h.reliable, hnumber⟩,
      fun _ => hrank.imp_right fun hlower => ?_⟩
    obtain ⟨-, -, hdelay⟩ := sendHalf_returned hret
    rw [finishPoll_wait hdelay] at hlower
    show (Ubcsp.sendHalf e).engine.delay + _ < _
    rw [hdelay]
    exact (Nat.add_le_add_right (Nat.zero_le _) _).trans_lt hlower
  · rw [if_neg hret] at hquiet hpaced hranged ⊢
    rw [if_neg hret]
    have hheard := receiveLoop_heard stray rx (Ubcsp.sendHalf e).activity (Ubcsp.sendHalf e).engine
    have hkeeps := (hheard.quiet hquiet).2
    have hdelay := hheard.delay
    have hloop := fun hconf => @receiveLoop_keepsResp stray rx (Ubcsp.sendHalf e).activity
      (Ubcsp.sendHalf e).engine hstate hquiet hconf
    generalize receiveLoop stray rx (Ubcsp.sendHalf e).activity (Ubcsp.sendHalf e).engine = l at *
    obtain ⟨d, hd⟩ := finishPoll_eq (Ubcsp.sendHalf e).delay l.2.2
    refine ⟨⟨hpaced, hranged, ?_, ?_, h.reliable, ?_⟩, fun hconf =>
      hrank.imp_right fun hlower => ?_⟩
    · rw [hd]
      exact hkeeps.active hstate
    · rw [hd]
      exact hkeeps.packet.trans hpacket
    · rw [hd]
      exact hkeeps.number.trans hnumber
    · refine Nat.lt_of_le_of_lt (finishPoll_wait_le hkeeps.tx ?_ hdelay fun hwait => ?_) hlower
      · have hresp : l.2.2.link.resp = (Ubcsp.sendHalf e).engine.link.resp := hloop hconf
        have hdue : l.2.2.link.packet = (Ubcsp.sendHalf e).engine.link.packet := hkeeps.due
        rw [Link.wait, Link.wait, hresp, hdue]
      · rw [sendHalf_engine_delay] at hwait
        rw [Ubcsp.sendHalf, if_pos hwait]

/-! ## The frame on the UART -/

end OpenwrtFeed.Ubcsp

namespace OpenwrtFeed.HciPoll
open Ubcsp HciQueue HciBridge

/-! ## Turns that leave the op alone -/

namespace Driver
variable {stray : UInt8 → UInt8} {d : Driver} {p : Packet} {q : Fin 8}

/-- Nothing is acknowledged, the engine is not reset, and no op is copied. -/
def Undisturbed (stray : UInt8 → UInt8) (d : Driver) (t : Turn) : Prop :=
  (d.poll stray t.arrived).activity.Quiet ∧ (d.turn stray t).2.copied = []

/-- The driver after a turn. -/
def next (stray : UInt8 → UInt8) (d : Driver) (t : Turn) : Driver := (d.turn stray t).1

end Driver

/-! ## Every run -/

end OpenwrtFeed.HciPoll
