import OpenwrtFeed.EngineMessages
import OpenwrtFeed.LossyLink
import Mathlib.Data.List.Chain

/-! # Two engines run the link protocol

`Station.Matches x a incoming outgoing` relates a station to a side of the link
protocol.  The octets in the UART of the station are, once the receiver has
unescaped them, the messages `incoming` with noise in between, and the frames it
has put on its line bring the messages `outgoing` to the other station.  Every step
of two stations is a number of steps of the protocol (`Linked.step`), so that what
holds of the protocol holds of the engines.
-/
namespace OpenwrtFeed.Ubcsp

/-! ## The outgoing line -/

/-- The messages a frame on the line brings. -/
inductive WireFrame.Brings : WireFrame → List Message → Prop
  | whole {m : Message} (closed : Bool) : m.Valid → Brings ⟨slipStuff m.frame, closed, false⟩ [m]
  | piece {m : Message} {w : List UInt8} : m.Valid → w <+: slipStuff m.frame →
      w ≠ slipStuff m.frame → Brings ⟨w, false, false⟩ []
  | damaged {s : List UInt8} : Noise s → Brings ⟨slipStuff s, true, true⟩ []
  | lost {w : List UInt8} : Brings ⟨w, false, true⟩ []

/-- A beginning of a frame on the line, without its end. -/
theorem WireFrame.Brings.of_beginning {m : Message} (hm : m.Valid) {w : List UInt8}
    (hw : w <+: slipStuff m.frame) :
    ∃ ms, ms.Sublist [m] ∧ WireFrame.Brings ⟨w, false, false⟩ ms := by
  by_cases heq : w = slipStuff m.frame
  · exact ⟨[m], .refl _, heq ▸ .whole false hm⟩
  · exact ⟨[], List.nil_sublist _, .piece hm hw heq⟩

/-- Cutting a frame off may lose its message. -/
theorem WireFrame.Brings.cut {f : WireFrame} {ms : List Message} (h : f.Brings ms) {w : List UInt8}
    (hw : w <+: f.octets) : ∃ ms', ms'.Sublist ms ∧ (f.cut w).Brings ms' := by
  cases h with
  | whole closed hm => exact WireFrame.Brings.of_beginning hm hw
  | piece hm hv hne =>
    refine ⟨[], .refl _, .piece hm (hw.trans hv) ?_⟩
    rintro rfl
    exact hne (hv.eq_of_length_le hw.length_le)
  | damaged hs => exact ⟨[], .refl _, .lost⟩
  | lost => exact ⟨[], .refl _, .lost⟩

/-- What is left of a frame is a message or noise, unless it counts as lost. -/
theorem WireFrame.Brings.octets {f : WireFrame} {ms : List Message} (h : f.Brings ms)
    (hl : ¬ f.Lost) : ∃ s, f.octets = slipStuff s ∧ Reads [s] ms := by
  cases h with
  | whole closed hm => exact ⟨_, rfl, .message hm .nil⟩
  | @piece m w hm hv hne =>
    obtain ⟨q, hq, rfl | ⟨-, rfl⟩⟩ := (ubcspSlip id).prefix_stuff hv
    · refine ⟨q, rfl, .noise (noise_of_cut hm hq ?_) .nil⟩
      rintro rfl
      exact hne rfl
    · exact absurd ⟨rfl, Or.inr (by simp [ubcspSlip])⟩ hl
  | damaged hs => exact ⟨_, rfl, .noise hs .nil⟩
  | lost => exact absurd ⟨rfl, Or.inl rfl⟩ hl

/-- The messages the frames on their way bring. -/
inductive FlightBrings : List WireFrame → List Message → Prop
  | nil : FlightBrings [] []
  | cons {f : WireFrame} {fs : List WireFrame} {ms ms' : List Message} :
      f.Brings ms → FlightBrings fs ms' → FlightBrings (f :: fs) (ms ++ ms')

namespace FlightBrings

theorem append {fs fs' : List WireFrame} {ms ms' : List Message} (h : FlightBrings fs ms)
    (h' : FlightBrings fs' ms') : FlightBrings (fs ++ fs') (ms ++ ms') := by
  induction h with
  | nil => exact h'
  | cons hf _ ih => simpa only [List.cons_append, List.append_assoc] using .cons hf ih

theorem snoc {fs : List WireFrame} {f : WireFrame} {ms ms' : List Message} (h : FlightBrings fs ms)
    (hf : f.Brings ms') : FlightBrings (fs ++ [f]) (ms ++ ms') := by
  have := h.append (.cons hf .nil)
  rwa [List.append_nil] at this

theorem split {fs fs' : List WireFrame} {ms : List Message} (h : FlightBrings (fs ++ fs') ms) :
    ∃ ms₁ ms₂, ms = ms₁ ++ ms₂ ∧ FlightBrings fs ms₁ ∧ FlightBrings fs' ms₂ := by
  induction fs generalizing ms with
  | nil => exact ⟨[], ms, rfl, .nil, h⟩
  | cons f fs ih =>
    cases h with
    | @cons _ _ mf ms' hf h =>
      obtain ⟨ms₁, ms₂, rfl, h₁, h₂⟩ := ih h
      exact ⟨mf ++ ms₁, ms₂, (List.append_assoc ..).symm, .cons hf h₁, h₂⟩

/-- A frame in the middle may be replaced by one that brings less. -/
theorem replace {before after fs : List WireFrame} {f : WireFrame} {ms : List Message}
    (h : FlightBrings (before ++ f :: after) ms)
    (hf : ∀ ms, f.Brings ms → ∃ ms', ms'.Sublist ms ∧ FlightBrings fs ms') :
    ∃ ms', ms'.Sublist ms ∧ FlightBrings (before ++ fs ++ after) ms' := by
  obtain ⟨ms₁, ms₂, rfl, h₁, h₂⟩ := h.split
  cases h₂ with
  | @cons _ _ mf ms' hfb h₂ =>
    obtain ⟨mf', hsub, hfs⟩ := hf mf hfb
    refine ⟨ms₁ ++ mf' ++ ms', ?_, (h₁.append hfs).append h₂⟩
    rw [List.append_assoc]
    exact (List.Sublist.refl ms₁).append (hsub.append (List.Sublist.refl ms'))

end FlightBrings

/-- The messages that the frame being put on the line will bring, once the output side
`t` has finished it.  With nothing left to send the frame has been abandoned. -/
inductive SendingBrings : Tx → Option WireFrame → List Message → Prop
  | idle {t : Tx} : t.sendSize = 0 → SendingBrings t none []
  | abandoned {t : Tx} {f : WireFrame} {ms : List Message} : t.sendSize = 0 → f.Brings ms →
      SendingBrings t (some f) ms
  | whole {t : Tx} {m : Message} {w : List UInt8} : t.sendSize ≠ 0 → t.Framed → m.Valid →
      w ++ t.pendingWire = slipStuff m.frame ++ [slipFrame] →
      SendingBrings t (some ⟨w, false, false⟩) [m]
  | damaged {t : Tx} {s w : List UInt8} : t.sendSize ≠ 0 → t.Framed → Noise s →
      w ++ t.pendingWire = slipStuff s ++ [slipFrame] → SendingBrings t (some ⟨w, false, true⟩) []

namespace SendingBrings

/-- When nothing is left to send, the frame on the line is what has been abandoned. -/
theorem flight {t : Tx} {sending : Option WireFrame} {ms : List Message}
    (h : SendingBrings t sending ms) (hs : t.sendSize = 0) : FlightBrings sending.toList ms := by
  cases h with
  | idle _ => exact .nil
  | abandoned _ hf => simpa using FlightBrings.cons hf .nil
  | whole hne => exact absurd hs hne
  | damaged hne => exact absurd hs hne

/-- Abandoning the frame. -/
theorem abandon {t t' : Tx} {sending : Option WireFrame} {ms : List Message}
    (h : SendingBrings t sending ms) (hs : t'.sendSize = 0) :
    ∃ ms', ms'.Sublist ms ∧ SendingBrings t' sending ms' := by
  cases h with
  | idle _ => exact ⟨[], .refl _, .idle hs⟩
  | abandoned _ hf => exact ⟨ms, .refl _, .abandoned hs hf⟩
  | @whole m w _ hf hm hw =>
    obtain ⟨u, hu, -⟩ := Tx.pendingWire_eq hf
    rw [hu, ← List.append_assoc] at hw
    obtain ⟨ms', hsub, hb⟩ := WireFrame.Brings.of_beginning hm ⟨u, List.append_cancel_right hw⟩
    exact ⟨ms', hsub, .abandoned hs hb⟩
  | damaged => exact ⟨[], .refl _, .abandoned hs .lost⟩

/-- A frame that has just been started will bring its message, unless half an escape of
another frame is pending. -/
theorem start {e : Engine} {m : Message} (hm : m.Valid)
    (hesc : e.sendSlipEscape = 0 ∨ e.sendSlipEscape = slipEscapeFrame ∨
      e.sendSlipEscape = slipEscapeEscape)
    {body : Option (List UInt8)} (hbody : body.getD [] = m.parts.2)
    (hsome : ∀ l, body = some l → l ≠ []) :
    ∃ ms, ms.Sublist [m] ∧
      SendingBrings (setupPacket m.parts.1 body m.parts.2.length e).tx
        (some ⟨[], false, decide (e.sendSlipEscape ≠ 0)⟩) ms := by
  have hframed : (setupPacket m.parts.1 body m.parts.2.length e).tx.Framed := by
    apply framed_setupPacket hesc m.length_header
    · intro hnone
      rw [← hbody, hnone]
      rfl
    · intro l hl
      have hpos := List.length_pos_of_ne_nil (hsome l hl)
      rw [← hbody, hl]
      exact ⟨hpos, Nat.le_refl _⟩
  have hlen : m.parts.2.length = (body.getD []).length := by rw [hbody]
  have hwire := pendingWire_setupPacket e m.length_header hlen
  have hsize : (setupPacket m.parts.1 body m.parts.2.length e).tx.sendSize ≠ 0 := by
    show (4 : Nat) ≠ 0
    decide
  rw [hbody] at hwire
  by_cases h0 : e.sendSlipEscape = 0
  · rw [if_pos h0, ← m.frame_eq] at hwire
    simp only [h0, ne_eq, not_true_eq_false, decide_false]
    exact ⟨[m], .refl _, .whole hsize hframed hm hwire⟩
  · have hc := hesc.resolve_left h0
    have hstuff : slipStuff (damagedFrame e.sendSlipEscape m.parts.1 m.parts.2) =
        e.sendSlipEscape :: slipStuff (sealedFrame (m.parts.1.take 3) m.parts.2) := by
      have hone : (ubcspSlip id).stuffOctet e.sendSlipEscape = [e.sendSlipEscape] := by
        rcases hc with hc | hc <;> rw [hc] <;> rfl
      unfold damagedFrame slipStuff
      rw [SlipCode.stuff_cons, hone]
      rfl
    rw [if_neg h0] at hwire
    simp only [h0, ne_eq, not_false_eq_true, decide_true]
    exact ⟨[], List.nil_sublist _,
      .damaged hsize hframed (m.noise_damaged hm hc) (by rw [hstuff]; exact hwire)⟩

end SendingBrings

/-! ## A station and its side of the protocol -/

/-- The octets in the UART of a station, after the `p` that has been read of the frame
in progress, are the messages `ms` with noise in between. -/
def InboxBrings (stray : UInt8 → UInt8) (p : SlipCode.Partial UInt8) (inbox : List UInt8)
    (ms : List Message) : Prop :=
  ∃ o ss, (ubcspSlip stray).run p inbox = (⟨false, o⟩, ss) ∧ Reads (ss ++ [o]) ms

/-- The station `x` is at the side `a` of the protocol, with the messages `incoming` in
its UART and `outgoing` on its line. -/
structure Station.Matches (x : Station) (a : Peer) (incoming outgoing : List Message) : Prop where
  runs : EngineRuns x.engine a
  reliable : a.Reliable
  escape : x.engine.sendSlipEscape = 0 ∨ x.engine.sendSlipEscape = slipEscapeFrame ∨
    x.engine.sendSlipEscape = slipEscapeEscape
  canSend : x.canSend = a.canSend
  submitted : x.submitted = a.submitted
  cleared : x.cleared = a.submitted.take a.cleared
  received : x.received = a.received
  peerReset : x.peerReset = false
  first : x.states.head? = some .uninitialized
  current : x.states.getLast? = some x.engine.linkEstablishmentState
  advances : x.states.IsChain Advances
  inbox : ∃ n p, 512 ≤ n ∧ Deframes n p x.engine ∧ InboxBrings x.stray p x.inbox incoming
  line : ∃ ms ms', FlightBrings x.flight ms ∧ SendingBrings x.engine.tx x.sending ms' ∧
    outgoing = ms ++ ms'

namespace Station

theorem start_matches (stray : UInt8 → UInt8) : (Station.start stray).Matches .start [] [] where
  runs := ⟨rfl, rfl, rfl, rfl⟩
  reliable := nofun
  escape := Or.inl rfl
  canSend := rfl
  submitted := rfl
  cleared := rfl
  received := rfl
  peerReset := rfl
  first := rfl
  current := rfl
  advances := .singleton _
  inbox := ⟨512, .empty, Nat.le_refl _, ⟨rfl, rfl, nofun, nofun, fun _ => rfl⟩, [], [], rfl,
    .noise noise_nil .nil⟩
  line := ⟨[], [], .nil, .idle rfl, rfl⟩

/-- The messages on the lines are kept elsewhere. -/
theorem Matches.of_line {x : Station} {a : Peer} {incoming outgoing : List Message}
    (h : x.Matches a incoming outgoing) (line : List Message) :
    x.Matches { a with line := line } incoming outgoing :=
  ⟨⟨h.runs.link, h.runs.sendPacket, h.runs.sequence, h.runs.ack⟩, h.reliable, h.escape, h.canSend,
    h.submitted, h.cleared, h.received, h.peerReset, h.first, h.current, h.advances,
      h.inbox, h.line⟩

end Station

/-! ## Receiving -/

/-- A side that takes a message goes on to the next link-establishment state at most. -/
theorem Sound.advances {a b : Peer} {m : Message} {line : List Message} (h : Sound a b)
    (hline : b.line = m :: line) :
    Advances a.link.state ((a.acknowledge m.ackValue).handle m).link.state := by
  have hack := h.acknowledge hline
  have hfits := hack.2.fits m (hline ▸ List.mem_cons_self)
  rw [← acknowledge_link m.ackValue a]
  generalize a.acknowledge m.ackValue = a₁ at hfits ⊢
  cases m with
  | ack v => exact Or.inl rfl
  | data v i p =>
    unfold Peer.handle
    dsimp only
    split <;> exact Or.inl rfl
  | le k =>
    cases k with
    | sync =>
      have hrecv : a₁.link.receive 0 = { a₁.link with resp := 1 } := if_pos hfits.2
      have hstate : (a₁.link.receive 0).state = a₁.link.state := by rw [hrecv]
      exact Or.inl hstate
    | syncResp =>
      by_cases hu : a₁.link.state = .uninitialized
      · exact Or.inr (Or.inl ⟨hu, congrArg Link.state (if_pos hu)⟩)
      · exact Or.inl (congrArg Link.state (if_neg hu))
    | conf =>
      by_cases hu : a₁.link.state = .uninitialized
      · exact Or.inl (congrArg Link.state (if_neg (not_not.mpr hu)))
      · have hrecv : a₁.link.receive 2 = { a₁.link with resp := 2 } := if_pos hu
        have hstate : (a₁.link.receive 2).state = a₁.link.state := by rw [hrecv]
        exact Or.inl hstate
    | confResp =>
      cases hs : a₁.link.state with
      | uninitialized => exact absurd hs hfits.2.1
      | initialized => exact Or.inr (Or.inr ⟨rfl, rfl⟩)
      | active => exact Or.inl rfl
    | none => exact absurd hfits id

namespace Station
variable {x : Station} {activity : Activity} {visited : List LinkState} {value : UInt8}
  {rest : List UInt8} {e e' : Engine} {a b : Peer} {incoming outgoing after : List Message}

/-- One more state at the end. -/
theorem report_states (x : Station) (activity activity' : Activity) (visited : List LinkState)
    (inbox inbox' : List UInt8) (e e' : Engine) :
    (x.report activity' (visited ++ [e.linkEstablishmentState]) inbox' e').states =
      (x.report activity visited inbox e).states ++ [e'.linkEstablishmentState] := by
  simp [report]

theorem Matches.states_snoc (h : x.Matches a incoming outgoing) {s : LinkState}
    (hs : Advances x.engine.linkEstablishmentState s) :
    (x.states ++ [s]).head? = some .uninitialized ∧ (x.states ++ [s]).getLast? = some s ∧
      (x.states ++ [s]).IsChain Advances := by
  refine ⟨by rw [List.head?_append, h.first]; rfl, by simp, ?_⟩
  rw [List.isChain_append]
  refine ⟨h.advances, .singleton _, ?_⟩
  intro y hy z hz
  rw [h.current] at hy
  cases hy
  cases hz
  exact hs

/-- An octet that ends no message changes the receive buffers, the delay and the wish to
send an ACK at most. -/
theorem Matches.quiet
    (h : (x.report activity visited (value :: rest) e).Matches a incoming outgoing)
    (hrec : activity.received = false) (hlink : e'.link = e.link)
    (hpacket : e'.sendPacket = e.sendPacket) (hseq : e'.sequenceNumber = e.sequenceNumber)
    (hack : e'.ackNumber = e.ackNumber) (htx : e'.tx = e.tx)
    (hinbox : ∃ n p, 512 ≤ n ∧ Deframes n p e' ∧ InboxBrings x.stray p rest incoming) :
    (x.report activity (visited ++ [e.linkEstablishmentState]) rest e').Matches a incoming
      outgoing := by
  have hstate : e'.linkEstablishmentState = e.linkEstablishmentState := congrArg Link.state hlink
  obtain ⟨hfirst, hcurrent, hadvances⟩ := h.states_snoc (Or.inl hstate)
  have hescape : e'.sendSlipEscape = e.sendSlipEscape := congrArg Tx.sendSlipEscape htx
  have hreceived := h.received
  rw [← report_states x activity activity visited (value :: rest) rest e e']
    at hfirst hcurrent hadvances
  refine ⟨⟨hlink.trans h.runs.link, hpacket.trans h.runs.sendPacket, hseq.trans h.runs.sequence,
    hack.trans h.runs.ack⟩, h.reliable, hescape ▸ h.escape, h.canSend, h.submitted, h.cleared, ?_,
    h.peerReset, hfirst, hcurrent, hadvances, hinbox, ?_⟩
  · simp only [report, hrec, Bool.false_eq_true, if_false] at hreceived ⊢
    exact hreceived
  · show ∃ ms ms', FlightBrings x.flight ms ∧ SendingBrings e'.tx x.sending ms' ∧ _
    rw [htx]
    exact h.line

/-- An engine that abandons the frame being sent brings no more than before. -/
theorem Matches.abandon (h : x.Matches a incoming outgoing) {t' : Tx}
    (ht : ∃ n, (n = x.engine.sendSize ∨ n = 0) ∧ t' = { x.engine.tx with sendSize := n }) :
    ∃ outgoing', outgoing'.Sublist outgoing ∧
      ∃ ms ms', FlightBrings x.flight ms ∧ SendingBrings t' x.sending ms' ∧
        outgoing' = ms ++ ms' := by
  obtain ⟨ms, ms', hflight, hsending, rfl⟩ := h.line
  obtain ⟨n, rfl | rfl, rfl⟩ := ht
  · exact ⟨_, .refl _, ms, ms', hflight, hsending, rfl⟩
  · have h0 : ({ x.engine.tx with sendSize := 0 } : Tx).sendSize = 0 := rfl
    obtain ⟨ms'', hsub, hsending'⟩ := hsending.abandon h0
    exact ⟨_, (List.Sublist.refl ms).append hsub, ms, ms'', hflight, hsending', rfl⟩

/-- What was being sent when the call began is what is being sent now, or has been
reported: the list of packets reported sent grows with the side. -/
theorem Matches.cleared_snoc {activity' : Activity} {a' : Peer}
    (h : (x.report activity visited (value :: rest) e).Matches a incoming outgoing) (hs : Safe a b)
    (hkept : activity.sent = false → e.sendPacket = x.engine.sendPacket)
    (ht : Outcome a a' activity' e') :
    (if (activity.or activity').sent then x.cleared ++ x.engine.sendPacket.toList else x.cleared) =
      a'.submitted.take a'.cleared := by
  have hcan : (x.canSend || activity.sent) = a.canSend := h.canSend
  have hcleared : (if activity.sent then x.cleared ++ x.engine.sendPacket.toList else x.cleared) =
    a.submitted.take a.cleared := h.cleared
  rw [ht.submitted, ht.cleared, Activity.or_sent]
  cases hsent : activity.sent with
  | true =>
    have hnone : a.outstanding = none :=
      hs.outstanding_eq_none (by rw [← hcan, hsent, Bool.or_true])
    rw [hsent, if_pos rfl] at hcleared
    simp [hcleared, hnone]
  | false =>
    have hpk : x.engine.sendPacket = a.outstanding := (hkept hsent).symm.trans h.runs.sendPacket
    rw [hsent, if_neg Bool.false_ne_true] at hcleared
    rw [hcleared, hpk]
    cases activity'.sent <;> simp

/-- The closing delimiter of a message: the upper layer learns what has become of the
side. -/
theorem Matches.taken {activity' : Activity} {a' : Peer}
    (h : (x.report activity visited (value :: rest) e).Matches a incoming outgoing)
    (hs : Safe a b) (hrec : activity.received = false)
    (hkept : activity.sent = false → e.sendPacket = x.engine.sendPacket)
    (ht : Taken a a' activity' e e') (hadv : Advances a.link.state a'.link.state)
    (hinbox : ∃ n p, 512 ≤ n ∧ Deframes n p e' ∧ InboxBrings x.stray p rest after) :
    ∃ outgoing', outgoing'.Sublist outgoing ∧
      (x.report (activity.or activity') (visited ++ [e.linkEstablishmentState]) rest e').Matches a'
        after outgoing' ∧
      ((activity.or activity').sent = false → e'.sendPacket = x.engine.sendPacket) := by
  obtain ⟨hruns, hreset, hcan, hsub, -, hkept', hreceived⟩ := ht.outcome
  have hstate : Advances e.linkEstablishmentState e'.linkEstablishmentState := by
    rw [show e.linkEstablishmentState = a.link.state from congrArg Link.state h.runs.link,
      show e'.linkEstablishmentState = a'.link.state from congrArg Link.state hruns.link]
    exact hadv
  obtain ⟨hfirst, hcurrent, hadvances⟩ := h.states_snoc hstate
  rw [← report_states x activity (activity.or activity') visited (value :: rest) rest e e']
    at hfirst hcurrent hadvances
  have hcan0 : (x.canSend || activity.sent) = a.canSend := h.canSend
  have hreset0 : (x.peerReset || activity.peerReset) = false := h.peerReset
  have hrecv0 : x.received = a.received := by
    have := h.received
    simpa only [report, hrec, Bool.false_eq_true, if_false] using this
  have hclear := h.cleared_snoc hs hkept ht.outcome
  obtain ⟨outgoing', hsublist, hline⟩ := h.abandon ht.tx
  have hesc : e'.sendSlipEscape = e.sendSlipEscape := by
    obtain ⟨n, -, htx⟩ := ht.tx
    exact congrArg Tx.sendSlipEscape htx
  refine ⟨outgoing', hsublist,
    ⟨hruns, fun p hp => h.reliable p (hsub ▸ hp), hesc ▸ h.escape, ?_, ?_, hclear, ?_, ?_, hfirst,
      hcurrent, hadvances, hinbox, hline⟩, ?_⟩
  · show (x.canSend || (activity.or activity').sent) = a'.canSend
    rw [hcan, ← hcan0, Activity.or_sent, Bool.or_assoc]
  · exact h.submitted.trans hsub.symm
  · show (if (activity.or activity').received then x.received ++ [e'.handedOver] else x.received) =
        a'.received
    rw [hreceived, Activity.or_received, hrec, Bool.false_or, hrecv0]
  · show (x.peerReset || (activity.or activity').peerReset) = false
    rw [Activity.or_peerReset, ← Bool.or_assoc, hreset0, hreset]
    rfl
  · intro hsent
    rw [Activity.or_sent, Bool.or_eq_false_iff] at hsent
    have hsame : a'.outstanding = a.outstanding := by
      unfold Peer.outstanding
      rw [hsub, hkept' hsent.2]
    rw [hruns.sendPacket, hsame, ← h.runs.sendPacket]
    exact hkept hsent.1

theorem handle_line (m : Message) (v : Nat) (a : Peer) :
    ((a.acknowledge v).handle m).line = a.line := by
  have hack : (a.acknowledge v).line = a.line := by
    unfold Peer.acknowledge
    split <;> rfl
  cases m with
  | le k => exact hack
  | ack i => exact hack
  | data i j p =>
    unfold Peer.handle
    dsimp only
    split <;> exact hack

end Station

/-- The sides that two stations can be at. -/
inductive PeersReachable : Peer → Peer → Prop
  | start : PeersReachable .start .start
  | left {a b a' b' : Peer} : PeersReachable a b → PeerStep a b a' b' → PeersReachable a' b'
  | right {a b a' b' : Peer} : PeersReachable a b → PeerStep b a b' a' → PeersReachable a' b'

theorem PeersReachable.sound {a b : Peer} (h : PeersReachable a b) : Sound a b := by
  induction h with
  | start => exact ⟨.start, .start⟩
  | left _ hstep ih => exact ih.step hstep
  | right _ hstep ih => exact (ih.symm.step hstep).symm

theorem PeersReachable.symm {a b : Peer} (h : PeersReachable a b) : PeersReachable b a := by
  induction h with
  | start => exact .start
  | left _ hstep ih => exact ih.right hstep
  | right _ hstep ih => exact ih.left hstep

/-- The stations `x` and `y` are at the sides `a` and `b`, which can be reached; a message
on a line is in the UART it is going to, or still on the way. -/
structure Linked (x y : Station) (a b : Peer) (inX outX inY outY : List Message) : Prop where
  left : x.Matches a inX outX
  right : y.Matches b inY outY
  lineLeft : a.line = inY ++ outX
  lineRight : b.line = inX ++ outY
  reachable : PeersReachable a b

theorem Linked.symm {x y : Station} {a b : Peer} {inX outX inY outY : List Message}
    (h : Linked x y a b inX outX inY outY) : Linked y x b a inY outY inX outX :=
  ⟨h.right, h.left, h.lineRight, h.lineLeft, h.reachable.symm⟩

/-- The stations run the protocol. -/
def Runs (x y : Station) : Prop := ∃ a b inX outX inY outY, Linked x y a b inX outX inY outY

theorem Runs.symm {x y : Station} (h : Runs x y) : Runs y x := by
  obtain ⟨a, b, inX, outX, inY, outY, h⟩ := h
  exact ⟨b, a, inY, outY, inX, outX, h.symm⟩

/-- Fewer messages on the line. -/
theorem Linked.lose {x x' y : Station} {a b : Peer} {inX outX outX' inY outY : List Message}
    (h : Linked x y a b inX outX inY outY) (hx : x'.Matches a inX outX')
    (hsub : outX'.Sublist outX) :
    Linked x' y { a with line := inY ++ outX' } b inX outX' inY outY := by
  refine ⟨hx.of_line _, h.right, rfl, h.lineRight, h.reachable.left (.lose ?_)⟩
  rw [h.lineLeft]
  exact (List.Sublist.refl inY).append hsub

/-- Taking the oldest message. -/
theorem Linked.receive {x x' y : Station} {a b : Peer} {m : Message}
    {inX outX outX' inY outY : List Message} (h : Linked x y a b (m :: inX) outX inY outY)
    (hx : x'.Matches ((a.acknowledge m.ackValue).handle m) inX outX') (hsub : outX'.Sublist outX) :
    Linked x' y { (a.acknowledge m.ackValue).handle m with line := inY ++ outX' }
      { b with line := inX ++ outY } inX outX' inY outY := by
  have hb : b.line = m :: (inX ++ outY) := h.lineRight
  have hstep := h.reachable.left (.receive hb)
  refine ⟨hx.of_line _, h.right.of_line _, rfl, rfl, hstep.left (.lose ?_)⟩
  rw [Station.handle_line, h.lineLeft]
  exact (List.Sublist.refl inY).append hsub

/-- In the middle of a call of the station `x`: the activity so far, the states gone
through, the octets still to be read, and the engine. -/
structure MidCall (x y : Station) (activity : Activity) (visited : List LinkState)
    (rest : List UInt8) (e : Engine) : Prop where
  runs : Runs (x.report activity visited rest e) y
  armed : activity.received = true → e.receiveArmed = false
  kept : activity.sent = false → e.sendPacket = x.engine.sendPacket

/-- **One octet is a step of the protocol or none.** -/
theorem MidCall.octet {x y : Station} {activity : Activity} {visited : List LinkState}
    {value : UInt8} {rest : List UInt8} {e : Engine}
    (h : MidCall x y activity visited (value :: rest) e) (harmed : e.receiveArmed = true) :
    MidCall x y (receiveOctet x.stray value activity e).1
    (visited ++ [e.linkEstablishmentState]) rest
      (receiveOctet x.stray value activity e).2 := by
  obtain ⟨⟨a, b, inX, outX, inY, outY, hl⟩, hoff, hkept⟩ := h
  have hrec : activity.received = false := by
    cases hr : activity.received with
    | false => rfl
    | true => exact absurd ((hoff hr).symm.trans harmed) (by simp)
  obtain ⟨n, p, hn, hdef, o, ss, hrun, hreads⟩ := hl.left.inbox
  have hrun' : ((ubcspSlip x.stray).run p (value :: rest)) = (⟨false, o⟩, ss) := hrun
  rw [SlipCode.run_cons, Prod.mk.injEq] at hrun'
  obtain ⟨hp, hss⟩ := hrun'
  have hrest : (ubcspSlip x.stray).run ((ubcspSlip x.stray).step p value).1 rest =
      (⟨false, o⟩, ((ubcspSlip x.stray).run ((ubcspSlip x.stray).step p value).1 rest).2) := by
    rw [← hp]
  have hdef0 : Deframes n p e := hdef
  obtain ⟨hdef', ⟨hnone, r, hr, hoctet⟩ | ⟨s, rfl, -, hstep, hoctet⟩⟩ :=
    hdef0.octet harmed value activity
  · rw [hnone, Option.toList_none, List.nil_append] at hss
    rw [hss] at hrest
    rw [hoctet] at hdef' ⊢
    exact ⟨⟨a, b, inX, outX, inY, outY, hl.left.quiet hrec rfl rfl rfl rfl rfl
      ⟨n, _, hn, hdef', o, ss, hrest, hreads⟩, hl.right, hl.lineLeft, hl.lineRight, hl.reachable⟩,
      fun h => absurd (hrec.symm.trans h) (by simp), hkept⟩
  · rw [hstep] at hss hrest hdef'
    rw [hoctet] at hdef' ⊢
    dsimp only [Option.toList_some, List.cons_append, List.nil_append] at hss
    generalize ((ubcspSlip x.stray).run .empty rest).2 = ss' at hss hrest
    subst hss
    rcases hreads.cons with ⟨hnoise, hreads'⟩ | ⟨m, inX', hm, rfl, rfl, hreads'⟩
    · obtain ⟨r, ack, d, hr, hend⟩ := endOfFrame_of_rejected hdef0 harmed (hnoise n hn) activity
      rw [hend] at hdef' ⊢
      exact ⟨⟨a, b, inX, outX, inY, outY, hl.left.quiet hrec rfl rfl rfl rfl rfl
        ⟨n, _, hn, hdef', o, ss', hrest, hreads'⟩, hl.right, hl.lineLeft, hl.lineRight,
          hl.reachable⟩,
        fun h => absurd (hrec.symm.trans h) (by simp), hkept⟩
    · have hsound := hl.reachable.sound
      have hline : b.line = m :: (inX' ++ outY) := hl.lineRight
      obtain ⟨activity', hact, htaken⟩ :=
        endOfFrame_message hdef0 harmed hn hm hl.left.runs hsound hline
        hl.left.reliable activity
      obtain ⟨outX', hsub, hmatch, hkept'⟩ := hl.left.taken hsound.1 hrec hkept htaken
        (hsound.advances hline) ⟨n, _, hn, hdef', o, ss', hrest, hreads'⟩
      rw [hact]
      refine ⟨⟨_, _, _, _, _, _, hl.receive hmatch hsub⟩, fun hr => htaken.disarmed ?_, hkept'⟩
      rwa [Activity.or_received, hrec, Bool.false_or] at hr

/-- The receive loop is a number of steps of the protocol. -/
theorem MidCall.loop {x y : Station} (rx more : List UInt8) {activity : Activity}
    {visited : List LinkState} {e : Engine} (h : MidCall x y activity visited (rx ++ more) e) :
    MidCall x y (receiveLoop x.stray rx activity e).1
      (visited ++ (loopStates x.stray rx activity e).map fun s => s.1.linkEstablishmentState)
      ((receiveLoop x.stray rx activity e).2.1 ++ more)
      (receiveLoop x.stray rx activity e).2.2 := by
  induction rx generalizing activity visited e with
  | nil => simpa [receiveLoop, loopStates] using h
  | cons value rx ih =>
    by_cases harmed : e.receiveArmed = true
    · have := ih (h.octet harmed)
      simpa [receiveLoop, loopStates, harmed] using this
    · simpa [receiveLoop, loopStates, harmed] using h

/-! ## Sending -/

/-- The sending half of a call, as far as the upper layer and the receive buffers are
concerned: it may write the output side and the link-establishment variables. -/
theorem Station.Matches.sent {x : Station} {a : Peer} {incoming outgoing outgoing' : List Message}
    {w : List UInt8} {e' : Engine} {l : Link} (h : x.Matches a incoming outgoing)
    (hrx : e'.rx = x.engine.rx) (hpacket : e'.sendPacket = x.engine.sendPacket)
    (hseq : e'.sequenceNumber = x.engine.sequenceNumber) (hack : e'.ackNumber = x.engine.ackNumber)
    (hlink : e'.link = l) (hstate : l.state = x.engine.linkEstablishmentState)
    (hescape : e'.sendSlipEscape = 0 ∨ e'.sendSlipEscape = slipEscapeFrame ∨
      e'.sendSlipEscape = slipEscapeEscape)
    (hline : ∃ ms ms', FlightBrings (x.line w).1 ms ∧ SendingBrings e'.tx (x.line w).2 ms' ∧
      outgoing' = ms ++ ms') :
    ((x.put w).report .none [] x.inbox e').Matches { a with link := l } incoming outgoing' := by
  have hstate' : e'.linkEstablishmentState = x.engine.linkEstablishmentState :=
    (congrArg Link.state hlink).trans hstate
  obtain ⟨hfirst, hcurrent, hadvances⟩ := h.states_snoc (Or.inl hstate')
  have hstates : ((x.put w).report .none [] x.inbox e').states =
      x.states ++ [e'.linkEstablishmentState] := by
    simp [Station.report, Station.put]
  obtain ⟨n, p, hn, hdef, hinbox⟩ := h.inbox
  refine ⟨⟨hlink, hpacket.trans h.runs.sendPacket, hseq.trans h.runs.sequence,
    hack.trans h.runs.ack⟩, h.reliable, hescape, ?_, h.submitted, h.cleared, h.received, ?_,
      hstates ▸ hfirst, hstates ▸ hcurrent,
    hstates ▸ hadvances, ⟨n, p, hn, hdef.of_rx hrx, hinbox⟩, hline⟩
  · exact (Bool.or_false x.canSend).trans h.canSend
  · exact (Bool.or_false x.peerReset).trans h.peerReset

/-- Starting a frame is starting its message, which is lost at once when half an escape
is pending. -/
theorem Linked.started {x y : Station} {a b : Peer} {inX outX inY outY : List Message}
    (h : Linked x y a b inX outX inY outY) (m : Message) (body : Option (List UInt8)) (l : Link)
    (e' : Engine)
    (hstep : PeerStep a b { a with line := a.line ++ [m], link := l } b) (hm : m.Valid)
    (hsize : x.engine.sendSize = 0)
    (htx : e'.tx = (setupPacket m.parts.1 body m.parts.2.length x.engine).tx)
    (hbody : body.getD [] = m.parts.2) (hsome : ∀ l, body = some l → l ≠ [])
    (hrx : e'.rx = x.engine.rx) (hpacket : e'.sendPacket = x.engine.sendPacket)
    (hseq : e'.sequenceNumber = x.engine.sequenceNumber) (hack : e'.ackNumber = x.engine.ackNumber)
    (hlink : e'.link = l) (hstate : l.state = x.engine.linkEstablishmentState) :
    Runs ((x.put [slipFrame]).report .none [] x.inbox e') y := by
  obtain ⟨ms, ms', hflight, hsending, rfl⟩ := h.left.line
  obtain ⟨ms'', hsub, hstart⟩ := SendingBrings.start hm h.left.escape hbody hsome
  have hlineEq : x.line [slipFrame] =
      (x.flight ++ x.sending.toList, some ⟨[], false, decide (x.engine.sendSlipEscape ≠ 0)⟩) := by
    simp [Station.line, hsize]
  have hescape : e'.sendSlipEscape = x.engine.sendSlipEscape := by
    have := congrArg Tx.sendSlipEscape htx
    exact this
  have hmatch : ((x.put [slipFrame]).report .none [] x.inbox e').Matches { a with link := l } inX
      (ms ++ ms' ++ ms'') :=
        h.left.sent hrx hpacket hseq hack hlink hstate (hescape ▸ h.left.escape)
    ⟨ms ++ ms', ms'', by rw [hlineEq]; exact hflight.append (hsending.flight hsize),
      by rw [hlineEq, htx]; exact hstart, rfl⟩
  refine ⟨_, b, inX, _, inY, outY, hmatch.of_line (inY ++ (ms ++ ms' ++ ms'')), h.right, rfl,
    h.lineRight, (h.reachable.left hstep).left (.lose ?_)⟩
  show (inY ++ (ms ++ ms' ++ ms'')).Sublist (a.line ++ [m])
  rw [h.lineLeft, List.append_assoc inY]
  exact (List.Sublist.refl inY).append ((List.Sublist.refl (ms ++ ms')).append hsub)

/-- A call that goes on with a frame leaves the protocol where it is. -/
theorem Linked.continued {x y : Station} {a b : Peer} {inX outX inY outY : List Message}
    {w : List UInt8} {t : Tx} (h : Linked x y a b inX outX inY outY)
    (hescape : t.sendSlipEscape = 0 ∨ t.sendSlipEscape = slipEscapeFrame ∨
      t.sendSlipEscape = slipEscapeEscape)
    (hline : ∃ ms ms', FlightBrings (x.line w).1 ms ∧ SendingBrings t (x.line w).2 ms' ∧
      outX = ms ++ ms') :
    Runs ((x.put w).report .none [] x.inbox (x.engine.withTx t)) y :=
  ⟨a, b, inX, outX, inY, outY, h.left.sent rfl rfl rfl rfl h.left.runs.link
    (congrArg Link.state h.left.runs.link).symm hescape hline, h.right, h.lineLeft, h.lineRight,
      h.reachable⟩

/-- One octet of the frame on the line, or its last one. -/
theorem Linked.sendOctet {x y : Station} {a b : Peer} {inX outX inY outY : List Message}
    (h : Linked x y a b inX outX inY outY) (hs : x.engine.sendSize ≠ 0) :
    Runs ((x.put (sendOctet x.engine).tx).report .none [] x.inbox (sendOctet x.engine).engine) y ∧
      (sendOctet x.engine).activity = .none ∧
      (sendOctet x.engine).engine.sendPacket = x.engine.sendPacket := by
  obtain ⟨ms, ms', hflight, hsending, rfl⟩ := h.left.line
  have hs' : x.engine.tx.sendSize ≠ 0 := hs
  -- the frame on the line, what it will be when it is finished, and what that brings
  obtain ⟨v, s, bad, hf, hx, hwire, hgoes, hends⟩ : ∃ v s bad, x.engine.tx.Framed ∧
      x.sending = some ⟨v, false, bad⟩ ∧ v ++ x.engine.tx.pendingWire = slipStuff s ++ [slipFrame] ∧
      (∀ (t : Tx) (v' : List UInt8), t.sendSize ≠ 0 → t.Framed →
        v' ++ t.pendingWire = slipStuff s ++ [slipFrame] →
          SendingBrings t (some ⟨v', false, bad⟩) ms') ∧
      WireFrame.Brings ⟨slipStuff s, true, bad⟩ ms' := by
    generalize hx : x.sending = sending at hsending
    cases hsending with
    | idle h0 => exact absurd h0 hs'
    | abandoned h0 => exact absurd h0 hs'
    | @whole m v _ hf hm hw =>
      exact ⟨v, m.frame, false, hf, rfl, hw, fun t v' h1 h2 h3 => .whole h1 h2 hm h3,
        .whole true hm⟩
    | @damaged s v _ hf hn hw =>
      exact ⟨v, s, true, hf, rfl, hw, fun t v' h1 h2 h3 => .damaged h1 h2 hn h3, .damaged hn⟩
  obtain ⟨u, hu, hclean⟩ := Tx.pendingWire_eq hf
  rcases sendOctet_pending hf hs with
    ⟨w, t, hcall, hf', hsize, -, hne, hw⟩ | ⟨w, t, hcall, hf', hsize, hesc, hw⟩
  · have hlast : w.getLast? ≠ some slipFrame := by
      intro hl
      obtain ⟨u', hu', -⟩ := Tx.pendingWire_eq hf'
      rw [hu', hu, ← List.append_assoc] at hw
      rw [← List.append_cancel_right hw] at hclean
      exact hclean (List.mem_append_left _ (List.mem_of_getLast? hl))
    have hlineEq : x.line w = (x.flight, some ⟨v ++ w, false, bad⟩) := by
      simp [Station.line, hne, hs, hlast, hx]
    rw [hcall]
    refine ⟨h.continued hf'.escape ⟨ms, ms', by rw [hlineEq]; exact hflight, ?_, rfl⟩, rfl, rfl⟩
    rw [hlineEq]
    apply hgoes t (v ++ w) hsize hf'
    rw [List.append_assoc, hw, hwire]
  · have hstuff : v ++ w = slipStuff s := by
      rw [← hw, ← List.append_assoc] at hwire
      exact List.append_cancel_right hwire
    have hlineEq : x.line (w ++ [slipFrame]) = (x.flight ++ [⟨slipStuff s, true, bad⟩], none) := by
      simp [Station.line, hs, hx, hstuff]
    -- the packet stays: it is reliable
    have hsent : sentPacket (x.engine.withTx t) = (.none, x.engine.withTx t) := by
      rcases sentPacket_eq (x.engine.withTx t) with ⟨hkeep, -⟩ | ⟨-, p, hp, hp0⟩
      · exact hkeep
      · have := (h.left.reliable.outstanding (h.left.runs.sendPacket.symm.trans hp)).2
        exact absurd (this.symm.trans hp0) (by decide)
    rw [hcall, hsent]
    refine ⟨h.continued hf'.escape ⟨ms ++ ms', [], ?_, ?_, by simp⟩, rfl, rfl⟩
    · rw [hlineEq]
      exact hflight.snoc hends
    · rw [hlineEq]
      exact .idle hsize

/-- A call that puts nothing on the line. -/
theorem Linked.silent {x y : Station} {a b : Peer} {inX outX inY outY : List Message}
    (h : Linked x y a b inX outX inY outY) :
    Runs ((x.put []).report .none [] x.inbox x.engine) y :=
  h.continued (t := x.engine.tx) h.left.escape h.left.line

/-- **The sending half of a call is a step of the protocol or none.** -/
theorem Linked.sendHalf {x y : Station} {a b : Peer} {inX outX inY outY : List Message}
    (h : Linked x y a b inX outX inY outY) :
    Runs ((x.put (sendHalf x.engine).tx).report .none [] x.inbox (sendHalf x.engine).engine) y ∧
      (sendHalf x.engine).activity = .none ∧
      (sendHalf x.engine).engine.sendPacket = x.engine.sendPacket := by
  have hlink := h.left.runs.link
  have hstate : a.link.state = x.engine.linkEstablishmentState := (congrArg Link.state hlink).symm
  have hpacket : a.link.packet = x.engine.linkEstablishmentPacket :=
    (congrArg Link.packet hlink).symm
  have hresp : a.link.resp = x.engine.linkEstablishmentResp := (congrArg Link.resp hlink).symm
  rcases sendHalf_cases x.engine with ⟨-, hc⟩ | ⟨-, hs, hc⟩ | ⟨-, hs, hp, hc⟩ | ⟨-, hs, hp, hc⟩
  · rw [hc]
    exact ⟨h.silent, rfl, rfl⟩
  · rw [hc]
    exact h.sendOctet hs
  · have hn : a.link.packet = .none := hpacket.trans hp
    rw [hc]
    rcases startFrame_cases x.engine with
      ⟨hr, hc⟩ | ⟨hr, p, hsp, hc⟩ | ⟨hr, hsp, -, hc⟩ | ⟨-, -, -, hc⟩
    all_goals rw [hc]
    · exact ⟨h.started (.le .confResp) (some (lePayload .confResp)) a.link.sendConfResp _
        (.sendConfResp hn (hresp ▸ hr)) (by simp [Message.Valid]) hs rfl rfl
          (by rintro l ⟨⟩; decide) rfl rfl rfl
        rfl (by rw [← hlink]; rfl) hstate, rfl, rfl⟩
    · have hout : a.outstanding = some p := h.left.runs.sendPacket.symm.trans hsp
      have hvalid := h.left.reliable.outstanding hout
      have hstarted := h.started (.data a.received.length a.cleared p) (some p.payload) a.link
        { setupPacket (dataHeader p x.engine.ackNumber x.engine.sequenceNumber) (some p.payload)
          p.length.toNat x.engine with sendAck := false }
        (.sendData hn (hresp ▸ hr) hout) hvalid hs
        (by rw [h.left.runs.ack, h.left.runs.sequence, hvalid.1.encodable.length]; rfl) rfl
        (by
          rintro l ⟨⟩ hnil
          have := hvalid.1.nonempty
          simp [hnil] at this)
        rfl rfl rfl rfl hlink hstate
      exact ⟨hstarted, rfl, rfl⟩
    · have hout : a.outstanding = none := h.left.runs.sendPacket.symm.trans hsp
      have hstarted := h.started (.ack a.received.length) none a.link
        { setupPacket (ackHeader x.engine.ackNumber) none 0 x.engine with sendAck := false }
        (.sendAck hn (hresp ▸ hr) hout) trivial hs (by rw [h.left.runs.ack]; rfl) rfl
        (by simp) rfl rfl rfl rfl hlink hstate
      exact ⟨hstarted, rfl, rfl⟩
    · exact ⟨h.silent, rfl, rfl⟩
  · have hn : a.link.packet ≠ .none := fun hnone => hp (hpacket.symm.trans hnone)
    have hfour : (Message.le a.link.packet).parts.2.length = 4 := by
      show (lePayload a.link.packet).length = 4
      cases hk : a.link.packet with
      | none => exact absurd hk hn
      | _ => rfl
    have hstarted := h.started (.le a.link.packet) (some (lePayload a.link.packet)) a.link.sendLe
      (startLeFrame x.engine).engine (.sendLe hn) hn hs
      (by rw [hfour, hpacket]; rfl) rfl
      (by
        rintro l ⟨⟩ hnil
        have h4 : (lePayload a.link.packet).length = 4 := hfour
        simp [hnil] at h4)
      rfl rfl rfl rfl (by rw [← hlink]; rfl) hstate
    rw [hc]
    exact ⟨hstarted, rfl, rfl⟩

/-! ## Whole steps -/

/-- **A call of `ubcsp_poll` is a number of steps of the protocol.** -/
theorem Runs.poll {x y : Station} (h : Runs x y) (n : Nat) : Runs (x.poll n) y := by
  obtain ⟨a, b, inX, outX, inY, outY, hl⟩ := h
  obtain ⟨hsend, hact, hpacket⟩ := hl.sendHalf
  unfold Station.poll
  dsimp only
  unfold ubcspPoll pollStates
  dsimp only
  by_cases hret : (Ubcsp.sendHalf x.engine).returned = true
  · rw [if_pos hret, if_pos hret, List.take_append_drop]
    exact hsend
  · rw [if_neg hret, if_neg hret]
    have hmid : MidCall (x.put (Ubcsp.sendHalf x.engine).tx) y (Ubcsp.sendHalf x.engine).activity []
        (x.inbox.take n ++ x.inbox.drop n) (Ubcsp.sendHalf x.engine).engine := by
      rw [List.take_append_drop, hact]
      exact ⟨hsend, nofun, fun _ => hpacket⟩
    obtain ⟨hruns, -, -⟩ := hmid.loop
    obtain ⟨d, hd⟩ := finishPoll_eq (Ubcsp.sendHalf x.engine).delay
      (receiveLoop x.stray (x.inbox.take n) (Ubcsp.sendHalf x.engine).activity
        (Ubcsp.sendHalf x.engine).engine).2.2
    rw [hd]
    -- the delay is nothing the relation looks at
    obtain ⟨a', b', inX', outX', inY', outY', hl'⟩ := hruns
    obtain ⟨⟨h1, h2, h3, h4, h5, h6, h7, h8, h9, h10, h11, h12, h13⟩, hr, hlx, hly, hreach⟩ := hl'
    refine ⟨a', b', inX', outX', inY', outY',
      ⟨⟨h1.link, h1.sendPacket, h1.sequence, h1.ack⟩, h2, h3, h4, h5, h6, h7, h8, h9, h10, h11, ?_,
        h13⟩, hr, hlx, hly, hreach⟩
    obtain ⟨n', p, hn', hdef, hbrings⟩ := h12
    exact ⟨n', p, hn', hdef.of_rx rfl, hbrings⟩

/-- The upper layer submits a packet: the engine abandons what it is sending. -/
theorem Runs.submit {x y : Station} (h : Runs x y) {p : Packet} (hs : x.canSend = true)
    (hp : p.Sendable) (hr : p.reliable = 1) :
    Runs { x with
      engine := ubcspSendPacket p x.engine, submitted := x.submitted ++ [p]
      canSend := false } y := by
  obtain ⟨a, b, inX, outX, inY, outY, hl⟩ := h
  obtain ⟨hab, -⟩ := hl.reachable.sound
  have hcan : a.canSend = true := hl.left.canSend.symm.trans hs
  have hall : a.cleared = a.submitted.length :=
    Nat.le_antisymm (Nat.le_trans hab.cleared hab.delivered.length_le) (hab.window hcan)
  obtain ⟨ms, ms', hflight, hsending, rfl⟩ := hl.left.line
  obtain ⟨ms'', hsub, hsending'⟩ :=
    hsending.abandon (show (ubcspSendPacket p x.engine).tx.sendSize = 0 from rfl)
  have hmatch : Station.Matches { x with
      engine := ubcspSendPacket p x.engine, submitted := x.submitted ++ [p], canSend := false }
      { a with submitted := a.submitted ++ [p], canSend := false } inX (ms ++ ms'') := by
    refine ⟨⟨hl.left.runs.link, ?_, hl.left.runs.sequence, hl.left.runs.ack⟩, ?_,
      hl.left.escape, rfl, congrArg (· ++ [p]) hl.left.submitted, ?_, hl.left.received,
        hl.left.peerReset, hl.left.first,
      hl.left.current, hl.left.advances, ?_, ms, ms'', hflight, hsending', rfl⟩
    · simp [ubcspSendPacket, Peer.outstanding, hall]
    · intro q hq
      rcases List.mem_append.mp hq with hq | hq
      · exact hl.left.reliable q hq
      · rw [List.mem_singleton.mp hq]
        exact ⟨hp, hr⟩
    · rw [hl.left.cleared, List.take_append_of_le_length (Nat.le_of_eq hall)]
    · obtain ⟨n, q, hn, hdef, hbrings⟩ := hl.left.inbox
      exact ⟨n, q, hn, hdef.of_rx rfl, hbrings⟩
  refine ⟨_, b, inX, _, inY, outY, hmatch.of_line (inY ++ (ms ++ ms'')), hl.right, rfl,
    hl.lineRight, (hl.reachable.left (.submit p hcan)).left (.lose ?_)⟩
  show (inY ++ (ms ++ ms'')).Sublist a.line
  rw [hl.lineLeft]
  exact (List.Sublist.refl inY).append ((List.Sublist.refl ms).append hsub)

theorem Runs.rearm {x y : Station} (h : Runs x y) {q : Packet}
    (hoff : x.engine.receiveArmed = false) (hq : 512 ≤ q.length.toNat)
    (hroom : q.length.toNat ≤ q.payload.length) :
    Runs { x with engine := ubcspReceivePacket q x.engine } y := by
  obtain ⟨a, b, inX, outX, inY, outY, hl⟩ := h
  refine ⟨a, b, inX, outX, inY, outY,
    ⟨⟨hl.left.runs.link, hl.left.runs.sendPacket, hl.left.runs.sequence, hl.left.runs.ack⟩,
      hl.left.reliable, hl.left.escape, hl.left.canSend, hl.left.submitted, hl.left.cleared,
    hl.left.received, hl.left.peerReset, hl.left.first, hl.left.current, hl.left.advances, ?_,
      hl.left.line⟩,
    hl.right, hl.lineLeft, hl.lineRight, hl.reachable⟩
  obtain ⟨n, p, -, hdef, hbrings⟩ := hl.left.inbox
  have hempty := hdef.idle hoff
  subst hempty
  exact ⟨q.length.toNat, .empty, hq, hdef.rearm hroom, hbrings⟩

/-- A frame on the line is replaced by less. -/
theorem Runs.replace {x y : Station} (h : Runs x y) (fs : List WireFrame)
    {before after : List WireFrame} {f : WireFrame} (hx : x.flight = before ++ f :: after)
    (hf : ∀ ms, f.Brings ms → ∃ ms', ms'.Sublist ms ∧ FlightBrings fs ms') :
    Runs { x with flight := before ++ fs ++ after } y := by
  obtain ⟨a, b, inX, outX, inY, outY, hl⟩ := h
  obtain ⟨ms, ms', hflight, hsending, rfl⟩ := hl.left.line
  rw [hx] at hflight
  obtain ⟨ms'', hsub, hflight'⟩ := hflight.replace hf
  have hmatch : Station.Matches { x with flight := before ++ fs ++ after } a inX (ms'' ++ ms') :=
    ⟨hl.left.runs, hl.left.reliable, hl.left.escape, hl.left.canSend, hl.left.submitted,
      hl.left.cleared, hl.left.received, hl.left.peerReset, hl.left.first, hl.left.current,
        hl.left.advances, hl.left.inbox,
      ms'', ms', hflight', hsending, rfl⟩
  exact ⟨_, _, _, _, _, _, hl.lose hmatch (hsub.append (List.Sublist.refl ms'))⟩

/-- The oldest frame arrives. -/
theorem Runs.deliver {x y : Station} (h : Runs x y) {after : List WireFrame} {f : WireFrame}
    (hx : x.flight = f :: after) (hlost : ¬ f.Lost) :
    Runs { x with flight := after } { y with inbox := y.inbox ++ f.wire } := by
  obtain ⟨a, b, inX, outX, inY, outY, hl⟩ := h
  obtain ⟨ms, ms', hflight, hsending, hout⟩ := hl.left.line
  rw [hx] at hflight
  cases hflight with
  | @cons _ _ mf mr hf hflight =>
    obtain ⟨s, hs, hreads⟩ := hf.octets hlost
    obtain ⟨n, p, hn, hdef, o, ss, hrun, hbrings⟩ := hl.right.inbox
    have hinbox : InboxBrings y.stray p (y.inbox ++ f.wire) (inY ++ mf) := by
      unfold InboxBrings WireFrame.wire
      rw [hs]
      cases hc : f.closed with
      | true =>
        have hwire : (ubcspSlip y.stray).run ⟨false, o⟩ (slipFrame :: slipStuff s ++ [slipFrame]) =
            (.empty, [o, s]) := (ubcspSlip y.stray).run_wire o s
        refine ⟨[], ss ++ [o, s], ?_, ?_⟩
        · rw [if_pos rfl, SlipCode.run_append, hrun]
          dsimp only
          rw [hwire]
          rfl
        · have := (hbrings.append hreads).append_nil
          simpa using this
      | false =>
        have hopen : (ubcspSlip y.stray).run ⟨false, o⟩ (slipFrame :: slipStuff s) =
            (⟨false, s⟩, [o]) :=
          (ubcspSlip y.stray).run_open o s
        refine ⟨s, ss ++ [o], ?_, ?_⟩
        · rw [if_neg Bool.false_ne_true, List.append_nil, SlipCode.run_append, hrun]
          dsimp only
          rw [hopen]
        · exact hbrings.append hreads
    refine ⟨a, b, inX, mr ++ ms', inY ++ mf, outY,
      ⟨hl.left.runs, hl.left.reliable, hl.left.escape, hl.left.canSend, hl.left.submitted,
        hl.left.cleared, hl.left.received, hl.left.peerReset, hl.left.first, hl.left.current,
          hl.left.advances, hl.left.inbox,
        mr, ms', hflight, hsending, rfl⟩,
      ⟨hl.right.runs, hl.right.reliable, hl.right.escape, hl.right.canSend, hl.right.submitted,
        hl.right.cleared, hl.right.received, hl.right.peerReset, hl.right.first, hl.right.current,
        hl.right.advances, ⟨n, p, hn, ⟨hdef.1, hdef.2, hdef.3, hdef.4, hdef.5⟩, hinbox⟩,
          hl.right.line⟩,
      ?_, hl.lineRight, hl.reachable⟩
    rw [hl.lineLeft, hout]
    simp

/-- **Every step of a station is a number of steps of the protocol.** -/
theorem Runs.step {x y x' y' : Station} (h : Runs x y) (hstep : StationStep x y x' y') :
    Runs x' y' := by
  cases hstep with
  | poll n => exact h.poll n
  | submit p hs hp hr => exact h.submit hs hp hr
  | rearm q hoff hq hroom => exact h.rearm hoff hq hroom
  | @drop before after f hx =>
    have := h.replace [] hx fun ms _ => ⟨[], List.nil_sublist _, .nil⟩
    rwa [List.append_nil] at this
  | @cut before after f w hx hw =>
    have := h.replace [f.cut w] hx fun ms hf => by
      obtain ⟨ms', hsub, hb⟩ := hf.cut hw
      exact ⟨ms', hsub, by simpa using FlightBrings.cons hb .nil⟩
    rwa [List.append_assoc] at this
  | deliver hx hlost => exact h.deliver hx hlost

/-- **The engines run the protocol**: every pair of stations that can be reached is at a
pair of sides that can be reached. -/
theorem LinkReachable.runs {x y : Station} (h : LinkReachable x y) : Runs x y := by
  induction h with
  | start stray stray' =>
    exact ⟨.start, .start, [], [], [], [], Station.start_matches stray,
      Station.start_matches stray', rfl, rfl, .start⟩
  | left _ hstep ih => exact ih.step hstep
  | right _ hstep ih => exact (ih.symm.step hstep).symm

end OpenwrtFeed.Ubcsp
