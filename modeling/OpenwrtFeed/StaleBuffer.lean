import OpenwrtFeed.FrameDelivery
import OpenwrtFeed.LinkState
import Mathlib.Tactic.SplitIfs

/-! # What the receive buffer held before

The payload buffer is not cleared between two frames.  All checks of a frame read octets
that the frame itself has stored; only `ubcsp_which_le_payload` reads four octets of the
buffer whatever the length of the packet is.  So a frame on the link-establishment channel
whose payload is shorter may be taken for a message on the strength of its CRC, or of what
another frame has left behind.  `stale_iff` says when that makes a difference.
-/
namespace OpenwrtFeed.Ubcsp

/-- The engine with other contents in its payload buffer. -/
def Engine.withBuffer (b : List UInt8) (e : Engine) : Engine :=
  { e with receivePacket := { e.receivePacket with payload := b } }

/-- What is looked at after a frame has been processed. -/
structure Seen where
  activity : Activity
  link : Link
  sequenceNumber : Fin 8
  ackNumber : Fin 8
deriving DecidableEq

def seen (r : Activity × Engine) : Seen := ⟨r.1, r.2.link, r.2.sequenceNumber, r.2.ackNumber⟩

/-- The receive loop on the octets `w` of a frame and its closing delimiter. -/
def processFrame (stray : UInt8 → UInt8) (w : List UInt8) (a : Activity) (e : Engine) :
    Activity × Engine :=
  let r := receiveLoop stray (w ++ [slipFrame]) a e
  (r.1, r.2.2)

/-- The engine is between two frames, with a receive packet whose buffer has `n` octets. -/
structure BetweenFrames (n : Nat) (e : Engine) : Prop where
  armed : e.receiveArmed = true
  escape : e.receiveSlipEscape = false
  index : e.receiveIndex = -4
  header : e.receiveHeader.length = 4
  room : e.receivePacket.length.toNat ≤ n
  message : 4 ≤ n

/-- The frames that the octets `w` and a delimiter complete, at most one. -/
def completed (stray : UInt8 → UInt8) (w : List UInt8) : List (List UInt8) :=
  ((ubcspSlip stray).run .empty (w ++ [slipFrame])).2

/-- The index of the link-establishment packet that the payload of the frame `s` spells, or
5. -/
def ownMessage (n : Nat) (s : List UInt8) : Nat :=
  if 4 ≤ (headerLength s).toNat then whichLePayload (framePayload (clip n s)) else 5

/-- The octets of the frame `s` that are stored behind the header. -/
def stored (n : Nat) (s : List UInt8) : List UInt8 := (s.drop 4).take n

/-- **The frame `s` does not lean on what was there before**: its payload has the four octets
of a message, or the messages it might be taken for would change nothing. -/
def StandsAlone (n : Nat) (l : Link) (s : List UInt8) : Prop :=
  4 ≤ (headerLength s).toNat ∨
    ∀ k < 4, (stored n s).take 4 <+: leBuffer.getD k [] → l.receive k = l

instance (n : Nat) (l : Link) (s : List UInt8) : Decidable (StandsAlone n l s) :=
  inferInstanceAs (Decidable (_ ∨ _))

/-! ## The four octets -/

theorem whichLePayload_cons (x0 x1 x2 x3 : UInt8) (rest : List UInt8) :
    whichLePayload (x0 :: x1 :: x2 :: x3 :: rest) =
      if [x0, x1, x2, x3] = leBuffer.getD 0 [] then 0
      else if [x0, x1, x2, x3] = leBuffer.getD 1 [] then 1
      else if [x0, x1, x2, x3] = leBuffer.getD 2 [] then 2
      else if [x0, x1, x2, x3] = leBuffer.getD 3 [] then 3 else 5 := by
  have h4 : List.range 4 = [0, 1, 2, 3] := rfl
  simp only [whichLePayload, leBuffer, h4, List.findIdx?_cons, List.findIdx?_nil, List.all_cons,
    List.all_nil, List.getD_cons_zero, List.getD_cons_succ, Bool.and_true, Bool.and_eq_true,
    beq_iff_eq, List.cons.injEq, and_true]
  split_ifs <;> simp

/-- A payload that spells a message begins with its four octets. -/
theorem take_of_whichLePayload {p : List UInt8} {k : Nat} (hp : 4 ≤ p.length) (hk : k < 4)
    (h : whichLePayload p = k) : p.take 4 = leBuffer.getD k [] := by
  match p, hp with
  | x0 :: x1 :: x2 :: x3 :: rest, _ =>
    rw [whichLePayload_cons] at h
    show [x0, x1, x2, x3] = _
    split at h
    · subst h
      assumption
    · split at h
      · subst h
        assumption
      · split at h
        · subst h
          assumption
        · split at h
          · subst h
            assumption
          · omega

/-- The index of a message, or 5. -/
theorem whichLePayload_lt {p : List UInt8} (hp : 4 ≤ p.length) :
    whichLePayload p < 4 ∨ whichLePayload p = 5 := by
  match p, hp with
  | x0 :: x1 :: x2 :: x3 :: rest, _ =>
    rw [whichLePayload_cons]
    split_ifs <;> simp

theorem whichLePayload_of_row {p : List UInt8} {k : Nat} (hk : k < 4)
    (h : p.take 4 = leBuffer.getD k []) : whichLePayload p = k := by
  have hrow : ∀ k < 4, whichLePayload (leBuffer.getD k []) = k ∧
      (leBuffer.getD k []).take 4 = leBuffer.getD k [] := by decide
  obtain ⟨hwhich, htake⟩ := hrow k hk
  rw [← hwhich]
  exact whichLePayload_congr (h.trans htake.symm)

/-! ## What the buffer holds at the end of a frame -/

/-- The buffers hold the octets `s`, and behind them what the payload buffer `b` held
before. -/
structure Overwrites (b s : List UInt8) (r : Rx) : Prop where
  collects : Collects s r
  payload : r.receivePacket.payload = stored r.receivePacket.length.toNat s ++
    b.drop (stored r.receivePacket.length.toNat s).length

theorem length_stored (n : Nat) (s : List UInt8) : (stored n s).length = min n (s.length - 4) := by
  simp [stored]

/-- One more octet. -/
theorem Overwrites.store {b s : List UInt8} {e : Engine} (h : Overwrites b s e.rx) (value : UInt8) :
    Overwrites b (s ++ [value]) (storeOctet value e).rx := by
  refine ⟨h.collects.store value, ?_⟩
  have hindex : e.receiveIndex = (min s.length (4 + e.receivePacket.length.toNat) : Nat) - 4 :=
    h.collects.index
  have hpayload : e.receivePacket.payload = stored e.receivePacket.length.toNat s ++
      b.drop (stored e.receivePacket.length.toNat s).length := h.payload
  have hroom : e.receivePacket.length.toNat ≤ e.receivePacket.payload.length := h.collects.room
  have hlen := length_stored e.receivePacket.length.toNat s
  unfold storeOctet
  by_cases h4 : s.length < 4
  · rw [if_pos (by omega)]
    have hdrop : (s ++ [value]).drop 4 = s.drop 4 := by
      rw [List.drop_eq_nil_of_le (by omega : s.length ≤ 4), List.drop_eq_nil_of_le]
      rw [List.length_append, List.length_singleton]
      omega
    simp only [Engine.rx, stored, hdrop]
    exact hpayload
  · rw [if_neg (by omega)]
    have hdrop : (s ++ [value]).drop 4 = s.drop 4 ++ [value] :=
      List.drop_append_of_le_length (by omega)
    by_cases hfit : s.length - 4 < e.receivePacket.length.toNat
    · rw [if_pos (by omega)]
      have hone : stored e.receivePacket.length.toNat (s ++ [value]) =
          stored e.receivePacket.length.toNat s ++ [value] := by
        rw [stored, stored, hdrop, List.take_of_length_le (by simp; omega),
          List.take_of_length_le (by simp; omega)]
      have hidx : e.receiveIndex.toNat = (stored e.receivePacket.length.toNat s).length := by omega
      have hnext : (stored e.receivePacket.length.toNat s).length < b.length := by
        rw [hpayload, List.length_append, List.length_drop] at hroom
        omega
      simp only [Engine.rx, hone, hidx]
      rw [hpayload, List.set_append_right _ _ (Nat.le_refl _), Nat.sub_self,
        List.drop_eq_getElem_cons hnext, List.set_cons_zero, List.length_append,
        List.length_singleton, List.append_assoc]
      rfl
    · rw [if_neg (by omega)]
      have hfull : stored e.receivePacket.length.toNat (s ++ [value]) =
          stored e.receivePacket.length.toNat s := by
        rw [stored, stored, hdrop, List.take_append_of_le_length (by simp; omega)]
      simp only [Engine.rx, hfull]
      exact hpayload

/-! ## The octets of a frame -/

/-- Storing an octet does not look at the buffer. -/
theorem storeOctet_withBuffer (value : UInt8) (e : Engine) (c : List UInt8) :
    ∃ c', storeOctet value (e.withBuffer c) = (storeOctet value e).withBuffer c' := by
  have hindex : (e.withBuffer c).receiveIndex = e.receiveIndex := rfl
  have hlength : (e.withBuffer c).receivePacket.length = e.receivePacket.length := rfl
  unfold storeOctet
  rw [hindex, hlength]
  split
  · exact ⟨c, rfl⟩
  · split
    · exact ⟨c.set e.receiveIndex.toNat value, rfl⟩
    · exact ⟨c, rfl⟩

/-- The engine `e` goes on as `e'`, up to its input side. -/
structure Continues (e e' : Engine) : Prop where
  eq : e' = e.withRx e'.rx
  armed : e'.receiveArmed = e.receiveArmed
  capacity : e'.receivePacket.length = e.receivePacket.length

theorem Continues.refl (e : Engine) : Continues e e := ⟨rfl, rfl, rfl⟩

theorem Continues.trans {e e' e'' : Engine} (h : Continues e e') (h' : Continues e' e'') :
    Continues e e'' := by
  refine ⟨?_, h'.armed.trans h.armed, h'.capacity.trans h.capacity⟩
  rw [h'.eq, h.eq]
  rfl

/-- **One octet of a frame** goes into the buffers in the same way whatever the payload
buffer held before. -/
theorem receiveOctet_withBuffer (stray : UInt8 → UInt8) {value : UInt8} (hv : value ≠ slipFrame)
    (a : Activity) (e : Engine) (s : List UInt8) :
    ∃ e', Continues e e' ∧
      e'.receiveSlipEscape = ((ubcspSlip stray).step ⟨e.receiveSlipEscape, s⟩ value).1.escaped ∧
      ((ubcspSlip stray).step ⟨e.receiveSlipEscape, s⟩ value).2 = none ∧
      ∀ b c, Overwrites b s (e.withBuffer c).rx → ∃ c',
        receiveOctet stray value a (e.withBuffer c) = (a, e'.withBuffer c') ∧
          Overwrites b ((ubcspSlip stray).step ⟨e.receiveSlipEscape, s⟩ value).1.octets
            (e'.withBuffer c').rx := by
  have stores : ∀ value e₀, Continues e₀ (storeOctet value e₀) := by
    intro value e₀
    obtain ⟨ha, hl, -, -⟩ := storeOctet_keeps value e₀
    exact ⟨storeOctet_eq value e₀, ha, hl⟩
  cases hesc : e.receiveSlipEscape with
  | true =>
    have hkeep : Continues e { e with receiveSlipEscape := false } := ⟨rfl, rfl, rfl⟩
    refine ⟨storeOctet (deslip stray value) { e with receiveSlipEscape := false },
      hkeep.trans (stores _ _), (storeOctet_keeps _ _).2.2.2, rfl, ?_⟩
    intro b c hover
    obtain ⟨c', hc'⟩ := storeOctet_withBuffer (deslip stray value)
      { e with receiveSlipEscape := false } c
    have hsame : Overwrites b s (Engine.withBuffer c { e with receiveSlipEscape := false }).rx :=
      ⟨⟨hover.collects.header_length, hover.collects.header_octets, hover.collects.room,
        hover.collects.payload, hover.collects.index⟩, hover.payload⟩
    have hnext := hsame.store (deslip stray value)
    rw [hc'] at hnext
    refine ⟨c', ?_, hnext⟩
    rw [← hc', receiveOctet, if_pos (show (e.withBuffer c).receiveSlipEscape = true from hesc)]
    rfl
  | false =>
    have hoctet : ∀ c, receiveOctet stray value a (e.withBuffer c) =
        if value = slipEscape then (a, { e.withBuffer c with receiveSlipEscape := true })
        else (a, storeOctet value (e.withBuffer c)) := by
      intro c
      have hoff : ¬ (e.withBuffer c).receiveSlipEscape = true := by
        show ¬ e.receiveSlipEscape = true
        simp [hesc]
      rw [receiveOctet, if_neg hoff, if_neg hv]
    by_cases he : value = slipEscape
    · have hstep : (ubcspSlip stray).step ⟨false, s⟩ value = (⟨true, s⟩, none) := by
        subst he
        rfl
      rw [hstep]
      refine ⟨{ e with receiveSlipEscape := true }, ⟨rfl, rfl, rfl⟩, rfl, rfl, ?_⟩
      intro b c hover
      refine ⟨c, by rw [hoctet, if_pos he]; rfl, ?_⟩
      exact ⟨⟨hover.collects.header_length, hover.collects.header_octets, hover.collects.room,
        hover.collects.payload, hover.collects.index⟩, hover.payload⟩
    · have hstep : (ubcspSlip stray).step ⟨false, s⟩ value = (⟨false, s ++ [value]⟩, none) := by
        have hv' : value ≠ (ubcspSlip stray).frame := hv
        have he' : value ≠ (ubcspSlip stray).escape := he
        simp [SlipCode.step, hv', he']
      rw [hstep]
      refine ⟨storeOctet value e, stores _ _, (storeOctet_keeps _ _).2.2.2.trans hesc, rfl, ?_⟩
      intro b c hover
      obtain ⟨c', hc'⟩ := storeOctet_withBuffer value e c
      have hnext := hover.store value
      rw [hc'] at hnext
      exact ⟨c', by rw [hoctet, if_neg he, hc'], hnext⟩

/-- **The octets of a frame** go into the buffers in the same way whatever the payload buffer
held before. -/
theorem receiveLoop_withBuffer (stray : UInt8 → UInt8) {w : List UInt8} (hw : slipFrame ∉ w)
    (rest : List UInt8) (a : Activity) {e : Engine} (harmed : e.receiveArmed = true)
    (s : List UInt8) :
    ∃ e' s', Continues e e' ∧
      (ubcspSlip stray).run ⟨e.receiveSlipEscape, s⟩ w = (⟨e'.receiveSlipEscape, s'⟩, []) ∧
      ∀ b c, Overwrites b s (e.withBuffer c).rx → ∃ c',
        receiveLoop stray (w ++ rest) a (e.withBuffer c) =
          receiveLoop stray rest a (e'.withBuffer c') ∧
          Overwrites b s' (e'.withBuffer c').rx := by
  induction w generalizing e s with
  | nil => exact ⟨e, s, .refl e, rfl, fun b c hover => ⟨c, rfl, hover⟩⟩
  | cons value w ih =>
    rw [List.mem_cons, not_or] at hw
    obtain ⟨hv, hw'⟩ := hw
    obtain ⟨e₁, hcont, hesc, hnone, hone⟩ :=
      receiveOctet_withBuffer stray (fun h => hv h.symm) a e s
    obtain ⟨e₂, s₂, hcont', hrun, hloop⟩ := ih hw' (hcont.armed.trans harmed)
      ((ubcspSlip stray).step ⟨e.receiveSlipEscape, s⟩ value).1.octets
    refine ⟨e₂, s₂, hcont.trans hcont', ?_, ?_⟩
    · rw [hesc] at hrun
      rw [SlipCode.run_cons, hnone, hrun]
      rfl
    · intro b c hover
      obtain ⟨c₁, hoctet, hover₁⟩ := hone b c hover
      obtain ⟨c₂, hrest, hover₂⟩ := hloop b c₁ hover₁
      refine ⟨c₂, ?_, hover₂⟩
      rw [← hrest, List.cons_append, receiveLoop,
        if_pos (show (e.withBuffer c).receiveArmed = true from harmed), hoctet]

/-! ## The end of a frame -/

/-- What is seen when the frame does nothing. -/
def Engine.quiet (a : Activity) (e : Engine) : Seen := seen (a, e)

/-- What is seen after the link-establishment packet with index `k`. -/
def Seen.receiveLe (k : Nat) (x : Seen) : Seen :=
  if k = 0 ∧ x.link.state = .active then ⟨.onPeerReset, x.link.receive k, 0, 0⟩
  else if k = 3 ∧ x.link.state ≠ .active then { x with
    activity := x.activity.or .packetSent, link := x.link.receive k }
  else { x with link := x.link.receive k }

theorem seen_receiveLe (a : Activity) (e : Engine) :
    seen (receiveLe a e) = (seen (a, e)).receiveLe (whichLePayload e.receivePacket.payload) := by
  unfold receiveLe Seen.receiveLe
  dsimp only
  generalize whichLePayload e.receivePacket.payload = k
  -- one case for each of the four messages, and one for a payload that is none of them
  rcases k with _ | _ | _ | _ | k <;>
    cases hs : e.linkEstablishmentState <;>
      simp [seen, Link.receive, Engine.link, ubcspInitialize, hs]

/-- A message that changes nothing about the link changes nothing at all. -/
theorem Seen.receiveLe_of_receive_eq {x : Seen} {k : Nat} (h : x.link.receive k = x.link) :
    x.receiveLe k = x.receiveLe 5 := by
  have h0 : ¬ (k = 0 ∧ x.link.state = .active) := by
    rintro ⟨rfl, ha⟩
    simp only [Link.receive, ha, ne_eq, not_true_eq_false, if_false] at h
    have := congrArg Link.state h
    simp [ha] at this
  have h3 : ¬ (k = 3 ∧ x.link.state ≠ .active) := by
    rintro ⟨rfl, ha⟩
    exact ha (congrArg Link.state h).symm
  rw [Seen.receiveLe, if_neg h0, if_neg h3, h]
  rfl

/-- The acknowledgement does not look at the payload buffer. -/
theorem receiveAck_withBuffer (e : Engine) (c : List UInt8) :
    receiveAck (e.withBuffer c) = ((receiveAck e).1, (receiveAck e).2.withBuffer c) := by
  have hheader : (e.withBuffer c).receiveHeader = e.receiveHeader := rfl
  have hseq : (e.withBuffer c).sequenceNumber = e.sequenceNumber := rfl
  have hsend : (e.withBuffer c).sendPacket = e.sendPacket := rfl
  unfold receiveAck
  rw [hheader, hseq, hsend]
  split
  · split
    · split <;> rfl
    · rfl
  · rfl

/-- A packet on another channel is acted on without a look at the payload buffer. -/
theorem seen_receiveIntact_withBuffer {e : Engine} (hch : e.receivePacket.channel ≠ 1)
    (c : List UInt8) :
    seen (receiveIntact (e.withBuffer c)) = seen (receiveIntact e) := by
  have hdata : ∀ a (d : Engine), seen (receiveData a (d.withBuffer c)) =
      seen (receiveData a d) := by
    intro a d
    have hstate : (d.withBuffer c).linkEstablishmentState = d.linkEstablishmentState := rfl
    have hreliable : (d.withBuffer c).receivePacket.reliable = d.receivePacket.reliable := rfl
    have hheader : (d.withBuffer c).receiveHeader = d.receiveHeader := rfl
    have hack : (d.withBuffer c).ackNumber = d.ackNumber := rfl
    unfold receiveData
    dsimp only
    rw [hstate, hreliable, hheader, hack]
    split
    · split
      · split <;> rfl
      · rfl
    · rfl
  have hchannel : ((receiveAck e).2.withBuffer c).receivePacket.channel ≠ 1 := by
    show (receiveAck e).2.receivePacket.channel ≠ 1
    rw [receiveAck_receivePacket]
    exact hch
  have hindex : ((receiveAck e).2.withBuffer c).receiveIndex = (receiveAck e).2.receiveIndex := rfl
  have hplain : (receiveAck e).2.receivePacket.channel ≠ 1 := by
    rw [receiveAck_receivePacket]
    exact hch
  unfold receiveIntact
  rw [receiveAck_withBuffer]
  dsimp only
  rw [if_neg hchannel, if_neg hplain, hindex]
  split
  · exact hdata _ _
  · rfl

/-- A packet on the link-establishment channel is what the buffer spells. -/
theorem seen_receiveIntact_le {e : Engine} (hch : e.receivePacket.channel = 1) (c : List UInt8) :
    seen (receiveIntact (e.withBuffer c)) = (seen (receiveAck e)).receiveLe (whichLePayload c) := by
  rw [receiveIntact_le (e := e.withBuffer c) hch, seen_receiveLe, receiveAck_receivePacket,
    receiveAck_withBuffer]
  rfl

/-- The checks leave the same index whatever the buffer holds. -/
theorem decoded_withBuffer (e : Engine) (c : List UInt8) :
    decoded (e.withBuffer c) = (decoded e).withBuffer c := by
  have hindex : (checkPayload (e.withBuffer c)).2.receiveIndex =
      (checkPayload e).2.receiveIndex := by
    have hheader : (e.withBuffer c).receiveHeader = e.receiveHeader := rfl
    have hidx : (e.withBuffer c).receiveIndex = e.receiveIndex := rfl
    unfold checkPayload
    dsimp only
    rw [hheader, hidx]
    split
    · split <;> rfl
    · rfl
  unfold decoded
  rw [hindex]
  rfl

/-- What is seen of the effect `x` of a frame on top of the activity so far. -/
def Seen.after (a : Activity) (x : Seen) : Seen := { x with activity := a.or x.activity }

/-- **The end of the frame `s`**, when the buffers hold it: nothing for one that is not
intact, and otherwise what the code makes of an intact one. -/
theorem seen_endOfFrame {c s : List UInt8} {e : Engine} (h : Collects s (e.withBuffer c).rx)
    (a : Activity) :
    (FrameIntact (clip e.receivePacket.length.toNat s) →
        seen (endOfFrame a (e.withBuffer c)) =
          (seen (receiveIntact ((decoded e).withBuffer c))).after a) ∧
      (¬ FrameIntact (clip e.receivePacket.length.toNat s) →
        seen (endOfFrame a (e.withBuffer c)) = e.quiet a) := by
  have hnonneg : 0 ≤ (e.withBuffer c).receiveIndex ↔ 4 ≤ s.length := h.index_nonneg
  unfold endOfFrame
  constructor
  · intro hok
    have h4 : 4 ≤ s.length := by
      by_contra hshort
      exact not_intact_of_short (by omega) hok
    have hint : Intact (e.withBuffer c) := (h.intact_iff h4).2 hok
    rw [if_pos (hnonneg.2 h4), receviedPacket_of_intact hint, decoded_withBuffer]
    dsimp only
    split <;> rfl
  · intro hbad
    by_cases h4 : 4 ≤ s.length
    · have hint : ¬ Intact (e.withBuffer c) := fun hi => hbad ((h.intact_iff h4).1 hi)
      obtain ⟨r, hr, -⟩ := receviedPacket_of_not_intact hint
      rw [if_pos (hnonneg.2 h4), hr]
      dsimp only
      rw [Activity.or_none]
      split <;> rfl
    · rw [if_neg fun hi => h4 (hnonneg.1 hi)]
      rfl

/-- The octets `w` and a delimiter complete the frame `s`: whatever the payload buffer holds,
the engine goes on as `e'` up to the delimiter, and its buffers hold the frame, with the rest
as it was. -/
structure FrameEnds (stray : UInt8 → UInt8) (n : Nat) (w : List UInt8) (a : Activity)
    (s : List UInt8) (e e' : Engine) : Prop where
  continues : Continues e e'
  ends : ∀ b, b.length = n → ∃ c,
    processFrame stray w a (e.withBuffer b) = endOfFrame a (e'.withBuffer c) ∧
      Overwrites b s (e'.withBuffer c).rx

/-- **A frame, from its first octet**: whatever the payload buffer holds, either the octets
complete nothing and nothing is seen of them, or they complete a frame. -/
theorem processFrame_cases (stray : UInt8 → UInt8) {n : Nat} {e : Engine} (h : BetweenFrames n e)
    {w : List UInt8} (hw : slipFrame ∉ w) (a : Activity) :
    (completed stray w = [] ∧
        ∀ b, b.length = n → seen (processFrame stray w a (e.withBuffer b)) = e.quiet a) ∨
      ∃ s e', completed stray w = [s] ∧ FrameEnds stray n w a s e e' := by
  obtain ⟨e', s, hcont, hrun, hloop⟩ := receiveLoop_withBuffer stray hw [slipFrame] a h.armed []
  rw [h.escape] at hrun
  have hstart : ∀ b, b.length = n → Overwrites b [] (e.withBuffer b).rx := by
    intro b hb
    have hroom : e.receivePacket.length.toNat ≤ b.length := by
      rw [hb]
      exact h.room
    exact ⟨.empty h.header hroom h.index, by simp [stored, Engine.withBuffer, Engine.rx]⟩
  have hlast : ∀ c, receiveLoop stray [slipFrame] a (e'.withBuffer c) =
      ((receiveOctet stray slipFrame a (e'.withBuffer c)).1, [],
        (receiveOctet stray slipFrame a (e'.withBuffer c)).2) := by
    intro c
    rw [receiveLoop, if_pos (show (e'.withBuffer c).receiveArmed = true from
      hcont.armed.trans h.armed)]
    rfl
  have hcompleted : completed stray w =
      ((ubcspSlip stray).step ⟨e'.receiveSlipEscape, s⟩ slipFrame).2.toList := by
    rw [completed, SlipCode.run_append, SlipCode.Partial.empty, hrun]
    simp [SlipCode.run]
  cases hesc : e'.receiveSlipEscape with
  | true =>
    -- the delimiter is read as the second half of an escape
    left
    rw [hesc] at hcompleted
    refine ⟨hcompleted, ?_⟩
    intro b hb
    obtain ⟨c, hrest, -⟩ := hloop b b (hstart b hb)
    have hoctet : receiveOctet stray slipFrame a (e'.withBuffer c) =
        (a, storeOctet (deslip stray slipFrame) { e'.withBuffer c with
          receiveSlipEscape := false }) := by
      rw [receiveOctet, if_pos (show (e'.withBuffer c).receiveSlipEscape = true from hesc)]
    rw [processFrame, hrest, hlast, hoctet, storeOctet_eq, hcont.eq]
    rfl
  | false =>
    right
    rw [hesc] at hcompleted
    refine ⟨s, e', ?_, ⟨hcont, ?_⟩⟩
    · rw [hcompleted]
      have hframe := (ubcspSlip stray).step_frame s
      rw [show slipFrame = (ubcspSlip stray).frame from rfl, hframe]
      rfl
    · intro b hb
      obtain ⟨c, hrest, hover⟩ := hloop b b (hstart b hb)
      refine ⟨c, ?_, hover⟩
      have hoctet : receiveOctet stray slipFrame a (e'.withBuffer c) =
          endOfFrame a (e'.withBuffer c) := by
        rw [receiveOctet, if_neg (show ¬ (e'.withBuffer c).receiveSlipEscape = true by
          show ¬ e'.receiveSlipEscape = true
          simp [hesc]), if_pos rfl]
      rw [processFrame, hrest, hlast, hoctet]

/-! ## Where it makes a difference -/

theorem Seen.receiveLe_link (k : Nat) (x : Seen) : (x.receiveLe k).link = x.link.receive k := by
  unfold Seen.receiveLe
  split
  · rfl
  · split <;> rfl

theorem drop_clip (n : Nat) (s : List UInt8) : (clip n s).drop 4 = stored n s := by
  rw [clip, stored, List.drop_take, Nat.add_sub_cancel_left]

/-- The first four octets of the buffer, when the frame has four octets behind its header. -/
theorem whichLePayload_own {n : Nat} {b s : List UInt8} (hok : FrameIntact (clip n s))
    (h4 : 4 ≤ (headerLength s).toNat) :
    whichLePayload (stored n s ++ b) = ownMessage n s := by
  have hlen : headerLength (clip n s) = headerLength s := congrArg Header.length (header_clip n s)
  have hstored : (headerLength s).toNat ≤ (stored n s).length := by
    have hlength := hok.length
    rw [← drop_clip, List.length_drop]
    rw [hlen] at hlength
    omega
  rw [ownMessage, if_pos h4]
  apply whichLePayload_congr
  rw [framePayload, hlen, drop_clip, List.take_take, Nat.min_eq_left h4,
    List.take_append_of_le_length (by omega)]

/-- The buffer `b` behind the stored octets of the frame `s`. -/
def overwrite (n : Nat) (s b : List UInt8) : List UInt8 := stored n s ++ b.drop (stored n s).length

/-- A buffer in which the frame spells the message `row`. -/
theorem take_overwrite {n m : Nat} {s row : List UInt8} (hrow : row.length = 4)
    (h : (stored n s).take 4 <+: row) :
    (overwrite n s (row ++ List.replicate m 0)).take 4 = row := by
  rw [overwrite]
  by_cases hfull : 4 ≤ (stored n s).length
  · rw [List.take_append_of_le_length hfull]
    apply h.eq_of_length
    rw [List.length_take, hrow]
    omega
  · have hshort : (stored n s).take 4 = stored n s := List.take_of_length_le (by omega)
    rw [hshort] at h
    obtain ⟨tail, rfl⟩ := h
    rw [List.append_assoc, List.drop_left, ← List.append_assoc]
    exact List.take_left' hrow

namespace FrameEnds
variable {stray : UInt8 → UInt8} {n : Nat} {w s : List UInt8} {a : Activity} {e e' : Engine}

/-- A frame that is not intact is passed over. -/
theorem rejected (h : FrameEnds stray n w a s e e')
    (hbad : ¬ FrameIntact (clip e.receivePacket.length.toNat s)) {b : List UInt8}
    (hb : b.length = n) :
    seen (processFrame stray w a (e.withBuffer b)) = e'.quiet a := by
  obtain ⟨c, hprocess, hover⟩ := h.ends b hb
  rw [hprocess]
  exact (seen_endOfFrame hover.collects a).2 (by rw [h.continues.capacity]; exact hbad)

/-- An intact frame is acted on, with the buffer it has written to. -/
theorem accepted (h : FrameEnds stray n w a s e e')
    (hok : FrameIntact (clip e.receivePacket.length.toNat s)) {b : List UInt8} (hb : b.length = n) :
    (decoded e').receivePacket.channel = headerChannel s ∧
      seen (processFrame stray w a (e.withBuffer b)) =
        (seen
          (receiveIntact
          ((decoded e').withBuffer (overwrite e.receivePacket.length.toNat s b)))).after a := by
  obtain ⟨c, hprocess, hcol, hpayload⟩ := h.ends b hb
  have h4 : 4 ≤ s.length := by
    by_contra hshort
    exact not_intact_of_short (by omega) hok
  have hc : c = overwrite e'.receivePacket.length.toNat s b := hpayload
  have hcap : e'.receivePacket.length = e.receivePacket.length := h.continues.capacity
  refine ⟨congrArg Header.channel (hcol.header_buffer h4), ?_⟩
  rw [hprocess, (seen_endOfFrame hcol a).1 (by rw [hcap]; exact hok), hc, hcap]

/-- On another channel the buffer does not count. -/
theorem other (h : FrameEnds stray n w a s e e')
    (hok : FrameIntact (clip e.receivePacket.length.toNat s)) (hch : headerChannel s ≠ 1)
    {b : List UInt8} (hb : b.length = n) :
    seen (processFrame stray w a (e.withBuffer b)) =
    (seen (receiveIntact (decoded e'))).after a := by
  obtain ⟨hchannel, hseen⟩ := h.accepted hok hb
  rw [hseen, seen_receiveIntact_withBuffer (hchannel ▸ hch)]

/-- On the link-establishment channel the first four octets of the buffer do. -/
theorem message (h : FrameEnds stray n w a s e e')
    (hok : FrameIntact (clip e.receivePacket.length.toNat s)) (hch : headerChannel s = 1)
    {b : List UInt8} (hb : b.length = n) :
    seen (processFrame stray w a (e.withBuffer b)) =
      ((seen (receiveAck (decoded e'))).receiveLe
        (whichLePayload (overwrite e.receivePacket.length.toNat s b))).after a := by
  obtain ⟨hchannel, hseen⟩ := h.accepted hok hb
  rw [hseen, seen_receiveIntact_le (hchannel.trans hch)]

/-- The acknowledgement leaves the link as it was before the frame. -/
theorem link (h : FrameEnds stray n w a s e e') :
    (seen (receiveAck (decoded e'))).link = e.link := by
  show (receiveAck (decoded e')).2.link = e.link
  rw [receiveAck_link, decoded_link, h.continues.eq]
  rfl

/-- The link, after the message with index `k`. -/
theorem link_message (h : FrameEnds stray n w a s e e') (k : Nat) :
    (((seen (receiveAck (decoded e'))).receiveLe k).after a).link = e.link.receive k := by
  rw [← h.link]
  exact Seen.receiveLe_link _ _

/-- A frame that stands alone is taken for what its own payload spells. -/
theorem alone (h : FrameEnds stray n w a s e e') (hbetween : BetweenFrames n e)
    (hok : FrameIntact (clip e.receivePacket.length.toNat s)) (hch : headerChannel s = 1)
    (halone : StandsAlone e.receivePacket.length.toNat e.link s) {b : List UInt8}
    (hb : b.length = n) :
    seen (processFrame stray w a (e.withBuffer b)) =
      ((seen (receiveAck (decoded e'))).receiveLe (ownMessage e.receivePacket.length.toNat s)).after
        a := by
  rw [h.message hok hch hb]
  by_cases hlen : 4 ≤ (headerLength s).toNat
  · rw [overwrite, whichLePayload_own hok hlen]
  · rw [ownMessage, if_neg hlen]
    have hroom : 4 ≤ (overwrite e.receivePacket.length.toNat s b).length := by
      have := hbetween.message
      have := hbetween.room
      rw [overwrite, List.length_append, List.length_drop, hb, length_stored]
      omega
    rcases whichLePayload_lt hroom with hk | hk
    · -- the stored octets are the beginning of a message that changes nothing
      have hrow := take_of_whichLePayload hroom hk rfl
      have hprefix : (stored e.receivePacket.length.toNat s).take 4 <+:
          leBuffer.getD (whichLePayload (overwrite e.receivePacket.length.toNat s b)) [] := by
        rw [← hrow, overwrite, List.take_append]
        exact List.prefix_append _ _
      have hnothing := (halone.resolve_left hlen) _ hk hprefix
      rw [← h.link] at hnothing
      rw [Seen.receiveLe_of_receive_eq hnothing]
    · rw [hk]

/-- A frame that is taken for what its own payload spells, whatever the buffer holds, stands
alone. -/
theorem standsAlone (h : FrameEnds stray n w a s e e') (hmessage : 4 ≤ n)
    (hok : FrameIntact (clip e.receivePacket.length.toNat s)) (hch : headerChannel s = 1)
    (hown : ∀ b, b.length = n → (seen (processFrame stray w a (e.withBuffer b))).link =
      e.link.receive (ownMessage e.receivePacket.length.toNat s)) :
    StandsAlone e.receivePacket.length.toNat e.link s := by
  by_cases hlen : 4 ≤ (headerLength s).toNat
  · exact Or.inl hlen
  · right
    intro k hk hprefix
    have hrow : (leBuffer.getD k []).length = 4 := by
      have htable : ∀ k < 4, (leBuffer.getD k []).length = 4 := by decide
      exact htable k hk
    -- a buffer that completes the message to which the frame is the beginning
    have hb : (leBuffer.getD k [] ++ List.replicate (n - 4) 0).length = n := by
      rw [List.length_append, hrow, List.length_replicate]
      omega
    have hlinks := hown _ hb
    rw [h.message hok hch hb, whichLePayload_of_row hk (take_overwrite hrow hprefix),
      h.link_message, ownMessage, if_neg hlen] at hlinks
    exact hlinks

end FrameEnds

/-- **No dependence on stale buffer contents.**  Between two frames, with any octets of a
frame to come: whatever the payload buffer holds, the frame is processed in the same way,
and on the link-establishment channel it is taken for the message that its own payload
spells, exactly when an intact frame on that channel has a payload of at least four
octets, or the messages it might be taken for would change nothing. -/
theorem stale_iff (stray : UInt8 → UInt8) {n : Nat} {e : Engine} (h : BetweenFrames n e)
    {w : List UInt8} (hw : slipFrame ∉ w) (a : Activity) :
    ((∀ b b', b.length = n → b'.length = n →
        seen (processFrame stray w a (e.withBuffer b)) =
          seen (processFrame stray w a (e.withBuffer b'))) ∧
      ∀ s ∈ completed stray w, FrameIntact (clip e.receivePacket.length.toNat s) →
        headerChannel s = 1 → ∀ b, b.length = n →
          (seen (processFrame stray w a (e.withBuffer b))).link =
            e.link.receive (ownMessage e.receivePacket.length.toNat s)) ↔
      ∀ s ∈ completed stray w, FrameIntact (clip e.receivePacket.length.toNat s) →
        headerChannel s = 1 → StandsAlone e.receivePacket.length.toNat e.link s := by
  rcases processFrame_cases stray h hw a with ⟨hnone, hquiet⟩ | ⟨s, e', hone, hends⟩
  · rw [hnone]
    refine iff_of_true ⟨?_, by simp⟩ (by simp)
    intro b b' hb hb'
    rw [hquiet b hb, hquiet b' hb']
  · simp only [hone, List.mem_singleton, forall_eq]
    constructor
    · rintro ⟨-, hown⟩ hok hch
      exact hends.standsAlone h.message hok hch (hown hok hch)
    · intro halone
      constructor
      · intro b b' hb hb'
        by_cases hok : FrameIntact (clip e.receivePacket.length.toNat s)
        · by_cases hch : headerChannel s = 1
          · have hstands := halone hok hch
            rw [hends.alone h hok hch hstands hb, hends.alone h hok hch hstands hb']
          · rw [hends.other hok hch hb, hends.other hok hch hb']
        · rw [hends.rejected hok hb, hends.rejected hok hb']
      · intro hok hch b hb
        rw [hends.alone h hok hch (halone hok hch) hb]
        exact hends.link_message _

/-- The engine after one call, with the contents `b` in its receive packet. -/
def armedWith (b : List UInt8) : Engine :=
  (ubcspPoll id [] (ubcspReceivePacket ⟨0, 0, 512, b⟩ (ubcspInitialize .zero))).engine

/-- The frame of a SYNC without a CRC. -/
def syncFrame : List UInt8 := [0x00, 0x41, 0x00, 0xBE] ++ lePayload .sync

/-- A SYNC leans on nothing: whatever the buffer holds, a SYNC RESP is owed for it. -/
theorem stale_iff_sync :
    let e := armedWith (List.replicate 512 0)
    (∀ b b', b.length = 512 → b'.length = 512 →
        seen (processFrame id syncFrame .none (e.withBuffer b)) =
          seen (processFrame id syncFrame .none (e.withBuffer b'))) ∧
      ∀ b, b.length = 512 →
        (seen (processFrame id syncFrame .none (e.withBuffer b))).link.resp = 1 := by
  intro e
  have hcompleted : completed id syncFrame = [syncFrame] := by decide
  have halone : ∀ s ∈ completed id syncFrame,
      FrameIntact (clip e.receivePacket.length.toNat s) → headerChannel s = 1 →
        StandsAlone e.receivePacket.length.toNat e.link s := by
    rw [hcompleted]
    intro s hs _ _
    obtain rfl := List.mem_singleton.1 hs
    exact Or.inl (by decide)
  obtain ⟨hsame, hown⟩ :=
    (stale_iff id (n := 512) (e := e) ⟨rfl, rfl, rfl, rfl, by decide, by decide⟩
      (w := syncFrame) (by decide) .none).2 halone
  refine ⟨hsame, fun b hb => ?_⟩
  rw [hcompleted] at hown
  rw [hown syncFrame List.mem_cons_self (by decide) (by decide) b hb]
  decide

/-- **A frame without a payload is taken for a CONF RESP** when the buffer happens to hold
one, and for nothing when it does not. -/
theorem exists_stale :
    let b := lePayload .confResp ++ List.replicate 508 0
    let w : List UInt8 := [0x00, 0x01, 0x00, 0xFE]
    Reachable id (fun _ _ => True) (armedWith (List.replicate 512 0)) ∧
      Reachable id (fun _ _ => True) (armedWith b) ∧
      armedWith b = (armedWith (List.replicate 512 0)).withBuffer b ∧
      (seen (processFrame id w .none (armedWith b))).link.state = .active ∧
      (seen (processFrame id w .none (armedWith (List.replicate 512 0)))).link.state =
        .uninitialized :=
  ⟨(Reachable.start.receive _).poll _ fun _ _ => trivial,
    (Reachable.start.receive _).poll _ fun _ _ => trivial, rfl, by decide, by decide⟩

end OpenwrtFeed.Ubcsp
