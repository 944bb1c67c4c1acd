import OpenwrtFeed.FrameAcceptance
import OpenwrtFeed.WholeFrame
import OpenwrtFeed.WireRoundTrip

/-! # How long a frame keeps the loop going

`ubcsp_poll` returns a delay when it has closed a frame or found nothing to send, and zero as
long as a frame is under way.  The callers count only the calls that return a delay, so that
it matters how many calls in a row can return zero.

A rank says how many: the octets of the frame that are still to come, or the longest frame
there can be when none is under way.  A call that reports neither `UBCSP_PACKET_SENT` nor
`UBCSP_PEER_RESET` returns a delay or lowers the rank, whatever is received (`Paced.poll`).
A report may stand for an abandoned frame, and the rank starts again.
-/
namespace OpenwrtFeed.Ubcsp

/-! ## The length of what is to be sent -/

theorem length_stuff_le (xs : List UInt8) : (slipStuff xs).length ≤ 2 * xs.length := by
  induction xs with
  | nil => exact Nat.le_refl _
  | cons x xs ih =>
    have hone : ((ubcspSlip id).stuffOctet x).length ≤ 2 := by
      unfold SlipCode.stuffOctet
      split
      · exact Nat.le_refl 2
      · split
        · exact Nat.le_refl 2
        · exact Nat.le_succ 1
    rw [slipStuff, SlipCode.stuff_cons, List.length_append, List.length_cons]
    have ih' : ((ubcspSlip id).stuff xs).length ≤ 2 * xs.length := ih
    omega

/-- The octets on the line of a frame of at most `limit` octets of payload: every octet of it
with an escape, half an escape before it, and the closing delimiter. -/
def frameRoom (limit : Nat) : Nat := 2 * (limit + 6) + 2

/-- A frame that has just been set up. -/
theorem pendingWire_setup_le (e : Engine) (head : List UInt8) (body : Option (List UInt8))
    {n limit : Nat} (hn : n ≤ limit) : (setupPacket head body n e).tx.pendingWire.length ≤
      frameRoom limit := by
  have hblocks : (setupPacket head body n e).tx.pendingBlocks.length ≤ 4 + n := by
    unfold Tx.pendingBlocks
    rw [List.length_append]
    refine Nat.add_le_add ((List.length_take_le _ _).trans ?_) (List.length_take_le _ _)
    exact Nat.sub_le 4 _
  have hoctets : (setupPacket head body n e).tx.pendingOctets.length ≤ n + 6 := by
    unfold Tx.pendingOctets
    split
    · rw [List.length_append, length_crcOctets]
      omega
    · omega
  have hstuff := length_stuff_le (setupPacket head body n e).tx.pendingOctets
  unfold Tx.pendingWire frameRoom
  rw [List.length_append, List.length_append, List.length_singleton]
  split
  · rw [List.length_singleton]
    omega
  · rw [List.length_nil]
    omega

/-! ## The rank -/

/-- What the engine has to send: a frame under way is set up as it should be and has at most
`frameRoom limit` octets to go, and its packet has a payload of 1 to `limit` octets. -/
structure Paced (limit : Nat) (e : Engine) : Prop where
  escape : HalfEscape e.sendSlipEscape
  framed : e.sendSize ≠ 0 → e.tx.Framed ∧ e.tx.pendingWire.length ≤ frameRoom limit
  packet : ∀ p, e.sendPacket = some p →
    p.length.toNat = p.payload.length ∧ 1 ≤ p.payload.length ∧ p.payload.length ≤ limit

/-- How many calls may return no delay: one while a delay is waited out, one for every octet
of the frame under way, and the longest frame when there is none. -/
def Engine.rank (limit : Nat) (e : Engine) : Nat :=
  (if e.delay = 0 then 0 else 1) +
    if e.sendSize = 0 then frameRoom limit + 1 else e.tx.pendingWire.length

theorem paced_zero (limit : Nat) : Paced limit (ubcspInitialize .zero) where
  escape := Or.inl rfl
  framed h := absurd rfl h
  packet _ h := nomatch h

namespace Paced
variable {limit : Nat} {e e' : Engine}

theorem rank_le (h : Paced limit e) : e.rank limit ≤ frameRoom limit + 2 := by
  unfold Engine.rank
  have hdelay : (if e.delay = 0 then 0 else 1) ≤ 1 := by split <;> omega
  by_cases hs : e.sendSize = 0
  · rw [if_pos hs]
    omega
  · have hroom := (h.framed hs).2
    rw [if_neg hs]
    omega

/-- The upper layer submits a packet. -/
theorem submit (h : Paced limit e) {p : Packet} (hlen : p.length.toNat = p.payload.length)
    (hone : 1 ≤ p.payload.length) (hlimit : p.payload.length ≤ limit) :
    Paced limit (ubcspSendPacket p e) where
  escape := h.escape
  framed hs := absurd rfl hs
  packet q hq := by
    obtain rfl := Option.some.inj hq
    exact ⟨hlen, hone, hlimit⟩

/-- Only the output side, the packet and the pending half of an escape matter. -/
theorem of_tx (h : Paced limit e) (htx : e'.tx = e.tx)
    (hp : e'.sendPacket = e.sendPacket ∨ e'.sendPacket = none) : Paced limit e' where
  escape := by
    have hesc : e'.sendSlipEscape = e.sendSlipEscape := congrArg Tx.sendSlipEscape htx
    rw [hesc]
    exact h.escape
  framed hs := by
    have hsize : e'.sendSize = e.sendSize := congrArg Tx.sendSize htx
    rw [htx]
    exact h.framed (hsize ▸ hs)
  packet p hsome := by
    rcases hp with hp | hp
    · exact h.packet p (hp ▸ hsome)
    · cases hp.symm.trans hsome

/-- An abandoned frame leaves nothing to be sent. -/
theorem of_kept (h : Paced limit e) (htx : e.tx.Kept e'.tx)
    (hp : e'.sendPacket = e.sendPacket ∨ e'.sendPacket = none) : Paced limit e' := by
  rcases htx with htx | ⟨hsize, hesc⟩
  · exact h.of_tx htx hp
  · have hesc' : e'.sendSlipEscape = e.sendSlipEscape := hesc
    refine ⟨hesc' ▸ h.escape, fun hs => absurd hsize hs, fun p hsome => ?_⟩
    rcases hp with hp | hp
    · exact h.packet p (hp ▸ hsome)
    · cases hp.symm.trans hsome

/-- A frame is started. -/
theorem setup (h : Paced limit e) (head : List UInt8) (body : Option (List UInt8)) (n : Nat)
    (h4 : head.length = 4) (hnone : body = none → n = 0)
    (hsome : ∀ l, body = some l → 0 < n ∧ n ≤ l.length) (hlimit : n ≤ limit) {e' : Engine}
    (htx : e'.tx = (setupPacket head body n e).tx) (hp : e'.sendPacket = e.sendPacket)
    (hdelay : e'.delay = 0) (hidle : e.sendSize = 0) :
    Paced limit e' ∧ e'.rank limit < e.rank limit := by
  have hframed := framed_setupPacket h.escape h4 hnone hsome
  have hroom := pendingWire_setup_le e head body hlimit
  have hsize : e'.sendSize = 4 := congrArg Tx.sendSize htx
  refine ⟨⟨?_, fun _ => ⟨htx ▸ hframed, htx ▸ hroom⟩, fun p hq => h.packet p (hp ▸ hq)⟩, ?_⟩
  · have hesc : e'.sendSlipEscape = e.sendSlipEscape := congrArg Tx.sendSlipEscape htx
    rw [hesc]
    exact h.escape
  · unfold Engine.rank
    rw [if_pos hdelay, if_neg (by rw [hsize]; decide), if_pos hidle, htx]
    omega

end Paced

/-- How the sending half may end: it waits out a delay, it has decided on one, or the rank is
lower. -/
inductive Paces (limit : Nat) (e : Engine) (s : SendResult) : Prop
  | waits : e.delay ≠ 0 → s = ⟨[], .none, 0, false, e⟩ → Paces limit e s
  | ends : s.engine.delay = 0 → s.delay = pollTimeDelay → s.returned = false → Paces limit e s
  | sends : s.engine.delay = 0 → s.delay = 0 → s.engine.rank limit < e.rank limit → Paces limit e s

/-- **The sending half.** -/
theorem Paced.sendHalf {limit : Nat} (hlimit : 4 ≤ limit) {e : Engine} (h : Paced limit e) :
    Paced limit (sendHalf e).engine ∧ Paces limit e (sendHalf e) := by
  have hle : ∀ k, k ≠ .none → ∀ l, some (lePayload k) = some l → 0 < 4 ∧ 4 ≤ l.length := by
    intro k hk l hl
    obtain rfl := Option.some.inj hl
    refine ⟨Nat.succ_pos 3, ?_⟩
    cases k with
    | none => exact absurd rfl hk
    | _ => exact Nat.le_refl 4
  rcases sendHalf_cases e with ⟨hd, hc⟩ | ⟨hd, hs, hc⟩ | ⟨hd, hs, hp, hc⟩ | ⟨hd, hs, hp, hc⟩
  · rw [hc]
    exact ⟨h, .waits hd rfl⟩
  · rw [hc]
    obtain ⟨hframed, hroom⟩ := h.framed hs
    rcases sendOctet_pending hframed hs with
      ⟨w, t, hcall, hf, hsize, -, hne, hw⟩ | ⟨w, t, hcall, hf, hsize, -, hw⟩
    · have hlen : w.length + t.pendingWire.length = e.tx.pendingWire.length := by
        rw [← List.length_append, hw]
      have hpos := List.length_pos_of_ne_nil hne
      rw [hcall]
      refine ⟨⟨hf.escape, fun _ => ⟨hf, ?_⟩, h.packet⟩, .sends hd rfl ?_⟩
      · show t.pendingWire.length ≤ _
        omega
      · show Engine.rank limit (e.withTx t) < e.rank limit
        unfold Engine.rank
        rw [if_pos hd, if_neg hs, if_pos (show (e.withTx t).delay = 0 from hd),
          if_neg (show (e.withTx t).sendSize ≠ 0 from hsize)]
        show 0 + t.pendingWire.length < _
        omega
    · rw [hcall]
      have hpaced : Paced limit (e.withTx t) := ⟨hf.escape, fun hne => absurd hsize hne, h.packet⟩
      rcases sentPacket_eq (e.withTx t) with ⟨hsent, -⟩ | ⟨hsent, -⟩ <;> rw [hsent]
      · exact ⟨hpaced, .ends hd rfl rfl⟩
      · exact ⟨hpaced.of_tx rfl (Or.inr rfl), .ends hd rfl rfl⟩
  · rw [hc]
    rcases startFrame_cases e with
      ⟨hr, hc⟩ | ⟨hr, p, hsome, hc⟩ | ⟨hr, hnone, ha, hc⟩ | ⟨hr, hnone, ha, hc⟩ <;>
      rw [hc]
    · obtain ⟨hpaced, hrank⟩ :
          Paced limit { setupPacket sendLeHeader (some (lePayload .confResp)) 4 e with
            linkEstablishmentResp := 0 } ∧ _ :=
        h.setup sendLeHeader (some (lePayload .confResp)) 4 rfl (fun hn => nomatch hn)
          (hle .confResp (by simp)) hlimit rfl rfl hd hs
      exact ⟨hpaced, .sends hd rfl hrank⟩
    · obtain ⟨hlen, hone, hmax⟩ := h.packet p hsome
      have hbody : ∀ l, some p.payload = some l → 0 < p.length.toNat ∧
          p.length.toNat ≤ l.length := by
        intro l hl
        obtain rfl := Option.some.inj hl
        exact ⟨hlen ▸ hone, Nat.le_of_eq hlen⟩
      obtain ⟨hpaced, hrank⟩ : Paced limit { setupPacket (dataHeader p e.ackNumber e.sequenceNumber)
            (some p.payload) p.length.toNat e with sendAck := false } ∧ _ :=
        h.setup (dataHeader p e.ackNumber e.sequenceNumber) (some p.payload) p.length.toNat rfl
          (fun hn => nomatch hn) hbody (hlen ▸ hmax) rfl rfl hd hs
      exact ⟨hpaced, .sends hd rfl hrank⟩
    · obtain ⟨hpaced, hrank⟩ : Paced limit { setupPacket (ackHeader e.ackNumber) none 0 e with
            sendAck := false } ∧ _ :=
        h.setup (ackHeader e.ackNumber) none 0 rfl (fun _ => rfl) (fun _ hl => nomatch hl)
          (Nat.zero_le _) rfl rfl hd hs
      exact ⟨hpaced, .sends hd rfl hrank⟩
    · exact ⟨h, .ends hd rfl rfl⟩
  · rw [hc]
    obtain ⟨hpaced, hrank⟩ : Paced limit (startLeFrame e).engine ∧ _ :=
      h.setup sendLeHeader (some (lePayload e.linkEstablishmentPacket)) 4 rfl (fun hn => nomatch hn)
        (hle e.linkEstablishmentPacket hp) hlimit rfl rfl rfl hs
    exact ⟨hpaced, .sends rfl rfl hrank⟩

/-- The frame under way goes on, once no delay is left. -/
theorem sendHalf_under_way {e : Engine} (hd : e.delay = 0) (hs : e.sendSize ≠ 0) :
    sendHalf e = sendOctet e := by
  rw [sendHalf, if_neg (not_not.2 hd), if_pos hs]

/-- A reliable packet stays when its frame has been sent. -/
theorem sentPacket_of_reliable {e : Engine} (hrel : e.SendsReliably) :
    sentPacket e = (.none, e) := by
  rcases sentPacket_eq e with ⟨hsent, -⟩ | ⟨-, p, hp, hr⟩
  · exact hsent
  · exact absurd hr (hrel p hp)

/-- Sending a reliable packet reports nothing. -/
theorem sendHalf_silent {e : Engine} (hrel : e.SendsReliably) : (sendHalf e).activity = .none := by
  rcases sendHalf_cases e with ⟨-, h⟩ | ⟨-, -, h⟩ | ⟨-, -, -, h⟩ | ⟨-, -, -, h⟩ <;> rw [h]
  · rcases sendOctet_cases e with ⟨tx, t, hc⟩ | ⟨tx, t, hc⟩ <;> rw [hc]
    rw [sentPacket_of_reliable (show (e.withTx t).SendsReliably from hrel)]
  · rcases startFrame_cases e with ⟨-, h⟩ | ⟨-, p, -, h⟩ | ⟨-, -, -, h⟩ | ⟨-, -, -, h⟩ <;> rw [h]
  · rfl

/-! ## Receiving -/

/-- Neither of the two reports that may stand for an abandoned frame. -/
def Activity.Quiet (a : Activity) : Prop := a.sent = false ∧ a.peerReset = false

/-- The frame under way, the packet with its number, and the link-establishment packet that is
due are the same, and an active engine stays active. -/
structure Keeps (e e' : Engine) : Prop where
  tx : e'.tx = e.tx
  packet : e'.sendPacket = e.sendPacket
  number : e'.sequenceNumber = e.sequenceNumber
  due : e'.linkEstablishmentPacket = e.linkEstablishmentPacket
  active : e.linkEstablishmentState = .active → e'.linkEstablishmentState = .active

theorem Keeps.refl (e : Engine) : Keeps e e := ⟨rfl, rfl, rfl, rfl, id⟩

theorem Keeps.trans {e e' e'' : Engine} (h : Keeps e e') (h' : Keeps e' e'') : Keeps e e'' :=
  ⟨h'.tx.trans h.tx, h'.packet.trans h.packet, h'.number.trans h.number, h'.due.trans h.due,
    h'.active ∘ h.active⟩

/-- What receiving may do to what is to be sent: it may clear the packet, end the delay, and
abandon the frame under way, but the packet and the frame only with a report. -/
structure Heard (a a' : Activity) (e e' : Engine) : Prop where
  packet : e'.sendPacket = e.sendPacket ∨ e'.sendPacket = none
  kept : e.tx.Kept e'.tx
  delay : e'.delay = e.delay ∨ e'.delay = 0
  quiet : a'.Quiet → a.Quiet ∧ Keeps e e'

/-- Where the frame and the packet are kept, only the delay may end. -/
theorem Keeps.heard {a a' : Activity} {e e' : Engine} (h : Keeps e e')
    (hdelay : e'.delay = e.delay ∨ e'.delay = 0) (hquiet : a'.Quiet → a.Quiet) :
    Heard a a' e e' where
  packet := Or.inl h.packet
  kept := Or.inl h.tx
  delay := hdelay
  quiet hq := ⟨hquiet hq, h⟩

namespace Heard
variable {a a' a'' : Activity} {e e' e'' : Engine}

theorem refl (a : Activity) (e : Engine) : Heard a a e e := (Keeps.refl e).heard (Or.inl rfl) id

theorem trans (h : Heard a a' e e') (h' : Heard a' a'' e' e'') : Heard a a'' e e'' where
  packet := by
    rcases h'.packet with hp | hp
    · rw [hp]
      exact h.packet
    · exact Or.inr hp
  kept := by
    rcases h'.kept with htx | ⟨hsize, hesc⟩
    · rw [htx]
      exact h.kept
    · exact Or.inr ⟨hsize, hesc.trans h.kept.escape⟩
  delay := by
    rcases h'.delay with hd | hd
    · rw [hd]
      exact h.delay
    · exact Or.inr hd
  quiet hq := by
    obtain ⟨hq', hkeep'⟩ := h'.quiet hq
    obtain ⟨hq, hkeep⟩ := h.quiet hq'
    exact ⟨hq, hkeep.trans hkeep'⟩

/-- A frame's own activity is added to what has been reported before it. -/
theorem or (h : Heard .none a' e e') (a : Activity) : Heard a (a.or a') e e' where
  packet := h.packet
  kept := h.kept
  delay := h.delay
  quiet hq := by
    obtain ⟨hs, hs'⟩ := Bool.or_eq_false_iff.1 hq.1
    obtain ⟨hr, hr'⟩ := Bool.or_eq_false_iff.1 hq.2
    exact ⟨⟨hs, hr⟩, (h.quiet ⟨hs', hr'⟩).2⟩

/-- Nothing but the input side, the acknowledgement due and the delay. -/
theorem of_rx {r : Rx} {ack : Bool} {d : Nat} (hd : d = e.delay ∨ d = 0) :
    Heard a a e { e.withRx r with sendAck := ack, delay := d } :=
  Keeps.heard ⟨rfl, rfl, rfl, rfl, id⟩ hd id

end Heard

theorem receiveAck_heard (e : Engine) : Heard .none (receiveAck e).1 e (receiveAck e).2 := by
  rcases receiveAck_cases e with h | ⟨-, -, h⟩ <;> rw [h]
  · exact .refl _ _
  · exact ⟨Or.inr rfl, Or.inl rfl, Or.inr rfl, fun hq => nomatch hq.1⟩

theorem receiveLe_heard (a : Activity) (e : Engine) :
    Heard a (receiveLe a e).1 e (receiveLe a e).2 := by
  unfold receiveLe
  dsimp only
  split
  · split
    · exact Keeps.heard ⟨rfl, rfl, rfl, rfl, id⟩ (Or.inr rfl) id
    · exact ⟨Or.inl rfl, Or.inr ⟨rfl, rfl⟩, Or.inr rfl, fun hq => nomatch hq.2⟩
  · split
    · rename_i hstate
      have hnot : e.linkEstablishmentState ≠ .active := by
        intro hact
        cases hstate.symm.trans hact
      exact Keeps.heard ⟨rfl, rfl, rfl, rfl, fun hact => absurd hact hnot⟩ (Or.inr rfl) id
    · exact Keeps.heard ⟨rfl, rfl, rfl, rfl, id⟩ (Or.inr rfl) id
  · split <;> exact Keeps.heard ⟨rfl, rfl, rfl, rfl, id⟩ (Or.inr rfl) id
  · split
    · refine ⟨Or.inl rfl, Or.inr ⟨rfl, rfl⟩, Or.inr rfl, fun hq => ?_⟩
      exact absurd (Bool.or_eq_false_iff.1 hq.1).2 (by decide)
    · exact Keeps.heard ⟨rfl, rfl, rfl, rfl, id⟩ (Or.inr rfl) id
  · exact Keeps.heard ⟨rfl, rfl, rfl, rfl, id⟩ (Or.inr rfl) id

theorem receiveData_heard (a : Activity) (e : Engine) :
    Heard a (receiveData a e).1 e (receiveData a e).2 := by
  have more : ∀ b : Activity, (a.or b).Quiet → a.Quiet := by
    intro b hq
    exact ⟨(Bool.or_eq_false_iff.1 hq.1).1, (Bool.or_eq_false_iff.1 hq.2).1⟩
  unfold receiveData
  split
  · split
    · dsimp only
      split
      · exact Keeps.heard ⟨rfl, rfl, rfl, rfl, id⟩ (Or.inl rfl) (more _)
      · exact Keeps.heard ⟨rfl, rfl, rfl, rfl, id⟩ (Or.inl rfl) id
    · exact Keeps.heard ⟨rfl, rfl, rfl, rfl, id⟩ (Or.inl rfl) (more _)
  · exact .refl _ _

theorem receviedPacket_heard (e : Engine) : Heard .none (receviedPacket e).1 e
    (receviedPacket e).2 := by
  by_cases hok : Intact e
  · have hdecoded : Heard .none .none e (decoded e) :=
      Keeps.heard ⟨rfl, rfl, rfl, rfl, id⟩ (Or.inl rfl) id
    rw [receviedPacket_of_intact hok]
    refine hdecoded.trans ((receiveAck_heard _).trans ?_)
    unfold receiveIntact
    dsimp only
    split
    · exact receiveLe_heard _ _
    · split
      · exact receiveData_heard _ _
      · exact .refl _ _
  · obtain ⟨r, hr, -⟩ := receviedPacket_of_not_intact hok
    rw [hr]
    exact .of_rx (Or.inl rfl)

/-- **One received octet.** -/
theorem receiveOctet_heard (stray : UInt8 → UInt8) (value : UInt8) (a : Activity) (e : Engine) :
    Heard a (receiveOctet stray value a e).1 e (receiveOctet stray value a e).2 := by
  have store : ∀ (e : Engine) (v : UInt8), Heard a a e (storeOctet v e) := by
    intro e v
    have hd := storeOctet_eq v e
    rw [hd]
    exact Keeps.heard ⟨rfl, rfl, rfl, rfl, id⟩ (Or.inl rfl) id
  have escape : ∀ b : Bool, Heard a a e { e with receiveSlipEscape := b } := fun _ =>
    Keeps.heard ⟨rfl, rfl, rfl, rfl, id⟩ (Or.inl rfl) id
  unfold receiveOctet
  split
  · exact (escape false).trans (store _ _)
  · split
    · unfold endOfFrame
      split
      · dsimp only
        refine ((receviedPacket_heard e).or a).trans ?_
        split
        · exact Keeps.heard ⟨rfl, rfl, rfl, rfl, id⟩ (Or.inr rfl) id
        · exact Keeps.heard ⟨rfl, rfl, rfl, rfl, id⟩ (Or.inl rfl) id
      · exact Keeps.heard ⟨rfl, rfl, rfl, rfl, id⟩ (Or.inl rfl) id
    · split
      · exact escape true
      · exact store _ _

theorem receiveLoop_heard (stray : UInt8 → UInt8) (rx : List UInt8) (a : Activity) (e : Engine) :
    Heard a (receiveLoop stray rx a e).1 e (receiveLoop stray rx a e).2.2 := by
  induction rx generalizing a e with
  | nil => exact .refl _ _
  | cons value rx ih =>
    unfold receiveLoop
    split
    · exact (receiveOctet_heard stray value a e).trans (ih _ _)
    · exact .refl _ _

/-! ## A whole call -/

/-- What the end of a call makes of the delay. -/
theorem finishPoll_delay (delay : Nat) (e : Engine) :
    (finishPoll delay e).delay = if 0 < e.delay then e.delay - 1 else delay := by
  unfold finishPoll
  split <;> rfl

/-- The delay decided on is taken, when none is left. -/
theorem finishPoll_of_none {d : Nat} {e : Engine} (h : e.delay = 0) :
    finishPoll d e = { e with delay := d } := by
  rw [finishPoll, if_neg (by rw [h]; exact Nat.lt_irrefl 0)]

theorem finishPoll_tx (delay : Nat) (e : Engine) :
    (finishPoll delay e).tx = e.tx ∧ (finishPoll delay e).sendPacket = e.sendPacket := by
  unfold finishPoll
  split <;> exact ⟨rfl, rfl⟩

/-- Two engines with the same output side. -/
theorem rank_congr {limit : Nat} {e e' : Engine} (htx : e'.tx = e.tx)
    (hdelay : e'.delay = 0) : e'.rank limit ≤ e.rank limit ∧
    (e.delay ≠ 0 → e'.rank limit < e.rank limit) := by
  have hsize : e'.sendSize = e.sendSize := congrArg Tx.sendSize htx
  unfold Engine.rank
  rw [if_pos hdelay, hsize, htx]
  refine ⟨by omega, fun hne => ?_⟩
  rw [if_neg hne]
  omega

/-- **One call keeps the pace**: it returns a delay, or lowers the rank, or reports
`UBCSP_PACKET_SENT` or `UBCSP_PEER_RESET`. -/
theorem Paced.poll {limit : Nat} (hlimit : 4 ≤ limit) {e : Engine} (h : Paced limit e)
    (stray : UInt8 → UInt8) (rx : List UInt8) :
    let r := ubcspPoll stray rx e
    Paced limit r.engine ∧
      (r.activity.Quiet → r.delay ≠ 0 ∨ r.engine.rank limit < e.rank limit) := by
  obtain ⟨hsend, hpaces⟩ := h.sendHalf hlimit
  unfold ubcspPoll
  dsimp only
  split
  · rename_i hret
    refine ⟨hsend, fun _ => Or.inr ?_⟩
    cases hpaces with
    | waits _ hs => rw [hs] at hret; cases hret
    | ends _ _ hnot => rw [hnot] at hret; cases hret
    | sends _ _ hrank => exact hrank
  · have hheard := receiveLoop_heard stray rx (Ubcsp.sendHalf e).activity (Ubcsp.sendHalf e).engine
    generalize receiveLoop stray rx (Ubcsp.sendHalf e).activity (Ubcsp.sendHalf e).engine = l
      at hheard
    obtain ⟨htx, hpacket⟩ := finishPoll_tx (Ubcsp.sendHalf e).delay l.2.2
    refine ⟨(hsend.of_kept hheard.kept hheard.packet).of_tx htx (Or.inl hpacket), fun hq => ?_⟩
    have hsame := (hheard.quiet hq).2.tx
    by_cases hzero : (finishPoll (Ubcsp.sendHalf e).delay l.2.2).delay = 0
    · right
      have hrank := @rank_congr limit _ _ (htx.trans hsame) hzero
      rw [finishPoll_delay] at hzero
      cases hpaces with
      | waits hd hs =>
        have hidle : (Ubcsp.sendHalf e).engine = e := by rw [hs]
        rw [hidle] at hrank
        exact hrank.2 hd
      | ends hd hdelay _ =>
        -- the delay decided on is taken, since none is running
        have hnone : l.2.2.delay = 0 := by
          rcases hheard.delay with hl | hl
          · exact hl.trans hd
          · exact hl
        rw [hnone, if_neg (Nat.lt_irrefl 0), hdelay] at hzero
        cases hzero
      | sends _ _ hlower => exact Nat.lt_of_le_of_lt hrank.1 hlower
    · exact Or.inl hzero

/-! ## The delay and the response owed -/

/-- The variables that say what comes before the next frame are within their ranges. -/
structure Ranged (e : Engine) : Prop where
  delay : e.delay ≤ pollTimeDelay
  resp : e.linkEstablishmentResp ≤ 2

theorem sendHalf_engine_delay (e : Engine) : (sendHalf e).engine.delay = e.delay := by
  rcases sendHalf_cases e with ⟨-, h⟩ | ⟨-, -, h⟩ | ⟨-, -, -, h⟩ | ⟨hd, -, -, h⟩ <;> rw [h]
  · obtain ⟨t, ht | ⟨ht, -⟩⟩ := sendOctet_engine e <;> rw [ht] <;> rfl
  · rcases startFrame_cases e with
      ⟨-, h⟩ | ⟨-, p, -, h⟩ | ⟨-, -, -, h⟩ | ⟨-, -, -, h⟩ <;> rw [h] <;> rfl
  · exact hd.symm

theorem sendHalf_resp {e : Engine} (h : e.linkEstablishmentResp ≤ 2) :
    (sendHalf e).engine.linkEstablishmentResp ≤ 2 := by
  rcases sendHalf_link e with hl | ⟨-, hl⟩ | ⟨-, -, hl⟩
  all_goals have hresp : (sendHalf e).engine.linkEstablishmentResp = _ := congrArg Link.resp hl
  · rw [hresp]
    exact h
  · rw [hresp]
    exact Nat.zero_le 2
  · rw [hresp]
    exact Nat.zero_le 2

theorem Link.resp_receive_le {l : Link} (h : l.resp ≤ 2) (k : Option Nat) :
    (l.receive? k).resp ≤ 2 := by
  rcases k with _ | _ | _ | _ | _ | k
  · exact h
  · show (if l.state ≠ .active then _ else _ : Link).resp ≤ 2
    split
    · exact Nat.le_succ 1
    · exact h
  · show (if l.state = .uninitialized then _ else _ : Link).resp ≤ 2
    split <;> exact h
  · show (if l.state ≠ .uninitialized then _ else _ : Link).resp ≤ 2
    split
    · exact Nat.le_refl 2
    · exact h
  · exact h
  · exact h

theorem receiveLoop_resp (stray : UInt8 → UInt8) (rx : List UInt8) (a : Activity) {e : Engine}
    (h : e.linkEstablishmentResp ≤ 2) :
    (receiveLoop stray rx a e).2.2.linkEstablishmentResp ≤ 2 := by
  induction rx generalizing a e with
  | nil => exact h
  | cons value rx ih =>
    unfold receiveLoop
    split
    · refine ih _ ?_
      have hresp : (receiveOctet stray value a e).2.linkEstablishmentResp = _ :=
        congrArg Link.resp (receiveOctet_link stray value a e)
      rw [hresp]
      exact Link.resp_receive_le h _
    · exact h

theorem Ranged.poll {e : Engine} (h : Ranged e) (stray : UInt8 → UInt8) (rx : List UInt8) :
    Ranged (ubcspPoll stray rx e).engine := by
  have hdelay := sendHalf_engine_delay e
  have hresp := sendHalf_resp h.resp
  unfold ubcspPoll
  dsimp only
  split
  · exact ⟨hdelay ▸ h.delay, hresp⟩
  · have hheard := (receiveLoop_heard stray rx (sendHalf e).activity (sendHalf e).engine).delay
    have hloop := receiveLoop_resp stray rx (sendHalf e).activity hresp
    have hdecided : (sendHalf e).delay ≤ pollTimeDelay := by
      rcases sendHalf_cases e with ⟨-, hs⟩ | ⟨-, -, hs⟩ | ⟨-, -, -, hs⟩ | ⟨-, -, -, hs⟩ <;> rw [hs]
      · exact Nat.zero_le _
      · rcases sendOctet_cases e with ⟨tx, t, hc⟩ | ⟨tx, t, hc⟩ <;> rw [hc]
        exact Nat.zero_le _
      · rcases startFrame_cases e with
          ⟨-, hc⟩ | ⟨-, p, -, hc⟩ | ⟨-, -, -, hc⟩ | ⟨-, -, -, hc⟩ <;> rw [hc]
        all_goals exact Nat.zero_le _
      · exact Nat.zero_le _
    generalize receiveLoop stray rx (sendHalf e).activity (sendHalf e).engine = l at hheard hloop
    refine ⟨?_, ?_⟩
    · have hle := h.delay
      rw [finishPoll_delay]
      split
      · rcases hheard with hl | hl
        · rw [hl, hdelay]
          exact (Nat.sub_le _ 1).trans hle
        · rw [hl]
          exact Nat.zero_le _
      · exact hdecided
    · obtain ⟨d, hd⟩ := finishPoll_eq (sendHalf e).delay l.2.2
      rw [hd]
      exact hloop

end OpenwrtFeed.Ubcsp
