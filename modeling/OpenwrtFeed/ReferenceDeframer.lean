import OpenwrtFeed.FrameAcceptance
import OpenwrtFeed.WireRoundTrip

/-! # The receiver against a reference decoder

`referenceDecode` says what a receiver should make of a stream of octets: split it at
the delimiters, take the SLIP coding off each segment, check it, and deliver the packets
it carries.  `serve` is the engine, polled with whatever has come in and given a receive
packet of 512 octets after each `UBCSP_PACKET_RECEIVED`.

The two agree on every stream in which no segment misleads the engine
(`serve_eq_reference`).  A segment may do so (`Clean`) when it ends in an escape, since the
delimiter is then taken for the second half of a pair; when another escape in it is not
followed by one of the two codes, which `ubcsp_deslip` cannot tell, and the checks do not
notice; and when it is longer than the header and the receive packet, where `receive_index`
stops and the octets beyond are not missed.
-/
namespace OpenwrtFeed.Ubcsp

/-! ## The reference decoder -/

/-- The SLIP coding is taken off a segment, if every escape is followed by a code. -/
abbrev unescape (seg : List UInt8) : Option (List UInt8) := (ubcspSlip id).unstuff seg

/-- The segments that the delimiters of a stream end. -/
abbrev segments (seg stream : List UInt8) : List (List UInt8) := (ubcspSlip id).segments seg stream

theorem segments_slipFrame (seg stream : List UInt8) :
    segments seg (slipFrame :: stream) = seg :: segments [] stream :=
  (ubcspSlip id).segments_frame seg stream

/-- Taking the SLIP coding off a segment never looks at the table of `ubcsp_deslip`. -/
theorem unescape_eq (stray : UInt8 → UInt8) (seg : List UInt8) :
    (ubcspSlip stray).unstuff seg = unescape seg := by
  fun_induction (ubcspSlip stray).unstuff seg with
  | case1 => rfl
  | case2 => rfl
  | case3 x hx => exact (if_neg hx).symm
  | case4 xs ih => rw [ih]; rfl
  | case5 xs hne ih => rw [ih]; rfl
  | case6 y xs hf he =>
    symm
    rw [unescape, SlipCode.unstuff]
    exact (if_pos rfl).trans ((if_neg hf).trans (if_neg he))
  | case7 x y xs hx ih =>
    symm
    rw [ih, unescape, SlipCode.unstuff]
    exact if_neg hx

/-- The frame carries a packet: it passes every check, has at most 512 octets after its
header, a payload, and a channel other than that of link establishment. -/
def CarriesPacket (s : List UInt8) : Prop :=
  FrameIntact s ∧ s.length ≤ 4 + 512 ∧ headerLength s ≠ 0 ∧ headerChannel s ≠ 1

instance (s : List UInt8) : Decidable (CarriesPacket s) := inferInstanceAs (Decidable (_ ∧ _))

/-- The packet that a frame carries. -/
def packetOf (s : List UInt8) : Packet :=
  ⟨headerChannel s, headerReliable s, headerLength s, framePayload s⟩

/-- The packet that a frame delivers, and the sequence number expected after it. -/
def decodeFrame (expected : Fin 8) (s : List UInt8) : Option Packet × Fin 8 :=
  if CarriesPacket s then
    if headerReliable s = 0 then (some (packetOf s), expected)
    else if headerSeq s = UInt8.ofNat expected then (some (packetOf s), expected + 1)
    else (none, expected)
  else (none, expected)

/-- The packet that a segment delivers. -/
def decodeSegment (expected : Fin 8) (seg : List UInt8) : Option Packet × Fin 8 :=
  match unescape seg with
  | some s => decodeFrame expected s
  | none => (none, expected)

/-- The packets that the segments deliver, when `expected` is the sequence number of the next
reliable one. -/
def decodeSegments : Fin 8 → List (List UInt8) → List Packet
  | _, [] => []
  | expected, seg :: segs =>
    (decodeSegment expected seg).1.toList ++ decodeSegments (decodeSegment expected seg).2 segs

/-- The reference decoding of a stream. -/
def referenceDecode (expected : Fin 8) (stream : List UInt8) : List Packet :=
  decodeSegments expected (segments [] stream)

/-! ## The engine -/

/-- What happens around one call of `ubcsp_poll`: the octets that have come in since the last
one, the packet the upper layer submits before it, and the receive packet it has ready. -/
structure Service where
  arrived : List UInt8
  submits : Option Packet
  buffer : Packet

/-- The packet submitted before a call, if there is one. -/
def submitPacket (p : Option Packet) (e : Engine) : Engine :=
  match p with
  | some p => ubcspSendPacket p e
  | none => e

/-- Calls of `ubcsp_poll`, with a receive packet given to the engine after each
`UBCSP_PACKET_RECEIVED`: the packets reported, the octets still in the UART, and the
engine. -/
def serve (stray : UInt8 → UInt8) : List Service → List UInt8 → Engine →
    List Packet × List UInt8 × Engine
  | [], uart, e => ([], uart, e)
  | s :: calls, uart, e =>
    let r := ubcspPoll stray (uart ++ s.arrived) (submitPacket s.submits e)
    if r.activity.received then
      let next := serve stray calls r.rest (ubcspReceivePacket s.buffer r.engine)
      (r.engine.handedOver :: next.1, next.2)
    else serve stray calls r.rest r.engine

/-- What the receive loop makes of a segment: the octets it collects, and whether the last one
was an escape. -/
def readBy (stray : UInt8 → UInt8) (seg : List UInt8) : SlipCode.Partial UInt8 :=
  ((ubcspSlip stray).run .empty seg).1

theorem readBy_octet (stray : UInt8 → UInt8) (seg : List UInt8) (value : UInt8) :
    readBy stray (seg ++ [value]) = ((ubcspSlip stray).step (readBy stray seg) value).1 := by
  rw [readBy, SlipCode.run_append]
  rfl

/-- The segment does not mislead the engine, and is no link-establishment packet: it does not
end in an escape, and if as much of what is read as fits into the buffers is intact, then
every escape is sound, nothing is cut off, and the channel is another one. -/
def Clean (stray : UInt8 → UInt8) (seg : List UInt8) : Prop :=
  (readBy stray seg).escaped = false ∧
    (FrameIntact (clip 512 (readBy stray seg).octets) →
      unescape seg = some (readBy stray seg).octets ∧ (readBy stray seg).octets.length ≤ 4 + 512 ∧
        headerChannel (readBy stray seg).octets ≠ 1)

instance (stray : UInt8 → UInt8) (seg : List UInt8) : Decidable (Clean stray seg) :=
  inferInstanceAs (Decidable (_ ∧ _))

/-- The engine is active and has read `seg` since the last delimiter, with a receive packet
of 512 octets. -/
structure Listening (stray : UInt8 → UInt8) (seg : List UInt8) (e : Engine) : Prop where
  active : e.linkEstablishmentState = .active
  armed : e.receiveArmed = true
  raw : slipFrame ∉ seg
  deframes : Deframes 512 (readBy stray seg) e

/-- The engine has reported a packet and waits for a receive packet. -/
structure Paused (e : Engine) : Prop where
  active : e.linkEstablishmentState = .active
  armed : e.receiveArmed = false
  deframes : Deframes 512 .empty e

theorem Listening.of_fields {stray : UInt8 → UInt8} {seg : List UInt8} {e e' : Engine}
    (h : Listening stray seg e) (hrx : e'.rx = e.rx)
    (hstate : e'.linkEstablishmentState = e.linkEstablishmentState) : Listening stray seg e' :=
  ⟨hstate.trans h.active, (congrArg Rx.receiveArmed hrx).trans h.armed, h.raw, h.deframes.of_rx hrx⟩

theorem Paused.of_fields {e e' : Engine} (h : Paused e) (hrx : e'.rx = e.rx)
    (hstate : e'.linkEstablishmentState = e.linkEstablishmentState) : Paused e' :=
  ⟨hstate.trans h.active, (congrArg Rx.receiveArmed hrx).trans h.armed, h.deframes.of_rx hrx⟩

/-- A receive packet of 512 octets lets the engine go on. -/
theorem Paused.rearm {stray : UInt8 → UInt8} {e : Engine} (h : Paused e) {q : Packet}
    (hq : q.length = 512) (hroom : q.payload.length = 512) :
    Listening stray [] (ubcspReceivePacket q e) := by
  have hn : q.length.toNat = 512 := congrArg UInt16.toNat hq
  have hd := h.deframes.rearm (q := q) (by rw [hn, hroom])
  rw [hn] at hd
  exact ⟨h.active, rfl, List.not_mem_nil, hd⟩

/-! ## The end of a segment -/

/-- The end of a frame, with the activity `a` before and `a'` after it, leaves the engine `e`
and delivers what the reference decoder has found, `d`. -/
structure Decodes (d : Option Packet × Fin 8) (a a' : Activity) (e : Engine) : Prop where
  active : e.linkEstablishmentState = .active
  received : a'.received = (a.received || d.1.isSome)
  armed : e.receiveArmed = d.1.isNone
  expected : e.ackNumber = d.2
  packet : ∀ p, d.1 = some p → e.handedOver = p

/-- Nothing is delivered. -/
theorem Decodes.nothing {d : Option Packet × Fin 8} {n : Fin 8} {a a' : Activity} {e' : Engine}
    (hnone : d = (none, n)) (hactive : e'.linkEstablishmentState = .active)
    (hrec : a'.received = a.received) (harmed : e'.receiveArmed = true) (hack : e'.ackNumber = n) :
    Decodes d a a' e' := by
  refine ⟨hactive, ?_, ?_, ?_, ?_⟩ <;> rw [hnone]
  · simpa using hrec
  · exact harmed
  · exact hack
  · intro p hp
    cases hp

/-- A packet is delivered. -/
theorem Decodes.packet_delivered {d : Option Packet × Fin 8} {n : Fin 8} {a a' : Activity}
    {e' : Engine} {p : Packet} (hsome : d = (some p, n))
    (hactive : e'.linkEstablishmentState = .active) (hrec : a'.received = true)
    (harmed : e'.receiveArmed = false) (hack : e'.ackNumber = n) (hp : e'.handedOver = p) :
    Decodes d a a' e' := by
  refine ⟨hactive, ?_, ?_, ?_, ?_⟩ <;> rw [hsome]
  · simpa using hrec
  · exact harmed
  · exact hack
  · intro q hq
    obtain rfl := Option.some.inj hq
    exact hp

/-- The packet handed over is the one the frame carries. -/
theorem handOver_packet {s : List UInt8} {e x : Engine} (harr : Arrived 512 s (decoded e))
    (hclip : clip 512 s = s) (hrx : x.rx = (decoded e).rx) (d : Nat) (i : Int) :
    ({ handOver x with delay := d, receiveIndex := i } : Engine).handedOver = packetOf s := by
  have hpacket : x.receivePacket = (decoded e).receivePacket := congrArg Rx.receivePacket hrx
  have hheader : x.receiveHeader = (decoded e).receiveHeader := congrArg Rx.receiveHeader hrx
  have hlen : headerLength (decoded e).receiveHeader = headerLength s :=
    congrArg Header.length harr.header
  have hpay := harr.payload
  rw [hclip] at hpay
  simp only [Engine.handedOver, handOver, hpacket, hheader, hlen, packetOf]
  rw [hpay, harr.channel, harr.reliable]

/-- The end of an intact frame that fits into the buffers, on another channel than 1. -/
theorem endOfFrame_decodes_intact {s : List UInt8} {e : Engine} (h : Deframes 512 ⟨false, s⟩ e)
    (hactive : e.linkEstablishmentState = .active) (harmed : e.receiveArmed = true)
    (hok : FrameIntact (clip 512 s)) (hshort : s.length ≤ 4 + 512) (hch : headerChannel s ≠ 1)
    (a : Activity) : Decodes (decodeFrame e.ackNumber s) a (endOfFrame a e).1
    (endOfFrame a e).2 := by
  have hclip : clip 512 s = s := clip_of_le hshort
  obtain ⟨harr, d, hend⟩ := endOfFrame_of_intact h harmed hok a
  have hchannel : (decoded e).receivePacket.channel ≠ 1 := harr.channel ▸ hch
  have hindex := harr.index
  have hseq : headerSeq (decoded e).receiveHeader = headerSeq s := congrArg Header.seq harr.header
  -- the acknowledgement in the header leaves the input side alone
  have hrx : (receiveAck (decoded e)).2.rx = (decoded e).rx := receiveAck_rx _
  have harmed' : (receiveAck (decoded e)).2.receiveArmed = true :=
    (receiveAck_armed (decoded e)).trans harmed
  have hstate : (receiveAck (decoded e)).2.linkEstablishmentState = .active :=
    (receiveAck_state (decoded e)).trans hactive
  have hnumber : (receiveAck (decoded e)).2.ackNumber = e.ackNumber :=
    receiveAck_ackNumber (decoded e)
  have hack : (receiveAck (decoded e)).1.received = false := receiveAck_received _
  rw [hend]
  by_cases hlen : headerLength s = 0
  · have hnone : decodeFrame e.ackNumber s = (none, e.ackNumber) := if_neg fun hc => hc.2.2.1 hlen
    have hempty : (decoded e).receiveIndex = 0 := by
      rw [hindex, hlen]
      rfl
    rw [receiveIntact_empty hchannel hempty]
    exact .nothing hnone hstate (by rw [Activity.or_received, hack, Bool.or_false]) harmed' hnumber
  · have hcarries : CarriesPacket s := ⟨hclip ▸ hok, hshort, hlen, hch⟩
    have hne : (decoded e).receiveIndex ≠ 0 := by
      rw [hindex]
      intro h0
      exact hlen (UInt16.toNat_inj.1 (by simpa using h0))
    by_cases hrel : headerReliable s = 0
    · have hsome : decodeFrame e.ackNumber s = (some (packetOf s), e.ackNumber) := by
        rw [decodeFrame, if_pos hcarries, if_pos hrel]
      rw [receiveIntact_unreliable hchannel hne hactive (harr.reliable.trans hrel)]
      exact .packet_delivered hsome hstate (by simp [Activity.packetReceived]) rfl hnumber
        (handOver_packet harr hclip hrx _ _)
    · have hrel' : (decoded e).receivePacket.reliable ≠ 0 := harr.reliable ▸ hrel
      by_cases hnew : headerSeq s = UInt8.ofNat e.ackNumber
      · have hsome : decodeFrame e.ackNumber s = (some (packetOf s), e.ackNumber + 1) := by
          rw [decodeFrame, if_pos hcarries, if_neg hrel, if_pos hnew]
        rw [receiveIntact_new hchannel hne hactive hrel' (hseq.trans hnew)]
        exact .packet_delivered hsome hstate (by simp [Activity.packetReceivedAck]) rfl rfl
          (handOver_packet (x := { (receiveAck (decoded e)).2 with
            sendAck := true, ackNumber := (decoded e).ackNumber + 1 }) harr hclip hrx _ _)
      · have hnone : decodeFrame e.ackNumber s = (none, e.ackNumber) := by
          rw [decodeFrame, if_pos hcarries, if_neg hrel, if_neg hnew]
        rw [receiveIntact_duplicate hchannel hne hactive hrel' fun heq =>
          hnew (hseq.symm.trans heq)]
        exact .nothing hnone hstate (by rw [Activity.or_received, hack, Bool.or_false])
          harmed' hnumber

/-- **The end of a clean segment.** -/
theorem endOfFrame_decodes {stray : UInt8 → UInt8} {seg : List UInt8} {e : Engine}
    (h : Listening stray seg e) (hclean : Clean stray seg) (a : Activity) :
    Decodes (decodeSegment e.ackNumber seg) a (endOfFrame a e).1 (endOfFrame a e).2 := by
  obtain ⟨hescaped, hsound⟩ := hclean
  have hd : Deframes 512 ⟨false, (readBy stray seg).octets⟩ e := by
    rw [← hescaped]
    exact h.deframes
  by_cases hok : FrameIntact (clip 512 (readBy stray seg).octets)
  · obtain ⟨hs, hshort, hch⟩ := hsound hok
    rw [decodeSegment, hs]
    exact endOfFrame_decodes_intact hd h.active h.armed hok hshort hch a
  · obtain ⟨r, ack, d, hr, hend⟩ := endOfFrame_of_rejected hd h.armed hok a
    rw [hend]
    refine .nothing ?_ h.active rfl hr rfl
    -- what the reference decoder reads of the segment, if anything, is what the engine has read
    rw [decodeSegment]
    cases hs : unescape seg with
    | none => rfl
    | some s =>
      have hrun := (ubcspSlip stray).run_of_unstuff h.raw (unescape_eq stray seg ▸ hs) []
      have hocts : (readBy stray seg).octets = s := congrArg (fun r => r.1.octets) hrun
      exact if_neg fun hc => hok (by rw [hocts, clip_of_le hc.2.1]; exact hc.1)

/-! ## What is left to decode -/

/-- Every segment of the stream is clean; `seg` has come before it. -/
def CleanStream (stray : UInt8 → UInt8) (seg stream : List UInt8) : Prop :=
  ∀ g ∈ segments seg stream, Clean stray g

instance (stray : UInt8 → UInt8) (seg stream : List UInt8) :
    Decidable (CleanStream stray seg stream) :=
  inferInstanceAs (Decidable (∀ g ∈ segments seg stream, Clean stray g))

/-- Reading the octets `used` in the segment `seg` delivers `got` and leaves the segment `seg'`,
whatever comes afterwards. -/
structure Consumes (seg used : List UInt8) (n : Fin 8) (got : List Packet) (seg' : List UInt8)
    (n' : Fin 8) :
    Prop where
  decodes : ∀ future, decodeSegments n (segments seg (used ++ future)) =
    got ++ decodeSegments n' (segments seg' future)
  remaining : ∀ future, segments seg' future ⊆ segments seg (used ++ future)

theorem Consumes.refl (seg : List UInt8) (n : Fin 8) : Consumes seg [] n [] seg n :=
  ⟨fun _ => rfl, fun _ => List.Subset.refl _⟩

theorem Consumes.trans {seg seg' seg'' used used' : List UInt8} {n n' n'' : Fin 8}
    {got got' : List Packet} (h : Consumes seg used n got seg' n')
    (h' : Consumes seg' used' n' got' seg'' n'') :
    Consumes seg (used ++ used') n (got ++ got') seg'' n'' := by
  constructor
  · intro future
    rw [List.append_assoc, h.decodes, h'.decodes, List.append_assoc]
  · intro future
    rw [List.append_assoc]
    exact List.Subset.trans (h'.remaining future) (h.remaining (used' ++ future))

/-- An octet of the segment in progress. -/
theorem Consumes.of_octet {x : UInt8} (hx : x ≠ slipFrame) (seg : List UInt8) (n : Fin 8) :
    Consumes seg [x] n [] (seg ++ [x]) n := by
  have hcons : ∀ future, segments seg ([x] ++ future) = segments (seg ++ [x]) future :=
    fun future =>
    (ubcspSlip id).segments_cons hx seg future
  exact ⟨fun future => by rw [hcons]; rfl, fun future => by rw [hcons]; exact List.Subset.refl _⟩

/-- The delimiter that ends a segment. -/
theorem Consumes.of_frame (seg : List UInt8) (n : Fin 8) :
    Consumes seg [slipFrame] n (decodeSegment n seg).1.toList [] (decodeSegment n seg).2 := by
  have hcons : ∀ future, segments seg ([slipFrame] ++ future) = seg :: segments [] future :=
    segments_slipFrame seg
  constructor
  · intro future
    rw [hcons, decodeSegments]
  · intro future
    rw [hcons]
    exact List.subset_cons_self _ _

theorem Consumes.clean {stray : UInt8 → UInt8} {seg seg' used rest : List UInt8} {n n' : Fin 8}
    {got : List Packet} (h : Consumes seg used n got seg' n')
    (hc : CleanStream stray seg (used ++ rest)) : CleanStream stray seg' rest :=
  fun g hg => hc g (h.remaining rest hg)

/-- A packet is delivered by some octet. -/
theorem Consumes.used_ne_nil {seg seg' used : List UInt8} {n n' : Fin 8} {p : Packet}
    (h : Consumes seg used n [p] seg' n') : used ≠ [] := by
  rintro rfl
  have hlen := congrArg List.length (h.decodes [])
  simp [decodeSegments] at hlen

/-- Octets without a delimiter and what follows them. -/
theorem referenceDecode_raw {seg : List UInt8} (hraw : slipFrame ∉ seg) (n : Fin 8)
    (used : List UInt8) :
    referenceDecode n (seg ++ used) = decodeSegments n (segments seg used) :=
  congrArg (decodeSegments n) ((ubcspSlip id).segments_raw hraw [] used)

/-! ## One call -/

/-- The engine has read `used` in the segment `seg`, and reports a packet or goes on. -/
def Progress (stray : UInt8 → UInt8) (seg used : List UInt8) (n : Fin 8) (received : Bool)
    (e : Engine) : Prop :=
  (received = false ∧ ∃ seg', Listening stray seg' e ∧ Consumes seg used n [] seg' e.ackNumber) ∨
    (received = true ∧ Paused e ∧ Consumes seg used n [e.handedOver] [] e.ackNumber)

variable {stray : UInt8 → UInt8} {seg : List UInt8} {e : Engine}

theorem Progress.of_fields {used : List UInt8} {n : Fin 8} {received : Bool} {e' : Engine}
    (h : Progress stray seg used n received e) (hrx : e'.rx = e.rx)
    (hstate : e'.linkEstablishmentState = e.linkEstablishmentState)
    (hack : e'.ackNumber = e.ackNumber) :
    Progress stray seg used n received e' := by
  have hpacket : e'.receivePacket = e.receivePacket := congrArg Rx.receivePacket hrx
  rcases h with ⟨hrec, seg', hl, hr⟩ | ⟨hrec, hp, hr⟩
  · exact Or.inl ⟨hrec, seg', hl.of_fields hrx hstate, hack ▸ hr⟩
  · refine Or.inr ⟨hrec, hp.of_fields hrx hstate, ?_⟩
    rw [hack, Engine.handedOver, hpacket]
    exact hr

/-- What follows octets that deliver nothing. -/
theorem Progress.after {seg' used used' : List UInt8} {n n' : Fin 8} {received : Bool}
    (hread : Consumes seg used n [] seg' n') (h : Progress stray seg' used' n' received e) :
    Progress stray seg (used ++ used') n received e := by
  rcases h with ⟨hrec, seg'', hl, hr⟩ | ⟨hrec, hp, hr⟩
  · exact Or.inl ⟨hrec, seg'', hl, hread.trans hr⟩
  · exact Or.inr ⟨hrec, hp, hread.trans hr⟩

/-- **One received octet.** -/
theorem receiveOctet_progress (h : Listening stray seg e) {value : UInt8}
    (hclean : value = slipFrame → Clean stray seg) {a : Activity} (ha : a.received = false) :
    Progress stray seg [value] e.ackNumber (receiveOctet stray value a e).1.received
      (receiveOctet stray value a e).2 := by
  by_cases hv : value = slipFrame
  · subst hv
    have hsegment := hclean rfl
    have hoff : ¬ e.receiveSlipEscape = true := by
      rw [h.deframes.escaped, hsegment.1]
      exact Bool.false_ne_true
    have hoctet : receiveOctet stray slipFrame a e = endOfFrame a e := by
      rw [receiveOctet, if_neg hoff, if_pos rfl]
    have hends : Deframes 512 .empty (endOfFrame a e).2 := by
      refine @Deframes.ends 512 (readBy stray seg).octets e ?_ a
      rw [← hsegment.1]
      exact h.deframes
    have hdec := endOfFrame_decodes h hsegment a
    have hread := Consumes.of_frame seg e.ackNumber
    have hrec := hdec.received
    have harmed := hdec.armed
    rw [ha, Bool.false_or] at hrec
    rw [← hdec.expected] at hread
    rw [hoctet]
    cases hp : (decodeSegment e.ackNumber seg).1 with
    | none =>
      rw [hp] at hrec harmed hread
      exact Or.inl ⟨hrec, [], ⟨hdec.active, harmed, List.not_mem_nil, hends⟩, hread⟩
    | some p =>
      rw [hp] at hrec harmed hread
      rw [← hdec.packet p hp] at hread
      exact Or.inr ⟨hrec, ⟨hdec.active, harmed, hends⟩, hread⟩
  · obtain ⟨hnext, ⟨-, r, hr, hoctet⟩ | ⟨-, -, hframe, -⟩⟩ :=
      @Deframes.octet 512 stray _ e h.deframes h.armed value a
    · rw [hoctet] at hnext ⊢
      refine Or.inl ⟨ha, seg ++ [value], ⟨h.active, hr, ?_, ?_⟩,
        Consumes.of_octet hv seg e.ackNumber⟩
      · simpa using ⟨h.raw, Ne.symm hv⟩
      · rw [readBy_octet]
        exact hnext
    · exact absurd hframe hv

/-- **The receive loop.** -/
theorem receiveLoop_progress (later : List UInt8) (rx : List UInt8) (h : Listening stray seg e)
    (hclean : CleanStream stray seg (rx ++ later)) {a : Activity} (ha : a.received = false) :
    ∃ used, used ++ (receiveLoop stray rx a e).2.1 = rx ∧
      Progress stray seg used e.ackNumber (receiveLoop stray rx a e).1.received
        (receiveLoop stray rx a e).2.2 := by
  induction rx generalizing seg a e with
  | nil => exact ⟨[], rfl, Or.inl ⟨ha, seg, h, Consumes.refl seg e.ackNumber⟩⟩
  | cons value rx ih =>
    have hloop : receiveLoop stray (value :: rx) a e =
        receiveLoop stray rx (receiveOctet stray value a e).1 (receiveOctet stray value a e).2 := by
      rw [receiveLoop, if_pos h.armed]
    have hend : value = slipFrame → Clean stray seg := by
      rintro rfl
      refine hclean seg ?_
      rw [List.cons_append, segments_slipFrame]
      exact List.mem_cons_self
    rw [hloop]
    rcases receiveOctet_progress h hend ha with ⟨hrec, seg', hl, hr⟩ | ⟨hrec, hp, hr⟩
    · obtain ⟨used, hused, hout⟩ := ih hl (hr.clean hclean) hrec
      exact ⟨value :: used, congrArg (value :: ·) hused, hout.after hr⟩
    · rw [(receiveLoop_off stray rx _ hp.armed).1]
      exact ⟨[value], rfl, Or.inr ⟨hrec, hp, hr⟩⟩

/-- **One call of `ubcsp_poll`.** -/
theorem ubcspPoll_progress {later rx : List UInt8} (h : Listening stray seg e)
    (hclean : CleanStream stray seg (rx ++ later)) :
    ∃ used, used ++ (ubcspPoll stray rx e).rest = rx ∧
      Progress stray seg used e.ackNumber (ubcspPoll stray rx e).activity.received
        (ubcspPoll stray rx e).engine := by
  have hsent : Listening stray seg (sendHalf e).engine :=
    h.of_fields (sendHalf_rx e) (sendHalf_state e)
  have hnumber : (sendHalf e).engine.ackNumber = e.ackNumber := (sendHalf_numbers e).2
  rw [← hnumber]
  unfold ubcspPoll
  dsimp only
  by_cases hret : (sendHalf e).returned = true
  · rw [if_pos hret]
    exact ⟨[], rfl, Or.inl ⟨rfl, seg, hsent, Consumes.refl seg _⟩⟩
  · rw [if_neg hret]
    obtain ⟨d, hfinish⟩ := finishPoll_eq (sendHalf e).delay
      (receiveLoop stray rx (sendHalf e).activity (sendHalf e).engine).2.2
    obtain ⟨used, hused, hout⟩ := receiveLoop_progress later rx hsent hclean (sendHalf_received e)
    rw [hfinish]
    exact ⟨used, hused, hout.of_fields rfl rfl rfl⟩

/-! ## Every call -/

/-- The octets that come in before the calls. -/
def arrivals (calls : List Service) : List UInt8 := (calls.map Service.arrived).flatten

/-- Nothing comes in and nothing is submitted before the call. -/
def Service.Idle (s : Service) : Prop := s.arrived = [] ∧ s.submits = none

/-- The receive packet has room for 512 octets. -/
def Service.Buffered (s : Service) : Prop := s.buffer.length = 512 ∧ s.buffer.payload.length = 512

theorem arrivals_cons (s : Service) (calls : List Service) :
    arrivals (s :: calls) = s.arrived ++ arrivals calls := by
  simp [arrivals]

theorem arrivals_of_idle {calls : List Service} (hidle : ∀ s ∈ calls, s.Idle) :
    arrivals calls = [] := by
  simp only [arrivals, List.flatten_eq_nil_iff, List.mem_map]
  rintro _ ⟨s, hs, rfl⟩
  exact (hidle s hs).1

/-- A packet is submitted: the receiver does not notice. -/
theorem Listening.submitPacket (h : Listening stray seg e) (p : Option Packet) :
    Listening stray seg (submitPacket p e) ∧ (Ubcsp.submitPacket p e).ackNumber = e.ackNumber := by
  cases p with
  | none => exact ⟨h, rfl⟩
  | some p => exact ⟨h.of_fields rfl rfl, rfl⟩

/-- **Calls one after the other** read the stream, and report what it delivers. -/
theorem serve_consumes {calls : List Service} (hbuf : ∀ s ∈ calls, s.Buffered) {uart : List UInt8}
    (h : Listening stray seg e) (hclean : CleanStream stray seg (uart ++ arrivals calls)) :
    ∃ used seg', used ++ (serve stray calls uart e).2.1 = uart ++ arrivals calls ∧
      Listening stray seg' (serve stray calls uart e).2.2 ∧
      Consumes seg used e.ackNumber (serve stray calls uart e).1 seg'
        (serve stray calls uart e).2.2.ackNumber := by
  induction calls generalizing seg uart e with
  | nil => exact ⟨[], seg, (List.append_nil uart).symm, h, Consumes.refl seg e.ackNumber⟩
  | cons s calls ih =>
    have hlater : ∀ c ∈ calls, c.Buffered := fun c hc => hbuf c (List.mem_cons_of_mem _ hc)
    obtain ⟨hl, hnumber⟩ := h.submitPacket s.submits
    rw [arrivals_cons, ← List.append_assoc] at hclean ⊢
    obtain ⟨used, hused, hout⟩ := ubcspPoll_progress hl hclean
    rw [hnumber] at hout
    rw [← hused, List.append_assoc] at hclean ⊢
    rw [serve]
    rcases hout with ⟨hrec, seg', hl', hr⟩ | ⟨hrec, hp, hr⟩
    · obtain ⟨used', seg'', hused', hl'', hr'⟩ := ih hlater hl' (hr.clean hclean)
      rw [if_neg (by rw [hrec]; exact Bool.false_ne_true)]
      refine ⟨used ++ used', seg'', ?_, hl'', hr.trans hr'⟩
      rw [List.append_assoc, hused']
    · obtain ⟨hlength, hroom⟩ := hbuf s List.mem_cons_self
      obtain ⟨used', seg'', hused', hl'', hr'⟩ :=
        ih hlater (@Paused.rearm stray _ hp s.buffer hlength hroom) (hr.clean hclean)
      rw [if_pos hrec]
      refine ⟨used ++ used', seg'', ?_, hl'', hr.trans hr'⟩
      rw [List.append_assoc, hused']

theorem serve_append (stray : UInt8 → UInt8) (before after : List Service) (uart : List UInt8)
    (e : Engine) :
    serve stray (before ++ after) uart e =
      ((serve stray before uart e).1 ++
          (serve stray after (serve stray before uart e).2.1 (serve stray before uart e).2.2).1,
        (serve stray after (serve stray before uart e).2.1 (serve stray before uart e).2.2).2) := by
  induction before generalizing uart e with
  | nil => rfl
  | cons s before ih =>
    simp only [List.cons_append, serve, ih]
    split <;> rfl

/-- **Idle calls empty the UART**: one that does not return early reads everything, or up to a
packet, and of two calls in a row at most one returns early. -/
theorem serve_drains {idle : List Service} (hidle : ∀ s ∈ idle, s.Idle)
    (hbuf : ∀ s ∈ idle, s.Buffered) {uart : List UInt8} (h : Listening stray seg e)
    (hclean : CleanStream stray seg uart)
    (hcalls : 2 * uart.length + (if (sendHalf e).returned then 2 else 1) ≤ idle.length) :
    (serve stray idle uart e).2.1 = [] := by
  have early : ∀ (x : Engine), (if (sendHalf x).returned then 2 else 1) ≤ 2 := by
    intro x
    split <;> omega
  induction idle generalizing seg uart e with
  | nil =>
    have hpos : 1 ≤ if (sendHalf e).returned then 2 else 1 := by split <;> omega
    rw [List.length_nil] at hcalls
    omega
  | cons s idle ih =>
    have hlater : ∀ c ∈ idle, c.Idle := fun c hc => hidle c (List.mem_cons_of_mem _ hc)
    have hbufs : ∀ c ∈ idle, c.Buffered := fun c hc => hbuf c (List.mem_cons_of_mem _ hc)
    obtain ⟨harrived, hsubmits⟩ := hidle s List.mem_cons_self
    have hstream : CleanStream stray seg (uart ++ []) := by rwa [List.append_nil]
    obtain ⟨used, hused, hout⟩ := ubcspPoll_progress h hstream
    rw [List.length_cons] at hcalls
    rw [serve, harrived, hsubmits, List.append_nil, submitPacket]
    by_cases hret : (sendHalf e).returned = true
    · have hpoll : ubcspPoll stray uart e =
          ⟨.none, 0, (sendHalf e).tx, uart, (sendHalf e).engine⟩ := if_pos hret
      have hnext := sendHalf_returned_next hret
      have hlisten : Listening stray seg (sendHalf e).engine :=
        h.of_fields (sendHalf_rx e) (sendHalf_state e)
      rw [hpoll]
      rw [if_pos hret] at hcalls
      refine ih hlater hbufs hlisten hclean ?_
      rw [hnext]
      simp only [Bool.false_eq_true, if_false]
      omega
    · rw [if_neg hret] at hcalls
      rcases hout with ⟨hrec, seg', hl, -⟩ | ⟨hrec, hp, hr⟩
      · have hrest : (ubcspPoll stray uart e).rest = [] := ubcspPoll_rest_nil hret hl.armed
        rw [if_neg (by rw [hrec]; exact Bool.false_ne_true), hrest]
        -- nothing is left to read, and nothing comes in
        have hnil : CleanStream stray seg' ([] ++ arrivals idle) := by
          rw [arrivals_of_idle hlater]
          exact fun g hg => absurd hg List.not_mem_nil
        obtain ⟨used', -, hleft, -⟩ := serve_consumes hbufs hl hnil
        rw [arrivals_of_idle hlater] at hleft
        exact (List.append_eq_nil_iff.1 hleft).2
      · obtain ⟨hlength, hroom⟩ := hbuf s List.mem_cons_self
        have hpos : 0 < used.length := List.length_pos_iff.2 hr.used_ne_nil
        have hlen := congrArg List.length hused
        rw [List.length_append] at hlen
        rw [← hused] at hclean
        rw [if_pos hrec]
        refine ih hlater hbufs (@Paused.rearm stray _ hp s.buffer hlength hroom)
          (hr.clean hclean) ?_
        have := early (ubcspReceivePacket s.buffer (ubcspPoll stray uart e).engine)
        omega

/-- **The receiver is the reference decoder.**  Of a stream whose segments are clean the engine
reports what the reference decoding of the octets it has read delivers, in that order; and calls
that go on long enough read every octet. -/
theorem serve_eq_reference (h : Listening stray seg e) {calls : List Service} {uart : List UInt8}
    (hbuf : ∀ s ∈ calls, s.Buffered) (hclean : CleanStream stray seg (uart ++ arrivals calls)) :
    (∃ used, used ++ (serve stray calls uart e).2.1 = uart ++ arrivals calls ∧
        (serve stray calls uart e).1 = referenceDecode e.ackNumber (seg ++ used)) ∧
      ∀ before idle, calls = before ++ idle → (∀ s ∈ idle, s.Idle) →
        2 * (uart ++ arrivals calls).length + 2 ≤ idle.length →
          (serve stray calls uart e).2.1 = [] := by
  constructor
  · obtain ⟨used, seg', hused, -, hr⟩ := serve_consumes hbuf h hclean
    refine ⟨used, hused, ?_⟩
    have hdecodes := hr.decodes []
    simp only [List.append_nil, segments, SlipCode.segments_nil, decodeSegments] at hdecodes
    rw [referenceDecode_raw h.raw, segments, hdecodes]
  · rintro before idle rfl hidle hlong
    have hbefore : ∀ s ∈ before, s.Buffered := fun s hs => hbuf s (List.mem_append_left _ hs)
    have hafter : ∀ s ∈ idle, s.Buffered := fun s hs => hbuf s (List.mem_append_right _ hs)
    have harrivals : arrivals (before ++ idle) = arrivals before := by
      simp only [arrivals, List.map_append, List.flatten_append]
      exact (congrArg _ (arrivals_of_idle hidle)).trans (List.append_nil _)
    rw [harrivals] at hclean hlong
    obtain ⟨used, seg', hused, hl, hr⟩ := serve_consumes hbefore h hclean
    have hlen := congrArg List.length hused
    rw [List.length_append] at hlen
    rw [← hused] at hclean
    rw [serve_append]
    refine serve_drains hidle hafter hl (hr.clean hclean) ?_
    split <;> omega

/-- The engine that a CONF RESP has made active, before the first segment. -/
theorem confirmed_listening (stray : UInt8 → UInt8) : Listening stray [] confirmed := by
  refine ⟨by decide, by decide, List.not_mem_nil, ?_⟩
  have hroom : confirmed.receivePacket.length.toNat ≤ confirmed.receivePacket.payload.length := by
    decide +kernel
  exact ⟨by decide, show confirmed.receiveSlipEscape = false by decide, fun _ => by decide,
    fun _ => .empty (by decide) hroom (by decide), fun hoff => absurd hoff (by decide)⟩

/-- A call before which nothing happens. -/
def idleService : Service := ⟨[], none, .blank 512⟩

/-- Noise with an escape in it, a frame with a wrong header checksum, and a frame whose payload
is escaped. -/
def noisyStream : List UInt8 :=
  [0xAA, 0xDB, 0xBB, 0xC0, 0x00, 0x15, 0x00, 0xEB, 0x07, 0xC0, 0x00, 0x15, 0x00, 0xEA,
    0xDB, 0xDC, 0xC0]

/-- From the noisy stream the escaped packet is received, and nothing else. -/
theorem serve_eq_reference_noisy :
    (serve id (List.replicate 36 idleService) noisyStream confirmed).1 = [⟨5, 0, 1, [0xC0]⟩] := by
  have hidle : ∀ s ∈ List.replicate 36 idleService, s.Idle := by
    intro s hs
    rw [List.eq_of_mem_replicate hs]
    exact ⟨rfl, rfl⟩
  have hbuf : ∀ s ∈ List.replicate 36 idleService, s.Buffered := by
    intro s hs
    rw [List.eq_of_mem_replicate hs]
    exact ⟨rfl, List.length_replicate⟩
  have hnone : arrivals (List.replicate 36 idleService) = [] := arrivals_of_idle hidle
  have hclean : CleanStream id [] (noisyStream ++ arrivals (List.replicate 36 idleService)) := by
    rw [hnone]
    decide +kernel
  obtain ⟨⟨used, hused, hreported⟩, hdrains⟩ :=
    serve_eq_reference (confirmed_listening id) hbuf hclean
  rw [hdrains [] _ rfl hidle (by rw [hnone]; decide), hnone, List.append_nil,
    List.append_nil] at hused
  rw [hreported, hused]
  decide +kernel

/-- A frame with payload, after a segment that ends in an escape. -/
def swallowedFrame : List UInt8 := [0xDB, 0xC0, 0x00, 0x15, 0x00, 0xEA, 0x07, 0xC0]

/-- A frame with 513 octets of payload, whose header states 512. -/
def oversizedFrame : List UInt8 := [0x00, 0x05, 0x20, 0xDA] ++ List.replicate 513 0x0E ++ [0xC0]

/-- **Two streams that mislead the engine**: one whose packet it never reports, and one from
which it reports a packet that should have been rejected. -/
theorem exists_misled :
    Listening id [] confirmed ∧ (∀ s ∈ [idleService, idleService], s.Buffered) ∧
      ((serve id [idleService, idleService] swallowedFrame confirmed).2.1 = [] ∧
        (serve id [idleService, idleService] swallowedFrame confirmed).1 = [] ∧
        referenceDecode confirmed.ackNumber swallowedFrame = [⟨5, 0, 1, [0x07]⟩]) ∧
      ((serve id [idleService, idleService] oversizedFrame confirmed).2.1 = [] ∧
        (serve id [idleService, idleService] oversizedFrame confirmed).1 ≠ [] ∧
        referenceDecode confirmed.ackNumber oversizedFrame = []) := by
  refine ⟨confirmed_listening id, ?_, ⟨?_, ?_, ?_⟩, ?_, ?_, ?_⟩
  · intro s hs
    obtain rfl : s = idleService := by simpa using hs
    exact ⟨rfl, List.length_replicate⟩
  all_goals decide +kernel

end OpenwrtFeed.Ubcsp
