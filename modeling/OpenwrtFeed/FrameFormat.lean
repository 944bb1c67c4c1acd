import OpenwrtFeed.UbcspReceive

/-! # Frames as lists of octets

A frame, with the SLIP coding taken off, is a header of four octets, a payload and
the two octets of a CRC.  `FrameIntact` is the set of checks of
`ubcsp_recevied_packet` as a property of such a list, independent of the buffers
they are made in; `sealedFrame` is what the sender emits for a header and a
payload.  A sealed frame is intact, and its header gives back the fields it was
built from (`dataFrame_header`).
-/
namespace OpenwrtFeed.Ubcsp

/-! ## The header octets as numbers -/

theorem high_nibble (x : UInt8) : ((x &&& 0xf0) >>> 4).toNat = x.toNat / 16 := by
  have hx : x.toNat < 256 := x.toNat_lt
  have h : (x.toNat &&& 0xf0) >>> 4 = x.toNat >>> 4 % 2 ^ 4 := by
    rw [Nat.shiftRight_and_distrib]
    exact Nat.and_two_pow_sub_one_eq_mod _ 4
  have : ((x &&& 0xf0) >>> 4).toNat = (x.toNat &&& 0xf0) >>> 4 := by simp
  rw [this, h, Nat.shiftRight_eq_div_pow]
  omega

theorem low_nibble (x : UInt8) : (x &&& 0x0f).toNat = x.toNat % 16 := by
  have h : x.toNat &&& 0x0f = x.toNat % 2 ^ 4 := Nat.and_two_pow_sub_one_eq_mod _ 4
  simpa using h

/-- The length field, of twelve bits. -/
theorem headerLength_toNat (h : List UInt8) :
    (headerLength h).toNat = (h.getD 1 0).toNat / 16 + 16 * (h.getD 2 0).toNat := by
  have hx : (h.getD 1 0).toNat < 256 := (h.getD 1 0).toNat_lt
  have hy : (h.getD 2 0).toNat < 256 := (h.getD 2 0).toNat_lt
  have hor := Nat.shiftLeft_add_eq_or_of_lt (a := (h.getD 2 0).toNat) (i := 4)
    (b := (h.getD 1 0).toNat / 16) (by omega)
  have hshift : (h.getD 2 0).toNat <<< 4 % 65536 = (h.getD 2 0).toNat <<< 4 := by
    rw [Nat.shiftLeft_eq]; omega
  unfold headerLength
  rw [UInt16.toNat_or, UInt8.toNat_toUInt16, high_nibble, UInt16.toNat_shiftLeft,
    UInt8.toNat_toUInt16]
  simp only [UInt16.reduceToNat, Nat.reduceMod]
  rw [hshift, Nat.or_comm, ← hor, Nat.shiftLeft_eq]
  omega

/-- Everything `ubcsp_recevied_packet` reads off a header. -/
structure Header where
  sum : UInt8
  reliable : UInt8
  crc : UInt8
  ack : UInt8
  seq : UInt8
  channel : UInt8
  length : UInt16
deriving DecidableEq

/-- The header at the beginning of a list of octets. -/
def header (s : List UInt8) : Header :=
  ⟨headerSum s, headerReliable s, headerCrc s, headerAck s, headerSeq s, headerChannel s,
    headerLength s⟩

/-- The header depends on the first four octets only. -/
theorem header_take (s : List UInt8) : header (s.take 4) = header s := by
  simp [header, headerSum, headerReliable, headerCrc, headerAck, headerSeq, headerChannel,
    headerLength, List.getD_eq_getElem?_getD]

theorem header_append {h : List UInt8} (h4 : h.length = 4) (s : List UInt8) :
    header (h ++ s) = header h := by
  rw [← header_take, ← h4, List.take_left]

/-! ## Intact frames -/

/-- The payload, as long as the header says. -/
def framePayload (s : List UInt8) : List UInt8 := (s.drop 4).take (headerLength s).toNat

/-- The checks of `ubcsp_recevied_packet` on the octets of a frame: header checksum,
length, and CRC when the header announces one. -/
structure FrameIntact (s : List UInt8) : Prop where
  header : 4 ≤ s.length
  sum : headerSum s = 0xff
  length : s.length = 4 + (headerLength s).toNat + if headerCrc s ≠ 0 then 2 else 0
  crc : headerCrc s ≠ 0 →
    s.drop (4 + (headerLength s).toNat) =
      crcOctets (crcFold 0xffff (s.take (4 + (headerLength s).toNat)))

instance (s : List UInt8) : Decidable (FrameIntact s) :=
  decidable_of_iff
    (4 ≤ s.length ∧ headerSum s = 0xff ∧
      s.length = 4 + (headerLength s).toNat + (if headerCrc s ≠ 0 then 2 else 0) ∧
      (headerCrc s ≠ 0 → s.drop (4 + (headerLength s).toNat) =
        crcOctets (crcFold 0xffff (s.take (4 + (headerLength s).toNat)))))
    ⟨fun h => ⟨h.1, h.2.1, h.2.2.1, h.2.2.2⟩, fun h => ⟨h.header, h.sum, h.length, h.crc⟩⟩

/-- What a sender emits for a header and a payload. -/
def sealedFrame (header payload : List UInt8) : List UInt8 :=
  header ++ payload ++ crcOctets (crcFold 0xffff (header ++ payload))

theorem header_sealedFrame {h : List UInt8} (h4 : h.length = 4) (payload : List UInt8) :
    header (sealedFrame h payload) = header h := by
  rw [sealedFrame, List.append_assoc, header_append h4]

/-- **What is sealed is intact**, when the header is well formed and states the length
of the payload. -/
theorem sealedFrame_intact {h payload : List UInt8} (h4 : h.length = 4)
    (hsum : headerSum h = 0xff) (hcrc : headerCrc h ≠ 0)
    (hlen : (headerLength h).toNat = payload.length) :
    FrameIntact (sealedFrame h payload) := by
  have hh := header_sealedFrame h4 payload
  have hl : headerLength (sealedFrame h payload) = headerLength h := congrArg Header.length hh
  have hc : headerCrc (sealedFrame h payload) = headerCrc h := congrArg Header.crc hh
  have hsplit : 4 + (headerLength (sealedFrame h payload)).toNat = (h ++ payload).length := by
    rw [hl, hlen, List.length_append, h4]
  refine ⟨by simp [sealedFrame]; omega, (congrArg Header.sum hh).trans hsum, ?_, ?_⟩
  · rw [hsplit, hc, if_pos hcrc, sealedFrame, List.length_append, length_crcOctets]
  · intro _
    rw [hsplit, sealedFrame, List.drop_left, List.take_left]

theorem framePayload_sealedFrame {h payload : List UInt8} (h4 : h.length = 4)
    (hlen : (headerLength h).toNat = payload.length) :
    framePayload (sealedFrame h payload) = payload := by
  have hl : headerLength (sealedFrame h payload) = headerLength h :=
    congrArg Header.length (header_sealedFrame h4 payload)
  unfold framePayload
  rw [hl, hlen, sealedFrame, List.append_assoc, ← h4, List.drop_left, List.take_left]

/-! ## Data and ACK headers -/

/-- The checksum makes the header octets add up to 255. -/
theorem headerSum_checksum (h0 h1 h2 : UInt8) : h0 + h1 + h2 + headerChecksum h0 h1 h2 = 0xff := by
  unfold headerChecksum
  apply UInt8.eq_of_toBitVec_eq
  simp

/-- What `ubcsp_poll` can encode: a flag, a channel of four bits, and a length of
twelve bits that is the length of the payload. -/
structure Packet.Encodable (p : Packet) : Prop where
  reliable : p.reliable = 0 ∨ p.reliable = 1
  channel : p.channel.toNat < 16
  length : p.length.toNat = p.payload.length
  bound : p.payload.length < 4096

theorem dataHeader_length (p : Packet) (ack seq : Fin 8) : (dataHeader p ack seq).length = 4 := rfl

theorem dataHeader_sum (p : Packet) (ack seq : Fin 8) : headerSum (dataHeader p ack seq) = 0xff :=
  headerSum_checksum _ _ _

/-- The first octet gives back the flags and the numbers. -/
theorem dataHeader_first {p : Packet} (h : p.reliable = 0 ∨ p.reliable = 1) (ack seq : Fin 8) :
    headerReliable (dataHeader p ack seq) = p.reliable ∧ headerCrc (dataHeader p ack seq) = 1 ∧
      headerAck (dataHeader p ack seq) = UInt8.ofNat ack ∧
      headerSeq (dataHeader p ack seq) = UInt8.ofNat seq := by
  have htable : ∀ r ∈ [(0 : UInt8), 1], ∀ a s : Fin 8,
      let h0 : UInt8 := (r <<< 7) ||| (0x40 : UInt8) ||| (UInt8.ofNat a <<< 3) ||| UInt8.ofNat s
      (h0 &&& 0x80) >>> 7 = r ∧ (h0 &&& 0x40) >>> 6 = 1 ∧
        (h0 &&& 0x38) >>> 3 = UInt8.ofNat a ∧ h0 &&& 0x07 = UInt8.ofNat s := by
    decide +kernel
  exact htable p.reliable (by simpa using h) ack seq

/-- The second and third octet as numbers. -/
theorem dataHeader_octets (p : Packet) (ack seq : Fin 8) :
    ((dataHeader p ack seq).getD 1 0).toNat = p.channel.toNat % 16 + 16 * (p.length.toNat % 16) ∧
      ((dataHeader p ack seq).getD 2 0).toNat = p.length.toNat / 16 % 256 := by
  constructor
  · have hmask : p.length.toNat <<< 4 % 65536 &&& 15 <<< 4 = (p.length.toNat % 16) <<< 4 := by
      have hl : p.length.toNat <<< 4 % 65536 = (p.length.toNat % 4096) <<< 4 := by
        simp only [Nat.shiftLeft_eq]; omega
      rw [hl, ← Nat.shiftLeft_and_distrib, show 15 = 2 ^ 4 - 1 from rfl,
        Nat.and_two_pow_sub_one_eq_mod]
      congr 1
      omega
    have hor := Nat.shiftLeft_add_eq_or_of_lt (a := p.length.toNat % 16) (i := 4)
      (b := p.channel.toNat % 16) (by omega)
    have hsmall : (p.length.toNat % 16) <<< 4 % 256 = (p.length.toNat % 16) <<< 4 := by
      rw [Nat.shiftLeft_eq]; omega
    show ((p.channel &&& (0x0f : UInt8)) ||| ((p.length <<< 4) &&& 0xf0).toUInt8).toNat = _
    rw [UInt8.toNat_or, low_nibble, UInt16.toNat_toUInt8, UInt16.toNat_and, UInt16.toNat_shiftLeft]
    simp only [UInt16.reduceToNat, Nat.reduceMod]
    rw [show (240 : Nat) = 15 <<< 4 from rfl, hmask, hsmall, Nat.or_comm, ← hor, Nat.shiftLeft_eq]
    omega
  · have hmask : p.length.toNat >>> 4 &&& 0xff = p.length.toNat >>> 4 % 2 ^ 8 :=
      Nat.and_two_pow_sub_one_eq_mod _ 8
    show (((p.length >>> 4) &&& 0xff).toUInt8).toNat = _
    rw [UInt16.toNat_toUInt8, UInt16.toNat_and, UInt16.toNat_shiftRight]
    simp only [UInt16.reduceToNat, Nat.reduceMod]
    rw [hmask, Nat.shiftRight_eq_div_pow]
    omega

theorem dataHeader_lengthField {p : Packet} (h : p.Encodable) (ack seq : Fin 8) :
    (headerLength (dataHeader p ack seq)).toNat = p.payload.length := by
  obtain ⟨h1, h2⟩ := dataHeader_octets p ack seq
  have hl := h.length
  have hb := h.bound
  rw [headerLength_toNat, h1, h2]
  omega

theorem dataHeader_channel {p : Packet} (h : p.channel.toNat < 16) (ack seq : Fin 8) :
    headerChannel (dataHeader p ack seq) = p.channel := by
  obtain ⟨h1, -⟩ := dataHeader_octets p ack seq
  apply UInt8.toNat_inj.1
  unfold headerChannel
  rw [low_nibble, h1]
  omega

/-- The frame of a data packet. -/
def dataFrame (p : Packet) (ack seq : Fin 8) : List UInt8 :=
  sealedFrame (dataHeader p ack seq) p.payload

/-- The frame of an acknowledgement. -/
def ackFrame (ack : Fin 8) : List UInt8 := sealedFrame (ackHeader ack) []

/-- The frame of a link-establishment packet. -/
def leFrame (k : LePacket) : List UInt8 := sealedFrame sendLeHeader (lePayload k)

/-- **The header of a data frame gives back what it was built from.** -/
theorem header_dataFrame {p : Packet} (h : p.Encodable) (ack seq : Fin 8) :
    header (dataFrame p ack seq) =
      ⟨0xff, p.reliable, 1, UInt8.ofNat ack, UInt8.ofNat seq, p.channel, p.length⟩ := by
  obtain ⟨hr, hc, ha, hs⟩ := dataHeader_first h.reliable ack seq
  have hl : headerLength (dataHeader p ack seq) = p.length :=
    UInt16.toNat_inj.1 ((dataHeader_lengthField h ack seq).trans h.length.symm)
  rw [dataFrame, header_sealedFrame (dataHeader_length p ack seq), header, dataHeader_sum, hr, hc,
    ha, hs, dataHeader_channel h.channel, hl]

theorem dataFrame_intact {p : Packet} (h : p.Encodable) (ack seq : Fin 8) :
    FrameIntact (dataFrame p ack seq) :=
  sealedFrame_intact rfl (dataHeader_sum p ack seq)
    (by rw [(dataHeader_first h.reliable ack seq).2.1]; decide) (dataHeader_lengthField h ack seq)

theorem framePayload_dataFrame {p : Packet} (h : p.Encodable) (ack seq : Fin 8) :
    framePayload (dataFrame p ack seq) = p.payload :=
  framePayload_sealedFrame rfl (dataHeader_lengthField h ack seq)

end OpenwrtFeed.Ubcsp
