import OpenwrtFeed.LinkProtocol
import OpenwrtFeed.WireRoundTrip

/-! # The frames of the messages

`Message.frame` is the frame a message travels in.  A receiver takes such a frame
for its message (`header_frame`, `intact_frame`).  Everything else that can turn
up between two delimiters is noise that the checks reject: a frame that has been
cut off (`noise_of_cut`), and a frame that was started with half an escape of
another frame still pending (`noise_damaged`).  `Reads` sorts what a receiver
reads into messages and noise.
-/
namespace OpenwrtFeed.Ubcsp

/-- A number modulo 8, as it is put into a header. -/
abbrev seqNumber (n : Nat) : Fin 8 := Fin.ofNat 8 n

theorem seqNumber_eq_iff (m n : Nat) : seqNumber m = seqNumber n ↔ m % 8 = n % 8 := by
  rw [Fin.ext_iff]
  rfl

theorem seqNumber_succ (n : Nat) : seqNumber (n + 1) = seqNumber n + 1 := by
  apply Fin.ext
  simp [Fin.val_add, Nat.add_mod]

/-- Numbers in a header are compared as octets. -/
theorem ofNat_seqNumber_eq_iff (m n : Nat) :
    UInt8.ofNat (seqNumber m) = UInt8.ofNat (seqNumber n) ↔ m % 8 = n % 8 := by
  rw [← seqNumber_eq_iff]
  have hinj : ∀ i j : Fin 8, UInt8.ofNat i = UInt8.ofNat j ↔ i = j := by decide
  exact hinj _ _

namespace Message

/-- The frame of a message. -/
def frame : Message → List UInt8
  | le k => leFrame k
  | ack a => ackFrame (seqNumber a)
  | data a i p => dataFrame p (seqNumber a) (seqNumber i)

/-- The messages that are sent: a link-establishment packet is one of the four, and a
packet is reliable. -/
def Valid : Message → Prop
  | le k => k ≠ .none
  | ack _ => True
  | data _ _ p => p.Sendable ∧ p.reliable = 1

/-- The header of the frame of a message. -/
def expectedHeader : Message → Header
  | le _ => ⟨0xff, 0, 1, 0, 0, 1, 4⟩
  | ack a => ⟨0xff, 0, 1, UInt8.ofNat (seqNumber a), 0, 0, 0⟩
  | data a i p =>
    ⟨0xff, p.reliable, 1, UInt8.ofNat (seqNumber a), UInt8.ofNat (seqNumber i), p.channel, p.length⟩

theorem header_frame {m : Message} (h : m.Valid) : header m.frame = m.expectedHeader := by
  cases m with
  | le k => exact header_sealedFrame rfl _
  | ack a =>
    have htable : ∀ n : Fin 8, header (ackHeader n) = ⟨0xff, 0, 1, UInt8.ofNat n, 0, 0, 0⟩ := by
      decide
    exact (header_sealedFrame rfl []).trans (htable _)
  | data a i p => exact header_dataFrame h.1.encodable _ _

theorem intact_frame {m : Message} (h : m.Valid) : FrameIntact m.frame := by
  cases m with
  | le k =>
    apply sealedFrame_intact rfl (by decide) (by decide)
    cases k with
    | none => exact absurd rfl h
    | _ => rfl
  | ack a =>
    have htable : ∀ n : Fin 8, headerSum (ackHeader n) = 0xff ∧ headerCrc (ackHeader n) ≠ 0 ∧
        (headerLength (ackHeader n)).toNat = 0 := by decide
    obtain ⟨hs, hc, hl⟩ := htable (seqNumber a)
    exact sealedFrame_intact rfl hs hc hl
  | data a i p => exact dataFrame_intact h.1.encodable _ _

theorem length_frame {m : Message} (h : m.Valid) : m.frame.length ≤ 516 := by
  have hl := (intact_frame h).length
  have hh : headerLength m.frame = m.expectedHeader.length :=
    congrArg Header.length (header_frame h)
  have hc : headerCrc m.frame = m.expectedHeader.crc := congrArg Header.crc (header_frame h)
  rw [hh, hc] at hl
  cases m with
  | le k =>
    rw [hl]
    show 4 + 4 + 2 ≤ 516
    decide
  | ack a =>
    rw [hl]
    show 4 + 0 + 2 ≤ 516
    decide
  | data a i p =>
    have hshort := h.1.short
    have hlen := h.1.encodable.length
    rw [hl]
    show 4 + p.length.toNat + 2 ≤ 516
    omega

end Message

/-! ## Noise -/

/-- What every receive packet that has room for the longest frame makes the checks
reject. -/
def Noise (s : List UInt8) : Prop := ∀ n, 512 ≤ n → ¬ FrameIntact (clip n s)

theorem noise_nil : Noise [] := fun _ _ => not_intact_of_short (by decide)

/-- A frame that has been cut off is not as long as its header says. -/
theorem noise_of_cut {m : Message} (h : m.Valid) {q : List UInt8} (hq : q <+: m.frame)
    (hne : q ≠ m.frame) : Noise q := by
  intro n hn hint
  have hlt : q.length < m.frame.length := by
    rcases Nat.lt_or_ge q.length m.frame.length with hlt | hge
    · exact hlt
    · exact absurd (hq.eq_of_length_le hge) hne
  have hclip : clip n q = q := clip_of_le (by have := Message.length_frame h; omega)
  rw [hclip] at hint
  have h4 := hint.header
  have hhead : header q = header m.frame := by
    rw [← header_take q, ← header_take m.frame, List.prefix_iff_eq_take.mp hq, List.take_take,
      Nat.min_eq_left h4]
  have hl := hint.length
  have hl' := (Message.intact_frame h).length
  rw [show headerLength q = headerLength m.frame from congrArg Header.length hhead,
    show headerCrc q = headerCrc m.frame from congrArg Header.crc hhead, ← hl'] at hl
  omega

/-- A frame whose header has been pushed back by one octet announces a length that its
payload does not have. -/
theorem noise_of_length {s : List UInt8} (hcrc : headerCrc s ≠ 0)
    (hlen : ∀ k : Nat, s.length = 4 + k + 2 → k ≤ 510 → (headerLength s).toNat ≠ k)
    (hs : s.length ≤ 516) : Noise s := by
  intro n hn hint
  have hclip : clip n s = s := clip_of_le (by omega)
  rw [hclip] at hint
  have hl := hint.length
  rw [if_pos hcrc] at hl
  exact hlen _ hl (by omega) rfl

/-- What the receiver gets to see of a frame started with the octet `c`, half an escape
of another frame, still pending. -/
def damagedFrame (c : UInt8) (head body : List UInt8) : List UInt8 :=
  c :: sealedFrame (head.take 3) body

/-- **A damaged frame is noise.** -/
theorem noise_damaged {c : UInt8} (hc : c = slipEscapeFrame ∨ c = slipEscapeEscape)
    {head body : List UInt8} (h4 : head.length = 4) (hbody : body.length ≤ 510)
    (hlen : (head.getD 0 0).toNat / 16 + 16 * (head.getD 1 0).toNat ≠ body.length) :
    Noise (damagedFrame c head body) := by
  obtain ⟨h0, h1, h2, h3, rfl⟩ : ∃ h0 h1 h2 h3, head = [h0, h1, h2, h3] := by
    match head, h4 with
    | [h0, h1, h2, h3], _ => exact ⟨h0, h1, h2, h3, rfl⟩
  have hlength : (damagedFrame c [h0, h1, h2, h3] body).length = 4 + body.length + 2 := by
    simp [damagedFrame, sealedFrame]
    omega
  refine noise_of_length ?_ ?_ (by omega)
  · rcases hc with rfl | rfl <;> simp [damagedFrame, sealedFrame, headerCrc] <;> decide
  · intro k hk _
    rw [headerLength_toNat]
    have hk' : k = body.length := by omega
    rw [hk']
    exact hlen

/-! ## What the sender starts -/

/-- The header and the payload a message is sent with. -/
def Message.parts : Message → List UInt8 × List UInt8
  | .le k => (sendLeHeader, lePayload k)
  | .ack a => (ackHeader (seqNumber a), [])
  | .data a i p => (dataHeader p (seqNumber a) (seqNumber i), p.payload)

theorem Message.frame_eq (m : Message) : m.frame = sealedFrame m.parts.1 m.parts.2 := by
  cases m <;> rfl

theorem Message.length_header (m : Message) : m.parts.1.length = 4 := by
  cases m <;> rfl

/-- Every message that is started with half an escape pending becomes noise: the second
header octet, in the place of the third, makes the length wrong. -/
theorem Message.noise_damaged {m : Message} (h : m.Valid) {c : UInt8}
    (hc : c = slipEscapeFrame ∨ c = slipEscapeEscape) :
    Noise (damagedFrame c m.parts.1 m.parts.2) := by
  cases m with
  | le k =>
    have hbody : (lePayload k).length ≤ 4 := by cases k <;> decide
    apply Ubcsp.noise_damaged hc rfl (by show (lePayload k).length ≤ 510; omega)
    have hfield : (sendLeHeader.getD 0 0).toNat / 16 + 16 * (sendLeHeader.getD 1 0).toNat =
        1044 := by
      decide
    show (sendLeHeader.getD 0 0).toNat / 16 + 16 * (sendLeHeader.getD 1 0).toNat ≠
        (lePayload k).length
    omega
  | ack a =>
    apply Ubcsp.noise_damaged hc rfl (Nat.zero_le _)
    have htable : ∀ n : Fin 8,
        ((ackHeader n).getD 0 0).toNat / 16 + 16 * ((ackHeader n).getD 1 0).toNat ≠ 0 := by decide
    exact htable _
  | data a i p =>
    obtain ⟨hp, hr⟩ := h
    have hshort := hp.short
    have hlen := hp.encodable.length
    apply Ubcsp.noise_damaged hc rfl hshort
    obtain ⟨h1, -⟩ := dataHeader_octets p (seqNumber a) (seqNumber i)
    have htable : ∀ a s : Fin 8,
        12 ≤ (((1 : UInt8) <<< 7) ||| (0x40 : UInt8) ||| (UInt8.ofNat a <<< 3) |||
          UInt8.ofNat s).toNat / 16 ∧
        (((1 : UInt8) <<< 7) ||| (0x40 : UInt8) ||| (UInt8.ofNat a <<< 3) ||| UInt8.ofNat s).toNat /
          16 < 16 := by
      decide
    have h0 : 12 ≤ ((dataHeader p (seqNumber a) (seqNumber i)).getD 0 0).toNat / 16 ∧
        ((dataHeader p (seqNumber a) (seqNumber i)).getD 0 0).toNat / 16 < 16 := by
      have := htable (seqNumber a) (seqNumber i)
      simpa only [dataHeader, hr, List.getD_cons_zero] using this
    show ((dataHeader p (seqNumber a) (seqNumber i)).getD 0 0).toNat / 16 +
      16 * ((dataHeader p (seqNumber a) (seqNumber i)).getD 1 0).toNat ≠ p.payload.length
    rw [h1]
    generalize ((dataHeader p (seqNumber a) (seqNumber i)).getD 0 0).toNat / 16 = q at h0 ⊢
    intro heq
    -- the low four bits of the length would be those of `q`, which makes it too large
    have hlow : p.length.toNat % 16 = q := by omega
    omega

/-! ## Messages and noise -/

/-- The frames `ss` are the messages `ms` with noise in between. -/
inductive Reads : List (List UInt8) → List Message → Prop
  | nil : Reads [] []
  | message {m : Message} {ss : List (List UInt8)} {ms : List Message} :
      m.Valid → Reads ss ms → Reads (m.frame :: ss) (m :: ms)
  | noise {s : List UInt8} {ss : List (List UInt8)} {ms : List Message} :
      Noise s → Reads ss ms → Reads (s :: ss) ms

namespace Reads

theorem append {ss ss' : List (List UInt8)} {ms ms' : List Message} (h : Reads ss ms)
    (h' : Reads ss' ms') : Reads (ss ++ ss') (ms ++ ms') := by
  induction h with
  | nil => exact h'
  | message hm _ ih => exact .message hm ih
  | noise hs _ ih => exact .noise hs ih

/-- An empty frame may be added. -/
theorem append_nil {ss : List (List UInt8)} {ms : List Message} (h : Reads ss ms) :
    Reads (ss ++ [[]]) ms := by
  simpa using h.append (.noise noise_nil .nil)

/-- The first frame is noise, or the frame of the first message. -/
theorem cons {s : List UInt8} {ss : List (List UInt8)} {ms : List Message}
    (h : Reads (s :: ss) ms) :
    (Noise s ∧ Reads ss ms) ∨ ∃ m ms', m.Valid ∧ s = m.frame ∧ ms = m :: ms' ∧ Reads ss ms' := by
  cases h with
  | message hm hr => exact Or.inr ⟨_, _, hm, rfl, rfl, hr⟩
  | noise hs hr => exact Or.inl ⟨hs, hr⟩

end Reads

end OpenwrtFeed.Ubcsp
