import OpenwrtFeed.EngineParts
import OpenwrtFeed.FrameFormat
import OpenwrtFeed.Slip

/-! # What the receive loop collects

The receive loop is the receiver of a SLIP code (`ubcspSlip`) whose frame in
progress is kept in `ubcsp_receive_header` and in the payload of the receive
packet: `Collects s` says that the buffers hold the octets `s` received since the
last delimiter.  Under it the checks of `ubcsp_recevied_packet` are `FrameIntact`
of as many octets as the buffers have room for (`Collects.intact_iff`).  The
clipping is the code's own: an octet beyond the capacity is dropped and
`receive_index` stays where it is.
-/
namespace OpenwrtFeed.Ubcsp

/-- The SLIP code of the UART, as the receive loop reads it. -/
def ubcspSlip (stray : UInt8 → UInt8) : SlipCode UInt8 where
  frame := slipFrame
  escape := slipEscape
  escapeFrame := slipEscapeFrame
  escapeEscape := slipEscapeEscape
  unescape := deslip stray
  frame_ne_escape := by decide
  escapeFrame_ne_frame := by decide
  escapeEscape_ne_frame := by decide
  escapeFrame_ne_escape := by decide
  escapeEscape_ne_escape := by decide
  unescape_escapeFrame := rfl
  unescape_escapeEscape := rfl

/-- The octets of a frame that fit into the header and a receive packet of capacity
`n`. -/
def clip (n : Nat) (s : List UInt8) : List UInt8 := s.take (4 + n)

theorem clip_of_le {n : Nat} {s : List UInt8} (h : s.length ≤ 4 + n) : clip n s = s :=
  List.take_of_length_le h

theorem header_clip (n : Nat) (s : List UInt8) : header (clip n s) = header s := by
  rw [← header_take (clip n s), clip, List.take_take, Nat.min_eq_left (by omega), header_take]

/-- The buffers hold the octets `s`, those beyond the capacity dropped. -/
structure Collects (s : List UInt8) (r : Rx) : Prop where
  header_length : r.receiveHeader.length = 4
  header_octets : r.receiveHeader.take s.length = s.take 4
  room : r.receivePacket.length.toNat ≤ r.receivePacket.payload.length
  payload : r.receivePacket.payload.take (min (s.length - 4) r.receivePacket.length.toNat) =
    (s.drop 4).take r.receivePacket.length.toNat
  index : r.receiveIndex = (min s.length (4 + r.receivePacket.length.toNat) : Nat) - 4

/-- Overwriting an element and taking up to it. -/
theorem take_succ_set {α : Type} (l : List α) (n : Nat) (x : α) (h : n < l.length) :
    (l.set n x).take (n + 1) = l.take n ++ [x] := by
  rw [List.take_add_one, List.take_set_of_le (Nat.le_refl n),
    List.getElem?_set_self (by simpa using h)]
  rfl

namespace Collects

theorem empty {r : Rx} (hh : r.receiveHeader.length = 4)
    (hp : r.receivePacket.length.toNat ≤ r.receivePacket.payload.length)
    (hi : r.receiveIndex = -4) : Collects [] r :=
  ⟨hh, rfl, hp, by simp, by simpa using hi⟩

theorem index_nonneg {s : List UInt8} {r : Rx} (h : Collects s r) :
    0 ≤ r.receiveIndex ↔ 4 ≤ s.length := by
  have := h.index
  omega

/-- A full header is the first four octets. -/
theorem header_eq {s : List UInt8} {r : Rx} (h : Collects s r) (h4 : 4 ≤ s.length) :
    r.receiveHeader = s.take 4 := by
  rw [← h.header_octets, List.take_of_length_le (by rw [h.header_length]; exact h4)]

/-- **One more octet is collected**, unless the buffers are full. -/
theorem store {s : List UInt8} {e : Engine} (h : Collects s e.rx) (value : UInt8) :
    Collects (s ++ [value]) (storeOctet value e).rx := by
  obtain ⟨hhl, hh, hroom, hp, hi⟩ := h
  simp only [Engine.rx] at hhl hh hroom hp hi
  unfold storeOctet
  by_cases h4 : s.length < 4
  · have hneg : e.receiveIndex < 0 := by omega
    have hidx : (e.receiveIndex + 4).toNat = s.length := by omega
    rw [if_pos hneg]
    refine ⟨by simpa [Engine.rx] using hhl, ?_, hroom, ?_, ?_⟩
    · simp only [Engine.rx, hidx, List.length_append, List.length_singleton]
      rw [take_succ_set _ _ _ (by omega), hh, List.take_of_length_le (by omega),
        List.take_of_length_le (by simp; omega)]
    · have h0 : s.length + 1 - 4 = 0 := by omega
      simp [h0, List.drop_eq_nil_of_le (show (s ++ [value]).length ≤ 4 by simp; omega)]
    · simp only [Engine.rx, List.length_append, List.length_singleton]; omega
  · have hnn : ¬ e.receiveIndex < 0 := by omega
    have htake4 : (s ++ [value]).take 4 = s.take 4 := List.take_append_of_le_length (by omega)
    have hhead : e.receiveHeader.take (s ++ [value]).length = (s ++ [value]).take 4 := by
      rw [htake4, ← hh, List.take_of_length_le (by simp; omega), List.take_of_length_le (by omega)]
    have hdrop : (s ++ [value]).drop 4 = s.drop 4 ++ [value] :=
      List.drop_append_of_le_length (by omega)
    rw [if_neg hnn]
    by_cases hfit : s.length - 4 < e.receivePacket.length.toNat
    · have hidx : e.receiveIndex.toNat = s.length - 4 := by omega
      rw [if_pos (by omega)]
      refine ⟨hhl, hhead, by simpa [Engine.rx] using hroom, ?_, ?_⟩
      · simp only [Engine.rx, hidx, List.length_append, List.length_singleton]
        rw [Nat.min_eq_left (by omega)] at hp ⊢
        rw [show s.length + 1 - 4 = (s.length - 4) + 1 by omega, take_succ_set _ _ _ (by omega), hp,
          hdrop, List.take_of_length_le (by simp; omega), List.take_of_length_le (by simp; omega)]
      · simp only [Engine.rx, List.length_append, List.length_singleton]; omega
    · rw [if_neg (by omega)]
      refine ⟨hhl, hhead, hroom, ?_, ?_⟩
      · simp only [Engine.rx, List.length_append, List.length_singleton]
        rw [Nat.min_eq_right (by omega)] at hp ⊢
        rw [hp, hdrop, List.take_append_of_le_length (by simp; omega)]
      · simp only [Engine.rx, List.length_append, List.length_singleton]; omega

end Collects

/-! ## The CRC check -/

/-- A loop over the first `n` octets of a buffer is the register after them. -/
theorem foldl_range_calcCrc (l : List UInt8) (crc : UInt16) {n : Nat} (h : n ≤ l.length) :
    (List.range n).foldl (fun crc i => calcCrc (l.getD i 0) crc) crc = crcFold crc (l.take n) := by
  induction n with
  | zero => rfl
  | succ n ih =>
    rw [List.range_succ, List.foldl_append, ih (by omega), List.take_add_one, crcFold_append]
    simp [List.getElem?_eq_getElem (show n < l.length by omega), List.getD_eq_getElem?_getD]

theorem receiveCrc_eq {h payload : List UInt8} {n : Nat} (h4 : h.length = 4)
    (hn : n ≤ payload.length) : receiveCrc h payload n = crcFold 0xffff (h ++ payload.take n) := by
  unfold receiveCrc
  rw [foldl_range_calcCrc h 0xffff (by omega), foldl_range_calcCrc payload _ hn,
    List.take_of_length_le (by omega), crcFold_append]

theorem toUInt16_inj {x y : UInt8} (h : x.toUInt16 = y.toUInt16) : x = y := by
  have hn := congrArg UInt16.toNat h
  simp only [UInt8.toNat_toUInt16] at hn
  exact UInt8.toNat_inj.1 hn

/-- The CRC check compares the two octets after the payload with those the sender
would have sent. -/
theorem crcMatches_iff {h payload : List UInt8} {n : Nat} (h4 : h.length = 4)
    (hn : n + 2 ≤ payload.length) :
    crcMatches h payload n ↔
      (payload.take (n + 2)).drop n = crcOctets (crcFold 0xffff (h ++ payload.take n)) := by
  have htwo : (payload.take (n + 2)).drop n = [payload.getD n 0, payload.getD (n + 1) 0] := by
    rw [List.drop_take, show n + 2 - n = 2 by omega,
      List.drop_eq_getElem_cons (show n < payload.length by omega),
      List.drop_eq_getElem_cons (show n + 1 < payload.length by omega)]
    simp only [List.take_succ_cons, List.take_zero, List.getD_eq_getElem?_getD, Option.getD_some,
      List.getElem?_eq_getElem (show n < payload.length by omega),
      List.getElem?_eq_getElem (show n + 1 < payload.length by omega)]
  unfold crcMatches
  dsimp only
  rw [receiveCrc_eq h4 (by omega), high_octet, low_octet, htwo, crcOctets]
  constructor
  · rintro ⟨hhi, hlo⟩
    rw [toUInt16_inj hhi, toUInt16_inj hlo]
  · intro heq
    simp only [List.cons.injEq, and_true] at heq
    rw [heq.1, heq.2]
    exact ⟨rfl, rfl⟩

/-! ## The checks at the end of a frame -/

/-- What the length and CRC checks establish. -/
theorem checkPayload_iff (e : Engine) :
    (checkPayload e).1 = true ↔
      e.receiveIndex = (headerLength e.receiveHeader).toNat +
          (if headerCrc e.receiveHeader ≠ 0 then 2 else 0 : Nat) ∧
        (headerCrc e.receiveHeader ≠ 0 →
          crcMatches e.receiveHeader e.receivePacket.payload
            (headerLength e.receiveHeader).toNat) := by
  unfold checkPayload
  dsimp only
  by_cases hc : headerCrc e.receiveHeader = 0
  · simp only [hc, ne_eq, not_true_eq_false, if_false, decide_eq_true_eq, false_implies, and_true]
    omega
  · simp only [hc, ne_eq, not_false_eq_true, if_true, forall_true_left]
    by_cases hl : ((headerLength e.receiveHeader).toNat : Int) + 2 = e.receiveIndex
    · have hidx : (e.receiveIndex - 2).toNat = (headerLength e.receiveHeader).toNat := by omega
      simp only [hl, not_true_eq_false, if_false, decide_eq_true_eq, hidx]
      constructor
      · exact fun hcrc => ⟨by omega, hcrc⟩
      · exact fun hcrc => hcrc.2
    · simp only [hl, not_false_eq_true, if_true, Bool.false_eq_true, false_iff]
      omega

/-- The index that the checks leave, when the length is right. -/
theorem checkPayload_index {e : Engine}
    (h : e.receiveIndex = (headerLength e.receiveHeader).toNat +
      (if headerCrc e.receiveHeader ≠ 0 then 2 else 0 : Nat)) :
    (checkPayload e).2.receiveIndex = (headerLength e.receiveHeader).toNat := by
  unfold checkPayload
  dsimp only
  by_cases hc : headerCrc e.receiveHeader = 0
  · simp only [hc, ne_eq, not_true_eq_false, if_false] at h ⊢
    omega
  · simp only [hc, ne_eq, not_false_eq_true, if_true] at h ⊢
    rw [if_neg (by omega)]
    dsimp only
    omega

namespace Collects
variable {s : List UInt8} {e : Engine}

/-- The octets that fit are the two buffers one after the other. -/
theorem clip_eq (h : Collects s e.rx) (h4 : 4 ≤ s.length) :
    clip e.receivePacket.length.toNat s =
      e.receiveHeader ++
        e.receivePacket.payload.take (min (s.length - 4) e.receivePacket.length.toNat) := by
  have hh : e.receiveHeader = s.take 4 := h.header_eq h4
  have hp : e.receivePacket.payload.take (min (s.length - 4) e.receivePacket.length.toNat) =
      (s.drop 4).take e.receivePacket.length.toNat := h.payload
  rw [hp, hh, clip, List.take_add]

/-- The fields decoded from the header buffer are those of the octets collected. -/
theorem header_buffer (h : Collects s e.rx) (h4 : 4 ≤ s.length) :
    header e.receiveHeader = header s := by
  have hh : e.receiveHeader = s.take 4 := h.header_eq h4
  rw [hh, header_take]

/-- The length of the octets that fit. -/
theorem length_clip (h : Collects s e.rx) (h4 : 4 ≤ s.length) :
    (clip e.receivePacket.length.toNat s).length =
      4 + min (s.length - 4) e.receivePacket.length.toNat := by
  have hroom : e.receivePacket.length.toNat ≤ e.receivePacket.payload.length := h.room
  have hhl : e.receiveHeader.length = 4 := h.header_length
  rw [h.clip_eq h4, List.length_append, hhl, List.length_take]
  omega

/-- The CRC sits after the payload the header announces. -/
theorem crcMatches_clip (h : Collects s e.rx) (h4 : 4 ≤ s.length)
    (hlen : min (s.length - 4) e.receivePacket.length.toNat =
      (headerLength e.receiveHeader).toNat + 2) :
    crcMatches e.receiveHeader e.receivePacket.payload (headerLength e.receiveHeader).toNat ↔
      (clip e.receivePacket.length.toNat s).drop (4 + (headerLength e.receiveHeader).toNat) =
        crcOctets (crcFold 0xffff
          ((clip e.receivePacket.length.toNat s).take
            (4 + (headerLength e.receiveHeader).toNat))) := by
  have hroom : e.receivePacket.length.toNat ≤ e.receivePacket.payload.length := h.room
  have hhl : e.receiveHeader.length = 4 := h.header_length
  rw [h.clip_eq h4, hlen, crcMatches_iff hhl (by omega), ← hhl, List.drop_length_add_append,
    List.take_length_add_append, List.take_take, Nat.min_eq_left (Nat.le_add_right _ 2)]

/-- **The checks of `ubcsp_recevied_packet` are `FrameIntact`**, of the octets that
fit. -/
theorem intact_iff (h : Collects s e.rx) (h4 : 4 ≤ s.length) :
    Intact e ↔ FrameIntact (clip e.receivePacket.length.toNat s) := by
  have hindex : e.receiveIndex = (min s.length (4 + e.receivePacket.length.toNat) : Nat) - 4 :=
    h.index
  have hhead : header (clip e.receivePacket.length.toNat s) = header e.receiveHeader := by
    rw [header_clip, h.header_buffer h4]
  have hsum := congrArg Header.sum hhead
  have hcrc := congrArg Header.crc hhead
  have hlen := congrArg Header.length hhead
  simp only [header] at hsum hcrc hlen
  have hlength := h.length_clip h4
  constructor
  · rintro ⟨hs, hc⟩
    obtain ⟨hidx, hm⟩ := (checkPayload_iff e).1 hc
    refine ⟨by omega, by rw [hsum]; exact hs, ?_, ?_⟩
    · rw [hlength, hlen, hcrc]
      omega
    · rw [hcrc, hlen]
      intro hne
      rw [if_pos hne] at hidx
      exact (h.crcMatches_clip h4 (by omega)).1 (hm hne)
  · rintro ⟨-, hs, hl, hm⟩
    rw [hcrc, hlen] at hl hm
    rw [hlength] at hl
    refine ⟨by rw [← hsum]; exact hs, (checkPayload_iff e).2 ⟨by omega, ?_⟩⟩
    intro hne
    rw [if_pos hne] at hl
    exact (h.crcMatches_clip h4 (by omega)).2 (hm hne)

end Collects

end OpenwrtFeed.Ubcsp
