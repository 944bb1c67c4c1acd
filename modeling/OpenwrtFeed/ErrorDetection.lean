import OpenwrtFeed.CheckRegister
import OpenwrtFeed.FrameReception
import Mathlib.Data.Nat.Bitwise

/-! # What the checks detect

`ubcsp_calc_crc` is two turns of a nibble register.  The four highest bits of a table
entry are its index, so what a turn has shifted in can be read off its result, and with
it the four bits shifted out: the register detects bursts (`crcRegister`), and turning
it around loses nothing (`crcReverse_injective`).

With the header checksum this makes an altered frame lose its integrity when one
header octet has changed, or two consecutive octets of the payload, or the CRC
(`Altered.not_intact`), and `ubcsp_recevied_packet` rejects it (`error_detection`).
-/
namespace OpenwrtFeed.Ubcsp

/-! ## The register -/

/-- The table entry taken for the nibble `n`. -/
def nibbleIndex (n crc : UInt16) : Nat := ((crc ^^^ n) &&& 0x000f).toNat

/-- One turn of `ubcsp_calc_crc`. -/
def nibbleStep (n crc : UInt16) : UInt16 := (crc >>> 4) ^^^ crcTable.getD (nibbleIndex n crc) 0

theorem calcCrc_eq (ch : UInt8) (crc : UInt16) :
    calcCrc ch crc = nibbleStep (ch >>> 4).toUInt16 (nibbleStep ch.toUInt16 crc) := rfl

theorem nibbleIndex_eq (n crc : UInt16) :
    nibbleIndex n crc = (crc.toNat % 2 ^ 4) ^^^ (n.toNat % 2 ^ 4) := by
  have h : (crc.toNat ^^^ n.toNat) &&& 0x000f = (crc.toNat ^^^ n.toNat) % 2 ^ 4 :=
    Nat.and_two_pow_sub_one_eq_mod _ 4
  rw [← Nat.xor_mod_two_pow, ← h]
  simp [nibbleIndex]

theorem nibbleIndex_lt (n crc : UInt16) : nibbleIndex n crc < 16 := by
  have h : nibbleIndex n crc = (crc.toNat ^^^ n.toNat) % 2 ^ 4 := by
    rw [nibbleIndex_eq, ← Nat.xor_mod_two_pow]
  omega

/-- The four highest bits of a table entry are its index. -/
theorem crcTable_high : ∀ i < 16, (crcTable.getD i 0).toNat >>> 12 = i := by decide

theorem nibbleStep_toNat (n crc : UInt16) :
    (nibbleStep n crc).toNat = crc.toNat >>> 4 ^^^ (crcTable.getD (nibbleIndex n crc) 0).toNat := by
  simp [nibbleStep]

/-- The entry taken is at the high end of the register afterwards. -/
theorem nibbleStep_high (n crc : UInt16) : (nibbleStep n crc).toNat >>> 12 = nibbleIndex n crc := by
  have hout : crc.toNat >>> 4 >>> 12 = 0 := by
    have := crc.toNat_lt
    simp only [Nat.shiftRight_eq_div_pow]
    omega
  rw [nibbleStep_toNat, Nat.shiftRight_xor_distrib, hout, Nat.zero_xor,
    crcTable_high _ (nibbleIndex_lt n crc)]

/-- **Reading a turn backwards.**  Registers that agree above `k` bits after a turn took
the same entry, and agreed above `k + 4` bits before it. -/
theorem nibbleStep_back {n m x y : UInt16} {k : Nat} (hk : k ≤ 12)
    (h : (nibbleStep n x).toNat >>> k = (nibbleStep m y).toNat >>> k) :
    nibbleIndex n x = nibbleIndex m y ∧ x.toNat >>> (4 + k) = y.toNat >>> (4 + k) := by
  have hindex : nibbleIndex n x = nibbleIndex m y := by
    have := congrArg (· >>> (12 - k)) h
    simp only [← Nat.shiftRight_add, Nat.add_sub_cancel' hk, nibbleStep_high] at this
    exact this
  refine ⟨hindex, ?_⟩
  rw [nibbleStep_toNat, nibbleStep_toNat, Nat.shiftRight_xor_distrib, Nat.shiftRight_xor_distrib,
    hindex] at h
  rw [Nat.shiftRight_add, Nat.shiftRight_add]
  exact Nat.xor_left_injective h

/-- The register before a turn is its low nibble and the rest. -/
theorem eq_of_nibbles {x y : UInt16} (hlow : x.toNat % 2 ^ 4 = y.toNat % 2 ^ 4)
    (hhigh : x.toNat >>> 4 = y.toNat >>> 4) : x = y := by
  apply UInt16.toNat_inj.1
  simp only [Nat.shiftRight_eq_div_pow] at hhigh
  omega

theorem nibbleStep_injective (n : UInt16) : Function.Injective (nibbleStep n) := by
  intro x y h
  obtain ⟨hindex, hhigh⟩ := nibbleStep_back (Nat.zero_le 12) (congrArg (fun c => c.toNat >>> 0) h)
  rw [nibbleIndex_eq, nibbleIndex_eq] at hindex
  exact eq_of_nibbles (Nat.xor_left_injective hindex) hhigh

/-- The same entry in the same register means the same nibble. -/
theorem nibble_of_index {n m x : UInt16} (h : nibbleIndex n x = nibbleIndex m x) :
    n.toNat % 2 ^ 4 = m.toNat % 2 ^ 4 := by
  rw [nibbleIndex_eq, nibbleIndex_eq] at h
  exact Nat.xor_right_injective h

theorem calcCrc_injective (ch : UInt8) : Function.Injective (calcCrc ch) := by
  intro x y h
  rw [calcCrc_eq, calcCrc_eq] at h
  exact nibbleStep_injective _ (nibbleStep_injective _ h)

/-- The octet is the low nibble of the one turn and of the other. -/
theorem octet_of_nibbles {a b : UInt8} (hlow : a.toUInt16.toNat % 2 ^ 4 = b.toUInt16.toNat % 2 ^ 4)
    (hhigh : (a >>> 4).toUInt16.toNat % 2 ^ 4 = (b >>> 4).toUInt16.toNat % 2 ^ 4) : a = b := by
  have ha := a.toNat_lt
  have hb := b.toNat_lt
  have hshift : ∀ x : UInt8, (x >>> 4).toUInt16.toNat = x.toNat / 16 := by
    intro x
    simp [Nat.shiftRight_eq_div_pow]
  rw [hshift, hshift] at hhigh
  simp only [UInt8.toNat_toUInt16] at hlow
  apply UInt8.toNat_inj.1
  omega

/-- The octet can be read off the entries it takes and the register before. -/
theorem octet_of_indices {a b : UInt8} {x : UInt16}
    (hlow : nibbleIndex a.toUInt16 x = nibbleIndex b.toUInt16 x)
    (hhigh : nibbleIndex (a >>> 4).toUInt16 (nibbleStep a.toUInt16 x) =
      nibbleIndex (b >>> 4).toUInt16 (nibbleStep b.toUInt16 x)) : a = b := by
  have hstep : nibbleStep a.toUInt16 x = nibbleStep b.toUInt16 x := by
    rw [nibbleStep, nibbleStep, hlow]
  rw [hstep] at hhigh
  exact octet_of_nibbles (nibble_of_index hlow) (nibble_of_index hhigh)

/-- **Two octets can be read off the register**: each of the four turns backwards gives
an entry, and the entries forwards give the octets. -/
theorem calcCrc_pair_injective (x : UInt16) :
    Function.Injective fun ab : UInt8 × UInt8 => calcCrc ab.2 (calcCrc ab.1 x) := by
  rintro ⟨a, b⟩ ⟨a', b'⟩ h
  dsimp only at h
  have hfour : (calcCrc b (calcCrc a x)).toNat >>> 0 = (calcCrc b' (calcCrc a' x)).toNat >>> 0 := by
    rw [h]
  rw [calcCrc_eq b, calcCrc_eq b'] at hfour
  obtain ⟨hindex₄, hthree⟩ := nibbleStep_back (by omega) hfour
  obtain ⟨hindex₃, htwo⟩ := nibbleStep_back (by omega) hthree
  rw [calcCrc_eq a, calcCrc_eq a'] at htwo
  obtain ⟨hindex₂, hone⟩ := nibbleStep_back (by omega) htwo
  obtain ⟨hindex₁, -⟩ := nibbleStep_back (by omega) hone
  have ha : a = a' := octet_of_indices hindex₁ hindex₂
  subst ha
  rw [octet_of_indices hindex₃ hindex₄]

/-- The register of the frame check sequence. -/
def crcRegister : CheckRegister UInt16 UInt8 where
  step := calcCrc
  step_injective := calcCrc_injective
  pair_injective := calcCrc_pair_injective

/-! ## The CRC octets -/

/-- One turn of the loop shifts in the lowest bit. -/
theorem reverse_bit (z : UInt16) {t : UInt32} (ht : (t.toNat + 1) * 2 ≤ 2 ^ 32) :
    ((t <<< 1) ||| (z &&& 1).toUInt32).toNat = 2 * t.toNat + z.toNat % 2 := by
  have hmod : t.toNat <<< 1 % 4294967296 = t.toNat <<< 1 := by
    rw [Nat.shiftLeft_eq]
    omega
  have hor := Nat.shiftLeft_add_eq_or_of_lt (a := t.toNat) (i := 1) (b := z.toNat % 2) (by omega)
  simp only [UInt32.toNat_or, UInt32.toNat_shiftLeft, UInt16.toNat_toUInt32, UInt16.toNat_and,
    UInt32.reduceToNat, UInt16.reduceToNat, Nat.reduceMod, Nat.reducePow, Nat.and_one_is_mod, hmod]
  rw [← hor, Nat.shiftLeft_eq]
  omega

theorem half_toNat (z : UInt16) : (z >>> 1).toNat = z.toNat / 2 := by
  simp [Nat.shiftRight_eq_div_pow]

/-- Registers that come out of the loop the same had the same bits. -/
theorem crcReverseLoop_inj {b : Nat} {x y : UInt16} {r s : UInt32} (hx : x.toNat < 2 ^ b)
    (hy : y.toNat < 2 ^ b) (hr : (r.toNat + 1) * 2 ^ b ≤ 2 ^ 32)
    (hs : (s.toNat + 1) * 2 ^ b ≤ 2 ^ 32) (h : crcReverseLoop b x r = crcReverseLoop b y s) :
    x = y ∧ r = s := by
  induction b generalizing x y r s with
  | zero => exact ⟨UInt16.toNat_inj.1 (by omega), h⟩
  | succ b ih =>
    rw [Nat.pow_succ] at hx hy hr hs
    have hpos : 1 ≤ 2 ^ b := Nat.one_le_two_pow
    -- the bit shifted in stays within the word
    have room : ∀ t : UInt32, (t.toNat + 1) * (2 ^ b * 2) ≤ 2 ^ 32 →
        (t.toNat + 1) * 2 ≤ 2 ^ 32 ∧ ∀ c < 2, (2 * t.toNat + c + 1) * 2 ^ b ≤ 2 ^ 32 := by
      intro t ht
      refine ⟨(Nat.mul_le_mul_left _ (by omega)).trans ht, ?_⟩
      intro c hc
      calc (2 * t.toNat + c + 1) * 2 ^ b
          ≤ ((t.toNat + 1) * 2) * 2 ^ b := Nat.mul_le_mul_right _ (by omega)
        _ = (t.toNat + 1) * (2 ^ b * 2) := by rw [Nat.mul_assoc, Nat.mul_comm 2]
        _ ≤ 2 ^ 32 := ht
    obtain ⟨hr2, hr'⟩ := room r hr
    obtain ⟨hs2, hs'⟩ := room s hs
    have hxbit := reverse_bit x hr2
    have hybit := reverse_bit y hs2
    obtain ⟨hxy, hrs⟩ := ih (by rw [half_toNat]; omega) (by rw [half_toNat]; omega)
      (by rw [hxbit]; exact hr' _ (Nat.mod_lt _ Nat.two_pos))
      (by rw [hybit]; exact hs' _ (Nat.mod_lt _ Nat.two_pos)) h
    have hxy' := congrArg UInt16.toNat hxy
    have hrs' := congrArg UInt32.toNat hrs
    rw [half_toNat, half_toNat] at hxy'
    rw [hxbit, hybit] at hrs'
    exact ⟨UInt16.toNat_inj.1 (by omega), UInt32.toNat_inj.1 (by omega)⟩

/-- The sixteen bits that come out of the loop fit. -/
theorem crcReverseLoop_lt {b : Nat} (x : UInt16) {r : UInt32}
    (hr : (r.toNat + 1) * 2 ^ b ≤ 2 ^ 16) :
    (crcReverseLoop b x r).toNat < 2 ^ 16 := by
  induction b generalizing x r with
  | zero =>
    rw [crcReverseLoop]
    omega
  | succ b ih =>
    rw [Nat.pow_succ] at hr
    have hpos : 1 ≤ 2 ^ b := Nat.one_le_two_pow
    have hr2 : (r.toNat + 1) * 2 ≤ 2 ^ 16 := (Nat.mul_le_mul_left _ (by omega)).trans hr
    apply ih
    rw [reverse_bit x (by omega)]
    calc (2 * r.toNat + x.toNat % 2 + 1) * 2 ^ b
        ≤ ((r.toNat + 1) * 2) * 2 ^ b := Nat.mul_le_mul_right _ (by omega)
      _ = (r.toNat + 1) * (2 ^ b * 2) := by rw [Nat.mul_assoc, Nat.mul_comm 2]
      _ ≤ 2 ^ 16 := hr

/-- **Turning the register around loses nothing.** -/
theorem crcReverse_injective : Function.Injective crcReverse := by
  intro x y h
  have fits : ∀ z : UInt16, (crcReverseLoop 16 z 0).toNat < 2 ^ 16 :=
    fun z => crcReverseLoop_lt z (by decide)
  have hloop : crcReverseLoop 16 x 0 = crcReverseLoop 16 y 0 := by
    have hmod := congrArg UInt16.toNat h
    simp only [crcReverse, UInt32.toNat_toUInt16] at hmod
    rw [Nat.mod_eq_of_lt (fits x), Nat.mod_eq_of_lt (fits y)] at hmod
    exact UInt32.toNat_inj.1 hmod
  exact (crcReverseLoop_inj x.toNat_lt y.toNat_lt (by decide) (by decide) hloop).1

/-- The two octets sent determine the register. -/
theorem crcOctets_injective : Function.Injective crcOctets := by
  intro x y h
  simp only [crcOctets, List.cons.injEq, and_true] at h
  have hhigh := congrArg UInt8.toNat h.1
  have hlow := congrArg UInt8.toNat h.2
  simp only [UInt16.toNat_toUInt8, UInt16.toNat_shiftRight, UInt16.reduceToNat, Nat.reduceMod,
    Nat.shiftRight_eq_div_pow, Nat.reducePow] at hhigh hlow
  have hx := (crcReverse x).toNat_lt
  have hy := (crcReverse y).toNat_lt
  exact crcReverse_injective (UInt16.toNat_inj.1 (by omega))

/-! ## Altered frames -/

/-- The frame `s` has become `s'`, of the same length: one octet of the header has
changed, or at most two consecutive octets of the payload, or the CRC. -/
inductive Altered (s s' : List UInt8) : Prop
  | header (i : Nat) (hi : i < 4) (h : ConfinedTo i 1 s s')
  | payload (i k : Nat) (hi : 4 ≤ i) (hk : k ≤ 2) (hend : i + k ≤ 4 + (headerLength s).toNat)
      (h : ConfinedTo i k s s')
  | crc (h : ConfinedTo (4 + (headerLength s).toNat) 2 s s')

/-- The checksum notices a change of one header octet. -/
theorem eq_of_headerSum {s s' : List UInt8} {i : Nat} (hi : i < 4) (h : ConfinedTo i 1 s s')
    (hsum : headerSum s' = headerSum s) : s' = s := by
  have hsame : ∀ j, j ≠ i → s'[j]? = s[j]? := fun j hj => h.getElem?_eq (by omega)
  have hgetD : ∀ j, j ≠ i → s'.getD j 0 = s.getD j 0 := by
    intro j hj
    rw [List.getD_eq_getElem?_getD, List.getD_eq_getElem?_getD, hsame j hj]
  have hchanged : s'.getD i 0 = s.getD i 0 := by
    unfold headerSum at hsum
    -- the three other octets cancel
    obtain rfl | rfl | rfl | rfl : i = 0 ∨ i = 1 ∨ i = 2 ∨ i = 3 := by omega
    · rw [hgetD 1 (by omega), hgetD 2 (by omega), hgetD 3 (by omega)] at hsum
      simpa [UInt8.add_left_inj] using hsum
    · rw [hgetD 0 (by omega), hgetD 2 (by omega), hgetD 3 (by omega)] at hsum
      simpa [UInt8.add_left_inj, UInt8.add_right_inj] using hsum
    · rw [hgetD 0 (by omega), hgetD 1 (by omega), hgetD 3 (by omega)] at hsum
      simpa [UInt8.add_left_inj, UInt8.add_right_inj] using hsum
    · rw [hgetD 0 (by omega), hgetD 1 (by omega), hgetD 2 (by omega)] at hsum
      simpa [UInt8.add_right_inj] using hsum
  refine List.ext_getElem h.1 ?_
  intro j hj' hj
  have hget : s'.getD j 0 = s.getD j 0 := by
    by_cases hji : j = i
    · rw [hji]
      exact hchanged
    · exact hgetD j hji
  rwa [List.getD_eq_getElem _ _ hj', List.getD_eq_getElem _ _ hj] at hget

/-- Frames with the same header have the same length field and CRC flag. -/
theorem header_eq_of_take {s s' : List UInt8} (h : s'.take 4 = s.take 4) :
    header s' = header s := by
  rw [← header_take s', h, header_take]

/-- **No altered frame is intact.** -/
theorem Altered.not_intact {s s' : List UInt8} (hok : FrameIntact s) (hcrc : headerCrc s ≠ 0)
    (h : Altered s s') (hne : s' ≠ s) : ¬ FrameIntact s' := by
  intro hok'
  apply hne
  cases h with
  | header i hi h => exact eq_of_headerSum hi h (hok'.sum.trans hok.sum.symm)
  | payload i k hi hk hend h =>
    have hhead := header_eq_of_take (h.take_eq hi)
    have hlen : headerLength s' = headerLength s := congrArg Header.length hhead
    have hcrc' : headerCrc s' ≠ 0 := by
      rwa [show headerCrc s' = headerCrc s from congrArg Header.crc hhead]
    have hend' : s'.drop (4 + (headerLength s).toNat) = s.drop (4 + (headerLength s).toNat) :=
      h.drop_eq hend
    have hseal := hok'.crc hcrc'
    rw [hlen, hend', hok.crc hcrc] at hseal
    have hbody := crcRegister.eq_of_burst hk (h.take _) (crcOctets_injective hseal)
    rw [← List.take_append_drop (4 + (headerLength s).toNat) s', ← hbody, hend',
      List.take_append_drop]
  | crc h =>
    have hbody := h.take_eq (Nat.le_refl _)
    have hhead := header_eq_of_take (h.take_eq (Nat.le_add_right 4 _))
    have hlen : headerLength s' = headerLength s := congrArg Header.length hhead
    have hcrc' : headerCrc s' ≠ 0 := by
      rwa [show headerCrc s' = headerCrc s from congrArg Header.crc hhead]
    have hseal := hok'.crc hcrc'
    rw [hlen, hbody, ← hok.crc hcrc] at hseal
    rw [← List.take_append_drop (4 + (headerLength s).toNat) s', hbody, hseal,
      List.take_append_drop]

/-- **Error detection.**  An altered frame in the receive buffers is rejected: it causes
no activity, an ACK is requested, and the numbers, the packet being sent and the
link-establishment state stay as they are. -/
theorem error_detection {s s' : List UInt8} {e : Engine} (hok : FrameIntact s)
    (hcrc : headerCrc s ≠ 0) (halt : Altered s s') (hne : s' ≠ s) (hcol : Collects s' e.rx)
    (hroom : s'.length ≤ 4 + e.receivePacket.length.toNat) :
    (receviedPacket e).1 = .none ∧ (receviedPacket e).2.sendAck = true ∧
      (receviedPacket e).2.sequenceNumber = e.sequenceNumber ∧
      (receviedPacket e).2.ackNumber = e.ackNumber ∧
      (receviedPacket e).2.sendPacket = e.sendPacket ∧ (receviedPacket e).2.link = e.link := by
  have hlen : s'.length = s.length := by
    cases halt with
    | header _ _ h => exact h.1
    | payload _ _ _ _ _ h => exact h.1
    | crc h => exact h.1
  have hnot : ¬ Intact e := by
    rw [hcol.intact_iff (hlen ▸ hok.header), clip_of_le hroom]
    exact halt.not_intact hok hcrc hne
  obtain ⟨r, hr, -⟩ := receviedPacket_of_not_intact hnot
  rw [hr]
  exact ⟨rfl, rfl, rfl, rfl, rfl, rfl⟩

/-- A frame with a payload of three octets. -/
def shortFrame : List UInt8 := dataFrame ⟨5, 1, 3, [1, 2, 3]⟩ 0 0

/-- The frame with the last two octets of its payload changed. -/
def shortFrameAltered : List UInt8 := (shortFrame.set 5 0xFD).set 6 0x12

/-- An engine that has received it, with a packet of its own to send. -/
def alteredReceiver : Engine :=
  { Engine.zero with
    linkEstablishmentState := .active
    linkEstablishmentPacket := .none
    sendPacket := some ⟨5, 1, 1, [7]⟩
    receiveArmed := true
    receivePacket := ⟨0, 0, 5, shortFrameAltered.drop 4⟩
    receiveHeader := shortFrameAltered.take 4
    receiveIndex := 5 }

theorem error_detection_burst :
    (receviedPacket alteredReceiver).1 = .none ∧
      (receviedPacket alteredReceiver).2.sendAck = true ∧
      (receviedPacket alteredReceiver).2.sequenceNumber = 0 ∧
      (receviedPacket alteredReceiver).2.ackNumber = 0 ∧
      (receviedPacket alteredReceiver).2.sendPacket = some ⟨5, 1, 1, [7]⟩ ∧
      (receviedPacket alteredReceiver).2.link = ⟨.active, 0, .none⟩ :=
  @error_detection shortFrame shortFrameAltered alteredReceiver
    (dataFrame_intact ⟨Or.inr rfl, by decide, rfl, by decide⟩ 0 0) (by decide)
    (.payload 5 2 (by decide) (by decide) (by decide) (by decide)) (by decide)
    ⟨rfl, rfl, by decide, rfl, rfl⟩ (by decide)

end OpenwrtFeed.Ubcsp
