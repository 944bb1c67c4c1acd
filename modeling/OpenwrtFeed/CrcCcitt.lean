import OpenwrtFeed.BitSerialCrc
import OpenwrtFeed.ErrorDetection

/-! # The frame check sequence is CRC-CCITT

`ubcsp_calc_crc` keeps the register of CRC-CCITT in reverse and shifts it four bits at a
time: an entry of its table is what four bits do to a register of which only the low four
bits are set (`crcTable_entry`).  `ubcsp_crc_reverse` turns the register around at the end,
so that the octets sent are those of the textbook check sequence over the octets with
their bits in reverse, as they go over the line (`crc_ccitt`).
-/
namespace OpenwrtFeed.Ubcsp
open BitSerial

/-- CRC-CCITT, bit by bit: polynomial 0x1021, initial value 0xFFFF, the most significant
bit of each octet first. -/
def crcCcitt (octets : List (BitVec 8)) : BitVec 16 :=
  run 0x1021#16 0xFFFF#16 (octets.flatMap msbFirst)

example : crcCcitt [0x31, 0x32, 0x33, 0x34, 0x35, 0x36, 0x37, 0x38, 0x39] = 0x29B1#16 := by
  decide +kernel

/-- The polynomial in reverse. -/
def reversedPoly : BitVec 16 := 0x8408#16

theorem reverse_reversedPoly : reversedPoly.reverse = 0x1021#16 := by decide

/-! ## The table -/

/-- **The entries of the table** are what four bits add to the register. -/
theorem crcTable_entry : ∀ i < 16, (crcTable.getD i 0).toBitVec =
    runDown reversedPoly (BitVec.ofNat 16 i) (List.replicate 4 false) := by decide

/-- The mask of the index selects the lowest four bits. -/
theorem and_nibble (x : BitVec 16) : x &&& 0x000f#16 = low 4 x := by
  apply BitVec.eq_of_toNat_eq
  have hmod : x.toNat &&& 15 = x.toNat % 2 ^ 4 := Nat.and_two_pow_sub_one_eq_mod _ 4
  have hlow : (low 4 x).toNat = x.toNat % 2 ^ 4 % 2 ^ 16 := by
    rw [low, BitVec.toNat_setWidth, BitVec.toNat_setWidth]
  have hmask : (x &&& 0x000f#16).toNat = x.toNat &&& 15 := BitVec.toNat_and _ _
  omega

/-- One turn of `ubcsp_calc_crc` takes the lowest four bits. -/
theorem nibbleStep_eq (n crc : UInt16) :
    (nibbleStep n crc).toBitVec = runDown reversedPoly crc.toBitVec (lowBits 4 n.toBitVec) := by
  have hlow : BitVec.ofNat 16 (nibbleIndex n crc) = low 4 (crc.toBitVec ^^^ n.toBitVec) := by
    rw [← and_nibble]
    exact BitVec.ofNat_toNat _ _
  rw [runDown_lowBits, ← hlow, ← crcTable_entry _ (nibbleIndex_lt n crc)]
  rfl

/-- **`ubcsp_calc_crc` takes the eight bits of an octet**, the least significant one first. -/
theorem calcCrc_toBitVec (ch : UInt8) (crc : UInt16) :
    (calcCrc ch crc).toBitVec = runDown reversedPoly crc.toBitVec (lowBits 8 ch.toBitVec) := by
  have hwide : ∀ x : UInt8, lowBits 4 x.toUInt16.toBitVec = lowBits 4 x.toBitVec := by
    intro x
    refine List.map_congr_left fun i hi => ?_
    have hi : i < 16 := (List.mem_range.1 hi).trans (by decide)
    show (x.toBitVec.setWidth 16).getLsbD i = _
    rw [BitVec.getLsbD_setWidth, decide_eq_true hi, Bool.true_and]
  have hshift : (ch >>> 4).toBitVec = ch.toBitVec >>> 4 := rfl
  rw [calcCrc_eq, nibbleStep_eq, nibbleStep_eq, hwide, hwide, hshift, ← runDown_append,
    ← lowBits_add]

/-- The register after a run of octets. -/
theorem crcFold_toBitVec (crc : UInt16) (octets : List UInt8) :
    (crcFold crc octets).toBitVec =
      runDown reversedPoly crc.toBitVec (octets.flatMap fun x => lowBits 8 x.toBitVec) := by
  induction octets generalizing crc with
  | nil => rfl
  | cons x octets ih =>
    rw [crcFold_cons, ih, calcCrc_toBitVec, List.flatMap_cons, runDown_append]

/-! ## The reversal -/

/-- One turn of the loop shifts in the lowest bit of `crc`. -/
theorem getLsbD_shiftedIn (crc : UInt16) (rev : UInt32) {j : Nat} (hj : j < 32) :
    ((rev <<< 1) ||| (crc &&& 1).toUInt32).toBitVec.getLsbD j =
      if j = 0 then crc.toBitVec.getLsbD 0 else rev.toBitVec.getLsbD (j - 1) := by
  show ((rev.toBitVec <<< 1) ||| (crc.toBitVec &&& 1#16).setWidth 32).getLsbD j = _
  rw [BitVec.getLsbD_or, BitVec.getLsbD_shiftLeft, BitVec.getLsbD_setWidth, BitVec.getLsbD_and,
    decide_eq_true hj]
  by_cases hzero : j = 0
  · subst hzero
    simp
  · have hone : (1#16).getLsbD j = false := by
      simp [BitVec.getLsbD_one, hzero]
    rw [if_neg hzero, hone]
    simp [hzero]

/-- The loop shifts in the bits of `crc`, the lowest one first. -/
theorem getLsbD_crcReverseLoop (b : Nat) (crc : UInt16) (rev : UInt32) {i : Nat} (hi : i < 32) :
    (crcReverseLoop b crc rev).toBitVec.getLsbD i =
      if i < b then crc.toBitVec.getLsbD (b - 1 - i) else rev.toBitVec.getLsbD (i - b) := by
  induction b generalizing crc rev with
  | zero => simp [crcReverseLoop]
  | succ b ih =>
    rw [crcReverseLoop, ih]
    by_cases hib : i < b
    · rw [if_pos hib, if_pos (Nat.lt_succ_of_lt hib)]
      show (crc.toBitVec >>> 1).getLsbD (b - 1 - i) = _
      rw [BitVec.getLsbD_ushiftRight]
      congr 1
      omega
    · rw [if_neg hib, getLsbD_shiftedIn crc rev (by omega)]
      by_cases hlast : i = b
      · subst hlast
        simp
      · rw [if_neg (by omega), if_neg (by omega), Nat.sub_sub]

/-- **`ubcsp_crc_reverse` turns the register around.** -/
theorem crcReverse_toBitVec (crc : UInt16) : (crcReverse crc).toBitVec = crc.toBitVec.reverse := by
  apply BitVec.eq_of_getLsbD_eq
  intro i hi
  have hloop := getLsbD_crcReverseLoop 16 crc 0 (show i < 32 by omega)
  rw [if_pos hi] at hloop
  rw [BitVec.getLsbD_reverse, BitVec.getMsbD_eq_getLsbD, decide_eq_true hi, Bool.true_and, ← hloop]
  show ((crcReverseLoop 16 crc 0).toBitVec.setWidth 16).getLsbD i = _
  rw [BitVec.getLsbD_setWidth, decide_eq_true hi, Bool.true_and]

/-! ## The check sequence -/

/-- **The frame check sequence is CRC-CCITT** of the octets with their bits in reverse. -/
theorem crc_ccitt (octets : List UInt8) :
    (crcReverse (crcFold 0xffff octets)).toBitVec =
      crcCcitt (octets.map fun x => x.toBitVec.reverse) := by
  have hbits : (octets.map fun x => x.toBitVec.reverse).flatMap msbFirst =
      octets.flatMap fun x => lowBits 8 x.toBitVec := by
    rw [List.flatMap_map]
    exact List.flatMap_congr fun x _ => msbFirst_reverse x.toBitVec
  have hinit : (0xffff#16).reverse = 0xFFFF#16 := by decide
  rw [crcReverse_toBitVec, crcFold_toBitVec, reverse_runDown, reverse_reversedPoly]
  unfold crcCcitt
  rw [hbits]
  exact congrArg (fun r => run 0x1021#16 r _) hinit

end OpenwrtFeed.Ubcsp
