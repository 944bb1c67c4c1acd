import Mathlib.Data.List.Basic

/-! # The frame check sequence of `ubcsp.c`

`ubcsp_calc_crc` folds one octet into a 16-bit register, four bits at a time,
through a table of sixteen entries; `ubcsp_crc_reverse` turns the register around
before it is sent, most significant octet first.
-/
namespace OpenwrtFeed.Ubcsp

/-- `crc_table` of `ubcsp_calc_crc`. -/
def crcTable : List UInt16 :=
  [0x0000, 0x1081, 0x2102, 0x3183,
   0x4204, 0x5285, 0x6306, 0x7387,
   0x8408, 0x9489, 0xa50a, 0xb58b,
   0xc60c, 0xd68d, 0xe70e, 0xf78f]

/-- `ubcsp_calc_crc`: the next octet `ch`, four bits at a time. -/
def calcCrc (ch : UInt8) (crc : UInt16) : UInt16 :=
  let crc := (crc >>> 4) ^^^ crcTable.getD ((crc ^^^ ch.toUInt16) &&& 0x000f).toNat 0
  (crc >>> 4) ^^^ crcTable.getD ((crc ^^^ (ch >>> 4).toUInt16) &&& 0x000f).toNat 0

/-- The loop of `ubcsp_crc_reverse`, `b` turns before its end. -/
def crcReverseLoop : Nat → UInt16 → UInt32 → UInt32
  | 0, _, rev => rev
  | b + 1, crc, rev => crcReverseLoop b (crc >>> 1) ((rev <<< 1) ||| (crc &&& 1).toUInt32)

/-- `ubcsp_crc_reverse`: the sixteen bits in the opposite order. -/
def crcReverse (crc : UInt16) : UInt16 := (crcReverseLoop 16 crc 0).toUInt16

/-- The register after a run of octets. -/
def crcFold (crc : UInt16) (octets : List UInt8) : UInt16 :=
  octets.foldl (fun crc ch => calcCrc ch crc) crc

@[simp] theorem crcFold_nil (crc : UInt16) : crcFold crc [] = crc := rfl

@[simp] theorem crcFold_cons (crc : UInt16) (x : UInt8) (xs : List UInt8) :
    crcFold crc (x :: xs) = crcFold (calcCrc x crc) xs := rfl

theorem crcFold_append (crc : UInt16) (xs ys : List UInt8) :
    crcFold crc (xs ++ ys) = crcFold (crcFold crc xs) ys :=
  List.foldl_append

/-- The two octets that close a frame whose register has come to `crc`. -/
def crcOctets (crc : UInt16) : List UInt8 :=
  [(crcReverse crc >>> 8).toUInt8, (crcReverse crc).toUInt8]

@[simp] theorem length_crcOctets (crc : UInt16) : (crcOctets crc).length = 2 := rfl

/-- The mask and shift of the receiver's first comparison select the high octet. -/
theorem high_octet (r : UInt16) : (r &&& 0xff00) >>> 8 = (r >>> 8).toUInt8.toUInt16 := by
  apply UInt16.toNat_inj.1
  have h : (r.toNat &&& 0xff00) >>> 8 = (r.toNat >>> 8) % 2 ^ 8 := by
    rw [Nat.shiftRight_and_distrib]
    exact Nat.and_two_pow_sub_one_eq_mod _ 8
  simpa using h

/-- The mask of the receiver's second comparison selects the low octet. -/
theorem low_octet (r : UInt16) : r &&& 0xff = r.toUInt8.toUInt16 := by
  apply UInt16.toNat_inj.1
  have h : r.toNat &&& 0xff = r.toNat % 2 ^ 8 := Nat.and_two_pow_sub_one_eq_mod _ 8
  simpa using h

end OpenwrtFeed.Ubcsp
