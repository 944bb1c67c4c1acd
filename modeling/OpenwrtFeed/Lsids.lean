import OpenwrtFeed.Json
import OpenwrtFeed.ReadHex

/-! # The identifiers of the device

`lsids` prints five fields of the ART partition as a JSON object.  Four of them go through
`read_hex`; the serial number is taken for text and printed as it is.  An octet in it that
a JSON string cannot hold (a quotation mark, a backslash, a control character, or
anything that is not UTF-8, such as the octets of an erased partition) makes the line
something other than an object that gives the serial number back (`wellFormed_iff`).
-/
namespace OpenwrtFeed.Lsids
open Json

/-! ## The program -/

def eth0MacOffset : Nat := 0x0000
def wlan0MacOffset : Nat := 0x1002
def sernoOffset : Nat := 0x1008
def btMacOffset : Nat := 0xf000
def btTrimOffset : Nat := 0xf006

/-- An ART image that holds all the fields. -/
structure Image where
  octets : List UInt8
  enough : 0xf007 ≤ octets.length

/-- `read_bytes`: the image holds all of the field, and `fread` fills the buffer. -/
def readBytes (image : Image) (offset len : Nat) : List UInt8 := (image.octets.drop offset).take len

/-- `read_mac`, into a buffer. -/
def readMac (signed : Bool) (image : Image) (buf : List UInt8) (offset : Nat) : List UInt8 :=
  store buf (readHex signed 0x3A (readBytes image offset 6))

/-- An array of `n` chars. -/
structure CharArray (n : Nat) where
  octets : List UInt8
  length_eq : octets.length = n

/-- What the arrays of `main` happen to hold. -/
structure Stack where
  btmac : CharArray 18
  bttrim : CharArray 3
  eth0 : CharArray 18
  wlan0 : CharArray 18

/-- What `%s` prints of a buffer. -/
def cString (buf : List UInt8) : List UInt8 := buf.takeWhile fun c => c ≠ 0

/-- The line that `main` prints. -/
def line (signed : Bool) (stack : Stack) (image : Image) : List UInt8 :=
  let serial := readBytes image sernoOffset 20 ++ [0]
  let btmac := readMac signed image (stack.btmac.octets.set 17 0) btMacOffset
  let bttrim :=
    store (stack.bttrim.octets.set 2 0) (readHex signed 0 (readBytes image btTrimOffset 1))
  -- the two assignments that are meant for the next arrays are made to this one
  let btmac := (btmac.set 17 0).set 17 0
  let eth0 := readMac signed image stack.eth0.octets eth0MacOffset
  let wlan0 := readMac signed image stack.wlan0.octets wlan0MacOffset
  utf8 "\x7b\"serial\":\"".toList ++ cString serial ++
    utf8 "\",\"btmac\":\"".toList ++ cString btmac ++
    utf8 "\",\"bttrim\":\"".toList ++ cString bttrim ++
    utf8 "\",\"eth0\":\"".toList ++ cString eth0 ++
    utf8 "\",\"wlan0\":\"".toList ++ cString wlan0 ++ utf8 "\"\x7d\n".toList

/-- What `main` writes, and the status it returns. -/
structure Output where
  stdout : List UInt8
  stderr : List UInt8
  status : Nat

/-- `main`, with what `fopen` gives for a path. -/
def main (signed : Bool) (stack : Stack) (fopen : String → Option Image) (argv : List String) :
    Output :=
  match fopen (argv.getD 1 "/dev/mtdblock5") with
  | none => ⟨[], utf8 "failed opening input file\n".toList, 1⟩
  | some image => ⟨line signed stack image, [], 0⟩

/-! ## What the line is for -/

/-- The serial number: the octets up to the first NUL. -/
def serialOctets (image : Image) : List UInt8 := cString (readBytes image sernoOffset 20)

/-- The octet that two hexadecimal digits stand for. -/
def octetOf (a b : Char) : Option UInt8 :=
  match hexValue a, hexValue b with
  | some x, some y => some (UInt8.ofNat (x * 16 + y))
  | _, _ => none

/-- The octets that a text stands for, in hexadecimal with colons between them. -/
def octetsOf : List Char → Option (List UInt8)
  | [a, b] => (octetOf a b).map fun x => [x]
  | a :: b :: ':' :: rest =>
    match octetOf a b, octetsOf rest with
    | some x, some xs => some (x :: xs)
    | _, _ => none
  | _ => none

/-- The value is an object with the five identifiers of the image. -/
def Identifies (image : Image) (x : Value) : Prop :=
  ∃ serial btmac bttrim eth0 wlan0,
    x = .object [("serial".toList, .string serial), ("btmac".toList, .string btmac),
      ("bttrim".toList, .string bttrim), ("eth0".toList, .string eth0),
      ("wlan0".toList, .string wlan0)] ∧
    utf8 serial = serialOctets image ∧
    octetsOf btmac = some (readBytes image btMacOffset 6) ∧
    octetsOf bttrim = some (readBytes image btTrimOffset 1) ∧
    octetsOf eth0 = some (readBytes image eth0MacOffset 6) ∧
    octetsOf wlan0 = some (readBytes image wlan0MacOffset 6)

/-- What is printed of an image is a JSON text, and whatever value it is read as identifies
the image. -/
def WellFormed (signed : Bool) (stack : Stack) (argv : List String) (image : Image) : Prop :=
  let printed := (main signed stack (fun _ => some image) argv).stdout
  (∃ x, Denotes printed x) ∧ ∀ x, Denotes printed x → Identifies image x

/-! ## The fields in hexadecimal -/

/-- A digit as a character. -/
def hexDigit (n : Nat) : Char := if n < 10 then Char.ofNat (0x30 + n) else Char.ofNat (0x57 + n)

/-- The text of a field, in characters. -/
def hexChars : List UInt8 → List Char
  | [] => []
  | [c] => [hexDigit (c.toNat / 16), hexDigit (c.toNat % 16)]
  | c :: raw => hexDigit (c.toNat / 16) :: hexDigit (c.toNat % 16) :: ':' :: hexChars raw

/-- What is needed of a digit. -/
theorem hexDigit_spec {n : Nat} (hn : n < 16) : hexValue (hexDigit n) = some n ∧ Plain
    (hexDigit n) ∧
    String.utf8EncodeChar (hexDigit n) = [hexOctet n] := by
  have htable : ∀ n : Fin 16, hexValue (hexDigit n) = some (n : Nat) ∧ Plain (hexDigit n) ∧
      String.utf8EncodeChar (hexDigit n) = [hexOctet n] := by
    decide
  exact htable ⟨n, hn⟩

theorem octetOf_hexDigit (c : UInt8) :
    octetOf (hexDigit (c.toNat / 16)) (hexDigit (c.toNat % 16)) = some c := by
  obtain ⟨hhigh, hlow⟩ := digits_lt c
  unfold octetOf
  rw [(hexDigit_spec hhigh).1, (hexDigit_spec hlow).1]
  dsimp only
  rw [Nat.div_add_mod']
  simp

theorem octetsOf_hexChars {raw : List UInt8} (hraw : raw ≠ []) :
    octetsOf (hexChars raw) = some raw := by
  induction raw with
  | nil => exact absurd rfl hraw
  | cons c raw ih =>
    cases raw with
    | nil => simp [hexChars, octetsOf, octetOf_hexDigit]
    | cons c' raw => simp [hexChars, octetsOf, octetOf_hexDigit, ih]

theorem plain_hexChars (raw : List UInt8) : ∀ x ∈ hexChars raw, Plain x := by
  induction raw with
  | nil => simp [hexChars]
  | cons c raw ih =>
    obtain ⟨hhigh, hlow⟩ := digits_lt c
    have hdigits := And.intro (hexDigit_spec hhigh).2.1 (hexDigit_spec hlow).2.1
    cases raw with
    | nil => simpa [hexChars] using hdigits
    | cons c' raw =>
      have hcolon : Plain ':' := by decide
      rw [hexChars, List.forall_mem_cons, List.forall_mem_cons, List.forall_mem_cons]
      · exact ⟨hdigits.1, hdigits.2, hcolon, ih⟩
      · simp

/-- The octets of the text are the UTF-8 form of its characters. -/
theorem hexText_eq (raw : List UInt8) : hexText 0x3A raw = utf8 (hexChars raw) := by
  induction raw with
  | nil => rfl
  | cons c raw ih =>
    obtain ⟨hhigh, hlow⟩ := digits_lt c
    have hdigits := And.intro (hexDigit_spec hhigh).2.2 (hexDigit_spec hlow).2.2
    have hcolon : String.utf8EncodeChar ':' = [0x3A] := by decide
    cases raw with
    | nil => simp [hexText, hexChars, utf8, hdigits]
    | cons c' raw =>
      rw [hexText, ih]
      · simp [hexChars, utf8, hdigits, hcolon]
      · simp

/-! ## The line -/

/-- What is printed of a buffer that holds a text and its terminator. -/
theorem cString_append {s : List UInt8} (hs : ∀ c ∈ s, c ≠ 0) (rest : List UInt8) :
    cString (s ++ 0 :: rest) = s := by
  unfold cString
  rw [List.takeWhile_append_of_pos (by simpa using hs), List.takeWhile_cons_of_neg (by simp),
    List.append_nil]

/-- A terminator at the end of a buffer changes nothing. -/
theorem cString_concat (s : List UInt8) : cString (s ++ [0]) = cString s := by
  unfold cString
  induction s with
  | nil => rfl
  | cons c s ih =>
    rw [List.cons_append, List.takeWhile_cons, List.takeWhile_cons, ih]

theorem length_readBytes (image : Image) {offset len : Nat} (h : offset + len ≤ 0xf007) :
    (readBytes image offset len).length = len := by
  have := image.enough
  simp only [readBytes, List.length_take, List.length_drop]
  omega

/-- `read_mac` fills an array of 18 chars with the text and the terminator. -/
theorem readMac_eq (signed : Bool) (image : Image) {buf : List UInt8} (hbuf : buf.length = 18)
    {offset : Nat} (h : offset + 6 ≤ 0xf007) :
    readMac signed image buf offset = hexText 0x3A (readBytes image offset 6) ++ [0] ∧
      (hexText 0x3A (readBytes image offset 6)).length = 17 := by
  have hlen := length_readBytes image h
  have hraw : readBytes image offset 6 ≠ [] := List.ne_nil_of_length_pos (by omega)
  have htext : (hexText 0x3A (readBytes image offset 6)).length + 1 =
      3 * (readBytes image offset 6).length :=
    length_hexText 0x3A hraw
  refine ⟨?_, by omega⟩
  unfold readMac
  rw [store_readHex signed 0x3A hraw (by omega), List.drop_eq_nil_of_le (by omega)]

theorem cString_readMac (signed : Bool) (image : Image) {buf : List UInt8} (hbuf : buf.length = 18)
    {offset : Nat} (h : offset + 6 ≤ 0xf007) :
    cString (readMac signed image buf offset) = utf8 (hexChars (readBytes image offset 6)) := by
  rw [(readMac_eq signed image hbuf h).1, cString_append (hexText_ne_zero _ _), hexText_eq]

/-- The last char of the array is the terminator already. -/
theorem readMac_set (signed : Bool) (image : Image) {buf : List UInt8} (hbuf : buf.length = 18)
    {offset : Nat} (h : offset + 6 ≤ 0xf007) :
    (readMac signed image buf offset).set 17 0 = readMac signed image buf offset := by
  obtain ⟨heq, hlen⟩ := readMac_eq signed image hbuf h
  rw [heq]
  exact set_append_add hlen [0] 0 0

theorem cString_bttrim (signed : Bool) (image : Image) {buf : List UInt8} (hbuf : buf.length = 3) :
    cString (store buf (readHex signed 0 (readBytes image btTrimOffset 1))) =
      utf8 (hexChars (readBytes image btTrimOffset 1)) := by
  obtain ⟨c, hc⟩ := List.length_eq_one_iff.1 (@length_readBytes image btTrimOffset 1 (by decide))
  rw [hc, store_readHex signed 0 (by simp) (by simp [hexText, hbuf])]
  exact (cString_append (hexText_ne_zero 0 [c]) _).trans (hexText_eq [c])

/-- The members that are printed, with the serial number as a text. -/
def printedMembers (image : Image) (serial : List Char) : List (List Char × List Char) :=
  [("serial".toList, serial), ("btmac".toList, hexChars (readBytes image btMacOffset 6)),
    ("bttrim".toList, hexChars (readBytes image btTrimOffset 1)),
    ("eth0".toList, hexChars (readBytes image eth0MacOffset 6)),
    ("wlan0".toList, hexChars (readBytes image wlan0MacOffset 6))]

/-- **The line** is an object of strings, if the serial number is a text at all. -/
theorem line_eq (signed : Bool) (stack : Stack) (image : Image) {serial : List Char}
    (hserial : utf8 serial = serialOctets image) :
    line signed stack image = utf8 (compact (printedMembers image serial) ++ ['\n']) := by
  have hbt : (stack.btmac.octets.set 17 0).length = 18 := by simp [stack.btmac.length_eq]
  have hser : cString (readBytes image sernoOffset 20 ++ [0]) = utf8 serial :=
    (cString_concat _).trans hserial.symm
  unfold line
  dsimp only
  rw [readMac_set signed image hbt (by decide), readMac_set signed image hbt (by decide),
    cString_readMac signed image hbt (by decide),
    cString_readMac signed image stack.eth0.length_eq (by decide),
    cString_readMac signed image stack.wlan0.length_eq (by decide),
    cString_bttrim signed image (by simp [stack.bttrim.length_eq]), hser]
  simp only [← utf8_append]
  congr 1
  simp [compact, printedMembers, membersText, memberText]

/-- The keys and the fields in hexadecimal need no escapes. -/
theorem printedMembers_plain (image : Image) {serial : List Char}
    (hserial : ∀ c ∈ serial, Plain c) :
    ∀ m ∈ printedMembers image serial, (∀ c ∈ m.1, Plain c) ∧ ∀ c ∈ m.2, Plain c := by
  simp only [printedMembers, List.forall_mem_cons]
  exact ⟨⟨plain_of_all (by decide), hserial⟩, ⟨plain_of_all (by decide), plain_hexChars _⟩,
    ⟨plain_of_all (by decide), plain_hexChars _⟩, ⟨plain_of_all (by decide), plain_hexChars _⟩,
    ⟨plain_of_all (by decide), plain_hexChars _⟩, by simp⟩

/-- A serial number that needs no escapes. -/
theorem wellFormed_of_plain (signed : Bool) (stack : Stack) (argv : List String) {image : Image}
    {serial : List Char} (hserial : utf8 serial = serialOctets image)
    (hplain : ∀ c ∈ serial, Plain c) :
    WellFormed signed stack argv image := by
  have hdenotes : ∀ x, Denotes (line signed stack image) x ↔
      x = .object ((printedMembers image serial).map memberValue) := by
    intro x
    rw [line_eq signed stack image hserial, denotes_utf8]
    exact text_compact (by simp [printedMembers]) (printedMembers_plain image hplain)
      (.skip (by decide) .none)
  have hfield : ∀ {offset len : Nat}, offset + len ≤ 0xf007 → 0 < len →
      octetsOf (hexChars (readBytes image offset len)) = some (readBytes image offset len) := by
    intro offset len hle hpos
    have := length_readBytes image hle
    exact octetsOf_hexChars (List.ne_nil_of_length_pos (by omega))
  refine ⟨⟨_, (hdenotes _).2 rfl⟩, fun x hx => ?_⟩
  obtain rfl := (hdenotes x).1 hx
  exact ⟨serial, _, _, _, _, rfl, hserial, hfield (by decide) (by decide),
    hfield (by decide) (by decide), hfield (by decide) (by decide), hfield (by decide) (by decide)⟩

/-- A serial number that is read back needs no escapes. -/
theorem plain_of_wellFormed {signed : Bool} {stack : Stack} {argv : List String} {image : Image}
    (h : WellFormed signed stack argv image) :
    ∃ serial, utf8 serial = serialOctets image ∧ ∀ c ∈ serial, Plain c := by
  obtain ⟨⟨x, hx⟩, hall⟩ := h
  obtain ⟨serial, btmac, bttrim, eth0, wlan0, rfl, hserial, -⟩ := hall x hx
  refine ⟨serial, hserial, ?_⟩
  have hx : Denotes (line signed stack image) _ := hx
  rw [line_eq signed stack image hserial, denotes_utf8,
    text_members (by simp [printedMembers])] at hx
  obtain ⟨ms, t, hobject, hms, -⟩ := hx
  obtain rfl := Value.object.inj hobject
  have hkey : ∀ c ∈ "serial".toList, Plain c := plain_of_all (by decide)
  exact @plain_of_members 'b' _ _ ("serial".toList, serial) _ _ _ hkey _ rfl (by decide) hms

/-- **The line is well formed** exactly when the serial number is text in UTF-8 without
quotation marks, backslashes and control characters. -/
theorem wellFormed_iff (signed : Bool) (stack : Stack) (argv : List String) (image : Image) :
    WellFormed signed stack argv image ↔
      ∃ serial, utf8 serial = serialOctets image ∧ ∀ c ∈ serial, Plain c := by
  constructor
  · exact plain_of_wellFormed
  · rintro ⟨serial, hserial, hplain⟩
    exact wellFormed_of_plain signed stack argv hserial hplain

/-! ### An erased partition -/

/-- The image of an erased partition. -/
def erased : Image := ⟨List.replicate 0x10000 0xFF, by rw [List.length_replicate]; decide⟩

theorem serialOctets_erased : serialOctets erased = List.replicate 20 0xFF := by
  have hread : readBytes erased sernoOffset 20 = List.replicate
      (min 20 (0x10000 - 0x1008)) 0xFF := by
    unfold readBytes erased
    rw [List.drop_replicate, List.take_replicate]
    rfl
  rw [serialOctets, hread]
  decide

/-- No character begins with that octet. -/
theorem utf8EncodeChar_ne (c : Char) (octets rest : List UInt8) :
    String.utf8EncodeChar c ++ octets ≠ 0xFF :: rest := by
  have hfirst : ∀ (l : List UInt8) (hl : 0 < l.length), l[0].IsUTF8FirstByte →
      l ++ octets ≠ 0xFF :: rest := by
    intro l hl hbyte h
    cases l with
    | nil => cases hl
    | cons x l =>
      obtain ⟨rfl, -⟩ := List.cons.inj h
      have hnot : ¬ UInt8.IsUTF8FirstByte 0xFF := by decide
      exact hnot hbyte
  exact hfirst _ _ UInt8.isUTF8FirstByte_getElem_zero_utf8EncodeChar

/-- **The line of an erased partition is not well formed**: its serial number is no text. -/
theorem exists_malformed :
    ∃ image : Image, serialOctets image = List.replicate 20 0xFF ∧
      ∀ signed stack argv, ¬ WellFormed signed stack argv image := by
  refine ⟨erased, serialOctets_erased, fun signed stack argv h => ?_⟩
  obtain ⟨serial, htext, -⟩ := plain_of_wellFormed h
  rw [serialOctets_erased] at htext
  cases serial with
  | nil => cases htext
  | cons c serial => exact utf8EncodeChar_ne c (utf8 serial) _ htext

end OpenwrtFeed.Lsids
