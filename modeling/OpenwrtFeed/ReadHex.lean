import Mathlib.Data.List.Basic

/-! # `read_hex`

The loop of `read_hex` in `lsids.c` prints octets in hexadecimal, one digit or delimiter
a call of `snprintf`.  Each call also writes a terminator, over which the next call goes;
the last one stays, so what is left in the buffer is the whole text and the terminator
(`store_readHex`).  All the writes lie in the first `3 * len` positions, or `2 * len + 1`
without a delimiter (`read_hex_formats`); so does `i * width`, which is therefore in the range
of an `int` whenever the length of the buffer is.
-/
namespace OpenwrtFeed.Lsids

/-! ## The writes -/

/-- A `char` as an `int`; whether a `char` has a sign is up to the machine. -/
def promote (signed : Bool) (c : UInt8) : BitVec 32 :=
  if signed then c.toBitVec.signExtend 32 else c.toBitVec.setWidth 32

/-- `(raw[i] >> 4) & 0xf`. -/
def highDigit (signed : Bool) (c : UInt8) : Nat :=
  ((promote signed c).sshiftRight 4 &&& 0xf#32).toNat

/-- `raw[i] & 0xf`. -/
def lowDigit (signed : Bool) (c : UInt8) : Nat := (promote signed c &&& 0xf#32).toNat

/-- `%x` of a number below sixteen. -/
def hexOctet (n : Nat) : UInt8 := if n < 10 then 0x30 + UInt8.ofNat n else 0x57 + UInt8.ofNat n

/-- `snprintf(buf + k, 2, ...)` of one character: what goes to which index of `buf`. -/
def snprintf (k : Nat) (c : UInt8) : List (Nat × UInt8) := [(k, c), (k + 1, 0)]

/-- The distance from octet to octet. -/
def width (delim : UInt8) : Nat := if delim ≠ 0 then 3 else 2

/-- One pass of the loop of `read_hex`. -/
def hexPass (signed : Bool) (delim : UInt8) (len i : Nat) (c : UInt8) : List (Nat × UInt8) :=
  snprintf (i * width delim) (hexOctet (highDigit signed c)) ++
    (snprintf (i * width delim + 1) (hexOctet (lowDigit signed c)) ++
      if delim ≠ 0 ∧ i < len - 1 then snprintf (i * width delim + 2) delim else [])

/-- The loop from its pass `i` on, with the octets left. -/
def hexLoop (signed : Bool) (delim : UInt8) (len : Nat) : Nat → List UInt8 → List (Nat × UInt8)
  | _, [] => []
  | i, c :: raw => hexPass signed delim len i c ++ hexLoop signed delim len (i + 1) raw

/-- `read_hex`, after the octets have been read. -/
def readHex (signed : Bool) (delim : UInt8) (raw : List UInt8) : List (Nat × UInt8) :=
  hexLoop signed delim raw.length 0 raw

/-- The writes are carried out. -/
def store (buf : List UInt8) (writes : List (Nat × UInt8)) : List UInt8 :=
  writes.foldl (fun buf w => buf.set w.1 w.2) buf

/-! ## The text -/

/-- The octets in hexadecimal, with the delimiter between them, if there is one. -/
def hexText (delim : UInt8) : List UInt8 → List UInt8
  | [] => []
  | [c] => [hexOctet (c.toNat / 16), hexOctet (c.toNat % 16)]
  | c :: raw =>
    hexOctet (c.toNat / 16) :: hexOctet (c.toNat % 16) ::
      ((if delim ≠ 0 then [delim] else []) ++ hexText delim raw)

theorem hexText_cons_cons (delim c c' : UInt8) (raw : List UInt8) :
    hexText delim (c :: c' :: raw) = hexOctet (c.toNat / 16) :: hexOctet (c.toNat % 16) ::
      ((if delim ≠ 0 then [delim] else []) ++ hexText delim (c' :: raw)) := rfl

/-- The positions that an array needs for the text of `len` octets and the terminator. -/
def room (delim : UInt8) (len : Nat) : Nat := if delim ≠ 0 then 3 * len else 2 * len + 1

theorem length_hexText (delim : UInt8) {raw : List UInt8} (hraw : raw ≠ []) :
    (hexText delim raw).length + 1 = room delim raw.length := by
  induction raw with
  | nil => exact absurd rfl hraw
  | cons c raw ih =>
    cases raw with
    | nil =>
      unfold room
      split <;> rfl
    | cons c' raw =>
      have ih' := ih (by simp)
      rw [hexText_cons_cons]
      unfold room at ih' ⊢
      simp only [List.length_cons, List.length_append] at ih' ⊢
      split at ih'
      · rename_i hdelim
        rw [if_pos hdelim, if_pos hdelim, List.length_singleton]
        omega
      · rename_i hdelim
        rw [if_neg hdelim, if_neg hdelim, List.length_nil]
        omega

/-- The two digits of an octet. -/
theorem digits_lt (c : UInt8) : c.toNat / 16 < 16 ∧ c.toNat % 16 < 16 := by
  have := c.toNat_lt
  omega

theorem hexOctet_ne_zero {n : Nat} (hn : n < 16) : hexOctet n ≠ 0 := by
  have htable : ∀ n : Fin 16, hexOctet n ≠ 0 := by decide
  exact htable ⟨n, hn⟩

/-- The text has no terminator in it. -/
theorem hexText_ne_zero (delim : UInt8) (raw : List UInt8) : ∀ x ∈ hexText delim raw, x ≠ 0 := by
  induction raw with
  | nil => simp [hexText]
  | cons c raw ih =>
    obtain ⟨hhigh, hlow⟩ := digits_lt c
    have hdigits := And.intro (hexOctet_ne_zero hhigh) (hexOctet_ne_zero hlow)
    cases raw with
    | nil => simpa [hexText] using hdigits
    | cons c' raw =>
      have hdelim : ∀ x ∈ (if delim ≠ 0 then [delim] else []), x ≠ 0 := by
        split
        · simpa
        · simp
      rw [hexText_cons_cons, List.forall_mem_cons, List.forall_mem_cons, List.forall_mem_append]
      exact ⟨hdigits.1, hdigits.2, hdelim, ih⟩

/-- With or without a sign, the digits are those of the octet. -/
theorem digits_eq (signed : Bool) (c : UInt8) :
    highDigit signed c = c.toNat / 16 ∧ lowDigit signed c = c.toNat % 16 := by
  have htable : ∀ n : Fin 256, highDigit signed (UInt8.ofNat n) = n / 16 ∧
      lowDigit signed (UInt8.ofNat n) = n % 16 := by
    cases signed with
    | true => decide +kernel
    | false => decide +kernel
  simpa using htable ⟨c.toNat, c.toNat_lt⟩

theorem store_append (buf : List UInt8) (xs ys : List (Nat × UInt8)) :
    store buf (xs ++ ys) = store (store buf xs) ys := List.foldl_append

/-- An index past the first part of a buffer. -/
theorem set_append_add {n : Nat} {pre : List UInt8} (hpre : pre.length = n) (junk : List UInt8)
    (j : Nat) (c : UInt8) : (pre ++ junk).set (n + j) c = pre ++ junk.set j c := by
  subst hpre
  rw [List.set_append_right _ _ (Nat.le_add_right _ _), Nat.add_sub_cancel_left]

/-- A call of `snprintf` past the first part. -/
theorem store_snprintf {n : Nat} {pre : List UInt8} (hpre : pre.length = n) (junk : List UInt8)
    (j : Nat) (c : UInt8) :
    store (pre ++ junk) (snprintf (n + j) c) = pre ++ (junk.set j c).set (j + 1) 0 := by
  show ((pre ++ junk).set (n + j) c).set (n + (j + 1)) 0 = _
  rw [set_append_add hpre, set_append_add hpre]

/-- The two digits of an octet, and the terminator after them. -/
theorem store_digits {n : Nat} {pre : List UInt8} (hpre : pre.length = n) (x y z : UInt8)
    (junk : List UInt8) (high low : UInt8) :
    store (pre ++ x :: y :: z :: junk) (snprintf n high ++ snprintf (n + 1) low) =
      pre ++ high :: low :: 0 :: junk := by
  rw [store_append]
  have hhigh := store_snprintf hpre (x :: y :: z :: junk) 0 high
  rw [Nat.add_zero] at hhigh
  rw [hhigh, store_snprintf hpre]
  rfl

/-- **The loop** leaves the whole text in the buffer, and the terminator after it. -/
theorem store_hexLoop (signed : Bool) (delim : UInt8) {raw : List UInt8} (hraw : raw ≠ [])
    {i len : Nat} (hlen : i + raw.length = len) {pre junk : List UInt8}
    (hpre : pre.length = i * width delim) (hjunk : (hexText delim raw).length < junk.length) :
    store (pre ++ junk) (hexLoop signed delim len i raw) =
      pre ++ (hexText delim raw ++ 0 :: junk.drop ((hexText delim raw).length + 1)) := by
  induction raw generalizing i pre junk with
  | nil => exact absurd rfl hraw
  | cons c raw ih =>
    obtain ⟨hhigh, hlow⟩ := digits_eq signed c
    unfold hexLoop hexPass
    rw [hhigh, hlow, ← List.append_assoc (snprintf _ _)]
    cases raw with
    | nil =>
      obtain ⟨x, y, z, junk, rfl⟩ : ∃ x y z rest, junk = x :: y :: z :: rest := by
        match junk, hjunk with
        | x :: y :: z :: rest, _ => exact ⟨x, y, z, rest, rfl⟩
      have hlast : ¬ (delim ≠ 0 ∧ i < len - 1) := by
        simp only [List.length_singleton] at hlen
        omega
      rw [if_neg hlast, List.append_nil, hexLoop, List.append_nil, store_digits hpre]
      rfl
    | cons c' raw =>
      obtain ⟨r, hr⟩ : ∃ r, hexText delim (c' :: raw) = r := ⟨_, rfl⟩
      have hlen' : i + 1 + (c' :: raw).length = len := by
        simp only [List.length_cons] at hlen ⊢
        omega
      have hmore : i < len - 1 := by
        simp only [List.length_cons] at hlen'
        omega
      have ih' := fun pre junk hpre => @ih (by simp) (i + 1) hlen' pre junk hpre
      rw [hr] at ih'
      by_cases hdelim : delim = 0
      · -- the digits follow each other
        have hwidth : width delim = 2 := by simp [width, hdelim]
        have htext : hexText delim (c :: c' :: raw) =
            hexOctet (c.toNat / 16) :: hexOctet (c.toNat % 16) :: r := by
          simp [hexText, hdelim, ← hr]
        rw [htext] at hjunk ⊢
        obtain ⟨x, y, z, junk, rfl⟩ : ∃ x y z rest, junk = x :: y :: z :: rest := by
          match junk, hjunk with
          | x :: y :: z :: rest, _ => exact ⟨x, y, z, rest, rfl⟩
        rw [if_neg (by simp [hdelim]), List.append_nil, store_append, store_digits hpre]
        have hrest := ih' (pre ++ [hexOctet (c.toNat / 16), hexOctet (c.toNat % 16)]) (0 :: junk)
          (by simp [hpre, hwidth]; omega) (by simpa using hjunk)
        simpa using hrest
      · -- the delimiter goes over the terminator
        have hwidth : width delim = 3 := by simp [width, hdelim]
        have htext : hexText delim (c :: c' :: raw) =
            hexOctet (c.toNat / 16) :: hexOctet (c.toNat % 16) :: delim :: r := by
          simp [hexText, hdelim, ← hr]
        rw [htext] at hjunk ⊢
        obtain ⟨x, y, z, u, junk, rfl⟩ : ∃ x y z u rest, junk = x :: y :: z :: u :: rest := by
          match junk, hjunk with
          | x :: y :: z :: u :: rest, _ => exact ⟨x, y, z, u, rest, rfl⟩
        rw [if_pos ⟨hdelim, hmore⟩, store_append, store_append, store_digits hpre,
          store_snprintf hpre]
        have hrest :=
          ih' (pre ++ [hexOctet (c.toNat / 16), hexOctet (c.toNat % 16), delim]) (0 :: junk)
          (by simp [hpre, hwidth]; omega) (by simpa using hjunk)
        simpa using hrest

/-- What `read_hex` leaves in a buffer with room for the text and the terminator. -/
theorem store_readHex (signed : Bool) (delim : UInt8) {raw : List UInt8} (hraw : raw ≠ [])
    {buf : List UInt8} (hroom : (hexText delim raw).length < buf.length) :
    store buf (readHex signed delim raw) =
      hexText delim raw ++ 0 :: buf.drop ((hexText delim raw).length + 1) :=
  @store_hexLoop signed delim raw hraw 0 _ (Nat.zero_add _) [] buf (Nat.zero_mul _).symm hroom

/-! ## The string -/

/-- The digits, as octets. -/
def lowerDigits : List UInt8 := "0123456789abcdef".toList.map fun c => UInt8.ofNat c.toNat

/-- An octet in two lower-case hexadecimal digits. -/
def hexPair (c : UInt8) : List UInt8 :=
  [lowerDigits.getD (c.toNat / 16) 0, lowerDigits.getD (c.toNat % 16) 0]

/-- The octets in hexadecimal, separated by the delimiter; none if it is NUL. -/
def hexString (delim : UInt8) (raw : List UInt8) : List UInt8 :=
  List.intercalate (if delim ≠ 0 then [delim] else []) (raw.map hexPair)

theorem hexString_cons_cons (delim c c' : UInt8) (raw : List UInt8) :
    hexString delim (c :: c' :: raw) =
      hexPair c ++ ((if delim ≠ 0 then [delim] else []) ++ hexString delim (c' :: raw)) :=
  List.intercalate_cons_cons.trans (List.append_assoc _ _ _)

theorem hexOctet_eq {n : Nat} (hn : n < 16) : hexOctet n = lowerDigits.getD n 0 := by
  have htable : ∀ n : Fin 16, hexOctet n = lowerDigits.getD n 0 := by decide
  exact htable ⟨n, hn⟩

/-- The text that the loop leaves is that string. -/
theorem hexText_eq_hexString (delim : UInt8) (raw : List UInt8) :
    hexText delim raw = hexString delim raw := by
  induction raw with
  | nil => rfl
  | cons c raw ih =>
    obtain ⟨hhigh, hlow⟩ := digits_lt c
    have hpair : [hexOctet (c.toNat / 16), hexOctet (c.toNat % 16)] = hexPair c := by
      rw [hexOctet_eq hhigh, hexOctet_eq hlow, hexPair]
    cases raw with
    | nil => exact hpair.trans List.intercalate_singleton.symm
    | cons c' raw =>
      rw [hexText_cons_cons, ih, hexString_cons_cons, ← hpair]
      rfl

/-- The digits of an octet determine it. -/
theorem hexPair_injective : Function.Injective hexPair := by
  intro c c' h
  have htable : ∀ m n : Fin 16, lowerDigits.getD m 0 = lowerDigits.getD n 0 → m = n := by decide
  have hdigit : ∀ {m n : Nat}, m < 16 → n < 16 → lowerDigits.getD m 0 =
      lowerDigits.getD n 0 → m = n :=
    fun hm hn heq => Fin.mk.inj (htable ⟨_, hm⟩ ⟨_, hn⟩ heq)
  obtain ⟨hhigh, htail⟩ := List.cons.inj h
  obtain ⟨hlow, -⟩ := List.cons.inj htail
  have hdiv := hdigit (digits_lt c).1 (digits_lt c').1 hhigh
  have hmod := hdigit (digits_lt c).2 (digits_lt c').2 hlow
  apply UInt8.toNat_inj.1
  omega

/-- Octets in the same number can be read off their string. -/
theorem hexString_inj (delim : UInt8) {raw raw' : List UInt8} (hlen : raw'.length = raw.length)
    (h : hexString delim raw' = hexString delim raw) : raw' = raw := by
  induction raw generalizing raw' with
  | nil => exact List.length_eq_zero_iff.1 hlen
  | cons c raw ih =>
    obtain ⟨c₂, raw₂, rfl⟩ : ∃ c₂ raw₂, raw' = c₂ :: raw₂ :=
      List.exists_cons_of_length_eq_add_one hlen
    have hlen₂ : raw₂.length = raw.length := Nat.succ.inj hlen
    cases raw with
    | nil =>
      obtain rfl := List.length_eq_zero_iff.1 hlen₂
      unfold hexString at h
      rw [List.map_singleton, List.map_singleton, List.intercalate_singleton,
        List.intercalate_singleton] at h
      rw [hexPair_injective h]
    | cons c' raw =>
      obtain ⟨c₂', raw₂, rfl⟩ : ∃ c₂' raw₂', raw₂ = c₂' :: raw₂' :=
        List.exists_cons_of_length_eq_add_one hlen₂
      rw [hexString_cons_cons, hexString_cons_cons] at h
      obtain ⟨hpair, hrest⟩ := List.append_inj h rfl
      rw [hexPair_injective hpair, ih hlen₂ (List.append_cancel_left hrest)]

/-- Every write of a pass lies in the room of the text. -/
theorem hexPass_lt (signed : Bool) (delim : UInt8) {len i : Nat} (hi : i < len) (c : UInt8) :
    ∀ w ∈ hexPass signed delim len i c, w.1 < room delim len := by
  unfold hexPass room width
  by_cases hdelim : delim = 0
  · have hno : ¬ (delim ≠ 0 ∧ i < len - 1) := fun h => h.1 hdelim
    rw [if_neg hno, if_neg (not_not.2 hdelim), if_neg (not_not.2 hdelim)]
    simp only [snprintf, List.cons_append, List.nil_append, List.forall_mem_cons]
    exact ⟨by omega, by omega, by omega, by omega, fun _ hw => nomatch hw⟩
  · rw [if_pos hdelim, if_pos hdelim]
    -- the delimiter is not written after the last octet
    by_cases hlast : i < len - 1
    · rw [if_pos ⟨hdelim, hlast⟩]
      simp only [snprintf, List.cons_append, List.nil_append, List.forall_mem_cons]
      exact ⟨by omega, by omega, by omega, by omega, by omega, by omega, fun _ hw => nomatch hw⟩
    · rw [if_neg fun h => hlast h.2]
      simp only [snprintf, List.cons_append, List.nil_append, List.forall_mem_cons]
      exact ⟨by omega, by omega, by omega, by omega, fun _ hw => nomatch hw⟩

/-- Every write of the loop lies in the room of the text. -/
theorem hexLoop_lt (signed : Bool) (delim : UInt8) {raw : List UInt8} {i len : Nat}
    (hlen : i + raw.length = len) : ∀ w ∈ hexLoop signed delim len i raw, w.1 < room delim len := by
  induction raw generalizing i with
  | nil => exact fun _ hw => nomatch hw
  | cons c raw ih =>
    rw [List.length_cons] at hlen
    intro w hw
    rw [hexLoop, List.mem_append] at hw
    rcases hw with hw | hw
    · exact hexPass_lt signed delim (by omega) c w hw
    · exact ih (by omega) w hw

/-- **`read_hex` formats its octets**: it writes within the room of the text, and leaves there
the NUL-terminated string of the octets in hexadecimal, from which they can be read back. -/
theorem read_hex_formats (signed : Bool) (delim : UInt8) {raw : List UInt8} (hraw : raw ≠ []) :
    (∀ w ∈ readHex signed delim raw, w.1 < room delim raw.length) ∧
      (∀ buf : List UInt8, room delim raw.length ≤ buf.length →
        store buf (readHex signed delim raw) =
          hexString delim raw ++ 0 :: buf.drop (room delim raw.length)) ∧
      (∀ c ∈ hexString delim raw, c ≠ 0) ∧
      ∀ raw', raw'.length = raw.length → hexString delim raw' = hexString delim raw →
        raw' = raw := by
  have htext := hexText_eq_hexString delim raw
  have hroom := length_hexText delim hraw
  refine ⟨hexLoop_lt signed delim (Nat.zero_add _), fun buf hbuf => ?_, ?_,
    fun raw' => hexString_inj delim⟩
  · rw [store_readHex signed delim hraw (by omega), htext, ← hroom, htext]
  · rw [← htext]
    exact hexText_ne_zero delim raw

/-- Two octets and a delimiter, into an array of eight chars. -/
theorem read_hex_formats_two : store (List.replicate 8 0xAA) (readHex true 0x3A [0xFE, 0xED]) =
    "fe:ed".toList.map (fun c => UInt8.ofNat c.toNat) ++ [0, 0xAA, 0xAA] := by
  have hformats := read_hex_formats true 0x3A (show [0xFE, 0xED] ≠ [] by decide)
  exact (hformats.2.1 (List.replicate 8 0xAA) (by decide)).trans (by decide)

end OpenwrtFeed.Lsids
