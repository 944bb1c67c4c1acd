import Mathlib.Data.List.Basic

/-! # Bit-serial check sequences

A check sequence is defined bit by bit: the register is shifted, and the polynomial is
added whenever the bit that leaves it and the bit that comes in differ (`run`).  Programs
turn the register around, so that it is shifted towards its low end (`runDown`), and read
several bits at a time through a table.  Both come to the same: the one register is the
other in reverse (`reverse_runDown`), and `k` bits at a time shift the register by `k` and
add an entry that depends on the low `k` bits alone (`runDown_lowBits`).
-/
namespace OpenwrtFeed.BitSerial
variable {w : Nat} (poly : BitVec w)

/-- The next bit, into a register that is shifted towards its high end. -/
def shiftIn (r : BitVec w) (b : Bool) : BitVec w :=
  if r.msb ^^ b then (r <<< 1) ^^^ poly else r <<< 1

/-- The register after a message. -/
def run (r : BitVec w) (bits : List Bool) : BitVec w := bits.foldl (shiftIn poly) r

/-- The next bit, into a register that is shifted towards its low end. -/
def shiftInDown (r : BitVec w) (b : Bool) : BitVec w :=
  if r.getLsbD 0 ^^ b then (r >>> 1) ^^^ poly else r >>> 1

/-- The register after a message, shifted towards its low end. -/
def runDown (r : BitVec w) (bits : List Bool) : BitVec w := bits.foldl (shiftInDown poly) r

/-- The bits of a word, the most significant one first. -/
def msbFirst (x : BitVec w) : List Bool := (List.range w).map x.getMsbD

/-- The lowest `k` bits of a word, the least significant one first. -/
def lowBits (k : Nat) (x : BitVec w) : List Bool := (List.range k).map x.getLsbD

@[simp] theorem runDown_nil (r : BitVec w) : runDown poly r [] = r := rfl

@[simp] theorem runDown_cons (r : BitVec w) (b : Bool) (bits : List Bool) :
    runDown poly r (b :: bits) = runDown poly (shiftInDown poly r b) bits := rfl

theorem runDown_append (r : BitVec w) (bits bits' : List Bool) :
    runDown poly r (bits ++ bits') = runDown poly (runDown poly r bits) bits' := List.foldl_append

/-! ## In reverse -/

theorem reverse_xor (x y : BitVec w) : (x ^^^ y).reverse = x.reverse ^^^ y.reverse := by
  apply BitVec.eq_of_getLsbD_eq
  intro i hi
  simp [BitVec.getLsbD_reverse, BitVec.getMsbD_xor]

theorem reverse_half (x : BitVec w) : (x >>> 1).reverse = x.reverse <<< 1 := by
  apply BitVec.eq_of_getMsbD_eq
  intro i hi
  rw [BitVec.getMsbD_reverse, BitVec.getMsbD_shiftLeft, BitVec.getMsbD_reverse,
    BitVec.getLsbD_ushiftRight, Nat.add_comm]

/-- **One bit, in reverse.** -/
theorem reverse_shiftInDown (r : BitVec w) (b : Bool) :
    (shiftInDown poly r b).reverse = shiftIn poly.reverse r.reverse b := by
  unfold shiftInDown shiftIn
  rw [BitVec.msb_reverse]
  split
  · rw [reverse_xor, reverse_half]
  · exact reverse_half r

/-- **A message, in reverse.** -/
theorem reverse_runDown (r : BitVec w) (bits : List Bool) :
    (runDown poly r bits).reverse = run poly.reverse r.reverse bits := by
  induction bits generalizing r with
  | nil => rfl
  | cons b bits ih =>
    rw [runDown_cons, ih, reverse_shiftInDown]
    rfl

/-- The bits of a word in reverse are its bits, the least significant one first. -/
theorem msbFirst_reverse (x : BitVec w) : msbFirst x.reverse = lowBits w x := by
  unfold msbFirst lowBits
  exact List.map_congr_left fun i _ => BitVec.getMsbD_reverse

/-! ## Several bits at a time -/

theorem lowBits_succ (k : Nat) (x : BitVec w) :
    lowBits (k + 1) x = x.getLsbD 0 :: lowBits k (x >>> 1) := by
  unfold lowBits
  rw [List.range_succ_eq_map, List.map_cons, List.map_map]
  congr 1
  refine List.map_congr_left fun i _ => ?_
  show x.getLsbD (i + 1) = _
  rw [BitVec.getLsbD_ushiftRight, Nat.add_comm]

theorem lowBits_add (k l : Nat) (x : BitVec w) :
    lowBits (k + l) x = lowBits k x ++ lowBits l (x >>> k) := by
  unfold lowBits
  rw [List.range_add, List.map_append, List.map_map]
  congr 1
  exact List.map_congr_left fun i _ => (BitVec.getLsbD_ushiftRight x k i).symm

/-- A bit that comes in may as well be added to the register first. -/
theorem shiftInDown_eq (r x : BitVec w) :
    shiftInDown poly r (x.getLsbD 0) = shiftInDown poly (r ^^^ x) false ^^^ (x >>> 1) := by
  have hhalf : r >>> 1 = ((r ^^^ x) >>> 1) ^^^ (x >>> 1) := by
    rw [BitVec.ushiftRight_xor_distrib, BitVec.xor_assoc, BitVec.xor_self, BitVec.xor_zero]
  unfold shiftInDown
  rw [Bool.xor_false, BitVec.getLsbD_xor, hhalf]
  split
  · rw [BitVec.xor_assoc, BitVec.xor_assoc, BitVec.xor_comm poly]
  · rfl

/-- The bits that come in may as well be added to the register first. -/
theorem runDown_eq (k : Nat) (r x : BitVec w) :
    runDown poly r (lowBits k x) = runDown poly (r ^^^ x) (List.replicate k false) ^^^
    (x >>> k) := by
  induction k generalizing r x with
  | zero =>
    show r = (r ^^^ x) ^^^ x >>> 0
    rw [BitVec.ushiftRight_zero, BitVec.xor_assoc, BitVec.xor_self, BitVec.xor_zero]
  | succ k ih =>
    rw [lowBits_succ, List.replicate_succ, runDown_cons, runDown_cons, ih, shiftInDown_eq,
      BitVec.xor_assoc _ (x >>> 1), BitVec.xor_self, BitVec.xor_zero, ← BitVec.shiftRight_add,
      Nat.add_comm 1 k]

/-- What lies above the bits that are shifted out is only shifted. -/
theorem runDown_zeros_xor {k : Nat} (r : BitVec w) {y : BitVec w}
    (hy : ∀ i < k, y.getLsbD i = false) :
    runDown poly (r ^^^ y) (List.replicate k false) =
      runDown poly r (List.replicate k false) ^^^ (y >>> k) := by
  induction k generalizing r y with
  | zero => exact congrArg (r ^^^ ·) (BitVec.ushiftRight_zero y).symm
  | succ k ih =>
    have hstep : shiftInDown poly (r ^^^ y) false = shiftInDown poly r false ^^^ (y >>> 1) := by
      unfold shiftInDown
      rw [BitVec.getLsbD_xor, hy 0 (Nat.succ_pos k), Bool.xor_false, Bool.xor_false,
        BitVec.ushiftRight_xor_distrib]
      split
      · rw [BitVec.xor_assoc, BitVec.xor_assoc, BitVec.xor_comm poly]
      · rfl
    have hy' : ∀ i < k, (y >>> 1).getLsbD i = false := by
      intro i hi
      rw [BitVec.getLsbD_ushiftRight]
      exact hy (1 + i) (by omega)
    rw [List.replicate_succ, runDown_cons, runDown_cons, hstep, ih _ hy', ← BitVec.shiftRight_add,
      Nat.add_comm 1 k]

/-- The lowest `k` bits. -/
def low (k : Nat) (x : BitVec w) : BitVec w := (x.setWidth k).setWidth w

theorem getLsbD_low (k : Nat) (x : BitVec w) (i : Nat) :
    (low k x).getLsbD i = (decide (i < k) && x.getLsbD i) := by
  unfold low
  rw [BitVec.getLsbD_setWidth, BitVec.getLsbD_setWidth]
  by_cases hi : i < w
  · simp [hi]
  · simp [hi, BitVec.getLsbD_of_ge x i (Nat.le_of_not_lt hi)]

/-- **`k` bits at a time**: the register is shifted by `k`, and what is added to it depends
on its lowest `k` bits and those that come in. -/
theorem runDown_lowBits (k : Nat) (r x : BitVec w) :
    runDown poly r (lowBits k x) =
      (r >>> k) ^^^ runDown poly (low k (r ^^^ x)) (List.replicate k false) := by
  obtain ⟨z, hz⟩ : ∃ z, r ^^^ x = z := ⟨_, rfl⟩
  have hsplit : z = low k z ^^^ (z ^^^ low k z) := by
    rw [BitVec.xor_comm z, ← BitVec.xor_assoc, BitVec.xor_self, BitVec.zero_xor]
  have hhigh : ∀ i < k, (z ^^^ low k z).getLsbD i = false := by
    intro i hi
    simp [getLsbD_low, hi]
  have hout : low k z >>> k = 0#w := by
    apply BitVec.eq_of_getLsbD_eq
    intro i hi
    have hki : ¬ k + i < k := by omega
    rw [BitVec.getLsbD_ushiftRight, getLsbD_low, decide_eq_false hki, Bool.false_and,
      BitVec.getLsbD_zero]
  have hr : r >>> k = (z >>> k) ^^^ (x >>> k) := by
    rw [← hz, BitVec.ushiftRight_xor_distrib, BitVec.xor_assoc, BitVec.xor_self, BitVec.xor_zero]
  rw [runDown_eq, hz, hr]
  conv => lhs; rw [hsplit]
  rw [runDown_zeros_xor poly _ hhigh, BitVec.ushiftRight_xor_distrib, hout, BitVec.xor_zero,
    BitVec.xor_assoc, BitVec.xor_comm]

end OpenwrtFeed.BitSerial
