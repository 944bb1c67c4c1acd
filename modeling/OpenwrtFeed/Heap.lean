import Mathlib.Data.Multiset.ZeroCons
import Mathlib.Data.Multiset.UnionInter

/-! # Blocks of memory and who owns them

A heap says which addresses are those of live blocks, and what the blocks hold.  An access or
a `free` has no result when the block is not live, and an access has none when it goes beyond
the end of the block.

`Owns` says that the owners together hold every live block, each once.  The rules keep it
through the operations, and an owner that has the block at hand can always go on.
-/
namespace OpenwrtFeed

/-- The contents of the live blocks, by address. -/
abbrev Heap (κ α : Type*) := κ → Option (List α)

namespace Heap
variable {κ α : Type*}

/-- No block is live. -/
def empty : Heap κ α := fun _ => none

/-- The first `n` elements of a live block. -/
def read (p : κ) (n : Nat) (heap : Heap κ α) : Option (List α) :=
  (heap p).bind fun block => if n ≤ block.length then some (block.take n) else none

/-- The live blocks are those of `owned`, and no block is there twice. -/
structure Owns (heap : Heap κ α) (owned : Multiset κ) : Prop where
  nodup : owned.Nodup
  live : ∀ p, p ∈ owned ↔ heap p ≠ none

section Owners
variable {heap : Heap κ α} {owned : Multiset κ} {p : κ} {block : List α}

theorem owns_empty : Owns (empty : Heap κ α) 0 where
  nodup := Multiset.nodup_zero
  live p := by simp [empty]

/-- A block read to its end. -/
theorem read_all (h : heap p = some block) : heap.read p block.length = some block := by
  rw [read, h, Option.bind_some, if_pos (Nat.le_refl _), List.take_length]

/-- An owner does not hold a block that another one holds. -/
theorem Owns.ne_of_mem (h : Owns heap (p ::ₘ owned)) {q : κ} (hq : q ∈ owned) : q ≠ p := by
  rintro rfl
  exact (Multiset.nodup_cons.1 h.nodup).1 hq

theorem Owns.exists_block (h : Owns heap owned) (hp : p ∈ owned) : ∃ block, heap p = some block :=
  Option.ne_none_iff_exists'.1 ((h.live p).1 hp)

end Owners

variable [DecidableEq κ]

/-- A block becomes live. -/
def alloc (p : κ) (block : List α) (heap : Heap κ α) : Heap κ α :=
  Function.update heap p (some block)

/-- A live block is given back. -/
def free (p : κ) (heap : Heap κ α) : Option (Heap κ α) :=
  (heap p).map fun _ => Function.update heap p none

/-- The first elements of a live block are replaced. -/
def write (p : κ) (l : List α) (heap : Heap κ α) : Option (Heap κ α) :=
  (heap p).bind fun block =>
    if l.length ≤ block.length then
      some (Function.update heap p (some (l ++ block.drop l.length)))
    else none

section Rules
variable {heap : Heap κ α} {owned : Multiset κ} {p : κ} {block l : List α}

theorem alloc_self : heap.alloc p block p = some block := Function.update_self _ _ _

namespace Owns

/-- Another block is not changed. -/
theorem alloc_of_mem (h : Owns heap owned) (hp : heap p = none) {q : κ} (hq : q ∈ owned) :
    heap.alloc p block q = heap q := by
  refine Function.update_of_ne ?_ _ _
  rintro rfl
  exact (h.live q).1 hq hp

/-- A new block gets an owner. -/
theorem alloc (h : Owns heap owned) (hp : heap p = none) :
    Owns (heap.alloc p block) (p ::ₘ owned) where
  nodup := Multiset.nodup_cons.2 ⟨fun hmem => (h.live p).1 hmem hp, h.nodup⟩
  live q := by
    rw [Multiset.mem_cons, h.live]
    by_cases hq : q = p
    · simp [hq, alloc_self]
    · simp [hq, Heap.alloc]

/-- An owner can give its block back. -/
theorem free (h : Owns heap (p ::ₘ owned)) :
    ∃ heap', heap.free p = some heap' ∧ Owns heap' owned ∧ ∀ q ∈ owned, heap' q = heap q := by
  obtain ⟨block, hblock⟩ := h.exists_block (Multiset.mem_cons_self p owned)
  obtain ⟨hnot, hnodup⟩ := Multiset.nodup_cons.1 h.nodup
  have hother : ∀ q ∈ owned, Function.update heap p none q = heap q := fun q hq =>
    Function.update_of_ne (h.ne_of_mem hq) _ _
  refine ⟨Function.update heap p none, by rw [Heap.free, hblock]; rfl,
    ⟨hnodup, fun q => ?_⟩, hother⟩
  by_cases hq : q = p
  · subst hq
    simp [hnot]
  · have hlive := h.live q
    rw [Multiset.mem_cons] at hlive
    rw [Function.update_of_ne hq, ← hlive]
    exact (or_iff_right hq).symm

/-- An owner can write to its block, as far as the block reaches. -/
theorem write (h : Owns heap (p ::ₘ owned)) (hblock : heap p = some block)
    (hl : l.length ≤ block.length) :
    ∃ heap', heap.write p l = some heap' ∧ Owns heap' (p ::ₘ owned) ∧
      heap' p = some (l ++ block.drop l.length) ∧ ∀ q ∈ owned, heap' q = heap q := by
  refine ⟨Function.update heap p (some (l ++ block.drop l.length)), ?_, ⟨h.nodup, fun q => ?_⟩,
    Function.update_self _ _ _, fun q hq => Function.update_of_ne (h.ne_of_mem hq) _ _⟩
  · rw [Heap.write, hblock, Option.bind_some, if_pos hl]
  · by_cases hq : q = p
    · subst hq
      simp
    · rw [Function.update_of_ne hq]
      exact h.live q

end Owns
end Rules
end Heap
end OpenwrtFeed
