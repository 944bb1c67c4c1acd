import Mathlib.Data.List.Basic

/-! # Programs that read a memory

A program over a memory comes to a value and to the addresses it has read.  Programs are
composed in a monad; where all the reads lie below a bound, and what the value is, is then
a matter of the parts.
-/
namespace OpenwrtFeed

/-- The addresses that a program has read, in order, and its value. -/
structure Traced (α : Type) where
  reads : List Nat
  value : α

namespace Traced
variable {α β : Type}

instance : Monad Traced where
  pure a := ⟨[], a⟩
  bind x f := ⟨x.reads ++ (f x.value).reads, (f x.value).value⟩

@[simp] theorem pure_value (a : α) : (pure a : Traced α).value = a := rfl

@[simp] theorem bind_value (x : Traced α) (f : α → Traced β) :
    (x >>= f).value = (f x.value).value := rfl

/-- All the reads lie below the bound. -/
def Below (n : Nat) (x : Traced α) : Prop := ∀ p ∈ x.reads, p < n

@[simp] theorem below_pure (n : Nat) (a : α) : (pure a : Traced α).Below n :=
  fun _ h => (by cases h)

@[simp] theorem below_bind {n : Nat} {x : Traced α} {f : α → Traced β} :
    (x >>= f).Below n ↔ x.Below n ∧ (f x.value).Below n := List.forall_mem_append

/-- One cell. -/
def cell (memory : Nat → β) (p : Nat) : Traced β := ⟨[p], memory p⟩

/-- Cells in a row. -/
def cells (memory : Nat → β) (p count : Nat) : Traced (List β) :=
  ⟨List.range' p count, (List.range' p count).map memory⟩

@[simp] theorem cell_value (memory : Nat → β) (p : Nat) : (cell memory p).value = memory p := rfl

@[simp] theorem cells_value (memory : Nat → β) (p count : Nat) :
    (cells memory p count).value = (List.range' p count).map memory := rfl

@[simp] theorem below_cell {memory : Nat → β} {n p : Nat} : (cell memory p).Below n ↔ p < n :=
  List.forall_mem_singleton

theorem below_cells {memory : Nat → β} {n p count : Nat} :
    (cells memory p count).Below n ↔ count = 0 ∨ p + count ≤ n := by
  constructor
  · intro h
    by_cases hcount : count = 0
    · exact Or.inl hcount
    · have hlast := h (p + (count - 1)) (List.mem_range'_1.2 (by omega))
      exact Or.inr (by omega)
  · intro h q hq
    have hbounds := List.mem_range'_1.1 hq
    omega

end Traced

end OpenwrtFeed
