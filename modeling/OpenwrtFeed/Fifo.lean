import Mathlib.Data.List.Infix

/-! # First in, first out

What a queue does, told by its contents before and after: the elements that have gone in
are those that have come out, in order, followed by those that are still there.  The law
composes, so it is proved of the single calls and then holds of every run of them.
-/
namespace OpenwrtFeed

/-- The contents `xs` become `ys` while `ins` go in at the end and `outs` come out at the
front. -/
def Fifo {α : Type*} (xs ins outs ys : List α) : Prop := xs ++ ins = outs ++ ys

namespace Fifo
variable {α : Type*} {xs ys zs ins outs ins' outs' : List α}

theorem refl (xs : List α) : Fifo xs [] [] xs := List.append_nil xs

theorem push (xs : List α) (x : α) : Fifo xs [x] [] (xs ++ [x]) := rfl

theorem pop (x : α) (xs : List α) : Fifo (x :: xs) [] [x] xs := List.append_nil (x :: xs)

theorem trans (h : Fifo xs ins outs ys) (h' : Fifo ys ins' outs' zs) :
    Fifo xs (ins ++ ins') (outs ++ outs') zs :=
  calc xs ++ (ins ++ ins')
    _ = (outs ++ ys) ++ ins' := by rw [← List.append_assoc, h]
    _ = outs ++ (outs' ++ zs) := by rw [List.append_assoc, h']
    _ = (outs ++ outs') ++ zs := (List.append_assoc _ _ _).symm

/-- **Nothing is lost or made up**: the numbers agree. -/
theorem length_eq (h : Fifo xs ins outs ys) : xs.length + ins.length = outs.length + ys.length := by
  have hlen := congrArg List.length h
  simpa only [List.length_append] using hlen

/-- **First in, first out**: from an empty queue, the `n`-th element out is the `n`-th one
in. -/
theorem getElem?_eq (h : Fifo [] ins outs ys) {n : Nat} (hn : n < outs.length) :
    outs[n]? = ins[n]? := by
  have hins : ins = outs ++ ys := h
  rw [hins, List.getElem?_append_left hn]

end Fifo

end OpenwrtFeed
