import Mathlib.Data.List.Induction

/-! # Runs of one element at the end of a list

How many times an element has occurred in a row by the end of a list (`EndsIn`): the
number is determined, one more occurrence makes it longer, and anything else makes it
zero.  `forall_split_cons` takes a statement about every element of a list and those
before it apart, for inductions that go through the list from its head.
-/
namespace OpenwrtFeed
variable {α : Type*} {a x : α} {n m : Nat} {xs : List α}

/-- The list ends in exactly `n` occurrences of `a`. -/
def EndsIn (a : α) (n : Nat) (xs : List α) : Prop :=
  ∃ earlier, xs = earlier ++ List.replicate n a ∧ earlier.getLast? ≠ some a

theorem endsIn_nil : EndsIn a 0 [] := ⟨[], rfl, by simp⟩

/-- One more occurrence makes the run longer. -/
theorem EndsIn.concat_self (h : EndsIn a n xs) : EndsIn a (n + 1) (xs ++ [a]) := by
  obtain ⟨earlier, rfl, hlast⟩ := h
  exact ⟨earlier, by rw [List.append_assoc, ← List.replicate_succ'], hlast⟩

/-- Anything else ends it. -/
theorem endsIn_concat (hne : x ≠ a) : EndsIn a 0 (xs ++ [x]) :=
  ⟨xs ++ [x], by simp, by simpa using hne⟩

theorem EndsIn.of_concat (h : EndsIn a n (xs ++ [x])) :
    (x ≠ a ∧ n = 0) ∨ (x = a ∧ ∃ k, n = k + 1 ∧ EndsIn a k xs) := by
  obtain ⟨earlier, heq, hlast⟩ := h
  cases n with
  | zero =>
    rw [List.replicate_zero, List.append_nil] at heq
    subst heq
    exact Or.inl ⟨by simpa using hlast, rfl⟩
  | succ k =>
    rw [List.replicate_succ', ← List.append_assoc] at heq
    obtain ⟨rfl, hx⟩ := List.append_inj' heq rfl
    exact Or.inr ⟨by simpa using hx, k, rfl, earlier, rfl, hlast⟩

/-- The length of the run is determined. -/
theorem EndsIn.unique (hn : EndsIn a n xs) (hm : EndsIn a m xs) : n = m := by
  induction xs using List.reverseRecOn generalizing n m with
  | nil =>
    obtain ⟨earlier, heq, -⟩ := hn
    obtain ⟨earlier', heq', -⟩ := hm
    simp_all
  | append_singleton xs x ih =>
    rcases hn.of_concat with ⟨hne, rfl⟩ | ⟨rfl, k, rfl, hk⟩
    · rcases hm.of_concat with ⟨-, rfl⟩ | ⟨rfl, -⟩
      · rfl
      · exact absurd rfl hne
    · rcases hm.of_concat with ⟨hne, -⟩ | ⟨-, k', rfl, hk'⟩
      · exact absurd rfl hne
      · rw [ih hk hk']

theorem forall_split_nil {Q : List α → α → Prop} :
    ∀ before y after, [] = before ++ y :: after → Q before y := by
  intro before y after heq
  simp at heq

/-- A statement about every element and those before it, at the head of a list. -/
theorem forall_split_cons {Q : List α → α → Prop} :
    (∀ before y after, x :: xs = before ++ y :: after → Q before y) ↔
      Q [] x ∧ ∀ before y after, xs = before ++ y :: after → Q (x :: before) y := by
  constructor
  · intro h
    refine ⟨h [] x xs rfl, ?_⟩
    rintro before y after rfl
    exact h (x :: before) y after rfl
  · rintro ⟨hhead, htail⟩ before y after heq
    cases before with
    | nil =>
      obtain ⟨rfl, -⟩ := List.cons.inj heq
      exact hhead
    | cons z before =>
      obtain ⟨rfl, htl⟩ := List.cons.inj heq
      exact htail before y after htl

end OpenwrtFeed
