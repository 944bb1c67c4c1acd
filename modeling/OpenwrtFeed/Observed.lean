import Mathlib.Data.List.Basic

/-! # Programs under observation

A program comes to a value, and to the events that could be observed on the way.  Programs
are composed in a monad.  `Meets P Q` says that every event satisfies `P` and the value `Q`;
its rules follow the shape of the program, as those of pre- and postconditions do, the
precondition being what is known where the rule is used.
-/
namespace OpenwrtFeed

/-- The events of a program, in order, and its value. -/
structure Observed (ε α : Type) where
  events : List ε
  value : α

namespace Observed
variable {ε α β : Type}

instance : Monad (Observed ε) where
  pure a := ⟨[], a⟩
  bind x f := ⟨x.events ++ (f x.value).events, (f x.value).value⟩

/-- One event. -/
def event (v : ε) : Observed ε Unit := ⟨[v], ()⟩

/-! ## Values -/

@[simp] theorem pure_value (a : α) : (pure a : Observed ε α).value = a := rfl

@[simp] theorem bind_value (x : Observed ε α) (f : α → Observed ε β) :
    (x >>= f).value = (f x.value).value := rfl

theorem ite_value (c : Prop) [Decidable c] (x y : Observed ε α) :
    (if c then x else y).value = if c then x.value else y.value := apply_ite value c x y

/-- A loop comes to the value of the loop over the values. -/
theorem foldlM_value (f : β → α → Observed ε β) (init : β) (l : List α) :
    (l.foldlM f init).value = l.foldl (fun b a => (f b a).value) init := by
  induction l generalizing init with
  | nil => rfl
  | cons a l ih => exact ih (f init a).value

/-! ## Events and values -/

/-- Every event satisfies `P`, and the value `Q`. -/
structure Meets (P : ε → Prop) (Q : α → Prop) (x : Observed ε α) : Prop where
  events : ∀ v ∈ x.events, P v
  value : Q x.value

namespace Meets
variable {P : ε → Prop} {Q : α → Prop} {R : β → Prop}

theorem pure {a : α} (h : Q a) : Meets P Q (Pure.pure a) := ⟨fun _ hv => (nomatch hv), h⟩

theorem event {v : ε} (h : P v) : Meets P (fun _ => True) (event v) :=
  ⟨List.forall_mem_singleton.2 h, trivial⟩

theorem bind {x : Observed ε α} {f : α → Observed ε β} (hx : Meets P Q x)
    (hf : ∀ a, Q a → Meets P R (f a)) : Meets P R (x >>= f) :=
  ⟨List.forall_mem_append.2 ⟨hx.events, (hf _ hx.value).events⟩, (hf _ hx.value).value⟩

theorem mono {Q' : α → Prop} {x : Observed ε α} (hx : Meets P Q x) (h : ∀ a, Q a → Q' a) :
    Meets P Q' x :=
  ⟨hx.events, h _ hx.value⟩

/-- The value itself is known. -/
theorem valued {a : α} {x : Observed ε α} (hx : Meets P Q x) (h : x.value = a) :
    Meets P (fun b => b = a ∧ Q b) x :=
  ⟨hx.events, h, hx.value⟩

theorem ite {c : Prop} [Decidable c] {x y : Observed ε α} (hx : c → Meets P Q x)
    (hy : ¬c → Meets P Q y) : Meets P Q (if c then x else y) := by
  split
  · exact hx ‹_›
  · exact hy ‹_›

/-- An invariant of a loop. -/
theorem foldlM {f : β → α → Observed ε β} {init : β} {l : List α} (hinit : R init)
    (hf : ∀ b, R b → ∀ a ∈ l, Meets P R (f b a)) : Meets P R (l.foldlM f init) := by
  induction l generalizing init with
  | nil => exact pure hinit
  | cons a l ih =>
    refine (hf init hinit a List.mem_cons_self).bind fun b hb => ?_
    exact ih hb fun b hb a ha => hf b hb a (List.mem_cons_of_mem _ ha)

/-- A loop that comes to nothing. -/
theorem forM {f : α → Observed ε PUnit} {l : List α} (hf : ∀ a ∈ l, Meets P (fun _ => True) (f a)) :
    Meets P (fun _ => True) (l.forM f) := by
  induction l with
  | nil => exact pure trivial
  | cons a l ih =>
    refine (hf a List.mem_cons_self).bind fun _ _ => ?_
    exact ih fun a ha => hf a (List.mem_cons_of_mem _ ha)

end Meets
end Observed
end OpenwrtFeed
