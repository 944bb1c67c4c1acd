import Mathlib.Data.List.Infix

/-! # Streams that several writers share

The frames of two writers reach one reader merged into one sequence, and as the octets of
one stream.  What one of the writers has written can be told from the merged sequence if the
other's frames can be told apart (`Merged.filter`), and the sequence from the octets if no
frame is the beginning of another one (`PrefixCode.prefix_of_flatMap`).
-/
namespace OpenwrtFeed

/-- The sequence `l` consists of `a` and `b`, each in its own order. -/
inductive Merged {α : Type*} : List α → List α → List α → Prop
  | nil : Merged [] [] []
  | left {a b l : List α} (x : α) : Merged a b l → Merged (x :: a) b (x :: l)
  | right {a b l : List α} (y : α) : Merged a b l → Merged a (y :: b) (y :: l)

namespace Merged
variable {α : Type*} {a b l : List α}

/-- One of the two, by a property that the other does not have. -/
theorem filter (h : Merged a b l) {p : α → Bool} (hb : ∀ y ∈ b, p y = false) :
    l.filter p = a.filter p := by
  induction h with
  | nil => rfl
  | left x _ ih => rw [List.filter_cons, List.filter_cons, ih hb]
  | right y _ ih =>
    obtain ⟨hy, hb⟩ := List.forall_mem_cons.1 hb
    rw [List.filter_cons, hy, ih hb]
    rfl

/-- A reader of a part of the sequence misses what comes before that part, and nothing in it. -/
theorem prefix_filter {before own after seen : List α} (h : Merged a b (before ++ own ++ after))
    {p : α → Bool} (hb : ∀ y ∈ b, p y = false) (hseen : seen <+: own) :
    before.filter p ++ seen.filter p <+: a.filter p := by
  obtain ⟨rest, rfl⟩ := hseen
  rw [← h.filter hb, List.append_assoc, List.append_assoc, List.filter_append, List.filter_append]
  exact (List.prefix_append_right_inj _).2 (List.prefix_append _ _)

theorem forall_mem (h : Merged a b l) {P : α → Prop} (ha : ∀ x ∈ a, P x) (hb : ∀ y ∈ b, P y) :
    ∀ x ∈ l, P x := by
  induction h with
  | nil => exact fun _ hx => (nomatch hx)
  | left x _ ih =>
    obtain ⟨hx, ha⟩ := List.forall_mem_cons.1 ha
    exact List.forall_mem_cons.2 ⟨hx, ih ha hb⟩
  | right y _ ih =>
    obtain ⟨hy, hb⟩ := List.forall_mem_cons.1 hb
    exact List.forall_mem_cons.2 ⟨hy, ih ha hb⟩

end Merged

/-- The code words of the elements that satisfy `ok` are not empty, and none of them is the
beginning of another one. -/
structure PrefixCode {α β : Type*} (f : α → List β) (ok : α → Prop) : Prop where
  nonempty : ∀ a, f a ≠ []
  free : ∀ a b s t, ok a → ok b → f a ++ s = f b ++ t → a = b

/-- **A beginning of the stream is the stream of a beginning**, if it ends between two code
words. -/
theorem PrefixCode.prefix_of_flatMap {α β : Type*} {f : α → List β} {ok : α → Prop}
    (hf : PrefixCode f ok) {as bs : List α} (has : ∀ a ∈ as, ok a) (hbs : ∀ b ∈ bs, ok b)
    (h : as.flatMap f <+: bs.flatMap f) :
    as <+: bs := by
  induction as generalizing bs with
  | nil => exact List.nil_prefix
  | cons a as ih =>
    obtain ⟨ha, has⟩ := List.forall_mem_cons.1 has
    cases bs with
    | nil =>
      rw [List.flatMap_cons, List.flatMap_nil, List.prefix_nil, List.append_eq_nil_iff] at h
      exact absurd h.1 (hf.nonempty a)
    | cons b bs =>
      obtain ⟨hb, hrest⟩ := List.forall_mem_cons.1 hbs
      rw [List.flatMap_cons, List.flatMap_cons] at h
      obtain ⟨t, ht⟩ := h
      rw [List.append_assoc] at ht
      obtain rfl := hf.free a b _ _ ha hb ht
      exact (List.prefix_cons_inj a).2 (ih has hrest ⟨t, List.append_cancel_left ht⟩)

end OpenwrtFeed
