import Mathlib.Data.List.Basic
import Mathlib.Logic.Function.Basic

/-! # Check registers

A check sequence is the state of a register after the symbols of a word.  When one
symbol never confuses two states, and two symbols in a row are told apart by the
state they lead to, the register detects every **burst**: two words that differ in at
most two consecutive places lead to different states (`CheckRegister.eq_of_burst`).
-/
namespace OpenwrtFeed

/-! ## Bursts -/

/-- The words differ in the `k` places from `i` on at most. -/
def ConfinedTo {α : Type} (i k : Nat) (xs ys : List α) : Prop :=
  ys.length = xs.length ∧ ys.take i = xs.take i ∧ ys.drop (i + k) = xs.drop (i + k)

instance {α : Type} [DecidableEq α] (i k : Nat) (xs ys : List α) :
    Decidable (ConfinedTo i k xs ys) :=
  inferInstanceAs (Decidable (_ ∧ _))

namespace ConfinedTo
variable {α : Type} {i k : Nat} {xs ys : List α}

/-- Below a burst the words agree. -/
theorem take_eq (h : ConfinedTo i k xs ys) {n : Nat} (hn : n ≤ i) : ys.take n = xs.take n := by
  have := congrArg (List.take n) h.2.1
  rwa [List.take_take, List.take_take, Nat.min_eq_left hn] at this

/-- Beyond a burst the words agree. -/
theorem drop_eq (h : ConfinedTo i k xs ys) {n : Nat} (hn : i + k ≤ n) : ys.drop n = xs.drop n := by
  have := congrArg (List.drop (n - (i + k))) h.2.2
  rwa [List.drop_drop, List.drop_drop, Nat.add_sub_cancel' hn] at this

theorem getElem?_eq (h : ConfinedTo i k xs ys) {j : Nat} (hj : j < i ∨ i + k ≤ j) :
    ys[j]? = xs[j]? := by
  rcases hj with hj | hj
  · have := congrArg (·[j]?) (h.take_eq (Nat.succ_le_of_lt hj))
    simpa [List.getElem?_take] using this
  · have := congrArg (·[0]?) (h.drop_eq hj)
    simpa [List.getElem?_drop] using this

/-- A burst inside a beginning of the words. -/
theorem take (h : ConfinedTo i k xs ys) (n : Nat) : ConfinedTo i k (xs.take n) (ys.take n) := by
  refine ⟨by simp [h.1], ?_, ?_⟩
  · rw [List.take_take, List.take_take, Nat.min_comm, ← List.take_take, ← List.take_take, h.2.1]
  · rw [List.drop_take, List.drop_take, h.2.2]

/-- The words are cut at the two ends of the burst. -/
theorem split (h : ConfinedTo i k xs ys) :
    ∃ u x y v, xs = u ++ (x ++ v) ∧ ys = u ++ (y ++ v) ∧ x.length = y.length ∧ x.length ≤ k := by
  refine ⟨xs.take i, (xs.drop i).take k, (ys.drop i).take k, xs.drop (i + k), ?_, ?_, ?_, ?_⟩
  · rw [← List.drop_drop, List.take_append_drop, List.take_append_drop]
  · rw [← h.2.2, ← h.2.1, ← List.drop_drop, List.take_append_drop, List.take_append_drop]
  · simp [h.1]
  · rw [List.length_take]
    exact Nat.min_le_left _ _

end ConfinedTo

/-! ## Registers -/

/-- A register that reads a word symbol by symbol. -/
structure CheckRegister (σ α : Type) where
  step : α → σ → σ
  /-- No symbol confuses two states. -/
  step_injective : ∀ a, Function.Injective (step a)
  /-- Two symbols in a row can be read off the state they lead to. -/
  pair_injective : ∀ s, Function.Injective fun ab : α × α => step ab.2 (step ab.1 s)

namespace CheckRegister
variable {σ α : Type} (r : CheckRegister σ α)

/-- The state after a word. -/
def run (s : σ) (xs : List α) : σ := xs.foldl (fun s a => r.step a s) s

@[simp] theorem run_nil (s : σ) : r.run s [] = s := rfl

@[simp] theorem run_cons (s : σ) (x : α) (xs : List α) :
    r.run s (x :: xs) = r.run (r.step x s) xs := rfl

theorem run_append (s : σ) (xs ys : List α) : r.run s (xs ++ ys) = r.run (r.run s xs) ys :=
  List.foldl_append

/-- A word never brings two states together. -/
theorem run_injective (xs : List α) : Function.Injective fun s => r.run s xs := by
  induction xs with
  | nil => exact fun _ _ h => h
  | cons x xs ih => exact fun _ _ h => r.step_injective x (ih h)

/-- One symbol can be read off the state it leads to. -/
theorem symbol_injective (s : σ) : Function.Injective fun a => r.step a s := by
  intro a b h
  have hpair : (a, a) = (b, a) := r.pair_injective s (congrArg (r.step a) h)
  exact congrArg Prod.fst hpair

/-- Words of at most two symbols can be read off the state they lead to. -/
theorem eq_of_short {s : σ} {xs ys : List α} (hlen : xs.length = ys.length) (htwo : xs.length ≤ 2)
    (h : r.run s xs = r.run s ys) : xs = ys := by
  match xs, ys, hlen with
  | [], [], _ => rfl
  | [x], [y], _ => rw [r.symbol_injective s (show r.step x s = r.step y s from h)]
  | [x, x'], [y, y'], _ =>
    have hpair : (x, x') = (y, y') := r.pair_injective s h
    rw [(Prod.mk.inj hpair).1, (Prod.mk.inj hpair).2]
  | _ :: _ :: _ :: _, _, _ => simp at htwo

/-- **Every burst is detected**: words that lead to the same state do not differ in two
consecutive places only. -/
theorem eq_of_burst {s : σ} {i k : Nat} {xs ys : List α} (hk : k ≤ 2) (hconf : ConfinedTo i k xs ys)
    (h : r.run s xs = r.run s ys) : xs = ys := by
  obtain ⟨u, x, y, v, rfl, rfl, hlen, hshort⟩ := hconf.split
  rw [r.run_append, r.run_append, r.run_append, r.run_append] at h
  have hburst : r.run (r.run s u) x = r.run (r.run s u) y := r.run_injective v h
  rw [r.eq_of_short hlen (Nat.le_trans hshort hk) hburst]

end CheckRegister
end OpenwrtFeed
