import Mathlib.Algebra.Order.Ring.Nat
import Mathlib.Logic.Relation

/-! # How long a run can go on between events

A step of a run is an event, or it lowers a rank, as long as the run has not come to its goal.
When the rank is bounded, a run that is long enough for its events comes to the goal
(`reaches_of_rank`): between two events there are no more steps than the rank allows.

When it is not the run but somebody who looks for a way on that lowers the rank, there is a run
to the goal (`exists_goal_of_lowering`).
-/
namespace OpenwrtFeed

section
variable {σ ι : Type*} (step : σ → ι → σ)

/-- Every step of a run meets a condition on the state before it. -/
def Along (ok : σ → ι → Prop) : List ι → σ → Prop
  | [], _ => True
  | i :: is, s => ok s i ∧ Along ok is (step s i)

/-- The number of steps of a run at which there is an event. -/
def eventCount (event : σ → ι → Bool) : List ι → σ → Nat
  | [], _ => 0
  | i :: is, s => (event s i).toNat + eventCount event is (step s i)

theorem along_of_forall {ok : σ → ι → Prop} (h : ∀ s i, ok s i) : ∀ is s, Along step ok is s
  | [], _ => trivial
  | i :: is, s => ⟨h s i, along_of_forall h is (step s i)⟩

variable {step} {event : σ → ι → Bool} {inv goal : σ → Prop} {ok : σ → ι → Prop} {rank : σ → Nat}
  {bound : Nat}

/-- **A run that is long enough reaches the goal**, if every step keeps the invariant, and lowers
the rank unless it is an event or starts at the goal. -/
theorem reaches_of_rank (hstep : ∀ s i, inv s → ok s i → inv (step s i))
    (hrank : ∀ s i, inv s → ok s i → event s i = false → goal s ∨ rank (step s i) < rank s)
    (hbound : ∀ s, inv s → rank s ≤ bound) {is : List ι} {s : σ} (hok : Along step ok is s)
    (hs : inv s) (hlong : rank s + eventCount step event is s * (bound + 1) < is.length) :
    ∃ front back, is = front ++ back ∧
      front.length ≤ rank s + eventCount step event is s * (bound + 1) ∧
      inv (front.foldl step s) ∧ goal (front.foldl step s) ∧
        Along step ok back (front.foldl step s) := by
  induction is generalizing s with
  | nil => exact absurd hlong (Nat.not_lt_zero _)
  | cons i is ih =>
    obtain ⟨hi, his⟩ := hok
    by_cases hgoal : goal s
    · exact ⟨[], i :: is, rfl, Nat.zero_le _, hs, hgoal, hi, his⟩
    · have hs' := hstep s i hs hi
      -- what is left of the bound pays for the rest of the run
      have hless : 1 + (rank (step s i) + eventCount step event is (step s i) * (bound + 1)) ≤
          rank s + eventCount step event (i :: is) s * (bound + 1) := by
        rw [eventCount]
        cases hev : event s i with
        | false =>
          have hlower := (hrank s i hs hi hev).resolve_left hgoal
          rw [Bool.toNat_false, Nat.zero_add]
          omega
        | true =>
          have hafter := hbound _ hs'
          rw [Bool.toNat_true, Nat.add_mul, Nat.one_mul]
          omega
      rw [List.length_cons] at hlong
      obtain ⟨front, back, rfl, hfront, hrest⟩ := ih his hs' (by omega)
      exact ⟨i :: front, back, rfl, by rw [List.length_cons]; omega, hrest⟩

/-- **A run is bounded by its events**, if there is no goal. -/
theorem length_le_of_rank (hstep : ∀ s i, inv s → ok s i → inv (step s i))
    (hrank : ∀ s i, inv s → ok s i → event s i = false → rank (step s i) < rank s)
    (hbound : ∀ s, inv s → rank s ≤ bound) {is : List ι} {s : σ} (hok : Along step ok is s)
    (hs : inv s) :
    is.length ≤ rank s + eventCount step event is s * (bound + 1) := by
  refine Nat.le_of_not_lt fun hlong => ?_
  obtain ⟨-, -, -, -, -, hgoal, -⟩ :=
    @reaches_of_rank σ ι step event inv (fun _ => False) ok rank bound hstep
    (fun s i hs hi hev => Or.inr (hrank s i hs hi hev)) hbound is s hok hs hlong
  exact hgoal

end

/-- **A rank that can be lowered as long as the goal is out of sight** leads to the goal. -/
theorem exists_goal_of_lowering {σ : Type*} {step : σ → σ → Prop} {inv goal : σ → Prop}
    {rank : σ → Nat} (hlower : ∀ s, inv s → ∃ s', Relation.ReflTransGen step s s' ∧
      (goal s' ∨ inv s' ∧ rank s' < rank s))
    {s : σ} (hs : inv s) : ∃ s', Relation.ReflTransGen step s s' ∧ goal s' := by
  generalize hn : rank s = n
  induction n using Nat.strong_induction_on generalizing s with
  | _ n ih =>
    obtain ⟨s', hrun, hgoal | ⟨hs', hless⟩⟩ := hlower s hs
    · exact ⟨s', hrun, hgoal⟩
    · obtain ⟨s'', hrun', hgoal⟩ := ih _ (hn ▸ hless) hs' rfl
      exact ⟨s'', hrun.trans hrun', hgoal⟩

end OpenwrtFeed
