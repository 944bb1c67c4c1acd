import Mathlib.Logic.Function.Basic
import Mathlib.Logic.Relation

/-! # Operations under a lock

Threads call operations on a state that they share.  A call waits for the lock, goes through
its statements one at a time, while other threads take their steps in between, and leaves an
answer when it gives the lock back.

Only the thread that holds the lock is inside an operation, and so the calls might as well
have been executed whole, one after the other, in the order in which they have given the lock
back (`Monitor.Reachable.guarded`).
-/
namespace OpenwrtFeed

/-- Operations, statement by statement: `σ` is what the threads share, and `π` says where a
call is and what its local variables hold. -/
structure Monitor (σ γ π α : Type*) where
  /-- Where a call is once it has the lock. -/
  enter : γ → π
  /-- The next statement, unless it cannot be executed. -/
  next : π → σ → Option (π × σ)
  /-- The answer, where the lock is given back. -/
  answer : π → Option α

namespace Monitor
variable {σ γ π α ι : Type*}

/-- Where a thread is. -/
inductive ThreadAt (γ π : Type*)
  | outside
  | waiting (c : γ)
  | inside (c : γ) (l : π)

/-- The threads, what they share, and a record of the calls that have been answered. -/
structure Threads (σ γ π α ι : Type*) where
  shared : σ
  lock : Option ι
  thread : ι → ThreadAt γ π
  answered : List (γ × α)

/-- No call has been made. -/
def Threads.start (s : σ) : Threads σ γ π α ι := ⟨s, none, fun _ => .outside, []⟩

section
variable (m : Monitor σ γ π α)

/-- One statement of a call. -/
def Statement (x y : π × σ) : Prop := m.answer x.1 = none ∧ m.next x.1 x.2 = some y

/-- A whole call, with no step of another thread in between. -/
def Executes (c : γ) (s : σ) (a : α) (s' : σ) : Prop :=
  ∃ l, Relation.ReflTransGen m.Statement (m.enter c, s) (l, s') ∧ m.answer l = some a

/-- What becomes of a call from a place on, within `n` statements and the unlocking. -/
def rest : Nat → π → σ → Option (α × σ)
  | 0, l, s => (m.answer l).map fun a => (a, s)
  | n + 1, l, s =>
    match m.answer l with
    | some a => some (a, s)
    | none => (m.next l s).bind fun x => rest n x.1 x.2

/-- Whole calls one after the other, with their answers. -/
inductive Serial (s : σ) : List (γ × α) → σ → Prop
  | nil : Serial s [] s
  | concat {xs : List (γ × α)} {c : γ} {a : α} {s' s'' : σ} :
      Serial s xs s' → m.Executes c s' a s'' → Serial s (xs ++ [(c, a)]) s''

variable [DecidableEq ι]

/-- A step of one of the threads. -/
inductive Step : Threads σ γ π α ι → Threads σ γ π α ι → Prop
  | call {t : Threads σ γ π α ι} {i : ι} (c : γ) : t.thread i = .outside →
      Step t { t with thread := Function.update t.thread i (.waiting c) }
  | lock {t : Threads σ γ π α ι} {i : ι} {c : γ} : t.thread i = .waiting c → t.lock = none →
      Step t { t with
        lock := some i
        thread := Function.update t.thread i (.inside c (m.enter c)) }
  | statement {t : Threads σ γ π α ι} {i : ι} {c : γ} {l l' : π} {s : σ} :
      t.thread i = .inside c l → m.Statement (l, t.shared) (l', s) →
      Step t { t with
        shared := s
        thread := Function.update t.thread i (.inside c l') }
  | unlock {t : Threads σ γ π α ι} {i : ι} {c : γ} {l : π} {a : α} :
      t.thread i = .inside c l → m.answer l = some a →
      Step t { t with
        lock := none
        thread := Function.update t.thread i .outside
        answered := t.answered ++ [(c, a)] }

/-- What the threads can come to, in any order of their steps. -/
inductive Reachable (s : σ) : Threads σ γ π α ι → Prop
  | start : Reachable s (.start s)
  | step {t t' : Threads σ γ π α ι} : Reachable s t → m.Step t t' → Reachable s t'

/-- What the lock guards: nobody is inside without it, and the calls that have been answered
lead, each executed whole, to the state that the call inside has begun with. -/
structure Guarded (s : σ) (t : Threads σ γ π α ι) (s' : σ) : Prop where
  exclusive : ∀ i c l, t.thread i = .inside c l → t.lock = some i
  serial : m.Serial s t.answered s'
  free : t.lock = none → t.shared = s'
  begun : ∀ i, t.lock = some i → ∃ c l, t.thread i = .inside c l ∧
    Relation.ReflTransGen m.Statement (m.enter c, s') (l, t.shared)

end

section
variable {m : Monitor σ γ π α} {s s' : σ} {t t' : Threads σ γ π α ι}

/-! ## One call -/

/-- A call that is answered from some place on is answered from the next one on. -/
theorem Statement.rest {x y : π × σ} (h : m.Statement x y) {n : Nat} {r : α × σ}
    (hr : m.rest n x.1 x.2 = some r) : ∃ k, n = k + 1 ∧ m.rest k y.1 y.2 = some r := by
  obtain ⟨hanswer, hnext⟩ := h
  cases n with
  | zero =>
    rw [Monitor.rest, hanswer] at hr
    cases hr
  | succ n =>
    rw [Monitor.rest, hanswer] at hr
    refine ⟨n, rfl, ?_⟩
    simpa [hnext] using hr

/-- A call that comes to an answer is never stuck on the way. -/
theorem rest_along {x y : π × σ} (h : Relation.ReflTransGen m.Statement x y) {n : Nat} {r : α × σ}
    (hr : m.rest n x.1 x.2 = some r) : ∃ k ≤ n, m.rest k y.1 y.2 = some r := by
  induction h with
  | refl => exact ⟨n, Nat.le_refl n, hr⟩
  | tail _ hstatement ih =>
    obtain ⟨k, hk, hrest⟩ := ih
    obtain ⟨k', rfl, hrest'⟩ := hstatement.rest hrest
    exact ⟨k', Nat.le_of_succ_le hk, hrest'⟩

/-- Where a call is answered, that is its answer. -/
theorem rest_answer {l : π} {a : α} (h : m.answer l = some a) (n : Nat) (s : σ) :
    m.rest n l s = some (a, s) := by
  cases n <;> simp [rest, h]

/-- **A call has one answer.** -/
theorem Executes.eq {c : γ} {a : α} (h : m.Executes c s a s') {n : Nat} {r : α × σ}
    (hr : m.rest n (m.enter c) s = some r) : r = (a, s') := by
  obtain ⟨l, hrun, hanswer⟩ := h
  obtain ⟨k, -, hk⟩ := rest_along hrun hr
  exact Option.some.inj (hk.symm.trans (rest_answer hanswer k s'))

/-! ## Threads -/

theorem Guarded.start (s : σ) : m.Guarded s (.start s : Threads σ γ π α ι) s where
  exclusive _ _ _ h := nomatch h
  serial := .nil
  free _ := rfl
  begun _ h := nomatch h

/-- The thread inside is the one that holds the lock, wherever it has come to. -/
theorem Guarded.holder (h : m.Guarded s t s') {i : ι} {c : γ} {l : π}
    (hin : t.thread i = .inside c l) :
    t.lock = some i ∧ Relation.ReflTransGen m.Statement (m.enter c, s') (l, t.shared) := by
  have hlock := h.exclusive i c l hin
  obtain ⟨c', l', hin', hrun⟩ := h.begun i hlock
  cases hin.symm.trans hin'
  exact ⟨hlock, hrun⟩

variable [DecidableEq ι]

/-- A thread that is not inside, before or after, changes nothing. -/
theorem Guarded.outside (h : m.Guarded s t s') {i : ι} {x : ThreadAt γ π}
    (hbefore : ∀ c l, t.thread i ≠ .inside c l) (hafter : ∀ c l, x ≠ .inside c l) :
    m.Guarded s { t with thread := Function.update t.thread i x } s' := by
  refine ⟨fun j c l hj => ?_, h.serial, h.free, fun j hj => ?_⟩
  · by_cases hji : j = i
    · subst hji
      exact absurd ((Function.update_self ..).symm.trans hj) (hafter c l)
    · exact h.exclusive j c l ((Function.update_of_ne hji ..).symm.trans hj)
  · obtain ⟨c, l, hin, hrun⟩ := h.begun j hj
    have hji : j ≠ i := fun hji => hbefore c l (hji ▸ hin)
    exact ⟨c, l, (Function.update_of_ne hji ..).trans hin, hrun⟩

/-- **One step** of any thread keeps what the lock guards. -/
theorem Guarded.step (h : m.Guarded s t s') (hstep : m.Step t t') : ∃ s'', m.Guarded s t' s'' := by
  cases hstep with
  | call c hout => exact ⟨s', h.outside (by simp [hout]) (by simp)⟩
  | @lock i c hwait hfree =>
    refine ⟨s', fun j c' l hj => ?_, h.serial, fun hfree' => (nomatch hfree'), fun j hj => ?_⟩
    · by_cases hji : j = i
      · rw [hji]
      · -- nobody was inside, since the lock was free
        have := h.exclusive j c' l ((Function.update_of_ne hji ..).symm.trans hj)
        exact nomatch hfree.symm.trans this
    · cases hj
      refine ⟨c, m.enter c, Function.update_self .., ?_⟩
      rw [h.free hfree]
  | @statement i c l l' s₁ hin hstatement =>
    obtain ⟨hlock, hrun⟩ := h.holder hin
    refine ⟨s', fun j c' k hj => ?_, h.serial, fun hfree => (nomatch hlock.symm.trans hfree),
      fun j hj => ?_⟩
    · by_cases hji : j = i
      · rw [hji]
        exact hlock
      · exact h.exclusive j c' k ((Function.update_of_ne hji ..).symm.trans hj)
    · cases hlock.symm.trans hj
      exact ⟨c, l', Function.update_self .., hrun.tail hstatement⟩
  | @unlock i c l a hin hanswer =>
    obtain ⟨hlock, hrun⟩ := h.holder hin
    refine ⟨t.shared, fun j c' k hj => ?_, h.serial.concat ⟨l, hrun, hanswer⟩, fun _ => rfl, nofun⟩
    by_cases hji : j = i
    · subst hji
      exact nomatch (Function.update_self ..).symm.trans hj
    · have hlock' := h.exclusive j c' k ((Function.update_of_ne hji ..).symm.trans hj)
      exact absurd (Option.some.inj (hlock'.symm.trans hlock)) hji

/-- **Calls under a lock are serial**: at every point of every run of any number of threads,
the calls answered so far are answered as if they had been executed whole, in this order. -/
theorem Reachable.guarded (h : m.Reachable s t) : ∃ s', m.Guarded s t s' := by
  induction h with
  | start => exact ⟨s, .start s⟩
  | step _ hstep ih =>
    obtain ⟨s', hs'⟩ := ih
    exact hs'.step hstep

end

end Monitor

end OpenwrtFeed
