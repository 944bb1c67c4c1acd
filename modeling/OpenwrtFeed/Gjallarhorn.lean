import OpenwrtFeed.Streak

/-! # The factory reset

`gjallarhorn` reads the reset button once a second and erases the device when it has been
held for ten reads.  The octet that `read` has filled in is looked at before the result of
the call, and a call that fails fills in nothing: the octet of the read before is looked
at once more.  So a read that fails counts as a press when the read before it was one, and
if that is the tenth, the device is erased (`erases_iff`).
-/
namespace OpenwrtFeed.Gjallarhorn

/-! ## The program -/

/-- What a call of `read` does: it delivers one octet, or it fails. -/
inductive Read
  | octet (b : UInt8)
  | failed
deriving DecidableEq

/-- A read of `'1'`. -/
def pressed : Read := .octet 0x31

/-- What the loop does that can be seen from outside. -/
inductive Action
  | printf (countdown : Int)
  | system (command : String)
deriving DecidableEq

def resetled : Action := .system "/usr/bin/resetled.sh"
def erase : Action := .system "/sbin/mtd -r erase /dev/mtd4"

/-- The variables of `main`. -/
structure State where
  countdown : Int
  muhByte : UInt8

/-- The least value of an `int`. -/
def intMin : Int := -2147483648

/-- `--countdown`, which has no meaning for the least value. -/
def decrement (countdown : Int) : Option Int :=
  if countdown = intMin then none else some (countdown - 1)

/-- The octet after the call of `read`. -/
def filled (muhByte : UInt8) : Read → UInt8
  | .octet b => b
  | .failed => muhByte

/-- One pass of the loop, up to the test of the result. -/
def State.iterate (r : Read) (s : State) : Option (State × List Action) :=
  let muhByte := filled s.muhByte r
  if muhByte = 0x31 then
    match decrement s.countdown with
    | none => none
    | some countdown =>
      some (⟨countdown, muhByte⟩,
        .printf s.countdown :: if countdown = 0 then [resetled, erase] else [])
  else some (⟨10, muhByte⟩, [])

/-- A pass of the loop: the read, and what is done. -/
structure Pass where
  read : Read
  actions : List Action
deriving DecidableEq

/-- The loop; it ends with the first read that fails. -/
def State.loop : List Read → State → Option (List Pass)
  | [], _ => some []
  | r :: rs, s =>
    match s.iterate r with
    | none => none
    | some (s, actions) =>
      if r = .failed then some [⟨r, actions⟩] else (s.loop rs).map fun log => ⟨r, actions⟩ :: log

/-- `main`, with the octet that `muhByte` happens to hold, and the results of the reads. -/
def main (stray : UInt8) (reads : List Read) : Option (List Pass) := State.loop reads ⟨10, stray⟩

/-- The reads that are made: those up to the first that fails. -/
def made : List Read → List Read
  | [] => []
  | r :: rs => if r = .failed then [r] else r :: made rs

/-! ## One pass -/

/-- The device is erased in this pass, after the reads `before`, exactly when its read is
the tenth of a run of presses. -/
structure ErasesRightly (before : List Read) (p : Pass) : Prop where
  tenth : EndsIn pressed 10 (before ++ [p.read]) → p.actions.count erase = 1
  otherwise : ¬ EndsIn pressed 10 (before ++ [p.read]) → p.actions.count erase = 0

/-- The read does not fail right after a run of exactly nine presses, and the countdown
can still be decremented, if it is. -/
structure Harmless (before : List Read) (r : Read) : Prop where
  tenth : r = .failed → ¬ EndsIn pressed 9 before
  inRange : r = .failed ∨ r = pressed → ¬ EndsIn pressed 2147483658 before

/-- The state after the reads `before`, none of which has failed: the countdown is ten
less the presses at their end. -/
structure State.Counts (s : State) (before : List Read) (n : Nat) : Prop where
  streak : EndsIn pressed n before
  countdown : s.countdown = 10 - n
  held : n ≠ 0 → s.muhByte = 0x31

theorem counts_start (stray : UInt8) : State.Counts ⟨10, stray⟩ [] 0 := ⟨endsIn_nil, rfl, by simp⟩

section
variable {s : State} {before : List Read} {n : Nat} {r : Read} {actions : List Action}

theorem State.Counts.endsIn_iff (h : s.Counts before n) {m : Nat} :
    EndsIn pressed m before ↔ n = m := by
  constructor
  · exact fun hm => h.streak.unique hm
  · rintro rfl
    exact h.streak

/-- The tenth press is the one after nine. -/
theorem State.Counts.erasesRightly_pressed (h : s.Counts before n) :
    ErasesRightly before ⟨pressed, actions⟩ ↔ actions.count erase = if n = 9 then 1 else 0 := by
  have hends : EndsIn pressed 10 (before ++ [pressed]) ↔ n = 9 := by
    constructor
    · intro hten
      have := h.streak.concat_self.unique hten
      omega
    · rintro rfl
      exact h.streak.concat_self
  by_cases hnine : n = 9
  · rw [if_pos hnine]
    exact ⟨fun hright => hright.tenth (hends.2 hnine),
      fun hcount => ⟨fun _ => hcount, fun hten => absurd (hends.2 hnine) hten⟩⟩
  · rw [if_neg hnine]
    exact ⟨fun hright => hright.otherwise fun hten => hnine (hends.1 hten),
      fun hcount => ⟨fun hten => absurd (hends.1 hten) hnine, fun _ => hcount⟩⟩

/-- Nothing may be erased at a read that is no press. -/
theorem erasesRightly_other (hr : r ≠ pressed) :
    ErasesRightly before ⟨r, actions⟩ ↔ actions.count erase = 0 := by
  have hends : ¬ EndsIn pressed 10 (before ++ [r]) := by
    intro hten
    rcases hten.of_concat with ⟨-, hzero⟩ | ⟨heq, -⟩
    · cases hzero
    · exact hr heq
  exact ⟨fun hright => hright.otherwise hends,
    fun hcount => ⟨fun hten => absurd hten hends, fun _ => hcount⟩⟩

theorem State.Counts.harmless_pressed (h : s.Counts before n) :
    Harmless before pressed ↔ n ≠ 2147483658 := by
  constructor
  · exact fun hharmless hn => hharmless.inRange (Or.inr rfl) (h.endsIn_iff.2 hn)
  · exact fun hn => ⟨fun hfailed => (by cases hfailed), fun _ hl => hn (h.endsIn_iff.1 hl)⟩

theorem State.Counts.harmless_failed (h : s.Counts before n) :
    Harmless before .failed ↔ n ≠ 9 ∧ n ≠ 2147483658 := by
  constructor
  · exact fun hharmless => ⟨fun hn => hharmless.tenth rfl (h.endsIn_iff.2 hn),
      fun hn => hharmless.inRange (Or.inl rfl) (h.endsIn_iff.2 hn)⟩
  · exact fun hn => ⟨fun _ h9 => hn.1 (h.endsIn_iff.1 h9), fun _ hl => hn.2 (h.endsIn_iff.1 hl)⟩

/-- A pass in which the octet is `'1'`. -/
theorem State.Counts.press (h : s.Counts before n) (hpress : filled s.muhByte r = 0x31) :
    (n = 2147483658 ∧ s.iterate r = none) ∨
      (n ≠ 2147483658 ∧ ∃ s' actions, s.iterate r = some (s', actions) ∧
        s'.countdown = 10 - (n + 1 : Nat) ∧ s'.muhByte = 0x31 ∧
          actions.count erase = if n = 9 then 1 else 0) := by
  have hcountdown := h.countdown
  unfold State.iterate decrement intMin
  dsimp only
  rw [if_pos hpress]
  by_cases hn : n = 2147483658
  · rw [if_pos (by omega)]
    exact Or.inl ⟨hn, rfl⟩
  · rw [if_neg (by omega)]
    refine Or.inr ⟨hn, _, _, rfl, by dsimp only; omega, hpress, ?_⟩
    by_cases hnine : n = 9
    · rw [if_pos hnine, if_pos (by omega)]
      rfl
    · rw [if_neg hnine, if_neg (by omega)]
      rfl

/-- A pass in which it is not. -/
theorem State.iterate_other (hother : filled s.muhByte r ≠ 0x31) :
    s.iterate r = some (⟨10, filled s.muhByte r⟩, []) := if_neg hother

/-- **One pass** has a meaning and erases rightly exactly when its read is harmless, and
if the read has not failed, the presses are counted. -/
theorem State.Counts.iterate (h : s.Counts before n) (r : Read) :
    (s.iterate r = none ∧ ¬ Harmless before r) ∨
      ∃ s' actions, s.iterate r = some (s', actions) ∧
        (ErasesRightly before ⟨r, actions⟩ ↔ Harmless before r) ∧
        (r ≠ .failed → ∃ n', s'.Counts (before ++ [r]) n') := by
  by_cases hpress : filled s.muhByte r = 0x31
  · cases r with
    | failed =>
      -- the octet of the read before is counted again
      rcases h.press hpress with ⟨hn, hnone⟩ | ⟨hn, s', actions, hsome, -, -, hcount⟩
      · exact Or.inl ⟨hnone, fun hharmless => (h.harmless_failed.1 hharmless).2 hn⟩
      · refine Or.inr ⟨s', actions, hsome, ?_, fun hne => absurd rfl hne⟩
        rw [erasesRightly_other (by decide), h.harmless_failed, and_iff_left hn, hcount]
        simp
    | octet b =>
      have hb : b = 0x31 := hpress
      subst hb
      rcases h.press hpress with ⟨hn, hnone⟩ | ⟨hn, s', actions, hsome, hcountdown, hbyte, hcount⟩
      · exact Or.inl ⟨hnone, fun hharmless => h.harmless_pressed.1 hharmless hn⟩
      · refine Or.inr ⟨s', actions, hsome, ?_, fun _ => ⟨n + 1, h.streak.concat_self, hcountdown,
          fun _ => hbyte⟩⟩
        exact iff_of_true (h.erasesRightly_pressed.2 hcount) (h.harmless_pressed.2 hn)
  · have hne : r ≠ pressed := by
      rintro rfl
      exact hpress rfl
    refine Or.inr ⟨_, _, s.iterate_other hpress, iff_of_true ((erasesRightly_other hne).2 rfl) ?_,
      fun _ => ⟨0, endsIn_concat hne, rfl, fun h0 => absurd rfl h0⟩⟩
    cases r with
    | failed =>
      -- the octet of a press would still be there
      have hzero : n = 0 := by
        by_contra hn
        exact hpress (h.held hn)
      exact h.harmless_failed.2 ⟨by omega, by omega⟩
    | octet b =>
      exact ⟨fun hfailed => (by cases hfailed), fun hread =>
        absurd (hread.resolve_left (by simp)) hne⟩

end

/-! ## A whole run -/

/-- **The run**, from any state that counts the presses. -/
theorem State.Counts.loop {s : State} {before : List Read} {n : Nat} (h : s.Counts before n)
    (reads : List Read) :
    (∃ log, s.loop reads = some log ∧ log.map Pass.read = made reads ∧
        ∀ earlier p later, log = earlier ++ p :: later →
          ErasesRightly (before ++ earlier.map Pass.read) p) ↔
      ∀ earlier r later, made reads = earlier ++ r :: later → Harmless (before ++ earlier) r := by
  induction reads generalizing s before n with
  | nil => simp [State.loop, made]
  | cons r rs ih =>
    unfold State.loop made
    rcases h.iterate r with ⟨hnone, hharmful⟩ | ⟨s', actions, hsome, hright, hcounts⟩
    · rw [hnone]
      refine iff_of_false (by simp) fun hall => hharmful ?_
      by_cases hfailed : r = .failed
      · rw [if_pos hfailed] at hall
        simpa using hall [] r [] rfl
      · rw [if_neg hfailed] at hall
        simpa using hall [] r (made rs) rfl
    · rw [hsome]
      dsimp only
      by_cases hfailed : r = .failed
      · rw [if_pos hfailed, if_pos hfailed]
        simp only [Option.some.injEq, exists_eq_left', List.map_cons, List.map_nil, true_and]
        rw [forall_split_cons, forall_split_cons]
        rw [and_iff_left forall_split_nil, and_iff_left forall_split_nil]
        simpa only [List.map_nil, List.append_nil] using hright
      · rw [if_neg hfailed, if_neg hfailed]
        obtain ⟨n', hcounts'⟩ := hcounts hfailed
        have hih := ih hcounts'
        simp only [List.append_assoc, List.singleton_append] at hih
        rw [forall_split_cons, List.append_nil, ← hih, ← hright]
        constructor
        · rintro ⟨log, hlog, hmade, hall⟩
          obtain ⟨rest, hrest, rfl⟩ := Option.map_eq_some_iff.1 hlog
          rw [forall_split_cons] at hall
          obtain ⟨hhead, htail⟩ := hall
          refine ⟨by simpa using hhead, rest, hrest, (List.cons.inj hmade).2, ?_⟩
          intro earlier p later heq
          simpa using htail earlier p later heq
        · rintro ⟨hhead, rest, hrest, hmade, hall⟩
          refine ⟨_, Option.map_eq_some_iff.2 ⟨rest, hrest, rfl⟩, by rw [List.map_cons, hmade], ?_⟩
          rw [forall_split_cons]
          refine ⟨by simpa using hhead, fun earlier p later heq => ?_⟩
          simpa using hall earlier p later heq

/-- `main` makes the reads up to the first that fails, and in each of them runs the erase
command once if it is the tenth of a run of presses, and not at all otherwise. -/
def ErasesOnTenth (stray : UInt8) (reads : List Read) : Prop :=
  ∃ log, main stray reads = some log ∧ log.map Pass.read = made reads ∧
    ∀ earlier p later, log = earlier ++ p :: later → ErasesRightly (earlier.map Pass.read) p

/-- **The device is erased at the tenth press of a run and at no other read** exactly when
no read that is made fails right after a run of just nine presses, and no run of presses
is so long that the countdown leaves the range of an `int`. -/
theorem erases_iff (stray : UInt8) (reads : List Read) :
    ErasesOnTenth stray reads ↔
      ∀ earlier r later, made reads = earlier ++ r :: later → Harmless earlier r :=
  (counts_start stray).loop reads

/-! ### A read that fails -/

/-- **A read that fails erases the device**: it comes after nine presses. -/
theorem exists_erased :
    ∃ reads log, main 0 reads = some log ∧ (∃ p ∈ log, erase ∈ p.actions) ∧
      (∀ p ∈ log, erase ∈ p.actions → p.read = .failed) ∧ ¬ ErasesOnTenth 0 reads := by
  refine ⟨List.replicate 9 pressed ++ [.failed], _, rfl, by decide, by decide, ?_⟩
  rintro ⟨log, hlog, -, hall⟩
  obtain rfl := Option.some.inj hlog
  have hnot : ¬ EndsIn pressed 10 (List.replicate 9 pressed ++ [Read.failed]) := by
    intro hten
    rcases hten.of_concat with ⟨-, hzero⟩ | ⟨hfailed, -⟩
    · cases hzero
    · cases hfailed
  have hright := hall ((List.range 9).map fun i : Nat => ⟨pressed, [.printf (10 - i : Int)]⟩)
    ⟨.failed, [.printf 1, resetled, erase]⟩ [] (by decide)
  exact absurd (hright.otherwise hnot) (by decide)

end OpenwrtFeed.Gjallarhorn
