import OpenwrtFeed.LoopFlags

/-! # What a timeout notification stands for

`hci_do_poll` sends `PLAYGROUND_TIMEOUT` when its counter reaches 10000.  The counter is
not cleared when an op is dequeued; it is zero by then, as it is whenever the next op is
wanted.  It is cleared by a report of `ubcsp_poll`, but at the head of the iteration, so
the delay of that same iteration is counted again: of the 10000 delays, the first may
come with a report (`exists_reported_delay`), and the others come without
(`timeouts_accounted`).
-/
namespace OpenwrtFeed.HciPoll
open Ubcsp HciQueue HciBridge

/-! ## Stretches of iterations -/

/-- The iterations end in a stretch with exactly `n` delays, of which at most the first
iteration reported something. -/
def Stretch (marks : List Mark) (n : Nat) : Prop :=
  ∃ skipped window, marks = skipped ++ window ∧ window.countP Mark.delayed = n ∧
    ∀ m ∈ window.tail, m.reported = false

/-- A stretch starts at any iteration. -/
theorem stretch_concat (marks : List Mark) (m : Mark) : Stretch (marks ++ [m]) m.delayed.toNat := by
  refine ⟨marks, [m], rfl, ?_, by simp⟩
  cases h : m.delayed <;> simp [h]

theorem Stretch.concat {marks : List Mark} {n : Nat} (h : Stretch marks n) {m : Mark}
    (hquiet : m.reported = false) : Stretch (marks ++ [m]) (n + m.delayed.toNat) := by
  obtain ⟨skipped, window, rfl, hcount, htail⟩ := h
  refine ⟨skipped, window ++ [m], by simp, ?_, ?_⟩
  · rw [List.countP_append, hcount]
    cases hd : m.delayed <;> simp [hd]
  · intro x hx
    cases window with
    | nil => simp at hx
    | cons y window =>
      rcases List.mem_append.1 hx with hx | hx
      · exact htail x hx
      · rw [List.mem_singleton.1 hx]
        exact hquiet

/-- Since the most recent dequeue, at `q`, there has been no notification, and the
iterations end in a stretch of `n` delays. -/
structure Since (q : Mark) (rest : List Mark) (n : Nat) : Prop where
  dequeued : q.dequeued = true
  latest : ∀ m ∈ rest, m.dequeued = false
  unnotified : ∀ m ∈ q :: rest, m.notified = false
  stretch : Stretch (q :: rest) n

namespace Since
variable {q m : Mark} {rest : List Mark} {n : Nat}

theorem fresh (hdeq : q.dequeued = true) (hnot : q.notified = false) : Since q [] q.delayed.toNat :=
  ⟨hdeq, by simp, by simpa using hnot, stretch_concat [] q⟩

/-- An iteration that neither dequeues nor notifies. -/
theorem pass (h : Since q rest n) (hdeq : m.dequeued = false) (hnot : m.notified = false) {k : Nat}
    (hs : Stretch (q :: rest ++ [m]) k) : Since q (rest ++ [m]) k where
  dequeued := h.dequeued
  latest x hx := by
    rcases List.mem_append.1 hx with hx | hx
    · exact h.latest x hx
    · rwa [List.mem_singleton.1 hx]
  unnotified x hx := by
    rw [← List.cons_append] at hx
    rcases List.mem_append.1 hx with hx | hx
    · exact h.unnotified x hx
    · rwa [List.mem_singleton.1 hx]
  stretch := hs

end Since

/-! ## The account of a phase -/

/-- What the iterations seen so far come to: while an op is awaited, it is one op more
than there have been notifications, and the delays counted are those of a stretch. -/
def Phase.Accounts (seen : List Mark) : Phase → Prop
  | .wanted => seen.countP Mark.notified ≤ seen.countP Mark.dequeued
  | .awaited n =>
    seen.countP Mark.notified < seen.countP Mark.dequeued ∧
      ∃ before q rest, seen = before ++ q :: rest ∧ Since q rest n

theorem Phase.Accounts.le {seen : List Mark} {ph : Phase} (h : ph.Accounts seen) :
    seen.countP Mark.notified ≤ seen.countP Mark.dequeued := by
  cases ph with
  | wanted => exact h
  | awaited n => exact h.1.le

theorem countP_concat (p : Mark → Bool) (seen : List Mark) (m : Mark) :
    (seen ++ [m]).countP p = seen.countP p + (p m).toNat := by
  rw [List.countP_append]
  cases h : p m <;> simp [h]

/-- An iteration in which the op stays awaited. -/
theorem Phase.Accounts.pass {seen : List Mark} {n k : Nat} (h : (Phase.awaited n).Accounts seen)
    {m : Mark} (hdeq : m.dequeued = false) (hnot : m.notified = false)
    (hs : ∀ marks, Stretch marks n → Stretch (marks ++ [m]) k) :
    (Phase.awaited k).Accounts (seen ++ [m]) := by
  obtain ⟨hlt, before, q, rest, rfl, hsince⟩ := h
  refine ⟨?_, before, q, rest ++ [m], by simp, hsince.pass hdeq hnot (hs _ hsince.stretch)⟩
  rw [countP_concat, countP_concat, hdeq, hnot]
  exact hlt

/-- An iteration that dequeues an op. -/
theorem Phase.Accounts.fetch {seen : List Mark} {ph : Phase} (h : ph.Accounts seen) {m : Mark}
    (hdeq : m.dequeued = true) (hnot : m.notified = false) :
    (Phase.awaited m.delayed.toNat).Accounts (seen ++ [m]) := by
  have hle := h.le
  refine ⟨?_, seen, m, [], rfl, Since.fresh hdeq hnot⟩
  rw [countP_concat, countP_concat, hdeq, hnot]
  exact Nat.lt_succ_of_le hle

/-- **One iteration keeps the account.** -/
theorem Phase.Accounts.step {seen : List Mark} {ph ph' : Phase} {m : Mark} (h : ph.Accounts seen)
    (hs : ph.Step m ph') : ph'.Accounts (seen ++ [m]) := by
  have hwanted : m.dequeued = false → m.notified = false → Phase.wanted.Accounts (seen ++ [m]) := by
    intro hdeq hnot
    have hle := h.le
    unfold Phase.Accounts
    rwa [countP_concat, countP_concat, hdeq, hnot]
  cases hs with
  | idle => exact hwanted rfl rfl
  | dequeue => exact h.fetch rfl rfl
  | release => exact hwanted rfl rfl
  | exchange => exact h.fetch rfl rfl
  | sent => exact h.pass rfl rfl fun marks _ => stretch_concat marks _
  | still => exact h.pass rfl rfl fun _ hs => hs.concat rfl
  | delay => exact h.pass rfl rfl fun _ hs => hs.concat rfl
  | expire =>
    have hlt := h.1
    unfold Phase.Accounts
    rw [countP_concat, countP_concat]
    exact hlt

/-- Every iteration of a run is a step from a phase that accounts for the iterations
before it. -/
theorem Driver.Shows.rounds {d : Driver} {ph : Phase} (h : d.Shows ph) {seen : List Mark}
    (hacc : ph.Accounts seen) {rs : List Round} {before after : List Mark}
    (hsplit : (d.rounds rs).2 = before ++ after) :
    ∃ ph' : Phase, ph'.Accounts (seen ++ before) ∧
      ∀ m rest, after = m :: rest → ∃ ph'', ph'.Step m ph'' := by
  induction rs generalizing d ph seen before with
  | nil =>
    obtain ⟨rfl, rfl⟩ := List.append_eq_nil_iff.1 hsplit.symm
    exact ⟨ph, by simpa using hacc, fun m rest hnil => by cases hnil⟩
  | cons r rs ih =>
    obtain ⟨ph', hstep, hshows⟩ := h.round r
    have hcons : (d.round r).2 :: ((d.round r).1.rounds rs).2 = before ++ after := hsplit
    cases before with
    | nil =>
      refine ⟨ph, by simpa using hacc, ?_⟩
      rintro m rest rfl
      obtain ⟨rfl, -⟩ := List.cons.inj hcons
      exact ⟨ph', hstep⟩
    | cons m before =>
      obtain ⟨rfl, htail⟩ := List.cons.inj hcons
      obtain ⟨ph₁, hacc₁, hnext⟩ := ih hshows (hacc.step hstep) htail
      exact ⟨ph₁, by simpa using hacc₁, hnext⟩

/-! ## The law -/

/-- **The accounts of the timeout**: a notification ends a stretch of exactly 10000 delays
since the most recent dequeue; between two notifications an op is dequeued; and at every
point there are no more notifications than ops dequeued. -/
structure TimeoutLaw (marks : List Mark) : Prop where
  stretch : ∀ before m after, marks = before ++ m :: after → m.notified = true →
    ∃ earlier q rest, before = earlier ++ q :: rest ∧ q.dequeued = true ∧
      (∀ x ∈ rest ++ [m], x.dequeued = false) ∧ Stretch (q :: rest ++ [m]) 10000
  between : ∀ before m inner m' after, marks = before ++ m :: (inner ++ m' :: after) →
    m.notified = true → m'.notified = true → ∃ x ∈ inner, x.dequeued = true
  count : ∀ before after, marks = before ++ after →
    before.countP Mark.notified ≤ before.countP Mark.dequeued

/-- The most recent dequeue before a notification comes after the notification before. -/
theorem mem_of_unnotified {before inner earlier rest : List Mark} {m q : Mark}
    (h : before ++ m :: inner = earlier ++ q :: rest) (hnot : m.notified = true)
    (hrest : ∀ x ∈ q :: rest, x.notified = false) : q ∈ inner := by
  rcases List.append_eq_append_iff.1 h with ⟨gap, -, hgap⟩ | ⟨gap, -, hgap⟩
  · cases gap with
    | nil =>
      obtain ⟨rfl, -⟩ := List.cons.inj hgap
      simp [hnot] at hrest
    | cons x gap =>
      obtain ⟨-, rfl⟩ := List.cons.inj hgap
      simp
  · have hm : m ∈ q :: rest := by
      rw [hgap]
      simp
    exact absurd (hrest m hm) (by simp [hnot])

/-- What is known just before a notification. -/
theorem Phase.Accounts.notified {seen : List Mark} {ph ph' : Phase} {m : Mark}
    (h : ph.Accounts seen) (hs : ph.Step m ph') (hnot : m.notified = true) :
    ∃ earlier q rest, seen = earlier ++ q :: rest ∧ Since q rest 9999 ∧ m.dequeued = false ∧
      m.delayed = true ∧ m.reported = false := by
  cases hs with
  | @expire n hn =>
    obtain ⟨-, earlier, q, rest, hseen, hsince⟩ := h
    obtain rfl : n = 9999 := by omega
    exact ⟨earlier, q, rest, hseen, hsince, rfl, rfl, rfl⟩
  | idle => cases hnot
  | dequeue => cases hnot
  | release => cases hnot
  | exchange => cases hnot
  | sent => cases hnot
  | still => cases hnot
  | delay => cases hnot

/-- **Every run of the loop keeps the accounts**, whatever `ubcsp_poll` returns and
whatever is queued. -/
theorem timeouts_accounted (uart : List UInt8) (e : Engine) (rs : List Round) :
    TimeoutLaw ((Driver.start uart e).rounds rs).2 := by
  have hsplit : ∀ before after, ((Driver.start uart e).rounds rs).2 = before ++ after →
      ∃ ph : Phase, ph.Accounts before ∧ ∀ m rest, after = m :: rest → ∃ ph', ph.Step m ph' :=
    fun before after h => @Driver.Shows.rounds _ _ (shows_start uart e) [] (Nat.le_refl 0) rs _ _ h
  constructor
  case stretch =>
    intro before m after heq hnot
    obtain ⟨ph, hacc, hnext⟩ := hsplit before _ heq
    obtain ⟨ph', hstep⟩ := hnext m after rfl
    obtain ⟨earlier, q, rest, hseen, hsince, hdeq, hdelay, hquiet⟩ := hacc.notified hstep hnot
    have hlatest : ∀ x ∈ rest ++ [m], x.dequeued = false := by
      intro x hx
      rcases List.mem_append.1 hx with hx | hx
      · exact hsince.latest x hx
      · rwa [List.mem_singleton.1 hx]
    refine ⟨earlier, q, rest, hseen, hsince.dequeued, hlatest, ?_⟩
    simpa [hdelay] using hsince.stretch.concat hquiet
  case between =>
    intro before m inner m' after heq hnot hnot'
    obtain ⟨ph, hacc, hnext⟩ := hsplit (before ++ m :: inner) (m' :: after) (by simpa using heq)
    obtain ⟨ph', hstep⟩ := hnext m' after rfl
    obtain ⟨earlier, q, rest, hseen, hsince, -⟩ := hacc.notified hstep hnot'
    exact ⟨q, mem_of_unnotified hseen hnot hsince.unnotified, hsince.dequeued⟩
  case count =>
    intro before after heq
    obtain ⟨ph, hacc, -⟩ := hsplit before after heq
    exact hacc.le

/-! ### A report that comes with a delay -/

/-- An iteration in which nothing is queued. -/
def polling (a : Activity) (delay : Nat) : Round := ⟨⟨a, delay, [], [], .zero⟩, [], []⟩

/-- `n` iterations with a delay and nothing else. -/
theorem rounds_delays {d : Driver} {n k : Nat} (h : d.Shows (.awaited n)) (hlt : n + k < 10000)
    (rs : List Round) : ∃ d' : Driver, d'.Shows (.awaited (n + k)) ∧
      (d.rounds (List.replicate k (polling .none 1) ++ rs)).2 =
        List.replicate k ⟨false, false, true, false, false⟩ ++ (d'.rounds rs).2 := by
  induction k generalizing d n with
  | zero => exact ⟨d, h, rfl⟩
  | succ k ih =>
    have hheard : (d.heard (polling .none 1)).1.Shows (.awaited n) := h.heard (polling .none 1)
    rcases Driver.round_awaited hheard with ⟨hdelay, -⟩ | ⟨-, -, hmark, hshows⟩ | ⟨-, hout, -⟩
    · cases hdelay
    · obtain ⟨d', hshows', hmarks⟩ := ih hshows (by omega)
      refine ⟨d', by simpa [Nat.add_assoc, Nat.add_comm 1 k] using hshows', ?_⟩
      show (d.round (polling .none 1)).2 :: _ = _
      rw [hmark, List.replicate_succ, List.cons_append, ← hmarks]
      rfl
    · omega

/-- An iteration in which an op of ACL data is queued and dequeued. -/
def dequeuing : Round := { polling .none 0 with early := [⟨[0x01, 0x00], 2, 6⟩] }

/-- An iteration that reports its acknowledgement, with a delay. -/
def acknowledged : Round := polling ⟨true, false, false, false⟩ 1

/-- **The delay of an iteration that reports is counted**: an op is dequeued, its
acknowledgement is reported together with a delay, and after 9999 more delays the
notification is sent. -/
theorem exists_reported_delay :
    ∃ rs before m after, ((Driver.start [] .zero).rounds rs).2 = before ++ m :: after ∧
      m.notified = true ∧ ∀ earlier q rest, before = earlier ++ q :: rest → q.dequeued = true →
        (q :: rest ++ [m]).countP (fun x => x.delayed && !x.reported) < 10000 := by
  -- the number of delays is kept as a variable, so that no list of that length is unfolded
  obtain ⟨k, hk⟩ : ∃ k, k = 9998 := ⟨_, rfl⟩
  obtain ⟨d₁, hd₁⟩ : ∃ d, d = ((Driver.start [] .zero).round dequeuing).1 := ⟨_, rfl⟩
  obtain ⟨d₂, hd₂⟩ : ∃ d, d = (d₁.round acknowledged).1 := ⟨_, rfl⟩
  have hshows : d₂.Shows (.awaited 1) := by
    subst hd₂ hd₁
    exact ⟨⟨by decide, by decide, by decide, by decide⟩, by decide⟩
  obtain ⟨d₃, hd₃, hmarks⟩ := @rounds_delays d₂ 1 k hshows (by omega) [polling .none 1]
  have hheard : (d₃.heard (polling .none 1)).1.Shows (.awaited (1 + k)) :=
    hd₃.heard (polling .none 1)
  have hlast : (d₃.round (polling .none 1)).2 = ⟨false, false, true, false, true⟩ := by
    rcases Driver.round_awaited hheard with ⟨hdelay, -⟩ | ⟨-, hlt, -⟩ | ⟨-, -, hmark, -⟩
    · cases hdelay
    · omega
    · exact hmark
  have hfirst : ((Driver.start [] .zero).round dequeuing).2 = ⟨false, false, false, true, false⟩ ∧
      (d₁.round acknowledged).2 = ⟨true, false, true, false, false⟩ := by
    subst hd₁
    exact ⟨by decide, by decide⟩
  have hall : ((Driver.start [] .zero).rounds
      (dequeuing :: acknowledged :: (List.replicate k (polling .none 1) ++ [polling .none 1]))).2 =
      (⟨false, false, false, true, false⟩ :: ⟨true, false, true, false, false⟩ ::
        List.replicate k ⟨false, false, true, false, false⟩) ++
          [⟨false, false, true, false, true⟩] := by
    rw [Driver.rounds, Driver.rounds, ← hd₁, ← hd₂, hmarks, Driver.rounds, Driver.rounds, hlast,
      hfirst.1, hfirst.2]
    rfl
  refine ⟨_, _, _, [], hall, rfl, ?_⟩
  intro earlier q rest hbefore _
  -- one delay is missing even when every iteration since the start is looked at
  have hcount : (earlier ++ q :: rest).countP (fun x => x.delayed && !x.reported) = k := by
    rw [← hbefore]
    simp [List.countP_replicate, Mark.reported]
  have hle := (List.suffix_append earlier (q :: rest)).sublist.countP_le
    (p := fun x : Mark => x.delayed && !x.reported)
  have hone := Bool.toNat_le (Mark.delayed ⟨false, false, true, false, true⟩ &&
    !Mark.reported ⟨false, false, true, false, true⟩)
  rw [countP_concat]
  omega

end OpenwrtFeed.HciPoll
