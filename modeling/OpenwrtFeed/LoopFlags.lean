import OpenwrtFeed.CommandWindow

/-! # The flags of the driver loop

`hci_do_poll` keeps three variables, `timeout`, `responseExpected` and
`fetchNewCommand`, and writes each of them in several branches of one loop.  `Phase` is
what they amount to: either the next op is wanted, and then `timeout` is zero, or an op
has been handed to the engine and `timeout` counts the delays since the last report.
`Phase.Step` lists what one iteration can do to the phase.

The result of `ubcsp_poll` is arbitrary here (`Driver.round`); a turn of `HciPoll` is an
iteration whose result the engine has decided (`turn_eq_round`).  The branch that would
set `fetchNewCommand` on `UBCSP_PACKET_SENT` is in none of the steps: while an op is
awaited, so is a response.
-/
namespace OpenwrtFeed.HciPoll
open Ubcsp HciQueue HciBridge

/-! ## One iteration -/

/-- What an iteration brings: the result of `ubcsp_poll`, the ops queued before the loop
asks whether the queue is empty, and those queued between that and the dequeue. -/
structure Round where
  poll : PollResult
  early : List Op
  late : List Op

/-- What can be noted of an iteration: the reports and the delay of `ubcsp_poll`, whether
an op is dequeued, and whether `PLAYGROUND_TIMEOUT` is sent. -/
structure Mark where
  sent : Bool
  received : Bool
  delayed : Bool
  dequeued : Bool
  notified : Bool
deriving DecidableEq

/-- The mark of an iteration that dequeues an op, or sends the notification. -/
def Round.mark (r : Round) (dequeued notified : Bool) : Mark :=
  ⟨r.poll.activity.sent, r.poll.activity.received, r.poll.delay ≠ 0, dequeued, notified⟩

/-- `UBCSP_PACKET_SENT` or `UBCSP_PACKET_RECEIVED`. -/
def Mark.reported (m : Mark) : Bool := m.sent || m.received

namespace Driver

/-- The driver after the branches on the activity. -/
def heard (r : Round) (d : Driver) : Driver × List BridgeSend :=
  ({ d with engine := r.poll.engine, uart := r.poll.rest }.onSent r.poll.activity).onReceived
    r.poll.activity

/-- The driver after it has looked at the queue. -/
def fed (r : Round) (d : Driver) : Driver × List Copy :=
  let d := (d.heard r).1
  { d with queue := queueAll r.early d.queue }.fetch r.late

/-- One iteration of the loop. -/
def round (r : Round) (d : Driver) : Driver × Mark :=
  let last := (d.fed r).1.onDelay r.poll.delay
  (last.1, r.mark (!(d.fed r).2.isEmpty)
    (((d.heard r).2 ++ last.2).any fun b => b.commandType == playgroundTimeout))

/-- The iterations of a run. -/
def rounds : List Round → Driver → Driver × List Mark
  | [], d => (d, [])
  | r :: rs, d =>
    let last := rounds rs (d.round r).1
    (last.1, (d.round r).2 :: last.2)

/-- A turn, with the result that the engine gives. -/
def asRound (stray : UInt8 → UInt8) (t : Turn) (d : Driver) : Round :=
  ⟨d.poll stray t.arrived, t.early, t.late⟩

theorem turn_eq_round (stray : UInt8 → UInt8) (t : Turn) (d : Driver) :
    (d.turn stray t).1 = (d.round (d.asRound stray t)).1 := rfl

end Driver

/-! ## What the flags amount to -/

/-- Whether the next op is wanted; if not, how many delays have been counted. -/
inductive Phase
  | wanted
  | awaited (elapsed : Nat)
deriving DecidableEq

/-- What one iteration can do. -/
inductive Phase.Step : Phase → Mark → Phase → Prop
  /-- The queue is empty. -/
  | idle {s r δ : Bool} : Step .wanted ⟨s, r, δ, false, false⟩ .wanted
  | dequeue {s r δ : Bool} : Step .wanted ⟨s, r, δ, true, false⟩ (.awaited δ.toNat)
  /-- A packet is received, and the queue is empty. -/
  | release {n : Nat} {s δ : Bool} : Step (.awaited n) ⟨s, true, δ, false, false⟩ .wanted
  /-- A packet is received, and the next op is dequeued at once. -/
  | exchange {n : Nat} {s δ : Bool} : Step (.awaited n) ⟨s, true, δ, true, false⟩ (.awaited δ.toNat)
  /-- The op has been acknowledged, and the wait starts again. -/
  | sent {n : Nat} {δ : Bool} : Step (.awaited n) ⟨true, false, δ, false, false⟩ (.awaited δ.toNat)
  | still {n : Nat} : Step (.awaited n) ⟨false, false, false, false, false⟩ (.awaited n)
  | delay {n : Nat} (h : n + 1 < 10000) :
    Step (.awaited n) ⟨false, false, true, false, false⟩ (.awaited (n + 1))
  | expire {n : Nat} (h : n + 1 = 10000) :
      Step (.awaited n) ⟨false, false, true, false, true⟩ .wanted

/-- The phase after the branch on `UBCSP_PACKET_SENT`. -/
def Phase.acknowledge (a : Activity) : Phase → Phase
  | .wanted => .wanted
  | .awaited n => .awaited (if a.sent then 0 else n)

/-- The phase after the branches on the activity. -/
def Phase.report (a : Activity) (ph : Phase) : Phase :=
  if a.received then .wanted else ph.acknowledge a

/-- The flags of a driver in a phase. -/
def Phase.Flags (d : Driver) : Phase → Prop
  | .wanted => d.fetchNewCommand = true ∧ d.timeout = 0
  | .awaited n =>
    d.fetchNewCommand = false ∧ d.responseExpected = true ∧ d.timeout = n ∧ n < 10000

/-- The driver is in a phase. -/
structure Driver.Shows (d : Driver) (ph : Phase) : Prop where
  flags : ph.Flags d
  queue : d.queue.queueHead ≤ d.queue.queueTail

theorem shows_start (uart : List UInt8) (e : Engine) : (Driver.start uart e).Shows .wanted :=
  ⟨⟨rfl, rfl⟩, Nat.le_refl _⟩

namespace Driver
variable {d : Driver} {ph : Phase}

/-- The engine and the octets in the UART are no part of the phase. -/
theorem Shows.polled (h : d.Shows ph) (e : Engine) (uart : List UInt8) :
    { d with engine := e, uart := uart }.Shows ph := by
  cases ph with
  | wanted => exact ⟨h.flags, h.queue⟩
  | awaited n => exact ⟨h.flags, h.queue⟩

theorem Shows.queued (h : d.Shows ph) (ops : List Op) :
    { d with queue := queueAll ops d.queue }.Shows ph := by
  cases ph with
  | wanted => exact ⟨h.flags, queueAll_le h.queue ops⟩
  | awaited n => exact ⟨h.flags, queueAll_le h.queue ops⟩

/-! ## The parts of an iteration -/

/-- The acknowledgement of an op starts its wait again, and no more. -/
theorem Shows.onSent (h : d.Shows ph) (a : Activity) : (d.onSent a).Shows (ph.acknowledge a) := by
  unfold Driver.onSent
  cases hsent : a.sent with
  | false =>
    cases ph with
    | wanted => exact h
    | awaited n => simpa [Phase.acknowledge, hsent] using h
  | true =>
    cases ph with
    | wanted =>
      obtain ⟨⟨hwant, -⟩, hqueue⟩ := h
      exact ⟨by simp [Phase.acknowledge, Phase.Flags, hwant], hqueue⟩
    | awaited n =>
      -- a response is awaited, so the flag stays as it is
      obtain ⟨⟨hoff, hresp, -, -⟩, hqueue⟩ := h
      exact ⟨by simp [Phase.acknowledge, Phase.Flags, hsent, hoff, hresp], hqueue⟩

/-- A received packet makes the next op wanted, whatever the packet is. -/
theorem Shows.onReceived (h : d.Shows ph) (a : Activity) :
    (d.onReceived a).1.Shows (if a.received then .wanted else ph) := by
  unfold Driver.onReceived
  cases a.received with
  | true => exact ⟨⟨rfl, rfl⟩, h.queue⟩
  | false => exact h

/-- What the reports of an iteration do. -/
theorem Shows.heard (h : d.Shows ph) (r : Round) :
    (d.heard r).1.Shows (ph.report r.poll.activity) :=
  ((h.polled r.poll.engine r.poll.rest).onSent r.poll.activity).onReceived r.poll.activity

/-- An op is dequeued when one is wanted and the queue is not empty. -/
theorem Shows.fetch (h : d.Shows .wanted) (late : List Op) :
    (isQueueEmpty d.queue = true ∧ (d.fetch late).2 = [] ∧ (d.fetch late).1.Shows .wanted) ∨
      ∃ c, (d.fetch late).2 = [c] ∧ (d.fetch late).1.Shows (.awaited 0) := by
  obtain ⟨⟨hwant, htime⟩, hqueue⟩ := h
  obtain ⟨hhead, htail⟩ := queueAll_indices late d.queue
  unfold Driver.fetch
  by_cases hempty : isQueueEmpty d.queue = true
  · rw [hempty]
    refine Or.inl ⟨rfl, by simp, ⟨by simp [Phase.Flags, hwant, htime], ?_⟩⟩
    simpa using queueAll_le hqueue late
  · have hlt : (queueAll late d.queue).queueHead < (queueAll late d.queue).queueTail := by
      simp only [isQueueEmpty, decide_eq_true_eq] at hempty
      omega
    have hdeq := dequeue_indices hlt.le
    have hsome : dequeueIntoSendPacket (queueAll late d.queue) =
        (some (headPacket (queueAll late d.queue)), dropHead (queueAll late d.queue)) := by
      rw [dequeueIntoSendPacket, if_pos hlt]
    rw [hsome] at hdeq
    rw [hsome, hwant, Bool.eq_false_iff.2 hempty]
    exact Or.inr ⟨_, rfl, ⟨rfl, rfl, htime, by decide⟩, hdeq⟩

/-- No op is dequeued while one is awaited. -/
theorem Shows.fetch_awaited {n : Nat} (h : d.Shows (.awaited n)) (late : List Op) :
    (d.fetch late).2 = [] ∧ (d.fetch late).1.Shows (.awaited n) := by
  have hoff : d.fetchNewCommand = false := h.flags.1
  have hsame : d.fetch late = ({ d with queue := queueAll late d.queue }, []) := by
    simp [Driver.fetch, hoff]
  rw [hsame]
  exact ⟨rfl, h.queued late⟩

/-- A delay counts only while an op is awaited. -/
theorem Shows.onDelay_wanted (h : d.Shows .wanted) (delay : Nat) :
    d.onDelay delay = (d, []) := by
  have hwant : d.fetchNewCommand = true := h.flags.1
  unfold Driver.onDelay
  split <;> simp [hwant]

theorem Shows.onDelay {n : Nat} (h : d.Shows (.awaited n)) (delay : Nat) :
    (delay = 0 ∧ d.onDelay delay = (d, [])) ∨
      (delay ≠ 0 ∧ n + 1 < 10000 ∧ (d.onDelay delay).2 = [] ∧
        (d.onDelay delay).1.Shows (.awaited (n + 1))) ∨
      (delay ≠ 0 ∧ n + 1 = 10000 ∧ (d.onDelay delay).2 = [⟨playgroundTimeout, [], 0⟩] ∧
        (d.onDelay delay).1.Shows .wanted) := by
  obtain ⟨⟨hoff, hresp, rfl, hlt⟩, hqueue⟩ := h
  unfold Driver.onDelay
  by_cases hdelay : delay = 0
  · exact Or.inl ⟨hdelay, by simp [hdelay]⟩
  · right
    rw [if_pos hdelay]
    simp only [hoff, Bool.false_eq_true, if_false, and_true]
    by_cases hout : 10000 ≤ d.timeout + 1
    · rw [if_pos hout]
      exact Or.inr ⟨hdelay, by omega, rfl, ⟨rfl, rfl⟩, hqueue⟩
    · rw [if_neg hout]
      exact Or.inl ⟨hdelay, by omega, rfl, ⟨rfl, hresp, rfl, by omega⟩, hqueue⟩

/-! ## The whole iteration -/

/-- What is handed to the client is never the notification. -/
theorem heard_unnotified (r : Round) (d : Driver) :
    ((d.heard r).2.any fun b => b.commandType == playgroundTimeout) = false := by
  unfold Driver.heard Driver.onReceived forward
  split
  · dsimp only
    split
    · split <;> rfl
    · split <;> rfl
  · rfl

/-- An iteration in which the next op is wanted once the reports are in. -/
theorem round_wanted {r : Round} (h : (d.heard r).1.Shows .wanted) :
    ((d.round r).2 = r.mark false false ∧ (d.round r).1.Shows .wanted) ∨
      ((d.round r).2 = r.mark true false ∧
        (d.round r).1.Shows (.awaited (decide (r.poll.delay ≠ 0)).toNat)) := by
  have hquiet := heard_unnotified r d
  rcases (h.queued r.early).fetch r.late with ⟨-, hcopied, hshows⟩ | ⟨c, hcopied, hshows⟩
  · have hfed : (d.fed r).2 = [] := hcopied
    have hlast : (d.fed r).1.onDelay r.poll.delay = ((d.fed r).1, []) := hshows.onDelay_wanted _
    refine Or.inl ⟨?_, ?_⟩
    · simp [Driver.round, hfed, hlast, hquiet]
    · unfold Driver.round
      rw [hlast]
      exact hshows
  · have hfed : (d.fed r).2 = [c] := hcopied
    have hfed' : (d.fed r).1.Shows (.awaited 0) := hshows
    refine Or.inr ?_
    rcases hfed'.onDelay r.poll.delay with
      ⟨hdelay, hlast⟩ | ⟨hdelay, -, hsent, hlast⟩ | ⟨-, hout, -⟩
    · rw [hdelay] at hlast
      simpa [Driver.round, hfed, hlast, hquiet, hdelay] using hfed'
    · simpa [Driver.round, hfed, hsent, hquiet, hdelay] using hlast
    · omega

/-- An iteration in which the op is still awaited. -/
theorem round_awaited {r : Round} {n : Nat} (h : (d.heard r).1.Shows (.awaited n)) :
    (r.poll.delay = 0 ∧ (d.round r).2 = r.mark false false ∧ (d.round r).1.Shows (.awaited n)) ∨
      (r.poll.delay ≠ 0 ∧ n + 1 < 10000 ∧ (d.round r).2 = r.mark false false ∧
        (d.round r).1.Shows (.awaited (n + 1))) ∨
      (r.poll.delay ≠ 0 ∧ n + 1 = 10000 ∧ (d.round r).2 = r.mark false true ∧
        (d.round r).1.Shows .wanted) := by
  have hquiet := heard_unnotified r d
  obtain ⟨hcopied, hshows⟩ := (h.queued r.early).fetch_awaited r.late
  have hfed : (d.fed r).2 = [] := hcopied
  have hfed' : (d.fed r).1.Shows (.awaited n) := hshows
  rcases hfed'.onDelay r.poll.delay with ⟨hdelay, hlast⟩ | ⟨hdelay, hlt, hsent, hlast⟩ |
    ⟨hdelay, hout, hsent, hlast⟩
  · exact Or.inl ⟨hdelay, by simp [Driver.round, hfed, hlast, hquiet], by
      simpa [Driver.round, hlast] using hfed'⟩
  · exact Or.inr (Or.inl ⟨hdelay, hlt, by simp [Driver.round, hfed, hsent, hquiet], hlast⟩)
  · exact Or.inr (Or.inr ⟨hdelay, hout, by simp [Driver.round, hfed, hsent], hlast⟩)

/-- The next op is wanted once the reports are in: it was before, or a packet has come. -/
theorem step_wanted {r : Round} (h : (d.heard r).1.Shows .wanted)
    (hph : ph = .wanted ∨ r.poll.activity.received = true) :
    ∃ ph', ph.Step (d.round r).2 ph' ∧ (d.round r).1.Shows ph' := by
  rcases round_wanted h with ⟨hmark, hshows⟩ | ⟨hmark, hshows⟩
  · refine ⟨_, ?_, hshows⟩
    rw [hmark, Round.mark]
    rcases hph with rfl | hrec
    · exact .idle
    · rw [hrec]
      cases ph with
      | wanted => exact .idle
      | awaited n => exact .release
  · refine ⟨_, ?_, hshows⟩
    rw [hmark, Round.mark]
    rcases hph with rfl | hrec
    · exact .dequeue
    · rw [hrec]
      cases ph with
      | wanted => exact .dequeue
      | awaited n => exact .exchange

/-- The op is still awaited once the reports are in, and has been acknowledged. -/
theorem step_sent {r : Round} {n : Nat} (h : (d.heard r).1.Shows (.awaited 0))
    (hrec : r.poll.activity.received = false) (hsent : r.poll.activity.sent = true) :
    ∃ ph', (Phase.awaited n).Step (d.round r).2 ph' ∧ (d.round r).1.Shows ph' := by
  rcases round_awaited h with ⟨hdelay, hmark, hshows⟩ | ⟨hdelay, -, hmark, hshows⟩ | ⟨-, hout, -⟩
  · refine ⟨_, ?_, hshows⟩
    rw [hmark, Round.mark, hrec, hsent]
    simpa [hdelay] using @Phase.Step.sent n false
  · refine ⟨_, ?_, hshows⟩
    rw [hmark, Round.mark, hrec, hsent]
    simpa [hdelay] using @Phase.Step.sent n true
  · omega

/-- The op is still awaited, and nothing has been reported. -/
theorem step_quiet {r : Round} {n : Nat} (h : (d.heard r).1.Shows (.awaited n))
    (hrec : r.poll.activity.received = false) (hsent : r.poll.activity.sent = false) :
    ∃ ph', (Phase.awaited n).Step (d.round r).2 ph' ∧ (d.round r).1.Shows ph' := by
  rcases round_awaited h with ⟨hdelay, hmark, hshows⟩ | ⟨hdelay, hlt, hmark, hshows⟩ |
    ⟨hdelay, hout, hmark, hshows⟩
  · refine ⟨_, ?_, hshows⟩
    rw [hmark, Round.mark, hrec, hsent]
    simpa [hdelay] using @Phase.Step.still n
  · refine ⟨_, ?_, hshows⟩
    rw [hmark, Round.mark, hrec, hsent]
    simpa [hdelay] using Phase.Step.delay hlt
  · refine ⟨_, ?_, hshows⟩
    rw [hmark, Round.mark, hrec, hsent]
    simpa [hdelay] using Phase.Step.expire hout

/-- **The flags refine the phase**: an iteration does to the flags what a step does to the
phase, and is noted the same way. -/
theorem Shows.round (h : d.Shows ph) (r : Round) :
    ∃ ph', ph.Step (d.round r).2 ph' ∧ (d.round r).1.Shows ph' := by
  have hheard := h.heard r
  unfold Phase.report at hheard
  cases hrec : r.poll.activity.received with
  | true =>
    rw [hrec, if_pos rfl] at hheard
    exact step_wanted hheard (Or.inr hrec)
  | false =>
    rw [hrec, if_neg Bool.false_ne_true] at hheard
    cases ph with
    | wanted => exact step_wanted hheard (Or.inl rfl)
    | awaited n =>
      cases hsent : r.poll.activity.sent with
      | true =>
        rw [Phase.acknowledge, hsent, if_pos rfl] at hheard
        exact step_sent hheard hrec hsent
      | false =>
        rw [Phase.acknowledge, hsent, if_neg Bool.false_ne_true] at hheard
        exact step_quiet hheard hrec hsent

end Driver

end OpenwrtFeed.HciPoll
