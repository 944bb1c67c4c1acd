import OpenwrtFeed.OneOutstanding
import OpenwrtFeed.WireRoundTrip

/-! # The window of one command

The comment above `hci_do_poll` assumes a window of one command: after a command the
driver waits for the Command Complete event with its opcode, and keeps waiting when
another event comes.  The loop does not look at the event.  Any received packet sets
`fetchNewCommand`, and from then on only an empty queue holds the next command back.

`Window` is what an observer of the loop knows: the opcode awaited, and whether another
packet has been delivered since.  The loop keeps to the window exactly in the runs in
which the queue is empty whenever that has happened (`oneCommand_iff`).
-/
namespace OpenwrtFeed.HciPoll
open Ubcsp HciQueue HciBridge

/-! ## What can be observed -/

/-- What the loop does that can be seen from outside, in the order of the source. -/
inductive Event
  /-- The engine has delivered a packet. -/
  | delivered (p : Packet)
  /-- An op has been copied into `send_packet`. -/
  | dequeued (p : Packet)
  /-- `PLAYGROUND_TIMEOUT` has been reported. -/
  | timedOut
deriving DecidableEq

/-- The code of the Command Complete event. -/
def commandComplete : UInt8 := 0x0E

/-- Two octets, the low one first. -/
def opcodeOf (low high : UInt8) : UInt16 := low.toUInt16 ||| (high.toUInt16 <<< 8)

/-- The opcode of a command, which is an op on the channel of commands and events. -/
def opcode (p : Packet) : Option UInt16 :=
  if p.channel = hciEventChannel then
    match p.payload with
    | low :: high :: _ => some (opcodeOf low high)
    | _ => none
  else none

/-- The packet is a Command Complete event for the opcode. -/
def Completes (o : UInt16) (p : Packet) : Prop :=
  p.channel = hciEventChannel ∧ 5 ≤ p.payload.length ∧ p.payload.getD 0 0 = commandComplete ∧
    opcodeOf (p.payload.getD 3 0) (p.payload.getD 4 0) = o

instance (o : UInt16) (p : Packet) : Decidable (Completes o p) :=
  inferInstanceAs (Decidable (_ ∧ _))

/-- The events after which the next op may be taken. -/
def Releases (o : UInt16) : Event → Prop
  | .delivered p => Completes o p
  | .dequeued _ => False
  | .timedOut => True

instance (o : UInt16) : DecidablePred (Releases o)
  | .delivered p => inferInstanceAs (Decidable (Completes o p))
  | .dequeued _ => inferInstanceAs (Decidable False)
  | .timedOut => inferInstanceAs (Decidable True)

/-- **The window of one command**: between two ops, the first of which has an opcode,
there is an event that releases it. -/
def OneCommand (events : List Event) : Prop :=
  ∀ before p between q after, events = before ++ .dequeued p :: (between ++ .dequeued q :: after) →
    ∀ o, opcode p = some o → ∃ ev ∈ between, Releases o ev

namespace Driver

/-- The events of one turn. -/
def events (stray : UInt8 → UInt8) (t : Turn) (d : Driver) : List Event :=
  (if (d.poll stray t.arrived).activity.received then
    [.delivered (d.poll stray t.arrived).engine.handedOver] else []) ++
  (d.served stray t).2.map (fun c => .dequeued c.packet) ++
  ((d.served stray t).1.onDelay (d.poll stray t.arrived).delay).2.map fun _ => .timedOut

/-- The events of a run. -/
def trace (stray : UInt8 → UInt8) : List Turn → Driver → List Event
  | [], _ => []
  | t :: ts, d => d.events stray t ++ trace stray ts (d.turn stray t).1

end Driver

/-! ## The observer -/

/-- The opcode awaited, and whether a packet that does not complete it has been delivered
since. -/
structure Window where
  awaited : Option UInt16
  disturbed : Bool

namespace Window

/-- No command is awaited. -/
def idle : Window := ⟨none, false⟩

/-- The window after an event. -/
def step (w : Window) : Event → Window
  | .delivered p =>
    match w.awaited with
    | some o => if Completes o p then idle else ⟨some o, true⟩
    | none => w
  | .dequeued p => ⟨opcode p, false⟩
  | .timedOut => idle

def steps (w : Window) (events : List Event) : Window := events.foldl step w

/-- Ops are taken only when no command is awaited. -/
def Accepts : Window → List Event → Prop
  | _, [] => True
  | w, ev :: events => ((∃ p, ev = .dequeued p) → w.awaited = none) ∧ (w.step ev).Accepts events

theorem accepts_append (w : Window) (xs ys : List Event) :
    w.Accepts (xs ++ ys) ↔ w.Accepts xs ∧ (w.steps xs).Accepts ys := by
  induction xs generalizing w with
  | nil => simp [Accepts, steps]
  | cons ev xs ih => simp only [List.cons_append, Accepts, ih, steps, List.foldl_cons, and_assoc]

theorem steps_append (w : Window) (xs ys : List Event) :
    w.steps (xs ++ ys) = (w.steps xs).steps ys :=
  List.foldl_append

end Window

/-- The command with opcode `o` is released before the next op. -/
def ReleasedFirst (o : UInt16) (events : List Event) : Prop :=
  ∀ between q after, events = between ++ .dequeued q :: after → ∃ ev ∈ between, Releases o ev

theorem releasedFirst_cons {o : UInt16} {ev : Event} {events : List Event} :
    ReleasedFirst o (ev :: events) ↔
      Releases o ev ∨ ((∀ p, ev ≠ .dequeued p) ∧ ReleasedFirst o events) := by
  constructor
  · intro h
    by_cases hr : Releases o ev
    · exact Or.inl hr
    · refine Or.inr ⟨?_, ?_⟩
      · rintro p rfl
        obtain ⟨x, hx, -⟩ := h [] p events rfl
        cases hx
      · rintro between q after rfl
        obtain ⟨x, hx, hrx⟩ := h (ev :: between) q after rfl
        rcases List.mem_cons.1 hx with rfl | hx
        · exact absurd hrx hr
        · exact ⟨x, hx, hrx⟩
  · rintro (hr | ⟨hne, h⟩) between q after heq
    all_goals cases between with
    | nil =>
      obtain ⟨rfl, -⟩ := List.cons.inj heq
      first
        | exact hr.elim
        | exact absurd rfl (hne q)
    | cons x between =>
      obtain ⟨rfl, rfl⟩ := List.cons.inj heq
      first
        | exact ⟨_, List.mem_cons_self, hr⟩
        | exact (h between q after rfl).imp fun _ hx => ⟨List.mem_cons_of_mem _ hx.1, hx.2⟩

theorem oneCommand_cons {ev : Event} {events : List Event} :
    OneCommand (ev :: events) ↔
      (∀ p, ev = .dequeued p → ∀ o, opcode p = some o → ReleasedFirst o events) ∧
        OneCommand events := by
  constructor
  · intro h
    refine ⟨?_, ?_⟩
    · rintro p rfl o ho between q after rfl
      exact h [] p between q after rfl o ho
    · rintro before p between q after rfl
      exact h (ev :: before) p between q after rfl
  · rintro ⟨hhead, htail⟩ before p between q after heq o ho
    cases before with
    | nil =>
      obtain ⟨rfl, rfl⟩ := List.cons.inj heq
      exact hhead p rfl o ho between q after rfl
    | cons x before =>
      obtain ⟨-, rfl⟩ := List.cons.inj heq
      exact htail before p between q after rfl o ho

/-- **The observer accepts exactly the traces that keep to the window.** -/
theorem Window.accepts_iff (w : Window) (events : List Event) :
    w.Accepts events ↔ OneCommand events ∧ ∀ o, w.awaited = some o → ReleasedFirst o events := by
  induction events generalizing w with
  | nil =>
    have hnone : OneCommand [] := fun before p between q after heq => by simp at heq
    have hfirst : ∀ o, ReleasedFirst o [] := fun o between q after heq => by simp at heq
    simp [Window.Accepts, hnone, hfirst]
  | cons ev events ih =>
    unfold Window.Accepts
    rw [ih, oneCommand_cons]
    simp only [releasedFirst_cons]
    cases ev with
    | delivered p =>
      cases hw : w.awaited with
      | none => simp [Window.step, hw]
      | some o =>
        by_cases hc : Completes o p
        · simp [Window.step, hw, hc, Window.idle, Releases]
        · simp [Window.step, hw, hc, Releases]
    | dequeued p =>
      cases hw : w.awaited with
      | none => simp [Window.step, and_comm]
      | some o => simp [Releases]
    | timedOut => simp [Window.step, Window.idle, Releases]

theorem Window.accepts_idle (events : List Event) :
    Window.idle.Accepts events ↔ OneCommand events := by
  rw [Window.accepts_iff]
  simp [Window.idle]

/-! ## The loop and the observer -/

/-- The window once the poll of a turn is over. -/
def Window.polled (stray : UInt8 → UInt8) (t : Turn) (d : Driver) (w : Window) : Window :=
  if (d.poll stray t.arrived).activity.received then
    w.step (.delivered (d.poll stray t.arrived).engine.handedOver)
  else w

/-- The queue is empty when the loop looks at it, if another packet has been delivered
while a command is awaited. -/
def Spares (stray : UInt8 → UInt8) (t : Turn) (d : Driver) (w : Window) : Prop :=
  (w.polled stray t d).awaited ≠ none → (w.polled stray t d).disturbed = true →
    isQueueEmpty (queueAll t.early d.queue) = true

/-- This holds in every turn of a run. -/
def SparesThroughout (stray : UInt8 → UInt8) : List Turn → Window → Driver → Prop
  | [], _, _ => True
  | t :: ts, w, d =>
    Spares stray t d w ∧ SparesThroughout stray ts (w.steps (d.events stray t)) (d.turn stray t).1

/-- The two flags of the loop, as the observer knows them. -/
structure Driver.Tracks (d : Driver) (w : Window) : Prop where
  expected : d.fetchNewCommand = false → d.responseExpected = true
  wanted : w.awaited ≠ none → d.fetchNewCommand = w.disturbed
  queue : d.queue.queueHead ≤ d.queue.queueTail

namespace Driver
variable {stray : UInt8 → UInt8} {d : Driver} {w : Window}

theorem Tracks.onSent (h : d.Tracks w) (a : Activity) : (d.onSent a).Tracks w := by
  rcases onSent_eq h.expected a with heq | heq <;> rw [heq]
  · exact h
  · exact ⟨h.expected, h.wanted, h.queue⟩

/-- Any delivered packet sets the flag; only the Command Complete ends the wait. -/
theorem Tracks.delivered (h : d.Tracks w) (e : Engine) (p : Packet) :
    ({ d with timeout := 0, responseExpected := false, fetchNewCommand := true, engine := e } :
      Driver).Tracks (w.step (.delivered p)) := by
  refine ⟨fun hf => (by cases hf), ?_, h.queue⟩
  intro hne
  cases hw : w.awaited with
  | none => simp [Window.step, hw] at hne
  | some o =>
    by_cases hc : Completes o p
    · simp [Window.step, hw, hc, Window.idle] at hne
    · simp [Window.step, hw, hc]

/-- After the poll and the branches on its activity. -/
theorem Tracks.acted (h : d.Tracks w) (t : Turn) :
    (d.acted stray t).1.Tracks (w.polled stray t d) := by
  have hpolled : ({ d with
      engine := (d.poll stray t.arrived).engine
      uart := (d.poll stray t.arrived).rest } : Driver).Tracks w := ⟨h.expected, h.wanted, h.queue⟩
  have hsent := hpolled.onSent (d.poll stray t.arrived).activity
  unfold Driver.acted Driver.onReceived Window.polled
  dsimp only
  split
  · exact hsent.delivered _ _
  · exact hsent

theorem Tracks.queued (h : d.Tracks w) (ops : List Op) :
    { d with queue := queueAll ops d.queue }.Tracks w :=
  ⟨h.expected, h.wanted, queueAll_le h.queue ops⟩

/-- **The next op is taken exactly when the flag is set and the queue is not empty.** -/
theorem Tracks.fetch (h : d.Tracks w) (late : List Op) :
    (d.fetchNewCommand = true ∧ isQueueEmpty d.queue = false ∧
        ∃ c, (d.fetch late).2 = [c] ∧ (d.fetch late).1.Tracks (w.step (.dequeued c.packet))) ∨
      (¬ (d.fetchNewCommand = true ∧ isQueueEmpty d.queue = false) ∧ (d.fetch late).2 = [] ∧
        (d.fetch late).1.Tracks w) := by
  by_cases hif : d.fetchNewCommand = true ∧ isQueueEmpty d.queue = false
  · left
    obtain ⟨hwant, hne⟩ := hif
    have hlt : (queueAll late d.queue).queueHead < (queueAll late d.queue).queueTail := by
      obtain ⟨hhead, htail⟩ := queueAll_indices late d.queue
      have hle := h.queue
      simp only [isQueueEmpty, decide_eq_false_iff_not] at hne
      omega
    have hdeq := dequeue_indices (h.queued late).queue
    have hsome : dequeueIntoSendPacket (queueAll late d.queue) =
        (some (headPacket (queueAll late d.queue)), dropHead (queueAll late d.queue)) := by
      rw [dequeueIntoSendPacket, if_pos hlt]
    simp only [hsome] at hdeq
    unfold Driver.fetch
    rw [hwant, hne, hsome]
    exact ⟨rfl, rfl, _, rfl, fun _ => rfl, fun _ => rfl, hdeq⟩
  · right
    have hoff : (d.fetchNewCommand && !isQueueEmpty d.queue) = false := by
      simpa using hif
    unfold Driver.fetch
    rw [hoff]
    exact ⟨hif, rfl, h.queued late⟩

/-- The timeout ends the wait. -/
theorem Tracks.onDelay (h : d.Tracks w) (delay : Nat) :
    ((d.onDelay delay).2 = [] ∧ (d.onDelay delay).1.Tracks w) ∨
      ∃ b, (d.onDelay delay).2 = [b] ∧ (d.onDelay delay).1.Tracks (w.step .timedOut) := by
  unfold Driver.onDelay
  split
  · dsimp only
    split
    · split
      · exact Or.inr ⟨_, rfl, ⟨fun hf => (by cases hf), fun hne => absurd rfl hne, h.queue⟩⟩
      · exact Or.inl ⟨rfl, h⟩
    · split
      · exact Or.inr ⟨_, rfl, ⟨fun hf => (by cases hf), fun hne => absurd rfl hne, h.queue⟩⟩
      · exact Or.inl ⟨rfl, h.expected, h.wanted, h.queue⟩
  · exact Or.inl ⟨rfl, h⟩

/-! ## One turn, and a run -/

/-- The window after the packet that a turn delivers. -/
theorem Window.steps_polled (t : Turn) :
    w.steps (if (d.poll stray t.arrived).activity.received then
        [.delivered (d.poll stray t.arrived).engine.handedOver] else []) = w.polled stray t d ∧
      w.Accepts (if (d.poll stray t.arrived).activity.received then
        [.delivered (d.poll stray t.arrived).engine.handedOver] else []) := by
  unfold Window.polled
  split
  · exact ⟨rfl, by simp [Window.Accepts]⟩
  · exact ⟨rfl, trivial⟩

/-- **One turn** keeps the observer in step, and takes an op out of turn exactly when the
queue is not empty with a disturbed command. -/
theorem Tracks.turn (h : d.Tracks w) (t : Turn) :
    (d.turn stray t).1.Tracks (w.steps (d.events stray t)) ∧
      (w.Accepts (d.events stray t) ↔ Spares stray t d w) := by
  have hacted := @Tracks.acted stray d w h t
  obtain ⟨hsteps, haccepts⟩ := @Window.steps_polled stray d w t
  have hqueue : (d.acted stray t).1.queue = d.queue := (acted_keeps stray t d).2
  -- what comes after the dequeue never takes an op
  have hlast : ∀ w' : Window, (d.served stray t).1.Tracks w' →
      (d.turn stray t).1.Tracks (w'.steps (((d.served stray t).1.onDelay
          (d.poll stray t.arrived).delay).2.map fun _ => .timedOut)) ∧
        w'.Accepts (((d.served stray t).1.onDelay (d.poll stray t.arrived).delay).2.map fun _ =>
          .timedOut) := by
    intro w' hserved
    rcases hserved.onDelay (d.poll stray t.arrived).delay with ⟨hnone, htracks⟩ | ⟨b, hone, htracks⟩
    · rw [hnone]
      exact ⟨htracks, trivial⟩
    · rw [hone]
      exact ⟨htracks, by simp [Window.Accepts]⟩
  have hwants : (w.polled stray t d).awaited ≠ none →
      (d.acted stray t).1.fetchNewCommand = (w.polled stray t d).disturbed := hacted.wanted
  unfold Driver.events
  rw [Window.steps_append, Window.steps_append, Window.accepts_append, Window.accepts_append,
    Window.steps_append, hsteps]
  unfold Spares
  rw [← hqueue]
  rcases (hacted.queued t.early).fetch t.late with
    ⟨hwant, hne, c, hc, hserved⟩ | ⟨hnot, hc, hserved⟩
  · have hcopied : (d.served stray t).2 = [c] := hc
    obtain ⟨htracks, haccepts'⟩ := hlast _ hserved
    rw [hcopied]
    refine ⟨htracks, ?_, ?_⟩
    · rintro ⟨⟨-, hfree, -⟩, -⟩ haw
      exact absurd (hfree ⟨c.packet, rfl⟩) haw
    · intro hspares
      refine ⟨⟨haccepts, fun _ => ?_, trivial⟩, haccepts'⟩
      by_contra haw
      have hempty := hspares haw ((hwants haw).symm.trans hwant)
      exact Bool.noConfusion (hempty.symm.trans hne)
  · have hcopied : (d.served stray t).2 = [] := hc
    obtain ⟨htracks, haccepts'⟩ := hlast _ hserved
    rw [hcopied]
    refine ⟨htracks, ?_, fun _ => ⟨⟨haccepts, trivial⟩, haccepts'⟩⟩
    intro _ haw hdisturbed
    by_contra hempty
    exact hnot ⟨(hwants haw).trans hdisturbed, by simpa using hempty⟩

/-- **A run**: the observer accepts it exactly when every turn spares the window. -/
theorem Tracks.run (h : d.Tracks w) (ts : List Turn) :
    w.Accepts (d.trace stray ts) ↔ SparesThroughout stray ts w d := by
  induction ts generalizing d w with
  | nil => exact Iff.rfl
  | cons t ts ih =>
    obtain ⟨htracks, hturn⟩ := @Tracks.turn stray d w h t
    unfold Driver.trace SparesThroughout
    rw [Window.accepts_append, hturn, ih htracks]

end Driver

/-- **The loop keeps to the window of one command** exactly in the runs in which the queue
is empty, whenever the loop looks at it after a packet that does not complete the command
awaited, until the Command Complete has been delivered. -/
theorem oneCommand_iff (stray : UInt8 → UInt8) (uart : List UInt8) (e : Engine) (ts : List Turn) :
    OneCommand ((Driver.start uart e).trace stray ts) ↔
      SparesThroughout stray ts .idle (Driver.start uart e) := by
  have htracks : (Driver.start uart e).Tracks .idle :=
    ⟨fun hf => (by cases hf), fun hne => absurd rfl hne, Nat.le_refl _⟩
  rw [← Window.accepts_idle]
  exact htracks.run ts

/-! ### A Command Status that releases the next command -/

/-- A Command Status event for the reset command, in a frame that acknowledges it. -/
def statusFrame : List UInt8 :=
  [0x08, 0x65, 0x00, 0x92, 0x0F, 0x04, 0x00, 0x01, 0x03, 0x0C, 0xC0]

/-- The event as it is delivered. -/
def statusPacket : Packet := ⟨5, 0, 6, [0x0F, 0x04, 0x00, 0x01, 0x03, 0x0C]⟩

/-- The reset command as it is dequeued. -/
def resetPacket : Packet := ⟨5, 1, 3, [0x03, 0x0C, 0x00]⟩

/-- **The next command is taken after a Command Status**: two commands are queued, and the
controller answers the first with a Command Status. -/
theorem exists_released_early :
    ∃ uart e ts, hciOpenDeviceInternal id startUp = .opened uart e ∧
      ¬ OneCommand ((Driver.start uart e).trace id ts) := by
  refine ⟨_, _, [⟨[], [reset, reset], []⟩, ⟨statusFrame, [], []⟩], rfl, ?_⟩
  intro h
  obtain ⟨ev, hev, hr⟩ := h [] resetPacket [.delivered statusPacket] resetPacket []
    (by decide +kernel)
    0x0C03 (by decide)
  rw [List.mem_singleton] at hev
  subst hev
  exact absurd hr (by decide)

end OpenwrtFeed.HciPoll
