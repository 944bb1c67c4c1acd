import OpenwrtFeed.BridgedLink
import OpenwrtFeed.LinkSchedule

/-! # The system under a schedule

The steps of the system leave open who takes the next one.  A schedule names the steps one
after the other, and then the system runs: the state that it comes to can be computed, and is
one that can be reached (`schedule_bridged`).  A step that is not possible is passed over.
-/
namespace OpenwrtFeed.HciPoll
open Ubcsp HciQueue HciBridge

/-! ## What is possible can be decided -/

instance (op : Op) : Decidable (Queued op) :=
  decidable_of_iff (op.length = UInt16.ofNat op.value.length ∧ op.value.length ≤ 4095 ∧
    (op.channel = 5 ∨ op.channel = 6)) ⟨fun h => ⟨h.1, h.2.1, h.2.2⟩, fun h => ⟨h.1, h.2, h.3⟩⟩

instance (op : Op) : Decidable (Deliverable op) :=
  decidable_of_iff (Queued op ∧ 1 ≤ op.value.length ∧ op.value.length ≤ 510)
    ⟨fun h => ⟨h.1, h.2.1, h.2.2⟩, fun h => ⟨h.1, h.2, h.3⟩⟩

instance (stray : UInt8 → UInt8) (d : Driver) (t : Turn) : Decidable (Fits stray d t) :=
  decidable_of_iff ((∀ op ∈ t.ops, Deliverable op) ∧ d.queue.queueTail + t.ops.length ≤ capacity ∧
    ∀ c ∈ (d.turn stray t).2.copied, c.held = none)
    ⟨fun h => ⟨h.1, h.2.1, h.2.2⟩, fun h => ⟨h.1, h.2, h.3⟩⟩

/-! ## Schedules -/

/-- The steps that a schedule may name; a frame that is lost or delivered is the oldest one of
its line. -/
inductive Action
  | openTurn (n : Nat)
  | start
  | pollTurn (n : Nat) (early late : List Op)
  | drop
  | deliver
  | controllerPoll (n : Nat)
  | controllerSubmit (p : Packet)
  | controllerRearm (q : Packet)
  | controllerDrop
  | controllerDeliver

/-- The system after the step, if it is possible. -/
def act (s : Bridge × Station) : Action → Bridge × Station
  | .openTurn n =>
    match s.1.stage with
    | .opening timeout uart e => (s.1.openTurn n timeout uart e, s.2)
    | _ => s
  | .start =>
    match s.1.stage with
    | .opened uart e => ({ s.1 with stage := .polling (.start uart e) }, s.2)
    | _ => s
  | .pollTurn n early late =>
    match s.1.stage with
    | .polling d =>
      if Fits s.1.stray d (s.1.turnOf n early late) then (s.1.pollTurn n early late d, s.2) else s
    | _ => s
  | .drop =>
    match s.1.flight with
    | _ :: after => ({ s.1 with flight := after }, s.2)
    | [] => s
  | .deliver =>
    match s.1.flight with
    | f :: after =>
      if f.Lost then s else ({ s.1 with flight := after }, { s.2 with
        inbox := s.2.inbox ++ f.wire })
    | [] => s
  | .controllerPoll n => (s.1, s.2.poll n)
  | .controllerSubmit p =>
    if s.2.canSend = true ∧ p.Sendable ∧ p.reliable = 1 then
      (s.1, { s.2 with
        engine := ubcspSendPacket p s.2.engine
        submitted := s.2.submitted ++ [p]
        canSend := false })
    else s
  | .controllerRearm q =>
    if s.2.engine.receiveArmed = false ∧ 512 ≤ q.length.toNat ∧
      q.length.toNat ≤ q.payload.length then
      (s.1, { s.2 with engine := ubcspReceivePacket q s.2.engine })
    else s
  | .controllerDrop =>
    match s.2.flight with
    | _ :: after => (s.1, { s.2 with flight := after })
    | [] => s
  | .controllerDeliver =>
    match s.2.flight with
    | f :: after => if f.Lost then s else
    ({ s.1 with air := s.1.air ++ f.wire }, { s.2 with flight := after })
    | [] => s

/-- The system after a schedule. -/
def schedule (stray stray' : UInt8 → UInt8) (as : List Action) : Bridge × Station :=
  as.foldl act (.start stray, .start stray')

/-- A step that a schedule names is a step of the system, or none. -/
theorem act_bridged {s : Bridge × Station} (h : Bridged s.1 s.2) (a : Action) :
    Bridged (act s a).1 (act s a).2 := by
  obtain ⟨b, y⟩ := s
  cases a <;> unfold act <;> dsimp only
  case openTurn n =>
    split
    · exact h.bridge (.openTurn n ‹_›)
    · exact h
  case start =>
    split
    · exact h.bridge (.start ‹_›)
    · exact h
  case pollTurn n early late =>
    split
    · split
      · exact h.bridge (.pollTurn n early late ‹_› ‹_›)
      · exact h
    · exact h
  case drop =>
    split
    · rename_i f after hf
      exact h.bridge (@BridgeStep.drop b y [] after f hf)
    · exact h
  case deliver =>
    split
    · split
      · exact h
      · exact h.bridge (.deliver ‹_› ‹_›)
    · exact h
  case controllerPoll n => exact h.controller y (.poll n)
  case controllerSubmit p =>
    split
    · rename_i hp
      exact h.controller y (.submit p hp.1 hp.2.1 hp.2.2)
    · exact h
  case controllerRearm q =>
    split
    · rename_i hq
      exact h.controller y (.rearm q hq.1 hq.2.1 hq.2.2)
    · exact h
  case controllerDrop =>
    split
    · rename_i f after hf
      exact h.controller y (@StationStep.drop y y [] after f hf)
    · exact h
  case controllerDeliver =>
    split
    · split
      · exact h
      · exact h.deliver ‹_› ‹_›
    · exact h

/-- **Every schedule leads to a state that can be reached.** -/
theorem schedule_bridged (stray stray' : UInt8 → UInt8) (as : List Action) :
    Bridged (schedule stray stray' as).1 (schedule stray stray' as).2 := by
  have run : ∀ s : Bridge × Station, Bridged s.1 s.2 →
      Bridged (as.foldl act s).1 (as.foldl act s).2 := by
    induction as with
    | nil => exact fun s h => h
    | cons a as ih => exact fun s h => ih (act s a) (act_bridged h a)
  exact run _ (.start stray stray')

/-! ### An exchange -/

/-- An event of two octets. -/
def anEvent : Packet := ⟨5, 1, 2, [0x0E, 0x01]⟩

/-- Each side makes a call `n` times, and the oldest frame of each line arrives. -/
def inTurns (n : Nat) (a : Action) : List Action :=
  (List.replicate n [a, .controllerPoll 64, .deliver, .controllerDeliver]).flatten

/-- The two sides establish the link, the controller sends an event that ends the opening, the
session thread queues an op, and when it has arrived the controller sends another event. -/
def exchange : List Action :=
  .controllerRearm receivePacket :: inTurns 84 (.openTurn 64) ++
    .controllerSubmit anEvent :: inTurns 24 (.openTurn 64) ++
    .start :: .pollTurn 64 [reset] [] :: inTurns 14 (.pollTurn 64 [] []) ++
    .controllerSubmit anEvent :: inTurns 18 (.pollTurn 64 [] [])

/-- The op has reached the controller, and the second event the client. -/
theorem exchange_ends :
    let s := schedule id id exchange
    s.1.queued = [reset] ∧ s.2.received = [reset.packet] ∧
      s.1.sent = [⟨hciEvent, [0x0E, 0x01], 2⟩] := by
  decide +kernel

/-- So it is in the system as a whole. -/
theorem carries_exchange :
    let s := schedule id id exchange
    s.2.received = [reset.packet] ∧ Carries s.1 s.2 :=
  ⟨exchange_ends.2.1, Bridged.carries (schedule_bridged id id exchange)⟩

end OpenwrtFeed.HciPoll
