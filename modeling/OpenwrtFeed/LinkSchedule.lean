import OpenwrtFeed.LossyLink

/-! # The two stations under a schedule

The steps of two stations leave open who takes the next one, and what becomes of the frames.
A schedule names the steps one after the other, and then the stations run: the pair that they
come to can be computed, and is one that can be reached (`linkSchedule_reachable`).  A step
that is not possible is passed over.
-/
namespace OpenwrtFeed.Ubcsp

/-! ## What is possible can be decided -/

instance (p : Packet) : Decidable p.Encodable :=
  decidable_of_iff ((p.reliable = 0 ∨ p.reliable = 1) ∧ p.channel.toNat < 16 ∧
    p.length.toNat = p.payload.length ∧ p.payload.length < 4096)
    ⟨fun h => ⟨h.1, h.2.1, h.2.2.1, h.2.2.2⟩, fun h => ⟨h.1, h.2, h.3, h.4⟩⟩

instance (p : Packet) : Decidable p.Sendable :=
  decidable_of_iff (p.Encodable ∧ p.channel ≠ 1 ∧ 1 ≤ p.payload.length ∧ p.payload.length ≤ 510)
    ⟨fun h => ⟨h.1, h.2.1, h.2.2.1, h.2.2.2⟩, fun h => ⟨h.1, h.2, h.3, h.4⟩⟩

instance (f : WireFrame) : Decidable f.Lost := inferInstanceAs (Decidable (_ ∧ _))

/-! ## Schedules -/

/-- The steps of one station that a schedule may name; what becomes of a frame becomes of the
oldest one of its line.  `cut n` leaves `n` octets of it. -/
inductive Station.Action
  | poll (n : Nat)
  | submit (p : Packet)
  | rearm (q : Packet)
  | drop
  | cut (n : Nat)
  | deliver

/-- The station `x`, facing `y`, after the step, if it is possible. -/
def Station.act (x y : Station) : Station.Action → Station × Station
  | .poll n => (x.poll n, y)
  | .submit p =>
    if x.canSend = true ∧ p.Sendable ∧ p.reliable = 1 then
      ({ x with
        engine := ubcspSendPacket p x.engine
        submitted := x.submitted ++ [p]
        canSend := false }, y)
    else (x, y)
  | .rearm q =>
    if x.engine.receiveArmed = false ∧ 512 ≤ q.length.toNat ∧ q.length.toNat ≤ q.payload.length then
      ({ x with engine := ubcspReceivePacket q x.engine }, y)
    else (x, y)
  | .drop =>
    match x.flight with
    | _ :: after => ({ x with flight := after }, y)
    | [] => (x, y)
  | .cut n =>
    match x.flight with
    | f :: after => ({ x with flight := f.cut (f.octets.take n) :: after }, y)
    | [] => (x, y)
  | .deliver =>
    match x.flight with
    | f :: after =>
      if f.Lost then (x, y) else ({ x with flight := after }, { y with inbox := y.inbox ++ f.wire })
    | [] => (x, y)

/-- What a schedule names is a step of the station, or none. -/
theorem Station.act_cases (x y : Station) (a : Station.Action) :
    StationStep x y (x.act y a).1 (x.act y a).2 ∨ x.act y a = (x, y) := by
  cases a <;> unfold Station.act <;> dsimp only
  case poll n => exact Or.inl (.poll n)
  case submit p =>
    split
    · rename_i hp
      exact Or.inl (.submit p hp.1 hp.2.1 hp.2.2)
    · exact Or.inr rfl
  case rearm q =>
    split
    · rename_i hq
      exact Or.inl (.rearm q hq.1 hq.2.1 hq.2.2)
    · exact Or.inr rfl
  case drop =>
    split
    · rename_i f after hf
      exact Or.inl (@StationStep.drop x y [] after f hf)
    · exact Or.inr rfl
  case cut n =>
    split
    · rename_i f after hf
      exact Or.inl (@StationStep.cut x y [] after f _ hf (List.take_prefix n f.octets))
    · exact Or.inr rfl
  case deliver =>
    split
    · split
      · exact Or.inr rfl
      · exact Or.inl (.deliver ‹_› ‹_›)
    · exact Or.inr rfl

/-- A step of one of the two stations. -/
inductive LinkAction
  | left (a : Station.Action)
  | right (a : Station.Action)

/-- The two stations after the step. -/
def LinkAction.act (s : Station × Station) : LinkAction → Station × Station
  | left a => s.1.act s.2 a
  | right a => (s.2.act s.1 a).swap

theorem LinkAction.act_reachable {s : Station × Station} (h : LinkReachable s.1 s.2)
    (a : LinkAction) :
    LinkReachable (act s a).1 (act s a).2 := by
  obtain ⟨x, y⟩ := s
  cases a with
  | left a =>
    rcases x.act_cases y a with hstep | hsame
    · exact h.left hstep
    · show LinkReachable (x.act y a).1 (x.act y a).2
      rw [hsame]
      exact h
  | right a =>
    rcases y.act_cases x a with hstep | hsame
    · exact h.right hstep
    · show LinkReachable (y.act x a).2 (y.act x a).1
      rw [hsame]
      exact h

/-- The stations after a schedule. -/
def linkSchedule (stray stray' : UInt8 → UInt8) (as : List LinkAction) : Station × Station :=
  as.foldl LinkAction.act (.start stray, .start stray')

/-- **Every schedule leads to a pair of stations that can be reached.** -/
theorem linkSchedule_reachable (stray stray' : UInt8 → UInt8) (as : List LinkAction) :
    LinkReachable (linkSchedule stray stray' as).1 (linkSchedule stray stray' as).2 := by
  have run : ∀ s : Station × Station, LinkReachable s.1 s.2 →
      LinkReachable (as.foldl LinkAction.act s).1 (as.foldl LinkAction.act s).2 := by
    induction as with
    | nil => exact fun s h => h
    | cons a as ih => exact fun s h => ih (a.act s) (a.act_reachable h)
  exact run _ (.start stray stray')

/-! ### An exchange with losses -/

/-- A receive packet of 512 octets. -/
def emptyPacket : Packet := ⟨0, 0, 512, List.replicate 512 0⟩

/-- A packet whose payload has an escape. -/
def resetPacket : Packet := ⟨5, 1, 3, [0x03, 0xC0, 0x00]⟩

/-- Each side makes a call `n` times. -/
def calls (n : Nat) : List LinkAction :=
  (List.replicate n [.left (.poll 64), .right (.poll 64)]).flatten

/-- Each side makes a call `n` times, and the oldest frame of each line arrives. -/
def linkTurns (n : Nat) : List LinkAction :=
  (List.replicate n [.left (.poll 64), .right (.poll 64), .left .deliver, .right .deliver]).flatten

/-- The two sides establish the link, and one of them submits a packet.  Its frame is lost, and
of the frame that is sent then six octets arrive. -/
def lossyStart : List LinkAction :=
  .left (.rearm emptyPacket) :: .right (.rearm emptyPacket) :: linkTurns 90 ++
    .left (.submit resetPacket) :: calls 12 ++
    [.left .deliver, .left .drop] ++ calls 38 ++ [.left (.cut 6), .left .deliver]

/-- The packet is sent a third time, and acknowledged. -/
def lossyExchange : List LinkAction := lossyStart ++ linkTurns 26

/-- After the losses the packet is still being sent. -/
theorem lossyStart_ends :
    let s := linkSchedule id id lossyStart
    s.1.submitted = [resetPacket] ∧ s.1.engine.sendPacket = some resetPacket ∧
      s.2.received = [] := by
  decide +kernel

/-- In the end it has arrived once. -/
theorem lossyExchange_ends :
    let s := linkSchedule id id lossyExchange
    s.1.submitted = [resetPacket] ∧ s.2.received = [resetPacket] ∧ s.1.cleared = [resetPacket] ∧
      s.1.engine.linkEstablishmentState = .active ∧ s.2.engine.linkEstablishmentState =
        .active := by
  decide +kernel

end OpenwrtFeed.Ubcsp
