import OpenwrtFeed.DriverQueue
import OpenwrtFeed.HciForwarding
import OpenwrtFeed.LinkNumbers

/-! # The bridge and the controller

The whole path between the session thread and the controller, as one system.  On one side
runs the poll thread of the bridge, first `hci_open_device_internal` and then `hci_do_poll`,
with the ops that the session thread queues; on the other side is a station whose upper
layer does what it likes; between them is the lossy line of `LossyLink`.

The bridge is a station to the controller: whatever it does in one turn of its loops is a
number of steps of a station (`Bridge.Represents`).  So what holds of two stations holds of
the bridge, and the two together say what becomes of an op on its way to the controller, and
of an event on its way to the client (`Bridged.carries`).

The steps of the system leave out what the loop does not survive: an op that the engine
cannot send or that finds no room in the arrays of the queue, and an op that is copied while
the engine still holds another one (`Fits`); `one_outstanding` says when the latter cannot
happen.  As on the line of two stations, a piece of a frame that is `Lost` never arrives.  The
stages of the poll thread are those of the two loops (`Bridged.follows`).
-/
namespace OpenwrtFeed.HciPoll
open Ubcsp HciQueue HciBridge

/-! ## The poll thread -/

/-- How far the poll thread has come: `hci_open_device_internal` is polling, has given up, or
has returned; or `hci_do_poll` is at the head of its loop. -/
inductive Stage
  | opening (timeout : Nat) (uart : List UInt8) (engine : Engine)
  | failed (uart : List UInt8) (engine : Engine)
  | opened (uart : List UInt8) (engine : Engine)
  | polling (d : Driver)

namespace Stage

def engine : Stage → Engine
  | opening _ _ e => e
  | failed _ e => e
  | opened _ e => e
  | polling d => d.engine

def uart : Stage → List UInt8
  | opening _ uart _ => uart
  | failed uart _ => uart
  | opened uart _ => uart
  | polling d => d.uart

/-- The variables of `hci_open_device_internal` after one turn of its loop. -/
def openTurn (stray : UInt8 → UInt8) (arrived : List UInt8) (timeout : Nat) (uart : List UInt8)
    (e : Engine) : Stage :=
  let r := ubcspPoll stray (uart ++ arrived) e
  if r.activity.received then .opened r.rest r.engine
  else if r.delay ≠ 0 then
    if 5000 < timeout then .failed r.rest r.engine else .opening (timeout + 1) r.rest r.engine
  else .opening timeout r.rest r.engine

/-- How a turn of that loop may end. -/
theorem openTurn_cases (stray : UInt8 → UInt8) (arrived : List UInt8) (timeout : Nat)
    (uart : List UInt8) (e : Engine) :
    let r := ubcspPoll stray (uart ++ arrived) e
    (r.activity.received = true ∧ openTurn stray arrived timeout uart e = .opened r.rest r.engine) ∨
      r.activity.received = false ∧
        (openTurn stray arrived timeout uart e = .failed r.rest r.engine ∨
        ∃ timeout', openTurn stray arrived timeout uart e = .opening timeout' r.rest r.engine) := by
  unfold openTurn
  dsimp only
  split
  · rename_i hrec
    exact Or.inl ⟨hrec, rfl⟩
  · rename_i hrec
    refine Or.inr ⟨by simpa using hrec, ?_⟩
    split
    · split
      · exact Or.inl rfl
      · exact Or.inr ⟨_, rfl⟩
    · exact Or.inr ⟨_, rfl⟩

end Stage

/-- The loop of `hci_open_device_internal` takes these turns. -/
theorem openLoop_cons (stray : UInt8 → UInt8) (arrived : List UInt8) (turns : List (List UInt8))
    (timeout : Nat) (uart : List UInt8) (e : Engine) :
    openLoop stray (arrived :: turns) timeout uart e =
      match Stage.openTurn stray arrived timeout uart e with
      | .opening timeout' uart' e' => openLoop stray turns timeout' uart' e'
      | .failed _ _ => .timedOut
      | .opened uart' e' => .opened uart' e'
      | .polling d => .opened d.uart d.engine := by
  rw [openLoop]
  unfold Stage.openTurn
  dsimp only
  split
  · rfl
  · split
    · split <;> rfl
    · rfl

/-! ## The system -/

/-- The bridge: its poll thread, the line to the controller, the octets that have come in on
the other line and have not reached the UART, and a record of the ops queued, the ops copied
and the calls of `hci_bridge_send` of the poll thread. -/
structure Bridge where
  stray : UInt8 → UInt8
  stage : Stage
  sending : Option WireFrame
  flight : List WireFrame
  air : List UInt8
  queued : List Op
  copied : List Copy
  sent : List BridgeSend

namespace Bridge

/-- `hci_open_device_internal` has called `ubcsp_initialize` and `ubcsp_receive_packet`. -/
def start (stray : UInt8 → UInt8) : Bridge where
  stray := stray
  stage := .opening 0 [] (ubcspReceivePacket receivePacket (ubcspInitialize .zero))
  sending := none
  flight := []
  air := []
  queued := []
  copied := []
  sent := []

/-- The bridge as a station that has no record of its own. -/
def station (b : Bridge) : Station :=
  { Station.start b.stray with
    engine := b.stage.engine
    sending := b.sending
    flight := b.flight
    inbox := b.stage.uart ++ b.air }

/-- One turn of a loop puts `tx` on the line, takes `n` octets into the UART, and ends at
`stage`. -/
def goOn (n : Nat) (tx : List UInt8) (stage : Stage) (b : Bridge) : Bridge :=
  { b with
    stage := stage
    flight := (b.station.line tx).1
    sending := (b.station.line tx).2
    air := b.air.drop n }

/-- A turn of `hci_open_device_internal` to which `n` octets arrive. -/
def openTurn (n timeout : Nat) (uart : List UInt8) (e : Engine) (b : Bridge) : Bridge :=
  b.goOn n (ubcspPoll b.stray (uart ++ b.air.take n) e).tx
    (.openTurn b.stray (b.air.take n) timeout uart e)

/-- What arrives and is queued in a turn of `hci_do_poll`. -/
def turnOf (n : Nat) (early late : List Op) (b : Bridge) : Turn := ⟨b.air.take n, early, late⟩

/-- A turn of `hci_do_poll` to which `n` octets arrive. -/
def pollTurn (n : Nat) (early late : List Op) (d : Driver) (b : Bridge) : Bridge :=
  let t := b.turnOf n early late
  let r := d.turn b.stray t
  { b.goOn n (d.poll b.stray t.arrived).tx (.polling r.1) with
    queued := b.queued ++ t.ops
    copied := b.copied ++ r.2.copied
    sent := b.sent ++ r.2.sent }

end Bridge

/-- What the loop survives: the ops can be delivered, the arrays of the queue have room for
them, and the engine holds nothing when an op is copied. -/
structure Fits (stray : UInt8 → UInt8) (d : Driver) (t : Turn) : Prop where
  ops : ∀ op ∈ t.ops, Deliverable op
  room : d.queue.queueTail + t.ops.length ≤ capacity
  free : ∀ c ∈ (d.turn stray t).2.copied, c.held = none

/-- One step of the bridge, facing the controller. -/
inductive BridgeStep : Bridge → Station → Bridge → Station → Prop
  | openTurn {b : Bridge} {y : Station} {timeout : Nat} {uart : List UInt8} {e : Engine} (n : Nat) :
      b.stage = .opening timeout uart e → BridgeStep b y (b.openTurn n timeout uart e) y
  | start {b : Bridge} {y : Station} {uart : List UInt8} {e : Engine} :
      b.stage = .opened uart e → BridgeStep b y { b with stage := .polling (.start uart e) } y
  | pollTurn {b : Bridge} {y : Station} {d : Driver} (n : Nat) (early late : List Op) :
      b.stage = .polling d → Fits b.stray d (b.turnOf n early late) →
      BridgeStep b y (b.pollTurn n early late d) y
  | drop {b : Bridge} {y : Station} {before after : List WireFrame} {f : WireFrame} :
      b.flight = before ++ f :: after → BridgeStep b y { b with flight := before ++ after } y
  | cut {b : Bridge} {y : Station} {before after : List WireFrame} {f : WireFrame}
      {w : List UInt8} :
      b.flight = before ++ f :: after → w <+: f.octets →
      BridgeStep b y { b with flight := before ++ f.cut w :: after } y
  | deliver {b : Bridge} {y : Station} {after : List WireFrame} {f : WireFrame} :
      b.flight = f :: after → ¬ f.Lost →
      BridgeStep b y { b with flight := after } { y with inbox := y.inbox ++ f.wire }

/-- The bridge and the controller, as they can be reached.  The steps of the controller are
those of a station: it takes a step that concerns no other station, or its oldest frame
arrives. -/
inductive Bridged : Bridge → Station → Prop
  | start (stray stray' : UInt8 → UInt8) : Bridged (.start stray) (.start stray')
  | bridge {b b' : Bridge} {y y' : Station} : Bridged b y → BridgeStep b y b' y' → Bridged b' y'
  | controller {b : Bridge} {y y' : Station} (z : Station) :
      Bridged b y → StationStep y z y' z → Bridged b y'
  | deliver {b : Bridge} {y : Station} {after : List WireFrame} {f : WireFrame} :
      Bridged b y → y.flight = f :: after → ¬ f.Lost →
      Bridged { b with air := b.air ++ f.wire } { y with flight := after }

/-! ## The stages follow the loops -/

/-- The bridge is where its two loops are after some turns: they go on from there with
whatever comes next, and the record is that of these turns. -/
def Bridge.Follows (b : Bridge) : Prop :=
  match b.stage with
  | .opening timeout uart e => (b.queued = [] ∧ b.copied = [] ∧ b.sent = []) ∧ ∃ turns, ∀ more,
      hciOpenDeviceInternal b.stray (turns ++ more) = openLoop b.stray more timeout uart e
  | .failed _ _ => ∃ turns, hciOpenDeviceInternal b.stray turns = .timedOut
  | .opened uart e => (b.queued = [] ∧ b.copied = [] ∧ b.sent = []) ∧
      ∃ turns, hciOpenDeviceInternal b.stray turns = .opened uart e
  | .polling d => ∃ turns uart e, hciOpenDeviceInternal b.stray turns = .opened uart e ∧
      ∃ ts, b.queued = ts.flatMap Turn.ops ∧ ∃ polled, ∀ more,
        (Driver.start uart e).run b.stray (ts ++ more) =
          ((d.run b.stray more).1, (Log.mk polled b.copied b.sent).append (d.run b.stray more).2)

theorem Bridge.Follows.openTurn {b : Bridge} (h : b.Follows) {timeout : Nat} {uart : List UInt8}
    {e : Engine} (hs : b.stage = .opening timeout uart e) (n : Nat) :
    (b.openTurn n timeout uart e).Follows := by
  simp only [Bridge.Follows, hs] at h
  obtain ⟨hrecord, turns, hturns⟩ := h
  have hloop : ∀ more, hciOpenDeviceInternal b.stray ((turns ++ [b.air.take n]) ++ more) =
      openLoop b.stray (b.air.take n :: more) timeout uart e := by
    intro more
    rw [List.append_assoc, List.singleton_append, hturns]
  have hcons := fun more => openLoop_cons b.stray (b.air.take n) more timeout uart e
  have hstage : (b.openTurn n timeout uart e).stage =
      .openTurn b.stray (b.air.take n) timeout uart e := rfl
  unfold Bridge.Follows
  rw [hstage]
  rcases Stage.openTurn_cases b.stray (b.air.take n) timeout uart e with
    ⟨-, hends⟩ | ⟨-, hends | ⟨timeout', hends⟩⟩
  all_goals simp only [hends] at hcons ⊢
  · refine ⟨hrecord, turns ++ [b.air.take n], ?_⟩
    have := hloop []
    rwa [List.append_nil, hcons] at this
  · refine ⟨turns ++ [b.air.take n], ?_⟩
    have := hloop []
    rwa [List.append_nil, hcons] at this
  · exact ⟨hrecord, turns ++ [b.air.take n], fun more => (hloop more).trans (hcons more)⟩

theorem Bridge.Follows.start {b : Bridge} (h : b.Follows) {uart : List UInt8} {e : Engine}
    (hs : b.stage = .opened uart e) :
    Bridge.Follows { b with stage := .polling (.start uart e) } := by
  simp only [Bridge.Follows, hs] at h
  obtain ⟨⟨hqueued, hcopied, hsent⟩, turns, hturns⟩ := h
  refine ⟨turns, uart, e, hturns, [], hqueued, [], ?_⟩
  intro more
  rw [hcopied, hsent]
  rfl

theorem Bridge.Follows.pollTurn {b : Bridge} (h : b.Follows) {d : Driver}
    (hs : b.stage = .polling d) (n : Nat) (early late : List Op) :
    (b.pollTurn n early late d).Follows := by
  simp only [Bridge.Follows, hs] at h
  obtain ⟨turns, uart, e, hopen, ts, hqueued, polled, hrun⟩ := h
  let t := b.turnOf n early late
  refine ⟨turns, uart, e, hopen, ts ++ [t], ?_,
    polled ++ (d.turn b.stray t).2.polled, ?_⟩
  · show b.queued ++ t.ops = _
    rw [hqueued, List.flatMap_append, List.flatMap_singleton]
  · intro more
    have hturn : (Driver.start uart e).run b.stray ((ts ++ [t]) ++ more) =
        ((d.run b.stray (t :: more)).1,
          (Log.mk polled b.copied b.sent).append (d.run b.stray (t :: more)).2) := by
      rw [List.append_assoc, List.singleton_append, hrun]
    refine hturn.trans (Prod.ext rfl ?_)
    show Log.append _ (Log.append _ _) = Log.append (Log.mk _ (b.copied ++ _) (b.sent ++ _)) _
    simp only [Log.append, List.append_assoc]
    rfl

/-- **The stages of the bridge are those of the source**: in every state of the system, the
poll thread is where `hci_open_device_internal` and `hci_do_poll` are after the turns taken so
far, and what has been queued, copied and sent is the record of these turns. -/
theorem Bridged.follows {b : Bridge} {y : Station} (h : Bridged b y) : b.Follows := by
  induction h with
  | start stray stray' => exact ⟨⟨rfl, rfl, rfl⟩, [], fun _ => rfl⟩
  | bridge _ hstep ih =>
    cases hstep with
    | openTurn n hs => exact ih.openTurn hs n
    | start hs => exact ih.start hs
    | pollTurn n early late hs _ => exact ih.pollTurn hs n early late
    | drop _ => exact ih
    | cut _ _ => exact ih
    | deliver _ _ => exact ih
  | controller _ _ _ ih => exact ih
  | deliver _ _ _ ih => exact ih

/-- While `hci_do_poll` runs, the driver is the one that its turns make of the one it started
with, and the bridge has copied and sent what these turns have. -/
theorem Bridged.runs {b : Bridge} {y : Station} (h : Bridged b y) {d : Driver}
    (hs : b.stage = .polling d) :
    ∃ turns uart e ts, hciOpenDeviceInternal b.stray turns = .opened uart e ∧
      ((Driver.start uart e).run b.stray ts).1 = d ∧ ts.flatMap Turn.ops = b.queued ∧
      ((Driver.start uart e).run b.stray ts).2.copied = b.copied ∧
      ((Driver.start uart e).run b.stray ts).2.sent = b.sent := by
  have hfollows := h.follows
  simp only [Bridge.Follows, hs] at hfollows
  obtain ⟨turns, uart, e, hopen, ts, hqueued, polled, hrun⟩ := hfollows
  have hnow := hrun []
  rw [List.append_nil] at hnow
  refine ⟨turns, uart, e, ts, hopen, ?_, hqueued.symm, ?_, ?_⟩
  · rw [hnow]
    rfl
  · rw [hnow]
    exact List.append_nil _
  · rw [hnow]
    exact List.append_nil _

/-! ## The bridge is a station -/

/-- What the bridge has pending. -/
def Stage.pending : Stage → List Op
  | .polling d => d.queue.pending
  | _ => []

/-- What a stage needs in order to go on, when the packets `received` have been reported so
far: none until `hci_open_device_internal` returns, which throws the first one away. -/
def Stage.Ready (received : List Packet) : Stage → Prop
  | .opening _ _ e => received = [] ∧ ∃ p, Fresh p true e
  | .failed _ _ => received = []
  | .opened _ e => received.length = 1 ∧ Fresh .empty false e
  | .polling d => received ≠ [] ∧ Orderly Deliverable d.queue ∧ ∃ p, d.Listens p

/-- The bridge is at the station `x`: its engine and its lines are those of the station, the
ops it has copied are the packets that the station has submitted, and what it has sent to the
client is what the station has received. -/
structure Bridge.Represents (b : Bridge) (x : Station) : Prop where
  engine : x.engine = b.stage.engine
  stray : x.stray = b.stray
  sending : x.sending = b.sending
  flight : x.flight = b.flight
  inbox : x.inbox = b.stage.uart ++ b.air
  submitted : x.submitted = b.copied.map Copy.packet
  fifo : ∃ taken, b.copied.map Copy.packet = taken.map Op.packet ∧
    Fifo [] b.queued taken b.stage.pending
  sent : b.sent.filter fromController = x.received.tail.filterMap forward
  ready : b.stage.Ready x.received

theorem Bridge.start_represents (stray stray' : UInt8 → UInt8) :
    ∃ x, LinkReachable x (.start stray') ∧ (Bridge.start stray).Represents x := by
  have hroom : 512 ≤ (List.replicate 512 (0 : UInt8)).length := by rw [List.length_replicate]
  exact ⟨{ Station.start stray with
      engine := ubcspReceivePacket receivePacket (ubcspInitialize .zero) },
    (LinkReachable.start stray stray').left (.rearm receivePacket rfl (by decide) hroom),
    rfl, rfl, rfl, rfl, rfl, rfl, ⟨[], rfl, rfl⟩, rfl, rfl, .empty, fresh_start⟩

/-- What the station `x` has become after the poll of a turn, and with the engine `e`. -/
structure Polled (b : Bridge) (n : Nat) (r : PollResult) (e : Engine) (x x' : Station) : Prop where
  engine : x'.engine = e
  stray : x'.stray = b.stray
  sending : x'.sending = (b.station.line r.tx).2
  flight : x'.flight = (b.station.line r.tx).1
  inbox : x'.inbox = r.rest ++ b.air.drop n
  submitted : x'.submitted = x.submitted
  received : x'.received = x.received ++ if r.activity.received then [r.engine.handedOver] else []

/-- **The poll of a turn is a call of the station.** -/
theorem Bridge.Represents.poll {b : Bridge} {x : Station} (h : b.Represents x) (n : Nat) :
    let r := ubcspPoll b.stray (b.stage.uart ++ b.air.take n) b.stage.engine
    Polled b n r r.engine x (x.poll (b.stage.uart.length + n)) := by
  have htake : x.inbox.take (b.stage.uart.length + n) = b.stage.uart ++ b.air.take n := by
    rw [h.inbox, List.take_length_add_append]
  have hdrop : x.inbox.drop (b.stage.uart.length + n) = b.air.drop n := by
    rw [h.inbox, List.drop_length_add_append]
  have hcall : ubcspPoll x.stray (x.inbox.take (b.stage.uart.length + n)) x.engine =
      ubcspPoll b.stray (b.stage.uart ++ b.air.take n) b.stage.engine := by
    rw [h.stray, htake, h.engine]
  have hline := fun tx => @Station.line_congr x b.station h.engine h.sending h.flight tx
  dsimp only
  rw [← hcall]
  refine ⟨rfl, h.stray, ?_, ?_, ?_, rfl, ?_⟩
  · rw [← hline]
    rfl
  · rw [← hline]
    rfl
  · rw [← hdrop]
    rfl
  · have happend : ∀ (c : Bool) (q : Packet),
        (if c then x.received ++ [q] else x.received) = x.received ++ if c then [q] else [] := by
      intro c q
      cases c with
      | true => rfl
      | false => exact (List.append_nil _).symm
    exact happend _ _

/-- The packet that is handed over is forwarded as the packet that the engine still has. -/
theorem forward_handedOver {e : Engine} (h : 1 ≤ e.handedOver.payload.length) :
    forward e.handedOver = forward e.receivePacket := by
  have hpos : 0 < e.receivePacket.length.toNat := by
    have hle : e.handedOver.payload.length ≤ e.receivePacket.length.toNat := List.length_take_le _ _
    omega
  have hfirst : e.handedOver.payload.getD 0 0 = e.receivePacket.payload.getD 0 0 := by
    rw [List.getD_eq_getElem?_getD, List.getD_eq_getElem?_getD]
    show ((e.receivePacket.payload.take _)[0]?).getD 0 = _
    rw [List.getElem?_take_of_lt hpos]
  have htake : e.handedOver.payload.take e.handedOver.length.toNat =
      e.receivePacket.payload.take e.receivePacket.length.toNat := by
    show (e.receivePacket.payload.take e.receivePacket.length.toNat).take
        e.receivePacket.length.toNat = _
    rw [List.take_take, Nat.min_self]
  unfold forward
  rw [hfirst, htake]
  rfl

/-! ## One turn of `hci_do_poll` -/

namespace Driver
variable {stray : UInt8 → UInt8} {d : Driver}

/-- What is left in the UART, and what is sent for the controller. -/
theorem turn_keeps (t : Turn) :
    (d.turn stray t).1.uart = (d.poll stray t.arrived).rest ∧
      (d.turn stray t).2.sent.filter fromController = (d.acted stray t).2 := by
  obtain ⟨-, huart, -⟩ := onSent_keeps (d.poll stray t.arrived).activity
    { d with engine := (d.poll stray t.arrived).engine, uart := (d.poll stray t.arrived).rest }
  obtain ⟨-, huart', -⟩ := onReceived_keeps (d.poll stray t.arrived).activity
    ({ d with
      engine := (d.poll stray t.arrived).engine, uart := (d.poll stray t.arrived).rest }.onSent
      (d.poll stray t.arrived).activity)
  obtain ⟨-, huart₂⟩ := fetch_keeps t.late
    { (d.acted stray t).1 with queue := queueAll t.early (d.acted stray t).1.queue }
  obtain ⟨-, huart₃, htimeout⟩ := onDelay_keeps (d.poll stray t.arrived).delay (d.served stray t).1
  refine ⟨huart₃.trans (huart₂.trans (huart'.trans huart)), ?_⟩
  have hquiet : ((d.served stray t).1.onDelay (d.poll stray t.arrived).delay).2.filter
      fromController = [] := by
    apply List.filter_eq_nil_iff.2
    intro b hb
    rw [htimeout b hb]
    decide
  show ((d.acted stray t).2 ++ _).filter _ = _
  rw [List.filter_append, hquiet, List.append_nil, (acted_eq t).2]
  split
  · exact filter_forward _
  · rfl

end Driver

/-- The branches on the activity are a step of the station if a packet has been handed over,
and none otherwise. -/
theorem Polled.acted {b : Bridge} {x x₁ y : Station} {d : Driver}
    {p : SlipCode.Partial UInt8} {n : Nat} {t : Turn} (hd : d.Listens p)
    (h : Polled b n (d.poll b.stray t.arrived) (d.poll b.stray t.arrived).engine x x₁)
    (hx : LinkReachable x₁ y) :
    ∃ x₂, LinkReachable x₂ y ∧ Polled b n (d.poll b.stray t.arrived)
    (d.acted b.stray t).1.engine x x₂ := by
  rw [(Driver.acted_eq t).1]
  cases hrec : (d.poll b.stray t.arrived).activity.received with
  | false => exact ⟨x₁, hx, h⟩
  | true =>
    have hyields := (ubcspPoll_frames b.stray hd.deframes hd.armed (d.uart ++ t.arrived)).2
    have hoff : (d.poll b.stray t.arrived).engine.receiveArmed = false := by
      have harmed := hyields.armed
      rwa [show (ubcspPoll b.stray (d.uart ++ t.arrived) d.engine).activity.received = true from
        hrec] at harmed
    refine ⟨{ x₁ with engine := rearm x₁.engine }, hx.left (.rearm _ (by rw [h.engine]; exact hoff)
      (by show 512 ≤ 512; exact Nat.le_refl _) (by rw [h.engine]; exact hyields.room)), ?_⟩
    exact ⟨by rw [h.engine]; rfl, h.stray, h.sending, h.flight, h.inbox, h.submitted, h.received⟩

/-- **A turn of `hci_do_poll` is a number of steps of the station**: a call, the return of the
receive packet if one has been handed over, and the submission of the op that is copied. -/
theorem Bridge.Represents.pollTurn {b : Bridge} {x y : Station} (hx : LinkReachable x y)
    (h : b.Represents x) {d : Driver} (hs : b.stage = .polling d) (n : Nat) (early late : List Op)
    (hfits : Fits b.stray d (b.turnOf n early late)) :
    ∃ x', LinkReachable x' y ∧ (b.pollTurn n early late d).Represents x' := by
  let t := b.turnOf n early late
  obtain ⟨hopened, hqueue, p, hlisten⟩ : x.received ≠ [] ∧ Orderly Deliverable d.queue ∧
      ∃ p, d.Listens p := by
    have hready := h.ready
    rwa [hs] at hready
  obtain ⟨taken, htaken, hfifo⟩ := h.fifo
  have hpending : b.stage.pending = d.queue.pending := by rw [hs]; rfl
  obtain ⟨-, hfwd⟩ := @Driver.acted_eq b.stray d t
  obtain ⟨huart, hsent⟩ := @Driver.turn_keeps b.stray d t
  have hlisten' := (turn_forwards b.stray hlisten t).listens
  have hpolled := h.poll n
  have hcall : ubcspPoll b.stray (b.stage.uart ++ b.air.take n) b.stage.engine =
      d.poll b.stray t.arrived := by
    rw [hs]
    rfl
  dsimp only at hpolled
  rw [hcall] at hpolled
  obtain ⟨x₂, hx₂, hacted⟩ := hpolled.acted hlisten (hx.left (.poll _))
  -- what has been received and what is sent for it
  have hsame : (b.pollTurn n early late d).sent.filter fromController =
      x₂.received.tail.filterMap forward := by
    show (b.sent ++ (d.turn b.stray t).2.sent).filter _ = _
    rw [List.filter_append, h.sent, hsent, hfwd, hacted.received,
      List.tail_append_of_ne_nil hopened, List.filterMap_append]
    congr 1
    split
    · rename_i hrec
      have hmem : (d.poll b.stray t.arrived).engine.handedOver ∈ x₂.received := by
        rw [hacted.received, hrec]
        exact List.mem_append_right _ List.mem_cons_self
      rw [← forward_handedOver ((hx₂.received_sendable _ hmem).nonempty)]
      cases hf : forward (d.poll b.stray t.arrived).engine.handedOver <;> simp [hf]
    · rfl
  have hopened' : x₂.received ≠ [] := by
    rw [hacted.received]
    exact List.append_ne_nil_of_left_ne_nil hopened _
  have hinbox : x₂.inbox = (d.turn b.stray t).1.uart ++ b.air.drop n := by rw [hacted.inbox, huart]
  have hserves := @Driver.turn_serves _ b.stray d (fun _ h => h.sized) hqueue t hfits.ops
  have hcopied : (b.pollTurn n early late d).copied = b.copied ++ (d.turn b.stray t).2.copied := rfl
  have hfree := hfits.free
  generalize hc : (d.turn b.stray t).2.copied = copied at hserves hcopied hfree
  generalize hd' : (d.turn b.stray t).1 = d' at hserves hinbox hlisten'
  have hstage : (b.pollTurn n early late d).stage = .polling d' := by rw [← hd']; rfl
  cases hserves with
  | waits heng hq hmore =>
    refine ⟨x₂, hx₂, by rw [hstage]; exact hacted.engine.trans heng.symm, hacted.stray,
      hacted.sending, hacted.flight, by rw [hstage]; exact hinbox, ?_, ⟨taken, ?_, ?_⟩, hsame, ?_⟩
    · rw [hcopied, List.append_nil]
      exact hacted.submitted.trans h.submitted
    · rw [hcopied, List.append_nil, htaken]
    · rw [hstage]
      have :=
        hfifo.trans (hpending ▸ show Fifo d.queue.pending t.ops [] d'.queue.pending from hmore.symm)
      rwa [List.append_nil] at this
    · rw [hstage]
      exact ⟨hopened', hq, _, hlisten'⟩
  | @copies op heng hq hdeliver hmore =>
    have hnone : x₂.engine.sendPacket = none := by
      rw [hacted.engine]
      exact hfree _ List.mem_cons_self
    have hmay := (hx₂.slot (hx₂.opened hopened')).2 hnone
    refine ⟨_, hx₂.left (.submit op.packet hmay hdeliver.sendable rfl), ?_, hacted.stray,
      hacted.sending, hacted.flight, by
        rw [hstage]; exact hinbox, ?_, ⟨taken ++ [op], ?_, ?_⟩, hsame, ?_⟩
    · rw [hstage]
      show ubcspSendPacket op.packet x₂.engine = d'.engine
      rw [hacted.engine, heng]
    · rw [hcopied, List.map_append]
      exact congrArg (· ++ [op.packet]) (hacted.submitted.trans h.submitted)
    · rw [hcopied, List.map_append, htaken, List.map_append]
      rfl
    · rw [hstage]
      exact hfifo.trans (hpending ▸ show Fifo d.queue.pending t.ops [op] d'.queue.pending from
        hmore)
    · rw [hstage]
      exact ⟨hopened', hq, _, hlisten'⟩

/-! ## The other steps -/

/-- **A turn of `hci_open_device_internal` is a call of the station.** -/
theorem Bridge.Represents.openTurn {b : Bridge} {x y : Station} (hx : LinkReachable x y)
    (h : b.Represents x) {timeout : Nat} {uart : List UInt8} {e : Engine}
    (hs : b.stage = .opening timeout uart e) (n : Nat) :
    ∃ x', LinkReachable x' y ∧ (b.openTurn n timeout uart e).Represents x' := by
  obtain ⟨hnone, p, hfresh⟩ : x.received = [] ∧ ∃ p, Fresh p true e := by
    have hready := h.ready
    rwa [hs] at hready
  obtain ⟨taken, htaken, hfifo⟩ := h.fifo
  have hpolled := h.poll n
  dsimp only at hpolled
  have huart : b.stage.uart = uart := by rw [hs]; rfl
  have heng : b.stage.engine = e := by rw [hs]; rfl
  have hempty : b.stage.pending = [] := by rw [hs]; rfl
  rw [huart, heng] at hpolled
  obtain ⟨p', hfresh'⟩ := hfresh.poll b.stray (uart ++ b.air.take n)
  have hreceived := hpolled.received
  rw [hnone, List.nil_append] at hreceived
  -- the stages differ in what has been received and in nothing else
  have stage : ∀ s : Stage, s.engine = (ubcspPoll b.stray (uart ++ b.air.take n) e).engine →
      s.uart = (ubcspPoll b.stray (uart ++ b.air.take n) e).rest → s.pending = [] →
      s.Ready (x.poll (uart.length + n)).received →
      (b.goOn n (ubcspPoll b.stray (uart ++ b.air.take n) e).tx s).Represents
        (x.poll (uart.length + n)) := by
    intro s he hu hp hready
    refine ⟨hpolled.engine.trans he.symm, hpolled.stray, hpolled.sending, hpolled.flight,
      hpolled.inbox.trans (by rw [← hu]; rfl), hpolled.submitted.trans h.submitted,
        ⟨taken, htaken, ?_⟩, ?_,
      hready⟩
    · show Fifo [] b.queued taken s.pending
      rw [hempty] at hfifo
      rw [hp]
      exact hfifo
    · show b.sent.filter fromController = _
      rw [h.sent, hnone, hreceived]
      split <;> rfl
  refine ⟨_, hx.left (.poll (uart.length + n)), ?_⟩
  show (b.goOn n _ (Stage.openTurn b.stray (b.air.take n) timeout uart e)).Represents _
  rcases Stage.openTurn_cases b.stray (b.air.take n) timeout uart e with
    ⟨hrec, hstage⟩ | ⟨hrec, hstage | ⟨timeout', hstage⟩⟩
  all_goals
    rw [hstage]
    rw [hrec] at hreceived hfresh'
    refine stage _ rfl rfl rfl ?_
  · exact ⟨by rw [hreceived]; rfl, hfresh'.deframes.idle hfresh'.armed ▸ hfresh'⟩
  · exact hreceived
  · exact ⟨hreceived, p', hfresh'⟩

/-- The call of `hci_do_poll` gives the engine its receive packet back. -/
theorem Bridge.Represents.start {b : Bridge} {x y : Station} (hx : LinkReachable x y)
    (h : b.Represents x) {uart : List UInt8} {e : Engine} (hs : b.stage = .opened uart e) :
    ∃ x', LinkReachable x' y ∧ Bridge.Represents
    { b with stage := .polling (.start uart e) } x' := by
  obtain ⟨hone, hfresh⟩ : x.received.length = 1 ∧ Fresh .empty false e := by
    have hready := h.ready
    rwa [hs] at hready
  have heng : x.engine = e := h.engine.trans (by rw [hs]; rfl)
  have hopened : x.received ≠ [] := fun hnil => by rw [hnil] at hone; cases hone
  obtain ⟨taken, htaken, hfifo⟩ := h.fifo
  rw [hs] at hfifo
  refine ⟨{ x with engine := rearm x.engine }, hx.left (.rearm _ (by rw [heng]; exact hfresh.armed)
    (by show 512 ≤ 512; exact Nat.le_refl _) (by rw [heng]; exact hfresh.room)),
    by rw [heng]; rfl, h.stray, h.sending, h.flight, h.inbox.trans (by rw [hs]; rfl), h.submitted,
    ⟨taken, htaken, hfifo⟩, h.sent, hopened, Orderly.zero, .empty, listens_start hfresh uart⟩

/-- **Every step of the bridge is a number of steps of the station.** -/
theorem Bridge.Represents.step {b b' : Bridge} {x y y' : Station} (hx : LinkReachable x y)
    (h : b.Represents x) (hstep : BridgeStep b y b' y') :
    ∃ x', LinkReachable x' y' ∧ b'.Represents x' := by
  cases hstep with
  | openTurn n hs => exact h.openTurn hx hs n
  | start hs => exact h.start hx hs
  | pollTurn n early late hs hfits => exact h.pollTurn hx hs n early late hfits
  | drop hf =>
    exact ⟨_, hx.left (.drop (h.flight.trans hf)), h.engine, h.stray, h.sending, rfl, h.inbox,
      h.submitted, h.fifo, h.sent, h.ready⟩
  | cut hf hw =>
    exact ⟨_, hx.left (.cut (h.flight.trans hf) hw), h.engine, h.stray, h.sending, rfl, h.inbox,
      h.submitted, h.fifo, h.sent, h.ready⟩
  | deliver hf hlost =>
    exact ⟨_, hx.left (.deliver (h.flight.trans hf) hlost), h.engine, h.stray, h.sending,
      rfl, h.inbox, h.submitted, h.fifo, h.sent, h.ready⟩

/-- **The bridge refines a station**: in every state of the system the bridge is at a station
that can be reached. -/
theorem Bridged.represents {b : Bridge} {y : Station} (h : Bridged b y) :
    ∃ x, LinkReachable x y ∧ b.Represents x := by
  induction h with
  | start stray stray' => exact Bridge.start_represents stray stray'
  | bridge _ hstep ih =>
    obtain ⟨x, hx, hrep⟩ := ih
    exact hrep.step hx hstep
  | controller z _ hstep ih =>
    obtain ⟨x, hx, hrep⟩ := ih
    exact ⟨x, hx.right (hstep.alone rfl x), hrep⟩
  | @deliver b y after f _ hf hlost ih =>
    obtain ⟨x, hx, hrep⟩ := ih
    refine ⟨_, hx.right (.deliver hf hlost), hrep.engine, hrep.stray, hrep.sending, hrep.flight, ?_,
      hrep.submitted, hrep.fifo, hrep.sent, hrep.ready⟩
    show x.inbox ++ f.wire = b.stage.uart ++ (b.air ++ f.wire)
    rw [hrep.inbox, List.append_assoc]

/-! ## What becomes of ops and events -/

/-- What the two sides have made of the ops and of the packets of the controller. -/
structure Carries (b : Bridge) (y : Station) : Prop where
  /-- The ops are copied in the order in which they are queued. -/
  copied : b.copied.map Copy.packet <+: b.queued.map Op.packet
  /-- The controller receives the copied ops, each once and in order. -/
  received : y.received <+: b.copied.map Copy.packet
  /-- All of them have arrived, except perhaps the one the engine still holds. -/
  arrived : ∃ cleared, cleared <+: y.received ∧
    b.copied.map Copy.packet = cleared ++ b.stage.engine.sendPacket.toList
  /-- The client is sent what the controller has submitted, each packet once and in order,
  except the first one; a packet whose acknowledgement the controller has seen is among
  them. -/
  sent : ∃ taken, taken <+: y.submitted ∧ y.cleared <+: taken ∧
    b.sent.filter fromController = taken.tail.filterMap forward

/-- What holds of two stations, said of the bridge. -/
theorem Bridge.Represents.conveys {b : Bridge} {x y : Station} (hx : LinkReachable x y)
    (h : b.Represents x) :
    Carries b y := by
  obtain ⟨a, c, inX, outX, inY, outY, hl⟩ := hx.runs
  have hxy := hl.inOrder
  have hyx := hl.symm.inOrder
  obtain ⟨taken, htaken, hfifo⟩ := h.fifo
  refine ⟨?_, ?_, ⟨x.cleared, hxy.cleared, ?_⟩, x.received, hyx.received, hyx.cleared, h.sent⟩
  · have hqueued : b.queued = taken ++ b.stage.pending := hfifo
    rw [htaken, hqueued, List.map_append]
    exact List.prefix_append _ _
  · rw [← h.submitted]
    exact hxy.received
  · rw [← h.submitted, ← h.engine]
    exact hxy.outstanding

/-- **Ops reach the controller, and events the client, once and in order.**  Whatever frames are
lost or cut off in either direction, however the octets arrive and in whatever order the poll
thread, the session thread and the controller run, the controller receives a beginning of the
ops that have been queued, and the client is sent the events and data of a beginning of what
the controller has submitted, without the packet that ended the opening.  Every turn of
`hci_do_poll` is one that the loop survives (`Fits`), and a piece that is `Lost` never arrives. -/
theorem Bridged.carries {b : Bridge} {y : Station} (h : Bridged b y) : Carries b y := by
  obtain ⟨x, hx, hrep⟩ := h.represents
  exact hrep.conveys hx

end OpenwrtFeed.HciPoll
