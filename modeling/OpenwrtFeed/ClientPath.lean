import OpenwrtFeed.BridgeSchedule
import OpenwrtFeed.BridgeFraming
import OpenwrtFeed.InternalCommand
import OpenwrtFeed.Streams

/-! # From the client to the controller and back

The whole way of a message: a client writes it on the socket, TCP cuts the stream as it
likes, the session dispatches it, the poll thread copies the op, and the engine carries it
over the lossy line.  On the way back an event becomes a frame of `hci_bridge_send`, between
the replies of the session thread, and the client reads the octets.

What the results about the parts come to is said in terms of the two ends alone: the
messages the clients have written, the packets of the controller, and the frames that a
client has read (`client_controller`).
-/
namespace OpenwrtFeed.HciPoll
open Ubcsp hiding Message
open HciQueue HciBridge

/-! ## From the client -/

/-- The packet that the controller should get for a message, if there is one. -/
def messagePacket (m : Message) : Option Packet :=
  if m.commandType = hciCommand ∨ m.commandType = hciEvent then
    some ⟨5, 1, UInt16.ofNat m.payload.length, m.payload⟩
  else if m.commandType = hciData then some ⟨6, 1, UInt16.ofNat m.payload.length, m.payload⟩
  else none

/-- The op that the session queues for a message becomes this packet. -/
theorem dispatchedOp_packet (m : Message) :
    (dispatchedOp m.dispatched).map Op.packet = messagePacket m := by
  unfold Message.dispatched dispatch messagePacket
  by_cases hcommand : m.commandType = hciCommand
  · rw [if_pos hcommand, if_pos (Or.inl hcommand)]
    rfl
  · by_cases hdata : m.commandType = hciData
    · have hevent : m.commandType ≠ hciEvent := by rw [hdata]; decide
      rw [if_neg hcommand, if_pos hdata, if_neg (not_or.2 ⟨hcommand, hevent⟩), if_pos hdata]
      rfl
    · by_cases hevent : m.commandType = hciEvent
      · rw [if_neg hcommand, if_neg hdata, if_pos hevent, if_pos (Or.inr hevent)]
        rfl
      · rw [if_neg hcommand, if_neg hdata, if_neg hevent, if_neg (not_or.2 ⟨hcommand, hevent⟩),
          if_neg hdata]
        split <;> rfl

/-- A client: the messages it writes, and the way in which TCP cuts them. -/
structure Client where
  messages : List Message
  cuts : List Nat

namespace Client

/-- The session with the client when it has read all there is. -/
def session (order : HostOrder) (unset : UInt16) (c : Client) : Session :=
  Session.start.run order unset (recvs c.cuts (c.messages.flatMap (Message.wire order)))

/-- The ops that the session queues. -/
def ops (order : HostOrder) (unset : UInt16) (c : Client) : List Op :=
  (c.session order unset).dispatched.filterMap dispatchedOp

/-- The messages fit, and the cuts are those of its stream. -/
structure Valid (order : HostOrder) (unset : UInt16) (c : Client) : Prop where
  fits : ∀ m ∈ c.messages, m.Fits
  cuts : Cuts order unset c.cuts (c.messages.flatMap (Message.wire order)) .start

instance (order : HostOrder) (unset : UInt16) (c : Client) : Decidable (c.Valid order unset) :=
  decidable_of_iff ((∀ m ∈ c.messages, m.Fits) ∧ Cuts order unset c.cuts
    (c.messages.flatMap (Message.wire order)) .start) ⟨fun h => ⟨h.1, h.2⟩, fun h => ⟨h.1, h.2⟩⟩

/-- The packets that the controller should get of the client: those of the messages before the
first cut. -/
def packets (c : Client) : List Packet := (received c.messages c.cuts).filterMap messagePacket

theorem Valid.ops_packets {order : HostOrder} {unset : UInt16} {c : Client}
    (h : c.Valid order unset) :
    (c.ops order unset).map Op.packet = c.packets := by
  have hsession : (c.session order unset).dispatched =
      (received c.messages c.cuts).map Message.dispatched :=
    (reads_of_cuts h.fits rfl h.cuts).dispatched
  unfold ops packets
  rw [hsession, List.filterMap_map, List.map_filterMap]
  exact congrArg (List.filterMap · _) (funext dispatchedOp_packet)

theorem ops_packets {order : HostOrder} {unset : UInt16} {clients : List Client}
    (h : ∀ c ∈ clients, c.Valid order unset) :
    (clients.flatMap (ops order unset)).map Op.packet = clients.flatMap packets := by
  rw [List.map_flatMap]
  exact List.flatMap_congr fun c hc => (h c hc).ops_packets

end Client

/-! ## To the client -/

/-- The call has as many octets as it says. -/
def Whole (b : BridgeSend) : Prop := b.data.length = b.length.toNat

/-- No frame of `hci_bridge_send` is the beginning of another one. -/
theorem hciBridgeSend_prefixCode (order : HostOrder) : PrefixCode (hciBridgeSend order) Whole where
  nonempty _ := List.cons_ne_nil _ _
  free a b s t ha hb h := by
    have htake : ∀ c : BridgeSend, Whole c → c.data.take c.length.toNat = c.data := fun c hc =>
      List.take_of_length_le (Nat.le_of_eq hc)
    unfold hciBridgeSend at h
    dsimp only at h
    rw [htake a ha, htake b hb] at h
    simp only [List.cons_append, List.cons.injEq] at h
    obtain ⟨hhigh, hlow, htype, hdata⟩ := h
    have hoctets := htons_octets order (a.length + 1)
    rw [hhigh, hlow, htons_octets] at hoctets
    have hlength : a.length = b.length := by
      have hnumber := order.number_octets (a.length + 1)
      rw [← hoctets, HostOrder.number_octets] at hnumber
      exact (UInt16.add_left_inj 1).1 hnumber.symm
    have hsame : a.data = b.data :=
      (List.append_inj hdata (ha.trans ((congrArg UInt16.toNat hlength).trans hb.symm))).1
    obtain ⟨_, _, _⟩ := a
    obtain ⟨_, _, _⟩ := b
    simp only at htype hlength hsame
    rw [htype, hlength, hsame]

theorem whole_reportStatus {r : Reply} (h : r.data.length ≤ 4096) : Whole (reportStatus r) := by
  show r.data.length + 2 = (UInt16.ofNat (r.data.length + 2)).toNat
  rw [UInt16.toNat_ofNat_of_lt' (by show _ < 65536; omega)]

/-- A packet that the link carries is forwarded with all its octets. -/
theorem whole_forward {p : Packet} (hp : p.Sendable) {b : BridgeSend} (h : forward p = some b) :
    Whole b := by
  have hlength : (p.payload.take p.length.toNat).length = p.length.toNat := by
    rw [List.length_take, hp.encodable.length, Nat.min_self]
  unfold forward at h
  split at h
  · split at h
    · obtain rfl := Option.some.inj h
      exact hlength
    · cases h
  · split at h
    · obtain rfl := Option.some.inj h
      exact hlength
    · cases h

/-- A turn sends what it forwards, and notifications of a timeout. -/
theorem Driver.turn_sent {stray : UInt8 → UInt8} {d : Driver} (t : Turn) :
    ∀ b ∈ (d.turn stray t).2.sent, fromController b = true ∨ b = ⟨playgroundTimeout, [], 0⟩ := by
  obtain ⟨-, hacted⟩ := @acted_eq stray d t
  obtain ⟨-, -, htimeout⟩ := onDelay_keeps (d.poll stray t.arrived).delay (d.served stray t).1
  intro b hb
  rcases List.mem_append.1 hb with hb | hb
  · left
    rw [hacted] at hb
    split at hb
    · rw [← filter_forward] at hb
      exact (List.mem_filter.1 hb).2
    · cases hb
  · exact Or.inr (htimeout b hb)

theorem Bridged.sent {b : Bridge} {y : Station} (h : Bridged b y) :
    ∀ s ∈ b.sent, fromController s = true ∨ s = ⟨playgroundTimeout, [], 0⟩ := by
  induction h with
  | start stray stray' => exact fun _ hs => (nomatch hs)
  | bridge _ hstep ih =>
    cases hstep with
    | pollTurn n early late _ _ =>
      intro s hs
      rcases List.mem_append.1 hs with hs | hs
      · exact ih s hs
      · exact Driver.turn_sent _ s hs
    | _ => exact ih
  | controller _ _ _ ih => exact ih
  | deliver _ _ _ ih => exact ih

/-- What the poll thread sends, it sends whole. -/
theorem Bridged.sent_whole {b : Bridge} {y : Station} (h : Bridged b y) :
    ∀ s ∈ b.sent, Whole s := by
  obtain ⟨x, hx, hrep⟩ := h.represents
  intro s hs
  rcases h.sent s hs with hfrom | rfl
  · have hmem : s ∈ x.received.tail.filterMap forward := by
      rw [← hrep.sent]
      exact List.mem_filter.2 ⟨hs, hfrom⟩
    obtain ⟨p, hp, hforward⟩ := List.mem_filterMap.1 hmem
    exact whole_forward (hx.received_sendable p (List.mem_of_mem_tail hp)) hforward
  · rfl

/-! ## The two ends -/

/-- What the controller has received of the clients, and a client of the controller. -/
structure Conveys (clients : List Client) (y : Station) (seen : List BridgeSend) : Prop where
  /-- The controller receives the messages of the clients that were not cut, each once and in
  order, in packets of the channel that belongs to their type. -/
  toController : y.received <+: clients.flatMap Client.packets
  /-- After what it has missed, the client sees the events and data of the controller, each once
  and in order, but for the packet that ended the opening. -/
  toClient : ∃ missed, missed ++ seen.filter fromController <+: y.submitted.tail.filterMap forward

/-- **From the clients to the controller, and from the controller to a client.**  The clients
write messages that TCP cuts as it likes, the session thread queues the ops, the line loses
and cuts frames in both directions, and the replies of the session thread go out between the
frames of the poll thread.  Still the controller receives a beginning of the uncut messages,
and a client that has read some frames off its part of the octets has seen the events and
data of the controller, without a gap since it was connected.  All this as long as every turn of
the poll thread is one that its loop survives (`Fits`). -/
theorem Bridged.client_controller {b : Bridge} {y : Station} (h : Bridged b y) {order : HostOrder}
    {unset : UInt16} {clients : List Client} (hclients : ∀ c ∈ clients, c.Valid order unset)
    (hqueued : b.queued <+: clients.flatMap (Client.ops order unset)) {replies : List Reply}
    (hreplies : ∀ r ∈ replies, r.data.length ≤ 4096) {earlier own later seen : List BridgeSend}
    (hall : Merged b.sent (replies.map reportStatus) (earlier ++ own ++ later))
    (hseen : ∀ s ∈ seen, Whole s)
    (hread : seen.flatMap (hciBridgeSend order) <+: own.flatMap (hciBridgeSend order)) :
    Conveys clients y seen := by
  obtain ⟨x, hx, hrep⟩ := h.represents
  obtain ⟨hcopied, hreceived, -, taken, htaken, -, hsent⟩ := hrep.conveys hx
  have hown : seen <+: own := by
    have hwhole : ∀ s ∈ earlier ++ own ++ later, Whole s :=
      hall.forall_mem h.sent_whole fun s hs => by
        obtain ⟨r, hr, rfl⟩ := List.mem_map.1 hs
        exact whole_reportStatus (hreplies r hr)
    refine (hciBridgeSend_prefixCode order).prefix_of_flatMap hseen (fun s hs => hwhole s ?_) hread
    exact List.mem_append_left _ (List.mem_append_right _ hs)
  refine ⟨?_, earlier.filter fromController, ?_⟩
  · calc y.received
      _ <+: b.copied.map Copy.packet := hreceived
      _ <+: b.queued.map Op.packet := hcopied
      _ <+: (clients.flatMap (Client.ops order unset)).map Op.packet := hqueued.map _
      _ = clients.flatMap Client.packets := Client.ops_packets hclients
  · have hreply : ∀ s ∈ replies.map reportStatus, fromController s = false := by
      intro s hs
      obtain ⟨r, -, rfl⟩ := List.mem_map.1 hs
      rfl
    calc earlier.filter fromController ++ seen.filter fromController
      _ <+: b.sent.filter fromController := hall.prefix_filter hreply hown
      _ = taken.tail.filterMap forward := hsent
      _ <+: y.submitted.tail.filterMap forward := by
        rw [← List.drop_one, ← List.drop_one]
        exact (htaken.drop 1).filterMap forward

/-- The client whose second message is cut inside its length. -/
def resetting : Client :=
  ⟨[⟨hciCommand, [0x03, 0x0C, 0x00]⟩, ⟨hciCommand, [0x03, 0x0C, 0x00]⟩], [2, 1, 3, 1]⟩

/-- The first message becomes the op of the exchange, and the client reads the event before the
reply to an internal command. -/
theorem client_controller_exchange :
    let s := schedule id id exchange
    s.2.received = [⟨5, 1, 3, [0x03, 0x0C, 0x00]⟩] ∧
      Conveys [resetting] s.2 [⟨hciEvent, [0x0E, 0x01], 2⟩] := by
  obtain ⟨hqueued, hreceived, hsent⟩ := exchange_ends
  have hall : Merged (schedule id id exchange).1.sent
      ([⟨hciBridgeError, hciBridgeError, []⟩].map reportStatus)
      ([] ++ [⟨hciEvent, [0x0E, 0x01], 2⟩, reportStatus ⟨hciBridgeError, hciBridgeError, []⟩] ++
        []) := by
    rw [hsent]
    exact .left _ (.right _ .nil)
  exact ⟨hreceived, @Bridged.client_controller _ _ (schedule_bridged id id exchange) .littleEndian 0
    [resetting] (by decide) (by rw [hqueued]; decide) _ (by decide) _ _ _
      [⟨hciEvent, [0x0E, 0x01], 2⟩] hall
    (fun s hs => by obtain rfl := List.mem_singleton.1 hs; rfl) (List.prefix_append _ _)⟩

end OpenwrtFeed.HciPoll
