import OpenwrtFeed.LinkState
import Mathlib.Data.List.Infix

/-! # The link protocol on messages

What two engines are for: each side submits packets, and the other side is to
receive them once and in order, although messages are lost on the way.  This
module states the protocol without octets.  A side numbers its packets 0, 1, 2,
…; an acknowledgement is the number of packets accepted so far, and it is put
into a message when the message is started.  Only the numbers modulo 8 are looked
at by a receiver, which is what the code has.

`Safe x y` is the invariant of the line from `x` to `y`.  Its numeric part says
that an acknowledgement on the line lies between what the receiver has cleared
and what the sender has accepted, in ascending order; a link-establishment
message counts as the acknowledgement 0.  Its other part follows the handshake:
a CONF RESP says that both sides have left the uninitialized state and that no
SYNC is behind it.

`LossyLink` shows that two engines and the lines between them run this protocol.
-/
namespace OpenwrtFeed.Ubcsp

/-- A message on the line. -/
inductive Message
  | le (k : LePacket)
  | ack (accepted : Nat)
  | data (accepted index : Nat) (p : Packet)

namespace Message

/-- The acknowledgement a message carries; a link-establishment message carries 0. -/
def ackValue : Message → Nat
  | le _ => 0
  | ack a => a
  | data a _ _ => a

/-- The messages that are sent until link establishment is over. -/
def Early : Message → Prop
  | le k => k ≠ .confResp
  | _ => False

/-- The messages that are sent after link establishment. -/
def Late : Message → Prop
  | le _ => False
  | _ => True

/-- How two messages may follow each other on a line: acknowledgements and packets in
ascending order, link establishment before data, and no SYNC after a CONF RESP. -/
structure Before (m m' : Message) : Prop where
  ack : m.ackValue ≤ m'.ackValue
  phase : m.Late → ¬ m'.Early
  sync : m = le .confResp → m' ≠ le .sync
  index : ∀ a i p a' i' p', m = data a i p → m' = data a' i' p' → i ≤ i'

end Message

/-- One side of the link: the link-establishment variables, what the upper layer has
submitted, how much of it has been acknowledged, whether the next packet may be
submitted, what the upper layer has been handed, and the messages on the way to the
other side, oldest first. -/
structure Peer where
  link : Link
  submitted : List Packet
  cleared : Nat
  canSend : Bool
  received : List Packet
  line : List Message

namespace Peer

/-- The packet being sent. -/
def outstanding (x : Peer) : Option Packet := x.submitted[x.cleared]?

/-- An acknowledgement that differs from the number of the packet being sent, modulo
8, acknowledges it. -/
def acknowledge (a : Nat) (x : Peer) : Peer :=
  if a % 8 ≠ x.cleared % 8 ∧ x.outstanding.isSome then
    { x with cleared := x.cleared + 1, canSend := true }
  else x

/-- What a message does besides acknowledging. -/
def handle (x : Peer) : Message → Peer
  | .le k =>
    { x with
      link := x.link.receive k.toNat
      canSend := x.canSend || (decide (k = .confResp) && decide (x.link.state ≠ .active)) }
  | .ack _ => x
  | .data _ i p =>
    if x.link.state = .active ∧ i % 8 = x.received.length % 8 then
      { x with received := x.received ++ [p] }
    else x

/-- Started: nothing submitted, received or on the way. -/
def start : Peer := ⟨⟨.uninitialized, 0, .sync⟩, [], 0, false, [], []⟩

end Peer

/-- One step of the side `x`, facing `y`. -/
inductive PeerStep : Peer → Peer → Peer → Peer → Prop
  | sendLe {x y : Peer} : x.link.packet ≠ .none →
      PeerStep x y { x with line := x.line ++ [.le x.link.packet], link := x.link.sendLe } y
  | sendConfResp {x y : Peer} : x.link.packet = .none → x.link.resp &&& 2 ≠ 0 →
      PeerStep x y { x with line := x.line ++ [.le .confResp], link := x.link.sendConfResp } y
  | sendData {x y : Peer} {p : Packet} : x.link.packet = .none → x.link.resp &&& 2 = 0 →
      x.outstanding = some p →
      PeerStep x y { x with line := x.line ++ [.data x.received.length x.cleared p] } y
  | sendAck {x y : Peer} : x.link.packet = .none → x.link.resp &&& 2 = 0 → x.outstanding = none →
      PeerStep x y { x with line := x.line ++ [.ack x.received.length] } y
  | submit {x y : Peer} (p : Packet) : x.canSend = true →
      PeerStep x y { x with submitted := x.submitted ++ [p], canSend := false } y
  | lose {x y : Peer} {line : List Message} : line.Sublist x.line →
      PeerStep x y { x with line := line } y
  | receive {x y : Peer} {m : Message} {line : List Message} : y.line = m :: line →
      PeerStep x y ((x.acknowledge m.ackValue).handle m) { y with line := line }

/-! ## The invariant -/

/-- What a message on the line from `x` to `y` says about the two sides. -/
def Message.Fits (x y : Peer) : Message → Prop
  | .le .sync => y.received = [] ∧ y.link.state ≠ .active
  | .le .syncResp => y.received = []
  | .le .conf => y.received = [] ∧ x.link.state ≠ .uninitialized
  | .le .confResp =>
    x.link.state ≠ .uninitialized ∧ y.link.state ≠ .uninitialized ∧ x.link.packet ≠ .sync
  | .le .none => False
  | .ack a => x.link.packet = .none ∧ (0 < a → x.link.resp ≠ 2)
  | .data a i p =>
    x.link.packet = .none ∧ (0 < a → x.link.resp ≠ 2) ∧ i ≤ x.cleared ∧
      y.received.length ≤ i + 1 ∧ x.submitted[i]? = some p

/-- The invariant of the line from `x` to `y`. -/
structure Safe (x y : Peer) : Prop where
  due : x.link.Due
  fresh : x.link.state = .uninitialized → x.link.packet = .sync ∨ x.link.packet = .syncResp
  answers : x.link.resp = 2 ∨ x.link.packet = .confResp → y.link.state ≠ .uninitialized
  ahead : y.link.state = .active → x.link.state ≠ .uninitialized ∧ x.link.packet ≠ .sync
  idle : x.link.state ≠ .active → x.submitted = [] ∧ x.canSend = false
  window : x.canSend = true → x.submitted.length ≤ x.cleared
  count : x.submitted.length ≤ x.cleared + 1
  delivered : y.received <+: x.submitted
  cleared : x.cleared ≤ y.received.length
  started : y.received ≠ [] → x.link.packet = .none
  acked : 0 < y.cleared → x.link.packet = .none ∧ x.link.resp ≠ 2
  acks : ∀ m ∈ x.line, y.cleared ≤ m.ackValue ∧ m.ackValue ≤ x.received.length
  fits : ∀ m ∈ x.line, m.Fits x y
  order : x.line.Pairwise Message.Before

theorem Safe.start : Safe .start .start := by
  refine ⟨⟨?_, ?_, ?_⟩, ?_, ?_, ?_, ?_, ?_, ?_, ?_, ?_, ?_, ?_, ?_, ?_, ?_⟩ <;> simp [Peer.start]

/-- What a message says of its sender survives as the sender goes on. -/
theorem Message.Fits.of_sender {x x' y : Peer} {m : Message} (h : m.Fits x y)
    (hstate : x.link.state ≠ .uninitialized → x'.link.state ≠ .uninitialized)
    (hsync : x.link.state ≠ .uninitialized → x.link.packet ≠ .sync → x'.link.packet ≠ .sync)
    (hnone : x.link.packet = .none → x'.link.packet = .none)
    (hresp : 0 < m.ackValue → x.link.resp ≠ 2 → x'.link.resp ≠ 2)
    (hcleared : x.cleared ≤ x'.cleared) (hsub : x.submitted <+: x'.submitted) : m.Fits x' y := by
  cases m with
  | le k =>
    cases k with
    | sync => exact h
    | syncResp => exact h
    | conf => exact ⟨h.1, hstate h.2⟩
    | confResp => exact ⟨hstate h.1, h.2.1, hsync h.1 h.2.2⟩
    | none => exact h
  | ack a => exact ⟨hnone h.1, fun ha => hresp ha (h.2 ha)⟩
  | data a i p =>
    obtain ⟨hn, hr, hi, hl, hp⟩ := h
    refine ⟨hnone hn, fun ha => hresp ha (hr ha), Nat.le_trans hi hcleared, hl, ?_⟩
    obtain ⟨rest, hrest⟩ := hsub
    have hlt : i < x.submitted.length := by
      by_contra hge
      simp [List.getElem?_eq_none (show x.submitted.length ≤ i by omega)] at hp
    rw [← hrest, List.getElem?_append_left hlt]
    exact hp

namespace Safe
variable {x y : Peer}

/-! ### Changes to the sender -/

/-- Losing messages. -/
theorem lose {line : List Message} (h : Safe x y) (hline : line.Sublist x.line) :
    Safe { x with line := line } y :=
  ⟨h.due, h.fresh, h.answers, h.ahead, h.idle, h.window, h.count, h.delivered, h.cleared, h.started,
    h.acked, fun m hm => h.acks m (hline.subset hm),
    fun m hm => (h.fits m (hline.subset hm)).of_sender id (fun _ => id) id (fun _ => id)
      (Nat.le_refl _) (List.prefix_refl _),
    h.order.sublist hline⟩

/-- A new message at the end of the line. -/
theorem append {m : Message} (h : Safe x y)
    (hack : y.cleared ≤ m.ackValue ∧ m.ackValue ≤ x.received.length) (hfits : m.Fits x y)
    (horder : ∀ m' ∈ x.line, m'.Before m) : Safe { x with line := x.line ++ [m] } y := by
  have mem : ∀ P : Message → Prop, (∀ m' ∈ x.line, P m') → P m → ∀ m' ∈ x.line ++ [m], P m' := by
    intro P hline hm m' hm'
    rcases List.mem_append.mp hm' with hm' | hm'
    · exact hline m' hm'
    · rw [List.mem_singleton.mp hm']
      exact hm
  refine ⟨h.due, h.fresh, h.answers, h.ahead, h.idle, h.window, h.count, h.delivered, h.cleared,
    h.started, h.acked, mem _ h.acks hack,
    mem _ (fun m' hm' => (h.fits m' hm').of_sender id (fun _ => id) id (fun _ => id)
      (Nat.le_refl _) (List.prefix_refl _))
      (hfits.of_sender id (fun _ => id) id (fun _ => id) (Nat.le_refl _) (List.prefix_refl _)), ?_⟩
  rw [List.pairwise_append]
  exact ⟨h.order, List.pairwise_singleton _ _, fun m' hm' m'' hm'' => by
    rw [List.mem_singleton.mp hm'']
    exact horder m' hm'⟩

/-- New link-establishment variables. -/
theorem relink {l : Link} (h : Safe x y) (hc : y.cleared ≤ x.received.length) (hdue : l.Due)
    (hfresh : l.state = .uninitialized → l.packet = .sync ∨ l.packet = .syncResp)
    (hanswers : l.resp = 2 ∨ l.packet = .confResp → y.link.state ≠ .uninitialized)
    (hstate : x.link.state ≠ .uninitialized → l.state ≠ .uninitialized)
    (hactive : x.link.state = .active → l.state = .active)
    (hsync : x.link.state ≠ .uninitialized → x.link.packet ≠ .sync → l.packet ≠ .sync)
    (hnone : x.link.packet = .none → l.packet = .none)
    (hresp : l.resp = 2 → x.link.resp = 2 ∨ x.received = []) : Safe { x with link := l } y := by
  have hresp' : 0 < x.received.length → x.link.resp ≠ 2 → l.resp ≠ 2 := by
    intro hpos hne h2
    rcases hresp h2 with h2 | hnil
    · exact hne h2
    · simp [hnil] at hpos
  refine ⟨hdue, hfresh, hanswers, fun ha =>
    ⟨hstate (h.ahead ha).1, hsync (h.ahead ha).1 (h.ahead ha).2⟩, fun hna => h.idle fun ha =>
      hna (hactive ha), h.window, h.count, h.delivered, h.cleared,
    fun hr => hnone (h.started hr), ?_, h.acks, ?_, h.order⟩
  · intro hpos
    exact ⟨hnone (h.acked hpos).1, hresp' (by omega) (h.acked hpos).2⟩
  · intro m hm
    exact (h.fits m hm).of_sender hstate hsync hnone
      (fun hpos => hresp' (Nat.lt_of_lt_of_le hpos (h.acks m hm).2)) (Nat.le_refl _)
      (List.prefix_refl _)

/-- The upper layer may submit a packet when none is being sent. -/
theorem permit {b : Bool} (h : Safe x y) (ha : b = true → x.link.state = .active)
    (hw : b = true → x.submitted.length ≤ x.cleared) : Safe { x with canSend := b } y := by
  refine ⟨h.due, h.fresh, h.answers, h.ahead, fun hna => ⟨(h.idle hna).1, ?_⟩, hw, h.count,
    h.delivered, h.cleared, h.started, h.acked, h.acks,
    fun m hm => (h.fits m hm).of_sender id (fun _ => id) id (fun _ => id) (Nat.le_refl _)
      (List.prefix_refl _), h.order⟩
  cases b with
  | false => rfl
  | true => exact absurd (ha rfl) hna

/-- The upper layer submits a packet. -/
theorem submit (h : Safe x y) (hs : x.canSend = true) (p : Packet) :
    Safe { x with submitted := x.submitted ++ [p], canSend := false } y := by
  have hw := h.window hs
  refine ⟨h.due, h.fresh, h.answers, h.ahead, ?_, nofun, ?_,
    h.delivered.trans (List.prefix_append _ _), h.cleared, h.started, h.acked, h.acks,
    fun m hm => (h.fits m hm).of_sender id (fun _ => id) id (fun _ => id) (Nat.le_refl _)
      (List.prefix_append _ _), h.order⟩
  · intro hna
    exact absurd ((h.idle hna).2.symm.trans hs) (by simp)
  · rw [List.length_append, List.length_singleton]
    exact Nat.succ_le_succ hw

/-- The packet being sent is acknowledged. -/
theorem clear (h : Safe x y) (hlt : x.cleared < x.submitted.length)
    (hle : x.cleared + 1 ≤ y.received.length) :
    Safe { x with cleared := x.cleared + 1, canSend := true } y := by
  have hcount := h.count
  refine ⟨h.due, h.fresh, h.answers, h.ahead, ?_, fun _ => hcount,
    Nat.le_succ_of_le hcount, h.delivered, hle, h.started, h.acked, h.acks,
    fun m hm => (h.fits m hm).of_sender id (fun _ => id) id (fun _ => id) (Nat.le_succ _)
      (List.prefix_refl _), h.order⟩
  intro hna
  rw [(h.idle hna).1] at hlt
  exact absurd hlt (Nat.not_lt_zero _)

/-- The sender has been handed a packet of the other side. -/
theorem hand (h : Safe x y) (p : Packet) : Safe { x with received := x.received ++ [p] } y :=
  ⟨h.due, h.fresh, h.answers, h.ahead, h.idle, h.window, h.count, h.delivered, h.cleared, h.started,
    h.acked, fun m hm => ⟨(h.acks m hm).1, by
      have := (h.acks m hm).2
      simp only [List.length_append, List.length_singleton]
      omega⟩,
    fun m hm => (h.fits m hm).of_sender id (fun _ => id) id (fun _ => id) (Nat.le_refl _)
      (List.prefix_refl _), h.order⟩

/-! ### Changes to the receiver -/

/-- The receiver gets on with link establishment. -/
theorem progress {y' : Peer} (h : Safe x y) (hc : y'.cleared = y.cleared)
    (hr : y'.received = y.received)
    (hstate : y.link.state ≠ .uninitialized → y'.link.state ≠ .uninitialized)
    (hactive : y'.link.state = .active →
      (x.link.state ≠ .uninitialized ∧ x.link.packet ≠ .sync) ∧ Message.le .sync ∉ x.line) :
    Safe x y' := by
  refine ⟨h.due, h.fresh, fun ha => hstate (h.answers ha), fun ha => (hactive ha).1,
    h.idle, h.window, h.count, hr ▸ h.delivered, hr ▸ h.cleared, hr ▸ h.started, hc ▸ h.acked,
      hc ▸ h.acks,
    ?_, h.order⟩
  intro m hm
  have hfits := h.fits m hm
  cases m with
  | le k =>
    cases k with
    | sync => exact ⟨hr ▸ hfits.1, fun ha => (hactive ha).2 hm⟩
    | syncResp => exact hr.trans hfits
    | conf => exact ⟨hr ▸ hfits.1, hfits.2⟩
    | confResp => exact ⟨hfits.1, hstate hfits.2.1, hfits.2.2⟩
    | none => exact hfits
  | ack a => exact hfits
  | data a i p => exact ⟨hfits.1, hfits.2.1, hfits.2.2.1, hr ▸ hfits.2.2.2.1, hfits.2.2.2.2⟩

/-- The invariant looks at three things of the receiver. -/
theorem of_receiver {y' : Peer} (h : Safe x y) (hs : y'.link.state = y.link.state)
    (hc : y'.cleared = y.cleared) (hr : y'.received = y.received) : Safe x y' :=
  h.progress hc hr (fun hne => hs ▸ hne) fun ha =>
    ⟨h.ahead (hs ▸ ha), fun hm => (h.fits _ hm).2 (hs ▸ ha)⟩

/-- A message behind the oldest one carries no smaller acknowledgement. -/
theorem ackValue_le {m m' : Message} {line : List Message} (h : Safe x y)
    (hline : x.line = m :: line) (hm : m' ∈ x.line) : m.ackValue ≤ m'.ackValue := by
  have horder := h.order
  rw [hline, List.pairwise_cons] at horder
  rw [hline, List.mem_cons] at hm
  rcases hm with rfl | hm
  · exact Nat.le_refl _
  · exact (horder.1 m' hm).ack

/-- The receiver learns that its packet has arrived. -/
theorem learn {m : Message} {line : List Message} (h : Safe x y) (hline : x.line = m :: line)
    (ha : m.ackValue = y.cleared + 1) :
    Safe x { y with cleared := y.cleared + 1, canSend := true } := by
  have hmem : m ∈ x.line := hline ▸ List.mem_cons_self
  have hfits := h.fits m hmem
  have hlate : x.link.packet = .none ∧ x.link.resp ≠ 2 := by
    cases m with
    | le k => exact absurd ha (by simp [Message.ackValue])
    | ack a => exact ⟨hfits.1, hfits.2 (by simp only [Message.ackValue] at ha; omega)⟩
    | data a i p => exact ⟨hfits.1, hfits.2.1 (by simp only [Message.ackValue] at ha; omega)⟩
  refine ⟨h.due, h.fresh, h.answers, h.ahead, h.idle, h.window, h.count, h.delivered, h.cleared,
    h.started, fun _ => hlate, fun m' hm' => ⟨?_, (h.acks m' hm').2⟩, ?_, h.order⟩
  · exact ha ▸ h.ackValue_le hline hm'
  · intro m' hm'
    exact h.fits m' hm'

/-- The receiver accepts the next packet. -/
theorem accept {a i : Nat} {p : Packet} {line : List Message} (h : Safe x y)
    (hline : x.line = .data a i p :: line) (hi : i = y.received.length) :
    Safe x { y with received := y.received ++ [p] } := by
  have hmem : Message.data a i p ∈ x.line := hline ▸ List.mem_cons_self
  obtain ⟨hnone, -, -, -, hp⟩ := h.fits _ hmem
  have horder := h.order
  rw [hline, List.pairwise_cons] at horder
  have hprefix : y.received ++ [p] <+: x.submitted := by
    obtain ⟨rest, hrest⟩ := h.delivered
    rw [← hrest, hi, List.getElem?_append_right (Nat.le_refl _), Nat.sub_self] at hp
    cases rest with
    | nil => simp at hp
    | cons q rest =>
      have hq : q = p := by simpa using hp
      exact ⟨rest, by rw [← hrest, hq, List.append_assoc]; rfl⟩
  have hcleared := h.cleared
  refine ⟨h.due, h.fresh, h.answers, h.ahead, h.idle, h.window, h.count, hprefix, ?_,
    fun _ => hnone, h.acked, h.acks, ?_, h.order⟩
  · rw [List.length_append]
    exact Nat.le_add_right_of_le hcleared
  · intro m hm
    have hfits := h.fits m hm
    -- no link-establishment message but a CONF RESP is behind the packet
    have early : ¬ m.Early := by
      rw [hline, List.mem_cons] at hm
      rcases hm with rfl | hm
      · exact id
      · exact (horder.1 m hm).phase trivial
    cases m with
    | le k =>
      cases k with
      | confResp => exact hfits
      | none => exact hfits
      | _ => exact absurd (by simp [Message.Early]) early
    | ack a' => exact hfits
    | data a' i' p' =>
      refine ⟨hfits.1, hfits.2.1, hfits.2.2.1, ?_, hfits.2.2.2.2⟩
      rw [List.length_append, List.length_singleton, ← hi]
      rw [hline, List.mem_cons] at hm
      rcases hm with heq | hm
      · cases heq
        exact Nat.le_refl _
      · exact Nat.succ_le_succ ((horder.1 _ hm).index a i p a' i' p' rfl rfl)

end Safe

/-! ## The steps keep the invariant -/

/-- The invariant of both lines. -/
def Sound (x y : Peer) : Prop := Safe x y ∧ Safe y x

theorem Sound.symm {x y : Peer} (h : Sound x y) : Sound y x := ⟨h.2, h.1⟩

/-- The entries of `next_le_packet` for an engine that has left the uninitialized state
or owes no CONF RESP. -/
theorem sendLe_packet {l : Link} (h : l.Due) :
    (l.state = .uninitialized → l.sendLe.packet = .sync ∨ l.sendLe.packet = .syncResp) ∧
      (l.state ≠ .uninitialized → l.sendLe.packet ≠ .sync) ∧
      (l.sendLe.packet = .confResp → l.resp = 2) := by
  obtain ⟨state, resp, packet⟩ := l
  obtain ⟨-, hresp, howed⟩ := h
  have htable : ∀ r ≤ 2, ∀ s : LinkState, (r = 2 → s ≠ .uninitialized) →
      (s = .uninitialized → nextLePacket.getD (s.toNat + r * 4) .sync = .sync ∨
        nextLePacket.getD (s.toNat + r * 4) .sync = .syncResp) ∧
      (s ≠ .uninitialized → nextLePacket.getD (s.toNat + r * 4) .sync ≠ .sync) ∧
      (nextLePacket.getD (s.toNat + r * 4) .sync = .confResp → r = 2) := by
    intro r hr s
    interval_cases r <;> cases s <;> simp [nextLePacket, LinkState.toNat]
  exact htable resp hresp state howed

namespace Sound
variable {x y : Peer}

/-- While a link-establishment packet is due, nothing has been accepted or acknowledged
in either direction of the line. -/
theorem sendLe (h : Sound x y) (hp : x.link.packet ≠ .none) :
    Sound { x with line := x.line ++ [.le x.link.packet], link := x.link.sendLe } y := by
  obtain ⟨hxy, hyx⟩ := h
  have hreceived : y.received = [] := by
    by_contra hne
    exact hp (hxy.started hne)
  have hcleared : y.cleared = 0 := by
    by_contra hne
    exact hp (hxy.acked (Nat.pos_of_ne_zero hne)).1
  obtain ⟨hfresh, hnosync, hconf⟩ := sendLe_packet hxy.due
  have hfits : Message.Fits x y (.le x.link.packet) := by
    cases hk : x.link.packet with
    | sync => exact ⟨hreceived, fun ha => (hxy.ahead ha).2 hk⟩
    | syncResp => exact hreceived
    | conf =>
      refine ⟨hreceived, ?_⟩
      intro hu
      rcases hxy.fresh hu with hf | hf <;> rw [hk] at hf <;> nomatch hf
    | confResp =>
      refine ⟨?_, hxy.answers (Or.inr hk), by simp [hk]⟩
      intro hu
      rcases hxy.fresh hu with hf | hf <;> rw [hk] at hf <;> nomatch hf
    | none => exact absurd hk hp
  -- what is on the line already is link establishment too
  have horder : ∀ m' ∈ x.line, m'.Before (.le x.link.packet) := by
    intro m' hm'
    have hm := hxy.fits m' hm'
    cases m' with
    | le k =>
      refine ⟨Nat.le_refl _, False.elim, ?_, nofun⟩
      intro hk hsync
      cases hk
      exact hm.2.2 (by simpa using hsync)
    | ack a => exact absurd hm.1 hp
    | data a i p => exact absurd hm.1 hp
  have hline :=
    hxy.append (m := .le x.link.packet) ⟨Nat.le_of_eq hcleared, Nat.zero_le _⟩ hfits horder
  refine ⟨hline.relink hyx.cleared hxy.due.sendLe hfresh ?_ id id (fun hs _ => hnosync hs)
    (fun hn => absurd hn hp) ?_, hyx.of_receiver rfl rfl rfl⟩
  · rintro (h0 | hk)
    · simp [Link.sendLe] at h0
    · exact hxy.answers (Or.inl (hconf hk))
  · intro h0
    simp [Link.sendLe] at h0

theorem sendConfResp (h : Sound x y) (hp : x.link.packet = .none) (hr : x.link.resp &&& 2 ≠ 0) :
    Sound { x with line := x.line ++ [.le .confResp], link := x.link.sendConfResp } y := by
  obtain ⟨hxy, hyx⟩ := h
  have htwo : x.link.resp = 2 := by
    have hle := hxy.due.resp
    interval_cases hv : x.link.resp <;> simp_all
  have hcleared : y.cleared = 0 := by
    by_contra hne
    exact (hxy.acked (Nat.pos_of_ne_zero hne)).2 htwo
  have horder : ∀ m' ∈ x.line, m'.Before (.le .confResp) := by
    intro m' hm'
    have hm := hxy.fits m' hm'
    cases m' with
    | le k => exact ⟨Nat.le_refl _, False.elim, fun _ => by simp, nofun⟩
    | ack a =>
      have ha : a = 0 := by
        by_contra hne
        exact hm.2 (Nat.pos_of_ne_zero hne) htwo
      exact ⟨Nat.le_of_eq ha, fun _ he => he rfl, nofun, nofun⟩
    | data a i p =>
      have ha : a = 0 := by
        by_contra hne
        exact hm.2.1 (Nat.pos_of_ne_zero hne) htwo
      exact ⟨Nat.le_of_eq ha, fun _ he => he rfl, nofun, nofun⟩
  have hline := hxy.append (m := .le .confResp) ⟨Nat.le_of_eq hcleared, Nat.zero_le _⟩
    ⟨hxy.due.owed htwo, hxy.answers (Or.inl htwo), by simp [hp]⟩ horder
  exact ⟨hline.relink hyx.cleared ⟨hxy.due.packet, by simp [Link.sendConfResp], by
    simp [Link.sendConfResp]⟩
    hxy.fresh (fun ha => hxy.answers (Or.inl htwo)) id id (fun _ => id) id
    (by simp [Link.sendConfResp]), hyx.of_receiver rfl rfl rfl⟩

/-- A late message may follow anything that is on the line. -/
theorem before_late (h : Sound x y) {m m' : Message} (hm : m.Late)
    (hack : m.ackValue = x.received.length)
    (hindex : ∀ a i p, m = .data a i p → i = x.cleared) (hm' : m' ∈ x.line) : m'.Before m := by
  refine ⟨hack ▸ (h.1.acks m' hm').2, ?_, ?_, ?_⟩
  · intro _ he
    cases m with
    | le k => exact hm
    | _ => exact he
  · intro _ hs
    rw [hs] at hm
    exact hm
  · rintro a i p a' i' p' rfl rfl
    rw [hindex a' i' p' rfl]
    exact (h.1.fits _ hm').2.2.1

theorem not_two_of_and {n : Nat} (h : n &&& 2 = 0) : n ≠ 2 := by
  rintro rfl
  exact absurd h (by decide)

theorem sendData {p : Packet} (h : Sound x y) (hn : x.link.packet = .none)
    (hr : x.link.resp &&& 2 = 0) (hp : x.outstanding = some p) :
    Sound { x with line := x.line ++ [.data x.received.length x.cleared p] } y := by
  have hlt : x.cleared < x.submitted.length := by
    by_contra hge
    simp [Peer.outstanding,
      List.getElem?_eq_none (show x.submitted.length ≤ x.cleared by omega)] at hp
  have hcount : y.received.length ≤ x.cleared + 1 :=
    Nat.le_trans h.1.delivered.length_le h.1.count
  refine ⟨h.1.append ⟨h.2.cleared, Nat.le_refl _⟩
    ⟨hn, fun _ => not_two_of_and hr, Nat.le_refl _, hcount, hp⟩ ?_,
    h.2.of_receiver rfl rfl rfl⟩
  intro m' hm'
  refine h.before_late trivial rfl ?_ hm'
  rintro a i p ⟨⟩
  rfl

theorem sendAck (h : Sound x y) (hn : x.link.packet = .none) (hr : x.link.resp &&& 2 = 0) :
    Sound { x with line := x.line ++ [.ack x.received.length] } y :=
  ⟨h.1.append ⟨h.2.cleared, Nat.le_refl _⟩ ⟨hn, fun _ => not_two_of_and hr⟩
    fun _ hm' => h.before_late trivial rfl nofun hm', h.2.of_receiver rfl rfl rfl⟩

/-- The acknowledgement of the oldest message, if it is one, is of a packet that has
arrived. -/
theorem acknowledge {m : Message} {line : List Message} (h : Sound x y)
    (hline : y.line = m :: line) :
    Sound (x.acknowledge m.ackValue) y := by
  obtain ⟨hxy, hyx⟩ := h
  unfold Peer.acknowledge
  split
  · rename_i hcond
    obtain ⟨hlo, hhi⟩ := hyx.acks m (hline ▸ List.mem_cons_self)
    have hcount := Nat.le_trans hxy.delivered.length_le hxy.count
    have ha : m.ackValue = x.cleared + 1 := by
      by_contra hne
      exact hcond.1 (by rw [show m.ackValue = x.cleared by omega])
    have hlt : x.cleared < x.submitted.length := by simpa [Peer.outstanding] using hcond.2
    exact ⟨hxy.clear hlt (by omega), hyx.learn hline ha⟩
  · exact ⟨hxy, hyx⟩

/-- An upper layer that may submit a packet is on an active engine without one. -/
theorem canSend (h : Sound x y) (hs : x.canSend = true) :
    x.link.state = .active ∧ x.submitted.length ≤ x.cleared := by
  refine ⟨?_, h.1.window hs⟩
  by_contra hna
  exact absurd ((h.1.idle hna).2.symm.trans hs) (by simp)

/-- The three link-establishment messages that do not end link establishment leave the
packet to send next as it is, and never lead to the active state. -/
theorem handle_early {k : LePacket} (h : Sound x y) (hmem : .le k ∈ y.line) (hk : k ≠ .confResp) :
    Sound { x with link := x.link.receive k.toNat } y := by
  obtain ⟨hxy, hyx⟩ := h
  have hfits := hyx.fits _ hmem
  have hdue := hxy.due
  cases k with
  | sync =>
    have hrecv : x.link.receive LePacket.sync.toNat = { x.link with resp := 1 } := if_pos hfits.2
    rw [hrecv]
    refine ⟨hxy.relink hyx.cleared ⟨hdue.packet, by simp, by simp⟩ hxy.fresh ?_ id id
      (fun _ => id) id
      (by simp), hyx.of_receiver rfl rfl rfl⟩
    rintro (h1 | hc)
    · simp at h1
    · exact hxy.answers (Or.inr hc)
  | syncResp =>
    by_cases hu : x.link.state = .uninitialized
    · have hrecv : x.link.receive LePacket.syncResp.toNat = { x.link with state := .initialized } :=
        if_pos hu
      rw [hrecv]
      refine ⟨hxy.relink hyx.cleared ⟨?_, hdue.resp, by simp⟩ (by simp) hxy.answers (by simp)
        (by simp [hu]) (fun hne => absurd hu hne) id Or.inl,
          hyx.progress rfl rfl (by simp) (by simp)⟩
      intro hp
      exact absurd ((hdue.packet hp).symm.trans hu) (by simp)
    · have hrecv : x.link.receive LePacket.syncResp.toNat = x.link := if_neg hu
      rw [hrecv]
      exact ⟨hxy, hyx⟩
  | conf =>
    by_cases hu : x.link.state = .uninitialized
    · have hrecv : x.link.receive LePacket.conf.toNat = x.link := if_neg (not_not.mpr hu)
      rw [hrecv]
      exact ⟨hxy, hyx⟩
    · have hrecv : x.link.receive LePacket.conf.toNat = { x.link with resp := 2 } := if_pos hu
      rw [hrecv]
      exact ⟨hxy.relink hyx.cleared ⟨hdue.packet, by simp, fun _ => hu⟩ hxy.fresh
        (fun _ => hfits.2) id id
        (fun _ => id) id (fun _ => Or.inr hfits.1), hyx.of_receiver rfl rfl rfl⟩
  | confResp => exact absurd rfl hk
  | none => exact absurd hfits id

/-- A CONF RESP ends link establishment: no SYNC is behind it. -/
theorem handle_confResp {line : List Message} (h : Sound x y)
    (hline : y.line = .le .confResp :: line) :
    Sound { x with link := x.link.receive LePacket.confResp.toNat } y := by
  obtain ⟨hxy, hyx⟩ := h
  obtain ⟨hy, hx, hsync⟩ := hyx.fits (.le .confResp) (hline ▸ List.mem_cons_self)
  have horder := hyx.order
  rw [hline, List.pairwise_cons] at horder
  have hrecv : x.link.receive LePacket.confResp.toNat = { x.link with state := .active } := rfl
  rw [hrecv]
  refine ⟨hxy.relink hyx.cleared ⟨fun _ => rfl, hxy.due.resp, by simp⟩ (by simp)
    hxy.answers (by simp)
    (fun _ => rfl) (fun _ => id) id Or.inl, hyx.progress rfl rfl (by simp) fun _ =>
      ⟨⟨hy, hsync⟩, ?_⟩⟩
  rw [hline, List.mem_cons]
  rintro (hs | hs)
  · nomatch hs
  · exact (horder.1 _ hs).sync rfl rfl

/-- What the oldest message does besides acknowledging. -/
theorem handle {m : Message} {line : List Message} (h : Sound x y) (hline : y.line = m :: line) :
    Sound (x.handle m) y := by
  obtain ⟨hxy, hyx⟩ := h
  have hmem : m ∈ y.line := hline ▸ List.mem_cons_self
  have hfits := hyx.fits m hmem
  cases m with
  | ack a => exact ⟨hxy, hyx⟩
  | data a i p =>
    unfold Peer.handle
    dsimp only
    split
    · rename_i hcond
      obtain ⟨-, -, hi, hr, -⟩ := hfits
      have hcleared := hyx.cleared
      -- the index is the next one or the one before it
      have heq : i = x.received.length := by omega
      exact ⟨hxy.hand p, hyx.accept hline heq⟩
    · exact ⟨hxy, hyx⟩
  | le k =>
    by_cases hk : k = .confResp
    · subst hk
      have hsound := handle_confResp ⟨hxy, hyx⟩ hline
      refine ⟨hsound.1.permit (fun _ => rfl) ?_, hsound.2.of_receiver rfl rfl rfl⟩
      intro hb
      by_cases hs : x.canSend = true
      · exact hxy.window hs
      · have hna : x.link.state ≠ .active := by simpa [hs] using hb
        show x.submitted.length ≤ x.cleared
        rw [(hxy.idle hna).1]
        exact Nat.zero_le _
    · have hsound := handle_early ⟨hxy, hyx⟩ hmem hk
      have hb : (x.canSend || (decide (k = .confResp) && decide (x.link.state ≠ .active))) =
          x.canSend := by
        simp [hk]
      unfold Peer.handle
      dsimp only
      rw [hb]
      exact hsound

/-- **Every step keeps the invariant of both lines.** -/
theorem step {x' y' : Peer} (h : Sound x y) (hstep : PeerStep x y x' y') : Sound x' y' := by
  cases hstep with
  | sendLe hp => exact h.sendLe hp
  | sendConfResp hp hr => exact h.sendConfResp hp hr
  | sendData hn hr hp => exact h.sendData hn hr hp
  | sendAck hn hr _ => exact h.sendAck hn hr
  | submit p hs => exact ⟨h.1.submit hs p, h.2.of_receiver rfl rfl rfl⟩
  | lose hline => exact ⟨h.1.lose hline, h.2.of_receiver rfl rfl rfl⟩
  | receive hline =>
    have hack := h.acknowledge hline
    have hdone := hack.handle hline
    exact ⟨hdone.1.of_receiver rfl rfl rfl, hdone.2.lose (hline ▸ List.sublist_cons_self _ _)⟩

end Sound

end OpenwrtFeed.Ubcsp
