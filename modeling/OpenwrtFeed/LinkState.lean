import OpenwrtFeed.EngineParts
import Mathlib.Tactic.IntervalCases

/-! # The link-establishment variables of one engine

Three variables of `ubcsp_config` steer link establishment: the state, the
response owed to the peer (1 for a SYNC RESP, 2 for a CONF RESP) and the packet
to send next, which `next_le_packet` computes one frame ahead.  They are written
in three places only: when a link-establishment frame is started, when a CONF
RESP is started after link establishment is over, and when a link-establishment
frame is received (`sendHalf_link`, `receiveOctet_link`).

`link_establishment_packet` is `ubcsp_le_none` in the active state only, as long
as no peer reset finds a CONF RESP still owed: `ubcsp_initialize` leaves
`link_establishment_resp` as it is, and the entry of `next_le_packet` for a CONF
RESP owed by an uninitialized engine is `ubcsp_le_none`
(`Reachable.le_packet_due`, `exists_deadlocked`).
-/
namespace OpenwrtFeed.Ubcsp

namespace Link

/-- The variables after a link-establishment packet has been started. -/
def sendLe (l : Link) : Link :=
  ⟨l.state, 0, nextLePacket.getD (l.state.toNat + l.resp * 4) .sync⟩

/-- The variables after a CONF RESP has been started outside link establishment. -/
def sendConfResp (l : Link) : Link := { l with resp := 0 }

/-- The variables after the link-establishment packet with index `k` in
`ubcsp_le_buffer` has been received. -/
def receive (k : Nat) (l : Link) : Link :=
  match k with
  | 0 => if l.state ≠ .active then { l with resp := 1 } else ⟨.uninitialized, l.resp, .sync⟩
  | 1 => if l.state = .uninitialized then { l with state := .initialized } else l
  | 2 => if l.state ≠ .uninitialized then { l with resp := 2 } else l
  | 3 => { l with state := .active }
  | _ => l

end Link

/-! ## What sending does to them -/

/-- What the sending half of a call does to the link-establishment variables. -/
theorem sendHalf_link (e : Engine) :
    (sendHalf e).engine.link = e.link ∨
      (e.linkEstablishmentPacket ≠ .none ∧ (sendHalf e).engine.link = e.link.sendLe) ∨
      (e.linkEstablishmentPacket = .none ∧ e.linkEstablishmentResp &&& 2 ≠ 0 ∧
        (sendHalf e).engine.link = e.link.sendConfResp) := by
  rcases sendHalf_cases e with ⟨-, h⟩ | ⟨-, -, h⟩ | ⟨-, -, hp, h⟩ | ⟨-, -, hp, h⟩
  all_goals rw [h]
  · exact Or.inl rfl
  · obtain ⟨t, ht | ⟨ht, -⟩⟩ := sendOctet_engine e
    · exact Or.inl (by rw [ht]; rfl)
    · exact Or.inl (by rw [ht]; rfl)
  · rcases startFrame_cases e with ⟨hr, h⟩ | ⟨-, p, -, h⟩ | ⟨-, -, -, h⟩ | ⟨-, -, -, h⟩
    · exact Or.inr (Or.inr ⟨hp, hr, by rw [h]; rfl⟩)
    all_goals exact Or.inl (congrArg (fun s => s.engine.link) h)
  · exact Or.inr (Or.inl ⟨hp, rfl⟩)

/-! ## What receiving does to them -/

/-- The index of the link-establishment packet that the frame in progress would be
if it ended now; `none` when the frame is not intact or is on another channel. -/
def leMessage (e : Engine) : Option Nat :=
  if 0 ≤ e.receiveIndex ∧ headerSum e.receiveHeader = 0xff ∧ (checkPayload e).1 = true ∧
      headerChannel e.receiveHeader = 1 then
    some (whichLePayload e.receivePacket.payload)
  else none

/-- The link-establishment packet that is received with the octet `value`. -/
def receivedLe (value : UInt8) (e : Engine) : Option Nat :=
  if e.receiveSlipEscape = false ∧ value = slipFrame then leMessage e else none

/-- `Link.receive`, when there is a packet. -/
def Link.receive? (k : Option Nat) (l : Link) : Link :=
  match k with
  | some k => l.receive k
  | none => l

theorem receiveAck_link (e : Engine) : (receiveAck e).2.link = e.link := by
  rcases receiveAck_cases e with h | ⟨-, -, h⟩
  all_goals exact congrArg (fun s => s.2.link) h

theorem receiveData_link (a : Activity) (e : Engine) : (receiveData a e).2.link = e.link := by
  rcases receiveData_cases a e with h | h | h | h
  all_goals exact (congrArg Engine.link h).trans rfl

theorem receiveLe_link (a : Activity) (e : Engine) :
    (receiveLe a e).2.link = e.link.receive (whichLePayload e.receivePacket.payload) := by
  unfold receiveLe
  dsimp only
  generalize whichLePayload e.receivePacket.payload = k
  -- one case for each of the four messages, and one for a payload that is none of them
  rcases k with _ | _ | _ | _ | k <;>
    cases hs : e.linkEstablishmentState <;>
      simp [Link.receive, Engine.link, ubcspInitialize, hs]

theorem receiveIntact_link (e : Engine) :
    (receiveIntact e).2.link =
      if e.receivePacket.channel = 1 then e.link.receive (whichLePayload e.receivePacket.payload)
      else e.link := by
  have hrx : (receiveAck e).2.receivePacket = e.receivePacket :=
    congrArg Rx.receivePacket (receiveAck_rx e)
  unfold receiveIntact
  dsimp only
  rw [hrx]
  split
  · rw [receiveLe_link, receiveAck_link, hrx]
  · split
    · rw [receiveData_link, receiveAck_link]
    · exact receiveAck_link e

theorem receviedPacket_link (e : Engine) (h : 0 ≤ e.receiveIndex) :
    (receviedPacket e).2.link = e.link.receive? (leMessage e) := by
  by_cases hint : Intact e
  · rw [receviedPacket_of_intact hint, receiveIntact_link]
    simp only [leMessage, h, hint.1, hint.2, true_and, decoded_receivePacket, decoded_link]
    by_cases hch : headerChannel e.receiveHeader = 1
    · simp only [hch, if_true, Link.receive?]
    · simp only [hch, if_false, Link.receive?]
  · obtain ⟨r, hr, -⟩ := receviedPacket_of_not_intact hint
    have hnone : leMessage e = none := by
      simp only [leMessage]
      exact if_neg fun hc => hint ⟨hc.2.1, hc.2.2.1⟩
    rw [hr, hnone]
    rfl

/-- **What one received octet does to the link-establishment variables**: nothing,
unless it is the delimiter of an intact frame on the link-establishment channel. -/
theorem receiveOctet_link (stray : UInt8 → UInt8) (value : UInt8) (a : Activity) (e : Engine) :
    (receiveOctet stray value a e).2.link = e.link.receive? (receivedLe value e) := by
  unfold receiveOctet receivedLe
  by_cases hesc : e.receiveSlipEscape = true
  · simp only [hesc, if_true, Bool.true_eq_false, false_and, if_false]
    rw [storeOctet_eq]
    rfl
  · have hesc' : e.receiveSlipEscape = false := by simpa using hesc
    by_cases hv : value = slipFrame
    · simp only [hesc', hv, Bool.false_eq_true, if_false, if_true, and_self]
      unfold endOfFrame
      by_cases hi : 0 ≤ e.receiveIndex
      · simp only [hi, if_true]
        refine Eq.trans ?_ (receviedPacket_link e hi)
        split <;> rfl
      · have hnone : leMessage e = none := by simp [leMessage, hi]
        simp only [hi, if_false, hnone]
        rfl
    · simp only [hesc', hv, Bool.false_eq_true, if_false, and_false]
      split
      · rfl
      · rw [storeOctet_eq]
        rfl

/-! ## Every reachable engine -/

/-- The engine before each octet that the receive loop takes, and the octet. -/
def loopStates (stray : UInt8 → UInt8) : List UInt8 → Activity → Engine → List (Engine × UInt8)
  | [], _, _ => []
  | value :: rx, a, e =>
    if e.receiveArmed then
      (e, value) :: loopStates stray rx (receiveOctet stray value a e).1
        (receiveOctet stray value a e).2
    else []

/-- The engine before each octet that a call of `ubcsp_poll` receives, and the octet. -/
def pollStates (stray : UInt8 → UInt8) (rx : List UInt8) (e : Engine) : List (Engine × UInt8) :=
  if (sendHalf e).returned then []
  else loopStates stray rx (sendHalf e).activity (sendHalf e).engine

/-- The engines reachable from `ubcsp_initialize` by calls of the three other
functions, in any order and with any octets received, when every octet received
meets `ok`. -/
inductive Reachable (stray : UInt8 → UInt8) (ok : Engine → UInt8 → Prop) : Engine → Prop
  | start : Reachable stray ok (ubcspInitialize .zero)
  | poll {e : Engine} (rx : List UInt8) : Reachable stray ok e →
      (∀ x ∈ pollStates stray rx e, ok x.1 x.2) → Reachable stray ok (ubcspPoll stray rx e).engine
  | send {e : Engine} (p : Packet) : Reachable stray ok e → Reachable stray ok (ubcspSendPacket p e)
  | receive {e : Engine} (p : Packet) :
      Reachable stray ok e → Reachable stray ok (ubcspReceivePacket p e)

/-- A property of the link-establishment variables is an invariant of the calls when
sending and receiving preserve it. -/
theorem Reachable.link_induction {stray : UInt8 → UInt8} {ok : Engine → UInt8 → Prop}
    (P : Link → Prop) (hstart : P (ubcspInitialize .zero).link)
    (hle : ∀ l, l.packet ≠ .none → P l → P l.sendLe)
    (hconf : ∀ l, P l → P l.sendConfResp)
    (hrecv : ∀ e value k, ok e value → receivedLe value e = some k → P e.link →
      P (e.link.receive k))
    {e : Engine} (h : Reachable stray ok e) : P e.link := by
  have loop : ∀ (rx : List UInt8) (a : Activity) (e : Engine),
      (∀ x ∈ loopStates stray rx a e, ok x.1 x.2) → P e.link →
        P (receiveLoop stray rx a e).2.2.link := by
    intro rx
    induction rx with
    | nil => exact fun _ _ _ hp => hp
    | cons value rx ih =>
      intro a e hok hp
      unfold receiveLoop
      split
      · rename_i harmed
        rw [loopStates, if_pos harmed] at hok
        refine ih _ _ (fun x hx => hok x (List.mem_cons_of_mem _ hx)) ?_
        rw [receiveOctet_link]
        cases hk : receivedLe value e with
        | none => exact hp
        | some k => exact hrecv e value k (hok (e, value) List.mem_cons_self) hk hp
      · exact hp
  induction h with
  | start => exact hstart
  | @poll e rx _ hok ih =>
    have hsend : P (sendHalf e).engine.link := by
      rcases sendHalf_link e with h | ⟨hp, h⟩ | ⟨-, -, h⟩
      · rw [h]; exact ih
      · rw [h]; exact hle _ hp ih
      · rw [h]; exact hconf _ ih
    unfold ubcspPoll
    dsimp only
    unfold pollStates at hok
    split
    · exact hsend
    · rename_i hret
      rw [if_neg hret] at hok
      have := loop rx _ _ hok hsend
      unfold finishPoll
      split <;> exact this
  | send p _ ih => exact ih
  | receive p _ ih => exact ih

/-- A SYNC arrives while the engine is active: the peer has been reset. -/
def PeerResets (e : Engine) (value : UInt8) : Prop :=
  receivedLe value e = some 0 ∧ e.linkEstablishmentState = .active

instance (e : Engine) (value : UInt8) : Decidable (PeerResets e value) :=
  inferInstanceAs (Decidable (_ ∧ _))

/-- The invariant: a packet is due unless the engine is active, and a CONF RESP is
owed by an engine that has left the uninitialized state. -/
structure Link.Due (l : Link) : Prop where
  packet : l.packet = .none → l.state = .active
  resp : l.resp ≤ 2
  owed : l.resp = 2 → l.state ≠ .uninitialized

theorem Link.Due.sendLe {l : Link} (h : l.Due) : l.sendLe.Due := by
  obtain ⟨state, resp, packet⟩ := l
  obtain ⟨-, hresp, howed⟩ := h
  refine ⟨?_, by simp [Link.sendLe], by simp [Link.sendLe]⟩
  -- the entries of `next_le_packet` for the states the invariant allows
  have htable : ∀ r ≤ 2, ∀ s : LinkState, (r = 2 → s ≠ .uninitialized) →
      nextLePacket.getD (s.toNat + r * 4) .sync = .none → s = .active := by
    intro r hr s
    interval_cases r <;> cases s <;> simp [nextLePacket, LinkState.toNat]
  exact htable resp hresp state howed

/-- The packet is due after a received packet, unless it is a SYNC that resets an
engine which still owes a CONF RESP. -/
theorem Link.Due.receive {l : Link} (h : l.Due) {k : Nat}
    (hk : k = 0 → l.state = .active → l.resp ≠ 2) : (l.receive k).Due := by
  obtain ⟨hpacket, hresp, howed⟩ := h
  rcases k with _ | _ | _ | _ | k
  · by_cases ha : l.state = .active
    · have hr := hk rfl ha
      simp only [Link.receive, ha, ne_eq, not_true_eq_false, if_false]
      exact ⟨by simp, hresp, fun h2 => absurd h2 hr⟩
    · simp only [Link.receive, ha, ne_eq, not_false_eq_true, if_true]
      exact ⟨hpacket, by simp, by simp⟩
  · simp only [Link.receive]
    split
    · rename_i hu
      exact ⟨fun hp => absurd (hpacket hp) (by simp [hu]), hresp, by simp⟩
    · exact ⟨hpacket, hresp, howed⟩
  · simp only [Link.receive]
    split
    · exact ⟨hpacket, by simp, fun _ => ‹_›⟩
    · exact ⟨hpacket, hresp, howed⟩
  · exact ⟨fun _ => rfl, hresp, by simp [Link.receive]⟩
  · exact ⟨hpacket, hresp, howed⟩

/-- **An engine that is not active always has a link-establishment packet to send.**
In every run in which no peer reset finds a CONF RESP owed, an engine without a
link-establishment packet is active.  So an engine that is not active waits,
continues a frame, or starts a link-establishment frame: it never starts a data or
ACK frame. -/
theorem Reachable.le_packet_due {stray : UInt8 → UInt8} {e : Engine}
    (h : Reachable stray (fun e value => PeerResets e value → e.linkEstablishmentResp ≠ 2) e) :
    (e.linkEstablishmentPacket = .none → e.linkEstablishmentState = .active) ∧
      (e.linkEstablishmentState ≠ .active → sendHalf e =
        if e.delay ≠ 0 then ⟨[], .none, 0, false, e⟩
        else if e.sendSize ≠ 0 then sendOctet e
        else startLeFrame e) := by
  have hdue : e.link.Due := h.link_induction Link.Due
    ⟨by simp [Engine.link, ubcspInitialize], by simp [Engine.link, ubcspInitialize, Engine.zero],
      by simp [Engine.link, ubcspInitialize, Engine.zero]⟩
    (fun _ _ hl => hl.sendLe)
    (fun _ hl => ⟨hl.packet, by simp [Link.sendConfResp], by simp [Link.sendConfResp]⟩)
    (fun e value k hok hk hl => hl.receive fun hk0 ha => hok ⟨hk0 ▸ hk, ha⟩)
  refine ⟨hdue.packet, ?_⟩
  intro hna
  have hp : e.linkEstablishmentPacket ≠ .none := fun hp => hna (hdue.packet hp)
  simp [sendHalf, hp]

/-! ### The deadlock -/

/-- A receive packet of capacity `n`. -/
def Packet.blank (n : Nat) : Packet := ⟨0, 0, UInt16.ofNat n, List.replicate n 0⟩

/-- A link-establishment frame without a CRC, as a peer may send it. -/
def plainLeFrame (k : LePacket) : List UInt8 :=
  [0x00, 0x41, 0x00, 0xBE] ++ lePayload k ++ [slipFrame]

/-- The engine that has started a SYNC and received a CONF RESP. -/
def confirmed : Engine :=
  (ubcspPoll id (slipFrame :: plainLeFrame .confResp)
    (ubcspPoll id [] (ubcspReceivePacket (.blank 512) (ubcspInitialize .zero))).engine).engine

/-- It has started its last link-establishment packet. -/
def established : Engine := (ubcspPoll id [] confirmed).engine

/-- Then its peer has been reset, and sends a SYNC; no CONF RESP is owed. -/
def peerReset : Engine := (ubcspPoll id (slipFrame :: plainLeFrame .sync) established).engine

/-- Without a link-establishment packet the engine is active, and after a peer reset it starts
a link-establishment frame again. -/
theorem le_packet_due_reset :
    (established.linkEstablishmentPacket = .none ∧
        established.linkEstablishmentState = .active) ∧
      peerReset.linkEstablishmentState = .uninitialized ∧
        sendHalf peerReset = startLeFrame peerReset := by
  let spared : Engine → UInt8 → Prop := fun e value =>
    PeerResets e value → e.linkEstablishmentResp ≠ 2
  have hestablished : Reachable id spared established :=
    (((Reachable.start.receive _).poll _ (by decide)).poll _ (by decide)).poll [] (by decide)
  have hreset : Reachable id spared peerReset :=
    hestablished.poll (slipFrame :: plainLeFrame .sync) (by decide)
  have hnone : established.linkEstablishmentPacket = .none := by decide
  have hstate : peerReset.linkEstablishmentState = .uninitialized := by decide
  have hdelay : peerReset.delay = 0 := by decide
  have hsize : peerReset.sendSize = 0 := by decide
  refine ⟨⟨hnone, (Reachable.le_packet_due hestablished).1 hnone⟩, hstate, ?_⟩
  have hsend := (Reachable.le_packet_due hreset).2 (by rw [hstate]; decide)
  rwa [if_neg (not_not.2 hdelay), if_neg (not_not.2 hsize)] at hsend

/-- A CONF RESP makes the engine active, a CONF leaves a CONF RESP owed, and a SYNC
resets the peer before that response has been sent. -/
def resetWhileOwing : List UInt8 :=
  slipFrame :: plainLeFrame .confResp ++ plainLeFrame .conf ++ plainLeFrame .sync

/-- The engine after one call that starts a SYNC, one that receives
`resetWhileOwing`, and one more. -/
def deadlocked (stray : UInt8 → UInt8) : Engine :=
  (ubcspPoll stray []
    (ubcspPoll stray resetWhileOwing
      (ubcspPoll stray []
        (ubcspReceivePacket (.blank 512) (ubcspInitialize .zero))).engine).engine).engine

/-- **A reachable engine that is uninitialized and has no link-establishment packet
to send**, although it has done nothing but receive three intact frames. -/
theorem exists_deadlocked :
    ∃ e, Reachable id (fun _ _ => True) e ∧
      e.linkEstablishmentPacket = .none ∧ e.linkEstablishmentState = .uninitialized :=
  ⟨deadlocked id,
    (((Reachable.start.receive _).poll _ fun _ _ => trivial).poll _ fun _ _ => trivial).poll _
      fun _ _ => trivial,
    by decide, by decide⟩

end OpenwrtFeed.Ubcsp
