import OpenwrtFeed.DriverQueue
import OpenwrtFeed.ReceiveAccesses

/-! # The bounds of the receive buffers

The capacity is a field of the packet that the engine overwrites with the length it has
received, and the pointer is made null inside the loop that uses it.  The receiving code keeps
the bounds all the same: the packet is in the engine with its full capacity or not at all, and
`receive_index` never exceeds the capacity (`Rx.Bounded`).

What breaks them is the sending side.  `send_buffer` lies next to `receive_packet`, and neither
the copy of an op nor the queue looks at the size of its array.  The bounds hold for every
layout of the memory exactly in the runs in which no such write goes beyond
(`receive_in_bounds_iff`).
-/
namespace OpenwrtFeed.Ubcsp

/-- The pointer is not null, an index lies in its buffer, and the variables of the input side
are within their bounds. -/
def Access.InBounds : Access → Prop
  | .pointer armed => armed = true
  | .headerWrite i => 0 ≤ i ∧ i ≤ 3
  | .bufferRead i => 0 ≤ i ∧ i ≤ 511
  | .bufferWrite i => 0 ≤ i ∧ i ≤ 511
  | .assigned r =>
    (-4 ≤ r.receiveIndex ∧ r.receiveIndex ≤ 512) ∧
      (r.receiveArmed = true → r.receivePacket.length = 512)

/-- The invariant of the input side. -/
structure Rx.Bounded (r : Rx) : Prop where
  index_ge : -4 ≤ r.receiveIndex
  index_le : r.receiveIndex ≤ 512
  length_armed : r.receiveArmed = true → r.receivePacket.length = 512
  length_le : r.receivePacket.length.toNat ≤ 512

theorem Rx.Bounded.inBounds {r : Rx} (h : r.Bounded) : (Access.assigned r).InBounds :=
  ⟨⟨h.index_ge, h.index_le⟩, h.length_armed⟩

/-- Only `receive_index`, the pointer and the capacity matter, and of these the index has moved. -/
theorem Rx.Bounded.moved {r r' : Rx} (h : r.Bounded) (hge : -4 ≤ r'.receiveIndex)
    (hle : r'.receiveIndex ≤ 512) (harmed : r'.receiveArmed = r.receiveArmed)
    (hlength : r'.receivePacket.length = r.receivePacket.length) : r'.Bounded where
  index_ge := hge
  index_le := hle
  length_armed ha := hlength.trans (h.length_armed (harmed.symm.trans ha))
  length_le := hlength ▸ h.length_le

/-- The next frame begins. -/
theorem Rx.Bounded.restarted {r r' : Rx} (h : r.Bounded) (hindex : r'.receiveIndex = -4)
    (harmed : r'.receiveArmed = r.receiveArmed)
    (hlength : r'.receivePacket.length = r.receivePacket.length) : r'.Bounded :=
  h.moved (by omega) (by omega) harmed hlength

/-- The engine is given a packet with its full capacity. -/
theorem bounded_receivePacket {p : Packet} (hlength : p.length = 512) (e : Engine) :
    (ubcspReceivePacket p e).rx.Bounded where
  index_ge := le_refl (-4)
  index_le := show (-4 : Int) ≤ 512 by omega
  length_armed _ := hlength
  length_le := (congrArg UInt16.toNat hlength).le

namespace Accessed
open Observed (Meets)

/-! ## Single accesses -/

theorem receivePacket_meets {e : Engine} (harmed : e.receiveArmed = true) :
    Meets Access.InBounds (fun p => p = e.receivePacket) (receivePacket e) := by
  have hin : (Access.pointer e.receiveArmed).InBounds := harmed
  exact .bind (Meets.event hin) fun _ _ => .pure rfl

theorem payload_meets {p : Packet} {i : Int} (h0 : 0 ≤ i) (h : i ≤ 511) :
    Meets Access.InBounds (fun _ => True) (payload p i) :=
  .bind (Meets.event ⟨h0, h⟩) fun _ _ => .pure trivial

theorem assign_meets {e : Engine} (h : e.rx.Bounded) :
    Meets Access.InBounds (fun e' => e' = e) (assign e) :=
  .bind (Meets.event h.inBounds) fun _ _ => .pure rfl

/-! ## `ubcsp_which_le_payload` -/

theorem matchOctets_meets {p : Packet} {row : List UInt8} {octets : List Nat}
    (h : ∀ octet ∈ octets, octet ≤ 511) :
    Meets Access.InBounds (fun _ => True) (matchOctets p row octets) := by
  induction octets with
  | nil => exact .pure trivial
  | cons octet octets ih =>
    have hoctet : octet ≤ 511 := h octet List.mem_cons_self
    refine .bind (payload_meets (by omega) (by omega)) fun _ _ => ?_
    refine .ite (fun _ => .pure trivial) fun _ => ?_
    exact ih fun octet hmem => h octet (List.mem_cons_of_mem _ hmem)

theorem matchRows_meets (p : Packet) (loop : Nat) (rows : List (List UInt8)) :
    Meets Access.InBounds (fun _ => True) (matchRows p loop rows) := by
  induction rows generalizing loop with
  | nil => exact .pure trivial
  | cons row rows ih =>
    have hrow : ∀ octet ∈ List.range 4, octet ≤ 511 := by
      intro octet hmem
      have hlt : octet < 4 := List.mem_range.1 hmem
      omega
    exact .bind (matchOctets_meets hrow) fun _ _ => .ite (fun _ => .pure trivial) fun _ => ih _

/-! ## `ubcsp_recevied_packet` -/

section
variable {e : Engine}

theorem receiveCrc_meets (harmed : e.receiveArmed = true) (hle : e.receiveIndex ≤ 512) :
    Meets Access.InBounds (fun _ => True) (receiveCrc e) := by
  refine .foldlM trivial fun _ _ loop hmem => ?_
  have hlt : loop < e.receiveIndex.toNat := List.mem_range.1 hmem
  refine .bind (receivePacket_meets harmed) fun _ _ => ?_
  exact .bind (payload_meets (by omega) (by omega)) fun _ _ => .pure trivial

/-- The two octets of the CRC have been counted by `receive_index` before. -/
theorem crcMatches_meets (harmed : e.receiveArmed = true) (h0 : 0 ≤ e.receiveIndex)
    (hle : e.receiveIndex ≤ 510) : Meets Access.InBounds (fun _ => True) (crcMatches e) := by
  refine .bind (receiveCrc_meets harmed (by omega)) fun _ _ => ?_
  refine .bind (receivePacket_meets harmed) fun _ _ => ?_
  refine .bind (payload_meets h0 (by omega)) fun _ _ => .ite (fun _ => .pure trivial) fun _ => ?_
  refine .bind (receivePacket_meets harmed) fun _ _ => ?_
  exact .bind (payload_meets (by omega) (by omega)) fun _ _ => .pure trivial

/-- What the checks leave: the packet is still there, and if they have been passed then the
length of the header is `receive_index`. -/
structure Checked (ok : Bool) (e : Engine) : Prop where
  armed : e.receiveArmed = true
  bounded : e.rx.Bounded
  length : ok = true → (headerLength e.receiveHeader).toNat = e.receiveIndex

theorem checkPayload_meets (harmed : e.receiveArmed = true) (h : e.rx.Bounded) :
    Meets Access.InBounds (fun r => Checked r.1 r.2) (checkPayload e) := by
  have hle : e.receiveIndex ≤ 512 := h.index_le
  refine .ite (fun _ => .ite (fun _ => ?_) fun hlength => ?_) fun _ => ?_
  · exact .pure ⟨harmed, h, fun hok => (nomatch hok)⟩
  · -- the octets of the CRC are taken off
    have hlength : ((headerLength e.receiveHeader).toNat : Int) = e.receiveIndex - 2 := by omega
    have h0 : 0 ≤ e.receiveIndex - 2 := by omega
    have hle' : e.receiveIndex - 2 ≤ 510 := by omega
    have hb : { e with receiveIndex := e.receiveIndex - 2 }.rx.Bounded :=
      h.moved (Int.le_trans (by omega) h0) (hle'.trans (by omega)) rfl rfl
    refine .bind (assign_meets hb) fun e' he => ?_
    subst he
    refine .bind (crcMatches_meets harmed h0 hle') fun _ _ => ?_
    exact .pure ⟨harmed, hb, fun _ => hlength⟩
  · exact .pure ⟨harmed, h, fun hok => of_decide_eq_true hok⟩

theorem receiveLe_meets (a : Activity) (harmed : e.receiveArmed = true) (h : e.rx.Bounded) :
    Meets Access.InBounds (fun r => r.2.rx.Bounded) (receiveLe a e) := by
  have hinit : (ubcspInitialize { e with delay := 0 }).rx.Bounded := h.restarted rfl rfl rfl
  refine .bind (receivePacket_meets harmed) fun p _ => ?_
  refine .bind (matchRows_meets p 0 leBuffer) fun k _ => ?_
  rcases k with _ | _ | _ | _ | k
  · refine .ite (fun _ => .pure h) fun _ => ?_
    refine .bind (assign_meets hinit) fun e' he => ?_
    exact .pure (he ▸ hinit)
  · exact .ite (fun _ => .pure h) fun _ => .pure h
  · exact .ite (fun _ => .pure h) fun _ => .pure h
  · exact .ite (fun _ => .pure h) fun _ => .pure h
  · exact .pure h

/-- The length that is handed over has been counted by `receive_index`. -/
theorem handOver_meets (h : Checked true e) :
    Meets Access.InBounds (fun e' => e'.rx.Bounded) (handOver e) := by
  have hb : (Ubcsp.handOver e).rx.Bounded := by
    refine ⟨h.bounded.index_ge, h.bounded.index_le, fun harmed => (nomatch harmed), ?_⟩
    have hle : e.receiveIndex ≤ 512 := h.bounded.index_le
    have hlength := h.length rfl
    show (headerLength e.receiveHeader).toNat ≤ 512
    omega
  refine .bind (receivePacket_meets h.armed) fun _ _ => ?_
  exact (assign_meets hb).mono fun e' he => he ▸ hb

theorem receiveData_meets (a : Activity) (h : Checked true e) :
    Meets Access.InBounds (fun r => r.2.rx.Bounded) (receiveData a e) := by
  refine .ite (fun _ => ?_) fun _ => .pure h.bounded
  refine .bind (receivePacket_meets h.armed) fun p _ => .ite (fun _ => ?_) fun _ => ?_
  · refine .ite (fun _ => ?_) fun _ => .pure h.bounded
    refine .bind (handOver_meets ⟨h.armed, h.bounded, h.length⟩) fun _ hb => ?_
    exact .pure hb
  · refine .bind (handOver_meets h) fun _ hb => ?_
    exact .pure hb

theorem receiveIntact_meets (h : Checked true e) :
    Meets Access.InBounds (fun r => r.2.rx.Bounded) (receiveIntact e) := by
  have hack : Checked true (receiveAck e).2 := by
    rcases receiveAck_cases e with heq | ⟨-, -, heq⟩
    · exact heq ▸ h
    · rw [heq]
      exact ⟨h.armed, h.bounded, h.length⟩
  refine .bind (receivePacket_meets hack.armed) fun _ _ => .ite (fun _ => ?_) fun _ => ?_
  · exact receiveLe_meets _ hack.armed hack.bounded
  · exact .ite (fun _ => receiveData_meets _ hack) fun _ => .pure hack.bounded

theorem receviedPacket_meets (harmed : e.receiveArmed = true) (h : e.rx.Bounded) :
    Meets Access.InBounds (fun r => r.2.rx.Bounded) (receviedPacket e) := by
  refine .ite (fun _ => .pure h) fun _ => ?_
  refine .bind (receivePacket_meets harmed) fun p hp => ?_
  subst hp
  -- neither field of the packet is looked at by the invariant
  refine .bind (assign_meets (h.moved h.index_ge h.index_le rfl rfl)) fun e₁ he₁ => ?_
  subst he₁
  refine .bind (receivePacket_meets harmed) fun p hp => ?_
  subst hp
  have hb : { e with receivePacket := { e.receivePacket with
      reliable := headerReliable e.receiveHeader
      channel := headerChannel e.receiveHeader } }.rx.Bounded :=
    h.moved h.index_ge h.index_le rfl rfl
  refine .bind (assign_meets hb) fun e₂ he₂ => ?_
  subst he₂
  refine .bind (checkPayload_meets harmed hb) fun r hr => ?_
  refine .ite (fun hok => ?_) fun _ => .pure hr.bounded
  exact receiveIntact_meets ⟨hr.armed, hr.bounded, fun _ => hr.length hok⟩

/-! ## The receive loop and `ubcsp_poll` -/

theorem storeOctet_meets (value : UInt8) (harmed : e.receiveArmed = true) (h : e.rx.Bounded) :
    Meets Access.InBounds (fun e' => e'.rx.Bounded) (storeOctet value e) := by
  have hge : -4 ≤ e.receiveIndex := h.index_ge
  have hle : e.receiveIndex ≤ 512 := h.index_le
  have hge' : -4 ≤ e.receiveIndex + 1 := by omega
  refine .ite (fun hneg => ?_) fun hpos => ?_
  · have hle' : e.receiveIndex + 1 ≤ 512 := by omega
    have hb : { e with
        receiveHeader := e.receiveHeader.set (e.receiveIndex + 4).toNat value
        receiveIndex := e.receiveIndex + 1 }.rx.Bounded := h.moved hge' hle' rfl rfl
    have hin : (Access.headerWrite (e.receiveIndex + 4)).InBounds := ⟨by omega, by omega⟩
    refine .bind (Meets.event hin) fun _ _ => ?_
    exact (assign_meets hb).mono fun e' he => he ▸ hb
  · refine .bind (receivePacket_meets harmed) fun p hp => .ite (fun hlt => ?_) fun _ => .pure h
    subst hp
    have hlength : e.receivePacket.length.toNat ≤ 512 := h.length_le
    have hle' : e.receiveIndex + 1 ≤ 512 := by omega
    have hb : { e with
        receivePacket := { e.receivePacket with
          payload := e.receivePacket.payload.set e.receiveIndex.toNat value }
        receiveIndex := e.receiveIndex + 1 }.rx.Bounded := h.moved hge' hle' rfl rfl
    have hin : (Access.bufferWrite e.receiveIndex).InBounds := ⟨by omega, by omega⟩
    refine .bind (receivePacket_meets harmed) fun p hp => ?_
    subst hp
    refine .bind (Meets.event hin) fun _ _ => ?_
    exact (assign_meets hb).mono fun e' he => he ▸ hb

theorem endOfFrame_meets (a : Activity) (harmed : e.receiveArmed = true) (h : e.rx.Bounded) :
    Meets Access.InBounds (fun r => r.2.rx.Bounded) (endOfFrame a e) := by
  have restart : ∀ (a : Activity) (e : Engine), e.rx.Bounded →
      Meets Access.InBounds (fun r : Activity × Engine => r.2.rx.Bounded)
        (assign { e with receiveIndex := -4 } >>= fun e => pure (a, e)) := by
    intro a e h
    have hb : { e with receiveIndex := -4 }.rx.Bounded := h.restarted rfl rfl rfl
    refine .bind (assign_meets hb) fun e' he => ?_
    exact .pure (he ▸ hb)
  refine .ite (fun _ => ?_) fun _ => restart a e h
  refine .bind (receviedPacket_meets harmed h) fun r hr => restart _ _ ?_
  by_cases hack : (a.or r.1).ack = true
  · rw [if_pos hack]
    exact hr
  · rw [if_neg hack]
    exact hr

theorem receiveOctet_meets (stray : UInt8 → UInt8) (value : UInt8) (a : Activity)
    (harmed : e.receiveArmed = true) (h : e.rx.Bounded) :
    Meets Access.InBounds (fun r => r.2.rx.Bounded) (receiveOctet stray value a e) := by
  refine .ite (fun _ => ?_) fun _ => .ite (fun _ => ?_) fun _ => .ite (fun _ => ?_) fun _ => ?_
  · have hb : { e with receiveSlipEscape := false }.rx.Bounded :=
      h.moved h.index_ge h.index_le rfl rfl
    refine .bind (storeOctet_meets _ harmed hb) fun _ he => ?_
    exact .pure he
  · exact endOfFrame_meets a harmed h
  · exact .pure (h.moved h.index_ge h.index_le rfl rfl)
  · refine .bind (storeOctet_meets _ harmed h) fun _ he => ?_
    exact .pure he

/-- The pointer is tested before every octet. -/
theorem receiveLoop_meets (stray : UInt8 → UInt8) (rx : List UInt8) (a : Activity)
    (h : e.rx.Bounded) : Meets Access.InBounds (fun r => r.2.2.rx.Bounded)
    (receiveLoop stray rx a e) := by
  induction rx generalizing a e with
  | nil => exact .pure h
  | cons value rx ih =>
    refine .ite (fun harmed => ?_) fun _ => .pure h
    exact .bind (receiveOctet_meets stray value a harmed h) fun r hr => ih _ hr

theorem ubcspPoll_meets (stray : UInt8 → UInt8) (rx : List UInt8) (h : e.rx.Bounded) :
    Meets Access.InBounds (fun r => r.engine.rx.Bounded) (ubcspPoll stray rx e) := by
  have hsend : (sendHalf e).engine.rx.Bounded := by
    rw [sendHalf_rx]
    exact h
  refine .ite (fun _ => .pure hsend) fun _ => ?_
  refine .bind (receiveLoop_meets stray rx _ hsend) fun r hr => ?_
  refine .pure ?_
  show (finishPoll _ r.2.2).rx.Bounded
  unfold finishPoll
  split
  · exact hr
  · exact hr

end
end Accessed
end OpenwrtFeed.Ubcsp

namespace OpenwrtFeed.HciPoll
open Ubcsp HciQueue HciBridge Observed

namespace Accessed
open Ubcsp.Accessed

/-! ## The loops of the driver -/

theorem readPayload_meets {p : Packet} (hle : p.length.toNat ≤ 512) :
    Meets Access.InBounds (fun _ => True) (readPayload p) := by
  refine .forM fun ii hmem => ?_
  have hlt : ii < p.length.toNat := List.mem_range.1 hmem
  exact .bind (payload_meets (by omega) (by omega)) fun _ _ => .pure trivial

theorem forward_meets {p : Packet} (hle : p.length.toNat ≤ 512) :
    Meets Access.InBounds (fun _ => True) (forward p) := by
  have hread := readPayload_meets hle
  refine .ite (fun _ => ?_) fun _ => .ite (fun _ => ?_) fun _ => .pure trivial
  · refine .bind hread fun _ _ => .bind (payload_meets (le_refl 0) (by omega)) fun _ _ => ?_
    exact .ite (fun _ => .bind hread fun _ _ => .pure trivial) fun _ => .pure trivial
  · exact .bind hread fun _ _ => .bind hread fun _ _ => .pure trivial

theorem onReceived_meets (a : Activity) {d : Driver} (h : d.engine.rx.Bounded) :
    Meets Access.InBounds (fun r => r.1.engine.rx.Bounded) (onReceived a d) := by
  refine .ite (fun _ => ?_) fun _ => .pure h
  refine .bind (forward_meets h.length_le) fun _ _ => ?_
  have hrearm : (rearm d.engine).rx.Bounded := bounded_receivePacket rfl d.engine
  exact .bind (assign_meets hrearm) fun e he => .pure (he ▸ hrearm)

theorem turn_meets {stray : UInt8 → UInt8} {layout : Layout} {t : Turn} {d : Driver}
    (h : d.engine.rx.Bounded) (hwithin : d.Within stray t) :
    Meets Access.InBounds (fun r => r = d.turn stray t ∧ r.1.engine.rx.Bounded)
      (turn stray layout t d) := by
  refine Meets.valued ?_ (turn_value hwithin)
  have hpoll : Meets Access.InBounds (fun r => r = d.poll stray t.arrived ∧ r.engine.rx.Bounded)
      (ubcspPoll stray (d.uart ++ t.arrived) d.engine) :=
    (ubcspPoll_meets stray _ h).valued (ubcspPoll_value stray _ _)
  refine .bind hpoll fun r hr => ?_
  obtain ⟨rfl, hr⟩ := hr
  have hsent : ({ d with
      engine := (d.poll stray t.arrived).engine
      uart := (d.poll stray t.arrived).rest }.onSent
        (d.poll stray t.arrived).activity).engine.rx.Bounded := by
    rw [(Driver.onSent_keeps _ _).1]
    exact hr
  have hreceived := (onReceived_meets (d.poll stray t.arrived).activity hsent).valued
    (onReceived_value _ _)
  refine .bind hreceived fun acted hacted => ?_
  obtain ⟨rfl, hacted⟩ := hacted
  have hserve : serve layout t (d.acted stray t).1 = pure (d.served stray t) := serve_eq hwithin
  have hserved : Meets Access.InBounds (fun served => served = d.served stray t)
      (serve layout t (d.acted stray t).1) := by
    rw [hserve]
    exact .pure rfl
  refine .bind hserved fun served heq => .pure ?_
  -- the queue and the delay leave the input side alone
  rw [heq, (Driver.onDelay_keeps _ _).1]
  unfold Driver.served
  rw [(Driver.fetch_keeps t.late _).1]
  exact hacted

theorem run_meets {stray : UInt8 → UInt8} {layout : Layout} {ts : List Turn} {d : Driver}
    (h : d.engine.rx.Bounded) (hwithin : d.Throughout stray (Driver.Within stray) ts) :
    Meets Access.InBounds (fun _ => True) (run stray layout ts d) := by
  induction ts generalizing d with
  | nil => exact .pure trivial
  | cons t ts ih =>
    refine .bind (turn_meets h hwithin.1) fun r hr => ?_
    obtain ⟨heq, hr⟩ := hr
    exact .bind (ih hr (heq ▸ hwithin.2)) fun _ _ => .pure trivial

/-- What `hci_open_device_internal` leaves to `hci_do_poll`. -/
def Opening.Bounded : Opening → Prop
  | .opened _ e => e.rx.Bounded
  | .polling => True
  | .timedOut => True

theorem openLoop_meets (stray : UInt8 → UInt8) (turns : List (List UInt8)) (timeout : Nat)
    (uart : List UInt8) {e : Engine} (h : e.rx.Bounded) :
    Meets Access.InBounds Opening.Bounded (openLoop stray turns timeout uart e) := by
  induction turns generalizing timeout uart e with
  | nil => exact .pure trivial
  | cons arrived turns ih =>
    refine .bind (ubcspPoll_meets stray _ h) fun r hr => .ite (fun _ => .pure hr) fun _ => ?_
    exact .ite (fun _ => .ite (fun _ => .pure trivial) fun _ => ih _ _ hr) fun _ => ih _ _ hr

theorem hciOpenDeviceInternal_meets (stray : UInt8 → UInt8) (turns : List (List UInt8)) :
    Meets Access.InBounds Opening.Bounded (hciOpenDeviceInternal stray turns) := by
  have hzero : Engine.zero.rx.Bounded := by
    refine ⟨?_, ?_, fun harmed => (nomatch harmed), Nat.zero_le 512⟩
    · show (-4 : Int) ≤ 0
      omega
    · show (0 : Int) ≤ 512
      omega
  have hinit : (ubcspInitialize .zero).rx.Bounded := hzero.restarted rfl rfl rfl
  have hpacket : (ubcspReceivePacket receivePacket (ubcspInitialize .zero)).rx.Bounded :=
    bounded_receivePacket rfl _
  refine .bind (assign_meets hzero) fun e₁ he₁ => ?_
  subst he₁
  refine .bind (assign_meets hinit) fun e₂ he₂ => ?_
  subst he₂
  refine .bind (assign_meets hpacket) fun e₃ he₃ => ?_
  subst he₃
  exact openLoop_meets stray turns 0 [] hpacket

theorem drive_meets {stray : UInt8 → UInt8} {opening : List (List UInt8)} {turns : List Turn}
    (hwithin : KeepsWithin stray opening turns) (layout : Layout) :
    Meets Access.InBounds (fun _ => True) (drive stray layout opening turns) := by
  have hopening := (hciOpenDeviceInternal_meets stray opening).valued
    (hciOpenDeviceInternal_value stray opening)
  refine .bind hopening fun opened hopened => ?_
  obtain ⟨rfl, hopened⟩ := hopened
  unfold KeepsWithin at hwithin
  cases hopen : HciPoll.hciOpenDeviceInternal stray opening with
  | opened uart e =>
    rw [hopen] at hwithin
    have hstart : (Driver.start uart e).engine.rx.Bounded := bounded_receivePacket rfl e
    refine .bind (.bind (assign_meets hstart) fun _ _ => run_meets hstart hwithin) fun _ _ => ?_
    exact .pure trivial
  | polling => exact .pure trivial
  | timedOut => exact .pure trivial

/-! ## Writes beyond the arrays -/

/-- Every write beyond an array spoils `receive_index`. -/
def spoiling : Layout := fun _ d => { d with engine := { d.engine with receiveIndex := 513 } }

theorem overrun_spoils {o : Overrun} {d : Driver} :
    ¬ ∀ access ∈ (overrun spoiling o d).events, access.InBounds := by
  intro h
  obtain ⟨⟨-, hindex⟩, -⟩ := h _ (List.mem_append_left _ List.mem_cons_self)
  exact absurd hindex (show ¬ (513 : Int) ≤ 512 by decide)

/-- Ops that have been queued without an overrun have found their entries. -/
theorem queueAll_entries {ops : List Op} {d : Driver} (htail : d.queue.queueTail ≤ capacity)
    (h : ∀ access ∈ (queueAll spoiling ops d).events, access.InBounds) :
    d.queue.queueTail + ops.length ≤ capacity := by
  induction ops generalizing d with
  | nil => exact htail
  | cons op ops ih =>
    obtain ⟨hone, hrest⟩ := List.forall_mem_append.1 h
    by_cases hlt : d.queue.queueTail < capacity
    · have heq : queueOp spoiling op d = pure { d with queue := queueHciOp op d.queue } :=
        if_pos hlt
      rw [heq] at hrest
      have htail' : d.queue.queueTail + 1 ≤ capacity := hlt
      have hlen : d.queue.queueTail + 1 + ops.length ≤ capacity := ih htail' hrest
      rw [List.length_cons]
      omega
    · have heq : queueOp spoiling op d = overrun spoiling (.queueArrays op) d := if_neg hlt
      exact absurd (heq ▸ hone) overrun_spoils

/-- An op that has been copied without an overrun fits `send_buffer`. -/
theorem dequeue_octets {d : Driver} (hne : d.queue.queueHead < d.queue.queueTail)
    (h : ∀ access ∈ (dequeue spoiling d).events, access.InBounds) :
    (headPacket d.queue).length.toNat ≤ sendCapacity := by
  unfold dequeue at h
  rw [if_pos hne] at h
  have hcopy := (List.forall_mem_append.1 h).1
  by_contra hlen
  have heq : copyIntoSendBuffer spoiling (headPacket d.queue) d =
      overrun spoiling (.sendBuffer (headPacket d.queue)) d := if_neg hlen
  exact overrun_spoils (heq ▸ hcopy)

theorem fetch_room {late : List Op} {d : Driver} (hhead : d.queue.queueHead ≤ d.queue.queueTail)
    (htail : d.queue.queueTail ≤ capacity)
    (h : ∀ access ∈ (fetch spoiling late d).events, access.InBounds) :
    d.queue.queueTail + late.length ≤ capacity ∧
      (d.fetchNewCommand = true → isQueueEmpty d.queue = false →
        (headPacket (HciPoll.queueAll late d.queue)).length.toNat ≤ sendCapacity) := by
  unfold fetch at h
  by_cases hif : (d.fetchNewCommand && !isQueueEmpty d.queue) = true
  · rw [if_pos hif] at h
    obtain ⟨hlate, hdequeue⟩ := List.forall_mem_append.1 h
    have hroom := queueAll_entries htail hlate
    refine ⟨hroom, fun _ hne => ?_⟩
    rw [queueAll_eq hroom] at hdequeue
    obtain ⟨hhead', htail'⟩ := queueAll_indices late d.queue
    have hne' : d.queue.queueHead ≠ d.queue.queueTail := of_decide_eq_false hne
    refine dequeue_octets ?_ hdequeue
    show (HciPoll.queueAll late d.queue).queueHead < (HciPoll.queueAll late d.queue).queueTail
    omega
  · rw [if_neg hif] at h
    refine ⟨queueAll_entries htail (List.forall_mem_append.1 h).1, fun hwant hne => ?_⟩
    exact absurd (by rw [hwant, hne]; rfl) hif

/-- A queue that has been served without an overrun has had room. -/
theorem serve_hasRoom {t : Turn} {d : Driver} (hhead : d.queue.queueHead ≤ d.queue.queueTail)
    (htail : d.queue.queueTail ≤ capacity)
    (h : ∀ access ∈ (serve spoiling t d).events, access.InBounds) : d.HasRoom t := by
  obtain ⟨hearly, hfetch⟩ := List.forall_mem_append.1 h
  have hfirst := queueAll_entries htail hearly
  rw [queueAll_eq hfirst] at hfetch
  obtain ⟨hhead', htail'⟩ := queueAll_indices t.early d.queue
  obtain ⟨hroom, hoctets⟩ := @fetch_room t.late { d with queue := HciPoll.queueAll t.early d.queue }
    (queueAll_le hhead t.early) (by dsimp only; omega) hfetch
  dsimp only at hroom
  exact ⟨by omega, hoctets⟩

/-- At the head of the loop the indices of the queue are in order, and within the entries. -/
structure Indexed (q : Queue) : Prop where
  ordered : q.queueHead ≤ q.queueTail
  tail : q.queueTail ≤ capacity

theorem dequeue_tail (q : Queue) : (dequeueIntoSendPacket q).2.queueTail ≤ q.queueTail := by
  unfold dequeueIntoSendPacket dropHead
  split
  · dsimp only
    split
    · exact Nat.zero_le _
    · exact Nat.le_refl _
  · exact Nat.le_refl _

theorem Indexed.fetch {late : List Op} {d : Driver} (h : Indexed (HciPoll.queueAll late d.queue)) :
    Indexed (d.fetch late).1.queue := by
  have hdequeue : Indexed (dequeueIntoSendPacket (HciPoll.queueAll late d.queue)).2 :=
    ⟨dequeue_indices h.ordered, (dequeue_tail _).trans h.tail⟩
  unfold Driver.fetch
  split
  · split
    · rename_i hdeq
      rw [hdeq] at hdequeue
      exact hdequeue
    · rename_i hdeq
      rw [hdeq] at hdequeue
      exact hdequeue
  · exact h

theorem Indexed.turn {stray : UInt8 → UInt8} {t : Turn} {d : Driver} (h : Indexed d.queue)
    (hwithin : d.Within stray t) : Indexed (d.turn stray t).1.queue := by
  have hacted := (Driver.acted_keeps stray t d).2
  have hentries := hwithin.entries
  have hordered : (d.acted stray t).1.queue.queueHead ≤ (d.acted stray t).1.queue.queueTail :=
    hacted ▸ h.ordered
  show Indexed ((d.served stray t).1.onDelay _).1.queue
  rw [Driver.onDelay_queue]
  refine Indexed.fetch ⟨queueAll_le (queueAll_le hordered t.early) t.late, ?_⟩
  rw [(queueAll_indices t.late _).2, (queueAll_indices t.early _).2]
  omega

/-- A turn without an overrun has had room. -/
theorem turn_within {stray : UInt8 → UInt8} {t : Turn} {d : Driver} (h : Indexed d.queue)
    (hin : ∀ access ∈ (turn stray spoiling t d).events, access.InBounds) : d.Within stray t := by
  have hserve := (List.forall_mem_append.1
    (List.forall_mem_append.1 (List.forall_mem_append.1 hin).2).2).1
  rw [ubcspPoll_value, onReceived_value] at hserve
  have hacted := (Driver.acted_keeps stray t d).2
  exact serve_hasRoom (hacted ▸ h.ordered) (hacted ▸ h.tail) hserve

theorem run_within {stray : UInt8 → UInt8} {ts : List Turn} {d : Driver} (h : Indexed d.queue)
    (hin : ∀ access ∈ (run stray spoiling ts d).events, access.InBounds) :
    d.Throughout stray (Driver.Within stray) ts := by
  induction ts generalizing d with
  | nil => trivial
  | cons t ts ih =>
    obtain ⟨hturn, hrest⟩ := List.forall_mem_append.1 hin
    have hwithin := turn_within h hturn
    rw [turn_value hwithin] at hrest
    have hrun := (List.forall_mem_append.1 hrest).1
    exact ⟨hwithin, ih (h.turn hwithin) hrun⟩

theorem drive_within {stray : UInt8 → UInt8} {opening : List (List UInt8)} {turns : List Turn}
    (hin : ∀ access ∈ (drive stray spoiling opening turns).events, access.InBounds) :
    KeepsWithin stray opening turns := by
  have hpolled := (List.forall_mem_append.1 hin).2
  rw [hciOpenDeviceInternal_value] at hpolled
  unfold KeepsWithin
  cases hopen : HciPoll.hciOpenDeviceInternal stray opening with
  | opened uart e =>
    rw [hopen] at hpolled
    have hpoll := (List.forall_mem_append.1 hpolled).1
    have hrun := (List.forall_mem_append.1 hpoll).2
    exact run_within ⟨Nat.le_refl 0, Nat.zero_le _⟩ hrun
  | polling => trivial
  | timedOut => trivial

end Accessed

/-- **The bounds of the receive buffers.**  Whatever arrives at the UART, and whatever the lookup
of a stray octet yields, every access of `hci_open_device_internal` followed by `hci_do_poll` is
within bounds for every layout of the memory if and only if every op that is queued finds an entry
in the queue arrays, and every op that is copied fits `send_buffer`. -/
theorem receive_in_bounds_iff (stray : UInt8 → UInt8) (opening : List (List UInt8))
    (turns : List Turn) :
    (∀ layout, ∀ access ∈ (Accessed.drive stray layout opening turns).events, access.InBounds) ↔
      KeepsWithin stray opening turns :=
  ⟨fun h => Accessed.drive_within (h Accessed.spoiling),
    fun h layout => (Accessed.drive_meets h layout).events⟩

/-! ### An op of 518 octets -/

/-- `receive_packet` behind `send_buffer`, its channel, reliability and length in the first, second
and the fifth and sixth octet.  An op of at most 520 octets does not reach its payload. -/
def receivePacketBehind : Accessed.Layout
  | .queueArrays _, d => d
  | .sendBuffer p, d =>
    let q := d.engine.receivePacket
    let high := p.payload.getD 516 (q.length >>> 8).toUInt8
    let low := p.payload.getD 517 q.length.toUInt8
    { d with engine := { d.engine with
        receivePacket := { q with
          channel := p.payload.getD 512 q.channel
          reliable := p.payload.getD 513 q.reliable
          length := high.toUInt16 <<< 8 ||| low.toUInt16 } } }

/-- ACL data of 518 octets. -/
def overlong : Op := ⟨List.replicate 518 0xFF, 518, 6⟩

/-- A frame on the ACL channel whose payload has 513 octets. -/
def longFrame : List UInt8 := [0xC0, 0x00, 0x16, 0x20, 0xC9] ++ List.replicate 513 0x55

/-- **The copy of an op takes the receive buffer out of its bounds**: it leaves the armed packet
65535 octets long, and the next frame is stored one octet past the end of `receive_buffer`. -/
theorem exists_out_of_bounds :
    let accesses := (Accessed.drive id receivePacketBehind startUp
      [⟨[], [overlong], []⟩, ⟨longFrame, [], []⟩]).events
    .bufferWrite 512 ∈ accesses ∧ ¬ ∀ access ∈ accesses, access.InBounds := by
  intro accesses
  have hwrite : .bufferWrite 512 ∈ accesses := by decide +kernel
  refine ⟨hwrite, fun h => ?_⟩
  obtain ⟨-, hlast⟩ := h _ hwrite
  exact absurd hlast (by decide)

end OpenwrtFeed.HciPoll
