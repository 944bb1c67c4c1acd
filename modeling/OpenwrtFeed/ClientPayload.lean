import OpenwrtFeed.QueueFifo
import OpenwrtFeed.BridgeSession
import OpenwrtFeed.FrameFormat

/-! # The payload of a client on its way to the link

`session` accepts messages of up to 4096 octets, and nothing looks at a length again before
`dequeueIntoSendPacket` copies the payload into `send_buffer`, which has 512, and
`ubcsp_poll` writes its length into twelve bits.  The twelve bits are enough for every
payload that is queued (`queued_encodable`); the buffer is not (`client_payload_fits_iff`).
-/
namespace OpenwrtFeed.HciBridge
open HciQueue Ubcsp

/-! ## What a session lets through -/

/-- The limit on the length, between the calls of `recv` and in what has been dispatched. -/
structure Session.Bounded (s : Session) : Prop where
  commandType : ∀ length, s.reading = .commandType length → length.toNat ≤ 4096
  payload : ∀ length commandType, s.reading = .payload length commandType → length.toNat ≤ 4096
  dispatched : ∀ x ∈ s.dispatched, ∃ commandType buf,
    x = dispatch commandType buf ∧ 1 ≤ buf.length ∧ buf.length ≤ 4095

namespace Session
variable {s : Session}

theorem Bounded.start : Session.start.Bounded :=
  ⟨fun _ h => (by cases h), fun _ _ h => (by cases h), fun _ h => (by cases h)⟩

theorem Bounded.ended (h : s.Bounded) : { s with reading := .ended }.Bounded :=
  ⟨fun _ h => (by cases h), fun _ _ h => (by cases h), h.dispatched⟩

theorem Bounded.gotLength (h : s.Bounded) (length : UInt16) : (s.gotLength length).Bounded := by
  unfold Session.gotLength
  split
  · exact h.ended
  · rename_i hle
    have hle' : length.toNat ≤ 4096 := UInt16.le_iff_toNat_le.1 (UInt16.not_lt.1 hle)
    refine ⟨fun n hn => ?_, fun _ _ hn => (by cases hn), h.dispatched⟩
    obtain rfl := Reading.commandType.inj hn
    exact hle'

/-- One call of `recv` keeps to the limit, whatever it returns. -/
theorem Bounded.recv (h : s.Bounded) (order : HostOrder) (unset : UInt16) (r : Recv) :
    (s.recv order unset r).Bounded := by
  unfold Session.recv
  split
  · exact h.gotLength unset
  · split
    · exact h.ended
    · exact h.gotLength _
  · exact h.ended
  · rename_i length l hreading
    split
    · exact h.ended
    · refine ⟨fun _ hn => (by cases hn), fun n t hn => ?_, h.dispatched⟩
      obtain ⟨rfl, -⟩ := Reading.payload.inj hn
      exact h.commandType _ hreading
  · exact h.ended
  · rename_i length commandType l hreading
    split
    · exact h.ended
    · rename_i hlen
      have hbound := h.payload _ _ hreading
      refine ⟨fun _ hn => (by cases hn), fun _ _ hn => (by cases hn), fun x hx => ?_⟩
      rcases List.mem_append.1 hx with hx | hx
      · exact h.dispatched x hx
      · exact ⟨commandType, l, List.mem_singleton.1 hx, by omega, by omega⟩
  · exact h

theorem Bounded.run (h : s.Bounded) (order : HostOrder) (unset : UInt16) (rs : List Recv) :
    (s.run order unset rs).Bounded := by
  induction rs generalizing s with
  | nil => exact h
  | cons r rs ih => exact ih (h.recv order unset r)

end Session

/-- An op that a session has queued: of a payload of at most 4095 octets, under its length,
for one of two channels. -/
structure Queued (op : Op) : Prop where
  length : op.length = UInt16.ofNat op.value.length
  bound : op.value.length ≤ 4095
  channel : op.channel = 5 ∨ op.channel = 6

theorem queued_of_dispatch {commandType : UInt8} {buf : List UInt8}
    (hbuf : buf.length ≤ 4095) {op : Op} (h : Dispatch.queue op = dispatch commandType buf) :
    Queued op := by
  have hqueued : ∀ channel : Int, channel = 5 ∨ channel = 6 →
      Dispatch.queue op = .queue ⟨buf, UInt16.ofNat buf.length, channel⟩ → Queued op := by
    intro channel hchannel heq
    obtain rfl := Dispatch.queue.inj heq
    exact ⟨rfl, hbuf, hchannel⟩
  unfold dispatch at h
  split at h
  · exact hqueued 5 (Or.inl rfl) h
  · split at h
    · exact hqueued 6 (Or.inr rfl) h
    · split at h
      · exact hqueued 5 (Or.inl rfl) h
      · split at h
        · cases h
        · cases h

/-- **What a session queues**, whatever the calls of `recv` return. -/
theorem session_queued {order : HostOrder} {unset : UInt16} {rs : List Recv} {op : Op}
    (h : .queue op ∈ (Session.start.run order unset rs).dispatched) : Queued op := by
  obtain ⟨commandType, buf, heq, -, hbound⟩ :=
    (Session.Bounded.start.run order unset rs).dispatched _ h
  exact queued_of_dispatch hbound heq

theorem Queued.counted {op : Op} (h : Queued op) : op.length.toNat = op.value.length := by
  have hbound := h.bound
  rw [h.length]
  exact UInt16.toNat_ofNat_of_lt' (by show _ < 65536; omega)

/-- **The twelve bits of the header are enough** for every op that is queued. -/
theorem queued_encodable {op : Op} (h : Queued op) : op.packet.Encodable where
  reliable := Or.inr rfl
  channel := by
    show (UInt8.ofInt op.channel).toNat < 16
    rcases h.channel with hc | hc <;> rw [hc] <;> decide
  length := h.counted
  bound := Nat.lt_succ_of_le h.bound

/-! ## What the buffer takes -/

/-- The buffer keeps its size. -/
theorem call_sendBuffer {s s' : Shared} {c : Locked} {a : Answer} (h : s.call c = some (a, s')) :
    s'.sendBuffer.length = s.sendBuffer.length := by
  cases c with
  | queueHciOp op =>
    simp only [Shared.call] at h
    split at h
    · obtain ⟨-, rfl⟩ := Prod.mk.inj (Option.some.inj h)
      rfl
    · cases h
  | isQueueEmpty =>
    obtain ⟨-, rfl⟩ := Prod.mk.inj (Option.some.inj h)
    rfl
  | dequeueIntoSendPacket =>
    simp only [Shared.call] at h
    split at h
    · obtain ⟨-, rfl⟩ := Prod.mk.inj (Option.some.inj h)
      rfl
    · obtain ⟨buffer, hcopy, hpair⟩ := Option.map_eq_some_iff.1 h
      obtain ⟨-, rfl⟩ := Prod.mk.inj hpair
      unfold memcpy at hcopy
      split at hcopy
      · obtain rfl := Option.some.inj hcopy
        rw [List.length_append, List.length_drop]
        omega
      · cases hcopy
  | queueSize =>
    obtain ⟨-, rfl⟩ := Prod.mk.inj (Option.some.inj h)
    rfl

theorem run_sendBuffer {s s' : Shared} {calls : List Locked} {answers : List Answer}
    (h : s.run calls = some (answers, s')) : s'.sendBuffer.length = s.sendBuffer.length := by
  induction calls generalizing s answers with
  | nil =>
    obtain ⟨-, rfl⟩ := Prod.mk.inj (Option.some.inj h)
    rfl
  | cons c cs ih =>
    obtain ⟨⟨a, s₁⟩, hcall, hrest⟩ := Option.bind_eq_some_iff.1 h
    obtain ⟨⟨as, s₂⟩, hrun, hpair⟩ := Option.map_eq_some_iff.1 hrest
    obtain ⟨-, rfl⟩ := Prod.mk.inj hpair
    exact (ih hrun).trans (call_sendBuffer hcall)

/-- A dequeue copies as many octets as the first op has, and goes beyond the buffer exactly
when these are more than it has. -/
theorem dequeue_isSome_iff {s : Shared} {op : Op} (hcounted : op.length.toNat = op.value.length)
    (hnext : s.queue.pending.head? = some op) :
    (s.call .dequeueIntoSendPacket).isSome ↔ op.value.length ≤ s.sendBuffer.length := by
  have hlt : s.queue.queueHead < s.queue.queueTail := by
    by_contra hge
    rw [Queue.pending_eq_nil (Nat.not_lt.1 hge)] at hnext
    cases hnext
  rw [Queue.pending_of_lt hlt] at hnext
  obtain rfl := Option.some.inj hnext
  have hlength : (headPacket s.queue).payload.length =
      (s.queue.entry s.queue.queueHead).value.length := by
    show ((s.queue.entry s.queue.queueHead).value.take _).length = _
    rw [List.length_take]
    exact Nat.min_eq_right (Nat.le_of_eq hcounted.symm)
  have hdeq : HciQueue.dequeueIntoSendPacket s.queue =
      (some (headPacket s.queue), dropHead s.queue) := by
    rw [HciQueue.dequeueIntoSendPacket, if_pos hlt]
  simp only [Shared.call, hdeq, Option.isSome_map, memcpy, hlength]
  split <;> simp_all

/-- **A client's payload fits the link exactly when it has at most 512 octets.**  Whatever
a session has received, and whatever the threads have done to the queue since: when the op
is the next one, its copy stays within `send_buffer` and the header names its length, if
and only if its payload is that short. -/
theorem client_payload_fits_iff {order : HostOrder} {unset : UInt16} {rs : List Recv} {op : Op}
    (hop : .queue op ∈ (Session.start.run order unset rs).dispatched)
    {calls : List Locked} {answers : List Answer} {s : Shared}
    (hrun : Shared.zero.run calls = some (answers, s)) (hnext : s.queue.pending.head? = some op) :
    ((s.call .dequeueIntoSendPacket).isSome ∧
        ∀ ack seq, (headerLength (dataHeader op.packet ack seq)).toNat = op.value.length) ↔
      op.value.length ≤ 512 := by
  have hqueued := session_queued hop
  have hbuffer : s.sendBuffer.length = 512 := (run_sendBuffer hrun).trans List.length_replicate
  rw [dequeue_isSome_iff hqueued.counted hnext, hbuffer]
  exact and_iff_left fun ack seq => dataHeader_lengthField (queued_encodable hqueued) ack seq

/-! ### A long payload -/

/-- The calls of `recv` for an ACL packet of the given number of octets. -/
def dataOf (n : Nat) : List Recv :=
  [.octets (HostOrder.littleEndian.octets (UInt16.ofNat (n + 1))), .octets [hciData],
    .octets (List.replicate n 0)]

/-- **A payload of 513 octets is queued, and written beyond the end of `send_buffer`.** -/
theorem exists_payload_too_long :
    ∃ op, .queue op ∈ (Session.start.run .littleEndian 0 (dataOf 513)).dispatched ∧
      ∃ answers s, Shared.zero.run [.queueHciOp op] = some (answers, s) ∧
        s.queue.pending.head? = some op ∧ s.call .dequeueIntoSendPacket = none :=
  ⟨⟨List.replicate 513 0, 513, 6⟩, by decide +kernel, _, _,
    rfl, by decide +kernel, by decide +kernel⟩

/-- A payload of 512 octets fits. -/
theorem client_payload_fits_512 :
    let op : Op := ⟨List.replicate 512 0, 512, 6⟩
    ∃ answers s, Shared.zero.run [.queueHciOp op] = some (answers, s) ∧
      (((s.call .dequeueIntoSendPacket).isSome ∧
          ∀ ack seq, (headerLength (dataHeader op.packet ack seq)).toNat = op.value.length) ↔
        op.value.length ≤ 512) :=
  ⟨_, _, rfl, @client_payload_fits_iff .littleEndian 0 (dataOf 512) _ (by decide +kernel)
    [.queueHciOp ⟨List.replicate 512 0, 512, 6⟩] _ _ rfl (by decide +kernel)⟩

end OpenwrtFeed.HciBridge
