import OpenwrtFeed.Fifo
import OpenwrtFeed.HciQueue

/-! # The queue is a FIFO

Every function that touches the queue holds `queueLock` while it does, so a run of the
threads is a sequence of whole calls, in any order (`Locked`).  A call goes wrong when it
would use an index beyond the three arrays, or copy more octets than `send_buffer` has.

The abstraction is the list of the ops between the two indices (`Queue.pending`): an
enqueue adds to its end and a dequeue takes from its front, also the one that sets both
indices back to zero (`call_fifo`).  A run in which every enqueue finds room is therefore
first in, first out (`queue_fifo`).
-/
namespace OpenwrtFeed.HciQueue
open Ubcsp (Packet)

/-! ## The calls -/

/-- `memcpy` to the start of an array, which must have room. -/
def memcpy (dst src : List UInt8) : Option (List UInt8) :=
  if src.length ≤ dst.length then some (src ++ dst.drop src.length) else none

/-- The queue and `send_buffer`. -/
structure Shared where
  queue : Queue
  sendBuffer : List UInt8

/-- Static storage before any call. -/
def Shared.zero : Shared := ⟨.zero, List.replicate 512 0⟩

/-- A call that takes `queueLock`, of any thread. -/
inductive Locked
  | queueHciOp (op : Op)
  | isQueueEmpty
  | dequeueIntoSendPacket
  | queueSize
deriving DecidableEq

/-- What a call returns or, in case of a dequeue, gives to `ubcsp_send_packet`. -/
inductive Answer
  | done
  | empty (isIt : Bool)
  | handed (p : Option Packet)
  | size (n : UInt16)
deriving DecidableEq

/-- One call; `none` when it goes beyond an array. -/
def Shared.call (s : Shared) : Locked → Option (Answer × Shared)
  | .queueHciOp op =>
    if s.queue.queueTail < capacity then some (.done, { s with
      queue := HciQueue.queueHciOp op s.queue })
    else none
  | .isQueueEmpty => some (.empty (HciQueue.isQueueEmpty s.queue), s)
  | .dequeueIntoSendPacket =>
    match HciQueue.dequeueIntoSendPacket s.queue with
    | (none, q) => some (.handed none, { s with queue := q })
    | (some p, q) =>
      -- the packet points to the whole buffer, and its length says how much of it counts
      (memcpy s.sendBuffer p.payload).map fun buffer =>
        (.handed (some { p with payload := buffer.take p.length.toNat }), ⟨q, buffer⟩)
  | .queueSize => some (.size (HciQueue.queueSize s.queue), s)

/-- A sequence of calls. -/
def Shared.run (s : Shared) : List Locked → Option (List Answer × Shared)
  | [] => some ([], s)
  | c :: cs => (s.call c).bind fun r => (r.2.run cs).map fun rs => (r.1 :: rs.1, rs.2)

/-- Every enqueue of a sequence of calls finds `queueTail` below 64. -/
def Shared.FindsRoom (s : Shared) : List Locked → Prop
  | [] => True
  | c :: cs =>
    ((∃ op, c = .queueHciOp op) → s.queue.queueTail < capacity) ∧
      ∀ r, s.call c = some r → r.2.FindsRoom cs

/-- The ops that a sequence of calls enqueues. -/
def enqueued : List Locked → List Op := List.filterMap fun
  | .queueHciOp op => some op
  | _ => none

/-- The packets that dequeues have handed over. -/
def handed : List Answer → List Packet := List.filterMap fun
  | .handed p => p
  | _ => none

/-- An op whose payload has the length it is given with, and fits `send_buffer`. -/
structure Op.Sized (op : Op) : Prop where
  counted : op.value.length = op.length.toNat
  fits : op.value.length ≤ 512

instance (op : Op) : Decidable op.Sized :=
  decidable_of_iff (_ ∧ _) ⟨fun h => ⟨h.1, h.2⟩, fun h => ⟨h.1, h.2⟩⟩

/-- The packet for an op.  `channel` of the packet is an octet. -/
def Op.packet (op : Op) : Packet := ⟨UInt8.ofInt op.channel, 1, op.length, op.value⟩

/-! ## The abstraction -/

namespace Queue
variable {q : Queue}

/-- The entry at an index of the arrays. -/
def entry (q : Queue) (i : Nat) : Op := ⟨q.dataQueue i, q.lengthQueue i, q.channelQueue i⟩

/-- The ops between the indices. -/
def pending (q : Queue) : List Op :=
  (List.range' q.queueHead (q.queueTail - q.queueHead)).map q.entry

theorem length_pending (q : Queue) : q.pending.length = q.queueTail - q.queueHead := by
  simp [pending]

theorem pending_queueHciOp (h : q.queueHead ≤ q.queueTail) (op : Op) :
    (queueHciOp op q).pending = q.pending ++ [op] := by
  have hcount : q.queueTail + 1 - q.queueHead = (q.queueTail - q.queueHead) + 1 := by omega
  have hlast : q.queueHead + (q.queueTail - q.queueHead) = q.queueTail := by omega
  have hnew : (queueHciOp op q).entry q.queueTail = op := by
    simp [entry, queueHciOp]
  have hold : ∀ i ∈ List.range' q.queueHead (q.queueTail - q.queueHead),
      (queueHciOp op q).entry i = q.entry i := by
    intro i hi
    have hne : i ≠ q.queueTail := by
      have := List.mem_range'_1.1 hi
      omega
    simp [entry, queueHciOp, hne]
  show (List.range' q.queueHead (q.queueTail + 1 - q.queueHead)).map _ = _
  rw [hcount, List.range'_1_concat, List.map_append, hlast, List.map_congr_left hold,
    List.map_singleton, hnew]
  rfl

/-- The op at the head is the first one, also when the indices go back to zero. -/
theorem pending_of_lt (h : q.queueHead < q.queueTail) :
    q.pending = q.entry q.queueHead :: (dropHead q).pending := by
  have hcount : q.queueTail - q.queueHead = (q.queueTail - (q.queueHead + 1)) + 1 := by omega
  unfold pending dropHead
  rw [hcount, List.range'_succ, List.map_cons]
  split
  · rename_i hlast
    simp [hlast]
  · rfl

theorem pending_eq_nil (h : q.queueTail ≤ q.queueHead) : q.pending = [] :=
  List.length_eq_zero_iff.1 (by rw [length_pending]; omega)

end Queue

/-- An op that is copied whole. -/
theorem headPacket_eq {q : Queue} (h : (q.entry q.queueHead).Sized) :
    headPacket q = (q.entry q.queueHead).packet := by
  have htake : (q.dataQueue q.queueHead).take (q.lengthQueue q.queueHead).toNat =
      q.dataQueue q.queueHead :=
    List.take_of_length_le (Nat.le_of_eq h.counted)
  rw [headPacket, htake]
  rfl

/-! ## One call -/

/-- What holds throughout: the indices are within the arrays, both are zero when nothing is
pending, and `send_buffer` has room for every pending op. -/
structure Shared.Holds (s : Shared) : Prop where
  head_le : s.queue.queueHead ≤ s.queue.queueTail
  tail_le : s.queue.queueTail ≤ capacity
  buffer : s.sendBuffer.length = 512
  sized : ∀ op ∈ s.queue.pending, op.Sized

theorem Shared.Holds.zero : Shared.zero.Holds where
  head_le := Nat.le_refl _
  tail_le := Nat.zero_le _
  buffer := List.length_replicate
  sized op hop := by cases hop

theorem memcpy_eq_some {dst src : List UInt8} (h : src.length ≤ dst.length) :
    ∃ buffer, memcpy dst src = some buffer ∧ buffer.length = dst.length ∧
      buffer.take src.length = src := by
  refine ⟨src ++ dst.drop src.length, if_pos h, ?_, List.take_left⟩
  rw [List.length_append, List.length_drop]
  omega

/-- A dequeue of a queue that is not empty takes the first op. -/
theorem Shared.Holds.dequeue {s : Shared} (h : s.Holds)
    (hlt : s.queue.queueHead < s.queue.queueTail) :
    ∃ s', s.call .dequeueIntoSendPacket =
        some (.handed (some (s.queue.entry s.queue.queueHead).packet), s') ∧ s'.Holds ∧
      s'.queue.pending = s.queue.pending.tail := by
  have hpending := Queue.pending_of_lt hlt
  have hsized := h.sized (s.queue.entry s.queue.queueHead)
    (by rw [hpending]; exact List.mem_cons_self)
  have hpacket := headPacket_eq hsized
  obtain ⟨buffer, hcopy, hlen, htake⟩ := @memcpy_eq_some s.sendBuffer
    (s.queue.entry s.queue.queueHead).packet.payload (by rw [h.buffer]; exact hsized.fits)
  have hdrop : (dropHead s.queue).queueHead ≤ (dropHead s.queue).queueTail ∧
      (dropHead s.queue).queueTail ≤ capacity := by
    have hle := h.tail_le
    unfold dropHead
    split
    · exact ⟨Nat.le_refl _, Nat.zero_le _⟩
    · exact ⟨hlt, hle⟩
  refine ⟨⟨dropHead s.queue, buffer⟩, ?_, ⟨hdrop.1, hdrop.2, hlen.trans h.buffer, ?_⟩, ?_⟩
  · have hdeq : HciQueue.dequeueIntoSendPacket s.queue =
        (some (s.queue.entry s.queue.queueHead).packet, dropHead s.queue) := by
      rw [HciQueue.dequeueIntoSendPacket, if_pos hlt, hpacket]
    have hlength : (s.queue.entry s.queue.queueHead).packet.length.toNat =
        (s.queue.entry s.queue.queueHead).packet.payload.length := hsized.counted.symm
    simp only [Shared.call, hdeq, hcopy, Option.map_some, hlength, htake]
  · intro op hop
    exact h.sized op (by rw [hpending]; exact List.mem_cons_of_mem _ hop)
  · rw [hpending]
    rfl

/-- **One call** of those that find room keeps the invariant, and puts in at the end and
takes out at the front. -/
theorem Shared.Holds.call {s : Shared} (h : s.Holds) {c : Locked}
    (hroom : (∃ op, c = .queueHciOp op) → s.queue.queueTail < capacity)
    (hsized : ∀ op ∈ enqueued [c], op.Sized) :
    ∃ a s' taken, s.call c = some (a, s') ∧ s'.Holds ∧ handed [a] = taken.map Op.packet ∧
      Fifo s.queue.pending (enqueued [c]) taken s'.queue.pending := by
  cases c with
  | queueHciOp op =>
    have hlt := hroom ⟨op, rfl⟩
    have hpending := Queue.pending_queueHciOp h.head_le op
    refine ⟨.done, { s with queue := HciQueue.queueHciOp op s.queue }, [],
      by simp only [Shared.call, if_pos hlt], ⟨Nat.le_succ_of_le h.head_le, hlt, h.buffer, ?_⟩, rfl,
        ?_⟩
    · intro op' hop
      rw [hpending] at hop
      rcases List.mem_append.1 hop with hop | hop
      · exact h.sized op' hop
      · exact hsized op' hop
    · rw [hpending]
      exact Fifo.push _ op
  | isQueueEmpty => exact ⟨_, s, [], rfl, h, rfl, Fifo.refl _⟩
  | dequeueIntoSendPacket =>
    by_cases hlt : s.queue.queueHead < s.queue.queueTail
    · obtain ⟨s', hcall, hholds, htail⟩ := h.dequeue hlt
      refine ⟨_, s', [s.queue.entry s.queue.queueHead], hcall, hholds, rfl, ?_⟩
      rw [htail, Queue.pending_of_lt hlt]
      exact Fifo.pop _ _
    · refine ⟨.handed none, s, [], ?_, h, rfl, Fifo.refl _⟩
      have hdeq : HciQueue.dequeueIntoSendPacket s.queue = (none, s.queue) := by
        rw [HciQueue.dequeueIntoSendPacket, if_neg hlt]
      simp only [Shared.call, hdeq]
  | queueSize => exact ⟨_, s, [], rfl, h, rfl, Fifo.refl _⟩

/-! ## A run -/

theorem enqueued_cons (c : Locked) (cs : List Locked) :
    enqueued (c :: cs) = enqueued [c] ++ enqueued cs := by
  unfold enqueued
  rw [← List.filterMap_append]
  rfl

theorem handed_cons (a : Answer) (as : List Answer) :
    handed (a :: as) = handed [a] ++ handed as := by
  unfold handed
  rw [← List.filterMap_append]
  rfl

/-- **A run** whose enqueues find room goes on to its end, keeps the invariant, and is
first in, first out. -/
theorem Shared.Holds.run {s : Shared} (h : s.Holds) {calls : List Locked}
    (hroom : s.FindsRoom calls) (hsized : ∀ op ∈ enqueued calls, op.Sized) :
    ∃ answers s' taken, s.run calls = some (answers, s') ∧ s'.Holds ∧
      handed answers = taken.map Op.packet ∧
      Fifo s.queue.pending (enqueued calls) taken s'.queue.pending := by
  induction calls generalizing s with
  | nil => exact ⟨[], s, [], rfl, h, rfl, Fifo.refl _⟩
  | cons c cs ih =>
    rw [enqueued_cons] at hsized ⊢
    obtain ⟨a, s₁, taken₁, hcall, h₁, hhanded₁, hfifo₁⟩ := h.call hroom.1 fun op hop =>
      hsized op (List.mem_append_left _ hop)
    obtain ⟨as, s₂, taken₂, hrun, h₂, hhanded₂, hfifo₂⟩ := ih h₁ (hroom.2 _ hcall) fun op hop =>
      hsized op (List.mem_append_right _ hop)
    refine ⟨a :: as, s₂, taken₁ ++ taken₂, by simp [Shared.run, hcall, hrun], h₂, ?_,
      hfifo₁.trans hfifo₂⟩
    rw [handed_cons, hhanded₁, hhanded₂, List.map_append]

/-- A sequence of calls after another one. -/
theorem Shared.run_append {v v' v'' : Shared} {cs cs' : List Locked} {as as' : List Answer}
    (h : v.run cs = some (as, v')) (h' : v'.run cs' = some (as', v'')) :
    v.run (cs ++ cs') = some (as ++ as', v'') := by
  induction cs generalizing v as with
  | nil =>
    obtain ⟨rfl, rfl⟩ := Prod.mk.inj (Option.some.inj h)
    exact h'
  | cons c cs ih =>
    obtain ⟨⟨a, v₁⟩, hcall, hrest⟩ := Option.bind_eq_some_iff.1 h
    obtain ⟨⟨as₁, v₂⟩, hrun, heq⟩ := Option.map_eq_some_iff.1 hrest
    obtain ⟨rfl, rfl⟩ := Prod.mk.inj heq
    rw [List.cons_append, Shared.run, hcall, Option.bind_some, ih hrun]
    rfl

/-- The first part of a run finds room, and the rest finds room after it. -/
theorem Shared.FindsRoom.split {s : Shared} {front back : List Locked}
    (h : s.FindsRoom (front ++ back)) :
    s.FindsRoom front ∧ ∀ r, s.run front = some r → r.2.FindsRoom back := by
  induction front generalizing s with
  | nil =>
    refine ⟨trivial, fun r hr => ?_⟩
    obtain rfl := Option.some.inj hr
    exact h
  | cons c cs ih =>
    refine ⟨⟨h.1, fun r hr => (ih (h.2 r hr)).1⟩, fun r hr => ?_⟩
    obtain ⟨r₁, hcall, hrest⟩ := Option.bind_eq_some_iff.1 hr
    obtain ⟨r₂, hrun, rfl⟩ := Option.map_eq_some_iff.1 hrest
    exact (ih (h.2 r₁ hcall)).2 r₂ hrun

/-- Only a dequeue takes ops away. -/
theorem Shared.call_indices {s s' : Shared} {c : Locked} {a : Answer}
    (hc : c ≠ .dequeueIntoSendPacket) (h : s.call c = some (a, s')) :
    s'.queue.queueHead = s.queue.queueHead ∧ s.queue.queueTail ≤ s'.queue.queueTail := by
  cases c with
  | queueHciOp op =>
    simp only [Shared.call] at h
    split at h
    · obtain ⟨-, rfl⟩ := Prod.mk.inj (Option.some.inj h)
      exact ⟨rfl, Nat.le_succ _⟩
    · cases h
  | isQueueEmpty =>
    obtain ⟨-, rfl⟩ := Prod.mk.inj (Option.some.inj h)
    exact ⟨rfl, Nat.le_refl _⟩
  | dequeueIntoSendPacket => exact absurd rfl hc
  | queueSize =>
    obtain ⟨-, rfl⟩ := Prod.mk.inj (Option.some.inj h)
    exact ⟨rfl, Nat.le_refl _⟩

/-- Without a dequeue, whatever else the threads do, no op goes away. -/
theorem Shared.run_indices {s s' : Shared} {calls : List Locked} {answers : List Answer}
    (hnone : .dequeueIntoSendPacket ∉ calls) (h : s.run calls = some (answers, s')) :
    s'.queue.queueHead = s.queue.queueHead ∧ s.queue.queueTail ≤ s'.queue.queueTail := by
  induction calls generalizing s answers with
  | nil =>
    obtain ⟨-, rfl⟩ := Prod.mk.inj (Option.some.inj h)
    exact ⟨rfl, Nat.le_refl _⟩
  | cons c cs ih =>
    obtain ⟨⟨a, s₁⟩, hcall, hrest⟩ := Option.bind_eq_some_iff.1 h
    obtain ⟨⟨as, s₂⟩, hrun, hpair⟩ := Option.map_eq_some_iff.1 hrest
    obtain ⟨-, rfl⟩ := Prod.mk.inj hpair
    obtain ⟨hne, hnone⟩ := List.ne_and_not_mem_of_not_mem_cons hnone
    obtain ⟨hhead, htail⟩ := Shared.call_indices (Ne.symm hne) hcall
    obtain ⟨hhead', htail'⟩ := ih hnone hrun
    exact ⟨hhead'.trans hhead, htail.trans htail'⟩

/-- **After `isQueueEmpty` has returned false, a dequeue takes an op**, whatever the other
threads have done in between. -/
theorem Shared.Holds.takes {s : Shared} (h : s.Holds)
    (hempty : HciQueue.isQueueEmpty s.queue = false) {between : List Locked}
    (hroom : s.FindsRoom between) (hsized : ∀ op ∈ enqueued between, op.Sized)
    (hnone : .dequeueIntoSendPacket ∉ between) :
    ∃ answers s' p s'', s.run between = some (answers, s') ∧
      s'.call .dequeueIntoSendPacket = some (.handed (some p), s'') := by
  obtain ⟨answers, s', -, hrun, hholds, -⟩ := h.run hroom hsized
  obtain ⟨hhead, htail⟩ := Shared.run_indices hnone hrun
  have hne : s.queue.queueHead ≠ s.queue.queueTail := fun heq => by
    simp [isQueueEmpty, heq] at hempty
  have hle := h.head_le
  obtain ⟨s'', hcall, -⟩ := hholds.dequeue (by omega)
  exact ⟨answers, s', _, s'', hrun, hcall⟩

theorem enqueued_append (xs ys : List Locked) : enqueued (xs ++ ys) = enqueued xs ++ enqueued ys :=
  List.filterMap_append

/-- An octet holds the channels that are in use. -/
theorem Op.packet_channel {op : Op} (h₀ : 0 ≤ op.channel) (h : op.channel < 256) :
    ((op.packet.channel.toNat : Nat) : Int) = op.channel := by
  have hlt : (op.channel % 256).toNat < 256 := by omega
  show (((UInt8.ofNat (op.channel % 256).toNat).toNat : Nat) : Int) = op.channel
  rw [UInt8.toNat_ofNat_of_lt' hlt]
  omega

/-- A run of the threads at the point where `before` has been called and `after` is to
come: what the calls have answered, and which ops dequeues have taken. -/
structure Shared.InOrder (s : Shared) (before after : List Locked) (answers : List Answer)
    (taken : List Op) : Prop where
  /-- No call has gone beyond an array. -/
  run : Shared.zero.run before = some (answers, s)
  indices : s.queue.queueHead ≤ s.queue.queueTail ∧ s.queue.queueTail ≤ capacity
  /-- A packet has been handed over for each op taken. -/
  handed_eq : handed answers = taken.map Op.packet
  channel : ∀ op ∈ taken, 0 ≤ op.channel → op.channel < 256 →
    ((op.packet.channel.toNat : Nat) : Int) = op.channel
  /-- The `n`-th op taken is the `n`-th one enqueued, and the others are pending. -/
  nth : ∀ n < taken.length, taken[n]? = (enqueued before)[n]?
  pending : enqueued before = taken ++ s.queue.pending
  size : ∃ n, s.call .queueSize = some (.size n, s) ∧ n.toNat + taken.length =
    (enqueued before).length
  /-- After `isQueueEmpty` has returned false, the next dequeue takes an op. -/
  takes : s.call .isQueueEmpty = some (.empty false, s) → ∀ between rest,
    after = between ++ .dequeueIntoSendPacket :: rest → .dequeueIntoSendPacket ∉ between →
    ∃ answers' s' p s'', s.run between = some (answers', s') ∧
      s'.call .dequeueIntoSendPacket = some (.handed (some p), s'')

/-- **The queue is a FIFO**, at every point of every run of the threads in which every
enqueue finds `queueTail` below 64, and every op is as long as it says and fits
`send_buffer`. -/
theorem queue_fifo (calls : List Locked) (hroom : Shared.zero.FindsRoom calls)
    (hsized : ∀ op ∈ enqueued calls, op.Sized) :
    ∀ before after, calls = before ++ after →
      ∃ answers s taken, Shared.InOrder s before after answers taken := by
  rintro before after rfl
  rw [enqueued_append] at hsized
  obtain ⟨hbefore, hafter⟩ := hroom.split
  obtain ⟨answers, s, taken, hrun, h, hhanded, hfifo⟩ := Shared.Holds.zero.run hbefore fun op hop =>
    hsized op (List.mem_append_left _ hop)
  have hzero : Shared.zero.queue.pending = [] := rfl
  rw [hzero] at hfifo
  refine ⟨answers, s, taken, hrun, ⟨h.head_le, h.tail_le⟩, hhanded,
    fun op _ h₀ hlt => op.packet_channel h₀ hlt, fun n hn => hfifo.getElem?_eq hn, hfifo,
      ⟨_, rfl, ?_⟩, ?_⟩
  · have hlen := hfifo.length_eq
    have hpending := s.queue.length_pending
    have htail : s.queue.queueTail ≤ 64 := h.tail_le
    have hsize : (HciQueue.queueSize s.queue).toNat = s.queue.queueTail - s.queue.queueHead :=
      UInt16.toNat_ofNat_of_lt' (by show _ < 65536; omega)
    rw [List.length_nil] at hlen
    rw [hsize]
    omega
  · rintro hempty between rest rfl hnone
    have hfalse : HciQueue.isQueueEmpty s.queue = false := by
      simpa [Shared.call] using hempty
    refine h.takes hfalse (hafter _ hrun).split.1 (fun op hop => hsized op ?_) hnone
    rw [enqueued_append]
    exact List.mem_append_right _ (List.mem_append_left _ hop)

instance (c : Locked) : Decidable (∃ op, c = .queueHciOp op) :=
  match c with
  | .queueHciOp op => .isTrue ⟨op, rfl⟩
  | .isQueueEmpty => .isFalse (by simp)
  | .dequeueIntoSendPacket => .isFalse (by simp)
  | .queueSize => .isFalse (by simp)

instance Shared.decidableFindsRoom :
    ∀ (calls : List Locked) (s : Shared), Decidable (s.FindsRoom calls)
  | [], _ => inferInstanceAs (Decidable True)
  | c :: cs, s =>
    match h : s.call c with
    | none => decidable_of_iff ((∃ op, c = .queueHciOp op) → s.queue.queueTail < capacity)
        ⟨fun hroom => ⟨hroom, fun r hr => by simp [h] at hr⟩, fun hroom => hroom.1⟩
    | some r =>
      have := decidableFindsRoom cs r.2
      decidable_of_iff
        (((∃ op, c = .queueHciOp op) → s.queue.queueTail < capacity) ∧ r.2.FindsRoom cs)
        ⟨fun hroom => ⟨hroom.1, fun r' hr => by
          obtain rfl := Option.some.inj (h.symm.trans hr)
          exact hroom.2⟩, fun hroom => ⟨hroom.1, hroom.2 r h⟩⟩

/-- Two commands and a data packet: one is queued between the test and the dequeue, and the
indices go back to zero before the last one. -/
def threeOps : List Locked :=
  [.queueHciOp ⟨[0x03, 0x0C, 0x00], 3, 5⟩, .isQueueEmpty, .queueHciOp ⟨[0x01, 0x10, 0x00], 3, 5⟩,
    .dequeueIntoSendPacket, .queueSize, .dequeueIntoSendPacket, .queueHciOp ⟨[0x2A, 0x00], 2, 6⟩,
    .isQueueEmpty, .dequeueIntoSendPacket]

theorem queue_fifo_three :
    ∃ answers s taken, Shared.InOrder s (threeOps.take 2) (threeOps.drop 2) answers taken :=
  queue_fifo threeOps (by decide +kernel) (by decide) _ _ (List.take_append_drop 2 threeOps).symm

end OpenwrtFeed.HciQueue
