import OpenwrtFeed.ClientPayload
import OpenwrtFeed.OneOutstanding
import OpenwrtFeed.WireRoundTrip

/-! # The queue as the loop uses it

The loop of `hci_do_poll` looks at the queue and then takes the head of it, while the
session thread may add to its end at any time.  Here the ops between the two indices
(`Queue.pending`) are followed through a turn and a run: what the loop copies is what has
been queued, in order (`run_fifo`).
-/
namespace OpenwrtFeed.HciPoll
open Ubcsp HciQueue HciBridge

/-! ## Ops that the link can carry -/

/-- An op of a session whose payload the engine can send: 1 to 510 octets. -/
structure Deliverable (op : Op) : Prop where
  queued : Queued op
  nonempty : 1 ≤ op.value.length
  short : op.value.length ≤ 510

namespace Deliverable
variable {op : Op}

theorem sized (h : Deliverable op) : op.Sized :=
  ⟨h.queued.counted.symm, Nat.le_trans h.short (by decide)⟩

/-- The packet of such an op meets the conditions on packets of a lossy link. -/
theorem sendable (h : Deliverable op) : op.packet.Sendable where
  encodable := queued_encodable h.queued
  channel := by
    show UInt8.ofInt op.channel ≠ 1
    rcases h.queued.channel with hc | hc <;> rw [hc] <;> decide
  nonempty := h.nonempty
  short := h.short

end Deliverable

/-- The ops of a turn, in the order in which they are queued. -/
def Turn.ops (t : Turn) : List Op := t.early ++ t.late

/-! ## What is pending -/

/-- Queueing adds to the end. -/
theorem pending_queueAll {q : Queue} (h : q.queueHead ≤ q.queueTail) (ops : List Op) :
    (queueAll ops q).pending = q.pending ++ ops := by
  induction ops generalizing q with
  | nil => exact (List.append_nil _).symm
  | cons op ops ih =>
    have hle : (queueHciOp op q).queueHead ≤ (queueHciOp op q).queueTail := Nat.le_succ_of_le h
    show (queueAll ops (queueHciOp op q)).pending = _
    rw [ih hle, Queue.pending_queueHciOp h, List.append_assoc, List.singleton_append]

/-- The indices are in order, and everything pending satisfies `P`. -/
structure Orderly (P : Op → Prop) (q : Queue) : Prop where
  ordered : q.queueHead ≤ q.queueTail
  ops : ∀ op ∈ q.pending, P op

section
variable {P : Op → Prop}

theorem Orderly.zero : Orderly P .zero := ⟨Nat.le_refl _, fun _ hop => by cases hop⟩

theorem Orderly.queueAll {q : Queue} (h : Orderly P q) {ops : List Op} (hops : ∀ op ∈ ops, P op) :
    Orderly P (queueAll ops q) := by
  refine ⟨queueAll_le h.ordered ops, fun op hop => ?_⟩
  rw [pending_queueAll h.ordered] at hop
  rcases List.mem_append.1 hop with hop | hop
  · exact h.ops op hop
  · exact hops op hop

/-- A dequeue takes the first op, with its whole payload. -/
theorem Orderly.dequeue (hP : ∀ op, P op → op.Sized) {q : Queue} (h : Orderly P q)
    (hne : isQueueEmpty q = false) :
    ∃ op q', dequeueIntoSendPacket q = (some op.packet, q') ∧ q.pending = op :: q'.pending ∧
      Orderly P q' := by
  have hlt : q.queueHead < q.queueTail := by
    have hle := h.ordered
    have hne' : q.queueHead ≠ q.queueTail := by simpa [isQueueEmpty] using hne
    omega
  have hpending := Queue.pending_of_lt hlt
  have hhead : q.entry q.queueHead ∈ q.pending := hpending ▸ List.mem_cons_self
  have hdeq : dequeueIntoSendPacket q = (some (q.entry q.queueHead).packet, dropHead q) := by
    rw [dequeueIntoSendPacket, if_pos hlt, headPacket_eq (hP _ (h.ops _ hhead))]
  have hle := dequeue_indices h.ordered
  rw [hdeq] at hle
  exact ⟨_, _, hdeq, hpending, hle, fun op hop => h.ops op (hpending ▸ List.mem_cons_of_mem _ hop)⟩

end

namespace Driver
variable {P : Op → Prop} {stray : UInt8 → UInt8} {d : Driver}

/-- The branches on the activity: a packet is forwarded, and the engine gets its receive
packet back. -/
theorem acted_eq (t : Turn) :
    (d.acted stray t).1.engine = (if (d.poll stray t.arrived).activity.received then
        rearm (d.poll stray t.arrived).engine else (d.poll stray t.arrived).engine) ∧
      (d.acted stray t).2 = if (d.poll stray t.arrived).activity.received then
        (forward (d.poll stray t.arrived).engine.receivePacket).toList else [] := by
  obtain ⟨heng, -, -⟩ := onSent_keeps (d.poll stray t.arrived).activity
    { d with engine := (d.poll stray t.arrived).engine, uart := (d.poll stray t.arrived).rest }
  unfold acted
  dsimp only
  unfold onReceived
  split
  · exact ⟨by rw [heng], by rw [heng]⟩
  · exact ⟨heng, rfl⟩

theorem onDelay_queue (delay : Nat) (d : Driver) : (d.onDelay delay).1.queue = d.queue := by
  unfold onDelay
  split
  · dsimp only
    split <;> split <;> rfl
  · rfl

/-- **What the branch on `fetchNewCommand` does to an orderly queue**: it lets the late ops
in, and takes the first pending op if the flag is set and the queue was not empty before. -/
theorem fetch_cases (hP : ∀ op, P op → op.Sized) (h : Orderly P d.queue) {late : List Op}
    (hlate : ∀ op ∈ late, P op) :
    (d.fetch late = ({ d with queue := queueAll late d.queue }, []) ∧
      Orderly P (queueAll late d.queue)) ∨
      ∃ op q, d.fetch late = ({ d with
          engine := ubcspSendPacket op.packet d.engine, queue := q
          responseExpected := true
          fetchNewCommand := false }, [⟨d.engine.sendPacket, op.packet⟩]) ∧
        d.queue.pending ++ late = op :: q.pending ∧ P op ∧ Orderly P q := by
  have hall := h.queueAll hlate
  by_cases hif : (d.fetchNewCommand && !isQueueEmpty d.queue) = true
  · right
    have hsome : isQueueEmpty (queueAll late d.queue) = false := by
      have hne : d.queue.queueHead ≠ d.queue.queueTail := by
        rw [Bool.and_eq_true] at hif
        simpa [isQueueEmpty] using hif.2
      obtain ⟨hhead, htail⟩ := queueAll_indices late d.queue
      have hle := h.ordered
      simp only [isQueueEmpty, hhead, htail, decide_eq_false_iff_not]
      omega
    obtain ⟨op, q, hdeq, hpending, hq⟩ := hall.dequeue hP hsome
    refine ⟨op, q, ?_, by rw [← hpending, pending_queueAll h.ordered], ?_, hq⟩
    · rw [Driver.fetch, if_pos hif, hdeq]
    · exact hall.ops op (hpending ▸ List.mem_cons_self)
  · left
    exact ⟨by rw [Driver.fetch, if_neg hif], hall⟩

/-- What a turn does to the queue and to the engine after the branches on the activity. -/
inductive Serves (P : Op → Prop) (t : Turn) (before : Engine) (q : Queue) :
    Driver → List Copy → Prop
  | waits {d : Driver} : d.engine = before → Orderly P d.queue →
      d.queue.pending = q.pending ++ t.ops →
      Serves P t before q d []
  | copies {d : Driver} {op : Op} : d.engine = ubcspSendPacket op.packet before →
      Orderly P d.queue →
      P op → q.pending ++ t.ops = op :: d.queue.pending →
      Serves P t before q d [⟨before.sendPacket, op.packet⟩]

/-- **The queue through one turn.** -/
theorem turn_serves (hP : ∀ op, P op → op.Sized) (h : Orderly P d.queue) {t : Turn}
    (ht : ∀ op ∈ t.ops, P op) :
    Serves P t (d.acted stray t).1.engine d.queue (d.turn stray t).1 (d.turn stray t).2.copied := by
  have hqueue : (d.acted stray t).1.queue = d.queue :=
    (onReceived_keeps _ _).2.2.trans (onSent_keeps _ _).2.2
  have hearly := h.queueAll fun op hop => ht op (List.mem_append_left _ hop)
  have heng := (onDelay_keeps (d.poll stray t.arrived).delay (d.served stray t).1).1
  have hq := onDelay_queue (d.poll stray t.arrived).delay (d.served stray t).1
  have hstart : { (d.acted stray t).1 with queue := queueAll t.early (d.acted stray t).1.queue } =
      { (d.acted stray t).1 with queue := queueAll t.early d.queue } := by rw [hqueue]
  have hserved : d.served stray t = { (d.acted stray t).1 with
      queue := queueAll t.early d.queue }.fetch t.late :=
    congrArg (fun d => Driver.fetch t.late d) hstart
  have hops : (queueAll t.early d.queue).pending ++ t.late = d.queue.pending ++ t.ops := by
    rw [pending_queueAll h.ordered, List.append_assoc]
    rfl
  show Serves P t _ _ ((d.served stray t).1.onDelay _).1 (d.served stray t).2
  rcases fetch_cases (d := { (d.acted stray t).1 with queue := queueAll t.early d.queue }) hP hearly
      (fun op hop => ht op (List.mem_append_right _ hop)) with
    ⟨hfetch, hq'⟩ | ⟨op, q, hfetch, hpending, hdeliver, hq'⟩
  · rw [hserved, hfetch] at heng hq ⊢
    refine .waits heng (hq ▸ hq') ?_
    rw [hq, ← hops]
    exact pending_queueAll hearly.ordered t.late
  · rw [hserved, hfetch] at heng hq ⊢
    refine .copies heng (hq ▸ hq') hdeliver ?_
    rw [hq, ← hops]
    exact hpending

/-- **The loop copies what has been queued, in order**: the copied packets are those of the
first ops, and the others are still pending. -/
theorem run_fifo (hP : ∀ op, P op → op.Sized) (h : Orderly P d.queue) {ts : List Turn}
    (hts : ∀ t ∈ ts, ∀ op ∈ t.ops, P op) :
    Orderly P (d.run stray ts).1.queue ∧
      ∃ taken, (d.run stray ts).2.copied.map Copy.packet = taken.map Op.packet ∧
        Fifo d.queue.pending (ts.flatMap Turn.ops) taken (d.run stray ts).1.queue.pending := by
  induction ts generalizing d with
  | nil => exact ⟨h, [], rfl, Fifo.refl _⟩
  | cons t ts ih =>
    have hserves := @turn_serves _ stray d hP h t (hts t List.mem_cons_self)
    have hrest := fun t ht => hts t (List.mem_cons_of_mem _ ht)
    have hcopied : (d.run stray (t :: ts)).2.copied =
        (d.turn stray t).2.copied ++ ((d.turn stray t).1.run stray ts).2.copied := rfl
    rw [hcopied, List.map_append, List.flatMap_cons]
    generalize hd : (d.turn stray t).1 = d' at hserves ⊢
    have hrun : (d.run stray (t :: ts)).1 = (d'.run stray ts).1 := by rw [← hd]; rfl
    rw [hrun]
    generalize (d.turn stray t).2.copied = copied at hserves ⊢
    cases hserves with
    | waits heng hq hpending =>
      obtain ⟨hall, taken, htaken, hfifo⟩ := ih hq hrest
      exact ⟨hall, taken, by rw [htaken]; rfl, @Fifo.trans _ _ _ _ _ [] _ _ hpending.symm hfifo⟩
    | @copies op heng hq hdeliver hpending =>
      obtain ⟨hall, taken, htaken, hfifo⟩ := ih hq hrest
      exact ⟨hall, op :: taken, by rw [htaken]; rfl, @Fifo.trans _ _ _ _ _ [op] _ _ hpending hfifo⟩

end Driver

end OpenwrtFeed.HciPoll
