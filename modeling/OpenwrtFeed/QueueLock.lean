import OpenwrtFeed.Monitor
import OpenwrtFeed.QueueFifo

/-! # The queue, statement by statement

`queue_hci_op`, `dequeueIntoSendPacket`, `isQueueEmpty` and `queueSize` may be called by any
number of threads, and each of them does several things to the arrays, the indices and
`send_packet` between taking `queueLock` and giving it back.  Here every statement is a step
of its own, and the threads take their steps in any order.  The calls still are whole ones, in
the order in which they give the lock back, so that the queue is first in, first out
(`whole_calls`); and the thread that holds the lock gives it back after a few statements, unless
the arrays are full.
-/
namespace OpenwrtFeed.HciQueue
open Ubcsp (Packet)

/-- Where a call is between taking the lock and giving it back, with its local variables and,
in `dequeueIntoSendPacket`, what it has put into `send_packet`.  There the calls of `free` and of
`ubcsp_send_packet` are left out: neither touches what is shared here. -/
inductive Place
  | storeValue (op : Op)
  | storeLength (op : Op)
  | storeChannel (op : Op)
  | advanceTail
  | compare
  | subtract
  | testPending
  | takeChannel
  | setReliable (p : Packet)
  | takeLength (p : Packet)
  | copyPayload (p : Packet)
  | advanceHead (p : Packet)
  | testLast (p : Packet)
  | resetTail (p : Packet)
  | resetHead (p : Packet)
  | unlocking (a : Answer)
deriving DecidableEq

namespace Place

/-- The first statement after the lock has been taken. -/
def enter : Locked → Place
  | .queueHciOp op => storeValue op
  | .isQueueEmpty => compare
  | .dequeueIntoSendPacket => testPending
  | .queueSize => subtract

/-- What is given back, when the lock is. -/
def answer : Place → Option Answer
  | unlocking a => some a
  | _ => none

/-- One statement; `none` when it goes beyond an array. -/
def next (l : Place) (s : Shared) : Option (Place × Shared) :=
  let q := s.queue
  match l with
  | storeValue op =>
    if q.queueTail < capacity then
      some (storeLength op,
        { s with queue := { q with
          dataQueue := Function.update q.dataQueue q.queueTail op.value } })
    else none
  | storeLength op =>
    if q.queueTail < capacity then
      some (storeChannel op,
        { s with queue := { q with
          lengthQueue := Function.update q.lengthQueue q.queueTail op.length } })
    else none
  | storeChannel op =>
    if q.queueTail < capacity then
      some (advanceTail,
        { s with queue := { q with
          channelQueue := Function.update q.channelQueue q.queueTail op.channel } })
    else none
  | advanceTail =>
      some (unlocking .done, { s with queue := { q with queueTail := q.queueTail + 1 } })
  | compare => some (unlocking (.empty (isQueueEmpty q)), s)
  | subtract => some (unlocking (.size (queueSize q)), s)
  | testPending =>
      some (if q.queueHead < q.queueTail then takeChannel else unlocking (.handed none), s)
  | takeChannel =>
    if q.queueHead < capacity then
      some (setReliable ⟨UInt8.ofInt (q.channelQueue q.queueHead), 0, 0, []⟩, s)
    else none
  | setReliable p => some (takeLength { p with reliable := 1 }, s)
  | takeLength p =>
    if q.queueHead < capacity then
      some (copyPayload { p with length := q.lengthQueue q.queueHead }, s)
    else none
  | copyPayload p =>
    if q.queueHead < capacity then
      (memcpy s.sendBuffer ((q.dataQueue q.queueHead).take p.length.toNat)).map fun buffer =>
        (advanceHead { p with payload := buffer.take p.length.toNat }, { s with
          sendBuffer := buffer })
    else none
  | advanceHead p => some (testLast p, { s with queue := { q with queueHead := q.queueHead + 1 } })
  | testLast p =>
    some (if q.queueHead = q.queueTail then resetTail p else unlocking (.handed (some p)), s)
  | resetTail p => some (resetHead p, { s with queue := { q with queueTail := 0 } })
  | resetHead p =>
      some (unlocking (.handed (some p)), { s with queue := { q with queueHead := 0 } })
  | unlocking _ => none

end Place

/-- The functions that take `queueLock`. -/
def queueLock : Monitor Shared Locked Place Answer where
  enter := Place.enter
  next := Place.next
  answer := Place.answer

/-- **The statements of a call make up the call**, when the indices are within the arrays and
no other thread takes a step in between. -/
theorem rest_enter {s : Shared} (htail : s.queue.queueTail ≤ capacity) (c : Locked) :
    queueLock.rest 9 (queueLock.enter c) s = s.call c := by
  cases c with
  | queueHciOp op =>
    by_cases hroom : s.queue.queueTail < capacity
    · simp [Monitor.rest, queueLock, Place.enter, Place.next, Place.answer, Shared.call,
        hroom, queueHciOp]
    · simp [Monitor.rest, queueLock, Place.enter, Place.next, Place.answer, Shared.call, hroom]
  | isQueueEmpty => rfl
  | queueSize => rfl
  | dequeueIntoSendPacket =>
    by_cases hlt : s.queue.queueHead < s.queue.queueTail
    · have hhead : s.queue.queueHead < capacity := Nat.lt_of_lt_of_le hlt htail
      cases hcopy : memcpy s.sendBuffer ((s.queue.dataQueue s.queue.queueHead).take
          (s.queue.lengthQueue s.queue.queueHead).toNat) with
      | none =>
        simp [Monitor.rest, queueLock, Place.enter, Place.next, Place.answer, Shared.call,
          dequeueIntoSendPacket, headPacket, hlt, hhead, hcopy]
      | some buffer =>
        by_cases hlast : s.queue.queueHead + 1 = s.queue.queueTail
        · simp [Monitor.rest, queueLock, Place.enter, Place.next, Place.answer, Shared.call,
            dequeueIntoSendPacket, headPacket, dropHead, hlt, hhead, hcopy, hlast]
        · simp [Monitor.rest, queueLock, Place.enter, Place.next, Place.answer, Shared.call,
            dequeueIntoSendPacket, headPacket, dropHead, hlt, hhead, hcopy, hlast]
    · simp [Monitor.rest, queueLock, Place.enter, Place.next, Place.answer, Shared.call,
        dequeueIntoSendPacket, hlt]

/-- A call of `queue_hci_op` comes to its end only when there is room. -/
theorem room_of_statement {s : Shared} {op : Op} {y : Place × Shared}
    (h : queueLock.Statement (.storeValue op, s) y) : s.queue.queueTail < capacity := by
  have hnext : Place.next (.storeValue op) s = some y := h.2
  simp only [Place.next] at hnext
  split at hnext
  · assumption
  · cases hnext

theorem room_of_executes {s s' : Shared} {op : Op} {a : Answer}
    (h : queueLock.Executes (.queueHciOp op) s a s') : s.queue.queueTail < capacity := by
  obtain ⟨l, hrun, hanswer⟩ := h
  rcases hrun.cases_head with heq | ⟨y, hstatement, -⟩
  · cases heq
    cases hanswer
  · exact room_of_statement hstatement

/-- A call that finds room comes to its end. -/
theorem Shared.Holds.comes_to_end {s : Shared} (h : s.Holds) {c : Locked}
    (hroom : (∃ op, c = .queueHciOp op) → s.queue.queueTail < capacity) :
    ∃ r, s.call c = some r := by
  cases c with
  | queueHciOp op => exact ⟨_, if_pos (hroom ⟨op, rfl⟩)⟩
  | isQueueEmpty => exact ⟨_, rfl⟩
  | queueSize => exact ⟨_, rfl⟩
  | dequeueIntoSendPacket =>
    by_cases hlt : s.queue.queueHead < s.queue.queueTail
    · obtain ⟨s', hcall, -, -⟩ := h.dequeue hlt
      exact ⟨_, hcall⟩
    · exact ⟨(.handed none, s), by simp [Shared.call, dequeueIntoSendPacket, hlt]⟩

/-- **Whole calls** one after the other keep the invariant, and are first in, first out. -/
theorem serial_run {xs : List (Locked × Answer)} {s : Shared} (h : queueLock.Serial .zero xs s)
    (hsized : ∀ op ∈ enqueued (xs.map Prod.fst), op.Sized) :
    ∃ taken, Shared.zero.run (xs.map Prod.fst) = some (xs.map Prod.snd, s) ∧ s.Holds ∧
      handed (xs.map Prod.snd) = taken.map Op.packet ∧
      Fifo [] (enqueued (xs.map Prod.fst)) taken s.queue.pending := by
  induction h with
  | nil => exact ⟨[], rfl, Shared.Holds.zero, rfl, Fifo.refl _⟩
  | @concat xs c a s s' _ hexec ih =>
    rw [List.map_append, enqueued_append] at hsized ⊢
    obtain ⟨taken, hrun, hholds, hhanded, hfifo⟩ :=
      ih fun op hop => hsized op (List.mem_append_left _ hop)
    have hroom : (∃ op, c = .queueHciOp op) → s.queue.queueTail < capacity := by
      rintro ⟨op, rfl⟩
      exact room_of_executes hexec
    obtain ⟨a', s'', taken', hcall, hholds', hhanded', hfifo'⟩ := hholds.call hroom fun op hop =>
      hsized op (List.mem_append_right _ hop)
    -- the statements of the call have come to the same answer
    have hanswer := hexec.eq ((rest_enter hholds.tail_le c).trans hcall)
    obtain ⟨rfl, rfl⟩ := Prod.mk.inj hanswer
    refine ⟨taken ++ taken', ?_, hholds', ?_, hfifo.trans hfifo'⟩
    · rw [List.map_append]
      exact Shared.run_append hrun (by simp [Shared.run, hcall])
    · rw [List.map_append, List.map_append, ← hhanded, ← hhanded']
      exact List.filterMap_append

/-- The calls of any number of threads at one point: what has been answered, and what the
thread inside is at. -/
structure WholeCalls {ι : Type} (t : Monitor.Threads Shared Locked Place Answer ι) (s : Shared)
    (taken : List Op) : Prop where
  /-- Nobody is between the lock and its release but the thread that holds the lock. -/
  exclusive : ∀ i c l, t.thread i = .inside c l → t.lock = some i
  /-- The calls answered so far, executed whole, give these answers. -/
  run : Shared.zero.run (t.answered.map Prod.fst) = some (t.answered.map Prod.snd, s)
  free : t.lock = none → t.shared = s
  /-- The packets handed over are those of the first ops, and the others are pending. -/
  handed : HciQueue.handed (t.answered.map Prod.snd) = taken.map Op.packet
  fifo : Fifo [] (enqueued (t.answered.map Prod.fst)) taken s.queue.pending
  /-- The thread that holds the lock gives it back within nine statements of its own, unless it
  is a `queue_hci_op` that finds the arrays full. -/
  released : ∀ i, t.lock = some i → ∃ c l, t.thread i = .inside c l ∧
    ((∃ n ≤ 9, ∃ r, queueLock.rest n l t.shared = some r) ∨
      ((∃ op, l = .storeValue op) ∧ t.shared.queue.queueTail = capacity))

/-- **Calls under `queueLock` are whole calls**, at every point of every run of any number of
threads, statement by statement, whose ops fit `send_buffer`.  In the order in which they give the
lock back they are first in, first out; and no statement goes beyond an array, and no thread keeps
the lock, but for a `queue_hci_op` that finds the arrays full. -/
theorem whole_calls {ι : Type} [DecidableEq ι] {t : Monitor.Threads Shared Locked Place Answer ι}
    (h : queueLock.Reachable .zero t)
    (hsized : ∀ op ∈ enqueued (t.answered.map Prod.fst), op.Sized) :
    ∃ s taken, WholeCalls t s taken := by
  obtain ⟨s, hguarded⟩ := h.guarded
  obtain ⟨taken, hrun, hholds, hhanded, hfifo⟩ := serial_run hguarded.serial hsized
  refine ⟨s, taken, hguarded.exclusive, hrun, hguarded.free, hhanded, hfifo, fun i hi => ?_⟩
  obtain ⟨c, l, hin, hstatements⟩ := hguarded.begun i hi
  refine ⟨c, l, hin, ?_⟩
  by_cases hroom : (∃ op, c = .queueHciOp op) → s.queue.queueTail < capacity
  · obtain ⟨r, hcall⟩ := hholds.comes_to_end hroom
    obtain ⟨n, hn, hrest⟩ :=
      Monitor.rest_along hstatements ((rest_enter hholds.tail_le c).trans hcall)
    exact Or.inl ⟨n, hn, r, hrest⟩
  · obtain ⟨⟨op, rfl⟩, hfull⟩ := Classical.not_imp.1 hroom
    rcases hstatements.cases_head with heq | ⟨y, hstatement, -⟩
    · obtain ⟨rfl, rfl⟩ := Prod.mk.inj heq
      exact Or.inr (⟨⟨op, rfl⟩, Nat.le_antisymm hholds.tail_le (Nat.le_of_not_lt hfull)⟩)
    · exact absurd (room_of_statement hstatement) hfull

/-! ### Two threads -/

/-- A command. -/
def oneOp : Op := ⟨[0x03, 0x0C, 0x00], 3, 5⟩

/-- Two threads have made a call, and one of them has the lock. -/
def oneInside : Bool → Monitor.ThreadAt Locked Place :=
  Function.update
    (Function.update
      (Function.update (fun _ => .outside) false (.waiting (.queueHciOp oneOp)))
      true (.waiting .isQueueEmpty))
    false (.inside (.queueHciOp oneOp) (.storeValue oneOp))

/-- It has stored the value of its op. -/
def halfQueued : Monitor.Threads Shared Locked Place Answer Bool where
  shared := { Shared.zero with
    queue := { Queue.zero with dataQueue := Function.update Queue.zero.dataQueue 0 oneOp.value } }
  lock := some false
  thread := Function.update oneInside false (.inside (.queueHciOp oneOp) (.storeLength oneOp))
  answered := []

theorem halfQueued_reachable : queueLock.Reachable .zero halfQueued := by
  have hcall : queueLock.Reachable .zero
      { Monitor.Threads.start Shared.zero with
        thread := Function.update (fun _ : Bool => .outside) false
          (.waiting (.queueHciOp oneOp)) } :=
    Monitor.Reachable.start.step (.call _ rfl)
  have hlock := (hcall.step (.call (i := true) .isQueueEmpty rfl)).step (.lock (i := false) rfl rfl)
  exact hlock.step (.statement (i := false) rfl ⟨rfl, rfl⟩)

theorem whole_calls_two : ∃ s taken, WholeCalls halfQueued s taken :=
  whole_calls halfQueued_reachable (by decide)

end OpenwrtFeed.HciQueue
