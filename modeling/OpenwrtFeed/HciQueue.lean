import OpenwrtFeed.Ubcsp
import Mathlib.Data.List.Infix
import Mathlib.Logic.Function.Basic

/-! # The queue of HCI ops

`uart_bcsp_hci.c` hands the ops of the session thread to the poll thread through
three parallel arrays of 64 entries and two indices.  The queue is not circular:
both indices go back to zero when a dequeue empties it, and only then.  `queueTail`
is therefore not the number of pending ops but the length of the current *burst*,
the number of ops enqueued since the queue was last emptied, and the indices stay
below 64 exactly as long as no burst is longer than 64 (`indices_lt_iff`).
-/
namespace OpenwrtFeed.HciQueue
open Ubcsp (Packet)

/-- What one call of `queue_hci_op` hands over. -/
structure Op where
  value : List UInt8
  length : UInt16
  channel : Int
deriving DecidableEq

/-- The arrays and indices of the queue.  An array is a function of the index; 64 is
the number of its entries that exist. -/
structure Queue where
  queueTail : Nat
  queueHead : Nat
  dataQueue : Nat → List UInt8
  lengthQueue : Nat → UInt16
  channelQueue : Nat → Int

/-- The number of entries of each array. -/
def capacity : Nat := 64

/-- Static storage before any call. -/
def Queue.zero : Queue := ⟨0, 0, fun _ => [], fun _ => 0, fun _ => 0⟩

/-- `queue_hci_op`. -/
def queueHciOp (op : Op) (q : Queue) : Queue where
  dataQueue := Function.update q.dataQueue q.queueTail op.value
  lengthQueue := Function.update q.lengthQueue q.queueTail op.length
  channelQueue := Function.update q.channelQueue q.queueTail op.channel
  queueTail := q.queueTail + 1
  queueHead := q.queueHead

/-- What `dequeueIntoSendPacket` copies into `send_packet` and `send_buffer`. -/
def headPacket (q : Queue) : Packet where
  channel := UInt8.ofInt (q.channelQueue q.queueHead)
  reliable := 1
  length := q.lengthQueue q.queueHead
  payload := (q.dataQueue q.queueHead).take (q.lengthQueue q.queueHead).toNat

/-- The queue after its head has been copied. -/
def dropHead (q : Queue) : Queue :=
  if q.queueHead + 1 = q.queueTail then { q with queueHead := 0, queueTail := 0 }
  else { q with queueHead := q.queueHead + 1 }

/-- `dequeueIntoSendPacket`, up to the call of `ubcsp_send_packet` with the packet it
returns. -/
def dequeueIntoSendPacket (q : Queue) : Option Packet × Queue :=
  if q.queueHead < q.queueTail then (some (headPacket q), dropHead q) else (none, q)

/-- `isQueueEmpty`. -/
def isQueueEmpty (q : Queue) : Bool := q.queueHead = q.queueTail

/-- `queueSize`. -/
def queueSize (q : Queue) : UInt16 := UInt16.ofNat (q.queueTail - q.queueHead)

/-! ## Runs of the queue -/

/-- A call that takes the lock and uses the arrays. -/
inductive Call
  | enqueue (op : Op)
  | dequeue
deriving DecidableEq

/-- The queue after a call. -/
def Queue.step (q : Queue) : Call → Queue
  | .enqueue op => queueHciOp op q
  | .dequeue => (dequeueIntoSendPacket q).2

/-- The index a call uses into the three arrays, if it uses one. -/
def Queue.index (q : Queue) : Call → Option Nat
  | .enqueue _ => some q.queueTail
  | .dequeue => if q.queueHead < q.queueTail then some q.queueHead else none

/-- The indices used in a run. -/
def indices (q : Queue) : List Call → List Nat
  | [] => []
  | c :: cs => (q.index c).toList ++ indices (q.step c) cs

/-- What the calls themselves say about the queue: how many ops are pending, and how
many have been enqueued since it was last empty. -/
structure Backlog where
  pending : Nat
  burst : Nat
deriving DecidableEq

/-- Nothing pending. -/
def Backlog.empty : Backlog := ⟨0, 0⟩

/-- The backlog after a call: taking the last pending op ends the burst. -/
def Backlog.step (b : Backlog) : Call → Backlog
  | .enqueue _ => ⟨b.pending + 1, b.burst + 1⟩
  | .dequeue => if b.pending ≤ 1 then .empty else ⟨b.pending - 1, b.burst⟩

/-- The backlog after a sequence of calls. -/
def backlog (cs : List Call) : Backlog := cs.foldl Backlog.step .empty

/-- The queue has this backlog: the tail is the length of the burst, and the head is
the number of ops of the burst already taken. -/
structure Queue.Has (q : Queue) (b : Backlog) : Prop where
  tail : q.queueTail = b.burst
  head : q.queueHead + b.pending = b.burst
  drained : b.pending = 0 → b.burst = 0

theorem Queue.Has.zero : Queue.zero.Has .empty := ⟨rfl, rfl, fun _ => rfl⟩

/-- Every call keeps the correspondence. -/
theorem Queue.Has.step {q : Queue} {b : Backlog} (h : q.Has b) (c : Call) :
    (q.step c).Has (b.step c) := by
  obtain ⟨htail, hhead, hdrained⟩ := h
  cases c with
  | enqueue op =>
    refine ⟨?_, ?_, ?_⟩ <;> simp [Queue.step, queueHciOp, Backlog.step] <;> omega
  | dequeue =>
    simp only [Queue.step, dequeueIntoSendPacket, dropHead, Backlog.step]
    by_cases hlt : q.queueHead < q.queueTail
    · by_cases hlast : q.queueHead + 1 = q.queueTail
      · have hp : b.pending ≤ 1 := by omega
        simp only [hlt, hlast, hp, if_true]
        exact ⟨rfl, rfl, fun _ => rfl⟩
      · have hp : ¬ b.pending ≤ 1 := by omega
        simp only [hlt, hlast, hp, if_true, if_false]
        exact ⟨htail, by simp only; omega, by simp only; omega⟩
    · have hp : b.pending = 0 := by omega
      have hb := hdrained hp
      simp only [hlt, hp, Nat.zero_le, if_true, if_false]
      exact ⟨by simp only [Backlog.empty]; omega, by simp only [Backlog.empty]; omega, fun _ => rfl⟩

/-- The index a call uses is below the capacity exactly when the burst it belongs to
is not longer than the capacity, the op being enqueued included. -/
theorem Queue.Has.index_lt {q : Queue} {b : Backlog} (h : q.Has b) (hb : b.burst ≤ capacity)
    (c : Call) :
    (∀ i ∈ q.index c, i < capacity) ↔ (b.step c).burst ≤ capacity := by
  obtain ⟨htail, hhead, -⟩ := h
  cases c with
  | enqueue op => simp only [Queue.index, Backlog.step, Option.mem_some_iff, forall_eq']; omega
  | dequeue =>
    have hstep : (b.step .dequeue).burst ≤ capacity := by
      simp only [Backlog.step]
      split
      · exact Nat.zero_le _
      · exact hb
    refine ⟨fun _ => hstep, ?_⟩
    intro _ i hi
    simp only [Queue.index] at hi
    split at hi
    · simp only [Option.mem_some_iff] at hi
      omega
    · cases hi

/-- The indices of a run from a queue with backlog `b`. -/
theorem indices_lt_iff_of_has {q : Queue} {b : Backlog} (h : q.Has b) (hb : b.burst ≤ capacity)
    (cs : List Call) :
    (∀ i ∈ indices q cs, i < capacity) ↔
      ∀ pre, pre <+: cs → (pre.foldl Backlog.step b).burst ≤ capacity := by
  induction cs generalizing q b with
  | nil =>
    refine ⟨?_, fun _ i hi => by cases hi⟩
    intro _ pre hpre
    rw [List.prefix_nil.mp hpre]
    exact hb
  | cons c cs ih =>
    have hidx := h.index_lt hb c
    constructor
    · intro hall pre hpre
      have hc : (b.step c).burst ≤ capacity :=
        hidx.mp fun i hi => hall i (List.mem_append_left _ (Option.mem_toList.mpr hi))
      cases pre with
      | nil => exact hb
      | cons d pre =>
        obtain ⟨rfl, hrest⟩ := List.cons_prefix_cons.mp hpre
        exact (ih (h.step d) hc).mp (fun i hi => hall i (List.mem_append_right _ hi)) pre hrest
    · intro hpre i hi
      have hc : (b.step c).burst ≤ capacity :=
        hpre [c] (List.cons_prefix_cons.mpr ⟨rfl, List.nil_prefix⟩)
      rcases List.mem_append.mp hi with hi | hi
      · exact hidx.mpr hc i (Option.mem_toList.mp hi)
      · exact (ih (h.step c) hc).mpr
          (fun pre hp => hpre (c :: pre) (List.cons_prefix_cons.mpr ⟨rfl, hp⟩)) i hi

/-- **The arrays are used within their 64 entries exactly in the runs with no burst
longer than 64**: whenever more than 64 ops are enqueued without the queue being
emptied in between, an index is out of range, however few ops are pending. -/
theorem indices_lt_iff (cs : List Call) :
    (∀ i ∈ indices .zero cs, i < capacity) ↔
      ∀ pre, pre <+: cs → (backlog pre).burst ≤ capacity :=
  indices_lt_iff_of_has Queue.Has.zero (Nat.zero_le _) cs

/-- A sustained light load: one op pending throughout, 64 times one more op queued
and one taken. -/
def lightLoad : List Call :=
  let op : Op := ⟨[0x03, 0x0c, 0x00], 3, 5⟩
  .enqueue op :: (List.replicate 64 [.enqueue op, .dequeue]).flatten

/-- The light load never has more than two ops pending, and uses index 64. -/
theorem lightLoad_index :
    (∀ n ≤ lightLoad.length, (backlog (lightLoad.take n)).pending ≤ 2) ∧
      capacity ∈ indices .zero lightLoad := by
  decide +kernel

end OpenwrtFeed.HciQueue
