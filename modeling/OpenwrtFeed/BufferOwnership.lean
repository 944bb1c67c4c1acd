import OpenwrtFeed.Heap
import OpenwrtFeed.QueueFifo
import OpenwrtFeed.BridgeFraming
import OpenwrtFeed.MessageReads
import OpenwrtFeed.KeyLifetime
import Mathlib.Algebra.Order.Group.Multiset
import Mathlib.Tactic.Abel

/-! # Who owns the buffers

`session` allocates a buffer for each message.  For an op the queue becomes its owner, and
`dequeueIntoSendPacket` frees it in the other thread; the buffers of all other messages are
never freed.  `handleInternalCommand` allocates a block for the key pair, which it frees when the
generation fails, and one for the key of a `PG_PUBLIC_DECRYPT`, which it frees unless the data turn
out not to have their length.  Both threads also call `hci_bridge_send`, which allocates a frame and
frees it, and `reportStatus` does the same around it.

Here the two threads run step by step on one heap.  `malloc` may return any address that is
not live, in particular one that the other thread has just freed, and the threads take their
steps in any order.  An internal command can read beyond its message or the copied key, or a key
pair that is not there; that ends a run.  Else no thread ever touches or frees a block that is not
live, nor reaches beyond its end, and the blocks that nobody will free are counted
(`run_accounted`).  The lists of octets by which the other models of the queue stand for
its pointers are what the pointers point to (`run_refines`).

The heap holds the blocks of `hci_bridge.c`; those that `ecdh.c` and the libraries allocate for
themselves, the public key and the secret among them, are not on it.
-/
namespace OpenwrtFeed.HciBridge
open HciQueue
open Ubcsp (Packet)

/-! ## The threads -/

/-- What can go wrong. -/
inductive Fault
  /-- A block that is not live is used or freed, or one is used beyond its end. -/
  | heap
  /-- A static array overruns. -/
  | array
  /-- A null pointer is written to. -/
  | null
  /-- An internal command reads beyond its message or the copied key, or a key pair that is null
  or has been freed. -/
  | command
deriving DecidableEq

/-- The arrays and indices of the queue, as they are: `dataQueue` holds pointers. -/
structure Slots where
  queueTail : Nat
  queueHead : Nat
  dataQueue : Nat → Nat
  lengthQueue : Nat → UInt16
  channelQueue : Nat → Int

namespace Slots

def zero : Slots := ⟨0, 0, fun _ => 0, fun _ => 0, fun _ => 0⟩

/-- `queue_hci_op`, given a pointer. -/
def push (value : Nat) (length : UInt16) (channel : Int) (q : Slots) : Slots where
  dataQueue := Function.update q.dataQueue q.queueTail value
  lengthQueue := Function.update q.lengthQueue q.queueTail length
  channelQueue := Function.update q.channelQueue q.queueTail channel
  queueTail := q.queueTail + 1
  queueHead := q.queueHead

/-- The indices at the end of `dequeueIntoSendPacket`. -/
def dropHead (q : Slots) : Slots :=
  if q.queueHead + 1 = q.queueTail then { q with queueHead := 0, queueTail := 0 }
  else { q with queueHead := q.queueHead + 1 }

/-- The pointers between the indices. -/
def pointers (q : Slots) : List Nat :=
  (List.range' q.queueHead (q.queueTail - q.queueHead)).map q.dataQueue

end Slots

/-- Where the session thread is, with the pointers it has in its variables. -/
inductive SessionAt
  /-- At a call of `recv` or, after the end of a session, of `accept`. -/
  | receiving (buf : Option Nat)
  /-- A payload has been received. -/
  | dispatching (buf : Nat) (x : Dispatch)
  /-- At the `free` of the block that an internal command has allocated. -/
  | releasing (own : Nat) (r : Reply)
  /-- At the `malloc` of `reportStatus`. -/
  | reporting (r : Reply)
  /-- At the `malloc` of `hci_bridge_send`. -/
  | sending (buf : Nat) (r : Reply)
  /-- At `send`. -/
  | sent (buf newData : Nat) (r : Reply)
  /-- Back from `hci_bridge_send`. -/
  | reported (buf : Nat)
deriving DecidableEq

/-- Where the poll thread is. -/
inductive PollAt
  | idle
  /-- In `dequeueIntoSendPacket`, after the `memcpy`; the thread holds `queueLock`. -/
  | copied
  /-- At `send`. -/
  | sent (newData : Nat) (call : BridgeSend)
deriving DecidableEq

/-- The two threads and what they share.  `handled`, `aborted`, `handedOver`, `calls` and
`socket` are records: what the session thread has done with the messages, the sessions that
have ended while a buffer was allocated, the packets given to `ubcsp_send_packet`, the calls
of `hci_bridge_send` that have sent, and the octets given to `send`. -/
structure Threads (κ : Type) where
  heap : Heap Nat UInt8
  keys : Keys κ
  slots : Slots
  sendBuffer : List UInt8
  session : Session
  stage : SessionAt
  poll : PollAt
  handled : List Dispatch
  aborted : Nat
  handedOver : List Packet
  calls : List BridgeSend
  socket : List UInt8

/-- What the calls of the session thread return: `recv`, and what the variable `length` holds
if it fails; `malloc`, and what the block then holds; and the library behind an internal
command. -/
structure Env (κ : Type) where
  returned : Recv
  unset : UInt16
  block : Option Nat
  stale : Nat → UInt8
  crypto : Crypto κ

/-- A step of one of the threads.  The poll thread takes an op from the queue or calls
`hci_bridge_send`, for which `malloc` returns `block`. -/
inductive ThreadStep (κ : Type)
  | session (env : Env κ)
  | dequeue
  | bridgeSend (call : BridgeSend) (block : Option Nat)

/-! ### The blocks of an internal command -/

/-- `sizeof(KeyPair)`: two pointers and an `int`. -/
def sizeofKeyPair : Nat := 12

/-- The key that a `PG_PUBLIC_DECRYPT` copies into a block of its own, and whether the data behind
it have the length that they state: only then is the key used and its block freed. -/
def copiedKey (buffer : List UInt8) : Option (List UInt8 × Bool) :=
  match readNumber buffer with
  | none => none
  | some (_, buffer) =>
    match readNumber buffer with
    | none => none
    | some (pubKeyLength, buffer) =>
      if buffer.length ≤ pubKeyLength.toNat then none
      else
        let counted := match readNumber (buffer.drop pubKeyLength.toNat) with
          | none => false
          | some (dataLength, data) => decide (data.length = dataLength.toNat)
        some (buffer.take pubKeyLength.toNat, counted)

/-- The block that an internal command allocates, if it does: what it holds, and whether the
command frees it again. -/
def ownBlock {κ : Type} (env : Env κ) (keys : Keys κ) : List UInt8 → Option (List UInt8 × Bool)
  | [] => none
  | command :: buffer =>
    if command = pgCreateKeyPair then
      match keys.kp with
      | .null =>
        some ((List.range sizeofKeyPair).map env.stale, (generateKeyPair env.crypto.keygen).isNone)
      | _ => none
    else if command = pgPublicDecrypt then copiedKey buffer
    else none

/-- The copied key is used and has no terminator: `createRSA` reads on behind it. -/
def unterminated : List UInt8 → Bool
  | [] => false
  | command :: buffer =>
    command = pgPublicDecrypt && (copiedKey buffer).any fun key => key.2 && !key.1.contains 0

namespace Threads
variable {κ : Type} (order : HostOrder)

def start : Threads κ where
  heap := .empty
  keys := .initial
  slots := .zero
  sendBuffer := List.replicate 512 0
  session := .start
  stage := .receiving none
  poll := .idle
  handled := []
  aborted := 0
  handedOver := []
  calls := []
  socket := []

/-- A `break` out of the loop of `session`. -/
def abort (next : Session) (buf : Option Nat) (s : Threads κ) : Threads κ :=
  { s with session := next, stage := .receiving none, aborted := s.aborted + buf.toList.length }

/-- A call of `recv`, up to the next one or, for a payload, to the branches on the type.
When a session has ended, the next client is accepted. -/
def receive (env : Env κ) (buf : Option Nat) (s : Threads κ) : Except Fault (Threads κ) :=
  let next := s.session.recv order env.unset env.returned
  match s.session.reading with
  | .length =>
    match next.reading with
    | .commandType n =>
      -- the size of the block is `length - 1`; for 0 that is the largest one there is
      match if n = 0 then none else env.block with
      | none => .ok { s with session := next, stage := .receiving none }
      | some p =>
        .ok { s with
          session := next
          stage := .receiving (some p)
          heap := s.heap.alloc p ((List.range (n.toNat - 1)).map env.stale) }
    | _ => .ok { s with session := next }
  | .commandType _ => if next.reading = .ended then .ok (s.abort next buf) else
      .ok { s with session := next }
  | .payload n _ =>
    match env.returned, buf with
    | .octets l, some p =>
      -- `recv` returns no more than it is asked for
      if n.toNat - 1 < l.length then .ok s
      else (s.heap.write p l).elim (.error .heap) fun heap =>
        match s.session.completes env.returned with
        | some m =>
            .ok { s with heap := heap, session := next, stage := .dispatching p m.dispatched }
        | none => .ok (abort next buf { s with heap := heap })
    -- nor does it return anything in a buffer that is null
    | .octets (_ :: _), none => .ok s
    | .octets [], none => .ok (s.abort next buf)
    | .error, _ => .ok (s.abort next buf)
  | .ended => .ok { s with session := .start, stage := .receiving none }

/-- `handleInternalCommand`, with the message in `block`, up to the `free` of its own block or the
`malloc` of `reportStatus`. -/
def handle (env : Env κ) (block : List UInt8) (s : Threads κ) : Except Fault (Threads κ) :=
  let size := UInt16.ofNat (s.slots.queueTail - s.slots.queueHead)
  let r := readInternalCommand env.crypto s.keys (fun i => block.getD i 0) size
    (UInt16.ofNat block.length)
  if ∀ i ∈ r.reads, i < block.length then
    match r.value with
    | none => .error .command
    | some (keys, reply) =>
      match ownBlock env s.keys block with
      | none => .ok { s with keys := keys, stage := .reporting reply }
      | some (octets, freed) =>
        match env.block with
        -- `generateKeyPair` or `memcpy` writes to it; a null for an empty key is not told apart
        | none => .error .null
        | some own =>
          if unterminated block then .error .command
          else .ok { s with
            keys := keys
            heap := s.heap.alloc own octets
            stage := if freed then .releasing own reply else .reporting reply }
  else .error .command

/-- The branches on the type of a message. -/
def dispatch (p : Nat) (x : Dispatch) (env : Env κ) (s : Threads κ) : Except Fault (Threads κ) :=
  match x with
  | .queue op =>
    -- the other thread may hold the lock
    if s.poll = .copied then .ok s
    else if s.slots.queueTail < capacity then
      .ok { s with
        slots := s.slots.push p op.length op.channel
        stage := .receiving none
        handled := s.handled ++ [x] }
    else .error .array
  | .internal body =>
    -- `queueSize` takes the lock
    if s.poll = .copied ∧ body.head? = some pgInternalStatus then .ok s
    else (s.heap p).elim (.error .heap) fun block =>
      handle env block { s with handled := s.handled ++ [x] }
  | .invalid _ => .ok { s with stage := .receiving none, handled := s.handled ++ [x] }

/-- `send`, and then `free` of the frame; `s` says how the thread goes on. -/
def flush (newData : Nat) (call : BridgeSend) (s : Threads κ) : Except Fault (Threads κ) :=
  (s.heap.read newData (call.length.toNat + 3)).elim (.error .heap) fun octets =>
    (s.heap.free newData).elim (.error .heap) fun heap =>
      .ok { s with heap := heap, calls := s.calls ++ [call], socket := s.socket ++ octets }

/-- A step of the session thread. -/
def sessionStep (env : Env κ) (s : Threads κ) : Except Fault (Threads κ) :=
  match s.stage with
  | .receiving buf => s.receive order env buf
  | .dispatching p x => s.dispatch p x env
  | .releasing own r =>
    (s.heap.free own).elim (.error .heap) fun heap =>
      .ok { s with heap := heap, stage := .reporting r }
  | .reporting r =>
    match env.block with
    | none => .ok { s with stage := .receiving none }
    | some p => .ok { s with heap := s.heap.alloc p (reportStatus r).data, stage := .sending p r }
  | .sending p r =>
    match env.block with
    | none => .error .null
    | some d =>
      (s.heap.read p (reportStatus r).length.toNat).elim (.error .heap) fun data =>
        .ok { s with
          heap := s.heap.alloc d (hciBridgeSend order { reportStatus r with data := data })
          stage := .sent p d r }
  | .sent p d r => flush d (reportStatus r) { s with stage := .reported p }
  | .reported p =>
    (s.heap.free p).elim (.error .heap) fun heap =>
      .ok { s with heap := heap, stage := .receiving none }

/-- The first part of `dequeueIntoSendPacket`, up to the `memcpy`. -/
def copy (s : Threads κ) : Except Fault (Threads κ) :=
  if s.slots.queueHead < s.slots.queueTail then
    (s.heap.read (s.slots.dataQueue s.slots.queueHead)
        (s.slots.lengthQueue s.slots.queueHead).toNat).elim (.error .heap) fun payload =>
      (memcpy s.sendBuffer payload).elim (.error .array) fun buffer =>
        .ok { s with sendBuffer := buffer, poll := .copied }
  else .ok s

/-- The packet that `send_packet` and `send_buffer` hold after the `memcpy`. -/
def copiedPacket (s : Threads κ) : Packet where
  channel := UInt8.ofInt (s.slots.channelQueue s.slots.queueHead)
  reliable := 1
  length := s.slots.lengthQueue s.slots.queueHead
  payload := s.sendBuffer.take (s.slots.lengthQueue s.slots.queueHead).toNat

/-- The rest of `dequeueIntoSendPacket`. -/
def release (s : Threads κ) : Except Fault (Threads κ) :=
  (s.heap.free (s.slots.dataQueue s.slots.queueHead)).elim (.error .heap) fun heap =>
    .ok { s with
      heap := heap
      slots := s.slots.dropHead
      poll := .idle
      handedOver := s.handedOver ++ [s.copiedPacket] }

/-- One step.  A step that the thread is not at, or in which `malloc` would return an address
that is live, is none. -/
def step (s : Threads κ) : ThreadStep κ → Except Fault (Threads κ)
  | .session env => if ∀ p ∈ env.block, s.heap p = none then s.sessionStep order env else .ok s
  | .dequeue =>
    match s.poll with
    | .idle => s.copy
    | .copied => s.release
    | .sent d call => flush d call { s with poll := .idle }
  | .bridgeSend call block =>
    match s.poll, block with
    | .idle, none => .error .null
    | .idle, some d =>
      -- the data of a call is as long as it says
      if s.heap d = none ∧ call.data.length = call.length.toNat then
        .ok { s with heap := s.heap.alloc d (hciBridgeSend order call), poll := .sent d call }
      else .ok s
    | _, _ => .ok s

/-- A sequence of steps, up to the first fault. -/
def run (s : Threads κ) (steps : List (ThreadStep κ)) : Except Fault (Threads κ) :=
  steps.foldlM (step order) s

end Threads

/-! ## What the threads own -/

section
variable {κ : Type}

/-- The blocks that only the session thread can free. -/
def SessionAt.held : SessionAt → Multiset Nat
  | .receiving buf => Multiset.ofList buf.toList
  | .dispatching p _ => {p}
  | .releasing own _ => {own}
  | .reporting _ => 0
  | .sending p _ => {p}
  | .sent p d _ => d ::ₘ {p}
  | .reported p => {p}

/-- The blocks that only the poll thread can free. -/
def PollAt.held : PollAt → Multiset Nat
  | .sent d _ => {d}
  | _ => 0

/-- The blocks that some thread can still free. -/
def Threads.held (s : Threads κ) : Multiset Nat :=
  s.stage.held + s.poll.held + Multiset.ofList s.slots.pointers

/-- Whether the buffer of a message gets an owner in the queue. -/
def Dispatch.queued : Dispatch → Bool
  | .queue _ => true
  | _ => false

/-- Whether the key of a `PG_PUBLIC_DECRYPT` has been copied and is never freed. -/
def Dispatch.keepsKey : Dispatch → Bool
  | .internal (command :: buffer) =>
    command = pgPublicDecrypt && (copiedKey buffer).any fun key => !key.2
  | _ => false

/-- Whether `kp` points to a key pair. -/
def KeyPointer.isLive : KeyPointer κ → Bool
  | .live _ => true
  | _ => false

/-- The blocks that nobody will free: one for each message that was not queued and each session that
has ended with a buffer, one for each key that was copied for data without their length, and the one
of the key pair. -/
def Threads.lost (s : Threads κ) : Nat :=
  s.handled.countP (fun x => !x.queued) + s.aborted +
    (s.handled.countP Dispatch.keepsKey + s.keys.kp.isLive.toNat)

/-- What the blocks of the session thread hold. -/
def SessionAt.Has (order : HostOrder) (reading : Reading) (heap : Heap Nat UInt8) : SessionAt → Prop
  | .receiving buf =>
    match reading with
    | .commandType n | .payload n _ => ∀ p ∈ buf, ∃ block, heap p = some block ∧
        block.length = n.toNat - 1
    | _ => buf = none
  | .dispatching p x => reading = .length ∧
      (∀ op, x = .queue op → heap p = some op.value ∧ op.value.length = op.length.toNat) ∧
      ∀ body, x = .internal body → heap p = some body ∧ body.length < 65536
  | .releasing _ _ => reading = .length
  | .reporting _ => reading = .length
  | .sending p r => reading = .length ∧ heap p = some (reportStatus r).data
  | .sent _ d r => reading = .length ∧ heap d = some (hciBridgeSend order (reportStatus r))
  | .reported _ => reading = .length

/-- The pointers of the queue point to the octets of `v`. -/
structure Slots.Stands (heap : Heap Nat UInt8) (q : Slots) (v : Queue) : Prop where
  head : v.queueHead = q.queueHead
  tail : v.queueTail = q.queueTail
  head_le : q.queueHead ≤ q.queueTail
  entry : ∀ i, q.queueHead ≤ i → i < q.queueTail →
    heap (q.dataQueue i) = some (v.dataQueue i) ∧ q.lengthQueue i = v.lengthQueue i ∧
      q.channelQueue i = v.channelQueue i ∧ (v.dataQueue i).length = (v.lengthQueue i).toNat

/-- What the block of the poll thread holds, and `send_buffer`. -/
def Threads.PollHas (order : HostOrder) (s : Threads κ) (v : Shared) : Prop :=
  match s.poll with
  | .idle => s.sendBuffer = v.sendBuffer
  | .copied => s.slots.queueHead < s.slots.queueTail ∧
      memcpy v.sendBuffer (v.queue.dataQueue v.queue.queueHead) = some s.sendBuffer
  | .sent d call => s.sendBuffer = v.sendBuffer ∧ call.data.length = call.length.toNat ∧
      s.heap d = some (hciBridgeSend order call)

/-- The threads are at the state `v` of the queue, and `leaked` are the blocks that nobody can
free. -/
structure Threads.Models (order : HostOrder) (s : Threads κ) (leaked : Multiset Nat) (v : Shared) :
    Prop where
  owns : s.heap.Owns (s.held + leaked)
  leaked : leaked.card = s.lost
  stage : s.stage.Has order s.session.reading s.heap
  poll : s.PollHas order v
  stands : s.slots.Stands s.heap v.queue
  socket : s.socket = s.calls.flatMap (hciBridgeSend order)

namespace Slots
variable {heap heap' : Heap Nat UInt8} {q : Slots} {v : Queue}

theorem pointers_push (h : q.queueHead ≤ q.queueTail) (p : Nat) (length : UInt16) (channel : Int) :
    (q.push p length channel).pointers = q.pointers ++ [p] := by
  have hcount : q.queueTail + 1 - q.queueHead = (q.queueTail - q.queueHead) + 1 := by omega
  have hlast : q.queueHead + (q.queueTail - q.queueHead) = q.queueTail := by omega
  have hold : ∀ i ∈ List.range' q.queueHead (q.queueTail - q.queueHead),
      Function.update q.dataQueue q.queueTail p i = q.dataQueue i := by
    intro i hi
    have := List.mem_range'_1.1 hi
    exact Function.update_of_ne (by omega) _ _
  show (List.range' q.queueHead (q.queueTail + 1 - q.queueHead)).map
      (Function.update q.dataQueue _ p) = _
  rw [hcount, List.range'_1_concat, List.map_append, hlast, List.map_congr_left hold,
    List.map_singleton, Function.update_self]
  rfl

theorem pointers_of_lt (h : q.queueHead < q.queueTail) :
    q.pointers = q.dataQueue q.queueHead :: q.dropHead.pointers := by
  have hcount : q.queueTail - q.queueHead = (q.queueTail - (q.queueHead + 1)) + 1 := by omega
  unfold pointers dropHead
  rw [hcount, List.range'_succ, List.map_cons]
  split
  · rename_i hlast
    simp [hlast]
  · rfl

theorem mem_pointers {i : Nat} (hle : q.queueHead ≤ i) (hlt : i < q.queueTail) :
    q.dataQueue i ∈ q.pointers :=
  List.mem_map_of_mem (List.mem_range'_1.2 ⟨hle, by omega⟩)

namespace Stands

/-- The queue is not concerned by what happens to other blocks. -/
theorem congr (h : q.Stands heap v) (hsame : ∀ p ∈ q.pointers, heap' p = heap p) :
    q.Stands heap' v where
  head := h.head
  tail := h.tail
  head_le := h.head_le
  entry i hle hlt := by
    rw [hsame _ (mem_pointers hle hlt)]
    exact h.entry i hle hlt

theorem push (h : q.Stands heap v) {p : Nat} {op : Op} (hp : heap p = some op.value)
    (hcounted : op.value.length = op.length.toNat) :
    (q.push p op.length op.channel).Stands heap (queueHciOp op v) where
  head := h.head
  tail := congrArg (· + 1) h.tail
  head_le := Nat.le_succ_of_le h.head_le
  entry i hle hlt := by
    show heap (Function.update q.dataQueue _ p i) = some (Function.update v.dataQueue _ _ i) ∧
      Function.update q.lengthQueue _ _ i = Function.update v.lengthQueue _ _ i ∧
      Function.update q.channelQueue _ _ i = Function.update v.channelQueue _ _ i ∧
      (Function.update v.dataQueue _ _ i).length = (Function.update v.lengthQueue _ _ i).toNat
    rw [h.tail]
    by_cases hi : i = q.queueTail
    · subst hi
      simp only [Function.update_self, true_and]
      exact ⟨hp, hcounted⟩
    · simp only [Function.update_of_ne hi]
      have hlt' : i < q.queueTail + 1 := hlt
      exact h.entry i hle (by omega)

theorem dropHead (h : q.Stands heap v) (hlt : q.queueHead < q.queueTail) :
    q.dropHead.Stands heap (HciQueue.dropHead v) := by
  unfold Slots.dropHead HciQueue.dropHead
  rw [h.head, h.tail]
  split
  · exact ⟨rfl, rfl, Nat.le_refl _, fun i _ hi => absurd hi (Nat.not_lt_zero i)⟩
  · exact ⟨rfl, rfl, hlt, fun i hle hi => h.entry i (Nat.le_of_succ_le hle) hi⟩

end Stands
end Slots

theorem SessionAt.Has.congr {order : HostOrder} {reading : Reading} {heap heap' : Heap Nat UInt8}
    {a : SessionAt} (h : a.Has order reading heap) (hsame : ∀ p ∈ a.held, heap' p = heap p) :
    a.Has order reading heap' := by
  cases a with
  | receiving buf =>
    cases reading with
    | commandType n | payload n _ =>
      intro p hp
      rw [hsame p (by simpa [held] using hp)]
      exact h p hp
    | _ => exact h
  | dispatching p x =>
    rw [Has, hsame p (Multiset.mem_singleton_self p)]
    exact h
  | releasing own r => exact h
  | reporting r => exact h
  | sending p r => exact ⟨h.1, (hsame p (Multiset.mem_singleton_self p)).trans h.2⟩
  | sent p d r => exact ⟨h.1, (hsame d (by simp [held])).trans h.2⟩
  | reported p => exact h

theorem Threads.PollHas.congr {order : HostOrder} {s s' : Threads κ} {v : Shared}
    (h : s.PollHas order v) (hpoll : s'.poll = s.poll) (hslots : s'.slots = s.slots)
    (hbuffer : s'.sendBuffer = s.sendBuffer) (hsame : ∀ p ∈ s.poll.held, s'.heap p = s.heap p) :
    s'.PollHas order v := by
  unfold PollHas at h ⊢
  rw [hpoll, hslots, hbuffer]
  cases hat : s.poll with
  | sent d call =>
    rw [hat] at h hsame
    exact ⟨h.1, h.2.1, (hsame d (Multiset.mem_singleton_self d)).trans h.2.2⟩
  | _ =>
    rw [hat] at h
    exact h

/-! ## The steps -/

namespace Threads
variable {order : HostOrder} {s s' : Threads κ} {leaked leaked' : Multiset Nat} {v : Shared}

/-- The ops that the session thread has queued. -/
def ops (s : Threads κ) : List Op := s.handled.filterMap dispatchedOp

/-- The threads go on to `s'`, and the queue with them by calls that take the lock. -/
def Advances (order : HostOrder) (s s' : Threads κ) (v : Shared) : Prop :=
  ∃ cs answers v' leaked', v.run cs = some (answers, v') ∧ s'.Models order leaked' v' ∧
    s'.ops = s.ops ++ enqueued cs ∧ s'.handedOver = s.handedOver ++ handed answers

/-- A step does not fail on the heap, and the threads go on if it does not fail. -/
structure Goes (order : HostOrder) (s : Threads κ) (v : Shared) (r : Except Fault (Threads κ)) :
    Prop where
  sound : r ≠ .error .heap
  advances : ∀ s', r = .ok s' → s.Advances order s' v

theorem Goes.of_ok (h : s.Advances order s' v) : s.Goes order v (.ok s') where
  sound h := by cases h
  advances t ht := by
    obtain rfl := Except.ok.inj ht
    exact h

theorem Goes.of_error {f : Fault} (h : f ≠ .heap) : s.Goes order v (.error f) where
  sound hf := h (Except.error.inj hf)
  advances t ht := by cases ht

/-- A step in which nobody takes the lock. -/
theorem Models.quiet (h : s'.Models order leaked' v) (hops : s'.ops = s.ops)
    (hover : s'.handedOver = s.handedOver) : s.Goes order v (.ok s') :=
  .of_ok ⟨[], [], v, leaked', rfl, h, by rw [hops]; exact (List.append_nil _).symm,
    by rw [hover]; exact (List.append_nil _).symm⟩

/-- A step of the session thread with its own blocks. -/
theorem Models.ofSession (h : s.Models order leaked v) (hpoll : s'.poll = s.poll)
    (hslots : s'.slots = s.slots) (hbuffer : s'.sendBuffer = s.sendBuffer)
    (hsame : ∀ p ∈ s.poll.held + Multiset.ofList s.slots.pointers, s'.heap p = s.heap p)
    (howns : s'.heap.Owns (s'.held + leaked')) (hleaked : leaked'.card = s'.lost)
    (hstage : s'.stage.Has order s'.session.reading s'.heap)
    (hsocket : s'.socket = s'.calls.flatMap (hciBridgeSend order)) : s'.Models order leaked' v where
  owns := howns
  leaked := hleaked
  stage := hstage
  poll := h.poll.congr hpoll hslots hbuffer fun p hp => hsame p (Multiset.mem_add.2 (Or.inl hp))
  stands := by
    rw [hslots]
    exact h.stands.congr fun p hp => hsame p (Multiset.mem_add.2 (Or.inr hp))
  socket := hsocket

/-- What the thread that sends a frame does to the heap. -/
theorem flush_eq {d : Nat} {call : BridgeSend} {rest : Multiset Nat}
    (howns : s.heap.Owns (d ::ₘ rest)) (hd : s.heap d = some (hciBridgeSend order call))
    (hlen : call.length.toNat ≤ call.data.length) :
    ∃ heap, flush d call s = .ok { s with
        heap := heap
        calls := s.calls ++ [call]
        socket := s.socket ++ hciBridgeSend order call } ∧
      heap.Owns rest ∧ ∀ q ∈ rest, heap q = s.heap q := by
  obtain ⟨heap, hfree, howns', hsame⟩ := howns.free
  have hlength : (hciBridgeSend order call).length = call.length.toNat + 3 := by
    simp [hciBridgeSend, Nat.min_eq_left hlen]
  have hread := Heap.read_all hd
  rw [hlength] at hread
  refine ⟨heap, ?_, howns', hsame⟩
  rw [flush, hread, Option.elim_some, hfree, Option.elim_some]

theorem flatMap_concat (hsocket : s.socket = s.calls.flatMap (hciBridgeSend order))
    (call : BridgeSend) :
    s.socket ++ hciBridgeSend order call = (s.calls ++ [call]).flatMap (hciBridgeSend order) := by
  rw [hsocket, List.flatMap_append, List.flatMap_singleton]

theorem length_reportStatus (r : Reply) :
    (reportStatus r).length.toNat ≤ (reportStatus r).data.length := by
  show (UInt16.ofNat (r.data.length + 2)).toNat ≤ r.data.length + 2
  rw [UInt16.toNat_ofNat']
  exact Nat.mod_le _ _

/-! ### The session thread -/

/-- The block that the session thread has in its variables, among all that have an owner. -/
theorem held_eq_cons {p : Nat} (hat : s.stage.held = {p}) (leaked : Multiset Nat) :
    s.held + leaked = p ::ₘ (s.poll.held + Multiset.ofList s.slots.pointers + leaked) := by
  rw [held, hat, ← Multiset.singleton_add]
  abel

/-- The session thread goes on with the blocks it has. -/
theorem Models.moves (h : s.Models order leaked v) {session : Session} {stage : SessionAt}
    (hheld : stage.held = s.stage.held) (hhas : stage.Has order session.reading s.heap) :
    s.Goes order v (.ok { s with session := session, stage := stage }) := by
  refine Models.quiet (h.ofSession rfl rfl rfl (fun _ _ => rfl) ?_ h.leaked hhas h.socket) rfl rfl
  have howns := h.owns
  unfold held at howns ⊢
  rwa [← hheld] at howns

/-- The session thread goes on with the block that `malloc` has returned. -/
theorem Models.malloc (h : s.Models order leaked v) {p : Nat} (hfree : s.heap p = none)
    {block : List UInt8} {session : Session} {stage : SessionAt}
    (hheld : stage.held = p ::ₘ s.stage.held)
    (hhas : stage.Has order session.reading (s.heap.alloc p block)) :
    s.Goes order v
      (.ok { s with heap := s.heap.alloc p block, session := session, stage := stage }) := by
  refine Models.quiet
    (h.ofSession rfl rfl rfl (fun q hq => h.owns.alloc_of_mem hfree ?_) ?_ h.leaked hhas
    h.socket) rfl rfl
  · unfold held
    simp only [Multiset.mem_add] at hq ⊢
    tauto
  · have howns := @Heap.Owns.alloc _ _ _ _ _ _ block h.owns hfree
    unfold held at howns ⊢
    rwa [hheld, Multiset.cons_add, Multiset.cons_add, Multiset.cons_add]

theorem has_none {reading : Reading} {heap : Heap Nat UInt8} :
    (SessionAt.receiving none).Has order reading heap := by
  cases reading with
  | commandType n | payload n _ => exact fun _ hp => by cases hp
  | _ => exact rfl

/-- What a session holds when it ends, nobody can free. -/
theorem Models.abort (h : s.Models order leaked v) {buf : Option Nat}
    (hat : s.stage = .receiving buf) (next : Session) :
    (s.abort next buf).Models order (leaked + Multiset.ofList buf.toList) v := by
  have howned : (s.abort next buf).held + (leaked + Multiset.ofList buf.toList) =
      s.held + leaked := by
    simp only [held, Threads.abort, hat, SessionAt.held, Option.toList_none, Multiset.coe_nil]
    abel
  refine h.ofSession rfl rfl rfl (fun _ _ => rfl) (howned ▸ h.owns) ?_ has_none h.socket
  rw [Multiset.card_add, h.leaked, Multiset.coe_card]
  show s.handled.countP _ + s.aborted + (s.handled.countP _ + s.keys.kp.isLive.toNat) + _ =
    s.handled.countP _ + (s.aborted + buf.toList.length) +
      (s.handled.countP Dispatch.keepsKey + s.keys.kp.isLive.toNat)
  omega

/-- A type is received, or the session ends. -/
theorem recv_type_cases {session : Session} {n : UInt16}
    (hreading : session.reading = .commandType n) (unset : UInt16) (r : Recv) :
    (session.recv order unset r).reading = .ended ∨
      ∃ t, (session.recv order unset r).reading = .payload n t := by
  unfold Session.recv
  rw [hreading]
  cases r with
  | error => exact Or.inl rfl
  | octets l =>
    dsimp only
    split
    · exact Or.inl rfl
    · exact Or.inr ⟨_, rfl⟩

/-- The message that a payload completes. -/
theorem completes_eq {l : List UInt8} {m : Message} {n : UInt16} {t : UInt8} {session : Session}
    (hreading : session.reading = .payload n t) (h : session.completes (.octets l) = some m) :
    m = ⟨t, l⟩ ∧ l.length + 1 = n.toNat ∧
      ∀ unset, (session.recv order unset (.octets l)).reading = .length := by
  unfold Session.completes at h
  rw [hreading] at h
  dsimp only at h
  split at h
  · cases h
  · rename_i hlen
    refine ⟨(Option.some.inj h).symm, by omega, fun unset => ?_⟩
    unfold Session.recv
    rw [hreading]
    dsimp only
    rw [if_neg hlen]

/-- A queued message is an op of its octets. -/
theorem dispatch_eq_queue {t : UInt8} {l : List UInt8} {op : Op}
    (h : HciBridge.dispatch t l = .queue op) :
    op.value = l ∧ op.length = UInt16.ofNat l.length := by
  unfold HciBridge.dispatch at h
  split at h
  · obtain rfl := Dispatch.queue.inj h
    exact ⟨rfl, rfl⟩
  · split at h
    · obtain rfl := Dispatch.queue.inj h
      exact ⟨rfl, rfl⟩
    · split at h
      · obtain rfl := Dispatch.queue.inj h
        exact ⟨rfl, rfl⟩
      · split at h <;> cases h

/-- So is the message of an internal command. -/
theorem dispatch_eq_internal {t : UInt8} {l body : List UInt8}
    (h : HciBridge.dispatch t l = .internal body) :
    body = l := by
  unfold HciBridge.dispatch at h
  split at h
  · cases h
  · split at h
    · cases h
    · split at h
      · cases h
      · split at h
        · exact (Dispatch.internal.inj h).symm
        · cases h

/-- A payload is written into the buffer. -/
theorem Models.write (h : s.Models order leaked v) {p : Nat} (hat : s.stage = .receiving (some p))
    {n : UInt16} {t : UInt8} (hreading : s.session.reading = .payload n t) {l : List UInt8}
    (hl : l.length ≤ n.toNat - 1) :
    ∃ heap rest, s.heap.write p l = some heap ∧
      Models order { s with heap := heap } leaked v ∧ heap p = some (l ++ rest) ∧
        l.length + rest.length = n.toNat - 1 := by
  obtain ⟨block, hblock, hlength⟩ : ∃ block, s.heap p = some block ∧
      block.length = n.toNat - 1 := by
    have hstage := h.stage
    rw [hat, hreading] at hstage
    exact hstage p rfl
  have howned := held_eq_cons (show s.stage.held = {p} by rw [hat]; rfl) leaked
  have howns := h.owns
  rw [howned] at howns
  obtain ⟨heap, hwrite, howns', hp, hsame⟩ := howns.write hblock (hlength ▸ hl)
  have hsize : l.length + (block.drop l.length).length = n.toNat - 1 := by
    rw [List.length_drop]
    omega
  refine ⟨heap, block.drop l.length, hwrite, ?_, hp, hsize⟩
  refine h.ofSession rfl rfl rfl (fun q hq => hsame q ?_) ?_ h.leaked ?_ h.socket
  · exact Multiset.mem_add.2 (Or.inl hq)
  · exact howned ▸ howns'
  · show s.stage.Has order s.session.reading heap
    rw [hat, hreading]
    intro q hq
    obtain rfl := Option.some.inj hq
    exact ⟨_, hp, by rw [List.length_append, hsize]⟩

/-- A payload that is complete goes to the branches on the type. -/
theorem Models.complete (h : s.Models order leaked v) {p : Nat}
    (hat : s.stage = .receiving (some p)) {n : UInt16} {t : UInt8}
    (hreading : s.session.reading = .payload n t) {l rest : List UInt8} {m : Message}
    (hm : s.session.completes (.octets l) = some m) (hp : s.heap p = some (l ++ rest))
    (hsize : l.length + rest.length = n.toNat - 1) (unset : UInt16) :
    Models order { s with
        session := s.session.recv order unset (.octets l)
        stage := .dispatching p m.dispatched } leaked v := by
  obtain ⟨rfl, hlen, hnext⟩ := @completes_eq order _ _ _ _ _ hreading hm
  obtain rfl : rest = [] := List.length_eq_zero_iff.1 (by omega)
  rw [List.append_nil] at hp
  have hsmall : l.length < 65536 := by
    have := n.toNat_lt
    omega
  refine h.ofSession rfl rfl rfl (fun _ _ => rfl) ?_ h.leaked
    ⟨hnext _, fun op hop => ?_, fun body hbody => ?_⟩ h.socket
  · have howns := h.owns
    simpa [held, hat, SessionAt.held] using howns
  · obtain ⟨hvalue, hlength⟩ := dispatch_eq_queue hop
    rw [hvalue, hlength]
    exact ⟨hp, (UInt16.toNat_ofNat_of_lt' hsmall).symm⟩
  · exact dispatch_eq_internal hbody ▸ ⟨hp, hsmall⟩

/-- **A call of `recv`.** -/
theorem Models.receive (h : s.Models order leaked v) {buf : Option Nat}
    (hat : s.stage = .receiving buf) {env : Env κ} (hblock : ∀ p ∈ env.block, s.heap p = none) :
    s.Goes order v (s.receive order env buf) := by
  have hstage := h.stage
  rw [hat] at hstage
  unfold Threads.receive
  dsimp only
  cases hreading : s.session.reading with
  | length =>
    rw [hreading] at hstage
    obtain rfl : buf = none := hstage
    dsimp only
    split
    · rename_i n hnext
      split
      · exact h.moves (by rw [hat]) has_none
      · rename_i p hp
        have hfree : s.heap p = none := by
          split at hp
          · cases hp
          · exact hblock p hp
        refine h.malloc hfree (by rw [hat]; rfl) ?_
        rw [hnext]
        intro q hq
        obtain rfl := Option.some.inj hq
        exact ⟨_, Heap.alloc_self, by rw [List.length_map, List.length_range]⟩
    · refine h.moves rfl ?_
      rw [hat]
      exact has_none
  | commandType n =>
    dsimp only
    split
    · exact (h.abort hat _).quiet rfl rfl
    · rename_i hnext
      refine h.moves rfl ?_
      obtain ⟨t, ht⟩ := (recv_type_cases hreading env.unset env.returned).resolve_left hnext
      rw [hreading] at hstage
      rw [hat, ht]
      exact hstage
  | payload n t =>
    dsimp only
    split
    · rename_i l p hret
      split
      · exact h.quiet rfl rfl
      · rename_i hl
        obtain ⟨heap, rest, hwrite, h', hp, hsize⟩ := h.write hat hreading (Nat.not_lt.1 hl)
        rw [hwrite, Option.elim_some]
        split
        · rename_i m hm
          rw [hret] at hm ⊢
          exact (h'.complete hat hreading hm hp hsize _).quiet rfl rfl
        · exact (h'.abort hat _).quiet rfl rfl
    · exact h.quiet rfl rfl
    · rename_i hret
      exact (h.abort hat _).quiet rfl rfl
    · exact (h.abort hat _).quiet rfl rfl
  | ended =>
    dsimp only
    rw [hreading] at hstage
    obtain rfl : buf = none := hstage
    exact h.moves (by rw [hat]) has_none

/-- A message that is not queued is handled: its buffer is lost, and with it the blocks `kept`. -/
theorem Models.lose (h : s.Models order leaked v) {p : Nat} {x : Dispatch}
    (hat : s.stage = .dispatching p x) (hx : x.queued = false) {heap : Heap Nat UInt8}
    {keys : Keys κ} {stage : SessionAt} {kept : Multiset Nat}
    (hcount : x.keepsKey.toNat + keys.kp.isLive.toNat = s.keys.kp.isLive.toNat + kept.card)
    (howns : heap.Owns (stage.held + kept + (s.held + leaked)))
    (hsame : ∀ q ∈ s.held + leaked, heap q = s.heap q)
    (hhas : stage.Has order s.session.reading heap) :
    s.Goes order v
      (.ok { s with heap := heap, keys := keys, stage := stage, handled := s.handled ++ [x] }) := by
  have howned : stage.held + s.poll.held + Multiset.ofList s.slots.pointers +
      (leaked + {p} + kept) =
      stage.held + kept + (s.held + leaked) := by
    rw [held, hat]
    show _ = _ + _ + ({p} + s.poll.held + _ + leaked)
    abel
  have hlost : (leaked + {p} + kept).card = (s.handled ++ [x]).countP
      (fun x => !x.queued) + s.aborted +
      ((s.handled ++ [x]).countP Dispatch.keepsKey + keys.kp.isLive.toNat) := by
    have hkeeps : List.countP Dispatch.keepsKey [x] = x.keepsKey.toNat := by
      rw [List.countP_singleton]
      cases x.keepsKey <;> rfl
    rw [Multiset.card_add, Multiset.card_add, h.leaked, lost, List.countP_append,
      List.countP_append, List.countP_singleton, hx, hkeeps, Multiset.card_singleton]
    show _ + 1 + _ = _ + 1 + _ + _
    omega
  refine Models.quiet
    (h.ofSession rfl rfl rfl (fun q hq => hsame q ?_) ?_ hlost hhas h.socket) ?_ rfl
  · simp only [held, Multiset.mem_add] at hq ⊢
    tauto
  · rwa [← howned] at howns
  · have hnone : dispatchedOp x = none := by
      cases x with
      | queue op => cases hx
      | internal body => rfl
      | invalid t => rfl
    show List.filterMap dispatchedOp (s.handled ++ [x]) = _
    rw [List.filterMap_append, List.filterMap_cons_none hnone]
    exact List.append_nil _

/-- The octets of a block. -/
theorem octetsAt_block {block : List UInt8} (h : block.length < 65536) :
    octetsAt (fun i => block.getD i 0) 0 (UInt16.ofNat block.length) = block := by
  rw [octetsAt, UInt16.toNat_ofNat_of_lt' h]
  refine List.ext_getElem (by simp) fun i hi hi' => ?_
  simp [hi']

/-- Only `PG_CREATE_KEY_PAIR` assigns to `kp`. -/
theorem kp_handle {c : Crypto κ} {keys keys' : Keys κ} {size : UInt16} {command : UInt8}
    {buffer : List UInt8} {reply : Reply} (hne : command ≠ pgCreateKeyPair)
    (h : handleInternalCommand c keys size (command :: buffer) = some (keys', reply)) :
    keys'.kp = keys.kp := by
  have hkp : ∀ {reads r}, Follows reads keys.kp r → r = some (keys', reply) →
      keys'.kp = keys.kp := by
    intro reads r hfollows hr
    rw [hr] at hfollows
    exact hfollows.1
  rw [handleInternalCommand, if_neg hne] at h
  split at h
  · exact hkp (getPubKey_follows c keys) h
  · split at h
    · exact hkp (deriveSecretCommand_follows c keys buffer) h
    · split at h
      · exact hkp (aesCommand_follows keys _ _ _ buffer) h
      · split at h
        · exact hkp (aesCommand_follows keys _ _ _ buffer) h
        · split at h
          · exact hkp (publicDecrypt_follows c keys buffer) h
          · split at h
            · cases h
              rfl
            · exact hkp (follows_fail keys _) h

/-- A key pair that is made is kept, and one that is not is freed. -/
theorem kept_create {env : Env κ} {keys keys' : Keys κ} {reply : Reply} (buffer : List UInt8)
    (h : createKeyPair env.crypto keys = some (keys', reply)) :
    keys'.kp.isLive.toNat = keys.kp.isLive.toNat +
      ((ownBlock env keys (pgCreateKeyPair :: buffer)).any fun own => !own.2).toNat := by
  unfold createKeyPair at h
  unfold ownBlock
  dsimp only
  rw [if_pos rfl]
  cases hkp : keys.kp with
  | null =>
    rw [hkp] at h
    dsimp only at h ⊢
    cases hg : generateKeyPair env.crypto.keygen with
    | none =>
      rw [hg] at h
      cases h
      rfl
    | some k =>
      rw [hg] at h
      cases h
      rfl
  | live k =>
    rw [hkp] at h
    cases h
    rw [hkp]
    rfl
  | freed =>
    rw [hkp] at h
    cases h

/-- **What becomes of the block that a command allocates**: it is kept if it is a key that is never
used, or the one of a new key pair. -/
theorem kept_handle {env : Env κ} {keys keys' : Keys κ} {size : UInt16} {body : List UInt8}
    {reply : Reply} (h : handleInternalCommand env.crypto keys size body = some (keys', reply)) :
    (Dispatch.internal body).keepsKey.toNat + keys'.kp.isLive.toNat =
      keys.kp.isLive.toNat + ((ownBlock env keys body).any fun own => !own.2).toNat := by
  cases body with
  | nil =>
    cases h
    exact Nat.zero_add _
  | cons command buffer =>
    by_cases hcreate : command = pgCreateKeyPair
    · subst hcreate
      have hkept := kept_create buffer h
      exact (Nat.zero_add _).trans hkept
    · rw [kp_handle hcreate h, Nat.add_comm]
      unfold ownBlock Dispatch.keepsKey
      dsimp only
      rw [if_neg hcreate]
      by_cases hdecrypt : command = pgPublicDecrypt
      · rw [if_pos hdecrypt, decide_eq_true hdecrypt, Bool.true_and]
      · rw [if_neg hdecrypt, decide_eq_false hdecrypt]
        rfl

/-- **`handleInternalCommand`** uses its own block and that of the message, which is lost. -/
theorem Models.handle (h : s.Models order leaked v) {p : Nat} {body : List UInt8}
    (hat : s.stage = .dispatching p (.internal body)) (hsmall : body.length < 65536)
    (hreading : s.session.reading = .length) {env : Env κ}
    (hblock : ∀ p ∈ env.block, s.heap p = none) :
    s.Goes order v (Threads.handle env body { s with
      handled := s.handled ++ [.internal body] }) := by
  unfold Threads.handle
  dsimp only
  rw [readInternalCommand_value, octetsAt_block hsmall]
  split
  · split
    · exact .of_error (fun hf => by cases hf)
    · rename_i keys reply hvalue
      have hkept := kept_handle hvalue
      split
      · rename_i hown
        rw [hown] at hkept
        refine @Models.lose _ _ _ _ _ h p _ hat rfl s.heap keys (.reporting reply) 0 hkept ?_
          (fun _ _ => rfl) hreading
        simpa [SessionAt.held] using h.owns
      · rename_i octets freed hown
        split
        · exact .of_error (fun hf => by cases hf)
        · rename_i own hown'
          split
          · exact .of_error (fun hf => by cases hf)
          · have hfree := hblock own hown'
            have howns := @Heap.Owns.alloc _ _ _ _ _ _ octets h.owns hfree
            have hsame : ∀ q ∈ s.held + leaked, s.heap.alloc own octets q = s.heap q := fun q hq =>
              h.owns.alloc_of_mem hfree hq
            rw [hown] at hkept
            cases freed with
            | true =>
              exact @Models.lose _ _ _ _ _ h p _ hat rfl _ keys (.releasing own reply) 0 hkept
                (by simpa [SessionAt.held] using howns) hsame hreading
            | false =>
              exact @Models.lose _ _ _ _ _ h p _ hat rfl _ keys (.reporting reply) {own} hkept
                (by simpa [SessionAt.held] using howns) hsame hreading
  · exact .of_error (fun hf => by cases hf)

/-- **The branches on the type**: the queue takes over the buffer of an op, and nobody that of
any other message. -/
theorem Models.dispatch (h : s.Models order leaked v) {p : Nat} {x : Dispatch}
    (hat : s.stage = .dispatching p x) {env : Env κ} (hblock : ∀ p ∈ env.block, s.heap p = none) :
    s.Goes order v (s.dispatch p x env) := by
  have hstage := h.stage
  rw [hat] at hstage
  obtain ⟨hreading, hqueued, hinternal⟩ := hstage
  have howned := held_eq_cons (show s.stage.held = {p} by rw [hat]; rfl) leaked
  have howns := h.owns
  rw [howned] at howns
  cases x with
  | queue op =>
    obtain ⟨hp, hcounted⟩ := hqueued op rfl
    unfold Threads.dispatch
    dsimp only
    split
    · exact h.quiet rfl rfl
    · rename_i hlock
      split
      · rename_i hroom
        have hcall : v.call (.queueHciOp op) =
            some (.done, { v with queue := queueHciOp op v.queue }) := by
          rw [Shared.call, h.stands.tail, if_pos hroom]
        refine .of_ok ⟨[.queueHciOp op], [.done], _, leaked, by rw [Shared.run, hcall]; rfl, ?_, ?_,
          (List.append_nil _).symm⟩
        · refine ⟨?_, ?_, has_none, ?_, h.stands.push hp hcounted, h.socket⟩
          · rw [held, Slots.pointers_push h.stands.head_le, ← Multiset.coe_add]
            convert howns using 1
            rw [← Multiset.singleton_add]
            show 0 + _ + (_ + {p}) + leaked = _
            abel
          · rw [h.leaked, lost, lost, List.countP_append, List.countP_append]
            rfl
          · have hpoll := h.poll
            unfold PollHas at hpoll ⊢
            cases hat' : s.poll with
            | copied => exact absurd hat' hlock
            | _ =>
              rw [hat'] at hpoll
              exact hpoll
        · show List.filterMap dispatchedOp (s.handled ++ [_]) = _
          rw [List.filterMap_append]
          rfl
      · exact .of_error (fun hf => by cases hf)
  | internal body =>
    obtain ⟨hp, hsmall⟩ := hinternal body rfl
    unfold Threads.dispatch
    dsimp only
    split
    · exact h.quiet rfl rfl
    · rw [hp, Option.elim_some]
      exact h.handle hat hsmall hreading hblock
  | invalid t =>
    refine @Models.lose _ _ _ _ _ h p _ hat rfl s.heap s.keys (.receiving none) 0
      (Nat.zero_add _) ?_ (fun _ _ => rfl) has_none
    simpa [SessionAt.held] using h.owns

/-- The session thread frees its only block. -/
theorem Models.frees (h : s.Models order leaked v) {p : Nat} {next : SessionAt}
    (hheld : s.stage.held = {p}) (hnext : next.held = 0)
    (hhas : ∀ heap, next.Has order s.session.reading heap) :
    s.Goes order v ((s.heap.free p).elim (.error .heap) fun heap =>
      .ok { s with heap := heap, stage := next }) := by
  have howns := h.owns
  rw [held_eq_cons hheld leaked] at howns
  obtain ⟨heap, hfree, howns', hsame⟩ := howns.free
  rw [hfree, Option.elim_some]
  refine Models.quiet
    (h.ofSession rfl rfl rfl (fun q hq => hsame q ?_) ?_ h.leaked (hhas heap) h.socket) rfl rfl
  · exact Multiset.mem_add.2 (Or.inl hq)
  · simpa [held, hnext] using howns'

/-- **A step of the session thread.** -/
theorem Models.sessionStep (h : s.Models order leaked v) {env : Env κ}
    (hblock : ∀ p ∈ env.block, s.heap p = none) :
    s.Goes order v (s.sessionStep order env) := by
  have hstage := h.stage
  unfold Threads.sessionStep
  cases hat : s.stage with
  | receiving buf => exact h.receive hat hblock
  | dispatching p x => exact h.dispatch hat hblock
  | releasing own r =>
    rw [hat] at hstage
    exact h.frees (by rw [hat]; rfl) rfl fun _ => hstage
  | reporting r =>
    rw [hat] at hstage
    dsimp only
    split
    · exact h.moves (by rw [hat]; rfl) has_none
    · rename_i p hp
      exact h.malloc (hblock p hp) (by rw [hat]; rfl) ⟨hstage, Heap.alloc_self⟩
  | sending p r =>
    rw [hat] at hstage
    obtain ⟨hreading, hp⟩ := hstage
    dsimp only
    split
    · exact .of_error (fun hf => by cases hf)
    · rename_i d hd
      rw [Heap.read, hp, Option.bind_some, if_pos (length_reportStatus r), Option.elim_some]
      have hframe : hciBridgeSend order { reportStatus r with
          data := (reportStatus r).data.take (reportStatus r).length.toNat } =
          hciBridgeSend order (reportStatus r) := by
        unfold hciBridgeSend
        rw [List.take_take, Nat.min_self]
      rw [hframe]
      exact h.malloc (hblock d hd) (by rw [hat]; rfl) ⟨hreading, Heap.alloc_self⟩
  | sent p d r =>
    rw [hat] at hstage
    obtain ⟨hreading, hd⟩ := hstage
    have howned : s.held + leaked =
        d ::ₘ ({p} + s.poll.held + Multiset.ofList s.slots.pointers + leaked) := by
      rw [held, hat, SessionAt.held, Multiset.cons_add, Multiset.cons_add, Multiset.cons_add]
    have howns := h.owns
    rw [howned] at howns
    obtain ⟨heap, hflush, howns', hsame⟩ :=
      @flush_eq _ order { s with stage := .reported p } d _ _ howns hd (length_reportStatus r)
    dsimp only
    rw [hflush]
    refine Models.quiet (h.ofSession rfl rfl rfl (fun q hq => hsame q ?_) howns' h.leaked hreading
      (flatMap_concat h.socket _)) rfl rfl
    simp only [Multiset.mem_add] at hq ⊢
    tauto
  | reported p =>
    exact h.frees (by rw [hat]; rfl) rfl fun _ => has_none

/-! ### The poll thread -/

/-- A step of the poll thread with its own blocks. -/
theorem Models.ofPoll (h : s.Models order leaked v) (hstage : s'.stage = s.stage)
    (hsession : s'.session = s.session) (hslots : s'.slots = s.slots)
    (hsame : ∀ p ∈ s.stage.held + Multiset.ofList s.slots.pointers, s'.heap p = s.heap p)
    (howns : s'.heap.Owns (s'.held + leaked)) (hlost : s'.lost = s.lost)
    (hpoll : s'.PollHas order v) (hsocket : s'.socket = s'.calls.flatMap (hciBridgeSend order)) :
    s'.Models order leaked v where
  owns := howns
  leaked := h.leaked.trans hlost.symm
  stage := by
    rw [hstage, hsession]
    exact h.stage.congr fun p hp => hsame p (Multiset.mem_add.2 (Or.inl hp))
  poll := hpoll
  stands := by
    rw [hslots]
    exact h.stands.congr fun p hp => hsame p (Multiset.mem_add.2 (Or.inr hp))
  socket := hsocket

/-- The op at the head of the queue. -/
theorem Models.head (h : s.Models order leaked v) (hlt : s.slots.queueHead < s.slots.queueTail) :
    s.heap (s.slots.dataQueue s.slots.queueHead) = some (v.queue.dataQueue v.queue.queueHead) ∧
      s.slots.lengthQueue s.slots.queueHead = v.queue.lengthQueue v.queue.queueHead ∧
      s.slots.channelQueue s.slots.queueHead = v.queue.channelQueue v.queue.queueHead ∧
      (v.queue.dataQueue v.queue.queueHead).length =
      (v.queue.lengthQueue v.queue.queueHead).toNat := by
  rw [h.stands.head]
  exact h.stands.entry _ (Nat.le_refl _) hlt

/-- **The `memcpy`** of a dequeue reads a live block to its end. -/
theorem Models.copy (h : s.Models order leaked v) (hat : s.poll = .idle) :
    s.Goes order v s.copy := by
  have hpoll := h.poll
  unfold PollHas at hpoll
  rw [hat] at hpoll
  unfold Threads.copy
  split
  · rename_i hlt
    obtain ⟨hdata, hlength, -, hcounted⟩ := h.head hlt
    have hread := Heap.read_all hdata
    rw [hcounted, ← hlength] at hread
    rw [hread, Option.elim_some]
    cases hcopy : memcpy s.sendBuffer (v.queue.dataQueue v.queue.queueHead) with
    | none => exact .of_error (fun hf => by cases hf)
    | some buffer =>
      refine Models.quiet (h.ofPoll rfl rfl rfl (fun _ _ => rfl) ?_ rfl ⟨hlt, ?_⟩ h.socket) rfl rfl
      · simpa [held, hat, PollAt.held] using h.owns
      · rw [← hpoll]
        exact hcopy
  · exact h.quiet rfl rfl

/-- **The `free`** of a dequeue frees the block at the head of the queue, and the packet is the
op that was queued. -/
theorem Models.release (h : s.Models order leaked v) (hat : s.poll = .copied) :
    s.Goes order v s.release := by
  have hpoll := h.poll
  unfold PollHas at hpoll
  rw [hat] at hpoll
  obtain ⟨hlt, hcopy⟩ := hpoll
  obtain ⟨hdata, hlength, hchannel, hcounted⟩ := h.head hlt
  have howned : s.held + leaked = s.slots.dataQueue s.slots.queueHead ::ₘ
      (s.stage.held + Multiset.ofList s.slots.dropHead.pointers + leaked) := by
    rw [held, hat, Slots.pointers_of_lt hlt, ← Multiset.cons_coe, ← Multiset.singleton_add,
      ← Multiset.singleton_add]
    show _ + 0 + _ + _ = _
    abel
  have howns := h.owns
  rw [howned] at howns
  obtain ⟨heap, hfree, howns', hsame⟩ := howns.free
  have htake : (v.queue.dataQueue v.queue.queueHead).take
      (v.queue.lengthQueue v.queue.queueHead).toNat =
      v.queue.dataQueue v.queue.queueHead := List.take_of_length_le (Nat.le_of_eq hcounted)
  have hcall : v.call .dequeueIntoSendPacket =
      some (.handed (some s.copiedPacket), ⟨HciQueue.dropHead v.queue, s.sendBuffer⟩) := by
    have hdeq : HciQueue.dequeueIntoSendPacket v.queue =
        (some (headPacket v.queue), HciQueue.dropHead v.queue) := by
      rw [HciQueue.dequeueIntoSendPacket, h.stands.head, h.stands.tail, if_pos hlt]
    have hpacket :
        { headPacket v.queue with payload := s.sendBuffer.take (headPacket v.queue).length.toNat } =
        s.copiedPacket := by
      unfold headPacket copiedPacket
      rw [hlength, hchannel]
    simp only [Shared.call, hdeq]
    show (memcpy v.sendBuffer (List.take _ _)).map _ = _
    rw [htake, hcopy, Option.map_some, hpacket]
  unfold Threads.release
  rw [hfree, Option.elim_some]
  refine .of_ok ⟨[.dequeueIntoSendPacket], [.handed (some s.copiedPacket)], _, leaked,
    by rw [Shared.run, hcall]; rfl, ?_, (List.append_nil _).symm, rfl⟩
  refine ⟨?_, h.leaked, ?_, rfl, ?_, h.socket⟩
  · convert howns' using 2
    show _ + 0 + _ = _
    rw [add_zero]
  · refine h.stage.congr fun p hp => hsame p ?_
    simp only [Multiset.mem_add]
    tauto
  · refine (h.stands.dropHead hlt).congr fun p hp => hsame p ?_
    simp only [Multiset.mem_add]
    tauto

/-- **Every step** keeps the blocks of the threads apart, and none of them fails on the heap. -/
theorem Models.step (h : s.Models order leaked v) (t : ThreadStep κ) :
    s.Goes order v (s.step order t) := by
  have hpoll := h.poll
  unfold PollHas at hpoll
  cases t with
  | session env =>
    unfold Threads.step
    dsimp only
    split
    · exact h.sessionStep ‹_›
    · exact h.quiet rfl rfl
  | dequeue =>
    unfold Threads.step
    dsimp only
    cases hat : s.poll with
    | idle => exact h.copy hat
    | copied => exact h.release hat
    | sent d call =>
      rw [hat] at hpoll
      obtain ⟨hbuffer, hwhole, hd⟩ := hpoll
      have howned :
          s.held + leaked = d ::ₘ (s.stage.held + Multiset.ofList s.slots.pointers + leaked) := by
        rw [held, hat, ← Multiset.singleton_add]
        show _ + {d} + _ + _ = _
        abel
      have howns := h.owns
      rw [howned] at howns
      obtain ⟨heap, hflush, howns', hsame⟩ :=
        @flush_eq _ order { s with poll := .idle } d _ _ howns hd (Nat.le_of_eq hwhole.symm)
      dsimp only
      rw [hflush]
      refine Models.quiet (h.ofPoll rfl rfl rfl (fun q hq => hsame q ?_) ?_ rfl hbuffer
        (flatMap_concat h.socket _)) rfl rfl
      · exact Multiset.mem_add.2 (Or.inl hq)
      · convert howns' using 2
        show _ + 0 + _ = _
        rw [add_zero]
  | bridgeSend call block =>
    unfold Threads.step
    dsimp only
    split
    · exact .of_error (fun hf => by cases hf)
    · rename_i d hat
      split
      · rename_i hd
        rw [hat] at hpoll
        refine Models.quiet (h.ofPoll rfl rfl rfl (fun q hq => h.owns.alloc_of_mem hd.1 ?_) ?_ rfl
          ⟨hpoll, hd.2, Heap.alloc_self⟩ h.socket) rfl rfl
        · simp only [held, Multiset.mem_add] at hq ⊢
          tauto
        · have howns := @Heap.Owns.alloc _ _ _ _ _ _ (hciBridgeSend order call) h.owns hd.1
          convert howns using 1
          rw [held, held, hat, ← Multiset.singleton_add]
          show s.stage.held + ({d} : Multiset Nat) + _ + leaked =
              {d} + (s.stage.held + 0 + _ + leaked)
          abel
      · exact h.quiet rfl rfl
    · exact h.quiet rfl rfl

theorem start_models : (start : Threads κ).Models order 0 .zero where
  owns := Heap.owns_empty
  leaked := rfl
  stage := rfl
  poll := rfl
  stands := ⟨rfl, rfl, Nat.le_refl _, fun i _ hi => absurd hi (Nat.not_lt_zero i)⟩
  socket := rfl

theorem run_cons (t : ThreadStep κ) (ts : List (ThreadStep κ)) :
    s.run order (t :: ts) = (s.step order t).bind fun s' => s'.run order ts := List.foldlM_cons

/-- **Every run** goes on like that. -/
theorem Models.run (h : s.Models order leaked v) (ts : List (ThreadStep κ)) :
    s.Goes order v (s.run order ts) := by
  induction ts generalizing s leaked v with
  | nil => exact h.quiet rfl rfl
  | cons t ts ih =>
    obtain ⟨hsound, hgoes⟩ := h.step t
    rw [run_cons]
    cases hstep : s.step order t with
    | error f => exact .of_error fun hf => hsound (by rw [hstep, hf])
    | ok s₁ =>
      obtain ⟨cs, answers, v₁, leaked₁, hrun, h₁, hops, hover⟩ := hgoes s₁ hstep
      obtain ⟨hsound', hgoes'⟩ := ih h₁
      refine ⟨hsound', fun s₂ hs₂ => ?_⟩
      obtain ⟨cs', answers', v₂, leaked₂, hrun', h₂, hops', hover'⟩ := hgoes' s₂ hs₂
      refine ⟨cs ++ cs', answers ++ answers', v₂, leaked₂, Shared.run_append hrun hrun', h₂, ?_, ?_⟩
      · rw [hops', hops, enqueued_append, List.append_assoc]
      · rw [hover', hover, List.append_assoc]
        exact congrArg _ List.filterMap_append.symm

end Threads

/-! ## The results -/

/-- The blocks are accounted for: no thread has failed on the heap but for an internal command,
every live block either belongs to one of the threads or the queue or nobody will free it, and of
the latter there are `lost`. -/
def Accounted : Except Fault (Threads κ) → Prop
  | .error f => f ≠ .heap
  | .ok s => ∃ leaked : Multiset Nat, s.heap.Owns (s.held + leaked) ∧ leaked.card = s.lost

/-- **The blocks are accounted for in every run** of the two threads, whatever they receive,
whatever addresses `malloc` returns, however the library calls come out and in whatever order the
threads take their steps.  As long as no internal command reads beyond its message or the copied key
or a key pair that is not there, no block is used or freed that is not live, and none is used beyond
its end.  What nobody will free is one block for each message that is not queued and each session
that ends with a buffer, one for each key that is copied and not used, and the one of the key
pair. -/
theorem run_accounted (order : HostOrder) (steps : List (ThreadStep κ)) :
    Accounted (Threads.start.run order steps) := by
  obtain ⟨hsound, hgoes⟩ := (@Threads.start_models κ order).run steps
  cases hrun : Threads.start.run order steps with
  | error f => exact fun hf => hsound (by rw [hrun, hf])
  | ok s =>
    obtain ⟨_, _, _, leaked, -, h, -, -⟩ := hgoes s hrun
    exact ⟨leaked, h.owns, h.leaked⟩

/-- What the threads have done is what they do if every pointer is the octets it points to:
the queue has taken calls that give the same packets, and each `send` got the whole frame. -/
structure Refines (order : HostOrder) (s : Threads κ) : Prop where
  queue : ∃ calls answers v, Shared.zero.run calls = some (answers, v) ∧ enqueued calls = s.ops ∧
    handed answers = s.handedOver
  socket : s.socket = s.calls.flatMap (hciBridgeSend order)

/-- **The pointers can be taken for what they point to**: in a run without a fault, no buffer is
overwritten or freed between the time when the session thread fills it and the time when the poll
thread copies it, nor a frame before it is sent. -/
theorem run_refines {order : HostOrder} {steps : List (ThreadStep κ)} {s : Threads κ}
    (h : Threads.start.run order steps = .ok s) : Refines order s := by
  obtain ⟨-, hgoes⟩ := (@Threads.start_models κ order).run steps
  obtain ⟨calls, answers, v, leaked, hrun, hmodels, hops, hover⟩ := hgoes s h
  exact ⟨⟨calls, answers, v, hrun, hops.symm, hover.symm⟩, hmodels.socket⟩

end

/-! ### Blocks that are reused and lost -/

/-- A library in which every call fails. -/
def failing : Crypto Unit where
  keygen := ⟨false, false, false, false, false, false, none, none⟩
  derive _ _ := ⟨false, false, false, false, false, false, none⟩
  encrypt _ _ := ⟨false, false, ⟨false, []⟩, ⟨false, []⟩⟩
  decrypt _ _ := ⟨false, false, ⟨false, []⟩, ⟨false, []⟩⟩
  rsa _ _ := ⟨false, none⟩

/-- The steps in which the session thread reads a message into a block at 7. -/
def readsAtSeven (commandType : UInt8) (payload : List UInt8) : List (ThreadStep Unit) :=
  let length := HostOrder.littleEndian.octets (UInt16.ofNat (payload.length + 1))
  [(length, some 7), ([commandType], none), (payload, none), ([], some 8)].map fun (l, block) =>
    .session ⟨.octets l, 0, block, fun _ => 0xEE, failing⟩

/-- Two ops, the second in the block that has been freed for the first one. -/
def reusingSteps : List (ThreadStep Unit) :=
  readsAtSeven hciCommand [0x03, 0x0C, 0x00] ++ [.dequeue, .dequeue] ++
    readsAtSeven hciCommand [0x09, 0x10, 0x00] ++ [.dequeue, .dequeue]

theorem run_refines_reused : ∃ s, Threads.start.run .littleEndian reusingSteps = .ok s ∧
    s.handedOver = [⟨5, 1, 3, [0x03, 0x0C, 0x00]⟩, ⟨5, 1, 3, [0x09, 0x10, 0x00]⟩] ∧
      Refines .littleEndian s := by
  have hover : (Threads.start.run .littleEndian reusingSteps).map Threads.handedOver =
      .ok [⟨5, 1, 3, [0x03, 0x0C, 0x00]⟩, ⟨5, 1, 3, [0x09, 0x10, 0x00]⟩] := by decide +kernel
  cases hrun : Threads.start.run .littleEndian reusingSteps with
  | error f =>
    rw [hrun] at hover
    cases hover
  | ok s =>
    rw [hrun] at hover
    exact ⟨s, rfl, Except.ok.inj hover, run_refines hrun⟩

/-- A `PG_PUBLIC_DECRYPT` without data after its key: the buffer of the message and that of the key
are lost. -/
example : (Threads.start.run .littleEndian (readsAtSeven playgroundInternalCommand
    [0x06, 0x00, 0x00, 0x00, 0x01, 0x78, 0x61])).map Threads.lost = .ok 2 := by decide +kernel

/-- A `PG_DERIVE_SECRET` that states a longer key than it holds. -/
example : (Threads.start.run .littleEndian (readsAtSeven playgroundInternalCommand
    [0x03, 0xFF, 0xFF])).map Threads.lost = .error .command := by decide +kernel

end OpenwrtFeed.HciBridge
