import OpenwrtFeed.HciQueue

/-! # The session with the client

`session` of `hci_bridge.c` reads messages from a TCP socket: a length of two octets in
the byte order of the host, an octet for the type, and a payload.  Each part is one call
of `recv`, and a call that returns fewer octets than it asked for ends the session.  So
the session dispatches the messages up to the first one that TCP cuts inside its length
or its payload, and no more (`session_dispatches`).
-/
namespace OpenwrtFeed.HciBridge
open HciQueue

/-! ## Constants of `hci_bridge.h` -/

def hciCommand : UInt8 := 0x01
def hciData : UInt8 := 0x02
def hciEvent : UInt8 := 0x04
def playgroundInternalCommand : UInt8 := 0x08
def playgroundTimeout : UInt8 := 0x10

/-- A call of `hci_bridge_send`. -/
structure BridgeSend where
  commandType : UInt8
  data : List UInt8
  length : UInt16
deriving DecidableEq

/-! ## The session -/

/-- The byte order of the host. -/
inductive HostOrder
  | littleEndian
  | bigEndian
deriving DecidableEq

/-- The number in two octets of memory. -/
def HostOrder.number : HostOrder → UInt8 → UInt8 → UInt16
  | .littleEndian, a, b => a.toUInt16 ||| (b.toUInt16 <<< 8)
  | .bigEndian, a, b => (a.toUInt16 <<< 8) ||| b.toUInt16

/-- The two octets of a number in memory. -/
def HostOrder.octets : HostOrder → UInt16 → List UInt8
  | .littleEndian, n => [n.toUInt8, (n >>> 8).toUInt8]
  | .bigEndian, n => [(n >>> 8).toUInt8, n.toUInt8]

/-- What a call of `recv` returns: -1, or the octets received. -/
inductive Recv
  | error
  | octets (l : List UInt8)
deriving DecidableEq

/-- The call of `recv` that the loop of `session` is at. -/
inductive Reading
  | length
  | commandType (length : UInt16)
  | payload (length : UInt16) (commandType : UInt8)
  | ended
deriving DecidableEq

/-- What `session` does with a message. -/
inductive Dispatch
  | queue (op : Op)
  | internal (buffer : List UInt8)
  | invalid (commandType : UInt8)
deriving DecidableEq

/-- The branches on the command type. -/
def dispatch (commandType : UInt8) (buf : List UInt8) : Dispatch :=
  if commandType = hciCommand then .queue ⟨buf, UInt16.ofNat buf.length, 5⟩
  else if commandType = hciData then .queue ⟨buf, UInt16.ofNat buf.length, 6⟩
  else if commandType = hciEvent then .queue ⟨buf, UInt16.ofNat buf.length, 5⟩
  else if commandType = playgroundInternalCommand then .internal buf
  else .invalid commandType

/-- The op that is queued, if one is. -/
def dispatchedOp : Dispatch → Option Op
  | .queue op => some op
  | .internal _ => none
  | .invalid _ => none

/-- `session`, between two calls of `recv`: the next call, and what has been dispatched. -/
structure Session where
  reading : Reading
  dispatched : List Dispatch
deriving DecidableEq

/-- The session before its first message. -/
def Session.start : Session := ⟨.length, []⟩

namespace Session

/-- The number of octets the next call of `recv` asks for. -/
def requested (s : Session) : Nat :=
  match s.reading with
  | .length => 2
  | .commandType _ => 1
  | .payload length _ => length.toNat - 1
  | .ended => 0

/-- The check on the length. -/
def gotLength (length : UInt16) (s : Session) : Session :=
  if 4096 < length then { s with reading := .ended } else { s with reading := .commandType length }

/-- One call of `recv`.  When it fails, the check on the length compares -1 with the size
of the variable as an unsigned number and lets it pass; `unset` is what the variable then
holds. -/
def recv (order : HostOrder) (unset : UInt16) (r : Recv) (s : Session) : Session :=
  match s.reading, r with
  | .length, .error => s.gotLength unset
  | .length, .octets l =>
    if l.length < 2 then { s with reading := .ended }
    else s.gotLength (order.number (l.getD 0 0) (l.getD 1 0))
  | .commandType _, .error => { s with reading := .ended }
  | .commandType length, .octets l =>
    if l.length = 0 then { s with reading := .ended }
    else { s with reading := .payload length (l.getD 0 0) }
  | .payload _ _, .error => { s with reading := .ended }
  | .payload length commandType, .octets l =>
    if l.length = 0 ∨ (l.length : Int) ≠ (length.toNat : Int) - 1 then { s with reading := .ended }
    else ⟨.length, s.dispatched ++ [dispatch commandType l]⟩
  | .ended, _ => s

/-- A sequence of calls. -/
def run (order : HostOrder) (unset : UInt16) (rs : List Recv) (s : Session) : Session :=
  rs.foldl (fun s r => s.recv order unset r) s

end Session

/-! ## A stream and how it is cut -/

/-- A message of the client. -/
structure Message where
  commandType : UInt8
  payload : List UInt8
deriving DecidableEq

namespace Message

/-- The length that is sent: the type and the payload. -/
def length (m : Message) : Nat := m.payload.length + 1

/-- A message with a payload, of at most 4096 octets. -/
structure Fits (m : Message) : Prop where
  nonempty : 2 ≤ m.length
  bound : m.length ≤ 4096

instance (m : Message) : Decidable m.Fits :=
  decidable_of_iff (2 ≤ m.length ∧ m.length ≤ 4096) ⟨fun h => ⟨h.1, h.2⟩, fun h => ⟨h.1, h.2⟩⟩

/-- The octets of a message on the socket. -/
def wire (order : HostOrder) (m : Message) : List UInt8 :=
  order.octets (UInt16.ofNat m.length) ++ m.commandType :: m.payload

/-- What `session` does with the message. -/
def dispatched (m : Message) : Dispatch := dispatch m.commandType m.payload

/-- The octets that the calls of `recv` return for a message that is not cut. -/
def whole (m : Message) : List Nat := [2, 1, m.payload.length]

end Message

/-- The calls of `recv` when the stream is cut after each of the given numbers of octets. -/
def recvs : List Nat → List UInt8 → List Recv
  | [], _ => []
  | c :: cs, stream => .octets (stream.take c) :: recvs cs (stream.drop c)

/-- The numbers are a way in which TCP may cut the stream: each call of `recv` returns at
least one octet and at most as many as it asks for and as there are, until the stream is
used up or the session has ended. -/
def Cuts (order : HostOrder) (unset : UInt16) : List Nat → List UInt8 → Session → Prop
  | [], stream, s => stream = [] ∨ s.reading = .ended
  | c :: cs, stream, s =>
    s.reading ≠ .ended ∧ 1 ≤ c ∧ c ≤ s.requested ∧ c ≤ stream.length ∧
      Cuts order unset cs (stream.drop c) (s.recv order unset (.octets (stream.take c)))

instance (order : HostOrder) (unset : UInt16) :
    ∀ cs stream s, Decidable (Cuts order unset cs stream s)
  | [], _, _ => inferInstanceAs (Decidable (_ ∨ _))
  | c :: cs, stream, s =>
    have := instDecidableCuts order unset cs (stream.drop c)
      (s.recv order unset (.octets (stream.take c)))
    inferInstanceAs (Decidable (_ ∧ _))

/-- The messages that arrive before a length or a payload is cut. -/
def received : List Message → List Nat → List Message
  | m :: ms, 2 :: 1 :: n :: cs => if n = m.payload.length then m :: received ms cs else []
  | _, _ => []

/-! ## What is dispatched -/

theorem HostOrder.number_octets (order : HostOrder) (n : UInt16) :
    order.number ((order.octets n).getD 0 0) ((order.octets n).getD 1 0) = n := by
  have hor : n.toUInt8.toUInt16 ||| ((n >>> 8).toUInt8.toUInt16 <<< 8) = n := by
    apply UInt16.toNat_inj.1
    have hlt := n.toNat_lt
    have hsum := Nat.shiftLeft_add_eq_or_of_lt (a := n.toNat / 256) (i := 8)
      (b := n.toNat % 256) (by omega)
    rw [UInt16.toNat_or, UInt8.toNat_toUInt16, UInt16.toNat_toUInt8, UInt16.toNat_shiftLeft,
      UInt8.toNat_toUInt16, UInt16.toNat_toUInt8, UInt16.toNat_shiftRight]
    simp only [UInt16.reduceToNat, Nat.reduceMod, Nat.shiftRight_eq_div_pow, Nat.reducePow]
    have hsmall : (n.toNat / 256 % 256) <<< 8 % 65536 = (n.toNat / 256) <<< 8 := by
      simp only [Nat.shiftLeft_eq]
      omega
    rw [hsmall, Nat.or_comm, ← hsum, Nat.shiftLeft_eq]
    omega
  cases order with
  | littleEndian => exact hor
  | bigEndian => exact (UInt16.or_comm _ _).trans hor

theorem length_octets (order : HostOrder) (n : UInt16) : (order.octets n).length = 2 := by
  cases order <;> rfl

theorem Message.Fits.toNat_length {m : Message} (h : m.Fits) :
    (UInt16.ofNat m.length).toNat = m.length := by
  have hbound := h.bound
  exact UInt16.toNat_ofNat_of_lt' (Nat.lt_of_le_of_lt hbound (by decide))

namespace Session
variable {order : HostOrder} {unset : UInt16} {m : Message} {s : Session}

theorem run_cons (order : HostOrder) (unset : UInt16) (r : Recv) (rs : List Recv) (s : Session) :
    s.run order unset (r :: rs) = (s.recv order unset r).run order unset rs := rfl

/-- The length of a message that fits is accepted. -/
theorem recv_length (hs : s.reading = .length) (hm : m.Fits) :
    s.recv order unset (.octets (order.octets (UInt16.ofNat m.length))) =
      { s with reading := .commandType (UInt16.ofNat m.length) } := by
  have hlt : ¬ 4096 < UInt16.ofNat m.length := by
    rw [UInt16.lt_iff_toNat_lt, hm.toNat_length]
    exact Nat.not_lt.2 hm.bound
  unfold recv
  simp only [hs]
  rw [if_neg (by rw [length_octets]; omega), HostOrder.number_octets, gotLength, if_neg hlt]

/-- A length cut short ends the session. -/
theorem recv_length_short (hs : s.reading = .length) {l : List UInt8} (hl : l.length < 2) :
    s.recv order unset (.octets l) = { s with reading := .ended } := by
  unfold recv
  simp only [hs]
  rw [if_pos hl]

theorem recv_commandType {length : UInt16} (hs : s.reading = .commandType length) (x : UInt8) :
    s.recv order unset (.octets [x]) = { s with reading := .payload length x } := by
  unfold recv
  simp only [hs]
  rfl

/-- The whole payload is dispatched. -/
theorem recv_payload (hs : s.reading = .payload (UInt16.ofNat m.length) m.commandType)
    (hm : m.Fits) :
    s.recv order unset (.octets m.payload) = ⟨.length, s.dispatched ++ [m.dispatched]⟩ := by
  have hlen : m.length = m.payload.length + 1 := rfl
  have hne := hm.nonempty
  unfold recv
  simp only [hs]
  rw [if_neg (by rw [hm.toNat_length]; omega)]
  rfl

/-- A payload cut short ends the session. -/
theorem recv_payload_short (hs : s.reading = .payload (UInt16.ofNat m.length) m.commandType)
    (hm : m.Fits) {l : List UInt8} (hl : l.length ≠ m.payload.length) :
    s.recv order unset (.octets l) = { s with reading := .ended } := by
  have hlen : m.length = m.payload.length + 1 := rfl
  unfold recv
  simp only [hs]
  rw [if_pos (by rw [hm.toNat_length]; omega)]

/-- Nothing follows the end of a session. -/
theorem cuts_ended {cs : List Nat} {stream : List UInt8} (hs : s.reading = .ended)
    (h : Cuts order unset cs stream s) : cs = [] := by
  cases cs with
  | nil => rfl
  | cons c cs => exact absurd hs h.1

/-- The type is one octet, and cannot be cut. -/
theorem cuts_commandType {length : UInt16} (hs : s.reading = .commandType length) {cs : List Nat}
    {x : UInt8} {stream : List UInt8} (hcuts : Cuts order unset cs (x :: stream) s) :
    ∃ cs', cs = 1 :: cs' ∧ Cuts order unset cs' stream { s with reading := .payload length x } ∧
      s.run order unset (recvs cs (x :: stream)) =
        run order unset (recvs cs' stream) { s with reading := .payload length x } := by
  cases cs with
  | nil =>
    rcases hcuts with h | h
    · cases h
    · rw [hs] at h
      cases h
  | cons c cs =>
    obtain ⟨-, h1, hreq, -, hcuts⟩ := hcuts
    simp only [requested, hs] at hreq
    obtain rfl : c = 1 := Nat.le_antisymm hreq h1
    rw [recvs, run_cons]
    simp only [List.take_succ_cons, List.take_zero, List.drop_succ_cons, List.drop_zero] at hcuts ⊢
    rw [recv_commandType hs] at hcuts ⊢
    exact ⟨cs, rfl, hcuts, rfl⟩

/-- The payload is dispatched when it is not cut, and otherwise the session ends. -/
theorem cuts_payload (hs : s.reading = .payload (UInt16.ofNat m.length) m.commandType) (hm : m.Fits)
    {cs : List Nat} {rest : List UInt8} (hcuts : Cuts order unset cs (m.payload ++ rest) s) :
    (∃ cs', cs = m.payload.length :: cs' ∧
      Cuts order unset cs' rest ⟨.length, s.dispatched ++ [m.dispatched]⟩ ∧
      s.run order unset (recvs cs (m.payload ++ rest)) =
        run order unset (recvs cs' rest) ⟨.length, s.dispatched ++ [m.dispatched]⟩) ∨
    ((∃ n, n ≠ m.payload.length ∧ cs = [n]) ∧
      s.run order unset (recvs cs (m.payload ++ rest)) = { s with reading := .ended }) := by
  cases cs with
  | nil =>
    have hne := hm.nonempty
    have hlen : m.length = m.payload.length + 1 := rfl
    rcases hcuts with h | h
    · have := congrArg List.length h
      rw [List.length_append, List.length_nil] at this
      omega
    · rw [hs] at h
      cases h
  | cons n cs =>
    obtain ⟨-, -, -, hle, hcuts⟩ := hcuts
    rw [recvs, run_cons]
    by_cases hn : n = m.payload.length
    · subst hn
      rw [List.take_left, List.drop_left, recv_payload hs hm] at hcuts
      rw [List.take_left, List.drop_left, recv_payload hs hm]
      exact Or.inl ⟨cs, rfl, hcuts, rfl⟩
    · have htake : ((m.payload ++ rest).take n).length ≠ m.payload.length := by
        rw [List.length_take, Nat.min_eq_left hle]
        exact hn
      rw [recv_payload_short hs hm htake] at hcuts ⊢
      obtain rfl := cuts_ended rfl hcuts
      exact Or.inr ⟨⟨n, hn, rfl⟩, rfl⟩

/-- The calls of `recv` for one message: it is dispatched when it is not cut, and
otherwise the call that finds the cut ends the session. -/
theorem cuts_message {cs : List Nat} {rest : List UInt8} (hs : s.reading = .length) (hm : m.Fits)
    (hcuts : Cuts order unset cs (m.wire order ++ rest) s) :
    (∃ cs', cs = 2 :: 1 :: m.payload.length :: cs' ∧
      Cuts order unset cs' rest ⟨.length, s.dispatched ++ [m.dispatched]⟩ ∧
      s.run order unset (recvs cs (m.wire order ++ rest)) =
        run order unset (recvs cs' rest) ⟨.length, s.dispatched ++ [m.dispatched]⟩) ∨
    ((cs = [1] ∨ ∃ n, n ≠ m.payload.length ∧ cs = [2, 1, n]) ∧
      s.run order unset (recvs cs (m.wire order ++ rest)) = { s with reading := .ended }) := by
  have hoctets := length_octets order (UInt16.ofNat m.length)
  have hwire : m.wire order ++ rest =
      order.octets (UInt16.ofNat m.length) ++ (m.commandType :: (m.payload ++ rest)) := by
    rw [Message.wire, List.append_assoc, List.cons_append]
  rw [hwire] at hcuts ⊢
  cases cs with
  | nil =>
    rcases hcuts with h | h
    · simp at h
    · rw [hs] at h
      cases h
  | cons c cs =>
    obtain ⟨-, h1, hreq, -, hcuts⟩ := hcuts
    simp only [requested, hs] at hreq
    rw [recvs, run_cons]
    by_cases hc : c = 2
    · subst hc
      rw [List.take_left' hoctets, List.drop_left' hoctets, recv_length hs hm] at hcuts
      rw [List.take_left' hoctets, List.drop_left' hoctets, recv_length hs hm]
      obtain ⟨cs, rfl, hcuts, hrun⟩ := cuts_commandType rfl hcuts
      rw [hrun]
      rcases cuts_payload rfl hm hcuts with ⟨cs, rfl, hcuts, hrun⟩ | ⟨⟨n, hn, rfl⟩, hrun⟩
      · exact Or.inl ⟨cs, rfl, hcuts, hrun⟩
      · exact Or.inr ⟨Or.inr ⟨n, hn, rfl⟩, hrun⟩
    · obtain rfl : c = 1 := by omega
      have htake : ((order.octets (UInt16.ofNat m.length) ++
          (m.commandType :: (m.payload ++ rest))).take 1).length < 2 := by
        rw [List.length_take]
        omega
      rw [recv_length_short hs htake] at hcuts ⊢
      obtain rfl := cuts_ended rfl hcuts
      exact Or.inr ⟨Or.inl rfl, rfl⟩

end Session

/-- What the session has come to: the messages before the first cut have been
dispatched, and it has ended if there was one. -/
structure Reads (ms : List Message) (cs : List Nat) (s s' : Session) : Prop where
  dispatched : s'.dispatched = s.dispatched ++ (received ms cs).map Message.dispatched
  prefixed : received ms cs <+: ms
  uncut : received ms cs = ms → cs = ms.flatMap Message.whole ∧ s'.reading = .length
  cut : received ms cs ≠ ms → cs ≠ ms.flatMap Message.whole ∧ s'.reading = .ended

/-- **One way of cutting a stream**, from a session that waits for a message. -/
theorem reads_of_cuts {order : HostOrder} {unset : UInt16} {ms : List Message}
    (hms : ∀ m ∈ ms, m.Fits) {cs : List Nat} {s : Session} (hs : s.reading = .length)
    (hcuts : Cuts order unset cs (ms.flatMap (Message.wire order)) s) :
    Reads ms cs s (s.run order unset (recvs cs (ms.flatMap (Message.wire order)))) := by
  induction ms generalizing cs s with
  | nil =>
    cases cs with
    | nil => exact ⟨by simp [recvs, Session.run, received], List.prefix_refl _, fun _ => ⟨rfl, hs⟩,
        fun h => absurd rfl h⟩
    | cons c cs =>
      obtain ⟨-, h1, -, hle, -⟩ := hcuts
      rw [List.flatMap_nil, List.length_nil] at hle
      omega
  | cons m ms ih =>
    obtain ⟨hm, hrest⟩ := List.forall_mem_cons.1 hms
    rw [List.flatMap_cons] at hcuts ⊢
    rcases Session.cuts_message hs hm hcuts with ⟨cs', rfl, hcuts', hrun⟩ | ⟨hcs, hrun⟩
    · obtain ⟨hdisp, hpre, huncut, hcut⟩ := ih hrest rfl hcuts'
      have hrec : received (m :: ms) (2 :: 1 :: m.payload.length :: cs') =
          m :: received ms cs' := by
        rw [received, if_pos rfl]
      have hwhole : 2 :: 1 :: m.payload.length :: cs' = (m :: ms).flatMap Message.whole ↔
          cs' = ms.flatMap Message.whole := by
        simp [Message.whole]
      rw [hrun]
      refine ⟨?_, ?_, ?_, ?_⟩
      · rw [hdisp, hrec, List.map_cons, List.append_assoc, List.singleton_append]
      · rw [hrec]
        exact (List.prefix_cons_inj m).2 hpre
      · intro h
        rw [hrec, List.cons.injEq] at h
        rw [hwhole]
        exact huncut h.2
      · intro h
        rw [ne_eq, hwhole]
        exact hcut fun heq => h (by rw [hrec, heq])
    · -- a cut inside the first message
      have hnone : received (m :: ms) cs = [] := by
        rcases hcs with rfl | ⟨n, hn, rfl⟩
        · rfl
        · rw [received, if_neg hn]
      have hne : cs ≠ (m :: ms).flatMap Message.whole := by
        rcases hcs with rfl | ⟨n, hn, rfl⟩
        · simp [Message.whole]
        · simp [Message.whole, hn]
      rw [hrun]
      refine ⟨by rw [hnone]; simp, by rw [hnone]; exact List.nil_prefix, ?_,
        fun _ => ⟨hne, rfl⟩⟩
      intro h
      rw [hnone] at h
      nomatch h

/-- **`session` dispatches the messages that arrive before the first cut, and no others.**
Whatever way TCP cuts the stream of messages of 2 to 4096 octets, the messages before the
first call of `recv` that returns less than the whole length or the whole payload are
dispatched in order, and that call ends the session; so all of them are dispatched exactly
when every call returns what it asks for. -/
theorem session_dispatches {order : HostOrder} {unset : UInt16} {ms : List Message}
    (hms : ∀ m ∈ ms, m.Fits) {cs : List Nat}
    (hcuts : Cuts order unset cs (ms.flatMap (Message.wire order)) .start) :
    let s := Session.start.run order unset (recvs cs (ms.flatMap (Message.wire order)))
    s.dispatched = (received ms cs).map Message.dispatched ∧ received ms cs <+: ms ∧
      (received ms cs ≠ ms → s.reading = .ended) ∧
      (s.dispatched = ms.map Message.dispatched ↔ cs = ms.flatMap Message.whole) := by
  obtain ⟨hdisp, hpre, huncut, hcut⟩ := reads_of_cuts hms rfl hcuts
  refine ⟨by rw [hdisp]; rfl, hpre, fun h => (hcut h).2, ?_⟩
  by_cases h : received ms cs = ms
  · refine ⟨fun _ => (huncut h).1, ?_⟩
    intro _
    rw [hdisp, h]
    rfl
  · refine ⟨?_, fun heq => absurd heq (hcut h).1⟩
    intro heq
    rw [hdisp] at heq
    have hlen := congrArg List.length heq
    simp only [Session.start, List.nil_append, List.length_map] at hlen
    exact absurd (hpre.eq_of_length hlen) h

/-- A length cut after its first octet. -/
theorem exists_undispatched :
    ∃ (ms : List Message) (cs : List Nat), (∀ m ∈ ms, m.Fits) ∧
      Cuts .littleEndian 0 cs (ms.flatMap (Message.wire .littleEndian)) .start ∧
      (Session.start.run .littleEndian 0
        (recvs cs (ms.flatMap (Message.wire .littleEndian)))).dispatched ≠
          ms.map Message.dispatched :=
  ⟨[⟨hciCommand, [0x03, 0x0C, 0x00]⟩], [1], by decide, by decide, by decide⟩

/-- Two messages, the second one cut inside its payload. -/
theorem session_dispatches_first :
    let ms : List Message := [⟨hciCommand, [0x03, 0x0C, 0x00]⟩, ⟨hciData, [0x01, 0x00]⟩]
    let cs := [2, 1, 3, 2, 1, 1]
    let s := Session.start.run .littleEndian 0 (recvs cs (ms.flatMap (Message.wire .littleEndian)))
    s.dispatched = (received ms cs).map Message.dispatched ∧ received ms cs <+: ms ∧
      (received ms cs ≠ ms → s.reading = .ended) ∧
      (s.dispatched = ms.map Message.dispatched ↔ cs = ms.flatMap Message.whole) :=
  session_dispatches (by decide) (by decide)

end OpenwrtFeed.HciBridge
