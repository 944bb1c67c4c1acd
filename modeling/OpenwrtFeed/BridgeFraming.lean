import OpenwrtFeed.BridgeSession

/-! # What the bridge sends, read back

`hci_bridge_send` writes the length through `htons` and two shifts, so that the octets
come out in the byte order of the host after all, which is the order `session` reads them
in.  A program that runs `session` against the bridge therefore gets back what was sent,
message by message (`framing_round_trip`).
-/
namespace OpenwrtFeed.HciBridge

/-- `htons`. -/
def htons : HostOrder → UInt16 → UInt16
  | .littleEndian, n => (n <<< 8) ||| (n >>> 8)
  | .bigEndian, n => n

/-- The octets that `hci_bridge_send` writes on the socket of the client. -/
def hciBridgeSend (order : HostOrder) (b : BridgeSend) : List UInt8 :=
  let newOrderLength := htons order (b.length + 1)
  (newOrderLength >>> 8).toUInt8 :: newOrderLength.toUInt8 :: b.commandType ::
    b.data.take b.length.toNat

/-- The call of `hci_bridge_send` for a message. -/
def Message.send (m : Message) : BridgeSend :=
  ⟨m.commandType, m.payload, UInt16.ofNat m.payload.length⟩

namespace Session

/-- The message that a call of `recv` completes. -/
def completes (r : Recv) (s : Session) : Option Message :=
  match s.reading, r with
  | .payload length commandType, .octets l =>
    if l.length = 0 ∨ (l.length : Int) ≠ (length.toNat : Int) - 1 then none
    else some ⟨commandType, l⟩
  | _, _ => none

/-- At most `n` calls of `recv` on the octets of a stream, each returning all it asks for:
the messages completed, the octets left over, and the session.  A call that asks for more
than there is does not return. -/
def read (order : HostOrder) (unset : UInt16) :
    Nat → List UInt8 → Session → List Message × List UInt8 × Session
  | 0, stream, s => ([], stream, s)
  | n + 1, stream, s =>
    if s.reading = .ended ∨ stream.length < s.requested then ([], stream, s)
    else
      let r := Recv.octets (stream.take s.requested)
      let next := read order unset n (stream.drop s.requested) (s.recv order unset r)
      ((s.completes r).toList ++ next.1, next.2)

/-- `session` on a whole stream: every call but the last one takes an octet. -/
def parse (order : HostOrder) (unset : UInt16) (stream : List UInt8) :
    List Message × List UInt8 × Session :=
  read order unset (stream.length + 1) stream .start

end Session

/-! ## The octets of the length -/

/-- **The two swaps cancel**: the octets are those of the length in memory. -/
theorem htons_octets (order : HostOrder) (n : UInt16) :
    [(htons order n >>> 8).toUInt8, (htons order n).toUInt8] = order.octets n := by
  cases order with
  | bigEndian => rfl
  | littleEndian =>
    have hlt := n.toNat_lt
    have hor := Nat.shiftLeft_add_eq_or_of_lt (a := n.toNat % 256) (i := 8)
      (b := n.toNat / 256) (by omega)
    have hshift : n.toNat <<< 8 % 65536 = (n.toNat % 256) <<< 8 := by
      simp only [Nat.shiftLeft_eq]
      omega
    have hswap : (htons .littleEndian n).toNat = (n.toNat % 256) * 256 + n.toNat / 256 := by
      unfold htons
      rw [UInt16.toNat_or, UInt16.toNat_shiftLeft, UInt16.toNat_shiftRight]
      simp only [UInt16.reduceToNat, Nat.reduceMod, Nat.shiftRight_eq_div_pow, Nat.reducePow]
      rw [hshift, ← hor, Nat.shiftLeft_eq]
    have hdiv : ((n.toNat % 256) * 256 + n.toNat / 256) / 256 = n.toNat % 256 := by
      have hlow : n.toNat % 256 < 256 := Nat.mod_lt _ (by decide)
      have hhigh : n.toNat / 256 < 256 := by omega
      generalize n.toNat % 256 = low at *
      generalize n.toNat / 256 = high at *
      omega
    have hhigh : ((htons .littleEndian n) >>> 8).toUInt8 = n.toUInt8 := by
      apply UInt8.toNat_inj.1
      rw [UInt16.toNat_toUInt8, UInt16.toNat_toUInt8, UInt16.toNat_shiftRight, hswap]
      simp only [UInt16.reduceToNat, Nat.reduceMod, Nat.shiftRight_eq_div_pow, Nat.reducePow]
      rw [hdiv, Nat.mod_mod]
    have hlow : (htons .littleEndian n).toUInt8 = (n >>> 8).toUInt8 := by
      apply UInt8.toNat_inj.1
      rw [UInt16.toNat_toUInt8, UInt16.toNat_toUInt8, UInt16.toNat_shiftRight, hswap]
      simp only [UInt16.reduceToNat, Nat.reduceMod, Nat.shiftRight_eq_div_pow, Nat.reducePow]
      omega
    rw [hhigh, hlow]
    rfl

/-- A frame is the message as a client would write it. -/
theorem hciBridgeSend_eq (order : HostOrder) {m : Message} (h : m.payload.length < 65536) :
    hciBridgeSend order m.send = m.wire order := by
  have hlen : UInt16.ofNat m.payload.length + 1 = UInt16.ofNat m.length := by
    rw [Message.length, UInt16.ofNat_add]
    rfl
  have htake : m.payload.take (UInt16.ofNat m.payload.length).toNat = m.payload := by
    rw [UInt16.toNat_ofNat_of_lt' h]
    exact List.take_of_length_le (Nat.le_refl _)
  have hoctets := htons_octets order (UInt16.ofNat m.length)
  unfold hciBridgeSend Message.wire
  dsimp only [Message.send]
  rw [hlen, htake, ← hoctets]
  rfl

/-! ## Reading a stream of frames -/

namespace Session
variable {order : HostOrder} {unset : UInt16} {m : Message} {s : Session}

/-- A call that gets all it asks for. -/
theorem read_succ {n : Nat} {front rest : List UInt8} (hs : s.reading ≠ .ended)
    (hfront : front.length = s.requested) :
    s.read order unset (n + 1) (front ++ rest) =
      (((s.completes (.octets front)).toList ++
        (read order unset n rest (s.recv order unset (.octets front))).1),
          (read order unset n rest (s.recv order unset (.octets front))).2) := by
  have hgo : ¬ (s.reading = .ended ∨ (front ++ rest).length < s.requested) := by
    rintro (h | h)
    · exact hs h
    · rw [List.length_append] at h
      omega
  rw [read, if_neg hgo, List.take_left' hfront, List.drop_left' hfront]

/-- Three calls read one message. -/
theorem read_message (hs : s.reading = .length) (hm : m.Fits) (n : Nat) (rest : List UInt8) :
    s.read order unset (n + 3) (m.wire order ++ rest) =
      (m :: (read order unset n rest ⟨.length, s.dispatched ++ [m.dispatched]⟩).1,
        (read order unset n rest ⟨.length, s.dispatched ++ [m.dispatched]⟩).2) := by
  have hlength := length_octets order (UInt16.ofNat m.length)
  have hpayload : m.payload.length = (UInt16.ofNat m.length).toNat - 1 := by
    rw [hm.toNat_length, Message.length]
    omega
  have hmessage : completes (.octets m.payload)
      ⟨.payload (UInt16.ofNat m.length) m.commandType, s.dispatched⟩ = some m := by
    have hne := hm.nonempty
    have hlen : m.length = m.payload.length + 1 := rfl
    unfold completes
    simp only
    rw [if_neg (by rw [hm.toNat_length]; omega)]
  have hnone : ∀ l, completes (.octets l) s = none := by
    intro l
    unfold completes
    rw [hs]
  rw [Message.wire, List.append_assoc,
    read_succ (by simp [hs]) (by rw [hlength, requested, hs]), recv_length hs hm, hnone,
    List.cons_append, ← List.singleton_append,
    read_succ (by simp) rfl, recv_commandType rfl,
    read_succ (by simp) hpayload, recv_payload (m := m) rfl hm, hmessage]
  rfl

/-- **A stream of messages is read to its end**, message by message. -/
theorem read_messages {ms : List Message} (hms : ∀ m ∈ ms, m.Fits) (hs : s.reading = .length)
    {n : Nat} (hn : (ms.flatMap (Message.wire order)).length ≤ n) :
    s.read order unset n (ms.flatMap (Message.wire order)) =
      (ms, [], ⟨.length, s.dispatched ++ ms.map Message.dispatched⟩) := by
  induction ms generalizing s n with
  | nil =>
    obtain ⟨reading, dispatched⟩ := s
    obtain rfl : reading = .length := hs
    cases n with
    | zero => simp [read]
    | succ n => simp [read, requested]
  | cons m ms ih =>
    obtain ⟨hm, hrest⟩ := List.forall_mem_cons.1 hms
    rw [List.flatMap_cons] at hn ⊢
    have hwire : 3 ≤ (m.wire order).length := by
      rw [Message.wire, List.length_append, length_octets, List.length_cons]
      omega
    rw [List.length_append] at hn
    obtain ⟨k, rfl⟩ : ∃ k, n = k + 3 := ⟨n - 3, by omega⟩
    rw [read_message hs hm, ih hrest rfl (by omega), List.map_cons, List.append_assoc]
    rfl

end Session

/-- **Bridge framing round trip.**  For payloads of 1 to 4095 octets, and whatever the byte
order of the host, `session` reads the frames of `hci_bridge_send` back as the messages
that were sent, with nothing left over, and then waits for the next length. -/
theorem framing_round_trip (order : HostOrder) (unset : UInt16) (ms : List Message)
    (hms : ∀ m ∈ ms, 1 ≤ m.payload.length ∧ m.payload.length ≤ 4095) :
    Session.parse order unset (ms.flatMap fun m => hciBridgeSend order m.send) =
      (ms, [], ⟨.length, ms.map Message.dispatched⟩) := by
  have hfits : ∀ m ∈ ms, m.Fits := by
    intro m hm
    obtain ⟨h1, h2⟩ := hms m hm
    exact ⟨Nat.succ_le_succ h1, Nat.succ_le_succ h2⟩
  have hframes : (ms.flatMap fun m => hciBridgeSend order m.send) =
      ms.flatMap (Message.wire order) := by
    apply List.flatMap_congr
    intro m hm
    have h2 := (hms m hm).2
    exact hciBridgeSend_eq order (by omega)
  rw [hframes, Session.parse, Session.read_messages hfits rfl (Nat.le_succ _)]
  rfl

/-- An event and a message of a type that `session` does not know. -/
theorem framing_round_trip_two :
    let ms : List Message := [⟨hciEvent, [0x0E, 0x01, 0x05]⟩, ⟨0x40, [0x00]⟩]
    Session.parse .littleEndian 0 (ms.flatMap fun m => hciBridgeSend .littleEndian m.send) =
      (ms, [], ⟨.length, ms.map Message.dispatched⟩) :=
  framing_round_trip .littleEndian 0 _ (by decide)

end OpenwrtFeed.HciBridge
