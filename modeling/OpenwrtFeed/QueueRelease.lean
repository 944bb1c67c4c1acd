import OpenwrtFeed.LoopFlags

/-! # What releases the queue after an op of data

The comment above `hci_do_poll` sees that some ops are answered by nothing, and asks for
extra logic, since "otherwise we would never send anything".  The branch on
`UBCSP_PACKET_SENT` looks like that logic: it sets `fetchNewCommand` when no response is
expected.  But every dequeue sets `responseExpected`, whatever the op is, and every
branch that clears it sets `fetchNewCommand` as well.  So an op of ACL data, which the
controller acknowledges and does not answer, holds back the ops after it until a packet
happens to be received or the timeout runs out (`release_iff`).
-/
namespace OpenwrtFeed.HciPoll
open Ubcsp HciQueue HciBridge

/-! ## The last event -/

/-- The last event is the dequeue of an op. -/
def EndsInDequeue (events : List Event) : Prop := ∃ p, events.getLast? = some (.dequeued p)

/-- An op with nothing after it but other events. -/
theorem endsInDequeue_cons {before after : List Event} {p : Packet}
    (hlatest : ∀ q, .dequeued q ∉ after) :
    EndsInDequeue (before ++ .dequeued p :: after) ↔ after = [] := by
  rcases List.eq_nil_or_concat after with rfl | ⟨init, ev, rfl⟩
  · simp [EndsInDequeue]
  · refine iff_of_false ?_ (by simp)
    rintro ⟨q, hq⟩
    rw [List.concat_eq_append, ← List.cons_append, ← List.append_assoc, List.getLast?_concat] at hq
    obtain rfl := Option.some.inj hq
    exact hlatest q (by simp)

/-! ## The events of an iteration -/

namespace Driver
variable {stray : UInt8 → UInt8} {d : Driver} {ph : Phase}

/-- The mark of a turn. -/
def mark (stray : UInt8 → UInt8) (t : Turn) (d : Driver) : Mark := (d.round (d.asRound stray t)).2

/-- The delay leads to a notification or to nothing. -/
theorem onDelay_notified (t : Turn) :
    (d.mark stray t).notified = false ↔
      ((d.served stray t).1.onDelay (d.poll stray t.arrived).delay).2 = [] := by
  have hquiet := heard_unnotified (d.asRound stray t) d
  obtain ⟨-, -, hkind⟩ := onDelay_keeps (d.poll stray t.arrived).delay (d.served stray t).1
  show (((d.heard (d.asRound stray t)).2 ++ _).any _) = false ↔ _
  rw [List.any_append, hquiet, Bool.false_or]
  cases hsends : ((d.served stray t).1.onDelay (d.poll stray t.arrived).delay).2 with
  | nil =>
    have hnil : ((d.fed (d.asRound stray t)).1.onDelay (d.asRound stray t).poll.delay).2 = [] :=
      hsends
    simp [hnil]
  | cons b sends =>
    have hcons : ((d.fed (d.asRound stray t)).1.onDelay (d.asRound stray t).poll.delay).2 =
        b :: sends :=
      hsends
    have hb := hkind b (by rw [hsends]; exact List.mem_cons_self)
    simp [hcons, hb]

theorem endsInDequeue_delivered (before : List Event) (received : Bool) (p : Packet) :
    EndsInDequeue (before ++ if received then [.delivered p] else []) ↔
      received = false ∧ EndsInDequeue before := by
  cases received with
  | true => simp [EndsInDequeue]
  | false => simp

theorem endsInDequeue_dequeued (before : List Event) (copies : List Copy) :
    EndsInDequeue (before ++ copies.map fun c => .dequeued c.packet) ↔
      copies ≠ [] ∨ EndsInDequeue before := by
  rcases List.eq_nil_or_concat copies with rfl | ⟨init, c, rfl⟩
  · simp
  · simp [EndsInDequeue, ← List.append_assoc]

theorem endsInDequeue_timedOut (before : List Event) (sends : List BridgeSend) :
    EndsInDequeue (before ++ sends.map fun _ => .timedOut) ↔ sends = [] ∧ EndsInDequeue before := by
  rcases List.eq_nil_or_concat sends with rfl | ⟨init, b, rfl⟩
  · simp
  · rw [List.concat_eq_append, List.map_append, ← List.append_assoc]
    simp [EndsInDequeue]

/-- **A turn ends in a dequeue** when it dequeues an op and does not notify, or when
nothing happens in it and the run so far has ended in one. -/
theorem endsInDequeue_events (t : Turn) (before : List Event) :
    EndsInDequeue (before ++ d.events stray t) ↔
      (d.mark stray t).notified = false ∧ ((d.mark stray t).dequeued = true ∨
        ((d.mark stray t).received = false ∧ EndsInDequeue before)) := by
  have hdeq : (d.mark stray t).dequeued = true ↔ (d.served stray t).2 ≠ [] := by
    show (!(d.served stray t).2.isEmpty) = true ↔ _
    simp
  have hrec : (d.mark stray t).received = (d.poll stray t.arrived).activity.received := rfl
  unfold Driver.events
  rw [← List.append_assoc, ← List.append_assoc, endsInDequeue_timedOut, endsInDequeue_dequeued,
    endsInDequeue_delivered, onDelay_notified, hdeq, hrec]

/-! ## A run -/

/-- The phase agrees with the events: an op is awaited while its dequeue is the last. -/
theorem Phase.agrees {ph ph' : Phase} {m : Mark} (h : ph.Step m ph') {before after : Prop}
    (hbefore : before ↔ ph ≠ .wanted)
    (hafter : after ↔ m.notified = false ∧ (m.dequeued = true ∨ (m.received = false ∧ before))) :
    after ↔ ph' ≠ .wanted := by
  cases h <;> simp_all

theorem Shows.run (h : d.Shows ph) {before : List Event}
    (hbefore : EndsInDequeue before ↔ ph ≠ .wanted) (ts : List Turn) :
    ∃ ph', (d.run stray ts).1.Shows ph' ∧
      (EndsInDequeue (before ++ d.trace stray ts) ↔ ph' ≠ .wanted) := by
  induction ts generalizing d ph before with
  | nil => exact ⟨ph, h, by simpa [Driver.trace] using hbefore⟩
  | cons t ts ih =>
    obtain ⟨ph', hstep, hshows⟩ := h.round (d.asRound stray t)
    have hafter := Phase.agrees hstep hbefore (endsInDequeue_events t before)
    rw [← turn_eq_round] at hshows
    obtain ⟨ph'', hrun, hends⟩ := ih hshows hafter
    exact ⟨ph'', hrun, by simpa [Driver.trace, List.append_assoc] using hends⟩

/-- **The flag after the reports**: the next op is wanted when it was wanted before, or a
packet is received; that an op has been sent makes no difference. -/
theorem Shows.wants (h : d.Shows ph) (t : Turn) :
    (d.acted stray t).1.fetchNewCommand = true ↔
      ph = .wanted ∨ (d.poll stray t.arrived).activity.received = true := by
  have hheard : (d.acted stray t).1.Shows (ph.report (d.poll stray t.arrived).activity) :=
    h.heard (d.asRound stray t)
  have hflags := hheard.flags
  unfold Phase.report at hflags
  cases hrec : (d.poll stray t.arrived).activity.received with
  | true =>
    rw [hrec, if_pos rfl] at hflags
    simp [hflags.1]
  | false =>
    rw [hrec, if_neg Bool.false_ne_true] at hflags
    cases ph with
    | wanted => simp [hflags.1]
    | awaited n => simp [hflags.1]

/-- Once the flag is set, a pending op is dequeued. -/
theorem Shows.serves (h : d.Shows ph) {t : Turn}
    (hwant : (d.acted stray t).1.fetchNewCommand = true)
    (hpending : isQueueEmpty (queueAll t.early d.queue) = false) : (d.served stray t).2 ≠ [] := by
  have hheard : (d.acted stray t).1.Shows (ph.report (d.poll stray t.arrived).activity) :=
    h.heard (d.asRound stray t)
  have hqueue : (d.acted stray t).1.queue = d.queue := (acted_keeps stray t d).2
  cases hph : ph.report (d.poll stray t.arrived).activity with
  | wanted =>
    rw [hph] at hheard
    rcases (hheard.queued t.early).fetch t.late with ⟨hempty, -⟩ | ⟨c, hcopied, -⟩
    · rw [hqueue, hpending] at hempty
      cases hempty
    · have hserved : (d.served stray t).2 = [c] := hcopied
      simp [hserved]
  | awaited n =>
    rw [hph] at hheard
    exact absurd (hheard.flags.1.symm.trans hwant) Bool.false_ne_true

end Driver

/-! ## The release -/

/-- In the iteration, `fetchNewCommand` is set by the time the loop looks at the queue,
and a pending op is dequeued. -/
def Released (stray : UInt8 → UInt8) (t : Turn) (d : Driver) : Prop :=
  (d.acted stray t).1.fetchNewCommand = true ∧
    (isQueueEmpty (queueAll t.early d.queue) = false → (d.served stray t).2 ≠ [])

/-- After the events of a run, the last op dequeued is data, with the events `after`
since then, and the poll of the next turn reports an op sent. -/
structure DataAcknowledged (stray : UInt8 → UInt8) (events after : List Event) (t : Turn)
    (d : Driver) :
    Prop where
  data : ∃ before p, events = before ++ .dequeued p :: after ∧ p.channel = hciAclChannel
  latest : ∀ q, .dequeued q ∉ after
  sent : (d.poll stray t.arrived).activity.sent = true

/-- **Acknowledged data releases the queue only if it was released already**: exactly
when, since the op was dequeued, a packet has been delivered or the timeout has run out,
or the same call of `ubcsp_poll` also reports a packet received. -/
theorem release_iff {stray : UInt8 → UInt8} {uart : List UInt8} {e : Engine}
    {ts : List Turn} {t : Turn} {after : List Event}
    (h : DataAcknowledged stray ((Driver.start uart e).trace stray ts) after t
      ((Driver.start uart e).run stray ts).1) :
    Released stray t ((Driver.start uart e).run stray ts).1 ↔
      after ≠ [] ∨
        (((Driver.start uart e).run stray ts).1.poll stray t.arrived).activity.received = true := by
  obtain ⟨before, p, hevents, -⟩ := h.data
  have hnone : EndsInDequeue [] ↔ Phase.wanted ≠ .wanted := by simp [EndsInDequeue]
  obtain ⟨ph, hshows, hends⟩ := @Driver.Shows.run stray _ _ (shows_start uart e) [] hnone ts
  rw [List.nil_append, hevents, endsInDequeue_cons h.latest] at hends
  have hwants := @Driver.Shows.wants stray _ _ hshows t
  have hph : ph = .wanted ↔ after ≠ [] := by
    rw [Ne, hends, not_not]
  rw [hph] at hwants
  constructor
  · intro hreleased
    exact hwants.1 hreleased.1
  · intro hcond
    have hset := hwants.2 hcond
    exact ⟨hset, fun hpending => hshows.serves hset hpending⟩

/-! ### Acknowledgements -/

/-- An op of two octets of ACL data. -/
def dataOp : Op := ⟨[0x01, 0x00], 2, 6⟩

/-- The op as it is dequeued. -/
def dataPacket : Packet := ⟨6, 1, 2, [0x01, 0x00]⟩

/-- A frame that acknowledges the first op and carries nothing. -/
def bareAck : List UInt8 := [0xC0, 0x08, 0x00, 0x00, 0xF7, 0xC0]

/-- The op is dequeued in the first turn, and sent in the silent turns that follow. -/
def sending : List Turn := ⟨[], [dataOp], []⟩ :: List.replicate 12 ⟨[], [], []⟩

/-- A frame that acknowledges the op and carries an event lets the next op go. -/
theorem release_acking :
    ∃ uart e, hciOpenDeviceInternal id startUp = .opened uart e ∧
      Released id ⟨ackingEventFrame, [dataOp], []⟩ ((Driver.start uart e).run id sending).1 :=
  ⟨_, _, rfl, (@release_iff id _ _ sending ⟨ackingEventFrame, [dataOp], []⟩ []
    ⟨⟨[], dataPacket, by decide +kernel, by decide⟩, by simp, by decide +kernel⟩).2
      (Or.inr (by decide +kernel))⟩

/-- **Acknowledged data holds the next op back**: the controller acknowledges the data in
a frame of its own, and the op queued behind it is not dequeued. -/
theorem exists_held_back :
    ∃ uart e t, hciOpenDeviceInternal id startUp = .opened uart e ∧
      let d := ((Driver.start uart e).run id sending).1
      DataAcknowledged id ((Driver.start uart e).trace id sending) [] t d ∧
        d.engine.sendPacket = some dataPacket ∧ (d.poll id t.arrived).engine.sendPacket = none ∧
        isQueueEmpty (queueAll t.early d.queue) = false ∧ ¬ Released id t d := by
  refine ⟨_, _, ⟨bareAck, [dataOp], []⟩, rfl, ?_⟩
  refine ⟨⟨⟨[], dataPacket, by decide +kernel, by decide⟩, by simp, by decide +kernel⟩,
    by decide +kernel, by decide +kernel, by decide +kernel, ?_⟩
  rintro ⟨hset, -⟩
  exact absurd hset (by decide +kernel)

end OpenwrtFeed.HciPoll
