import OpenwrtFeed.HciPoll

/-! # One op at a time

`ubcsp_send_packet` may be called only when the engine has nothing left to send.  The
driver keeps to this by its own flag: an op is fetched when `fetchNewCommand` is set,
and the flag is meant to be set only when the controller is done with the previous op.
Two events set it without looking at the engine: a received packet, which need not
answer the op, and the timeout.  `Timely` excludes both while an op is outstanding, and
then no op is ever overwritten (`one_outstanding`); a turn that is not timely overwrites
an op as soon as another one is queued (`Driver.InStep.overwrites`).
-/
namespace OpenwrtFeed.HciPoll
open Ubcsp HciQueue HciBridge

/-- The poll of a turn is the one at which the timeout runs out. -/
def Expires (stray : UInt8 → UInt8) (d : Driver) (t : Turn) : Prop :=
  (d.poll stray t.arrived).delay ≠ 0 ∧ (d.poll stray t.arrived).activity.sent = false ∧
    (d.poll stray t.arrived).activity.received = false ∧ d.fetchNewCommand = false ∧
    10000 ≤ d.timeout + 1

instance (stray : UInt8 → UInt8) (d : Driver) (t : Turn) : Decidable (Expires stray d t) :=
  inferInstanceAs (Decidable (_ ∧ _))

/-- While an op is outstanding, every frame accepted acknowledges it, and the timeout
does not run out. -/
structure Timely (stray : UInt8 → UInt8) (d : Driver) (t : Turn) : Prop where
  acknowledged : ∀ x ∈ d.polled stray t.arrived,
    x.1.sendPacket ≠ none → Accepts x.1 x.2 → Acknowledges x.1 x.2
  unexpired : Expires stray d t → (d.poll stray t.arrived).engine.sendPacket = none

instance (stray : UInt8 → UInt8) (d : Driver) (t : Turn) : Decidable (Timely stray d t) :=
  decidable_of_iff (_ ∧ _) ⟨fun h => ⟨h.1, h.2⟩, fun h => ⟨h.1, h.2⟩⟩

/-- The driver is in step with the engine: an op is wanted only when nothing is
outstanding, and otherwise a response is awaited.  The engine has its receive packet
except between the poll that reports a packet and the branch that returns it. -/
structure Driver.InStep (d : Driver) (armed : Bool) : Prop where
  armed : d.engine.receiveArmed = armed
  reliable : d.engine.SendsReliably
  wanted : d.fetchNewCommand = true → d.engine.sendPacket = none
  unhurried : d.fetchNewCommand = true → d.timeout = 0
  awaited : d.fetchNewCommand = false → d.responseExpected = true
  queue : d.queue.queueHead ≤ d.queue.queueTail

theorem inStep_start {p : SlipCode.Partial UInt8} {armed : Bool} {e : Engine} (h : Fresh p armed e)
    (uart : List UInt8) : (Driver.start uart e).InStep true where
  armed := rfl
  reliable q hq := absurd (h.packet.symm.trans hq) (by simp)
  wanted _ := h.packet
  unhurried _ := rfl
  awaited h := nomatch h
  queue := Nat.le_refl _

/-! ## The parts of a turn -/

theorem queueAll_indices (ops : List Op) (q : Queue) :
    (queueAll ops q).queueHead = q.queueHead ∧
      (queueAll ops q).queueTail = q.queueTail + ops.length := by
  induction ops generalizing q with
  | nil => exact ⟨rfl, rfl⟩
  | cons op ops ih =>
    obtain ⟨hhead, htail⟩ := ih (queueHciOp op q)
    refine ⟨hhead, ?_⟩
    show (queueAll ops (queueHciOp op q)).queueTail = _
    rw [htail, List.length_cons]
    simp only [queueHciOp]
    omega

/-- Queueing keeps the head behind the tail. -/
theorem queueAll_le {q : Queue} (h : q.queueHead ≤ q.queueTail) (ops : List Op) :
    (queueAll ops q).queueHead ≤ (queueAll ops q).queueTail := by
  obtain ⟨hhead, htail⟩ := queueAll_indices ops q
  omega

theorem dequeue_indices {q : Queue} (h : q.queueHead ≤ q.queueTail) :
    (dequeueIntoSendPacket q).2.queueHead ≤ (dequeueIntoSendPacket q).2.queueTail := by
  unfold dequeueIntoSendPacket dropHead
  split
  · dsimp only
    split
    · exact Nat.le_refl _
    · dsimp only
      omega
  · exact h

namespace Driver
variable {stray : UInt8 → UInt8} {d : Driver} {armed : Bool}

/-- The branch on `UBCSP_PACKET_SENT` clears the timeout: `fetchNewCommand` is never
set there, when a response is awaited whenever the flag is not set already. -/
theorem onSent_eq (h : d.fetchNewCommand = false → d.responseExpected = true) (a : Activity) :
    d.onSent a = d ∨ d.onSent a = { d with timeout := 0 } := by
  unfold Driver.onSent
  split
  · have hsame : (if d.responseExpected then d.fetchNewCommand else true) = d.fetchNewCommand := by
      cases hf : d.fetchNewCommand with
      | true => simp
      | false => simp [h hf]
    exact Or.inr (by rw [hsame])
  · exact Or.inl rfl

theorem InStep.onSent (h : d.InStep armed) (a : Activity) : (d.onSent a).InStep armed := by
  rcases onSent_eq h.awaited a with heq | heq <;> rw [heq]
  · exact h
  · exact ⟨h.armed, h.reliable, h.wanted, fun _ => rfl, h.awaited, h.queue⟩

/-- A received packet sets the flag, so nothing may be outstanding then. -/
theorem InStep.onReceived {a : Activity} (h : d.InStep !a.received)
    (hnone : a.received = true → d.engine.sendPacket = none) : (d.onReceived a).1.InStep true := by
  unfold Driver.onReceived
  split
  · rename_i hrec
    exact ⟨rfl, h.reliable, fun _ => hnone hrec, fun _ => rfl, fun hf => (nomatch hf), h.queue⟩
  · rename_i hrec
    have hrec' : a.received = false := by simpa using hrec
    rw [hrec'] at h
    exact h

/-- The session thread may queue ops at any time. -/
theorem InStep.queued (h : d.InStep armed) (ops : List Op) :
    { d with queue := queueAll ops d.queue }.InStep armed :=
  ⟨h.armed, h.reliable, h.wanted, h.unhurried, h.awaited, queueAll_le h.queue ops⟩

/-- An op is copied only when nothing is outstanding. -/
theorem InStep.fetch (h : d.InStep armed) (late : List Op) :
    (d.fetch late).1.InStep armed ∧ (∀ c ∈ (d.fetch late).2, c.held = none) ∧
      (d.fetch late).1.engine.outstanding = d.engine.outstanding + (d.fetch late).2.length := by
  have hq : (queueAll late d.queue).queueHead ≤ (queueAll late d.queue).queueTail :=
    (h.queued late).queue
  unfold Driver.fetch
  split
  · rename_i hif
    have hwant : d.fetchNewCommand = true := by
      rw [Bool.and_eq_true] at hif
      exact hif.1
    have hnone := h.wanted hwant
    have hdeq := dequeue_indices hq
    cases hp : dequeueIntoSendPacket (queueAll late d.queue) with
    | mk packet q =>
      rw [hp] at hdeq
      cases packet with
      | none =>
        exact ⟨⟨h.armed, h.reliable, fun hf => (nomatch hf), fun hf => (nomatch hf),
          fun _ => rfl, hdeq⟩, fun c hc => by simp at hc, rfl⟩
      | some p =>
        have hrel : p.reliable ≠ 0 := by
          unfold dequeueIntoSendPacket at hp
          split at hp
          · obtain ⟨rfl⟩ := Option.some.inj (Prod.mk.inj hp).1
            exact (by decide : (1 : UInt8) ≠ 0)
          · nomatch hp
        refine ⟨⟨h.armed, ?_, fun hf => (nomatch hf), fun hf => (nomatch hf), fun _ => rfl, hdeq⟩,
          ?_, ?_⟩
        · rintro r hr
          obtain ⟨rfl⟩ := Option.some.inj hr
          exact hrel
        · rintro c hc
          obtain ⟨rfl⟩ := List.mem_singleton.1 hc
          exact hnone
        · simp [Engine.outstanding, ubcspSendPacket, hnone]
  · exact ⟨⟨h.armed, h.reliable, h.wanted, h.unhurried, h.awaited, hq⟩,
      fun c hc => by simp at hc, rfl⟩

/-- The timeout sets the flag, so nothing may be outstanding then. -/
theorem InStep.onDelay (h : d.InStep armed) (delay : Nat)
    (hnone : delay ≠ 0 → d.fetchNewCommand = false → 10000 ≤ d.timeout + 1 →
      d.engine.sendPacket = none) :
    (d.onDelay delay).1.InStep armed ∧ (d.onDelay delay).1.engine = d.engine := by
  unfold Driver.onDelay
  by_cases hdelay : delay = 0
  · rw [if_neg (not_not.2 hdelay)]
    exact ⟨h, rfl⟩
  · rw [if_pos hdelay]
    by_cases hf : d.fetchNewCommand = true
    · dsimp only
      rw [if_pos hf, if_neg (by simp [hf])]
      exact ⟨h, rfl⟩
    · have hf' : d.fetchNewCommand = false := by simpa using hf
      dsimp only
      rw [if_neg hf]
      by_cases hout : 10000 ≤ d.timeout + 1
      · rw [if_pos ⟨hout, hf'⟩]
        exact ⟨⟨h.armed, h.reliable, fun _ => hnone hdelay hf' hout, fun _ => rfl,
          fun hw => (nomatch hw), h.queue⟩, rfl⟩
      · rw [if_neg fun hc => hout hc.1]
        exact ⟨⟨h.armed, h.reliable, fun hw => absurd hw hf, fun hw => absurd hw hf, h.awaited,
          h.queue⟩, rfl⟩

/-! ## One turn -/

theorem onSent_timeout {a : Activity} (h : (d.onSent a).timeout ≠ 0) :
    a.sent = false ∧ d.onSent a = d := by
  unfold Driver.onSent at h ⊢
  split at h
  · exact absurd rfl h
  · rename_i hsent
    exact ⟨by simpa using hsent, by rw [if_neg hsent]⟩

theorem onReceived_timeout {a : Activity} (h : (d.onReceived a).1.timeout ≠ 0) :
    a.received = false ∧ (d.onReceived a).1 = d := by
  unfold Driver.onReceived at h ⊢
  split at h
  · exact absurd rfl h
  · rename_i hrec
    exact ⟨by simpa using hrec, by rw [if_neg hrec]⟩

theorem InStep.fetch_timeout (h : d.InStep armed) {late : List Op}
    (ht : (d.fetch late).1.timeout ≠ 0) :
    d.fetchNewCommand = false ∧ (d.fetch late).1 = { d with queue := queueAll late d.queue } := by
  have hsame : (d.fetch late).1.timeout = d.timeout := by
    unfold Driver.fetch
    split
    · split <;> rfl
    · rfl
  have hoff : d.fetchNewCommand = false := by
    cases hf : d.fetchNewCommand with
    | false => rfl
    | true => exact absurd (hsame.trans (h.unhurried hf)) ht
  exact ⟨hoff, by simp [Driver.fetch, hoff]⟩

/-- The engine after the call of `ubcsp_poll` of a turn. -/
theorem InStep.polled (h : d.InStep true) (stray : UInt8 → UInt8) (t : Turn) :
    Sends (d.polled stray t.arrived) (d.poll stray t.arrived).activity.received d.engine
        (d.poll stray t.arrived).engine ∧
      { d with
        engine := (d.poll stray t.arrived).engine, uart := (d.poll stray t.arrived).rest }.InStep
        !(d.poll stray t.arrived).activity.received := by
  have hs : Sends (d.polled stray t.arrived) (d.poll stray t.arrived).activity.received d.engine
      (d.poll stray t.arrived).engine := ubcspPoll_sends stray h.reliable _
  refine ⟨hs, hs.armed h.armed, h.reliable.of_packet hs.packet, ?_, h.unhurried, h.awaited, h.queue⟩
  intro hw
  rcases hs.packet with hp | hp
  · exact hp.trans (h.wanted hw)
  · exact hp

theorem InStep.acted (h : d.InStep true) {t : Turn} (ht : Timely stray d t) :
    (d.acted stray t).1.InStep true ∧
      (d.acted stray t).1.engine.sendPacket = (d.poll stray t.arrived).engine.sendPacket := by
  obtain ⟨hs, hpolled⟩ := h.polled stray t
  obtain ⟨heng, -⟩ := onSent_keeps (d.poll stray t.arrived).activity
    { d with engine := (d.poll stray t.arrived).engine, uart := (d.poll stray t.arrived).rest }
  have hrec := (hpolled.onSent (d.poll stray t.arrived).activity).onReceived
    (by rw [heng]; exact fun hr => (hs.acknowledged hr).2 ht.acknowledged)
  exact ⟨hrec, (onReceived_keeps _ _).1.trans (congrArg Engine.sendPacket heng)⟩

theorem InStep.served (h : d.InStep true) {t : Turn} (ht : Timely stray d t) :
    (d.served stray t).1.InStep true ∧ (∀ c ∈ (d.served stray t).2, c.held = none) ∧
      acknowledgements (d.polled stray t.arrived) + (d.served stray t).1.engine.outstanding =
        d.engine.outstanding + (d.served stray t).2.length := by
  obtain ⟨hacted, hpacket⟩ := h.acted ht
  obtain ⟨hin, hheld, hout⟩ := (hacted.queued t.early).fetch t.late
  refine ⟨hin, hheld, ?_⟩
  have hcount := (h.polled stray t).1.count
  have hout' : (d.acted stray t).1.engine.outstanding =
      (d.poll stray t.arrived).engine.outstanding :=
    Engine.outstanding_congr hpacket
  dsimp only at hout
  unfold Driver.served
  dsimp only
  omega

/-- A timeout that runs out does so at the poll of the turn, with the engine as the poll
has left it. -/
theorem InStep.expires (h : d.InStep true) {t : Turn} (ht : Timely stray d t)
    (hdelay : (d.poll stray t.arrived).delay ≠ 0)
    (hoff : (d.served stray t).1.fetchNewCommand = false)
    (hout : 10000 ≤ (d.served stray t).1.timeout + 1) :
    Expires stray d t ∧
      (d.served stray t).1.engine.sendPacket = (d.poll stray t.arrived).engine.sendPacket := by
  obtain ⟨hacted, hpacket⟩ := h.acted ht
  obtain ⟨-, hserved⟩ := (hacted.queued t.early).fetch_timeout
    (show (d.served stray t).1.timeout ≠ 0 by omega)
  have hserved : (d.served stray t).1 =
      { (d.acted stray t).1 with
        queue := queueAll t.late (queueAll t.early (d.acted stray t).1.queue) } := hserved
  rw [hserved] at hoff hout ⊢
  dsimp only at hoff hout ⊢
  obtain ⟨hrec, hacted'⟩ := onReceived_timeout (show (d.acted stray t).1.timeout ≠ 0 by omega)
  have hacted' : (d.acted stray t).1 = { d with
      engine := (d.poll stray t.arrived).engine
      uart := (d.poll stray t.arrived).rest }.onSent (d.poll stray t.arrived).activity := hacted'
  rw [hacted'] at hoff hout
  obtain ⟨hsent, hsent'⟩ := onSent_timeout (by omega :
    ({ d with
      engine := (d.poll stray t.arrived).engine
      uart := (d.poll stray t.arrived).rest }.onSent (d.poll stray t.arrived).activity).timeout ≠ 0)
  rw [hsent'] at hoff hout
  exact ⟨⟨hdelay, hsent, hrec, hoff, hout⟩, hpacket⟩

/-- **A timely turn** keeps the driver in step, copies an op only when nothing is
outstanding, and accounts for every op copied. -/
theorem InStep.turn (h : d.InStep true) {t : Turn} (ht : Timely stray d t) :
    (d.turn stray t).1.InStep true ∧ (∀ c ∈ (d.turn stray t).2.copied, c.held = none) ∧
      acknowledgements (d.turn stray t).2.polled + (d.turn stray t).1.engine.outstanding =
        d.engine.outstanding + (d.turn stray t).2.copied.length := by
  obtain ⟨hin, hheld, hcount⟩ := h.served ht
  obtain ⟨hlast, heng⟩ := hin.onDelay (d.poll stray t.arrived).delay
    fun hdelay hoff hout => by
      obtain ⟨hexp, hpacket⟩ := h.expires ht hdelay hoff hout
      exact hpacket.trans (ht.unexpired hexp)
  refine ⟨hlast, hheld, ?_⟩
  show acknowledgements (d.polled stray t.arrived) + (_ : Engine).outstanding = _
  rw [show (d.turn stray t).1.engine = (d.served stray t).1.engine from heng]
  exact hcount

/-! ## A whole run -/

/-- A timely run accounts for every op copied: it is acknowledged or still outstanding. -/
theorem InStep.run (h : d.InStep true) {ts : List Turn}
    (hall : d.Throughout stray (Timely stray) ts) :
    (d.run stray ts).1.InStep true ∧ (∀ c ∈ (d.run stray ts).2.copied, c.held = none) ∧
      acknowledgements (d.run stray ts).2.polled + (d.run stray ts).1.engine.outstanding =
        d.engine.outstanding + (d.run stray ts).2.copied.length := by
  induction ts generalizing d with
  | nil => exact ⟨h, fun c hc => by simp [Driver.run, Log.empty] at hc,
      by simp [Driver.run, Log.empty, acknowledgements]⟩
  | cons t ts ih =>
    obtain ⟨ht, hts⟩ := hall
    obtain ⟨hin, hheld, hcount⟩ := h.turn ht
    obtain ⟨hin', hheld', hcount'⟩ := ih hin hts
    refine ⟨hin', ?_, ?_⟩
    · intro c hc
      rcases List.mem_append.1 hc with hc | hc
      · exact hheld c hc
      · exact hheld' c hc
    · show acknowledgements (_ ++ _) + (_ : Engine).outstanding = _ + (_ ++ _ : List Copy).length
      unfold acknowledgements at hcount hcount' ⊢
      rw [List.countP_append, List.length_append]
      simp only [Driver.run] at hcount' ⊢
      omega

end Driver

/-- **No op is overwritten before the controller has acknowledged it.**  In every run in
which, while an op is outstanding, every frame accepted acknowledges it and the timeout
does not run out, an op is copied into `send_packet` only when the engine holds none, and
every op copied but the last has been acknowledged. -/
theorem one_outstanding {stray : UInt8 → UInt8} {opening : List (List UInt8)} {uart : List UInt8}
    {e : Engine} (hopen : hciOpenDeviceInternal stray opening = .opened uart e) {ts : List Turn}
    (hall : (Driver.start uart e).Throughout stray (Timely stray) ts) :
    let log := ((Driver.start uart e).run stray ts).2
    (∀ c ∈ log.copied, c.held = none) ∧ log.copied.length ≤ acknowledgements log.polled + 1 := by
  have hfresh := opened_fresh hopen
  obtain ⟨-, hheld, hcount⟩ := (inStep_start hfresh uart).run hall
  have hout : (Driver.start uart e).engine.outstanding = 0 := by
    have hp : (Driver.start uart e).engine.sendPacket = none := hfresh.packet
    simp [Engine.outstanding, hp]
  have hle : ((Driver.start uart e).run stray ts).1.engine.outstanding ≤ 1 := by
    unfold Engine.outstanding
    split <;> omega
  exact ⟨hheld, by omega⟩

/-! ## A turn that is not timely -/

namespace Driver
variable {stray : UInt8 → UInt8} {d : Driver}

/-- An op that is wanted and queued is copied, over whatever the engine holds. -/
theorem fetch_overwrites {p : Packet} (hwant : d.fetchNewCommand = true)
    (hqueue : d.queue.queueHead < d.queue.queueTail) (hp : d.engine.sendPacket = some p)
    (late : List Op) : ∃ c ∈ (d.fetch late).2, c.held = some p := by
  have hne : isQueueEmpty d.queue = false := by
    simp only [isQueueEmpty, decide_eq_false_iff_not]
    omega
  obtain ⟨hhead, htail⟩ := queueAll_indices late d.queue
  have hsome : dequeueIntoSendPacket (queueAll late d.queue) =
      (some (headPacket (queueAll late d.queue)), dropHead (queueAll late d.queue)) := by
    rw [dequeueIntoSendPacket, if_pos (by omega)]
  refine ⟨⟨some p, headPacket (queueAll late d.queue)⟩, ?_, rfl⟩
  unfold Driver.fetch
  rw [hwant, hne, hsome, hp]
  exact List.mem_singleton.2 rfl

/-- The branches on the activity leave the packet being sent and the queue alone. -/
theorem acted_keeps (stray : UInt8 → UInt8) (t : Turn) (d : Driver) :
    (d.acted stray t).1.engine.sendPacket = (d.poll stray t.arrived).engine.sendPacket ∧
      (d.acted stray t).1.queue = d.queue := by
  obtain ⟨heng, -, hqueue⟩ := onSent_keeps (d.poll stray t.arrived).activity
    { d with engine := (d.poll stray t.arrived).engine, uart := (d.poll stray t.arrived).rest }
  obtain ⟨hpacket, -, hqueue'⟩ := onReceived_keeps (d.poll stray t.arrived).activity
    ({ d with
      engine := (d.poll stray t.arrived).engine, uart := (d.poll stray t.arrived).rest }.onSent
      (d.poll stray t.arrived).activity)
  exact ⟨hpacket.trans (congrArg Engine.sendPacket heng), hqueue'.trans hqueue⟩

/-- An op is wanted after the poll when it was wanted before, or a packet was received. -/
theorem acted_wants {t : Turn}
    (h : d.fetchNewCommand = true ∨ (d.poll stray t.arrived).activity.received = true) :
    (d.acted stray t).1.fetchNewCommand = true := by
  unfold Driver.acted Driver.onReceived
  dsimp only
  split
  · rfl
  · rename_i hrec
    have hw := h.resolve_right hrec
    unfold Driver.onSent
    split
    · simp [hw]
    · exact hw

/-- An op that is wanted and queued in time is copied over an outstanding one. -/
theorem turn_overwrites {t : Turn} {p : Packet}
    (hwant : d.fetchNewCommand = true ∨ (d.poll stray t.arrived).activity.received = true)
    (hqueue : d.queue.queueHead ≤ d.queue.queueTail) (hearly : t.early ≠ [])
    (hp : (d.poll stray t.arrived).engine.sendPacket = some p) :
    ∃ c ∈ (d.turn stray t).2.copied, c.held = some p := by
  obtain ⟨hpacket, hkeep⟩ := acted_keeps stray t d
  obtain ⟨hhead, htail⟩ := queueAll_indices t.early (d.acted stray t).1.queue
  have hlen := List.length_pos_of_ne_nil hearly
  have hlt : (queueAll t.early (d.acted stray t).1.queue).queueHead <
      (queueAll t.early (d.acted stray t).1.queue).queueTail := by
    rw [hhead, htail, hkeep]
    omega
  exact fetch_overwrites
    (d := { (d.acted stray t).1 with queue := queueAll t.early (d.acted stray t).1.queue })
    (acted_wants hwant) hlt (hpacket.trans hp) t.late

/-- The turn at which the timeout runs out: an op is wanted, and nothing else has
happened. -/
theorem turn_of_expires {t : Turn} (h : Expires stray d t) :
    (d.turn stray t).1 = { d with
      engine := (d.poll stray t.arrived).engine, uart := (d.poll stray t.arrived).rest
      queue := queueAll t.late (queueAll t.early d.queue)
      timeout := 0, responseExpected := true, fetchNewCommand := true } := by
  obtain ⟨hdelay, hsent, hrec, hoff, hout⟩ := h
  have hacted : d.acted stray t = ({ d with
      engine := (d.poll stray t.arrived).engine, uart := (d.poll stray t.arrived).rest }, []) := by
    simp [Driver.acted, Driver.onReceived, Driver.onSent, hsent, hrec]
  have hserved : (d.served stray t).1 = { d with
      engine := (d.poll stray t.arrived).engine, uart := (d.poll stray t.arrived).rest
      queue := queueAll t.late (queueAll t.early d.queue) } := by
    simp [Driver.served, hacted, Driver.fetch, hoff]
  simp [Driver.turn, hserved, Driver.onDelay, hdelay, hoff, hout]

/-- The timeout runs out with an op outstanding: the next op queued goes over it in the
turn after, even when that turn is silent. -/
theorem InStep.overwrites_of_expires (h : d.InStep true) {t : Turn} (hexp : Expires stray d t)
    (hheld : (d.poll stray t.arrived).engine.sendPacket ≠ none) (op : Op) :
    ∃ c ∈ ((d.turn stray t).1.turn stray ⟨[], [op], []⟩).2.copied, c.held ≠ none := by
  obtain ⟨hs, -⟩ := h.polled stray t
  obtain ⟨p, hp⟩ := Option.ne_none_iff_exists'.1 hheld
  have hturn := turn_of_expires hexp
  generalize (d.turn stray t).1 = d' at hturn
  have harmed : (d.poll stray t.arrived).engine.receiveArmed = true := by
    rw [hs.armed h.armed, hexp.2.2.1]
    rfl
  have hrest : (d.poll stray t.arrived).rest = [] := ubcspPoll_rest hexp.1 harmed
  have hqueue := ((h.queued t.early).queued t.late).queue
  -- a poll that receives nothing keeps the packet
  have hs' := ubcspPoll_sends stray (h.reliable.of_packet hs.packet) []
  have hp' : (ubcspPoll stray [] (d.poll stray t.arrived).engine).engine.sendPacket = some p := by
    have hcount := hs'.count
    rcases hs'.packet with hp' | hp'
    · exact hp'.trans hp
    · have hnil : pollStates stray [] (d.poll stray t.arrived).engine = [] := by
        unfold pollStates
        split <;> rfl
      rw [hnil] at hcount
      simp [acknowledgements, Engine.outstanding, hp, hp'] at hcount
  have hpoll : d'.poll stray [] = ubcspPoll stray [] (d.poll stray t.arrived).engine := by
    rw [hturn]
    show ubcspPoll stray ((d.poll stray t.arrived).rest ++ []) _ = _
    rw [hrest]
    rfl
  obtain ⟨c, hc, hheld⟩ := @turn_overwrites stray d' ⟨[], [op], []⟩ p
    (Or.inl (by rw [hturn])) (by rw [hturn]; exact hqueue) (by simp) (by rw [hpoll]; exact hp')
  exact ⟨c, hc, by rw [hheld]; simp⟩

/-- A frame that does not acknowledge the op outstanding is accepted: the next op queued
goes over it in the same turn. -/
theorem InStep.overwrites_of_accepted (h : d.InStep true) {t : Turn}
    (hack : ¬ ∀ x ∈ d.polled stray t.arrived,
      x.1.sendPacket ≠ none → Accepts x.1 x.2 → Acknowledges x.1 x.2) (hearly : t.early ≠ []) :
    ∃ c ∈ (d.turn stray t).2.copied, c.held ≠ none := by
  obtain ⟨hs, -⟩ := h.polled stray t
  have hrec : (d.poll stray t.arrived).activity.received = true := by
    cases hrec : (d.poll stray t.arrived).activity.received with
    | true => rfl
    | false => exact absurd (fun x hx _ hacc => absurd hacc (hs.quiet hrec x hx)) hack
  have hheld : (d.poll stray t.arrived).engine.sendPacket ≠ none :=
    fun hnone => hack ((hs.acknowledged hrec).1 hnone)
  obtain ⟨p, hp⟩ := Option.ne_none_iff_exists'.1 hheld
  obtain ⟨c, hc, hheld⟩ := turn_overwrites (Or.inr hrec) h.queue hearly hp
  exact ⟨c, hc, by rw [hheld]; simp⟩

/-- **A turn that is not timely overwrites an op**, as soon as another one is queued
before the loop looks at the queue, or in a silent turn that follows. -/
theorem InStep.overwrites (h : d.InStep true) {t : Turn} (hnot : ¬ Timely stray d t) (op : Op) :
    ∃ c ∈ (d.run stray [{ t with early := op :: t.early }, ⟨[], [op], []⟩]).2.copied,
      c.held ≠ none := by
  by_cases hack : ∀ x ∈ d.polled stray t.arrived,
      x.1.sendPacket ≠ none → Accepts x.1 x.2 → Acknowledges x.1 x.2
  · obtain ⟨hexp, hheld⟩ : Expires stray d t ∧ (d.poll stray t.arrived).engine.sendPacket ≠ none :=
      Classical.not_imp.1 fun himp => hnot ⟨hack, himp⟩
    obtain ⟨c, hc, hne⟩ :=
      @overwrites_of_expires stray d h { t with early := op :: t.early } hexp hheld op
    exact ⟨c, List.mem_append_right _ (List.mem_append_left _ hc), hne⟩
  · obtain ⟨c, hc, hne⟩ :=
      @overwrites_of_accepted stray d h { t with early := op :: t.early } hack (by simp)
    exact ⟨c, List.mem_append_left _ hc, hne⟩

end Driver

/-! ## Two runs -/

/-- The HCI command that resets the controller. -/
def reset : Op := ⟨[0x03, 0x0C, 0x00], 3, 5⟩

/-- **An event that answers nothing overwrites the op being sent**: with two ops queued,
the second is copied over the first. -/
theorem exists_overwritten :
    ∃ uart e ts, hciOpenDeviceInternal id startUp = .opened uart e ∧
      ∃ c ∈ ((Driver.start uart e).run id ts).2.copied, c.held ≠ none :=
  ⟨_, _, [⟨[], [reset, reset], []⟩, ⟨eventFrame, [], []⟩], rfl, by decide +kernel⟩

/-- When the event acknowledges the first op, both are copied in turn. -/
theorem one_outstanding_reset :
    ∃ uart e, hciOpenDeviceInternal id startUp = .opened uart e ∧
      let log := ((Driver.start uart e).run id
        [⟨[], [reset, reset], []⟩, ⟨ackingEventFrame, [], []⟩]).2
      log.copied.length = 2 ∧
        (∀ c ∈ log.copied, c.held = none) ∧ log.copied.length ≤ acknowledgements log.polled + 1 :=
  ⟨_, _, rfl, by decide +kernel, @one_outstanding id startUp _ _ rfl _ (by decide +kernel)⟩

end OpenwrtFeed.HciPoll
