import OpenwrtFeed.DriverQueue
import OpenwrtFeed.Pace
import OpenwrtFeed.Rank

/-! # The loops come to an end of their waiting

Both loops around `ubcsp_poll` wait for the controller, and both give up after a number of
calls that returned a delay: `hci_open_device_internal` returns, and `hci_do_poll` notifies
the client.  Calls that return no delay are not counted, but there cannot be many of them in
a row (`Pace`).  So neither loop goes on in silence for ever: there is a bound on its turns,
whatever octets come in, as long as `ubcsp_poll` reports nothing.

A report of `UBCSP_PACKET_SENT` or `UBCSP_PEER_RESET` may come with an abandoned frame, and
adds to the bound what one frame takes.  A controller that sends CONF RESP and SYNC over and
over can keep `hci_open_device_internal` busy in this way.
-/
namespace OpenwrtFeed.HciPoll
open Ubcsp HciQueue HciBridge

/-! ## Calls in a row -/

/-- The calls of `ubcsp_poll` of a loop that does nothing to the engine in between; the list
holds the octets that arrive before each of them. -/
def calls (stray : UInt8 → UInt8) : List (List UInt8) → List UInt8 → Engine → List PollResult
  | [], _, _ => []
  | arrived :: turns, uart, e =>
    let r := ubcspPoll stray (uart ++ arrived) e
    r :: calls stray turns r.rest r.engine

/-- The call returns a delay. -/
def returnsDelay (r : PollResult) : Bool := decide (r.delay ≠ 0)

theorem returnsDelay_iff {r : PollResult} : returnsDelay r = true ↔ r.delay ≠ 0 :=
  decide_eq_true_iff

/-- The call makes one of the reports that may come with an abandoned frame. -/
def disturbs (r : PollResult) : Bool := r.activity.sent || r.activity.peerReset

theorem countP_or_le {α : Type*} (p q : α → Bool) (xs : List α) :
    (xs.countP fun x => p x || q x) ≤ xs.countP p + xs.countP q := by
  induction xs with
  | nil => exact Nat.zero_le _
  | cons x xs ih =>
    rw [List.countP_cons, List.countP_cons, List.countP_cons]
    cases hp : p x <;> cases hq : q x <;> simp <;> omega

/-- The calls are the steps of a run of the UART and the engine. -/
theorem eventCount_calls (stray : UInt8 → UInt8) (event : PollResult → Bool)
    (turns : List (List UInt8)) (uart : List UInt8) (e : Engine) :
    eventCount
        (fun (s : List UInt8 × Engine) arrived =>
          ((ubcspPoll stray (s.1 ++ arrived) s.2).rest,
            (ubcspPoll stray (s.1 ++ arrived) s.2).engine))
        (fun s arrived => event (ubcspPoll stray (s.1 ++ arrived) s.2)) turns (uart, e) =
      (calls stray turns uart e).countP event := by
  induction turns generalizing uart e with
  | nil => rfl
  | cons arrived turns ih =>
    rw [eventCount, ih, calls, List.countP_cons]
    cases event (ubcspPoll stray (uart ++ arrived) e) <;> simp [Nat.add_comm]

/-- **The calls in a row are bounded by those that return a delay and those that report.** -/
theorem calls_le {limit : Nat} (hlimit : 4 ≤ limit) {e : Engine} (h : Paced limit e)
    (stray : UInt8 → UInt8) (turns : List (List UInt8)) (uart : List UInt8) :
    turns.length ≤ e.rank limit +
      ((calls stray turns uart e).countP returnsDelay +
        (calls stray turns uart e).countP disturbs) * (frameRoom limit + 3) := by
  have hlen := @length_le_of_rank (List UInt8 × Engine) (List UInt8)
    (fun s arrived =>
      ((ubcspPoll stray (s.1 ++ arrived) s.2).rest, (ubcspPoll stray (s.1 ++ arrived) s.2).engine))
    (fun s arrived => returnsDelay (ubcspPoll stray (s.1 ++ arrived) s.2) ||
      disturbs (ubcspPoll stray (s.1 ++ arrived) s.2))
    (fun s => Paced limit s.2) (fun _ _ => True) (fun s => s.2.rank limit) (frameRoom limit + 2)
    (fun s arrived hs _ => (hs.poll hlimit stray (s.1 ++ arrived)).1)
    (fun s arrived hs _ hev => by
      obtain ⟨hdelay, hreport⟩ := Bool.or_eq_false_iff.1 hev
      refine ((hs.poll hlimit stray (s.1 ++ arrived)).2
        (Bool.or_eq_false_iff.1 hreport)).resolve_left ?_
      exact fun hne => absurd hdelay (by simp [returnsDelay, hne]))
    (fun s hs => hs.rank_le) turns (uart, e) (along_of_forall _ (fun _ _ => trivial) _ _) h
  rw [eventCount_calls stray (fun r => returnsDelay r || disturbs r)] at hlen
  have hor := countP_or_le returnsDelay disturbs (calls stray turns uart e)
  have hmul := Nat.mul_le_mul_right (frameRoom limit + 3) hor
  exact hlen.trans (Nat.add_le_add_left hmul _)

/-! ## `hci_open_device_internal` -/

/-- While the loop polls, not many calls have returned a delay. -/
theorem delays_of_polling {stray : UInt8 → UInt8} {turns : List (List UInt8)} {timeout : Nat}
    {uart : List UInt8} {e : Engine} (h : openLoop stray turns timeout uart e = .polling)
    (ht : timeout ≤ 5001) : timeout + (calls stray turns uart e).countP returnsDelay ≤ 5001 := by
  induction turns generalizing timeout uart e with
  | nil => exact ht
  | cons arrived turns ih =>
    rw [openLoop] at h
    rw [calls, List.countP_cons]
    split at h
    · cases h
    · split at h
      · rename_i hdelay
        split at h
        · cases h
        · have hrest := ih h (by omega)
          rw [if_pos (returnsDelay_iff.2 hdelay)]
          omega
      · rename_i hdelay
        have hrest := ih h ht
        rw [if_neg (mt returnsDelay_iff.1 hdelay)]
        omega

/-- **How long `hci_open_device_internal` polls.**  The loop takes fewer than 25 turns for each of
5002 delays and for each call that has reported a sent packet or a peer reset.  Only a delay brings
the loop nearer to its end: a controller that sends a CONF RESP and a SYNC whenever the loop reads
resets the engine again and again, and keeps the loop polling without a delay. -/
theorem opening_returns {stray : UInt8 → UInt8} {turns : List (List UInt8)}
    (h : hciOpenDeviceInternal stray turns = .polling) :
    turns.length < 25 * (5002 + (calls stray turns []
      (ubcspReceivePacket receivePacket (ubcspInitialize .zero))).countP disturbs) := by
  have hpaced : Paced 4 (ubcspReceivePacket receivePacket (ubcspInitialize .zero)) :=
    (paced_zero 4).of_tx rfl (Or.inl rfl)
  have hlen := calls_le (Nat.le_refl 4) hpaced stray turns []
  have hdelays := delays_of_polling h (Nat.zero_le _)
  have hrank : Engine.rank 4 (ubcspReceivePacket receivePacket (ubcspInitialize .zero)) = 23 := rfl
  rw [hrank] at hlen
  generalize (calls stray turns [] _).countP returnsDelay = delays at hlen hdelays
  generalize (calls stray turns [] _).countP disturbs = reports at hlen ⊢
  simp only [frameRoom] at hlen
  omega

/-- The controller says nothing for twelve turns, then sends a CONF RESP and a SYNC, and says
nothing again. -/
def answeredOnce : List (List UInt8) :=
  List.replicate 12 [] ++ [slipFrame :: plainLeFrame .confResp ++ plainLeFrame .sync] ++
    List.replicate 40 []

set_option maxRecDepth 8192 in
/-- The link comes up and is reset in one call, and the loop polls on, with 27 of its delays used
up. -/
theorem opening_returns_reset :
    let polls := calls id answeredOnce [] (ubcspReceivePacket receivePacket (ubcspInitialize .zero))
    polls.countP (fun r => r.activity.peerReset) = 1 ∧ polls.countP returnsDelay = 27 ∧
      answeredOnce.length = 53 ∧ answeredOnce.length < 25 * (5002 + polls.countP disturbs) := by
  have hpolling : hciOpenDeviceInternal id answeredOnce = .polling := rfl
  exact ⟨by decide +kernel, by decide +kernel, rfl, opening_returns hpolling⟩

/-! ## The pace of the driver -/

/-- What every call keeps holds of the engine with which `hci_open_device_internal` returns. -/
theorem opened_of_poll {stray : UInt8 → UInt8} {P : Engine → Prop}
    (hpoll : ∀ e rx, P e → P (ubcspPoll stray rx e).engine)
    (hstart : P (ubcspReceivePacket receivePacket (ubcspInitialize .zero)))
    {turns : List (List UInt8)} {uart : List UInt8} {e : Engine}
    (h : hciOpenDeviceInternal stray turns = .opened uart e) : P e := by
  have loop : ∀ (turns : List (List UInt8)) (timeout : Nat) (u : List UInt8) (e₀ : Engine), P e₀ →
      openLoop stray turns timeout u e₀ = .opened uart e → P e := by
    intro turns
    induction turns with
    | nil => exact fun _ _ _ _ h => nomatch h
    | cons arrived turns ih =>
      intro timeout u e₀ he₀ hopen
      have hnext := hpoll e₀ (u ++ arrived) he₀
      rw [openLoop] at hopen
      split at hopen
      · obtain ⟨-, rfl⟩ := Opening.opened.inj hopen
        exact hnext
      · split at hopen
        · split at hopen
          · cases hopen
          · exact ih _ _ _ hnext hopen
        · exact ih _ _ _ hnext hopen
  exact loop turns 0 [] _ hstart h

namespace Driver
variable {stray : UInt8 → UInt8} {d : Driver}

/-- The engine keeps the pace and sends reliably, and the queue is orderly. -/
structure Steady (d : Driver) : Prop where
  paced : Paced 510 d.engine
  ranged : Ranged d.engine
  reliable : d.engine.SendsReliably
  queue : Orderly Deliverable d.queue

theorem steady_start {turns : List (List UInt8)} {uart : List UInt8} {e : Engine}
    (h : hciOpenDeviceInternal stray turns = .opened uart e) : (Driver.start uart e).Steady where
  paced := (opened_of_poll (P := Paced 510) (fun _ rx he => (he.poll (by decide) stray rx).1)
    ((paced_zero 510).of_tx rfl (Or.inl rfl)) h).of_tx rfl (Or.inl rfl)
  ranged := by
    have hranged := opened_of_poll (P := Ranged) (fun _ rx he => he.poll stray rx)
      ⟨Nat.zero_le _, Nat.zero_le _⟩ h
    exact ⟨hranged.delay, hranged.resp⟩
  reliable p hp := by cases (opened_fresh h).packet.symm.trans hp
  queue := Orderly.zero

/-- The branches on the activity change nothing that is sent. -/
theorem acted_engine (t : Turn) :
    (d.acted stray t).1.engine = (d.poll stray t.arrived).engine ∨
      (d.acted stray t).1.engine = rearm (d.poll stray t.arrived).engine := by
  rw [(acted_eq t).1]
  split
  · exact Or.inr rfl
  · exact Or.inl rfl

theorem Steady.turn (h : d.Steady) {t : Turn} (ht : ∀ op ∈ t.ops, Deliverable op) :
    (d.turn stray t).1.Steady := by
  have hpoll : Paced 510 (d.poll stray t.arrived).engine := (h.paced.poll (by decide) stray _).1
  have hranged : Ranged (d.poll stray t.arrived).engine := h.ranged.poll stray _
  have hrel : (d.poll stray t.arrived).engine.SendsReliably :=
    h.reliable.of_packet (ubcspPoll_sends stray h.reliable _).packet
  have hacted : Paced 510 (d.acted stray t).1.engine ∧ Ranged (d.acted stray t).1.engine ∧
      (d.acted stray t).1.engine.SendsReliably := by
    rcases @acted_engine stray d t with he | he <;> rw [he]
    · exact ⟨hpoll, hranged, hrel⟩
    · exact ⟨hpoll.of_tx rfl (Or.inl rfl), ⟨hranged.delay, hranged.resp⟩, hrel⟩
  obtain ⟨hpaced, hranged, hrel⟩ := hacted
  have hserves := @turn_serves _ stray d (fun _ h => h.sized) h.queue t ht
  generalize (d.turn stray t).1 = d' at hserves ⊢
  generalize (d.turn stray t).2.copied = copied at hserves
  cases hserves with
  | waits heng hq _ => exact ⟨heng ▸ hpaced, heng ▸ hranged, heng ▸ hrel, hq⟩
  | @copies op heng hq hdeliver _ =>
    refine ⟨?_, ?_, ?_, hq⟩ <;> rw [heng]
    · exact hpaced.submit hdeliver.sized.counted.symm hdeliver.nonempty hdeliver.short
    · exact ⟨hranged.delay, hranged.resp⟩
    · intro p hp
      obtain rfl := Option.some.inj hp
      exact show (1 : UInt8) ≠ 0 by decide

theorem Steady.run (h : d.Steady) {ts : List Turn} (hts : ∀ t ∈ ts, ∀ op ∈ t.ops, Deliverable op) :
    (d.run stray ts).1.Steady := by
  induction ts generalizing d with
  | nil => exact h
  | cons t ts ih =>
    obtain ⟨ht, hts⟩ := List.forall_mem_cons.1 hts
    exact ih (h.turn ht) hts

/-! ## `hci_do_poll` -/

/-- The calls of `ubcsp_poll` of a run. -/
def polls (stray : UInt8 → UInt8) : List Turn → Driver → List PollResult
  | [], _ => []
  | t :: ts, d => d.poll stray t.arrived :: polls stray ts (d.turn stray t).1

/-- **A turn that waits for a response**, at which nothing is reported: a delay is counted, and
the client is notified when the count is full. -/
theorem turn_waiting (hwait : d.fetchNewCommand = false) {t : Turn}
    (hsent : (d.poll stray t.arrived).activity.sent = false)
    (hrec : (d.poll stray t.arrived).activity.received = false) :
    ⟨playgroundTimeout, [], 0⟩ ∈ (d.turn stray t).2.sent ∨
      ((d.turn stray t).1.engine = (d.poll stray t.arrived).engine ∧
        (d.turn stray t).1.uart = (d.poll stray t.arrived).rest ∧
        (d.turn stray t).1.fetchNewCommand = false ∧
        (d.turn stray t).1.timeout = d.timeout + (returnsDelay (d.poll stray t.arrived)).toNat ∧
        (returnsDelay (d.poll stray t.arrived) = true → d.timeout + 1 < 10000)) := by
  set r := d.poll stray t.arrived with hr
  have hacted : d.acted stray t = ({ d with engine := r.engine, uart := r.rest }, []) := by
    unfold acted
    dsimp only
    rw [← hr, onSent, if_neg (by simp [hsent]), onReceived, if_neg (by simp [hrec])]
  have hserved : d.served stray t =
      ({ d with
        engine := r.engine, uart := r.rest
        queue := queueAll t.late (queueAll t.early d.queue) }, []) := by
    unfold served
    rw [hacted]
    dsimp only
    rw [fetch, if_neg (by simp [hwait])]
  have hturn : d.turn stray t =
      (({ d with
        engine := r.engine, uart := r.rest, queue := queueAll t.late (queueAll t.early d.queue) } :
          Driver).onDelay r.delay |>.1,
        ⟨d.polled stray t.arrived, [], ({ d with
          engine := r.engine, uart := r.rest
          queue := queueAll t.late (queueAll t.early d.queue) } :
            Driver).onDelay r.delay |>.2⟩) := by
    unfold turn
    rw [hserved, hacted, ← hr]
    rfl
  rw [hturn]
  unfold onDelay
  by_cases hdelay : r.delay = 0
  · right
    have hno : returnsDelay r = false := Bool.eq_false_iff.2 fun h => returnsDelay_iff.1 h hdelay
    rw [if_neg (not_not.2 hdelay), hno]
    exact ⟨rfl, rfl, hwait, rfl, fun h => absurd h Bool.false_ne_true⟩
  · have hyes : returnsDelay r = true := returnsDelay_iff.2 hdelay
    rw [if_pos hdelay, if_neg (show ¬ d.fetchNewCommand = true by simp [hwait])]
    dsimp only
    by_cases hfull : 10000 ≤ d.timeout + 1
    · left
      rw [if_pos ⟨hfull, hwait⟩]
      exact List.mem_singleton.2 rfl
    · right
      rw [if_neg fun h => hfull h.1, hyes]
      exact ⟨rfl, rfl, hwait, rfl, fun _ => by omega⟩

/-- **Turns that wait**: the client is notified, or they do nothing but call `ubcsp_poll`, and
not many of the calls return a delay. -/
theorem run_waiting {ts : List Turn} (hwait : d.fetchNewCommand = false)
    (hquiet : ∀ r ∈ d.polls stray ts, r.activity.sent = false ∧ r.activity.received = false) :
    ⟨playgroundTimeout, [], 0⟩ ∈ (d.run stray ts).2.sent ∨
      (d.polls stray ts = calls stray (ts.map Turn.arrived) d.uart d.engine ∧
        ((d.polls stray ts).countP returnsDelay = 0 ∨
          d.timeout + (d.polls stray ts).countP returnsDelay < 10000)) := by
  induction ts generalizing d with
  | nil => exact Or.inr ⟨rfl, Or.inl rfl⟩
  | cons t ts ih =>
    obtain ⟨⟨hsent, hrec⟩, hquiet⟩ := List.forall_mem_cons.1 hquiet
    have hlog : (d.run stray (t :: ts)).2.sent =
        (d.turn stray t).2.sent ++ ((d.turn stray t).1.run stray ts).2.sent := rfl
    rw [hlog]
    rcases turn_waiting hwait hsent hrec with hnote | ⟨heng, huart, hwait', htime, hlow⟩
    · exact Or.inl (List.mem_append_left _ hnote)
    · rcases ih hwait' hquiet with hnote | ⟨hcalls, hcount⟩
      · exact Or.inl (List.mem_append_right _ hnote)
      · right
        rw [heng, huart] at hcalls
        refine ⟨congrArg (d.poll stray t.arrived :: ·) hcalls, ?_⟩
        rw [polls, List.countP_cons]
        rw [htime] at hcount
        cases hd : returnsDelay (d.poll stray t.arrived) with
        | false =>
          rw [hd] at hcount
          simpa using hcount
        | true =>
          have hone := hlow hd
          rw [hd, Bool.toNat_true] at hcount
          rw [if_pos rfl]
          omega

end Driver

/-- **`hci_do_poll` never waits in silence for ever.**  In every run whose ops can be delivered,
when the loop waits for a response and `ubcsp_poll` reports neither a sent nor a received packet,
the client is notified of a timeout after at most 1037 turns for each of 10000 delays and for each
peer reset, whatever octets come in and whatever is queued from then on. -/
theorem silence_ends {stray : UInt8 → UInt8} {opening : List (List UInt8)} {uart : List UInt8}
    {e : Engine} (hopen : hciOpenDeviceInternal stray opening = .opened uart e)
    {before ts : List Turn} (hops : ∀ t ∈ before, ∀ op ∈ t.ops, Deliverable op)
    (hwait : ((Driver.start uart e).run stray before).1.fetchNewCommand = false)
    (hquiet : ∀ r ∈ ((Driver.start uart e).run stray before).1.polls stray ts,
      r.activity.sent = false ∧ r.activity.received = false)
    (hlong : 1037 * (10000 + (((Driver.start uart e).run stray before).1.polls stray ts).countP
      fun r => r.activity.peerReset) ≤ ts.length) :
    ⟨playgroundTimeout, [], 0⟩ ∈
    (((Driver.start uart e).run stray before).1.run stray ts).2.sent := by
  have hsteady := @Driver.Steady.run stray _ (Driver.steady_start hopen) before hops
  generalize ((Driver.start uart e).run stray before).1 = d at hwait hquiet hlong hsteady ⊢
  rcases Driver.run_waiting hwait hquiet with hnote | ⟨hcalls, hcount⟩
  · exact hnote
  · exfalso
    have hlen := calls_le (show 4 ≤ 510 by decide) hsteady.paced stray (ts.map Turn.arrived) d.uart
    have hrank := hsteady.paced.rank_le
    rw [← hcalls, List.length_map] at hlen
    have hdisturbs : (d.polls stray ts).countP disturbs =
        (d.polls stray ts).countP fun r => r.activity.peerReset := by
      refine List.countP_congr fun r hr => ?_
      rw [disturbs, (hquiet r hr).1, Bool.false_or]
    rw [hdisturbs] at hlen
    generalize (d.polls stray ts).countP returnsDelay = delays at hlen hcount
    generalize ((d.polls stray ts).countP fun r => r.activity.peerReset) = resets at hlen hlong
    simp only [frameRoom] at hlen hrank
    omega

/-! ### A controller that says nothing -/

namespace Driver
variable {stray : UInt8 → UInt8} {d : Driver}

/-- There is nothing in the UART and nothing in the queue, and only reliable packets are
sent. -/
structure Idle (d : Driver) : Prop where
  uart : d.uart = []
  queue : isQueueEmpty d.queue = true
  reliable : d.engine.SendsReliably

/-- A turn in which nothing comes in and nothing is queued. -/
def silentTurn : Turn := ⟨[], [], []⟩

/-- It reports nothing, takes nothing from the UART and copies nothing. -/
theorem Idle.turn (h : d.Idle) :
    (d.poll stray []).activity = .none ∧ (d.turn stray silentTurn).2.polled = [] ∧
      (d.turn stray silentTurn).2.copied = [] ∧ (d.turn stray silentTurn).1.Idle := by
  have hnone : (d.poll stray []).activity = .none ∧ (d.poll stray []).rest = [] := by
    have hsilent := sendHalf_silent h.reliable
    unfold poll ubcspPoll
    rw [h.uart]
    dsimp only
    split
    · exact ⟨rfl, rfl⟩
    · exact ⟨hsilent, rfl⟩
  have hpolled : d.polled stray [] = [] := by
    unfold polled pollStates
    rw [h.uart]
    split <;> rfl
  have hacted : d.acted stray silentTurn =
      ({ d with engine := (d.poll stray []).engine, uart := [] }, []) := by
    unfold acted silentTurn
    dsimp only
    rw [hnone.1, hnone.2]
    rfl
  have hserved : d.served stray silentTurn =
      ({ d with engine := (d.poll stray []).engine, uart := [] }, []) := by
    unfold served
    rw [hacted]
    dsimp only [silentTurn, queueAll, List.foldl_nil]
    rw [fetch, if_neg (by simp [h.queue])]
    rfl
  obtain ⟨heng, huart, -⟩ := onDelay_keeps (d.poll stray []).delay (d.served stray silentTurn).1
  have hqueue := onDelay_queue (d.poll stray []).delay (d.served stray silentTurn).1
  rw [hserved] at heng huart hqueue
  have hcopied : (d.served stray silentTurn).2 = [] := by rw [hserved]
  have hlast : (d.turn stray silentTurn).1 =
      ((d.served stray silentTurn).1.onDelay (d.poll stray []).delay).1 := rfl
  rw [hserved] at hlast
  refine ⟨hnone.1, hpolled, hcopied, hlast ▸ huart, ?_, ?_⟩
  · rw [hlast, hqueue]
    exact h.queue
  · rw [hlast, heng]
    exact h.reliable.of_packet (ubcspPoll_sends stray h.reliable _).packet

/-- Neither do such turns in a row. -/
theorem Idle.run (h : d.Idle) (n : Nat) :
    (∀ r ∈ d.polls stray (List.replicate n silentTurn), r.activity = .none) ∧
      (d.run stray (List.replicate n silentTurn)).2.polled = [] ∧
      (d.run stray (List.replicate n silentTurn)).2.copied = [] := by
  induction n generalizing d with
  | zero => exact ⟨fun _ hr => (nomatch hr), rfl, rfl⟩
  | succ n ih =>
    obtain ⟨hnone, hpolled, hcopied, hidle⟩ := @Idle.turn stray d h
    obtain ⟨hnones, hpolleds, hcopieds⟩ := ih hidle
    rw [List.replicate_succ]
    exact ⟨List.forall_mem_cons.2 ⟨hnone, hnones⟩, List.append_eq_nil_iff.2 ⟨hpolled, hpolleds⟩,
      List.append_eq_nil_iff.2 ⟨hcopied, hcopieds⟩⟩

end Driver

/-- The loop has copied its first op. -/
theorem idle_reset : ∃ uart e, hciOpenDeviceInternal id startUp = .opened uart e ∧
    (∀ t ∈ [⟨[], [reset], []⟩], ∀ op ∈ Turn.ops t, Deliverable op) ∧
    let d := ((Driver.start uart e).run id [⟨[], [reset], []⟩]).1
    d.fetchNewCommand = false ∧ d.engine.sendPacket = some reset.packet ∧
      d.engine.linkEstablishmentState = .active ∧ d.Idle := by
  have hreset : Deliverable reset := ⟨⟨rfl, by decide, by decide⟩, by decide, by decide⟩
  refine ⟨_, _, rfl, by simpa [Turn.ops] using hreset, by decide +kernel, by decide +kernel, by
    decide +kernel, by decide +kernel, by decide +kernel, ?_⟩
  have hreliable : ∀ p ∈ (some reset.packet : Option Packet), p.reliable ≠ 0 := by decide
  exact hreliable

/-- **The controller never answers the first op**: after 10370000 turns the client has been
notified. -/
theorem silence_ends_reset : ∃ uart e, hciOpenDeviceInternal id startUp = .opened uart e ∧
    ⟨playgroundTimeout, [], 0⟩ ∈ (((Driver.start uart e).run id [⟨[], [reset], []⟩]).1.run id
      (List.replicate 10370000 Driver.silentTurn)).2.sent := by
  obtain ⟨uart, e, hopen, hops, hwait, -, -, hidle⟩ := idle_reset
  obtain ⟨hnone, -, -⟩ := @Driver.Idle.run id _ hidle 10370000
  refine ⟨uart, e, hopen,
    silence_ends hopen hops hwait (fun r hr => by rw [hnone r hr]; exact ⟨rfl, rfl⟩) ?_⟩
  rw [List.countP_eq_zero.2 fun r hr => by rw [hnone r hr]; exact Bool.false_ne_true,
    List.length_replicate]

end OpenwrtFeed.HciPoll
