import OpenwrtFeed.Completion

/-! # How soon an acknowledgement may go out

A call of `ubcsp_poll` that accepts a reliable packet owes the peer an ACK, and the receive
loop sets `ubcsp_config.delay` to zero lest it be late.  The end of the call goes back on
that: it sees no delay running, and takes the one that the sending half has decided on.
That is none, unless the sending half has closed a frame or found nothing to send; in
these two cases the ACK waits for 25 more calls (`prompt_ack_iff`).
-/
namespace OpenwrtFeed.Ubcsp

/-- The sending half of this call finds nothing to send. -/
def Idles (e : Engine) : Prop :=
  e.delay = 0 ∧ e.sendSize = 0 ∧ e.linkEstablishmentPacket = .none ∧
    e.linkEstablishmentResp &&& 2 = 0 ∧ e.sendPacket = none ∧ e.sendAck = false

instance (e : Engine) : Decidable (Idles e) := inferInstanceAs (Decidable (_ ∧ _))

/-! ## What the sending half decides -/

theorem endOfBlock_delay (e : Engine) :
    (endOfBlock e).delay =
      if e.nextSendPtr = none ∧ e.needSendCrc = false then pollTimeDelay else 0 := by
  unfold endOfBlock
  cases hptr : e.nextSendPtr with
  | some l => simp
  | none => cases hcrc : e.needSendCrc <;> simp

theorem sendOctet_delay {e : Engine} (hd : e.delay = 0) (hs : e.sendSize ≠ 0) :
    (sendOctet e).delay = if ClosesFrame e then pollTimeDelay else 0 := by
  obtain ⟨hsize, hptr, -, hcrc⟩ := putOctet_keeps e
  have hcall := sendOctet_eq (putOctet_snd e)
  by_cases hesc : (putOctet e).2.tx.sendSlipEscape = 0
  · rw [if_neg fun hne => hne hesc] at hcall
    by_cases hlast : (putOctet e).2.tx.sendSize - 1 = 0
    · have hone : e.sendSize = 1 := by
        rw [Engine.tx_sendSize, hsize] at hlast
        omega
      rw [if_pos hlast] at hcall
      rw [hcall]
      show (endOfBlock _).delay = _
      rw [endOfBlock_delay]
      show (if (putOctet e).2.nextSendPtr = none ∧ (putOctet e).2.needSendCrc =
          false then _ else _) = _
      rw [hptr, hcrc]
      refine if_congr ⟨fun h => ⟨hd, hone, hesc, h⟩, fun h => h.2.2.2⟩ rfl rfl
    · rw [if_neg hlast] at hcall
      rw [hcall, if_neg]
      rintro ⟨-, hone, -⟩
      rw [Engine.tx_sendSize, hsize, hone] at hlast
      exact hlast rfl
  · rw [if_pos hesc] at hcall
    rw [hcall, if_neg fun h => hesc h.2.2.1]

/-- **The delay that the sending half decides on**: none, unless it closes a frame or finds
nothing to send. -/
theorem sendHalf_delay (e : Engine) :
    (sendHalf e).delay = if ClosesFrame e ∨ Idles e then pollTimeDelay else 0 := by
  rcases sendHalf_cases e with ⟨hd, h⟩ | ⟨hd, hs, h⟩ | ⟨hd, hs, hp, h⟩ | ⟨hd, hs, hp, h⟩
  · rw [h, if_neg]
    rintro (hclose | hidle)
    · exact hd hclose.1
    · exact hd hidle.1
  · rw [h, sendOctet_delay hd hs]
    exact if_congr (or_iff_left fun hidle => hs hidle.2.1).symm rfl rfl
  · have hopen : ¬ ClosesFrame e := fun hclose => by cases hs.symm.trans hclose.2.1
    rcases startFrame_cases e with
      ⟨hr, hc⟩ | ⟨hr, p, hpack, hc⟩ | ⟨hr, hpack, hack, hc⟩ | ⟨hr, hpack, hack, hc⟩
    · rw [h, hc, if_neg]
      rintro (hclose | hidle)
      · exact hopen hclose
      · exact hr hidle.2.2.2.1
    · rw [h, hc, if_neg]
      rintro (hclose | hidle)
      · exact hopen hclose
      · cases hpack.symm.trans hidle.2.2.2.2.1
    · rw [h, hc, if_neg]
      rintro (hclose | hidle)
      · exact hopen hclose
      · cases hack.symm.trans hidle.2.2.2.2.2
    · rw [h, hc, if_pos (Or.inr ⟨hd, hs, hp, hr, hpack, hack⟩)]
  · rw [h, if_neg]
    · rfl
    · rintro (hclose | hidle)
      · cases hs.symm.trans hclose.2.1
      · exact hp hidle.2.2.1

/-- The sending half acknowledges nothing. -/
theorem sendHalf_ack (e : Engine) : (sendHalf e).activity.ack = false := by
  rcases sendHalf_cases e with ⟨-, h⟩ | ⟨-, -, h⟩ | ⟨-, -, -, h⟩ | ⟨-, -, -, h⟩ <;> rw [h]
  · rfl
  · rcases sendOctet_cases e with ⟨tx, t, hc⟩ | ⟨tx, t, hc⟩ <;> rw [hc]
    · rfl
    · rcases sentPacket_eq (e.withTx t) with ⟨hs, -⟩ | ⟨hs, -⟩ <;> rw [hs] <;> rfl
  · rcases startFrame_cases e with ⟨-, hc⟩ | ⟨-, p, -, hc⟩ | ⟨-, -, -, hc⟩ | ⟨-, -, -, hc⟩ <;>
      rw [hc] <;> rfl
  · rfl

/-! ## What the receive loop does -/

theorem storeOctet_delay (value : UInt8) (e : Engine) : (storeOctet value e).delay = e.delay := by
  rw [storeOctet_eq]
  rfl

/-- An octet that brings an acknowledgement due leaves no delay. -/
theorem receiveOctet_prompt (stray : UInt8 → UInt8) (value : UInt8) {a : Activity} {e : Engine}
    (h : a.ack = true → e.delay = 0) :
    (receiveOctet stray value a e).1.ack = true → (receiveOctet stray value a e).2.delay = 0 := by
  unfold receiveOctet
  split
  · intro hack
    exact (storeOctet_delay _ _).trans (h hack)
  · split
    · unfold endOfFrame
      split
      · intro hack
        dsimp only at hack ⊢
        rw [if_pos hack]
      · exact h
    · split
      · exact h
      · intro hack
        exact (storeOctet_delay _ _).trans (h hack)

theorem receiveLoop_prompt (stray : UInt8 → UInt8) (rx : List UInt8) {a : Activity} {e : Engine}
    (h : a.ack = true → e.delay = 0) :
    (receiveLoop stray rx a e).1.ack = true → (receiveLoop stray rx a e).2.2.delay = 0 := by
  induction rx generalizing a e with
  | nil => exact h
  | cons value rx ih =>
    unfold receiveLoop
    split
    · exact ih (receiveOctet_prompt stray value h)
    · exact h

/-! ## The call -/

/-- **An acknowledgement may go out at the next call exactly when this one has neither closed
a frame nor found nothing to send**, whatever is received. -/
theorem prompt_ack_iff {stray : UInt8 → UInt8} {rx : List UInt8} {e : Engine}
    (h : (ubcspPoll stray rx e).activity.ack = true) :
    ((ubcspPoll stray rx e).delay = 0 ∧ (ubcspPoll stray rx e).engine.delay = 0) ↔
      ¬ (ClosesFrame e ∨ Idles e) := by
  have hprompt := @receiveLoop_prompt stray rx (sendHalf e).activity (sendHalf e).engine
    fun hack => by cases (sendHalf_ack e).symm.trans hack
  have hdelay := sendHalf_delay e
  unfold ubcspPoll at h ⊢
  dsimp only at h ⊢
  cases hret : (sendHalf e).returned with
  | true =>
    rw [hret] at h
    cases h
  | false =>
    rw [hret] at h
    have hloop := hprompt h
    have hend : ∀ d,
        (finishPoll d (receiveLoop stray rx (sendHalf e).activity (sendHalf e).engine).2.2).delay =
          d := by
      intro d
      unfold finishPoll
      rw [hloop, if_neg (Nat.lt_irrefl 0)]
    simp only [Bool.false_eq_true, if_false, hend, hdelay, and_self]
    split
    · rename_i hwaits
      exact iff_of_false (by decide) (not_not.2 hwaits)
    · rename_i hnot
      exact iff_of_true rfl hnot

/-! ### Acknowledgements -/

/-- A reliable packet of one octet, the first of the connection. -/
def reliableFrame : List UInt8 := [slipFrame, 0x80, 0x15, 0x00, 0x6A, 0x0E, slipFrame]

/-- The engine of a watched run is reachable. -/
theorem Watched.reachable {stray : UInt8 → UInt8} {w : Watch} (h : Watched stray w) :
    Reachable stray (fun _ _ => True) w.engine := by
  induction h with
  | start => exact .start
  | poll rx _ ih => exact ih.poll rx fun _ _ => trivial
  | submit p _ _ _ ih => exact ih.send p
  | receive q _ ih => exact ih.receive q

/-- The packet comes in while a frame is being sent. -/
theorem prompt_ack_sending :
    let r := ubcspPoll id reliableFrame (activated.wait id 1).engine
    r.activity.ack = true ∧ r.delay = 0 ∧ r.engine.delay = 0 := by
  have hack : (ubcspPoll id reliableFrame (activated.wait id 1).engine).activity.ack = true := by
    decide
  exact ⟨hack, (prompt_ack_iff hack).2 (by decide)⟩

/-- **An acknowledgement is put off**: the engine has had nothing to send when the packet
comes in, and waits for 25 calls with the ACK. -/
theorem exists_late_ack :
    ∃ e, Reachable id (fun _ _ => True) e ∧ (ubcspPoll id reliableFrame e).activity.ack = true ∧
      (ubcspPoll id reliableFrame e).engine.sendAck = true ∧
      (ubcspPoll id reliableFrame e).delay = 25 ∧
      (ubcspPoll id reliableFrame e).engine.delay = 25 := by
  exact ⟨(activated.wait id 36).engine, (activated_watched.wait 36).reachable, by decide +kernel,
    by decide +kernel, by decide +kernel, by decide +kernel⟩

end OpenwrtFeed.Ubcsp
