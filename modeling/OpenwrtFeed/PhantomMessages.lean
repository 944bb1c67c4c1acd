import OpenwrtFeed.BridgeSession

/-! # Messages that were never sent

`session` tests the three results of `recv` in three ways.  The test of the first one
compares the result with `sizeof (uint16_t)`, which is unsigned, so that -1 passes it; the
length is then what the variable happens to hold, and if the next two calls succeed, a
message is dispatched whose length was never received.  The other two tests see every
failure.  So a session makes no message up, and ends with the first failed read of a length,
exactly when no such read fails with a small number in the variable (`no_phantom_iff`).
-/
namespace OpenwrtFeed.HciBridge

/-- A call of `recv`: what it returns, and what the variable `length` holds before it is
set. -/
structure RecvCall where
  returned : Recv
  unset : UInt16
deriving DecidableEq

/-- The octets that a call has received. -/
def Recv.received : Recv → List UInt8
  | .error => []
  | .octets l => l

namespace Session

/-- The session after a call. -/
def call (order : HostOrder) (c : RecvCall) (s : Session) : Session :=
  s.recv order c.unset c.returned

/-- The session after a sequence of calls, from its start. -/
def calls (order : HostOrder) (cs : List RecvCall) : Session :=
  cs.foldl (fun s c => s.call order c) .start

theorem calls_concat (order : HostOrder) (cs : List RecvCall) (c : RecvCall) :
    calls order (cs ++ [c]) = (calls order cs).call order c := by
  simp [calls]

end Session

/-! ## The law -/

/-- The last three calls of a sequence have received a message: its length, its type and as
many octets as the length says, less one for the type. -/
def ReceivesMessage (order : HostOrder) (cs : List RecvCall) (x : Dispatch) : Prop :=
  ∃ before length commandType payload,
    cs = before ++ [length, commandType, payload] ∧ (Session.calls order before).reading = .length ∧
      2 ≤ length.returned.received.length ∧ 1 ≤ commandType.returned.received.length ∧
      payload.returned.received.length + 1 =
        (order.number (length.returned.received.getD 0 0)
          (length.returned.received.getD 1 0)).toNat ∧
      x = dispatch (commandType.returned.received.getD 0 0) payload.returned.received

/-- **No phantom messages**: at every point of a session, what a call dispatches has been
received, and a read of a length that is failed or short ends the session. -/
structure NoPhantom (order : HostOrder) (cs : List RecvCall) : Prop where
  dispatched : ∀ before c x, before ++ [c] <+: cs →
    (Session.calls order (before ++ [c])).dispatched =
      (Session.calls order before).dispatched ++ [x] →
      ReceivesMessage order (before ++ [c]) x
  ends : ∀ before c, before ++ [c] <+: cs → (Session.calls order before).reading = .length →
    c.returned.received.length < 2 → (Session.calls order (before ++ [c])).reading = .ended

/-- A read of a length fails, and the variable holds a length that is accepted. -/
def FailsUnseen (order : HostOrder) (before : List RecvCall) (c : RecvCall) : Prop :=
  (Session.calls order before).reading = .length ∧ c.returned = .error ∧ c.unset ≤ 4096

/-! ## What a call of `recv` follows -/

namespace Session
variable {order : HostOrder} {s : Session} {c : RecvCall}

theorem gotLength_eq_commandType {length n : UInt16}
    (h : (s.gotLength length).reading = .commandType n) :
    n = length ∧ length ≤ 4096 := by
  unfold gotLength at h
  split at h
  · cases h
  · rename_i hle
    exact ⟨(Reading.commandType.inj h).symm, UInt16.not_lt.1 hle⟩

/-- The type is read after a length, which has been received unless the read has failed
unseen. -/
theorem call_eq_commandType {n : UInt16} (h : (s.call order c).reading = .commandType n) :
    s.reading = .length ∧ ((c.returned = .error ∧ c.unset ≤ 4096) ∨
      (2 ≤ c.returned.received.length ∧
        n = order.number (c.returned.received.getD 0 0) (c.returned.received.getD 1 0))) := by
  unfold call recv at h
  split at h
  · rename_i hreading hret
    exact ⟨hreading, Or.inl ⟨hret, (gotLength_eq_commandType h).2⟩⟩
  · rename_i l hreading hret
    split at h
    · cases h
    · rename_i hlen
      rw [hret]
      exact ⟨hreading, Or.inr ⟨Nat.not_lt.1 hlen, (gotLength_eq_commandType h).1⟩⟩
  · cases h
  · split at h <;> cases h
  · cases h
  · split at h <;> cases h
  · rename_i hreading
    rw [hreading] at h
    cases h

/-- The payload is read after a type, which has been received. -/
theorem call_eq_payload {n : UInt16} {t : UInt8} (h : (s.call order c).reading = .payload n t) :
    s.reading = .commandType n ∧ 1 ≤ c.returned.received.length ∧
      t = c.returned.received.getD 0 0 := by
  unfold call recv at h
  split at h
  · unfold gotLength at h
    split at h <;> cases h
  · split at h
    · cases h
    · unfold gotLength at h
      split at h <;> cases h
  · cases h
  · rename_i length l hreading hret
    split at h
    · cases h
    · rename_i hlen
      obtain ⟨rfl, rfl⟩ := Reading.payload.inj h
      rw [hret]
      exact ⟨hreading, Nat.pos_of_ne_zero hlen, rfl⟩
  · cases h
  · split at h <;> cases h
  · rename_i hreading
    rw [hreading] at h
    cases h

/-- A message is dispatched after a type, when the whole payload has been received. -/
theorem call_dispatches {x : Dispatch} (h : (s.call order c).dispatched = s.dispatched ++ [x]) :
    ∃ n t, s.reading = .payload n t ∧ c.returned.received.length + 1 = n.toNat ∧
      x = dispatch t c.returned.received := by
  have hsame : ∀ l : List Dispatch, l ≠ l ++ [x] := fun l heq => by simp at heq
  have hlength : ∀ length : UInt16, (s.gotLength length).dispatched = s.dispatched := by
    intro length
    unfold gotLength
    split <;> rfl
  unfold call recv at h
  split at h
  · exact absurd ((hlength _).symm.trans h) (hsame _)
  · split at h
    · exact absurd h (hsame _)
    · exact absurd ((hlength _).symm.trans h) (hsame _)
  · exact absurd h (hsame _)
  · split at h <;> exact absurd h (hsame _)
  · exact absurd h (hsame _)
  · rename_i n t l hreading hret
    split at h
    · exact absurd h (hsame _)
    · rename_i hlen
      rw [hret]
      exact ⟨n, t, hreading, by show l.length + 1 = _; omega,
        (List.singleton_injective (List.append_cancel_left h)).symm⟩
  · exact absurd h (hsame _)

/-- A short read of a length ends the session, and so does one that fails with a large
number in the variable. -/
theorem call_ended_iff (hs : s.reading = .length) (hshort : c.returned.received.length < 2) :
    (s.call order c).reading = .ended ↔ ¬ (c.returned = .error ∧ c.unset ≤ 4096) := by
  unfold call recv
  rw [hs]
  cases hret : c.returned with
  | error =>
    dsimp only
    unfold gotLength
    split
    · rename_i hlt
      exact iff_of_true rfl fun hc => UInt16.not_lt.2 hc.2 hlt
    · rename_i hle
      exact iff_of_false (by simp) (not_not.2 ⟨rfl, UInt16.not_lt.1 hle⟩)
  | octets l =>
    rw [hret] at hshort
    dsimp only
    rw [if_pos (show l.length < 2 from hshort)]
    exact iff_of_true rfl fun hc => (by cases hc.1)

end Session

/-! ## A whole session -/

section
variable {order : HostOrder} {cs : List RecvCall}

/-- Every sequence of calls is empty or ends with one. -/
theorem Session.calls_last {P : Session → Prop} (hstart : ¬ P .start)
    (h : P (Session.calls order cs)) :
    ∃ before c, cs = before ++ [c] ∧ P ((Session.calls order before).call order c) := by
  rcases List.eq_nil_or_concat cs with rfl | ⟨before, c, rfl⟩
  · exact absurd h hstart
  · rw [List.concat_eq_append, Session.calls_concat] at h
    exact ⟨before, c, List.concat_eq_append, h⟩

/-- **What a message comes from**, when no read of a length has failed unseen. -/
theorem receivesMessage_of_dispatched {before : List RecvCall} {c : RecvCall} {x : Dispatch}
    (hseen : ∀ front c', front ++ [c'] <+: before → ¬ FailsUnseen order front c')
    (h : (Session.calls order (before ++ [c])).dispatched =
      (Session.calls order before).dispatched ++ [x]) :
    ReceivesMessage order (before ++ [c]) x := by
  rw [Session.calls_concat] at h
  obtain ⟨n, t, hpayload, hlen, rfl⟩ := Session.call_dispatches h
  obtain ⟨before₁, c₁, rfl, hcall₁⟩ :=
    @Session.calls_last order before (fun s => s.reading = .payload n t)
      (fun h => by cases h) hpayload
  obtain ⟨htype, hc₁, rfl⟩ := Session.call_eq_payload hcall₁
  obtain ⟨before₀, c₀, rfl, hcall₀⟩ :=
    @Session.calls_last order before₁ (fun s => s.reading = .commandType n)
      (fun h => by cases h) htype
  obtain ⟨hlength, hfail | ⟨hc₀, rfl⟩⟩ := Session.call_eq_commandType hcall₀
  · exact absurd ⟨hlength, hfail⟩ (hseen before₀ c₀ (List.prefix_append _ _))
  · exact ⟨before₀, c₀, c₁, c, by simp, hlength, hc₀, hc₁, hlen, rfl⟩

/-- **No phantom messages, exactly when no read of a length fails unseen**: with -1 from
`recv`, and at most 4096 in the variable that it should have set. -/
theorem no_phantom_iff (order : HostOrder) (cs : List RecvCall) :
    NoPhantom order cs ↔ ∀ before c, before ++ [c] <+: cs → ¬ FailsUnseen order before c := by
  constructor
  · intro h before c hpre ⟨hlength, hret, hunset⟩
    have hshort : c.returned.received.length < 2 := by simp [hret, Recv.received]
    have hended := h.ends before c hpre hlength hshort
    rw [Session.calls_concat] at hended
    exact (Session.call_ended_iff hlength hshort).1 hended ⟨hret, hunset⟩
  · intro h
    refine ⟨fun before c x hpre hx => ?_, fun before c hpre hlength hshort => ?_⟩
    · refine receivesMessage_of_dispatched (fun front c' hfront => h front c' ?_) hx
      exact (hfront.trans (List.prefix_append _ _)).trans hpre
    · rw [Session.calls_concat]
      exact (Session.call_ended_iff hlength hshort).2 fun hfail => h before c hpre ⟨hlength, hfail⟩

end

/-! ### A phantom -/

/-- A read of a length that fails with 4 in the variable, and two that succeed. -/
def failedLength : List RecvCall :=
  [⟨.error, 4⟩, ⟨.octets [hciCommand], 4⟩, ⟨.octets [0x03, 0x0C, 0x00], 4⟩]

/-- **A command is queued whose length was never received.** -/
theorem exists_phantom :
    (Session.calls .littleEndian failedLength).dispatched = [.queue ⟨[0x03, 0x0C, 0x00], 3, 5⟩] ∧
      ¬ NoPhantom .littleEndian failedLength := by
  refine ⟨by decide, fun h => ?_⟩
  have hended := h.ends [] ⟨.error, 4⟩ (by decide) rfl (by decide)
  exact absurd hended (by decide)

end OpenwrtFeed.HciBridge
