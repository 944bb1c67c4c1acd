import OpenwrtFeed.LossyLinkRefinement

/-! # Frames without an escape

A station that has submitted no packet sends link-establishment frames and ACK frames,
and none of their octets has to be escaped.  Such a frame can be cut off anywhere and
still arrive: no frame on the line of the station counts as lost
(`LinkReachable.not_lost`).
-/
namespace OpenwrtFeed.Ubcsp

/-! ## The output side -/

/-- What is left of the frame being sent contains no escape, whole or half. -/
structure Tx.Plain (t : Tx) : Prop where
  escape : t.sendSlipEscape = 0
  pending : t.sendSize ≠ 0 → t.Framed ∧ slipEscape ∉ t.pendingWire

/-- A frame that is started plain. -/
theorem plain_setupPacket {e : Engine} (he : e.sendSlipEscape = 0) {head : List UInt8}
    (h4 : head.length = 4) {body : Option (List UInt8)} {n : Nat} (hn : n = (body.getD []).length)
    (hsome : ∀ l, body = some l → 0 < n)
    (hplain : slipEscape ∉ slipStuff (sealedFrame head (body.getD []))) :
    (setupPacket head body n e).tx.Plain := by
  refine ⟨he, fun _ => ⟨framed_setupPacket (Or.inl he) h4 ?_ ?_, ?_⟩⟩
  · intro hnone
    rw [hn, hnone]
    rfl
  · intro l hl
    rw [hl] at hn
    exact ⟨hsome l hl, Nat.le_of_eq hn⟩
  · intro hmem
    rw [pendingWire_setupPacket e h4 hn, if_pos he] at hmem
    rcases List.mem_append.1 hmem with hmem | hmem
    · exact hplain hmem
    · exact absurd (List.mem_singleton.1 hmem) (by decide)

theorem leFrame_plain {k : LePacket} (hk : k ≠ .none) : slipEscape ∉ slipStuff (leFrame k) := by
  cases k with
  | none => exact absurd rfl hk
  | _ => decide +kernel

theorem ackFrame_plain (ack : Fin 8) : slipEscape ∉ slipStuff (ackFrame ack) := by
  revert ack
  decide +kernel

/-- Going on with a plain frame. -/
theorem Tx.Plain.sendOctet {e : Engine} (h : e.tx.Plain) (hs : e.sendSize ≠ 0) :
    (sendOctet e).engine.tx.Plain ∧ slipEscape ∉ (sendOctet e).tx := by
  obtain ⟨hf, hnot⟩ := h.pending hs
  rcases sendOctet_pending hf hs with
    ⟨w, t, hcall, hf', -, hesc, -, hw⟩ | ⟨w, t, hcall, -, hsize, hesc, hw⟩
  · rw [← hw, List.mem_append, not_or] at hnot
    rw [hcall]
    exact ⟨⟨hesc.resolve_right hnot.1, fun _ => ⟨hf', hnot.2⟩⟩, hnot.1⟩
  · rw [hcall, hw]
    have ht : t.Plain := ⟨hesc, fun hne => absurd hsize hne⟩
    rcases sentPacket_eq (e.withTx t) with ⟨hsent, -⟩ | ⟨hsent, -⟩
    · rw [hsent]
      exact ⟨ht, hnot⟩
    · rw [hsent]
      exact ⟨ht, hnot⟩

/-- **Without a packet to send, a call sends no escape.** -/
theorem Tx.Plain.sendHalf {e : Engine} (h : e.tx.Plain) (hp : e.sendPacket = none) :
    (sendHalf e).engine.tx.Plain ∧ slipEscape ∉ (sendHalf e).tx := by
  have hframe : slipEscape ∉ [slipFrame] := by decide
  rcases sendHalf_cases e with ⟨-, hc⟩ | ⟨-, hs, hc⟩ | ⟨-, -, -, hc⟩ | ⟨-, -, hle, hc⟩
  all_goals rw [hc]
  · exact ⟨h, List.not_mem_nil⟩
  · exact h.sendOctet hs
  · rcases startFrame_cases e with ⟨-, hc⟩ | ⟨-, p, hsome, -⟩ | ⟨-, -, -, hc⟩ | ⟨-, -, -, hc⟩
    · rw [hc]
      exact ⟨plain_setupPacket h.escape rfl rfl (fun _ _ => Nat.succ_pos 3)
        (leFrame_plain (by simp)), hframe⟩
    · rw [hp] at hsome
      cases hsome
    · rw [hc]
      exact ⟨plain_setupPacket h.escape rfl rfl (fun _ hl => by cases hl) (ackFrame_plain _),
        hframe⟩
    · rw [hc]
      exact ⟨h, List.not_mem_nil⟩
  · have hfour : (lePayload e.linkEstablishmentPacket).length = 4 := by
      cases hk : e.linkEstablishmentPacket with
      | none => exact absurd hk hle
      | _ => rfl
    exact ⟨plain_setupPacket h.escape rfl hfour.symm (fun _ _ => Nat.succ_pos 3)
      (leFrame_plain hle), hframe⟩

/-- Receiving writes nothing of the output side, or abandons the frame. -/
def Tx.Kept (t t' : Tx) : Prop :=
  t' = t ∨ (t'.sendSize = 0 ∧ t'.sendSlipEscape = t.sendSlipEscape)

theorem Tx.Plain.kept {t t' : Tx} (h : t.Plain) (hkept : t.Kept t') : t'.Plain := by
  rcases hkept with rfl | ⟨hsize, hesc⟩
  · exact h
  · exact ⟨hesc.trans h.escape, fun hne => absurd hsize hne⟩

theorem receiveLe_kept (a : Activity) (e : Engine) : e.tx.Kept (receiveLe a e).2.tx := by
  rcases receiveLe_cases a e with ⟨l, h⟩ | ⟨l, h⟩ | h
  all_goals rw [h]
  · exact Or.inl rfl
  · exact Or.inr ⟨rfl, rfl⟩
  · exact Or.inr ⟨rfl, rfl⟩

theorem receiveData_tx (a : Activity) (e : Engine) : (receiveData a e).2.tx = e.tx := by
  rcases receiveData_cases a e with h | h | h | h
  all_goals exact (congrArg Engine.tx h).trans rfl

theorem receiveIntact_kept (e : Engine) : e.tx.Kept (receiveIntact e).2.tx := by
  have hack : (receiveAck e).2.tx = e.tx := by
    rcases receiveAck_cases e with h | ⟨-, -, h⟩
    all_goals exact congrArg (fun s => s.2.tx) h
  rw [← hack]
  rcases receiveIntact_cases e with h | h | h
  all_goals rw [h]
  · exact receiveLe_kept _ _
  · exact Or.inl (receiveData_tx _ _)
  · exact Or.inl rfl

theorem receiveOctet_kept (stray : UInt8 → UInt8) (value : UInt8) (a : Activity) (e : Engine) :
    e.tx.Kept (receiveOctet stray value a e).2.tx := by
  unfold receiveOctet
  split
  · rw [storeOctet_eq]
    exact Or.inl rfl
  · split
    · by_cases hi : 0 ≤ e.receiveIndex
      · obtain ⟨d, hd⟩ := endOfFrame_eq a hi
        rw [hd]
        show e.tx.Kept (receviedPacket e).2.tx
        by_cases hok : Intact e
        · rw [receviedPacket_of_intact hok]
          exact receiveIntact_kept (decoded e)
        · obtain ⟨r, hr, -⟩ := receviedPacket_of_not_intact hok
          rw [hr]
          exact Or.inl rfl
      · unfold endOfFrame
        rw [if_neg hi]
        exact Or.inl rfl
    · split
      · exact Or.inl rfl
      · rw [storeOctet_eq]
        exact Or.inl rfl

theorem Tx.Plain.receiveLoop {stray : UInt8 → UInt8} (rx : List UInt8) {a : Activity} {e : Engine}
    (h : e.tx.Plain) : (receiveLoop stray rx a e).2.2.tx.Plain := by
  induction rx generalizing a e with
  | nil => exact h
  | cons value rx ih =>
    unfold Ubcsp.receiveLoop
    split
    · exact ih (h.kept (receiveOctet_kept stray value a e))
    · exact h

theorem Tx.Plain.ubcspPoll (stray : UInt8 → UInt8) (rx : List UInt8) {e : Engine} (h : e.tx.Plain)
    (hp : e.sendPacket = none) :
    (ubcspPoll stray rx e).engine.tx.Plain ∧ slipEscape ∉ (ubcspPoll stray rx e).tx := by
  obtain ⟨hsend, hnot⟩ := h.sendHalf hp
  unfold Ubcsp.ubcspPoll
  dsimp only
  split
  · exact ⟨hsend, hnot⟩
  · refine ⟨?_, hnot⟩
    obtain ⟨d, hd⟩ := finishPoll_eq (Ubcsp.sendHalf e).delay
      (Ubcsp.receiveLoop stray rx (Ubcsp.sendHalf e).activity (Ubcsp.sendHalf e).engine).2.2
    rw [hd]
    exact hsend.receiveLoop rx

/-! ## The line -/

/-- No octet of the frame is escaped. -/
structure WireFrame.Plain (f : WireFrame) : Prop where
  whole : f.damaged = false
  octets : slipEscape ∉ f.octets

theorem WireFrame.Plain.not_lost {f : WireFrame} (h : f.Plain) : ¬ f.Lost := by
  rintro ⟨-, hd | hlast⟩
  · rw [h.whole] at hd
    cases hd
  · exact h.octets (List.mem_of_getLast? hlast)

/-- Everything on the line of the station is plain. -/
structure Station.Plain (x : Station) : Prop where
  tx : x.engine.tx.Plain
  flight : ∀ f ∈ x.flight, f.Plain
  sending : ∀ f ∈ x.sending, f.Plain

namespace Station.Plain
variable {x : Station}

theorem start (stray : UInt8 → UInt8) : (Station.start stray).Plain where
  tx := ⟨rfl, fun hne => absurd rfl hne⟩
  flight f hf := by cases hf
  sending f hf := by cases hf

theorem line (h : x.Plain) {w : List UInt8} (hw : slipEscape ∉ w) :
    (∀ f ∈ (x.line w).1, f.Plain) ∧ ∀ f ∈ (x.line w).2, f.Plain := by
  have hmore : ∀ f ∈ x.sending, ∀ v, slipEscape ∉ v → ∀ closed,
      (⟨f.octets ++ v, closed, f.damaged⟩ : WireFrame).Plain := by
    intro f hf v hv closed
    exact ⟨(h.sending f hf).whole, by simp [(h.sending f hf).octets, hv]⟩
  unfold Station.line
  split
  · exact ⟨h.flight, h.sending⟩
  · split
    · constructor
      · intro f hf
        rcases List.mem_append.1 hf with hf | hf
        · exact h.flight f hf
        · exact h.sending f (by simpa using hf)
      · intro f hf
        obtain rfl := Option.mem_some.1 hf
        exact ⟨by simpa using h.tx.escape, List.not_mem_nil⟩
    · split
      · refine ⟨?_, fun f hf => by cases hf⟩
        intro f hf
        rcases List.mem_append.1 hf with hf | hf
        · exact h.flight f hf
        · obtain ⟨g, hg, rfl⟩ := Option.map_eq_some_iff.1 (Option.mem_toList.1 hf)
          exact hmore g hg _ (fun hm => hw (List.mem_of_mem_dropLast hm)) true
      · refine ⟨h.flight, ?_⟩
        intro f hf
        obtain ⟨g, hg, rfl⟩ := Option.map_eq_some_iff.1 hf
        exact hmore g hg w hw g.closed

theorem poll (h : x.Plain) (hp : x.engine.sendPacket = none) (n : Nat) : (x.poll n).Plain := by
  obtain ⟨htx, hnot⟩ := h.tx.ubcspPoll x.stray (x.inbox.take n) hp
  obtain ⟨hflight, hsending⟩ := h.line hnot
  exact ⟨htx, hflight, hsending⟩

end Station.Plain

/-- One step, as long as nothing has been submitted. -/
theorem StationStep.plain {x y x' y' : Station} (hstep : StationStep x y x' y')
    (hp : x.submitted = [] → x.engine.sendPacket = none) :
    ((x.submitted = [] → x.Plain) → x'.submitted = [] → x'.Plain) ∧
      ((y.submitted = [] → y.Plain) → y'.submitted = [] → y'.Plain) := by
  cases hstep with
  | poll n => exact ⟨fun h hs => (h hs).poll (hp hs) n, fun h => h⟩
  | submit p => exact ⟨fun _ hs => by simp at hs, fun h => h⟩
  | rearm q => exact ⟨fun h hs => ⟨(h hs).tx, (h hs).flight, (h hs).sending⟩, fun h => h⟩
  | @drop before after f hx =>
    refine ⟨fun h hs => ⟨(h hs).tx, fun g hg => (h hs).flight g ?_, (h hs).sending⟩, fun h => h⟩
    rw [hx]
    rcases List.mem_append.1 hg with hg | hg
    · exact List.mem_append_left _ hg
    · exact List.mem_append_right _ (List.mem_cons_of_mem _ hg)
  | @cut before after f w hx hw =>
    refine ⟨fun h hs => ⟨(h hs).tx, ?_, (h hs).sending⟩, fun h => h⟩
    intro g hg
    have hall := (h hs).flight
    rw [hx] at hall
    rcases List.mem_append.1 hg with hg | hg
    · exact hall g (List.mem_append_left _ hg)
    · rcases List.mem_cons.1 hg with rfl | hg
      · have hf := hall f (List.mem_append_right _ List.mem_cons_self)
        exact ⟨hf.whole, fun hm => hf.octets (hw.subset hm)⟩
      · exact hall g (List.mem_append_right _ (List.mem_cons_of_mem _ hg))
  | @deliver after f hx _ =>
    refine ⟨fun h hs => ⟨(h hs).tx, fun g hg => (h hs).flight g ?_, (h hs).sending⟩,
      fun h hs => ⟨(h hs).tx, (h hs).flight, (h hs).sending⟩⟩
    rw [hx]
    exact List.mem_cons_of_mem _ hg

/-- A station that has submitted nothing holds no packet. -/
theorem Runs.sendPacket {x y : Station} (h : Runs x y) (hs : x.submitted = []) :
    x.engine.sendPacket = none := by
  obtain ⟨a, b, inX, outX, inY, outY, hl⟩ := h
  rw [hl.left.runs.sendPacket, Peer.outstanding, ← hl.left.submitted, hs]
  rfl

theorem LinkReachable.plain {x y : Station} (h : LinkReachable x y) :
    (x.submitted = [] → x.Plain) ∧ (y.submitted = [] → y.Plain) := by
  induction h with
  | start stray stray' => exact ⟨fun _ => .start stray, fun _ => .start stray'⟩
  | left h hstep ih =>
    obtain ⟨hx, hy⟩ := hstep.plain h.runs.sendPacket
    exact ⟨hx ih.1, hy ih.2⟩
  | right h hstep ih =>
    obtain ⟨hy, hx⟩ := hstep.plain h.runs.symm.sendPacket
    exact ⟨hx ih.1, hy ih.2⟩

/-- **Without packets every beginning of a frame may arrive.** -/
theorem LinkReachable.not_lost {x y : Station} (h : LinkReachable x y) (hs : x.submitted = []) :
    ∀ f ∈ x.flight, ¬ f.Lost :=
  fun f hf => ((h.plain.1 hs).flight f hf).not_lost

end OpenwrtFeed.Ubcsp
