import OpenwrtFeed.LinkProtocol

/-! # Link establishment in turns

When nothing is lost and the two engines take turns, link establishment comes to its end from
every state the protocol can be in.  That is not obvious of the table `next_le_packet`, which
is consulted one frame ahead: a packet that has been answered is sent once more, and the engine
that becomes active first goes on with packets that were decided before.

`Faces` is what the invariant of the line says about the variables of the two sides, and there
are few enough of them to look at each (`established_of_faces`).
-/
namespace OpenwrtFeed.Ubcsp

namespace Link

/-- The link-establishment packet that is sent next, if any. -/
def next (l : Link) : Option LePacket :=
  if l.packet ≠ .none then some l.packet
  else if l.resp &&& 2 ≠ 0 then some .confResp
  else none

/-- The variables once it has been started. -/
def sent (l : Link) : Link :=
  if l.packet ≠ .none then l.sendLe
  else if l.resp &&& 2 ≠ 0 then l.sendConfResp
  else l

/-- The variables once it has been received by the other side. -/
def hear (l : Link) : Option LePacket → Link
  | some k => l.receive k.toNat
  | none => l

/-- Nothing more is to be done. -/
def Over (l : Link) : Prop := l.state = .active ∧ l.next = none

instance (l : Link) : Decidable l.Over := inferInstanceAs (Decidable (_ ∧ _))

theorem sent_of_next {l : Link} (h : l.next = none) : l.sent = l := by
  unfold next at h
  unfold sent
  split at h
  · cases h
  · rename_i hp
    split at h
    · cases h
    · rename_i hr
      rw [if_neg hp, if_neg hr]

end Link

/-- One turn: the first of the two sends, and the second, which has heard it, is next. -/
def turn (s : Link × Link) : Link × Link := (s.2.hear s.1.next, s.1.sent)

/-- Link establishment is over within `n` turns. -/
def OverIn : Nat → Link × Link → Prop
  | 0, s => s.1.Over ∧ s.2.Over
  | n + 1, s => (s.1.Over ∧ s.2.Over) ∨ OverIn n (turn s)

def OverIn.decide : (n : Nat) → (s : Link × Link) → Decidable (OverIn n s)
  | 0, s => inferInstanceAs (Decidable (s.1.Over ∧ s.2.Over))
  | n + 1, s =>
    let _ := OverIn.decide n (turn s)
    inferInstanceAs (Decidable ((s.1.Over ∧ s.2.Over) ∨ OverIn n (turn s)))

instance (n : Nat) (s : Link × Link) : Decidable (OverIn n s) := OverIn.decide n s

/-- When it is over on both sides, further turns change nothing. -/
theorem turn_over {s : Link × Link} (h : s.1.Over ∧ s.2.Over) : turn s = (s.2, s.1) := by
  unfold turn
  rw [h.1.2, Link.sent_of_next h.1.2]
  rfl

/-! ## The variables of the two sides -/

/-- What is known of the variables `l` of a side that faces the variables `m`. -/
structure Faces (l m : Link) : Prop where
  due : l.Due
  fresh : l.state = .uninitialized → l.packet = .sync ∨ l.packet = .syncResp
  answers : l.resp = 2 ∨ l.packet = .confResp → m.state ≠ .uninitialized
  ahead : m.state = .active → l.state ≠ .uninitialized ∧ l.packet ≠ .sync

theorem Safe.faces {x y : Peer} (h : Safe x y) : Faces x.link y.link :=
  ⟨h.due, h.fresh, h.answers, h.ahead⟩

instance (l m : Link) : Decidable (Faces l m) :=
  decidable_of_iff
    (((l.packet = .none → l.state = .active) ∧ l.resp ≤ 2 ∧
      (l.resp = 2 → l.state ≠ .uninitialized)) ∧
      (l.state = .uninitialized → l.packet = .sync ∨ l.packet = .syncResp) ∧
      (l.resp = 2 ∨ l.packet = .confResp → m.state ≠ .uninitialized) ∧
      (m.state = .active → l.state ≠ .uninitialized ∧ l.packet ≠ .sync))
    ⟨fun ⟨⟨h1, h2, h3⟩, h4, h5, h6⟩ => ⟨⟨h1, h2, h3⟩, h4, h5, h6⟩,
      fun ⟨⟨h1, h2, h3⟩, h4, h5, h6⟩ => ⟨⟨h1, h2, h3⟩, h4, h5, h6⟩⟩

/-- All variables that can occur. -/
def Link.all : List Link :=
  [LinkState.uninitialized, .initialized, .active].flatMap fun s =>
    [0, 1, 2].flatMap fun r => [LePacket.sync, .syncResp, .conf, .confResp, .none].map fun p =>
      ⟨s, r, p⟩

theorem Link.mem_all {l : Link} (h : l.resp ≤ 2) : l ∈ Link.all := by
  obtain ⟨s, r, p⟩ := l
  have hr : r = 0 ∨ r = 1 ∨ r = 2 := by
    have hle : r ≤ 2 := h
    omega
  rcases hr with rfl | rfl | rfl <;> cases s <;> cases p <;> decide

/-- **Link establishment comes to its end**, whoever sends first. -/
theorem established_of_faces {l m : Link} (h : Faces l m) (h' : Faces m l) : OverIn 26 (l, m) := by
  -- every pair of variables is tried
  have htable : ∀ l ∈ Link.all, ∀ m ∈ Link.all, Faces l m → Faces m l → OverIn 26 (l, m) := by
    decide +kernel
  exact htable l (Link.mem_all h.due.resp) m (Link.mem_all h'.due.resp) h h'

end OpenwrtFeed.Ubcsp
