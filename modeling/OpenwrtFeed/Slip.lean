import Mathlib.Data.List.Basic
import Mathlib.Data.List.Infix

/-! # SLIP octet stuffing

A SLIP link carries frames of symbols over a stream of the same symbols.  One
symbol delimits frames, a second one escapes: an occurrence of either inside a
frame is sent as the escape symbol followed by a code.  `stuff` is the sender's
side.  The receiver's side is a machine that reads one symbol at a time
(`Partial.step`): it collects the symbols of the frame in progress and yields
the frame when the delimiter arrives.

The receiver need not check what follows an escape: `unescape` is a total
function, constrained only on the two codes (`unescape_escapeFrame`,
`unescape_escapeEscape`), and a delimiter that follows an escape is read as the
second half of the pair.  Everything below holds whatever the receiver makes of
the other symbols.
-/
namespace OpenwrtFeed

/-- A SLIP code: the delimiter, the escape symbol, the two codes that may follow
it, and what the receiver makes of a symbol that follows it. -/
structure SlipCode (α : Type) where
  frame : α
  escape : α
  escapeFrame : α
  escapeEscape : α
  unescape : α → α
  frame_ne_escape : frame ≠ escape
  escapeFrame_ne_frame : escapeFrame ≠ frame
  escapeEscape_ne_frame : escapeEscape ≠ frame
  escapeFrame_ne_escape : escapeFrame ≠ escape
  escapeEscape_ne_escape : escapeEscape ≠ escape
  unescape_escapeFrame : unescape escapeFrame = frame
  unescape_escapeEscape : unescape escapeEscape = escape

namespace SlipCode
variable {α : Type} [DecidableEq α] (c : SlipCode α)

/-! ## The sender -/

/-- What is sent for one symbol of a frame. -/
def stuffOctet (x : α) : List α :=
  if x = c.frame then [c.escape, c.escapeFrame]
  else if x = c.escape then [c.escape, c.escapeEscape]
  else [x]

/-- What is sent for the inside of a frame. -/
def stuff (xs : List α) : List α := xs.flatMap c.stuffOctet

/-- A whole frame on the line, with both delimiters. -/
def wire (xs : List α) : List α := c.frame :: c.stuff xs ++ [c.frame]

@[simp] theorem stuff_nil : c.stuff [] = [] := rfl

@[simp] theorem stuff_cons (x : α) (xs : List α) :
    c.stuff (x :: xs) = c.stuffOctet x ++ c.stuff xs := rfl

@[simp] theorem stuff_append (xs ys : List α) : c.stuff (xs ++ ys) = c.stuff xs ++ c.stuff ys :=
  List.flatMap_append

theorem stuffOctet_of_ne {x : α} (hf : x ≠ c.frame) (he : x ≠ c.escape) : c.stuffOctet x = [x] := by
  simp [stuffOctet, hf, he]

/-- The delimiter never occurs inside a frame. -/
theorem frame_notMem_stuffOctet (x : α) : c.frame ∉ c.stuffOctet x := by
  unfold stuffOctet
  split
  · simp [c.frame_ne_escape, c.escapeFrame_ne_frame.symm]
  · split
    · simp [c.frame_ne_escape, c.escapeEscape_ne_frame.symm]
    · rename_i hf _
      simpa using fun h => hf h.symm

theorem frame_notMem_stuff (xs : List α) : c.frame ∉ c.stuff xs := by
  induction xs with
  | nil => simp
  | cons x xs ih => simp [c.frame_notMem_stuffOctet x, ih]

/-- **Cutting a stuffed frame.**  A beginning of a stuffed frame is the stuffing
of a beginning of the frame, possibly followed by one escape symbol that has
lost its code. -/
theorem prefix_stuff {w xs : List α} (h : w <+: c.stuff xs) :
    ∃ q, q <+: xs ∧ (w = c.stuff q ∨ (q ≠ xs ∧ w = c.stuff q ++ [c.escape])) := by
  induction xs generalizing w with
  | nil => exact ⟨[], List.prefix_refl _, Or.inl (List.prefix_nil.mp h)⟩
  | cons x xs ih =>
    cases w with
    | nil => exact ⟨[], List.nil_prefix, Or.inl rfl⟩
    | cons y w =>
      rw [stuff_cons] at h
      -- a whole first symbol leaves a beginning of the rest
      have whole : c.stuffOctet x <+: y :: w →
          ∃ q, q <+: x :: xs ∧
            (y :: w = c.stuff q ∨ (q ≠ x :: xs ∧ y :: w = c.stuff q ++ [c.escape])) := by
        rintro ⟨v, hv⟩
        rw [← hv, List.prefix_append_right_inj] at h
        obtain ⟨q, hq, hw⟩ := ih h
        refine ⟨x :: q, List.prefix_cons_inj x |>.mpr hq, ?_⟩
        rw [← hv]
        rcases hw with rfl | ⟨hne, rfl⟩
        · exact Or.inl rfl
        · exact Or.inr ⟨by simpa using hne, by simp⟩
      rcases List.prefix_or_prefix_of_prefix h (List.prefix_append (c.stuffOctet x) _) with hs | hs
      · by_cases heq : y :: w = c.stuffOctet x
        · exact whole (heq ▸ List.prefix_refl _)
        · refine ⟨[], List.nil_prefix, Or.inr ⟨by simp, ?_⟩⟩
          unfold stuffOctet at hs heq
          split at hs
          · obtain ⟨v, hv⟩ := hs
            cases w <;> simp_all
          · split at hs
            · obtain ⟨v, hv⟩ := hs
              cases w <;> simp_all
            · obtain ⟨v, hv⟩ := hs
              simp_all
      · exact whole hs

/-! ## The receiver -/

/-- The receiver's view of the frame in progress: whether the last symbol was an
escape, and the symbols collected since the last delimiter. -/
structure Partial (α : Type) where
  escaped : Bool
  octets : List α
deriving DecidableEq

/-- Nothing received since the last delimiter. -/
def Partial.empty : Partial α := ⟨false, []⟩

/-- Reading one symbol; the second component is the frame it completes. -/
def step (p : Partial α) (x : α) : Partial α × Option (List α) :=
  if p.escaped then (⟨false, p.octets ++ [c.unescape x]⟩, none)
  else if x = c.frame then (.empty, some p.octets)
  else if x = c.escape then (⟨true, p.octets⟩, none)
  else (⟨false, p.octets ++ [x]⟩, none)

/-- Reading a stream, collecting the frames it completes. -/
def run (p : Partial α) : List α → Partial α × List (List α)
  | [] => (p, [])
  | x :: xs =>
    let r := run (c.step p x).1 xs
    (r.1, (c.step p x).2.toList ++ r.2)

@[simp] theorem run_nil (p : Partial α) : c.run p [] = (p, []) := rfl

theorem run_cons (p : Partial α) (x : α) (xs : List α) :
    c.run p (x :: xs) =
      ((c.run (c.step p x).1 xs).1, (c.step p x).2.toList ++ (c.run (c.step p x).1 xs).2) := rfl

theorem run_append (p : Partial α) (xs ys : List α) :
    c.run p (xs ++ ys) =
      ((c.run (c.run p xs).1 ys).1, (c.run p xs).2 ++ (c.run (c.run p xs).1 ys).2) := by
  induction xs generalizing p with
  | nil => simp
  | cons x xs ih => simp [run_cons, ih, List.append_assoc]

/-- The delimiter completes the frame in progress. -/
@[simp] theorem step_frame (o : List α) : c.step ⟨false, o⟩ c.frame = (.empty, some o) := by
  simp [step]

/-- Reading one stuffed symbol collects that symbol. -/
theorem run_stuffOctet (o : List α) (x : α) :
    c.run ⟨false, o⟩ (c.stuffOctet x) = (⟨false, o ++ [x]⟩, []) := by
  have hef : c.escape ≠ c.frame := c.frame_ne_escape.symm
  unfold stuffOctet
  split
  · rename_i hx
    simp [run, step, hef, c.unescape_escapeFrame, hx]
  · split
    · rename_i hx
      simp [run, step, hef, c.unescape_escapeEscape, hx]
    · rename_i hf he
      simp [run, step, hf, he]

/-- **The receiver undoes the stuffing.** -/
theorem run_stuff (o xs : List α) : c.run ⟨false, o⟩ (c.stuff xs) = (⟨false, o ++ xs⟩, []) := by
  induction xs generalizing o with
  | nil => simp
  | cons x xs ih => simp [run_append, run_stuffOctet, ih]

/-- No two frames are sent alike. -/
theorem stuff_injective : Function.Injective c.stuff := by
  intro xs ys h
  have hrun := c.run_stuff [] xs
  rw [h, c.run_stuff] at hrun
  simpa using hrun.symm

/-- A whole frame completes the frame in progress and then itself. -/
theorem run_wire (o xs : List α) : c.run ⟨false, o⟩ (c.wire xs) = (.empty, [o, xs]) := by
  have h : c.wire xs = c.frame :: (c.stuff xs ++ [c.frame]) := rfl
  rw [h, run_cons, step_frame, Partial.empty, run_append, run_stuff]
  simp [run, Partial.empty]

/-- A frame that has lost its closing delimiter stays in progress. -/
theorem run_open (o xs : List α) :
    c.run ⟨false, o⟩ (c.frame :: c.stuff xs) = (⟨false, xs⟩, [o]) := by
  rw [run_cons, step_frame, Partial.empty, run_stuff]
  simp

/-! ## The strict receiver -/

/-- The segments of a stream that a delimiter ends; `seg` has come before the stream. -/
def segments : List α → List α → List (List α)
  | _, [] => []
  | seg, x :: xs => if x = c.frame then seg :: segments [] xs else segments (seg ++ [x]) xs

/-- The frame that a segment was stuffed from; `none` when an escape is not followed by one
of its two codes. -/
def unstuff : List α → Option (List α)
  | [] => some []
  | [x] => if x = c.escape then none else some [x]
  | x :: y :: xs =>
    if x = c.escape then
      if y = c.escapeFrame then (unstuff xs).map (c.frame :: ·)
      else if y = c.escapeEscape then (unstuff xs).map (c.escape :: ·)
      else none
    else (unstuff (y :: xs)).map (x :: ·)

@[simp] theorem segments_nil (seg : List α) : c.segments seg [] = [] := rfl

theorem segments_frame (seg xs : List α) :
    c.segments seg (c.frame :: xs) = seg :: c.segments [] xs := by
  rw [segments, if_pos rfl]

theorem segments_cons {x : α} (hx : x ≠ c.frame) (seg xs : List α) :
    c.segments seg (x :: xs) = c.segments (seg ++ [x]) xs := by
  rw [segments, if_neg hx]

/-- Symbols without a delimiter belong to the segment in progress. -/
theorem segments_raw {w : List α} (hw : c.frame ∉ w) (seg xs : List α) :
    c.segments seg (w ++ xs) = c.segments (seg ++ w) xs := by
  induction w generalizing seg with
  | nil => simp
  | cons x w ih =>
    rw [List.mem_cons, not_or] at hw
    rw [List.cons_append, c.segments_cons (Ne.symm hw.1), ih hw.2, List.append_assoc]
    rfl

/-- Reading a symbol that is neither the delimiter nor the escape. -/
theorem run_plain {x : α} (hf : x ≠ c.frame) (he : x ≠ c.escape) (o xs : List α) :
    c.run ⟨false, o⟩ (x :: xs) = c.run ⟨false, o ++ [x]⟩ xs := by
  simp [run_cons, step, hf, he]

/-- Reading an escape and what follows it. -/
theorem run_escape (o : List α) (y : α) (xs : List α) :
    c.run ⟨false, o⟩ (c.escape :: y :: xs) = c.run ⟨false, o ++ [c.unescape y]⟩ xs := by
  have hne : c.escape ≠ c.frame := c.frame_ne_escape.symm
  simp [run_cons, step, hne]

/-- **On a segment that can be unstuffed the receiver is strict**: it collects the frame. -/
theorem run_of_unstuff {seg s : List α} (hraw : c.frame ∉ seg) (h : c.unstuff seg = some s)
    (o : List α) : c.run ⟨false, o⟩ seg = (⟨false, o ++ s⟩, []) := by
  fun_induction c.unstuff seg generalizing s o with
  | case1 =>
    obtain rfl := Option.some.inj h
    simp
  | case2 => cases h
  | case3 x hx =>
    obtain rfl := Option.some.inj h
    have hf : x ≠ c.frame := fun hf => hraw (hf ▸ List.mem_singleton_self x)
    rw [c.run_plain hf hx, run_nil]
  | case4 xs ih =>
    obtain ⟨s', hs', rfl⟩ := Option.map_eq_some_iff.1 h
    rw [List.mem_cons, List.mem_cons, not_or, not_or] at hraw
    rw [c.run_escape, ih hraw.2.2 hs', c.unescape_escapeFrame, List.append_assoc]
    rfl
  | case5 xs hne ih =>
    obtain ⟨s', hs', rfl⟩ := Option.map_eq_some_iff.1 h
    rw [List.mem_cons, List.mem_cons, not_or, not_or] at hraw
    rw [c.run_escape, ih hraw.2.2 hs', c.unescape_escapeEscape, List.append_assoc]
    rfl
  | case6 y xs hf he => cases h
  | case7 x y xs hx ih =>
    obtain ⟨s', hs', rfl⟩ := Option.map_eq_some_iff.1 h
    rw [List.mem_cons, not_or] at hraw
    rw [c.run_plain (Ne.symm hraw.1) hx, ih hraw.2 hs', List.append_assoc]
    rfl

end SlipCode
end OpenwrtFeed
