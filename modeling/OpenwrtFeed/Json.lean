import Mathlib.Data.List.Basic

/-! # JSON texts

The grammar of JSON, as relations between a text, a value and the rest of the text: what
`Derives s v t` says is that `s` begins with a value `v` and goes on with `t`.  A text in
octets is JSON when it is the UTF-8 form of a text in characters that is
(`Denotes`).  A surrogate that is not one of a pair denotes no character and is left out.

An object of strings that need no escapes is read back as it was written
(`text_compact`), and a string that is read back as it was written before `","` needs no
escapes (`Chars.written`).
-/
namespace OpenwrtFeed.Json

/-- A value; a number is kept as it is written. -/
inductive Value
  | null
  | bool (b : Bool)
  | number (written : List Char)
  | string (s : List Char)
  | array (elements : List Value)
  | object (members : List (List Char × Value))

/-! ## The grammar -/

/-- Whitespace. -/
def IsWs (c : Char) : Prop := c = ' ' ∨ c = '\t' ∨ c = '\n' ∨ c = '\r'

instance : DecidablePred IsWs := fun _ => inferInstanceAs (Decidable (_ ∨ _))

/-- Whitespace, or nothing, is passed over. -/
inductive Ws : List Char → List Char → Prop
  | none {t : List Char} : Ws t t
  | skip {c : Char} {s t : List Char} (hc : IsWs c) (h : Ws s t) : Ws (c :: s) t

/-- The value of a hexadecimal digit. -/
def hexValue (c : Char) : Option Nat :=
  if '0' ≤ c ∧ c ≤ '9' then some (c.toNat - 0x30)
  else if 'a' ≤ c ∧ c ≤ 'f' then some (c.toNat - 0x57)
  else if 'A' ≤ c ∧ c ≤ 'F' then some (c.toNat - 0x37)
  else none

/-- Four hexadecimal digits. -/
inductive Hex4 : List Char → Nat → List Char → Prop
  | digits {a b c d : Char} {w x y z : Nat} {t : List Char} (ha : hexValue a = some w)
      (hb : hexValue b = some x) (hc : hexValue c = some y) (hd : hexValue d = some z) :
    Hex4 (a :: b :: c :: d :: t) (((w * 16 + x) * 16 + y) * 16 + z) t

/-- What follows a backslash, and the character it stands for. -/
inductive Escape : List Char → Char → List Char → Prop
  | quote {t : List Char} : Escape ('"' :: t) '"' t
  | backslash {t : List Char} : Escape ('\\' :: t) '\\' t
  | slash {t : List Char} : Escape ('/' :: t) '/' t
  | backspace {t : List Char} : Escape ('b' :: t) '\x08' t
  | formFeed {t : List Char} : Escape ('f' :: t) '\x0c' t
  | lineFeed {t : List Char} : Escape ('n' :: t) '\n' t
  | carriageReturn {t : List Char} : Escape ('r' :: t) '\r' t
  | tab {t : List Char} : Escape ('t' :: t) '\t' t
  | unicode {s t : List Char} {n : Nat} (h : Hex4 s n t) (hn : n.isValidChar) :
    Escape ('u' :: s) (Char.ofNat n) t
  /-- Two surrogates. -/
  | pair {s s' t : List Char} {high low : Nat} (hh : Hex4 s high ('\\' :: 'u' :: s'))
      (hl : Hex4 s' low t) (hhigh : 0xD800 ≤ high ∧ high < 0xDC00)
      (hlow : 0xDC00 ≤ low ∧ low < 0xE000) :
    Escape ('u' :: s) (Char.ofNat (0x10000 + (high - 0xD800) * 0x400 + (low - 0xDC00))) t

/-- A character that stands for itself in a string. -/
def Plain (c : Char) : Prop := 0x20 ≤ c.toNat ∧ c ≠ '"' ∧ c ≠ '\\'

instance : DecidablePred Plain := fun _ => inferInstanceAs (Decidable (_ ∧ _))

/-- The characters of a text are looked at one by one. -/
theorem plain_of_all {s : List Char} (h : (s.all fun c => decide (Plain c)) = true) :
    ∀ c ∈ s, Plain c :=
  fun c hc => of_decide_eq_true (List.all_eq_true.1 h c hc)

/-- The characters of a string, up to the quotation mark that closes it. -/
inductive Chars : List Char → List Char → List Char → Prop
  | close {t : List Char} : Chars ('"' :: t) [] t
  | plain {c : Char} {s v t : List Char} (hc : Plain c) (h : Chars s v t) :
      Chars (c :: s) (c :: v) t
  | escape {c : Char} {s s' v t : List Char} (he : Escape s c s') (h : Chars s' v t) :
    Chars ('\\' :: s) (c :: v) t

/-- One digit or more. -/
def IsDigits (ds : List Char) : Prop := ds ≠ [] ∧ ∀ d ∈ ds, d.isDigit = true

/-- An integer without a sign, and without leading zeros. -/
def IsInt (ds : List Char) : Prop := ds = ['0'] ∨ (IsDigits ds ∧ ds.head? ≠ some '0')

/-- A fraction, or nothing. -/
def IsFrac (s : List Char) : Prop := s = [] ∨ ∃ ds, s = '.' :: ds ∧ IsDigits ds

/-- An exponent, or nothing. -/
def IsExp (s : List Char) : Prop :=
  s = [] ∨ ∃ e sign ds, s = e :: (sign ++ ds) ∧ (e = 'e' ∨ e = 'E') ∧
    (sign = [] ∨ sign = ['+'] ∨ sign = ['-']) ∧ IsDigits ds

def IsNumber (s : List Char) : Prop :=
  ∃ sign int frac exp, s = sign ++ (int ++ (frac ++ exp)) ∧ (sign = [] ∨ sign = ['-']) ∧
    IsInt int ∧ IsFrac frac ∧ IsExp exp

mutual

/-- A value at the head of a text. -/
inductive Derives : List Char → Value → List Char → Prop
  | null {t : List Char} : Derives ('n' :: 'u' :: 'l' :: 'l' :: t) .null t
  | true {t : List Char} : Derives ('t' :: 'r' :: 'u' :: 'e' :: t) (.bool Bool.true) t
  | false {t : List Char} : Derives ('f' :: 'a' :: 'l' :: 's' :: 'e' :: t) (.bool Bool.false) t
  | number {s written t : List Char} (hs : s = written ++ t) (h : IsNumber written) :
    Derives s (.number written) t
  | string {s v t : List Char} (h : Chars s v t) : Derives ('"' :: s) (.string v) t
  | emptyArray {s t : List Char} (h : Ws s (']' :: t)) : Derives ('[' :: s) (.array []) t
  | array {s t : List Char} {vs : List Value} (h : Elements s vs t) :
      Derives ('[' :: s) (.array vs) t
  | emptyObject {s t : List Char} (h : Ws s ('}' :: t)) : Derives ('{' :: s) (.object []) t
  | object {s t : List Char} {ms : List (List Char × Value)} (h : Members s ms t) :
    Derives ('{' :: s) (.object ms) t

/-- The elements of an array, up to the bracket that closes it. -/
inductive Elements : List Char → List Value → List Char → Prop
  | last {s s₁ s₂ t : List Char} {v : Value} (hv : Ws s s₁) (h : Derives s₁ v s₂)
      (hend : Ws s₂ (']' :: t)) : Elements s [v] t
  | cons {s s₁ s₂ s₃ t : List Char} {v : Value} {vs : List Value} (hv : Ws s s₁)
      (h : Derives s₁ v s₂) (hend : Ws s₂ (',' :: s₃)) (hrest : Elements s₃ vs t) :
        Elements s (v :: vs) t

/-- The members of an object, up to the brace that closes it. -/
inductive Members : List Char → List (List Char × Value) → List Char → Prop
  | last {s s₁ s₂ s₃ s₄ s₅ t k : List Char} {v : Value} (hkey : Ws s ('"' :: s₁))
      (hk : Chars s₁ k s₂) (hcolon : Ws s₂ (':' :: s₃)) (hv : Ws s₃ s₄) (h : Derives s₄ v s₅)
      (hend : Ws s₅ ('}' :: t)) :
    Members s [(k, v)] t
  | cons {s s₁ s₂ s₃ s₄ s₅ s₆ t k : List Char} {v : Value} {ms : List (List Char × Value)}
      (hkey : Ws s ('"' :: s₁)) (hk : Chars s₁ k s₂) (hcolon : Ws s₂ (':' :: s₃)) (hv : Ws s₃ s₄)
      (h : Derives s₄ v s₅) (hend : Ws s₅ (',' :: s₆)) (hrest : Members s₆ ms t) :
    Members s ((k, v) :: ms) t

end

/-- A whole text. -/
def Text (s : List Char) (v : Value) : Prop := ∃ s' t, Ws s s' ∧ Derives s' v t ∧ Ws t []

/-- The UTF-8 form of a text. -/
def utf8 (s : List Char) : List UInt8 := s.flatMap String.utf8EncodeChar

/-- The octets are a JSON text for the value. -/
def Denotes (octets : List UInt8) (v : Value) : Prop := ∃ s, octets = utf8 s ∧ Text s v

theorem utf8_append (s t : List Char) : utf8 (s ++ t) = utf8 s ++ utf8 t := List.flatMap_append

/-- No two texts have the same UTF-8 form. -/
theorem utf8_injective : Function.Injective utf8 := by
  intro s t h
  have hencode : s.utf8Encode = t.utf8Encode := congrArg List.toByteArray h
  have hdecode := congrArg ByteArray.utf8Decode? hencode
  rw [List.utf8Decode?_utf8Encode, List.utf8Decode?_utf8Encode] at hdecode
  simpa using hdecode

theorem denotes_utf8 (s : List Char) (v : Value) : Denotes (utf8 s) v ↔ Text s v := by
  constructor
  · rintro ⟨s', heq, h⟩
    rwa [utf8_injective heq]
  · exact fun h => ⟨s, rfl, h⟩

/-! ## Reading the grammar from the head of a text -/

section
variable {c : Char} {s t v w k : List Char}

theorem ws_cons (hc : ¬ IsWs c) : Ws (c :: s) t ↔ t = c :: s := by
  constructor
  · intro h
    cases h with
    | none => rfl
    | skip hws _ => exact absurd hws hc
  · rintro rfl
    exact .none

theorem chars_quote : Chars ('"' :: s) v t ↔ v = [] ∧ t = s := by
  constructor
  · generalize htext : '"' :: s = text
    intro h
    cases h with
    | close =>
      obtain ⟨-, rfl⟩ := List.cons.inj htext
      exact ⟨rfl, rfl⟩
    | plain hc _ =>
      obtain ⟨rfl, -⟩ := List.cons.inj htext
      exact absurd rfl hc.2.1
    | escape _ _ => exact absurd (List.cons.inj htext).1 (by decide)
  · rintro ⟨rfl, rfl⟩
    exact .close

theorem chars_plain (hc : Plain c) : Chars (c :: s) v t ↔ ∃ w, v = c :: w ∧ Chars s w t := by
  constructor
  · generalize htext : c :: s = text
    intro h
    cases h with
    | close => exact absurd (List.cons.inj htext).1 hc.2.1
    | plain _ h =>
      obtain ⟨rfl, rfl⟩ := List.cons.inj htext
      exact ⟨_, rfl, h⟩
    | escape _ _ => exact absurd (List.cons.inj htext).1 hc.2.2
  · rintro ⟨w, rfl, h⟩
    exact .plain hc h

/-- **A string that needs no escapes** is read as it is written. -/
theorem chars_append (hk : ∀ c ∈ k, Plain c) : Chars (k ++ '"' :: s) v t ↔ v = k ∧ t = s := by
  induction k generalizing v with
  | nil => exact chars_quote
  | cons c k ih =>
    rw [List.cons_append, chars_plain (hk c List.mem_cons_self)]
    simp only [ih fun x hx => hk x (List.mem_cons_of_mem _ hx)]
    constructor
    · rintro ⟨w, rfl, rfl, rfl⟩
      exact ⟨rfl, rfl⟩
    · rintro ⟨rfl, rfl⟩
      exact ⟨k, rfl, rfl, rfl⟩

/-- A number begins with a sign or a digit. -/
theorem IsNumber.head (h : IsNumber s) : ∃ c s', s = c :: s' ∧ (c = '-' ∨ c.isDigit = true) := by
  obtain ⟨sign, int, frac, exp, rfl, hsign, hint, -, -⟩ := h
  rcases hsign with rfl | rfl
  · rcases hint with rfl | ⟨⟨hne, hdigits⟩, -⟩
    · exact ⟨'0', _, rfl, Or.inr (by decide)⟩
    · obtain ⟨d, ds, rfl⟩ := List.exists_cons_of_ne_nil hne
      exact ⟨d, _, rfl, Or.inr (hdigits d List.mem_cons_self)⟩
  · exact ⟨'-', _, rfl, Or.inl rfl⟩

/-- The first character of a value says whether it is a string or an object. -/
theorem derives_cons {x : Value} (h : Derives (c :: s) x t) :
    (c = '"' ∧ ∃ w, x = .string w ∧ Chars s w t) ∨
      (c = '{' ∧ ((x = .object [] ∧ Ws s ('}' :: t)) ∨ ∃ ms, x = .object ms ∧ Members s ms t)) ∨
      (c ≠ '"' ∧ c ≠ '{') := by
  generalize htext : c :: s = text at h
  cases h with
  | string h =>
    obtain ⟨rfl, rfl⟩ := List.cons.inj htext
    exact Or.inl ⟨rfl, _, rfl, h⟩
  | emptyObject h =>
    obtain ⟨rfl, rfl⟩ := List.cons.inj htext
    exact Or.inr (Or.inl ⟨rfl, Or.inl ⟨rfl, h⟩⟩)
  | object h =>
    obtain ⟨rfl, rfl⟩ := List.cons.inj htext
    exact Or.inr (Or.inl ⟨rfl, Or.inr ⟨_, rfl, h⟩⟩)
  | number heq hnum =>
    obtain ⟨d, written, rfl, hd⟩ := hnum.head
    obtain ⟨rfl, -⟩ := List.cons.inj (htext.trans heq)
    refine Or.inr (Or.inr ⟨?_, ?_⟩)
    all_goals
      rintro rfl
      revert hd
      decide
  | null =>
    obtain ⟨rfl, -⟩ := List.cons.inj htext
    exact Or.inr (Or.inr (by decide))
  | true =>
    obtain ⟨rfl, -⟩ := List.cons.inj htext
    exact Or.inr (Or.inr (by decide))
  | false =>
    obtain ⟨rfl, -⟩ := List.cons.inj htext
    exact Or.inr (Or.inr (by decide))
  | emptyArray _ =>
    obtain ⟨rfl, -⟩ := List.cons.inj htext
    exact Or.inr (Or.inr (by decide))
  | array _ =>
    obtain ⟨rfl, -⟩ := List.cons.inj htext
    exact Or.inr (Or.inr (by decide))

/-- A value that begins with a quotation mark. -/
theorem derives_quote {x : Value} : Derives ('"' :: s) x t ↔ ∃ w, x = .string w ∧ Chars s w t := by
  constructor
  · intro h
    rcases derives_cons h with ⟨-, h⟩ | ⟨heq, -⟩ | ⟨hne, -⟩
    · exact h
    · exact absurd heq (by decide)
    · exact absurd rfl hne
  · rintro ⟨w, rfl, h⟩
    exact .string h

/-- A value that begins with a brace, but not with an empty object. -/
theorem derives_brace {x : Value} (hs : ∀ t, ¬ Ws s ('}' :: t)) :
    Derives ('{' :: s) x t ↔ ∃ ms, x = .object ms ∧ Members s ms t := by
  constructor
  · intro h
    rcases derives_cons h with ⟨heq, -⟩ | ⟨-, ⟨-, hempty⟩ | h⟩ | ⟨-, hne⟩
    · exact absurd heq (by decide)
    · exact absurd hempty (hs t)
    · exact h
    · exact absurd rfl hne
  · rintro ⟨ms, rfl, h⟩
    exact .object h

/-! ## Objects of strings -/

/-- The name of a member without whitespace, when it needs no escapes, and its value, when
that is a string. -/
theorem member_string {s₁ s₂ s₃ s₄ s₅ k' : List Char} {x : Value} (hk : ∀ c ∈ k, Plain c)
    (hkey : Ws ('"' :: (k ++ '"' :: ':' :: '"' :: s)) ('"' :: s₁)) (hname : Chars s₁ k' s₂)
    (hcolon : Ws s₂ (':' :: s₃)) (hv : Ws s₃ s₄) (h : Derives s₄ x s₅) :
    k' = k ∧ ∃ w, x = .string w ∧ Chars s w s₅ := by
  have hquote : ¬ IsWs '"' := by decide
  obtain ⟨-, rfl⟩ := List.cons.inj ((ws_cons hquote).1 hkey)
  obtain ⟨rfl, rfl⟩ := (chars_append hk).1 hname
  obtain ⟨-, rfl⟩ := List.cons.inj ((ws_cons (by decide)).1 hcolon)
  obtain rfl := (ws_cons hquote).1 hv
  exact ⟨rfl, derives_quote.1 h⟩

/-- A member without whitespace whose name needs no escapes, and whose value is a string:
the string is read, and then the object ends or goes on. -/
theorem members_string {ms : List (List Char × Value)} (hk : ∀ c ∈ k, Plain c) :
    Members ('"' :: (k ++ '"' :: ':' :: '"' :: s)) ms t ↔
      ∃ w r, Chars s w r ∧ ((ms = [(k, .string w)] ∧ Ws r ('}' :: t)) ∨
        ∃ r' ms', ms = (k, .string w) :: ms' ∧ Ws r (',' :: r') ∧ Members r' ms' t) := by
  constructor
  · intro h
    cases h with
    | last hkey hname hcolon hv h hend =>
      obtain ⟨rfl, w, rfl, hw⟩ := member_string hk hkey hname hcolon hv h
      exact ⟨w, _, hw, Or.inl ⟨rfl, hend⟩⟩
    | cons hkey hname hcolon hv h hend hrest =>
      obtain ⟨rfl, w, rfl, hw⟩ := member_string hk hkey hname hcolon hv h
      exact ⟨w, _, hw, Or.inr ⟨_, _, rfl, hend, hrest⟩⟩
  · rintro ⟨w, r, hw, ⟨rfl, hend⟩ | ⟨r', ms', rfl, hend, hrest⟩⟩
    · exact .last .none ((chars_append hk).2 ⟨rfl, rfl⟩) .none .none (.string hw) hend
    · exact .cons .none ((chars_append hk).2 ⟨rfl, rfl⟩) .none .none (.string hw) hend hrest

/-- A member as it is written without whitespace. -/
def memberText (m : List Char × List Char) : List Char :=
  '"' :: (m.1 ++ '"' :: ':' :: '"' :: (m.2 ++ ['"']))

/-- Members as they are written without whitespace. -/
def membersText : List (List Char × List Char) → List Char
  | [] => []
  | [m] => memberText m
  | m :: ms => memberText m ++ ',' :: membersText ms

/-- An object of strings as it is written without whitespace and without escapes. -/
def compact (ms : List (List Char × List Char)) : List Char := '{' :: (membersText ms ++ ['}'])

/-- The value of a member. -/
def memberValue (m : List Char × List Char) : List Char × Value := (m.1, .string m.2)

/-- The first of the members, and the string that is read for it. -/
theorem members_cons {m : List Char × List Char} {rest : List Char} {ms : List (List Char × Value)}
    (hk : ∀ c ∈ m.1, Plain c) (hv : ∀ c ∈ m.2, Plain c) {d : Char} (hd : ¬ IsWs d) :
    Members (memberText m ++ d :: rest) ms t ↔
      (ms = [memberValue m] ∧ d = '}' ∧ t = rest) ∨
        ∃ ms', ms = memberValue m :: ms' ∧ d = ',' ∧ Members rest ms' t := by
  have htext : memberText m ++ d :: rest =
      '"' :: (m.1 ++ '"' :: ':' :: '"' :: (m.2 ++ '"' :: d :: rest)) := by
    simp [memberText]
  rw [htext, members_string hk]
  constructor
  · rintro ⟨w, r, hw, h⟩
    obtain ⟨rfl, rfl⟩ := (chars_append hv).1 hw
    rcases h with ⟨rfl, hend⟩ | ⟨r', ms', rfl, hend, hrest⟩
    · obtain ⟨rfl, rfl⟩ := List.cons.inj ((ws_cons hd).1 hend)
      exact Or.inl ⟨rfl, rfl, rfl⟩
    · obtain ⟨rfl, rfl⟩ := List.cons.inj ((ws_cons hd).1 hend)
      exact Or.inr ⟨ms', rfl, rfl, hrest⟩
  · rintro (⟨rfl, rfl, rfl⟩ | ⟨ms', rfl, rfl, hrest⟩)
    · exact ⟨m.2, _, (chars_append hv).2 ⟨rfl, rfl⟩, Or.inl ⟨rfl, .none⟩⟩
    · exact ⟨m.2, _, (chars_append hv).2 ⟨rfl, rfl⟩, Or.inr ⟨rest, ms', rfl, .none, hrest⟩⟩

theorem members_text {l : List (List Char × List Char)} (hne : l ≠ [])
    (hplain : ∀ m ∈ l, (∀ c ∈ m.1, Plain c) ∧ ∀ c ∈ m.2, Plain c) {ms : List (List Char × Value)} :
    Members (membersText l ++ '}' :: s) ms t ↔ ms = l.map memberValue ∧ t = s := by
  induction l generalizing ms with
  | nil => exact absurd rfl hne
  | cons m l ih =>
    obtain ⟨hk, hv⟩ := hplain m List.mem_cons_self
    cases l with
    | nil =>
      rw [membersText, members_cons hk hv (by decide)]
      constructor
      · rintro (⟨rfl, -, rfl⟩ | ⟨ms', -, hcomma, -⟩)
        · exact ⟨rfl, rfl⟩
        · exact absurd hcomma (by decide)
      · rintro ⟨rfl, rfl⟩
        exact Or.inl ⟨rfl, rfl, rfl⟩
    | cons m' l =>
      have hih := fun ms => @ih (by simp) (fun x hx => hplain x (List.mem_cons_of_mem _ hx)) ms
      rw [membersText, List.append_assoc, List.cons_append, members_cons hk hv (by decide)]
      · simp only [hih]
        constructor
        · rintro (⟨-, hbrace, -⟩ | ⟨ms', rfl, -, rfl, rfl⟩)
          · exact absurd hbrace (by decide)
          · exact ⟨rfl, rfl⟩
        · rintro ⟨rfl, rfl⟩
          exact Or.inr ⟨_, rfl, trivial, rfl, rfl⟩
      · simp

theorem membersText_quote {l : List (List Char × List Char)} (hne : l ≠ []) :
    ∃ r, membersText l = '"' :: r := by
  cases l with
  | nil => exact absurd rfl hne
  | cons m l =>
    cases l with
    | nil => exact ⟨_, rfl⟩
    | cons m' l => exact ⟨_, rfl⟩

/-- The text of an object is read through its members. -/
theorem text_members {l : List (List Char × List Char)} (hne : l ≠ []) {x : Value} :
    Text (compact l ++ s) x ↔
      ∃ ms t, x = .object ms ∧ Members (membersText l ++ '}' :: s) ms t ∧ Ws t [] := by
  have hquote : ∀ t, ¬ Ws (membersText l ++ '}' :: s) ('}' :: t) := by
    obtain ⟨r, hr⟩ := membersText_quote hne
    rw [hr]
    intro t h
    exact absurd (List.cons.inj ((ws_cons (by decide)).1 h)).1 (by decide)
  have htext : compact l ++ s = '{' :: (membersText l ++ '}' :: s) := by
    simp [compact]
  unfold Text
  rw [htext]
  constructor
  · rintro ⟨s', t, hws, h, hend⟩
    obtain rfl := (ws_cons (by decide)).1 hws
    obtain ⟨ms, rfl, hms⟩ := (derives_brace hquote).1 h
    exact ⟨ms, t, rfl, hms, hend⟩
  · rintro ⟨ms, t, rfl, hms, hend⟩
    exact ⟨_, t, .none, (derives_brace hquote).2 ⟨ms, rfl, hms⟩, hend⟩

/-- **An object of strings that need no escapes** is read as it is written, and not
otherwise. -/
theorem text_compact {l : List (List Char × List Char)} (hne : l ≠ [])
    (hplain : ∀ m ∈ l, (∀ c ∈ m.1, Plain c) ∧ ∀ c ∈ m.2, Plain c) (hs : Ws s []) {x : Value} :
    Text (compact l ++ s) x ↔ x = .object (l.map memberValue) := by
  rw [text_members hne]
  constructor
  · rintro ⟨ms, t, rfl, hms, -⟩
    rw [((members_text hne hplain).1 hms).1]
  · rintro rfl
    exact ⟨_, s, rfl, (members_text hne hplain).2 ⟨rfl, rfl⟩, hs⟩

/-! ## A string that is read back as it was written -/

/-- The first character of a text with a quotation mark in it. -/
theorem cons_eq_split (h : c :: v = s ++ '"' :: t) :
    (s = [] ∧ c = '"' ∧ v = t) ∨ ∃ s', s = c :: s' ∧ v = s' ++ '"' :: t := by
  cases s with
  | nil =>
    obtain ⟨rfl, rfl⟩ := List.cons.inj h
    exact Or.inl ⟨rfl, rfl, rfl⟩
  | cons d s =>
    obtain ⟨rfl, rfl⟩ := List.cons.inj h
    exact Or.inr ⟨s, rfl, rfl⟩

/-- The mark is not the first character, if that is another one. -/
theorem cons_eq_split_of_ne (h : c :: v = s ++ '"' :: t) (hc : c ≠ '"') :
    ∃ s', s = c :: s' ∧ v = s' ++ '"' :: t :=
  (cons_eq_split h).resolve_left fun hnil => hc hnil.2.1

/-- Digits hold no quotation mark. -/
theorem Hex4.split {n : Nat} (h : Hex4 (s ++ '"' :: t) n v) :
    ∃ s', v = s' ++ '"' :: t ∧ s'.length < s.length := by
  have hne : ∀ {d : Char} {m : Nat}, hexValue d = some m → d ≠ '"' := by
    rintro d m hd rfl
    cases hd
  generalize htext : s ++ '"' :: t = text at h
  cases h with
  | digits ha hb hc hd =>
    obtain ⟨s₁, rfl, h₁⟩ := cons_eq_split_of_ne htext.symm (hne ha)
    obtain ⟨s₂, rfl, h₂⟩ := cons_eq_split_of_ne h₁ (hne hb)
    obtain ⟨s₃, rfl, h₃⟩ := cons_eq_split_of_ne h₂ (hne hc)
    obtain ⟨s₄, rfl, h₄⟩ := cons_eq_split_of_ne h₃ (hne hd)
    exact ⟨s₄, h₄, by simp only [List.length_cons]; omega⟩

/-- An escape before a quotation mark ends before it, unless the mark is escaped itself. -/
theorem Escape.split (h : Escape (s ++ '"' :: t) c v) :
    (∃ s', v = s' ++ '"' :: t ∧ s'.length < s.length) ∨ (s = [] ∧ v = t) := by
  -- an escape of one character
  have hone : ∀ {d : Char}, d :: v = s ++ '"' :: t →
      (∃ s', v = s' ++ '"' :: t ∧ s'.length < s.length) ∨ (s = [] ∧ v = t) := by
    intro d heq
    rcases cons_eq_split heq with ⟨rfl, -, rfl⟩ | ⟨s', rfl, rfl⟩
    · exact Or.inr ⟨rfl, rfl⟩
    · exact Or.inl ⟨s', rfl, Nat.lt_succ_self _⟩
  generalize htext : s ++ '"' :: t = text at h
  cases h with
  | quote => exact hone htext.symm
  | backslash => exact hone htext.symm
  | slash => exact hone htext.symm
  | backspace => exact hone htext.symm
  | formFeed => exact hone htext.symm
  | lineFeed => exact hone htext.symm
  | carriageReturn => exact hone htext.symm
  | tab => exact hone htext.symm
  | unicode hhex _ =>
    obtain ⟨s₁, rfl, rfl⟩ := cons_eq_split_of_ne htext.symm (by decide)
    obtain ⟨s₂, rfl, hlt⟩ := hhex.split
    exact Or.inl ⟨s₂, rfl, Nat.lt_succ_of_lt hlt⟩
  | pair hhigh hlow _ _ =>
    obtain ⟨s₁, rfl, rfl⟩ := cons_eq_split_of_ne htext.symm (by decide)
    obtain ⟨s₂, heq, hlt⟩ := hhigh.split
    obtain ⟨s₃, rfl, heq'⟩ := cons_eq_split_of_ne heq (by decide)
    obtain ⟨s₄, rfl, rfl⟩ := cons_eq_split_of_ne heq' (by decide)
    obtain ⟨s₅, rfl, hlt'⟩ := hlow.split
    refine Or.inl ⟨s₅, rfl, ?_⟩
    simp only [List.length_cons] at hlt ⊢
    omega

/-- **A string before `","`** is shorter than what is written, or read as it is written and
without escapes, or ends only at the mark after the comma. -/
theorem Chars.written (h : Chars (s ++ '"' :: ',' :: '"' :: t) v w) :
    v.length < s.length ∨ (v = s ∧ ∀ c ∈ s, Plain c) ∨ w = t := by
  generalize htext : s ++ '"' :: ',' :: '"' :: t = text at h
  induction h generalizing s with
  | close =>
    rcases cons_eq_split htext.symm with ⟨rfl, -, -⟩ | ⟨s', rfl, -⟩
    · exact Or.inr (Or.inl ⟨rfl, by simp⟩)
    · exact Or.inl (Nat.succ_pos _)
  | plain hc h ih =>
    obtain ⟨s', rfl, heq⟩ := cons_eq_split_of_ne htext.symm hc.2.1
    rcases ih heq.symm with hlt | ⟨rfl, hplain⟩ | rfl
    · exact Or.inl (Nat.succ_lt_succ hlt)
    · exact Or.inr (Or.inl ⟨rfl, by simpa [hc] using hplain⟩)
    · exact Or.inr (Or.inr rfl)
  | escape he h ih =>
    obtain ⟨s', rfl, rfl⟩ := cons_eq_split_of_ne htext.symm (by decide)
    rcases he.split with ⟨s'', rfl, hlt⟩ | ⟨rfl, rfl⟩
    · rcases ih rfl with hlt' | ⟨rfl, -⟩ | rfl
      · exact Or.inl (by simp only [List.length_cons]; omega)
      · exact Or.inl (by simp only [List.length_cons]; omega)
      · exact Or.inr (Or.inr rfl)
    · -- the closing mark is escaped, and the string goes on to the next one
      obtain ⟨w', -, hw⟩ := (chars_plain (by decide)).1 h
      exact Or.inr (Or.inr (chars_quote.1 hw).2)

/-- **A member that is read back as it was written**, before one whose name begins with
no punctuation, needs no escapes. -/
theorem plain_of_members {m m' : List Char × List Char} {l : List (List Char × List Char)}
    {ms : List (List Char × Value)} (hk : ∀ c ∈ m.1, Plain c) {k' : List Char}
    (hname : m'.1 = c :: k') (hc : ¬ IsWs c ∧ c ≠ ',' ∧ c ≠ '}')
    (h : Members (membersText (m :: m' :: l) ++ s) (memberValue m :: ms) t) :
    ∀ c ∈ m.2, Plain c := by
  obtain ⟨rest, hrest⟩ : ∃ rest, membersText (m :: m' :: l) ++ s =
      '"' :: (m.1 ++ '"' :: ':' :: '"' :: (m.2 ++ '"' :: ',' :: '"' :: c :: rest)) := by
    cases l with
    | nil => exact ⟨_, by simp [membersText, memberText, hname]; rfl⟩
    | cons m'' l => exact ⟨_, by simp [membersText, memberText, hname]; rfl⟩
  rw [hrest, members_string hk] at h
  obtain ⟨w, r, hw, hread⟩ := h
  have hvalue : ∀ {ms' : List (List Char × Value)},
      memberValue m :: ms = (m.1, Value.string w) :: ms' → w = m.2 := by
    intro ms' heq
    exact (Value.string.inj (Prod.mk.inj (List.cons.inj heq).1).2).symm
  -- the string is not followed by what begins the next name
  have hsep : ∀ {d : Char} {r' : List Char}, Ws r (d :: r') → c ≠ d → r ≠ c :: rest := by
    rintro d r' hend hne rfl
    exact hne (List.cons.inj ((ws_cons hc.1).1 hend)).1.symm
  obtain ⟨rfl, hne⟩ : w = m.2 ∧ r ≠ c :: rest := by
    rcases hread with ⟨hms, hend⟩ | ⟨r', ms', hms, hend, -⟩
    · exact ⟨hvalue hms, hsep hend hc.2.2⟩
    · exact ⟨hvalue hms, hsep hend hc.2.1⟩
  rcases hw.written with hlt | ⟨-, hplain⟩ | hr
  · exact absurd hlt (Nat.lt_irrefl _)
  · exact hplain
  · exact absurd hr hne

end

end OpenwrtFeed.Json
