import OpenwrtFeed.StatusHonesty

/-! # The grammar of the internal commands

`handleInternalCommand` walks through a message with the pointer `buffer` and the 16-bit
counter `length`, which it lowers step by step (`Cursor`); a crypto operation is invoked at
the end of the walk, or not at all (`walk`).  The messages that get there are those of a
grammar (`Matches`), and no subtraction from `length` wraps (`command_grammar`).
-/
namespace OpenwrtFeed.HciBridge
variable {κ : Type}

/-- A crypto operation with its arguments. -/
inductive CryptoCall (κ : Type)
  | deriveSecret (privateKey : κ) (peer : List UInt8)
  | decrypt (data secret : List UInt8)
  | encrypt (data secret : List UInt8)
  | decryptWithPublicKey (data pubKey : List UInt8)
deriving DecidableEq

/-- The variables `buffer`, as the octets from the pointer on, and `length`. -/
structure Cursor where
  buffer : List UInt8
  length : UInt16
deriving DecidableEq

namespace Cursor

/-- `buffer += n` and `length -= n`. -/
def advance (n : UInt16) (c : Cursor) : Cursor := ⟨c.buffer.drop n.toNat, c.length - n⟩

/-- `buffer[0] << 8 | buffer[1]`. -/
def number (c : Cursor) : UInt16 := HostOrder.bigEndian.number (c.buffer.getD 0 0)
    (c.buffer.getD 1 0)

end Cursor

/-- What the handler has done when it replies: the subtractions from `length`, each with the
number subtracted from and the number subtracted, and the crypto operation invoked. -/
structure Walk (κ : Type) where
  subtractions : List (UInt16 × UInt16)
  call : Option (CryptoCall κ)
deriving DecidableEq

/-- The walk through data preceded by their length, the last step of every command. -/
def walkCounted (subtractions : List (UInt16 × UInt16)) (call : List UInt8 → CryptoCall κ)
    (c : Cursor) :
    Walk κ :=
  if c.length < 2 then ⟨subtractions, none⟩
  else
    let dataLength := c.number
    let subtractions := subtractions ++ [(c.length, 2)]
    let c := c.advance 2
    if c.length ≠ dataLength then ⟨subtractions, none⟩
    else ⟨subtractions, some (call (c.buffer.take dataLength.toNat))⟩

/-- The walk of `PG_PUBLIC_DECRYPT`. -/
def walkPublicDecrypt (subtractions : List (UInt16 × UInt16)) (c : Cursor) : Walk κ :=
  if c.length < 2 then ⟨subtractions, none⟩
  else
    let subtractions := subtractions ++ [(c.length, 2)]
    let c := c.advance 2
    if c.length < 2 then ⟨subtractions, none⟩
    else
      let pubKeyLength := c.number
      let subtractions := subtractions ++ [(c.length, 2)]
      let c := c.advance 2
      if c.length ≤ pubKeyLength then ⟨subtractions, none⟩
      else
        walkCounted (subtractions ++ [(c.length, pubKeyLength)])
          (fun data => .decryptWithPublicKey data (c.buffer.take pubKeyLength.toNat))
          (c.advance pubKeyLength)

/-- The walk of `handleInternalCommand`, with a key pair and a secret at hand: no other
command than these four invokes a crypto operation then. -/
def walk (k : KeyPair κ) (secret : List UInt8) (c : Cursor) : Walk κ :=
  if c.length < 1 then ⟨[], none⟩
  else
    let command := c.buffer.getD 0 0
    let subtractions := [(c.length, 1)]
    let c := c.advance 1
    if command = pgDeriveSecret then walkCounted subtractions (.deriveSecret k.privateKey) c
    else if command = pgAesDecrypt then walkCounted subtractions
      (fun data => .decrypt data secret) c
    else if command = pgAesEncrypt then walkCounted subtractions
      (fun data => .encrypt data secret) c
    else if command = pgPublicDecrypt then walkPublicDecrypt subtractions c
    else ⟨subtractions, none⟩

/-- What comes of a crypto operation. -/
def CryptoCall.perform (crypto : Crypto κ) (keys : Keys κ) : CryptoCall κ → Keys κ × Reply
  | .deriveSecret privateKey peer =>
    ({ keys with secret := HciBridge.deriveSecret (crypto.derive privateKey peer) },
      ⟨hciBridgeOk, pgDeriveSecret, []⟩)
  | .decrypt data secret =>
    (keys, ⟨hciBridgeOk, pgAesDecrypt, encryptionDecrypt (crypto.decrypt data secret)⟩)
  | .encrypt data secret =>
    (keys, ⟨hciBridgeOk, pgAesEncrypt, encryptionEncrypt (crypto.encrypt data secret)⟩)
  | .decryptWithPublicKey data pubKey =>
    match encryptionDecryptWithPublicKey (crypto.rsa data pubKey) with
    | none => (keys, ⟨hciBridgeError, pgPublicDecrypt, []⟩)
    | some decrypted => (keys, ⟨hciBridgeOk, pgPublicDecrypt, decrypted⟩)

/-! ## The grammar -/

/-- A number of octets, in two octets, most significant first. -/
def be16 (n : Nat) : List UInt8 := HostOrder.bigEndian.octets (UInt16.ofNat n)

@[simp] theorem length_be16 (n : Nat) : (be16 n).length = 2 := rfl

/-- **The grammar of the commands**, and the operation each message asks for. -/
inductive Matches (k : KeyPair κ) (secret : List UInt8) : List UInt8 → CryptoCall κ → Prop
  | deriveSecret (key : List UInt8) :
    Matches k secret (pgDeriveSecret :: (be16 key.length ++ key)) (.deriveSecret k.privateKey key)
  | aesEncrypt (data : List UInt8) :
    Matches k secret (pgAesEncrypt :: (be16 data.length ++ data)) (.encrypt data secret)
  | aesDecrypt (data : List UInt8) :
    Matches k secret (pgAesDecrypt :: (be16 data.length ++ data)) (.decrypt data secret)
  | publicDecrypt (total0 total1 : UInt8) (key data : List UInt8) :
    Matches k secret
      (pgPublicDecrypt :: total0 :: total1 ::
        (be16 key.length ++ (key ++ (be16 data.length ++ data))))
      (.decryptWithPublicKey data key)

/-! ## Numbers and counted data -/

theorem bigEndian_octets_number (a b : UInt8) :
    HostOrder.bigEndian.octets (HostOrder.bigEndian.number a b) = [a, b] := by
  have ha := a.toNat_lt
  have hb := b.toNat_lt
  have hor := Nat.shiftLeft_add_eq_or_of_lt (a := a.toNat) (i := 8) (b := b.toNat) (by omega)
  have hshift : a.toNat <<< 8 % 65536 = a.toNat <<< 8 := by
    rw [Nat.shiftLeft_eq]
    omega
  have hnumber : (HostOrder.bigEndian.number a b).toNat = a.toNat * 256 + b.toNat := by
    show ((a.toUInt16 <<< 8) ||| b.toUInt16).toNat = _
    rw [UInt16.toNat_or, UInt16.toNat_shiftLeft, UInt8.toNat_toUInt16, UInt8.toNat_toUInt16]
    simp only [UInt16.reduceToNat, Nat.reduceMod]
    rw [hshift, ← hor, Nat.shiftLeft_eq]
  have hhigh : (HostOrder.bigEndian.number a b >>> 8).toUInt8 = a := by
    apply UInt8.toNat_inj.1
    rw [UInt16.toNat_toUInt8, UInt16.toNat_shiftRight, hnumber]
    simp only [UInt16.reduceToNat, Nat.reduceMod, Nat.shiftRight_eq_div_pow, Nat.reducePow]
    omega
  have hlow : (HostOrder.bigEndian.number a b).toUInt8 = b := by
    apply UInt8.toNat_inj.1
    rw [UInt16.toNat_toUInt8, hnumber]
    omega
  show [_, _] = _
  rw [hhigh, hlow]

/-- A number is read off the two octets that spell it. -/
theorem readNumber_eq_some {buffer rest : List UInt8} {n : UInt16} :
    readNumber buffer = some (n, rest) ↔ buffer = HostOrder.bigEndian.octets n ++ rest := by
  constructor
  · intro h
    match buffer, h with
    | a :: b :: tail, h =>
      obtain ⟨rfl, rfl⟩ := Prod.mk.inj (Option.some.inj h)
      rw [bigEndian_octets_number]
      rfl
  · rintro rfl
    exact readNumber_octets n rest

theorem toNat_be16_length {data : List UInt8} (h : data.length < 65536) :
    (UInt16.ofNat data.length).toNat = data.length := UInt16.toNat_ofNat_of_lt' h

/-- Data are counted when their length precedes them. -/
theorem counted_eq_some {buffer data : List UInt8} (hb : buffer.length < 65536) :
    counted buffer = some data ↔ buffer = be16 data.length ++ data := by
  constructor
  · intro h
    cases hn : readNumber buffer with
    | none =>
      rw [counted_of_short hn] at h
      cases h
    | some x =>
      obtain ⟨n, rest⟩ := x
      rw [counted_of_number hn] at h
      split at h
      · rename_i hl
        obtain rfl := Option.some.inj h
        rw [be16, hl, UInt16.ofNat_toNat]
        exact readNumber_eq_some.1 hn
      · cases h
  · rintro rfl
    rw [List.length_append] at hb
    rw [be16, counted_of_number (readNumber_octets _ data),
      toNat_be16_length (by omega), if_pos rfl]

/-- A key and data are read when their lengths precede them, after two octets that do not
matter. -/
theorem keyAndData_eq_some {buffer key data : List UInt8} (hb : buffer.length < 65536) :
    keyAndData buffer = some (key, data) ↔
      ∃ total0 total1, buffer =
        total0 :: total1 :: (be16 key.length ++ (key ++ (be16 data.length ++ data))) := by
  constructor
  · intro h
    obtain ⟨⟨total, rest⟩, htotal, h⟩ := Option.bind_eq_some_iff.1 h
    obtain ⟨⟨n, tail⟩, hn, h⟩ := Option.bind_eq_some_iff.1 h
    dsimp only at hn h
    have hbuffer : buffer = (total >>> 8).toUInt8 :: total.toUInt8 :: rest :=
      readNumber_eq_some.1 htotal
    have hrest : rest = HostOrder.bigEndian.octets n ++ tail := readNumber_eq_some.1 hn
    have hshort : tail.length < 65536 := by
      rw [hbuffer, hrest, List.length_cons, List.length_cons, List.length_append] at hb
      omega
    split at h
    · cases h
    · rename_i hl
      obtain ⟨d, hd, hpair⟩ := Option.map_eq_some_iff.1 h
      obtain ⟨rfl, rfl⟩ := Prod.mk.inj hpair
      have hdrop := (counted_eq_some (by rw [List.length_drop]; omega)).1 hd
      have hlen : (tail.take n.toNat).length = n.toNat := by
        rw [List.length_take]
        omega
      refine ⟨(total >>> 8).toUInt8, total.toUInt8, ?_⟩
      rw [hbuffer, ← hdrop, List.take_append_drop, be16, hlen, UInt16.ofNat_toNat, ← hrest]
  · rintro ⟨total0, total1, rfl⟩
    simp only [List.length_cons, List.length_append, length_be16] at hb
    have hkey : (UInt16.ofNat key.length).toNat = key.length := toNat_be16_length (by omega)
    have hcounted : counted (be16 data.length ++ data) = some data :=
      (counted_eq_some (by rw [List.length_append, length_be16]; omega)).2 rfl
    have htotal : readNumber
        (total0 :: total1 :: (be16 key.length ++ (key ++ (be16 data.length ++ data)))) =
          some (_, be16 key.length ++ (key ++ (be16 data.length ++ data))) := rfl
    have hnumber : readNumber (be16 key.length ++ (key ++ (be16 data.length ++ data))) =
        some (_, key ++ (be16 data.length ++ data)) := readNumber_octets _ _
    rw [keyAndData, htotal, Option.bind_some, hnumber, Option.bind_some]
    dsimp only
    rw [hkey, if_neg (by simp only [List.length_append, length_be16]; omega), List.drop_left,
      List.take_left, hcounted]
    rfl

/-! ## The walk -/

/-- The counter says how many octets there are. -/
def Cursor.Exact (c : Cursor) : Prop := c.length.toNat = c.buffer.length

namespace Cursor
variable {c : Cursor}

/-- Advancing by no more than there is keeps the counter exact. -/
theorem Exact.advance (h : c.Exact) {n : UInt16} (hn : n ≤ c.length) : (c.advance n).Exact := by
  have hle := UInt16.le_iff_toNat_le.1 hn
  show (c.length - n).toNat = (c.buffer.drop n.toNat).length
  rw [UInt16.toNat_sub_of_le _ _ hn, List.length_drop, h]

/-- Fewer than two octets hold no number. -/
theorem Exact.readNumber_none (h : c.Exact) (hl : c.length < 2) : readNumber c.buffer = none := by
  have hlt : c.buffer.length < 2 := by
    rw [← h]
    exact UInt16.lt_iff_toNat_lt.1 hl
  match hbuf : c.buffer with
  | [] => rfl
  | [a] => rfl
  | a :: b :: rest =>
    rw [hbuf] at hlt
    simp only [List.length_cons] at hlt
    omega

/-- Two octets hold a number, and leave the rest. -/
theorem Exact.readNumber_some (h : c.Exact) (hl : ¬ c.length < 2) :
    readNumber c.buffer = some (c.number, (c.advance 2).buffer) := by
  have hge : 2 ≤ c.buffer.length := by
    rw [← h]
    exact Nat.not_lt.1 fun hlt => hl (UInt16.lt_iff_toNat_lt.2 hlt)
  match hbuf : c.buffer with
  | [] =>
    rw [hbuf] at hge
    exact absurd hge (by decide)
  | [a] =>
    rw [hbuf] at hge
    exact absurd hge (by simp)
  | a :: b :: rest =>
    rw [Cursor.number, Cursor.advance, hbuf]
    rfl

end Cursor

/-- The walk makes no subtraction that wraps beyond those it has been given. -/
def Walk.Grows (subtractions : List (UInt16 × UInt16)) (w : Walk κ) : Prop :=
  ∀ s ∈ w.subtractions, s ∈ subtractions ∨ s.2 ≤ s.1

theorem Walk.Grows.refl (subtractions : List (UInt16 × UInt16)) (call : Option (CryptoCall κ)) :
    Walk.Grows subtractions ⟨subtractions, call⟩ := fun _ hs => Or.inl hs

/-- One more subtraction, which does not wrap. -/
theorem Walk.Grows.step {subtractions : List (UInt16 × UInt16)} {w : Walk κ} {m n : UInt16}
    (h : Walk.Grows (subtractions ++ [(m, n)]) w) (hle : n ≤ m) : w.Grows subtractions := by
  intro s hs
  rcases h s hs with hmem | hle'
  · rcases List.mem_append.1 hmem with hmem | hmem
    · exact Or.inl hmem
    · obtain rfl := List.mem_singleton.1 hmem
      exact Or.inr hle
  · exact Or.inr hle'

/-- **The walk through counted data** ends in the operation on them. -/
theorem walkCounted_spec {c : Cursor} (h : c.Exact) (subtractions : List (UInt16 × UInt16))
    (call : List UInt8 → CryptoCall κ) :
    (walkCounted subtractions call c).call = (counted c.buffer).map call ∧
      (walkCounted subtractions call c).Grows subtractions := by
  unfold walkCounted
  by_cases hl : c.length < 2
  · rw [if_pos hl, counted_of_short (h.readNumber_none hl)]
    exact ⟨rfl, .refl _ _⟩
  · have hle : 2 ≤ c.length := UInt16.not_lt.1 hl
    have hexact := h.advance hle
    rw [if_neg hl, counted_of_number (h.readNumber_some hl), ← hexact]
    dsimp only
    by_cases hn : (c.advance 2).length = c.number
    · rw [if_neg (not_not.2 hn), if_pos (congrArg UInt16.toNat hn)]
      refine ⟨?_, .step (.refl _ _) hle⟩
      have htake : (c.advance 2).buffer.take c.number.toNat = (c.advance 2).buffer := by
        apply List.take_of_length_le
        rw [← hexact, hn]
      rw [htake]
      rfl
    · rw [if_pos hn, if_neg fun heq => hn (UInt16.toNat_inj.1 heq)]
      exact ⟨rfl, .step (.refl _ _) hle⟩

/-- **The walk of `PG_PUBLIC_DECRYPT`** ends in the decryption of the data with the key. -/
theorem walkPublicDecrypt_spec {c : Cursor} (h : c.Exact) (subtractions : List (UInt16 × UInt16)) :
    (walkPublicDecrypt subtractions c : Walk κ).call =
        (keyAndData c.buffer).map (fun x => .decryptWithPublicKey x.2 x.1) ∧
      (walkPublicDecrypt subtractions c : Walk κ).Grows subtractions := by
  unfold walkPublicDecrypt keyAndData
  by_cases hl : c.length < 2
  · rw [if_pos hl, h.readNumber_none hl]
    exact ⟨rfl, .refl _ _⟩
  · have hle : 2 ≤ c.length := UInt16.not_lt.1 hl
    rw [if_neg hl, h.readNumber_some hl, Option.bind_some]
    have h₁ := h.advance hle
    dsimp only
    generalize c.advance 2 = c₁ at h₁ ⊢
    by_cases hl₁ : c₁.length < 2
    · rw [if_pos hl₁, h₁.readNumber_none hl₁]
      exact ⟨rfl, .step (.refl _ _) hle⟩
    · have hle₁ : 2 ≤ c₁.length := UInt16.not_lt.1 hl₁
      rw [if_neg hl₁, h₁.readNumber_some hl₁, Option.bind_some]
      have h₂ := h₁.advance hle₁
      dsimp only
      rw [← h₂]
      generalize c₁.advance 2 = c₂ at h₂ ⊢
      by_cases hk : c₂.length ≤ c₁.number
      · rw [if_pos hk, if_pos (UInt16.le_iff_toNat_le.1 hk)]
        exact ⟨rfl, .step (.step (.refl _ _) hle₁) hle⟩
      · have hle₂ : c₁.number ≤ c₂.length := UInt16.le_of_lt (UInt16.not_le.1 hk)
        rw [if_neg hk, if_neg fun hn => hk (UInt16.le_iff_toNat_le.2 hn)]
        obtain ⟨hcall, hgrows⟩ := walkCounted_spec (h₂.advance hle₂)
          (subtractions ++ [(c.length, 2)] ++ [(c₁.length, 2)] ++ [(c₂.length, c₁.number)])
          (fun data => .decryptWithPublicKey data (c₂.buffer.take c₁.number.toNat) :
            List UInt8 → CryptoCall κ)
        refine ⟨?_, ((hgrows.step hle₂).step hle₁).step hle⟩
        rw [hcall, Option.map_map]
        rfl

/-! ## The handler -/

section
variable (crypto : Crypto κ) (k : KeyPair κ) (secret : List UInt8)

/-- What the handler makes of the end of a walk: the operation is performed, or an error is
reported and the key material stays. -/
def Answers (keys : Keys κ) (call : Option (CryptoCall κ)) (result : Option (Keys κ × Reply)) :
    Prop :=
  match call with
  | some call => result = some (call.perform crypto keys)
  | none => ∃ subcommand, result = some (keys, ⟨hciBridgeError, subcommand, []⟩)

theorem deriveSecretCommand_answers (buffer : List UInt8) :
    Answers crypto ⟨.live k, some secret⟩ ((counted buffer).map (.deriveSecret k.privateKey))
      (deriveSecretCommand crypto ⟨.live k, some secret⟩ buffer) := by
  unfold deriveSecretCommand
  cases hn : readNumber buffer with
  | none =>
    rw [counted_of_short hn]
    exact ⟨_, rfl⟩
  | some x =>
    obtain ⟨n, peer⟩ := x
    rw [counted_of_number hn]
    dsimp only
    by_cases hl : peer.length = n.toNat
    · rw [if_pos hl, if_neg (not_not.2 hl)]
      rfl
    · rw [if_neg hl, if_pos hl]
      exact ⟨_, rfl⟩

/-- Both AES commands. -/
theorem aesCommand_answers (keys : Keys κ) (hsecret : keys.secret = some secret)
    (command short : UInt8) (cipher : (data secret : List UInt8) → List UInt8)
    (call : List UInt8 → CryptoCall κ)
    (hcall : ∀ data, (call data).perform crypto keys =
      (keys, ⟨hciBridgeOk, command, cipher data secret⟩))
    (buffer : List UInt8) :
    Answers crypto keys ((counted buffer).map call)
    (aesCommand keys command short cipher buffer) := by
  unfold aesCommand
  rw [hsecret]
  dsimp only
  cases hn : readNumber buffer with
  | none =>
    rw [counted_of_short hn]
    exact ⟨_, rfl⟩
  | some x =>
    obtain ⟨n, data⟩ := x
    rw [counted_of_number hn]
    dsimp only
    by_cases hl : data.length = n.toNat
    · rw [if_pos hl, if_neg (not_not.2 hl)]
      exact congrArg some (hcall data).symm
    · rw [if_neg hl, if_pos hl]
      exact ⟨_, rfl⟩

theorem publicDecrypt_answers (keys : Keys κ) (buffer : List UInt8) :
    Answers crypto keys ((keyAndData buffer).map fun x => .decryptWithPublicKey x.2 x.1)
      (publicDecrypt crypto keys buffer) := by
  unfold publicDecrypt keyAndData
  cases hn : readNumber buffer with
  | none => exact ⟨_, rfl⟩
  | some x =>
    rw [Option.bind_some]
    dsimp only
    cases hk : readNumber x.2 with
    | none => exact ⟨_, rfl⟩
    | some y =>
      rw [Option.bind_some]
      dsimp only
      by_cases hl : y.2.length ≤ y.1.toNat
      · rw [if_pos hl, if_pos hl]
        exact ⟨_, rfl⟩
      · rw [if_neg hl, if_neg hl]
        cases hd : readNumber (y.2.drop y.1.toNat) with
        | none =>
          rw [counted_of_short hd]
          exact ⟨_, rfl⟩
        | some z =>
          obtain ⟨m, data⟩ := z
          rw [counted_of_number hd]
          dsimp only
          by_cases hm : data.length = m.toNat
          · rw [if_pos hm, if_neg (not_not.2 hm)]
            cases hr : encryptionDecryptWithPublicKey (crypto.rsa data (y.2.take y.1.toNat)) with
            | none => simp [Answers, CryptoCall.perform, hr, fail]
            | some decrypted => simp [Answers, CryptoCall.perform, hr]
          · rw [if_neg hm, if_pos hm]
            exact ⟨_, rfl⟩

/-- The four commands that invoke crypto operations. -/
def cryptoCommands : List UInt8 := [pgDeriveSecret, pgAesEncrypt, pgAesDecrypt, pgPublicDecrypt]

/-- The operation that a command with the given octets behind it asks for. -/
def asksFor (command : UInt8) (buffer : List UInt8) : Option (CryptoCall κ) :=
  if command = pgDeriveSecret then (counted buffer).map (.deriveSecret k.privateKey)
  else if command = pgAesDecrypt then (counted buffer).map fun data => .decrypt data secret
  else if command = pgAesEncrypt then (counted buffer).map fun data => .encrypt data secret
  else if command = pgPublicDecrypt then
    (keyAndData buffer).map fun x => .decryptWithPublicKey x.2 x.1
  else none

/-- **The walk ends in the operation the message asks for**, and no subtraction wraps. -/
theorem walk_cons {command : UInt8} {buffer : List UInt8}
    (hb : (command :: buffer).length < 65536) :
    (walk k secret ⟨command :: buffer, UInt16.ofNat (command :: buffer).length⟩).call =
        asksFor k secret command buffer ∧
      ∀ s ∈
        (walk k secret ⟨command :: buffer, UInt16.ofNat (command :: buffer).length⟩).subtractions,
          s.2 ≤ s.1 := by
  have hexact : Cursor.Exact ⟨command :: buffer, UInt16.ofNat (command :: buffer).length⟩ :=
    UInt16.toNat_ofNat_of_lt' hb
  generalize UInt16.ofNat (command :: buffer).length = length at hexact ⊢
  have hlength : length.toNat = (command :: buffer).length := hexact
  have hone : ¬ length < 1 := by
    intro hlt
    have := UInt16.lt_iff_toNat_lt.1 hlt
    rw [hlength] at this
    simp at this
  have hle : 1 ≤ length := UInt16.not_lt.1 hone
  have hnext : Cursor.Exact ⟨buffer, length - 1⟩ := hexact.advance hle
  have hgrows : ∀ w : Walk κ, w.Grows [(length, 1)] → ∀ s ∈ w.subtractions, s.2 ≤ s.1 := by
    intro w hw s hs
    rcases hw s hs with hmem | hle'
    · obtain rfl := List.mem_singleton.1 hmem
      exact hle
    · exact hle'
  have hwalk : walk k secret ⟨command :: buffer, length⟩ =
      if command = pgDeriveSecret then
        walkCounted [(length, 1)] (.deriveSecret k.privateKey) ⟨buffer, length - 1⟩
      else if command = pgAesDecrypt then
        walkCounted [(length, 1)] (fun data => .decrypt data secret) ⟨buffer, length - 1⟩
      else if command = pgAesEncrypt then
        walkCounted [(length, 1)] (fun data => .encrypt data secret) ⟨buffer, length - 1⟩
      else if command = pgPublicDecrypt then walkPublicDecrypt [(length, 1)] ⟨buffer, length - 1⟩
      else ⟨[(length, 1)], none⟩ := by
    rw [walk, if_neg hone]
    rfl
  rw [hwalk, asksFor]
  split
  · obtain ⟨hcall, hsub⟩ := walkCounted_spec hnext [(length, 1)] (.deriveSecret k.privateKey)
    exact ⟨hcall, hgrows _ hsub⟩
  · split
    · obtain ⟨hcall, hsub⟩ := walkCounted_spec hnext [(length, 1)]
        (fun data => .decrypt data secret : List UInt8 → CryptoCall κ)
      exact ⟨hcall, hgrows _ hsub⟩
    · split
      · obtain ⟨hcall, hsub⟩ := walkCounted_spec hnext [(length, 1)]
          (fun data => .encrypt data secret : List UInt8 → CryptoCall κ)
        exact ⟨hcall, hgrows _ hsub⟩
      · split
        · obtain ⟨hcall, hsub⟩ := walkPublicDecrypt_spec hnext [(length, 1)]
          exact ⟨hcall, hgrows _ hsub⟩
        · exact ⟨rfl, hgrows _ (.refl _ _)⟩

/-- **A message asks for an operation exactly when it matches the grammar.** -/
theorem asksFor_iff (command : UInt8) {buffer : List UInt8} (hb : buffer.length < 65536)
    (call : CryptoCall κ) :
    asksFor k secret command buffer = some call ↔ Matches k secret (command :: buffer) call := by
  have hcounted : ∀ (f : List UInt8 → CryptoCall κ),
      (counted buffer).map f = some call ↔ ∃ data, buffer = be16 data.length ++ data ∧
        f data = call := by
    intro f
    rw [Option.map_eq_some_iff]
    exact exists_congr fun data => and_congr_left fun _ => counted_eq_some hb
  unfold asksFor
  constructor
  · intro h
    split at h
    · rename_i hc
      obtain ⟨data, rfl, rfl⟩ := (hcounted _).1 h
      exact hc ▸ .deriveSecret data
    · split at h
      · rename_i hc
        obtain ⟨data, rfl, rfl⟩ := (hcounted _).1 h
        exact hc ▸ .aesDecrypt data
      · split at h
        · rename_i hc
          obtain ⟨data, rfl, rfl⟩ := (hcounted _).1 h
          exact hc ▸ .aesEncrypt data
        · split at h
          · rename_i hc
            obtain ⟨⟨key, data⟩, hkey, rfl⟩ := Option.map_eq_some_iff.1 h
            obtain ⟨total0, total1, rfl⟩ := (keyAndData_eq_some hb).1 hkey
            exact hc ▸ .publicDecrypt total0 total1 key data
          · cases h
  · intro h
    cases h with
    | deriveSecret key => exact (hcounted _).2 ⟨key, rfl, rfl⟩
    | aesEncrypt data => exact (hcounted _).2 ⟨data, rfl, rfl⟩
    | aesDecrypt data => exact (hcounted _).2 ⟨data, rfl, rfl⟩
    | publicDecrypt total0 total1 key data =>
      have hkey : keyAndData (total0 :: total1 ::
          (be16 key.length ++ (key ++ (be16 data.length ++ data)))) = some (key, data) :=
        (keyAndData_eq_some hb).2 ⟨total0, total1, rfl⟩
      show (keyAndData _).map _ = _
      rw [hkey]
      rfl

/-- **The handler performs the operation the message asks for**, and reports an error when
it asks for none. -/
theorem handleInternalCommand_answers (queueSize : UInt16) {command : UInt8} (buffer : List UInt8)
    (hcommand : command ∈ cryptoCommands) :
    Answers crypto ⟨.live k, some secret⟩ (asksFor k secret command buffer)
      (handleInternalCommand crypto ⟨.live k, some secret⟩ queueSize (command :: buffer)) := by
  simp only [cryptoCommands, List.mem_cons, List.not_mem_nil, or_false] at hcommand
  rcases hcommand with rfl | rfl | rfl | rfl
  · exact deriveSecretCommand_answers crypto k secret buffer
  · exact aesCommand_answers crypto secret ⟨.live k, some secret⟩ rfl pgAesEncrypt pgAesDecrypt
      (fun data key => encryptionEncrypt (crypto.encrypt data key))
        (fun data => .encrypt data secret)
      (fun _ => rfl) buffer
  · exact aesCommand_answers crypto secret ⟨.live k, some secret⟩ rfl pgAesDecrypt pgAesDecrypt
      (fun data key => encryptionDecrypt (crypto.decrypt data key))
        (fun data => .decrypt data secret)
      (fun _ => rfl) buffer
  · exact publicDecrypt_answers crypto _ buffer

end

/-- **Internal-command grammar.**  With a live key pair and a secret at hand, a message of
at most 4095 octets gets a crypto operation invoked exactly when it matches the grammar,
with exactly the slices the grammar names, and the handler replies with what comes of it;
any other message with one of these command octets is answered with an error and leaves
the key material alone.  No subtraction from the length wraps. -/
theorem command_grammar (crypto : Crypto κ) (k : KeyPair κ) (secret : List UInt8)
    (queueSize : UInt16) (body : List UInt8) (hb : body.length ≤ 4095) :
    (∀ call, (walk k secret ⟨body, UInt16.ofNat body.length⟩).call = some call ↔
        Matches k secret body call) ∧
      (∀ call, Matches k secret body call →
        handleInternalCommand crypto ⟨.live k, some secret⟩ queueSize body =
          some (call.perform crypto ⟨.live k, some secret⟩)) ∧
      ((∃ command ∈ cryptoCommands, body.head? = some command) →
        (¬ ∃ call, Matches k secret body call) → ∃ subcommand,
          handleInternalCommand crypto ⟨.live k, some secret⟩ queueSize body =
            some (⟨.live k, some secret⟩, ⟨hciBridgeError, subcommand, []⟩)) ∧
      ∀ s ∈ (walk k secret ⟨body, UInt16.ofNat body.length⟩).subtractions, s.2 ≤ s.1 := by
  cases body with
  | nil =>
    refine ⟨?_, ?_, ?_, ?_⟩
    · intro call
      constructor
      · intro h
        cases h
      · intro h
        cases h
    · intro call h
      cases h
    · rintro ⟨command, -, h⟩
      cases h
    · intro s hs
      cases hs
  | cons command buffer =>
    obtain ⟨hcall, hsub⟩ := walk_cons k secret (Nat.lt_of_le_of_lt hb (by decide))
    have hbuffer : buffer.length < 65536 := by
      rw [List.length_cons] at hb
      omega
    have hiff := asksFor_iff k secret command hbuffer
    refine ⟨fun call => by rw [hcall]; exact hiff call, ?_, ?_, hsub⟩
    · intro call hmatch
      have hcommand : command ∈ cryptoCommands := by cases hmatch <;> decide
      have hanswer := handleInternalCommand_answers crypto k secret queueSize buffer hcommand
      rw [(hiff call).2 hmatch] at hanswer
      exact hanswer
    · rintro ⟨command', hcommand, hhead⟩ hnone
      obtain rfl := Option.some.inj hhead
      have hanswer := handleInternalCommand_answers crypto k secret queueSize buffer hcommand
      cases hasks : asksFor k secret command buffer with
      | none =>
        rw [hasks] at hanswer
        exact hanswer
      | some call => exact absurd ⟨call, (hiff call).1 hasks⟩ hnone

/-- A decryption with a key of one octet and no data. -/
theorem command_grammar_empty :
    let k : KeyPair Unit := ⟨(), [0x2D]⟩
    let body : List UInt8 := [pgPublicDecrypt, 0, 0, 0, 1, 0x6B, 0, 0]
    (∀ call, (walk k [] ⟨body, UInt16.ofNat body.length⟩).call = some call ↔
      Matches k [] body call) ∧
      (∀ call, Matches k [] body call →
        handleInternalCommand rejectingCrypto ⟨.live k, some []⟩ 0 body =
          some (call.perform rejectingCrypto ⟨.live k, some []⟩)) ∧
      ((∃ command ∈ cryptoCommands, body.head? = some command) →
        (¬ ∃ call, Matches k [] body call) → ∃ subcommand,
          handleInternalCommand rejectingCrypto ⟨.live k, some []⟩ 0 body =
            some (⟨.live k, some []⟩, ⟨hciBridgeError, subcommand, []⟩)) ∧
      ∀ s ∈ (walk k [] ⟨body, UInt16.ofNat body.length⟩).subtractions, s.2 ≤ s.1 :=
  command_grammar rejectingCrypto ⟨(), [0x2D]⟩ [] 0 _ (by decide)

end OpenwrtFeed.HciBridge
