import OpenwrtFeed.InternalCommand

/-! # When a reply tells the truth

A reply should say `HCI_BRIDGE_OK` exactly when the operation has succeeded, and a
command that has not succeeded should leave the key material alone (`Honest`).  Three
commands fall short of it when a library call fails: `PG_CREATE_KEY_PAIR` frees the key
pair and keeps the pointer, `PG_DERIVE_SECRET` neither looks for a key pair nor at the
secret it gets, and the AES commands do not see that a call has failed.  `Sound` leaves
these cases out, and is exactly what is needed (`honest_iff_sound`, `honest_run_iff`).
-/
namespace OpenwrtFeed.HciBridge
variable {κ : Type}

/-! ## What is requested -/

/-- A well-formed request. -/
inductive Request
  | createKeyPair
  | getPubKey
  | deriveSecret (peer : List UInt8)
  | aesDecrypt (data : List UInt8)
  | aesEncrypt (data : List UInt8)
  | publicDecrypt (pubKey data : List UInt8)
  | internalStatus
deriving DecidableEq

/-- Octets preceded by their number. -/
def counted (buffer : List UInt8) : Option (List UInt8) :=
  (readNumber buffer).bind fun x => if x.2.length = x.1.toNat then some x.2 else none

/-- A total length, which is ignored, a key preceded by its length, and data preceded by
theirs. -/
def keyAndData (buffer : List UInt8) : Option (List UInt8 × List UInt8) :=
  (readNumber buffer).bind fun x => (readNumber x.2).bind fun y =>
    if y.2.length ≤ y.1.toNat then none
    else (counted (y.2.drop y.1.toNat)).map fun data => (y.2.take y.1.toNat, data)

/-- The request in a message. -/
def request : List UInt8 → Option Request
  | [] => none
  | command :: buffer =>
    if command = pgCreateKeyPair then some .createKeyPair
    else if command = pgGetPubKey then some .getPubKey
    else if command = pgDeriveSecret then (counted buffer).map .deriveSecret
    else if command = pgAesDecrypt then (counted buffer).map .aesDecrypt
    else if command = pgAesEncrypt then (counted buffer).map .aesEncrypt
    else if command = pgPublicDecrypt then (keyAndData buffer).map fun x => .publicDecrypt x.1 x.2
    else if command = pgInternalStatus then some .internalStatus
    else none

/-- The operation succeeds: there is what it needs, and every library call it makes
succeeds. -/
def Request.Succeeds (c : Crypto κ) (keys : Keys κ) : Request → Prop
  | .createKeyPair =>
    (∃ k, keys.kp = .live k) ∨ (keys.kp = .null ∧ (generateKeyPair c.keygen).isSome)
  | .getPubKey => ∃ k, keys.kp = .live k
  | .deriveSecret peer =>
    ∃ k, keys.kp = .live k ∧ (HciBridge.deriveSecret (c.derive k.privateKey peer)).isSome
  | .aesDecrypt data => ∃ secret, keys.secret = some secret ∧ (c.decrypt data secret).ok
  | .aesEncrypt data => ∃ secret, keys.secret = some secret ∧ (c.encrypt data secret).ok
  | .publicDecrypt pubKey data => (encryptionDecryptWithPublicKey (c.rsa data pubKey)).isSome
  | .internalStatus => True

/-- A command: its message, and the library and the queue while it is served. -/
structure Command (κ : Type) where
  crypto : Crypto κ
  queueSize : UInt16
  buffer : List UInt8

namespace Command

/-- What the bridge does with the command. -/
def serve (cmd : Command κ) (keys : Keys κ) : Option (Keys κ × Reply) :=
  handleInternalCommand cmd.crypto keys cmd.queueSize cmd.buffer

/-- The requested operation succeeds. -/
def Succeeds (cmd : Command κ) (keys : Keys κ) : Prop :=
  ∃ r, request cmd.buffer = some r ∧ r.Succeeds cmd.crypto keys

/-- **The command is answered honestly**: there is a reply, it says OK exactly when the
operation has succeeded, and otherwise the key material stays as it is. -/
def Honest (cmd : Command κ) (keys : Keys κ) : Prop :=
  ∃ keys' reply, cmd.serve keys = some (keys', reply) ∧
    (reply.status = hciBridgeOk ↔ cmd.Succeeds keys) ∧ (¬ cmd.Succeeds keys → keys' = keys)

end Command

/-! ## Where the code is honest -/

/-- The cases in which the code looks at everything that may go wrong: no key pair has
been freed, a key pair that has to be generated is, a secret is derived with a key pair at
hand and is not null, and the library calls behind an AES command succeed. -/
def Request.Sound (c : Crypto κ) (keys : Keys κ) : Request → Prop
  | .createKeyPair => keys.kp ≠ .freed ∧ (keys.kp = .null → (generateKeyPair c.keygen).isSome)
  | .getPubKey => keys.kp ≠ .freed
  | .deriveSecret peer =>
    ∃ k, keys.kp = .live k ∧ (HciBridge.deriveSecret (c.derive k.privateKey peer)).isSome
  | .aesDecrypt data => ∀ secret, keys.secret = some secret → (c.decrypt data secret).ok
  | .aesEncrypt data => ∀ secret, keys.secret = some secret → (c.encrypt data secret).ok
  | .publicDecrypt _ _ => True
  | .internalStatus => True

/-- A message that is not well formed is one of these cases. -/
def Command.Sound (cmd : Command κ) (keys : Keys κ) : Prop :=
  ∀ r, request cmd.buffer = some r → r.Sound cmd.crypto keys

section
variable (c : Crypto κ) (keys : Keys κ)

/-- What honesty says about the result of a command, when the operation succeeds exactly
if `p`. -/
def HonestAbout (p : Prop) (result : Option (Keys κ × Reply)) : Prop :=
  ∃ keys' reply, result = some (keys', reply) ∧
    (reply.status = hciBridgeOk ↔ p) ∧ (¬ p → keys' = keys)

theorem hciBridgeError_ne_ok : hciBridgeError ≠ hciBridgeOk := by decide

/-- An error that changes nothing is honest about a failure. -/
theorem honestAbout_fail (subcommand : UInt8) {p : Prop} :
    HonestAbout keys p (fail keys subcommand) ↔ ¬ p := by
  constructor
  · rintro ⟨keys', reply, heq, hok, -⟩ hp
    obtain ⟨rfl, rfl⟩ := Prod.mk.inj (Option.some.inj heq)
    exact hciBridgeError_ne_ok (hok.2 hp)
  · intro hp
    exact ⟨keys, _, rfl, ⟨fun h => absurd h hciBridgeError_ne_ok, fun h => absurd h hp⟩,
      fun _ => rfl⟩

/-- OK is honest about a success. -/
theorem honestAbout_ok (keys' : Keys κ) (subcommand : UInt8) (data : List UInt8) {p : Prop} :
    HonestAbout keys p (some (keys', ⟨hciBridgeOk, subcommand, data⟩)) ↔ p := by
  constructor
  · rintro ⟨keys'', reply, heq, hok, -⟩
    obtain ⟨rfl, rfl⟩ := Prod.mk.inj (Option.some.inj heq)
    exact hok.1 rfl
  · intro hp
    exact ⟨keys', _, rfl, ⟨fun _ => hp, fun _ => rfl⟩, fun hnp => absurd hp hnp⟩

/-- A command without a result is not honest. -/
theorem honestAbout_none {p : Prop} : ¬ HonestAbout keys p none := by
  rintro ⟨keys', reply, heq, -⟩
  nomatch heq

theorem createKeyPair_honest :
    HonestAbout keys (Request.createKeyPair.Succeeds c keys) (createKeyPair c keys) ↔
      Request.createKeyPair.Sound c keys := by
  obtain ⟨kp, secret⟩ := keys
  cases kp with
  | null =>
    cases hg : generateKeyPair c.keygen with
    | none =>
      -- the pointer has changed, whatever the reply says
      simp only [createKeyPair, hg, Request.Succeeds, Request.Sound, Option.isSome_none]
      constructor
      · rintro ⟨keys', reply, heq, -, hkeep⟩
        obtain ⟨rfl, rfl⟩ := Prod.mk.inj (Option.some.inj heq)
        simpa using hkeep (by simp)
      · simp
    | some k =>
      simp only [createKeyPair, hg]
      rw [honestAbout_ok]
      simp [Request.Succeeds, Request.Sound, hg]
  | live k =>
    simp only [createKeyPair]
    rw [honestAbout_ok]
    simp [Request.Succeeds, Request.Sound]
  | freed => simp [createKeyPair, honestAbout_none, Request.Sound]

theorem getPubKey_honest :
    HonestAbout keys (Request.getPubKey.Succeeds c keys) (getPubKey keys) ↔
      Request.getPubKey.Sound c keys := by
  obtain ⟨kp, secret⟩ := keys
  cases kp with
  | null =>
    simp only [getPubKey]
    rw [honestAbout_fail]
    simp [Request.Succeeds, Request.Sound]
  | live k =>
    simp only [getPubKey]
    rw [honestAbout_ok]
    simp [Request.Succeeds, Request.Sound]
  | freed => simp [getPubKey, honestAbout_none, Request.Sound]

theorem counted_of_short {buffer : List UInt8} (h : readNumber buffer = none) :
    counted buffer = none := by
  rw [counted, h]
  rfl

theorem counted_of_number {buffer data : List UInt8} {n : UInt16}
    (h : readNumber buffer = some (n, data)) :
    counted buffer = if data.length = n.toNat then some data else none := by
  rw [counted, h]
  rfl

theorem deriveSecretCommand_honest (buffer : List UInt8) :
    HonestAbout keys (∃ peer, counted buffer = some peer ∧
      (Request.deriveSecret peer).Succeeds c keys)
        (deriveSecretCommand c keys buffer) ↔
      ∀ peer, counted buffer = some peer → (Request.deriveSecret peer).Sound c keys := by
  unfold deriveSecretCommand
  cases hn : readNumber buffer with
  | none =>
    rw [counted_of_short hn, honestAbout_fail]
    simp
  | some x =>
    obtain ⟨n, peer⟩ := x
    rw [counted_of_number hn]
    dsimp only
    by_cases hl : peer.length = n.toNat
    · simp only [hl, ne_eq, not_true_eq_false, if_false, if_true, Option.some.injEq,
        exists_eq_left', forall_eq']
      cases hk : keys.kp with
      | null => simp [honestAbout_none, Request.Sound, hk]
      | live k =>
        dsimp only
        rw [honestAbout_ok]
        exact Iff.rfl
      | freed => simp [honestAbout_none, Request.Sound, hk]
    · rw [if_neg hl, if_pos hl, honestAbout_fail]
      simp

/-- Both AES commands need a secret and a library that does not fail, and see only whether
there is a secret. -/
theorem aesCommand_honest (command short : UInt8)
    (cipher : (data secret : List UInt8) → List UInt8) (buffer : List UInt8)
    (p : List UInt8 → List UInt8 → Prop) :
    HonestAbout keys
        (∃ data, counted buffer = some data ∧ ∃ secret, keys.secret = some secret ∧ p data secret)
        (aesCommand keys command short cipher buffer) ↔
      ∀ data, counted buffer = some data → ∀ secret, keys.secret = some secret → p data secret := by
  unfold aesCommand
  cases hs : keys.secret with
  | none =>
    dsimp only
    rw [honestAbout_fail]
    simp
  | some secret =>
    dsimp only
    cases hn : readNumber buffer with
    | none =>
      rw [counted_of_short hn, honestAbout_fail]
      simp
    | some x =>
      obtain ⟨n, data⟩ := x
      rw [counted_of_number hn]
      dsimp only
      by_cases hl : data.length = n.toNat
      · rw [if_pos hl, if_neg (not_not.2 hl), honestAbout_ok]
        simp
      · rw [if_neg hl, if_pos hl, honestAbout_fail]
        simp

theorem publicDecrypt_honest (buffer : List UInt8) :
    HonestAbout keys
      (∃ x, keyAndData buffer = some x ∧ (Request.publicDecrypt x.1 x.2).Succeeds c keys)
      (publicDecrypt c keys buffer) := by
  unfold publicDecrypt keyAndData
  cases hn : readNumber buffer with
  | none => exact (honestAbout_fail keys _).2 (by simp)
  | some x =>
    simp only [Option.bind_some]
    cases hk : readNumber x.2 with
    | none => exact (honestAbout_fail keys _).2 (by simp)
    | some y =>
      obtain ⟨n, rest⟩ := y
      simp only [Option.bind_some]
      by_cases hl : rest.length ≤ n.toNat
      · simp only [hl, if_true]
        exact (honestAbout_fail keys _).2 (by simp)
      · simp only [hl, if_false]
        cases hd : readNumber (rest.drop n.toNat) with
        | none =>
          rw [counted_of_short hd]
          exact (honestAbout_fail keys _).2 (by simp)
        | some z =>
          obtain ⟨m, data⟩ := z
          rw [counted_of_number hd]
          dsimp only
          by_cases hm : data.length = m.toNat
          · rw [if_pos hm, if_neg (not_not.2 hm)]
            cases hr : encryptionDecryptWithPublicKey (c.rsa data (rest.take n.toNat)) with
            | none => exact (honestAbout_fail keys _).2 (by simp [Request.Succeeds, hr])
            | some d => exact (honestAbout_ok keys _ _ _).2 (by simp [Request.Succeeds, hr])
          · rw [if_neg hm, if_pos hm]
            exact (honestAbout_fail keys _).2 (by simp)

end

/-- A request that is read with `f` from what `parse` makes of the buffer. -/
theorem exists_map_iff {α : Type} {o : Option α} {f : α → Request} {P : Request → Prop} :
    (∃ r, o.map f = some r ∧ P r) ↔ ∃ x, o = some x ∧ P (f x) := by
  cases o <;> simp

theorem forall_map_iff {α : Type} {o : Option α} {f : α → Request} {P : Request → Prop} :
    (∀ r, o.map f = some r → P r) ↔ ∀ x, o = some x → P (f x) := by
  cases o <;> simp

/-- **A command is answered honestly exactly when the code looks at everything that may go
wrong with it.** -/
theorem Command.honest_iff_sound (cmd : Command κ) (keys : Keys κ) :
    cmd.Honest keys ↔ cmd.Sound keys := by
  obtain ⟨c, queueSize, buffer⟩ := cmd
  show HonestAbout keys (∃ r, request buffer = some r ∧ r.Succeeds c keys)
      (handleInternalCommand c keys queueSize buffer) ↔
    ∀ r, request buffer = some r → r.Sound c keys
  cases buffer with
  | nil =>
    simp only [handleInternalCommand, request]
    rw [honestAbout_fail]
    simp
  | cons command buffer =>
    simp only [handleInternalCommand, request]
    by_cases h1 : command = pgCreateKeyPair
    · simp only [h1, if_true, Option.some.injEq, exists_eq_left', forall_eq']
      exact createKeyPair_honest c keys
    · simp only [h1, if_false]
      by_cases h2 : command = pgGetPubKey
      · simp only [h2, if_true, Option.some.injEq, exists_eq_left', forall_eq']
        exact getPubKey_honest c keys
      · simp only [h2, if_false]
        by_cases h3 : command = pgDeriveSecret
        · simp only [h3, if_true, exists_map_iff, forall_map_iff]
          exact deriveSecretCommand_honest c keys buffer
        · simp only [h3, if_false]
          by_cases h4 : command = pgAesDecrypt
          · simp only [h4, if_true, exists_map_iff, forall_map_iff]
            exact aesCommand_honest keys _ _ _ buffer fun data secret => (c.decrypt data secret).ok
          · simp only [h4, if_false]
            by_cases h5 : command = pgAesEncrypt
            · simp only [h5, if_true, exists_map_iff, forall_map_iff]
              exact aesCommand_honest keys _ _ _ buffer fun data secret =>
                (c.encrypt data secret).ok
            · simp only [h5, if_false]
              by_cases h6 : command = pgPublicDecrypt
              · simp only [h6, if_true, exists_map_iff, forall_map_iff]
                exact iff_of_true (publicDecrypt_honest c keys buffer) fun _ _ => trivial
              · simp only [h6, if_false]
                by_cases h7 : command = pgInternalStatus
                · simp only [h7, if_true, Option.some.injEq, exists_eq_left', forall_eq']
                  exact iff_of_true ((honestAbout_ok keys _ _ _).2 trivial) trivial
                · simp only [h7, if_false]
                  rw [honestAbout_fail]
                  simp

/-! ## Sequences of commands -/

namespace Command

/-- Every command of a sequence meets a condition on the key material before it. -/
def Throughout (P : Command κ → Keys κ → Prop) : List (Command κ) → Keys κ → Prop
  | [], _ => True
  | cmd :: cmds, keys => P cmd keys ∧
    match cmd.serve keys with
    | none => True
    | some (keys', _) => Throughout P cmds keys'

/-- The key material after a sequence of commands, and the replies. -/
def run : List (Command κ) → Keys κ → Option (Keys κ × List Reply)
  | [], keys => some (keys, [])
  | cmd :: cmds, keys =>
    (cmd.serve keys).bind fun x => (run cmds x.1).map fun y => (y.1, x.2 :: y.2)

/-- The reply says OK. -/
def saysOk (r : Reply) : Bool := r.status = hciBridgeOk

/-- The commands of a sequence that are answered with OK. -/
def answeredOk : List (Command κ) → Keys κ → List (Command κ)
  | [], _ => []
  | cmd :: cmds, keys =>
    match cmd.serve keys with
    | none => []
    | some (keys', reply) =>
      if saysOk reply then cmd :: answeredOk cmds keys' else answeredOk cmds keys'

theorem throughout_congr {P Q : Command κ → Keys κ → Prop} (h : ∀ cmd keys, P cmd keys ↔ Q cmd keys)
    (cmds : List (Command κ)) (keys : Keys κ) :
    Throughout P cmds keys ↔ Throughout Q cmds keys := by
  induction cmds generalizing keys with
  | nil => exact Iff.rfl
  | cons cmd cmds ih =>
    unfold Throughout
    rw [h cmd keys]
    cases cmd.serve keys with
    | none => exact Iff.rfl
    | some x => exact and_congr_right fun _ => ih x.1

/-- Where every command is answered honestly, those that fail might as well not have been
sent: the others get the same replies and leave the same key material. -/
theorem run_answeredOk {cmds : List (Command κ)} {keys : Keys κ} (h : Throughout Honest cmds keys) :
    ∃ keys' replies, run cmds keys = some (keys', replies) ∧
      run (answeredOk cmds keys) keys = some (keys', replies.filter saysOk) := by
  induction cmds generalizing keys with
  | nil => exact ⟨keys, [], rfl, rfl⟩
  | cons cmd cmds ih =>
    obtain ⟨⟨keys', reply, hserve, hok, hkeep⟩, hrest⟩ := h
    rw [hserve] at hrest
    obtain ⟨keys'', replies, hrun, hrun'⟩ := ih hrest
    refine ⟨keys'', reply :: replies, by rw [run, hserve]; simp [hrun], ?_⟩
    simp only [answeredOk, hserve]
    by_cases hs : saysOk reply = true
    · rw [if_pos hs, run, hserve]
      simp [hrun', hs]
    · have hfail : ¬ cmd.Succeeds keys := fun hsucc => hs (decide_eq_true (hok.2 hsucc))
      rw [if_neg hs, ← hkeep hfail]
      simpa [hs] using hrun'

end Command

/-- **Every reply of a session tells the truth exactly when no library call fails where the
code does not look.**  Then a command that fails leaves no trace: without it the other
commands get the same replies and leave the same key material. -/
theorem honest_run_iff (cmds : List (Command κ)) :
    (Command.Throughout Command.Honest cmds .initial ↔
      Command.Throughout Command.Sound cmds .initial) ∧
    (Command.Throughout Command.Sound cmds .initial →
      ∃ keys replies, Command.run cmds .initial = some (keys, replies) ∧
        Command.run (Command.answeredOk cmds .initial) .initial =
          some (keys, replies.filter Command.saysOk)) := by
  have hiff := Command.throughout_congr Command.honest_iff_sound cmds .initial
  exact ⟨hiff, fun h => Command.run_answeredOk (hiff.2 h)⟩

/-! ### A secret that is not derived -/

/-- A library that generates a key pair, and rejects the peer's key. -/
def rejectingCrypto : Crypto Unit where
  keygen := ⟨true, true, true, true, true, true, some (), some [0x2D]⟩
  derive _ _ := ⟨true, true, false, true, true, true, some []⟩
  encrypt _ _ := ⟨true, true, ⟨true, []⟩, ⟨true, []⟩⟩
  decrypt _ _ := ⟨true, true, ⟨true, []⟩, ⟨true, []⟩⟩
  rsa _ _ := ⟨true, none⟩

/-- A key pair is created, and a secret requested with a peer's key that is not one. -/
def deriveFromJunk : List (Command Unit) :=
  [⟨rejectingCrypto, 0, [pgCreateKeyPair]⟩,
    ⟨rejectingCrypto, 0, [pgDeriveSecret, 0x00, 0x01, 0x78]⟩]

/-- **A derivation that fails is answered with OK.** -/
theorem exists_dishonest :
    ¬ Command.Throughout Command.Honest deriveFromJunk .initial ∧
      (Command.run deriveFromJunk .initial).map (fun x => (x.1.secret, x.2.map Reply.status)) =
        some (none, [hciBridgeOk, hciBridgeOk]) := by
  refine ⟨?_, by decide⟩
  intro h
  obtain ⟨-, ⟨keys', reply, hserve, hok, -⟩, -⟩ := h
  obtain ⟨rfl, rfl⟩ := Prod.mk.inj (Option.some.inj hserve)
  obtain ⟨r, hr, hsucc⟩ := hok.1 rfl
  have hreq : request [pgDeriveSecret, 0x00, 0x01, 0x78] = some (.deriveSecret [0x78]) := by decide
  obtain rfl := Option.some.inj (hreq.symm.trans hr)
  obtain ⟨k, -, hk⟩ := hsucc
  nomatch hk

end OpenwrtFeed.HciBridge
