import OpenwrtFeed.StatusHonesty

/-! # The lifetime of the key pair

Three commands read through the pointer `kp`.  `PG_CREATE_KEY_PAIR` and `PG_GET_PUB_KEY`
look for a null pointer first, `PG_DERIVE_SECRET` does not; and a key pair that could not be
generated is freed while `kp` still points to it, so that no later look for a null pointer
helps.  A session reads through live pointers only exactly when it keeps out of these two
ways (`lifetime_iff`).
-/
namespace OpenwrtFeed.HciBridge
variable {κ : Type}

/-! ## What is read through `kp` -/

/-- The values of `kp` that a command reads through, when it finds `kp`: the public key for
the two replies, the private key for the derivation. -/
def Request.reads (c : Crypto κ) (kp : KeyPointer κ) : Request → List (KeyPointer κ)
  | .createKeyPair =>
    match kp with
    | .null => (generateKeyPair c.keygen).toList.map .live
    | kp => [kp]
  | .getPubKey =>
    match kp with
    | .null => []
    | kp => [kp]
  | .deriveSecret _ => [kp]
  | _ => []

/-- What a command leaves in `kp`. -/
def Request.leaves (c : Crypto κ) (kp : KeyPointer κ) : Request → KeyPointer κ
  | .createKeyPair =>
    match kp with
    | .null =>
      match generateKeyPair c.keygen with
      | none => .freed
      | some k => .live k
    | kp => kp
  | _ => kp

/-- The key pair that a command generates. -/
def Request.makes (c : Crypto κ) (kp : KeyPointer κ) : Request → Option (KeyPair κ)
  | .createKeyPair =>
    match kp with
    | .null => generateKeyPair c.keygen
    | _ => none
  | _ => none

namespace Command

/-- What the command reads through `kp`; a message that is no request reads nothing. -/
def reads (cmd : Command κ) (kp : KeyPointer κ) : List (KeyPointer κ) :=
  (request cmd.buffer).elim [] fun r => r.reads cmd.crypto kp

def leaves (cmd : Command κ) (kp : KeyPointer κ) : KeyPointer κ :=
  (request cmd.buffer).elim kp fun r => r.leaves cmd.crypto kp

def makes (cmd : Command κ) (kp : KeyPointer κ) : Option (KeyPair κ) :=
  (request cmd.buffer).bind fun r => r.makes cmd.crypto kp

/-- **The lifetime of the key pair is kept**: every command of the session reads through
pointers only that point to a key pair generated in it, `made` being those generated before
the commands. -/
def LifetimeKept (made : List (KeyPair κ)) : List (Command κ) → Keys κ → Prop
  | [], _ => True
  | cmd :: cmds, keys =>
    (∀ p ∈ cmd.reads keys.kp, ∃ k ∈ made ++ (cmd.makes keys.kp).toList, p = .live k) ∧
      match cmd.serve keys with
      | none => True
      | some (keys', _) => LifetimeKept (made ++ (cmd.makes keys.kp).toList) cmds keys'

/-- A well-formed request of one of the three commands that read through `kp`. -/
def UsesKeyPair (cmd : Command κ) : Prop :=
  request cmd.buffer = some .createKeyPair ∨ request cmd.buffer = some .getPubKey ∨
    ∃ peer, request cmd.buffer = some (.deriveSecret peer)

/-- **A session that takes care of its key pair**: no secret is requested before the first
`PG_CREATE_KEY_PAIR`, and when the key pair cannot be generated then, no command that uses
it follows. -/
def TakesCare : List (Command κ) → Prop
  | [] => True
  | cmd :: cmds =>
    match request cmd.buffer with
    | some .createKeyPair =>
      (generateKeyPair cmd.crypto.keygen).isSome ∨ ∀ later ∈ cmds, ¬ later.UsesKeyPair
    | some (.deriveSecret _) => False
    | _ => TakesCare cmds

end Command

/-! ## One command -/

/-- What a result says about the reads behind it: it is there exactly when they all went
through live pointers, and `kp` is then what the command leaves. -/
def Follows (reads : List (KeyPointer κ)) (next : KeyPointer κ) : Option (Keys κ × Reply) → Prop
  | some (keys, _) => keys.kp = next ∧ ∀ p ∈ reads, ∃ k, p = .live k
  | none => ∃ p ∈ reads, ∀ k, p ≠ .live k

section
variable (c : Crypto κ) (keys : Keys κ)

theorem follows_fail (subcommand : UInt8) : Follows [] keys.kp (fail keys subcommand) :=
  ⟨rfl, by simp⟩

theorem createKeyPair_follows :
    Follows (Request.createKeyPair.reads c keys.kp) (Request.createKeyPair.leaves c keys.kp)
      (createKeyPair c keys) := by
  obtain ⟨kp, secret⟩ := keys
  cases kp with
  | null =>
    cases hg : generateKeyPair c.keygen with
    | none =>
      simp only [createKeyPair, Request.reads, Request.leaves, hg]
      exact ⟨rfl, by simp⟩
    | some k =>
      simp only [createKeyPair, Request.reads, Request.leaves, hg]
      exact ⟨rfl, by simp⟩
  | live k => exact ⟨rfl, by simp [Request.reads]⟩
  | freed => exact ⟨.freed, List.mem_singleton_self _, by simp⟩

theorem getPubKey_follows :
    Follows (Request.getPubKey.reads c keys.kp) keys.kp (getPubKey keys) := by
  obtain ⟨kp, secret⟩ := keys
  cases kp with
  | null => exact ⟨rfl, by simp [Request.reads]⟩
  | live k => exact ⟨rfl, by simp [Request.reads]⟩
  | freed => exact ⟨.freed, List.mem_singleton_self _, by simp⟩

theorem deriveSecretCommand_follows (buffer : List UInt8) :
    Follows ((counted buffer).elim [] fun _ => [keys.kp]) keys.kp
    (deriveSecretCommand c keys buffer) := by
  unfold deriveSecretCommand
  cases hn : readNumber buffer with
  | none =>
    rw [counted_of_short hn]
    exact follows_fail keys _
  | some x =>
    obtain ⟨n, peer⟩ := x
    rw [counted_of_number hn]
    dsimp only
    by_cases hl : peer.length = n.toNat
    · rw [if_pos hl, if_neg (not_not.2 hl)]
      cases hk : keys.kp with
      | null => exact ⟨.null, List.mem_singleton_self _, by simp⟩
      | live k => exact ⟨rfl, by simp⟩
      | freed => exact ⟨.freed, List.mem_singleton_self _, by simp⟩
    · rw [if_neg hl, if_pos hl]
      exact follows_fail keys _

/-- Neither AES command looks at the key pair. -/
theorem aesCommand_follows (command short : UInt8)
    (cipher : (data secret : List UInt8) → List UInt8) (buffer : List UInt8) :
    Follows [] keys.kp (aesCommand keys command short cipher buffer) := by
  unfold aesCommand
  split
  · exact follows_fail keys _
  · split
    · exact follows_fail keys _
    · split
      · exact follows_fail keys _
      · exact ⟨rfl, by simp⟩

theorem publicDecrypt_follows (buffer : List UInt8) :
    Follows [] keys.kp (publicDecrypt c keys buffer) := by
  unfold publicDecrypt
  split
  · exact follows_fail keys _
  · split
    · exact follows_fail keys _
    · split
      · exact follows_fail keys _
      · split
        · exact follows_fail keys _
        · split
          · exact follows_fail keys _
          · split
            · exact follows_fail keys _
            · exact ⟨rfl, by simp⟩

end

/-- A request that is read from counted data and reads through `kp` or not, whatever the
data. -/
theorem elim_map {α β γ : Type} (o : Option α) (f : α → β) (z : γ) (g : β → γ) :
    (o.map f).elim z g = o.elim z fun x => g (f x) := by
  cases o <;> rfl

theorem elim_const {α γ : Type} (o : Option α) (z : γ) : (o.elim z fun _ => z) = z := by
  cases o <;> rfl

/-- **A command is served exactly when it reads through live pointers only**, and leaves
`kp` as said. -/
theorem Command.serve_follows (cmd : Command κ) (keys : Keys κ) :
    Follows (cmd.reads keys.kp) (cmd.leaves keys.kp) (cmd.serve keys) := by
  obtain ⟨c, queueSize, buffer⟩ := cmd
  show Follows ((request buffer).elim [] fun r => r.reads c keys.kp)
    ((request buffer).elim keys.kp fun r => r.leaves c keys.kp)
    (handleInternalCommand c keys queueSize buffer)
  cases buffer with
  | nil => exact follows_fail keys _
  | cons command buffer =>
    simp only [handleInternalCommand, request]
    by_cases h1 : command = pgCreateKeyPair
    · simp only [h1, if_true]
      exact createKeyPair_follows c keys
    · simp only [h1, if_false]
      by_cases h2 : command = pgGetPubKey
      · simp only [h2, if_true]
        exact getPubKey_follows c keys
      · simp only [h2, if_false]
        by_cases h3 : command = pgDeriveSecret
        · simp only [h3, if_true, elim_map, Request.reads, Request.leaves, elim_const]
          exact deriveSecretCommand_follows c keys buffer
        · simp only [h3, if_false]
          by_cases h4 : command = pgAesDecrypt
          · simp only [h4, if_true, elim_map, Request.reads, Request.leaves, elim_const]
            exact aesCommand_follows keys _ _ _ buffer
          · simp only [h4, if_false]
            by_cases h5 : command = pgAesEncrypt
            · simp only [h5, if_true, elim_map, Request.reads, Request.leaves, elim_const]
              exact aesCommand_follows keys _ _ _ buffer
            · simp only [h5, if_false]
              by_cases h6 : command = pgPublicDecrypt
              · simp only [h6, if_true, elim_map, Request.reads, Request.leaves, elim_const]
                exact publicDecrypt_follows c keys buffer
              · simp only [h6, if_false]
                by_cases h7 : command = pgInternalStatus
                · simp only [h7, if_true]
                  exact ⟨rfl, by simp [Request.reads]⟩
                · simp only [h7, if_false]
                  exact follows_fail keys _

/-! ## Sessions -/

namespace Command

/-- With a live key pair, that pair is all a command reads and leaves. -/
theorem live_keeps (cmd : Command κ) (k : KeyPair κ) :
    (∀ p ∈ cmd.reads (.live k), p = .live k) ∧ cmd.leaves (.live k) = .live k := by
  unfold reads leaves
  cases request cmd.buffer with
  | none => exact ⟨by simp, rfl⟩
  | some r => cases r <;> exact ⟨by simp [Request.reads], rfl⟩

/-- A command that uses a freed key pair reads through it, and no other command does. -/
theorem freed_reads (cmd : Command κ) :
    (cmd.UsesKeyPair → cmd.reads .freed = [.freed]) ∧ (¬ cmd.UsesKeyPair → cmd.reads .freed = []) ∧
      cmd.leaves .freed = .freed := by
  unfold UsesKeyPair reads leaves
  cases request cmd.buffer with
  | none => exact ⟨by simp, fun _ => rfl, rfl⟩
  | some r => cases r <;> exact ⟨by simp [Request.reads], by simp [Request.reads], rfl⟩

/-- The rest of a session, when a command is served. -/
theorem lifetimeKept_cons (made : List (KeyPair κ)) {cmd : Command κ} (cmds : List (Command κ))
    (keys : Keys κ) (hreads : ∀ p ∈ cmd.reads keys.kp, ∃ k, p = .live k) :
    ∃ keys', keys'.kp = cmd.leaves keys.kp ∧
      (LifetimeKept made (cmd :: cmds) keys ↔
        (∀ p ∈ cmd.reads keys.kp, ∃ k ∈ made ++ (cmd.makes keys.kp).toList, p = .live k) ∧
          LifetimeKept (made ++ (cmd.makes keys.kp).toList) cmds keys') := by
  have hfollows := cmd.serve_follows keys
  rw [LifetimeKept]
  cases hserve : cmd.serve keys with
  | none =>
    rw [hserve] at hfollows
    obtain ⟨p, hp, hdead⟩ := hfollows
    obtain ⟨k, hk⟩ := hreads p hp
    exact absurd hk (hdead k)
  | some x =>
    rw [hserve] at hfollows
    exact ⟨x.1, hfollows.1, Iff.rfl⟩

/-- **A live key pair stays live.** -/
theorem lifetimeKept_live {k : KeyPair κ} {made : List (KeyPair κ)} (hk : k ∈ made)
    (cmds : List (Command κ)) {keys : Keys κ} (hkp : keys.kp = .live k) :
    LifetimeKept made cmds keys := by
  induction cmds generalizing made keys with
  | nil => trivial
  | cons cmd cmds ih =>
    obtain ⟨hreads, hleaves⟩ := cmd.live_keeps k
    rw [← hkp] at hreads hleaves
    have hlive : ∀ p ∈ cmd.reads keys.kp, ∃ k, p = .live k :=
      fun p hp => ⟨k, (hreads p hp).trans hkp⟩
    obtain ⟨keys', hkp', hiff⟩ := lifetimeKept_cons made cmds keys hlive
    have hmem : k ∈ made ++ (cmd.makes keys.kp).toList := List.mem_append_left _ hk
    rw [hiff]
    refine ⟨?_, ih hmem ((hkp'.trans hleaves).trans hkp)⟩
    intro p hp
    exact ⟨k, hmem, (hreads p hp).trans hkp⟩

/-- **A freed key pair stays freed**, and must not be used. -/
theorem lifetimeKept_freed (made : List (KeyPair κ)) (cmds : List (Command κ)) {keys : Keys κ}
    (hkp : keys.kp = .freed) :
    LifetimeKept made cmds keys ↔ ∀ later ∈ cmds, ¬ later.UsesKeyPair := by
  induction cmds generalizing made keys with
  | nil => exact iff_of_true trivial (by simp)
  | cons cmd cmds ih =>
    obtain ⟨huses, hother, hleaves⟩ := cmd.freed_reads
    rw [List.forall_mem_cons]
    by_cases hu : cmd.UsesKeyPair
    · refine iff_of_false ?_ fun h => h.1 hu
      intro h
      obtain ⟨k, -, hk⟩ := h.1 .freed (by rw [hkp, huses hu]; exact List.mem_singleton_self _)
      cases hk
    · have hnone : cmd.reads keys.kp = [] := by rw [hkp, hother hu]
      obtain ⟨keys', hkp', hiff⟩ :=
        lifetimeKept_cons made cmds keys (by rw [hnone]; simp)
      rw [hiff, ih _ (hkp'.trans (by rw [hkp, hleaves]))]
      refine ⟨fun h => ⟨hu, h.2⟩, fun h => ⟨?_, h.2⟩⟩
      rw [hnone]
      simp

/-- **The first key pair**: it is made, or nothing may use it. -/
theorem lifetimeKept_create (made : List (KeyPair κ)) {cmd : Command κ} (cmds : List (Command κ))
    {keys : Keys κ} (hkp : keys.kp = .null) (hr : request cmd.buffer = some .createKeyPair) :
    LifetimeKept made (cmd :: cmds) keys ↔
      (generateKeyPair cmd.crypto.keygen).isSome ∨ ∀ later ∈ cmds, ¬ later.UsesKeyPair := by
  cases hg : generateKeyPair cmd.crypto.keygen with
  | none =>
    have hreads : cmd.reads keys.kp = [] := by
      rw [hkp, reads, hr]
      simp [Request.reads, hg]
    have hleaves : cmd.leaves keys.kp = .freed := by
      rw [hkp, leaves, hr]
      simp [Request.leaves, hg]
    obtain ⟨keys', hkp', hiff⟩ := lifetimeKept_cons made cmds keys (by rw [hreads]; simp)
    rw [hiff, lifetimeKept_freed _ _ (hkp'.trans hleaves), hreads]
    simp
  | some k =>
    have hreads : cmd.reads keys.kp = [.live k] := by
      rw [hkp, reads, hr]
      simp [Request.reads, hg]
    have hleaves : cmd.leaves keys.kp = .live k := by
      rw [hkp, leaves, hr]
      simp [Request.leaves, hg]
    have hmakes : cmd.makes keys.kp = some k := by
      rw [hkp, makes, hr]
      simp [Request.makes, hg]
    obtain ⟨keys', hkp', hiff⟩ := lifetimeKept_cons made cmds keys (by rw [hreads]; simp)
    have hmem : k ∈ made ++ [k] := List.mem_append_right _ (List.mem_singleton_self _)
    rw [hiff, hreads, hmakes]
    refine iff_of_true ⟨?_, lifetimeKept_live hmem cmds (hkp'.trans hleaves)⟩ (Or.inl rfl)
    intro p hp
    exact ⟨k, hmem, List.mem_singleton.1 hp⟩

/-- **Without a key pair yet**, the session has to take care. -/
theorem lifetimeKept_null (made : List (KeyPair κ)) (cmds : List (Command κ)) {keys : Keys κ}
    (hkp : keys.kp = .null) : LifetimeKept made cmds keys ↔ TakesCare cmds := by
  induction cmds generalizing made keys with
  | nil => exact Iff.rfl
  | cons cmd cmds ih =>
    rw [TakesCare]
    -- a command that neither creates a key pair nor derives a secret
    have idle : cmd.reads .null = [] → cmd.leaves .null = .null →
        (LifetimeKept made (cmd :: cmds) keys ↔ TakesCare cmds) := by
      intro hreads hleaves
      have hnone : cmd.reads keys.kp = [] := by rw [hkp, hreads]
      obtain ⟨keys', hkp', hiff⟩ := lifetimeKept_cons made cmds keys (by rw [hnone]; simp)
      rw [hiff, ih _ (hkp'.trans (by rw [hkp, hleaves]))]
      refine ⟨fun h => h.2, fun h => ⟨?_, h⟩⟩
      rw [hnone]
      simp
    cases hr : request cmd.buffer with
    | none => exact idle (by rw [reads, hr]; rfl) (by rw [leaves, hr]; rfl)
    | some r =>
      cases r with
      | createKeyPair => exact lifetimeKept_create made cmds hkp hr
      | deriveSecret peer =>
        refine iff_of_false ?_ id
        intro h
        obtain ⟨k, -, hk⟩ := h.1 .null (by
          rw [hkp, reads, hr]
          exact List.mem_singleton_self _)
        cases hk
      | getPubKey => exact idle (by rw [reads, hr]; rfl) (by rw [leaves, hr]; rfl)
      | aesDecrypt data => exact idle (by rw [reads, hr]; rfl) (by rw [leaves, hr]; rfl)
      | aesEncrypt data => exact idle (by rw [reads, hr]; rfl) (by rw [leaves, hr]; rfl)
      | publicDecrypt pubKey data => exact idle (by rw [reads, hr]; rfl) (by rw [leaves, hr]; rfl)
      | internalStatus => exact idle (by rw [reads, hr]; rfl) (by rw [leaves, hr]; rfl)

end Command

/-- **Key lifetime.**  In a session, whatever the outcomes of key generation, every command
reads through a `kp` that points to a key pair generated in the session, exactly when no
secret is requested before the first `PG_CREATE_KEY_PAIR`, and no command that uses the key
pair follows one whose generation has failed. -/
theorem lifetime_iff (cmds : List (Command κ)) :
    Command.LifetimeKept [] cmds .initial ↔ Command.TakesCare cmds :=
  Command.lifetimeKept_null [] cmds rfl

/-- A library that cannot generate a key pair. -/
def failingCrypto : Crypto Unit :=
  { rejectingCrypto with keygen := ⟨true, true, true, true, true, true, none, none⟩ }

/-- A key pair cannot be generated, and the public key is requested. -/
def readFreed : List (Command Unit) :=
  [⟨failingCrypto, 0, [pgCreateKeyPair]⟩, ⟨rejectingCrypto, 0, [pgGetPubKey]⟩]

/-- A secret is requested before there is a key pair. -/
def readNull : List (Command Unit) := [⟨rejectingCrypto, 0, [pgDeriveSecret, 0x00, 0x01, 0x78]⟩]

/-- **Both ways of reading through a pointer that is not live.** -/
theorem exists_dead_read :
    (¬ Command.LifetimeKept [] readFreed .initial ∧ Command.run readFreed .initial = none) ∧
      ¬ Command.LifetimeKept [] readNull .initial ∧ Command.run readNull .initial = none := by
  refine ⟨⟨?_, by decide⟩, ?_, by decide⟩
  · rintro ⟨-, h, -⟩
    obtain ⟨k, -, hk⟩ := h .freed (List.mem_singleton_self _)
    cases hk
  · rintro ⟨h, -⟩
    obtain ⟨k, -, hk⟩ := h .null (List.mem_singleton_self _)
    cases hk

end OpenwrtFeed.HciBridge
