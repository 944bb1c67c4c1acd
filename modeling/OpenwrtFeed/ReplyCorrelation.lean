import OpenwrtFeed.KeyLifetime

/-! # Which command a reply belongs to

A status frame carries the status and the subcommand that it answers, and each of the exits
of `handleInternalCommand` names the subcommand by hand.  One of them names the wrong one: a
`PG_AES_ENCRYPT` without a length is answered in the name of `PG_AES_DECRYPT`.  The others
are right, and every command is answered once unless it reads through a dead key pair
(`reply_correlation_iff`).
-/
namespace OpenwrtFeed.HciBridge
variable {κ : Type}

/-- The commands of `handleInternalCommand`. -/
def knownCommands : List UInt8 :=
  [pgCreateKeyPair, pgGetPubKey, pgDeriveSecret, pgAesEncrypt, pgAesDecrypt, pgPublicDecrypt,
    pgInternalStatus]

/-- The status frames sent for a command, when `malloc` succeeds: none after a read through
a dead pointer. -/
def statusFrames (result : Option (Keys κ × Reply)) : List BridgeSend :=
  (result.map fun x => reportStatus x.2).toList

/-- The frame answers the message: its subcommand is the command, or both of its octets say
`HCI_BRIDGE_ERROR` when there is no command that is known. -/
def CorrelatesTo (frame : BridgeSend) (message : List UInt8) : Prop :=
  match message.head? with
  | some command =>
    if command ∈ knownCommands then frame.data[1]? = some command
    else frame.data = [hciBridgeError, hciBridgeError]
  | none => frame.data = [hciBridgeError, hciBridgeError]

namespace Command

/-- **The reply is correlated**: there is one status frame, and it answers the message. -/
def Correlated (cmd : Command κ) (keys : Keys κ) : Prop :=
  ∃ frame, statusFrames (cmd.serve keys) = [frame] ∧
    frame.commandType = playgroundInternalCommand ∧ CorrelatesTo frame cmd.buffer

/-- Everything that the command reads through `kp` is a live key pair. -/
def ReadsLive (cmd : Command κ) (keys : Keys κ) : Prop := ∀ p ∈ cmd.reads keys.kp, ∃ k, p = .live k

/-- A `PG_AES_ENCRYPT` without a length, when there is a secret. -/
def EncryptsNothing (cmd : Command κ) (keys : Keys κ) : Prop :=
  ∃ rest, cmd.buffer = pgAesEncrypt :: rest ∧ rest.length < 2 ∧ keys.secret.isSome

end Command

/-! ## The subcommand of each reply -/

/-- The reply, if there is one, names the subcommand. -/
def Names (subcommand : UInt8) (result : Option (Keys κ × Reply)) : Prop :=
  ∀ x ∈ result, x.2.subcommand = subcommand

section
variable (c : Crypto κ) (keys : Keys κ)

theorem names_none (subcommand : UInt8) : Names subcommand (none : Option (Keys κ × Reply)) :=
  fun _ h => (by cases h)

theorem names_some (subcommand : UInt8) (keys : Keys κ) (status : UInt8) (data : List UInt8) :
    Names subcommand (some (keys, ⟨status, subcommand, data⟩)) := by
  intro x hx
  obtain rfl := Option.some.inj hx
  rfl

theorem createKeyPair_names : Names pgCreateKeyPair (createKeyPair c keys) := by
  unfold createKeyPair
  split
  · split <;> exact names_some _ _ _ _
  · exact names_some _ _ _ _
  · exact names_none _

theorem getPubKey_names : Names pgGetPubKey (getPubKey keys) := by
  unfold getPubKey
  split
  · exact names_some _ _ _ _
  · exact names_some _ _ _ _
  · exact names_none _

theorem deriveSecretCommand_names (buffer : List UInt8) :
    Names pgDeriveSecret (deriveSecretCommand c keys buffer) := by
  unfold deriveSecretCommand
  split
  · exact names_some _ _ _ _
  · split
    · exact names_some _ _ _ _
    · split
      · exact names_some _ _ _ _
      · exact names_none _

theorem publicDecrypt_names (buffer : List UInt8) :
    Names pgPublicDecrypt (publicDecrypt c keys buffer) := by
  unfold publicDecrypt
  split
  · exact names_some _ _ _ _
  · split
    · exact names_some _ _ _ _
    · split
      · exact names_some _ _ _ _
      · split
        · exact names_some _ _ _ _
        · split
          · exact names_some _ _ _ _
          · split <;> exact names_some _ _ _ _

theorem readNumber_eq_none_iff (buffer : List UInt8) :
    readNumber buffer = none ↔ buffer.length < 2 := by
  match buffer with
  | [] => simp [readNumber]
  | [a] => simp [readNumber]
  | a :: b :: rest => simp [readNumber]

/-- An AES command with a secret and without a length is answered in the name of `short`, and
in its own otherwise. -/
theorem aesCommand_names (command short : UInt8) (cipher : (data secret : List UInt8) → List UInt8)
    (buffer : List UInt8) :
    Names (if keys.secret.isSome ∧ buffer.length < 2 then short else command)
      (aesCommand keys command short cipher buffer) := by
  unfold aesCommand
  cases keys.secret with
  | none => exact names_some _ _ _ _
  | some secret =>
    dsimp only
    cases hn : readNumber buffer with
    | none =>
      rw [if_pos ⟨rfl, (readNumber_eq_none_iff buffer).1 hn⟩]
      exact names_some _ _ _ _
    | some x =>
      have hlong : ¬ buffer.length < 2 := fun hlt => by
        rw [(readNumber_eq_none_iff buffer).2 hlt] at hn
        cases hn
      rw [if_neg fun h => hlong h.2]
      dsimp only
      split <;> exact names_some _ _ _ _

end

/-- **Every reply to a known command names it**, but for the one exit. -/
theorem handleInternalCommand_names (c : Crypto κ) (keys : Keys κ) (queueSize : UInt16)
    {command : UInt8} (buffer : List UInt8) (hknown : command ∈ knownCommands) :
    Names (if command = pgAesEncrypt ∧ keys.secret.isSome ∧
      buffer.length < 2 then pgAesDecrypt else command)
        (handleInternalCommand c keys queueSize (command :: buffer)) := by
  simp only [knownCommands, List.mem_cons, List.not_mem_nil, or_false] at hknown
  rcases hknown with rfl | rfl | rfl | rfl | rfl | rfl | rfl
  · exact createKeyPair_names c keys
  · exact getPubKey_names keys
  · exact deriveSecretCommand_names c keys buffer
  · have hnames := aesCommand_names keys pgAesEncrypt pgAesDecrypt
      (fun data key => encryptionEncrypt (c.encrypt data key)) buffer
    simp only [true_and]
    exact hnames
  · have hnames := aesCommand_names keys pgAesDecrypt pgAesDecrypt
      (fun data key => encryptionDecrypt (c.decrypt data key)) buffer
    rw [ite_self] at hnames
    exact hnames
  · exact publicDecrypt_names c keys buffer
  · exact names_some _ _ _ _

/-- A message without a known command is answered with two errors. -/
theorem handleInternalCommand_unknown (c : Crypto κ) (keys : Keys κ) (queueSize : UInt16)
    {command : UInt8} (buffer : List UInt8) (hunknown : command ∉ knownCommands) :
    handleInternalCommand c keys queueSize (command :: buffer) = fail keys hciBridgeError := by
  simp only [knownCommands, List.mem_cons, List.not_mem_nil, or_false, not_or] at hunknown
  obtain ⟨h1, h2, h3, h4, h5, h6, h7⟩ := hunknown
  simp only [handleInternalCommand, h1, h2, h3, h4, h5, h6, h7, if_false]

/-- A reply answers its message unless it is to a `PG_AES_ENCRYPT` without a length. -/
theorem reply_correlatesTo_iff (cmd : Command κ) (keys : Keys κ) {keys' : Keys κ} {reply : Reply}
    (hserve : cmd.serve keys = some (keys', reply)) :
    CorrelatesTo (reportStatus reply) cmd.buffer ↔ ¬ cmd.EncryptsNothing keys := by
  obtain ⟨c, queueSize, message⟩ := cmd
  have hserve : handleInternalCommand c keys queueSize message = some (keys', reply) := hserve
  unfold Command.EncryptsNothing CorrelatesTo
  cases message with
  | nil =>
    obtain ⟨-, rfl⟩ := Prod.mk.inj (Option.some.inj hserve)
    refine iff_of_true rfl ?_
    rintro ⟨rest, hrest, -⟩
    cases hrest
  | cons command buffer =>
    dsimp only [List.head?_cons]
    by_cases hknown : command ∈ knownCommands
    · have hname : reply.subcommand = _ :=
        handleInternalCommand_names c keys queueSize buffer hknown _ hserve
      rw [if_pos hknown]
      show some reply.subcommand = some command ↔ _
      rw [Option.some_inj, hname]
      by_cases hshort : command = pgAesEncrypt ∧ keys.secret.isSome ∧ buffer.length < 2
      · obtain ⟨rfl, hsecret, hlen⟩ := hshort
        rw [if_pos ⟨rfl, hsecret, hlen⟩]
        exact iff_of_false (by decide) (not_not.2 ⟨buffer, rfl, hlen, hsecret⟩)
      · rw [if_neg hshort]
        refine iff_of_true rfl ?_
        rintro ⟨rest, hrest, hlen, hsecret⟩
        obtain ⟨rfl, rfl⟩ := List.cons.inj hrest
        exact hshort ⟨rfl, hsecret, hlen⟩
    · rw [handleInternalCommand_unknown c keys queueSize buffer hknown] at hserve
      obtain ⟨-, rfl⟩ := Prod.mk.inj (Option.some.inj hserve)
      rw [if_neg hknown]
      refine iff_of_true rfl ?_
      rintro ⟨rest, hrest, -⟩
      obtain ⟨rfl, -⟩ := List.cons.inj hrest
      exact hknown (by decide)

/-- **Exactly when the reply is correlated**: everything that the command reads through `kp`
is live, and it is not a `PG_AES_ENCRYPT` without a length while there is a secret. -/
theorem reply_correlation_iff (cmd : Command κ) (keys : Keys κ) :
    cmd.Correlated keys ↔ cmd.ReadsLive keys ∧ ¬ cmd.EncryptsNothing keys := by
  have hfollows := cmd.serve_follows keys
  unfold Command.Correlated
  cases hserve : cmd.serve keys with
  | none =>
    rw [hserve] at hfollows
    obtain ⟨p, hp, hdead⟩ := hfollows
    refine iff_of_false ?_ fun h => ?_
    · rintro ⟨frame, hframe, -⟩
      cases hframe
    · obtain ⟨k, rfl⟩ := h.1 p hp
      exact hdead k rfl
  | some x =>
    obtain ⟨keys', reply⟩ := x
    rw [hserve] at hfollows
    have hiff := reply_correlatesTo_iff cmd keys hserve
    constructor
    · rintro ⟨frame, hframe, -, hcorrelates⟩
      obtain rfl := List.singleton_injective hframe
      exact ⟨hfollows.2, hiff.1 hcorrelates⟩
    · rintro ⟨-, hnot⟩
      exact ⟨_, rfl, rfl, hiff.2 hnot⟩

/-! ### The wrong name -/

/-- **A `PG_AES_ENCRYPT` without a length is answered as a `PG_AES_DECRYPT`**, with a secret
at hand. -/
theorem exists_misnamed :
    let cmd : Command Unit := ⟨rejectingCrypto, 0, [pgAesEncrypt]⟩
    let keys : Keys Unit := ⟨.null, some [0x2A]⟩
    statusFrames (cmd.serve keys) =
        [⟨playgroundInternalCommand, [hciBridgeError, pgAesDecrypt], 2⟩] ∧
          ¬ cmd.Correlated keys := by
  refine ⟨by decide, ?_⟩
  rintro ⟨frame, hframe, -, hcorrelates⟩
  obtain rfl := List.singleton_injective hframe
  have hname : [hciBridgeError, pgAesDecrypt][1]? = some pgAesEncrypt := hcorrelates
  exact absurd hname (by decide)

end OpenwrtFeed.HciBridge
