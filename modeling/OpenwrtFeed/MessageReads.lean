import OpenwrtFeed.Traced
import OpenwrtFeed.StatusHonesty

/-! # What is read of a message

`handleInternalCommand` again, over the memory that the message begins: `buffer` is an
address, `length` the 16-bit counter of what should be left of the message, and every read
is recorded.  It replies as before, whatever follows the message in memory
(`readInternalCommand_value`), and reads beyond its end in one place only: the loop that
prints the peer's key runs before the length of the key has been checked
(`reads_in_bounds_iff`).
-/
namespace OpenwrtFeed.HciBridge
variable {κ : Type}

open Traced (cell cells)

/-! ## The handler -/

/-- `buffer[0] << 8 | buffer[1]`. -/
def numberAt (memory : Nat → UInt8) (buffer : Nat) : Traced UInt16 := do
  let high ← cell memory buffer
  let low ← cell memory (buffer + 1)
  return HostOrder.bigEndian.number high low

section
variable (c : Crypto κ) (keys : Keys κ) (memory : Nat → UInt8)

/-- The command `PG_DERIVE_SECRET`, with the loop that prints the key. -/
def readDeriveSecret (buffer : Nat) (length : UInt16) : Traced (Option (Keys κ × Reply)) :=
  if length < 2 then return fail keys pgDeriveSecret
  else do
    let peerPubKeyLength ← numberAt memory buffer
    let buffer := buffer + 2
    let length := length - 2
    let _printed ← cells memory buffer peerPubKeyLength.toNat
    if length ≠ peerPubKeyLength then return fail keys pgDeriveSecret
    else match keys.kp with
    | .live k => do
      let peer ← cells memory buffer peerPubKeyLength.toNat
      return some ({ keys with secret := deriveSecret (c.derive k.privateKey peer) },
        ⟨hciBridgeOk, pgDeriveSecret, []⟩)
    | _ => return none

/-- The two AES commands. -/
def readAesCommand (command short : UInt8) (cipher : (data secret : List UInt8) → List UInt8)
    (buffer : Nat) (length : UInt16) : Traced (Option (Keys κ × Reply)) :=
  match keys.secret with
  | none => return fail keys command
  | some secret =>
    if length < 2 then return fail keys short
    else do
      let dataLength ← numberAt memory buffer
      let buffer := buffer + 2
      let length := length - 2
      if length ≠ dataLength then return fail keys command
      else do
        let data ← cells memory buffer dataLength.toNat
        return some (keys, ⟨hciBridgeOk, command, cipher data secret⟩)

/-- The command `PG_PUBLIC_DECRYPT`. -/
def readPublicDecrypt (buffer : Nat) (length : UInt16) : Traced (Option (Keys κ × Reply)) :=
  if length < 2 then return fail keys pgPublicDecrypt
  else
    let buffer := buffer + 2
    let length := length - 2
    if length < 2 then return fail keys pgPublicDecrypt
    else do
      let pubKeyLength ← numberAt memory buffer
      let buffer := buffer + 2
      let length := length - 2
      if length ≤ pubKeyLength then return fail keys pgPublicDecrypt
      else do
        let pubKey ← cells memory buffer pubKeyLength.toNat
        let buffer := buffer + pubKeyLength.toNat
        let length := length - pubKeyLength
        if length < 2 then return fail keys pgPublicDecrypt
        else do
          let dataLength ← numberAt memory buffer
          let buffer := buffer + 2
          let length := length - 2
          if length ≠ dataLength then return fail keys pgPublicDecrypt
          else do
            let data ← cells memory buffer dataLength.toNat
            return match encryptionDecryptWithPublicKey (c.rsa data pubKey) with
              | none => fail keys pgPublicDecrypt
              | some decrypted => some (keys, ⟨hciBridgeOk, pgPublicDecrypt, decrypted⟩)

/-- The branches on the command. -/
def readCommand (queueSize : UInt16) (command : UInt8) (buffer : Nat) (length : UInt16) :
    Traced (Option (Keys κ × Reply)) :=
  if command = pgCreateKeyPair then return createKeyPair c keys
  else if command = pgGetPubKey then return getPubKey keys
  else if command = pgDeriveSecret then readDeriveSecret c keys memory buffer length
  else if command = pgAesDecrypt then
    readAesCommand keys memory pgAesDecrypt pgAesDecrypt
      (fun data key => encryptionDecrypt (c.decrypt data key)) buffer length
  else if command = pgAesEncrypt then
    readAesCommand keys memory pgAesEncrypt pgAesDecrypt
      (fun data key => encryptionEncrypt (c.encrypt data key)) buffer length
  else if command = pgPublicDecrypt then readPublicDecrypt c keys memory buffer length
  else if command = pgInternalStatus then return internalStatus keys queueSize
  else return fail keys hciBridgeError

/-- `handleInternalCommand` of a message that is at the beginning of the memory. -/
def readInternalCommand (queueSize length : UInt16) : Traced (Option (Keys κ × Reply)) :=
  if length < 1 then return fail keys hciBridgeError
  else do
    let command ← cell memory 0
    readCommand c keys memory queueSize command 1 (length - 1)

end

/-! ## The octets between an address and the end of the message -/

/-- What is left of the message. -/
def octetsAt (memory : Nat → UInt8) (buffer : Nat) (length : UInt16) : List UInt8 :=
  (List.range' buffer length.toNat).map memory

section
variable {memory : Nat → UInt8} {buffer : Nat} {length : UInt16}

@[simp] theorem length_octetsAt : (octetsAt memory buffer length).length = length.toNat := by
  simp [octetsAt]

theorem toNat_sub_two (h : ¬ length < 2) : (length - 2).toNat = length.toNat - 2 ∧
    2 ≤ length.toNat := by
  have hle : 2 ≤ length := UInt16.not_lt.1 h
  exact ⟨UInt16.toNat_sub_of_le _ _ hle, UInt16.le_iff_toNat_le.1 hle⟩

theorem readNumber_octetsAt_short (h : length < 2) :
    readNumber (octetsAt memory buffer length) = none := by
  have hlt : length.toNat < 2 := UInt16.lt_iff_toNat_lt.1 h
  unfold octetsAt
  obtain hz | hone : length.toNat = 0 ∨ length.toNat = 1 := by omega
  · rw [hz]
    rfl
  · rw [hone]
    rfl

theorem readNumber_octetsAt (h : ¬ length < 2) :
    readNumber (octetsAt memory buffer length) =
      some ((numberAt memory buffer).value, octetsAt memory (buffer + 2) (length - 2)) := by
  obtain ⟨hsub, hle⟩ := toNat_sub_two h
  have hcount : length.toNat = (length.toNat - 2) + 1 + 1 := by omega
  unfold octetsAt
  rw [hsub, hcount]
  rfl

theorem drop_octetsAt {n : UInt16} (h : n ≤ length) :
    (octetsAt memory buffer length).drop n.toNat = octetsAt memory (buffer + n.toNat)
    (length - n) := by
  unfold octetsAt
  rw [← List.map_drop, List.drop_range', Nat.mul_one, UInt16.toNat_sub_of_le _ _ h]

theorem take_octetsAt {n : UInt16} (h : n ≤ length) :
    (octetsAt memory buffer length).take n.toNat = octetsAt memory buffer n := by
  have hle := UInt16.le_iff_toNat_le.1 h
  unfold octetsAt
  rw [← List.map_take, List.take_range'_of_length_ge hle]

/-- The length that is stated is that of what is left. -/
theorem length_ne_iff {n : UInt16} : (octetsAt memory buffer length).length ≠ n.toNat ↔
    length ≠ n := by
  rw [length_octetsAt, ne_eq, UInt16.toNat_inj]

end

/-! ## The reply -/

section
variable (c : Crypto κ) (keys : Keys κ) (memory : Nat → UInt8) (buffer : Nat) (length : UInt16)

theorem readDeriveSecret_value :
    (readDeriveSecret c keys memory buffer length).value =
      deriveSecretCommand c keys (octetsAt memory buffer length) := by
  unfold readDeriveSecret deriveSecretCommand
  by_cases hl : length < 2
  · rw [if_pos hl, readNumber_octetsAt_short hl]
    rfl
  · rw [if_neg hl, readNumber_octetsAt hl]
    simp only [Traced.bind_value]
    by_cases hn : length - 2 = (numberAt memory buffer).value
    · rw [if_neg (not_not.2 hn), if_neg fun h => length_ne_iff.1 h hn, hn]
      cases keys.kp <;> rfl
    · rw [if_pos hn, if_pos (length_ne_iff.2 hn)]
      rfl

theorem readAesCommand_value (command short : UInt8)
    (cipher : (data secret : List UInt8) → List UInt8) :
    (readAesCommand keys memory command short cipher buffer length).value =
      aesCommand keys command short cipher (octetsAt memory buffer length) := by
  unfold readAesCommand aesCommand
  cases keys.secret with
  | none => rfl
  | some secret =>
    dsimp only
    by_cases hl : length < 2
    · rw [if_pos hl, readNumber_octetsAt_short hl]
      rfl
    · rw [if_neg hl, readNumber_octetsAt hl]
      simp only [Traced.bind_value]
      by_cases hn : length - 2 = (numberAt memory buffer).value
      · rw [if_neg (not_not.2 hn), if_neg fun h => length_ne_iff.1 h hn, hn]
        rfl
      · rw [if_pos hn, if_pos (length_ne_iff.2 hn)]
        rfl

theorem readPublicDecrypt_value :
    (readPublicDecrypt c keys memory buffer length).value =
      publicDecrypt c keys (octetsAt memory buffer length) := by
  unfold readPublicDecrypt publicDecrypt
  by_cases hl : length < 2
  · rw [if_pos hl, readNumber_octetsAt_short hl]
    rfl
  · rw [if_neg hl, readNumber_octetsAt hl]
    dsimp only
    generalize length - 2 = length₁
    generalize buffer + 2 = buffer₁
    by_cases hl₁ : length₁ < 2
    · rw [if_pos hl₁, readNumber_octetsAt_short hl₁]
      rfl
    · rw [if_neg hl₁, readNumber_octetsAt hl₁]
      simp only [Traced.bind_value]
      generalize (numberAt memory buffer₁).value = pubKeyLength
      generalize length₁ - 2 = length₂
      generalize buffer₁ + 2 = buffer₂
      by_cases hk : length₂ ≤ pubKeyLength
      · rw [if_pos hk, if_pos (by rw [length_octetsAt]; exact UInt16.le_iff_toNat_le.1 hk)]
        rfl
      · have hle : pubKeyLength ≤ length₂ := UInt16.le_of_lt (UInt16.not_le.1 hk)
        rw [if_neg hk,
          if_neg (by rw [length_octetsAt]; exact fun h => hk (UInt16.le_iff_toNat_le.2 h)),
            drop_octetsAt hle, take_octetsAt hle]
        simp only [Traced.bind_value]
        generalize length₂ - pubKeyLength = length₃
        generalize buffer₂ + pubKeyLength.toNat = buffer₃
        by_cases hl₃ : length₃ < 2
        · rw [if_pos hl₃, readNumber_octetsAt_short hl₃]
          rfl
        · rw [if_neg hl₃, readNumber_octetsAt hl₃]
          simp only [Traced.bind_value]
          by_cases hn : length₃ - 2 = (numberAt memory buffer₃).value
          · rw [if_neg (not_not.2 hn), if_neg fun h => length_ne_iff.1 h hn, hn]
            rfl
          · rw [if_pos hn, if_pos (length_ne_iff.2 hn)]
            rfl

end

theorem readCommand_value (c : Crypto κ) (keys : Keys κ) (memory : Nat → UInt8) (queueSize : UInt16)
    (command : UInt8) (buffer : Nat) (length : UInt16) :
    (readCommand c keys memory queueSize command buffer length).value =
      handleInternalCommand c keys queueSize (command :: octetsAt memory buffer length) := by
  simp only [readCommand, apply_ite Traced.value, Traced.pure_value, readDeriveSecret_value,
    readAesCommand_value, readPublicDecrypt_value]
  rfl

/-- A message that is not empty begins with its command. -/
theorem octetsAt_cons {memory : Nat → UInt8} {buffer : Nat} {length : UInt16} (h : ¬ length < 1) :
    octetsAt memory buffer length = memory buffer :: octetsAt memory (buffer + 1) (length - 1) := by
  have hle : 1 ≤ length := UInt16.not_lt.1 h
  have hone : 1 ≤ length.toNat := UInt16.le_iff_toNat_le.1 hle
  have hsub : (length - 1).toNat = length.toNat - 1 := UInt16.toNat_sub_of_le _ _ hle
  have hcount : length.toNat = (length - 1).toNat + 1 := by omega
  unfold octetsAt
  rw [hcount]
  rfl

/-- **The reply is that to the message**, whatever follows it in memory. -/
theorem readInternalCommand_value (c : Crypto κ) (keys : Keys κ) (memory : Nat → UInt8)
    (queueSize length : UInt16) :
    (readInternalCommand c keys memory queueSize length).value =
      handleInternalCommand c keys queueSize (octetsAt memory 0 length) := by
  unfold readInternalCommand
  by_cases hl : length < 1
  · have hzero : length.toNat = 0 := Nat.lt_one_iff.1 (UInt16.lt_iff_toNat_lt.1 hl)
    rw [if_pos hl, octetsAt, hzero]
    rfl
  · rw [if_neg hl, octetsAt_cons hl]
    exact readCommand_value c keys memory queueSize (memory 0) 1 (length - 1)

/-! ## The reads -/

section
variable (c : Crypto κ) (keys : Keys κ) {memory : Nat → UInt8} {n buffer : Nat} {length : UInt16}

theorem numberAt_below : (numberAt memory buffer).Below n ↔ buffer + 1 < n := by
  simp only [numberAt, Traced.below_bind, Traced.below_cell, Traced.below_pure, and_true]
  omega

/-- **`PG_DERIVE_SECRET` reads beyond the end** exactly when the length that it states is more
than there is. -/
theorem readDeriveSecret_below (hend : buffer + length.toNat = n) :
    (readDeriveSecret c keys memory buffer length).Below n ↔
      ¬ (2 ≤ length.toNat ∧ length.toNat - 2 < (numberAt memory buffer).value.toNat) := by
  unfold readDeriveSecret
  by_cases hl : length < 2
  · have hlt : length.toNat < 2 := UInt16.lt_iff_toNat_lt.1 hl
    rw [if_pos hl]
    exact iff_of_true (Traced.below_pure _ _) (by omega)
  · obtain ⟨hsub, hle⟩ := toNat_sub_two hl
    rw [if_neg hl]
    simp only [Traced.below_bind, numberAt_below, Traced.below_cells]
    generalize (numberAt memory buffer).value = stated
    have hrest : ∀ x : Traced (Option (Keys κ × Reply)), x.Below n →
        (if length - 2 ≠ stated then pure (fail keys pgDeriveSecret) else x).Below n := by
      intro x hx
      split
      · exact Traced.below_pure _ _
      · exact hx
    constructor
    · rintro ⟨-, hprinted, -⟩
      omega
    · intro hnot
      have hstated : stated.toNat = 0 ∨ buffer + 2 + stated.toNat ≤ n := by omega
      refine ⟨by omega, hstated, hrest _ ?_⟩
      cases keys.kp with
      | live k =>
          simp only [Traced.below_bind, Traced.below_cells, Traced.below_pure, and_true, hstated]
      | null => exact Traced.below_pure _ _
      | freed => exact Traced.below_pure _ _

theorem readAesCommand_below (command short : UInt8)
    (cipher : (data secret : List UInt8) → List UInt8) (hend : buffer + length.toNat = n) :
    (readAesCommand keys memory command short cipher buffer length).Below n := by
  unfold readAesCommand
  cases keys.secret with
  | none => exact Traced.below_pure _ _
  | some secret =>
    dsimp only
    split
    · exact Traced.below_pure _ _
    · rename_i hl
      obtain ⟨hsub, hle⟩ := toNat_sub_two hl
      simp only [Traced.below_bind, numberAt_below]
      refine ⟨by omega, ?_⟩
      split
      · exact Traced.below_pure _ _
      · rename_i hn
        rw [ne_eq, not_not] at hn
        simp only [Traced.below_bind, Traced.below_cells, Traced.below_pure, and_true, ← hn, hsub]
        omega

theorem readPublicDecrypt_below (hend : buffer + length.toNat = n) :
    (readPublicDecrypt c keys memory buffer length).Below n := by
  unfold readPublicDecrypt
  split
  · exact Traced.below_pure _ _
  · rename_i hl
    obtain ⟨hsub, hle⟩ := toNat_sub_two hl
    dsimp only
    have hend₁ : buffer + 2 + (length - 2).toNat = n := by omega
    generalize length - 2 = length₁ at hend₁ ⊢
    generalize buffer + 2 = buffer₁ at hend₁ ⊢
    split
    · exact Traced.below_pure _ _
    · rename_i hl₁
      obtain ⟨hsub₁, hle₁⟩ := toNat_sub_two hl₁
      simp only [Traced.below_bind, numberAt_below]
      refine ⟨by omega, ?_⟩
      have hend₂ : buffer₁ + 2 + (length₁ - 2).toNat = n := by omega
      generalize (numberAt memory buffer₁).value = pubKeyLength
      generalize length₁ - 2 = length₂ at hend₂ ⊢
      generalize buffer₁ + 2 = buffer₂ at hend₂ ⊢
      split
      · exact Traced.below_pure _ _
      · rename_i hk
        have hle₂ : pubKeyLength ≤ length₂ := UInt16.le_of_lt (UInt16.not_le.1 hk)
        have hsub₂ := UInt16.toNat_sub_of_le _ _ hle₂
        have hnat := UInt16.le_iff_toNat_le.1 hle₂
        simp only [Traced.below_bind, Traced.below_cells]
        refine ⟨by omega, ?_⟩
        have hend₃ : buffer₂ + pubKeyLength.toNat + (length₂ - pubKeyLength).toNat = n := by omega
        generalize length₂ - pubKeyLength = length₃ at hend₃ ⊢
        generalize buffer₂ + pubKeyLength.toNat = buffer₃ at hend₃ ⊢
        split
        · exact Traced.below_pure _ _
        · rename_i hl₃
          obtain ⟨hsub₃, hle₃⟩ := toNat_sub_two hl₃
          simp only [Traced.below_bind, numberAt_below]
          refine ⟨by omega, ?_⟩
          split
          · exact Traced.below_pure _ _
          · rename_i hn
            rw [ne_eq, not_not] at hn
            simp only [Traced.below_bind, Traced.below_cells, Traced.below_pure, and_true,
              ← hn, hsub₃]
            omega

end

/-- Of all commands, only `PG_DERIVE_SECRET` may read beyond the end. -/
theorem readCommand_below (c : Crypto κ) (keys : Keys κ) (memory : Nat → UInt8) (queueSize : UInt16)
    (command : UInt8) {n buffer : Nat} {length : UInt16} (hend : buffer + length.toNat = n) :
    (readCommand c keys memory queueSize command buffer length).Below n ↔
      ¬ (command = pgDeriveSecret ∧ 2 ≤ length.toNat ∧
        length.toNat - 2 < (numberAt memory buffer).value.toNat) := by
  unfold readCommand
  by_cases hderive : command = pgDeriveSecret
  · rw [hderive, if_neg (by decide), if_neg (by decide), if_pos rfl,
      readDeriveSecret_below c keys hend]
    simp only [true_and]
  · refine iff_of_true ?_ fun h => hderive h.1
    rw [if_neg hderive]
    split
    · exact Traced.below_pure _ _
    · split
      · exact Traced.below_pure _ _
      · split
        · exact readAesCommand_below keys _ _ _ hend
        · split
          · exact readAesCommand_below keys _ _ _ hend
          · split
            · exact readPublicDecrypt_below c keys hend
            · split <;> exact Traced.below_pure _ _

/-- The message is a `PG_DERIVE_SECRET` that states a longer key than it holds. -/
def Overstates (memory : Nat → UInt8) (length : UInt16) : Prop :=
  memory 0 = pgDeriveSecret ∧ 3 ≤ length.toNat ∧
    length.toNat - 3 < (HostOrder.bigEndian.number (memory 1) (memory 2)).toNat

/-- **The message is read within its bounds, exactly when it does not overstate the length of
the peer's key**, for every message, whatever follows it in memory, and every key state. -/
theorem reads_in_bounds_iff (c : Crypto κ) (keys : Keys κ) (memory : Nat → UInt8)
    (queueSize length : UInt16) :
    (∀ p ∈ (readInternalCommand c keys memory queueSize length).reads, p < length.toNat) ↔
      ¬ Overstates memory length := by
  show (readInternalCommand c keys memory queueSize length).Below length.toNat ↔ _
  unfold readInternalCommand Overstates
  by_cases hl : length < 1
  · have hlt : length.toNat < 1 := UInt16.lt_iff_toNat_lt.1 hl
    rw [if_pos hl]
    exact iff_of_true (Traced.below_pure _ _) (by omega)
  · have hle : 1 ≤ length := UInt16.not_lt.1 hl
    have hone : 1 ≤ length.toNat := UInt16.le_iff_toNat_le.1 hle
    have hsub : (length - 1).toNat = length.toNat - 1 := UInt16.toNat_sub_of_le _ _ hle
    have hend : 1 + (length - 1).toNat = length.toNat := by omega
    have hstated : (numberAt memory 1).value = HostOrder.bigEndian.number (memory 1) (memory 2) :=
      rfl
    have hcount : 2 ≤ length.toNat - 1 ↔ 3 ≤ length.toNat := by omega
    rw [if_neg hl, Traced.below_bind, Traced.below_cell,
      readCommand_below c keys memory _ _ hend, hsub, hstated, Nat.sub_sub, hcount]
    exact and_iff_right hone

/-! ### A key that is not there -/

/-- A `PG_DERIVE_SECRET` that states a key of 65535 octets and holds none. -/
def statesMuch : List UInt8 := [pgDeriveSecret, 0xFF, 0xFF]

/-- **The loop that prints the key reads beyond a message of three octets.** -/
theorem exists_read_beyond :
    ∃ p ∈ (readInternalCommand rejectingCrypto .initial (fun i => statesMuch.getD i 0) 0 3).reads,
      3 ≤ p := by
  refine ⟨3, ?_, Nat.le_refl 3⟩
  show 3 ∈ [0] ++ ([1, 2] ++ (List.range' 3 65535 ++ []))
  simp

end OpenwrtFeed.HciBridge
