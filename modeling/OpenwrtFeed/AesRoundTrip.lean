import OpenwrtFeed.InternalCommand

/-! # Encrypting and decrypting through the bridge

A client encrypts with `PG_AES_ENCRYPT` and sends the ciphertext back in a
`PG_AES_DECRYPT` message.  Both messages have the same five octets around the data, and
`session` takes neither when it is longer than 4096 octets, but padding makes the
ciphertext longer than the plaintext: of the 4092 octets that can be encrypted, the last
thirteen sizes give a ciphertext that the client cannot send back
(`aes_round_trip_iff`).
-/
namespace OpenwrtFeed.HciBridge

/-! ## Messages that are accepted -/

/-- `session` dispatches the message, when TCP does not cut it. -/
def Accepts (order : HostOrder) (unset : UInt16) (m : Message) : Prop :=
  (Session.start.run order unset (recvs m.whole (m.wire order))).dispatched = [m.dispatched]

theorem accepts_of_fits (order : HostOrder) (unset : UInt16) {m : Message} (h : m.Fits) :
    Accepts order unset m := by
  have hoctets := length_octets order (UInt16.ofNat m.length)
  unfold Accepts Message.whole Message.wire
  simp only [recvs, Session.run_cons]
  rw [List.take_left' hoctets, List.drop_left' hoctets, Session.recv_length rfl h]
  simp only [List.take_succ_cons, List.take_zero, List.drop_succ_cons, List.drop_zero]
  rw [Session.recv_commandType rfl, List.take_length, Session.recv_payload rfl h]
  rfl

/-- A message that does not fit is not dispatched: its length is refused, or is not the
number of octets that follow. -/
theorem not_accepts_of_not_fits (order : HostOrder) (unset : UInt16) {m : Message} (h : ¬ m.Fits) :
    ¬ Accepts order unset m := by
  have hoctets := length_octets order (UInt16.ofNat m.length)
  have hlen : m.length = m.payload.length + 1 := rfl
  have hmod : (UInt16.ofNat m.length).toNat = m.length % 65536 := UInt16.toNat_ofNat'
  have hends : ∀ s : Session, s.reading = .ended → s.dispatched = [] →
      (s.run order unset []).dispatched ≠ [m.dispatched] := by
    intro s _ hs heq
    rw [show s.run order unset [] = s from rfl, hs] at heq
    nomatch heq
  unfold Accepts Message.whole Message.wire
  simp only [recvs, Session.run_cons]
  rw [List.take_left' hoctets, List.drop_left' hoctets]
  simp only [List.take_succ_cons, List.take_zero, List.drop_succ_cons, List.drop_zero,
    List.take_length]
  have hfirst : Session.start.recv order unset (.octets (order.octets (UInt16.ofNat m.length))) =
      Session.start.gotLength (UInt16.ofNat m.length) := by
    unfold Session.recv
    simp only [Session.start]
    rw [if_neg (by rw [hoctets]; omega), HostOrder.number_octets]
  rw [hfirst]
  unfold Session.gotLength
  by_cases hlong : 4096 < UInt16.ofNat m.length
  · rw [if_pos hlong]
    exact hends _ rfl rfl
  · rw [if_neg hlong, Session.recv_commandType rfl]
    have hle : ¬ 4096 < m.length % 65536 := by
      rw [← hmod]
      exact hlong
    have hcut : m.payload.length = 0 ∨
        (m.payload.length : Int) ≠ ((UInt16.ofNat m.length).toNat : Int) - 1 := by
      rw [hmod]
      by_contra hc
      exact h ⟨by omega, by omega⟩
    apply hends _
    · simp only [Session.recv]
      rw [if_pos hcut]
    · simp only [Session.recv]
      rw [if_pos hcut]
      rfl

/-- **`session` accepts the messages of 2 to 4096 octets.** -/
theorem accepts_iff (order : HostOrder) (unset : UInt16) (m : Message) :
    Accepts order unset m ↔ m.Fits :=
  ⟨fun h => by_contra fun hf => not_accepts_of_not_fits order unset hf h,
    accepts_of_fits order unset⟩

/-! ## The AES commands -/

/-- The message of an AES command. -/
def aesMessage (command : UInt8) (data : List UInt8) : Message :=
  ⟨playgroundInternalCommand,
    command :: (HostOrder.bigEndian.octets (UInt16.ofNat data.length) ++ data)⟩

theorem aesMessage_fits_iff (command : UInt8) (data : List UInt8) :
    (aesMessage command data).Fits ↔ data.length ≤ 4092 := by
  have hlen : (aesMessage command data).length = data.length + 4 := by
    simp [aesMessage, Message.length, length_octets]
    omega
  constructor
  · intro h
    have := h.bound
    omega
  · exact fun h => ⟨by omega, by omega⟩

/-- What the bridge relies on in AES-256-CBC with PKCS#7 padding. -/
structure AesCbc where
  encrypt : (key plaintext : List UInt8) → List UInt8
  decrypt : (key ciphertext : List UInt8) → List UInt8
  length_encrypt : ∀ key plaintext,
    (encrypt key plaintext).length = (plaintext.length / 16 + 1) * 16
  decrypt_encrypt : ∀ key plaintext, decrypt key (encrypt key plaintext) = plaintext

/-- The library computes the cipher on every plaintext and on every ciphertext. -/
structure Crypto.Computes {κ : Type} (c : Crypto κ) (aes : AesCbc) : Prop where
  encrypt : ∀ plaintext key,
    encryptionEncrypt (c.encrypt plaintext key) = aes.encrypt key plaintext
  decrypt : ∀ plaintext key,
    encryptionDecrypt (c.decrypt (aes.encrypt key plaintext) key) =
      aes.decrypt key (aes.encrypt key plaintext)

section
variable {κ : Type} {c : Crypto κ} {keys : Keys κ} {secret : List UInt8}

/-- An AES message with a length that fits two octets reaches the cipher. -/
theorem aesCommand_message (hs : keys.secret = some secret) {data : List UInt8}
    (hlen : data.length < 65536) (command short : UInt8)
    (cipher : (data secret : List UInt8) → List UInt8) :
    aesCommand keys command short cipher
        (HostOrder.bigEndian.octets (UInt16.ofNat data.length) ++ data) =
      some (keys, ⟨hciBridgeOk, command, cipher data secret⟩) := by
  have hn : (UInt16.ofNat data.length).toNat = data.length := UInt16.toNat_ofNat_of_lt' hlen
  simp only [aesCommand, hs, readNumber_octets]
  rw [if_neg (by rw [hn]; simp)]

theorem handle_aesEncrypt (hs : keys.secret = some secret) {data : List UInt8}
    (hlen : data.length < 65536) (queueSize : UInt16) :
    handleInternalCommand c keys queueSize (aesMessage pgAesEncrypt data).payload =
      some (keys, ⟨hciBridgeOk, pgAesEncrypt, encryptionEncrypt (c.encrypt data secret)⟩) :=
  aesCommand_message hs hlen pgAesEncrypt pgAesDecrypt
    fun data key => encryptionEncrypt (c.encrypt data key)

theorem handle_aesDecrypt (hs : keys.secret = some secret) {data : List UInt8}
    (hlen : data.length < 65536) (queueSize : UInt16) :
    handleInternalCommand c keys queueSize (aesMessage pgAesDecrypt data).payload =
      some (keys, ⟨hciBridgeOk, pgAesDecrypt, encryptionDecrypt (c.decrypt data secret)⟩) :=
  aesCommand_message hs hlen pgAesDecrypt pgAesDecrypt
    fun data key => encryptionDecrypt (c.decrypt data key)

/-- **A plaintext comes back from the bridge exactly when it has at most 4079 octets.**
Every plaintext of a message that `session` accepts is encrypted; the message with the
ciphertext is accepted, and answered with the plaintext, exactly for plaintexts of at most
4079 octets. -/
theorem aes_round_trip_iff (order : HostOrder) (unset : UInt16) {aes : AesCbc} (hc : c.Computes aes)
    (hs : keys.secret = some secret) {plaintext : List UInt8}
    (haccepts : Accepts order unset (aesMessage pgAesEncrypt plaintext)) (queueSize : UInt16) :
    handleInternalCommand c keys queueSize (aesMessage pgAesEncrypt plaintext).payload =
        some (keys, ⟨hciBridgeOk, pgAesEncrypt, aes.encrypt secret plaintext⟩) ∧
      ((Accepts order unset (aesMessage pgAesDecrypt (aes.encrypt secret plaintext)) ∧
          handleInternalCommand c keys queueSize
              (aesMessage pgAesDecrypt (aes.encrypt secret plaintext)).payload =
            some (keys, ⟨hciBridgeOk, pgAesDecrypt, plaintext⟩)) ↔
        plaintext.length ≤ 4079) := by
  rw [accepts_iff, aesMessage_fits_iff] at haccepts
  have hlen := aes.length_encrypt secret plaintext
  constructor
  · rw [handle_aesEncrypt hs (by omega), hc.encrypt]
  · rw [accepts_iff, aesMessage_fits_iff, hlen]
    constructor
    · rintro ⟨hle, -⟩
      omega
    · intro hle
      refine ⟨by omega, ?_⟩
      rw [handle_aesDecrypt hs (by omega), hc.decrypt, aes.decrypt_encrypt]

end

/-! ### A cipher with padding -/

/-- The octets that pad a plaintext. -/
def padding (plaintext : List UInt8) : List UInt8 :=
  List.replicate (16 - plaintext.length % 16) (UInt8.ofNat (16 - plaintext.length % 16))

/-- PKCS#7 padding around blocks that are left as they are. -/
def paddedCbc : AesCbc where
  encrypt _ plaintext := plaintext ++ padding plaintext
  decrypt _ ciphertext := ciphertext.take (ciphertext.length - (ciphertext.getLast?.getD 0).toNat)
  length_encrypt _ plaintext := by
    rw [List.length_append, padding, List.length_replicate]
    omega
  decrypt_encrypt _ plaintext := by
    have hlast : (plaintext ++ padding plaintext).getLast?.getD 0 =
        UInt8.ofNat (16 - plaintext.length % 16) := by
      rw [List.getLast?_append, padding, List.getLast?_replicate, if_neg (by omega)]
      rfl
    have hn : (UInt8.ofNat (16 - plaintext.length % 16)).toNat = 16 - plaintext.length % 16 :=
      UInt8.toNat_ofNat_of_lt' (by
        have : UInt8.size = 256 := rfl
        omega)
    rw [hlast, hn, List.length_append, padding, List.length_replicate, Nat.add_sub_cancel,
      List.take_left]

/-- A library that computes it. -/
def paddedCrypto : Crypto Unit where
  keygen := ⟨true, true, true, true, true, true, some (), some []⟩
  derive _ _ := ⟨true, true, true, true, true, true, some []⟩
  encrypt plaintext key := ⟨true, true, ⟨true, paddedCbc.encrypt key plaintext⟩, ⟨true, []⟩⟩
  decrypt ciphertext key := ⟨true, true, ⟨true, paddedCbc.decrypt key ciphertext⟩, ⟨true, []⟩⟩
  rsa _ _ := ⟨true, some []⟩

theorem paddedCrypto_computes : paddedCrypto.Computes paddedCbc :=
  ⟨fun _ _ => List.append_nil _, fun _ _ => List.append_nil _⟩

/-- A derived secret. -/
def derivedKeys : Keys Unit := ⟨.live ⟨(), []⟩, some (List.replicate 32 0x2A)⟩

/-- Three octets go there and back. -/
theorem aes_round_trip_three :
    handleInternalCommand paddedCrypto derivedKeys 0 (aesMessage pgAesEncrypt [1, 2, 3]).payload =
        some (derivedKeys,
          ⟨hciBridgeOk, pgAesEncrypt, paddedCbc.encrypt (List.replicate 32 0x2A) [1, 2, 3]⟩) ∧
      ((Accepts .littleEndian 0
            (aesMessage pgAesDecrypt (paddedCbc.encrypt (List.replicate 32 0x2A) [1, 2, 3])) ∧
          handleInternalCommand paddedCrypto derivedKeys 0
              (aesMessage pgAesDecrypt
                (paddedCbc.encrypt (List.replicate 32 0x2A) [1, 2, 3])).payload =
            some (derivedKeys, ⟨hciBridgeOk, pgAesDecrypt, [1, 2, 3]⟩)) ↔
        [(1 : UInt8), 2, 3].length ≤ 4079) :=
  aes_round_trip_iff .littleEndian 0 paddedCrypto_computes rfl
    (accepts_of_fits _ _ ((aesMessage_fits_iff _ _).2 (by decide))) 0

/-- **A plaintext of 4080 octets is encrypted, and its ciphertext refused.** -/
theorem exists_refused_ciphertext :
    ∃ plaintext : List UInt8,
      Accepts .littleEndian 0 (aesMessage pgAesEncrypt plaintext) ∧
        handleInternalCommand paddedCrypto derivedKeys 0
          (aesMessage pgAesEncrypt plaintext).payload =
          some (derivedKeys,
            ⟨hciBridgeOk, pgAesEncrypt, paddedCbc.encrypt (List.replicate 32 0x2A) plaintext⟩) ∧
        ¬ Accepts .littleEndian 0
            (aesMessage pgAesDecrypt (paddedCbc.encrypt (List.replicate 32 0x2A) plaintext)) := by
  have hlen : (List.replicate 4080 (0 : UInt8)).length = 4080 := List.length_replicate
  refine ⟨List.replicate 4080 0, ?_, ?_, ?_⟩
  · exact accepts_of_fits _ _ ((aesMessage_fits_iff _ _).2 (by omega))
  · rw [handle_aesEncrypt rfl (by omega), paddedCrypto_computes.encrypt]
  · intro h
    rw [accepts_iff, aesMessage_fits_iff, paddedCbc.length_encrypt, hlen] at h
    omega

end OpenwrtFeed.HciBridge
