import OpenwrtFeed.AesRoundTrip
import OpenwrtFeed.BridgeFraming
import OpenwrtFeed.ClientPayload
import OpenwrtFeed.KeyAgreement
import OpenwrtFeed.StatusHonesty
import Mathlib.Data.Nat.Digits.Defs

/-! # The sizes of internal commands

The result of a command has its number of octets in an `int`, which goes through the 16-bit
`length` of `reportStatus`, an `int` again, the 16-bit `length` of `hci_bridge_send`, and
from there into the `int` that `send` gets and the 16-bit length on the wire (`sizes`).  A
message that `session` accepts leaves at most 4092 octets of data; with what OpenSSL makes of
them, the result still fits its buffer of 4096 octets, the largest plaintext to the octet, and
no conversion changes a number (`sizes_exact_run`).
-/
namespace OpenwrtFeed.HciBridge
variable {κ : Type}

/-! ## The arithmetic -/

/-- The numbers between the result of a command and the socket. -/
structure Sizes where
  /-- `length` of `reportStatus`. -/
  reported : UInt16
  /-- `size` of `reportStatus`. -/
  size : Int32
  /-- `length` of `hci_bridge_send`. -/
  length : UInt16
  /-- `newLength` of `hci_bridge_send`. -/
  newLength : Int32
  /-- `length + 1`, as `htons` gets it. -/
  ordered : UInt16
deriving DecidableEq

/-- A 16-bit number as an `int`. -/
def toInt (n : UInt16) : Int32 := Int32.ofInt n.toNat

/-- An `int` as a 16-bit number. -/
def toUint16 (n : Int32) : UInt16 := UInt16.ofInt n.toInt

/-- `reportStatus` and `hci_bridge_send`, for a result whose size is an `int`. -/
def sizes (result : Int32) : Sizes :=
  let reported := toUint16 result
  let size := 2 + toInt reported
  let length := toUint16 size
  { reported := reported
    size := size
    length := length
    newLength := toInt length + 2 + 1
    ordered := toUint16 (toInt length + 1) }

/-- The numbers are what they should be for a result of `n` octets. -/
structure Sizes.Exact (s : Sizes) (n : Nat) : Prop where
  reported : s.reported.toNat = n
  size : s.size.toInt = n + 2
  length : s.length.toNat = n + 2
  newLength : s.newLength.toInt = n + 5
  ordered : s.ordered.toNat = n + 3

theorem toInt_ofInt_nat {n : Nat} (h : n < 2147483648) : (Int32.ofInt n).toInt = n :=
  Int32.toInt_ofInt_of_le (by omega) (by omega)

theorem toUint16_ofInt {n : Nat} (h : n < 65536) : (toUint16 (Int32.ofInt n)).toNat = n := by
  have hlt : ((n : Int) % 65536).toNat < 65536 := by omega
  unfold toUint16
  rw [toInt_ofInt_nat (by omega)]
  show (UInt16.ofNat ((n : Int) % 65536).toNat).toNat = n
  rw [UInt16.toNat_ofNat_of_lt' hlt]
  omega

/-- **No conversion changes a number**, as long as 16 bits hold the length on the wire. -/
theorem sizes_exact {n : Nat} (h : n + 3 < 65536) : (sizes (Int32.ofInt n)).Exact n := by
  have hreported : (toUint16 (Int32.ofInt n)).toNat = n := toUint16_ofInt (by omega)
  have hsize : 2 + toInt (toUint16 (Int32.ofInt n)) = Int32.ofInt ((n + 2 : Nat) : Int) := by
    unfold toInt
    rw [hreported, Int.natCast_add, Int32.ofInt_add, Int32.add_comm]
    rfl
  have hlength : (toUint16 (2 + toInt (toUint16 (Int32.ofInt n)))).toNat = n + 2 := by
    rw [hsize]
    exact toUint16_ofInt (by omega)
  have hnext : ∀ k : Nat, toInt (toUint16 (2 + toInt (toUint16 (Int32.ofInt n)))) + Int32.ofInt k =
      Int32.ofInt ((n + 2 + k : Nat) : Int) := by
    intro k
    rw [toInt, hlength, Int.natCast_add (n + 2) k, Int32.ofInt_add]
  refine ⟨hreported, ?_, hlength, ?_, ?_⟩
  · show (2 + toInt (toUint16 (Int32.ofInt n))).toInt = _
    rw [hsize, toInt_ofInt_nat (by omega)]
    omega
  · show (toInt (toUint16 (2 + toInt (toUint16 (Int32.ofInt n)))) + 2 + 1).toInt = _
    have hthree : (2 : Int32) + 1 = Int32.ofInt (3 : Nat) := by decide
    rw [Int32.add_assoc, hthree, hnext, toInt_ofInt_nat (by omega)]
    omega
  · show (toUint16 (toInt (toUint16 (2 + toInt (toUint16 (Int32.ofInt n)))) + 1)).toNat = _
    have hone : (1 : Int32) = Int32.ofInt (1 : Nat) := by decide
    rw [hone, hnext]
    exact toUint16_ofInt (by omega)

/-- The frame of a reply is counted by these numbers. -/
theorem reportStatus_sizes {reply : Reply}
    (h : (sizes (Int32.ofInt reply.data.length)).Exact reply.data.length) :
    (reportStatus reply).length = (sizes (Int32.ofInt reply.data.length)).length ∧
      (reportStatus reply).length + 1 = (sizes (Int32.ofInt reply.data.length)).ordered := by
  have hlength := h.length
  have hordered := h.ordered
  have hlt := (sizes (Int32.ofInt reply.data.length)).ordered.toNat_lt
  have heq : (reportStatus reply).length = (sizes (Int32.ofInt reply.data.length)).length := by
    apply UInt16.toNat_inj.1
    rw [hlength]
    exact UInt16.toNat_ofNat_of_lt' (by show _ < 65536; omega)
  refine ⟨heq, ?_⟩
  apply UInt16.toNat_inj.1
  rw [heq, UInt16.toNat_add, hlength, hordered]
  show (reply.data.length + 2 + 1) % 65536 = _
  omega

/-! ## What OpenSSL makes of the data -/

/-- What is assumed of the library: encryption pads to the next whole block, decryption does
not add octets, an RSA key has at most 2048 octets, and a public key at most 4096 in PEM. -/
structure Crypto.Sized (c : Crypto κ) : Prop where
  encrypt : ∀ data key, (encryptionEncrypt (c.encrypt data key)).length =
    (data.length / 16 + 1) * 16
  decrypt : ∀ data key, (encryptionDecrypt (c.decrypt data key)).length ≤ data.length
  rsa : ∀ data pubKey out, (c.rsa data pubKey).publicDecrypt = some out → out.length ≤ 2048
  publicKey : ∀ key, c.keygen.writePubkey = some key → key.length ≤ 4096

/-- What a request writes into its buffer of 4096 octets on the stack. -/
def Request.output (c : Crypto κ) (keys : Keys κ) : Request → Option (List UInt8)
  | .aesDecrypt data => keys.secret.map fun secret => encryptionDecrypt (c.decrypt data secret)
  | .aesEncrypt data => keys.secret.map fun secret => encryptionEncrypt (c.encrypt data secret)
  | .publicDecrypt pubKey data => encryptionDecryptWithPublicKey (c.rsa data pubKey)
  | _ => none

/-- The public key at hand is of a size that OpenSSL writes. -/
def Keys.Sized (keys : Keys κ) : Prop := ∀ k, keys.kp = .live k → k.publicKey.length ≤ 4096

/-- **The sizes of a command are exact**: what it writes fits the buffer, and the size of its
reply goes unchanged through every type on the way to the socket.  A command that reads a key pair
that is not there has no reply, and writes nothing (`output_served`). -/
structure Command.SizesExact (cmd : Command κ) (keys : Keys κ) : Prop where
  fits : ∀ r, request cmd.buffer = some r → ∀ out ∈ r.output cmd.crypto keys, out.length ≤ 4096
  exact : ∀ keys' reply, cmd.serve keys = some (keys', reply) →
    (sizes (Int32.ofInt reply.data.length)).Exact reply.data.length ∧
      (reportStatus reply).length = (sizes (Int32.ofInt reply.data.length)).length ∧
      (reportStatus reply).length + 1 = (sizes (Int32.ofInt reply.data.length)).ordered

/-- The data of a reply are bounded, and the public key stays so. -/
def Bounded (result : Option (Keys κ × Reply)) : Prop :=
  ∀ x ∈ result, x.2.data.length ≤ 4096 ∧ x.1.Sized

section
variable {c : Crypto κ} {keys : Keys κ}

theorem bounded_some {keys : Keys κ} (hkeys : keys.Sized) (status subcommand : UInt8)
    {data : List UInt8} (h : data.length ≤ 4096) :
    Bounded (some (keys, ⟨status, subcommand, data⟩)) := by
  intro x hx
  obtain rfl := Option.some.inj hx
  exact ⟨h, hkeys⟩

theorem bounded_none : Bounded (none : Option (Keys κ × Reply)) := fun _ h => (by cases h)

theorem generateKeyPair_sized (hc : c.Sized) {k : KeyPair κ}
    (h : generateKeyPair c.keygen = some k) :
    k.publicKey.length ≤ 4096 := by
  simp only [generateKeyPair, Option.bind_eq_bind, Option.bind_eq_some_iff, Option.pure_def,
    Option.some.injEq] at h
  obtain ⟨-, -, -, -, -, -, -, -, -, -, -, -, privateKey, -, publicKey, hwrite, rfl⟩ := h
  exact hc.publicKey _ hwrite

theorem createKeyPair_bounded (hc : c.Sized) (hkeys : keys.Sized) :
    Bounded (createKeyPair c keys) := by
  unfold createKeyPair
  split
  · split
    · exact bounded_some (fun _ h => by cases h) _ _ (Nat.zero_le _)
    · rename_i k hgen
      have hlen := generateKeyPair_sized hc hgen
      refine bounded_some (fun k' hk => ?_) _ _ hlen
      obtain rfl := KeyPointer.live.inj hk
      exact hlen
  · rename_i k hk
    exact bounded_some hkeys _ _ (hkeys k hk)
  · exact bounded_none

theorem getPubKey_bounded (hkeys : keys.Sized) : Bounded (getPubKey keys) := by
  unfold getPubKey
  split
  · exact bounded_some hkeys _ _ (Nat.zero_le _)
  · rename_i k hk
    exact bounded_some hkeys _ _ (hkeys k hk)
  · exact bounded_none

theorem deriveSecretCommand_bounded (hkeys : keys.Sized) (buffer : List UInt8) :
    Bounded (deriveSecretCommand c keys buffer) := by
  unfold deriveSecretCommand
  split
  · exact bounded_some hkeys _ _ (Nat.zero_le _)
  · split
    · exact bounded_some hkeys _ _ (Nat.zero_le _)
    · split
      · rename_i peer _ _ _ k hk
        have hkeys' : Keys.Sized ⟨keys.kp, deriveSecret (c.derive k.privateKey peer)⟩ := hkeys
        exact bounded_some hkeys' _ _ (Nat.zero_le _)
      · exact bounded_none

theorem readNumber_length {buffer rest : List UInt8} {n : UInt16}
    (h : readNumber buffer = some (n, rest)) :
    buffer.length = rest.length + 2 := by
  match buffer, h with
  | a :: b :: tail, h =>
    obtain ⟨-, rfl⟩ := Prod.mk.inj (Option.some.inj h)
    rfl

/-- An AES command of at most 4094 octets has at most 4092 octets of data. -/
theorem aesCommand_bounded (hkeys : keys.Sized) (command short : UInt8)
    {cipher : (data secret : List UInt8) → List UInt8}
    (hcipher : ∀ data secret, data.length ≤ 4092 → (cipher data secret).length ≤ 4096)
    {buffer : List UInt8} (hbuffer : buffer.length ≤ 4094) :
    Bounded (aesCommand keys command short cipher buffer) := by
  unfold aesCommand
  split
  · exact bounded_some hkeys _ _ (Nat.zero_le _)
  · split
    · exact bounded_some hkeys _ _ (Nat.zero_le _)
    · rename_i hn
      have hlen := readNumber_length hn
      split
      · exact bounded_some hkeys _ _ (Nat.zero_le _)
      · exact bounded_some hkeys _ _ (hcipher _ _ (by omega))

theorem rsa_output (hc : c.Sized) {data pubKey out : List UInt8}
    (h : encryptionDecryptWithPublicKey (c.rsa data pubKey) = some out) : out.length ≤ 4096 := by
  unfold encryptionDecryptWithPublicKey at h
  split at h
  · exact Nat.le_trans (hc.rsa _ _ _ h) (by decide)
  · cases h

theorem publicDecrypt_bounded (hc : c.Sized) (hkeys : keys.Sized) (buffer : List UInt8) :
    Bounded (publicDecrypt c keys buffer) := by
  have hfail : Bounded (fail keys pgPublicDecrypt) := bounded_some hkeys _ _ (Nat.zero_le _)
  unfold publicDecrypt
  split
  · exact hfail
  · split
    · exact hfail
    · split
      · exact hfail
      · split
        · exact hfail
        · split
          · exact hfail
          · split
            · exact hfail
            · rename_i hout
              exact bounded_some hkeys _ _ (rsa_output hc hout)

/-- The text of `PG_INTERNAL_STATUS` fits the 1024 octets it is printed into. -/
theorem statusText_length (queueSize : UInt16) : (statusText queueSize).length ≤ 1024 := by
  have hlt := queueSize.toNat_lt
  have hdigits : (Nat.repr queueSize.toNat).length ≤ 5 := Nat.repr_length _ _ (by decide) (by omega)
  have hlen : (statusText queueSize).length =
      ("\x7b\"queueSize\":" ++ toString queueSize.toNat ++ "\x7d").length := by
    rw [statusText, List.length_map, String.length_toList]
  have hrepr : (toString queueSize.toNat).length ≤ 5 := hdigits
  have hhead : "\x7b\"queueSize\":".length = 13 := by decide
  have htail : "\x7d".length = 1 := by decide
  rw [hlen, String.length_append, String.length_append, hhead, htail]
  omega

/-- **The data of every reply are bounded**, for a message of at most 4095 octets. -/
theorem handleInternalCommand_bounded (hc : c.Sized) (hkeys : keys.Sized) (queueSize : UInt16)
    {body : List UInt8} (hbody : body.length ≤ 4095) :
    Bounded (handleInternalCommand c keys queueSize body) := by
  have hfail : ∀ subcommand, Bounded (fail keys subcommand) :=
    fun _ => bounded_some hkeys _ _ (Nat.zero_le _)
  cases body with
  | nil => exact hfail _
  | cons command buffer =>
    have hbuffer : buffer.length ≤ 4094 := Nat.le_of_succ_le_succ hbody
    simp only [handleInternalCommand]
    split
    · exact createKeyPair_bounded hc hkeys
    · split
      · exact getPubKey_bounded hkeys
      · split
        · exact deriveSecretCommand_bounded hkeys buffer
        · split
          · refine aesCommand_bounded hkeys _ _ (fun data secret hdata => ?_) hbuffer
            exact Nat.le_trans (hc.decrypt data secret) (by omega)
          · split
            · refine aesCommand_bounded hkeys _ _ (fun data secret hdata => ?_) hbuffer
              rw [hc.encrypt]
              omega
            · split
              · exact publicDecrypt_bounded hc hkeys buffer
              · split
                · exact bounded_some hkeys _ _ (Nat.le_trans (statusText_length _) (by decide))
                · exact hfail _

/-- **What a request writes into its buffer is what `handleInternalCommand` replies with.**  So a
command without a result, which has read a key pair that is not there, has written nothing. -/
theorem output_served {r : Request} {body out : List UInt8} (hr : request body = some r)
    (hout : r.output c keys = some out) (queueSize : UInt16) :
    ∃ reply, handleInternalCommand c keys queueSize body = some (keys, reply) ∧
      reply.data = out := by
  have hanswer := handleInternalCommand_answerTo c keys queueSize body
  rw [hr] at hanswer
  cases r with
  | aesDecrypt data =>
    obtain ⟨secret, hsecret, rfl⟩ := Option.map_eq_some_iff.1 hout
    refine ⟨⟨hciBridgeOk, pgAesDecrypt, _⟩, hanswer.trans ?_, rfl⟩
    rw [Request.answer, withSecret, hsecret]
    rfl
  | aesEncrypt data =>
    obtain ⟨secret, hsecret, rfl⟩ := Option.map_eq_some_iff.1 hout
    refine ⟨⟨hciBridgeOk, pgAesEncrypt, _⟩, hanswer.trans ?_, rfl⟩
    rw [Request.answer, withSecret, hsecret]
    rfl
  | publicDecrypt pubKey data =>
    have hdecrypted : encryptionDecryptWithPublicKey (c.rsa data pubKey) = some out := hout
    refine ⟨⟨hciBridgeOk, pgPublicDecrypt, out⟩, hanswer.trans ?_, rfl⟩
    rw [Request.answer, hdecrypted]
  | createKeyPair => cases hout
  | getPubKey => cases hout
  | deriveSecret peer => cases hout
  | internalStatus => cases hout

end

/-! ## Sessions -/

/-- `session` gives the message to `handleInternalCommand`, in some sequence of calls of
`recv`. -/
def SessionHands (body : List UInt8) : Prop :=
  ∃ order unset rs, .internal body ∈ (Session.start.run order unset rs).dispatched

theorem SessionHands.bound {body : List UInt8} (h : SessionHands body) : body.length ≤ 4095 := by
  obtain ⟨order, unset, rs, hmem⟩ := h
  obtain ⟨commandType, buf, heq, -, hbound⟩ :=
    (Session.Bounded.start.run order unset rs).dispatched _ hmem
  unfold dispatch at heq
  split at heq
  · cases heq
  · split at heq
    · cases heq
    · split at heq
      · cases heq
      · split at heq
        · obtain rfl := Dispatch.internal.inj heq
          exact hbound
        · cases heq

/-- One command. -/
theorem Command.sizesExact {cmd : Command κ} {keys : Keys κ} (hc : cmd.crypto.Sized)
    (hkeys : keys.Sized) (hbody : cmd.buffer.length ≤ 4095) :
    cmd.SizesExact keys ∧ ∀ keys' reply, cmd.serve keys = some (keys', reply) → keys'.Sized := by
  have hbounded := handleInternalCommand_bounded hc hkeys cmd.queueSize hbody
  refine ⟨⟨fun r hr out hout => ?_, fun keys' reply hserve => ?_⟩,
    fun keys' reply hserve => (hbounded _ hserve).2⟩
  · obtain ⟨reply, hserve, rfl⟩ := output_served hr hout cmd.queueSize
    exact (hbounded _ hserve).1
  · have hdata : reply.data.length ≤ 4096 := (hbounded _ hserve).1
    have hexact := @sizes_exact reply.data.length (by omega)
    exact ⟨hexact, reportStatus_sizes hexact⟩

theorem Command.throughout_sizesExact {cmds : List (Command κ)}
    (hc : ∀ cmd ∈ cmds, cmd.crypto.Sized) (hbody : ∀ cmd ∈ cmds, cmd.buffer.length ≤ 4095)
    {keys : Keys κ} (hkeys : keys.Sized) :
    Command.Throughout Command.SizesExact cmds keys := by
  induction cmds generalizing keys with
  | nil => trivial
  | cons cmd cmds ih =>
    obtain ⟨hc₀, hc⟩ := List.forall_mem_cons.1 hc
    obtain ⟨hbody₀, hbody⟩ := List.forall_mem_cons.1 hbody
    obtain ⟨hexact, hnext⟩ := Command.sizesExact hc₀ hkeys hbody₀
    refine ⟨hexact, ?_⟩
    cases hserve : cmd.serve keys with
    | none => trivial
    | some x => exact ih hc hbody (hnext x.1 x.2 hserve)

/-- **The sizes of internal commands are exact**, in every run of commands whose messages
`session` accepts, with a library that keeps to its sizes. -/
theorem sizes_exact_run (cmds : List (Command κ)) (hc : ∀ cmd ∈ cmds, cmd.crypto.Sized)
    (hsession : ∀ cmd ∈ cmds, SessionHands cmd.buffer) :
    Command.Throughout Command.SizesExact cmds .initial :=
  Command.throughout_sizesExact hc (fun cmd hcmd => (hsession cmd hcmd).bound) fun _ h => by cases h

/-! ### A run -/

theorem paddedCrypto_sized : paddedCrypto.Sized where
  encrypt data key := by
    rw [paddedCrypto_computes.encrypt]
    exact paddedCbc.length_encrypt key data
  decrypt data key := by
    show (paddedCbc.decrypt key data ++ []).length ≤ data.length
    rw [List.append_nil]
    exact List.length_take_le' _ _
  rsa data pubKey out h := by
    obtain rfl := Option.some.inj h
    exact Nat.zero_le _
  publicKey key h := by
    obtain rfl := Option.some.inj h
    exact Nat.zero_le _

/-- A key pair, a secret, and an encryption with it. -/
def encryptOnce : List (Command Unit) :=
  [⟨paddedCrypto, 0, [pgCreateKeyPair]⟩, ⟨paddedCrypto, 0, [pgDeriveSecret, 0, 0]⟩,
    ⟨paddedCrypto, 0, [pgAesEncrypt, 0, 3, 1, 2, 3]⟩]

theorem sizes_exact_encryptOnce : Command.Throughout Command.SizesExact encryptOnce .initial := by
  refine sizes_exact_run encryptOnce ?_ ?_
  · simp [encryptOnce, paddedCrypto_sized]
  · have hands : ∀ body ∈ encryptOnce.map Command.buffer, .internal body ∈
        (Session.start.run .littleEndian 0 [.octets [UInt8.ofNat (body.length + 1), 0],
          .octets [playgroundInternalCommand], .octets body]).dispatched := by decide
    exact fun cmd hcmd => ⟨_, _, _, hands _ (List.mem_map_of_mem hcmd)⟩

end OpenwrtFeed.HciBridge
