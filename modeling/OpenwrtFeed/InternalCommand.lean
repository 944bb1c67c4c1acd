import OpenwrtFeed.BridgeSession
import Mathlib.Data.List.Basic

/-! # Internal commands

`handleInternalCommand` of `hci_bridge.c` serves seven commands with two variables that
outlive a command: the key pair `kp` and the derived `secret`.  The library calls behind
a command are parameters (`Crypto`), each of which may succeed or fail; the functions of
`ecdh.c` and `encryption.c` are built on them.

`none` is the result of a command that reads through a null pointer or through one that
has been freed.  What the bridge prints is left out, and with it the loop that prints the
peer's key before its length has been checked.  The key of a `PG_PUBLIC_DECRYPT` is handed on
without its length and without a terminator; here the library is given its octets.
-/
namespace OpenwrtFeed.HciBridge

/-! ## Constants of `hci_bridge.h` -/

def hciBridgeOk : UInt8 := 0
def hciBridgeError : UInt8 := 1

def pgCreateKeyPair : UInt8 := 0x01
def pgGetPubKey : UInt8 := 0x02
def pgDeriveSecret : UInt8 := 0x03
def pgAesEncrypt : UInt8 := 0x04
def pgAesDecrypt : UInt8 := 0x05
def pgPublicDecrypt : UInt8 := 0x06
def pgInternalStatus : UInt8 := 0x07

/-! ## `ecdh.c` and `encryption.c` -/

/-- `KeyPair`; a private key is whatever the library makes of it. -/
structure KeyPair (κ : Type) where
  privateKey : κ
  publicKey : List UInt8
deriving DecidableEq

/-- How the library calls of `generateKeyPair` come out, in their order. -/
structure KeygenCalls (κ : Type) where
  ctxNewId : Bool
  paramgenInit : Bool
  setCurve : Bool
  paramgen : Bool
  ctxNew : Bool
  keygenInit : Bool
  keygen : Option κ
  writePubkey : Option (List UInt8)

/-- `generateKeyPair`; `none` is the return value 1. -/
def generateKeyPair {κ : Type} (c : KeygenCalls κ) : Option (KeyPair κ) := do
  guard c.ctxNewId
  guard c.paramgenInit
  guard c.setCurve
  guard c.paramgen
  guard c.ctxNew
  guard c.keygenInit
  let privateKey ← c.keygen
  let publicKey ← c.writePubkey
  return ⟨privateKey, publicKey⟩

/-- How the library calls of `deriveSecret` come out, in their order; the last one is
`simpleSHA256`. -/
structure DeriveCalls where
  ctxNew : Bool
  deriveInit : Bool
  setPeer : Bool
  deriveLength : Bool
  malloc : Bool
  derive : Bool
  sha256 : Option (List UInt8)

/-- `deriveSecret`; `none` is the null pointer. -/
def deriveSecret (c : DeriveCalls) : Option (List UInt8) := do
  guard c.ctxNew
  guard c.deriveInit
  guard c.setPeer
  guard c.deriveLength
  guard c.malloc
  guard c.derive
  c.sha256

/-- A library call that writes octets: whether it succeeds, and the octets that its output
length then covers, also when it has failed. -/
structure EvpCall where
  ok : Bool
  written : List UInt8

/-- How the library calls of `encryption_encrypt` or `encryption_decrypt` come out. -/
structure EvpCalls where
  ctxNew : Bool
  init : Bool
  update : EvpCall
  final : EvpCall

/-- Every call has succeeded. -/
def EvpCalls.ok (c : EvpCalls) : Bool := c.ctxNew && c.init && c.update.ok && c.final.ok

/-- `encryption_encrypt`: a call that fails is reported by `handleErrors`, which prints,
and the function goes on. -/
def encryptionEncrypt (c : EvpCalls) : List UInt8 := c.update.written ++ c.final.written

/-- `encryption_decrypt`, likewise. -/
def encryptionDecrypt (c : EvpCalls) : List UInt8 := c.update.written ++ c.final.written

/-- How `createRSA` and `RSA_public_decrypt` come out; `none` is the return value -1. -/
structure RsaCalls where
  createRSA : Bool
  publicDecrypt : Option (List UInt8)

/-- `encryption_decryptWithPublicKey`; `none` is the return value -1.  It gets the key without a
length, and `createRSA` reads it up to a zero octet, which nothing has put behind it; the outcome
of that is left to the library. -/
def encryptionDecryptWithPublicKey (c : RsaCalls) : Option (List UInt8) :=
  if c.createRSA then c.publicDecrypt else none

/-- The library during one command.  The initialization vector is null in both
directions. -/
structure Crypto (κ : Type) where
  keygen : KeygenCalls κ
  derive : (privateKey : κ) → (peer : List UInt8) → DeriveCalls
  encrypt : (plaintext key : List UInt8) → EvpCalls
  decrypt : (ciphertext key : List UInt8) → EvpCalls
  rsa : (ciphertext pubKey : List UInt8) → RsaCalls

/-! ## `handleInternalCommand` -/

/-- The pointer `kp`. -/
inductive KeyPointer (κ : Type)
  | null
  | live (k : KeyPair κ)
  | freed
deriving DecidableEq

/-- The key material; a null `secret` is `none`. -/
structure Keys (κ : Type) where
  kp : KeyPointer κ
  secret : Option (List UInt8)
deriving DecidableEq

/-- The key material before the first command. -/
def Keys.initial {κ : Type} : Keys κ := ⟨.null, none⟩

/-- What is given to `reportStatus`. -/
structure Reply where
  status : UInt8
  subcommand : UInt8
  data : List UInt8
deriving DecidableEq

/-- `reportStatus`. -/
def reportStatus (r : Reply) : BridgeSend :=
  ⟨playgroundInternalCommand, r.status :: r.subcommand :: r.data, UInt16.ofNat (r.data.length + 2)⟩

/-- A number of two octets at the head of a buffer, and the rest of it. -/
def readNumber : List UInt8 → Option (UInt16 × List UInt8)
  | a :: b :: rest => some (HostOrder.bigEndian.number a b, rest)
  | _ => none

theorem readNumber_octets (n : UInt16) (data : List UInt8) :
    readNumber (HostOrder.bigEndian.octets n ++ data) = some (n, data) := by
  have h := HostOrder.number_octets .bigEndian n
  simp only [HostOrder.octets, List.getD_cons_zero, List.getD_cons_succ] at h
  simp [HostOrder.octets, readNumber, h]

section
variable {κ : Type} (c : Crypto κ) (keys : Keys κ)

/-- An error that leaves the key material as it is. -/
def fail (subcommand : UInt8) : Option (Keys κ × Reply) :=
  some (keys, ⟨hciBridgeError, subcommand, []⟩)

/-- The command `PG_CREATE_KEY_PAIR`. -/
def createKeyPair : Option (Keys κ × Reply) :=
  match keys.kp with
  | .null =>
    match generateKeyPair c.keygen with
    -- the key pair is freed, and `kp` still points to it
    | none => fail { keys with kp := .freed } pgCreateKeyPair
    | some k => some ({ keys with kp := .live k }, ⟨hciBridgeOk, pgCreateKeyPair, k.publicKey⟩)
  | .live k => some (keys, ⟨hciBridgeOk, pgCreateKeyPair, k.publicKey⟩)
  | .freed => none

/-- The command `PG_GET_PUB_KEY`. -/
def getPubKey : Option (Keys κ × Reply) :=
  match keys.kp with
  | .null => fail keys pgGetPubKey
  | .live k => some (keys, ⟨hciBridgeOk, pgGetPubKey, k.publicKey⟩)
  | .freed => none

/-- The command `PG_DERIVE_SECRET`. -/
def deriveSecretCommand (buffer : List UInt8) : Option (Keys κ × Reply) :=
  match readNumber buffer with
  | none => fail keys pgDeriveSecret
  | some (peerPubKeyLength, peer) =>
    if peer.length ≠ peerPubKeyLength.toNat then fail keys pgDeriveSecret
    else match keys.kp with
    | .live k =>
      some ({ keys with secret := deriveSecret (c.derive k.privateKey peer) },
        ⟨hciBridgeOk, pgDeriveSecret, []⟩)
    | _ => none

/-- The two AES commands: `command` is the one of the request, and `short` the one that the
reply to a request without a length names. -/
def aesCommand (command short : UInt8) (cipher : (data secret : List UInt8) → List UInt8)
    (buffer : List UInt8) : Option (Keys κ × Reply) :=
  match keys.secret with
  | none => fail keys command
  | some secret =>
    match readNumber buffer with
    | none => fail keys short
    | some (dataLength, data) =>
      if data.length ≠ dataLength.toNat then fail keys command
      else some (keys, ⟨hciBridgeOk, command, cipher data secret⟩)

/-- The command `PG_AES_DECRYPT`. -/
def aesDecrypt (buffer : List UInt8) : Option (Keys κ × Reply) :=
  aesCommand keys pgAesDecrypt pgAesDecrypt (fun data key => encryptionDecrypt (c.decrypt data key))
    buffer

/-- The command `PG_AES_ENCRYPT`, which answers a request without a length in the name of
the other one. -/
def aesEncrypt (buffer : List UInt8) : Option (Keys κ × Reply) :=
  aesCommand keys pgAesEncrypt pgAesDecrypt (fun data key => encryptionEncrypt (c.encrypt data key))
    buffer

/-- The command `PG_PUBLIC_DECRYPT`. -/
def publicDecrypt (buffer : List UInt8) : Option (Keys κ × Reply) :=
  match readNumber buffer with
  | none => fail keys pgPublicDecrypt
  | some (_, buffer) =>
    match readNumber buffer with
    | none => fail keys pgPublicDecrypt
    | some (pubKeyLength, buffer) =>
      if buffer.length ≤ pubKeyLength.toNat then fail keys pgPublicDecrypt
      else match readNumber (buffer.drop pubKeyLength.toNat) with
      | none => fail keys pgPublicDecrypt
      | some (dataLength, data) =>
        if data.length ≠ dataLength.toNat then fail keys pgPublicDecrypt
        else match encryptionDecryptWithPublicKey (c.rsa data (buffer.take pubKeyLength.toNat)) with
        | none => fail keys pgPublicDecrypt
        | some decrypted => some (keys, ⟨hciBridgeOk, pgPublicDecrypt, decrypted⟩)

/-- The text that `PG_INTERNAL_STATUS` replies with. -/
def statusText (queueSize : UInt16) : List UInt8 :=
  ("\x7b\"queueSize\":" ++ toString queueSize.toNat ++ "\x7d").toList.map fun ch =>
    UInt8.ofNat ch.toNat

/-- The command `PG_INTERNAL_STATUS`. -/
def internalStatus (queueSize : UInt16) : Option (Keys κ × Reply) :=
  some (keys, ⟨hciBridgeOk, pgInternalStatus, statusText queueSize⟩)

/-- `handleInternalCommand`, with the number of ops that `queueSize` returns. -/
def handleInternalCommand (queueSize : UInt16) : List UInt8 → Option (Keys κ × Reply)
  | [] => fail keys hciBridgeError
  | command :: buffer =>
    if command = pgCreateKeyPair then createKeyPair c keys
    else if command = pgGetPubKey then getPubKey keys
    else if command = pgDeriveSecret then deriveSecretCommand c keys buffer
    else if command = pgAesDecrypt then aesDecrypt c keys buffer
    else if command = pgAesEncrypt then aesEncrypt c keys buffer
    else if command = pgPublicDecrypt then publicDecrypt c keys buffer
    else if command = pgInternalStatus then internalStatus keys queueSize
    else fail keys hciBridgeError

end

end OpenwrtFeed.HciBridge
