import OpenwrtFeed.AesRoundTrip
import OpenwrtFeed.KeyLifetime

/-! # Two bridges agree on a key

`PG_CREATE_KEY_PAIR` and `PG_GET_PUB_KEY` give a client the public key of the bridge, and
`PG_DERIVE_SECRET` takes the one of another bridge.  A key pair that has been generated is
kept for good, and the secret is always the one of the last derivation, so that the replies
of two bridges tell whether they have the same secret: each has been given the key that the
other one has published, and has been given no other since.  Then what the one encrypts the
other one decrypts, whatever else their clients have asked for (`ciphertext_opens`).
-/
namespace OpenwrtFeed.HciBridge
variable {κ : Type}

/-! ## Requests, once they are read -/

section
variable (c : Crypto κ) (keys : Keys κ)

/-- What an AES command does with the secret. -/
def withSecret (command : UInt8) (cipher : (secret : List UInt8) → List UInt8) :
    Option (Keys κ × Reply) :=
  match keys.secret with
  | none => fail keys command
  | some secret => some (keys, ⟨hciBridgeOk, command, cipher secret⟩)

theorem withSecret_keys {keys keys' : Keys κ} {reply : Reply} {command : UInt8}
    {cipher : (secret : List UInt8) → List UInt8}
    (h : withSecret keys command cipher = some (keys', reply)) : keys' = keys := by
  unfold withSecret at h
  split at h
  · cases h
    rfl
  · cases h
    rfl

/-- What a well-formed request is answered with. -/
def Request.answer (queueSize : UInt16) : Request → Option (Keys κ × Reply)
  | .createKeyPair => HciBridge.createKeyPair c keys
  | .getPubKey => HciBridge.getPubKey keys
  | .deriveSecret peer =>
    match keys.kp with
    | .live k =>
      some ({ keys with secret := HciBridge.deriveSecret (c.derive k.privateKey peer) },
        ⟨hciBridgeOk, pgDeriveSecret, []⟩)
    | _ => none
  | .aesDecrypt data => withSecret keys pgAesDecrypt fun secret =>
      encryptionDecrypt (c.decrypt data secret)
  | .aesEncrypt data => withSecret keys pgAesEncrypt fun secret =>
      encryptionEncrypt (c.encrypt data secret)
  | .publicDecrypt pubKey data =>
    match encryptionDecryptWithPublicKey (c.rsa data pubKey) with
    | none => fail keys pgPublicDecrypt
    | some decrypted => some (keys, ⟨hciBridgeOk, pgPublicDecrypt, decrypted⟩)
  | .internalStatus => HciBridge.internalStatus keys queueSize

/-- The result is the answer to the request, or an error when there is none. -/
def AnswerTo (queueSize : UInt16) (result : Option (Keys κ × Reply)) : Option Request → Prop
  | some r => result = r.answer c keys queueSize
  | none => ∃ subcommand, result = fail keys subcommand

theorem deriveSecretCommand_answerTo (queueSize : UInt16) (buffer : List UInt8) :
    AnswerTo c keys queueSize (deriveSecretCommand c keys buffer)
    ((counted buffer).map .deriveSecret) := by
  unfold deriveSecretCommand
  cases hn : readNumber buffer with
  | none =>
    rw [counted_of_short hn]
    exact ⟨_, rfl⟩
  | some x =>
    obtain ⟨n, peer⟩ := x
    rw [counted_of_number hn]
    dsimp only
    by_cases hl : peer.length = n.toNat
    · rw [if_neg (not_not.2 hl), if_pos hl]
      exact rfl
    · rw [if_pos hl, if_neg hl]
      exact ⟨_, rfl⟩

/-- Both AES commands, `parse` being the request they are. -/
theorem aesCommand_answerTo (queueSize : UInt16) (command short : UInt8)
    (cipher : (data secret : List UInt8) → List UInt8) (parse : List UInt8 → Request)
    (hparse : ∀ data, (parse data).answer c keys queueSize = withSecret keys command (cipher data))
    (buffer : List UInt8) :
    AnswerTo c keys queueSize (aesCommand keys command short cipher buffer)
    ((counted buffer).map parse) := by
  cases hs : keys.secret with
  | none =>
    have hfail : aesCommand keys command short cipher buffer = fail keys command := by
      simp only [aesCommand, hs]
    cases hc : counted buffer with
    | none => exact ⟨_, hfail⟩
    | some data =>
      have hsecret : withSecret keys command (cipher data) = fail keys command := by
        simp only [withSecret, hs]
      exact hfail.trans (hsecret.symm.trans (hparse data).symm)
  | some secret =>
    unfold aesCommand
    simp only [hs]
    cases hn : readNumber buffer with
    | none =>
      rw [counted_of_short hn]
      exact ⟨_, rfl⟩
    | some x =>
      obtain ⟨n, data⟩ := x
      rw [counted_of_number hn]
      dsimp only
      by_cases hl : data.length = n.toNat
      · rw [if_neg (not_not.2 hl), if_pos hl]
        refine Eq.trans ?_ (hparse data).symm
        simp only [withSecret, hs]
      · rw [if_pos hl, if_neg hl]
        exact ⟨_, rfl⟩

theorem publicDecrypt_answerTo (queueSize : UInt16) (buffer : List UInt8) :
    AnswerTo c keys queueSize (publicDecrypt c keys buffer)
      ((keyAndData buffer).map fun x => .publicDecrypt x.1 x.2) := by
  unfold publicDecrypt keyAndData
  cases hn : readNumber buffer with
  | none => exact ⟨_, rfl⟩
  | some x =>
    simp only [Option.bind_some]
    cases hk : readNumber x.2 with
    | none => exact ⟨_, rfl⟩
    | some y =>
      obtain ⟨n, rest⟩ := y
      simp only [Option.bind_some]
      by_cases hl : rest.length ≤ n.toNat
      · simp only [hl, if_true]
        exact ⟨_, rfl⟩
      · simp only [hl, if_false]
        cases hd : readNumber (rest.drop n.toNat) with
        | none =>
          rw [counted_of_short hd]
          exact ⟨_, rfl⟩
        | some z =>
          obtain ⟨m, data⟩ := z
          rw [counted_of_number hd]
          dsimp only
          by_cases hm : data.length = m.toNat
          · rw [if_neg (not_not.2 hm), if_pos hm]
            exact rfl
          · rw [if_pos hm, if_neg hm]
            exact ⟨_, rfl⟩

/-- **`handleInternalCommand` reads a request, and answers it.** -/
theorem handleInternalCommand_answerTo (queueSize : UInt16) (buffer : List UInt8) :
    AnswerTo c keys queueSize (handleInternalCommand c keys queueSize buffer) (request buffer) := by
  cases buffer with
  | nil => exact ⟨_, rfl⟩
  | cons command buffer =>
    simp only [handleInternalCommand, request]
    by_cases h1 : command = pgCreateKeyPair
    · simp only [h1, if_true]
      exact rfl
    · simp only [h1, if_false]
      by_cases h2 : command = pgGetPubKey
      · simp only [h2, if_true]
        exact rfl
      · simp only [h2, if_false]
        by_cases h3 : command = pgDeriveSecret
        · simp only [h3, if_true]
          exact deriveSecretCommand_answerTo c keys queueSize buffer
        · simp only [h3, if_false]
          by_cases h4 : command = pgAesDecrypt
          · simp only [h4, if_true]
            exact aesCommand_answerTo c keys queueSize _ _ _ _ (fun _ => rfl) buffer
          · simp only [h4, if_false]
            by_cases h5 : command = pgAesEncrypt
            · simp only [h5, if_true]
              exact aesCommand_answerTo c keys queueSize _ _ _ _ (fun _ => rfl) buffer
            · simp only [h5, if_false]
              by_cases h6 : command = pgPublicDecrypt
              · simp only [h6, if_true]
                exact publicDecrypt_answerTo c keys queueSize buffer
              · simp only [h6, if_false]
                by_cases h7 : command = pgInternalStatus
                · simp only [h7, if_true]
                  exact rfl
                · simp only [h7, if_false]
                  exact ⟨_, rfl⟩

end

/-! ## What a bridge has published, and whose key it was given -/

namespace Command

/-- The key that a command gives the bridge to derive a secret with. -/
def peer (cmd : Command κ) : Option (List UInt8) :=
  match request cmd.buffer with
  | some (.deriveSecret peer) => some peer
  | _ => none

/-- The key that the reply to a command publishes. -/
def publishes (cmd : Command κ) (reply : Reply) : Option (List UInt8) :=
  if saysOk reply ∧ (request cmd.buffer = some .createKeyPair ∨
    request cmd.buffer = some .getPubKey) then
    some reply.data
  else none

/-- The key of the last derivation. -/
def lastPeer (cmds : List (Command κ)) : Option (List UInt8) := (cmds.filterMap peer).getLast?

/-- The key has been published in one of the replies. -/
def Published (cmds : List (Command κ)) (replies : List Reply) (key : List UInt8) : Prop :=
  ∃ x ∈ cmds.zip replies, publishes x.1 x.2 = some key

theorem lastPeer_concat (cmds : List (Command κ)) (cmd : Command κ) :
    lastPeer (cmds ++ [cmd]) = cmd.peer.or (lastPeer cmds) := by
  unfold lastPeer
  rw [List.filterMap_append, List.getLast?_append]
  cases hp : cmd.peer with
  | none => simp [hp]
  | some peer => simp [hp]

section
variable {cmd : Command κ} {keys keys' : Keys κ} {reply : Reply}

/-- What is given when a command is answered, the request being known. -/
theorem serve_request {r : Request} (h : cmd.serve keys = some (keys', reply))
    (hr : request cmd.buffer = some r) :
    r.answer cmd.crypto keys cmd.queueSize = some (keys', reply) := by
  have hanswer := handleInternalCommand_answerTo cmd.crypto keys cmd.queueSize cmd.buffer
  rw [hr] at hanswer
  exact hanswer.symm.trans h

theorem serve_malformed (h : cmd.serve keys = some (keys', reply))
    (hr : request cmd.buffer = none) :
    keys' = keys ∧ reply.status = hciBridgeError := by
  have hanswer := handleInternalCommand_answerTo cmd.crypto keys cmd.queueSize cmd.buffer
  rw [hr] at hanswer
  obtain ⟨subcommand, hfail⟩ := hanswer
  cases hfail.symm.trans h
  exact ⟨rfl, rfl⟩

/-- A key pair is made only when there is none. -/
theorem createKeyPair_cases {c : Crypto κ}
    (h : HciBridge.createKeyPair c keys = some (keys', reply)) :
    keys' = keys ∨ keys.kp = .null ∧ keys'.secret = keys.secret ∧
      ∀ k, keys'.kp = .live k → generateKeyPair c.keygen = some k := by
  unfold HciBridge.createKeyPair at h
  split at h
  · rename_i hnull
    refine Or.inr ⟨hnull, ?_⟩
    split at h
    · cases h
      refine ⟨rfl, fun k hk => ?_⟩
      cases hk
    · rename_i k hk
      cases h
      exact ⟨rfl, fun k' hk' => hk.trans (congrArg some (KeyPointer.live.inj hk'))⟩
  · cases h
    exact Or.inl rfl
  · cases h

/-- **What a command does to the key material**: nothing, or it makes a key pair when there is
none, or it derives a secret. -/
theorem serve_cases (h : cmd.serve keys = some (keys', reply)) :
    (cmd.peer = none ∧ keys' = keys) ∨
    (cmd.peer = none ∧ keys.kp = .null ∧ keys'.secret = keys.secret ∧
      ∀ k, keys'.kp = .live k → generateKeyPair cmd.crypto.keygen = some k) ∨
    (∃ k peer, cmd.peer = some peer ∧ keys.kp = .live k ∧
      keys' =
        { keys with secret := HciBridge.deriveSecret (cmd.crypto.derive k.privateKey peer) }) := by
  cases hr : request cmd.buffer with
  | none => exact Or.inl ⟨by simp [peer, hr], (serve_malformed h hr).1⟩
  | some r =>
    have hanswer := serve_request h hr
    cases r with
    | createKeyPair =>
      have hp : cmd.peer = none := by simp [peer, hr]
      rcases createKeyPair_cases hanswer with hsame | hmade
      · exact Or.inl ⟨hp, hsame⟩
      · exact Or.inr (Or.inl ⟨hp, hmade⟩)
    | deriveSecret key =>
      simp only [Request.answer] at hanswer
      split at hanswer
      · rename_i k hlive
        cases hanswer
        exact Or.inr (Or.inr ⟨k, key, by simp [peer, hr], hlive, rfl⟩)
      · cases hanswer
    | getPubKey =>
      refine Or.inl ⟨by simp [peer, hr], ?_⟩
      simp only [Request.answer, HciBridge.getPubKey, fail] at hanswer
      split at hanswer <;> cases hanswer <;> rfl
    | aesDecrypt data => exact Or.inl ⟨by simp [peer, hr], withSecret_keys hanswer⟩
    | aesEncrypt data => exact Or.inl ⟨by simp [peer, hr], withSecret_keys hanswer⟩
    | publicDecrypt pubKey data =>
      refine Or.inl ⟨by simp [peer, hr], ?_⟩
      simp only [Request.answer, fail] at hanswer
      split at hanswer <;> cases hanswer <;> rfl
    | internalStatus =>
      cases hanswer
      exact Or.inl ⟨by simp [peer, hr], rfl⟩

/-- **A key that is published is the one of the key pair.** -/
theorem publishes_live (h : cmd.serve keys = some (keys', reply)) {key : List UInt8}
    (hkey : cmd.publishes reply = some key) : ∃ k, keys'.kp = .live k ∧ k.publicKey = key := by
  unfold publishes at hkey
  split at hkey
  · rename_i hcond
    obtain ⟨hok, hr⟩ := hcond
    cases hkey
    rcases hr with hr | hr
    · have hanswer := serve_request h hr
      simp only [Request.answer, HciBridge.createKeyPair, fail] at hanswer
      split at hanswer
      · split at hanswer
        · cases hanswer
          exact absurd hok (by decide)
        · cases hanswer
          exact ⟨_, rfl, rfl⟩
      · cases hanswer
        exact ⟨_, ‹_›, rfl⟩
      · cases hanswer
    · have hanswer := serve_request h hr
      simp only [Request.answer, HciBridge.getPubKey, fail] at hanswer
      split at hanswer
      · cases hanswer
        exact absurd hok (by decide)
      · cases hanswer
        exact ⟨_, ‹_›, rfl⟩
      · cases hanswer
  · cases hkey

end

end Command

/-- Diffie and Hellman's agreement: the public key of a private one, and the secret that a
private key makes of a public one, as `generateKeyPair` writes and `deriveSecret` hashes them. -/
structure Agreement (κ : Type) where
  publicKey : κ → List UInt8
  secret : κ → List UInt8 → List UInt8
  secret_comm : ∀ a b, secret a (publicKey b) = secret b (publicKey a)

/-- Where the library succeeds, it computes the agreement. -/
structure Crypto.Agrees (c : Crypto κ) (dh : Agreement κ) : Prop where
  keygen : ∀ k, generateKeyPair c.keygen = some k → k.publicKey = dh.publicKey k.privateKey
  derive : ∀ a peer secret, deriveSecret (c.derive a peer) = some secret → secret = dh.secret a peer

/-- What the key material stands for, after the commands `cmds`. -/
structure Keys.StandFor (dh : Agreement κ) (cmds : List (Command κ)) (keys : Keys κ) : Prop where
  publicKey : ∀ k, keys.kp = .live k → k.publicKey = dh.publicKey k.privateKey
  secret : ∀ secret, keys.secret = some secret →
    ∃ k peer, keys.kp = .live k ∧ Command.lastPeer cmds = some peer ∧
      secret = dh.secret k.privateKey peer

theorem Keys.standFor_initial (dh : Agreement κ) : (Keys.initial : Keys κ).StandFor dh [] where
  publicKey _ h := nomatch h
  secret _ h := nomatch h

section
variable {dh : Agreement κ} {done cmds : List (Command κ)} {keys keys' : Keys κ} {reply : Reply}

/-- **One command**: the key material goes on to stand for what the bridge has been given. -/
theorem Keys.StandFor.serve (h : keys.StandFor dh cmds) {cmd : Command κ}
    (hc : cmd.crypto.Agrees dh) (hserve : cmd.serve keys = some (keys', reply)) :
    keys'.StandFor dh (cmds ++ [cmd]) := by
  rcases Command.serve_cases hserve with
    ⟨hp, rfl⟩ | ⟨hp, hnull, hsame, hmade⟩ | ⟨k, peer, hp, hlive, rfl⟩
  · refine ⟨h.publicKey, fun secret hs => ?_⟩
    rw [Command.lastPeer_concat, hp]
    exact h.secret secret hs
  · refine ⟨fun k hk => hc.keygen k (hmade k hk), fun secret hs => ?_⟩
    -- there was no key pair to derive a secret with
    obtain ⟨k, peer, hlive, -⟩ := h.secret secret (hsame ▸ hs)
    exact nomatch hnull.symm.trans hlive
  · refine ⟨h.publicKey, fun secret hs => ⟨k, peer, hlive, ?_, hc.derive _ _ _ hs⟩⟩
    rw [Command.lastPeer_concat, hp, Option.some_or]

/-- The first command of a run is answered, and then the others are. -/
theorem Command.run_cons {cmd : Command κ} {replies : List Reply}
    (h : Command.run (cmd :: cmds) keys = some (keys', replies)) :
    ∃ keys₁ reply rest, cmd.serve keys = some (keys₁, reply) ∧
      Command.run cmds keys₁ = some (keys', rest) ∧ replies = reply :: rest := by
  obtain ⟨⟨keys₁, reply⟩, hserve, hrest⟩ := Option.bind_eq_some_iff.1 h
  obtain ⟨⟨_, rest⟩, hrun, hpair⟩ := Option.map_eq_some_iff.1 hrest
  cases hpair
  exact ⟨keys₁, reply, rest, hserve, hrun, rfl⟩

theorem Keys.StandFor.run (h : keys.StandFor dh done) (hc : ∀ cmd ∈ cmds, cmd.crypto.Agrees dh)
    {replies : List Reply} (hrun : Command.run cmds keys = some (keys', replies)) :
    keys'.StandFor dh (done ++ cmds) := by
  induction cmds generalizing done keys replies with
  | nil =>
    cases hrun
    rwa [List.append_nil]
  | cons cmd cmds ih =>
    obtain ⟨keys₁, reply, rest, hserve, hrun', rfl⟩ := Command.run_cons hrun
    have hnext := h.serve (hc cmd List.mem_cons_self) hserve
    have := ih hnext (fun c hm => hc c (List.mem_cons_of_mem _ hm)) hrun'
    rwa [List.append_assoc] at this

/-- A key pair is kept. -/
theorem Command.run_live {k : KeyPair κ} {replies : List Reply} (hlive : keys.kp = .live k)
    (hrun : Command.run cmds keys = some (keys', replies)) : keys'.kp = .live k := by
  induction cmds generalizing keys replies with
  | nil =>
    cases hrun
    exact hlive
  | cons cmd cmds ih =>
    obtain ⟨keys₁, reply, rest, hserve, hrun', rfl⟩ := Command.run_cons hrun
    refine ih ?_ hrun'
    rcases Command.serve_cases hserve with ⟨-, hsame⟩ | ⟨-, hnull, -, -⟩ | ⟨k', peer, -, -, hsame⟩
    · rw [hsame]
      exact hlive
    · exact nomatch hnull.symm.trans hlive
    · rw [hsame]
      exact hlive

/-- **Whatever a bridge has published is the key of the pair it has now.** -/
theorem Command.Published.live {key : List UInt8} {replies : List Reply}
    (hrun : Command.run cmds keys = some (keys', replies))
    (h : Command.Published cmds replies key) :
    ∃ k, keys'.kp = .live k ∧ k.publicKey = key := by
  induction cmds generalizing keys replies with
  | nil =>
    obtain ⟨x, hx, -⟩ := h
    exact nomatch hx
  | cons cmd cmds ih =>
    obtain ⟨keys₁, reply, rest, hserve, hrun', rfl⟩ := Command.run_cons hrun
    obtain ⟨z, hz, hkey⟩ := h
    rcases List.mem_cons.1 hz with rfl | hz
    · obtain ⟨k, hlive, hpub⟩ := Command.publishes_live hserve hkey
      exact ⟨k, Command.run_live hlive hrun', hpub⟩
    · exact ih hrun' ⟨z, hz, hkey⟩

end

/-! ## Two bridges -/

/-- What the clients of one bridge have asked for since it was started, and its replies.  None
of the commands reads a key pair that is NULL or has been freed, with which the run would end. -/
structure Dialogue (dh : Agreement κ) where
  cmds : List (Command κ)
  replies : List Reply
  keys : Keys κ
  run : Command.run cmds .initial = some (keys, replies)
  agrees : ∀ cmd ∈ cmds, cmd.crypto.Agrees dh

namespace Dialogue
variable {dh : Agreement κ}

/-- The bridge has published the key. -/
def Publishes (d : Dialogue dh) (key : List UInt8) : Prop := Command.Published d.cmds d.replies key

/-- The last key that the bridge was given is the one that the other bridge has published. -/
def Trusts (d d' : Dialogue dh) : Prop :=
  ∃ key, d'.Publishes key ∧ Command.lastPeer d.cmds = some key

theorem standFor (d : Dialogue dh) : d.keys.StandFor dh d.cmds :=
  (Keys.standFor_initial dh).run d.agrees d.run

/-- A secret is made of the own private key and the key that the other one has published. -/
theorem Trusts.secret {d d' : Dialogue dh} (h : d.Trusts d') {secret : List UInt8}
    (hs : d.keys.secret = some secret) :
    ∃ k k', d.keys.kp = .live k ∧ d'.keys.kp = .live k' ∧
      secret = dh.secret k.privateKey (dh.publicKey k'.privateKey) := by
  obtain ⟨key, hpub, hpeer⟩ := h
  obtain ⟨k', hlive', hkey⟩ := hpub.live d'.run
  obtain ⟨k, peer, hlive, hpeer', hsecret⟩ := d.standFor.secret secret hs
  obtain rfl := Option.some.inj (hpeer.symm.trans hpeer')
  refine ⟨k, k', hlive, hlive', ?_⟩
  rw [hsecret, ← hkey, d'.standFor.publicKey k' hlive']

/-- **Bridges that trust each other have the same secret**, once both have one. -/
theorem Trusts.secret_eq {d d' : Dialogue dh} (h : d.Trusts d') (h' : d'.Trusts d)
    {s s' : List UInt8} (hs : d.keys.secret = some s) (hs' : d'.keys.secret = some s') :
    s = s' := by
  obtain ⟨a, b, ha, hb, rfl⟩ := h.secret hs
  obtain ⟨b', a', hb', ha', rfl⟩ := h'.secret hs'
  obtain rfl := KeyPointer.live.inj (ha.symm.trans ha')
  obtain rfl := KeyPointer.live.inj (hb.symm.trans hb')
  exact dh.secret_comm _ _

end Dialogue

/-- An AES request that is answered with OK has been given to the cipher with the secret. -/
theorem withSecret_ok {keys keys' : Keys κ} {reply : Reply} {command : UInt8}
    {cipher : (secret : List UInt8) → List UInt8}
    (h : withSecret keys command cipher = some (keys', reply)) (hok : reply.status = hciBridgeOk) :
    ∃ secret, keys.secret = some secret ∧ reply.data = cipher secret := by
  unfold withSecret at h
  split at h
  · cases h
    exact absurd hok hciBridgeError_ne_ok
  · cases h
    exact ⟨_, ‹_›, rfl⟩

/-- **What one bridge encrypts the other one decrypts.**  Two bridges have been given each
other's published key, whatever else their clients have asked for, before and since and in
whatever order.  When the one answers a request to encrypt with OK, and the other a request to
decrypt that ciphertext, the client gets the plaintext back. -/
theorem ciphertext_opens {dh : Agreement κ} {aes : AesCbc} {sender receiver : Dialogue dh}
    (htrust : sender.Trusts receiver) (htrust' : receiver.Trusts sender)
    {encrypt decrypt : Command κ} (hencrypt : encrypt.crypto.Computes aes)
    (hdecrypt : decrypt.crypto.Computes aes) {keys keys' : Keys κ} {closed opened : Reply}
    {plaintext : List UInt8} (hclosed : encrypt.serve sender.keys = some (keys, closed))
    (hasked : request encrypt.buffer = some (.aesEncrypt plaintext))
    (hok : closed.status = hciBridgeOk)
    (hopened : decrypt.serve receiver.keys = some (keys', opened))
    (hasked' : request decrypt.buffer = some (.aesDecrypt closed.data))
    (hok' : opened.status = hciBridgeOk) : opened.data = plaintext := by
  obtain ⟨s, hs, hdata⟩ := withSecret_ok (Command.serve_request hclosed hasked) hok
  obtain ⟨s', hs', hdata'⟩ := withSecret_ok (Command.serve_request hopened hasked') hok'
  obtain rfl := htrust.secret_eq htrust' hs hs'
  calc opened.data
      = encryptionDecrypt (decrypt.crypto.decrypt closed.data s) := hdata'
    _ = encryptionDecrypt (decrypt.crypto.decrypt (aes.encrypt s plaintext) s) := by
        rw [hdata, hencrypt.encrypt]
    _ = aes.decrypt s (aes.encrypt s plaintext) := hdecrypt.decrypt plaintext s
    _ = plaintext := aes.decrypt_encrypt s plaintext

/-! ### Two bridges that have exchanged their keys -/

/-- An agreement by addition: a private key is its own public key. -/
def sumAgreement : Agreement UInt8 where
  publicKey a := [a]
  secret a peer := [a + peer.headD 0]
  secret_comm a b := by simp [UInt8.add_comm]

/-- A library that generates the private key `a` and computes that agreement. -/
def sumCrypto (a : UInt8) : Crypto UInt8 where
  keygen := ⟨true, true, true, true, true, true, some a, some [a]⟩
  derive a peer := ⟨true, true, true, true, true, true, some [a + peer.headD 0]⟩
  encrypt plaintext key := ⟨true, true, ⟨true, paddedCbc.encrypt key plaintext⟩, ⟨true, []⟩⟩
  decrypt ciphertext key := ⟨true, true, ⟨true, paddedCbc.decrypt key ciphertext⟩, ⟨true, []⟩⟩
  rsa _ _ := ⟨true, some []⟩

theorem sumCrypto_agrees (a : UInt8) : (sumCrypto a).Agrees sumAgreement where
  keygen k h := by
    cases h
    rfl
  derive _ _ _ h := (Option.some.inj h).symm

theorem sumCrypto_computes (a : UInt8) : (sumCrypto a).Computes paddedCbc :=
  ⟨fun _ _ => List.append_nil _, fun _ _ => List.append_nil _⟩

/-- The bridge with the private key `a` has been asked for its key, and given the key `b`. -/
def keyExchange (a b : UInt8) : Dialogue sumAgreement where
  cmds := [⟨sumCrypto a, 0, [pgCreateKeyPair]⟩, ⟨sumCrypto a, 0, [pgDeriveSecret, 0x00, 0x01, b]⟩]
  replies := [⟨hciBridgeOk, pgCreateKeyPair, [a]⟩, ⟨hciBridgeOk, pgDeriveSecret, []⟩]
  keys := ⟨.live ⟨a, [a]⟩, some [a + b]⟩
  run := rfl
  agrees cmd h := by
    simp only [List.mem_cons, List.not_mem_nil, or_false] at h
    rcases h with rfl | rfl <;> exact sumCrypto_agrees a

theorem keyExchange_trusts (a b : UInt8) : (keyExchange a b).Trusts (keyExchange b a) :=
  ⟨[b], ⟨_, List.mem_cons_self, rfl⟩, rfl⟩

/-- The one bridge is asked to encrypt. -/
def encryptThree : Command UInt8 := ⟨sumCrypto 3, 0, (aesMessage pgAesEncrypt [1, 2, 3]).payload⟩

def closedThree : Reply := ⟨hciBridgeOk, pgAesEncrypt, paddedCbc.encrypt [8] [1, 2, 3]⟩

/-- The other bridge is asked to decrypt. -/
def decryptThree : Command UInt8 :=
  ⟨sumCrypto 5, 0, (aesMessage pgAesDecrypt closedThree.data).payload⟩

def openedThree : Reply := ⟨hciBridgeOk, pgAesDecrypt, paddedCbc.decrypt [8] closedThree.data⟩

theorem ciphertext_opens_three : openedThree.data = [1, 2, 3] :=
  @ciphertext_opens UInt8 sumAgreement paddedCbc (keyExchange 3 5) (keyExchange 5 3)
    (keyExchange_trusts 3 5) (keyExchange_trusts 5 3) encryptThree decryptThree
    (sumCrypto_computes 3) (sumCrypto_computes 5) (keyExchange 3 5).keys (keyExchange 5 3).keys
    closedThree openedThree [1, 2, 3] (by decide) (by decide) rfl (by decide) (by decide) rfl

end OpenwrtFeed.HciBridge
