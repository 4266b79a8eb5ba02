import WasixEth.P2p.Ecies
import WasixEth.P2p.SessionReads

/-! # The key exchange

`do_handshake` of both sides. The initiator writes its packet and waits for the
answer; the recipient waits for the packet and writes the answer. Each side
reads the two bytes of a size and then as many bytes. The bytes travel in pieces
of any size, and a side that is through may send frames at once.
-/

namespace WasixEth.KeyExchange

open Rlp

/-! ## The two sides -/

/-- What a side draws at random. -/
structure Draws (SecretKey : Type) where
  ephemeralSk : SecretKey
  nonce : B256
  /-- `gen_range(100..300)`. -/
  padding : Nat
  padding_range : 100 ≤ padding ∧ padding < 300
  iv : Except String (FixedBytes 16)

structure Party (SecretKey : Type) where
  localSk : SecretKey
  draws : Draws SecretKey

inductive Failure where
  | error (message : String)
  | panic

/-- What a side leaves in its stream. -/
structure Established where
  secrets : HandshakeSecrets
  remoteId : FixedBytes 64

def orError {α : Type} (result : Except String α) : Except Failure α := result.mapError .error

def orDecodeError {α : Type} (result : Except Rlp.Failure α) : Except Failure α :=
  result.mapError fun
    | .refused e => .error (toString e)
    | .panic => .panic

theorem length_xorBytes (a b : B256) : (xorBytes a.bytes b.bytes).length = 32 := by
  rw [xorBytes, List.length_zipWith, a.length_eq, b.length_eq]
  rfl

/-- What the initiator signs. -/
def msgToSign (staticSharedSecret nonce : B256) : B256 :=
  ⟨xorBytes staticSharedSecret.bytes nonce.bytes, length_xorBytes staticSharedSecret nonce⟩

theorem length_sigBytes (signature : FixedBytes 64) (recoveryId : Nat) :
    (signature.bytes ++ [UInt8.ofNat recoveryId]).length = 65 := by
  rw [List.length_append, signature.length_eq]
  rfl

def sigBytes (signature : FixedBytes 64) (recoveryId : Nat) : FixedBytes 65 :=
  ⟨signature.bytes ++ [UInt8.ofNat recoveryId], length_sigBytes signature recoveryId⟩

section Sides

variable {SecretKey PublicKey : Type} [Secp256k1 SecretKey PublicKey] [Sha256Hash] [Aes128Ctr]

open Secp256k1

/-- The initiator up to its first write. -/
def prepareAuth (party : Party SecretKey) (remotePk : Option PublicKey) :
    Except Failure Bytes := do
  match remotePk with
  | none => throw (.error "Remote public key required for initiator")
  | some remotePk => do
      let staticSharedSecret := diffieHellman party.localSk remotePk
      let (signature, recoveryId) ←
        orError ((signPrehashRecoverable party.draws.ephemeralSk
          (msgToSign staticSharedSecret party.draws.nonce)).mapError fun e =>
            s!"Signing failed: {e}")
      let authMsg : AuthMsgV4 :=
        { signature := sigBytes signature recoveryId
          initiatorPubkey := coordinates (publicKey party.localSk)
          nonce := party.draws.nonce
          version := 4 }
      let authBody := AuthMsgV4.codec.encode authMsg ++ List.replicate party.draws.padding 0
      orError (eciesEncrypt remotePk authBody party.draws.ephemeralSk party.draws.iv)

variable [Keccak256]

/-- The initiator, once the whole answer is there. -/
def receiveAck (party : Party SecretKey) (remotePk : Option PublicKey)
    (fullAuth ackLenBuf encryptedAck : Bytes) : Except Failure Established := do
  let fullAck := ackLenBuf ++ encryptedAck
  let ackRlp ← orError (eciesDecrypt party.localSk encryptedAck ackLenBuf)
  let (ackMsg, _) ← orDecodeError (AuthAckV4.codec.decode ackRlp)
  let recipientSessionEphPk ← orError (b512ToPubkey ackMsg.recipientEphemeralPubkey)
  let agreedSecret := diffieHellman party.draws.ephemeralSk recipientSessionEphPk
  match remotePk with
  | none => throw (.error "Remote public key required for initiator")
  | some remotePk =>
      return {
        secrets := deriveSessionSecrets true party.draws.nonce ackMsg.nonce agreedSecret.bytes
          fullAuth fullAck
        remoteId := coordinates remotePk }

/-- The recipient, once the whole packet is there: its answer and what it keeps. -/
def answerAuth (party : Party SecretKey) (authLenBuf encryptedAuth : Bytes) :
    Except Failure (Bytes × Established) := do
  let fullAuth := authLenBuf ++ encryptedAuth
  let authRlp ← orError (eciesDecrypt party.localSk encryptedAuth authLenBuf)
  let (authMsg, _) ← orDecodeError (AuthMsgV4.codec.decode authRlp)
  let initiatorStaticPk ← orError (b512ToPubkey authMsg.initiatorPubkey)
  let staticSharedSecret := diffieHellman party.localSk initiatorStaticPk
  let initiatorSessionEphPk ←
    orError (recoverPubkey authMsg.signature (msgToSign staticSharedSecret authMsg.nonce))
  let ackMsg : AuthAckV4 :=
    { recipientEphemeralPubkey := coordinates (publicKey party.draws.ephemeralSk)
      nonce := party.draws.nonce
      version := 4 }
  let ackBody := AuthAckV4.codec.encode ackMsg ++ List.replicate party.draws.padding 0
  let fullAck ← orError (eciesEncrypt initiatorStaticPk ackBody party.draws.ephemeralSk
    party.draws.iv)
  let agreedSecret := diffieHellman party.draws.ephemeralSk initiatorSessionEphPk
  return (fullAck, {
    secrets := deriveSessionSecrets false authMsg.nonce party.draws.nonce agreedSecret.bytes
      fullAuth fullAck
    remoteId := authMsg.initiatorPubkey })

end Sides

/-! ## The connection -/

/-- Where a side is; it keeps what it has written. -/
inductive Stage where
  | start
  | awaitingLength (own : Bytes)
  | awaitingPacket (own lenBuf : Bytes)
  | done (session : Established) (codec : RlpxFrameCodec)
  | failed (failure : Failure)

/-- Both sides; the initiator is `true`. Of the bytes for a side some have arrived and
some are on their way. -/
structure Connection where
  stage : Bool → Stage
  incoming : Bool → Bytes
  wire : Bool → Bytes
  sent : Bool → List Message

/-- A side goes on as far as it can, bytes arrive at a side, or a side sends a frame. -/
inductive Event where
  | poll (side : Bool)
  | arrive (side : Bool) (count : Nat)
  | send (side : Bool) (message : Message)

namespace Connection

/-- Both sides before the first step. -/
def opened : Connection where
  stage _ := .start
  incoming _ := []
  wire _ := []
  sent _ := []

def setStage (connection : Connection) (side : Bool) (stage : Stage) : Connection :=
  { connection with stage := Function.update connection.stage side stage }

/-- `write_all`. -/
def write (connection : Connection) (side : Bool) (bytes : Bytes) : Connection :=
  { connection with
    wire := Function.update connection.wire (!side) (connection.wire (!side) ++ bytes) }

/-- A part of `read_exact` that has all its bytes. -/
def consume (connection : Connection) (side : Bool) (count : Nat) : Connection :=
  { connection with
    incoming := Function.update connection.incoming side
      ((connection.incoming side).drop count) }

def arrive (connection : Connection) (side : Bool) (count : Nat) : Connection :=
  { connection with
    incoming := Function.update connection.incoming side
      (connection.incoming side ++ (connection.wire side).take count)
    wire := Function.update connection.wire side ((connection.wire side).drop count) }

end Connection

/-- The two sides, and whom the initiator dials. -/
structure Setup (SecretKey PublicKey : Type) where
  initiator : Party SecretKey
  recipient : Party SecretKey
  remotePk : Option PublicKey

namespace Setup

variable {SecretKey PublicKey : Type} [Secp256k1 SecretKey PublicKey] [Sha256Hash] [Aes128Ctr]
  [Keccak256]

/-- What a side does first. -/
def begin (setup : Setup SecretKey PublicKey) (connection : Connection) (side : Bool) :
    Connection :=
  if side then
    match prepareAuth setup.initiator setup.remotePk with
    | .error e => connection.setStage side (.failed e)
    | .ok fullAuth => (connection.write side fullAuth).setStage side (.awaitingLength fullAuth)
  else connection.setStage side (.awaitingLength [])

/-- What a side does with the packet of the other. -/
def finish (setup : Setup SecretKey PublicKey) (connection : Connection) (side : Bool)
    (own lenBuf encrypted : Bytes) : Connection :=
  if side then
    match receiveAck setup.initiator setup.remotePk own lenBuf encrypted with
    | .error e => connection.setStage side (.failed e)
    | .ok session => connection.setStage side (.done session (.new session.secrets))
  else
    match answerAuth setup.recipient lenBuf encrypted with
    | .error e => connection.setStage side (.failed e)
    | .ok (fullAck, session) =>
        (connection.write side fullAck).setStage side (.done session (.new session.secrets))

variable [Aes]

def step (setup : Setup SecretKey PublicKey) (connection : Connection) : Event → Connection
  | .arrive side count => connection.arrive side count
  | .poll side =>
      match connection.stage side with
      | .start => setup.begin connection side
      | .awaitingLength own =>
          if (connection.incoming side).length < 2 then connection
          else
            (connection.consume side 2).setStage side
              (.awaitingPacket own ((connection.incoming side).take 2))
      | .awaitingPacket own lenBuf =>
          let len := fromBytes lenBuf
          if (connection.incoming side).length < len then connection
          else
            setup.finish (connection.consume side len) side own lenBuf
              ((connection.incoming side).take len)
      | .done _ _ => connection
      | .failed _ => connection
  | .send side message =>
      match connection.stage side with
      | .done session codec =>
          let (codec, frame) := codec.writeFrame message
          let connection := (connection.write side frame).setStage side (.done session codec)
          { connection with
            sent := Function.update connection.sent side (connection.sent side ++ [message]) }
      | _ => connection

def run (setup : Setup SecretKey PublicKey) (connection : Connection) (events : List Event) :
    Connection := events.foldl setup.step connection

end Setup

/-! ## Two nodes -/

def sampleDraws (ephemeralSk : SampleKey) (nonce : Nat) : Draws SampleKey where
  ephemeralSk := ephemeralSk
  nonce := B256.ofNat nonce
  padding := 100
  padding_range := by decide
  iv := .ok ⟨List.replicate 16 7, rfl⟩

/-- One node dials another. -/
def sampleSetup : Setup SampleKey SampleKey where
  initiator := ⟨.initiator, sampleDraws .initiatorEphemeral
    0x7e968bba13b6c50e2c4cd7f241cc0d64d1ac25c7f5952df231ac6a2bda8ee5d6⟩
  recipient := ⟨.recipient, sampleDraws .recipientEphemeral
    0x559aead08264d5795d3909718cdd05abd49572e84fe55590eef31a88a08fdffd⟩
  remotePk := some .recipient

end WasixEth.KeyExchange
