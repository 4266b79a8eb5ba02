import WasixEth.Lib.Aes256
import WasixEth.Lib.Keystream
import WasixEth.Lib.RlpItem
import WasixEth.Primitives

/-! # RLPx frames

The secrets both sides derive from the handshake, the running checksum over
each direction and the codec that seals messages into frames and opens them.
AES is an instance argument: the key stream of a key, and a block under a key.
-/

namespace WasixEth

/-- A message id and its payload. -/
abbrev Message := UInt8 × Bytes

class Aes where
  /-- The key stream of `Ctr64BE<Aes256>` that starts with zeros. -/
  keystream : B256 → Nat → UInt8
  /-- `Aes256Enc::encrypt_block`. -/
  encryptBlock : B256 → Bytes → Bytes

/-- AES itself. The counter of a block is in its last eight bytes. -/
@[reducible] def aes256 : Aes where
  keystream key position :=
    (Aes256.encryptBlock key.bytes (Rlp.beBytes 16 (position / 16 % 2 ^ 64))).getD
      (position % 16) 0
  encryptBlock key block := Aes256.encryptBlock key.bytes block

/-- Byte by byte, as far as both go. -/
def xorBytes (a b : Bytes) : Bytes := List.zipWith (· ^^^ ·) a b

/-! ## Secrets -/

structure HandshakeSecrets where
  aesSecret : B256
  macSecret : B256
  egressMacInitData : Bytes
  ingressMacInitData : Bytes

def deriveSessionSecrets [Keccak256] (initiator : Bool) (initiatorNonce recipientNonce : B256)
    (agreedSecret authPacket ackPacket : Bytes) : HandshakeSecrets :=
  let hNonce := keccak256 (recipientNonce.bytes ++ initiatorNonce.bytes)
  let sharedSecret := keccak256 (agreedSecret ++ hNonce.bytes)
  let aesSecret := keccak256 (agreedSecret ++ sharedSecret.bytes)
  let macSecret := keccak256 (agreedSecret ++ aesSecret.bytes)
  if initiator then
    { aesSecret
      macSecret
      egressMacInitData := xorBytes macSecret.bytes recipientNonce.bytes ++ authPacket
      ingressMacInitData := xorBytes macSecret.bytes initiatorNonce.bytes ++ ackPacket }
  else
    { aesSecret
      macSecret
      egressMacInitData := xorBytes macSecret.bytes initiatorNonce.bytes ++ ackPacket
      ingressMacInitData := xorBytes macSecret.bytes recipientNonce.bytes ++ authPacket }

/-! ## The running checksum -/

/-- The secret and everything that was hashed so far. -/
structure Mac where
  secret : B256
  hashed : Bytes
  deriving Inhabited

section Mac

variable [Keccak256]

def Mac.new (secret : B256) : Mac := ⟨secret, []⟩

def Mac.update (mac : Mac) (data : Bytes) : Mac := { mac with hashed := mac.hashed ++ data }

def Mac.digest (mac : Mac) : Bytes := (keccak256 mac.hashed).bytes.take 16

def Mac.updateHeader [Aes] (mac : Mac) (data : Bytes) : Mac :=
  mac.update (xorBytes (Aes.encryptBlock mac.secret mac.digest) data)

def Mac.updateBody [Aes] (mac : Mac) (data : Bytes) : Mac :=
  let mac := mac.update data
  let prev := mac.digest
  mac.update (xorBytes (Aes.encryptBlock mac.secret prev) prev)

@[simp] theorem Mac.length_digest (mac : Mac) : mac.digest.length = 16 := by
  rw [digest, List.length_take, B256.length_eq]
  rfl

end Mac

/-! ## The codec -/

/-- A key and the position in its key stream. -/
structure Cipher where
  key : B256
  position : Nat
  deriving Inhabited

def Cipher.applyKeystream [Aes] (cipher : Cipher) (bytes : Bytes) : Cipher × Bytes :=
  ({ cipher with position := cipher.position + bytes.length },
    Keystream.apply (Aes.keystream cipher.key) cipher.position bytes)

structure RlpxFrameCodec where
  enc : Cipher
  dec : Cipher
  egressMac : Mac
  ingressMac : Mac

namespace RlpxFrameCodec

def new (secrets : HandshakeSecrets) : RlpxFrameCodec where
  enc := ⟨secrets.aesSecret, 0⟩
  dec := ⟨secrets.aesSecret, 0⟩
  egressMac := (Mac.new secrets.macSecret).update secrets.egressMacInitData
  ingressMac := (Mac.new secrets.macSecret).update secrets.ingressMacInitData

variable [Keccak256] [Aes]

/-- `RLP(msg_id) || payload`. -/
def frameContent (message : Message) : Bytes :=
  Rlp.encodeUint 1 message.1.toNat ++ message.2

/-- The size in three bytes, `RLP([0, 0])` and zeros. -/
def frameHeader (frameSize : Nat) : Bytes :=
  (Rlp.beBytes 4 frameSize).drop 1 ++ [0xc2, 0x80, 0x80] ++ List.replicate 10 0

def paddingLength (frameSize : Nat) : Nat := (16 - frameSize % 16) % 16

def writeFrame (codec : RlpxFrameCodec) (message : Message) : RlpxFrameCodec × Bytes :=
  let content := frameContent message
  let (enc, headerCiphertext) := codec.enc.applyKeystream (frameHeader content.length)
  let egressMac := codec.egressMac.updateHeader headerCiphertext
  let headerMac := egressMac.digest
  let (enc, frameCiphertext) := enc.applyKeystream
    (content ++ List.replicate (paddingLength content.length) 0)
  let egressMac := egressMac.updateBody frameCiphertext
  let frameMac := egressMac.digest
  ({ codec with enc, egressMac }, headerCiphertext ++ headerMac ++ frameCiphertext ++ frameMac)

/-- `u32::from_be_bytes([0, header[0], header[1], header[2]])`. -/
def announcedSize (header : Bytes) : Nat := Rlp.fromBytes (header.take 3)

def readHeader (codec : RlpxFrameCodec) (headerCiphertext headerMac : Bytes) :
    RlpxFrameCodec × Except String Nat :=
  let ingressMac := codec.ingressMac.updateHeader headerCiphertext
  if ingressMac.digest ≠ headerMac then
    ({ codec with ingressMac }, .error "Header MAC mismatch")
  else
    let (dec, header) := codec.dec.applyKeystream headerCiphertext
    let frameSize := announcedSize header
    if 16 * 1024 * 1024 < frameSize then
      ({ codec with dec, ingressMac }, .error s!"Frame size too large: {frameSize}")
    else ({ codec with dec, ingressMac }, .ok frameSize)

def readFramePayload (codec : RlpxFrameCodec) (frameCiphertext frameMac : Bytes) :
    RlpxFrameCodec × Except String Bytes :=
  let ingressMac := codec.ingressMac.updateBody frameCiphertext
  if ingressMac.digest ≠ frameMac then
    ({ codec with ingressMac }, .error "Frame MAC mismatch")
  else
    let (dec, payload) := codec.dec.applyKeystream frameCiphertext
    ({ codec with dec, ingressMac }, .ok payload)

end RlpxFrameCodec

end WasixEth
