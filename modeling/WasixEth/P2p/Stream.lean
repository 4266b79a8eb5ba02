import WasixEth.P2p.Frame

/-! # Reading messages from a stream

`RlpxStream::read_message` reads from the socket until the buffer holds the
header of a frame, opens it, reads on until the buffer holds the body and opens
that. Between two reads from the socket it runs without a break; what it does
there is `check`.
-/

namespace WasixEth

inductive PartialFrame where
  | readHeader
  | readBody (frameSize : Nat)
  deriving DecidableEq

def PartialFrame.paddedSize (frameSize : Nat) : Nat := (frameSize + 15) / 16 * 16

/-- The bytes the buffer must hold before the frame goes on. -/
def PartialFrame.target : PartialFrame → Nat
  | .readHeader => 32
  | .readBody frameSize => paddedSize frameSize + 16

structure SharedCapability where
  name : String
  version : Nat

structure RlpxStream where
  codec : Option RlpxFrameCodec
  sharedCapabilities : List SharedCapability
  msgBuffer : List Message
  readBuffer : Bytes
  partialFrame : Option PartialFrame

/-- Snappy: the size a payload announces and the payload itself, decompressed. -/
class Snappy where
  decompressLen : Bytes → Except String Nat
  decompressVec : Bytes → Except String Bytes

namespace RlpxStream

/-- Where `check` stops: at the socket, with an error or with a frame. -/
inductive Progress where
  | waiting (state : PartialFrame)
  | failed (error : String)
  | frame (message : Message)

section Check

variable [Keccak256] [Aes]

def takeHeader (stream : RlpxStream) : RlpxStream × Except String Nat :=
  match stream.codec with
  | none => (stream, .error "Codec not initialized")
  | some codec =>
      let headerCiphertext := stream.readBuffer.take 16
      let headerMac := (stream.readBuffer.drop 16).take 16
      match codec.readHeader headerCiphertext headerMac with
      | (codec, .error e) => ({ stream with codec := some codec }, .error e)
      | (codec, .ok frameSize) =>
          ({ stream with
              codec := some codec
              readBuffer := stream.readBuffer.drop 32
              partialFrame := some (.readBody frameSize) }, .ok frameSize)

def takeBody (stream : RlpxStream) (frameSize : Nat) : RlpxStream × Except String Message :=
  match stream.codec with
  | none => (stream, .error "Codec not initialized")
  | some codec =>
      let paddedSize := PartialFrame.paddedSize frameSize
      let frameCiphertext := stream.readBuffer.take paddedSize
      let frameMac := (stream.readBuffer.drop paddedSize).take 16
      match codec.readFramePayload frameCiphertext frameMac with
      | (codec, .error e) => ({ stream with codec := some codec }, .error e)
      | (codec, .ok decrypted) =>
          if decrypted.length < frameSize then
            ({ stream with codec := some codec },
              .error (s!"Decrypted frame too short: expected {frameSize}, " ++
                s!"got {decrypted.length}"))
          else
            match Rlp.decodeInt 1 (decrypted.take frameSize) with
            | .error e =>
                ({ stream with codec := some codec }, .error s!"Failed to decode msg id: {e}")
            | .ok (msgId, payload) =>
                ({ stream with
                    codec := some codec
                    readBuffer := stream.readBuffer.drop (paddedSize + 16)
                    partialFrame := none }, .ok (UInt8.ofNat msgId, payload))

def checkBody (stream : RlpxStream) (frameSize : Nat) : RlpxStream × Progress :=
  if stream.readBuffer.length < (PartialFrame.readBody frameSize).target then
    (stream, .waiting (.readBody frameSize))
  else
    match stream.takeBody frameSize with
    | (stream, .error e) => (stream, .failed e)
    | (stream, .ok message) => (stream, .frame message)

def afterHeader : RlpxStream × Except String Nat → RlpxStream × Progress
  | (stream, .error e) => (stream, .failed e)
  | (stream, .ok frameSize) => stream.checkBody frameSize

/-- From the test of the buffer to the next read from the socket, or to the end. -/
def check (stream : RlpxStream) : PartialFrame → RlpxStream × Progress
  | .readHeader =>
      if stream.readBuffer.length < PartialFrame.readHeader.target then
        (stream, .waiting .readHeader)
      else afterHeader stream.takeHeader
  | .readBody frameSize => stream.checkBody frameSize

/-- The frame that a stream is at. -/
def state (stream : RlpxStream) : PartialFrame := stream.partialFrame.getD .readHeader

/-- The loop of `read_message`, from the start. -/
def nextFrame (stream : RlpxStream) : RlpxStream × Progress := stream.check stream.state

end Check

/-! ## Decompression -/

def snappyEnabled (stream : RlpxStream) : Bool :=
  stream.sharedCapabilities.any fun c => (c.name == "eth" && 65 ≤ c.version) || c.name == "snap"

def maxPayloadSize : Nat := 16 * 1024 * 1024

/-- What becomes of a message once its frame is open. -/
def decompressed [Snappy] (stream : RlpxStream) (message : Message) : Except String Message :=
  if (0x10 ≤ message.1.toNat ∨ (0x01 < message.1.toNat ∧ message.1.toNat < 0x10)) ∧
      stream.snappyEnabled then
    if message.2.isEmpty then .ok (message.1, [])
    else
      match Snappy.decompressLen message.2 with
      | .error e => .error s!"Codec error: Snappy decompress_len failed: {e}"
      | .ok decompressedSize =>
          if maxPayloadSize < decompressedSize then
            .error (s!"Snappy decompressed size {decompressedSize} " ++
              s!"exceeds limit {maxPayloadSize}")
          else
            match Snappy.decompressVec message.2 with
            | .error e => .error s!"Decompression failed: {e}"
            | .ok payload => .ok (message.1, payload)
  else .ok message

end RlpxStream

end WasixEth
