import WasixEth.Lib.RlpItem
import WasixEth.Primitives

/-! # Discovery packets

The six packets of the discovery protocol, how they are encoded and decoded, and
the signed packet around them. Encoders write a list header with a length that
they add up themselves. ECDSA over secp256k1 is an instance argument.
-/

namespace WasixEth

namespace Discovery

open Rlp

/-! ## Endpoints -/

inductive IpAddr where
  | v4 (octets : FixedBytes 4)
  | v6 (octets : FixedBytes 16)
  deriving DecidableEq

def IpAddr.octets : IpAddr → Bytes
  | .v4 octets => octets.bytes
  | .v6 octets => octets.bytes

/-- An address as an RLP string. -/
def IpAddr.decode (buf : Bytes) : Except Error (IpAddr × Bytes) := do
  let (bytes, rest) ← Header.decodeBytes false buf
  if h : bytes.length = 4 then return (.v4 ⟨bytes, h⟩, rest)
  else if h : bytes.length = 16 then return (.v6 ⟨bytes, h⟩, rest)
  else throw (.custom "Invalid IP address length")

structure NodeEndpoint where
  ip : IpAddr
  udpPort : UInt16
  tcpPort : UInt16
  deriving DecidableEq

namespace NodeEndpoint

def payloadLength (endpoint : NodeEndpoint) : Nat :=
  bytesLength endpoint.ip.octets + uintLength 2 endpoint.udpPort.toNat +
    uintLength 2 endpoint.tcpPort.toNat

def encode (endpoint : NodeEndpoint) : Bytes :=
  Header.encode ⟨true, endpoint.payloadLength⟩ ++
    (encodeBytes endpoint.ip.octets ++
      (encodeUint 2 endpoint.udpPort.toNat ++ encodeUint 2 endpoint.tcpPort.toNat))

def length (endpoint : NodeEndpoint) : Nat := listLength endpoint.payloadLength

def decode (buf : Bytes) : Except Error (NodeEndpoint × Bytes) := do
  let (slice, rest) ← Header.decodeBytes true buf
  let (ip, slice) ← IpAddr.decode slice
  let (udpPort, slice) ← decodeInt 2 slice
  let (tcpPort, _) ← decodeInt 2 slice
  return (⟨ip, .ofNat udpPort, .ofNat tcpPort⟩, rest)

end NodeEndpoint

/-! ## Optional sequence numbers -/

/-- A trailing number, if there is one. -/
def encodeSeq : Option UInt64 → Bytes
  | none => []
  | some seq => encodeUint 8 seq.toNat

def seqLength : Option UInt64 → Nat
  | none => 0
  | some seq => uintLength 8 seq.toNat

def decodeSeq (slice : Bytes) : Except Error (Option UInt64) :=
  if slice.isEmpty then .ok none
  else do
    let (seq, _) ← decodeInt 8 slice
    return some (.ofNat seq)

/-! ## Ping and Pong -/

structure Ping where
  version : UInt32
  fromEndpoint : NodeEndpoint
  toEndpoint : NodeEndpoint
  expiration : UInt64
  enrSeq : Option UInt64
  deriving DecidableEq

namespace Ping

def payloadLength (ping : Ping) : Nat :=
  uintLength 4 ping.version.toNat + ping.fromEndpoint.length + ping.toEndpoint.length +
    uintLength 8 ping.expiration.toNat + seqLength ping.enrSeq

def encode (ping : Ping) : Bytes :=
  Header.encode ⟨true, ping.payloadLength⟩ ++
    (encodeUint 4 ping.version.toNat ++ (ping.fromEndpoint.encode ++ (ping.toEndpoint.encode ++
      (encodeUint 8 ping.expiration.toNat ++ encodeSeq ping.enrSeq))))

def decode (buf : Bytes) : Except Error (Ping × Bytes) := do
  let (slice, rest) ← Header.decodeBytes true buf
  let (version, slice) ← decodeInt 4 slice
  let (fromEndpoint, slice) ← NodeEndpoint.decode slice
  let (toEndpoint, slice) ← NodeEndpoint.decode slice
  let (expiration, slice) ← decodeInt 8 slice
  let enrSeq ← decodeSeq slice
  return (⟨.ofNat version, fromEndpoint, toEndpoint, .ofNat expiration, enrSeq⟩, rest)

end Ping

structure Pong where
  toEndpoint : NodeEndpoint
  echo : FixedBytes 32
  expiration : UInt64
  enrSeq : Option UInt64
  deriving DecidableEq

namespace Pong

def payloadLength (pong : Pong) : Nat :=
  pong.toEndpoint.length + bytesLength pong.echo.bytes + uintLength 8 pong.expiration.toNat +
    seqLength pong.enrSeq

def encode (pong : Pong) : Bytes :=
  Header.encode ⟨true, pong.payloadLength⟩ ++
    (pong.toEndpoint.encode ++ (encodeBytes pong.echo.bytes ++
      (encodeUint 8 pong.expiration.toNat ++ encodeSeq pong.enrSeq)))

def decode (buf : Bytes) : Except Error (Pong × Bytes) := do
  let (slice, rest) ← Header.decodeBytes true buf
  let (toEndpoint, slice) ← NodeEndpoint.decode slice
  let (echo, slice) ← decodeFixed 32 slice
  let (expiration, slice) ← decodeInt 8 slice
  let enrSeq ← decodeSeq slice
  return (⟨toEndpoint, echo, .ofNat expiration, enrSeq⟩, rest)

end Pong

/-! ## FindNode and Neighbors -/

structure FindNode where
  target : FixedBytes 64
  expiration : UInt64
  deriving DecidableEq

namespace FindNode

def encode (find : FindNode) : Bytes :=
  Header.encode ⟨true, bytesLength find.target.bytes + uintLength 8 find.expiration.toNat⟩ ++
    (encodeBytes find.target.bytes ++ encodeUint 8 find.expiration.toNat)

def decode (buf : Bytes) : Except Error (FindNode × Bytes) := do
  let (slice, rest) ← Header.decodeBytes true buf
  let (target, slice) ← decodeFixed 64 slice
  let (expiration, _) ← decodeInt 8 slice
  return (⟨target, .ofNat expiration⟩, rest)

end FindNode

structure Neighbor where
  ip : IpAddr
  udpPort : UInt16
  tcpPort : UInt16
  id : FixedBytes 64
  deriving DecidableEq

namespace Neighbor

def payloadLength (neighbor : Neighbor) : Nat :=
  bytesLength neighbor.ip.octets + uintLength 2 neighbor.udpPort.toNat +
    uintLength 2 neighbor.tcpPort.toNat + bytesLength neighbor.id.bytes

def encode (neighbor : Neighbor) : Bytes :=
  Header.encode ⟨true, neighbor.payloadLength⟩ ++
    (encodeBytes neighbor.ip.octets ++ (encodeUint 2 neighbor.udpPort.toNat ++
      (encodeUint 2 neighbor.tcpPort.toNat ++ encodeBytes neighbor.id.bytes)))

def length (neighbor : Neighbor) : Nat := listLength neighbor.payloadLength

def decode (buf : Bytes) : Except Error (Neighbor × Bytes) := do
  let (slice, rest) ← Header.decodeBytes true buf
  let (ip, slice) ← IpAddr.decode slice
  let (udpPort, slice) ← decodeInt 2 slice
  let (tcpPort, slice) ← decodeInt 2 slice
  let (id, _) ← decodeFixed 64 slice
  return (⟨ip, .ofNat udpPort, .ofNat tcpPort, id⟩, rest)

end Neighbor

structure Neighbors where
  nodes : List Neighbor
  expiration : UInt64
  deriving DecidableEq

namespace Neighbors

def nodesPayloadLength (nodes : List Neighbor) : Nat := (nodes.map Neighbor.length).sum

/-- A `Vec` is a list of its items. -/
def encodeNodes (nodes : List Neighbor) : Bytes :=
  Header.encode ⟨true, nodesPayloadLength nodes⟩ ++ nodes.flatMap Neighbor.encode

def encode (neighbors : Neighbors) : Bytes :=
  Header.encode ⟨true, listLength (nodesPayloadLength neighbors.nodes) +
      uintLength 8 neighbors.expiration.toNat⟩ ++
    (encodeNodes neighbors.nodes ++ encodeUint 8 neighbors.expiration.toNat)

def decode (buf : Bytes) : Except Error (Neighbors × Bytes) := do
  let (slice, rest) ← Header.decodeBytes true buf
  let (nodes, slice) ← decodeVec Neighbor.decode slice
  let (expiration, _) ← decodeInt 8 slice
  return (⟨nodes, .ofNat expiration⟩, rest)

end Neighbors

/-! ## Node records -/

structure ENRRequest where
  expiration : UInt64
  deriving DecidableEq

namespace ENRRequest

def encode (request : ENRRequest) : Bytes :=
  Header.encode ⟨true, uintLength 8 request.expiration.toNat⟩ ++
    encodeUint 8 request.expiration.toNat

def decode (buf : Bytes) : Except Error (ENRRequest × Bytes) := do
  let (slice, rest) ← Header.decodeBytes true buf
  let (expiration, _) ← decodeInt 8 slice
  return (⟨.ofNat expiration⟩, rest)

end ENRRequest

structure Enr where
  seq : UInt64
  signature : FixedBytes 64
  data : List (String × Bytes)
  deriving DecidableEq

def stringBytes (text : String) : Bytes := text.toUTF8.data.toList

def decodeString (buf : Bytes) : Except Error (String × Bytes) := do
  let (bytes, rest) ← Header.decodeBytes false buf
  match String.fromUTF8? ⟨bytes.toArray⟩ with
  | some text => return (text, rest)
  | none => throw (.custom "invalid string")

namespace Enr

/-- A key, and a value behind the header of a string of its length. -/
def encodePair (pair : String × Bytes) : Bytes :=
  encodeBytes (stringBytes pair.1) ++ (Header.encode ⟨false, pair.2.length⟩ ++ pair.2)

def pairLength (pair : String × Bytes) : Nat :=
  bytesLength (stringBytes pair.1) + bytesLength pair.2

def payloadLength (enr : Enr) : Nat :=
  bytesLength enr.signature.bytes + uintLength 8 enr.seq.toNat + (enr.data.map pairLength).sum

def encode (enr : Enr) : Bytes :=
  Header.encode ⟨true, enr.payloadLength⟩ ++
    (encodeBytes enr.signature.bytes ++ (encodeUint 8 enr.seq.toNat ++
      enr.data.flatMap encodePair))

def length (enr : Enr) : Nat := listLength enr.payloadLength

/-- A key, and a `Vec<u8>`. -/
def decodePair (slice : Bytes) : Except Error ((String × Bytes) × Bytes) := do
  let (key, slice) ← decodeString slice
  let (value, slice) ← decodeVec (decodeInt 1) slice
  return ((key, value.map UInt8.ofNat), slice)

def decode (buf : Bytes) : Except Error (Enr × Bytes) := do
  let (slice, rest) ← Header.decodeBytes true buf
  let (signature, slice) ← decodeFixed 64 slice
  let (seq, slice) ← decodeInt 8 slice
  let data ← decodeItems decodePair slice.length slice
  return (⟨.ofNat seq, signature, data⟩, rest)

end Enr

structure ENRResponse where
  replyToken : FixedBytes 32
  enr : Enr
  deriving DecidableEq

namespace ENRResponse

def encode (response : ENRResponse) : Bytes :=
  Header.encode ⟨true, bytesLength response.replyToken.bytes + response.enr.length⟩ ++
    (encodeBytes response.replyToken.bytes ++ response.enr.encode)

def decode (buf : Bytes) : Except Error (ENRResponse × Bytes) := do
  let (slice, rest) ← Header.decodeBytes true buf
  let (replyToken, slice) ← decodeFixed 32 slice
  let (enr, _) ← Enr.decode slice
  return (⟨replyToken, enr⟩, rest)

end ENRResponse

/-! ## Packets -/

inductive Packet where
  | ping (ping : Ping)
  | pong (pong : Pong)
  | findNode (find : FindNode)
  | neighbors (neighbors : Neighbors)
  | enrRequest (request : ENRRequest)
  | enrResponse (response : ENRResponse)
  deriving DecidableEq

inductive DecodeError where
  | tooShort
  | hashMismatch
  | invalidSignature (message : String)
  | invalidPacketType (packetType : UInt8)
  | rlpError (error : Error)

namespace Packet

def packetType : Packet → UInt8
  | .ping _ => 0x01
  | .pong _ => 0x02
  | .findNode _ => 0x03
  | .neighbors _ => 0x04
  | .enrRequest _ => 0x05
  | .enrResponse _ => 0x06

def encodeData : Packet → Bytes
  | .ping p => p.encode
  | .pong p => p.encode
  | .findNode p => p.encode
  | .neighbors p => p.encode
  | .enrRequest p => p.encode
  | .enrResponse p => p.encode

/-- The value, wrapped; what follows it is not looked at. -/
def decoded {α : Type} (wrap : α → Packet) : Except Error (α × Bytes) → Except DecodeError Packet
  | .ok (value, _) => .ok (wrap value)
  | .error e => .error (.rlpError e)

def decodePayload (packetType : UInt8) (buf : Bytes) : Except DecodeError Packet :=
  if packetType = 0x01 then decoded .ping (Ping.decode buf)
  else if packetType = 0x02 then decoded .pong (Pong.decode buf)
  else if packetType = 0x03 then decoded .findNode (FindNode.decode buf)
  else if packetType = 0x04 then decoded .neighbors (Neighbors.decode buf)
  else if packetType = 0x05 then decoded .enrRequest (ENRRequest.decode buf)
  else if packetType = 0x06 then decoded .enrResponse (ENRResponse.decode buf)
  else .error (.invalidPacketType packetType)

end Packet

/-! ## Signed packets -/

/-- Signatures that a public key can be recovered from. -/
class Ecdsa (SigningKey : Type) where
  /-- The signature and the recovery id. -/
  signPrehashRecoverable : SigningKey → B256 → FixedBytes 64 × UInt8
  /-- `Signature::from_slice`. -/
  signatureFromSlice : FixedBytes 64 → Except String Unit
  /-- `VerifyingKey::recover_from_prehash`, as the 64 bytes of the point. -/
  recoverFromPrehash : B256 → FixedBytes 64 → UInt8 → Except String (FixedBytes 64)
  publicKey : SigningKey → FixedBytes 64

structure RawPacket where
  hash : B256
  signature : FixedBytes 65
  packetType : UInt8
  data : Bytes

namespace RawPacket

variable [Keccak256] {SigningKey : Type} [Ecdsa SigningKey]

def new (packet : Packet) (key : SigningKey) : RawPacket :=
  let sigData := packet.packetType :: packet.encodeData
  let (signature, recoveryId) := Ecdsa.signPrehashRecoverable key (keccak256 sigData)
  let sigBytes : FixedBytes 65 := ⟨signature.bytes ++ [recoveryId], by simp [signature.length_eq]⟩
  { hash := keccak256 (sigBytes.bytes ++ sigData)
    signature := sigBytes
    packetType := packet.packetType
    data := packet.encodeData }

def encode (raw : RawPacket) : Bytes :=
  raw.hash.bytes ++ (raw.signature.bytes ++ (raw.packetType :: raw.data))

def decode (buf : Bytes) : Except DecodeError RawPacket :=
  if h : buf.length < 98 then .error .tooShort
  else
    let hash : B256 := ⟨buf.take 32, by rw [List.length_take]; omega⟩
    let signature : FixedBytes 65 :=
      ⟨(buf.drop 32).take 65, by rw [List.length_take, List.length_drop]; omega⟩
    let packetType := buf.getD 97 0
    if packetType < 0x01 ∨ 0x06 < packetType then .error (.invalidPacketType packetType)
    else if hash ≠ keccak256 (buf.drop 32) then .error .hashMismatch
    else .ok { hash, signature, packetType, data := buf.drop 98 }

def recoverPublicKey (SigningKey : Type) [Ecdsa SigningKey] (raw : RawPacket) :
    Except DecodeError (FixedBytes 64) :=
  let msgHash := keccak256 (raw.packetType :: raw.data)
  let recoveryId := raw.signature.bytes.getD 64 0
  let signature : FixedBytes 64 :=
    ⟨raw.signature.bytes.take 64, by rw [List.length_take, raw.signature.length_eq]; rfl⟩
  -- `RecoveryId::from_byte` knows the ids below four.
  if 4 ≤ recoveryId then .error (.invalidSignature "Invalid recovery ID")
  else
    match Ecdsa.signatureFromSlice SigningKey signature with
    | .error e => .error (.invalidSignature e)
    | .ok () =>
        match Ecdsa.recoverFromPrehash SigningKey msgHash signature recoveryId with
        | .error e => .error (.invalidSignature e)
        | .ok key => .ok key

end RawPacket

end Discovery

end WasixEth
