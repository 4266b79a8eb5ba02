import WasixEth.Lib.StrictCodec
import WasixEth.P2p.Discovery
import WasixEth.P2p.Ecies
import WasixEth.P2p.Negotiating

/-! # Messages on the wire

The messages of the protocols above a connection, as lists of their fields. The bodies that
consist of transactions, headers, receipts or blocks are read by decoders from elsewhere.
-/

namespace WasixEth.P2p

open Rlp

/-! ## Fields -/

def u8Codec : Codec UInt8 := (Codec.uint 1).map UInt8.toNat UInt8.ofNat

def u16Codec : Codec UInt16 := (Codec.uint 2).map UInt16.toNat UInt16.ofNat

def u256Codec : Codec (BitVec 256) := (Codec.uint 32).map BitVec.toNat (BitVec.ofNat 256)

def boolOfU8 (raw : UInt8) : Except Error Bool :=
  if raw = 0 then .ok false
  else if raw = 1 then .ok true
  else .error (.custom "invalid bool value, must be 0 or 1")

def boolCodec : Codec Bool := u8Codec.tryMap (fun value => if value then 1 else 0) boolOfU8

def stringOfBytes (bytes : Bytes) : Except Error String :=
  match String.fromUTF8? ⟨bytes.toArray⟩ with
  | some text => .ok text
  | none => .error (.custom "invalid string")

def stringCodec : Codec String := Codec.bytes.tryMap Discovery.stringBytes stringOfBytes

/-- A derived decoder: the fields make up the whole list. -/
def derived {α : Type} (fields : Codec α) : Codec α := fields.sized .listLengthMismatch

namespace EthVersion

def ofU8 (value : UInt8) : Except Error EthVersion :=
  match tryFrom value.toNat with
  | some version => .ok version
  | none => .error (.custom "Unknown eth version")

def codec : Codec EthVersion := u8Codec.tryMap (fun version => UInt8.ofNat version.toU8) ofU8

end EthVersion

def Capability.codec : Codec Capability :=
  derived ((stringCodec.pair u64Codec).map (fun cap => (cap.name, cap.version))
    fun raw => ⟨raw.1, raw.2⟩)

namespace RequestPair

def codec {T : Type} (message : Codec T) : Codec (RequestPair T) :=
  ((u64Codec.pair message).map (fun pair => (pair.requestId, pair.message))
    fun raw => ⟨raw.1, raw.2⟩).sized fun _ _ => .unexpectedLength

end RequestPair

namespace Wire

/-! ## Messages of the base protocol -/

structure Hello where
  protocolVersion : UInt64
  clientVersion : String
  capabilities : List Capability
  listenPort : UInt16
  id : FixedBytes 64
  deriving DecidableEq

def Hello.codec : Codec Hello :=
  derived ((u64Codec.pair (stringCodec.pair (Capability.codec.vec.pair
    (u16Codec.pair (Codec.fixed 64))))).map
      (fun hello => (hello.protocolVersion, hello.clientVersion, hello.capabilities,
        hello.listenPort, hello.id))
      fun raw => ⟨raw.1, raw.2.1, raw.2.2.1, raw.2.2.2.1, raw.2.2.2.2⟩)

inductive DisconnectReason where
  | disconnectRequested | tcpSubsystemError | protocolBreach | uselessPeer | tooManyPeers
  | alreadyConnected | incompatibleP2PProtocolVersion | nullNodeIdentity | clientQuitting
  | unexpectedHandshakeIdentity | connectedToSelf | pingTimeout | subprotocolSpecific | unknown
  deriving DecidableEq

namespace DisconnectReason

def toU8 : DisconnectReason → UInt8
  | .disconnectRequested => 0x00
  | .tcpSubsystemError => 0x01
  | .protocolBreach => 0x02
  | .uselessPeer => 0x03
  | .tooManyPeers => 0x04
  | .alreadyConnected => 0x05
  | .incompatibleP2PProtocolVersion => 0x06
  | .nullNodeIdentity => 0x07
  | .clientQuitting => 0x08
  | .unexpectedHandshakeIdentity => 0x09
  | .connectedToSelf => 0x0a
  | .pingTimeout => 0x0b
  | .subprotocolSpecific => 0x10
  | .unknown => 0xff

def ofU64 (value : Nat) : DisconnectReason :=
  match value with
  | 0x00 => .disconnectRequested
  | 0x01 => .tcpSubsystemError
  | 0x02 => .protocolBreach
  | 0x03 => .uselessPeer
  | 0x04 => .tooManyPeers
  | 0x05 => .alreadyConnected
  | 0x06 => .incompatibleP2PProtocolVersion
  | 0x07 => .nullNodeIdentity
  | 0x08 => .clientQuitting
  | 0x09 => .unexpectedHandshakeIdentity
  | 0x0a => .connectedToSelf
  | 0x0b => .pingTimeout
  | 0x10 => .subprotocolSpecific
  | _ => .unknown

instance instToStringDisconnectReason : ToString DisconnectReason where
  toString
    | .disconnectRequested => "disconnect requested"
    | .tcpSubsystemError => "TCP sub-system error"
    | .protocolBreach => "breach of protocol"
    | .uselessPeer => "useless peer"
    | .tooManyPeers => "too many peers"
    | .alreadyConnected => "already connected"
    | .incompatibleP2PProtocolVersion => "incompatible P2P protocol version"
    | .nullNodeIdentity => "null node identity received"
    | .clientQuitting => "client quitting"
    | .unexpectedHandshakeIdentity => "unexpected identity in handshake"
    | .connectedToSelf => "identity is the same as this node"
    | .pingTimeout => "ping timeout"
    | .subprotocolSpecific => "some other reason specific to a subprotocol"
    | .unknown => "unknown"

/-- The reason, alone or first in a list. -/
def decodeCode (buf : Bytes) : Except Failure (DisconnectReason × Bytes) := do
  let (reasonCode, buf) ← u8Codec.decode buf
  return (ofU64 reasonCode.toNat, buf)

/-- Written as a list, read as a list or as a single byte. -/
def codec : Codec DisconnectReason where
  encode reason := u8Codec.vec.encode [reason.toU8]
  decode buf :=
    match buf with
    | [] => .error (.refused .inputTooShort)
    | first :: _ =>
        if 0x80 ≤ first.toNat then do
          let (header, buf) ← refuse (Header.decode buf)
          if !header.list then .error (.refused .unexpectedString)
          else if header.payloadLength = 0 then return (.disconnectRequested, buf)
          else decodeCode buf
        else decodeCode buf
  length reason := u8Codec.vec.length [reason.toU8]

end DisconnectReason

/-- `Ping` or `Pong`. -/
def emptyList : Codec Unit := derived Codec.nothing

/-! ## Messages of the eth protocol -/

structure ForkId where
  hash : FixedBytes 4
  next : UInt64
  deriving DecidableEq

def ForkId.codec : Codec ForkId :=
  derived (((Codec.fixed 4).pair u64Codec).map (fun forkId => (forkId.hash, forkId.next))
    fun raw => ⟨raw.1, raw.2⟩)

structure Status where
  version : EthVersion
  chain : UInt64
  totalDifficulty : BitVec 256
  blockhash : B256
  genesis : B256
  forkid : ForkId
  deriving DecidableEq

def Status.codec : Codec Status :=
  derived ((EthVersion.codec.pair (u64Codec.pair (u256Codec.pair (b256Codec.pair
    (b256Codec.pair ForkId.codec))))).map
      (fun status => (status.version, status.chain, status.totalDifficulty, status.blockhash,
        status.genesis, status.forkid))
      fun raw => ⟨raw.1, raw.2.1, raw.2.2.1, raw.2.2.2.1, raw.2.2.2.2.1, raw.2.2.2.2.2⟩)

structure StatusEth69 where
  version : EthVersion
  chain : UInt64
  genesis : B256
  forkid : ForkId
  earliest : UInt64
  latest : UInt64
  blockhash : B256
  deriving DecidableEq

def StatusEth69.codec : Codec StatusEth69 :=
  derived ((EthVersion.codec.pair (u64Codec.pair (b256Codec.pair (ForkId.codec.pair
    (u64Codec.pair (u64Codec.pair b256Codec)))))).map
      (fun status => (status.version, status.chain, status.genesis, status.forkid,
        status.earliest, status.latest, status.blockhash))
      fun raw => ⟨raw.1, raw.2.1, raw.2.2.1, raw.2.2.2.1, raw.2.2.2.2.1, raw.2.2.2.2.2.1,
        raw.2.2.2.2.2.2⟩)

structure BlockHashAndNumber where
  hash : B256
  number : UInt64
  deriving DecidableEq

def BlockHashAndNumber.codec : Codec BlockHashAndNumber :=
  derived ((b256Codec.pair u64Codec).map (fun block => (block.hash, block.number))
    fun raw => ⟨raw.1, raw.2⟩)

inductive BlockHashOrNumber where
  | hash (hash : B256)
  | number (number : UInt64)
  deriving DecidableEq

namespace BlockHashOrNumber

def decodeNumber (buf : Bytes) : Except Failure (BlockHashOrNumber × Bytes) :=
  (u64Codec.decode buf).map fun read => (.number read.1, read.2)

/-- A string of 32 bytes is a hash. -/
def codec : Codec BlockHashOrNumber where
  encode
    | .hash blockHash => b256Codec.encode blockHash
    | .number n => u64Codec.encode n
  decode buf :=
    match buf with
    | [] => .error (.refused .inputTooShort)
    | first :: _ =>
        if first = 0xa0 then
          match b256Codec.decode buf with
          | .ok (blockHash, rest) => .ok (.hash blockHash, rest)
          | .error _ => decodeNumber buf
        else decodeNumber buf
  length
    | .hash blockHash => b256Codec.length blockHash
    | .number n => u64Codec.length n

end BlockHashOrNumber

structure GetBlockHeaders where
  block : BlockHashOrNumber
  amount : UInt64
  skip : UInt64
  reverse : Bool
  deriving DecidableEq

def GetBlockHeaders.codec : Codec GetBlockHeaders :=
  derived ((BlockHashOrNumber.codec.pair (u64Codec.pair (u64Codec.pair boolCodec))).map
    (fun request => (request.block, request.amount, request.skip, request.reverse))
    fun raw => ⟨raw.1, raw.2.1, raw.2.2.1, raw.2.2.2⟩)

structure BlockRangeUpdate where
  earliest : UInt64
  latest : UInt64
  latestHash : B256
  deriving DecidableEq

def BlockRangeUpdate.codec : Codec BlockRangeUpdate :=
  derived ((u64Codec.pair (u64Codec.pair b256Codec)).map
    (fun update => (update.earliest, update.latest, update.latestHash))
    fun raw => ⟨raw.1, raw.2.1, raw.2.2⟩)

structure NewPooledTransactionHashes where
  types : Bytes
  sizes : List UInt64
  hashes : List B256
  deriving DecidableEq

def NewPooledTransactionHashes.codec : Codec NewPooledTransactionHashes :=
  derived ((Codec.bytes.pair (u64Codec.vec.pair b256Codec.vec)).map
    (fun announced => (announced.types, announced.sizes, announced.hashes))
    fun raw => ⟨raw.1, raw.2.1, raw.2.2⟩)

/-! ## Messages of the snap protocol -/

inductive SnapMessageId where
  | getAccountRange | accountRange | getStorageRanges | storageRanges | getByteCodes | byteCodes
  | getTrieNodes | trieNodes
  deriving DecidableEq

namespace SnapMessageId

def toU8 : SnapMessageId → UInt8
  | .getAccountRange => 0x00
  | .accountRange => 0x01
  | .getStorageRanges => 0x02
  | .storageRanges => 0x03
  | .getByteCodes => 0x04
  | .byteCodes => 0x05
  | .getTrieNodes => 0x06
  | .trieNodes => 0x07

def ofU8 (id : UInt8) : Except Error SnapMessageId :=
  match id.toNat with
  | 0x00 => .ok .getAccountRange
  | 0x01 => .ok .accountRange
  | 0x02 => .ok .getStorageRanges
  | 0x03 => .ok .storageRanges
  | 0x04 => .ok .getByteCodes
  | 0x05 => .ok .byteCodes
  | 0x06 => .ok .getTrieNodes
  | 0x07 => .ok .trieNodes
  | _ => .error (.custom "Invalid SnapMessageID")

/-- Written as a number of eight bytes, read as one of a single byte. -/
def codec : Codec SnapMessageId where
  encode id := encodeUint 8 id.toU8.toNat
  decode := (u8Codec.tryMap toU8 ofU8).decode
  length id := uintLength 8 id.toU8.toNat

end SnapMessageId

structure GetAccountRange where
  requestId : UInt64
  root : B256
  origin : B256
  limit : B256
  responseBytes : UInt64
  deriving DecidableEq

def GetAccountRange.codec : Codec GetAccountRange :=
  derived ((u64Codec.pair (b256Codec.pair (b256Codec.pair (b256Codec.pair u64Codec)))).map
    (fun msg => (msg.requestId, msg.root, msg.origin, msg.limit, msg.responseBytes))
    fun raw => ⟨raw.1, raw.2.1, raw.2.2.1, raw.2.2.2.1, raw.2.2.2.2⟩)

structure AccountData where
  hash : B256
  body : Bytes
  deriving DecidableEq

def AccountData.codec : Codec AccountData :=
  derived ((b256Codec.pair Codec.bytes).map (fun account => (account.hash, account.body))
    fun raw => ⟨raw.1, raw.2⟩)

structure AccountRange where
  requestId : UInt64
  accounts : List AccountData
  proof : List Bytes
  deriving DecidableEq

def AccountRange.codec : Codec AccountRange :=
  derived ((u64Codec.pair (AccountData.codec.vec.pair Codec.bytes.vec)).map
    (fun msg => (msg.requestId, msg.accounts, msg.proof))
    fun raw => ⟨raw.1, raw.2.1, raw.2.2⟩)

structure GetStorageRanges where
  requestId : UInt64
  root : B256
  accounts : List B256
  origin : Bytes
  limit : Bytes
  responseBytes : UInt64
  deriving DecidableEq

def GetStorageRanges.codec : Codec GetStorageRanges :=
  derived ((u64Codec.pair (b256Codec.pair (b256Codec.vec.pair (Codec.bytes.pair
    (Codec.bytes.pair u64Codec))))).map
      (fun msg => (msg.requestId, msg.root, msg.accounts, msg.origin, msg.limit,
        msg.responseBytes))
      fun raw => ⟨raw.1, raw.2.1, raw.2.2.1, raw.2.2.2.1, raw.2.2.2.2.1, raw.2.2.2.2.2⟩)

structure SlotData where
  hash : B256
  value : Bytes
  deriving DecidableEq

def SlotData.codec : Codec SlotData :=
  derived ((b256Codec.pair Codec.bytes).map (fun slot => (slot.hash, slot.value))
    fun raw => ⟨raw.1, raw.2⟩)

structure StorageRanges where
  requestId : UInt64
  slots : List (List SlotData)
  proof : List Bytes
  deriving DecidableEq

def StorageRanges.codec : Codec StorageRanges :=
  derived ((u64Codec.pair (SlotData.codec.vec.vec.pair Codec.bytes.vec)).map
    (fun msg => (msg.requestId, msg.slots, msg.proof))
    fun raw => ⟨raw.1, raw.2.1, raw.2.2⟩)

structure GetByteCodes where
  requestId : UInt64
  hashes : List B256
  responseBytes : UInt64
  deriving DecidableEq

def GetByteCodes.codec : Codec GetByteCodes :=
  derived ((u64Codec.pair (b256Codec.vec.pair u64Codec)).map
    (fun msg => (msg.requestId, msg.hashes, msg.responseBytes))
    fun raw => ⟨raw.1, raw.2.1, raw.2.2⟩)

structure ByteCodes where
  requestId : UInt64
  codes : List Bytes
  deriving DecidableEq

def ByteCodes.codec : Codec ByteCodes :=
  derived ((u64Codec.pair Codec.bytes.vec).map (fun msg => (msg.requestId, msg.codes))
    fun raw => ⟨raw.1, raw.2⟩)

structure GetTrieNodes where
  requestId : UInt64
  root : B256
  paths : List (List Bytes)
  responseBytes : UInt64
  deriving DecidableEq

def GetTrieNodes.codec : Codec GetTrieNodes :=
  derived ((u64Codec.pair (b256Codec.pair (Codec.bytes.vec.vec.pair u64Codec))).map
    (fun msg => (msg.requestId, msg.root, msg.paths, msg.responseBytes))
    fun raw => ⟨raw.1, raw.2.1, raw.2.2.1, raw.2.2.2⟩)

structure TrieNodes where
  requestId : UInt64
  nodes : List Bytes
  deriving DecidableEq

def TrieNodes.codec : Codec TrieNodes :=
  derived ((u64Codec.pair Codec.bytes.vec).map (fun msg => (msg.requestId, msg.nodes))
    fun raw => ⟨raw.1, raw.2⟩)

/-! ## All of them -/

/-- The kinds of messages that are read strictly. -/
inductive Format where
  | hello | ping | pong | status | statusEth69 | newBlockHashes | getBlockHeaders
  | getBlockBodies | newPooledTransactionHashes | newPooledTransactionHashes66
  | getPooledTransactions | getReceipts | getNodeData | nodeData | blockRangeUpdate
  | snapMessageId | getAccountRange | accountRange | getStorageRanges | storageRanges
  | getByteCodes | byteCodes | getTrieNodes | trieNodes
  | requestPair (message : Format)

namespace Format

/-- What a message of a kind consists of. -/
def Message : Format → Type
  | .hello => Hello
  | .ping | .pong => Unit
  | .status => Status
  | .statusEth69 => StatusEth69
  | .newBlockHashes => List BlockHashAndNumber
  | .getBlockHeaders => GetBlockHeaders
  | .getBlockBodies | .newPooledTransactionHashes66 | .getPooledTransactions | .getReceipts
  | .getNodeData => List B256
  | .newPooledTransactionHashes => NewPooledTransactionHashes
  | .nodeData => List Bytes
  | .blockRangeUpdate => BlockRangeUpdate
  | .snapMessageId => SnapMessageId
  | .getAccountRange => GetAccountRange
  | .accountRange => AccountRange
  | .getStorageRanges => GetStorageRanges
  | .storageRanges => StorageRanges
  | .getByteCodes => GetByteCodes
  | .byteCodes => ByteCodes
  | .getTrieNodes => GetTrieNodes
  | .trieNodes => TrieNodes
  | .requestPair message => RequestPair message.Message

def codec : (format : Format) → Codec format.Message
  | .hello => Hello.codec
  | .ping | .pong => emptyList
  | .status => Status.codec
  | .statusEth69 => StatusEth69.codec
  | .newBlockHashes => BlockHashAndNumber.codec.vec
  | .getBlockHeaders => GetBlockHeaders.codec
  | .getBlockBodies | .newPooledTransactionHashes66 | .getPooledTransactions | .getReceipts
  | .getNodeData => b256Codec.vec
  | .newPooledTransactionHashes => NewPooledTransactionHashes.codec
  | .nodeData => Codec.bytes.vec
  | .blockRangeUpdate => BlockRangeUpdate.codec
  | .snapMessageId => SnapMessageId.codec
  | .getAccountRange => GetAccountRange.codec
  | .accountRange => AccountRange.codec
  | .getStorageRanges => GetStorageRanges.codec
  | .storageRanges => StorageRanges.codec
  | .getByteCodes => GetByteCodes.codec
  | .byteCodes => ByteCodes.codec
  | .getTrieNodes => GetTrieNodes.codec
  | .trieNodes => TrieNodes.codec
  | .requestPair message => RequestPair.codec message.codec

end Format

end Wire

end WasixEth.P2p
