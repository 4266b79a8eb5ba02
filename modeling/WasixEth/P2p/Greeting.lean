import WasixEth.P2p.ForkId
import WasixEth.P2p.KeyExchange
import WasixEth.P2p.WireMessages

/-! # The greeting

Once the keys are exchanged, both nodes send a hello and then, over the capabilities that
follow from the hellos, the state of their chains. `do_p2p_handshake` and
`do_eth_handshake` of one node, one message read at a time. What a peer sends early is kept
for the session.
-/

namespace WasixEth.P2p.Greeting

open KeyExchange (Failure orError orDecodeError)
open Machine Wire
open Rlp hiding Failure

/-- The other direction of Snappy. -/
class SnappyEncoder where
  compressVec : Bytes → Except String Bytes

export SnappyEncoder (compressVec)

/-! ## The stream -/

/-- An `RlpxStream` above its frames. -/
structure PeerStream where
  remoteId : Option (FixedBytes 64)
  remoteClientVersion : Option String
  sharedCapabilities : List NegotiatedCapability
  msgBuffer : List Message

namespace PeerStream

def rlpx (stream : PeerStream) : RlpxStream where
  codec := none
  sharedCapabilities := stream.sharedCapabilities.map NegotiatedCapability.toSharedCapability
  msgBuffer := stream.msgBuffer
  readBuffer := []
  partialFrame := none

def snappyEnabled (stream : PeerStream) : Bool := stream.rlpx.snappyEnabled

def ethCap (stream : PeerStream) : Option NegotiatedCapability :=
  stream.sharedCapabilities.find? fun c => c.name == "eth"

/-- What becomes of a frame once it is open. -/
def opened [Snappy] (stream : PeerStream) (frame : Message) : Except String Message :=
  stream.rlpx.decompressed frame

variable [SnappyEncoder]

def compressedIf (compressed : Bool) (payload : Bytes) : Except Failure Bytes :=
  if compressed then orError (compressVec payload) else .ok payload

def sendP2p (stream : PeerStream) (payload : Bytes) (id : UInt8) : Except Failure Message := do
  let compressed := stream.snappyEnabled && decide (1 < id.toNat ∧ id.toNat < 16)
  let finalPayload ← compressedIf compressed payload
  return (id, finalPayload)

/-- Only the id zero is sent here, so no sum of an id and an offset leaves the byte. -/
def sendEth (stream : PeerStream) (payload : Bytes) (id : UInt8) : Except Failure Message :=
  match stream.ethCap with
  | none => .error (.error "Eth capability not negotiated")
  | some ethCap => do
      let finalPayload ← compressedIf stream.snappyEnabled payload
      return (id + ethCap.offset, finalPayload)

end PeerStream

/-! ## What a node says of itself -/

/-- The part of the registry that stays the same. -/
structure LocalNode where
  networkId : UInt64
  genesisHash : B256
  chainConfig : ChainConfig
  p2pPort : UInt16
  publicKeyB512 : FixedBytes 64

/-- What the chain manager and the database answer when they are asked. -/
structure ChainView where
  headHash : B256
  headNumber : UInt64
  headTd : Option (BitVec 256)
  headTimestamp : Option UInt64
  genesisTimestamp : Option UInt64
  earliest : Option UInt64

namespace ChainView

def head (view : ChainView) : WasixEth.ForkId.Head where
  number := view.headNumber.toNat
  time := (view.headTimestamp.getD 0).toNat

def genesisTime (view : ChainView) : Nat := (view.genesisTimestamp.getD 0).toNat

end ChainView

/-- The chain may go on between two questions, so each has its own answer. -/
abbrev Views := Nat → ChainView

def wireForkId (forkId : WasixEth.ForkId) : Wire.ForkId where
  hash := ⟨beBytes 4 forkId.hash.toNat, length_beBytes 4 _⟩
  next := UInt64.ofNat forkId.next

def readForkId (forkId : Wire.ForkId) : WasixEth.ForkId where
  hash := UInt32.ofNat (fromBytes forkId.hash.bytes)
  next := forkId.next.toNat

namespace LocalNode

def getForkId (node : LocalNode) (view : ChainView) : Wire.ForkId :=
  wireForkId (.new node.genesisHash node.chainConfig view.head view.genesisTime)

def createLocalHello (node : LocalNode) : Hello where
  protocolVersion := 5
  clientVersion := "wasix-eth/v0.1.0"
  capabilities := localCapabilities
  listenPort := node.p2pPort
  id := node.publicKeyB512

end LocalNode

inductive StatusMessage where
  | legacy (status : Status)
  | eth69 (status : StatusEth69)
  deriving DecidableEq

namespace StatusMessage

def encode : StatusMessage → Bytes
  | .legacy status => Status.codec.encode status
  | .eth69 status => StatusEth69.codec.encode status

def forkid : StatusMessage → Wire.ForkId
  | .legacy status => status.forkid
  | .eth69 status => status.forkid

def genesis : StatusMessage → B256
  | .legacy status => status.genesis
  | .eth69 status => status.genesis

end StatusMessage

def createLocalStatus (node : LocalNode) (stream : PeerStream) (views : Views) : StatusMessage :=
  let negotiatedVersionU8 := (stream.ethCap.map fun c => c.version).getD 68
  let negotiatedVersion := (EthVersion.tryFrom negotiatedVersionU8).getD .eth68
  if negotiatedVersion.isEth69OrNewer then
    .eth69 {
      version := negotiatedVersion
      chain := node.networkId
      genesis := node.genesisHash
      forkid := node.getForkId (views 2)
      earliest := (views 3).earliest.getD 0
      latest := (views 0).headNumber
      blockhash := (views 0).headHash }
  else
    .legacy {
      version := negotiatedVersion
      chain := node.networkId
      totalDifficulty := (views 0).headTd.getD 0
      blockhash := (views 0).headHash
      genesis := node.genesisHash
      forkid := node.getForkId (views 1) }

/-! ## What it makes of the other -/

/-- Newer versions fall back on the older status. -/
def readStatus (version : Nat) (payload : Bytes) : Except Failure StatusMessage :=
  let legacy := (orDecodeError (Status.codec.decode payload)).map fun read =>
    StatusMessage.legacy read.1
  match EthVersion.tryFrom version with
  | none => .error (.error "Invalid eth version")
  | some ethVersion =>
      match ethVersion with
      | .eth64 | .eth65 | .eth66 | .eth67 | .eth68 => legacy
      | _ =>
          match StatusEth69.codec.decode payload with
          | .ok (status, _) => .ok (.eth69 status)
          | .error (.refused _) => legacy
          | .error .panic => .error .panic

def judgeStatus (node : LocalNode) (view : ChainView) (remoteStatus : StatusMessage) :
    Except Failure Unit :=
  if remoteStatus.genesis ≠ node.genesisHash then
    .error (.error (s!"Remote genesis hash mismatch: expected {node.genesisHash}, " ++
      s!"got {remoteStatus.genesis}"))
  else
    match (readForkId remoteStatus.forkid).validate node.genesisHash node.chainConfig view.head
        view.genesisTime with
    | .error e => .error (.error s!"ForkId validation failed: {e}")
    | .ok () => .ok ()

/-! ## The two loops -/

/-- The messages that were read and are for later are in `temp`. -/
inductive Stage where
  | awaitingHello (temp : List Message)
  | awaitingStatus (offset : UInt8) (version : Nat) (temp : List Message)
  | done (remoteStatus : StatusMessage)
  | failed (failure : Failure)

structure Greeter where
  stream : PeerStream
  stage : Stage
  sent : List Message

namespace Greeter

def fail (greeter : Greeter) (failure : Failure) : Greeter :=
  { greeter with stage := .failed failure }

/-- The frame is written, and the node goes on. -/
def sendThen (greeter : Greeter) (frame : Except Failure Message) (stage : Stage) : Greeter :=
  match frame with
  | .error e => greeter.fail e
  | .ok frame => { greeter with stage, sent := greeter.sent ++ [frame] }

/-- Temporary messages come before those that are in the buffer. -/
def restore (greeter : Greeter) (temp : List Message) : Greeter :=
  { greeter with
    stream := { greeter.stream with msgBuffer := temp ++ greeter.stream.msgBuffer } }

/-- The messages that both loops treat alike. -/
def handleOther [SnappyEncoder] (greeter : Greeter) (during expected : String)
    (await : List Message → Stage) (temp : List Message) (message : Message) : Greeter :=
  let (id, payload) := message
  if id = 0x01 then
    match orDecodeError (DisconnectReason.codec.decode payload) with
    | .error e => greeter.fail e
    | .ok (reason, _) =>
        greeter.fail (.error s!"Received disconnect during {during}: reason={reason}")
  else if id = 0x02 then
    greeter.sendThen (greeter.stream.sendP2p (emptyList.encode ()) 0x03) (await temp)
  else if id = 0x03 then greeter
  else if 0x10 ≤ id.toNat then { greeter with stage := await (temp ++ [message]) }
  else greeter.fail (.error s!"Expected {expected}, got {id}")

section Reading

variable [SnappyEncoder]

/-- `do_eth_handshake` up to its loop. -/
def beginStatus (greeter : Greeter) (localStatus : StatusMessage) : Greeter :=
  match greeter.stream.ethCap with
  | none => greeter.fail (.error "Eth capability not negotiated")
  | some ethCap =>
      greeter.sendThen (greeter.stream.sendEth localStatus.encode 0x00)
        (.awaitingStatus ethCap.offset ethCap.version [])

/-- `do_p2p_handshake` from the hello of the other on, and what comes before the next
message is read. -/
def receiveHello (mode : Mode) (node : LocalNode) (views : Views) (greeter : Greeter)
    (temp : List Message) (payload : Bytes) : Greeter :=
  match orDecodeError (Hello.codec.decode payload) with
  | .error e => greeter.fail e
  | .ok (remoteHello, _) =>
      let restored := greeter.restore temp
      match (negotiate mode node.createLocalHello.capabilities remoteHello.capabilities).run with
      | .error _ => restored.fail .panic
      | .ok (.error e) => restored.fail (.error e)
      | .ok (.ok negotiated) =>
          let stream := { restored.stream with
            remoteId := some remoteHello.id
            remoteClientVersion := some remoteHello.clientVersion
            sharedCapabilities := restored.stream.sharedCapabilities ++ negotiated }
          beginStatus { restored with stream } (createLocalStatus node stream views)

/-- `do_eth_handshake` from the status of the other on. -/
def receiveStatus (node : LocalNode) (view : ChainView) (greeter : Greeter) (version : Nat)
    (temp : List Message) (payload : Bytes) : Greeter :=
  let restored := greeter.restore temp
  match readStatus version payload with
  | .error e => restored.fail e
  | .ok remoteStatus =>
      match judgeStatus node view remoteStatus with
      | .error e => restored.fail e
      | .ok () => { restored with stage := .done remoteStatus }

/-- One turn of a loop, with the message that was read. -/
def onMessage (mode : Mode) (node : LocalNode) (views : Views) (greeter : Greeter)
    (message : Message) : Greeter :=
  match greeter.stage with
  | .awaitingHello temp =>
      if message.1 = 0x00 then receiveHello mode node views greeter temp message.2
      else greeter.handleOther "handshake" "Hello (0x00)" .awaitingHello temp message
  | .awaitingStatus offset version temp =>
      if message.1 = offset then
        receiveStatus node (views 0) greeter version temp message.2
      else
        greeter.handleOther "eth handshake" s!"Eth Status ({offset})"
          (.awaitingStatus offset version) temp message
  | .done _ | .failed _ => greeter

variable [Snappy]

/-- A call of `read_message` with the frames that have come, and the turn it is for. -/
def poll (mode : Mode) (node : LocalNode) (views : Views) (greeter : Greeter)
    (frames : List Message) : Greeter × List Message :=
  match greeter.stage with
  | .done _ | .failed _ => (greeter, frames)
  | .awaitingHello _ | .awaitingStatus .. =>
      match greeter.stream.msgBuffer, frames with
      | message :: rest, frames =>
          (onMessage mode node views
            { greeter with stream := { greeter.stream with msgBuffer := rest } } message, frames)
      | [], [] => (greeter, [])
      | [], frame :: frames =>
          match greeter.stream.opened frame with
          | .error e => (greeter.fail (.error e), frames)
          | .ok message => (onMessage mode node views greeter message, frames)

/-- As many turns as there are views. -/
def run (mode : Mode) (node : LocalNode) :
    List Views → Greeter → List Message → Greeter × List Message
  | [], greeter, frames => (greeter, frames)
  | views :: more, greeter, frames =>
      let (greeter, frames) := poll mode node views greeter frames
      run mode node more greeter frames

end Reading

/-- The hello is sent before anything is read. -/
def begin (node : LocalNode) (remoteId : Option (FixedBytes 64)) : Greeter where
  stream := ⟨remoteId, none, [], []⟩
  stage := .awaitingHello []
  sent := [(0x00, Hello.codec.encode node.createLocalHello)]

end Greeter

end WasixEth.P2p.Greeting
