import WasixEth.Lib.RlpItem
import WasixEth.Lib.Table
import WasixEth.P2p.Stream

/-! # The task of a session

A session sends the requests of this node to one peer and hands each response
to whoever waits for it. The waiters stand in five tables, one for each kind of
request, under the id of the request. Only from version 66 on do the messages
carry that id.
-/

namespace WasixEth.P2p

/-! ## Versions and messages -/

inductive EthVersion where
  | eth64 | eth65 | eth66 | eth67 | eth68 | eth69 | eth70 | eth71 | eth72
  deriving DecidableEq

namespace EthVersion

def toU8 : EthVersion → Nat
  | .eth64 => 64
  | .eth65 => 65
  | .eth66 => 66
  | .eth67 => 67
  | .eth68 => 68
  | .eth69 => 69
  | .eth70 => 70
  | .eth71 => 71
  | .eth72 => 72

def tryFrom : Nat → Option EthVersion
  | 64 => some .eth64
  | 65 => some .eth65
  | 66 => some .eth66
  | 67 => some .eth67
  | 68 => some .eth68
  | 69 => some .eth69
  | 70 => some .eth70
  | 71 => some .eth71
  | 72 => some .eth72
  | _ => none

def hasRequestId (version : EthVersion) : Bool := eth66.toU8 ≤ version.toU8

def supportsGetNodeData (version : EthVersion) : Bool := version.toU8 < eth67.toU8

def supportsReceipts (_ : EthVersion) : Bool := true

@[simp] theorem tryFrom_toU8 (version : EthVersion) : tryFrom version.toU8 = some version := by
  cases version <;> rfl

end EthVersion

inductive EthMessageId where
  | status | newBlockHashes | transactions | getBlockHeaders | blockHeaders | getBlockBodies
  | blockBodies | newBlock | newPooledTransactionHashes | getPooledTransactions
  | pooledTransactions | getNodeData | nodeData | getReceipts | receipts | blockRangeUpdate
  | getBlockAccessLists | blockAccessLists | getCells | cells
  | other (value : UInt8)
  deriving DecidableEq

namespace EthMessageId

def toU8 : EthMessageId → UInt8
  | .status => 0x00
  | .newBlockHashes => 0x01
  | .transactions => 0x02
  | .getBlockHeaders => 0x03
  | .blockHeaders => 0x04
  | .getBlockBodies => 0x05
  | .blockBodies => 0x06
  | .newBlock => 0x07
  | .newPooledTransactionHashes => 0x08
  | .getPooledTransactions => 0x09
  | .pooledTransactions => 0x0a
  | .getNodeData => 0x0d
  | .nodeData => 0x0e
  | .getReceipts => 0x0f
  | .receipts => 0x10
  | .blockRangeUpdate => 0x11
  | .getBlockAccessLists => 0x12
  | .blockAccessLists => 0x13
  | .getCells => 0x14
  | .cells => 0x15
  | .other value => value

def decode (id : UInt8) : EthMessageId :=
  match id.toNat with
  | 0x00 => .status
  | 0x01 => .newBlockHashes
  | 0x02 => .transactions
  | 0x03 => .getBlockHeaders
  | 0x04 => .blockHeaders
  | 0x05 => .getBlockBodies
  | 0x06 => .blockBodies
  | 0x07 => .newBlock
  | 0x08 => .newPooledTransactionHashes
  | 0x09 => .getPooledTransactions
  | 0x0a => .pooledTransactions
  | 0x0d => .getNodeData
  | 0x0e => .nodeData
  | 0x0f => .getReceipts
  | 0x10 => .receipts
  | 0x11 => .blockRangeUpdate
  | 0x12 => .getBlockAccessLists
  | 0x13 => .blockAccessLists
  | 0x14 => .getCells
  | 0x15 => .cells
  | _ => .other id

theorem toU8_decode (id : UInt8) : (decode id).toU8 = id := by
  unfold decode
  split
  all_goals first
    | rfl
    | next heq => exact (UInt8.toNat_inj.mp heq).symm

end EthMessageId

/-- The kinds of requests. -/
inductive Kind where
  | headers | bodies | pooledTransactions | receipts | nodeData
  deriving DecidableEq

namespace Kind

def requestId : Kind → EthMessageId
  | .headers => .getBlockHeaders
  | .bodies => .getBlockBodies
  | .pooledTransactions => .getPooledTransactions
  | .receipts => .getReceipts
  | .nodeData => .getNodeData

def responseId : Kind → EthMessageId
  | .headers => .blockHeaders
  | .bodies => .blockBodies
  | .pooledTransactions => .pooledTransactions
  | .receipts => .receipts
  | .nodeData => .nodeData

end Kind

/-! ## Codecs -/

structure RequestPair (T : Type) where
  requestId : UInt64
  message : T
  deriving DecidableEq

namespace RequestPair

variable {T : Type}

def encode (encodeMessage : T → Bytes) (pair : RequestPair T) : Bytes :=
  let header : Rlp.Header :=
    { list := true
      payloadLength := Rlp.uintLength 8 pair.requestId.toNat +
        (encodeMessage pair.message).length }
  header.encode ++ (Rlp.encodeUint 8 pair.requestId.toNat ++ encodeMessage pair.message)

def decode (decodeMessage : Bytes → Except Rlp.Error (T × Bytes)) (buf : Bytes) :
    Except Rlp.Error (RequestPair T × Bytes) :=
  match Rlp.Header.decode buf with
  | .error e => .error e
  | .ok (header, buf) =>
      if !header.list then .error .unexpectedString
      else
        let initialLen := buf.length
        match Rlp.decodeInt 8 buf with
        | .error e => .error e
        | .ok (requestId, buf) =>
            match decodeMessage buf with
            | .error e => .error e
            | .ok (message, buf) =>
                if initialLen - buf.length ≠ header.payloadLength then .error .unexpectedLength
                else .ok (⟨UInt64.ofNat requestId, message⟩, buf)

theorem decode_encode {encodeMessage : T → Bytes}
    {decodeMessage : Bytes → Except Rlp.Error (T × Bytes)} (pair : RequestPair T)
    (hlt : (pair.encode encodeMessage).length < 2 ^ 64) (rest : Bytes)
    (hmessage : decodeMessage (encodeMessage pair.message ++ rest) = .ok (pair.message, rest)) :
    decode decodeMessage (pair.encode encodeMessage ++ rest) = .ok (pair, rest) := by
  obtain ⟨requestId, message⟩ := pair
  have hlength : (Rlp.encodeUint 8 requestId.toNat ++ encodeMessage message).length =
      Rlp.uintLength 8 requestId.toNat + (encodeMessage message).length := by
    rw [List.length_append, Rlp.length_encodeUint]
  have hannounces : Rlp.Header.Announces
      ⟨true, Rlp.uintLength 8 requestId.toNat + (encodeMessage message).length⟩
      (Rlp.encodeUint 8 requestId.toNat ++ encodeMessage message) := by
    refine ⟨hlength, ?_, nofun⟩
    simp only [encode, List.length_append, Rlp.length_encodeUint] at hlt
    dsimp only
    omega
  have hheader := Rlp.decode_encode hannounces rest
  have hid : Rlp.decodeInt 8 (Rlp.encodeUint 8 requestId.toNat ++
      (encodeMessage message ++ rest)) = .ok (requestId.toNat, encodeMessage message ++ rest) :=
    Rlp.decodeInt_encodeUint requestId.toNat_lt (by decide) _
  have hconsumed : (Rlp.encodeUint 8 requestId.toNat ++ (encodeMessage message ++ rest)).length -
      rest.length = Rlp.uintLength 8 requestId.toNat + (encodeMessage message).length := by
    rw [← List.append_assoc, List.length_append, hlength, Nat.add_sub_cancel]
  unfold decode encode
  rw [List.append_assoc, hheader, List.append_assoc]
  dsimp only
  rw [hid]
  dsimp only
  rw [hmessage]
  dsimp only
  rw [hconsumed, if_neg (not_not_intro rfl), UInt64.ofNat_toNat]
  rfl

end RequestPair

/-- The items that the responses of each kind are made of. -/
class EthItems where
  Item : Kind → Type
  encodeItem : (kind : Kind) → Item kind → Bytes
  decodeItem : (kind : Kind) → Bytes → Except Rlp.Error (Item kind × Bytes)
  encodeItem_ne_nil : ∀ kind item, encodeItem kind item ≠ []
  decodeItem_encodeItem : ∀ kind item rest, (encodeItem kind item).length < 2 ^ 64 →
    decodeItem kind (encodeItem kind item ++ rest) = .ok (item, rest)

variable [EthItems]

/-- `BlockHeaders`, `BlockBodies`, `PooledTransactions`, `Receipts` or `NodeData`. -/
abbrev Response (kind : Kind) := List (EthItems.Item kind)

namespace Response

variable {kind : Kind}

def encode (response : Response kind) : Bytes :=
  Rlp.encodeList (response.flatMap (EthItems.encodeItem kind))

def decode (kind : Kind) (buf : Bytes) : Except Rlp.Error (Response kind × Bytes) :=
  Rlp.decodeVec (EthItems.decodeItem kind) buf

theorem decode_encode (response : Response kind) (hlt : response.encode.length < 2 ^ 64)
    (rest : Bytes) : decode kind (response.encode ++ rest) = .ok (response, rest) := by
  have hpayload : (response.flatMap (EthItems.encodeItem kind)).length < 2 ^ 64 := by
    rw [encode, Rlp.length_encodeList, Rlp.listLength] at hlt
    omega
  refine Rlp.decodeVec_encodeList (fun item hitem rest => ?_)
    (fun item _ => EthItems.encodeItem_ne_nil kind item) hpayload rest
  refine EthItems.decodeItem_encodeItem kind item rest (Nat.lt_of_le_of_lt ?_ hpayload)
  exact (List.sublist_flatten_of_mem (List.mem_map_of_mem hitem)).length_le

end Response

/-! ## The task -/

structure NegotiatedCapability extends SharedCapability where
  offset : UInt8

/-- What a peer agrees to: the node offers the eth protocol only. -/
def negotiated (version : EthVersion) : List NegotiatedCapability :=
  [⟨⟨"eth", version.toU8⟩, 0x10⟩]

/-- The sending end of a channel for one response. -/
abbrev ResponseTx := Nat

structure Delivery where
  responseTx : ResponseTx
  result : Except String (Σ kind, RequestPair (Response kind))

structure SessionTask where
  sharedCapabilities : List NegotiatedCapability
  ethOffset : UInt8
  pending : Kind → Table UInt64 ResponseTx
  sent : List Message
  delivered : List Delivery

/-- A request carries its message encoded; `send` stands for the announcements
and answers that nobody waits for. -/
inductive SessionRequest where
  | get (kind : Kind) (request : RequestPair Bytes) (responseTx : ResponseTx)
  | send (id : EthMessageId) (payload : Bytes)
  | ping
  | disconnect (payload : Bytes)

namespace SessionTask

def new (sharedCapabilities : List NegotiatedCapability) : SessionTask where
  sharedCapabilities := sharedCapabilities
  ethOffset := ((sharedCapabilities.find? (·.name == "eth")).map (·.offset)).getD 0x10
  pending := fun _ => ∅
  sent := []
  delivered := []

def ethVersion (task : SessionTask) : Option EthVersion :=
  (task.sharedCapabilities.find? (·.name == "eth")).bind fun c => EthVersion.tryFrom c.version

def hasRequestId (task : SessionTask) : Bool :=
  (task.ethVersion.map (·.hasRequestId)).getD false

def supportsGetNodeData (task : SessionTask) : Bool :=
  (task.ethVersion.map (·.supportsGetNodeData)).getD true

/-- `outcome` is what becomes of the write to the socket. -/
def sendRaw (task : SessionTask) (outcome : Except String Unit) (message : Message) :
    SessionTask × Except String Unit :=
  match outcome with
  | .error e => (task, .error e)
  | .ok () => ({ task with sent := task.sent ++ [message] }, .ok ())

def sendEth (task : SessionTask) (outcome : Except String Unit) (payload : Bytes)
    (id : EthMessageId) : SessionTask × Except String Unit :=
  match task.sharedCapabilities.find? (·.name == "eth") with
  | none => (task, .error "Eth capability not negotiated")
  | some ethCap => task.sendRaw outcome (id.toU8 + ethCap.offset, payload)

def deliver (task : SessionTask) (responseTx : ResponseTx)
    (result : Except String (Σ kind, RequestPair (Response kind))) : SessionTask :=
  { task with delivered := task.delivered ++ [⟨responseTx, result⟩] }

def setPending (task : SessionTask) (kind : Kind) (table : Table UInt64 ResponseTx) :
    SessionTask :=
  { task with pending := Function.update task.pending kind table }

def requestPayload (task : SessionTask) (request : RequestPair Bytes) : Bytes :=
  if task.hasRequestId then request.encode id else request.message

/-- The flag says whether the session goes on. -/
def handleRequest (task : SessionTask) (outcome : Except String Unit) :
    SessionRequest → SessionTask × Bool
  | .get kind request responseTx =>
      match task.sendEth outcome (task.requestPayload request) kind.requestId with
      | (task, .error e) => (task.deliver responseTx (.error e), true)
      | (task, .ok ()) =>
          (task.setPending kind ((task.pending kind).insert request.requestId responseTx), true)
  | .send id payload => ((task.sendEth outcome payload id).1, true)
  | .ping => ((task.sendRaw outcome (0x02, Rlp.encodeList [])).1, true)
  | .disconnect payload => ((task.sendRaw outcome (0x01, payload)).1, false)

/-! ### Responses -/

/-- Without an id in the message the response is taken for that of request 0. -/
def decodeResponse (task : SessionTask) (kind : Kind) (payload : Bytes) :
    Option (RequestPair (Response kind)) :=
  if task.hasRequestId then
    match RequestPair.decode (Response.decode kind) payload with
    | .error _ => none
    | .ok (response, _) => some response
  else
    match Response.decode kind payload with
    | .error _ => none
    | .ok (message, _) => some ⟨0, message⟩

def handleResponse (kind : Kind) (task : SessionTask) (payload : Bytes) : SessionTask :=
  match task.decodeResponse kind payload with
  | none => task
  | some response =>
      match (task.pending kind).get response.requestId with
      | none => task
      | some responseTx =>
          (task.setPending kind ((task.pending kind).erase response.requestId)).deliver
            responseTx (.ok ⟨kind, response⟩)

def handleBlockHeaders : SessionTask → Bytes → SessionTask := handleResponse .headers

def handleBlockBodies : SessionTask → Bytes → SessionTask := handleResponse .bodies

def handlePooledTransactions : SessionTask → Bytes → SessionTask :=
  handleResponse .pooledTransactions

def handleReceipts (task : SessionTask) (payload : Bytes) : SessionTask :=
  if (task.ethVersion.map (!·.supportsReceipts)).getD false then task
  else handleResponse .receipts task payload

def handleNodeData : SessionTask → Bytes → SessionTask := handleResponse .nodeData

/-- The messages that are left out here go to the gossip of the node, update
its view of the peer or are ignored; none of them touches a request. -/
def handleEthMessage (task : SessionTask) (ethId : UInt8) (payload : Bytes) : SessionTask :=
  match EthMessageId.decode ethId with
  | .blockHeaders => task.handleBlockHeaders payload
  | .blockBodies => task.handleBlockBodies payload
  | .pooledTransactions => task.handlePooledTransactions payload
  | .receipts => task.handleReceipts payload
  | .nodeData => if task.supportsGetNodeData then task.handleNodeData payload else task
  | _ => task

def handleP2pMessage (task : SessionTask) (outcome : Except String Unit) (id : UInt8) :
    SessionTask × Bool :=
  match id.toNat with
  | 0x01 => (task, false)
  | 0x02 => ((task.sendRaw outcome (0x03, Rlp.encodeList [])).1, true)
  | _ => (task, true)

def handleMessage (task : SessionTask) (outcome : Except String Unit) (message : Message) :
    SessionTask × Bool :=
  if message.1 < task.ethOffset then task.handleP2pMessage outcome message.1
  else (task.handleEthMessage (message.1 - task.ethOffset) message.2, true)

/-! ### Runs -/

/-- What the loop of a session waits for, with the outcome of the write that it
may lead to. -/
inductive Event where
  | request (request : SessionRequest)
  | tick
  | message (message : Message)

def step (task : SessionTask) (outcome : Except String Unit) : Event → SessionTask × Bool
  | .request request => task.handleRequest outcome request
  | .tick => ((task.sendRaw outcome (0x02, Rlp.encodeList [])).1, true)
  | .message message => task.handleMessage outcome message

def run (task : SessionTask) : List (Except String Unit × Event) → SessionTask
  | [] => task
  | (outcome, event) :: events =>
      match task.step outcome event with
      | (task, false) => task
      | (task, true) => run task events

end SessionTask

end WasixEth.P2p
