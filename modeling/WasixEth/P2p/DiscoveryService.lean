import WasixEth.Lib.DashMap
import WasixEth.Lib.Table
import WasixEth.P2p.Discovery
import Mathlib.Data.List.Sort

/-! # The discovery service

What a node does with the packets that reach its socket. It pings the nodes it
hears of, files who has answered a ping as bonded and answers the questions of
bonded nodes. Anyone may send anything from any address.
-/

namespace WasixEth.Discovery

open Rlp

abbrev NodeId := FixedBytes 64

structure SocketAddr where
  ip : IpAddr
  port : UInt16
  deriving DecidableEq

/-! ## The routing table -/

structure NodeRecord where
  id : NodeId
  endpoint : NodeEndpoint
  lastSeen : Nat

def NodeRecord.addr (record : NodeRecord) : SocketAddr :=
  ⟨record.endpoint.ip, record.endpoint.udpPort⟩

structure RoutingTable where
  localId : NodeId
  buckets : List (List NodeRecord)

namespace RoutingTable

variable [Keccak256]

def maxBucketSize : Nat := 16

def new (localId : NodeId) : RoutingTable := ⟨localId, List.replicate 256 []⟩

/-- The exclusive or of the hashes of two ids. -/
def distance (id id' : NodeId) : Bytes :=
  List.zipWith (· ^^^ ·) (keccak256 id.bytes).bytes (keccak256 id'.bytes).bytes

def distanceLog2 (table : RoutingTable) (id : NodeId) : Option Nat :=
  ((distance table.localId id).zipIdx.find? (·.1 ≠ 0)).map fun (byte, i) =>
    255 - (i * 8 + (7 - byte.toNat.log2))

/-- With the record to be pinged if the bucket is full. -/
def addNode (table : RoutingTable) (now : Nat) (id : NodeId) (endpoint : NodeEndpoint) :
    RoutingTable × Option NodeRecord :=
  if id = table.localId then (table, none)
  else
    match table.distanceLog2 id with
    | none => (table, none)
    | some index =>
        let bucket := table.buckets.getD index []
        let updated := bucket.filter (·.id ≠ id) ++ [⟨id, endpoint, now⟩]
        if bucket.any (·.id = id) ∨ bucket.length < maxBucketSize then
          ({ table with buckets := table.buckets.set index updated }, none)
        else (table, bucket.head?)

def removeNode (table : RoutingTable) (id : NodeId) : RoutingTable :=
  match table.distanceLog2 id with
  | none => table
  | some index =>
      { table with buckets := table.buckets.modify index (·.filter (·.id ≠ id)) }

def closestNodes (table : RoutingTable) (target : NodeId) (count : Nat) : List NodeRecord :=
  (table.buckets.flatten.mergeSort fun a b => distance target a.id ≤ distance target b.id).take
    count

end RoutingTable

/-! ## The service -/

/-- What the clocks show: the seconds since the epoch, and those of the monotonic
clock. -/
structure Clock where
  now : Nat
  instant : Nat

def Clock.expiration (clock : Clock) : UInt64 := .ofNat (clock.now + 60)

/-- `network` tells which calls of `send_to` return an error. -/
structure DiscoveryV4Service (SigningKey : Type) where
  localIdentity : SigningKey
  localEndpoint : NodeEndpoint
  localEnr : Enr
  routingTable : RoutingTable
  bondedPeers : Table NodeId (SocketAddr × Nat)
  pendingPings : DashMap B256 SocketAddr
  pendingFindNodes : DashMap NodeId (SocketAddr × Nat)
  network : Nat → Bool
  sent : List (Packet × SocketAddr)

/-- A configured node, by its enode or only by its address. -/
inductive Bootnode where
  | enode (id : NodeId) (endpoint : NodeEndpoint)
  | address (addr : SocketAddr)

namespace DiscoveryV4Service

variable [Keccak256] {SigningKey : Type} [Ecdsa SigningKey]

def new (localIdentity : SigningKey) (localEndpoint : NodeEndpoint) (localEnr : Enr)
    (network : Nat → Bool) : DiscoveryV4Service SigningKey where
  localIdentity := localIdentity
  localEndpoint := localEndpoint
  localEnr := localEnr
  routingTable := .new (Ecdsa.publicKey localIdentity)
  bondedPeers := ∅
  pendingPings := ∅
  pendingFindNodes := ∅
  network := network
  sent := []

/-- With the outcome: an error keeps a handler from going on. -/
def sendPacket (service : DiscoveryV4Service SigningKey) (packet : Packet) (addr : SocketAddr) :
    DiscoveryV4Service SigningKey × Bool :=
  ({ service with sent := service.sent ++ [(packet, addr)] },
    service.network service.sent.length)

def isBonded (service : DiscoveryV4Service SigningKey) (clock : Clock) (id : NodeId) :
    DiscoveryV4Service SigningKey × Bool :=
  match service.bondedPeers.get id with
  | none => (service, false)
  | some (_, time) =>
      if clock.instant - time < 24 * 3600 then (service, true)
      else ({ service with bondedPeers := service.bondedPeers.erase id }, false)

def ping (service : DiscoveryV4Service SigningKey) (clock : Clock) (addr : SocketAddr) : Ping where
  version := 4
  fromEndpoint := service.localEndpoint
  toEndpoint := ⟨addr.ip, addr.port, 0⟩
  expiration := clock.expiration
  enrSeq := some service.localEnr.seq

def pingNode (service : DiscoveryV4Service SigningKey) (clock : Clock) (addr : SocketAddr) :
    DiscoveryV4Service SigningKey :=
  let packet := Packet.ping (service.ping clock addr)
  let hash := (RawPacket.new packet service.localIdentity).hash
  (sendPacket { service with pendingPings := service.pendingPings.insert hash addr }
    packet addr).1

def sendFindNode (service : DiscoveryV4Service SigningKey) (clock : Clock) (addr : SocketAddr)
    (target : NodeId) : DiscoveryV4Service SigningKey :=
  (sendPacket { service with
      pendingFindNodes := service.pendingFindNodes.insert target (addr, clock.instant) }
    (.findNode ⟨target, clock.expiration⟩) addr).1

def addNodeToTable (service : DiscoveryV4Service SigningKey) (clock : Clock) (id : NodeId)
    (endpoint : NodeEndpoint) : DiscoveryV4Service SigningKey :=
  match service.routingTable.addNode clock.instant id endpoint with
  | (table, none) => { service with routingTable := table }
  | (table, some evicted) =>
      pingNode { service with routingTable := table } clock evicted.addr

/-! ### Packets -/

/-- The sender of a packet, as its signature has it, its hash and its content. -/
def receive (SigningKey : Type) [Ecdsa SigningKey] (data : Bytes) :
    Option (NodeId × B256 × Packet) :=
  match RawPacket.decode data with
  | .error _ => none
  | .ok raw =>
      match raw.recoverPublicKey SigningKey with
      | .error _ => none
      | .ok remoteId =>
          match Packet.decodePayload raw.packetType raw.data with
          | .error _ => none
          | .ok packet => some (remoteId, raw.hash, packet)

def handlePing (service : DiscoveryV4Service SigningKey) (clock : Clock) (received : Ping)
    (source : SocketAddr) (remoteId : NodeId) (hash : B256) : DiscoveryV4Service SigningKey :=
  if received.expiration.toNat ≤ clock.now then service
  else
    let pong : Pong :=
      { toEndpoint := ⟨source.ip, source.port, received.fromEndpoint.tcpPort⟩
        echo := ⟨hash.bytes, hash.length_eq⟩
        expiration := clock.expiration
        enrSeq := some service.localEnr.seq }
    match service.sendPacket (.pong pong) source with
    | (service, false) => service
    | (service, true) =>
        let (service, isBonded) := service.isBonded clock remoteId
        let isPending := service.pendingPings.values.any (· = source)
        if !isBonded && !isPending then service.pingNode clock source else service

def handlePong (service : DiscoveryV4Service SigningKey) (clock : Clock) (pong : Pong)
    (source : SocketAddr) (remoteId : NodeId) : DiscoveryV4Service SigningKey :=
  if pong.expiration.toNat < clock.now then service
  else
    let echo : B256 := ⟨pong.echo.bytes, pong.echo.length_eq⟩
    match service.pendingPings.lookup echo with
    | none => service
    | some expectedAddr =>
        if expectedAddr.ip ≠ source.ip then service
        else
          addNodeToTable { service with
              pendingPings := service.pendingPings.erase echo
              bondedPeers := service.bondedPeers.insert remoteId (source, clock.instant) }
            clock remoteId ⟨source.ip, source.port, pong.toEndpoint.tcpPort⟩

/-- Send packets to an address until one cannot be sent. -/
def sendAll (service : DiscoveryV4Service SigningKey) (addr : SocketAddr) :
    List Packet → DiscoveryV4Service SigningKey
  | [] => service
  | packet :: packets =>
      match service.sendPacket packet addr with
      | (service, false) => service
      | (service, true) => sendAll service addr packets

/-- `chunks(12)` of at most sixteen nodes. -/
def neighborsPackets (clock : Clock) (nodes : List Neighbor) : List Packet :=
  ([nodes.take 12, nodes.drop 12].filter (· ≠ [])).map fun chunk =>
    .neighbors ⟨chunk, clock.expiration⟩

def handleFindNode (service : DiscoveryV4Service SigningKey) (clock : Clock) (find : FindNode)
    (source : SocketAddr) (remoteId : NodeId) : DiscoveryV4Service SigningKey :=
  if find.expiration.toNat ≤ clock.now then service
  else
    match service.bondedPeers.get remoteId with
    | none => service
    | some (expectedAddr, _) =>
        if expectedAddr.ip ≠ source.ip then service
        else
          let nodes := (service.routingTable.closestNodes find.target 16).map fun node =>
            ⟨node.endpoint.ip, node.endpoint.udpPort, node.endpoint.tcpPort, node.id⟩
          service.sendAll source (neighborsPackets clock nodes)

def handleEnrRequest (service : DiscoveryV4Service SigningKey) (clock : Clock)
    (request : ENRRequest) (source : SocketAddr) (remoteId : NodeId) (hash : B256) :
    DiscoveryV4Service SigningKey :=
  if request.expiration.toNat ≤ clock.now then service
  else
    match service.isBonded clock remoteId with
    | (service, false) => service
    | (service, true) =>
        (service.sendPacket (.enrResponse ⟨⟨hash.bytes, hash.length_eq⟩, service.localEnr⟩)
          source).1

def handleNeighbor (clock : Clock) (service : DiscoveryV4Service SigningKey) (node : Neighbor) :
    DiscoveryV4Service SigningKey :=
  let (service, isBonded) := service.isBonded clock node.id
  let service := if isBonded then service else service.pingNode clock ⟨node.ip, node.udpPort⟩
  service.addNodeToTable clock node.id ⟨node.ip, node.udpPort, node.tcpPort⟩

def handleNeighbors (service : DiscoveryV4Service SigningKey) (clock : Clock)
    (neighbors : Neighbors) (source : SocketAddr) : DiscoveryV4Service SigningKey :=
  if neighbors.expiration.toNat < clock.now then service
  else
    let service := { service with
      pendingFindNodes := service.pendingFindNodes.retain fun (_, time) =>
        clock.instant - time < 60 }
    if !service.pendingFindNodes.values.any (·.1.ip = source.ip) then service
    else neighbors.nodes.foldl (handleNeighbor clock) service

def handlePacket (service : DiscoveryV4Service SigningKey) (clock : Clock) (data : Bytes)
    (source : SocketAddr) : DiscoveryV4Service SigningKey :=
  match receive SigningKey data with
  | none => service
  | some (remoteId, hash, packet) =>
      match packet with
      | .ping received => service.handlePing clock received source remoteId hash
      | .pong pong => service.handlePong clock pong source remoteId
      | .findNode find => service.handleFindNode clock find source remoteId
      | .neighbors neighbors => service.handleNeighbors clock neighbors source
      | .enrRequest request => service.handleEnrRequest clock request source remoteId hash
      | .enrResponse _ => service

/-! ### Start and maintenance -/

def bootstrap (clock : Clock) (service : DiscoveryV4Service SigningKey) :
    Bootnode → DiscoveryV4Service SigningKey
  | .enode id endpoint =>
      let addr : SocketAddr := ⟨endpoint.ip, endpoint.udpPort⟩
      let service := { service with
        bondedPeers := service.bondedPeers.insert id (addr, clock.instant) }
      (service.pingNode clock addr).addNodeToTable clock id endpoint
  | .address addr => service.pingNode clock addr

def start (service : DiscoveryV4Service SigningKey) (clock : Clock) (bootnodes : List Bootnode) :
    DiscoveryV4Service SigningKey :=
  bootnodes.foldl (bootstrap clock) service

/-- The worker's visit to one node. -/
def visit (service : DiscoveryV4Service SigningKey) (clock : Clock) (node : NodeRecord) :
    DiscoveryV4Service SigningKey :=
  if 3600 < clock.instant - node.lastSeen then
    { service with routingTable := service.routingTable.removeNode node.id }
  else
    (service.pingNode clock node.addr).sendFindNode clock node.addr
      (Ecdsa.publicKey service.localIdentity)

/-- A packet arrives, or the worker gets to the next of the nodes that it found
in the table. -/
inductive Event where
  | packet (clock : Clock) (data : Bytes) (source : SocketAddr)
  | visit (clock : Clock) (node : NodeRecord)

def step (service : DiscoveryV4Service SigningKey) : Event → DiscoveryV4Service SigningKey
  | .packet clock data source => service.handlePacket clock data source
  | .visit clock node => service.visit clock node

def run (service : DiscoveryV4Service SigningKey) (events : List Event) :
    DiscoveryV4Service SigningKey :=
  events.foldl step service

end DiscoveryV4Service

end WasixEth.Discovery
