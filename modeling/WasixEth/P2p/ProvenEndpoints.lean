import WasixEth.P2p.DiscoveryService
import WasixEth.P2p.PacketRoundTrip

/-! # Answers to proven endpoints

A node has proven its endpoint once a Pong that echoes a Ping has come from
there under its signature. A FindNode is answered only at the endpoint under
which its sender is bonded, an ENRRequest wherever it says it comes from. As
long as those too come from there, every answer goes to a proven endpoint.
-/

namespace WasixEth.Discovery

open DiscoveryV4Service

/-- The packets that a node sends to those who ask. -/
def Packet.IsAnswer : Packet → Prop
  | .neighbors _ => True
  | .enrResponse _ => True
  | _ => False

instance : DecidablePred Packet.IsAnswer
  | .neighbors _ => isTrue trivial
  | .enrResponse _ => isTrue trivial
  | .ping _ => isFalse id
  | .pong _ => isFalse id
  | .findNode _ => isFalse id
  | .enrRequest _ => isFalse id

theorem Pong.echo_length (pong : Pong) : pong.echo.bytes.length = 32 := pong.echo.length_eq

section Runs

variable [Keccak256] {SigningKey : Type} [Ecdsa SigningKey]

/-- A node as it is configured. -/
structure Setup (SigningKey : Type) where
  localIdentity : SigningKey
  localEndpoint : NodeEndpoint
  localEnr : Enr
  network : Nat → Bool
  clock : Clock
  bootnodes : List Bootnode

namespace Setup

/-- The service at the end of a run. -/
def service (setup : Setup SigningKey) (events : List Event) : DiscoveryV4Service SigningKey :=
  run (start (.new setup.localIdentity setup.localEndpoint setup.localEnr setup.network)
    setup.clock setup.bootnodes) events

/-- The hash of a Ping that a node has sent. -/
def Pinged (setup : Setup SigningKey) (events : List Event) (hash : B256) : Prop :=
  ∃ sending ∈ (setup.service events).sent, ∃ ping, sending.1 = .ping ping ∧
    (RawPacket.new (.ping ping) setup.localIdentity).hash = hash

/-- A Pong has come from an address under the signature of a node, with the hash
of a Ping that had been sent before. -/
def Proven (setup : Setup SigningKey) (events : List Event) (id : NodeId) (ip : IpAddr) : Prop :=
  ∃ before clock data source after hash pong,
    events = before ++ .packet clock data source :: after ∧
    receive SigningKey data = some (id, hash, .pong pong) ∧
    setup.Pinged before ⟨pong.echo.bytes, pong.echo_length⟩ ∧ source.ip = ip

def IsBootnode (setup : Setup SigningKey) (id : NodeId) (ip : IpAddr) : Prop :=
  ∃ endpoint, .enode id endpoint ∈ setup.bootnodes ∧ endpoint.ip = ip

/-- Whatever is answered to a packet is sent to an endpoint that its sender has
proven or that is configured for it. -/
def AnswersProven (setup : Setup SigningKey) (events : List Event) : Prop :=
  ∀ before event after, events = before ++ event :: after →
    ∀ sending ∈ ((setup.service before).step event).sent.drop (setup.service before).sent.length,
      sending.1.IsAnswer →
      ∃ clock data source id hash packet, event = .packet clock data source ∧
        receive SigningKey data = some (id, hash, packet) ∧
        (setup.Proven before id sending.2.ip ∨ setup.IsBootnode id sending.2.ip)

end Setup

/-- An ENRRequest that is answered comes from where its sender is bonded. -/
def FromBonded (service : DiscoveryV4Service SigningKey) : Event → Prop
  | .visit _ _ => True
  | .packet clock data source =>
      ∀ id hash request, receive SigningKey data = some (id, hash, .enrRequest request) →
        clock.now < request.expiration.toNat →
        ∀ addr time, service.bondedPeers.get id = some (addr, time) →
          clock.instant - time < 24 * 3600 → addr.ip = source.ip

/-! ## Quiet steps -/

/-- Nobody becomes bonded and nobody is answered; a Ping is filed only once it is
sent. -/
structure Quiet (service next : DiscoveryV4Service SigningKey) : Prop where
  localIdentity : next.localIdentity = service.localIdentity
  bonded : ∀ id entry, next.bondedPeers.get id = some entry →
    service.bondedPeers.get id = some entry
  sent : ∃ more, next.sent = service.sent ++ more ∧ ∀ sending ∈ more, ¬ sending.1.IsAnswer
  pending : ∀ hash addr, next.pendingPings.lookup hash = some addr →
    service.pendingPings.lookup hash = some addr ∨
      ∃ sending ∈ next.sent, ∃ ping, sending.1 = .ping ping ∧
        (RawPacket.new (.ping ping) service.localIdentity).hash = hash

namespace Quiet

variable {service middle next : DiscoveryV4Service SigningKey}

theorem refl (service : DiscoveryV4Service SigningKey) : Quiet service service where
  localIdentity := rfl
  bonded _ _ h := h
  sent := ⟨[], by simp, by simp⟩
  pending _ _ h := .inl h

theorem trans (hfirst : Quiet service middle) (hsecond : Quiet middle next) :
    Quiet service next where
  localIdentity := hsecond.localIdentity.trans hfirst.localIdentity
  bonded id entry h := hfirst.bonded id entry (hsecond.bonded id entry h)
  sent := by
    obtain ⟨more, hmore, hquiet⟩ := hfirst.sent
    obtain ⟨more', hmore', hquiet'⟩ := hsecond.sent
    refine ⟨more ++ more', by rw [hmore', hmore, List.append_assoc], ?_⟩
    intro sending hsending
    rcases List.mem_append.mp hsending with hsending | hsending
    · exact hquiet sending hsending
    · exact hquiet' sending hsending
  pending hash addr h := by
    obtain ⟨more, hmore, -⟩ := hsecond.sent
    rcases hsecond.pending hash addr h with h | h
    · rcases hfirst.pending hash addr h with h | ⟨sending, hsending, hping⟩
      · exact .inl h
      · exact .inr ⟨sending, hmore ▸ List.mem_append_left _ hsending, hping⟩
    · exact .inr (hfirst.localIdentity ▸ h)

theorem withTable (service : DiscoveryV4Service SigningKey) (table : RoutingTable) :
    Quiet service { service with routingTable := table } :=
  ⟨rfl, fun _ _ h => h, ⟨[], by simp, by simp⟩, fun _ _ h => .inl h⟩

theorem withFindNodes (service : DiscoveryV4Service SigningKey)
    (pending : DashMap NodeId (SocketAddr × Nat)) :
    Quiet service { service with pendingFindNodes := pending } :=
  ⟨rfl, fun _ _ h => h, ⟨[], by simp, by simp⟩, fun _ _ h => .inl h⟩

theorem sendPacket (service : DiscoveryV4Service SigningKey) {packet : Packet}
    (hpacket : ¬ packet.IsAnswer) (addr : SocketAddr) :
    Quiet service (service.sendPacket packet addr).1 :=
  ⟨rfl, fun _ _ h => h, ⟨[(packet, addr)], rfl, by simpa using hpacket⟩, fun _ _ h => .inl h⟩

theorem pingNode (service : DiscoveryV4Service SigningKey) (clock : Clock) (addr : SocketAddr) :
    Quiet service (service.pingNode clock addr) where
  localIdentity := rfl
  bonded _ _ h := h
  sent := ⟨[(.ping (service.ping clock addr), addr)], rfl, by simp [Packet.IsAnswer]⟩
  pending hash addr' h := by
    dsimp only [DiscoveryV4Service.pingNode, DiscoveryV4Service.sendPacket] at h ⊢
    by_cases hhash : hash = (RawPacket.new (.ping (service.ping clock addr))
        service.localIdentity).hash
    · exact .inr ⟨(.ping (service.ping clock addr), addr), by simp, _, rfl, hhash.symm⟩
    · rw [AList.lookup_insert_ne hhash] at h
      exact .inl h

theorem isBonded (service : DiscoveryV4Service SigningKey) (clock : Clock) (id : NodeId) :
    Quiet service (service.isBonded clock id).1 := by
  unfold DiscoveryV4Service.isBonded
  split
  next => exact .refl service
  next =>
      split
      next => exact .refl service
      next =>
          refine ⟨rfl, fun id' entry h => ?_, ⟨[], by simp, by simp⟩, fun _ _ h => .inl h⟩
          dsimp only at h
          rw [Table.get_erase] at h
          split at h
          next => simp at h
          next => exact h

theorem addNodeToTable (service : DiscoveryV4Service SigningKey) (clock : Clock) (id : NodeId)
    (endpoint : NodeEndpoint) : Quiet service (service.addNodeToTable clock id endpoint) := by
  unfold DiscoveryV4Service.addNodeToTable
  split
  next => exact .withTable service _
  next => exact (withTable service _).trans (.pingNode _ _ _)

theorem handlePing (service : DiscoveryV4Service SigningKey) (clock : Clock) (received : Ping)
    (source : SocketAddr) (remoteId : NodeId) (hash : B256) :
    Quiet service (service.handlePing clock received source remoteId hash) := by
  unfold DiscoveryV4Service.handlePing
  split
  next => exact .refl service
  next =>
      have hsend {pong : Pong} {next : DiscoveryV4Service SigningKey} {outcome : Bool}
          (heq : service.sendPacket (.pong pong) source = (next, outcome)) :
          Quiet service next := by
        have hquiet := sendPacket service (show ¬ (Packet.pong pong).IsAnswer from not_false) source
        rw [heq] at hquiet
        exact hquiet
      dsimp only
      split
      next next' heq => exact hsend heq
      next next' heq =>
          have hbonded := (hsend heq).trans (.isBonded next' clock remoteId)
          split
          next => exact hbonded.trans (.pingNode _ _ _)
          next => exact hbonded

theorem handleNeighbor (service : DiscoveryV4Service SigningKey) (clock : Clock)
    (node : Neighbor) : Quiet service (handleNeighbor clock service node) := by
  unfold DiscoveryV4Service.handleNeighbor
  dsimp only
  split
  next => exact (isBonded _ _ _).trans (.addNodeToTable _ _ _ _)
  next => exact ((isBonded _ _ _).trans (.pingNode _ _ _)).trans (.addNodeToTable _ _ _ _)

theorem handleNeighbors (service : DiscoveryV4Service SigningKey) (clock : Clock)
    (neighbors : Neighbors) (source : SocketAddr) :
    Quiet service (service.handleNeighbors clock neighbors source) := by
  have hfold (nodes : List Neighbor) (service : DiscoveryV4Service SigningKey) :
      Quiet service (nodes.foldl (DiscoveryV4Service.handleNeighbor clock) service) := by
    induction nodes generalizing service with
    | nil => exact .refl service
    | cons node nodes ih => exact (Quiet.handleNeighbor service clock node).trans (ih _)
  unfold DiscoveryV4Service.handleNeighbors
  split
  next => exact .refl service
  next =>
      dsimp only
      split
      next => exact .withFindNodes service _
      next => exact (withFindNodes service _).trans (hfold _ _)

theorem visit (service : DiscoveryV4Service SigningKey) (clock : Clock) (node : NodeRecord) :
    Quiet service (service.visit clock node) := by
  unfold DiscoveryV4Service.visit
  split
  next => exact .withTable service _
  next =>
      unfold DiscoveryV4Service.sendFindNode
      have hfind : ¬ (Packet.findNode ⟨Ecdsa.publicKey service.localIdentity,
        clock.expiration⟩).IsAnswer := not_false
      exact ((pingNode service clock node.addr).trans (.withFindNodes _ _)).trans
        (.sendPacket _ hfind _)

end Quiet

/-! ## What a packet can do -/

/-- Who is bonded has answered a Ping. -/
def Bonds (service next : DiscoveryV4Service SigningKey) (clock : Clock) (data : Bytes)
    (source : SocketAddr) : Prop :=
  ∃ id hash pong addr, receive SigningKey data = some (id, hash, .pong pong) ∧
    service.pendingPings.lookup ⟨pong.echo.bytes, pong.echo_length⟩ = some addr ∧
    addr.ip = source.ip ∧
    Quiet { service with
      pendingPings := service.pendingPings.erase ⟨pong.echo.bytes, pong.echo_length⟩
      bondedPeers := service.bondedPeers.insert id (source, clock.instant) } next

/-- Who is answered is bonded, and asks from the endpoint in question or asks
for the record. -/
def Responds (service next : DiscoveryV4Service SigningKey) (clock : Clock) (data : Bytes)
    (source : SocketAddr) : Prop :=
  ∃ id hash packet addr time more,
    receive SigningKey data = some (id, hash, packet) ∧
    service.bondedPeers.get id = some (addr, time) ∧
    (addr.ip = source.ip ∨ ∃ request, packet = .enrRequest request ∧
      clock.now < request.expiration.toNat ∧ clock.instant - time < 24 * 3600) ∧
    next = { service with sent := service.sent ++ more } ∧ ∀ sending ∈ more, sending.2 = source

omit [Keccak256] [Ecdsa SigningKey] in
theorem exists_sendAll (service : DiscoveryV4Service SigningKey) (addr : SocketAddr)
    (packets : List Packet) :
    ∃ more, service.sendAll addr packets = { service with sent := service.sent ++ more } ∧
      ∀ sending ∈ more, sending.2 = addr := by
  induction packets generalizing service with
  | nil => exact ⟨[], by simp [sendAll], by simp⟩
  | cons packet packets ih =>
      rw [sendAll, sendPacket]
      split
      next next' heq =>
          obtain ⟨rfl, -⟩ := Prod.mk.inj heq
          exact ⟨[(packet, addr)], rfl, by simp⟩
      next next' heq =>
          obtain ⟨rfl, -⟩ := Prod.mk.inj heq
          obtain ⟨more, hmore, haddr⟩ :=
            ih { service with sent := service.sent ++ [(packet, addr)] }
          refine ⟨(packet, addr) :: more, ?_, ?_⟩
          · rw [hmore]
            simp
          · simpa using haddr

theorem handlePong_cases (service : DiscoveryV4Service SigningKey) (clock : Clock) {data : Bytes}
    (source : SocketAddr) {id : NodeId} {hash : B256} {pong : Pong}
    (hreceive : receive SigningKey data = some (id, hash, .pong pong)) :
    Quiet service (service.handlePong clock pong source id) ∨
      Bonds service (service.handlePong clock pong source id) clock data source := by
  unfold handlePong
  split
  next => exact .inl (.refl service)
  next =>
      dsimp only
      split
      next => exact .inl (.refl service)
      next addr hlookup =>
          split
          next => exact .inl (.refl service)
          next hip =>
              exact .inr ⟨id, hash, pong, addr, hreceive, hlookup, not_not.mp hip,
                .addNodeToTable _ _ _ _⟩

theorem handleFindNode_cases (service : DiscoveryV4Service SigningKey) (clock : Clock)
    {data : Bytes} (source : SocketAddr) {id : NodeId} {hash : B256} {find : FindNode}
    (hreceive : receive SigningKey data = some (id, hash, .findNode find)) :
    Quiet service (service.handleFindNode clock find source id) ∨
      Responds service (service.handleFindNode clock find source id) clock data source := by
  unfold handleFindNode
  split
  next => exact .inl (.refl service)
  next =>
      split
      next => exact .inl (.refl service)
      next addr time hget =>
          split
          next => exact .inl (.refl service)
          next hip =>
              dsimp only
              obtain ⟨more, hmore, haddr⟩ := exists_sendAll service source _
              exact .inr ⟨id, hash, .findNode find, addr, time, more, hreceive, hget,
                .inl (not_not.mp hip), hmore, haddr⟩

theorem handleEnrRequest_cases (service : DiscoveryV4Service SigningKey) (clock : Clock)
    {data : Bytes} (source : SocketAddr) {id : NodeId} {hash : B256} {request : ENRRequest}
    (hreceive : receive SigningKey data = some (id, hash, .enrRequest request)) :
    Quiet service (service.handleEnrRequest clock request source id hash) ∨
      Responds service (service.handleEnrRequest clock request source id hash) clock data
        source := by
  unfold handleEnrRequest
  split
  next => exact .inl (.refl service)
  next hexpiration =>
      have hquiet := Quiet.isBonded service clock id
      split
      next next' heq =>
          rw [heq] at hquiet
          exact .inl hquiet
      next next' heq =>
          unfold isBonded at heq
          split at heq
          next => simp at heq
          next addr time hget =>
              split at heq
              next htime =>
                  obtain ⟨rfl, -⟩ := Prod.mk.inj heq
                  exact .inr ⟨id, hash, .enrRequest request, addr, time, [(_, source)], hreceive,
                    hget, .inr ⟨request, rfl, Nat.not_le.mp hexpiration, htime⟩, rfl, by simp⟩
              next => simp at heq

theorem handlePacket_cases (service : DiscoveryV4Service SigningKey) (clock : Clock) (data : Bytes)
    (source : SocketAddr) :
    Quiet service (service.handlePacket clock data source) ∨
      Bonds service (service.handlePacket clock data source) clock data source ∨
      Responds service (service.handlePacket clock data source) clock data source := by
  unfold handlePacket
  split
  next => exact .inl (.refl service)
  next id hash packet hreceive =>
      cases packet with
      | ping received => exact .inl (.handlePing _ _ _ _ _ _)
      | pong pong => exact (handlePong_cases service clock source hreceive).imp_right .inl
      | findNode find => exact (handleFindNode_cases service clock source hreceive).imp_right .inr
      | neighbors neighbors => exact .inl (.handleNeighbors _ _ _ _)
      | enrRequest request =>
          exact (handleEnrRequest_cases service clock source hreceive).imp_right .inr
      | enrResponse response => exact .inl (.refl service)

/-! ## Runs -/

/-- Only endpoints that are allowed are bonded, and only Pings that were sent
are filed. -/
structure Filed (key : SigningKey) (allowed : NodeId → IpAddr → Prop)
    (service : DiscoveryV4Service SigningKey) : Prop where
  localIdentity : service.localIdentity = key
  bonded : ∀ id addr time, service.bondedPeers.get id = some (addr, time) → allowed id addr.ip
  pending : ∀ hash addr, service.pendingPings.lookup hash = some addr →
    ∃ sending ∈ service.sent, ∃ ping, sending.1 = .ping ping ∧
      (RawPacket.new (.ping ping) key).hash = hash

namespace Filed

variable {key : SigningKey} {allowed : NodeId → IpAddr → Prop}
  {service next : DiscoveryV4Service SigningKey}

theorem quiet (hfiled : Filed key allowed service) (hquiet : Quiet service next) :
    Filed key allowed next where
  localIdentity := hquiet.localIdentity.trans hfiled.localIdentity
  bonded id addr time hget := hfiled.bonded id addr time (hquiet.bonded id _ hget)
  pending hash addr hlookup := by
    obtain ⟨more, hmore, -⟩ := hquiet.sent
    rcases hquiet.pending hash addr hlookup with hlookup | hping
    · obtain ⟨sending, hsending, hping⟩ := hfiled.pending hash addr hlookup
      exact ⟨sending, hmore ▸ List.mem_append_left _ hsending, hping⟩
    · exact hfiled.localIdentity ▸ hping

theorem mono {allowed' : NodeId → IpAddr → Prop} (hfiled : Filed key allowed service)
    (himp : ∀ id ip, allowed id ip → allowed' id ip) : Filed key allowed' service :=
  ⟨hfiled.localIdentity, fun id addr time hget => himp _ _ (hfiled.bonded id addr time hget),
    hfiled.pending⟩

theorem bond (hfiled : Filed key allowed service) {id : NodeId} {addr : SocketAddr}
    (hallowed : allowed id addr.ip) (time : Nat) :
    Filed key allowed { service with
      bondedPeers := service.bondedPeers.insert id (addr, time) } where
  localIdentity := hfiled.localIdentity
  bonded id' addr' time' hget := by
    dsimp only at hget
    rw [Table.get_insert] at hget
    split at hget
    next hid =>
        obtain ⟨rfl, -⟩ := Prod.mk.inj (Option.some.inj hget)
        exact hid ▸ hallowed
    next => exact hfiled.bonded id' addr' time' hget
  pending := hfiled.pending

theorem unfile (hfiled : Filed key allowed service) (hash : B256) :
    Filed key allowed { service with pendingPings := service.pendingPings.erase hash } where
  localIdentity := hfiled.localIdentity
  bonded := hfiled.bonded
  pending hash' addr hlookup := by
    by_cases hhash : hash' = hash
    · rw [hhash, AList.lookup_erase] at hlookup
      simp at hlookup
    · rw [AList.lookup_erase_ne hhash] at hlookup
      exact hfiled.pending hash' addr hlookup

theorem withSent (hfiled : Filed key allowed service) (more : List (Packet × SocketAddr)) :
    Filed key allowed { service with sent := service.sent ++ more } where
  localIdentity := hfiled.localIdentity
  bonded := hfiled.bonded
  pending hash addr hlookup := by
    obtain ⟨sending, hsending, hping⟩ := hfiled.pending hash addr hlookup
    exact ⟨sending, List.mem_append_left _ hsending, hping⟩

end Filed

namespace Setup

variable (setup : Setup SigningKey)

theorem service_concat (events : List Event) (event : Event) :
    setup.service (events ++ [event]) = (setup.service events).step event := by
  simp [service, run]

theorem filed_start : Filed setup.localIdentity setup.IsBootnode (setup.service []) := by
  have hfold (bootnodes : List Bootnode) (hsubset : bootnodes ⊆ setup.bootnodes)
      (service : DiscoveryV4Service SigningKey)
      (hfiled : Filed setup.localIdentity setup.IsBootnode service) :
      Filed setup.localIdentity setup.IsBootnode
        (bootnodes.foldl (bootstrap setup.clock) service) := by
    induction bootnodes generalizing service with
    | nil => exact hfiled
    | cons bootnode bootnodes ih =>
        obtain ⟨hmem, hsubset⟩ := List.cons_subset.mp hsubset
        refine ih hsubset _ ?_
        cases bootnode with
        | enode id endpoint =>
            have hallowed : setup.IsBootnode id
                (SocketAddr.mk endpoint.ip endpoint.udpPort).ip := ⟨endpoint, hmem, rfl⟩
            exact (hfiled.bond hallowed _).quiet
              ((Quiet.pingNode _ _ _).trans (.addNodeToTable _ _ _ _))
        | address addr => exact hfiled.quiet (.pingNode _ _ _)
  refine hfold setup.bootnodes (List.Subset.refl _) _ ⟨rfl, fun id addr time hget => ?_,
    fun hash addr hlookup => ?_⟩
  · simp [DiscoveryV4Service.new] at hget
  · simp [DiscoveryV4Service.new] at hlookup

/-- The endpoints that are proven or configured. -/
def Allowed (events : List Event) (id : NodeId) (ip : IpAddr) : Prop :=
  setup.Proven events id ip ∨ setup.IsBootnode id ip

variable {setup}

theorem Proven.append {events : List Event} {id : NodeId} {ip : IpAddr}
    (hproven : setup.Proven events id ip) (more : List Event) :
    setup.Proven (events ++ more) id ip := by
  obtain ⟨before, clock, data, source, after, hash, pong, rfl, hrest⟩ := hproven
  exact ⟨before, clock, data, source, after ++ more, hash, pong, by simp, hrest⟩

variable (setup)

/-- In every state of a run the bonded endpoints are proven or configured. -/
theorem filed_service (events : List Event) :
    Filed setup.localIdentity (setup.Allowed events) (setup.service events) := by
  induction events using List.reverseRecOn with
  | nil => exact setup.filed_start.mono fun _ _ => .inr
  | append_singleton events event ih =>
      have hmono := ih.mono fun id ip (hallowed : setup.Allowed events id ip) =>
        show setup.Allowed (events ++ [event]) id ip from hallowed.imp_left (·.append [event])
      rw [service_concat]
      cases event with
      | visit clock node => exact hmono.quiet (.visit _ clock node)
      | packet clock data source =>
          obtain hquiet | ⟨id, hash, pong, addr, hreceive, hlookup, hip, hquiet⟩ |
              ⟨id, hash, packet, addr, time, more, -, -, -, hnext, -⟩ :=
            handlePacket_cases (setup.service events) clock data source
          · exact hmono.quiet hquiet
          · have hproven : setup.Proven (events ++ [.packet clock data source]) id source.ip :=
              ⟨events, clock, data, source, [], hash, pong, rfl, hreceive,
                ih.pending _ addr hlookup, rfl⟩
            exact ((hmono.unfile _).bond (.inl hproven) clock.instant).quiet hquiet
          · rw [step, hnext]
            exact hmono.withSent more

/-- Every answer goes to a proven endpoint in a run in which the requests for the
record come from where their senders are bonded. -/
theorem answersProven_of_fromBonded {events : List Event}
    (hbonded : ∀ before event after, events = before ++ event :: after →
      FromBonded (setup.service before) event) : setup.AnswersProven events := by
  intro before event after hevents sending hsending hanswer
  have hno (hquiet : ∃ more, ((setup.service before).step event).sent =
      (setup.service before).sent ++ more ∧ ∀ sending ∈ more, ¬ sending.1.IsAnswer) : False := by
    obtain ⟨more, hmore, hno⟩ := hquiet
    rw [hmore, List.drop_left] at hsending
    exact hno sending hsending hanswer
  cases event with
  | visit clock node => exact (hno (Quiet.visit _ clock node).sent).elim
  | packet clock data source =>
      obtain hquiet | ⟨id, hash, pong, addr, -, -, -, hquiet⟩ |
          ⟨id, hash, packet, addr, time, more, hreceive, hget, hsource, hnext, haddr⟩ :=
        handlePacket_cases (setup.service before) clock data source
      · exact (hno hquiet.sent).elim
      · exact (hno hquiet.sent).elim
      · have hip : addr.ip = source.ip := by
          rcases hsource with hip | ⟨request, rfl, hexpiration, htime⟩
          · exact hip
          · exact hbonded _ _ _ hevents id hash request hreceive hexpiration addr time hget htime
        rw [step, hnext, List.drop_left] at hsending
        refine ⟨clock, data, source, id, hash, packet, rfl, hreceive, ?_⟩
        rw [haddr sending hsending, ← hip]
        exact (setup.filed_service before).bonded id addr time hget

end Setup

end Runs

/-! ## A run with a replayed request -/

section Replay

open Rlp
open RawPacket (words)

def remoteKey : FixedBytes 32 :=
  ⟨beBytes 32 0x49a7b37aa6f6645917e7b807e9d1c00d4fa71f18343b0d4122a4d2df64dd6fee,
    length_beBytes 32 _⟩

def localId : NodeId := words 0xca634cae0d49acb401d8a4c6b6fe8c55b70d115bf400769cc1400f3258cd3138
  0x7574077f301b421bc84df7266c44e9e6d569fc56be00812904767bf5ccd1fc7f

def remoteId : NodeId := words 0xfda1cff674c90c9a197539fe3dfb53086ace64f83ed7c6eabec741f7f381cc80
  0x3e52ab2cd55d5569bce4347107a310dfd5f88a010cd2ffd1005ca406f1842877

/-- What secp256k1 makes of a Ping of the one key, a Pong and an ENRRequest of
the other: the hash that is signed, the signature and the signer. -/
def recordedSignatures : List (B256 × (FixedBytes 64 × UInt8) × NodeId) :=
  [(B256.ofNat 0x7510a93a26c0a885db254289f74efd2a85d6a681217d744fa57deec4b506ccf7,
      (words 0x39ae60a9e5c5293932bdb74814f3ae14fbdc62069cda1599910ebfab1331c056
        0x55e6b79317c8a86c150c21eae9ace23646229f950b3fa925c6e47eaba6d0a656, 0), localId),
    (B256.ofNat 0xce1eaa3fe12c038af97680e02de835663d036ddf2869adeb3b46fbfbba7e07db,
      (words 0x83091e1d84655d179d074444994f5826fcccfdf9e25fa9f60fc7d8d2dfec84d6
        0x6cfbb715c770209dc438cb598dfe531f3e91d4be46ae0792c193d3a5711941bc, 1), remoteId),
    (B256.ofNat 0xda17903183352f273c463ee86ede37c0625d8f51ba8282b75fcc764ff5c34378,
      (words 0xddf4090801ad7e100f7d2c81abaaa6352d424265c8720b5dab73b0b3afce58e5
        0x1271dcc30d18fc0ffc683b676949dde81fdfd93e4ccf9259d220efbc32eadaf3, 0), remoteId)]

@[reducible] def recordedEcdsa : Ecdsa (FixedBytes 32) where
  signPrehashRecoverable _ hash :=
    ((recordedSignatures.lookup hash).map (·.1)).getD (words 0 0, 0)
  signatureFromSlice _ := .ok ()
  recoverFromPrehash hash signature recoveryId :=
    match recordedSignatures.lookup hash with
    | some (recorded, signer) =>
        if recorded = (signature, recoveryId) then .ok signer else .error "signature error"
    | none => .error "signature error"
  publicKey key := if key = remoteKey then remoteId else localId

attribute [local instance] keccak recordedEcdsa

def ipOf (last : UInt8) : IpAddr := .v4 ⟨[10, 0, 0, last], rfl⟩

def addrOf (last : UInt8) : SocketAddr := ⟨ipOf last, 30303⟩

def endpointOf (last : UInt8) : NodeEndpoint := ⟨ipOf last, 30303, 30303⟩

/-- A node that is to ping one address at the start. -/
def sampleSetup : Setup (FixedBytes 32) where
  localIdentity := RawPacket.sampleKey
  localEndpoint := endpointOf 1
  localEnr := ⟨1, words 0 0, []⟩
  network := fun _ => true
  clock := ⟨1000, 0⟩
  bootnodes := [.address (addrOf 2)]

/-- The node there echoes the Ping. -/
def samplePong : Packet :=
  .pong
    { toEndpoint := endpointOf 1
      echo := ⟨beBytes 32 0xe523edfe001bc8eb03ead632d2f5afe6a2d27035ddd585bfda94c1341906837e,
        length_beBytes 32 _⟩
      expiration := 1060
      enrSeq := some 1 }

def sampleRequest : Packet := .enrRequest ⟨1060⟩

def pongData : Bytes := (RawPacket.new samplePong remoteKey).encode

def requestData : Bytes := (RawPacket.new sampleRequest remoteKey).encode

def pongEvent : Event := .packet ⟨1001, 1⟩ pongData (addrOf 2)

/-- Its request for the record, as it came or replayed from elsewhere. -/
def requestEvent (source : SocketAddr) : Event := .packet ⟨1002, 2⟩ requestData source

theorem answersProven_request :
    sampleSetup.AnswersProven [pongEvent, requestEvent (addrOf 2)] := by
  refine sampleSetup.answersProven_of_fromBonded fun before event after hevents => ?_
  have hpong : (receive (FixedBytes 32) pongData).map (·.2.2) = some samplePong := by
    decide +kernel
  have hrequest : (receive (FixedBytes 32) requestData).map (·.1) = some remoteId := by
    decide +kernel
  have hget : (sampleSetup.service [pongEvent]).bondedPeers.get remoteId = some (addrOf 2, 1) := by
    decide +kernel
  rcases before with _ | ⟨first, _ | ⟨second, rest⟩⟩
  · obtain ⟨rfl, -⟩ := List.cons.inj hevents
    intro id hash request hreceive
    rw [hreceive] at hpong
    cases Option.some.inj hpong
  · obtain ⟨rfl, hrest⟩ := List.cons.inj hevents
    obtain ⟨rfl, -⟩ := List.cons.inj hrest
    intro id hash request hreceive _ addr time hbonded _
    rw [hreceive] at hrequest
    obtain rfl : id = remoteId := Option.some.inj hrequest
    rw [hget] at hbonded
    obtain ⟨rfl, -⟩ := Prod.mk.inj (Option.some.inj hbonded)
    rfl
  · simp at hevents

/-- Replayed from another address, the request is answered there. -/
theorem not_answersProven_replay :
    ¬ sampleSetup.AnswersProven [pongEvent, requestEvent (addrOf 3)] := by
  intro h
  have hsent : ∃ sending ∈ ((sampleSetup.service [pongEvent]).step
      (requestEvent (addrOf 3))).sent.drop (sampleSetup.service [pongEvent]).sent.length,
      sending.1.IsAnswer ∧ sending.2 = addrOf 3 := by
    decide +kernel
  obtain ⟨sending, hsending, hanswer, haddr⟩ := hsent
  obtain ⟨clock, data, source, id, hash, packet, -, -, hallowed⟩ :=
    h [pongEvent] (requestEvent (addrOf 3)) [] rfl sending hsending hanswer
  rw [haddr] at hallowed
  rcases hallowed with hproven | ⟨endpoint, hbootnode, -⟩
  · obtain ⟨before, clock, data, source, after, hash, pong, hevents, -, -, hip⟩ := hproven
    rcases before with _ | ⟨first, rest⟩
    · injection (List.cons.inj hevents).1 with hclock hdata hsource
      rw [← hsource] at hip
      exact absurd hip (by decide)
    · simp at hevents
  · simp [sampleSetup] at hbootnode

end Replay

end WasixEth.Discovery
