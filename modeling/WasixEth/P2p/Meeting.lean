import WasixEth.P2p.EarlyMessages
import WasixEth.P2p.StrictMessages

/-! # Two nodes meet

Both sides of a connection run the greeting of `Greeting`. Each reads the messages of the
other in the order in which they were sent, at any time, and once it is through it may send
messages of the session. The chains of both may grow all the while.
-/

namespace WasixEth.P2p.Greeting

open KeyExchange (Failure orError orDecodeError)
open Machine Wire
open Rlp hiding Failure

deriving instance DecidableEq for SharedCapability, NegotiatedCapability

/-- A node with what has come to it and what it has sent after the greeting. -/
structure Party where
  node : LocalNode
  greeter : Greeter
  unread : List Message
  said : List Message

namespace Party

/-- Everything that was sent. -/
def wrote (party : Party) : List Message := party.greeter.sent ++ party.said

def start (node : LocalNode) (remoteId : Option (FixedBytes 64)) (unread : List Message) :
    Party where
  node := node
  greeter := .begin node remoteId
  unread := unread
  said := []

variable [Snappy] [SnappyEncoder]

def poll (mode : Mode) (party : Party) (views : Views) : Party :=
  let (greeter, unread) := party.greeter.poll mode party.node views party.unread
  { party with greeter, unread }

/-- A message of the session, once there is one. -/
def say (party : Party) (message : Message) : Party :=
  match party.greeter.stage with
  | .done _ => { party with said := party.said ++ [message] }
  | .awaitingHello _ | .awaitingStatus .. | .failed _ => party

/-- What the other has sent since comes in. -/
def receive (party other other' : Party) : Party :=
  { party with unread := party.unread ++ other'.wrote.drop other.wrote.length }

end Party

/-- The side that dialed and the side that was dialed. -/
structure Meeting where
  dialer : Party
  listener : Party

inductive MeetingEvent where
  | poll (dialer : Bool) (views : Views)
  | say (dialer : Bool) (message : Message)

namespace Meeting

variable [Snappy] [SnappyEncoder]

def step (mode : Mode) (meeting : Meeting) : MeetingEvent → Meeting
  | .poll true views =>
      let dialer := meeting.dialer.poll mode views
      ⟨dialer, meeting.listener.receive meeting.dialer dialer⟩
  | .poll false views =>
      let listener := meeting.listener.poll mode views
      ⟨meeting.dialer.receive meeting.listener listener, listener⟩
  | .say true message =>
      let dialer := meeting.dialer.say message
      ⟨dialer, meeting.listener.receive meeting.dialer dialer⟩
  | .say false message =>
      let listener := meeting.listener.say message
      ⟨meeting.dialer.receive meeting.listener listener, listener⟩

def run (mode : Mode) (meeting : Meeting) (events : List MeetingEvent) : Meeting :=
  events.foldl (step mode) meeting

end Meeting

/-! ## What two nodes have in common -/

/-- The view of a chain with this genesis block. -/
def OnChain (genesisTime : Nat) (view : ChainView) : Prop :=
  view.genesisTime = genesisTime ∧ WasixEth.ForkId.ChainHead genesisTime view.head

/-- Two nodes are configured for one chain. Their networks need not have the same id. -/
structure SameChain (genesisTime : Nat) (node other : LocalNode) : Prop where
  genesis_eq : node.genesisHash = other.genesisHash
  config_eq : node.chainConfig = other.chainConfig
  distinct : WasixEth.ForkId.Distinct node.genesisHash
    (WasixEth.ForkId.forkPoints node.chainConfig genesisTime)
  fits : ∀ point ∈ WasixEth.ForkId.forks node.chainConfig, point.value < 2 ^ 64

theorem SameChain.symm {genesisTime : Nat} {node other : LocalNode}
    (h : SameChain genesisTime node other) : SameChain genesisTime other node where
  genesis_eq := h.genesis_eq.symm
  config_eq := h.config_eq.symm
  distinct := h.genesis_eq ▸ h.config_eq ▸ h.distinct
  fits := h.config_eq ▸ h.fits

/-! ## A fork id on the wire -/

theorem next_lt (genesisHash : B256) {config : ChainConfig} (head : WasixEth.ForkId.Head)
    (genesisTime : Nat) (h : ∀ point ∈ WasixEth.ForkId.forks config, point.value < 2 ^ 64) :
    (WasixEth.ForkId.new genesisHash config head genesisTime).next < 2 ^ 64 := by
  unfold WasixEth.ForkId.new
  dsimp only
  generalize Crc32.update Crc32.start genesisHash.bytes = digest
  generalize (0 : Nat) = lastAdded
  generalize WasixEth.ForkId.forks config = forks at h
  induction forks generalizing digest lastAdded with
  | nil => exact Nat.two_pow_pos 64
  | cons point forks ih =>
      have hforks := fun other hmem => h other (List.mem_cons_of_mem point hmem)
      unfold WasixEth.ForkId.newLoop
      split
      next =>
        split
        next => exact ih _ _ hforks
        next => exact ih _ _ hforks
      next => exact h point List.mem_cons_self

theorem readForkId_wireForkId {forkId : WasixEth.ForkId} (h : forkId.next < 2 ^ 64) :
    readForkId (wireForkId forkId) = forkId := by
  obtain ⟨hash, next⟩ := forkId
  have hhash : UInt32.ofNat (fromBytes (beBytes 4 hash.toNat)) = hash := by
    have hlt : hash.toNat < 256 ^ 4 := hash.toNat_lt
    rw [fromBytes, foldl_beBytes, Nat.zero_mul, Nat.zero_add, Nat.mod_eq_of_lt hlt]
    exact UInt32.ofNat_toNat
  have hnext : (UInt64.ofNat next).toNat = next := UInt64.toNat_ofNat_of_lt' h
  unfold readForkId wireForkId
  rw [hhash, hnext]

/-! ## A hello and a status are read back -/

/-- What both sides share. -/
def shared : List NegotiatedCapability := [⟨⟨"eth", 72⟩, 0x10⟩, ⟨⟨"snap", 1⟩, 0x26⟩]

theorem negotiate_local (mode : Mode) :
    (negotiate mode localCapabilities localCapabilities).run = .ok (.ok shared) := by
  cases mode <;> decide +kernel

theorem takes_derived {α : Type} {fields : Codec α} {value : α} {n : Nat}
    (h : fields.Takes value n) : (derived fields).Takes value (9 + n) := h.sized

theorem takes_clientVersion : stringCodec.Takes "wasix-eth/v0.1.0" 17 := by decide +kernel

theorem takes_localCapabilities : Capability.codec.vec.Takes localCapabilities 63 := by
  decide +kernel

theorem decode_hello (node : LocalNode) :
    Hello.codec.decode (Hello.codec.encode node.createLocalHello) =
      .ok (node.createLocalHello, []) := by
  have hprotocol : u64Codec.Takes 5 (8 + 9) := Codec.takes_uint 8 5
  have hport : u16Codec.Takes node.p2pPort (2 + 9) := Codec.takes_uint 2 _
  have hid : (Codec.fixed 64).Takes node.publicKeyB512 (64 + 9) := Codec.takes_fixed _
  have hfields := hprotocol.pair (takes_clientVersion.pair (takes_localCapabilities.pair
    (hport.pair hid)))
  have htakes : Hello.codec.Takes node.createLocalHello
    (9 + (8 + 9 + (17 + (63 + (2 + 9 + (64 + 9)))))) := takes_derived hfields
  exact (Hello.strict.roundTrips (htakes.fits (by decide))).reads_end

theorem takes_status (status : StatusEth69) : StatusEth69.codec.Takes status 191 := by
  have hversion : EthVersion.codec.Takes status.version (1 + 9) := Codec.takes_uint 1 _
  have hchain : u64Codec.Takes status.chain (8 + 9) := Codec.takes_uint 8 _
  have hgenesis : b256Codec.Takes status.genesis (32 + 9) := Codec.takes_fixed _
  have hhash : (Codec.fixed 4).Takes status.forkid.hash (4 + 9) := Codec.takes_fixed _
  have hnext : u64Codec.Takes status.forkid.next (8 + 9) := Codec.takes_uint 8 _
  have hforkid : ForkId.codec.Takes status.forkid (9 + (4 + 9 + (8 + 9))) :=
    takes_derived (hhash.pair hnext)
  have hearliest : u64Codec.Takes status.earliest (8 + 9) := Codec.takes_uint 8 _
  have hlatest : u64Codec.Takes status.latest (8 + 9) := Codec.takes_uint 8 _
  have hblockhash : b256Codec.Takes status.blockhash (32 + 9) := Codec.takes_fixed _
  exact takes_derived (hversion.pair (hchain.pair (hgenesis.pair (hforkid.pair
    (hearliest.pair (hlatest.pair hblockhash))))))

theorem decode_status (status : StatusEth69) :
    StatusEth69.codec.decode (StatusEth69.codec.encode status) = .ok (status, []) :=
  (StatusEth69.strict.roundTrips ((takes_status status).fits (by decide))).reads_end

/-! ## What each side knows of the other -/

/-- What nodes rely on: what fits a message is read back. -/
class LawfulSnappy [Snappy] [SnappyEncoder] : Prop where
  compress : ∀ payload : Bytes, payload.length ≤ RlpxStream.maxPayloadSize →
    ∃ compressed, compressVec payload = .ok compressed ∧ compressed ≠ [] ∧
      Snappy.decompressLen compressed = .ok payload.length ∧
      Snappy.decompressVec compressed = .ok payload

def helloOf (node : LocalNode) : Message := (0x00, Hello.codec.encode node.createLocalHello)

/-- A status that a node may send of itself. -/
structure StatusOf (genesisTime : Nat) (node : LocalNode) (status : StatusEth69) : Prop where
  version_eq : status.version = .eth72
  chain_eq : status.chain = node.networkId
  genesis_eq : status.genesis = node.genesisHash
  forkid_eq : ∃ head, WasixEth.ForkId.ChainHead genesisTime head ∧
    status.forkid = wireForkId (.new node.genesisHash node.chainConfig head genesisTime)

/-- A frame that any stream with the shared capabilities opens to the status. -/
structure Carries [Snappy] (frame : Message) (status : StatusEth69) : Prop where
  id_eq : frame.1 = 0x10
  opened : ∀ stream : PeerStream, stream.sharedCapabilities = shared →
    stream.opened frame = .ok (0x10, StatusEth69.codec.encode status)

section Parties

variable [Snappy] {genesisTime : Nat} {party other : Party}

/-- What is true of a side from the hello of the other on. -/
structure Met (genesisTime : Nat) (party other : Party) : Prop where
  remoteId_eq : party.greeter.stream.remoteId = some other.node.publicKeyB512
  capabilities_eq : party.greeter.stream.sharedCapabilities = shared
  msgBuffer_eq : party.greeter.stream.msgBuffer = []
  sent_eq : ∃ frame status, party.greeter.sent = [helloOf party.node, frame] ∧
    Carries frame status ∧ StatusOf genesisTime party.node status

/-- The other has sent a hello and a status, and everything else is unread. -/
structure Greeted (genesisTime : Nat) (party other : Party) (status : StatusMessage) : Prop
    extends Met genesisTime party other where
  status_eq : ∃ frame status69, status = .eth69 status69 ∧ Carries frame status69 ∧
    StatusOf genesisTime other.node status69 ∧
    other.wrote = helloOf other.node :: frame :: party.unread

def Fits (genesisTime : Nat) (party other : Party) : Prop :=
  match party.greeter.stage with
  | .awaitingHello temp =>
      temp = [] ∧ party.greeter.stream.sharedCapabilities = [] ∧
        party.greeter.stream.msgBuffer = [] ∧ party.greeter.sent = [helloOf party.node] ∧
        party.said = [] ∧ party.unread = other.wrote
  | .awaitingStatus offset version temp =>
      offset = 0x10 ∧ version = 72 ∧ temp = [] ∧ Met genesisTime party other ∧ party.said = [] ∧
        other.wrote = helloOf other.node :: party.unread
  | .done status => Greeted genesisTime party other status
  | .failed _ => False

/-- How far a side has come. -/
def rank (party : Party) : Nat :=
  match party.greeter.stage with
  | .awaitingHello _ | .failed _ => 0
  | .awaitingStatus .. => 1
  | .done _ => 2

/-- A side has sent its hello, and from the hello of the other on its status too. -/
theorem Fits.wrote_eq (h : Fits genesisTime party other) :
    (rank party = 0 ∧ party.wrote = [helloOf party.node]) ∨
    (1 ≤ rank party ∧ ∃ frame status, Carries frame status ∧
      StatusOf genesisTime party.node status ∧
      party.wrote = helloOf party.node :: frame :: party.said) := by
  unfold Fits at h
  unfold rank Party.wrote
  cases hstage : party.greeter.stage with
  | awaitingHello temp =>
      rw [hstage] at h
      obtain ⟨-, -, -, hsent, hsaid, -⟩ := h
      rw [hsent, hsaid]
      exact .inl ⟨rfl, rfl⟩
  | awaitingStatus offset version temp =>
      rw [hstage] at h
      obtain ⟨frame, status, hsent, hcarries, hstatus⟩ := h.2.2.2.1.sent_eq
      rw [hsent]
      exact .inr ⟨Nat.le_refl 1, frame, status, hcarries, hstatus, rfl⟩
  | done status =>
      rw [hstage] at h
      obtain ⟨frame, status, hsent, hcarries, hstatus⟩ := h.sent_eq
      rw [hsent]
      exact .inr ⟨Nat.le_succ 1, frame, status, hcarries, hstatus, rfl⟩
  | failed failure =>
      rw [hstage] at h
      exact h.elim

/-- What the other sends later stays unread. -/
theorem Fits.receive {other' : Party} (h : Fits genesisTime party other)
    (hnode : other'.node = other.node) (hwrote : other.wrote <+: other'.wrote) :
    Fits genesisTime (party.receive other other') other' := by
  obtain ⟨more, hmore⟩ := hwrote
  have hunread : (party.receive other other').unread = party.unread ++ more := by
    unfold Party.receive
    rw [← hmore, List.drop_left]
  unfold Fits at *
  cases hstage : party.greeter.stage with
  | awaitingHello temp =>
      rw [hstage] at h
      obtain ⟨htemp, hcapabilities, hbuffer, hsent, hsaid, hwhole⟩ := h
      have hnow : (party.receive other other').greeter.stage = .awaitingHello temp := hstage
      rw [hnow]
      refine ⟨htemp, hcapabilities, hbuffer, hsent, hsaid, ?_⟩
      rw [hunread, hwhole, hmore]
  | awaitingStatus offset version temp =>
      rw [hstage] at h
      obtain ⟨hoffset, hversion, htemp, hmet, hsaid, hwhole⟩ := h
      have hnow : (party.receive other other').greeter.stage =
        .awaitingStatus offset version temp := hstage
      rw [hnow]
      refine ⟨hoffset, hversion, htemp, ?_, hsaid, ?_⟩
      · exact ⟨hnode ▸ hmet.remoteId_eq, hmet.capabilities_eq, hmet.msgBuffer_eq, hmet.sent_eq⟩
      · rw [← hmore, hwhole, hunread, hnode]
        rfl
  | done status =>
      rw [hstage] at h
      obtain ⟨hmet, frame, status69, hstatus, hcarries, hof, hwhole⟩ := h
      have hnow : (party.receive other other').greeter.stage = .done status := hstage
      rw [hnow]
      refine ⟨?_, frame, status69, hstatus, hcarries, hnode ▸ hof, ?_⟩
      · exact ⟨hnode ▸ hmet.remoteId_eq, hmet.capabilities_eq, hmet.msgBuffer_eq, hmet.sent_eq⟩
      · rw [← hmore, hwhole, hunread, hnode]
        rfl
  | failed failure =>
      rw [hstage] at h
      exact h.elim

/-- What came in for the other makes no difference. -/
theorem Fits.other_receive (h : Fits genesisTime party other) (first second : Party) :
    Fits genesisTime party (other.receive first second) := by
  have hnone : (other.receive first second).wrote.drop other.wrote.length = [] :=
    List.drop_length
  have hsame : party.receive other (other.receive first second) = party := by
    change { party with unread := party.unread ++
      (other.receive first second).wrote.drop other.wrote.length } = party
    rw [hnone, List.append_nil]
  have hfits : Fits genesisTime (party.receive other (other.receive first second))
      (other.receive first second) := h.receive rfl List.prefix_rfl
  rwa [hsame] at hfits

end Parties

/-! ## A hello is answered with a status -/

section Answers

variable [Snappy] [SnappyEncoder] [LawfulSnappy] {genesisTime : Nat}

omit [Snappy] [SnappyEncoder] [LawfulSnappy] in
theorem ethCap_shared {stream : PeerStream} (h : stream.sharedCapabilities = shared) :
    stream.ethCap = some ⟨⟨"eth", 72⟩, 0x10⟩ := by
  unfold PeerStream.ethCap
  rw [h]
  rfl

omit [Snappy] [SnappyEncoder] [LawfulSnappy] in
theorem snappyEnabled_shared {stream : PeerStream} (h : stream.sharedCapabilities = shared) :
    stream.snappyEnabled = true := by
  unfold PeerStream.snappyEnabled PeerStream.rlpx
  rw [h]
  rfl

theorem sendEth_status (stream : PeerStream) (h : stream.sharedCapabilities = shared)
    (status : StatusEth69) :
    ∃ frame, stream.sendEth (StatusMessage.eth69 status).encode 0x00 = .ok frame ∧
      Carries frame status := by
  have hlength : (StatusEth69.codec.encode status).length ≤ RlpxStream.maxPayloadSize :=
    (takes_status status).trans (by decide)
  obtain ⟨compressed, hcompressed, hne, hlen, hvec⟩ := LawfulSnappy.compress _ hlength
  refine ⟨(0x10, compressed), ?_, rfl, ?_⟩
  · unfold PeerStream.sendEth PeerStream.compressedIf
    rw [ethCap_shared h, snappyEnabled_shared h]
    change (orError (compressVec (StatusEth69.codec.encode status)) >>= _) = _
    rw [hcompressed]
    rfl
  · intro other hother
    have henabled : other.rlpx.snappyEnabled = true := snappyEnabled_shared hother
    unfold PeerStream.opened RlpxStream.decompressed
    rw [if_pos ⟨.inl (Nat.le_refl 16), henabled⟩]
    dsimp only
    rw [if_neg (by simpa using hne), hlen]
    dsimp only
    rw [if_neg (Nat.not_lt.mpr hlength), hvec]

omit [Snappy] [SnappyEncoder] [LawfulSnappy] in
theorem createLocalStatus_shared (node : LocalNode) (stream : PeerStream) {views : Views}
    (h : stream.sharedCapabilities = shared) (hviews : ∀ i, OnChain genesisTime (views i)) :
    ∃ status, createLocalStatus node stream views = .eth69 status ∧
      StatusOf genesisTime node status := by
  unfold createLocalStatus
  rw [ethCap_shared h]
  refine ⟨_, rfl, rfl, rfl, rfl, (views 2).head, (hviews 2).2, ?_⟩
  rw [← (hviews 2).1]
  rfl

theorem receiveHello_helloOf (mode : Mode) (node other : LocalNode) {views : Views}
    {greeter : Greeter} (hcapabilities : greeter.stream.sharedCapabilities = [])
    (hbuffer : greeter.stream.msgBuffer = []) (hviews : ∀ i, OnChain genesisTime (views i)) :
    ∃ frame status, Carries frame status ∧ StatusOf genesisTime node status ∧
      Greeter.receiveHello mode node views greeter [] (helloOf other).2 =
        { stream := {
            remoteId := some other.publicKeyB512
            remoteClientVersion := some "wasix-eth/v0.1.0"
            sharedCapabilities := shared
            msgBuffer := [] }
          stage := .awaitingStatus 0x10 72 []
          sent := greeter.sent ++ [frame] } := by
  let stream : PeerStream := {
    remoteId := some other.publicKeyB512
    remoteClientVersion := some "wasix-eth/v0.1.0"
    sharedCapabilities := shared
    msgBuffer := [] }
  obtain ⟨status, hlocal, hstatus⟩ := createLocalStatus_shared node stream rfl hviews
  obtain ⟨frame, hframe, hcarries⟩ := sendEth_status stream rfl status
  refine ⟨frame, status, hcarries, hstatus, ?_⟩
  have hread : orDecodeError (Hello.codec.decode (helloOf other).2) =
      .ok (other.createLocalHello, []) := by
    unfold helloOf
    rw [decode_hello]
    rfl
  unfold Greeter.receiveHello
  rw [hread]
  dsimp only
  have hnegotiated : (negotiate mode node.createLocalHello.capabilities
      other.createLocalHello.capabilities).run = .ok (.ok shared) := negotiate_local mode
  rw [hnegotiated]
  dsimp only [Greeter.restore]
  rw [hcapabilities, hbuffer]
  change Greeter.beginStatus ⟨stream, _, _⟩ (createLocalStatus node stream views) = _
  rw [hlocal]
  unfold Greeter.beginStatus Greeter.sendThen
  dsimp only
  rw [ethCap_shared rfl, hframe]

/-! ## A status is accepted -/

omit [Snappy] [SnappyEncoder] [LawfulSnappy] in
theorem readStatus_encode (status : StatusEth69) :
    readStatus 72 (StatusEth69.codec.encode status) = .ok (.eth69 status) := by
  unfold readStatus
  have hversion : EthVersion.tryFrom 72 = some .eth72 := rfl
  rw [hversion]
  dsimp only
  rw [decode_status]

omit [Snappy] [SnappyEncoder] [LawfulSnappy] in
theorem judgeStatus_ok {node other : LocalNode} (hchain : SameChain genesisTime node other)
    {view : ChainView} (hview : OnChain genesisTime view) {status : StatusEth69}
    (h : StatusOf genesisTime other status) :
    judgeStatus node view (.eth69 status) = .ok () := by
  obtain ⟨head, hhead, hforkid⟩ := h.forkid_eq
  have hgenesis : (StatusMessage.eth69 status).genesis = node.genesisHash :=
    h.genesis_eq.trans hchain.genesis_eq.symm
  have hread : readForkId (StatusMessage.eth69 status).forkid =
      .new node.genesisHash node.chainConfig head genesisTime := by
    change readForkId status.forkid = _
    rw [hforkid, ← hchain.genesis_eq, ← hchain.config_eq]
    exact readForkId_wireForkId (next_lt _ head genesisTime hchain.fits)
  unfold judgeStatus
  rw [if_neg (Decidable.not_not.mpr hgenesis), hread, hview.1,
    WasixEth.ForkId.validate_new _ _ hhead hchain.distinct]

/-! ## One turn -/

variable {party other : Party}

/-- A turn keeps what was sent. -/
structure Advances (genesisTime : Nat) (party other party' : Party) : Prop where
  fits : Fits genesisTime party' other
  node_eq : party'.node = party.node
  wrote : party.wrote <+: party'.wrote
  rank_le : rank party ≤ rank party'

/-- A turn with something to read goes on. -/
structure Proceeds (genesisTime : Nat) (party other party' : Party) : Prop
    extends Advances genesisTime party other party' where
  greets : 1 ≤ rank party'
  finishes : 1 ≤ rank party → 1 ≤ rank other → rank party' = 2

omit [SnappyEncoder] [LawfulSnappy] in
theorem Advances.refl (h : Fits genesisTime party other) :
    Advances genesisTime party other party := ⟨h, rfl, List.prefix_rfl, Nat.le_refl _⟩

theorem poll_awaitingHello (mode : Mode) {views : Views}
    (hviews : ∀ i, OnChain genesisTime (views i)) (h : Fits genesisTime party other)
    (hother : Fits genesisTime other party) {temp : List Message}
    (hstage : party.greeter.stage = .awaitingHello temp) :
    Proceeds genesisTime party other (party.poll mode views) := by
  unfold Fits at h
  rw [hstage] at h
  obtain ⟨rfl, hcapabilities, hbuffer, hsent, hsaid, hunread⟩ := h
  obtain ⟨more, hmore⟩ : ∃ more, other.wrote = helloOf other.node :: more := by
    rcases hother.wrote_eq with ⟨-, hwrote⟩ | ⟨-, frame, status, -, -, hwrote⟩
    · exact ⟨_, hwrote⟩
    · exact ⟨_, hwrote⟩
  obtain ⟨frame, status, hcarries, hstatus, hreceive⟩ :=
    receiveHello_helloOf mode party.node other.node hcapabilities hbuffer hviews
  have hpoll : party.poll mode views = { party with
      greeter := {
        stream := {
          remoteId := some other.node.publicKeyB512
          remoteClientVersion := some "wasix-eth/v0.1.0"
          sharedCapabilities := shared
          msgBuffer := [] }
        stage := .awaitingStatus 0x10 72 []
        sent := party.greeter.sent ++ [frame] }
      unread := more } := by
    have hzero : (helloOf other.node).1 = 0x00 := rfl
    unfold Party.poll Greeter.poll
    rw [hstage, hbuffer, hunread, hmore]
    dsimp only
    rw [opened_of_nil hcapabilities]
    dsimp only
    unfold Greeter.onMessage
    rw [hstage]
    dsimp only
    rw [if_pos hzero, hreceive]
  have hrank : rank party = 0 := by
    unfold rank
    rw [hstage]
  rw [hpoll]
  constructor
  · constructor
    · refine ⟨rfl, rfl, rfl, ⟨rfl, rfl, rfl, frame, status, ?_, hcarries, hstatus⟩, hsaid, hmore⟩
      change party.greeter.sent ++ [frame] = _
      rw [hsent]
      rfl
    · rfl
    · refine ⟨[frame], ?_⟩
      unfold Party.wrote
      rw [hsaid, List.append_nil, List.append_nil]
    · rw [hrank]
      exact Nat.zero_le _
  · exact Nat.le_refl 1
  · intro hle
    rw [hrank] at hle
    exact absurd hle (by decide)

omit [SnappyEncoder] [LawfulSnappy] in
/-- A status that came is read. -/
theorem status_arrived (hother : Fits genesisTime other party)
    (hwhole : other.wrote = helloOf other.node :: party.unread) :
    (rank other = 0 ∧ party.unread = []) ∨
    (∃ frame status, Carries frame status ∧ StatusOf genesisTime other.node status ∧
      party.unread = frame :: other.said) := by
  rcases hother.wrote_eq with ⟨hzero, hwrote⟩ | ⟨-, frame, status, hcarries, hstatus, hwrote⟩
  · rw [hwhole] at hwrote
    exact .inl ⟨hzero, (List.cons.inj hwrote).2⟩
  · rw [hwhole] at hwrote
    exact .inr ⟨frame, status, hcarries, hstatus, (List.cons.inj hwrote).2⟩

omit [LawfulSnappy] in
theorem poll_awaitingStatus (mode : Mode) {views : Views}
    (hchain : SameChain genesisTime party.node other.node)
    (hviews : ∀ i, OnChain genesisTime (views i)) (h : Fits genesisTime party other)
    (hother : Fits genesisTime other party) {offset : UInt8} {version : Nat}
    {temp : List Message} (hstage : party.greeter.stage = .awaitingStatus offset version temp) :
    Proceeds genesisTime party other (party.poll mode views) := by
  have hfits := h
  unfold Fits at h
  rw [hstage] at h
  obtain ⟨rfl, rfl, rfl, hmet, hsaid, hwhole⟩ := h
  have hrank : rank party = 1 := by
    unfold rank
    rw [hstage]
  rcases status_arrived hother hwhole with
    ⟨hzero, hunread⟩ | ⟨frame, status, hcarries, hstatus, hunread⟩
  · have hpoll : party.poll mode views = party := by
      unfold Party.poll Greeter.poll
      rw [hstage, hmet.msgBuffer_eq, hunread]
      dsimp only
      rw [← hunread]
    rw [hpoll]
    refine ⟨.refl hfits, hrank.ge, fun _ hone => ?_⟩
    rw [hzero] at hone
    exact absurd hone (by decide)
  · have hpoll : party.poll mode views = { party with
        greeter := { party.greeter with stage := .done (.eth69 status) }
        unread := other.said } := by
      unfold Party.poll Greeter.poll
      rw [hstage, hmet.msgBuffer_eq, hunread]
      dsimp only
      rw [hcarries.opened _ hmet.capabilities_eq]
      dsimp only
      unfold Greeter.onMessage
      rw [hstage]
      dsimp only
      rw [if_pos rfl]
      unfold Greeter.receiveStatus
      rw [readStatus_encode]
      dsimp only
      rw [judgeStatus_ok hchain (hviews 0) hstatus]
      dsimp only [Greeter.restore]
      rw [List.nil_append]
    rw [hpoll]
    constructor
    · constructor
      · refine ⟨⟨hmet.remoteId_eq, hmet.capabilities_eq, hmet.msgBuffer_eq, hmet.sent_eq⟩, frame,
          status, rfl, hcarries, hstatus, ?_⟩
        rw [hwhole, hunread]
      · rfl
      · exact List.prefix_rfl
      · rw [hrank]
        exact Nat.le_succ 1
    · exact Nat.le_succ 1
    · exact fun _ _ => rfl

theorem Fits.poll (mode : Mode) {views : Views}
    (hchain : SameChain genesisTime party.node other.node)
    (hviews : ∀ i, OnChain genesisTime (views i)) (h : Fits genesisTime party other)
    (hother : Fits genesisTime other party) :
    Proceeds genesisTime party other (party.poll mode views) := by
  cases hstage : party.greeter.stage with
  | awaitingHello temp => exact poll_awaitingHello mode hviews h hother hstage
  | awaitingStatus offset version temp =>
      exact poll_awaitingStatus mode hchain hviews h hother hstage
  | done status =>
      have hpoll : party.poll mode views = party := by
        unfold Party.poll Greeter.poll
        rw [hstage]
      have hrank : rank party = 2 := by
        unfold rank
        rw [hstage]
      rw [hpoll]
      exact ⟨.refl h, by omega, fun _ _ => hrank⟩
  | failed failure =>
      unfold Fits at h
      rw [hstage] at h
      exact h.elim

omit [SnappyEncoder] [LawfulSnappy] in
theorem Fits.say (message : Message) (h : Fits genesisTime party other) :
    Advances genesisTime party other (party.say message) := by
  unfold Party.say
  cases hstage : party.greeter.stage with
  | done status =>
      unfold Fits at h
      rw [hstage] at h
      constructor
      · unfold Fits
        rw [hstage]
        exact ⟨⟨h.remoteId_eq, h.capabilities_eq, h.msgBuffer_eq, h.sent_eq⟩, h.status_eq⟩
      · rfl
      · refine ⟨[message], ?_⟩
        unfold Party.wrote
        exact List.append_assoc _ _ _
      · exact Nat.le_refl _
  | awaitingHello temp => exact .refl h
  | awaitingStatus offset version temp => exact .refl h
  | failed failure => exact .refl h

end Answers

/-! ## The whole meeting -/

namespace MeetingEvent

/-- What a node sees of its chain in the meantime. -/
def OnChain (genesisTime : Nat) : MeetingEvent → Prop
  | .poll _ views => ∀ i, Greeting.OnChain genesisTime (views i)
  | .say .. => True

def polled : MeetingEvent → Option Bool
  | .poll dialer _ => some dialer
  | .say .. => none

end MeetingEvent

namespace Meeting

def start (dialer listener : LocalNode) (dialerKnows listenerKnows : Option (FixedBytes 64)) :
    Meeting where
  dialer := .start dialer dialerKnows [helloOf listener]
  listener := .start listener listenerKnows [helloOf dialer]

/-! ## How many turns it takes -/

/-- The turns that bring sides of these ranks to their end. -/
inductive Due (dialer listener : Nat) : List Bool → Prop
  | nobody : Due dialer listener [true, false, true, false]
  | dialerMet (hdialer : 1 ≤ dialer) : Due dialer listener [false, true, false]
  | bothMet (hdialer : 1 ≤ dialer) (hlistener : 1 ≤ listener) : Due dialer listener [true, false]
  | dialerDone (hdialer : 2 ≤ dialer) (hlistener : 1 ≤ listener) : Due dialer listener [false]
  | bothDone (hdialer : 2 ≤ dialer) (hlistener : 2 ≤ listener) : Due dialer listener []

variable {d l d' l' : Nat} {turns : List Bool}

theorem Due.mono (h : Due d l turns) (hdialer : d ≤ d') (hlistener : l ≤ l') :
    Due d' l' turns := by
  cases h with
  | nobody => exact .nobody
  | dialerMet h => exact .dialerMet (h.trans hdialer)
  | bothMet h h' => exact .bothMet (h.trans hdialer) (h'.trans hlistener)
  | dialerDone h h' => exact .dialerDone (h.trans hdialer) (h'.trans hlistener)
  | bothDone h h' => exact .bothDone (h.trans hdialer) (h'.trans hlistener)

theorem Due.dialer_turn (h : Due d l (true :: turns)) (hgreets : 1 ≤ d')
    (hfinishes : 1 ≤ d → 1 ≤ l → d' = 2) : Due d' l turns := by
  cases h with
  | nobody => exact .dialerMet hgreets
  | bothMet hd hl => exact .dialerDone (hfinishes hd hl).ge hl

theorem Due.listener_turn (h : Due d l (false :: turns)) (hgreets : 1 ≤ l')
    (hfinishes : 1 ≤ l → 1 ≤ d → l' = 2) : Due d l' turns := by
  cases h with
  | dialerMet hd => exact .bothMet hd hgreets
  | dialerDone hd hl => exact .bothDone hd (hfinishes hl (Nat.le_of_succ_le hd)).ge

/-! ## Runs -/

section Runs

variable [Snappy] [SnappyEncoder] {genesisTime : Nat} {dialer listener : LocalNode}
  {meeting : Meeting} {event : MeetingEvent} {turns : List Bool}

structure Sound (genesisTime : Nat) (dialer listener : LocalNode) (meeting : Meeting) : Prop where
  dialer_eq : meeting.dialer.node = dialer
  listener_eq : meeting.listener.node = listener
  dialer_fits : Fits genesisTime meeting.dialer meeting.listener
  listener_fits : Fits genesisTime meeting.listener meeting.dialer

omit [SnappyEncoder] in
theorem sound_start (genesisTime : Nat) (dialer listener : LocalNode)
    (dialerKnows listenerKnows : Option (FixedBytes 64)) :
    Sound genesisTime dialer listener (start dialer listener dialerKnows listenerKnows) :=
  ⟨rfl, rfl, ⟨rfl, rfl, rfl, rfl, rfl, rfl⟩, ⟨rfl, rfl, rfl, rfl, rfl, rfl⟩⟩

omit [SnappyEncoder] in
theorem Sound.dialer_turn (h : Sound genesisTime dialer listener meeting) {party : Party}
    (hturn : Advances genesisTime meeting.dialer meeting.listener party) :
    Sound genesisTime dialer listener
      ⟨party, meeting.listener.receive meeting.dialer party⟩ where
  dialer_eq := hturn.node_eq.trans h.dialer_eq
  listener_eq := h.listener_eq
  dialer_fits := hturn.fits.other_receive _ _
  listener_fits := h.listener_fits.receive hturn.node_eq hturn.wrote

omit [SnappyEncoder] in
theorem Sound.listener_turn (h : Sound genesisTime dialer listener meeting) {party : Party}
    (hturn : Advances genesisTime meeting.listener meeting.dialer party) :
    Sound genesisTime dialer listener
      ⟨meeting.dialer.receive meeting.listener party, party⟩ where
  dialer_eq := h.dialer_eq
  listener_eq := hturn.node_eq.trans h.listener_eq
  dialer_fits := h.dialer_fits.receive hturn.node_eq hturn.wrote
  listener_fits := hturn.fits.other_receive _ _

/-- The turns that are due after an event. -/
theorem Sound.step [LawfulSnappy] (mode : Mode) (hchain : SameChain genesisTime dialer listener)
    (h : Sound genesisTime dialer listener meeting) (hevent : event.OnChain genesisTime)
    (hdue : Due (rank meeting.dialer) (rank meeting.listener) turns) :
    Sound genesisTime dialer listener (meeting.step mode event) ∧
      ∀ rest, turns = event.polled.toList ++ rest ∨ turns = rest →
        Due (rank (meeting.step mode event).dialer) (rank (meeting.step mode event).listener)
          rest := by
  have hdialer : SameChain genesisTime meeting.dialer.node meeting.listener.node := by
    rw [h.dialer_eq, h.listener_eq]
    exact hchain
  cases event with
  | poll side views =>
      cases side with
      | true =>
          have hturn := Fits.poll mode hdialer hevent h.dialer_fits h.listener_fits
          refine ⟨h.dialer_turn hturn.toAdvances, ?_⟩
          rintro rest (rfl | rfl)
          · exact hdue.dialer_turn hturn.greets hturn.finishes
          · exact hdue.mono hturn.rank_le (Nat.le_refl _)
      | false =>
          have hturn := Fits.poll mode hdialer.symm hevent h.listener_fits h.dialer_fits
          refine ⟨h.listener_turn hturn.toAdvances, ?_⟩
          rintro rest (rfl | rfl)
          · exact hdue.listener_turn hturn.greets hturn.finishes
          · exact hdue.mono (Nat.le_refl _) hturn.rank_le
  | say side message =>
      cases side with
      | true =>
          have hturn := Fits.say message h.dialer_fits
          refine ⟨h.dialer_turn hturn, ?_⟩
          rintro rest (rfl | rfl)
          · exact hdue.mono hturn.rank_le (Nat.le_refl _)
          · exact hdue.mono hturn.rank_le (Nat.le_refl _)
      | false =>
          have hturn := Fits.say message h.listener_fits
          refine ⟨h.listener_turn hturn, ?_⟩
          rintro rest (rfl | rfl)
          · exact hdue.mono (Nat.le_refl _) hturn.rank_le
          · exact hdue.mono (Nat.le_refl _) hturn.rank_le

/-- Every run is sound, and one with the turns that are due among its own comes to its end. -/
theorem Sound.run [LawfulSnappy] (mode : Mode) (hchain : SameChain genesisTime dialer listener)
    {events : List MeetingEvent} (hevents : ∀ event ∈ events, event.OnChain genesisTime)
    (h : Sound genesisTime dialer listener meeting)
    (hdue : Due (rank meeting.dialer) (rank meeting.listener) turns) :
    Sound genesisTime dialer listener (meeting.run mode events) ∧
      (turns.Sublist (events.filterMap MeetingEvent.polled) →
        Due (rank (meeting.run mode events).dialer) (rank (meeting.run mode events).listener)
          []) := by
  induction events generalizing meeting turns with
  | nil =>
      refine ⟨h, fun hturns => ?_⟩
      obtain rfl := List.sublist_nil.mp hturns
      exact hdue
  | cons event events ih =>
      have hevent := hevents event List.mem_cons_self
      have hrest := fun later hmem => hevents later (List.mem_cons_of_mem event hmem)
      obtain ⟨hstep, hthen⟩ := h.step mode hchain hevent hdue
      refine ⟨(ih hrest hstep (hthen turns (.inr rfl))).1, fun hturns => ?_⟩
      cases hpolled : event.polled with
      | none =>
          rw [List.filterMap_cons_none hpolled] at hturns
          exact (ih hrest hstep (hthen turns (.inr rfl))).2 hturns
      | some side =>
          rw [List.filterMap_cons_some hpolled] at hturns
          rw [hpolled] at hthen
          rcases List.sublist_cons_iff.mp hturns with hlater | ⟨rest, hnow, hlater⟩
          · exact (ih hrest hstep (hthen turns (.inr rfl))).2 hlater
          · exact (ih hrest hstep (hthen rest (.inl hnow))).2 hlater

/-- What a side may count on. -/
structure Assured (genesisTime : Nat) (party other : Party) : Prop where
  unfailed : ∀ failure, party.greeter.stage ≠ .failed failure
  greeted : ∀ status, party.greeter.stage = .done status →
    Greeted genesisTime party other status ∧ party.unread = other.said

omit [SnappyEncoder] in
theorem assured {party other : Party} (h : Fits genesisTime party other)
    (hother : Fits genesisTime other party) : Assured genesisTime party other where
  unfailed := by
    intro failure hstage
    unfold Fits at h
    rw [hstage] at h
    exact h
  greeted := by
    intro status hstage
    unfold Fits at h
    rw [hstage] at h
    obtain ⟨frame, status69, -, -, -, hwhole⟩ := h.status_eq
    rcases hother.wrote_eq with ⟨-, hwrote⟩ | ⟨-, frame, status', -, -, hwrote⟩
    · rw [hwhole] at hwrote
      exact absurd (List.cons.inj hwrote).2 (List.cons_ne_nil _ _)
    · rw [hwhole] at hwrote
      exact ⟨h, (List.cons.inj (List.cons.inj hwrote).2).2⟩

omit [Snappy] [SnappyEncoder] in
theorem exists_status_of_rank {party : Party} (h : 2 ≤ rank party) :
    ∃ status, party.greeter.stage = .done status := by
  unfold rank at h
  cases hstage : party.greeter.stage with
  | done status => exact ⟨status, rfl⟩
  | awaitingHello temp =>
      rw [hstage] at h
      exact absurd h (Nat.not_succ_le_zero 1)
  | awaitingStatus offset version temp =>
      rw [hstage] at h
      exact absurd h (Nat.not_succ_le_self 1)
  | failed failure =>
      rw [hstage] at h
      exact absurd h (Nat.not_succ_le_zero 1)

/-- Two nodes of one chain meet, whatever heads their chains reach meanwhile and in whatever
order they read and write. Neither ever fails. One that is through knows the other by its key,
shares eth 72 and snap 1 with it, has the status that the other sent and has left every later
message of the other unread. Both are through as soon as each has had two turns, the dialer
first. -/
theorem two_nodes_meet [LawfulSnappy] (mode : Mode)
    (hchain : SameChain genesisTime dialer listener)
    (dialerKnows listenerKnows : Option (FixedBytes 64)) (events : List MeetingEvent)
    (hevents : ∀ event ∈ events, event.OnChain genesisTime) :
    let met := (start dialer listener dialerKnows listenerKnows).run mode events
    met.dialer.node = dialer ∧ met.listener.node = listener ∧
      Assured genesisTime met.dialer met.listener ∧
      Assured genesisTime met.listener met.dialer ∧
      ([true, false, true, false].Sublist (events.filterMap MeetingEvent.polled) →
        (∃ status, met.dialer.greeter.stage = .done status) ∧
          ∃ status, met.listener.greeter.stage = .done status) := by
  have hstart := sound_start genesisTime dialer listener dialerKnows listenerKnows
  obtain ⟨hsound, hends⟩ := hstart.run mode hchain hevents .nobody
  refine ⟨hsound.dialer_eq, hsound.listener_eq,
    assured hsound.dialer_fits hsound.listener_fits,
    assured hsound.listener_fits hsound.dialer_fits, fun hturns => ?_⟩
  cases hends hturns with
  | bothDone hdialer hlistener =>
      exact ⟨exists_status_of_rank hdialer, exists_status_of_rank hlistener⟩

end Runs

/-! ## A meeting -/

section Sample

attribute [local instance] storedSnappy storingEncoder

theorem lawfulSnappy_stored : LawfulSnappy where
  compress payload hpayload := by
    have hlt : payload.length < 2 ^ 32 := Nat.lt_of_le_of_lt hpayload (by decide)
    refine ⟨_, rfl, SnappyFormat.store_ne_nil payload, ?_, ?_⟩
    · change (SnappyFormat.decompressLen (SnappyFormat.store payload)).mapError toString = _
      rw [SnappyFormat.decompressLen_store hlt]
      rfl
    · change (SnappyFormat.decompressVec (SnappyFormat.store payload)).mapError toString = _
      rw [SnappyFormat.decompressVec_store hlt]
      rfl

/-- The same chain under another network id. -/
def otherNetwork : LocalNode := { londonNode (keyOf 2) with networkId := 5 }

theorem sameChain_london : SameChain 0 (londonNode (keyOf 1)) otherNetwork where
  genesis_eq := rfl
  config_eq := rfl
  distinct := by decide +kernel
  fits := by decide +kernel

/-- The listener is slow, and the dialer has something to say at once. -/
def meetingEvents : List MeetingEvent :=
  [.poll true fun _ => atGenesis, .poll false fun _ => atGenesis, .poll true fun _ => atGenesis,
    .say true (0x15, [0xc0]), .poll false fun _ => atGenesis]

theorem onChain_atGenesis (i : Nat) : OnChain 0 ((fun _ => atGenesis : Views) i) :=
  ⟨rfl, .genesis⟩

theorem meetingEvents_onChain : ∀ event ∈ meetingEvents, event.OnChain 0 := by
  unfold meetingEvents
  simp only [List.forall_mem_cons, List.not_mem_nil, false_imp_iff, implies_true, and_true]
  exact ⟨onChain_atGenesis, onChain_atGenesis, onChain_atGenesis, trivial, onChain_atGenesis⟩

theorem london_nodes_meet :
    let met := (start (londonNode (keyOf 1)) otherNetwork (some (keyOf 2)) none).run .checked
      meetingEvents
    met.dialer.node = londonNode (keyOf 1) ∧ met.listener.node = otherNetwork ∧
      Assured 0 met.dialer met.listener ∧ Assured 0 met.listener met.dialer ∧
      ([true, false, true, false].Sublist (meetingEvents.filterMap MeetingEvent.polled) →
        (∃ status, met.dialer.greeter.stage = .done status) ∧
          ∃ status, met.listener.greeter.stage = .done status) :=
  @two_nodes_meet _ _ _ _ _ lawfulSnappy_stored .checked sameChain_london (some (keyOf 2)) none
    meetingEvents meetingEvents_onChain

end Sample

end Meeting

end WasixEth.P2p.Greeting
