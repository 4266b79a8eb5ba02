import WasixEth.Lib.Table
import WasixEth.Primitives

/-! # The registry of sessions

A node keeps one session for each peer. When two nodes have dialled each other
each of them has to choose between two connections, and chooses by comparing
its own id with the peer's. The two ids are written differently, and so both
nodes believe theirs to be the lower one.
-/

namespace WasixEth.P2p

/-! ## Ids -/

/-- A point of the curve. -/
structure PublicKey where
  x : B256
  y : B256
  deriving DecidableEq

/-- `hex::encode`. -/
def hexEncode (bytes : Bytes) : String := String.ofList ((unpackBytes bytes).map hexDigit)

namespace PublicKey

/-- `to_sec1_bytes`: the compressed point. -/
def toSec1Bytes (key : PublicKey) : Bytes :=
  (if (key.y.bytes.getLastD 0).toNat % 2 = 0 then 0x02 else 0x03) :: key.x.bytes

/-- `Identity::peer_id`, the id by which a node knows itself. -/
def peerId (key : PublicKey) : String := hexEncode key.toSec1Bytes

/-- The debug format of a remote id, by which a node is known to others. -/
def remoteIdHex (key : PublicKey) : String := "0x" ++ hexEncode (key.x.bytes ++ key.y.bytes)

/-- The ids agree in their first character; then one has a digit and the other
an x. -/
theorem not_remoteIdHex_lt_peerId (key other : PublicKey) :
    ¬ other.remoteIdHex < key.peerId := by
  have hremote : other.remoteIdHex.toList =
      '0' :: 'x' :: (unpackBytes (other.x.bytes ++ other.y.bytes)).map hexDigit := by
    unfold remoteIdHex hexEncode
    simp [String.toList_append, String.toList_ofList]
  have hown : ∃ digit rest, key.peerId.toList = '0' :: digit :: rest ∧ digit < 'x' := by
    unfold peerId hexEncode toSec1Bytes
    rw [String.toList_ofList]
    split
    · exact ⟨'2', _, rfl, by decide⟩
    · exact ⟨'3', _, rfl, by decide⟩
  obtain ⟨digit, rest, hown, hdigit⟩ := hown
  change ¬ other.remoteIdHex.toList < key.peerId.toList
  rw [hremote, hown, List.cons_lt_cons_iff, List.cons_lt_cons_iff]
  rintro (hlt | ⟨-, hlt | ⟨heq, -⟩⟩)
  · exact absurd hlt (by decide)
  · exact Char.lt_asymm hlt hdigit
  · exact Char.lt_irrefl _ (heq ▸ hdigit)

end PublicKey

/-! ## Sessions -/

/-- The end of a connection at one node. -/
structure PeerSession where
  connection : Nat
  isInitiator : Bool
  deriving DecidableEq

structure RegisteredSession where
  sessionId : Nat
  session : PeerSession
  deriving DecidableEq

inductive DisconnectReason where
  | tooManyPeers
  | alreadyConnected
  deriving DecidableEq

/-- The sessions of a node, and those it has disconnected. -/
structure PeerRegistry where
  localIdentity : PublicKey
  activeSessions : Table String RegisteredSession
  disconnected : List (PeerSession × DisconnectReason)

namespace PeerRegistry

def localPeerId (registry : PeerRegistry) : String := registry.localIdentity.peerId

def disconnect (registry : PeerRegistry) (session : PeerSession) (reason : DisconnectReason) :
    PeerRegistry :=
  { registry with disconnected := registry.disconnected ++ [(session, reason)] }

/-- `guarded` says whether the lock on the sessions was obtained in time. -/
def registerSessionArc (registry : PeerRegistry) (guarded : Bool) (peerId : String)
    (sessionId : Nat) (session : PeerSession) : PeerRegistry :=
  if !guarded then registry.disconnect session .tooManyPeers
  else
    let inserted := { registry with
      activeSessions := registry.activeSessions.insert peerId ⟨sessionId, session⟩ }
    match registry.activeSessions.get peerId with
    | none => inserted
    | some existing =>
        let weAreHigher : Bool := peerId < registry.localPeerId
        let keepExisting := if weAreHigher then existing.session.isInitiator
          else !existing.session.isInitiator
        if keepExisting then registry.disconnect session .alreadyConnected
        else inserted.disconnect existing.session .alreadyConnected

/-- The connection that stands for a peer. -/
def Keeps (registry : PeerRegistry) (peerId : String) (connection : Nat) : Prop :=
  ∃ registered, registry.activeSessions.get peerId = some registered ∧
    registered.session.connection = connection

def Disconnects (registry : PeerRegistry) (connection : Nat) : Prop :=
  ∃ entry ∈ registry.disconnected, entry.1.connection = connection

/-- A node registers the connection it has dialled and the one it has
accepted, in either order. -/
def registerBoth (registry : PeerRegistry) (peerId : String) (dialled accepted : RegisteredSession)
    (dialledFirst : Bool) : PeerRegistry :=
  let register (registry : PeerRegistry) (registered : RegisteredSession) : PeerRegistry :=
    registry.registerSessionArc true peerId registered.sessionId registered.session
  if dialledFirst then register (register registry dialled) accepted
  else register (register registry accepted) dialled

variable {registry : PeerRegistry} {peer : PublicKey} {dialled accepted : RegisteredSession}

/-- A node that does not know the peer yet. -/
theorem registerSessionArc_new (registered : RegisteredSession) {peerId : String}
    (h : registry.activeSessions.get peerId = none) :
    registry.registerSessionArc true peerId registered.sessionId registered.session =
      { registry with
        activeSessions := registry.activeSessions.insert peerId registered } := by
  unfold registerSessionArc
  rw [h]
  rfl

/-- Of two sessions the one that the peer has dialled stays. -/
theorem registerSessionArc_again {existing : RegisteredSession} (registered : RegisteredSession)
    (h : registry.activeSessions.get peer.remoteIdHex = some existing) :
    registry.registerSessionArc true peer.remoteIdHex registered.sessionId registered.session =
      if existing.session.isInitiator then
        { registry with
          activeSessions := registry.activeSessions.insert peer.remoteIdHex registered
          disconnected := registry.disconnected ++ [(existing.session, .alreadyConnected)] }
      else registry.disconnect registered.session .alreadyConnected := by
  have hlower : decide (peer.remoteIdHex < registry.localPeerId) = false :=
    decide_eq_false (PublicKey.not_remoteIdHex_lt_peerId registry.localIdentity peer)
  unfold registerSessionArc
  rw [h]
  dsimp only
  rw [hlower]
  cases existing.session.isInitiator <;> rfl

/-- In whatever order they come, a node keeps the connection it has accepted
and disconnects the one it has dialled. -/
theorem registerBoth_eq (dialled accepted : RegisteredSession)
    (hnew : registry.activeSessions.get peer.remoteIdHex = none)
    (hdialled : dialled.session.isInitiator = true)
    (haccepted : accepted.session.isInitiator = false) (dialledFirst : Bool) :
    (registry.registerBoth peer.remoteIdHex dialled accepted dialledFirst).activeSessions.get
        peer.remoteIdHex = some accepted ∧
      (registry.registerBoth peer.remoteIdHex dialled accepted dialledFirst).disconnected =
        registry.disconnected ++ [(dialled.session, .alreadyConnected)] := by
  unfold registerBoth
  dsimp only
  split
  · rw [registerSessionArc_new dialled hnew,
      registerSessionArc_again accepted (Table.get_insert_self _ _ _), if_pos hdialled]
    exact ⟨Table.get_insert_self _ _ _, rfl⟩
  · rw [registerSessionArc_new accepted hnew,
      registerSessionArc_again dialled (Table.get_insert_self _ _ _),
      if_neg (Bool.not_eq_true _ ▸ haccepted)]
    exact ⟨Table.get_insert_self _ _ _, rfl⟩

theorem localIdentity_registerSessionArc (guarded : Bool) (peerId : String) (sessionId : Nat)
    (session : PeerSession) :
    (registry.registerSessionArc guarded peerId sessionId session).localIdentity =
      registry.localIdentity := by
  unfold registerSessionArc
  dsimp only
  split
  · rfl
  · split
    · rfl
    · split_ifs <;> rfl

theorem localIdentity_registerBoth (peerId : String) (dialledFirst : Bool) :
    (registry.registerBoth peerId dialled accepted dialledFirst).localIdentity =
      registry.localIdentity := by
  unfold registerBoth
  dsimp only
  split <;> rw [localIdentity_registerSessionArc, localIdentity_registerSessionArc]

/-! ## Two nodes -/

/-- Two nodes agree on one of two connections and give up the other. -/
def Converges (a b : PeerRegistry) (first second : Nat) : Prop :=
  ∃ kept dropped, ((kept = first ∧ dropped = second) ∨ (kept = second ∧ dropped = first)) ∧
    a.Keeps b.localIdentity.remoteIdHex kept ∧ b.Keeps a.localIdentity.remoteIdHex kept ∧
    a.Disconnects dropped ∧ b.Disconnects dropped

/-- The registry of a node that has registered what it dialled and what it
accepted. -/
def afterDialling (registry : PeerRegistry) (peer : PublicKey) (dialled accepted : Nat)
    (dialledId acceptedId : Nat) (dialledFirst : Bool) : PeerRegistry :=
  registry.registerBoth peer.remoteIdHex ⟨dialledId, ⟨dialled, true⟩⟩
    ⟨acceptedId, ⟨accepted, false⟩⟩ dialledFirst

theorem keeps_afterDialling {dialled accepted dialledId acceptedId connection : Nat}
    {dialledFirst : Bool} (hnew : registry.activeSessions.get peer.remoteIdHex = none) :
    (registry.afterDialling peer dialled accepted dialledId acceptedId dialledFirst).Keeps
      peer.remoteIdHex connection ↔ connection = accepted := by
  obtain ⟨hkept, -⟩ := registerBoth_eq ⟨dialledId, ⟨dialled, true⟩⟩
    ⟨acceptedId, ⟨accepted, false⟩⟩ hnew rfl rfl dialledFirst
  unfold Keeps afterDialling
  rw [hkept]
  constructor
  · rintro ⟨_, heq, rfl⟩
    rw [← Option.some.inj heq]
  · rintro rfl
    exact ⟨_, rfl, rfl⟩

theorem disconnects_afterDialling {dialled accepted dialledId acceptedId : Nat}
    {dialledFirst : Bool} (hnew : registry.activeSessions.get peer.remoteIdHex = none) :
    (registry.afterDialling peer dialled accepted dialledId acceptedId
      dialledFirst).Disconnects dialled := by
  obtain ⟨-, hdropped⟩ := registerBoth_eq ⟨dialledId, ⟨dialled, true⟩⟩
    ⟨acceptedId, ⟨accepted, false⟩⟩ hnew rfl rfl dialledFirst
  unfold Disconnects afterDialling
  rw [hdropped]
  exact ⟨_, List.mem_append_right _ (List.mem_singleton_self _), rfl⟩

theorem not_converges_afterDialling {a b : PeerRegistry} {first second : Nat} {f : Fin 4 → Nat}
    {aFirst bFirst : Bool} (hne : first ≠ second)
    (ha : a.activeSessions.get b.localIdentity.remoteIdHex = none)
    (hb : b.activeSessions.get a.localIdentity.remoteIdHex = none) :
    ¬ Converges (a.afterDialling b.localIdentity first second (f 0) (f 1) aFirst)
      (b.afterDialling a.localIdentity second first (f 2) (f 3) bFirst) first second := by
  rintro ⟨kept, dropped, -, hkept, hkept', -, -⟩
  have hida : (a.afterDialling b.localIdentity first second (f 0) (f 1) aFirst).localIdentity =
    a.localIdentity := localIdentity_registerBoth _ _
  have hidb : (b.afterDialling a.localIdentity second first (f 2) (f 3) bFirst).localIdentity =
    b.localIdentity := localIdentity_registerBoth _ _
  rw [hidb, keeps_afterDialling ha] at hkept
  rw [hida, keeps_afterDialling hb] at hkept'
  exact hne (hkept'.symm.trans hkept)

/-- Each node gives up the connection it has dialled, so that the two never
agree and both connections are closed. -/
theorem never_converges (a b : PeerRegistry) (first second : Nat) (ids : Fin 4 → Nat)
    (aFirst bFirst : Bool) (hne : first ≠ second)
    (ha : a.activeSessions.get b.localIdentity.remoteIdHex = none)
    (hb : b.activeSessions.get a.localIdentity.remoteIdHex = none) :
    ¬ Converges (a.afterDialling b.localIdentity first second (ids 0) (ids 1) aFirst)
        (b.afterDialling a.localIdentity second first (ids 2) (ids 3) bFirst) first second ∧
      (a.afterDialling b.localIdentity first second (ids 0) (ids 1) aFirst).Disconnects first ∧
      (b.afterDialling a.localIdentity second first (ids 2) (ids 3) bFirst).Disconnects second :=
  ⟨not_converges_afterDialling hne ha hb, disconnects_afterDialling ha,
    disconnects_afterDialling hb⟩

/-- A node that has no sessions yet. -/
def fresh (key : PublicKey) : PeerRegistry := ⟨key, ∅, []⟩

theorem never_converges_fresh :
    ¬ Converges
        ((fresh ⟨B256.leading 1, B256.leading 2⟩).afterDialling
          ⟨B256.leading 3, B256.leading 4⟩ 1 2 1 2 true)
        ((fresh ⟨B256.leading 3, B256.leading 4⟩).afterDialling
          ⟨B256.leading 1, B256.leading 2⟩ 2 1 3 4 true) 1 2 :=
  (never_converges (fresh ⟨B256.leading 1, B256.leading 2⟩)
    (fresh ⟨B256.leading 3, B256.leading 4⟩) 1 2 (fun i => i.val + 1) true true (by decide) rfl
    rfl).1

/-- Both nodes register the connection of the first node first. Afterwards the
first node has the second connection only, and the second node the first. -/
theorem crossed_fresh :
    ((fresh ⟨B256.leading 1, B256.leading 2⟩).afterDialling
        ⟨B256.leading 3, B256.leading 4⟩ 1 2 1 2 true).activeSessions.get
        (PublicKey.remoteIdHex ⟨B256.leading 3, B256.leading 4⟩) = some ⟨2, 2, false⟩ ∧
      ((fresh ⟨B256.leading 3, B256.leading 4⟩).afterDialling
        ⟨B256.leading 1, B256.leading 2⟩ 2 1 3 4 false).activeSessions.get
        (PublicKey.remoteIdHex ⟨B256.leading 1, B256.leading 2⟩) = some ⟨4, 1, false⟩ ∧
      ((fresh ⟨B256.leading 1, B256.leading 2⟩).afterDialling
        ⟨B256.leading 3, B256.leading 4⟩ 1 2 1 2 true).disconnected =
          [(⟨1, true⟩, .alreadyConnected)] ∧
      ((fresh ⟨B256.leading 3, B256.leading 4⟩).afterDialling
        ⟨B256.leading 1, B256.leading 2⟩ 2 1 3 4 false).disconnected =
          [(⟨2, true⟩, .alreadyConnected)] ∧
      ¬ Converges
        ((fresh ⟨B256.leading 1, B256.leading 2⟩).afterDialling
          ⟨B256.leading 3, B256.leading 4⟩ 1 2 1 2 true)
        ((fresh ⟨B256.leading 3, B256.leading 4⟩).afterDialling
          ⟨B256.leading 1, B256.leading 2⟩ 2 1 3 4 false) 1 2 := by
  refine ⟨by decide +kernel, by decide +kernel, by decide +kernel, by decide +kernel, ?_⟩
  exact not_converges_afterDialling (a := fresh ⟨B256.leading 1, B256.leading 2⟩)
    (b := fresh ⟨B256.leading 3, B256.leading 4⟩) (f := fun i => i.val + 1) (by decide) rfl rfl

end PeerRegistry

end WasixEth.P2p
