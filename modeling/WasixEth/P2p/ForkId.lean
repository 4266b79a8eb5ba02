import WasixEth.ChainConfig
import WasixEth.Lib.Crc32
import WasixEth.Lib.RlpUint
import WasixEth.Primitives

/-! # Fork identifiers

`ForkId::new` announces the fork state of a head, `ForkId::validate` judges the
one that a peer announces. Both walk over the forks of the config, block numbers
before timestamps. The abstract side is the list of fork points of the chain and
the rules of EIP-2124 over it.
-/

namespace WasixEth

/-- The checksum of the forks passed, as a number, and the next fork or zero. -/
structure ForkId where
  hash : UInt32
  next : Nat
  deriving DecidableEq

namespace ForkId

/-- `(fork_val, is_timestamp)`. -/
structure Point where
  value : Nat
  isTimestamp : Bool
  deriving DecidableEq

/-- The order of `(is_timestamp, fork_val)`. -/
def Point.le (a b : Point) : Prop :=
  (!a.isTimestamp && b.isTimestamp) = true ∨ (a.isTimestamp = b.isTimestamp ∧ a.value ≤ b.value)

instance : DecidableRel Point.le := fun _ _ => inferInstanceAs (Decidable (_ ∨ (_ ∧ _)))

def pushed (isTimestamp : Bool) (value : Option Nat) : List Point :=
  value.toList.map fun value => ⟨value, isTimestamp⟩

/-- The forks of a config, sorted. -/
@[irreducible] def forks (config : ChainConfig) : List Point :=
  (pushed false config.homesteadBlock ++ pushed false config.daoForkBlock ++
    pushed false config.eip150Block ++ pushed false config.eip155Block ++
    pushed false config.eip158Block ++ pushed false config.byzantiumBlock ++
    pushed false config.constantinopleBlock ++ pushed false config.petersburgBlock ++
    pushed false config.istanbulBlock ++ pushed false config.muirGlacierBlock ++
    pushed false config.berlinBlock ++ pushed false config.londonBlock ++
    pushed false config.arrowGlacierBlock ++ pushed false config.grayGlacierBlock ++
    pushed false config.mergeNetsplitBlock ++ pushed true config.shanghaiTime ++
    pushed true config.cancunTime ++ pushed true config.pragueTime).insertionSort Point.le

/-- The number and the timestamp of a block. -/
structure Head where
  number : Nat
  time : Nat

def Head.active (head : Head) (point : Point) : Bool :=
  if point.isTimestamp then decide (point.value ≤ head.time)
  else decide (point.value ≤ head.number)

def isGenesis (genesisTime : Nat) (point : Point) : Bool :=
  if point.isTimestamp then decide (point.value ≤ genesisTime) else point.value == 0

def toBeBytes (value : Nat) : Bytes := Rlp.beBytes 8 value

/-! ## Announcing -/

def newLoop (head : Head) (genesisTime : Nat) (digest : Crc32.Digest) (lastAdded : Nat) :
    List Point → Crc32.Digest × Nat
  | [] => (digest, 0)
  | point :: rest =>
      if head.active point then
        if !isGenesis genesisTime point && point.value != lastAdded then
          newLoop head genesisTime (Crc32.update digest (toBeBytes point.value)) point.value rest
        else newLoop head genesisTime digest lastAdded rest
      else (digest, point.value)

def new (genesisHash : B256) (config : ChainConfig) (head : Head) (genesisTime : Nat) : ForkId :=
  let (digest, next) :=
    newLoop head genesisTime (Crc32.update Crc32.start genesisHash.bytes) 0 (forks config)
  ⟨Crc32.finalize digest, next⟩

/-! ## Judging -/

/-- The checksum after every fork, each with the value of the fork. -/
def localHashesLoop (genesisTime : Nat) (digest : Crc32.Digest) (lastAdded : Nat) :
    List Point → List (UInt32 × Nat)
  | [] => []
  | point :: rest =>
      if !isGenesis genesisTime point && point.value != lastAdded then
        let digest := Crc32.update digest (toBeBytes point.value)
        (Crc32.finalize digest, point.value) ::
          localHashesLoop genesisTime digest point.value rest
      else localHashesLoop genesisTime digest lastAdded rest

def localHashes (genesisHash : B256) (config : ChainConfig) (genesisTime : Nat) :
    List (UInt32 × Nat) :=
  let digest := Crc32.update Crc32.start genesisHash.bytes
  (Crc32.finalize digest, 0) :: localHashesLoop genesisTime digest 0 (forks config)

/-- `Iterator::rposition`. -/
def rposition {α : Type} (p : α → Bool) (entries : List α) : Option Nat :=
  (entries.reverse.findIdx? p).map fun index => entries.length - 1 - index

def currentLocalIdx (localHashes : List (UInt32 × Nat)) (head : Head) (forks : List Point) : Nat :=
  forks.foldl (fun index point =>
    if head.active point then (rposition (fun entry => entry.2 ≤ point.value) localHashes).getD 0
    else index) 0

def validate (remote : ForkId) (genesisHash : B256) (config : ChainConfig) (head : Head)
    (genesisTime : Nat) : Except String Unit :=
  let localHashes := localHashes genesisHash config genesisTime
  let currentLocalIdx := currentLocalIdx localHashes head (forks config)
  let following (index : Nat) : Nat := (localHashes[index + 1]?.map Prod.snd).getD 0
  match localHashes.findIdx? fun entry => entry.1 == remote.hash with
  | some remoteIdx =>
      if remoteIdx = currentLocalIdx then
        if remote.next ≠ following currentLocalIdx then
          .error (s!"Remote announced next fork {remote.next}, " ++
            s!"but local expects {following currentLocalIdx}")
        else .ok ()
      else if remoteIdx < currentLocalIdx then
        if remote.next ≠ following remoteIdx then
          .error (s!"Remote is behind and announced next fork {remote.next}, " ++
            s!"expected {following remoteIdx}")
        else .ok ()
      else if following currentLocalIdx ≠ 0 ∧ remote.next = following currentLocalIdx then
        .error "Remote bypassed a local fork activation"
      else .ok ()
  | none => .error "Remote has an incompatible fork history entirely"

end ForkId

end WasixEth
